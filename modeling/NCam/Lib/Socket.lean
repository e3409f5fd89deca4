import Mathlib.Data.List.Basic

/-! Reading from a socket until a wanted number of symbols is there. The socket is the list of the pieces in
which it gives them; an empty piece is its end. -/
namespace NCam.Lib.Socket

variable {β : Type*}

/-- Reads until there are `tot` symbols: a stream keeps what is left of a piece, a datagram loses it. -/
def readFull (stream : Bool) : ℕ → List (List β) → List β × List (List β)
  | _, [] => ([], [])
  | tot, seg :: segs =>
    if seg = [] then ([], seg :: segs)
    else if seg.length < tot then
      (seg ++ (readFull stream (tot - seg.length) segs).1, (readFull stream (tot - seg.length) segs).2)
    else (seg.take tot, if stream ∧ tot < seg.length then seg.drop tot :: segs else segs)

variable {tot : ℕ} {segs : List (List β)} {stream : Bool}

theorem readFull_length_le : (readFull stream tot segs).1.length ≤ tot := by
  induction segs generalizing tot with
  | nil => exact Nat.zero_le tot
  | cons seg segs ih =>
    unfold readFull
    split_ifs with hnil hlt
    · exact Nat.zero_le tot
    · rw [List.length_append]
      have hrest := @ih (tot - seg.length)
      omega
    · exact List.length_take_le tot seg
    · exact List.length_take_le tot seg

/-- A last piece that is not enough is all that is read. -/
theorem readFull_last {seg : List β} (hne : seg ≠ []) (h : seg.length < tot) :
    (readFull stream tot [seg]).1 = seg := by
  unfold readFull
  rw [if_neg hne, if_pos h]
  exact List.append_nil seg

/-- From a stream that is not at its end the next symbols are read, however they arrive. -/
theorem readFull_stream (hopen : [] ∉ segs) :
    (readFull true tot segs).1 = segs.flatten.take tot ∧
      (readFull true tot segs).2.flatten = segs.flatten.drop tot ∧ [] ∉ (readFull true tot segs).2 := by
  induction segs generalizing tot with
  | nil => exact ⟨by simp [readFull], by simp [readFull], hopen⟩
  | cons seg segs ih =>
    rw [List.mem_cons, not_or] at hopen
    obtain ⟨hseg, hsegs⟩ := hopen
    rw [List.flatten_cons]
    unfold readFull
    rw [if_neg (Ne.symm hseg)]
    by_cases hlt : seg.length < tot
    · rw [if_pos hlt]
      obtain ⟨hgot, hrest, hopen⟩ := @ih (tot - seg.length) hsegs
      refine ⟨?_, ?_, hopen⟩
      · rw [hgot, List.take_append, List.take_of_length_le (Nat.le_of_lt hlt)]
      · rw [hrest, List.drop_append, List.drop_of_length_le (Nat.le_of_lt hlt), List.nil_append]
    · rw [if_neg hlt]
      have hle : tot ≤ seg.length := Nat.le_of_not_lt hlt
      by_cases hleft : tot < seg.length
      · simp only [hleft, and_self, if_true]
        refine ⟨?_, ?_, ?_⟩
        · rw [List.take_append_of_le_length hle]
        · rw [List.flatten_cons, List.drop_append_of_le_length hle]
        · rw [List.mem_cons, not_or]
          refine ⟨fun h => ?_, hsegs⟩
          have := List.drop_eq_nil_iff.mp h.symm
          omega
      · have htot : tot = seg.length := by omega
        simp only [hleft, and_false, if_false]
        refine ⟨?_, ?_, hsegs⟩
        · rw [List.take_append_of_le_length hle]
        · rw [List.drop_append_of_le_length hle, htot, List.drop_length, List.nil_append]

end NCam.Lib.Socket
