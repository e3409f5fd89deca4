import Mathlib.Data.List.Perm.Subperm
import Mathlib.Data.List.Nodup
import Mathlib.Data.List.Range

/-! Singly linked chains of addresses: segments, the loop that looks for a node, and unlinking. -/
namespace NCam.Lib.Chain

/-- From `p` the links lead through the nodes `l` to `q`. -/
def Seg (nxt : ℕ → Option ℕ) : Option ℕ → List ℕ → Option ℕ → Prop
  | p, [], q => p = q
  | p, n :: l, q => p = some n ∧ Seg nxt (nxt n) l q

/-- Walks from a node to the first one that is `target`, with the node before it; `none` when the walk
takes `fuel` steps. -/
def walk (nxt : ℕ → Option ℕ) (target : Option ℕ) :
    ℕ → Option ℕ → Option ℕ → Option (Option ℕ × Option ℕ)
  | 0, _, _ => none
  | _ + 1, none, prv => some (none, prv)
  | fuel + 1, some n, prv =>
    if target = some n then some (some n, prv) else walk nxt target fuel (nxt n) (some n)

/-- Walks from a node to `target` or to the last node of the chain; `none` when that takes `fuel` steps. -/
def walkTo (nxt : ℕ → Option ℕ) (target : ℕ) : ℕ → ℕ → Option ℕ
  | 0, _ => none
  | fuel + 1, n =>
    match nxt n with
    | none => some n
    | some m => if n = target then some n else walkTo nxt target fuel m

variable {nxt : ℕ → Option ℕ} {p q : Option ℕ} {l A B : List ℕ} {x : ℕ}

theorem Seg.append : Seg nxt p (A ++ B) q ↔ ∃ r, Seg nxt p A r ∧ Seg nxt r B q := by
  induction A generalizing p with
  | nil =>
    constructor
    · exact fun h => ⟨p, rfl, h⟩
    · rintro ⟨r, rfl, h⟩
      exact h
  | cons n A ih =>
    simp only [List.cons_append, Seg, ih]
    constructor
    · rintro ⟨hp, r, hA, hB⟩
      exact ⟨r, ⟨hp, hA⟩, hB⟩
    · rintro ⟨r, ⟨hp, hA⟩, hB⟩
      exact ⟨hp, r, hA, hB⟩

theorem Seg.concat : Seg nxt p (A ++ [x]) q ↔ Seg nxt p A (some x) ∧ nxt x = q := by
  rw [Seg.append]
  constructor
  · rintro ⟨r, hA, rfl, h⟩
    exact ⟨hA, h⟩
  · rintro ⟨hA, h⟩
    exact ⟨_, hA, rfl, h⟩

theorem Seg.mid : Seg nxt p (A ++ x :: B) q ↔ Seg nxt p A (some x) ∧ Seg nxt (nxt x) B q := by
  rw [Seg.append]
  constructor
  · rintro ⟨r, hA, rfl, h⟩
    exact ⟨hA, h⟩
  · rintro ⟨hA, h⟩
    exact ⟨_, hA, rfl, h⟩

/-- A segment does not depend on the links of other nodes. -/
theorem Seg.update (hx : x ∉ l) (v : Option ℕ) :
    Seg (Function.update nxt x v) p l q ↔ Seg nxt p l q := by
  induction l generalizing p with
  | nil => exact Iff.rfl
  | cons n l ih =>
    rw [List.mem_cons, not_or] at hx
    simp only [Seg, ih hx.2, Function.update_of_ne (Ne.symm hx.1)]

theorem Seg.unique (hl : Seg nxt p l none) {m : List ℕ} (hm : Seg nxt p m none) : l = m := by
  induction l generalizing p m with
  | nil =>
    obtain rfl : p = none := hl
    cases m with
    | nil => rfl
    | cons n m => cases hm.1
  | cons n l ih =>
    obtain ⟨rfl, hl⟩ := hl
    cases m with
    | nil => cases hm
    | cons k m =>
      obtain ⟨he, hm⟩ := hm
      obtain rfl := Option.some.inj he
      rw [ih hl hm]

/-- The link into a segment comes from the last node before it. -/
theorem Seg.relink (hA : Seg nxt p A q) (hne : A ≠ []) (hnd : A.Nodup) (r : Option ℕ) :
    ∃ y, A.getLast? = some y ∧ nxt y = q ∧ Seg (Function.update nxt y r) p A r := by
  obtain ⟨init, y, rfl⟩ : ∃ init y, A = init ++ [y] := ⟨_, _, (List.dropLast_append_getLast hne).symm⟩
  obtain ⟨hinit, hy⟩ := Seg.concat.mp hA
  have hnot : y ∉ init := by
    intro hm
    exact (List.nodup_append.mp hnd).2.2 y hm y List.mem_cons_self rfl
  exact ⟨y, by simp, hy, Seg.concat.mpr ⟨(Seg.update hnot r).mpr hinit, Function.update_self _ _ _⟩⟩

/-- A walk finds the node before `x` if `x` is there. -/
theorem walk_found (h : Seg nxt p (A ++ x :: B) q) (hx : x ∉ A) (prv : Option ℕ) {fuel : ℕ}
    (hf : A.length < fuel) :
    walk nxt (some x) fuel p prv = some (some x, A.getLast?.or prv) := by
  induction A generalizing p prv fuel with
  | nil =>
    obtain ⟨fuel, rfl⟩ : ∃ k, fuel = k + 1 := ⟨fuel - 1, by omega⟩
    obtain ⟨rfl, -⟩ := h
    simp [walk]
  | cons n A ih =>
    rw [List.length_cons] at hf
    obtain ⟨fuel, rfl⟩ : ∃ k, fuel = k + 1 := ⟨fuel - 1, by omega⟩
    obtain ⟨rfl, hrest⟩ := h
    rw [List.mem_cons, not_or] at hx
    have hne : some x ≠ some n := fun he => hx.1 (Option.some.inj he)
    rw [walk, if_neg hne, ih hrest hx.2 (some n) (by omega)]
    cases A with
    | nil => simp
    | cons m A =>
      rw [List.getLast?_cons_cons, List.getLast?_eq_some_getLast (List.cons_ne_nil m A)]
      rfl

/-- A walk along a nil-terminated chain ends, also when nothing is found. -/
theorem walk_notFound (h : Seg nxt p l none) {target : Option ℕ} (hx : ∀ n ∈ l, target ≠ some n)
    (prv : Option ℕ) {fuel : ℕ} (hf : l.length < fuel) :
    ∃ prv', walk nxt target fuel p prv = some (none, prv') := by
  induction l generalizing p prv fuel with
  | nil =>
    obtain ⟨fuel, rfl⟩ : ∃ k, fuel = k + 1 := ⟨fuel - 1, by omega⟩
    obtain rfl : p = none := h
    exact ⟨prv, rfl⟩
  | cons n l ih =>
    rw [List.length_cons] at hf
    obtain ⟨fuel, rfl⟩ : ∃ k, fuel = k + 1 := ⟨fuel - 1, by omega⟩
    obtain ⟨rfl, hrest⟩ := h
    obtain ⟨prv', hw⟩ := ih hrest (fun m hm => hx m (List.mem_cons_of_mem _ hm)) (some n)
      (by omega : l.length < fuel)
    exact ⟨prv', by rw [walk, if_neg (hx n List.mem_cons_self), hw]⟩

/-- A walk to a node stops at it, or at the last node if it is not there. -/
theorem walkTo_stop {y n target fuel : ℕ} (h : Seg nxt (some n) (A ++ y :: B) none)
    (hA : target ∉ A) (hstop : y = target ∨ B = []) (hf : A.length < fuel) :
    walkTo nxt target fuel n = some y := by
  induction A generalizing n fuel with
  | nil =>
    obtain ⟨fuel, rfl⟩ : ∃ k, fuel = k + 1 := ⟨fuel - 1, by omega⟩
    obtain ⟨hn, hrest⟩ := h
    obtain rfl := Option.some.inj hn
    rw [walkTo]
    cases hy : nxt n with
    | none => rfl
    | some m =>
      rcases hstop with rfl | rfl
      · exact if_pos rfl
      · rw [hy] at hrest
        cases hrest
  | cons k A ih =>
    rw [List.length_cons] at hf
    obtain ⟨fuel, rfl⟩ : ∃ k, fuel = k + 1 := ⟨fuel - 1, by omega⟩
    obtain ⟨hn, hrest⟩ := h
    obtain rfl := Option.some.inj hn
    rw [List.mem_cons, not_or] at hA
    obtain ⟨m, hm⟩ : ∃ m, nxt n = some m := by
      cases A with
      | nil => exact ⟨y, hrest.1⟩
      | cons m A => exact ⟨m, hrest.1⟩
    rw [hm] at hrest
    rw [walkTo, hm]
    change (if n = target then some n else walkTo nxt target fuel m) = some y
    rw [if_neg (Ne.symm hA.1)]
    exact ih hrest hA.2 (by omega)

/-- A new node behind a node of a chain. -/
theorem Seg.insert {y r : ℕ} (h : Seg nxt p (A ++ y :: B) q) (hnd : (A ++ y :: B).Nodup)
    (hr : r ∉ A ++ y :: B) :
    Seg (Function.update (Function.update nxt y (some r)) r (nxt y)) p (A ++ y :: r :: B) q := by
  obtain ⟨hA, hB⟩ := Seg.mid.mp h
  rw [List.mem_append, List.mem_cons, not_or, not_or] at hr
  obtain ⟨-, hcons, hdisj⟩ := List.nodup_append.mp hnd
  have hyA : y ∉ A := fun hy => hdisj y hy y List.mem_cons_self rfl
  have hyB : y ∉ B := (List.nodup_cons.mp hcons).1
  refine Seg.mid.mpr ⟨(Seg.update hr.1 _).mpr ((Seg.update hyA _).mpr hA), ?_, ?_⟩
  · rw [Function.update_of_ne (Ne.symm hr.2.1), Function.update_self]
  · rw [Function.update_self]
    exact (Seg.update hr.2.2 _).mpr ((Seg.update hyB _).mpr hB)

/-- A chain of different addresses below `n` has at most `n` nodes. -/
theorem length_le_of_bound {n : ℕ} (hnd : l.Nodup) (hb : ∀ m ∈ l, m < n) : l.length ≤ n := by
  have hsub : l ⊆ List.range n := fun m hm => List.mem_range.mpr (hb m hm)
  have hlen := (List.subperm_of_subset hnd hsub).length_le
  rwa [List.length_range] at hlen

end NCam.Lib.Chain
