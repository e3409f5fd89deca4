import NCam.Util.Decimal
import NCam.Lib.BitSet

/-! Group masks: `mk_t_group` prints the numbers of the groups, and `group_fn` reads them back. -/
namespace NCam.Conf

open NCam.Lib NCam.Util

section Print

variable (grp : BitVec 64)

def inGroup (i : ℕ) : Bool := grp &&& (1 : BitVec 64) <<< i ≠ 0

/-- The size that is computed beforehand. -/
def groupNeeded : ℕ :=
  (List.range 64).foldl (fun needed i =>
    if inGroup grp i then (if 9 < i then needed + 2 + 1 else needed + 2) else needed) 1

/-- `%d` for a group. -/
def groupText (i : ℕ) : List Char := printfDec (i + 1)

structure GroupPrint where
  value : ℕ → Char
  pos : ℕ
  dot : Bool

/-- Every `snprintf` is given the whole size. -/
def printGroup (needed : ℕ) (s : GroupPrint) (i : ℕ) : Option GroupPrint :=
  if !inGroup grp i then some s
  else if !s.dot then
    (snprintfAt needed s.value s.pos needed (groupText i)).map fun value =>
      ⟨value, s.pos + if 8 < i then 2 else 1, true⟩
  else
    (snprintfAt needed s.value s.pos needed (',' :: groupText i)).map fun value =>
      ⟨value, s.pos + if 8 < i then 3 else 2, true⟩

/-- The text, unless the printer writes outside of what it allocated. -/
def mkTGroup : Option (List Char) :=
  let needed := groupNeeded grp
  if needed = 1 then some []
  else do
    let s ← (List.range 64).foldlM (printGroup grp needed) ⟨fun _ => '\x00', 0, false⟩
    let value ← Memory.putWithin needed s.value s.pos ['\x00']
    some (cString needed value)

end Print

def groupFn (value : List Char) : BitVec 64 :=
  (strtok ',' value).foldl (fun grp ptr =>
    if 0 < atoi ptr ∧ atoi ptr < 65 then grp ||| (1 : BitVec 64) <<< (atoi ptr - 1).toNat else grp) 0

section Size

variable {grp : BitVec 64} {l : List ℕ} {i : ℕ}

theorem length_groupText : ∀ i < 64, (groupText i).length = if 8 < i then 2 else 1 := by
  decide

theorem inGroup_iff (hi : i < 64) : inGroup grp i = true ↔ grp.getLsbD i = true := by
  have hbit := and_twoPow_ne_zero (x := grp) hi
  rw [BitVec.twoPow_eq] at hbit
  simpa [inGroup] using hbit

/-- What the size is computed from. -/
def groupCost (l : List ℕ) : ℕ := (l.map fun i => if 9 < i then 3 else 2).sum

theorem groupNeeded_eq : groupNeeded grp = 1 + groupCost ((List.range 64).filter (inGroup grp)) := by
  have hfold : ∀ (l : List ℕ) (needed : ℕ), l.foldl (fun needed i =>
      if inGroup grp i then (if 9 < i then needed + 2 + 1 else needed + 2) else needed) needed =
        needed + groupCost (l.filter (inGroup grp)) := by
    intro l
    induction l with
    | nil => exact fun _ => rfl
    | cons a l ih =>
      intro needed
      rw [List.foldl_cons, ih]
      cases ha : inGroup grp a with
      | false => simp [ha]
      | true =>
        simp only [ha, if_true, List.filter_cons, groupCost, List.map_cons, List.sum_cons]
        split_ifs <;> omega
  exact hfold _ 1

/-- Only for group 10 one character less is counted than is printed with its comma. -/
theorem lastStart_groups (hl : ∀ i ∈ l, i < 64) : lastStart (l.map groupText) = groupCost l + l.count 9 := by
  induction l with
  | nil => rfl
  | cons a l ih =>
    have hlen := length_groupText a (hl a List.mem_cons_self)
    have hrest := ih fun i hi => hl i (List.mem_cons_of_mem a hi)
    unfold lastStart groupCost at hrest ⊢
    simp only [List.map_cons, List.sum_cons, List.count_cons, beq_iff_eq]
    split_ifs at hlen ⊢ <;> omega

end Size

section Printed

variable {grp : BitVec 64} {done l : List ℕ} {s : GroupPrint} {needed i : ℕ}

/-- The numbers of the groups stand in the array. -/
structure Printed (s : GroupPrint) (done : List ℕ) : Prop where
  holds : Memory.Holds s.value 0 (joinTokens ',' (done.map groupText))
  pos : s.pos = (joinTokens ',' (done.map groupText)).length
  dot : s.dot = decide (done ≠ [])

/-- The text of one more group. -/
theorem joinTokens_group : joinTokens ',' ((done ++ [i]).map groupText) =
    joinTokens ',' (done.map groupText) ++ if done = [] then groupText i else ',' :: groupText i := by
  simp [joinTokens_concat]

theorem printGroup_spec (h : Printed s done) (hgroup : inGroup grp i = true) (hi : i < 64)
    (hfit : (joinTokens ',' ((done ++ [i]).map groupText)).length < needed) :
    ∃ s', printGroup grp needed s i = some s' ∧ Printed s' (done ++ [i]) := by
  have hlen := length_groupText i hi
  rw [joinTokens_group, List.length_append, ← h.pos] at hfit
  -- the text of this call is put behind the ones before it
  have hput : ∀ text pos', (if done = [] then groupText i else ',' :: groupText i) = text →
      pos' = s.pos + text.length → ∃ value, snprintfAt needed s.value s.pos needed text = some value ∧
        Printed ⟨value, pos', true⟩ (done ++ [i]) := by
    intro text pos' htext hpos'
    rw [htext] at hfit
    refine ⟨_, snprintfAt_of_le (by omega) hfit, ?_, ?_, by simp⟩
    · rw [joinTokens_group, htext]
      exact holds_append_zero h.holds h.pos
    · rw [joinTokens_group, htext, List.length_append, ← h.pos]
      exact hpos'
  unfold printGroup
  rw [hgroup, h.dot]
  by_cases hdone : done = []
  · obtain ⟨value, hvalue, hprinted⟩ := hput (groupText i) _ (if_pos hdone) rfl
    rw [hlen] at hprinted
    exact ⟨_, by simp [hdone, hvalue], hprinted⟩
  · obtain ⟨value, hvalue, hprinted⟩ := hput (',' :: groupText i) (s.pos + if 8 < i then 3 else 2)
      (if_neg hdone) (by
        rw [List.length_cons, hlen]
        split_ifs <;> rfl)
    exact ⟨_, by simp [hdone, hvalue], hprinted⟩

/-- The numbers of all groups are printed one after another. -/
theorem printGroups_spec (h : Printed s done) (hl : ∀ i ∈ l, i < 64)
    (hfit : lastStart ((done ++ l.filter (inGroup grp)).map groupText) ≤ needed) :
    ∃ s', l.foldlM (printGroup grp needed) s = some s' ∧ Printed s' (done ++ l.filter (inGroup grp)) := by
  induction l generalizing s done with
  | nil => exact ⟨s, rfl, by simpa using h⟩
  | cons i l ih =>
    have hrest := fun j hj => hl j (List.mem_cons_of_mem i hj)
    rw [List.foldlM_cons]
    cases hgroup : inGroup grp i with
    | false =>
      have hskip : printGroup grp needed s i = some s := by simp [printGroup, hgroup]
      rw [List.filter_cons_of_neg (by simp [hgroup])] at hfit ⊢
      rw [hskip]
      exact ih h hrest hfit
    | true =>
      rw [List.filter_cons_of_pos hgroup, List.append_cons] at hfit ⊢
      have hlast : (joinTokens ',' ((done ++ [i]).map groupText)).length < needed := by
        have hsucc := @length_joinTokens_succ ',' ((done ++ [i]).map groupText) (by simp)
        rw [List.map_append, lastStart, List.map_append, List.sum_append, ← lastStart] at hfit
        omega
      obtain ⟨s', hs', hprinted⟩ := printGroup_spec h hgroup (hl i List.mem_cons_self) hlast
      rw [hs']
      exact ih hprinted hrest hfit

end Printed

section Text

variable {grp : BitVec 64} {l : List ℕ}

theorem mem_groups {i : ℕ} (hi : i ∈ (List.range 64).filter (inGroup grp)) : i < 64 :=
  List.mem_range.mp (List.mem_of_mem_filter hi)

theorem zero_notMem_groups : '\x00' ∉ joinTokens ',' (l.map groupText) := by
  intro hc
  rcases mem_joinTokens hc with hcomma | ⟨t, ht, hc⟩
  · cases hcomma
  · obtain ⟨i, -, rfl⟩ := List.mem_map.mp ht
    exact notMem_printfDec rfl (by decide) hc

/-- The printer leaves the numbers of the groups in what it allocated. -/
theorem mkTGroup_eq :
    mkTGroup grp = some (joinTokens ',' (((List.range 64).filter (inGroup grp)).map groupText)) := by
  unfold mkTGroup
  rw [groupNeeded_eq]
  by_cases hnone : (List.range 64).filter (inGroup grp) = []
  · rw [hnone]
    rfl
  have hsize := lastStart_groups (l := (List.range 64).filter (inGroup grp)) fun i hi => mem_groups hi
  have hone : ((List.range 64).filter (inGroup grp)).count 9 ≤ 1 :=
    List.nodup_iff_count.mp (List.nodup_range.filter _) 9
  have hstart : Printed ⟨fun _ => '\x00', 0, false⟩ [] := ⟨Memory.holds_nil, rfl, by simp⟩
  have hfit : lastStart (([] ++ (List.range 64).filter (inGroup grp)).map groupText) ≤
      1 + groupCost ((List.range 64).filter (inGroup grp)) := by
    rw [List.nil_append]
    omega
  obtain ⟨s, hs, hprinted⟩ := printGroups_spec hstart (fun i hi => List.mem_range.mp hi) hfit
  rw [List.nil_append] at hprinted
  have hlast := @length_joinTokens_succ ',' (((List.range 64).filter (inGroup grp)).map groupText)
    (by simpa using hnone)
  have hend : s.pos + ['\x00'].length ≤ 1 + groupCost ((List.range 64).filter (inGroup grp)) := by
    rw [hprinted.pos, List.length_singleton, hlast]
    omega
  have hcost : 1 + groupCost ((List.range 64).filter (inGroup grp)) ≠ 1 := by
    obtain ⟨i, l, hl⟩ := List.exists_cons_of_ne_nil hnone
    rw [hl, groupCost, List.map_cons, List.sum_cons]
    split_ifs <;> omega
  have hholds : Memory.Holds (Memory.put s.value s.pos ['\x00']) 0
      (joinTokens ',' (((List.range 64).filter (inGroup grp)).map groupText) ++ ['\x00']) := by
    rw [Memory.holds_append, Nat.zero_add, ← hprinted.pos]
    refine ⟨hprinted.holds.put ?_, Memory.holds_put⟩
    rw [hprinted.pos]
    omega
  dsimp only
  rw [if_neg hcost, hs]
  show (Memory.putWithin _ s.value s.pos ['\x00']).bind _ = _
  rw [Memory.putWithin_of_le hend]
  show some (cString _ _) = _
  rw [cString_of_holds hholds ?_ zero_notMem_groups]
  rw [← hprinted.pos]
  exact hend

/-- The groups of which the numbers are read. -/
theorem getLsbD_groupFn (hl : ∀ i ∈ l, i < 64) {k : ℕ} (hk : k < 64) :
    (groupFn (joinTokens ',' (l.map groupText))).getLsbD k = true ↔ k ∈ l := by
  have htokens : AreTokens ',' (l.map groupText) := by
    intro t ht
    obtain ⟨i, -, rfl⟩ := List.mem_map.mp ht
    exact ⟨printfDec_ne_nil, notMem_printfDec rfl (by decide)⟩
  have hfold : ∀ (l : List ℕ) (x : BitVec 64), (∀ i ∈ l, i < 64) → (((l.map groupText).foldl (fun grp ptr =>
      if 0 < atoi ptr ∧ atoi ptr < 65 then grp ||| (1 : BitVec 64) <<< (atoi ptr - 1).toNat else grp) x).getLsbD k =
        true ↔ x.getLsbD k = true ∨ k ∈ l) := by
    intro l
    induction l with
    | nil => simp
    | cons i l ih =>
      intro x hl
      have hi := hl i List.mem_cons_self
      have hin : 0 < (i : ℤ) + 1 ∧ (i : ℤ) + 1 < 65 := by omega
      have hsub : ((i : ℤ) + 1 - 1).toNat = i := by omega
      have hbit : ((1 : BitVec 64) <<< i).getLsbD k = true ↔ k = i := by
        have hone : (1 : BitVec 64) <<< i = BitVec.twoPow 64 i := (BitVec.twoPow_eq 64 i).symm
        rw [hone, BitVec.getLsbD_twoPow]
        simp [hi, eq_comm]
      rw [List.map_cons, List.foldl_cons, ih _ fun j hj => hl j (List.mem_cons_of_mem i hj)]
      unfold groupText
      rw [atoi_printfDec, if_pos hin, hsub, BitVec.getLsbD_or, Bool.or_eq_true, hbit, List.mem_cons, or_assoc]
  unfold groupFn
  rw [strtok_joinTokens htokens, hfold l 0 hl]
  simp

/-- The printer stays within the size it computed, and what it prints is read back. -/
theorem mkTGroup_groupFn (grp : BitVec 64) : ∃ value, mkTGroup grp = some value ∧ groupFn value = grp := by
  refine ⟨_, mkTGroup_eq, ?_⟩
  apply BitVec.eq_of_getLsbD_eq
  intro k hk
  rw [Bool.eq_iff_iff, getLsbD_groupFn (fun i hi => mem_groups hi) hk, List.mem_filter, List.mem_range,
    inGroup_iff hk]
  exact and_iff_right hk

end Text

end NCam.Conf
