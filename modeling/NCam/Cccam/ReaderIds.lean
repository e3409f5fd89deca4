import Mathlib.Data.List.Perm.Subperm
import Mathlib.Data.List.Range
import NCam.Lib.Transition

/-! The reader ids that `update_card_list` gives to the active readers, over histories of the list of
active readers. -/
namespace NCam.Cccam.ReaderIds

open NCam.Lib

section Model

variable {α : Type} [DecidableEq α]

/-- The ids that the search compares with: those of the other readers. -/
def others (ccId : α → ℕ) (rdrs : List α) (rdr : α) : List ℕ := (rdrs.filter (· ≠ rdr)).map ccId

/-- The search from the second reader on, which every collision starts again with the next id. It
collides at most once with each reader. -/
def restart (taken : List ℕ) : ℕ → ℕ → Option ℕ
  | 0, _ => none
  | fuel + 1, id => if id ∈ taken then restart taken fuel (id + 1) else some id

/-- The id for a reader without one, after the last id `r`. A collision in the first pass sets `rdr2` to
the first reader, and the loop goes on with the reader behind it. -/
def uniqId (active : List α) (ccId : α → ℕ) (rdr : α) (r : ℕ) : Option ℕ :=
  if r + 1 ∈ others ccId active rdr then
    restart (others ccId active.tail rdr) (active.length + 1) (r + 2)
  else some (r + 1)

/-- The loop over the readers it reaches: their ids and the last id given. -/
def giveIds (active : List α) : List α → (α → ℕ) → ℕ → Option (α → ℕ)
  | [], ccId, _ => some ccId
  | rdr :: rdrs, ccId, r =>
    if ccId rdr = 0 then
      (uniqId active ccId rdr r).bind fun id => giveIds active rdrs (Function.update ccId rdr id) id
    else giveIds active rdrs ccId r

/-- `updated` tells whether the last step was a run of `update_card_list`. -/
structure State (α : Type) where
  active : List α
  ccId : α → ℕ
  updated : Bool

/-- A run reaches all readers, none when it reports user services, and those up to a failed allocation
else. -/
inductive Action (α : Type)
  | setActive (active : List α)
  | updateCardList (reached : ℕ)

/-- The readers of the list are different ones. -/
def next (s : State α) : Action α → Option (State α)
  | .setActive active => if active.Nodup then some ⟨active, s.ccId, false⟩ else none
  | .updateCardList reached =>
    (giveIds s.active (s.active.take reached) s.ccId 0).map fun ccId => ⟨s.active, ccId, true⟩

def system (α : Type) [DecidableEq α] : System (State α) (Action α) where
  init s := s.active = [] ∧ s.updated = false ∧ ∀ x, s.ccId x = 0
  next := next

/-- No two readers have the same id, except none. -/
def Distinct (active : List α) (ccId : α → ℕ) : Prop :=
  ∀ x ∈ active, ∀ y ∈ active, ccId x = ccId y → ccId x ≠ 0 → x = y

/-- The ids below `n` that no reader has. -/
def freeBelow (active : List α) (ccId : α → ℕ) (n : ℕ) : List ℕ :=
  (List.range n).filter fun id => id ≠ 0 ∧ id ∉ active.map ccId

/-- The search comes to the first reader's id by a collision: another reader has the id before it, and
the ids below do not suffice for the readers without one. -/
def Crowded (active : List α) (ccId : α → ℕ) (reached : ℕ) : Prop :=
  ∃ first ∈ active.head?, 1 < ccId first ∧ ccId first - 1 ∈ active.map ccId ∧
    (freeBelow active ccId (ccId first)).length <
      (active.take reached).countP fun x => ccId x = 0

/-- The steps that keep the ids apart: no reader comes back with an id that another one has now, and a
run reaches every reader without an id and is not crowded. -/
def Sound (s : State α) : Action α → Prop
  | .setActive active => Distinct active s.ccId
  | .updateCardList reached =>
    (∀ x ∈ s.active.drop reached, s.ccId x ≠ 0) ∧ ¬ Crowded s.active s.ccId reached

instance (s : State α) : ∀ a, Decidable (Sound s a)
  | .setActive _ => by unfold Sound Distinct; infer_instance
  | .updateCardList _ => by unfold Sound Crowded; infer_instance

end Model

section Search

variable {α : Type} [DecidableEq α]

theorem restart_some {taken : List ℕ} {fuel id id' : ℕ} (h : restart taken fuel id = some id') :
    id ≤ id' ∧ id' ∉ taken ∧ ∀ i, id ≤ i → i < id' → i ∈ taken := by
  induction fuel generalizing id with
  | zero => cases h
  | succ fuel ih =>
    unfold restart at h
    split_ifs at h with hmem
    · obtain ⟨hle, hnot, hall⟩ := ih h
      refine ⟨by omega, hnot, fun i hi hlt => ?_⟩
      by_cases hid : i = id
      · exact hid ▸ hmem
      · exact hall i (by omega) hlt
    · obtain rfl := Option.some.inj h
      exact ⟨le_refl _, hmem, fun i hi hlt => by omega⟩

theorem restart_none {taken : List ℕ} {fuel id : ℕ} (h : restart taken fuel id = none) :
    ∀ i < fuel, id + i ∈ taken := by
  induction fuel generalizing id with
  | zero => exact fun i hi => absurd hi (Nat.not_lt_zero i)
  | succ fuel ih =>
    unfold restart at h
    split_ifs at h with hmem
    intro i hi
    cases i with
    | zero => exact hmem
    | succ i =>
      have := ih h i (by omega)
      rwa [Nat.add_right_comm, Nat.add_assoc] at this

/-- The search ends, as it collides with another reader each time. -/
theorem restart_isSome {taken : List ℕ} {fuel : ℕ} (hf : taken.length < fuel) (id : ℕ) :
    (restart taken fuel id).isSome := by
  by_contra hnone
  rw [Bool.not_eq_true, Option.isSome_eq_false_iff, Option.isNone_iff_eq_none] at hnone
  have hsub : List.range' id fuel ⊆ taken := by
    intro i hi
    obtain ⟨hle, hlt⟩ := List.mem_range'_1.mp hi
    have := restart_none hnone (i - id) (by omega)
    rwa [Nat.add_sub_cancel' hle] at this
  have hlen := (List.subperm_of_subset List.nodup_range' hsub).length_le
  rw [List.length_range'] at hlen
  omega

theorem mem_others {ccId : α → ℕ} {rdrs : List α} {rdr : α} {id : ℕ} :
    id ∈ others ccId rdrs rdr ↔ ∃ y ∈ rdrs, y ≠ rdr ∧ ccId y = id := by
  simp only [others, List.mem_map, List.mem_filter, decide_eq_true_eq, and_assoc]

theorem uniqId_spec (active : List α) (ccId : α → ℕ) (rdr : α) (r : ℕ) :
    ∃ id, uniqId active ccId rdr r = some id ∧ r < id ∧ id ∉ others ccId active.tail rdr ∧
      (∀ i, r < i → i < id → i ∈ others ccId active rdr) ∧
      (id ∈ others ccId active rdr → r + 1 < id) := by
  have hsub : others ccId active.tail rdr ⊆ others ccId active rdr := by
    intro i hi
    obtain ⟨y, hy, hne⟩ := mem_others.mp hi
    exact mem_others.mpr ⟨y, List.mem_of_mem_tail hy, hne⟩
  unfold uniqId
  by_cases hcol : r + 1 ∈ others ccId active rdr
  · rw [if_pos hcol]
    have hlen : (others ccId active.tail rdr).length < active.length + 1 := by
      have hfilter := List.length_filter_le (· ≠ rdr) active.tail
      have htail : active.tail.length ≤ active.length := by rw [List.length_tail]; omega
      rw [others, List.length_map]
      omega
    obtain ⟨id, hid⟩ := Option.isSome_iff_exists.mp (restart_isSome hlen (r + 2))
    obtain ⟨hle, hnot, hall⟩ := restart_some hid
    refine ⟨id, hid, by omega, hnot, fun i hi hlt => ?_, fun _ => by omega⟩
    by_cases hi' : i = r + 1
    · exact hi' ▸ hcol
    · exact hsub (hall i (by omega) hlt)
  · rw [if_neg hcol]
    refine ⟨r + 1, rfl, by omega, fun hm => hcol (hsub hm), fun i hi hlt => by omega, ?_⟩
    exact fun hm => absurd hm hcol

end Search

section Loop

variable {α : Type}

/-- What holds in the loop after the readers `done`: `ccId₀` are the ids before the run. -/
structure LoopInv (active done : List α) (ccId₀ ccId : α → ℕ) (r : ℕ) : Prop where
  kept : ∀ x, ¬ (x ∈ done ∧ ccId₀ x = 0) → ccId x = ccId₀ x
  given : ∀ x ∈ done, ccId₀ x = 0 → ccId x ≤ r
  nonzero : ∀ x ∈ done, ccId x ≠ 0
  distinct : Distinct active ccId
  full : ∀ id, 0 < id → id ≤ r → ∃ x ∈ active, ccId x = id

variable {active done rdrs : List α} {ccId₀ ccId : α → ℕ} {r : ℕ}

theorem LoopInv.start (h : Distinct active ccId₀) : LoopInv active [] ccId₀ ccId₀ 0 where
  kept _ _ := rfl
  given _ hx := absurd hx List.not_mem_nil
  nonzero _ hx := absurd hx List.not_mem_nil
  distinct := h
  full id hpos hle := by omega

/-- A reader with an id is left as it is. -/
theorem LoopInv.skip {rdr : α} (h : LoopInv active done ccId₀ ccId r) (hid : ccId rdr ≠ 0)
    (hnew : rdr ∉ done) : LoopInv active (done ++ [rdr]) ccId₀ ccId r := by
  have hsame : ccId rdr = ccId₀ rdr := h.kept rdr fun hx => hnew hx.1
  constructor
  · intro x hx
    apply h.kept
    intro hd
    exact hx ⟨List.mem_append_left _ hd.1, hd.2⟩
  · intro x hx hzero
    rcases List.mem_append.mp hx with hx | hx
    · exact h.given x hx hzero
    · rw [List.mem_singleton.mp hx, ← hsame] at hzero
      exact absurd hzero hid
  · intro x hx
    rcases List.mem_append.mp hx with hx | hx
    · exact h.nonzero x hx
    · rwa [List.mem_singleton.mp hx]
  · exact h.distinct
  · exact h.full

variable [DecidableEq α]

/-- In a run that is not crowded the search finds an id that no other reader has. -/
theorem LoopInv.uniq {rdr : α} {reached : ℕ} (h : LoopInv active done ccId₀ ccId r)
    (hcrowd : ¬ Crowded active ccId₀ reached) (hreach : active.take reached = done ++ rdr :: rdrs)
    (hzero : ccId₀ rdr = 0) {id : ℕ}
    (htail : id ∉ others ccId active.tail rdr)
    (hall : ∀ i, r < i → i < id → i ∈ others ccId active rdr)
    (hcol : id ∈ others ccId active rdr → r + 1 < id) : id ∉ others ccId active rdr := by
  intro hmem
  have hlt := hcol hmem
  obtain ⟨first, hfirst, hne, hid⟩ := mem_others.mp hmem
  -- only the first reader is left out of the search
  have hhead : active.head? = some first := by
    cases active with
    | nil => cases hfirst
    | cons y ys =>
      rcases List.mem_cons.mp hfirst with rfl | hys
      · rfl
      · exact absurd (mem_others.mpr ⟨first, hys, hne, hid⟩) htail
  have hold : ∀ x, r < ccId x → ccId x = ccId₀ x := by
    intro x hx
    apply h.kept
    intro hd
    have := h.given x hd.1 hd.2
    omega
  have hfid : ccId₀ first = id := by rw [← hold first (by omega), hid]
  obtain ⟨z, hz, -, hzid⟩ := mem_others.mp (hall (id - 1) (by omega) (by omega))
  have hzid₀ : ccId₀ z = id - 1 := by rw [← hold z (by omega), hzid]
  apply hcrowd
  refine ⟨first, hhead, by omega, ?_, ?_⟩
  · rw [hfid]
    exact List.mem_map.mpr ⟨z, hz, hzid₀⟩
  · -- every free id below was given to a reader before this one
    have hsub : freeBelow active ccId₀ id ⊆ (done.filter fun x => ccId₀ x = 0).map ccId := by
      intro i hi
      obtain ⟨hilt, hipos, hifree⟩ : i < id ∧ i ≠ 0 ∧ i ∉ active.map ccId₀ := by
        simpa [freeBelow] using hi
      obtain ⟨x, hx, hxi⟩ : ∃ x ∈ active, ccId x = i := by
        by_cases hir : i ≤ r
        · exact h.full i (by omega) hir
        · obtain ⟨x, hx, -, hxi⟩ := mem_others.mp (hall i (by omega) hilt)
          exact ⟨x, hx, hxi⟩
      have hgiven : x ∈ done ∧ ccId₀ x = 0 := by
        by_contra hno
        exact hifree (List.mem_map.mpr ⟨x, hx, by rw [← h.kept x hno, hxi]⟩)
      exact List.mem_map.mpr ⟨x, List.mem_filter.mpr ⟨hgiven.1, by simpa using hgiven.2⟩, hxi⟩
    have hnd : (freeBelow active ccId₀ id).Nodup := List.nodup_range.filter _
    have hle := (List.subperm_of_subset hnd hsub).length_le
    rw [List.length_map, ← List.countP_eq_length_filter] at hle
    rw [hfid, hreach, List.countP_append, List.countP_cons_of_pos (by simpa using hzero)]
    omega

/-- A reader without an id gets one that no other reader has. -/
theorem LoopInv.give {rdr : α} (h : LoopInv active done ccId₀ ccId r) (hmem : rdr ∈ active)
    (hnew : rdr ∉ done) (hzero : ccId rdr = 0) {id : ℕ} (hgt : r < id)
    (huniq : id ∉ others ccId active rdr)
    (hall : ∀ i, r < i → i < id → i ∈ others ccId active rdr) :
    LoopInv active (done ++ [rdr]) ccId₀ (Function.update ccId rdr id) id := by
  have hsame : ccId rdr = ccId₀ rdr := h.kept rdr fun hx => hnew hx.1
  constructor
  · intro x hx
    have hne : x ≠ rdr := by
      rintro rfl
      exact hx ⟨List.mem_append_right _ (List.mem_singleton_self _), hsame ▸ hzero⟩
    rw [Function.update_of_ne hne]
    apply h.kept
    intro hd
    exact hx ⟨List.mem_append_left _ hd.1, hd.2⟩
  · intro x hx hx0
    by_cases hxr : x = rdr
    · rw [hxr, Function.update_self]
    · rw [Function.update_of_ne hxr]
      rcases List.mem_append.mp hx with hx | hx
      · have := h.given x hx hx0
        omega
      · exact absurd (List.mem_singleton.mp hx) hxr
  · intro x hx
    by_cases hxr : x = rdr
    · rw [hxr, Function.update_self]
      omega
    · rw [Function.update_of_ne hxr]
      rcases List.mem_append.mp hx with hx | hx
      · exact h.nonzero x hx
      · exact absurd (List.mem_singleton.mp hx) hxr
  · intro x hx y hy hxy hx0
    by_cases hxr : x = rdr <;> by_cases hyr : y = rdr
    · rw [hxr, hyr]
    · rw [hxr, Function.update_self, Function.update_of_ne hyr] at hxy
      exact absurd (mem_others.mpr ⟨y, hy, hyr, hxy.symm⟩) huniq
    · rw [hyr, Function.update_self, Function.update_of_ne hxr] at hxy
      exact absurd (mem_others.mpr ⟨x, hx, hxr, hxy⟩) huniq
    · rw [Function.update_of_ne hxr, Function.update_of_ne hyr] at hxy
      rw [Function.update_of_ne hxr] at hx0
      exact h.distinct x hx y hy hxy hx0
  · intro i hpos hle
    by_cases hi : i = id
    · exact ⟨rdr, hmem, by rw [hi, Function.update_self]⟩
    · have hfound : ∃ x ∈ active, x ≠ rdr ∧ ccId x = i := by
        by_cases hir : i ≤ r
        · obtain ⟨x, hx, hxi⟩ := h.full i hpos hir
          refine ⟨x, hx, ?_, hxi⟩
          rintro rfl
          omega
        · exact mem_others.mp (hall i (by omega) (by omega))
      obtain ⟨x, hx, hne, hxi⟩ := hfound
      exact ⟨x, hx, by rw [Function.update_of_ne hne, hxi]⟩

/-- The loop ends, and keeps the ids apart if the run is not crowded. -/
theorem giveIds_spec {reached : ℕ} (hactive : active.Nodup) (rdrs : List α) (done : List α)
    (ccId : α → ℕ) (r : ℕ) (hreach : active.take reached = done ++ rdrs) :
    ∃ ccId', giveIds active rdrs ccId r = some ccId' ∧
      (¬ Crowded active ccId₀ reached → LoopInv active done ccId₀ ccId r →
        ∃ r', LoopInv active (done ++ rdrs) ccId₀ ccId' r') := by
  induction rdrs generalizing done ccId r with
  | nil => exact ⟨ccId, rfl, fun _ h => ⟨r, by rwa [List.append_nil]⟩⟩
  | cons rdr rdrs ih =>
    have hnodup : (done ++ rdr :: rdrs).Nodup := hreach ▸ hactive.sublist (List.take_sublist _ _)
    have hnew : rdr ∉ done :=
      fun hm => (List.nodup_append.mp hnodup).2.2 rdr hm rdr List.mem_cons_self rfl
    have hmem : rdr ∈ active := List.mem_of_mem_take (i := reached)
      (hreach ▸ List.mem_append_right _ List.mem_cons_self)
    have hreach' : active.take reached = (done ++ [rdr]) ++ rdrs := by rw [hreach]; simp
    have happ : (done ++ [rdr]) ++ rdrs = done ++ rdr :: rdrs := by simp
    unfold giveIds
    by_cases hzero : ccId rdr = 0
    · rw [if_pos hzero]
      obtain ⟨id, hid, hgt, htail, hall, hcol⟩ := uniqId_spec active ccId rdr r
      obtain ⟨ccId', hgive, hinv⟩ := ih (done ++ [rdr]) (Function.update ccId rdr id) id hreach'
      refine ⟨ccId', by rw [hid, Option.bind_some, hgive], fun hcrowd h => ?_⟩
      have hzero₀ : ccId₀ rdr = 0 := by rw [← h.kept rdr fun hx => hnew hx.1, hzero]
      have huniq := h.uniq hcrowd hreach hzero₀ htail hall hcol
      rw [← happ]
      exact hinv hcrowd (h.give hmem hnew hzero hgt huniq hall)
    · rw [if_neg hzero]
      obtain ⟨ccId', hgive, hinv⟩ := ih (done ++ [rdr]) ccId r hreach'
      refine ⟨ccId', hgive, fun hcrowd h => ?_⟩
      rw [← happ]
      exact hinv hcrowd (h.skip hzero hnew)

end Loop

section Runs

variable {α : Type} [DecidableEq α]

/-- Every active reader has an id, and no other reader has it. -/
def Unique (s : State α) : Prop :=
  ∀ x ∈ s.active, s.ccId x ≠ 0 ∧ ∀ y ∈ s.active, s.ccId y = s.ccId x → y = x

structure Inv (s : State α) : Prop where
  nodup : s.active.Nodup
  distinct : Distinct s.active s.ccId
  unique : s.updated = true → Unique s

theorem inv_init {s : State α} (h : (system α).init s) : Inv s := by
  obtain ⟨hactive, hupdated, -⟩ := h
  constructor
  · rw [hactive]
    exact List.nodup_nil
  · intro x hx
    rw [hactive] at hx
    cases hx
  · intro hu
    rw [hupdated] at hu
    cases hu

theorem inv_step (s : State α) (a : Action α) (t : State α) (h : Inv s) (hg : Sound s a)
    (ht : next s a = some t) : Inv t := by
  cases a with
  | setActive active =>
    unfold next at ht
    dsimp only at ht
    split_ifs at ht with hnodup
    obtain rfl := Option.some.inj ht
    exact ⟨hnodup, hg, fun hu => by cases hu⟩
  | updateCardList reached =>
    obtain ⟨hreached, hcrowd⟩ := hg
    obtain ⟨ccId', hgive, hinv⟩ := @giveIds_spec _ _ s.ccId _ reached h.nodup
      (s.active.take reached) [] s.ccId 0 rfl
    obtain ⟨r, hloop⟩ := hinv hcrowd (LoopInv.start h.distinct)
    unfold next at ht
    dsimp only at ht
    rw [hgive, Option.map_some] at ht
    obtain rfl := Option.some.inj ht
    refine ⟨h.nodup, hloop.distinct, fun _ x hx => ?_⟩
    have hx0 : ccId' x ≠ 0 := by
      by_cases hmem : x ∈ s.active.take reached
      · exact hloop.nonzero x hmem
      · have hdrop : x ∈ s.active.drop reached := by
          rw [← List.take_append_drop reached s.active] at hx
          exact (List.mem_append.mp hx).resolve_left hmem
        rw [hloop.kept x fun hd => hmem hd.1]
        exact hreached x hdrop
    refine ⟨hx0, fun y hy hxy => hloop.distinct y hy x hx hxy ?_⟩
    change ccId' y = ccId' x at hxy
    rwa [hxy]

/-- In a history of sound steps, after every run of `update_card_list` each active reader has an id of
its own; and every run ends. -/
theorem ccId_unique {s : State α} (h : (system α).Reachable Sound s) :
    (s.updated = true → Unique s) ∧ ∀ reached, (next s (.updateCardList reached)).isSome := by
  have hinv := h.invariant (fun _ => inv_init) inv_step
  refine ⟨hinv.unique, fun reached => ?_⟩
  obtain ⟨ccId', hgive, -⟩ := @giveIds_spec _ _ s.ccId _ reached hinv.nodup
    (s.active.take reached) [] s.ccId 0 rfl
  unfold next
  dsimp only
  rw [hgive]
  rfl

/-- Three readers, of which one comes back in front of a new one. -/
theorem ccId_unique_run : ∃ s : State ℕ, (system ℕ).Reachable Sound s ∧ s.updated = true ∧
    s.active = [2, 0, 3] ∧ Unique s := by
  obtain ⟨s, hs, hp⟩ := System.exists_reachable_of_exec (G := Sound) (S := system ℕ)
    (s := ⟨[], fun _ => 0, false⟩) ⟨rfl, rfl, fun _ => rfl⟩
    [.setActive [0, 1, 2], .updateCardList 3, .setActive [0, 3], .updateCardList 2,
      .setActive [2, 0, 3], .updateCardList 3]
    (fun s => s.updated = true ∧ s.active = [2, 0, 3]) (by decide)
  rw [decide_eq_true_eq] at hp
  exact ⟨s, hs, hp.1, hp.2, (ccId_unique hs).1 hp.1⟩

/-- The search starts again behind the first reader and gives its id to a new one. -/
theorem ccId_not_unique : ∃ s : State ℕ, (system ℕ).Reachable System.free s ∧ s.updated = true ∧
    ¬ Unique s := by
  obtain ⟨s, hs, hp⟩ := System.exists_reachable_of_exec (G := System.free) (S := system ℕ)
    (s := ⟨[], fun _ => 0, false⟩) ⟨rfl, rfl, fun _ => rfl⟩
    [.setActive [1, 0], .updateCardList 2, .setActive [0, 1, 2], .updateCardList 3]
    (fun s => s.updated = true ∧ s.active = [0, 1, 2] ∧ s.ccId 0 = s.ccId 2) (by decide)
  rw [decide_eq_true_eq] at hp
  obtain ⟨hupdated, hactive, hsame⟩ := hp
  refine ⟨s, hs, hupdated, fun hunique => ?_⟩
  have hzero : 0 ∈ s.active := by rw [hactive]; decide
  have htwo : 2 ∈ s.active := by rw [hactive]; decide
  exact absurd ((hunique 2 htwo).2 0 hzero hsame) (by decide)

end Runs

end NCam.Cccam.ReaderIds
