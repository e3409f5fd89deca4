import NCam.Dvbapi.Listing
import NCam.Dvbapi.StopFilter

/-! The allocation of CA indices on boxes with a Linux DVB API of version 1 or 3, neither PC nor Neumo, and runs in which
they are allocated, enabled and released. -/
namespace NCam.Dvbapi

open NCam.Lib

variable (box : Box)

/-- The loop over the slots of one ECM pid: every match moves on to the next index. -/
def searchSlots (ecmpid : Ecmpid) (r : Bool × ℕ) : Bool × ℕ :=
  (List.range box.maxStreamIndices).foldl (fun r k =>
    if (ecmpid.index k).toNat = r.2 then (true, r.2 + 1) else r) r

def searchEcmpids (d : Demux) (r : Bool × ℕ) : Bool × ℕ :=
  (List.range d.ecmpidcount).foldl (fun r j => if r.1 then r else searchSlots box (d.ecmpids j) r) r

/-- One pass over the demuxers; it ends at the first ECM pid that has the index. -/
def searchDemuxers (demux : ℕ → Demux) (demuxId idx : ℕ) : Bool × ℕ :=
  (List.range box.maxDemux).foldl (fun r i =>
    if r.1 ∨ INDEX_MAX ≤ r.2 then r
    else if (demux i).programNumber = 0 then r
    else if (demux i).caMask ≠ (demux demuxId).caMask then r
    else searchEcmpids box (demux i) r) (false, idx)

/-- The passes from `idx` on. -/
def searchIndex (demux : ℕ → Demux) (demuxId : ℕ) : ℕ → ℕ → ℕ
  | 0, idx => idx
  | fuel + 1, idx =>
    if idx ≤ INDEX_MAX then
      let r := searchDemuxers box demux demuxId idx
      if r.1 then searchIndex demux demuxId fuel r.2 else r.2
    else idx

/-- `dvbapi_get_desc_index`. A pass that fails moves on by one index at least. -/
def getDescIndex (s : State) (demuxId pid streamId : ℕ) : State × BitVec 32 :=
  let idx := searchIndex box s.demux demuxId (INDEX_MAX + 2) 0
  if s.caDescramblersUsed < box.caDescramblersTotal then
    (({ s with caDescramblersUsed := s.caDescramblersUsed + 1 } : State).setIndex demuxId pid streamId
      (.ofNat 32 idx), .ofNat 32 idx)
  else (s.setIndex demuxId pid streamId INDEX_INVALID, INDEX_INVALID)

def State.index (s : State) (demuxId pid streamId : ℕ) : BitVec 32 :=
  ((s.demux demuxId).ecmpids pid).index streamId

/-- The search for demuxer `d` comes to an ECM pid with the index. -/
def State.Seen (s : State) (d idx : ℕ) : Prop :=
  ∃ i < box.maxDemux, (s.demux i).programNumber ≠ 0 ∧ (s.demux i).caMask = (s.demux d).caMask ∧
    ∃ j < (s.demux i).ecmpidcount, ∃ k < box.maxStreamIndices, (s.index i j k).toNat = idx

section Search

variable {α : Type} {P : ℕ → Prop} {r r' r'' : Bool × ℕ} {s : State} {d fuel idx : ℕ}

/-- A search moves over indices that meet `P`, and only if it fails. -/
structure Moves (P : ℕ → Prop) (r r' : Bool × ℕ) : Prop where
  le : r.2 ≤ r'.2
  passed : ∀ i, r.2 ≤ i → i < r'.2 → P i
  still : r'.1 = false → r' = r
  moved : r.1 = false → r'.1 = true → r.2 < r'.2

theorem Moves.refl : Moves P r r where
  le := Nat.le_refl _
  passed := fun i hle hlt => absurd hlt (Nat.not_lt.mpr hle)
  still := fun _ => rfl
  moved := fun hf ht => by
    rw [hf] at ht
    cases ht

theorem Moves.trans (h : Moves P r r') (h' : Moves P r' r'') : Moves P r r'' where
  le := Nat.le_trans h.le h'.le
  passed := by
    intro i hle hlt
    rcases Nat.lt_or_ge i r'.2 with hbefore | hbehind
    · exact h.passed i hle hbefore
    · exact h'.passed i hbehind hlt
  still := by
    intro hf
    have heq := h'.still hf
    rw [heq] at hf ⊢
    exact h.still hf
  moved := by
    intro hf ht
    cases hr' : r'.1 with
    | true => exact Nat.lt_of_lt_of_le (h.moved hf hr') h'.le
    | false =>
      rw [h.still hr'] at h'
      exact h'.moved hf ht

theorem moves_foldl {f : Bool × ℕ → α → Bool × ℕ} {xs : List α}
    (h : ∀ r, ∀ x ∈ xs, Moves P r (f r x)) : Moves P r (xs.foldl f r) := by
  induction xs generalizing r with
  | nil => exact .refl
  | cons x xs ih =>
    rw [List.foldl_cons]
    exact (h r x List.mem_cons_self).trans (ih fun r y hy => h r y (List.mem_cons_of_mem x hy))

/-- A loop that has not failed has not failed at any place. -/
theorem still_foldl {f : Bool × ℕ → α → Bool × ℕ} {xs : List α} (h : ∀ r, ∀ x ∈ xs, Moves P r (f r x))
    (hf : (xs.foldl f r).1 = false) : ∀ x ∈ xs, f r x = r := by
  induction xs generalizing r with
  | nil => exact fun x hx => absurd hx List.not_mem_nil
  | cons x xs ih =>
    rw [List.foldl_cons] at hf
    have hrest : ∀ r, ∀ y ∈ xs, Moves P r (f r y) := fun r y hy => h r y (List.mem_cons_of_mem x hy)
    have hfirst : f r x = r := by
      have hall := (@moves_foldl _ _ (f r x) _ _ hrest).still hf
      rw [hall] at hf
      exact (h r x List.mem_cons_self).still hf
    rw [hfirst] at hf
    intro y hy
    rcases List.mem_cons.mp hy with rfl | hy
    · exact hfirst
    · exact ih hrest hf y hy

theorem moves_slot {ecmpid : Ecmpid} {k : ℕ} (h : P (ecmpid.index k).toNat) :
    Moves P r (if (ecmpid.index k).toNat = r.2 then (true, r.2 + 1) else r) := by
  split_ifs with hmatch
  · refine ⟨Nat.le_succ _, fun i hle hlt => ?_, fun hf => ?_, fun _ _ => Nat.lt_succ_self _⟩
    · have hi : i = (ecmpid.index k).toNat := by
        rw [hmatch]
        exact Nat.le_antisymm (Nat.le_of_lt_succ hlt) hle
      rw [hi]
      exact h
    · cases hf
  · exact .refl

theorem moves_searchSlots {ecmpid : Ecmpid} (h : ∀ k < box.maxStreamIndices, P (ecmpid.index k).toNat) :
    Moves P r (searchSlots box ecmpid r) :=
  moves_foldl fun _ k hk => moves_slot (h k (List.mem_range.mp hk))

theorem moves_searchEcmpids {x : Demux}
    (h : ∀ j < x.ecmpidcount, ∀ k < box.maxStreamIndices, P ((x.ecmpids j).index k).toNat) :
    Moves P r (searchEcmpids box x r) := by
  refine moves_foldl fun r j hj => ?_
  split_ifs
  · exact .refl
  · exact moves_searchSlots box (h j (List.mem_range.mp hj))

private theorem moves_demuxer {i : ℕ} (hi : i < box.maxDemux) :
    Moves (s.Seen box d) r (if r.1 ∨ INDEX_MAX ≤ r.2 then r
      else if (s.demux i).programNumber = 0 then r
      else if (s.demux i).caMask ≠ (s.demux d).caMask then r
      else searchEcmpids box (s.demux i) r) := by
  split_ifs with hstop hempty hmask
  · exact .refl
  · exact .refl
  · exact .refl
  · refine moves_searchEcmpids box fun j hj k hk => ?_
    exact ⟨i, hi, hempty, not_not.mp hmask, j, hj, k, hk, rfl⟩

theorem moves_searchDemuxers :
    Moves (s.Seen box d) (false, idx) (searchDemuxers box s.demux d idx) :=
  moves_foldl fun _ _ hi => moves_demuxer box (List.mem_range.mp hi)

/-- An index on which the pass does not fail is not held. -/
theorem not_seen_of_still (hlt : idx < INDEX_MAX) (h : (searchDemuxers box s.demux d idx).1 = false) :
    ¬ s.Seen box d idx := by
  rintro ⟨i, hi, hrunning, hmask, j, hj, k, hk, hidx⟩
  have hin : ¬ ((false, idx).1 = true ∨ INDEX_MAX ≤ (false, idx).2) := by
    rintro (hno | hle)
    · cases hno
    · exact absurd hlt (Nat.not_lt.mpr hle)
  have hdemuxer := still_foldl (P := s.Seen box d)
    (fun r i hi => moves_demuxer box (List.mem_range.mp hi)) h i (List.mem_range.mpr hi)
  dsimp only at hdemuxer
  rw [if_neg hin, if_neg hrunning, if_neg (not_not.mpr hmask)] at hdemuxer
  have hecmpid := still_foldl (P := fun _ => True)
    (fun r j _ => by
      split_ifs
      · exact .refl
      · exact moves_searchSlots box fun _ _ => trivial)
    (congrArg Prod.fst hdemuxer) j (List.mem_range.mpr hj)
  rw [if_neg Bool.false_ne_true] at hecmpid
  have hslot := still_foldl (P := fun _ => True) (fun r k _ => moves_slot trivial)
    (congrArg Prod.fst hecmpid) k (List.mem_range.mpr hk)
  have hmatch : (((s.demux i).ecmpids j).index k).toNat = (false, idx).2 := hidx
  rw [if_pos hmatch] at hslot
  cases hslot

/-- The search ends at the first index that it does not come to. -/
theorem searchIndex_spec (hfuel : INDEX_MAX + 2 ≤ fuel + idx) :
    (∀ i, idx ≤ i → i < searchIndex box s.demux d fuel idx → s.Seen box d i) ∧
      (searchIndex box s.demux d fuel idx < INDEX_MAX →
        ¬ s.Seen box d (searchIndex box s.demux d fuel idx)) := by
  induction fuel generalizing idx with
  | zero =>
    change (∀ i, idx ≤ i → i < idx → _) ∧ (idx < INDEX_MAX → _)
    exact ⟨fun i hle hlt => absurd hlt (Nat.not_lt.mpr hle), fun hlt => by omega⟩
  | succ fuel ih =>
    have hmoves := @moves_searchDemuxers box s d idx
    unfold searchIndex
    dsimp only
    split_ifs with hle hfail
    · have hmoved := hmoves.moved rfl hfail
      obtain ⟨hseen, hfree⟩ := @ih (searchDemuxers box s.demux d idx).2 (by omega)
      refine ⟨fun i hi hlt => ?_, hfree⟩
      rcases Nat.lt_or_ge i (searchDemuxers box s.demux d idx).2 with hbefore | hbehind
      · exact hmoves.passed i hi hbefore
      · exact hseen i hbehind hlt
    · have hstill := eq_false_of_ne_true hfail
      rw [hmoves.still hstill]
      refine ⟨fun i hi hlt => absurd hlt (Nat.not_lt.mpr hi), fun hlt => ?_⟩
      exact not_seen_of_still box hlt hstill
    · exact ⟨fun i hi hlt => absurd hlt (Nat.not_lt.mpr hi), fun hlt => absurd (Nat.le_of_lt hlt) hle⟩

/-- It is a descrambler if one of them is free. -/
theorem searchIndex_free (h : ∃ i < min INDEX_MAX box.caDescramblersTotal, ¬ s.Seen box d i) :
    searchIndex box s.demux d (INDEX_MAX + 2) 0 < INDEX_MAX ∧
      searchIndex box s.demux d (INDEX_MAX + 2) 0 < box.caDescramblersTotal ∧
        ¬ s.Seen box d (searchIndex box s.demux d (INDEX_MAX + 2) 0) := by
  obtain ⟨i, hi, hfree⟩ := h
  obtain ⟨hseen, hend⟩ := @searchIndex_spec box s d (INDEX_MAX + 2) 0 (Nat.le_refl _)
  have hle : searchIndex box s.demux d (INDEX_MAX + 2) 0 ≤ i := by
    by_contra hlt
    exact hfree (hseen i (Nat.zero_le i) (Nat.not_le.mp hlt))
  have hmax : i < INDEX_MAX := Nat.lt_of_lt_of_le hi (Nat.min_le_left _ _)
  have htotal : i < box.caDescramblersTotal := Nat.lt_of_lt_of_le hi (Nat.min_le_right _ _)
  have hlt := Nat.lt_of_le_of_lt hle hmax
  exact ⟨hlt, Nat.lt_of_le_of_lt hle htotal, hend hlt⟩

end Search

/-- A stream pid is enabled on one CA device; if it is the first time, the index for decoding is asked
for. -/
def enableOn (streampid : BitVec 16) (idx : BitVec 32) (useDes : Bool) (list : List Streampid) (ca : ℕ) :
    List Streampid :=
  let (list, action) := updateStreampidList box.toEnv (.ofNat 8 ca) streampid idx useDes list
  if action = .firstStreampidIndex then
    (isCaUsed box.toEnv (.ofNat 8 ca) (streampid.setWidth 32) list).1
  else list

/-- What `dvbapi_set_pid` does to the list when it enables a stream pid. -/
def enableStream (s : State) (demuxId : ℕ) (streampid : BitVec 16) (idx : BitVec 32) (useDes : Bool) : State :=
  if (s.demux demuxId).pidindex = none then s
  else
    let devices := (List.range CA_MAX).filter fun ca => (s.demux demuxId).caMask.getLsbD ca
    { s with list := devices.foldl (enableOn box streampid idx useDes) s.list }

/-- The calls that the allocation goes through; the current ECM pid of a demuxer changes at any time. -/
inductive Call
  | getDescIndex (demuxId pid streamId : ℕ)
  | enable (demuxId pid streamId num : ℕ) (useDes : Bool)
  | stopFilternum (demuxId num : ℕ)
  | isCaUsed (cadevice : BitVec 8) (pid : BitVec 32)
  | setPidindex (demuxId : ℕ) (pidindex : Option ℕ)

/-- A place for an index. -/
def IsSlot (demuxId pid streamId : ℕ) : Prop :=
  demuxId < box.maxDemux ∧ pid < MAX_ECM_PIDS ∧ streamId < box.maxStreamIndices

instance (demuxId pid streamId : ℕ) : Decidable (IsSlot box demuxId pid streamId) :=
  inferInstanceAs (Decidable (_ ∧ _))

def State.call (s : State) : Call → Option State
  | .getDescIndex demuxId pid streamId =>
    if IsSlot box demuxId pid streamId then some (NCam.Dvbapi.getDescIndex box s demuxId pid streamId).1
    else none
  | .enable demuxId pid streamId num useDes =>
    if IsSlot box demuxId pid streamId ∧ s.index demuxId pid streamId ≠ INDEX_INVALID then
      (s.demux demuxId).streampids[num]?.map fun streampid =>
        enableStream box s demuxId streampid (s.index demuxId pid streamId) useDes
    else none
  | .stopFilternum demuxId num => some (NCam.Dvbapi.stopFilternum box s demuxId num).1
  | .isCaUsed cadevice pid => some { s with list := (NCam.Dvbapi.isCaUsed box.toEnv cadevice pid s.list).1 }
  | .setPidindex demuxId pidindex =>
    some { s with demux := Function.update s.demux demuxId { s.demux demuxId with pidindex } }

/-- No index is given out yet. -/
def State.Fresh (s : State) : Prop :=
  (∀ demuxId pid streamId, s.index demuxId pid streamId = INDEX_INVALID) ∧ s.list = [] ∧
    s.caDescramblersUsed = 0 ∧ s.outside = false

def allocation : System State Call where
  init := State.Fresh
  next s c := s.call box c

/-- Demuxers that share a CA device hold no index together, except for one ECM pid. -/
def State.Separate (s : State) : Prop :=
  ∀ d p k d' p' k', IsSlot box d p k → IsSlot box d' p' k' → s.index d p k ≠ INDEX_INVALID →
    s.index d p k = s.index d' p' k' → (s.demux d).caMask &&& (s.demux d').caMask ≠ 0 → d = d' ∧ p = p'

/-- Every index that is given out is one of the descramblers. -/
def State.Below (s : State) : Prop :=
  ∀ d p k, IsSlot box d p k → s.index d p k ≠ INDEX_INVALID →
    (s.index d p k).toNat < INDEX_MAX ∧ (s.index d p k).toNat < box.caDescramblersTotal

/-- An index that is held on a CA device of demuxer `d` is held where the search for it comes to. -/
def State.SharerSeen (s : State) (d d' p k : ℕ) : Prop :=
  s.index d' p k ≠ INDEX_INVALID → (s.demux d').caMask &&& (s.demux d).caMask ≠ 0 →
    (s.demux d').programNumber ≠ 0 ∧ (s.demux d').caMask = (s.demux d).caMask ∧
      p < (s.demux d').ecmpidcount

def State.SharersSeen (s : State) (d : ℕ) : Prop :=
  ∀ d' < box.maxDemux, ∀ p < MAX_ECM_PIDS, ∀ k < box.maxStreamIndices, s.SharerSeen d d' p k

/-- One of the descramblers is not held where the search comes to. -/
def State.SomeFree (s : State) (d : ℕ) : Prop :=
  ∃ idx < min INDEX_MAX box.caDescramblersTotal, ¬ s.Seen box d idx

/-- While descramblers are left, the search comes to all that share a CA device and finds a free one. An
index that is enabled can be shifted by in an int. -/
def State.Kept (s : State) : Call → Prop
  | .getDescIndex d _ _ => s.caDescramblersUsed < box.caDescramblersTotal →
      s.SharersSeen box d ∧ s.SomeFree box d
  | .enable d p k _ _ => (s.index d p k).toNat < 31
  | _ => True

instance (s : State) (d idx : ℕ) : Decidable (s.Seen box d idx) :=
  inferInstanceAs (Decidable (∃ i < box.maxDemux, (s.demux i).programNumber ≠ 0 ∧
    (s.demux i).caMask = (s.demux d).caMask ∧ ∃ j < (s.demux i).ecmpidcount,
      ∃ k < box.maxStreamIndices, (s.index i j k).toNat = idx))

instance (s : State) (d d' p k : ℕ) : Decidable (s.SharerSeen d d' p k) :=
  inferInstanceAs (Decidable (s.index d' p k ≠ INDEX_INVALID →
    (s.demux d').caMask &&& (s.demux d).caMask ≠ 0 → (s.demux d').programNumber ≠ 0 ∧
      (s.demux d').caMask = (s.demux d).caMask ∧ p < (s.demux d').ecmpidcount))

instance (s : State) (d : ℕ) : Decidable (s.SharersSeen box d) :=
  inferInstanceAs (Decidable (∀ d' < box.maxDemux, ∀ p < MAX_ECM_PIDS, ∀ k < box.maxStreamIndices,
    s.SharerSeen d d' p k))

instance (s : State) (d : ℕ) : Decidable (s.SomeFree box d) :=
  inferInstanceAs (Decidable (∃ idx < min INDEX_MAX box.caDescramblersTotal, ¬ s.Seen box d idx))

instance (s : State) : (c : Call) → Decidable (s.Kept box c)
  | .getDescIndex d _ _ => inferInstanceAs (Decidable (s.caDescramblersUsed < box.caDescramblersTotal →
      s.SharersSeen box d ∧ s.SomeFree box d))
  | .enable d p k _ _ => inferInstanceAs (Decidable ((s.index d p k).toNat < 31))
  | .stopFilternum _ _ => inferInstanceAs (Decidable True)
  | .isCaUsed _ _ => inferInstanceAs (Decidable True)
  | .setPidindex _ _ => inferInstanceAs (Decidable True)

section Inv

variable {s t : State} {c : Call} {list : List Streampid} {x : Streampid} {idx : BitVec 32}

/-- What the listed stream pids keep: the index that decodes them is a descrambler, and so is every index
that is active. -/
structure Streampid.Fits (x : Streampid) : Prop where
  caindex : x.caindex = INDEX_INVALID ∨
    (x.caindex.toNat < INDEX_MAX ∧ x.caindex.toNat < box.caDescramblersTotal)
  some : x.activeindexers ≠ 0
  bits : ∀ i < INDEX_MAX, x.activeindexers.getLsbD i = true → i < 31 ∧ i < box.caDescramblersTotal

def ListFits (list : List Streampid) : Prop := ∀ x ∈ list, x.Fits box

theorem countActiveIndexers_ne_none (h : ListFits box list) : countActiveIndexers box list ≠ none := by
  have hin : ¬ ((list.map Streampid.caindex).filter fun caindex =>
      caindex ≠ INDEX_INVALID ∧ caindex.toNat < INDEX_MAX).any
        (fun caindex => box.caDescramblersTotal ≤ caindex.toNat) = true := by
    rw [List.any_eq_true]
    rintro ⟨caindex, hmem, hle⟩
    obtain ⟨hmem, hvalid⟩ := List.mem_filter.mp hmem
    obtain ⟨x, hx, rfl⟩ := List.mem_map.mp hmem
    rcases (h x hx).caindex with hinv | ⟨-, hlt⟩
    · exact (of_decide_eq_true hvalid).1 hinv
    · exact absurd (of_decide_eq_true hle) (Nat.not_le.mpr hlt)
  unfold countActiveIndexers
  dsimp only
  rw [if_neg hin]
  exact Option.some_ne_none _

/-- A walk puts items that fit in the place of one item. -/
theorem ListFits.walk {β : Type} {p : Streampid → Bool} {f : Streampid → List Streampid × β}
    {r : List Streampid × β} (h : ListFits box list) (hf : ∀ x, x.Fits box → ListFits box (f x).1)
    (hr : onFirst p f list = some r) : ListFits box r.1 := by
  obtain ⟨pre, x, post, rfl, -, -, rfl⟩ := onFirst_eq_some hr
  intro y hy
  rw [List.mem_append, List.mem_append] at hy
  rcases hy with hpre | hnew | hpost
  · exact h y (List.mem_append_left _ hpre)
  · exact hf x (h x (List.mem_append_right pre List.mem_cons_self)) y hnew
  · exact h y (List.mem_append_right pre (List.mem_cons_of_mem x hpost))

theorem exists_bit {v : BitVec 64} (h : v ≠ 0) : ∃ i < INDEX_MAX, v.getLsbD i = true := by
  by_contra hno
  apply h
  apply BitVec.eq_of_getLsbD_eq
  intro i hi
  change _ = BitVec.getLsbD 0#64 i
  rw [BitVec.getLsbD_zero, ← Bool.not_eq_true]
  exact fun htrue => hno ⟨i, hi, htrue⟩

theorem ne_zero_of_bit {v : BitVec 64} {i : ℕ} (h : v.getLsbD i = true) : v ≠ 0 := by
  rintro rfl
  change BitVec.getLsbD 0#64 i = true at h
  rw [BitVec.getLsbD_zero] at h
  cases h

theorem Streampid.Fits.addIndexer {useDes : Bool} (h : x.Fits box) (hsmall : idx.toNat < 31)
    (htotal : idx.toNat < box.caDescramblersTotal) :
    ListFits box (x.addIndexer box.toEnv idx useDes).1 := by
  have hor : x.activeindexers ||| box.toEnv.shifted idx.toNat ≠ 0 := by
    obtain ⟨i, -, hi⟩ := exists_bit h.some
    apply @ne_zero_of_bit _ i
    rw [BitVec.getLsbD_or, hi, Bool.true_or]
  have hbits : ∀ i < INDEX_MAX, (x.activeindexers ||| box.toEnv.shifted idx.toNat).getLsbD i = true →
      i < 31 ∧ i < box.caDescramblersTotal := by
    intro i hi hset
    rw [BitVec.getLsbD_or, shifted_getLsbD hsmall, Bool.or_eq_true] at hset
    rcases hset with hold | hnew
    · exact h.bits i hi hold
    · rw [of_decide_eq_true hnew]
      exact ⟨hsmall, htotal⟩
  unfold Streampid.addIndexer ListFits
  dsimp only
  split_ifs <;> rw [List.forall_mem_singleton]
  · exact ⟨h.caindex, h.some, h.bits⟩
  · exact h
  · exact ⟨h.caindex, hor, hbits⟩
  · exact ⟨h.caindex, hor, hbits⟩

theorem ListFits.update {cadevice : BitVec 8} {pid : BitVec 16} {useDes : Bool} (h : ListFits box list)
    (hsmall : idx.toNat < 31) (htotal : idx.toNat < box.caDescramblersTotal) :
    ListFits box (updateStreampidList box.toEnv cadevice pid idx useDes list).1 := by
  unfold updateStreampidList
  split_ifs with hout
  · exact h
  · cases hr : onFirst (Streampid.isFor cadevice pid) (Streampid.addIndexer box.toEnv idx useDes) list with
    | none =>
      rw [Option.getD_none]
      intro x hx
      rcases List.mem_append.mp hx with hold | hnew
      · exact h x hold
      · rw [List.mem_singleton.mp hnew]
        refine ⟨Or.inr ⟨Nat.not_le.mp hout, htotal⟩, ?_, fun i _ hset => ?_⟩
        · apply @ne_zero_of_bit _ idx.toNat
          rw [shifted_getLsbD hsmall, decide_eq_true rfl]
        · rw [shifted_getLsbD hsmall] at hset
          rw [of_decide_eq_true hset]
          exact ⟨hsmall, htotal⟩
    | some r =>
      rw [Option.getD_some]
      exact h.walk box (fun x hx => hx.addIndexer box hsmall htotal) hr

theorem Streampid.Fits.removeIndexer (h : x.Fits box) : ListFits box (x.removeIndexer box.toEnv idx).1 := by
  have hbits : ∀ i < INDEX_MAX, (x.activeindexers &&& ~~~box.toEnv.shifted idx.toNat).getLsbD i = true →
      i < 31 ∧ i < box.caDescramblersTotal := by
    intro i hi hset
    rw [BitVec.getLsbD_and, Bool.and_eq_true] at hset
    exact h.bits i hi hset.1
  have hnone : ListFits box [] := fun x hx => absurd hx List.not_mem_nil
  unfold Streampid.removeIndexer
  split_ifs with hall hset <;> dsimp only
  · rw [if_pos ⟨rfl, rfl⟩]
    exact hnone
  · rw [if_pos rfl]
    split_ifs with hzero hother
    · exact hnone
    · exact List.forall_mem_singleton.mpr ⟨h.caindex, fun hno => hzero ⟨hno, rfl⟩, hbits⟩
    · exact List.forall_mem_singleton.mpr ⟨Or.inl rfl, fun hno => hzero ⟨hno, rfl⟩, hbits⟩
  · rw [if_neg fun hno => Bool.false_ne_true hno.2, if_neg Bool.false_ne_true]
    exact List.forall_mem_singleton.mpr h

theorem ListFits.remove {cadevice : BitVec 8} {pid : BitVec 16} (h : ListFits box list) :
    ListFits box (removeStreampidFromList box.toEnv cadevice pid idx list).1 := by
  unfold removeStreampidFromList
  split_ifs
  · exact h
  · cases hr : onFirst (Streampid.isFor cadevice pid) (Streampid.removeIndexer box.toEnv idx) list with
    | none => exact h
    | some r =>
      rw [Option.getD_some]
      exact h.walk box (fun x hx => hx.removeIndexer box) hr

theorem Streampid.Fits.fresh (h : x.Fits box) : (x.fresh box.toEnv).Fits box := by
  unfold Streampid.fresh
  split_ifs with hinv
  · cases hfind : (List.range INDEX_MAX).find? (x.hasIndex box.toEnv) with
    | none => exact h
    | some k =>
      obtain ⟨i, hi, hset⟩ := exists_bit h.some
      obtain ⟨hsmall, htotal⟩ := h.bits i hi hset
      obtain ⟨hk, -, hbefore⟩ := Slots.firstWhere_eq_some (p := x.hasIndex box.toEnv) (t := id) hfind
      have hki : k ≤ i := by
        by_contra hlt
        have hno := hbefore i (Nat.not_le.mp hlt)
        change x.hasIndex box.toEnv i = false at hno
        rw [hasIndex_of_lt hsmall, hset] at hno
        cases hno
      have hnat : (BitVec.ofNat 32 k).toNat = k := by
        rw [BitVec.toNat_ofNat]
        omega
      refine ⟨Or.inr ?_, h.some, h.bits⟩
      change (BitVec.ofNat 32 k).toNat < INDEX_MAX ∧ (BitVec.ofNat 32 k).toNat < box.caDescramblersTotal
      rw [hnat]
      exact ⟨hk, Nat.lt_of_le_of_lt hki htotal⟩
  · exact h

theorem ListFits.isCaUsed {cadevice : BitVec 8} {pid : BitVec 32} (h : ListFits box list) :
    ListFits box (NCam.Dvbapi.isCaUsed box.toEnv cadevice pid list).1 := by
  unfold NCam.Dvbapi.isCaUsed
  cases hr : onFirst (Streampid.isOn cadevice pid) (Streampid.decoding box.toEnv) list with
  | none => exact h
  | some r =>
    rw [Option.getD_some]
    refine h.walk box (fun x hx => ?_) hr
    unfold Streampid.decoding
    dsimp only
    split_ifs
    · exact fun y hy => absurd hy List.not_mem_nil
    · exact List.forall_mem_singleton.mpr (hx.fresh box)

theorem ListFits.enable {streampid : BitVec 16} {useDes : Bool} {cas : List ℕ} (h : ListFits box list)
    (hsmall : idx.toNat < 31) (htotal : idx.toNat < box.caDescramblersTotal) :
    ListFits box (cas.foldl (enableOn box streampid idx useDes) list) := by
  induction cas generalizing list with
  | nil => exact h
  | cons ca cas ih =>
    rw [List.foldl_cons]
    have hupdate := @ListFits.update box list idx (.ofNat 8 ca) streampid useDes h hsmall htotal
    apply ih
    unfold enableOn
    dsimp only
    split_ifs
    · exact hupdate.isCaUsed box
    · exact hupdate

/-- What the state keeps besides the indices of the demuxers. -/
def State.Tidy (s : State) : Prop := ListFits box s.list ∧ s.outside = false

theorem State.Tidy.remove {ca : ℕ} {pid : BitVec 16} (h : s.Tidy box) : (s.remove box ca pid idx).Tidy box := by
  have hlist := @ListFits.remove box s.list idx (.ofNat 8 ca) pid h.1
  unfold State.remove
  dsimp only
  split_ifs
  · split
    · exact ⟨hlist, h.2⟩
    · rename_i hnone
      exact absurd hnone (countActiveIndexers_ne_none box hlist)
  · exact ⟨hlist, h.2⟩

theorem State.Tidy.stopStream {d oldpid z : ℕ} {r : State × List Removal} {stream : BitVec 16 × ℕ}
    (h : r.1.Tidy box) : (NCam.Dvbapi.stopStream box d oldpid z idx r stream).1.Tidy box := by
  unfold NCam.Dvbapi.stopStream
  split
  · exact h.remove box
  · exact h

theorem State.Tidy.stopFilternum {d num : ℕ} (h : s.Tidy box) :
    (NCam.Dvbapi.stopFilternum box s d num).1.Tidy box := by
  have hstreams : ∀ oldpid z idx (streams : List (BitVec 16 × ℕ)) (r : State × List Removal),
      r.1.Tidy box → (streams.foldl (NCam.Dvbapi.stopStream box d oldpid z idx) r).1.Tidy box := by
    intro oldpid z idx streams
    induction streams with
    | nil => exact fun r hr => hr
    | cons stream streams ih => exact fun r hr => ih _ (hr.stopStream box)
  have hslots : ∀ oldpid (slots : List ℕ) (r : State × List Removal), r.1.Tidy box →
      (slots.foldl (stopIndex box d oldpid) r).1.Tidy box := by
    intro oldpid slots
    induction slots with
    | nil => exact fun r hr => hr
    | cons z slots ih =>
      intro r hr
      refine ih _ ?_
      unfold stopIndex
      dsimp only
      split_ifs
      · exact hstreams _ _ _ _ _ hr
      · exact hr
  unfold NCam.Dvbapi.stopFilternum
  dsimp only
  split_ifs
  · exact hslots _ _ _ h
  · exact h

/-- The masks stay, and indices are only given up. -/
structure GivesUp (s t : State) : Prop where
  caMask : ∀ d, (t.demux d).caMask = (s.demux d).caMask
  index : ∀ d p k, t.index d p k = INDEX_INVALID ∨ t.index d p k = s.index d p k

theorem GivesUp.separate (h : GivesUp s t) (hs : s.Separate box) : t.Separate box := by
  intro d p k d' p' k' hslot hslot' hvalid heq hmask
  rw [h.caMask, h.caMask] at hmask
  rcases h.index d p k with hinv | hold
  · exact absurd hinv hvalid
  · rcases h.index d' p' k' with hinv' | hold'
    · exact absurd (heq.trans hinv') hvalid
    · rw [hold] at hvalid
      exact hs d p k d' p' k' hslot hslot' hvalid (by rw [← hold, heq, hold']) hmask

theorem GivesUp.below (h : GivesUp s t) (hs : s.Below box) : t.Below box := by
  intro d p k hslot hvalid
  rcases h.index d p k with hinv | hold
  · exact absurd hinv hvalid
  · rw [hold] at hvalid ⊢
    exact hs d p k hslot hvalid

theorem setIndex_caMask {d p z j : ℕ} : ((s.setIndex d p z idx).demux j).caMask = (s.demux j).caMask := by
  unfold State.setIndex
  dsimp only
  by_cases hj : j = d
  · rw [hj, Function.update_self]
  · rw [Function.update_of_ne hj]

theorem setIndex_self {d p z : ℕ} : (s.setIndex d p z idx).index d p z = idx := by
  unfold State.setIndex State.index
  dsimp only
  rw [Function.update_self]
  dsimp only
  rw [Function.update_self]
  dsimp only
  rw [Function.update_self]

theorem setIndex_of_ne {d p z d' p' z' : ℕ} (h : ¬ (d' = d ∧ p' = p ∧ z' = z)) :
    (s.setIndex d p z idx).index d' p' z' = s.index d' p' z' := by
  unfold State.setIndex State.index
  dsimp only
  by_cases hd : d' = d
  · rw [hd, Function.update_self]
    dsimp only
    by_cases hp : p' = p
    · rw [hp, Function.update_self]
      dsimp only
      rw [Function.update_of_ne fun hz => h ⟨hd, hp, hz⟩]
    · rw [Function.update_of_ne hp]
  · rw [Function.update_of_ne hd]

theorem givesUp_setIndex {d p z : ℕ} : GivesUp s (s.setIndex d p z INDEX_INVALID) where
  caMask := fun _ => setIndex_caMask
  index := by
    intro d' p' z'
    by_cases h : d' = d ∧ p' = p ∧ z' = z
    · obtain ⟨rfl, rfl, rfl⟩ := h
      exact Or.inl setIndex_self
    · exact Or.inr (setIndex_of_ne h)

theorem givesUp_stopFilternum {d num : ℕ} : GivesUp s (NCam.Dvbapi.stopFilternum box s d num).1 := by
  -- besides the filter, the demuxers are those of a prefix of slots without an index
  have hfilter : ∀ (u : State) (x : ℕ → Filter), GivesUp s u →
      GivesUp s { u with demux := Function.update u.demux d { u.demux d with demuxFd := x } } := by
    intro u x hu
    have hself : ∀ j, (Function.update u.demux d { u.demux d with demuxFd := x } j).caMask =
        (u.demux j).caMask ∧ (Function.update u.demux d { u.demux d with demuxFd := x } j).ecmpids =
          (u.demux j).ecmpids := by
      intro j
      by_cases hj : j = d
      · rw [hj, Function.update_self]
        exact ⟨rfl, rfl⟩
      · rw [Function.update_of_ne hj]
        exact ⟨rfl, rfl⟩
    refine ⟨fun j => (hself j).1.trans (hu.caMask j), fun j p k => ?_⟩
    have hindex : State.index { u with
        demux := Function.update u.demux d { u.demux d with demuxFd := x } } j p k = u.index j p k := by
      unfold State.index
      dsimp only
      rw [(hself j).2]
    rw [hindex]
    exact hu.index j p k
  unfold NCam.Dvbapi.stopFilternum
  dsimp only
  apply hfilter
  split_ifs
  · have hdemux := (@foldl_stopIndex box d ((s.demux d).demuxFd num).pidindex box.maxStreamIndices s).1
    refine ⟨fun j => ?_, fun j p k => ?_⟩
    · rw [hdemux]
      by_cases hj : j = d
      · rw [hj, cleared_caMask]
      · rw [cleared_of_ne hj]
    · unfold State.index
      rw [hdemux]
      unfold cleared
      by_cases hj : j = d
      · rw [hj, Function.update_self]
        dsimp only
        by_cases hp : p = ((s.demux d).demuxFd num).pidindex
        · rw [hp, Function.update_self]
          dsimp only
          split_ifs
          · exact Or.inl rfl
          · exact Or.inr rfl
        · rw [Function.update_of_ne hp]
          exact Or.inr rfl
      · rw [Function.update_of_ne hj]
        exact Or.inr rfl
  · exact ⟨fun _ => rfl, fun _ _ _ => Or.inr rfl⟩

/-- What every call of a kept run keeps. -/
structure State.Sound (s : State) : Prop where
  tidy : s.Tidy box
  separate : s.Separate box
  below : s.Below box

theorem GivesUp.sound (h : GivesUp s t) (ht : t.Tidy box) (hs : s.Sound box) : t.Sound box :=
  ⟨ht, h.separate box hs.separate, h.below box hs.below⟩

theorem State.Sound.getDescIndex {d p z : ℕ} (h : s.Sound box) (hslot : IsSlot box d p z)
    (hkept : s.Kept box (.getDescIndex d p z)) : (NCam.Dvbapi.getDescIndex box s d p z).1.Sound box := by
  unfold NCam.Dvbapi.getDescIndex
  dsimp only
  split_ifs with hleft
  · obtain ⟨hseen, hfree⟩ := hkept hleft
    obtain ⟨hmax, htotal, hnew⟩ := searchIndex_free box hfree
    generalize searchIndex box s.demux d (INDEX_MAX + 2) 0 = idx at hmax htotal hnew
    have hnat : (BitVec.ofNat 32 idx).toNat = idx := by
      have hlt : idx < 64 := hmax
      rw [BitVec.toNat_ofNat]
      omega
    -- nobody on a CA device of the demuxer has the new index
    have hnone : ∀ d' p' k', IsSlot box d' p' k' → s.index d' p' k' = .ofNat 32 idx →
        (s.demux d').caMask &&& (s.demux d).caMask = 0 := by
      intro d' p' k' hslot' heq
      by_contra hshared
      have hvalid : s.index d' p' k' ≠ INDEX_INVALID := by
        rw [heq]
        intro hinv
        have hbig := congrArg BitVec.toNat hinv
        rw [hnat] at hbig
        rw [hbig] at hmax
        exact absurd hmax (by decide)
      obtain ⟨hrunning, hmask, hcount⟩ :=
        hseen d' hslot'.1 p' hslot'.2.1 k' hslot'.2.2 hvalid hshared
      exact hnew ⟨d', hslot'.1, hrunning, hmask, p', hcount, k', hslot'.2.2, by rw [heq, hnat]⟩
    refine ⟨h.tidy, ?_, ?_⟩
    · intro d1 p1 k1 d2 p2 k2 hslot1 hslot2 hvalid heq hshared
      rw [setIndex_caMask, setIndex_caMask] at hshared
      by_cases h1 : d1 = d ∧ p1 = p ∧ k1 = z
      · by_cases h2 : d2 = d ∧ p2 = p ∧ k2 = z
        · exact ⟨h1.1.trans h2.1.symm, h1.2.1.trans h2.2.1.symm⟩
        · obtain ⟨rfl, rfl, rfl⟩ := h1
          rw [setIndex_self, setIndex_of_ne h2] at heq
          rw [BitVec.and_comm] at hshared
          exact absurd (hnone d2 p2 k2 hslot2 heq.symm) hshared
      · rw [setIndex_of_ne h1] at heq hvalid
        by_cases h2 : d2 = d ∧ p2 = p ∧ k2 = z
        · obtain ⟨rfl, rfl, rfl⟩ := h2
          rw [setIndex_self] at heq
          exact absurd (hnone d1 p1 k1 hslot1 heq) hshared
        · rw [setIndex_of_ne h2] at heq
          exact h.separate d1 p1 k1 d2 p2 k2 hslot1 hslot2 hvalid heq hshared
    · intro d1 p1 k1 hslot1 hvalid
      by_cases h1 : d1 = d ∧ p1 = p ∧ k1 = z
      · obtain ⟨rfl, rfl, rfl⟩ := h1
        rw [setIndex_self, hnat]
        exact ⟨hmax, htotal⟩
      · rw [setIndex_of_ne h1] at hvalid ⊢
        exact h.below d1 p1 k1 hslot1 hvalid
  · exact givesUp_setIndex.sound box h.tidy h

theorem State.Sound.call (h : s.Sound box) (hkept : s.Kept box c) (ht : s.call box c = some t) :
    t.Sound box := by
  cases c with
  | getDescIndex d p z =>
    obtain ⟨hslot, hs⟩ := Option.ite_none_right_eq_some.mp ht
    obtain rfl := Option.some.inj hs
    exact h.getDescIndex box hslot hkept
  | enable d p z num useDes =>
    obtain ⟨⟨hslot, hvalid⟩, hs⟩ := Option.ite_none_right_eq_some.mp ht
    obtain ⟨streampid, -, rfl⟩ := Option.map_eq_some_iff.mp hs
    unfold enableStream
    split_ifs
    · exact h
    · exact ⟨⟨h.tidy.1.enable box hkept (h.below d p z hslot hvalid).2, h.tidy.2⟩, h.separate, h.below⟩
  | stopFilternum d num =>
    obtain rfl := Option.some.inj ht
    exact (givesUp_stopFilternum box).sound box (h.tidy.stopFilternum box) h
  | isCaUsed cadevice pid =>
    obtain rfl := Option.some.inj ht
    exact ⟨⟨h.tidy.1.isCaUsed box, h.tidy.2⟩, h.separate, h.below⟩
  | setPidindex d pidindex =>
    obtain rfl := Option.some.inj ht
    have hself : ∀ j, (Function.update s.demux d { s.demux d with pidindex } j).caMask =
        (s.demux j).caMask ∧ (Function.update s.demux d { s.demux d with pidindex } j).ecmpids =
          (s.demux j).ecmpids := by
      intro j
      by_cases hj : j = d
      · rw [hj, Function.update_self]
        exact ⟨rfl, rfl⟩
      · rw [Function.update_of_ne hj]
        exact ⟨rfl, rfl⟩
    refine GivesUp.sound box ⟨fun j => (hself j).1, fun j p k => Or.inr ?_⟩ h.tidy h
    unfold State.index
    dsimp only
    rw [(hself j).2]

/-- In every run in which the search comes to all that share a CA device and finds one of the descramblers
free, demuxers that share a CA device hold no index together, and every index is a descrambler inside the
arrays. -/
theorem allocation_sound (hr : (allocation box).Reachable (State.Kept box) s) :
    s.Separate box ∧ s.Below box ∧ countActiveIndexers box s.list ≠ none ∧ s.outside = false := by
  have hinv : s.Sound box := by
    refine hr.invariant (I := State.Sound box) (fun s hs => ?_) fun s c t h hc ht => h.call box hc ht
    obtain ⟨hindex, hlist, -, houtside⟩ := hs
    refine ⟨⟨?_, houtside⟩, ?_, ?_⟩
    · rw [hlist]
      exact fun x hx => absurd hx List.not_mem_nil
    · exact fun d p k _ _ _ _ _ hvalid => absurd (hindex d p k) hvalid
    · exact fun d p k _ hvalid => absurd (hindex d p k) hvalid
  exact ⟨hinv.separate, hinv.below, countActiveIndexers_ne_none box hinv.tidy.1, hinv.tidy.2⟩

end Inv

/-- A running program without an index, for a stream of its own. -/
def Demux.idle (caMask : BitVec 32) (streampid : BitVec 16) : Demux where
  caMask := caMask
  demuxFd := fun _ => ⟨.ecm, 0⟩
  ecmpidcount := 1
  ecmpids := fun _ => ⟨fun _ => INDEX_INVALID, 0⟩
  streampids := [streampid]
  pidindex := some 0
  programNumber := streampid

/-- Two programs. -/
def State.idle (caMask caMask' : BitVec 32) : State where
  demux := fun j => if j = 0 then .idle caMask 0x100 else if j = 1 then .idle caMask' 0x200 else .idle 0 0
  list := []
  caDescramblersUsed := 0
  outside := false

theorem State.fresh_idle (caMask caMask' : BitVec 32) : (State.idle caMask caMask').Fresh := by
  refine ⟨fun d p k => ?_, rfl, rfl, rfl⟩
  unfold State.index State.idle
  dsimp only
  split_ifs <;> rfl

/-- Two programs on one CA device get two indices, and the first one is released. -/
theorem allocation_sound_two : ∃ s, (allocation enigma).Reachable (State.Kept enigma) s ∧
    s.index 1 0 0 = 1 ∧ s.Separate enigma ∧ s.Below enigma ∧
      countActiveIndexers enigma s.list ≠ none ∧ s.outside = false := by
  obtain ⟨s, hr, hs⟩ := @System.exists_reachable_of_exec _ _ (allocation enigma) (State.Kept enigma) _ _
    (State.fresh_idle 1 1) [.getDescIndex 0 0 0, .enable 0 0 0 0 false, .getDescIndex 1 0 0,
      .enable 1 0 0 0 false, .setPidindex 0 none, .stopFilternum 0 0]
    (fun s => s.index 1 0 0 = 1) (by decide +kernel)
  exact ⟨s, hr, of_decide_eq_true hs, allocation_sound enigma hr⟩

/-- A program on the CA device 0 and one on the devices 0 and 1 get the same index. -/
theorem overlapping_masks_share_index :
    ∃ s, (allocation enigma).Reachable System.free s ∧ ¬ s.Separate enigma := by
  obtain ⟨s, hr, hs⟩ := @System.exists_reachable_of_exec _ _ (allocation enigma) System.free
    (fun _ _ => instDecidableTrue) _ (State.fresh_idle 1 3) [.getDescIndex 0 0 0, .getDescIndex 1 0 0]
    (fun s => (decide (s.index 0 0 0 = 0) && decide (s.index 1 0 0 = 0)) &&
      decide ((s.demux 0).caMask &&& (s.demux 1).caMask ≠ 0)) (by decide +kernel)
  obtain ⟨hindices, hmask⟩ := Bool.and_eq_true_iff.mp hs
  obtain ⟨hzero, hone⟩ := Bool.and_eq_true_iff.mp hindices
  refine ⟨s, hr, fun hseparate => ?_⟩
  have hzero := of_decide_eq_true hzero
  have hsame := hseparate 0 0 0 1 0 0 (by decide) (by decide) (by rw [hzero]; decide)
    (by rw [hzero, of_decide_eq_true hone]) (of_decide_eq_true hmask)
  cases hsame.1

end NCam.Dvbapi
