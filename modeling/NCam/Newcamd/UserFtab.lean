import NCam.Newcamd.CardData

/-! The provider ids of `mk_user_ftab`: those of the port that the groups of a user reach, or that his IDENT
allows. -/
namespace NCam.Newcamd

open NCam.Util
open NCam.Camd35 (CS_MAXPROV)

section Defs

/-- An active reader; `network` is `is_network_reader`. -/
structure PortReader where
  grp : BitVec 64
  network : Bool
  ftab : List Filter
  nprov : ℕ
  prid : ℕ → Vector Byte 8

def PortReader.prids (rdr : PortReader) : List (BitVec 32) :=
  (List.range rdr.nprov).map fun j => b2i 3 (fun k => (rdr.prid j).toList.getD k 0) 1

/-- The reader has the provider id for the caid: without filters a network reader has every id, and a card
those it reports. -/
def PortReader.has (rdr : PortReader) (caid : BitVec 16) (prid : BitVec 32) : Bool :=
  if rdr.ftab.isEmpty then rdr.network || rdr.prids.contains prid
  else rdr.ftab.any fun f => (f.caid = 0 || f.caid = caid) && f.prids.contains prid

/-- `add` after the loop over the readers. -/
def reached (readers : List PortReader) (grp : BitVec 64) (caid : BitVec 16) (prid : BitVec 32) : Bool :=
  readers.any fun rdr => rdr.grp &&& grp ≠ 0 && rdr.has caid prid

/-- The loop over the ids of the port for a user without IDENT. -/
def groupPrids (readers : List PortReader) (grp : BitVec 64) (psfilt filt : Filter) : Filter :=
  psfilt.prids.foldl (fun filt prid => if reached readers grp filt.caid prid then filt.push prid else filt) filt

/-- `memcpy(filt, psfilt, sizeof(*filt))`. -/
def Filter.memcpy (_filt psfilt : Filter) : Filter := psfilt

/-- `mk_user_ftab` for a user of the groups `grp`. -/
def groupUserFtab (readers : List PortReader) (grp : BitVec 64) (s : Server) : Filter :=
  match s.ncd with
  | none => .empty
  | some psfilt =>
    let (caid, c) := ctabSearch psfilt s.ctab
    if c ∧ caid = 0 then .empty
    else
      let found := s.ftab.any fun ident => ident.caid ≠ 0 && psfilt.caid = ident.caid
      if caid = 0 ∧ s.ftab ≠ [] ∧ (s.ftab.all fun ident => ident.caid ≠ 0) ∧ !found then .empty
      else
        let filt : Filter := ⟨psfilt.caid, [], Nat.zero_le _⟩
        if s.ftab = [] then (groupPrids readers grp psfilt filt).memcpy psfilt
        else identPrids psfilt s.ftab filt

/-- The filter of the port. -/
def Server.portFilter (s : Server) : Filter := s.ncd.getD .empty

/-- The CAID list has caids, but not that of the port. -/
def Server.CtabRefuses (s : Server) : Prop :=
  (ctabSearch s.portFilter s.ctab).2 = true ∧ (ctabSearch s.portFilter s.ctab).1 = 0

/-- The filter of an IDENT is for the port. -/
def Server.ForPort (s : Server) (ident : Filter) : Prop := ident.caid = 0 ∨ ident.caid = s.portFilter.caid

instance (s : Server) (ident : Filter) : Decidable (s.ForPort ident) := inferInstanceAs (Decidable (_ ∨ _))

/-- The IDENT allows the id: a filter of it for the port has no ids, or this one. -/
def Server.Allowed (s : Server) (prid : BitVec 32) : Prop :=
  ∃ ident ∈ s.ftab, s.ForPort ident ∧ (ident.prids = [] ∨ prid ∈ ident.prids)

/-- The provider ids are those that the groups of a user without IDENT reach, or each once those that the
IDENT allows. -/
def UserFtabRight (readers : List PortReader) (grp : BitVec 64) (s : Server) : Prop :=
  (groupUserFtab readers grp s).prids.length ≤ CS_MAXPROV ∧
    if s.ftab = [] then
      ∀ prid, prid ∈ (groupUserFtab readers grp s).prids ↔
        prid ∈ s.portFilter.prids ∧ reached readers grp s.portFilter.caid prid = true
    else
      (groupUserFtab readers grp s).prids.Nodup ∧
        ∀ prid, prid ∈ (groupUserFtab readers grp s).prids ↔ prid ∈ s.portFilter.prids ∧ s.Allowed prid

/-- The ids that a filter of the IDENT appends for one of the port. -/
def Filter.matching (ident : Filter) (prid : BitVec 32) : List (BitVec 32) :=
  if ident.prids = [] then [prid] else ident.prids.filter (· = prid)

/-- The ids in the order in which the loops over the IDENT append them. -/
def Server.appended (s : Server) : List (BitVec 32) :=
  (s.ftab.filter fun ident => s.ForPort ident).flatMap fun ident => s.portFilter.prids.flatMap ident.matching

/-- How often the IDENT names the id for the port; a filter without ids names it once. -/
def Server.named (s : Server) (prid : BitVec 32) : ℕ :=
  ((s.ftab.filter fun ident => s.ForPort ident).map fun ident =>
    if ident.prids = [] then 1 else ident.prids.count prid).sum

/-- An id that the IDENT names is once in the filter of the port and named once. -/
def Server.NamedOnce (s : Server) : Prop := ∀ prid, s.portFilter.prids.count prid * s.named prid ≤ 1

/-- The filter is full of different ids before one comes again. -/
def Server.FilledFirst (s : Server) : Prop :=
  CS_MAXPROV ≤ s.appended.length ∧ (s.appended.take CS_MAXPROV).Nodup

/-- Without IDENT the groups reach all ids of the port, or none if the CAID list refuses it; with IDENT each id
is named once or the filter is full first, or none is allowed if the CAID list refuses it. -/
def UserFtabFits (readers : List PortReader) (grp : BitVec 64) (s : Server) : Prop :=
  if s.ftab = [] then
    ∀ prid ∈ s.portFilter.prids, reached readers grp s.portFilter.caid prid = true ↔ ¬ s.CtabRefuses
  else
    (s.CtabRefuses → ∀ prid ∈ s.portFilter.prids, ¬ s.Allowed prid) ∧
      (¬ s.CtabRefuses → s.NamedOnce ∨ s.FilledFirst)

end Defs

section Filters

variable {filt psfilt ident : Filter} {prid : BitVec 32} {s : Server}

theorem prids_push (filt : Filter) (prid : BitVec 32) :
    (filt.push prid).prids = (filt.prids ++ [prid]).take CS_MAXPROV := by
  have hle := filt.nprids_le
  unfold Filter.push
  split_ifs with hroom
  · rw [List.take_of_length_le]
    rw [List.length_append]
    exact hroom
  · have hfull : filt.prids.length = CS_MAXPROV := by omega
    rw [← hfull, List.take_left]

theorem prids_foldl_push (prids : List (BitVec 32)) (filt : Filter) :
    (prids.foldl Filter.push filt).prids = (filt.prids ++ prids).take CS_MAXPROV := by
  induction prids generalizing filt with
  | nil =>
    rw [List.foldl_nil, List.append_nil, List.take_of_length_le filt.nprids_le]
  | cons prid prids ih =>
    have hall : filt.prids ++ prid :: prids = (filt.prids ++ [prid]) ++ prids := by simp
    have hroom : ∀ n, CS_MAXPROV - min CS_MAXPROV n = CS_MAXPROV - n := by omega
    rw [List.foldl_cons, ih, prids_push, hall, List.take_append, List.take_take, List.length_take,
      Nat.min_self, hroom, ← List.take_append]

@[simp] theorem caid_push (filt : Filter) (prid : BitVec 32) : (filt.push prid).caid = filt.caid := by
  unfold Filter.push
  split_ifs <;> rfl

theorem caid_foldl_push (prids : List (BitVec 32)) (filt : Filter) :
    (prids.foldl Filter.push filt).caid = filt.caid := by
  induction prids generalizing filt with
  | nil => rfl
  | cons prid prids ih => rw [List.foldl_cons, ih, caid_push]

theorem foldl_matching (ident : Filter) (prids : List (BitVec 32)) (filt : Filter) :
    prids.foldl (fun filt prid =>
        if ident.prids ≠ [] then
          ident.prids.foldl (fun filt own => if own = prid then filt.push own else filt) filt
        else filt.push prid) filt =
      (prids.flatMap ident.matching).foldl Filter.push filt := by
  rw [List.foldl_flatMap]
  congr 1
  funext filt prid
  unfold Filter.matching
  by_cases hnil : ident.prids = []
  · rw [if_neg (not_not.mpr hnil), if_pos hnil]
    rfl
  · rw [if_pos hnil, if_neg hnil, List.foldl_filter]
    simp only [decide_eq_true_eq]

theorem identPrids_eq (ftab : List Filter) (filt : Filter) : identPrids psfilt ftab filt =
    ((ftab.filter fun ident => ident.caid = 0 ∨ ident.caid = filt.caid).flatMap fun ident =>
      psfilt.prids.flatMap ident.matching).foldl Filter.push filt := by
  unfold identPrids
  induction ftab generalizing filt with
  | nil => rfl
  | cons ident ftab ih =>
    rw [List.foldl_cons]
    by_cases hport : ident.caid = 0 ∨ ident.caid = filt.caid
    · rw [if_pos hport, List.filter_cons_of_pos (by simpa using hport), List.flatMap_cons,
        List.foldl_append, foldl_matching, ih, caid_foldl_push]
    · rw [if_neg hport, List.filter_cons_of_neg (by simpa using hport), ih]

theorem mem_matching {own : BitVec 32} :
    own ∈ ident.matching prid ↔ own = prid ∧ (ident.prids = [] ∨ prid ∈ ident.prids) := by
  unfold Filter.matching
  by_cases hnil : ident.prids = []
  · rw [if_pos hnil, List.mem_singleton]
    exact (and_iff_left (.inl hnil)).symm
  · rw [if_neg hnil, List.mem_filter, decide_eq_true_eq, or_iff_right hnil]
    constructor
    · intro h
      exact ⟨h.2, h.2 ▸ h.1⟩
    · intro h
      exact ⟨h.1 ▸ h.2, h.1⟩

theorem count_matching (own prid : BitVec 32) : (ident.matching prid).count own =
    if prid = own then (if ident.prids = [] then 1 else ident.prids.count own) else 0 := by
  unfold Filter.matching
  by_cases heq : prid = own
  · subst heq
    rw [if_pos rfl]
    split
    · exact List.count_singleton_self
    · exact List.count_filter (by simp)
  · rw [if_neg heq, List.count_eq_zero]
    split
    · simpa using Ne.symm heq
    · simp [Ne.symm heq]

theorem count_flatMap_matching (prids : List (BitVec 32)) (own : BitVec 32) :
    (prids.flatMap ident.matching).count own =
      prids.count own * if ident.prids = [] then 1 else ident.prids.count own := by
  induction prids with
  | nil => simp
  | cons prid prids ih =>
    rw [List.flatMap_cons, List.count_append, ih, count_matching, List.count_cons, Nat.add_mul,
      Nat.add_comm]
    by_cases heq : prid = own
    · simp [heq]
    · simp [heq]

theorem mem_appended : prid ∈ s.appended ↔ prid ∈ s.portFilter.prids ∧ s.Allowed prid := by
  unfold Server.appended Server.Allowed
  simp only [List.mem_flatMap, List.mem_filter, decide_eq_true_eq, mem_matching]
  constructor
  · intro h
    obtain ⟨ident, ⟨hident, hport⟩, own, hown, rfl, hallow⟩ := h
    exact ⟨hown, ident, hident, hport, hallow⟩
  · intro h
    obtain ⟨hown, ident, hident, hport, hallow⟩ := h
    exact ⟨ident, ⟨hident, hport⟩, prid, hown, rfl, hallow⟩

theorem count_appended : s.appended.count prid = s.portFilter.prids.count prid * s.named prid := by
  unfold Server.appended Server.named
  rw [List.count_flatMap]
  simp only [Function.comp_def, count_flatMap_matching]
  exact List.sum_map_mul_left _ _ _

theorem namedOnce_iff : s.NamedOnce ↔ s.appended.Nodup := by
  rw [List.nodup_iff_count_le_one]
  simp only [count_appended]
  rfl

/-- The filter has each allowed id of the port once if and only if the IDENT names none of them twice, or the
filter is full first. -/
theorem take_appended_iff : (s.appended.take CS_MAXPROV).Nodup ∧
    (∀ prid, prid ∈ s.appended.take CS_MAXPROV ↔ prid ∈ s.portFilter.prids ∧ s.Allowed prid) ↔
      s.NamedOnce ∨ s.FilledFirst := by
  have hport : s.appended ⊆ s.portFilter.prids := fun prid h => (mem_appended.mp h).1
  have hle := s.portFilter.nprids_le
  rw [namedOnce_iff]
  constructor
  · intro h
    by_cases hfull : CS_MAXPROV ≤ s.appended.length
    · exact .inr ⟨hfull, h.1⟩
    · left
      rw [← List.take_of_length_le (Nat.le_of_not_le hfull)]
      exact h.1
  · intro h
    obtain hnodup | ⟨hfull, hnodup⟩ := h
    · have hlen := (hnodup.subperm hport).length_le
      rw [List.take_of_length_le (by omega)]
      exact ⟨hnodup, fun prid => mem_appended⟩
    · refine ⟨hnodup, ?_⟩
      intro prid
      constructor
      · intro hmem
        exact mem_appended.mp (List.mem_of_mem_take hmem)
      · intro hmem
        have hsub := hnodup.subperm fun own hown => hport (List.mem_of_mem_take hown)
        have hperm := hsub.perm_of_length_le (by rw [List.length_take]; omega)
        exact hperm.mem_iff.mpr hmem.1

/-- The copy of the port filter undoes the loop over the readers. -/
theorem groupUserFtab_eq (readers : List PortReader) (grp : BitVec 64) (s : Server) :
    groupUserFtab readers grp s = mkUserFtab s := rfl

end Filters

section Claims

variable {readers : List PortReader} {grp : BitVec 64} {s : Server}

theorem portFilter_eq {psfilt : Filter} (hncd : s.ncd = some psfilt) : s.portFilter = psfilt := by
  unfold Server.portFilter
  rw [hncd]
  rfl

theorem mkUserFtab_refused (h : s.CtabRefuses) : (mkUserFtab s).prids = [] := by
  unfold Server.CtabRefuses at h
  unfold mkUserFtab
  cases hncd : s.ncd with
  | none => rfl
  | some psfilt =>
    obtain rfl := portFilter_eq hncd
    dsimp only
    rw [if_pos h]
    rfl

theorem mkUserFtab_port (h : ¬ s.CtabRefuses) (hftab : s.ftab = []) :
    (mkUserFtab s).prids = s.portFilter.prids := by
  unfold Server.CtabRefuses at h
  cases hncd : s.ncd with
  | none =>
    unfold mkUserFtab Server.portFilter
    rw [hncd]
    rfl
  | some psfilt =>
    obtain rfl := portFilter_eq hncd
    unfold mkUserFtab
    rw [hncd]
    dsimp only
    rw [if_neg h, if_neg (by simp [hftab]), if_pos hftab]

/-- A search in the IDENT that fails leaves nothing to append. -/
theorem appended_of_not_found (hcaids : (s.ftab.all fun ident => ident.caid ≠ 0) = true)
    (hfound : (!s.ftab.any fun ident => ident.caid ≠ 0 && s.portFilter.caid = ident.caid) = true) :
    s.appended = [] := by
  have hnone : (s.ftab.filter fun ident => s.ForPort ident) = [] := by
    rw [List.filter_eq_nil_iff]
    intro ident hident hport
    have hcaid : ident.caid ≠ 0 := by simpa using List.all_eq_true.mp hcaids ident hident
    have heq : ident.caid = s.portFilter.caid := (of_decide_eq_true hport).resolve_left hcaid
    rw [Bool.not_eq_true', List.any_eq_false] at hfound
    apply hfound ident hident
    rw [heq] at hcaid ⊢
    simpa using hcaid
  unfold Server.appended
  rw [hnone, List.flatMap_nil]

theorem mkUserFtab_ident (h : ¬ s.CtabRefuses) (hftab : s.ftab ≠ []) :
    (mkUserFtab s).prids = s.appended.take CS_MAXPROV := by
  unfold Server.CtabRefuses at h
  cases hncd : s.ncd with
  | none =>
    have hnone : s.appended = [] := by
      have hport : s.portFilter.prids = [] := by
        unfold Server.portFilter
        rw [hncd]
        rfl
      unfold Server.appended
      rw [hport]
      simp
    unfold mkUserFtab
    rw [hncd, hnone, List.take_nil]
    rfl
  | some psfilt =>
    obtain rfl := portFilter_eq hncd
    unfold mkUserFtab
    rw [hncd]
    dsimp only
    rw [if_neg h]
    split_ifs with hident
    · rw [appended_of_not_found hident.2.2.1 hident.2.2.2, List.take_nil]
      rfl
    · rw [identPrids_eq, prids_foldl_push, List.nil_append]
      rfl

/-- The provider ids are right if and only if the copied port filter, or what the IDENT appends, has the ids it
should have. -/
theorem userFtabRight_iff (readers : List PortReader) (grp : BitVec 64) (s : Server) :
    UserFtabRight readers grp s ↔ UserFtabFits readers grp s := by
  unfold UserFtabRight UserFtabFits
  rw [and_iff_right (groupUserFtab readers grp s).nprids_le, groupUserFtab_eq]
  by_cases hftab : s.ftab = []
  · rw [if_pos hftab, if_pos hftab]
    by_cases hrefuse : s.CtabRefuses
    · rw [mkUserFtab_refused hrefuse]
      simp [hrefuse]
    · rw [mkUserFtab_port hrefuse hftab]
      simp [hrefuse]
  · rw [if_neg hftab, if_neg hftab]
    by_cases hrefuse : s.CtabRefuses
    · rw [mkUserFtab_refused hrefuse]
      simp [hrefuse]
    · rw [mkUserFtab_ident hrefuse hftab, take_appended_iff]
      simp [hrefuse]

/-- A port of two ids, a network reader for one of them, and a user of its group without IDENT. -/
def groupServer : Server := ⟨some ⟨0x0500, [1, 2], by decide⟩, [], [], none, 0⟩

def groupReader : PortReader := ⟨1, true, [⟨0x0500, [1], by decide⟩], 0, fun _ => .replicate 8 0⟩

/-- The user gets the second id, that no reader has. -/
theorem second_id_kept : ¬ UserFtabRight [groupReader] 1 groupServer := by
  unfold UserFtabRight
  intro h
  have hsecond := h.2
  have hftab : groupServer.ftab = [] := rfl
  rw [if_pos hftab] at hsecond
  have hreach := ((hsecond 2).mp (by decide)).2
  revert hreach
  decide

end Claims

end NCam.Newcamd
