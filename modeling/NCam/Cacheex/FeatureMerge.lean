import NCam.Cacheex.FeatureTrigger
import NCam.Lib.Transition

/-! The merge of a received `lg_only_tab` into the local one, and when the table it leaves accepts what the two
accepted. -/
namespace NCam.Cacheex.FeatureTrigger

open NCam.Lib.Shadow

section Defs

/-- A received filter and the index of one of its providers. -/
structure MergeStep where
  filt : Filt
  k : Fin filt.prids.length

def MergeStep.caid (s : MergeStep) : BitVec 16 := s.filt.caid

def MergeStep.prid (s : MergeStep) : BitVec 32 := s.filt.prids.get s.k

/-- The filter as it is when this provider is read; those behind it are zero. -/
def MergeStep.readSoFar (s : MergeStep) : Filt :=
  ⟨s.caid, s.filt.prids.take (s.k + 1) ++ List.replicate (s.filt.prids.length - (s.k + 1)) 0⟩

/-- The received providers in the order of the loops. -/
def mergeSteps (received : Ftab) : List MergeStep :=
  received.flatMap fun d => (List.finRange d.prids.length).map fun k => ⟨d, k⟩

/-- The merge of the received filters, without the setting that lets them replace the local ones. -/
def mergeReceived (tab received : Ftab) : Option Ftab :=
  if received.any fun d => csMaxprov < d.prids.length then none
  else if tab.length = 0 then some received
  else received.foldlM mergeIdents tab

/-- The table accepts the pair. -/
def Accepts (tab : Ftab) (caid : BitVec 16) (prid : BitVec 32) : Prop := chkLgOnlyCp caid prid tab = true

instance {tab : Ftab} {caid : BitVec 16} {prid : BitVec 32} : Decidable (Accepts tab caid prid) :=
  inferInstanceAs (Decidable (_ = true))

/-- The filters have room for their providers. -/
def FitsMaxprov (tab : Ftab) : Prop := ∀ d ∈ tab, d.prids.length ≤ csMaxprov

/-- The merge stays in its arrays and ends, and the table left accepts what one of the two accepted. -/
def MergesRight (tab received : Ftab) : Prop :=
  ∃ merged, mergeReceived tab received = some merged ∧ (FitsMaxprov tab → FitsMaxprov merged) ∧
    ∀ caid prid, Accepts merged caid prid ↔ Accepts tab caid prid ∨ Accepts received caid prid

/-- The table after a provider; a search that does not end leaves it. -/
def mergeNext (tab : Ftab) (s : MergeStep) : Ftab := (mergeIdent s.filt tab s.k).getD tab

/-- The provider is known, or the search for its caid ends. -/
def SearchEnds (tab : Ftab) (s : MergeStep) : Prop :=
  chkIdentFilter s.caid s.prid tab = true ∨ searchCaid s.caid tab ≠ none

/-- The providers that the step enters for the caid. -/
def entered (tab : Ftab) (s : MergeStep) : List (BitVec 32) :=
  if chkIdentFilter s.caid s.prid tab then []
  else
    match searchCaid s.caid tab with
    | some (some l) =>
      if (tab.getD l ⟨0, []⟩).prids.length + 1 ≤ csMaxprov then [s.prid] else []
    | some none => s.readSoFar.prids
    | none => []

/-- A filter of the caid names the provider. -/
def Names (tab : Ftab) (caid : BitVec 16) (prid : BitVec 32) : Prop :=
  ∃ d ∈ tab, d.caid = caid ∧ prid ∈ d.prids

/-- A filter of the caid has no providers, which stands for all. -/
def OpenFor (tab : Ftab) (caid : BitVec 16) : Prop := ∃ d ∈ tab, d.caid = caid ∧ d.prids = []

/-- The filter caid stands for the caid itself, or for its system. -/
def StandsFor (fcaid caid : BitVec 16) : Prop :=
  fcaid ≠ 0 ∧ (fcaid = caid ∨ (fcaid < 0x0100 ∧ caid >>> 8 = fcaid))

/-- The step enters the provider for the caid. -/
def Enters (caid : BitVec 16) (prid : BitVec 32) (tab : Ftab) (s : MergeStep) : Prop :=
  s.caid = caid ∧ prid ∈ entered tab s

/-- The step leaves out its provider, that no filter of the caid names: its filter is full, or only a filter
without a caid names it. -/
def LeavesOut (caid : BitVec 16) (prid : BitVec 32) (tab : Ftab) (s : MergeStep) : Prop :=
  s.caid = caid ∧ s.prid = prid ∧ entered tab s = [] ∧ ¬ Names tab caid prid

/-- The step adds a filter before its last providers are read. -/
def FillsZero (caid : BitVec 16) (tab : Ftab) (s : MergeStep) : Prop :=
  s.caid = caid ∧ chkIdentFilter s.caid s.prid tab = false ∧ searchCaid s.caid tab = some none ∧
    s.k + 1 < s.filt.prids.length

/-- The step enters a provider into the only filter of the caid that stood for all. -/
def Narrows (caid : BitVec 16) (tab : Ftab) (s : MergeStep) : Prop :=
  s.caid = caid ∧ entered tab s ≠ [] ∧ OpenFor tab caid ∧
    ∀ l (h : l < tab.length), tab[l].caid = caid → tab[l].prids = [] → searchCaid caid tab = some (some l)

/-- Something that accepts the pair is lost: a received filter without providers, a local one that is narrowed,
or a provider that is left out. -/
def Lost (tab received : Ftab) (caid : BitVec 16) (prid : BitVec 32) : Prop :=
  ∃ fcaid, StandsFor fcaid caid ∧
    (OpenFor received fcaid ∨ Ever mergeNext (Narrows fcaid) tab (mergeSteps received) ∨
      ∃ q, (q = noProvidValue ∨ q = prid) ∧ Ever mergeNext (LeavesOut fcaid q) tab (mergeSteps received))

/-- Something that accepts the pair is kept: a local filter without providers that is not narrowed, or a
provider that the local table names or a step enters. -/
def Kept (tab received : Ftab) (caid : BitVec 16) (prid : BitVec 32) : Prop :=
  ∃ fcaid, StandsFor fcaid caid ∧
    ((OpenFor tab fcaid ∧ Always mergeNext (fun t s => ¬ Narrows fcaid t s) tab (mergeSteps received)) ∨
      ∃ q, (q = noProvidValue ∨ q = prid) ∧
        (Names tab fcaid q ∨ Ever mergeNext (Enters fcaid q) tab (mergeSteps received)))

/-- The received filters fit into the array, and the local table is empty or: every search ends, where a zero is
filled in it was accepted anyway, and of a pair for which something is lost something else is kept. -/
def MergeFits (tab received : Ftab) : Prop :=
  FitsMaxprov received ∧
    (tab = [] ∨
      (Always mergeNext SearchEnds tab (mergeSteps received) ∧
        (∀ fcaid caid, StandsFor fcaid caid → Ever mergeNext (FillsZero fcaid) tab (mergeSteps received) →
          Accepts tab caid 0 ∨ Accepts received caid 0) ∧
        ∀ caid prid, Lost tab received caid prid → Kept tab received caid prid))

end Defs

section Steps

variable {tab : Ftab} {caid : BitVec 16} {prid : BitVec 32} {s : MergeStep} {l : ℕ}

private theorem mergeIdent_eq : mergeIdent s.filt tab s.k =
    if chkIdentFilter s.caid s.prid tab then some tab else addPrid s.readSoFar s.prid tab := by
  have hprid : s.filt.prids.getD s.k 0 = s.prid := List.getD_eq_getElem _ _ s.k.isLt
  unfold mergeIdent
  rw [hprid]
  rfl

theorem mergeIdent_ne_none : mergeIdent s.filt tab s.k ≠ none ↔ SearchEnds tab s := by
  rw [mergeIdent_eq]
  unfold SearchEnds
  by_cases hknown : chkIdentFilter s.caid s.prid tab
  · simp [hknown]
  · rw [if_neg hknown]
    unfold addPrid
    rw [Ne, Option.map_eq_none_iff]
    exact (or_iff_right hknown).symm

theorem prid_mem_readSoFar : s.prid ∈ s.readSoFar.prids := by
  apply List.mem_append_left
  rw [List.mem_iff_getElem]
  refine ⟨s.k, ?_, ?_⟩
  · rw [List.length_take]
    have := s.k.isLt
    omega
  · exact List.getElem_take

theorem searchCaid_some (h : searchCaid caid tab = some (some l)) :
    ∃ hl : l < tab.length, tab[l].caid = caid := by
  unfold searchCaid at h
  cases hfind : (tab.take 256).findIdx? (·.caid = caid) with
  | none => simp [hfind] at h
  | some j =>
    have hj : j = l := by simpa [hfind] using h
    subst hj
    obtain ⟨hlen, hcaid, -⟩ := List.findIdx?_eq_some_iff_getElem.mp hfind
    have hlt : j < tab.length := lt_of_lt_of_le hlen (List.length_take_le' _ _)
    exact ⟨hlt, by simpa using hcaid⟩

theorem searchCaid_absent (h : searchCaid caid tab = some none) {d : Filt} (hd : d ∈ tab) :
    d.caid ≠ caid := by
  unfold searchCaid at h
  cases hfind : (tab.take 256).findIdx? (·.caid = caid) with
  | some j => simp [hfind] at h
  | none =>
    have hlen : tab.length ≤ 255 := by simpa [hfind] using h
    rw [List.take_of_length_le (by omega), List.findIdx?_eq_none_iff] at hfind
    simpa using hfind d hd

/-- What a step does: nothing, a provider behind those of a filter, or a new filter. -/
theorem mergeNext_cases (tab : Ftab) (s : MergeStep) :
    (entered tab s = [] ∧ mergeNext tab s = tab) ∨
      (∃ l, ∃ hl : l < tab.length, searchCaid s.caid tab = some (some l) ∧ tab[l].caid = s.caid ∧
        tab[l].prids.length + 1 ≤ csMaxprov ∧ entered tab s = [s.prid] ∧
        mergeNext tab s = tab.modify l fun f => { f with prids := f.prids ++ [s.prid] }) ∨
      (chkIdentFilter s.caid s.prid tab = false ∧ searchCaid s.caid tab = some none ∧
        entered tab s = s.readSoFar.prids ∧ mergeNext tab s = tab ++ [s.readSoFar]) := by
  unfold entered mergeNext
  rw [mergeIdent_eq]
  by_cases hknown : chkIdentFilter s.caid s.prid tab
  · left
    rw [if_pos hknown, if_pos hknown]
    exact ⟨rfl, rfl⟩
  rw [if_neg hknown, if_neg hknown]
  unfold addPrid
  have hcaid : s.readSoFar.caid = s.caid := rfl
  rw [hcaid]
  cases hsearch : searchCaid s.caid tab with
  | none => exact .inl ⟨rfl, rfl⟩
  | some found =>
    cases found with
    | none => exact .inr (.inr ⟨by simpa using hknown, rfl, rfl, rfl⟩)
    | some l =>
      obtain ⟨hl, hlcaid⟩ := searchCaid_some hsearch
      have hget : tab.getD l ⟨0, []⟩ = tab[l] := List.getD_eq_getElem _ _ hl
      simp only [hget, Option.map_some, Option.getD_some]
      by_cases hroom : tab[l].prids.length + 1 ≤ csMaxprov
      · rw [if_pos hroom]
        refine .inr (.inl ⟨l, hl, rfl, hlcaid, hroom, rfl, ?_⟩)
        rw [List.modify_eq_take_cons_drop hl, List.modify_eq_take_cons_drop hl, if_pos hroom]
      · rw [if_neg hroom]
        refine .inl ⟨rfl, ?_⟩
        rw [List.modify_eq_take_cons_drop hl, if_neg hroom, List.getElem_cons_drop, List.take_append_drop]

private theorem exists_mem_modify {f : Filt → Filt} {P : Filt → Prop} :
    (∃ d ∈ tab.modify l f, P d) ↔ ∃ j, ∃ hj : j < tab.length, P (if l = j then f tab[j] else tab[j]) := by
  constructor
  · intro h
    obtain ⟨d, hd, hP⟩ := h
    obtain ⟨j, hj, rfl⟩ := List.mem_iff_getElem.mp hd
    rw [List.getElem_modify] at hP
    exact ⟨j, by simpa using hj, hP⟩
  · intro h
    obtain ⟨j, hj, hP⟩ := h
    have hlen : j < (tab.modify l f).length := by simpa using hj
    refine ⟨(tab.modify l f)[j], List.getElem_mem hlen, ?_⟩
    rwa [List.getElem_modify]

theorem names_mergeNext (tab : Ftab) (s : MergeStep) :
    Names (mergeNext tab s) caid prid ↔ Names tab caid prid ∨ Enters caid prid tab s := by
  unfold Enters
  obtain ⟨hnone, hnext⟩ | ⟨l, hl, -, hcaid, -, hone, hnext⟩ | ⟨-, -, hfilt, hnext⟩ := mergeNext_cases tab s
  · rw [hnext, hnone]
    simp
  · rw [hnext, hone, List.mem_singleton]
    unfold Names
    rw [exists_mem_modify]
    constructor
    · intro h
      obtain ⟨j, hj, hjcaid, hmem⟩ := h
      by_cases heq : l = j
      · subst heq
        rw [if_pos rfl] at hjcaid hmem
        obtain hold | hnew := List.mem_append.mp hmem
        · exact .inl ⟨tab[l], List.getElem_mem hl, hjcaid, hold⟩
        · exact .inr ⟨hcaid.symm.trans hjcaid, List.mem_singleton.mp hnew⟩
      · rw [if_neg heq] at hjcaid hmem
        exact .inl ⟨tab[j], List.getElem_mem hj, hjcaid, hmem⟩
    · intro h
      obtain ⟨d, hd, hdcaid, hmem⟩ | ⟨hscaid, hprid⟩ := h
      · obtain ⟨j, hj, rfl⟩ := List.mem_iff_getElem.mp hd
        refine ⟨j, hj, ?_⟩
        split
        · exact ⟨hdcaid, List.mem_append_left _ hmem⟩
        · exact ⟨hdcaid, hmem⟩
      · refine ⟨l, hl, ?_⟩
        rw [if_pos rfl]
        exact ⟨hcaid.trans hscaid, List.mem_append_right _ (List.mem_singleton.mpr hprid)⟩
  · rw [hnext, hfilt]
    simp [Names, or_and_right, exists_or, MergeStep.readSoFar]

theorem openFor_mergeNext (tab : Ftab) (s : MergeStep) :
    OpenFor (mergeNext tab s) caid ↔ OpenFor tab caid ∧ ¬ Narrows caid tab s := by
  obtain ⟨hnone, hnext⟩ | ⟨l, hl, hsearch, hcaid, -, hone, hnext⟩ | ⟨-, hsearch, hfilt, hnext⟩ :=
    mergeNext_cases tab s
  · rw [hnext]
    refine (and_iff_left ?_).symm
    intro hnarrow
    exact hnarrow.2.1 hnone
  · rw [hnext]
    unfold OpenFor
    rw [exists_mem_modify]
    constructor
    · intro h
      obtain ⟨j, hj, hjcaid, hnil⟩ := h
      have hne : l ≠ j := by
        intro heq
        rw [if_pos heq] at hnil
        exact List.append_ne_nil_of_right_ne_nil _ (List.cons_ne_nil _ _) hnil
      rw [if_neg hne] at hjcaid hnil
      refine ⟨⟨tab[j], List.getElem_mem hj, hjcaid, hnil⟩, ?_⟩
      intro hnarrow
      obtain ⟨hscaid, -, -, honly⟩ := hnarrow
      have hj := honly j hj hjcaid hnil
      rw [← hscaid, hsearch, Option.some_inj, Option.some_inj] at hj
      exact hne hj
    · intro h
      obtain ⟨hopen, hnarrow⟩ := h
      by_contra hclosed
      have honly : ∀ j (hj : j < tab.length), tab[j].caid = caid → tab[j].prids = [] → l = j := by
        intro j hj hjcaid hnil
        by_contra hne
        apply hclosed
        refine ⟨j, hj, ?_⟩
        rw [if_neg hne]
        exact ⟨hjcaid, hnil⟩
      obtain ⟨d, hd, hdcaid, hnil⟩ := hopen
      obtain ⟨j, hj, rfl⟩ := List.mem_iff_getElem.mp hd
      have hscaid : s.caid = caid := by
        have heq := honly j hj hdcaid hnil
        subst heq
        rw [← hcaid, hdcaid]
      refine hnarrow ⟨hscaid, ?_, ⟨_, hd, hdcaid, hnil⟩, ?_⟩
      · rw [hone]
        exact List.cons_ne_nil _ _
      · intro i hi hicaid hinil
        rw [← hscaid, hsearch, honly i hi hicaid hinil]
  · have hadd : OpenFor (tab ++ [s.readSoFar]) caid ↔ OpenFor tab caid := by
      have hne : s.readSoFar.prids ≠ [] := List.ne_nil_of_mem prid_mem_readSoFar
      simp [OpenFor, or_and_right, exists_or, hne]
    rw [hnext, hadd]
    refine (and_iff_left ?_).symm
    intro hnarrow
    obtain ⟨hscaid, -, ⟨d, hd, hdcaid, -⟩, -⟩ := hnarrow
    exact searchCaid_absent hsearch hd (hdcaid.trans hscaid.symm)

theorem fitsMaxprov_mergeNext (hs : s.filt.prids.length ≤ csMaxprov) (h : FitsMaxprov tab) :
    FitsMaxprov (mergeNext tab s) := by
  obtain ⟨-, hnext⟩ | ⟨l, hl, -, -, hroom, -, hnext⟩ | ⟨-, -, -, hnext⟩ := mergeNext_cases tab s
  · rwa [hnext]
  · rw [hnext]
    intro d hd
    obtain ⟨j, hj, rfl⟩ := List.mem_iff_getElem.mp hd
    rw [List.getElem_modify]
    have hj : j < tab.length := by simpa using hj
    split
    · rename_i heq
      subst heq
      simpa using hroom
    · exact h _ (List.getElem_mem hj)
  · rw [hnext]
    intro d hd
    obtain hold | hnew := List.mem_append.mp hd
    · exact h d hold
    · rw [List.mem_singleton.mp hnew]
      unfold MergeStep.readSoFar
      have := s.k.isLt
      simp only [List.length_append, List.length_take, List.length_replicate]
      omega

/-- A step that enters something enters its provider. -/
theorem prid_mem_entered (h : entered tab s ≠ []) : s.prid ∈ entered tab s := by
  obtain ⟨hnone, -⟩ | ⟨l, -, -, -, -, hone, -⟩ | ⟨-, -, hfilt, -⟩ := mergeNext_cases tab s
  · exact absurd hnone h
  · rw [hone]
    exact List.mem_singleton.mpr rfl
  · rw [hfilt]
    exact prid_mem_readSoFar

/-- What a step enters was received, or is a filled in zero. -/
theorem mem_entered (h : Enters caid prid tab s) :
    (s.caid = caid ∧ prid ∈ s.filt.prids) ∨ (prid = 0 ∧ FillsZero caid tab s) := by
  obtain ⟨hcaid, hmem⟩ := h
  obtain ⟨hnone, -⟩ | ⟨l, -, -, -, -, hone, -⟩ | ⟨hknown, hsearch, hfilt, -⟩ := mergeNext_cases tab s
  · rw [hnone] at hmem
    exact absurd hmem List.not_mem_nil
  · rw [hone, List.mem_singleton] at hmem
    rw [hmem]
    exact .inl ⟨hcaid, List.get_mem _ _⟩
  · rw [hfilt] at hmem
    obtain hread | hfill := List.mem_append.mp hmem
    · exact .inl ⟨hcaid, List.mem_of_mem_take hread⟩
    · obtain ⟨hpos, hzero⟩ := List.mem_replicate.mp hfill
      exact .inr ⟨hzero, hcaid, hknown, hsearch, by omega⟩

theorem enters_of_fillsZero (h : FillsZero caid tab s) : Enters caid 0 tab s := by
  obtain ⟨hcaid, hknown, hsearch, hk⟩ := h
  refine ⟨hcaid, ?_⟩
  unfold entered
  rw [hknown, if_neg Bool.false_ne_true, hsearch]
  apply List.mem_append_right
  rw [List.mem_replicate]
  exact ⟨by omega, rfl⟩

end Steps

section Runs

variable {tab received merged : Ftab} {caid fcaid : BitVec 16} {prid q : BitVec 32} {s : MergeStep}

theorem mem_mergeSteps : s ∈ mergeSteps received ↔ s.filt ∈ received := by
  unfold mergeSteps
  rw [List.mem_flatMap]
  constructor
  · intro h
    obtain ⟨d, hd, hs⟩ := h
    obtain ⟨k, -, rfl⟩ := List.mem_map.mp hs
    exact hd
  · intro h
    exact ⟨s.filt, h, List.mem_map.mpr ⟨s.k, List.mem_finRange _, rfl⟩⟩

/-- A received provider has its step. -/
theorem names_received :
    Names received caid prid ↔ ∃ s ∈ mergeSteps received, s.caid = caid ∧ s.prid = prid := by
  constructor
  · intro h
    obtain ⟨d, hd, hcaid, hprid⟩ := h
    obtain ⟨k, hk, hget⟩ := List.mem_iff_getElem.mp hprid
    exact ⟨⟨d, ⟨k, hk⟩⟩, mem_mergeSteps.mpr hd, hcaid, hget⟩
  · intro h
    obtain ⟨s, hs, hcaid, hprid⟩ := h
    refine ⟨s.filt, mem_mergeSteps.mp hs, hcaid, ?_⟩
    rw [← hprid]
    exact List.get_mem _ _

theorem foldlM_mergeIdents (tab received : Ftab) : received.foldlM mergeIdents tab =
    (mergeSteps received).foldlM (fun t s => mergeIdent s.filt t s.k) tab := by
  induction received generalizing tab with
  | nil => rfl
  | cons d rest ih =>
    have hsteps : mergeSteps (d :: rest) =
        (List.finRange d.prids.length).map (fun k => ⟨d, k⟩) ++ mergeSteps rest := rfl
    have hd : mergeIdents tab d =
        ((List.finRange d.prids.length).map fun k => (⟨d, k⟩ : MergeStep)).foldlM
          (fun t s => mergeIdent s.filt t s.k) tab := by
      unfold mergeIdents
      rw [← List.map_coe_finRange_eq_range, List.foldlM_map, List.foldlM_map]
    rw [hsteps, List.foldlM_append, List.foldlM_cons, ← hd]
    exact congrArg _ (funext ih)

theorem any_csMaxprov_iff :
    (received.any fun d => csMaxprov < d.prids.length) = true ↔ ¬ FitsMaxprov received := by
  unfold FitsMaxprov
  simp

theorem mergeReceived_nil :
    mergeReceived [] received = some merged ↔ FitsMaxprov received ∧ received = merged := by
  unfold mergeReceived
  by_cases hfits : FitsMaxprov received
  · rw [if_neg (by rwa [any_csMaxprov_iff, not_not]), if_pos List.length_nil, Option.some_inj]
    exact (and_iff_right hfits).symm
  · rw [if_pos (any_csMaxprov_iff.mpr hfits)]
    simp [hfits]

theorem mergeReceived_eq_some (hne : tab ≠ []) : mergeReceived tab received = some merged ↔
    FitsMaxprov received ∧ Always mergeNext SearchEnds tab (mergeSteps received) ∧
      (mergeSteps received).foldl mergeNext tab = merged := by
  unfold mergeReceived
  by_cases hfits : FitsMaxprov received
  · rw [if_neg (by rwa [any_csMaxprov_iff, not_not]), if_neg (by simpa using hne), foldlM_mergeIdents,
      and_iff_right hfits]
    exact foldlM_eq (fun _ _ => rfl) (fun _ _ => mergeIdent_ne_none.symm) tab (mergeSteps received) merged
  · rw [if_pos (any_csMaxprov_iff.mpr hfits)]
    simp [hfits]

theorem fitsMaxprov_foldl (hfits : FitsMaxprov received) (h : FitsMaxprov tab) :
    FitsMaxprov ((mergeSteps received).foldl mergeNext tab) := by
  apply List.foldlRecOn _ _ h
  intro t ht s hs
  exact fitsMaxprov_mergeNext (hfits s.filt (mem_mergeSteps.mp hs)) ht

theorem accepts_iff : Accepts tab caid prid ↔ ∃ fcaid, StandsFor fcaid caid ∧
    (OpenFor tab fcaid ∨ ∃ q, (q = noProvidValue ∨ q = prid) ∧ Names tab fcaid q) := by
  unfold Accepts chkLgOnlyCp
  rw [List.any_eq_true]
  constructor
  · intro h
    obtain ⟨d, hd, hmatch⟩ := h
    simp only [Bool.and_eq_true, Bool.or_eq_true, decide_eq_true_eq, List.any_eq_true] at hmatch
    obtain ⟨⟨hzero, hcaid⟩, hprids⟩ := hmatch
    refine ⟨d.caid, ⟨hzero, hcaid⟩, ?_⟩
    obtain hnil | ⟨q, hq, hvalue⟩ := hprids
    · exact .inl ⟨d, hd, rfl, List.length_eq_zero_iff.mp hnil⟩
    · exact .inr ⟨q, hvalue, d, hd, rfl, hq⟩
  · intro h
    obtain ⟨fcaid, hstands, haccepts⟩ := h
    obtain ⟨d, hd, rfl, hnil⟩ | ⟨q, hvalue, d, hd, rfl, hq⟩ := haccepts
    · refine ⟨d, hd, ?_⟩
      simp only [Bool.and_eq_true, Bool.or_eq_true, decide_eq_true_eq]
      exact ⟨hstands, .inl (List.length_eq_zero_iff.mpr hnil)⟩
    · refine ⟨d, hd, ?_⟩
      simp only [Bool.and_eq_true, Bool.or_eq_true, decide_eq_true_eq, List.any_eq_true]
      exact ⟨hstands, .inr ⟨q, hq, hvalue⟩⟩

/-- A provider that the table left names was there or was entered. -/
theorem names_foldl : Names ((mergeSteps received).foldl mergeNext tab) caid prid ↔
    Names tab caid prid ∨ Ever mergeNext (Enters caid prid) tab (mergeSteps received) :=
  run_iff_ever (P := fun t => Names t caid prid) names_mergeNext tab (mergeSteps received)

/-- A filter for all providers that the table left has was there and was not narrowed. -/
theorem openFor_foldl : OpenFor ((mergeSteps received).foldl mergeNext tab) caid ↔
    OpenFor tab caid ∧ Always mergeNext (fun t s => ¬ Narrows caid t s) tab (mergeSteps received) :=
  run_iff_always (P := fun t => OpenFor t caid) openFor_mergeNext tab (mergeSteps received)

/-- The table left accepts the pairs that are kept. -/
theorem accepts_foldl_iff :
    Accepts ((mergeSteps received).foldl mergeNext tab) caid prid ↔ Kept tab received caid prid := by
  rw [accepts_iff]
  simp only [openFor_foldl, names_foldl]
  exact Iff.rfl

/-- A received provider is named by the local table, or its step enters it or leaves it out. -/
theorem entered_or_leftOut {steps : List MergeStep} (hs : s ∈ steps) (tab : Ftab) :
    Names tab s.caid s.prid ∨ Ever mergeNext (Enters s.caid s.prid) tab steps ∨
      Ever mergeNext (LeavesOut s.caid s.prid) tab steps := by
  induction hs generalizing tab with
  | head rest =>
    by_cases hnone : entered tab s = []
    · by_cases hnamed : Names tab s.caid s.prid
      · exact .inl hnamed
      · exact .inr (.inr (.inl ⟨rfl, rfl, hnone, hnamed⟩))
    · exact .inr (.inl (.inl ⟨rfl, prid_mem_entered hnone⟩))
  | tail a _ ih =>
    obtain hnamed | henters | hout := ih (mergeNext tab a)
    · obtain hold | hnew := (names_mergeNext tab a).mp hnamed
      · exact .inl hold
      · exact .inr (.inl (.inl hnew))
    · exact .inr (.inl (.inr henters))
    · exact .inr (.inr (.inr hout))

theorem lost_or_kept (h : Accepts tab caid prid ∨ Accepts received caid prid) :
    Lost tab received caid prid ∨ Kept tab received caid prid := by
  rw [accepts_iff, accepts_iff] at h
  obtain ⟨fcaid, hstands, hopen | ⟨q, hq, hnamed⟩⟩ | ⟨fcaid, hstands, hopen | ⟨q, hq, hnamed⟩⟩ := h
  · by_cases hnarrow : Ever mergeNext (Narrows fcaid) tab (mergeSteps received)
    · exact .inl ⟨fcaid, hstands, .inr (.inl hnarrow)⟩
    · exact .inr ⟨fcaid, hstands, .inl ⟨hopen, not_ever_iff.mp hnarrow⟩⟩
  · exact .inr ⟨fcaid, hstands, .inr ⟨q, hq, .inl hnamed⟩⟩
  · exact .inl ⟨fcaid, hstands, .inl hopen⟩
  · obtain ⟨s, hs, rfl, rfl⟩ := names_received.mp hnamed
    obtain hlocal | henters | hout := entered_or_leftOut hs tab
    · exact .inr ⟨s.caid, hstands, .inr ⟨s.prid, hq, .inl hlocal⟩⟩
    · exact .inr ⟨s.caid, hstands, .inr ⟨s.prid, hq, .inr henters⟩⟩
    · exact .inl ⟨s.caid, hstands, .inr (.inr ⟨s.prid, hq, hout⟩)⟩

/-- Before a step that narrows a filter, the local table had it. -/
theorem openFor_of_narrows {steps : List MergeStep} (h : Ever mergeNext (Narrows fcaid) tab steps) :
    OpenFor tab fcaid := by
  induction steps generalizing tab with
  | nil => exact h.elim
  | cons s steps ih =>
    obtain hnow | hlater := h
    · exact hnow.2.2.1
    · exact ((openFor_mergeNext tab s).mp (ih hlater)).1

theorem accepts_of_lost (h : Lost tab received caid prid) :
    Accepts tab caid prid ∨ Accepts received caid prid := by
  rw [accepts_iff, accepts_iff]
  obtain ⟨fcaid, hstands, hopen | hnarrow | ⟨q, hq, hout⟩⟩ := h
  · exact .inr ⟨fcaid, hstands, .inl hopen⟩
  · exact .inl ⟨fcaid, hstands, .inl (openFor_of_narrows hnarrow)⟩
  · obtain ⟨t, s, hs, hcaid, hprid, -⟩ := hout.exists
    exact .inr ⟨fcaid, hstands, .inr ⟨q, hq, names_received.mpr ⟨s, hs, hcaid, hprid⟩⟩⟩

/-- What is kept was accepted, or it is a zero that was filled in. -/
theorem accepts_of_kept (h : Kept tab received caid prid) :
    (Accepts tab caid prid ∨ Accepts received caid prid) ∨
      (prid = 0 ∧ ∃ fcaid, StandsFor fcaid caid ∧
        Ever mergeNext (FillsZero fcaid) tab (mergeSteps received)) := by
  rw [accepts_iff, accepts_iff]
  obtain ⟨fcaid, hstands, ⟨hopen, -⟩ | ⟨q, hq, hnamed | henters⟩⟩ := h
  · exact .inl (.inl ⟨fcaid, hstands, .inl hopen⟩)
  · exact .inl (.inl ⟨fcaid, hstands, .inr ⟨q, hq, hnamed⟩⟩)
  · by_cases hzero : q = 0 ∧ Ever mergeNext (FillsZero fcaid) tab (mergeSteps received)
    · obtain ⟨rfl, hfills⟩ := hzero
      have hne : (0 : BitVec 32) ≠ noProvidValue := by decide
      exact .inr ⟨(hq.resolve_left hne).symm, fcaid, hstands, hfills⟩
    · left
      right
      refine ⟨fcaid, hstands, .inr ⟨q, hq, ?_⟩⟩
      by_contra hnot
      apply hzero
      have hfills : Ever mergeNext (fun t s => q = 0 ∧ FillsZero fcaid t s) tab (mergeSteps received) := by
        refine henters.mono ?_
        intro t s hs henter
        refine (mem_entered henter).resolve_left ?_
        intro hread
        exact hnot ⟨s.filt, mem_mergeSteps.mp hs, hread⟩
      obtain ⟨t, s, -, hq0, -⟩ := hfills.exists
      refine ⟨hq0, hfills.mono ?_⟩
      intro t s _ hfill
      exact hfill.2

/-- A zero that is filled in is accepted. -/
theorem kept_of_fillsZero (hstands : StandsFor fcaid caid)
    (h : Ever mergeNext (FillsZero fcaid) tab (mergeSteps received)) : Kept tab received caid 0 := by
  refine ⟨fcaid, hstands, .inr ⟨0, .inr rfl, .inr ?_⟩⟩
  refine h.mono ?_
  intro t s _ hfill
  exact enters_of_fillsZero hfill

end Runs

section Claims

end Claims

end NCam.Cacheex.FeatureTrigger
