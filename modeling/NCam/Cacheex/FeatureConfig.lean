import NCam.Cacheex.FeatureConvey

/-! The settings that the configuration files give: what they admit. -/
namespace NCam.Cacheex.FeatureTrigger

open NCam.Util NCam.Cacheex.Filter

/-- `a2i` does not set `errno`. -/
def a2iValid (asc : List Char) (bytes : ℕ) : Bool :=
  ((trim asc).reverse.take (bytes <<< 1)).all fun c => (gethexval c).isSome

/-- One `caid:provider,provider,...`, with at most as many providers as a filter has room for. -/
def chkFilt (ptr : List Char) : Option Filt :=
  match cutAt ':' ptr with
  | (_, none) => none
  | (caid, some headers) =>
    let d : Filt := ⟨(a2i caid 4).setWidth 16,
      (((strtok ',' headers).filter (a2iValid · 4)).map (a2i · 4)).take csMaxprov⟩
    if d.caid = 0 ∨ a2iValid caid 4 = false then none
    else if d.prids ≠ [] then some d
    else none

def chkFtab (value : List Char) : Ftab := (strtok ';' value).filterMap chkFilt

def chkCaidvalue (ptr : List Char) : Option CaidvaluetabData :=
  match cutAt ':' ptr with
  | (_, none) => none
  | (caid, some value) =>
    let d : CaidvaluetabData := ⟨(a2i caid 2).setWidth 16, .ofInt 16 (atoi value)⟩
    if a2iValid caid 2 ∧ d.caid ≠ 0 ∧ d.value < 10000 then some d else none

def chkCaidvaluetab (value : List Char) : Caidvaluetab := (strtok ',' value).filterMap chkCaidvalue

/-- One `[caid][&mask][@provid][$servid]`. -/
def chkHitvalue (ptr : List Char) : Option CecspvaluetabData :=
  let (ptr, ptr3) := cutAt '$' (trim ptr)
  let (ptr, ptr2) := cutAt '@' (trim ptr)
  let (ptr, ptr1) := cutAt '&' ptr
  let d : CecspvaluetabData := ⟨a2i ptr 2, ptr1.elim (-1) (a2i · (-2)), ptr2.elim (-1) (a2i · 6),
    ptr3.elim (-1) (a2i · 4), 0, 0⟩
  if 0 < d.caid.toInt then some d else none

def chkCacheexHitvaluetab (lbrlt : List Char) : Cecspvaluetab :=
  (strtok ',' lbrlt).filterMap chkHitvalue

/-- A caid of the older setting is added for all providers. -/
def addCaid (tab : Ftab) (caid : BitVec 16) : Ftab :=
  if caid = 0 then tab
  else
    match tab.findIdx? (fun d => d.caid ≠ 0 && d.caid = caid) with
    | some k => tab.modify k fun d =>
        if d.prids.contains noProvidValue then d else { d with prids := [noProvidValue] }
    | none => tab ++ [⟨caid, [noProvidValue]⟩]

def caidtab2ftabAdd (ctab : List (BitVec 16)) (tab : Ftab) : Ftab := ctab.foldl addCaid tab

theorem chkFtab_admitted (value : List Char) : (Setting.lgOnlyTab (chkFtab value)).Admitted := by
  intro d hd
  obtain ⟨ptr, -, hchk⟩ := List.mem_filterMap.mp hd
  unfold chkFilt at hchk
  split at hchk
  · cases hchk
  · dsimp only at hchk
    split_ifs at hchk with hbad hprids
    rw [← Option.some.inj hchk]
    refine ⟨fun h => hbad (Or.inl h), hprids, ?_⟩
    exact List.length_take_le csMaxprov _

theorem chkCaidvaluetab_admitted (value : List Char) :
    (Setting.noPushAfter (chkCaidvaluetab value)).Admitted := by
  intro d hd
  obtain ⟨ptr, -, hchk⟩ := List.mem_filterMap.mp hd
  unfold chkCaidvalue at hchk
  split at hchk
  · cases hchk
  · dsimp only at hchk
    rw [Option.ite_none_right_eq_some] at hchk
    rw [← Option.some.inj hchk.2]
    exact hchk.1.2.1

theorem chkCacheexHitvaluetab_admitted (lbrlt : List Char) :
    (Setting.ecmFilter (chkCacheexHitvaluetab lbrlt)).Admitted := by
  intro d hd
  obtain ⟨ptr, -, hchk⟩ := List.mem_filterMap.mp hd
  unfold chkHitvalue at hchk
  dsimp only at hchk
  rw [Option.ite_none_right_eq_some] at hchk
  rw [← Option.some.inj hchk.2]
  dsimp only
  exact ⟨hchk.1, rfl, rfl⟩

private theorem one_le_csMaxprov : [noProvidValue].length ≤ csMaxprov := by decide

private theorem addCaid_admitted {tab : Ftab} {caid : BitVec 16}
    (h : (Setting.lgOnlyTab tab).Admitted) : (Setting.lgOnlyTab (addCaid tab caid)).Admitted := by
  unfold addCaid
  by_cases hzero : caid = 0
  · rw [if_pos hzero]
    exact h
  · rw [if_neg hzero]
    split
    · rename_i k _
      intro d hd
      obtain ⟨i, hi, rfl⟩ := List.getElem_of_mem hd
      rw [List.length_modify] at hi
      obtain ⟨hcaid, hprids, hlen⟩ := h tab[i] (List.getElem_mem hi)
      rw [List.getElem_modify]
      split_ifs with hk hall
      · exact ⟨hcaid, hprids, hlen⟩
      · exact ⟨hcaid, List.cons_ne_nil _ _, one_le_csMaxprov⟩
      · exact ⟨hcaid, hprids, hlen⟩
    · intro d hd
      rcases List.mem_append.mp hd with hold | hnew
      · exact h d hold
      · rw [List.mem_singleton.mp hnew]
        exact ⟨hzero, List.cons_ne_nil _ _, one_le_csMaxprov⟩

theorem caidtab2ftabAdd_admitted (ctab : List (BitVec 16)) {tab : Ftab}
    (h : (Setting.lgOnlyTab tab).Admitted) :
    (Setting.lgOnlyTab (caidtab2ftabAdd ctab tab)).Admitted := by
  unfold caidtab2ftabAdd
  induction ctab generalizing tab with
  | nil => exact h
  | cons caid ctab ih =>
    rw [List.foldl_cons]
    exact ih (addCaid_admitted h)

end NCam.Cacheex.FeatureTrigger
