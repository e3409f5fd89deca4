import NCam.Conf.Services
import NCam.Util.Printf

/-! The names of an account's services and AU readers: `mk_t_service` and `mk_t_aureader` print them into buffers
of a fixed size. -/
namespace NCam.Conf

open NCam.Util

/-- The texts of the `snprintf` calls of `mk_t_service` from service `i` on; `dot` is what the next one starts
with. -/
def printServices (shift : SidShift) (sidtabs : Sidtabs) : ℕ → List Char → List SidTab → List (List Char)
  | _, _, [] => []
  | i, dot, sidtab :: rest =>
    let ok := sidtabs.ok &&& shift.bit i ≠ 0
    let no := sidtabs.no &&& shift.bit i ≠ 0
    (if ok then [dot ++ sidtab.label] else []) ++
      ((if no then [(if ok then [','] else dot) ++ '!' :: sidtab.label] else []) ++
        printServices shift sidtabs (i + 1) (if ok ∨ no then [','] else dot) rest)

/-- The text that `mk_t_service` leaves in its buffer, unless it writes behind it. -/
def mkTService (shift : SidShift) (cfgSidtab : List SidTab) (sidtabs : Sidtabs) : Option (List Char) :=
  if cfgSidtab = [] ∨ (sidtabs.ok = 0 ∧ sidtabs.no = 0) then some []
  else snprintfs 1024 (printServices shift sidtabs 0 [] cfgSidtab) 0 []

/-- The texts of the `snprintf` calls of `mk_t_aureader`, for the labels of the readers. -/
def printReaders : List Char → List (List Char) → List (List Char)
  | _, [] => []
  | dot, label :: rest => (dot ++ label) :: printReaders [','] rest

/-- The text that `mk_t_aureader` leaves in its buffer, unless it writes behind it. -/
def mkTAureader (aureaderList : List (List Char)) : Option (List Char) :=
  if aureaderList = [] then some [] else snprintfs 256 (printReaders [] aureaderList) 0 []

/-- The names of one service in a selection. -/
def serviceNames (shift : SidShift) (sidtabs : Sidtabs) (sidtab : SidTab) (i : ℕ) : List (List Char) :=
  (if sidtabs.ok &&& shift.bit i ≠ 0 then [sidtab.label] else []) ++
    if sidtabs.no &&& shift.bit i ≠ 0 then ['!' :: sidtab.label] else []

/-- The names of the selected services, and with a '!' those of the deselected ones. -/
def selectedNames (shift : SidShift) (cfgSidtab : List SidTab) (sidtabs : Sidtabs) : List (List Char) :=
  cfgSidtab.zipIdx.flatMap fun x => serviceNames shift sidtabs x.1 x.2

section Names

variable {shift : SidShift} {cfgSidtab : List SidTab} {sidtabs : Sidtabs} {dot : List Char} {i : ℕ}
  {names names' : List (List Char)}

/-- Names with a comma before every one but the first are their list. -/
private theorem flatten_printReaders : (printReaders [] names).flatten = joinTokens ',' names := by
  have hrest : ∀ names, (printReaders [','] names).flatten = (names.map fun name => ',' :: name).flatten := by
    intro names
    induction names with
    | nil => rfl
    | cons name names ih =>
      rw [List.map_cons, List.flatten_cons, ← ih]
      rfl
  cases names with
  | nil => rfl
  | cons name names =>
    rw [joinTokens_cons, ← hrest]
    rfl

private theorem printReaders_append : printReaders dot (names ++ names') =
    printReaders dot names ++ printReaders (if names = [] then dot else [',']) names' := by
  cases names with
  | nil => rfl
  | cons name names =>
    have hcomma : ∀ names, printReaders [','] (names ++ names') =
        printReaders [','] names ++ printReaders [','] names' := by
      intro names
      induction names with
      | nil => rfl
      | cons name names ih => exact congrArg _ ih
    show (dot ++ name) :: printReaders [','] (names ++ names') = _
    rw [hcomma, if_neg (List.cons_ne_nil _ _)]
    rfl

/-- The loop of `mk_t_service` prints its names as the one of `mk_t_aureader` does. -/
private theorem printServices_eq : printServices shift sidtabs i dot cfgSidtab =
    printReaders dot ((cfgSidtab.zipIdx i).flatMap fun x => serviceNames shift sidtabs x.1 x.2) := by
  induction cfgSidtab generalizing i dot with
  | nil => rfl
  | cons sidtab rest ih =>
    unfold printServices
    dsimp only
    rw [List.zipIdx_cons, List.flatMap_cons, printReaders_append, ih]
    generalize ((rest.zipIdx (i + 1)).flatMap fun x => serviceNames shift sidtabs x.1 x.2) = others
    unfold serviceNames
    by_cases hok : sidtabs.ok &&& shift.bit i = 0#64
    · by_cases hno : sidtabs.no &&& shift.bit i = 0#64
      · simp [hok, hno, printReaders]
      · simp [hok, hno, printReaders]
    · by_cases hno : sidtabs.no &&& shift.bit i = 0#64
      · simp [hok, hno, printReaders]
      · simp [hok, hno, printReaders]

/-- Nothing is selected, or there is no service. -/
private theorem selectedNames_eq_nil (h : cfgSidtab = [] ∨ (sidtabs.ok = 0 ∧ sidtabs.no = 0)) :
    selectedNames shift cfgSidtab sidtabs = [] := by
  unfold selectedNames
  rcases h with rfl | ⟨hok, hno⟩
  · rfl
  · rw [List.flatMap_eq_nil_iff]
    intro x _
    simp [serviceNames, hok, hno]

private theorem mkTService_iff : mkTService shift cfgSidtab sidtabs =
      some (joinTokens ',' (selectedNames shift cfgSidtab sidtabs)) ↔
    (joinTokens ',' (selectedNames shift cfgSidtab sidtabs)).length < 1024 := by
  have hflat : (printServices shift sidtabs 0 [] cfgSidtab).flatten =
      joinTokens ',' (selectedNames shift cfgSidtab sidtabs) := by
    rw [printServices_eq, flatten_printReaders]
    rfl
  unfold mkTService
  split_ifs with hnone
  · rw [selectedNames_eq_nil hnone]
    simp [joinTokens]
  · rw [← hflat]
    exact snprintfs_whole_iff (by omega)

private theorem mkTAureader_iff : mkTAureader names = some (joinTokens ',' names) ↔
    (joinTokens ',' names).length < 256 := by
  unfold mkTAureader
  split_ifs with hnone
  · rw [hnone]
    simp [joinTokens]
  · rw [← flatten_printReaders]
    exact snprintfs_whole_iff (by omega)

/-- Both stay in their buffers with the whole list of names exactly as long as the list has room there. -/
theorem mkT_names_iff (shift : SidShift) (cfgSidtab : List SidTab) (sidtabs : Sidtabs)
    (aureaderList : List (List Char)) :
    (mkTService shift cfgSidtab sidtabs = some (joinTokens ',' (selectedNames shift cfgSidtab sidtabs)) ↔
      (joinTokens ',' (selectedNames shift cfgSidtab sidtabs)).length < 1024) ∧
    (mkTAureader aureaderList = some (joinTokens ',' aureaderList) ↔
      (joinTokens ',' aureaderList).length < 256) :=
  ⟨mkTService_iff, mkTAureader_iff⟩

/-- Eighteen services with labels of 63 characters, all of them selected, write behind the buffer; so do six
readers with such labels. -/
theorem names_outside : (¬ ∀ (shift : SidShift) (cfgSidtab : List SidTab) (sidtabs : Sidtabs),
      mkTService shift cfgSidtab sidtabs = some (joinTokens ',' (selectedNames shift cfgSidtab sidtabs))) ∧
    ¬ ∀ aureaderList : List (List Char), mkTAureader aureaderList = some (joinTokens ',' aureaderList) := by
  constructor
  · intro h
    have houtside : mkTService .modulo (List.replicate 18 ⟨List.replicate 63 'a', [], [], []⟩) ⟨0x3ffff, 0⟩ =
        none := by decide +kernel
    rw [h] at houtside
    cases houtside
  · intro h
    have houtside : mkTAureader (List.replicate 6 (List.replicate 63 'a')) = none := by decide +kernel
    rw [h] at houtside
    cases houtside

end Names

end NCam.Conf
