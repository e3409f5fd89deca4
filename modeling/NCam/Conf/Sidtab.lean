import NCam.Cacheex.FeatureConfig
import NCam.Util.Tokens

/-! The services file: `init_sidtab` reads the lines of all services into a list. The two passes of
`chk_entry4sidtab` over a value: the first one counts for the allocation, the second one stores. Whose values a
service gets. -/
namespace NCam.Conf

open NCam.Util NCam.Cacheex.FeatureTrigger

def maxSidbits : ℕ := 64 + 64

/-- The length of `label` in `s_sidtab`. -/
def sizeofLabel : ℕ := 64

structure SidTab where
  label : List Char
  caid : List (BitVec 16)
  provid : List (BitVec 32)
  srvid : List (BitVec 16)

def strtolower (txt : List Char) : List Char := txt.map Char.toLower

/-- The values for which `a2i` leaves no error. -/
def entryValues (value : List Char) (b : ℕ) : List (BitVec 32) :=
  ((strtok ',' value).filter (a2iValid · b)).map (a2i · b)

def chkEntry4sidtab (value : List Char) (sidtab : SidTab) (what : ℕ) : SidTab :=
  let values := entryValues value (if what = 1 then 4 else 2)
  if what = 0 then { sidtab with caid := values.map (·.setWidth 16) }
  else if what = 1 then { sidtab with provid := values }
  else { sidtab with srvid := values.map (·.setWidth 16) }

/-- Unknown keywords are only reported. -/
def chkSidtab (token value : List Char) (sidtab : SidTab) : SidTab :=
  if token = "caid".toList then chkEntry4sidtab value sidtab 0
  else if token = "provid".toList then chkEntry4sidtab value sidtab 1
  else if token = "ident".toList then chkEntry4sidtab value sidtab 1
  else if token = "srvid".toList then chkEntry4sidtab value sidtab 2
  else sidtab

/-- The variables of `init_sidtab`: `sidtab` is the last one of the list. -/
structure SidtabRead where
  nr : ℕ
  before : List SidTab
  sidtab : Option SidTab

def SidtabRead.list (s : SidtabRead) : List SidTab := s.before ++ s.sidtab.toList

def SidtabRead.readValue (s : SidtabRead) (token : List Char) : SidtabRead :=
  match cutAt '=' token with
  | (token, some value) =>
    { s with sidtab := s.sidtab.map (chkSidtab (trim (strtolower token)) (trim (strtolower value))) }
  | (_, none) => s

/-- `token[0] == '[' && token[l - 1] == ']'`. -/
def isService (token : List Char) : Bool := token.head? = some '[' && token.getLast? = some ']'

/-- One line as `fgets` returns it. The title of a service that is too many is read on as a value. -/
def SidtabRead.line (s : SidtabRead) (token : List Char) : SidtabRead :=
  let token := trim token
  if token.length < 3 then s
  else if isService token then
    if s.nr > maxSidbits then
      { s with nr := s.nr + 1 }.readValue ('[' :: strtolower token.tail.dropLast)
    else
      ⟨s.nr + 1, s.list, some ⟨(strtolower token.tail.dropLast).take (sizeofLabel - 1), [], [], []⟩⟩
  else s.readValue token

def initSidtab (lines : List (List Char)) : List SidTab := (lines.foldl SidtabRead.line ⟨0, [], none⟩).list

/-- The lines with the titles of services. -/
def serviceLines (lines : List (List Char)) : ℕ :=
  lines.countP fun line => (trim line).length ≥ 3 && isService (trim line)

section Count

variable {s : SidtabRead} {token : List Char} {lines : List (List Char)}

private theorem readValue_spec : (s.readValue token).nr = s.nr ∧ (s.readValue token).list.length = s.list.length := by
  unfold SidtabRead.readValue
  obtain ⟨key, value⟩ := cutAt '=' token
  cases value with
  | none => exact ⟨rfl, rfl⟩
  | some value =>
    refine ⟨rfl, ?_⟩
    unfold SidtabRead.list
    cases s.sidtab <;> simp

/-- A line adds a service if it is the title of one and there are not too many yet. -/
private theorem line_spec : (s.line token).nr = s.nr + serviceLines [token] ∧
    (s.list.length = min s.nr (maxSidbits + 1) →
      (s.line token).list.length = min (s.nr + serviceLines [token]) (maxSidbits + 1)) := by
  unfold SidtabRead.line serviceLines
  dsimp only
  rw [List.countP_singleton]
  by_cases hlen : (trim token).length < 3
  · have hshort : decide ((trim token).length ≥ 3) = false := decide_eq_false (by omega)
    rw [if_pos hlen, hshort, Bool.false_and, if_neg Bool.false_ne_true]
    exact ⟨rfl, fun h => h⟩
  · have hlong : decide ((trim token).length ≥ 3) = true := decide_eq_true (by omega)
    rw [if_neg hlen, hlong, Bool.true_and]
    cases isService (trim token) with
    | false =>
      rw [if_neg Bool.false_ne_true, if_neg Bool.false_ne_true]
      obtain ⟨hnr, hlist⟩ := @readValue_spec s (trim token)
      rw [hnr, hlist]
      exact ⟨rfl, fun h => h⟩
    | true =>
      rw [if_pos rfl, if_pos rfl]
      split_ifs with hmany
      · obtain ⟨hnr, hlist⟩ := @readValue_spec { s with nr := s.nr + 1 } ('[' :: strtolower (trim token).tail.dropLast)
        rw [hnr, hlist]
        refine ⟨rfl, fun h => ?_⟩
        change s.list.length = _
        rw [h]
        omega
      · refine ⟨rfl, fun h => ?_⟩
        change (s.list ++ [_]).length = _
        rw [List.length_append, List.length_singleton, h]
        omega

/-- One service more than `MAX_SIDBITS` is admitted. -/
theorem length_initSidtab : (initSidtab lines).length = min (serviceLines lines) (maxSidbits + 1) := by
  have hrun : ∀ lines (s : SidtabRead), s.list.length = min s.nr (maxSidbits + 1) →
      (lines.foldl SidtabRead.line s).list.length = min (s.nr + serviceLines lines) (maxSidbits + 1) := by
    intro lines
    induction lines with
    | nil => exact fun s h => h
    | cons token lines ih =>
      intro s h
      obtain ⟨hnr, hlist⟩ := @line_spec s token
      have hcount : serviceLines (token :: lines) = serviceLines [token] + serviceLines lines := by
        unfold serviceLines
        rw [← List.countP_append, List.singleton_append]
      rw [List.foldl_cons, ih _ (by rw [hnr]; exact hlist h), hnr, hcount, Nat.add_assoc]
  have hall := hrun lines ⟨0, [], none⟩ rfl
  rw [Nat.zero_add] at hall
  exact hall

end Count

/-- The first pass; the tokens do not touch `errno`. -/
def countEntries (errno : Bool) (tokens : List (List Char)) : ℕ :=
  tokens.foldl (fun i _ => if !errno then i + 1 else i) 0

/-- The second pass from one token on, with the `errno` it ends with: `a2i` sets it for every token. -/
def storeEntries (b : ℕ) : Bool → List (List Char) → List (BitVec 32) × Bool
  | errno, [] => ([], errno)
  | _, ptr :: rest =>
    let errno := !a2iValid ptr b
    let stored := storeEntries b errno rest
    (if errno then stored.1 else a2i ptr b :: stored.1, stored.2)

/-- What a call of `chk_entry4sidtab` leaves: the service, the elements that were allocated and written, and
`errno`. -/
structure EntryResult where
  sidtab : SidTab
  allocated : ℕ
  stored : List (BitVec 32)
  errno : Bool

/-- `chk_entry4sidtab` with its allocation, for the `errno` it is called with (`true` if it is not 0). An array for
no element is allocated, too. -/
def chkEntry4sidtabErrno (errno : Bool) (value : List Char) (sidtab : SidTab) (what : ℕ) : EntryResult :=
  let b := if what = 1 then 4 else 2
  let (stored, errno') := storeEntries b errno (strtok ',' value)
  { sidtab :=
      if what = 0 then { sidtab with caid := stored.map (·.setWidth 16) }
      else if what = 1 then { sidtab with provid := stored }
      else { sidtab with srvid := stored.map (·.setWidth 16) }
    allocated := countEntries errno (strtok ',' value)
    stored := stored
    errno := errno' }

/-- The call writes no more elements than it allocated, and it writes the well-formed values in their order. -/
def EntriesFit (errno : Bool) (value : List Char) (sidtab : SidTab) (what : ℕ) : Prop :=
  (chkEntry4sidtabErrno errno value sidtab what).stored.length ≤
      (chkEntry4sidtabErrno errno value sidtab what).allocated ∧
    (chkEntry4sidtabErrno errno value sidtab what).stored = entryValues value (if what = 1 then 4 else 2)

section Passes

variable {errno : Bool} {b what : ℕ} {tokens : List (List Char)} {value : List Char} {sidtab : SidTab}

private theorem countEntries_eq : countEntries errno tokens = if errno then 0 else tokens.length := by
  have hrun : ∀ (tokens : List (List Char)) (i : ℕ),
      tokens.foldl (fun i _ => if !errno then i + 1 else i) i = i + if errno then 0 else tokens.length := by
    intro tokens
    induction tokens with
    | nil => cases errno <;> simp
    | cons ptr tokens ih =>
      intro i
      rw [List.foldl_cons, ih]
      cases errno with
      | true => simp
      | false =>
        simp
        omega
  unfold countEntries
  rw [hrun, Nat.zero_add]

/-- The second pass stores what `a2i` finds well formed, whatever `errno` was before. -/
theorem storeEntries_eq :
    (storeEntries b errno tokens).1 = (tokens.filter (a2iValid · b)).map (a2i · b) := by
  induction tokens generalizing errno with
  | nil => rfl
  | cons ptr tokens ih =>
    unfold storeEntries
    dsimp only
    rw [ih]
    cases hvalid : a2iValid ptr b <;> simp [hvalid]

/-- The array has room for the values exactly if `errno` is clean at the start or there are none. -/
theorem entriesFit_iff (errno : Bool) (value : List Char) (sidtab : SidTab) (what : ℕ) :
    EntriesFit errno value sidtab what ↔
      errno = false ∨ ∀ ptr ∈ strtok ',' value, a2iValid ptr (if what = 1 then 4 else 2) = false := by
  have hstored : (chkEntry4sidtabErrno errno value sidtab what).stored =
      entryValues value (if what = 1 then 4 else 2) := storeEntries_eq
  have hallocated : (chkEntry4sidtabErrno errno value sidtab what).allocated =
      if errno then 0 else (strtok ',' value).length := countEntries_eq
  unfold EntriesFit
  rw [and_iff_left hstored, hstored, hallocated]
  generalize (if what = 1 then 4 else 2) = b
  unfold entryValues
  rw [List.length_map]
  cases errno with
  | false =>
    have hle := List.length_filter_le (a2iValid · b) (strtok ',' value)
    simpa using hle
  | true => simp [List.filter_eq_nil_iff]

/-- One value is stored in an array of no element. -/
theorem entry_outside : ¬ ∀ (errno : Bool) (value : List Char) (sidtab : SidTab) (what : ℕ),
    EntriesFit errno value sidtab what := by
  intro h
  have hfit := (h true "0500".toList ⟨[], [], [], []⟩ 0).1
  have hstored : (chkEntry4sidtabErrno true "0500".toList ⟨[], [], [], []⟩ 0).stored.length = 1 := by
    decide +kernel
  have hallocated : (chkEntry4sidtabErrno true "0500".toList ⟨[], [], [], []⟩ 0).allocated = 0 := by
    decide +kernel
  omega

end Passes

/-- The line is the title of a service. -/
def isTitle (line : List Char) : Bool := (trim line).length ≥ 3 && isService (trim line)

/-- A section: the line with its title and the lines up to the next title. -/
structure SidSection where
  title : List Char
  lines : List (List Char)

/-- The lines before the first section, and the sections. -/
def splitSections : List (List Char) → List (List Char) × List SidSection
  | [] => ([], [])
  | line :: rest =>
    if isTitle line then ([], ⟨line, (splitSections rest).1⟩ :: (splitSections rest).2)
    else (line :: (splitSections rest).1, (splitSections rest).2)

/-- What a line of a section does to its service. -/
def SidTab.readLine (sidtab : SidTab) (line : List Char) : SidTab :=
  if (trim line).length < 3 then sidtab
  else
    match cutAt '=' (trim line) with
    | (token, some value) => chkSidtab (trim (strtolower token)) (trim (strtolower value)) sidtab
    | (_, none) => sidtab

/-- The service of a section, with the values of its own lines. -/
def SidSection.own (sec : SidSection) : SidTab :=
  sec.lines.foldl SidTab.readLine ⟨(strtolower (trim sec.title).tail.dropLast).take (sizeofLabel - 1), [], [], []⟩

/-- The lines of the sections that are too many. -/
def rejectedLines (lines : List (List Char)) : List (List Char) :=
  ((splitSections lines).2.drop (maxSidbits + 1)).flatMap (·.lines)

/-- The services of the list are those of the first sections, each with its own values. -/
def SectionsKept (lines : List (List Char)) : Prop :=
  initSidtab lines = ((splitSections lines).2.take (maxSidbits + 1)).map SidSection.own

section Sections

variable {s : SidtabRead} {sidtab : SidTab} {line : List Char} {lines : List (List Char)} {sec : SidSection}
  {secs : List SidSection}

private theorem splitSections_spec :
    (splitSections lines).1 ++ (splitSections lines).2.flatMap (fun sec => sec.title :: sec.lines) = lines ∧
      (∀ line ∈ (splitSections lines).1, isTitle line = false) ∧
      ∀ sec ∈ (splitSections lines).2, isTitle sec.title = true ∧ ∀ line ∈ sec.lines, isTitle line = false := by
  induction lines with
  | nil => simp [splitSections]
  | cons line rest ih =>
    obtain ⟨hwhole, hbefore, hsecs⟩ := ih
    unfold splitSections
    cases htitle : isTitle line with
    | true =>
      rw [if_pos rfl]
      refine ⟨?_, by simp, ?_⟩
      · simpa using hwhole
      · rw [List.forall_mem_cons]
        exact ⟨⟨htitle, hbefore⟩, hsecs⟩
    | false =>
      rw [if_neg Bool.false_ne_true]
      refine ⟨?_, ?_, hsecs⟩
      · simpa using hwhole
      · rw [List.forall_mem_cons]
        exact ⟨htitle, hbefore⟩

/-- A line that is no title is one of the last service. -/
private theorem line_value (h : isTitle line = false) :
    s.line line = { s with sidtab := s.sidtab.map (·.readLine line) } := by
  unfold SidtabRead.line SidTab.readLine
  unfold isTitle at h
  dsimp only
  by_cases hlen : (trim line).length < 3
  · simp [hlen]
  · have hlong : decide ((trim line).length ≥ 3) = true := decide_eq_true (by omega)
    rw [hlong, Bool.true_and] at h
    rw [if_neg hlen, h, if_neg Bool.false_ne_true]
    simp only [if_neg hlen]
    unfold SidtabRead.readValue
    obtain ⟨token, value⟩ := cutAt '=' (trim line)
    cases value with
    | none => simp
    | some value => rfl

private theorem foldl_value (h : ∀ line ∈ lines, isTitle line = false) :
    lines.foldl SidtabRead.line s = { s with sidtab := s.sidtab.map fun sidtab => lines.foldl SidTab.readLine sidtab } := by
  induction lines generalizing s with
  | nil => simp
  | cons line rest ih =>
    obtain ⟨hline, hrest⟩ := List.forall_mem_cons.mp h
    rw [List.foldl_cons, line_value hline, ih hrest]
    simp [Function.comp_def]

private theorem chkSidtab_bracket (t value : List Char) : chkSidtab ('[' :: t) value = id := by
  funext sidtab
  unfold chkSidtab
  simp

/-- What begins with a bracket is no keyword. -/
private theorem readValue_bracket (t : List Char) : s.readValue ('[' :: t) = s := by
  unfold SidtabRead.readValue cutAt
  rw [List.dropWhile_cons_of_pos (by decide), List.takeWhile_cons_of_pos (by decide)]
  cases t.dropWhile (· ≠ '=') with
  | nil => rfl
  | cons c value =>
    obtain ⟨token, htoken⟩ := @trim_cons (strtolower (t.takeWhile (· ≠ '='))) '[' rfl
    have hread : trim (strtolower ('[' :: t.takeWhile (· ≠ '='))) = '[' :: token := htoken
    dsimp only
    rw [hread, chkSidtab_bracket, Option.map_id]
    rfl

/-- A title that is not too many opens a service. -/
private theorem line_title (h : isTitle line = true) (hnr : s.nr ≤ maxSidbits) : s.line line =
    ⟨s.nr + 1, s.list, some ⟨(strtolower (trim line).tail.dropLast).take (sizeofLabel - 1), [], [], []⟩⟩ := by
  unfold isTitle at h
  rw [Bool.and_eq_true, decide_eq_true_eq] at h
  unfold SidtabRead.line
  dsimp only
  rw [if_neg (by omega), if_pos h.2, if_neg (by omega)]

private theorem line_rejected (h : isTitle line = true) (hnr : maxSidbits < s.nr) :
    s.line line = { s with nr := s.nr + 1 } := by
  unfold isTitle at h
  rw [Bool.and_eq_true, decide_eq_true_eq] at h
  unfold SidtabRead.line
  dsimp only
  rw [if_neg (by omega), if_pos h.2, if_pos hnr, readValue_bracket]

private theorem foldl_section (htitle : isTitle sec.title = true) (hlines : ∀ line ∈ sec.lines, isTitle line = false)
    (hnr : s.nr ≤ maxSidbits) :
    (sec.title :: sec.lines).foldl SidtabRead.line s = ⟨s.nr + 1, s.list, some sec.own⟩ := by
  rw [List.foldl_cons, line_title htitle hnr, foldl_value hlines]
  rfl

/-- The sections as long as there are not too many: the last one is the open one. -/
private theorem foldl_sections (hsecs : ∀ x ∈ secs ++ [sec], isTitle x.title = true ∧
      ∀ line ∈ x.lines, isTitle line = false) (hnr : s.nr + secs.length ≤ maxSidbits) :
    ((secs ++ [sec]).flatMap fun sec => sec.title :: sec.lines).foldl SidtabRead.line s =
      ⟨s.nr + secs.length + 1, s.list ++ secs.map SidSection.own, some sec.own⟩ := by
  induction secs generalizing s with
  | nil =>
    obtain ⟨htitle, hlines⟩ := hsecs sec (by simp)
    rw [List.nil_append, List.flatMap_singleton, foldl_section htitle hlines (by simpa using hnr)]
    simp
  | cons first secs ih =>
    obtain ⟨htitle, hlines⟩ := hsecs first (by simp)
    rw [List.length_cons] at hnr
    rw [List.cons_append, List.flatMap_cons, List.foldl_append, foldl_section htitle hlines (by omega),
      ih (fun x hx => hsecs x (List.mem_cons_of_mem _ hx)) (by dsimp only; omega)]
    simp only [SidtabRead.list, Option.toList_some, List.append_assoc, List.map_cons, List.length_cons,
      List.singleton_append, SidtabRead.mk.injEq, and_true]
    omega

/-- All lines of the sections that are too many go to the service that is open. -/
private theorem foldl_rejected (hsecs : ∀ sec ∈ secs, isTitle sec.title = true ∧
      ∀ line ∈ sec.lines, isTitle line = false) (hnr : maxSidbits < s.nr) :
    (secs.flatMap fun sec => sec.title :: sec.lines).foldl SidtabRead.line s =
      { s with
        nr := s.nr + secs.length
        sidtab := s.sidtab.map fun sidtab => (secs.flatMap (·.lines)).foldl SidTab.readLine sidtab } := by
  induction secs generalizing s with
  | nil => simp
  | cons first secs ih =>
    obtain ⟨⟨htitle, hlines⟩, hrest⟩ := List.forall_mem_cons.mp hsecs
    have hstep : (first.title :: first.lines).foldl SidtabRead.line s =
        { s with
          nr := s.nr + 1
          sidtab := s.sidtab.map fun sidtab => first.lines.foldl SidTab.readLine sidtab } := by
      rw [List.foldl_cons, line_rejected htitle hnr, foldl_value hlines]
    rw [List.flatMap_cons, List.foldl_append, hstep, ih hrest (by dsimp only; omega)]
    simp only [Option.map_map, Function.comp_def, List.flatMap_cons, List.foldl_append, List.length_cons,
      SidtabRead.mk.injEq, and_true]
    omega

/-- The admitted sections, with the last one apart, and those that are too many. -/
private theorem exists_admitted (hne : secs ≠ []) : ∃ first last rejected, secs = first ++ [last] ++ rejected ∧
    secs.take (maxSidbits + 1) = first ++ [last] ∧ secs.drop (maxSidbits + 1) = rejected ∧
      first.length ≤ maxSidbits ∧ (rejected ≠ [] → first.length = maxSidbits) := by
  have htake : secs.take (maxSidbits + 1) ≠ [] := by simpa
  have hlast := List.dropLast_concat_getLast htake
  refine ⟨_, _, _, ?_, hlast.symm, rfl, ?_, fun hrest => ?_⟩
  · rw [hlast, List.take_append_drop]
  · rw [List.length_dropLast, List.length_take]
    omega
  · have hlen := List.length_pos_of_ne_nil hrest
    rw [List.length_drop] at hlen
    rw [List.length_dropLast, List.length_take]
    omega

/-- A file with as many services as are admitted, and one more that has a caid. -/
private def fullFile : List (List Char) :=
  List.replicate (maxSidbits + 1) "[a]".toList ++ ["[b]".toList, "caid=0500".toList]

end Sections

end NCam.Conf
