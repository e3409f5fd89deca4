import NCam.Conf.Sidtab
import NCam.Lib.BitSet
import NCam.Lib.Walks

/-! The services of a client: `chk_services` makes bits of their names, `chk_srvid` decides with them, and
`chk_srvid_by_caid_prov` where only caid and provider of a card are known. -/
namespace NCam.Conf

open NCam.Util NCam.Lib

/-- The machine's `(SIDTABBITS)1 << i`, which C defines for the places of the type only. -/
structure SidShift where
  bit : ℕ → BitVec 64
  bit_of_lt : ∀ i < 64, bit i = BitVec.twoPow 64 i

/-- A machine that takes the number modulo 64. -/
def SidShift.modulo : SidShift where
  bit i := BitVec.twoPow 64 (i % 64)
  bit_of_lt i hi := by rw [Nat.mod_eq_of_lt hi]

structure Sidtabs where
  ok : BitVec 64
  no : BitVec 64

def chkServices (shift : SidShift) (cfgSidtab : List SidTab) (labels : List Char) : Sidtabs :=
  (strtok ',' labels).foldl (fun newsid ptr =>
    ⟨orBits shift.bit (fun sidtab => sidtab.label = trim ptr) 0 cfgSidtab newsid.ok,
      orBits shift.bit (fun sidtab => (trim ptr).head? = some '!' ∧ sidtab.label = (trim ptr).tail) 0 cfgSidtab
        newsid.no⟩) ⟨0, 0⟩

/-- The fields of a request that services name. -/
structure SrvRequest where
  caid : BitVec 16
  prid : BitVec 32
  srvid : BitVec 16

def chkSrvidMatch (er : SrvRequest) (sidtab : SidTab) : Bool :=
  (sidtab.caid = [] || sidtab.caid.contains er.caid) &&
    (er.prid = 0 || sidtab.provid = [] || sidtab.provid.contains er.prid) &&
      (sidtab.srvid = [] || sidtab.srvid.contains er.srvid)

/-- `sidtab->num_caid | sidtab->num_provid | sidtab->num_srvid`. -/
def SidTab.hasEntries (sidtab : SidTab) : Bool := sidtab.caid ≠ [] || sidtab.provid ≠ [] || sidtab.srvid ≠ []

/-- The loop of `chk_srvid` from service `nr` on. -/
def chkSrvidLoop (shift : SidShift) (sidtabs : Sidtabs) (er : SrvRequest) : ℕ → List SidTab → Bool → Bool
  | _, [], rc => rc
  | nr, sidtab :: rest, rc =>
    if sidtab.hasEntries then
      if sidtabs.no &&& shift.bit nr ≠ 0 ∧ chkSrvidMatch er sidtab then false
      else chkSrvidLoop shift sidtabs er (nr + 1) rest
        (if sidtabs.ok &&& shift.bit nr ≠ 0 ∧ chkSrvidMatch er sidtab then true else rc)
    else chkSrvidLoop shift sidtabs er (nr + 1) rest rc

def chkSrvid (shift : SidShift) (cfgSidtab : List SidTab) (sidtabs : Sidtabs) (er : SrvRequest) : Bool :=
  if sidtabs.ok = 0 ∧ sidtabs.no = 0 then true
  else chkSrvidLoop shift sidtabs er 0 cfgSidtab (sidtabs.ok = 0)

/-- What a selection means: nothing that is deselected applies, and something selected does if there is any. -/
def Accepts {α : Type*} (services : List α) (selected deselected applies : α → Prop) : Prop :=
  (∀ s ∈ services, deselected s → ¬ applies s) ∧
    ((∃ s ∈ services, selected s) → ∃ s ∈ services, selected s ∧ applies s)

/-- The selection names the service. -/
def Names (labels : List Char) (name : List Char) : Prop := ∃ ptr ∈ strtok ',' labels, trim ptr = name

/-- The request belongs to the service. A service without entries has no requests. -/
def SidTab.Matches (er : SrvRequest) (sidtab : SidTab) : Prop :=
  (sidtab.caid ≠ [] ∨ sidtab.provid ≠ [] ∨ sidtab.srvid ≠ []) ∧
    (sidtab.caid = [] ∨ er.caid ∈ sidtab.caid) ∧
      (er.prid = 0 ∨ sidtab.provid = [] ∨ er.prid ∈ sidtab.provid) ∧
        (sidtab.srvid = [] ∨ er.srvid ∈ sidtab.srvid)

/-- The bits are those of the services, and stand for their names. -/
def ServicesKept (shift : SidShift) (cfgSidtab : List SidTab) : Prop :=
  Separate shift.bit cfgSidtab.length ∧ ∀ labels er,
    chkSrvid shift cfgSidtab (chkServices shift cfgSidtab labels) er = true ↔
      Accepts cfgSidtab (fun s => Names labels s.label) (fun s => Names labels ('!' :: s.label)) (SidTab.Matches er)

section Selection

variable {shift : SidShift} {cfgSidtab : List SidTab} {labels : List Char} {er : SrvRequest} {sidtab : SidTab}
  {sidtabs : Sidtabs} {i : ℕ}

theorem SidTab.matches_iff : (sidtab.hasEntries = true ∧ chkSrvidMatch er sidtab = true) ↔ sidtab.Matches er := by
  unfold SidTab.hasEntries chkSrvidMatch SidTab.Matches
  simp only [Bool.or_eq_true, Bool.and_eq_true, decide_eq_true_eq, List.contains_iff_mem, or_assoc, and_assoc]

/-- The two words of a selection are built independently. -/
private theorem chkServices_eq : chkServices shift cfgSidtab labels =
    ⟨(strtok ',' labels).foldl (fun ok ptr => orBits shift.bit (fun sidtab => sidtab.label = trim ptr) 0 cfgSidtab ok) 0,
      (strtok ',' labels).foldl (fun no ptr => orBits shift.bit
        (fun sidtab => (trim ptr).head? = some '!' ∧ sidtab.label = (trim ptr).tail) 0 cfgSidtab no) 0⟩ := by
  have hrun : ∀ (tokens : List (List Char)) (ok no : BitVec 64),
      tokens.foldl (fun newsid ptr => (⟨orBits shift.bit (fun sidtab => sidtab.label = trim ptr) 0 cfgSidtab
        newsid.ok, orBits shift.bit (fun sidtab => (trim ptr).head? = some '!' ∧ sidtab.label = (trim ptr).tail) 0
          cfgSidtab newsid.no⟩ : Sidtabs)) ⟨ok, no⟩ =
      ⟨tokens.foldl (fun ok ptr => orBits shift.bit (fun sidtab => sidtab.label = trim ptr) 0 cfgSidtab ok) ok,
        tokens.foldl (fun no ptr => orBits shift.bit
          (fun sidtab => (trim ptr).head? = some '!' ∧ sidtab.label = (trim ptr).tail) 0 cfgSidtab no) no⟩ := by
    intro tokens
    induction tokens with
    | nil => exact fun ok no => rfl
    | cons ptr tokens ih => exact fun ok no => ih _ _
  exact hrun _ _ _

/-- The bits are those of the names that are chosen. -/
private theorem chkServices_bit (hlen : cfgSidtab.length ≤ 64) (hi : i < 64) :
    ((chkServices shift cfgSidtab labels).ok.getLsbD i = true ↔
        ∃ s, cfgSidtab[i]? = some s ∧ Names labels s.label) ∧
      ((chkServices shift cfgSidtab labels).no.getLsbD i = true ↔
        ∃ s, cfgSidtab[i]? = some s ∧ Names labels ('!' :: s.label)) := by
  have hbit : ∀ j < cfgSidtab.length, shift.bit j = BitVec.twoPow 64 j := fun j hj => shift.bit_of_lt j (by omega)
  have hhead : ∀ (s : SidTab) ptr, ((trim ptr).head? = some '!' ∧ s.label = (trim ptr).tail) ↔
      trim ptr = '!' :: s.label := by
    intro s ptr
    cases trim ptr with
    | nil => simp
    | cons c cs => simp [eq_comm]
  have hlabel : ∀ (s : SidTab) ptr, s.label = trim ptr ↔ trim ptr = s.label := fun s ptr => eq_comm
  have hzero : (0 : BitVec 64).getLsbD i = false := BitVec.getLsbD_zero
  rw [chkServices_eq, getLsbD_foldl_orBits hbit hi, getLsbD_foldl_orBits hbit hi, hzero]
  unfold Names
  simp only [decide_eq_true_eq, hhead, hlabel, Bool.false_eq_true, false_or, and_self]

/-- No bit is set if no service is selected. -/
private theorem chkServices_ok_eq_zero (hlen : cfgSidtab.length ≤ 64) :
    (chkServices shift cfgSidtab labels).ok = 0 ↔ ¬ ∃ s ∈ cfgSidtab, Names labels s.label := by
  constructor
  · rintro hzero ⟨s, hs, hname⟩
    obtain ⟨i, hi⟩ := List.mem_iff_getElem?.mp hs
    obtain ⟨hlt, -⟩ := List.getElem?_eq_some_iff.mp hi
    have hset := (@chkServices_bit shift cfgSidtab labels i hlen (by omega)).1.mpr ⟨s, hi, hname⟩
    rw [hzero] at hset
    simp at hset
  · intro hnone
    apply BitVec.eq_of_getLsbD_eq
    intro i hi
    have hclear : ¬ (chkServices shift cfgSidtab labels).ok.getLsbD i = true := by
      rw [(chkServices_bit hlen hi).1]
      rintro ⟨s, hs, hname⟩
      exact hnone ⟨s, List.mem_of_getElem? hs, hname⟩
    simpa using hclear

private theorem chkSrvidLoop_eq {nr : ℕ} {l : List SidTab} {rc : Bool} :
    chkSrvidLoop shift sidtabs er nr l rc =
      verdict
        (fun x => x.1.hasEntries && decide (sidtabs.no &&& shift.bit x.2 ≠ 0 ∧ chkSrvidMatch er x.1))
        (fun x => x.1.hasEntries && decide (sidtabs.ok &&& shift.bit x.2 ≠ 0 ∧ chkSrvidMatch er x.1))
        (l.zipIdx nr) rc := by
  induction l generalizing nr rc with
  | nil => rfl
  | cons sidtab rest ih =>
    unfold chkSrvidLoop
    rw [List.zipIdx_cons, verdict]
    cases hentries : sidtab.hasEntries with
    | false => simpa using ih
    | true => simp only [ih, if_true, Bool.true_and, decide_eq_true_eq]

/-- The loop refuses at a deselected service and remembers a selected one. -/
theorem chkSrvidLoop_iff {nr : ℕ} {l : List SidTab} {rc : Bool} :
    chkSrvidLoop shift sidtabs er nr l rc = true ↔
      (∀ x ∈ l.zipIdx nr, sidtabs.no &&& shift.bit x.2 ≠ 0 → ¬ x.1.Matches er) ∧
        (rc = true ∨ ∃ x ∈ l.zipIdx nr, sidtabs.ok &&& shift.bit x.2 ≠ 0 ∧ x.1.Matches er) := by
  have hmatch : ∀ (bits : BitVec 64) (x : SidTab × ℕ),
      (x.1.hasEntries && decide (bits &&& shift.bit x.2 ≠ 0 ∧ chkSrvidMatch er x.1)) = true ↔
        bits &&& shift.bit x.2 ≠ 0 ∧ x.1.Matches er := by
    intro bits x
    rw [← SidTab.matches_iff, Bool.and_eq_true, decide_eq_true_eq]
    exact and_left_comm
  rw [chkSrvidLoop_eq, verdict_iff]
  simp only [hmatch, not_and]

theorem chkSrvid_eq : chkSrvid shift cfgSidtab sidtabs er =
    chkSrvidLoop shift sidtabs er 0 cfgSidtab (sidtabs.ok = 0) := by
  unfold chkSrvid
  split_ifs with hzero
  · symm
    rw [chkSrvidLoop_iff]
    obtain ⟨hok, hno⟩ := hzero
    refine ⟨fun x _ hne => absurd ?_ hne, Or.inl (decide_eq_true hok)⟩
    rw [hno]
    exact BitVec.zero_and
  · rfl

/-- As long as every service has a bit of its own, the bits stand for the names. -/
private theorem chkSrvid_iff (hlen : cfgSidtab.length ≤ 64) :
    chkSrvid shift cfgSidtab (chkServices shift cfgSidtab labels) er = true ↔
      Accepts cfgSidtab (fun s => Names labels s.label) (fun s => Names labels ('!' :: s.label)) (SidTab.Matches er) := by
  have hbits : ∀ i s, cfgSidtab[i]? = some s →
      (((chkServices shift cfgSidtab labels).ok &&& shift.bit i ≠ 0 ↔ Names labels s.label) ∧
        ((chkServices shift cfgSidtab labels).no &&& shift.bit i ≠ 0 ↔ Names labels ('!' :: s.label))) := by
    intro i s hi
    obtain ⟨hlt, -⟩ := List.getElem?_eq_some_iff.mp hi
    obtain ⟨hok, hno⟩ := @chkServices_bit shift cfgSidtab labels i hlen (by omega)
    rw [shift.bit_of_lt i (by omega), and_twoPow_ne_zero (by omega), and_twoPow_ne_zero (by omega), hok, hno, hi]
    simp
  rw [chkSrvid_eq, chkSrvidLoop_iff, decide_eq_true_eq, chkServices_ok_eq_zero hlen]
  unfold Accepts
  constructor
  · rintro ⟨hno, hok⟩
    refine ⟨fun s hs hname => ?_, fun hsome => ?_⟩
    · obtain ⟨i, hi⟩ := List.mem_iff_getElem?.mp hs
      exact hno (s, i) (List.mem_zipIdx_iff_getElem?.mpr hi) ((hbits i s hi).2.mpr hname)
    · rcases hok with hnone | ⟨x, hx, hset, hmatch⟩
      · exact absurd hsome hnone
      · have hget := List.mem_zipIdx_iff_getElem?.mp hx
        exact ⟨x.1, List.mem_of_getElem? hget, (hbits x.2 x.1 hget).1.mp hset, hmatch⟩
  · rintro ⟨hno, hok⟩
    refine ⟨fun x hx hset => ?_, ?_⟩
    · have hget := List.mem_zipIdx_iff_getElem?.mp hx
      exact hno x.1 (List.mem_of_getElem? hget) ((hbits x.2 x.1 hget).2.mp hset)
    · by_cases hsome : ∃ s ∈ cfgSidtab, Names labels s.label
      · obtain ⟨s, hs, hname, hmatch⟩ := hok hsome
        obtain ⟨i, hi⟩ := List.mem_iff_getElem?.mp hs
        exact Or.inr ⟨(s, i), List.mem_zipIdx_iff_getElem?.mpr hi, (hbits i s hi).1.mpr hname, hmatch⟩
      · exact Or.inl hsome

/-- The bits stand for the services exactly of the files with no more services than the word has bits. -/
theorem chkSrvid_initSidtab (shift : SidShift) (lines : List (List Char)) :
    ServicesKept shift (initSidtab lines) ↔ serviceLines lines ≤ 64 := by
  have hlen : (initSidtab lines).length ≤ 64 ↔ serviceLines lines ≤ 64 := by
    rw [length_initSidtab]
    unfold maxSidbits
    omega
  unfold ServicesKept
  rw [separate_iff shift.bit_of_lt, hlen]
  constructor
  · exact fun h => h.1
  · exact fun h => ⟨h, fun labels er => chkSrvid_iff (hlen.mpr h)⟩

/-- Sixty-five services "00" to "64", each one with its number as caid. -/
private def manyServices : List (List Char) :=
  (List.range 65).flatMap fun i =>
    let digits := [Char.ofNat (48 + i / 10), Char.ofNat (48 + i % 10)]
    ['[' :: (digits ++ [']']), "caid=".toList ++ digits]

/-- The service behind the last bit has the bit of the first one. -/
theorem service_aliased : ¬ ∀ lines : List (List Char), ServicesKept SidShift.modulo (initSidtab lines) := by
  intro h
  have haccept : chkSrvid .modulo (initSidtab manyServices)
      (chkServices .modulo (initSidtab manyServices) "64".toList) ⟨0, 0, 0⟩ = true := by
    decide +kernel
  have hloaded : (initSidtab manyServices).any (fun s => s.label = "64".toList) = true := by
    decide +kernel
  have hother : (initSidtab manyServices).all (fun s => s.label ≠ "64".toList || !chkSrvidMatch ⟨0, 0, 0⟩ s) = true := by
    decide +kernel
  have htokens : strtok ',' "64".toList = ["64".toList] := by decide +kernel
  rw [(h manyServices).2] at haccept
  obtain ⟨s, hs, hlabel⟩ := List.any_eq_true.mp hloaded
  have hname : Names "64".toList s.label := by
    refine ⟨"64".toList, ?_, (of_decide_eq_true hlabel).symm⟩
    rw [htokens]
    exact List.mem_singleton.mpr rfl
  obtain ⟨s', hs', ⟨ptr, hptr, hlabel'⟩, hmatch⟩ := haccept.2 ⟨s, hs, hname⟩
  rw [htokens, List.mem_singleton] at hptr
  rw [hptr] at hlabel'
  change "64".toList = s'.label at hlabel'
  have hclash := List.all_eq_true.mp hother s' hs'
  rw [← hlabel', (SidTab.matches_iff.mpr hmatch).2] at hclash
  cases hclash

end Selection

def chkSrvidMatchByCaidProv (caid : BitVec 16) (provid : BitVec 32) (sidtab : SidTab) : Bool :=
  (sidtab.caid = [] || sidtab.caid.contains caid) && (sidtab.provid = [] || sidtab.provid.contains provid)

/-- `sidtab->num_caid | sidtab->num_provid`. -/
def SidTab.hasCaidProv (sidtab : SidTab) : Bool := sidtab.caid ≠ [] || sidtab.provid ≠ []

/-- The loop of `chk_srvid_by_caid_prov` from service `nr` on. -/
def chkSrvidByCaidProvLoop (shift : SidShift) (sidtabs : Sidtabs) (caid : BitVec 16) (provid : BitVec 32) :
    ℕ → List SidTab → Bool → Bool
  | _, [], rc => rc
  | nr, sidtab :: rest, rc =>
    if sidtab.hasCaidProv then
      if sidtabs.no &&& shift.bit nr ≠ 0 ∧ sidtab.srvid = [] ∧ chkSrvidMatchByCaidProv caid provid sidtab then false
      else chkSrvidByCaidProvLoop shift sidtabs caid provid (nr + 1) rest
        (if sidtabs.ok &&& shift.bit nr ≠ 0 ∧ chkSrvidMatchByCaidProv caid provid sidtab then true else rc)
    else chkSrvidByCaidProvLoop shift sidtabs caid provid (nr + 1) rest rc

def chkSrvidByCaidProv (shift : SidShift) (cfgSidtab : List SidTab) (sidtabs : Sidtabs) (caid : BitVec 16)
    (provid : BitVec 32) : Bool :=
  if sidtabs.ok = 0 ∧ sidtabs.no = 0 then true
  else chkSrvidByCaidProvLoop shift sidtabs caid provid 0 cfgSidtab (sidtabs.ok = 0)

/-- The service is one of a card: it has caids or providers, and those of the card. -/
def SidTab.Covers (caid : BitVec 16) (provid : BitVec 32) (sidtab : SidTab) : Prop :=
  (sidtab.caid ≠ [] ∨ sidtab.provid ≠ []) ∧ (sidtab.caid = [] ∨ caid ∈ sidtab.caid) ∧
    (sidtab.provid = [] ∨ provid ∈ sidtab.provid)

/-- The service has the service id of the request, and neither caids nor providers. -/
def SidTab.OnlyBySrvid (er : SrvRequest) (sidtab : SidTab) : Prop :=
  sidtab.caid = [] ∧ sidtab.provid = [] ∧ er.srvid ∈ sidtab.srvid

/-- The service has its bit in one of the two words of a client. -/
def Chosen (shift : SidShift) (cfgSidtab : List SidTab) (bits : BitVec 64) (sidtab : SidTab) : Prop :=
  ∃ nr, cfgSidtab[nr]? = some sidtab ∧ bits &&& shift.bit nr ≠ 0

/-- A card of the request is not withheld when the request itself is accepted. -/
def FiltersAgree (shift : SidShift) (cfgSidtab : List SidTab) (sidtabs : Sidtabs) (er : SrvRequest) : Prop :=
  chkSrvid shift cfgSidtab sidtabs er = true →
    chkSrvidByCaidProv shift cfgSidtab sidtabs er.caid er.prid = true

section Filters

variable {shift : SidShift} {cfgSidtab : List SidTab} {sidtabs : Sidtabs} {er : SrvRequest} {sidtab : SidTab}
  {caid : BitVec 16} {provid : BitVec 32} {bits : BitVec 64}

private theorem covers_iff : (sidtab.hasCaidProv = true ∧ chkSrvidMatchByCaidProv caid provid sidtab = true) ↔
    sidtab.Covers caid provid := by
  unfold SidTab.hasCaidProv chkSrvidMatchByCaidProv SidTab.Covers
  simp only [Bool.or_eq_true, Bool.and_eq_true, decide_eq_true_eq, List.contains_iff_mem]

private theorem chkSrvidByCaidProvLoop_eq {nr : ℕ} {l : List SidTab} {rc : Bool} :
    chkSrvidByCaidProvLoop shift sidtabs caid provid nr l rc =
      verdict
        (fun x => x.1.hasCaidProv && decide (sidtabs.no &&& shift.bit x.2 ≠ 0 ∧ x.1.srvid = [] ∧
          chkSrvidMatchByCaidProv caid provid x.1))
        (fun x => x.1.hasCaidProv && decide (sidtabs.ok &&& shift.bit x.2 ≠ 0 ∧
          chkSrvidMatchByCaidProv caid provid x.1))
        (l.zipIdx nr) rc := by
  induction l generalizing nr rc with
  | nil => rfl
  | cons sidtab rest ih =>
    unfold chkSrvidByCaidProvLoop
    rw [List.zipIdx_cons, verdict]
    cases hentries : sidtab.hasCaidProv with
    | false => simpa using ih
    | true => simp only [ih, if_true, Bool.true_and, decide_eq_true_eq]

/-- The loop refuses at a deselected service of the card that leaves no service id out. -/
private theorem chkSrvidByCaidProvLoop_iff {nr : ℕ} {l : List SidTab} {rc : Bool} :
    chkSrvidByCaidProvLoop shift sidtabs caid provid nr l rc = true ↔
      (∀ x ∈ l.zipIdx nr, sidtabs.no &&& shift.bit x.2 ≠ 0 → ¬ (x.1.srvid = [] ∧ x.1.Covers caid provid)) ∧
        (rc = true ∨ ∃ x ∈ l.zipIdx nr, sidtabs.ok &&& shift.bit x.2 ≠ 0 ∧ x.1.Covers caid provid) := by
  have hdeny : ∀ x : SidTab × ℕ, (x.1.hasCaidProv && decide (sidtabs.no &&& shift.bit x.2 ≠ 0 ∧ x.1.srvid = [] ∧
      chkSrvidMatchByCaidProv caid provid x.1)) = true ↔
        sidtabs.no &&& shift.bit x.2 ≠ 0 ∧ x.1.srvid = [] ∧ x.1.Covers caid provid := by
    intro x
    rw [← covers_iff, Bool.and_eq_true, decide_eq_true_eq]
    tauto
  have hgrant : ∀ x : SidTab × ℕ, (x.1.hasCaidProv && decide (sidtabs.ok &&& shift.bit x.2 ≠ 0 ∧
      chkSrvidMatchByCaidProv caid provid x.1)) = true ↔
        sidtabs.ok &&& shift.bit x.2 ≠ 0 ∧ x.1.Covers caid provid := by
    intro x
    rw [← covers_iff, Bool.and_eq_true, decide_eq_true_eq]
    exact and_left_comm
  rw [chkSrvidByCaidProvLoop_eq, verdict_iff]
  simp only [hdeny, hgrant, not_and]

/-- What is chosen, in the list with its places. -/
private theorem exists_chosen {P : SidTab → Prop} :
    (∃ x ∈ cfgSidtab.zipIdx, bits &&& shift.bit x.2 ≠ 0 ∧ P x.1) ↔
      ∃ s, Chosen shift cfgSidtab bits s ∧ P s := by
  constructor
  · rintro ⟨x, hx, hset, hp⟩
    exact ⟨x.1, ⟨x.2, List.mem_zipIdx_iff_getElem?.mp hx, hset⟩, hp⟩
  · rintro ⟨s, ⟨nr, hget, hset⟩, hp⟩
    exact ⟨(s, nr), List.mem_zipIdx_iff_getElem?.mpr hget, hset, hp⟩

/-- Without a service that denies, a request is accepted if nothing is selected or something for it is. -/
private theorem chkSrvid_chosen : chkSrvid shift cfgSidtab sidtabs er = true ↔
    (¬ ∃ s, Chosen shift cfgSidtab sidtabs.no s ∧ s.Matches er) ∧
      (sidtabs.ok = 0 ∨ ∃ s, Chosen shift cfgSidtab sidtabs.ok s ∧ s.Matches er) := by
  rw [chkSrvid_eq, chkSrvidLoop_iff, decide_eq_true_eq, ← exists_chosen, ← exists_chosen]
  push Not
  rfl

private theorem chkSrvidByCaidProv_chosen : chkSrvidByCaidProv shift cfgSidtab sidtabs caid provid = true ↔
    (¬ ∃ s, Chosen shift cfgSidtab sidtabs.no s ∧ s.srvid = [] ∧ s.Covers caid provid) ∧
      (sidtabs.ok = 0 ∨ ∃ s, Chosen shift cfgSidtab sidtabs.ok s ∧ s.Covers caid provid) := by
  have hloop : chkSrvidByCaidProv shift cfgSidtab sidtabs caid provid = true ↔
      chkSrvidByCaidProvLoop shift sidtabs caid provid 0 cfgSidtab (sidtabs.ok = 0) = true := by
    unfold chkSrvidByCaidProv
    split_ifs with hzero
    · obtain ⟨hok, hno⟩ := hzero
      rw [chkSrvidByCaidProvLoop_iff]
      simp [hok, hno]
    · exact Iff.rfl
  rw [hloop, chkSrvidByCaidProvLoop_iff, decide_eq_true_eq, ← exists_chosen, ← exists_chosen]
  push Not
  rfl

private theorem SidTab.Covers.matches (h : sidtab.Covers er.caid er.prid) (hsrvid : sidtab.srvid = []) :
    sidtab.Matches er :=
  ⟨by rw [← or_assoc]; exact Or.inl h.1, h.2.1, Or.inr h.2.2, Or.inl hsrvid⟩

/-- A request that names a provider belongs to a service by its card, or by its service id only. -/
private theorem matches_cases (hprid : er.prid ≠ 0) (h : sidtab.Matches er) :
    sidtab.Covers er.caid er.prid ∨ sidtab.OnlyBySrvid er := by
  obtain ⟨hentries, hcaid, hprov, hsrvid⟩ := h
  by_cases hcard : sidtab.caid ≠ [] ∨ sidtab.provid ≠ []
  · exact Or.inl ⟨hcard, hcaid, hprov.resolve_left hprid⟩
  · push Not at hcard
    have hne : sidtab.srvid ≠ [] := by
      rcases hentries with hne | hne | hne
      · exact absurd hcard.1 hne
      · exact absurd hcard.2 hne
      · exact hne
    exact Or.inr ⟨hcard.1, hcard.2, hsrvid.resolve_left hne⟩

private theorem SidTab.OnlyBySrvid.matches (h : sidtab.OnlyBySrvid er) : sidtab.Matches er :=
  ⟨Or.inr (Or.inr (List.ne_nil_of_mem h.2.2)), Or.inl h.1, Or.inr (Or.inl h.2.1), Or.inr h.2.2⟩

/-- The filters agree exactly where a selected service of nothing but service ids does not decide alone. -/
theorem filtersAgree_iff (shift : SidShift) (cfgSidtab : List SidTab) (sidtabs : Sidtabs) (er : SrvRequest)
    (hprid : er.prid ≠ 0) : FiltersAgree shift cfgSidtab sidtabs er ↔
      ((∃ s, Chosen shift cfgSidtab sidtabs.ok s ∧ s.OnlyBySrvid er) →
        (∃ s, Chosen shift cfgSidtab sidtabs.no s ∧ s.Matches er) ∨
          ∃ s, Chosen shift cfgSidtab sidtabs.ok s ∧ s.Covers er.caid er.prid) := by
  unfold FiltersAgree
  rw [chkSrvid_chosen, chkSrvidByCaidProv_chosen]
  constructor
  · rintro hagree ⟨s, hs, honly⟩
    by_cases hno : ∃ s, Chosen shift cfgSidtab sidtabs.no s ∧ s.Matches er
    · exact Or.inl hno
    · obtain ⟨-, hok⟩ := hagree ⟨hno, Or.inr ⟨s, hs, honly.matches⟩⟩
      rcases hok with hzero | hcovers
      · obtain ⟨nr, -, hset⟩ := hs
        rw [hzero] at hset
        exact absurd BitVec.zero_and hset
      · exact Or.inr hcovers
  · rintro hcond ⟨hno, hok⟩
    refine ⟨?_, ?_⟩
    · rintro ⟨s, hs, hsrvid, hcovers⟩
      exact hno ⟨s, hs, hcovers.matches hsrvid⟩
    · rcases hok with hzero | ⟨s, hs, hmatch⟩
      · exact Or.inl hzero
      · rcases matches_cases hprid hmatch with hcovers | honly
        · exact Or.inr ⟨s, hs, hcovers⟩
        · exact Or.inr ((hcond ⟨s, hs, honly⟩).resolve_left hno)

/-- Two services, one of a service id only and one of a card. -/
private def twoServices : List SidTab := [⟨"news".toList, [], [], [0x1234]⟩, ⟨"pack".toList, [0x0500], [], []⟩]

/-- The selected pack has the card of the news. -/
theorem filtersAgree_pack : FiltersAgree .modulo twoServices ⟨3, 0⟩ ⟨0x0500, 0x020000, 0x1234⟩ :=
  (filtersAgree_iff .modulo twoServices ⟨3, 0⟩ ⟨0x0500, 0x020000, 0x1234⟩ (by decide)).mpr fun _ =>
    Or.inr ⟨⟨"pack".toList, [0x0500], [], []⟩, ⟨1, rfl, by decide⟩, by decide, by decide, by decide⟩

/-- With the news alone the request is accepted, and no card of it. -/
theorem news_withheld : ¬ ∀ (shift : SidShift) (cfgSidtab : List SidTab) (sidtabs : Sidtabs) (er : SrvRequest),
    er.prid ≠ 0 → FiltersAgree shift cfgSidtab sidtabs er := by
  intro h
  have hcard := h .modulo twoServices ⟨1, 0⟩ ⟨0x0500, 0x020000, 0x1234⟩ (by decide) (by decide)
  revert hcard
  decide

end Filters

end NCam.Conf
