import NCam.Conf.CacheexEntry

/-! The cacheex check of control words and the hit values: `mk_t_cacheex_cwcheck_valuetab` and
`mk_t_cacheex_hitvaluetab` write what their parsers have read. -/
namespace NCam.Conf

open NCam.Util NCam.Cacheex.Filter NCam.Cacheex.FeatureTrigger

structure CwchecktabData where
  caid : BitVec 32
  cmask : BitVec 32
  prid : BitVec 32
  srvid : BitVec 32
  mode : BitVec 8
  counter : BitVec 32
  deriving DecidableEq

/-- The mode and the counter behind the first colon, read as 16-bit numbers. -/
def readCounters (ptr4 : Option (List Char)) : BitVec 8 × BitVec 32 :=
  let tokens := ptr4.elim [] (strtok ':')
  let mode : BitVec 16 := tokens[0]?.elim (-1) fun ptr5 => .ofInt 16 (atoi ptr5)
  let counter : BitVec 16 := tokens[1]?.elim (-1) fun ptr5 => .ofInt 16 (atoi ptr5)
  (mode.setWidth 8, counter.signExtend 32)

/-- One entry of a setting, `caid[&mask][@provid][$servid]:mode:counter`. -/
def parseCwcheck (ptr : List Char) : CwchecktabData :=
  let (ptr, ptr4) := cutAt ':' (trim ptr)
  let (ptr, ptr3) := cutAt '$' (trim ptr)
  let (ptr, ptr2) := cutAt '@' (trim ptr)
  let (ptr, ptr1) := cutAt '&' ptr
  ⟨a2i ptr 2, ptr1.elim (-1) (a2i · (-2)), ptr2.elim (-1) (a2i · 6), ptr3.elim (-1) (a2i · 4),
    (readCounters ptr4).1, (readCounters ptr4).2⟩

/-- Without a positive caid only the first entry is kept. -/
def keepCwcheck (d : CwchecktabData) (i : ℕ) : Option CwchecktabData :=
  if (i = 0 ∧ d.caid.toInt ≤ 0) ∨ 0 < d.caid.toInt then some d else none

def chkCacheexCwcheckValuetab (lbrlt : List Char) : List CwchecktabData :=
  (strtok ',' lbrlt).zipIdx.filterMap fun p => keepCwcheck (parseCwcheck p.1) p.2

/-- The texts of the `snprintf` calls for one entry; the counter is unsigned, but printed as a signed number. -/
def printCwcheck (d : CwchecktabData) : List (List Char) :=
  (if 0 ≤ d.caid.toInt then
    [if d.caid = 0 then printfDec d.caid.toInt else printCaidText d.caid] else []) ++
    (printFields d.cmask d.prid d.srvid ++
      ((if 0 ≤ d.mode.toInt then [':' :: printfDec d.mode.toInt] else []) ++
        if 0 < d.counter then [':' :: printfDec d.counter.toInt] else []))

/-- The text that `mk_t_cacheex_cwcheck_valuetab` leaves in its buffer, unless it writes behind it. -/
def mkTCacheexCwcheckValuetab (tab : List CwchecktabData) : Option (List Char) :=
  if tab.isEmpty = true then some []
  else printTerminated (2 + tab.length * (4 + 1 + 4 + 1 + 6 + 1 + 4 + 1 + 5 + 1 + 5 + 1))
    (printTab printCwcheck tab)

def printHitvalue (d : CecspvaluetabData) : List (List Char) :=
  if 0 < d.caid.toInt then printCaidText d.caid :: printFields d.cmask d.prid d.srvid else []

/-- The text that `mk_t_cacheex_hitvaluetab` leaves in its buffer, unless it writes behind it. -/
def mkTCacheexHitvaluetab (tab : Cecspvaluetab) : Option (List Char) :=
  if tab.isEmpty = true then some []
  else printTerminated (2 + tab.length * (4 + 1 + 4 + 1 + 6 + 1 + 4 + 1)) (printTab printHitvalue tab)

/-- A check that comes back: its numbers can be printed, and it has a mode and a counter other than zero, or
neither. -/
def CwcheckKept (d : CwchecktabData) : Prop :=
  d.caid.toNat < 0x10000 ∧ FieldsKept d.cmask d.prid d.srvid ∧
    ((0 ≤ d.mode.toInt ∧ d.counter ≠ 0) ∨ (d.mode = -1 ∧ d.counter = -1))

/-- The characters of one check. -/
def cwcheckWidth (d : CwchecktabData) : ℕ :=
  (if 0 ≤ d.caid.toInt then if d.caid = 0 then 1 else caidWidth d.caid else 0) +
    fieldsWidth d.cmask d.prid d.srvid + (if 0 ≤ d.mode.toInt then 1 + intWidth d.mode.toInt else 0) +
      if d.counter ≠ 0 then 1 + intWidth d.counter.toInt else 0

/-- A hit value that comes back. -/
def HitKept (d : CecspvaluetabData) : Prop :=
  d.caid.toNat < 0x10000 ∧ FieldsKept d.cmask d.prid d.srvid

/-- The characters of one hit value. -/
def hitWidth (d : CecspvaluetabData) : ℕ := caidWidth d.caid + fieldsWidth d.cmask d.prid d.srvid

section Cwcheck

variable {d : CwchecktabData} {v cmask prid srvid : BitVec 32} {n : ℕ} {value : List Char}
  {tab : List CwchecktabData}

/-- The number that is printed in front and its digits. -/
def cwcheckCaid (d : CwchecktabData) : BitVec 32 := if 0 ≤ d.caid.toInt then d.caid else 0

def cwcheckCaidWidth (d : CwchecktabData) : ℕ :=
  if 0 ≤ d.caid.toInt then if d.caid = 0 then 1 else caidWidth d.caid else 0

def countersText (d : CwchecktabData) : List Char :=
  (if 0 ≤ d.mode.toInt then ':' :: printfDec d.mode.toInt else []) ++
    if d.counter ≠ 0 then ':' :: printfDec d.counter.toInt else []

def cwcheckText (d : CwchecktabData) : List Char :=
  frontText (cwcheckCaidWidth d) (cwcheckCaid d) d.cmask d.prid d.srvid ++ countersText d

private theorem zero_lt_counter : 0 < d.counter ↔ d.counter ≠ 0 := by
  rw [BitVec.lt_def]
  constructor
  · rintro hpos heq
    rw [heq] at hpos
    exact absurd hpos (Nat.lt_irrefl 0)
  · intro hne
    exact Nat.pos_of_ne_zero fun hzero => hne (BitVec.eq_of_toNat_eq hzero)

theorem flatten_printCwcheck : (printCwcheck d).flatten = cwcheckText d := by
  unfold printCwcheck printFields cwcheckText frontText countersText cwcheckCaidWidth cwcheckCaid
  simp only [List.flatten_append, flatten_printField, List.append_assoc, zero_lt_counter]
  congr 1
  · split_ifs with hpos hzero
    · rw [hzero]
      rfl
    · rw [List.flatten_singleton, printCaidText_eq]
    · rfl
  · congr 3
    congr 1
    · split_ifs
      · exact List.flatten_singleton
      · rfl
    · split_ifs
      · exact List.flatten_singleton
      · rfl

private theorem cwcheckCaid_lt : (cwcheckCaid d).toNat < 16 ^ cwcheckCaidWidth d ∧ cwcheckCaidWidth d ≤ 8 := by
  unfold cwcheckCaid cwcheckCaidWidth
  split_ifs with hpos hzero
  · rw [hzero]
    decide
  · exact ⟨toNat_lt_caidWidth, caidWidth_le⟩
  · decide

theorem length_cwcheckText : (cwcheckText d).length = cwcheckWidth d := by
  have hcounters : (countersText d).length = (if 0 ≤ d.mode.toInt then 1 + intWidth d.mode.toInt else 0) +
      if d.counter ≠ 0 then 1 + intWidth d.counter.toInt else 0 := by
    unfold countersText
    rw [List.length_append]
    congr 1
    · split_ifs
      · rw [List.length_cons, length_printfDec, Nat.add_comm]
      · rfl
    · split_ifs
      · rw [List.length_cons, length_printfDec, Nat.add_comm]
      · rfl
  unfold cwcheckText cwcheckWidth
  rw [List.length_append, length_frontText, hcounters]
  unfold cwcheckCaidWidth
  omega

/-- The check from the cut text. -/
private theorem parseCwcheck_eq {ptr : List Char} {ptr4 : Option (List Char)} (hn : n ≤ 8) (hv : v.toNat < 16 ^ n)
    (h4 : cutAt ':' (trim ptr) = (frontText n v cmask prid srvid, ptr4)) :
    parseCwcheck ptr =
      ⟨.ofNat 32 (v.toNat % 16 ^ 4), if 0 ≤ cmask.toInt then .ofNat 32 (cmask.toNat % 16 ^ 4) else -1,
        if 0 ≤ prid.toInt then prid else -1, if 0 ≤ srvid.toInt then srvid else -1,
        (readCounters ptr4).1, (readCounters ptr4).2⟩ := by
  have hprid := @read_field prid 6 6 (by omega) (by omega)
  have hsrvid := @read_field srvid 4 4 (by omega) (by omega)
  unfold parseCwcheck
  rw [h4]
  dsimp only
  rw [cutAt_srvid]
  dsimp only
  rw [cutAt_prid]
  dsimp only
  rw [cutAt_cmask]
  dsimp only
  rw [read_caidText hn hv, read_cmask]
  change (⟨_, _, (if 0 ≤ prid.toInt then some (printfHex 6 prid) else none).elim (-1) (a2i · (6 : ℕ)),
    (if 0 ≤ srvid.toInt then some (printfHex 4 srvid) else none).elim (-1) (a2i · (4 : ℕ)), _, _⟩ :
      CwchecktabData) = _
  rw [hprid, hsrvid]

/-- The counters of a printed check. -/
private theorem cutAt_cwcheckText : cutAt ':' (trim (cwcheckText d)) =
    (frontText (cwcheckCaidWidth d) (cwcheckCaid d) d.cmask d.prid d.srvid,
      if 0 ≤ d.mode.toInt then
        some (printfDec d.mode.toInt ++ if d.counter ≠ 0 then ':' :: printfDec d.counter.toInt else [])
      else if d.counter ≠ 0 then some (printfDec d.counter.toInt) else none) := by
  have hcolon : ':' ∉ frontText (cwcheckCaidWidth d) (cwcheckCaid d) d.cmask d.prid d.srvid :=
    notMem_frontText rfl (by decide) (by decide) (by decide)
  have hout : ∀ c, gethexval c = none → c ≠ '&' → c ≠ '@' → c ≠ '$' → c ≠ ':' → c ≠ '-' →
      c.isDigit = false → c ∉ cwcheckText d := by
    intro c hc h1 h2 h3 h4 h5 h6
    have hmode : c ∉ printfDec d.mode.toInt := notMem_printfDec h6 h5
    have hcounter : c ∉ printfDec d.counter.toInt := notMem_printfDec h6 h5
    unfold cwcheckText countersText
    rw [List.mem_append, not_or]
    refine ⟨notMem_frontText hc h1 h2 h3, ?_⟩
    split_ifs <;> simp [hmode, hcounter, h4]
  have htrim : trim (cwcheckText d) = cwcheckText d :=
    trim_of_noBlank (isBlank_of_notMem
      (hout _ rfl (by decide) (by decide) (by decide) (by decide) (by decide) rfl)
      (hout _ rfl (by decide) (by decide) (by decide) (by decide) (by decide) rfl)
      (hout _ rfl (by decide) (by decide) (by decide) (by decide) (by decide) rfl)
      (hout _ rfl (by decide) (by decide) (by decide) (by decide) (by decide) rfl))
  rw [htrim]
  unfold cwcheckText countersText
  split_ifs with hmode hcounter hcounter
  · rw [List.cons_append, cutAt_append hcolon]
  · rw [List.append_nil, List.append_nil, cutAt_append hcolon]
  · rw [List.nil_append, cutAt_append hcolon]
  · rw [List.append_nil, List.append_nil, cutAt_of_notMem hcolon]

private theorem counters_iff (hcounter : -2 ^ 15 ≤ d.counter.toInt ∧ d.counter.toInt < 2 ^ 15) :
    readCounters (if 0 ≤ d.mode.toInt then
        some (printfDec d.mode.toInt ++ if d.counter ≠ 0 then ':' :: printfDec d.counter.toInt else [])
      else if d.counter ≠ 0 then some (printfDec d.counter.toInt) else none) = (d.mode, d.counter) ↔
      (0 ≤ d.mode.toInt ∧ d.counter ≠ 0) ∨ (d.mode = -1 ∧ d.counter = -1) := by
  have hmode : (BitVec.ofInt 16 d.mode.toInt).setWidth 8 = d.mode := by
    have hlt := d.mode.toInt_lt
    have hle := d.mode.le_toInt
    have hmin : min 8 16 = 8 := rfl
    rw [← BitVec.signExtend_eq_setWidth_of_le _ (by omega)]
    apply BitVec.eq_of_toInt_eq
    rw [BitVec.toInt_signExtend, BitVec.toInt_ofInt, hmin, Int.bmod_eq_of_le (m := 2 ^ 16) (by omega) (by omega),
      Int.bmod_eq_of_le (by omega) (by omega)]
  have hback : (BitVec.ofInt 16 d.counter.toInt).signExtend 32 = d.counter := by
    apply BitVec.eq_of_toInt_eq
    rw [BitVec.toInt_signExtend_of_le (by omega), BitVec.toInt_ofInt, Int.bmod_eq_of_le (by omega) (by omega)]
  have htok : ∀ z, strtok ':' (printfDec z) = [printfDec z] :=
    fun z => strtok_token printfDec_ne_nil (notMem_printfDec rfl (by decide))
  have hminus : (-1 : BitVec 16).signExtend 32 = (-1 : BitVec 32) := by decide
  unfold readCounters
  by_cases hpos : 0 ≤ d.mode.toInt
  · rw [if_pos hpos]
    by_cases hzero : d.counter = 0
    · rw [if_neg (not_not.mpr hzero), List.append_nil, Option.elim_some, htok]
      change ((BitVec.ofInt 16 (atoi (printfDec d.mode.toInt))).setWidth 8, (-1 : BitVec 16).signExtend 32) = _ ↔ _
      rw [atoi_printfDec, hmode, Prod.mk.injEq, hminus, hzero]
      constructor
      · rintro ⟨-, heq⟩
        exact absurd heq (by decide)
      · rintro (⟨-, hne⟩ | ⟨-, heq⟩)
        · exact absurd rfl hne
        · exact absurd heq (by decide)
    · have htwo : strtok ':' (printfDec d.mode.toInt ++ ':' :: printfDec d.counter.toInt) =
          [printfDec d.mode.toInt, printfDec d.counter.toInt] := by
        rw [strtok_append printfDec_ne_nil (notMem_printfDec rfl (by decide)), htok]
      rw [if_pos hzero, Option.elim_some, htwo]
      change ((BitVec.ofInt 16 (atoi (printfDec d.mode.toInt))).setWidth 8,
        (BitVec.ofInt 16 (atoi (printfDec d.counter.toInt))).signExtend 32) = _ ↔ _
      rw [atoi_printfDec, atoi_printfDec, hmode, hback]
      exact ⟨fun _ => Or.inl ⟨hpos, hzero⟩, fun _ => rfl⟩
  · rw [if_neg hpos]
    by_cases hzero : d.counter = 0
    · rw [if_neg (not_not.mpr hzero)]
      change (((-1 : BitVec 16).setWidth 8, (-1 : BitVec 16).signExtend 32) : BitVec 8 × BitVec 32) = _ ↔ _
      rw [Prod.mk.injEq, hminus, hzero]
      constructor
      · rintro ⟨-, heq⟩
        exact absurd heq (by decide)
      · rintro (⟨-, hne⟩ | ⟨-, heq⟩)
        · exact absurd rfl hne
        · exact absurd heq (by decide)
    · rw [if_pos hzero, Option.elim_some, htok]
      change ((BitVec.ofInt 16 (atoi (printfDec d.counter.toInt))).setWidth 8,
        (-1 : BitVec 16).signExtend 32) = _ ↔ _
      rw [atoi_printfDec, Prod.mk.injEq, hminus]
      constructor
      · rintro ⟨hm, hc⟩
        right
        rw [← hc] at hm
        exact ⟨hm.symm, hc.symm⟩
      · rintro (⟨hnonneg, -⟩ | ⟨hm, hc⟩)
        · exact absurd hnonneg hpos
        · rw [hm, hc]
          exact ⟨by decide, rfl⟩

/-- Exactly these checks come back. -/
theorem parseCwcheck_cwcheckText (hcounter : -2 ^ 15 ≤ d.counter.toInt ∧ d.counter.toInt < 2 ^ 15) :
    parseCwcheck (cwcheckText d) = d ↔ CwcheckKept d := by
  obtain ⟨hlt, hle⟩ := @cwcheckCaid_lt d
  have hcaid : BitVec.ofNat 32 ((cwcheckCaid d).toNat % 16 ^ 4) = d.caid ↔ d.caid.toNat < 0x10000 := shown_iff
  have hfields : ∀ a b c e : BitVec 32, ∀ p : BitVec 8 × BitVec 32, (⟨a, b, c, e, p.1, p.2⟩ : CwchecktabData) = d ↔
      a = d.caid ∧ b = d.cmask ∧ c = d.prid ∧ e = d.srvid ∧ p = (d.mode, d.counter) := by
    intro a b c e p
    cases d
    rw [CwchecktabData.mk.injEq, Prod.ext_iff]
  unfold CwcheckKept FieldsKept
  rw [parseCwcheck_eq hle hlt cutAt_cwcheckText, hfields, hcaid, cmask_iff, field_iff, field_iff,
    counters_iff hcounter]
  constructor
  · rintro ⟨hcaid, hmask, hprid, hsrvid, hcounters⟩
    exact ⟨hcaid, ⟨hmask, hprid, hsrvid⟩, hcounters⟩
  · rintro ⟨hcaid, ⟨hmask, hprid, hsrvid⟩, hcounters⟩
    exact ⟨hcaid, hmask, hprid, hsrvid, hcounters⟩

theorem isToken_cwcheckText (hpos : 0 ≤ d.caid.toInt) : cwcheckText d ≠ [] ∧ ',' ∉ cwcheckText d := by
  have hmode : ',' ∉ printfDec d.mode.toInt := notMem_printfDec rfl (by decide)
  have hcounter : ',' ∉ printfDec d.counter.toInt := notMem_printfDec rfl (by decide)
  constructor
  · intro hnil
    have hlen := congrArg List.length (List.append_eq_nil_iff.mp hnil).1
    have hwidth := @caidWidth_pos d.caid
    rw [length_frontText, List.length_nil] at hlen
    unfold cwcheckCaidWidth at hlen
    rw [if_pos hpos] at hlen
    split_ifs at hlen <;> omega
  · unfold cwcheckText countersText
    rw [List.mem_append, not_or]
    refine ⟨notMem_frontText rfl (by decide) (by decide) (by decide), ?_⟩
    split_ifs <;> simp [hmode, hcounter]

private theorem keepCwcheck_zero : keepCwcheck d 0 = some d := if_pos (by omega)

private theorem keepCwcheck_succ {i : ℕ} :
    keepCwcheck d (i + 1) = if decide (0 < d.caid.toInt) = true then some d else none := by
  unfold keepCwcheck
  by_cases hpos : 0 < d.caid.toInt
  · rw [if_pos (Or.inr hpos), if_pos (decide_eq_true hpos)]
  · rw [if_neg (by omega), if_neg (by simp [hpos])]

private theorem parseCwcheck_read {ptr : List Char} : 0 ≤ (parseCwcheck ptr).caid.toInt ∧
    -2 ^ 15 ≤ (parseCwcheck ptr).counter.toInt ∧ (parseCwcheck ptr).counter.toInt < 2 ^ 15 := by
  have hcounter : ∀ x : BitVec 16, -2 ^ 15 ≤ (x.signExtend 32).toInt ∧ (x.signExtend 32).toInt < 2 ^ 15 := by
    intro x
    have hlt := x.toInt_lt
    have hle := x.le_toInt
    rw [BitVec.toInt_signExtend_of_le (by omega)]
    omega
  have hcount : ∀ ptr4, -2 ^ 15 ≤ (readCounters ptr4).2.toInt ∧ (readCounters ptr4).2.toInt < 2 ^ 15 := by
    intro ptr4
    unfold readCounters
    exact hcounter _
  unfold parseCwcheck
  obtain ⟨front, ptr4⟩ := cutAt ':' (trim ptr)
  dsimp only
  obtain ⟨front, ptr3⟩ := cutAt '$' (trim front)
  dsimp only
  obtain ⟨front, ptr2⟩ := cutAt '@' (trim front)
  dsimp only
  obtain ⟨front, ptr1⟩ := cutAt '&' front
  dsimp only
  exact ⟨toInt_a2i_two, hcount ptr4⟩

/-- The checks that are read have caids that are not negative and counters of 16 bits. -/
theorem chkCwcheck_read : ∀ d ∈ chkCacheexCwcheckValuetab value,
    0 ≤ d.caid.toInt ∧ -2 ^ 15 ≤ d.counter.toInt ∧ d.counter.toInt < 2 ^ 15 := by
  intro d hd
  unfold chkCacheexCwcheckValuetab at hd
  obtain ⟨p, -, hkeep⟩ := List.mem_filterMap.mp hd
  unfold keepCwcheck at hkeep
  split_ifs at hkeep
  rw [← Option.some.inj hkeep]
  exact parseCwcheck_read

theorem mkTCacheexCwcheckValuetab_eq : mkTCacheexCwcheckValuetab tab =
    if (tab.map fun d => cwcheckWidth d + 1).sum ≤ 2 + tab.length * 34 then
      some (joinTokens ',' (tab.map cwcheckText)) else none := by
  cases tab with
  | nil => rfl
  | cons d ds =>
    exact printTerminated_printTab (fun _ => flatten_printCwcheck) (fun _ _ => length_cwcheckText)
      (List.cons_ne_nil d ds)

/-- A list of checks is written inside the buffer and read back exactly if all of them come back and if they
fit into 34 bytes each and two more. -/
theorem mkT_chkCwcheck_iff :
    (∃ text, mkTCacheexCwcheckValuetab (chkCacheexCwcheckValuetab value) = some text ∧
        chkCacheexCwcheckValuetab text = chkCacheexCwcheckValuetab value) ↔
      (∀ d ∈ chkCacheexCwcheckValuetab value, CwcheckKept d) ∧
        ((chkCacheexCwcheckValuetab value).map fun d => cwcheckWidth d + 1).sum ≤
          2 + (chkCacheexCwcheckValuetab value).length * 34 := by
  have htail := @zipIdx_tail _ parseCwcheck _ keepCwcheck (fun _ => keepCwcheck_zero)
    (fun _ _ => keepCwcheck_succ) (strtok ',' value)
  have hread := @chkCwcheck_read value
  change ∀ d ∈ (chkCacheexCwcheckValuetab value).tail, _ at htail
  generalize chkCacheexCwcheckValuetab value = tab at htail hread ⊢
  have hback : chkCacheexCwcheckValuetab (joinTokens ',' (tab.map cwcheckText)) = tab ↔
      ∀ d ∈ tab, CwcheckKept d := by
    unfold chkCacheexCwcheckValuetab
    rw [zipIdx_filterMap (fun _ => keepCwcheck_zero) (fun _ _ => keepCwcheck_succ),
      reread_iff (fun d hd => isToken_cwcheckText (hread d hd).1) htail]
    exact forall₂_congr fun d hd => parseCwcheck_cwcheckText (hread d hd).2
  rw [mkTCacheexCwcheckValuetab_eq]
  exact printed_iff hback

end Cwcheck

section Hitvalue

variable {d : CecspvaluetabData} {tab : Cecspvaluetab} {value : List Char}

/-- One hit value before the decision whether it is kept. -/
private def parseHitvalue (ptr : List Char) : CecspvaluetabData :=
  let (ptr, ptr3) := cutAt '$' (trim ptr)
  let (ptr, ptr2) := cutAt '@' (trim ptr)
  let (ptr, ptr1) := cutAt '&' ptr
  ⟨a2i ptr 2, ptr1.elim (-1) (a2i · (-2)), ptr2.elim (-1) (a2i · 6), ptr3.elim (-1) (a2i · 4), 0, 0⟩

private theorem chkHitvaluetab_eq : chkCacheexHitvaluetab value =
    ((strtok ',' value).map parseHitvalue).filter fun d => decide (0 < d.caid.toInt) := by
  unfold chkCacheexHitvaluetab
  induction strtok ',' value with
  | nil => rfl
  | cons t ts ih =>
    have hone : chkHitvalue t = if 0 < (parseHitvalue t).caid.toInt then some (parseHitvalue t) else none := rfl
    rw [List.filterMap_cons, List.map_cons, List.filter_cons, hone, ih]
    by_cases hpos : 0 < (parseHitvalue t).caid.toInt
    · rw [if_pos hpos, if_pos (decide_eq_true hpos)]
    · rw [if_neg hpos, if_neg (by simp [hpos])]

/-- The hit values that are read have caids and no times. -/
theorem chkHitvaluetab_read : ∀ d ∈ chkCacheexHitvaluetab value,
    0 < d.caid.toInt ∧ d.awtime = 0 ∧ d.dwtime = 0 := by
  rw [chkHitvaluetab_eq]
  intro d hd
  obtain ⟨hmem, hpos⟩ := List.mem_filter.mp hd
  obtain ⟨ptr, -, rfl⟩ := List.mem_map.mp hmem
  exact ⟨of_decide_eq_true hpos, rfl, rfl⟩

def hitText (d : CecspvaluetabData) : List Char :=
  if 0 < d.caid.toInt then frontText (caidWidth d.caid) d.caid d.cmask d.prid d.srvid else []

theorem flatten_printHitvalue : (printHitvalue d).flatten = hitText d := by
  unfold printHitvalue hitText frontText printFields
  split_ifs
  · simp only [List.flatten_cons, List.flatten_append, flatten_printField, printCaidText_eq, List.append_assoc]
  · rfl

/-- Exactly these hit values come back. -/
theorem parseHitvalue_hitText (hpos : 0 < d.caid.toInt) (haw : d.awtime = 0) (hdw : d.dwtime = 0) :
    parseHitvalue (hitText d) = d ↔ HitKept d := by
  have hprid := @read_field d.prid 6 6 (by omega) (by omega)
  have hsrvid := @read_field d.srvid 4 4 (by omega) (by omega)
  have hparse : parseHitvalue (hitText d) =
      ⟨.ofNat 32 (d.caid.toNat % 16 ^ 4), if 0 ≤ d.cmask.toInt then .ofNat 32 (d.cmask.toNat % 16 ^ 4) else -1,
        if 0 ≤ d.prid.toInt then d.prid else -1, if 0 ≤ d.srvid.toInt then d.srvid else -1, 0, 0⟩ := by
    unfold hitText parseHitvalue
    rw [if_pos hpos, cutAt_srvid]
    dsimp only
    rw [cutAt_prid]
    dsimp only
    rw [cutAt_cmask]
    dsimp only
    rw [read_caidText caidWidth_le toNat_lt_caidWidth, read_cmask]
    change (⟨_, _, (if 0 ≤ d.prid.toInt then some (printfHex 6 d.prid) else none).elim (-1) (a2i · (6 : ℕ)),
      (if 0 ≤ d.srvid.toInt then some (printfHex 4 d.srvid) else none).elim (-1) (a2i · (4 : ℕ)), _, _⟩ :
        CecspvaluetabData) = _
    rw [hprid, hsrvid]
  have hfields : ∀ a b c e : BitVec 32, (⟨a, b, c, e, 0, 0⟩ : CecspvaluetabData) = d ↔
      a = d.caid ∧ b = d.cmask ∧ c = d.prid ∧ e = d.srvid := by
    intro a b c e
    cases d
    subst haw hdw
    rw [CecspvaluetabData.mk.injEq]
    simp
  unfold HitKept FieldsKept
  rw [hparse, hfields, cut_iff, cmask_iff, field_iff, field_iff]

theorem mkTCacheexHitvaluetab_eq (h : ∀ d ∈ tab, 0 < d.caid.toInt) : mkTCacheexHitvaluetab tab =
    if (tab.map fun d => hitWidth d + 1).sum ≤ 2 + tab.length * 22 then
      some (joinTokens ',' (tab.map hitText)) else none := by
  have hwidth : ∀ d ∈ tab, (hitText d).length = hitWidth d := by
    intro d hd
    unfold hitText
    rw [if_pos (h d hd), length_frontText]
    rfl
  cases tab with
  | nil => rfl
  | cons d ds =>
    exact printTerminated_printTab (fun _ => flatten_printHitvalue) hwidth (List.cons_ne_nil d ds)

/-- A list of hit values is written inside the buffer and read back exactly if all of them come back and if
they fit into 22 bytes each and two more. -/
theorem mkT_chkHitvaluetab_iff :
    (∃ text, mkTCacheexHitvaluetab (chkCacheexHitvaluetab value) = some text ∧
        chkCacheexHitvaluetab text = chkCacheexHitvaluetab value) ↔
      (∀ d ∈ chkCacheexHitvaluetab value, HitKept d) ∧
        ((chkCacheexHitvaluetab value).map fun d => hitWidth d + 1).sum ≤
          2 + (chkCacheexHitvaluetab value).length * 22 := by
  have hread := @chkHitvaluetab_read value
  generalize chkCacheexHitvaluetab value = tab at hread ⊢
  have htokens : AreTokens ',' (tab.map hitText) := by
    intro t ht
    obtain ⟨d, hd, rfl⟩ := List.mem_map.mp ht
    unfold hitText
    rw [if_pos (hread d hd).1]
    constructor
    · intro hnil
      have hlen := congrArg List.length hnil
      have hwidth := @caidWidth_pos d.caid
      rw [length_frontText, List.length_nil] at hlen
      omega
    · exact notMem_frontText rfl (by decide) (by decide) (by decide)
  have hback : chkCacheexHitvaluetab (joinTokens ',' (tab.map hitText)) = tab ↔ ∀ d ∈ tab, HitKept d := by
    rw [chkHitvaluetab_eq, strtok_joinTokens htokens, List.map_map,
      filter_map_iff fun d hd => decide_eq_true (hread d hd).1]
    exact forall₂_congr fun d hd => parseHitvalue_hitText (hread d hd).1 (hread d hd).2.1 (hread d hd).2.2
  rw [mkTCacheexHitvaluetab_eq fun d hd => (hread d hd).1]
  exact printed_iff hback

end Hitvalue

/-- Checks and hit values are written inside their buffers and read back as the same tables exactly under
their conditions. -/
theorem mkT_chkCwcheck_and_hitvalue (s : List Char) :
    ((∃ text, mkTCacheexCwcheckValuetab (chkCacheexCwcheckValuetab s) = some text ∧
        chkCacheexCwcheckValuetab text = chkCacheexCwcheckValuetab s) ↔
      (∀ d ∈ chkCacheexCwcheckValuetab s, CwcheckKept d) ∧
        ((chkCacheexCwcheckValuetab s).map fun d => cwcheckWidth d + 1).sum ≤
          2 + (chkCacheexCwcheckValuetab s).length * 34) ∧
    ((∃ text, mkTCacheexHitvaluetab (chkCacheexHitvaluetab s) = some text ∧
        chkCacheexHitvaluetab text = chkCacheexHitvaluetab s) ↔
      (∀ d ∈ chkCacheexHitvaluetab s, HitKept d) ∧
        ((chkCacheexHitvaluetab s).map fun d => hitWidth d + 1).sum ≤
          2 + (chkCacheexHitvaluetab s).length * 22) :=
  ⟨mkT_chkCwcheck_iff, mkT_chkHitvaluetab_iff⟩

/-- A counter of zero is not written, and an entry without one is read with the counter -1. -/
theorem zero_counter_not_written :
    ¬ ((∃ text, mkTCacheexCwcheckValuetab (chkCacheexCwcheckValuetab ['5', '0', '0', ':', '1', ':', '0']) =
        some text ∧ chkCacheexCwcheckValuetab text =
          chkCacheexCwcheckValuetab ['5', '0', '0', ':', '1', ':', '0']) ∧
      ∃ text, mkTCacheexHitvaluetab (chkCacheexHitvaluetab ['5', '0', '0', ':', '1', ':', '0']) = some text ∧
        chkCacheexHitvaluetab text = chkCacheexHitvaluetab ['5', '0', '0', ':', '1', ':', '0']) := by
  have hparse : chkCacheexCwcheckValuetab ['5', '0', '0', ':', '1', ':', '0'] =
      [⟨0x0500, -1, -1, -1, 1, 0⟩] := by decide +kernel
  have hprint : (mkTCacheexCwcheckValuetab [⟨0x0500, -1, -1, -1, 1, 0⟩]).map chkCacheexCwcheckValuetab =
      some [⟨0x0500, -1, -1, -1, 1, -1⟩] := by decide +kernel
  rw [hparse]
  rintro ⟨⟨text, htext, hsame⟩, -⟩
  rw [htext, Option.map_some, hsame] at hprint
  exact absurd hprint (by decide)

end NCam.Conf
