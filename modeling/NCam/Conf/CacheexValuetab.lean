import NCam.Conf.CacheexEntry

/-! The cacheex wait times: `mk_t_cacheex_valuetab` writes what `chk_cacheex_valuetab` has read. -/
namespace NCam.Conf

open NCam.Util NCam.Cacheex.Filter

/-- An entry that is printed without a colon before its time. -/
def OnlyDwtime (d : CecspvaluetabData) : Prop :=
  d.caid.toInt ≤ 0 ∧ d.prid = -1 ∧ d.srvid = -1 ∧ d.awtime.toInt ≤ 0

instance (d : CecspvaluetabData) : Decidable (OnlyDwtime d) := inferInstanceAs (Decidable (_ ∧ _ ∧ _ ∧ _))

/-- A caid of zero is only printed before a wait time. -/
def printValueCaid (d : CecspvaluetabData) : List (List Char) :=
  if 0 ≤ d.caid.toInt then
    if d.caid = 0 then if 0 < d.awtime.toInt then [printfDec d.caid.toInt] else []
    else [printCaidText d.caid]
  else []

def printTimes (d : CecspvaluetabData) : List (List Char) :=
  (if 0 < d.awtime.toInt then [':' :: printfDec d.awtime.toInt] else []) ++
    if 0 < d.dwtime.toInt then
      [if OnlyDwtime d then printfDec d.dwtime.toInt else ':' :: printfDec d.dwtime.toInt]
    else [[':', '0']]

/-- The texts of the `snprintf` calls for one entry. -/
def printValue (d : CecspvaluetabData) : List (List Char) :=
  printValueCaid d ++ (printFields d.cmask d.prid d.srvid ++ printTimes d)

/-- The text that `mk_t_cacheex_valuetab` leaves in its buffer, unless it writes behind it. -/
def mkTCacheexValuetab (tab : Cecspvaluetab) : Option (List Char) :=
  if tab.isEmpty = true then some []
  else printTerminated (2 + tab.length * (4 + 1 + 4 + 1 + 6 + 1 + 4 + 1 + 5 + 1 + 5 + 1))
    (printTab printValue tab)

/-- An entry that comes back: its numbers can be printed, its times are not negative but for a wait time that
is not set, and with nothing but a time to print it has no caid, not the caid 0. -/
def ValueKept (d : CecspvaluetabData) : Prop :=
  FieldsKept d.cmask d.prid d.srvid ∧ (d.awtime = -1 ∨ 0 < d.awtime.toInt) ∧
    if 0 < d.dwtime.toInt ∧ OnlyDwtime d then d.caid = -1 ∧ d.cmask = -1
    else d.caid.toNat < 0x10000 ∧ 0 ≤ d.dwtime.toInt

instance (d : CecspvaluetabData) : Decidable (ValueKept d) := inferInstanceAs (Decidable (_ ∧ _ ∧ ite _ _ _))

/-- The digits that are printed of a caid. -/
def valueCaidWidth (d : CecspvaluetabData) : ℕ :=
  if 0 ≤ d.caid.toInt then
    if d.caid = 0 then if 0 < d.awtime.toInt then 1 else 0 else caidWidth d.caid
  else 0

/-- The characters of one entry. -/
def valueWidth (d : CecspvaluetabData) : ℕ :=
  valueCaidWidth d + fieldsWidth d.cmask d.prid d.srvid +
    (if 0 < d.awtime.toInt then 1 + intWidth d.awtime.toInt else 0) +
      if 0 < d.dwtime.toInt then (if OnlyDwtime d then 0 else 1) + intWidth d.dwtime.toInt else 2

section Entry

variable {d : CecspvaluetabData} {v cmask prid srvid : BitVec 32} {n : ℕ} {t : List Char} {x : BitVec 16}

/-- The number that is printed in front. -/
def shownCaid (d : CecspvaluetabData) : BitVec 32 := if 0 ≤ d.caid.toInt then d.caid else 0

def timesText (d : CecspvaluetabData) : List Char := (printTimes d).flatten

def valueText (d : CecspvaluetabData) : List Char :=
  frontText (valueCaidWidth d) (shownCaid d) d.cmask d.prid d.srvid ++ timesText d

theorem flatten_printValue : (printValue d).flatten = valueText d := by
  have hcaid : (printValueCaid d).flatten = hexText (valueCaidWidth d) (shownCaid d) := by
    unfold printValueCaid valueCaidWidth shownCaid
    split_ifs with hpos hzero haw
    · rw [hzero]
      rfl
    · rfl
    · rw [List.flatten_singleton, printCaidText_eq]
    · rfl
  unfold printValue printFields valueText frontText timesText
  simp only [List.flatten_append, hcaid, flatten_printField, List.append_assoc]

private theorem shownCaid_lt : (shownCaid d).toNat < 16 ^ valueCaidWidth d ∧ valueCaidWidth d ≤ 8 := by
  unfold shownCaid valueCaidWidth
  split_ifs with hpos hzero haw
  · rw [hzero]
    decide
  · rw [hzero]
    decide
  · exact ⟨toNat_lt_caidWidth, caidWidth_le⟩
  · decide

theorem length_valueText : (valueText d).length = valueWidth d := by
  have htimes : (timesText d).length = (if 0 < d.awtime.toInt then 1 + intWidth d.awtime.toInt else 0) +
      if 0 < d.dwtime.toInt then (if OnlyDwtime d then 0 else 1) + intWidth d.dwtime.toInt else 2 := by
    unfold timesText printTimes
    rw [List.flatten_append, List.length_append]
    congr 1
    · split_ifs
      · rw [List.flatten_singleton, List.length_cons, length_printfDec, Nat.add_comm]
      · rfl
    · split_ifs
      · rw [List.flatten_singleton, length_printfDec, Nat.zero_add]
      · rw [List.flatten_singleton, List.length_cons, length_printfDec, Nat.add_comm]
      · rfl
  unfold valueText valueWidth
  rw [List.length_append, length_frontText, htimes]
  omega

/-- The times behind the first colon. -/
private def readTimes (ptr4 : Option (List Char)) : BitVec 16 × BitVec 16 :=
  match ptr4.map (strtok ':') with
  | none => (-1, -1)
  | some [] => (-1, -1)
  | some [dwtime] => (-1, .ofInt 16 (atoi dwtime))
  | some (awtime :: dwtime :: _) => (.ofInt 16 (atoi awtime), .ofInt 16 (atoi dwtime))

private theorem readTimes_one : readTimes (some (printfDec x.toInt)) = (-1, x) := by
  unfold readTimes
  rw [Option.map_some, strtok_token printfDec_ne_nil (notMem_printfDec rfl (by decide))]
  dsimp only
  rw [atoi_printfDec, BitVec.ofInt_toInt]

private theorem readTimes_two {y : BitVec 16} :
    readTimes (some (printfDec x.toInt ++ ':' :: printfDec y.toInt)) = (x, y) := by
  unfold readTimes
  rw [Option.map_some, strtok_append printfDec_ne_nil (notMem_printfDec rfl (by decide)),
    strtok_token printfDec_ne_nil (notMem_printfDec rfl (by decide))]
  dsimp only
  rw [atoi_printfDec, atoi_printfDec, BitVec.ofInt_toInt, BitVec.ofInt_toInt]

/-- The entry from the cut text. -/
private theorem parseEntry_eq {ptr front p3 p2 p1 : List Char} {ptr4 ptr3 ptr2 ptr1 : Option (List Char)}
    (h4 : cutAt ':' (trim ptr) = (front, ptr4)) (h3 : cutAt '$' (trim front) = (p3, ptr3))
    (h2 : cutAt '@' (trim p3) = (p2, ptr2)) (h1 : cutAt '&' p2 = (p1, ptr1)) :
    parseEntry ptr =
      ⟨if ptr1.isNone && ptr2.isNone && ptr3.isNone && ptr4.isNone then -1 else a2i p1 2,
        ptr1.elim (-1) (a2i · (-2)), ptr2.elim (-1) (a2i · 6), ptr3.elim (-1) (a2i · 4), (readTimes ptr4).1,
        if ptr1.isNone && ptr2.isNone && ptr3.isNone && ptr4.isNone then .ofInt 16 (atoi p1)
          else (readTimes ptr4).2⟩ := by
  unfold parseEntry
  rw [h4]
  dsimp only
  rw [h3]
  dsimp only
  rw [h2]
  dsimp only
  rw [h1]
  rfl

private theorem noBlank_frontText : ∀ c ∈ frontText n v cmask prid srvid, isBlank c = false :=
  isBlank_of_notMem (notMem_frontText rfl (by decide) (by decide) (by decide))
    (notMem_frontText rfl (by decide) (by decide) (by decide))
    (notMem_frontText rfl (by decide) (by decide) (by decide))
    (notMem_frontText rfl (by decide) (by decide) (by decide))

/-- Reading fields with a time behind them. -/
private theorem parseEntry_colon (hn : n ≤ 8) (hv : v.toNat < 16 ^ n) (ht : ∀ c ∈ t, isBlank c = false) :
    parseEntry (frontText n v cmask prid srvid ++ ':' :: t) =
      ⟨.ofNat 32 (v.toNat % 16 ^ 4), if 0 ≤ cmask.toInt then .ofNat 32 (cmask.toNat % 16 ^ 4) else -1,
        if 0 ≤ prid.toInt then prid else -1, if 0 ≤ srvid.toInt then srvid else -1,
        (readTimes (some t)).1, (readTimes (some t)).2⟩ := by
  have hcolon : ':' ∉ frontText n v cmask prid srvid := notMem_frontText rfl (by decide) (by decide) (by decide)
  have htrim : trim (frontText n v cmask prid srvid ++ ':' :: t) =
      frontText n v cmask prid srvid ++ ':' :: t := by
    apply trim_of_noBlank
    intro c hc
    rcases List.mem_append.mp hc with hc | hc
    · exact noBlank_frontText c hc
    · rcases List.mem_cons.mp hc with rfl | hc
      · rfl
      · exact ht c hc
  have hcut : cutAt ':' (trim (frontText n v cmask prid srvid ++ ':' :: t)) =
      (frontText n v cmask prid srvid, some t) := by rw [htrim, cutAt_append hcolon]
  have hprid := @read_field prid 6 6 (by omega) (by omega)
  have hsrvid := @read_field srvid 4 4 (by omega) (by omega)
  rw [parseEntry_eq hcut cutAt_srvid cutAt_prid cutAt_cmask, Option.isNone_some, Bool.and_false,
    if_neg Bool.false_ne_true, if_neg Bool.false_ne_true, read_caidText hn hv, read_cmask]
  change (⟨_, _, (if 0 ≤ prid.toInt then some (printfHex 6 prid) else none).elim (-1) (a2i · (6 : ℕ)),
    (if 0 ≤ srvid.toInt then some (printfHex 4 srvid) else none).elim (-1) (a2i · (4 : ℕ)), _, _⟩ :
      CecspvaluetabData) = _
  rw [hprid, hsrvid]

private theorem readTimes_shown {y : BitVec 16} :
    readTimes (some (if 0 < x.toInt then printfDec x.toInt ++ ':' :: printfDec y.toInt else printfDec y.toInt)) =
      (if 0 < x.toInt then x else -1, y) := by
  split_ifs
  · exact readTimes_two
  · exact readTimes_one

private theorem timesText_colon (h : ¬ (0 < d.dwtime.toInt ∧ OnlyDwtime d)) : timesText d =
    ':' :: if 0 < d.awtime.toInt then
      printfDec d.awtime.toInt ++ ':' :: printfDec (if 0 < d.dwtime.toInt then d.dwtime else 0).toInt
    else printfDec (if 0 < d.dwtime.toInt then d.dwtime else 0).toInt := by
  have hzero : printfDec (0 : BitVec 16).toInt = ['0'] := rfl
  unfold timesText printTimes
  by_cases hdw : 0 < d.dwtime.toInt
  · rw [if_pos hdw, if_pos hdw, if_neg fun honly => h ⟨hdw, honly⟩]
    split_ifs <;> simp
  · rw [if_neg hdw, if_neg hdw, hzero]
    split_ifs <;> simp

private theorem shownCaid_iff :
    BitVec.ofNat 32 ((shownCaid d).toNat % 16 ^ 4) = d.caid ↔ d.caid.toNat < 0x10000 :=
  shown_iff

/-- An entry with a colon in its text. -/
private theorem parseEntry_value_iff (h : ¬ (0 < d.dwtime.toInt ∧ OnlyDwtime d)) :
    parseEntry (valueText d) = d ↔ ValueKept d := by
  obtain ⟨hlt, hle⟩ := @shownCaid_lt d
  have hblank : ∀ y : BitVec 16, ∀ c ∈ (if 0 < d.awtime.toInt then
      printfDec d.awtime.toInt ++ ':' :: printfDec y.toInt else printfDec y.toInt), isBlank c = false := by
    intro y
    split_ifs
    · intro c hc
      rcases List.mem_append.mp hc with hc | hc
      · exact isBlank_printfDec c hc
      · rcases List.mem_cons.mp hc with rfl | hc
        · rfl
        · exact isBlank_printfDec c hc
    · exact isBlank_printfDec
  have hdw : (if 0 < d.dwtime.toInt then d.dwtime else 0) = d.dwtime ↔ 0 ≤ d.dwtime.toInt := by
    constructor
    · intro heq
      split_ifs at heq with hpos
      · omega
      · rw [← heq]
        decide
    · intro hnonneg
      split_ifs with hpos
      · rfl
      · apply BitVec.eq_of_toInt_eq
        change (0 : ℤ) = _
        omega
  have haw : (if 0 < d.awtime.toInt then d.awtime else -1) = d.awtime ↔ d.awtime = -1 ∨ 0 < d.awtime.toInt := by
    split_ifs with hpos
    · exact ⟨fun _ => Or.inr hpos, fun _ => rfl⟩
    · constructor
      · exact fun heq => Or.inl heq.symm
      · rintro (heq | hlt)
        · exact heq.symm
        · exact absurd hlt hpos
  have hfields : ∀ a b c e : BitVec 32, ∀ f g : BitVec 16, (⟨a, b, c, e, f, g⟩ : CecspvaluetabData) = d ↔
      a = d.caid ∧ b = d.cmask ∧ c = d.prid ∧ e = d.srvid ∧ f = d.awtime ∧ g = d.dwtime := by
    intro a b c e f g
    cases d
    exact CecspvaluetabData.mk.injEq .. ▸ Iff.rfl
  unfold valueText ValueKept FieldsKept
  rw [timesText_colon h, parseEntry_colon hle hlt (hblank _), readTimes_shown, hfields, shownCaid_iff, cmask_iff,
    field_iff, field_iff, haw, hdw, if_neg h]
  constructor
  · rintro ⟨hcaid, hmask, hprid, hsrvid, hawtime, hdwtime⟩
    exact ⟨⟨hmask, hprid, hsrvid⟩, hawtime, hcaid, hdwtime⟩
  · rintro ⟨⟨hmask, hprid, hsrvid⟩, hawtime, hcaid, hdwtime⟩
    exact ⟨hcaid, hmask, hprid, hsrvid, hawtime, hdwtime⟩

/-- A text without a colon. -/
private theorem parseEntry_only_iff (h : 0 < d.dwtime.toInt ∧ OnlyDwtime d) :
    parseEntry (valueText d) = d ↔ ValueKept d := by
  obtain ⟨hdw, honly⟩ := h
  obtain ⟨hcaid, hprid, hsrvid, haw⟩ := honly
  have hwidth : valueCaidWidth d = 0 := by
    unfold valueCaidWidth
    split_ifs with hpos hzero haw'
    · omega
    · rfl
    · have hne : d.caid.toInt ≠ 0 := fun heq => hzero (BitVec.eq_of_toInt_eq heq)
      omega
    · rfl
  have htimes : timesText d = printfDec d.dwtime.toInt := by
    unfold timesText printTimes
    rw [if_neg (by omega), if_pos hdw, if_pos ⟨hcaid, hprid, hsrvid, haw⟩]
    exact List.flatten_singleton
  have htext : valueText d = fieldText '&' 4 d.cmask ++ printfDec d.dwtime.toInt := by
    have hnil : ∀ sep w, fieldText sep w (-1) = [] := fun _ _ => rfl
    unfold valueText frontText
    rw [hwidth, htimes, hprid, hsrvid, hnil, hnil, List.append_nil, List.append_nil]
    rfl
  have hout : ∀ c, gethexval c = none → c.isDigit = false → c ≠ '-' → c ≠ '&' →
      c ∉ fieldText '&' 4 d.cmask ++ printfDec d.dwtime.toInt := by
    intro c hc hdigit hminus hne
    rw [List.mem_append, not_or]
    exact ⟨notMem_fieldText (by omega) hc hne, notMem_printfDec hdigit hminus⟩
  have htrim : trim (fieldText '&' 4 d.cmask ++ printfDec d.dwtime.toInt) =
      fieldText '&' 4 d.cmask ++ printfDec d.dwtime.toInt :=
    trim_of_noBlank (isBlank_of_notMem (hout _ rfl rfl (by decide) (by decide))
      (hout _ rfl rfl (by decide) (by decide)) (hout _ rfl rfl (by decide) (by decide))
      (hout _ rfl rfl (by decide) (by decide)))
  have hcut : ∀ c, gethexval c = none → c.isDigit = false → c ≠ '-' → c ≠ '&' →
      cutAt c (trim (fieldText '&' 4 d.cmask ++ printfDec d.dwtime.toInt)) =
        (fieldText '&' 4 d.cmask ++ printfDec d.dwtime.toInt, none) := by
    intro c hc hdigit hminus hne
    rw [htrim, cutAt_of_notMem (hout c hc hdigit hminus hne)]
  have hfour := hcut ':' rfl rfl (by decide) (by decide)
  have hthree := hcut '$' rfl rfl (by decide) (by decide)
  have htwo := hcut '@' rfl rfl (by decide) (by decide)
  rw [htext]
  unfold ValueKept FieldsKept
  rw [if_pos ⟨hdw, hcaid, hprid, hsrvid, haw⟩]
  by_cases hmask : 0 ≤ d.cmask.toInt
  · have hone : cutAt '&' (fieldText '&' 4 d.cmask ++ printfDec d.dwtime.toInt) =
        ([], some (printfHex 4 d.cmask ++ printfDec d.dwtime.toInt)) := by
      unfold fieldText
      rw [if_pos hmask]
      exact cutAt_append (s := []) List.not_mem_nil
    rw [parseEntry_eq hfour hthree htwo hone]
    constructor
    · intro heq
      have hdwtime := congrArg CecspvaluetabData.dwtime heq
      change (-1 : BitVec 16) = d.dwtime at hdwtime
      rw [← hdwtime] at hdw
      exact absurd hdw (by decide)
    · rintro ⟨-, -, -, heq⟩
      rw [heq] at hmask
      exact absurd hmask (by decide)
  · have hnil : fieldText '&' 4 d.cmask = [] := if_neg hmask
    rw [hnil, List.nil_append] at hfour hthree htwo ⊢
    have hone : cutAt '&' (printfDec d.dwtime.toInt) = (printfDec d.dwtime.toInt, none) :=
      cutAt_of_notMem (notMem_printfDec rfl (by decide))
    rw [parseEntry_eq hfour hthree htwo hone, atoi_printfDec, BitVec.ofInt_toInt]
    constructor
    · intro heq
      have hcaid' := congrArg CecspvaluetabData.caid heq
      have hmask' := congrArg CecspvaluetabData.cmask heq
      have haw' := congrArg CecspvaluetabData.awtime heq
      exact ⟨⟨Or.inl hmask'.symm, Or.inl hprid, Or.inl hsrvid⟩, Or.inl haw'.symm, hcaid'.symm, hmask'.symm⟩
    · rintro ⟨-, haw' | hpos, hcaid', hmask'⟩
      · cases d
        subst hcaid' hmask' hprid hsrvid haw'
        rfl
      · omega

/-- Exactly these entries come back. -/
theorem parseEntry_valueText : parseEntry (valueText d) = d ↔ ValueKept d := by
  by_cases h : 0 < d.dwtime.toInt ∧ OnlyDwtime d
  · exact parseEntry_only_iff h
  · exact parseEntry_value_iff h

end Entry

section Table

variable {tab : Cecspvaluetab} {d : CecspvaluetabData} {value : List Char}

theorem isToken_valueText : valueText d ≠ [] ∧ ',' ∉ valueText d := by
  have htimes : timesText d ≠ [] ∧ ',' ∉ timesText d := by
    have haw : ',' ∉ printfDec d.awtime.toInt := notMem_printfDec rfl (by decide)
    have hdw : ',' ∉ printfDec d.dwtime.toInt := notMem_printfDec rfl (by decide)
    have hne : printfDec d.dwtime.toInt ≠ [] := printfDec_ne_nil
    unfold timesText printTimes
    split_ifs <;> simp [haw, hdw, hne]
  constructor
  · intro hnil
    exact htimes.1 (List.append_eq_nil_iff.mp hnil).2
  · unfold valueText
    rw [List.mem_append, not_or]
    exact ⟨notMem_frontText rfl (by decide) (by decide) (by decide), htimes.2⟩

private theorem keepEntry_zero : keepEntry d 0 = some d := if_pos (by omega)

private theorem keepEntry_succ {i : ℕ} :
    keepEntry d (i + 1) = if decide (0 < d.caid.toInt) = true then some d else none := by
  unfold keepEntry
  by_cases hpos : 0 < d.caid.toInt
  · rw [if_pos (Or.inr hpos), if_pos (decide_eq_true hpos)]
  · rw [if_neg (by omega), if_neg (by simp [hpos])]

/-- The loop over the tokens. -/
private theorem chkCacheexValuetab_loop : chkCacheexValuetab value =
    (strtok ',' value).zipIdx.filterMap fun p => keepEntry (parseEntry p.1) p.2 := rfl

theorem mkTCacheexValuetab_eq : mkTCacheexValuetab tab =
    if (tab.map fun d => valueWidth d + 1).sum ≤ 2 + tab.length * 34 then
      some (joinTokens ',' (tab.map valueText)) else none := by
  cases tab with
  | nil => rfl
  | cons d ds =>
    exact printTerminated_printTab (fun _ => flatten_printValue) (fun _ _ => length_valueText)
      (List.cons_ne_nil d ds)

/-- Reading the printed entries. -/
theorem chkCacheexValuetab_joinTokens (h : ∀ d ∈ tab.tail, decide (0 < d.caid.toInt) = true) :
    chkCacheexValuetab (joinTokens ',' (tab.map valueText)) = tab ↔ ∀ d ∈ tab, ValueKept d := by
  rw [chkCacheexValuetab_loop, zipIdx_filterMap (fun _ => keepEntry_zero) (fun _ _ => keepEntry_succ),
    reread_iff (fun _ _ => isToken_valueText) h]
  exact forall₂_congr fun d _ => parseEntry_valueText

/-- A setting is written inside the buffer and read back as the same table exactly if all its entries come
back and if they fit into 34 bytes each and two more. -/
theorem mkTCacheexValuetab_chkCacheexValuetab (s : List Char) :
    (∃ text, mkTCacheexValuetab (chkCacheexValuetab s) = some text ∧
        chkCacheexValuetab text = chkCacheexValuetab s) ↔
      (∀ d ∈ chkCacheexValuetab s, ValueKept d) ∧
        ((chkCacheexValuetab s).map fun d => valueWidth d + 1).sum ≤ 2 + (chkCacheexValuetab s).length * 34 := by
  have htail := @zipIdx_tail _ parseEntry _ keepEntry (fun _ => keepEntry_zero) (fun _ _ => keepEntry_succ)
    (strtok ',' s)
  have hback := @chkCacheexValuetab_joinTokens (chkCacheexValuetab s) htail
  rw [mkTCacheexValuetab_eq]
  exact printed_iff hback

/-- A time that is not set is written as zero. -/
theorem unset_dwtime_written :
    ¬ ∃ text, mkTCacheexValuetab (chkCacheexValuetab ['0', '5', '0', '0', '@', '1']) = some text ∧
      chkCacheexValuetab text = chkCacheexValuetab ['0', '5', '0', '0', '@', '1'] := by
  have hparse : chkCacheexValuetab ['0', '5', '0', '0', '@', '1'] = [⟨0x0500, -1, 1, -1, -1, -1⟩] := by
    decide +kernel
  have hprint : (mkTCacheexValuetab [⟨0x0500, -1, 1, -1, -1, -1⟩]).map chkCacheexValuetab =
      some [⟨0x0500, -1, 1, -1, -1, 0⟩] := by decide +kernel
  rw [hparse]
  rintro ⟨text, htext, hsame⟩
  rw [htext, Option.map_some, hsame] at hprint
  exact absurd hprint (by decide)

end Table

end NCam.Conf
