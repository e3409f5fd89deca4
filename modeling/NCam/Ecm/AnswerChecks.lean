import NCam.CwCycle.Check
import NCam.Ecm.Answer
import Mathlib.Data.List.FinRange
import Mathlib.Data.Fin.VecNotation

/-! The checks which `write_ecm_answer` makes of a control word before it stores the answer of a reader:
null and half control words, and the checksum byte at the end of each quarter. -/
namespace NCam.Ecm

open NCam.CwCycle
open NCam.Ecm.Answer (Filt E2_WRONG_CHKSUM)

abbrev Cw := CwCycle.Cw

def isHalfCWEr (er : EcmRequest) : Bool :=
  caidIsVideoguard er.caid &&
    ([0x09C4, 0x098C, 0x098D, 0x0960, 0x0963, 0x09CD, 0x0919, 0x093B, 0x098E] : List Caid).contains
      er.caid

/-- `chk_halfCW`, with the control word that it leaves. -/
def chkHalfCW (er : EcmRequest) (cw : Cw) : Bool × Cw :=
  if isHalfCWEr er then
    let cut := if getOddEven er = 0x80 ∧ cw.get 15 = 0xF0 then cw.set 15 0 else cw
    let part1 := checkCWpart cut 0
    let part2 := checkCWpart cut 1
    if part1 && part2 then (false, cw)
    else if (getOddEven er = 0x80 && part1 && !part2) || (getOddEven er = 0x81 && !part1 && part2) ||
        (getOddEven er = 0x50 && part1 && part2) then (true, cut)
    else (false, cw)
  else (true, cw)

/-- `chk_if_ignore_checksum`. -/
def chkIfIgnoreChecksum (er : EcmRequest) (disablecrcOnlyFor : List Filt) : Bool :=
  let prid (prids : List (BitVec 32)) : Bool := prids.contains er.prid
  er.caid >>> 8 = 0x0E ||
    (er.caid = 0x0500 && prid [0x030B00, 0x032830, 0x050F00]) ||
    (er.caid = 0x09C4 && prid [0]) || (er.caid = 0x098C && prid [0]) ||
    (er.caid = 0x098D && prid [0]) || (er.caid = 0x1708 && prid [0]) ||
    (er.caid = 0x1709 && prid [0]) || (er.caid = 0x1811 && prid [0]) ||
    (er.caid = 0x1817 && prid [0, 0x00006A]) || (er.caid = 0x1818 && prid [0, 0x000007, 0x00006C]) ||
    (er.caid = 0x1819 && prid [0x000007, 0x00006D]) || (er.caid = 0x1841 && prid [0]) ||
    (er.caid = 0x1883 && prid [0]) || (er.caid = 0x1884 && prid [0]) ||
    disablecrcOnlyFor.any fun f =>
      f.caid ≠ 0 && (f.caid = er.caid || (f.caid < 0x0100 && er.caid >>> 8 = f.caid)) &&
        (f.prids = [] || prid f.prids)

/-- The options of the configuration and of the reader; `exception` is the answer of
`chk_srvid_disablecrccws_only_for_exception`. -/
structure ChecksumSetting where
  cfgDisablecrccws : Bool
  cfgDisablecrccwsOnlyFor : List Filt
  disablecrccws : Bool
  disablecrccwsOnlyFor : List Filt
  dropbadcws : Bool
  exception : Bool

/-- The checksums are checked. -/
def ChecksumSetting.checks (s : ChecksumSetting) (er : EcmRequest) : Bool :=
  !s.cfgDisablecrccws && !s.disablecrccws && !chkIfIgnoreChecksum er s.cfgDisablecrccwsOnlyFor &&
    !chkIfIgnoreChecksum er s.disablecrccwsOnlyFor

local instance neZero_quarters : NeZero 4 := ⟨by decide⟩

/-- The place of byte `k` of a quarter. -/
def quarterAt (q k : Fin 4) : Fin 16 := ⟨4 * q.val + k.val, by omega⟩

def csum (cw : Cw) (q : Fin 4) : Byte :=
  cw.get (quarterAt q 0) + cw.get (quarterAt q 1) + cw.get (quarterAt q 2)

/-- The checksum of the quarter is right. -/
def GoodQuarter (cw : Cw) (q : Fin 4) : Prop := cw.get (quarterAt q 3) = csum cw q

instance (cw : Cw) (q : Fin 4) : Decidable (GoodQuarter cw q) := inferInstanceAs (Decidable (_ = _))

def fixQuarter (cw : Cw) (q : Fin 4) : Cw := cw.set (quarterAt q 3).val (csum cw q)

/-- The seca nano protection, 0 if the control word is not encrypted. -/
def secaNano (er : EcmRequest) : Byte := if er.caid = 0x100 ∧ er.ecm 5 > 0 then er.ecm 5 else 0

/-- The loop over the quarters; it tells whether the control word is dropped. -/
def checksumLoop (dropbadcws : Bool) (nano : Byte) : List (Fin 4) → Cw → Bool × Cw
  | [], cw => (false, cw)
  | q :: rest, cw =>
    if GoodQuarter cw q then checksumLoop dropbadcws nano rest cw
    else if dropbadcws ∧ nano = 0 then (true, cw)
    else if nano = 0 then checksumLoop dropbadcws nano rest (fixQuarter cw q)
    else if q = 3 then checksumLoop dropbadcws nano rest (fixQuarter cw q)
    else (false, cw)

/-- The right checksums in the half that is not zero, for Videoguard without checksums. -/
def halfHits (cw : Cw) : ℕ :=
  let oe : List (Fin 4) := if checkCWpart cw 0 then [0, 1] else [2, 3]
  oe.countP fun q => GoodQuarter cw q

/-- A half control word with checksums where none are expected is dropped. -/
def dropsHalf (s : ChecksumSetting) (er : EcmRequest) (cw : Cw) : Bool :=
  chkIfIgnoreChecksum er s.disablecrccwsOnlyFor && caidIsVideoguard er.caid && !s.exception &&
    halfHits cw > 1 && s.dropbadcws

/-- What a reader passes to `write_ecm_answer`, with the refusal of control words that are not locally
generated and what the cycle check says. -/
structure ReaderAnswer where
  rc : ℕ
  rcEx : ℕ
  cw : Option Cw
  lgRefused : Bool
  cycleBad : Bool

/-- What is stored in the `s_ecm_answer`; without a control word the old one stays. -/
structure StoredAnswer where
  rc : ℕ
  rcEx : ℕ
  cw : Option Cw

/-- The checks of an answer, up to the cycle check. -/
def checkAnswer (s : ChecksumSetting) (er : EcmRequest) (rc rcEx : ℕ) : Option Cw → StoredAnswer
  | none => ⟨rc, rcEx, none⟩
  | some cw =>
    let rc := if rc < E_NOTFOUND ∧ chkIsNullCW cw ∧ !caidIsBiss er.caid then E_NOTFOUND else rc
    if rc < E_NOTFOUND then
      let half := chkHalfCW er cw
      if !half.1 then ⟨E_NOTFOUND, rcEx, some half.2⟩
      else
        let sums := if s.checks er then
            checksumLoop s.dropbadcws (secaNano er) (List.finRange 4) half.2
          else (false, half.2)
        if sums.1 then ⟨E_NOTFOUND, E2_WRONG_CHKSUM, some sums.2⟩
        else if dropsHalf s er sums.2 then ⟨E_NOTFOUND, E2_WRONG_CHKSUM, some sums.2⟩
        else ⟨rc, rcEx, some sums.2⟩
    else ⟨rc, rcEx, some cw⟩

/-- The `rc` of an answer behind the refusal of control words that are not locally generated. -/
def ReaderAnswer.givenRc (a : ReaderAnswer) : ℕ :=
  if a.lgRefused ∧ a.rc < E_NOTFOUND then E_NOTFOUND else a.rc

/-- The answer as `write_ecm_answer` stores it. -/
def storedAnswer (s : ChecksumSetting) (er : EcmRequest) (a : ReaderAnswer) : StoredAnswer :=
  let rc := a.givenRc
  if rc = E_NOTFOUND ∧ a.rcEx = E2_WRONG_CHKSUM then ⟨E_INVALID, E2_WRONG_CHKSUM, a.cw⟩
  else
    let checked := checkAnswer s er rc a.rcEx a.cw
    if a.cycleBad ∧ a.cw.isSome ∧ checked.rc < E_NOTFOUND then
      { checked with rc := E_NOTFOUND, rcEx := E2_WRONG_CHKSUM }
    else checked

theorem get_set (cw : Cw) (k j : Fin 16) (x : Byte) :
    (cw.set k.val x).get j = if k = j then x else cw.get j := by
  show (cw.set k.val x)[j.val] = if k = j then x else cw[j.val]
  rw [Vector.getElem_set]
  simp only [Fin.ext_iff]

theorem get_fixQuarter (cw : Cw) (q : Fin 4) (k : Fin 16) :
    (fixQuarter cw q).get k = if quarterAt q 3 = k then csum cw q else cw.get k :=
  get_set cw (quarterAt q 3) k (csum cw q)

/-- Only checksums differ. -/
def SameBytes (cw cw' : Cw) : Prop := ∀ k : Fin 16, k.val % 4 ≠ 3 → cw'.get k = cw.get k

theorem SameBytes.refl (cw : Cw) : SameBytes cw cw := fun _ _ => rfl

theorem SameBytes.trans (cw₁ cw₂ cw₃ : Cw) (h₁ : SameBytes cw₁ cw₂) (h₂ : SameBytes cw₂ cw₃) :
    SameBytes cw₁ cw₃ := fun k hk => (h₂ k hk).trans (h₁ k hk)

theorem SameBytes.csum (cw cw' : Cw) (h : SameBytes cw cw') (q : Fin 4) : csum cw' q = csum cw q := by
  unfold NCam.Ecm.csum
  rw [h _ (by simp [quarterAt]), h _ (by simp [quarterAt]), h _ (by simp [quarterAt])]

theorem sameBytes_fixQuarter (cw : Cw) (q : Fin 4) : SameBytes cw (fixQuarter cw q) := by
  intro k hk
  rw [get_fixQuarter, if_neg]
  intro h
  apply hk
  rw [← h]
  simp [quarterAt]

theorem sameBytes_chkHalfCW (er : EcmRequest) (cw : Cw) : SameBytes cw (chkHalfCW er cw).2 := by
  have hcut : SameBytes cw (cw.set 15 0) := by
    intro k hk
    have hne : (15 : Fin 16) ≠ k := by
      intro h
      apply hk
      rw [← h]
      rfl
    exact (get_set cw 15 k 0).trans (if_neg hne)
  unfold chkHalfCW
  dsimp only
  split_ifs <;> first | exact SameBytes.refl cw | exact hcut

theorem goodQuarter_fixQuarter (cw : Cw) (q q' : Fin 4) (h : q' = q ∨ GoodQuarter cw q) :
    GoodQuarter (fixQuarter cw q') q := by
  unfold GoodQuarter
  rw [(sameBytes_fixQuarter cw q').csum, get_fixQuarter]
  by_cases hq : q' = q
  · rw [hq, if_pos rfl]
  · have hne : quarterAt q' 3 ≠ quarterAt q 3 := by
      intro hat
      apply hq
      have : 4 * q'.val + 3 = 4 * q.val + 3 := Fin.ext_iff.mp hat
      omega
    rw [if_neg hne]
    exact h.resolve_left hq

section Loop

variable (dropbadcws : Bool) (nano : Byte)

theorem sameBytes_checksumLoop (qs : List (Fin 4)) (cw : Cw) :
    SameBytes cw (checksumLoop dropbadcws nano qs cw).2 := by
  induction qs generalizing cw with
  | nil => exact SameBytes.refl cw
  | cons q rest ih =>
    have hfix := (sameBytes_fixQuarter cw q).trans _ _ _ (ih (fixQuarter cw q))
    unfold checksumLoop
    split_ifs
    · exact ih cw
    · exact SameBytes.refl cw
    · exact hfix
    · exact hfix
    · exact SameBytes.refl cw

theorem goodQuarter_checksumLoop (qs : List (Fin 4)) (cw : Cw) (q : Fin 4) (h : GoodQuarter cw q) :
    GoodQuarter (checksumLoop dropbadcws nano qs cw).2 q := by
  induction qs generalizing cw with
  | nil => exact h
  | cons q' rest ih =>
    have hfix := ih (fixQuarter cw q') (goodQuarter_fixQuarter cw q q' (Or.inr h))
    unfold checksumLoop
    split_ifs
    · exact ih cw h
    · exact h
    · exact hfix
    · exact hfix
    · exact h

/-- Without encryption the loop ends with right checksums, or drops the control word. -/
theorem checksumLoop_plain (qs : List (Fin 4)) (cw : Cw)
    (h : (checksumLoop dropbadcws 0 qs cw).1 = false) :
    ∀ q ∈ qs, GoodQuarter (checksumLoop dropbadcws 0 qs cw).2 q := by
  induction qs generalizing cw with
  | nil => simp
  | cons q rest ih =>
    unfold checksumLoop at h ⊢
    have hstep (cw : Cw) (hgood : GoodQuarter cw q)
        (hloop : (checksumLoop dropbadcws 0 rest cw).1 = false) :
        ∀ q' ∈ q :: rest, GoodQuarter (checksumLoop dropbadcws 0 rest cw).2 q' := by
      intro q' hq'
      rcases List.mem_cons.mp hq' with rfl | hq'
      · exact goodQuarter_checksumLoop dropbadcws 0 rest cw q' hgood
      · exact ih cw hloop q' hq'
    by_cases hgood : GoodQuarter cw q
    · rw [if_pos hgood] at h ⊢
      exact hstep cw hgood h
    · by_cases hdrop : dropbadcws = true ∧ (0 : Byte) = 0
      · rw [if_neg hgood, if_pos hdrop] at h
        exact absurd h (by simp)
      · rw [if_neg hgood, if_neg hdrop, if_pos rfl] at h ⊢
        exact hstep _ (goodQuarter_fixQuarter cw q q (Or.inl rfl)) h

theorem checksumLoop_drops (qs : List (Fin 4)) (cw : Cw) (h : ∃ q ∈ qs, ¬GoodQuarter cw q) :
    (checksumLoop true 0 qs cw).1 = true := by
  induction qs with
  | nil => simp at h
  | cons q rest ih =>
    unfold checksumLoop
    by_cases hgood : GoodQuarter cw q
    · rw [if_pos hgood]
      obtain ⟨q', hq', hbad⟩ := h
      rcases List.mem_cons.mp hq' with rfl | hq'
      · exact absurd hgood hbad
      · exact ih ⟨q', hq', hbad⟩
    · rw [if_neg hgood, if_pos ⟨rfl, rfl⟩]

/-- An encrypted control word is left as it is, but for the last checksum behind three right ones. -/
theorem checksumLoop_encrypted (cw : Cw) (h : nano ≠ 0) :
    (checksumLoop dropbadcws nano (List.finRange 4) cw).1 = false ∧
      ((∀ q, GoodQuarter (checksumLoop dropbadcws nano (List.finRange 4) cw).2 q) ∨
        (checksumLoop dropbadcws nano (List.finRange 4) cw).2 = cw ∧ ∃ q ≠ 3, ¬GoodQuarter cw q) := by
  have hstep (q : Fin 4) (hq : q ≠ 3) (rest : List (Fin 4)) : checksumLoop dropbadcws nano (q :: rest) cw =
      if GoodQuarter cw q then checksumLoop dropbadcws nano rest cw else (false, cw) := by
    have hdrop : ¬(dropbadcws = true ∧ nano = 0) := fun hdrop => h hdrop.2
    rw [checksumLoop, if_neg hdrop, if_neg h, if_neg hq]
  show (checksumLoop dropbadcws nano [0, 1, 2, 3] cw).1 = false ∧
    ((∀ q, GoodQuarter (checksumLoop dropbadcws nano [0, 1, 2, 3] cw).2 q) ∨
      (checksumLoop dropbadcws nano [0, 1, 2, 3] cw).2 = cw ∧ ∃ q ≠ 3, ¬GoodQuarter cw q)
  by_cases h₀ : GoodQuarter cw 0
  · by_cases h₁ : GoodQuarter cw 1
    · by_cases h₂ : GoodQuarter cw 2
      · rw [hstep 0 (by decide), if_pos h₀, hstep 1 (by decide), if_pos h₁, hstep 2 (by decide),
          if_pos h₂]
        have hfirst (q : Fin 4) (hq : q ≠ 3) : GoodQuarter cw q := by
          have hcases : ∀ q : Fin 4, q ≠ 3 → q = 0 ∨ q = 1 ∨ q = 2 := by decide
          rcases hcases q hq with rfl | rfl | rfl <;> assumption
        have hlast : checksumLoop dropbadcws nano [3] cw =
            (false, if GoodQuarter cw 3 then cw else fixQuarter cw 3) := by
          have hdrop : ¬(dropbadcws = true ∧ nano = 0) := fun hdrop => h hdrop.2
          rw [checksumLoop, if_neg hdrop, if_neg h, if_pos rfl]
          split_ifs <;> rfl
        rw [hlast]
        refine ⟨rfl, Or.inl fun q => ?_⟩
        by_cases h₃ : GoodQuarter cw 3
        · rw [if_pos h₃]
          by_cases hq : q = 3
          · exact hq ▸ h₃
          · exact hfirst q hq
        · rw [if_neg h₃]
          by_cases hq : q = 3
          · exact goodQuarter_fixQuarter cw q 3 (Or.inl hq.symm)
          · exact goodQuarter_fixQuarter cw q 3 (Or.inr (hfirst q hq))
      · rw [hstep 0 (by decide), if_pos h₀, hstep 1 (by decide), if_pos h₁, hstep 2 (by decide),
          if_neg h₂]
        exact ⟨rfl, Or.inr ⟨rfl, 2, by decide, h₂⟩⟩
    · rw [hstep 0 (by decide), if_pos h₀, hstep 1 (by decide), if_neg h₁]
      exact ⟨rfl, Or.inr ⟨rfl, 1, by decide, h₁⟩⟩
  · rw [hstep 0 (by decide), if_neg h₀]
    exact ⟨rfl, Or.inr ⟨rfl, 0, by decide, h₀⟩⟩

end Loop

/-- What a found answer has passed: the checks on null and half control words, and the loop. -/
theorem checkAnswer_found (s : ChecksumSetting) (er : EcmRequest) (rc rcEx : ℕ) (cw : Cw)
    (hchecks : s.checks er = true)
    (h : (checkAnswer s er rc rcEx (some cw)).rc < E_NOTFOUND) :
    (chkIsNullCW cw = true → caidIsBiss er.caid = true) ∧ (chkHalfCW er cw).1 = true ∧
      (checksumLoop s.dropbadcws (secaNano er) (List.finRange 4) (chkHalfCW er cw).2).1 = false ∧
      (checkAnswer s er rc rcEx (some cw)).cw =
        some (checksumLoop s.dropbadcws (secaNano er) (List.finRange 4) (chkHalfCW er cw).2).2 := by
  have hnot : ¬E_NOTFOUND < E_NOTFOUND := by omega
  simp only [checkAnswer, hchecks, if_true] at h ⊢
  by_cases hnull : rc < E_NOTFOUND ∧ chkIsNullCW cw = true ∧ (!caidIsBiss er.caid) = true
  · rw [if_pos hnull, if_neg hnot] at h
    exact absurd h hnot
  rw [if_neg hnull] at h ⊢
  by_cases hrc : rc < E_NOTFOUND
  · rw [if_pos hrc] at h ⊢
    by_cases hhalf : (chkHalfCW er cw).1 = true
    · by_cases hsums : (checksumLoop s.dropbadcws (secaNano er) (List.finRange 4)
          (chkHalfCW er cw).2).1 = true
      · simp [hhalf, hsums] at h
      · by_cases hdrops : dropsHalf s er (checksumLoop s.dropbadcws (secaNano er) (List.finRange 4)
            (chkHalfCW er cw).2).2 = true
        · simp [hhalf, hsums, hdrops] at h
        · refine ⟨?_, hhalf, eq_false_of_ne_true hsums, by simp [hhalf, hsums, hdrops]⟩
          intro hzero
          by_contra hbiss
          exact hnull ⟨hrc, hzero, by simpa using hbiss⟩
    · simp [hhalf] at h
  · rw [if_neg hrc] at h
    exact absurd h hrc

theorem sameBytes_checkAnswer (s : ChecksumSetting) (er : EcmRequest) (rc rcEx : ℕ) (cw : Cw) :
    ∃ cw', (checkAnswer s er rc rcEx (some cw)).cw = some cw' ∧ SameBytes cw cw' := by
  have hhalf := sameBytes_chkHalfCW er cw
  have hsums := hhalf.trans _ _ _
    (sameBytes_checksumLoop s.dropbadcws (secaNano er) (List.finRange 4) (chkHalfCW er cw).2)
  unfold checkAnswer
  dsimp only
  split_ifs
  all_goals first
    | exact ⟨_, rfl, hsums⟩
    | exact ⟨_, rfl, hhalf⟩
    | exact ⟨_, rfl, SameBytes.refl cw⟩

/-- A found answer was found by the checks, and is stored as these leave it. -/
theorem storedAnswer_found (s : ChecksumSetting) (er : EcmRequest) (a : ReaderAnswer)
    (h : (storedAnswer s er a).rc < E_NOTFOUND) : ∃ rc,
      (checkAnswer s er rc a.rcEx a.cw).rc < E_NOTFOUND ∧
        storedAnswer s er a = checkAnswer s er rc a.rcEx a.cw := by
  have hnot : ¬E_NOTFOUND < E_NOTFOUND := by omega
  have hinvalid : ¬E_INVALID < E_NOTFOUND := by decide
  unfold storedAnswer at h ⊢
  dsimp only at h ⊢
  split_ifs at h ⊢ with h₁ h₂ h₃ h₄
  all_goals first
    | exact absurd h hinvalid
    | exact absurd h hnot
    | exact ⟨_, h, rfl⟩

theorem storedAnswer_sameBytes (s : ChecksumSetting) (er : EcmRequest) (a : ReaderAnswer) (cw : Cw)
    (hcw : a.cw = some cw) : ∃ cw', (storedAnswer s er a).cw = some cw' ∧ SameBytes cw cw' := by
  unfold storedAnswer
  rw [hcw]
  dsimp only
  split_ifs
  all_goals first
    | exact ⟨cw, rfl, SameBytes.refl cw⟩
    | exact sameBytes_checkAnswer s er _ a.rcEx cw

theorem checkAnswer_rc (s : ChecksumSetting) (er : EcmRequest) (rc rcEx : ℕ) (cw : Option Cw) :
    (checkAnswer s er rc rcEx cw).rc = rc ∨ (checkAnswer s er rc rcEx cw).rc = E_NOTFOUND := by
  cases cw with
  | none => exact Or.inl rfl
  | some cw =>
    unfold checkAnswer
    dsimp only
    split_ifs
    all_goals first
      | exact Or.inl rfl
      | exact Or.inr rfl

theorem storedAnswer_rc (s : ChecksumSetting) (er : EcmRequest) (a : ReaderAnswer)
    (hrc : a.rc < E_NOTFOUND) (hlg : a.lgRefused = false) :
    (storedAnswer s er a).rc = a.rc ∨ (storedAnswer s er a).rc = E_NOTFOUND := by
  have hne : a.rc ≠ E_NOTFOUND := by omega
  have hgiven : a.givenRc = a.rc := by
    simp [ReaderAnswer.givenRc, hlg]
  unfold storedAnswer
  simp only [hgiven, hne, false_and, if_false]
  split_ifs
  · exact Or.inr rfl
  · exact checkAnswer_rc s er a.rc a.rcEx a.cw

theorem chkHalfCW_of_secaNano (er : EcmRequest) (cw : Cw) (h : secaNano er ≠ 0) :
    chkHalfCW er cw = (true, cw) := by
  have hcaid : er.caid = 0x100 := by
    by_contra hne
    exact h (if_neg fun hboth => hne hboth.1)
  have hhalf : isHalfCWEr er = false := by
    unfold isHalfCWEr
    rw [hcaid]
    rfl
  unfold chkHalfCW
  simp [hhalf]

/-- With the checksums checked: a found answer has right checksums, unless it is encrypted and was left
as it came; what `dropbadcws` applies to, a zero control word and a half one in the wrong place are not
found; no other byte changes, and without a control word the stored one stays. -/
theorem storedAnswer_checksums (s : ChecksumSetting) (er : EcmRequest) (a : ReaderAnswer)
    (hchecks : s.checks er = true) :
    (a.cw = none → (storedAnswer s er a).cw = none) ∧
    (a.rc < E_NOTFOUND → a.lgRefused = false →
      (storedAnswer s er a).rc = a.rc ∨ (storedAnswer s er a).rc = E_NOTFOUND) ∧
    ∀ cw, a.cw = some cw → ∃ cw', (storedAnswer s er a).cw = some cw' ∧ SameBytes cw cw' ∧
      ((storedAnswer s er a).rc < E_NOTFOUND → secaNano er = 0 → ∀ q, GoodQuarter cw' q) ∧
      ((storedAnswer s er a).rc < E_NOTFOUND → secaNano er ≠ 0 →
        (∀ q, GoodQuarter cw' q) ∨ cw' = cw ∧ ∃ q ≠ 3, ¬GoodQuarter cw q) ∧
      (s.dropbadcws = true → secaNano er = 0 → (∃ q, ¬GoodQuarter (chkHalfCW er cw).2 q) →
        E_NOTFOUND ≤ (storedAnswer s er a).rc) ∧
      (chkIsNullCW cw = true → caidIsBiss er.caid = false → E_NOTFOUND ≤ (storedAnswer s er a).rc) ∧
      ((chkHalfCW er cw).1 = false → E_NOTFOUND ≤ (storedAnswer s er a).rc) := by
  refine ⟨?_, storedAnswer_rc s er a, ?_⟩
  · intro hcw
    unfold storedAnswer checkAnswer
    rw [hcw]
    dsimp only
    split_ifs <;> rfl
  intro cw hcw
  obtain ⟨cw', hcw', hsame⟩ := storedAnswer_sameBytes s er a cw hcw
  -- what a found answer has passed, with the control word that is stored
  have hfound (h : (storedAnswer s er a).rc < E_NOTFOUND) :
      (chkIsNullCW cw = true → caidIsBiss er.caid = true) ∧ (chkHalfCW er cw).1 = true ∧
        (checksumLoop s.dropbadcws (secaNano er) (List.finRange 4) (chkHalfCW er cw).2).1 = false ∧
        cw' = (checksumLoop s.dropbadcws (secaNano er) (List.finRange 4) (chkHalfCW er cw).2).2 := by
    obtain ⟨rc, hrc, heq⟩ := storedAnswer_found s er a h
    rw [hcw] at hrc heq
    obtain ⟨hnull, hhalf, hsums, hleft⟩ := checkAnswer_found s er rc a.rcEx cw hchecks hrc
    rw [heq, hleft] at hcw'
    exact ⟨hnull, hhalf, hsums, (Option.some.inj hcw').symm⟩
  refine ⟨cw', hcw', hsame, ?_, ?_, ?_, ?_, ?_⟩
  · intro h hnano q
    obtain ⟨-, -, hsums, hleft⟩ := hfound h
    rw [hnano] at hsums hleft
    rw [hleft]
    exact checksumLoop_plain s.dropbadcws (List.finRange 4) _ hsums q (List.mem_finRange q)
  · intro h hnano
    obtain ⟨-, -, -, hleft⟩ := hfound h
    have := (checksumLoop_encrypted s.dropbadcws (secaNano er) cw hnano).2
    rw [chkHalfCW_of_secaNano er cw hnano] at hleft
    rw [hleft]
    exact this
  · intro hdrop hnano ⟨q, hbad⟩
    by_contra hlt
    obtain ⟨-, -, hsums, -⟩ := hfound (by omega)
    rw [hdrop, hnano, checksumLoop_drops _ _ ⟨q, List.mem_finRange q, hbad⟩] at hsums
    exact absurd hsums (by simp)
  · intro hnull hbiss
    by_contra hlt
    have := (hfound (by omega)).1 hnull
    exact absurd (hbiss.symm.trans this) (by simp)
  · intro hhalf
    by_contra hlt
    have := (hfound (by omega)).2.1
    exact absurd (hhalf.symm.trans this) (by simp)

/-- An even ECM of a caid, with byte 5 as given. -/
def evenEcm (caid : Caid) (nano : Byte) : EcmRequest :=
  { ecm := fun i => if i = 5 then nano else 0x80, ecmlen := 16, caid := caid, ocaid := 0, srvid := 0,
    chid := 0, pid := 0, prid := 0, btun := 0 }

def checkingSetting (dropbadcws : Bool) : ChecksumSetting := ⟨false, [], false, [], dropbadcws, false⟩

def foundAnswer (cw : Cw) : ReaderAnswer := ⟨E_FOUND, 0, some cw, false, false⟩

theorem storedAnswer_checksums_ones : ∃ cw',
    (storedAnswer (checkingSetting false) (evenEcm 0x1801 0) (foundAnswer (.replicate 16 1))).cw =
      some cw' ∧ SameBytes (.replicate 16 1) cw' ∧ ∀ q, GoodQuarter cw' q := by
  obtain ⟨-, -, h⟩ := storedAnswer_checksums (checkingSetting false) (evenEcm 0x1801 0)
    (foundAnswer (.replicate 16 1)) (by decide)
  obtain ⟨cw', hcw', hsame, hgood, -⟩ := h (.replicate 16 1) rfl
  exact ⟨cw', hcw', hsame, hgood (by decide) (by decide)⟩

/-- An encrypted control word is found with wrong checksums, and one with a zero half is found although
bad ones are dropped. -/
theorem found_bad_and_half :
    ((storedAnswer (checkingSetting false) (evenEcm 0x100 1) (foundAnswer (.replicate 16 1))).rc =
        E_FOUND ∧
      ∃ cw', (storedAnswer (checkingSetting false) (evenEcm 0x100 1)
        (foundAnswer (.replicate 16 1))).cw = some cw' ∧ ¬GoodQuarter cw' 0) ∧
    (storedAnswer (checkingSetting true) (evenEcm 0x1801 0)
      (foundAnswer #v[1, 1, 1, 3, 1, 1, 1, 3, 0, 0, 0, 0, 0, 0, 0, 0])).rc = E_FOUND := by
  constructor
  · exact ⟨by decide, .replicate 16 1, by decide, by decide⟩
  · decide

end NCam.Ecm
