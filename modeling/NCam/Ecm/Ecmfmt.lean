import NCam.Util.Printf

/-! The text of a request for the log, as the option `ecmfmt` wants it. -/
namespace NCam.Ecm

open NCam.Lib NCam.Util

/-- The arguments of `ecmfmt`; `null` is what the C library prints for a null pointer. -/
structure EcmfmtArgs where
  caid : BitVec 16
  onid : BitVec 16
  prid : BitVec 32
  chid : BitVec 16
  pid : BitVec 16
  srvid : BitVec 16
  l : BitVec 16
  ecmd5hex : Option (List Char)
  csphash : Option (List Char)
  cw : Option (List Char)
  originPeer : BitVec 16
  distance : BitVec 8
  payload : Option (List Char)
  tier : Option (List Char)
  null : List Char

/-- `result` with `s`, and the places that were written. -/
structure FmtLine where
  result : ℕ → Char
  s : ℕ
  written : List ℕ

section Write

variable (size : BitVec 64) (line : FmtLine)

/-- `size - s`. -/
def FmtLine.room : ℕ := (size.toNat + 2 ^ 64 - line.s) % 2 ^ 64

def FmtLine.store (cells : List Char) (s : ℕ) : FmtLine where
  result := Memory.put line.result line.s cells
  s := s % 2 ^ 32
  written := line.written ++ List.range' line.s cells.length

/-- `s += snprintf(result + s, size - s, …)`. -/
def FmtLine.print (text : List Char) : FmtLine :=
  line.store (if line.room size = 0 then [] else text.take (line.room size - 1) ++ ['\x00'])
    (line.s + text.length)

def FmtLine.putChar (cvalue : Char) : FmtLine :=
  if line.room size > 1 then line.store [cvalue, '\x00'] (line.s + 1) else line

end Write

/-- The values of the three types, with the text that is printed for them. -/
inductive FmtValue
  | number (ifmt : BitVec 32 → List Char) (ivalue : BitVec 32)
  | string (sfmt : List Char → List Char) (svalue : Option (List Char))
  | char (cvalue : Char)

def FmtValue.isZero : FmtValue → Bool
  | .number _ ivalue => ivalue = 0
  | .string _ svalue => svalue = none
  | .char _ => false

/-- `0F06%12X`, whose value is always 0. -/
def payload12 (v : BitVec 32) : List Char :=
  let digits := if hexDigits v = [] then ['0'] else hexDigits v
  "0F06".toList ++ List.replicate (12 - digits.length) ' ' ++ digits

/-- The value of a character of the format; a null `tier` or `payload` that is not hidden is a zero. -/
def fmtValue (a : EcmfmtArgs) (hideIfZero : Bool) : Char → FmtValue
  | 't' => if a.tier = none ∧ !hideIfZero then .number (printfHex 4) 0 else .string id a.tier
  | 'c' => .number (printfHex 4) (a.caid.setWidth 32)
  | 'o' => .number (printfHex 4) (a.onid.setWidth 32)
  | 'p' => .number (printfHex 6) a.prid
  | 'i' => .number (printfHex 4) (a.chid.setWidth 32)
  | 'd' => .number (printfHex 4) (a.pid.setWidth 32)
  | 's' => .number (printfHex 4) (a.srvid.setWidth 32)
  | 'l' => .number (printfHex 2) (a.l.setWidth 32)
  | 'h' => .string id a.ecmd5hex
  | 'e' => .string id a.csphash
  | 'w' => .string id a.cw
  | 'j' => .number (printfHex 2) (a.distance.setWidth 32)
  | 'g' => .number (printfHex 4) (a.originPeer.setWidth 32)
  | 'y' =>
    if a.payload = none ∧ !hideIfZero then .number (fun v => "0F06".toList ++ printfHex 6 v) 0
    else .string (fun t => "0F06".toList ++ t.take 6) a.payload
  | 'Y' =>
    if a.payload = none ∧ !hideIfZero then .number payload12 0
    else .string (fun t => "0F06".toList ++ t) a.payload
  | c => .char c

def FmtLine.putValue (a : EcmfmtArgs) (size : BitVec 64) (line : FmtLine) : FmtValue → FmtLine
  | .number ifmt ivalue => line.print size (ifmt ivalue)
  | .string sfmt svalue => line.print size (sfmt (svalue.getD a.null))
  | .char cvalue => line.putChar size cvalue

/-- The loop of `ecmfmt` over the characters of the option. -/
def ecmfmtLoop (a : EcmfmtArgs) (size : BitVec 64) : List Char → Bool → FmtLine → FmtLine
  | [], _, line => line
  | c :: fmt, hideIfZero, line =>
    if c = '0' then ecmfmtLoop a size fmt true line
    else if c = '\\' then
      match fmt with
      | [] => line
      | cvalue :: fmt => ecmfmtLoop a size fmt hideIfZero (line.putValue a size (.char cvalue))
    else
      let value := fmtValue a hideIfZero c
      if hideIfZero ∧ value.isZero then ecmfmtLoop a size fmt false line
      else ecmfmtLoop a size fmt hideIfZero (line.putValue a size value)

/-- The text without the option. -/
def defaultText (a : EcmfmtArgs) : List Char :=
  printfHex 4 (a.caid.setWidth 32) ++ '@' :: printfHex 6 a.prid ++
    '/' :: printfHex 4 (a.chid.setWidth 32) ++ '/' :: printfHex 4 (a.srvid.setWidth 32) ++
    '/' :: printfHex 2 (a.l.setWidth 32) ++ ':' :: a.ecmd5hex.getD a.null ++
    (a.payload.elim [] fun payload => ":0F06".toList ++ payload) ++
    (a.tier.elim [] fun tier => ':' :: tier)

def ecmfmt (a : EcmfmtArgs) (fmt : Option (List Char)) (size : BitVec 64) (result : ℕ → Char) :
    FmtLine :=
  let line : FmtLine := ⟨result, 0, []⟩
  match fmt with
  | none => line.print size (defaultText a)
  | some fmt => ecmfmtLoop a size fmt false line

/-- What a format string is made of: prefixes, fields and characters. -/
inductive FmtToken
  | zero
  | field (c : Char)
  | char (c : Char)
  deriving DecidableEq

def isField (c : Char) : Bool := "tcopidslhewjgyY".toList.contains c

def fmtTokens : List Char → List FmtToken
  | [] => []
  | c :: fmt =>
    if c = '0' then .zero :: fmtTokens fmt
    else if c = '\\' then
      match fmt with
      | [] => []
      | c :: fmt => .char c :: fmtTokens fmt
    else (if isField c then .field c else .char c) :: fmtTokens fmt

/-- The values that are shown, with the prefix as the loop keeps it: until a field is hidden. -/
def shownValues (a : EcmfmtArgs) : List FmtToken → Bool → List FmtValue
  | [], _ => []
  | .zero :: ts, _ => shownValues a ts true
  | .char c :: ts, hide => .char c :: shownValues a ts hide
  | .field c :: ts, hide =>
    if hide ∧ (fmtValue a hide c).isZero then shownValues a ts false
    else fmtValue a hide c :: shownValues a ts hide

/-- The values to show when a prefix is for the next field alone. -/
def prefixedValues (a : EcmfmtArgs) : List FmtToken → Bool → List FmtValue
  | [], _ => []
  | .zero :: ts, _ => prefixedValues a ts true
  | .char c :: ts, hide => .char c :: prefixedValues a ts hide
  | .field c :: ts, hide =>
    if hide ∧ (fmtValue a hide c).isZero then prefixedValues a ts false
    else fmtValue a hide c :: prefixedValues a ts false

theorem fmtValue_of_not_field (a : EcmfmtArgs) (hide : Bool) (c : Char) (h : isField c = false) :
    fmtValue a hide c = .char c := by
  unfold fmtValue
  split <;> first | exact absurd h (by decide) | rfl

theorem fmtTokens_zero (fmt : List Char) : fmtTokens ('0' :: fmt) = .zero :: fmtTokens fmt := by
  cases fmt <;> simp [fmtTokens]

theorem fmtTokens_other (c : Char) (fmt : List Char) (hzero : c ≠ '0') (hslash : c ≠ '\\') :
    fmtTokens (c :: fmt) = (if isField c then .field c else .char c) :: fmtTokens fmt := by
  cases fmt <;> simp [fmtTokens, hzero, hslash]

theorem ecmfmtLoop_eq (a : EcmfmtArgs) (size : BitVec 64) (fmt : List Char) (hide : Bool)
    (line : FmtLine) : ecmfmtLoop a size fmt hide line =
      (shownValues a (fmtTokens fmt) hide).foldl (FmtLine.putValue a size) line := by
  fun_induction ecmfmtLoop a size fmt hide line with
  | case1 => rfl
  | case2 fmt hide line ih => simpa [fmtTokens_zero, shownValues] using ih
  | case3 => rfl
  | case4 hide line cvalue fmt hzero ih => simpa [fmtTokens, shownValues] using ih
  | case5 c fmt hide line hzero hslash value h ih =>
    have hfield : isField c = true := by
      by_contra hchar
      have := fmtValue_of_not_field a hide c (eq_false_of_ne_true hchar)
      simp [value, this, FmtValue.isZero] at h
    rw [fmtTokens_other c fmt hzero hslash, if_pos hfield, shownValues, if_pos h]
    exact ih
  | case6 c fmt hide line hzero hslash value h ih =>
    rw [fmtTokens_other c fmt hzero hslash]
    by_cases hfield : isField c = true
    · rw [if_pos hfield, shownValues, if_neg h]
      exact ih
    · have hchar := fmtValue_of_not_field a hide c (eq_false_of_ne_true hfield)
      have hvalue : value = .char c := hchar
      rw [if_neg hfield, shownValues, ← hvalue]
      exact ih

section Prefix

variable (a : EcmfmtArgs)

/-- A prefix hides the field. -/
def zeroField (c : Char) : Bool := (fmtValue a true c).isZero

theorem fmtValue_of_not_zero (c : Char) (h : zeroField a c = false) :
    fmtValue a true c = fmtValue a false c := by
  have hnone (svalue : Option (List Char)) (h : decide (svalue = none) = false) : svalue ≠ none := by
    simpa using h
  unfold zeroField at h
  unfold fmtValue at h ⊢
  split at h
  all_goals first
    | rfl
    | skip
  · have := hnone a.tier (by simpa [FmtValue.isZero] using h)
    simp [this]
  · have := hnone a.payload (by simpa [FmtValue.isZero] using h)
    simp [this]
  · have := hnone a.payload (by simpa [FmtValue.isZero] using h)
    simp [this]

def FmtToken.field? : FmtToken → Option Char
  | .field c => some c
  | _ => none

/-- The fields before the next prefix. -/
def fieldRun (ts : List FmtToken) : List Char := (ts.takeWhile (· ≠ .zero)).filterMap FmtToken.field?

/-- The first field is shown, and before the next prefix there is one that the prefix hides. -/
def FirstCarries (cs : List Char) : Prop :=
  ∃ c rest, cs = c :: rest ∧ zeroField a c = false ∧ ∃ f ∈ rest, zeroField a f = true

/-- Some prefix is followed by a field that is shown and, before the next prefix, by one to hide. -/
def CarriesOn (ts : List FmtToken) : Prop :=
  ∃ before behind, ts = before ++ .zero :: behind ∧ FirstCarries a (fieldRun behind)

theorem fieldRun_zero (ts : List FmtToken) : fieldRun (.zero :: ts) = [] := rfl

theorem fieldRun_char (c : Char) (ts : List FmtToken) : fieldRun (.char c :: ts) = fieldRun ts := rfl

theorem fieldRun_field (c : Char) (ts : List FmtToken) :
    fieldRun (.field c :: ts) = c :: fieldRun ts := by
  simp [fieldRun, FmtToken.field?]

theorem carriesOn_zero (ts : List FmtToken) :
    CarriesOn a (.zero :: ts) ↔ FirstCarries a (fieldRun ts) ∨ CarriesOn a ts := by
  constructor
  · rintro ⟨before, behind, heq, h⟩
    cases before with
    | nil =>
      have : ts = behind := by simpa using heq
      exact Or.inl (this ▸ h)
    | cons t before =>
      have : ts = before ++ .zero :: behind := by
        rw [List.cons_append, List.cons.injEq] at heq
        exact heq.2
      exact Or.inr ⟨before, behind, this, h⟩
  · rintro (h | ⟨before, behind, heq, h⟩)
    · exact ⟨[], ts, rfl, h⟩
    · exact ⟨.zero :: before, behind, by rw [heq]; rfl, h⟩

theorem carriesOn_other (t : FmtToken) (ht : t ≠ .zero) (ts : List FmtToken) :
    CarriesOn a (t :: ts) ↔ CarriesOn a ts := by
  constructor
  · rintro ⟨before, behind, heq, h⟩
    cases before with
    | nil =>
      rw [List.nil_append, List.cons.injEq] at heq
      exact absurd heq.1 ht
    | cons t' before =>
      rw [List.cons_append, List.cons.injEq] at heq
      exact ⟨before, behind, heq.2, h⟩
  · rintro ⟨before, behind, heq, h⟩
    exact ⟨t :: before, behind, by rw [heq]; rfl, h⟩

/-- A prefix kept longer hides more. -/
theorem length_shownValues (ts : List FmtToken) (hide hide' : Bool) (h : hide' = true → hide = true) :
    (shownValues a ts hide).length ≤ (prefixedValues a ts hide').length := by
  induction ts generalizing hide hide' with
  | nil => exact Nat.le_refl 0
  | cons t ts ih =>
    cases t with
    | zero => exact ih true true (fun _ => rfl)
    | char c => exact Nat.succ_le_succ (ih hide hide' h)
    | field c =>
      have hkept := ih hide false (fun h => absurd h (by simp))
      have hshown (b : Bool) (hb : ¬(b = true ∧ zeroField a c = true)) :
          ¬(b = true ∧ (fmtValue a b c).isZero = true) := by
        rintro ⟨rfl, hz⟩
        exact hb ⟨rfl, hz⟩
      unfold shownValues prefixedValues
      by_cases hz : hide = true ∧ zeroField a c = true
      · obtain ⟨rfl, hz⟩ := hz
        have hnext := ih false false (fun h => h)
        rw [if_pos ⟨rfl, hz⟩]
        by_cases hz' : hide' = true ∧ zeroField a c = true
        · obtain ⟨rfl, -⟩ := hz'
          rwa [if_pos ⟨rfl, hz⟩]
        · rw [if_neg (hshown hide' hz'), List.length_cons]
          omega
      · have hz' : ¬(hide' = true ∧ zeroField a c = true) := fun hz' => hz ⟨h hz'.1, hz'.2⟩
        rw [if_neg (hshown hide hz), if_neg (hshown hide' hz')]
        exact Nat.succ_le_succ hkept

/-- Where the prefix stands: not set, set for the next field, or kept behind one. -/
theorem shownValues_eq_iff (ts : List FmtToken) :
    (shownValues a ts false = prefixedValues a ts false ↔ ¬CarriesOn a ts) ∧
    (shownValues a ts true = prefixedValues a ts true ↔
      ¬CarriesOn a ts ∧ ¬FirstCarries a (fieldRun ts)) ∧
    (shownValues a ts true = prefixedValues a ts false ↔
      ¬CarriesOn a ts ∧ ¬∃ f ∈ fieldRun ts, zeroField a f = true) := by
  induction ts with
  | nil =>
    have hcarries : ¬CarriesOn a [] := by
      rintro ⟨before, behind, heq, -⟩
      simp at heq
    have hrun : fieldRun [] = [] := rfl
    simp [shownValues, prefixedValues, hcarries, hrun, FirstCarries]
  | cons t ts ih =>
    obtain ⟨hnone, hset, hkept⟩ := ih
    cases t with
    | zero =>
      have hrun : ¬FirstCarries a [] := by
        rintro ⟨c, rest, heq, -⟩
        simp at heq
      rw [carriesOn_zero, fieldRun_zero]
      simp only [shownValues, prefixedValues, hset, List.not_mem_nil, false_and, exists_false]
      tauto
    | char c =>
      rw [carriesOn_other a _ (by simp), fieldRun_char]
      simp only [shownValues, prefixedValues, List.cons.injEq, true_and]
      exact ⟨hnone, hset, hkept⟩
    | field c =>
      have hfirst : FirstCarries a (c :: fieldRun ts) ↔
          zeroField a c = false ∧ ∃ f ∈ fieldRun ts, zeroField a f = true := by
        constructor
        · rintro ⟨c', rest, heq, h⟩
          rw [List.cons.injEq] at heq
          rw [heq.1, heq.2]
          exact h
        · intro h
          exact ⟨c, fieldRun ts, rfl, h⟩
      rw [carriesOn_other a _ (by simp), fieldRun_field, hfirst]
      have hplain (shown : List FmtToken → Bool → List FmtValue) : (if false = true ∧
          (fmtValue a false c).isZero = true then shown ts false else fmtValue a false c :: shown ts false) =
          fmtValue a false c :: shown ts false := if_neg (by simp)
      simp only [shownValues, prefixedValues, hplain, List.cons.injEq, true_and, List.mem_cons,
        exists_eq_or_imp]
      refine ⟨hnone, ?_⟩
      by_cases hz : zeroField a c = true
      · have hhidden : (fmtValue a true c).isZero = true := hz
        have hlen := length_shownValues a ts false false (fun h => h)
        rw [if_pos hhidden, if_pos hhidden]
        constructor
        · rw [hnone, hz]
          simp
        · constructor
          · intro h
            rw [h, List.length_cons] at hlen
            omega
          · intro h
            exact absurd (Or.inl hz) h.2
      · have hshown : ¬(fmtValue a true c).isZero = true := hz
        have hz := eq_false_of_ne_true hz
        rw [if_neg hshown, if_neg hshown, ← fmtValue_of_not_zero a c hz]
        simp only [List.cons.injEq, true_and, hz, hkept, Bool.false_eq_true, false_or, and_self]

end Prefix

/-- The length of the line behind a value; a character counts where it fits before the last place. -/
def FmtValue.grow (a : EcmfmtArgs) (size : ℕ) (s : ℕ) : FmtValue → ℕ
  | .number ifmt ivalue => (s + (ifmt ivalue).length) % 2 ^ 32
  | .string sfmt svalue => (s + (sfmt (svalue.getD a.null)).length) % 2 ^ 32
  | .char _ => if s + 1 < size then (s + 1) % 2 ^ 32 else s

def lineLength (a : EcmfmtArgs) (size : ℕ) (values : List FmtValue) : ℕ :=
  values.foldl (FmtValue.grow a size) 0

section Places

variable (a : EcmfmtArgs) (size : BitVec 64) (line : FmtLine)

theorem room_of_le (h : line.s ≤ size.toNat) : line.room size = size.toNat - line.s := by
  have := size.isLt
  unfold FmtLine.room
  omega

theorem room_of_lt (h : size.toNat < line.s) (hs : line.s < 2 ^ 32) : 1 < line.room size := by
  unfold FmtLine.room
  omega

theorem mem_store (cells : List Char) (s i : ℕ) : i ∈ (line.store cells s).written ↔
    i ∈ line.written ∨ line.s ≤ i ∧ i < line.s + cells.length := by
  unfold FmtLine.store
  rw [List.mem_append, List.mem_range'_1]

/-- A value printed at a place in the array stays in it. -/
theorem putValue_of_le (value : FmtValue) (h : line.s ≤ size.toNat) (hs : line.s < 2 ^ 32) :
    (line.putValue a size value).s = value.grow a size.toNat line.s ∧
      ((∀ i ∈ line.written, i < size.toNat) →
        ∀ i ∈ (line.putValue a size value).written, i < size.toNat) := by
  have hroom := room_of_le size line h
  have hprint (text : List Char) : (line.print size text).s = (line.s + text.length) % 2 ^ 32 ∧
      ((∀ i ∈ line.written, i < size.toNat) →
        ∀ i ∈ (line.print size text).written, i < size.toNat) := by
    refine ⟨rfl, ?_⟩
    intro hin i hi
    unfold FmtLine.print at hi
    rw [mem_store] at hi
    rcases hi with hi | hi
    · exact hin i hi
    · by_cases hzero : line.room size = 0
      · rw [if_pos hzero, List.length_nil] at hi
        omega
      · rw [if_neg hzero, List.length_append, List.length_take, List.length_singleton] at hi
        omega
  cases value with
  | number ifmt ivalue => exact hprint (ifmt ivalue)
  | string sfmt svalue => exact hprint (sfmt (svalue.getD a.null))
  | char cvalue =>
    unfold FmtLine.putValue FmtLine.putChar FmtValue.grow
    dsimp only
    by_cases hfit : line.room size > 1
    · rw [if_pos hfit, if_pos (by omega)]
      refine ⟨rfl, ?_⟩
      intro hin i hi
      rw [mem_store] at hi
      rcases hi with hi | hi
      · exact hin i hi
      · simp only [List.length_cons, List.length_nil] at hi
        omega
    · rw [if_neg hfit, if_neg (by omega)]
      exact ⟨rfl, fun hin => hin⟩

/-- A value printed behind the array is written there. -/
theorem putValue_of_lt (value : FmtValue) (h : size.toNat < line.s) (hs : line.s < 2 ^ 32) :
    line.s ∈ (line.putValue a size value).written := by
  have hroom := room_of_lt size line h hs
  have hprint (text : List Char) : line.s ∈ (line.print size text).written := by
    unfold FmtLine.print
    rw [mem_store, if_neg (by omega), List.length_append, List.length_singleton]
    right
    omega
  cases value with
  | number ifmt ivalue => exact hprint (ifmt ivalue)
  | string sfmt svalue => exact hprint (sfmt (svalue.getD a.null))
  | char cvalue =>
    unfold FmtLine.putValue FmtLine.putChar
    dsimp only
    rw [if_pos hroom, mem_store]
    right
    simp

theorem putValue_s_lt (value : FmtValue) (hs : line.s < 2 ^ 32) :
    (line.putValue a size value).s < 2 ^ 32 := by
  have hprint (text : List Char) : (line.print size text).s < 2 ^ 32 := Nat.mod_lt _ (by omega)
  cases value with
  | number ifmt ivalue => exact hprint (ifmt ivalue)
  | string sfmt svalue => exact hprint (sfmt (svalue.getD a.null))
  | char cvalue =>
    unfold FmtLine.putValue FmtLine.putChar
    dsimp only
    split_ifs
    · exact Nat.mod_lt _ (by omega)
    · exact hs

theorem written_putValue (value : FmtValue) (i : ℕ) (hi : i ∈ line.written) :
    i ∈ (line.putValue a size value).written := by
  have hprint (text : List Char) : i ∈ (line.print size text).written := by
    unfold FmtLine.print
    rw [mem_store]
    exact Or.inl hi
  cases value with
  | number ifmt ivalue => exact hprint (ifmt ivalue)
  | string sfmt svalue => exact hprint (sfmt (svalue.getD a.null))
  | char cvalue =>
    unfold FmtLine.putValue FmtLine.putChar
    dsimp only
    split_ifs
    · rw [mem_store]
      exact Or.inl hi
    · exact hi

end Places

theorem written_foldl (a : EcmfmtArgs) (size : BitVec 64) (values : List FmtValue) (line : FmtLine)
    (i : ℕ) (hi : i ∈ line.written) : i ∈ (values.foldl (FmtLine.putValue a size) line).written := by
  induction values generalizing line with
  | nil => exact hi
  | cons value values ih => exact ih _ (written_putValue a size line value i hi)

/-- All values stay in the array if the line is not longer than it in front of each of them. -/
theorem foldl_inside_iff (a : EcmfmtArgs) (size : BitVec 64) (values : List FmtValue) (line : FmtLine)
    (hs : line.s < 2 ^ 32) (hin : ∀ i ∈ line.written, i < size.toNat) :
    (∀ i ∈ (values.foldl (FmtLine.putValue a size) line).written, i < size.toNat) ↔
      ∀ k < values.length,
        (values.take k).foldl (FmtValue.grow a size.toNat) line.s ≤ size.toNat := by
  induction values generalizing line with
  | nil => simpa using hin
  | cons value values ih =>
    by_cases hle : line.s ≤ size.toNat
    · obtain ⟨hgrow, hput⟩ := putValue_of_le a size line value hle hs
      have hrest := ih _ (putValue_s_lt a size line value hs) (hput hin)
      rw [hgrow] at hrest
      rw [List.foldl_cons, hrest]
      constructor
      · intro h k hk
        cases k with
        | zero => exact hle
        | succ k => exact h k (by simpa using hk)
      · intro h k hk
        exact h (k + 1) (by simpa using hk)
    · have hout := putValue_of_lt a size line value (by omega) hs
      constructor
      · intro h
        have := h line.s (written_foldl a size values _ line.s hout)
        omega
      · intro h
        exact absurd (h 0 (by simp)) hle

/-- What the loop writes, and the two conditions: all of it stays in the array if in front of each value
the line is at most as long as the array, and a prefix is for the next field alone if no prefix is kept
behind a field that is shown up to one that it hides. -/
theorem ecmfmt_iff (a : EcmfmtArgs) (fmt : List Char) (size : BitVec 64) (result : ℕ → Char) :
    ecmfmt a (some fmt) size result =
      (shownValues a (fmtTokens fmt) false).foldl (FmtLine.putValue a size) ⟨result, 0, []⟩ ∧
    ((∀ i ∈ (ecmfmt a (some fmt) size result).written, i < size.toNat) ↔
      ∀ k < (shownValues a (fmtTokens fmt) false).length,
        lineLength a size.toNat ((shownValues a (fmtTokens fmt) false).take k) ≤ size.toNat) ∧
    (shownValues a (fmtTokens fmt) false = prefixedValues a (fmtTokens fmt) false ↔
      ¬CarriesOn a (fmtTokens fmt)) := by
  have hloop : ecmfmt a (some fmt) size result =
      (shownValues a (fmtTokens fmt) false).foldl (FmtLine.putValue a size) ⟨result, 0, []⟩ :=
    ecmfmtLoop_eq a size fmt false ⟨result, 0, []⟩
  refine ⟨hloop, ?_, (shownValues_eq_iff a (fmtTokens fmt)).1⟩
  rw [hloop]
  exact foldl_inside_iff a size _ ⟨result, 0, []⟩ (Nat.two_pow_pos 32) (by simp)

/-- A request of caid 0500 without a provider. -/
def noProvider : EcmfmtArgs :=
  { caid := 0x0500, onid := 0, prid := 0, chid := 0, pid := 0, srvid := 0x1234, l := 0x80,
    ecmd5hex := none, csphash := none, cw := none, originPeer := 0, distance := 0, payload := none,
    tier := none, null := "(null)".toList }

/-- `cc` in an array of two bytes is written behind it, and the prefix of `0cp` hides the provider. -/
theorem written_behind_and_carried :
    (4 ∈ (ecmfmt noProvider (some ['c', 'c']) 2 fun _ => '\x00').written) ∧
    shownValues noProvider (fmtTokens ['0', 'c', 'p']) false ≠
      prefixedValues noProvider (fmtTokens ['0', 'c', 'p']) false := by
  constructor
  · decide
  · rw [Ne, (shownValues_eq_iff noProvider _).1, not_not]
    refine ⟨[], [.field 'c', .field 'p'], by decide, 'c', ['p'], by decide, by decide, 'p', ?_⟩
    decide

end NCam.Ecm
