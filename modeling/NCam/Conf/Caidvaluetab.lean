import NCam.Conf.Caidtab
import NCam.Util.Decimal

/-! The values by caid: `chk_caidvaluetab` reads a setting, `mk_t_caidvaluetab` writes it back. -/
namespace NCam.Conf

open NCam.Util NCam.Cacheex.FeatureTrigger

/-- The `int` that the C library's `atoi` makes of a written number, which C defines for the numbers of the type
only. -/
structure AtoiLib where
  value : ℤ → ℤ
  value_of_int : ∀ n, -2 ^ 31 ≤ n → n < 2 ^ 31 → value n = n

/-- A library that takes the number as it is. -/
def AtoiLib.exact : AtoiLib := ⟨id, fun _ _ _ => rfl⟩

/-- One `caid:value`. -/
def chkCaidvalue (lib : AtoiLib) (ptr : List Char) : Option CaidvaluetabData :=
  match cutAt ':' ptr with
  | (_, none) => none
  | (caid, some value) =>
    let d : CaidvaluetabData := ⟨(a2i caid 2).setWidth 16, .ofInt 16 (lib.value (atoi value))⟩
    if a2iValid caid 2 ∧ d.caid ≠ 0 ∧ d.value < 10000 then some d else none

def chkCaidvaluetab (lib : AtoiLib) (value : List Char) : Caidvaluetab :=
  (strtok ',' value).filterMap (chkCaidvalue lib)

/-- The texts of the `snprintf` calls for one entry. -/
def printCaidvalue (comma : List Char) (d : CaidvaluetabData) : List (List Char) :=
  [comma ++ printfHex (if d.caid.toNat < 0x0100 then 2 else 4) (d.caid.setWidth 32) ++
    ':' :: printfDec d.value.toNat]

/-- The text that `mk_t_caidvaluetab` leaves in its buffer, unless it writes behind it. -/
def mkTCaidvaluetab (caidvaluetab : Caidvaluetab) : Option (List Char) :=
  match caidvaluetab with
  | [] => some []
  | d :: ds => snprintfs (12 * caidvaluetab.length) (printCaidvalue [] d ++ ds.flatMap (printCaidvalue [','])) 0 []

/-- The number written behind the colon. -/
def writtenValue (ptr : List Char) : ℤ := ((cutAt ':' ptr).2.map atoi).getD 0

/-- The entry has a colon, and a caid before it. -/
def HasCaid (ptr : List Char) : Prop :=
  (cutAt ':' ptr).2 ≠ none ∧ a2iValid (cutAt ':' ptr).1 2 = true ∧ (a2i (cutAt ':' ptr).1 2).setWidth 16 ≠ (0 : BitVec 16)

/-- Every entry kept has the number that was written, below 10000; the table is written and read back as
itself. -/
def CaidvaluesRead (lib : AtoiLib) (value : List Char) : Prop :=
  (∀ ptr ∈ strtok ',' value, ∀ d, chkCaidvalue lib ptr = some d →
      (d.value.toNat : ℤ) = writtenValue ptr ∧ writtenValue ptr < 10000) ∧
    ∃ text, mkTCaidvaluetab (chkCaidvaluetab lib value) = some text ∧
      chkCaidvaluetab lib text = chkCaidvaluetab lib value

section Entry

variable {lib : AtoiLib} {d : CaidvaluetabData} {ptr value : List Char}

private theorem toNat_ofInt16 (n : ℤ) : ((BitVec.ofInt 16 n).toNat : ℤ) = n % 65536 := by
  rw [BitVec.toNat_ofInt]
  omega

/-- What is kept: the low sixteen bits of the number, if they are below 10000. -/
theorem chkCaidvalue_iff : chkCaidvalue lib ptr = some d ↔ HasCaid ptr ∧ lib.value (writtenValue ptr) % 65536 < 10000 ∧
    d = ⟨(a2i (cutAt ':' ptr).1 2).setWidth 16, .ofInt 16 (lib.value (writtenValue ptr))⟩ := by
  unfold chkCaidvalue HasCaid writtenValue
  obtain ⟨caid, value⟩ := cutAt ':' ptr
  cases value with
  | none => simp
  | some value =>
    have hlt : ∀ x : BitVec 16, x < 10000 ↔ (x.toNat : ℤ) < 10000 := by
      intro x
      rw [BitVec.lt_def]
      exact Int.ofNat_lt.symm
    dsimp only
    rw [Option.ite_none_right_eq_some, hlt, toNat_ofInt16]
    simp only [Option.map_some, Option.getD_some, ne_eq, reduceCtorEq, not_false_eq_true, true_and,
      Option.some.injEq, and_assoc, eq_comm (b := d)]

/-- An entry that is kept has its own number, or one that the narrowing made small. -/
private theorem entry_iff : (∀ d, chkCaidvalue lib ptr = some d →
      (d.value.toNat : ℤ) = writtenValue ptr ∧ writtenValue ptr < 10000) ↔
    (HasCaid ptr → (0 ≤ writtenValue ptr ∧ writtenValue ptr < 10000) ∨
      10000 ≤ lib.value (writtenValue ptr) % 65536) := by
  simp only [chkCaidvalue_iff]
  constructor
  · intro h hcaid
    by_cases hbig : 10000 ≤ lib.value (writtenValue ptr) % 65536
    · exact Or.inr hbig
    · obtain ⟨hvalue, hlt⟩ := h _ ⟨hcaid, by omega, rfl⟩
      rw [toNat_ofInt16] at hvalue
      exact Or.inl ⟨by omega, hlt⟩
  · rintro h d ⟨hcaid, hsmall, rfl⟩
    rcases h hcaid with ⟨hzero, hlt⟩ | hbig
    · have hint := lib.value_of_int (writtenValue ptr) (by omega) (by omega)
      refine ⟨?_, hlt⟩
      dsimp only
      rw [toNat_ofInt16, hint]
      omega
    · omega

theorem chkCaidvaluetab_small : ∀ d ∈ chkCaidvaluetab lib value, d.caid ≠ 0 ∧ d.value.toNat < 10000 := by
  intro d hd
  obtain ⟨ptr, -, hchk⟩ := List.mem_filterMap.mp hd
  obtain ⟨hcaid, hsmall, rfl⟩ := chkCaidvalue_iff.mp hchk
  refine ⟨hcaid.2.2, ?_⟩
  have hvalue := toNat_ofInt16 (lib.value (writtenValue ptr))
  dsimp only
  omega

/-- The digits of the caid: two if it is below 0x0100. -/
def caidvalueDigits (d : CaidvaluetabData) : ℕ := if d.caid.toNat < 0x0100 then 2 else 4

/-- One entry as it is written. -/
def caidvalueText (d : CaidvaluetabData) : List Char :=
  hexText (caidvalueDigits d) (d.caid.setWidth 32) ++ ':' :: printfDec d.value.toNat

private theorem caidvalueDigits_lt : (d.caid.setWidth 32).toNat < 16 ^ caidvalueDigits d ∧ caidvalueDigits d ≤ 4 := by
  unfold caidvalueDigits
  split_ifs with hsmall
  · rw [BitVec.toNat_setWidth_of_le (by omega)]
    exact ⟨by omega, by omega⟩
  · exact ⟨toNat_caid, by omega⟩

theorem flatten_printCaidvalue (comma : List Char) :
    (printCaidvalue comma d).flatten = comma ++ caidvalueText d := by
  have hdigits := @caidvalueDigits_lt d
  have hcaid : printfHex (if d.caid.toNat < 0x0100 then 2 else 4) (d.caid.setWidth 32) =
      hexText (caidvalueDigits d) (d.caid.setWidth 32) := by
    show printfHex (caidvalueDigits d) _ = _
    rw [printfHex_eq (by omega), hexWidth_of_lt (by omega) hdigits.1]
  unfold printCaidvalue caidvalueText
  rw [List.flatten_singleton, hcaid, List.append_assoc]

theorem length_caidvalueText : (caidvalueText d).length ≤ 10 := by
  have hdigits := (@caidvalueDigits_lt d).2
  have hvalue : (printfDec d.value.toNat).length ≤ 5 := by
    unfold printfDec
    rw [if_neg (by omega), Int.natAbs_natCast, Nat.length_toDigits_le_iff (by omega) (by omega)]
    have hlt := d.value.isLt
    omega
  unfold caidvalueText
  rw [List.length_append, List.length_cons, length_hexText]
  omega

private theorem isToken_caidvalueText : caidvalueText d ≠ [] ∧ ',' ∉ caidvalueText d := by
  unfold caidvalueText
  refine ⟨by simp, ?_⟩
  rw [List.mem_append, List.mem_cons, not_or, not_or]
  exact ⟨notMem_hexText rfl, by decide, notMem_printfDec rfl (by decide)⟩

/-- Reading one written entry. -/
theorem chkCaidvalue_caidvalueText (hcaid : d.caid ≠ 0) (hvalue : d.value.toNat < 10000) :
    chkCaidvalue lib (caidvalueText d) = some d := by
  have hcut : cutAt ':' (caidvalueText d) =
      (hexText (caidvalueDigits d) (d.caid.setWidth 32), some (printfDec d.value.toNat)) :=
    cutAt_append (notMem_hexText rfl)
  have hread : (a2i (hexText (caidvalueDigits d) (d.caid.setWidth 32)) 2).setWidth 16 = d.caid :=
    read_caid caidvalueDigits_lt.2 caidvalueDigits_lt.1
  have hwritten : writtenValue (caidvalueText d) = d.value.toNat := by
    unfold writtenValue
    rw [hcut, Option.map_some, Option.getD_some, atoi_printfDec]
  have hint := lib.value_of_int d.value.toNat (by omega) (by omega)
  rw [chkCaidvalue_iff, hwritten, hint]
  refine ⟨⟨?_, ?_, ?_⟩, by omega, ?_⟩
  · simp [hcut]
  · rw [hcut]
    exact a2iValid_hexText
  · rw [hcut, hread]
    exact hcaid
  · rw [hcut, hread]
    simp

end Entry

section Table

variable {lib : AtoiLib} {caidvaluetab : Caidvaluetab}

/-- The buffer holds the whole text. -/
theorem mkTCaidvaluetab_eq :
    mkTCaidvaluetab caidvaluetab = some (joinTokens ',' (caidvaluetab.map caidvalueText)) := by
  cases caidvaluetab with
  | nil => rfl
  | cons d ds =>
    have hlen : ∀ e ∈ d :: ds, (caidvalueText e).length ≤ 11 := by
      intro e _
      have he := @length_caidvalueText e
      omega
    exact snprintfs_entries (fun comma e => flatten_printCaidvalue comma) hlen

theorem chkCaidvaluetab_joinTokens (h : ∀ d ∈ caidvaluetab, d.caid ≠ 0 ∧ d.value.toNat < 10000) :
    chkCaidvaluetab lib (joinTokens ',' (caidvaluetab.map caidvalueText)) = caidvaluetab := by
  apply parse_joinTokens
  · intro t ht
    obtain ⟨d, -, rfl⟩ := List.mem_map.mp ht
    exact isToken_caidvalueText
  · rw [List.map_map]
    exact List.map_congr_left fun d hd => chkCaidvalue_caidvalueText (h d hd).1 (h d hd).2

/-- The values are kept as written exactly where no number from 10000 on, and no negative one, is below 10000
once it has sixteen bits. -/
theorem caidvaluesRead_iff (lib : AtoiLib) (value : List Char) : CaidvaluesRead lib value ↔
    ∀ ptr ∈ strtok ',' value, HasCaid ptr → (0 ≤ writtenValue ptr ∧ writtenValue ptr < 10000) ∨
      10000 ≤ lib.value (writtenValue ptr) % 65536 := by
  have hagain : ∃ text, mkTCaidvaluetab (chkCaidvaluetab lib value) = some text ∧
      chkCaidvaluetab lib text = chkCaidvaluetab lib value :=
    ⟨_, mkTCaidvaluetab_eq, chkCaidvaluetab_joinTokens chkCaidvaluetab_small⟩
  unfold CaidvaluesRead
  rw [and_iff_left hagain]
  exact forall₂_congr fun ptr _ => entry_iff

/-- 65537 is kept as 1. -/
theorem large_value_kept : ¬ ∀ (lib : AtoiLib) (value : List Char), CaidvaluesRead lib value := by
  intro h
  have htokens : strtok ',' "0500:65537".toList = ["0500:65537".toList] := by decide +kernel
  have hkept : chkCaidvalue .exact "0500:65537".toList = some ⟨0x0500, 1⟩ := by decide +kernel
  have hmem : "0500:65537".toList ∈ strtok ',' "0500:65537".toList := by
    rw [htokens]
    exact List.mem_singleton.mpr rfl
  have hwritten := ((h .exact "0500:65537".toList).1 "0500:65537".toList hmem _ hkept).1
  have hnumber : writtenValue "0500:65537".toList = 65537 := by decide +kernel
  rw [hnumber] at hwritten
  cases hwritten

end Table

end NCam.Conf
