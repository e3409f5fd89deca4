import NCam.Util.Printf
import NCam.Ecm.Request
import NCam.Cacheex.FeatureConfig

/-! The caid table: `chk_caidtab` reads a setting, `mk_t_caidtab` writes it back. -/
namespace NCam.Conf

open NCam.Util NCam.Ecm NCam.Cacheex.FeatureTrigger

deriving instance DecidableEq for CaidtabData

abbrev Caidtab := List CaidtabData

/-- One `caid&mask:cmap`. -/
def chkCaid (ptr : List Char) : Option CaidtabData :=
  let (ptr, cmap) := cutAt ':' ptr
  let (ptr, mask) := cutAt '&' ptr
  let d : CaidtabData := ⟨(a2i ptr 2).setWidth 16, mask.elim 0xffff fun mask => (a2i mask 2).setWidth 16,
    cmap.elim 0 fun cmap => (a2i cmap 2).setWidth 16⟩
  if cmap.all (a2iValid · 2) ∧ mask.all (a2iValid · 2) ∧ a2iValid ptr 2 ∧ (d.caid ≠ 0 ∨ d.cmap ≠ 0) then
    some d
  else none

def chkCaidtab (value : List Char) : Caidtab := (strtok ',' value).filterMap chkCaid

/-- The texts of the `snprintf` calls for one entry. -/
def printCaid (comma : List Char) (d : CaidtabData) : List (List Char) :=
  [comma ++ printfHex (if d.caid.toNat < 0x0100 then 2 else 4) (d.caid.setWidth 32)] ++
    ((if d.mask ≠ 0 ∧ d.mask ≠ 0xffff then ['&' :: printfHex 4 (d.mask.setWidth 32)] else []) ++
      if d.cmap ≠ 0 then [':' :: printfHex 4 (d.cmap.setWidth 32)] else [])

/-- The text that `mk_t_caidtab` leaves in its buffer, unless it writes behind it. -/
def mkTCaidtab (caidtab : Caidtab) : Option (List Char) :=
  match caidtab with
  | [] => some []
  | d :: ds =>
    snprintfs (16 * caidtab.length) (printCaid [] d ++ ds.flatMap (printCaid [','])) 0 []

/-- A zero mask is not written, and an entry without one is read with a full mask. -/
def maskedAgain (d : CaidtabData) : CaidtabData :=
  { d with mask := if d.mask = 0 then 0xffff else d.mask }

/-- An entry that `chk_caidtab` adds. -/
def Kept (d : CaidtabData) : Prop := d.caid ≠ 0 ∨ d.cmap ≠ 0

/-- Entries with a comma before every one but the first fill a buffer of `width + 1` bytes for each. -/
theorem snprintfs_entries {α : Type} {print : List Char → α → List (List Char)} {text : α → List Char}
    {width : ℕ} {d : α} {ds : List α} (htext : ∀ comma e, (print comma e).flatten = comma ++ text e)
    (hlen : ∀ e ∈ d :: ds, (text e).length ≤ width) :
    snprintfs ((width + 1) * (ds.length + 1)) (print [] d ++ ds.flatMap (print [','])) 0 [] =
      some (joinTokens ',' ((d :: ds).map text)) := by
  have hflat : (print [] d ++ ds.flatMap (print [','])).flatten = joinTokens ',' ((d :: ds).map text) := by
    have hrest : (ds.flatMap (print [','])).flatten = ((ds.map text).map fun t => ',' :: t).flatten := by
      clear hlen
      induction ds with
      | nil => rfl
      | cons e ds ih =>
        rw [List.flatMap_cons, List.flatten_append, ih, htext]
        rfl
    rw [List.map_cons, joinTokens_cons, List.flatten_append, htext, hrest, List.nil_append]
  have hwhole : (joinTokens ',' ((d :: ds).map text)).length + 1 ≤ (width + 1) * (ds.length + 1) := by
    have hwidth : ∀ t ∈ (d :: ds).map text, t.length ≤ width := by
      intro t ht
      obtain ⟨e, he, rfl⟩ := List.mem_map.mp ht
      exact hlen e he
    have hle := lastStart_le hwidth
    rw [List.length_map, List.length_cons] at hle
    have hstart := @length_joinTokens_succ ',' ((d :: ds).map text) (List.cons_ne_nil _ _)
    omega
  have hlast : (print [] d ++ ds.flatMap (print [','])).dropLast.flatten.length ≤
      (joinTokens ',' ((d :: ds).map text)).length := by
    rw [← hflat]
    exact ((List.dropLast_sublist _).flatten).length_le
  obtain ⟨buf, hbuf⟩ := @snprintfs_isSome ((width + 1) * (ds.length + 1)) 0 []
    (print [] d ++ ds.flatMap (print [','])) (by omega)
  have htake := @snprintfs_eq_take _ 0 [] [] _ _ rfl List.take_nil.symm hbuf
  rw [hbuf, htake, List.nil_append, hflat, List.take_of_length_le (by omega)]

section Entry

variable {d : CaidtabData} {value : List Char} {v : BitVec 16} {n bytes : ℕ} {w : BitVec 32}

theorem a2iValid_hexText : a2iValid (hexText n w) bytes = true := by
  unfold a2iValid
  rw [trim_of_noBlank isBlank_hexText, List.all_eq_true]
  intro c hc
  obtain ⟨k, -, rfl⟩ := List.mem_map.mp (List.mem_reverse.mp (List.mem_of_mem_take hc))
  rw [gethexval_hexDigit]
  rfl

theorem toNat_caid : (v.setWidth 32).toNat < 16 ^ 4 := by
  rw [BitVec.toNat_setWidth_of_le (by omega)]
  exact v.isLt

theorem read_caid (hn : n ≤ 4) (hv : (v.setWidth 32).toNat < 16 ^ n) :
    (a2i (hexText n (v.setWidth 32)) 2).setWidth 16 = v := by
  have hmin : min (2 <<< 1) n = n := Nat.min_eq_right (by omega)
  change (a2i (hexText n (v.setWidth 32)) ((2 : ℕ) : ℤ)).setWidth 16 = v
  rw [a2i_hexText (by omega), hmin, Nat.mod_eq_of_lt hv, BitVec.ofNat_toNat]
  simp

theorem chkCaidtab_kept : ∀ d ∈ chkCaidtab value, Kept d := by
  intro d hd
  obtain ⟨ptr, -, hchk⟩ := List.mem_filterMap.mp hd
  unfold chkCaid at hchk
  dsimp only at hchk
  rw [Option.ite_none_right_eq_some] at hchk
  rw [← Option.some.inj hchk.2]
  exact hchk.1.2.2.2

/-- The digits of the caid: two if it is below 0x0100. -/
def caidDigits (d : CaidtabData) : ℕ := if d.caid.toNat < 0x0100 then 2 else 4

theorem toNat_caid_lt : (d.caid.setWidth 32).toNat < 16 ^ caidDigits d := by
  unfold caidDigits
  split_ifs with hsmall
  · rw [BitVec.toNat_setWidth_of_le (by omega)]
    omega
  · exact toNat_caid

theorem caidDigits_le : caidDigits d ≤ 4 := by
  unfold caidDigits
  split_ifs <;> omega

/-- The mask and the mapped caid behind the caid. -/
def maskText (d : CaidtabData) : List Char :=
  if d.mask ≠ 0 ∧ d.mask ≠ 0xffff then '&' :: hexText 4 (d.mask.setWidth 32) else []

def cmapText (d : CaidtabData) : List Char :=
  if d.cmap ≠ 0 then ':' :: hexText 4 (d.cmap.setWidth 32) else []

/-- One entry as it is written. -/
def caidText (d : CaidtabData) : List Char :=
  hexText (caidDigits d) (d.caid.setWidth 32) ++ maskText d ++ cmapText d

theorem flatten_printCaid (comma : List Char) :
    (printCaid comma d).flatten = comma ++ caidText d := by
  have hcaid : printfHex (if d.caid.toNat < 0x0100 then 2 else 4) (d.caid.setWidth 32) =
      hexText (caidDigits d) (d.caid.setWidth 32) := by
    change printfHex (caidDigits d) _ = _
    have hle := @caidDigits_le d
    rw [printfHex_eq (by omega), hexWidth_of_lt (by omega) toNat_caid_lt]
  have hfour : ∀ v : BitVec 16, printfHex 4 (v.setWidth 32) = hexText 4 (v.setWidth 32) := by
    intro v
    rw [printfHex_eq (by omega), hexWidth_of_lt (by omega) toNat_caid]
  unfold printCaid caidText maskText cmapText
  rw [hcaid, hfour, hfour, List.flatten_append, List.flatten_append, List.flatten_singleton,
    List.append_assoc, List.append_assoc]
  split_ifs <;> simp

theorem length_caidText : (caidText d).length ≤ 14 := by
  have hle := @caidDigits_le d
  have hmask : (maskText d).length ≤ 5 := by
    unfold maskText
    split_ifs
    · rw [List.length_cons, length_hexText]
    · exact Nat.zero_le 5
  have hcmap : (cmapText d).length ≤ 5 := by
    unfold cmapText
    split_ifs
    · rw [List.length_cons, length_hexText]
    · exact Nat.zero_le 5
  unfold caidText
  rw [List.length_append, List.length_append, length_hexText]
  omega

private theorem notMem_maskText {c : Char} (hc : gethexval c = none) (hne : c ≠ '&') :
    c ∉ maskText d := by
  unfold maskText
  split_ifs
  · rw [List.mem_cons, not_or]
    exact ⟨hne, notMem_hexText hc⟩
  · exact List.not_mem_nil

theorem isToken_caidText : caidText d ≠ [] ∧ ',' ∉ caidText d := by
  have hcmap : ',' ∉ cmapText d := by
    unfold cmapText
    split_ifs
    · rw [List.mem_cons, not_or]
      exact ⟨by decide, notMem_hexText rfl⟩
    · exact List.not_mem_nil
  constructor
  · intro hnil
    have hlen := congrArg List.length hnil
    unfold caidText at hlen
    rw [List.length_append, List.length_append, length_hexText, List.length_nil] at hlen
    unfold caidDigits at hlen
    split_ifs at hlen <;> omega
  · unfold caidText
    rw [List.mem_append, List.mem_append, not_or, not_or]
    exact ⟨⟨notMem_hexText rfl, notMem_maskText rfl (by decide)⟩, hcmap⟩

/-- Reading one written entry. -/
theorem chkCaid_caidText (h : Kept d) : chkCaid (caidText d) = some (maskedAgain d) := by
  have hbefore : ':' ∉ hexText (caidDigits d) (d.caid.setWidth 32) ++ maskText d := by
    rw [List.mem_append, not_or]
    exact ⟨notMem_hexText rfl, notMem_maskText rfl (by decide)⟩
  have hcaid : '&' ∉ hexText (caidDigits d) (d.caid.setWidth 32) := notMem_hexText rfl
  have hcmap : cutAt ':' (caidText d) =
      (hexText (caidDigits d) (d.caid.setWidth 32) ++ maskText d,
        if d.cmap ≠ 0 then some (hexText 4 (d.cmap.setWidth 32)) else none) := by
    unfold caidText cmapText
    split_ifs with hzero
    · exact cutAt_append hbefore
    · rw [List.append_nil]
      exact cutAt_of_notMem hbefore
  have hmask : cutAt '&' (hexText (caidDigits d) (d.caid.setWidth 32) ++ maskText d) =
      (hexText (caidDigits d) (d.caid.setWidth 32),
        if d.mask ≠ 0 ∧ d.mask ≠ 0xffff then some (hexText 4 (d.mask.setWidth 32)) else none) := by
    unfold maskText
    split_ifs with hfull
    · exact cutAt_append hcaid
    · rw [List.append_nil]
      exact cutAt_of_notMem hcaid
  have hread : ∀ v : BitVec 16, (a2i (hexText 4 (v.setWidth 32)) 2).setWidth 16 = v :=
    fun v => read_caid (by omega) toNat_caid
  have hself : (a2i (hexText (caidDigits d) (d.caid.setWidth 32)) 2).setWidth 16 = d.caid :=
    read_caid caidDigits_le toNat_caid_lt
  unfold chkCaid
  rw [hcmap]
  dsimp only
  rw [hmask]
  dsimp only
  have hcmap' : (if d.cmap ≠ 0 then some (hexText 4 (d.cmap.setWidth 32)) else none).elim 0
      (fun cmap => (a2i cmap 2).setWidth 16) = d.cmap := by
    split_ifs with hzero
    · exact hread d.cmap
    · exact (not_not.mp hzero).symm
  have hmask' : (if d.mask ≠ 0 ∧ d.mask ≠ 0xffff then some (hexText 4 (d.mask.setWidth 32))
      else none).elim 0xffff (fun mask => (a2i mask 2).setWidth 16) = (maskedAgain d).mask := by
    unfold maskedAgain
    split_ifs with hfull hzero hzero
    · exact absurd hzero hfull.1
    · exact hread d.mask
    · rfl
    · by_contra hne
      exact hfull ⟨hzero, fun heq => hne heq.symm⟩
  rw [hself, hcmap', hmask', if_pos]
  · rfl
  · refine ⟨?_, ?_, a2iValid_hexText, h⟩
    · split_ifs
      · exact a2iValid_hexText
      · rfl
    · split_ifs
      · exact a2iValid_hexText
      · rfl

end Entry

section Table

variable {caidtab : Caidtab}

/-- The buffer holds the whole text. -/
theorem mkTCaidtab_eq : mkTCaidtab caidtab = some (joinTokens ',' (caidtab.map caidText)) := by
  cases caidtab with
  | nil => rfl
  | cons d ds =>
    have hlen : ∀ e ∈ d :: ds, (caidText e).length ≤ 15 := by
      intro e _
      have he := @length_caidText e
      omega
    exact snprintfs_entries (fun comma e => flatten_printCaid comma) hlen

/-- The table read back: full masks in place of zero ones. -/
theorem chkCaidtab_joinTokens (h : ∀ d ∈ caidtab, Kept d) :
    chkCaidtab (joinTokens ',' (caidtab.map caidText)) = caidtab.map maskedAgain := by
  apply parse_joinTokens
  · intro t ht
    obtain ⟨d, -, rfl⟩ := List.mem_map.mp ht
    exact isToken_caidText
  · rw [List.map_map, List.map_map]
    exact List.map_congr_left fun d hd => chkCaid_caidText (h d hd)

theorem map_maskedAgain_eq : caidtab.map maskedAgain = caidtab ↔ ∀ d ∈ caidtab, d.mask ≠ 0 := by
  have hone : ∀ d : CaidtabData, maskedAgain d = d ↔ d.mask ≠ 0 := by
    intro d
    constructor
    · intro heq hzero
      have hmask := congrArg CaidtabData.mask heq
      unfold maskedAgain at hmask
      rw [if_pos hzero, hzero] at hmask
      change (0xffff : Caid) = 0 at hmask
      exact absurd hmask (by decide)
    · intro hne
      unfold maskedAgain
      rw [if_neg hne]
  have hmap := List.map_inj_left (f := maskedAgain) (g := id) (l := caidtab)
  rw [List.map_id] at hmap
  rw [hmap]
  exact forall₂_congr fun d _ => hone d

/-- A setting is written inside the buffer, and it is read back as the same table exactly if it has no
entry with a zero mask. -/
theorem mkTCaidtab_chkCaidtab (s : List Char) :
    ∃ text, mkTCaidtab (chkCaidtab s) = some text ∧
      (chkCaidtab text = chkCaidtab s ↔ ∀ d ∈ chkCaidtab s, d.mask ≠ 0) := by
  refine ⟨_, mkTCaidtab_eq, ?_⟩
  rw [chkCaidtab_joinTokens chkCaidtab_kept, map_maskedAgain_eq]

/-- The caid 0500 with the mask 0 is written without a mask. -/
theorem zero_mask_not_written :
    ¬ ∃ text, mkTCaidtab (chkCaidtab ['0', '5', '0', '0', '&', '0']) = some text ∧
      chkCaidtab text = chkCaidtab ['0', '5', '0', '0', '&', '0'] := by
  have hparse : chkCaidtab ['0', '5', '0', '0', '&', '0'] = [⟨0x0500, 0, 0⟩] := by decide +kernel
  have hprint : mkTCaidtab [⟨0x0500, 0, 0⟩] = some ['0', '5', '0', '0'] := by decide +kernel
  have hagain : chkCaidtab ['0', '5', '0', '0'] ≠ [⟨0x0500, 0, 0⟩] := by decide +kernel
  rw [hparse]
  rintro ⟨text, htext, hsame⟩
  rw [hprint] at htext
  rw [← Option.some.inj htext] at hsame
  exact hagain hsame

end Table

end NCam.Conf
