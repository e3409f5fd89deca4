import NCam.Conf.Whitelist
import NCam.Util.HexBytes

/-! The ECM whitelist and the header whitelist: `mk_t_ecm_whitelist` and `mk_t_ecm_hdr_whitelist` write what
`chk_ecm_whitelist` and `chk_ecm_hdr_whitelist` have read. -/
namespace NCam.Conf

open NCam.Util

structure EcmWhitelistData where
  len : BitVec 16
  caid : BitVec 16
  ident : BitVec 32
  deriving DecidableEq

def EcmWhitelistData.key (d : EcmWhitelistData) : WhitelistKey := ⟨d.caid, d.ident⟩

def chkLen (k : WhitelistKey) (lenPtr : List Char) : Option EcmWhitelistData :=
  let len := (dynWordAtob lenPtr).setWidth 16
  if len = 0xffff then none else some ⟨len, k.caid, k.ident⟩

def chkEcmWhitelist (value : List Char) : List EcmWhitelistData :=
  chkWhitelist (fun k headers => (strtok ',' headers).filterMap (chkLen k)) value

def printLen (comma : List Char) (cur : EcmWhitelistData) : List (List Char) :=
  [comma ++ printfHex 2 (cur.len.setWidth 32)]

/-- The text that `mk_t_ecm_whitelist` leaves in its buffer, unless it writes behind it. -/
def mkTEcmWhitelist (ewdata : List EcmWhitelistData) : Option (List Char) :=
  if ewdata.isEmpty = true then some []
  else snprintfs (16 * ewdata.length) (printWhitelist EcmWhitelistData.key printLen ewdata) 0 []

/-- The digits that are printed of a length. -/
def lenDigits (d : EcmWhitelistData) : ℕ :=
  if d.len.toNat < 0x100 then 2 else if d.len.toNat < 0x1000 then 3 else 4

/-- How many bytes the buffer is too short. -/
def missing (ds : List EcmWhitelistData) : ℕ :=
  needed EcmWhitelistData.key lenDigits none ds - 16 * ds.length

/-- An entry without the last `m` digits of its length. -/
def shortened (d : EcmWhitelistData) (m : ℕ) : List EcmWhitelistData :=
  if m < lenDigits d then [{ d with len := d.len >>> (4 * m) }] else []

/-- The caid at the end of the text is taken for a length. -/
def keyAlone (d : EcmWhitelistData) : List EcmWhitelistData :=
  if d.caid ≠ 0 then [⟨d.caid, 0, 0⟩] else []

/-- The entries that are left if the last `m` characters are missing: at most those of the last length, the
separator or the colon before it, and the last digit of the length before that separator. -/
def remains (ds : List EcmWhitelistData) (m : ℕ) : Option (List EcmWhitelistData) :=
  ds.getLast?.elim (some []) fun d =>
    if m ≤ lenDigits d then some (ds.dropLast ++ shortened d m)
    else if ds.dropLast.getLast?.map (·.key) = some d.key then
      if m = lenDigits d + 1 then some ds.dropLast
      else if m = lenDigits d + 2 then
        some (ds.dropLast.dropLast ++ ds.dropLast.getLast?.elim [] (shortened · 1))
      else none
    else if m = lenDigits d + 1 then some (ds.dropLast ++ keyAlone d) else none

/-- An entry that `chk_ecm_whitelist` adds. -/
def EcmWhitelistData.Kept (d : EcmWhitelistData) : Prop := d.key.Kept ∧ d.len ≠ 0xffff

section Entry

variable {d : EcmWhitelistData} {k : WhitelistKey} {m n : ℕ} {v : BitVec 16} {value : List Char}

private theorem hexWidth_len : hexWidth 2 (d.len.setWidth 32) = lenDigits d := by
  have hval : (d.len.setWidth 32).toNat = d.len.toNat := BitVec.toNat_setWidth_of_le (by omega)
  have h2 := @length_hexDigits_le_iff (d.len.setWidth 32) 2 (by omega)
  have h3 := @length_hexDigits_le_iff (d.len.setWidth 32) 3 (by omega)
  have h4 := @length_hexDigits_le_iff (d.len.setWidth 32) 4 (by omega)
  have hfour := (h4.mpr toNat_caid)
  rw [hval] at h2 h3
  unfold hexWidth lenDigits
  split_ifs with htwo hthree <;> omega

private theorem lenText_eq : printfHex 2 (d.len.setWidth 32) = hexText (lenDigits d) (d.len.setWidth 32) := by
  rw [printfHex_eq (by omega), hexWidth_len]

theorem lenDigits_bounds : 2 ≤ lenDigits d ∧ lenDigits d ≤ 4 := by
  unfold lenDigits
  split_ifs <;> omega

private theorem toNat_len_lt : d.len.toNat < 16 ^ lenDigits d := by
  have := d.len.isLt
  unfold lenDigits
  split_ifs <;> omega

/-- Reading the first digits of a length. -/
private theorem chkLen_hexText (hn : 0 < n) (hn4 : n ≤ 4) (hv : v.toNat < 16 ^ n) (hne : v ≠ 0xffff) :
    chkLen k (hexText n (v.setWidth 32)) = some ⟨v, k.caid, k.ident⟩ := by
  have hval : (v.setWidth 32).toNat = v.toNat := BitVec.toNat_setWidth_of_le (by omega)
  have hself : (v.setWidth 32).setWidth 16 = v := by simp
  unfold chkLen
  rw [dynWordAtob_hexText hn (by omega) (by rw [hval]; exact hv)]
  dsimp only
  rw [hself, if_neg hne]

private theorem chkLen_take (h : d.len ≠ 0xffff) (hm : m < lenDigits d) :
    chkLen k ((printfHex 2 (d.len.setWidth 32)).take (lenDigits d - m)) =
      some ⟨d.len >>> (4 * m), k.caid, k.ident⟩ := by
  have hbounds := @lenDigits_bounds d
  have hsub : lenDigits d - (lenDigits d - m) = m := by omega
  have hval : (d.len >>> (4 * m)).toNat = d.len.toNat / 16 ^ m := by
    rw [BitVec.toNat_ushiftRight, Nat.shiftRight_eq_div_pow, Nat.pow_mul]
  have hlt : (d.len >>> (4 * m)).toNat < 16 ^ (lenDigits d - m) := by
    rw [hval, Nat.div_lt_iff_lt_mul (Nat.pow_pos (by omega)), ← Nat.pow_add, Nat.sub_add_cancel (by omega)]
    exact toNat_len_lt
  have hne : d.len >>> (4 * m) ≠ 0xffff := by
    intro heq
    by_cases hzero : m = 0
    · rw [hzero, Nat.mul_zero, BitVec.ushiftRight_zero] at heq
      exact h heq
    · have hle : 16 ^ (lenDigits d - m) ≤ 16 ^ 3 := Nat.pow_le_pow_right (by omega) (by omega)
      rw [heq] at hlt
      have hmax : (0xffff : BitVec 16).toNat = 65535 := rfl
      omega
  have hshift : d.len.setWidth 32 >>> (4 * m) = (d.len >>> (4 * m)).setWidth 32 := by
    apply BitVec.eq_of_toNat_eq
    rw [BitVec.toNat_ushiftRight, BitVec.toNat_setWidth_of_le (by omega),
      BitVec.toNat_setWidth_of_le (by omega), BitVec.toNat_ushiftRight]
  rw [lenText_eq, take_hexText (by omega), hsub, hshift, chkLen_hexText (by omega) (by omega) hlt hne]

/-- The whitelist as a list of that kind. -/
def ecmWhitelist : WhitelistFormat EcmWhitelistData EcmWhitelistData where
  key := EcmWhitelistData.key
  print := printLen
  items k headers := (strtok ',' headers).filterMap (chkLen k)
  view := id
  again := id
  item d := printfHex 2 (d.len.setWidth 32)
  parse := chkLen
  flatten_print _ _ := List.flatten_singleton
  items_eq _ _ _ := List.map_id _
  plain_item d c hc := by
    rw [lenText_eq] at hc
    intro hnone
    exact notMem_hexText hnone hc

theorem read_ecmWhitelist : ecmWhitelist.read value = chkEcmWhitelist value := List.map_id _

private theorem length_item : (ecmWhitelist.item d).length = lenDigits d := by
  change (printfHex 2 (d.len.setWidth 32)).length = _
  rw [lenText_eq, length_hexText]

theorem EcmWhitelistData.Kept.read (h : d.Kept) : ecmWhitelist.Kept d := by
  have hbounds := @lenDigits_bounds d
  refine ⟨h.1, ?_, ?_⟩
  · intro hnil
    have hlen := @length_item d
    rw [hnil, List.length_nil] at hlen
    omega
  · have hwhole := @chkLen_take d d.key 0 h.2 (by omega)
    have hall : (printfHex 2 (d.len.setWidth 32)).take (lenDigits d) = printfHex 2 (d.len.setWidth 32) :=
      List.take_of_length_le (Nat.le_of_eq length_item)
    have hparse : ecmWhitelist.parse = chkLen := rfl
    have hitem : ecmWhitelist.item d = printfHex 2 (d.len.setWidth 32) := rfl
    have hkey : ecmWhitelist.key d = d.key := rfl
    have hagain : ecmWhitelist.again d = ⟨d.len, d.key.caid, d.key.ident⟩ := rfl
    rw [Nat.sub_zero, hall, Nat.mul_zero, BitVec.ushiftRight_zero] at hwhole
    rw [hparse, hitem, hkey, hagain, hwhole]

private theorem kept_whitelistKey {caid ident : BitVec 32} : (whitelistKey caid ident).Kept := by
  constructor
  · change (if caid.setWidth 16 = 0xffff then 0 else caid.setWidth 16) ≠ 0xffff
    split_ifs with hone
    · decide
    · exact hone
  · change (if ident = 0xffff then 0 else ident) ≠ 0xffff
    split_ifs with hone
    · decide
    · exact hone

/-- Every key that is read is printed as it is. -/
theorem kept_whitelistPiece {ptr : List Char} : (whitelistPiece ptr).1.Kept := by
  unfold whitelistPiece
  split
  · split
    · exact kept_whitelistKey
    · split <;> exact kept_whitelistKey
  · split <;> exact kept_whitelistKey

theorem chkEcmWhitelist_kept : ∀ d ∈ chkEcmWhitelist value, d.Kept := by
  intro d hd
  obtain ⟨ptr, -, hptr⟩ := List.mem_flatMap.mp hd
  obtain ⟨lenPtr, -, hchk⟩ := List.mem_filterMap.mp hptr
  unfold chkLen at hchk
  dsimp only at hchk
  rw [Option.ite_none_left_eq_some] at hchk
  rw [← Option.some.inj hchk.2]
  exact ⟨kept_whitelistPiece, hchk.1⟩

end Entry

section Table

variable {ds : List EcmWhitelistData} {d : EcmWhitelistData} {m : ℕ}

/-- Each entry with its separator, the last one with the final zero in place of it. -/
theorem length_ecmText (hne : ds ≠ []) :
    (ecmWhitelist.text ds).length + 1 = needed EcmWhitelistData.key lenDigits none ds :=
  WhitelistFormat.length_text (fun _ _ => length_item) hne

/-- The place at which the last length is printed. -/
private theorem length_dropLast_pieces : (printWhitelist ecmWhitelist.key ecmWhitelist.print
    (ds ++ [d])).dropLast.flatten.length + lenDigits d + (if ecmWhitelist.Same ds d then 1 else 0) =
      (ecmWhitelist.text (ds ++ [d])).length := by
  have hitem := @length_item d
  have htext : ∀ comma, (comma ++ printfHex 2 (d.len.setWidth 32)).length = comma.length + lenDigits d := by
    intro comma
    rw [List.length_append]
    exact congrArg _ hitem
  unfold WhitelistFormat.text
  rw [WhitelistFormat.printWhitelist_append]
  by_cases hsame : ecmWhitelist.Same ds d
  · rw [if_pos hsame, if_pos hsame]
    change (printWhitelist _ _ ds ++ [[','] ++ printfHex 2 (d.len.setWidth 32)]).dropLast.flatten.length + _ + _ =
      (printWhitelist _ _ ds ++ [[','] ++ printfHex 2 (d.len.setWidth 32)]).flatten.length
    rw [List.dropLast_concat, List.flatten_append, List.length_append, List.flatten_singleton, htext]
    change _ + _ + 1 = _ + (1 + _)
    omega
  · rw [if_neg hsame, if_neg hsame]
    have hpieces : printWhitelist ecmWhitelist.key ecmWhitelist.print ds ++
        printKey (WhitelistFormat.separator ds) (ecmWhitelist.key d) :: ecmWhitelist.print [] d =
          (printWhitelist ecmWhitelist.key ecmWhitelist.print ds ++
            [printKey (WhitelistFormat.separator ds) (ecmWhitelist.key d)]) ++
              [[] ++ printfHex 2 (d.len.setWidth 32)] := by
      rw [List.append_assoc]
      rfl
    rw [hpieces, List.dropLast_concat]
    generalize printWhitelist ecmWhitelist.key ecmWhitelist.print ds ++
      [printKey (WhitelistFormat.separator ds) (ecmWhitelist.key d)] = pieces
    rw [List.flatten_append, List.length_append, List.flatten_singleton, htext]
    change _ + _ + 0 = _ + (0 + _)
    omega

private theorem read_shortened (h : ∀ x ∈ ds ++ [d], x.Kept) (hm : m ≤ lenDigits d) :
    chkEcmWhitelist ((ecmWhitelist.text (ds ++ [d])).take ((ecmWhitelist.text (ds ++ [d])).length - m)) =
      ds ++ shortened d m := by
  have hd : d.Kept := h d (List.mem_append_right ds List.mem_cons_self)
  have hitem := @length_item d
  have htake := @WhitelistFormat.read_take _ _ ecmWhitelist ds d m (fun x hx => (h x hx).read) (by omega)
  rw [← read_ecmWhitelist, htake, hitem]
  have hself : ds.map ecmWhitelist.again = ds := List.map_id ds
  rw [hself]
  congr 1
  unfold shortened
  by_cases hlt : m < lenDigits d
  · have hread := @chkLen_take d d.key m hd.2 hlt
    rw [if_pos hlt, if_pos hlt]
    exact congrArg Option.toList hread
  · rw [if_neg hlt, if_neg hlt]

/-- The buffer holds the text up to the characters that are missing, if the last length has a place in it. -/
private theorem mkTEcmWhitelist_concat : mkTEcmWhitelist (ds ++ [d]) =
    if (printWhitelist ecmWhitelist.key ecmWhitelist.print (ds ++ [d])).dropLast.flatten.length ≤
        16 * (ds ++ [d]).length then
      some ((ecmWhitelist.text (ds ++ [d])).take
        ((ecmWhitelist.text (ds ++ [d])).length - missing (ds ++ [d])))
    else none := by
  have hlength := @length_ecmText (ds ++ [d]) (by simp)
  have hmissing : missing (ds ++ [d]) =
      needed EcmWhitelistData.key lenDigits none (ds ++ [d]) - 16 * (ds ++ [d]).length := rfl
  have hsize : 16 ≤ 16 * (ds ++ [d]).length := by
    rw [List.length_append, List.length_singleton]
    omega
  have hpieces : printWhitelist ecmWhitelist.key ecmWhitelist.print (ds ++ [d]) ≠ [] := by
    intro hnil
    have htext := @WhitelistFormat.text_append _ _ ecmWhitelist ds d
    unfold WhitelistFormat.text at htext
    rw [hnil] at htext
    have hlen := congrArg List.length htext
    have hitem := @length_item d
    have hdigits := @lenDigits_bounds d
    rw [List.length_append, hitem] at hlen
    change 0 = _ at hlen
    omega
  have htake : (ecmWhitelist.text (ds ++ [d])).take (16 * (ds ++ [d]).length - 1) =
      (ecmWhitelist.text (ds ++ [d])).take
        ((ecmWhitelist.text (ds ++ [d])).length - missing (ds ++ [d])) := by
    by_cases hlt : 16 * (ds ++ [d]).length - 1 < (ecmWhitelist.text (ds ++ [d])).length
    · congr 1
      omega
    · have hzero : missing (ds ++ [d]) = 0 := by omega
      rw [hzero, Nat.sub_zero, List.take_length, List.take_of_length_le (by omega)]
  have hnonempty : (ds ++ [d]).isEmpty = false := by simp
  unfold mkTEcmWhitelist
  rw [hnonempty, ← htake]
  exact snprintfs_eq hpieces

/-- Without the comma of the last length a digit of the length before it is missing. -/
private theorem read_digit_missing (h : ∀ x ∈ ds ++ [d], x.Kept) (hsame : ecmWhitelist.Same ds d) :
    chkEcmWhitelist ((ecmWhitelist.text (ds ++ [d])).take
        ((ecmWhitelist.text (ds ++ [d])).length - (lenDigits d + 2))) =
      ds.dropLast ++ ds.getLast?.elim [] (shortened · 1) := by
  have hlast : ds.getLast?.map (·.key) = some d.key := hsame
  rcases List.eq_nil_or_concat' ds with hlist | ⟨fs, p, hlist⟩
  · rw [hlist] at hlast
    cases hlast
  · have hone := @lenDigits_bounds p
    have hread := @read_shortened fs p 1
      (fun x hx => h x (List.mem_append_left [d] (by rw [hlist]; exact hx))) (by omega)
    have htext := @WhitelistFormat.text_append _ _ ecmWhitelist ds d
    unfold WhitelistFormat.beforeItem at htext
    rw [if_pos hsame] at htext
    have hlen : (ecmWhitelist.text (ds ++ [d])).length - (lenDigits d + 2) =
        (ecmWhitelist.text ds).length - 1 := by
      rw [htext, List.length_append, List.length_append, length_item, List.length_singleton]
      omega
    have hfront : (ecmWhitelist.text (ds ++ [d])).take
        ((ecmWhitelist.text (ds ++ [d])).length - (lenDigits d + 2)) =
          (ecmWhitelist.text ds).take ((ecmWhitelist.text ds).length - 1) := by
      rw [hlen, htext, List.append_assoc, List.take_append_of_le_length (Nat.sub_le _ 1)]
    have hback : ds.dropLast ++ ds.getLast?.elim [] (shortened · 1) = fs ++ shortened p 1 := by
      rw [hlist, List.dropLast_concat, List.getLast?_concat]
      rfl
    rw [← hlist] at hread
    rw [hfront, hback, hread]

/-- A key whose colon is missing is read as a length. -/
private theorem read_key_alone (h : ∀ x ∈ ds ++ [d], x.Kept) (hnew : ¬ ecmWhitelist.Same ds d)
    (hlong : lenDigits d < (ecmWhitelist.text (ds ++ [d])).length) :
    chkEcmWhitelist ((ecmWhitelist.text (ds ++ [d])).take
        ((ecmWhitelist.text (ds ++ [d])).length - (lenDigits d + 1))) = ds ++ keyAlone d := by
  have hd : d.Kept := h d (List.mem_append_right ds List.mem_cons_self)
  have hds : ∀ x ∈ ds, ecmWhitelist.Kept x := fun x hx => (h x (List.mem_append_left [d] hx)).read
  have hself : ds.map ecmWhitelist.again = ds := List.map_id ds
  have hread := WhitelistFormat.read_take_key hds hnew (by rw [length_item]; exact hlong)
  have halone : (if (ecmWhitelist.key d).caid ≠ 0 then (ecmWhitelist.parse ⟨0, 0⟩
      (hexText 4 ((ecmWhitelist.key d).caid.setWidth 32))).toList else []) = keyAlone d := by
    unfold keyAlone
    by_cases hcaid : d.caid = 0
    · rw [if_neg (not_not.mpr hcaid)]
      exact if_neg (not_not.mpr hcaid)
    · have hparse := @chkLen_hexText ⟨0, 0⟩ 4 d.caid (by omega) (by omega) d.caid.isLt hd.1.1
      rw [if_pos hcaid]
      refine (if_pos hcaid).trans ?_
      exact congrArg Option.toList hparse
  rw [length_item, hself, halone, read_ecmWhitelist] at hread
  exact hread

/-- What is read of the text that the buffer holds. -/
theorem chkEcmWhitelist_mkT (h : ∀ d ∈ ds, d.Kept) :
    (mkTEcmWhitelist ds).map chkEcmWhitelist = remains ds (missing ds) := by
  cases ds using List.reverseRecOn with
  | nil => rfl
  | append_singleton es d =>
    have hbounds := @lenDigits_bounds d
    have hlength := @length_ecmText (es ++ [d]) (by simp)
    have hstart := @length_dropLast_pieces es d
    have hmissing : missing (es ++ [d]) =
        needed EcmWhitelistData.key lenDigits none (es ++ [d]) - 16 * (es ++ [d]).length := rfl
    have hsize : 16 ≤ 16 * (es ++ [d]).length := by
      rw [List.length_append, List.length_singleton]
      omega
    rw [mkTEcmWhitelist_concat]
    unfold remains
    rw [List.getLast?_concat, List.dropLast_concat]
    dsimp only [Option.elim_some]
    by_cases hshort : missing (es ++ [d]) ≤ lenDigits d
    · rw [if_pos hshort, if_pos (by split_ifs at hstart <;> omega), Option.map_some, read_shortened h hshort]
    · rw [if_neg hshort]
      by_cases hsame : ecmWhitelist.Same es d
      · have hlast : es.getLast?.map (·.key) = some d.key := hsame
        rw [if_pos hlast]
        rw [if_pos hsame] at hstart
        by_cases hcomma : missing (es ++ [d]) = lenDigits d + 1
        · have hself : es.map ecmWhitelist.again = es := List.map_id es
          have hread := WhitelistFormat.read_take_comma
            (fun x hx => (h x (List.mem_append_left [d] hx)).read) hsame
          rw [length_item, hself, read_ecmWhitelist] at hread
          rw [if_pos hcomma, if_pos (by omega), Option.map_some, hcomma, hread]
        · rw [if_neg hcomma]
          by_cases hdigit : missing (es ++ [d]) = lenDigits d + 2
          · rw [if_pos hdigit, if_pos (by omega), Option.map_some, hdigit, read_digit_missing h hsame]
          · rw [if_neg hdigit, if_neg (by omega), Option.map_none]
      · have hlast : ¬ es.getLast?.map (·.key) = some d.key := hsame
        rw [if_neg hlast]
        rw [if_neg hsame] at hstart
        by_cases hcolon : missing (es ++ [d]) = lenDigits d + 1
        · rw [if_pos hcolon, if_pos (by omega), Option.map_some, hcolon,
            read_key_alone h hsame (by omega)]
        · rw [if_neg hcolon, if_neg (by omega), Option.map_none]

/-- A setting is written inside the buffer and read back with the same entries exactly if the entries that
the missing characters leave are the same. -/
theorem mkTEcmWhitelist_chkEcmWhitelist (s : List Char) :
    (∃ text, mkTEcmWhitelist (chkEcmWhitelist s) = some text ∧
        ∀ d, d ∈ chkEcmWhitelist text ↔ d ∈ chkEcmWhitelist s) ↔
      ∃ left, remains (chkEcmWhitelist s) (missing (chkEcmWhitelist s)) = some left ∧
        ∀ d, d ∈ left ↔ d ∈ chkEcmWhitelist s := by
  have hback := @chkEcmWhitelist_mkT (chkEcmWhitelist s) chkEcmWhitelist_kept
  rw [← hback]
  constructor
  · rintro ⟨text, htext, hsame⟩
    exact ⟨chkEcmWhitelist text, by rw [htext]; rfl, hsame⟩
  · rintro ⟨left, hleft, hsame⟩
    obtain ⟨text, htext, rfl⟩ := Option.map_eq_some_iff.mp hleft
    exact ⟨text, htext, hsame⟩

/-- A length of four digits behind a caid and an ident loses its last digit. -/
theorem long_length_cut :
    ¬ ∃ text, mkTEcmWhitelist (chkEcmWhitelist ['5', '0', '0', '@', '4', '3', ':', '1', '2', '3', '4']) =
        some text ∧ ∀ d, d ∈ chkEcmWhitelist text ↔
          d ∈ chkEcmWhitelist ['5', '0', '0', '@', '4', '3', ':', '1', '2', '3', '4'] := by
  have hparse : chkEcmWhitelist ['5', '0', '0', '@', '4', '3', ':', '1', '2', '3', '4'] =
      [⟨0x1234, 0x0500, 0x43⟩] := by decide +kernel
  have hprint : (mkTEcmWhitelist [⟨0x1234, 0x0500, 0x43⟩]).map chkEcmWhitelist =
      some [⟨0x123, 0x0500, 0x43⟩] := by decide +kernel
  rw [hparse]
  rintro ⟨text, htext, hsame⟩
  rw [htext] at hprint
  have hread : chkEcmWhitelist text = [⟨0x123, 0x0500, 0x43⟩] := Option.some.inj hprint
  have hmem := (hsame ⟨0x1234, 0x0500, 0x43⟩).mpr List.mem_cons_self
  rw [hread] at hmem
  exact absurd hmem (by decide)

end Table

structure EcmHdrWhitelistData where
  len : BitVec 16
  caid : BitVec 16
  provid : BitVec 32
  header : Vector (BitVec 8) 20
  deriving DecidableEq

def EcmHdrWhitelistData.key (d : EcmHdrWhitelistData) : WhitelistKey := ⟨d.caid, d.provid⟩

/-- The length that is kept of a header of `n` characters. -/
def headerLen (n : ℕ) : BitVec 16 :=
  let len := BitVec.ofNat 16 n
  if 20 < len.toNat / 2 then 40 else len

/-- One header of a piece. Its bytes are written over those of the header before it. -/
def hdrStep (k : WhitelistKey) (d : Vector (BitVec 8) 20 × List EcmHdrWhitelistData) (hdrPtr : List Char) :
    Vector (BitVec 8) 20 × List EcmHdrWhitelistData :=
  let hdrPtr := trim hdrPtr
  let len := headerLen hdrPtr.length
  if 1 < len.toNat then
    let header := keyAtobL hdrPtr d.1 len.toNat
    (header, d.2 ++ [⟨len, k.caid, k.ident, header⟩])
  else d

def chkHeaders (k : WhitelistKey) (headers : List Char) : List EcmHdrWhitelistData :=
  ((strtok ',' headers).foldl (hdrStep k) (Vector.replicate 20 0, [])).2

def chkEcmHdrWhitelist (value : List Char) : List EcmHdrWhitelistData := chkWhitelist chkHeaders value

def printHdr (comma : List Char) (cur : EcmHdrWhitelistData) : List (List Char) :=
  comma :: (cur.header.toList.take (cur.len.toNat / 2)).map hexByte

/-- The text that `mk_t_ecm_hdr_whitelist` leaves in its buffer, unless it writes behind it. -/
def mkTEcmHdrWhitelist (ehdata : List EcmHdrWhitelistData) : Option (List Char) :=
  if ehdata.isEmpty = true then some []
  else snprintfs (53 * ehdata.length) (printWhitelist EcmHdrWhitelistData.key printHdr ehdata) 0 []

/-- An entry with exactly the bytes of its header. -/
structure ListedHeader where
  len : BitVec 16
  key : WhitelistKey
  header : List (BitVec 8)
  deriving DecidableEq

def EcmHdrWhitelistData.listed (d : EcmHdrWhitelistData) : ListedHeader :=
  ⟨d.len, d.key, d.header.toList.take (d.len.toNat / 2)⟩

/-- The digits that are printed of a header. -/
def hdrDigits (d : EcmHdrWhitelistData) : ℕ := 2 * (d.len.toNat / 2)

/-- An entry that `chk_ecm_hdr_whitelist` adds. -/
def EcmHdrWhitelistData.Kept (d : EcmHdrWhitelistData) : Prop :=
  d.key.Kept ∧ 1 < d.len.toNat ∧ d.len.toNat ≤ 41

section Entry

variable {d : EcmHdrWhitelistData} {k : WhitelistKey} {n : ℕ} {asc s value : List Char}

private theorem toNat_headerLen : (headerLen n).toNat ≤ 41 ∧ (headerLen n).toNat ≤ n := by
  have hval : (BitVec.ofNat 16 n).toNat = n % 2 ^ 16 := BitVec.toNat_ofNat _ _
  have hle := Nat.mod_le n (2 ^ 16)
  unfold headerLen
  dsimp only
  split_ifs with hlong
  · change 40 ≤ 41 ∧ 40 ≤ n
    omega
  · omega

theorem headerLen_of_le (h : n ≤ 41) : (headerLen n).toNat = n := by
  have hval : (BitVec.ofNat 16 n).toNat = n := by
    rw [BitVec.toNat_ofNat, Nat.mod_eq_of_lt (by omega)]
  unfold headerLen
  dsimp only
  rw [hval, if_neg (by omega), hval]

/-- A header of digits as it is read. -/
def parseHdr (k : WhitelistKey) (tok : List Char) : Option ListedHeader :=
  let len := headerLen tok.length
  if 1 < len.toNat then
    some ⟨len, k, (List.range (len.toNat / 2)).map fun j => (keyByte tok j).getD 0⟩
  else none

private theorem listed_hdrStep (hhex : ∀ c ∈ asc, gethexval c ≠ none)
    (d : Vector (BitVec 8) 20 × List EcmHdrWhitelistData) :
    (hdrStep k d asc).2.map (·.listed) = d.2.map (·.listed) ++ (parseHdr k asc).toList := by
  have htrim : trim asc = asc := trim_of_noBlank fun c hc => isBlank_of_hex (hhex c hc)
  obtain ⟨h41, hle⟩ := @toNat_headerLen asc.length
  unfold hdrStep parseHdr
  rw [htrim]
  dsimp only
  have h20 : (headerLen asc.length).toNat / 2 ≤ 20 := by omega
  by_cases hlong : 1 < (headerLen asc.length).toNat
  · rw [if_pos hlong, if_pos hlong, List.map_append, ← keyAtobL_take hhex hle h20]
    rfl
  · rw [if_neg hlong, if_neg hlong]
    exact (List.append_nil _).symm

/-- The headers of a piece that holds only digits and commas. -/
theorem chkHeaders_plain (hs : Plain s) :
    (chkHeaders k s).map (·.listed) = (strtok ',' s).filterMap (parseHdr k) := by
  have hloop : ∀ (ts : List (List Char)) (d : Vector (BitVec 8) 20 × List EcmHdrWhitelistData),
      (∀ t ∈ ts, ∀ c ∈ t, gethexval c ≠ none) →
        (ts.foldl (hdrStep k) d).2.map (·.listed) = d.2.map (·.listed) ++ ts.filterMap (parseHdr k) := by
    intro ts
    induction ts with
    | nil => exact fun d _ => (List.append_nil _).symm
    | cons t ts ih =>
      intro d hhex
      rw [List.foldl_cons, ih _ fun u hu => hhex u (List.mem_cons_of_mem t hu),
        listed_hdrStep (hhex t List.mem_cons_self), List.append_assoc, List.filterMap_cons]
      cases parseHdr k t <;> rfl
  refine hloop _ _ ?_
  intro t ht c hc
  obtain ⟨hmem, hne⟩ := mem_of_mem_strtok ht hc
  exact (hs c hmem).resolve_left hne

/-- The header whitelist as a list of that kind. Of an odd length the last digit is lost. -/
def ecmHdrWhitelist : WhitelistFormat EcmHdrWhitelistData ListedHeader where
  key := EcmHdrWhitelistData.key
  print := printHdr
  items := chkHeaders
  view := EcmHdrWhitelistData.listed
  again d := ⟨.ofNat 16 (2 * (d.len.toNat / 2)), d.key, d.header.toList.take (d.len.toNat / 2)⟩
  item d := ((d.header.toList.take (d.len.toNat / 2)).map hexByte).flatten
  parse := parseHdr
  flatten_print _ _ := List.flatten_cons
  items_eq _ _ hs := chkHeaders_plain hs
  plain_item _ := hex_hexBytes

private theorem length_bytes (h : d.Kept) :
    (d.header.toList.take (d.len.toNat / 2)).length = d.len.toNat / 2 := by
  have hlen : d.header.toList.length = 20 := Vector.length_toList
  have h41 := h.2.2
  rw [List.length_take, hlen]
  omega

private theorem length_hdrItem (h : d.Kept) :
    (ecmHdrWhitelist.item d).length = hdrDigits d := by
  have hlen := @length_hexBytes (d.header.toList.take (d.len.toNat / 2))
  rw [length_bytes h] at hlen
  exact hlen

theorem EcmHdrWhitelistData.Kept.read (h : d.Kept) : ecmHdrWhitelist.Kept d := by
  have hitem : (ecmHdrWhitelist.item d).length = 2 * (d.len.toNat / 2) := length_hdrItem h
  have hlong := h.2.1
  have h41 := h.2.2
  have hlen : (headerLen (ecmHdrWhitelist.item d).length).toNat = 2 * (d.len.toNat / 2) := by
    rw [hitem, headerLen_of_le (by omega)]
  have hval : headerLen (ecmHdrWhitelist.item d).length = .ofNat 16 (2 * (d.len.toNat / 2)) := by
    apply BitVec.eq_of_toNat_eq
    rw [hlen, BitVec.toNat_ofNat, Nat.mod_eq_of_lt (by omega)]
  have hhalf : 2 * (d.len.toNat / 2) / 2 = d.len.toNat / 2 := by omega
  refine ⟨h.1, ?_, ?_⟩
  · intro hnil
    rw [hnil, List.length_nil] at hitem
    omega
  · change parseHdr d.key (ecmHdrWhitelist.item d) = some ⟨_, _, _⟩
    unfold parseHdr
    dsimp only
    rw [hlen, if_pos (by omega), hval, hhalf]
    have hbytes := @map_keyByte_hexBytes (d.header.toList.take (d.len.toNat / 2))
    rw [length_bytes h] at hbytes
    exact congrArg (fun bs => some (⟨_, _, bs⟩ : ListedHeader)) hbytes

theorem chkEcmHdrWhitelist_kept : ∀ d ∈ chkEcmHdrWhitelist value, d.Kept := by
  have hloop : ∀ (k : WhitelistKey) (ts : List (List Char)) (a : Vector (BitVec 8) 20 × List EcmHdrWhitelistData),
      k.Kept → (∀ d ∈ a.2, d.Kept) → ∀ d ∈ (ts.foldl (hdrStep k) a).2, d.Kept := by
    intro k ts
    induction ts with
    | nil => exact fun a _ ha => ha
    | cons t ts ih =>
      intro a hk ha
      refine ih _ hk ?_
      intro d hd
      unfold hdrStep at hd
      dsimp only at hd
      split_ifs at hd with hlong
      · rcases List.mem_append.mp hd with hd | hd
        · exact ha d hd
        · rw [List.mem_singleton.mp hd]
          exact ⟨hk, hlong, toNat_headerLen.1⟩
      · exact ha d hd
  intro d hd
  obtain ⟨ptr, -, hptr⟩ := List.mem_flatMap.mp hd
  exact hloop _ _ _ kept_whitelistPiece (fun d hd => absurd hd List.not_mem_nil) d hptr

end Entry

section Table

variable {ds : List EcmHdrWhitelistData} {d : EcmHdrWhitelistData}

/-- Each entry with its separator, the last one with the final zero in place of it. -/
theorem length_hdrText (h : ∀ d ∈ ds, d.Kept) (hne : ds ≠ []) :
    (ecmHdrWhitelist.text ds).length + 1 = needed EcmHdrWhitelistData.key hdrDigits none ds :=
  WhitelistFormat.length_text (fun d hd => length_hdrItem (h d hd)) hne

private theorem length_dropLast_bytes {pieces : List (List Char)} {bs : List (BitVec 8)} (hne : bs ≠ []) :
    (pieces ++ bs.map hexByte).dropLast.flatten.length + 2 = (pieces ++ bs.map hexByte).flatten.length := by
  obtain ⟨cs, b, rfl⟩ := (List.eq_nil_or_concat' bs).resolve_left hne
  have hbyte : (hexByte b).length = 2 := congrArg List.length hexByte_eq
  rw [List.map_append, List.map_singleton, ← List.append_assoc, List.dropLast_concat]
  generalize pieces ++ cs.map hexByte = front
  rw [List.flatten_append, List.length_append, List.flatten_singleton, hbyte]

/-- The place at which the last byte is printed. -/
private theorem length_dropLast_hdr (h : d.Kept) : (printWhitelist ecmHdrWhitelist.key ecmHdrWhitelist.print
    (ds ++ [d])).dropLast.flatten.length + 2 = (ecmHdrWhitelist.text (ds ++ [d])).length := by
  have hne : d.header.toList.take (d.len.toNat / 2) ≠ [] := by
    intro hnil
    have hlen := length_bytes h
    have hlong := h.2.1
    rw [hnil, List.length_nil] at hlen
    omega
  unfold WhitelistFormat.text
  rw [WhitelistFormat.printWhitelist_append]
  by_cases hsame : ecmHdrWhitelist.Same ds d
  · have hpieces : printWhitelist ecmHdrWhitelist.key ecmHdrWhitelist.print ds ++
        (if ecmHdrWhitelist.Same ds d then ecmHdrWhitelist.print [','] d
          else printKey (WhitelistFormat.separator ds) (ecmHdrWhitelist.key d) :: ecmHdrWhitelist.print [] d) =
        (printWhitelist ecmHdrWhitelist.key ecmHdrWhitelist.print ds ++ [[',']]) ++
          (d.header.toList.take (d.len.toNat / 2)).map hexByte := by
      rw [if_pos hsame, List.append_assoc]
      rfl
    rw [hpieces]
    exact length_dropLast_bytes hne
  · have hpieces : printWhitelist ecmHdrWhitelist.key ecmHdrWhitelist.print ds ++
        (if ecmHdrWhitelist.Same ds d then ecmHdrWhitelist.print [','] d
          else printKey (WhitelistFormat.separator ds) (ecmHdrWhitelist.key d) :: ecmHdrWhitelist.print [] d) =
        (printWhitelist ecmHdrWhitelist.key ecmHdrWhitelist.print ds ++
          [printKey (WhitelistFormat.separator ds) (ecmHdrWhitelist.key d), []]) ++
            (d.header.toList.take (d.len.toNat / 2)).map hexByte := by
      rw [if_neg hsame, List.append_assoc]
      rfl
    rw [hpieces]
    exact length_dropLast_bytes hne

/-- Only an even length comes back. -/
private theorem again_eq_iff (h : d.Kept) : ecmHdrWhitelist.again d = d.listed ↔ d.len.toNat % 2 = 0 := by
  have h41 := h.2.2
  have hval : (BitVec.ofNat 16 (2 * (d.len.toNat / 2))).toNat = 2 * (d.len.toNat / 2) := by
    rw [BitVec.toNat_ofNat, Nat.mod_eq_of_lt (by omega)]
  constructor
  · intro heq
    have hlen := congrArg (fun l : ListedHeader => l.len.toNat) heq
    change (BitVec.ofNat 16 (2 * (d.len.toNat / 2))).toNat = d.len.toNat at hlen
    omega
  · intro heven
    have hlen : BitVec.ofNat 16 (2 * (d.len.toNat / 2)) = d.len := by
      apply BitVec.eq_of_toNat_eq
      omega
    change (⟨BitVec.ofNat 16 (2 * (d.len.toNat / 2)), d.key, _⟩ : ListedHeader) = ⟨d.len, d.key, _⟩
    rw [hlen]

private theorem map_again_iff (h : ∀ d ∈ ds, d.Kept) :
    ds.map ecmHdrWhitelist.again = ds.map (·.listed) ↔ ∀ d ∈ ds, d.len.toNat % 2 = 0 := by
  rw [List.map_inj_left]
  exact forall₂_congr fun d hd => again_eq_iff (h d hd)

/-- A text that ends before the last digit is not read as the list. -/
private theorem read_short (h : ∀ x ∈ ds ++ [d], x.Kept) {missing : ℕ} (hpos : 0 < missing) (hthree : missing ≤ 3)
    (hlong : missing < (ecmHdrWhitelist.text (ds ++ [d])).length) :
    ecmHdrWhitelist.read ((ecmHdrWhitelist.text (ds ++ [d])).take
      ((ecmHdrWhitelist.text (ds ++ [d])).length - missing)) ≠ (ds ++ [d]).map (·.listed) := by
  have hd : d.Kept := h d (List.mem_append_right ds List.mem_cons_self)
  have hds : ∀ x ∈ ds, ecmHdrWhitelist.Kept x := fun x hx => (h x (List.mem_append_left [d] hx)).read
  have hdigits : (ecmHdrWhitelist.item d).length = 2 * (d.len.toNat / 2) := length_hdrItem hd
  have htwo := hd.2.1
  have h41 := hd.2.2
  -- what is read in the place of the last entry
  have hplace : ∀ last : List ListedHeader, (∀ x ∈ last, x.len.toNat < d.len.toNat ∨ x.key ≠ d.key) →
      ds.map ecmHdrWhitelist.again ++ last ≠ (ds ++ [d]).map (·.listed) := by
    intro last hother heq
    rw [List.map_append, List.map_singleton] at heq
    have htail := (List.append_inj heq (by rw [List.length_map, List.length_map])).2
    rcases hother d.listed (by rw [htail]; exact List.mem_cons_self) with hlt | hne
    · exact Nat.lt_irrefl _ hlt
    · exact hne rfl
  by_cases hin : missing ≤ (ecmHdrWhitelist.item d).length
  · rw [WhitelistFormat.read_take (fun x hx => (h x hx).read) hin]
    apply hplace
    intro x hx
    left
    split_ifs at hx with hlt
    · have htake : ((ecmHdrWhitelist.item d).take ((ecmHdrWhitelist.item d).length - missing)).length =
          (ecmHdrWhitelist.item d).length - missing := by
        rw [List.length_take]
        omega
      have hsome := Option.mem_toList.mp hx
      change parseHdr _ _ = some x at hsome
      unfold parseHdr at hsome
      dsimp only at hsome
      rw [Option.ite_none_right_eq_some] at hsome
      rw [← Option.some.inj hsome.2, htake]
      change (headerLen _).toNat < _
      rw [headerLen_of_le (by omega)]
      omega
    · exact absurd hx List.not_mem_nil
  · have hone : missing = (ecmHdrWhitelist.item d).length + 1 := by omega
    rw [hone]
    by_cases hsame : ecmHdrWhitelist.Same ds d
    · rw [WhitelistFormat.read_take_comma hds hsame]
      have hnone := hplace [] fun x hx => absurd hx List.not_mem_nil
      rw [List.append_nil] at hnone
      exact hnone
    · rw [WhitelistFormat.read_take_key hds hsame (by omega)]
      apply hplace
      intro x hx
      right
      split_ifs at hx with hcaid
      · have hsome := Option.mem_toList.mp hx
        change parseHdr _ _ = some x at hsome
        unfold parseHdr at hsome
        dsimp only at hsome
        rw [Option.ite_none_right_eq_some] at hsome
        intro heq
        rw [← Option.some.inj hsome.2] at heq
        exact hcaid (congrArg WhitelistKey.caid heq).symm
      · exact absurd hx List.not_mem_nil

theorem mkTEcmHdrWhitelist_iff (h : ∀ d ∈ ds, d.Kept) :
    (∃ text, mkTEcmHdrWhitelist ds = some text ∧
        (chkEcmHdrWhitelist text).map (·.listed) = ds.map (·.listed)) ↔
      (∀ d ∈ ds, d.len.toNat % 2 = 0) ∧
        needed EcmHdrWhitelistData.key hdrDigits none ds ≤ 53 * ds.length := by
  rcases List.eq_nil_or_concat' ds with rfl | ⟨es, d, rfl⟩
  · constructor
    · intro _
      exact ⟨fun d hd => absurd hd List.not_mem_nil, Nat.le_refl 0⟩
    · intro _
      exact ⟨[], rfl, rfl⟩
  · have hd : d.Kept := h d (List.mem_append_right es List.mem_cons_self)
    have hlength := length_hdrText h (by simp)
    have hstart := @length_dropLast_hdr es d hd
    have hnonempty : (es ++ [d]).isEmpty = false := by simp
    have hpieces : printWhitelist ecmHdrWhitelist.key ecmHdrWhitelist.print (es ++ [d]) ≠ [] := by
      intro hnil
      have hlen : (ecmHdrWhitelist.text (es ++ [d])).length = 0 := by
        unfold WhitelistFormat.text
        rw [hnil]
        rfl
      omega
    have hprint : mkTEcmHdrWhitelist (es ++ [d]) =
        if (printWhitelist ecmHdrWhitelist.key ecmHdrWhitelist.print (es ++ [d])).dropLast.flatten.length ≤
            53 * (es ++ [d]).length then
          some ((ecmHdrWhitelist.text (es ++ [d])).take (53 * (es ++ [d]).length - 1)) else none := by
      unfold mkTEcmHdrWhitelist
      rw [hnonempty]
      exact snprintfs_eq hpieces
    have hsize : 53 ≤ 53 * (es ++ [d]).length := by
      rw [List.length_append, List.length_singleton]
      omega
    rw [← hlength, hprint]
    constructor
    · rintro ⟨text, htext, hback⟩
      rw [Option.ite_none_right_eq_some] at htext
      obtain ⟨hle, htext⟩ := htext
      rw [← Option.some.inj htext] at hback
      change ecmHdrWhitelist.read _ = _ at hback
      by_cases hfits : (ecmHdrWhitelist.text (es ++ [d])).length + 1 ≤ 53 * (es ++ [d]).length
      · rw [List.take_of_length_le (by omega), WhitelistFormat.read_text fun x hx => (h x hx).read] at hback
        exact ⟨(map_again_iff h).mp hback, hfits⟩
      · obtain ⟨missing, hmissing⟩ : ∃ missing, missing =
            (ecmHdrWhitelist.text (es ++ [d])).length + 1 - 53 * (es ++ [d]).length := ⟨_, rfl⟩
        have hcut : 53 * (es ++ [d]).length - 1 =
            (ecmHdrWhitelist.text (es ++ [d])).length - missing := by omega
        rw [hcut] at hback
        exact absurd hback (read_short h (by omega) (by omega) (by omega))
    · rintro ⟨heven, hfits⟩
      rw [if_pos (by omega)]
      refine ⟨_, rfl, ?_⟩
      rw [List.take_of_length_le (by omega)]
      change ecmHdrWhitelist.read _ = _
      rw [WhitelistFormat.read_text fun x hx => (h x hx).read]
      exact (map_again_iff h).mpr heven

/-- A setting is written inside the buffer and read back as the same list exactly if all its headers have an
even number of digits, and if the text fits into 53 bytes for each of them. -/
theorem mkTEcmHdrWhitelist_chkEcmHdrWhitelist (s : List Char) :
    (∃ text, mkTEcmHdrWhitelist (chkEcmHdrWhitelist s) = some text ∧
        (chkEcmHdrWhitelist text).map (·.listed) = (chkEcmHdrWhitelist s).map (·.listed)) ↔
      (∀ d ∈ chkEcmHdrWhitelist s, d.len.toNat % 2 = 0) ∧
        needed EcmHdrWhitelistData.key hdrDigits none (chkEcmHdrWhitelist s) ≤
          53 * (chkEcmHdrWhitelist s).length :=
  mkTEcmHdrWhitelist_iff chkEcmHdrWhitelist_kept

/-- A header of three digits is written with two. -/
theorem odd_header_cut : ¬ ∃ text, mkTEcmHdrWhitelist (chkEcmHdrWhitelist ['8', '0', '3']) = some text ∧
    (chkEcmHdrWhitelist text).map (·.listed) = (chkEcmHdrWhitelist ['8', '0', '3']).map (·.listed) := by
  have hprint : mkTEcmHdrWhitelist (chkEcmHdrWhitelist ['8', '0', '3']) = some ['8', '0'] := by
    decide +kernel
  have hread : (chkEcmHdrWhitelist ['8', '0']).map (·.len) = [2] := by decide +kernel
  have hlen : (chkEcmHdrWhitelist ['8', '0', '3']).map (·.len) = [3] := by decide +kernel
  rintro ⟨text, htext, hsame⟩
  rw [hprint] at htext
  have hlens := congrArg (List.map ListedHeader.len) hsame
  rw [← Option.some.inj htext, List.map_map, List.map_map] at hlens
  change (chkEcmHdrWhitelist ['8', '0']).map (·.len) = (chkEcmHdrWhitelist ['8', '0', '3']).map (·.len) at hlens
  rw [hread, hlen] at hlens
  exact absurd hlens (by decide)

end Table

end NCam.Conf
