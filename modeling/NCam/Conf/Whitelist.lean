import NCam.Conf.Ftab

/-! Lists of `caid@ident:item,item;…`: the parts that the parsers and the printers of the ECM whitelist and of
the header whitelist share. -/
namespace NCam.Conf

open NCam.Util

/-- What the items of one piece are listed under. -/
structure WhitelistKey where
  caid : BitVec 16
  ident : BitVec 32
  deriving DecidableEq

/-- The digits of `dyn_word_atob`. -/
def dynWordLoop : List Char → BitVec 32 → Option (BitVec 32)
  | [], rc => some rc
  | c :: asc, rc => (gethexval c).bind fun v => dynWordLoop asc (rc <<< 4 ||| BitVec.ofNat 32 v)

/-- One to six digits, else -1. -/
def dynWordAtob (asc : List Char) : BitVec 32 :=
  let asc := trim asc
  if asc.length ≤ 6 ∧ 0 < asc.length then
    match dynWordLoop asc 0 with
    | none => -1
    | some rc => if rc &&& 0x1000000 ≠ 0 then -1 else rc
  else -1

/-- The value 0xffff stands for nothing. -/
def whitelistKey (caid : BitVec 32) (ident : BitVec 32) : WhitelistKey :=
  ⟨if caid.setWidth 16 = 0xffff then 0 else caid.setWidth 16, if ident = 0xffff then 0 else ident⟩

/-- The key of one piece and the text with its items. Without a colon, the ident is read from the zero in the
place of the `@`. -/
def whitelistPiece (ptr : List Char) : WhitelistKey × List Char :=
  match cutAt ':' ptr with
  | (caid, some headers) =>
    match cutAt '@' caid with
    | (caid, some provid) => (whitelistKey (dynWordAtob caid) (a2i provid 6), headers)
    | (caid, none) =>
      match cutAt '@' headers with
      | (headers, some provid) => (whitelistKey (dynWordAtob caid) (a2i provid 6), headers)
      | (headers, none) => (whitelistKey (dynWordAtob caid) 0, headers)
  | (headers, none) =>
    match cutAt '@' headers with
    | (headers, some _) => (whitelistKey 0 (a2i [] 6), headers)
    | (headers, none) => (whitelistKey 0 0, headers)

/-- `items` reads the entries of one piece. -/
def chkWhitelist {α : Type} (items : WhitelistKey → List Char → List α) (value : List Char) : List α :=
  (strtok ';' value).flatMap fun ptr => items (whitelistPiece ptr).1 (whitelistPiece ptr).2

def printKey (semicolon : List Char) (k : WhitelistKey) : List Char :=
  if k.caid ≠ 0 ∧ k.ident ≠ 0 then
    semicolon ++ printfHex 4 (k.caid.setWidth 32) ++ ['@'] ++ printfHex 6 k.ident ++ [':']
  else if k.caid ≠ 0 then semicolon ++ printfHex 4 (k.caid.setWidth 32) ++ [':']
  else if k.ident ≠ 0 then semicolon ++ ['@'] ++ printfHex 6 k.ident ++ [':']
  else semicolon

/-- The texts of the `snprintf` calls so far, and the variables of the loop. -/
structure WhitelistPrint where
  texts : List (List Char)
  semicolon : List Char
  comma : List Char
  last : Option WhitelistKey

/-- `print` gives the texts for the item of one entry. -/
def printStep {α : Type} (key : α → WhitelistKey) (print : List Char → α → List (List Char))
    (s : WhitelistPrint) (cur : α) : WhitelistPrint :=
  let s := if s.last ≠ some (key cur) then
      { s with texts := s.texts ++ [printKey s.semicolon (key cur)], semicolon := [';'], comma := [] }
    else s
  { s with texts := s.texts ++ print s.comma cur, comma := [','], last := some (key cur) }

def printWhitelist {α : Type} (key : α → WhitelistKey) (print : List Char → α → List (List Char))
    (entries : List α) : List (List Char) :=
  (entries.foldl (printStep key print) ⟨[], [], [], none⟩).texts

/-- The characters of a key and its separators. -/
def keyWidth (k : WhitelistKey) : ℕ :=
  (if k.caid ≠ 0 then 4 else 0) + (if k.ident ≠ 0 then 7 + excessDigits k.ident else 0) +
    if k.caid ≠ 0 ∨ k.ident ≠ 0 then 1 else 0

/-- The bytes that a buffer needs for the entries behind one with the key `last`: the key if it is another
one, the item, and a separator or the final zero. -/
def needed {α : Type} (key : α → WhitelistKey) (width : α → ℕ) (last : Option WhitelistKey) : List α → ℕ
  | [] => 0
  | e :: es => (if last = some (key e) then 0 else keyWidth (key e)) + width e + 1 +
      needed key width (some (key e)) es

/-- A key that the parsers give. -/
def WhitelistKey.Kept (k : WhitelistKey) : Prop := k.caid ≠ 0xffff ∧ k.ident ≠ 0xffff

section Key

variable {k : WhitelistKey} {v : BitVec 32} {n : ℕ} {s t : List Char} {c : Char}

private theorem hexText_succ : hexText (n + 1) v = hexDigit v n :: hexText n v := by
  unfold hexText
  rw [List.range_succ, List.reverse_append]
  rfl

private theorem dynWordLoop_hexText : dynWordLoop (hexText n v) (v >>> (4 * n)) = some v := by
  induction n with
  | zero =>
    rw [Nat.mul_zero, BitVec.ushiftRight_zero]
    rfl
  | succ n ih =>
    have hdiv : v.toNat / 16 ^ (n + 1) = v.toNat / 16 ^ n / 16 := by
      rw [Nat.div_div_eq_div_mul, Nat.pow_succ]
    have hpow : ∀ j : ℕ, (2 : ℕ) ^ (4 * j) = 16 ^ j := fun j => by rw [Nat.pow_mul]
    have hlt : v.toNat / 16 ^ n < 2 ^ 32 := Nat.lt_of_le_of_lt (Nat.div_le_self _ _) v.isLt
    have hdigit : v.toNat / 16 ^ n % 16 < 2 ^ 4 := Nat.mod_lt _ (by omega)
    have hstep : (v >>> (4 * (n + 1))) <<< 4 ||| BitVec.ofNat 32 (v.toNat / 16 ^ n % 16) =
        v >>> (4 * n) := by
      apply BitVec.eq_of_toNat_eq
      rw [BitVec.toNat_or, BitVec.toNat_shiftLeft, BitVec.toNat_ushiftRight, BitVec.toNat_ushiftRight,
        BitVec.toNat_ofNat, Nat.shiftRight_eq_div_pow, Nat.shiftRight_eq_div_pow, hpow, hpow, hdiv,
        Nat.shiftLeft_eq, Nat.mod_eq_of_lt (a := v.toNat / 16 ^ n % 16) (by omega),
        Nat.mod_eq_of_lt (a := v.toNat / 16 ^ n / 16 * 2 ^ 4) (by omega), Nat.mul_comm,
        ← Nat.two_pow_add_eq_or_of_lt hdigit]
      omega
    rw [hexText_succ]
    change (gethexval (hexDigit v n)).bind _ = _
    rw [gethexval_hexDigit, Option.bind_some, hstep]
    exact ih

/-- What `%0wX` prints for a number of at most `w` digits. -/
theorem dynWordAtob_hexText (hn : 0 < n) (h6 : n ≤ 6) (hv : v.toNat < 16 ^ n) :
    dynWordAtob (hexText n v) = v := by
  have hzero : v >>> (4 * n) = 0 := by
    apply BitVec.eq_of_toNat_eq
    rw [BitVec.toNat_ushiftRight, Nat.shiftRight_eq_div_pow, Nat.pow_mul]
    exact Nat.div_eq_of_lt hv
  have hloop := @dynWordLoop_hexText v n
  have hbit : v &&& 0x1000000 = 0 := by
    have hlow : v.toNat < 2 ^ 24 :=
      Nat.lt_of_lt_of_le hv (Nat.pow_le_pow_right (n := 16) (by omega) h6)
    apply BitVec.eq_of_toNat_eq
    rw [BitVec.toNat_and]
    change v.toNat &&& 2 ^ 24 = 0
    rw [Nat.and_two_pow, Nat.testBit_eq_false_of_lt hlow]
    rfl
  rw [hzero] at hloop
  unfold dynWordAtob
  rw [trim_of_noBlank isBlank_hexText]
  dsimp only
  rw [length_hexText, if_pos ⟨h6, hn⟩, hloop]
  dsimp only
  rw [if_neg (not_not.mpr hbit)]

theorem dynWordAtob_nil : dynWordAtob [] = -1 := rfl

/-- The digits of items and the commas between them. -/
def Plain (s : List Char) : Prop := ∀ c ∈ s, c = ',' ∨ gethexval c ≠ none

theorem Plain.notMem (h : Plain s) (hc : gethexval c = none) (hne : c ≠ ',') : c ∉ s := by
  intro hmem
  rcases h c hmem with heq | hsome
  · exact hne heq
  · exact hsome hc

theorem plain_hexText : Plain (hexText n v) := by
  intro c hc
  right
  intro hnone
  exact notMem_hexText hnone hc

theorem Plain.append (hs : Plain s) (ht : Plain t) : Plain (s ++ t) := by
  intro c hc
  rcases List.mem_append.mp hc with hc | hc
  · exact hs c hc
  · exact ht c hc

theorem Plain.comma (ht : Plain t) : Plain (',' :: t) := by
  intro c hc
  rcases List.mem_cons.mp hc with rfl | hc
  · exact Or.inl rfl
  · exact ht c hc

theorem Plain.take (h : Plain s) : Plain (s.take n) := fun c hc => h c (List.mem_of_mem_take hc)

theorem plain_nil : Plain [] := fun _ hc => absurd hc List.not_mem_nil

theorem printKey_append (semicolon : List Char) : printKey semicolon k = semicolon ++ printKey [] k := by
  unfold printKey
  split_ifs <;> simp

private theorem printfHex_four {v : BitVec 16} : printfHex 4 (v.setWidth 32) = hexText 4 (v.setWidth 32) := by
  rw [printfHex_eq (by omega), hexWidth_of_lt (by omega) toNat_caid]

private theorem printfHex_six : printfHex 6 v = hexText (hexWidth 6 v) v := printfHex_eq (by omega)

private theorem read_ident : a2i (printfHex 6 v) 6 = v := by
  have hle := @hexWidth_le v 6 (by omega)
  exact @a2i_printfHex v 6 6 (by omega) (by omega)

private theorem read_caid16 {v : BitVec 16} : (dynWordAtob (hexText 4 (v.setWidth 32))).setWidth 16 = v := by
  rw [dynWordAtob_hexText (by omega) (by omega) toNat_caid]
  simp

theorem whitelistKey_eq {caid ident : BitVec 32} (hcaid : caid.setWidth 16 = k.caid)
    (hident : ident = k.ident) (h : k.Kept) : whitelistKey caid ident = k := by
  unfold whitelistKey
  rw [hcaid, hident, if_neg h.1, if_neg h.2]

private theorem whitelistKey_none {ident : BitVec 32} (hcaid : k.caid = 0) (hident : ident = k.ident)
    (h : k.Kept) : whitelistKey (-1) ident = k := by
  have hminus : (-1 : BitVec 32).setWidth 16 = 0xffff := by decide
  unfold whitelistKey
  rw [hident, if_neg h.2, if_pos hminus, ← hcaid]

/-- The key and the items of a printed piece. -/
theorem whitelistPiece_printKey (h : k.Kept) (hs : Plain s) :
    whitelistPiece (printKey [] k ++ s) = (k, s) := by
  have hcolon : ':' ∉ s := hs.notMem rfl (by decide)
  have hat : '@' ∉ s := hs.notMem rfl (by decide)
  have hnone : ∀ (c : Char) (n : ℕ) (v : BitVec 32), gethexval c = none → c ∉ hexText n v :=
    fun c n v hc => notMem_hexText hc
  unfold printKey
  split_ifs with hboth hcaid hident
  · have htext : ([] ++ printfHex 4 (k.caid.setWidth 32) ++ ['@'] ++ printfHex 6 k.ident ++ [':']) ++ s =
        (hexText 4 (k.caid.setWidth 32) ++ '@' :: printfHex 6 k.ident) ++ ':' :: s := by
      rw [printfHex_four]
      simp
    have hout : ':' ∉ hexText 4 (k.caid.setWidth 32) ++ '@' :: printfHex 6 k.ident := by
      rw [printfHex_six, List.mem_append, List.mem_cons, not_or, not_or]
      exact ⟨hnone _ _ _ rfl, by decide, hnone _ _ _ rfl⟩
    unfold whitelistPiece
    rw [htext, cutAt_append hout]
    dsimp only
    rw [cutAt_append (hnone _ _ _ rfl)]
    dsimp only
    rw [whitelistKey_eq read_caid16 read_ident h]
  · have hzero : k.ident = 0 := not_not.mp fun hne => hboth ⟨hcaid, hne⟩
    have htext : ([] ++ printfHex 4 (k.caid.setWidth 32) ++ [':']) ++ s =
        hexText 4 (k.caid.setWidth 32) ++ ':' :: s := by
      rw [printfHex_four]
      simp
    unfold whitelistPiece
    rw [htext, cutAt_append (hnone _ _ _ rfl)]
    dsimp only
    rw [cutAt_of_notMem (hnone _ _ _ rfl)]
    dsimp only
    rw [cutAt_of_notMem hat]
    dsimp only
    rw [whitelistKey_eq read_caid16 hzero.symm h]
  · have hzero : k.caid = 0 := not_not.mp hcaid
    have htext : ([] ++ ['@'] ++ printfHex 6 k.ident ++ [':']) ++ s =
        ('@' :: printfHex 6 k.ident) ++ ':' :: s := by simp
    have hout : ':' ∉ '@' :: printfHex 6 k.ident := by
      rw [printfHex_six, List.mem_cons, not_or]
      exact ⟨by decide, hnone _ _ _ rfl⟩
    have hcut : cutAt '@' ('@' :: printfHex 6 k.ident) = ([], some (printfHex 6 k.ident)) :=
      cutAt_append (s := []) List.not_mem_nil
    unfold whitelistPiece
    rw [htext, cutAt_append hout]
    dsimp only
    rw [hcut]
    dsimp only
    rw [dynWordAtob_nil, whitelistKey_none hzero read_ident h]
  · have hcaid' : k.caid = 0 := not_not.mp hcaid
    have hident' : k.ident = 0 := not_not.mp hident
    unfold whitelistPiece
    rw [List.nil_append, cutAt_of_notMem hcolon]
    dsimp only
    rw [cutAt_of_notMem hat]
    dsimp only
    rw [whitelistKey_eq (k := k) (by rw [hcaid']; rfl) hident'.symm h]

/-- A key without its colon is read as an item. -/
theorem whitelistPiece_dropLast : whitelistPiece (printKey [] k).dropLast =
    (⟨0, 0⟩, if k.caid ≠ 0 then hexText 4 (k.caid.setWidth 32) else []) := by
  have hnone : ∀ (c : Char) (n : ℕ) (v : BitVec 32), gethexval c = none → c ∉ hexText n v :=
    fun c n v hc => notMem_hexText hc
  have hzero : whitelistKey 0 (a2i [] 6) = ⟨0, 0⟩ := by decide
  by_cases hcaid : k.caid = 0
  · by_cases hident : k.ident = 0
    · have htext : printKey [] k = [] := by
        unfold printKey
        rw [if_neg fun h => h.1 hcaid, if_neg (not_not.mpr hcaid), if_neg (not_not.mpr hident)]
      rw [htext, if_neg (not_not.mpr hcaid)]
      rfl
    · have hout : ':' ∉ '@' :: printfHex 6 k.ident := by
        rw [printfHex_six, List.mem_cons, not_or]
        exact ⟨by decide, hnone _ _ _ rfl⟩
      have htext : (printKey [] k).dropLast = '@' :: printfHex 6 k.ident := by
        unfold printKey
        rw [if_neg fun h => h.1 hcaid, if_neg (not_not.mpr hcaid), if_pos hident, List.dropLast_concat]
        rfl
      have hcut : cutAt '@' ('@' :: printfHex 6 k.ident) = ([], some (printfHex 6 k.ident)) :=
        cutAt_append (s := []) List.not_mem_nil
      unfold whitelistPiece
      rw [htext, cutAt_of_notMem hout, if_neg (not_not.mpr hcaid)]
      dsimp only
      rw [hcut]
      dsimp only
      rw [hzero]
  · rw [if_pos hcaid]
    by_cases hident : k.ident = 0
    · have htext : (printKey [] k).dropLast = hexText 4 (k.caid.setWidth 32) := by
        unfold printKey
        rw [if_neg fun h => h.2 hident, if_pos hcaid, printfHex_four, List.dropLast_concat]
        rfl
      unfold whitelistPiece
      rw [htext, cutAt_of_notMem (hnone _ _ _ rfl)]
      dsimp only
      rw [cutAt_of_notMem (hnone _ _ _ rfl)]
      rfl
    · have hout : ':' ∉ hexText 4 (k.caid.setWidth 32) ++ '@' :: printfHex 6 k.ident := by
        rw [printfHex_six, List.mem_append, List.mem_cons, not_or, not_or]
        exact ⟨hnone _ _ _ rfl, by decide, hnone _ _ _ rfl⟩
      have htext : (printKey [] k).dropLast =
          hexText 4 (k.caid.setWidth 32) ++ '@' :: printfHex 6 k.ident := by
        unfold printKey
        rw [if_pos ⟨hcaid, hident⟩, printfHex_four, List.dropLast_concat]
        simp
      unfold whitelistPiece
      rw [htext, cutAt_of_notMem hout]
      dsimp only
      rw [cutAt_append (hnone _ _ _ rfl)]
      dsimp only
      rw [hzero]

theorem semicolon_notMem_printKey : ';' ∉ printKey [] k := by
  have hcaid : ';' ∉ printfHex 4 (k.caid.setWidth 32) := by
    rw [printfHex_four]
    exact notMem_hexText rfl
  have hident : ';' ∉ printfHex 6 k.ident := by
    rw [printfHex_six]
    exact notMem_hexText rfl
  unfold printKey
  split_ifs <;> simp [hcaid, hident]

theorem length_printKey : (printKey [] k).length = keyWidth k := by
  have hfour : (printfHex 4 (k.caid.setWidth 32)).length = 4 := by
    rw [length_printfHex (by omega), hexWidth_of_lt (by omega) toNat_caid]
  have hsix := @length_ident k.ident
  unfold printKey keyWidth
  by_cases hcaid : k.caid ≠ 0
  · rw [if_pos hcaid, if_pos (Or.inl hcaid), if_pos hcaid]
    by_cases hident : k.ident ≠ 0
    · rw [if_pos ⟨hcaid, hident⟩, if_pos hident]
      simp only [List.length_append, List.length_nil, List.length_singleton, hfour, hsix]
      omega
    · rw [if_neg fun h => hident h.2, if_neg hident]
      simp only [List.length_append, List.length_nil, List.length_singleton, hfour]
  · rw [if_neg fun h => hcaid h.1, if_neg hcaid, if_neg hcaid]
    by_cases hident : k.ident ≠ 0
    · rw [if_pos hident, if_pos hident, if_pos (Or.inr hident)]
      simp only [List.length_append, List.length_nil, List.length_singleton, hsix]
      omega
    · rw [if_neg hident, if_neg hident, if_neg fun h => h.elim hcaid hident]
      rfl

end Key

section Needed

variable {α : Type} {key : α → WhitelistKey} {width : α → ℕ} {last : Option WhitelistKey} {es : List α}
  {e : α}

theorem needed_append : needed key width last (es ++ [e]) = needed key width last es +
    ((if (es.getLast?.map key).or last = some (key e) then 0 else keyWidth (key e)) + width e + 1) := by
  induction es generalizing last with
  | nil => exact Nat.add_comm _ _
  | cons a es ih =>
    have hlast : ((a :: es).getLast?.map key).or last = (es.getLast?.map key).or (some (key a)) := by
      rw [List.getLast?_cons]
      cases es.getLast? <;> rfl
    rw [hlast]
    change _ + needed key width (some (key a)) (es ++ [e]) = _ + needed key width (some (key a)) es + _
    rw [ih]
    omega

end Needed

/-- One kind of list: what is compared of its entries, how their items are written and read, and as what an
entry comes back. -/
structure WhitelistFormat (α β : Type) where
  key : α → WhitelistKey
  print : List Char → α → List (List Char)
  items : WhitelistKey → List Char → List α
  view : α → β
  again : α → β
  item : α → List Char
  parse : WhitelistKey → List Char → Option β
  flatten_print : ∀ comma e, (print comma e).flatten = comma ++ item e
  items_eq : ∀ k s, Plain s → (items k s).map view = (strtok ',' s).filterMap (parse k)
  plain_item : ∀ e, ∀ c ∈ item e, gethexval c ≠ none

namespace WhitelistFormat

variable {α β : Type} (F : WhitelistFormat α β)

/-- An entry whose item is read back. -/
def Kept (e : α) : Prop := (F.key e).Kept ∧ F.item e ≠ [] ∧ F.parse (F.key e) (F.item e) = some (F.again e)

def read (value : List Char) : List β := (chkWhitelist F.items value).map F.view

def text (es : List α) : List Char := (printWhitelist F.key F.print es).flatten

/-- The next entry is printed behind a comma. -/
def Same (es : List α) (e : α) : Prop := es.getLast?.map F.key = some (F.key e)

instance (es : List α) (e : α) : Decidable (F.Same es e) := inferInstanceAs (Decidable (_ = _))

def separator (es : List α) : List Char := if es.isEmpty = true then [] else [';']

/-- What is printed for `e` behind `es`, but its item. -/
def beforeItem (es : List α) (e : α) : List Char :=
  if F.Same es e then [','] else separator es ++ printKey [] (F.key e)

variable {F} {es : List α} {e p : α} {s t : List Char} {k : WhitelistKey} {m : ℕ}

theorem foldl_printStep : es.foldl (printStep F.key F.print) ⟨[], [], [], none⟩ =
    ⟨printWhitelist F.key F.print es, separator es, if es.isEmpty = true then [] else [','],
      es.getLast?.map F.key⟩ := by
  induction es using List.reverseRecOn with
  | nil => rfl
  | append_singleton es e ih =>
    have hnonempty : (es ++ [e]).isEmpty = false := by simp
    have hlast : (es ++ [e]).getLast?.map F.key = some (F.key e) := by simp
    have hseparator : separator (es ++ [e]) = [';'] := by
      unfold separator
      rw [hnonempty]
      rfl
    unfold printWhitelist
    rw [List.foldl_append, List.foldl_cons, List.foldl_nil, ih, hlast, hseparator, hnonempty]
    unfold printStep
    by_cases hsame : es.getLast?.map F.key = some (F.key e)
    · have hone : separator es = [';'] := by
        unfold separator
        cases es with
        | nil => cases hsame
        | cons a es => rfl
      dsimp only
      rw [if_neg (not_not.mpr hsame), hone]
      rfl
    · dsimp only
      rw [if_pos hsame]
      rfl

/-- The texts of one more entry. -/
theorem printWhitelist_append : printWhitelist F.key F.print (es ++ [e]) =
    printWhitelist F.key F.print es ++
      if F.Same es e then F.print [','] e else printKey (separator es) (F.key e) :: F.print [] e := by
  have hstate := @foldl_printStep α β F es
  have hstep : printWhitelist F.key F.print (es ++ [e]) =
      (printStep F.key F.print ⟨printWhitelist F.key F.print es, separator es,
        if es.isEmpty = true then [] else [','], es.getLast?.map F.key⟩ e).texts := by
    rw [← hstate]
    unfold printWhitelist
    rw [List.foldl_append]
    rfl
  rw [hstep]
  unfold printStep
  by_cases hsame : F.Same es e
  · have hcomma : (if es.isEmpty = true then [] else [',']) = [','] := by
      cases es with
      | nil => cases hsame
      | cons a es => rfl
    have hlast : ¬ es.getLast?.map F.key ≠ some (F.key e) := not_not.mpr hsame
    dsimp only
    rw [if_neg hlast, if_pos hsame, hcomma]
  · have hlast : es.getLast?.map F.key ≠ some (F.key e) := hsame
    dsimp only
    rw [if_pos hlast, if_neg hsame, List.append_assoc]
    rfl

theorem text_append : F.text (es ++ [e]) = F.text es ++ F.beforeItem es e ++ F.item e := by
  unfold text beforeItem
  rw [printWhitelist_append, List.flatten_append, List.append_assoc]
  congr 1
  by_cases hsame : F.Same es e
  · rw [if_pos hsame, if_pos hsame, F.flatten_print]
  · rw [if_neg hsame, if_neg hsame, List.flatten_cons, F.flatten_print, printKey_append]
    rfl

/-- Each entry with its separator, the last one with the final zero in place of it. -/
theorem length_text {width : α → ℕ} (hwidth : ∀ x ∈ es, (F.item x).length = width x) (hne : es ≠ []) :
    (F.text es).length + 1 = needed F.key width none es := by
  induction es using List.reverseRecOn with
  | nil => exact absurd rfl hne
  | append_singleton es e ih =>
    have hkey := @length_printKey (F.key e)
    have hes : ∀ x ∈ es, (F.item x).length = width x := fun x hx => hwidth x (List.mem_append_left [e] hx)
    rw [text_append, needed_append, List.length_append, List.length_append,
      hwidth e (List.mem_append_right es List.mem_cons_self), Option.or_none]
    unfold beforeItem separator
    by_cases hsame : F.Same es e
    · have hlast : es.getLast?.map F.key = some (F.key e) := hsame
      cases hlist : es with
      | nil =>
        rw [hlist] at hlast
        cases hlast
      | cons a rest =>
        have hrest := ih hes (by rw [hlist]; exact List.cons_ne_nil a rest)
        rw [← hlist, if_pos hsame, if_pos hlast, ← hrest, List.length_singleton]
        omega
    · have hlast : ¬ es.getLast?.map F.key = some (F.key e) := hsame
      rw [if_neg hsame, if_neg hlast, List.length_append, hkey]
      cases hlist : es with
      | nil =>
        change 0 + (0 + _) + _ + 1 = 0 + _
        omega
      | cons a rest =>
        have hrest := ih hes (by rw [hlist]; exact List.cons_ne_nil a rest)
        rw [← hlist, ← hrest, hlist]
        change _ + (1 + _) + _ + 1 = _
        omega

/-- A semicolon separates what is read. -/
theorem read_append : F.read (s ++ ';' :: t) = F.read s ++ F.read t := by
  unfold read chkWhitelist
  rw [strtok_append_delim, List.flatMap_append, List.map_append]

theorem read_nil : F.read [] = [] := rfl

theorem read_piece (hne : s ≠ []) (hout : ';' ∉ s) (hplain : Plain (whitelistPiece s).2) :
    F.read s = (strtok ',' (whitelistPiece s).2).filterMap (F.parse (whitelistPiece s).1) := by
  unfold read chkWhitelist
  rw [strtok_token hne hout, List.flatMap_singleton, F.items_eq _ _ hplain]

/-- The items of one piece. -/
theorem read_printKey (h : k.Kept) (hs : Plain s) :
    F.read (printKey [] k ++ s) = (strtok ',' s).filterMap (F.parse k) := by
  have hpiece := whitelistPiece_printKey h hs
  by_cases hnil : printKey [] k ++ s = []
  · rw [hnil, read_nil, (List.append_eq_nil_iff.mp hnil).2]
    rfl
  · have hout : ';' ∉ printKey [] k ++ s := by
      rw [List.mem_append, not_or]
      exact ⟨semicolon_notMem_printKey, hs.notMem rfl (by decide)⟩
    rw [read_piece hnil hout (by rw [hpiece]; exact hs), hpiece]

theorem read_separator : F.read (F.text es ++ (separator es ++ t)) = F.read (F.text es) ++ F.read t := by
  cases es with
  | nil => rfl
  | cons a es => exact read_append

private theorem plain_item' : Plain (F.item e) := fun c hc => Or.inr (F.plain_item e c hc)

/-- Items behind the last entry are listed under its key. -/
private theorem read_comma (h : ∀ e ∈ es, F.Kept e) (he : F.Kept e) (ht : Plain t) :
    F.read (F.text (es ++ [e]) ++ ',' :: t) =
      F.read (F.text (es ++ [e])) ++ (strtok ',' t).filterMap (F.parse (F.key e)) := by
  induction es using List.reverseRecOn generalizing e t with
  | nil =>
    have hsame : ¬ F.Same [] e := by
      intro hsame
      cases hsame
    have htext : F.text ([] ++ [e]) = printKey [] (F.key e) ++ F.item e := by
      rw [text_append]
      unfold beforeItem
      rw [if_neg hsame]
      rfl
    rw [htext, List.append_assoc, read_printKey he.1 (plain_item'.append ht.comma),
      read_printKey he.1 plain_item', strtok_append_delim, List.filterMap_append]
  | append_singleton es p ih =>
    have hp : F.Kept p := h p (List.mem_append_right es List.mem_cons_self)
    have hes : ∀ e ∈ es, F.Kept e := fun x hx => h x (List.mem_append_left [p] hx)
    by_cases hsame : F.Same (es ++ [p]) e
    · have hkey : F.key p = F.key e := by
        unfold Same at hsame
        rw [List.getLast?_concat] at hsame
        exact Option.some.inj hsame
      have htext : F.text (es ++ [p] ++ [e]) = F.text (es ++ [p]) ++ ',' :: F.item e := by
        rw [text_append]
        unfold beforeItem
        rw [if_pos hsame, List.append_assoc, List.singleton_append]
      rw [htext, List.append_assoc, List.cons_append, ih hes hp (plain_item'.append ht.comma),
        ih hes hp plain_item', strtok_append_delim, List.filterMap_append, hkey, List.append_assoc]
    · have htext : F.text (es ++ [p] ++ [e]) =
          F.text (es ++ [p]) ++ (separator (es ++ [p]) ++ (printKey [] (F.key e) ++ F.item e)) := by
        rw [text_append]
        unfold beforeItem
        rw [if_neg hsame, List.append_assoc, List.append_assoc]
      rw [htext, List.append_assoc, List.append_assoc, List.append_assoc, read_separator, read_separator,
        read_printKey he.1 (plain_item'.append ht.comma), read_printKey he.1 plain_item',
        strtok_append_delim, List.filterMap_append, List.append_assoc]

/-- The items at the place of the last one. -/
theorem read_beforeItem (h : ∀ e ∈ es, F.Kept e) (he : F.Kept e) (ht : Plain t) :
    F.read (F.text es ++ F.beforeItem es e ++ t) =
      F.read (F.text es) ++ (strtok ',' t).filterMap (F.parse (F.key e)) := by
  unfold beforeItem
  by_cases hsame : F.Same es e
  · rw [if_pos hsame]
    cases es using List.reverseRecOn with
    | nil => cases hsame
    | append_singleton es p =>
      have hkey : F.key p = F.key e := by
        unfold Same at hsame
        rw [List.getLast?_concat] at hsame
        exact Option.some.inj hsame
      rw [List.append_assoc, List.singleton_append,
        read_comma (fun x hx => h x (List.mem_append_left [p] hx))
          (h p (List.mem_append_right es List.mem_cons_self)) ht, hkey]
  · rw [if_neg hsame, List.append_assoc, List.append_assoc, read_separator, read_printKey he.1 ht]

/-- The whole text is read back. -/
theorem read_text (h : ∀ e ∈ es, F.Kept e) : F.read (F.text es) = es.map F.again := by
  induction es using List.reverseRecOn with
  | nil => rfl
  | append_singleton es e ih =>
    have he : F.Kept e := h e (List.mem_append_right es List.mem_cons_self)
    have hes : ∀ e ∈ es, F.Kept e := fun x hx => h x (List.mem_append_left [e] hx)
    have hcomma : ',' ∉ F.item e := by
      intro hmem
      exact F.plain_item e ',' hmem rfl
    rw [text_append, read_beforeItem hes he plain_item', ih hes, strtok_token he.2.1 hcomma,
      List.filterMap_cons_some he.2.2, List.map_append]
    rfl

/-- The beginning of the text, up to a place in the last item. -/
theorem read_take (h : ∀ x ∈ es ++ [e], F.Kept x) (hm : m ≤ (F.item e).length) :
    F.read ((F.text (es ++ [e])).take ((F.text (es ++ [e])).length - m)) =
      es.map F.again ++ if m < (F.item e).length then
        (F.parse (F.key e) ((F.item e).take ((F.item e).length - m))).toList else [] := by
  have he : F.Kept e := h e (List.mem_append_right es List.mem_cons_self)
  have hes : ∀ e ∈ es, F.Kept e := fun x hx => h x (List.mem_append_left [e] hx)
  have hlen : (F.text (es ++ [e])).length - m =
      (F.text es ++ F.beforeItem es e).length + ((F.item e).length - m) := by
    rw [text_append, List.length_append]
    omega
  rw [hlen, text_append, List.take_length_add_append, read_beforeItem hes he plain_item'.take,
    read_text hes]
  congr 1
  by_cases hlt : m < (F.item e).length
  · have hne : (F.item e).take ((F.item e).length - m) ≠ [] := by
      intro hnil
      have hzero := congrArg List.length hnil
      rw [List.length_take, List.length_nil] at hzero
      omega
    have hcomma : ',' ∉ (F.item e).take ((F.item e).length - m) := by
      intro hmem
      exact F.plain_item e ',' (List.mem_of_mem_take hmem) rfl
    rw [if_pos hlt, strtok_token hne hcomma, List.filterMap_cons]
    cases F.parse (F.key e) ((F.item e).take ((F.item e).length - m)) <;> rfl
  · have hzero : (F.item e).length - m = 0 := by omega
    rw [if_neg hlt, hzero, List.take_zero]
    rfl

/-- The text without the last item, and without the comma before it. -/
theorem read_take_comma (h : ∀ e ∈ es, F.Kept e) (hsame : F.Same es e) :
    F.read ((F.text (es ++ [e])).take ((F.text (es ++ [e])).length - ((F.item e).length + 1))) =
      es.map F.again := by
  have htext := @text_append α β F es e
  unfold beforeItem at htext
  rw [if_pos hsame] at htext
  have hlen : (F.text (es ++ [e])).length - ((F.item e).length + 1) = (F.text es).length := by
    rw [htext, List.length_append, List.length_append, List.length_singleton]
    omega
  rw [hlen, htext, List.append_assoc, List.take_left, read_text h]

/-- The text without the last item, and without the last character of the key before it. -/
theorem read_take_key (h : ∀ e ∈ es, F.Kept e) (hsame : ¬ F.Same es e)
    (hlong : (F.item e).length < (F.text (es ++ [e])).length) :
    F.read ((F.text (es ++ [e])).take ((F.text (es ++ [e])).length - ((F.item e).length + 1))) =
      es.map F.again ++ if (F.key e).caid ≠ 0 then
        (F.parse ⟨0, 0⟩ (hexText 4 ((F.key e).caid.setWidth 32))).toList else [] := by
  have htext := @text_append α β F es e
  unfold beforeItem at htext
  rw [if_neg hsame] at htext
  have hlen : (F.text (es ++ [e])).length - ((F.item e).length + 1) =
      (F.text es ++ (separator es ++ printKey [] (F.key e))).length - 1 := by
    rw [htext, List.length_append]
    omega
  have htake : (F.text (es ++ [e])).take ((F.text (es ++ [e])).length - ((F.item e).length + 1)) =
      (F.text es ++ (separator es ++ printKey [] (F.key e))).dropLast := by
    rw [hlen, htext, List.dropLast_eq_take, List.take_append_of_le_length (Nat.sub_le _ 1)]
  rw [htake]
  by_cases hnil : printKey [] (F.key e) = []
  · have hcaid : (F.key e).caid = 0 := by
      by_contra hne
      unfold printKey at hnil
      split_ifs at hnil <;> simp at hnil
    rw [if_neg (not_not.mpr hcaid), hnil, List.append_nil, List.append_nil]
    cases es with
    | nil => rfl
    | cons a es =>
      have hone : separator (a :: es) = [';'] := rfl
      rw [hone, List.dropLast_concat, read_text h]
  · have hplain : Plain (if (F.key e).caid ≠ 0 then hexText 4 ((F.key e).caid.setWidth 32) else []) := by
      split_ifs
      · exact plain_hexText
      · exact plain_nil
    rw [List.dropLast_append_of_ne_nil (by simp [hnil]), List.dropLast_append_of_ne_nil hnil,
      read_separator, read_text h]
    congr 1
    have hpiece := @whitelistPiece_dropLast (F.key e)
    by_cases hempty : (printKey [] (F.key e)).dropLast = []
    · rw [hempty] at hpiece ⊢
      have hrest := congrArg Prod.snd hpiece
      have hcaid : (F.key e).caid = 0 := by
        by_contra hne
        rw [if_pos hne] at hrest
        have hzero := congrArg List.length hrest
        rw [length_hexText] at hzero
        cases hzero
      rw [if_neg (not_not.mpr hcaid)]
      rfl
    · have hout : ';' ∉ (printKey [] (F.key e)).dropLast :=
        fun hmem => semicolon_notMem_printKey ((List.dropLast_sublist _).subset hmem)
      rw [read_piece hempty hout (by rw [hpiece]; exact hplain), hpiece]
      by_cases hcaid : (F.key e).caid = 0
      · rw [if_neg (not_not.mpr hcaid), if_neg (not_not.mpr hcaid)]
        rfl
      · have hne : hexText 4 ((F.key e).caid.setWidth 32) ≠ [] := by
          intro hzero
          have hlen := congrArg List.length hzero
          rw [length_hexText] at hlen
          cases hlen
        rw [if_pos hcaid, if_pos hcaid, strtok_token hne (notMem_hexText rfl), List.filterMap_cons]
        cases F.parse ⟨0, 0⟩ (hexText 4 ((F.key e).caid.setWidth 32)) <;> rfl

end WhitelistFormat

end NCam.Conf
