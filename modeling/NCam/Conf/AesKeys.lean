import NCam.Conf.CacheexEntry
import NCam.Conf.Whitelist
import NCam.Util.HexBytes

/-! The AES keys of a reader: `mk_t_aeskeys` writes what `parse_aes_keys` has read. -/
namespace NCam.Conf

open NCam.Util

abbrev AesKey := Vector (BitVec 8) 16

structure AesEntry where
  keyid : BitVec 16
  caid : BitVec 16
  ident : BitVec 32
  plainkey : AesKey
  key : Option AesKey
  deriving DecidableEq

/-- A key that starts with `FFFF` is no key: the card decrypts. -/
def newAesEntry (caid : BitVec 16) (ident : BitVec 32) (keyid : ℕ) (aesKey : AesKey) : AesEntry :=
  ⟨.ofNat 16 keyid, caid, ident, aesKey,
    if aesKey.toList.take 2 = [0xFF, 0xFF] then none else some aesKey⟩

/-- `strtok_r` with the text that is left behind the delimiter. -/
def strtokNext (delim : Char) (s : List Char) : Option (List Char × List Char) :=
  match s.dropWhile (· = delim) with
  | [] => none
  | c :: cs => some ((c :: cs).takeWhile (· ≠ delim), ((c :: cs).dropWhile (· ≠ delim)).drop 1)

/-- The buffer of the key, the number of keys passed, and the entries added. -/
structure AesRead where
  aesKey : AesKey
  keyId : ℕ
  list : List AesEntry

/-- One key of an entry: 32 digits, or `FF` for the card, or `00` for none. -/
def readAesKey (caid : BitVec 16) (ident : BitVec 32) (s : AesRead) (tmp : List Char) : AesRead :=
  if tmp.length = 32 then
    let aesKey := keyAtobL tmp s.aesKey 32
    ⟨aesKey, s.keyId + 1, s.list ++ [newAesEntry caid ident s.keyId aesKey]⟩
  else
    let dummy := (a2i tmp 1).setWidth 16
    if ((dummy ≠ 0xFF ∧ dummy ≠ (0 : BitVec 16)) ∨ 2 < tmp.length) ∨ dummy = (0 : BitVec 16) then
      { s with keyId := s.keyId + 1 }
    else
      let aesKey := Vector.replicate 16 0xFF
      ⟨aesKey, s.keyId + 1, s.list ++ [newAesEntry caid ident s.keyId aesKey]⟩

/-- One `caid@ident:key0,key1`; `stack` is what the buffer of the key holds before. -/
def parseAesEntry (stack : AesKey) (value : List Char) : List AesEntry :=
  match strtokNext '@' value with
  | none => []
  | some (tmp, save) =>
    if 4 < tmp.length ∨ save = [] then []
    else
      match strtokNext ':' save with
      | none => []
      | some (tmp', save) =>
        if 6 < tmp'.length then []
        else
          ((strtok ',' save).foldl (readAesKey ((a2i tmp 2).setWidth 16) (a2i tmp' 3)) ⟨stack, 0, []⟩).list

/-- The entries from number `i` on. -/
def parseAesEntries (stack : ℕ → AesKey) : ℕ → List (List Char) → List AesEntry
  | _, [] => []
  | i, entry :: entries => parseAesEntry (stack i) entry ++ parseAesEntries stack (i + 1) entries

def parseAesKeys (stack : ℕ → AesKey) (value : List Char) : List AesEntry :=
  parseAesEntries stack 0 (strtok ';' value)

/-- The caid, the ident and the key id that were written last. -/
structure AesPrev where
  prevCaid : BitVec 16
  prevIdent : BitVec 32
  prevKeyid : ℤ

def AesEntry.prev (e : AesEntry) : AesPrev := ⟨e.caid, e.ident, e.keyid.toNat⟩

def AesPrev.Changed (prev : AesPrev) (cur : AesEntry) : Prop :=
  prev.prevCaid ≠ cur.caid ∨ prev.prevIdent ≠ cur.ident

instance (prev : AesPrev) (cur : AesEntry) : Decidable (prev.Changed cur) :=
  inferInstanceAs (Decidable (_ ∨ _))

/-- The first loop of `mk_t_aeskeys`. -/
def neededLoop (prev : AesPrev) : List AesEntry → ℤ
  | [] => 0
  | cur :: list =>
    (if prev.Changed cur then 12 + (cur.keyid.toNat : ℤ) * 2
      else if prev.prevKeyid ≠ cur.keyid.toNat + 1 then (cur.keyid.toNat - prev.prevKeyid - 1) * 2
      else 0) + 33 + neededLoop cur.prev list

def printAesKey (plainkey : AesKey) : List Char :=
  let tmpkey := (plainkey.toList.map hexByte).flatten
  if tmpkey = List.replicate 32 'F' then ['F', 'F'] else tmpkey

/-- The text of one key, behind `pos` characters. -/
def printAes (pos : ℕ) (prev : AesPrev) (cur : AesEntry) : List Char :=
  let changed := prev.Changed cur
  let prevKeyid := if changed then -1 else prev.prevKeyid
  let dot := if changed then ':' else ','
  let gaps := (cur.keyid.toNat - (prevKeyid + 1)).toNat
  (if changed then
    (if 0 < pos then [';'] else []) ++ printfHex 4 (cur.caid.setWidth 32) ++ ['@'] ++ printfHex 6 cur.ident
    else []) ++
    ((List.range gaps).map fun i => [if i = 0 then dot else ',', '0']).flatten ++
      (if gaps = 0 then dot else ',') :: printAesKey cur.plainkey

/-- The second loop. -/
def printAesLoop (pos : ℕ) (prev : AesPrev) : List AesEntry → List Char
  | [] => []
  | cur :: list =>
    printAes pos prev cur ++ printAesLoop (pos + (printAes pos prev cur).length) cur.prev list

/-- The text of `mk_t_aeskeys`, if its buffer is large enough for it and for the final zero. -/
def mkTAeskeys (aesList : List AesEntry) : Option (List Char) :=
  let tmp := printAesLoop 0 ⟨0, 0, 0⟩ aesList
  if (tmp.length : ℤ) + 1 ≤ 1 + neededLoop ⟨0, 0, 0⟩ aesList then some tmp else none

/-- The place of `b` behind `a` is found again: another caid or ident, a larger key id, or the key id 0 behind
the largest one. -/
def Follows (a b : AesEntry) : Prop :=
  a.caid = b.caid → a.ident = b.ident →
    a.keyid.toNat < b.keyid.toNat ∨ (a.keyid.toNat = 65535 ∧ b.keyid.toNat = 0)

/-- How often the key ids start again. -/
def keyWraps : List AesEntry → ℕ
  | a :: b :: list =>
    (if a.caid = b.caid ∧ a.ident = b.ident ∧ b.keyid.toNat ≤ a.keyid.toNat then 1 else 0) +
      keyWraps (b :: list)
  | _ => 0

/-- A key that is written as `FF`. -/
def AesEntry.OfCard (e : AesEntry) : Prop := e.plainkey = Vector.replicate 16 0xFF

instance (e : AesEntry) : Decidable e.OfCard := inferInstanceAs (Decidable (_ = _))

def cardKeys (list : List AesEntry) : ℕ := list.countP fun e => decide e.OfCard

/-- The lists that come back: they do not start with the caid 0 and the ident 0, every key id is found again,
and the short keys make up for the bytes that each wrap of the key ids takes from the buffer. -/
def AesKept (list : List AesEntry) : Prop :=
  (∀ e ∈ list.head?, e.caid ≠ 0 ∨ e.ident ≠ 0) ∧ list.IsChain Follows ∧
    131072 * keyWraps list ≤ 30 * cardKeys list + 1

/-- What `parse_aes_entry` adds. -/
def AesEntry.Read (e : AesEntry) : Prop :=
  e.ident.toNat < 16 ^ 6 ∧ newAesEntry e.caid e.ident e.keyid.toNat e.plainkey = e

section Key

variable {caid : BitVec 16} {ident : BitVec 32} {k stack : AesKey} {s : AesRead} {n : ℕ} {dot : Char}
  {t body value : List Char} {cur : AesEntry} {prev : AesPrev} {pos : ℕ}

private theorem hex_ofCard : ((Vector.replicate 16 0xFF : AesKey).toList.map hexByte).flatten =
    List.replicate 32 'F' := by decide

private theorem printAesKey_cases : (k = Vector.replicate 16 0xFF ∧ printAesKey k = ['F', 'F']) ∨
    (k ≠ Vector.replicate 16 0xFF ∧ printAesKey k = (k.toList.map hexByte).flatten) := by
  unfold printAesKey
  by_cases hall : (k.toList.map hexByte).flatten = List.replicate 32 'F'
  · left
    have hself := @keyAtobL_hexBytes 16 k k
    have hcard := @keyAtobL_hexBytes 16 k (Vector.replicate 16 0xFF)
    rw [hall] at hself
    rw [hex_ofCard] at hcard
    exact ⟨hself.symm.trans hcard, if_pos hall⟩
  · right
    refine ⟨?_, if_neg hall⟩
    rintro rfl
    exact hall hex_ofCard

private theorem length_hexKey : (k.toList.map hexByte).flatten.length = 32 := by
  rw [length_hexBytes, Vector.length_toList]

/-- A written key takes 32 characters, or two. -/
private theorem length_printAesKey :
    (printAesKey k).length + (if k = Vector.replicate 16 0xFF then 30 else 0) = 32 := by
  rcases @printAesKey_cases k with ⟨hcard, htext⟩ | ⟨hcard, htext⟩
  · rw [htext, if_pos hcard]
    rfl
  · rw [htext, if_neg hcard, length_hexKey]

private theorem isToken_printAesKey : printAesKey k ≠ [] ∧ ∀ c ∈ printAesKey k, gethexval c ≠ none := by
  rcases @printAesKey_cases k with ⟨-, htext⟩ | ⟨-, htext⟩
  · rw [htext]
    refine ⟨List.cons_ne_nil _ _, fun c hc => ?_⟩
    rcases List.mem_cons.mp hc with rfl | hc
    · decide
    · rw [List.mem_singleton.mp hc]
      decide
  · rw [htext]
    refine ⟨?_, hex_hexBytes⟩
    intro hnil
    have hlen := @length_hexKey k
    rw [hnil] at hlen
    cases hlen

/-- A written key is read back. -/
private theorem readAesKey_print : readAesKey caid ident s (printAesKey k) =
    ⟨k, s.keyId + 1, s.list ++ [newAesEntry caid ident s.keyId k]⟩ := by
  rcases @printAesKey_cases k with ⟨rfl, htext⟩ | ⟨-, htext⟩
  · have hdummy : (a2i ['F', 'F'] 1).setWidth 16 = (0xFF : BitVec 16) := by decide
    unfold readAesKey
    rw [htext, if_neg (by decide), hdummy]
    exact if_neg (by decide)
  · unfold readAesKey
    rw [htext, if_pos length_hexKey]
    have hback := @keyAtobL_hexBytes 16 s.aesKey k
    change keyAtobL _ _ 32 = k at hback
    rw [hback]

private theorem readAesKey_zero : readAesKey caid ident s ['0'] = { s with keyId := s.keyId + 1 } := by
  have hdummy : (a2i ['0'] 1).setWidth 16 = (0 : BitVec 16) := by decide
  unfold readAesKey
  rw [if_neg (by decide), hdummy]
  exact if_pos (Or.inr rfl)

/-- The tokens of one key with the zeros before it. -/
private def keyTokens (n : ℕ) (k : AesKey) : List (List Char) := List.replicate n ['0'] ++ [printAesKey k]

private theorem areTokens_keyTokens : AreTokens ',' (keyTokens n k) := by
  intro t ht
  rcases List.mem_append.mp ht with ht | ht
  · rw [List.eq_of_mem_replicate ht]
    decide
  · rw [List.mem_singleton.mp ht]
    exact ⟨isToken_printAesKey.1, fun hc => isToken_printAesKey.2 ',' hc rfl⟩

private theorem foldl_keyTokens : (keyTokens n k).foldl (readAesKey caid ident) s =
    ⟨k, s.keyId + n + 1, s.list ++ [newAesEntry caid ident (s.keyId + n) k]⟩ := by
  unfold keyTokens
  induction n generalizing s with
  | zero => exact readAesKey_print
  | succ n ih =>
    have hsum : s.keyId + 1 + n = s.keyId + (n + 1) := by omega
    rw [List.replicate_succ, List.cons_append, List.foldl_cons, readAesKey_zero, ih]
    change (⟨k, s.keyId + 1 + n + 1, s.list ++ [newAesEntry caid ident (s.keyId + 1 + n) k]⟩ : AesRead) = _
    rw [hsum]

private theorem plain_keyTokens : Plain (joinTokens ',' (keyTokens n k)) := by
  unfold keyTokens
  induction n with
  | zero => exact fun c hc => Or.inr (isToken_printAesKey.2 c hc)
  | succ n ih =>
    obtain ⟨w, ws, hws⟩ : ∃ w ws, List.replicate n ['0'] ++ [printAesKey k] = w :: ws :=
      List.exists_cons_of_ne_nil (by simp)
    rw [hws] at ih
    rw [List.replicate_succ, List.cons_append, hws]
    change Plain (['0'] ++ ',' :: joinTokens ',' (w :: ws))
    refine Plain.append ?_ ih.comma
    intro c hc
    rw [List.mem_singleton.mp hc]
    decide

private theorem length_keyTokens :
    (joinTokens ',' (keyTokens n k)).length = 2 * n + (printAesKey k).length := by
  have hzeros : lastStart (List.replicate n ['0']) = 2 * n := by
    induction n with
    | zero => rfl
    | succ n ih =>
      unfold lastStart at ih ⊢
      rw [List.replicate_succ, List.map_cons, List.sum_cons, ih]
      change 2 + 2 * n = _
      omega
  unfold keyTokens
  rw [length_joinTokens_append, hzeros]

/-- The zeros are printed one by one, the first separator is the one of the key. -/
private theorem zeros_append :
    ((List.range n).map fun i => [if i = 0 then dot else ',', '0']).flatten ++ (if n = 0 then dot else ',') :: t =
      dot :: joinTokens ',' (List.replicate n ['0'] ++ [t]) := by
  induction n generalizing t with
  | zero => rfl
  | succ n ih =>
    have htwo := @joinTokens_append_two ',' ['0'] t (List.replicate n ['0'])
    have hrep : List.replicate n ['0'] ++ [['0'], t] = List.replicate (n + 1) ['0'] ++ [t] := by
      rw [List.replicate_succ', List.append_assoc]
      rfl
    rw [hrep] at htwo
    rw [List.range_succ, List.map_append, List.flatten_append, ← htwo, List.append_assoc]
    exact ih

/-- What is printed where the caid or the ident changes. -/
private def aesHeader (caid : BitVec 16) (ident : BitVec 32) : List Char :=
  hexText 4 (caid.setWidth 32) ++ '@' :: hexText 6 ident

/-- The zeros before a key: as many as key ids are left out. -/
private def gapsOf (prev : AesPrev) (cur : AesEntry) : ℕ :=
  (cur.keyid.toNat - ((if prev.Changed cur then -1 else prev.prevKeyid) + 1)).toNat

private theorem printAes_eq (hident : cur.ident.toNat < 16 ^ 6) : printAes pos prev cur =
    (if prev.Changed cur then
      (if 0 < pos then [';'] else []) ++ (aesHeader cur.caid cur.ident ++ [':']) else [',']) ++
      joinTokens ',' (keyTokens (gapsOf prev cur) cur.plainkey) := by
  have hcaid : printfHex 4 (cur.caid.setWidth 32) = hexText 4 (cur.caid.setWidth 32) := by
    rw [printfHex_eq (by omega), hexWidth_of_lt (by omega) toNat_caid]
  have hsix : printfHex 6 cur.ident = hexText 6 cur.ident := by
    rw [printfHex_eq (by omega), hexWidth_of_lt (by omega) hident]
  have hzeros := @zeros_append (gapsOf prev cur) (if prev.Changed cur then ':' else ',')
    (printAesKey cur.plainkey)
  unfold printAes
  dsimp only
  rw [hcaid, hsix, List.append_assoc]
  change _ ++ (((List.range (gapsOf prev cur)).map fun i =>
    [if i = 0 then (if prev.Changed cur then ':' else ',') else ',', '0']).flatten ++
      (if gapsOf prev cur = 0 then (if prev.Changed cur then ':' else ',') else ',') ::
        printAesKey cur.plainkey) = _
  rw [hzeros]
  unfold keyTokens aesHeader
  by_cases hchanged : prev.Changed cur
  · rw [if_pos hchanged, if_pos hchanged, if_pos hchanged]
    simp
  · rw [if_neg hchanged, if_neg hchanged, if_neg hchanged]
    rfl

private theorem strtokNext_append {delim : Char} (hne : t ≠ []) (hout : delim ∉ t) :
    strtokNext delim (t ++ delim :: body) = some (t, body) := by
  have hcut : ∀ c ∈ t, decide (c ≠ delim) = true := by
    intro c hc
    have hne : c ≠ delim := fun heq => hout (heq ▸ hc)
    exact decide_eq_true hne
  obtain ⟨c, cs, rfl⟩ := List.exists_cons_of_ne_nil hne
  have hstart : (c :: cs ++ delim :: body).dropWhile (· = delim) = c :: (cs ++ delim :: body) := by
    rw [List.cons_append, List.dropWhile_cons_of_neg]
    have hfirst : c ≠ delim := fun heq => hout (heq ▸ List.mem_cons_self)
    simp [hfirst]
  unfold strtokNext
  rw [hstart]
  dsimp only
  rw [← List.cons_append, List.takeWhile_append_of_pos hcut, List.dropWhile_append_of_pos hcut,
    List.takeWhile_cons_of_neg (by simp), List.dropWhile_cons_of_neg (by simp), List.append_nil]
  rfl

/-- An entry as it is printed. -/
private theorem parseAesEntry_header (hident : ident.toNat < 16 ^ 6) :
    parseAesEntry stack (aesHeader caid ident ++ ':' :: body) =
      ((strtok ',' body).foldl (readAesKey caid ident) ⟨stack, 0, []⟩).list := by
  have hcaid : (a2i (hexText 4 (caid.setWidth 32)) 2).setWidth 16 = caid := by
    rw [read_caidText (by omega) toNat_caid, Nat.mod_eq_of_lt toNat_caid, BitVec.ofNat_toNat]
    simp
  have hread : a2i (hexText 6 ident) 3 = ident := by
    change a2i (hexText 6 ident) ((3 : ℕ) : ℤ) = ident
    rw [a2i_hexText (by omega)]
    change BitVec.ofNat 32 (ident.toNat % 16 ^ 6) = ident
    rw [Nat.mod_eq_of_lt hident, BitVec.ofNat_toNat, BitVec.setWidth_eq]
  have hne : ∀ (m : ℕ) (v : BitVec 32), 0 < m → hexText m v ≠ [] := by
    intro m v hm hnil
    have hlen := congrArg List.length hnil
    rw [length_hexText, List.length_nil] at hlen
    omega
  have hfirst : strtokNext '@' (aesHeader caid ident ++ ':' :: body) =
      some (hexText 4 (caid.setWidth 32), hexText 6 ident ++ ':' :: body) := by
    unfold aesHeader
    rw [List.append_assoc, List.cons_append]
    exact strtokNext_append (hne _ _ (by omega)) (notMem_hexText rfl)
  have hsecond : strtokNext ':' (hexText 6 ident ++ ':' :: body) = some (hexText 6 ident, body) :=
    strtokNext_append (hne _ _ (by omega)) (notMem_hexText rfl)
  unfold parseAesEntry
  rw [hfirst]
  dsimp only
  rw [length_hexText, if_neg (by simp), hsecond]
  dsimp only
  rw [length_hexText, if_neg (by omega), hcaid, hread]

/-- A text without a caid has no entries. -/
private theorem parseAesEntry_of_notMem (h : '@' ∉ value) : parseAesEntry stack value = [] := by
  have hall : ∀ c ∈ value, decide (c ≠ '@') = true := by
    intro c hc
    have hne : c ≠ '@' := fun heq => h (heq ▸ hc)
    exact decide_eq_true hne
  unfold parseAesEntry strtokNext
  cases value with
  | nil => rfl
  | cons c cs =>
    have hfirst : c ≠ '@' := fun heq => h (heq ▸ List.mem_cons_self)
    rw [List.dropWhile_cons_of_neg (by simp [hfirst])]
    dsimp only
    rw [List.dropWhile_eq_nil_iff.mpr hall]
    exact if_pos (Or.inr rfl)

end Key

section Text

variable {caid : BitVec 16} {ident : BitVec 32} {stack : ℕ → AesKey} {a e : AesEntry} {prev : AesPrev}
  {list : List AesEntry} {pos i n p : ℕ} {body : List Char}

/-- What comes back when `p` keys of the group are read. -/
private def rereadAes (p : ℕ) (prev : AesPrev) : List AesEntry → List AesEntry
  | [] => []
  | e :: list =>
    newAesEntry e.caid e.ident ((if prev.Changed e then 0 else p) + gapsOf prev e) e.plainkey ::
      rereadAes ((if prev.Changed e then 0 else p) + gapsOf prev e + 1) e.prev list

private theorem length_rereadAes : (rereadAes p prev list).length = list.length := by
  induction list generalizing p prev with
  | nil => rfl
  | cons e list ih =>
    unfold rereadAes
    rw [List.length_cons, List.length_cons, ih]

/-- A key with its zeros, as it is printed. -/
private def keyText (prev : AesPrev) (e : AesEntry) : List Char :=
  joinTokens ',' (keyTokens (gapsOf prev e) e.plainkey)

private theorem plain_keyText : Plain (keyText prev e) := plain_keyTokens

private theorem foldl_keyText {s : AesRead} : (strtok ',' (keyText prev e)).foldl (readAesKey caid ident) s =
    ⟨e.plainkey, s.keyId + gapsOf prev e + 1,
      s.list ++ [newAesEntry caid ident (s.keyId + gapsOf prev e) e.plainkey]⟩ := by
  unfold keyText
  rw [strtok_joinTokens areTokens_keyTokens, foldl_keyTokens]

private theorem printAes_changed (hident : e.ident.toNat < 16 ^ 6) (hchanged : prev.Changed e) :
    printAes pos prev e = (if 0 < pos then [';'] else []) ++
      (aesHeader e.caid e.ident ++ ':' :: keyText prev e) := by
  rw [printAes_eq hident, if_pos hchanged, List.append_assoc, List.append_assoc]
  rfl

private theorem printAes_same (hident : e.ident.toNat < 16 ^ 6) (hsame : ¬ prev.Changed e) :
    printAes pos prev e = ',' :: keyText prev e := by
  rw [printAes_eq hident, if_neg hsame]
  rfl

private theorem notMem_aesHeader (hbody : Plain body) : ';' ∉ aesHeader caid ident ++ ':' :: body := by
  unfold aesHeader
  simp only [List.mem_append, List.mem_cons, not_or]
  exact ⟨⟨notMem_hexText rfl, by decide, notMem_hexText rfl⟩, by decide, hbody.notMem rfl (by decide)⟩

private theorem aesHeader_ne_nil : aesHeader caid ident ++ ':' :: body ≠ [] := by
  unfold aesHeader
  simp

/-- The text behind the keys of a group that are printed before. -/
private theorem parse_printAesLoop (hident : ∀ e ∈ list, e.ident.toNat < 16 ^ 6)
    (hprev : prev.prevIdent.toNat < 16 ^ 6) (hpos : 0 < pos) (hbody : Plain body) :
    parseAesEntries stack i
        (strtok ';' (aesHeader prev.prevCaid prev.prevIdent ++ ':' :: (body ++ printAesLoop pos prev list))) =
      ((strtok ',' body).foldl (readAesKey prev.prevCaid prev.prevIdent) ⟨stack i, 0, []⟩).list ++
        rereadAes ((strtok ',' body).foldl (readAesKey prev.prevCaid prev.prevIdent) ⟨stack i, 0, []⟩).keyId
          prev list := by
  induction list generalizing prev body pos i with
  | nil =>
    unfold printAesLoop rereadAes
    rw [List.append_nil, strtok_token aesHeader_ne_nil (notMem_aesHeader hbody)]
    change parseAesEntry (stack i) _ ++ [] = _
    rw [parseAesEntry_header hprev]
  | cons e list ih =>
    have he := hident e List.mem_cons_self
    have hrest : ∀ e ∈ list, e.ident.toNat < 16 ^ 6 := fun x hx => hident x (List.mem_cons_of_mem e hx)
    have hnext : 0 < pos + (printAes pos prev e).length := by omega
    unfold printAesLoop rereadAes
    by_cases hchanged : prev.Changed e
    · have hstep := @ih e.prev _ (i + 1) _ hrest he hnext (@plain_keyText e prev)
      rw [foldl_keyText] at hstep
      rw [if_pos hchanged]
      nth_rewrite 1 [printAes_changed he hchanged]
      rw [if_pos hpos, List.append_assoc, List.append_assoc, List.cons_append, List.nil_append,
        ← List.cons_append, ← List.append_assoc, strtok_append aesHeader_ne_nil (notMem_aesHeader hbody)]
      change parseAesEntry (stack i) _ ++ parseAesEntries stack (i + 1) _ = _
      rw [parseAesEntry_header hprev]
      congr 1
    · have hcaid : e.prev.prevCaid = prev.prevCaid := (not_not.mp fun h => hchanged (Or.inl h)).symm
      have hsame : e.prev.prevIdent = prev.prevIdent := (not_not.mp fun h => hchanged (Or.inr h)).symm
      have hecaid : e.caid = prev.prevCaid := hcaid
      have heident : e.ident = prev.prevIdent := hsame
      have hstep := @ih e.prev _ i _ hrest he hnext (hbody.append (@plain_keyText e prev).comma)
      rw [strtok_append_delim, List.foldl_append, foldl_keyText, hcaid, hsame] at hstep
      rw [if_neg hchanged, hecaid, heident]
      nth_rewrite 1 [printAes_same he hchanged]
      rw [← List.append_assoc, hstep, List.append_assoc]
      rfl

/-- A text without a caid before the next group. -/
private theorem parse_noEntry (hbody : Plain body) (ts : List (List Char)) :
    ∃ j, parseAesEntries stack i (strtok ';' body ++ ts) = parseAesEntries stack j ts := by
  by_cases hnil : body = []
  · rw [hnil]
    exact ⟨i, rfl⟩
  · use i + 1
    rw [strtok_token hnil (hbody.notMem rfl (by decide)), List.singleton_append]
    change parseAesEntry (stack i) body ++ _ = _
    rw [parseAesEntry_of_notMem (hbody.notMem rfl (by decide)), List.nil_append]

/-- Without a header nothing of the first group is read. -/
private theorem length_parse_le (hident : ∀ e ∈ list, e.ident.toNat < 16 ^ 6) (hpos : 0 < pos)
    (hbody : Plain body) :
    (parseAesEntries stack i (strtok ';' (body ++ printAesLoop pos prev list))).length ≤ list.length := by
  induction list generalizing prev body pos with
  | nil =>
    obtain ⟨j, hj⟩ := @parse_noEntry stack i body hbody []
    unfold printAesLoop
    rw [List.append_nil] at hj ⊢
    rw [hj]
    exact Nat.le_refl 0
  | cons e list ih =>
    have he := hident e List.mem_cons_self
    have hrest : ∀ e ∈ list, e.ident.toNat < 16 ^ 6 := fun x hx => hident x (List.mem_cons_of_mem e hx)
    have hnext : 0 < pos + (printAes pos prev e).length := by omega
    unfold printAesLoop
    by_cases hchanged : prev.Changed e
    · nth_rewrite 1 [printAes_changed he hchanged]
      rw [if_pos hpos, List.append_assoc, List.append_assoc, List.singleton_append, List.cons_append,
        strtok_append_delim]
      obtain ⟨j, hj⟩ := @parse_noEntry stack i body hbody (strtok ';' (aesHeader e.caid e.ident ++
        ':' :: (keyText prev e ++ printAesLoop (pos + (printAes pos prev e).length) e.prev list)))
      have hstep := @parse_printAesLoop stack e.prev list _ j _ hrest he hnext (@plain_keyText e prev)
      change parseAesEntries stack j (strtok ';' (aesHeader e.caid e.ident ++ _)) = _ at hstep
      rw [foldl_keyText] at hstep
      rw [hj, hstep, List.length_append, length_rereadAes]
      exact Nat.le_of_eq (Nat.add_comm 1 list.length)
    · nth_rewrite 1 [printAes_same he hchanged]
      rw [← List.append_assoc]
      exact Nat.le_succ_of_le (ih hrest hnext (hbody.append (@plain_keyText e prev).comma))

/-- An entry comes back if its key id is counted. -/
private theorem newAesEntry_iff (he : e.Read) :
    newAesEntry e.caid e.ident n e.plainkey = e ↔ n % 65536 = e.keyid.toNat := by
  constructor
  · intro heq
    have hkeyid := congrArg (fun x => x.keyid.toNat) heq
    exact hkeyid
  · intro hn
    have hkeyid : BitVec.ofNat 16 n = BitVec.ofNat 16 e.keyid.toNat := by
      apply BitVec.eq_of_toNat_eq
      rw [BitVec.toNat_ofNat, BitVec.toNat_ofNat]
      omega
    have hself := he.2
    unfold newAesEntry at hself ⊢
    rw [hkeyid]
    exact hself

private theorem follows_iff (hp : p % 65536 = (a.keyid.toNat + 1) % 65536) :
    Follows a e ↔ ((if a.prev.Changed e then 0 else p) + gapsOf a.prev e) % 65536 = e.keyid.toNat := by
  have halt := a.keyid.isLt
  have helt := e.keyid.isLt
  unfold Follows gapsOf
  by_cases hchanged : a.prev.Changed e
  · rw [if_pos hchanged, if_pos hchanged]
    have hgaps : ((e.keyid.toNat : ℤ) - (-1 + 1)).toNat = e.keyid.toNat := by omega
    rw [hgaps, Nat.zero_add, Nat.mod_eq_of_lt helt]
    refine ⟨fun _ => rfl, fun _ hcaid hident => ?_⟩
    rcases hchanged with h | h
    · exact absurd hcaid h
    · exact absurd hident h
  · rw [if_neg hchanged, if_neg hchanged]
    have hcaid : a.caid = e.caid := not_not.mp fun h => hchanged (Or.inl h)
    have hident : a.ident = e.ident := not_not.mp fun h => hchanged (Or.inr h)
    change _ ↔ (p + ((e.keyid.toNat : ℤ) - ((a.keyid.toNat : ℤ) + 1)).toNat) % 65536 = e.keyid.toNat
    constructor
    · intro h
      have hid := h hcaid hident
      omega
    · intro h _ _
      omega

private theorem rereadAes_iff (hread : ∀ e ∈ list, e.Read) (hp : p % 65536 = (a.keyid.toNat + 1) % 65536) :
    rereadAes p a.prev list = list ↔ (a :: list).IsChain Follows := by
  induction list generalizing a p with
  | nil => exact ⟨fun _ => List.isChain_singleton a, fun _ => rfl⟩
  | cons e list ih =>
    have he := hread e List.mem_cons_self
    have hrest : ∀ e ∈ list, e.Read := fun x hx => hread x (List.mem_cons_of_mem e hx)
    unfold rereadAes
    rw [List.cons.injEq, newAesEntry_iff he, List.isChain_cons_cons, follows_iff hp]
    refine and_congr_right fun hid => ih hrest ?_
    omega

private theorem length_keyText : (keyText prev e).length + 30 * (if e.OfCard then 1 else 0) =
    2 * gapsOf prev e + 32 := by
  have hkey := @length_printAesKey e.plainkey
  unfold keyText
  rw [length_keyTokens]
  by_cases hcard : e.OfCard
  · have hplain : e.plainkey = Vector.replicate 16 0xFF := hcard
    rw [if_pos hplain] at hkey
    rw [if_pos hcard]
    omega
  · have hplain : ¬ e.plainkey = Vector.replicate 16 0xFF := hcard
    rw [if_neg hplain] at hkey
    rw [if_neg hcard]
    omega

private theorem length_aesHeader : (aesHeader caid ident).length = 11 := by
  unfold aesHeader
  rw [List.length_append, List.length_cons, length_hexText, length_hexText]

private theorem cardKeys_cons : cardKeys (e :: list) = cardKeys list + if e.OfCard then 1 else 0 := by
  unfold cardKeys
  rw [List.countP_cons]
  simp only [decide_eq_true_eq]

/-- Every wrap of the key ids is missing in the estimate, every short key is left over. -/
private theorem length_printAesLoop (hident : ∀ e ∈ list, e.ident.toNat < 16 ^ 6) (hpos : 0 < pos)
    (hchain : (a :: list).IsChain Follows) : ((printAesLoop pos a.prev list).length : ℤ) + 30 * cardKeys list =
      neededLoop a.prev list + 131072 * keyWraps (a :: list) := by
  induction list generalizing a pos with
  | nil => rfl
  | cons e list ih =>
    rw [List.isChain_cons_cons] at hchain
    have he := hident e List.mem_cons_self
    have hrest : ∀ e ∈ list, e.ident.toNat < 16 ^ 6 := fun x hx => hident x (List.mem_cons_of_mem e hx)
    have hstep := ih hrest (Nat.lt_of_lt_of_le hpos (Nat.le_add_right pos (printAes pos a.prev e).length))
      hchain.2
    have hkey := @length_keyText e a.prev
    unfold printAesLoop neededLoop keyWraps
    rw [List.length_append, Nat.cast_add, cardKeys_cons, Nat.cast_add, Nat.cast_add]
    have hgaps : ((printAes pos a.prev e).length : ℤ) + 30 * ((if e.OfCard then 1 else 0 : ℕ) : ℤ) =
        (if a.prev.Changed e then 12 + (e.keyid.toNat : ℤ) * 2
          else if a.prev.prevKeyid ≠ e.keyid.toNat + 1 then (e.keyid.toNat - a.prev.prevKeyid - 1) * 2
          else 0) + 33 + 131072 * ((if a.caid = e.caid ∧ a.ident = e.ident ∧ e.keyid.toNat ≤ a.keyid.toNat then 1
            else 0 : ℕ) : ℤ) := by
      by_cases hchanged : a.prev.Changed e
      · have hno : ¬ (a.caid = e.caid ∧ a.ident = e.ident ∧ e.keyid.toNat ≤ a.keyid.toNat) := by
          rintro ⟨hcaid, hid, -⟩
          rcases hchanged with h | h
          · exact h hcaid
          · exact h hid
        have hheader := @length_aesHeader e.caid e.ident
        have hzeros : gapsOf a.prev e = e.keyid.toNat := by
          unfold gapsOf
          rw [if_pos hchanged]
          omega
        rw [printAes_changed he hchanged, if_pos hpos, if_pos hchanged, if_neg hno, List.length_append,
          List.length_append, List.length_cons, hheader, List.length_nil, List.length_cons]
        omega
      · have hid : a.keyid.toNat < e.keyid.toNat ∨ (a.keyid.toNat = 65535 ∧ e.keyid.toNat = 0) :=
          hchain.1 (not_not.mp fun h => hchanged (Or.inl h)) (not_not.mp fun h => hchanged (Or.inr h))
        have hzeros : gapsOf a.prev e = (e.keyid.toNat - (a.keyid.toNat + 1) : ℤ).toNat := by
          unfold gapsOf
          rw [if_neg hchanged]
          rfl
        have hprev : a.prev.prevKeyid = a.keyid.toNat := rfl
        have hne : (a.keyid.toNat : ℤ) ≠ e.keyid.toNat + 1 := by omega
        rw [printAes_same he hchanged, if_neg hchanged, List.length_cons, hprev, if_pos hne]
        by_cases hwrap : a.caid = e.caid ∧ a.ident = e.ident ∧ e.keyid.toNat ≤ a.keyid.toNat
        · rw [if_pos hwrap]
          omega
        · have hlt : ¬ e.keyid.toNat ≤ a.keyid.toNat := fun h => hwrap
            ⟨not_not.mp fun h => hchanged (Or.inl h), not_not.mp fun h => hchanged (Or.inr h), h⟩
          rw [if_neg hwrap]
          omega
    omega

/-- What is read has an ident of three bytes. -/
private theorem read_newAesEntry {k : AesKey} (hident : ident.toNat < 16 ^ 6) :
    (newAesEntry caid ident n k).Read := by
  refine ⟨hident, ?_⟩
  change newAesEntry caid ident (n % 65536) k = _
  have hkeyid : BitVec.ofNat 16 (n % 65536) = BitVec.ofNat 16 n := by
    apply BitVec.eq_of_toNat_eq
    rw [BitVec.toNat_ofNat, BitVec.toNat_ofNat]
    omega
  unfold newAesEntry
  rw [hkeyid]

private theorem read_foldl {s : AesRead} (hident : ident.toNat < 16 ^ 6) (hs : ∀ e ∈ s.list, e.Read)
    (tokens : List (List Char)) : ∀ e ∈ (tokens.foldl (readAesKey caid ident) s).list, e.Read := by
  induction tokens generalizing s with
  | nil => exact hs
  | cons t tokens ih =>
    apply ih
    have hnew : ∀ k : AesKey, ∀ e ∈ s.list ++ [newAesEntry caid ident s.keyId k], e.Read := by
      intro k e he
      rcases List.mem_append.mp he with he | he
      · exact hs e he
      · rw [List.mem_singleton.mp he]
        exact read_newAesEntry hident
    unfold readAesKey
    dsimp only
    split_ifs
    · exact hnew _
    · exact hs
    · exact hnew _

private theorem read_parseAesEntry {k : AesKey} : ∀ e ∈ parseAesEntry k body, e.Read := by
  have hnone : ∀ e ∈ ([] : List AesEntry), e.Read := fun e he => absurd he List.not_mem_nil
  unfold parseAesEntry
  cases strtokNext '@' body with
  | none => exact hnone
  | some first =>
    dsimp only
    split_ifs
    · exact hnone
    · cases strtokNext ':' first.2 with
      | none => exact hnone
      | some second =>
        dsimp only
        split_ifs
        · exact hnone
        · have hsix := @a2iLoop_le 6 (trim second.1).reverse 0 0 (by decide) (by omega)
          change a2i second.1 3 = 0x1f1f1f ∨ (a2i second.1 3).toNat < 2 ^ 24 at hsix
          refine read_foldl ?_ hnone _
          rcases hsix with heq | hlt
          · rw [heq]
            decide
          · exact hlt

private theorem read_parseAesKeys {s : List Char} : ∀ e ∈ parseAesKeys stack s, e.Read := by
  unfold parseAesKeys
  generalize 0 = i
  induction strtok ';' s generalizing i with
  | nil => exact fun e he => absurd he List.not_mem_nil
  | cons entry entries ih =>
    intro e he
    rcases List.mem_append.mp he with he | he
    · exact read_parseAesEntry e he
    · exact ih (i + 1) e he

/-- The first entry has its header. -/
private theorem head_changed : AesPrev.Changed ⟨0, 0, 0⟩ a ↔ a.caid ≠ 0 ∨ a.ident ≠ 0 := by
  unfold AesPrev.Changed
  rw [ne_comm, ne_comm (a := (0 : BitVec 32))]

/-- The text of a list that starts with a header. -/
private theorem parse_print (hident : ∀ e ∈ a :: list, e.ident.toNat < 16 ^ 6)
    (hchanged : AesPrev.Changed ⟨0, 0, 0⟩ a) :
    parseAesKeys stack (printAesLoop 0 ⟨0, 0, 0⟩ (a :: list)) =
      newAesEntry a.caid a.ident a.keyid.toNat a.plainkey :: rereadAes (a.keyid.toNat + 1) a.prev list := by
  have ha := hident a List.mem_cons_self
  have hrest : ∀ e ∈ list, e.ident.toNat < 16 ^ 6 := fun x hx => hident x (List.mem_cons_of_mem a hx)
  have hpos : 0 < 0 + (printAes 0 ⟨0, 0, 0⟩ a).length := by
    rw [printAes_changed ha hchanged, List.length_append, List.length_append, List.length_cons]
    omega
  have hgaps : gapsOf ⟨0, 0, 0⟩ a = a.keyid.toNat := by
    unfold gapsOf
    rw [if_pos hchanged]
    omega
  have hstep := @parse_printAesLoop stack a.prev list _ 0 _ hrest ha hpos (@plain_keyText a ⟨0, 0, 0⟩)
  rw [foldl_keyText, hgaps] at hstep
  dsimp only at hstep
  rw [Nat.zero_add, Nat.zero_add] at hstep
  unfold parseAesKeys printAesLoop
  nth_rewrite 1 [printAes_changed ha hchanged]
  rw [Nat.zero_add, if_neg (Nat.lt_irrefl 0), List.nil_append, List.append_assoc, List.cons_append]
  exact hstep

/-- The buffer is large enough unless the short keys do not make up for the wraps. -/
private theorem length_print (hident : ∀ e ∈ a :: list, e.ident.toNat < 16 ^ 6)
    (hchanged : AesPrev.Changed ⟨0, 0, 0⟩ a) (hchain : (a :: list).IsChain Follows) :
    ((printAesLoop 0 ⟨0, 0, 0⟩ (a :: list)).length : ℤ) + 1 ≤ 1 + neededLoop ⟨0, 0, 0⟩ (a :: list) ↔
      131072 * keyWraps (a :: list) ≤ 30 * cardKeys (a :: list) + 1 := by
  have ha := hident a List.mem_cons_self
  have hrest : ∀ e ∈ list, e.ident.toNat < 16 ^ 6 := fun x hx => hident x (List.mem_cons_of_mem a hx)
  have hgaps : gapsOf ⟨0, 0, 0⟩ a = a.keyid.toNat := by
    unfold gapsOf
    rw [if_pos hchanged]
    omega
  have hkey := @length_keyText a ⟨0, 0, 0⟩
  have hfirst : (printAes 0 ⟨0, 0, 0⟩ a).length = 12 + (keyText ⟨0, 0, 0⟩ a).length := by
    rw [printAes_changed ha hchanged, if_neg (Nat.lt_irrefl 0), List.nil_append, List.length_append,
      length_aesHeader, List.length_cons]
    omega
  have hlen := @length_printAesLoop a list (0 + (printAes 0 ⟨0, 0, 0⟩ a).length) hrest (by omega) hchain
  unfold printAesLoop neededLoop
  rw [List.length_append, Nat.cast_add, cardKeys_cons, if_pos hchanged]
  by_cases hcard : a.OfCard
  · rw [if_pos hcard] at hkey ⊢
    omega
  · rw [if_neg hcard] at hkey ⊢
    omega

end Text

/-- The text of `mk_t_aeskeys` fits into its buffer and is read as the same keys exactly for the lists that
are kept. -/
theorem mkTAeskeys_parseAesKeys (stack stack' : ℕ → AesKey) (value : List Char) :
    (∃ text, mkTAeskeys (parseAesKeys stack value) = some text ∧
      parseAesKeys stack' text = parseAesKeys stack value) ↔ AesKept (parseAesKeys stack value) := by
  have hread := @read_parseAesKeys stack value
  cases hlist : parseAesKeys stack value with
  | nil =>
    refine ⟨fun _ => ⟨fun e he => absurd he (Option.not_mem_none e), List.isChain_nil, by decide⟩, fun _ => ?_⟩
    exact ⟨[], rfl, rfl⟩
  | cons a list =>
    rw [hlist] at hread
    have hident : ∀ e ∈ a :: list, e.ident.toNat < 16 ^ 6 := fun e he => (hread e he).1
    have ha := hread a List.mem_cons_self
    have hrest : ∀ e ∈ list, e.Read := fun e he => hread e (List.mem_cons_of_mem a he)
    have hhead : (∀ e ∈ (a :: list).head?, e.caid ≠ 0 ∨ e.ident ≠ 0) ↔ a.caid ≠ 0 ∨ a.ident ≠ 0 := by
      rw [List.head?_cons]
      simp only [Option.mem_some_iff, forall_eq']
    unfold AesKept mkTAeskeys
    dsimp only
    rw [hhead, ← head_changed]
    by_cases hchanged : AesPrev.Changed ⟨0, 0, 0⟩ a
    · have hback := @parse_print stack' a list hident hchanged
      have hiff := @rereadAes_iff a list (a.keyid.toNat + 1) hrest rfl
      constructor
      · rintro ⟨text, htext, hsame⟩
        split_ifs at htext with hfits
        rw [← Option.some.inj htext, hback, ha.2, List.cons.injEq, hiff] at hsame
        exact ⟨hchanged, hsame.2, (length_print hident hchanged hsame.2).mp hfits⟩
      · rintro ⟨-, hchain, hsize⟩
        rw [if_pos ((length_print hident hchanged hchain).mpr hsize)]
        exact ⟨_, rfl, by rw [hback, ha.2, hiff.mpr hchain]⟩
    · constructor
      · rintro ⟨text, htext, hsame⟩
        split_ifs at htext
        have hpos : 0 < 0 + (printAes 0 ⟨0, 0, 0⟩ a).length := by
          rw [printAes_same ha.1 hchanged, List.length_cons]
          omega
        have hless := @length_parse_le stack' ⟨a.caid, a.ident, a.keyid.toNat⟩ list _ 0 _
          (fun e he => (hrest e he).1) hpos (@plain_keyText a ⟨0, 0, 0⟩).comma
        rw [← Option.some.inj htext] at hsame
        unfold printAesLoop at hsame
        nth_rewrite 1 [printAes_same ha.1 hchanged] at hsame
        have hlen := congrArg List.length hsame
        unfold parseAesKeys at hlen
        rw [List.length_cons] at hlen
        change _ = list.length + 1 at hlen
        exact absurd hlen (Nat.ne_of_lt (Nat.lt_succ_of_le hless))
      · rintro ⟨h, -⟩
        exact absurd h hchanged

/-- A second group of the caid gets the key ids behind the first. -/
theorem repeated_group : ¬ ∀ (stack stack' : ℕ → AesKey) (value : List Char),
    ∃ text, mkTAeskeys (parseAesKeys stack value) = some text ∧
      parseAesKeys stack' text = parseAesKeys stack value := by
  intro h
  obtain ⟨text, htext, hsame⟩ := h (fun _ => Vector.replicate 16 0) (fun _ => Vector.replicate 16 0)
    "500@1:FF;500@1:FF".toList
  have hnot : (mkTAeskeys (parseAesKeys (fun _ => Vector.replicate 16 0) "500@1:FF;500@1:FF".toList)).map
      (parseAesKeys fun _ => Vector.replicate 16 0) ≠
      some (parseAesKeys (fun _ => Vector.replicate 16 0) "500@1:FF;500@1:FF".toList) := by
    decide +kernel
  rw [htext, Option.map_some, hsame] at hnot
  exact hnot rfl

end NCam.Conf
