import NCam.Ecm.Request
import NCam.Util.Decimal
import NCam.Util.HexBytes

/-! The file of the EMM cache: `emm_save_cache` writes a line for every entry, `emm_load_cache` reads the lines
into a buffer of fixed size. -/
namespace NCam.Emm

open NCam.Util

/-- The largest value of `MAX_EMM_SIZE`. -/
def maxEmmSize : ℕ := 1024

def md5DigestLength : ℕ := 16

/-- `sizeof(line)` in `emm_load_cache`. -/
def sizeofLine : ℕ := 1024

structure Timeb where
  time : BitVec 64
  millitm : BitVec 16

/-- An entry with the bytes that `len` counts; those behind them are zero. -/
structure EmmCache where
  emmd5 : Vector (BitVec 8) md5DigestLength
  type : BitVec 8
  emm : List (BitVec 8)
  emm_le : emm.length ≤ maxEmmSize
  firstseen : Timeb
  lastseen : Timeb

structure EmmPacket where
  type : BitVec 8
  emm : Vector (BitVec 8) maxEmmSize

/-- The changed cache with the number of changes; nothing if bytes behind the EMM are copied. -/
def emmEditCache (cache : List EmmCache) (emmd5 : Vector (BitVec 8) md5DigestLength) (ep : EmmPacket) (now : Timeb)
    (add : Bool) : Option (List EmmCache × ℕ) :=
  if add then
    if cache.any (·.emmd5 = emmd5) then some (cache, 0)
    else
      let len := Ecm.sctLen fun i => ep.emm.toList.getD i 0
      if h : len ≤ maxEmmSize then
        some (cache ++ [⟨emmd5, ep.type, ep.emm.toList.take len,
          Nat.le_trans (List.length_take_le len _) h, now, now⟩], 1)
      else none
  else some (cache.filter (·.emmd5 ≠ emmd5), cache.countP (·.emmd5 = emmd5))

/-- The texts of `"%s,%ld,%ld,%02X,%04X,%s\n"`. -/
def emmTexts (c : EmmCache) : List (List Char) :=
  [charToHex c.emmd5.toList, printfDec c.firstseen.time.toInt, printfDec c.lastseen.time.toInt, hexByte c.type,
    printfHex 4 (.ofNat 32 c.emm.length), charToHex c.emm]

def emmSaveCache (cache : List EmmCache) : List Char :=
  cache.flatMap fun c => joinTokens ',' (emmTexts c) ++ ['\n']

/-- The entry of a line with six texts; nothing if characters behind its end are read or bytes behind the EMM are
written. -/
def loadTexts (emmd5 firstseen lastseen type : List Char) (len : ℕ) (emm : List Char) : Option (List EmmCache) :=
  if h : (2 * md5DigestLength ≤ emmd5.length + 1 ∧ 2 * len ≤ emm.length + 1) ∧ len ≤ maxEmmSize then
    if len ≠ 0 then
      some [⟨keyAtobL emmd5 (Vector.replicate md5DigestLength 0) (2 * md5DigestLength), (a2i type 2).setWidth 8,
        (keyAtobL emm (Vector.replicate len 0) (2 * len)).toList, Vector.length_toList.trans_le h.2,
        ⟨.ofInt 64 (atoi firstseen), 0⟩, ⟨.ofInt 64 (atoi lastseen), 0⟩⟩]
    else some []
  else none

/-- What one line adds to the cache. -/
def loadLine (line : List Char) : Option (List EmmCache) :=
  if line.head? = some '#' ∨ line.head? = some ';' then some []
  else
    match strtok ',' line with
    | [emmd5, firstseen, lastseen, type, len, emm] =>
      loadTexts emmd5 firstseen lastseen type ((a2i len 4).setWidth 16).toNat emm
    | _ => some []

def loadLines : List (List Char) → Option (List EmmCache)
  | [] => some []
  | line :: lines => (loadLine line).bind fun c => (loadLines lines).map fun cache => c ++ cache

def emmLoadCache (file : List Char) : Option (List EmmCache) := loadLines (fgetsLines sizeofLine file)

/-- Times are written in seconds. -/
def wholeSeconds (c : EmmCache) : EmmCache :=
  { c with
    firstseen := { c.firstseen with millitm := 0 }
    lastseen := { c.lastseen with millitm := 0 } }

/-- The characters of an entry without the end of its line. -/
def lineLength (c : EmmCache) : ℕ :=
  43 + intWidth c.firstseen.time.toInt + intWidth c.lastseen.time.toInt + 2 * c.emm.length

/-- There is an EMM, and its line fits into the buffer or only lacks the last digit of a zero byte. -/
def Restorable (c : EmmCache) : Prop :=
  c.emm ≠ [] ∧ (lineLength c ≤ 1023 ∨ (lineLength c = 1024 ∧ c.emm.getLast? = some 0))

section Edit

end Edit

section Line

variable {c : EmmCache} {line x : List Char} {lines lines' : List (List Char)}

/-- The texts before the EMM. -/
private def frontTexts (c : EmmCache) : List (List Char) :=
  [charToHex c.emmd5.toList, printfDec c.firstseen.time.toInt, printfDec c.lastseen.time.toInt, hexByte c.type,
    printfHex 4 (.ofNat 32 c.emm.length)]

private theorem emmTexts_eq : emmTexts c = frontTexts c ++ [charToHex c.emm] := rfl

private theorem toNat_len : (BitVec.ofNat 32 c.emm.length).toNat < 16 ^ 4 := by
  have hle := c.emm_le
  have hmax : maxEmmSize = 1024 := rfl
  rw [BitVec.toNat_ofNat]
  omega

private theorem lastStart_front : lastStart (frontTexts c) + 2 * c.emm.length = lineLength c := by
  have hmd5 : (charToHex c.emmd5.toList).length = 32 := by
    rw [length_charToHex, Vector.length_toList]
    rfl
  have htype : (hexByte c.type).length = 2 := by
    rw [hexByte_eq]
    rfl
  have hlen : (printfHex 4 (.ofNat 32 c.emm.length)).length = 4 := by
    rw [length_printfHex (by omega), hexWidth_of_lt (by omega) toNat_len]
  unfold lastStart frontTexts lineLength
  simp only [List.map_cons, List.map_nil, List.sum_cons, List.sum_nil, hmd5, htype, hlen, length_printfDec]
  omega

private theorem lastStart_le : lastStart (frontTexts c) ≤ 83 := by
  have hline := @lastStart_front c
  have hfirst := intWidth_toInt_le c.firstseen.time (by omega)
  have hlast := intWidth_toInt_le c.lastseen.time (by omega)
  unfold lineLength at hline
  omega

/-- What the texts before the EMM consist of. -/
private theorem frontTexts_spec {d : Char} (hhex : gethexval d = none) (hdigit : d.isDigit = false) (hminus : d ≠ '-') :
    ∀ t ∈ frontTexts c, t ≠ [] ∧ d ∉ t := by
  have hmd5 : charToHex c.emmd5.toList ≠ [] := by
    intro hnil
    have hlen := congrArg List.length hnil
    rw [length_charToHex, Vector.length_toList] at hlen
    cases hlen
  have hprint : ∀ w v, 0 < w → w ≤ 8 → printfHex w v ≠ [] ∧ d ∉ printfHex w v := by
    intro w v hpos hw
    obtain ⟨hne, hnot, -⟩ : printfHex w v ≠ [] ∧ d ∉ printfHex w v ∧ _ := printfHex_spec hhex hpos hw
    exact ⟨hne, hnot⟩
  intro t ht
  unfold frontTexts at ht
  simp only [List.mem_cons, List.not_mem_nil, or_false] at ht
  rcases ht with rfl | rfl | rfl | rfl | rfl
  · exact ⟨hmd5, fun hc => hex_charToHex d hc hhex⟩
  · exact ⟨printfDec_ne_nil, notMem_printfDec hdigit hminus⟩
  · exact ⟨printfDec_ne_nil, notMem_printfDec hdigit hminus⟩
  · exact hprint 2 _ (by omega) (by omega)
  · exact hprint 4 _ (by omega) (by omega)

/-- The EMM may be replaced by any text that is left of it. -/
private theorem areTokens_front (hx : x ≠ []) (hcomma : ',' ∉ x) : AreTokens ',' (frontTexts c ++ [x]) := by
  intro t ht
  rcases List.mem_append.mp ht with ht | ht
  · exact frontTexts_spec rfl (by decide) (by decide) t ht
  · rw [List.mem_singleton.mp ht]
    exact ⟨hx, hcomma⟩

/-- What is read of an entry if `x` is left of the text of its EMM. -/
private def reread (c : EmmCache) (x : List Char) : EmmCache :=
  { wholeSeconds c with
    emm := (List.range c.emm.length).map fun j => (keyByte x j).getD 0
    emm_le := by
      rw [List.length_map, List.length_range]
      exact c.emm_le }

private theorem head_front : (joinTokens ',' (frontTexts c ++ [x])).head? ≠ some '#' ∧
    (joinTokens ',' (frontTexts c ++ [x])).head? ≠ some ';' := by
  have hhead : ∀ d, gethexval d = none → (joinTokens ',' (frontTexts c ++ [x])).head? ≠ some d := by
    intro d hd hsome
    unfold frontTexts at hsome
    rw [List.cons_append, joinTokens_cons, List.head?_append] at hsome
    cases hmd5 : charToHex c.emmd5.toList with
    | nil =>
      have hlen := congrArg List.length hmd5
      rw [length_charToHex, Vector.length_toList] at hlen
      cases hlen
    | cons e es =>
      rw [hmd5, List.head?_cons, Option.some_or, Option.some.injEq] at hsome
      have hhex : e ∈ charToHex c.emmd5.toList := by
        rw [hmd5]
        exact List.mem_cons_self
      rw [hsome] at hhex
      exact hex_charToHex d hhex hd
  exact ⟨hhead '#' rfl, hhead ';' rfl⟩

private theorem read_type : (a2i (hexByte c.type) 2).setWidth 8 = c.type := by
  have hlt : (c.type.setWidth 32).toNat < 16 ^ 2 := by
    rw [BitVec.toNat_setWidth_of_le (by omega)]
    exact c.type.isLt
  have hread : a2i (printfHex 2 (c.type.setWidth 32)) ((2 : ℕ) : ℤ) = c.type.setWidth 32 :=
    a2i_printfHex (by omega) (by rw [hexWidth_of_lt (by omega) hlt]; decide)
  change (a2i (printfHex 2 (c.type.setWidth 32)) ((2 : ℕ) : ℤ)).setWidth 8 = c.type
  rw [hread]
  simp

private theorem read_len : ((a2i (printfHex 4 (.ofNat 32 c.emm.length)) 4).setWidth 16).toNat = c.emm.length := by
  have hread : a2i (printfHex 4 (.ofNat 32 c.emm.length)) ((4 : ℕ) : ℤ) = .ofNat 32 c.emm.length :=
    a2i_printfHex (by omega) (by rw [hexWidth_of_lt (by omega) toNat_len]; decide)
  have hle := c.emm_le
  have hmax : maxEmmSize = 1024 := rfl
  change ((a2i (printfHex 4 (.ofNat 32 c.emm.length)) ((4 : ℕ) : ℤ)).setWidth 16).toNat = _
  rw [hread, BitVec.toNat_setWidth, BitVec.toNat_ofNat]
  omega

private theorem read_emmd5 : keyAtobL (charToHex c.emmd5.toList) (Vector.replicate md5DigestLength 0)
    (2 * md5DigestLength) = c.emmd5 := by
  have hlen : c.emmd5.toList.length = md5DigestLength := Vector.length_toList
  apply Vector.toList_inj.mp
  rw [toList_keyAtobL]
  apply List.ext_getElem
  · rw [List.length_map, List.length_range, hlen]
  · intro j hj hj'
    rw [List.getElem_map, List.getElem_range, keyByte_charToHex hj']
    rfl

/-- A line of which the EMM may be cut. -/
private theorem loadLine_front (hx : x ≠ []) (hcomma : ',' ∉ x) : loadLine (joinTokens ',' (frontTexts c ++ [x])) =
    if 2 * c.emm.length ≤ x.length + 1 then some (if c.emm = [] then [] else [reread c x]) else none := by
  have hmd5 : (charToHex c.emmd5.toList).length = 32 := by
    rw [length_charToHex, Vector.length_toList]
    rfl
  have htokens := strtok_joinTokens (@areTokens_front c x hx hcomma)
  have hle := c.emm_le
  unfold loadLine
  rw [if_neg (not_or.mpr head_front), htokens]
  unfold frontTexts
  dsimp only [List.cons_append, List.nil_append]
  rw [read_len]
  unfold loadTexts
  by_cases hfits : 2 * c.emm.length ≤ x.length + 1
  · have hall : (2 * md5DigestLength ≤ (charToHex c.emmd5.toList).length + 1 ∧ 2 * c.emm.length ≤ x.length + 1) ∧
        c.emm.length ≤ maxEmmSize := by
      rw [hmd5]
      exact ⟨⟨by decide, hfits⟩, hle⟩
    rw [dif_pos hall, if_pos hfits]
    by_cases hnil : c.emm = []
    · have hzero : ¬ c.emm.length ≠ 0 := by simp [hnil]
      rw [if_neg hzero, if_pos hnil]
    · have hpos : c.emm.length ≠ 0 := fun h => hnil (List.eq_nil_of_length_eq_zero h)
      rw [if_pos hpos, if_neg hnil]
      simp only [read_type, read_emmd5, atoi_printfDec, BitVec.ofInt_toInt, toList_keyAtobL]
      congr 2
      unfold reread wholeSeconds
      simp
  · rw [dif_neg fun h => hfits h.1.2, if_neg hfits]

end Line

section File

variable {c : EmmCache} {cache : List EmmCache} {x : List Char}

/-- What is left of the EMM in the first piece of its line. -/
private def leftText (c : EmmCache) : List Char :=
  (charToHex c.emm ++ ['\n']).take (1023 - lastStart (frontTexts c))

private theorem comma_line : ',' ∉ charToHex c.emm ++ ['\n'] := by
  rw [List.mem_append, not_or]
  exact ⟨fun hc => hex_charToHex ',' hc rfl, by decide⟩

private theorem leftText_spec : leftText c ≠ [] ∧ ',' ∉ leftText c ∧
    (leftText c).length = min (1023 - lastStart (frontTexts c)) (2 * c.emm.length + 1) := by
  have hstart := @lastStart_le c
  have hlen : (leftText c).length = min (1023 - lastStart (frontTexts c)) (2 * c.emm.length + 1) := by
    unfold leftText
    rw [List.length_take, List.length_append, length_charToHex, List.length_singleton]
  refine ⟨fun hnil => ?_, fun hc => comma_line (List.mem_of_mem_take hc), hlen⟩
  rw [hnil, List.length_nil] at hlen
  omega

private theorem line_eq : joinTokens ',' (emmTexts c) ++ ['\n'] =
    joinTokens ',' (frontTexts c ++ [charToHex c.emm ++ ['\n']]) := by
  rw [emmTexts_eq, joinTokens_append_last]

private theorem sizeofLine_eq :
    sizeofLine - 1 = lastStart (frontTexts c) + (1023 - lastStart (frontTexts c)) := by
  have hstart := @lastStart_le c
  change 1023 = _
  omega

private theorem first_piece : (joinTokens ',' (emmTexts c) ++ ['\n']).take (sizeofLine - 1) =
    joinTokens ',' (frontTexts c ++ [leftText c]) := by
  rw [line_eq, sizeofLine_eq, take_joinTokens_append]
  rfl

/-- The bytes of the EMM that are read. -/
private theorem keyByte_leftText {j : ℕ} (hj : j < c.emm.length) : keyByte (leftText c) j =
    if 2 * j + 1 < 1023 - lastStart (frontTexts c) then some (c.emm.get ⟨j, hj⟩) else none := by
  split_ifs with hin
  · have hlen := @length_charToHex c.emm
    unfold leftText
    rw [keyByte_take hin, keyByte_append (by omega), keyByte_charToHex hj]
  · apply keyByte_of_le
    rw [leftText_spec.2.2]
    omega

private theorem reread_eq_iff (hne : c.emm ≠ []) (hfits : lineLength c ≤ 1024) :
    reread c (leftText c) = wholeSeconds c ↔ lineLength c ≤ 1023 ∨ c.emm.getLast? = some 0 := by
  have hline := @lastStart_front c
  have hpos : 0 < c.emm.length := List.length_pos_of_ne_nil hne
  have hsame : reread c (leftText c) = wholeSeconds c ↔
      (List.range c.emm.length).map (fun j => (keyByte (leftText c) j).getD 0) = c.emm := by
    have hwith : ∀ emm h, emm = c.emm → { wholeSeconds c with
        emm := emm
        emm_le := h } = wholeSeconds c := by
      rintro emm h rfl
      rfl
    exact ⟨fun h => congrArg EmmCache.emm h, hwith _ _⟩
  have hat : (List.range c.emm.length).map (fun j => (keyByte (leftText c) j).getD 0) = c.emm ↔
      ∀ j (hj : j < c.emm.length), (keyByte (leftText c) j).getD 0 = c.emm.get ⟨j, hj⟩ := by
    constructor
    · intro h j hj
      have hj' : j < ((List.range c.emm.length).map fun j => (keyByte (leftText c) j).getD 0).length := by
        rw [List.length_map, List.length_range]
        exact hj
      have hget := List.getElem_of_eq h hj'
      rw [List.getElem_map, List.getElem_range] at hget
      exact hget
    · intro h
      apply List.ext_getElem
      · rw [List.length_map, List.length_range]
      · intro j _ hj
        rw [List.getElem_map, List.getElem_range]
        exact h j hj
  have hlast : c.emm.getLast? = some (c.emm.get ⟨c.emm.length - 1, by omega⟩) := by
    rw [List.getLast?_eq_getElem?]
    exact List.getElem?_eq_getElem _
  rw [hsame, hat, hlast, Option.some.injEq]
  constructor
  · intro h
    by_cases hfull : lineLength c ≤ 1023
    · exact Or.inl hfull
    · have hend := h (c.emm.length - 1) (by omega)
      rw [keyByte_leftText (by omega), if_neg (by omega)] at hend
      exact Or.inr hend.symm
  · intro h j hj
    rw [keyByte_leftText hj]
    split_ifs with hin
    · rfl
    · rcases h with hfull | hzero
      · omega
      · have hjlast : j = c.emm.length - 1 := by omega
        subst hjlast
        exact hzero.symm

private theorem loadLines_cons : loadLines (line :: lines) =
    (loadLine line).bind fun c => (loadLines lines).map fun cache => c ++ cache := rfl

private theorem loadLines_append : loadLines (lines ++ lines') =
    (loadLines lines).bind fun cache => (loadLines lines').map fun cache' => cache ++ cache' := by
  induction lines with
  | nil =>
    change _ = (loadLines lines').map fun cache' => [] ++ cache'
    simp
  | cons line lines ih =>
    rw [List.cons_append, loadLines_cons, loadLines_cons, ih]
    cases loadLine line with
    | none => rfl
    | some c =>
      rw [Option.bind_some, Option.bind_some]
      cases loadLines lines with
      | none => rfl
      | some cache =>
        rw [Option.bind_some, Option.map_some, Option.bind_some, Option.map_map]
        simp [Function.comp_def]

/-- Pieces without a comma add nothing. -/
private theorem loadLines_pieces (h : ∀ p ∈ lines, ',' ∉ p) : loadLines lines = some [] := by
  induction lines with
  | nil => rfl
  | cons p lines ih =>
    have hone : loadLine p = some [] := by
      unfold loadLine
      split_ifs
      · rfl
      · by_cases hnil : p = []
        · rw [hnil]
          rfl
        · rw [strtok_token hnil (h p List.mem_cons_self)]
    rw [loadLines_cons, hone, ih fun q hq => h q (List.mem_cons_of_mem p hq)]
    rfl

/-- The line of an entry is read by its first piece. -/
private theorem emmLoadCache_cons : emmLoadCache (emmSaveCache (c :: cache)) =
    (loadLine (joinTokens ',' (frontTexts c ++ [leftText c]))).bind fun cs =>
      (emmLoadCache (emmSaveCache cache)).map fun rest => cs ++ rest := by
  have hnewline : '\n' ∉ joinTokens ',' (emmTexts c) := by
    intro hc
    rcases mem_joinTokens hc with hc | ⟨t, ht, hc⟩
    · cases hc
    · rw [emmTexts_eq] at ht
      rcases List.mem_append.mp ht with ht | ht
      · exact (frontTexts_spec rfl (by decide) (by decide) t ht).2 hc
      · rw [List.mem_singleton.mp ht] at hc
        exact hex_charToHex '\n' hc rfl
  obtain ⟨pieces, hpieces, hflat⟩ := @fgetsLines_line sizeofLine _ (emmSaveCache cache) (by decide) hnewline
  have hplain : ∀ p ∈ pieces, ',' ∉ p := by
    intro p hp hc
    have hmem : ',' ∈ pieces.flatten := List.mem_flatten.mpr ⟨p, hp, hc⟩
    rw [hflat, line_eq, sizeofLine_eq, drop_joinTokens_append] at hmem
    exact comma_line (List.mem_of_mem_drop hmem)
  have hsave : emmSaveCache (c :: cache) = joinTokens ',' (emmTexts c) ++ '\n' :: emmSaveCache cache := by
    unfold emmSaveCache
    rw [List.flatMap_cons, List.append_assoc]
    rfl
  unfold emmLoadCache
  rw [hsave, hpieces, first_piece, loadLines_cons, loadLines_append, loadLines_pieces hplain, Option.bind_some]
  simp

/-- An entry adds nothing, itself, or what is left of it; a line that is longer than the buffer by more than its end
is read beyond it. -/
private theorem loadLine_first : loadLine (joinTokens ',' (frontTexts c ++ [leftText c])) =
    if lineLength c ≤ 1024 then some (if c.emm = [] then [] else [reread c (leftText c)]) else none := by
  have hline := @lastStart_front c
  have hstart := @lastStart_le c
  obtain ⟨hne, hcomma, hlen⟩ := @leftText_spec c
  rw [loadLine_front hne hcomma, hlen]
  by_cases hfits : lineLength c ≤ 1024
  · rw [if_pos hfits, if_pos (by omega)]
  · rw [if_neg hfits, if_neg (by omega)]

/-- No file gives more entries than were written. -/
private theorem length_emmLoadCache {cache' : List EmmCache} (h : emmLoadCache (emmSaveCache cache) = some cache') :
    cache'.length ≤ cache.length := by
  induction cache generalizing cache' with
  | nil =>
    rw [← Option.some.inj h]
  | cons c cache ih =>
    rw [emmLoadCache_cons, loadLine_first] at h
    by_cases hfits : lineLength c ≤ 1024
    · rw [if_pos hfits, Option.bind_some, Option.map_eq_some_iff] at h
      obtain ⟨rest, hrest, rfl⟩ := h
      have hle := ih hrest
      rw [List.length_append, List.length_cons]
      split_ifs
      · rw [List.length_nil]
        omega
      · rw [List.length_singleton]
        omega
    · rw [if_neg hfits] at h
      cases h

/-- The cache comes back from its file, with times in seconds, exactly if every entry is restorable. -/
theorem emmLoadCache_emmSaveCache (cache : List EmmCache) :
    emmLoadCache (emmSaveCache cache) = some (cache.map wholeSeconds) ↔ ∀ c ∈ cache, Restorable c := by
  induction cache with
  | nil => exact ⟨fun _ c hc => absurd hc List.not_mem_nil, fun _ => rfl⟩
  | cons c cache ih =>
    rw [emmLoadCache_cons, loadLine_first, List.forall_mem_cons, ← ih, List.map_cons]
    unfold Restorable
    by_cases hfits : lineLength c ≤ 1024
    · rw [if_pos hfits, Option.bind_some, Option.map_eq_some_iff]
      by_cases hnil : c.emm = []
      · rw [if_pos hnil]
        constructor
        · rintro ⟨rest, hrest, hall⟩
          have hle := length_emmLoadCache hrest
          have hlen := congrArg List.length hall
          rw [List.nil_append, List.length_cons, List.length_map] at hlen
          omega
        · rintro ⟨⟨hne, -⟩, -⟩
          exact absurd hnil hne
      · have hone := reread_eq_iff hnil hfits
        rw [if_neg hnil]
        constructor
        · rintro ⟨rest, hrest, hall⟩
          rw [List.singleton_append, List.cons.injEq, hone] at hall
          rw [hrest, hall.2]
          refine ⟨⟨hnil, ?_⟩, rfl⟩
          rcases hall.1 with hfull | hzero
          · exact Or.inl hfull
          · by_cases hfull : lineLength c ≤ 1023
            · exact Or.inl hfull
            · exact Or.inr ⟨by omega, hzero⟩
        · rintro ⟨⟨-, hend⟩, hrest⟩
          refine ⟨_, hrest, ?_⟩
          rw [List.singleton_append, List.cons.injEq, hone]
          refine ⟨?_, rfl⟩
          rcases hend with hfull | ⟨-, hzero⟩
          · exact Or.inl hfull
          · exact Or.inr hzero
    · rw [if_neg hfits]
      constructor
      · intro h
        cases h
      · rintro ⟨⟨-, hfull | ⟨hend, -⟩⟩, -⟩
        · omega
        · omega

private def longEntry : EmmCache where
  emmd5 := Vector.replicate md5DigestLength 0
  type := 0x82
  emm := List.replicate 481 0xff
  emm_le := by
    rw [List.length_replicate]
    decide
  firstseen := ⟨1700000000, 0⟩
  lastseen := ⟨1700000000, 0⟩

/-- An EMM of 481 bytes with times of ten digits does not fit. -/
theorem long_emm_lost : ¬ ∀ cache : List EmmCache,
    emmLoadCache (emmSaveCache cache) = some (cache.map wholeSeconds) := by
  intro h
  have hlost := h [longEntry]
  have hlong : ¬ lineLength longEntry ≤ 1024 := by
    have hlen : longEntry.emm.length = 481 := List.length_replicate
    have hwidth : 10 ≤ intWidth (1700000000 : BitVec 64).toInt := by decide +kernel
    unfold lineLength
    rw [hlen]
    change ¬ 43 + intWidth (1700000000 : BitVec 64).toInt + intWidth (1700000000 : BitVec 64).toInt + 2 * 481 ≤ 1024
    omega
  rw [emmLoadCache_cons, loadLine_first, if_neg hlong] at hlost
  cases hlost

end File

end NCam.Emm
