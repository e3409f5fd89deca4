import NCam.Util.Bytes

/-! The answer to reset of a card: `ATR_InitFromArray` and `ATR_GetRaw` of `csctapi/atr.c`. Interface bytes that are
not present have no value. -/
namespace NCam.CardReader

open NCam.Lib.Memory NCam.Util

def ATR_MAX_PROTOCOLS : ℕ := 7

def atrNumIbTable : List ℕ := [0, 1, 1, 2, 1, 2, 2, 3, 1, 2, 2, 3, 2, 3, 3, 4]

def atrFsTable : List ℕ :=
  [5000000, 5000000, 6000000, 8000000, 12000000, 16000000, 20000000, 0, 0, 5000000, 7500000, 10000000, 15000000,
    20000000, 0, 0]

/-- The interface bytes TAi, TBi, TCi and TDi. -/
structure Row where
  ta : Option Byte
  tb : Option Byte
  tc : Option Byte
  td : Option Byte
deriving DecidableEq

/-- `s_ATR`, with the `pn` rows of `ib` and the `hbn` historical bytes. From the eighth row on `ib` is written
behind its end. -/
structure Atr where
  length : ℕ
  ts : Byte
  t0 : Byte
  ib : List Row
  tck : Option Byte
  hb : List Byte
deriving DecidableEq

inductive AtrError
  | error
  | malformed
deriving DecidableEq

section Parse

variable (buffer : ℕ → Byte)

def invertByte (a : Byte) : Byte :=
  (a <<< 7 &&& 0x80) ||| (a <<< 5 &&& 0x40) ||| (a <<< 3 &&& 0x20) ||| (a <<< 1 &&& 0x10) |||
    (a >>> 1 &&& 0x08) ||| (a >>> 3 &&& 0x04) ||| (a >>> 5 &&& 0x02) ||| (a >>> 7 &&& 0x01)

def numIb (tdi : Byte) : ℕ := atrNumIbTable.getD ((0xF0 &&& tdi) >>> 4).toNat 0

def readByte (present : Bool) (pointer : ℕ) : Option Byte × ℕ :=
  if present then (some (buffer (pointer + 1)), pointer + 1) else (none, pointer)

/-- The interface bytes that TDi announces. -/
def readRow (tdi : Byte) (pointer : ℕ) : Row × ℕ :=
  let ta := readByte buffer (tdi ||| 0xEF = 0xFF) pointer
  let tb := readByte buffer (tdi ||| 0xDF = 0xFF) ta.2
  let tc := readByte buffer (tdi ||| 0xBF = 0xFF) tb.2
  let td := readByte buffer (tdi ||| 0x7F = 0xFF) tc.2
  (⟨ta.1, tb.1, tc.1, td.1⟩, td.2)

/-- The loop over the interface bytes, with the rows left before `ATR_MAX_PROTOCOLS` is reached, and whether TCK is
present. The pointer stays below the length, so that the loop ends inside only. -/
def extract (length : ℕ) : ℕ → Byte → ℕ → List Row → Bool → Option (List Row × ℕ × Bool)
  | left, tdi, pointer, ib, tck =>
    if length ≤ pointer + numIb tdi then none
    else
      let row := readRow buffer tdi pointer
      let ib := ib ++ [row.1]
      match row.1.td with
      | none => some (ib, row.2, tck)
      | some td =>
        match left with
        | 0 => none
        | left + 1 => extract length left td row.2 ib (td &&& 0x0F ≠ 0x00)

/-- With one row, TA1 must name a frequency, and TB1 is at most 0x80. -/
def checkRow : List Row → Bool
  | [row] =>
    row.ta.all (fun ta : Byte => atrFsTable.getD ((ta &&& 0xF0) >>> 4).toNat 0 ≠ 0) && row.tb.all fun tb => tb ≤ 0x80
  | _ => true

/-- An answer that begins with 0x03 is from a reader that does not know the inverse convention. -/
def converted (atrBuffer : ℕ → Byte) : ℕ → Byte :=
  if atrBuffer 0 = 0x03 then fun pointer => ~~~invertByte (atrBuffer pointer) else atrBuffer

def atrInitFromArray (atrBuffer : ℕ → Byte) (length : ℕ) : Except AtrError Atr :=
  if length < 2 then .error .error
  else
    let buffer := converted atrBuffer
    match extract buffer length ATR_MAX_PROTOCOLS (buffer 1) 1 [] false with
    | none => .error .error
    | some (ib, pointer, tck) =>
      let hbn := (buffer 1 &&& 0x0F).toNat
      if length ≤ pointer + hbn ∧ length - pointer < 2 then .error .error
      else
        let hbn := if length ≤ pointer + hbn then length - pointer - 2 else hbn
        let hb := slice buffer (pointer + 1) hbn
        let pointer := pointer + hbn
        if tck = true ∧ length ≤ pointer + 1 then .error .malformed
        else
          let (tck, pointer) := readByte buffer tck pointer
          if checkRow ib then .ok ⟨pointer + 1, buffer 0, buffer 1, ib, tck, hb⟩ else .error .error

end Parse

def Row.bytes (row : Row) : List Byte := row.ta.toList ++ row.tb.toList ++ row.tc.toList ++ row.td.toList

/-- `ATR_GetRaw`. -/
def atrGetRaw (atr : Atr) : List Byte :=
  [atr.ts, atr.t0] ++ atr.ib.flatMap Row.bytes ++ atr.hb ++ atr.tck.toList

section Grammar

/-- TDi announces the interface bytes of the row. -/
structure Announces (tdi : Byte) (row : Row) : Prop where
  ta : row.ta.isSome = decide (tdi ||| 0xEF = 0xFF)
  tb : row.tb.isSome = decide (tdi ||| 0xDF = 0xFF)
  tc : row.tc.isSome = decide (tdi ||| 0xBF = 0xFF)
  td : row.td.isSome = decide (tdi ||| 0x7F = 0xFF)

/-- Every row but the last announces the next one. -/
def Chained : Byte → List Row → Prop
  | _, [] => False
  | tdi, row :: rows =>
    Announces tdi row ∧
      match row.td with
      | none => rows = []
      | some td => Chained td rows

/-- The last TDi says whether TCK is present. -/
def wantsTck (tck : Bool) (ib : List Row) : Bool :=
  (ib.filterMap Row.td).foldl (fun _ td => decide (td &&& 0x0F ≠ 0x00)) tck

/-- An answer to reset. -/
structure Atr.WellFormed (atr : Atr) : Prop where
  ts : atr.ts ≠ 0x03
  chained : Chained atr.t0 atr.ib
  count : atr.ib.length ≤ ATR_MAX_PROTOCOLS + 1
  hb : atr.hb.length = (atr.t0 &&& 0x0F).toNat
  tck : atr.tck.isSome = wantsTck false atr.ib
  length : atr.length = (atrGetRaw atr).length
  row : checkRow atr.ib = true

end Grammar

section Rows

variable {buffer : ℕ → Byte} {tdi : Byte} {pointer length left : ℕ} {present tck : Bool}

theorem readByte_spec (buffer : ℕ → Byte) (present : Bool) (pointer : ℕ) :
    (readByte buffer present pointer).1.isSome = present ∧
      (readByte buffer present pointer).2 = pointer + (readByte buffer present pointer).1.toList.length ∧
      Holds buffer (pointer + 1) (readByte buffer present pointer).1.toList := by
  unfold readByte
  cases present with
  | false => exact ⟨rfl, rfl, holds_nil⟩
  | true => exact ⟨rfl, rfl, rfl⟩

theorem readByte_of_holds {byte : Option Byte} (hpresent : byte.isSome = present)
    (h : Holds buffer (pointer + 1) byte.toList) :
    readByte buffer present pointer = (byte, pointer + byte.toList.length) := by
  unfold readByte
  cases byte with
  | none =>
    rw [← hpresent]
    rfl
  | some byte =>
    have hbyte : buffer (pointer + 1) = byte := (holds_cons.mp h).1
    rw [← hpresent, hbyte]
    rfl

theorem length_toList_isSome (byte : Option Byte) : byte.toList.length = byte.isSome.toNat := by
  cases byte with
  | none => rfl
  | some _ => rfl

theorem numIb_eq (tdi : Byte) : numIb tdi =
    (decide (tdi ||| 0xEF = 0xFF)).toNat + (decide (tdi ||| 0xDF = 0xFF)).toNat +
      (decide (tdi ||| 0xBF = 0xFF)).toNat + (decide (tdi ||| 0x7F = 0xFF)).toNat := by
  revert tdi
  decide +kernel

theorem Announces.length_bytes {row : Row} (h : Announces tdi row) : row.bytes.length = numIb tdi := by
  unfold Row.bytes
  simp only [List.length_append, length_toList_isSome, numIb_eq, h.ta, h.tb, h.tc, h.td]

theorem readRow_spec (buffer : ℕ → Byte) (tdi : Byte) (pointer : ℕ) :
    Announces tdi (readRow buffer tdi pointer).1 ∧
      (readRow buffer tdi pointer).2 = pointer + (readRow buffer tdi pointer).1.bytes.length ∧
      Holds buffer (pointer + 1) (readRow buffer tdi pointer).1.bytes := by
  unfold readRow Row.bytes
  dsimp only
  generalize hta : readByte buffer (decide (tdi ||| 0xEF = 0xFF)) pointer = ta
  generalize htb : readByte buffer (decide (tdi ||| 0xDF = 0xFF)) ta.2 = tb
  generalize htc : readByte buffer (decide (tdi ||| 0xBF = 0xFF)) tb.2 = tc
  generalize htd : readByte buffer (decide (tdi ||| 0x7F = 0xFF)) tc.2 = td
  obtain ⟨ha, ha', ha''⟩ := hta ▸ readByte_spec buffer (decide (tdi ||| 0xEF = 0xFF)) pointer
  obtain ⟨hb, hb', hb''⟩ := htb ▸ readByte_spec buffer (decide (tdi ||| 0xDF = 0xFF)) ta.2
  obtain ⟨hc, hc', hc''⟩ := htc ▸ readByte_spec buffer (decide (tdi ||| 0xBF = 0xFF)) tb.2
  obtain ⟨hd, hd', hd''⟩ := htd ▸ readByte_spec buffer (decide (tdi ||| 0x7F = 0xFF)) tc.2
  refine ⟨⟨ha, hb, hc, hd⟩, ?_, ?_⟩
  · simp only [List.length_append]
    omega
  · simp only [holds_append, List.length_append]
    refine ⟨⟨⟨ha'', ?_⟩, ?_⟩, ?_⟩
    · exact (show ta.2 + 1 = pointer + 1 + ta.1.toList.length by omega) ▸ hb''
    · exact (show tb.2 + 1 = pointer + 1 + (ta.1.toList.length + tb.1.toList.length) by omega) ▸ hc''
    · exact (show tc.2 + 1 = pointer + 1 +
        (ta.1.toList.length + tb.1.toList.length + tc.1.toList.length) by omega) ▸ hd''

theorem readRow_of_holds {row : Row} (ha : Announces tdi row) (h : Holds buffer (pointer + 1) row.bytes) :
    readRow buffer tdi pointer = (row, pointer + row.bytes.length) := by
  unfold Row.bytes at h
  simp only [holds_append, List.length_append] at h
  obtain ⟨⟨⟨hta, htb⟩, htc⟩, htd⟩ := h
  have hb' := readByte_of_holds ha.tb
    ((show pointer + 1 + row.ta.toList.length = pointer + row.ta.toList.length + 1 by omega) ▸ htb)
  have hc' := readByte_of_holds ha.tc
    ((show pointer + 1 + (row.ta.toList.length + row.tb.toList.length) =
      pointer + row.ta.toList.length + row.tb.toList.length + 1 by omega) ▸ htc)
  have hd' := readByte_of_holds ha.td
    ((show pointer + 1 + (row.ta.toList.length + row.tb.toList.length + row.tc.toList.length) =
      pointer + row.ta.toList.length + row.tb.toList.length + row.tc.toList.length + 1 by omega) ▸ htd)
  unfold readRow
  simp only [readByte_of_holds ha.ta hta, hb', hc', hd']
  simp only [Row.bytes, List.length_append, Nat.add_assoc]

theorem wantsTck_cons (tck : Bool) (row : Row) (rows : List Row) :
    wantsTck tck (row :: rows) =
      wantsTck (row.td.elim tck fun td => decide (td &&& 0x0F ≠ 0x00)) rows := by
  unfold wantsTck
  cases htd : row.td with
  | none => rw [List.filterMap_cons_none htd]; rfl
  | some td => rw [List.filterMap_cons_some htd]; rfl

/-- One round of the loop. -/
theorem extract_round {ib ib' : List Row} {tck' : Bool} {pointer' : ℕ}
    (h : extract buffer length left tdi pointer ib tck = some (ib', pointer', tck')) :
    pointer + numIb tdi < length ∧
      (((readRow buffer tdi pointer).1.td = none ∧ ib' = ib ++ [(readRow buffer tdi pointer).1] ∧
          pointer' = (readRow buffer tdi pointer).2 ∧ tck' = tck) ∨
        ∃ td left', (readRow buffer tdi pointer).1.td = some td ∧ left = left' + 1 ∧
          extract buffer length left' td (readRow buffer tdi pointer).2 (ib ++ [(readRow buffer tdi pointer).1])
            (decide (td &&& 0x0F ≠ 0x00)) = some (ib', pointer', tck')) := by
  unfold extract at h
  split_ifs at h with hshort
  refine ⟨Nat.not_le.mp hshort, ?_⟩
  dsimp only at h
  cases htd : (readRow buffer tdi pointer).1.td with
  | none =>
    rw [htd] at h
    cases h
    exact Or.inl ⟨rfl, rfl, rfl, rfl⟩
  | some td =>
    rw [htd] at h
    cases left with
    | zero => cases h
    | succ left => exact Or.inr ⟨td, left, rfl, rfl, h⟩

/-- The rows that the loop reads are a chain, and they are the bytes up to the pointer. -/
theorem extract_eq_some {ib ib' : List Row} {tck' : Bool} {pointer' : ℕ}
    (h : extract buffer length left tdi pointer ib tck = some (ib', pointer', tck')) :
    ∃ rows, ib' = ib ++ rows ∧ Chained tdi rows ∧ rows.length ≤ left + 1 ∧ tck' = wantsTck tck rows ∧
      pointer' = pointer + (rows.flatMap Row.bytes).length ∧ pointer' < length ∧
      Holds buffer (pointer + 1) (rows.flatMap Row.bytes) := by
  induction left using Nat.strong_induction_on generalizing tdi pointer ib tck with
  | h left ih =>
    obtain ⟨hann, hlen, hholds⟩ := readRow_spec buffer tdi pointer
    have hnum := hann.length_bytes
    obtain ⟨hlt, ⟨htd, rfl, rfl, rfl⟩ | ⟨td, left', htd, rfl, hnext⟩⟩ := extract_round h
    · refine ⟨[_], rfl, ⟨hann, ?_⟩, Nat.succ_le_succ (Nat.zero_le _), ?_, ?_, ?_, ?_⟩
      · rw [htd]
      · rw [wantsTck_cons, htd]
        rfl
      · rw [hlen, List.flatMap_singleton]
      · omega
      · rw [List.flatMap_singleton]
        exact hholds
    · obtain ⟨rows, rfl, hchain, hcount, rfl, rfl, hlt', hrows⟩ := ih left' (Nat.lt_succ_self _) hnext
      refine ⟨_ :: rows, by rw [List.append_assoc]; rfl, ⟨hann, ?_⟩, Nat.succ_le_succ hcount, ?_, ?_, hlt', ?_⟩
      · rw [htd]
        exact hchain
      · rw [wantsTck_cons, htd]
        rfl
      · rw [List.flatMap_cons, List.length_append, hlen, Nat.add_assoc]
      · rw [List.flatMap_cons, holds_append]
        exact ⟨hholds, by rw [Nat.add_right_comm, ← hlen]; exact hrows⟩

/-- A chain of rows is read again. -/
theorem extract_of_holds {ib rows : List Row} (hchain : Chained tdi rows) (hcount : rows.length ≤ left + 1)
    (hholds : Holds buffer (pointer + 1) (rows.flatMap Row.bytes))
    (hlt : pointer + (rows.flatMap Row.bytes).length < length) :
    extract buffer length left tdi pointer ib tck =
      some (ib ++ rows, pointer + (rows.flatMap Row.bytes).length, wantsTck tck rows) := by
  induction rows generalizing tdi pointer ib tck left with
  | nil => exact hchain.elim
  | cons row rows ih =>
    obtain ⟨hann, hrest⟩ := hchain
    rw [List.flatMap_cons, holds_append] at hholds
    rw [List.flatMap_cons, List.length_append] at hlt ⊢
    have hnum := hann.length_bytes
    unfold extract
    rw [if_neg (by omega), readRow_of_holds hann hholds.1, wantsTck_cons]
    dsimp only
    cases htd : row.td with
    | none =>
      rw [htd] at hrest
      obtain rfl : rows = [] := hrest
      rfl
    | some td =>
      rw [htd] at hrest
      dsimp only at hrest ⊢
      cases left with
      | zero =>
        have hnil : rows = [] := List.length_eq_zero_iff.mp (by rw [List.length_cons] at hcount; omega)
        rw [hnil] at hrest
        exact hrest.elim
      | succ left =>
        have hnext := hholds.2
        rw [Nat.add_right_comm] at hnext
        dsimp only
        rw [ih hrest (Nat.le_of_succ_le_succ hcount) hnext (by omega), List.append_assoc, Nat.add_assoc]
        rfl

end Rows

section Init

variable {atrBuffer : ℕ → Byte} {length : ℕ} {atr : Atr}

theorem converted_zero_ne (atrBuffer : ℕ → Byte) : converted atrBuffer 0 ≠ 0x03 := by
  unfold converted
  split_ifs with h
  · change ~~~invertByte (atrBuffer 0) ≠ 0x03
    rw [h]
    decide
  · exact h

theorem holds_slice (buffer : ℕ → Byte) (o n : ℕ) : Holds buffer o (slice buffer o n) := by
  unfold Holds
  rw [length_slice]

/-- What an answer that is accepted consists of. -/
theorem atrInitFromArray_ok (h : atrInitFromArray atrBuffer length = .ok atr) :
    Holds (converted atrBuffer) 0 (atrGetRaw atr) ∧ atr.length = (atrGetRaw atr).length ∧ atr.length ≤ length ∧
      Chained atr.t0 atr.ib ∧ atr.ib.length ≤ ATR_MAX_PROTOCOLS + 1 ∧
      atr.tck.isSome = wantsTck false atr.ib ∧ checkRow atr.ib = true ∧ atr.ts ≠ 0x03 := by
  unfold atrInitFromArray at h
  split_ifs at h with hshort
  dsimp only at h
  generalize hbuffer : converted atrBuffer = buffer at h ⊢
  have hts : buffer 0 ≠ 0x03 := hbuffer ▸ converted_zero_ne atrBuffer
  cases hextract : extract buffer length ATR_MAX_PROTOCOLS (buffer 1) 1 [] false with
  | none =>
    rw [hextract] at h
    cases h
  | some r =>
    obtain ⟨ib, pointer, tck⟩ := r
    rw [hextract] at h
    obtain ⟨rows, hib, hchain, hcount, htck, hpointer, hlt, hrows⟩ := extract_eq_some hextract
    rw [List.nil_append] at hib
    subst hib
    dsimp only at h
    by_cases hmissing : length ≤ pointer + (buffer 1 &&& 0x0F).toNat ∧ length - pointer < 2
    · rw [if_pos hmissing] at h
      cases h
    rw [if_neg hmissing] at h
    generalize hhbn : (if length ≤ pointer + (buffer 1 &&& 0x0F).toNat then length - pointer - 2
      else (buffer 1 &&& 0x0F).toNat) = hbn at h
    have hfit : pointer + hbn < length := by
      rw [← hhbn]
      split_ifs with hhist
      · omega
      · omega
    by_cases hmalformed : tck = true ∧ length ≤ pointer + hbn + 1
    · rw [if_pos hmalformed] at h
      cases h
    rw [if_neg hmalformed] at h
    obtain ⟨hsome, hnext, hheld⟩ := readByte_spec buffer tck (pointer + hbn)
    by_cases hrow : checkRow ib = true
    · rw [if_pos hrow] at h
      cases h
      have hhb : (slice buffer (pointer + 1) hbn).length = hbn := length_slice
      have hraw : (readByte buffer tck (pointer + hbn)).2 + 1 =
          2 + (ib.flatMap Row.bytes).length + hbn + (readByte buffer tck (pointer + hbn)).1.toList.length := by
        rw [hnext, hpointer]
        omega
      have hends : (readByte buffer tck (pointer + hbn)).2 < length := by
        rw [hnext, length_toList_isSome, hsome]
        cases htrue : tck with
        | false => exact hfit
        | true => exact Nat.not_le.mp fun hle => hmalformed ⟨htrue, hle⟩
      refine ⟨?_, ?_, hends, hchain, hcount, ?_, hrow, hts⟩
      · unfold atrGetRaw
        simp only [holds_append, List.length_append, hhb]
        refine ⟨⟨⟨rfl, ?_⟩, ?_⟩, ?_⟩
        · exact hrows
        · exact (show pointer + 1 = 0 + ([buffer 0, buffer 1].length + (ib.flatMap Row.bytes).length) by
            rw [hpointer, List.length_cons, List.length_singleton]
            omega) ▸ holds_slice buffer (pointer + 1) hbn
        · exact (show pointer + hbn + 1 = 0 + ([buffer 0, buffer 1].length + (ib.flatMap Row.bytes).length + hbn) by
            rw [hpointer, List.length_cons, List.length_singleton]
            omega) ▸ hheld
      · unfold atrGetRaw
        simp only [List.length_append, List.length_cons, List.length_nil, hhb]
        exact hraw
      · rw [hsome, htck]
    · rw [if_neg hrow] at h
      cases h

/-- A well-formed answer at the beginning of the buffer is accepted. -/
theorem atrInitFromArray_of_wellFormed (h : atr.WellFormed) (hfit : atr.length ≤ length)
    (hraw : Holds (converted atrBuffer) 0 (atrGetRaw atr)) : atrInitFromArray atrBuffer length = .ok atr := by
  unfold atrGetRaw at hraw
  simp only [holds_append, List.length_append, List.length_cons, List.length_nil, Nat.zero_add] at hraw
  obtain ⟨⟨⟨hhead, hib⟩, hhb⟩, htck⟩ := hraw
  have hts : converted atrBuffer 0 = atr.ts := (holds_cons.mp hhead).1
  have ht0 : converted atrBuffer 1 = atr.t0 := (holds_cons.mp (holds_cons.mp hhead).2).1
  have hlen : atr.length = 2 + (atr.ib.flatMap Row.bytes).length + atr.hb.length + atr.tck.toList.length := by
    rw [h.length]
    unfold atrGetRaw
    simp only [List.length_append, List.length_cons, List.length_nil]
  generalize hpointer : 1 + (atr.ib.flatMap Row.bytes).length = pointer
  have hextract := @extract_of_holds (converted atrBuffer) (converted atrBuffer 1) 1 length ATR_MAX_PROTOCOLS false []
    atr.ib (by rw [ht0]; exact h.chained) h.count hib (by omega)
  rw [List.nil_append, hpointer, ← h.tck] at hextract
  have hhbn : (converted atrBuffer 1 &&& 0x0F).toNat = atr.hb.length := by rw [ht0, h.hb]
  have hslice : slice (converted atrBuffer) (pointer + 1) atr.hb.length = atr.hb :=
    (show 2 + (atr.ib.flatMap Row.bytes).length = pointer + 1 by omega) ▸ hhb
  have hread : readByte (converted atrBuffer) atr.tck.isSome (pointer + atr.hb.length) = _ := readByte_of_holds rfl
    ((show 2 + (atr.ib.flatMap Row.bytes).length + atr.hb.length = pointer + atr.hb.length + 1 by omega) ▸ htck)
  have hend : pointer + atr.hb.length + atr.tck.toList.length + 1 = atr.length := by omega
  unfold atrInitFromArray
  rw [if_neg (by omega)]
  dsimp only
  rw [hextract]
  dsimp only
  have hfull : ¬ length ≤ pointer + atr.hb.length := by omega
  rw [hhbn, if_neg fun hmissing => hfull hmissing.1, if_neg hfull, if_neg, hread]
  · dsimp only
    rw [if_pos h.row, hslice, hend, hts, ht0]
  · rintro ⟨hpresent, hle⟩
    rw [length_toList_isSome, hpresent] at hend
    change pointer + atr.hb.length + 1 + 1 = atr.length at hend
    omega

section Reads

variable {other buffer buffer' : ℕ → Byte} {tdi : Byte} {pointer : ℕ} {tck : Bool}

theorem readRow_congr (h : ∀ i < length, buffer' i = buffer i) (hlt : pointer + numIb tdi < length) :
    readRow buffer' tdi pointer = readRow buffer tdi pointer := by
  obtain ⟨hann, hnext, hholds⟩ := readRow_spec buffer tdi pointer
  have hnum := hann.length_bytes
  rw [readRow_of_holds hann (hholds.congr fun i hi => h _ (by omega)), ← hnext]

theorem extract_congr (h : ∀ i < length, buffer' i = buffer i) {left : ℕ} {ib : List Row} :
    extract buffer' length left tdi pointer ib tck = extract buffer length left tdi pointer ib tck := by
  induction left generalizing tdi pointer ib tck with
  | zero =>
    unfold extract
    split_ifs with hshort
    · rfl
    · rw [readRow_congr h (Nat.not_le.mp hshort)]
  | succ left ih =>
    unfold extract
    split_ifs with hshort
    · rfl
    · rw [readRow_congr h (Nat.not_le.mp hshort)]
      simp only [ih]

/-- No byte from `length` on is read. -/
theorem atrInitFromArray_congr (h : ∀ i < length, other i = atrBuffer i) :
    atrInitFromArray other length = atrInitFromArray atrBuffer length := by
  unfold atrInitFromArray
  by_cases hshort : length < 2
  · rw [if_pos hshort, if_pos hshort]
  rw [if_neg hshort, if_neg hshort]
  have hconverted : ∀ i < length, converted other i = converted atrBuffer i := by
    intro i hi
    unfold converted
    rw [h 0 (by omega)]
    split_ifs
    · change ~~~invertByte (other i) = ~~~invertByte (atrBuffer i)
      rw [h i hi]
    · exact h i hi
  dsimp only
  rw [extract_congr hconverted, hconverted 0 (by omega), hconverted 1 (by omega)]
  cases hextract : extract (converted atrBuffer) length ATR_MAX_PROTOCOLS (converted atrBuffer 1) 1 [] false with
  | none => rfl
  | some r =>
    obtain ⟨ib, pointer, tck⟩ := r
    obtain ⟨-, -, -, -, -, -, hlt, -⟩ := extract_eq_some hextract
    dsimp only
    by_cases hmissing : length ≤ pointer + (converted atrBuffer 1 &&& 0x0F).toNat ∧ length - pointer < 2
    · rw [if_pos hmissing, if_pos hmissing]
    rw [if_neg hmissing, if_neg hmissing]
    generalize hhbn : (if length ≤ pointer + (converted atrBuffer 1 &&& 0x0F).toNat then length - pointer - 2
      else (converted atrBuffer 1 &&& 0x0F).toNat) = hbn
    have hfit : pointer + hbn < length := by
      rw [← hhbn]
      split_ifs
      · omega
      · omega
    by_cases hmalformed : tck = true ∧ length ≤ pointer + hbn + 1
    · rw [if_pos hmalformed, if_pos hmalformed]
    rw [if_neg hmalformed, if_neg hmalformed]
    have hslice : slice (converted other) (pointer + 1) hbn = slice (converted atrBuffer) (pointer + 1) hbn :=
      slice_congr fun i hi => hconverted _ (by omega)
    have hread : readByte (converted other) tck (pointer + hbn) = readByte (converted atrBuffer) tck (pointer + hbn) := by
      unfold readByte
      split_ifs with htck
      · rw [hconverted _ (Nat.not_le.mp fun hle => hmalformed ⟨htck, hle⟩)]
      · rfl
    rw [hslice, hread]

end Reads

/-- No byte from `length` on is read. `ATR_GetRaw` gives back the beginning of every answer that is accepted, and no
more bytes than there are. The answers accepted with all their historical bytes are the well-formed ones. -/
theorem atrInitFromArray_atrGetRaw (atrBuffer : ℕ → Byte) (length : ℕ) (atr : Atr) :
    (∀ other : ℕ → Byte, (∀ i < length, other i = atrBuffer i) →
      atrInitFromArray other length = atrInitFromArray atrBuffer length) ∧
    (atrInitFromArray atrBuffer length = .ok atr →
      atrGetRaw atr = slice (converted atrBuffer) 0 atr.length ∧ atr.length ≤ length) ∧
    (atrInitFromArray atrBuffer length = .ok atr ∧ atr.hb.length = (atr.t0 &&& 0x0F).toNat ↔
      atr.WellFormed ∧ atr.length ≤ length ∧ Holds (converted atrBuffer) 0 (atrGetRaw atr)) := by
  refine ⟨fun _ h => atrInitFromArray_congr h, fun h => ?_, fun h => ?_, fun h => ?_⟩
  · obtain ⟨hholds, hlen, hle, -⟩ := atrInitFromArray_ok h
    rw [hlen]
    exact ⟨hholds.symm, hlen ▸ hle⟩
  · obtain ⟨hholds, hlen, hle, hchain, hcount, htck, hrow, hts⟩ := atrInitFromArray_ok h.1
    exact ⟨⟨hts, hchain, hcount, h.2, htck, hlen, hrow⟩, hle, hholds⟩
  · exact ⟨atrInitFromArray_of_wellFormed h.1 h.2.1 h.2.2, h.1.hb⟩

end Init

end NCam.CardReader
