import NCam.Util.Bytes
import Mathlib.Data.Nat.Bitwise
import Mathlib.Tactic.IntervalCases

/-! Base64: `b64encode`, and `b64decode` in the array of its input. -/
namespace NCam.Util

open NCam.Lib

section Encode

def b64str : List Byte :=
  "ABCDEFGHIJKLMNOPQRSTUVWXYZabcdefghijklmnopqrstuvwxyz0123456789+/".toList.map fun c => BitVec.ofNat 8 c.toNat

/-- `b64str[v & 0x3f]` -/
def b64char (v : ℕ) : Byte := b64str.getD (v &&& 0x3f) 0

def padChar : Byte := 0x3d

/-- The characters for the next bytes of `inp`, of which there is one. -/
def encodeGroup (inp : List Byte) : List Byte :=
  let byte i := (inp.getD i 0).toNat
  [b64char (byte 0 >>> 2),
    b64char ((byte 0 <<< 4) + if 1 < inp.length then byte 1 >>> 4 else 0),
    if 1 < inp.length then b64char ((byte 1 <<< 2) + if 2 < inp.length then byte 2 >>> 6 else 0) else padChar,
    if 2 < inp.length then b64char (byte 2) else padChar]

/-- `base64_encode` from place `pos` of an array of `size` bytes on, with `outlen` left: the loop is left when
nothing is left behind a character, and terminates what it wrote behind each group. -/
def base64Encode (size : ℕ) (inp : List Byte) (out : ℕ → Byte) (pos outlen : ℕ) :
    Option (ℕ → Byte) :=
  if inp = [] ∨ outlen = 0 then some out
  else do
    let out ← Memory.putWithin size out pos ((encodeGroup inp).take outlen)
    if outlen ≤ 4 then some out
    else do
      let out ← Memory.putWithin size out (pos + 4) [0]
      base64Encode size (inp.drop 3) out (pos + 4) (outlen - 4)
termination_by outlen

def base64Length (inlen : ℕ) : ℕ := (inlen + 2) / 3 * 4

/-- The length and the array, which is cleared when it is allocated. -/
def b64encode (inp : List Byte) : Option (ℕ × (ℕ → Byte)) :=
  let outlen := 1 + base64Length inp.length
  if outlen < inp.length then some (0, fun _ => 0)
  else (base64Encode outlen inp (fun _ => 0) 0 outlen).map fun out => (outlen - 1, out)

end Encode

section Decode

/-- The decoding array, `none` for -1. -/
def b64decoder (c : Byte) : Option ℕ := b64str.idxOf? c

/-- `cs_strlen` in an array of `size` bytes. -/
def strlen (size : ℕ) (result : ℕ → Byte) : ℕ := ((Memory.slice result 0 size).takeWhile (· ≠ 0)).length

structure Decoding where
  result : ℕ → Byte
  j : ℕ
  bits : ℕ
  charCount : ℕ

/-- `result[j++] = …` while nothing behind place `i` was read, unless it overwrites what is behind. -/
def Decoding.write (s : Decoding) (i : ℕ) (bs : List Byte) : Option Decoding :=
  (Memory.putWithin (i + 1) s.result s.j bs).map fun result => { s with result, j := s.j + bs.length }

/-- A pass of the loop that does not leave it. -/
def Decoding.char (s : Decoding) (i : ℕ) : Option Decoding :=
  match b64decoder (s.result i) with
  | none => some s
  | some tmp =>
    let bits := s.bits + tmp
    if s.charCount + 1 = 4 then
      { s with bits := 0, charCount := 0 }.write i
        [BitVec.ofNat 8 (bits >>> 16), BitVec.ofNat 8 ((bits >>> 8) &&& 0xff), BitVec.ofNat 8 (bits &&& 0xff)]
    else some { s with bits := bits <<< 6, charCount := s.charCount + 1 }

/-- The loop over `n` more characters, with the place where it stopped. -/
def decodeLoop : ℕ → ℕ → Decoding → Option (ℕ × Decoding)
  | 0, i, s => some (i, s)
  | n + 1, i, s => if s.result i = padChar then some (i, s) else (s.char i).bind (decodeLoop n (i + 1))

/-- What is done behind the loop, with the number that is returned. -/
def Decoding.finish (s : Decoding) (i : ℕ) (len : ℤ) : Option (ℕ × (ℕ → Byte)) :=
  if i = len then
    if s.charCount ≠ 0 then (s.write i [0]).map fun s => (0, s.result) else some (s.j, s.result)
  else if s.charCount = 1 then (s.write i [0]).map fun s => (0, s.result)
  else if s.charCount = 2 then
    (s.write i [BitVec.ofNat 8 (s.bits >>> 10), 0]).map fun t => (s.j + 1, t.result)
  else if s.charCount = 3 then
    (s.write i [BitVec.ofNat 8 (s.bits >>> 16), BitVec.ofNat 8 ((s.bits >>> 8) &&& 0xff), 0]).map fun t =>
      (s.j + 2, t.result)
  else some (s.j, s.result)

/-- `b64decode` for the length that it computes. -/
def decodeChars (len : ℤ) (result : ℕ → Byte) : Option (ℕ × (ℕ → Byte)) :=
  (decodeLoop len.toNat 0 ⟨result, 0, 0, 0⟩).bind fun s => s.2.finish s.1 len

/-- The length is an `int32_t`. -/
def b64decode (size : ℕ) (result : ℕ → Byte) : Option (ℕ × (ℕ → Byte)) :=
  decodeChars ((strlen size result : ℤ).bmod (2 ^ 32)) result

end Decode

section InPlace

variable {s : Decoding} {n i : ℕ} {len : ℤ} {result : ℕ → Byte}

/-- `i` characters were read for the bytes that are written. -/
def Decoding.Behind (s : Decoding) (i : ℕ) : Prop :=
  s.charCount < 4 ∧ ∃ q, s.j = 3 * q ∧ 4 * q + s.charCount ≤ i

theorem Decoding.write_of_le {bs : List Byte} (h : s.j + bs.length ≤ i + 1) : s.write i bs =
    some { s with result := Memory.put s.result s.j bs, j := s.j + bs.length } := by
  unfold Decoding.write
  rw [Memory.putWithin_of_le h]
  rfl

theorem Decoding.behind_char (h : s.Behind i) : ∃ s', s.char i = some s' ∧ s'.Behind (i + 1) := by
  obtain ⟨hcount, q, hj, hq⟩ := h
  unfold Decoding.char
  cases b64decoder (s.result i) with
  | none => exact ⟨s, rfl, hcount, q, hj, by omega⟩
  | some tmp =>
    dsimp only
    by_cases hfull : s.charCount + 1 = 4
    · rw [if_pos hfull, Decoding.write_of_le (by simp; omega)]
      exact ⟨_, rfl, by simp, q + 1, by simp [hj]; omega, by simp; omega⟩
    · rw [if_neg hfull]
      exact ⟨_, rfl, by simp; omega, q, hj, by simp; omega⟩

theorem behind_decodeLoop (h : s.Behind i) : ∃ k s', decodeLoop n i s = some (k, s') ∧ s'.Behind k := by
  induction n generalizing i s with
  | zero => exact ⟨i, s, rfl, h⟩
  | succ n ih =>
    unfold decodeLoop
    by_cases hpad : s.result i = padChar
    · rw [if_pos hpad]
      exact ⟨i, s, rfl, h⟩
    · obtain ⟨s', hs', hbehind⟩ := Decoding.behind_char h
      rw [if_neg hpad, hs']
      exact ih hbehind

theorem Decoding.finish_isSome (h : s.Behind i) : ∃ r, s.finish i len = some r := by
  obtain ⟨hcount, q, hj, hq⟩ := h
  unfold Decoding.finish
  split_ifs with hend hnone h1 h2 h3
  · rw [Decoding.write_of_le (by simp; omega)]
    exact ⟨_, rfl⟩
  · exact ⟨_, rfl⟩
  · rw [Decoding.write_of_le (by simp; omega)]
    exact ⟨_, rfl⟩
  · rw [Decoding.write_of_le (by simp; omega)]
    exact ⟨_, rfl⟩
  · rw [Decoding.write_of_le (by simp; omega)]
    exact ⟨_, rfl⟩
  · exact ⟨_, rfl⟩

/-- Nothing is overwritten before it is read. -/
theorem decodeChars_isSome : ∃ r, decodeChars len result = some r := by
  have hstart : (Decoding.mk result 0 0 0).Behind 0 := ⟨by simp, 0, rfl, by simp⟩
  obtain ⟨k, s, hloop, hbehind⟩ := behind_decodeLoop (n := len.toNat) hstart
  unfold decodeChars
  rw [hloop]
  exact Decoding.finish_isSome hbehind

end InPlace

section Encoded

variable {bs inp : List Byte} {out : ℕ → Byte} {v size pos : ℕ}

/-- The characters of all groups. -/
def base64Text : List Byte → List Byte
  | [] => []
  | a :: rest => encodeGroup (a :: rest) ++ base64Text (rest.drop 2)
termination_by bs => bs.length
decreasing_by
  rw [List.length_drop, List.length_cons]
  omega

private theorem b64decoder_of_lt : ∀ v < 64, b64decoder (b64str.getD v 0) = some v := by decide

private theorem b64str_ne : ∀ v < 64, b64str.getD v 0 ≠ padChar ∧ b64str.getD v 0 ≠ 0 := by decide

private theorem and_63 : v &&& 0x3f = v % 64 := Nat.and_two_pow_sub_one_eq_mod v 6

theorem b64decoder_b64char : b64decoder (b64char v) = some (v % 64) := by
  rw [b64char, and_63, b64decoder_of_lt _ (by omega)]

theorem b64char_ne : b64char v ≠ padChar ∧ b64char v ≠ 0 := by
  rw [b64char, and_63]
  exact b64str_ne _ (by omega)

theorem length_base64Text : (base64Text bs).length = base64Length bs.length := by
  fun_induction base64Text bs with
  | case1 => rfl
  | case2 a rest ih =>
    rw [List.length_append, ih, base64Length, base64Length, encodeGroup]
    simp
    omega

theorem zero_notMem_base64Text : 0 ∉ base64Text bs := by
  fun_induction base64Text bs with
  | case1 => simp
  | case2 a rest ih =>
    have hpad : ¬ 0#8 = padChar := by decide
    have hchar : ∀ v, ¬ 0#8 = b64char v := fun v => b64char_ne.2.symm
    rw [List.mem_append, not_or]
    refine ⟨?_, ih⟩
    unfold encodeGroup
    split_ifs <;> simp [hpad, hchar]

/-- The array is filled with the text and its terminating zero. -/
theorem base64Encode_eq {outlen : ℕ} (houtlen : outlen = (base64Text inp).length + 1)
    (hfit : pos + outlen ≤ size) (hzero : out pos = 0) :
    base64Encode size inp out pos outlen = some (Memory.put out pos (base64Text inp ++ [0])) := by
  fun_induction base64Text inp generalizing out pos outlen with
  | case1 =>
    unfold base64Encode
    rw [if_pos (Or.inl rfl), List.nil_append, Memory.put_eq_self]
    rw [Memory.holds_cons]
    exact ⟨hzero, Memory.holds_nil⟩
  | case2 a rest ih =>
    rw [List.length_append] at houtlen
    have hgroup : (encodeGroup (a :: rest)).length = 4 := rfl
    have htake : (encodeGroup (a :: rest)).take outlen = encodeGroup (a :: rest) :=
      List.take_of_length_le (by omega)
    have hin : ¬ (a :: rest = [] ∨ outlen = 0) := by simp; omega
    unfold base64Encode
    rw [if_neg hin, htake, Memory.putWithin_of_le (by omega)]
    show (if outlen ≤ 4 then some _ else (Memory.putWithin size _ (pos + 4) [0]).bind _) = _
    rw [if_neg (by omega), Memory.putWithin_of_le (by simp; omega)]
    show base64Encode size (rest.drop 2) _ (pos + 4) (outlen - 4) = _
    rw [ih (by omega) (by omega) Memory.put_self, Memory.put_put_cover (by simp), List.append_assoc,
      Memory.put_put_of_eq (by rw [hgroup])]

/-- What is encoded fills what is allocated. -/
theorem b64encode_eq : b64encode inp =
    some (base64Length inp.length, Memory.put (fun _ => 0) 0 (base64Text inp ++ [0])) := by
  have hroom : ¬ 1 + base64Length inp.length < inp.length := by
    unfold base64Length
    omega
  unfold b64encode
  dsimp only
  rw [if_neg hroom, base64Encode_eq (by rw [length_base64Text]; omega) (by omega) rfl, Nat.add_sub_cancel_left]
  rfl

end Encoded

section Decoded

variable {result : ℕ → Byte} {j bits count n i v : ℕ} {a b c : Byte} {rest bs : List Byte} {len : ℤ}

private theorem ne_padChar (hv : result i = b64char v) : ¬ result i = padChar := by
  rw [hv]
  exact b64char_ne.1

private theorem and_255 : v &&& 0xff = v % 256 := Nat.and_two_pow_sub_one_eq_mod v 8

private theorem ofNat_eq_byte (h : v % 256 = a.toNat) : BitVec.ofNat 8 v = a := by
  apply BitVec.eq_of_toNat_eq
  rw [BitVec.toNat_ofNat]
  exact h

/-- One of the first three characters of a group. -/
theorem decodeLoop_char (hv : result i = b64char v) (hcount : count < 3) :
    decodeLoop (n + 1) i ⟨result, j, bits, count⟩ =
      decodeLoop n (i + 1) ⟨result, j, (bits + v % 64) <<< 6, count + 1⟩ := by
  have hfull : ¬ count + 1 = 4 := by omega
  rw [decodeLoop, if_neg (ne_padChar hv), Decoding.char]
  dsimp only
  rw [hv, b64decoder_b64char]
  dsimp only
  rw [if_neg hfull]
  rfl

/-- The last character of a group. -/
theorem decodeLoop_full (hv : result i = b64char v) (hj : j + 2 ≤ i)
    (hbits : bits + v % 64 = (a.toNat * 256 + b.toNat) * 256 + c.toNat) :
    decodeLoop (n + 1) i ⟨result, j, bits, 3⟩ =
      decodeLoop n (i + 1) ⟨Memory.put result j [a, b, c], j + 3, 0, 0⟩ := by
  have ha := a.isLt
  have hb := b.isLt
  have hc := c.isLt
  have hbytes : [BitVec.ofNat 8 ((bits + v % 64) >>> 16), BitVec.ofNat 8 (((bits + v % 64) >>> 8) &&& 0xff),
      BitVec.ofNat 8 ((bits + v % 64) &&& 0xff)] = [a, b, c] := by
    rw [hbits, and_255, and_255, Nat.shiftRight_eq_div_pow, Nat.shiftRight_eq_div_pow,
      ofNat_eq_byte (a := a) (by omega), ofNat_eq_byte (a := b) (by omega), ofNat_eq_byte (a := c) (by omega)]
  rw [decodeLoop, if_neg (ne_padChar hv), Decoding.char]
  dsimp only
  rw [hv, b64decoder_b64char]
  dsimp only
  rw [if_pos rfl, hbytes, Decoding.write_of_le (by simp; omega)]
  rfl

theorem decodeLoop_pad (hpad : result i = padChar) :
    decodeLoop (n + 1) i ⟨result, j, bits, count⟩ = some (i, ⟨result, j, bits, count⟩) := by
  rw [decodeLoop, if_pos hpad]

private theorem encodeGroup_one :
    encodeGroup [a] = [b64char (a.toNat >>> 2), b64char (a.toNat <<< 4), padChar, padChar] := rfl

private theorem encodeGroup_two : encodeGroup [a, b] =
    [b64char (a.toNat >>> 2), b64char (a.toNat <<< 4 + b.toNat >>> 4), b64char (b.toNat <<< 2), padChar] := rfl

private theorem encodeGroup_three : encodeGroup (a :: b :: c :: rest) =
    [b64char (a.toNat >>> 2), b64char (a.toNat <<< 4 + b.toNat >>> 4), b64char (b.toNat <<< 2 + c.toNat >>> 6),
      b64char c.toNat] := by
  simp [encodeGroup]

@[simp] theorem base64Text_nil : base64Text [] = [] := by rw [base64Text]

/-- One byte in the last group. -/
private theorem decode_one (hj : j ≤ i) (htext : Memory.Holds result i (encodeGroup [a])) (hlen : len = i + 4) :
    ((decodeLoop 4 i ⟨result, j, 0, 0⟩).bind fun s => s.2.finish s.1 len) =
      some (j + 1, Memory.put result j [a, 0]) := by
  have ha := a.isLt
  have hend : ¬ ((i + 1 + 1 : ℕ) : ℤ) = len := by omega
  simp only [encodeGroup_one, Memory.holds_cons] at htext
  obtain ⟨h0, h1, h2, -⟩ := htext
  rw [decodeLoop_char h0 (by omega), decodeLoop_char h1 (by omega), decodeLoop_pad h2]
  show Decoding.finish _ _ len = _
  unfold Decoding.finish
  rw [if_neg hend]
  dsimp only
  rw [if_neg (by omega), if_pos rfl, ofNat_eq_byte (a := a), Decoding.write_of_le (by simp; omega)]
  · rfl
  · simp only [Nat.shiftRight_eq_div_pow, Nat.shiftLeft_eq]
    omega

/-- Two bytes in the last group. -/
private theorem decode_two (hj : j ≤ i) (htext : Memory.Holds result i (encodeGroup [a, b])) (hlen : len = i + 4) :
    ((decodeLoop 4 i ⟨result, j, 0, 0⟩).bind fun s => s.2.finish s.1 len) =
      some (j + 2, Memory.put result j [a, b, 0]) := by
  have ha := a.isLt
  have hb := b.isLt
  have hend : ¬ ((i + 1 + 1 + 1 : ℕ) : ℤ) = len := by omega
  simp only [encodeGroup_two, Memory.holds_cons] at htext
  obtain ⟨h0, h1, h2, h3, -⟩ := htext
  rw [decodeLoop_char h0 (by omega), decodeLoop_char h1 (by omega), decodeLoop_char h2 (by omega),
    decodeLoop_pad h3]
  show Decoding.finish _ _ len = _
  unfold Decoding.finish
  rw [if_neg hend]
  dsimp only
  rw [if_neg (by omega), if_neg (by omega), if_pos rfl, and_255, ofNat_eq_byte (a := a),
    ofNat_eq_byte (a := b), Decoding.write_of_le (by simp; omega)]
  · rfl
  · simp only [Nat.shiftRight_eq_div_pow, Nat.shiftLeft_eq]
    omega
  · simp only [Nat.shiftRight_eq_div_pow, Nat.shiftLeft_eq]
    omega

/-- A group of three bytes. -/
private theorem decode_three (hj : j ≤ i) (htext : Memory.Holds result i (encodeGroup (a :: b :: c :: rest))) :
    decodeLoop (n + 4) i ⟨result, j, 0, 0⟩ =
      decodeLoop n (i + 4) ⟨Memory.put result j [a, b, c], j + 3, 0, 0⟩ := by
  have ha := a.isLt
  have hb := b.isLt
  have hc := c.isLt
  simp only [encodeGroup_three, Memory.holds_cons] at htext
  obtain ⟨h0, h1, h2, h3, -⟩ := htext
  rw [decodeLoop_char h0 (by omega), decodeLoop_char h1 (by omega), decodeLoop_char h2 (by omega),
    decodeLoop_full (a := a) (b := b) (c := c) h3 (by omega)]
  simp only [Nat.shiftRight_eq_div_pow, Nat.shiftLeft_eq]
  omega

/-- The text is decoded to what was encoded, from `i` on and to what is before. -/
theorem decodeLoop_text (hj : j ≤ i) (htext : Memory.Holds result i (base64Text bs))
    (hn : n = (base64Text bs).length) (hlen : len = i + n) :
    ∃ r, ((decodeLoop n i ⟨result, j, 0, 0⟩).bind fun s => s.2.finish s.1 len) = some (j + bs.length, r) ∧
      Memory.Holds r j bs ∧ ∀ k < j, r k = result k := by
  fun_induction base64Text bs generalizing result j i n with
  | case1 =>
    subst hn
    refine ⟨result, ?_, Memory.holds_nil, fun _ _ => rfl⟩
    show Decoding.finish _ i len = _
    unfold Decoding.finish
    rw [if_pos (by simp [hlen]), if_neg (by simp)]
    rfl
  | case2 x rest ih =>
    rw [Memory.holds_append] at htext
    rw [List.length_append] at hn
    cases rest with
    | nil =>
      have hfour : n = 4 := by simpa [encodeGroup_one] using hn
      rw [hfour] at hlen ⊢
      refine ⟨_, decode_one hj htext.1 hlen, ?_, fun k hk => Memory.put_of_lt hk⟩
      have hput : Memory.Holds (Memory.put result j ([x] ++ [0])) j ([x] ++ [0]) := Memory.holds_put
      exact (Memory.holds_append.mp hput).1
    | cons y rest =>
      cases rest with
      | nil =>
        have hfour : n = 4 := by simpa [encodeGroup_two] using hn
        rw [hfour] at hlen ⊢
        refine ⟨_, decode_two hj htext.1 hlen, ?_, fun k hk => Memory.put_of_lt hk⟩
        have hput : Memory.Holds (Memory.put result j ([x, y] ++ [0])) j ([x, y] ++ [0]) :=
          Memory.holds_put
        exact (Memory.holds_append.mp hput).1
      | cons z rest =>
        have hgroup : (encodeGroup (x :: y :: z :: rest)).length = 4 := rfl
        have hdrop : (y :: z :: rest).drop 2 = rest := rfl
        rw [hdrop] at ih htext hn
        have hsplit : n = (base64Text rest).length + 4 := by
          rw [hn, hgroup, Nat.add_comm]
        rw [hgroup] at htext
        rw [hsplit, decode_three hj htext.1]
        have hrest : len = ((i + 4 : ℕ) : ℤ) + ((base64Text rest).length : ℤ) := by omega
        have hkept : Memory.Holds (Memory.put result j [x, y, z]) (i + 4) (base64Text rest) :=
          htext.2.put (by simp; omega)
        obtain ⟨r, hr, hholds, hbefore⟩ := ih (j := j + 3) (by omega) hkept rfl hrest
        refine ⟨r, ?_, ?_, ?_⟩
        · rw [hr]
          simp
          omega
        · have hthree : Memory.Holds r j [x, y, z] := by
            rw [Memory.holds_iff]
            intro k hk
            rw [hbefore _ (by simpa using hk), Memory.put_at hk]
          have hall : Memory.Holds r j ([x, y, z] ++ rest) := Memory.holds_append.mpr ⟨hthree, hholds⟩
          exact hall
        · intro k hk
          rw [hbefore k (by omega), Memory.put_of_lt hk]

end Decoded

section RoundTrip

variable {bs : List Byte} {size : ℕ} {result : ℕ → Byte}

theorem strlen_of_holds {text : List Byte} (h : Memory.Holds result 0 (text ++ [0])) (hsize : text.length < size)
    (htext : 0 ∉ text) : strlen size result = text.length := by
  obtain ⟨k, rfl⟩ : ∃ k, size = (text ++ [0]).length + k := ⟨size - text.length - 1, by simp; omega⟩
  unfold strlen
  rw [Memory.slice_add, h.slice_eq rfl, List.append_assoc, List.takeWhile_append_of_pos]
  · simp
  · intro c hc
    have hne : c ≠ 0 := fun heq => htext (heq ▸ hc)
    simpa using hne

/-- What is encoded, in all that is allocated for it, is decoded again in place. -/
def Restored (bs : List Byte) : Prop :=
  ∃ out, b64encode bs = some (base64Length bs.length, out) ∧ ∃ result,
    b64decode (base64Length bs.length + 1) out = some (bs.length, result) ∧ Memory.Holds result 0 bs

theorem b64decode_text (out : ℕ → Byte) (hout : out = Memory.put (fun _ => 0) 0 (base64Text bs ++ [0])) :
    b64decode (base64Length bs.length + 1) out =
      decodeChars ((base64Length bs.length : ℤ).bmod (2 ^ 32)) out := by
  have hholds : Memory.Holds out 0 (base64Text bs ++ [0]) := hout ▸ Memory.holds_put
  unfold b64decode
  rw [strlen_of_holds hholds (by rw [length_base64Text]; omega) zero_notMem_base64Text, length_base64Text]

/-- The length of the text is an `int32_t`. -/
theorem restored_of_lt (h : base64Length bs.length < 2 ^ 31) : Restored bs := by
  have hlen : (base64Length bs.length : ℤ).bmod (2 ^ 32) = base64Length bs.length := by
    apply Int.bmod_eq_of_le <;> omega
  have hput : Memory.Holds (Memory.put (fun _ => (0 : Byte)) 0 (base64Text bs ++ [0])) 0
      (base64Text bs ++ [0]) := Memory.holds_put
  have htext := (Memory.holds_append.mp hput).1
  have hend : (base64Length bs.length : ℤ) = (0 : ℕ) + ((base64Text bs).length : ℤ) := by
    rw [length_base64Text]
    simp
  obtain ⟨r, hr, hholds, -⟩ := decodeLoop_text (Nat.le_refl 0) htext rfl hend
  refine ⟨_, b64encode_eq, r, ?_, hholds⟩
  rw [b64decode_text _ rfl, hlen]
  rw [length_base64Text, Nat.zero_add] at hr
  exact hr

/-- A string whose base64 text has more characters than an `int32_t` counts. -/
theorem not_restored : ¬ Restored (List.replicate 1610612734 0) := by
  rintro ⟨out, hout, result, hdecode, -⟩
  rw [b64encode_eq] at hout
  have hmem := (Prod.ext_iff.mp (Option.some.inj hout)).2
  rw [b64decode_text out hmem.symm, List.length_replicate] at hdecode
  have hlen : (base64Length 1610612734 : ℤ).bmod (2 ^ 32) = -(2 ^ 31) := by decide
  rw [hlen] at hdecode
  have hnone : decodeChars (-(2 ^ 31)) out = some (0, out) := by
    unfold decodeChars
    rfl
  rw [hnone] at hdecode
  have hzero := (Prod.ext_iff.mp (Option.some.inj hdecode)).1
  simp at hzero

/-- Encoding fills what is allocated, decoding overwrites no character that was not read, and the bytes are
restored where the number of characters is an `int32_t`. -/
theorem base64_restored (bs : List Byte) :
    b64encode bs = some (base64Length bs.length, Memory.put (fun _ => 0) 0 (base64Text bs ++ [0])) ∧
      (base64Text bs).length = base64Length bs.length ∧
        (∀ size result, ∃ r, b64decode size result = some r) ∧
          (base64Length bs.length < 2 ^ 31 → Restored bs) := by
  exact ⟨b64encode_eq, length_base64Text, fun _ _ => decodeChars_isSome, restored_of_lt⟩

/-- The word "NCam". -/
theorem base64_restored_word : base64Length 4 < 2 ^ 31 ∧ Restored [0x4e, 0x43, 0x61, 0x6d] := by
  have hlt : base64Length [0x4e, 0x43, 0x61, (0x6d : Byte)].length < 2 ^ 31 := by decide
  exact ⟨hlt, (base64_restored [0x4e, 0x43, 0x61, 0x6d]).2.2.2 hlt⟩

end RoundTrip

end NCam.Util
