import NCam.Util.Tokens
import Mathlib.Data.Nat.Bitwise

/-! Rows of `snprintf` calls into one buffer, and the hexadecimal numbers that `a2i` reads back. -/
namespace NCam.Util

section Buffer

/-- `pos += snprintf(ret + pos, maxlen - pos, …)` once for every text: the text left in a buffer of `maxlen`
bytes. From a place behind the buffer on, the size passed is negative and bounds nothing. -/
def snprintfs (maxlen : ℕ) : List (List Char) → ℕ → List Char → Option (List Char)
  | [], _, ret => some ret
  | s :: ss, pos, ret =>
    if maxlen < pos then none
    else snprintfs maxlen ss (pos + s.length) (ret ++ s.take (maxlen - pos - 1))

variable {maxlen pos : ℕ} {s ret done text : List Char} {ss : List (List Char)}

/-- The text is the beginning of all that was printed. -/
theorem snprintfs_eq_take (hpos : pos = done.length) (hret : ret = done.take (maxlen - 1))
    (h : snprintfs maxlen ss pos ret = some text) :
    text = (done ++ ss.flatten).take (maxlen - 1) := by
  induction ss generalizing pos ret done with
  | nil =>
    rw [List.flatten_nil, List.append_nil, ← hret]
    exact (Option.some.inj h).symm
  | cons s ss ih =>
    change (if maxlen < pos then none else _) = _ at h
    split_ifs at h with hout
    rw [List.flatten_cons, ← List.append_assoc]
    refine ih ?_ ?_ h
    · rw [hpos, List.length_append]
    · rw [List.take_append, hret, hpos, Nat.sub_right_comm]

/-- Every call is given a place inside the buffer if the last one is. -/
theorem snprintfs_isSome (h : pos + ss.dropLast.flatten.length ≤ maxlen) :
    ∃ text, snprintfs maxlen ss pos ret = some text := by
  induction ss generalizing pos ret with
  | nil => exact ⟨ret, rfl⟩
  | cons s ss ih =>
    have hin : ¬ maxlen < pos := by omega
    change ∃ text, (if maxlen < pos then none else _) = _
    rw [if_neg hin]
    cases ss with
    | nil => exact ⟨_, rfl⟩
    | cons u ss =>
      rw [List.dropLast_cons_cons, List.flatten_cons, List.length_append] at h
      exact ih (by omega)

/-- No call is given a place behind the buffer if the last one is not. -/
theorem le_of_snprintfs (hne : ss ≠ []) (h : snprintfs maxlen ss pos ret = some text) :
    pos + ss.dropLast.flatten.length ≤ maxlen := by
  induction ss generalizing pos ret with
  | nil => exact absurd rfl hne
  | cons s ss ih =>
    change (if maxlen < pos then none else _) = _ at h
    split_ifs at h with hout
    cases ss with
    | nil =>
      change pos + 0 ≤ maxlen
      omega
    | cons u ss =>
      have hrest := ih (List.cons_ne_nil u ss) h
      rw [List.dropLast_cons_cons, List.flatten_cons, List.length_append]
      omega

/-- What is left of the texts of all calls in an empty buffer. -/
theorem snprintfs_eq (hne : ss ≠ []) : snprintfs maxlen ss 0 [] =
    if ss.dropLast.flatten.length ≤ maxlen then some (ss.flatten.take (maxlen - 1)) else none := by
  split_ifs with hle
  · obtain ⟨text, htext⟩ := @snprintfs_isSome maxlen 0 [] ss (by omega)
    have htake := @snprintfs_eq_take maxlen 0 [] [] text ss rfl List.take_nil.symm htext
    rw [htext, htake]
    rfl
  · cases h : snprintfs maxlen ss 0 [] with
    | none => rfl
    | some text =>
      have hlast := le_of_snprintfs hne h
      omega

/-- All that is printed is left exactly if the buffer has room for it and its final zero. -/
theorem snprintfs_whole_iff (hmax : 0 < maxlen) :
    snprintfs maxlen ss 0 [] = some ss.flatten ↔ ss.flatten.length < maxlen := by
  by_cases hne : ss = []
  · subst hne
    simp [snprintfs, hmax]
  rw [snprintfs_eq hne]
  have hlast : ss.dropLast.flatten.length ≤ ss.flatten.length :=
    ((List.dropLast_sublist _).flatten).length_le
  constructor
  · intro h
    split_ifs at h with hle
    have hlen := congrArg List.length (Option.some.inj h)
    rw [List.length_take] at hlen
    omega
  · intro h
    rw [if_pos (by omega), List.take_of_length_le (by omega)]

end Buffer

/-- `%X`, nothing for zero. -/
def hexDigits (v : BitVec 32) : List Char :=
  ((List.range 8).reverse.map (hexDigit v)).dropWhile (· = '0')

/-- `%0wX`. -/
def printfHex (w : ℕ) (v : BitVec 32) : List Char :=
  List.replicate (w - (hexDigits v).length) '0' ++ hexDigits v

/-- The number of characters of `%0wX`. -/
def hexWidth (w : ℕ) (v : BitVec 32) : ℕ := max w (hexDigits v).length

/-- The digits at the places below `n`. -/
def hexText (n : ℕ) (v : BitVec 32) : List Char := (List.range n).reverse.map (hexDigit v)

section Digits

variable {v : BitVec 32} {c : Char} {w n m k : ℕ}

private theorem gethexval_of_lt : ∀ d < 16, gethexval (hexChars.getD d '0') = some d := by decide

private theorem isBlank_of_lt : ∀ d < 16, isBlank (hexChars.getD d '0') = false := by decide

theorem gethexval_hexDigit : gethexval (hexDigit v k) = some (v.toNat / 16 ^ k % 16) :=
  gethexval_of_lt _ (Nat.mod_lt _ (by omega))

theorem length_hexText : (hexText n v).length = n := by
  unfold hexText
  rw [List.length_map, List.length_reverse, List.length_range]

/-- A text of digits has none of the characters that separate numbers. -/
theorem notMem_hexText (h : gethexval c = none) : c ∉ hexText n v := by
  intro hc
  obtain ⟨k, -, rfl⟩ := List.mem_map.mp hc
  rw [gethexval_hexDigit] at h
  cases h

theorem isBlank_hexText : ∀ c ∈ hexText n v, isBlank c = false := by
  intro c hc
  obtain ⟨k, -, rfl⟩ := List.mem_map.mp hc
  exact isBlank_of_lt _ (Nat.mod_lt _ (by omega))

theorem length_hexDigits_le : (hexDigits v).length ≤ 8 := by
  have h := (List.dropWhile_sublist (l := (List.range 8).reverse.map (hexDigit v)) (· = '0')).length_le
  rw [List.length_map, List.length_reverse, List.length_range] at h
  exact h

theorem hexText_add : hexText (n + m) v = ((List.range m).map (n + ·)).reverse.map (hexDigit v) ++
    hexText n v := by
  unfold hexText
  rw [List.range_add, List.reverse_append, List.map_append]

/-- The places that `%X` leaves out hold zeros. -/
theorem hexDigit_eq_zero (hk : (hexDigits v).length ≤ k) (h8 : k < 8) : hexDigit v k = '0' := by
  have hsplit : hexText 8 v = (hexText 8 v).takeWhile (· = '0') ++ hexDigits v :=
    List.takeWhile_append_dropWhile.symm
  have hlen : 8 = ((hexText 8 v).takeWhile (· = '0')).length + (hexDigits v).length := by
    rw [← List.length_append, ← hsplit, length_hexText]
  have hget : (hexText 8 v)[7 - k]? = some (hexDigit v k) := by
    unfold hexText
    rw [List.getElem?_map, List.getElem?_reverse (by rw [List.length_range]; omega),
      List.length_range, List.getElem?_range (by omega)]
    change some (hexDigit v (8 - 1 - (7 - k))) = _
    congr 2
    omega
  rw [hsplit, List.getElem?_append_left (by omega)] at hget
  have hpass := List.mem_takeWhile_imp (List.mem_of_getElem? hget)
  exact of_decide_eq_true hpass

theorem hexDigits_eq : hexDigits v = hexText (hexDigits v).length v := by
  have hsum : (hexDigits v).length + (8 - (hexDigits v).length) = 8 := by
    have := @length_hexDigits_le v
    omega
  have hall : hexText 8 v = hexText ((hexDigits v).length + (8 - (hexDigits v).length)) v := by
    rw [hsum]
  have hsuffix : hexDigits v <:+ hexText 8 v := List.dropWhile_suffix _
  have hsuffix' : hexText (hexDigits v).length v <:+ hexText 8 v := by
    rw [hall, hexText_add]
    exact List.suffix_append _ _
  exact (List.suffix_of_suffix_length_le hsuffix hsuffix' (Nat.le_of_eq length_hexText.symm)).eq_of_length
    length_hexText.symm

theorem hexWidth_le (hw : w ≤ 8) : hexWidth w v ≤ 8 := Nat.max_le.mpr ⟨hw, length_hexDigits_le⟩

/-- The printed number is a text of digits. -/
theorem printfHex_eq (hw : w ≤ 8) : printfHex w v = hexText (hexWidth w v) v := by
  have hwidth : hexWidth w v = (hexDigits v).length + (w - (hexDigits v).length) := by
    unfold hexWidth
    omega
  have hzeros : ((List.range (w - (hexDigits v).length)).map ((hexDigits v).length + ·)).reverse.map
      (hexDigit v) = List.replicate (w - (hexDigits v).length) '0' := by
    apply List.eq_replicate_iff.mpr
    refine ⟨by simp, ?_⟩
    intro c hc
    simp only [List.mem_map, List.mem_reverse, List.mem_range] at hc
    obtain ⟨-, ⟨j, hj, rfl⟩, rfl⟩ := hc
    exact hexDigit_eq_zero (by omega) (by omega)
  rw [hwidth, hexText_add, hzeros, ← hexDigits_eq]
  rfl

private theorem digit_le_div : v.toNat % 16 ^ k + v.toNat / 16 ^ k % 16 * 16 ^ k =
    v.toNat % 16 ^ (k + 1) := by
  rw [Nat.pow_succ, Nat.mod_mul, Nat.mul_comm]

/-- The number has no more digits than `%X` prints. -/
theorem mod_hexWidth (hn : (hexDigits v).length ≤ n) (h8 : n ≤ 8) : v.toNat % 16 ^ n = v.toNat := by
  have hdown : ∀ j, n ≤ j → j ≤ 8 → v.toNat % 16 ^ n = v.toNat % 16 ^ j := by
    intro j hj
    induction j, hj using Nat.le_induction with
    | base => exact fun _ => rfl
    | succ j hj ih =>
      intro hj8
      have hzero : v.toNat / 16 ^ j % 16 = 0 := by
        have hdigit := @gethexval_hexDigit v j
        rw [hexDigit_eq_zero (by omega) (by omega)] at hdigit
        exact (Option.some.inj hdigit).symm
      have hstep := @digit_le_div v j
      rw [hzero, Nat.zero_mul, Nat.add_zero] at hstep
      rw [ih (by omega), hstep]
  rw [hdown 8 h8 (Nat.le_refl 8)]
  exact Nat.mod_eq_of_lt v.isLt

/-- `%X` prints as many digits as the number has. -/
theorem length_hexDigits_le_iff (h8 : n ≤ 8) : (hexDigits v).length ≤ n ↔ v.toNat < 16 ^ n := by
  constructor
  · intro hn
    rw [← mod_hexWidth hn h8]
    exact Nat.mod_lt _ (Nat.pow_pos (by omega))
  · intro hv
    by_contra hlong
    obtain ⟨k, hk⟩ : ∃ k, (hexDigits v).length = k + 1 := ⟨(hexDigits v).length - 1, by omega⟩
    have hne : hexDigits v ≠ [] := by
      intro hnil
      rw [hnil, List.length_nil] at hk
      omega
    have hfirst : hexDigits v = hexDigit v k :: hexText k v := by
      rw [hexDigits_eq, hk]
      unfold hexText
      rw [List.range_succ, List.reverse_append]
      rfl
    have hpow : 16 ^ n ≤ 16 ^ k := Nat.pow_le_pow_right (by omega) (by omega)
    have hzero : hexDigit v k = '0' := by
      unfold hexDigit
      rw [Nat.div_eq_of_lt (Nat.lt_of_lt_of_le hv hpow)]
      rfl
    have hstop := List.head_dropWhile_not (· = '0') hne
    have hhead : (hexDigits v).head hne = hexDigit v k := by
      simp only [hfirst, List.head_cons]
    change decide ((hexDigits v).head hne = '0') = false at hstop
    rw [hhead, hzero] at hstop
    cases hstop

/-- A number that fits is printed with exactly `w` digits. -/
theorem hexWidth_of_lt (hw : w ≤ 8) (hv : v.toNat < 16 ^ w) : hexWidth w v = w :=
  Nat.max_eq_left ((length_hexDigits_le_iff hw).mpr hv)

theorem length_printfHex (hw : w ≤ 8) : (printfHex w v).length = hexWidth w v := by
  rw [printfHex_eq hw, length_hexText]

end Digits

section Read

variable {v : BitVec 32} {n m i bytes w : ℕ}

private theorem a2iLoop_nil (n i : ℕ) (rc : BitVec 32) : a2iLoop false n i [] rc = rc := by
  induction n generalizing i with
  | zero => rfl
  | succ n ih => exact ih (i + 1)

private theorem or_digit : BitVec.ofNat 32 (v.toNat % 16 ^ i) |||
    BitVec.ofNat 32 (v.toNat / 16 ^ i % 16) <<< (i <<< 2) = BitVec.ofNat 32 (v.toNat % 16 ^ (i + 1)) := by
  have hshift : i <<< 2 = 4 * i := by
    rw [Nat.shiftLeft_eq]
    omega
  have hpow : 16 ^ i = 2 ^ (4 * i) := by rw [Nat.pow_mul]
  have hpos : 0 < 16 ^ i := Nat.pow_pos (by omega)
  have hle : v.toNat % 16 ^ (i + 1) < 2 ^ 32 := Nat.lt_of_le_of_lt (Nat.mod_le _ _) v.isLt
  have hsum := @digit_le_div v i
  apply BitVec.eq_of_toNat_eq
  rw [BitVec.toNat_or, BitVec.toNat_shiftLeft, BitVec.toNat_ofNat, BitVec.toNat_ofNat,
    BitVec.toNat_ofNat, Nat.mod_eq_of_lt hle, hshift, Nat.shiftLeft_eq, ← hpow,
    Nat.mod_eq_of_lt (a := v.toNat % 16 ^ i) (by omega),
    Nat.mod_eq_of_lt (a := v.toNat / 16 ^ i % 16) (by omega),
    Nat.mod_eq_of_lt (a := v.toNat / 16 ^ i % 16 * 16 ^ i) (by omega), ← hsum]
  rw [hpow, Nat.or_comm, Nat.mul_comm, ← Nat.two_pow_add_eq_or_of_lt (Nat.mod_lt _ (by omega)),
    Nat.add_comm]

private theorem a2iLoop_digits (h : i + m ≤ 8) :
    a2iLoop false n i ((List.range' i m).map (hexDigit v)) (.ofNat 32 (v.toNat % 16 ^ i)) =
      .ofNat 32 (v.toNat % 16 ^ (i + min n m)) := by
  induction n generalizing i m with
  | zero =>
    rw [Nat.zero_min, Nat.add_zero]
    rfl
  | succ n ih =>
    cases m with
    | zero =>
      rw [Nat.min_zero, Nat.add_zero]
      exact a2iLoop_nil (n + 1) i _
    | succ m =>
      rw [List.range'_succ, List.map_cons]
      unfold a2iLoop
      rw [gethexval_hexDigit]
      dsimp only
      rw [or_digit, ih (by omega)]
      congr 3
      omega

/-- `a2i` of a text of digits keeps as many of the last digits as it is asked for. -/
theorem a2i_hexText (hn : n ≤ 8) :
    a2i (hexText n v) bytes = .ofNat 32 (v.toNat % 16 ^ min (bytes <<< 1) n) := by
  have hloop := @a2iLoop_digits v (bytes <<< 1) n 0 (by omega)
  rw [Nat.pow_zero, Nat.mod_one, Nat.zero_add] at hloop
  have hrev : (hexText n v).reverse = (List.range' 0 n).map (hexDigit v) := by
    unfold hexText
    rw [← List.map_reverse, List.reverse_reverse, List.range_eq_range']
  have hfill : decide ((bytes : ℤ) < 0) = false := decide_eq_false (by omega)
  unfold a2i
  rw [trim_of_noBlank isBlank_hexText, hrev, hfill]
  exact hloop

/-- A number with digits has a text, and only of digits. -/
theorem printfHex_spec {d : Char} (hd : gethexval d = none) (hpos : 0 < w) (hw : w ≤ 8) :
    printfHex w v ≠ [] ∧ d ∉ printfHex w v ∧ (printfHex w v).length ≤ 8 := by
  have hle : w ≤ hexWidth w v := Nat.le_max_left _ _
  rw [printfHex_eq hw]
  refine ⟨?_, notMem_hexText hd, ?_⟩
  · intro hnil
    have hlen := congrArg List.length hnil
    rw [length_hexText, List.length_nil] at hlen
    omega
  · rw [length_hexText]
    exact hexWidth_le hw

/-- What `%0wX` prints is read back. -/
theorem a2i_printfHex (hw : w ≤ 8) (hbytes : hexWidth w v ≤ bytes <<< 1) :
    a2i (printfHex w v) bytes = v := by
  have hlen : (hexDigits v).length ≤ hexWidth w v := Nat.le_max_right _ _
  rw [printfHex_eq hw, a2i_hexText (hexWidth_le hw), Nat.min_eq_right hbytes,
    mod_hexWidth hlen (hexWidth_le hw), BitVec.ofNat_toNat, BitVec.setWidth_eq]

/-- The beginning of a text of digits is the text of the higher digits. -/
theorem take_hexText (hm : m ≤ n) : (hexText n v).take m = hexText m (v >>> (4 * (n - m))) := by
  apply List.ext_getElem
  · rw [List.length_take, length_hexText, length_hexText]
    omega
  · intro i hi _
    rw [List.length_take, length_hexText] at hi
    have hpow : v.toNat / 16 ^ (n - m) / 16 ^ (m - 1 - i) = v.toNat / 16 ^ (n - 1 - i) := by
      rw [Nat.div_div_eq_div_mul, ← Nat.pow_add]
      congr 2
      omega
    have hshift : (v >>> (4 * (n - m))).toNat = v.toNat / 16 ^ (n - m) := by
      rw [BitVec.toNat_ushiftRight, Nat.shiftRight_eq_div_pow, Nat.pow_mul]
    simp only [hexText, List.getElem_take, List.getElem_map, List.getElem_reverse,
      List.length_range, List.getElem_range]
    unfold hexDigit
    rw [hshift, hpow]

end Read

end NCam.Util
