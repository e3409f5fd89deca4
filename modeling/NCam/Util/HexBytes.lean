import NCam.Util.Printf

/-! Texts of two hexadecimal digits for each byte: what `%02X` prints and `key_atob_l` reads back. -/
namespace NCam.Util

/-- One pair of digits; the zero behind the text is none. -/
def keyByte (asc : List Char) (j : ℕ) : Option (BitVec 8) :=
  (gethexval (asc.getD (2 * j) '\x00')).bind fun n1 =>
    (gethexval (asc.getD (2 * j + 1) '\x00')).map fun n2 => BitVec.ofNat 8 (n1 * 16 + n2)

/-- A pair that is no number leaves the byte as it is. -/
def keyAtobL {size : ℕ} (asc : List Char) (bin : Vector (BitVec 8) size) (l : ℕ) :
    Vector (BitVec 8) size :=
  (List.range ((l + 1) / 2)).foldl
    (fun bin j => (keyByte asc j).elim bin fun b => bin.setIfInBounds j b) bin

def toHex (code : ℕ) : Char := "0123456789abcdef".toList.getD (code % 16) '0'

/-- Two small digits for each byte. -/
def charToHex (bs : List (BitVec 8)) : List Char := bs.flatMap fun b => [toHex (b.toNat / 16), toHex b.toNat]

/-- `%02X` of a byte. -/
def hexByte (b : BitVec 8) : List Char := printfHex 2 (b.setWidth 32)

section Bytes

variable {size n l j : ℕ} {asc : List Char} {bin : Vector (BitVec 8) size} {b : BitVec 8}
  {bs : List (BitVec 8)} {c : Char}

theorem isBlank_of_hex (h : gethexval c ≠ none) : isBlank c = false := by
  by_contra hblank
  rw [Bool.not_eq_false] at hblank
  unfold isBlank at hblank
  simp only [Bool.or_eq_true, decide_eq_true_eq] at hblank
  rcases hblank with ((rfl | rfl) | rfl) | rfl <;> exact h rfl

/-- The first pairs of a number of digits, whatever was in their place. -/
private theorem take_keyAtobL (hhex : ∀ c ∈ asc, gethexval c ≠ none) (hn : 2 * n ≤ asc.length)
    (hsize : n ≤ size) : (((List.range n).foldl
      (fun bin j => (keyByte asc j).elim bin fun b => bin.setIfInBounds j b) bin).toList.take n) =
        (List.range n).map fun j => (keyByte asc j).getD 0 := by
  induction n with
  | zero => rfl
  | succ n ih =>
    have hsome : ∀ i < asc.length, ∃ v, gethexval (asc.getD i '\x00') = some v := by
      intro i hi
      rw [List.getD_eq_getElem _ _ hi]
      exact Option.ne_none_iff_exists'.mp (hhex _ (List.getElem_mem hi))
    obtain ⟨n1, hn1⟩ := hsome (2 * n) (by omega)
    obtain ⟨n2, hn2⟩ := hsome (2 * n + 1) (by omega)
    have hbyte : keyByte asc n = some (BitVec.ofNat 8 (n1 * 16 + n2)) := by
      unfold keyByte
      rw [hn1, Option.bind_some, hn2, Option.map_some]
    have hrest := ih (by omega) (by omega)
    rw [List.range_succ, List.foldl_append, List.foldl_cons, List.foldl_nil, List.map_append,
      List.map_singleton, hbyte, ← hrest]
    generalize (List.range n).foldl (fun bin j => (keyByte asc j).elim bin fun b => bin.setIfInBounds j b)
      bin = before
    change (before.setIfInBounds n _).toList.take (n + 1) = before.toList.take n ++ [_]
    have hset : (before.setIfInBounds n (BitVec.ofNat 8 (n1 * 16 + n2))).toList =
        before.toList.set n (BitVec.ofNat 8 (n1 * 16 + n2)) := Vector.toList_setIfInBounds
    have hlen : before.toList.length = size := Vector.length_toList
    rw [hset, List.take_succ_eq_append_getElem (by rw [List.length_set]; omega), List.take_set_of_le (by omega),
      List.getElem_set_self]
    rfl

/-- The bytes that are read do not depend on those before them. -/
theorem keyAtobL_take (hhex : ∀ c ∈ asc, gethexval c ≠ none) (hl : l ≤ asc.length) (hsize : l / 2 ≤ size) :
    (keyAtobL asc bin l).toList.take (l / 2) =
      (List.range (l / 2)).map fun j => (keyByte asc j).getD 0 := by
  have hwhole := @take_keyAtobL size (l / 2) asc bin hhex (by omega) hsize
  unfold keyAtobL
  by_cases heven : l % 2 = 0
  · have hhalf : (l + 1) / 2 = l / 2 := by omega
    rw [hhalf, hwhole]
  · have hhalf : (l + 1) / 2 = l / 2 + 1 := by omega
    rw [hhalf, List.range_succ, List.foldl_append, List.foldl_cons, List.foldl_nil, ← hwhole]
    generalize (List.range (l / 2)).foldl
      (fun bin j => (keyByte asc j).elim bin fun b => bin.setIfInBounds j b) bin = before
    cases keyByte asc (l / 2) with
    | none => rfl
    | some b =>
      have hset : (before.setIfInBounds (l / 2) b).toList = before.toList.set (l / 2) b :=
        Vector.toList_setIfInBounds
      change (before.setIfInBounds (l / 2) b).toList.take (l / 2) = _
      rw [hset, List.take_set_of_le (Nat.le_refl _)]

theorem hexByte_eq : hexByte b = [hexDigit (b.setWidth 32) 1, hexDigit (b.setWidth 32) 0] := by
  have hlt : (b.setWidth 32).toNat < 16 ^ 2 := by
    rw [BitVec.toNat_setWidth_of_le (by omega)]
    exact b.isLt
  unfold hexByte
  rw [printfHex_eq (by omega), hexWidth_of_lt (by omega) hlt]
  rfl

theorem hex_hexBytes : ∀ c ∈ (bs.map hexByte).flatten, gethexval c ≠ none := by
  intro c hc
  obtain ⟨t, ht, hc⟩ := List.mem_flatten.mp hc
  obtain ⟨b, -, rfl⟩ := List.mem_map.mp ht
  rw [hexByte_eq] at hc
  intro hnone
  rcases List.mem_cons.mp hc with rfl | hc
  · rw [gethexval_hexDigit] at hnone
    cases hnone
  · rw [List.mem_singleton.mp hc, gethexval_hexDigit] at hnone
    cases hnone

theorem keyByte_hexBytes (hj : j < bs.length) :
    keyByte (bs.map hexByte).flatten j = some (bs.get ⟨j, hj⟩) := by
  induction bs generalizing j with
  | nil => exact absurd hj (Nat.not_lt_zero j)
  | cons b bs ih =>
    rw [List.map_cons, List.flatten_cons, hexByte_eq]
    cases j with
    | zero =>
      have hval : (b.setWidth 32).toNat = b.toNat := BitVec.toNat_setWidth_of_le (by omega)
      have hb := b.isLt
      unfold keyByte
      change (gethexval (hexDigit (b.setWidth 32) 1)).bind (fun n1 =>
        (gethexval (hexDigit (b.setWidth 32) 0)).map fun n2 => BitVec.ofNat 8 (n1 * 16 + n2)) = some b
      rw [gethexval_hexDigit, gethexval_hexDigit, hval, Option.bind_some, Option.map_some]
      congr 1
      apply BitVec.eq_of_toNat_eq
      rw [BitVec.toNat_ofNat]
      omega
    | succ j =>
      have hrest := ih (Nat.lt_of_succ_lt_succ hj)
      have hdouble : 2 * (j + 1) = 2 * j + 2 := by omega
      unfold keyByte at hrest ⊢
      rw [hdouble]
      exact hrest

theorem length_hexBytes : ((bs.map hexByte).flatten).length = 2 * bs.length := by
  induction bs with
  | nil => rfl
  | cons b bs ih =>
    have hcons : (b :: bs).length = bs.length + 1 := rfl
    rw [List.map_cons, List.flatten_cons, List.length_append, ih, hexByte_eq, hcons]
    change 2 + _ = _
    omega

/-- The bytes of a printed text. -/
theorem map_keyByte_hexBytes :
    (List.range bs.length).map (fun j => (keyByte (bs.map hexByte).flatten j).getD 0) = bs := by
  apply List.ext_getElem
  · rw [List.length_map, List.length_range]
  · intro j _ hj
    rw [List.getElem_map, List.getElem_range, keyByte_hexBytes hj]
    rfl

/-- A buffer that is filled with what was printed. -/
theorem keyAtobL_hexBytes {v : Vector (BitVec 8) size} :
    keyAtobL (v.toList.map hexByte).flatten bin (2 * size) = v := by
  have hlen : v.toList.length = size := Vector.length_toList
  have hhalf : 2 * size / 2 = size := by omega
  have htake := @keyAtobL_take size (2 * size) (v.toList.map hexByte).flatten bin hex_hexBytes
    (by rw [length_hexBytes]; omega) (by omega)
  have hmap := @map_keyByte_hexBytes v.toList
  rw [hlen] at hmap
  rw [hhalf, hmap, List.take_of_length_le (by rw [Vector.length_toList])] at htake
  exact Vector.toList_inj.mp htake

theorem keyByte_append {rest : List Char} (hj : 2 * j + 1 < asc.length) :
    keyByte (asc ++ rest) j = keyByte asc j := by
  unfold keyByte
  rw [List.getD_append _ _ _ _ (by omega), List.getD_append _ _ _ _ hj]

theorem keyByte_take {m : ℕ} (hj : 2 * j + 1 < m) : keyByte (asc.take m) j = keyByte asc j := by
  have hget : ∀ i < m, (asc.take m).getD i '\x00' = asc.getD i '\x00' := by
    intro i hi
    rw [List.getD_eq_getElem?_getD, List.getD_eq_getElem?_getD, List.getElem?_take_of_lt hi]
  unfold keyByte
  rw [hget _ (by omega), hget _ hj]

/-- A pair with a digit behind the end is no number. -/
theorem keyByte_of_le (hj : asc.length ≤ 2 * j + 1) : keyByte asc j = none := by
  have hend : gethexval (asc.getD (2 * j + 1) '\x00') = none := by
    rw [List.getD_eq_default _ _ hj]
    rfl
  unfold keyByte
  rw [hend]
  cases gethexval (asc.getD (2 * j) '\x00') <;> rfl

/-- All bytes that `key_atob_l` leaves: those of the text, and the ones before where it has no number. -/
theorem toList_keyAtobL : (keyAtobL asc bin (2 * size)).toList =
    (List.range size).map fun j => (keyByte asc j).getD (bin.toList.getD j 0) := by
  have hrun : ∀ k ≤ size, ∀ j < size, ((List.range k).foldl
      (fun bin j => (keyByte asc j).elim bin fun b => bin.setIfInBounds j b) bin).toList.getD j 0 =
        if j < k then (keyByte asc j).getD (bin.toList.getD j 0) else bin.toList.getD j 0 := by
    intro k hk j hj
    induction k with
    | zero => rfl
    | succ k ih =>
      have hbefore := ih (by omega)
      rw [List.range_succ, List.foldl_append, List.foldl_cons, List.foldl_nil]
      revert hbefore
      generalize (List.range k).foldl (fun bin j => (keyByte asc j).elim bin fun b => bin.setIfInBounds j b)
        bin = before
      intro hbefore
      have hlen : before.toList.length = size := Vector.length_toList
      cases hbyte : keyByte asc k with
      | none =>
        change before.toList.getD j 0 = _
        rw [hbefore]
        by_cases hjk : j = k
        · rw [hjk, if_neg (Nat.lt_irrefl k), if_pos (Nat.lt_succ_self k), hbyte]
          rfl
        · by_cases hlt : j < k
          · rw [if_pos hlt, if_pos (by omega)]
          · rw [if_neg hlt, if_neg (by omega)]
      | some b =>
        have hset : (before.setIfInBounds k b).toList = before.toList.set k b := Vector.toList_setIfInBounds
        change (before.setIfInBounds k b).toList.getD j 0 = _
        rw [hset]
        by_cases hjk : j = k
        · rw [hjk, if_pos (Nat.lt_succ_self k), hbyte, List.getD_eq_getElem _ _ (by rw [List.length_set]; omega),
            List.getElem_set_self]
          rfl
        · rw [List.getD_eq_getElem?_getD, List.getElem?_set_ne (Ne.symm hjk), ← List.getD_eq_getElem?_getD, hbefore]
          by_cases hlt : j < k
          · rw [if_pos hlt, if_pos (by omega)]
          · rw [if_neg hlt, if_neg (by omega)]
  have hhalf : (2 * size + 1) / 2 = size := by omega
  have hwhole := hrun size (Nat.le_refl size)
  unfold keyAtobL
  rw [hhalf]
  revert hwhole
  generalize (List.range size).foldl (fun bin j => (keyByte asc j).elim bin fun b => bin.setIfInBounds j b)
    bin = after
  intro hwhole
  have hlen : after.toList.length = size := Vector.length_toList
  apply List.ext_getElem
  · rw [hlen, List.length_map, List.length_range]
  · intro j hj _
    have hget := hwhole j (by omega)
    rw [if_pos (by omega), List.getD_eq_getElem _ _ hj] at hget
    rw [hget, List.getElem_map, List.getElem_range]

private theorem gethexval_toHex {n : ℕ} : gethexval (toHex n) = some (n % 16) := by
  have hall : ∀ k < 16, gethexval ("0123456789abcdef".toList.getD k '0') = some k := by decide
  exact hall (n % 16) (Nat.mod_lt n (by omega))

theorem length_charToHex : (charToHex bs).length = 2 * bs.length := by
  unfold charToHex
  induction bs with
  | nil => rfl
  | cons b bs ih =>
    have hcons : (b :: bs).length = bs.length + 1 := rfl
    rw [List.flatMap_cons, List.length_append, ih, hcons]
    change 2 + _ = _
    omega

theorem hex_charToHex : ∀ c ∈ charToHex bs, gethexval c ≠ none := by
  intro c hc
  obtain ⟨b, -, hc⟩ := List.mem_flatMap.mp hc
  rcases List.mem_cons.mp hc with rfl | hc
  · rw [gethexval_toHex]
    exact Option.some_ne_none _
  · rw [List.mem_singleton.mp hc, gethexval_toHex]
    exact Option.some_ne_none _

/-- Small digits are read as the same bytes. -/
theorem keyByte_charToHex (hj : j < bs.length) : keyByte (charToHex bs) j = some (bs.get ⟨j, hj⟩) := by
  induction bs generalizing j with
  | nil => exact absurd hj (Nat.not_lt_zero j)
  | cons b bs ih =>
    unfold charToHex
    rw [List.flatMap_cons]
    cases j with
    | zero =>
      have hb := b.isLt
      unfold keyByte
      change (gethexval (toHex (b.toNat / 16))).bind (fun n1 =>
        (gethexval (toHex b.toNat)).map fun n2 => BitVec.ofNat 8 (n1 * 16 + n2)) = some b
      rw [gethexval_toHex, gethexval_toHex, Option.bind_some, Option.map_some]
      congr 1
      apply BitVec.eq_of_toNat_eq
      rw [BitVec.toNat_ofNat]
      omega
    | succ j =>
      have hrest := ih (Nat.lt_of_succ_lt_succ hj)
      have hdouble : 2 * (j + 1) = 2 * j + 2 := by omega
      unfold charToHex keyByte at hrest
      unfold keyByte
      rw [hdouble]
      exact hrest

end Bytes

end NCam.Util
