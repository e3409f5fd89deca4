import NCam.Lib.Memory
import Mathlib.Algebra.Order.Ring.Int

/-! Numbers as big-endian bytes in a buffer: `b2i` and `i2b_buf` of `ncam-string.c`. -/
namespace NCam.Util

open NCam.Lib.Memory

abbrev Byte := BitVec 8

/-- `b2i(n, b + o)`; a width it does not know gives 0. -/
def b2i (n : ℕ) (b : ℕ → Byte) (o : ℕ) : BitVec 32 :=
  let byte (i : ℕ) : BitVec 32 := (b (o + i)).setWidth 32
  match n with
  | 1 => byte 0
  | 2 => byte 0 <<< 8 ||| byte 1
  | 3 => byte 0 <<< 16 ||| byte 1 <<< 8 ||| byte 2
  | 4 => byte 0 <<< 24 ||| byte 1 <<< 16 ||| byte 2 <<< 8 ||| byte 3
  | _ => 0

/-- The bytes `i2b_buf(n, i, b)` writes; a width it does not know writes nothing. -/
def i2b (n : ℕ) (i : BitVec 32) : List Byte :=
  match n with
  | 2 => [(i >>> 8).setWidth 8, i.setWidth 8]
  | 3 => [(i >>> 16).setWidth 8, (i >>> 8).setWidth 8, i.setWidth 8]
  | 4 => [(i >>> 24).setWidth 8, (i >>> 16).setWidth 8, (i >>> 8).setWidth 8, i.setWidth 8]
  | _ => []

def i2bBuf (n : ℕ) (i : BitVec 32) (b : ℕ → Byte) (o : ℕ) : ℕ → Byte := put b o (i2b n i)

@[simp] theorem length_i2b_two (i : BitVec 32) : (i2b 2 i).length = 2 := rfl

@[simp] theorem length_i2b_three (i : BitVec 32) : (i2b 3 i).length = 3 := rfl

@[simp] theorem length_i2b_four (i : BitVec 32) : (i2b 4 i).length = 4 := rfl

section Bits

variable (i : BitVec 32)

private theorem bytes_two : ((i >>> 8).setWidth 8).setWidth 32 <<< 8 ||| (i.setWidth 8).setWidth 32 =
    (i.setWidth 16).setWidth 32 := by
  ext k hk
  simp only [BitVec.getElem_or, BitVec.getElem_shiftLeft, BitVec.getElem_setWidth,
    BitVec.getLsbD_setWidth, BitVec.getLsbD_ushiftRight]
  grind

private theorem bytes_three : ((i >>> 16).setWidth 8).setWidth 32 <<< 16 |||
    ((i >>> 8).setWidth 8).setWidth 32 <<< 8 ||| (i.setWidth 8).setWidth 32 =
    (i.setWidth 24).setWidth 32 := by
  ext k hk
  simp only [BitVec.getElem_or, BitVec.getElem_shiftLeft, BitVec.getElem_setWidth,
    BitVec.getLsbD_setWidth, BitVec.getLsbD_ushiftRight]
  grind

private theorem bytes_four : ((i >>> 24).setWidth 8).setWidth 32 <<< 24 |||
    ((i >>> 16).setWidth 8).setWidth 32 <<< 16 ||| ((i >>> 8).setWidth 8).setWidth 32 <<< 8 |||
    (i.setWidth 8).setWidth 32 = i := by
  ext k hk
  simp only [BitVec.getElem_or, BitVec.getElem_shiftLeft, BitVec.getElem_setWidth,
    BitVec.getLsbD_setWidth, BitVec.getLsbD_ushiftRight]
  grind

end Bits

variable {b : ℕ → Byte} {o : ℕ} {i : BitVec 32}

theorem b2i_one {v : Byte} (h : Holds b o [v]) : b2i 1 b o = v.setWidth 32 := by
  have h0 : b o = v := (holds_cons.mp h).1
  simp [b2i, h0]

theorem b2i_two (h : Holds b o (i2b 2 i)) : b2i 2 b o = (i.setWidth 16).setWidth 32 := by
  simp only [i2b, holds_cons] at h
  obtain ⟨h0, h1, -⟩ := h
  change (b (o + 0)).setWidth 32 <<< 8 ||| (b (o + 1)).setWidth 32 = _
  rw [Nat.add_zero, h0, h1, bytes_two]

theorem b2i_three (h : Holds b o (i2b 3 i)) : b2i 3 b o = (i.setWidth 24).setWidth 32 := by
  simp only [i2b, holds_cons, Nat.add_assoc, Nat.reduceAdd] at h
  obtain ⟨h0, h1, h2, -⟩ := h
  change (b (o + 0)).setWidth 32 <<< 16 ||| (b (o + 1)).setWidth 32 <<< 8 |||
    (b (o + 2)).setWidth 32 = _
  rw [Nat.add_zero, h0, h1, h2, bytes_three]

theorem b2i_three_lt (b : ℕ → Byte) (o : ℕ) : (b2i 3 b o).toNat < 2 ^ 24 := by
  have hbyte : ∀ v : Byte, (v.setWidth 32).toNat < 2 ^ 8 := by
    intro v
    rw [BitVec.toNat_setWidth_of_le (by omega)]
    exact v.isLt
  have hshift : ∀ (v : Byte) (k : ℕ), k ≤ 16 → (v.setWidth 32 <<< k).toNat < 2 ^ 24 := by
    intro v k hk
    have hlt : (v.setWidth 32).toNat * 2 ^ k < 2 ^ 8 * 2 ^ 16 :=
      Nat.mul_lt_mul_of_lt_of_le (hbyte v) (Nat.pow_le_pow_right (by omega) hk) (by omega)
    have hmod := Nat.mod_le ((v.setWidth 32).toNat * 2 ^ k) (2 ^ 32)
    rw [BitVec.toNat_shiftLeft, Nat.shiftLeft_eq]
    omega
  have hlow := hbyte (b (o + 2))
  change ((b (o + 0)).setWidth 32 <<< 16 ||| (b (o + 1)).setWidth 32 <<< 8 |||
    (b (o + 2)).setWidth 32).toNat < 2 ^ 24
  rw [BitVec.toNat_or, BitVec.toNat_or]
  apply Nat.or_lt_two_pow
  · exact Nat.or_lt_two_pow (hshift _ 16 (by omega)) (hshift _ 8 (by omega))
  · omega

theorem b2i_four (h : Holds b o (i2b 4 i)) : b2i 4 b o = i := by
  simp only [i2b, holds_cons, Nat.add_assoc, Nat.reduceAdd] at h
  obtain ⟨h0, h1, h2, h3, -⟩ := h
  change (b (o + 0)).setWidth 32 <<< 24 ||| (b (o + 1)).setWidth 32 <<< 16 |||
    (b (o + 2)).setWidth 32 <<< 8 ||| (b (o + 3)).setWidth 32 = _
  rw [Nat.add_zero, h0, h1, h2, h3, bytes_four]

theorem b2i_four_congr {b' : ℕ → Byte} {p : ℕ} (h : ∀ k < 4, b (o + k) = b' (p + k)) :
    b2i 4 b o = b2i 4 b' p := by
  simp only [b2i, h 0 (by decide), h 1 (by decide), h 2 (by decide), h 3 (by decide)]

theorem b2i_four_put {p : ℕ} {bs : List Byte} (h : o + 4 ≤ p ∨ p + bs.length ≤ o) :
    b2i 4 (put b p bs) o = b2i 4 b o := by
  apply b2i_four_congr
  intro k hk
  rcases h with hlo | hhi
  · exact put_of_lt (by omega)
  · exact put_of_le (by omega)

theorem b2i_four_zero : b2i 4 (fun _ => 0) o = 0 := by simp [b2i]

theorem b2i_four_i2bBuf : b2i 4 (i2bBuf 4 i b o) o = i := b2i_four holds_put

/-- A length in two bytes. -/
theorem size_two {n : ℕ} (h : n < 65536) :
    (BitVec.ofNat 8 (n >>> 8)).toNat <<< 8 ||| (BitVec.ofNat 8 n).toNat = n := by
  have hdiv : n >>> 8 = n / 256 := Nat.shiftRight_eq_div_pow n 8
  have hlow : n % 256 < 2 ^ 8 := Nat.mod_lt _ (by decide)
  have hhigh : n / 256 % 256 = n / 256 := Nat.mod_eq_of_lt (by omega)
  rw [BitVec.toNat_ofNat, BitVec.toNat_ofNat, hdiv]
  change (n / 256 % 256) <<< 8 ||| n % 256 = n
  rw [hhigh, ← Nat.shiftLeft_add_eq_or_of_lt hlow, Nat.shiftLeft_eq]
  omega

end NCam.Util
