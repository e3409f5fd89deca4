import Mathlib.Tactic.Ring
import Mathlib.Algebra.Order.Ring.Int

/-! Storing an integer in a signed word: when it is kept, and when the word is negative. -/
namespace NCam.Lib.Signed

variable {w : ℕ} {x : ℤ}

private theorem toInt_ofInt_cases (w : ℕ) (x : ℤ) :
    (BitVec.ofInt (w + 1) x).toInt =
      if x / 2 ^ w % 2 = 0 then x % 2 ^ w else x % 2 ^ w - 2 ^ w := by
  have hp : (0 : ℤ) < 2 ^ w := Int.pow_pos (by decide)
  have hlo := Int.emod_nonneg x hp.ne'
  have hhi := Int.emod_lt_of_pos x hp
  have hx : x = (x % 2 ^ w + 2 ^ w * (x / 2 ^ w % 2)) + 2 ^ w * 2 * (x / 2 ^ w / 2) := by
    calc x = x % 2 ^ w + 2 ^ w * (x / 2 ^ w) := (Int.emod_add_mul_ediv x _).symm
      _ = x % 2 ^ w + 2 ^ w * (x / 2 ^ w % 2 + 2 * (x / 2 ^ w / 2)) := by
        rw [Int.emod_add_mul_ediv (x / 2 ^ w) 2]
      _ = _ := by ring
  have hw : ((2 ^ (w + 1) : ℕ) : ℤ) = 2 ^ w * 2 := by push_cast; ring
  have hsplit : x % (2 ^ w * 2) = (x % 2 ^ w + 2 ^ w * (x / 2 ^ w % 2)) % (2 ^ w * 2) := by
    conv_lhs => rw [hx, Int.add_mul_emod_self_left]
  rw [BitVec.toInt_ofInt, Int.bmod_def, hw, hsplit]
  rcases Int.emod_two_eq (x / 2 ^ w) with hbit | hbit <;> rw [hbit]
  · rw [if_pos rfl, mul_zero, add_zero, Int.emod_eq_of_lt hlo (by omega), if_pos (by omega)]
  · rw [if_neg one_ne_zero, mul_one, Int.emod_eq_of_lt (by omega) (by omega), if_neg (by omega)]
    omega

/-- A word keeps the integers of its range. -/
theorem toInt_ofInt_eq_self_iff :
    (BitVec.ofInt (w + 1) x).toInt = x ↔ -2 ^ w ≤ x ∧ x < 2 ^ w := by
  constructor
  · intro h
    have hlo := BitVec.le_toInt (BitVec.ofInt (w + 1) x)
    have hhi := BitVec.toInt_lt (x := BitVec.ofInt (w + 1) x)
    rw [Nat.add_sub_cancel] at hlo hhi
    omega
  · rintro ⟨hlo, hhi⟩
    rw [BitVec.toInt_ofInt]
    apply Int.bmod_eq_of_le_mul_two <;> push_cast <;> omega

/-- A product is exact if and only if it is in the range. -/
theorem toInt_mul_eq_iff {a b : BitVec (w + 1)} : (a * b).toInt = a.toInt * b.toInt ↔
    -2 ^ w ≤ a.toInt * b.toInt ∧ a.toInt * b.toInt < 2 ^ w := by
  rw [BitVec.toInt_mul, ← BitVec.toInt_ofInt]
  exact toInt_ofInt_eq_self_iff

/-- The sign of a word alternates between the periods of half its range. -/
theorem toInt_ofInt_neg_iff : (BitVec.ofInt (w + 1) x).toInt < 0 ↔ x / 2 ^ w % 2 = 1 := by
  have hp : (0 : ℤ) < 2 ^ w := Int.pow_pos (by decide)
  have hlo := Int.emod_nonneg x hp.ne'
  have hhi := Int.emod_lt_of_pos x hp
  rw [toInt_ofInt_cases]
  rcases Int.emod_two_eq (x / 2 ^ w) with hbit | hbit <;> rw [hbit]
  · rw [if_pos rfl]
    omega
  · rw [if_neg one_ne_zero]
    omega

end NCam.Lib.Signed
