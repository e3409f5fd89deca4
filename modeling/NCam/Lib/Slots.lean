import Mathlib.Algebra.Order.Ring.Int
import Mathlib.Data.List.Range

/-! Tables with a fixed number of slots: how many of them meet a condition, and the first that does. -/
namespace NCam.Lib.Slots

variable {σ : Type*} {p q : σ → Bool} {t t' : ℕ → σ} {n m i : ℕ} {x : σ}

/-- The number of the first `n` slots that meet `p`. -/
def count (p : σ → Bool) (t : ℕ → σ) : ℕ → ℕ
  | 0 => 0
  | n + 1 => count p t n + (p (t n)).toNat

/-- The first slot before `n` that meets `p`. -/
def firstWhere (p : σ → Bool) (t : ℕ → σ) (n : ℕ) : Option ℕ := (List.range n).find? fun i => p (t i)

theorem count_congr (h : ∀ i < n, p (t i) = q (t' i)) : count p t n = count q t' n := by
  induction n with
  | zero => rfl
  | succ n ih =>
    rw [count, count, ih fun i hi => h i (by omega), h n (Nat.lt_succ_self n)]

theorem count_mono (h : ∀ i < n, p (t i) = true → q (t' i) = true) : count p t n ≤ count q t' n := by
  induction n with
  | zero => exact Nat.le_refl 0
  | succ n ih =>
    have hle := ih fun i hi => h i (by omega)
    have hbit := h n (Nat.lt_succ_self n)
    rw [count, count]
    cases hp : p (t n) with
    | false => exact Nat.le_trans hle (Nat.le_add_right _ _)
    | true =>
      rw [hbit hp]
      exact Nat.add_le_add_right hle _

theorem count_eq_zero_iff : count p t n = 0 ↔ ∀ i < n, p (t i) = false := by
  induction n with
  | zero => exact iff_of_true rfl fun i hi => absurd hi (Nat.not_lt_zero i)
  | succ n ih =>
    rw [count, Nat.add_eq_zero_iff, ih, Bool.toNat_eq_zero]
    constructor
    · intro h i hi
      by_cases hin : i = n
      · exact hin ▸ h.2
      · exact h.1 i (by omega)
    · exact fun h => ⟨fun i hi => h i (by omega), h n (Nat.lt_succ_self n)⟩

theorem count_le_count (h : m ≤ n) : count p t m ≤ count p t n := by
  induction n with
  | zero => rw [Nat.le_zero.mp h]
  | succ n ih =>
    by_cases hm : m = n + 1
    · rw [hm]
    · exact Nat.le_trans (ih (by omega)) (Nat.le_add_right _ _)

theorem count_eq_self (h : ∀ i < n, p (t i) = true) : count p t n = n := by
  induction n with
  | zero => rfl
  | succ n ih => rw [count, ih fun i hi => h i (by omega), h n (Nat.lt_succ_self n), Bool.toNat_true]

/-- Slots that meet `p` only below `m` are at most `m`. -/
theorem count_le_of_false (h : ∀ i < n, m ≤ i → p (t i) = false) : count p t n ≤ m := by
  induction n with
  | zero => exact Nat.zero_le m
  | succ n ih =>
    rw [count]
    by_cases hm : m ≤ n
    · rw [h n (Nat.lt_succ_self n) hm]
      exact ih fun i hi => h i (by omega)
    · have hle : count p t n ≤ n := by
        refine (@count_mono _ p (fun _ => true) t t n fun _ _ _ => rfl).trans (Nat.le_of_eq ?_)
        exact count_eq_self fun _ _ => rfl
      have hbit := Bool.toNat_le (p (t n))
      omega

/-- Fewer slots than `m` in use leave one of the first `m` unused. -/
theorem exists_false (hm : m ≤ n) (h : count p t n < m) : ∃ i < m, p (t i) = false := by
  by_contra hno
  have hall : ∀ i < m, p (t i) = true := by
    intro i hi
    by_contra hp
    exact hno ⟨i, hi, Bool.eq_false_of_not_eq_true hp⟩
  have hcount := count_eq_self hall
  have hle := @count_le_count _ p t _ _ hm
  omega

/-- Writing one slot changes the count by that slot only. -/
theorem count_update (hi : i < n) :
    count p (Function.update t i x) n + (p (t i)).toNat = count p t n + (p x).toNat := by
  induction n with
  | zero => exact absurd hi (Nat.not_lt_zero i)
  | succ n ih =>
    rw [count, count]
    by_cases hin : i = n
    · subst hin
      rw [Function.update_self, count_congr fun j hj => by rw [Function.update_of_ne (Nat.ne_of_lt hj)]]
      omega
    · rw [Function.update_of_ne (Ne.symm hin)]
      have := ih (by omega)
      omega

theorem firstWhere_eq_some (h : firstWhere p t n = some i) :
    i < n ∧ p (t i) = true ∧ ∀ j < i, p (t j) = false := by
  obtain ⟨hp, k, hk, hget, hbefore⟩ := List.find?_eq_some_iff_getElem.mp h
  rw [List.length_range] at hk
  rw [List.getElem_range] at hget
  subst hget
  refine ⟨hk, hp, fun j hj => ?_⟩
  have hj' := hbefore j hj
  rwa [List.getElem_range, Bool.not_eq_true'] at hj'

theorem firstWhere_eq_none : firstWhere p t n = none ↔ ∀ i < n, p (t i) = false := by
  unfold firstWhere
  rw [List.find?_eq_none]
  constructor
  · exact fun h i hi => Bool.eq_false_of_not_eq_true (h i (List.mem_range.mpr hi))
  · intro h i hi
    rw [h i (List.mem_range.mp hi)]
    exact Bool.false_ne_true

/-- A search that goes through the slots in order stops at the first that has a result. -/
theorem findSome_range {β : Type*} {g : ℕ → Option β} {b : β} (h : (List.range n).findSome? g = some b) :
    ∃ i < n, g i = some b ∧ ∀ j < i, g j = none := by
  induction n with
  | zero => cases h
  | succ n ih =>
    rw [List.range_succ, List.findSome?_append, List.findSome?_singleton, Option.or_eq_some_iff] at h
    rcases h with h | ⟨hnone, hn⟩
    · obtain ⟨i, hi, hb, hbefore⟩ := ih h
      exact ⟨i, by omega, hb, hbefore⟩
    · refine ⟨n, Nat.lt_succ_self n, hn, fun j hj => ?_⟩
      exact List.findSome?_eq_none_iff.mp hnone j (List.mem_range.mpr hj)

theorem firstWhere_of_first (hi : i < n) (hp : p (t i) = true) (hbefore : ∀ j < i, p (t j) = false) :
    firstWhere p t n = some i := by
  refine List.find?_eq_some_iff_getElem.mpr ⟨hp, i, by rwa [List.length_range], List.getElem_range _, ?_⟩
  intro j hj
  rw [List.getElem_range, hbefore j hj]
  rfl

end NCam.Lib.Slots
