import Mathlib.Data.List.Basic

/-! Words as sets of places in a list: a bit is set for every item that is chosen. -/
namespace NCam.Lib

/-- The bits of the items that satisfy `p`, the first one at place `i`, joined to `x`. -/
def orBits {α : Type*} {w : ℕ} (bit : ℕ → BitVec w) (p : α → Bool) : ℕ → List α → BitVec w → BitVec w
  | _, [], x => x
  | i, a :: as, x => orBits bit p (i + 1) as (if p a then x ||| bit i else x)

/-- Each of the places has a bit that no other one has. -/
def Separate {w : ℕ} (bit : ℕ → BitVec w) (n : ℕ) : Prop :=
  ∀ i < n, bit i ≠ 0 ∧ ∀ j < n, i ≠ j → bit i &&& bit j = 0

variable {α : Type*} {w n i k : ℕ} {bit : ℕ → BitVec w} {p : α → Bool} {a : α} {as : List α} {x : BitVec w}

private theorem twoPow_ne_zero (hk : k < w) : BitVec.twoPow w k ≠ 0 := by
  intro hzero
  have hset : (BitVec.twoPow w k).getLsbD k = (0 : BitVec w).getLsbD k := by rw [hzero]
  simp [hk] at hset

theorem and_twoPow_ne_zero (hk : k < w) : x &&& BitVec.twoPow w k ≠ 0 ↔ x.getLsbD k = true := by
  rw [BitVec.and_twoPow]
  by_cases hx : x.getLsbD k = true
  · rw [if_pos hx]
    exact iff_of_true (twoPow_ne_zero hk) hx
  · rw [if_neg hx]
    exact iff_of_false (fun hne => hne rfl) hx

private theorem getLsbD_or_bit (hbit : bit i = BitVec.twoPow w i) (hk : k < w) :
    (if p a then x ||| bit i else x).getLsbD k = (x.getLsbD k || (p a && decide (i = k))) := by
  cases p a with
  | false => simp
  | true =>
    rw [if_pos rfl, hbit, BitVec.getLsbD_or, BitVec.getLsbD_twoPow]
    by_cases hik : i = k
    · simp [hik, hk]
    · simp [hik]

/-- Where each place has its own bit, the bit of an item tells whether it was chosen. -/
theorem getLsbD_orBits (hbit : ∀ j < i + as.length, bit j = BitVec.twoPow w j) (hk : k < w) :
    (orBits bit p i as x).getLsbD k = true ↔
      x.getLsbD k = true ∨ ∃ a, i ≤ k ∧ as[k - i]? = some a ∧ p a = true := by
  induction as generalizing i x with
  | nil =>
    change x.getLsbD k = true ↔ _
    simp
  | cons a as ih =>
    have hlen : i + (a :: as).length = i + 1 + as.length := by
      rw [List.length_cons]
      omega
    unfold orBits
    rw [ih (hlen ▸ hbit), getLsbD_or_bit (hbit i (by omega)) hk, Bool.or_eq_true, Bool.and_eq_true,
      decide_eq_true_eq, or_assoc]
    apply or_congr_right
    constructor
    · rintro (⟨hp, rfl⟩ | ⟨b, hle, hb, hp⟩)
      · rw [Nat.sub_self]
        exact ⟨a, Nat.le_refl i, rfl, hp⟩
      · have hsub : k - i = k - (i + 1) + 1 := by omega
        rw [hsub, List.getElem?_cons_succ]
        exact ⟨b, by omega, hb, hp⟩
    · rintro ⟨b, hle, hb, hp⟩
      rcases Nat.eq_or_lt_of_le hle with rfl | hlt
      · rw [Nat.sub_self, List.getElem?_cons_zero] at hb
        rw [Option.some.inj hb]
        exact Or.inl ⟨hp, rfl⟩
      · have hsub : k - i = k - (i + 1) + 1 := by omega
        rw [hsub, List.getElem?_cons_succ] at hb
        exact Or.inr ⟨b, hlt, hb, hp⟩

/-- Several choices joined one after another. -/
theorem getLsbD_foldl_orBits {β : Type*} {q : β → α → Bool} {bs : List β}
    (hbit : ∀ j < as.length, bit j = BitVec.twoPow w j) (hk : k < w) :
    (bs.foldl (fun x b => orBits bit (q b) 0 as x) x).getLsbD k = true ↔
      x.getLsbD k = true ∨ ∃ a, as[k]? = some a ∧ ∃ b ∈ bs, q b a = true := by
  induction bs generalizing x with
  | nil => simp
  | cons b bs ih =>
    have hone : (orBits bit (q b) 0 as x).getLsbD k = true ↔
        x.getLsbD k = true ∨ ∃ a, as[k]? = some a ∧ q b a = true := by
      rw [getLsbD_orBits (by rw [Nat.zero_add]; exact hbit) hk, Nat.sub_zero]
      simp
    rw [List.foldl_cons, ih, hone, or_assoc]
    simp only [List.exists_mem_cons_iff, and_or_left, exists_or]

/-- A word has no more separate bits than places, whatever stands for the places beyond it. -/
theorem separate_iff (hbit : ∀ j < w, bit j = BitVec.twoPow w j) : Separate bit n ↔ n ≤ w := by
  constructor
  · intro hsep
    by_contra hlt
    obtain ⟨hne, hother⟩ := hsep w (by omega)
    apply hne
    apply BitVec.eq_of_getLsbD_eq
    intro k hk
    have hzero := hother k (by omega) (by omega)
    rw [hbit k hk] at hzero
    have hclear : ¬ (bit w).getLsbD k = true := fun hset => (and_twoPow_ne_zero hk).mpr hset hzero
    simpa using hclear
  · intro hle i hi
    rw [hbit i (by omega)]
    refine ⟨twoPow_ne_zero (by omega), fun j hj hij => ?_⟩
    rw [hbit j (by omega), BitVec.and_twoPow, BitVec.getLsbD_twoPow]
    simp [hij]

end NCam.Lib
