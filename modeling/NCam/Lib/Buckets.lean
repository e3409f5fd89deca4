import Mathlib.Data.List.Perm.Basic

/-! Sorting by a key with one pass for each key: the elements with key 0, then those with key 1 and so
on, each in the order in which they stood. -/
namespace NCam.Lib.Buckets

variable {α : Type*} (key : α → ℕ) (l : List α)

/-- The elements with a key below `n`. -/
def below (n : ℕ) : List α := (List.range n).flatMap fun k => l.filter fun a => key a = k

variable {key l} {n m : ℕ}

@[simp] theorem below_zero : below key l 0 = [] := rfl

theorem below_succ : below key l (n + 1) = below key l n ++ l.filter fun a => key a = n := by
  rw [below, below, List.range_succ, List.flatMap_append, List.flatMap_singleton]

/-- Passes for keys that no element has add nothing. -/
theorem below_gap (hm : n ≤ m) (h : ∀ a ∈ l, key a < n ∨ m ≤ key a) :
    below key l m = below key l n := by
  induction m with
  | zero => rw [Nat.le_zero.mp hm]
  | succ m ih =>
    rcases Nat.eq_or_lt_of_le hm with rfl | hlt
    · rfl
    · have hnone : l.filter (fun a => key a = m) = [] := by
        rw [List.filter_eq_nil_iff]
        intro a ha
        have := h a ha
        rw [decide_eq_true_eq]
        omega
      rw [below_succ, hnone, List.append_nil, ih (by omega) fun a ha => ?_]
      have := h a ha
      omega

theorem mem_below {a : α} : a ∈ below key l n ↔ a ∈ l ∧ key a < n := by
  unfold below
  simp only [List.mem_flatMap, List.mem_range, List.mem_filter, decide_eq_true_eq]
  constructor
  · rintro ⟨k, hk, ha, rfl⟩
    exact ⟨ha, hk⟩
  · rintro ⟨ha, hk⟩
    exact ⟨key a, hk, ha, rfl⟩

theorem below_perm : (below key l n).Perm (l.filter fun a => key a < n) := by
  induction n with
  | zero => simp
  | succ n ih =>
    have hlow : (l.filter fun a => key a < n + 1).filter (fun a => key a < n) =
        l.filter fun a => key a < n := by
      rw [List.filter_filter]
      apply List.filter_congr
      intro a _
      rw [← Bool.decide_and, decide_eq_decide]
      omega
    have hnew : (l.filter fun a => key a < n + 1).filter (fun a => !decide (key a < n)) =
        l.filter fun a => key a = n := by
      rw [List.filter_filter]
      apply List.filter_congr
      intro a _
      rw [← decide_not, ← Bool.decide_and, decide_eq_decide]
      omega
    have hsplit := List.filter_append_perm (fun a => decide (key a < n))
      (l.filter fun a => key a < n + 1)
    rw [hlow, hnew] at hsplit
    rw [below_succ]
    exact (ih.append_right _).trans hsplit

/-- Once every key has had its pass, all elements are there. -/
theorem below_perm_self (h : ∀ a ∈ l, key a < n) : (below key l n).Perm l := by
  have hall : l.filter (fun a => key a < n) = l :=
    List.filter_eq_self.mpr fun a ha => decide_eq_true (h a ha)
  have hperm : (below key l n).Perm (l.filter fun a => key a < n) := below_perm
  rwa [hall] at hperm

theorem below_sorted : (below key l n).Pairwise fun a b => key a ≤ key b := by
  induction n with
  | zero => exact List.Pairwise.nil
  | succ n ih =>
    rw [below_succ, List.pairwise_append]
    refine ⟨ih, ?_, fun a ha b hb => ?_⟩
    · rw [List.pairwise_filter]
      refine List.pairwise_of_forall fun a b ha hb => ?_
      rw [decide_eq_true_eq] at ha hb
      omega
    · have hlow := (mem_below.mp ha).2
      have hb := (List.mem_filter.mp hb).2
      rw [decide_eq_true_eq] at hb
      omega

/-- Elements of one key stay in their order. -/
theorem filter_below {k : ℕ} (hk : k < n) :
    (below key l n).filter (fun a => key a = k) = l.filter fun a => key a = k := by
  induction n with
  | zero => exact absurd hk (Nat.not_lt_zero k)
  | succ n ih =>
    rw [below_succ, List.filter_append, List.filter_filter]
    rcases Nat.lt_succ_iff_lt_or_eq.mp hk with hlt | rfl
    · have hnone : l.filter (fun a => decide (key a = k) && decide (key a = n)) = [] := by
        rw [List.filter_eq_nil_iff]
        intro a _
        rw [← Bool.decide_and, decide_eq_true_eq]
        omega
      rw [hnone, List.append_nil, ih hlt]
    · have hnone : (below key l k).filter (fun a => key a = k) = [] := by
        rw [List.filter_eq_nil_iff]
        intro a ha
        have := (mem_below.mp ha).2
        rw [decide_eq_true_eq]
        omega
      simp only [hnone, Bool.and_self, List.nil_append]

/-- Related lists with the same keys are sorted in the same way. -/
theorem below_forall₂ {β : Type*} {R : α → β → Prop} {key' : β → ℕ} {l' : List β}
    (h : List.Forall₂ R l l') (hkey : ∀ a b, R a b → key a = key' b) :
    List.Forall₂ R (below key l n) (below key' l' n) := by
  have hfilter : ∀ k, List.Forall₂ R (l.filter fun a => key a = k) (l'.filter fun b => key' b = k) := by
    intro k
    induction h with
    | nil => exact List.Forall₂.nil
    | @cons a b l l' hab _ ih =>
      by_cases hk : key a = k
      · rw [List.filter_cons_of_pos (by simpa using hk),
          List.filter_cons_of_pos (by simpa [← hkey a b hab] using hk)]
        exact List.Forall₂.cons hab ih
      · rw [List.filter_cons_of_neg (by simpa using hk),
          List.filter_cons_of_neg (by simpa [← hkey a b hab] using hk)]
        exact ih
  induction n with
  | zero => exact List.Forall₂.nil
  | succ n ih =>
    rw [below_succ, below_succ]
    exact List.rel_append ih (hfilter n)

end NCam.Lib.Buckets
