import Mathlib.Algebra.Order.Ring.Int
import Mathlib.Data.List.Basic

/-! The maximal runs of a predicate on the numbers below a bound, found in one pass. -/
namespace NCam.Lib

/-- The runs that end before `n`, and the start of the one that has not ended. -/
def runsBelow (b : ℕ → Bool) : ℕ → List (ℕ × ℕ) × Option ℕ
  | 0 => ([], none)
  | n + 1 =>
    let (closed, start) := runsBelow b n
    if b n then (closed, some (start.getD n))
    else (closed ++ start.toList.map fun s => (s, n), none)

/-- All runs below `n`, with the bounds of each as start and end. -/
def maximalRuns (b : ℕ → Bool) (n : ℕ) : List (ℕ × ℕ) :=
  (runsBelow b n).1 ++ (runsBelow b n).2.toList.map fun s => (s, n)

/-- The numbers at which a run starts. -/
def runStarts (b : ℕ → Bool) (n : ℕ) : ℕ := (List.range n).countP fun t => b t && (t = 0 || !b (t - 1))

/-- `b` holds from the start to the end, and neither before nor behind. -/
structure MaximalRun (b : ℕ → Bool) (n : ℕ) (r : ℕ × ℕ) : Prop where
  lt : r.1 < r.2
  le : r.2 ≤ n
  holds : ∀ t, r.1 ≤ t → t < r.2 → b t = true
  before : ∀ t, t + 1 = r.1 → b t = false
  behind : r.2 < n → b r.2 = false

section Runs

variable {b : ℕ → Bool} {n s t : ℕ} {r : ℕ × ℕ}

theorem runsBelow_of_true (h : b n = true) :
    runsBelow b (n + 1) = ((runsBelow b n).1, some ((runsBelow b n).2.getD n)) := by
  change (if b n then _ else _) = _
  rw [if_pos h]

theorem runsBelow_of_false (h : b n = false) :
    runsBelow b (n + 1) = ((runsBelow b n).1 ++ (runsBelow b n).2.toList.map fun s => (s, n), none) := by
  change (if b n then _ else _) = _
  rw [if_neg (by rw [h]; exact Bool.false_ne_true)]

theorem maximalRuns_of_true (h : b n = true) :
    maximalRuns b (n + 1) = (runsBelow b n).1 ++ [((runsBelow b n).2.getD n, n + 1)] := by
  unfold maximalRuns
  rw [runsBelow_of_true h]
  rfl

/-- The start of a run that goes on. -/
theorem mem_start_iff : (runsBelow b n).2 = some s ↔
    s < n ∧ (∀ t, s ≤ t → t < n → b t = true) ∧ ∀ t, t + 1 = s → b t = false := by
  induction n generalizing s with
  | zero =>
    constructor
    · intro h
      cases h
    · rintro ⟨h, -⟩
      exact absurd h (Nat.not_lt_zero s)
  | succ n ih =>
    cases hn : b n with
    | false =>
      rw [runsBelow_of_false hn]
      constructor
      · intro h
        cases h
      · rintro ⟨hlt, hall, -⟩
        have htrue := hall n (Nat.le_of_lt_succ hlt) (Nat.lt_succ_self n)
        rw [hn] at htrue
        cases htrue
    | true =>
      rw [runsBelow_of_true hn, Option.some.injEq]
      have hgrow : ∀ s, (∀ t, s ≤ t → t < n → b t = true) → ∀ t, s ≤ t → t < n + 1 → b t = true := by
        intro s hall t hst htn
        by_cases htop : t = n
        · rw [htop, hn]
        · exact hall t hst (by omega)
      cases hstart : (runsBelow b n).2 with
      | some s' =>
        obtain ⟨hlt, hall, hleft⟩ := ih.mp hstart
        change s' = s ↔ _
        constructor
        · rintro rfl
          exact ⟨by omega, hgrow s' hall, hleft⟩
        · rintro ⟨hs, halls, hlefts⟩
          rcases Nat.lt_trichotomy s' s with h | h | h
          · have hbefore := hlefts (s - 1) (by omega)
            rw [hall (s - 1) (by omega) (by omega)] at hbefore
            cases hbefore
          · exact h
          · have hbefore := hleft (s' - 1) (by omega)
            rw [halls (s' - 1) (by omega) (by omega)] at hbefore
            cases hbefore
      | none =>
        change n = s ↔ _
        constructor
        · rintro rfl
          refine ⟨Nat.lt_succ_self n, fun t hle hlt => ?_, fun t ht => ?_⟩
          · have htop : t = n := by omega
            rw [htop, hn]
          · -- a run that reaches `t` would have been found
            cases hbt : b t with
            | false => rfl
            | true =>
              subst ht
              rw [runsBelow_of_true hbt] at hstart
              cases hstart
        · rintro ⟨hs, halls, hlefts⟩
          by_contra hne
          have hfound := ih.mpr ⟨by omega, fun t hst htn => halls t hst (by omega), hlefts⟩
          rw [hstart] at hfound
          cases hfound

/-- The runs that have ended. -/
theorem mem_closed_iff : r ∈ (runsBelow b n).1 ↔ MaximalRun b n r ∧ r.2 < n := by
  induction n with
  | zero =>
    constructor
    · intro h
      exact absurd h List.not_mem_nil
    · rintro ⟨-, h⟩
      exact absurd h (Nat.not_lt_zero r.2)
  | succ n ih =>
    have hold : MaximalRun b n r ∧ r.2 < n ↔ MaximalRun b (n + 1) r ∧ r.2 < n := by
      constructor
      · rintro ⟨h, hlt⟩
        exact ⟨⟨h.lt, by omega, h.holds, h.before, fun _ => h.behind hlt⟩, hlt⟩
      · rintro ⟨h, hlt⟩
        exact ⟨⟨h.lt, by omega, h.holds, h.before, fun _ => h.behind (by omega)⟩, hlt⟩
    cases hn : b n with
    | true =>
      rw [runsBelow_of_true hn, ih, hold]
      refine and_congr_right fun h => ⟨fun hlt => by omega, fun hlt => ?_⟩
      by_contra hge
      have htop : r.2 = n := by omega
      have hbehind := h.behind hlt
      rw [htop, hn] at hbehind
      cases hbehind
    | false =>
      rw [runsBelow_of_false hn, List.mem_append, ih, hold, List.mem_map]
      constructor
      · rintro (⟨h, hlt⟩ | ⟨s, hs, rfl⟩)
        · exact ⟨h, by omega⟩
        · rw [Option.mem_toList] at hs
          obtain ⟨hlt, hall, hleft⟩ := mem_start_iff.mp hs
          exact ⟨⟨hlt, Nat.le_succ n, hall, hleft, fun _ => hn⟩, Nat.lt_succ_self n⟩
      · rintro ⟨h, hlt⟩
        by_cases htop : r.2 = n
        · right
          refine ⟨r.1, ?_, by rw [← htop]⟩
          rw [Option.mem_toList]
          exact mem_start_iff.mpr ⟨htop ▸ h.lt, fun t hle hlt => h.holds t hle (htop ▸ hlt), h.before⟩
        · left
          exact ⟨h, by omega⟩

theorem mem_maximalRuns : r ∈ maximalRuns b n ↔ MaximalRun b n r := by
  unfold maximalRuns
  rw [List.mem_append, mem_closed_iff, List.mem_map]
  constructor
  · rintro (⟨h, -⟩ | ⟨s, hs, rfl⟩)
    · exact h
    · rw [Option.mem_toList] at hs
      obtain ⟨hlt, hall, hleft⟩ := mem_start_iff.mp hs
      exact ⟨hlt, Nat.le_refl n, hall, hleft, fun h => absurd h (Nat.lt_irrefl n)⟩
  · intro h
    by_cases htop : r.2 = n
    · right
      refine ⟨r.1, ?_, by rw [← htop]⟩
      rw [Option.mem_toList]
      exact mem_start_iff.mpr ⟨htop ▸ h.lt, fun t hle hlt => h.holds t hle (htop ▸ hlt), h.before⟩
    · left
      have hle := h.le
      exact ⟨h, by omega⟩

/-- Every number at which `b` holds is in a run. -/
theorem covered_iff (ht : t < n) : b t = true ↔ ∃ r ∈ maximalRuns b n, r.1 ≤ t ∧ t < r.2 := by
  constructor
  · intro hbt
    induction n with
    | zero => exact absurd ht (Nat.not_lt_zero t)
    | succ n ih =>
      have hback : (∃ r ∈ maximalRuns b n, r.1 ≤ t ∧ t < r.2) →
          ∃ r ∈ maximalRuns b (n + 1), r.1 ≤ t ∧ t < r.2 := by
        rintro ⟨r, hr, hin⟩
        unfold maximalRuns at hr ⊢
        cases hn : b n with
        | false =>
          rw [runsBelow_of_false hn]
          exact ⟨r, List.mem_append_left _ hr, hin⟩
        | true =>
          rw [runsBelow_of_true hn]
          rcases List.mem_append.mp hr with hr | hr
          · exact ⟨r, List.mem_append_left _ hr, hin⟩
          · obtain ⟨s, hs, rfl⟩ := List.mem_map.mp hr
            rw [Option.mem_toList] at hs
            refine ⟨(s, n + 1), List.mem_append_right _ ?_, hin.1, Nat.lt_succ_of_lt hin.2⟩
            rw [Option.mem_def.mp hs]
            exact List.mem_singleton.mpr rfl
      by_cases htop : t = n
      · subst htop
        unfold maximalRuns
        rw [runsBelow_of_true hbt]
        refine ⟨((runsBelow b t).2.getD t, t + 1), List.mem_append_right _ (List.mem_singleton.mpr rfl), ?_,
          Nat.lt_succ_self t⟩
        cases hstart : (runsBelow b t).2 with
        | none => exact Nat.le_refl t
        | some s => exact Nat.le_of_lt (mem_start_iff.mp hstart).1
      · exact hback (ih (by omega))
  · rintro ⟨r, hr, hle, hlt⟩
    exact (mem_maximalRuns.mp hr).holds t hle hlt

/-- The runs are found from the first to the last, with a gap between two of them. -/
theorem pairwise_maximalRuns : (maximalRuns b n).Pairwise fun r r' => r.2 < r'.1 := by
  have hclosed : ∀ m, (runsBelow b m).1.Pairwise (fun r r' => r.2 < r'.1) ∧
      ∀ r ∈ (runsBelow b m).1, ∀ s, (runsBelow b m).2 = some s → r.2 < s := by
    intro m
    induction m with
    | zero => exact ⟨List.Pairwise.nil, fun r hr => absurd hr List.not_mem_nil⟩
    | succ m ih =>
      cases hm : b m with
      | true =>
        rw [runsBelow_of_true hm]
        refine ⟨ih.1, fun r hr s hs => ?_⟩
        rw [Option.some.injEq] at hs
        cases hstart : (runsBelow b m).2 with
        | none =>
          rw [hstart] at hs
          exact hs ▸ (mem_closed_iff.mp hr).2
        | some s' =>
          rw [hstart] at hs
          exact hs ▸ ih.2 r hr s' hstart
      | false =>
        rw [runsBelow_of_false hm]
        refine ⟨?_, fun r _ s hs => by cases hs⟩
        rw [List.pairwise_append]
        refine ⟨ih.1, ?_, fun r hr r' hr' => ?_⟩
        · cases (runsBelow b m).2 with
          | none => exact List.Pairwise.nil
          | some s => exact List.pairwise_singleton _ _
        · obtain ⟨s, hs, rfl⟩ := List.mem_map.mp hr'
          rw [Option.mem_toList] at hs
          exact ih.2 r hr s hs
  unfold maximalRuns
  rw [List.pairwise_append]
  refine ⟨(hclosed n).1, ?_, fun r hr r' hr' => ?_⟩
  · cases (runsBelow b n).2 with
    | none => exact List.Pairwise.nil
    | some s => exact List.pairwise_singleton _ _
  · obtain ⟨s, hs, rfl⟩ := List.mem_map.mp hr'
    rw [Option.mem_toList] at hs
    exact (hclosed n).2 r hr s hs

theorem length_maximalRuns : (maximalRuns b n).length = runStarts b n := by
  have hlast : ∀ m, (runsBelow b m).2 = none ↔ m = 0 ∨ b (m - 1) = false := by
    intro m
    cases m with
    | zero => exact ⟨fun _ => Or.inl rfl, fun _ => rfl⟩
    | succ m =>
      cases hm : b m with
      | true =>
        rw [runsBelow_of_true hm]
        simp [hm]
      | false =>
        rw [runsBelow_of_false hm]
        simp [hm]
  unfold maximalRuns runStarts
  rw [List.length_append, List.length_map]
  induction n with
  | zero => rfl
  | succ n ih =>
    rw [List.range_succ, List.countP_append, ← ih, List.countP_singleton]
    cases hn : b n with
    | false =>
      rw [runsBelow_of_false hn, List.length_append, List.length_map]
      rfl
    | true =>
      rw [runsBelow_of_true hn]
      cases hstart : (runsBelow b n).2 with
      | none =>
        have hprev := (hlast n).mp hstart
        have hcond : (true && (decide (n = 0) || !b (n - 1))) = true := by
          rcases hprev with h | h
          · simp [h]
          · simp [h]
        rw [if_pos hcond]
        rfl
      | some s =>
        have hcond : ¬ (true && (decide (n = 0) || !b (n - 1))) = true := by
          intro h
          have hnone : (runsBelow b n).2 = none := by
            rw [hlast]
            simpa using h
          rw [hstart] at hnone
          cases hnone
        rw [if_neg hcond]
        rfl

/-- There is a run if `b` holds somewhere. -/
theorem maximalRuns_eq_nil_iff : maximalRuns b n = [] ↔ ∀ t < n, b t = false := by
  constructor
  · intro h t ht
    by_contra hne
    obtain ⟨r, hr, -⟩ := (covered_iff ht).mp (Bool.eq_true_of_not_eq_false hne)
    rw [h] at hr
    exact absurd hr List.not_mem_nil
  · intro h
    rw [List.eq_nil_iff_forall_not_mem]
    intro r hr
    have hrun := mem_maximalRuns.mp hr
    have htrue := hrun.holds r.1 (Nat.le_refl r.1) hrun.lt
    rw [h r.1 (Nat.lt_of_lt_of_le hrun.lt hrun.le)] at htrue
    cases htrue

end Runs

end NCam.Lib
