import Mathlib.Data.List.Basic

/-! Loops over a counter that wraps: when they end and what they compute, and a loop that picks the
entries of a list by such a counter. -/
namespace NCam.Lib.Counter

variable {σ : Type*}

/-- `for(; j < n; j += step) body` on a counter modulo `m`; `none` if the fuel does not last. -/
def countUp (m step n : ℕ) (body : ℕ → σ → σ) : ℕ → ℕ → σ → Option σ
  | 0, _, _ => none
  | fuel + 1, j, s => if j < n then countUp m step n body fuel ((j + step) % m) (body j s) else some s

variable {m step n : ℕ} {body : ℕ → σ → σ}

theorem countUp_of_lt {fuel j : ℕ} {s : σ} (h : j < n) :
    countUp m step n body (fuel + 1) j s = countUp m step n body fuel ((j + step) % m) (body j s) := by
  rw [countUp, if_pos h]

theorem countUp_of_le {fuel j : ℕ} {s : σ} (h : n ≤ j) :
    countUp m step n body (fuel + 1) j s = some s := by
  rw [countUp, if_neg (by omega)]

/-- A bound that the counter cannot reach is never passed. -/
theorem countUp_endless (hm : 0 < m) (hn : m ≤ n) (fuel : ℕ) {j : ℕ} (hj : j < m) (s : σ) :
    countUp m step n body fuel j s = none := by
  induction fuel generalizing j s with
  | zero => rfl
  | succ fuel ih =>
    rw [countUp_of_lt (by omega)]
    exact ih (Nat.mod_lt _ hm) _

/-- More fuel does not change a result. -/
theorem countUp_mono {fuel fuel' j : ℕ} {s r : σ} (h : countUp m step n body fuel j s = some r)
    (hle : fuel ≤ fuel') : countUp m step n body fuel' j s = some r := by
  induction fuel generalizing fuel' j s with
  | zero => cases h
  | succ fuel ih =>
    obtain ⟨fuel', rfl⟩ : ∃ f, fuel' = f + 1 := ⟨fuel' - 1, by omega⟩
    rcases Nat.lt_or_ge j n with hlt | hge
    · rw [countUp_of_lt hlt] at h ⊢
      exact ih h (by omega)
    · rw [countUp_of_le hge] at h ⊢
      exact h

private theorem countUp_from {k i fuel : ℕ} {s : σ} (hstep : 0 < step) (hk : step * (i + k) < m)
    (hfuel : k < fuel) :
    countUp m step (step * (i + k)) body fuel (step * i) s =
      some ((List.range k).foldl (fun s j => body (step * (i + j)) s) s) := by
  induction k generalizing i fuel s with
  | zero =>
    obtain ⟨fuel, rfl⟩ : ∃ f, fuel = f + 1 := ⟨fuel - 1, by omega⟩
    exact countUp_of_le (Nat.le_refl _)
  | succ k ih =>
    obtain ⟨fuel, rfl⟩ : ∃ f, fuel = f + 1 := ⟨fuel - 1, by omega⟩
    have hle : step * (i + 1) ≤ step * (i + (k + 1)) := Nat.mul_le_mul_left step (by omega)
    have hnext : (step * i + step) % m = step * (i + 1) :=
      Nat.mod_eq_of_lt (Nat.lt_of_le_of_lt hle hk)
    have hlt : step * i < step * (i + (k + 1)) := Nat.mul_lt_mul_of_pos_left (by omega) hstep
    have hshift : i + (k + 1) = i + 1 + k := by omega
    rw [countUp_of_lt hlt, hnext, hshift, ih (by rw [← hshift]; exact hk) (by omega),
      List.range_succ_eq_map, List.foldl_cons, List.foldl_map]
    congr 2
    funext s j
    congr 2
    omega

/-- Below the wrap the loop takes its steps in order. -/
theorem countUp_eq {k fuel : ℕ} {s : σ} (hstep : 0 < step) (hk : step * k < m) (hfuel : k < fuel) :
    countUp m step (step * k) body fuel 0 s =
      some ((List.range k).foldl (fun s j => body (step * j) s) s) := by
  have h := @countUp_from _ _ _ body _ 0 _ s hstep (by rwa [Nat.zero_add]) hfuel
  simpa using h

section Entries

variable {α : Type*} {f : σ → α → σ}

/-- A step that uses entry `j` of a list. -/
def atEntry (f : σ → α → σ) (xs : List α) (j : ℕ) (s : σ) : σ :=
  match xs[j]? with
  | some x => f s x
  | none => s

private theorem foldl_atEntry (xs : List α) (s : σ) :
    (List.range xs.length).foldl (fun s j => atEntry f xs j s) s = xs.foldl f s := by
  induction xs generalizing s with
  | nil => rfl
  | cons x xs ih =>
    rw [List.length_cons, List.range_succ_eq_map, List.foldl_cons, List.foldl_map, List.foldl_cons]
    exact ih (f s x)

/-- Below the wrap the loop over the indices of a list is the fold over the list. -/
theorem countUp_entries {xs : List α} {fuel : ℕ} {s : σ} (hm : xs.length < m)
    (hfuel : xs.length < fuel) :
    countUp m 1 xs.length (atEntry f xs) fuel 0 s = some (xs.foldl f s) := by
  have h := @countUp_eq _ m 1 (atEntry f xs) xs.length _ s Nat.one_pos (by omega) hfuel
  simp only [Nat.one_mul, foldl_atEntry] at h
  exact h

end Entries

end NCam.Lib.Counter
