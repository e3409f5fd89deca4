import Mathlib.Data.List.Nodup

/-! Transition systems given by a partial next-state function, the states their guarded runs reach, and the
invariant rule. Runs of a machine, what holds before all or before some of their steps, and runs beside the same
runs of an abstract machine. Lists with at most one entry for each key, as the far end of a stream of additions and
removals keeps them. -/
namespace NCam.Lib

/-- `next s a = none` when the action `a` is not enabled in `s`. -/
structure System (σ α : Type*) where
  init : σ → Prop
  next : σ → α → Option σ

namespace System

variable {σ α : Type*} (S : System σ α)

/-- The states reached by runs all of whose steps meet `guard` in the state they start in. -/
inductive Reachable (guard : σ → α → Prop) : σ → Prop
  | init {s : σ} (h : S.init s) : Reachable guard s
  | step {s t : σ} {a : α} (hs : Reachable guard s) (hg : guard s a) (ht : S.next s a = some t) :
      Reachable guard t

/-- The guard that every step meets. -/
def free : σ → α → Prop := fun _ _ => True

variable {S} {G : σ → α → Prop}

/-- What holds initially and is kept by every guarded step holds in every state reached. -/
theorem Reachable.invariant {I : σ → Prop} (hinit : ∀ s, S.init s → I s)
    (hstep : ∀ s a t, I s → G s a → S.next s a = some t → I t) {s : σ}
    (h : S.Reachable G s) : I s := by
  induction h with
  | init h => exact hinit _ h
  | step _ hg ht ih => exact hstep _ _ _ ih hg ht

theorem Reachable.mono {G' : σ → α → Prop} (hmono : ∀ s a, G s a → G' s a) {s : σ}
    (h : S.Reachable G s) : S.Reachable G' s := by
  induction h with
  | init h => exact .init h
  | step _ hg ht ih => exact .step ih (hmono _ _ hg) ht

variable (S)

/-- Runs a list of actions, checking the guard before each of them. -/
def exec (guard : σ → α → Prop) [∀ s a, Decidable (guard s a)] : σ → List α → Option σ
  | s, [] => some s
  | s, a :: as => if guard s a then (S.next s a).bind fun t => exec guard t as else none

variable {S}

/-- What every guarded step keeps is kept by an execution. -/
theorem invariant_of_exec [∀ s a, Decidable (G s a)] {I : σ → Prop}
    (hstep : ∀ s a t, I s → G s a → S.next s a = some t → I t) {s t : σ} {as : List α}
    (hs : I s) (h : S.exec G s as = some t) : I t := by
  induction as generalizing s with
  | nil =>
    have : s = t := Option.some.inj h
    exact this ▸ hs
  | cons a as ih =>
    simp only [System.exec] at h
    split_ifs at h with hg
    obtain ⟨u, hu, hrest⟩ := Option.bind_eq_some_iff.mp h
    exact ih (hstep s a u hs hg hu) hrest

theorem Reachable.exec [∀ s a, Decidable (G s a)] {s t : σ} {as : List α}
    (hs : S.Reachable G s) (h : S.exec G s as = some t) : S.Reachable G t :=
  invariant_of_exec (fun _ _ _ hs hg ht => .step hs hg ht) hs h

/-- A run found by execution, with a decidable property of its last state. -/
theorem exists_reachable_of_exec [∀ s a, Decidable (G s a)] {s : σ} (hs : S.init s)
    (as : List α) (p : σ → Bool) (h : (S.exec G s as).map p = some true) :
    ∃ t, S.Reachable G t ∧ p t = true := by
  obtain ⟨t, ht, hp⟩ := Option.map_eq_some_iff.mp h
  exact ⟨t, (Reachable.init hs).exec ht, hp⟩

/-- Where some guarded step always lowers a measure until `done` holds, some run reaches `done`. -/
theorem exists_exec_of_measure [∀ s a, Decidable (G s a)] (I done : σ → Prop) (μ : σ → ℕ)
    (hstep : ∀ s, I s → ¬ done s → ∃ a t, G s a ∧ S.next s a = some t ∧ I t ∧ μ t < μ s) {s : σ}
    (hs : I s) : ∃ as t, S.exec G s as = some t ∧ I t ∧ done t := by
  induction hn : μ s using Nat.strongRecOn generalizing s with
  | _ n ih =>
    by_cases hdone : done s
    · exact ⟨[], s, rfl, hs, hdone⟩
    · obtain ⟨a, t, hg, ht, hI, hlt⟩ := hstep s hs hdone
      obtain ⟨as, u, hu, hIu, hdoneu⟩ := ih (μ t) (hn ▸ hlt) hI rfl
      refine ⟨a :: as, u, ?_, hIu, hdoneu⟩
      rw [System.exec, if_pos hg, ht]
      exact hu

instance : ∀ (s : σ) (a : α), Decidable (free s a) := fun _ _ => inferInstanceAs (Decidable True)

end System

end NCam.Lib

namespace NCam.Lib.Shadow

variable {σ τ α : Type*} (step : σ → α → σ) (spec : τ → α → τ)

/-- `right` holds before every step of the two runs. -/
def AlwaysBeside (right : σ → τ → α → Prop) : σ → τ → List α → Prop
  | _, _, [] => True
  | s, t, a :: as => right s t a ∧ AlwaysBeside right (step s a) (spec t a) as

/-- `clear` holds before every step of the run. -/
def Always (clear : σ → α → Prop) : σ → List α → Prop
  | _, [] => True
  | s, a :: as => clear s a ∧ Always clear (step s a) as

/-- `hit` holds before some step of the run. -/
def Ever (hit : σ → α → Prop) : σ → List α → Prop
  | _, [] => False
  | s, a :: as => hit s a ∨ Ever hit (step s a) as

variable {step spec} {right : σ → τ → α → Prop} {clear : σ → α → Prop} {R : σ → τ → Prop}

/-- Where `right` means `clear` in related states, and clear steps keep states related, the runs that are
always right are those that are always clear. -/
theorem alwaysBeside_iff (hright : ∀ s t a, R s t → (right s t a ↔ clear s a))
    (hstep : ∀ s t a, R s t → clear s a → R (step s a) (spec t a)) {s : σ} {t : τ} (h : R s t)
    (as : List α) : AlwaysBeside step spec right s t as ↔ Always step clear s as := by
  induction as generalizing s t with
  | nil => exact Iff.rfl
  | cons a as ih =>
    unfold AlwaysBeside Always
    rw [hright s t a h]
    apply and_congr_right
    intro hclear
    exact ih (hstep s t a h hclear)

variable {hit : σ → α → Prop} {P : σ → Prop} {s : σ} {as : List α}

theorem Ever.exists (h : Ever step hit s as) : ∃ t, ∃ a ∈ as, hit t a := by
  induction as generalizing s with
  | nil => exact h.elim
  | cons a as ih =>
    obtain hnow | hlater := h
    · exact ⟨s, a, List.mem_cons_self, hnow⟩
    · obtain ⟨t, b, hb, hhit⟩ := ih hlater
      exact ⟨t, b, List.mem_cons_of_mem a hb, hhit⟩

theorem Ever.mono {hit' : σ → α → Prop} (hmono : ∀ s, ∀ a ∈ as, hit s a → hit' s a)
    (h : Ever step hit s as) : Ever step hit' s as := by
  induction as generalizing s with
  | nil => exact h
  | cons a as ih =>
    exact h.imp (hmono s a List.mem_cons_self)
      (ih fun t b hb => hmono t b (List.mem_cons_of_mem a hb))

/-- What holds before no step fails before all of them. -/
theorem not_ever_iff : ¬ Ever step hit s as ↔ Always step (fun s a => ¬ hit s a) s as := by
  induction as generalizing s with
  | nil => exact iff_of_true not_false trivial
  | cons a as ih =>
    unfold Ever Always
    rw [not_or, ih]

/-- What a step only adds holds after a run if it held before or was added. -/
theorem run_iff_ever (h : ∀ s a, P (step s a) ↔ P s ∨ hit s a) (s : σ) (as : List α) :
    P (as.foldl step s) ↔ P s ∨ Ever step hit s as := by
  induction as generalizing s with
  | nil => exact (or_iff_left id).symm
  | cons a as ih =>
    rw [List.foldl_cons, ih, h, or_assoc]
    exact Iff.rfl

/-- What a step only takes away holds after a run if it held before and no step took it away. -/
theorem run_iff_always (h : ∀ s a, P (step s a) ↔ P s ∧ clear s a) (s : σ) (as : List α) :
    P (as.foldl step s) ↔ P s ∧ Always step clear s as := by
  induction as generalizing s with
  | nil => exact (and_iff_left trivial).symm
  | cons a as ih =>
    rw [List.foldl_cons, ih, h, and_assoc]
    exact Iff.rfl

/-- A step that may fail does not on a run whose steps are all clear. -/
theorem foldlM_eq {f : σ → α → Option σ} (hstep : ∀ s a, step s a = (f s a).getD s)
    (hclear : ∀ s a, clear s a ↔ f s a ≠ none) (s : σ) (as : List α) (t : σ) :
    as.foldlM f s = some t ↔ Always step clear s as ∧ as.foldl step s = t := by
  induction as generalizing s with
  | nil => simp [Always]
  | cons a as ih =>
    unfold Always
    rw [List.foldlM_cons, List.foldl_cons, hclear, hstep]
    cases hf : f s a with
    | none => simp
    | some u => simpa using ih u

end NCam.Lib.Shadow

namespace NCam.Lib.Mirror

variable {κ ι : Type*} [DecidableEq ι] (key : κ → ι)

/-- The entry of key `i` goes away. -/
def remove (i : ι) (l : List κ) : List κ := l.filter fun x => key x ≠ i

/-- An entry replaces the one of its key. -/
def place (x : κ) (l : List κ) : List κ := remove key (key x) l ++ [x]

variable {key} {i : ι} {x y : κ} {l : List κ}

@[simp] theorem mem_remove : y ∈ remove key i l ↔ y ∈ l ∧ key y ≠ i := by
  rw [remove, List.mem_filter, decide_eq_true_iff]

@[simp] theorem mem_place : y ∈ place key x l ↔ (y ∈ l ∧ key y ≠ key x) ∨ y = x := by
  rw [place, List.mem_append, mem_remove, List.mem_singleton]

theorem nodup_remove (h : (l.map key).Nodup) : ((remove key i l).map key).Nodup :=
  h.sublist (List.filter_sublist.map key)

theorem nodup_place (h : (l.map key).Nodup) : ((place key x l).map key).Nodup := by
  rw [place, List.map_append, List.map_singleton, List.nodup_append]
  refine ⟨nodup_remove h, List.nodup_singleton _, ?_⟩
  intro a ha b hb hab
  obtain ⟨y, hy, rfl⟩ := List.mem_map.mp ha
  rw [List.mem_singleton.mp hb] at hab
  exact (mem_remove.mp hy).2 hab

end NCam.Lib.Mirror
