import Mathlib.Data.Finset.Max

/-! The `n` lowest elements of a finite set under a key, as they come out of taking the lowest one `n` times; a
walk through a list that finds the first of the lowest elements; and the least of the values a loop meets, kept in
a variable in which zero stands for none. -/
namespace NCam.Lib

section Lowest

variable {ι κ : Type*} [DecidableEq ι] [LinearOrder κ] {key : ι → κ} {s : Finset ι} {m i j : ι} {n : ℕ}

/-- The elements that fewer than `n` others are below. -/
def lowest (key : ι → κ) (n : ℕ) (s : Finset ι) : Finset ι :=
  s.filter fun i => (s.filter fun j => key j < key i).card < n

theorem mem_lowest : i ∈ lowest key n s ↔ i ∈ s ∧ (s.filter fun j => key j < key i).card < n := Finset.mem_filter

theorem lowest_subset : lowest key n s ⊆ s := Finset.filter_subset _ _

@[simp] theorem lowest_zero : lowest key 0 s = ∅ := by
  simp [lowest]

@[simp] theorem lowest_empty : lowest key n ∅ = ∅ := rfl

/-- The lowest element is taken first, and the rest from what is left. -/
theorem lowest_succ (hm : m ∈ s) (hmin : ∀ j ∈ s, j ≠ m → key m < key j) :
    lowest key (n + 1) s = insert m (lowest key n (s.erase m)) := by
  ext i
  rw [Finset.mem_insert, mem_lowest, mem_lowest, Finset.mem_erase]
  by_cases him : i = m
  · rw [him]
    have hnone : s.filter (fun j => key j < key m) = ∅ := by
      rw [Finset.filter_eq_empty_iff]
      intro j hj hlt
      by_cases hjm : j = m
      · rw [hjm] at hlt
        exact lt_irrefl _ hlt
      · exact lt_asymm hlt (hmin j hj hjm)
    rw [hnone]
    simp [hm]
  · have hsplit : i ∈ s → s.filter (fun j => key j < key i) =
        insert m ((s.erase m).filter fun j => key j < key i) := by
      intro hi
      rw [Finset.filter_erase, Finset.insert_erase]
      exact Finset.mem_filter.mpr ⟨hm, hmin i hi him⟩
    have hcard : i ∈ s → (s.filter fun j => key j < key i).card =
        ((s.erase m).filter fun j => key j < key i).card + 1 := by
      intro hi
      rw [hsplit hi, Finset.card_insert_of_notMem]
      simp
    constructor
    · rintro ⟨hi, hlt⟩
      rw [hcard hi] at hlt
      exact .inr ⟨⟨him, hi⟩, Nat.succ_lt_succ_iff.mp hlt⟩
    · rintro (h | ⟨⟨-, hi⟩, hlt⟩)
      · exact absurd h him
      · rw [hcard hi]
        exact ⟨hi, Nat.succ_lt_succ hlt⟩

/-- The first of the elements with `p` that `f` is lowest on. -/
def firstLowest (p : ι → Bool) (f : ι → κ) (l : List ι) : Option ι :=
  l.foldl (fun best i => if p i && best.all fun b => f i < f b then some i else best) none

section FirstLowest

variable [LinearOrder ι] {p : ι → Bool} {f : ι → κ} {l : List ι}

/-- What the walk has found. -/
private def Found (p : ι → Bool) (f : ι → κ) (l : List ι) : Option ι → Prop
  | none => ∀ i ∈ l, p i = false
  | some m => m ∈ l ∧ p m = true ∧ ∀ i ∈ l, p i = true → i ≠ m → f m < f i ∨ f m = f i ∧ m < i

private theorem found_firstLowest (h : l.Pairwise (· < ·)) : Found p f l (firstLowest p f l) := by
  induction l using List.reverseRecOn with
  | nil =>
    intro i hi
    cases hi
  | append_singleton l x ih =>
    obtain ⟨hl, -, hx⟩ := List.pairwise_append.mp h
    have hbefore : ∀ i ∈ l, i < x := fun i hi => hx i hi x (List.mem_singleton.mpr rfl)
    have hfound := ih hl
    have hstep : firstLowest p f (l ++ [x]) =
        if p x && (firstLowest p f l).all fun b => f x < f b then some x else firstLowest p f l := by
      unfold firstLowest
      rw [List.foldl_append]
      rfl
    rw [hstep]
    cases hbest : firstLowest p f l with
    | none =>
      rw [hbest] at hfound
      cases hpx : p x with
      | false =>
        intro i hi
        rcases List.mem_append.mp hi with hi | hi
        · exact hfound i hi
        · rw [List.mem_singleton.mp hi]
          exact hpx
      | true =>
        refine ⟨List.mem_append_right _ (List.mem_singleton.mpr rfl), hpx, fun i hi hpi hne => ?_⟩
        rcases List.mem_append.mp hi with hi | hi
        · rw [hfound i hi] at hpi
          cases hpi
        · exact absurd (List.mem_singleton.mp hi) hne
    | some b =>
      rw [hbest] at hfound
      obtain ⟨hb, hpb, hmin⟩ := hfound
      by_cases htake : p x = true ∧ f x < f b
      · have hcond : (p x && Option.all (fun b => decide (f x < f b)) (some b)) = true := by
          simpa using htake
        rw [if_pos hcond]
        refine ⟨List.mem_append_right _ (List.mem_singleton.mpr rfl), htake.1, fun i hi hpi hne => ?_⟩
        rcases List.mem_append.mp hi with hi | hi
        · left
          by_cases hib : i = b
          · rw [hib]
            exact htake.2
          · rcases hmin i hi hpi hib with hlt | ⟨heq, -⟩
            · exact lt_trans htake.2 hlt
            · rw [← heq]
              exact htake.2
        · exact absurd (List.mem_singleton.mp hi) hne
      · have hcond : ¬ (p x && Option.all (fun b => decide (f x < f b)) (some b)) = true := by
          simpa using htake
        rw [if_neg hcond]
        refine ⟨List.mem_append_left _ hb, hpb, fun i hi hpi hne => ?_⟩
        rcases List.mem_append.mp hi with hi | hi
        · exact hmin i hi hpi hne
        · rw [List.mem_singleton.mp hi] at hpi ⊢
          have hle : f b ≤ f x := not_lt.mp fun hlt => htake ⟨hpi, hlt⟩
          rcases lt_or_eq_of_le hle with hlt | heq
          · exact .inl hlt
          · exact .inr ⟨heq, hbefore b hb⟩

theorem firstLowest_eq_none (hl : l.Pairwise (· < ·)) (h : firstLowest p f l = none) : ∀ i ∈ l, p i = false := by
  have hfound : Found p f l (firstLowest p f l) := found_firstLowest hl
  rw [h] at hfound
  exact hfound

/-- Of elements with one key the first is found. -/
theorem firstLowest_eq_some (hl : l.Pairwise (· < ·)) (h : firstLowest p f l = some m) :
    m ∈ l ∧ p m = true ∧ ∀ i ∈ l, p i = true → i ≠ m → f m < f i ∨ f m = f i ∧ m < i := by
  have hfound : Found p f l (firstLowest p f l) := found_firstLowest hl
  rw [h] at hfound
  exact hfound

end FirstLowest

end Lowest

section Least

variable {α : Type*} [LinearOrder α] [Zero α]

/-- Keeps the smaller value; a zero is replaced. -/
def keepLeast (t c : α) : α := if t = 0 ∨ c < t then c else t

/-- What the variable stands for. -/
def known (t : α) : Option α := if t = 0 then none else some t

/-- A zero comes before any negative value. -/
def ZeroAhead (cs : List α) : Prop := 0 ∈ cs.takeWhile (0 ≤ ·)

instance (cs : List α) : Decidable (ZeroAhead cs) := inferInstanceAs (Decidable (_ ∈ _))

/-- The values behind the last zero before any negative one. -/
def counted : List α → List α
  | [] => []
  | c :: cs => if ZeroAhead (c :: cs) then counted cs else c :: cs

variable {t c : α} {cs : List α}

theorem zeroAhead_cons : ZeroAhead (c :: cs) ↔ c = 0 ∨ (0 < c ∧ ZeroAhead cs) := by
  unfold ZeroAhead
  obtain hneg | rfl | hpos := lt_trichotomy c 0
  · have hle : ¬ 0 ≤ c := not_le.mpr hneg
    rw [List.takeWhile_cons_of_neg (by simpa using hneg)]
    simp [hneg.ne, hneg.le]
  · rw [List.takeWhile_cons_of_pos (by simp)]
    simp
  · rw [List.takeWhile_cons_of_pos (by simpa using hpos.le), List.mem_cons]
    simp [hpos, hpos.ne, hpos.ne']

theorem not_zeroAhead_counted (cs : List α) : ¬ ZeroAhead (counted cs) := by
  induction cs with
  | nil => exact List.not_mem_nil
  | cons c cs ih =>
    unfold counted
    split_ifs with hzero
    · exact ih
    · exact hzero

theorem counted_of_not (h : ¬ ZeroAhead cs) : counted cs = cs := by
  cases cs with
  | nil => rfl
  | cons c cs => exact if_neg h

theorem keepLeast_eq_min (ht : t ≠ 0) : keepLeast t c = min t c := by
  unfold keepLeast
  split_ifs with hless
  · exact (min_eq_right (hless.resolve_left ht).le).symm
  · exact (min_eq_left (not_lt.mp (not_or.mp hless).2)).symm

/-- A negative value stays until a smaller one comes. -/
theorem foldl_keepLeast_neg (ht : t < 0) (cs : List α) :
    known (cs.foldl keepLeast t) = some (cs.foldl min t) := by
  induction cs generalizing t with
  | nil => exact if_neg ht.ne
  | cons c cs ih =>
    rw [List.foldl_cons, List.foldl_cons, keepLeast_eq_min ht.ne]
    exact ih (min_lt_of_left_lt ht)

theorem foldl_keepLeast_pos (ht : 0 < t) (hcs : ¬ ZeroAhead cs) :
    known (cs.foldl keepLeast t) = some (cs.foldl min t) := by
  induction cs generalizing t with
  | nil => exact if_neg ht.ne'
  | cons c cs ih =>
    rw [zeroAhead_cons, not_or] at hcs
    rw [List.foldl_cons, List.foldl_cons, keepLeast_eq_min ht.ne']
    obtain hneg | hzero | hpos := lt_trichotomy c 0
    · exact foldl_keepLeast_neg (min_lt_of_right_lt hneg) cs
    · exact absurd hzero hcs.1
    · exact ih (lt_min ht hpos) fun hlater => hcs.2 ⟨hpos, hlater⟩

/-- What comes before the last zero does not count. -/
theorem foldl_keepLeast_zero (ht : 0 ≤ t) (hcs : ZeroAhead cs) :
    cs.foldl keepLeast t = (counted cs).foldl keepLeast 0 := by
  induction cs generalizing t with
  | nil => exact absurd hcs List.not_mem_nil
  | cons c cs ih =>
    unfold counted
    rw [if_pos hcs, List.foldl_cons]
    by_cases hlater : ZeroAhead cs
    · apply ih _ hlater
      unfold keepLeast
      rw [zeroAhead_cons] at hcs
      split_ifs
      · exact hcs.elim (fun h => h.ge) fun h => h.1.le
      · exact ht
    · have hzero : c = 0 := (zeroAhead_cons.mp hcs).resolve_right fun h => hlater h.2
      have hkeep : keepLeast t c = 0 := by
        unfold keepLeast
        rw [hzero, if_pos (ht.eq_or_lt.imp Eq.symm id)]
      rw [hkeep, counted_of_not hlater]

/-- The loop ends with the least of the values that count. -/
theorem known_foldl_keepLeast (cs : List α) : known (cs.foldl keepLeast 0) = (counted cs).min? := by
  have hcounted : ∀ ds : List α, ¬ ZeroAhead ds → known (ds.foldl keepLeast 0) = ds.min? := by
    intro ds hds
    cases ds with
    | nil => exact if_pos rfl
    | cons d ds =>
      rw [zeroAhead_cons, not_or] at hds
      have hfirst : keepLeast 0 d = d := if_pos (.inl rfl)
      rw [List.foldl_cons, hfirst]
      obtain hneg | hzero | hpos := lt_trichotomy d 0
      · exact foldl_keepLeast_neg hneg ds
      · exact absurd hzero hds.1
      · exact foldl_keepLeast_pos hpos fun hlater => hds.2 ⟨hpos, hlater⟩
  by_cases hzero : ZeroAhead cs
  · rw [foldl_keepLeast_zero le_rfl hzero]
    exact hcounted _ (not_zeroAhead_counted cs)
  · rw [counted_of_not hzero]
    exact hcounted cs hzero

/-- Two lists have the same least value where each value of one has one below it in the other. -/
theorem min?_eq_min?_iff {xs ys : List α} : xs.min? = ys.min? ↔
    (∀ x ∈ xs, ∃ y ∈ ys, y ≤ x) ∧ ∀ y ∈ ys, ∃ x ∈ xs, x ≤ y := by
  have hbelow : ∀ as bs : List α, as.min? = bs.min? → ∀ a ∈ as, ∃ b ∈ bs, b ≤ a := by
    intro as bs heq a ha
    obtain ⟨m, hm⟩ := Option.isSome_iff_exists.mp (List.isSome_min?_of_mem ha)
    have hleast := (List.min?_eq_some_iff.mp hm).2 a ha
    rw [heq] at hm
    exact ⟨m, List.min?_mem hm, hleast⟩
  constructor
  · intro heq
    exact ⟨hbelow xs ys heq, hbelow ys xs heq.symm⟩
  · intro h
    obtain ⟨hxs, hys⟩ := h
    cases hx : xs.min? with
    | none =>
      have hnil : xs = [] := List.min?_eq_none_iff.mp hx
      subst hnil
      symm
      rw [List.min?_eq_none_iff, List.eq_nil_iff_forall_not_mem]
      intro y hy
      obtain ⟨x, hmem, -⟩ := hys y hy
      exact List.not_mem_nil hmem
    | some m =>
      obtain ⟨hm, hleast⟩ := List.min?_eq_some_iff.mp hx
      symm
      rw [List.min?_eq_some_iff]
      have hlower : ∀ y ∈ ys, m ≤ y := by
        intro y hy
        obtain ⟨x, hmem, hle⟩ := hys y hy
        exact (hleast x hmem).trans hle
      obtain ⟨y, hy, hle⟩ := hxs m hm
      have heq : y = m := le_antisymm hle (hlower y hy)
      exact ⟨heq ▸ hy, hlower⟩

end Least

end NCam.Lib
