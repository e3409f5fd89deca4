import Mathlib.Data.List.Nodup
import Mathlib.Data.List.TakeDrop

/-! Walks through a list: to the first element from which on all have a property; to the first item that matches,
with other items put in its place; to the first item that denies, remembering whether one grants; and through a
list that changes on the way, which begin anew when the item they are at is gone. -/
namespace NCam.Lib

section Aged

variable {α : Type*} {p : α → Bool} {l : List α}

/-- The list before its first element with the property, and the list from that element on. -/
def cutAt (p : α → Bool) : List α → List α × List α
  | [] => ([], [])
  | x :: xs => if p x then ([], x :: xs) else (x :: (cutAt p xs).1, (cutAt p xs).2)

def Aged (p : α → Bool) (l : List α) : Prop := l.Pairwise fun x y => p x = true → p y = true

theorem cutAt_eq_filter (h : Aged p l) : cutAt p l = (l.filter fun x => !p x, l.filter p) := by
  induction l with
  | nil => rfl
  | cons x xs ih =>
    obtain ⟨hx, hxs⟩ := List.pairwise_cons.mp h
    have hrest := ih hxs
    unfold cutAt
    cases hp : p x with
    | true =>
      have hall : ∀ y ∈ xs, p y = true := fun y hy => hx y hy hp
      have hnone : xs.filter (fun y => !p y) = [] := by simpa [List.filter_eq_nil_iff] using hall
      simp [hp, hnone, List.filter_eq_self.mpr hall]
    | false => simp [hp, hrest]

theorem cutAt_append (l : List α) : (cutAt p l).1 ++ (cutAt p l).2 = l := by
  induction l with
  | nil => rfl
  | cons x xs ih =>
    unfold cutAt
    split_ifs with hp
    · rfl
    · simp [ih]

end Aged

section FirstMatch

/-- What the walk leaves and returns, `none` if nothing matches. -/
def onFirst {α β : Type*} (p : α → Bool) (f : α → List α × β) : List α → Option (List α × β)
  | [] => none
  | x :: xs =>
    if p x then some ((f x).1 ++ xs, (f x).2)
    else (onFirst p f xs).map fun r => (x :: r.1, r.2)

variable {α β : Type*} {p : α → Bool} {f : α → List α × β} {xs : List α} {r : List α × β}

theorem onFirst_eq_none : onFirst p f xs = none ↔ ∀ x ∈ xs, p x = false := by
  induction xs with
  | nil => exact iff_of_true rfl fun x hx => absurd hx List.not_mem_nil
  | cons x xs ih =>
    unfold onFirst
    rw [List.forall_mem_cons]
    cases hx : p x with
    | true => simp
    | false =>
      rw [if_neg Bool.false_ne_true, Option.map_eq_none_iff, ih]
      exact (and_iff_right rfl).symm

/-- The items before the first match and behind it stay. -/
theorem onFirst_eq_some (h : onFirst p f xs = some r) :
    ∃ pre x post, xs = pre ++ x :: post ∧ (∀ y ∈ pre, p y = false) ∧ p x = true ∧
      r = (pre ++ ((f x).1 ++ post), (f x).2) := by
  induction xs generalizing r with
  | nil => cases h
  | cons x xs ih =>
    unfold onFirst at h
    cases hx : p x with
    | true =>
      rw [hx, if_pos rfl] at h
      exact ⟨[], x, xs, rfl, fun y hy => absurd hy List.not_mem_nil, hx, (Option.some.inj h).symm⟩
    | false =>
      rw [hx, if_neg Bool.false_ne_true] at h
      obtain ⟨r', hr', rfl⟩ := Option.map_eq_some_iff.mp h
      obtain ⟨pre, y, post, rfl, hpre, hy, rfl⟩ := ih hr'
      refine ⟨x :: pre, y, post, rfl, ?_, hy, rfl⟩
      rw [List.forall_mem_cons]
      exact ⟨hx, hpre⟩

end FirstMatch

section Verdict

def verdict {α : Type*} (denies grants : α → Bool) : List α → Bool → Bool
  | [], rc => rc
  | a :: as, rc => if denies a then false else verdict denies grants as (if grants a then true else rc)

variable {α : Type*} {denies grants : α → Bool} {as : List α} {rc : Bool}

theorem verdict_iff : verdict denies grants as rc = true ↔
    (∀ a ∈ as, ¬ denies a = true) ∧ (rc = true ∨ ∃ a ∈ as, grants a = true) := by
  induction as generalizing rc with
  | nil =>
    change rc = true ↔ _
    simp
  | cons a as ih =>
    unfold verdict
    rw [List.forall_mem_cons, List.exists_mem_cons_iff]
    cases hdeny : denies a with
    | true => simp
    | false =>
      rw [if_neg Bool.false_ne_true, ih]
      cases hgrant : grants a with
      | true => simp
      | false => simp

end Verdict

section Restart

variable {α κ : Type*}

/-- All items up to the one at which the walk is have a property. -/
def Passed (key : α → κ) (items : List α) (cur : Option κ) (p : κ → Prop) : Prop :=
  ∀ before item after, items = before ++ item :: after → cur = some (key item) →
    ∀ other ∈ before ++ [item], p (key other)

theorem passed_none (key : α → κ) (items : List α) (p : κ → Prop) : Passed key items none p :=
  fun _ _ _ _ h => by cases h

/-- What stands before a key in part of a list without repetitions stands before it in the list. -/
private theorem subset_before {l₁ l₂ m₁ m₂ : List κ} {k : κ} (h : (l₁ ++ k :: l₂).Sublist (m₁ ++ k :: m₂))
    (hd : (m₁ ++ k :: m₂).Nodup) : l₁ ⊆ m₁ := by
  have hno := (List.nodup_middle.mp hd).notMem
  obtain ⟨n₁, n₂, heq, hn₁, hn₂⟩ := List.sublist_append_iff.mp h
  rcases List.append_eq_append_iff.mp heq with ⟨cs, rfl, hcs⟩ | ⟨cs, rfl, rfl⟩
  · cases cs with
    | nil =>
      rw [List.append_nil] at hn₁
      exact hn₁.subset
    | cons c cs =>
      obtain ⟨rfl, -⟩ := List.cons.inj hcs
      exact absurd (List.mem_append_left _ (hn₁.subset (List.mem_append_right _ List.mem_cons_self))) hno
  · cases cs with
    | nil =>
      rw [List.append_nil]
      exact hn₁.subset
    | cons c cs =>
      have htail : k ∈ m₂ := by
        have hrest := hn₂.tail
        rw [List.cons_append, List.tail_cons, List.tail_cons] at hrest
        exact hrest.subset (List.mem_append_right _ List.mem_cons_self)
      exact absurd (List.mem_append_right _ htail) hno

variable [DecidableEq κ] (key : α → κ)

/-- The item behind the one with the key `cur`, or the first one if that is gone. -/
def nextAfter (items : List α) (cur : Option κ) : Option α :=
  match cur with
  | none => items.head?
  | some k =>
    match items.dropWhile fun item => key item ≠ k with
    | [] => items.head?
    | _ :: rest => rest.head?

/-- The number of items that a walk goes through from here on. -/
def toGo (items : List α) (cur : Option κ) : ℕ :=
  match cur with
  | none => items.length
  | some k =>
    match items.dropWhile fun item => key item ≠ k with
    | [] => items.length
    | _ :: rest => rest.length

variable {key} {items items' : List α} {cur : Option κ} {item : α} {p q : κ → Prop}

/-- Where a walk goes next: to the first item, or from one item to the one behind it. -/
theorem nextAfter_cases (h : nextAfter key items cur = some item) :
    (∃ rest, items = item :: rest ∧ toGo key items cur = items.length) ∨
      ∃ before first rest, items = before ++ first :: item :: rest ∧ cur = some (key first) ∧
        toGo key items cur = rest.length + 1 := by
  unfold nextAfter at h
  unfold toGo
  cases cur with
  | none =>
    obtain ⟨rest, rfl⟩ := List.head?_eq_some_iff.mp h
    exact Or.inl ⟨rest, rfl, rfl⟩
  | some k =>
    dsimp only at h ⊢
    have hitems := List.takeWhile_append_dropWhile (p := fun item : α => decide (key item ≠ k)) (l := items)
    cases hdrop : items.dropWhile fun item => decide (key item ≠ k) with
    | nil =>
      rw [hdrop] at h
      obtain ⟨rest, rfl⟩ := List.head?_eq_some_iff.mp h
      exact Or.inl ⟨rest, rfl, rfl⟩
    | cons first rest =>
      rw [hdrop] at h hitems
      obtain ⟨rest, rfl⟩ := List.head?_eq_some_iff.mp h
      have hfirst : ¬ decide (key first ≠ k) = true := by
        have hhead := List.head?_dropWhile_not (fun item : α => decide (key item ≠ k)) items
        rw [hdrop] at hhead
        simpa using hhead
      have hkey : key first = k := not_not.mp fun hne => hfirst (decide_eq_true hne)
      exact Or.inr ⟨_, first, rest, hitems.symm, by rw [hkey], rfl⟩

theorem mem_of_nextAfter (h : nextAfter key items cur = some item) : item ∈ items := by
  rcases nextAfter_cases h with ⟨rest, rfl, -⟩ | ⟨before, first, rest, rfl, -⟩
  · exact List.mem_cons_self
  · exact List.mem_append_right _ (List.mem_cons_of_mem _ List.mem_cons_self)

theorem toGo_split {before after : List α} (h : key item ∉ before.map key) :
    toGo key (before ++ item :: after) (some (key item)) = after.length := by
  have hdrop : (before ++ item :: after).dropWhile (fun other => decide (key other ≠ key item)) =
      item :: after := by
    rw [List.dropWhile_append_of_pos, List.dropWhile_cons_of_neg (by simp)]
    intro other hother
    exact decide_eq_true fun heq => h (List.mem_map.mpr ⟨other, hother, heq⟩)
  unfold toGo
  dsimp only
  rw [hdrop]

/-- Only the keys count. -/
theorem toGo_map (items : List α) (cur : Option κ) : toGo key items cur = toGo id (items.map key) cur := by
  unfold toGo
  cases cur with
  | none => exact (List.length_map _).symm
  | some k =>
    dsimp only
    rw [List.dropWhile_map]
    change _ = match (items.dropWhile fun item => decide (key item ≠ k)).map key with
      | [] => (items.map key).length
      | _ :: rest => rest.length
    cases items.dropWhile fun item => decide (key item ≠ k) with
    | nil => exact (List.length_map _).symm
    | cons first rest => exact (List.length_map _).symm

/-- A walk through items with different keys comes closer to its end. -/
theorem toGo_nextAfter (hd : (items.map key).Nodup) (h : nextAfter key items cur = some item) :
    toGo key items (some (key item)) < toGo key items cur := by
  rcases nextAfter_cases h with ⟨rest, rfl, hgo⟩ | ⟨before, first, rest, rfl, -, hgo⟩
  · have hself := @toGo_split _ _ _ key item [] rest List.not_mem_nil
    rw [List.nil_append] at hself
    rw [hself, hgo]
    exact Nat.lt_succ_self _
  · rw [List.append_cons, List.map_append, List.map_cons] at hd
    have hno := (List.nodup_middle.mp hd).notMem
    rw [hgo, List.append_cons, toGo_split fun hmem => hno (List.mem_append_left _ hmem)]
    exact Nat.lt_succ_self _

theorem Passed.all (hp : Passed key items cur p) (h : nextAfter key items cur = none) :
    ∀ item ∈ items, p (key item) := by
  unfold nextAfter at h
  cases cur with
  | none =>
    rw [List.head?_eq_none_iff.mp h]
    exact fun item hitem => absurd hitem List.not_mem_nil
  | some k =>
    dsimp only at h
    have hitems := List.takeWhile_append_dropWhile (p := fun item : α => decide (key item ≠ k)) (l := items)
    cases hdrop : items.dropWhile fun item => decide (key item ≠ k) with
    | nil =>
      rw [hdrop] at h
      rw [List.head?_eq_none_iff.mp h]
      exact fun item hitem => absurd hitem List.not_mem_nil
    | cons first rest =>
      rw [hdrop] at h hitems
      have hrest : rest = [] := List.head?_eq_none_iff.mp h
      have hhead := List.head?_dropWhile_not (fun item : α => decide (key item ≠ k)) items
      rw [hdrop] at hhead
      have hkey : key first = k := by simpa using hhead
      rw [hrest] at hitems
      have hpassed := hp _ first [] hitems.symm (by rw [hkey])
      rw [hitems] at hpassed
      exact hpassed

/-- The walk goes on, while items are taken from the list. -/
theorem Passed.next (hp : Passed key items cur p) (hd : (items.map key).Nodup)
    (h : nextAfter key items cur = some item) (hsub : (items'.map key).Sublist (items.map key))
    (hpq : ∀ k, p k → q k) (hitem : q (key item)) : Passed key items' (some (key item)) q := by
  intro before' item' after' hitems' hcur other hother
  have hkey := Option.some.inj hcur
  rcases List.mem_append.mp hother with hother | hother
  case inr =>
    rw [List.mem_singleton.mp hother, ← hkey]
    exact hitem
  obtain ⟨seen, rest, hitems, hseen⟩ : ∃ seen rest, items = seen ++ item :: rest ∧
      ∀ other ∈ seen, p (key other) := by
    rcases nextAfter_cases h with ⟨rest, hitems, -⟩ | ⟨before, first, rest, hitems, hfirst, -⟩
    · exact ⟨[], rest, hitems, fun _ hno => absurd hno List.not_mem_nil⟩
    · rw [List.append_cons] at hitems
      exact ⟨before ++ [first], rest, hitems, hp before first (item :: rest) (by rw [hitems]; simp) hfirst⟩
  rw [hitems', hitems, List.map_append, List.map_append, List.map_cons, List.map_cons, ← hkey] at hsub
  rw [hitems, List.map_append, List.map_cons] at hd
  obtain ⟨earlier, hearlier, heq⟩ := List.mem_map.mp (subset_before hsub hd (List.mem_map_of_mem hother))
  rw [← heq]
  exact hpq _ (hseen earlier hearlier)

end Restart

end NCam.Lib
