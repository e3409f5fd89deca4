import Mathlib.Data.List.Pairwise
import Mathlib.Data.List.Sort

/-! The bottom-up merge sort of `tommychain.h`, over the operation that merges two chains: the same
recursion also summarises the chains it merges. -/
namespace NCam.Tommy

variable {α β γ : Type*}

section Skeleton

/-- Adds a chain to the bit buckets, lowest bit first, merging on every full bucket. -/
def carry (merge : β → β → β) (last : β) : List (Option β) → List (Option β)
  | [] => [some last]
  | none :: bits => some last :: bits
  | some first :: bits => none :: carry merge (merge first last) bits

def mergeBit (merge : β → β → β) (last : β) : Option β → β
  | some first => merge first last
  | none => last

/-- Merges the buckets that are left, from the lowest full one up. -/
def mergeBits (merge : β → β → β) : List (Option β) → Option β
  | [] => none
  | none :: bits => mergeBits merge bits
  | some last :: bits => some (bits.foldl (mergeBit merge) last)

/-- `tommy_chain_mergesort` on the chains of one node; `none` for no node at all. -/
def chainMergesort (merge : β → β → β) (nodes : List β) : Option β :=
  mergeBits merge (nodes.foldl (fun bits node => carry merge node bits) [])

variable {R : β → γ → Prop} {m : β → β → β} {m' : γ → γ → γ}

private theorem carry_rel (hm : ∀ f f' s s', R f f' → R s s' → R (m f s) (m' f' s'))
    {last : β} {last' : γ} (hl : R last last') {bits : List (Option β)} {bits' : List (Option γ)}
    (hb : List.Forall₂ (Option.Rel R) bits bits') :
    List.Forall₂ (Option.Rel R) (carry m last bits) (carry m' last' bits') := by
  induction hb generalizing last last' with
  | nil => exact .cons (.some hl) .nil
  | cons hbit hrest ih =>
    cases hbit with
    | none => exact .cons (.some hl) hrest
    | some hfirst => exact .cons .none (ih (hm _ _ _ _ hfirst hl))

private theorem mergeBits_rel (hm : ∀ f f' s s', R f f' → R s s' → R (m f s) (m' f' s'))
    {bits : List (Option β)} {bits' : List (Option γ)}
    (hb : List.Forall₂ (Option.Rel R) bits bits') :
    Option.Rel R (mergeBits m bits) (mergeBits m' bits') := by
  induction hb with
  | nil => exact .none
  | cons hbit hrest ih =>
    cases hbit with
    | none => exact ih
    | some hlast =>
      rename_i bits bits' last last'
      refine .some ?_
      clear ih
      induction hrest generalizing last last' with
      | nil => exact hlast
      | cons hbit hrest ih =>
        apply ih
        cases hbit with
        | none => exact hlast
        | some hfirst => exact hm _ _ _ _ hfirst hlast

/-- A relation between chains that the two merges keep relates the two sorted chains. -/
theorem chainMergesort_rel (hm : ∀ f f' s s', R f f' → R s s' → R (m f s) (m' f' s'))
    {nodes : List β} {nodes' : List γ} (hn : List.Forall₂ R nodes nodes') :
    Option.Rel R (chainMergesort m nodes) (chainMergesort m' nodes') := by
  apply mergeBits_rel hm
  suffices h : ∀ bits bits', List.Forall₂ (Option.Rel R) bits bits' → List.Forall₂ (Option.Rel R)
      (nodes.foldl (fun bits node => carry m node bits) bits)
      (nodes'.foldl (fun bits node => carry m' node bits) bits') from h [] [] .nil
  induction hn with
  | nil => exact fun _ _ hb => hb
  | cons hnode _ ih => exact fun _ _ hb => ih _ _ (carry_rel hm hnode hb)

/-- The nodes in the buckets, in list order: higher buckets hold earlier nodes. -/
private def joinBits (bits : List (Option (List α))) : List α :=
  bits.foldr (fun bit joined => joined ++ bit.getD []) []

private theorem joinBits_carry (last : List α) (bits : List (Option (List α))) :
    joinBits (carry (· ++ ·) last bits) = joinBits bits ++ last := by
  induction bits generalizing last with
  | nil => simp [carry, joinBits]
  | cons bit bits ih =>
    cases bit with
    | none => simp [carry, joinBits]
    | some first =>
      have := ih (first ++ last)
      simp only [carry, joinBits, List.foldr_cons, Option.getD_none, Option.getD_some,
        List.append_nil] at this ⊢
      rw [this, List.append_assoc]

private theorem foldl_mergeBit_append (bits : List (Option (List α))) (last : List α) :
    bits.foldl (mergeBit (· ++ ·)) last = joinBits bits ++ last := by
  induction bits generalizing last with
  | nil => rfl
  | cons bit bits ih =>
    rw [List.foldl_cons, ih]
    cases bit with
    | none => simp [mergeBit, joinBits]
    | some first => simp [mergeBit, joinBits]

private theorem mergeBits_append (bits : List (Option (List α))) :
    (mergeBits (· ++ ·) bits).getD [] = joinBits bits := by
  induction bits with
  | nil => rfl
  | cons bit bits ih =>
    cases bit with
    | none => simpa [mergeBits, joinBits] using ih
    | some last => simp [mergeBits, joinBits, foldl_mergeBit_append]

/-- With concatenation for the merge the chains stay contiguous pieces of the list. -/
theorem chainMergesort_append (l : List α) :
    (chainMergesort (· ++ ·) (l.map fun a => [a])).getD [] = l := by
  rw [chainMergesort, mergeBits_append]
  suffices h : ∀ bits, joinBits ((l.map fun a => [a]).foldl
      (fun bits node => carry (· ++ ·) node bits) bits) = joinBits bits ++ l from h []
  induction l with
  | nil => intro bits; simp
  | cons a l ih =>
    intro bits
    rw [List.map_cons, List.foldl_cons, ih, joinBits_carry, List.append_assoc]
    rfl

end Skeleton

variable (cmp : α → α → ℤ)

/-- The rounds of `tommy_chain_merge` that take from the second chain, up to the one that takes `x`,
the head of the first, and goes on with `rest`. -/
def mergeSecond (x : α) (xs : List α) (rest : List α → List α) : List α → List α
  | [] => x :: xs
  | y :: ys => if cmp x y > 0 then y :: mergeSecond x xs rest ys else x :: rest (y :: ys)

/-- `tommy_chain_merge`. -/
def chainMerge : List α → List α → List α
  | [], second => second
  | x :: xs, second => mergeSecond cmp x xs (chainMerge xs) second

/-- `tommy_chain_merge_degenerated`; a chain has at least one node. -/
def chainMergeDegenerated (first second : List α) : List α :=
  match first.getLast?, second.head?, second.getLast?, first.head? with
  | some firstTail, some secondHead, some secondTail, some firstHead =>
    if cmp firstTail secondHead ≤ 0 then first ++ second
    else if cmp secondTail firstHead < 0 then second ++ first
    else chainMerge cmp first second
  | _, _, _, _ => first ++ second

/-- `tommy_list_sort`. -/
def listSort (l : List α) : List α :=
  (chainMergesort (chainMergeDegenerated cmp) (l.map fun a => [a])).getD []

variable {cmp}

theorem chainMerge_cons_cons (x : α) (xs : List α) (y : α) (ys : List α) :
    chainMerge cmp (x :: xs) (y :: ys) =
      if cmp x y > 0 then y :: chainMerge cmp (x :: xs) ys else x :: chainMerge cmp xs (y :: ys) :=
  rfl

private theorem mergeSecond_perm (x : α) (xs : List α) {rest : List α → List α} (second : List α)
    (hrest : ∀ l, (rest l).Perm (xs ++ l)) :
    (mergeSecond cmp x xs rest second).Perm (x :: xs ++ second) := by
  induction second with
  | nil => rw [List.append_nil]; exact .refl _
  | cons y ys ih =>
    unfold mergeSecond
    split_ifs with h
    · exact (ih.cons y).trans List.perm_middle.symm
    · exact (hrest (y :: ys)).cons x

theorem chainMerge_perm (first second : List α) :
    (chainMerge cmp first second).Perm (first ++ second) := by
  induction first generalizing second with
  | nil => exact .refl _
  | cons x xs ih => exact mergeSecond_perm x xs second fun l => ih l

theorem chainMergeDegenerated_perm (first second : List α) :
    (chainMergeDegenerated cmp first second).Perm (first ++ second) := by
  unfold chainMergeDegenerated
  split
  · split_ifs
    · exact .refl _
    · exact List.perm_append_comm
    · exact chainMerge_perm first second
  · exact .refl _

/-- A relation between chains and summaries that the merges keep holds of the sorted list, if there
is anything to sort. -/
theorem listSort_rel {R : List α → γ → Prop} {m' : γ → γ → γ}
    (hm : ∀ f f' s s', R f f' → R s s' → R (chainMergeDegenerated cmp f s) (m' f' s'))
    {l : List α} {l' : List γ} (hl : List.Forall₂ (fun a c => R [a] c) l l') (hne : l ≠ []) :
    ∃ c, chainMergesort m' l' = some c ∧ R (listSort cmp l) c := by
  have hmap : List.Forall₂ R (l.map fun a => [a]) l' := List.forall₂_map_left_iff.mpr hl
  have hrel := chainMergesort_rel hm hmap
  unfold listSort
  cases hs : chainMergesort (chainMergeDegenerated cmp) (l.map fun a => [a]) with
  | some sorted =>
    rw [hs] at hrel
    cases hc : chainMergesort m' l' with
    | none => rw [hc] at hrel; cases hrel
    | some c =>
      rw [hc] at hrel
      cases hrel with
      | some h => exact ⟨c, rfl, h⟩
  | none =>
    -- the concatenated chains are the list, so there is a chain
    have hempty : Option.Rel (fun _ _ => True)
        (chainMergesort (chainMergeDegenerated cmp) (l.map fun a => [a]))
        (chainMergesort (· ++ ·) (l.map fun a => [a])) :=
      chainMergesort_rel (fun _ _ _ _ _ _ => trivial) (List.forall₂_same.mpr fun _ _ => trivial)
    rw [hs] at hempty
    have hjoin := chainMergesort_append l
    cases hc : chainMergesort (· ++ ·) (l.map fun a => [a]) with
    | none =>
      rw [hc] at hjoin
      exact absurd hjoin.symm hne
    | some c => rw [hc] at hempty; cases hempty

theorem listSort_perm (l : List α) : (listSort cmp l).Perm l := by
  by_cases hne : l = []
  · subst hne
    exact .refl _
  · have hsingle : List.Forall₂ (fun a c => [a].Perm c) l (l.map fun a => [a]) :=
      List.forall₂_map_right_iff.mpr (List.forall₂_same.mpr fun a _ => .refl [a])
    have hmerge : ∀ f f' s s' : List α, f.Perm f' → s.Perm s' →
        (chainMergeDegenerated cmp f s).Perm (f' ++ s') :=
      fun f f' s s' hf hs => (chainMergeDegenerated_perm f s).trans (hf.append hs)
    obtain ⟨c, hc, hp⟩ := listSort_rel hmerge hsingle hne
    have hjoin := chainMergesort_append l
    rw [hc] at hjoin
    exact hjoin ▸ hp

section Stable

/-- What `tommy_list_sort` relies on in a comparison. -/
structure Comparison (cmp : α → α → ℤ) : Prop where
  trans {x y z : α} : cmp x y ≤ 0 → cmp y z ≤ 0 → cmp x z ≤ 0
  sign {x y : α} : cmp x y < 0 ↔ 0 < cmp y x

variable {first second l : List α}

theorem chainMerge_eq_merge (first second : List α) :
    chainMerge cmp first second = first.merge second fun x y => cmp x y ≤ 0 := by
  induction first generalizing second with
  | nil => simp [chainMerge]
  | cons x xs ih =>
    induction second with
    | nil => simp [chainMerge, mergeSecond]
    | cons y ys ihy =>
      rw [chainMerge_cons_cons, List.cons_merge_cons, ihy, ih]
      by_cases h : cmp x y ≤ 0
      · simp [h, Int.not_lt.mpr h]
      · simp [h, Int.not_le.mp h]

theorem Comparison.isTrans (hc : Comparison cmp) : IsTrans α (cmp · · ≤ 0) := ⟨fun _ _ _ => hc.trans⟩

theorem Comparison.total (hc : Comparison cmp) : Std.Total (cmp · · ≤ 0) := by
  constructor
  intro x y
  have := hc.sign (x := y) (y := x)
  omega

theorem chainMerge_of_gt (h : ∀ x ∈ first, ∀ y ∈ second, 0 < cmp x y) :
    chainMerge cmp first second = second ++ first := by
  cases first with
  | nil => simp [chainMerge]
  | cons x xs =>
    induction second with
    | nil => rfl
    | cons y ys ih =>
      rw [chainMerge_cons_cons, if_pos (h x List.mem_cons_self y List.mem_cons_self),
        ih fun z hz w hw => h z hz w (List.mem_cons_of_mem y hw)]
      rfl

/-- The two shortcuts give what the merge gives. -/
theorem Comparison.chainMergeDegenerated_eq (hc : Comparison cmp) (hf : first.Pairwise (cmp · · ≤ 0))
    (hs : second.Pairwise (cmp · · ≤ 0)) : chainMergeDegenerated cmp first second = chainMerge cmp first second := by
  have := hc.total
  cases first with
  | nil => rfl
  | cons x xs =>
    cases second with
    | nil => simp [chainMergeDegenerated, chainMerge, mergeSecond]
    | cons y ys =>
      unfold chainMergeDegenerated
      simp only [List.getLast?_eq_some_getLast (List.cons_ne_nil _ _), List.head?_cons]
      split_ifs with hle hlt
      · rw [chainMerge_eq_merge, List.merge_of_le]
        intro a b ha hb
        exact decide_eq_true (hc.trans (hf.rel_getLast ha) (hc.trans hle (hs.rel_head hb)))
      · apply Eq.symm
        apply chainMerge_of_gt
        intro a ha b hb
        by_contra hab
        have hback : cmp x _ ≤ 0 := hc.trans (hf.rel_head ha) (hc.trans (Int.not_lt.mp hab) (hs.rel_getLast hb))
        exact absurd (hc.sign.mp hlt) (Int.not_lt.mpr hback)
      · rfl

theorem Comparison.chainMerge_sorted (hc : Comparison cmp) (hf : first.Pairwise (cmp · · ≤ 0))
    (hs : second.Pairwise (cmp · · ≤ 0)) : (chainMerge cmp first second).Pairwise (cmp · · ≤ 0) := by
  have := hc.total
  have := hc.isTrans
  rw [chainMerge_eq_merge]
  exact hf.merge hs

/-- The equal nodes of the first chain come before those of the second. -/
theorem Comparison.filter_chainMerge (hc : Comparison cmp) (hf : first.Pairwise (cmp · · ≤ 0)) (a : α) :
    (chainMerge cmp first second).filter (cmp a · = 0) =
      first.filter (cmp a · = 0) ++ second.filter (cmp a · = 0) := by
  have := hc.total
  induction first generalizing second with
  | nil => rfl
  | cons x xs ih =>
    induction second with
    | nil => simp [chainMerge, mergeSecond]
    | cons y ys ihy =>
      rw [chainMerge_cons_cons]
      split_ifs with hxy
      · rw [List.filter_cons, List.filter_cons (x := y), ihy]
        split_ifs with ha
        · -- a node of the first chain that is equal to `a` would be up to `y`
          have hnone : (x :: xs).filter (cmp a · = 0) = [] := by
            refine List.filter_eq_nil_iff.mpr fun z hz haz => ?_
            have hza := hc.sign (x := a) (y := z)
            have haz : cmp a z = 0 := of_decide_eq_true haz
            have hay : cmp a y = 0 := of_decide_eq_true ha
            have hzy : cmp z y ≤ 0 := hc.trans (y := a) (by omega) (by omega)
            have : cmp x y ≤ 0 := hc.trans (hf.rel_head hz) hzy
            omega
          rw [hnone]
          rfl
        · rfl
      · rw [List.filter_cons, ih hf.tail, List.filter_cons (x := x)]
        split_ifs <;> rfl

/-- `tommy_list_sort` is a stable sort: equal elements keep the order they had. -/
theorem listSort_stable (hc : Comparison cmp) (l : List α) :
    (listSort cmp l).Pairwise (cmp · · ≤ 0) ∧ (listSort cmp l).Perm l ∧
      ∀ a, (listSort cmp l).filter (cmp a · = 0) = l.filter (cmp a · = 0) := by
  by_cases hne : l = []
  · subst hne
    exact ⟨.nil, .refl _, fun _ => rfl⟩
  · let R (chain joined : List α) : Prop :=
      chain.Pairwise (cmp · · ≤ 0) ∧ ∀ a, chain.filter (cmp a · = 0) = joined.filter (cmp a · = 0)
    have hsingle : List.Forall₂ (fun a c => R [a] c) l (l.map fun a => [a]) :=
      List.forall₂_map_right_iff.mpr (List.forall₂_same.mpr fun a _ => ⟨List.pairwise_singleton _ _, fun _ => rfl⟩)
    have hmerge : ∀ f f' s s' : List α, R f f' → R s s' → R (chainMergeDegenerated cmp f s) (f' ++ s') := by
      intro f f' s s' hf hs
      rw [hc.chainMergeDegenerated_eq hf.1 hs.1]
      refine ⟨hc.chainMerge_sorted hf.1 hs.1, fun a => ?_⟩
      rw [hc.filter_chainMerge hf.1, hf.2, hs.2, List.filter_append]
    obtain ⟨c, hsome, hsorted, hfilter⟩ := listSort_rel hmerge hsingle hne
    have hjoin := chainMergesort_append l
    rw [hsome] at hjoin
    exact ⟨hsorted, listSort_perm l, hjoin ▸ hfilter⟩

theorem listSort_stable_pairs :
    let cmp : ℕ × ℕ → ℕ × ℕ → ℤ := fun x y => x.1 - y.1
    let l := [(2, 0), (1, 1), (2, 2)]
    (listSort cmp l).Pairwise (cmp · · ≤ 0) ∧ (listSort cmp l).Perm l ∧
      ∀ a, (listSort cmp l).filter (cmp a · = 0) = l.filter (cmp a · = 0) := by
  refine listSort_stable ⟨?_, ?_⟩ _ <;> grind

end Stable

end NCam.Tommy
