import NCam.Util.Strings
import Mathlib.Data.List.SplitBy
import Mathlib.Data.List.TakeWhile

/-! Texts put together from tokens and their delimiter, and what `strtok` makes of their beginnings. -/
namespace NCam.Util

section Pieces

variable {c : Char} {s t : List Char}

theorem cutAt_of_notMem (h : c ∉ s) : cutAt c s = (s, none) := by
  have hdrop : s.dropWhile (· ≠ c) = [] := by
    rw [List.dropWhile_eq_nil_iff]
    intro x hx
    have hne : x ≠ c := fun heq => h (heq ▸ hx)
    exact decide_eq_true hne
  unfold cutAt
  rw [hdrop]

theorem cutAt_append (h : c ∉ s) : cutAt c (s ++ c :: t) = (s, some t) := by
  have hpass : ∀ x ∈ s, decide (x ≠ c) = true := by
    intro x hx
    have hne : x ≠ c := fun heq => h (heq ▸ hx)
    exact decide_eq_true hne
  have hdrop : (s ++ c :: t).dropWhile (· ≠ c) = c :: t := by
    rw [List.dropWhile_append_of_pos hpass, List.dropWhile_cons_of_neg (by simp)]
  have htake : (s ++ c :: t).takeWhile (· ≠ c) = s := by
    rw [List.takeWhile_append_of_pos hpass, List.takeWhile_cons_of_neg (by simp), List.append_nil]
  unfold cutAt
  rw [hdrop]
  dsimp only
  rw [htake]

/-- There is nothing to remove. -/
theorem trim_of_noBlank (h : ∀ x ∈ s, isBlank x = false) : trim s = s := by
  have hhead : s.head? ≠ some ' ' := by
    intro hs
    have hblank := h ' ' (List.mem_of_mem_head? hs)
    revert hblank
    decide
  have hback : s.reverse.dropWhile isBlank = s.reverse := by
    cases hr : s.reverse with
    | nil => rfl
    | cons x xs =>
      have hx : x ∈ s := by
        rw [← List.mem_reverse, hr]
        exact List.mem_cons_self
      rw [List.dropWhile_cons_of_neg]
      rw [h x hx]
      exact Bool.false_ne_true
  unfold trim
  rw [if_neg hhead]
  dsimp only
  rw [hback, List.reverse_reverse]

/-- A character in front that is no blank stays in front. -/
theorem trim_cons {c : Char} (hc : isBlank c = false) : ∃ t, trim (c :: s) = c :: t := by
  have hspace : (c :: s).head? ≠ some ' ' := by
    rintro ⟨rfl⟩
    cases hc
  have hback : ∃ t, (c :: s).reverse.dropWhile isBlank = t ++ [c] := by
    rw [List.reverse_cons, List.dropWhile_append]
    split_ifs
    · exact ⟨[], by simp [hc]⟩
    · exact ⟨_, rfl⟩
  obtain ⟨t, ht⟩ := hback
  refine ⟨t.reverse, ?_⟩
  unfold trim
  rw [if_neg hspace]
  dsimp only
  rw [ht, List.reverse_append]
  rfl

end Pieces

section Tokens

variable {delim : Char} {s t : List Char}

private theorem isChain_token (h : delim ∉ t) :
    t.IsChain fun a b => (decide (a ≠ delim) && decide (b ≠ delim)) = true := by
  induction t with
  | nil => exact List.isChain_nil
  | cons a t ih =>
    rw [List.mem_cons, not_or] at h
    refine List.isChain_cons.mpr ⟨?_, ih h.2⟩
    intro b hb
    have hne : b ≠ delim := fun heq => h.2 (heq ▸ List.mem_of_mem_head? hb)
    rw [decide_eq_true (Ne.symm h.1), decide_eq_true hne]
    rfl

theorem strtok_nil : strtok delim [] = [] := rfl

/-- A text without the delimiter is one token. -/
theorem strtok_token (hne : t ≠ []) (h : delim ∉ t) : strtok delim t = [t] := by
  unfold strtok
  rw [List.splitBy_of_isChain hne (isChain_token h), List.filter_cons_of_pos (by simp [h]),
    List.filter_nil]

private theorem strtok_delim_cons : strtok delim (delim :: s) = strtok delim s := by
  have hsplit : (delim :: s).splitBy (fun a b => decide (a ≠ delim) && decide (b ≠ delim)) =
      [delim] :: s.splitBy fun a b => decide (a ≠ delim) && decide (b ≠ delim) := by
    cases s with
    | nil => rfl
    | cons b s =>
      have h := List.splitBy_append_cons (r := fun a b => decide (a ≠ delim) && decide (b ≠ delim))
        (l := [delim]) (a := b) s (by simp)
      rw [List.singleton_append] at h
      rw [h]
      rfl
  unfold strtok
  rw [hsplit, List.filter_cons_of_neg (by simp)]

/-- A delimiter separates what is before it from what is behind. -/
theorem strtok_append_delim : strtok delim (s ++ delim :: t) = strtok delim s ++ strtok delim t := by
  cases s with
  | nil => exact strtok_delim_cons
  | cons a s =>
    have hsplit := List.splitBy_append_cons
      (r := fun a b => decide (a ≠ delim) && decide (b ≠ delim)) (l := a :: s) (a := delim) t (by simp)
    have hrest := @strtok_delim_cons delim t
    unfold strtok at hrest ⊢
    rw [hsplit, List.filter_append, hrest]

/-- A token holds characters of the text, and not the delimiter. -/
theorem mem_of_mem_strtok {c : Char} (ht : t ∈ strtok delim s) (hc : c ∈ t) : c ∈ s ∧ c ≠ delim := by
  unfold strtok at ht
  rw [List.mem_filter] at ht
  constructor
  · have hflat := List.flatten_splitBy (fun a b => decide (a ≠ delim) && decide (b ≠ delim)) s
    rw [← hflat]
    exact List.mem_flatten.mpr ⟨t, ht.1, hc⟩
  · rintro rfl
    have hout := ht.2
    simp [hc] at hout

/-- The token before the first delimiter. -/
theorem strtok_append (hne : t ≠ []) (h : delim ∉ t) :
    strtok delim (t ++ delim :: s) = t :: strtok delim s := by
  have hsplit := List.splitBy_append_cons
    (r := fun a b => decide (a ≠ delim) && decide (b ≠ delim)) (l := t) (a := delim) s (by simp)
  have hrest := @strtok_delim_cons delim s
  have hfirst := strtok_token hne h
  unfold strtok at hrest hfirst ⊢
  rw [hsplit, List.filter_append, hrest, hfirst]
  rfl

end Tokens

/-- Tokens with the delimiter between them. -/
def joinTokens (delim : Char) : List (List Char) → List Char
  | [] => []
  | [t] => t
  | t :: u :: ts => t ++ delim :: joinTokens delim (u :: ts)

/-- Texts that `strtok` can return. -/
def AreTokens (delim : Char) (ts : List (List Char)) : Prop := ∀ t ∈ ts, t ≠ [] ∧ delim ∉ t

section Join

variable {delim : Char} {t u : List Char} {ts : List (List Char)} {m : ℕ}

/-- The pieces in the order in which a loop prints them, a delimiter before every token but the first. -/
theorem joinTokens_cons :
    joinTokens delim (t :: ts) = t ++ (ts.map fun u => delim :: u).flatten := by
  induction ts generalizing t with
  | nil => exact (List.append_nil t).symm
  | cons u ts ih =>
    change t ++ delim :: joinTokens delim (u :: ts) = _
    rw [ih]
    rfl

theorem mem_joinTokens {c : Char} (h : c ∈ joinTokens delim ts) : c = delim ∨ ∃ t ∈ ts, c ∈ t := by
  induction ts with
  | nil => exact absurd h List.not_mem_nil
  | cons t ts ih =>
    cases ts with
    | nil => exact Or.inr ⟨t, List.mem_cons_self, h⟩
    | cons u ts =>
      change c ∈ t ++ delim :: joinTokens delim (u :: ts) at h
      rcases List.mem_append.mp h with h | h
      · exact Or.inr ⟨t, List.mem_cons_self, h⟩
      · rcases List.mem_cons.mp h with h | h
        · exact Or.inl h
        · rcases ih h with h | ⟨v, hv, hc⟩
          · exact Or.inl h
          · exact Or.inr ⟨v, List.mem_cons_of_mem t hv, hc⟩

/-- The last token in two. -/
theorem joinTokens_append_two : joinTokens delim (ts ++ [t ++ delim :: u]) = joinTokens delim (ts ++ [t, u]) := by
  induction ts with
  | nil => rfl
  | cons v ts ih =>
    obtain ⟨w, ws, hws⟩ : ∃ w ws, ts ++ [t ++ delim :: u] = w :: ws :=
      List.exists_cons_of_ne_nil (by simp)
    obtain ⟨x, xs, hxs⟩ : ∃ x xs, ts ++ [t, u] = x :: xs := List.exists_cons_of_ne_nil (by simp)
    rw [hws, hxs] at ih
    rw [List.cons_append, List.cons_append, hws, hxs]
    change v ++ delim :: joinTokens delim (w :: ws) = v ++ delim :: joinTokens delim (x :: xs)
    rw [ih]

/-- A token at the end. -/
theorem joinTokens_concat :
    joinTokens delim (ts ++ [t]) = joinTokens delim ts ++ if ts = [] then t else delim :: t := by
  cases ts with
  | nil => rfl
  | cons u ts =>
    rw [List.cons_append, joinTokens_cons, joinTokens_cons, if_neg (List.cons_ne_nil u ts), List.map_append,
      List.flatten_append, List.append_assoc]
    simp

/-- A text behind the last token belongs to it. -/
theorem joinTokens_append_last : joinTokens delim (ts ++ [t ++ u]) = joinTokens delim (ts ++ [t]) ++ u := by
  rw [joinTokens_concat, joinTokens_concat]
  by_cases hnil : ts = []
  · rw [if_pos hnil, if_pos hnil, List.append_assoc]
  · rw [if_neg hnil, if_neg hnil, List.append_assoc, List.cons_append]

theorem strtok_joinTokens (h : AreTokens delim ts) : strtok delim (joinTokens delim ts) = ts := by
  induction ts with
  | nil => rfl
  | cons t ts ih =>
    obtain ⟨hne, hout⟩ := h t List.mem_cons_self
    cases ts with
    | nil => exact strtok_token hne hout
    | cons u ts =>
      change strtok delim (t ++ delim :: joinTokens delim (u :: ts)) = _
      rw [strtok_append hne hout, ih fun x hx => h x (List.mem_cons_of_mem t hx)]

/-- The first `m` characters end in the first token. -/
theorem strtok_take_of_le (hout : delim ∉ t) (hm : m ≤ t.length) :
    strtok delim ((joinTokens delim (t :: ts)).take m) = if m = 0 then [] else [t.take m] := by
  have htake : (joinTokens delim (t :: ts)).take m = t.take m := by
    rw [joinTokens_cons, List.take_append_of_le_length hm]
  rw [htake]
  by_cases hzero : m = 0
  · rw [if_pos hzero, hzero]
    rfl
  · rw [if_neg hzero]
    by_cases hnil : t = []
    · rw [hnil, List.length_nil] at hm
      omega
    · apply strtok_token
      · intro h
        rw [List.take_eq_nil_iff] at h
        rcases h with h | h
        · exact hzero h
        · exact hnil h
      · exact fun h => hout (List.mem_of_mem_take h)

/-- They go beyond the first token. -/
theorem strtok_take_of_gt (hne : t ≠ []) (hout : delim ∉ t) (hm : t.length < m) :
    strtok delim ((joinTokens delim (t :: u :: ts)).take m) =
      t :: strtok delim ((joinTokens delim (u :: ts)).take (m - (t.length + 1))) := by
  obtain ⟨k, rfl⟩ : ∃ k, m = t.length + (k + 1) := ⟨m - t.length - 1, by omega⟩
  change strtok delim ((t ++ delim :: joinTokens delim (u :: ts)).take (t.length + (k + 1))) = _
  rw [List.take_length_add_append, List.take_succ_cons, strtok_append hne hout]
  congr 3
  omega

/-- A beginning of the text has no more tokens than the text. -/
theorem length_strtok_take_le (h : AreTokens delim ts) :
    (strtok delim ((joinTokens delim ts).take m)).length ≤ ts.length := by
  induction ts generalizing m with
  | nil =>
    change (strtok delim (List.take m [])).length ≤ 0
    rw [List.take_nil, strtok_nil]
    exact Nat.le_refl 0
  | cons t ts ih =>
    obtain ⟨hne, hout⟩ := h t List.mem_cons_self
    rcases Nat.lt_or_ge t.length m with hgt | hle
    · cases ts with
      | nil =>
        change (strtok delim (t.take m)).length ≤ 1
        rw [List.take_of_length_le (by omega), strtok_token hne hout]
        exact Nat.le_refl 1
      | cons u ts =>
        rw [strtok_take_of_gt hne hout hgt, List.length_cons]
        exact Nat.succ_le_succ (ih fun v hv => h v (List.mem_cons_of_mem t hv))
    · rw [strtok_take_of_le hout hle]
      split_ifs
      · exact Nat.zero_le _
      · exact Nat.succ_le_succ (Nat.zero_le _)

end Join

section Parse

variable {β : Type} {delim : Char} {parse : List Char → Option β} {t : List Char}
  {ts : List (List Char)} {x : β} {xs : List β} {m : ℕ}

/-- Reading tokens that are read one by one as `xs`. -/
theorem parse_joinTokens (h : AreTokens delim ts) (hparse : ts.map parse = xs.map some) :
    (strtok delim (joinTokens delim ts)).filterMap parse = xs := by
  have hmap : ∀ ts : List (List Char), ts.filterMap parse = (ts.map parse).filterMap id := by
    intro ts
    rw [List.filterMap_map]
    rfl
  rw [strtok_joinTokens h, hmap, hparse, List.filterMap_map]
  exact List.filterMap_some

/-- A reading that keeps what another one keeps, and as it does, keeps more unless they agree. -/
theorem filterMap_eq_iff {α : Type} {f g : α → Option β} {l : List α}
    (h : ∀ a ∈ l, ∀ b, g a = some b → f a = some b) :
    l.filterMap f = l.filterMap g ↔ ∀ a ∈ l, f a = g a := by
  have hlen : ∀ l : List α, (∀ a ∈ l, ∀ b, g a = some b → f a = some b) →
      (l.filterMap g).length ≤ (l.filterMap f).length := by
    intro l hl
    induction l with
    | nil => exact Nat.le_refl 0
    | cons a l ih =>
      obtain ⟨ha, hl⟩ := List.forall_mem_cons.mp hl
      have hrest := ih hl
      cases hg : g a with
      | none => cases hf : f a <;> simp [hg, hf] <;> omega
      | some b => simp [hg, ha b hg, hrest]
  constructor
  · intro heq
    induction l with
    | nil => exact fun a ha => absurd ha List.not_mem_nil
    | cons a l ih =>
      obtain ⟨ha, hl⟩ := List.forall_mem_cons.mp h
      have hrest := hlen l hl
      rw [List.forall_mem_cons]
      cases hg : g a with
      | none =>
        cases hf : f a with
        | none =>
          rw [List.filterMap_cons_none hf, List.filterMap_cons_none hg] at heq
          exact ⟨rfl, ih hl heq⟩
        | some b =>
          have hmore := congrArg List.length heq
          rw [List.filterMap_cons_some hf, List.filterMap_cons_none hg, List.length_cons] at hmore
          omega
      | some b =>
        rw [List.filterMap_cons_some (ha b hg), List.filterMap_cons_some hg] at heq
        exact ⟨ha b hg, ih hl (List.cons.inj heq).2⟩
  · exact List.filterMap_congr

/-- The place at which the last token starts. -/
def lastStart (ts : List (List Char)) : ℕ := (ts.map fun t => t.length + 1).sum

theorem length_joinTokens_append :
    (joinTokens delim (ts ++ [t])).length = lastStart ts + t.length := by
  induction ts with
  | nil => exact (Nat.zero_add t.length).symm
  | cons u ts ih =>
    have hcons : joinTokens delim (u :: ts ++ [t]) = u ++ delim :: joinTokens delim (ts ++ [t]) := by
      cases ts <;> rfl
    rw [hcons, List.length_append, List.length_cons, ih]
    unfold lastStart
    rw [List.map_cons, List.sum_cons]
    omega

/-- Every token with its delimiter, the last one with the final zero in place of it. -/
theorem length_joinTokens_succ (hne : ts ≠ []) : (joinTokens delim ts).length + 1 = lastStart ts := by
  have hlast := List.dropLast_concat_getLast hne
  have hlen := @length_joinTokens_append delim (ts.getLast hne) ts.dropLast
  rw [hlast] at hlen
  rw [hlen]
  unfold lastStart
  nth_rewrite 3 [← hlast]
  rw [List.map_append, List.sum_append]
  rfl

theorem lastStart_le {w : ℕ} (h : ∀ t ∈ ts, t.length ≤ w) : lastStart ts ≤ (w + 1) * ts.length := by
  induction ts with
  | nil => exact Nat.zero_le _
  | cons t ts ih =>
    obtain ⟨ht, hts⟩ := List.forall_mem_cons.mp h
    have hrest := ih hts
    unfold lastStart at hrest ⊢
    rw [List.map_cons, List.sum_cons, List.length_cons, Nat.mul_succ]
    omega

/-- The text is cut in its last token. -/
theorem take_joinTokens_append : (joinTokens delim (ts ++ [t])).take (lastStart ts + m) =
    joinTokens delim (ts ++ [t.take m]) := by
  induction ts with
  | nil =>
    change t.take (0 + m) = t.take m
    rw [Nat.zero_add]
  | cons u ts ih =>
    have hcons : ∀ t, joinTokens delim (u :: ts ++ [t]) = u ++ delim :: joinTokens delim (ts ++ [t]) := by
      intro t
      cases ts <;> rfl
    have hstart : lastStart (u :: ts) + m = u.length + (lastStart ts + m + 1) := by
      unfold lastStart
      rw [List.map_cons, List.sum_cons]
      omega
    rw [hcons, hcons, hstart, List.take_length_add_append, List.take_succ_cons, ih]

theorem drop_joinTokens_append : (joinTokens delim (ts ++ [t])).drop (lastStart ts + m) = t.drop m := by
  have hsplit : joinTokens delim (ts ++ [t]) =
      (joinTokens delim (ts ++ [t])).take (lastStart ts + m) ++ t.drop m := by
    rw [take_joinTokens_append, ← joinTokens_append_last, List.take_append_drop]
  have hwhole := List.take_append_drop (lastStart ts + m) (joinTokens delim (ts ++ [t]))
  exact List.append_cancel_left (hwhole.trans hsplit)

/-- A beginning of the text is read like the whole of it only if nothing but a part of the last token is
missing, and that token is read alike. -/
theorem parse_take_iff (h : AreTokens delim (ts ++ [t])) (hparse : ts.map parse = xs.map some) :
    (strtok delim ((joinTokens delim (ts ++ [t])).take m)).filterMap parse = xs ++ [x] ↔
      lastStart ts < m ∧ parse (t.take (m - lastStart ts)) = some x := by
  induction ts generalizing xs m with
  | nil =>
    have hxs : xs = [] := by
      cases xs with
      | nil => rfl
      | cons y ys => cases hparse
    obtain ⟨hne, hout⟩ := h t (List.mem_append_right [] List.mem_cons_self)
    have hstart : lastStart [] = 0 := rfl
    have hmin : (joinTokens delim [t]).take m = (joinTokens delim [t]).take (min m t.length) := by
      change t.take m = t.take (min m t.length)
      rw [List.take_eq_take_min]
    have htake : t.take (min m t.length) = t.take m := (List.take_eq_take_min).symm
    have hlen : 0 < t.length := List.length_pos_of_ne_nil hne
    rw [hxs, hstart, Nat.sub_zero, List.nil_append, List.nil_append, hmin,
      strtok_take_of_le hout (Nat.min_le_right m t.length), htake]
    by_cases hzero : m = 0
    · rw [if_pos (by omega)]
      constructor
      · intro hnil
        cases hnil
      · intro hpos
        omega
    · rw [if_neg (by omega)]
      cases hx : parse (t.take m) with
      | none => simp [hx]
      | some y =>
        rw [List.filterMap_cons_some hx, List.filterMap_nil]
        constructor
        · intro hy
          injection hy with hy
          exact ⟨by omega, congrArg some hy⟩
        · intro hy
          rw [Option.some.inj hy.2]
  | cons u ts ih =>
    cases xs with
    | nil => cases hparse
    | cons y ys =>
      rw [List.map_cons, List.map_cons, List.cons.injEq] at hparse
      obtain ⟨hne, hout⟩ := h u List.mem_cons_self
      have hrest : AreTokens delim (ts ++ [t]) := fun v hv => h v (List.mem_cons_of_mem u hv)
      obtain ⟨v, vs, hvs⟩ : ∃ v vs, ts ++ [t] = v :: vs := by
        cases ts with
        | nil => exact ⟨t, [], rfl⟩
        | cons v vs => exact ⟨v, vs ++ [t], rfl⟩
      have hstart : lastStart (u :: ts) = u.length + 1 + lastStart ts := by
        unfold lastStart
        rw [List.map_cons, List.sum_cons]
      rw [List.cons_append, List.cons_append, hvs]
      rcases Nat.lt_or_ge u.length m with hgt | hle
      · rw [strtok_take_of_gt hne hout hgt, List.filterMap_cons_some hparse.1, List.cons.injEq,
          ← hvs, ih hrest hparse.2, hstart]
        have hsub : m - (u.length + 1) - lastStart ts = m - (u.length + 1 + lastStart ts) := by omega
        rw [hsub]
        constructor
        · rintro ⟨-, hlt, hx⟩
          exact ⟨by omega, hx⟩
        · rintro ⟨hlt, hx⟩
          exact ⟨rfl, by omega, hx⟩
      · -- at most one token is left, and two are needed
        have hshort : ((strtok delim ((joinTokens delim (u :: v :: vs)).take m)).filterMap parse).length ≤
            1 := by
          refine Nat.le_trans (List.length_filterMap_le _ _) ?_
          rw [strtok_take_of_le hout hle]
          by_cases hzero : m = 0
          · rw [if_pos hzero]
            exact Nat.zero_le 1
          · rw [if_neg hzero]
            exact Nat.le_refl 1
        constructor
        · intro heq
          rw [heq, List.length_cons, List.length_append, List.length_singleton] at hshort
          omega
        · rintro ⟨hlt, -⟩
          omega

end Parse

end NCam.Util
