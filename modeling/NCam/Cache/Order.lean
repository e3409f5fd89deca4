import NCam.Cache.Consistency

/-! The order of the words of a cache entry. `count_sort` never returns a negative value, so the sort
sees only whether two counts differ. -/
namespace NCam.Cache

open NCam.Lib NCam.Tommy

section Merging

/-- The least and greatest count of two merged runs; `none` when every count of the first run is
larger than every count of the second, which the merge then swaps. -/
def mergeRange : Option (ℕ × ℕ) → Option (ℕ × ℕ) → Option (ℕ × ℕ)
  | some (lo, hi), some (lo', hi') => if lo > hi' then none else some (min lo lo', max hi hi')
  | _, _ => none

/-- At most two different counts, and no merge of the sort swaps its runs. -/
def SortSafe (counts : List ℕ) : Prop :=
  counts.dedup.length ≤ 2 ∧
    chainMergesort mergeRange (counts.map fun c => some (c, c)) ≠ some none

instance (counts : List ℕ) : Decidable (SortSafe counts) :=
  inferInstanceAs (Decidable (_ ∧ _))

theorem sortSafe_singleton (c : ℕ) : SortSafe [c] := ⟨by simp, fun h => by cases h⟩

/-- Addresses in the order of non-increasing `c`. -/
def Desc (c : ℕ → ℕ) (l : List ℕ) : Prop := l.Pairwise fun a b => c b ≤ c a

variable {c : ℕ → ℕ} {h l : ℕ}

theorem Desc.congr {c' : ℕ → ℕ} {xs : List ℕ} (hd : Desc c xs) (hc : ∀ a ∈ xs, c' a = c a) :
    Desc c' xs :=
  List.Pairwise.imp_of_mem (fun ha hb hle => by rwa [hc _ ha, hc _ hb]) hd

theorem countSort_pos_iff (a b : ℕ) : 0 < countSort a b ↔ a ≠ b := by
  unfold countSort
  split_ifs with heq hgt
  · simp [heq]
  · simp [heq]
  · simp [heq]

theorem countSort_nonneg (a b : ℕ) : 0 ≤ countSort a b := Int.natCast_nonneg _

/-- The comparison that the cache sorts with. -/
private abbrev byCount (c : ℕ → ℕ) : ℕ → ℕ → ℤ := fun a b => countSort (c a) (c b)

private theorem desc_of_const {x : ℕ} {xs : List ℕ} (hx : ∀ a ∈ xs, c a = x) : Desc c xs :=
  List.pairwise_of_forall_mem_list fun a ha b hb => by rw [hx a ha, hx b hb]

/-- Runs with the smaller count only go behind the larger counts of the second run. -/
private theorem desc_chainMerge_low (hle : l ≤ h) {f s : List ℕ} (hf : ∀ a ∈ f, c a = l)
    (hs : ∀ a ∈ s, c a = h ∨ c a = l) (hds : Desc c s) : Desc c (chainMerge (byCount c) f s) := by
  cases f with
  | nil => exact hds
  | cons x xs =>
    have hx := hf x List.mem_cons_self
    induction s with
    | nil => exact desc_of_const hf
    | cons y ys ih =>
      have hperm := @chainMerge_perm _ (byCount c) (x :: xs) (y :: ys)
      obtain ⟨hy, hys⟩ := List.pairwise_cons.mp hds
      by_cases hxy : c x = c y
      · -- the second run is at its smaller count as well
        refine desc_of_const (x := l) fun a ha => ?_
        rcases List.mem_append.mp (hperm.mem_iff.mp ha) with ha | ha
        · exact hf a ha
        · have hle' : c a ≤ l := by
            rcases List.mem_cons.mp ha with rfl | ha
            · omega
            · have := hy a ha
              omega
          have := hs a ha
          omega
      · rw [chainMerge_cons_cons, if_pos ((countSort_pos_iff _ _).mpr hxy)]
        have hy' : c y = h := by
          have := hs y List.mem_cons_self
          omega
        refine List.pairwise_cons.mpr ⟨fun a ha => ?_,
          ih (fun a ha => hs a (List.mem_cons_of_mem _ ha)) hys⟩
        rcases List.mem_append.mp ((chainMerge_perm _ _).mem_iff.mp ha) with ha | ha
        · have := hf a ha
          omega
        · have := hs a (List.mem_cons_of_mem _ ha)
          omega

/-- A second run that starts with the larger count is merged in order. -/
private theorem desc_chainMerge_high (hle : l ≤ h) {f s : List ℕ} {y : ℕ}
    (hf : ∀ a ∈ f, c a = h ∨ c a = l) (hs : ∀ a ∈ y :: s, c a = h ∨ c a = l) (hy : c y = h)
    (hdf : Desc c f) (hds : Desc c (y :: s)) : Desc c (chainMerge (byCount c) f (y :: s)) := by
  induction f with
  | nil => exact hds
  | cons x xs ih =>
    obtain ⟨hx, hxs⟩ := List.pairwise_cons.mp hdf
    by_cases hxy : c x = c y
    · have hnot : ¬ byCount c x y > 0 := fun hp => (countSort_pos_iff _ _).mp hp hxy
      rw [chainMerge_cons_cons, if_neg hnot]
      refine List.pairwise_cons.mpr ⟨fun a ha => ?_,
        ih (fun a ha => hf a (List.mem_cons_of_mem _ ha)) hxs⟩
      rcases List.mem_append.mp ((chainMerge_perm _ _).mem_iff.mp ha) with ha | ha
      · exact hx a ha
      · have := hs a ha
        omega
    · refine desc_chainMerge_low hle (fun a ha => ?_) hs hds
      have hxl := hf x List.mem_cons_self
      rcases List.mem_cons.mp ha with rfl | ha'
      · omega
      · have := hx a ha'
        have := hf a ha
        omega

/-- A run as `mergeRange` sees it. -/
private structure Run (c : ℕ → ℕ) (h l : ℕ) (run : List ℕ) (range : ℕ × ℕ) : Prop where
  bounds : ∀ a ∈ run, range.1 ≤ c a ∧ c a ≤ range.2
  least : ∃ a ∈ run, c a = range.1
  greatest : ∃ a ∈ run, c a = range.2
  values : ∀ a ∈ run, c a = h ∨ c a = l
  desc : Desc c run

private theorem getLast_le {f : List ℕ} {x : ℕ} (hd : Desc c f) (hx : f.getLast? = some x) :
    ∀ a ∈ f, c x ≤ c a := by
  obtain ⟨init, rfl⟩ := List.getLast?_eq_some_iff.mp hx
  intro a ha
  rcases List.mem_append.mp ha with ha | ha
  · exact (List.pairwise_append.mp hd).2.2 a ha x List.mem_cons_self
  · rw [List.mem_singleton.mp ha]

private theorem desc_merge (hle : l ≤ h) {f s : List ℕ} {rf rs : ℕ × ℕ} (hf : Run c h l f rf)
    (hs : Run c h l s rs) (hsafe : ¬ rf.1 > rs.2) :
    Desc c (chainMergeDegenerated (byCount c) f s) := by
  obtain ⟨lowest, hlow, hlowest⟩ := hf.least
  obtain ⟨highest, hhigh, hhighest⟩ := hs.greatest
  obtain ⟨y, ys, rfl⟩ : ∃ y ys, s = y :: ys := List.exists_cons_of_ne_nil (List.ne_nil_of_mem hhigh)
  obtain ⟨x, hx⟩ : ∃ x, f.getLast? = some x :=
    Option.isSome_iff_exists.mp (List.getLast?_isSome.mpr (List.ne_nil_of_mem hlow))
  obtain ⟨head, hhead⟩ : ∃ head, f.head? = some head := by
    cases f with
    | nil => exact absurd hlow List.not_mem_nil
    | cons head _ => exact ⟨head, rfl⟩
  obtain ⟨tail, htail⟩ : ∃ tail, (y :: ys).getLast? = some tail :=
    Option.isSome_iff_exists.mp (List.getLast?_isSome.mpr (List.cons_ne_nil y ys))
  have hlast := getLast_le hf.desc hx
  have hxmem := List.mem_of_getLast? hx
  obtain ⟨hy, hys⟩ := List.pairwise_cons.mp hs.desc
  unfold chainMergeDegenerated
  simp only [hx, hhead, htail, List.head?_cons]
  by_cases hxy : c x = c y
  · -- the runs meet at one count
    have hzero : byCount c x y ≤ 0 := by
      have := mt (countSort_pos_iff (c x) (c y)).mp (not_not.mpr hxy)
      change countSort (c x) (c y) ≤ 0
      omega
    rw [if_pos hzero]
    refine List.pairwise_append.mpr ⟨hf.desc, hs.desc, fun a ha b hb => ?_⟩
    have hxa := hlast a ha
    rcases List.mem_cons.mp hb with rfl | hb
    · omega
    · have := hy b hb
      omega
  · have hpos := (countSort_pos_iff (c x) (c y)).mpr hxy
    have hnonneg := countSort_nonneg (c tail) (c head)
    rw [if_neg (by change ¬ countSort (c x) (c y) ≤ 0; omega),
      if_neg (by change ¬ countSort (c tail) (c head) < 0; omega)]
    have hyh : c y = h := by
      by_contra hne
      have hyl := hs.values y List.mem_cons_self
      have hxl := hf.values x hxmem
      have hmin := hlast lowest hlow
      have hmax : c highest ≤ c y := by
        rcases List.mem_cons.mp hhigh with rfl | hin
        · exact le_rfl
        · exact hy highest hin
      omega
    exact desc_chainMerge_high hle hf.values hs.values hyh hf.desc hs.desc

private theorem run_merge (hle : l ≤ h) {f s : List ℕ} {rf rs : Option (ℕ × ℕ)}
    (hf : ∀ r, rf = some r → Run c h l f r) (hs : ∀ r, rs = some r → Run c h l s r) (r : ℕ × ℕ)
    (hr : mergeRange rf rs = some r) : Run c h l (chainMergeDegenerated (byCount c) f s) r := by
  match rf, rs, hf, hs, hr with
  | some (lo, hi), some (lo', hi'), hf, hs, hr =>
    have hf := hf _ rfl
    have hs := hs _ rfl
    simp only [mergeRange] at hr
    split_ifs at hr with hsafe
    obtain rfl := Option.some.inj hr
    have hmem : ∀ a, a ∈ chainMergeDegenerated (byCount c) f s ↔ a ∈ f ∨ a ∈ s :=
      fun a => (chainMergeDegenerated_perm f s).mem_iff.trans List.mem_append
    refine ⟨fun a ha => ?_, ?_, ?_, fun a ha => ?_, desc_merge hle hf hs hsafe⟩
    · rcases (hmem a).mp ha with ha | ha
      · have := hf.bounds a ha
        dsimp only at this ⊢
        omega
      · have := hs.bounds a ha
        dsimp only at this ⊢
        omega
    · obtain ⟨a, ha, hca⟩ := hf.least
      obtain ⟨b, hb, hcb⟩ := hs.least
      rcases le_total lo lo' with hlo | hlo
      · exact ⟨a, (hmem a).mpr (.inl ha), by rw [hca]; exact (min_eq_left hlo).symm⟩
      · exact ⟨b, (hmem b).mpr (.inr hb), by rw [hcb]; exact (min_eq_right hlo).symm⟩
    · obtain ⟨a, ha, hca⟩ := hf.greatest
      obtain ⟨b, hb, hcb⟩ := hs.greatest
      rcases le_total hi hi' with hhi | hhi
      · exact ⟨b, (hmem b).mpr (.inr hb), by rw [hcb]; exact (max_eq_right hhi).symm⟩
      · exact ⟨a, (hmem a).mpr (.inl ha), by rw [hca]; exact (max_eq_left hhi).symm⟩
    · exact ((hmem a).mp ha).elim (hf.values a) (hs.values a)

private theorem two_values {counts : List ℕ} (h2 : counts.dedup.length ≤ 2) :
    ∃ h l, l ≤ h ∧ ∀ x ∈ counts, x = h ∨ x = l := by
  match hd : counts.dedup, h2 with
  | [], _ =>
    refine ⟨0, 0, le_rfl, fun x hx => ?_⟩
    rw [← List.mem_dedup, hd] at hx
    exact absurd hx List.not_mem_nil
  | [u], _ =>
    refine ⟨u, u, le_rfl, fun x hx => ?_⟩
    rw [← List.mem_dedup, hd] at hx
    exact .inl (List.mem_singleton.mp hx)
  | [u, v], _ =>
    refine ⟨max u v, min u v, by omega, fun x hx => ?_⟩
    rw [← List.mem_dedup, hd, List.mem_cons, List.mem_singleton] at hx
    omega

/-- A sort that is safe for these counts sorts. -/
theorem SortSafe.desc {xs : List ℕ} (hsafe : SortSafe (xs.map c)) :
    Desc c (listSort (byCount c) xs) := by
  by_cases hne : xs = []
  · subst hne
    exact List.Pairwise.nil
  obtain ⟨h2, hmerges⟩ := hsafe
  obtain ⟨h, l, hle, hvals⟩ := two_values h2
  have hsingle : List.Forall₂ (fun a (r : Option (ℕ × ℕ)) => ∀ p, r = some p → Run c h l [a] p)
      xs ((xs.map c).map fun x => some (x, x)) := by
    rw [List.map_map]
    refine List.forall₂_map_right_iff.mpr (List.forall₂_same.mpr fun a ha p hp => ?_)
    obtain rfl := Option.some.inj hp
    refine ⟨fun b hb => ?_, ⟨a, by simp⟩, ⟨a, by simp⟩, fun b hb => ?_, List.pairwise_singleton _ _⟩
    · rw [List.mem_singleton.mp hb]
      exact ⟨le_rfl, le_rfl⟩
    · rw [List.mem_singleton.mp hb]
      exact hvals (c a) (List.mem_map_of_mem ha)
  obtain ⟨r, hr, hrun⟩ := listSort_rel
    (R := fun run (r : Option (ℕ × ℕ)) => ∀ p, r = some p → Run c h l run p)
    (fun f f' s s' hf hs => run_merge hle hf hs) hsingle hne
  cases r with
  | none => exact absurd hr hmerges
  | some p => exact (hrun p rfl).desc

end Merging

namespace EcmCache

variable (hashCsp : ℕ → ℕ) (hashCw : CwBytes → ℕ)

/-- The words of every entry are in the order of non-increasing count, and `get_first_cw` finds the
largest count of its parity. -/
def Ordered (s : EcmCache) : Prop :=
  ∀ e ecmhash, s.ecmHash e = some ecmhash →
    Desc s.count ecmhash.cws.ll ∧ ∀ oddEven,
      match s.getFirstCw ecmhash oddEven with
      | some a => a ∈ ecmhash.cws.ll ∧ (s.cw a).map Cw.oddEven = some oddEven ∧
          ∀ b ∈ ecmhash.cws.ll, (s.cw b).map Cw.oddEven = some oddEven → s.count b ≤ s.count a
      | none => ∀ b ∈ ecmhash.cws.ll, (s.cw b).map Cw.oddEven ≠ some oddEven

/-- No fault has happened and the entries are ordered. -/
def InOrder : State → Prop
  | .ok s => s.Ordered
  | .error _ => False

/-- The counts of an entry's words as `sort_list` gets them in a call of `add_cache`, with the received
word's count before the call; `none` when the call stores nothing or makes a new entry. -/
def countsToSort (s : EcmCache) (er : EcmRequest) (env : Env) : Option (List ℕ × ℕ) :=
  let after := fun before => countReceipt before (isLocalgenerated er env)
  if er.cspHash = 0 ∨ !env.cwCacheCheck then none
  else
    ((s.entries.findHashTable (s.compareCspHash er.cspHash) (hashCsp er.cspHash)).bind s.ecmHash).bind
      fun ecmhash =>
        match ecmhash.cws.findHashTable (s.compareCw er.cw) (hashCw er.cw) with
        | some a => some (ecmhash.cws.ll.map fun b => if b = a then after (s.count a) else s.count b,
            s.count a)
        | none =>
          if ecmhash.cws.countHashTable ≥ 10 then none
          else some (ecmhash.cws.ll.map s.count ++ [after 0], 0)

/-- The sort of the call, if it sorts, is safe for the counts it gets, and the received word's counter
does not overflow. -/
def SafeAdd : State → Action → Prop
  | .ok s, .add er env =>
    match s.countsToSort hashCsp hashCw er env with
    | some (counts, before) => before + 1 < 2 ^ 32 ∧
        (countReceipt before (isLocalgenerated er env) > 1 → SortSafe counts)
    | none => True
  | _, _ => True

/-- The invariant of ordered runs beyond consistency. -/
structure Sorted (s : EcmCache) : Prop where
  desc : ∀ e ecmhash, s.ecmHash e = some ecmhash → Desc s.count ecmhash.cws.ll
  positive : ∀ a cw, s.cw a = some cw → 1 ≤ cw.count ∧ cw.gotBadCwc = false

variable {hashCsp hashCw} {s t : EcmCache}

private theorem find?_desc {c : ℕ → ℕ} {xs : List ℕ} (hd : Desc c xs) {p : ℕ → Bool} {a : ℕ}
    (hf : xs.find? p = some a) : ∀ b ∈ xs, p b = true → c b ≤ c a := by
  induction xs with
  | nil => cases hf
  | cons x xs ih =>
    obtain ⟨hx, hxs⟩ := List.pairwise_cons.mp hd
    intro b hb hpb
    by_cases hpx : p x = true
    · rw [List.find?_cons_of_pos hpx] at hf
      obtain rfl := Option.some.inj hf
      rcases List.mem_cons.mp hb with rfl | hb
      · exact le_rfl
      · exact hx b hb
    · rw [List.find?_cons_of_neg hpx] at hf
      rcases List.mem_cons.mp hb with rfl | hb
      · exact absurd hpb hpx
      · exact ih hxs hf b hb hpb

/-- The test of `get_first_cw` on words that no cycle check has marked. -/
private theorem firstCw_test_iff (h : s.Sorted) (oddEven : BitVec 8) (a : ℕ) :
    (match s.cw a with
      | some cw => cw.oddEven == oddEven && !cw.gotBadCwc
      | none => false) = true ↔ (s.cw a).map Cw.oddEven = some oddEven := by
  cases ha : s.cw a with
  | none => simp
  | some cw => simp [(h.positive a cw ha).2]

theorem Sorted.ordered (h : s.Sorted) : s.Ordered := by
  intro e ecmhash he
  refine ⟨h.desc e ecmhash he, fun oddEven => ?_⟩
  cases hf : s.getFirstCw ecmhash oddEven with
  | none =>
    intro b hb hodd
    exact List.find?_eq_none.mp hf b hb ((firstCw_test_iff h oddEven b).mpr hodd)
  | some a =>
    have htest := List.find?_some (hf : ecmhash.cws.ll.find? _ = some a)
    exact ⟨List.mem_of_find?_eq_some hf, (firstCw_test_iff h oddEven a).mp htest,
      fun b hb hodd =>
        find?_desc (h.desc e ecmhash he) hf b hb ((firstCw_test_iff h oddEven b).mpr hodd)⟩

private theorem count_eq {a : ℕ} {cw : Cw} (ha : s.cw a = some cw) : s.count a = cw.count := by
  simp [count, ha]

private theorem lt_countReceipt {before : ℕ} (hb : before + 1 < 2 ^ 32) (lg : Bool) :
    before < countReceipt before lg := by
  have hle : before ≤ before ||| localgeneratedCount := Nat.left_le_or
  have hor : before ||| localgeneratedCount < 2 ^ 28 ∨ ¬ before < localgeneratedCount := by
    by_cases hlt : before < localgeneratedCount
    · exact .inl (Nat.or_lt_two_pow (by unfold localgeneratedCount at hlt; omega) (by decide))
    · exact .inr hlt
  unfold countReceipt
  dsimp only
  split_ifs <;> omega

/-- The receipt of a word: its entry is sorted unless its count stays at `1`. -/
private theorem sorted_receiveCw (h : s.Inv hashCsp hashCw) {e a : ℕ} {ecmhash : EcmHash} {cw : Cw}
    (he : s.ecmHash e = some ecmhash) (hmem : a ∈ ecmhash.cws.ll) (ha : s.cw a = some cw)
    (er : EcmRequest) (env : Env) (hbad : cw.gotBadCwc = false)
    (hothers : ∀ e' o, e' ≠ e → s.ecmHash e' = some o → Desc s.count o.cws.ll)
    (hpos : ∀ b c, b ≠ a → s.cw b = some c → 1 ≤ c.count ∧ c.gotBadCwc = false)
    (hafter : 1 ≤ countReceipt cw.count (isLocalgenerated er env))
    (hsafe : countReceipt cw.count (isLocalgenerated er env) > 1 → SortSafe (ecmhash.cws.ll.map
      fun b => if b = a then countReceipt cw.count (isLocalgenerated er env) else s.count b))
    (hone : countReceipt cw.count (isLocalgenerated er env) ≤ 1 → Desc
      (fun b => if b = a then countReceipt cw.count (isLocalgenerated er env) else s.count b)
      ecmhash.cws.ll) : (s.receiveCw e a cw er env).Sorted := by
  set new := receive cw er env with hnew
  have hnewCount : new.count = countReceipt cw.count (isLocalgenerated er env) := rfl
  set c : ℕ → ℕ := fun b => if b = a then new.count else s.count b
  -- the words and the lists after the call
  have hcw : (s.receiveCw e a cw er env).cw = Function.update s.cw a (some new) := by
    unfold receiveCw
    dsimp only
    split_ifs <;> rfl
  have hcount : (s.receiveCw e a cw er env).count = c := by
    funext b
    by_cases hb : b = a
    · subst hb
      simp [count, hcw, c]
    · simp [count, hcw, c, hb]
  have hecm : (s.receiveCw e a cw er env).ecmHash = Function.update s.ecmHash e (some { ecmhash with
      cws := if new.count > 1 then ecmhash.cws.sortList fun x y => countSort (c x) (c y)
        else ecmhash.cws }) := by
    set u : EcmCache := { s.setCw a new with
      lgCacheSize := if isLocalgenerated er env ∧ cw.count < localgeneratedCount then
        (s.lgCacheSize + 1) % 2 ^ 32 else s.lgCacheSize }
    have hu : u.count = c := by
      funext b
      by_cases hb : b = a
      · subst hb
        simp [count, u, setCw, c]
      · simp [count, u, setCw, c, hb]
    have heu : u.ecmHash e = some ecmhash := he
    change (if new.count > 1 then u.sortCws e else u).ecmHash = _
    by_cases hgt : new.count > 1
    · rw [if_pos hgt, if_pos hgt, sortCws_eq heu, hu]
      rfl
    · rw [if_neg hgt, if_neg hgt]
      exact (Function.update_eq_self_iff.mpr he.symm).symm
  refine ⟨fun e' o ho => ?_, fun b o ho => ?_⟩
  · rw [hcount]
    rw [hecm] at ho
    by_cases hee : e' = e
    · subst hee
      rw [Function.update_self] at ho
      obtain rfl := Option.some.inj ho
      by_cases hgt : new.count > 1
      · simp only [hgt, if_true]
        exact (hsafe hgt).desc
      · simp only [hgt, if_false]
        exact hone (not_lt.mp hgt)
    · rw [Function.update_of_ne hee] at ho
      refine (hothers e' o hee ho).congr fun b hb => if_neg ?_
      rintro rfl
      exact hee (h.cwOwned.disjoint e' e _ _ b (by simp [cwKids, ho]) (by simp [cwKids, he]) hb hmem)
  · rw [hcw] at ho
    by_cases hb : b = a
    · subst hb
      rw [Function.update_self] at ho
      obtain rfl := Option.some.inj ho
      exact ⟨hafter, hbad⟩
    · rw [Function.update_of_ne hb] at ho
      exact hpos b o hb ho

private theorem Sorted.of_cw_eq (h : s.Sorted) (hcw : t.cw = s.cw)
    (hlists : ∀ e o, t.ecmHash e = some o →
      o.cws.ll = [] ∨ ∃ o', s.ecmHash e = some o' ∧ o.cws.ll = o'.cws.ll) : t.Sorted := by
  have hcount : t.count = s.count := by
    funext a
    simp only [count, hcw]
  refine ⟨fun e o ho => ?_, fun a cw ha => h.positive a cw (hcw ▸ ha)⟩
  rcases hlists e o ho with hnil | ⟨o', ho', hll⟩
  · rw [hnil]
    exact List.Pairwise.nil
  · rw [hcount, hll]
    exact h.desc e o' ho'

private theorem sorted_storeCw (hinv : s.Inv hashCsp hashCw) (h : s.Sorted) {e : ℕ}
    {ecmhash : EcmHash} (he : s.ecmHash e = some ecmhash) {er : EcmRequest} {env : Env}
    (hfound : ∀ a, ecmhash.cws.findHashTable (s.compareCw er.cw) (hashCw er.cw) = some a →
      s.count a + 1 < 2 ^ 32 ∧ (countReceipt (s.count a) (isLocalgenerated er env) > 1 →
        SortSafe (ecmhash.cws.ll.map fun b =>
          if b = a then countReceipt (s.count a) (isLocalgenerated er env) else s.count b)))
    (hfresh : countReceipt 0 (isLocalgenerated er env) > 1 → SortSafe
      (ecmhash.cws.ll.map s.count ++ [countReceipt 0 (isLocalgenerated er env)]) ∨
        ecmhash.cws.findHashTable (s.compareCw er.cw) (hashCw er.cw) ≠ none ∨
        ecmhash.cws.countHashTable ≥ 10)
    {r : AddResult} (hr : s.storeCw hashCw e ecmhash er env = .ok r) : r.cache.Sorted := by
  have hothers : ∀ e' o, e' ≠ e → s.ecmHash e' = some o → Desc s.count o.cws.ll :=
    fun e' o _ ho => h.desc e' o ho
  unfold storeCw cwFor at hr
  cases hf : ecmhash.cws.findHashTable (s.compareCw er.cw) (hashCw er.cw) with
  | some a =>
    obtain ⟨hmem, hk⟩ := (hinv.words e ecmhash he).find_eq_some (fun a => (compareCw_iff _ a).mp) hf
    obtain ⟨cw, hcw, -⟩ := Option.map_eq_some_iff.mp hk
    simp only [hf, hcw] at hr
    obtain rfl := Except.ok.inj hr
    obtain ⟨hlt, hsafe⟩ := hfound a hf
    rw [count_eq hcw] at hlt hsafe
    obtain ⟨hone, hbad⟩ := h.positive a cw hcw
    have hafter := lt_countReceipt hlt (isLocalgenerated er env)
    exact sorted_receiveCw hinv he hmem hcw er env hbad hothers
      (fun b c _ hb => h.positive b c hb) (by omega) hsafe fun hle => absurd hle (by omega)
  | none =>
    simp only [hf] at hr
    split_ifs at hr with hlimit
    · obtain rfl := Except.ok.inj hr
      exact h
    · obtain ⟨hnone, hnoneCw, -⟩ := hinv.fresh s.nextAddr le_rfl
      have hnot : ∀ e' o, s.ecmHash e' = some o → s.nextAddr ∉ o.cws.ll := by
        intro e' o ho hm
        obtain ⟨cw, hcw, -⟩ := hinv.cw_of_mem ho hm
        exact ne_of_none hnoneCw hcw rfl
      have hfree := (hinv.words e ecmhash he).find_eq_none
        (fun a i hi => (compareCw_iff _ a).mpr ⟨i, hi⟩) hf
      have hlen := (hinv.words e ecmhash he).agree.count
      have hinv' := hinv.createCw he er hfree (by omega)
      set t := s.createCw hashCw e ecmhash er
      set new : EcmHash := { ecmhash with cws := ecmhash.cws.addHashTable s.nextAddr (hashCw er.cw) }
      have hcw : t.cw s.nextAddr = some (newCw er (hashCw er.cw)) := Function.update_self _ _ _
      have hold : ∀ b, b ≠ s.nextAddr → t.cw b = s.cw b := fun b hb => Function.update_of_ne hb _ _
      have hcount : ∀ b, b ≠ s.nextAddr → t.count b = s.count b := by
        intro b hb
        simp only [count, hold b hb]
      have hent : t.ecmHash e = some new := Function.update_self _ _ _
      have hll : new.cws.ll = ecmhash.cws.ll ++ [s.nextAddr] := rfl
      simp only [hcw] at hr
      obtain rfl := Except.ok.inj hr
      have hpos : 0 < countReceipt 0 (isLocalgenerated er env) := lt_countReceipt (by decide) _
      have hmap : new.cws.ll.map (fun b => if b = s.nextAddr then
          countReceipt 0 (isLocalgenerated er env) else t.count b) =
          ecmhash.cws.ll.map s.count ++ [countReceipt 0 (isLocalgenerated er env)] := by
        rw [hll, List.map_append, List.map_singleton, if_pos rfl]
        congr 1
        refine List.map_congr_left fun b hb => ?_
        have hne : b ≠ s.nextAddr := fun hee => hnot e ecmhash he (hee ▸ hb)
        rw [if_neg hne, hcount b hne]
      refine sorted_receiveCw hinv' hent (by simp [hll]) hcw er env rfl (fun e' o hee ho => ?_)
        (fun b c hb hc => h.positive b c (hold b hb ▸ hc)) hpos (fun hgt => ?_) fun hle => ?_
      · have ho' : s.ecmHash e' = some o := (Function.update_of_ne hee _ s.ecmHash).symm.trans ho
        exact (h.desc e' o ho').congr fun b hb => hcount b fun hbn => hnot e' o ho' (hbn ▸ hb)
      · rw [show (newCw er (hashCw er.cw)).count = 0 from rfl] at hgt ⊢
        rw [hmap]
        exact (hfresh hgt).resolve_right fun hx => hx.elim (fun hx => hx hf) fun hx => hlimit hx
      · -- the new word has the least possible count and stands last
        rw [show (newCw er (hashCw er.cw)).count = 0 from rfl] at hle ⊢
        rw [hll]
        refine List.pairwise_append.mpr ⟨(h.desc e ecmhash he).congr fun b hb => ?_,
          List.pairwise_singleton _ _, fun b hb x hx => ?_⟩
        · have hne : b ≠ s.nextAddr := fun hee => hnot e ecmhash he (hee ▸ hb)
          rw [if_neg hne, hcount b hne]
        · have hne : b ≠ s.nextAddr := fun hee => hnot e ecmhash he (hee ▸ hb)
          obtain ⟨cw, hcwb, -⟩ := hinv.cw_of_mem he hb
          have hb1 := (h.positive b cw hcwb).1
          rw [List.mem_singleton.mp hx]
          dsimp only
          rw [if_pos rfl, if_neg hne, hcount b hne, count_eq hcwb]
          omega

private theorem sorted_addCache (hinv : s.Inv hashCsp hashCw) (h : s.Sorted) {er : EcmRequest}
    {env : Env} (hg : SafeAdd hashCsp hashCw (.ok s) (.add er env)) {r : AddResult}
    (hr : s.addCache hashCsp hashCw er env = .ok r) : r.cache.Sorted := by
  unfold addCache at hr
  split_ifs at hr with hskip
  · obtain rfl := Except.ok.inj hr
    exact h
  unfold ecmHashFor at hr
  cases hf : s.entries.findHashTable (s.compareCspHash er.cspHash) (hashCsp er.cspHash) with
  | some e =>
    obtain ⟨hm, -⟩ := hinv.entries.find_eq_some (fun a => (compareCspHash_iff _ a).mp) hf
    obtain ⟨ecmhash, he⟩ := (hinv.mem_entries e).mp hm
    simp only [hf, he] at hr
    have hupd : (s.setEcmHash e { ecmhash with updTime := env.now }).Inv hashCsp hashCw :=
      hinv.setEcmHash he rfl (hinv.words e ecmhash he) (.refl _)
    have hsorted : (s.setEcmHash e { ecmhash with updTime := env.now }).Sorted := by
      refine h.of_cw_eq rfl fun e' o ho => .inr ?_
      by_cases hee : e' = e
      · subst hee
        obtain rfl : { ecmhash with updTime := env.now } = o := by simpa [setEcmHash] using ho
        exact ⟨ecmhash, he, rfl⟩
      · exact ⟨o, by simpa [setEcmHash, hee] using ho, rfl⟩
    simp only [SafeAdd, countsToSort, if_neg hskip, hf, Option.bind_some, he] at hg
    refine sorted_storeCw hupd hsorted (Function.update_self _ _ _) (fun a ha => ?_) (fun hgt => ?_) hr
    · change ecmhash.cws.findHashTable (s.compareCw er.cw) (hashCw er.cw) = some a at ha
      rw [ha] at hg
      exact hg
    · by_cases hnone : ecmhash.cws.findHashTable (s.compareCw er.cw) (hashCw er.cw) = none
      · by_cases hlimit : ecmhash.cws.countHashTable ≥ 10
        · exact .inr (.inr hlimit)
        · simp only [hnone, if_neg hlimit] at hg
          exact .inl (hg.2 hgt)
      · exact .inr (.inl hnone)
  | none =>
    simp only [hf] at hr
    by_cases hmalloc : env.malloc = true
    · have hfree := hinv.entries.find_eq_none (fun a i hi => (compareCspHash_iff _ a).mpr ⟨i, hi⟩) hf
      have hinv' := hinv.createEcmHash er env.now hfree
      set t := s.createEcmHash hashCsp er env.now
      obtain ⟨ecmhash, he, hnil⟩ : ∃ ecmhash, t.ecmHash s.nextAddr = some ecmhash ∧
          ecmhash.cws.ll = [] := ⟨_, Function.update_self _ _ _, rfl⟩
      simp only [if_pos hmalloc, he] at hr
      have hupd : (t.setEcmHash s.nextAddr { ecmhash with updTime := env.now }).Inv hashCsp hashCw :=
        hinv'.setEcmHash he rfl (hinv'.words _ ecmhash he) (.refl _)
      have hsorted : (t.setEcmHash s.nextAddr { ecmhash with updTime := env.now }).Sorted := by
        refine h.of_cw_eq rfl fun e' o ho => ?_
        by_cases hee : e' = s.nextAddr
        · subst hee
          obtain rfl : { ecmhash with updTime := env.now } = o := by simpa [setEcmHash] using ho
          exact .inl hnil
        · exact .inr ⟨o, by simpa [setEcmHash, t, createEcmHash, hee] using ho, rfl⟩
      refine sorted_storeCw hupd hsorted (Function.update_self _ _ _) (fun a ha => ?_) (fun _ => ?_) hr
      · obtain ⟨hm, -⟩ := (hinv'.words _ ecmhash he).find_eq_some
          (fun a => (compareCw_iff _ a).mp) (ha : ecmhash.cws.findHashTable _ _ = some a)
        rw [hnil] at hm
        exact absurd hm List.not_mem_nil
      · left
        rw [show ({ ecmhash with updTime := env.now } : EcmHash).cws.ll = [] from hnil]
        exact sortSafe_singleton _
    · simp only [if_neg hmalloc] at hr
      obtain rfl := Except.ok.inj hr
      exact h

private theorem sorted_step {act : Action} {st : State} (hinv : s.Inv hashCsp hashCw) (h : s.Sorted)
    (hg : SafeAdd hashCsp hashCw (.ok s) act) (ht : next hashCsp hashCw (.ok s) act = some st) :
    ∃ t, st = .ok t ∧ t.Inv hashCsp hashCw ∧ t.Sorted := by
  obtain ⟨t, rfl, htinv⟩ := inv_step hinv ht
  refine ⟨t, rfl, htinv, ?_⟩
  cases act with
  | add er env =>
    obtain ⟨r, hr, -⟩ := hinv.addCache er env
    have hrt : (Except.ok r.cache : State) = .ok t := by
      rw [← Option.some.inj ht, hr]
      rfl
    obtain rfl := Except.ok.inj hrt
    exact sorted_addCache hinv h hg hr
  | cleanup force maxCacheTime now =>
    obtain ⟨u, hclean, -, hkept⟩ := hinv.cleanupCache force maxCacheTime now
    obtain rfl : u = t := Except.ok.inj (hclean.symm.trans (Option.some.inj ht))
    refine ⟨fun e o ho => ?_, fun a cw ha => ?_⟩
    · obtain ⟨ho', hcw⟩ := hkept e o ho
      exact (h.desc e o ho').congr fun a ha => by simp only [count, hcw a ha]
    · obtain ⟨e, o, ho, hm⟩ := (htinv.consistent.cwsLive a).mp ⟨cw, ha⟩
      obtain ⟨-, hcw⟩ := hkept e o ho
      exact h.positive a cw (hcw a hm ▸ ha)
  | push a cl malloc =>
    obtain ⟨cw, ha, hcp⟩ := Option.map_eq_some_iff.mp ht
    obtain rfl := Except.ok.inj hcp
    unfold checkIsPushed
    split_ifs
    · exact h
    refine ⟨fun e o ho => (h.desc e o ho).congr fun b _ => ?_, fun b c hb => ?_⟩
    · by_cases hba : b = a
      · subst hba
        simp [count, ha]
      · simp [count, hba]
    · by_cases hba : b = a
      · subst hba
        dsimp only at hb
        rw [Function.update_self] at hb
        obtain rfl := Option.some.inj hb
        exact h.positive b cw ha
      · exact h.positive b c ((Function.update_of_ne hba _ s.cw).symm.trans hb)

instance : ∀ (st : State) (act : Action), Decidable (SafeAdd hashCsp hashCw st act)
  | .ok s, .add er env =>
    match h : s.countsToSort hashCsp hashCw er env with
    | some (_, _) => decidable_of_iff (_ ∧ (_ → _)) (by simp only [SafeAdd, h]; exact Iff.rfl)
    | none => .isTrue (by simp only [SafeAdd, h])
  | .ok _, .cleanup _ _ _ | .ok _, .push _ _ _ | .error _, _ => inferInstanceAs (Decidable True)

/-- The counts of the words of the entry at address `0`, in list order. -/
private def listedCounts : State → List ℕ
  | .ok s => ((s.ecmHash 0).map fun ecmhash => ecmhash.cws.ll.map s.count).getD []
  | .error _ => []

end EcmCache

end NCam.Cache
