import NCam.Stat.BestChosen

/-! Which readers the load balancer takes as fallbacks, and when it marks the best readers and counts them once. -/
namespace NCam.Stat

open NCam.Lib

variable {n : ℕ}

def fallbacks (ea : Answers n) : Finset (Fin n) := Finset.univ.filter fun i => (ea i).fallback = true

@[simp] theorem mem_fallbacks {ea : Answers n} {i : Fin n} : i ∈ fallbacks ea ↔ (ea i).fallback = true := by
  simp [fallbacks]

/-- The fields that no mark changes. -/
def LbAnswer.SameReader (a b : LbAnswer) : Prop :=
  b.stat = a.stat ∧ b.fixedFallback = a.fixedFallback ∧ b.lbForceFallback = a.lbForceFallback ∧
    b.cacheexMode1 = a.cacheexMode1

/-- What a pass over the fallbacks does: it marks readers that are not active yet, each of which takes one of
the `nfb` places, of which `nfb'` are left. -/
structure Falls (nfb nfb' : ℕ) (a b : Answers n) : Prop where
  reader : ∀ i, (a i).SameReader (b i)
  keep : ∀ i, (a i).active = true → b i = a i
  same : ∀ i, (b i).active = false → b i = a i
  marked : ∀ i, (a i).active = false → (b i).active = true → (b i).fallback = true
  count : (fallbacks b).card + nfb' = (fallbacks a).card + nfb

/-- Fallbacks are active. -/
def FallbacksActive (ea : Answers n) : Prop := ∀ i, (ea i).fallback = true → (ea i).active = true

section Falls

variable {nfb nfb' nfb'' : ℕ} {a b c : Answers n} {x : LbAnswer} {i : Fin n}

private theorem sameReader_trans {x y z : LbAnswer} (h : x.SameReader y) (h' : y.SameReader z) : x.SameReader z := by
  obtain ⟨hstat, hfixed, hforce, hcacheex⟩ := h
  obtain ⟨hstat', hfixed', hforce', hcacheex'⟩ := h'
  exact ⟨hstat'.trans hstat, hfixed'.trans hfixed, hforce'.trans hforce, hcacheex'.trans hcacheex⟩

private theorem Falls.refl (nfb : ℕ) (a : Answers n) : Falls nfb nfb a a where
  reader _ := ⟨rfl, rfl, rfl, rfl⟩
  keep _ _ := rfl
  same _ _ := rfl
  marked i h h' := by
    rw [h] at h'
    cases h'
  count := rfl

private theorem Falls.active (h : Falls nfb nfb' a b) (hi : (a i).active = true) : (b i).active = true := by
  rw [h.keep i hi]
  exact hi

private theorem Falls.trans (h : Falls nfb nfb' a b) (h' : Falls nfb' nfb'' b c) : Falls nfb nfb'' a c where
  reader i := sameReader_trans (h.reader i) (h'.reader i)
  keep i hi := (h'.keep i (h.active hi)).trans (h.keep i hi)
  same i hi := by
    have hb : (b i).active = false := by
      rw [← h'.same i hi]
      exact hi
    exact (h'.same i hi).trans (h.same i hb)
  marked i hi hc := by
    cases hb : (b i).active with
    | false => exact h'.marked i hb hc
    | true =>
      rw [h'.keep i hb]
      exact h.marked i hi hb
  count := by
    have hcount := h.count
    have hcount' := h'.count
    omega

private theorem Falls.fallbacksActive (h : Falls nfb nfb' a b) (ha : FallbacksActive a) : FallbacksActive b := by
  intro i hi
  by_contra hactive
  have hfalse : (b i).active = false := by simpa using hactive
  rw [h.same i hfalse] at hi hactive
  exact hactive (ha i hi)

/-- One reader takes a place. -/
private theorem falls_update (ha : FallbacksActive a) (hi : (a i).active = false) (hreader : (a i).SameReader x)
    (hactive : x.active = true) (hfallback : x.fallback = true) :
    Falls (nfb + 1) nfb a (Function.update a i x) where
  reader j := by
    by_cases hj : j = i
    · rw [hj, Function.update_self]
      exact hreader
    · rw [Function.update_of_ne hj]
      exact ⟨rfl, rfl, rfl, rfl⟩
  keep j hj := by
    refine Function.update_of_ne ?_ _ _
    intro hji
    rw [hji, hi] at hj
    cases hj
  same j hj := by
    refine Function.update_of_ne ?_ _ _
    intro hji
    rw [hji, Function.update_self, hactive] at hj
    cases hj
  marked j hj hj' := by
    by_cases hji : j = i
    · rw [hji, Function.update_self]
      exact hfallback
    · rw [Function.update_of_ne hji, hj] at hj'
      cases hj'
  count := by
    have hnot : i ∉ fallbacks a := by
      intro hin
      have := ha i (mem_fallbacks.mp hin)
      rw [hi] at this
      cases this
    have hinsert : fallbacks (Function.update a i x) = insert i (fallbacks a) := by
      ext j
      rw [Finset.mem_insert, mem_fallbacks, mem_fallbacks]
      by_cases hj : j = i
      · rw [hj, Function.update_self, hfallback]
        simp
      · rw [Function.update_of_ne hj]
        simp [hj]
    rw [hinsert, Finset.card_insert_of_notMem hnot]
    omega

/-- A pass over the fixed fallbacks marks no other reader. -/
private theorem falls_fixedFallbacks (ok : LbAnswer → Bool) (s : ℕ × Answers n) (ha : FallbacksActive s.2) :
    Falls s.1 (fixedFallbacks ok s).1 s.2 (fixedFallbacks ok s).2 ∧
      ∀ i, ((fixedFallbacks ok s).2 i).fallback = true → (s.2 i).fallback = true ∨ (s.2 i).fixedFallback = true := by
  unfold fixedFallbacks
  generalize List.finRange n = l
  induction l generalizing s with
  | nil => exact ⟨Falls.refl _ _, fun i hi => .inl hi⟩
  | cons j l ih =>
    rw [List.foldl_cons]
    by_cases hmark : s.1 ≠ 0 ∧ (s.2 j).fixedFallback = true ∧ ok (s.2 j) = true ∧ (s.2 j).active = false
    · rw [if_pos hmark]
      obtain ⟨hne, hfixed, -, hinactive⟩ := hmark
      have hstep : Falls s.1 (s.1 - 1) s.2 (Function.update s.2 j (s.2 j).fallBack) := by
        obtain ⟨m, hm⟩ := Nat.exists_eq_succ_of_ne_zero hne
        rw [hm]
        exact falls_update ha hinactive ⟨rfl, rfl, rfl, rfl⟩ rfl rfl
      obtain ⟨hrest, hnew⟩ := ih (s.1 - 1, Function.update s.2 j (s.2 j).fallBack) (hstep.fallbacksActive ha)
      refine ⟨hstep.trans hrest, fun i hi => ?_⟩
      by_cases hij : i = j
      · rw [hij]
        exact .inr hfixed
      · have hcase := hnew i hi
        dsimp only at hcase
        rw [Function.update_of_ne hij] at hcase
        exact hcase
    · rw [if_neg hmark]
      exact ih s ha

/-- The readers that are taken come before those that are left. -/
private theorem falls_nextFallbacks (nfb : ℕ) (a : Answers n) (ha : FallbacksActive a) :
    (∃ nfb', Falls nfb nfb' a (nextFallbacks nfb a)) ∧
      ∀ i, (nextFallbacks nfb a i).fallback = true → (a i).fallback = true ∨
        (a i).active = false ∧ (a i).value ≠ 0 ∧ ∀ j, (nextFallbacks nfb a j).active = false → (a j).value ≠ 0 →
          (a i).value < (a j).value ∨ (a i).value = (a j).value ∧ i < j := by
  induction nfb generalizing a with
  | zero => exact ⟨⟨0, Falls.refl _ _⟩, fun i hi => .inl hi⟩
  | succ nfb ih =>
    unfold nextFallbacks
    cases hbest : bestOf (fun ea => !ea.active) a with
    | none => exact ⟨⟨nfb + 1, Falls.refl _ _⟩, fun i hi => .inl hi⟩
    | some m =>
      obtain ⟨hm, hvalue, hmin⟩ := bestOf_eq_some hbest
      have hinactive : (a m).active = false := by simpa using hm
      have hstep : Falls (nfb + 1) nfb a (Function.update a m { (a m).fallBack with value := 0 }) :=
        falls_update ha hinactive ⟨rfl, rfl, rfl, rfl⟩ rfl rfl
      obtain ⟨⟨nfb', hrest⟩, hnext⟩ := ih _ (hstep.fallbacksActive ha)
      dsimp only
      refine ⟨⟨nfb', hstep.trans hrest⟩, fun i hi => ?_⟩
      -- a reader that is left was not taken before either
      have hleft : ∀ j, (nextFallbacks nfb (Function.update a m { (a m).fallBack with value := 0 }) j).active = false →
          j ≠ m ∧ (a j).active = false := by
        intro j hj
        have hsame := (hstep.trans hrest).same j hj
        rw [hsame] at hj
        refine ⟨?_, hj⟩
        rintro rfl
        have hactive := hrest.active (i := j) (by rw [Function.update_self]; rfl)
        rw [hsame, hj] at hactive
        cases hactive
      by_cases him : i = m
      · right
        rw [him]
        refine ⟨hinactive, hvalue, fun j hj hjvalue => ?_⟩
        obtain ⟨hjm, hjactive⟩ := hleft j hj
        exact hmin j (by simp [hjactive]) hjvalue hjm
      · have hcase := hnext i hi
        rw [Function.update_of_ne him] at hcase
        rcases hcase with hfallback | ⟨hactive, hne, hlow⟩
        · exact .inl hfallback
        · refine .inr ⟨hactive, hne, fun j hj hjvalue => ?_⟩
          have hlow' := hlow j hj
          rw [Function.update_of_ne (hleft j hj).1] at hlow'
          exact hlow' hjvalue

/-- The fallbacks are at most as many as there are places. Those that are no fixed ones come before the
readers that are not active afterwards. -/
theorem falls_chooseFallbacks (cfg : LbConfig) (req : LbRequest) (a : Answers n)
    (ha : ∀ i, (a i).fallback = false) :
    (∃ nfb', Falls req.nfbReaders nfb' a (chooseFallbacks cfg req a)) ∧
      ∀ i, (chooseFallbacks cfg req a i).fallback = true → (a i).fixedFallback = false →
        (a i).active = false ∧ (a i).value ≠ 0 ∧ ∀ j, (chooseFallbacks cfg req a j).active = false → (a j).value ≠ 0 →
          (a i).value < (a j).value ∨ (a i).value = (a j).value ∧ i < j := by
  have hactive : FallbacksActive a := by
    intro i hi
    rw [ha i] at hi
    cases hi
  have hfixed : Falls req.nfbReaders (chooseFixedFallbacks cfg req a).1 a (chooseFixedFallbacks cfg req a).2 ∧
      ∀ i, ((chooseFixedFallbacks cfg req a).2 i).fallback = true → (a i).fixedFallback = true := by
    unfold chooseFixedFallbacks
    split_ifs
    · obtain ⟨hforced, hnew⟩ := falls_fixedFallbacks LbAnswer.lbForceFallback (req.nfbReaders, a) hactive
      obtain ⟨hnormal, hnew'⟩ :=
        falls_fixedFallbacks (fun ea => !ea.lbForceFallback && ea.stat.any (LbStat.valid cfg req)) _
          (hforced.fallbacksActive hactive)
      refine ⟨hforced.trans hnormal, fun i hi => ?_⟩
      rcases hnew' i hi with h | h
      · rcases hnew i h with h | h
        · rw [ha i] at h
          cases h
        · exact h
      · rw [(hforced.reader i).2.1] at h
        exact h
    · refine ⟨Falls.refl _ _, fun i hi => ?_⟩
      rw [ha i] at hi
      cases hi
  obtain ⟨hfalls, honly⟩ := hfixed
  obtain ⟨⟨nfb', hrest⟩, hnext⟩ :=
    falls_nextFallbacks (chooseFixedFallbacks cfg req a).1 _ (hfalls.fallbacksActive hactive)
  unfold chooseFallbacks
  dsimp only
  refine ⟨⟨nfb', hfalls.trans hrest⟩, fun i hi hnot => ?_⟩
  rcases hnext i hi with h | ⟨hi', hvalue, hlow⟩
  · rw [honly i h] at hnot
    cases hnot
  · have hsame := hfalls.same i hi'
    rw [hsame] at hi' hvalue hlow
    refine ⟨hi', hvalue, fun j hj hjvalue => ?_⟩
    have hjleft : ((chooseFixedFallbacks cfg req a).2 j).active = false := by
      rw [← hrest.same j hj]
      exact hj
    have hjsame := hfalls.same j hjleft
    have hlow' := hlow j hj
    rw [hjsame] at hlow'
    exact hlow' hjvalue

end Falls

/-- A reader with statistics that are reset because it is slow and was not heard of. -/
def LbAnswer.staleReader (req : LbRequest) (now : ℤ) (ea : LbAnswer) : Bool :=
  !ea.cacheexMode1 && !(ea.fixedFallback && ea.lbForceFallback) && ea.stat.any (LbStat.stale req now)

/-- A reader that is opened for statistics and counted. -/
def LbAnswer.needsStatistics (cfg : LbConfig) (req : LbRequest) (now : ℤ) (ea : LbAnswer) : Bool :=
  !ea.cacheexMode1 && !(ea.fixedFallback && ea.lbForceFallback) &&
    ea.stat.all fun s =>
      (s.rc = .found && (s.ecmCount < cfg.lbMinEcmcount ||
        (cfg.lbMaxEcmcount < s.ecmCount && (req.retrylimit = 0 || (req.retrylimit : ℤ) < s.timeAvg)))) ||
      s.stale req now

section Spec

variable (cfg : LbConfig) (req : LbRequest) (clock : LbClock n) (ea : Answers n)

def countedReaders : Finset (Fin n) :=
  Finset.univ.filter fun i => (ea i).needsStatistics cfg req (clock.statTime i) = true

/-- Why a reader may be active that is none of the best: it has no valid statistics or stale ones, it is a
cacheex reader, or the first reader is too slow, which opens all. -/
def Excused (i : Fin n) : Prop :=
  i ∉ usableReaders cfg req ea ∨ (ea i).cacheexMode1 = true ∨
    (ea i).stat.any (LbStat.stale req (clock.statTime i)) = true ∨
    (req.retrylimit ≠ 0 ∧ ∃ j s, Leads cfg req clock ea j ∧ (ea j).stat = some s ∧ (req.retrylimit : ℤ) < s.timeAvg)

/-- What the load balancer is to do. -/
structure Balanced : Prop where
  valued : ∀ i ∈ usableReaders cfg req ea,
    ((statGetBestReader cfg req clock ea).evaluated i).value = measure cfg req clock ea i ∧
      ((statGetBestReader cfg req clock ea).evaluated i).value ≠ 0
  best : ∀ i ∈ bestReaders cfg req clock ea, ((statGetBestReader cfg req clock ea).answers i).active = true ∧
    ((statGetBestReader cfg req clock ea).answers i).fallback = false
  others : ∀ i, ((statGetBestReader cfg req clock ea).answers i).active = true →
    ((statGetBestReader cfg req clock ea).answers i).fallback = false →
      i ∈ bestReaders cfg req clock ea ∨ Excused cfg req clock ea i
  fallbacks : (fallbacks (statGetBestReader cfg req clock ea).answers).card ≤ req.nfbReaders
  next : ∀ i, ((statGetBestReader cfg req clock ea).answers i).fallback = true → (ea i).fixedFallback = false →
    i ∈ usableReaders cfg req ea ∧ ∀ j ∈ usableReaders cfg req ea,
      ((statGetBestReader cfg req clock ea).answers j).active = false →
        measure cfg req clock ea i < measure cfg req clock ea j ∨
          measure cfg req clock ea i = measure cfg req clock ea j ∧ i < j
  counted : (statGetBestReader cfg req clock ea).readerActive =
    (bestReaders cfg req clock ea ∪ countedReaders cfg req clock ea).card

end Spec

/-- What a pass behind the fallbacks does to a reader, `p` being why it may become active. -/
structure Opens (p : Prop) (a b : LbAnswer) : Prop where
  active : a.active = true → b.active = true
  fallback : b.fallback = true → a.fallback = true
  only : b.active = true → b.fallback = false → a.active = true ∧ a.fallback = false ∨ p
  rc : b.stat.map LbStat.rc = a.stat.map LbStat.rc

section Opens

variable {p : Prop} {a b c : LbAnswer} {cfg : LbConfig} {req : LbRequest} {now : ℤ}

private theorem Opens.refl (a : LbAnswer) : Opens p a a where
  active h := h
  fallback h := h
  only h h' := .inl ⟨h, h'⟩
  rc := rfl

private theorem Opens.trans (h : Opens p a b) (h' : Opens p b c) : Opens p a c where
  active ha := h'.active (h.active ha)
  fallback hc := h.fallback (h'.fallback hc)
  only hc hc' := by
    rcases h'.only hc hc' with ⟨hb, hb'⟩ | hp
    · exact h.only hb hb'
    · exact .inr hp
  rc := h'.rc.trans h.rc

private theorem rc_resetAvgtime : a.resetAvgtime.stat.map LbStat.rc = a.stat.map LbStat.rc := by
  unfold LbAnswer.resetAvgtime
  cases a.hasClient with
  | false => rfl
  | true => cases a.stat <;> rfl

private theorem rc_resetEcmcount : a.resetEcmcount.stat.map LbStat.rc = a.stat.map LbStat.rc := by
  unfold LbAnswer.resetEcmcount
  cases a.hasClient with
  | false => rfl
  | true => cases a.stat <;> rfl

private theorem marks_resetAvgtime : a.resetAvgtime.active = a.active ∧ a.resetAvgtime.fallback = a.fallback := by
  unfold LbAnswer.resetAvgtime
  cases a.hasClient <;> exact ⟨rfl, rfl⟩

private theorem marks_resetEcmcount :
    a.resetEcmcount.active = a.active ∧ a.resetEcmcount.fallback = a.fallback := by
  unfold LbAnswer.resetEcmcount
  cases a.hasClient <;> exact ⟨rfl, rfl⟩

/-- A reader that becomes active. -/
private theorem opens_active (hp : p) (hfallback : b.fallback = true → a.fallback = true) (hactive : b.active = true)
    (hrc : b.stat.map LbStat.rc = a.stat.map LbStat.rc) : Opens p a b :=
  ⟨fun _ => hactive, hfallback, fun _ _ => .inr hp, hrc⟩

/-- The pass for statistics opens readers without valid statistics, cacheex readers and stale ones. -/
private theorem opens_startStatistics (a : LbAnswer) :
    Opens (a.stat.any (LbStat.valid cfg req) = false ∨ a.cacheexMode1 = true ∨
      a.stat.any (LbStat.stale req now) = true) a (startStatistics cfg req now a).1 := by
  unfold startStatistics
  split_ifs with hcacheex hforced
  · exact opens_active (.inr (.inl hcacheex)) id rfl rfl
  · exact Opens.refl a
  · cases hstat : a.stat with
    | none => exact opens_active (.inl rfl) id rfl (by rw [hstat])
    | some s =>
      dsimp only
      split_ifs with hmin hmax hstale
      · have hinvalid : s.valid cfg req = false := by
          unfold LbStat.valid
          simp [Int.not_le.mpr hmin.2]
        exact opens_active (.inl hinvalid) id rfl (by rw [hstat])
      · have hinvalid : s.valid cfg req = false := by
          obtain ⟨-, hcount, hslow⟩ := hmax
          unfold LbStat.valid
          rcases hslow with hzero | hslow
          · simp [Int.not_le.mpr hcount, hzero]
          · simp [Int.not_le.mpr hcount, Int.not_le.mpr hslow]
        refine opens_active (.inl hinvalid) ?_ rfl (rc_resetAvgtime.trans rc_resetEcmcount)
        intro hfallback
        change a.resetEcmcount.resetAvgtime.fallback = true at hfallback
        rw [marks_resetAvgtime.2, marks_resetEcmcount.2] at hfallback
        exact hfallback
      · exact opens_active (.inr (.inr hstale)) (fun h => absurd h Bool.false_ne_true) rfl rc_resetAvgtime
      · exact Opens.refl a

private theorem startStatistics_counted (a : LbAnswer) :
    (startStatistics cfg req now a).2 = a.needsStatistics cfg req now := by
  unfold startStatistics LbAnswer.needsStatistics
  cases a.cacheexMode1 with
  | true => rfl
  | false =>
    cases hforced : (a.fixedFallback && a.lbForceFallback) with
    | true => simp
    | false =>
      cases a.stat with
      | none => rfl
      | some s =>
        simp only [Bool.false_eq_true, if_false, Option.all_some]
        split_ifs with hmin hmax hstale
        · simp [hmin]
        · simp [hmax]
        · simp [hstale]
        · simp only [not_and, not_or] at hmin hmax
          cases hrc : decide (s.rc = .found) <;> simp_all

/-- A slow first reader opens all. -/
private theorem opens_retry (hp : p) (a : LbAnswer) : Opens p a (retry cfg req a) := by
  unfold retry
  split_ifs with hcacheex
  · exact Opens.refl a
  · cases hstat : a.stat with
    | none => exact Opens.refl a
    | some s =>
      dsimp only
      split_ifs
      · exact opens_active hp (fun h => absurd h Bool.false_ne_true) rfl rc_resetAvgtime
      · refine ⟨fun h => ?_, fun h => ?_, fun _ _ => .inr hp, rc_resetAvgtime⟩
        · rw [marks_resetAvgtime.1]
          exact h
        · rw [marks_resetAvgtime.2] at h
          exact h
      · exact Opens.refl a

/-- Only blocked readers are reopened. -/
private theorem opens_tryOpen (force : Bool) (m : ℤ) (a : LbAnswer) :
    Opens (a.stat.map LbStat.rc ≠ some .found) a (tryOpen cfg force now m a).2 := by
  unfold tryOpen
  split_ifs with hmarked
  · exact Opens.refl a
  · cases hstat : a.stat with
    | none => exact Opens.refl a
    | some s =>
      have hblocked : s.rc ≠ .found → (some s).map LbStat.rc ≠ some .found := by
        intro hrc h
        exact hrc (Option.some.inj h)
      dsimp only
      split_ifs with hinvalid hforce hopen
      · exact Opens.refl a
      · exact opens_active (hblocked hforce.1) id rfl (by rw [hstat]; rfl)
      · exact opens_active (hblocked hopen.1) id rfl (by rw [hstat]; rfl)
      · exact ⟨id, id, fun h h' => .inl ⟨h, h'⟩, by rw [hstat]; rfl⟩

end Opens

section Passes

variable {cfg : LbConfig} {req : LbRequest} {clock : LbClock n} {ea : Answers n} {i : Fin n}

/-- Each reader is visited once. -/
private theorem opens_tryOpenBlockedReaders (force : Bool) (reopenTime : Fin n → ℤ) (m : ℤ) (a : Answers n)
    (i : Fin n) : Opens ((a i).stat.map LbStat.rc ≠ some .found) (a i)
      (tryOpenBlockedReaders cfg force reopenTime m a i) := by
  unfold tryOpenBlockedReaders
  have hwalk : ∀ (l : List (Fin n)) (s : ℤ × Answers n), l.Nodup →
      (i ∈ l → s.2 i = a i) → (i ∉ l → Opens ((a i).stat.map LbStat.rc ≠ some .found) (a i) (s.2 i)) →
      Opens ((a i).stat.map LbStat.rc ≠ some .found) (a i)
        ((l.foldl (fun (s : ℤ × Answers n) i => ((tryOpen cfg force (reopenTime i) s.1 (s.2 i)).1,
          Function.update s.2 i (tryOpen cfg force (reopenTime i) s.1 (s.2 i)).2)) s).2 i) := by
    intro l
    induction l with
    | nil => exact fun s _ _ hdone => hdone List.not_mem_nil
    | cons j l ih =>
      intro s hnodup hwait hdone
      obtain ⟨hj, hl⟩ := List.nodup_cons.mp hnodup
      rw [List.foldl_cons]
      refine ih _ hl (fun hi => ?_) fun hi => ?_
      · have hij : i ≠ j := fun h => hj (h ▸ hi)
        dsimp only
        rw [Function.update_of_ne hij]
        exact hwait (List.mem_cons_of_mem _ hi)
      · dsimp only
        by_cases hij : i = j
        · have hsame := hwait (hij ▸ List.mem_cons_self)
          rw [hij] at hsame ⊢
          rw [Function.update_self, hsame]
          exact opens_tryOpen force _ (a j)
        · rw [Function.update_of_ne hij]
          exact hdone (List.not_mem_cons_of_ne_of_not_mem hij hi)
  exact hwalk _ (m, a) (List.nodup_finRange n) (fun _ => rfl) fun hi => absurd (List.mem_finRange i) hi

/-- The readers behind the choice of the fallbacks. -/
private def fallen (cfg : LbConfig) (req : LbRequest) (clock : LbClock n) (ea : Answers n) : Answers n :=
  chooseFallbacks cfg req (chooseReaders cfg req clock ea).ea

/-- The number of readers that the passes count as active. -/
private def activeCount (cfg : LbConfig) (req : LbRequest) (clock : LbClock n) (ea : Answers n) : ℕ :=
  (chooseReaders cfg req clock ea).readerActive + (List.finRange n).countP fun i =>
    (startStatistics cfg req (clock.statTime i) (fallen cfg req clock ea i)).2

/-- The readers before blocked ones are reopened. -/
private def retried (cfg : LbConfig) (req : LbRequest) (clock : LbClock n) (ea : Answers n) : Answers n := fun i =>
  if activeCount cfg req clock ea ≠ 0 ∧
      retrylimitReached req ((chooseReaders cfg req clock ea).bestTime.getD 0) = true then
    retry cfg req (startStatistics cfg req (clock.statTime i) (fallen cfg req clock ea i)).1
  else (startStatistics cfg req (clock.statTime i) (fallen cfg req clock ea i)).1

private theorem opens_weaken {p q : Prop} {a b : LbAnswer} (h : Opens p a b) (hpq : p → q) : Opens q a b :=
  ⟨h.active, h.fallback, fun hb hb' => (h.only hb hb').imp id hpq, h.rc⟩

private theorem falls_fallen (hfit : MeasuresFit cfg req clock ea) :
    (∃ nfb', Falls req.nfbReaders nfb' (chooseReaders cfg req clock ea).ea (fallen cfg req clock ea)) ∧
      ∀ i, (fallen cfg req clock ea i).fallback = true → (ea i).fixedFallback = false →
        ((chooseReaders cfg req clock ea).ea i).active = false ∧ ((chooseReaders cfg req clock ea).ea i).value ≠ 0 ∧
          ∀ j, (fallen cfg req clock ea j).active = false → ((chooseReaders cfg req clock ea).ea j).value ≠ 0 →
            ((chooseReaders cfg req clock ea).ea i).value < ((chooseReaders cfg req clock ea).ea j).value ∨
              ((chooseReaders cfg req clock ea).ea i).value = ((chooseReaders cfg req clock ea).ea j).value ∧ i < j := by
  have hchosen := (chooseReaders_eq hfit).1
  have hsame := @evaluated_same n cfg req clock ea
  have hfallback : ∀ i, ((chooseReaders cfg req clock ea).ea i).fallback = false := by
    intro i
    obtain ⟨-, -, -, -, -, -, hfallback⟩ := @hsame i
    rw [hchosen i]
    split_ifs <;> exact hfallback
  have hfixed : ∀ i, ((chooseReaders cfg req clock ea).ea i).fixedFallback = (ea i).fixedFallback := by
    intro i
    obtain ⟨-, -, hfixed, -⟩ := @hsame i
    rw [hchosen i]
    split_ifs <;> exact hfixed
  obtain ⟨hfalls, hnext⟩ := falls_chooseFallbacks cfg req (chooseReaders cfg req clock ea).ea hfallback
  refine ⟨hfalls, fun i hi hnot => ?_⟩
  rw [← hfixed i] at hnot
  exact hnext i hi hnot

private theorem sameReader_fallen (hfit : MeasuresFit cfg req clock ea) (i : Fin n) :
    (ea i).SameReader (fallen cfg req clock ea i) := by
  obtain ⟨⟨nfb', hfalls⟩, -⟩ := falls_fallen hfit
  obtain ⟨hstat, hfixed, hforce, hcacheex⟩ := hfalls.reader i
  obtain ⟨-, hstat', hfixed', hforce', hcacheex', -⟩ := @evaluated_same n cfg req clock ea i
  have hchosen := (chooseReaders_eq hfit).1 i
  refine ⟨hstat.trans ?_, hfixed.trans ?_, hforce.trans ?_, hcacheex.trans ?_⟩
  · rw [hchosen]
    split_ifs <;> exact hstat'
  · rw [hchosen]
    split_ifs <;> exact hfixed'
  · rw [hchosen]
    split_ifs <;> exact hforce'
  · rw [hchosen]
    split_ifs <;> exact hcacheex'

private theorem not_usable (hrc : (ea i).stat.map LbStat.rc ≠ some .found) : i ∉ usableReaders cfg req ea := by
  rw [mem_usableReaders]
  cases hstat : (ea i).stat with
  | none => exact Bool.false_ne_true
  | some s =>
    intro hvalid
    rw [hstat] at hrc
    refine hrc ?_
    change s.valid cfg req = true at hvalid
    unfold LbStat.valid at hvalid
    simp only [Bool.and_eq_true, decide_eq_true_eq] at hvalid
    exact congrArg some hvalid.1.1

/-- Behind the fallbacks, a reader is only opened with a reason. -/
private theorem opens_answers (hfit : MeasuresFit cfg req clock ea) (i : Fin n) :
    Opens (Excused cfg req clock ea i) (fallen cfg req clock ea i)
      ((statGetBestReader cfg req clock ea).answers i) := by
  obtain ⟨hstat, -, -, hcacheex⟩ := sameReader_fallen hfit i
  have hstarted : Opens (Excused cfg req clock ea i) (fallen cfg req clock ea i)
      (startStatistics cfg req (clock.statTime i) (fallen cfg req clock ea i)).1 := by
    refine opens_weaken (opens_startStatistics _) ?_
    rw [hstat, hcacheex]
    rintro (hinvalid | hmode | hstale)
    · refine .inl fun hin => ?_
      rw [mem_usableReaders, hinvalid] at hin
      cases hin
    · exact .inr (.inl hmode)
    · exact .inr (.inr (.inl hstale))
  have hreached : retrylimitReached req ((chooseReaders cfg req clock ea).bestTime.getD 0) = true →
      Excused cfg req clock ea i := by
    intro h
    unfold retrylimitReached at h
    simp only [Bool.and_eq_true, decide_eq_true_eq] at h
    obtain ⟨⟨hlimit, hne⟩, hslow⟩ := h
    cases htime : (chooseReaders cfg req clock ea).bestTime with
    | none =>
      rw [htime] at hne
      exact absurd rfl hne
    | some time =>
      obtain ⟨j, s, hlead, hjstat, hjtime⟩ := bestTime_leads hfit htime
      rw [htime] at hslow
      exact .inr (.inr (.inr ⟨hlimit, j, s, hlead, hjstat, hjtime ▸ hslow⟩))
  have hretried : Opens (Excused cfg req clock ea i) (fallen cfg req clock ea i) (retried cfg req clock ea i) := by
    unfold retried
    split_ifs with h
    · exact hstarted.trans (opens_retry (hreached h.2) _)
    · exact hstarted
  have hopened := @opens_tryOpenBlockedReaders n cfg
    (decide (activeCount cfg req clock ea = 0) ||
      retrylimitReached req ((chooseReaders cfg req clock ea).bestTime.getD 0))
    clock.reopenTime (maxReopen cfg req) (retried cfg req clock ea) i
  refine hretried.trans (opens_weaken hopened fun hrc => .inl (not_usable ?_))
  rw [hretried.rc, hstat] at hrc
  exact hrc

/-- The number of active readers that is counted. -/
private theorem readerActive_eq (hfit : MeasuresFit cfg req clock ea) :
    (statGetBestReader cfg req clock ea).readerActive =
      (bestReaders cfg req clock ea).card + (countedReaders cfg req clock ea).card := by
  have hcount : ∀ i, (startStatistics cfg req (clock.statTime i) (fallen cfg req clock ea i)).2 =
      (ea i).needsStatistics cfg req (clock.statTime i) := by
    intro i
    obtain ⟨hstat, hfixed, hforce, hcacheex⟩ := sameReader_fallen hfit i
    rw [startStatistics_counted]
    unfold LbAnswer.needsStatistics
    rw [hstat, hfixed, hforce, hcacheex]
  change activeCount cfg req clock ea = _
  unfold activeCount
  rw [(chooseReaders_eq hfit).2]
  simp only [hcount]
  rw [List.countP_eq_length_filter, length_filter_finRange]
  rfl

/-- A reader with valid statistics needs some only if they are stale. -/
private theorem needsStatistics_iff (hi : i ∈ usableReaders cfg req ea) :
    (ea i).needsStatistics cfg req (clock.statTime i) = (ea i).staleReader req (clock.statTime i) := by
  rw [mem_usableReaders] at hi
  unfold LbAnswer.needsStatistics LbAnswer.staleReader
  cases hstat : (ea i).stat with
  | none =>
    rw [hstat] at hi
    cases hi
  | some s =>
    rw [hstat] at hi
    change s.valid cfg req = true at hi
    unfold LbStat.valid at hi
    simp only [Bool.and_eq_true, decide_eq_true_eq, Bool.or_eq_true] at hi
    obtain ⟨⟨hrc, hmin⟩, hmax⟩ := hi
    have hnone : (s.rc = .found && (s.ecmCount < cfg.lbMinEcmcount ||
        (cfg.lbMaxEcmcount < s.ecmCount && (req.retrylimit = 0 || (req.retrylimit : ℤ) < s.timeAvg)))) = false := by
      have hmin' : ¬ s.ecmCount < cfg.lbMinEcmcount := Int.not_lt.mpr hmin
      rcases hmax with hmax | ⟨hlimit, hslow⟩
      · have hmax' : ¬ cfg.lbMaxEcmcount < s.ecmCount := Int.not_lt.mpr hmax
        simp [hmin', hmax']
      · have hslow' : ¬ (req.retrylimit : ℤ) < s.timeAvg := Int.not_lt.mpr hslow
        simp [hmin', hlimit, hslow']
    rw [Option.all_some, Option.any_some, hnone, Bool.false_or]

end Passes

section Balanced

variable {cfg : LbConfig} {req : LbRequest} {clock : LbClock n} {ea : Answers n}

private theorem fit_of_valued (h : ∀ i ∈ usableReaders cfg req ea,
    (evaluated cfg req clock ea i).value = measure cfg req clock ea i ∧ (evaluated cfg req clock ea i).value ≠ 0) :
    MeasuresFit cfg req clock ea := by
  intro i hi
  obtain ⟨hvalue, hne⟩ := h i hi
  rw [hvalue] at hne
  rw [evaluated_value, if_pos hi] at hvalue
  exact ⟨hne, int32_eq_iff.mp hvalue⟩

/-- Readers are counted once if none of the best ones needs statistics. -/
private theorem counted_iff (hfit : MeasuresFit cfg req clock ea) :
    (statGetBestReader cfg req clock ea).readerActive =
        (bestReaders cfg req clock ea ∪ countedReaders cfg req clock ea).card ↔
      ∀ i ∈ bestReaders cfg req clock ea, (ea i).staleReader req (clock.statTime i) = false := by
  have hsum := Finset.card_union_add_card_inter (bestReaders cfg req clock ea) (countedReaders cfg req clock ea)
  have hzero : (statGetBestReader cfg req clock ea).readerActive =
      (bestReaders cfg req clock ea ∪ countedReaders cfg req clock ea).card ↔
      bestReaders cfg req clock ea ∩ countedReaders cfg req clock ea = ∅ := by
    rw [readerActive_eq hfit, ← Finset.card_eq_zero]
    omega
  rw [hzero, Finset.eq_empty_iff_forall_notMem]
  constructor
  · intro h i hi
    have hnot := h i
    rw [Finset.mem_inter, not_and] at hnot
    rw [← needsStatistics_iff (lowest_subset hi)]
    by_contra hneeds
    exact hnot hi (by simpa [countedReaders] using hneeds)
  · intro h i hi
    obtain ⟨hbest, hcounted⟩ := Finset.mem_inter.mp hi
    have hneeds : (ea i).needsStatistics cfg req (clock.statTime i) = true := by
      simpa [countedReaders] using hcounted
    rw [needsStatistics_iff (lowest_subset hbest), h i hbest] at hneeds
    cases hneeds

/-- The value of a reader that is left by the choice. -/
private theorem chosen_of_notMem (hfit : MeasuresFit cfg req clock ea) {i : Fin n}
    (hi : ((chooseReaders cfg req clock ea).ea i).active = false) :
    i ∉ bestReaders cfg req clock ea ∧ (chooseReaders cfg req clock ea).ea i = evaluated cfg req clock ea i := by
  have hchosen := (chooseReaders_eq hfit).1 i
  by_cases hbest : i ∈ bestReaders cfg req clock ea
  · rw [hchosen, if_pos hbest] at hi
    cases hi
  · rw [if_neg hbest] at hchosen
    exact ⟨hbest, hchosen⟩

/-- The fallbacks are only chosen behind the best readers. -/
private theorem chooseReaders_fallback (hfit : MeasuresFit cfg req clock ea) (i : Fin n) :
    ((chooseReaders cfg req clock ea).ea i).fallback = false := by
  obtain ⟨-, -, -, -, -, -, hnot⟩ := @evaluated_same n cfg req clock ea i
  rw [(chooseReaders_eq hfit).1 i]
  split_ifs
  · exact hnot
  · exact hnot

/-- A reader that is chosen first is a best one. -/
private theorem mem_best_of_active (hfit : MeasuresFit cfg req clock ea) {i : Fin n}
    (hactive : ((chooseReaders cfg req clock ea).ea i).active = true) : i ∈ bestReaders cfg req clock ea := by
  by_contra hbest
  obtain ⟨-, -, -, -, -, hinactive, -⟩ := @evaluated_same n cfg req clock ea i
  rw [(chooseReaders_eq hfit).1 i, if_neg hbest, hinactive] at hactive
  cases hactive

private theorem balanced_of_fit (hfit : MeasuresFit cfg req clock ea)
    (hcounted : (statGetBestReader cfg req clock ea).readerActive =
      (bestReaders cfg req clock ea ∪ countedReaders cfg req clock ea).card) : Balanced cfg req clock ea := by
  obtain ⟨⟨nfb', hfalls⟩, hnext⟩ := falls_fallen hfit
  have hopens := @opens_answers n cfg req clock ea hfit
  have hchosen := (chooseReaders_eq hfit).1
  -- what was neither chosen nor taken is left as it was evaluated
  have hleft : ∀ j, ((statGetBestReader cfg req clock ea).answers j).active = false →
      (fallen cfg req clock ea j).active = false ∧ ((chooseReaders cfg req clock ea).ea j).active = false := by
    intro j hj
    have hfallen : (fallen cfg req clock ea j).active = false := by
      by_contra hactive
      rw [(hopens j).active (by simpa using hactive)] at hj
      cases hj
    refine ⟨hfallen, ?_⟩
    rw [← hfalls.same j hfallen]
    exact hfallen
  refine ⟨?_, ?_, ?_, ?_, ?_, hcounted⟩
  · intro i hi
    change (evaluated cfg req clock ea i).value = _ ∧ (evaluated cfg req clock ea i).value ≠ 0
    rw [value_of_fit hfit hi]
    exact ⟨rfl, (hfit i hi).1⟩
  · intro i hi
    have hactive : ((chooseReaders cfg req clock ea).ea i).active = true := by
      rw [hchosen i, if_pos hi]
      rfl
    have hkept := hfalls.keep i hactive
    refine ⟨(hopens i).active (hkept ▸ hactive), ?_⟩
    by_contra hfallback
    have hfall := (hopens i).fallback (by simpa using hfallback)
    rw [hkept, chooseReaders_fallback hfit i] at hfall
    cases hfall
  · intro i hactive hfallback
    rcases (hopens i).only hactive hfallback with ⟨hfallen, hnot⟩ | hexcused
    · cases hbefore : ((chooseReaders cfg req clock ea).ea i).active with
      | false =>
        rw [hfalls.marked i hbefore hfallen] at hnot
        cases hnot
      | true =>
        left
        exact mem_best_of_active hfit hbefore
    · exact .inr hexcused
  · have hsub : fallbacks (statGetBestReader cfg req clock ea).answers ⊆ fallbacks (fallen cfg req clock ea) := by
      intro i hi
      exact mem_fallbacks.mpr ((hopens i).fallback (mem_fallbacks.mp hi))
    have hnone : (fallbacks (chooseReaders cfg req clock ea).ea).card = 0 := by
      rw [Finset.card_eq_zero, Finset.eq_empty_iff_forall_notMem]
      intro i hi
      rw [mem_fallbacks, chooseReaders_fallback hfit i] at hi
      cases hi
    have hcount := hfalls.count
    have hle := Finset.card_le_card hsub
    omega
  · intro i hfallback hfixed
    obtain ⟨hinactive, hvalue, hlow⟩ := hnext i ((hopens i).fallback hfallback) hfixed
    have hsame := (chosen_of_notMem hfit hinactive).2
    have husable : i ∈ usableReaders cfg req ea := by
      rw [hsame, ← mem_candidates, candidates_evaluated hfit] at hvalue
      exact hvalue
    refine ⟨husable, fun j hj hjactive => ?_⟩
    obtain ⟨hjfallen, hjchosen⟩ := hleft j hjactive
    have hjsame := (chosen_of_notMem hfit hjchosen).2
    have hlow' := hlow j hjfallen
    rw [hsame, hjsame, value_of_fit hfit husable, value_of_fit hfit hj] at hlow'
    exact hlow' (hfit j hj).1

end Balanced

/-- The oldest reader is preferred, and the readers have a limit of 500 ms. -/
private def oldestFirst : LbConfig := ⟨.oldestReaderFirst, 5, 500, 0, false, false, 900⟩

private def oneReader (lbLast : ℤ) : Answers 1 := fun _ =>
  { isLocal := false, fixedFallback := false, lbForceFallback := false, cacheexMode1 := false, hasClient := true
    lbWeight := 100, lbUsagelevel := 0, lbLast := some lbLast
    stat := some { rc := .found, ecmCount := 10, timeAvg := 300, lastReceived := 999, failFactor := 0 }
    active := true, fallback := false, value := 0, time := 0 }

end NCam.Stat
