import NCam.Ecm.Escalation

/-! The outcome of an ECM request without a control word, over the runs in which `chk_dcw` heeds the
last answer. -/
namespace NCam.Ecm.Answer.Escalation

section Fields

variable {cfg : Config} {er er' : EcmRequest} {queue queue' : List ℕ}

/-- Only the readers, the stage and the queue matter; the queue may lose answers. -/
theorem Kept.congr (h : Kept cfg er queue) (hrdrs : er'.matchingRdr = er.matchingRdr)
    (hstage : er'.stage = er.stage) (hsub : ∀ r ∈ queue', r ∈ queue) : Kept cfg er' queue' := by
  constructor
  · exact hrdrs ▸ h.distinct
  · exact hrdrs ▸ h.noCw
  · exact hrdrs ▸ h.cacheex
  · exact hrdrs ▸ h.sent
  · rw [hrdrs]
    intro ea hea hq
    exact h.queued ea hea (hsub _ hq)
  · rw [hrdrs, hstage]
    exact h.unasked
  · rw [hrdrs, hstage]
    exact h.onlyCacheex
  · rw [hrdrs, hstage]
    exact h.out
  · exact hstage ▸ h.stage

/-- The fields of a request that its stages depend on. -/
structure SameStage (er er' : EcmRequest) : Prop where
  rdrs : er'.matchingRdr = er.matchingRdr
  stage : er'.stage = er.stage
  expired : er'.cacheexWaitTimeExpired = er.cacheexWaitTimeExpired
  prefer : er'.preferlocalcards = er.preferlocalcards
  normal : normalCount er' = normalCount er

private theorem SameStage.has (h : SameStage er er') (kind : Status → Bool) :
    has kind er' = has kind er := by
  unfold Answer.has
  rw [h.rdrs]

private theorem SameStage.obliged (h : SameStage er er') : Obliged er' ↔ Obliged er := by
  unfold Obliged
  rw [h.expired, h.normal, h.stage]

/-- The answer taken from the queue is gone; who pends without it is to be told. -/
theorem Waiting.congr (h : Waiting er queue) (hs : SameStage er er')
    (hpends : Obliged er →
      ∃ ea ∈ er.matchingRdr, Pends queue' ea ∧ (er.stage ≤ 3 → ea.status.readerFallback = false)) :
    Waiting er' queue' := by
  constructor
  · rw [hs.stage, hs.expired]
    exact h.zero
  · rw [hs.expired, hs.prefer]
    exact h.prefer
  · rw [hs.normal, hs.stage, hs.rdrs]
    exact h.normal
  · rw [hs.stage, hs.expired, hs.has]
    exact h.one
  · rw [hs.stage, hs.has]
    exact h.two
  · rw [hs.stage, hs.has]
    exact h.three
  · rw [hs.obliged, hs.rdrs, hs.stage]
    exact hpends

end Fields

section SendDcw

variable (cfg : Config) (env : Env) (er : EcmRequest)

private theorem markSource_same : (markSource cfg er).stage = er.stage ∧
    (markSource cfg er).matchingRdr = er.matchingRdr := by
  unfold markSource
  dsimp only
  split_ifs <;> exact ⟨rfl, rfl⟩

private theorem acosc_same : (acosc cfg env er).stage = er.stage ∧
    (acosc cfg env er).matchingRdr = er.matchingRdr := by
  unfold acosc
  split_ifs <;> exact ⟨rfl, rfl⟩

private theorem countCw_same : (countCw er).stage = er.stage ∧
    (countCw er).matchingRdr = er.matchingRdr := by
  unfold countCw
  split_ifs <;> exact ⟨rfl, rfl⟩

theorem sendDcw_same : (sendDcw cfg env er).stage = er.stage ∧
    (sendDcw cfg env er).matchingRdr = er.matchingRdr := by
  have hmark := markSource_same cfg er
  have hacosc := acosc_same cfg env (markSource cfg er)
  have hcount := countCw_same (acosc cfg env (markSource cfg er))
  unfold sendDcw
  dsimp only
  split_ifs
  · exact ⟨hcount.1.trans (hacosc.1.trans hmark.1), hcount.2.trans (hacosc.2.trans hmark.2)⟩
  · exact ⟨hcount.1.trans (hacosc.1.trans hmark.1), hcount.2.trans (hacosc.2.trans hmark.2)⟩
  · exact ⟨hacosc.1.trans hmark.1, hacosc.2.trans hmark.2⟩
  · exact ⟨rfl, rfl⟩

private theorem acosc_notFound (h : er.rc = E_NOTFOUND) : NotFound cfg (acosc cfg env er) := by
  unfold acosc
  split_ifs with hacosc
  · exact .inr ⟨hacosc.1, .inl rfl⟩
  · exact .inr ⟨hacosc.1, .inr rfl⟩
  · exact .inl h
  · exact .inl h

private theorem markSource_notFound (h : er.rc = E_NOTFOUND) :
    (markSource cfg er).rc = E_NOTFOUND := by
  have hfound : er.rc ≠ E_FOUND := by
    rw [h]
    decide
  unfold markSource
  simp only [hfound, and_false, false_and, if_false]
  split_ifs <;> exact h

private theorem NotFound.range {cfg : Config} {er : EcmRequest} (h : NotFound cfg er) :
    E_NOTFOUND ≤ er.rc ∧ er.rc < E_99 := by
  rcases h with h | ⟨-, h | h⟩ <;> rw [h] <;> decide

private theorem deliver_notFound (h : NotFound cfg er) : NotFound cfg (deliver env er) := by
  rcases h with h | ⟨hon, h | h⟩
  · left
    simp [deliver, h, E_FAKE, E_NOTFOUND]
  · exact .inr ⟨hon, .inl (by simp [deliver, h])⟩
  · exact .inr ⟨hon, .inr (by simp [deliver, h, E_FAKE, E_NOTFOUND, E_DISABLED])⟩

theorem sendDcw_notFound (h : er.rc = E_NOTFOUND) : NotFound cfg (sendDcw cfg env er) := by
  have hacosc := acosc_notFound cfg env _ (markSource_notFound cfg er h)
  have hnocheck : doubleChecks cfg (acosc cfg env (markSource cfg er)) = false := by
    have hrange := hacosc.range
    have hle : ¬ (acosc cfg env (markSource cfg er)).rc ≤ E_CACHE2 := by
      have hlt : E_CACHE2 < E_NOTFOUND := by decide
      omega
    simp [doubleChecks, hle]
  unfold sendDcw
  dsimp only
  split_ifs with hclient
  · simp_all
  · simp_all
  · exact deliver_notFound cfg env _ hacosc
  · exact .inl h

end SendDcw

private theorem not_lt_of_open {rc : ℕ} (h : E_UNHANDLED ≤ rc) : ¬ rc < E_99 := by
  have hlt : E_99 < E_UNHANDLED := by decide
  omega

section Left

variable {cfg : Config} {er : EcmRequest} {queue : List ℕ}

private theorem Kept.exists_left (hk : Kept cfg er queue) {kind : Status → Bool}
    (h : left kind er) : ∃ ea ∈ er.matchingRdr, ea.status.readerFallback = false ∧
      ea.status.readerActive ∧ ea.status.requestAnswered = false := by
  obtain ⟨ea, hmem, hea⟩ := List.any_eq_true.mp h
  have hnoCw : ¬ ea.rc < E_NOTFOUND := Nat.not_lt.mpr (hk.noCw ea hmem)
  simp only [hnoCw, decide_false, Bool.or_false, Bool.and_eq_true, Bool.not_eq_true'] at hea
  exact ⟨ea, hmem, hea.1.1.1.1, hea.1.2, hea.1.1.2⟩

private theorem Kept.exists_readerLeft (hk : Kept cfg er queue) (h : readerLeft er) :
    ∃ ea ∈ er.matchingRdr, ea.status.readerActive ∧ ea.status.requestAnswered = false := by
  obtain ⟨ea, hmem, hea⟩ := List.any_eq_true.mp h
  have hnoCw : ¬ ea.rc < E_NOTFOUND := Nat.not_lt.mpr (hk.noCw ea hmem)
  simp only [hnoCw, decide_false, Bool.or_false, Bool.and_eq_true, Bool.not_eq_true'] at hea
  exact ⟨ea, hmem, hea.2, hea.1⟩

/-- Before stage 2 the readers that are no cacheex ones were not asked. -/
private theorem Kept.exists_normal (hk : Kept cfg er queue) (hstage : er.stage ≤ 1)
    (h : ∃ ea ∈ er.matchingRdr, ea.status.readerActive ∧ ea.status.readerCacheex = false) :
    ∃ ea ∈ er.matchingRdr, Pends queue ea := by
  obtain ⟨ea, hmem, hactive, hcacheex⟩ := h
  have hunsent : ea.status.requestSent = false := by
    cases hsent : ea.status.requestSent with
    | false => rfl
    | true =>
      have honly := hk.onlyCacheex hstage ea hmem hsent
      rw [hcacheex] at honly
      cases honly
  exact ⟨ea, hmem, .inr ⟨hactive, hk.unanswered hmem hunsent⟩⟩

private theorem getEcmAnswer_mem {reader : ℕ} {ea : EcmAnswer}
    (h : getEcmAnswer reader er = some ea) : ea ∈ er.matchingRdr ∧ ea.reader = reader := by
  unfold getEcmAnswer at h
  constructor
  · exact List.mem_of_find?_eq_some h
  · simpa using List.find?_some h

end Left

section ChkDcw

variable {cfg : Config} {env : Env} {er : EcmRequest} {reader : ℕ} {queue : List ℕ} {ea : EcmAnswer}

/-- Where an answer is not heeded, another one pends. -/
private theorem exists_pends_of_guard (hopen : E_UNHANDLED ≤ er.rc) (hobliged : Obliged er)
    (hea : ea ∈ er.matchingRdr) (hreader : ea.reader = reader) (hnot : ¬ Heeded cfg ea)
    (hg : HeededOrNotLast cfg ⟨true, er, reader :: queue⟩ reader queue) : OtherPends queue er := by
  rcases hg with h | h | ⟨hexp, hcount⟩ | h
  · exact absurd h (not_lt_of_open hopen)
  · exact absurd (h ea hea hreader) hnot
  · change er.cacheexWaitTimeExpired = false at hexp
    change normalCount er ≤ 0 at hcount
    rcases hobliged with hobliged | hobliged
    · rw [hexp] at hobliged
      cases hobliged
    · omega
  · exact h

/-- `chk_dcw` passes over the answer. -/
private theorem Waiting.pass (hw : Waiting er (reader :: queue)) {er' : EcmRequest}
    (hs : SameStage er er') (hstage : 2 ≤ er.stage) (hp : Obliged er → OtherPends queue er) :
    Waiting er' queue := by
  apply hw.congr hs
  intro hobliged
  obtain ⟨other, hmem, hpends, hfallback⟩ := hp hobliged
  exact ⟨other, hmem, hpends, hfallback hstage⟩

private theorem SameStage.refl (er : EcmRequest) : SameStage er er := ⟨rfl, rfl, rfl, rfl, rfl⟩

theorem chkCacheex_inv (hk : Kept cfg er (reader :: queue))
    (hw : Waiting er (reader :: queue)) (hp : Obliged er → OtherPends queue er) :
    Kept cfg (chkCacheex env er) queue ∧ Waiting (chkCacheex env er) queue := by
  have hsub : ∀ r ∈ queue, r ∈ reader :: queue := fun r hr => List.mem_cons_of_mem _ hr
  have hkept : Kept cfg er queue := hk.congr rfl rfl hsub
  unfold chkCacheex
  split_ifs with hwait hlast
  · refine ⟨hkept, hw.congr (.refl er) ?_⟩
    intro hobliged
    simp only [Bool.and_eq_true, Bool.not_eq_true'] at hwait
    obtain ⟨other, hmem, hpends, hfallback⟩ := hp hobliged
    rcases hobliged with hexp | ⟨-, hstage⟩
    · rw [hwait.1] at hexp
      cases hexp
    · exact ⟨other, hmem, hpends, hfallback hstage⟩
  · -- all cacheex readers have answered in stage 1
    have ha := requestCwFromReaders_asked env 0 er
    have hr := requestCwFromReaders_reached env er (by omega)
    have hlater := hr.later
    constructor
    · exact hkept.asked ha (by omega) hr.last
    · apply Waiting.reached hkept ha hr
      · intro hcount
        exact hw.normal hcount (by omega)
      · exact hw.prefer
      · omega
      · intro _ hobliged
        have hobliged' : Obliged er ∨ er.cacheexWaitTimeExpired = false := by
          cases hexp : er.cacheexWaitTimeExpired with
          | true => exact .inl (.inl hexp)
          | false => exact .inr rfl
        rcases hobliged' with hobliged' | hexp
        · obtain ⟨other, hmem, hpends, -⟩ := hp hobliged'
          exact ⟨other, hmem, hpends⟩
        · have hcount : 0 < normalCount er := by
            rcases hobliged with hobliged | hobliged
            · rw [ha.expired, hexp] at hobliged
              cases hobliged
            · exact normalCount_asked ha ▸ hobliged.1
          exact hkept.exists_normal (by omega) (hw.normal hcount (by omega))
  · refine ⟨hkept, hw.congr (.refl er) ?_⟩
    intro hobliged
    by_cases hstage : 2 ≤ er.stage
    · obtain ⟨other, hmem, hpends, hfallback⟩ := hp hobliged
      exact ⟨other, hmem, hpends, hfallback hstage⟩
    · have hexp : er.cacheexWaitTimeExpired := by
        rcases hobliged with hobliged | hobliged
        · exact hobliged
        · omega
      have hone : er.stage = 1 := by
        have hzero : er.stage ≠ 0 := by
          intro hzero
          rw [hw.zero hzero] at hexp
          cases hexp
        omega
      have hhas := hw.one hone hexp
      have hleft : left (·.readerCacheex) er := by
        simpa [hone, hhas] using hlast
      obtain ⟨other, hmem, hfallback, hactive, hans⟩ := hk.exists_left hleft
      exact ⟨other, hmem, .inr ⟨hactive, hans⟩, fun _ => hfallback⟩

private theorem Kept.asked_in_two (hk : Kept cfg er (reader :: queue)) (hea : ea ∈ er.matchingRdr)
    (hreader : ea.reader = reader) (hnormal : cfg.cacheexReader ea.reader = false) :
    2 ≤ er.stage := by
  have hqueue : ea.reader ∈ reader :: queue := by
    rw [hreader]
    exact List.mem_cons_self
  have hsent := hk.sent ea hea (hk.queued ea hea hqueue)
  by_contra hstage
  have honly := hk.onlyCacheex (by omega) ea hea hsent
  rw [hk.cacheex ea hea, hnormal] at honly
  cases honly

/-- The request after the test of the stages: it waits, as another answer is still to come. -/
private theorem chkNotfound_waiting (hk : Kept cfg er (reader :: queue))
    (hw : Waiting er (reader :: queue)) (hstage : 2 ≤ er.stage) (hleft : readerLeft er)
    {er₁ : EcmRequest} (hs : SameStage er er₁) :
    let escalates := (er.stage = 2 ∧ has (·.readerLocal) er && !left (·.readerLocal) er) ∨
      (er.stage = 3 ∧ has (fun _ => true) er && !left (fun _ => true) er)
    let er₂ := if escalates then requestCwFromReaders env 0 er₁ else er₁
    Kept cfg er₂ queue ∧ Waiting er₂ queue := by
  intro escalates er₂
  have hsub : ∀ r ∈ queue, r ∈ reader :: queue := fun r hr => List.mem_cons_of_mem _ hr
  have hkept : Kept cfg er₁ queue := hk.congr hs.rdrs hs.stage hsub
  obtain ⟨other, hmem, hactive, hans⟩ := hk.exists_readerLeft hleft
  have hpends : Pends queue other := .inr ⟨hactive, hans⟩
  by_cases hesc : escalates
  · have her₂ : er₂ = requestCwFromReaders env 0 er₁ := if_pos hesc
    have hlt : er.stage < 4 := by
      rcases hesc with ⟨h, -⟩ | ⟨h, -⟩ <;> omega
    have hlt₁ : er₁.stage < 4 := hs.stage ▸ hlt
    have ha := requestCwFromReaders_asked env 0 er₁
    have hr := requestCwFromReaders_reached env er₁ hlt₁
    have hlater := hr.later
    rw [hs.stage] at hlater
    rw [her₂]
    constructor
    · exact hkept.asked ha (by omega) hr.last
    · apply Waiting.reached hkept ha hr
      · rw [hs.normal, hs.rdrs]
        intro hcount
        exact hw.normal hcount (by omega)
      · rw [hs.expired, hs.prefer]
        exact hw.prefer
      · omega
      · intro _ _
        exact ⟨other, hs.rdrs ▸ hmem, hpends⟩
  · have her₂ : er₂ = er₁ := if_neg hesc
    rw [her₂]
    refine ⟨hkept, hw.congr hs ?_⟩
    intro _
    by_cases htwo : er.stage = 2
    · have hlocal : left (·.readerLocal) er := by
        have hhas := hw.two htwo
        by_contra hno
        exact hesc (.inl ⟨htwo, by rw [hhas, Bool.eq_false_iff.mpr hno]; rfl⟩)
      obtain ⟨next, hnext, hfallback, hactive, hans⟩ := hk.exists_left hlocal
      exact ⟨next, hnext, .inr ⟨hactive, hans⟩, fun _ => hfallback⟩
    · by_cases hthree : er.stage = 3
      · have hany : left (fun _ => true) er := by
          have hhas := hw.three hthree
          by_contra hno
          exact hesc (.inr ⟨hthree, by rw [hhas, Bool.eq_false_iff.mpr hno]; rfl⟩)
        obtain ⟨next, hnext, hfallback, hactive, hans⟩ := hk.exists_left hany
        exact ⟨next, hnext, .inr ⟨hactive, hans⟩, fun _ => hfallback⟩
      · exact ⟨other, hmem, hpends, by omega⟩

/-- A heeded answer: the request is answered, or waits for another one. -/
theorem chkNotfound_inv (hwait : cfg.waitUntilCtimeout = false)
    (hk : Kept cfg er (reader :: queue)) (hopen : E_UNHANDLED ≤ er.rc)
    (hw : Waiting er (reader :: queue)) (hstage : 2 ≤ er.stage) :
    Kept cfg (chkNotfound cfg env ea er) queue ∧
      ((chkNotfound cfg env ea er).rc = E_NOTFOUND ∨
        E_UNHANDLED ≤ (chkNotfound cfg env ea er).rc ∧ Waiting (chkNotfound cfg env ea er) queue) := by
  have hs : SameStage er { er with rcEx := ea.rcEx } := ⟨rfl, rfl, rfl, rfl, rfl⟩
  have hsub : ∀ r ∈ queue, r ∈ reader :: queue := fun r hr => List.mem_cons_of_mem _ hr
  have ha := requestCwFromReaders_asked env 0 { er with rcEx := ea.rcEx }
  by_cases hleft : readerLeft er
  · have hwaiting := @chkNotfound_waiting _ env _ _ _ hk hw hstage hleft _ hs
    have hno : (!readerLeft er && !cfg.waitUntilCtimeout) = false := by
      simp [hleft]
    unfold chkNotfound
    dsimp only
    rw [hno, if_neg Bool.false_ne_true]
    refine ⟨hwaiting.1, .inr ⟨?_, hwaiting.2⟩⟩
    split_ifs
    · rw [ha.rc]
      exact hopen
    · exact hopen
  · have hnone : (!readerLeft er && !cfg.waitUntilCtimeout) = true := by
      simp [hleft, hwait]
    unfold chkNotfound
    dsimp only
    rw [hnone, if_pos rfl]
    refine ⟨?_, .inl rfl⟩
    have hkept : Kept cfg { er with rcEx := ea.rcEx } queue := hk.congr rfl rfl hsub
    by_cases hesc : (er.stage = 2 ∧ has (·.readerLocal) er && !left (·.readerLocal) er) ∨
        (er.stage = 3 ∧ has (fun _ => true) er && !left (fun _ => true) er)
    · have hlt : er.stage < 4 := by
        rcases hesc with ⟨h, -⟩ | ⟨h, -⟩ <;> omega
      have hr := requestCwFromReaders_reached env { er with rcEx := ea.rcEx } hlt
      have hlater : er.stage < _ := hr.later
      rw [if_pos hesc]
      exact (hkept.asked ha (by omega) hr.last).congr rfl rfl fun _ h => h
    · rw [if_neg hesc]
      exact hkept.congr rfl rfl fun _ h => h

/-- One answer taken from the queue. -/
theorem chkDcw_inv (hwait : cfg.waitUntilCtimeout = false)
    (hk : Kept cfg er (reader :: queue))
    (hw : NotFound cfg er ∨ E_UNHANDLED ≤ er.rc ∧ Waiting er (reader :: queue))
    (hea : getEcmAnswer reader er = some ea)
    (hg : HeededOrNotLast cfg ⟨true, er, reader :: queue⟩ reader queue) :
    Kept cfg (chkDcw cfg env ea er) queue ∧
      (NotFound cfg (chkDcw cfg env ea er) ∨
        E_UNHANDLED ≤ (chkDcw cfg env ea er).rc ∧ Waiting (chkDcw cfg env ea er) queue) := by
  have hsub : ∀ r ∈ queue, r ∈ reader :: queue := fun r hr => List.mem_cons_of_mem _ hr
  obtain ⟨hmem, hreader⟩ := getEcmAnswer_mem hea
  unfold chkDcw
  by_cases hclosed : er.rc < E_99
  · rw [if_pos hclosed]
    rcases hw with hw | ⟨hopen, -⟩
    · exact ⟨hk.congr rfl rfl hsub, .inl hw⟩
    · exact absurd hclosed (not_lt_of_open hopen)
  rw [if_neg hclosed]
  obtain ⟨hopen, hw⟩ : E_UNHANDLED ≤ er.rc ∧ Waiting er (reader :: queue) := by
    rcases hw with hw | hw
    · exact absurd hw.range.2 hclosed
    · exact hw
  by_cases hcacheex : cfg.cacheexReader ea.reader
  · rw [if_pos hcacheex]
    have hnot : ¬ Heeded cfg ea := by
      intro h
      rw [h.1] at hcacheex
      cases hcacheex
    have hp : Obliged er → OtherPends queue er := fun hobliged =>
      exists_pends_of_guard hopen hobliged hmem hreader hnot hg
    have hinv := @chkCacheex_inv _ env _ _ _ hk hw hp
    have hrc := (requestCwFromReaders_asked env 0 er).rc
    refine ⟨hinv.1, .inr ⟨?_, hinv.2⟩⟩
    unfold chkCacheex
    split_ifs
    · exact hopen
    · rw [hrc]
      exact hopen
    · exact hopen
  · rw [if_neg hcacheex]
    have hnormal : cfg.cacheexReader ea.reader = false := Bool.eq_false_iff.mpr hcacheex
    have hstage := hk.asked_in_two hmem hreader hnormal
    have hfound : ea.rc ≠ E_FOUND := by
      have hnoCw := hk.noCw ea hmem
      have hlt : E_FOUND < E_NOTFOUND := by decide
      omega
    have hs : SameStage er { er with selectedReader := some ea.reader } := ⟨rfl, rfl, rfl, rfl, rfl⟩
    unfold takeAnswer
    dsimp only
    rw [if_neg hfound]
    by_cases hcode : ea.rc = E_INVALID ∨ ea.rc = E_NOTFOUND
    · rw [if_pos hcode]
      have hk' : Kept cfg { er with selectedReader := some ea.reader } (reader :: queue) :=
        hk.congr rfl rfl fun _ h => h
      have hw' : Waiting { er with selectedReader := some ea.reader } (reader :: queue) :=
        hw.congr hs hw.pends
      obtain ⟨hkept, hdone⟩ := @chkNotfound_inv _ env _ _ _ ea hwait hk' hopen hw' hstage
      rcases hdone with hdone | ⟨hopen', hwaiting⟩
      · have hlt : (chkNotfound cfg env ea { er with selectedReader := some ea.reader }).rc < E_99 := by
          rw [hdone]
          decide
        rw [if_pos hlt]
        have hsame := sendDcw_same cfg env
          (chkNotfound cfg env ea { er with selectedReader := some ea.reader })
        constructor
        · exact hkept.congr hsame.2 hsame.1 fun _ h => h
        · exact .inl (sendDcw_notFound cfg env _ hdone)
      · rw [if_neg (not_lt_of_open hopen')]
        exact ⟨hkept, .inr ⟨hopen', hwaiting⟩⟩
    · rw [if_neg hcode, if_neg hclosed]
      have hnot : ¬ Heeded cfg ea := fun h => hcode h.2
      have hp : Obliged er → OtherPends queue er := fun hobliged =>
        exists_pends_of_guard hopen hobliged hmem hreader hnot hg
      constructor
      · exact hk.congr rfl rfl hsub
      · exact .inr ⟨hopen, hw.pass hs hstage hp⟩

end ChkDcw

section Answers

variable {cfg : Config} {er : EcmRequest} {reader : ℕ} {queue : List ℕ}

/-- The answer of one reader is stored. -/
private def storeIf (reader rc rcEx : ℕ) (cw : Option Cw) (ea : EcmAnswer) : EcmAnswer :=
  if ea.reader = reader then ea.store true rc rcEx cw else ea

section StoreIf

variable (rc rcEx : ℕ) (cw : Option Cw) (ea : EcmAnswer)

private theorem storeIf_flags :
    (storeIf reader rc rcEx cw ea).reader = ea.reader ∧
      (storeIf reader rc rcEx cw ea).status.readerActive = ea.status.readerActive ∧
      (storeIf reader rc rcEx cw ea).status.readerFallback = ea.status.readerFallback ∧
      (storeIf reader rc rcEx cw ea).status.readerLocal = ea.status.readerLocal ∧
      (storeIf reader rc rcEx cw ea).status.readerCacheex = ea.status.readerCacheex ∧
      (storeIf reader rc rcEx cw ea).status.requestSent = ea.status.requestSent := by
  unfold storeIf
  split_ifs <;> exact ⟨rfl, rfl, rfl, rfl, rfl, rfl⟩

private theorem storeIf_answered :
    (storeIf reader rc rcEx cw ea).status.requestAnswered =
      (ea.status.requestAnswered || decide (ea.reader = reader)) := by
  unfold storeIf
  split_ifs with h <;> simp [h, EcmAnswer.store]

private theorem storeIf_rc (hrc : E_NOTFOUND ≤ rc) (hea : E_NOTFOUND ≤ ea.rc) :
    E_NOTFOUND ≤ (storeIf reader rc rcEx cw ea).rc := by
  unfold storeIf
  split_ifs
  · exact hrc
  · exact hea

end StoreIf

/-- An answer without a control word is stored as it is, or takes all readers out. -/
private theorem writeEcmAnswer_cases {given : Given} (hrc : E_NOTFOUND ≤ given.rc)
    (hawaits : awaits er reader) :
    writeEcmAnswer reader given er =
        (wrongChksum er).update reader (·.store true E_INVALID E2_WRONG_CHKSUM given.cw) ∨
      writeEcmAnswer reader given er =
        er.update reader (·.store true given.rc given.rcEx given.cw) := by
  have hlt : ¬ given.rc < E_NOTFOUND := Nat.not_lt.mpr hrc
  unfold awaits at hawaits
  unfold writeEcmAnswer
  cases hea : getEcmAnswer reader er with
  | none =>
    rw [hea] at hawaits
    cases hawaits
  | some ea =>
    rw [hea] at hawaits
    simp only [Option.any_some, Bool.and_eq_true, Bool.not_eq_true'] at hawaits
    simp only [hlt, decide_false, Bool.and_false, hawaits.2, checkedRc, Given.cycles, cycleCheck,
      Bool.false_eq_true, if_false, false_and, Bool.not_false]
    split_ifs
    · exact .inl rfl
    · exact .inr rfl

/-- The reader that answers was asked, and has no other answer. -/
private theorem awaits_unique (hk : Kept cfg er queue) (hawaits : awaits er reader) :
    (∃ ea ∈ er.matchingRdr, ea.reader = reader) ∧
      ∀ ea ∈ er.matchingRdr, ea.reader = reader → ea.status.requestSent := by
  unfold awaits at hawaits
  cases hea : getEcmAnswer reader er with
  | none =>
    rw [hea] at hawaits
    cases hawaits
  | some ea =>
    rw [hea] at hawaits
    simp only [Option.any_some, Bool.and_eq_true, Bool.not_eq_true'] at hawaits
    obtain ⟨hmem, hreader⟩ := getEcmAnswer_mem hea
    constructor
    · exact ⟨ea, hmem, hreader⟩
    · intro ea' hmem' hreader'
      rw [hk.distinct ea' hmem' ea hmem (hreader'.trans hreader.symm)]
      exact hawaits.1

private theorem Kept.store (hk : Kept cfg er queue) {rc rcEx : ℕ} (cw : Option Cw)
    (hrc : E_NOTFOUND ≤ rc)
    (hsent : ∀ ea ∈ er.matchingRdr, ea.reader = reader → ea.status.requestSent) :
    Kept cfg (er.update reader (·.store true rc rcEx cw)) (queue ++ [reader]) := by
  have hmem : ∀ ea' ∈ (er.update reader (·.store true rc rcEx cw)).matchingRdr,
      ∃ ea ∈ er.matchingRdr, ea' = storeIf reader rc rcEx cw ea := by
    intro ea' hea'
    obtain ⟨ea, hea, rfl⟩ := List.mem_map.mp hea'
    exact ⟨ea, hea, rfl⟩
  have hflags := @storeIf_flags reader rc rcEx cw
  have hans := @storeIf_answered reader rc rcEx cw
  constructor
  · intro ea₁ h₁ ea₂ h₂ heq
    obtain ⟨ea₁, hea₁, rfl⟩ := hmem ea₁ h₁
    obtain ⟨ea₂, hea₂, rfl⟩ := hmem ea₂ h₂
    rw [(hflags ea₁).1, (hflags ea₂).1] at heq
    rw [hk.distinct ea₁ hea₁ ea₂ hea₂ heq]
  · intro ea' h'
    obtain ⟨ea, hea, rfl⟩ := hmem ea' h'
    exact storeIf_rc rc rcEx cw ea hrc (hk.noCw ea hea)
  · intro ea' h'
    obtain ⟨ea, hea, rfl⟩ := hmem ea' h'
    rw [(hflags ea).1, (hflags ea).2.2.2.2.1]
    exact hk.cacheex ea hea
  · intro ea' h'
    obtain ⟨ea, hea, rfl⟩ := hmem ea' h'
    rw [hans, (hflags ea).2.2.2.2.2, Bool.or_eq_true, decide_eq_true_eq]
    intro h
    rcases h with h | h
    · exact hk.sent ea hea h
    · exact hsent ea hea h
  · intro ea' h'
    obtain ⟨ea, hea, rfl⟩ := hmem ea' h'
    rw [(hflags ea).1, hans, List.mem_append, List.mem_singleton, Bool.or_eq_true,
      decide_eq_true_eq]
    intro h
    rcases h with h | h
    · exact .inl (hk.queued ea hea h)
    · exact .inr h
  · intro hstage ea' h'
    obtain ⟨ea, hea, rfl⟩ := hmem ea' h'
    rw [(hflags ea).2.2.2.2.2]
    exact hk.unasked hstage ea hea
  · intro hstage ea' h'
    obtain ⟨ea, hea, rfl⟩ := hmem ea' h'
    rw [(hflags ea).2.2.2.2.2, (hflags ea).2.2.2.2.1]
    exact hk.onlyCacheex hstage ea hea
  · intro hstage ea' h'
    obtain ⟨ea, hea, rfl⟩ := hmem ea' h'
    rw [(hflags ea).2.1, (hflags ea).2.2.1]
    exact hk.out hstage ea hea
  · exact hk.stage

private theorem Waiting.store (hw : Waiting er queue) (rc rcEx : ℕ) (cw : Option Cw) :
    Waiting (er.update reader (·.store true rc rcEx cw)) (queue ++ [reader]) := by
  have hmap : (er.update reader (·.store true rc rcEx cw)).matchingRdr =
      er.matchingRdr.map (storeIf reader rc rcEx cw) := rfl
  have hflags := @storeIf_flags reader rc rcEx cw
  have hans := @storeIf_answered reader rc rcEx cw
  constructor
  · exact hw.zero
  · exact hw.prefer
  · intro hcount hstage
    obtain ⟨ea, hea, hactive, hcacheex⟩ := hw.normal hcount hstage
    refine ⟨storeIf reader rc rcEx cw ea, hmap ▸ List.mem_map_of_mem hea, ?_⟩
    rw [(hflags ea).2.1, (hflags ea).2.2.2.2.1]
    exact ⟨hactive, hcacheex⟩
  · intro hstage hexp
    rw [has_map hmap _ fun ea => ⟨(hflags ea).2.2.1, (hflags ea).2.1, (hflags ea).2.2.2.2.1⟩]
    exact hw.one hstage hexp
  · intro hstage
    rw [has_map hmap _ fun ea => ⟨(hflags ea).2.2.1, (hflags ea).2.1, (hflags ea).2.2.2.1⟩]
    exact hw.two hstage
  · intro hstage
    rw [has_map hmap _ fun ea => ⟨(hflags ea).2.2.1, (hflags ea).2.1, rfl⟩]
    exact hw.three hstage
  · intro hobliged
    obtain ⟨ea, hea, hpends, hfallback⟩ := hw.pends hobliged
    refine ⟨storeIf reader rc rcEx cw ea, hmap ▸ List.mem_map_of_mem hea, ?_, ?_⟩
    · unfold Pends at hpends ⊢
      rw [(hflags ea).1, (hflags ea).2.1, hans, List.mem_append, List.mem_singleton]
      by_cases hreader : ea.reader = reader
      · exact .inl (.inr hreader)
      · rcases hpends with hpends | hpends
        · exact .inl (.inl hpends)
        · exact .inr ⟨hpends.1, by simp [hpends.2, hreader]⟩
    · rw [(hflags ea).2.2.1]
      exact hfallback

private theorem Kept.wrongChksum (hk : Kept cfg er queue) : Kept cfg (wrongChksum er) queue := by
  have hmem : ∀ ea' ∈ (Answer.wrongChksum er).matchingRdr, ∃ ea ∈ er.matchingRdr,
      ea' = { ea with status := { ea.status with readerActive := false, readerFallback := false } } := by
    intro ea' hea'
    obtain ⟨ea, hea, rfl⟩ := List.mem_map.mp hea'
    exact ⟨ea, hea, rfl⟩
  have hstage : (Answer.wrongChksum er).stage = 5 := rfl
  constructor
  · intro ea₁ h₁ ea₂ h₂ heq
    obtain ⟨ea₁, hea₁, rfl⟩ := hmem ea₁ h₁
    obtain ⟨ea₂, hea₂, rfl⟩ := hmem ea₂ h₂
    rw [hk.distinct ea₁ hea₁ ea₂ hea₂ heq]
  · intro ea' h'
    obtain ⟨ea, hea, rfl⟩ := hmem ea' h'
    exact hk.noCw ea hea
  · intro ea' h'
    obtain ⟨ea, hea, rfl⟩ := hmem ea' h'
    exact hk.cacheex ea hea
  · intro ea' h'
    obtain ⟨ea, hea, rfl⟩ := hmem ea' h'
    exact hk.sent ea hea
  · intro ea' h'
    obtain ⟨ea, hea, rfl⟩ := hmem ea' h'
    exact hk.queued ea hea
  · omega
  · omega
  · intro _ ea' h'
    obtain ⟨ea, -, rfl⟩ := hmem ea' h'
    exact ⟨rfl, rfl⟩
  · omega

/-- Without readers only the answer that took them out pends. -/
private theorem Waiting.wrongChksum (hw : Waiting er queue) {ea : EcmAnswer}
    (hea : ea ∈ er.matchingRdr) (hreader : ea.reader = reader) (rc rcEx : ℕ) (cw : Option Cw) :
    Waiting ((wrongChksum er).update reader (·.store true rc rcEx cw)) (queue ++ [reader]) := by
  have hstage : ((Answer.wrongChksum er).update reader (·.store true rc rcEx cw)).stage = 5 := rfl
  constructor
  · omega
  · exact hw.prefer
  · omega
  · omega
  · omega
  · omega
  · intro _
    refine ⟨_, List.mem_map_of_mem (List.mem_map_of_mem hea), .inl ?_, by omega⟩
    rw [if_pos hreader]
    exact List.mem_append_right _ (hreader ▸ List.mem_singleton_self _)

/-- A reader's thread stores its answer. -/
theorem writeEcmAnswer_inv {given : Given} (hk : Kept cfg er queue)
    (hw : NotFound cfg er ∨ E_UNHANDLED ≤ er.rc ∧ Waiting er queue)
    (hrc : E_NOTFOUND ≤ given.rc) (hawaits : awaits er reader) :
    Kept cfg (writeEcmAnswer reader given er) (queue ++ [reader]) ∧
      (NotFound cfg (writeEcmAnswer reader given er) ∨
        E_UNHANDLED ≤ (writeEcmAnswer reader given er).rc ∧
          Waiting (writeEcmAnswer reader given er) (queue ++ [reader])) := by
  obtain ⟨⟨ea, hea, hreader⟩, hsent⟩ := awaits_unique hk hawaits
  rcases writeEcmAnswer_cases hrc hawaits with h | h
  · rw [h]
    have hsent' : ∀ ea ∈ (wrongChksum er).matchingRdr, ea.reader = reader →
        ea.status.requestSent := by
      intro ea' hea'
      obtain ⟨ea, hea, rfl⟩ := List.mem_map.mp hea'
      exact hsent ea hea
    refine ⟨hk.wrongChksum.store given.cw (by decide) hsent', ?_⟩
    rcases hw with hw | ⟨hopen, hw⟩
    · exact .inl hw
    · exact .inr ⟨hopen, hw.wrongChksum hea hreader E_INVALID E2_WRONG_CHKSUM given.cw⟩
  · rw [h]
    refine ⟨hk.store given.cw hrc hsent, ?_⟩
    rcases hw with hw | ⟨hopen, hw⟩
    · exact .inl hw
    · exact .inr ⟨hopen, hw.store given.rc given.rcEx given.cw⟩

end Answers

section Timeouts

variable {cfg : Config} {env : Env} {er : EcmRequest} {queue : List ℕ}

/-- Stage 1 is entered only with a cacheex reader that is counted there. -/
theorem has_cacheex_of_reached {er' : EcmRequest} (hr : Reached env er er')
    (hguard : er.stage = 0 → StageOne env er) (hone : er'.stage = 1) :
    has (·.readerCacheex) er := by
  have hlater := hr.later
  have hasked := hr.waits (by omega)
  rw [hone] at hasked
  exact hguard (by omega) (hr.one hone) hasked

/-- While the wait time is on nobody is obliged before stage 2. -/
theorem Waiting.delayed (hexp : er.cacheexWaitTimeExpired = false) (hstage : er.stage ≤ 1)
    (hprefer : er.preferlocalcards ≠ 2)
    (hnormal : 0 < normalCount er →
      ∃ ea ∈ er.matchingRdr, ea.status.readerActive ∧ ea.status.readerCacheex = false) :
    Waiting er queue := by
  constructor
  · exact fun _ => hexp
  · exact fun _ => hprefer
  · exact fun hcount _ => hnormal hcount
  · intro _ h
    rw [hexp] at h
    cases h
  · omega
  · omega
  · intro hobliged
    rcases hobliged with h | h
    · rw [hexp] at h
      cases h
    · omega

theorem Waiting.normal_asked (hw : Waiting er queue) {er' : EcmRequest} (ha : Asked er er')
    (hstage : er.stage ≤ 4) (hcount : 0 < normalCount er') :
    ∃ ea ∈ er'.matchingRdr, ea.status.readerActive ∧ ea.status.readerCacheex = false := by
  obtain ⟨ea, hea, hactive, hcacheex⟩ := hw.normal (normalCount_asked ha ▸ hcount) hstage
  obtain ⟨f, hf⟩ := ha.mem_of_mem hea
  exact ⟨ea.sendIf f, hf, by simpa using hactive, by simpa using hcacheex⟩

theorem cacheexTimeout_inv (hwait : cfg.waitUntilCtimeout = false) (hk : Kept cfg er queue)
    (hw : NotFound cfg er ∨ E_UNHANDLED ≤ er.rc ∧ Waiting er queue)
    (hguard : er.stage = 0 → StageOne env er) :
    Kept cfg (cacheexTimeout cfg env false er) queue ∧
      (NotFound cfg (cacheexTimeout cfg env false er) ∨
        E_UNHANDLED ≤ (cacheexTimeout cfg env false er).rc ∧
          Waiting (cacheexTimeout cfg env false er) queue) := by
  have hk' : Kept cfg { er with cacheexWaitTimeExpired := true } queue :=
    hk.congr rfl rfl fun _ h => h
  unfold cacheexTimeout
  by_cases hexp : er.cacheexWaitTimeExpired
  · rw [if_pos hexp]
    exact ⟨hk, hw⟩
  rw [if_neg hexp]
  rcases hw with hw | ⟨hopen, hw⟩
  · have hclosed : ¬ E_UNHANDLED ≤ er.rc := fun h => not_lt_of_open h hw.range.2
    dsimp only
    rw [if_neg hclosed]
    exact ⟨hk', .inl hw⟩
  dsimp only
  rw [if_pos hopen, if_neg Bool.false_ne_true]
  by_cases hcount : (er.readerCount + er.fallbackReaderCount : ℤ) - er.cacheexReaderCount ≤ 0
  · rw [if_pos hcount, hwait, if_neg Bool.false_ne_true]
    have hsame := sendDcw_same cfg env
      { er with
        cacheexWaitTimeExpired := true, rc := E_NOTFOUND, selectedReader := none, rcEx := 0 }
    constructor
    · exact hk.congr hsame.2 hsame.1 fun _ h => h
    · exact .inl (sendDcw_notFound cfg env _ rfl)
  rw [if_neg hcount]
  have hcount : 0 < normalCount er := Int.not_le.mp hcount
  by_cases hstage : er.stage < 2
  · rw [if_pos hstage]
    have ha := requestCwFromReaders_asked env 0 { er with cacheexWaitTimeExpired := true }
    have hr := requestCwFromReaders_reached env { er with cacheexWaitTimeExpired := true }
      (by change er.stage < 4; omega)
    have hlater : er.stage < _ := hr.later
    refine ⟨hk'.asked ha (by omega) hr.last, .inr ⟨?_, ?_⟩⟩
    · rw [ha.rc]
      exact hopen
    · apply Waiting.reached hk' ha hr
      · intro hcount
        exact hw.normal hcount (by omega)
      · nofun
      · exact has_cacheex_of_reached hr hguard
      · intro _ _
        exact hk.exists_normal (by omega) (hw.normal hcount (by omega))
  · rw [if_neg hstage]
    refine ⟨hk', .inr ⟨hopen, ?_⟩⟩
    constructor
    · intro hzero
      change er.stage = 0 at hzero
      omega
    · nofun
    · exact hw.normal
    · intro hone
      change er.stage = 1 at hone
      omega
    · exact hw.two
    · exact hw.three
    · intro _
      exact hw.pends (.inr ⟨hcount, by omega⟩)

theorem cacheexMode1Delay_inv (hk : Kept cfg er queue)
    (hw : NotFound cfg er ∨ E_UNHANDLED ≤ er.rc ∧ Waiting er queue) :
    Kept cfg (cacheexMode1Delay env er) queue ∧
      (NotFound cfg (cacheexMode1Delay env er) ∨
        E_UNHANDLED ≤ (cacheexMode1Delay env er).rc ∧ Waiting (cacheexMode1Delay env er) queue) := by
  unfold cacheexMode1Delay
  split_ifs with hdelay
  · obtain ⟨hexp, -, -, hstage, hopen⟩ := hdelay
    have hexp : er.cacheexWaitTimeExpired = false := by simpa using hexp
    have hw : Waiting er queue := by
      rcases hw with hw | hw
      · exact absurd hw.range.2 (not_lt_of_open hopen)
      · exact hw.2
    have ha := requestCwFromReaders_asked env 1 er
    have hone := requestCwFromReaders_one env er hstage (hw.prefer hexp)
    refine ⟨hk.asked ha (by omega) (by omega), .inr ⟨ha.rc ▸ hopen, ?_⟩⟩
    apply Waiting.delayed (ha.expired.trans hexp) (by omega)
    · rw [ha.same]
      exact hw.prefer hexp
    · exact hw.normal_asked ha (by omega)
  · exact ⟨hk, hw⟩

theorem fallbackTimeout_inv (hk : Kept cfg er queue)
    (hw : NotFound cfg er ∨ E_UNHANDLED ≤ er.rc ∧ Waiting er queue) :
    Kept cfg (fallbackTimeout env er) queue ∧
      (NotFound cfg (fallbackTimeout env er) ∨
        E_UNHANDLED ≤ (fallbackTimeout env er).rc ∧ Waiting (fallbackTimeout env er) queue) := by
  unfold fallbackTimeout
  split_ifs with hlate
  · obtain ⟨hopen, hstage⟩ := hlate
    have hw : Waiting er queue := by
      rcases hw with hw | hw
      · exact absurd hw.range.2 (not_lt_of_open hopen)
      · exact hw.2
    have ha := fallbackLoop_asked env (4 - er.stage) er
    have hfour := fallbackLoop_stage env (4 - er.stage) er (by omega) (by omega)
    refine ⟨hk.asked ha (by omega) (by omega), .inr ⟨ha.rc ▸ hopen, ?_⟩⟩
    constructor
    · omega
    · rw [ha.expired, ha.same]
      exact hw.prefer
    · intro hcount _
      exact hw.normal_asked ha (by omega) hcount
    · omega
    · omega
    · omega
    · intro hobliged
      have hpends : ∃ ea ∈ er.matchingRdr, Pends queue ea := by
        by_cases hbefore : Obliged er
        · obtain ⟨ea, hea, hpends, -⟩ := hw.pends hbefore
          exact ⟨ea, hea, hpends⟩
        · have hcount : 0 < normalCount er ∧ er.stage ≤ 1 := by
            rcases hobliged with h | ⟨h, -⟩
            · exact absurd (.inl (ha.expired ▸ h)) hbefore
            · rw [normalCount_asked ha] at h
              refine ⟨h, ?_⟩
              by_contra hlate
              exact hbefore (.inr ⟨h, by omega⟩)
          exact hk.exists_normal hcount.2 (hw.normal hcount.1 (by omega))
      obtain ⟨ea, hea, hpends⟩ := hpends
      apply exists_pends_asked ha (p := fun fallback => _ ≤ 3 → fallback = false)
      exact ⟨ea, hea, hpends, by omega⟩
  · exact ⟨hk, hw⟩

end Timeouts

end NCam.Ecm.Answer.Escalation
