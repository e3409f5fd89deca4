import NCam.Ecm.Outcome

/-! The start of an ECM request, and the runs in which the last answer is heeded. -/
namespace NCam.Ecm.Answer.Escalation

open NCam.Lib

section Start

variable {cfg : Config} {env : Env}

private theorem countReaders_same (er : EcmRequest) :
    (countReaders cfg er).matchingRdr = er.matchingRdr ∧
      (countReaders cfg er).stage = er.stage ∧ (countReaders cfg er).rc = er.rc := by
  unfold countReaders
  dsimp only
  split_ifs <;> exact ⟨rfl, rfl, rfl⟩

private theorem countReaders_prefer (er : EcmRequest) (h : er.preferlocalcards < 2) :
    (countReaders cfg er).preferlocalcards ≠ 2 := by
  unfold countReaders
  dsimp only
  split_ifs
  · exact nofun
  · exact Nat.ne_of_lt h

private theorem countReaders_counts (er : EcmRequest) :
    let active := er.matchingRdr.filter (·.status.readerActive)
    (countReaders cfg er).readerCount = active.countP (fun ea => !ea.status.readerFallback) ∧
      (countReaders cfg er).fallbackReaderCount = active.countP (fun ea => ea.status.readerFallback) ∧
      (countReaders cfg er).cacheexReaderCount =
        active.countP (fun ea => cfg.cacheexReader ea.reader) := by
  unfold countReaders
  dsimp only
  split_ifs <;> exact ⟨rfl, rfl, rfl⟩

/-- The two counts together count the active readers. -/
private theorem countReaders_active (er : EcmRequest) :
    (countReaders cfg er).readerCount + (countReaders cfg er).fallbackReaderCount =
      (er.matchingRdr.filter (·.status.readerActive)).length := by
  obtain ⟨hcount, hfallback, -⟩ := @countReaders_counts cfg er
  rw [hcount, hfallback, Nat.add_comm]
  have hsplit := List.length_eq_countP_add_countP (fun ea : EcmAnswer => ea.status.readerFallback)
    (l := er.matchingRdr.filter (·.status.readerActive))
  simpa using hsplit.symm

private theorem exists_of_normalCount {er : EcmRequest}
    (hflag : ∀ ea ∈ er.matchingRdr, ea.status.readerCacheex = cfg.cacheexReader ea.reader)
    (h : 0 < normalCount (countReaders cfg er)) :
    ∃ ea ∈ er.matchingRdr, ea.status.readerActive ∧ ea.status.readerCacheex = false := by
  by_contra hno
  have hall : ∀ ea ∈ er.matchingRdr.filter (·.status.readerActive), cfg.cacheexReader ea.reader := by
    intro ea hea
    obtain ⟨hmem, hactive⟩ := List.mem_filter.mp hea
    rw [← hflag ea hmem]
    by_contra hcacheex
    exact hno ⟨ea, hmem, hactive, Bool.eq_false_iff.mpr hcacheex⟩
  have hcacheex := (@countReaders_counts cfg er).2.2
  rw [List.countP_eq_length.mpr hall] at hcacheex
  have hactive := @countReaders_active cfg er
  unfold normalCount at h
  omega

private theorem kept_of_matched {er : EcmRequest} (hm : Matched cfg er.matchingRdr)
    (hstage : er.stage = 0) : Kept cfg er [] := by
  obtain ⟨hnodup, hfresh⟩ := hm
  constructor
  · intro ea h₁ ea' h₂ heq
    exact List.inj_on_of_nodup_map hnodup h₁ h₂ heq
  · intro ea hea
    rw [(hfresh ea hea).1]
    decide
  · intro ea hea
    exact (hfresh ea hea).2.2.2
  · intro ea hea hans
    rw [(hfresh ea hea).2.2.1] at hans
    cases hans
  · intro ea _ hqueue
    cases hqueue
  · intro _ ea hea
    exact (hfresh ea hea).2.1
  · intro _ ea hea hsent
    rw [(hfresh ea hea).2.1] at hsent
    cases hsent
  · omega
  · omega

/-- Without a wait time the first stages are asked at once. -/
private theorem startRequest_none_inv {er : EcmRequest} (hk : Kept cfg er []) (hstage : er.stage = 0)
    (hopen : E_UNHANDLED ≤ er.rc) (hguard : StageOne env er)
    (hnormal : 0 < normalCount er →
      ∃ ea ∈ er.matchingRdr, ea.status.readerActive ∧ ea.status.readerCacheex = false)
    (hpends : ∃ ea ∈ er.matchingRdr, Pends [] ea) :
    Kept cfg (startRequest env none er) [] ∧
      E_UNHANDLED ≤ (startRequest env none er).rc ∧ Waiting (startRequest env none er) [] := by
  let er₁ : EcmRequest :=
    { er with
      rcEx := 0, cacheexWaitTimeExpired := true, cacheexHitcache := false, cacheexMode1Delay := 0 }
  have hk₁ : Kept cfg er₁ [] := hk.congr rfl rfl fun _ h => h
  have hlt : er₁.stage < 4 := by
    change er.stage < 4
    omega
  have ha : Asked er₁ (startRequest env none er) := requestCwFromReaders_asked env 0 er₁
  have hr : Reached env er₁ (startRequest env none er) := requestCwFromReaders_reached env er₁ hlt
  have hlater := hr.later
  refine ⟨hk₁.asked ha (by omega) hr.last, ?_, ?_⟩
  · rw [ha.rc]
    exact hopen
  · apply Waiting.reached hk₁ ha hr
    · exact hnormal
    · nofun
    · exact has_cacheex_of_reached hr fun _ => hguard
    · exact fun _ _ => hpends

/-- With a wait time at most the cacheex readers are asked. -/
private theorem startRequest_some_inv {er : EcmRequest} {wait : WaitTime} (hk : Kept cfg er [])
    (hstage : er.stage = 0) (hopen : E_UNHANDLED ≤ er.rc) (hprefer : er.preferlocalcards ≠ 2)
    (hnormal : 0 < normalCount er →
      ∃ ea ∈ er.matchingRdr, ea.status.readerActive ∧ ea.status.readerCacheex = false) :
    Kept cfg (startRequest env (some wait) er) [] ∧
      E_UNHANDLED ≤ (startRequest env (some wait) er).rc ∧
      Waiting (startRequest env (some wait) er) [] := by
  let er₁ : EcmRequest :=
    { er with
      rcEx := 0, cacheexWaitTimeExpired := false, cacheexHitcache := wait.hitcache
      cacheexMode1Delay := wait.mode1Delay }
  have hk₁ : Kept cfg er₁ [] := hk.congr rfl rfl fun _ h => h
  have hstage₁ : er₁.stage = 0 := hstage
  have hw₁ : Waiting er₁ [] := .delayed rfl (by omega) hprefer hnormal
  by_cases hnow : wait.mode1Delay = 0 ∧ er₁.cacheexReaderCount > 0
  · have heq : startRequest env (some wait) er = requestCwFromReaders env 1 er₁ := if_pos hnow
    have ha := requestCwFromReaders_asked env 1 er₁
    have hone := requestCwFromReaders_one env er₁ hstage₁ hprefer
    rw [heq]
    refine ⟨hk₁.asked ha (by omega) (by omega), ?_, ?_⟩
    · rw [ha.rc]
      exact hopen
    · apply Waiting.delayed ha.expired (by omega)
      · rw [ha.same]
        exact hprefer
      · exact hw₁.normal_asked ha (by omega)
  · have heq : startRequest env (some wait) er = er₁ := if_neg hnow
    rw [heq]
    exact ⟨hk₁, hopen, hw₁⟩

/-- The request when `get_cw` is over. -/
theorem matched_inv {er : EcmRequest} {wait : Option WaitTime} (hm : Matched cfg er.matchingRdr)
    (hstage : er.stage = 0) (hopen : E_UNHANDLED ≤ er.rc)
    (hprefer : wait.isSome → er.preferlocalcards < 2)
    (hguard : wait = none → StageOne env (countReaders cfg er)) :
    Kept cfg (matched cfg env wait er).er [] ∧
      (NotFound cfg (matched cfg env wait er).er ∨
        E_UNHANDLED ≤ (matched cfg env wait er).er.rc ∧ Waiting (matched cfg env wait er).er []) := by
  obtain ⟨hrdrs, hstage', hrc⟩ := @countReaders_same cfg er
  have hflag : ∀ ea ∈ er.matchingRdr, ea.status.readerCacheex = cfg.cacheexReader ea.reader :=
    fun ea hea => (hm.2 ea hea).2.2.2
  have hk : Kept cfg (countReaders cfg er) [] :=
    kept_of_matched (hrdrs ▸ hm) (hstage'.trans hstage)
  have hnormal : 0 < normalCount (countReaders cfg er) →
      ∃ ea ∈ (countReaders cfg er).matchingRdr,
        ea.status.readerActive ∧ ea.status.readerCacheex = false := by
    rw [hrdrs]
    exact exists_of_normalCount hflag
  unfold matched
  by_cases hnone : wait.isNone ∧
      (countReaders cfg er).readerCount + (countReaders cfg er).fallbackReaderCount = 0
  · rw [if_pos hnone]
    constructor
    · have hsame := sendDcw_same cfg env
        (let er := countReaders cfg er
         { er with rc := E_NOTFOUND, rcEx := if er.rcEx = 0 then E2_GROUP else er.rcEx })
      exact hk.congr hsame.2 hsame.1 fun _ h => h
    · exact .inl (sendDcw_notFound cfg env _ rfl)
  rw [if_neg hnone]
  cases wait with
  | none =>
    have hpends : ∃ ea ∈ (countReaders cfg er).matchingRdr, Pends [] ea := by
      have hsome : er.matchingRdr.filter (·.status.readerActive) ≠ [] := by
        intro hnil
        have hactive := @countReaders_active cfg er
        rw [hnil] at hactive
        exact hnone ⟨rfl, hactive⟩
      obtain ⟨ea, hea⟩ := List.exists_mem_of_ne_nil _ hsome
      obtain ⟨hmem, hactive⟩ := List.mem_filter.mp hea
      exact ⟨ea, hrdrs.symm ▸ hmem, .inr ⟨hactive, (hm.2 ea hmem).2.2.1⟩⟩
    obtain ⟨hkept, hstart⟩ := startRequest_none_inv hk (hstage'.trans hstage) (hrc.symm ▸ hopen)
      (hguard rfl) hnormal hpends
    exact ⟨hkept, .inr hstart⟩
  | some wait =>
    obtain ⟨hkept, hstart⟩ := @startRequest_some_inv _ env _ _ hk (hstage'.trans hstage)
      (hrc.symm ▸ hopen) (countReaders_prefer er (hprefer rfl)) hnormal
    exact ⟨hkept, .inr hstart⟩

end Start

section Runs

variable {cfg : Config}

/-- A request that is not started, or one that keeps what its stages promise. -/
structure RunInv (cfg : Config) (s : State) : Prop where
  fresh : s.started = false →
    E_UNHANDLED ≤ s.er.rc ∧ s.er.stage = 0 ∧ s.er.matchingRdr = [] ∧ s.queue = []
  inv : s.started → Inv cfg s

private theorem RunInv.of_started {s : State} (hs : s.started) (h : Inv cfg s) : RunInv cfg s := by
  constructor
  · intro hfresh
    rw [hs] at hfresh
    cases hfresh
  · exact fun _ => h

theorem RunInv.next (hwait : cfg.waitUntilCtimeout = false) {s t : State} {a : Action × Env}
    (h : RunInv cfg s) (hg : LastHeeded cfg s a) (ht : next cfg s a = some t) : RunInv cfg t := by
  obtain ⟨a, env⟩ := a
  cases a with
  | start rdrs preferlocalcards wait =>
    simp only [Escalation.next] at ht
    split_ifs at ht with hstart
    obtain ⟨hfresh, hm, hprefer⟩ := hstart
    obtain rfl := Option.some.inj ht
    obtain ⟨hopen, hstage, -, -⟩ := h.fresh hfresh
    have hguard : wait = none → StageOne env (countReaders cfg
        { s.er with matchingRdr := rdrs, preferlocalcards := preferlocalcards }) := by
      intro hnone
      subst hnone
      exact hg
    obtain ⟨hkept, hwaiting⟩ := @matched_inv _ env
      ({ s.er with matchingRdr := rdrs, preferlocalcards := preferlocalcards }) wait hm hstage
      hopen hprefer hguard
    exact .of_started rfl ⟨hkept, hwaiting⟩
  | answer reader given =>
    simp only [Escalation.next] at ht
    split_ifs at ht with hanswer
    obtain ⟨hawaits, hrc, -⟩ := hanswer
    obtain rfl := Option.some.inj ht
    cases hstarted : s.started with
    | false =>
      obtain ⟨-, -, hnone, -⟩ := h.fresh hstarted
      rw [awaits, getEcmAnswer, hnone] at hawaits
      cases hawaits
    | true =>
      have hinv := h.inv hstarted
      obtain ⟨hkept, hwaiting⟩ := writeEcmAnswer_inv hinv.kept hinv.waiting hrc hawaits
      exact .of_started rfl ⟨hkept, hwaiting⟩
  | chkDcw =>
    simp only [Escalation.next] at ht
    cases hqueue : s.queue with
    | nil =>
      rw [hqueue] at ht
      cases ht
    | cons reader queue =>
      rw [hqueue] at ht
      obtain ⟨ea, hea, rfl⟩ := Option.map_eq_some_iff.mp ht
      cases hstarted : s.started with
      | false =>
        obtain ⟨-, -, -, hempty⟩ := h.fresh hstarted
        rw [hqueue] at hempty
        cases hempty
      | true =>
        have hinv := h.inv hstarted
        have hkept := hqueue ▸ hinv.kept
        have hwaiting := hqueue ▸ hinv.waiting
        have hguard : HeededOrNotLast cfg s reader queue := by
          unfold LastHeeded at hg
          rw [hqueue] at hg
          exact hg
        obtain ⟨hkept', hwaiting'⟩ := @chkDcw_inv _ env _ _ _ _ hwait hkept hwaiting hea hguard
        exact .of_started rfl ⟨hkept', hwaiting'⟩
  | cacheexTimeout =>
    simp only [Escalation.next] at ht
    split_ifs at ht with hstarted
    obtain rfl := Option.some.inj ht
    have hinv := h.inv hstarted
    obtain ⟨hkept, hwaiting⟩ := @cacheexTimeout_inv _ env _ _ hwait hinv.kept hinv.waiting hg
    exact .of_started hstarted ⟨hkept, hwaiting⟩
  | cacheexMode1Delay =>
    simp only [Escalation.next] at ht
    split_ifs at ht with hstarted
    obtain rfl := Option.some.inj ht
    have hinv := h.inv hstarted
    obtain ⟨hkept, hwaiting⟩ := @cacheexMode1Delay_inv _ env _ _ hinv.kept hinv.waiting
    exact .of_started hstarted ⟨hkept, hwaiting⟩
  | fallbackTimeout =>
    simp only [Escalation.next] at ht
    split_ifs at ht with hstarted
    obtain rfl := Option.some.inj ht
    have hinv := h.inv hstarted
    obtain ⟨hkept, hwaiting⟩ := @fallbackTimeout_inv _ env _ _ hinv.kept hinv.waiting
    exact .of_started hstarted ⟨hkept, hwaiting⟩

/-- A request waits for a reader that is no fallback, or is in the last stage and waits for some
reader, or is answered. -/
private theorem Inv.settled {s : State} (h : Inv cfg s) : Settled cfg s := by
  intro _ hexp
  rcases h.waiting with hdone | ⟨-, hw⟩
  · exact ⟨fun _ => .inr hdone, fun _ => hdone⟩
  obtain ⟨ea, hmem, hpends, hfallback⟩ := hw.pends (.inl hexp)
  constructor
  · intro hnone
    have hle := h.kept.stage
    by_cases hthree : s.er.stage ≤ 3
    · exact absurd hpends (hnone ea hmem (hfallback hthree))
    · by_cases hfive : s.er.stage = 5
      · have hout := h.kept.out (by omega) ea hmem
        exact absurd hpends (hnone ea hmem hout.2)
      · left
        omega
  · intro hnone
    exact absurd hpends (hnone ea hmem)

/-- Whatever the readers and the order of their answers: as long as the last one is heeded, the request
goes on to the fallbacks, and in the end is answered E_NOTFOUND. -/
theorem lastHeeded_settled (hwait : cfg.waitUntilCtimeout = false) {s : State}
    (h : (system cfg).Reachable (LastHeeded cfg) s) : Settled cfg s := by
  have hinv : RunInv cfg s := by
    apply h.invariant
    · intro s hs
      obtain ⟨hfresh, hrc, hstage, hnone, hqueue⟩ := hs
      constructor
      · exact fun _ => ⟨Nat.le_of_eq hrc.symm, hstage, hnone, hqueue⟩
      · intro hstarted
        rw [hfresh] at hstarted
        cases hstarted
    · exact fun _ _ _ hs hg ht => hs.next hwait hg ht
  intro hstarted
  exact (hinv.inv hstarted).settled hstarted

end Runs

/-- A cacheex reader, a card and a fallback. -/
private def mixedReaders : List EcmAnswer :=
  [⟨1, ⟨true, false, false, true, false, false⟩, E_UNHANDLED, 0, 0, false⟩,
    ⟨2, ⟨true, false, true, false, false, false⟩, E_UNHANDLED, 0, 0, false⟩,
    ⟨3, ⟨true, true, false, false, false, false⟩, E_UNHANDLED, 0, 0, false⟩]

private def mixedConfig : Config where
  cacheexReader reader := reader = 1
  doubleCheck := false
  doubleCheckCaid := []
  waitUntilCtimeout := false
  acoscEnabled := false
  acosc := ⟨0, 0, 0, 0⟩

private def mixedEnv : Env :=
  ⟨0, false, true, true, false, ⟨⟨-1, -1, -1, -1⟩, 0, 0, 0, 0, []⟩, fun _ => true⟩

private def mixedState : State :=
  ⟨false, ⟨0x1833, 0, E_UNHANDLED, 0, 0, 0, 0, [], none, 0, 0, 0, 0, 0, true, false, 0, false, 0,
    none, 0, []⟩, []⟩

private def notFoundGiven : Given := ⟨E_NOTFOUND, 0, none, false, none, false, false, false⟩

/-- The wait time is over, then the two readers answer one after the other. -/
private def mixedRun (first second : ℕ) : List (Action × Env) :=
  [(.start mixedReaders 0 (some ⟨true, 0⟩), mixedEnv), (.cacheexTimeout, mixedEnv),
    (.answer first notFoundGiven, mixedEnv), (.chkDcw, mixedEnv),
    (.answer second notFoundGiven, mixedEnv), (.chkDcw, mixedEnv)]

/-- The card answers last: the fallback is asked, and its answer ends the request. -/
theorem lastHeeded_settled_mixed :
    ∃ s, (system mixedConfig).Reachable (LastHeeded mixedConfig) s ∧ s.queue = [] ∧
      s.er.stage = 4 ∧ s.er.rc = E_NOTFOUND ∧ Settled mixedConfig s := by
  have hinit : (system mixedConfig).init mixedState := ⟨rfl, rfl, rfl, rfl, rfl⟩
  obtain ⟨s, hs, hp⟩ := System.exists_reachable_of_exec (G := LastHeeded mixedConfig) hinit
    (mixedRun 1 2 ++ [(.answer 3 notFoundGiven, mixedEnv), (.chkDcw, mixedEnv)])
    (fun s => s.queue = [] ∧ s.er.stage = 4 ∧ s.er.rc = E_NOTFOUND) (by decide)
  obtain ⟨hqueue, hstage, hrc⟩ := of_decide_eq_true hp
  exact ⟨s, hs, hqueue, hstage, hrc, lastHeeded_settled rfl hs⟩

/-- The cacheex reader answers last: its answer is ignored, and the fallback is not asked. -/
theorem cacheexLast_notSettled :
    ∃ s, (system mixedConfig).Reachable System.free s ∧ s.queue = [] ∧ s.er.stage = 3 ∧
      s.er.rc = E_UNHANDLED ∧ ¬ Settled mixedConfig s := by
  have hinit : (system mixedConfig).init mixedState := ⟨rfl, rfl, rfl, rfl, rfl⟩
  obtain ⟨s, hs, hp⟩ := System.exists_reachable_of_exec (G := System.free) hinit (mixedRun 2 1)
    (fun s => s.queue = [] ∧ s.er.stage = 3 ∧ s.er.rc = E_UNHANDLED ∧ ¬ Settled mixedConfig s)
    (by decide)
  exact ⟨s, hs, of_decide_eq_true hp⟩

end NCam.Ecm.Answer.Escalation
