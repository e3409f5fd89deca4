import NCam.Ecm.Answer
import NCam.Lib.Transition

/-! The life of an ECM request, in which its client is answered once. -/
namespace NCam.Ecm.Answer

open NCam.Lib

/-- A request before the end of `get_cw`, one whose jobs may run, and one that `get_cw` freed. -/
inductive Phase
  | received
  | queued
  | freed
deriving DecidableEq

structure State where
  phase : Phase
  er : EcmRequest

/-- The codes with which the checks of `get_cw` refuse a request. -/
def refusals : List ℕ :=
  [E_INVALID, E_EXPDATE, E_DISABLED, E_STOPPED, E_SLEEPING, E_FAKE, E_CORRUPT]

inductive Job
  /-- `get_cw` refuses the request. -/
  | refuse (rc : ℕ)
  /-- `get_cw` finds the control word in the cache; `fake` tells that `ac_chk` denies it. -/
  | foundInCache (fake : Bool) (ecm : CacheEntry)
  /-- `get_cw` has matched the readers and goes on with the wait time. -/
  | start (fake : Bool) (matchingRdr : List EcmAnswer) (preferlocalcards : ℕ) (wait : Option WaitTime)
  /-- A reader's thread writes its answer. -/
  | answer (reader : ℕ) (given : Given)
  | chkDcw (reader : ℕ)
  | fromCache (ecm : CacheEntry)
  | ecmTimeout
  | cacheexTimeout (found : Bool)
  | cacheexMode1Delay
  | fallbackTimeout

section System

variable (cfg : Config)

/-- `get_cw` from the matched readers on: it answers without readers and without a wait. -/
def matched (env : Env) (wait : Option WaitTime) (er : EcmRequest) : State :=
  let er := countReaders cfg er
  if wait.isNone ∧ er.readerCount + er.fallbackReaderCount = 0 then
    let er := { er with rc := E_NOTFOUND, rcEx := if er.rcEx = 0 then E2_GROUP else er.rcEx }
    ⟨.freed, sendDcw cfg env er⟩
  else ⟨.queued, startRequest env wait er⟩

/-- What `ac_chk` makes of the request before the cache is asked. -/
def acChk (fake : Bool) (er : EcmRequest) : EcmRequest :=
  if fake then { er with rc := E_FAKE, rcEx := 0 } else er

/-- The jobs and the readers' answers, on a request that is queued. -/
def runJob (env : Env) (er : EcmRequest) : Job → Option EcmRequest
  | .answer reader given => some (writeEcmAnswer reader given er)
  | .chkDcw reader => (getEcmAnswer reader er).map fun ea => chkDcw cfg env ea er
  | .fromCache ecm => some (writeEcmAnswerFromcache cfg env ecm er)
  | .ecmTimeout => some (ecmTimeout cfg env er)
  | .cacheexTimeout found => some (cacheexTimeout cfg env found er)
  | .cacheexMode1Delay => some (cacheexMode1Delay env er)
  | .fallbackTimeout => some (fallbackTimeout env er)
  | _ => none

/-- The ways in which `get_cw` ends. -/
def runGetCw (env : Env) (er : EcmRequest) : Job → Option State
  | .refuse rc =>
    if rc ∈ refusals then some ⟨.freed, sendDcw cfg env { er with rc := rc }⟩ else none
  | .foundInCache fake ecm => some ⟨.freed, writeEcmAnswerFromcache cfg env ecm (acChk fake er)⟩
  | .start fake matchingRdr preferlocalcards wait =>
    some (matched cfg env wait
      { acChk fake er with matchingRdr := matchingRdr, preferlocalcards := preferlocalcards })
  | _ => none

def next (s : State) (a : Job × Env) : Option State :=
  match s.phase with
  | .received => runGetCw cfg a.2 s.er a.1
  | .queued => (runJob cfg a.2 s.er a.1).map fun er => ⟨.queued, er⟩
  | .freed => none

def system : System State (Job × Env) where
  init s := s.phase = .received ∧ s.er.rc = E_UNHANDLED ∧ s.er.checked = 0 ∧ s.er.delivered = []
  next := next cfg

end System

/-- The client was not answered yet, or once and for good. -/
def Once (er : EcmRequest) : Prop :=
  er.delivered = [] ∨ er.delivered.length = 1 ∧ er.rc < E_99

/-- What a job keeps: it answers at most once, and leaves an answered request's answer alone. -/
structure Keeps (er er' : EcmRequest) : Prop where
  once : Once er → Once er'
  settled : Once er → er.delivered ≠ [] → er'.delivered = er.delivered

theorem Once.notDelivered {er : EcmRequest} (h : Once er) (hrc : E_99 ≤ er.rc) :
    er.delivered = [] := by
  rcases h with h | ⟨-, h⟩
  · exact h
  · omega

/-- A step that calls no `send_dcw` and gives no answered request a new chance. -/
theorem Keeps.of_frame {er er' : EcmRequest} (hd : er'.delivered = er.delivered)
    (hrc : er'.rc = er.rc ∨ er'.rc < E_99) : Keeps er er' := by
  constructor
  · intro h
    rcases h with h | ⟨hone, h99⟩
    · exact .inl (hd.trans h)
    · right
      constructor
      · rw [hd, hone]
      · omega
  · intro _ _
    exact hd

theorem Keeps.refl (er : EcmRequest) : Keeps er er := .of_frame rfl (.inl rfl)

section SendDcw

variable (cfg : Config) (env : Env)

private theorem markSource_delivered (er : EcmRequest) :
    (markSource cfg er).delivered = er.delivered := by
  unfold markSource
  dsimp only
  split_ifs <;> rfl

private theorem markSource_rc (er : EcmRequest) (h : er.rc < E_99) :
    (markSource cfg er).rc < E_99 := by
  unfold markSource
  dsimp only
  split_ifs <;> first | exact h | simp [E_CACHE2, E_CACHEEX, E_99]

private theorem acosc_delivered (er : EcmRequest) :
    (acosc cfg env er).delivered = er.delivered := by
  unfold acosc
  split_ifs <;> rfl

private theorem acosc_rc (er : EcmRequest) (h : er.rc < E_99) : (acosc cfg env er).rc < E_99 := by
  unfold acosc
  split_ifs <;> first | exact h | simp [E_FAKE, E_DISABLED, E_99]

private theorem countCw_frame (er : EcmRequest) :
    (countCw er).delivered = er.delivered ∧ (countCw er).rc = er.rc := by
  unfold countCw
  split_ifs <;> exact ⟨rfl, rfl⟩

private theorem deliver_once (er : EcmRequest) (hd : er.delivered = []) (hrc : er.rc < E_99) :
    Once (deliver env er) := by
  right
  constructor
  · simp [deliver, hd]
  · simp only [deliver]
    split_ifs <;> first | exact hrc | simp [E_FAKE, E_NOTFOUND, E_99]

/-- The double check leaves the request open only without a call of the module. -/
theorem sendDcw_once (er : EcmRequest) (hd : er.delivered = []) (hrc : er.rc < E_99) :
    Once (sendDcw cfg env er) := by
  have hd' : (acosc cfg env (markSource cfg er)).delivered = [] := by
    rw [acosc_delivered, markSource_delivered, hd]
  have hrc' := acosc_rc cfg env _ (markSource_rc cfg er hrc)
  have hcount := countCw_frame (acosc cfg env (markSource cfg er))
  unfold sendDcw
  dsimp only
  split_ifs
  · exact .inl (hcount.1.trans hd')
  · exact deliver_once env _ (hcount.1.trans hd') (hcount.2 ▸ hrc')
  · exact deliver_once env _ hd' hrc'
  · exact .inl hd

theorem Keeps.sendDcw {er er₁ : EcmRequest} (hopen : E_99 ≤ er.rc)
    (hd : er₁.delivered = er.delivered) (hrc : er₁.rc < E_99) :
    Keeps er (sendDcw cfg env er₁) := by
  constructor
  · intro h
    exact sendDcw_once cfg env er₁ (hd.trans (h.notDelivered hopen)) hrc
  · intro h hne
    exact absurd (h.notDelivered hopen) hne

end SendDcw

section Steps

variable (cfg : Config) (env : Env)

private theorem requestLoop_frame (stopStage fuel : ℕ) (er : EcmRequest) :
    (requestLoop env stopStage fuel er).delivered = er.delivered ∧
      (requestLoop env stopStage fuel er).rc = er.rc := by
  induction fuel generalizing er with
  | zero => exact ⟨rfl, rfl⟩
  | succ fuel ih =>
    unfold requestLoop
    dsimp only
    split_ifs
    · exact ⟨rfl, rfl⟩
    · exact ⟨rfl, rfl⟩
    · exact ih _

theorem requestCwFromReaders_frame (stopStage : ℕ) (er : EcmRequest) :
    (requestCwFromReaders env stopStage er).delivered = er.delivered ∧
      (requestCwFromReaders env stopStage er).rc = er.rc :=
  requestLoop_frame env stopStage _ er

private theorem fallbackLoop_frame (fuel : ℕ) (er : EcmRequest) :
    (fallbackLoop env fuel er).delivered = er.delivered ∧
      (fallbackLoop env fuel er).rc = er.rc := by
  induction fuel generalizing er with
  | zero => exact ⟨rfl, rfl⟩
  | succ fuel ih =>
    unfold fallbackLoop
    split_ifs
    · have hstep := requestCwFromReaders_frame env 0 er
      have hrest := ih (requestCwFromReaders env 0 er)
      exact ⟨hrest.1.trans hstep.1, hrest.2.trans hstep.2⟩
    · exact ⟨rfl, rfl⟩

private theorem cycleCheck_frame (given : Given) (rc : ℕ) (er : EcmRequest) :
    (cycleCheck given rc er).delivered = er.delivered ∧
      ((cycleCheck given rc er).rc = er.rc ∨ (cycleCheck given rc er).rc < E_99) := by
  unfold cycleCheck
  split_ifs with _ hnull
  · exact ⟨rfl, .inr (by simp [E_NOTFOUND, E_99])⟩
  · exact ⟨rfl, .inl rfl⟩
  · exact ⟨rfl, .inl rfl⟩

theorem writeEcmAnswer_frame (reader : ℕ) (given : Given) (er : EcmRequest) :
    (writeEcmAnswer reader given er).delivered = er.delivered ∧
      ((writeEcmAnswer reader given er).rc = er.rc ∨
        (writeEcmAnswer reader given er).rc < E_99) := by
  unfold writeEcmAnswer
  dsimp only
  split
  · exact ⟨rfl, .inl rfl⟩
  · split_ifs
    · exact ⟨rfl, .inl rfl⟩
    all_goals first | exact ⟨rfl, .inl rfl⟩ | exact cycleCheck_frame given _ er

private theorem chkCacheex_frame (er : EcmRequest) :
    (chkCacheex env er).delivered = er.delivered ∧ (chkCacheex env er).rc = er.rc := by
  unfold chkCacheex
  split_ifs
  · exact ⟨rfl, rfl⟩
  · exact requestCwFromReaders_frame env 0 er
  · exact ⟨rfl, rfl⟩

private theorem chkNotfound_frame (ea : EcmAnswer) (er : EcmRequest) :
    (chkNotfound cfg env ea er).delivered = er.delivered := by
  unfold chkNotfound
  dsimp only
  split_ifs
  all_goals first | rfl | exact (requestCwFromReaders_frame env 0 _).1

private theorem takeAnswer_delivered (ea : EcmAnswer) (er : EcmRequest) :
    (takeAnswer cfg env ea er).delivered = er.delivered := by
  unfold takeAnswer
  dsimp only
  split_ifs
  · rfl
  · exact chkNotfound_frame cfg env ea _
  · rfl

theorem chkDcw_keeps (ea : EcmAnswer) (er : EcmRequest) : Keeps er (chkDcw cfg env ea er) := by
  unfold chkDcw
  by_cases hanswered : er.rc < E_99
  · rw [if_pos hanswered]
    exact .refl er
  rw [if_neg hanswered]
  have hopen : E_99 ≤ er.rc := by omega
  have hd := takeAnswer_delivered cfg env ea er
  dsimp only
  split_ifs with hcacheex hrc
  · have hframe := chkCacheex_frame env er
    exact .of_frame hframe.1 (.inl hframe.2)
  · exact .sendDcw cfg env hopen hd hrc
  · -- the request stays open, and was not answered before
    constructor
    · intro h
      exact .inl (hd.trans (h.notDelivered hopen))
    · intro _ _
      exact hd

theorem writeEcmAnswerFromcache_keeps (ecm : CacheEntry) (er : EcmRequest) :
    Keeps er (writeEcmAnswerFromcache cfg env ecm er) := by
  have hrc : (if ecm.cacheexSrc then E_CACHEEX else E_CACHE1) < E_99 := by
    split_ifs <;> decide
  unfold writeEcmAnswerFromcache
  by_cases hnotfound : E_NOTFOUND ≤ er.rc
  · rw [if_pos hnotfound]
    by_cases hunhandled : er.rc = E_UNHANDLED
    · rw [if_pos hunhandled]
      have hopen : E_99 ≤ er.rc := by
        rw [hunhandled]
        decide
      exact .sendDcw cfg env hopen rfl hrc
    · rw [if_neg hunhandled]
      exact .of_frame rfl (.inr hrc)
  · rw [if_neg hnotfound]
    exact .refl er

/-- Setting timeouts for the readers. -/
private theorem foldl_timeout_delivered (readers : List ℕ) (er : EcmRequest) :
    (readers.foldl (fun er reader => writeEcmAnswer reader timeoutGiven er) er).delivered =
      er.delivered := by
  induction readers generalizing er with
  | nil => rfl
  | cons reader readers ih =>
    rw [List.foldl_cons, ih]
    exact (writeEcmAnswer_frame reader timeoutGiven er).1

theorem ecmTimeout_keeps (er : EcmRequest) : Keeps er (ecmTimeout cfg env er) := by
  have hrc : E_TIMEOUT < E_99 := by decide
  unfold ecmTimeout
  by_cases hchecked : er.readersTimeoutCheck
  · rw [if_pos hchecked]
    exact .refl er
  rw [if_neg hchecked]
  by_cases hopen : env.checkClient ∧ E_UNHANDLED ≤ er.rc
  · rw [if_pos hopen]
    have hopen : E_99 ≤ er.rc := Nat.le_trans (by decide) hopen.2
    apply Keeps.sendDcw cfg env hopen _ hrc
    split_ifs
    · rfl
    · exact foldl_timeout_delivered _ _
  · rw [if_neg hopen]
    exact .of_frame rfl (.inl rfl)

theorem cacheexTimeout_keeps (found : Bool) (er : EcmRequest) :
    Keeps er (cacheexTimeout cfg env found er) := by
  unfold cacheexTimeout
  dsimp only
  split_ifs with _ hopen
  · exact .refl er
  · exact .of_frame rfl (.inl rfl)
  · exact .of_frame rfl (.inl rfl)
  · have hrc : E_99 ≤ er.rc := Nat.le_trans (by decide) hopen
    exact .sendDcw cfg env hrc rfl (by change E_NOTFOUND < E_99; decide)
  · have hframe := requestCwFromReaders_frame env 0 { er with cacheexWaitTimeExpired := true }
    exact .of_frame hframe.1 (.inl hframe.2)
  · exact .of_frame rfl (.inl rfl)
  · exact .of_frame rfl (.inl rfl)

theorem cacheexMode1Delay_keeps (er : EcmRequest) : Keeps er (cacheexMode1Delay env er) := by
  unfold cacheexMode1Delay
  split_ifs
  · have hframe := requestCwFromReaders_frame env 1 er
    exact .of_frame hframe.1 (.inl hframe.2)
  · exact .refl er

theorem fallbackTimeout_keeps (er : EcmRequest) : Keeps er (fallbackTimeout env er) := by
  unfold fallbackTimeout
  split_ifs
  · have hframe := fallbackLoop_frame env (4 - er.stage) er
    exact .of_frame hframe.1 (.inl hframe.2)
  · exact .refl er

end Steps

section GetCw

variable (cfg : Config) (env : Env)

private theorem countReaders_delivered (er : EcmRequest) :
    (countReaders cfg er).delivered = er.delivered := by
  unfold countReaders
  dsimp only
  split_ifs <;> rfl

private theorem startRequest_delivered (wait : Option WaitTime) (er : EcmRequest) :
    (startRequest env wait er).delivered = er.delivered := by
  unfold startRequest
  cases wait with
  | none => exact (requestCwFromReaders_frame env 0 _).1
  | some wait =>
    dsimp only
    split_ifs
    · exact (requestCwFromReaders_frame env 1 _).1
    · rfl

private theorem matched_once (wait : Option WaitTime) (er : EcmRequest) (hd : er.delivered = []) :
    Once (matched cfg env wait er).er := by
  have hd' : (countReaders cfg er).delivered = [] := (countReaders_delivered cfg er).trans hd
  have hrc : E_NOTFOUND < E_99 := by decide
  unfold matched
  by_cases hnone : wait.isNone ∧
      (countReaders cfg er).readerCount + (countReaders cfg er).fallbackReaderCount = 0
  · rw [if_pos hnone]
    exact sendDcw_once cfg env _ hd' hrc
  · rw [if_neg hnone]
    exact .inl ((startRequest_delivered env wait _).trans hd')

private theorem matched_phase (wait : Option WaitTime) (er : EcmRequest) :
    (matched cfg env wait er).phase ≠ .received := by
  unfold matched
  dsimp only
  split_ifs <;> exact nofun

private theorem acChk_delivered (fake : Bool) (er : EcmRequest) :
    (acChk fake er).delivered = er.delivered := by
  unfold acChk
  split_ifs <;> rfl

end GetCw

/-- A request that was just received was not answered. -/
structure Inv (s : State) : Prop where
  once : Once s.er
  received : s.phase = .received → s.er.delivered = []

section Runs

variable {cfg : Config}

private theorem refusals_lt {rc : ℕ} (h : rc ∈ refusals) : rc < E_99 := by
  have hall : ∀ rc ∈ refusals, rc < E_99 := by decide
  exact hall rc h

theorem runJob_keeps {env : Env} {er er' : EcmRequest} {job : Job}
    (h : runJob cfg env er job = some er') : Keeps er er' := by
  cases job with
  | answer reader given =>
    obtain rfl := Option.some.inj h
    have hframe := writeEcmAnswer_frame reader given er
    exact .of_frame hframe.1 hframe.2
  | chkDcw reader =>
    obtain ⟨ea, -, rfl⟩ := Option.map_eq_some_iff.mp h
    exact chkDcw_keeps cfg env ea er
  | fromCache ecm =>
    obtain rfl := Option.some.inj h
    exact writeEcmAnswerFromcache_keeps cfg env ecm er
  | ecmTimeout =>
    obtain rfl := Option.some.inj h
    exact ecmTimeout_keeps cfg env er
  | cacheexTimeout found =>
    obtain rfl := Option.some.inj h
    exact cacheexTimeout_keeps cfg env found er
  | cacheexMode1Delay =>
    obtain rfl := Option.some.inj h
    exact cacheexMode1Delay_keeps env er
  | fallbackTimeout =>
    obtain rfl := Option.some.inj h
    exact fallbackTimeout_keeps env er
  | refuse => cases h
  | foundInCache => cases h
  | start => cases h

theorem runGetCw_once {env : Env} {er : EcmRequest} {t : State} {job : Job}
    (hd : er.delivered = []) (h : runGetCw cfg env er job = some t) :
    t.phase ≠ .received ∧ Once t.er := by
  cases job with
  | refuse rc =>
    unfold runGetCw at h
    dsimp only at h
    split_ifs at h with hrc
    obtain rfl := Option.some.inj h
    exact ⟨nofun, sendDcw_once cfg env _ hd (refusals_lt hrc)⟩
  | foundInCache fake ecm =>
    obtain rfl := Option.some.inj h
    have hkeeps := writeEcmAnswerFromcache_keeps cfg env ecm (acChk fake er)
    exact ⟨nofun, hkeeps.once (.inl ((acChk_delivered fake er).trans hd))⟩
  | start fake matchingRdr preferlocalcards wait =>
    obtain rfl := Option.some.inj h
    constructor
    · exact matched_phase cfg env wait _
    · exact matched_once cfg env wait _ ((acChk_delivered fake er).trans hd)
  | _ => cases h

/-- What a step keeps of the answers of a state `s₀` before it. -/
structure SinceInv (s₀ s : State) : Prop where
  inv : Inv s
  settled : s₀.er.delivered ≠ [] → s.er.delivered = s₀.er.delivered

theorem SinceInv.next {s₀ s t : State} {a : Job × Env} (h : SinceInv s₀ s)
    (ht : next cfg s a = some t) : SinceInv s₀ t := by
  unfold Answer.next at ht
  cases hphase : s.phase with
  | received =>
    rw [hphase] at ht
    have hd := h.inv.received hphase
    obtain ⟨hqueued, honce⟩ := runGetCw_once hd ht
    constructor
    · exact ⟨honce, fun hr => absurd hr hqueued⟩
    · intro hne
      have heq := h.settled hne
      rw [hd] at heq
      exact absurd heq.symm hne
  | queued =>
    rw [hphase] at ht
    obtain ⟨er, her, rfl⟩ := Option.map_eq_some_iff.mp ht
    have hkeeps := runJob_keeps her
    constructor
    · exact ⟨hkeeps.once h.inv.once, nofun⟩
    · intro hne
      have heq := h.settled hne
      exact (hkeeps.settled h.inv.once (heq ▸ hne)).trans heq
  | freed =>
    rw [hphase] at ht
    cases ht

theorem reachable_inv {s : State} (h : (system cfg).Reachable System.free s) : Inv s := by
  apply h.invariant (I := Inv)
  · intro s hs
    exact ⟨.inl hs.2.2.2, fun _ => hs.2.2.2⟩
  · intro s a t hs _ ht
    exact (SinceInv.next ⟨hs, fun _ => rfl⟩ ht).inv

/-- The client of a request is answered at most once, and its request stays answered: whatever jobs
follow, they neither answer again nor reopen it. -/
theorem answered_once {s t : State} {jobs : List (Job × Env)}
    (hs : (system cfg).Reachable System.free s)
    (ht : (system cfg).exec System.free s jobs = some t) :
    t.er.delivered.length ≤ 1 ∧
      (s.er.delivered ≠ [] → t.er.delivered = s.er.delivered ∧ t.er.rc < E_UNHANDLED) := by
  have hinit : SinceInv s s := ⟨reachable_inv hs, fun _ => rfl⟩
  have hlast : SinceInv s t :=
    System.invariant_of_exec (I := SinceInv s) (fun _ _ _ hu _ hv => hu.next hv) hinit ht
  have honce : E_99 < E_UNHANDLED := by decide
  rcases hlast.inv.once with hd | ⟨hlen, hrc⟩
  · constructor
    · simp [hd]
    · intro hne
      have heq := hlast.settled hne
      exact absurd (heq.symm.trans hd) hne
  · constructor
    · omega
    · intro hne
      exact ⟨hlast.settled hne, by omega⟩

end Runs

/-- Two card readers, whose answers are compared. -/
private def doubleCheckConfig : Config where
  cacheexReader _ := false
  doubleCheck := true
  doubleCheckCaid := [⟨0x18, []⟩]
  waitUntilCtimeout := false
  acoscEnabled := false
  acosc := ⟨0, 0, 0, 0⟩

private def onlineEnv : Env := ⟨100, false, true, true, false, ⟨⟨-1, -1, -1, -1⟩, 0, 0, 0, 1, []⟩, fun _ => true⟩

private def localReader (reader : ℕ) : EcmAnswer :=
  ⟨reader, ⟨true, false, true, false, false, false⟩, E_UNHANDLED, 0, 0, false⟩

private def receivedState : State :=
  ⟨.received, 0x1833, 0, E_UNHANDLED, 0, 0, 0, 0, [], none, 0, 0, 0, 0, 0, true, false, 0, false, 0,
    none, 0, []⟩

private def foundGiven : Given := ⟨E_FOUND, 0, some 7, false, none, false, false, false⟩

/-- Two readers answer one after the other, and a second control word is needed; then the cache, the
timeout and the first reader once more come too late. -/
theorem answered_once_two :
    ∃ s t, (system doubleCheckConfig).Reachable System.free s ∧
      (system doubleCheckConfig).exec System.free s
        [(.fromCache ⟨false, 7, some 3⟩, onlineEnv), (.ecmTimeout, onlineEnv),
          (.chkDcw 1, onlineEnv)] = some t ∧
      s.er.delivered = [⟨E_FOUND, 7⟩] ∧ t.er.delivered = [⟨E_FOUND, 7⟩] ∧ t.er.rc < E_UNHANDLED := by
  have hinit : (system doubleCheckConfig).init receivedState := ⟨rfl, rfl, rfl, rfl⟩
  obtain ⟨s, hs, hp⟩ := System.exists_reachable_of_exec (G := System.free) hinit
    [(.start false [localReader 1, localReader 2] 0 none, onlineEnv), (.answer 1 foundGiven, onlineEnv),
      (.chkDcw 1, onlineEnv), (.answer 2 foundGiven, onlineEnv), (.chkDcw 2, onlineEnv)]
    (fun s => s.er.delivered = [⟨E_FOUND, 7⟩] ∧
      ((system doubleCheckConfig).exec System.free s
        [(.fromCache ⟨false, 7, some 3⟩, onlineEnv), (.ecmTimeout, onlineEnv),
          (.chkDcw 1, onlineEnv)]).isSome) (by decide)
  obtain ⟨hd, hsome⟩ := of_decide_eq_true hp
  obtain ⟨t, ht⟩ := Option.isSome_iff_exists.mp hsome
  have hlast := (answered_once hs ht).2 (by simp [hd])
  exact ⟨s, t, hs, ht, hd, hlast.1.trans hd, hlast.2⟩

end NCam.Ecm.Answer
