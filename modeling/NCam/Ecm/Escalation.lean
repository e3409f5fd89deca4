import NCam.Ecm.AnswerOnce
import NCam.Ecm.AskReaders

/-! ECM requests whose readers have no control word: the order of their answers, and the stage the
request gets to. -/
namespace NCam.Ecm.Answer.Escalation

open NCam.Lib

/-- A request, and the readers whose answers wait for `chk_dcw` in the queue of the client. -/
structure State where
  started : Bool
  er : EcmRequest
  queue : List ℕ

inductive Action
  /-- `get_cw` has matched the readers. -/
  | start (matchingRdr : List EcmAnswer) (preferlocalcards : ℕ) (wait : Option WaitTime)
  /-- A reader that was asked answers without a control word. -/
  | answer (reader : ℕ) (given : Given)
  /-- The client takes the first answer of its queue. -/
  | chkDcw
  | cacheexTimeout
  | cacheexMode1Delay
  | fallbackTimeout

/-- The readers as `get_cw` matches them. -/
def Matched (cfg : Config) (rdrs : List EcmAnswer) : Prop :=
  (rdrs.map (·.reader)).Nodup ∧
    ∀ ea ∈ rdrs, ea.rc = E_UNHANDLED ∧ ea.status.requestSent = false ∧
      ea.status.requestAnswered = false ∧ ea.status.readerCacheex = cfg.cacheexReader ea.reader

instance (cfg : Config) (rdrs : List EcmAnswer) : Decidable (Matched cfg rdrs) :=
  inferInstanceAs (Decidable (_ ∧ _))

/-- A reader that was asked and has not answered. -/
def awaits (er : EcmRequest) (reader : ℕ) : Bool :=
  (getEcmAnswer reader er).any fun ea => ea.status.requestSent && !ea.status.requestAnswered

section System

variable (cfg : Config)

/-- There is no wait time with `preferlocalcards` 2. -/
def next (s : State) : Action × Env → Option State
  | (.start rdrs preferlocalcards wait, env) =>
    if s.started = false ∧ Matched cfg rdrs ∧ (wait.isSome → preferlocalcards < 2) then
      let er := { s.er with matchingRdr := rdrs, preferlocalcards := preferlocalcards }
      some ⟨true, (matched cfg env wait er).er, []⟩
    else none
  | (.answer reader given, _) =>
    if awaits s.er reader ∧ E_NOTFOUND ≤ given.rc ∧ given.rc < E_99 then
      some { s with er := writeEcmAnswer reader given s.er, queue := s.queue ++ [reader] }
    else none
  | (.chkDcw, env) =>
    match s.queue with
    | [] => none
    | reader :: queue =>
      (getEcmAnswer reader s.er).map fun ea =>
        { s with er := chkDcw cfg env ea s.er, queue := queue }
  | (.cacheexTimeout, env) =>
    if s.started then some { s with er := cacheexTimeout cfg env false s.er } else none
  | (.cacheexMode1Delay, env) =>
    if s.started then some { s with er := cacheexMode1Delay env s.er } else none
  | (.fallbackTimeout, env) =>
    if s.started then some { s with er := fallbackTimeout env s.er } else none

def system : System State (Action × Env) where
  init s := s.started = false ∧ s.er.rc = E_UNHANDLED ∧ s.er.stage = 0 ∧ s.er.matchingRdr = [] ∧
    s.queue = []
  next := next cfg

end System

/-- The request was answered E_NOTFOUND, or with what ACoSC makes of that. -/
def NotFound (cfg : Config) (er : EcmRequest) : Prop :=
  er.rc = E_NOTFOUND ∨ cfg.acoscEnabled ∧ (er.rc = E_FAKE ∨ er.rc = E_DISABLED)

instance (cfg : Config) (er : EcmRequest) : Decidable (NotFound cfg er) :=
  inferInstanceAs (Decidable (_ ∨ _))

/-- The answer of the reader is still to come, or to be taken from the queue. -/
def Pends (queue : List ℕ) (ea : EcmAnswer) : Prop :=
  ea.reader ∈ queue ∨ ea.status.readerActive ∧ ea.status.requestAnswered = false

instance (queue : List ℕ) (ea : EcmAnswer) : Decidable (Pends queue ea) :=
  inferInstanceAs (Decidable (_ ∨ _))

/-- Once the wait time is over and the readers that are no fallbacks have answered, the fallbacks are
asked or the request is answered; once all have answered, it is answered. -/
def Settled (cfg : Config) (s : State) : Prop :=
  s.started → s.er.cacheexWaitTimeExpired →
    ((∀ ea ∈ s.er.matchingRdr, ea.status.readerFallback = false → ¬ Pends s.queue ea) →
      s.er.stage = 4 ∨ NotFound cfg s.er) ∧
    ((∀ ea ∈ s.er.matchingRdr, ¬ Pends s.queue ea) → NotFound cfg s.er)

instance (cfg : Config) (s : State) : Decidable (Settled cfg s) :=
  inferInstanceAs (Decidable (_ → _ → _))

/-- The readers that are no cacheex ones, as `cacheex_timeout` counts them. -/
def normalCount (er : EcmRequest) : ℤ :=
  (er.readerCount + er.fallbackReaderCount : ℤ) - er.cacheexReaderCount

/-- Stage 1 does not wait for fallbacks alone, which `chk_dcw` does not count there. -/
def StageOne (env : Env) (er : EcmRequest) : Prop :=
  er.preferlocalcards ≠ 2 → AskedIn env er 1 → has (·.readerCacheex) er

/-- Another answer than the one taken from the queue is still to come or in the rest of the queue: in
stage 2 and 3, one of a reader that is no fallback. -/
def OtherPends (queue : List ℕ) (er : EcmRequest) : Prop :=
  ∃ ea ∈ er.matchingRdr, Pends queue ea ∧
    (2 ≤ er.stage → er.stage ≤ 3 → ea.status.readerFallback = false)

/-- `chk_dcw` does not ignore the answer: it is of no cacheex reader and has one of the two codes. -/
def Heeded (cfg : Config) (ea : EcmAnswer) : Prop :=
  cfg.cacheexReader ea.reader = false ∧ (ea.rc = E_INVALID ∨ ea.rc = E_NOTFOUND)

/-- The answer that `chk_dcw` takes is heeded, or not the last one, or the request is settled without
it: it is answered, or is to be answered when the wait time is over. -/
def HeededOrNotLast (cfg : Config) (s : State) (reader : ℕ) (queue : List ℕ) : Prop :=
  s.er.rc < E_99 ∨ (∀ ea ∈ s.er.matchingRdr, ea.reader = reader → Heeded cfg ea) ∨
    s.er.cacheexWaitTimeExpired = false ∧ normalCount s.er ≤ 0 ∨ OtherPends queue s.er

def LastHeeded (cfg : Config) (s : State) : Action × Env → Prop
  | (.start rdrs preferlocalcards none, env) =>
    StageOne env
      (countReaders cfg { s.er with matchingRdr := rdrs, preferlocalcards := preferlocalcards })
  | (.cacheexTimeout, env) => s.er.stage = 0 → StageOne env s.er
  | (.chkDcw, _) => match s.queue with
    | [] => True
    | reader :: queue => HeededOrNotLast cfg s reader queue
  | _ => True

instance (env : Env) (er : EcmRequest) (stage : ℕ) : Decidable (AskedIn env er stage) :=
  inferInstanceAs (Decidable (∃ ea ∈ er.matchingRdr, _))

instance (env : Env) (er : EcmRequest) : Decidable (StageOne env er) :=
  inferInstanceAs (Decidable (_ → _ → _))

instance (queue : List ℕ) (er : EcmRequest) : Decidable (OtherPends queue er) :=
  inferInstanceAs (Decidable (∃ ea ∈ er.matchingRdr, _))

instance (cfg : Config) (ea : EcmAnswer) : Decidable (Heeded cfg ea) :=
  inferInstanceAs (Decidable (_ ∧ _))

instance (cfg : Config) (s : State) (reader : ℕ) (queue : List ℕ) :
    Decidable (HeededOrNotLast cfg s reader queue) :=
  inferInstanceAs (Decidable (_ ∨ _ ∨ _ ∨ _))

instance (cfg : Config) (s : State) (a : Action × Env) : Decidable (LastHeeded cfg s a) := by
  unfold LastHeeded
  split
  · infer_instance
  · infer_instance
  · split <;> infer_instance
  · infer_instance

/-- What holds of a request and its queue from the start to the end. -/
structure Kept (cfg : Config) (er : EcmRequest) (queue : List ℕ) : Prop where
  distinct : ∀ ea ∈ er.matchingRdr, ∀ ea' ∈ er.matchingRdr, ea.reader = ea'.reader → ea = ea'
  noCw : ∀ ea ∈ er.matchingRdr, E_NOTFOUND ≤ ea.rc
  cacheex : ∀ ea ∈ er.matchingRdr, ea.status.readerCacheex = cfg.cacheexReader ea.reader
  sent : ∀ ea ∈ er.matchingRdr, ea.status.requestAnswered → ea.status.requestSent
  queued : ∀ ea ∈ er.matchingRdr, ea.reader ∈ queue → ea.status.requestAnswered
  unasked : er.stage = 0 → ∀ ea ∈ er.matchingRdr, ea.status.requestSent = false
  onlyCacheex : er.stage ≤ 1 → ∀ ea ∈ er.matchingRdr, ea.status.requestSent →
    ea.status.readerCacheex
  out : 5 ≤ er.stage → ∀ ea ∈ er.matchingRdr,
    ea.status.readerActive = false ∧ ea.status.readerFallback = false
  stage : er.stage ≤ 5

/-- The request has to wait for a reader: the wait time will not end it. -/
def Obliged (er : EcmRequest) : Prop :=
  er.cacheexWaitTimeExpired ∨ 0 < normalCount er ∧ 2 ≤ er.stage

/-- What holds of a request that is not answered. The stage it is in has a reader of its kind. -/
structure Waiting (er : EcmRequest) (queue : List ℕ) : Prop where
  zero : er.stage = 0 → er.cacheexWaitTimeExpired = false
  prefer : er.cacheexWaitTimeExpired = false → er.preferlocalcards ≠ 2
  normal : 0 < normalCount er → er.stage ≤ 4 →
    ∃ ea ∈ er.matchingRdr, ea.status.readerActive ∧ ea.status.readerCacheex = false
  one : er.stage = 1 → er.cacheexWaitTimeExpired → has (·.readerCacheex) er
  two : er.stage = 2 → has (·.readerLocal) er
  three : er.stage = 3 → has (fun _ => true) er
  pends : Obliged er →
    ∃ ea ∈ er.matchingRdr, Pends queue ea ∧ (er.stage ≤ 3 → ea.status.readerFallback = false)

structure Inv (cfg : Config) (s : State) : Prop where
  kept : Kept cfg s.er s.queue
  waiting : NotFound cfg s.er ∨ E_UNHANDLED ≤ s.er.rc ∧ Waiting s.er s.queue

section Asked

variable {cfg : Config} {env : Env} {er er' : EcmRequest} {queue : List ℕ}

private theorem has_iff (kind : Status → Bool) (er : EcmRequest) :
    has kind er ↔ ∃ ea ∈ er.matchingRdr, ea.status.readerFallback = false ∧
      ea.status.readerActive ∧ kind ea.status := by
  simp [has, and_assoc]

@[simp] private theorem pends_sendIf (f : EcmAnswer → Bool) (ea : EcmAnswer) :
    Pends queue (ea.sendIf f) ↔ Pends queue ea := by
  simp [Pends]

/-- Who pends still does after more were asked. -/
theorem exists_pends_asked (ha : Asked er er') {p : Bool → Prop}
    (h : ∃ ea ∈ er.matchingRdr, Pends queue ea ∧ p ea.status.readerFallback) :
    ∃ ea ∈ er'.matchingRdr, Pends queue ea ∧ p ea.status.readerFallback := by
  obtain ⟨ea, hmem, hpends, hp⟩ := h
  obtain ⟨f, hf⟩ := ha.mem_of_mem hmem
  exact ⟨ea.sendIf f, hf, (pends_sendIf f ea).mpr hpends, by simpa using hp⟩

/-- Whatever leaves the flags of the readers leaves their kinds. -/
theorem has_map {g : EcmAnswer → EcmAnswer} (hmap : er'.matchingRdr = er.matchingRdr.map g)
    (kind : Status → Bool)
    (hflags : ∀ ea, (g ea).status.readerFallback = ea.status.readerFallback ∧
      (g ea).status.readerActive = ea.status.readerActive ∧ kind (g ea).status = kind ea.status) :
    has kind er' = has kind er := by
  unfold has
  rw [hmap, List.any_map]
  congr 1
  funext ea
  simp only [Function.comp_apply, (hflags ea).1, (hflags ea).2.1, (hflags ea).2.2]

private theorem has_asked (ha : Asked er er') (kind : Status → Bool)
    (hkind : ∀ (f : EcmAnswer → Bool) (ea : EcmAnswer), kind (ea.sendIf f).status = kind ea.status)
    (h : has kind er) : has kind er' := by
  obtain ⟨f, hf, -⟩ := ha.readers
  rw [has_map hf kind fun ea => ⟨sendIf_fallback f ea, sendIf_active f ea, hkind f ea⟩]
  exact h

theorem Kept.asked (hk : Kept cfg er queue) (ha : Asked er er') (hfirst : 1 ≤ er'.stage)
    (hlast : er'.stage ≤ 4) : Kept cfg er' queue := by
  constructor
  · obtain ⟨f, hf, -⟩ := ha.readers
    rw [hf]
    intro ea₁ h₁ ea₂ h₂ heq
    obtain ⟨ea₁, hmem₁, rfl⟩ := List.mem_map.mp h₁
    obtain ⟨ea₂, hmem₂, rfl⟩ := List.mem_map.mp h₂
    rw [hk.distinct ea₁ hmem₁ ea₂ hmem₂ (by simpa using heq)]
  · intro ea' hea'
    obtain ⟨ea, hmem, f, rfl⟩ := ha.mem hea'
    simpa using hk.noCw ea hmem
  · intro ea' hea'
    obtain ⟨ea, hmem, f, rfl⟩ := ha.mem hea'
    simpa using hk.cacheex ea hmem
  · intro ea' hea' hans
    obtain ⟨ea, hmem, f, rfl⟩ := ha.mem hea'
    rw [sendIf_answered] at hans
    rw [sendIf_sent, hk.sent ea hmem hans, Bool.or_true]
  · intro ea' hea' hqueue
    obtain ⟨ea, hmem, f, rfl⟩ := ha.mem hea'
    rw [sendIf_reader] at hqueue
    simpa using hk.queued ea hmem hqueue
  · omega
  · intro hone ea' hea' hsent
    obtain ⟨f, hf, hcacheex⟩ := ha.readers
    rw [hf] at hea'
    obtain ⟨ea, hmem, rfl⟩ := List.mem_map.mp hea'
    rw [sendIf_sent, Bool.or_eq_true] at hsent
    rw [sendIf_cacheex]
    rcases hsent with hnew | hold
    · exact (hcacheex ea hnew).2 hone
    · exact hk.onlyCacheex (Nat.le_trans ha.stage hone) ea hmem hold
  · omega
  · omega

theorem normalCount_asked (ha : Asked er er') : normalCount er' = normalCount er := by
  rw [ha.same]
  rfl

/-- A reader that was not asked yet has not answered. -/
theorem Kept.unanswered (hk : Kept cfg er queue) {ea : EcmAnswer}
    (hea : ea ∈ er.matchingRdr) (hunsent : ea.status.requestSent = false) :
    ea.status.requestAnswered = false := by
  cases hans : ea.status.requestAnswered with
  | false => rfl
  | true =>
    have hsent := hk.sent ea hea hans
    rw [hunsent] at hsent
    cases hsent

private theorem asked_kind {stage : ℕ} {ea : EcmAnswer} (h : ea.status.asked stage)
    (hstage : 1 ≤ stage) (hlast : stage < 4) :
    ea.status.readerActive ∧
      (stage = 1 → ea.status.readerCacheex) ∧
      (2 ≤ stage → ea.status.readerFallback = false) ∧
      (stage = 2 → ea.status.readerLocal) := by
  obtain rfl | rfl | rfl : stage = 1 ∨ stage = 2 ∨ stage = 3 := by omega
  all_goals
    simp only [Status.asked, Bool.and_eq_true, Bool.not_eq_true'] at h
    simp [h]

/-- A request that readers were asked for: it waits for one of them, or for who pends otherwise. -/
theorem Waiting.reached (hk : Kept cfg er queue) (ha : Asked er er') (hr : Reached env er er')
    (hnormal : 0 < normalCount er →
      ∃ ea ∈ er.matchingRdr, ea.status.readerActive ∧ ea.status.readerCacheex = false)
    (hprefer : er.cacheexWaitTimeExpired = false → er.preferlocalcards ≠ 2)
    (hone : er'.stage = 1 → has (·.readerCacheex) er)
    (hlast : er'.stage = 4 → Obliged er' → ∃ ea ∈ er.matchingRdr, Pends queue ea) :
    Waiting er' queue := by
  have hlater := hr.later
  constructor
  · omega
  · intro hexp
    rw [ha.same]
    exact hprefer (ha.expired ▸ hexp)
  · intro hcount _
    obtain ⟨ea, hmem, hactive, hcacheex⟩ := hnormal (normalCount_asked ha ▸ hcount)
    obtain ⟨f, hf⟩ := ha.mem_of_mem hmem
    exact ⟨ea.sendIf f, hf, by simpa using hactive, by simpa using hcacheex⟩
  · intro hstage _
    exact has_asked ha _ (by simp) (hone hstage)
  · intro hstage
    obtain ⟨ea, hmem, hasked, -⟩ := hr.waits (by omega)
    have hkind := asked_kind hasked (by omega) (by omega)
    apply has_asked ha _ (by simp)
    exact (has_iff _ er).mpr ⟨ea, hmem, hkind.2.2.1 (by omega), hkind.1, hkind.2.2.2 hstage⟩
  · intro hstage
    obtain ⟨ea, hmem, hasked, -⟩ := hr.waits (by omega)
    have hkind := asked_kind hasked (by omega) (by omega)
    apply has_asked ha _ (by simp)
    exact (has_iff _ er).mpr ⟨ea, hmem, hkind.2.2.1 (by omega), hkind.1, rfl⟩
  · intro hobliged
    apply exists_pends_asked ha (p := fun fallback => er'.stage ≤ 3 → fallback = false)
    have hle := hr.last
    by_cases hfour : er'.stage = 4
    · obtain ⟨ea, hmem, hpends⟩ := hlast hfour hobliged
      exact ⟨ea, hmem, hpends, by omega⟩
    · by_cases hst : er'.stage = 1
      · -- nobody was asked before stage 1
        obtain ⟨ea, hmem, hfallback, hactive, -⟩ := (has_iff _ er).mp (hone hst)
        have hunsent := hk.unasked (by omega) ea hmem
        exact ⟨ea, hmem, .inr ⟨hactive, hk.unanswered hmem hunsent⟩, fun _ => hfallback⟩
      · obtain ⟨ea, hmem, hasked, -⟩ := hr.waits (by omega)
        have hkind := asked_kind hasked (by omega) (by omega)
        have hans := hk.unanswered hmem (asked_unsent hasked)
        exact ⟨ea, hmem, .inr ⟨hkind.1, hans⟩, fun _ => hkind.2.2.1 (by omega)⟩

end Asked

end NCam.Ecm.Answer.Escalation
