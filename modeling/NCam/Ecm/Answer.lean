import NCam.Ecm.Request

/-! The answer to an ECM request: the stages in which `request_cw_from_readers` asks the matching
readers, the jobs of the client on their answers and on the timeouts, and `send_dcw`. -/
namespace NCam.Ecm.Answer

abbrev Cw := BitVec 128

def E2_GROUP : ℕ := 1
def E2_WRONG_CHKSUM : ℕ := 13

/-- The flags of `s_ecm_answer.status`. -/
structure Status where
  readerActive : Bool
  readerFallback : Bool
  readerLocal : Bool
  readerCacheex : Bool
  requestSent : Bool
  requestAnswered : Bool
deriving DecidableEq

/-- `s_ecm_answer`; `reader` is the address of its reader. -/
structure EcmAnswer where
  reader : ℕ
  status : Status
  rc : ℕ
  rcEx : ℕ
  cw : Cw
  isPending : Bool
deriving DecidableEq

/-- What the `send_dcw` of a client's module was called with. -/
structure Dcw where
  rc : ℕ
  cw : Cw
deriving DecidableEq

/-- The fields of `ECM_REQUEST` that the jobs of its client read and write. `delivered` records the
calls of the module's `send_dcw`. -/
structure EcmRequest where
  caid : Caid
  prid : BitVec 32
  rc : ℕ
  rcEx : ℕ
  cw : Cw
  stage : ℕ
  preferlocalcards : ℕ
  matchingRdr : List EcmAnswer
  selectedReader : Option ℕ
  readerRequested : ℕ
  readerCount : ℕ
  fallbackReaderCount : ℕ
  localreaderCount : ℕ
  cacheexReaderCount : ℕ
  cacheexWaitTimeExpired : Bool
  cacheexHitcache : Bool
  cacheexMode1Delay : ℕ
  readersTimeoutCheck : Bool
  checked : ℕ
  originReader : Option ℕ
  cwChecked : Cw
  delivered : List Dcw

/-- `FILTER`. -/
structure Filt where
  caid : Caid
  prids : List (BitVec 32)

/-- The limits and the penalty of ACoSC; in an account, -1 stands for the global value. -/
structure AcoscLimits where
  maxActiveSids : ℤ
  zapLimit : ℤ
  maxEcmsPerMinute : ℤ
  penalty : ℤ

/-- An entry of `client_zap_list`. -/
structure ZapEntry where
  requestStage : ℤ
  lasttime : ℤ

/-- What ACoSC reads of a client and its account. -/
structure Zapping where
  limits : AcoscLimits
  penaltyActive : ℕ
  penaltyUntil : ℤ
  userZapCount : ℤ
  nRequest : ℤ
  clientZapList : List ZapEntry

structure Config where
  cacheexReader : ℕ → Bool
  doubleCheck : Bool
  doubleCheckCaid : List Filt
  waitUntilCtimeout : Bool
  acoscEnabled : Bool
  acosc : AcoscLimits

/-- What a job finds: the time, the client, its account and the state of the readers. `typC` tells that
the client's type is 'c', `emptyCw` that it is a dvbapi client whose demuxer calls the control word
empty, `late` that the time for answers is over. -/
structure Env where
  now : ℤ
  late : Bool
  checkClient : Bool
  typC : Bool
  emptyCw : Bool
  zapping : Zapping
  connected : ℕ → Bool

def getEcmAnswer (reader : ℕ) (er : EcmRequest) : Option EcmAnswer :=
  er.matchingRdr.find? fun ea => ea.reader = reader

def isDoubleCheckCaid (tab : List Filt) (er : EcmRequest) : Bool :=
  tab = [] || tab.any fun f =>
    f.caid ≠ 0 && (f.caid = er.caid || (f.caid < 0x0100 && er.caid >>> 8 = f.caid)) &&
      (f.prids = [] || f.prids.contains er.prid)

section Acosc

variable (cfg : Config) (env : Env)

/-- The value of the account, or the global one. -/
def AcoscLimits.value (f : AcoscLimits → ℤ) : ℤ :=
  if f env.zapping.limits = -1 then f cfg.acosc else f env.zapping.limits

/-- The `acosc_penalty_active` that `send_dcw` computes. -/
def acoscPenaltyActive : ℕ :=
  let zap := env.zapping
  let maxActiveSids := AcoscLimits.value cfg env (·.maxActiveSids)
  let zapLimit := AcoscLimits.value cfg env (·.zapLimit)
  let maxEcms := AcoscLimits.value cfg env (·.maxEcmsPerMinute)
  let penalty := AcoscLimits.value cfg env (·.penalty)
  let active :=
    if zap.penaltyActive = 4 ∧ zap.penaltyUntil ≤ env.now then 0 else zap.penaltyActive
  let sids : ℤ :=
    zap.clientZapList.countP fun e => env.now - 30 < e.lasttime ∧ e.requestStage = 10
  let active := if active = 0 ∧ maxActiveSids > 0 ∧ sids > maxActiveSids then 1 else active
  let active := if active = 0 ∧ zapLimit > 0 ∧ zap.userZapCount > zapLimit then 2 else active
  let active :=
    if active = 0 ∧ maxEcms > 0 ∧ zap.nRequest ≥ maxEcms ∧ penalty ≠ 4 then 3 else active
  if active = 0 ∧ maxEcms > 0 ∧ zap.nRequest > 0 ∧ penalty = 4 then 3 else active

/-- What ACoSC makes of the request: a fake answer, a refusal, or nothing. -/
def acosc (er : EcmRequest) : EcmRequest :=
  if cfg.acoscEnabled ∧
      ((er.rc < E_NOTFOUND ∧ AcoscLimits.value cfg env (·.maxActiveSids) > 0) ∨
        AcoscLimits.value cfg env (·.zapLimit) > 0 ∨
        AcoscLimits.value cfg env (·.maxEcmsPerMinute) > 0) ∧
      acoscPenaltyActive cfg env > 0 then
    if AcoscLimits.value cfg env (·.penalty) = 1 then
      { er with rc := E_FAKE, rcEx := E2_WRONG_CHKSUM }
    else if AcoscLimits.value cfg env (·.penalty) = 2 then { er with rc := E_DISABLED }
    else er
  else er

end Acosc

section SendDcw

variable (cfg : Config) (env : Env)

/-- An answer that another request asked for is one from the cache, as is one of a cacheex reader. -/
def markSource (er : EcmRequest) : EcmRequest :=
  let eaOrig := er.selectedReader.bind fun reader => getEcmAnswer reader er
  let er := if eaOrig.any (·.isPending) ∧ er.rc = E_FOUND then { er with rc := E_CACHE2 } else er
  let er :=
    if er.rc = E_FOUND ∧ er.selectedReader.any cfg.cacheexReader then { er with rc := E_CACHEEX }
    else er
  if er.rc < E_NOTFOUND then { er with rcEx := 0 } else er

/-- The double check applies to the answer. -/
def doubleChecks (er : EcmRequest) : Bool :=
  cfg.doubleCheck && decide (er.rc ≤ E_CACHE2) && er.selectedReader.isSome &&
    isDoubleCheckCaid cfg.doubleCheckCaid er

/-- The control word is saved, or compared with the saved one. -/
def countCw (er : EcmRequest) : EcmRequest :=
  if er.checked = 0 then
    { er with checked := 1, originReader := er.selectedReader, cwChecked := er.cw }
  else if er.originReader ≠ er.selectedReader ∧ er.cwChecked = er.cw then
    { er with checked := er.checked + 1 }
  else er

/-- The call of the module's `send_dcw`, which sees a fake answer as a found one. -/
def deliver (er : EcmRequest) : EcmRequest :=
  let rc := if er.rc = E_FAKE then E_FOUND else er.rc
  let after := if env.emptyCw ∧ rc < E_NOTFOUND then E_NOTFOUND else rc
  { er with
    rc := if er.rc = E_FAKE then E_FAKE else after
    delivered := er.delivered ++ [⟨rc, er.cw⟩] }

def sendDcw (er : EcmRequest) : EcmRequest :=
  if env.checkClient && env.typC then
    let er := acosc cfg env (markSource cfg er)
    if doubleChecks cfg er then
      let er := countCw er
      if er.checked < 2 then { er with rc := E_UNHANDLED } else deliver env er
    else deliver env er
  else er

end SendDcw

section Stages

variable (env : Env)

/-- The stage after `stage`: 1 is left out with `preferlocalcards` 2, 2 is left out without it. -/
def nextStage (preferlocalcards stage : ℕ) : ℕ :=
  let stage := stage + 1
  let stage := if stage = 1 ∧ preferlocalcards = 2 then stage + 1 else stage
  if stage = 2 ∧ preferlocalcards = 0 then stage + 1 else stage

/-- The readers that `stage` asks. -/
def Status.asked (stage : ℕ) (status : Status) : Bool :=
  !status.requestSent && status.readerActive &&
    match stage with
    | 1 => status.readerCacheex
    | 2 => status.readerLocal && !status.readerFallback
    | 3 => !status.readerFallback
    | _ => status.readerFallback

def EcmAnswer.send (ea : EcmAnswer) : EcmAnswer :=
  { ea with status := { ea.status with requestSent := true } }

/-- Asks the readers of the stage the request is in. -/
def askReaders (er : EcmRequest) : EcmRequest :=
  { er with
    matchingRdr := er.matchingRdr.map fun ea => if ea.status.asked er.stage then ea.send else ea
    readerRequested := er.readerRequested +
      er.matchingRdr.countP fun ea => ea.status.asked er.stage }

/-- One of the readers asked can answer. -/
def sentAny (er : EcmRequest) : Bool :=
  er.matchingRdr.any fun ea => ea.status.asked er.stage && env.connected ea.reader

/-- The loop of `request_cw_from_readers`, each round of which starts below stage 4 and raises it. A
`stopStage` of 0 is none. -/
def requestLoop (stopStage : ℕ) : ℕ → EcmRequest → EcmRequest
  | 0, er => er
  | fuel + 1, er =>
    if stopStage ≠ 0 ∧ stopStage ≤ er.stage then er
    else
      let er := { er with stage := nextStage er.preferlocalcards er.stage }
      if sentAny env er ∨ 4 ≤ er.stage then askReaders er
      else requestLoop stopStage fuel (askReaders er)

def requestCwFromReaders (stopStage : ℕ) (er : EcmRequest) : EcmRequest :=
  requestLoop env stopStage (4 - er.stage) er

end Stages

/-- What a reader's thread passes to `write_ecm_answer`, and what the checks there say: a control word
that is not locally generated is refused, `badCw` is the `rcEx` of one that is null, half or has a bad
checksum, and the cycle check, if there is one, finds it bad, or the one of the request to be null. -/
structure Given where
  rc : ℕ
  rcEx : ℕ
  cw : Option Cw
  lgRefused : Bool
  badCw : Option ℕ
  cycleChecked : Bool
  cycleBad : Bool
  cycleNull : Bool

/-- The bad checksum of an ECM takes all readers out. -/
def wrongChksum (er : EcmRequest) : EcmRequest :=
  { er with
    stage := 5
    matchingRdr := er.matchingRdr.map fun ea =>
      { ea with status := { ea.status with readerActive := false, readerFallback := false } } }

/-- The `rc` and `rcEx` that the checks before the cycle check leave. -/
def checkedRc (given : Given) (rc : ℕ) : ℕ × ℕ :=
  if rc < E_NOTFOUND then
    match given.badCw with
    | some rcEx => (E_NOTFOUND, rcEx)
    | none => (rc, given.rcEx)
  else (rc, given.rcEx)

/-- The cycle check applies to an answer. -/
def Given.cycles (given : Given) (rc : ℕ) : Bool :=
  given.cycleChecked && given.cw.isSome && decide (rc < E_NOTFOUND)

/-- The cycle check copies the control word to the request. -/
def cycleCheck (given : Given) (rc : ℕ) (er : EcmRequest) : EcmRequest :=
  if given.cycles rc then
    { er with cw := given.cw.getD er.cw, rc := if given.cycleNull then E_NOTFOUND else er.rc }
  else er

def EcmAnswer.store (ea : EcmAnswer) (answered : Bool) (rc rcEx : ℕ) (cw : Option Cw) : EcmAnswer :=
  { ea with
    status := { ea.status with requestAnswered := ea.status.requestAnswered || answered }
    rc := rc
    rcEx := rcEx
    cw := cw.getD ea.cw }

/-- Changes the answer of a reader; no two answers have the same reader. -/
def EcmRequest.update (er : EcmRequest) (reader : ℕ) (f : EcmAnswer → EcmAnswer) : EcmRequest :=
  { er with matchingRdr := er.matchingRdr.map fun ea => if ea.reader = reader then f ea else ea }

/-- `write_ecm_answer` in time; the job for the client that ends it is a step of its own. -/
def writeEcmAnswer (reader : ℕ) (given : Given) (er : EcmRequest) : EcmRequest :=
  let refused := given.lgRefused && decide (given.rc < E_NOTFOUND)
  let rc := if refused then E_NOTFOUND else given.rc
  match getEcmAnswer reader er with
  | none => er
  | some ea =>
    if ea.status.requestAnswered then er
    else if rc = E_NOTFOUND ∧ given.rcEx = E2_WRONG_CHKSUM then
      (wrongChksum er).update reader (·.store (!refused) E_INVALID E2_WRONG_CHKSUM given.cw)
    else
      let (rc, rcEx) := checkedRc given rc
      let (rc', rcEx) :=
        if given.cycles rc ∧ given.cycleBad then (E_NOTFOUND, E2_WRONG_CHKSUM) else (rc, rcEx)
      (cycleCheck given rc er).update reader (·.store (!refused) rc' rcEx given.cw)

section ChkDcw

variable (cfg : Config) (env : Env)

/-- The readers of a kind that were asked and are still to answer; one with a control word is, too. -/
def left (kind : Status → Bool) (er : EcmRequest) : Bool :=
  er.matchingRdr.any fun ea =>
    (!ea.status.readerFallback && ea.status.requestSent && !ea.status.requestAnswered &&
      ea.status.readerActive && kind ea.status) || decide (ea.rc < E_NOTFOUND)

/-- `reader_left`: the readers of any stage that are still to answer. -/
def readerLeft (er : EcmRequest) : Bool :=
  er.matchingRdr.any fun ea =>
    (!ea.status.requestAnswered && ea.status.readerActive) || decide (ea.rc < E_NOTFOUND)

/-- There is a reader of the kind that is no fallback. -/
def has (kind : Status → Bool) (er : EcmRequest) : Bool :=
  er.matchingRdr.any fun ea =>
    !ea.status.readerFallback && ea.status.readerActive && kind ea.status

/-- The branch of `chk_dcw` for the answer of a cacheex mode 1 reader, which is never sent. -/
def chkCacheex (er : EcmRequest) : EcmRequest :=
  if !er.cacheexWaitTimeExpired && er.cacheexHitcache then er
  else if er.stage = 1 ∧ has (·.readerCacheex) er ∧ !left (·.readerCacheex) er then
    requestCwFromReaders env 0 er
  else er

/-- The branch of `chk_dcw` for a reader without a control word. -/
def chkNotfound (ea : EcmAnswer) (er : EcmRequest) : EcmRequest :=
  let left2 := has (·.readerLocal) er && !left (·.readerLocal) er
  let left3 := has (fun _ => true) er && !left (fun _ => true) er
  let noneLeft := !readerLeft er
  let er := { er with rcEx := ea.rcEx }
  let er :=
    if (er.stage = 2 ∧ left2) ∨ (er.stage = 3 ∧ left3) then requestCwFromReaders env 0 er else er
  if noneLeft && !cfg.waitUntilCtimeout then { er with rc := E_NOTFOUND } else er

/-- `chk_dcw` after its tests: what the answer does to the request. -/
def takeAnswer (ea : EcmAnswer) (er : EcmRequest) : EcmRequest :=
  let er := { er with selectedReader := some ea.reader }
  if ea.rc = E_FOUND then { er with cw := ea.cw, rcEx := 0, rc := ea.rc }
  else if ea.rc = E_INVALID ∨ ea.rc = E_NOTFOUND then chkNotfound cfg env ea er
  else er

def chkDcw (ea : EcmAnswer) (er : EcmRequest) : EcmRequest :=
  if er.rc < E_99 then er
  else if cfg.cacheexReader ea.reader then chkCacheex env er
  else
    let er := takeAnswer cfg env ea er
    if er.rc < E_99 then sendDcw cfg env er else er

end ChkDcw

/-- The entry of the cache that `check_cache` found. -/
structure CacheEntry where
  cacheexSrc : Bool
  cw : Cw
  selectedReader : Option ℕ

section Jobs

variable (cfg : Config) (env : Env)

def writeEcmAnswerFromcache (ecm : CacheEntry) (er : EcmRequest) : EcmRequest :=
  let rcOrig := er.rc
  if E_NOTFOUND ≤ er.rc then
    let er :=
      { er with
        rc := if ecm.cacheexSrc then E_CACHEEX else E_CACHE1
        cw := ecm.cw
        selectedReader := ecm.selectedReader }
    if rcOrig = E_UNHANDLED then sendDcw cfg env er else er
  else er

def timeoutGiven : Given := ⟨E_TIMEOUT, 0, none, false, none, false, false, false⟩

/-- The readers that were asked and have not answered. -/
def unanswered (er : EcmRequest) : List ℕ :=
  (er.matchingRdr.filter fun ea => ea.status.requestSent && !ea.status.requestAnswered).map (·.reader)

def ecmTimeout (er : EcmRequest) : EcmRequest :=
  if er.readersTimeoutCheck then er
  else
    let er := { er with readersTimeoutCheck := true }
    if env.checkClient ∧ E_UNHANDLED ≤ er.rc then
      let er :=
        if env.late then er
        else (unanswered er).foldl (fun er reader => writeEcmAnswer reader timeoutGiven er) er
      sendDcw cfg env { er with rc := E_TIMEOUT, rcEx := 0 }
    else er

/-- `found` tells that the cache is tried without its counter, and has the control word: the answer is
then a job of its own. -/
def cacheexTimeout (found : Bool) (er : EcmRequest) : EcmRequest :=
  if er.cacheexWaitTimeExpired then er
  else
    let er := { er with cacheexWaitTimeExpired := true }
    if E_UNHANDLED ≤ er.rc then
      if found then er
      else if (er.readerCount + er.fallbackReaderCount : ℤ) - er.cacheexReaderCount ≤ 0 then
        if cfg.waitUntilCtimeout then er
        else sendDcw cfg env { er with rc := E_NOTFOUND, selectedReader := none, rcEx := 0 }
      else if er.stage < 2 then requestCwFromReaders env 0 er
      else er
    else er

def cacheexMode1Delay (er : EcmRequest) : EcmRequest :=
  if !er.cacheexWaitTimeExpired ∧ er.cacheexMode1Delay ≠ 0 ∧ er.cacheexReaderCount > 0 ∧
      er.stage = 0 ∧ E_UNHANDLED ≤ er.rc then
    requestCwFromReaders env 1 er
  else er

/-- The loop of `fallback_timeout`, each round of which raises the stage. -/
def fallbackLoop : ℕ → EcmRequest → EcmRequest
  | 0, er => er
  | fuel + 1, er => if er.stage < 4 then fallbackLoop fuel (requestCwFromReaders env 0 er) else er

def fallbackTimeout (er : EcmRequest) : EcmRequest :=
  if E_UNHANDLED ≤ er.rc ∧ er.stage < 4 then fallbackLoop env (4 - er.stage) er else er

end Jobs

section GetCw

variable (cfg : Config) (env : Env)

/-- `set_readers_counter`. A reader that is not a cacheex one is local by its flag. -/
def setReadersCounter (er : EcmRequest) : EcmRequest :=
  let active := er.matchingRdr.filter (·.status.readerActive)
  { er with
    readerCount := active.countP fun ea => !ea.status.readerFallback
    fallbackReaderCount := active.countP fun ea => ea.status.readerFallback
    cacheexReaderCount := active.countP fun ea => cfg.cacheexReader ea.reader
    localreaderCount := active.countP fun ea =>
      !cfg.cacheexReader ea.reader && ea.status.readerLocal }

/-- The counters, and no preference for local readers when there are none. -/
def countReaders (er : EcmRequest) : EcmRequest :=
  let er := setReadersCounter cfg er
  if er.preferlocalcards > 0 ∧ er.localreaderCount = 0 then { er with preferlocalcards := 0 } else er

/-- The wait for the cache that `get_cw` computed. -/
structure WaitTime where
  hitcache : Bool
  mode1Delay : ℕ

/-- The end of `get_cw`, once the request is in `ecmcwcache`. -/
def startRequest (wait : Option WaitTime) (er : EcmRequest) : EcmRequest :=
  match wait with
  | none =>
    requestCwFromReaders env 0
      { er with
        rcEx := 0
        cacheexWaitTimeExpired := true
        cacheexHitcache := false
        cacheexMode1Delay := 0 }
  | some wait =>
    let er :=
      { er with
        rcEx := 0
        cacheexWaitTimeExpired := false
        cacheexHitcache := wait.hitcache
        cacheexMode1Delay := wait.mode1Delay }
    if wait.mode1Delay = 0 ∧ er.cacheexReaderCount > 0 then requestCwFromReaders env 1 er else er

end GetCw

end NCam.Ecm.Answer
