import NCam.Conf.Services

/-! The order in which a demuxer tries its ECM pids: `dvbapi_resort_ecmpids` gives each pid a status by rules,
services, readers and what was decoded before, and `dvbapi_try_next_caid` goes from the highest down. -/
namespace NCam.Dvbapi.EcmPids

open NCam.Conf

/-- The letters of `ncam.dvbapi`. -/
inductive PrioType
  | p | i | m | d | s | l | j | a | x
  deriving DecidableEq

/-- `s_dvbapi_priority`. -/
structure Priority where
  type : PrioType
  caid : BitVec 16
  provid : BitVec 32
  srvid : BitVec 16
  chid : BitVec 32
  ecmpid : BitVec 16
  cadata : BitVec 32
  force : BitVec 8
  pidx : BitVec 8

/-- What a program says about an ECM pid. -/
structure EcmInfo where
  caid : BitVec 16
  provid : BitVec 32
  ecmPid : BitVec 16
  cadata : BitVec 32

/-- `s_ecmpid`; `checked` and `status` are signed. -/
structure EcmPid extends EcmInfo where
  chid : BitVec 32
  irdetoMaxindex : BitVec 8
  irdetoCurindex : BitVec 8
  irdetoCycle : BitVec 8
  checked : BitVec 8
  status : BitVec 8
  tries : BitVec 8
  table : BitVec 8

structure Demux where
  ecmpidcount : ℕ
  ecmpids : ℕ → EcmPid
  maxEmmFilter : BitVec 16
  pidindex : ℤ
  curindex : ℤ
  maxStatus : BitVec 8
  programNumber : BitVec 16

structure ChannelCache where
  caid : BitVec 16
  prid : BitVec 32
  srvid : BitVec 16
  pid : BitVec 16
  chid : BitVec 32

/-- The fields of the request that are filled in. -/
structure Request extends SrvRequest where
  ocaid : BitVec 16
  pid : BitVec 16

/-- What the functions find: the active readers and which of them match a request, the tunnels of the client,
the rules, the services, and the channels decoded before. -/
structure Setup (ρ : Type*) where
  readers : List ρ
  matchingReader : Request → ρ → Bool
  cacheexReader : ρ → Bool
  isLocalreader : ρ → Request → Bool
  chkOnBtun : Request → BitVec 16
  priority : List Priority
  shift : SidShift
  sidtab : List SidTab
  sidtabs : Sidtabs
  preferlocalcards : ℤ
  channelCache : List ChannelCache
  maxfilter : ℤ
  useOpenxcas : Bool

section Resort

variable {ρ : Type*} (cfg : Setup ρ) (d : Demux)

def Demux.request (info : EcmInfo) : Request :=
  ⟨⟨info.caid, info.provid, d.programNumber⟩, info.caid, info.ecmPid⟩

/-- The tunnel of the client, if there is one. -/
def Setup.tunneled (er : Request) : Request :=
  if cfg.chkOnBtun er ≠ 0 then { er with caid := cfg.chkOnBtun er } else er

/-- The request with which the readers and the services are compared. -/
def Setup.ask (info : EcmInfo) : Request := cfg.tunneled (d.request info)

/-- The rule is about the pid. A field that is 0 is about all; tunnels are for `p` rules only. -/
def Priority.names (prio : Priority) (n : ℕ) (info : EcmInfo) : Bool :=
  let er := if prio.type = .p then cfg.ask d info else d.request info
  (prio.caid = 0 ∨ prio.caid = er.caid ∨ prio.caid = er.ocaid) ∧
    (prio.provid = 0 ∨ prio.provid = er.prid) ∧ (prio.srvid = 0 ∨ prio.srvid = er.srvid) ∧
      (prio.ecmpid = 0 ∨ prio.ecmpid = er.pid) ∧ (prio.pidx = 0 ∨ prio.pidx.toInt - 1 = n)

/-- The local state of the loop over the rules. -/
structure Sorting where
  ecmpids : ℕ → EcmPid
  pOrder : ℤ
  matchingDone : Bool

/-- A forced pid is the only one left. -/
def Demux.forced (ecmpids : ℕ → EcmPid) (n : ℕ) : Demux :=
  { d with
    ecmpids := fun j =>
      if j = n then { ecmpids j with status := 1, checked := 0 }
      else if j < d.ecmpidcount then { ecmpids j with status := -1 }
      else ecmpids j
    maxStatus := 1
    maxEmmFilter := BitVec.ofInt 16 (cfg.maxfilter - 1) }

/-- A rule is held against a pid. A forced entry ends the function. -/
def applyPrio (s : Sorting) (visit : Priority × ℕ) : Except Demux Sorting :=
  let prio := visit.1
  let n := visit.2
  let pid := s.ecmpids n
  if pid.status = -1 then .ok s
  else if !prio.names cfg d n pid.toEcmInfo then .ok s
  else
    match prio.type with
    | .p =>
      if prio.cadata ≠ 0 ∧ prio.cadata ≠ pid.cadata then .ok s
      else
        let pid := if prio.chid < 0x10000 then { pid with chid := prio.chid } else pid
        if prio.force ≠ 0 then .error (d.forced cfg (Function.update s.ecmpids n pid) n)
        else if pid.status = 0 then
          -- only the first matching rule counts
          let status := BitVec.ofInt 8 (cfg.readers.length + s.pOrder)
          .ok ⟨Function.update s.ecmpids n { pid with status := status }, s.pOrder - 1, true⟩
        else .ok { s with ecmpids := Function.update s.ecmpids n pid }
    | .i =>
      if prio.chid = 0x10000 ∧ pid.status = 0 then
        .ok { s with ecmpids := Function.update s.ecmpids n { pid with status := -1 } }
      else .ok s
    | _ => .ok s

/-- Every rule with every pid, in the order of the loops. -/
def visits : List (Priority × ℕ) :=
  cfg.priority.flatMap fun prio => (List.range d.ecmpidcount).map fun n => (prio, n)

/-- The loop over the services, from service `nr` on: its `continue` goes to the next service. -/
def serviceStatus (er : SrvRequest) : ℕ → List SidTab → BitVec 8 → BitVec 8
  | _, [], status => status
  | nr, sidtab :: rest, status =>
    if sidtab.hasEntries then
      if cfg.sidtabs.no &&& cfg.shift.bit nr ≠ 0 ∧ chkSrvidMatch er sidtab then
        serviceStatus er (nr + 1) rest (-1)
      else if cfg.sidtabs.ok &&& cfg.shift.bit nr ≠ 0 ∧ chkSrvidMatch er sidtab then
        serviceStatus er (nr + 1) rest (status + 1)
      else serviceStatus er (nr + 1) rest status
    else serviceStatus er (nr + 1) rest status

/-- A pid without a reader is ignored; the services count for the others. -/
def checkReaders (pid : EcmPid) : EcmPid :=
  let er := cfg.ask d pid.toEcmInfo
  if pid.status = -1 then pid
  else if cfg.readers.countP (cfg.matchingReader er) = 0 then { pid with status := -1 }
  else { pid with status := serviceStatus cfg er.toSrvRequest 0 cfg.sidtab pid.status }

def cacheexReaders (er : Request) : ℕ :=
  cfg.readers.countP fun rdr => cfg.matchingReader er rdr && cfg.cacheexReader rdr

def localReaders (er : Request) : ℕ :=
  cfg.readers.countP fun rdr =>
    cfg.matchingReader er rdr && !cfg.cacheexReader rdr && cfg.isLocalreader rdr er

/-- The highest count over the pids that are not ignored. -/
def maxReaders (count : Request → ℕ) (ecmpids : ℕ → EcmPid) : ℕ :=
  (List.range d.ecmpidcount).foldl (fun most n =>
    if (ecmpids n).status = -1 then most else max most (count (cfg.ask d (ecmpids n).toEcmInfo))) 0

/-- The loop that adds the readers of a pid to its status. -/
def weighReaders (matchingDone : Bool) (er : Request) : List ρ → BitVec 8 → ℤ → ℤ → BitVec 8
  | [], status, _, _ => status
  | rdr :: rest, status, cacheexprio, localprio =>
    if cfg.matchingReader er rdr then
      if cfg.preferlocalcards = 0 then
        let status := if matchingDone then status else status + 1
        weighReaders matchingDone er rest status cacheexprio localprio
      else
        let isCacheex := cfg.cacheexReader rdr
        let isLocal := cfg.isLocalreader rdr er
        let status := if isCacheex then status + BitVec.ofInt 8 cacheexprio else status
        let status := if isLocal then status + BitVec.ofInt 8 localprio else status
        weighReaders matchingDone er rest status (if isCacheex then 1 else cacheexprio)
          (if isLocal then 1 else localprio)
    else weighReaders matchingDone er rest status cacheexprio localprio

/-- The pids with the weight of their readers. -/
def sortReaders (matchingDone : Bool) (ecmpids : ℕ → EcmPid) : ℕ → EcmPid :=
  let maxLocal : ℤ := maxReaders cfg d (localReaders cfg) ecmpids
  let maxCacheex : ℤ := maxReaders cfg d (cacheexReaders cfg) ecmpids
  let pOrder : ℤ := d.ecmpidcount * 2
  let localprio := if cfg.preferlocalcards = 2 then maxCacheex + pOrder + 1 else 1
  let cacheexprio := if cfg.preferlocalcards = 1 then maxLocal + pOrder + 1 else 1
  fun n =>
    let pid := ecmpids n
    if (maxLocal ≠ 0 ∨ maxCacheex ≠ 0) ∧ n < d.ecmpidcount ∧ pid.status ≠ -1 then
      let er := cfg.ask d pid.toEcmInfo
      { pid with status := weighReaders cfg matchingDone er cfg.readers pid.status cacheexprio localprio }
    else pid

def findChannelCache (info : EcmInfo) (caidAndPridOnly : Bool) : Option ChannelCache :=
  cfg.channelCache.find? fun c =>
    if caidAndPridOnly then info.caid = c.caid ∧ (info.provid = c.prid ∨ info.provid = 0)
    else d.programNumber = c.srvid ∧ info.caid = c.caid ∧ info.ecmPid = c.pid ∧
      (info.provid = c.prid ∨ info.provid = 0)

/-- The first pid whose channel was decoded before. -/
def foundChannel (matchingDone : Bool) (ecmpids : ℕ → EcmPid) : Option ℕ :=
  if matchingDone then none
  else (List.range d.ecmpidcount).find? fun n =>
    (ecmpids n).status ≠ -1 ∧ (findChannelCache cfg d (ecmpids n).toEcmInfo false).isSome

/-- What was decoded before gets one more: the found channel, or all with its caid and provider. -/
def sortChannels (matchingDone : Bool) (ecmpids : ℕ → EcmPid) : ℕ → EcmPid :=
  match foundChannel cfg d matchingDone ecmpids with
  | some found => fun n =>
    let pid := ecmpids n
    if n = found then
      match findChannelCache cfg d pid.toEcmInfo false with
      | some c =>
        { pid with status := pid.status + 1, chid := if c.chid < 0x10000 then c.chid else pid.chid }
      | none => pid
    else pid
  | none => fun n =>
    let pid := ecmpids n
    if n < d.ecmpidcount ∧ matchingDone = false ∧ pid.status ≠ -1 ∧
        (findChannelCache cfg d pid.toEcmInfo true).isSome then
      { pid with status := pid.status + 1 }
    else pid

/-- The highest status, and the first pid that has it. -/
def highestPrio (ecmpids : ℕ → EcmPid) : ℤ × Option ℕ :=
  (List.range d.ecmpidcount).foldl (fun best n =>
    let status := (ecmpids n).status
    if status ≠ -1 ∧ best.1 < status.toInt then (status.toInt, some n) else best) (0, none)

/-- Pids without a status wait for the run without priorities. -/
def markNoprio (ecmpids : ℕ → EcmPid) : ℕ → EcmPid := fun n =>
  let pid := ecmpids n
  if n < d.ecmpidcount ∧ pid.status ≠ -1 ∧ cfg.useOpenxcas = false ∧ pid.status = 0 then
    { pid with checked := 2 }
  else pid

/-- A channel found with the highest status is the only one left. -/
def keepFound (found : ℕ) (ecmpids : ℕ → EcmPid) : ℕ → EcmPid := fun n =>
  let pid := ecmpids n
  if n < d.ecmpidcount ∧ pid.status ≠ -1 then { pid with status := if n = found then 1 else -1 } else pid

/-- What `dvbapi_resort_ecmpids` does after the rules. -/
def Sorting.finish (s : Sorting) : Demux :=
  let readable : ℕ → EcmPid := fun n =>
    if n < d.ecmpidcount then checkReaders cfg d (s.ecmpids n) else s.ecmpids n
  let weighed := sortReaders cfg d s.matchingDone readable
  let found := foundChannel cfg d s.matchingDone weighed
  let sorted := sortChannels cfg d s.matchingDone weighed
  let highest := highestPrio d sorted
  let marked := markNoprio cfg d sorted
  match found with
  | some n =>
    if highest.2 = some n then
      { d with
        ecmpids := keepFound d n marked
        maxEmmFilter := BitVec.ofInt 16 (cfg.maxfilter - 1)
        maxStatus := 1 }
    else { d with ecmpids := marked, maxStatus := BitVec.ofInt 8 highest.1 }
  | none => { d with ecmpids := marked, maxStatus := BitVec.ofInt 8 highest.1 }

def Demux.reset : Demux :=
  { d with
    ecmpids := fun n =>
      if n < d.ecmpidcount then
        { d.ecmpids n with
          status := 0
          checked := 0
          irdetoCurindex := 0xFE
          irdetoMaxindex := 0
          irdetoCycle := 0xFE
          tries := 0xFE
          table := 0 }
      else d.ecmpids n
    maxStatus := 0
    curindex := -1
    pidindex := -1 }

def resortEcmpids : Demux :=
  let d := d.reset
  match (visits cfg d).foldlM (applyPrio cfg d) ⟨d.ecmpids, d.ecmpidcount + 1, false⟩ with
  | .error d => d
  | .ok s => s.finish cfg d

end Resort

/-- How `dvbapi_start_descrambling` ends: without a request, with a filter, without one, or with a pid that
cannot be used. -/
inductive Start
  | noTask | started | notStarted | unusable
  deriving DecidableEq

/-- What `dvbapi_start_descrambling` writes to the marks of the pid. -/
def EcmPid.start (pid : EcmPid) (checked : BitVec 8) : Start → EcmPid
  | .noTask => pid
  | .started => { pid with checked := checked + 1 }
  | .notStarted => { pid with checked := checked + 1 }
  | .unusable => { pid with checked := 4, status := -1 }

/-- The loops of `dvbapi_try_next_caid`, with the pids they try. -/
def tryLoop (requestmode : ℤ) (checked : BitVec 8) (starts : ℕ → Start) :
    List (ℕ × ℕ) → (ℕ → EcmPid) → List ℕ × (ℕ → EcmPid)
  | [], ecmpids => ([], ecmpids)
  | (j, n) :: rest, ecmpids =>
    if (ecmpids n).checked = checked ∧ (ecmpids n).status.toInt = j then
      let ecmpids := Function.update ecmpids n ((ecmpids n).start checked (starts n))
      if requestmode = 0 ∧ starts n = .started then ([n], ecmpids)
      else
        let (tried, ecmpids) := tryLoop requestmode checked starts rest ecmpids
        (n :: tried, ecmpids)
    else tryLoop requestmode checked starts rest ecmpids

/-- Every status from the highest down to 0, with every pid. -/
def Demux.turns (d : Demux) : List (ℕ × ℕ) :=
  (List.range (d.maxStatus.toInt + 1).toNat).reverse.flatMap fun j =>
    (List.range d.ecmpidcount).map fun n => (j, n)

def tryNextCaid (requestmode : ℤ) (checked : BitVec 8) (starts : ℕ → Start) (d : Demux) : List ℕ × Demux :=
  let (tried, ecmpids) := tryLoop requestmode checked starts d.turns d.ecmpids
  (tried, { d with ecmpids := ecmpids })

end NCam.Dvbapi.EcmPids
