import NCam.Lib.Walks
import Mathlib.Algebra.Order.Ring.Int
import Mathlib.Data.List.Range

/-! The demuxers of `module-dvbapi.c` with their CA indices, the list of the stream pids that are descrambled on
the CA devices, and what stopping a filter does to them. A list that does not exist yet is an empty one. -/
namespace NCam.Dvbapi

open NCam.Lib

section StreamPids

def INDEX_MAX : ℕ := 64
def INDEX_DISABLE_ALL : BitVec 32 := 0xEFFFFFFD
def INDEX_INVALID : BitVec 32 := 0xEFFFFFFF

/-- What `update_streampid_list` and `remove_streampid_from_list` return. -/
inductive StreampidAction
  | noStreampidListed
  | removedStreampidIndex
  | removedStreampidLastindex
  | removedDecodingStreampidIndex
  | foundStreampidIndex
  | addedStreampidIndex
  | firstStreampidIndex
  | invalidStreampidIndex
deriving DecidableEq

/-- `s_streampid`. -/
structure Streampid where
  streampid : BitVec 16
  cadevice : BitVec 8
  caindex : BitVec 32
  activeindexers : BitVec 64
  useDes : Bool
deriving DecidableEq

/-- What the functions depend on besides the list. -/
structure Env where
  dvbapiExtendedCwApi : ℕ
  /-- The int that `1 << i` gives from `i = 32` on, where C leaves it undefined. -/
  farShift : ℕ → BitVec 32

variable (env : Env)

/-- `1 << i` as an operand of a 64 bit expression. -/
def Env.shifted (i : ℕ) : BitVec 64 :=
  (if i < 32 then (1 : BitVec 32) <<< i else env.farShift i).signExtend 64

/-- `(activeindexers & (1 << i)) == (uint64_t) (1 << i)`. -/
def Streampid.hasIndex (listitem : Streampid) (i : ℕ) : Bool :=
  listitem.activeindexers &&& env.shifted i = env.shifted i

/-- A stream pid on a CA device. -/
abbrev Key := BitVec 8 × BitVec 16

def Streampid.key (listitem : Streampid) : Key := (listitem.cadevice, listitem.streampid)

def Streampid.isFor (cadevice : BitVec 8) (pid : BitVec 16) (listitem : Streampid) : Bool :=
  cadevice = listitem.cadevice ∧ pid = listitem.streampid

/-- A listed stream pid gets one more index. -/
def Streampid.addIndexer (idx : BitVec 32) (useDes : Bool) (listitem : Streampid) :
    List Streampid × StreampidAction :=
  let other := env.dvbapiExtendedCwApi = 2 ∧ useDes ≠ listitem.useDes
  if listitem.hasIndex env idx.toNat then
    if other then ([{ listitem with useDes }], .firstStreampidIndex) else ([listitem], .foundStreampidIndex)
  else
    let listitem := { listitem with activeindexers := listitem.activeindexers ||| env.shifted idx.toNat }
    if other then ([{ listitem with useDes }], .firstStreampidIndex) else ([listitem], .addedStreampidIndex)

def updateStreampidList (cadevice : BitVec 8) (pid : BitVec 16) (idx : BitVec 32) (useDes : Bool)
    (list : List Streampid) : List Streampid × StreampidAction :=
  if INDEX_MAX ≤ idx.toNat then (list, .invalidStreampidIndex)
  else
    (onFirst (Streampid.isFor cadevice pid) (Streampid.addIndexer env idx useDes) list).getD
      (list ++ [⟨pid, cadevice, idx, env.shifted idx.toNat, useDes⟩], .firstStreampidIndex)

/-- One index of a listed stream pid is taken back, the stream pid with its last one. -/
def Streampid.removeIndexer (idx : BitVec 32) (listitem : Streampid) : List Streampid × StreampidAction :=
  let (listitem, removed) :=
    if idx = INDEX_DISABLE_ALL then ({ listitem with activeindexers := 0 }, true)
    else if listitem.hasIndex env idx.toNat then
      ({ listitem with activeindexers := listitem.activeindexers &&& ~~~env.shifted idx.toNat }, true)
    else (listitem, false)
  if listitem.activeindexers = 0 ∧ removed = true then ([], .removedStreampidLastindex)
  else if removed then
    if idx ≠ INDEX_DISABLE_ALL ∧ idx ≠ listitem.caindex then ([listitem], .removedStreampidIndex)
    else ([{ listitem with caindex := INDEX_INVALID }], .removedDecodingStreampidIndex)
  else ([listitem], .invalidStreampidIndex)

/-- The counter of the descramblers in use is set anew by the caller when the last index is removed. -/
def removeStreampidFromList (cadevice : BitVec 8) (pid : BitVec 16) (idx : BitVec 32)
    (list : List Streampid) : List Streampid × StreampidAction :=
  if INDEX_MAX ≤ idx.toNat then (list, .invalidStreampidIndex)
  else
    (onFirst (Streampid.isFor cadevice pid) (Streampid.removeIndexer env idx) list).getD
      (list, .noStreampidListed)

/-- A fresh index for decoding: the first that is active. -/
def Streampid.fresh (listitem : Streampid) : Streampid :=
  if listitem.caindex = INDEX_INVALID then
    match (List.range INDEX_MAX).find? (listitem.hasIndex env) with
    | some i => { listitem with caindex := BitVec.ofNat 32 i }
    | none => listitem
  else listitem

/-- The index that decodes a listed stream pid. Without one the stream pid is removed. -/
def Streampid.decoding (listitem : Streampid) : List Streampid × BitVec 32 :=
  let listitem := listitem.fresh env
  if listitem.caindex = INDEX_INVALID then ([], INDEX_INVALID) else ([listitem], listitem.caindex)

/-- With the pid 0 every stream pid of the CA device matches. -/
def Streampid.isOn (cadevice : BitVec 8) (pid : BitVec 32) (listitem : Streampid) : Bool :=
  ¬ (listitem.cadevice ≠ cadevice ∨ (pid ≠ 0 ∧ listitem.streampid.setWidth 32 ≠ pid))

def isCaUsed (cadevice : BitVec 8) (pid : BitVec 32) (list : List Streampid) :
    List Streampid × BitVec 32 :=
  (onFirst (Streampid.isOn cadevice pid) (Streampid.decoding env) list).getD (list, INDEX_INVALID)

end StreamPids

section Demuxers

def CA_MAX : ℕ := 32
def MAX_ECM_PIDS : ℕ := 24

/-- What the build decides, and the number of descramblers of the box. -/
structure Box extends Env where
  maxDemux : ℕ
  maxStreamIndices : ℕ
  caDescramblersTotal : ℕ

/-- `s_ecmpid`: a CA index for every stream slot, and the streams it is for. -/
structure Ecmpid where
  index : ℕ → BitVec 32
  streams : BitVec 32

inductive FilterKind
  | free
  | ecm
  | emm
deriving DecidableEq

/-- `filter_s`. -/
structure Filter where
  kind : FilterKind
  pidindex : ℕ

/-- `demux_s`, with the used part of `STREAMpids`; there is no `pidindex` if it is -1. -/
structure Demux where
  caMask : BitVec 32
  demuxFd : ℕ → Filter
  ecmpidcount : ℕ
  ecmpids : ℕ → Ecmpid
  streampids : List (BitVec 16)
  pidindex : Option ℕ
  programNumber : BitVec 16

/-- All streams if the mask is zero. -/
def Ecmpid.uses (ecmpid : Ecmpid) (i : ℕ) : Bool := ecmpid.streams = 0 ∨ ecmpid.streams.getLsbD i = true

/-- A call of `remove_streampid_from_list`, for stream `i` and slot `z` of the old ECM pid. -/
structure Removal where
  z : ℕ
  i : ℕ
  cadevice : ℕ
deriving DecidableEq

/-- The demuxers, the list of stream pids, the descramblers in use; `outside` is set when an array is
written outside its bounds. -/
structure State where
  demux : ℕ → Demux
  list : List Streampid
  caDescramblersUsed : ℕ
  outside : Bool

variable (box : Box)

/-- The number of descramblers that decode a listed stream pid, `none` if one lies outside the array. -/
def countActiveIndexers (list : List Streampid) : Option ℕ :=
  let decoding := (list.map Streampid.caindex).filter fun caindex =>
    caindex ≠ INDEX_INVALID ∧ caindex.toNat < INDEX_MAX
  if decoding.any fun caindex => box.caDescramblersTotal ≤ caindex.toNat then none
  else some ((List.range box.caDescramblersTotal).countP fun i =>
    decoding.any fun caindex => caindex.toNat = i)

/-- `remove_streampid_from_list`, with the counter of the descramblers in use. -/
def State.remove (s : State) (cadevice : ℕ) (pid : BitVec 16) (idx : BitVec 32) : State :=
  let (list, action) := removeStreampidFromList box.toEnv (.ofNat 8 cadevice) pid idx s.list
  let s := { s with list }
  if action = .removedStreampidLastindex then
    match countActiveIndexers box list with
    | some used => { s with caDescramblersUsed := used }
    | none => { s with outside := true }
  else s

def State.setIndex (s : State) (demuxId pid z : ℕ) (idx : BitVec 32) : State :=
  let d := s.demux demuxId
  let ecmpid := d.ecmpids pid
  let ecmpids := Function.update d.ecmpids pid { ecmpid with index := Function.update ecmpid.index z idx }
  { s with demux := Function.update s.demux demuxId { d with ecmpids } }

/-- Another demuxer that is descrambling on the same CA devices has the index, and a stream other than
this one. The loop over its streams means to leave the stream out. -/
def matchingStream (demux : ℕ → Demux) (demuxId : ℕ) (pidtobestopped : BitVec 16) (idx : BitVec 32) : Bool :=
  (List.range box.maxDemux).any fun j =>
    if (demux j).programNumber = 0 ∨ demuxId = j ∨ (demux j).caMask ≠ (demux demuxId).caMask then false
    else
      match (demux j).pidindex with
      | none => false
      | some otherdemuxpid =>
        let ecmpid := (demux j).ecmpids otherdemuxpid
        (List.range box.maxStreamIndices).any fun y =>
          (ecmpid.index y = idx) &&
            (demux j).streampids.zipIdx.any fun (streampid, k) =>
              !(ecmpid.uses k && streampid = pidtobestopped)

/-- The first CA device of the mask. -/
def firstDevice (caMask : BitVec 32) : Option ℕ := (List.range CA_MAX).find? fun j => caMask.getLsbD j

/-- The CA device on which a stream of the old ECM pid is taken from the list. -/
def stopDevice (demux : ℕ → Demux) (demuxId oldpid : ℕ) (idx : BitVec 32) (i : ℕ)
    (pidtobestopped : BitVec 16) : Option ℕ :=
  let d := demux demuxId
  if (d.ecmpids oldpid).uses i then
    if d.pidindex.any fun curpid => (d.ecmpids curpid).uses i then none
    else if matchingStream box demux demuxId pidtobestopped idx then none
    else firstDevice d.caMask
  else none

/-- Stream `i` of the old ECM pid. -/
def stopStream (demuxId oldpid z : ℕ) (idx : BitVec 32) (r : State × List Removal)
    (stream : BitVec 16 × ℕ) : State × List Removal :=
  match stopDevice box r.1.demux demuxId oldpid idx stream.2 stream.1 with
  | some cadevice => (r.1.remove box cadevice stream.1 idx, r.2 ++ [⟨z, stream.2, cadevice⟩])
  | none => r

/-- Slot `z` of the old ECM pid. -/
def stopIndex (demuxId oldpid : ℕ) (r : State × List Removal) (z : ℕ) : State × List Removal :=
  let idx := ((r.1.demux demuxId).ecmpids oldpid).index z
  let r := (r.1.setIndex demuxId oldpid z INDEX_INVALID, r.2)
  if idx ≠ INDEX_INVALID then
    (r.1.demux demuxId).streampids.zipIdx.foldl (stopStream box demuxId oldpid z idx) r
  else r

/-- `dvbapi_stop_filternum` once the filter has been stopped, with the removals from the list. -/
def stopFilternum (s : State) (demuxId num : ℕ) : State × List Removal :=
  let filter := (s.demux demuxId).demuxFd num
  let r :=
    if filter.kind = .ecm then
      (List.range box.maxStreamIndices).foldl (stopIndex box demuxId filter.pidindex) (s, [])
    else (s, [])
  let d := r.1.demux demuxId
  let demuxFd := Function.update d.demuxFd num { d.demuxFd num with kind := .free }
  ({ r.1 with demux := Function.update r.1.demux demuxId { d with demuxFd } }, r.2)

end Demuxers

end NCam.Dvbapi
