import NCam.Ecm.Request
import NCam.Lib.Lowest
import NCam.Stat.StatFile
import NCam.Util.Bytes

/-! The choice between nagra and beta in `stat_get_best_reader`, in both directions of the tunnel, and the times
that it compares. -/
namespace NCam.Stat

open NCam.Lib NCam.Util
open NCam.Ecm (E_FOUND)

section Defs

/-- A matching reader; `allowed` are the checks of its caids, filters and services for a caid, and `lbStat` its
statistics. -/
structure TunnelReader where
  lbWeight : ℤ
  allowed : BitVec 16 → Bool
  lbStat : List ReaderStat

/-- `get_stat`. Entries and queries without a length match every length. -/
def getStat (q : Key) (lbStat : List ReaderStat) : Option ReaderStat :=
  lbStat.find? fun s =>
    s.caid = q.caid && s.prid = q.prid && s.srvid = q.srvid && s.chid = q.chid &&
      (s.ecmlen = q.ecmlen || s.ecmlen = 0 || q.ecmlen = 0)

/-- The caid of the request is nagra, or beta. -/
inductive Tunnel
  | toBeta
  | toNagra
deriving DecidableEq

/-- A request with the caid of the other side of its tunnel. -/
structure TunnelRequest where
  tunnel : Tunnel
  query : Key
  caidTo : BitVec 16
  ecm2 : Byte

/-- `qbeta` and `qnagra`. -/
def TunnelRequest.tunneled (er : TunnelRequest) : Key :=
  { er.query with
    caid := er.caidTo
    prid := 0
    ecmlen := match er.tunnel with
      | .toBeta => er.ecm2.setWidth 16 + 3 + 10
      | .toNagra => er.ecm2.setWidth 16 - 7 }

def TunnelRequest.nagraQuery (er : TunnelRequest) : Key :=
  match er.tunnel with
  | .toBeta => er.query
  | .toNagra => er.tunneled

def TunnelRequest.betaQuery (er : TunnelRequest) : Key :=
  match er.tunnel with
  | .toBeta => er.tunneled
  | .toNagra => er.query

/-- The loop variables of one of the two caids: `stat_nagra`, `time_nagra`, `needs_stats_nagra`,
`overall_nvalid`, or those of beta. -/
structure Side where
  stat : Option ReaderStat
  time : ℤ
  needsStats : Bool
  overallValid : Bool

def Side.start : Side := ⟨none, 0, true, false⟩

/-- The average time for the weight. -/
def weightedTime (lbWeight : ℤ) (s : ReaderStat) : ℤ :=
  let weight := if lbWeight ≤ 0 then 1 else lbWeight
  (s.timeAvg.toInt * 100).tdiv weight

/-- The time of statistics with `E_FOUND`. -/
def foundTime (lbWeight : ℤ) (stat : Option ReaderStat) : Option ℤ :=
  (stat.filter fun s => s.rc.toNat = E_FOUND).map (weightedTime lbWeight)

/-- The pointer to the statistics is not reset for a reader that is not allowed. -/
def lookup (q : Key) (stat : Option ReaderStat) (rdr : TunnelReader) : Option ReaderStat :=
  if rdr.allowed q.caid then getStat q rdr.lbStat else stat

/-- One round of the loop for one of the two caids. -/
def Side.next (q : Key) (side : Side) (rdr : TunnelReader) : Side :=
  let stat := lookup q side.stat rdr
  { stat := stat
    time := match foundTime rdr.lbWeight stat with
      | some ntime => keepLeast side.time ntime
      | none => side.time
    needsStats := side.needsStats && stat.isNone
    overallValid := side.overallValid || rdr.allowed q.caid }

/-- The loop over the matching readers. -/
def sideAfter (q : Key) (rdrs : List TunnelReader) : Side := rdrs.foldl (Side.next q) .start

/-- The factor `lb_auto_betatunnel_prefer_beta`; the two directions treat a time that becomes zero
differently. -/
def preferBeta (tunnel : Tunnel) (prefer timeBeta : ℤ) : ℤ :=
  if prefer ≠ 0 ∧ timeBeta ≠ 0 then
    let time := (timeBeta * prefer).tdiv 100
    match tunnel with
    | .toBeta => if time ≤ 0 then 1 else time
    | .toNagra => if time < 0 then 0 else time
  else timeBeta

inductive Choice
  | needsStats (convert : Bool)
  | convert
  | unchanged
deriving DecidableEq

/-- The other caid is taken if it has a time and this is not above that of the own one. -/
def compareTimes (own other : ℤ) : Choice :=
  if other ≠ 0 ∧ (own = 0 ∨ other ≤ own) then .convert else .unchanged

def choose (tunnel : Tunnel) (prefer : ℤ) (nagra beta : Side) : Choice :=
  let timeBeta := preferBeta tunnel prefer beta.time
  let needsNagra := nagra.overallValid && nagra.needsStats
  let needsBeta := beta.overallValid && beta.needsStats
  if needsNagra || needsBeta then
    .needsStats (match tunnel with
      | .toBeta => needsBeta
      | .toNagra => needsNagra)
  else
    match tunnel with
    | .toBeta => compareTimes nagra.time timeBeta
    | .toNagra => compareTimes timeBeta nagra.time

/-- The automatic choice of `stat_get_best_reader`. -/
def chooseTunnel (prefer : ℤ) (er : TunnelRequest) (rdrs : List TunnelReader) : Choice :=
  choose er.tunnel prefer (sideAfter er.nagraQuery rdrs) (sideAfter er.betaQuery rdrs)

/-- The times of the readers with own found statistics. -/
def ownTimes (q : Key) (rdrs : List TunnelReader) : List ℤ :=
  rdrs.filterMap fun rdr => foundTime rdr.lbWeight (lookup q none rdr)

/-- The times that the loop meets, when `stat` is the pointer before it. -/
def metTimes (q : Key) : Option ReaderStat → List TunnelReader → List ℤ
  | _, [] => []
  | stat, rdr :: rdrs =>
    (foundTime rdr.lbWeight (lookup q stat rdr)).toList ++ metTimes q (lookup q stat rdr) rdrs

/-- The time compared for a caid is the least of the own times. -/
def TimeRight (q : Key) (rdrs : List TunnelReader) : Prop :=
  known (sideAfter q rdrs).time = (ownTimes q rdrs).min?

/-- The choice compares the least times of nagra and of beta. -/
def ComparesMinima (er : TunnelRequest) (rdrs : List TunnelReader) : Prop :=
  TimeRight er.nagraQuery rdrs ∧ TimeRight er.betaQuery rdrs

/-- A time that counts has an own one not above it, and an own one has one that counts not above it: a pointer
that was left over gives no smaller time, and a time that becomes zero takes no smaller one with it. -/
def TimeFits (q : Key) (rdrs : List TunnelReader) : Prop :=
  (∀ t ∈ counted (metTimes q none rdrs), ∃ o ∈ ownTimes q rdrs, o ≤ t) ∧
    ∀ o ∈ ownTimes q rdrs, ∃ t ∈ counted (metTimes q none rdrs), t ≤ o

end Defs

section Claims

variable {q : Key} {rdrs : List TunnelReader} {side : Side}

theorem time_foldl (rdrs : List TunnelReader) (side : Side) : (rdrs.foldl (Side.next q) side).time =
    (metTimes q side.stat rdrs).foldl keepLeast side.time := by
  induction rdrs generalizing side with
  | nil => rfl
  | cons rdr rdrs ih =>
    have hnext : (Side.next q side rdr).time =
        (foundTime rdr.lbWeight (lookup q side.stat rdr)).toList.foldl keepLeast side.time := by
      unfold Side.next
      dsimp only
      cases foundTime rdr.lbWeight (lookup q side.stat rdr) <;> rfl
    rw [List.foldl_cons, ih, hnext, metTimes, List.foldl_append]
    rfl

theorem timeRight_iff (q : Key) (rdrs : List TunnelReader) : TimeRight q rdrs ↔ TimeFits q rdrs := by
  unfold TimeRight sideAfter
  rw [time_foldl]
  exact (Eq.congr_left (known_foldl_keepLeast _)).trans min?_eq_min?_iff

/-- An entry of found statistics for the first service. -/
def tunnelStat (q : Key) (timeAvg : BitVec 32) : ReaderStat :=
  ⟨0, q.caid, q.prid, q.srvid, q.chid, q.ecmlen, ⟨0, 0⟩, 5, timeAvg, 0⟩

def nagraRequest : TunnelRequest := ⟨.toBeta, ⟨0x1801, 0, 1, 0, 0x80⟩, 0x1722, 0x7d⟩

/-- A reader with statistics for both caids, and one of the tenfold weight for nagra only. -/
def tunnelReaders : List TunnelReader :=
  [⟨100, fun _ => true, [tunnelStat nagraRequest.nagraQuery 100, tunnelStat nagraRequest.betaQuery 300]⟩,
    ⟨1000, fun caid => caid = 0x1801, []⟩]

end Claims

end NCam.Stat
