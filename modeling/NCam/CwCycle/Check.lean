import NCam.Ecm.Request
import NCam.Lib.Transition
import Mathlib.Algebra.Order.Ring.Int

/-! The control word cycle check: `checkcwcycle_int` and `cleanupcwcycle` of
`module-cw-cycle-check.c`. -/
namespace NCam.CwCycle

open NCam.Ecm NCam.Lib

abbrev Cw := Vector Byte 16

/-- `s_cwc_md5`. -/
structure CwcMd5 where
  md5 : Vector Byte 16
  cspHash : BitVec 32
  cw : Cw

/-- `s_cw_cycle_check`. -/
structure CwCycleCheck where
  cw : Cw
  time : ℤ
  locktime : ℤ
  caid : Caid
  sid : BitVec 16
  chid : BitVec 16
  provid : BitVec 32
  ecmlen : ℤ
  stage : ℤ
  cycletime : ℤ
  dyncycletime : ℤ
  nextcyclecw : ℤ
  ecmMd5 : Vector CwcMd5 15
  cwcHistEntry : ℤ
  old : Bool
  stage4Repeat : ℤ

/-- The fields of `ECM_REQUEST` that the check reads and sets. -/
structure CheckedRequest where
  caid : Caid
  prid : BitVec 32
  srvid : BitVec 16
  chid : BitVec 16
  ecmlen : ℤ
  tps : ℤ
  ecmd5 : Vector Byte 16
  cspHash : BitVec 32
  cw : Cw
  rc : ℕ
  cwcCycletime : Byte
  cwcNextCwCycle : Byte

/-- The configuration, `get_fallbacktimeout`, and the value of `memcmp`, of which C fixes the sign only. -/
structure Setting where
  maxcyclelist : ℤ
  cwcycleUsecwcfromce : Bool
  cwcycleDropold : Bool
  cwcycleSensitive : ℤ
  cwcycleAllowbadfromffb : Bool
  keepcycletime : ℤ
  fallbacktimeout : Caid → ℕ
  memcmp : List Byte → List Byte → ℤ

/-- The arguments of `checkcwcycle_int`. `posFallback` is the answer of `chk_is_pos_fallback`, `alloc`
that of `cs_malloc`. -/
structure Call where
  er : CheckedRequest
  cw : Cw
  cycletimeFr : Byte
  nextCwCycleFr : Byte
  posFallback : Bool
  alloc : Bool

structure State where
  cwCcList : List CwCycleCheck
  cwCcListSize : ℤ
  lastCwcyclecleaning : ℤ

/-- The locals of `checkcwcycle_int` once it has its copy of a node, with the request it may change. -/
structure Work where
  cwc : CwCycleCheck
  ret : ℕ
  updEntry : Bool
  er : CheckedRequest

def int8 (z : ℤ) : ℤ := z.bmod (2 ^ 8)
def int16 (z : ℤ) : ℤ := z.bmod (2 ^ 16)
def int32 (z : ℤ) : ℤ := z.bmod (2 ^ 32)

def caidIsBiss (caid : Caid) : Bool := caid >>> 8 = 0x26
def caidIsVideoguard (caid : Caid) : Bool := caid >>> 8 = 0x09

/-- The eight bytes from `eo` on. -/
def part (eo : ℕ) (cw : Cw) : List Byte := (cw.toList.drop eo).take 8

def checkCWpart (cw : Cw) (i : ℕ) : Bool := (part (if i = 0 then 0 else 8) cw).any (· ≠ 0)

def chkIsNullCW (cw : Cw) : Bool := cw.toList.all (· = 0)

def checkECMD5CW (ecmd5Cw : Vector Byte 16) : Bool := ecmd5Cw.toList.any (· ≠ 0)

/-- `checkvalidCW`, with the `rc` it leaves. -/
def checkvalidCW (er : CheckedRequest) : Bool × CheckedRequest :=
  let er := if chkIsNullCW er.cw && !caidIsBiss er.caid then { er with rc := E_NOTFOUND } else er
  if er.rc = E_NOTFOUND then (false, er)
  else if checkCWpart er.cw 0 && checkCWpart er.cw 1 then (true, er)
  else (!caidIsVideoguard er.caid, er)

def countCWpart (er : CheckedRequest) (cwc : CwCycleCheck) : ℤ :=
  let eo := if cwc.nextcyclecw ≠ 0 then 0 else 8
  (((part eo cwc.cw).zip (part eo er.cw)).countP fun bytes => bytes.1 = bytes.2 : ℕ)

section Judging

variable (cfg : Setting) (call : Call) (now : ℤ)

/-- The node is for the service of the request. -/
def sameService (er : CheckedRequest) (node : CwCycleCheck) : Bool :=
  node.caid = er.caid && node.provid = er.prid && node.sid = er.srvid && node.chid = er.chid &&
    !(er.ecmlen ≠ 0 && node.ecmlen ≠ 0 && node.ecmlen ≠ er.ecmlen)

/-- The cycle time comes with the control word. -/
def useCeInfo : Bool := cfg.cwcycleUsecwcfromce && call.cycletimeFr > 0 && call.nextCwCycleFr < 2

/-- The result for a control word that is stored already. -/
def sameCwRet (cwc : CwCycleCheck) : ℕ :=
  if now - cwc.time ≥ cwc.cycletime - cwc.dyncycletime then
    if cfg.cwcycleDropold then 2 else 4
  else 4

def fromCe (w : Work) : Work :=
  let cwc := { w.cwc with
    stage := 3
    cycletime := call.cycletimeFr.toNat
    nextcyclecw := call.nextCwCycleFr.toNat }
  if cwc.cw = call.cw then { w with cwc := cwc, ret := sameCwRet cfg now cwc, updEntry := false }
  else { w with cwc := cwc, ret := 8 }

/-- The node is learned and young enough to check the cycle. -/
def inWindow (cwc : CwCycleCheck) : Prop :=
  cwc.stage = 3 ∧ cwc.nextcyclecw < 2 ∧ now - cwc.time < cwc.cycletime * 2 - cwc.dyncycletime - 1

instance (cwc : CwCycleCheck) : Decidable (inWindow now cwc) := inferInstanceAs (Decidable (_ ∧ _))

def cycleok (w : Work) : ℤ :=
  let ok :=
    if w.cwc.nextcyclecw = 0 then if part 0 w.cwc.cw = part 0 call.cw then 0 else -1
    else if w.cwc.nextcyclecw = 1 then if part 8 w.cwc.cw = part 8 call.cw then 1 else -1
    else -1
  if ok ≥ 0 ∧ cfg.cwcycleSensitive ≠ 0 ∧ countCWpart w.er w.cwc ≥ cfg.cwcycleSensitive then -2 else ok

/-- The cycle is as expected; `next` is the part that must cycle next. -/
def validCycle (next : ℕ) (w : Work) : Work :=
  let shared := w.cwc.cycletime < 128 ∧ ¬ (w.cwc.caid = 0x0100 ∧ w.cwc.provid = 0x00006A)
  { w with
    cwc := { w.cwc with nextcyclecw := next }
    ret := 0
    er := { w.er with
      cwcNextCwCycle := .ofNat 8 next
      cwcCycletime := if shared then .ofInt 8 w.cwc.cycletime else w.er.cwcCycletime } }

def sameEcm (er : CheckedRequest) (entry : CwcMd5) : Bool :=
  (checkECMD5CW er.ecmd5 && checkECMD5CW entry.md5 && er.ecmd5 = entry.md5) ||
    (er.cspHash ≠ 0 && entry.cspHash ≠ 0 && er.cspHash = entry.cspHash)

/-- The cycle is not as expected: the answer to an old ECM, or a bad one. -/
def badCycle (w : Work) : Work :=
  match w.cwc.ecmMd5.toList.find? (sameEcm w.er) with
  | some entry =>
    { w with ret := if !cfg.cwcycleDropold && entry.cw = call.cw then 4 else 2, updEntry := false }
  | none =>
    if cfg.cwcycleAllowbadfromffb && call.posFallback then
      { w with ret := 5, cwc := { w.cwc with stage := 4, nextcyclecw := 2 } }
    else { w with ret := 1, updEntry := false }

/-- A learned node that is too old goes back to stage 2 or on to stage 4. -/
def leaveStage3 (w : Work) : Work :=
  if w.cwc.stage = 3 then
    let keep := cfg.keepcycletime > 0 ∧ now - w.cwc.time < cfg.keepcycletime * 60
    { w with
      cwc := { w.cwc with
        stage := if keep then w.cwc.stage + 1 else w.cwc.stage - 1
        cw := .replicate 16 0
        nextcyclecw := 2 }
      ret := 3 }
  else w

/-- `nextcyclecw` from the part that stayed. -/
def learnedNext (cwc : CwCycleCheck) : ℤ :=
  let n := int8 (cfg.memcmp (part 0 cwc.cw) (part 0 call.cw))
  let m := int8 (cfg.memcmp (part 8 cwc.cw) (part 8 call.cw))
  let next := if n = 0 then 1 else cwc.nextcyclecw
  let next := if m = 0 then 0 else next
  if n = m ∨ !checkECMD5CW call.cw then 2 else next

/-- The stages up to 2 of the learning. -/
def learnStages (cwc : CwCycleCheck) : CwCycleCheck :=
  let diff := int16 (now - cwc.time - cwc.cycletime)
  let stable := diff > -2 ∧ diff < 2
  if cwc.stage ≤ 0 then
    if stable then { cwc with cycletime := int32 (now - cwc.time), stage := cwc.stage + 1 } else cwc
  else if cwc.stage = 1 then
    if stable then { cwc with cycletime := int32 (now - cwc.time), stage := cwc.stage + 1 }
    else { cwc with stage := cwc.stage - 1 }
  else if cwc.stage = 2 then
    if stable ∧ cwc.cycletime > 0 then
      let next := learnedNext cfg call cwc
      { cwc with
        cycletime := int32 (now - cwc.time)
        nextcyclecw := next
        stage := if next < 2 then 3 else 1 }
    else { cwc with stage := 1 }
  else cwc

/-- Stage 4: the cycle time is known, only the part that cycles is learned. -/
def learnStage4 (cwc : CwCycleCheck) : CwCycleCheck :=
  let next := learnedNext cfg call cwc
  { cwc with
    nextcyclecw := next
    stage := if next < 2 then 3 else if cwc.stage4Repeat > 12 then 1 else cwc.stage
    stage4Repeat := int8 (cwc.stage4Repeat + 1) }

/-- The times after a learning step. -/
def setLocktime (cwc : CwCycleCheck) : CwCycleCheck :=
  if cwc.stage = 3 then { cwc with locktime := 0, stage4Repeat := 0 }
  else { cwc with
    cycletime := if cwc.stage < 3 then int32 (now - cwc.time) else cwc.cycletime
    locktime := now + (cfg.fallbacktimeout cwc.caid / 1000 : ℕ) }

def setDyncycletime (cwc : CwCycleCheck) : CwCycleCheck :=
  if cwc.stage = 3 then
    { cwc with dyncycletime :=
        if now - cwc.time > cwc.cycletime then int32 (now - cwc.time - cwc.cycletime) else 0 }
  else cwc

/-- The learning stages. -/
def learning (w : Work) : Work :=
  let w :=
    if now > w.cwc.locktime then
      if w.cwc.stage = 4 then
        { w with
          cwc := setLocktime cfg now (learnStage4 cfg call w.cwc)
          ret := if w.ret = 3 then 3 else 7 }
      else { w with cwc := setLocktime cfg now (learnStages cfg call now w.cwc) }
    else if w.cwc.stage ≠ 3 then { w with updEntry := false }
    else w
  { w with cwc := setDyncycletime now w.cwc }

/-- What the loop does with its copy of the node. -/
def judge (w : Work) : Work :=
  if useCeInfo cfg call then fromCe cfg call now w
  else if inWindow now w.cwc then
    if w.cwc.cw = call.cw then { w with ret := sameCwRet cfg now w.cwc, updEntry := false }
    else if cycleok cfg call w = 0 then learning cfg call now (validCycle 1 w)
    else if cycleok cfg call w = 1 then learning cfg call now (validCycle 0 w)
    else badCycle cfg call w
  else learning cfg call now (leaveStage3 cfg now w)

/-- The copy as it is stored on top of the list. -/
def updated (er : CheckedRequest) (cwc : CwCycleCheck) : CwCycleCheck :=
  let hist := int8 (cwc.cwcHistEntry + 1)
  let hist := if hist > 14 then 0 else hist
  { cwc with
    old := false
    cw := call.cw
    time := now
    cwcHistEntry := hist
    ecmMd5 := cwc.ecmMd5.setIfInBounds hist.toNat ⟨er.ecmd5, er.cspHash, call.cw⟩
    ecmlen := er.ecmlen }

def newEntry : CwCycleCheck where
  cw := call.cw
  time := now
  locktime := now + (cfg.fallbacktimeout call.er.caid / 1000 : ℕ)
  caid := call.er.caid
  sid := call.er.srvid
  chid := call.er.chid
  provid := call.er.prid
  ecmlen := call.er.ecmlen
  stage := if useCeInfo cfg call then 3 else 0
  cycletime := if useCeInfo cfg call then call.cycletimeFr.toNat else 99
  dyncycletime := 0
  nextcyclecw := if useCeInfo cfg call then call.nextCwCycleFr.toNat else 2
  ecmMd5 := (Vector.replicate 15 ⟨.replicate 16 0, 0, .replicate 16 0⟩).set 0
    ⟨call.er.ecmd5, call.er.cspHash, call.cw⟩
  cwcHistEntry := 0
  old := false
  stage4Repeat := 0

end Judging

/-- The first node for the service of the request, and the list with this node marked old. -/
def lookup (er : CheckedRequest) : List CwCycleCheck → Option (CwCycleCheck × List CwCycleCheck)
  | [] => none
  | node :: rest =>
    if sameService er node then some (node, { node with old := true } :: rest)
    else (lookup er rest).map fun (found, rest) => (found, node :: rest)

/-- `checkcwcycle_int`: its result, the request and the list afterwards. -/
def checkcwcycleInt (cfg : Setting) (call : Call) (s : State) : ℕ × CheckedRequest × State :=
  let now := call.er.tps
  let (valid, er) := checkvalidCW call.er
  if !valid then (3, er, s)
  else match lookup er s.cwCcList with
    | some (node, list) =>
      if !call.alloc then (6, er, s)
      else
        let size := if node.old then s.cwCcListSize else s.cwCcListSize - 1
        let w := judge cfg call now ⟨node, 6, true, er⟩
        if w.updEntry then
          (w.ret, w.er, { s with
            cwCcList := updated call now w.er w.cwc :: list
            cwCcListSize := size + 1 })
        else (w.ret, w.er, { s with cwCcList := list, cwCcListSize := size })
    | none =>
      if s.cwCcListSize ≤ cfg.maxcyclelist ∧ call.alloc then
        (if call.cycletimeFr > 0 ∧ call.nextCwCycleFr < 2 then 8 else 6, er, { s with
          cwCcList := newEntry cfg { call with er := er } now :: s.cwCcList
          cwCcListSize := s.cwCcListSize + 1 })
      else (6, er, s)

/-- `cleanupcwcycle` at the time `now`. -/
def cleanupcwcycle (keepcycletime now : ℤ) (s : State) : State :=
  if s.lastCwcyclecleaning + 120 > now then s
  else
    let kct := keepcycletime * 60 + 30
    let young (node : CwCycleCheck) : Bool := now - node.time ≤ kct
    { cwCcList := s.cwCcList.takeWhile young
      cwCcListSize := s.cwCcListSize - ((s.cwCcList.dropWhile young).countP (!·.old) : ℕ)
      lastCwcyclecleaning := now }

inductive Action
  | check (cfg : Setting) (call : Call)
  | cleanup (keepcycletime now : ℤ)

def next (s : State) : Action → State
  | .check cfg call => (checkcwcycleInt cfg call s).2.2
  | .cleanup keepcycletime now => cleanupcwcycle keepcycletime now s

def system : System State Action where
  init s := s.cwCcList = [] ∧ s.cwCcListSize = 0 ∧ s.lastCwcyclecleaning = 0
  next s a := some (next s a)

end NCam.CwCycle
