import NCam.Ecm.Request
import NCam.Lib.Slots
import NCam.Newcamd.Frame

/-! The requests that a proxy reader forwards: `casc_process_ecm` gives each a slot of `ecmtask` and an id,
`casc_check_dcw` answers those with the content of a slot. How the newcamd and the camd35 reader send an ECM, and how
they read an answer. -/
namespace NCam.Casc

open NCam.Ecm (E_FOUND E_NOCARD)
open NCam.Lib NCam.Lib.Memory NCam.Util
open NCam.Newcamd (Client DesKey networkMessageSend)

/-- What the cascading functions read of an `ECM_REQUEST`. `tps` is in seconds. -/
class CascRequest (ρ : Type*) where
  caid : ρ → BitVec 16
  ocaid : ρ → BitVec 16
  srvid : ρ → BitVec 16
  ecmd5 : ρ → BitVec 128
  tps : ρ → ℤ

/-- A slot of `ecmtask`. -/
structure EcmTask (ρ : Type*) where
  er : ρ
  idx : BitVec 16
  rc : ℕ

structure Config where
  maxPending : ℕ
  /-- In milliseconds. -/
  ctimeout : ℕ

structure CascClient (ρ : Type*) where
  ecmtask : ℕ → EcmTask ρ
  pending : ℤ
  idx : BitVec 16
  lastIdx : BitVec 16
  ncdMsgid : BitVec 16
  /-- For newcamd: `tcp_connected` is 2. -/
  tcpConnected : Bool

section Request

variable {ρ : Type*} [CascRequest ρ]

/-- Caid and MD5 of the ECM, by which `casc_check_dcw` tells requests apart. -/
def content (er : ρ) : BitVec 16 × BitVec 128 := (CascRequest.caid er, CascRequest.ecmd5 er)

/-- The pending request `ecm` is for the same ECM as the new request `er`. -/
def samePending (er ecm : ρ) : Bool :=
  (CascRequest.caid er = CascRequest.caid ecm || CascRequest.caid er = CascRequest.ocaid ecm) &&
    CascRequest.srvid er = CascRequest.srvid ecm && CascRequest.ecmd5 er = CascRequest.ecmd5 ecm

namespace EcmTask

def waiting (ecm : EcmTask ρ) : Bool := E_NOCARD ≤ ecm.rc

def free (ecm : EcmTask ρ) : Bool := !ecm.waiting

def timedOut (cfg : Config) (t : ℤ) (ecm : EcmTask ρ) : Bool :=
  ecm.waiting && t - CascRequest.tps ecm.er > ((cfg.ctimeout + 500) / 1000 + 1 : ℕ)

def dropTimeout (cfg : Config) (t : ℤ) (ecm : EcmTask ρ) : EcmTask ρ :=
  if ecm.timedOut cfg t then { ecm with rc := E_FOUND } else ecm

/-- A waiting request with the content `c`, which `casc_check_dcw` answers. -/
def answers (c : BitVec 16 × BitVec 128) (ecm : EcmTask ρ) : Bool := ecm.waiting && content ecm.er = c

/-- The slot after `casc_check_dcw`. -/
def checkDcw (cfg : Config) (t : ℤ) (c : BitVec 16 × BitVec 128) (ecm : EcmTask ρ) : EcmTask ρ :=
  (if ecm.answers c then { ecm with idx := 0, rc := E_FOUND } else ecm).dropTimeout cfg t

/-- What `network_tcp_connection_close` makes of a slot. -/
def reset (ecm : EcmTask ρ) : EcmTask ρ := { ecm with idx := 0, rc := E_FOUND }

end EcmTask

variable (cfg : Config) (t : ℤ)

def waitingCount (ecmtask : ℕ → EcmTask ρ) : ℕ := Slots.count EcmTask.waiting ecmtask cfg.maxPending

/-- `casc_check_dcw` for the slot `i`. The requests it answers are those with `EcmTask.answers`. -/
def cascCheckDcw (cl : CascClient ρ) (i : ℕ) : CascClient ρ :=
  let ecmtask := fun j => (cl.ecmtask j).checkDcw cfg t (content (cl.ecmtask i).er)
  { cl with ecmtask, pending := waitingCount cfg ecmtask }

/-- Whether `casc_check_dcw` for the slot `i` answers the request in the slot `j`. -/
def answered (cl : CascClient ρ) (i j : ℕ) : Bool := (cl.ecmtask j).answers (content (cl.ecmtask i).er)

def networkTcpConnectionClose (newcamd : Bool) (cl : CascClient ρ) : CascClient ρ :=
  { cl with
    ecmtask := fun j => (cl.ecmtask j).reset
    ncdMsgid := if newcamd then 0 else cl.ncdMsgid
    tcpConnected := false }

/-- The outcome of `c_send_ecm`. `sent` is what the request was sent as, `none` for -1; `closed` if the
connection was closed. -/
structure SendResult (ρ γ : Type*) where
  cl : CascClient ρ
  sent : Option γ
  closed : Bool

/-- The id of the next request, and the client after it is given out. -/
def takeIdx (newcamd : Bool) (cl : CascClient ρ) : BitVec 16 × CascClient ρ :=
  if newcamd then (if cl.ncdMsgid = 0 then 2 else cl.ncdMsgid + 1, cl)
  else
    let idx := if cl.idx = 0 then 1 else cl.idx
    (idx, { cl with idx := idx + 1 })

def wrapIdx (cl : CascClient ρ) : CascClient ρ := if cl.idx > 0x1ffe then { cl with idx := 1 } else cl

/-- The client when the slots are searched. -/
def dropTimeouts (cl : CascClient ρ) : CascClient ρ :=
  let ecmtask := fun j => (cl.ecmtask j).dropTimeout cfg t
  { cl with ecmtask, pending := waitingCount cfg ecmtask }

def freeSlot (cl : CascClient ρ) : Option ℕ := Slots.firstWhere EcmTask.free cl.ecmtask cfg.maxPending

/-- An equal request waits, so that this one is not sent (`sflag` is 0). -/
def duplicate (cl : CascClient ρ) (er : ρ) : Bool :=
  (List.range cfg.maxPending).any fun i => (cl.ecmtask i).waiting && samePending er (cl.ecmtask i).er

/-- The client with the request in the slot `n`. -/
def store (newcamd : Bool) (cl : CascClient ρ) (n : ℕ) (er : ρ) : CascClient ρ :=
  let (idx, cl) := takeIdx newcamd cl
  { cl with ecmtask := Function.update cl.ecmtask n ⟨er, idx, E_NOCARD⟩ }

/-- The outcome of `casc_process_ecm`: the slot of the request, what it was sent as, and the slots that were
answered as not found. -/
structure Forwarded (ρ γ : Type*) where
  cl : CascClient ρ
  slot : Option ℕ
  sent : Option γ
  answered : ℕ → Bool
  closed : Bool

variable {γ : Type*}

/-- `casc_process_ecm` behind the call of `c_send_ecm` for the slot `n`. -/
def finish (n : ℕ) (r : SendResult ρ γ) : Forwarded ρ γ :=
  match r.sent with
  | some m => ⟨wrapIdx { r.cl with lastIdx := (r.cl.ecmtask n).idx }, some n, some m, fun _ => false, r.closed⟩
  | none => ⟨wrapIdx (cascCheckDcw cfg t r.cl n), some n, none, answered r.cl n, r.closed⟩

/-- `casc_process_ecm`; the result is `none` if `send` faults. -/
def cascProcessEcm (newcamd : Bool) (send : CascClient ρ → ℕ → Option (SendResult ρ γ))
    (cl : CascClient ρ) (er : ρ) : Option (Forwarded ρ γ) :=
  let cl := dropTimeouts cfg t cl
  match freeSlot cfg cl with
  | none => some ⟨cl, none, none, fun _ => false, false⟩
  | some n =>
    if duplicate cfg cl er then
      some ⟨wrapIdx (store newcamd cl n er), some n, none, fun _ => false, false⟩
    else (send (store newcamd cl n er) n).map (finish cfg t n)

/-- The first slot with the id of an answer; 0 stands for the last id that was sent. -/
def slotOf (cl : CascClient ρ) (idx : BitVec 16) : Option ℕ :=
  Slots.firstWhere (fun ecm => ecm.idx = if idx = 0 then cl.lastIdx else idx) cl.ecmtask cfg.maxPending

end Request

section Tables

variable {ρ γ : Type*} [CascRequest ρ] {cfg : Config} {t : ℤ} {a b c : EcmTask ρ} {cl : CascClient ρ}

/-- The slot keeps its request; it may lose its id and stop waiting. -/
structure Shrinks (a b : EcmTask ρ) : Prop where
  er : b.er = a.er
  idx : b.idx = a.idx ∨ b.idx = 0
  waiting : b.waiting = true → a.waiting = true

theorem Shrinks.refl : Shrinks a a := ⟨rfl, .inl rfl, id⟩

theorem Shrinks.trans (hab : Shrinks a b) (hbc : Shrinks b c) : Shrinks a c := by
  refine ⟨hbc.er.trans hab.er, ?_, fun h => hab.waiting (hbc.waiting h)⟩
  rcases hbc.idx with h | h
  · rw [h]
    exact hab.idx
  · exact .inr h

theorem dropTimeout_shrinks : Shrinks a (a.dropTimeout cfg t) := by
  unfold EcmTask.dropTimeout
  split_ifs with h
  · exact ⟨rfl, .inl rfl, fun h => absurd h Bool.false_ne_true⟩
  · exact .refl

theorem reset_shrinks : Shrinks a a.reset := ⟨rfl, .inr rfl, fun h => absurd h Bool.false_ne_true⟩

theorem checkDcw_shrinks {k : BitVec 16 × BitVec 128} : Shrinks a (a.checkDcw cfg t k) := by
  unfold EcmTask.checkDcw
  split_ifs with h
  · exact reset_shrinks.trans dropTimeout_shrinks
  · exact dropTimeout_shrinks

/-- A request that `casc_check_dcw` answers waits no longer. -/
theorem checkDcw_of_answers {k : BitVec 16 × BitVec 128} (h : a.answers k = true) :
    a.checkDcw cfg t k = a.reset := by
  unfold EcmTask.checkDcw
  rw [if_pos h]
  exact if_neg Bool.false_ne_true

theorem waiting_reset : a.reset.waiting = false := rfl

theorem waiting_dropTimeout : (a.dropTimeout cfg t).waiting = (a.waiting && !a.timedOut cfg t) := by
  unfold EcmTask.dropTimeout
  split_ifs with h
  · rw [h, Bool.not_true, Bool.and_false]
    rfl
  · rw [Bool.not_eq_true] at h
    rw [h, Bool.not_false, Bool.and_true]

/-- The outcomes of `casc_process_ecm`: no slot is free, the request is a duplicate, or it is sent. -/
theorem cascProcessEcm_cases {newcamd : Bool} {send : CascClient ρ → ℕ → Option (SendResult ρ γ)} {er : ρ}
    {f : Forwarded ρ γ} (h : cascProcessEcm cfg t newcamd send cl er = some f) :
    (freeSlot cfg (dropTimeouts cfg t cl) = none ∧
      f = ⟨dropTimeouts cfg t cl, none, none, fun _ => false, false⟩) ∨
    ∃ n, freeSlot cfg (dropTimeouts cfg t cl) = some n ∧
      ((duplicate cfg (dropTimeouts cfg t cl) er = true ∧
        f = ⟨wrapIdx (store newcamd (dropTimeouts cfg t cl) n er), some n, none, fun _ => false, false⟩) ∨
      (duplicate cfg (dropTimeouts cfg t cl) er = false ∧
        ∃ r, send (store newcamd (dropTimeouts cfg t cl) n er) n = some r ∧ finish cfg t n r = f)) := by
  unfold cascProcessEcm at h
  dsimp only at h
  generalize hslot : freeSlot cfg (dropTimeouts cfg t cl) = slot at h
  cases slot with
  | none => exact .inl ⟨rfl, (Option.some.inj h).symm⟩
  | some n =>
    refine .inr ⟨n, rfl, ?_⟩
    dsimp only at h
    split_ifs at h with hdup
    · exact .inl ⟨hdup, (Option.some.inj h).symm⟩
    · obtain ⟨r, hr, hf⟩ := Option.map_eq_some_iff.mp h
      exact .inr ⟨eq_false_of_ne_true hdup, r, hr, hf⟩

@[simp] theorem wrapIdx_ecmtask : (wrapIdx cl).ecmtask = cl.ecmtask := by
  unfold wrapIdx
  split_ifs <;> rfl

@[simp] theorem wrapIdx_pending : (wrapIdx cl).pending = cl.pending := by
  unfold wrapIdx
  split_ifs <;> rfl

@[simp] theorem store_ecmtask {newcamd : Bool} {n : ℕ} {er : ρ} :
    (store newcamd cl n er).ecmtask = Function.update cl.ecmtask n ⟨er, (takeIdx newcamd cl).1, E_NOCARD⟩ := by
  unfold store takeIdx
  split_ifs <;> rfl

@[simp] theorem store_pending {newcamd : Bool} {n : ℕ} {er : ρ} :
    (store newcamd cl n er).pending = cl.pending := by
  unfold store takeIdx
  split_ifs <;> rfl

theorem freeSlot_some {n : ℕ} (h : freeSlot cfg cl = some n) :
    n < cfg.maxPending ∧ (cl.ecmtask n).waiting = false ∧ ∀ j < n, (cl.ecmtask j).waiting = true := by
  obtain ⟨hn, hfree, hbefore⟩ := Slots.firstWhere_eq_some h
  refine ⟨hn, (Bool.not_eq_true' _).mp hfree, fun j hj => ?_⟩
  exact (Bool.not_eq_false' _).mp (hbefore j hj)

end Tables

/-- A forwarded request. -/
structure Request where
  caid : BitVec 16
  ocaid : BitVec 16
  srvid : BitVec 16
  prid : BitVec 32
  ecm : ℕ → Byte
  ecmlen : ℕ
  ecmd5 : BitVec 128
  tps : ℤ

instance : CascRequest Request := ⟨Request.caid, Request.ocaid, Request.srvid, Request.ecmd5, Request.tps⟩

/-- An answer for the request with the id `idx`. The ECM was not found if `rc` is 0, it is invalid if `rc` is
2, and else `dcw` is the control word. -/
structure Answer where
  idx : BitVec 16
  rc : ℕ
  dcw : List Byte

section Newcamd

/-- What an attempt of `connect_newcamd_server` comes to; the version is asked for if the server filters are
disabled. -/
inductive NcdConnect
  | noHandle
  | closed
  | connected (getVersion : Bool)

/-- The surroundings of a message to the server. `accepted` is whether `send` takes the frame. -/
structure NcdLink where
  connect : NcdConnect
  passesRsfilter : Bool
  rand : ℕ → BitVec 32
  netbuf : ℕ → Byte
  ncdMgclient : Bool
  client : Client
  skey : Option DesKey
  accepted : List Byte → Bool

/-- `newcamd_connect`: a new connection begins with the id 0 and requests the card data. -/
def newcamdConnect (connect : NcdConnect) (cl : CascClient Request) : SendResult Request Unit :=
  if cl.tcpConnected then ⟨cl, some (), false⟩
  else match connect with
    | .noHandle => ⟨cl, none, false⟩
    | .closed => ⟨networkTcpConnectionClose true cl, none, true⟩
    | .connected getVersion =>
      ⟨{ cl with ncdMsgid := if getVersion then 2 else 1, tcpConnected := true }, some (), false⟩

/-- `newcamd_send` over a connection. -/
def newcamdSend (link : NcdLink) (cl : CascClient Request) (buf : ℕ → Byte) (ml : ℕ) (sid : BitVec 16) :
    Option (SendResult Request (BitVec 16)) :=
  (networkMessageSend link.rand link.ncdMgclient link.netbuf link.client true link.skey
    ⟨some cl.ncdMsgid, buf, ml, .COMMTYPE_CLIENT, sid, none⟩).map fun s =>
      ⟨{ cl with ncdMsgid := s.netMsgId.getD cl.ncdMsgid },
        s.wire.bind fun wire => if link.accepted wire then s.netMsgId else none, false⟩

def newcamdSendEcm (link : NcdLink) (cl : CascClient Request) (n : ℕ) :
    Option (SendResult Request (BitVec 16)) :=
  let r := newcamdConnect link.connect cl
  let er := (cl.ecmtask n).er
  if r.sent.isNone || !link.passesRsfilter then some ⟨r.cl, none, r.closed⟩
  else newcamdSend link r.cl er.ecm er.ecmlen er.srvid

/-- What the newcamd reader does besides: it connects while idle, and sends EMMs. -/
inductive NcdOther
  | idle (connect : NcdConnect)
  | emm (link : NcdLink) (buf : ℕ → Byte) (emmlen : ℕ)

def newcamdOther (cl : CascClient Request) : NcdOther → Option (SendResult Request (BitVec 16))
  | .idle connect =>
    let r := newcamdConnect connect cl
    some ⟨r.cl, none, r.closed⟩
  | .emm link buf emmlen =>
    let r := newcamdConnect link.connect cl
    if r.sent.isNone then some ⟨r.cl, none, r.closed⟩ else newcamdSend link r.cl buf emmlen 0

/-- `newcamd_recv_chk` of a message of `n` bytes behind the header. -/
def newcamdRecvChk (buf : ℕ → Byte) (n : ℕ) : Option Answer :=
  if n < 5 ∨ ¬ (buf 2 = 0x80 ∨ buf 2 = 0x81) then none
  else
    let idx := (b2i 2 buf 0).setWidth 16
    if n = 5 then some ⟨idx, 0, List.replicate 16 0⟩
    else if n < 21 then none
    else some ⟨idx, 1, slice buf 5 16⟩

end Newcamd

section Camd35

/-- What `camd35_send_ecm` comes to. -/
inductive C35Link
  | refused
  | closed
  | written

def camd35Send (cl : CascClient Request) (sent : BitVec 16) : C35Link → SendResult Request (BitVec 16)
  | .refused => ⟨cl, none, false⟩
  | .closed => ⟨networkTcpConnectionClose false cl, none, true⟩
  | .written => ⟨cl, some sent, false⟩

/-- The id of the slot is written at 16. -/
def camd35SendEcm (link : C35Link) (cl : CascClient Request) (n : ℕ) : SendResult Request (BitVec 16) :=
  camd35Send cl (cl.ecmtask n).idx link

/-- The configuration that `camd35_recv_chk` reads: CMD08 is not suppressed, the load balancer is on. -/
structure C35Config where
  cmd08 : Bool
  lbMode : Bool

/-- `camd35_recv_chk`; `cacheex` is the result of `camd35_cacheex_recv_chk`. -/
def camd35RecvChk (cfg : C35Config) (cacheex : Bool) (buf : ℕ → Byte) : Option Answer :=
  let rcInvalid := buf 0 = 0x08 && cfg.cmd08 && buf 21 ≠ 0xFF && cfg.lbMode
  if cacheex || buf 0 = 55 || buf 0 = 0x50 then none
  else if buf 0 ≠ 1 && buf 0 ≠ 0x44 && buf 0 ≠ 0x08 && buf 0 ≠ 0x51 then none
  else
    let rc := if buf 0 ≠ 0x44 ∧ buf 0 ≠ 0x08 then 1 else 0
    let rc := if rcInvalid then 2 else rc
    let rc := if buf 0 = 0x51 ∨ buf 0 = 0x54 then 0x86 else rc
    some ⟨(b2i 2 buf 16).setWidth 16, rc, slice buf 20 16⟩

end Camd35

/-- What `c_send_ecm` may do to the table: nothing, or it closes the connection and sends nothing. -/
def Keeps (cl : CascClient Request) (r : SendResult Request (BitVec 16)) : Prop :=
  r.cl.pending = cl.pending ∧
    (r.closed = false ∧ r.cl.ecmtask = cl.ecmtask ∨
      r.closed = true ∧ r.sent = none ∧ r.cl.ecmtask = fun j => (cl.ecmtask j).reset)

/-- A kind of proxy reader. -/
structure Proxy where
  newcamd : Bool
  Link : Type
  sendEcm : Link → CascClient Request → ℕ → Option (SendResult Request (BitVec 16))
  sendEcm_keeps : ∀ link cl n r, sendEcm link cl n = some r → Keeps cl r
  Other : Type
  other : CascClient Request → Other → Option (SendResult Request (BitVec 16))
  other_keeps : ∀ cl o r, other cl o = some r → Keeps cl r
  Packet : Type
  recvChk : Packet → Option Answer

theorem newcamdConnect_keeps (connect : NcdConnect) (cl : CascClient Request) {sent : Option (BitVec 16)}
    (hsent : (newcamdConnect connect cl).closed = true → sent = none) :
    Keeps cl ⟨(newcamdConnect connect cl).cl, sent, (newcamdConnect connect cl).closed⟩ := by
  unfold newcamdConnect at hsent ⊢
  split_ifs at hsent ⊢ with hconn
  · exact ⟨rfl, .inl ⟨rfl, rfl⟩⟩
  · cases connect with
    | noHandle => exact ⟨rfl, .inl ⟨rfl, rfl⟩⟩
    | closed => exact ⟨rfl, .inr ⟨rfl, hsent rfl, rfl⟩⟩
    | connected getVersion => exact ⟨rfl, .inl ⟨rfl, rfl⟩⟩

theorem newcamdConnect_open {connect : NcdConnect} {cl : CascClient Request}
    (h : (newcamdConnect connect cl).sent.isNone = false) : (newcamdConnect connect cl).closed = false := by
  unfold newcamdConnect at h ⊢
  split_ifs at h ⊢ with hconn
  · rfl
  · cases connect with
    | noHandle => exact absurd h Bool.noConfusion
    | closed => exact absurd h Bool.noConfusion
    | connected getVersion => rfl

/-- What is sent over a connection keeps the table as the connecting left it. -/
theorem newcamdSend_keeps {link : NcdLink} {cl : CascClient Request} {buf : ℕ → Byte} {ml : ℕ}
    {sid : BitVec 16} {r : SendResult Request (BitVec 16)}
    (hopen : (newcamdConnect link.connect cl).sent.isNone = false)
    (h : newcamdSend link (newcamdConnect link.connect cl).cl buf ml sid = some r) : Keeps cl r := by
  obtain ⟨s, -, rfl⟩ := Option.map_eq_some_iff.mp h
  have hclosed := newcamdConnect_open hopen
  obtain ⟨hpending, ⟨-, htask⟩ | ⟨hc, -⟩⟩ := @newcamdConnect_keeps link.connect cl none fun _ => rfl
  · exact ⟨hpending, .inl ⟨rfl, htask⟩⟩
  · exact absurd (hclosed.symm.trans hc) Bool.noConfusion

def newcamd : Proxy where
  newcamd := true
  Link := NcdLink
  sendEcm := newcamdSendEcm
  sendEcm_keeps := by
    intro link cl n r h
    unfold newcamdSendEcm at h
    dsimp only at h
    split_ifs at h with hno
    · obtain rfl := Option.some.inj h
      exact newcamdConnect_keeps _ _ fun _ => rfl
    · rw [Bool.not_eq_true, Bool.or_eq_false_iff] at hno
      exact newcamdSend_keeps hno.1 h
  Other := NcdOther
  other := newcamdOther
  other_keeps := by
    intro cl o r h
    cases o with
    | idle connect =>
      obtain rfl := Option.some.inj h
      exact newcamdConnect_keeps _ _ fun _ => rfl
    | emm link buf emmlen =>
      unfold newcamdOther at h
      dsimp only at h
      split_ifs at h with hno
      · obtain rfl := Option.some.inj h
        exact newcamdConnect_keeps _ _ fun _ => rfl
      · exact newcamdSend_keeps (eq_false_of_ne_true hno) h
  Packet := (ℕ → Byte) × ℕ
  recvChk p := newcamdRecvChk p.1 p.2

theorem camd35Send_keeps (cl : CascClient Request) (sent : BitVec 16) (link : C35Link) :
    Keeps cl (camd35Send cl sent link) := by
  cases link with
  | refused => exact ⟨rfl, .inl ⟨rfl, rfl⟩⟩
  | closed => exact ⟨rfl, .inr ⟨rfl, rfl, rfl⟩⟩
  | written => exact ⟨rfl, .inl ⟨rfl, rfl⟩⟩

/-- Its other messages, EMMs and keepalives, have no id. -/
def camd35 (cfg : C35Config) : Proxy where
  newcamd := false
  Link := C35Link
  sendEcm link cl n := some (camd35SendEcm link cl n)
  sendEcm_keeps := by
    intro link cl n r h
    obtain rfl := Option.some.inj h
    exact camd35Send_keeps cl _ link
  Other := C35Link
  other cl link := some (camd35Send cl 0 link)
  other_keeps := by
    intro cl link r h
    obtain rfl := Option.some.inj h
    exact camd35Send_keeps cl 0 link
  Packet := Bool × (ℕ → Byte)
  recvChk p := camd35RecvChk cfg p.1 p.2

end NCam.Casc
