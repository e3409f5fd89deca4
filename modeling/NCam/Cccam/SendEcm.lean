import NCam.Cccam.MatchingCard
import Mathlib.Data.Finset.Card

/-! `cc_send_ecm`: the loop of the CCcam reader over the requests that wait in `ecmtask`, and the order in which it takes
them, which does not depend on the cards. -/
namespace NCam.Cccam.SendEcm

open NCam.Util

def E_NOTFOUND : ℕ := 4
def E_TIMEOUT : ℕ := 5
def E_NOCARD : ℕ := 10
def E_STOPPED : ℕ := 13
def E_UNHANDLED : ℕ := 100
def E_ALREADY_SENT : ℕ := 101
def E_WAITING : ℕ := 102
def MSG_CARD_REMOVED : ℕ := 4
def MSG_NEW_CARD : ℕ := 7
def MSG_NEW_CARD_SIDINFO : ℕ := 0x0f
def DEFAULT_CC_RECONNECT : ℤ := 8000

/-- `cc_extended_ecm_idx`. -/
structure ExtendedEcmIdx where
  sendIdx : ℕ
  ecmIdx : ℕ
  cccamId : BitVec 32
  srvid : CcSrvid
  tps : ℤ

/-- The fields of `cc_data` that the functions use. -/
structure CcData where
  cards : List Card
  extendedMode : Bool
  sleepsend : Bool
  lastMsg : ℕ
  justLoggedIn : Bool
  peerNodeId : NodeId
  ecmBusy : Bool
  ecmTime : ℤ
  serverEcmIdx : ℕ
  gFlag : Byte
  extendedEcmIdx : List ExtendedEcmIdx

/-- `stopped` and the last request of the reader's client. -/
structure LastEcm where
  stopped : Bool
  lastsrvid : BitVec 16
  lastcaid : BitVec 16
  lastpid : BitVec 16

structure Client where
  ecmtask : List EcmTask
  last : LastEcm
  pending : ℕ

structure State where
  tcpConnected : ℕ
  pfd : ℤ
  initialized : Bool
  ccReconnect : ℤ
  cc : CcData
  cl : Client

/-- `write_ecm_answer` on an entry of `ecmtask`. -/
def writeEcmAnswer (env : Env) (time : ℤ) (er : EcmTask) (rc : ℕ) : EcmTask :=
  let timeout := time / 1000 - ((env.ctimeout + 500) / 1000 + 1)
  if er.tps / 1000 = 0 ∨ er.tps / 1000 < timeout then er else { er with rc, idx := 0 }

/-- Still active and waiting. -/
def EcmTask.waiting (er : EcmTask) : Bool := E_NOCARD ≤ er.rc && er.rc ≤ E_UNHANDLED

/-- `loop_check`. -/
def loopCheck (myid : NodeId) (client : Option NodeId) : Bool := client = some myid

/-- The check for a request that is already pending. It compares the addresses of the arrays `ecmd5` of the two
entries, and not what they hold. -/
def alreadyPending (ecmtask : List EcmTask) (i : ℕ) (er : EcmTask) : Bool :=
  (List.range ecmtask.length).any fun j => ecmtask[j]?.any fun erx =>
    i ≠ j && erx.rc = E_ALREADY_SENT && er.caid = erx.caid && i = j

/-- The variables of `cc_get_nxt_ecm`; `next` has `n` and `ern`. -/
structure Scan where
  ecmtask : List EcmTask
  next : Option (ℕ × EcmTask)
  pending : ℕ

def scanStep (env : Env) (time : ℤ) (peerNodeId : NodeId) (extendedMode : Bool) (s : Scan) (i : ℕ) : Scan :=
  match s.ecmtask[i]? with
  | none => s
  | some er =>
    if time - er.tps ≥ env.ctimeout + 500 ∧ er.rc ≥ E_NOCARD then
      { s with ecmtask := s.ecmtask.set i (writeEcmAnswer env time er E_TIMEOUT) }
    else if er.waiting then
      if loopCheck peerNodeId er.client then
        { s with
          ecmtask := s.ecmtask.set i (writeEcmAnswer env time er E_NOTFOUND)
          pending := s.pending + 1 }
      else if (s.next.all fun ern => ern.2.tps / 1000 - er.tps / 1000 < 0) &&
          !(extendedMode && alreadyPending s.ecmtask i er) then
        { s with next := some (i, er), pending := s.pending + 1 }
      else { s with pending := s.pending + 1 }
    else s

/-- `cc_get_nxt_ecm`. -/
def ccGetNxtEcm (env : Env) (time : ℤ) (peerNodeId : NodeId) (extendedMode : Bool)
    (ecmtask : List EcmTask) : Scan :=
  (List.range ecmtask.length).foldl (scanStep env time peerNodeId extendedMode) ⟨ecmtask, none, 0⟩

/-- The sleepsend check; `none` if the server stopped this service. -/
def sleepCheck (sleepsend : Bool) (last : LastEcm) (curEr : EcmTask) : Option LastEcm :=
  if sleepsend && last.stopped then
    if curEr.srvid = last.lastsrvid ∧ curEr.caid = last.lastcaid ∧ curEr.pid = last.lastpid then none
    else some ⟨false, curEr.srvid, curEr.caid, curEr.pid⟩
  else some ⟨last.stopped, curEr.srvid, curEr.caid, curEr.pid⟩

/-- A message that went to the server, with the entry it is for, the pass of the loop and the cards before it. -/
structure Send where
  k : ℕ
  cards : List Card
  n : ℕ
  curEr : EcmTask
  message : List Byte

/-- The local variables of the loop. -/
structure Pass extends State where
  card : Option Card
  processedEcms : ℕ
  sends : List Send

def CcData.unlock (cc : CcData) : CcData := { cc with ecmBusy := cc.ecmBusy && cc.extendedMode }

def Client.setTask (cl : Client) (n : ℕ) (er : EcmTask) : Client := { cl with ecmtask := cl.ecmtask.set n er }

/-- The next number for a message in extended mode. -/
def CcData.nextIdx (cc : CcData) : CcData :=
  if cc.extendedMode then
    let serverEcmIdx := if cc.serverEcmIdx + 1 ≥ 256 then 1 else cc.serverEcmIdx + 1
    { cc with serverEcmIdx, gFlag := .ofNat 8 serverEcmIdx }
  else cc

/-- `get_extended_ecm_idx` and `add_extended_ecm_idx` for a message. -/
def noteEcmIdx (eei : ExtendedEcmIdx) : List ExtendedEcmIdx → List ExtendedEcmIdx
  | [] => [eei]
  | e :: list => if e.sendIdx = eei.sendIdx then eei :: list else e :: noteEcmIdx eei list

/-- The part of `cc_send_ecm` for a request with a card. -/
def Pass.sendTo (s : Pass) (k n : ℕ) (curEr : EcmTask) (cards : List Card) (card : Card) : Pass :=
  let cc := s.cc.nextIdx
  let sendIdx := if cc.extendedMode then cc.gFlag.toNat else 1
  let eei := ⟨sendIdx, curEr.idx, card.id, curSrvid curEr, curEr.tps⟩
  { s with
    cc := { cc with cards, extendedEcmIdx := noteEcmIdx eei cc.extendedEcmIdx }
    card := some card
    processedEcms := s.processedEcms + 1
    sends := s.sends ++ [⟨k, s.cc.cards, n, curEr, Requests.ecmMessage curEr.toEcmRequest card.id⟩] }

/-- `cc_cli_close(cl, 1)`, after a message that did not go out. -/
def Pass.cliClose (s : Pass) : Pass :=
  { s with
    tcpConnected := 0
    pfd := 0
    cc := { s.cc with ecmBusy := false, justLoggedIn := false }
    cl := { s.cl with ecmtask := s.cl.ecmtask.map fun er => { er with idx := 0, rc := 0 } } }

/-- The reader has not received all cards yet. -/
def CcData.waitsForCards (cc : CcData) : Bool :=
  cc.lastMsg = MSG_NEW_CARD || cc.lastMsg = MSG_NEW_CARD_SIDINFO || cc.lastMsg = MSG_CARD_REMOVED ||
    cc.justLoggedIn

/-- The part of `cc_send_ecm` for a request without a card. -/
def Pass.noCard (env : Env) (time : ℤ) (s : Pass) (n : ℕ) (curEr : EcmTask) (cards : List Card) : Pass :=
  if s.cc.waitsForCards then
    { s with cc := { s.cc with cards }, cl := s.cl.setTask n { curEr with rc := E_WAITING } }
  else
    { s with
      cc := { s.cc with cards := reopenSids time false curEr cards }
      cl := s.cl.setTask n (writeEcmAnswer env time curEr E_NOTFOUND) }

/-- How a pass ends: with a `return`, or at the condition of the loop. -/
inductive Next
  | ret
  | again
deriving DecidableEq

/-- The loop has looked for the next request. -/
def Pass.scanned (env : Env) (s : Pass) (scan : Scan) : Pass :=
  { s with
    cc := { s.cc with ecmTime := env.now 0 }
    cl := { s.cl with ecmtask := scan.ecmtask, pending := scan.pending } }

/-- The loop has taken a request. -/
def Pass.take (s : Pass) (n : ℕ) (curEr : EcmTask) (last : LastEcm) : Pass :=
  { s with cl := { s.cl.setTask n curEr with last } }

/-- A pass of the loop of `cc_send_ecm`. -/
def pass (env : Env) (k : ℕ) (s : Pass) : Next × Pass :=
  let time := env.now k
  let scan := ccGetNxtEcm env time s.cc.peerNodeId s.cc.extendedMode s.cl.ecmtask
  let s := s.scanned env scan
  match scan.next with
  | none => (.ret, { s with cc := s.cc.unlock })
  | some (n, ern) =>
    let curEr := { ern with rc := E_ALREADY_SENT }
    match sleepCheck s.cc.sleepsend s.cl.last curEr with
    | none =>
      (.ret, { s with
        cc := s.cc.unlock
        cl := s.cl.setTask n (writeEcmAnswer env time curEr E_STOPPED) })
    | some last =>
      let s := s.take n curEr last
      match chooseCard env time s.cc.cards s.card curEr with
      | (cards, some card) =>
        let s := s.sendTo k n curEr cards card
        (if s.cc.extendedMode then .again else .ret, if env.sendOk k then s else s.cliClose)
      | (cards, none) => (.again, s.noCard env time n curEr cards)

/-- The end of `cc_send_ecm` behind the loop. -/
def Pass.finish (s : Pass) : Pass :=
  { s with
    cc := s.cc.unlock
    cl := { s.cl with
      ecmtask := s.cl.ecmtask.map fun er => if er.rc = E_WAITING then { er with rc := E_UNHANDLED } else er } }

/-- The loop; `none` when it does not end within `fuel` passes. -/
def sendLoop (env : Env) : ℕ → ℕ → Pass → Option Pass
  | 0, _, _ => none
  | fuel + 1, k, s =>
    match pass env k s with
    | (.ret, s) => some s
    | (.again, s) =>
      if s.cc.extendedMode || s.processedEcms = 0 then sendLoop env fuel (k + 1) s else some s.finish

/-- The two functions that open a connection. -/
structure Net where
  cliConnect : State → State
  cycleConnection : State → State

/-- `cc_request_timeout`, for a reader that is busy. -/
def requestTimeout (time : ℤ) (st : State) : Bool :=
  let tt := if st.ccReconnect ≤ 0 then DEFAULT_CC_RECONNECT else st.ccReconnect
  time - (st.cc.ecmTime + tt) ≥ 0

/-- `cc_send_ecm` up to the loop, and whether it gets there; `er` is a slot of `ecmtask`. -/
def enter (net : Net) (env : Env) (st : State) (er : Option ℕ) : State × Bool :=
  let st := if st.tcpConnected = 0 then net.cliConnect st else st
  if st.initialized = false ∨ st.pfd < 1 ∨ st.tcpConnected = 0 then
    let answered := er.bind fun n => st.cl.ecmtask[n]?.map fun t =>
      st.cl.setTask n (writeEcmAnswer env (env.now 0) t E_NOTFOUND)
    ({ st with cl := answered.getD st.cl }, false)
  else if st.tcpConnected ≠ 2 ∨ st.cc.cards = [] then (st, false)
  else
    let st := { st with cc := { st.cc with justLoggedIn := false } }
    if st.cc.extendedMode then (st, true)
    else if st.cc.ecmBusy then
      if requestTimeout (env.now 0) st then
        let st := net.cycleConnection st
        if st.tcpConnected = 0 then (st, false)
        else ({ st with cc := { st.cc with ecmBusy := true } }, true)
      else (st, false)
    else ({ st with cc := { st.cc with ecmBusy := true } }, true)

def Pass.start (st : State) : Pass := { st with card := none, processedEcms := 0, sends := [] }

/-- `cc_send_ecm`. -/
def ccSendEcm (net : Net) (env : Env) (fuel : ℕ) (st : State) (er : Option ℕ) : Option Pass :=
  match enter net env st er with
  | (st, false) => some (.start st)
  | (st, true) => sendLoop env fuel 1 (.start st)

/-- The message is for a card that the search finds for this request, or for its own origin card. -/
def Send.Addressed (env : Env) (x : Send) : Prop :=
  (∃ card ∈ originCard env x.cards x.curEr, x.message = Requests.ecmMessage x.curEr.toEcmRequest card.id) ∨
    ∃ card ∈ (searchCard env (env.now x.k) x.cards x.curEr).2,
      x.message = Requests.ecmMessage x.curEr.toEcmRequest card.id

instance (env : Env) (x : Send) : Decidable (x.Addressed env) := inferInstanceAs (Decidable (_ ∨ _))

/-- What the choice of the next request sees of an entry. -/
def EcmTask.core (er : EcmTask) : Option EcmTask := if er.waiting then some er else none

/-- The same requests wait in the same slots. -/
def Same (l l' : List EcmTask) : Prop := l.map EcmTask.core = l'.map EcmTask.core

/-- What waits in a slot of `l'` waits there in `l` as well. -/
def Fewer (l' l : List EcmTask) : Prop :=
  l'.length = l.length ∧ ∀ (j : ℕ) (er : EcmTask), l'[j]? = some er → er.waiting = true → l[j]? = some er

def waitingSlots (l : List EcmTask) : Finset ℕ :=
  (Finset.range l.length).filter fun j => l[j]?.any EcmTask.waiting

variable {env : Env} {time : ℤ} {peer : NodeId} {ext : Bool} {l l' l'' : List EcmTask} {er er' : EcmTask}
  {i j n rc : ℕ}

theorem mem_waitingSlots : j ∈ waitingSlots l ↔ ∃ er, l[j]? = some er ∧ er.waiting = true := by
  rw [waitingSlots, Finset.mem_filter, Finset.mem_range, Option.any_eq_true]
  constructor
  · rintro ⟨-, h⟩
    exact h
  · rintro ⟨er, her, hw⟩
    exact ⟨(List.getElem?_eq_some_iff.mp her).1, er, her, hw⟩

theorem card_waitingSlots_le : (waitingSlots l).card ≤ l.length := by
  calc (waitingSlots l).card ≤ (Finset.range l.length).card := Finset.card_filter_le _ _
    _ = l.length := Finset.card_range _

theorem core_of_waiting (h : er.waiting = true) : er.core = some er := if_pos h

theorem core_of_not_waiting (h : er.waiting = false) : er.core = none := by
  rw [EcmTask.core, h]
  rfl

theorem waiting_of_lt (h : er.rc < E_NOCARD) : er.waiting = false := by
  rw [EcmTask.waiting, decide_eq_false (by omega), Bool.false_and]

theorem waiting_of_gt (h : E_UNHANDLED < er.rc) : er.waiting = false := by
  rw [EcmTask.waiting, decide_eq_false (p := er.rc ≤ E_UNHANDLED) (by omega), Bool.and_false]

theorem waiting_writeEcmAnswer (hrc : rc < E_NOCARD) (h : (writeEcmAnswer env time er rc).waiting = true) :
    writeEcmAnswer env time er rc = er := by
  by_cases hold : er.tps / 1000 = 0 ∨ er.tps / 1000 < time / 1000 - ((env.ctimeout + 500) / 1000 + 1)
  · exact if_pos hold
  · have hnew : writeEcmAnswer env time er rc = { er with rc, idx := 0 } := if_neg hold
    rw [hnew, waiting_of_lt hrc] at h
    cases h

theorem not_alreadyPending : alreadyPending l i er = false := by
  rw [alreadyPending, List.any_eq_false]
  intro j _ h
  cases hj : l[j]? with
  | none => simp [hj] at h
  | some erx => simp [hj] at h; omega

namespace Same

theorem refl : Same l l := rfl

theorem symm (h : Same l l') : Same l' l := Eq.symm h

theorem length_eq (h : Same l l') : l.length = l'.length := by
  have h := congrArg List.length h
  rwa [List.length_map, List.length_map] at h

theorem getElem? (h : Same l l') (i : ℕ) : l[i]?.map EcmTask.core = l'[i]?.map EcmTask.core := by
  rw [← List.getElem?_map, ← List.getElem?_map, h]

theorem set (h : Same l l') (he : er.core = er'.core) : Same (l.set i er) (l'.set i er') := by
  rw [Same, List.map_set, List.map_set, h, he]

theorem set_left (h : Same l l') (hi : l[i]? = some er) (hw : er.waiting = false)
    (he : er'.core = none) : Same (l.set i er') l' := by
  have hcore : (l.map EcmTask.core)[i]? = some none := by
    rw [List.getElem?_map, hi, Option.map_some, core_of_not_waiting hw]
  have hlt := (List.getElem?_eq_some_iff.mp hcore).1
  have hget := (List.getElem?_eq_some_iff.mp hcore).2
  rw [Same, List.map_set, he, ← hget, List.set_getElem_self]
  exact h

end Same

namespace Fewer

theorem refl : Fewer l l := ⟨rfl, fun _ _ h _ => h⟩

theorem trans (h : Fewer l'' l') (h' : Fewer l' l) : Fewer l'' l :=
  ⟨h.1.trans h'.1, fun j er hj hw => h'.2 j er (h.2 j er hj hw) hw⟩

theorem set (hi : l[i]? = some er) (he : er'.waiting = true → er' = er) : Fewer (l.set i er') l := by
  refine ⟨List.length_set, fun j erj hj hw => ?_⟩
  rw [List.getElem?_set] at hj
  split_ifs at hj with hij hlt
  · have heq : er' = erj := Option.some.inj hj
    subst hij heq
    rw [he hw, hi]
  · exact hj

theorem subset (h : Fewer l' l) : waitingSlots l' ⊆ waitingSlots l := by
  intro j hj
  obtain ⟨er, her, hw⟩ := mem_waitingSlots.mp hj
  exact mem_waitingSlots.mpr ⟨er, h.2 j er her hw, hw⟩

end Fewer

section Scan

variable {s t : Scan}

theorem scanStep_none (hi : s.ecmtask[i]? = none) : scanStep env time peer ext s i = s := by
  rw [scanStep, hi]

/-- A step of the search for an entry: what becomes of the entry, and whether it is the next request so far. -/
theorem scanStep_some (hi : s.ecmtask[i]? = some er) :
    ∃ er' next pending, (er'.waiting = true → er' = er) ∧
      (next = s.next ∨ next = some (i, er) ∧ er' = er ∧ er.waiting = true) ∧
      scanStep env time peer ext s i = ⟨s.ecmtask.set i er', next, pending⟩ := by
  have hset : s.ecmtask.set i er = s.ecmtask := by
    obtain ⟨hlt, rfl⟩ := List.getElem?_eq_some_iff.mp hi
    exact List.set_getElem_self hlt
  rw [scanStep, hi]
  dsimp only
  split_ifs with h1 h2 h3 h4
  · exact ⟨_, s.next, s.pending, waiting_writeEcmAnswer (by decide), .inl rfl, rfl⟩
  · exact ⟨_, s.next, _, waiting_writeEcmAnswer (by decide), .inl rfl, rfl⟩
  · exact ⟨er, _, s.pending + 1, fun _ => rfl, .inr ⟨rfl, rfl, h2⟩, by rw [hset]⟩
  · exact ⟨er, s.next, _, fun _ => rfl, .inl rfl, by rw [hset]⟩
  · exact ⟨er, s.next, s.pending, fun _ => rfl, .inl rfl, by rw [hset]⟩

/-- What the search has found after `m` entries. -/
private def Found (l : List EcmTask) (m : ℕ) (s : Scan) : Prop :=
  Fewer s.ecmtask l ∧ ∀ n er, s.next = some (n, er) →
    n < m ∧ s.ecmtask[n]? = some er ∧ er.waiting = true

private theorem found_step {m : ℕ} (h : Found l m s) : Found l (m + 1) (scanStep env time peer ext s m) := by
  obtain ⟨hfewer, hnext⟩ := h
  cases hm : s.ecmtask[m]? with
  | none =>
    rw [scanStep_none hm]
    refine ⟨hfewer, fun n er hn => ?_⟩
    obtain ⟨hlt, h⟩ := hnext n er hn
    exact ⟨by omega, h⟩
  | some er =>
    obtain ⟨er', next, pending, hw, hcases, heq⟩ := @scanStep_some env time peer ext _ _ _ hm
    rw [heq]
    refine ⟨(Fewer.set hm hw).trans hfewer, fun n ern hn => ?_⟩
    rcases hcases with rfl | ⟨rfl, rfl, hwait⟩
    · obtain ⟨hlt, hget, hern⟩ := hnext n ern hn
      refine ⟨by omega, ?_, hern⟩
      rw [List.getElem?_set_ne (by omega)]
      exact hget
    · have hpair : (m, er') = (n, ern) := Option.some.inj hn
      obtain ⟨rfl, rfl⟩ := Prod.mk.inj hpair
      refine ⟨by omega, ?_, hwait⟩
      rw [List.getElem?_set_self (List.getElem?_eq_some_iff.mp hm).1]

private theorem found_ccGetNxtEcm : Found l l.length (ccGetNxtEcm env time peer ext l) := by
  have hall : ∀ m, Found l m ((List.range m).foldl (scanStep env time peer ext) ⟨l, none, 0⟩) := by
    intro m
    induction m with
    | zero => exact ⟨Fewer.refl, fun n er h => nomatch h⟩
    | succ m ih =>
      rw [List.range_succ, List.foldl_append]
      exact found_step ih
  exact hall l.length

theorem fewer_ccGetNxtEcm : Fewer (ccGetNxtEcm env time peer ext l).ecmtask l := found_ccGetNxtEcm.1

/-- The request that is chosen waits in its slot. -/
theorem next_ccGetNxtEcm (h : (ccGetNxtEcm env time peer ext l).next = some (n, er)) :
    (ccGetNxtEcm env time peer ext l).ecmtask[n]? = some er ∧ er.waiting = true :=
  (found_ccGetNxtEcm.2 n er h).2

/-- An entry that does not wait does not matter to the search. -/
private theorem scanStep_idle (hi : s.ecmtask[i]? = some er) (hw : er.waiting = false) :
    Same (scanStep env time peer ext s i).ecmtask s.ecmtask ∧ (scanStep env time peer ext s i).next = s.next := by
  obtain ⟨er', next, pending, hkeep, hcases, heq⟩ := @scanStep_some env time peer ext _ _ _ hi
  have hw' : er'.waiting = false := by
    rw [Bool.eq_false_iff]
    intro h
    rw [hkeep h, hw] at h
    cases h
  rw [heq]
  refine ⟨Same.refl.set_left hi hw (core_of_not_waiting hw'), ?_⟩
  rcases hcases with h | ⟨-, -, h⟩
  · exact h
  · rw [hw] at h
    cases h

private theorem same_step (h : Same s.ecmtask t.ecmtask) (hn : s.next = t.next) :
    Same (scanStep env time peer ext s i).ecmtask (scanStep env time peer ext t i).ecmtask ∧
      (scanStep env time peer ext s i).next = (scanStep env time peer ext t i).next := by
  have hget := h.getElem? i
  cases hs : s.ecmtask[i]? with
  | none =>
    rw [hs, Option.map_none] at hget
    rw [scanStep_none hs, scanStep_none (Option.map_eq_none_iff.mp hget.symm)]
    exact ⟨h, hn⟩
  | some er =>
    rw [hs, Option.map_some] at hget
    obtain ⟨er', ht, hcore⟩ := Option.map_eq_some_iff.mp hget.symm
    cases hw : er.waiting with
    | true =>
      rw [core_of_waiting hw] at hcore
      have hw' : er'.waiting = true := by
        by_contra hnot
        rw [core_of_not_waiting (Bool.eq_false_iff.mpr hnot)] at hcore
        cases hcore
      rw [core_of_waiting hw'] at hcore
      have her : er' = er := Option.some.inj hcore
      subst her
      rw [scanStep, scanStep, hs, ht]
      dsimp only
      rw [not_alreadyPending, not_alreadyPending, hn]
      split_ifs
      · exact ⟨h.set rfl, rfl⟩
      · exact ⟨h.set rfl, rfl⟩
      · exact ⟨h, rfl⟩
      · exact ⟨h, rfl⟩
    | false =>
      have hw' : er'.waiting = false := by
        rw [Bool.eq_false_iff]
        intro htrue
        rw [core_of_waiting htrue, core_of_not_waiting hw] at hcore
        cases hcore
      obtain ⟨hsame, hnext⟩ := @scanStep_idle env time peer ext _ _ _ hs hw
      obtain ⟨hsame', hnext'⟩ := @scanStep_idle env time peer ext _ _ _ ht hw'
      exact ⟨(hsame.trans h).trans hsame'.symm, hnext.trans (hn.trans hnext'.symm)⟩

/-- The search sees only the entries that wait. -/
theorem same_ccGetNxtEcm (h : Same l l') :
    Same (ccGetNxtEcm env time peer ext l).ecmtask (ccGetNxtEcm env time peer ext l').ecmtask ∧
      (ccGetNxtEcm env time peer ext l).next = (ccGetNxtEcm env time peer ext l').next := by
  have hall : ∀ m, Same ((List.range m).foldl (scanStep env time peer ext) ⟨l, none, 0⟩).ecmtask
        ((List.range m).foldl (scanStep env time peer ext) ⟨l', none, 0⟩).ecmtask ∧
      ((List.range m).foldl (scanStep env time peer ext) ⟨l, none, 0⟩).next =
        ((List.range m).foldl (scanStep env time peer ext) ⟨l', none, 0⟩).next := by
    intro m
    induction m with
    | zero => exact ⟨h, rfl⟩
    | succ m ih =>
      rw [List.range_succ, List.foldl_append, List.foldl_append]
      exact same_step ih.1 ih.2
  rw [ccGetNxtEcm, ccGetNxtEcm, ← h.length_eq]
  exact hall l.length

end Scan

/-- The requests in the order in which `cc_get_nxt_ecm` chooses them, each marked as sent before the next. -/
def requestOrder (env : Env) (peer : NodeId) (ext : Bool) : ℕ → ℕ → List EcmTask → List EcmTask
  | 0, _, _ => []
  | fuel + 1, k, ecmtask =>
    let scan := ccGetNxtEcm env (env.now k) peer ext ecmtask
    match scan.next with
    | none => []
    | some (n, ern) =>
      let curEr := { ern with rc := E_ALREADY_SENT }
      curEr :: requestOrder env peer ext fuel (k + 1) (scan.ecmtask.set n curEr)

theorem requestOrder_congr {fuel : ℕ} {k : ℕ} (h : Same l l') :
    requestOrder env peer ext fuel k l = requestOrder env peer ext fuel k l' := by
  induction fuel generalizing k l l' with
  | zero => rfl
  | succ fuel ih =>
    obtain ⟨htask, hnext⟩ := @same_ccGetNxtEcm env (env.now k) peer ext _ _ h
    rw [requestOrder, requestOrder]
    dsimp only
    rw [hnext]
    cases (ccGetNxtEcm env (env.now k) peer ext l').next with
    | none => rfl
    | some p =>
      obtain ⟨n, ern⟩ := p
      exact congrArg (_ :: ·) (ih (htask.set rfl))

theorem next_eq_none (h : waitingSlots l = ∅) : (ccGetNxtEcm env time peer ext l).next = none := by
  cases hnext : (ccGetNxtEcm env time peer ext l).next with
  | none => rfl
  | some p =>
    obtain ⟨hget, hw⟩ := @next_ccGetNxtEcm _ _ _ _ _ p.2 p.1 hnext
    have hmem : p.1 ∈ waitingSlots l := mem_waitingSlots.mpr ⟨p.2, fewer_ccGetNxtEcm.2 _ _ hget hw, hw⟩
    rw [h] at hmem
    exact absurd hmem (Finset.notMem_empty _)

/-- The slot of the request that is chosen waits no more afterwards, whatever the pass makes of the entry. -/
theorem waitingSlots_set (h : (ccGetNxtEcm env time peer ext l).next = some (n, er))
    (hw : er'.waiting = false) :
    n ∈ waitingSlots l ∧ n ∉ waitingSlots ((ccGetNxtEcm env time peer ext l).ecmtask.set n er') ∧
      Fewer ((ccGetNxtEcm env time peer ext l).ecmtask.set n er') l := by
  obtain ⟨hget, hwait⟩ := next_ccGetNxtEcm h
  have hlt := (List.getElem?_eq_some_iff.mp hget).1
  refine ⟨mem_waitingSlots.mpr ⟨er, fewer_ccGetNxtEcm.2 n er hget hwait, hwait⟩, ?_, ?_⟩
  · intro hmem
    obtain ⟨e, he, hew⟩ := mem_waitingSlots.mp hmem
    rw [List.getElem?_set_self hlt] at he
    have heq : er' = e := Option.some.inj he
    rw [← heq, hw] at hew
    cases hew
  · exact (Fewer.set hget fun h => absurd (h.symm.trans hw) (by decide)).trans fewer_ccGetNxtEcm

end NCam.Cccam.SendEcm
