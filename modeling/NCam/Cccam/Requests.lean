import NCam.Cccam.Link

/-! ECM and EMM messages of CCcam: what the reader builds and queues, and what the parser of the server takes
from them. -/
namespace NCam.Cccam.Requests

open NCam.Lib NCam.Lib.Memory NCam.Util
open NCam.Cccam.Link (netbuf)

def MAX_ECM_SIZE : ℕ := 1024
def MAX_EMM_SIZE : ℕ := 1024
def CC_MAXMSGSIZE : ℕ := 0x400
def CCMSG_HEADER_LEN : ℕ := 17

/-- The fields of a request that go through an ECM message. -/
structure EcmRequest where
  caid : BitVec 16
  prid : BitVec 32
  srvid : BitVec 16
  ecm : List Byte
  ecmlen_le : ecm.length ≤ MAX_ECM_SIZE

/-- `EMM_PACKET`. -/
structure EmmPacket where
  caid : Vector Byte 2
  provid : Vector Byte 4
  hexserial : Vector Byte 8
  emm : List Byte
  emmlen_le : emm.length ≤ MAX_EMM_SIZE

/-- The card that the server notes for a request. -/
structure ServerCard where
  id : BitVec 32
  caid : BitVec 16
deriving DecidableEq

/-- `ecmbuf` in `cc_send_ecm`. -/
def ecmMessage (curEr : EcmRequest) (cardId : BitVec 32) : List Byte :=
  i2b 2 (curEr.caid.setWidth 32) ++ (i2b 4 curEr.prid ++ (i2b 4 cardId ++
    (i2b 2 (curEr.srvid.setWidth 32) ++ (.ofNat 8 curEr.ecm.length :: curEr.ecm))))

/-- The part of `cc_parse_msg` for a request, for the server; `ecmtask` if `get_ecmtask` has a free one. -/
def parseEcm (ecmtask : Bool) (msg : List Byte) : Option (EcmRequest × ServerCard) :=
  let buf (i : ℕ) : Byte := msg.getD i 0
  let l := msg.length
  if l < CCMSG_HEADER_LEN then none
  else if h : ecmtask ∧ l > CCMSG_HEADER_LEN ∧ MAX_ECM_SIZE > l - CCMSG_HEADER_LEN then
    some
      ({ caid := (b2i 2 buf 4).setWidth 16
         prid := b2i 4 buf 6
         srvid := (b2i 2 buf 14).setWidth 16
         ecm := slice buf CCMSG_HEADER_LEN (l - CCMSG_HEADER_LEN)
         ecmlen_le := by rw [length_slice]; exact Nat.le_of_lt h.2.2 },
        ⟨b2i 4 buf 10, (b2i 2 buf 4).setWidth 16⟩)
  else none

/-- `emmbuf` in `cc_send_emm`, as it is queued: byte 2 has the high byte of the length. -/
def emmMessage (ep : EmmPacket) (cardId : BitVec 32) : List Byte :=
  ep.caid.toList ++ (.ofNat 8 (ep.emm.length >>> 8) :: (ep.provid.toList ++ (i2b 4 cardId ++
    (.ofNat 8 ep.emm.length :: ep.emm))))

/-- The length of the EMM in a message of `l` bytes; a short message has it in its byte 15. -/
def emmlenOf (l : ℕ) (b15 : Byte) : ℕ := if l ≤ 0xFF then b15.toNat else min (l - 16) MAX_EMM_SIZE

/-- The part of `cc_parse_msg` for an EMM, for the server; `au` if the client has a reader for its EMMs. -/
def parseEmm (au : Bool) (msg : List Byte) : Option EmmPacket :=
  let buf (i : ℕ) : Byte := msg.getD i 0
  let l := msg.length
  if l < 16 ∨ au = false then none
  else
    let emmlen := emmlenOf l (buf 15)
    if h : emmlen > MAX_EMM_SIZE ∨ emmlen + 16 > l then none
    else
      some
        { caid := #v[buf 4, buf 5]
          provid := #v[buf 7, buf 8, buf 9, buf 10]
          -- no field of the message has the serial; the packet comes from `cs_malloc`
          hexserial := .replicate 8 0
          emm := slice buf 16 emmlen
          emmlen_le := by rw [length_slice]; exact Nat.le_of_not_lt (not_or.mp h).1 }

/-- What the functions for EMMs use of the reader, with the messages sent and the EMMs accepted so far. -/
structure State where
  online : Bool
  audisabled : Bool
  extendedMode : Bool
  ecmBusy : Bool
  pendingEmms : List (List Byte)
  accepted : List (EmmPacket × BitVec 32)
  sent : List (List Byte)

/-- `cc_send_pending_emms`: at most one EMM at a time. -/
def ccSendPendingEmms (cc : State) : State :=
  match cc.pendingEmms with
  | [] => cc
  | emmbuf :: pending =>
    if !cc.extendedMode && cc.ecmBusy then cc -- sent later
    else
      let size := ((emmbuf.getD 11 0).toNat ||| (emmbuf.getD 2 0).toNat <<< 8) + 12
      let emmbuf := emmbuf.set 2 0
      { cc with
        ecmBusy := cc.ecmBusy || !cc.extendedMode
        pendingEmms := pending
        sent := cc.sent ++ [emmbuf.take size] }

/-- `cc_send_emm`; `emmCard` is the last used card, or the one found by the serial. -/
def ccSendEmm (cc : State) (ep : EmmPacket) (emmCard : Option (BitVec 32)) : State :=
  if !cc.online || cc.audisabled then cc
  else
    match emmCard with
    | none => cc
    | some cardId =>
      ccSendPendingEmms { cc with
        pendingEmms := cc.pendingEmms ++ [emmMessage ep cardId]
        accepted := cc.accepted ++ [(ep, cardId)] }

inductive Action
  | sendEmm (ep : EmmPacket) (emmCard : Option (BitVec 32))
  | sendPendingEmms
  /-- Anything else that happens to the reader. -/
  | other (online audisabled extendedMode ecmBusy : Bool)

def next (cc : State) : Action → Option State
  | .sendEmm ep emmCard => some (ccSendEmm cc ep emmCard)
  | .sendPendingEmms => some (ccSendPendingEmms cc)
  | .other online audisabled extendedMode ecmBusy =>
    some { cc with
      online := online, audisabled := audisabled, extendedMode := extendedMode, ecmBusy := ecmBusy }

/-- A new connection. -/
def system : System State Action where
  init cc := cc.pendingEmms = [] ∧ cc.accepted = [] ∧ cc.sent = []
  next := next

section Queue

/-- The message that is sent for an EMM. -/
def wireEmm (p : EmmPacket × BitVec 32) : List Byte := (emmMessage p.1 p.2).set 2 0

/-- The messages sent are those of the first EMMs accepted, and the others wait in their order. -/
structure Inv (cc : State) : Prop where
  sent : cc.sent = (cc.accepted.take cc.sent.length).map wireEmm
  pending : cc.pendingEmms = (cc.accepted.drop cc.sent.length).map fun p => emmMessage p.1 p.2

variable {cc : State}

theorem exists_toList_four (v : Vector Byte 4) : ∃ a b c d, v.toList = [a, b, c, d] := by
  match h : v.toList, v.length_toList with
  | [a, b, c, d], _ => exact ⟨a, b, c, d, rfl⟩

theorem length_emmMessage (ep : EmmPacket) (cardId : BitVec 32) :
    (emmMessage ep cardId).length = 12 + ep.emm.length := by
  simp only [emmMessage, List.length_append, List.length_cons, Vector.length_toList, length_i2b_four]
  omega

/-- The size computed from the queued message is its length. -/
theorem size_emmMessage (ep : EmmPacket) (cardId : BitVec 32) :
    (((emmMessage ep cardId).getD 11 0).toNat ||| ((emmMessage ep cardId).getD 2 0).toNat <<< 8) + 12 =
      (emmMessage ep cardId).length := by
  have hle := ep.emmlen_le
  obtain ⟨c0, c1, hcaid⟩ : ∃ c0 c1, ep.caid.toList = [c0, c1] :=
    List.length_eq_two.mp Vector.length_toList
  obtain ⟨p0, p1, p2, p3, hprov⟩ := exists_toList_four ep.provid
  rw [length_emmMessage]
  unfold emmMessage
  rw [hcaid, hprov]
  change ((BitVec.ofNat 8 ep.emm.length).toNat ||| (BitVec.ofNat 8 (ep.emm.length >>> 8)).toNat <<< 8) +
    12 = _
  rw [Nat.or_comm, size_two (by unfold MAX_EMM_SIZE at hle; omega), Nat.add_comm]

theorem inv_ccSendPendingEmms (h : Inv cc) : Inv (ccSendPendingEmms cc) := by
  unfold ccSendPendingEmms
  cases hp : cc.pendingEmms with
  | nil => exact h
  | cons emmbuf pending =>
    dsimp only
    split_ifs
    · exact h
    · have hpend := h.pending
      rw [hp] at hpend
      obtain ⟨p, rest, hdrop, hhead, hrest⟩ := List.map_eq_cons_iff.mp hpend.symm
      have hsize := size_emmMessage p.1 p.2
      rw [hhead] at hsize
      have hwire : (emmbuf.set 2 0).take (((emmbuf.getD 11 0).toNat |||
          (emmbuf.getD 2 0).toNat <<< 8) + 12) = wireEmm p := by
        rw [hsize, List.take_of_length_le (Nat.le_of_eq List.length_set), ← hhead]
        rfl
      have hget : cc.accepted[cc.sent.length]? = some p := by
        rw [← List.head?_drop, hdrop]
        rfl
      refine ⟨?_, ?_⟩
      · dsimp only
        rw [hwire, List.length_append, List.length_singleton, List.take_add_one, hget, List.map_append,
          ← h.sent]
        rfl
      · dsimp only
        rw [List.length_append, List.length_singleton, ← List.tail_drop, hdrop]
        exact hrest.symm

theorem inv_ccSendEmm (h : Inv cc) (ep : EmmPacket) (emmCard : Option (BitVec 32)) :
    Inv (ccSendEmm cc ep emmCard) := by
  unfold ccSendEmm
  split_ifs
  · exact h
  · cases emmCard with
    | none => exact h
    | some cardId =>
      have hle : cc.sent.length ≤ cc.accepted.length := by
        have hlen := congrArg List.length h.sent
        rw [List.length_map, List.length_take] at hlen
        omega
      apply inv_ccSendPendingEmms
      refine ⟨?_, ?_⟩
      · rw [List.take_append_of_le_length hle]
        exact h.sent
      · rw [List.drop_append_of_le_length hle, List.map_append, ← h.pending]
        rfl

theorem inv_reachable (h : system.Reachable System.free cc) : Inv cc := by
  refine h.invariant ?_ ?_
  · rintro cc ⟨hpending, haccepted, hsent⟩
    exact ⟨by rw [hsent, haccepted]; rfl, by rw [hpending, haccepted, hsent]; rfl⟩
  · intro cc a cc' hinv _ hstep
    cases a with
    | sendEmm ep emmCard =>
      rw [← Option.some.inj hstep]
      exact inv_ccSendEmm hinv ep emmCard
    | sendPendingEmms =>
      rw [← Option.some.inj hstep]
      exact inv_ccSendPendingEmms hinv
    | other online audisabled extendedMode ecmBusy =>
      rw [← Option.some.inj hstep]
      exact ⟨hinv.sent, hinv.pending⟩

end Queue

section Parse

private theorem slice_getD {bs cs : List Byte} {o n : ℕ} (ho : o = bs.length) (hn : n = cs.length) :
    slice (fun i => (bs ++ cs).getD i 0) o n = cs := by
  subst ho hn
  apply List.ext_getElem (by simp)
  intro i _ hi
  simp [slice, List.getElem?_append_right, hi]

private theorem setWidth_setWidth (v : BitVec 16) :
    (((v.setWidth 32).setWidth 16).setWidth 32).setWidth 16 = v := by
  apply BitVec.eq_of_toNat_eq
  have hlt := v.isLt
  simp only [BitVec.toNat_setWidth]
  omega

theorem parseEcm_ecmMessage (gFlag : Byte) (er : EcmRequest) (cardId : BitVec 32)
    (hlo : 0 < er.ecm.length) (hhi : CCMSG_HEADER_LEN + er.ecm.length ≤ CC_MAXMSGSIZE) :
    parseEcm true (netbuf gFlag .cwEcm (ecmMessage er cardId)) = some (er, ⟨cardId, er.caid⟩) := by
  unfold CCMSG_HEADER_LEN CC_MAXMSGSIZE at hhi
  obtain ⟨head, hlen, hmsg⟩ : ∃ head : List Byte, head.length = 17 ∧
      netbuf gFlag .cwEcm (ecmMessage er cardId) = head ++ er.ecm :=
    ⟨[_, _, _, _, _, _, _, _, _, _, _, _, _, _, _, _, _], rfl, rfl⟩
  have hl : (netbuf gFlag .cwEcm (ecmMessage er cardId)).length = 17 + er.ecm.length := by
    rw [hmsg, List.length_append, hlen]
  have hcaid : Holds (fun i => (netbuf gFlag .cwEcm (ecmMessage er cardId)).getD i 0) 4
      (i2b 2 (er.caid.setWidth 32)) := rfl
  have hprid : Holds (fun i => (netbuf gFlag .cwEcm (ecmMessage er cardId)).getD i 0) 6
      (i2b 4 er.prid) := rfl
  have hid : Holds (fun i => (netbuf gFlag .cwEcm (ecmMessage er cardId)).getD i 0) 10
      (i2b 4 cardId) := rfl
  have hsrvid : Holds (fun i => (netbuf gFlag .cwEcm (ecmMessage er cardId)).getD i 0) 14
      (i2b 2 (er.srvid.setWidth 32)) := rfl
  have hecm : slice (fun i => (netbuf gFlag .cwEcm (ecmMessage er cardId)).getD i 0) 17
      (17 + er.ecm.length - 17) = er.ecm := by
    rw [hmsg]
    exact slice_getD hlen.symm (by omega)
  have haccept : True ∧ 17 + er.ecm.length > CCMSG_HEADER_LEN ∧
      MAX_ECM_SIZE > 17 + er.ecm.length - CCMSG_HEADER_LEN := by
    unfold CCMSG_HEADER_LEN MAX_ECM_SIZE
    exact ⟨trivial, by omega, by omega⟩
  unfold parseEcm
  simp only [hl]
  rw [if_neg (by unfold CCMSG_HEADER_LEN; omega), dif_pos haccept]
  simp only [b2i_two hcaid, b2i_four hprid, b2i_four hid, b2i_two hsrvid, setWidth_setWidth,
    CCMSG_HEADER_LEN, hecm]

theorem parseEmm_wireEmm (gFlag : Byte) (ep : EmmPacket) (cardId : BitVec 32)
    (hhi : 16 + ep.emm.length ≤ CC_MAXMSGSIZE) :
    parseEmm true (netbuf gFlag .emmAck (wireEmm (ep, cardId))) =
      some { ep with hexserial := .replicate 8 0 } := by
  unfold CC_MAXMSGSIZE at hhi
  obtain ⟨c0, c1, hcaid⟩ : ∃ c0 c1, ep.caid.toList = [c0, c1] :=
    List.length_eq_two.mp Vector.length_toList
  obtain ⟨p0, p1, p2, p3, hprov⟩ := exists_toList_four ep.provid
  have hmsg : netbuf gFlag .emmAck (wireEmm (ep, cardId)) =
      gFlag :: 2 :: .ofNat 8 ((12 + ep.emm.length) >>> 8) :: .ofNat 8 (12 + ep.emm.length) ::
        c0 :: c1 :: 0 :: p0 :: p1 :: p2 :: p3 :: (i2b 4 cardId ++ (.ofNat 8 ep.emm.length :: ep.emm)) := by
    unfold netbuf wireEmm
    rw [List.length_set, length_emmMessage]
    unfold emmMessage
    rw [hcaid, hprov]
    rfl
  obtain ⟨head, hhead⟩ : ∃ head : List Byte, head = gFlag :: 2 :: .ofNat 8 ((12 + ep.emm.length) >>> 8) ::
      .ofNat 8 (12 + ep.emm.length) :: c0 :: c1 :: 0 :: p0 :: p1 :: p2 :: p3 ::
        (i2b 4 cardId ++ [.ofNat 8 ep.emm.length]) := ⟨_, rfl⟩
  have hlen : head.length = 16 := by
    rw [hhead]
    rfl
  have happend : netbuf gFlag .emmAck (wireEmm (ep, cardId)) = head ++ ep.emm := by
    rw [hmsg, hhead]
    rfl
  have hl : (netbuf gFlag .emmAck (wireEmm (ep, cardId))).length = 16 + ep.emm.length := by
    rw [happend, List.length_append, hlen]
  have hemm : slice (fun i => (netbuf gFlag .emmAck (wireEmm (ep, cardId))).getD i 0) 16 ep.emm.length =
      ep.emm := by
    rw [happend]
    exact slice_getD hlen.symm rfl
  have hcells : ∀ i < 16, (netbuf gFlag .emmAck (wireEmm (ep, cardId))).getD i 0 = head.getD i 0 := by
    intro i hi
    rw [happend]
    exact List.getD_append _ _ _ _ (by omega)
  have hcell : head.getD 15 0 = .ofNat 8 ep.emm.length := by
    rw [hhead]
    rfl
  have hemmlen : emmlenOf (16 + ep.emm.length) (head.getD 15 0) = ep.emm.length := by
    unfold emmlenOf
    split_ifs with hshort
    · rw [hcell, BitVec.toNat_ofNat]
      omega
    · unfold MAX_EMM_SIZE
      omega
  have haccept : ¬ (ep.emm.length > MAX_EMM_SIZE ∨ ep.emm.length + 16 > 16 + ep.emm.length) := by
    have hle := ep.emmlen_le
    omega
  unfold parseEmm
  simp only [hl, hcells 15 (by omega), hemmlen]
  rw [if_neg (by simp), dif_neg haccept]
  simp only [hemm, hcells 4 (by omega), hcells 5 (by omega), hcells 7 (by omega), hcells 8 (by omega),
    hcells 9 (by omega), hcells 10 (by omega)]
  have hc : (#v[c0, c1] : Vector Byte 2) = ep.caid := Vector.toList_inj.mp hcaid.symm
  have hp : (#v[p0, p1, p2, p3] : Vector Byte 4) = ep.provid := Vector.toList_inj.mp hprov.symm
  subst hhead
  rw [Option.some.injEq, EmmPacket.mk.injEq]
  exact ⟨hc, hp, rfl, rfl⟩

/-- The parser of the server recovers every request, and every EMM that was sent, in the order in which the
EMMs were accepted; the serial of an EMM is not in its message. -/
theorem requests_recovered :
    (∀ gFlag (er : EcmRequest) cardId, 0 < er.ecm.length →
        CCMSG_HEADER_LEN + er.ecm.length ≤ CC_MAXMSGSIZE →
        parseEcm true (netbuf gFlag .cwEcm (ecmMessage er cardId)) = some (er, ⟨cardId, er.caid⟩)) ∧
      ∀ cc, system.Reachable System.free cc → ∀ i (hi : i < cc.sent.length),
        ∃ ep cardId, cc.accepted[i]? = some (ep, cardId) ∧ ∀ gFlag,
          16 + ep.emm.length ≤ CC_MAXMSGSIZE →
          parseEmm true (netbuf gFlag .emmAck cc.sent[i]) =
            some { ep with hexserial := .replicate 8 0 } := by
  refine ⟨parseEcm_ecmMessage, fun cc h i hi => ?_⟩
  have hsent := (inv_reachable h).sent
  have hlen := congrArg List.length hsent
  rw [List.length_map, List.length_take] at hlen
  have hi' : i < cc.accepted.length := by omega
  have hget : cc.sent[i] = wireEmm cc.accepted[i] := by
    have hmap := List.getElem_of_eq hsent hi
    rw [List.getElem_map, List.getElem_take] at hmap
    exact hmap
  refine ⟨cc.accepted[i].1, cc.accepted[i].2, List.getElem?_eq_getElem hi', fun gFlag hfit => ?_⟩
  rw [hget]
  exact parseEmm_wireEmm gFlag cc.accepted[i].1 cc.accepted[i].2 hfit

theorem parseEmm_hexserial {au : Bool} {msg : List Byte} {ep : EmmPacket}
    (h : parseEmm au msg = some ep) : ep.hexserial = .replicate 8 0 := by
  unfold parseEmm at h
  dsimp only at h
  split_ifs at h
  exact (congrArg EmmPacket.hexserial (Option.some.inj h)).symm

/-- An EMM of 300 bytes for a card with a serial. -/
def longEmm : EmmPacket where
  caid := #v[0x05, 0x00]
  provid := #v[0, 0x03, 0x2C, 0x30]
  hexserial := #v[0, 0x12, 0x34, 0x56, 0x78, 0, 0, 0]
  emm := .replicate 300 0x8C
  emmlen_le := by rw [List.length_replicate]; decide

def shortEcm : EcmRequest where
  caid := 0x0500
  prid := 0x032C30
  srvid := 0x1234
  ecm := .replicate 240 0x80
  ecmlen_le := by rw [List.length_replicate]; decide

theorem length_longEmm : longEmm.emm.length = 300 := List.length_replicate

theorem length_shortEcm : shortEcm.ecm.length = 240 := List.length_replicate

def online : State := ⟨true, false, false, false, [], [], []⟩

theorem reachable_longEmm :
    system.Reachable System.free (ccSendEmm online longEmm (some 7)) :=
  .step (a := .sendEmm longEmm (some 7)) (.init ⟨rfl, rfl, rfl⟩) trivial rfl

/-- A request whose length does not fit into its byte, and the long EMM. -/
theorem requests_recovered_long :
    (∀ gFlag, parseEcm true (netbuf gFlag .cwEcm (ecmMessage shortEcm 7)) =
      some (shortEcm, ⟨7, 0x0500⟩)) ∧
    ∀ (hi : 0 < (ccSendEmm online longEmm (some 7)).sent.length) gFlag,
      parseEmm true (netbuf gFlag .emmAck (ccSendEmm online longEmm (some 7)).sent[0]) =
        some { longEmm with hexserial := .replicate 8 0 } := by
  refine ⟨fun gFlag => requests_recovered.1 gFlag shortEcm 7 ?_ ?_, fun hi gFlag => ?_⟩
  · rw [length_shortEcm]
    decide
  · rw [length_shortEcm]
    decide
  · obtain ⟨ep, cardId, hget, hparse⟩ := requests_recovered.2 _ reachable_longEmm 0 hi
    have hep : (longEmm, (7 : BitVec 32)) = (ep, cardId) := Option.some.inj hget
    have hfit : 16 + longEmm.emm.length ≤ CC_MAXMSGSIZE := by
      rw [length_longEmm]
      decide
    have hep' : ep = longEmm := (congrArg Prod.fst hep).symm
    rw [hep'] at hparse
    exact hparse gFlag hfit

/-- The serial of an EMM does not reach the server. -/
theorem serial_not_recovered : ∃ cc, system.Reachable System.free cc ∧
    ∃ ep cardId, cc.accepted = [(ep, cardId)] ∧ 16 + ep.emm.length ≤ CC_MAXMSGSIZE ∧
      ∀ msg ∈ cc.sent, ∀ gFlag ep', parseEmm true (netbuf gFlag .emmAck msg) = some ep' →
        ep'.hexserial ≠ ep.hexserial := by
  refine ⟨_, reachable_longEmm, longEmm, 7, rfl, ?_, ?_⟩
  · rw [length_longEmm]
    decide
  · intro msg _ gFlag ep' hparse
    rw [parseEmm_hexserial hparse]
    exact fun h => absurd (congrArg (fun v : Vector Byte 8 => v[1]) h) (by decide)

end Parse

end NCam.Cccam.Requests
