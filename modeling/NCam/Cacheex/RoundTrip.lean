import NCam.Cacheex.Push

/-! A pushed request at the receiver: what arrives, and the agreement of both ends on the hop limits. -/
namespace NCam.Cacheex.Push

open NCam.Lib.Memory NCam.Util
open NCam.Ecm (E_NOTFOUND)

/-- The message holds the fields of `er`, the first three at the offsets of its transport. -/
structure Carries (caidAt pridAt srvidAt : ℕ) (ownNode : NodeId) (er : PushedEcm) (buf : ℕ → Byte) :
    Prop where
  caid : Holds buf caidAt (i2b 2 (er.caid.setWidth 32))
  prid : Holds buf pridAt (i2b 4 er.prid)
  srvid : Holds buf srvidAt (i2b 2 (er.srvid.setWidth 32))
  cycle : Holds buf 18 [cycleByte er]
  oddEven : Holds buf 19 [oddEven er.ecm0]
  ecm : Holds buf 20 (ecmBytes ownNode er)

/-- The request that arrives. -/
def received (pid : BitVec 16) (ownNode : NodeId) (er : PushedEcm) : PushedEcm where
  rc := pushRc er
  caid := er.caid
  prid := er.prid
  srvid := er.srvid
  pid := pid
  ecm0 := oddEven er.ecm0
  ecmd5 := er.ecmd5
  cspHash := er.cspHash
  cw := er.cw
  cwcCycletime := (readCycle (cycleByte er)).1
  cwcNextCwCycle := (readCycle (cycleByte er)).2
  cspLastnodes := ownNode :: er.cspLastnodes
  localgenerated := er.localgenerated

section Carries

variable {caidAt pridAt srvidAt : ℕ} {ownNode : NodeId} {er : PushedEcm} {buf : ℕ → Byte}

theorem Carries.readList (h : Carries caidAt pridAt srvidAt ownNode er buf)
    (hnodes : er.cspLastnodes.length + 1 ≤ 255) :
    readList buf = (ownNode :: er.cspLastnodes, er.localgenerated) := by
  have hecm := h.ecm
  simp only [ecmBytes, holds_append, Vector.length_toList, length_i2b_four, List.length_singleton,
    length_flatMap_nodes, Nat.reduceAdd] at hecm
  obtain ⟨-, -, -, hcount, hlist, hflag⟩ := hecm
  have hcount' : (buf 56).toNat = (ownNode :: er.cspLastnodes).length := by
    rw [(holds_cons.mp hcount).1, BitVec.toNat_ofNat, Nat.mod_eq_of_lt (by omega)]
    rfl
  rw [Push.readList, hcount', readNodes_of_holds hlist]
  dsimp only
  rw [b2i_one hflag]
  cases er.localgenerated <;> rfl

theorem Carries.readEcm (h : Carries caidAt pridAt srvidAt ownNode er buf) (pid : BitVec 16)
    (hnodes : er.cspLastnodes.length + 1 ≤ 255) :
    readEcm (pushRc er) caidAt pridAt srvidAt pid (Push.readList buf) buf = received pid ownNode er := by
  have hecm := h.ecm
  simp only [ecmBytes, holds_append, Vector.length_toList, length_i2b_four, List.length_singleton,
    length_flatMap_nodes, Nat.reduceAdd] at hecm
  obtain ⟨hmd5, hhash, hcw, -⟩ := hecm
  have hcycle : buf 18 = cycleByte er := (holds_cons.mp h.cycle).1
  have hodd : buf 19 = Push.oddEven er.ecm0 := (holds_cons.mp h.oddEven).1
  rw [Push.readEcm, received, h.readList hnodes, b2i16_of_holds h.caid, b2i_four h.prid,
    b2i16_of_holds h.srvid, hcycle, hodd, oddEven_oddEven, readDigest_of_holds hmd5,
    b2i_four hhash, cspHashSwap_cspHashSwap, readDigest_of_holds hcw]

end Carries

section Messages

variable {ownNode : NodeId} {er : PushedEcm} {buf : ℕ → Byte} {len : ℕ}

theorem ccPushOut_carries (h : ccPushOut ownNode er = some (buf, len)) :
    Carries 0 2 10 ownNode er buf ∧ Holds buf 12 [36, 0, pushRc er] ∧ rcSupported (pushRc er) := by
  unfold ccPushOut at h
  dsimp only at h
  by_cases hrc : (!rcSupported (pushRc er)) = true
  · rw [if_pos hrc] at h
    cases h
  rw [if_neg hrc, writeEcm_eq] at h
  cases h
  constructor
  · exact {
      caid := ((((holds_put.put (by simp)).put (by simp)).put (by simp)).put (by simp)).put (by simp)
      prid := (((holds_put.put (by simp)).put (by simp)).put (by simp)).put (by simp)
      srvid := ((holds_put.put (by simp)).put (by simp)).put (by simp)
      cycle := (holds_put.put (by simp)).put (by simp)
      oddEven := holds_put.put (by simp)
      ecm := holds_put }
  constructor
  · rw [put_put_of_eq (o := 12) (by rfl), put_put_of_eq (o := 12) (by rfl)]
    exact (((((holds_put.put (by simp)).put (by simp)).put (by simp)).put (by simp)).put
      (by simp)).put (by simp)
  · simpa using hrc

theorem camd35PushOut_carries (h : camd35PushOut ownNode er = some (buf, len)) :
    Carries 10 12 8 ownNode er buf ∧
      Holds buf 1 [(BitVec.ofNat 32 (pushSize er)).setWidth 8,
        (BitVec.ofNat 32 (pushSize er) >>> 8).setWidth 8, pushRc er] ∧
      rcSupported (pushRc er) := by
  unfold camd35PushOut at h
  dsimp only at h
  by_cases hrc : (!rcSupported (pushRc er)) = true
  · rw [if_pos hrc] at h
    cases h
  rw [if_neg hrc, writeEcm_eq] at h
  cases h
  constructor
  · exact {
      caid := (((holds_put.put (by simp)).put (by simp)).put (by simp)).put (by simp)
      prid := ((holds_put.put (by simp)).put (by simp)).put (by simp)
      srvid := ((((holds_put.put (by simp)).put (by simp)).put (by simp)).put (by simp)).put (by simp)
      cycle := (holds_put.put (by simp)).put (by simp)
      oddEven := holds_put.put (by simp)
      ecm := holds_put }
  constructor
  · rw [put_put_of_eq (o := 1) (by rfl), put_put_of_eq (o := 1) (by rfl)]
    exact (((((holds_put.put (by simp)).put (by simp)).put (by simp)).put (by simp)).put
      (by simp)).put (by simp)
  · simpa using hrc

variable (rcv : Receiver)

theorem ccPushIn_message (h : ccPushOut ownNode er = some (buf, len))
    (hnodes : er.cspLastnodes.length + 1 ≤ 255) (peerNodeId : NodeId) :
    ccPushIn rcv peerNodeId buf = rcv.accept (received 0 ownNode er) := by
  obtain ⟨hcarries, hhead, hrc⟩ := ccPushOut_carries h
  simp only [holds_cons, Nat.reduceAdd] at hhead
  obtain ⟨h12, h13, h14, -⟩ := hhead
  have hsize : (buf 12).setWidth 16 ||| (buf 13).setWidth 16 <<< 8 = (36 : BitVec 16) := by
    rw [h12, h13]
    rfl
  unfold ccPushIn
  dsimp only
  rw [h14, hrc, hsize, hcarries.readEcm 0 hnodes]
  rfl

theorem camd35PushIn_message (h : camd35PushOut ownNode er = some (buf, len))
    (hnodes : er.cspLastnodes.length + 1 ≤ 255) (ncdSkey : Option NodeId) :
    (camd35PushIn rcv ncdSkey buf).map Prod.fst =
      rcv.accept (received (b2i16 buf 16) ownNode er) := by
  obtain ⟨hcarries, hhead, hrc⟩ := camd35PushOut_carries h
  simp only [holds_cons, Nat.reduceAdd] at hhead
  obtain ⟨h1, h2, h3, -⟩ := hhead
  have hsize : 36 < (BitVec.ofNat 32 (pushSize er)).setWidth 16 := by
    change 36 < ((BitVec.ofNat 32 (pushSize er)).setWidth 16).toNat
    rw [BitVec.toNat_setWidth, BitVec.toNat_ofNat]
    unfold pushSize
    omega
  unfold camd35PushIn Receiver.accept
  dsimp only
  rw [h1, h2, h3, hrc, size_bytes, if_neg (by decide), if_neg (BitVec.lt_asymm hsize),
    if_pos hsize, if_pos hsize, hcarries.readEcm _ hnodes]
  cases rcv.check (received (b2i16 buf 16) ownNode er) <;> rfl

end Messages

/-- `er'` is `er` behind the sender's own node. -/
structure SameEcm (ownNode : NodeId) (er er' : PushedEcm) : Prop where
  caid : er'.caid = er.caid
  prid : er'.prid = er.prid
  srvid : er'.srvid = er.srvid
  ecmd5 : er'.ecmd5 = er.ecmd5
  cspHash : er'.cspHash = er.cspHash
  cw : er'.cw = er.cw
  cycle : cycleInfo er' = cycleInfo er
  localgenerated : er'.localgenerated = er.localgenerated
  nodes : er'.cspLastnodes = ownNode :: er.cspLastnodes

theorem cycleInfo_received {er : PushedEcm}
    (h : cycleInfo er = none ∨ er.cwcCycletime.toNat ≤ 127) (pid : BitVec 16) (ownNode : NodeId) :
    cycleInfo (received pid ownNode er) = cycleInfo er := by
  have hread := readCycle_cycleByte h
  by_cases hinfo : er.cwcCycletime ≠ 0 ∧ er.cwcNextCwCycle < 2
  · have hsome : cycleInfo er = some (er.cwcNextCwCycle, er.cwcCycletime) := if_pos hinfo
    rw [hsome] at hread ⊢
    simp only [cycleInfo, received, hread]
    exact if_pos hinfo
  · have hnone : cycleInfo er = none := if_neg hinfo
    rw [hnone] at hread ⊢
    simp [cycleInfo, received, hread]

theorem sameEcm_received {er : PushedEcm} (h : cycleInfo er = none ∨ er.cwcCycletime.toNat ≤ 127)
    (pid : BitVec 16) (ownNode : NodeId) : SameEcm ownNode er (received pid ownNode er) :=
  ⟨rfl, rfl, rfl, rfl, rfl, rfl, cycleInfo_received h pid ownNode, rfl, rfl⟩

section Sent

variable {er : PushedEcm} (hfound : er.rc.toInt < E_NOTFOUND) (ownNode : NodeId)

theorem pushRc_supported (hfound : er.rc.toInt < E_NOTFOUND) : rcSupported (pushRc er) := by
  rw [pushRc, if_pos hfound]
  rfl

include hfound

theorem ccPushOut_isSome : ∃ buf len, ccPushOut ownNode er = some (buf, len) := by
  unfold ccPushOut
  simp [pushRc_supported hfound]

theorem camd35PushOut_isSome : ∃ buf len, camd35PushOut ownNode er = some (buf, len) := by
  unfold camd35PushOut
  simp [pushRc_supported hfound]

end Sent

/-- Both transports hand a found request on with its fields, cycle information, flag and node list. -/
theorem push_roundTrip {er : PushedEcm} (hfound : er.rc.toInt < E_NOTFOUND)
    (hcycle : cycleInfo er = none ∨ 1 ≤ er.cwcCycletime.toNat ∧ er.cwcCycletime.toNat ≤ 127)
    (hnodes : er.cspLastnodes.length + 1 ≤ 255) (ownNode : NodeId) :
    (∃ buf len er', ccPushOut ownNode er = some (buf, len) ∧ SameEcm ownNode er er' ∧
      ∀ (rcv : Receiver) (peerNodeId : NodeId), ccPushIn rcv peerNodeId buf = rcv.accept er') ∧
    (∃ buf len er', camd35PushOut ownNode er = some (buf, len) ∧ SameEcm ownNode er er' ∧
      ∀ (rcv : Receiver) (ncdSkey : Option NodeId),
        (camd35PushIn rcv ncdSkey buf).map Prod.fst = rcv.accept er') := by
  have hsame := sameEcm_received (hcycle.imp_right And.right)
  constructor
  · obtain ⟨buf, len, hout⟩ := ccPushOut_isSome hfound ownNode
    exact ⟨buf, len, _, hout, hsame 0 ownNode, fun rcv => ccPushIn_message rcv hout hnodes⟩
  · obtain ⟨buf, len, hout⟩ := camd35PushOut_isSome hfound ownNode
    exact ⟨buf, len, _, hout, hsame _ ownNode, fun rcv => camd35PushIn_message rcv hout hnodes⟩

/-- A local generated word on its way from one node to the next. -/
def pushedEcm : PushedEcm where
  rc := 0
  caid := 0x0B00
  prid := 0
  srvid := 0x1234
  pid := 0x0100
  ecm0 := 0x81
  ecmd5 := .replicate 16 0x11
  cspHash := 0x01020304
  cw := .replicate 16 0x22
  cwcCycletime := 10
  cwcNextCwCycle := 1
  cspLastnodes := [.replicate 8 0xA1]
  localgenerated := true

theorem push_roundTrip_local :
    (∃ buf len er', ccPushOut (.replicate 8 0xB2) pushedEcm = some (buf, len) ∧
      SameEcm (.replicate 8 0xB2) pushedEcm er' ∧
      ∀ (rcv : Receiver) (peerNodeId : NodeId), ccPushIn rcv peerNodeId buf = rcv.accept er') ∧
    (∃ buf len er', camd35PushOut (.replicate 8 0xB2) pushedEcm = some (buf, len) ∧
      SameEcm (.replicate 8 0xB2) pushedEcm er' ∧
      ∀ (rcv : Receiver) (ncdSkey : Option NodeId),
        (camd35PushIn rcv ncdSkey buf).map Prod.fst = rcv.accept er') :=
  push_roundTrip (by decide) (by decide) (by decide) _

section Hops

theorem accept_ne_nodes {rcv : Receiver} {er : PushedEcm}
    (h : rcv.hops.hopsExceeded er.cspLastnodes.length er.localgenerated = false) :
    rcv.accept er ≠ .error .nodes := by
  unfold Receiver.accept Receiver.check Receiver.checkFilters Receiver.checkNodes
  rw [h, if_neg Bool.false_ne_true]
  split_ifs <;> simp

/-- With the same limits at both ends, the receiver never ignores a push for its number of nodes. -/
theorem push_hops_agree {snd : HopClient} {rcv : Receiver} (hmaxhop : snd.maxhop = rcv.hops.maxhop)
    (hmaxhopLg : snd.maxhopLg = rcv.hops.maxhopLg) {er : PushedEcm}
    (hchk : snd.hopLimitReached er.cspLastnodes.length er.localgenerated = false)
    (ownNode : NodeId) :
    (∀ buf len peerNodeId, ccPushOut ownNode er = some (buf, len) →
      ccPushIn rcv peerNodeId buf ≠ .error .nodes) ∧
    (∀ buf len ncdSkey, camd35PushOut ownNode er = some (buf, len) →
      camd35PushIn rcv ncdSkey buf ≠ .error .nodes) := by
  have hnodes : er.cspLastnodes.length + 1 ≤ 255 := by
    have hlt := HopClient.nodes_lt hchk
    omega
  have hin := HopClient.hopsExceeded_succ hmaxhop hmaxhopLg hchk
  constructor
  · intro buf len peerNodeId hout
    rw [ccPushIn_message rcv hout hnodes]
    exact accept_ne_nodes hin
  · intro buf len ncdSkey hout herr
    have hmap := camd35PushIn_message rcv hout hnodes ncdSkey
    rw [herr] at hmap
    exact accept_ne_nodes hin hmap.symm

/-- A server that lets local generated words travel two hops and ordinary words one. -/
def account : HopSetting := ⟨1, 2⟩

def server : Receiver where
  hops := ⟨none, some account⟩
  checkCacheexFilter := fun _ => true
  ecmFilter := fun _ => false
  lgOnlyIn := fun _ => false

theorem push_hops_agree_local :
    (∀ buf len peerNodeId, ccPushOut (.replicate 8 0xB2) pushedEcm = some (buf, len) →
      ccPushIn server peerNodeId buf ≠ .error .nodes) ∧
    (∀ buf len ncdSkey, camd35PushOut (.replicate 8 0xB2) pushedEcm = some (buf, len) →
      camd35PushIn server ncdSkey buf ≠ .error .nodes) :=
  @push_hops_agree ⟨some account, none⟩ server (by decide) (by decide) pushedEcm (by decide) _

end Hops

end NCam.Cacheex.Push
