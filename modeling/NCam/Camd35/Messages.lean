import NCam.Camd35.RequestEmm
import NCam.Cacheex.Filter
import NCam.Cacheex.RoundTrip

/-! The messages of the camd35 senders, and which of them `camd35_recv` gives to the other side as they are. -/
namespace NCam.Camd35

open NCam.Lib.Memory NCam.Util
open NCam.Ecm (E_NOTFOUND E_FAKE E_INVALID E_STOPPED)
open NCam.Cacheex.Push (NodeId PushedEcm camd35PushOut pushSize)
open NCam.Cacheex.Filter (Cecspvaluetab FilterClient camd35SendPushFilter)

/-- The request of a reader; `ecmlen` is the length of `ecm`. -/
structure EcmRequest where
  srvid : BitVec 16
  caid : BitVec 16
  prid : BitVec 32
  idx : BitVec 16
  ecm : List Byte

/-- `emmlen` is the length of `emm`. -/
structure EmmPacket where
  caid : Vector Byte 2
  provid : Vector Byte 4
  emm : List Byte

/-- The client that gets an answer. -/
structure DcwClient where
  c35Suppresscmd08 : Bool
  c35Extmode : ℕ
  cacheexMode : Bool

/-- The answered request. `camd35_process_ecm` keeps the message of commands 0 and 3 in `src_data`. -/
structure DcwRequest where
  rc : ℕ
  cw : Vector Byte 16
  localgenerated : Bool
  cwcCycletime : Byte
  cwcNextCwCycle : Byte
  ecm0 : Byte
  srcData : ℕ → Byte
  srcData_command : srcData 0 = 0 ∨ srcData 0 = 3

/-- The message of `camd35_send_ecm`. -/
def ecmMessage (er : EcmRequest) : ℕ → Byte :=
  let buf := put (fun _ => 0) 20 (List.replicate (er.ecm.length + 15) 0xFF)
  let buf := put buf 1 [.ofNat 8 er.ecm.length]
  let buf := i2bBuf 2 (er.srvid.setWidth 32) buf 8
  let buf := i2bBuf 2 (er.caid.setWidth 32) buf 10
  let buf := i2bBuf 4 er.prid buf 12
  let buf := i2bBuf 2 (er.idx.setWidth 32) buf 16
  let buf := put buf 18 [0xFF, 0xFF]
  put buf 20 er.ecm

/-- The message of `camd35_send_emm`. -/
def emmMessage (ep : EmmPacket) : ℕ → Byte :=
  let buf := put (fun _ => 0) 20 (List.replicate (ep.emm.length + 15) 0xFF)
  let buf := put buf 0 [0x06, .ofNat 8 ep.emm.length]
  let buf := put buf 10 ep.caid.toList
  let buf := put buf 12 ep.provid.toList
  put buf 20 ep.emm

/-- `camd35_cacheex_init_dcw`. -/
def camd35CacheexInitDcw (client : DcwClient) (er : DcwRequest) (buf : ℕ → Byte) : ℕ → Byte :=
  if client.cacheexMode ∧ er.cwcCycletime ≠ 0 ∧ er.cwcNextCwCycle < 2 then
    let buf := put buf 18 [if er.cwcNextCwCycle = 1 then er.cwcCycletime ||| 0x80 else er.cwcCycletime]
    put buf 19 [er.ecm0]
  else buf

/-- The request was answered with a control word. -/
def DcwRequest.found (er : DcwRequest) : Bool := er.rc < E_NOTFOUND ∨ er.rc = E_FAKE

/-- The message of `camd35_send_dcw`, with the length of its body. -/
def dcwMessage (client : DcwClient) (er : DcwRequest) : Sent :=
  let buf := er.srcData
  if er.rc = E_INVALID ∧ !client.c35Suppresscmd08 then
    let buf := put buf 0 [0x08, 2]
    let buf := put buf 20 [0, 0]
    ⟨put buf 22 [.ofNat 8 er.rc], 0, 2⟩
  else if er.rc = E_STOPPED then
    let buf := put buf 0 [0x08, 2]
    ⟨put buf 20 [0, 0xFF], 0, 2⟩
  else if er.found then
    let buf := if buf 0 = 3 then put buf (20 + 16) (slice buf (20 + (buf 1).toNat) 0x34) else buf
    let buf := put buf 0
      [if er.localgenerated ∧ client.c35Extmode > 1 then buf 0 + 0x51 else buf 0 + 1]
    let buf := put buf 1 [16]
    let buf := camd35CacheexInitDcw client er buf
    ⟨put buf 20 er.cw.toList, 0, 16⟩
  else ⟨put buf 0 [0x44, 0], 0, 0⟩

/-- The messages of `camd35_cacheex_push_request_remote_id` and `camd35_cacheex_push_send_own_id`. -/
def idMessage (command : Byte) (camd35NodeId : NodeId) : ℕ → Byte :=
  let buf := put (fun _ => 0) 0 [command, 12, 0]
  put buf 20 camd35NodeId.toList

/-- What the senders send: requests, EMMs, answers, card data (the first or the second of its messages) and
the cache exchange: pushes, filters, and the request and the answer of the node id. -/
inductive Message
  | ecm (er : EcmRequest)
  | emm (ep : EmmPacket)
  | dcw (client : DcwClient) (er : DcwRequest)
  | card (er : EmmRequest) (rdr : AuReader) (second : Bool)
  | push (camd35NodeId : NodeId) (er : PushedEcm)
  | pushFilter (cfg : Cecspvaluetab) (cl : FilterClient) (mode : ℕ)
  | requestRemoteId (camd35NodeId : NodeId)
  | sendOwnId (camd35NodeId : NodeId)

/-- The message as it is given to `camd35_send`; `none` where the sender gives up. -/
def Message.sent : Message → Option Sent
  | .ecm er => some ⟨ecmMessage er, 0, er.ecm.length⟩
  | .emm ep => some ⟨emmMessage ep, 0, ep.emm.length⟩
  | .dcw client er => some (dcwMessage client er)
  | .card er rdr false => some ⟨cardMessage er rdr, 0, 111⟩
  | .card er rdr true => some ⟨put (cardMessage er rdr) 1 [112], 0, 112⟩
  | .push camd35NodeId er => (camd35PushOut camd35NodeId er).map fun (buf, size) => ⟨buf, size, size⟩
  | .pushFilter cfg cl mode => (camd35SendPushFilter cfg cl mode).map fun buf => ⟨buf, 242, 242⟩
  | .requestRemoteId camd35NodeId => some ⟨idMessage 0x3d camd35NodeId, 12, 12⟩
  | .sendOwnId camd35NodeId => some ⟨idMessage 0x3e camd35NodeId, 12, 12⟩

/-- The length in the header of a section; what is behind a short one was filled with 0xFF. -/
def sctLen (ecm : List Byte) : ℕ :=
  (((ecm.getD 1 0xFF &&& 0x0F).toNat <<< 8) ||| (ecm.getD 2 0xFF).toNat) + 3

/-- An answer to a cascading request, without the flag for a local control word. -/
def Cascades (client : DcwClient) (er : DcwRequest) : Prop :=
  er.srcData 0 = 3 ∧ ¬ (er.rc = E_INVALID ∧ !client.c35Suppresscmd08) ∧ er.rc ≠ E_STOPPED ∧
    er.found = true ∧ ¬ (er.localgenerated = true ∧ client.c35Extmode > 1)

/-- When a message reaches the other side: a section that tells its own length, and a packet that fits into
the buffer of the receiver; an EMM whose length fits into one byte; no cascading answer. -/
def Message.Fits (p : Peer) : Message → Prop
  | .ecm er => sctLen er.ecm = er.ecm.length ∧ Room p (20 + er.ecm.length)
  | .emm ep => ep.emm.length ≤ 255
  | .dcw client er => ¬ Cascades client er
  | .push _ er => Room p (20 + pushSize er)
  | _ => True

section Delivery

variable {crc32 : Crc32} {cl : Sender} {p : Peer}

private theorem room_of_le {l : ℕ} (h : l ≤ 1008) (hl : 0 < l) : Room p l := by
  unfold Room
  rw [boundary_eq]
  split_ifs <;> omega

/-- A message that leaves its length to its second byte. -/
private theorem delivers_byte (hs : Session cl p) {m : Sent} {cmd len : Byte} (hcmd : m.buf 0 = cmd)
    (hlen : m.buf 1 = len) (hbuflen : m.buflen = 0) (h0 : cmd ≠ 0) (h34 : cmd ≠ 3 ∧ cmd ≠ 4)
    (hpush : ¬ (cmd = 0x40 ∨ cmd = 0x41 ∨ cmd = 0x42 ∨ cmd = 0x3D ∨ cmd = 0x3E ∨ cmd = 0x3F)) :
    Delivers crc32 cl p m ↔ len.toNat = m.len := by
  have hann : announced m.buf = len.toNat := by
    unfold announced
    rw [hcmd, if_neg h0, if_neg hpush, hlen]
  have hbody : bodyLen m.buf m.buflen = len.toNat := by
    unfold bodyLen
    rw [if_pos hbuflen, hcmd, if_neg h0, hlen]
  by_cases h : len.toNat = m.len
  · have htail : tailLen m.buf = 0 := by
      unfold tailLen
      rw [hcmd, if_neg (not_or.mpr h34)]
    have hlt := len.isLt
    rw [delivers_iff_room hs (hbody.trans h) (hann.trans h) (hcmd ▸ h34.2), htail]
    exact iff_of_true (room_of_le (by omega) (by omega)) h
  · exact iff_of_false (not_delivers_of_len hs (hann.trans hbody.symm) (hbody ▸ h)) h

private theorem ecmMessage_section (er : EcmRequest) :
    ecmMessage er 0 = 0 ∧ sectionLen (ecmMessage er) = sctLen er.ecm := by
  have hfill : ∀ k, k < 3 → 1 ≤ k → ecmMessage er (20 + k) = er.ecm.getD k 0xFF := by
    intro k hk hk'
    unfold ecmMessage
    rw [put_getD, put_of_le (by simp), i2bBuf, put_of_le (by simp; omega), i2bBuf,
      put_of_le (by simp; omega), i2bBuf, put_of_le (by simp; omega), i2bBuf,
      put_of_le (by simp; omega), put_of_le (by simp; omega), put_at (by simp; omega),
      List.getElem_replicate]
  constructor
  · unfold ecmMessage
    rw [put_of_lt (by omega), put_of_lt (by omega), i2bBuf, put_of_lt (by omega), i2bBuf,
      put_of_lt (by omega), i2bBuf, put_of_lt (by omega), i2bBuf, put_of_lt (by omega),
      put_of_lt (by omega), put_of_lt (by omega)]
  · unfold sectionLen sctLen
    rw [hfill 1 (by omega) (by omega), hfill 2 (by omega) (by omega)]

private theorem delivers_ecm (hs : Session cl p) (er : EcmRequest) :
    Delivers crc32 cl p ⟨ecmMessage er, 0, er.ecm.length⟩ ↔ (Message.ecm er).Fits p := by
  obtain ⟨h0, hsection⟩ := ecmMessage_section er
  have hbody : bodyLen (ecmMessage er) 0 = sctLen er.ecm := by
    unfold bodyLen
    rw [if_pos rfl, if_pos h0, hsection]
  have hann : announced (ecmMessage er) = sctLen er.ecm := by
    unfold announced
    rw [if_pos h0, hsection]
  have h4 : ecmMessage er 0 ≠ 4 := by
    rw [h0]
    decide
  have htail : tailLen (ecmMessage er) = 0 := by
    unfold tailLen
    rw [h0]
    rfl
  unfold Message.Fits
  by_cases hlen : sctLen er.ecm = er.ecm.length
  · have hroom := @delivers_iff_room crc32 _ _ ⟨ecmMessage er, 0, er.ecm.length⟩ hs
      (hbody.trans hlen) (hann.trans hlen) h4
    rw [hroom]
    change Room p (20 + tailLen (ecmMessage er) + er.ecm.length) ↔ _
    rw [htail]
    exact ⟨fun h => ⟨hlen, h⟩, fun h => h.2⟩
  · refine iff_of_false (not_delivers_of_len hs (hann.trans hbody.symm) ?_) fun h => hlen h.1
    change bodyLen (ecmMessage er) 0 ≠ er.ecm.length
    rwa [hbody]

private theorem delivers_emm (hs : Session cl p) (ep : EmmPacket) :
    Delivers crc32 cl p ⟨emmMessage ep, 0, ep.emm.length⟩ ↔ (Message.emm ep).Fits p := by
  have hcells : emmMessage ep 0 = 0x06 ∧ emmMessage ep 1 = .ofNat 8 ep.emm.length := by
    unfold emmMessage
    constructor
    · rw [put_of_lt (by omega), put_of_lt (by omega), put_of_lt (by omega)]
      rfl
    · rw [put_of_lt (by omega), put_of_lt (by omega), put_of_lt (by omega)]
      rfl
  rw [delivers_byte hs hcells.1 hcells.2 rfl (by decide) (by decide) (by decide)]
  change (BitVec.ofNat 8 ep.emm.length).toNat = ep.emm.length ↔ ep.emm.length ≤ 255
  rw [BitVec.toNat_ofNat]
  omega

private theorem putProvider_of_lt {four : Bool} {rdr : Card} {buf : ℕ → Byte} {i j : ℕ} (hj : j < 48) :
    putProvider four rdr buf i j = buf j := by
  unfold putProvider
  split_ifs
  · rw [put_of_lt (by omega), put_of_lt (by omega)]
  · rw [put_of_lt (by omega), put_of_lt (by omega), put_of_lt (by omega)]

theorem cardMessage_head (er : EmmRequest) (rdr : AuReader) :
    cardMessage er rdr 0 = 5 ∧ cardMessage er rdr 1 = 111 := by
  have hcells : ∀ i < 2, cardMessage er rdr i = cardHead er rdr i := by
    intro i hi
    unfold cardMessage
    rw [put_of_lt (by omega)]
    split_ifs
    · unfold putCard putFlags putProviders putCardHead
      rw [put_of_lt (by omega), put_of_lt (by omega), put_of_lt (by omega), put_of_lt (by omega),
        foldl_cell fun _ _ _ => putProvider_of_lt (by omega), put_of_lt (by omega),
        put_of_lt (by omega), put_of_lt (by omega), put_of_lt (by omega)]
    · unfold putNoCard
      rw [put_of_lt (by omega), put_of_lt (by omega), put_of_lt (by omega), put_of_lt (by omega),
        put_of_lt (by omega)]
  rw [hcells 0 (by omega), hcells 1 (by omega)]
  exact ⟨rfl, rfl⟩

private theorem delivers_card (hs : Session cl p) (er : EmmRequest) (rdr : AuReader) :
    Delivers crc32 cl p ⟨cardMessage er rdr, 0, 111⟩ ∧
      Delivers crc32 cl p ⟨put (cardMessage er rdr) 1 [112], 0, 112⟩ := by
  obtain ⟨h0, h1⟩ := cardMessage_head er rdr
  constructor
  · rw [delivers_byte hs h0 h1 rfl (by decide) (by decide) (by decide)]
    rfl
  · have h0' : put (cardMessage er rdr) 1 [112] 0 = 5 := (put_of_lt (by omega)).trans h0
    have h1' : put (cardMessage er rdr) 1 [112] 1 = 112 := put_self
    rw [delivers_byte hs h0' h1' rfl (by decide) (by decide) (by decide)]
    rfl

/-- A message of the cache exchange, with the length that it is sent with in its second and third byte. -/
private theorem delivers_size (hs : Session cl p) {m : Sent} {cmd : Byte} (hcmd : m.buf 0 = cmd)
    (hpush : cmd = 0x3D ∨ cmd = 0x3E ∨ cmd = 0x3F) (hlen : m.len = m.buflen) (hpos : 0 < m.len)
    (hsize : (m.buf 1).toNat ||| ((m.buf 2).toNat <<< 8) = m.len) :
    Delivers crc32 cl p m ↔ Room p (20 + m.len) := by
  have hne : m.buf 0 ≠ 0 ∧ m.buf 0 ≠ 3 ∧ m.buf 0 ≠ 4 := by
    rw [hcmd]
    rcases hpush with rfl | rfl | rfl <;> decide
  have hann : announced m.buf = m.len := by
    unfold announced
    rw [if_neg hne.1, if_pos (by rw [hcmd]; exact Or.inr (Or.inr (Or.inr hpush))), hsize]
  have hbody : bodyLen m.buf m.buflen = m.len := by
    unfold bodyLen
    rw [if_neg (by omega), hlen]
  have htail : tailLen m.buf = 0 := by
    unfold tailLen
    rw [if_neg (not_or.mpr hne.2)]
  rw [delivers_iff_room hs hbody hann hne.2.2, htail]

private theorem size_bytes {size : ℕ} (h : size < 2 ^ 16) :
    ((BitVec.ofNat 32 size).setWidth 8).toNat |||
      (((BitVec.ofNat 32 size >>> 8).setWidth 8).toNat <<< 8) = size := by
  have hlow : ((BitVec.ofNat 32 size).setWidth 8).toNat = size % 256 := by
    rw [BitVec.toNat_setWidth, BitVec.toNat_ofNat]
    omega
  have hhigh : ((BitVec.ofNat 32 size >>> 8).setWidth 8).toNat = size / 256 := by
    rw [BitVec.toNat_setWidth, BitVec.toNat_ushiftRight, BitVec.toNat_ofNat, Nat.shiftRight_eq_div_pow]
    omega
  rw [hlow, hhigh, Nat.or_comm, ← Nat.shiftLeft_add_eq_or_of_lt (by omega), Nat.shiftLeft_eq]
  omega

private theorem delivers_push (hs : Session cl p) {camd35NodeId : NodeId} {er : PushedEcm}
    {buf : ℕ → Byte} {size : ℕ} (h : camd35PushOut camd35NodeId er = some (buf, size)) :
    Delivers crc32 cl p ⟨buf, size, size⟩ ↔ Room p (20 + pushSize er) := by
  obtain ⟨-, hhead, -⟩ := Cacheex.Push.camd35PushOut_carries h
  simp only [holds_cons, Nat.reduceAdd] at hhead
  have hcmd : buf 0 = 0x3f ∧ size = pushSize er := by
    unfold camd35PushOut at h
    dsimp only at h
    split_ifs at h
    rw [Cacheex.Push.writeEcm_eq] at h
    obtain ⟨rfl, rfl⟩ := Prod.mk.inj (Option.some.inj h)
    refine ⟨?_, rfl⟩
    rw [put_of_lt (by omega), put_of_lt (by omega), put_of_lt (by omega), i2bBuf,
      put_of_lt (by omega), i2bBuf, put_of_lt (by omega), i2bBuf, put_of_lt (by omega),
      put_of_lt (by omega), put_of_lt (by omega), put_of_lt (by omega), put_self]
  obtain ⟨hcmd, rfl⟩ := hcmd
  rcases Nat.lt_or_ge (pushSize er) (2 ^ 16) with hlt | hge
  · have hsize : (buf 1).toNat ||| ((buf 2).toNat <<< 8) = pushSize er := by
      rw [hhead.1, hhead.2.1, size_bytes hlt]
    have hpos : 0 < pushSize er := by
      unfold pushSize
      omega
    exact delivers_size (m := ⟨buf, pushSize er, pushSize er⟩) hs hcmd (by decide) rfl hpos hsize
  · refine iff_of_false (not_delivers_of_long hge) fun hroom => ?_
    have hle := le_boundary (20 + pushSize er)
    unfold Room at hroom
    split_ifs at hroom <;> omega

private theorem delivers_id (hs : Session cl p) {cmd : Byte} (hcmd : cmd = 0x3d ∨ cmd = 0x3e)
    (camd35NodeId : NodeId) : Delivers crc32 cl p ⟨idMessage cmd camd35NodeId, 12, 12⟩ := by
  have hcells : ∀ i < 3, idMessage cmd camd35NodeId i = [cmd, 12, 0].getD i 0 := by
    intro i hi
    unfold idMessage
    rw [put_of_lt (by omega)]
    have hput := @put_getD _ (fun _ => 0) 0 [cmd, 12, 0] i
    rwa [Nat.zero_add] at hput
  have hlen : (idMessage cmd camd35NodeId 1).toNat |||
      ((idMessage cmd camd35NodeId 2).toNat <<< 8) = 12 := by
    rw [hcells 1 (by omega), hcells 2 (by omega)]
    change (12 : Byte).toNat ||| ((0 : Byte).toNat <<< 8) = 12
    decide
  rw [delivers_size (m := ⟨idMessage cmd camd35NodeId, 12, 12⟩) hs (hcells 0 (by omega))
    (by rcases hcmd with rfl | rfl <;> decide) rfl (show 0 < 12 by decide) hlen]
  exact room_of_le (show 20 + 12 ≤ 1008 by decide) (show 0 < 20 + 12 by decide)

private theorem delivers_filter (hs : Session cl p) {cfg : Cecspvaluetab} {fcl : FilterClient} {mode : ℕ}
    {buf : ℕ → Byte} (h : camd35SendPushFilter cfg fcl mode = some buf) :
    Delivers crc32 cl p ⟨buf, 242, 242⟩ := by
  obtain ⟨filter, -, rfl⟩ := Option.map_eq_some_iff.mp h
  have hcells : ∀ i < 2, Cacheex.Filter.putFilter 15 20 filter (put (fun _ => 0) 0 [0x3c, 0xf2]) i =
      put (fun _ => 0) 0 [0x3c, 0xf2] i :=
    fun i hi => Cacheex.Filter.putFilter_of_lt (by omega)
  have hann : announced (Cacheex.Filter.putFilter 15 20 filter (put (fun _ => 0) 0 [0x3c, 0xf2])) = 242 := by
    unfold announced
    rw [hcells 0 (by omega), hcells 1 (by omega)]
    rfl
  have htail : tailLen (Cacheex.Filter.putFilter 15 20 filter (put (fun _ => 0) 0 [0x3c, 0xf2])) = 0 := by
    unfold tailLen
    rw [hcells 0 (by omega)]
    rfl
  have h4 : Cacheex.Filter.putFilter 15 20 filter (put (fun _ => 0) 0 [0x3c, 0xf2]) 0 ≠ 4 := by
    rw [hcells 0 (by omega)]
    decide
  rw [delivers_iff_room hs rfl hann h4, htail]
  exact room_of_le (show 20 + 0 + 242 ≤ 1008 by decide) (show 0 < 20 + 0 + 242 by decide)

private theorem initDcw_of_lt {client : DcwClient} {er : DcwRequest} {buf : ℕ → Byte} {i : ℕ}
    (hi : i < 18) : camd35CacheexInitDcw client er buf i = buf i := by
  unfold camd35CacheexInitDcw
  by_cases hcycle : client.cacheexMode = true ∧ er.cwcCycletime ≠ 0 ∧ er.cwcNextCwCycle < 2
  · rw [if_pos hcycle, put_of_lt (by omega), put_of_lt hi]
  · rw [if_neg hcycle]

private theorem delivers_dcw (hs : Session cl p) (client : DcwClient) (er : DcwRequest) :
    Delivers crc32 cl p (dcwMessage client er) ↔ (Message.dcw client er).Fits p := by
  unfold Message.Fits
  by_cases hinvalid : er.rc = E_INVALID ∧ !client.c35Suppresscmd08
  · have hmsg : dcwMessage client er =
        ⟨put (put (put er.srcData 0 [0x08, 2]) 20 [0, 0]) 22 [.ofNat 8 er.rc], 0, 2⟩ := by
      unfold dcwMessage
      rw [if_pos hinvalid]
    have h0 : (dcwMessage client er).buf 0 = 0x08 := by
      rw [hmsg]
      rfl
    have h1 : (dcwMessage client er).buf 1 = 2 := by
      rw [hmsg]
      rfl
    rw [delivers_byte hs h0 h1 (by rw [hmsg]) (by decide) (by decide) (by decide)]
    refine iff_of_true (by rw [hmsg]; rfl) fun hcascade => hcascade.2.1 hinvalid
  by_cases hstopped : er.rc = E_STOPPED
  · have hmsg : dcwMessage client er = ⟨put (put er.srcData 0 [0x08, 2]) 20 [0, 0xFF], 0, 2⟩ := by
      unfold dcwMessage
      rw [if_neg hinvalid, if_pos hstopped]
    have h0 : (dcwMessage client er).buf 0 = 0x08 := by
      rw [hmsg]
      rfl
    have h1 : (dcwMessage client er).buf 1 = 2 := by
      rw [hmsg]
      rfl
    rw [delivers_byte hs h0 h1 (by rw [hmsg]) (by decide) (by decide) (by decide)]
    refine iff_of_true (by rw [hmsg]; rfl) fun hcascade => hcascade.2.2.1 hstopped
  by_cases hfound : er.found = true
  · have hbuf : (dcwMessage client er).buf 0 =
        (if er.localgenerated ∧ client.c35Extmode > 1 then er.srcData 0 + 0x51 else er.srcData 0 + 1) ∧
        (dcwMessage client er).buf 1 = 16 ∧ (dcwMessage client er).buflen = 0 ∧
        (dcwMessage client er).len = 16 := by
      unfold dcwMessage
      rw [if_neg hinvalid, if_neg hstopped, if_pos hfound]
      refine ⟨?_, ?_, rfl, rfl⟩
      · dsimp only
        rw [put_of_lt (by omega), initDcw_of_lt (by omega), put_of_lt (by omega), put_self]
        by_cases h3 : er.srcData 0 = 3
        · rw [if_pos h3, put_of_lt (by omega)]
        · rw [if_neg h3]
      · dsimp only
        rw [put_of_lt (by omega), initDcw_of_lt (by omega), put_self]
    obtain ⟨h0, h1, hbuflen, hlen⟩ := hbuf
    by_cases hlocal : er.localgenerated = true ∧ client.c35Extmode > 1
    · rw [if_pos hlocal] at h0
      refine iff_of_true ?_ fun hcascade => hcascade.2.2.2.2 hlocal
      rcases er.srcData_command with hsrc | hsrc
      · rw [hsrc] at h0
        rw [delivers_byte hs h0 h1 hbuflen (by decide) (by decide) (by decide), hlen]
        rfl
      · rw [hsrc] at h0
        rw [delivers_byte hs h0 h1 hbuflen (by decide) (by decide) (by decide), hlen]
        rfl
    · rw [if_neg hlocal] at h0
      rcases er.srcData_command with hsrc | hsrc
      · rw [hsrc] at h0
        refine iff_of_true ?_ fun hcascade => ?_
        · rw [delivers_byte hs h0 h1 hbuflen (by decide) (by decide) (by decide), hlen]
          rfl
        · have h3 := hcascade.1
          rw [hsrc] at h3
          exact absurd h3 (by decide)
      · have hcascade : Cascades client er := ⟨hsrc, hinvalid, hstopped, hfound, hlocal⟩
        rw [hsrc] at h0
        have h4 : (dcwMessage client er).buf 0 = 4 := h0
        refine iff_of_false (not_delivers_cascade hs ?_ h4) fun hnot => hnot hcascade
        unfold announced bodyLen
        rw [h4, hbuflen]
        rfl
  · have hmsg : dcwMessage client er = ⟨put er.srcData 0 [0x44, 0], 0, 0⟩ := by
      unfold dcwMessage
      rw [if_neg hinvalid, if_neg hstopped, if_neg hfound]
    have h0 : (dcwMessage client er).buf 0 = 0x44 := by
      rw [hmsg]
      rfl
    have h1 : (dcwMessage client er).buf 1 = 0 := by
      rw [hmsg]
      rfl
    rw [delivers_byte hs h0 h1 (by rw [hmsg]) (by decide) (by decide) (by decide)]
    refine iff_of_true (by rw [hmsg]; rfl) fun hcascade => hfound hcascade.2.2.2.1

/-- Which of the messages that the senders build reach the other side. -/
theorem delivers_iff (hs : Session cl p) (m : Message) {s : Sent} (h : m.sent = some s) :
    Delivers crc32 cl p s ↔ m.Fits p := by
  cases m with
  | ecm er =>
    obtain rfl := Option.some.inj h
    exact delivers_ecm hs er
  | emm ep =>
    obtain rfl := Option.some.inj h
    exact delivers_emm hs ep
  | dcw client er =>
    obtain rfl := Option.some.inj h
    exact delivers_dcw hs client er
  | card er rdr second =>
    refine iff_of_true ?_ trivial
    cases second with
    | false =>
      obtain rfl := Option.some.inj h
      exact (delivers_card hs er rdr).1
    | true =>
      obtain rfl := Option.some.inj h
      exact (delivers_card hs er rdr).2
  | push camd35NodeId er =>
    obtain ⟨⟨buf, size⟩, hpush, rfl⟩ := Option.map_eq_some_iff.mp h
    exact delivers_push hs hpush
  | pushFilter cfg fcl mode =>
    obtain ⟨buf, hfilter, rfl⟩ := Option.map_eq_some_iff.mp h
    exact iff_of_true (delivers_filter hs hfilter) trivial
  | requestRemoteId camd35NodeId =>
    obtain rfl := Option.some.inj h
    exact iff_of_true (delivers_id hs (Or.inl rfl) camd35NodeId) trivial
  | sendOwnId camd35NodeId =>
    obtain rfl := Option.some.inj h
    exact iff_of_true (delivers_id hs (Or.inr rfl) camd35NodeId) trivial

end Delivery

/-- A section of 300 bytes. -/
private def longEcm : EcmRequest := ⟨1, 0x500, 0, 7, [0x80, 0x71, 0x29] ++ List.replicate 297 0⟩

theorem delivers_longEcm : ∃ s, (Message.ecm longEcm).sent = some s ∧
    Delivers (fun _ => 0) demoSender demoPeer s := by
  have hlen : longEcm.ecm.length = 300 := by
    unfold longEcm
    dsimp only
    rw [List.length_append, List.length_replicate]
    rfl
  refine ⟨_, rfl, (delivers_iff demoSession (.ecm longEcm) rfl).mpr ⟨?_, ?_⟩⟩
  · rw [hlen]
    change (((0x71 : Byte) &&& 0x0F).toNat <<< 8 ||| (0x29 : Byte).toNat) + 3 = 300
    decide
  · rw [hlen]
    exact room_of_le (by decide) (by decide)

private def longEmm : EmmPacket := ⟨#v[1, 0], .replicate 4 0, List.replicate 256 0⟩

/-- The length of an EMM of 256 bytes is sent as 0. -/
theorem not_delivers_longEmm : ¬ ∀ crc32 cl p, Session cl p → ∀ (m : Message) s, m.sent = some s →
    Delivers crc32 cl p s := by
  intro h
  have hlen : longEmm.emm.length = 256 := List.length_replicate
  have hdel := h (fun _ => 0) demoSender demoPeer demoSession (.emm longEmm) _ rfl
  have hfits := (delivers_emm demoSession longEmm).mp hdel
  change longEmm.emm.length ≤ 255 at hfits
  omega

end NCam.Camd35
