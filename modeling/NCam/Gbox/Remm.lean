import NCam.Camd35.CardData
import NCam.Gbox.ForwardEcm

/-! Remote EMMs between gbox peers: the card data of a request, and the EMMs that come back. When the reader of the
peer gets the card and the EMM arrives. -/
namespace NCam.Gbox

open NCam.Camd35 NCam.Lib.Memory NCam.Util

def MAX_EMM_SIZE : ℕ := 1024
def MSG_REM_EMM : BitVec 32 := 0x49BF
def MSGID_REMM_REQ : Byte := 1
def MSGID_REMM_DATA : Byte := 2

/-- The client that asks for an ECM, with the caid it asked for last. -/
structure RemmClient extends AuClient where
  lastcaid : BitVec 16

/-- The reader behind a peer, and the peer for which it collects EMMs. -/
structure RemmReader extends Card where
  gboxRemmPeer : BitVec 16

/-- An EMM in its array. -/
structure EmmPacket where
  caid : Vector Byte 2
  provid : Vector Byte 4
  emm : ℕ → Byte
  emmlen : ℕ
  emmlen_le : emmlen ≤ MAX_EMM_SIZE

section Request

/-- A card without a caid is announced with that of the request for Bulcrypt. -/
def remmCaid (aureader : AuReader) (er : EmmRequest) : BitVec 16 :=
  if aureader.caid = 0 ∧ caidIsBulcrypt er.caid then er.caid else aureader.caid

/-- Only these need global EMMs. -/
def needsGlobals (caid : BitVec 16) : Bool := caid = 0x0D96 ∨ caid = 0x0D98

/-- The loop body for provider `i`. -/
def putRemmProvider (four : Bool) (rdr : Card) (mbuf : ℕ → Byte) (i : ℕ) : ℕ → Byte :=
  if four then
    let mbuf := put mbuf (38 + i * 5) [(rdr.prid i)[0]!]
    put mbuf (40 + i * 5) [(rdr.prid i)[1]!, (rdr.prid i)[2]!, (rdr.prid i)[3]!]
  else
    let mbuf := put mbuf (38 + i * 5) [(rdr.prid i)[2]!]
    let mbuf := put mbuf (39 + i * 5) [(rdr.prid i)[3]!]
    put mbuf (40 + i * 5) (rdr.sa i).toList

/-- The header of the message. -/
def remmHead (loc : LocalGbox) (peer : GboxPeer) (er : EmmRequest) (caid : BitVec 16)
    (aureader : AuReader) : ℕ → Byte :=
  let mbuf := (gboxMessageHeader MSG_REM_EMM peer.password loc.password).foldl
    (fun mbuf w => put mbuf w.1 w.2) fun _ => 0
  let mbuf := put mbuf 10 [MSGID_REMM_REQ]
  let mbuf := i2bBuf 2 (peer.id.setWidth 32) mbuf 11
  let mbuf := i2bBuf 2 (loc.id.setWidth 32) mbuf 13
  let mbuf := i2bBuf 2 (er.srvid.setWidth 32) mbuf 15
  let mbuf := i2bBuf 4 (if aureader.auprovid ≠ 0 then
    (if aureader.auprovid ≠ er.prid then aureader.auprovid else er.prid) else er.prid) mbuf 17
  let mbuf := i2bBuf 2 (er.pid.setWidth 32) mbuf 21
  let mbuf := i2bBuf 2 (caid.setWidth 32) mbuf 23
  let mbuf := put mbuf 29 (aureader.hexserial.toList.take 6)
  put mbuf 37 [.ofNat 8 aureader.nprov]

/-- The loop over the providers leaves after the sixteenth. -/
def putRemmProviders (caid : BitVec 16) (aureader : AuReader) (mbuf : ℕ → Byte) : ℕ → Byte :=
  (List.range (min aureader.nprov 16)).foldl (putRemmProvider (fourBytes caid) aureader.toCard) mbuf

def putRemmFlags (caid : BitVec 16) (aureader : AuReader) (mbuf : ℕ → Byte) : ℕ → Byte :=
  let mbuf := put mbuf 117 [(aureader.blockemm ||| 0x80).setWidth 8]
  let mbuf := put mbuf 118 [if needsGlobals caid then emmFlag aureader EMM_GLOBAL else 0]
  let mbuf := put mbuf 119 [emmFlag aureader EMM_SHARED]
  let mbuf := put mbuf 120 [emmFlag aureader EMM_UNIQUE]
  put mbuf 121 [emmFlag aureader EMM_UNKNOWN]

/-- The 122 bytes of a request for EMMs. -/
def remmMessage (loc : LocalGbox) (peer : GboxPeer) (er : EmmRequest) (aureader : AuReader) : ℕ → Byte :=
  let caid := remmCaid aureader er
  putRemmFlags caid aureader (putRemmProviders caid aureader (remmHead loc peer er caid aureader))

/-- `gbox_send_remm_req`: the client afterwards and the message that is sent. -/
def gboxSendRemmReq (emmReaderMatch : AuReader → BitVec 16 → BitVec 32 → Bool) (loc : LocalGbox)
    (peer : GboxPeer) (er : EmmRequest) (cl : RemmClient) : RemmClient × Option (ℕ → Byte) :=
  match selectAureader emmReaderMatch er cl.toAuClient with
  | none => (cl, none)
  | some aureader =>
    let cl := { cl with disableCounter := if cl.lastcaid ≠ er.caid then 0 else cl.disableCounter }
    let cl := { cl with lastcaid := er.caid, disableCounter := cl.disableCounter + 1 }
    if ¬ peer.gboxForceRemm ∧ cl.disableCounter < 6 then (cl, none)
    else if cl.lastserial = aureader.hexserial then ({ cl with disableCounter := 0 }, none)
    else
      let cl := { cl with lastserial := aureader.hexserial }
      if remmCaid aureader er ≠ 0 then
        ({ cl with disableCounter := 0 }, some (remmMessage loc peer er aureader))
      else (cl, none)

/-- What the receiver of a request answers. -/
inductive RemmAck
  | peerAuBlocked
  | peerAuReady
  | peerAuUnready
  deriving DecidableEq

/-- What came of a message. -/
inductive RemmEvent
  | ignored
  | request (rdr : RemmReader) (ack : RemmAck) (caid : BitVec 16) (provid : BitVec 32) (dvbapiStat : Byte)
  | emm (ep : EmmPacket)

/-- The loop body of the receiver for provider `i`; outside the arrays it gives `none`. -/
def getRemmProvider (buf : ℕ → Byte) (rdr : Card) (i : ℕ) : Option Card :=
  if CS_MAXPROV ≤ i then none
  else if fourBytes rdr.caid then
    let prid :=
      #v[buf (38 + i * 5), buf (40 + i * 5), buf (40 + i * 5 + 1), buf (40 + i * 5 + 2)]
    some { rdr with prid := Function.update rdr.prid i prid }
  else
    let prid := #v[(rdr.prid i)[0]!, (rdr.prid i)[1]!, buf (38 + i * 5), buf (39 + i * 5)]
    let sa :=
      #v[buf (40 + i * 5), buf (40 + i * 5 + 1), buf (40 + i * 5 + 2), buf (40 + i * 5 + 3)]
    some { rdr with prid := Function.update rdr.prid i prid, sa := Function.update rdr.sa i sa }

/-- What the flag bytes say. -/
def readRemmBlockemm (buf : ℕ → Byte) : BitVec 32 :=
  (if buf 117 = 1 then 0 else 0x80) ||| (if buf 118 = 1 then 0 else EMM_GLOBAL) |||
    (if buf 119 = 1 then 0 else EMM_SHARED) ||| (if buf 120 = 1 then 0 else EMM_UNIQUE) |||
    (if buf 121 = 1 then 0 else EMM_UNKNOWN)

/-- What the receiver knows: the id of the peer, the peers whose requests it accepts, and what
`check_dvbapi_au_ready` found. -/
structure RemmServer where
  peerId : BitVec 16
  acceptRemmPeer : List (BitVec 16)
  dvbapiStat : Byte

def checkValidRemmPeer (srv : RemmServer) : Bool := srv.acceptRemmPeer.any (· = srv.peerId)

/-- `gbox_recvd_remm_req`. -/
def gboxRecvdRemmReq (srv : RemmServer) (rdr : RemmReader) (buf : ℕ → Byte) (n : ℕ) : Option RemmEvent :=
  if n ≠ 122 then some .ignored
  else
    let rcaid := (b2i 2 buf 23).setWidth 16
    let rprovid := b2i 4 buf 17
    if ¬ checkValidRemmPeer srv then some (.request rdr .peerAuBlocked rcaid rprovid srv.dvbapiStat)
    else
      let card := { rdr.toCard with
        auprovid := rprovid, caid := rcaid,
        hexserial := #v[buf 29, buf 30, buf 31, buf 32, buf 33, buf 34, 0, 0],
        nprov := (buf 37).toNat }
      ((List.range card.nprov).foldlM (getRemmProvider buf) card).map fun card =>
        let rdr := ⟨{ card with blockemm := readRemmBlockemm buf }, srv.peerId⟩
        let ack := if srv.dvbapiStat = 3 ∨ srv.dvbapiStat = 5 then .peerAuReady else .peerAuUnready
        .request rdr ack rcaid rprovid srv.dvbapiStat

end Request

section Data

/-- `gbox_send_remm_data`: the checksum that was sent last, and the message with its length. -/
def gboxSendRemmData (loc : LocalGbox) (peer : GboxPeer) (gboxRemmPeer : BitVec 16)
    (lastRemmCrc : BitVec 32) (ep : EmmPacket) : BitVec 32 × Option ((ℕ → Byte) × ℕ) :=
  if ¬ peer.tcpConnected ∨ gboxRemmPeer = 0 then (lastRemmCrc, none)
  else
    let remmCrc := gboxGetChecksum ep.emm ep.emmlen
    if remmCrc = lastRemmCrc then (lastRemmCrc, none)
    else
      let buf := put (put (fun _ => 0) 0 (List.replicate 26 0)) 27 (List.replicate (ep.emmlen + 15) 0xFF)
      let buf := (gboxMessageHeader MSG_REM_EMM peer.password loc.password).foldl
        (fun buf w => put buf w.1 w.2) buf
      let buf := put buf 10 [MSGID_REMM_DATA]
      let buf := i2bBuf 2 (peer.id.setWidth 32) buf 11
      let buf := i2bBuf 2 (loc.id.setWidth 32) buf 13
      let buf := put buf 15 ep.caid.toList
      let buf := put buf 17 ep.provid.toList
      let buf := put buf 21 [.ofNat 8 ep.emmlen]
      let buf := i2bBuf 4 remmCrc buf 23
      let buf := put buf 27 (slice ep.emm 0 ep.emmlen)
      (remmCrc, some (buf, 27 + ep.emmlen))

/-- `gbox_recvd_remm_data`: what is given to `do_emm`. -/
def gboxRecvdRemmData (buf : ℕ → Byte) (buflen emmlen : ℕ) : RemmEvent :=
  if buflen < 30 ∨ emmlen + 27 > buflen ∨ emmlen < 3 then .ignored
  else if h : emmlen + 27 > MAX_EMM_SIZE then .ignored
  else if b2i 4 buf 23 = gboxGetChecksum (fun i => buf (27 + i)) emmlen then
    .emm ⟨#v[buf 15, buf 16], #v[buf 17, buf 18, buf 19, buf 20],
      put (fun _ => 0) 0 (slice buf 27 emmlen), emmlen, Nat.le_of_add_right_le (Nat.le_of_not_gt h)⟩
  else .ignored

end Data

/-- `gbox_recvd_remm_cmd_switch`; an answer to a request is only logged. -/
def gboxRecvdRemmCmdSwitch (srv : RemmServer) (rdr : RemmReader) (buf : ℕ → Byte) (n : ℕ) :
    Option RemmEvent :=
  if n < 26 then some .ignored
  else if buf 10 = MSGID_REMM_REQ then gboxRecvdRemmReq srv rdr buf n
  else if buf 10 = MSGID_REMM_DATA then some (gboxRecvdRemmData buf n (buf 21).toNat)
  else some .ignored

/-- What stands from byte 117 on. -/
def remmTail (a : AuReader) (o : ℕ) : Byte :=
  if o = 117 then (a.blockemm ||| 0x80).setWidth 8
  else if o = 118 then (if needsGlobals a.caid then emmFlag a EMM_GLOBAL else 0)
  else if o = 119 then emmFlag a EMM_SHARED
  else if o = 120 then emmFlag a EMM_UNIQUE
  else emmFlag a EMM_UNKNOWN

/-- When the card arrives as it is: as for command 05, whose places are ten more, but for at most 16
providers and with the global EMMs blocked unless the caid needs them. -/
structure RemmFits (a : AuReader) (r : Card) : Prop where
  caid : a.caid ≠ 0
  hexserial : a.hexserial[6]! = 0 ∧ a.hexserial[7]! = 0
  nprov : a.nprov ≤ 16
  tail : ∀ i < a.nprov, ∀ x ∈ providerBytes a.toCard i, 127 ≤ x.1 → x.2 = remmTail a (x.1 - 10)
  shared : fourBytes a.caid = false → ∀ i, i + 1 < a.nprov → i < 15 → (a.sa i)[3]! = (a.prid (i + 1))[2]!
  upper : fourBytes a.caid = false → ∀ i < a.nprov,
    (r.prid i)[0]! = (a.prid i)[0]! ∧ (r.prid i)[1]! = (a.prid i)[1]!
  addresses : fourBytes a.caid = true → ∀ i < a.nprov, r.sa i = a.sa i
  blockemm : ∀ type ∈ emmTypes, if type = EMM_GLOBAL ∧ needsGlobals a.caid = false
    then a.blockemm &&& type ≠ 0 else a.blockemm &&& type = 0 ∨ a.saveemm &&& type = 0

/-- The same EMM, as far as it is long. -/
structure SameEmm (ep ep' : EmmPacket) : Prop where
  caid : ep'.caid = ep.caid
  provid : ep'.provid = ep.provid
  emmlen : ep'.emmlen = ep.emmlen
  emm : ∀ i < ep.emmlen, ep'.emm i = ep.emm i

section Sender

variable {loc : LocalGbox} {peer : GboxPeer} {er : EmmRequest} {a : AuReader} {caid : BitVec 16}
  {mbuf d : ℕ → Byte} {i o : ℕ}

private theorem putRemmProvider_of_lt {four : Bool} {rdr : Card} (ho : o < 38) :
    putRemmProvider four rdr mbuf i o = mbuf o := by
  unfold putRemmProvider
  split_ifs
  · rw [put_of_lt (by omega), put_of_lt (by omega)]
  · rw [put_of_lt (by omega), put_of_lt (by omega), put_of_lt (by omega)]

/-- The loop body is that of command 05, ten bytes earlier. -/
private theorem putProvider_moved (four : Bool) (rdr : Card) (mbuf : ℕ → Byte) (i : ℕ) :
    putProvider four rdr (fun o => mbuf (o - 10)) i = fun o => putRemmProvider four rdr mbuf i (o - 10) := by
  unfold putProvider putRemmProvider
  have h48 : 48 + i * 5 = 38 + i * 5 + 10 := by omega
  have h49 : 49 + i * 5 = 39 + i * 5 + 10 := by omega
  have h50 : 50 + i * 5 = 40 + i * 5 + 10 := by omega
  rw [h48, h49, h50]
  split_ifs
  · dsimp only
    rw [put_moved (by omega), put_moved (by omega)]
  · dsimp only
    rw [put_moved (by omega), put_moved (by omega), put_moved (by omega)]

private theorem putProviders_moved (hn : a.nprov ≤ 16) :
    putProviders caid a (fun o => mbuf (o - 10)) = fun o => putRemmProviders caid a mbuf (o - 10) := by
  unfold putProviders putRemmProviders
  rw [Nat.min_eq_left hn]
  exact List.foldl_hom (fun (m : ℕ → Byte) o => m (o - 10))
    fun m i => putProvider_moved (fourBytes caid) a.toCard m i

private theorem putRemmFlags_of_lt (ho : o < 117) : putRemmFlags caid a mbuf o = mbuf o := by
  unfold putRemmFlags
  rw [put_of_lt (by omega), put_of_lt (by omega), put_of_lt (by omega), put_of_lt (by omega), put_of_lt ho]

private theorem putRemmFlags_tail (hlo : 117 ≤ o) (hhi : o < 122) :
    putRemmFlags a.caid a mbuf o = remmTail a o := by
  have hcases : o = 117 ∨ o = 118 ∨ o = 119 ∨ o = 120 ∨ o = 121 := by omega
  rcases hcases with rfl | rfl | rfl | rfl | rfl <;> rfl

private theorem remmMessage_low (ho : o < 38) :
    remmMessage loc peer er a o = remmHead loc peer er (remmCaid a er) a o := by
  unfold remmMessage putRemmProviders
  rw [putRemmFlags_of_lt (by omega)]
  exact foldl_cell (fun _ _ _ => putRemmProvider_of_lt ho) _

private theorem remmCaid_self (hcaid : a.caid ≠ 0) : remmCaid a er = a.caid := if_neg fun h => hcaid h.1

/-- What a reader finds at the place of a byte. -/
private theorem remm_bytes (hcaid : a.caid ≠ 0) (hd : ∀ o < 122, d o = remmMessage loc peer er a o)
    (hn : a.nprov ≤ 16) (hi : i < a.nprov) {x : ℕ × Byte} (hx : x ∈ providerBytes a.toCard i) :
    d (x.1 - 10) = if 127 ≤ x.1 then remmTail a (x.1 - 10)
      else if x.1 = 50 + i * 5 + 3 ∧ i + 1 < a.nprov then (a.prid (i + 1))[2]! else x.2 := by
  have hplace := providerBytes_place hx
  rw [hd _ (by omega)]
  unfold remmMessage
  rw [remmCaid_self hcaid]
  by_cases htail : 127 ≤ x.1
  · rw [if_pos htail]
    exact putRemmFlags_tail (by omega) (by omega)
  · rw [if_neg htail, putRemmFlags_of_lt (by omega)]
    have hmoved := congrFun (@putProviders_moved a a.caid (remmHead loc peer er a.caid a) hn) x.1
    exact hmoved.symm.trans (putProviders_bytes _ hi hx)

end Sender

section Receiver

variable {a : AuReader} {srv : RemmServer} {r : RemmReader} {rdr : Card} {d : ℕ → Byte} {n : ℕ}

private theorem getRemmProvider_eq (buf : ℕ → Byte) (rdr : Card) (i : ℕ) :
    getRemmProvider buf rdr i =
      if CS_MAXPROV ≤ i then none else some (getProvider (fun o => buf (o - 10)) rdr i) := by
  unfold getRemmProvider getProvider
  have h48 : 48 + i * 5 - 10 = 38 + i * 5 := by omega
  have h49 : 49 + i * 5 - 10 = 39 + i * 5 := by omega
  have h50 : 50 + i * 5 - 10 = 40 + i * 5 := by omega
  have h51 : 50 + i * 5 + 1 - 10 = 40 + i * 5 + 1 := by omega
  have h52 : 50 + i * 5 + 2 - 10 = 40 + i * 5 + 2 := by omega
  have h53 : 50 + i * 5 + 3 - 10 = 40 + i * 5 + 3 := by omega
  dsimp only
  rw [h48, h49, h50, h51, h52, h53]
  split_ifs <;> rfl

/-- The loop of the receiver stays inside the arrays. -/
private theorem getRemmProviders (buf : ℕ → Byte) (hn : n ≤ CS_MAXPROV) (rdr : Card) :
    (List.range n).foldlM (getRemmProvider buf) rdr =
      some ((List.range n).foldl (getProvider fun o => buf (o - 10)) rdr) := by
  induction n with
  | zero => rfl
  | succ n ih =>
    rw [List.range_succ, List.foldlM_append, ih (by omega), List.foldl_append]
    simp only [Option.bind_eq_bind, Option.bind_some, List.foldlM_cons, List.foldlM_nil]
    rw [getRemmProvider_eq, if_neg (by omega)]
    rfl

/-- A request is stored. -/
private theorem recvd_request (hreq : d 10 = MSGID_REMM_REQ) (hvalid : checkValidRemmPeer srv = true)
    (hn : (d 37).toNat ≤ CS_MAXPROV) : ∃ r' ack caid provid stat,
      gboxRecvdRemmCmdSwitch srv r d 122 = some (.request r' ack caid provid stat) ∧
      r'.caid = (b2i 2 d 23).setWidth 16 ∧ r'.nprov = (d 37).toNat ∧
      r'.hexserial = #v[d 29, d 30, d 31, d 32, d 33, d 34, 0, 0] ∧
      r'.blockemm = readRemmBlockemm d ∧
      ∃ rdr : Card, rdr.caid = (b2i 2 d 23).setWidth 16 ∧ rdr.prid = r.prid ∧ rdr.sa = r.sa ∧
        ∀ i < (d 37).toNat, r'.prid i = (getProvider (fun o => d (o - 10)) rdr i).prid i ∧
          r'.sa i = (getProvider (fun o => d (o - 10)) rdr i).sa i := by
  obtain ⟨card, hcard⟩ : ∃ card : Card, card = { r.toCard with
      auprovid := b2i 4 d 17, caid := (b2i 2 d 23).setWidth 16,
      hexserial := #v[d 29, d 30, d 31, d 32, d 33, d 34, 0, 0], nprov := (d 37).toNat } := ⟨_, rfl⟩
  obtain ⟨c, hc, hcaid, hnprov, -, hserial, hprov⟩ := getProviders (fun o => d (o - 10)) card (d 37).toNat
  have hloop := getRemmProviders d hn card
  rw [hc] at hloop
  have hevent : gboxRecvdRemmCmdSwitch srv r d 122 = some (.request
      ⟨{ c with blockemm := readRemmBlockemm d }, srv.peerId⟩
      (if srv.dvbapiStat = 3 ∨ srv.dvbapiStat = 5 then .peerAuReady else .peerAuUnready)
      ((b2i 2 d 23).setWidth 16) (b2i 4 d 17) srv.dvbapiStat) := by
    unfold gboxRecvdRemmCmdSwitch gboxRecvdRemmReq
    rw [if_neg (by omega), if_pos hreq, if_neg (by omega), hvalid, if_neg (by simp)]
    dsimp only
    rw [← hcard, hloop]
    rfl
  refine ⟨_, _, _, _, _, hevent, ?_, ?_, ?_, rfl, card, ?_, ?_, ?_, ?_⟩
  · rw [hcard] at hcaid
    exact hcaid
  · rw [hcard] at hnprov
    exact hnprov
  · rw [hcard] at hserial
    exact hserial
  · rw [hcard]
  · rw [hcard]
  · rw [hcard]
  · intro i hi
    have hold := hprov i
    rw [if_pos hi] at hold
    exact Prod.mk.inj hold

/-- A type is blocked unless its flag is 1; the marker is no type. -/
private theorem readRemmBlockemm_type :
    readRemmBlockemm d &&& EMM_UNKNOWN = (if d 121 = 1 then 0 else EMM_UNKNOWN) ∧
      readRemmBlockemm d &&& EMM_GLOBAL = (if d 118 = 1 then 0 else EMM_GLOBAL) ∧
      readRemmBlockemm d &&& EMM_SHARED = (if d 119 = 1 then 0 else EMM_SHARED) ∧
      readRemmBlockemm d &&& EMM_UNIQUE = (if d 120 = 1 then 0 else EMM_UNIQUE) := by
  unfold readRemmBlockemm
  split_ifs <;> decide

private theorem remm_blockemm_iff (hd : ∀ o, 117 ≤ o → o < 122 → d o = remmTail a o) :
    (∀ type ∈ emmTypes, readRemmBlockemm d &&& type = 0 ↔ a.blockemm &&& type = 0) ↔
      ∀ type ∈ emmTypes, if type = EMM_GLOBAL ∧ needsGlobals a.caid = false
        then a.blockemm &&& type ≠ 0 else a.blockemm &&& type = 0 ∨ a.saveemm &&& type = 0 := by
  obtain ⟨hunknown, hglobal, hshared, hunique⟩ := @readRemmBlockemm_type d
  rw [hd 121 (by omega) (by omega)] at hunknown
  rw [hd 118 (by omega) (by omega)] at hglobal
  rw [hd 119 (by omega) (by omega)] at hshared
  rw [hd 120 (by omega) (by omega)] at hunique
  unfold emmTypes
  simp only [List.forall_mem_cons, List.not_mem_nil, false_implies, implies_true, and_true]
  rw [hunknown, hglobal, hshared, hunique]
  refine and_congr (flag_iff (by decide)) (and_congr ?_
    (and_congr (flag_iff (by decide)) (flag_iff (by decide))))
  rw [show remmTail a 118 = if needsGlobals a.caid then emmFlag a EMM_GLOBAL else 0 from rfl]
  cases hglobals : needsGlobals a.caid with
  | true =>
    have hneeds : ¬ (True ∧ true = false) := fun h => Bool.noConfusion h.2
    rw [if_pos rfl, if_neg hneeds]
    exact flag_iff (by decide)
  | false =>
    have hnone : True ∧ false = false := ⟨trivial, rfl⟩
    have hflag : (0 : Byte) ≠ 1 := by decide
    have hblocked : EMM_GLOBAL ≠ 0 := by decide
    rw [if_neg Bool.false_ne_true, if_pos hnone, if_neg hflag]
    exact ⟨fun h hzero => hblocked (h.mpr hzero), fun h => iff_of_false hblocked h⟩

end Receiver

section Card

variable {loc : LocalGbox} {peer : GboxPeer} {er : EmmRequest} {a : AuReader} {srv : RemmServer}
  {r : RemmReader} {d : ℕ → Byte}

/-- What a reader finds in front of the providers. -/
private theorem remm_low (hd : ∀ o < 122, d o = remmMessage loc peer er a o) :
    d 10 = MSGID_REMM_REQ ∧ (b2i 2 d 23).setWidth 16 = remmCaid a er ∧
      (∀ (k : ℕ), k < 6 → d (29 + k) = a.hexserial[k]!) ∧ (d 37).toNat = a.nprov := by
  have hserial : (a.hexserial.toList.take 6).length = 6 := by
    rw [List.length_take, Vector.length_toList]
    rfl
  have hlow : ∀ o < 38, d o = remmHead loc peer er (remmCaid a er) a o :=
    fun o ho => (hd o (by omega)).trans (remmMessage_low ho)
  refine ⟨?_, ?_, ?_, ?_⟩
  · rw [hlow 10 (by omega)]
    unfold remmHead i2bBuf
    rw [put_of_lt (by omega), put_of_lt (by omega), put_of_lt (by omega), put_of_lt (by omega),
      put_of_lt (by omega), put_of_lt (by omega), put_of_lt (by omega), put_of_lt (by omega), put_self]
  · have hcaid : Holds d 23 (i2b 2 ((remmCaid a er).setWidth 32)) := by
      have hhead : Holds (remmHead loc peer er (remmCaid a er) a) 23 (i2b 2 ((remmCaid a er).setWidth 32)) := by
        unfold remmHead
        exact (holds_put.put (Or.inl (by rw [length_i2b_two]; omega))).put
          (Or.inl (by rw [length_i2b_two]; omega))
      exact hhead.congr fun i hi => hlow _ (by rw [length_i2b_two] at hi; omega)
    rw [b2i_two hcaid]
    apply BitVec.eq_of_toNat_eq
    simp only [BitVec.toNat_setWidth]
    have := (remmCaid a er).isLt
    omega
  · intro k hk
    rw [hlow _ (by omega)]
    unfold remmHead
    rw [put_of_lt (by omega), put_at (by omega), List.getElem_take, getElem!_pos a.hexserial k (by omega)]
    exact Vector.getElem_toList _
  · rw [hlow 37 (by omega)]
    unfold remmHead
    rw [put_self, BitVec.toNat_ofNat]
    have hle : a.nprov ≤ 128 := a.nprov_le
    omega

/-- A card with a caid and at most 16 providers. -/
private theorem same_request_iff (hcaid : a.caid ≠ 0) (hn : a.nprov ≤ 16)
    (hd : ∀ o < 122, d o = remmMessage loc peer er a o) (hvalid : checkValidRemmPeer srv = true) :
    ∃ r' ack caid provid stat,
      gboxRecvdRemmCmdSwitch srv r d 122 = some (.request r' ack caid provid stat) ∧
        (SameCard a r'.toCard ↔ RemmFits a r.toCard) := by
  obtain ⟨hreq, hread, hserial, hnprov⟩ := remm_low hd
  rw [remmCaid_self hcaid] at hread
  obtain ⟨r', ack, caid, provid, stat, hevent, hcaid', hnprov', hserial', hblock', rdr, hrdr, hprid, hsa,
    hprov⟩ := recvd_request (r := r) hreq hvalid (hnprov ▸ a.nprov_le)
  refine ⟨r', ack, caid, provid, stat, hevent, ?_⟩
  rw [hnprov] at hprov
  have htail : ∀ o, 117 ≤ o → o < 122 → d o = remmTail a o := by
    intro o ho ho'
    rw [hd o ho']
    unfold remmMessage
    rw [remmCaid_self hcaid]
    exact putRemmFlags_tail ho ho'
  have hproviders := same_providers_iff (hrdr.trans hread) hprov
  have hbytes : (∀ i < a.nprov, ∀ x ∈ providerBytes a.toCard i, d (x.1 - 10) = x.2) ↔ _ :=
    @providers_arrive_iff a (fun o => d (o - 10)) (fun o => remmTail a (o - 10))
      fun i hi x hx => remm_bytes hcaid hd hn hi hx
  rw [hprid, hsa, hbytes] at hproviders
  have hblock := remm_blockemm_iff htail
  rw [← hblock'] at hblock
  constructor
  · intro hsame
    obtain ⟨⟨htail', hshared⟩, hupper, haddresses⟩ :=
      hproviders.mp fun i hi => ⟨hsame.prid i hi, hsame.sa i hi⟩
    exact ⟨hcaid, (hexserial_iff hserial).mp (hserial'.symm.trans hsame.hexserial), hn, htail', hshared, hupper,
      haddresses, hblock.mp hsame.blockemm⟩
  · intro hfits
    have hall := hproviders.mpr ⟨⟨hfits.tail, hfits.shared⟩, hfits.upper, hfits.addresses⟩
    exact ⟨hcaid'.trans hread, hnprov'.trans hnprov, fun i hi => (hall i hi).1, fun i hi => (hall i hi).2,
      hserial'.trans ((hexserial_iff hserial).mpr hfits.hexserial), hblock.mpr hfits.blockemm⟩

/-- More than 16 providers reach bytes that are not sent at all. -/
private theorem not_same_request (hn : 16 < a.nprov) (hd : ∀ o < 122, d o = remmMessage loc peer er a o)
    (hcaid : a.caid ≠ 0) (hbehind : ∀ o, 122 ≤ o →
      d o = if fourBytes a.caid then (a.prid 16)[3]! + 1 else (a.sa 16)[3]! + 1) :
    ∀ r' ack caid provid stat, gboxRecvdRemmCmdSwitch srv r d 122 = some (.request r' ack caid provid stat) →
      checkValidRemmPeer srv = true → ¬ SameCard a r'.toCard := by
  intro r' ack caid provid stat hevent hvalid hsame
  obtain ⟨hreq, hread, -, hnprov⟩ := remm_low hd
  rw [remmCaid_self hcaid] at hread
  obtain ⟨_, _, _, _, _, hevent', -, -, -, -, rdr, hrdr, -, -, hprov⟩ :=
    recvd_request (r := r) hreq hvalid (hnprov ▸ a.nprov_le)
  rw [hevent] at hevent'
  obtain ⟨rfl, -⟩ := RemmEvent.request.inj (Option.some.inj hevent')
  rw [hnprov] at hprov
  have hbytes := ((provider_iff (hrdr.trans hread) 16).mp
    ⟨(hprov 16 hn).1 ▸ hsame.prid 16 hn, (hprov 16 hn).2 ▸ hsame.sa 16 hn⟩).1
  have hnext : ∀ b : Byte, b + 1 ≠ b := by decide
  cases hfour : fourBytes a.caid with
  | true =>
    rw [hfour] at hbehind
    have hx : d 122 = (a.prid 16)[3]! :=
      hbytes (50 + 16 * 5 + 2, (a.prid 16)[3]!) (by unfold providerBytes; rw [hfour]; simp)
    rw [hbehind 122 (by omega)] at hx
    exact hnext _ hx
  | false =>
    rw [hfour] at hbehind
    have hx : d 123 = (a.sa 16)[3]! :=
      hbytes (50 + 16 * 5 + 3, (a.sa 16)[3]!) (by unfold providerBytes; rw [hfour]; simp)
    rw [hbehind 123 (by omega)] at hx
    exact hnext _ hx

end Card

section Data

variable {loc : LocalGbox} {peer : GboxPeer} {remmPeer : BitVec 16} {lastCrc crc : BitVec 32}
  {ep : EmmPacket} {buf d : ℕ → Byte} {len : ℕ} {srv : RemmServer} {r : RemmReader}

/-- The fields of the message. -/
structure RemmData (ep : EmmPacket) (buf : ℕ → Byte) : Prop where
  msgid : buf 10 = MSGID_REMM_DATA
  caid : Holds buf 15 ep.caid.toList
  provid : Holds buf 17 ep.provid.toList
  emmlen : buf 21 = .ofNat 8 ep.emmlen
  crc : Holds buf 23 (i2b 4 (gboxGetChecksum ep.emm ep.emmlen))
  emm : Holds buf 27 (slice ep.emm 0 ep.emmlen)

private theorem remmData_of_sent (h : gboxSendRemmData loc peer remmPeer lastCrc ep = (crc, some (buf, len))) :
    len = 27 + ep.emmlen ∧ RemmData ep buf := by
  unfold gboxSendRemmData at h
  dsimp only at h
  split_ifs at h
  · cases (Prod.mk.inj h).2
  · cases (Prod.mk.inj h).2
  · obtain ⟨rfl, rfl⟩ := Prod.mk.inj (Option.some.inj (Prod.mk.inj h).2)
    have hcaid : ep.caid.toList.length = 2 := Vector.length_toList
    have hprovid : ep.provid.toList.length = 4 := Vector.length_toList
    have hcrc : (i2b 4 (gboxGetChecksum ep.emm ep.emmlen)).length = 4 := length_i2b_four _
    refine ⟨rfl, ?_, ?_, ?_, ?_, ?_, holds_put⟩
    · unfold i2bBuf
      rw [put_of_lt (by omega), put_of_lt (by omega), put_of_lt (by omega), put_of_lt (by omega),
        put_of_lt (by omega), put_of_lt (by omega), put_of_lt (by omega), put_self]
    · exact (((holds_put.put (Or.inl (by omega))).put (Or.inl (by omega))).put (Or.inl (by omega))).put
        (Or.inl (by omega))
    · exact ((holds_put.put (Or.inl (by omega))).put (Or.inl (by omega))).put (Or.inl (by omega))
    · unfold i2bBuf
      rw [put_of_lt (by omega), put_of_lt (by omega), put_self]
    · exact holds_put.put (Or.inl (by omega))

/-- The last byte is the low one. -/
private theorem b2i_four_low (b : ℕ → Byte) (o : ℕ) : (b2i 4 b o).setWidth 8 = b (o + 3) := by
  unfold b2i
  ext k hk
  simp only [BitVec.getElem_setWidth, BitVec.getLsbD_or, BitVec.getLsbD_shiftLeft, BitVec.getLsbD_setWidth]
  grind

/-- The EMM that a receiver makes of the message. -/
private theorem recvd_data (srv : RemmServer) (r : RemmReader) (hbuf : RemmData ep buf)
    (hd : ∀ i < 27 + ep.emmlen, d i = buf i) :
    gboxRecvdRemmCmdSwitch srv r d (27 + ep.emmlen) =
      some (gboxRecvdRemmData d (27 + ep.emmlen) (ep.emmlen % 256)) ∧
    b2i 4 d 23 = gboxGetChecksum ep.emm ep.emmlen ∧
    (∀ i < ep.emmlen, d (27 + i) = ep.emm i) ∧
    #v[d 15, d 16] = ep.caid ∧ #v[d 17, d 18, d 19, d 20] = ep.provid := by
  have hcells : ∀ {n : ℕ} {v : Vector Byte n} {o : ℕ}, Holds buf o v.toList → o + n ≤ 27 →
      ∀ (i : ℕ) (hi : i < n), d (o + i) = v[i] := by
    intro n v o hv ho i hi
    rw [hd _ (by omega), hv.getElem (by rwa [Vector.length_toList])]
    exact Vector.getElem_toList _
  refine ⟨?_, ?_, ?_, ?_, ?_⟩
  · unfold gboxRecvdRemmCmdSwitch
    have hlen : (d 21).toNat = ep.emmlen % 256 := by
      rw [hd 21 (by omega), hbuf.emmlen, BitVec.toNat_ofNat]
    rw [if_neg (by omega), hd 10 (by omega), hbuf.msgid, if_neg (by decide), if_pos rfl, hlen]
  · refine b2i_four (hbuf.crc.congr fun i hi => hd _ ?_)
    rw [length_i2b_four] at hi
    omega
  · intro i hi
    rw [hd _ (by omega), hbuf.emm.getElem (by rwa [length_slice])]
    simp only [slice, List.getElem_map, List.getElem_range, Nat.zero_add]
  · apply Vector.ext
    intro i hi
    have hcell := hcells hbuf.caid (by omega) i hi
    have hcases : i = 0 ∨ i = 1 := by omega
    rcases hcases with rfl | rfl <;> exact hcell
  · apply Vector.ext
    intro i hi
    have hcell := hcells hbuf.provid (by omega) i hi
    have hcases : i = 0 ∨ i = 1 ∨ i = 2 ∨ i = 3 := by omega
    rcases hcases with rfl | rfl | rfl | rfl <;> exact hcell

/-- What is delivered has the length that one byte holds. -/
private theorem emmlen_of_recvd {n emmlen : ℕ} {ep' : EmmPacket}
    (h : gboxRecvdRemmData d n emmlen = .emm ep') : 3 ≤ emmlen ∧ ep'.emmlen = emmlen ∧
      b2i 4 d 23 = gboxGetChecksum (fun i => d (27 + i)) emmlen := by
  unfold gboxRecvdRemmData at h
  split_ifs at h with hlen hmax hcrc
  obtain rfl := RemmEvent.emm.inj h
  exact ⟨by omega, rfl, hcrc⟩

/-- The checksum of three bytes is taken over four. -/
private theorem checksum_three (b : ℕ → Byte) : gboxGetChecksum b 3 = b2i 4 b 0 := rfl

/-- An EMM arrives, whatever stands behind the message, exactly if its length fits into a byte and the
checksum is taken over its own bytes. -/
private theorem emm_delivered_iff (hbuf : RemmData ep buf) :
    (∀ d, (∀ i < 27 + ep.emmlen, d i = buf i) → ∃ ep',
      gboxRecvdRemmCmdSwitch srv r d (27 + ep.emmlen) = some (.emm ep') ∧ SameEmm ep ep') ↔
      4 ≤ ep.emmlen ∧ ep.emmlen ≤ 255 := by
  constructor
  · intro hall
    obtain ⟨g, hg⟩ : ∃ g : ℕ → Byte, g = fun i => if i < 27 + ep.emmlen then buf i else ep.emm (i - 27) + 1 :=
      ⟨_, rfl⟩
    have hd : ∀ i < 27 + ep.emmlen, g i = buf i := by
      intro i hi
      rw [hg]
      exact if_pos hi
    obtain ⟨ep', hevent, hsame⟩ := hall g hd
    obtain ⟨hswitch, hcrc, -⟩ := recvd_data srv r hbuf hd
    rw [hswitch] at hevent
    obtain ⟨hthree, hlen, hsum⟩ := emmlen_of_recvd (Option.some.inj hevent)
    rw [← hlen, hsame.emmlen] at hthree hsum
    have hbyte : ep.emmlen = ep.emmlen % 256 := hsame.emmlen.symm.trans hlen
    have hne : ep.emmlen ≠ 3 := by
      intro h3
      rw [hcrc, h3, checksum_three, checksum_three] at hsum
      have hlow := congrArg (BitVec.setWidth 8) hsum
      rw [b2i_four_low, b2i_four_low, hg, h3] at hlow
      have hnext : ∀ b : Byte, b ≠ b + 1 := by decide
      exact hnext _ hlow
    omega
  · rintro ⟨hfour, hbyte⟩ d hd
    obtain ⟨hswitch, hcrc, hemm, hcaid, hprovid⟩ := recvd_data srv r hbuf hd
    rw [Nat.mod_eq_of_lt (by omega)] at hswitch
    have hsum : gboxGetChecksum (fun i => d (27 + i)) ep.emmlen = gboxGetChecksum ep.emm ep.emmlen :=
      gboxGetChecksum_congr hfour hemm
    have hmax : ¬ ep.emmlen + 27 > MAX_EMM_SIZE := by
      unfold MAX_EMM_SIZE
      omega
    rw [hswitch]
    unfold gboxRecvdRemmData
    rw [if_neg (by omega), dif_neg hmax, hcrc, hsum, if_pos rfl]
    refine ⟨_, rfl, hcaid, hprovid, rfl, ?_⟩
    intro i hi
    have hput := @put_at _ (fun _ => 0) 0 (slice d 27 ep.emmlen) i (by rwa [length_slice])
    rw [Nat.zero_add] at hput
    change put (fun _ => 0) 0 (slice d 27 ep.emmlen) i = ep.emm i
    rw [hput, ← hemm i hi]
    simp only [slice, List.getElem_map, List.getElem_range]

end Data

section Remm

variable {emmReaderMatch : AuReader → BitVec 16 → BitVec 32 → Bool} {loc loc' : LocalGbox}
  {peer peer' : GboxPeer} {er : EmmRequest} {cl : RemmClient} {a : AuReader} {mbuf buf : ℕ → Byte}
  {remmPeer : BitVec 16} {lastCrc crc : BitVec 32} {ep : EmmPacket} {len : ℕ} {srv : RemmServer}

private theorem message_of_sent (hsel : selectAureader emmReaderMatch er cl.toAuClient = some a)
    (hsent : (gboxSendRemmReq emmReaderMatch loc peer er cl).2 = some mbuf) :
    remmCaid a er ≠ 0 ∧ mbuf = remmMessage loc peer er a := by
  unfold gboxSendRemmReq at hsent
  rw [hsel] at hsent
  dsimp only at hsent
  split_ifs at hsent <;>
    first | exact ⟨‹remmCaid a er ≠ 0›, (Option.some.inj hsent).symm⟩ | cases hsent

/-- The request is stored, and nothing is written outside the arrays. -/
private theorem request_stored (srv : RemmServer) (hvalid : checkValidRemmPeer srv = true) (r : RemmReader)
    {d : ℕ → Byte} (hd : ∀ i < 122, d i = remmMessage loc peer er a i) : ∃ r' ack caid provid stat,
      gboxRecvdRemmCmdSwitch srv r d 122 = some (.request r' ack caid provid stat) ∧
        r'.caid = remmCaid a er := by
  obtain ⟨hreq, hread, -, hnprov⟩ := remm_low hd
  obtain ⟨r', ack, caid, provid, stat, hevent, hcaid', -⟩ :=
    recvd_request (r := r) hreq hvalid (hnprov ▸ a.nprov_le)
  exact ⟨r', ack, caid, provid, stat, hevent, hcaid'.trans hread⟩

/-- The request is received without leaving the arrays, whatever stands behind it. -/
def Stored (srv : RemmServer) (r : RemmReader) (mbuf : ℕ → Byte) : Prop :=
  ∀ d, (∀ i < 122, d i = mbuf i) → ∃ r' ack caid provid stat,
    gboxRecvdRemmCmdSwitch srv r d 122 = some (.request r' ack caid provid stat)

/-- The reader has the card of `a` afterwards. -/
def StoresCard (srv : RemmServer) (r : RemmReader) (mbuf : ℕ → Byte) (a : AuReader) : Prop :=
  ∀ d, (∀ i < 122, d i = mbuf i) → ∀ r' ack caid provid stat,
    gboxRecvdRemmCmdSwitch srv r d 122 = some (.request r' ack caid provid stat) → SameCard a r'.toCard

/-- The EMM is given to `do_emm` as it is. -/
def DeliversEmm (srv : RemmServer) (r : RemmReader) (buf : ℕ → Byte) (len : ℕ) (ep : EmmPacket) : Prop :=
  ∀ d, (∀ i < len, d i = buf i) → ∃ ep',
    gboxRecvdRemmCmdSwitch srv r d len = some (.emm ep') ∧ SameEmm ep ep'

private theorem storesCard_iff (hau : remmCaid a er ≠ 0) (hvalid : checkValidRemmPeer srv = true)
    (r : RemmReader) : StoresCard srv r (remmMessage loc peer er a) a ↔ RemmFits a r.toCard := by
  constructor
  · intro hall
    by_cases hcaid : a.caid = 0
    · obtain ⟨r', ack, caid, provid, stat, hevent, hcaid'⟩ :=
        @request_stored loc peer er a srv hvalid r (remmMessage loc peer er a) fun _ _ => rfl
      have hsame := hall _ (fun _ _ => rfl) r' ack caid provid stat hevent
      exact absurd (hcaid'.symm.trans (hsame.caid.trans hcaid)) hau
    · by_cases hn : a.nprov ≤ 16
      · obtain ⟨r', ack, caid, provid, stat, hevent, hiff⟩ :=
          same_request_iff (r := r) hcaid hn (fun _ _ => rfl) hvalid
        exact hiff.mp (hall _ (fun _ _ => rfl) r' ack caid provid stat hevent)
      · obtain ⟨g, hg⟩ : ∃ g : ℕ → Byte, g = fun o => if o < 122 then remmMessage loc peer er a o
            else if fourBytes a.caid then (a.prid 16)[3]! + 1 else (a.sa 16)[3]! + 1 := ⟨_, rfl⟩
        have hd : ∀ o < 122, g o = remmMessage loc peer er a o := by
          intro o ho
          rw [hg]
          exact if_pos ho
        obtain ⟨r', ack, caid, provid, stat, hevent, -⟩ := request_stored srv hvalid r hd
        refine absurd (hall g hd r' ack caid provid stat hevent)
          (not_same_request (Nat.lt_of_not_le hn) hd hcaid ?_ r' ack caid provid stat hevent hvalid)
        intro o ho
        rw [hg]
        exact if_neg (by omega)
  · intro hfits d hd r' ack caid provid stat hevent
    obtain ⟨r'', _, _, _, _, hevent', hiff⟩ := same_request_iff (r := r) hfits.caid hfits.nprov hd hvalid
    rw [hevent] at hevent'
    obtain ⟨rfl, -⟩ := RemmEvent.request.inj (Option.some.inj hevent')
    exact hiff.mpr hfits

/-- A request never leaves the arrays; when its card arrives; and when an EMM does. -/
theorem remote_emm_iff (hsel : selectAureader emmReaderMatch er cl.toAuClient = some a)
    (hsent : (gboxSendRemmReq emmReaderMatch loc peer er cl).2 = some mbuf)
    (hvalid : checkValidRemmPeer srv = true) (r : RemmReader)
    (hemm : gboxSendRemmData loc' peer' remmPeer lastCrc ep = (crc, some (buf, len)))
    (srv' : RemmServer) (r' : RemmReader) :
    Stored srv r mbuf ∧ (StoresCard srv r mbuf a ↔ RemmFits a r.toCard) ∧
      (DeliversEmm srv' r' buf len ep ↔ 4 ≤ ep.emmlen ∧ ep.emmlen ≤ 255) := by
  obtain ⟨hau, rfl⟩ := message_of_sent hsel hsent
  obtain ⟨rfl, hbuf⟩ := remmData_of_sent hemm
  refine ⟨?_, storesCard_iff hau hvalid r, emm_delivered_iff hbuf⟩
  intro d hd
  obtain ⟨r'', ack, caid, provid, stat, hevent, -⟩ := request_stored srv hvalid r hd
  exact ⟨r'', ack, caid, provid, stat, hevent⟩

end Remm

private def remmCard (nprov : ℕ) (h : nprov ≤ CS_MAXPROV) : AuReader where
  caid := 0x0B00
  hexserial := Vector.replicate 8 0
  nprov := nprov
  prid := fun _ => Vector.ofFn fun i => if i.val = 2 then 0x10 else 0
  sa := fun _ => Vector.replicate 4 1
  blockemm := EMM_GLOBAL
  auprovid := 0
  id := 0
  audisabled := false
  saveemm := 0
  nprov_le := h

private def remmRequest : EmmRequest := ⟨1, 0x0B00, 0, 7, none⟩

private def remmUser (a : AuReader) : RemmClient :=
  ⟨⟨some [a], Vector.replicate 8 1, 0, 6⟩, 0x0B00⟩

private def remmGbox : LocalGbox := ⟨2, 0, 0, 0, 0, Vector.replicate 7 0⟩

private def remmPeer : GboxPeer := ⟨1, 0, Vector.replicate 7 0, 0, true, true, true, 0, false⟩

private def remmServer : RemmServer := ⟨2, [2], 3⟩

private def freshReader : RemmReader :=
  ⟨⟨0, Vector.replicate 8 0, 0, fun _ => Vector.replicate 4 0, fun _ => Vector.replicate 4 0, 0, 0⟩, 0⟩

private def shortEmm : EmmPacket :=
  ⟨#v[0x0B, 0], Vector.replicate 4 0, fun _ => 0, 4, by decide⟩

private theorem remmRequest_sent (nprov : ℕ) (h : nprov ≤ CS_MAXPROV) :
    (gboxSendRemmReq (fun _ _ _ => true) remmGbox remmPeer remmRequest (remmUser (remmCard nprov h))).2 =
      some (remmMessage remmGbox remmPeer remmRequest (remmCard nprov h)) := rfl

private theorem shortEmm_sent : gboxSendRemmData remmGbox remmPeer 1 1 shortEmm =
    (0, some ((gboxSendRemmData remmGbox remmPeer 1 1 shortEmm).2.get (by decide))) := rfl

theorem remote_emm_oneProvider : StoresCard remmServer freshReader
    (remmMessage remmGbox remmPeer remmRequest (remmCard 1 (by decide))) (remmCard 1 (by decide)) := by
  refine (remote_emm_iff rfl (remmRequest_sent 1 (by decide)) (by decide) freshReader shortEmm_sent
    remmServer freshReader).2.1.mpr ?_
  constructor
  · decide
  · exact ⟨rfl, rfl⟩
  · decide
  · intro i hi x hx h127
    obtain rfl : i = 0 := Nat.lt_one_iff.mp hi
    have hplace := providerBytes_place hx
    omega
  · intro _ i hi _
    have hone : i + 1 < 1 := hi
    omega
  · intro _ i _
    exact ⟨rfl, rfl⟩
  · intro h
    exact absurd h (by decide)
  · intro type htype
    by_cases hglobal : type = EMM_GLOBAL
    · subst hglobal
      rw [if_pos ⟨rfl, rfl⟩]
      decide
    · rw [if_neg fun h => hglobal h.1]
      exact Or.inr BitVec.zero_and

/-- The last byte of the first shared address is overwritten by the second provider. -/
theorem not_stored_twoProviders : ¬ ((∀ emmReaderMatch loc peer er cl a mbuf srv r,
    selectAureader emmReaderMatch er cl.toAuClient = some a →
      (gboxSendRemmReq emmReaderMatch loc peer er cl).2 = some mbuf → checkValidRemmPeer srv = true →
        Stored srv r mbuf ∧ StoresCard srv r mbuf a) ∧
      ∀ loc peer remmPeer lastCrc ep crc buf len srv r,
        gboxSendRemmData loc peer remmPeer lastCrc ep = (crc, some (buf, len)) → 3 ≤ ep.emmlen →
          DeliversEmm srv r buf len ep) := by
  rintro ⟨h, -⟩
  have hstores := (h (fun _ _ _ => true) remmGbox remmPeer remmRequest (remmUser (remmCard 2 (by decide)))
    (remmCard 2 (by decide)) _ remmServer freshReader rfl (remmRequest_sent 2 (by decide)) (by decide)).2
  have hfits := (storesCard_iff (by decide) (by decide) freshReader).mp hstores
  exact absurd (hfits.shared (by decide) 0 (by decide) (by decide)) (by decide)

end NCam.Gbox
