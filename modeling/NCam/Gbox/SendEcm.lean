import NCam.Ecm.Request
import NCam.Gbox.CardList

/-! The ECM message to a gbox peer, `gbox_send_ecm`; ECMs from a peer, `gbox_incoming_ecm`, and the CWs that go
back to it, `gbox_send_dcw`. -/
namespace NCam.Gbox

open NCam.Lib NCam.Lib.Memory NCam.Util
open NCam.Ecm (E_CACHE1 E_CACHE2 E_CACHEEX E_NOTFOUND)

def GBOX_MAXHOPS : ℕ := 8
def MSG_ECM : BitVec 32 := 0x445C
def MSG_CW : BitVec 32 := 0x4844

/-- `sizeof(send_buf)`. -/
def SEND_BUF_SIZE : ℕ := 1024

/-- What the local gbox puts into its messages. -/
structure LocalGbox where
  id : BitVec 16
  password : BitVec 32
  gboxMyVers : Byte
  gboxMyCpuApi : Byte
  gbxRev : Byte
  checkcode : Vector Byte 7

/-- The peer behind a proxy client, with the settings of its reader. `validRemmPeer` is
`check_valid_remm_peer` of its id. -/
structure GboxPeer where
  id : BitVec 16
  password : BitVec 32
  checkcode : Vector Byte 7
  filteredCards : BitVec 16
  online : Bool
  validRemmPeer : Bool
  tcpConnected : Bool
  gboxMaxecmsend : Byte
  gboxForceRemm : Bool

/-- The words of the ECM are combined, but for the last four. -/
def gboxGetChecksum (buf : ℕ → Byte) (buflen : ℕ) : BitVec 32 :=
  (List.range' 1 (buflen / 4 - 4 - 1)).foldl (fun checksum counter => checksum ^^^ b2i 4 buf (4 * counter))
    (b2i 4 buf 0)

/-- `gbox_message_header` for other messages than CWs. -/
def gboxMessageHeader (cmd peerPassword localPassword : BitVec 32) : List (ℕ × List Byte) :=
  [(0, i2b 2 cmd), (2, i2b 4 peerPassword), (6, i2b 4 localPassword)]

/-- Why a request is answered without being sent. -/
inductive Refusal
  | notInit
  | noCards
  | offline
  | noMatchingCard
  deriving DecidableEq

/-- `nothing` returns without a message and without an answer. -/
inductive SendOutcome
  | refused (refusal : Refusal)
  | nothing
  | sent (sendBuf : ℕ → Byte) (buflen : ℕ)

section Send

variable (loc : LocalGbox) (peer : GboxPeer)

/-- The request as `gbox_send_ecm` prepares it. -/
def prepared (er : EcmRequest) : EcmRequest :=
  { er with
    gboxCardsPending := if er.gboxEcmStatus = .newReq then some [] else er.gboxCardsPending
    gboxCrc := gboxGetChecksum er.ecm er.ecmlen
    gboxEcmSrcPeer := if er.gboxEcmDist = 0 then loc.id else er.gboxEcmSrcPeer }

/-- The fields in front of the cards, in the order in which they are written; `er` is prepared. -/
def ecmFields (er : EcmRequest) : List (ℕ × List Byte) :=
  let len1 := er.ecmlen + 18
  gboxMessageHeader MSG_ECM peer.password loc.password ++
  [(10, i2b 2 (er.pid.setWidth 32)), (12, i2b 2 (er.srvid.setWidth 32)), (14, [0]), (15, [0]), (17, [0]),
    (18, Memory.slice er.ecm 0 er.ecmlen), (len1, i2b 2 (er.gboxEcmSrcPeer.setWidth 32)),
    (len1 + 3, [if er.gboxEcmDist = 0 then 0x4 else 0]), (len1 + 2, [loc.gboxMyVers])] ++
  (if peer.validRemmPeer then [(len1 + 3, [loc.gbxRev])] else []) ++
  [(len1 + 4, [loc.gboxMyCpuApi]), (len1 + 5, i2b 4 (gboxGetCaprovid er.caid er.prid)), (len1 + 9, [0])]

def ecmBuffer (er : EcmRequest) : Option (ℕ → Byte) :=
  Memory.putAll SEND_BUF_SIZE (fun _ => 0) (ecmFields loc peer er)

def cardSearch (now : ℤ) (er : EcmRequest) : CardSearch :=
  ⟨peer.gboxMaxecmsend, er, peer.id, peer.gboxForceRemm, now⟩

/-- The hop bytes; the loop counter of one byte does not get past 255. -/
def hopBytes (dist : Byte) : Option (List Byte) :=
  if dist = 255 then none else some ((List.range (dist.toNat + 1)).map (BitVec.ofNat 8))

/-- The rest of the message behind the cards, which end at `buflen`. -/
def ecmFooter (er : EcmRequest) (nb : Byte) (buf : ℕ → Byte) (buflen : ℕ) : Option (ℕ → Byte) :=
  (hopBytes er.gboxEcmDist).bind fun hops =>
    Memory.putAll SEND_BUF_SIZE buf
      [(16, [nb]), (buflen, hops), (buflen + hops.length, loc.checkcode.toList),
        (buflen + hops.length + 7, peer.checkcode.toList)]

/-- The cards as they are read back from the message. -/
def sentCards (buf : ℕ → Byte) (o n : ℕ) : List GboxCardId :=
  (List.range n).map fun i => ⟨(b2i 2 buf (o + 3 * i)).setWidth 16, buf (o + 3 * i + 2)⟩

/-- `none` is an access outside the send buffer. -/
def gboxSendEcm (now : ℤ) (cards : List GboxCard) (er : EcmRequest) :
    Option (EcmRequest × List GboxCard × SendOutcome) :=
  if er.ecmlen = 0 then some (er, cards, .nothing)
  else if !peer.tcpConnected then some (er, cards, .refused .notInit)
  else if peer.filteredCards = 0 then some (er, cards, .refused .noCards)
  else if !peer.online then some (er, cards, .refused .offline)
  else do
    let er := prepared loc er
    let start := er.ecmlen + 28
    let buf ← ecmBuffer loc peer er
    let (cards, out) ← gboxGetCardsForEcm SEND_BUF_SIZE (cardSearch peer now er) buf start cards
    let nb := out.nbMatchingCrds
    if nb = 0 then
      some (er, cards, if er.gboxEcmStatus = .newReq then .refused .noMatchingCard else .nothing)
    else
      let buf ← ecmFooter loc peer er nb out.sendBuf (start + 3 * nb.toNat)
      let pending := (er.gboxCardsPending.getD []) ++ sentCards buf start nb.toNat
      let er := { er with
        gboxCardsPending := some pending
        gboxCwSrcPeer := (pending.getLast?.map GboxCardId.peer).getD er.gboxCwSrcPeer
        gboxEcmStatus := if er.gboxEcmStatus = .newReq then .sent else er.gboxEcmStatus }
      some (er, cards, .sent buf (start + 3 * nb.toNat + (er.gboxEcmDist.toNat + 1) + 14))

end Send

def RECEIVE_BUFFER_SIZE : ℕ := 1024

def MIN_ECM_LENGTH : ℕ := 8

def MAX_ECM_SIZE : ℕ := 1024

/-- The length field of the section at `o`; `SCT_LEN` is three more. -/
def sectionLength (buf : ℕ → Byte) (o : ℕ) : ℕ := (buf (o + 1) &&& 0x0F).toNat <<< 8 ||| (buf (o + 2)).toNat

/-- `gbox_ecm_request_ext`. -/
structure EcmRequestExt where
  gboxSlot : Byte
  gboxVersion : Byte
  gboxRev : Byte
  gboxType : Byte
  /-- `GBOX_MAXHOPS` bytes. -/
  gboxRoutingInfo : ℕ → Byte

/-- What `gbox_incoming_ecm` reads besides the message: the limit of the reader, the configured blocks, and of
the peer the check code and the index for the next ECM. -/
structure EcmReceiver where
  gboxReshare : Byte
  gboxBlockEcm : List (BitVec 16)
  checkcode : Vector Byte 7
  ecmIdx : Byte

/-- `request` is what `get_cw` is called with; the check code of the message may have changed. -/
inductive IncomingEcm
  | dropped
  | blocked (requestingPeer : BitVec 16)
  | request (er : EcmRequest) (ere : EcmRequestExt) (idx : Byte) (diffcheck : Bool)

/-- `b2i` in an array of `size` bytes. -/
def b2iWithin (size n : ℕ) (buf : ℕ → Byte) (o : ℕ) : Option (BitVec 32) :=
  if o + n ≤ size then some (b2i n buf o) else none

/-- The request in a message of `n` bytes whose ECM is followed by the position `o`. -/
def ecmRequest (rcv : EcmReceiver) (data : ℕ → Byte) (n o : ℕ) (hop : Byte) : Option IncomingEcm := do
  let _ ← sliceWithin RECEIVE_BUFFER_SIZE data o 13
  let ecm ← sliceWithin RECEIVE_BUFFER_SIZE data 18 (o - 18)
  let checkcode ← sliceWithin RECEIVE_BUFFER_SIZE data (n - 14) 7
  let gboxEcmDist := hop + 1
  let routing ← sliceWithin RECEIVE_BUFFER_SIZE data (n - 14 - gboxEcmDist.toNat) hop.toNat
  let caprovid := b2i 4 data (o + 5)
  let ecm := put (fun _ => 0) 0 ecm
  let er : EcmRequest :=
    { ecm, ecmlen := o - 18
      pid := (b2i 2 data 10).setWidth 16, srvid := (b2i 2 data 12).setWidth 16
      caid := gboxGetCaid caprovid, prid := gboxGetProvid caprovid
      gboxEcmStatus := .newReq, gboxCardsPending := none, gboxEcmDist
      gboxEcmSrcPeer := (b2i 2 data o).setWidth 16, gboxCwSrcPeer := (b2i 2 data (o + 10)).setWidth 16
      gboxCrc := gboxGetChecksum ecm (o - 18) }
  let ere : EcmRequestExt :=
    ⟨data (o + 12), data (o + 2), data (o + 3), data (o + 4), put (fun _ => 0) 0 routing⟩
  some (.request er ere (if rcv.ecmIdx = 100 then 0 else rcv.ecmIdx) (checkcode != rcv.checkcode.toList))

/-- `gbox_incoming_ecm` on a message of `n` bytes; `none` is an access outside the receive buffer. The bytes
read at fixed positions lie inside. -/
def gboxIncomingEcm (rcv : EcmReceiver) (data : ℕ → Byte) (n : ℕ) : Option IncomingEcm :=
  if n < 21 then some .dropped
  else if sectionLength data 18 < MIN_ECM_LENGTH then some .dropped
  else do
    let hop ← getWithin RECEIVE_BUFFER_SIZE data (n - 15)
    if hop.toNat + 1 > GBOX_MAXHOPS ∨ hop.toNat + 1 > rcv.gboxReshare.toNat then some .dropped
    else
      let ecmlen := sectionLength data 18 + 3
      let requestingPeer ← b2iWithin RECEIVE_BUFFER_SIZE 2 data (ecmlen + 18)
      if rcv.gboxBlockEcm.contains (requestingPeer.setWidth 16) then
        some (.blocked (requestingPeer.setWidth 16))
      else if ecmlen > MAX_ECM_SIZE ∨ ecmlen + 18 > n then some .dropped
      else ecmRequest rcv data n (18 + ecmlen) hop

/-- What `gbox_send_dcw` is called with beside the request, and the surroundings it reads: `forceRemm` of the
reader, `gbox_get_crd_dist_lev` of the card and `check_setup`. -/
structure DcwAnswer where
  rc : ℕ
  cw : Vector Byte 16
  chid : BitVec 16
  peerPassword : BitVec 32
  minorVersion : Byte
  forceRemm : Bool
  crdDistLev : Byte
  setup : Byte

inductive DcwOutcome
  | remmRequest
  | goodbye
  | sent (buf : ℕ → Byte) (len : ℕ)

/-- The array `buf` of `gbox_send_dcw`. -/
def DCW_BUF_SIZE : ℕ := 60

/-- The fields in front of the routing bytes, in the order in which they are written. -/
def dcwFields (er : EcmRequest) (ere : EcmRequestExt) (a : DcwAnswer) : List (ℕ × List Byte) :=
  let caid := i2b 2 (er.caid.setWidth 32)
  let unknown : Byte := if a.minorVersion = 0x2A then 0xFF else 0
  [(0, i2b 2 MSG_CW), (2, i2b 4 a.peerPassword), (6, i2b 2 (er.pid.setWidth 32)),
    (8, i2b 2 (er.srvid.setWidth 32)), (10, i2b 2 (er.gboxCwSrcPeer.setWidth 32)),
    (12, [ere.gboxSlot <<< 4 ||| (er.ecm 0 &&& 0x0F)]), (13, [(er.caid >>> 8).setWidth 8]),
    (14, a.cw.toList), (30, i2b 4 er.gboxCrc), (34, caid), (36, [ere.gboxSlot]),
    (37, if er.caid >>> 8 = 0x06 then i2b 2 (a.chid.setWidth 32) else [unknown, unknown]),
    (39, i2b 2 (er.gboxEcmSrcPeer.setWidth 32)),
    (41, [if a.rc = E_CACHE1 ∨ a.rc = E_CACHE2 ∨ a.rc = E_CACHEEX then 0x03 else 0x01]),
    (42, [a.setup ||| ((a.crdDistLev &&& 0xF) + 1)]), (43, [ere.gboxRev &&& 0xF0])]

/-- `gbox_send_dcw`; `none` is an access outside its buffer or outside the routing bytes. A distance of 0
copies `SIZE_MAX` bytes. -/
def gboxSendDcw (er : EcmRequest) (ere : EcmRequestExt) (a : DcwAnswer) : Option DcwOutcome :=
  if a.rc = E_NOTFOUND ∧ a.forceRemm = true ∧ ere.gboxRev >>> 4 ≠ 0 then some .remmRequest
  else if a.rc ≥ E_NOTFOUND then some .goodbye
  else if er.gboxEcmDist = 0 then none
  else do
    let routing ← sliceWithin GBOX_MAXHOPS ere.gboxRoutingInfo 0 (er.gboxEcmDist.toNat - 1)
    let buf ← putAll DCW_BUF_SIZE (fun _ => 0)
      (dcwFields er ere a ++
        [(44, routing), (44 + er.gboxEcmDist.toNat - 1, [er.gboxEcmDist - 1])])
    some (.sent buf (44 + er.gboxEcmDist.toNat))

end NCam.Gbox
