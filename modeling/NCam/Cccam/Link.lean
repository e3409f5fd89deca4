import NCam.Cccam.Crypt
import NCam.Lib.Transition

/-! A CCcam server client and a CCcam reader after the handshake: `cc_cmd_send`, `cc_msg_recv` and the
additional crypto step of control words. -/
namespace NCam.Cccam.Link

open NCam.Lib NCam.Util

/-- `cc_msg_type_t`. -/
inductive CcMsgType
  | cliData
  | cwEcm
  | emmAck
  | cardRemoved
  | cmd05
  | keepalive
  | newCard
  | srvData
  | cmd0a
  | cmd0b
  | cmd0c
  | cmd0d
  | cmd0e
  | newCardSidinfo
  | sleepsend
  | cachePush
  | cacheFilter
  | cacheFeatureExchange
  | cacheFeatureExchangeReply
  | cacheFeatureTrigger
  | cwEcmLgf
  | cwNok1
  | cwNok2
  | noHeader
deriving DecidableEq

def CcMsgType.code : CcMsgType → BitVec 16
  | .cliData => 0
  | .cwEcm => 1
  | .emmAck => 2
  | .cardRemoved => 4
  | .cmd05 => 5
  | .keepalive => 6
  | .newCard => 7
  | .srvData => 8
  | .cmd0a => 0x0a
  | .cmd0b => 0x0b
  | .cmd0c => 0x0c
  | .cmd0d => 0x0d
  | .cmd0e => 0x0e
  | .newCardSidinfo => 0x0f
  | .sleepsend => 0x80
  | .cachePush => 0x81
  | .cacheFilter => 0x82
  | .cacheFeatureExchange => 0x83
  | .cacheFeatureExchangeReply => 0x84
  | .cacheFeatureTrigger => 0x85
  | .cwEcmLgf => 0x86
  | .cwNok1 => 0xfe
  | .cwNok2 => 0xff
  | .noHeader => 0xffff

/-- A control word that `cc_send_dcw` answers a request for card `cccamId` with. -/
structure Answer where
  cw : Vector Byte 16
  cccamId : BitVec 32
  extendedMode : Bool
deriving DecidableEq

/-- A message as it was sent. -/
structure Sent where
  msg : List Byte
  answer : Option Answer
deriving DecidableEq

/-- A message as it was received, with the `dcw` taken from it. -/
structure Received where
  msg : List Byte
  dcw : Option (List Byte)
deriving DecidableEq

/-- One direction of a connection: the block `ENCRYPT` of its sender, the block `DECRYPT` of its receiver
and the bytes in between, with what was sent and received so far. -/
structure Direction where
  encrypt : CcCryptBlock
  decrypt : CcCryptBlock
  wire : List Byte
  sent : List Sent
  received : List Received
deriving DecidableEq

/-- The fields of `cc_data` that the functions below use. `nodeId` is `node_id` for the reader and
`peer_node_id` for the server, `maxlen` the size of the buffer messages are received in. -/
structure CcData where
  nodeId : NodeId
  extendedMode : Bool
  extendedLgFlaggedCws : Bool
  gFlag : Byte
  maxlen : ℕ
deriving DecidableEq

/-- `down` leads from the server to the reader. -/
structure State where
  server : CcData
  reader : CcData
  down : Direction
  up : Direction
deriving DecidableEq

/-- The message that `cc_cmd_send` builds. -/
def netbuf (gFlag : Byte) (cmd : CcMsgType) (buf : List Byte) : List Byte :=
  if cmd = .noHeader then buf
  else gFlag :: cmd.code.setWidth 8 :: BitVec.ofNat 8 (buf.length >>> 8) ::
    BitVec.ofNat 8 buf.length :: buf

def ccCmdSend (cc : CcData) (buf : List Byte) (cmd : CcMsgType) (answer : Option Answer)
    (d : Direction) : Direction :=
  let msg := netbuf cc.gFlag cmd buf
  let (out, encrypt) := ccCrypt d.encrypt msg .encrypt
  { d with encrypt := encrypt, wire := d.wire ++ out, sent := d.sent ++ [⟨msg, answer⟩] }

/-- `cc_msg_recv`; none while bytes are missing, and where the message is too big and the connection is
closed. -/
def ccMsgRecv (maxlen : ℕ) (d : Direction) : Option (List Byte × Direction) :=
  if d.wire.length < 4 then none
  else
    let (header, decrypt) := ccCrypt d.decrypt (d.wire.take 4) .decrypt
    let size := (header.getD 2 0).toNat <<< 8 ||| (header.getD 3 0).toNat
    if size > maxlen ∨ d.wire.length < 4 + size then none
    else
      let (data, decrypt) := ccCrypt decrypt ((d.wire.drop 4).take size) .decrypt
      some (header ++ data, { d with decrypt := decrypt, wire := d.wire.drop (4 + size) })

/-- The part of `cc_send_dcw` for a request that is found. -/
def ccSendDcw (cc : CcData) (answer : Answer) (lg : Bool) (d : Direction) : Direction :=
  let cw := answer.cw.toList
  let buf := if cc.extendedMode then cw else ccCwCrypt cc.nodeId answer.cccamId cw
  let d := ccCmdSend cc buf (if cc.extendedLgFlaggedCws && lg then .cwEcmLgf else .cwEcm) answer d
  if cc.extendedMode then d
  else { d with encrypt := (ccCrypt d.encrypt buf .encrypt).2 } -- additional crypto step

/-- The part of `cc_parse_msg` for control words, for the reader. `cccamId` is the card of the pending
request it finds. In the mode `MODE_CMD_0x0C_NONE` `cc_crypt_cmd0c` leaves the buffer as it is. -/
def parseCw (cc : CcData) (cccamId : Option (BitVec 32)) (buf : List Byte) (d : Direction) :
    Option (Option (List Byte) × Direction) :=
  if buf.length < 20 then some (none, d)
  else match cccamId with
    | none => if cc.extendedMode then some (none, d) else none -- `cc_cli_close`
    | some cccamId =>
      if cc.extendedMode then some (some ((buf.drop 4).take 16), d)
      else
        let data := ccCwCrypt cc.nodeId cccamId (buf.drop 4)
        -- additional crypto step
        some (some (data.take 16), { d with decrypt := (ccCrypt d.decrypt data .encrypt).2 })

/-- `cc_parse_msg` for the reader, as far as it uses the block `DECRYPT`. -/
def ccParseMsg (cc : CcData) (cccamId : Option (BitVec 32)) (buf : List Byte) (d : Direction) :
    Option (Option (List Byte) × Direction) :=
  let cmd := buf.getD 1 0
  if cmd = CcMsgType.cwEcm.code.setWidth 8 ∨ cmd = CcMsgType.cwEcmLgf.code.setWidth 8 then
    parseCw cc cccamId buf d
  else some (none, d)

inductive Action
  /-- Any message of the server but a control word. The flag is set first where `flag` is some. -/
  | serverSend (flag : Option Byte) (cmd : CcMsgType) (buf : List Byte)
  /-- `cc_send_dcw` for a request sent with flag `sendIdx`. -/
  | serverAnswer (cw : Vector Byte 16) (cccamId : BitVec 32) (sendIdx : Byte) (lg : Bool)
  | readerRecv (cccamId : Option (BitVec 32))
  | readerSend (flag : Option Byte) (cmd : CcMsgType) (buf : List Byte)
  | serverRecv
  /-- `check_extended_mode` of the server for a text with these parameters. -/
  | serverPartner (ext lgf : Bool)
  | readerPartner (ext lgf : Bool)

def CcData.setFlag (cc : CcData) (flag : Option Byte) : CcData :=
  { cc with gFlag := flag.getD cc.gFlag }

def CcData.checkExtendedMode (cc : CcData) (ext lgf : Bool) : CcData :=
  { cc with
    extendedMode := cc.extendedMode || ext
    extendedLgFlaggedCws := cc.extendedLgFlaggedCws || lgf }

/-- The messages that go through `cc_cmd_send` as they are. `MSG_NO_HEADER` is for the handshake, and
neither side is the first to send `MSG_CMD_0C`. -/
def CcMsgType.Plain (cmd : CcMsgType) : Prop := cmd ≠ .noHeader ∧ cmd ≠ .cmd0c

instance (cmd : CcMsgType) : Decidable cmd.Plain := inferInstanceAs (Decidable (_ ∧ _))

def next (s : State) : Action → Option State
  | .serverSend flag cmd buf =>
    if cmd.Plain ∧ cmd ≠ .cwEcm ∧ cmd ≠ .cwEcmLgf then
      let server := s.server.setFlag flag
      some { s with server := server, down := ccCmdSend server buf cmd none s.down }
    else none
  | .serverAnswer cw cccamId sendIdx lg =>
    let server := s.server.setFlag (if s.server.extendedMode then some sendIdx else none)
    let answer := ⟨cw, cccamId, s.server.extendedMode⟩
    some { s with server := server, down := ccSendDcw server answer lg s.down }
  | .readerRecv cccamId =>
    (ccMsgRecv s.reader.maxlen s.down).bind fun (buf, down) =>
      (ccParseMsg s.reader cccamId buf down).map fun (dcw, down) =>
        { s with
          reader := s.reader.setFlag (some (buf.getD 0 0))
          down := { down with received := down.received ++ [⟨buf, dcw⟩] } }
  | .readerSend flag cmd buf =>
    if cmd.Plain then
      let reader := s.reader.setFlag flag
      some { s with reader := reader, up := ccCmdSend reader buf cmd none s.up }
    else none
  | .serverRecv =>
    (ccMsgRecv s.server.maxlen s.up).map fun (buf, up) =>
      { s with
        server := s.server.setFlag (some (buf.getD 0 0))
        up := { up with received := up.received ++ [⟨buf, none⟩] } }
  | .serverPartner ext lgf => some { s with server := s.server.checkExtendedMode ext lgf }
  | .readerPartner ext lgf => some { s with reader := s.reader.checkExtendedMode ext lgf }

/-- After the handshake. -/
def Direction.Fresh (d : Direction) : Prop :=
  d.encrypt = d.decrypt ∧ d.wire = [] ∧ d.sent = [] ∧ d.received = []

def system : System State Action where
  init s := s.server.nodeId = s.reader.nodeId ∧ s.down.Fresh ∧ s.up.Fresh
  next := next

end NCam.Cccam.Link
