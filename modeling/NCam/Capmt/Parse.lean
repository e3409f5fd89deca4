import NCam.Capmt.Demuxers
import NCam.Util.Bytes

/-! The parser of CA PMT objects and PMT sections: private descriptors, program info, elementary streams and
CA descriptors. A read that is not allowed, or a write outside an array, gives `none`. -/
namespace NCam.Capmt

open NCam.Lib NCam.Util

def MAX_ECM_PIDS : ℕ := 24

def MAX_STREAM_PIDS : ℕ := 32

/-- The bytes from `buffer` on, and where they may be read. -/
structure Input where
  byte : ℕ → Byte
  inside : ℕ → Bool

variable (m : Input)

def Input.all (o k : ℕ) : Bool := (List.range k).all fun j => m.inside (o + j)

def Input.get (o : ℕ) : Option Byte := if m.inside o then some (m.byte o) else none

def Input.b2i (k o : ℕ) : Option (BitVec 32) := if m.all o k then some (Util.b2i k m.byte o) else none

def Input.slice (o k : ℕ) : Option (List Byte) := if m.all o k then some (Memory.slice m.byte o k) else none

/-- A loop over descriptors: `visit` gets the position of the body, the tag and the length. The limit is a
length of 12 bits, so the 16-bit counter does not wrap. -/
def Input.walk {α : Type} (visit : ℕ → Byte → ℕ → α → Option α) (base limit i : ℕ) (a : α) : Option α :=
  if i + 1 < limit then do
    let tag ← m.get (base + i)
    let len ← m.get (base + i + 1)
    let a ← visit (base + i + 2) tag len.toNat a
    Input.walk visit base limit (i + 2 + len.toNat) a
  else some a
termination_by limit - i

section DemuxParameters

/-- `1 << x`, where the processor takes the shift modulo 32. -/
def oneShl (x : Byte) : BitVec 32 := 1 <<< (x.toNat % 32)

/-- `DEMUX_CA_MASK_ADAPTER`. -/
def demuxCaMaskAdapter (boxtype : Boxtype) (o len : ℕ) (p : Params) : Option Params :=
  if len = 0x02 ∧ (boxtype = .pc ∨ boxtype = .pcNodmx ∨ boxtype = .samygo) then do
    let demuxIndex ← m.get o
    let adapterIndex ← m.get (o + 1)
    some { p with demuxIndex, adapterIndex, caMask := oneShl adapterIndex }
  else if len = 0x03 ∧ boxtype = .qboxhd then do
    let demuxIndex ← m.get (o + 1)
    let adapterIndex ← m.get (o + 2)
    some { p with demuxIndex, adapterIndex, caMask := oneShl adapterIndex }
  else if len = 0x02 then do
    let mask ← m.get o
    let demuxTmp ← m.get (o + 1)
    let caMask := if demuxTmp.toNat ≥ 8 ∧ mask = 0 then oneShl demuxTmp else mask.setWidth 32
    some { p with caMask, demuxIndex := if demuxTmp = 0xFF then 0 else demuxTmp }
  else some p

/-- One private descriptor. -/
def demuxParameter (boxtype : Boxtype) (o : ℕ) (tag : Byte) (len : ℕ) (p : Params) : Option Params :=
  if tag = 0x81 ∧ len = 0x08 then do
    let ens ← m.b2i 4 o
    let tsid ← m.b2i 2 (o + 4)
    let onid ← m.b2i 2 (o + 6)
    some { p with ens, tsid := tsid.setWidth 16, onid := onid.setWidth 16 }
  else if tag = 0x82 then demuxCaMaskAdapter m boxtype o len p
  else if tag = 0x83 ∧ len = 0x01 then do
    let adapterIndex ← m.get o
    some { p with adapterIndex }
  else if tag = 0x84 ∧ len = 0x02 then do
    let pmtpid ← m.b2i 2 o
    some { p with pmtpid := pmtpid.setWidth 16 }
  else if tag = 0x86 ∧ len = 0x01 then do
    let demuxIndex ← m.get o
    some { p with demuxIndex, caMask := oneShl demuxIndex }
  else if tag = 0x87 ∧ len = 0x01 then do
    let device ← m.get o
    some { p with caMask := oneShl device }
  else some p

/-- `get_demux_parameters`. -/
def getDemuxParameters (boxtype : Boxtype) : Option Params := do
  let programNumber ← m.b2i 2 1
  let programInfoLength ← m.b2i 2 4
  m.walk (demuxParameter m boxtype) 0 (5 + (programInfoLength &&& 0x0FFF).toNat) 7
    ⟨0, 0, 1, programNumber.setWidth 16, 0, 0, 0, 0⟩

end DemuxParameters

/-- `s_ecmpid`. -/
structure Ecmpid where
  caid : BitVec 16
  ecmPid : BitVec 16
  provid : BitVec 32
  cadata : BitVec 32
  streams : BitVec 32
  vpid : BitVec 16
deriving DecidableEq

inductive StreamType
  | undefined
  | video
  | audio
  | subtitle
deriving DecidableEq

/-- The part of `demux_s` that the parser fills, the pid of the video stream, and the command of a CA PMT if
it has been read. -/
structure Program where
  ecmpids : List Ecmpid
  streams : List (BitVec 16 × StreamType)
  videoPid : BitVec 16
  caPmtCmdId : Option Byte

/-- A priority entry of type 'j'. -/
structure Join where
  caid : BitVec 16
  provid : BitVec 32
  ecmpid : BitVec 16
  srvid : BitVec 16
  mapcaid : BitVec 16
  mapprovid : BitVec 32
  mapecmpid : BitVec 16

/-- What the parser reads besides the bytes. -/
structure Context where
  boxtype : Boxtype
  joins : List Join
  programNumber : BitVec 16
  pmtpid : BitVec 16

section Ecmpids

def Ecmpid.hit (e : Ecmpid) (caid ecmpid : BitVec 16) (provid : BitVec 32) : Bool :=
  e.caid = caid ∧ e.ecmPid = ecmpid ∧ (provid = 0 ∨ e.provid = provid)

/-- The ECM pid gets the stream, unless it has all of them. -/
def Ecmpid.addStream (e : Ecmpid) (stream : ℕ) : Ecmpid :=
  if e.streams = 0 then e else { e with streams := e.streams ||| 1 <<< stream }

/-- `dvbapi_add_ecmpid_int`. -/
def dvbapiAddEcmpidInt (caid ecmpid : BitVec 16) (provid cadata : BitVec 32) (d : Program) : Program :=
  let ecmpids :=
    if d.streams.length = 0 then d.ecmpids
    else d.ecmpids.map fun e =>
      if e.hit caid ecmpid provid then e.addStream (d.streams.length - 1) else e
  if d.ecmpids.any fun e => e.hit caid ecmpid provid then { d with ecmpids }
  else if d.ecmpids.length ≥ MAX_ECM_PIDS then d
  else { d with ecmpids := d.ecmpids ++ [⟨caid, ecmpid, provid, cadata, 0, 0⟩] }

def Join.meets (j : Join) (programNumber caid ecmpid : BitVec 16) (provid : BitVec 32) : Bool :=
  (j.caid = 0 ∨ j.caid = caid) ∧ (j.provid = 0 ∨ j.provid = provid) ∧ (j.ecmpid = 0 ∨ j.ecmpid = ecmpid) ∧
    (j.srvid = 0 ∨ j.srvid = programNumber)

variable (ctx : Context)

/-- `dvbapi_add_ecmpid`. -/
def dvbapiAddEcmpid (caid ecmpid : BitVec 16) (provid cadata : BitVec 32) (d : Program) : Program :=
  (ctx.joins.filter fun j => j.meets ctx.programNumber caid ecmpid provid).foldl
    (fun d j => dvbapiAddEcmpidInt j.mapcaid j.mapecmpid j.mapprovid 0 d)
    (dvbapiAddEcmpidInt caid ecmpid provid cadata d)

def caidIsBissFixed (caid : BitVec 16) : Bool := caid = 0x2600 ∨ caid = 0x2602

def caidIsSeca (caid : BitVec 16) : Bool := caid >>> 8 = 0x01

def caidIsViaccess (caid : BitVec 16) : Bool := caid >>> 8 = 0x05

def caidIsNagra (caid : BitVec 16) : Bool := caid >>> 8 = 0x18

def caidIsDre (caid : BitVec 16) : Bool := caid = 0x4AE0 ∨ caid = 0x4AE1 ∨ caid = 0x2710

/-- A record of a SECA descriptor: pid and provider; the rest is for the log. -/
def secaRecord (caSystemId : BitVec 16) (i : ℕ) (d : Program) : Option Program := do
  let caPid ← m.b2i 2 i
  let caProvider ← m.b2i 2 (i + 2)
  let _ ← m.slice (i + 5) 10
  some (dvbapiAddEcmpid ctx caSystemId (caPid.setWidth 16 &&& 0x1FFF) caProvider 0 d)

/-- The provider and the CA data of the other systems. -/
def caPrivate (caSystemId : BitVec 16) (o len : ℕ) : Option (BitVec 32 × BitVec 32) :=
  if caidIsViaccess caSystemId ∧ len = 0x0F then do
    if (← m.get (o + 10)) = 0x14 then
      let caProvider ← m.b2i 3 (o + 12)
      some (caProvider &&& 0xFFFFF0, 0)
    else some (0, 0)
  else if caidIsNagra caSystemId ∧ len = 0x07 then do
    let caProvider ← m.b2i 2 (o + 5)
    some (caProvider, 0)
  else if (caSystemId >>> 8 = 0x4A ∨ caSystemId = 0x2710) ∧ len > 0x04 then do
    let caProvider ← m.get (o + 4)
    if caidIsDre caSystemId ∧ len = 0x0A then
      let caData ← m.b2i 4 (o + 6)
      some (caProvider.setWidth 32, caData)
    else some (caProvider.setWidth 32, 0)
  else some (0, 0)

/-- `dvbapi_parse_pmt_ca_descriptor`. -/
def dvbapiParsePmtCaDescriptor (o len : ℕ) (d : Program) : Option Program :=
  if len < 4 then some d
  else do
    let caSystemId ← m.b2i 2 o
    let caPid ← m.b2i 2 (o + 2)
    let caSystemId := caSystemId.setWidth 16
    let caPid := caPid.setWidth 16 &&& 0x1FFF
    if caSystemId = 0 ∨ (caidIsBissFixed caSystemId = false ∧ caPid = 0x1FFF) then some d
    else if caidIsSeca caSystemId then
      (List.range ((len + 12) / 15)).foldlM (fun d k => secaRecord m ctx caSystemId (o + 2 + 15 * k) d) d
    else do
      let (caProvider, caData) ← caPrivate m caSystemId o len
      some (dvbapiAddEcmpid ctx caSystemId caPid caProvider caData d)

end Ecmpids

section Streams

variable (ctx : Context)

/-- `dvbapi_parse_pmt_program_info`. -/
def dvbapiParsePmtProgramInfo (capmt : Bool) (o length : ℕ) (d : Program) : Option Program := do
  let d ← if capmt then (m.get o).map fun cmd => { d with caPmtCmdId := some cmd } else some d
  m.walk (fun o tag len d => if tag = 0x09 then dvbapiParsePmtCaDescriptor m ctx o len d else some d)
    o length (if capmt then 1 else 0) d

def formatIdentifiersAudio : List (List Byte) :=
  ["AC-3", "BSSD", "dmat", "DRA1", "DTS1", "DTS2", "DTS3", "EAC3", "mlpa", "Opus"].map fun s =>
    s.toList.map fun c => .ofNat 8 c.toNat

/-- What a descriptor says about the type of its stream. -/
def descriptorType (o : ℕ) (tag : Byte) (type : StreamType) : Option StreamType :=
  if tag = 0x05 then do
    let identifier ← m.slice o 4
    some (if formatIdentifiersAudio.contains identifier then .audio else type)
  else if tag = 0x59 then some .subtitle
  else if tag = 0x6A ∨ tag = 0x7A ∨ tag = 0x7B ∨ tag = 0x7C ∨ tag = 0x81 ∨ tag = 0xCC then some .audio
  else if tag = 0x7F then do
    let extension ← m.get o
    some (if extension = 0x0E ∨ extension = 0x0F ∨ extension = 0x15 then .audio
      else if extension = 0x20 then .subtitle
      else .undefined)
  else some type

/-- `dvbapi_parse_pmt_descriptors`. -/
def dvbapiParsePmtDescriptors (o length : ℕ) (d : Program × StreamType) : Option (Program × StreamType) :=
  m.walk (fun o tag len (d, type) =>
      if tag = 0x09 then (dvbapiParsePmtCaDescriptor m ctx o len d).map fun d => (d, type)
      else (descriptorType m o tag type).map fun type => (d, type))
    o length 0 d

def videoStream (streamType : Byte) : Bool :=
  [0x01, 0x02, 0x10, 0x1B, 0x20, 0x24, 0x25, 0x42, 0xD1, 0xEA].contains streamType

def audioStream (streamType : Byte) : Bool :=
  [0x03, 0x04, 0x0F, 0x11, 0x1C, 0x2D, 0x2E, 0x81].contains streamType

def basicType (streamType : Byte) (type : StreamType) : StreamType :=
  if videoStream streamType then .video
  else if audioStream streamType then .audio
  else if streamType = 0x06 ∨ streamType = 0x87 then type
  else .undefined

def Program.push (d : Program) (pid : BitVec 16) (type : StreamType) : Option Program :=
  if d.streams.length < MAX_STREAM_PIDS then some { d with streams := d.streams ++ [(pid, type)] } else none

/-- The descriptors of a stream. In a CA PMT the first byte may be the command. -/
def esDescriptors (capmt : Bool) (o length esInfoLength : ℕ) (d : Program) : Option (Program × StreamType) :=
  if esInfoLength ≠ 0 ∧ esInfoLength < length then do
    if capmt then
      let cmd ← m.get o
      let d := if ctx.boxtype = .dreambox then { d with caPmtCmdId := some cmd } else d
      let offset := if ctx.boxtype = .dreambox ∨ cmd.toNat ≤ 1 then 1 else 0
      dvbapiParsePmtDescriptors m ctx (o + offset) esInfoLength (d, .undefined)
    else dvbapiParsePmtDescriptors m ctx o esInfoLength (d, .undefined)
  else some (d, .undefined)

/-- The loop of `dvbapi_parse_pmt_es_info`, with `room` for streams; `i` is a 16-bit counter. -/
def esLoop (capmt : Bool) (base length : ℕ) : ℕ → ℕ → Program → Option Program
  | 0, _, d => some d
  | room + 1, i, d =>
    if i + 4 < length then do
      let streamType ← m.get (base + i)
      let elementaryPid ← m.b2i 2 (base + i + 1)
      let esInfoLength ← m.b2i 2 (base + i + 3)
      let elementaryPid := elementaryPid.setWidth 16 &&& 0x1FFF
      let esInfoLength := (esInfoLength &&& 0x0FFF).toNat
      let (d, type) ← esDescriptors m ctx capmt (base + i + 5) length esInfoLength d
      let d := if videoStream streamType ∧ d.videoPid = 0 then { d with videoPid := elementaryPid } else d
      let d ← d.push elementaryPid (basicType streamType type)
      esLoop capmt base length room ((i + 5 + esInfoLength) % 65536) d
    else some d

/-- The streams that are added when there are none, or no video stream. -/
def Program.fallback (d : Program) (pcrPid : BitVec 16) : Option Program := do
  let d ←
    if d.streams = [] then
      (d.push ctx.pmtpid .video).map fun d => { d with videoPid := ctx.pmtpid }
    else some d
  if d.videoPid = 0 ∧ pcrPid ≠ 0x1FFF then
    (d.push pcrPid .video).map fun d => { d with videoPid := pcrPid }
  else some d

/-- The command that the rest of the program sees. -/
def commandOf (cmd : Option Byte) : Option Byte := cmd.map fun cmd => if cmd.toNat < 1 then 1 else cmd

/-- `dvbapi_parse_pmt_info` of `length` bytes from `o` on, up to the priority entries. -/
def dvbapiParsePmtInfo (capmt : Bool) (o length : ℕ) (pcrPid : BitVec 16) : Option Program := do
  let programInfoLength ← m.b2i 2 o
  let programInfoLength := (programInfoLength &&& 0x0FFF).toNat
  let d : Program := ⟨[], [], 0, none⟩
  let d ←
    if programInfoLength ≠ 0 ∧ programInfoLength < length then
      dvbapiParsePmtProgramInfo m ctx capmt (o + 2) programInfoLength d
    else some d
  let d ← esLoop m ctx capmt (o + 2 + programInfoLength) ((length + 65536 - 2 - programInfoLength) % 65536)
    MAX_STREAM_PIDS 0 d
  let d ← { d with caPmtCmdId := commandOf d.caPmtCmdId }.fallback ctx pcrPid
  some { d with ecmpids := d.ecmpids.map fun e => { e with vpid := d.videoPid } }

end Streams

end NCam.Capmt
