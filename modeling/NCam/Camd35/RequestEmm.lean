import NCam.Camd35.Frame

/-! The card data of command 05: `camd35_request_emm`, and what `camd35_recv_chk` takes from it. -/
namespace NCam.Camd35

open NCam.Lib.Memory NCam.Util

def CS_MAXPROV : ℕ := 128

def EMM_UNIQUE : BitVec 32 := 1
def EMM_SHARED : BitVec 32 := 2
def EMM_GLOBAL : BitVec 32 := 4
def EMM_UNKNOWN : BitVec 32 := 8

def emmTypes : List (BitVec 32) := [EMM_UNKNOWN, EMM_GLOBAL, EMM_SHARED, EMM_UNIQUE]

def caidIsIrdeto (caid : BitVec 16) : Bool := caid >>> 8 = 0x06
def caidIsBetacrypt (caid : BitVec 16) : Bool := caid >>> 8 = 0x17
def caidIsBulcrypt (caid : BitVec 16) : Bool := caid = 0x5581 ∨ caid = 0x4AEE
def caidIsStreamguard (caid : BitVec 16) : Bool := caid = 0x4AD2 ∨ caid = 0x4AD3
def caidIsDvn (caid : BitVec 16) : Bool := caid = 0x4A30
def caidIsTongfang (caid : BitVec 16) : Bool := caid = 0x4A02 ∨ (0x4B00 ≤ caid ∧ caid ≤ 0x4BFF)

/-- The card of a reader, with the four bytes of each provider id that are used. -/
structure Card where
  caid : BitVec 16
  hexserial : Vector Byte 8
  nprov : ℕ
  prid : ℕ → Vector Byte 4
  sa : ℕ → Vector Byte 4
  blockemm : BitVec 32
  auprovid : BitVec 32

/-- A reader of the server; its providers fit into `prid`. -/
structure AuReader extends Card where
  id : ℕ
  audisabled : Bool
  saveemm : BitVec 32
  nprov_le : nprov ≤ CS_MAXPROV

structure EmmRequest where
  srvid : BitVec 16
  caid : BitVec 16
  prid : BitVec 32
  pid : BitVec 16
  selectedReader : Option AuReader

/-- The client that gets the card data. -/
structure AuClient where
  aureaderList : Option (List AuReader)
  lastserial : Vector Byte 8
  last : ℤ
  disableCounter : ℤ

/-- The reader whose card is sent; `emmReaderMatch` is `emm_reader_match`. -/
def selectAureader (emmReaderMatch : AuReader → BitVec 16 → BitVec 32 → Bool) (er : EmmRequest)
    (cl : AuClient) : Option AuReader :=
  let readers := cl.aureaderList.getD []
  match er.selectedReader.filter fun rdr => !rdr.audisabled && readers.any (·.id = rdr.id) with
  | some rdr => some rdr
  | none => readers.find? fun rdr => emmReaderMatch rdr er.caid er.prid

/-- A card without a caid is announced with that of the request for four systems. -/
def auCaid (rdr : AuReader) (er : EmmRequest) : BitVec 16 :=
  if rdr.caid = 0 ∧ (caidIsBulcrypt er.caid ∨ caidIsStreamguard er.caid ∨ caidIsTongfang er.caid ∨
      caidIsDvn er.caid) then er.caid
  else rdr.caid

/-- Provider ids of four bytes and no shared address. -/
def fourBytes (caid : BitVec 16) : Bool := caidIsBetacrypt caid || caidIsIrdeto caid

/-- The loop body for provider `i`. -/
def putProvider (four : Bool) (rdr : Card) (mbuf : ℕ → Byte) (i : ℕ) : ℕ → Byte :=
  if four then
    let mbuf := put mbuf (48 + i * 5) [(rdr.prid i)[0]!]
    put mbuf (50 + i * 5) [(rdr.prid i)[1]!, (rdr.prid i)[2]!, (rdr.prid i)[3]!]
  else
    let mbuf := put mbuf (48 + i * 5) [(rdr.prid i)[2]!]
    let mbuf := put mbuf (49 + i * 5) [(rdr.prid i)[3]!]
    put mbuf (50 + i * 5) (rdr.sa i).toList

/-- The byte that announces whether EMMs of a type are wanted. -/
def emmFlag (rdr : AuReader) (type : BitVec 32) : Byte :=
  if rdr.blockemm &&& type ≠ 0 ∧ rdr.saveemm &&& type = 0 then 0 else 1

/-- The header of the message. -/
def cardHead (er : EmmRequest) (rdr : AuReader) : ℕ → Byte :=
  let mbuf := put (fun _ => 0) 2 [0xFF, 0xFF]
  let mbuf := i2bBuf 2 (er.srvid.setWidth 32) mbuf 8
  let mbuf := i2bBuf 4 (if rdr.auprovid ≠ 0 then
    (if rdr.auprovid ≠ er.prid then rdr.auprovid else er.prid) else er.prid) mbuf 12
  let mbuf := i2bBuf 2 (er.pid.setWidth 32) mbuf 16
  put mbuf 0 [5, 111]

/-- The card up to its providers. -/
def putCardHead (caid : BitVec 16) (rdr : AuReader) (mbuf : ℕ → Byte) : ℕ → Byte :=
  let mbuf := put mbuf 39 [1]
  let mbuf := put mbuf 20 [(caid >>> 8).setWidth 8, (caid &&& 0xFF).setWidth 8]
  let mbuf := put mbuf 40 (rdr.hexserial.toList.take 6)
  put mbuf 47 [.ofNat 8 rdr.nprov]

/-- The loop over the providers. -/
def putProviders (caid : BitVec 16) (rdr : AuReader) (mbuf : ℕ → Byte) : ℕ → Byte :=
  (List.range rdr.nprov).foldl (putProvider (fourBytes caid) rdr.toCard) mbuf

def putFlags (rdr : AuReader) (mbuf : ℕ → Byte) : ℕ → Byte :=
  let mbuf := put mbuf 128 [emmFlag rdr EMM_GLOBAL]
  let mbuf := put mbuf 129 [emmFlag rdr EMM_SHARED]
  let mbuf := put mbuf 130 [emmFlag rdr EMM_UNIQUE]
  put mbuf 127 [emmFlag rdr EMM_UNKNOWN]

/-- The card behind the header. -/
def putCard (caid : BitVec 16) (rdr : AuReader) (mbuf : ℕ → Byte) : ℕ → Byte :=
  putFlags rdr (putProviders caid rdr (putCardHead caid rdr mbuf))

/-- What disables EMMs. -/
def putNoCard (mbuf : ℕ → Byte) : ℕ → Byte :=
  let mbuf := put mbuf 20 [1]
  let mbuf := put mbuf 39 [1]
  let mbuf := put mbuf 40 [1]
  let mbuf := put mbuf 47 [1]
  put mbuf 49 [1]

/-- `mbuf` for the first of the two messages. -/
def cardMessage (er : EmmRequest) (rdr : AuReader) : ℕ → Byte :=
  let mbuf := cardHead er rdr
  let mbuf := if auCaid rdr er ≠ 0 then putCard (auCaid rdr er) rdr mbuf else putNoCard mbuf
  put mbuf 10 (slice mbuf 20 2)

/-- `camd35_request_emm`: the client afterwards and the messages that are sent. -/
def camd35RequestEmm (emmReaderMatch : AuReader → BitVec 16 → BitVec 32 → Bool) (now : ℤ)
    (er : EmmRequest) (cl : AuClient) : AuClient × List (ℕ → Byte) :=
  match selectAureader emmReaderMatch er cl with
  | none => (cl, [])
  | some rdr =>
    if cl.lastserial = rdr.hexserial ∧ (now - cl.last).natAbs < 180 then (cl, [])
    else
      let cl := { cl with lastserial := rdr.hexserial, last := now }
      let messages := [cardMessage er rdr, put (cardMessage er rdr) 1 [112]]
      if auCaid rdr er ≠ 0 then ({ cl with disableCounter := 0 }, messages)
      else if cl.disableCounter > 2 then (cl, [])
      else ({ cl with disableCounter := cl.disableCounter + 1 }, messages)

/-- The loop body of the receiver for provider `i`. -/
def getProvider (buf : ℕ → Byte) (rdr : Card) (i : ℕ) : Card :=
  if fourBytes rdr.caid then
    let prid :=
      #v[buf (48 + i * 5), buf (50 + i * 5), buf (50 + i * 5 + 1), buf (50 + i * 5 + 2)]
    { rdr with prid := Function.update rdr.prid i prid }
  else
    let prid := #v[(rdr.prid i)[0]!, (rdr.prid i)[1]!, buf (48 + i * 5), buf (49 + i * 5)]
    let sa :=
      #v[buf (50 + i * 5), buf (50 + i * 5 + 1), buf (50 + i * 5 + 2), buf (50 + i * 5 + 3)]
    { rdr with prid := Function.update rdr.prid i prid, sa := Function.update rdr.sa i sa }

/-- What the flag bytes say. -/
def readBlockemm (buf : ℕ → Byte) : BitVec 32 :=
  (if buf 128 = 1 then 0 else EMM_GLOBAL) ||| (if buf 129 = 1 then 0 else EMM_SHARED) |||
    (if buf 130 = 1 then 0 else EMM_UNIQUE) ||| (if buf 127 = 1 then 0 else EMM_UNKNOWN)

/-- The part of `camd35_recv_chk` for command 05. -/
def recvCmd05 (getblockemmauprovid : Bool) (rdr : Card) (buf : ℕ → Byte) : Card :=
  if buf 0 = 5 ∧ buf 1 = 111 then
    let rdr := { rdr with nprov := (buf 47).toNat, caid := (b2i 2 buf 20).setWidth 16 }
    let rdr := (List.range rdr.nprov).foldl (getProvider buf) rdr
    let hexserial := #v[buf 40, buf 41, buf 42, buf 43, buf 44, buf 45, 0, 0]
    let rdr := { rdr with hexserial := hexserial }
    if getblockemmauprovid then { rdr with blockemm := readBlockemm buf, auprovid := b2i 4 buf 12 }
    else rdr
  else rdr

end NCam.Camd35
