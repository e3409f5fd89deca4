import NCam.Util.Bytes

/-! CCcam cards and the parser of card messages. -/
namespace NCam.Cccam

open NCam.Util

abbrev NodeId := Vector Byte 8

inductive CardType
  | localCard
  | byServiceReader
  | byServiceUser
  | byCaid1
  | byCaid2
  | byCaid3
  | remoteCard
deriving DecidableEq

structure CcProvider where
  prov : BitVec 32
  sa : Vector Byte 4
deriving DecidableEq

/-- `cc_srvid`. -/
structure CcSrvid where
  sid : BitVec 16
  chid : BitVec 16
  ecmlen : Byte
deriving DecidableEq

/-- `cc_srvid_block`. -/
structure CcSrvidBlock extends CcSrvid where
  blockedTill : ℤ
deriving DecidableEq

/-- The fields of `s_sidtab` that cards use. -/
structure Sidtab where
  caid : List (BitVec 16)
  srvid : List (BitVec 16)
deriving DecidableEq

structure CcCard where
  id : BitVec 32
  remoteId : BitVec 32
  caid : BitVec 16
  hop : Byte
  reshare : Byte
  hexserial : Vector Byte 8
  providers : List CcProvider
  badsids : List CcSrvidBlock
  goodsids : List CcSrvid
  remoteNodes : List NodeId
  originId : BitVec 32
  cardType : CardType
  sidtab : Option Sidtab
  grp : BitVec 64
  rdrReshare : Byte
  sidtabno : BitVec 64
  isExt : Bool
deriving DecidableEq

def caidIsBetacrypt (caid : BitVec 16) : Bool := caid >>> 8 = 0x17

/-- `b2i` of two bytes for a 16 bit field. -/
def readSid (buf : ℕ → Byte) (offset : ℕ) : BitVec 16 := (b2i 2 buf offset).setWidth 16

/-- Provider `i` of a card message. -/
def readProvider (caid : BitVec 16) (buf : ℕ → Byte) (offset i : ℕ) : CcProvider where
  prov :=
    let prov := b2i 3 buf offset
    if prov = 0xFFFFFF ∧ caidIsBetacrypt caid then .ofNat 32 i else prov
  sa := .ofFn fun j => buf (offset + 3 + j)

/-- The card without its remote nodes, read with the given numbers of providers and sids. -/
def readCardBody (buf : ℕ → Byte) (ext : Bool) (nprov nassign nreject offset : ℕ) : CcCard where
  id := b2i 4 buf 0
  remoteId := b2i 4 buf 4
  caid := readSid buf 8
  hop := buf 10
  reshare := buf 11
  hexserial := .ofFn fun j => buf (12 + j)
  providers := (List.range nprov).map fun i => readProvider (readSid buf 8) buf (offset + 7 * i) i
  goodsids := (List.range nassign).map fun i => ⟨readSid buf (offset + 7 * nprov + 2 * i), 0, 0⟩
  badsids := (List.range nreject).map fun i =>
    ⟨⟨readSid buf (offset + 7 * nprov + 2 * nassign + 2 * i), 0, 0⟩, 0⟩
  remoteNodes := []
  originId := 0
  cardType := .remoteCard
  sidtab := none
  grp := 0
  rdrReshare := 0
  sidtabno := 0
  isExt := ext

/-- `read_card`; `none` for a message that is too short for what its counters announce. -/
def readCard (buf : ℕ → Byte) (buflen : ℕ) (ext : Bool) : Option CcCard :=
  if buflen < 21 then none
  else
    let nprov := (buf 20).toNat
    if ext && buflen < 23 then none
    else
      let nassign := if ext then (buf 21).toNat else 0
      let nreject := if ext then (buf 22).toNat else 0
      let offset := if ext then 23 else 21
      if buflen < offset + nprov * 7 then none
      else if ext && buflen < offset + nprov * 7 + nassign * 2 + nreject * 2 then none
      else
        let card := readCardBody buf ext nprov nassign nreject offset
        let offset := offset + nprov * 7 + nassign * 2 + nreject * 2
        if buflen < offset + 1 then some card
        else
          let remoteCount := (buf offset).toNat
          if buflen < offset + 1 + remoteCount * 8 then none
          else
            some { card with
              remoteNodes := (List.range remoteCount).map fun i =>
                .ofFn fun j => buf (offset + 1 + 8 * i + j) }

end NCam.Cccam
