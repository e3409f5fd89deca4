import NCam.Cacheex.Filter
import NCam.Lib.Counter

/-! The feature messages of cacheex-AIO: the settings they carry, and the senders and receivers of the
CCcam and of the camd35 transport. -/
namespace NCam.Cacheex.FeatureTrigger

open NCam.Lib.Memory NCam.Lib.Counter NCam.Lib.Records NCam.Util NCam.Cacheex.Filter

def maxEcmSize : ℕ := 1024

def csMaxprov : ℕ := 128

def noProvidValue : BitVec 32 := 0xfffffe

/-- `CS_AIO_VERSION`, 9.2.6. -/
def csAioVersion : List Byte := [0x39, 0x2e, 0x32, 0x2e, 0x36]

/-- `FILTER`, with the used part of `prids`. -/
structure Filt where
  caid : BitVec 16
  prids : List (BitVec 32)
deriving DecidableEq

abbrev Ftab := List Filt

/-- `CAIDVALUETAB_DATA`. -/
structure CaidvaluetabData where
  caid : BitVec 16
  value : BitVec 16
deriving DecidableEq

abbrev Caidvaluetab := List CaidvaluetabData

inductive Feature
  | localgeneratedOnly
  | lgOnlyCaidtab
  | ecmFilter
  | noPushAfter
  | maxHop
  | aioVersion
  | lgOnlyTab
deriving DecidableEq

/-- The number of a feature in the messages. -/
def Feature.bit : Feature → BitVec 32
  | .localgeneratedOnly => 1
  | .lgOnlyCaidtab => 2
  | .ecmFilter => 4
  | .noPushAfter => 8
  | .maxHop => 16
  | .aioVersion => 32
  | .lgOnlyTab => 64

def Feature.all : List Feature :=
  [.localgeneratedOnly, .lgOnlyCaidtab, .ecmFilter, .noPushAfter, .maxHop, .aioVersion, .lgOnlyTab]

def Feature.ofBit (n : BitVec 32) : Option Feature := Feature.all.find? fun f => f.bit = n

/-- A setting that a feature carries. -/
inductive Setting
  | localgeneratedOnly (flag : Byte)
  | lgOnlyTab (tab : Ftab)
  | ecmFilter (filter : Cecspvaluetab)
  | noPushAfter (ctab : Caidvaluetab)
  | maxHop (maxhop maxhopLg : Byte)
  | aioVersion (version : List Byte)
deriving DecidableEq

/-- The fields of `CECSP` that the features use. -/
structure Cecsp where
  mode : ℤ
  maxhop : Byte
  maxhopLg : Byte
  filterCaidtab : Cecspvaluetab
  allowFilter : Byte
  allowMaxhop : Byte
  localgeneratedOnly : Byte
  lgOnlyTab : Ftab
  localgeneratedOnlyIn : Byte
  lgOnlyInTab : Ftab
  lgOnlyRemoteSettings : Byte
  featureBitfield : BitVec 32
  cacheexNopushafterTab : Caidvaluetab
  aioVersion : List Byte

structure Client where
  kill : Bool
  typ : Char
  cacheexAioChecked : Bool
  account : Cecsp
  reader : Cecsp

/-- The global settings. -/
structure Cfg where
  cacheexLocalgeneratedOnlyIn : Byte
  cacheexLgOnlyInTab : Ftab
  cacheexFilterCaidtab : Cecspvaluetab
  cacheexFilterCaidtabAio : Cecspvaluetab
  cacheexNopushafterTab : Caidvaluetab
  cacheexLgOnlyRemoteSettings : Byte

inductive Transport
  | cccam
  | camd35
deriving DecidableEq

/-- The bytes of a message before the payload. -/
def Transport.header : Transport → ℕ
  | .cccam => 0
  | .camd35 => 20

/-- `sizeof(payload)`. -/
def Transport.capacity (t : Transport) : ℕ := maxEcmSize - (t.header + 4)

/-- CCcam pads two of its messages to 32 bytes, camd35 all of them. -/
def Transport.pad (t : Transport) (feature : Feature) (size : ℕ) : ℕ :=
  if (t = .camd35 ∨ feature = .lgOnlyCaidtab ∨ feature = .lgOnlyTab) ∧ size < 32 then 32 else size

/-- The array `payload`, the index `i` in it, and the end of what was written so far. -/
structure Payload where
  mem : ℕ → Byte
  i : ℕ
  top : ℕ

def Payload.empty : Payload := ⟨fun _ => 0, 0, 0⟩

def Payload.write (p : Payload) (bs : List Byte) : Payload :=
  { p with mem := put p.mem p.i bs, top := max p.top (p.i + bs.length) }

def Payload.skip (p : Payload) (n : ℕ) : Payload := { p with i := p.i + n }

def Payload.append (p : Payload) (bs : List Byte) : Payload := (p.write bs).skip bs.length

/-- The bitfield and the payload size. -/
def Payload.start (feature : Feature) (len : ℕ) : Payload :=
  (Payload.empty.append (i2b 2 feature.bit)).append (i2b 2 (.ofNat 32 len))

/-- How a sender ends: still in its loop when the fuel is used up, with a return, or with a message. -/
inductive Trigger
  | endless
  | unsent
  | sent (size : ℕ) (payload : Payload)

/-- The message, if the loop that fills the payload ends. -/
def Trigger.ofLoop (size : ℕ) : Option Payload → Trigger
  | none => .endless
  | some p => .sent size p

/-- A number of entries and the entries, `w` bytes each. -/
def sendTable {α : Type} (t : Transport) (feature : Feature) (w : ℕ) (max255 : Bool)
    (write : Payload → α → Payload) (fuel : ℕ) (tab : List α) : Trigger :=
  let len := tab.length * w + 1
  let size := t.pad feature ((t.header + 4 + len) % 2 ^ 16)
  if len > t.capacity then .unsent
  else if max255 ∧ tab.length > 255 then .unsent
  else
    let p := (Payload.start feature len).append [.ofNat 8 tab.length]
    .ofLoop size (countUp 256 1 tab.length (atEntry write tab) fuel 0 p)

/-- An entry without a caid is left out. -/
def putCaid (p : Payload) (d : Filt) : Payload :=
  if d.caid ≠ 0 then p.append (i2b 2 (d.caid.setWidth 32)) else p

/-- A field of `n` bytes; zero is not written. -/
def putField (n : ℕ) (v : BitVec 32) (p : Payload) : Payload :=
  (if v ≠ 0 then p.write (i2b n v) else p).skip n

/-- Without a caid the fields behind it move up. -/
def putFilterEntry (p : Payload) (d : CecspvaluetabData) : Payload :=
  let p := if d.caid ≠ 0 then p.append (i2b 2 d.caid) else p
  putField 2 d.srvid (putField 3 d.prid (putField 2 d.cmask p))

def putCaidvalue (p : Payload) (d : CaidvaluetabData) : Payload :=
  if d.caid ≠ 0 then
    (p.append (i2b 2 (d.caid.setWidth 32))).append (i2b 2 (d.value.setWidth 32))
  else p

/-- One filter of `cxaio_ftab_to_buf`. -/
def printFilt (d : Filt) : List Char :=
  printHex 4 (d.caid.setWidth 32) ++
    (if d.prids.length = 0 then ['0', '1'] ++ ['0', '0', '0', '0', '0', '0']
      else printHex 2 (.ofNat 32 d.prids.length)) ++
    d.prids.flatMap (printHex 6)

def cxaioFtabToBuf (tab : Ftab) : List Char := tab.flatMap printFilt

/-- The length `l` that `cxaio_ftab_to_buf` computes for its buffer. -/
def cxaioFtabSize (tab : Ftab) : ℕ :=
  (tab.map fun d => 4 + 2 + 6 * d.prids.length + if d.prids.length = 0 then 6 else 0).sum

def hexNibble (c : Char) : Byte := (gethexval c).elim (-1) (.ofNat 8 ·)

/-- The byte of two digits. -/
def hexByte (c d : Char) : Byte := hexNibble c <<< 4 ||| hexNibble d

def putHex (str : List Char) (j : ℕ) (p : Payload) : Payload :=
  p.append [hexByte (str.getD j '\x00') (str.getD (j + 1) '\x00')]

/-- For an empty table only the bitfield is set. -/
def sendLgOnlyTab (t : Transport) (fuel : ℕ) (tab : Ftab) : Trigger :=
  let p := Payload.empty.append (i2b 2 Feature.lgOnlyTab.bit)
  let str := cxaioFtabToBuf tab
  if str.length > 0 then
    let size := (t.header + 4 + str.length) % 2 ^ 16
    let p := (p.append (i2b 2 (.ofNat 32 str.length))).append [.ofNat 8 tab.length]
    .ofLoop (t.pad .lgOnlyTab size) (countUp 256 2 str.length (putHex str) fuel 0 p)
  else .sent (t.pad .lgOnlyTab (t.header + 4)) p

/-- A payload of fixed length `len` with `bs` in it. -/
def sendBytes (t : Transport) (feature : Feature) (len : ℕ) (bs : List Byte) : Trigger :=
  .sent (t.pad feature (t.header + 4 + len)) ((Payload.start feature len).write bs)

/-- The version in an array of 12 bytes that was not initialised. -/
def versionToken (stack : ℕ → Byte) : List Byte := slice (put stack 0 (csAioVersion ++ [0])) 0 12

/-- The own table, or the global one if it is empty. -/
def ownOr {α : Type} (own cfg : List α) : List α := if own.length = 0 then cfg else own

/-- The own filter, or a global one if it is empty. -/
def filterOf (cfg : Cfg) (cl : Client) (own : Cecsp) : Cecspvaluetab :=
  let filter :=
    if own.filterCaidtab.length = 0 ∧ cfg.cacheexFilterCaidtab.length > 0 then
      cfg.cacheexFilterCaidtab
    else own.filterCaidtab
  if own.filterCaidtab.length = 0 ∧ cfg.cacheexFilterCaidtabAio.length > 0 ∧ cl.cacheexAioChecked ∧
      own.featureBitfield &&& 4 ≠ 0 then
    cfg.cacheexFilterCaidtabAio
  else filter

def flagOf (cfg : Cfg) (own : Cecsp) : Byte :=
  if own.localgeneratedOnlyIn ≠ 0 then own.localgeneratedOnlyIn else cfg.cacheexLocalgeneratedOnlyIn

/-- The settings that a sender uses in mode 2 and in mode 3. -/
def Client.sender (cl : Client) (mode : ℕ) : Option Cecsp :=
  if mode = 2 then some cl.reader else if mode = 3 then some cl.account else none

/-- `cc_cacheex_feature_trigger` and `camd35_cacheex_feature_trigger`, up to the sending. -/
def featureTrigger (t : Transport) (stack : ℕ → Byte) (fuel : ℕ) (cfg : Cfg) (cl : Client)
    (feature : Feature) (mode : ℕ) : Trigger :=
  if cl.kill then .unsent
  else
    match feature, cl.sender mode with
    | .localgeneratedOnly, none => sendBytes t feature 1 []
    | .localgeneratedOnly, some own => sendBytes t feature 1 [flagOf cfg own]
    | .lgOnlyCaidtab, some own =>
      sendTable t feature 2 true putCaid fuel (ownOr own.lgOnlyInTab cfg.cacheexLgOnlyInTab)
    | .ecmFilter, some own => sendTable t feature 9 false putFilterEntry fuel (filterOf cfg cl own)
    | .noPushAfter, some own =>
      sendTable t feature 4 true putCaidvalue fuel
        (ownOr own.cacheexNopushafterTab cfg.cacheexNopushafterTab)
    | .maxHop, none => sendBytes t feature 2 []
    | .maxHop, some own => sendBytes t feature 2 [own.maxhop, own.maxhopLg]
    | .aioVersion, _ => sendBytes t feature 12 (versionToken stack)
    | .lgOnlyTab, some own =>
      sendLgOnlyTab t fuel (ownOr own.lgOnlyInTab cfg.cacheexLgOnlyInTab)
    | _, none => .unsent

/-- The setting that a sender means. -/
def settingOf (cfg : Cfg) (cl : Client) (own : Cecsp) : Feature → Setting
  | .localgeneratedOnly => .localgeneratedOnly (flagOf cfg own)
  | .lgOnlyCaidtab => .lgOnlyTab (ownOr own.lgOnlyInTab cfg.cacheexLgOnlyInTab)
  | .ecmFilter => .ecmFilter (filterOf cfg cl own)
  | .noPushAfter => .noPushAfter (ownOr own.cacheexNopushafterTab cfg.cacheexNopushafterTab)
  | .maxHop => .maxHop own.maxhop own.maxhopLg
  | .aioVersion => .aioVersion csAioVersion
  | .lgOnlyTab => .lgOnlyTab (ownOr own.lgOnlyInTab cfg.cacheexLgOnlyInTab)

/-- The header that camd35 puts before the payload. -/
def Transport.head : Transport → ℕ → List Byte
  | .cccam, _ => []
  | .camd35, size =>
    [0x42, .ofNat 8 (size - 20), .ofNat 8 ((size - 20) >>> 8)] ++ List.replicate 17 0

/-- The message that is sent. -/
def Transport.message (t : Transport) (size : ℕ) (p : Payload) : List Byte :=
  t.head size ++ slice p.mem 0 (size - t.header)

/-- The settings of the side a message is received on. -/
def Client.own (cl : Client) : Cecsp := if cl.typ = 'c' then cl.account else cl.reader

def Cecsp.hold (own : Cecsp) : Setting → Cecsp
  | .localgeneratedOnly flag => { own with localgeneratedOnly := flag }
  | .lgOnlyTab tab => { own with lgOnlyTab := tab }
  | .ecmFilter filter => { own with filterCaidtab := filter }
  | .noPushAfter ctab => { own with cacheexNopushafterTab := ctab }
  | .maxHop maxhop maxhopLg => { own with maxhop := maxhop, maxhopLg := maxhopLg }
  | .aioVersion version => { own with aioVersion := version }

/-- Stores a received setting. -/
def Client.hold (cl : Client) (s : Setting) : Client :=
  if cl.typ = 'c' then { cl with account := cl.account.hold s }
  else { cl with reader := cl.reader.hold s }

/-- The setting that a side holds for a feature. -/
def Cecsp.held (own : Cecsp) : Feature → Setting
  | .localgeneratedOnly => .localgeneratedOnly own.localgeneratedOnly
  | .lgOnlyCaidtab => .lgOnlyTab own.lgOnlyTab
  | .ecmFilter => .ecmFilter own.filterCaidtab
  | .noPushAfter => .noPushAfter own.cacheexNopushafterTab
  | .maxHop => .maxHop own.maxhop own.maxhopLg
  | .aioVersion => .aioVersion own.aioVersion
  | .lgOnlyTab => .lgOnlyTab own.lgOnlyTab

/-- An account of mode 1 or 2, or a reader of mode 3. -/
def Client.takes (cl : Client) : Bool :=
  (cl.typ = 'c' && (cl.own.mode = 2 || cl.own.mode = 1)) || (cl.typ = 'p' && cl.own.mode = 3)

/-- Received settings replace the local ones. -/
def Client.remote (cfg : Cfg) (cl : Client) : Bool :=
  cfg.cacheexLgOnlyRemoteSettings ≠ 0 || cl.own.lgOnlyRemoteSettings ≠ 0

def chkLgOnlyCp (caid : BitVec 16) (prid : BitVec 32) (tab : Ftab) : Bool :=
  tab.any fun d =>
    d.caid ≠ 0 && (d.caid = caid || (d.caid < 0x0100 && caid >>> 8 = d.caid)) &&
      (d.prids.length = 0 || d.prids.any fun fprid => fprid = noProvidValue || fprid = prid)

/-- An empty table has every ident. -/
def chkIdentFilter (caid : BitVec 16) (prid : BitVec 32) (tab : Ftab) : Bool :=
  tab.length = 0 || tab.any fun d => (d.caid = caid || d.caid = 0) && d.prids.contains prid

/-- The first filter of a caid. The index is one byte: without a match in 256 filters the search does not
end. -/
def searchCaid (caid : BitVec 16) (tab : Ftab) : Option (Option ℕ) :=
  match (tab.take 256).findIdx? (·.caid = caid) with
  | some l => some (some l)
  | none => if tab.length ≤ 255 then some none else none

/-- Adds a provider to the filter of the caid of `d`, or else `d`. -/
def addPrid (d : Filt) (prid : BitVec 32) (tab : Ftab) : Option Ftab :=
  (searchCaid d.caid tab).map fun
    | some l => tab.modify l fun f =>
        if f.prids.length + 1 ≤ csMaxprov then { f with prids := f.prids ++ [prid] } else f
    | none => tab ++ [d]

def mergeCaid (tab : Ftab) (d : Filt) : Option Ftab :=
  if chkLgOnlyCp d.caid noProvidValue tab then some tab else addPrid d noProvidValue tab

/-- When the filter is added for its provider `k`, the providers behind it are not read yet. -/
def mergeIdent (d : Filt) (tab : Ftab) (k : ℕ) : Option Ftab :=
  let prid := d.prids.getD k 0
  let read : Filt := ⟨d.caid, d.prids.take (k + 1) ++ List.replicate (d.prids.length - (k + 1)) 0⟩
  if chkIdentFilter d.caid prid tab then some tab else addPrid read prid tab

def mergeIdents (tab : Ftab) (d : Filt) : Option Ftab :=
  (List.range d.prids.length).foldlM (mergeIdent d) tab

section Received

variable (buf : ℕ → Byte)

def readCaid (i : ℕ) : Filt × ℕ := (⟨(b2i 2 buf i).setWidth 16, [noProvidValue]⟩, i + 2)

/-- A field in which all ones stand for -1. -/
def readField (n i : ℕ) (ones : BitVec 32) : BitVec 32 :=
  let v := b2i n buf i
  if v = ones then -1 else v

def readFilterEntry (i : ℕ) : CecspvaluetabData × ℕ :=
  (⟨readField buf 2 i 0xffff, readField buf 2 (i + 2) 0xffff, readField buf 3 (i + 4) 0xffffff,
    readField buf 2 (i + 7) 0xffff, 0, 0⟩, i + 9)

def readCaidvalue (i : ℕ) : CaidvaluetabData × ℕ :=
  (⟨(readField buf 2 i 0xffff).setWidth 16, (readField buf 2 (i + 2) 0xffff).setWidth 16⟩, i + 4)

def readPrid (i : ℕ) : BitVec 32 × ℕ := (b2i 3 buf i, i + 3)

def readIdent (i : ℕ) : Filt × ℕ :=
  let nprids := (b2i 1 buf (i + 2)).toNat
  (⟨(b2i 2 buf i).setWidth 16, records (readPrid buf) nprids (i + 3)⟩, i + 3 + 3 * nprids)

/-- `cs_strncpy` to an array of 12 characters. -/
def readVersion (i : ℕ) : List Byte := (slice buf i 11).takeWhile (· ≠ 0)

/-- The branch of a feature; `none` if it does not end or writes behind a filter. -/
def receive (t : Transport) (cfg : Cfg) (cl : Client) (feature : Feature) : Option Client :=
  let i := t.header + 4
  let filterCount := (buf i).toNat
  match feature with
  | .localgeneratedOnly =>
    if cl.takes ∧ (cl.remote cfg ∨ buf i ≠ 0) then some (cl.hold (.localgeneratedOnly (buf i)))
    else some cl
  | .lgOnlyCaidtab =>
    let caids := records (readCaid buf) filterCount (i + 1)
    if !cl.takes then some cl
    else if cl.remote cfg then some (cl.hold (.lgOnlyTab caids))
    else (caids.foldlM mergeCaid cl.own.lgOnlyTab).map fun tab => cl.hold (.lgOnlyTab tab)
  | .ecmFilter =>
    let filter := records (readFilterEntry buf) filterCount (i + 1)
    if cl.takes ∧ cl.own.allowFilter ≠ 0 then
      some (cl.hold (.ecmFilter (filter.filter fun d => 0 < d.caid.toInt)))
    else some cl
  | .noPushAfter =>
    let ctab := records (readCaidvalue buf) filterCount (i + 1)
    if cl.takes then some (cl.hold (.noPushAfter (ctab.filter fun d => 0 < d.caid))) else some cl
  | .maxHop =>
    if cl.takes ∧ cl.own.allowMaxhop ≠ 0 then some (cl.hold (.maxHop (buf i) (buf (i + 1))))
    else some cl
  | .aioVersion => some (cl.hold (.aioVersion (readVersion buf i)))
  | .lgOnlyTab =>
    let idents := records (readIdent buf) filterCount (i + 1)
    if !cl.takes then some cl
    else if idents.any fun d => csMaxprov < d.prids.length then none
    else if cl.remote cfg ∨ cl.own.lgOnlyTab.length = 0 then some (cl.hold (.lgOnlyTab idents))
    else (idents.foldlM mergeIdents cl.own.lgOnlyTab).map fun tab => cl.hold (.lgOnlyTab tab)

/-- `cc_cacheex_feature_trigger_in` and `camd35_cacheex_feature_trigger_in`. -/
def featureTriggerIn (t : Transport) (cfg : Cfg) (cl : Client) : Option Client :=
  if cl.kill ∨ ¬ ((cl.typ = 'c' ∨ cl.typ = 'p') ∧ 0 < cl.own.mode) then some cl
  else
    match Feature.ofBit (b2i 2 buf t.header) with
    | none => some cl
    | some feature => receive buf t cfg cl feature

end Received

end NCam.Cacheex.FeatureTrigger
