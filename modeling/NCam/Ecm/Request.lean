import Mathlib.Data.Int.Notation
import Mathlib.Data.Nat.Notation

/-! ECM requests of `ncam-ecm.c`, with what `get_cw` does to them before their hash is computed: the
card system guess, the quickfixes, the whitelist and the client's filters. -/
namespace NCam.Ecm

abbrev Byte := BitVec 8
abbrev Caid := BitVec 16

def E_FOUND : ℕ := 0
def E_CACHE1 : ℕ := 1
def E_CACHE2 : ℕ := 2
def E_CACHEEX : ℕ := 3
def E_NOTFOUND : ℕ := 4
def E_TIMEOUT : ℕ := 5
def E_SLEEPING : ℕ := 6
def E_FAKE : ℕ := 7
def E_INVALID : ℕ := 8
def E_CORRUPT : ℕ := 9
def E_NOCARD : ℕ := 10
def E_EXPDATE : ℕ := 11
def E_DISABLED : ℕ := 12
def E_STOPPED : ℕ := 13
def E_99 : ℕ := 99
def E_UNHANDLED : ℕ := 100
def E_ALREADY_SENT : ℕ := 101
def E_WAITING : ℕ := 102

def MAX_ECM_SIZE : ℤ := 1024

/-- The fields of `ECM_REQUEST` that decide how its section is hashed. The `rc` field is passed beside
the request. -/
structure EcmRequest where
  ecm : ℕ → Byte
  ecmlen : ℤ
  caid : Caid
  ocaid : Caid
  srvid : BitVec 16
  chid : BitVec 16
  pid : BitVec 16
  prid : BitVec 32
  btun : ℕ

/-- `s_irdeto_quess`. -/
structure IrdetoGuess where
  b47 : BitVec 32
  caid : Caid
  sid : BitVec 16

/-- `s_global_whitelist`; a zero field matches everything. -/
structure WhitelistEntry where
  type : Char
  caid : Caid
  provid : BitVec 32
  srvid : BitVec 16
  chid : BitVec 16
  pid : BitVec 16
  ecmlen : ℕ
  mapcaid : Caid
  mapprovid : BitVec 32

/-- `CAIDTAB_DATA`. -/
structure CaidtabData where
  caid : Caid
  mask : Caid
  cmap : Caid

/-- `TUNTAB_DATA`. -/
structure TuntabData where
  btCaidfrom : Caid
  btCaidto : Caid
  btSrvid : BitVec 16

/-- What `get_cw` reads besides the request: configuration, account and client. The filters that only
read the request are predicates on it. -/
structure Setting where
  ecmCacheDrops : EcmRequest → Bool
  anonymous : Bool
  grp : Bool
  itab : Byte → List IrdetoGuess
  len4caid : ℕ → Caid
  lbAutoBetatunnelMode : ℤ
  ncdPrid : Option (BitVec 32)
  expired : Bool
  outOfTimeframe : Bool
  disabled : Bool
  globalWhitelist : List WhitelistEntry
  globalWhitelistUseM : Bool
  globalWhitelistUseL : Bool
  cacheex2 : Bool
  asleep : EcmRequest → Bool
  c35Sleepsend : Bool
  dup : Bool
  ctab : List CaidtabData
  chkSrvid : EcmRequest → Bool
  chkOnBtun : EcmRequest → Bool
  chkUfilters : EcmRequest → Bool
  chkSfilter : EcmRequest → Bool
  ttab : List TuntabData

def caidIsFake (caid : Caid) : Bool := caid = 0xffff
def caidIsBiss (caid : Caid) : Bool := caid >>> 8 = 0x26
def caidIsBetacrypt (caid : Caid) : Bool := caid >>> 8 = 0x17
def caidIsBulcrypt (caid : Caid) : Bool := caid = 0x5581 ∨ caid = 0x4AEE
def caidIsDre (caid : Caid) : Bool := caid = 0x4AE0 ∨ caid = 0x4AE1 ∨ caid = 0x2710
def caidIsStreamguard (caid : Caid) : Bool := caid = 0x4AD2 ∨ caid = 0x4AD3

def chkIsBetatunnelCaid (caid : Caid) : ℕ :=
  if caid = 0x1702 ∨ caid = 0x1722 then 1
  else if caid = 0x1801 ∨ caid = 0x1833 ∨ caid = 0x1834 ∨ caid = 0x1835 then 2
  else 0

/-- The big-endian number in `n` bytes. -/
def b2i (n : ℕ) (b : ℕ → Byte) : BitVec 32 :=
  (List.range n).foldl (fun v i => v <<< 8 ||| (b i).setWidth 32) 0

/-- `SCT_LEN`: the length in the header of a section. -/
def sctLen (sct : ℕ → Byte) : ℕ := 3 + ((sct 1).toNat % 16) * 256 + (sct 2).toNat

def getOddEven (er : EcmRequest) : Byte :=
  if er.ecm 0 ≠ 0x80 ∧ er.ecm 0 ≠ 0x81 then 0 else er.ecm 0

/-- The loop of `chk_provid` over the descriptors of a cryptoworks section. -/
def cryptoworksProvid (ecm : ℕ → Byte) (len : ℕ) : ℕ → ℕ → BitVec 32
  | 0, _ => 0
  | fuel + 1, i =>
    if i < len then
      if ecm i = 0x83 then (ecm (i + 2)).setWidth 32 &&& 0xFE
      else cryptoworksProvid ecm len fuel (i + (ecm (i + 1)).toNat + 2)
    else 0

def chkProvid (ecm : ℕ → Byte) (caid : Caid) : BitVec 32 :=
  if caid >>> 8 = 0x01 then b2i 2 fun k => ecm (3 + k)
  else if caid >>> 8 = 0x05 then
    let i := if ecm 4 = 0xD2 then (ecm 5).toNat + 2 else 0
    let provid :=
      if ecm (5 + i) = 3 ∧ (ecm (4 + i) = 0x90 ∨ ecm (4 + i) = 0x40) then
        b2i 3 (fun k => ecm (6 + i + k)) &&& 0xFFFFF0
      else 0
    let i := if ecm 6 = 0xD2 then (ecm 7).toNat + 2 else 0
    if ecm (7 + i) = 7 ∧ (ecm (6 + i) = 0x90 ∨ ecm (6 + i) = 0x40) then
      b2i 3 (fun k => ecm (8 + i + k)) &&& 0xFFFFF0
    else provid
  else if caid >>> 8 = 0x0D then cryptoworksProvid ecm (sctLen ecm) (sctLen ecm) 8
  else if caid = 0x1801 then b2i 2 fun k => ecm (5 + k)
  else 0

def getSubid (er : EcmRequest) : BitVec 32 :=
  if er.ecmlen = 0 then 0
  else if er.caid >>> 8 = 0x01 then b2i 2 fun k => er.ecm (7 + k)
  else if er.caid >>> 8 = 0x05 then b2i 2 fun k => er.ecm (8 + k)
  else if er.caid >>> 8 = 0x06 then b2i 2 fun k => er.ecm (6 + k)
  else if er.caid >>> 8 = 0x09 then b2i 2 fun k => er.ecm (11 + k)
  else if er.caid >>> 8 = 0x4A ∧ !caidIsBulcrypt er.caid ∧ !caidIsDre er.caid ∧
      !caidIsStreamguard er.caid then
    b2i 2 fun k => er.ecm (6 + k)
  else 0

def updateChid (er : EcmRequest) : EcmRequest := { er with chid := (getSubid er).setWidth 16 }

section Guess

variable (cfg : Setting)

def guessIrdeto (er : EcmRequest) : EcmRequest :=
  match (cfg.itab (er.ecm 3)).find? fun ptr => b2i 4 (fun k => er.ecm (4 + k)) = ptr.b47 with
  | none => er
  | some ptr =>
    if er.srvid ≠ 0 ∧ er.srvid ≠ ptr.sid then er
    else { er with caid := ptr.caid, srvid := ptr.sid, chid := ptr.b47.setWidth 16 }

def guessCardsystem (er : EcmRequest) : EcmRequest :=
  let byte (k : ℕ) := (er.ecm k).toNat
  -- viaccess
  let er := { er with prid := chkProvid er.ecm 0x500 }
  let er := if er.prid ≠ 0 then { er with caid := 0x500 } else er
  -- nagra
  let er := if byte 6 = 1 ∧ byte 4 + 2 = byte 2 then { er with caid := 0x1801 } else er
  -- seca2
  let lastHope : Caid := if byte 8 = 0x10 ∧ er.ecm 9 &&& 0xF1 = 1 then 0x100 else 0
  -- cryptoworks
  let lastHope : Caid :=
    if byte 3 = 0x81 ∧ byte 4 = 0xFF ∧ byte 5 = 0 ∧ byte 6 = 0 ∧ byte 7 + 5 = byte 2 then 0xd00
    else lastHope
  let er := if er.caid = 0 ∧ byte 2 = 0x31 ∧ byte 0x0b = 0x28 then guessIrdeto cfg er else er
  let er := if er.caid = 0 then { er with caid := cfg.len4caid (byte 2 + 3) } else er
  if er.caid = 0 then { er with caid := lastHope } else er

def checkLbAutoBetatunnelMode (er : EcmRequest) : EcmRequest :=
  let lbbm := cfg.lbAutoBetatunnelMode
  if lbbm = 1 ∨ lbbm = 4 then { er with caid := 0x1801 }
  else if lbbm = 2 ∨ lbbm = 5 then { er with caid := 0x1834 }
  else if lbbm = 3 ∨ lbbm = 6 then { er with caid := 0x1835 }
  else er

/-- The quickfix area of `get_cw`. -/
def quickfix (er : EcmRequest) : EcmRequest :=
  let er := updateChid er
  let er :=
    if er.caid = 0x100 ∧ er.prid = 0x65 ∧ er.srvid = 0 then { er with srvid := 0x0642 } else er
  let er := if er.caid = 0x500 ∧ er.prid = 0x030300 then { er with prid := 0x030600 } else er
  let er := if er.caid = 0x500 ∧ er.prid = 0xD20200 then { er with prid := 0x030600 } else er
  -- betacrypt ecm with nagra header
  let er :=
    if chkIsBetatunnelCaid er.caid = 1 ∧ (er.ecmlen = 0x89 ∨ er.ecmlen = 0x4A) ∧ er.ecm 3 = 0x07 ∧
        (er.ecm 4 = 0x84 ∨ er.ecm 4 = 0x45) then
      if er.caid = 0x1702 then { er with caid := 0x1833 } else checkLbAutoBetatunnelMode cfg er
    else er
  -- nagra ecm with betacrypt header
  let er :=
    if chkIsBetatunnelCaid er.caid = 2 ∧ (er.ecmlen = 0x93 ∨ er.ecmlen = 0x54) ∧ er.ecm 13 = 0x07 ∧
        (er.ecm 14 = 0x84 ∨ er.ecm 14 = 0x45) then
      if er.caid = 0x1833 then { er with caid := 0x1702 } else { er with caid := 0x1722 }
    else er
  -- invalid nagra provider
  if er.caid &&& 0xFF00 = 0x1800 ∧ er.prid > 0x00FFFF then { er with prid := 0 } else er

/-- The provider from the section, or that of the newcamd server. -/
def fixProvider (er : EcmRequest) : EcmRequest :=
  let prid := chkProvid er.ecm er.caid
  let er :=
    if er.prid = 0 then { er with prid := prid }
    else if prid ≠ 0 ∧ prid ≠ er.prid then { er with prid := prid }
    else er
  if er.prid = 0 then { er with prid := cfg.ncdPrid.getD er.prid } else er

end Guess

section Whitelist

/-- The fields of a whitelist entry but its length. -/
def matchIdent (er : EcmRequest) (entry : WhitelistEntry) : Bool :=
  (entry.caid = 0 ∨ entry.caid = er.caid) ∧ (entry.provid = 0 ∨ entry.provid = er.prid) ∧
    (entry.srvid = 0 ∨ entry.srvid = er.srvid) ∧ (entry.chid = 0 ∨ entry.chid = er.chid) ∧
    (entry.pid = 0 ∨ entry.pid = er.pid)

def matchWhitelist (er : EcmRequest) (entry : WhitelistEntry) : Bool :=
  matchIdent er entry ∧ (entry.ecmlen = 0 ∨ (entry.ecmlen : ℤ) = er.ecmlen)

variable (cfg : Setting)

/-- The mapping of `chk_global_whitelist`. -/
def mapWhitelist (er : EcmRequest) : EcmRequest :=
  if cfg.globalWhitelistUseM then
    match cfg.globalWhitelist.find? fun entry => entry.type = 'm' ∧ matchWhitelist er entry with
    | some entry => { er with caid := entry.mapcaid, prid := entry.mapprovid }
    | none => er
  else er

/-- What `chk_global_whitelist` returns for the mapped request. -/
def allowedByWhitelist (er : EcmRequest) : Bool :=
  let lengths := cfg.globalWhitelist.filter fun entry => entry.type = 'l'
  if cfg.globalWhitelist = [] then true
  else if cfg.globalWhitelistUseL ∧ lengths.any (matchWhitelist er) then true
  else if cfg.globalWhitelistUseL ∧ lengths.any (matchIdent er) then false
  else
    match cfg.globalWhitelist.find? fun entry =>
        matchWhitelist er entry ∧ (entry.type = 'w' ∨ entry.type = 'i') with
    | some entry => entry.type = 'w'
    | none => false

end Whitelist

section Filters

variable (cfg : Setting)

def chkCaid (caid : Caid) : Option Caid :=
  if cfg.ctab = [] then some caid
  else (cfg.ctab.find? fun d => caid &&& d.mask = d.caid).map fun d =>
    if d.cmap ≠ 0 then d.cmap else caid

def chkBcaid (er : EcmRequest) : Option EcmRequest :=
  (chkCaid cfg er.caid).map fun caid => { er with caid := caid }

/-- Case `j` of the switch in `get_cw`, on a request and its `rc`. -/
def chkCase (j : ℕ) (er : EcmRequest) (rc : ℕ) : EcmRequest × ℕ :=
  match j with
  | 0 => (er, if cfg.dup then E_FAKE else rc)
  | 1 => match chkBcaid cfg er with
    | some er => (er, rc)
    | none => (er, E_INVALID)
  | 2 => (er, if !cfg.chkSrvid er ∧ !cfg.chkOnBtun er then E_INVALID else rc)
  | 3 => (er, if !cfg.chkUfilters er then E_INVALID else rc)
  | 4 => (er, if !cfg.chkSfilter er then E_INVALID else rc)
  | _ =>
    let ecmLen : ℤ := sctLen er.ecm
    if er.ecmlen - ecmLen > 0 then ({ er with ecmlen := ecmLen }, rc)
    else if er.ecmlen - ecmLen ≠ 0 then (er, E_CORRUPT)
    else (er, rc)

/-- The loop goes on as long as no case has set `rc`. -/
def chkStep (s : EcmRequest × ℕ) (j : ℕ) : EcmRequest × ℕ :=
  if s.2 ≥ E_UNHANDLED then chkCase cfg j s.1 s.2 else s

def chkCases (er : EcmRequest) (rc : ℕ) : EcmRequest × ℕ :=
  (List.range 6).foldl (chkStep cfg) (er, rc)

end Filters

end NCam.Ecm
