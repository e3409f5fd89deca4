import NCam.Ecm.GetCw
import NCam.Lib.Reads
import Mathlib.Algebra.Order.Ring.Int

/-! The places that the header analysis of `get_cw` reads: in the section, and in the tables for the
guess of the card system. Each function gives the value of its namesake with these places. -/
namespace NCam.Ecm

open NCam.Lib

inductive Place
  | ecm (i : ℕ)
  | len4caid (i : ℕ)
  | itab (i : ℕ)
deriving DecidableEq

section Section

variable (ecm : ℕ → Byte)

def byteAt (i : ℕ) : Reads Place Byte := .read (.ecm i) (ecm i)

def isByte (i : ℕ) (b : Byte) : Reads Place Bool := do return (← byteAt ecm i) = b

/-- `b2i(n, ecm + k)`. -/
def b2iAt (n k : ℕ) : Reads Place (BitVec 32) where
  value := b2i n fun j => ecm (k + j)
  places := (List.range' k n).map .ecm

def sctLenAt : Reads Place ℕ := ⟨sctLen ecm, [.ecm 1, .ecm 2]⟩

/-- `(ecm[k] == 0xD2) ? ecm[k + 1] + 2 : 0`. -/
def skipD2 (k : ℕ) : Reads Place ℕ := do
  if ← isByte ecm k 0xD2 then return (← byteAt ecm (k + 1)).toNat + 2 else return 0

/-- The provider of a viaccess nano from `k` on, whose length is `len`. -/
def viaccessNano (k : ℕ) (len : Byte) (provid : BitVec 32) : Reads Place (BitVec 32) := do
  let i ← skipD2 ecm k
  if ← (isByte ecm (k + 1 + i) len).and ((isByte ecm (k + i) 0x90).or (isByte ecm (k + i) 0x40)) then
    return (← b2iAt ecm 3 (k + 2 + i)) &&& 0xFFFFF0
  else return provid

/-- The loop of `chk_provid` over the descriptors of a cryptoworks section. -/
def cryptoworksReads (len i : ℕ) : Reads Place (BitVec 32) :=
  if i < len then do
    let descriptorLength ← byteAt ecm (i + 1)
    if ← isByte ecm i 0x83 then return (← byteAt ecm (i + 2)).setWidth 32 &&& 0xFE
    else cryptoworksReads len (i + descriptorLength.toNat + 2)
  else return 0
termination_by len - i

def chkProvidReads (caid : Caid) : Reads Place (BitVec 32) :=
  if caid >>> 8 = 0x01 then b2iAt ecm 2 3
  else if caid >>> 8 = 0x05 then do
    let provid ← viaccessNano ecm 4 3 0
    viaccessNano ecm 6 7 provid
  else if caid >>> 8 = 0x0D then do
    let len ← sctLenAt ecm
    cryptoworksReads ecm len 8
  else if caid = 0x1801 then b2iAt ecm 2 5
  else return 0

def nagraShape : Reads Place Bool :=
  (isByte ecm 6 1).and do return (← byteAt ecm 4).toNat + 2 = (← byteAt ecm 2).toNat

def secaShape : Reads Place Bool :=
  (isByte ecm 8 0x10).and do return (← byteAt ecm 9) &&& 0xF1 = 1

def cryptoworksShape : Reads Place Bool :=
  (isByte ecm 3 0x81).and <| (isByte ecm 4 0xFF).and <| (isByte ecm 5 0).and <| (isByte ecm 6 0).and do
    return (← byteAt ecm 7).toNat + 5 = (← byteAt ecm 2).toNat

def irdetoShape : Reads Place Bool := (isByte ecm 2 0x31).and (isByte ecm 0x0b 0x28)

/-- A nagra header from `k` on. -/
def nagraHeader (k : ℕ) : Reads Place Bool :=
  (isByte ecm k 0x07).and ((isByte ecm (k + 1) 0x84).or (isByte ecm (k + 1) 0x45))

def len4caidAt (cfg : Setting) : Reads Place Caid := do
  let len := (← byteAt ecm 2).toNat + 3
  .read (.len4caid len) (cfg.len4caid len)

end Section

def getSubidReads (er : EcmRequest) : Reads Place (BitVec 32) :=
  if er.ecmlen = 0 then return 0
  else if er.caid >>> 8 = 0x01 then b2iAt er.ecm 2 7
  else if er.caid >>> 8 = 0x05 then b2iAt er.ecm 2 8
  else if er.caid >>> 8 = 0x06 then b2iAt er.ecm 2 6
  else if er.caid >>> 8 = 0x09 then b2iAt er.ecm 2 11
  else if er.caid >>> 8 = 0x4A ∧ !caidIsBulcrypt er.caid ∧ !caidIsDre er.caid ∧
      !caidIsStreamguard er.caid then
    b2iAt er.ecm 2 6
  else return 0

section Analysis

variable (cfg : Setting) (loaded : Bool)

/-- `guess_irdeto`; the table may not be loaded. -/
def guessIrdetoReads (er : EcmRequest) : Reads Place EcmRequest :=
  if !loaded then return er
  else do
    let b3 ← byteAt er.ecm 3
    let ptr ← .read (.itab b3.toNat) (cfg.itab b3)
    if ptr.isEmpty then return er
    else
      let b47 ← b2iAt er.ecm 4 4
      return match ptr.find? fun ptr => b47 = ptr.b47 with
        | none => er
        | some ptr =>
          if er.srvid ≠ 0 ∧ er.srvid ≠ ptr.sid then er
          else { er with caid := ptr.caid, srvid := ptr.sid, chid := ptr.b47.setWidth 16 }

/-- The request with the provider found, and the caid if it is viaccess or nagra. -/
def setShown (er : EcmRequest) (prid : BitVec 32) (nagra : Bool) : EcmRequest :=
  let er := { er with prid := prid }
  let er := if er.prid ≠ 0 then { er with caid := 0x500 } else er
  if nagra then { er with caid := 0x1801 } else er

/-- The end of `guess_cardsystem`, for a caid that is still unknown. -/
def guessByTables (er : EcmRequest) (lastHope : Caid) : Reads Place EcmRequest := do
  let ecm := er.ecm
  let er ← if er.caid = 0 then
      do if ← irdetoShape ecm then guessIrdetoReads cfg loaded er else pure er
    else pure er
  let er ← if er.caid = 0 then do
      let caid ← len4caidAt ecm cfg
      pure { er with caid := caid }
    else pure er
  return if er.caid = 0 then { er with caid := lastHope } else er

def guessCardsystemReads (er : EcmRequest) : Reads Place EcmRequest := do
  let prid ← chkProvidReads er.ecm 0x500
  let nagra ← nagraShape er.ecm
  let seca ← secaShape er.ecm
  let lastHope : Caid := if seca then 0x100 else 0
  let cryptoworks ← cryptoworksShape er.ecm
  let lastHope : Caid := if cryptoworks then 0xd00 else lastHope
  guessByTables cfg loaded (setShown er prid nagra) lastHope

/-- The quickfixes that depend on the caid and the provider. -/
def fixIds (er : EcmRequest) : EcmRequest :=
  let er :=
    if er.caid = 0x100 ∧ er.prid = 0x65 ∧ er.srvid = 0 then { er with srvid := 0x0642 } else er
  let er := if er.caid = 0x500 ∧ er.prid = 0x030300 then { er with prid := 0x030600 } else er
  if er.caid = 0x500 ∧ er.prid = 0xD20200 then { er with prid := 0x030600 } else er

/-- The quickfix for a betacrypt ecm with nagra header. -/
def fixBeta (er : EcmRequest) : Reads Place EcmRequest :=
  if chkIsBetatunnelCaid er.caid = 1 ∧ (er.ecmlen = 0x89 ∨ er.ecmlen = 0x4A) then do
    if ← nagraHeader er.ecm 3 then
      return if er.caid = 0x1702 then { er with caid := 0x1833 } else checkLbAutoBetatunnelMode cfg er
    else return er
  else return er

/-- The quickfix for a nagra ecm with betacrypt header. -/
def fixNagra (er : EcmRequest) : Reads Place EcmRequest :=
  if chkIsBetatunnelCaid er.caid = 2 ∧ (er.ecmlen = 0x93 ∨ er.ecmlen = 0x54) then do
    if ← nagraHeader er.ecm 13 then
      return if er.caid = 0x1833 then { er with caid := 0x1702 } else { er with caid := 0x1722 }
    else return er
  else return er

/-- The quickfix area of `get_cw`. -/
def quickfixReads (er : EcmRequest) : Reads Place EcmRequest := do
  let subid ← getSubidReads er
  let er ← fixBeta cfg (fixIds { er with chid := subid.setWidth 16 })
  let er ← fixNagra er
  -- invalid nagra provider
  return if er.caid &&& 0xFF00 = 0x1800 ∧ er.prid > 0x00FFFF then { er with prid := 0 } else er

/-- The provider from the section, or that of the newcamd server. -/
def fixProviderReads (er : EcmRequest) : Reads Place EcmRequest := do
  let prid ← chkProvidReads er.ecm er.caid
  let er :=
    if er.prid = 0 then { er with prid := prid }
    else if prid ≠ 0 ∧ prid ≠ er.prid then { er with prid := prid }
    else er
  return if er.prid = 0 then { er with prid := cfg.ncdPrid.getD er.prid } else er

def identifyReads (er : EcmRequest) : Reads Place EcmRequest := do
  let er ← if er.caid = 0 then guessCardsystemReads cfg loaded er else pure er
  let er ← quickfixReads cfg er
  fixProviderReads cfg er

/-- `get_cw` from the length in the section's header to the provider. -/
def analyseHeader (er : EcmRequest) : Reads Place EcmRequest := do
  let er ← if er.ecmlen > 2 then do
      let sctLen ← sctLenAt er.ecm
      pure { er with ecmlen := (sctLen : ℤ) }
    else pure er
  identifyReads cfg loaded er

end Analysis

section Values

variable (ecm : ℕ → Byte)

@[simp] theorem value_byteAt (i : ℕ) : (byteAt ecm i).value = ecm i := rfl

@[simp] theorem value_isByte (i : ℕ) (b : Byte) : (isByte ecm i b).value = decide (ecm i = b) := rfl

@[simp] theorem value_b2iAt (n k : ℕ) : (b2iAt ecm n k).value = b2i n fun j => ecm (k + j) := rfl

@[simp] theorem value_sctLenAt : (sctLenAt ecm).value = sctLen ecm := rfl

theorem value_skipD2 (k : ℕ) :
    (skipD2 ecm k).value = if ecm k = 0xD2 then (ecm (k + 1)).toNat + 2 else 0 := by
  simp [skipD2]

theorem value_viaccessNano (k : ℕ) (len : Byte) (provid : BitVec 32) (i : ℕ)
    (hi : (skipD2 ecm k).value = i) : (viaccessNano ecm k len provid).value =
      if ecm (k + 1 + i) = len ∧ (ecm (k + i) = 0x90 ∨ ecm (k + i) = 0x40) then
        b2i 3 (fun j => ecm (k + 2 + i + j)) &&& 0xFFFFF0
      else provid := by
  simp [viaccessNano, hi]

/-- The loop ends within as many rounds as there are bytes left. -/
theorem value_cryptoworksReads (len i fuel : ℕ) (hfuel : len - i ≤ fuel) :
    (cryptoworksReads ecm len i).value = cryptoworksProvid ecm len fuel i := by
  induction fuel generalizing i with
  | zero =>
    unfold cryptoworksReads
    rw [if_neg (by omega)]
    rfl
  | succ fuel ih =>
    have hnext := ih (i + (ecm (i + 1)).toNat + 2) (by omega)
    unfold cryptoworksReads
    simp only [cryptoworksProvid, Reads.value_ite, Reads.value_bind, Reads.value_pure, value_byteAt,
      value_isByte, decide_eq_true_eq, hnext]

theorem value_chkProvidReads (caid : Caid) : (chkProvidReads ecm caid).value = chkProvid ecm caid := by
  unfold chkProvidReads chkProvid
  simp only [Reads.value_ite, Reads.value_bind, Reads.value_pure, value_b2iAt, value_sctLenAt,
    value_viaccessNano ecm _ _ _ _ rfl, value_skipD2,
    value_cryptoworksReads ecm (sctLen ecm) 8 (sctLen ecm) (Nat.sub_le _ _)]

end Values

theorem value_getSubidReads (er : EcmRequest) : (getSubidReads er).value = getSubid er := by
  unfold getSubidReads getSubid
  simp only [Reads.value_ite, Reads.value_pure, value_b2iAt]

theorem value_guessIrdetoReads (cfg : Setting) (loaded : Bool) (er : EcmRequest)
    (hloaded : loaded = false → ∀ b, cfg.itab b = []) :
    (guessIrdetoReads cfg loaded er).value = guessIrdeto cfg er := by
  unfold guessIrdetoReads guessIrdeto
  cases loaded with
  | false => simp [hloaded rfl]
  | true =>
    simp only [Bool.not_true, Bool.false_eq_true, if_false, Reads.value_bind, Reads.value_read,
      value_byteAt]
    cases hitab : cfg.itab (er.ecm 3) with
    | nil => rfl
    | cons ptr rest =>
      rfl

theorem value_nagraShape (ecm : ℕ → Byte) : (nagraShape ecm).value =
    decide ((ecm 6).toNat = 1 ∧ (ecm 4).toNat + 2 = (ecm 2).toNat) := by
  rw [Bool.eq_iff_iff]
  simp only [nagraShape, Reads.value_and, Reads.value_bind, Reads.value_pure, Bool.and_eq_true,
    decide_eq_true_eq]
  simp [BitVec.toNat_eq]

theorem value_secaShape (ecm : ℕ → Byte) : (secaShape ecm).value =
    decide ((ecm 8).toNat = 0x10 ∧ ecm 9 &&& 0xF1 = 1) := by
  rw [Bool.eq_iff_iff]
  simp only [secaShape, Reads.value_and, Reads.value_bind, Reads.value_pure, Bool.and_eq_true,
    decide_eq_true_eq]
  simp [BitVec.toNat_eq]

theorem value_cryptoworksShape (ecm : ℕ → Byte) : (cryptoworksShape ecm).value =
    decide ((ecm 3).toNat = 0x81 ∧ (ecm 4).toNat = 0xFF ∧ (ecm 5).toNat = 0 ∧ (ecm 6).toNat = 0 ∧
      (ecm 7).toNat + 5 = (ecm 2).toNat) := by
  rw [Bool.eq_iff_iff]
  simp only [cryptoworksShape, Reads.value_and, Reads.value_bind, Reads.value_pure, Bool.and_eq_true,
    decide_eq_true_eq]
  simp [BitVec.toNat_eq]

theorem value_irdetoShape (ecm : ℕ → Byte) : (irdetoShape ecm).value =
    decide ((ecm 2).toNat = 0x31 ∧ (ecm 0x0b).toNat = 0x28) := by
  simp [irdetoShape, BitVec.toNat_eq]

theorem value_nagraHeader (ecm : ℕ → Byte) (k : ℕ) : (nagraHeader ecm k).value =
    decide (ecm k = 0x07 ∧ (ecm (k + 1) = 0x84 ∨ ecm (k + 1) = 0x45)) := by
  simp [nagraHeader]

theorem value_len4caidAt (ecm : ℕ → Byte) (cfg : Setting) :
    (len4caidAt ecm cfg).value = cfg.len4caid ((ecm 2).toNat + 3) := rfl

theorem value_guessCardsystemReads (cfg : Setting) (loaded : Bool) (er : EcmRequest)
    (hloaded : loaded = false → ∀ b, cfg.itab b = []) :
    (guessCardsystemReads cfg loaded er).value = guessCardsystem cfg er := by
  have hirdeto (er : EcmRequest) := value_guessIrdetoReads cfg loaded er hloaded
  have hecm (er : EcmRequest) : (guessIrdeto cfg er).ecm = er.ecm := by
    unfold guessIrdeto
    split
    · rfl
    · split_ifs <;> rfl
  unfold guessCardsystemReads guessByTables setShown guessCardsystem
  simp only [Reads.value_bind, Reads.value_pure, Reads.value_ite, value_chkProvidReads, value_nagraShape,
    value_secaShape, value_cryptoworksShape, value_irdetoShape, value_len4caidAt, hirdeto,
    decide_eq_true_eq, ← ite_and]
  by_cases hprid : chkProvid er.ecm 0x500 = 0
  · by_cases hnagra : (er.ecm 6).toNat = 1 ∧ (er.ecm 4).toNat + 2 = (er.ecm 2).toNat
    · simp only [hprid, hnagra, and_self, if_true, ne_eq, not_true_eq_false, if_false]
      rfl
    · simp only [hprid, hnagra, ne_eq, not_true_eq_false, if_false]
      split_ifs <;> rfl
  · by_cases hnagra : (er.ecm 6).toNat = 1 ∧ (er.ecm 4).toNat + 2 = (er.ecm 2).toNat
    · simp only [hprid, hnagra, and_self, if_true, ne_eq, not_false_eq_true]
      rfl
    · simp only [hprid, hnagra, if_true, ne_eq, not_false_eq_true, if_false]
      rfl

theorem value_fixBeta (cfg : Setting) (er : EcmRequest) : (fixBeta cfg er).value =
    if chkIsBetatunnelCaid er.caid = 1 ∧ (er.ecmlen = 0x89 ∨ er.ecmlen = 0x4A) ∧ er.ecm 3 = 0x07 ∧
        (er.ecm 4 = 0x84 ∨ er.ecm 4 = 0x45) then
      if er.caid = 0x1702 then { er with caid := 0x1833 } else checkLbAutoBetatunnelMode cfg er
    else er := by
  unfold fixBeta
  simp only [Reads.value_bind, Reads.value_pure, Reads.value_ite, value_nagraHeader, decide_eq_true_eq,
    ← ite_and, and_assoc]

theorem value_fixNagra (er : EcmRequest) : (fixNagra er).value =
    if chkIsBetatunnelCaid er.caid = 2 ∧ (er.ecmlen = 0x93 ∨ er.ecmlen = 0x54) ∧ er.ecm 13 = 0x07 ∧
        (er.ecm 14 = 0x84 ∨ er.ecm 14 = 0x45) then
      if er.caid = 0x1833 then { er with caid := 0x1702 } else { er with caid := 0x1722 }
    else er := by
  unfold fixNagra
  simp only [Reads.value_bind, Reads.value_pure, Reads.value_ite, value_nagraHeader, decide_eq_true_eq,
    ← ite_and, and_assoc]

theorem value_quickfixReads (cfg : Setting) (er : EcmRequest) :
    (quickfixReads cfg er).value = quickfix cfg er := by
  unfold quickfixReads
  simp only [Reads.value_bind, Reads.value_pure, value_getSubidReads, value_fixBeta, value_fixNagra]
  rfl

theorem value_fixProviderReads (cfg : Setting) (er : EcmRequest) :
    (fixProviderReads cfg er).value = fixProvider cfg er := by
  unfold fixProviderReads fixProvider
  simp only [Reads.value_bind, Reads.value_pure, value_chkProvidReads]

theorem value_identifyReads (cfg : Setting) (loaded : Bool) (er : EcmRequest)
    (hloaded : loaded = false → ∀ b, cfg.itab b = []) :
    (identifyReads cfg loaded er).value = identify cfg er := by
  unfold identifyReads identify
  simp only [Reads.value_bind, Reads.value_ite, Reads.value_pure,
    value_guessCardsystemReads cfg loaded _ hloaded, value_quickfixReads, value_fixProviderReads]
  split_ifs <;> rfl

/-- The analysis identifies the request as the functions do that it reads for. -/
theorem value_analyseHeader (cfg : Setting) (loaded : Bool) (er : EcmRequest)
    (hloaded : loaded = false → ∀ b, cfg.itab b = []) (rc : ℕ) :
    (analyseHeader cfg loaded er).value = identify cfg (checkLength er rc).1 := by
  unfold analyseHeader checkLength
  simp only [Reads.value_bind, Reads.value_ite, Reads.value_pure, value_sctLenAt,
    value_identifyReads cfg loaded _ hloaded]
  by_cases hlen : er.ecmlen > 2
  · simp only [hlen, if_true]
  · simp only [hlen, if_false]

end NCam.Ecm
