import Mathlib.Tactic.SplitIfs
import NCam.Ecm.Request

/-! `get_cw` up to the hash of the section: the length checks, the rejections, the betatunnel and the
offset that the hash skips. -/
namespace NCam.Ecm

section Model

variable (cfg : Setting)

/-- The checks of `get_cw` on `ecmlen`, which becomes the length in the section's header. -/
def checkLength (er : EcmRequest) (rc : ℕ) : EcmRequest × ℕ :=
  let rc := if er.ecmlen < 0 ∨ er.ecmlen = 1 ∨ er.ecmlen = 2 then E_INVALID else rc
  let rc := if er.ecmlen > MAX_ECM_SIZE then E_INVALID else rc
  if er.ecmlen > 2 then
    let sctLen : ℤ := sctLen er.ecm
    ({ er with ecmlen := sctLen }, if sctLen > er.ecmlen ∨ sctLen < 4 then E_INVALID else rc)
  else (er, rc)

/-- The request with its card system, after the quickfixes. -/
def identify (er : EcmRequest) : EcmRequest :=
  let er := if er.caid = 0 then guessCardsystem cfg er else er
  fixProvider cfg (quickfix cfg er)

/-- The rejections that depend on the account. -/
def checkAccount (rc : ℕ) : ℕ :=
  let rc := if cfg.expired then E_EXPDATE else rc
  let rc := if cfg.outOfTimeframe then E_EXPDATE else rc
  if cfg.disabled then E_DISABLED else rc

def checkFilters (er : EcmRequest) (rc : ℕ) : EcmRequest × ℕ :=
  if rc ≥ E_UNHANDLED then
    let rc := if cfg.asleep er then (if cfg.c35Sleepsend then E_STOPPED else E_SLEEPING) else rc
    chkCases cfg er rc
  else (er, rc)

/-- The bytes after `memmove(ecm + dst, ecm + src, n)`. -/
def memmove (ecm : ℕ → Byte) (dst src n : ℕ) : ℕ → Byte :=
  fun i => if dst ≤ i ∧ i < dst + n then ecm (i - dst + src) else ecm i

def headerN3 : List Byte := [0xc7, 0x00, 0x00, 0x00, 0x01, 0x10, 0x10, 0x00, 0x87, 0x12]
def headerN2 : List Byte := [0xc9, 0x00, 0x00, 0x00, 0x01, 0x10, 0x10, 0x00, 0x48, 0x12]

/-- The bytes after `memcpy(ecm + dst, header, 10)`. -/
def putHeader (ecm : ℕ → Byte) (dst : ℕ) (header : List Byte) : ℕ → Byte :=
  fun i => if dst ≤ i ∧ i < dst + header.length then header.getD (i - dst) 0 else ecm i

def setByte (ecm : ℕ → Byte) (k : ℕ) (b : Byte) : ℕ → Byte := fun i => if i = k then b else ecm i

def convertToBeta (er : EcmRequest) (caidto : Caid) : EcmRequest :=
  let ecmlen := (er.ecm 2).toNat + 3
  let ecm := memmove er.ecm 13 3 (ecmlen - 3)
  let ecm :=
    if ecmlen > 0x88 then
      let ecm := putHeader ecm 3 headerN3
      let ecm := if ecm 0 = 0x81 then setByte ecm 12 (ecm 12 + 1) else ecm
      setByte ecm 1 0x70
    else putHeader ecm 3 headerN2
  let ecmlen := ecmlen + 10
  { er with
    ocaid := er.caid
    caid := caidto
    prid := 0
    ecm := setByte ecm 2 (BitVec.ofNat 8 (ecmlen - 3))
    ecmlen := ecmlen
    btun := 1 }

def convertToNagra (er : EcmRequest) (caidto : Caid) : EcmRequest :=
  let ecmlen := (er.ecm 2).toNat + 3
  let ecm := if ecmlen < 0x52 then setByte er.ecm 1 0x30 else er.ecm
  let ecm := memmove ecm 3 13 (ecmlen - 3)
  let ecmlen : ℤ := ecmlen - 10
  { er with
    ocaid := er.caid
    caid := caidto
    prid := 0
    ecm := setByte ecm 2 (BitVec.ofInt 8 (ecmlen - 3))
    ecmlen := ecmlen
    btun := 1 }

/-- The entry of the tunnel table for a request. -/
def tunnelEntry (caid : Caid) (srvid : BitVec 16) : Option TuntabData :=
  cfg.ttab.find? fun d => caid = d.btCaidfrom ∧ (srvid = d.btSrvid ∨ d.btSrvid = 0xFFFF)

def csBetatunnel (er : EcmRequest) : EcmRequest :=
  match tunnelEntry cfg er.caid er.srvid with
  | none => er
  | some d =>
    if chkIsBetatunnelCaid er.caid = 1 ∧ er.ocaid = 0 then convertToNagra er d.btCaidto
    else if er.ocaid = 0 then convertToBeta er d.btCaidto
    else er

/-- The bytes that the hash skips. -/
def hashOffset (caid : Caid) : ℤ := if caidIsBetacrypt caid then 13 else 3

/-- `get_cw` up to the hash: the request and the offset, or `none` when it was answered before. -/
def getCw (er : EcmRequest) : Option (EcmRequest × ℤ) :=
  if cfg.ecmCacheDrops er then none
  else
    let rc := if cfg.anonymous then E_INVALID else E_UNHANDLED
    let (er, rc) := checkLength er rc
    let rc := if !cfg.grp then E_INVALID else rc
    let er := identify cfg er
    let rc := if er.caid = 0 then E_INVALID else rc
    let rc := checkAccount cfg rc
    let er := mapWhitelist cfg er
    let rc := if !allowedByWhitelist cfg er then E_INVALID else rc
    let rc := if cfg.cacheex2 then E_INVALID else rc
    let (er, rc) := checkFilters cfg er rc
    let rc :=
      if !caidIsBiss er.caid ∧ !caidIsFake er.caid ∧ getOddEven er = 0 then E_INVALID else rc
    if rc < E_UNHANDLED then none
    else
      let er :=
        if chkIsBetatunnelCaid er.caid ≠ 0 ∧ cfg.ttab ≠ [] then csBetatunnel cfg er else er
      some (er, hashOffset er.caid)

end Model

/-- The hashed bytes `ecm[offset..ecmlen-1]` are in the section. -/
def InBounds (er : EcmRequest) (offset : ℤ) : Prop := offset ≤ er.ecmlen ∧ er.ecmlen ≤ MAX_ECM_SIZE

/-- The request as the filters and the tunnel table see it. -/
def remapped (cfg : Setting) (er : EcmRequest) : EcmRequest :=
  mapWhitelist cfg (identify cfg (checkLength er E_UNHANDLED).1)

/-- The request that passed all checks, with the caid that the caid table gave it. -/
def checked (cfg : Setting) (er : EcmRequest) (caid : Caid) : EcmRequest :=
  { remapped cfg er with caid := caid, ecmlen := sctLen er.ecm }

/-- A betacrypt section that is not converted holds its header, and one converted to nagra at least
the header that is taken out and the bytes that the hash skips then. -/
def LongEnough (cfg : Setting) (er : EcmRequest) : Prop :=
  ∀ caid, chkCaid cfg (remapped cfg er).caid = some caid →
    match (if chkIsBetatunnelCaid caid ≠ 0 ∧ er.ocaid = 0 then
        tunnelEntry cfg caid (remapped cfg er).srvid else none) with
    | some d => chkIsBetatunnelCaid caid = 1 → hashOffset d.btCaidto + 7 ≤ (er.ecm 2).toNat
    | none => caidIsBetacrypt caid → 13 ≤ sctLen er.ecm

section Frame

variable {cfg : Setting} {er : EcmRequest}

theorem guessIrdeto_section : (guessIrdeto cfg er).ecm = er.ecm ∧
    (guessIrdeto cfg er).ecmlen = er.ecmlen ∧ (guessIrdeto cfg er).ocaid = er.ocaid := by
  unfold guessIrdeto
  split
  · exact ⟨rfl, rfl, rfl⟩
  · split_ifs <;> exact ⟨rfl, rfl, rfl⟩

theorem guessCardsystem_section : (guessCardsystem cfg er).ecm = er.ecm ∧
    (guessCardsystem cfg er).ecmlen = er.ecmlen ∧ (guessCardsystem cfg er).ocaid = er.ocaid := by
  unfold guessCardsystem
  simp only [apply_ite EcmRequest.ecm, apply_ite EcmRequest.ecmlen, apply_ite EcmRequest.ocaid,
    guessIrdeto_section, ite_self, and_self]

theorem quickfix_section : (quickfix cfg er).ecm = er.ecm ∧ (quickfix cfg er).ecmlen = er.ecmlen ∧
    (quickfix cfg er).ocaid = er.ocaid := by
  unfold quickfix updateChid checkLbAutoBetatunnelMode
  simp only [apply_ite EcmRequest.ecm, apply_ite EcmRequest.ecmlen, apply_ite EcmRequest.ocaid,
    ite_self, and_self]

theorem fixProvider_section : (fixProvider cfg er).ecm = er.ecm ∧
    (fixProvider cfg er).ecmlen = er.ecmlen ∧ (fixProvider cfg er).ocaid = er.ocaid := by
  unfold fixProvider
  simp only [apply_ite EcmRequest.ecm, apply_ite EcmRequest.ecmlen, apply_ite EcmRequest.ocaid,
    ite_self, and_self]

/-- The remaps keep the section, its length and `ocaid`. -/
theorem identify_section : (identify cfg er).ecm = er.ecm ∧ (identify cfg er).ecmlen = er.ecmlen ∧
    (identify cfg er).ocaid = er.ocaid := by
  unfold identify
  simp only [fixProvider_section, quickfix_section, apply_ite EcmRequest.ecm,
    apply_ite EcmRequest.ecmlen, apply_ite EcmRequest.ocaid, guessCardsystem_section, ite_self,
    and_self]

theorem mapWhitelist_section : (mapWhitelist cfg er).ecm = er.ecm ∧
    (mapWhitelist cfg er).ecmlen = er.ecmlen ∧ (mapWhitelist cfg er).ocaid = er.ocaid := by
  unfold mapWhitelist
  split_ifs
  · split <;> exact ⟨rfl, rfl, rfl⟩
  · exact ⟨rfl, rfl, rfl⟩

end Frame

section Checks

variable {cfg : Setting} {er er' : EcmRequest} {rc : ℕ}

/-- A check that rejects with some code lets through exactly what it does not reject. -/
theorem handled_ite {c : Prop} [Decidable c] {code : ℕ} (hcode : code < E_UNHANDLED) :
    E_UNHANDLED ≤ (if c then code else rc) ↔ ¬ c ∧ E_UNHANDLED ≤ rc := by
  by_cases hc : c
  · rw [if_pos hc]
    constructor
    · intro h
      omega
    · intro h
      exact absurd hc h.1
  · rw [if_neg hc]
    simp [hc]

theorem checkLength_fst (er : EcmRequest) (rc rc' : ℕ) :
    (checkLength er rc).1 = (checkLength er rc').1 := by
  unfold checkLength
  dsimp only
  split_ifs <;> rfl

theorem checkLength_section : (checkLength er rc).1.ecm = er.ecm ∧
    (checkLength er rc).1.ocaid = er.ocaid := by
  unfold checkLength
  dsimp only
  split_ifs <;> exact ⟨rfl, rfl⟩

/-- What passes the length checks has the length in its header, or no section. -/
theorem checkLength_pass (h : E_UNHANDLED ≤ (checkLength er rc).2) :
    ((checkLength er rc).1.ecmlen = sctLen er.ecm ∧ 4 ≤ sctLen er.ecm ∧
      (sctLen er.ecm : ℤ) ≤ MAX_ECM_SIZE) ∨ (checkLength er rc).1.ecmlen = 0 := by
  unfold checkLength at h ⊢
  dsimp only at h ⊢
  by_cases hlen : er.ecmlen > 2
  · rw [if_pos hlen] at h ⊢
    rw [handled_ite (by decide), handled_ite (by decide)] at h
    obtain ⟨hsct, hmax, -⟩ := h
    left
    refine ⟨rfl, ?_, ?_⟩ <;> omega
  · rw [if_neg hlen] at h ⊢
    rw [handled_ite (by decide), handled_ite (by decide)] at h
    obtain ⟨-, hbad, -⟩ := h
    right
    change er.ecmlen = 0
    omega

theorem chkStep_pass {s : EcmRequest × ℕ} {j : ℕ} (h : E_UNHANDLED ≤ (chkStep cfg s j).2) :
    E_UNHANDLED ≤ s.2 ∧ chkStep cfg s j = chkCase cfg j s.1 s.2 := by
  unfold chkStep at h ⊢
  by_cases hs : s.2 ≥ E_UNHANDLED
  · exact ⟨hs, if_pos hs⟩
  · rw [if_neg hs] at h
    exact absurd h hs

/-- A case that only rejects leaves the request. -/
theorem chkCase_fst {j : ℕ} (hj : j ≠ 1) (hj' : j < 5) : (chkCase cfg j er rc).1 = er := by
  match j, hj, hj' with
  | 0, _, _ => rfl
  | 2, _, _ => rfl
  | 3, _, _ => rfl
  | 4, _, _ => rfl

theorem chkCase_length (h : E_UNHANDLED ≤ (chkCase cfg 5 er rc).2) :
    (chkCase cfg 5 er rc).1 = { er with ecmlen := sctLen er.ecm } ∧
      (sctLen er.ecm : ℤ) ≤ er.ecmlen := by
  have heq : chkCase cfg 5 er rc =
      if er.ecmlen - (sctLen er.ecm : ℤ) > 0 then ({ er with ecmlen := sctLen er.ecm }, rc)
      else if er.ecmlen - (sctLen er.ecm : ℤ) ≠ 0 then (er, E_CORRUPT)
      else (er, rc) := rfl
  rw [heq] at h ⊢
  split_ifs at h ⊢ with hlong hne
  · exact ⟨rfl, by omega⟩
  · have hcode : E_UNHANDLED ≤ E_CORRUPT := h
    exact absurd hcode (by decide)
  · have hlen : er.ecmlen = sctLen er.ecm := by omega
    refine ⟨?_, by omega⟩
    rw [← hlen]

/-- What passes the loop got its caid from the caid table and its length from its header. -/
theorem chkCases_pass (h : E_UNHANDLED ≤ (chkCases cfg er rc).2) :
    ∃ caid, chkCaid cfg er.caid = some caid ∧
      (chkCases cfg er rc).1 = { er with caid := caid, ecmlen := sctLen er.ecm } ∧
      (sctLen er.ecm : ℤ) ≤ er.ecmlen ∧ E_UNHANDLED ≤ rc := by
  have hunroll : chkCases cfg er rc = chkStep cfg (chkStep cfg (chkStep cfg (chkStep cfg
      (chkStep cfg (chkStep cfg (er, rc) 0) 1) 2) 3) 4) 5 := by
    rw [chkCases, show List.range 6 = [0, 1, 2, 3, 4, 5] from rfl]
    simp only [List.foldl_cons, List.foldl_nil]
  rw [hunroll] at h ⊢
  obtain ⟨h4, he5⟩ := chkStep_pass h
  obtain ⟨h3, he4⟩ := chkStep_pass h4
  obtain ⟨h2, he3⟩ := chkStep_pass h3
  obtain ⟨h1, he2⟩ := chkStep_pass h2
  obtain ⟨h0, he1⟩ := chkStep_pass h1
  obtain ⟨hrc, he0⟩ := chkStep_pass h0
  have hfst0 : (chkStep cfg (er, rc) 0).1 = er := by
    rw [he0]
    exact chkCase_fst (by decide) (by decide)
  rw [hfst0] at he1
  cases hcaid : chkCaid cfg er.caid with
  | none =>
    have hnone : chkBcaid cfg er = none := by rw [chkBcaid, hcaid, Option.map_none]
    rw [he1, chkCase, hnone] at h1
    have hcode : E_UNHANDLED ≤ E_INVALID := h1
    exact absurd hcode (by decide)
  | some caid =>
    have hsome : chkBcaid cfg er = some { er with caid := caid } := by
      rw [chkBcaid, hcaid, Option.map_some]
    have hfst1 : (chkStep cfg (chkStep cfg (er, rc) 0) 1).1 = { er with caid := caid } := by
      rw [he1, chkCase, hsome]
    have hfst4 : (chkStep cfg (chkStep cfg (chkStep cfg (chkStep cfg (chkStep cfg (er, rc) 0) 1) 2) 3)
        4).1 = { er with caid := caid } := by
      rw [he4, chkCase_fst (by decide) (by decide), he3, chkCase_fst (by decide) (by decide), he2,
        chkCase_fst (by decide) (by decide), hfst1]
    rw [he5, hfst4] at h ⊢
    obtain ⟨hfst, hlen⟩ := chkCase_length h
    exact ⟨caid, rfl, hfst, hlen, hrc⟩

theorem checkFilters_pass (h : E_UNHANDLED ≤ (checkFilters cfg er rc).2) :
    ∃ caid, chkCaid cfg er.caid = some caid ∧
      (checkFilters cfg er rc).1 = { er with caid := caid, ecmlen := sctLen er.ecm } ∧
      (sctLen er.ecm : ℤ) ≤ er.ecmlen ∧ E_UNHANDLED ≤ rc := by
  unfold checkFilters at h ⊢
  dsimp only at h ⊢
  by_cases hrc : rc ≥ E_UNHANDLED
  · rw [if_pos hrc] at h ⊢
    obtain ⟨caid, hcaid, hfst, hlen, -⟩ := chkCases_pass h
    exact ⟨caid, hcaid, hfst, hlen, hrc⟩
  · rw [if_neg hrc] at h
    exact absurd h hrc

theorem checkAccount_pass (h : E_UNHANDLED ≤ checkAccount cfg rc) : E_UNHANDLED ≤ rc := by
  unfold checkAccount at h
  dsimp only at h
  rw [handled_ite (by decide), handled_ite (by decide), handled_ite (by decide)] at h
  exact h.2.2.2

theorem remapped_section : (remapped cfg er).ecm = er.ecm ∧ (remapped cfg er).ocaid = er.ocaid ∧
    (remapped cfg er).ecmlen = (checkLength er E_UNHANDLED).1.ecmlen := by
  unfold remapped
  obtain ⟨hecm, hlen, hocaid⟩ := @mapWhitelist_section cfg
    (identify cfg (checkLength er E_UNHANDLED).1)
  obtain ⟨hecm', hlen', hocaid'⟩ := @identify_section cfg (checkLength er E_UNHANDLED).1
  obtain ⟨hecm'', hocaid''⟩ := @checkLength_section er E_UNHANDLED
  exact ⟨hecm.trans (hecm'.trans hecm''), hocaid.trans (hocaid'.trans hocaid''), hlen.trans hlen'⟩

/-- What the tunnel makes of the request that passed all checks. -/
theorem getCw_pass {offset : ℤ} (h : getCw cfg er = some (er', offset)) :
    ∃ caid, chkCaid cfg (remapped cfg er).caid = some caid ∧ 4 ≤ sctLen er.ecm ∧
      (sctLen er.ecm : ℤ) ≤ MAX_ECM_SIZE ∧ offset = hashOffset er'.caid ∧
      er' = if chkIsBetatunnelCaid caid ≠ 0 ∧ cfg.ttab ≠ [] then
          csBetatunnel cfg (checked cfg er caid)
        else checked cfg er caid := by
  obtain ⟨hecm, -, hlen⟩ := @remapped_section cfg er
  rw [getCw, Option.ite_none_left_eq_some] at h
  obtain ⟨-, h⟩ := h
  dsimp only at h
  rw [Option.ite_none_left_eq_some, Nat.not_lt, handled_ite (by decide),
    checkLength_fst er _ E_UNHANDLED] at h
  obtain ⟨⟨-, hfilters⟩, h⟩ := h
  obtain ⟨caid, hcaid, hfst, hsct, hrc⟩ := checkFilters_pass hfilters
  rw [handled_ite (by decide), handled_ite (by decide)] at hrc
  have haccount := checkAccount_pass hrc.2.2
  rw [handled_ite (by decide), handled_ite (by decide)] at haccount
  have hlength := checkLength_pass haccount.2.2
  rw [checkLength_fst er _ E_UNHANDLED] at hlength
  change (sctLen (remapped cfg er).ecm : ℤ) ≤ (remapped cfg er).ecmlen at hsct
  rw [hecm, hlen] at hsct
  rw [hfst] at h
  change chkCaid cfg (remapped cfg er).caid = some caid at hcaid
  have hpair := Prod.mk.inj (Option.some.inj h)
  have hsmall : 3 ≤ sctLen er.ecm := Nat.le_add_right_of_le (Nat.le_add_right 3 _)
  refine ⟨caid, hcaid, ?_, ?_, ?_, ?_⟩
  · omega
  · rcases hlength with hl | hl
    · exact hl.2.2
    · omega
  · rw [← hpair.2, ← hpair.1]
  · rw [← hpair.1]
    unfold checked
    rw [← hecm]
    rfl

end Checks

section Bounds

variable {cfg : Setting} {er er' : EcmRequest} {offset : ℤ}

theorem csBetatunnel_of_entry {d : TuntabData} (hd : tunnelEntry cfg er.caid er.srvid = some d)
    (ho : er.ocaid = 0) : csBetatunnel cfg er =
      if chkIsBetatunnelCaid er.caid = 1 then convertToNagra er d.btCaidto
      else convertToBeta er d.btCaidto := by
  unfold csBetatunnel
  rw [hd]
  simp only [ho, and_true, if_true]

/-- A request with an original caid, or without an entry, is not converted. -/
theorem csBetatunnel_of_none (h : er.ocaid ≠ 0 ∨ tunnelEntry cfg er.caid er.srvid = none) :
    csBetatunnel cfg er = er := by
  unfold csBetatunnel
  split
  · rfl
  · rename_i d hd
    rcases h with ho | hnone
    · simp only [ho, and_false, if_false]
    · rw [hnone] at hd
      cases hd

theorem hashOffset_cases (caid : Caid) : hashOffset caid = 3 ∨ hashOffset caid = 13 := by
  unfold hashOffset
  split_ifs
  · exact .inr rfl
  · exact .inl rfl

theorem inBounds_convertToNagra (caidto : Caid) :
    InBounds (convertToNagra er caidto) (hashOffset caidto) ↔
      hashOffset caidto + 7 ≤ (er.ecm 2).toNat := by
  have hbyte := (er.ecm 2).isLt
  unfold InBounds MAX_ECM_SIZE
  change hashOffset caidto ≤ (((er.ecm 2).toNat + 3 : ℕ) : ℤ) - 10 ∧
    (((er.ecm 2).toNat + 3 : ℕ) : ℤ) - 10 ≤ 1024 ↔ _
  constructor <;> omega

theorem inBounds_convertToBeta (caidto : Caid) :
    InBounds (convertToBeta er caidto) (hashOffset caidto) := by
  have hbyte := (er.ecm 2).isLt
  have hoffset := hashOffset_cases caidto
  unfold InBounds MAX_ECM_SIZE
  change hashOffset caidto ≤ (((er.ecm 2).toNat + 3 + 10 : ℕ) : ℤ) ∧
    (((er.ecm 2).toNat + 3 + 10 : ℕ) : ℤ) ≤ 1024
  omega

/-- Whenever `get_cw` comes to hash a section, the hashed bytes are in it exactly if the section is long
enough for its caid or for its tunnel. -/
theorem hash_inBounds_iff (h : getCw cfg er = some (er', offset)) :
    InBounds er' offset ↔ LongEnough cfg er := by
  obtain ⟨caid, hcaid, hmin, hmax, rfl, her⟩ := getCw_pass h
  obtain ⟨hecm, hocaid, -⟩ := @remapped_section cfg er
  have hcond : LongEnough cfg er ↔
      match (if chkIsBetatunnelCaid caid ≠ 0 ∧ er.ocaid = 0 then
          tunnelEntry cfg caid (remapped cfg er).srvid else none) with
      | some d => chkIsBetatunnelCaid caid = 1 → hashOffset d.btCaidto + 7 ≤ (er.ecm 2).toNat
      | none => caidIsBetacrypt caid → 13 ≤ sctLen er.ecm := by
    constructor
    · intro hall
      exact hall caid hcaid
    · intro hone caid' hcaid'
      obtain rfl : caid' = caid := Option.some.inj (hcaid'.symm.trans hcaid)
      exact hone
  -- without a conversion the section is hashed as it came
  have hplain : er' = checked cfg er caid →
      (InBounds er' (hashOffset er'.caid) ↔ (caidIsBetacrypt caid → 13 ≤ sctLen er.ecm)) := by
    rintro rfl
    unfold InBounds hashOffset
    change (if caidIsBetacrypt caid then 13 else 3) ≤ (sctLen er.ecm : ℤ) ∧
      (sctLen er.ecm : ℤ) ≤ MAX_ECM_SIZE ↔ _
    by_cases hbeta : caidIsBetacrypt caid = true
    · rw [if_pos hbeta]
      constructor
      · intro hb _
        omega
      · intro hb
        have := hb hbeta
        omega
    · rw [if_neg hbeta]
      constructor
      · intro _ hb
        exact absurd hb hbeta
      · intro _
        omega
  rw [hcond]
  by_cases htunnel : chkIsBetatunnelCaid caid ≠ 0 ∧ er.ocaid = 0
  · rw [if_pos htunnel]
    cases hentry : tunnelEntry cfg caid (remapped cfg er).srvid with
    | none =>
      apply hplain
      rw [her]
      split_ifs
      · exact csBetatunnel_of_none (.inr hentry)
      · rfl
    | some d =>
      have htab : cfg.ttab ≠ [] := by
        intro hnil
        rw [tunnelEntry, hnil] at hentry
        cases hentry
      rw [if_pos ⟨htunnel.1, htab⟩,
        @csBetatunnel_of_entry _ (checked cfg er caid) _ hentry (hocaid.trans htunnel.2)] at her
      change er' = if chkIsBetatunnelCaid caid = 1 then _ else _ at her
      by_cases hone : chkIsBetatunnelCaid caid = 1
      · rw [if_pos hone] at her
        subst her
        have hiff := @inBounds_convertToNagra (checked cfg er caid) d.btCaidto
        rw [show (checked cfg er caid).ecm = er.ecm from hecm] at hiff
        exact hiff.trans ⟨fun hb _ => hb, fun hb => hb hone⟩
      · rw [if_neg hone] at her
        subst her
        exact ⟨fun _ hb => absurd hb hone, fun _ => inBounds_convertToBeta _⟩
  · rw [if_neg htunnel]
    apply hplain
    rw [her]
    split_ifs with htab
    · apply csBetatunnel_of_none
      left
      intro ho
      exact htunnel ⟨htab.1, hocaid.symm.trans ho⟩
    · rfl

/-- A client without filters. -/
def openSetting : Setting where
  ecmCacheDrops _ := false
  anonymous := false
  grp := true
  itab _ := []
  len4caid _ := 0
  lbAutoBetatunnelMode := 0
  ncdPrid := none
  expired := false
  outOfTimeframe := false
  disabled := false
  globalWhitelist := []
  globalWhitelistUseM := false
  globalWhitelistUseL := false
  cacheex2 := false
  asleep _ := false
  c35Sleepsend := false
  dup := false
  ctab := []
  chkSrvid _ := true
  chkOnBtun _ := false
  chkUfilters _ := true
  chkSfilter _ := true
  ttab := [⟨0x1722, 0x1801, 0xFFFF⟩]

/-- A section of some length for a caid. -/
def sectionRequest (caid : Caid) (len : ℕ) : EcmRequest where
  ecm i := [0x80, 0x70, BitVec.ofNat 8 (len - 3)].getD i 0
  ecmlen := len
  caid := caid
  ocaid := 0
  srvid := 1
  chid := 0
  pid := 0
  prid := 0
  btun := 0

/-- A betacrypt section of 90 bytes that a tunnel converts to nagra. -/
theorem hash_inBounds_iff_tunnel : ∃ er' offset,
    getCw openSetting (sectionRequest 0x1722 90) = some (er', offset) ∧
      (InBounds er' offset ↔ LongEnough openSetting (sectionRequest 0x1722 90)) := by
  have hreach : (getCw openSetting (sectionRequest 0x1722 90)).isSome := by decide
  obtain ⟨⟨er', offset⟩, h⟩ := Option.isSome_iff_exists.mp hreach
  exact ⟨er', offset, h, hash_inBounds_iff h⟩

/-- A betacrypt section of four bytes is hashed from byte 13 on. -/
theorem hash_not_inBounds : ∃ er' offset,
    getCw openSetting (sectionRequest 0x1702 4) = some (er', offset) ∧ ¬ InBounds er' offset := by
  have hreach : (getCw openSetting (sectionRequest 0x1702 4)).map (fun p => (p.1.ecmlen, p.2)) =
      some (4, 13) := by decide
  obtain ⟨⟨er', offset⟩, h, hp⟩ := Option.map_eq_some_iff.mp hreach
  obtain ⟨hlen, hoffset⟩ := Prod.mk.inj hp
  refine ⟨er', offset, h, ?_⟩
  rintro ⟨hle, -⟩
  change er'.ecmlen = 4 at hlen
  change offset = 13 at hoffset
  omega

end Bounds

end NCam.Ecm
