import NCam.Ecm.GetCw
import Mathlib.Algebra.Order.Ring.Int

/-! The length of a section that the betatunnel converts, and the way back. -/
namespace NCam.Ecm

/-- The header of the section has its length. -/
def Sized (er : EcmRequest) : Prop := (sctLen er.ecm : ℤ) = er.ecmlen ∧ er.ecmlen ≤ MAX_ECM_SIZE

/-- The length and the body are the same. -/
def SameBody (er er' : EcmRequest) : Prop :=
  er'.ecmlen = er.ecmlen ∧ ∀ i : ℕ, 3 ≤ i → (i : ℤ) < er.ecmlen → er'.ecm i = er.ecm i

/-- A betacrypt section is converted to nagra, any other one to betacrypt, from which `caidback` restores it. -/
def Tunneled (er : EcmRequest) (caidto caidback : Caid) : Prop :=
  if chkIsBetatunnelCaid er.caid = 1 then Sized (convertToNagra er caidto)
  else Sized (convertToBeta er caidto) ∧ SameBody er (convertToNagra (convertToBeta er caidto) caidback)

section Bytes

variable {ecm : ℕ → Byte} {er : EcmRequest} {caidto : Caid} {dst src n i : ℕ} {header : List Byte}

theorem setByte_self {b : Byte} : setByte ecm i b i = b := if_pos rfl

theorem setByte_of_ne {k : ℕ} {b : Byte} (h : i ≠ k) : setByte ecm k b i = ecm i := if_neg h

theorem memmove_of_lt (h : i < dst) : memmove ecm dst src n i = ecm i := if_neg (by omega)

theorem memmove_at (h : i < n) : memmove ecm dst src n (dst + i) = ecm (i + src) := by
  unfold memmove
  rw [if_pos (by omega), Nat.add_sub_cancel_left]

theorem putHeader_out (h : i < dst ∨ dst + header.length ≤ i) : putHeader ecm dst header i = ecm i :=
  if_neg (by omega)

/-- The bytes behind the header that `convert_to_beta` inserts. -/
theorem convertToBeta_body (hi : i < (er.ecm 2).toNat) : (convertToBeta er caidto).ecm (13 + i) = er.ecm (3 + i) := by
  have hmoved : memmove er.ecm 13 3 ((er.ecm 2).toNat + 3 - 3) (13 + i) = er.ecm (3 + i) := by
    rw [memmove_at (by omega), Nat.add_comm]
  have hout : ∀ header : List Byte, header.length = 10 → ∀ ecm : ℕ → Byte,
      putHeader ecm 3 header (13 + i) = ecm (13 + i) := by
    intro header hheader ecm
    exact putHeader_out (by omega)
  unfold convertToBeta
  dsimp only
  rw [setByte_of_ne (by omega)]
  split_ifs
  · rw [setByte_of_ne (by omega), setByte_of_ne (by omega), hout headerN3 rfl, hmoved]
  · rw [setByte_of_ne (by omega), hout headerN3 rfl, hmoved]
  · rw [hout headerN2 rfl, hmoved]

/-- The length in the header is cut to a byte, and a long section loses its upper digit. -/
theorem convertToBeta_header : (convertToBeta er caidto).ecm 2 = BitVec.ofNat 8 ((er.ecm 2).toNat + 10) ∧
    (convertToBeta er caidto).ecm 1 = if 0x85 < (er.ecm 2).toNat then 0x70 else er.ecm 1 := by
  unfold convertToBeta
  dsimp only
  constructor
  · rw [setByte_self]
    congr 1
  · rw [setByte_of_ne (by omega)]
    by_cases hlong : 0x85 < (er.ecm 2).toNat
    · rw [if_pos (by omega), if_pos hlong, setByte_self]
    · rw [if_neg (by omega), if_neg hlong, putHeader_out (by omega), memmove_of_lt (by omega)]

theorem sctLen_convertToBeta : sctLen (convertToBeta er caidto).ecm =
    3 + (if 0x85 < (er.ecm 2).toNat then 0 else (er.ecm 1).toNat % 16) * 256 + ((er.ecm 2).toNat + 10) % 256 := by
  obtain ⟨hlow, hhigh⟩ := @convertToBeta_header er caidto
  unfold sctLen
  rw [hlow, hhigh, BitVec.toNat_ofNat]
  by_cases hlong : 0x85 < (er.ecm 2).toNat
  · rw [if_pos hlong, if_pos hlong]
    rfl
  · rw [if_neg hlong, if_neg hlong]

theorem convertToNagra_header :
    (convertToNagra er caidto).ecm 2 = BitVec.ofInt 8 ((er.ecm 2).toNat - 10) ∧
      (convertToNagra er caidto).ecm 1 = if (er.ecm 2).toNat < 0x4f then 0x30 else er.ecm 1 := by
  unfold convertToNagra
  dsimp only
  constructor
  · rw [setByte_self]
    congr 1
    push_cast
    omega
  · rw [setByte_of_ne (by omega), memmove_of_lt (by omega)]
    by_cases hshort : (er.ecm 2).toNat < 0x4f
    · rw [if_pos (by omega), if_pos hshort, setByte_self]
    · rw [if_neg (by omega), if_neg hshort]

theorem sctLen_convertToNagra : (sctLen (convertToNagra er caidto).ecm : ℤ) =
    3 + (if (er.ecm 2).toNat < 0x4f then 0 else (er.ecm 1).toNat % 16) * 256 +
      ((er.ecm 2).toNat - 10 : ℤ) % 256 := by
  obtain ⟨hlow, hhigh⟩ := @convertToNagra_header er caidto
  have hbyte : ((BitVec.ofInt 8 ((er.ecm 2).toNat - 10)).toNat : ℤ) = ((er.ecm 2).toNat - 10 : ℤ) % 256 := by
    rw [BitVec.toNat_ofInt]
    omega
  unfold sctLen
  rw [hlow, hhigh]
  push_cast
  rw [hbyte]
  split_ifs <;> rfl

theorem convertToNagra_body (hi : i < (er.ecm 2).toNat) :
    (convertToNagra er caidto).ecm (3 + i) = er.ecm (13 + i) := by
  unfold convertToNagra
  dsimp only
  rw [setByte_of_ne (by omega), memmove_at (by omega), Nat.add_comm i 13]
  split_ifs
  · rw [setByte_of_ne (by omega)]
  · rfl

end Bytes

section Lengths

variable {er : EcmRequest} {caidto caidback : Caid}

theorem sized_convertToBeta : Sized (convertToBeta er caidto) ↔
    (er.ecm 2).toNat ≤ 245 ∧ ((er.ecm 1).toNat % 16 = 0 ∨ 0x85 < (er.ecm 2).toNat) := by
  have hbyte := (er.ecm 2).isLt
  unfold Sized
  rw [sctLen_convertToBeta]
  change (_ : ℤ) = (((er.ecm 2).toNat + 3 + 10 : ℕ) : ℤ) ∧ (((er.ecm 2).toNat + 3 + 10 : ℕ) : ℤ) ≤ 1024 ↔ _
  split_ifs with hlong <;> omega

theorem sized_convertToNagra : Sized (convertToNagra er caidto) ↔
    10 ≤ (er.ecm 2).toNat ∧ ((er.ecm 1).toNat % 16 = 0 ∨ (er.ecm 2).toNat < 0x4f) := by
  have hbyte := (er.ecm 2).isLt
  unfold Sized
  rw [sctLen_convertToNagra]
  change (_ : ℤ) = (((er.ecm 2).toNat + 3 : ℕ) : ℤ) - 10 ∧ (((er.ecm 2).toNat + 3 : ℕ) : ℤ) - 10 ≤ 1024 ↔ _
  split_ifs with hshort <;> omega

/-- The way back restores what the lower byte of the length describes. -/
theorem sameBody_iff (h : Sized er) :
    SameBody er (convertToNagra (convertToBeta er caidto) caidback) ↔ er.ecmlen ≤ 248 := by
  have hbyte := (er.ecm 2).isLt
  have hlen : er.ecmlen = 3 + ((er.ecm 1).toNat % 16) * 256 + (er.ecm 2).toNat := by
    rw [← h.1]
    unfold sctLen
    push_cast
    rfl
  have hback : (convertToNagra (convertToBeta er caidto) caidback).ecmlen =
      (((er.ecm 2).toNat + 10) % 256 : ℕ) + 3 - 10 := by
    change ((((convertToBeta er caidto).ecm 2).toNat + 3 : ℕ) : ℤ) - 10 = _
    rw [convertToBeta_header.1, BitVec.toNat_ofNat]
    omega
  constructor
  · intro hsame
    have heq := hsame.1
    rw [hback] at heq
    omega
  · intro hle
    refine ⟨by rw [hback]; omega, fun i hi hlt => ?_⟩
    obtain ⟨k, rfl⟩ := Nat.exists_eq_add_of_le hi
    have hk : k < ((convertToBeta er caidto).ecm 2).toNat := by
      rw [convertToBeta_header.1, BitVec.toNat_ofNat]
      omega
    rw [convertToNagra_body hk, convertToBeta_body (by omega)]

/-- A section is converted well if and only if its length stays within the lower byte, and with it 10 bytes more
or less. -/
theorem tunneled_iff (er : EcmRequest) (h : Sized er) (caidto caidback : Caid) : Tunneled er caidto caidback ↔
    if chkIsBetatunnelCaid er.caid = 1 then
      10 ≤ (er.ecm 2).toNat ∧ (er.ecmlen < 259 ∨ (er.ecm 2).toNat < 0x4f)
    else er.ecmlen ≤ 248 := by
  have hbyte := (er.ecm 2).isLt
  have hlen : er.ecmlen = 3 + ((er.ecm 1).toNat % 16) * 256 + (er.ecm 2).toNat := by
    rw [← h.1]
    unfold sctLen
    push_cast
    rfl
  unfold Tunneled
  split_ifs
  · rw [sized_convertToNagra]
    constructor <;> omega
  · rw [sized_convertToBeta, sameBody_iff h]
    constructor <;> omega

end Lengths

/-- A request with a section of `len` bytes behind its header. -/
private def nagraRequest (len : Byte) : EcmRequest :=
  ⟨fun i => if i = 0 then 0x80 else if i = 1 then 0x70 else if i = 2 then len else 0x55, 3 + len.toNat, 0x1801, 0,
    0, 0, 0, 0, 0⟩

theorem tunneled_nagra : Sized (nagraRequest 0x86) ∧ Tunneled (nagraRequest 0x86) 0x1722 0x1801 := by
  have hsized : Sized (nagraRequest 0x86) := ⟨by decide, by decide⟩
  exact ⟨hsized, (tunneled_iff (nagraRequest 0x86) hsized 0x1722 0x1801).mpr (by decide)⟩

/-- A section that needs the upper digit of the length for the header that is inserted. -/
theorem not_tunneled_carry : Sized (nagraRequest 0xf6) ∧ ¬ Tunneled (nagraRequest 0xf6) 0x1722 0x1801 := by
  refine ⟨⟨by decide, by decide⟩, ?_⟩
  unfold Tunneled
  rw [if_neg (by decide), sized_convertToBeta]
  intro h
  exact absurd h.1.1 (by decide)

end NCam.Ecm
