import NCam.Newcamd.Des
import NCam.Util.Bytes
import Mathlib

/-! Encryption and decryption of newcamd messages, the preparation of the session key, and the frame:
`network_message_send` and `network_message_receive`. A result `none` is an access outside a buffer of
`CWS_NETMSGSIZE` bytes. -/
namespace NCam.Newcamd

open NCam.Lib NCam.Lib.Memory

def CWS_NETMSGSIZE : ℕ := 1024

/-- The two halves of a prepared key. -/
structure DesKey where
  key1 : Block
  key2 : Block

/-- Byte `idx` of the random bytes, three from each `rand()`. -/
def desRandomGet (rand : ℕ → BitVec 32) (idx : ℕ) : Byte :=
  (rand (idx / 3) >>> (idx % 3 * 8)).setWidth 8

def desKeyParityAdjust {n : ℕ} (key : Vector Byte n) : Vector Byte n :=
  key.map fun b =>
    let parity : Byte := (List.range' 1 7).foldl (fun parity j =>
      if (b >>> j) &&& 1 ≠ 0 then ~~~parity &&& 1 else parity) 1
    b ||| parity

def desKeySpread (normal : Vector Byte 14) : Vector Byte 16 :=
  desKeyParityAdjust #v[
    normal[0] &&& 0xfe,
    (normal[0] <<< 7 ||| normal[1] >>> 1) &&& 0xfe,
    (normal[1] <<< 6 ||| normal[2] >>> 2) &&& 0xfe,
    (normal[2] <<< 5 ||| normal[3] >>> 3) &&& 0xfe,
    (normal[3] <<< 4 ||| normal[4] >>> 4) &&& 0xfe,
    (normal[4] <<< 3 ||| normal[5] >>> 5) &&& 0xfe,
    (normal[5] <<< 2 ||| normal[6] >>> 6) &&& 0xfe,
    normal[6] <<< 1,
    normal[7] &&& 0xfe,
    (normal[7] <<< 7 ||| normal[8] >>> 1) &&& 0xfe,
    (normal[8] <<< 6 ||| normal[9] >>> 2) &&& 0xfe,
    (normal[9] <<< 5 ||| normal[10] >>> 3) &&& 0xfe,
    (normal[10] <<< 4 ||| normal[11] >>> 4) &&& 0xfe,
    (normal[11] <<< 3 ||| normal[12] >>> 5) &&& 0xfe,
    (normal[12] <<< 2 ||| normal[13] >>> 6) &&& 0xfe,
    normal[13] <<< 1]

def ncDesLoginKeyGet (key1 : Vector Byte 14) (key2 : List Byte) : DesKey :=
  let des14 : Vector Byte 14 := key2.zipIdx.foldl (fun des14 (b, i) =>
    let p := Fin.ofNat 14 i
    des14.set p (des14[p] ^^^ b)) key1
  let des16 := desKeySpread des14
  ⟨doPC1 (.ofFn fun i => des16[i.castAdd 8]), doPC1 (.ofFn fun i => des16[i.natAdd 8])⟩

def noPadBytes (len : ℕ) : ℕ := ((8 - ((len : ℤ) - 1).tmod 8).tmod 8).toNat

/-- The `XOR` of the bytes behind the length field. -/
def checksum (buffer : ℕ → Byte) (len : ℕ) : Byte :=
  (List.range' 2 (len - 2)).foldl (fun checksum i => checksum ^^^ buffer i) 0

/-- The buffer with `n` bytes stored from `len` on. -/
def putBytes (buffer : ℕ → Byte) (len n : ℕ) (bytes : ℕ → Byte) : ℕ → Byte :=
  fun i => if len ≤ i ∧ i < len + n then bytes (i - len) else buffer i

/-- The message with padding and checksum. -/
def padded (rand : ℕ → BitVec 32) (buffer : ℕ → Byte) (len : ℕ) : ℕ → Byte :=
  let buffer := putBytes buffer len (noPadBytes len) (desRandomGet rand)
  let len := len + noPadBytes len
  Function.update buffer len (checksum buffer len)

/-- The blocks of a loop from 2 to `len` in steps of 8. -/
def blocks (len : ℕ) : ℕ := (len - 2 + 7) / 8

def desFlags : ℕ := (1 <<< F_EURO_S2) ||| (1 <<< F_TRIPLE_DES)

/-- `nc_des_encrypt`: the buffer and the length afterwards; `none` for the result -1. The second call of
`des_random_get` goes on where `rand()` is then. -/
def ncDesEncrypt (rand : ℕ → BitVec 32) (buffer : ℕ → Byte) (len : ℕ) (deskey : Option DesKey) :
    Option ((ℕ → Byte) × ℕ) :=
  match deskey with
  | none => some (buffer, len)
  | some key =>
    if len + noPadBytes len + 1 ≥ CWS_NETMSGSIZE - 8 then none
    else
      let buffer := padded rand buffer len
      let drawn := (noPadBytes len + 2) / 3
      let len := len + noPadBytes len + 1
      let ivec : Block := .ofFn fun j => desRandomGet (fun n => rand (drawn + n)) j
      let buffer := Cbc.store buffer len ivec
      let buffer := Cbc.encrypt xorBytes (euroDes key.key1 key.key2 desFlags .hash) (blocks len) 2 ivec
        buffer
      some (buffer, len + 8)

/-- `nc_des_decrypt`: the buffer and the length afterwards; `none` for the result -1. -/
def ncDesDecrypt (buffer : ℕ → Byte) (len : ℕ) (deskey : Option DesKey) :
    Option ((ℕ → Byte) × ℕ) :=
  match deskey with
  | none => some (buffer, len)
  | some key =>
    if (len - 2) % 8 ≠ 0 ∨ len - 2 < 16 then none
    else
      let len := len - 8
      let nextIvec : Block := Cbc.load buffer len
      let buffer := Cbc.decrypt xorBytes (euroDes key.key1 key.key2 desFlags .crypt) (blocks len) 2
        nextIvec buffer
      if checksum buffer len ≠ 0 then none else some (buffer, len)

section Padding

variable {rand : ℕ → BitVec 32} {buffer : ℕ → Byte} {len : ℕ}

theorem noPadBytes_eq (hlen : 1 ≤ len) : noPadBytes len = (8 - (len - 1) % 8) % 8 := by
  have hpos : 0 ≤ (len : ℤ) - 1 := by omega
  have hmod : 0 ≤ 8 - ((len : ℤ) - 1) % 8 := by omega
  unfold noPadBytes
  rw [Int.tmod_eq_emod_of_nonneg hpos, Int.tmod_eq_emod_of_nonneg hmod]
  omega

theorem checksum_congr {buffer' : ℕ → Byte} (h : ∀ i < len, buffer i = buffer' i) :
    checksum buffer len = checksum buffer' len := by
  unfold checksum
  apply List.foldl_ext
  intro sum i hi
  rw [h i]
  simp only [List.mem_range'_1] at hi
  omega

theorem checksum_succ (hlen : 2 ≤ len) :
    checksum buffer (len + 1) = checksum buffer len ^^^ buffer len := by
  unfold checksum
  rw [show len + 1 - 2 = (len - 2) + 1 by omega, List.range'_concat, List.foldl_append]
  simp only [List.foldl_cons, List.foldl_nil, Nat.one_mul]
  rw [show 2 + (len - 2) = len by omega]

theorem padded_last :
    padded rand buffer len (len + noPadBytes len) =
      checksum (padded rand buffer len) (len + noPadBytes len) := by
  unfold padded
  rw [Function.update_self]
  apply checksum_congr
  intro i hi
  exact (Function.update_of_ne (by omega) _ _).symm

/-- The checksum makes the `XOR` of a padded message zero. -/
theorem checksum_padded (hlen : 2 ≤ len) :
    checksum (padded rand buffer len) (len + noPadBytes len + 1) = 0 := by
  rw [checksum_succ (by omega), ← padded_last, BitVec.xor_self]
  rfl

/-- The encrypted form of a message is whole blocks behind the length field. -/
theorem blocks_padded (hlen : 2 ≤ len) :
    2 + blocks (len + noPadBytes len + 1) * 8 = len + noPadBytes len + 1 := by
  unfold blocks
  rw [noPadBytes_eq (by omega)]
  omega

theorem padded_of_lt {i : ℕ} (hi : i < len) : padded rand buffer len i = buffer i := by
  have hne : i ≠ len + noPadBytes len := by omega
  have hout : ¬ (len ≤ i ∧ i < len + noPadBytes len) := by omega
  unfold padded
  rw [Function.update_of_ne hne, putBytes, if_neg hout]

end Padding

section RoundTrip

/-- The block cipher of a key undoes itself. -/
def DesKey.Inverts (key : DesKey) : Prop :=
  ∀ data, euroDes key.key1 key.key2 desFlags .crypt (euroDes key.key1 key.key2 desFlags .hash data) = data

theorem inverts_ncDesLoginKeyGet (key1 : Vector Byte 14) (key2 : List Byte) :
    (ncDesLoginKeyGet key1 key2).Inverts :=
  euroDes_crypt_hash (doPC1_last _) (by decide)

private theorem roundTrip_of_inverts {key : DesKey} (hkey : key.Inverts) (rand : ℕ → BitVec 32)
    (buffer : ℕ → Byte) (len : ℕ) (hlen : 2 ≤ len)
    (hfits : len + noPadBytes len + 1 + 8 ≤ CWS_NETMSGSIZE) :
    ∃ sent received,
      ncDesEncrypt rand buffer len (some key) = some (sent, len + noPadBytes len + 1 + 8) ∧
      ncDesDecrypt sent (len + noPadBytes len + 1 + 8) (some key) =
        some (received, len + noPadBytes len + 1) ∧
      (∀ i < len, received i = buffer i) ∧
      (∀ i < noPadBytes len, received (len + i) = desRandomGet rand i) ∧
      received (len + noPadBytes len) = checksum received (len + noPadBytes len) := by
  have hblocks := @blocks_padded len hlen
  have hpad := @noPadBytes_eq len (by omega)
  set total := len + noPadBytes len + 1 with htotal
  set ivec : Block := .ofFn fun j => desRandomGet (fun n => rand ((noPadBytes len + 2) / 3 + n)) j
  set plain := Cbc.store (padded rand buffer len) total ivec with hplain
  set sent := Cbc.encrypt xorBytes (euroDes key.key1 key.key2 desFlags .hash) (blocks total) 2 ivec
    plain with hsent
  have hiv : Cbc.load sent total = ivec := by
    rw [hsent, Cbc.load_encrypt_of_le _ _ (by omega), hplain, Cbc.load_store]
  have hback : Cbc.decrypt xorBytes (euroDes key.key1 key.key2 desFlags .crypt) (blocks total) 2 ivec
      sent = plain :=
    Cbc.decrypt_encrypt xorBytes_xorBytes hkey _ _ _ _
  have hcells : ∀ i < total, plain i = padded rand buffer len i :=
    fun i hi => Cbc.store_of_not (.inl hi)
  have hsum : checksum plain total = 0 := by
    rw [checksum_congr hcells]
    exact checksum_padded hlen
  refine ⟨sent, plain, ?_, ?_, ?_, ?_, ?_⟩
  · have hsize : ¬ total ≥ CWS_NETMSGSIZE - 8 := by
      unfold CWS_NETMSGSIZE at *
      omega
    unfold ncDesEncrypt
    dsimp only
    rw [if_neg hsize]
  · have hshape : ¬ ((total + 8 - 2) % 8 ≠ 0 ∨ total + 8 - 2 < 16) := by omega
    unfold ncDesDecrypt
    dsimp only
    rw [if_neg hshape, Nat.add_sub_cancel, hiv, hback, hsum, if_neg (by decide)]
  · intro i hi
    rw [hcells i (by omega), padded_of_lt hi]
  · intro i hi
    have hne : len + i ≠ len + noPadBytes len := by omega
    have hin : len ≤ len + i ∧ len + i < len + noPadBytes len := by omega
    rw [hcells _ (by omega)]
    unfold padded
    rw [Function.update_of_ne hne, putBytes, if_pos hin, Nat.add_sub_cancel_left]
  · rw [hcells _ (by omega), padded_last]
    apply checksum_congr
    intro i hi
    exact (hcells i (by omega)).symm

/-- A message whose encrypted form fits is encrypted; decrypting that gives the message with its
padding and its checksum. -/
theorem ncDesDecrypt_ncDesEncrypt (rand : ℕ → BitVec 32) (key1 : Vector Byte 14) (key2 : List Byte)
    (buffer : ℕ → Byte) (len : ℕ) (hlen : 2 ≤ len)
    (hfits : len + noPadBytes len + 1 + 8 ≤ CWS_NETMSGSIZE) :
    ∃ sent received,
      ncDesEncrypt rand buffer len (some (ncDesLoginKeyGet key1 key2)) =
        some (sent, len + noPadBytes len + 1 + 8) ∧
      ncDesDecrypt sent (len + noPadBytes len + 1 + 8) (some (ncDesLoginKeyGet key1 key2)) =
        some (received, len + noPadBytes len + 1) ∧
      (∀ i < len, received i = buffer i) ∧
      (∀ i < noPadBytes len, received (len + i) = desRandomGet rand i) ∧
      received (len + noPadBytes len) = checksum received (len + noPadBytes len) :=
  roundTrip_of_inverts (inverts_ncDesLoginKeyGet key1 key2) rand buffer len hlen hfits

/-- A keep-alive of eleven bytes. -/
theorem ncDesDecrypt_ncDesEncrypt_eleven :
    ∃ sent received,
      ncDesEncrypt (fun _ => 0) (BitVec.ofNat 8) 11
          (some (ncDesLoginKeyGet (.replicate 14 1) [2, 3])) =
        some (sent, 11 + noPadBytes 11 + 1 + 8) ∧
      ncDesDecrypt sent (11 + noPadBytes 11 + 1 + 8)
          (some (ncDesLoginKeyGet (.replicate 14 1) [2, 3])) =
        some (received, 11 + noPadBytes 11 + 1) ∧
      (∀ i < 11, received i = BitVec.ofNat 8 i) ∧
      (∀ i < noPadBytes 11, received (11 + i) = desRandomGet (fun _ => 0) i) ∧
      received (11 + noPadBytes 11) = checksum received (11 + noPadBytes 11) :=
  ncDesDecrypt_ncDesEncrypt _ _ _ _ _ (by decide) (by decide)

/-- What a message is decrypted to depends on its bytes behind the length field. -/
theorem ncDesDecrypt_congr {deskey : Option DesKey} {a b a' : ℕ → Byte} {len l : ℕ}
    (h : ∀ i, 2 ≤ i → i < len → a i = b i) (ha : ncDesDecrypt a len deskey = some (a', l)) :
    ∃ b', ncDesDecrypt b len deskey = some (b', l) ∧ ∀ i, 2 ≤ i → i < len → b' i = a' i := by
  cases deskey with
  | none =>
    obtain ⟨rfl, rfl⟩ := Prod.mk.inj (Option.some.inj ha)
    exact ⟨b, rfl, fun i hlo hhi => (h i hlo hhi).symm⟩
  | some key =>
    unfold ncDesDecrypt at ha ⊢
    dsimp only at ha ⊢
    by_cases hshape : (len - 2) % 8 ≠ 0 ∨ len - 2 < 16
    · rw [if_pos hshape] at ha
      exact absurd ha (Option.some_ne_none _).symm
    rw [if_neg hshape] at ha ⊢
    have hiv : (Cbc.load a (len - 8) : Block) = Cbc.load b (len - 8) := by
      ext1 j hj
      simp only [Cbc.load, Vector.getElem_ofFn]
      exact h _ (by omega) (by omega)
    have hcells := @Cbc.decrypt_congr Byte 8 xorBytes (euroDes key.key1 key.key2 desFlags .crypt)
      (fun m => 2 ≤ m ∧ m < len) (blocks (len - 8)) 2
      (fun m hlo hhi => ⟨hlo, by unfold blocks at hhi; omega⟩) (Cbc.load b (len - 8)) a b
      fun m hm => h m hm.1 hm.2
    rw [hiv] at ha
    have hsum : checksum (Cbc.decrypt xorBytes (euroDes key.key1 key.key2 desFlags .crypt)
        (blocks (len - 8)) 2 (Cbc.load b (len - 8)) a) (len - 8) =
        checksum (Cbc.decrypt xorBytes (euroDes key.key1 key.key2 desFlags .crypt)
          (blocks (len - 8)) 2 (Cbc.load b (len - 8)) b) (len - 8) := by
      unfold checksum
      apply List.foldl_ext
      intro sum i hi
      simp only [List.mem_range'_1] at hi
      rw [hcells i ⟨by omega, by omega⟩]
    rw [hsum] at ha
    split_ifs at ha with hzero
    · obtain ⟨rfl, rfl⟩ := Prod.mk.inj (Option.some.inj ha)
      refine ⟨_, if_neg hzero, ?_⟩
      intro i hlo hhi
      exact (hcells i ⟨hlo, hhi⟩).symm

/-- A message that is encrypted fits into its buffer. -/
theorem ncDesEncrypt_le {deskey : Option DesKey} {rand : ℕ → BitVec 32} {buffer sent : ℕ → Byte}
    {len l : ℕ} (hmax : len ≤ CWS_NETMSGSIZE) (h : ncDesEncrypt rand buffer len deskey = some (sent, l)) :
    len ≤ l ∧ l ≤ CWS_NETMSGSIZE := by
  cases deskey with
  | none =>
    obtain ⟨rfl, rfl⟩ := Prod.mk.inj (Option.some.inj h)
    exact ⟨le_refl _, hmax⟩
  | some key =>
    unfold ncDesEncrypt at h
    dsimp only at h
    split_ifs at h with hover
    obtain ⟨-, rfl⟩ := Prod.mk.inj (Option.some.inj h)
    exact ⟨by omega, by omega⟩

theorem ncDesDecrypt_le {deskey : Option DesKey} {buffer received : ℕ → Byte} {len l : ℕ}
    (h : ncDesDecrypt buffer len deskey = some (received, l)) : l ≤ len := by
  cases deskey with
  | none =>
    obtain ⟨-, rfl⟩ := Prod.mk.inj (Option.some.inj h)
    exact le_refl _
  | some key =>
    unfold ncDesDecrypt at h
    dsimp only at h
    split_ifs at h
    obtain ⟨-, rfl⟩ := Prod.mk.inj (Option.some.inj h)
    exact Nat.sub_le _ _

/-- The receiver finds what was encrypted again, in whatever memory it has read the bytes into. -/
theorem ncDesDecrypt_of_ncDesEncrypt {deskey : Option DesKey} (hkey : ∀ key ∈ deskey, key.Inverts)
    {rand : ℕ → BitVec 32} {buffer sent recv : ℕ → Byte} {len l : ℕ} (hlen : 2 ≤ len)
    (h : ncDesEncrypt rand buffer len deskey = some (sent, l))
    (hrecv : ∀ i, 2 ≤ i → i < l → recv i = sent i) :
    ∃ received l', ncDesDecrypt recv l deskey = some (received, l') ∧ len ≤ l' ∧
      ∀ i, 2 ≤ i → i < len → received i = buffer i := by
  cases deskey with
  | none =>
    obtain ⟨rfl, rfl⟩ := Prod.mk.inj (Option.some.inj h)
    exact ⟨recv, len, rfl, le_refl _, hrecv⟩
  | some key =>
    have hfits : len + noPadBytes len + 1 + 8 ≤ CWS_NETMSGSIZE := by
      unfold ncDesEncrypt at h
      dsimp only at h
      split_ifs at h
      omega
    obtain ⟨sent', received, hsent, hdec, hcells, -⟩ :=
      roundTrip_of_inverts (hkey key rfl) rand buffer len hlen hfits
    rw [hsent] at h
    obtain ⟨rfl, rfl⟩ := Prod.mk.inj (Option.some.inj h)
    obtain ⟨received', hdec', hsame⟩ := ncDesDecrypt_congr (fun i hlo hhi => (hrecv i hlo hhi).symm) hdec
    refine ⟨received', _, hdec', by omega, fun i hlo hhi => ?_⟩
    rw [hsame i hlo (by omega), hcells i hhi]

end RoundTrip

/-- `net_msg_type_t`, as far as the frame and the login use it. -/
def MSG_CLIENT_2_SERVER_LOGIN_ACK : Byte := 0xE1

def MSG_CARD_DATA : Byte := 0xE4
def MSG_SERVER_2_CLIENT_ADDSID : Byte := 0xD7

inductive NcdProto
  | NCD_AUTO
  | NCD_524
  | NCD_525
deriving DecidableEq

inductive CommType
  | COMMTYPE_CLIENT
  | COMMTYPE_SERVER
deriving DecidableEq

/-- The side that receives what a side sends. -/
def CommType.peer : CommType → CommType
  | COMMTYPE_CLIENT => COMMTYPE_SERVER
  | COMMTYPE_SERVER => COMMTYPE_CLIENT

structure CustomData where
  sid : BitVec 16
  caid : BitVec 16
  provid : BitVec 32

structure NcdReader where
  ncdDisableServerFilt : Bool
  ncdStealth : ℕ

/-- One side of a connection. -/
structure Client where
  ncdProto : NcdProto
  /-- Twelve bytes. -/
  ncdHeader : ℕ → Byte
  reader : Option NcdReader

def ndcId (reader : NcdReader) : BitVec 16 :=
  match reader.ncdStealth with
  | 1 => 0x6D67
  | 2 => 0x6D63
  | 3 => 0x6576
  | 4 => 0x0000
  | 5 => 0x8888
  | 6 => 0x1722
  | _ => 0x8181

/-- The two bytes of a 16-bit field. -/
def bytes16 (v : BitVec 16) : List Byte := [(v >>> 8).setWidth 8, v.setWidth 8]

def headSize (ncdProto : NcdProto) : ℕ := if ncdProto = .NCD_524 then 8 else 12

/-- Where the service id stands. -/
def sidPos (ncdProto : NcdProto) : ℕ := if ncdProto = .NCD_524 then 6 else 4

/-- The body with its length in the low twelve bits of bytes 1 and 2. -/
def lenField (buffer : ℕ → Byte) (len : ℕ) : ℕ → Byte :=
  put buffer 1
    [(buffer 1 &&& 0xF0) ||| (.ofNat 8 ((len - 3) >>> 8) &&& 0x0F), .ofNat 8 (len - 3) &&& 0xFF]

/-- The length of the frame, without these two bytes. -/
def frameLen (netbuf : ℕ → Byte) (len : ℕ) : ℕ → Byte :=
  put netbuf 0 [.ofNat 8 ((len - 2) >>> 8), .ofNat 8 (len - 2) &&& 0xFF]

def CustomData.provBytes (cd : CustomData) : List Byte :=
  [(cd.provid >>> 16).setWidth 8, (cd.provid >>> 8).setWidth 8, cd.provid.setWidth 8]

/-- Service id, caid and provider id as they stand in the header. -/
def CustomData.bytes (cd : CustomData) : List Byte :=
  bytes16 cd.sid ++ bytes16 cd.caid ++ cd.provBytes

/-- What a call of `network_message_send` is given besides the connection. -/
structure Call where
  netMsgId : Option (BitVec 16)
  buffer : ℕ → Byte
  len : ℕ
  commType : CommType
  sid : BitVec 16
  cd : Option CustomData

/-- The message id that is sent, and kept if there is a place for it. -/
def Call.nextMsgId (m : Call) : Option (BitVec 16) :=
  if m.commType = .COMMTYPE_CLIENT then m.netMsgId.map (· + 1) else m.netMsgId

/-- The login is acknowledged to a client in the way of mgclient. -/
def MgAck (ncdMgclient : Bool) (cl : Client) (m : Call) : Prop :=
  cl.ncdProto = .NCD_525 ∧ ncdMgclient = true ∧ m.buffer 0 = MSG_CLIENT_2_SERVER_LOGIN_ACK

instance (ncdMgclient : Bool) (cl : Client) (m : Call) : Decidable (MgAck ncdMgclient cl m) :=
  inferInstanceAs (Decidable (_ ∧ _))

/-- The service id in the header, with what an mgclient puts behind it. -/
def putSid (cl : Client) (sid : BitVec 16) (netbuf : ℕ → Byte) : ℕ → Byte :=
  if sid ≠ 0 then
    let netbuf :=
      match cl.reader with
      | some reader =>
        if reader.ncdDisableServerFilt ∧ sid ≠ ndcId reader ∧ cl.ncdProto ≠ .NCD_524 then
          put netbuf 4 (slice cl.ncdHeader 4 7)
        else netbuf
      | none => netbuf
    put netbuf (sidPos cl.ncdProto) (bytes16 sid)
  else netbuf

def putCustom (cd : Option CustomData) (netbuf : ℕ → Byte) : ℕ → Byte :=
  match cd with
  | some cd => put netbuf 4 cd.bytes
  | none => netbuf

/-- The marks for mgcamd in a long header. -/
def putMarks (ncdMgclient : Bool) (cl : Client) (m : Call) (netbuf : ℕ → Byte) : ℕ → Byte :=
  let netbuf := if MgAck ncdMgclient cl m then put (put netbuf 4 [0x6E, 0x73]) 11 [0x14] else netbuf
  if cl.ncdProto = .NCD_525 ∧ m.buffer 0 = MSG_SERVER_2_CLIENT_ADDSID then put netbuf 11 [0x14] else netbuf

/-- The header behind the length. -/
def putHeader (ncdMgclient : Bool) (cl : Client) (m : Call) (netbuf : ℕ → Byte) : ℕ → Byte :=
  let netbuf := put netbuf 2 (bytes16 (m.nextMsgId.getD 0))
  let netbuf := put netbuf 4 (List.replicate (if cl.ncdProto = .NCD_524 then 4 else 8) 0)
  putMarks ncdMgclient cl m (putCustom m.cd (putSid cl m.sid netbuf))

/-- What `network_message_send` leaves behind: the message id and the body it was given, and the bytes it
sends; `none` for -1. -/
structure Sent where
  netMsgId : Option (BitVec 16)
  buffer : ℕ → Byte
  wire : Option (List Byte)

/-- `network_message_send`, on a socket if `handle`; `netbuf` is what stands in the array before. -/
def networkMessageSend (rand : ℕ → BitVec 32) (ncdMgclient : Bool) (netbuf : ℕ → Byte) (cl : Client)
    (handle : Bool) (deskey : Option DesKey) (m : Call) : Option Sent :=
  if m.len < 3 ∨ m.len + headSize cl.ncdProto > CWS_NETMSGSIZE ∨ handle = false then
    some ⟨m.netMsgId, m.buffer, none⟩
  else do
    let buffer := lenField m.buffer m.len
    let netbuf ← putWithin CWS_NETMSGSIZE netbuf (headSize cl.ncdProto) (slice buffer 0 m.len)
    let len := m.len + headSize cl.ncdProto
    let netbuf := frameLen (putHeader ncdMgclient cl m netbuf) len
    match ncDesEncrypt rand netbuf len deskey with
    | none => some ⟨m.nextMsgId, buffer, none⟩
    | some (netbuf, len) =>
      let wire ← sliceWithin CWS_NETMSGSIZE (frameLen netbuf len) 0 len
      some ⟨m.nextMsgId, buffer, some wire⟩

/-- What `network_message_receive` returns and leaves behind; `rest` is what it has not read. -/
structure Received where
  rc : ℤ
  cl : Client
  netMsgId : Option (BitVec 16)
  buffer : ℕ → Byte
  rest : List Byte
  disconnected : Bool

/-- The length of the body at `o`. -/
def bodyLen (netbuf : ℕ → Byte) (o : ℕ) : ℕ :=
  ((netbuf (o + 1) &&& 0x0F).toNat <<< 8 ||| (netbuf (o + 2)).toNat) + 3

/-- The variant of the protocol after the automatic detection; `none` if there is none. -/
def detect (netbuf : ℕ → Byte) (len : ℕ) : NcdProto → Option NcdProto
  | .NCD_AUTO =>
    let l5 := bodyLen netbuf 12
    let l4 := bodyLen netbuf 8
    if l5 + 12 ≤ len ∧ (netbuf 12 &&& 0xF0 = 0xE0 ∨ netbuf 12 &&& 0xF0 = 0x80) then some .NCD_525
    -- the source looks at byte 9 in the last test, not at byte 8
    else if l4 + 8 ≤ len ∧ (netbuf 8 &&& 0xF0 = 0xE0 ∨ netbuf 9 &&& 0xF0 = 0x80) then some .NCD_524
    else none
  | ncdProto => some ncdProto

/-- The rest of `network_message_receive`, with the decrypted frame of `len` bytes. -/
def takeFrame (cl : Client) (netMsgId : Option (BitVec 16)) (buffer netbuf : ℕ → Byte) (len : ℕ)
    (rest : List Byte) (commType : CommType) : Option Received :=
  if len < 11 then some ⟨-1, cl, netMsgId, buffer, rest, false⟩
  else
    match detect netbuf len cl.ncdProto with
    | none => some ⟨-1, cl, netMsgId, buffer, rest, false⟩
    | some ncdProto => do
      let cl := { cl with ncdProto := ncdProto }
      let o := if ncdProto = .NCD_525 then 12 else 8
      let returnLen := bodyLen netbuf o
      if len < returnLen + o then some ⟨-1, cl, netMsgId, buffer, rest, false⟩
      else do
        let msgid := (netbuf 2).setWidth 16 <<< 8 ||| (netbuf 3).setWidth 16
        let cl := { cl with ncdHeader := put cl.ncdHeader 0 (slice netbuf 0 o) }
        let body ← sliceWithin CWS_NETMSGSIZE netbuf o returnLen
        match commType with
        | .COMMTYPE_SERVER =>
          let buffer := put buffer 0 (slice netbuf (if ncdProto = .NCD_525 then 4 else 6) 2)
          let buffer ← putWithin CWS_NETMSGSIZE buffer 2 body
          some ⟨returnLen + 2, cl, netMsgId.map fun _ => msgid, buffer, rest, false⟩
        | .COMMTYPE_CLIENT =>
          let buffer := put buffer 0 (slice netbuf 2 2)
          let buffer ← putWithin CWS_NETMSGSIZE buffer 2 body
          some ⟨returnLen + 2, cl, netMsgId, buffer, rest, false⟩

/-- `network_message_receive` when `arrived` has come in; `netbuf` is what stands in the array before. -/
def networkMessageReceive (netbuf : ℕ → Byte) (cl : Client) (handle : Bool)
    (netMsgId : Option (BitVec 16)) (buffer : ℕ → Byte) (arrived : List Byte) (deskey : Option DesKey)
    (commType : CommType) : Option Received :=
  if handle = false then some ⟨-1, cl, netMsgId, buffer, arrived, false⟩
  else do
    let got := arrived.take 2
    let netbuf ← putWithin CWS_NETMSGSIZE netbuf 0 got
    let rest := arrived.drop 2
    if got.length = 0 then some ⟨0, cl, netMsgId, buffer, rest, true⟩
    else if got.length ≠ 2 then some ⟨-1, cl, netMsgId, buffer, rest, true⟩
    else do
      let size := (netbuf 0).toNat <<< 8 ||| (netbuf 1).toNat
      if size > CWS_NETMSGSIZE - 2 then some ⟨-1, cl, netMsgId, buffer, rest, false⟩
      else do
        let got := rest.take size
        let netbuf ← putWithin CWS_NETMSGSIZE netbuf 2 got
        let rest := rest.drop size
        if got.length = 0 then some ⟨0, cl, netMsgId, buffer, rest, false⟩
        else if got.length ≠ size then some ⟨-1, cl, netMsgId, buffer, rest, false⟩
        else
          match ncDesDecrypt netbuf (size + 2) deskey with
          | none => some ⟨-1, cl, netMsgId, buffer, rest, false⟩
          | some (netbuf, len) => takeFrame cl netMsgId buffer netbuf len rest commType

end NCam.Newcamd
