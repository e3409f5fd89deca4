import NCam.Cccam.Card
import NCam.Lib.Stream

/-! The stream cipher of CCcam connections and the encryption of control words. -/
namespace NCam.Cccam

open NCam.Lib NCam.Util

/-- `cc_crypt_block`. -/
structure CcCryptBlock where
  keytable : Vector Byte 256
  state : Byte
  counter : Byte
  sum : Byte
deriving DecidableEq

/-- `cc_crypt_mode_t`. -/
inductive CcCryptMode
  | decrypt
  | encrypt
deriving DecidableEq

/-- One round of the loop of `cc_crypt`. -/
def cryptByte (block : CcCryptBlock) (x : Byte) (mode : CcCryptMode) : Byte × CcCryptBlock :=
  let counter := block.counter + 1
  let sum := block.sum + block.keytable[counter.toNat]
  let keytable := block.keytable.swap counter.toNat sum.toNat
  let y := x ^^^ keytable[(keytable[counter.toNat] + keytable[sum.toNat]).toNat] ^^^ block.state
  let z := match mode with
    | .decrypt => y
    | .encrypt => x
  (y, ⟨keytable, block.state ^^^ z, counter, sum⟩)

def ccCrypt (block : CcCryptBlock) (data : List Byte) (mode : CcCryptMode) :
    List Byte × CcCryptBlock :=
  match data with
  | [] => ([], block)
  | x :: data =>
    let (y, block) := cryptByte block x mode
    let (ys, block) := ccCrypt block data mode
    (y :: ys, block)

/-- `b2ll(8, node_id)`. -/
def b2ll (nodeId : NodeId) : BitVec 64 := nodeId.foldl (fun k b => (k <<< 8) + b.setWidth 64) 0

/-- Byte `i` in the loop of `cc_cw_crypt`. -/
def cwCryptByte (unodeId : BitVec 64) (cardid : BitVec 32) (i : ℕ) (cw : Byte) : Byte :=
  let shifted :=
    if unodeId > 0x7FFFFFFFFFFFFFFF then unodeId >>> (4 * i) else unodeId.sshiftRight (4 * i)
  let tmp := cw ^^^ shifted.setWidth 8
  let tmp := if i % 2 = 1 then ~~~tmp else tmp
  (cardid >>> (2 * i)).setWidth 8 ^^^ tmp

/-- `cc_cw_crypt` on a buffer that starts with the control words. -/
def ccCwCrypt (nodeId : NodeId) (cardid : BitVec 32) (cws : List Byte) : List Byte :=
  cws.mapIdx fun i cw => if i < 16 then cwCryptByte (b2ll nodeId) cardid i cw else cw

/-- What `cc_cw_crypt` adds to byte `i`. -/
def cwMask (nodeId : NodeId) (cardid : BitVec 32) (i : ℕ) : Byte :=
  cwCryptByte (b2ll nodeId) cardid i 0

def xorAll (data : List Byte) : Byte := data.foldr (· ^^^ ·) 0

/-- The bytes that `cc_cw_crypt` adds cancel. -/
def Balanced (nodeId : NodeId) (cardid : BitVec 32) : Prop :=
  xorAll ((List.range 16).map (cwMask nodeId cardid)) = 0

instance (nodeId : NodeId) (cardid : BitVec 32) : Decidable (Balanced nodeId cardid) :=
  inferInstanceAs (Decidable (_ = _))

section Cipher

private theorem xor_cancel (x k s : Byte) : x ^^^ k ^^^ s ^^^ k ^^^ s = x := by
  grind

/-- Decryption of a byte gives the byte and the block that encryption gave. -/
theorem cryptByte_cryptByte (block : CcCryptBlock) (x : Byte) :
    cryptByte block (cryptByte block x .encrypt).1 .decrypt =
      (x, (cryptByte block x .encrypt).2) := by
  simp only [cryptByte, xor_cancel]

def cipher : StreamCipher CcCryptBlock Byte where
  enc block x := (cryptByte block x .encrypt).1
  dec block y := (cryptByte block y .decrypt).1
  feed block x := (cryptByte block x .encrypt).2
  dec_enc block x := by rw [cryptByte_cryptByte]

theorem ccCrypt_encrypt (block : CcCryptBlock) (xs : List Byte) :
    ccCrypt block xs .encrypt = (cipher.encrypt block xs, cipher.run block xs) := by
  induction xs generalizing block with
  | nil => rfl
  | cons x xs ih =>
    unfold ccCrypt
    dsimp only
    rw [ih]
    rfl

theorem ccCrypt_decrypt (block : CcCryptBlock) (ys : List Byte) :
    ccCrypt block ys .decrypt =
      (cipher.decrypt block ys, cipher.run block (cipher.decrypt block ys)) := by
  induction ys generalizing block with
  | nil => rfl
  | cons y ys ih =>
    unfold ccCrypt
    dsimp only
    rw [ih]
    rfl

theorem ccCrypt_cipher_encrypt (block : CcCryptBlock) (xs : List Byte) :
    ccCrypt block (cipher.encrypt block xs) .decrypt = (xs, cipher.run block xs) := by
  rw [ccCrypt_decrypt, cipher.decrypt_encrypt]

/-- Encryption of what a byte decrypts to gives the byte back. -/
private theorem enc_dec (block : CcCryptBlock) (y : Byte) :
    cipher.enc block (cipher.dec block y) = y := by
  have hcancel (k s : Byte) : y ^^^ k ^^^ s ^^^ k ^^^ s = y := xor_cancel y k s
  simp only [cipher, cryptByte, hcancel]

/-- The data that decrypts to `xs` is the one that `xs` encrypts to. -/
theorem ccCrypt_decrypt_eq_iff (block : CcCryptBlock) (xs ys : List Byte) :
    (ccCrypt block ys .decrypt).1 = xs ↔ ys = (ccCrypt block xs .encrypt).1 := by
  rw [ccCrypt_decrypt, ccCrypt_encrypt]
  constructor
  · intro h
    rw [← h, cipher.encrypt_decrypt enc_dec]
  · intro h
    rw [h, cipher.decrypt_encrypt]

@[simp] theorem xorAll_cons (x : Byte) (xs : List Byte) : xorAll (x :: xs) = x ^^^ xorAll xs := rfl

/-- Apart from `state`, the block after some data depends on its length only. -/
theorem run_of_length {xs ys : List Byte} (h : xs.length = ys.length) (block : CcCryptBlock)
    (t : Byte) : cipher.run { block with state := t } ys =
      { cipher.run block xs with state := t ^^^ xorAll ys } := by
  induction xs generalizing block t ys with
  | nil =>
    have hys : ys = [] := List.length_eq_zero_iff.mp h.symm
    rw [hys]
    simp [xorAll, StreamCipher.run]
  | cons x xs ih =>
    cases ys with
    | nil => simp at h
    | cons y ys =>
      have hlen : xs.length = ys.length := by simpa using h
      have hstep := ih hlen (cipher.feed block x) (t ^^^ y)
      rw [xorAll_cons, ← BitVec.xor_assoc]
      exact hstep

theorem run_state (block : CcCryptBlock) (xs : List Byte) :
    (cipher.run block xs).state = block.state ^^^ xorAll xs :=
  congrArg CcCryptBlock.state (run_of_length rfl block block.state)

/-- The step over two buffers of the same length leads to the same block if and only if their bytes have
the same sum. -/
theorem run_eq_run_iff {xs ys : List Byte} (h : xs.length = ys.length) (block : CcCryptBlock) :
    cipher.run block xs = cipher.run block ys ↔ xorAll xs = xorAll ys := by
  constructor
  · intro heq
    have hstate := congrArg CcCryptBlock.state heq
    rw [run_state, run_state] at hstate
    exact (BitVec.xor_right_inj _).mp hstate
  · intro heq
    have hys := run_of_length h block block.state
    rw [← heq, ← run_state] at hys
    exact hys.symm

end Cipher

section ControlWords

variable (nodeId : NodeId) (cardid : BitVec 32)

theorem cwCryptByte_eq (unodeId : BitVec 64) (i : ℕ) (cw : Byte) :
    cwCryptByte unodeId cardid i cw = cw ^^^ cwCryptByte unodeId cardid i 0 := by
  unfold cwCryptByte
  dsimp only
  split_ifs <;> grind

@[simp] theorem length_ccCwCrypt (cws : List Byte) : (ccCwCrypt nodeId cardid cws).length = cws.length := by
  simp [ccCwCrypt]

theorem ccCwCrypt_ccCwCrypt (cws : List Byte) :
    ccCwCrypt nodeId cardid (ccCwCrypt nodeId cardid cws) = cws := by
  apply List.ext_getElem
  · simp
  · intro i h1 h2
    simp only [ccCwCrypt, List.getElem_mapIdx]
    split_ifs with hi
    · rw [cwCryptByte_eq, cwCryptByte_eq _ _ _ cws[i], BitVec.xor_assoc, BitVec.xor_self,
        BitVec.xor_zero]
    · rfl

theorem xorAll_zipWith {xs ys : List Byte} (h : xs.length = ys.length) :
    xorAll (List.zipWith (· ^^^ ·) xs ys) = xorAll xs ^^^ xorAll ys := by
  induction xs generalizing ys with
  | nil =>
    have hys : ys = [] := List.length_eq_zero_iff.mp h.symm
    rw [hys]
    rfl
  | cons x xs ih =>
    cases ys with
    | nil => simp at h
    | cons y ys =>
      rw [List.zipWith_cons_cons, xorAll_cons, ih (by simpa using h), xorAll_cons, xorAll_cons]
      grind

theorem ccCwCrypt_eq_zipWith {cws : List Byte} (h : cws.length = 16) : ccCwCrypt nodeId cardid cws =
    List.zipWith (· ^^^ ·) cws ((List.range 16).map (cwMask nodeId cardid)) := by
  apply List.ext_getElem
  · simp [h]
  · intro i h1 h2
    have hi : i < 16 := by simpa [h] using h1
    simp only [ccCwCrypt, List.getElem_mapIdx, if_pos hi, List.getElem_zipWith, List.getElem_map,
      List.getElem_range]
    exact cwCryptByte_eq cardid _ i _

/-- The additional step over an encrypted control word leads to the same block as over the control word
itself if and only if the mask is balanced. -/
theorem run_ccCwCrypt_iff {cws : List Byte} (h : cws.length = 16) (block : CcCryptBlock) :
    cipher.run block (ccCwCrypt nodeId cardid cws) = cipher.run block cws ↔
      Balanced nodeId cardid := by
  have hinj := BitVec.xor_right_inj (x := xorAll ((List.range 16).map (cwMask nodeId cardid)))
    (y := 0#8) (xorAll cws)
  rw [run_eq_run_iff (by simp), ccCwCrypt_eq_zipWith nodeId cardid h, xorAll_zipWith (by simp [h])]
  rw [BitVec.xor_zero] at hinj
  exact hinj

end ControlWords

end NCam.Cccam
