import NCam.Lib.Undo
import NCam.Util.Bytes

/-! The cipher of `module-gbox-helper.c`: two keyed networks on the first eight bytes, the XOR chain over
the message, and the window at its end. Decryption takes back encryption on every buffer of at least ten bytes, and
both stay inside it. -/
namespace NCam.Gbox

open NCam.Lib
open NCam.Util (Byte)

def lookupTable : Vector Byte 64 := #v[
  0x25, 0x38, 0xD4, 0xCD, 0x17, 0x7A, 0x5E, 0x6C, 0x52, 0x42, 0xFE, 0x68, 0xAB, 0x3F, 0xF7, 0xBE,
  0x47, 0x57, 0x71, 0xB0, 0x23, 0xC1, 0x26, 0x6C, 0x41, 0xCE, 0x94, 0x37, 0x45, 0x04, 0xA2, 0xEA,
  0x07, 0x58, 0x35, 0x55, 0x08, 0x2A, 0x0F, 0xE7, 0xAC, 0x76, 0xF0, 0xC1, 0xE6, 0x09, 0x10, 0xDD,
  0xC5, 0x8D, 0x2E, 0xD9, 0x03, 0x9C, 0x3D, 0x2C, 0x4D, 0x41, 0x0C, 0x5E, 0xDE, 0xE4, 0x90, 0xAE]

/-- `Lookup_Table[x & 0x3F]`. -/
def lookup (x : Byte) : Byte :=
  lookupTable.get ⟨(x &&& 0x3F).toNat, Nat.lt_succ_of_le Nat.and_le_right⟩

structure Pass where
  pass0 : Byte
  pass1 : Byte
  pass2 : Byte
  pass3 : Byte
  deriving DecidableEq

namespace Pass

/-- `pass[i & 3]`. -/
def get (p : Pass) (i : ℕ) : Byte :=
  if i % 4 = 0 then p.pass0 else if i % 4 = 1 then p.pass1 else if i % 4 = 2 then p.pass2 else p.pass3

/-- The lowest bit of `hi` goes above the upper bits of `lo`. -/
def shiftDown (hi lo : Byte) : Byte := (lo >>> 1) + (hi &&& 1) * 0x80

def rotateRight (p : Pass) : Pass :=
  ⟨shiftDown p.pass3 p.pass0, shiftDown p.pass0 p.pass1, shiftDown p.pass1 p.pass2,
    shiftDown p.pass2 p.pass3⟩

/-- The highest bit of `lo` goes below the lower bits of `hi`. -/
def shiftUp (hi lo : Byte) : Byte := ((lo &&& 0x80) >>> 7) + (hi <<< 1)

def rotateLeft (p : Pass) : Pass :=
  ⟨shiftUp p.pass0 p.pass1, shiftUp p.pass1 p.pass2, shiftUp p.pass2 p.pass3, shiftUp p.pass3 p.pass0⟩

end Pass

def gboxConvertPw (pw : BitVec 32) : Pass :=
  ⟨(pw >>> 24).truncate 8, (pw >>> 16).truncate 8, (pw >>> 8).truncate 8, pw.truncate 8⟩

/-- The buffer, and the password as it was rotated so far. -/
abbrev State := (ℕ → Byte) × Pass

section Networks

variable (size : ℕ)

/-- Three changes of the cell behind cell `i` of the eight cells from `off` on. -/
def mix3 (off i : ℕ) (f g h : Byte → Byte → Byte) (buf : ℕ → Byte) : Option (ℕ → Byte) :=
  (Memory.mixWithin size buf (off + i % 8) (off + (i + 1) % 8) f).bind fun buf =>
    (Memory.mixWithin size buf (off + i % 8) (off + (i + 1) % 8) g).bind fun buf =>
      Memory.mixWithin size buf (off + i % 8) (off + (i + 1) % 8) h

/-- What the loop body of `gbox_encrypt8` does with the buffer. -/
def encryptMix8 (off bufcounter : ℕ) (pass : Pass) : (ℕ → Byte) → Option (ℕ → Byte) :=
  mix3 size off bufcounter (fun x y => y - lookup (x >>> 2))
    (fun x y => lookup (x - pass.get (bufcounter + 1)) ^^^ y) (fun _ y => y - pass.get bufcounter)

/-- What the loop body of `gbox_decrypt8` does with the buffer. -/
def decryptMix8 (off bufcounter : ℕ) (pass : Pass) : (ℕ → Byte) → Option (ℕ → Byte) :=
  mix3 size off bufcounter (fun _ y => pass.get bufcounter + y)
    (fun x y => lookup (x - pass.get (bufcounter + 1)) ^^^ y) (fun x y => lookup (x >>> 2) + y)

/-- The password is rotated before the buffer is changed. -/
def encryptRound (mix : Pass → (ℕ → Byte) → Option (ℕ → Byte)) (s : State) : Option State :=
  let pass := s.2.rotateRight
  (mix pass s.1).map fun buf => (buf, pass)

/-- The password is rotated after the buffer was changed. -/
def decryptRound (mix : Pass → (ℕ → Byte) → Option (ℕ → Byte)) (s : State) : Option State :=
  (mix s.2 s.1).map fun buf => (buf, s.2.rotateLeft)

/-- On the eight cells from `off` on. -/
def gboxEncrypt8 (off : ℕ) (s : State) : Option State :=
  (List.range 4).foldlM (fun s _ => (List.range 8).reverse.foldlM (fun s b => encryptRound (encryptMix8 size off b) s) s) s

def gboxDecrypt8 (off : ℕ) (s : State) : Option State :=
  (List.range 4).reverse.foldlM (fun s _ => (List.range 8).foldlM (fun s b => decryptRound (decryptMix8 size off b) s) s) s

/-- What the loop body of `gbox_encryptA` does with the buffer. -/
def encryptMixA (counter : ℕ) (pass : Pass) : (ℕ → Byte) → Option (ℕ → Byte) :=
  mix3 size 0 counter (fun x y => lookup ((pass.get (counter + 1) ^^^ x) >>> 2) * 2 + y)
    (fun x y => lookup (x - pass.get (counter + 1)) ^^^ y) (fun _ y => pass.get counter + y)

/-- What the loop body of `gbox_decryptA` does with the buffer. -/
def decryptMixA (counter : ℕ) (pass : Pass) : (ℕ → Byte) → Option (ℕ → Byte) :=
  mix3 size 0 counter (fun _ y => y - pass.get counter)
    (fun x y => lookup (x - pass.get (counter + 1)) ^^^ y)
    (fun x y => y - lookup ((pass.get (counter + 1) ^^^ x) >>> 2) * 2)

def gboxEncryptA (s : State) : Option State :=
  (List.range 32).reverse.foldlM (fun s counter => encryptRound (encryptMixA size counter) s) s

def gboxDecryptA (s : State) : Option State :=
  (List.range 32).foldlM (fun s counter => decryptRound (decryptMixA size counter) s) s

/-- Each byte is combined with its successor. -/
def xorStep (buf : ℕ → Byte) (counter : ℕ) : Option (ℕ → Byte) :=
  Memory.mixWithin size buf (counter + 1) counter fun x y => x ^^^ y

/-- The window `&buffer[bufsize - 9]`; before the buffer it is undefined. -/
def window (bufsize : ℕ) : Option ℕ := if 9 ≤ bufsize then some (bufsize - 9) else none

def gboxEncryptB (bufsize : ℕ) (s : State) : Option State := do
  let buf ← (List.range (bufsize - 1)).foldlM (xorStep size) s.1
  let s ← gboxEncrypt8 size 0 (buf, s.2)
  let off ← window bufsize
  gboxDecrypt8 size off s

def gboxDecryptB (bufsize : ℕ) (s : State) : Option State := do
  let off ← window bufsize
  let s ← gboxEncrypt8 size off s
  let s ← gboxDecrypt8 size 0 s
  let buf ← (List.range (bufsize - 1)).reverse.foldlM (xorStep size) s.1
  pure (buf, s.2)

/-- `none` is an access outside the `size` bytes of the buffer. -/
def gboxEncrypt (buffer : ℕ → Byte) (bufsize : ℕ) (key : BitVec 32) : Option (ℕ → Byte) := do
  let s ← gboxEncryptA size (buffer, gboxConvertPw key)
  let s ← gboxEncryptB size bufsize s
  pure s.1

def gboxDecrypt (buffer : ℕ → Byte) (bufsize : ℕ) (localkey : BitVec 32) : Option (ℕ → Byte) := do
  let s ← gboxDecryptB size bufsize (buffer, gboxConvertPw localkey)
  let s ← gboxDecryptA size s
  pure s.1

end Networks

namespace Pass

theorem toNat_shiftDown (hi lo : Byte) :
    (shiftDown hi lo).toNat = lo.toNat / 2 + hi.toNat % 2 * 128 := by
  have hbit : (hi &&& 1).toNat = hi.toNat % 2 := by
    rw [BitVec.toNat_and]
    exact Nat.and_one_is_mod hi.toNat
  have hlo := lo.isLt
  rw [shiftDown, BitVec.toNat_add, BitVec.toNat_mul, BitVec.toNat_ushiftRight, hbit,
    Nat.shiftRight_eq_div_pow]
  change (lo.toNat / 2 ^ 1 + hi.toNat % 2 * 128 % 2 ^ 8) % 2 ^ 8 = _
  omega

theorem toNat_shiftUp (hi lo : Byte) :
    (shiftUp hi lo).toNat = lo.toNat / 128 + hi.toNat % 128 * 2 := by
  have hbit : ∀ x : Byte, (x &&& 0x80) >>> 7 = x >>> 7 := by decide
  have hlo := lo.isLt
  rw [shiftUp, hbit, BitVec.toNat_add, BitVec.toNat_ushiftRight, BitVec.toNat_shiftLeft,
    Nat.shiftRight_eq_div_pow, Nat.shiftLeft_eq]
  omega

@[simp] theorem shiftUp_shiftDown (a b c : Byte) : shiftUp (shiftDown a b) (shiftDown b c) = b := by
  apply BitVec.eq_of_toNat_eq
  have hb := b.isLt
  have hc := c.isLt
  rw [toNat_shiftUp, toNat_shiftDown, toNat_shiftDown]
  omega

@[simp] theorem shiftDown_shiftUp (a b c : Byte) : shiftDown (shiftUp a b) (shiftUp b c) = b := by
  apply BitVec.eq_of_toNat_eq
  have hb := b.isLt
  have hc := c.isLt
  rw [toNat_shiftDown, toNat_shiftUp, toNat_shiftUp]
  omega

theorem rotateLeft_rotateRight (p : Pass) : p.rotateRight.rotateLeft = p := by
  simp only [rotateRight, rotateLeft, shiftUp_shiftDown]

theorem rotateRight_rotateLeft (p : Pass) : p.rotateLeft.rotateRight = p := by
  simp only [rotateRight, rotateLeft, shiftDown_shiftUp]

/-- The password as one number. -/
def word (p : Pass) : ℕ :=
  p.pass0.toNat * 2 ^ 24 + p.pass1.toNat * 2 ^ 16 + p.pass2.toNat * 2 ^ 8 + p.pass3.toNat

theorem word_injective {p q : Pass} (h : p.word = q.word) : p = q := by
  obtain ⟨a0, a1, a2, a3⟩ := p
  obtain ⟨b0, b1, b2, b3⟩ := q
  unfold word at h
  dsimp only at h
  have := a0.isLt
  have := a1.isLt
  have := a2.isLt
  have := a3.isLt
  have := b0.isLt
  have := b1.isLt
  have := b2.isLt
  have := b3.isLt
  rw [Pass.mk.injEq]
  refine ⟨?_, ?_, ?_, ?_⟩ <;> apply BitVec.eq_of_toNat_eq <;> omega

theorem word_lt (p : Pass) : p.word < 2 ^ 32 := by
  have := p.pass0.isLt
  have := p.pass1.isLt
  have := p.pass2.isLt
  have := p.pass3.isLt
  unfold word
  omega

theorem word_rotateRight (p : Pass) : p.rotateRight.word = p.word / 2 + p.word % 2 * 2 ^ 31 := by
  have := p.pass0.isLt
  have := p.pass1.isLt
  have := p.pass2.isLt
  have := p.pass3.isLt
  unfold word rotateRight
  simp only [toNat_shiftDown]
  omega

/-- After `j` rotations the lowest `j` bits are the highest ones. -/
theorem word_iterate_rotateRight (p : Pass) {j k : ℕ} (h : j + k = 32) :
    (rotateRight^[j] p).word = p.word / 2 ^ j + p.word % 2 ^ j * 2 ^ k := by
  induction j generalizing k with
  | zero => simp [Nat.mod_one]
  | succ j ih =>
    rw [Function.iterate_succ_apply', word_rotateRight, ih (by omega : j + (k + 1) = 32)]
    -- the bit that moves is bit `j`
    have hmod : p.word % 2 ^ (j + 1) = p.word % 2 ^ j + p.word / 2 ^ j % 2 * 2 ^ j := by
      rw [Nat.pow_succ, Nat.mod_mul, Nat.mul_comm]
    have hdiv : p.word / 2 ^ (j + 1) = p.word / 2 ^ j / 2 := by
      rw [Nat.pow_succ, Nat.div_div_eq_div_mul]
    have htop : 2 ^ j * 2 ^ k = 2 ^ 31 := by
      rw [← Nat.pow_add]
      congr 1
      omega
    rw [hmod, hdiv, Nat.add_mul, Nat.mul_assoc (p.word / 2 ^ j % 2), htop, Nat.pow_succ,
      ← Nat.mul_assoc]
    omega

theorem iterate_rotateRight (p : Pass) : rotateRight^[32] p = p := by
  apply word_injective
  have hlt := p.word_lt
  rw [p.word_iterate_rotateRight (by rfl : 32 + 0 = 32)]
  omega

theorem iterate_rotateLeft (p : Pass) : rotateLeft^[32] p = p := by
  have hinv : Function.LeftInverse rotateLeft^[32] rotateRight^[32] :=
    Function.LeftInverse.iterate rotateLeft_rotateRight 32
  have := hinv p
  rwa [iterate_rotateRight] at this

end Pass

section Rounds

variable {size off : ℕ} {f g : Pass → (ℕ → Byte) → Option (ℕ → Byte)}

private theorem undoes_mix3 (size off i : ℕ) {f g h f' g' h' : Byte → Byte → Byte}
    (hf : ∀ x y, f' x (f x y) = y) (hg : ∀ x y, g' x (g x y) = y) (hh : ∀ x y, h' x (h x y) = y) :
    Undoes (mix3 size off i f g h) (mix3 size off i h' g' f') := by
  have hne : off + i % 8 ≠ off + (i + 1) % 8 := by omega
  have hall := (undoes_mixWithin size hne hf).bind
    ((undoes_mixWithin size hne hg).bind (undoes_mixWithin size hne hh))
  intro s t hst
  exact (Option.bind_assoc _ _ _).symm.trans (hall s t hst)

private theorem xor_xor_self (a b : Byte) : a ^^^ (a ^^^ b) = b := by
  rw [← BitVec.xor_assoc, BitVec.xor_self, BitVec.zero_xor]

private theorem add_sub_self (a b : Byte) : a + (b - a) = b := by
  rw [BitVec.add_comm, BitVec.sub_add_cancel]

private theorem sub_self_add (a b : Byte) : a + b - a = b := by
  rw [BitVec.add_comm, BitVec.add_sub_cancel]

/-- The mixing of one network is that of the other one backwards. -/
theorem decryptMix8_undoes (b : ℕ) (p : Pass) :
    Undoes (encryptMix8 size off b p) (decryptMix8 size off b p) :=
  undoes_mix3 size off b (fun _ _ => add_sub_self _ _) (fun _ _ => xor_xor_self _ _)
    fun _ _ => add_sub_self _ _

theorem encryptMix8_undoes (b : ℕ) (p : Pass) :
    Undoes (decryptMix8 size off b p) (encryptMix8 size off b p) :=
  undoes_mix3 size off b (fun _ _ => sub_self_add _ _) (fun _ _ => xor_xor_self _ _)
    fun _ _ => sub_self_add _ _

theorem decryptMixA_undoes (counter : ℕ) (p : Pass) :
    Undoes (encryptMixA size counter p) (decryptMixA size counter p) :=
  undoes_mix3 size 0 counter (fun _ _ => sub_self_add _ _) (fun _ _ => xor_xor_self _ _)
    fun _ _ => sub_self_add _ _

theorem decryptRound_undoes (h : ∀ p, Undoes (f p) (g p)) : Undoes (encryptRound f) (decryptRound g) := by
  rintro ⟨buf, p⟩ t hst
  obtain ⟨buf', hbuf, rfl⟩ := Option.map_eq_some_iff.mp hst
  change (g p.rotateRight buf').map (fun buf => (buf, p.rotateRight.rotateLeft)) = some (buf, p)
  rw [h _ _ _ hbuf, p.rotateLeft_rotateRight]
  rfl

theorem encryptRound_undoes (h : ∀ p, Undoes (f p) (g p)) : Undoes (decryptRound f) (encryptRound g) := by
  rintro ⟨buf, p⟩ t hst
  obtain ⟨buf', hbuf, rfl⟩ := Option.map_eq_some_iff.mp hst
  change (g p.rotateLeft.rotateRight buf').map (fun buf => (buf, p.rotateLeft.rotateRight)) = some (buf, p)
  rw [p.rotateRight_rotateLeft, h _ _ _ hbuf]
  rfl

theorem gboxDecrypt8_undoes : Undoes (gboxEncrypt8 size off) (gboxDecrypt8 size off) :=
  Undoes.foldlM fun _ _ => by
    have := @Undoes.foldlM _ _ _ _ (List.range 8).reverse
      fun b _ => decryptRound_undoes (@decryptMix8_undoes size off b)
    rwa [List.reverse_reverse] at this

theorem gboxEncrypt8_undoes : Undoes (gboxDecrypt8 size off) (gboxEncrypt8 size off) := by
  have := @Undoes.foldlM _ _ _ _ (List.range 4).reverse fun _ _ =>
    @Undoes.foldlM _ _ _ _ (List.range 8) fun b _ => encryptRound_undoes (@encryptMix8_undoes size off b)
  rwa [List.reverse_reverse] at this

theorem gboxDecryptA_undoes : Undoes (gboxEncryptA size) (gboxDecryptA size) := by
  have := @Undoes.foldlM _ _ _ _ (List.range 32).reverse
    fun counter _ => decryptRound_undoes (@decryptMixA_undoes size counter)
  rwa [List.reverse_reverse] at this

theorem xorStep_undoes (counter : ℕ) :
    Undoes (fun buf => xorStep size buf counter) fun buf => xorStep size buf counter :=
  undoes_mixWithin size (Nat.succ_ne_self counter) fun _ _ => xor_xor_self _ _

end Rounds

section Password

variable {size off : ℕ} {s t : State}

theorem encryptRound_pass {f : Pass → (ℕ → Byte) → Option (ℕ → Byte)} (h : encryptRound f s = some t) :
    t.2 = s.2.rotateRight := by
  obtain ⟨buf, -, rfl⟩ := Option.map_eq_some_iff.mp h
  rfl

theorem decryptRound_pass {f : Pass → (ℕ → Byte) → Option (ℕ → Byte)} (h : decryptRound f s = some t) :
    t.2 = s.2.rotateLeft := by
  obtain ⟨buf, -, rfl⟩ := Option.map_eq_some_iff.mp h
  rfl

/-- Each network turns the password around once. -/
theorem gboxEncryptA_pass (h : gboxEncryptA size s = some t) : t.2 = s.2 := by
  rw [foldlM_part (fun _ _ _ => encryptRound_pass) h, List.length_reverse, List.length_range,
    Pass.iterate_rotateRight]

theorem gboxEncrypt8_pass (h : gboxEncrypt8 size off s = some t) : t.2 = s.2 := by
  rw [foldlM_part (fun _ _ _ hinner => foldlM_part (fun _ _ _ => encryptRound_pass) hinner) h,
    ← Function.iterate_mul]
  exact s.2.iterate_rotateRight

theorem gboxDecrypt8_pass (h : gboxDecrypt8 size off s = some t) : t.2 = s.2 := by
  rw [foldlM_part (fun _ _ _ hinner => foldlM_part (fun _ _ _ => decryptRound_pass) hinner) h,
    ← Function.iterate_mul]
  exact s.2.iterate_rotateLeft

end Password

section Within

variable {size off : ℕ}

private theorem isSome_mix3 (hfit : off + 8 ≤ size) (i : ℕ) (f g h : Byte → Byte → Byte)
    (buf : ℕ → Byte) : (mix3 size off i f g h buf).isSome := by
  have hsrc : off + i % 8 < size := by omega
  have hdst : off + (i + 1) % 8 < size := by omega
  rw [mix3, Memory.mixWithin_of_lt hsrc hdst, Option.bind_some, Memory.mixWithin_of_lt hsrc hdst,
    Option.bind_some, Memory.mixWithin_of_lt hsrc hdst]
  rfl

private theorem isSome_encryptRound {f : Pass → (ℕ → Byte) → Option (ℕ → Byte)}
    (h : ∀ p buf, (f p buf).isSome) (s : State) : (encryptRound f s).isSome := by
  rw [encryptRound, Option.isSome_map]
  exact h _ _

private theorem isSome_decryptRound {f : Pass → (ℕ → Byte) → Option (ℕ → Byte)}
    (h : ∀ p buf, (f p buf).isSome) (s : State) : (decryptRound f s).isSome := by
  rw [decryptRound, Option.isSome_map]
  exact h _ _

theorem isSome_gboxEncrypt8 (hfit : off + 8 ≤ size) (s : State) : (gboxEncrypt8 size off s).isSome :=
  isSome_foldlM (fun s _ _ => isSome_foldlM (fun s b _ =>
    isSome_encryptRound (fun _ _ => isSome_mix3 hfit b _ _ _ _) s) s) s

theorem isSome_gboxDecrypt8 (hfit : off + 8 ≤ size) (s : State) : (gboxDecrypt8 size off s).isSome :=
  isSome_foldlM (fun s _ _ => isSome_foldlM (fun s b _ =>
    isSome_decryptRound (fun _ _ => isSome_mix3 hfit b _ _ _ _) s) s) s

theorem isSome_gboxEncryptA (hfit : 8 ≤ size) (s : State) : (gboxEncryptA size s).isSome :=
  isSome_foldlM (fun s c _ => isSome_encryptRound (fun _ _ => isSome_mix3 (by omega) c _ _ _ _) s) s

theorem isSome_gboxDecryptA (hfit : 8 ≤ size) (s : State) : (gboxDecryptA size s).isSome :=
  isSome_foldlM (fun s c _ => isSome_decryptRound (fun _ _ => isSome_mix3 (by omega) c _ _ _ _) s) s

theorem isSome_xorChain {l : List ℕ} (hfit : ∀ c ∈ l, c + 1 < size) (buf : ℕ → Byte) :
    (l.foldlM (xorStep size) buf).isSome := by
  refine isSome_foldlM (fun buf c hc => ?_) buf
  have hlt := hfit c hc
  rw [xorStep, Memory.mixWithin_of_lt hlt (by omega)]
  rfl

end Within

section Cipher

variable {n : ℕ}

/-- The parts of an encryption, which the parts of the decryption take back one after the other. -/
theorem gboxDecrypt_gboxEncrypt (pw : BitVec 32) (h : 10 ≤ n) (buffer : ℕ → Byte) :
    (∃ buffer', gboxEncrypt n buffer n pw = some buffer' ∧ gboxDecrypt n buffer' n pw = some buffer) ∧
      (gboxDecrypt n buffer n pw).isSome := by
  have hwindow : window n = some (n - 9) := if_pos (by omega)
  have hfit : n - 9 + 8 ≤ n := by omega
  have hchain : ∀ c ∈ List.range (n - 1), c + 1 < n := by
    intro c hc
    have := List.mem_range.mp hc
    omega
  constructor
  · obtain ⟨⟨b1, p1⟩, h1⟩ := Option.isSome_iff_exists.mp
      (isSome_gboxEncryptA (by omega : 8 ≤ n) (buffer, gboxConvertPw pw))
    obtain ⟨b2, h2⟩ := Option.isSome_iff_exists.mp (isSome_xorChain hchain b1)
    obtain ⟨⟨b3, p3⟩, h3⟩ := Option.isSome_iff_exists.mp
      (isSome_gboxEncrypt8 (by omega : 0 + 8 ≤ n) (b2, p1))
    obtain ⟨⟨b4, p4⟩, h4⟩ := Option.isSome_iff_exists.mp (isSome_gboxDecrypt8 hfit (b3, p3))
    obtain rfl : p1 = gboxConvertPw pw := gboxEncryptA_pass h1
    obtain rfl : p3 = gboxConvertPw pw := gboxEncrypt8_pass h3
    obtain rfl : p4 = gboxConvertPw pw := gboxDecrypt8_pass h4
    have hback : (List.range (n - 1)).reverse.foldlM (xorStep n) b2 = some b1 :=
      Undoes.foldlM (fun c _ => @xorStep_undoes n c) b1 b2 h2
    refine ⟨b4, ?_, ?_⟩
    · simp only [gboxEncrypt, gboxEncryptB, h1, h2, h3, hwindow, h4, Option.bind_eq_bind,
        Option.bind_some, Option.pure_def]
    · simp only [gboxDecrypt, gboxDecryptB, hwindow, gboxEncrypt8_undoes _ _ h4,
        gboxDecrypt8_undoes _ _ h3, Option.bind_eq_bind, Option.bind_some, Option.pure_def]
      rw [hback, Option.bind_some, Option.bind_some, gboxDecryptA_undoes _ _ h1, Option.bind_some]
  · obtain ⟨⟨b1, p1⟩, h1⟩ := Option.isSome_iff_exists.mp
      (isSome_gboxEncrypt8 hfit (buffer, gboxConvertPw pw))
    obtain ⟨⟨b2, p2⟩, h2⟩ := Option.isSome_iff_exists.mp
      (isSome_gboxDecrypt8 (by omega : 0 + 8 ≤ n) (b1, p1))
    obtain ⟨b3, h3⟩ := Option.isSome_iff_exists.mp
      (isSome_xorChain (fun c hc => hchain c (List.mem_reverse.mp hc)) b2)
    obtain ⟨s, h4⟩ := Option.isSome_iff_exists.mp (isSome_gboxDecryptA (by omega : 8 ≤ n) (b3, p2))
    simp only [gboxDecrypt, gboxDecryptB, hwindow, h1, h2, h3, h4, Option.bind_eq_bind,
      Option.bind_some, Option.pure_def, Option.isSome_some]

/-- The shortest message. -/
theorem gboxDecrypt_gboxEncrypt_ten :
    (∃ buffer', gboxEncrypt 10 (BitVec.ofNat 8) 10 0x12345678 = some buffer' ∧
        gboxDecrypt 10 buffer' 10 0x12345678 = some (BitVec.ofNat 8)) ∧
      (gboxDecrypt 10 (BitVec.ofNat 8) 10 0x12345678).isSome :=
  gboxDecrypt_gboxEncrypt 0x12345678 (by decide) (BitVec.ofNat 8)

end Cipher

end NCam.Gbox
