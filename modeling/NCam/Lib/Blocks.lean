import Mathlib.Algebra.Order.Ring.Nat

/-! Block ciphers on a memory of cells in which blocks of `k` cells are read and written: chained, and block by
block. Feistel networks over any pair of halves with an involutive mixing operation. -/
namespace NCam.Lib.Cbc

variable {β : Type*} {k : ℕ}

/-- The block at `i`. -/
def load (buf : ℕ → β) (i : ℕ) : Vector β k := .ofFn fun j => buf (i + j)

def store (buf : ℕ → β) (i : ℕ) (b : Vector β k) : ℕ → β :=
  fun m => if h : i ≤ m ∧ m < i + k then b[m - i] else buf m

variable (xor : Vector β k → Vector β k → Vector β k)

/-- Encrypts `n` blocks from `i` on. -/
def encrypt (E : Vector β k → Vector β k) : ℕ → ℕ → Vector β k → (ℕ → β) → ℕ → β
  | 0, _, _, buf => buf
  | n + 1, i, iv, buf =>
    let c := E (xor (load buf i) iv)
    encrypt E n (i + k) c (store buf i c)

/-- Decrypts `n` blocks from `i` on. -/
def decrypt (D : Vector β k → Vector β k) : ℕ → ℕ → Vector β k → (ℕ → β) → ℕ → β
  | 0, _, _, buf => buf
  | n + 1, i, iv, buf =>
    let c := load buf i
    decrypt D n (i + k) c (store buf i (xor (D c) iv))

section Memory

variable {buf : ℕ → β} {i j : ℕ} {a b : Vector β k}

@[simp] theorem load_store : load (store buf i b) i = b := by
  ext j hj
  simp [load, store]

@[simp] theorem store_load : store buf i (load buf i : Vector β k) = buf := by
  funext m
  by_cases h : i ≤ m ∧ m < i + k
  · simp [store, load, h]
  · simp [store, h]

@[simp] theorem store_store : store (store buf i a) i b = store buf i b := by
  funext m
  by_cases h : i ≤ m ∧ m < i + k <;> simp [store, h]

theorem load_store_of_le (h : i + k ≤ j) : load (store buf i b) j = (load buf j : Vector β k) := by
  ext m hm
  have hout : ¬ (i ≤ j + m ∧ j + m < i + k) := by omega
  simp [load, store, hout]

theorem store_comm (h : i + k ≤ j) : store (store buf i a) j b = store (store buf j b) i a := by
  funext m
  by_cases hi : i ≤ m ∧ m < i + k
  · have hj : ¬ (j ≤ m ∧ m < j + k) := by omega
    simp [store, hi, hj]
  · simp [store, hi]

theorem store_of_not {m : ℕ} (h : m < i ∨ i + k ≤ m) : store buf i b m = buf m := by
  have hout : ¬ (i ≤ m ∧ m < i + k) := by omega
  simp [store, hout]

end Memory

variable {xor} {E D : Vector β k → Vector β k}

/-- Encryption leaves what is before and behind its blocks. -/
theorem encrypt_of_not {n i m : ℕ} (iv : Vector β k) (buf : ℕ → β) (h : m < i ∨ i + n * k ≤ m) :
    encrypt xor E n i iv buf m = buf m := by
  induction n generalizing i iv buf with
  | zero => rfl
  | succ n ih =>
    rw [Nat.succ_mul] at h
    rw [encrypt, ih _ _ (by omega)]
    apply store_of_not
    have := Nat.zero_le (n * k)
    omega

theorem load_encrypt_of_le {n i j : ℕ} (iv : Vector β k) (buf : ℕ → β) (h : i + n * k ≤ j) :
    load (encrypt xor E n i iv buf) j = (load buf j : Vector β k) := by
  ext m hm
  simp only [load, Vector.getElem_ofFn]
  apply encrypt_of_not
  omega

theorem encrypt_store {n i j : ℕ} (iv : Vector β k) (buf : ℕ → β) (b : Vector β k) (h : i + k ≤ j) :
    encrypt xor E n j iv (store buf i b) = store (encrypt xor E n j iv buf) i b := by
  induction n generalizing j iv buf with
  | zero => rfl
  | succ n ih =>
    simp only [encrypt]
    rw [load_store_of_le h, store_comm h, ih _ _ (by omega)]

/-- On cells that hold its blocks, decryption depends only on these cells. -/
theorem decrypt_congr {S : ℕ → Prop} {n i : ℕ} (hS : ∀ m, i ≤ m → m < i + n * k → S m)
    (iv : Vector β k) {a b : ℕ → β} (h : ∀ m, S m → a m = b m) :
    ∀ m, S m → decrypt xor D n i iv a m = decrypt xor D n i iv b m := by
  induction n generalizing i iv a b with
  | zero => exact h
  | succ n ih =>
    rw [Nat.succ_mul] at hS
    have hload : (load a i : Vector β k) = load b i := by
      ext j hj
      simp only [load, Vector.getElem_ofFn]
      exact h _ (hS _ (by omega) (by omega))
    simp only [decrypt, hload]
    apply ih
    · intro m hlo hhi
      exact hS m (by omega) (by omega)
    · intro m hm
      unfold store
      by_cases hin : i ≤ m ∧ m < i + k
      · rw [dif_pos hin, dif_pos hin]
      · rw [dif_neg hin, dif_neg hin, h m hm]

/-- Decryption undoes encryption if the block cipher's does. -/
theorem decrypt_encrypt (hxor : ∀ a b, xor (xor a b) b = a) (hD : ∀ b, D (E b) = b) (n i : ℕ)
    (iv : Vector β k) (buf : ℕ → β) : decrypt xor D n i iv (encrypt xor E n i iv buf) = buf := by
  induction n generalizing i iv buf with
  | zero => rfl
  | succ n ih =>
    simp only [encrypt, decrypt]
    set c := E (xor (load buf i) iv) with hc
    have hload : load (encrypt xor E n (i + k) c (store buf i c)) i = c := by
      rw [encrypt_store _ _ _ (le_refl _), load_store]
    have hplain : xor (D c) iv = load buf i := by rw [hc, hD, hxor]
    rw [hload, hplain, ← encrypt_store _ _ _ (le_refl _), store_store, store_load]
    exact ih _ _ _

end NCam.Lib.Cbc

namespace NCam.Lib.Ecb

open NCam.Lib.Cbc (load store load_store load_store_of_le store_of_not)

variable {β : Type*} {k : ℕ}

/-- Applies `f` to `n` blocks from `i` on. -/
def apply (f : Vector β k → Vector β k) : ℕ → ℕ → (ℕ → β) → ℕ → β
  | 0, _, buf => buf
  | n + 1, i, buf => apply f n (i + k) (store buf i (f (load buf i)))

variable {f g : Vector β k → Vector β k} {n i j m : ℕ} {buf : ℕ → β}

theorem apply_of_not (h : m < i ∨ i + n * k ≤ m) : apply f n i buf m = buf m := by
  induction n generalizing i buf with
  | zero => rfl
  | succ n ih =>
    rw [Nat.succ_mul] at h
    rw [apply, ih (by omega)]
    apply store_of_not
    have := Nat.zero_le (n * k)
    omega

theorem load_congr {buf' : ℕ → β} (h : ∀ m < k, buf (i + m) = buf' (j + m)) :
    (load buf i : Vector β k) = load buf' j := by
  ext m hm
  simpa [load] using h m hm

/-- Each block is the image of what stood there. -/
theorem load_apply (hj : j < n) : load (apply f n i buf) (i + j * k) = f (load buf (i + j * k)) := by
  induction n generalizing i j buf with
  | zero => cases hj
  | succ n ih =>
    rw [apply]
    cases j with
    | zero =>
      rw [Nat.zero_mul, Nat.add_zero]
      have hfirst : (load (apply f n (i + k) (store buf i (f (load buf i)))) i : Vector β k) =
          load (store buf i (f (load buf i))) i := by
        apply load_congr
        intro m hm
        exact apply_of_not (by omega)
      rw [hfirst, load_store]
    | succ j =>
      have hshift : i + (j + 1) * k = i + k + j * k := by rw [Nat.succ_mul]; omega
      rw [hshift, ih (Nat.lt_of_succ_lt_succ hj), load_store_of_le (by omega)]

/-- Of what was encrypted, the blocks from the `j`-th on are decrypted by themselves, as many as are there. -/
theorem apply_apply (hgf : ∀ b, g (f b) = b) {N o a : ℕ} {plain : ℕ → β} (hk : 0 < k) (ha : a ≤ n)
    (hN : j + a ≤ N) (h : ∀ m < a * k, buf (i + m) = apply f N o plain (o + j * k + m))
    (hm : m < a * k) : apply g n i buf (i + m) = plain (o + j * k + m) := by
  have hb : m / k < a := Nat.div_lt_of_lt_mul (by rwa [Nat.mul_comm] at hm)
  have hr : m % k < k := Nat.mod_lt m hk
  have hmk : m / k * k + m % k = m := Nat.div_add_mod' m k
  have hbk : (m / k + 1) * k ≤ a * k := Nat.mul_le_mul_right k hb
  rw [Nat.succ_mul] at hbk
  have hadd : (j + m / k) * k = j * k + m / k * k := Nat.add_mul j (m / k) k
  have hblock : (load (apply g n i buf) (i + m / k * k) : Vector β k) =
      load plain (o + (j + m / k) * k) := by
    have hsame : (load buf (i + m / k * k) : Vector β k) =
        load (apply f N o plain) (o + (j + m / k) * k) := by
      apply load_congr
      intro r hr
      rw [Nat.add_assoc, h (m / k * k + r) (by omega), hadd]
      congr 1
      omega
    rw [load_apply (by omega), hsame, load_apply (by omega), hgf]
  have hcell := congrArg (fun b : Vector β k => b[m % k]) hblock
  simp only [load, Vector.getElem_ofFn] at hcell
  rw [Nat.add_assoc, hmk] at hcell
  rw [hcell, hadd]
  congr 1
  omega

end NCam.Lib.Ecb

namespace NCam.Lib.Feistel

variable {α : Type*} (xor : α → α → α)

/-- One round: mixes a function of the second half into the first and exchanges them. -/
def round (f : α → α) (b : α × α) : α × α := (b.2, xor b.1 (f b.2))

def rounds (fs : List (α → α)) (b : α × α) : α × α := fs.foldl (fun b f => round xor f b) b

variable {xor}

theorem round_swap_round (hxor : ∀ a b, xor (xor a b) b = a) (f : α → α) (b : α × α) :
    round xor f (round xor f b).swap = b.swap := by
  change (b.2, xor (xor b.1 (f b.2)) (f b.2)) = (b.2, b.1)
  rw [hxor]

/-- The rounds in the reverse order undo the rounds, up to the exchange of the halves. -/
theorem rounds_reverse (hxor : ∀ a b, xor (xor a b) b = a) (fs : List (α → α)) (b : α × α) :
    rounds xor fs.reverse (rounds xor fs b).swap = b.swap := by
  induction fs generalizing b with
  | nil => rfl
  | cons f fs ih =>
    have hrest : rounds xor fs.reverse (rounds xor fs (round xor f b)).swap = (round xor f b).swap :=
      ih _
    rw [List.reverse_cons, rounds, List.foldl_append]
    change round xor f (rounds xor fs.reverse (rounds xor fs (round xor f b)).swap) = b.swap
    rw [hrest, round_swap_round hxor]

end NCam.Lib.Feistel
