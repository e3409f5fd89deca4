import Mathlib.Data.List.Basic

/-! Stream ciphers whose state is fed with the plaintext, and a sender and a receiver that keep their
states in step over a sequence of packets. -/
namespace NCam.Lib

structure StreamCipher (σ β : Type*) where
  enc : σ → β → β
  dec : σ → β → β
  /-- The next state, by the symbol in plaintext. -/
  feed : σ → β → σ
  dec_enc : ∀ s x, dec s (enc s x) = x

/-- What is sent as a whole, and what both sides do with their state afterwards. -/
structure Packet (σ β : Type*) where
  symbols : List β
  after : σ → σ

namespace StreamCipher

variable {σ β : Type*} (c : StreamCipher σ β)

def encrypt : σ → List β → List β
  | _, [] => []
  | s, x :: xs => c.enc s x :: encrypt (c.feed s x) xs

def decrypt : σ → List β → List β
  | _, [] => []
  | s, y :: ys => c.dec s y :: decrypt (c.feed s (c.dec s y)) ys

def run (s : σ) (xs : List β) : σ := xs.foldl c.feed s

theorem run_append (s : σ) (xs ys : List β) : c.run s (xs ++ ys) = c.run (c.run s xs) ys :=
  List.foldl_append

@[simp] theorem length_encrypt (s : σ) (xs : List β) : (c.encrypt s xs).length = xs.length := by
  induction xs generalizing s with
  | nil => rfl
  | cons x xs ih => simp [encrypt, ih]

@[simp] theorem length_decrypt (s : σ) (ys : List β) : (c.decrypt s ys).length = ys.length := by
  induction ys generalizing s with
  | nil => rfl
  | cons y ys ih => simp [decrypt, ih]

theorem decrypt_encrypt (s : σ) (xs : List β) : c.decrypt s (c.encrypt s xs) = xs := by
  induction xs generalizing s with
  | nil => rfl
  | cons x xs ih =>
    unfold encrypt decrypt
    rw [c.dec_enc, ih]

theorem encrypt_decrypt (h : ∀ s y, c.enc s (c.dec s y) = y) (s : σ) (ys : List β) :
    c.encrypt s (c.decrypt s ys) = ys := by
  induction ys generalizing s with
  | nil => rfl
  | cons y ys ih =>
    unfold decrypt encrypt
    rw [h, ih]

theorem encrypt_append (s : σ) (xs ys : List β) :
    c.encrypt s (xs ++ ys) = c.encrypt s xs ++ c.encrypt (c.run s xs) ys := by
  induction xs generalizing s with
  | nil => rfl
  | cons x xs ih =>
    change c.enc s x :: c.encrypt (c.feed s x) (xs ++ ys) = _
    rw [ih]
    rfl

/-- The symbols on the wire for the packets, sent from state `s` on. -/
def wire : σ → List (Packet σ β) → List β
  | _, [] => []
  | s, p :: ps => c.encrypt s p.symbols ++ wire (p.after (c.run s p.symbols)) ps

/-- The state after the packets. -/
def sent (s : σ) (ps : List (Packet σ β)) : σ := ps.foldl (fun s p => p.after (c.run s p.symbols)) s

theorem wire_append (s : σ) (ps qs : List (Packet σ β)) :
    c.wire s (ps ++ qs) = c.wire s ps ++ c.wire (c.sent s ps) qs := by
  induction ps generalizing s with
  | nil => rfl
  | cons p ps ih =>
    change c.encrypt s p.symbols ++ c.wire (p.after (c.run s p.symbols)) (ps ++ qs) = _
    rw [ih, ← List.append_assoc]
    rfl

/-- The sender in state `sender` is ahead of the receiver in state `receiver` by the packets `ps`, which
are the symbols `w` on the wire. -/
structure Ahead (sender receiver : σ) (w : List β) (ps : List (Packet σ β)) : Prop where
  wire : w = c.wire receiver ps
  state : sender = c.sent receiver ps

variable {c} {sender receiver : σ} {w : List β} {ps : List (Packet σ β)}

theorem Ahead.refl (s : σ) : c.Ahead s s [] [] := ⟨rfl, rfl⟩

theorem Ahead.send (h : c.Ahead sender receiver w ps) (p : Packet σ β) :
    c.Ahead (p.after (c.run sender p.symbols)) receiver (w ++ c.encrypt sender p.symbols) (ps ++ [p]) := by
  constructor
  · rw [wire_append, ← h.wire, ← h.state]
    unfold StreamCipher.wire StreamCipher.wire
    rw [List.append_nil]
  · unfold sent
    rw [List.foldl_append, h.state]
    rfl

variable {p : Packet σ β}

/-- The wire starts with the packet sent first. -/
theorem Ahead.split (h : c.Ahead sender receiver w (p :: ps)) : ∃ rest,
    w = c.encrypt receiver p.symbols ++ rest ∧
      c.Ahead sender (p.after (c.run receiver p.symbols)) rest ps :=
  ⟨_, h.wire, rfl, h.state⟩

end StreamCipher

end NCam.Lib
