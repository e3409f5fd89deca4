import Mathlib.Data.List.Basic

/-! Results with the places that were read for them, in the order of reading. The places may be runs of cells of
several areas, which lie within the areas or not. -/
namespace NCam.Lib

structure Reads (π α : Type) where
  value : α
  places : List π

namespace Reads

variable {π α β : Type}

instance : Monad (Reads π) where
  pure a := ⟨a, []⟩
  bind m f := ⟨(f m.value).value, m.places ++ (f m.value).places⟩

/-- Reads the place `p`, where `a` stands. -/
def read (p : π) (a : α) : Reads π α := ⟨a, [p]⟩

/-- `&&`, which reads for its right side only if it needs it. -/
def and (m n : Reads π Bool) : Reads π Bool := do if ← m then n else return false

/-- `||`. -/
def or (m n : Reads π Bool) : Reads π Bool := do if ← m then return true else n

/-- All places read have the property. -/
def All (P : π → Prop) (m : Reads π α) : Prop := ∀ p ∈ m.places, P p

variable {P : π → Prop} {m n : Reads π α}

@[simp] theorem value_pure (a : α) : (pure a : Reads π α).value = a := rfl

@[simp] theorem value_bind (m : Reads π α) (f : α → Reads π β) :
    (m >>= f).value = (f m.value).value := rfl

@[simp] theorem value_read (p : π) (a : α) : (read p a).value = a := rfl

@[simp] theorem value_ite (c : Prop) [Decidable c] :
    (if c then m else n).value = if c then m.value else n.value := by
  split_ifs <;> rfl

@[simp] theorem value_and (m n : Reads π Bool) : (m.and n).value = (m.value && n.value) := by
  cases h : m.value <;> simp [Reads.and, h]

@[simp] theorem value_or (m n : Reads π Bool) : (m.or n).value = (m.value || n.value) := by
  cases h : m.value <;> simp [Reads.or, h]

@[simp] theorem all_pure (a : α) : All P (pure a) := by
  intro p hp
  exact absurd hp List.not_mem_nil

@[simp] theorem all_bind (m : Reads π α) (f : α → Reads π β) :
    All P (m >>= f) ↔ All P m ∧ All P (f m.value) := List.forall_mem_append

@[simp] theorem all_read (p : π) (a : α) : All P (read p a) ↔ P p := List.forall_mem_singleton

@[simp] theorem all_ite (c : Prop) [Decidable c] :
    All P (if c then m else n) ↔ (c → All P m) ∧ (¬c → All P n) := by
  split_ifs with h <;> simp [h]

@[simp] theorem all_and (m n : Reads π Bool) :
    All P (m.and n) ↔ All P m ∧ (m.value = true → All P n) := by
  cases h : m.value <;> simp [Reads.and, h]

@[simp] theorem all_or (m n : Reads π Bool) :
    All P (m.or n) ↔ All P m ∧ (m.value = false → All P n) := by
  cases h : m.value <;> simp [Reads.or, h]

end Reads

/-- `len` cells of an area from `start` on. -/
structure Span (α : Type) where
  area : α
  start : ℕ
  len : ℕ

def Span.Within {α : Type} (size : α → ℕ) (s : Span α) : Prop := s.start + s.len ≤ size s.area

namespace Reads

variable {α : Type} {size : α → ℕ}

/-- Reads or writes `len` cells from `start` on. -/
def touch (area : α) (start len : ℕ) : Reads (Span α) Unit := read ⟨area, start, len⟩ ()

@[simp] theorem value_touch (area : α) (start len : ℕ) : (touch area start len).value = () := rfl

@[simp] theorem all_touch (area : α) (start len : ℕ) :
    All (Span.Within size) (touch area start len) ↔ start + len ≤ size area := all_read _ _

end Reads

end NCam.Lib
