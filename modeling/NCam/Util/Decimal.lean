import NCam.Util.Tokens

/-! Decimal numbers: what `%d` prints and `atoi` reads back. -/
namespace NCam.Util

/-- `%d`. -/
def printfDec (z : ℤ) : List Char :=
  if z < 0 then '-' :: Nat.toDigits 10 z.natAbs else Nat.toDigits 10 z.natAbs

/-- The digits of `%d` for a number that is not negative. -/
def decWidth (n : ℕ) : ℕ := (Nat.toDigits 10 n).length

/-- The characters of `%d`. -/
def intWidth (z : ℤ) : ℕ := (if z < 0 then 1 else 0) + decWidth z.natAbs

section Decimal

variable {z : ℤ} {n : ℕ} {c : Char} {rest : List Char}

theorem isDigit_toDigits (hc : c ∈ Nat.toDigits 10 n) : c.isDigit = true :=
  Nat.isDigit_of_mem_toDigits (by omega) (by omega) hc

/-- A decimal number ends at the first character that is no digit. -/
theorem digitsVal_toDigits (hrest : ∀ c ∈ rest.head?, c.isDigit = false) :
    digitsVal (Nat.toDigits 10 n ++ rest) = n := by
  have htake : (Nat.toDigits 10 n ++ rest).takeWhile Char.isDigit = Nat.toDigits 10 n := by
    rw [List.takeWhile_append_of_pos fun c hc => isDigit_toDigits hc]
    cases rest with
    | nil => exact List.append_nil _
    | cons c rest =>
      rw [List.takeWhile_cons_of_neg, List.append_nil]
      rw [hrest c rfl]
      exact Bool.false_ne_true
  have hval := @Nat.ofDigitChars_ten_toDigits n
  rw [Nat.ofDigitChars_eq_foldl] at hval
  unfold digitsVal
  rw [htake]
  exact hval

private theorem isDigit_ne {d : Char} (hc : c.isDigit = true) (hd : d.isDigit = false) : c ≠ d := by
  rintro rfl
  rw [hc] at hd
  cases hd

/-- The number before the first character that is no digit. -/
theorem atoi_append (hrest : ∀ c ∈ rest.head?, c.isDigit = false) : atoi (printfDec z ++ rest) = z := by
  obtain ⟨c, digits, hdigits⟩ := List.exists_cons_of_ne_nil (@Nat.toDigits_ne_nil z.natAbs 10)
  have hval := @digitsVal_toDigits z.natAbs rest hrest
  have hc : c.isDigit = true := isDigit_toDigits (by rw [hdigits]; exact List.mem_cons_self)
  unfold atoi printfDec
  by_cases hneg : z < 0
  · rw [if_pos hneg, List.cons_append, List.dropWhile_cons_of_neg (by decide)]
    change -(digitsVal (Nat.toDigits 10 z.natAbs ++ rest) : ℤ) = z
    rw [hval]
    omega
  · have hstop : ¬ (isBlank c || c = '\x0b' || c = '\x0c') = true := by
      have hblank : isBlank c = false := by
        unfold isBlank
        simp [isDigit_ne hc (d := ' ') rfl, isDigit_ne hc (d := '\t') rfl, isDigit_ne hc (d := '\n') rfl,
          isDigit_ne hc (d := '\r') rfl]
      simp [hblank, isDigit_ne hc (d := '\x0b') rfl, isDigit_ne hc (d := '\x0c') rfl]
    rw [if_neg hneg, hdigits, List.cons_append, List.dropWhile_cons_of_neg (by exact hstop)]
    have hminus : c ≠ '-' := isDigit_ne hc rfl
    have hplus : c ≠ '+' := isDigit_ne hc rfl
    rw [hdigits, List.cons_append] at hval
    split
    · next heq => exact absurd (List.cons.inj heq).1 hminus
    · next heq => exact absurd (List.cons.inj heq).1 hplus
    · rw [hval]
      omega

/-- What `%d` prints is read back. -/
theorem atoi_printfDec : atoi (printfDec z) = z := by
  have h := @atoi_append z [] fun c hc => absurd hc (by simp)
  rw [List.append_nil] at h
  exact h

theorem length_printfDec : (printfDec z).length = intWidth z := by
  unfold printfDec intWidth decWidth
  split_ifs
  · rw [List.length_cons, Nat.add_comm]
  · rw [Nat.zero_add]

/-- The numbers of up to 64 bits. -/
theorem intWidth_toInt_le {w : ℕ} (v : BitVec w) (hw : w ≤ 64) : intWidth v.toInt ≤ 20 := by
  have hlt := v.toInt_lt
  have hle := v.le_toInt
  have hpow : (2 : ℤ) ^ (w - 1) ≤ 2 ^ 63 := by exact_mod_cast Nat.pow_le_pow_right (by omega) (by omega)
  unfold intWidth decWidth
  have hdigits : (Nat.toDigits 10 v.toInt.natAbs).length ≤ 19 := by
    rw [Nat.length_toDigits_le_iff (by omega) (by omega)]
    omega
  split_ifs <;> omega

theorem printfDec_ne_nil : printfDec z ≠ [] := by
  unfold printfDec
  split_ifs
  · exact List.cons_ne_nil _ _
  · exact Nat.toDigits_ne_nil

/-- A printed number has digits and at most a sign. -/
theorem notMem_printfDec (hc : c.isDigit = false) (hminus : c ≠ '-') : c ∉ printfDec z := by
  have hdigits : c ∉ Nat.toDigits 10 z.natAbs := by
    intro hmem
    rw [isDigit_toDigits hmem] at hc
    cases hc
  unfold printfDec
  split_ifs
  · rw [List.mem_cons, not_or]
    exact ⟨hminus, hdigits⟩
  · exact hdigits

theorem isBlank_printfDec : ∀ c ∈ printfDec z, isBlank c = false := by
  intro c hmem
  by_contra hblank
  rw [Bool.not_eq_false] at hblank
  unfold isBlank at hblank
  simp only [Bool.or_eq_true, decide_eq_true_eq] at hblank
  rcases hblank with ((rfl | rfl) | rfl) | rfl <;> exact notMem_printfDec rfl (by decide) hmem

end Decimal

end NCam.Util
