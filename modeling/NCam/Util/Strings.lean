import NCam.Lib.Memory
import Mathlib.Algebra.Order.Ring.Int

/-! String functions of `ncam-string.c` and of the C library, on the characters before the terminating zero; the
lines of a file as `fgets` returns them into a buffer; and texts that `snprintf` leaves in an array. -/
namespace NCam.Util

open NCam.Lib

/-- The tokens that `strtok_r` returns one after another. -/
def strtok (delim : Char) (s : List Char) : List (List Char) :=
  (s.splitBy fun a b => a ≠ delim && b ≠ delim).filter fun token => !token.contains delim

/-- `strchr`, with the found character overwritten by zero: the text before it and the text behind. -/
def cutAt (c : Char) (s : List Char) : List Char × Option (List Char) :=
  match s.dropWhile (· ≠ c) with
  | [] => (s, none)
  | _ :: rest => (s.takeWhile (· ≠ c), some rest)

def isBlank (c : Char) : Bool := c = ' ' || c = '\t' || c = '\n' || c = '\r'

/-- Blanks at the start are only removed if the first is a space. -/
def trim (txt : List Char) : List Char :=
  let txt := if txt.head? = some ' ' then txt.dropWhile isBlank else txt
  (txt.reverse.dropWhile isBlank).reverse

def gethexval (c : Char) : Option ℕ :=
  if '0' ≤ c ∧ c ≤ '9' then some (c.toNat - '0'.toNat)
  else if 'A' ≤ c ∧ c ≤ 'F' then some (c.toNat - 'A'.toNat + 10)
  else if 'a' ≤ c ∧ c ≤ 'f' then some (c.toNat - 'a'.toNat + 10)
  else none

def hexChars : List Char :=
  ['0', '1', '2', '3', '4', '5', '6', '7', '8', '9', 'A', 'B', 'C', 'D', 'E', 'F']

/-- The digit of `v` at place `k`. -/
def hexDigit (v : BitVec 32) (k : ℕ) : Char := hexChars.getD (v.toNat / 16 ^ k % 16) '0'

/-- `snprintf(s, w + 1, "%0wX", v)`: at least `w` digits, cut behind the first `w`. -/
def printHex (w : ℕ) (v : BitVec 32) : List Char :=
  let digits := ((List.range 8).reverse.map (hexDigit v)).dropWhile (· = '0')
  (List.replicate (w - digits.length) '0' ++ digits).take w

/-- The loop of `a2i` over `n` places, on the reversed digits. -/
def a2iLoop (fill : Bool) : ℕ → ℕ → List Char → BitVec 32 → BitVec 32
  | 0, _, _, rc => rc
  | n + 1, i, [], rc => a2iLoop fill n (i + 1) [] (if fill then rc ||| 0xf <<< (i <<< 2) else rc)
  | n + 1, i, c :: asc, rc =>
    match gethexval c with
    | none => 0x1f1f1f
    | some v => a2iLoop fill n (i + 1) asc (rc ||| BitVec.ofNat 32 v <<< (i <<< 2))

/-- Digits from place 8 on are shifted out. -/
def a2i (asc : List Char) (bytes : ℤ) : BitVec 32 :=
  a2iLoop (bytes < 0) (bytes.natAbs <<< 1) 0 (trim asc).reverse 0

def digitsVal (s : List Char) : ℕ :=
  (s.takeWhile Char.isDigit).foldl (fun n c => 10 * n + (c.toNat - '0'.toNat)) 0

def atoi (s : List Char) : ℤ :=
  match s.dropWhile fun c => isBlank c || c = '\x0b' || c = '\x0c' with
  | '-' :: rest => -digitsVal rest
  | '+' :: rest => digitsVal rest
  | rest => digitsVal rest

/-- What the calls of `fgets` return, with the characters of the current call so far. -/
def fgetsFrom (size : ℕ) : List Char → List Char → List (List Char)
  | [], [] => []
  | s, [] => [s]
  | s, c :: file =>
    if c = '\n' ∨ s.length + 1 = size - 1 then (s ++ [c]) :: fgetsFrom size [] file
    else fgetsFrom size (s ++ [c]) file

def fgetsLines (size : ℕ) (file : List Char) : List (List Char) := fgetsFrom size [] file

section Lines

variable {size : ℕ} {s line rest : List Char}

private theorem fgetsFrom_cons {c : Char} : fgetsFrom size s (c :: rest) =
    if c = '\n' ∨ s.length + 1 = size - 1 then (s ++ [c]) :: fgetsFrom size [] rest
    else fgetsFrom size (s ++ [c]) rest := by
  cases s <;> rfl

/-- A call ends with the line or with the buffer. -/
private theorem fgetsFrom_line (hline : '\n' ∉ line) (hs : s.length < size - 1) :
    fgetsFrom size s (line ++ '\n' :: rest) =
      if s.length + line.length < size - 1 then (s ++ (line ++ ['\n'])) :: fgetsFrom size [] rest
      else (s ++ line.take (size - 1 - s.length)) ::
        fgetsFrom size [] (line.drop (size - 1 - s.length) ++ '\n' :: rest) := by
  induction line generalizing s with
  | nil =>
    rw [List.nil_append, fgetsFrom_cons, if_pos (Or.inl rfl), List.length_nil, if_pos (by omega), List.nil_append]
  | cons c line ih =>
    have hc : c ≠ '\n' := fun h => hline (h ▸ List.mem_cons_self)
    have hrest : '\n' ∉ line := fun h => hline (List.mem_cons_of_mem c h)
    rw [List.cons_append, fgetsFrom_cons, List.length_cons]
    by_cases hfull : s.length + 1 = size - 1
    · have hone : size - 1 - s.length = 1 := by omega
      rw [if_pos (Or.inr hfull), if_neg (by omega), hone]
      rfl
    · have hlen : (s ++ [c]).length = s.length + 1 := by rw [List.length_append, List.length_singleton]
      have hsub : size - 1 - s.length = size - 1 - (s.length + 1) + 1 := by omega
      have hsum : s.length + 1 + line.length = s.length + (line.length + 1) := by omega
      rw [if_neg (by simp [hc, hfull]), ih hrest (by omega), hlen, hsub, hsum, List.take_succ_cons, List.drop_succ_cons]
      simp only [List.append_assoc, List.singleton_append, List.cons_append, List.nil_append]

/-- A line that fits comes whole. -/
theorem fgetsLines_whole (hline : '\n' ∉ line) (hfit : line.length < size - 1) :
    fgetsLines size (line ++ '\n' :: rest) = (line ++ ['\n']) :: fgetsLines size rest := by
  have hstep := @fgetsFrom_line size [] line rest hline (by rw [List.length_nil]; omega)
  rw [List.length_nil, Nat.zero_add, if_pos hfit] at hstep
  exact hstep

/-- The pieces of one line: the first one fills the buffer, the others are what remains. -/
theorem fgetsLines_line (hsize : 1 < size) (hline : '\n' ∉ line) :
    ∃ pieces, fgetsLines size (line ++ '\n' :: rest) =
        (line ++ ['\n']).take (size - 1) :: (pieces ++ fgetsLines size rest) ∧
      pieces.flatten = (line ++ ['\n']).drop (size - 1) := by
  induction hn : line.length using Nat.strongRecOn generalizing line with
  | _ n ih =>
    unfold fgetsLines at ih ⊢
    have hstep := @fgetsFrom_line size [] line rest hline (by rw [List.length_nil]; omega)
    rw [List.length_nil, Nat.zero_add, Nat.sub_zero, List.nil_append, List.nil_append] at hstep
    rw [hstep]
    by_cases hfit : line.length < size - 1
    · rw [if_pos hfit]
      have hlen : (line ++ ['\n']).length ≤ size - 1 := by
        rw [List.length_append, List.length_singleton]
        omega
      rw [List.take_of_length_le hlen, List.drop_eq_nil_of_le hlen]
      exact ⟨[], rfl, rfl⟩
    · rw [if_neg hfit]
      have hdrop : '\n' ∉ line.drop (size - 1) := fun h => hline (List.mem_of_mem_drop h)
      have hless : (line.drop (size - 1)).length < n := by
        rw [List.length_drop]
        omega
      obtain ⟨pieces, hpieces, hflat⟩ := ih _ hless hdrop rfl
      have htake : (line ++ ['\n']).take (size - 1) = line.take (size - 1) :=
        List.take_append_of_le_length (by omega)
      have hrest : (line ++ ['\n']).drop (size - 1) = line.drop (size - 1) ++ ['\n'] :=
        List.drop_append_of_le_length (by omega)
      rw [hpieces, htake, hrest]
      refine ⟨(line.drop (size - 1) ++ ['\n']).take (size - 1) :: pieces, rfl, ?_⟩
      rw [List.flatten_cons, hflat, List.take_append_drop]

end Lines

section Buffer

/-- `snprintf(value + pos, n, …)` in an array of `size` bytes, unless it writes outside. -/
def snprintfAt (size : ℕ) (value : ℕ → Char) (pos n : ℕ) (s : List Char) : Option (ℕ → Char) :=
  if n = 0 then some value else Memory.putWithin size value pos (s.take (n - 1) ++ ['\x00'])

/-- The characters before the terminating zero. -/
def cString (size : ℕ) (value : ℕ → Char) : List Char :=
  (Memory.slice value 0 size).takeWhile (· ≠ '\x00')

variable {size pos n : ℕ} {value : ℕ → Char} {s t : List Char}

theorem snprintfAt_of_le (hn : s.length < n) (hfit : pos + s.length < size) :
    snprintfAt size value pos n s = some (Memory.put value pos (s ++ ['\x00'])) := by
  unfold snprintfAt
  rw [if_neg (by omega), List.take_of_length_le (by omega), Memory.putWithin_of_le]
  simp
  omega

/-- What is printed behind a text continues it. -/
theorem holds_append_zero (h : Memory.Holds value 0 t) (hpos : pos = t.length) :
    Memory.Holds (Memory.put value pos (s ++ ['\x00'])) 0 (t ++ s) := by
  rw [Memory.holds_append]
  constructor
  · apply h.put
    omega
  · rw [hpos, Nat.zero_add]
    exact (Memory.holds_append.mp Memory.holds_put).1

theorem cString_of_holds (h : Memory.Holds value 0 (t ++ ['\x00'])) (hsize : t.length < size)
    (ht : '\x00' ∉ t) : cString size value = t := by
  obtain ⟨k, rfl⟩ : ∃ k, size = (t ++ ['\x00']).length + k := ⟨size - t.length - 1, by simp; omega⟩
  unfold cString
  rw [Memory.slice_add, h.slice_eq rfl, List.append_assoc, List.takeWhile_append_of_pos]
  · simp
  · intro c hc
    have hne : c ≠ '\x00' := fun heq => ht (heq ▸ hc)
    simpa using hne

end Buffer

end NCam.Util
