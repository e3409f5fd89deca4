import NCam.Lib.MaximalRuns
import NCam.Util.Tokens

/-! The allowed time frames of an account: a bit for each minute of the seven days and of `ALL`. -/
namespace NCam.Conf

open NCam.Lib NCam.Util

/-- The words `[day][hours][minutes / 30]`. -/
abbrev Timeframes := ℕ → ℕ → ℕ → BitVec 32

structure TimeframeAccount where
  allowedtimeframe : Timeframes
  allowedtimeframeSet : Bool

def sizeShortday : ℕ := 8

def maxAllowedtf : ℕ := 1001

def weekdstr : List Char := "SUNMONTUEWEDTHUFRISATALL".toList

def shortDay (day : ℕ) : List Char :=
  ["SUN", "MON", "TUE", "WED", "THU", "FRI", "SAT", "ALL"].getD day "" |>.toList

/-- The place at which `needle` is first found. -/
def strstr (hay needle : List Char) : Option ℕ :=
  (List.range (hay.length + 1)).find? fun i => needle.isPrefixOf (hay.drop i)

/-- `(dest - weekdstr) / 3`; `unknown` is what this gives for a null pointer. -/
def dayIdx (unknown : ℕ) (day : List Char) : ℕ := (strstr weekdstr day).elim unknown (· / 3)

/-- One `%<width>d` of `sscanf`: the number, and the text behind it. -/
def scanInt (width : ℕ) (s : List Char) : Option (ℤ × List Char) :=
  let s := s.dropWhile fun c => isBlank c || c = '\x0b' || c = '\x0c'
  let signed := s.head? = some '-' ∨ s.head? = some '+'
  let rest := if signed then s.drop 1 else s
  let digits := (rest.take (if signed then width - 1 else width)).takeWhile Char.isDigit
  if digits = [] then none
  else some (if s.head? = some '-' then -digitsVal digits else digitsVal digits, rest.drop digits.length)

def scanChar (c : Char) (s : List Char) : Option (List Char) :=
  if s.head? = some c then some (s.drop 1) else none

/-- `sscanf` with `%2d:%2d-%2d:%2d`, if it gives all four numbers. -/
def scanFrame (s : List Char) : Option (ℤ × ℤ × ℤ × ℤ) := do
  let (a, s) ← scanInt 2 s
  let s ← scanChar ':' s
  let (b, s) ← scanInt 2 s
  let s ← scanChar '-' s
  let (c, s) ← scanInt 2 s
  let s ← scanChar ':' s
  let (d, _) ← scanInt 2 s
  return (a, b, c, d)

def setMinute (day : ℕ) (frames : Timeframes) (t : ℕ) : Timeframes := fun d h k =>
  if d = day ∧ h = t / 60 ∧ k = t / 30 % 2 then frames d h k ||| 1#32 <<< (t % 30) else frames d h k

def setMinutes (day startt endt : ℕ) (frames : Timeframes) : Timeframes :=
  (List.range' startt (endt - startt)).foldl (setMinute day) frames

/-- The minutes of one frame; one that starts behind its end goes over midnight. -/
def allowFrame (day : ℕ) (allowed : ℤ × ℤ × ℤ × ℤ) (account : TimeframeAccount) : TimeframeAccount :=
  let startt := allowed.1 * 60 + allowed.2.1
  let endt := allowed.2.2.1 * 60 + allowed.2.2.2
  let endt := if startt = endt then endt + 1 else endt
  let startt := if startt < 0 ∨ 1439 < startt then 0 else startt
  let endt := if endt < 0 ∨ 1440 < endt then 1440 else endt
  let frames := if endt < startt then setMinutes day startt.toNat 1440 account.allowedtimeframe
    else account.allowedtimeframe
  let startt := if endt < startt then 0 else startt
  ⟨setMinutes day startt.toNat endt.toNat frames, true⟩

def readFrame (day : ℕ) (account : TimeframeAccount) (ptr : List Char) : TimeframeAccount :=
  match scanFrame ptr with
  | some allowed => if day < sizeShortday then allowFrame day allowed account else account
  | none => account

/-- One `DAY@frame,frame`, or one frame for all days. -/
def readDay (unknown : ℕ) (account : TimeframeAccount) (ptr1 : List Char) : TimeframeAccount :=
  match cutAt '@' (trim ptr1) with
  | (day, some ptr2) => (strtok ',' ptr2).foldl (readFrame (dayIdx unknown day)) account
  | (ptr1, none) => readFrame (dayIdx unknown "ALL".toList) account ptr1

def accountAllowedtimeframeFn (unknown : ℕ) (value : List Char) : TimeframeAccount :=
  (strtok ';' (value.map Char.toUpper)).foldl (readDay unknown) ⟨fun _ _ _ => 0, false⟩

/-- `%02d` of a number of at most two digits. -/
def twoDigits (n : ℕ) : List Char := [Nat.digitChar (n / 10), Nat.digitChar (n % 10)]

/-- The text written so far with the variables of the loops. -/
structure FramePrint where
  result : List Char
  valueInDay : Bool
  intime : Bool
  septime : List Char
  sepday : List Char

def printMinute (frames : Timeframes) (day hours : ℕ) (s : FramePrint) (minutes : ℕ) : FramePrint :=
  let mytime := twoDigits hours ++ ':' :: twoDigits minutes
  if (frames day hours (minutes / 30)).getLsbD (minutes % 30) then
    let s := if s.valueInDay then s
      else { s with
        result := s.result ++ s.sepday ++ shortDay day ++ ['@']
        valueInDay := true
        intime := false
        sepday := [';']
        septime := [] }
    let s := if s.intime then s
      else { s with
        result := s.result ++ s.septime ++ mytime ++ ['-']
        septime := [',']
        intime := true }
    -- 23:59 closes the day at 24:00
    if hours * 60 + minutes = 1439 then
      { s with
        result := s.result ++ "24:00".toList
        intime := false
        septime := []
        valueInDay := false }
    else s
  else if s.intime then
    { s with
      result := s.result ++ mytime
      septime := [',']
      intime := false }
  else s

def printDay (frames : Timeframes) (s : FramePrint) (day : ℕ) : FramePrint :=
  let s := (List.range 24).foldl (fun s hours => (List.range 60).foldl (printMinute frames day hours) s) s
  { s with valueInDay := false }

/-- The text, if it is written inside the buffer with its final zero. -/
def mkTAllowedtimeframe (account : TimeframeAccount) : Option (List Char) :=
  if account.allowedtimeframeSet then
    let s := (List.range sizeShortday).foldl (printDay account.allowedtimeframe) ⟨[], false, false, [], []⟩
    if s.result.length + 1 ≤ maxAllowedtf then some s.result else none
  else some []

/-- The bit of minute `t`. -/
def minuteBit (frames : Timeframes) (day t : ℕ) : Bool := (frames day (t / 60) (t / 30 % 2)).getLsbD (t % 30)

def timeText (t : ℕ) : List Char := twoDigits (t / 60) ++ ':' :: twoDigits (t % 60)

def frameText (r : ℕ × ℕ) : List Char := timeText r.1 ++ '-' :: timeText r.2

/-- The row of a day on which something is allowed. -/
def rowText (runs : ℕ → List (ℕ × ℕ)) (day : ℕ) : Option (List Char) :=
  if runs day = [] then none else some (shortDay day ++ '@' :: joinTokens ',' ((runs day).map frameText))

/-- Every run of every row, the rows from `SUN` to `ALL`. -/
def tableText (runs : ℕ → List (ℕ × ℕ)) : List Char :=
  joinTokens ';' ((List.range sizeShortday).filterMap (rowText runs))

section Scan

variable {n : ℕ} {rest : List Char} {r : ℕ × ℕ}

private theorem digits_of_lt : ∀ n < 100, (Nat.digitChar (n / 10)).isDigit = true ∧
    (Nat.digitChar (n % 10)).isDigit = true ∧ digitsVal (twoDigits n) = n := by decide

private theorem isDigit_sign {c : Char} (h : c.isDigit = true) :
    c ≠ '-' ∧ c ≠ '+' ∧ (isBlank c || c = '\x0b' || c = '\x0c') = false := by
  refine ⟨?_, ?_, ?_⟩
  · rintro rfl
    revert h
    decide
  · rintro rfl
    revert h
    decide
  · by_contra hblank
    rw [Bool.not_eq_false] at hblank
    unfold isBlank at hblank
    simp only [Bool.or_eq_true, decide_eq_true_eq] at hblank
    rcases hblank with ((((rfl | rfl) | rfl) | rfl) | rfl) | rfl <;> revert h <;> decide

/-- Two digits are read whatever comes behind them. -/
private theorem scanInt_twoDigits (hn : n < 100) : scanInt 2 (twoDigits n ++ rest) = some ((n : ℤ), rest) := by
  obtain ⟨hhigh, hlow, hval⟩ := digits_of_lt n hn
  obtain ⟨hminus, hplus, hblank⟩ := isDigit_sign hhigh
  unfold twoDigits at hval ⊢
  unfold scanInt
  dsimp only
  rw [List.cons_append, List.dropWhile_cons_of_neg (by rw [hblank]; exact Bool.false_ne_true), List.head?_cons]
  have hsigned : ¬ (some (Nat.digitChar (n / 10)) = some '-' ∨ some (Nat.digitChar (n / 10)) = some '+') := by
    rintro (h | h)
    · exact hminus (Option.some.inj h)
    · exact hplus (Option.some.inj h)
  have hneg : ¬ some (Nat.digitChar (n / 10)) = some '-' := fun h => hsigned (Or.inl h)
  rw [if_neg hsigned, if_neg hsigned, if_neg hneg, List.cons_append, List.nil_append]
  have htake : ((Nat.digitChar (n / 10) :: Nat.digitChar (n % 10) :: rest).take 2).takeWhile Char.isDigit =
      [Nat.digitChar (n / 10), Nat.digitChar (n % 10)] := by
    simp [hhigh, hlow]
  rw [htake, if_neg (List.cons_ne_nil _ _), hval]
  rfl

private theorem scanChar_cons {c : Char} : scanChar c (c :: rest) = some rest := if_pos rfl

/-- A printed frame gives its hours and minutes. -/
private theorem scanFrame_frameText (hstart : r.1 ≤ 1440) (hend : r.2 ≤ 1440) :
    scanFrame (frameText r) =
      some (((r.1 / 60 : ℕ) : ℤ), ((r.1 % 60 : ℕ) : ℤ), ((r.2 / 60 : ℕ) : ℤ), ((r.2 % 60 : ℕ) : ℤ)) := by
  have hlast := @scanInt_twoDigits (r.2 % 60) [] (by omega)
  rw [List.append_nil] at hlast
  unfold scanFrame frameText timeText
  simp only [List.append_assoc, List.cons_append, scanInt_twoDigits (show r.1 / 60 < 100 by omega),
    scanInt_twoDigits (show r.1 % 60 < 100 by omega), scanInt_twoDigits (show r.2 / 60 < 100 by omega),
    scanChar_cons, hlast, Option.bind_eq_bind, Option.bind_some, pure]

end Scan

section Print

variable {frames : Timeframes} {day n t : ℕ} {s : FramePrint} {closed : List (ℕ × ℕ)} {start : Option ℕ}
  {result septime sepday : List Char}

/-- What is printed of a day after some runs, and before the end of one that has started. -/
private def printed (day : ℕ) (s : FramePrint) (closed : List (ℕ × ℕ)) (start : Option ℕ) : FramePrint :=
  if closed = [] ∧ start = none then s
  else ⟨s.result ++ s.sepday ++ shortDay day ++ ['@'] ++ joinTokens ',' (closed.map frameText) ++
    (start.elim [] fun start => (if closed = [] then [] else [',']) ++ timeText start ++ ['-']),
    true, start.isSome, [','], [';']⟩

private theorem printed_nil : printed day s [] none = s := if_pos ⟨rfl, rfl⟩

private theorem printed_some {first : ℕ} : printed day s closed (some first) =
    ⟨s.result ++ s.sepday ++ shortDay day ++ ['@'] ++ joinTokens ',' (closed.map frameText) ++
      ((if closed = [] then [] else [',']) ++ timeText first ++ ['-']), true, true, [','], [';']⟩ := by
  unfold printed
  rw [if_neg]
  · rfl
  · rintro ⟨-, h⟩
    cases h

private theorem printed_none (hne : closed ≠ []) : printed day s closed none =
    ⟨s.result ++ s.sepday ++ shortDay day ++ ['@'] ++ joinTokens ',' (closed.map frameText), true, false, [','],
      [';']⟩ := by
  unfold printed
  rw [if_neg fun h => hne h.1]
  dsimp only [Option.elim_none, Option.isSome_none]
  rw [List.append_nil]

private theorem bit_printMinute :
    (frames day (n / 60) (n % 60 / 30)).getLsbD (n % 60 % 30) = minuteBit frames day n := by
  have hhalf : n % 60 / 30 = n / 30 % 2 := by omega
  have hbit : n % 60 % 30 = n % 30 := by omega
  unfold minuteBit
  rw [hhalf, hbit]

private theorem frameText_eq {first : ℕ} : frameText (first, n) = timeText first ++ ['-'] ++ timeText n := by
  unfold frameText
  rw [List.append_assoc]
  rfl

/-- Nothing is printed at a minute that is like the one before. -/
private theorem printMinute_same {b : Bool} (hbit : minuteBit frames day n = b) (hn : b = true → n ≠ 1439) :
    printMinute frames day (n / 60) ⟨result, b, b, septime, sepday⟩ (n % 60) =
      ⟨result, b, b, septime, sepday⟩ := by
  have hclose : n / 60 * 60 + n % 60 = n := by omega
  unfold printMinute
  dsimp only
  rw [bit_printMinute, hclose, hbit]
  cases b with
  | false => rfl
  | true => simp [hn rfl]

private theorem printMinute_wait (hbit : minuteBit frames day n = false) :
    printMinute frames day (n / 60) ⟨result, true, false, septime, sepday⟩ (n % 60) =
      ⟨result, true, false, septime, sepday⟩ := by
  unfold printMinute
  dsimp only
  rw [bit_printMinute, hbit]
  rfl

private theorem printMinute_day (hbit : minuteBit frames day n = true) (hn : n ≠ 1439) :
    printMinute frames day (n / 60) ⟨result, false, false, septime, sepday⟩ (n % 60) =
      ⟨result ++ sepday ++ shortDay day ++ ['@'] ++ [] ++ timeText n ++ ['-'], true, true, [','], [';']⟩ := by
  have hclose : n / 60 * 60 + n % 60 = n := by omega
  unfold printMinute
  dsimp only
  rw [bit_printMinute, hclose, hbit, if_pos rfl, if_neg hn]
  rfl

private theorem printMinute_open (hbit : minuteBit frames day n = true) (hn : n ≠ 1439) :
    printMinute frames day (n / 60) ⟨result, true, false, septime, sepday⟩ (n % 60) =
      ⟨result ++ septime ++ timeText n ++ ['-'], true, true, [','], sepday⟩ := by
  have hclose : n / 60 * 60 + n % 60 = n := by omega
  unfold printMinute
  dsimp only
  rw [bit_printMinute, hclose, hbit, if_pos rfl, if_neg hn]
  rfl

private theorem printMinute_close (hbit : minuteBit frames day n = false) :
    printMinute frames day (n / 60) ⟨result, true, true, septime, sepday⟩ (n % 60) =
      ⟨result ++ timeText n, true, false, [','], sepday⟩ := by
  unfold printMinute
  dsimp only
  rw [bit_printMinute, hbit]
  rfl

/-- At the last minute a frame is opened, if it has not been, and closed. -/
private theorem printMinute_last (hbit : minuteBit frames day 1439 = true) :
    printMinute frames day (1439 / 60) s (1439 % 60) =
      let s' := if s.valueInDay then s
        else ⟨s.result ++ s.sepday ++ shortDay day ++ ['@'], true, false, [], [';']⟩
      ⟨(if s'.intime then s'.result else s'.result ++ s'.septime ++ timeText 1439 ++ ['-']) ++ timeText 1440, false,
        false, [], s'.sepday⟩ := by
  obtain ⟨result, valueInDay, intime, septime, sepday⟩ := s
  unfold printMinute
  dsimp only
  rw [bit_printMinute, hbit, if_pos rfl, if_pos rfl]
  cases valueInDay <;> cases intime <;> rfl

/-- A run that ends is written behind those before. -/
private theorem printed_end {first : ℕ} (result : List Char) : result ++ joinTokens ',' (closed.map frameText) ++
    ((if closed = [] then [] else [',']) ++ timeText first ++ ['-']) ++ timeText n =
      result ++ joinTokens ',' ((closed ++ [(first, n)]).map frameText) := by
  rw [List.map_append, List.map_singleton, joinTokens_concat, frameText_eq]
  by_cases hnil : closed = []
  · rw [hnil]
    simp
  · simp [hnil]

/-- A minute at which the day is not closed. -/
private theorem printMinute_printed (hs : s.valueInDay = false ∧ s.intime = false)
    (hopen : minuteBit frames day n = true → n ≠ 1439) :
    printMinute frames day (n / 60) (printed day s (runsBelow (minuteBit frames day) n).1
        (runsBelow (minuteBit frames day) n).2) (n % 60) =
      printed day s (runsBelow (minuteBit frames day) (n + 1)).1
        (runsBelow (minuteBit frames day) (n + 1)).2 := by
  obtain ⟨result, valueInDay, intime, septime, sepday⟩ := s
  obtain ⟨hvalue, hintime⟩ : valueInDay = false ∧ intime = false := hs
  subst hvalue hintime
  cases hbit : minuteBit frames day n with
  | true =>
    have hn := hopen hbit
    rw [runsBelow_of_true hbit]
    dsimp only
    cases (runsBelow (minuteBit frames day) n).2 with
    | some first =>
      rw [Option.getD_some, printed_some]
      exact printMinute_same hbit fun _ => hn
    | none =>
      rw [Option.getD_none, printed_some]
      by_cases hnil : (runsBelow (minuteBit frames day) n).1 = []
      · rw [hnil, printed_nil, printMinute_day hbit hn, if_pos rfl]
        simp [joinTokens]
      · rw [printed_none hnil, printMinute_open hbit hn, if_neg hnil]
        simp
  | false =>
    rw [runsBelow_of_false hbit]
    dsimp only
    cases (runsBelow (minuteBit frames day) n).2 with
    | some first =>
      rw [printed_some, printMinute_close hbit, Option.toList_some, List.map_singleton,
        printed_none (by simp), printed_end]
    | none =>
      rw [Option.toList_none, List.map_nil, List.append_nil]
      by_cases hnil : (runsBelow (minuteBit frames day) n).1 = []
      · rw [hnil, printed_nil]
        exact printMinute_same hbit fun h => absurd h Bool.false_ne_true
      · rw [printed_none hnil]
        exact printMinute_wait hbit

/-- The minutes before the last one. -/
private theorem foldl_printMinute (hs : s.valueInDay = false ∧ s.intime = false) (hn : n ≤ 1439) :
    (List.range n).foldl (fun s t => printMinute frames day (t / 60) s (t % 60)) s =
      printed day s (runsBelow (minuteBit frames day) n).1 (runsBelow (minuteBit frames day) n).2 := by
  induction n with
  | zero => exact printed_nil.symm
  | succ n ih =>
    rw [List.range_succ, List.foldl_append, ih (by omega), List.foldl_cons, List.foldl_nil,
      printMinute_printed hs fun _ => by omega]

/-- Two loops over hours and minutes are one over the minutes of the day. -/
private theorem foldl_range_mul {σ : Type} {f : σ → ℕ → ℕ → σ} {m k : ℕ} {x : σ} (hk : 0 < k) :
    (List.range m).foldl (fun x i => (List.range k).foldl (fun x j => f x i j) x) x =
      (List.range (m * k)).foldl (fun x t => f x (t / k) (t % k)) x := by
  induction m with
  | zero => rw [Nat.zero_mul]; rfl
  | succ m ih =>
    rw [List.range_succ, List.foldl_append, ih, Nat.succ_mul, List.range_add, List.foldl_append, List.foldl_map,
      List.foldl_cons, List.foldl_nil]
    apply List.foldl_ext
    intro y j hj
    have hlt := List.mem_range.mp hj
    rw [Nat.mul_comm m k, Nat.mul_add_div hk, Nat.mul_add_mod, Nat.div_eq_of_lt hlt, Nat.mod_eq_of_lt hlt,
      Nat.add_zero]

private def runsOf (frames : Timeframes) (day : ℕ) : List (ℕ × ℕ) := maximalRuns (minuteBit frames day) 1440

/-- One day: its row, with the separator if there is a row before. -/
private theorem printDay_spec (hs : s.valueInDay = false ∧ s.intime = false) :
    ((printDay frames s day).valueInDay = false ∧ (printDay frames s day).intime = false) ∧
      (printDay frames s day).result = s.result ++ (rowText (runsOf frames) day).elim [] (s.sepday ++ ·) ∧
      (printDay frames s day).sepday = (rowText (runsOf frames) day).elim s.sepday fun _ => [';'] := by
  have hrow : (rowText (runsOf frames) day) = if runsOf frames day = [] then none
      else some (shortDay day ++ '@' :: joinTokens ',' ((runsOf frames day).map frameText)) := rfl
  have hfold : printDay frames s day = { printMinute frames day (1439 / 60) (printed day s
      (runsBelow (minuteBit frames day) 1439).1 (runsBelow (minuteBit frames day) 1439).2) (1439 % 60) with
      valueInDay := false } := by
    have hone := @foldl_range_mul _ (fun s h m => printMinute frames day h s m) 24 60 s (by omega)
    unfold printDay
    dsimp only at hone ⊢
    rw [hone, List.range_succ, List.foldl_append, foldl_printMinute hs (Nat.le_refl 1439)]
    rfl
  have hruns : runsOf frames day = (runsBelow (minuteBit frames day) (1439 + 1)).1 ++
      (runsBelow (minuteBit frames day) (1439 + 1)).2.toList.map fun s => (s, 1439 + 1) := rfl
  rw [hfold, hrow]
  -- the runs become variables below, or the kernel counts through the day
  cases hbit : minuteBit frames day 1439 with
  | false =>
    rw [hruns]
    have hstep := @printMinute_printed frames day 1439 s hs fun h => by rw [hbit] at h; cases h
    rw [runsBelow_of_false hbit] at hstep ⊢
    rw [hstep]
    obtain ⟨closed, hclosed⟩ : ∃ closed, closed = (runsBelow (minuteBit frames day) 1439).1 ++
      (runsBelow (minuteBit frames day) 1439).2.toList.map (fun s => (s, 1439)) := ⟨_, rfl⟩
    rw [← hclosed]
    dsimp only
    rw [Option.toList_none, List.map_nil, List.append_nil]
    by_cases hnil : closed = []
    · rw [hnil, printed_nil, if_pos rfl]
      exact ⟨⟨rfl, hs.2⟩, (List.append_nil s.result).symm, rfl⟩
    · rw [printed_none hnil, if_neg hnil]
      refine ⟨⟨rfl, rfl⟩, ?_, rfl⟩
      simp
  | true =>
    obtain ⟨result, valueInDay, intime, septime, sepday⟩ := s
    obtain ⟨hvalue, hintime⟩ : valueInDay = false ∧ intime = false := hs
    subst hvalue hintime
    have hall : runsOf frames day = (runsBelow (minuteBit frames day) 1439).1 ++
        [((runsBelow (minuteBit frames day) 1439).2.getD 1439, 1440)] := maximalRuns_of_true hbit
    have hne : ¬ (runsBelow (minuteBit frames day) 1439).1 ++
        [((runsBelow (minuteBit frames day) 1439).2.getD 1439, 1440)] = [] := by simp
    rw [printMinute_last hbit, hall, if_neg hne]
    obtain ⟨⟨closed, running⟩, hbelow⟩ : ∃ runs, runs = runsBelow (minuteBit frames day) 1439 := ⟨_, rfl⟩
    rw [← hbelow]
    dsimp only
    cases running with
    | some first =>
      rw [printed_some, if_pos rfl, if_pos rfl, printed_end]
      refine ⟨⟨rfl, rfl⟩, ?_, rfl⟩
      simp
    | none =>
      have hlast := @printed_end 1440 closed 1439
        (result ++ sepday ++ shortDay day ++ ['@'])
      by_cases hnil : closed = []
      · rw [hnil] at hlast ⊢
        rw [printed_nil, if_neg Bool.false_ne_true, if_neg Bool.false_ne_true]
        rw [if_pos rfl, List.nil_append] at hlast
        refine ⟨⟨rfl, rfl⟩, ?_, rfl⟩
        dsimp only
        rw [Option.elim_some, List.append_nil]
        have hempty : joinTokens ',' (([] : List (ℕ × ℕ)).map frameText) = [] := rfl
        rw [hempty, List.append_nil, ← List.append_assoc] at hlast
        rw [hlast]
        simp
      · rw [if_neg hnil] at hlast
        rw [printed_none hnil, if_pos rfl, if_neg Bool.false_ne_true]
        refine ⟨⟨rfl, rfl⟩, ?_, rfl⟩
        simpa using hlast

/-- The text of all rows. -/
private theorem foldl_printDay (days : List ℕ) :
    let s := days.foldl (printDay frames) ⟨[], false, false, [], []⟩
    (s.valueInDay = false ∧ s.intime = false) ∧
      s.result = joinTokens ';' (days.filterMap (rowText (runsOf frames))) ∧
      s.sepday = if days.filterMap (rowText (runsOf frames)) = [] then [] else [';'] := by
  induction days using List.reverseRecOn with
  | nil => exact ⟨⟨rfl, rfl⟩, rfl, rfl⟩
  | append_singleton days day ih =>
    obtain ⟨hstate, hresult, hsepday⟩ := ih
    obtain ⟨hstate', hresult', hsepday'⟩ := @printDay_spec frames day _ hstate
    dsimp only
    rw [List.foldl_append, List.foldl_cons, List.foldl_nil, List.filterMap_append]
    refine ⟨hstate', ?_, ?_⟩
    · rw [hresult', hresult, hsepday]
      cases hrow : rowText (runsOf frames) day with
      | none => simp [hrow]
      | some row =>
        rw [List.filterMap_cons_some hrow, List.filterMap_nil, joinTokens_concat]
        by_cases hnil : days.filterMap (rowText (runsOf frames)) = []
        · rw [if_pos hnil, if_pos hnil]
          rfl
        · rw [if_neg hnil, if_neg hnil]
          rfl
    · rw [hsepday', hsepday]
      cases hrow : rowText (runsOf frames) day with
      | none => simp [hrow]
      | some row => simp [hrow]

/-- What is written, if the buffer is large enough. -/
private theorem mkTAllowedtimeframe_eq {account : TimeframeAccount} (hset : account.allowedtimeframeSet = true) :
    mkTAllowedtimeframe account =
      if (tableText (runsOf account.allowedtimeframe)).length + 1 ≤ maxAllowedtf then
        some (tableText (runsOf account.allowedtimeframe)) else none := by
  obtain ⟨-, hresult, -⟩ := @foldl_printDay account.allowedtimeframe (List.range sizeShortday)
  unfold mkTAllowedtimeframe
  rw [if_pos hset]
  dsimp only
  rw [hresult]
  rfl

end Print

section Bits

variable {frames frames' : Timeframes} {day d t t' startt endt : ℕ} {l : List ℕ}

private theorem minuteBit_setMinute : minuteBit (setMinute day frames t') d t = true ↔
    minuteBit frames d t = true ∨ (d = day ∧ t = t') := by
  unfold minuteBit setMinute
  by_cases hword : d = day ∧ t / 60 = t' / 60 ∧ t / 30 % 2 = t' / 30 % 2
  · rw [if_pos hword, BitVec.getLsbD_or, BitVec.getLsbD_shiftLeft, BitVec.getLsbD_one, Bool.or_eq_true]
    have hbit : (decide (t % 30 < 32) && !decide (t % 30 < t' % 30) &&
        (decide (0 < 32) && decide (t % 30 - t' % 30 = 0)))
        = true ↔ t % 30 = t' % 30 := by
      simp only [Bool.and_eq_true, decide_eq_true_eq, Bool.not_eq_true', decide_eq_false_iff_not]
      omega
    rw [hbit]
    refine or_congr_right ⟨fun h => ⟨hword.1, by omega⟩, fun h => by rw [h.2]⟩
  · rw [if_neg hword]
    refine ⟨Or.inl, fun h => ?_⟩
    rcases h with h | ⟨hd, rfl⟩
    · exact h
    · exact absurd ⟨hd, rfl, rfl⟩ hword

private theorem minuteBit_foldl : minuteBit (l.foldl (setMinute day) frames) d t = true ↔
    minuteBit frames d t = true ∨ (d = day ∧ t ∈ l) := by
  induction l generalizing frames with
  | nil =>
    refine ⟨Or.inl, fun h => ?_⟩
    rcases h with h | h
    · exact h
    · exact absurd h.2 List.not_mem_nil
  | cons t' l ih =>
    rw [List.foldl_cons, ih, minuteBit_setMinute, List.mem_cons, and_or_left, or_assoc]

private theorem minuteBit_setMinutes : minuteBit (setMinutes day startt endt frames) d t = true ↔
    minuteBit frames d t = true ∨ (d = day ∧ startt ≤ t ∧ t < endt) := by
  unfold setMinutes
  rw [minuteBit_foldl, List.mem_range'_1]
  refine or_congr_right (and_congr_right fun _ => ?_)
  omega

/-- Only bits of minutes are set, and only inside the table. -/
def TimeframesWithin (frames : Timeframes) : Prop :=
  ∀ d h k i, (frames d h k).getLsbD i = true → d < sizeShortday ∧ h < 24 ∧ k < 2 ∧ i < 30

private theorem within_setMinute (hframes : TimeframesWithin frames) (hday : day < sizeShortday) (ht : t < 1440) :
    TimeframesWithin (setMinute day frames t) := by
  intro d h k i hbit
  unfold setMinute at hbit
  by_cases hword : d = day ∧ h = t / 60 ∧ k = t / 30 % 2
  · rw [if_pos hword, BitVec.getLsbD_or, BitVec.getLsbD_shiftLeft, BitVec.getLsbD_one, Bool.or_eq_true] at hbit
    rcases hbit with hbit | hbit
    · exact hframes d h k i hbit
    · simp only [Bool.and_eq_true, decide_eq_true_eq, Bool.not_eq_true', decide_eq_false_iff_not] at hbit
      obtain ⟨rfl, rfl, rfl⟩ := hword
      exact ⟨hday, by omega, by omega, by omega⟩
  · rw [if_neg hword] at hbit
    exact hframes d h k i hbit

private theorem within_setMinutes (hframes : TimeframesWithin frames) (hday : day < sizeShortday)
    (hend : endt ≤ 1440) : TimeframesWithin (setMinutes day startt endt frames) := by
  have hall : ∀ l : List ℕ, (∀ t ∈ l, t < 1440) → ∀ frames, TimeframesWithin frames →
      TimeframesWithin (l.foldl (setMinute day) frames) := by
    intro l
    induction l with
    | nil => exact fun _ frames hframes => hframes
    | cons t l ih =>
      intro hl frames hframes
      exact ih (fun x hx => hl x (List.mem_cons_of_mem t hx)) _
        (within_setMinute hframes hday (hl t List.mem_cons_self))
  apply hall _ _ frames hframes
  intro t ht
  rw [List.mem_range'_1] at ht
  omega

/-- Tables with the same minutes are the same. -/
private theorem timeframes_eq (hframes : TimeframesWithin frames) (hframes' : TimeframesWithin frames')
    (h : ∀ d < sizeShortday, ∀ t < 1440, minuteBit frames d t = true ↔ minuteBit frames' d t = true) :
    frames = frames' := by
  have hone : ∀ d h' k i, d < sizeShortday ∧ h' < 24 ∧ k < 2 ∧ i < 30 →
      ((frames d h' k).getLsbD i = true ↔ (frames' d h' k).getLsbD i = true) := by
    rintro d h' k i ⟨hd, hh, hk, hi⟩
    have hbit := h d hd (h' * 60 + k * 30 + i) (by omega)
    have hhour : (h' * 60 + k * 30 + i) / 60 = h' := by omega
    have hhalf : (h' * 60 + k * 30 + i) / 30 % 2 = k := by omega
    have hmin : (h' * 60 + k * 30 + i) % 30 = i := by omega
    unfold minuteBit at hbit
    rwa [hhour, hhalf, hmin] at hbit
  funext d h' k
  apply BitVec.eq_of_getLsbD_eq
  intro i _
  rw [Bool.eq_iff_iff]
  constructor
  · intro hbit
    exact (hone d h' k i (hframes d h' k i hbit)).mp hbit
  · intro hbit
    exact (hone d h' k i (hframes' d h' k i hbit)).mpr hbit

private theorem within_ite {p : Prop} [Decidable p] (hframes : TimeframesWithin frames)
    (hframes' : TimeframesWithin frames') : TimeframesWithin (if p then frames else frames') := by
  split_ifs
  · exact hframes
  · exact hframes'

/-- The end of a frame is cut at midnight. -/
private theorem clamp_le (e : ℤ) : (if e < 0 ∨ 1440 < e then 1440 else e).toNat ≤ 1440 := by
  split_ifs with h
  · exact Nat.le_refl 1440
  · omega

private theorem within_readFrame {account : TimeframeAccount} {ptr : List Char}
    (hframes : TimeframesWithin account.allowedtimeframe) :
    TimeframesWithin (readFrame day account ptr).allowedtimeframe := by
  unfold readFrame
  cases scanFrame ptr with
  | none => exact hframes
  | some allowed =>
    dsimp only
    split_ifs with hday
    · unfold allowFrame
      exact within_setMinutes (within_ite (within_setMinutes hframes hday (Nat.le_refl 1440)) hframes) hday
        (clamp_le _)
    · exact hframes

private theorem within_readDay {unknown : ℕ} {account : TimeframeAccount} {ptr : List Char}
    (hframes : TimeframesWithin account.allowedtimeframe) :
    TimeframesWithin (readDay unknown account ptr).allowedtimeframe := by
  unfold readDay
  obtain ⟨day, rest⟩ := cutAt '@' (trim ptr)
  cases rest with
  | none => exact within_readFrame hframes
  | some ptr2 =>
    dsimp only
    induction strtok ',' ptr2 generalizing account with
    | nil => exact hframes
    | cons t ts ih => exact ih (within_readFrame hframes)

/-- The parser writes nothing outside the table. -/
theorem within_accountAllowedtimeframeFn (unknown : ℕ) (value : List Char) :
    TimeframesWithin (accountAllowedtimeframeFn unknown value).allowedtimeframe := by
  have hall : ∀ (ts : List (List Char)) (account : TimeframeAccount), TimeframesWithin account.allowedtimeframe →
      TimeframesWithin (ts.foldl (readDay unknown) account).allowedtimeframe := by
    intro ts
    induction ts with
    | nil => exact fun account h => h
    | cons t ts ih => exact fun account h => ih _ (within_readDay h)
  apply hall
  intro d h k i hbit
  change (0#32).getLsbD i = true at hbit
  rw [BitVec.getLsbD_zero] at hbit
  cases hbit

end Bits

section Reread

variable {account : TimeframeAccount} {day d t unknown : ℕ} {r : ℕ × ℕ} {c : Char}
  {runs : ℕ → List (ℕ × ℕ)} {days : List ℕ} {s : List Char}

/-- A character that `strtoupper`, `trim` and the split into rows leave as it is. -/
private def Stays (s : List Char) : Prop := ∀ c ∈ s, c.toUpper = c ∧ isBlank c = false ∧ c ≠ ';' ∧ c ≠ '@'

private theorem stays_iff : Stays s ↔
    s.all (fun c => c.toUpper = c ∧ isBlank c = false ∧ c ≠ ';' ∧ c ≠ '@') = true := by
  unfold Stays
  rw [List.all_eq_true]
  simp only [decide_eq_true_eq]

private theorem stays_twoDigits : ∀ n < 100, Stays (twoDigits n) ∧ ',' ∉ twoDigits n := by
  simp only [stays_iff]
  decide

private theorem stays_shortDay : ∀ d < sizeShortday, Stays (shortDay d) := by
  simp only [stays_iff]
  decide

private theorem dayIdx_shortDay : ∀ d < sizeShortday, strstr weekdstr (shortDay d) = some (3 * d) := by decide

private theorem Stays.append {t : List Char} (hs : Stays s) (ht : Stays t) : Stays (s ++ t) := by
  intro c hc
  rcases List.mem_append.mp hc with hc | hc
  · exact hs c hc
  · exact ht c hc

private theorem Stays.cons (hc : c.toUpper = c ∧ isBlank c = false ∧ c ≠ ';' ∧ c ≠ '@') (hs : Stays s) :
    Stays (c :: s) := by
  intro x hx
  rcases List.mem_cons.mp hx with rfl | hx
  · exact hc
  · exact hs x hx

private theorem timeText_spec (ht : t ≤ 1440) : Stays (timeText t) ∧ ',' ∉ timeText t := by
  obtain ⟨hhours, hhours'⟩ := stays_twoDigits (t / 60) (by omega)
  obtain ⟨hminutes, hminutes'⟩ := stays_twoDigits (t % 60) (by omega)
  unfold timeText
  refine ⟨hhours.append (hminutes.cons (by decide)), ?_⟩
  simp only [List.mem_append, List.mem_cons, not_or]
  exact ⟨hhours', by decide, hminutes'⟩

private theorem frameText_spec (hr : r.1 < r.2 ∧ r.2 ≤ 1440) : Stays (frameText r) ∧ ',' ∉ frameText r := by
  obtain ⟨hstart, hstart'⟩ := @timeText_spec r.1 (by omega)
  obtain ⟨hend, hend'⟩ := @timeText_spec r.2 hr.2
  unfold frameText
  refine ⟨hstart.append (hend.cons (by decide)), ?_⟩
  simp only [List.mem_append, List.mem_cons, not_or]
  exact ⟨hstart', by decide, hend'⟩

private theorem length_frameText : (frameText r).length = 11 := rfl

private theorem stays_joinTokens {ts : List (List Char)} (h : ∀ t ∈ ts, Stays t) : Stays (joinTokens ',' ts) := by
  intro c hc
  rcases mem_joinTokens hc with rfl | ⟨t, ht, hc⟩
  · decide
  · exact h t ht c hc

/-- The frames of one day as they are added one after another. -/
private def addRuns (day : ℕ) (account : TimeframeAccount) (runs : List (ℕ × ℕ)) : TimeframeAccount :=
  runs.foldl (fun account r => ⟨setMinutes day r.1 r.2 account.allowedtimeframe, true⟩) account

private theorem readFrame_frameText (hday : day < sizeShortday) (hr : r.1 < r.2 ∧ r.2 ≤ 1440) :
    readFrame day account (frameText r) = ⟨setMinutes day r.1 r.2 account.allowedtimeframe, true⟩ := by
  have hstart : ((r.1 / 60 : ℕ) : ℤ) * 60 + ((r.1 % 60 : ℕ) : ℤ) = r.1 := by omega
  have hend : ((r.2 / 60 : ℕ) : ℤ) * 60 + ((r.2 % 60 : ℕ) : ℤ) = r.2 := by omega
  unfold readFrame
  rw [scanFrame_frameText (by omega) hr.2]
  dsimp only
  rw [if_pos hday]
  unfold allowFrame
  dsimp only
  rw [hstart, hend, if_neg (by omega : ¬ (r.1 : ℤ) = r.2), if_neg (by omega : ¬ ((r.1 : ℤ) < 0 ∨ 1439 < (r.1 : ℤ))),
    if_neg (by omega : ¬ ((r.2 : ℤ) < 0 ∨ 1440 < (r.2 : ℤ))), if_neg (by omega : ¬ (r.2 : ℤ) < r.1),
    if_neg (by omega : ¬ (r.2 : ℤ) < r.1), Int.toNat_natCast, Int.toNat_natCast]

/-- A row is read as the frames it is printed from. -/
private theorem readDay_row (hday : day < sizeShortday) {list : List (ℕ × ℕ)}
    (hruns : ∀ r ∈ list, r.1 < r.2 ∧ r.2 ≤ 1440) :
    Stays (joinTokens ',' (list.map frameText)) ∧
      readDay unknown account (shortDay day ++ '@' :: joinTokens ',' (list.map frameText)) =
        addRuns day account list := by
  have hframes : Stays (joinTokens ',' (list.map frameText)) := by
    apply stays_joinTokens
    intro t ht
    obtain ⟨r, hr, rfl⟩ := List.mem_map.mp ht
    exact (frameText_spec (hruns r hr)).1
  have hblank : ∀ c ∈ shortDay day ++ '@' :: joinTokens ',' (list.map frameText), isBlank c = false := by
    intro c hc
    rcases List.mem_append.mp hc with hc | hc
    · exact (stays_shortDay day hday c hc).2.1
    · rcases List.mem_cons.mp hc with rfl | hc
      · rfl
      · exact (hframes c hc).2.1
  have htokens : AreTokens ',' (list.map frameText) := by
    intro t ht
    obtain ⟨r, hr, rfl⟩ := List.mem_map.mp ht
    refine ⟨fun hnil => ?_, (frameText_spec (hruns r hr)).2⟩
    have hlen := @length_frameText r
    rw [hnil] at hlen
    cases hlen
  have hidx : dayIdx unknown (shortDay day) = day := by
    unfold dayIdx
    rw [dayIdx_shortDay day hday, Option.elim_some]
    omega
  refine ⟨hframes, ?_⟩
  unfold readDay
  rw [trim_of_noBlank hblank, cutAt_append fun h => (stays_shortDay day hday '@' h).2.2.2 rfl]
  dsimp only
  rw [hidx, strtok_joinTokens htokens, List.foldl_map]
  unfold addRuns
  apply List.foldl_ext
  intro account r hr
  exact readFrame_frameText hday (hruns r hr)

private theorem minuteBit_addRuns {list : List (ℕ × ℕ)} :
    minuteBit (addRuns day account list).allowedtimeframe d t = true ↔
      minuteBit account.allowedtimeframe d t = true ∨ (d = day ∧ ∃ r ∈ list, r.1 ≤ t ∧ t < r.2) := by
  unfold addRuns
  induction list generalizing account with
  | nil =>
    refine ⟨Or.inl, fun h => ?_⟩
    rcases h with h | ⟨-, r, hr, -⟩
    · exact h
    · exact absurd hr List.not_mem_nil
  | cons r list ih =>
    rw [List.foldl_cons, ih, minuteBit_setMinutes, or_assoc, ← and_or_left]
    refine or_congr_right (and_congr_right fun _ => ?_)
    simp only [List.exists_mem_cons_iff]

private theorem rowText_some {row : List Char} (h : rowText runs day = some row) :
    row = shortDay day ++ '@' :: joinTokens ',' ((runs day).map frameText) := by
  unfold rowText at h
  split_ifs at h
  exact (Option.some.inj h).symm

private theorem row_spec (hday : day < sizeShortday) (hruns : ∀ r ∈ runs day, r.1 < r.2 ∧ r.2 ≤ 1440)
    {row : List Char} (h : rowText runs day = some row) :
    (row ≠ [] ∧ ';' ∉ row ∧ ∀ c ∈ row, c.toUpper = c) ∧
      ∀ account, readDay unknown account row = addRuns day account (runs day) := by
  have hread := fun account => @readDay_row account day unknown hday _ hruns
  rw [rowText_some h]
  have hall : ∀ c ∈ shortDay day ++ '@' :: joinTokens ',' ((runs day).map frameText), c.toUpper = c ∧ c ≠ ';' := by
    intro c hc
    rcases List.mem_append.mp hc with hc | hc
    · exact ⟨(stays_shortDay day hday c hc).1, (stays_shortDay day hday c hc).2.2.1⟩
    · rcases List.mem_cons.mp hc with rfl | hc
      · decide
      · have hin := (hread ⟨fun _ _ _ => 0, false⟩).1 c hc
        exact ⟨hin.1, hin.2.2.1⟩
  refine ⟨⟨by simp, fun hc => (hall ';' hc).2 rfl, fun c hc => (hall c hc).1⟩, fun account => (hread account).2⟩

/-- Row after row. -/
private theorem minuteBit_rows (hdays : ∀ d ∈ days, d < sizeShortday)
    (hruns : ∀ d < sizeShortday, ∀ r ∈ runs d, r.1 < r.2 ∧ r.2 ≤ 1440) :
    minuteBit ((days.filterMap (rowText runs)).foldl (readDay unknown) account).allowedtimeframe d t = true ↔
      minuteBit account.allowedtimeframe d t = true ∨ (d ∈ days ∧ ∃ r ∈ runs d, r.1 ≤ t ∧ t < r.2) := by
  induction days generalizing account with
  | nil =>
    refine ⟨Or.inl, fun h => ?_⟩
    rcases h with h | h
    · exact h
    · exact absurd h.1 List.not_mem_nil
  | cons day days ih =>
    have hday := hdays day List.mem_cons_self
    have hrest : ∀ d ∈ days, d < sizeShortday := fun x hx => hdays x (List.mem_cons_of_mem day hx)
    cases hrow : rowText runs day with
    | none =>
      have hnil : runs day = [] := by
        unfold rowText at hrow
        split_ifs at hrow with h
        exact h
      rw [List.filterMap_cons_none hrow, ih hrest, List.mem_cons]
      refine or_congr_right ⟨fun h => ⟨Or.inr h.1, h.2⟩, fun h => ⟨?_, h.2⟩⟩
      rcases h.1 with rfl | hd
      · obtain ⟨r, hr, -⟩ := h.2
        rw [hnil] at hr
        exact absurd hr List.not_mem_nil
      · exact hd
    | some row =>
      rw [List.filterMap_cons_some hrow, List.foldl_cons, (row_spec hday (hruns day hday) hrow).2, ih hrest,
        minuteBit_addRuns, List.mem_cons, or_assoc]
      refine or_congr_right ?_
      constructor
      · rintro (⟨rfl, h⟩ | ⟨hd, h⟩)
        · exact ⟨Or.inl rfl, h⟩
        · exact ⟨Or.inr hd, h⟩
      · rintro ⟨rfl | hd, h⟩
        · exact Or.inl ⟨rfl, h⟩
        · exact Or.inr ⟨hd, h⟩

/-- The printed table allows the minutes of the runs. -/
private theorem reread_tableText (hruns : ∀ d < sizeShortday, ∀ r ∈ runs d, r.1 < r.2 ∧ r.2 ≤ 1440) :
    minuteBit (accountAllowedtimeframeFn unknown (tableText runs)).allowedtimeframe d t = true ↔
      d < sizeShortday ∧ ∃ r ∈ runs d, r.1 ≤ t ∧ t < r.2 := by
  have hrows : ∀ row ∈ (List.range sizeShortday).filterMap (rowText runs),
      row ≠ [] ∧ ';' ∉ row ∧ ∀ c ∈ row, c.toUpper = c := by
    intro row hmem
    obtain ⟨day, hday, hrow⟩ := List.mem_filterMap.mp hmem
    have hlt := List.mem_range.mp hday
    exact (@row_spec day unknown runs hlt (hruns day hlt) row hrow).1
  have hupper : (tableText runs).map Char.toUpper = tableText runs := by
    have hid : (tableText runs).map id = tableText runs := List.map_id _
    rw [← hid, List.map_map]
    apply List.map_congr_left
    intro c hc
    rcases mem_joinTokens hc with rfl | ⟨row, hmem, hc⟩
    · decide
    · exact (hrows row hmem).2.2 c hc
  have htokens : AreTokens ';' ((List.range sizeShortday).filterMap (rowText runs)) :=
    fun row hmem => ⟨(hrows row hmem).1, (hrows row hmem).2.1⟩
  unfold accountAllowedtimeframeFn
  rw [hupper]
  unfold tableText
  rw [strtok_joinTokens htokens, minuteBit_rows (fun d hd => List.mem_range.mp hd) hruns, List.mem_range]
  constructor
  · rintro (h | h)
    · change (0#32).getLsbD _ = true at h
      rw [BitVec.getLsbD_zero] at h
      cases h
    · exact h
  · exact Or.inr

end Reread

/-- The days on which something is allowed, `ALL` among them. -/
def allowedDays (frames : Timeframes) : ℕ :=
  (List.range sizeShortday).countP fun day => (List.range 1440).any (minuteBit frames day)

/-- The frames of all rows: minutes that are allowed, and the minute before is not. -/
def frameCount (frames : Timeframes) : ℕ :=
  ((List.range sizeShortday).map fun day => runStarts (minuteBit frames day) 1440).sum

section Claim

variable {frames : Timeframes} {days : List ℕ}

private theorem runsOf_bounds : ∀ d < sizeShortday, ∀ r ∈ runsOf frames d, r.1 < r.2 ∧ r.2 ≤ 1440 :=
  fun _ _ _ hr => ⟨(mem_maximalRuns.mp hr).lt, (mem_maximalRuns.mp hr).le⟩

private theorem length_shortDay : ∀ d < sizeShortday, (shortDay d).length = 3 := by decide

/-- Each row with its separator takes four characters, and twelve for each frame. -/
private theorem lastStart_rows (hdays : ∀ d ∈ days, d < sizeShortday) :
    lastStart (days.filterMap (rowText (runsOf frames))) =
    4 * (days.countP fun day => (List.range 1440).any (minuteBit frames day)) +
      12 * (days.map fun day => runStarts (minuteBit frames day) 1440).sum := by
  induction days with
  | nil => rfl
  | cons day days ih =>
    replace ih := ih fun d hd => hdays d (List.mem_cons_of_mem day hd)
    rw [List.countP_cons, List.map_cons, List.sum_cons, ← length_maximalRuns]
    change _ = 4 * _ + 12 * ((runsOf frames day).length + _)
    by_cases hnil : runsOf frames day = []
    · have hnone : ∀ t < 1440, minuteBit frames day t = false := maximalRuns_eq_nil_iff.mp hnil
      have hany : ¬ (List.range 1440).any (minuteBit frames day) = true := by
        rw [List.any_eq_true]
        rintro ⟨t, ht, hbit⟩
        rw [hnone t (List.mem_range.mp ht)] at hbit
        cases hbit
      have hrow : rowText (runsOf frames) day = none := if_pos hnil
      rw [List.filterMap_cons_none hrow, ih, if_neg hany, hnil, List.length_nil]
      omega
    · have hany : (List.range 1440).any (minuteBit frames day) = true := by
        by_contra hno
        apply hnil
        apply maximalRuns_eq_nil_iff.mpr
        intro t ht
        by_contra hbit
        apply hno
        rw [List.any_eq_true]
        exact ⟨t, List.mem_range.mpr ht, Bool.eq_true_of_not_eq_false hbit⟩
      have hrow : rowText (runsOf frames) day = some (shortDay day ++ '@' ::
        joinTokens ',' ((runsOf frames day).map frameText)) := if_neg hnil
      have hframes : (joinTokens ',' ((runsOf frames day).map frameText)).length + 1 =
          12 * (runsOf frames day).length := by
        rw [length_joinTokens_succ (by simpa using hnil)]
        unfold lastStart
        rw [List.map_map]
        have hconst : ((fun t : List Char => t.length + 1) ∘ frameText) = fun _ => 12 := rfl
        rw [hconst]
        induction runsOf frames day with
        | nil => rfl
        | cons r list ih =>
          rw [List.map_cons, List.sum_cons, ih, List.length_cons]
          omega
      have hday := length_shortDay day (hdays day List.mem_cons_self)
      rw [List.filterMap_cons_some hrow, if_pos hany]
      unfold lastStart at ih ⊢
      rw [List.map_cons, List.sum_cons, ih, List.length_append, List.length_cons, hday]
      omega

private theorem length_tableText : (tableText (runsOf frames)).length + 1 ≤ maxAllowedtf ↔
    allowedDays frames + 3 * frameCount frames ≤ 250 := by
  have hrows := @lastStart_rows frames (List.range sizeShortday) fun d hd => List.mem_range.mp hd
  change _ = 4 * allowedDays frames + 12 * frameCount frames at hrows
  change _ ≤ 1001 ↔ _
  unfold tableText
  by_cases hnil : (List.range sizeShortday).filterMap (rowText (runsOf frames)) = []
  · rw [hnil] at hrows ⊢
    change 0 = _ at hrows
    change 0 + 1 ≤ 1001 ↔ _
    omega
  · rw [length_joinTokens_succ hnil, hrows]
    omega

/-- Without a frame the table is empty. -/
private theorem unset_readDay {unknown : ℕ} {account : TimeframeAccount} {ptr : List Char}
    (h : (readDay unknown account ptr).allowedtimeframeSet = false) : readDay unknown account ptr = account := by
  have hframe : ∀ day account ptr, (readFrame day account ptr).allowedtimeframeSet = false →
      readFrame day account ptr = account := by
    intro day account ptr h
    unfold readFrame at h ⊢
    cases hscan : scanFrame ptr with
    | none => rfl
    | some allowed =>
      rw [hscan] at h
      dsimp only at h ⊢
      split_ifs at h ⊢
      · cases h
      · rfl
  unfold readDay at h ⊢
  revert h
  obtain ⟨day, rest⟩ := cutAt '@' (trim ptr)
  intro h
  cases rest with
  | none => exact hframe _ _ _ h
  | some ptr2 =>
    dsimp only at h ⊢
    generalize strtok ',' ptr2 = tokens at h ⊢
    induction tokens generalizing account with
    | nil => rfl
    | cons t ts ih =>
      rw [List.foldl_cons] at h ⊢
      have hrest := ih h
      rw [hrest] at h ⊢
      exact hframe _ _ _ h

private theorem unset_accountAllowedtimeframeFn {unknown : ℕ} {value : List Char}
    (h : (accountAllowedtimeframeFn unknown value).allowedtimeframeSet = false) :
    (accountAllowedtimeframeFn unknown value).allowedtimeframe = fun _ _ _ => 0 := by
  have hall : ∀ (ts : List (List Char)) (account : TimeframeAccount),
      (ts.foldl (readDay unknown) account).allowedtimeframeSet = false →
      ts.foldl (readDay unknown) account = account := by
    intro ts
    induction ts with
    | nil => exact fun account _ => rfl
    | cons t ts ih =>
      intro account h
      rw [List.foldl_cons] at h ⊢
      have hrest := ih _ h
      rw [hrest] at h ⊢
      exact unset_readDay h
  exact congrArg TimeframeAccount.allowedtimeframe (hall _ _ h)

/-- What is printed of a table that the parser has built. -/
private theorem print_parsed {unknown : ℕ} {value : List Char} :
    let frames := (accountAllowedtimeframeFn unknown value).allowedtimeframe
    mkTAllowedtimeframe (accountAllowedtimeframeFn unknown value) =
      if allowedDays frames + 3 * frameCount frames ≤ 250 then some (tableText (runsOf frames)) else none := by
  dsimp only
  simp only [← length_tableText]
  cases hset : (accountAllowedtimeframeFn unknown value).allowedtimeframeSet with
  | true => exact mkTAllowedtimeframe_eq hset
  | false =>
    have hempty : tableText (runsOf fun _ _ _ => 0) = [] := by
      have hruns : ∀ day, runsOf (fun _ _ _ => 0) day = [] := by
        intro day
        apply maximalRuns_eq_nil_iff.mpr
        intro t _
        exact BitVec.getLsbD_zero
      have hrow : rowText (runsOf fun _ _ _ => 0) = fun _ => none := by
        funext day
        exact if_pos (hruns day)
      unfold tableText
      rw [hrow]
      simp [joinTokens]
    rw [unset_accountAllowedtimeframeFn hset, hempty]
    unfold mkTAllowedtimeframe
    rw [hset]
    rfl

end Claim

/-- The text of a parsed table stays in its buffer, holds every run of every day in order and is read as the same
table exactly if the rows and their frames are few enough. -/
theorem mkTAllowedtimeframe_accountAllowedtimeframeFn (unknown unknown' : ℕ) (value : List Char) :
    let account := accountAllowedtimeframeFn unknown value
    (∃ text, mkTAllowedtimeframe account = some text ∧
      (accountAllowedtimeframeFn unknown' text).allowedtimeframe = account.allowedtimeframe ∧
      ∃ runs : ℕ → List (ℕ × ℕ), text = tableText runs ∧ ∀ day < sizeShortday,
        (∀ r, r ∈ runs day ↔ MaximalRun (minuteBit account.allowedtimeframe day) 1440 r) ∧
          (runs day).Pairwise fun r r' => r.2 < r'.1) ↔
      allowedDays account.allowedtimeframe + 3 * frameCount account.allowedtimeframe ≤ 250 := by
  intro account
  have hprint := @print_parsed unknown value
  dsimp only at hprint
  change mkTAllowedtimeframe account = _ at hprint
  rw [hprint]
  constructor
  · rintro ⟨text, htext, -⟩
    split_ifs at htext with hfits
    exact hfits
  · intro hfits
    refine ⟨_, if_pos hfits, ?_, runsOf account.allowedtimeframe, rfl, fun day _ =>
      ⟨fun r => mem_maximalRuns, pairwise_maximalRuns⟩⟩
    apply timeframes_eq (within_accountAllowedtimeframeFn _ _) (within_accountAllowedtimeframeFn _ _)
    intro d hd t ht
    rw [reread_tableText runsOf_bounds, covered_iff ht]
    exact ⟨fun h => h.2, fun h => ⟨hd, h⟩⟩

/-- Every second minute of the first three hours of a day, as far as 84 frames. -/
private def everySecond (day : ℕ) : List (ℕ × ℕ) :=
  if day = 0 then (List.range 84).map fun i => (2 * i, 2 * i + 1) else []

private theorem everySecond_frames : 84 ≤
    frameCount (accountAllowedtimeframeFn 0 (tableText everySecond)).allowedtimeframe := by
  have hbounds : ∀ d < sizeShortday, ∀ r ∈ everySecond d, r.1 < r.2 ∧ r.2 ≤ 1440 := by
    intro d _ r hr
    unfold everySecond at hr
    split_ifs at hr
    · obtain ⟨i, hi, rfl⟩ := List.mem_map.mp hr
      have hi := List.mem_range.mp hi
      dsimp only
      omega
    · cases hr
  have hbits : minuteBit (accountAllowedtimeframeFn 0 (tableText everySecond)).allowedtimeframe 0 =
      fun t => decide (t < 168 ∧ t % 2 = 0) := by
    funext t
    rw [Bool.eq_iff_iff, reread_tableText hbounds, decide_eq_true_eq]
    constructor
    · rintro ⟨-, r, hr, hle, hlt⟩
      obtain ⟨i, hi, rfl⟩ := List.mem_map.mp hr
      have hi := List.mem_range.mp hi
      dsimp only at hle hlt
      omega
    · rintro ⟨hlt, heven⟩
      refine ⟨by decide, (2 * (t / 2), 2 * (t / 2) + 1), ?_, by dsimp only; omega, by dsimp only; omega⟩
      exact List.mem_map.mpr ⟨t / 2, List.mem_range.mpr (by omega), rfl⟩
  have hstarts : runStarts (fun t => decide (t < 168 ∧ t % 2 = 0)) 1440 = 84 := by decide +kernel
  unfold frameCount
  change 84 ≤ ((0 :: List.range' 1 7).map _).sum
  rw [List.map_cons, List.sum_cons, hbits, hstarts]
  exact Nat.le_add_right 84 _

/-- 84 frames on one day are written behind the buffer. -/
theorem many_frames : ¬ ∀ (unknown : ℕ) (value : List Char),
    ∃ text, mkTAllowedtimeframe (accountAllowedtimeframeFn unknown value) = some text ∧
      (accountAllowedtimeframeFn unknown text).allowedtimeframe =
        (accountAllowedtimeframeFn unknown value).allowedtimeframe := by
  intro h
  obtain ⟨text, htext, -⟩ := h 0 (tableText everySecond)
  have hprint := @print_parsed 0 (tableText everySecond)
  have hmany := everySecond_frames
  dsimp only at hprint
  rw [hprint, if_neg (by omega)] at htext
  cases htext

end NCam.Conf
