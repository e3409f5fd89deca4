import NCam.Lib.Calendar

/-! Broken-down time: `cs_timegm` and `cs_gmtime_r`. -/
namespace NCam.Util

open NCam.Lib.Calendar

/-- The fields of `struct tm` that are set. -/
structure Tm where
  tmSec : ℤ
  tmMin : ℤ
  tmHour : ℤ
  tmMday : ℤ
  tmMon : ℤ
  tmYear : ℤ
  tmWday : ℤ
  tmYday : ℤ
  deriving DecidableEq

/-- The year is an unsigned int. -/
def isLeap (y : ℤ) : Bool :=
  let y := (y % 2 ^ 32).toNat
  y % 4 = 0 && (y % 100 ≠ 0 || y % 400 = 0)

/-- `is_leap(y) ? 366 : 365` -/
def leapDays (y : ℤ) : ℤ := if isLeap y then 366 else 365

theorem leapDays_pos {y : ℤ} : 0 < leapDays y := by
  unfold leapDays
  split_ifs <;> omega

section Timegm

/-- `for(i = 70; i < tm->tm_year; ++i)` -/
def timegmYears (tmYear : ℤ) : ℤ :=
  (List.range' 70 (tmYear - 70).toNat).foldl
    (fun result (i : ℕ) => result + leapDays (i + 1900)) 0

/-- `for(i = 0; i < tm->tm_mon; ++i)` -/
def timegmMonths (tmYear tmMon result : ℤ) : ℤ :=
  (List.range tmMon.toNat).foldl
    (fun result i =>
      if i = 0 ∨ i = 2 ∨ i = 4 ∨ i = 6 ∨ i = 7 ∨ i = 9 ∨ i = 11 then result + 31
      else if i = 3 ∨ i = 5 ∨ i = 8 ∨ i = 10 then result + 30
      else if isLeap (tmYear + 1900) then result + 29
      else result + 28) result

def csTimegm (tm : Tm) : ℤ :=
  if 12 < tm.tmMon ∨ tm.tmMon < 0 ∨ 31 < tm.tmMday ∨ 60 < tm.tmMin ∨ 60 < tm.tmSec ∨ 24 < tm.tmHour then 0
  else
    let result := timegmMonths tm.tmYear tm.tmMon (timegmYears tm.tmYear)
    let result := (result + (tm.tmMday - 1)) * 24 + tm.tmHour
    (result * 60 + tm.tmMin) * 60 + tm.tmSec

end Timegm

section Gmtime

def daysPerMonth : List ℤ :=
  [0, 31, 31 + 28, 31 + 28 + 31, 31 + 28 + 31 + 30, 31 + 28 + 31 + 30 + 31, 31 + 28 + 31 + 30 + 31 + 30,
    31 + 28 + 31 + 30 + 31 + 30 + 31, 31 + 28 + 31 + 30 + 31 + 30 + 31 + 31,
    31 + 28 + 31 + 30 + 31 + 30 + 31 + 31 + 30, 31 + 28 + 31 + 30 + 31 + 30 + 31 + 31 + 30 + 31,
    31 + 28 + 31 + 30 + 31 + 30 + 31 + 31 + 30 + 31 + 30, 31 + 28 + 31 + 30 + 31 + 30 + 31 + 31 + 30 + 31 + 30 + 31]

/-- The loop over the years, with the days that are left. -/
def gmtimeYear (i : ℕ) (work : ℤ) : ℕ × ℤ :=
  if leapDays i ≤ work then gmtimeYear (i + 1) (work - leapDays i) else (i, work)
termination_by work.toNat
decreasing_by
  have hpos := @leapDays_pos i
  omega

/-- `for(i = 11; i && daysPerMonth[i] > work; --i)` -/
def gmtimeMonth (work : ℤ) : ℕ → ℕ
  | 0 => 0
  | i + 1 => if work < daysPerMonth.getD (i + 1) 0 then gmtimeMonth work i else i + 1

/-- The days of a leap year behind the 28 February are taken for those of a common year, the 29 February for the
28th. -/
def commonDays (i : ℕ) (work : ℤ) : ℤ := if isLeap i ∧ 58 < work then work - 1 else work

/-- `r->tm_mday` before the days of the month are added. -/
def firstMday (i : ℕ) (work : ℤ) : ℤ := if isLeap i ∧ work = 59 then 2 else 1

def csGmtimeR (time : ℤ) : Tm :=
  let work := time.tmod 86400
  let (i, days) := gmtimeYear 1970 (time.tdiv 86400)
  let left := commonDays i days
  let mon := gmtimeMonth left 11
  { tmSec := work.tmod 60
    tmMin := (work.tdiv 60).tmod 60
    tmHour := (work.tdiv 60).tdiv 60
    tmMday := firstMday i days + (left - daysPerMonth.getD mon 0)
    tmMon := mon
    tmYear := ((i : ℤ) - 1900).bmod (2 ^ 32)
    tmWday := (4 + time.tdiv 86400).tmod 7
    tmYday := days }

end Gmtime

/-- The fields name a time on a date. -/
structure Tm.On (tm : Tm) (d : Date) : Prop where
  year : tm.tmYear = (d.year : ℤ) - 1900
  mon : tm.tmMon = d.month
  mday : tm.tmMday = d.day
  yday : tm.tmYday = d.yearDay
  wday : tm.tmWday = d.weekday
  hour : 0 ≤ tm.tmHour ∧ tm.tmHour < 24
  min : 0 ≤ tm.tmMin ∧ tm.tmMin < 60
  sec : 0 ≤ tm.tmSec ∧ tm.tmSec < 60

section Years

variable {y : ℕ} {work : ℤ}

theorem isLeap_eq (hy : y < 2 ^ 32) : isLeap y = leap y := by
  have hmod : ((y : ℤ) % 2 ^ 32).toNat = y := by omega
  unfold isLeap leap
  rw [hmod]

theorem leapDays_eq (hy : y < 2 ^ 32) : leapDays y = yearLength y := by
  unfold leapDays yearLength
  rw [isLeap_eq hy]
  split_ifs <;> rfl

/-- The years before the one that is found hold the days that were taken off. -/
theorem gmtimeYear_spec (hy : 1970 ≤ y) (hwork : 0 ≤ work)
    (hlt : yearStart y + work < yearStart (2 ^ 31 + 1900)) :
    1970 ≤ (gmtimeYear y work).1 ∧ (gmtimeYear y work).1 < 2 ^ 31 + 1900 ∧ 0 ≤ (gmtimeYear y work).2 ∧
      (gmtimeYear y work).2 < yearLength (gmtimeYear y work).1 ∧
        yearStart (gmtimeYear y work).1 + (gmtimeYear y work).2 = yearStart y + work := by
  have hbound : ∀ {x : ℕ} {left : ℤ}, 0 ≤ left → yearStart x + left < yearStart (2 ^ 31 + 1900) →
      x < 2 ^ 31 + 1900 := by
    intro x left hleft hx
    by_contra hge
    have hmono := @yearStart_mono x (2 ^ 31 + 1900) (by omega)
    omega
  fun_induction gmtimeYear y work with
  | case1 y work hle ih =>
    have hlength := leapDays_eq (y := y) (by have := hbound hwork hlt; omega)
    have hsucc := yearStart_succ hy
    rw [hlength] at hle ih
    have hsum : (yearStart (y + 1) : ℤ) + (work - yearLength y) = yearStart y + work := by
      rw [hsucc]
      omega
    rw [hsum] at ih
    rw [hlength]
    exact ih (by omega) (by omega) hlt
  | case2 y work hnot =>
    have hlt32 := hbound hwork hlt
    have hlength := leapDays_eq (y := y) (by omega)
    rw [hlength, not_le] at hnot
    exact ⟨hy, hlt32, hwork, hnot, rfl⟩

/-- The days of the years that are added up. -/
theorem timegmYears_eq (hy : y ≤ 2 ^ 31 + 1900) (h1970 : 1970 ≤ y) :
    timegmYears ((y : ℤ) - 1900) = yearStart y := by
  have hfold : ∀ k : ℕ, 1970 + k ≤ 2 ^ 31 + 1900 → ((List.range' 70 k).foldl
      (fun (result : ℤ) (i : ℕ) => result + leapDays (i + 1900)) 0) = yearStart (1970 + k) := by
    intro k
    induction k with
    | zero => exact fun _ => rfl
    | succ k ih =>
      intro hk
      have hlength := leapDays_eq (y := 1970 + k) (by omega)
      have hyear : ((70 + k : ℕ) : ℤ) + 1900 = (1970 + k : ℕ) := by omega
      rw [List.range'_1_concat, List.foldl_append, ih (by omega), List.foldl_cons, List.foldl_nil, hyear,
        hlength, ← Nat.add_assoc, yearStart_succ (by omega)]
      exact (Nat.cast_add _ _).symm
  obtain ⟨k, rfl⟩ := Nat.exists_eq_add_of_le h1970
  have hcount : (((1970 + k : ℕ) : ℤ) - 1900 - 70).toNat = k := by omega
  unfold timegmYears
  rw [hcount]
  exact hfold k hy

end Years

section Months

variable {y m : ℕ} {work : ℤ}

/-- The days of the months that are added up. -/
theorem timegmMonths_eq (hy : y < 2 ^ 32) (hm : m ≤ 12) (result : ℤ) :
    timegmMonths ((y : ℤ) - 1900) m result = result + monthStart y m := by
  have hleap : isLeap ((y : ℤ) - 1900 + 1900) = leap y := by
    rw [sub_add_cancel, isLeap_eq hy]
  induction m with
  | zero => simp [timegmMonths, monthStart]
  | succ m ih =>
    unfold timegmMonths at ih ⊢
    rw [Int.toNat_natCast] at ih ⊢
    rw [List.range_succ, List.foldl_append, ih (by omega), List.foldl_cons, List.foldl_nil, monthStart_succ,
      hleap]
    have hlt : m < 12 := by omega
    push_cast
    interval_cases m <;> simp [monthLength, ← add_assoc]
    split_ifs <;> rfl

theorem gmtimeMonth_spec (hwork : 0 ≤ work) {i : ℕ} : gmtimeMonth work i ≤ i ∧
    daysPerMonth.getD (gmtimeMonth work i) 0 ≤ work ∧
      (gmtimeMonth work i < i → work < daysPerMonth.getD (gmtimeMonth work i + 1) 0) := by
  induction i with
  | zero => exact ⟨Nat.le_refl 0, hwork, fun h => absurd h (Nat.lt_irrefl 0)⟩
  | succ i ih =>
    unfold gmtimeMonth
    split_ifs with hlt
    · obtain ⟨hle, hstart, hend⟩ := ih
      refine ⟨by omega, hstart, fun _ => ?_⟩
      rcases Nat.eq_or_lt_of_le hle with heq | hless
      · rw [heq]
        exact hlt
      · exact hend hless
    · exact ⟨Nat.le_refl _, by omega, fun h => absurd h (Nat.lt_irrefl _)⟩

/-- The table holds the days before each month of a common year. -/
theorem monthStart_eq (hm : m ≤ 12) :
    (monthStart y m : ℤ) = daysPerMonth.getD m 0 + if leap y ∧ 2 ≤ m then 1 else 0 := by
  interval_cases m <;> cases hleap : leap y <;> simp [monthStart, monthLength, daysPerMonth, hleap, List.range_succ]

theorem monthLength_eq (hm : m < 12) : (monthLength y m : ℤ) =
    daysPerMonth.getD (m + 1) 0 - daysPerMonth.getD m 0 + if leap y ∧ m = 1 then 1 else 0 := by
  interval_cases m <;> cases hleap : leap y <;> simp [monthLength, daysPerMonth, hleap]

end Months

section RoundTrip

variable {y : ℕ} {days t : ℤ}

/-- The month and the day of the month that a day of a year is in. -/
theorem monthDay_spec (hy : y < 2 ^ 32) (h0 : 0 ≤ days) (hlt : days < yearLength y) {mon : ℕ} {mday : ℤ}
    (hmon : mon = gmtimeMonth (commonDays y days) 11)
    (hmday : mday = firstMday y days + (commonDays y days - daysPerMonth.getD mon 0)) :
    mon < 12 ∧ 1 ≤ mday ∧ mday ≤ monthLength y mon ∧ monthStart y mon + (mday - 1) = days := by
  have hleft : 0 ≤ commonDays y days ∧ commonDays y days < 365 := by
    unfold commonDays
    unfold yearLength at hlt
    rw [isLeap_eq hy]
    split_ifs at hlt ⊢ with h1 h2 <;> grind
  obtain ⟨hle, hstart, hend⟩ := @gmtimeMonth_spec (commonDays y days) hleft.1 11
  rw [← hmon] at hle hstart hend
  have hmonth : commonDays y days < daysPerMonth.getD (mon + 1) 0 := by
    rcases Nat.lt_or_ge mon 11 with hless | hge
    · exact hend hless
    · have hlast : mon = 11 := by omega
      rw [hlast]
      exact hleft.2
  have hmarch : 2 ≤ mon ↔ 59 ≤ commonDays y days := by
    clear hmon hmday
    interval_cases mon <;> simp [daysPerMonth] at hstart hmonth ⊢ <;> omega
  have hfebruary : commonDays y days = 58 → mon = 1 := by
    clear hmon hmday
    intro h58
    rw [h58] at hstart hmonth
    interval_cases mon <;> simp [daysPerMonth] at hstart hmonth ⊢
  rw [monthStart_eq (by omega), monthLength_eq (by omega), hmday]
  unfold firstMday commonDays at *
  rw [isLeap_eq hy] at *
  cases hleap : leap y with
  | false =>
    simp only [hleap, Bool.false_eq_true, false_and, if_false] at *
    omega
  | true =>
    simp only [hleap, true_and] at *
    split_ifs at * <;> omega

/-- The fields name the day that the time is on. -/
theorem on_csGmtimeR (h0 : 0 ≤ t) (hyear : t < 86400 * yearStart (2 ^ 31 + 1900)) :
    ∃ d : Date, (csGmtimeR t).On d ∧ (d.dayNumber : ℤ) = t / 86400 ∧ 1970 ≤ d.year ∧ d.year < 2 ^ 31 + 1900 := by
  have hdays : (0 : ℤ) ≤ t / 86400 := by omega
  have hspec := gmtimeYear_spec (y := 1970) (Nat.le_refl _) hdays (by
    rw [yearStart_base]
    omega)
  unfold csGmtimeR
  rw [Int.tdiv_eq_ediv_of_nonneg h0, Int.tmod_eq_emod_of_nonneg h0]
  cases hfound : gmtimeYear 1970 (t / 86400) with
  | mk y days =>
    rw [hfound, yearStart_base] at hspec
    obtain ⟨hy, hy', hleft, hlt, hsum⟩ := hspec
    dsimp only at *
    obtain ⟨hmon, hpos, hle, hday⟩ := monthDay_spec (by omega) hleft hlt rfl rfl
    obtain ⟨mday, hmday⟩ := Int.eq_ofNat_of_zero_le (by omega : 0 ≤ firstMday y days +
      (commonDays y days - daysPerMonth.getD (gmtimeMonth (commonDays y days) 11) 0))
    rw [hmday] at hpos hle hday
    let d : Date := ⟨y, gmtimeMonth (commonDays y days) 11, mday, hmon, by omega, by omega⟩
    have hyearDay : (d.yearDay : ℤ) = days := by
      show ((monthStart y (gmtimeMonth (commonDays y days) 11) + (mday - 1) : ℕ) : ℤ) = days
      omega
    have hnumber : (d.dayNumber : ℤ) = t / 86400 := by
      show ((yearStart y + d.yearDay : ℕ) : ℤ) = t / 86400
      omega
    refine ⟨d, ⟨?_, rfl, hmday, hyearDay.symm, ?_, ?_, ?_, ?_⟩, hnumber, hy, hy'⟩
    · show ((y : ℤ) - 1900).bmod (2 ^ 32) = (y : ℤ) - 1900
      apply Int.bmod_eq_of_le <;> omega
    · show (4 + t / 86400).tmod 7 = (((4 + d.dayNumber) % 7 : ℕ) : ℤ)
      rw [Int.tmod_eq_emod_of_nonneg (by omega)]
      omega
    · show 0 ≤ ((t % 86400).tdiv 60).tdiv 60 ∧ ((t % 86400).tdiv 60).tdiv 60 < 24
      rw [Int.tdiv_eq_ediv_of_nonneg (a := t % 86400) (by omega), Int.tdiv_eq_ediv_of_nonneg (by omega)]
      omega
    · show 0 ≤ ((t % 86400).tdiv 60).tmod 60 ∧ ((t % 86400).tdiv 60).tmod 60 < 60
      rw [Int.tdiv_eq_ediv_of_nonneg (a := t % 86400) (by omega), Int.tmod_eq_emod_of_nonneg (by omega)]
      omega
    · show 0 ≤ (t % 86400).tmod 60 ∧ (t % 86400).tmod 60 < 60
      rw [Int.tmod_eq_emod_of_nonneg (by omega)]
      omega

/-- The time of the fields, from the days before their date. -/
theorem csTimegm_of_on {tm : Tm} {d : Date} (h : tm.On d) (hy : 1970 ≤ d.year) (hy' : d.year < 2 ^ 31 + 1900) :
    csTimegm tm = ((d.dayNumber * 24 + tm.tmHour) * 60 + tm.tmMin) * 60 + tm.tmSec := by
  have hmonth := d.month_lt
  have hday : d.day ≤ 31 := by
    have hle := d.day_le
    unfold monthLength at hle
    interval_cases d.month <;> simp at hle <;> grind
  obtain ⟨-, hmin⟩ := h.min
  obtain ⟨-, hsec⟩ := h.sec
  obtain ⟨-, hhour⟩ := h.hour
  have hinside : ¬ (12 < tm.tmMon ∨ tm.tmMon < 0 ∨ 31 < tm.tmMday ∨ 60 < tm.tmMin ∨ 60 < tm.tmSec ∨
      24 < tm.tmHour) := by
    rw [h.mon, h.mday]
    omega
  have hpos := d.day_pos
  unfold csTimegm
  rw [if_neg hinside, h.year, h.mon, h.mday, timegmYears_eq (by omega) hy, timegmMonths_eq (by omega) (by omega)]
  dsimp only [Date.dayNumber, Date.yearDay]
  omega

/-- The fields of the time of the day. -/
theorem clock_csGmtimeR (h0 : 0 ≤ t) :
    ((csGmtimeR t).tmHour * 60 + (csGmtimeR t).tmMin) * 60 + (csGmtimeR t).tmSec = t % 86400 := by
  unfold csGmtimeR
  cases gmtimeYear 1970 (t.tdiv 86400) with
  | mk y days =>
    dsimp only
    rw [Int.tmod_eq_emod_of_nonneg h0, Int.tdiv_eq_ediv_of_nonneg (a := t % 86400) (by omega),
      Int.tdiv_eq_ediv_of_nonneg (by omega), Int.tmod_eq_emod_of_nonneg (by omega),
      Int.tmod_eq_emod_of_nonneg (by omega)]
    omega

/-- What is broken down is put together again, and its fields name a time on a date. -/
theorem csTimegm_csGmtimeR (t : ℤ) (h0 : 0 ≤ t) (hyear : t < 86400 * yearStart (2 ^ 31 + 1900)) :
    csTimegm (csGmtimeR t) = t ∧ ∃ d : Date, (csGmtimeR t).On d := by
  obtain ⟨d, hon, hnumber, hy, hy'⟩ := on_csGmtimeR h0 hyear
  refine ⟨?_, d, hon⟩
  rw [csTimegm_of_on hon hy hy', hnumber]
  have hclock := clock_csGmtimeR h0
  omega

/-- The 29 February 2000. -/
theorem csTimegm_csGmtimeR_leapDay :
    csTimegm (csGmtimeR 951786061) = 951786061 ∧ ∃ d : Date, (csGmtimeR 951786061).On d := by
  apply csTimegm_csGmtimeR
  · decide
  · have hyears := @le_yearStart (2 ^ 31 + 1900)
    omega

end RoundTrip

end NCam.Util
