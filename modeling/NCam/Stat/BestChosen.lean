import NCam.Lib.Lowest
import Mathlib.Algebra.Order.Ring.Int
import Mathlib.Data.Fintype.Fin
import Mathlib.Data.Prod.Lex

/-! The choice of the readers for a request: `stat_get_best_reader` behind the choice between a caid and its tunneled
one. Which readers the load balancer chooses first. -/
namespace NCam.Stat

open NCam.Lib

def UNDEF_AVG_TIME : ℤ := 99999

/-- The modes 1 to 3. -/
inductive LbMode
  | fastestReaderFirst
  | oldestReaderFirst
  | lowestUsagelevel
  deriving DecidableEq

structure LbConfig where
  lbMode : LbMode
  lbMinEcmcount : ℤ
  lbMaxEcmcount : ℤ
  lbMaxReaders : ℤ
  lbReopenInvalid : Bool
  lbForceReopenAlways : Bool
  lbReopenSeconds : ℤ

/-- What is known of the request: `get_retrylimit`, `get_nbest_readers`, `get_nfb_readers`. -/
structure LbRequest where
  preferlocalcards : Bool
  retrylimit : ℕ
  nbestReaders : ℕ
  nfbReaders : ℕ

inductive StatRc
  | found
  | invalid
  | notFound
  deriving DecidableEq

/-- What is read of the entry that `get_stat` finds, with times in milliseconds. -/
structure LbStat where
  rc : StatRc
  ecmCount : ℤ
  timeAvg : ℤ
  lastReceived : ℤ
  failFactor : ℤ
  deriving DecidableEq

/-- A `struct s_ecm_answer` with its reader: `chk_is_fixed_fallback`, whether it has a client, and `lb_last`
once it is set. -/
structure LbAnswer where
  isLocal : Bool
  fixedFallback : Bool
  lbForceFallback : Bool
  cacheexMode1 : Bool
  hasClient : Bool
  lbWeight : ℤ
  lbUsagelevel : ℤ
  lbLast : Option ℤ
  stat : Option LbStat
  active : Bool
  fallback : Bool
  value : ℤ
  time : ℤ

/-- The readings of the clock. -/
structure LbClock (n : ℕ) where
  checkTime : ℤ
  statTime : Fin n → ℤ
  reopenTime : Fin n → ℤ

/-- The list of matching readers. -/
abbrev Answers (n : ℕ) := Fin n → LbAnswer

section Evaluate

variable (cfg : LbConfig) (req : LbRequest)

/-- Statistics that a reader is chosen by. -/
def LbStat.valid (s : LbStat) : Bool :=
  s.rc = .found && cfg.lbMinEcmcount ≤ s.ecmCount &&
    (s.ecmCount ≤ cfg.lbMaxEcmcount || (req.retrylimit ≠ 0 && s.timeAvg ≤ req.retrylimit))

/-- `current` for a reader with valid statistics. -/
def lbMeasure (checkTime : ℤ) (ea : LbAnswer) (s : LbStat) : ℤ :=
  let weight := if ea.lbWeight ≤ 0 then 100 else ea.lbWeight
  match cfg.lbMode with
  | .fastestReaderFirst => max ((s.timeAvg * 100).tdiv weight) 1
  | .oldestReaderFirst =>
    let gone := (((ea.lbLast.getD checkTime) - checkTime) * weight).tdiv 100
    let current := if gone = 0 then -1 else gone
    if req.retrylimit = 0 then current
    else if (req.retrylimit : ℤ) < s.timeAvg then s.timeAvg else current - 1
  | .lowestUsagelevel =>
    let current := (ea.lbUsagelevel * 100).tdiv weight
    max (if req.retrylimit = 0 then current
      else if (req.retrylimit : ℤ) < s.timeAvg then 1000 else current - 1) 1

/-- `ea->value` has 32 bits. -/
def int32 (z : ℤ) : ℤ := (BitVec.ofInt 32 z).toInt

def LbAnswer.reset (ea : LbAnswer) : LbAnswer := { ea with active := false, fallback := false, value := 0 }

/-- The value of a reader, 0 without valid statistics. -/
def evaluate (checkTime : ℤ) (ea : LbAnswer) : LbAnswer :=
  match ea.stat with
  | none => ea.reset
  | some s =>
    if s.valid cfg req then
      { ea.reset with
        lbLast := if cfg.lbMode = .oldestReaderFirst then some (ea.lbLast.getD checkTime) else ea.lbLast
        value := int32 (lbMeasure cfg req checkTime ea s)
        time := s.timeAvg }
    else ea.reset

end Evaluate

section Choose

variable {n : ℕ}

/-- The first of the readers with the lowest value. -/
def bestOf (ok : LbAnswer → Bool) (ea : Answers n) : Option (Fin n) :=
  firstLowest (fun i => ok (ea i) && (ea i).value ≠ 0) (fun i => (ea i).value) (List.finRange n)

/-- `best_time` is not set before the first reader was found. -/
structure Choosing (n : ℕ) where
  ea : Answers n
  readerActive : ℕ
  bestTime : Option ℤ

/-- `best->value` is reset, so that it is not found again. -/
def LbAnswer.choose (ea : LbAnswer) : LbAnswer := { ea with active := true, value := 0 }

def Choosing.found (s : Choosing n) (i : Fin n) : Choosing n :=
  { s with bestTime := some (s.bestTime.getD (s.ea i).time) }

def Choosing.mark (s : Choosing n) (i : Fin n) : Choosing n :=
  { s.found i with ea := Function.update s.ea i (s.ea i).choose, readerActive := s.readerActive + 1 }

/-- Local readers are chosen as long as `nlocal` of them are left to choose. -/
def chooseBest : ℕ → ℕ → Choosing n → Choosing n
  | 0, 0, s => ((bestOf (fun _ => true) s.ea).map s.found).getD s
  | nlocal + 1, nbest, s =>
    match bestOf LbAnswer.isLocal s.ea with
    | none => s
    | some i => chooseBest nlocal nbest (s.mark i)
  | 0, nbest + 1, s =>
    match bestOf (fun _ => true) s.ea with
    | none => s
    | some i => chooseBest 0 nbest (s.mark i)

def LbAnswer.fallBack (ea : LbAnswer) : LbAnswer := { ea with active := true, fallback := true }

/-- A walk through the fixed fallbacks. -/
def fixedFallbacks (ok : LbAnswer → Bool) (s : ℕ × Answers n) : ℕ × Answers n :=
  (List.finRange n).foldl (fun s i =>
    if s.1 ≠ 0 ∧ (s.2 i).fixedFallback = true ∧ ok (s.2 i) = true ∧ (s.2 i).active = false then
      (s.1 - 1, Function.update s.2 i (s.2 i).fallBack)
    else s) s

/-- The remaining fallbacks are the readers with the lowest values. -/
def nextFallbacks : ℕ → Answers n → Answers n
  | 0, ea => ea
  | nfb + 1, ea =>
    match bestOf (fun ea => !ea.active) ea with
    | none => ea
    | some i => nextFallbacks nfb (Function.update ea i { (ea i).fallBack with value := 0 })

variable (cfg : LbConfig) (req : LbRequest)

/-- `chk_has_fixed_fallback` counts them in eight bits. -/
def chkHasFixedFallback (ea : Answers n) : BitVec 8 :=
  BitVec.ofNat 8 ((List.finRange n).countP fun i => (ea i).fixedFallback)

/-- Forced fixed fallbacks, then other ones with valid statistics. -/
def chooseFixedFallbacks (ea : Answers n) : ℕ × Answers n :=
  if chkHasFixedFallback ea ≠ 0 then
    fixedFallbacks (fun ea => !ea.lbForceFallback && ea.stat.any (LbStat.valid cfg req))
      (fixedFallbacks LbAnswer.lbForceFallback (req.nfbReaders, ea))
  else (req.nfbReaders, ea)

/-- The fixed fallbacks, then the readers with the lowest values. -/
def chooseFallbacks (ea : Answers n) : Answers n :=
  let s := chooseFixedFallbacks cfg req ea
  nextFallbacks s.1 s.2

end Choose

section Open

variable (cfg : LbConfig) (req : LbRequest)

/-- `reset_avgtime_reader`, for a reader with a client. -/
def LbAnswer.resetAvgtime (ea : LbAnswer) : LbAnswer :=
  if ea.hasClient then { ea with stat := ea.stat.map fun s => { s with timeAvg := UNDEF_AVG_TIME } } else ea

def LbAnswer.resetEcmcount (ea : LbAnswer) : LbAnswer :=
  if ea.hasClient then { ea with stat := ea.stat.map fun s => { s with ecmCount := 0 } } else ea

/-- A slow reader that was not heard of for five minutes. -/
def LbStat.stale (now : ℤ) (s : LbStat) : Bool :=
  req.retrylimit ≠ 0 && s.rc = .found && 300 * 1000 ≤ now - s.lastReceived && (req.retrylimit : ℤ) < s.timeAvg

/-- The pass for readers that need statistics; the second part says whether the reader is counted. -/
def startStatistics (now : ℤ) (ea : LbAnswer) : LbAnswer × Bool :=
  if ea.cacheexMode1 then ({ ea with active := true }, false)
  else if ea.fixedFallback && ea.lbForceFallback then (ea, false)
  else
    match ea.stat with
    | none => ({ ea with active := true }, true)
    | some s =>
      if s.rc = .found ∧ s.ecmCount < cfg.lbMinEcmcount then ({ ea with active := true }, true)
      else if s.rc = .found ∧ cfg.lbMaxEcmcount < s.ecmCount ∧
          (req.retrylimit = 0 ∨ (req.retrylimit : ℤ) < s.timeAvg) then
        ({ ea.resetEcmcount.resetAvgtime with active := true }, true)
      else if s.stale req now then ({ ea.resetAvgtime with active := true, fallback := false }, true)
      else (ea, false)

/-- All readers with valid statistics are activated, and blocked ones may be reopened. -/
def retry (ea : LbAnswer) : LbAnswer :=
  if ea.cacheexMode1 then ea
  else
    match ea.stat with
    | none => ea
    | some s =>
      if s.rc = .found ∧ cfg.lbMinEcmcount ≤ s.ecmCount ∧
          (s.ecmCount ≤ cfg.lbMaxEcmcount ∨ s.timeAvg ≤ req.retrylimit) then
        { ea.resetAvgtime with active := true, fallback := false }
      else if s.rc ≠ .found then ea.resetAvgtime
      else ea

/-- `get_reopen_seconds`, which also bounds the factor. -/
def reopenSeconds (s : LbStat) : ℤ × LbStat :=
  let largest := min ((2 ^ 31 - 1 : ℤ).tdiv cfg.lbReopenSeconds) 9999
  let s := { s with failFactor := min s.failFactor largest }
  (if s.failFactor = 0 then cfg.lbReopenSeconds else s.failFactor * cfg.lbReopenSeconds, s)

/-- `try_open_blocked_readers` on a reader, with the number of those that may still be reopened. -/
def tryOpen (forceReopen : Bool) (now : ℤ) (maxReopen : ℤ) (ea : LbAnswer) : ℤ × LbAnswer :=
  if ea.fallback || ea.active then (maxReopen, ea)
  else
    match ea.stat with
    | none => (maxReopen, ea)
    | some s =>
      if !cfg.lbReopenInvalid ∧ s.rc = .invalid then (maxReopen, ea)
      else if s.rc ≠ .found ∧ forceReopen = true ∧ cfg.lbForceReopenAlways = true then
        (maxReopen, { ea with active := true, stat := some { s with failFactor := 0 } })
      else
        let (seconds, s) := reopenSeconds cfg s
        let ea := { ea with stat := some s }
        if s.rc ≠ .found ∧ seconds * 1000 < now - s.lastReceived ∧ maxReopen ≠ 0 then
          (maxReopen - 1, { ea with active := true })
        else (maxReopen, ea)

variable {n : ℕ}

def tryOpenBlockedReaders (forceReopen : Bool) (reopenTime : Fin n → ℤ) (maxReopen : ℤ) (ea : Answers n) :
    Answers n :=
  ((List.finRange n).foldl (fun s i =>
    let (maxReopen, answer) := tryOpen cfg forceReopen (reopenTime i) s.1 (s.2 i)
    (maxReopen, Function.update s.2 i answer)) (maxReopen, ea)).2

/-- What is left of `lb_max_readers` for readers that are reopened. -/
def maxReopen : ℤ :=
  let nreaders : ℤ :=
    if cfg.lbMaxReaders = 0 then -1
    else if cfg.lbMaxReaders ≤ req.nbestReaders then req.nbestReaders + 1
    else cfg.lbMaxReaders
  nreaders - req.nbestReaders

end Open

/-- The values of the readers, the number of active ones that the passes count, and the readers at the end. -/
structure BestReaders (n : ℕ) where
  evaluated : Answers n
  readerActive : ℕ
  answers : Answers n

section Run

variable {n : ℕ} (cfg : LbConfig) (req : LbRequest) (clock : LbClock n) (ea : Answers n)

def evaluated : Answers n := fun i => evaluate cfg req clock.checkTime (ea i)

/-- The local readers with valid statistics, if they are preferred. -/
def nlocalReaders : ℕ :=
  (List.finRange n).countP fun i =>
    req.preferlocalcards && (ea i).isLocal && (ea i).stat.any (LbStat.valid cfg req)

/-- The readers after the best ones were chosen. -/
def chooseReaders : Choosing n :=
  let nlocal := nlocalReaders cfg req ea
  if req.nbestReaders < nlocal then chooseBest req.nbestReaders 0 ⟨evaluated cfg req clock ea, 0, none⟩
  else chooseBest nlocal (req.nbestReaders - nlocal) ⟨evaluated cfg req clock ea, 0, none⟩

/-- The best reader is too slow. -/
def retrylimitReached (bestTime : ℤ) : Bool :=
  req.retrylimit ≠ 0 && bestTime ≠ 0 && (req.retrylimit : ℤ) < bestTime

/-- The passes through the list, for readers of which at least one is available. -/
def statGetBestReader : BestReaders n :=
  let chosen := chooseReaders cfg req clock ea
  let fallbacks := chooseFallbacks cfg req chosen.ea
  let started i := startStatistics cfg req (clock.statTime i) (fallbacks i)
  let readerActive := chosen.readerActive + (List.finRange n).countP fun i => (started i).2
  let reached := retrylimitReached req (chosen.bestTime.getD 0)
  let retried i := if readerActive ≠ 0 ∧ reached = true then retry cfg req (started i).1 else (started i).1
  ⟨evaluated cfg req clock ea, readerActive,
    tryOpenBlockedReaders cfg (decide (readerActive = 0) || reached) clock.reopenTime (maxReopen cfg req) retried⟩

end Run

variable {n : ℕ}

section Best

variable {ok : LbAnswer → Bool} {ea : Answers n} {m : Fin n}

theorem bestOf_eq_none (h : bestOf ok ea = none) (i : Fin n) (hok : ok (ea i) = true) : (ea i).value = 0 := by
  have hnone := firstLowest_eq_none (List.pairwise_lt_finRange n) h i (List.mem_finRange i)
  by_contra hne
  simp [hok, hne] at hnone

theorem bestOf_eq_some (h : bestOf ok ea = some m) : ok (ea m) = true ∧ (ea m).value ≠ 0 ∧
    ∀ i, ok (ea i) = true → (ea i).value ≠ 0 → i ≠ m →
      (ea m).value < (ea i).value ∨ (ea m).value = (ea i).value ∧ m < i := by
  obtain ⟨-, hm, hmin⟩ := firstLowest_eq_some (List.pairwise_lt_finRange n) h
  rw [Bool.and_eq_true, decide_eq_true_eq] at hm
  refine ⟨hm.1, hm.2, fun i hok hne him => ?_⟩
  exact hmin i (List.mem_finRange i) (by simp [hok, hne]) him

end Best

/-- A count over the list is that of a set. -/
theorem length_filter_finRange (p : Fin n → Bool) :
    ((List.finRange n).filter p).length = (Finset.univ.filter fun i => p i = true).card := by
  have hlist : (Finset.univ.filter fun i => p i = true).card =
      ((List.finRange n).filter fun i => decide (p i = true)).length := rfl
  rw [hlist]
  simp only [Bool.decide_eq_true]

/-- The readers that have a value left. -/
def candidates (ea : Answers n) : Finset (Fin n) := Finset.univ.filter fun i => (ea i).value ≠ 0

@[simp] theorem mem_candidates {ea : Answers n} {i : Fin n} : i ∈ candidates ea ↔ (ea i).value ≠ 0 := by
  simp [candidates]

/-- Local readers come first if they are preferred, then the value decides, then the place in the list. -/
def readerKey (prefer : Bool) (ea : Answers n) (v : Fin n → ℤ) (i : Fin n) : ℕ ×ₗ ℤ ×ₗ Fin n :=
  toLex (if prefer && (ea i).isLocal then 0 else 1, toLex (v i, i))

section Key

variable {prefer : Bool} {ea : Answers n} {v : Fin n → ℤ} {i j : Fin n}

theorem readerKey_lt (hflag : (prefer && (ea i).isLocal) = (prefer && (ea j).isLocal))
    (h : v i < v j ∨ v i = v j ∧ i < j) : readerKey prefer ea v i < readerKey prefer ea v j := by
  unfold readerKey
  rw [hflag, Prod.Lex.toLex_lt_toLex]
  exact .inr ⟨rfl, Prod.Lex.toLex_lt_toLex.mpr h⟩

theorem readerKey_lt_of_local (hi : (prefer && (ea i).isLocal) = true) (hj : (prefer && (ea j).isLocal) = false) :
    readerKey prefer ea v i < readerKey prefer ea v j := by
  unfold readerKey
  rw [hi, hj, Prod.Lex.toLex_lt_toLex]
  exact .inl Nat.zero_lt_one

end Key

section Choose

variable {prefer : Bool} {v : Fin n → ℤ} {s : Choosing n} {nlocal nbest : ℕ} {m : Fin n}

/-- Preferred readers that have a value left. -/
private def preferred (prefer : Bool) (ea : Answers n) : Finset (Fin n) :=
  (candidates ea).filter fun i => prefer && (ea i).isLocal

private theorem mark_ea_of_ne {i : Fin n} (h : i ≠ m) : (s.mark m).ea i = s.ea i :=
  Function.update_of_ne h _ _

private theorem mark_ea_self : (s.mark m).ea m = (s.ea m).choose := Function.update_self _ _ _

private theorem isLocal_mark (i : Fin n) : ((s.mark m).ea i).isLocal = (s.ea i).isLocal := by
  by_cases h : i = m
  · rw [h, mark_ea_self]
    rfl
  · rw [mark_ea_of_ne h]

private theorem candidates_mark : candidates (s.mark m).ea = (candidates s.ea).erase m := by
  ext i
  rw [Finset.mem_erase, mem_candidates, mem_candidates]
  by_cases h : i = m
  · rw [h, mark_ea_self]
    simp [LbAnswer.choose]
  · rw [mark_ea_of_ne h]
    simp [h]

private theorem readerKey_mark : readerKey prefer (s.mark m).ea v = readerKey prefer s.ea v := by
  funext i
  unfold readerKey
  rw [isLocal_mark]

private theorem preferred_mark : preferred prefer (s.mark m).ea = (preferred prefer s.ea).erase m := by
  unfold preferred
  rw [candidates_mark, Finset.filter_erase]
  simp only [isLocal_mark]

/-- What is chosen are the readers with the lowest keys. -/
private def Chosen (prefer : Bool) (v : Fin n → ℤ) (k : ℕ) (s t : Choosing n) : Prop :=
  (∀ i, t.ea i =
    if i ∈ lowest (readerKey prefer s.ea v) k (candidates s.ea) then (s.ea i).choose else s.ea i) ∧
    t.readerActive = s.readerActive + (lowest (readerKey prefer s.ea v) k (candidates s.ea)).card

/-- The reader with the lowest key is chosen before the others. -/
private theorem Chosen.step {t : Choosing n} {k : ℕ} (hm : m ∈ candidates s.ea)
    (hmin : ∀ i ∈ candidates s.ea, i ≠ m → readerKey prefer s.ea v m < readerKey prefer s.ea v i)
    (h : Chosen prefer v k (s.mark m) t) : Chosen prefer v (k + 1) s t := by
  obtain ⟨hea, hactive⟩ := h
  rw [readerKey_mark, candidates_mark] at hactive
  simp only [readerKey_mark, candidates_mark] at hea
  have hnot : m ∉ lowest (readerKey prefer s.ea v) k ((candidates s.ea).erase m) :=
    fun hin => Finset.notMem_erase m _ (lowest_subset hin)
  unfold Chosen
  rw [lowest_succ hm hmin, Finset.card_insert_of_notMem hnot]
  constructor
  · intro i
    rw [hea i]
    by_cases him : i = m
    · rw [him, if_neg hnot, if_pos (Finset.mem_insert_self _ _), mark_ea_self]
    · have hiff : (i ∈ insert m (lowest (readerKey prefer s.ea v) k ((candidates s.ea).erase m))) ↔
          i ∈ lowest (readerKey prefer s.ea v) k ((candidates s.ea).erase m) := by
        simp [him]
      rw [mark_ea_of_ne him]
      simp only [hiff]
  · rw [hactive]
    change s.readerActive + 1 + _ = _
    omega

private theorem Chosen.zero (s : Choosing n) : Chosen prefer v 0 s s := by
  unfold Chosen
  simp

/-- The values of the candidates. -/
private def Valued (v : Fin n → ℤ) (ea : Answers n) : Prop := ∀ i, (ea i).value ≠ 0 → (ea i).value = v i

/-- The best local reader comes before all others if local readers are preferred. -/
private theorem key_lt_of_local {ea : Answers n} (hv : Valued v ea) (htrue : prefer = true)
    (h : bestOf LbAnswer.isLocal ea = some m) :
    ∀ i ∈ candidates ea, i ≠ m → readerKey prefer ea v m < readerKey prefer ea v i := by
  obtain ⟨hlocal, hm, hmin⟩ := bestOf_eq_some h
  have hflag : (prefer && (ea m).isLocal) = true := by rw [htrue, hlocal]; rfl
  intro i hi him
  cases hother : (prefer && (ea i).isLocal) with
  | false => exact readerKey_lt_of_local hflag hother
  | true =>
    rw [Bool.and_eq_true] at hother
    have hlt := hmin i hother.2 (mem_candidates.mp hi) him
    rw [hv m hm, hv i (mem_candidates.mp hi)] at hlt
    refine readerKey_lt ?_ hlt
    rw [hlocal, hother.2]

/-- The best of all readers comes before all others if none is preferred. -/
private theorem key_lt_of_all {ea : Answers n} (hv : Valued v ea) (hnone : preferred prefer ea = ∅)
    (h : bestOf (fun _ => true) ea = some m) :
    ∀ i ∈ candidates ea, i ≠ m → readerKey prefer ea v m < readerKey prefer ea v i := by
  obtain ⟨-, hm, hmin⟩ := bestOf_eq_some h
  have hflag : ∀ i ∈ candidates ea, (prefer && (ea i).isLocal) = false := by
    intro i hi
    by_contra hlocal
    have hin : i ∈ preferred prefer ea := Finset.mem_filter.mpr ⟨hi, by simpa using hlocal⟩
    rw [hnone] at hin
    exact Finset.notMem_empty i hin
  intro i hi him
  have hlt := hmin i rfl (mem_candidates.mp hi) him
  rw [hv m hm, hv i (mem_candidates.mp hi)] at hlt
  exact readerKey_lt ((hflag m (mem_candidates.mpr hm)).trans (hflag i hi).symm) hlt

private theorem Valued.mark (hv : Valued v s.ea) : Valued v (s.mark m).ea := by
  intro i hi
  by_cases him : i = m
  · rw [him, mark_ea_self] at hi
    exact absurd rfl hi
  · rw [mark_ea_of_ne him] at hi ⊢
    exact hv i hi

private theorem chosen_found (h : Chosen prefer v 0 s s) (r : Option (Fin n)) :
    Chosen prefer v 0 s ((r.map s.found).getD s) := by
  cases r with
  | none => exact h
  | some i => exact h

/-- Without preferred readers the value decides. -/
private theorem chosen_others (hv : Valued v s.ea) (hnone : preferred prefer s.ea = ∅ ∨ nbest = 0) :
    Chosen prefer v nbest s (chooseBest 0 nbest s) := by
  induction nbest generalizing s with
  | zero =>
    unfold chooseBest
    exact chosen_found (Chosen.zero s) _
  | succ nbest ih =>
    have hempty : preferred prefer s.ea = ∅ := by
      rcases hnone with h | h
      · exact h
      · cases h
    unfold chooseBest
    cases hbest : bestOf (fun _ => true) s.ea with
    | none =>
      have hcandidates : candidates s.ea = ∅ := by
        rw [Finset.eq_empty_iff_forall_notMem]
        intro i hi
        exact mem_candidates.mp hi (bestOf_eq_none hbest i rfl)
      dsimp only
      unfold Chosen
      rw [hcandidates]
      simp
    | some m =>
      obtain ⟨-, hm, -⟩ := bestOf_eq_some hbest
      have hnext : preferred prefer (s.mark m).ea = ∅ := by
        rw [preferred_mark, hempty]
        rfl
      exact (ih hv.mark (.inl hnext)).step (mem_candidates.mpr hm) (key_lt_of_all hv hempty hbest)

/-- The loop chooses the readers with the lowest keys, if it is told how many of them are preferred. -/
private theorem chosen_chooseBest (hv : Valued v s.ea) (hroom : nlocal ≤ (preferred prefer s.ea).card)
    (hrest : nbest ≠ 0 → nlocal = (preferred prefer s.ea).card) (hprefer : nlocal ≠ 0 → prefer = true) :
    Chosen prefer v (nlocal + nbest) s (chooseBest nlocal nbest s) := by
  induction nlocal generalizing s with
  | zero =>
    rw [Nat.zero_add]
    refine chosen_others hv ?_
    by_cases hzero : nbest = 0
    · exact .inr hzero
    · exact .inl (Finset.card_eq_zero.mp (hrest hzero).symm)
  | succ nlocal ih =>
    have htrue : prefer = true := hprefer (Nat.succ_ne_zero _)
    unfold chooseBest
    cases hbest : bestOf LbAnswer.isLocal s.ea with
    | none =>
      have hempty : preferred prefer s.ea = ∅ := by
        rw [Finset.eq_empty_iff_forall_notMem]
        intro i hi
        obtain ⟨hi, hlocal⟩ := Finset.mem_filter.mp hi
        rw [Bool.and_eq_true] at hlocal
        exact mem_candidates.mp hi (bestOf_eq_none hbest i hlocal.2)
      rw [hempty, Finset.card_empty] at hroom
      cases hroom
    | some m =>
      obtain ⟨hlocal, hm, -⟩ := bestOf_eq_some hbest
      have hflag : (prefer && (s.ea m).isLocal) = true := by rw [htrue, hlocal]; rfl
      have hmem : m ∈ preferred prefer s.ea := Finset.mem_filter.mpr ⟨mem_candidates.mpr hm, hflag⟩
      have hcard : (preferred prefer (s.mark m).ea).card + 1 = (preferred prefer s.ea).card := by
        rw [preferred_mark]
        exact Finset.card_erase_add_one hmem
      have hnext : Chosen prefer v (nlocal + nbest) (s.mark m) (chooseBest nlocal nbest (s.mark m)) :=
        ih hv.mark (by omega) (fun h => by have := hrest h; omega) fun _ => htrue
      rw [Nat.add_right_comm]
      exact hnext.step (mem_candidates.mpr hm) (key_lt_of_local hv htrue hbest)

/-- Once the best time is set it stays. -/
private theorem bestTime_chooseBest {time : ℤ} (h : s.bestTime = some time) :
    (chooseBest nlocal nbest s).bestTime = some time := by
  have hfound : ∀ {s : Choosing n} (i : Fin n), s.bestTime = some time → (s.found i).bestTime = some time := by
    intro s i hs
    change some (s.bestTime.getD _) = _
    rw [hs]
    rfl
  fun_induction chooseBest nlocal nbest s with
  | case1 s =>
    cases bestOf (fun _ => true) s.ea with
    | none => exact h
    | some i => exact hfound i h
  | case2 s nlocal nbest hbest => exact h
  | case3 s nlocal nbest i hbest ih => exact ih (hfound i h)
  | case4 s nbest hbest => exact h
  | case5 s nbest i hbest ih => exact ih (hfound i h)

/-- The best time is that of the reader that is found first. -/
private theorem bestTime_first {ea : Answers n} {active : ℕ} :
    (chooseBest nlocal nbest ⟨ea, active, none⟩).bestTime =
      (bestOf (if nlocal = 0 then fun _ => true else LbAnswer.isLocal) ea).map fun i => (ea i).time := by
  cases nlocal with
  | succ nlocal =>
    rw [if_neg (Nat.succ_ne_zero _)]
    unfold chooseBest
    cases bestOf LbAnswer.isLocal ea with
    | none => rfl
    | some i => exact bestTime_chooseBest rfl
  | zero =>
    rw [if_pos rfl]
    cases nbest with
    | zero =>
      unfold chooseBest
      cases bestOf (fun _ => true) ea <;> rfl
    | succ nbest =>
      unfold chooseBest
      cases bestOf (fun _ => true) ea with
      | none => rfl
      | some i => exact bestTime_chooseBest rfl

end Choose

section Inputs

variable (cfg : LbConfig) (req : LbRequest) (clock : LbClock n) (ea : Answers n)

/-- The readers with valid statistics. -/
def usableReaders : Finset (Fin n) := Finset.univ.filter fun i => (ea i).stat.any (LbStat.valid cfg req) = true

/-- The measure of the mode. -/
def measure (i : Fin n) : ℤ := ((ea i).stat.map (lbMeasure cfg req clock.checkTime (ea i))).getD 0

/-- The readers with the lowest measures, local readers first if they are preferred. -/
def bestReaders : Finset (Fin n) :=
  lowest (readerKey req.preferlocalcards ea (measure cfg req clock ea)) req.nbestReaders (usableReaders cfg req ea)

/-- The first of the usable readers; where no reader is to be chosen, none is preferred. -/
def Leads (j : Fin n) : Prop :=
  j ∈ usableReaders cfg req ea ∧ ∀ i ∈ usableReaders cfg req ea, i ≠ j →
    readerKey (req.preferlocalcards && req.nbestReaders ≠ 0) ea (measure cfg req clock ea) j <
      readerKey (req.preferlocalcards && req.nbestReaders ≠ 0) ea (measure cfg req clock ea) i

/-- The measures fit into the values, and none of them is taken for no value. -/
def MeasuresFit : Prop :=
  ∀ i ∈ usableReaders cfg req ea, measure cfg req clock ea i ≠ 0 ∧
    -2 ^ 31 ≤ measure cfg req clock ea i ∧ measure cfg req clock ea i < 2 ^ 31

end Inputs

section Evaluated

variable {cfg : LbConfig} {req : LbRequest} {clock : LbClock n} {ea : Answers n} {i : Fin n}

theorem mem_usableReaders : i ∈ usableReaders cfg req ea ↔ (ea i).stat.any (LbStat.valid cfg req) = true := by
  simp [usableReaders]

theorem int32_eq_iff {z : ℤ} : int32 z = z ↔ -2 ^ 31 ≤ z ∧ z < 2 ^ 31 := by
  unfold int32
  rw [BitVec.toInt_ofInt]
  constructor
  · intro h
    have hlo := @Int.le_bmod z (2 ^ 32) (by omega)
    have hhi := @Int.bmod_lt z (2 ^ 32) (by omega)
    rw [h] at hlo hhi
    omega
  · intro h
    rw [Int.bmod_eq_of_le] <;> omega

/-- What the evaluation leaves of a reader. -/
private theorem evaluate_cases (checkTime : ℤ) (ea : LbAnswer) :
    (ea.stat.any (LbStat.valid cfg req) = false ∧ evaluate cfg req checkTime ea = ea.reset) ∨
    ∃ s lbLast, ea.stat = some s ∧ s.valid cfg req = true ∧ evaluate cfg req checkTime ea =
      { ea.reset with lbLast, value := int32 (lbMeasure cfg req checkTime ea s), time := s.timeAvg } := by
  unfold evaluate
  cases hstat : ea.stat with
  | none => exact .inl ⟨rfl, rfl⟩
  | some s =>
    dsimp only
    by_cases hvalid : s.valid cfg req = true
    · rw [if_pos hvalid]
      exact .inr ⟨s, if cfg.lbMode = .oldestReaderFirst then some (ea.lbLast.getD checkTime) else ea.lbLast,
        rfl, hvalid, rfl⟩
    · rw [if_neg hvalid]
      exact .inl ⟨by simpa using hvalid, rfl⟩

theorem evaluated_value : (evaluated cfg req clock ea i).value =
    if i ∈ usableReaders cfg req ea then int32 (measure cfg req clock ea i) else 0 := by
  unfold evaluated measure
  simp only [mem_usableReaders]
  rcases @evaluate_cases cfg req clock.checkTime (ea i) with ⟨hnone, heq⟩ | ⟨s, lbLast, hstat, hvalid, heq⟩
  · rw [heq, hnone]
    rfl
  · rw [heq, hstat, Option.any_some, hvalid]
    rfl

/-- The fields that the evaluation leaves. -/
theorem evaluated_same : (evaluated cfg req clock ea i).isLocal = (ea i).isLocal ∧
    (evaluated cfg req clock ea i).stat = (ea i).stat ∧
    (evaluated cfg req clock ea i).fixedFallback = (ea i).fixedFallback ∧
    (evaluated cfg req clock ea i).lbForceFallback = (ea i).lbForceFallback ∧
    (evaluated cfg req clock ea i).cacheexMode1 = (ea i).cacheexMode1 ∧
    (evaluated cfg req clock ea i).active = false ∧ (evaluated cfg req clock ea i).fallback = false := by
  unfold evaluated
  rcases @evaluate_cases cfg req clock.checkTime (ea i) with ⟨-, heq⟩ | ⟨s, lbLast, -, -, heq⟩
  · rw [heq]
    exact ⟨rfl, rfl, rfl, rfl, rfl, rfl, rfl⟩
  · rw [heq]
    exact ⟨rfl, rfl, rfl, rfl, rfl, rfl, rfl⟩

theorem evaluated_time {s : LbStat} (hstat : (ea i).stat = some s) (hi : i ∈ usableReaders cfg req ea) :
    (evaluated cfg req clock ea i).time = s.timeAvg := by
  unfold evaluated
  rw [mem_usableReaders] at hi
  rcases @evaluate_cases cfg req clock.checkTime (ea i) with ⟨hnone, -⟩ | ⟨s', lbLast, hstat', -, heq⟩
  · rw [hnone] at hi
    cases hi
  · rw [hstat] at hstat'
    obtain rfl := Option.some.inj hstat'
    rw [heq]

theorem value_of_fit (hfit : MeasuresFit cfg req clock ea) (hi : i ∈ usableReaders cfg req ea) :
    (evaluated cfg req clock ea i).value = measure cfg req clock ea i := by
  obtain ⟨-, hlo, hhi⟩ := hfit i hi
  rw [evaluated_value, if_pos hi]
  exact int32_eq_iff.mpr ⟨hlo, hhi⟩

/-- The readers with a value are the usable ones. -/
theorem candidates_evaluated (hfit : MeasuresFit cfg req clock ea) :
    candidates (evaluated cfg req clock ea) = usableReaders cfg req ea := by
  ext i
  rw [mem_candidates]
  by_cases hi : i ∈ usableReaders cfg req ea
  · rw [value_of_fit hfit hi]
    exact iff_of_true (hfit i hi).1 hi
  · rw [evaluated_value, if_neg hi]
    exact iff_of_false (fun h => h rfl) hi

private theorem valued_evaluated (hfit : MeasuresFit cfg req clock ea) :
    Valued (measure cfg req clock ea) (evaluated cfg req clock ea) := by
  intro i hi
  rw [← mem_candidates, candidates_evaluated hfit] at hi
  exact value_of_fit hfit hi

private theorem readerKey_evaluated (prefer : Bool) (v : Fin n → ℤ) :
    readerKey prefer (evaluated cfg req clock ea) v = readerKey prefer ea v := by
  funext i
  unfold readerKey
  rw [evaluated_same.1]

/-- The preferred readers are counted. -/
private theorem card_preferred (hfit : MeasuresFit cfg req clock ea) :
    (preferred req.preferlocalcards (evaluated cfg req clock ea)).card = nlocalReaders cfg req ea := by
  unfold preferred nlocalReaders
  rw [candidates_evaluated hfit, List.countP_eq_length_filter]
  unfold usableReaders
  rw [Finset.filter_filter]
  rw [length_filter_finRange]
  congr 1
  ext i
  simp only [evaluated_same.1, Finset.mem_filter, Finset.mem_univ, true_and, Bool.and_eq_true]
  exact and_comm

private theorem prefer_of_nlocal (hne : nlocalReaders cfg req ea ≠ 0) : req.preferlocalcards = true := by
  unfold nlocalReaders at hne
  obtain ⟨i, -, hi⟩ := List.countP_pos_iff.mp (Nat.pos_of_ne_zero hne)
  simp only [Bool.and_eq_true] at hi
  exact hi.1.1

/-- The readers that are chosen. -/
theorem chooseReaders_eq (hfit : MeasuresFit cfg req clock ea) :
    (∀ i, (chooseReaders cfg req clock ea).ea i =
      if i ∈ bestReaders cfg req clock ea then (evaluated cfg req clock ea i).choose
      else evaluated cfg req clock ea i) ∧
      (chooseReaders cfg req clock ea).readerActive = (bestReaders cfg req clock ea).card := by
  have hpreferred := card_preferred hfit
  have hchosen : Chosen req.preferlocalcards (measure cfg req clock ea) req.nbestReaders
      ⟨evaluated cfg req clock ea, 0, none⟩ (chooseReaders cfg req clock ea) := by
    unfold chooseReaders
    dsimp only
    by_cases hmany : req.nbestReaders < nlocalReaders cfg req ea
    · rw [if_pos hmany]
      exact @chosen_chooseBest n _ _ ⟨evaluated cfg req clock ea, 0, none⟩ req.nbestReaders 0
        (valued_evaluated hfit) (by dsimp only; omega) (fun h => absurd rfl h)
        fun _ => prefer_of_nlocal (Nat.ne_zero_of_lt hmany)
    · rw [if_neg hmany]
      have hall := @chosen_chooseBest n req.preferlocalcards _ ⟨evaluated cfg req clock ea, 0, none⟩
        (nlocalReaders cfg req ea) (req.nbestReaders - nlocalReaders cfg req ea)
        (valued_evaluated hfit) hpreferred.ge (fun _ => hpreferred.symm) prefer_of_nlocal
      rw [Nat.add_sub_cancel' (Nat.not_lt.mp hmany)] at hall
      exact hall
  unfold Chosen at hchosen
  simp only [candidates_evaluated hfit, readerKey_evaluated, Nat.zero_add] at hchosen
  exact hchosen

/-- The best time is that of the reader before all others. -/
private def FoundFirst (cfg : LbConfig) (req : LbRequest) (clock : LbClock n) (ea : Answers n) (time : ℤ) : Prop :=
  ∃ j, (evaluated cfg req clock ea j).value ≠ 0 ∧ (evaluated cfg req clock ea j).time = time ∧
    ∀ i ∈ candidates (evaluated cfg req clock ea), i ≠ j →
      readerKey (req.preferlocalcards && req.nbestReaders ≠ 0) (evaluated cfg req clock ea)
          (measure cfg req clock ea) j <
        readerKey (req.preferlocalcards && req.nbestReaders ≠ 0) (evaluated cfg req clock ea)
          (measure cfg req clock ea) i

private theorem foundFirst_local (hfit : MeasuresFit cfg req clock ea) {nlocal nbest : ℕ} {time : ℤ}
    (hne : nlocal ≠ 0) (hnbest : req.nbestReaders ≠ 0) (hlocal : nlocalReaders cfg req ea ≠ 0)
    (h : (chooseBest nlocal nbest ⟨evaluated cfg req clock ea, 0, none⟩).bestTime = some time) :
    FoundFirst cfg req clock ea time := by
  rw [bestTime_first, if_neg hne] at h
  obtain ⟨j, hj, htime⟩ := Option.map_eq_some_iff.mp h
  have htrue : (req.preferlocalcards && req.nbestReaders ≠ 0) = true := by
    simp [prefer_of_nlocal hlocal, hnbest]
  exact ⟨j, (bestOf_eq_some hj).2.1, htime, key_lt_of_local (valued_evaluated hfit) htrue hj⟩

private theorem foundFirst_all (hfit : MeasuresFit cfg req clock ea) {nbest : ℕ} {time : ℤ}
    (hnone : req.nbestReaders = 0 ∨ nlocalReaders cfg req ea = 0)
    (h : (chooseBest 0 nbest ⟨evaluated cfg req clock ea, 0, none⟩).bestTime = some time) :
    FoundFirst cfg req clock ea time := by
  rw [bestTime_first, if_pos rfl] at h
  obtain ⟨j, hj, htime⟩ := Option.map_eq_some_iff.mp h
  have hempty : preferred (req.preferlocalcards && req.nbestReaders ≠ 0) (evaluated cfg req clock ea) = ∅ := by
    rcases hnone with hzero | hzero
    · simp [preferred, hzero]
    · rw [← card_preferred hfit, Finset.card_eq_zero] at hzero
      unfold preferred at hzero ⊢
      rw [Finset.filter_eq_empty_iff] at hzero ⊢
      intro i hi hprefer
      refine hzero hi ?_
      simp only [Bool.and_eq_true] at hprefer ⊢
      exact ⟨hprefer.1.1, hprefer.2⟩
  exact ⟨j, (bestOf_eq_some hj).2.1, htime, key_lt_of_all (valued_evaluated hfit) hempty hj⟩

/-- The best time is that of the first usable reader. -/
theorem bestTime_leads (hfit : MeasuresFit cfg req clock ea) {time : ℤ}
    (h : (chooseReaders cfg req clock ea).bestTime = some time) :
    ∃ j s, Leads cfg req clock ea j ∧ (ea j).stat = some s ∧ s.timeAvg = time := by
  have hfirst : FoundFirst cfg req clock ea time := by
    unfold chooseReaders at h
    dsimp only at h
    by_cases hmany : req.nbestReaders < nlocalReaders cfg req ea
    · rw [if_pos hmany] at h
      by_cases hzero : req.nbestReaders = 0
      · rw [hzero] at h
        exact foundFirst_all hfit (.inl hzero) h
      · exact foundFirst_local hfit hzero hzero (by omega) h
    · rw [if_neg hmany] at h
      by_cases hzero : nlocalReaders cfg req ea = 0
      · rw [hzero] at h
        exact foundFirst_all hfit (.inr hzero) h
      · exact foundFirst_local hfit hzero (by omega) hzero h
  obtain ⟨j, hj, htime, hlead⟩ := hfirst
  rw [← mem_candidates, candidates_evaluated hfit] at hj
  rw [candidates_evaluated hfit, readerKey_evaluated] at hlead
  cases hstat : (ea j).stat with
  | none =>
    rw [mem_usableReaders, hstat] at hj
    cases hj
  | some s => exact ⟨j, s, ⟨hj, hlead⟩, hstat, (evaluated_time hstat hj).symm.trans htime⟩

end Evaluated

end NCam.Stat
