import NCam.Ecm.Request
import NCam.Lib.Signed
import NCam.Stat.StatFile

/-! How long the load balancer blocks a failing reader, and when it drops a statistic:
`get_reopen_seconds` and the clean up. -/
namespace NCam.Stat

open NCam.Lib
open NCam.Ecm (E_FOUND E_NOTFOUND E_TIMEOUT E_FAKE E_INVALID)

structure TimeCfg where
  lbReopenSeconds : BitVec 32
  lbReopenInvalid : Bool
  lbForceReopenAlways : Bool
  lbStatCleanup : BitVec 32

def incFail (s : ReaderStat) : ReaderStat :=
  { s with failFactor := if s.failFactor.toInt ≤ 0 then 1 else s.failFactor + 1 }

/-- `INT_MAX / cfg.lb_reopen_seconds`, at most 9999. -/
def maxFactor (lbReopenSeconds : BitVec 32) : BitVec 32 :=
  let max := (BitVec.intMax 32).sdiv lbReopenSeconds
  if 9999 < max.toInt then 9999 else max

/-- The entry and the seconds; there are none when the setting is 0. -/
def getReopenSeconds (cfg : TimeCfg) (s : ReaderStat) : Option (ReaderStat × BitVec 32) :=
  if cfg.lbReopenSeconds = 0 then none
  else
    let max := maxFactor cfg.lbReopenSeconds
    let s := if max.toInt < s.failFactor.toInt then { s with failFactor := max } else s
    some (s, if s.failFactor = 0 then cfg.lbReopenSeconds else s.failFactor * cfg.lbReopenSeconds)

/-- `gone > reopenseconds*1000` -/
def due (now : Timeb) (s : ReaderStat) (reopenseconds : BitVec 32) : Bool :=
  (reopenseconds * 1000).toInt < (compTimeb now s.lastReceived).toInt

/-- The body of `try_open_blocked_readers` for one reader: its entry, whether it is active now and what
is left of `max_reopen`. -/
def tryOpenBlockedReader (cfg : TimeCfg) (now : Timeb) (maxReopen : ℤ) (forceReopen : Bool)
    (s : ReaderStat) : Option (ReaderStat × Bool × ℤ) :=
  if !cfg.lbReopenInvalid ∧ s.rc = BitVec.ofNat 32 E_INVALID then some (s, false, maxReopen)
  else if s.rc ≠ BitVec.ofNat 32 E_FOUND ∧ forceReopen ∧ cfg.lbForceReopenAlways then
    some ({ s with failFactor := 0 }, true, maxReopen)
  else (getReopenSeconds cfg s).map fun (s, reopenseconds) =>
    if s.rc ≠ BitVec.ofNat 32 E_FOUND ∧ due now s reopenseconds ∧ maxReopen ≠ 0 then
      (s, true, maxReopen - 1)
    else (s, false, maxReopen)

/-- `add_stat` on the fields used here. -/
def addStat (rc : ℕ) (now : Timeb) (s : ReaderStat) : ReaderStat :=
  let s := { s with lastReceived := now }
  if rc = E_FOUND then { s with rc := BitVec.ofNat 32 rc, failFactor := 0 }
  else if rc = E_NOTFOUND ∨ rc = E_TIMEOUT ∨ rc = E_FAKE then
    { incFail s with rc := BitVec.ofNat 32 rc }
  else if rc = E_INVALID then { s with rc := BitVec.ofNat 32 rc }
  else s

/-- What happens to an entry: an answer, a timeout that `write_ecm_answer` counts, a try to reopen. -/
inductive StatEvent
  | answered (rc : ℕ) (now : Timeb)
  | timedOut
  | tried (now : Timeb) (maxReopen : ℤ) (forceReopen : Bool)

def StatEvent.apply (cfg : TimeCfg) (s : ReaderStat) : StatEvent → Option ReaderStat
  | .answered rc now => some (addStat rc now s)
  | .timedOut => some (incFail s)
  | .tried now maxReopen forceReopen =>
    (tryOpenBlockedReader cfg now maxReopen forceReopen s).map Prod.fst

/-- An entry that `get_add_stat` made, after some events. -/
def Arises (cfg : TimeCfg) (s : ReaderStat) : Prop :=
  ∃ new : ReaderStat, new.failFactor = 0 ∧ ∃ events : List StatEvent,
    events.foldlM (StatEvent.apply cfg) new = some s

/-- The entries `housekeeping_stat_thread` leaves. -/
def housekeptStats (now : Timeb) (lbStatCleanup : BitVec 32) (rdr : Reader) : List ReaderStat :=
  rdr.lbStat.filter fun s =>
    ¬ (cleanupTimeout lbStatCleanup).toInt < (compTimeb now s.lastReceived).toInt

/-- The reader's time to reopen has come. -/
def Reopens (cfg : TimeCfg) (now : Timeb) (s : ReaderStat) : Prop :=
  ∃ r ∈ getReopenSeconds cfg s, due now r.1 r.2 = true

/-- The products of `get_reopen_seconds` and its caller fit in 32 bits. -/
def SecondsExact (cfg : TimeCfg) (s : ReaderStat) : Prop :=
  ∃ r, getReopenSeconds cfg s = some r ∧
    (r.1.failFactor ≠ 0 → r.2.toInt = r.1.failFactor.toInt * cfg.lbReopenSeconds.toInt) ∧
    (r.2 * 1000).toInt = r.2.toInt * 1000

/-- The time computations are exact for the entry and the settings, a smaller fail factor does not block
longer, and no statistic goes before its hours have passed. -/
structure TimesRight (cfg : TimeCfg) (s : ReaderStat) (rdr : Reader) (ts : Timeb) : Prop where
  seconds : SecondsExact cfg s
  hours : (cleanupTimeout cfg.lbStatCleanup).toInt = cfg.lbStatCleanup.toInt * 3600000
  blocked : ∀ other, Arises cfg other → other.failFactor.toInt ≤ s.failFactor.toInt →
    ∀ now now', (compTimeb now s.lastReceived).toInt ≤ (compTimeb now' other.lastReceived).toInt →
      Reopens cfg now s → Reopens cfg now' other
  kept : ∀ old ∈ rdr.lbStat,
    old ∉ keptStats ts cfg.lbStatCleanup rdr ∨ old ∉ housekeptStats ts cfg.lbStatCleanup rdr →
      cfg.lbStatCleanup.toInt * 3600000 < (compTimeb ts old.lastReceived).toInt

/-- The settings and the factor are small enough, and only entries that are old have no `ecmlen`. -/
structure InBounds (cfg : TimeCfg) (s : ReaderStat) (rdr : Reader) (ts : Timeb) : Prop where
  reopen : 0 < cfg.lbReopenSeconds.toInt
  factor : 0 ≤ s.failFactor.toInt
  wait : 1000 * cfg.lbReopenSeconds.toInt * max 1 (min s.failFactor.toInt 9999) < 2 ^ 31
  hours : -596 ≤ cfg.lbStatCleanup.toInt ∧ cfg.lbStatCleanup.toInt ≤ 596
  ecmlen : ∀ old ∈ rdr.lbStat, old.ecmlen = 0 →
    cfg.lbStatCleanup.toInt * 3600000 < (compTimeb ts old.lastReceived).toInt

variable {cfg : TimeCfg} {s : ReaderStat} {rdr : Reader} {ts : Timeb}

section Seconds

/-- The cap as an integer. -/
def capOf (reopen : ℤ) : ℤ := min ((2 ^ 31 - 1 : ℤ).tdiv reopen) 9999

/-- The seconds before they are stored in 32 bits. -/
def secondsOf (reopen factor : ℤ) : ℤ :=
  if min factor (capOf reopen) = 0 then reopen else min factor (capOf reopen) * reopen

theorem toInt_maxFactor (reopen : BitVec 32) :
    (maxFactor reopen).toInt = capOf reopen.toInt := by
  have hmax : (BitVec.intMax 32).toInt = 2 ^ 31 - 1 := by decide
  have hquot : ((BitVec.intMax 32).sdiv reopen).toInt = (2 ^ 31 - 1 : ℤ).tdiv reopen.toInt := by
    rw [BitVec.toInt_sdiv_of_ne_or_ne _ _ (Or.inl (by decide)), hmax]
  unfold maxFactor capOf
  dsimp only
  rw [hquot]
  split_ifs with hlt
  · rw [min_eq_right hlt.le]
    rfl
  · rw [min_eq_left (not_lt.mp hlt), hquot]

theorem getReopenSeconds_some (h : cfg.lbReopenSeconds ≠ 0) :
    ∃ r, getReopenSeconds cfg s = some r ∧ r.1.lastReceived = s.lastReceived ∧
      r.1.failFactor.toInt = min s.failFactor.toInt (capOf cfg.lbReopenSeconds.toInt) ∧
      r.2 = if r.1.failFactor = 0 then cfg.lbReopenSeconds
        else r.1.failFactor * cfg.lbReopenSeconds := by
  rw [getReopenSeconds, if_neg h]
  refine ⟨_, rfl, ?_, ?_, rfl⟩
  · dsimp only
    split_ifs <;> rfl
  · rw [← toInt_maxFactor]
    dsimp only
    split_ifs with hlt
    · exact (min_eq_right hlt.le).symm
    · exact (min_eq_left (not_lt.mp hlt)).symm

/-- The computations are exact if and only if the milliseconds fit. -/
theorem secondsExact_iff : SecondsExact cfg s ↔
    cfg.lbReopenSeconds ≠ 0 ∧
      -2 ^ 31 ≤ secondsOf cfg.lbReopenSeconds.toInt s.failFactor.toInt * 1000 ∧
      secondsOf cfg.lbReopenSeconds.toInt s.failFactor.toInt * 1000 < 2 ^ 31 := by
  unfold SecondsExact
  by_cases hzero : cfg.lbReopenSeconds = 0
  · simp [getReopenSeconds, hzero]
  obtain ⟨r, hr, -, hfactor, hseconds⟩ := getReopenSeconds_some (s := s) hzero
  have hthousand : (1000 : BitVec 32).toInt = 1000 := by decide
  have hms : (r.2 * 1000).toInt = r.2.toInt * 1000 ↔
      -2 ^ 31 ≤ r.2.toInt * 1000 ∧ r.2.toInt * 1000 < 2 ^ 31 := by
    have := Signed.toInt_mul_eq_iff (w := 31) (a := r.2) (b := 1000)
    rwa [hthousand] at this
  have hof : r.1.failFactor.toInt = 0 ↔ r.1.failFactor = 0 := by
    have h0 : (0 : BitVec 32).toInt = 0 := by decide
    rw [← BitVec.toInt_inj, h0]
  unfold secondsOf
  rw [← hfactor]
  by_cases hff : r.1.failFactor = 0
  · rw [if_pos hff] at hseconds
    rw [if_pos (hof.mpr hff), ← hseconds, ← hms]
    constructor
    · rintro ⟨q, hq, -, hexact⟩
      obtain rfl := Option.some.inj (hr.symm.trans hq)
      exact ⟨hseconds ▸ hzero, hexact⟩
    · rintro ⟨-, hexact⟩
      exact ⟨r, hr, fun h => absurd hff h, hexact⟩
  · have hmul : r.2.toInt = r.1.failFactor.toInt * cfg.lbReopenSeconds.toInt ↔
        -2 ^ 31 ≤ r.1.failFactor.toInt * cfg.lbReopenSeconds.toInt ∧
          r.1.failFactor.toInt * cfg.lbReopenSeconds.toInt < 2 ^ 31 := by
      rw [hseconds, if_neg hff]
      exact Signed.toInt_mul_eq_iff (w := 31)
    rw [if_neg fun h => hff (hof.mp h)]
    constructor
    · rintro ⟨q, hq, hfirst, hexact⟩
      obtain rfl := Option.some.inj (hr.symm.trans hq)
      rw [← hfirst hff]
      exact ⟨hzero, hms.mp hexact⟩
    · rintro ⟨-, hlo, hhi⟩
      have hfirst := hmul.mpr (by constructor <;> omega)
      refine ⟨r, hr, fun _ => hfirst, hms.mpr ?_⟩
      rw [hfirst]
      exact ⟨hlo, hhi⟩

/-- The quotient of the cap: a product with it is at least half of what fits. -/
private theorem quot_bounds {n : ℤ} (hlo : 0 < n) (hhi : n < 2 ^ 31) :
    0 < (2 ^ 31 - 1) / n ∧ 2 ^ 30 ≤ (2 ^ 31 - 1) / n * n := by
  have hq : 1 ≤ (2 ^ 31 - 1) / n := (Int.le_ediv_iff_mul_le hlo).mpr (by omega)
  have hmul : 1 * n ≤ (2 ^ 31 - 1) / n * n := Int.mul_le_mul_of_nonneg_right hq hlo.le
  have hlt := Int.lt_ediv_add_one_mul_self (2 ^ 31 - 1) hlo
  rw [Int.add_mul] at hlt
  constructor <;> omega

/-- With a positive setting the milliseconds are those of a factor of 1 to 9999, or do not fit. -/
theorem secondsOf_pos {reopen factor : ℤ} (hlo : 0 < reopen) (hhi : reopen < 2 ^ 31)
    (hfactor : 0 ≤ factor) :
    secondsOf reopen factor * 1000 = 1000 * reopen * max 1 (min factor 9999) ∨
      2 ^ 31 ≤ secondsOf reopen factor * 1000 ∧
        2 ^ 31 ≤ 1000 * reopen * max 1 (min factor 9999) := by
  have hquot : (2 ^ 31 - 1 : ℤ).tdiv reopen = (2 ^ 31 - 1) / reopen :=
    Int.tdiv_eq_ediv_of_nonneg (by decide)
  obtain ⟨hq, hbig⟩ := quot_bounds hlo hhi
  unfold secondsOf capOf
  rw [hquot]
  rcases hfactor.eq_or_lt with rfl | hpos
  · rw [if_pos (by omega), max_eq_left (by omega)]
    omega
  have hm : max 1 (min factor 9999) = min factor 9999 := by omega
  have hcomm : 1000 * reopen * min factor 9999 = min factor 9999 * reopen * 1000 := by
    rw [mul_comm, mul_comm 1000 reopen, mul_assoc]
  rw [if_neg (by omega), hm, hcomm]
  rcases le_or_gt (min factor 9999) ((2 ^ 31 - 1) / reopen) with hle | hgt
  · have hmin : min factor (min ((2 ^ 31 - 1) / reopen) 9999) = min factor 9999 := by omega
    rw [hmin]
    exact Or.inl rfl
  · have hmin : min factor (min ((2 ^ 31 - 1) / reopen) 9999) = (2 ^ 31 - 1) / reopen := by omega
    have hprod : (2 ^ 31 - 1) / reopen * reopen ≤ min factor 9999 * reopen :=
      Int.mul_le_mul_of_nonneg_right hgt.le hlo.le
    rw [hmin]
    omega

theorem capOf_neg {n : ℤ} (hlo : 0 < n) : capOf (-n) = -((2 ^ 31 - 1) / n) := by
  have hquot : (2 ^ 31 - 1 : ℤ).tdiv n = (2 ^ 31 - 1) / n := Int.tdiv_eq_ediv_of_nonneg (by decide)
  have hq : 0 ≤ (2 ^ 31 - 1) / n := Int.ediv_nonneg (by decide) hlo.le
  rw [capOf, Int.tdiv_neg, hquot, min_eq_left (by omega)]

theorem le_capOf (reopen : ℤ) : -2 ^ 31 ≤ capOf reopen := by
  have habs := Int.natAbs_tdiv_le_natAbs (2 ^ 31 - 1) reopen
  unfold capOf
  omega

/-- With a negative setting the cap is negative, and its product with the setting does not fit. -/
theorem secondsOf_neg {reopen factor : ℤ} (hlo : -2 ^ 31 ≤ reopen) (hhi : reopen < 0)
    (hfactor : min 0 (capOf reopen) ≤ factor) :
    ¬ (-2 ^ 31 ≤ secondsOf reopen factor * 1000 ∧ secondsOf reopen factor * 1000 < 2 ^ 31) := by
  obtain ⟨n, rfl⟩ : ∃ n, reopen = -n := ⟨-reopen, by omega⟩
  have hcap := capOf_neg (n := n) (by omega)
  unfold secondsOf
  rw [hcap] at hfactor ⊢
  rcases eq_or_lt_of_le (show n ≤ 2 ^ 31 by omega) with rfl | hlt
  · rw [if_pos (by omega)]
    decide
  · obtain ⟨hq, hbig⟩ := quot_bounds (by omega) hlt
    have hmin : min factor (-((2 ^ 31 - 1) / n)) = -((2 ^ 31 - 1) / n) := by omega
    rw [if_neg (by omega), hmin, neg_mul_neg]
    omega

/-- A factor that ran over gives a product that does not fit. -/
theorem secondsOf_intMin {reopen : ℤ} (h : reopen ≠ 0) :
    ¬ (-2 ^ 31 ≤ secondsOf reopen (-2 ^ 31) * 1000 ∧
      secondsOf reopen (-2 ^ 31) * 1000 < 2 ^ 31) := by
  rw [secondsOf, min_eq_left (le_capOf reopen), if_neg (by decide)]
  omega

end Seconds

section Factors

/-- A factor is never below the cap or zero, unless a count of failures ran over. -/
def FactorOk (cfg : TimeCfg) (s : ReaderStat) : Prop :=
  s.failFactor.toInt = -2 ^ 31 ∨
    min 0 (capOf cfg.lbReopenSeconds.toInt) ≤ s.failFactor.toInt

theorem FactorOk.incFail (s : ReaderStat) : FactorOk cfg (incFail s) := by
  unfold FactorOk NCam.Stat.incFail
  dsimp only
  split_ifs with hle
  · right
    have : (1 : BitVec 32).toInt = 1 := by decide
    omega
  · have hone : (1 : BitVec 32).toInt = 1 := by decide
    have hlt := BitVec.toInt_lt (x := s.failFactor)
    rw [BitVec.toInt_add, hone, Int.bmod_def]
    omega

theorem FactorOk.zero {s : ReaderStat} (h : s.failFactor = 0) : FactorOk cfg s := by
  right
  have : (0 : BitVec 32).toInt = 0 := by decide
  rw [h]
  omega

theorem FactorOk.getReopenSeconds {r : ReaderStat × BitVec 32} (h : FactorOk cfg s)
    (hr : getReopenSeconds cfg s = some r) : FactorOk cfg r.1 := by
  have hzero : cfg.lbReopenSeconds ≠ 0 := by
    intro hzero
    rw [NCam.Stat.getReopenSeconds, if_pos hzero] at hr
    cases hr
  obtain ⟨q, hq, -, hfactor, -⟩ := getReopenSeconds_some (s := s) hzero
  obtain rfl := Option.some.inj (hq.symm.trans hr)
  have hcap := le_capOf cfg.lbReopenSeconds.toInt
  unfold FactorOk at h ⊢
  rw [hfactor]
  omega

theorem FactorOk.apply {t : ReaderStat} (h : FactorOk cfg s) (event : StatEvent)
    (ht : event.apply cfg s = some t) : FactorOk cfg t := by
  cases event with
  | answered rc now =>
    obtain rfl := Option.some.inj ht
    unfold addStat
    dsimp only
    split_ifs
    · exact FactorOk.zero rfl
    · exact FactorOk.incFail _
    · exact h
    · exact h
  | timedOut =>
    obtain rfl := Option.some.inj ht
    exact FactorOk.incFail s
  | tried now maxReopen forceReopen =>
    obtain ⟨q, hq, rfl⟩ := Option.map_eq_some_iff.mp ht
    unfold tryOpenBlockedReader at hq
    split_ifs at hq
    · obtain rfl := Option.some.inj hq
      exact h
    · obtain rfl := Option.some.inj hq
      exact FactorOk.zero rfl
    · obtain ⟨r, hr, rfl⟩ := Option.map_eq_some_iff.mp hq
      have hr' := h.getReopenSeconds hr
      dsimp only
      split_ifs
      · exact hr'
      · exact hr'

theorem Arises.factorOk (h : Arises cfg s) : FactorOk cfg s := by
  obtain ⟨new, hnew, events, hrun⟩ := h
  have hok : FactorOk cfg new := FactorOk.zero hnew
  clear hnew
  induction events generalizing new with
  | nil =>
    obtain rfl := Option.some.inj hrun
    exact hok
  | cons event events ih =>
    rw [List.foldlM_cons] at hrun
    obtain ⟨next, hnext, hrest⟩ := Option.bind_eq_some_iff.mp hrun
    exact ih next hrest (hok.apply event hnext)

end Factors

section Bounds

theorem wait_pos {reopen : ℤ} (h : 0 < reopen) (factor : ℤ) :
    0 < 1000 * reopen * max 1 (min factor 9999) :=
  Int.mul_pos (by omega) (by omega)

theorem toInt_lbReopenSeconds_lt (cfg : TimeCfg) : cfg.lbReopenSeconds.toInt < 2 ^ 31 := BitVec.toInt_lt

/-- The computations are exact if and only if setting and factor are in their bounds. -/
theorem FactorOk.secondsExact_iff (h : FactorOk cfg s) : SecondsExact cfg s ↔
    0 < cfg.lbReopenSeconds.toInt ∧ 0 ≤ s.failFactor.toInt ∧
      1000 * cfg.lbReopenSeconds.toInt * max 1 (min s.failFactor.toInt 9999) < 2 ^ 31 := by
  have hlo : -2 ^ 31 ≤ cfg.lbReopenSeconds.toInt := BitVec.le_toInt _
  have hhi := toInt_lbReopenSeconds_lt cfg
  have h0 : (0 : BitVec 32).toInt = 0 := by decide
  have hne : cfg.lbReopenSeconds ≠ 0 ↔ cfg.lbReopenSeconds.toInt ≠ 0 := by
    rw [ne_eq, ← BitVec.toInt_inj, h0]
  rw [NCam.Stat.secondsExact_iff, hne]
  rcases lt_trichotomy cfg.lbReopenSeconds.toInt 0 with hneg | hzero | hpos
  · rcases h with h | h
    · rw [h]
      have := secondsOf_intMin hneg.ne
      omega
    · have := secondsOf_neg hlo hneg h
      omega
  · omega
  · rcases h with h | h
    · rw [h]
      have := secondsOf_intMin hpos.ne'
      omega
    · have hcap : 0 ≤ capOf cfg.lbReopenSeconds.toInt :=
        le_min (Int.tdiv_nonneg (by decide) hpos.le) (by decide)
      have hwait := wait_pos hpos s.failFactor.toInt
      rcases secondsOf_pos hpos hhi (show 0 ≤ s.failFactor.toInt by omega) with heq | hbig
      · rw [heq]
        omega
      · omega

theorem SecondsExact.reopens_iff (h : SecondsExact cfg s) (now : Timeb) :
    Reopens cfg now s ↔ secondsOf cfg.lbReopenSeconds.toInt s.failFactor.toInt * 1000 <
      (compTimeb now s.lastReceived).toInt := by
  obtain ⟨hne, -⟩ := secondsExact_iff.mp h
  obtain ⟨r, hr, hmul, hms⟩ := h
  obtain ⟨q, hq, hlast, hfactor, hseconds⟩ := getReopenSeconds_some (s := s) hne
  obtain rfl := Option.some.inj (hr.symm.trans hq)
  have h0 : (0 : BitVec 32).toInt = 0 := by decide
  have hvalue : r.2.toInt = secondsOf cfg.lbReopenSeconds.toInt s.failFactor.toInt := by
    unfold secondsOf
    rw [← hfactor]
    by_cases hff : r.1.failFactor = 0
    · rw [hseconds, if_pos hff, hff, if_pos h0]
    · rw [hmul hff, if_neg]
      rw [← h0, BitVec.toInt_inj]
      exact hff
  unfold Reopens due
  rw [hr]
  simp only [Option.mem_def, Option.some.injEq, exists_eq_left', decide_eq_true_eq, hlast]
  rw [hms, hvalue]

/-- After a count of failures ran over the reader is not blocked at all. -/
theorem reopens_of_intMin (hreopen : cfg.lbReopenSeconds ≠ 0) (h : s.failFactor.toInt = -2 ^ 31)
    {now : Timeb} (hgone : 0 < (compTimeb now s.lastReceived).toInt) : Reopens cfg now s := by
  obtain ⟨r, hr, hlast, hfactor, hseconds⟩ := getReopenSeconds_some (s := s) hreopen
  rw [h, min_eq_left (le_capOf _)] at hfactor
  have hmin : r.1.failFactor = BitVec.intMin 32 := by
    rw [← BitVec.toInt_inj, hfactor]
    decide
  have hthousand : BitVec.intMin 32 * 1000 = 0 := by decide
  have hms : r.2 * 1000 = 0 := by
    rw [hseconds, hmin, if_neg (by decide), BitVec.mul_comm, ← BitVec.mul_assoc,
      BitVec.mul_comm 1000, hthousand]
    exact BitVec.zero_mul
  refine ⟨r, hr, ?_⟩
  have h0 : (0 : BitVec 32).toInt = 0 := by decide
  rw [due, hms, hlast, h0, decide_eq_true_eq]
  exact hgone

theorem cleanupTimeout_iff (lbStatCleanup : BitVec 32) :
    (cleanupTimeout lbStatCleanup).toInt = lbStatCleanup.toInt * 3600000 ↔
      -596 ≤ lbStatCleanup.toInt ∧ lbStatCleanup.toInt ≤ 596 := by
  have hconst : (60 * (60 * 1000) : BitVec 32).toInt = 3600000 := by decide
  have := Signed.toInt_mul_eq_iff (w := 31) (a := lbStatCleanup) (b := 60 * (60 * 1000))
  rw [hconst] at this
  rw [cleanupTimeout, BitVec.mul_assoc, BitVec.mul_assoc, this]
  omega

/-- An entry leaves one of the lists when it is too old for it, or has no `ecmlen`. -/
theorem dropped_iff {old : ReaderStat} (hold : old ∈ rdr.lbStat) :
    old ∉ keptStats ts cfg.lbStatCleanup rdr ∨ old ∉ housekeptStats ts cfg.lbStatCleanup rdr ↔
      (cleanupTimeout cfg.lbStatCleanup).toInt < (compTimeb ts old.lastReceived).toInt ∨
        old.ecmlen = 0 := by
  unfold keptStats housekeptStats
  simp only [List.mem_filter, hold, true_and, decide_not, Bool.not_eq_true', decide_eq_false_iff_not,
    not_not]
  tauto

end Bounds

/-- The load balancer's times are right for an entry if and only if the settings and the entry's fail
factor are in their bounds. -/
theorem reopenTimes_iff (h : Arises cfg s) : TimesRight cfg s rdr ts ↔ InBounds cfg s rdr ts := by
  have hok := h.factorOk
  constructor
  · intro ht
    obtain ⟨hreopen, hfactor, hwait⟩ := hok.secondsExact_iff.mp ht.seconds
    refine ⟨hreopen, hfactor, hwait, (cleanupTimeout_iff _).mp ht.hours, fun old hold hlen => ?_⟩
    exact ht.kept old hold ((dropped_iff hold).mpr (Or.inr hlen))
  · intro hb
    have hexact := hok.secondsExact_iff.mpr ⟨hb.reopen, hb.factor, hb.wait⟩
    have hhours := (cleanupTimeout_iff _).mpr hb.hours
    have hhi := toInt_lbReopenSeconds_lt cfg
    have hpos := wait_pos hb.reopen s.failFactor.toInt
    have hwait := hb.wait
    have hms : secondsOf cfg.lbReopenSeconds.toInt s.failFactor.toInt * 1000 =
        1000 * cfg.lbReopenSeconds.toInt * max 1 (min s.failFactor.toInt 9999) := by
      rcases secondsOf_pos hb.reopen hhi hb.factor with heq | hbig
      · exact heq
      · omega
    refine ⟨hexact, hhours, fun other hother hle now now' hgone hopen => ?_, fun old hold hgo => ?_⟩
    · rw [hexact.reopens_iff, hms] at hopen
      rcases hother.factorOk with hmin | hlow
      · -- the smaller factor ran over
        refine reopens_of_intMin (fun hzero => ?_) hmin (by omega)
        have hr := hb.reopen
        rw [hzero] at hr
        exact absurd hr (by decide)
      · have hcap : 0 ≤ capOf cfg.lbReopenSeconds.toInt :=
          le_min (Int.tdiv_nonneg (by decide) hb.reopen.le) (by decide)
        have hnonneg : 0 ≤ other.failFactor.toInt := by omega
        have hmono : 1000 * cfg.lbReopenSeconds.toInt * max 1 (min other.failFactor.toInt 9999) ≤
            1000 * cfg.lbReopenSeconds.toInt * max 1 (min s.failFactor.toInt 9999) :=
          Int.mul_le_mul_of_nonneg_left (by omega) (by have := hb.reopen; omega)
        have hother' := hother.factorOk.secondsExact_iff.mpr ⟨hb.reopen, hnonneg, by omega⟩
        rw [hother'.reopens_iff]
        rcases secondsOf_pos hb.reopen hhi hnonneg with heq | hbig
        · omega
        · omega
    · rcases (dropped_iff hold).mp hgo with hold' | hlen
      · rwa [hhours] at hold'
      · exact hb.ecmlen old hold hlen

theorem Arises.apply {t : ReaderStat} (h : Arises cfg s) (event : StatEvent)
    (ht : event.apply cfg s = some t) : Arises cfg t := by
  obtain ⟨new, hnew, events, hrun⟩ := h
  refine ⟨new, hnew, events ++ [event], ?_⟩
  rw [List.foldlM_append, hrun]
  change List.foldlM (StatEvent.apply cfg) s [event] = _
  rw [List.foldlM_cons, ht]
  rfl

/-- Every factor is reached by failing that often. -/
theorem arises_failures (cfg : TimeCfg) (s : ReaderStat) (n : ℕ) (hn : n < 2 ^ 31) :
    Arises cfg { s with failFactor := BitVec.ofNat 32 n } := by
  induction n with
  | zero => exact ⟨_, rfl, [], rfl⟩
  | succ n ih =>
    have htoInt : (BitVec.ofNat 32 n).toInt = n := by
      rw [BitVec.toInt_eq_toNat_of_lt, BitVec.toNat_ofNat, Nat.mod_eq_of_lt (by omega)]
      rw [BitVec.toNat_ofNat, Nat.mod_eq_of_lt (by omega)]
      omega
    have hinc : incFail { s with failFactor := BitVec.ofNat 32 n } =
        { s with failFactor := BitVec.ofNat 32 (n + 1) } := by
      unfold incFail
      dsimp only
      split_ifs with hle
      · have hzero : n = 0 := by omega
        rw [hzero]
        rfl
      · rw [BitVec.ofNat_add]
        rfl
    have := (ih (by omega)).apply .timedOut rfl
    rwa [hinc] at this

/-- A new entry for ECMs of 16 bytes. -/
def newStat : ReaderStat := ⟨0, 0x0500, 0, 1, 0, 16, ⟨0, 0⟩, 0, 0, 0⟩

/-- A reader with that entry. -/
def statReader : Reader := ⟨⟨['r'], by decide, by decide, by decide⟩, [newStat]⟩

/-- Twenty failures with the default settings. -/
theorem reopenTimes_iff_twenty : TimesRight ⟨30, true, false, 10⟩
    { newStat with failFactor := BitVec.ofNat 32 20 } statReader ⟨60, 0⟩ :=
  (reopenTimes_iff (arises_failures _ newStat 20 (by decide))).mpr
    ⟨by decide, by decide, by decide, by decide, by decide⟩

/-- A setting of 900 seconds with 2387 failures in a row, and statistics to be kept for 597 hours. -/
theorem reopenTimes_wrong :
    (Arises ⟨900, true, false, 10⟩ { newStat with failFactor := BitVec.ofNat 32 2387 } ∧
      ¬ TimesRight ⟨900, true, false, 10⟩ { newStat with failFactor := BitVec.ofNat 32 2387 }
        statReader ⟨60, 0⟩) ∧
    Arises ⟨30, true, false, 597⟩ newStat ∧
      ¬ TimesRight ⟨30, true, false, 597⟩ newStat statReader ⟨60, 0⟩ := by
  refine ⟨⟨arises_failures _ newStat 2387 (by decide), fun ht => ?_⟩,
    arises_failures _ newStat 0 (by decide), fun ht => ?_⟩
  · exact absurd (secondsExact_iff.mp ht.seconds) (by decide)
  · exact absurd ht.hours (by decide)

end NCam.Stat
