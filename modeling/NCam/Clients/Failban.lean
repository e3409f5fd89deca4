import Mathlib.Algebra.Order.Ring.Int
import NCam.Lib.Transition

/-! Failban: addresses with violations are kept in a list and refused until their time is over. -/
namespace NCam.Failban

open NCam.Lib

structure Config where
  failbantime : ℤ
  failbancount : ℤ
  acoscEnabled : Bool

/-- `V_BAN`; times are in milliseconds. -/
structure VBan (Ip : Type*) where
  vCount : ℤ
  vIp : Ip
  vPort : ℤ
  vTime : ℤ
  acoscEntry : Bool
  acoscPenaltyDur : ℤ

/-- `cfg.failbantime * 60 * 1000` in 32 bits. -/
def Config.ftime (cfg : Config) : ℤ := (cfg.failbantime * 60 * 1000).bmod (2 ^ 32)

section Model

variable {Ip : Type*} [DecidableEq Ip]

def VBan.outOfTime (cfg : Config) (now : ℤ) (entry : VBan Ip) : Bool :=
  let gone := now - entry.vTime
  (gone ≥ cfg.ftime && !entry.acoscEntry) || (entry.acoscEntry && gone.tdiv 1000 ≥ entry.acoscPenaltyDur)

/-- The loop of `cs_check_v` with its `result`. -/
def checkLoop (cfg : Config) (ip : Ip) (port : ℤ) (add : Bool) (now : ℤ) :
    List (VBan Ip) → Bool → List (VBan Ip) × Bool
  | [], result => ([], result)
  | entry :: entries, result =>
    if entry.outOfTime cfg now then checkLoop cfg ip port add now entries result
    else if ip = entry.vIp ∧ port = entry.vPort then
      let entry := if !add ∧ ¬ entry.vCount ≥ cfg.failbancount then { entry with vCount := entry.vCount + 1 } else entry
      let r := checkLoop cfg ip port add now entries true
      (entry :: r.1, r.2)
    else
      let r := checkLoop cfg ip port add now entries result
      (entry :: r.1, r.2)

/-- The clock is read a second time, as `vTime`, for a new entry. -/
def csCheckV (cfg : Config) (vList : List (VBan Ip)) (ip : Ip) (port : ℤ) (add : Bool)
    (acoscPenaltyDuration now vTime : ℤ) : List (VBan Ip) × Bool :=
  if ¬ (cfg.failbantime ≠ 0 ∨ cfg.acoscEnabled) then (vList, false)
  else
    let r := checkLoop cfg ip port add now vList false
    if add ∧ ¬ r.2 then
      let entry : VBan Ip := ⟨1, ip, port, vTime, false, 0⟩
      let entry := if acoscPenaltyDuration > 0 then
        { entry with
          vCount := cfg.failbancount + 1
          acoscEntry := true
          acoscPenaltyDur := acoscPenaltyDuration }
      else entry
      (r.1 ++ [entry], r.2)
    else r

def csCheckViolation (cfg : Config) (vList : List (VBan Ip)) (ip : Ip) (port now : ℤ) : List (VBan Ip) × Bool :=
  csCheckV cfg vList ip port false 0 now now

def csAddViolationByIp (cfg : Config) (vList : List (VBan Ip)) (ip : Ip) (port now vTime : ℤ) :
    List (VBan Ip) × Bool := csCheckV cfg vList ip port true 0 now vTime

def csAddViolationByIpAcosc (cfg : Config) (vList : List (VBan Ip)) (ip : Ip)
    (port acoscPenaltyDuration now vTime : ℤ) :
    List (VBan Ip) × Bool := csCheckV cfg vList ip port true acoscPenaltyDuration now vTime

/-- A call with the times it reads. -/
inductive Call (Ip : Type*)
  | check (ip : Ip) (port now : ℤ)
  | add (ip : Ip) (port now vTime : ℤ)
  | addAcosc (ip : Ip) (port acoscPenaltyDuration now vTime : ℤ)

def Call.run (cfg : Config) (vList : List (VBan Ip)) : Call Ip → List (VBan Ip)
  | .check ip port now => (csCheckViolation cfg vList ip port now).1
  | .add ip port now vTime => (csAddViolationByIp cfg vList ip port now vTime).1
  | .addAcosc ip port dur now vTime => (csAddViolationByIpAcosc cfg vList ip port dur now vTime).1

/-- The list of entries under any calls. -/
def system (cfg : Config) : System (List (VBan Ip)) (Call Ip) where
  init vList := vList = []
  next vList call := some (call.run cfg vList)

/-- Violations are added without a penalty of their own. -/
def Plain (_ : List (VBan Ip)) : Call Ip → Prop
  | .addAcosc .. => False
  | _ => True

/-- The time of an entry is over, counted in whole numbers. -/
def VBan.Expired (cfg : Config) (now : ℤ) (entry : VBan Ip) : Prop :=
  if entry.acoscEntry then entry.acoscPenaltyDur ≤ (now - entry.vTime).tdiv 1000
  else cfg.failbantime * 60000 ≤ now - entry.vTime

def VBan.Is (ip : Ip) (port : ℤ) (entry : VBan Ip) : Prop := ip = entry.vIp ∧ port = entry.vPort

instance (ip : Ip) (port : ℤ) (entry : VBan Ip) : Decidable (entry.Is ip port) := instDecidableAnd

/-- What the list is for: the addresses with enough violations are refused, each one by its only entry. -/
structure Correct (cfg : Config) (vList : List (VBan Ip)) : Prop where
  banned : ∀ ip port now, (csCheckViolation cfg vList ip port now).2 = true ↔
    ∃ entry ∈ vList, entry.Is ip port ∧ ¬ entry.Expired cfg now ∧ cfg.failbancount ≤ entry.vCount
  unique : vList.Pairwise fun entry entry' => ¬ entry'.Is entry.vIp entry.vPort

/-- Failban is off, or the first violation is enough and its time fits into 32 bits. -/
def Config.Exact (cfg : Config) : Prop :=
  (cfg.failbantime = 0 ∧ cfg.acoscEnabled = false) ∨
    (cfg.failbancount ≤ 1 ∧ -2 ^ 31 ≤ cfg.failbantime * 60000 ∧ cfg.failbantime * 60000 < 2 ^ 31)

end Model

section Loop

variable {Ip : Type*} [DecidableEq Ip] {cfg : Config} {ip : Ip} {port now : ℤ} {add result : Bool}
  {vList : List (VBan Ip)} {entry : VBan Ip}

/-- What a call does to an entry that stays. -/
def VBan.touched (cfg : Config) (ip : Ip) (port : ℤ) (add : Bool) (entry : VBan Ip) : VBan Ip :=
  if entry.Is ip port ∧ (!add ∧ ¬ entry.vCount ≥ cfg.failbancount) then { entry with vCount := entry.vCount + 1 }
  else entry

/-- The loop drops what is out of time, counts a check, and looks for an entry of the address. -/
theorem checkLoop_eq : checkLoop cfg ip port add now vList result =
    ((vList.filter fun entry => !entry.outOfTime cfg now).map (VBan.touched cfg ip port add),
      result || vList.any fun entry => !entry.outOfTime cfg now && decide (entry.Is ip port)) := by
  induction vList generalizing result with
  | nil => simp [checkLoop]
  | cons entry entries ih =>
    unfold checkLoop
    rw [List.filter_cons, List.any_cons]
    cases hout : entry.outOfTime cfg now with
    | true =>
      rw [if_pos rfl, ih]
      simp
    | false =>
      rw [if_neg Bool.false_ne_true, ih, ih]
      by_cases his : ip = entry.vIp ∧ port = entry.vPort
      · have hmine : entry.Is ip port := his
        rw [if_pos his]
        simp [VBan.touched, hmine]
      · have hother : ¬ entry.Is ip port := his
        rw [if_neg his]
        simp [VBan.touched, hother]

theorem touched_key : (entry.touched cfg ip port add).vIp = entry.vIp ∧
    (entry.touched cfg ip port add).vPort = entry.vPort := by
  unfold VBan.touched
  split_ifs <;> exact ⟨rfl, rfl⟩

theorem vCount_touched : entry.vCount ≤ (entry.touched cfg ip port add).vCount := by
  unfold VBan.touched
  split_ifs
  · change entry.vCount ≤ entry.vCount + 1
    omega
  · exact Int.le_refl _

/-- In 32 bits the time is the one that is meant as long as it fits. -/
theorem ftime_eq_iff : cfg.ftime = cfg.failbantime * 60000 ↔
    -2 ^ 31 ≤ cfg.failbantime * 60000 ∧ cfg.failbantime * 60000 < 2 ^ 31 := by
  have hmul : cfg.failbantime * 60 * 1000 = cfg.failbantime * 60000 := by omega
  unfold Config.ftime
  rw [hmul]
  constructor
  · intro h
    have hlo := Int.le_bmod (x := cfg.failbantime * 60000) (m := 2 ^ 32) (by decide)
    have hhi := Int.bmod_lt (x := cfg.failbantime * 60000) (m := 2 ^ 32) (by decide)
    omega
  · rintro ⟨hlo, hhi⟩
    exact Int.bmod_eq_of_le (by omega) (by omega)

omit [DecidableEq Ip] in
theorem outOfTime_iff (hfits : cfg.ftime = cfg.failbantime * 60000) :
    entry.outOfTime cfg now = true ↔ entry.Expired cfg now := by
  unfold VBan.outOfTime VBan.Expired
  rw [hfits]
  cases entry.acoscEntry <;> simp

end Loop

section Runs

variable {Ip : Type*} [DecidableEq Ip] {cfg : Config} {ip : Ip} {port now vTime dur : ℤ} {add : Bool}
  {vList : List (VBan Ip)} {entry : VBan Ip} {call : Call Ip}

/-- What a call does where failban is on: it keeps the entries that are not out of time, and may add one for an
address that has none. -/
private theorem csCheckV_cases (hactive : cfg.failbantime ≠ 0 ∨ cfg.acoscEnabled = true) :
    (csCheckV cfg vList ip port add dur now vTime).1 =
        (vList.filter fun entry => !entry.outOfTime cfg now).map (VBan.touched cfg ip port add) ∨
      ((∀ entry ∈ vList.filter fun entry => !entry.outOfTime cfg now, ¬ entry.Is ip port) ∧
        ∃ entry : VBan Ip, entry.Is ip port ∧ (entry.vCount = 1 ∨ entry.vCount = cfg.failbancount + 1) ∧
          (csCheckV cfg vList ip port add dur now vTime).1 =
            (vList.filter fun entry => !entry.outOfTime cfg now).map (VBan.touched cfg ip port add) ++ [entry]) := by
  have hnone : ¬ (vList.any fun entry => !entry.outOfTime cfg now && decide (entry.Is ip port)) = true →
      ∀ entry ∈ vList.filter fun entry => !entry.outOfTime cfg now, ¬ entry.Is ip port := by
    intro hnot entry hentry his
    obtain ⟨hmem, hin⟩ := List.mem_filter.mp hentry
    apply hnot
    rw [List.any_eq_true]
    exact ⟨entry, hmem, by rw [hin, decide_eq_true his]; rfl⟩
  unfold csCheckV
  rw [if_neg (not_not.mpr hactive), checkLoop_eq, Bool.false_or]
  dsimp only
  split_ifs with hadd hdur
  · exact Or.inr ⟨hnone hadd.2, _, ⟨rfl, rfl⟩, Or.inr rfl, rfl⟩
  · exact Or.inr ⟨hnone hadd.2, _, ⟨rfl, rfl⟩, Or.inl rfl, rfl⟩
  · exact Or.inl rfl

/-- No address has two entries, and every entry has its violation. -/
structure Invariant (cfg : Config) (vList : List (VBan Ip)) : Prop where
  unique : vList.Pairwise fun entry entry' => ¬ entry'.Is entry.vIp entry.vPort
  count : ∀ entry ∈ vList, 1 ≤ entry.vCount ∨ cfg.failbancount ≤ entry.vCount
  off : ¬ (cfg.failbantime ≠ 0 ∨ cfg.acoscEnabled = true) → vList = []

private theorem run_eq : ∃ ip port add dur now vTime,
    call.run cfg vList = (csCheckV cfg vList ip port add dur now vTime).1 := by
  cases call with
  | check ip port now => exact ⟨ip, port, false, 0, now, now, rfl⟩
  | add ip port now vTime => exact ⟨ip, port, true, 0, now, vTime, rfl⟩
  | addAcosc ip port dur now vTime => exact ⟨ip, port, true, dur, now, vTime, rfl⟩

private theorem Invariant.kept (h : Invariant cfg vList) (hactive : cfg.failbantime ≠ 0 ∨ cfg.acoscEnabled = true) :
    Invariant cfg ((vList.filter fun entry => !entry.outOfTime cfg now).map (VBan.touched cfg ip port add)) := by
  refine ⟨?_, fun entry hentry => ?_, fun hoff => absurd hactive hoff⟩
  · rw [List.pairwise_map]
    refine (h.unique.filter _).imp fun {entry entry'} hne => ?_
    unfold VBan.Is at hne ⊢
    rw [touched_key.1, touched_key.2, touched_key.1, touched_key.2]
    exact hne
  · obtain ⟨entry, hmem, rfl⟩ := List.mem_map.mp hentry
    have hle := @vCount_touched _ _ cfg ip port add entry
    rcases h.count entry (List.mem_of_mem_filter hmem) with hone | hcount
    · exact Or.inl (by omega)
    · exact Or.inr (by omega)

/-- Every call keeps the invariant. -/
theorem Invariant.run (h : Invariant cfg vList) : Invariant cfg (call.run cfg vList) := by
  obtain ⟨ip, port, add, dur, now, vTime, hrun⟩ := @run_eq _ _ cfg vList call
  rw [hrun]
  by_cases hactive : cfg.failbantime ≠ 0 ∨ cfg.acoscEnabled = true
  · have hkept := @Invariant.kept _ _ cfg ip port now add vList h hactive
    rcases @csCheckV_cases _ _ cfg ip port now vTime dur add vList hactive with hsame | ⟨hnone, new, his, hone, hnew⟩
    · rw [hsame]
      exact hkept
    · rw [hnew]
      refine ⟨?_, fun entry hentry => ?_, fun hoff => absurd hactive hoff⟩
      · rw [List.pairwise_append]
        refine ⟨hkept.unique, List.pairwise_singleton _ _, fun entry hentry entry' hentry' hsame => ?_⟩
        obtain ⟨old, hold, rfl⟩ := List.mem_map.mp hentry
        rw [List.mem_singleton.mp hentry'] at hsame
        apply hnone old hold
        obtain ⟨hip, hport⟩ := hsame
        rw [touched_key.1] at hip
        rw [touched_key.2] at hport
        exact ⟨his.1.trans hip.symm, his.2.trans hport.symm⟩
      · rcases List.mem_append.mp hentry with hold | hentry
        · exact hkept.count entry hold
        · rw [List.mem_singleton.mp hentry]
          omega
  · unfold csCheckV
    rw [if_pos hactive]
    exact h

theorem Invariant.reachable {guard : List (VBan Ip) → Call Ip → Prop}
    (h : (system cfg).Reachable guard vList) : Invariant cfg vList := by
  refine h.invariant (I := Invariant cfg) (fun vList hinit => ?_) fun vList call vList' hinv _ hnext => ?_
  · change vList = [] at hinit
    rw [hinit]
    exact ⟨List.Pairwise.nil, fun entry hentry => absurd hentry List.not_mem_nil, fun _ => rfl⟩
  · rw [← Option.some.inj hnext]
    exact hinv.run

/-- The answer of a check where failban is on: there is an entry that is not out of time, however many violations
it has. -/
private theorem check_iff (hactive : cfg.failbantime ≠ 0 ∨ cfg.acoscEnabled = true) :
    (csCheckViolation cfg vList ip port now).2 = true ↔
      ∃ entry ∈ vList, entry.Is ip port ∧ ¬ entry.outOfTime cfg now = true := by
  unfold csCheckViolation csCheckV
  rw [if_neg (not_not.mpr hactive), checkLoop_eq]
  dsimp only
  rw [if_neg (by simp), Bool.false_or, List.any_eq_true]
  simp [and_comm]

/-- Where the settings are exact, so is every answer. -/
theorem Config.Exact.correct (hexact : cfg.Exact) (h : Invariant cfg vList) : Correct cfg vList := by
  refine ⟨fun ip port now => ?_, h.unique⟩
  by_cases hactive : cfg.failbantime ≠ 0 ∨ cfg.acoscEnabled = true
  · rcases hexact with ⟨htime, hacosc⟩ | ⟨hcount, hfits⟩
    · rw [htime, hacosc] at hactive
      simp at hactive
    · rw [check_iff hactive]
      have hout : ∀ entry : VBan Ip, entry.outOfTime cfg now = true ↔ entry.Expired cfg now :=
        fun entry => outOfTime_iff (ftime_eq_iff.mpr hfits)
      constructor
      · rintro ⟨entry, hentry, his, hin⟩
        rw [hout] at hin
        have hone := h.count entry hentry
        exact ⟨entry, hentry, his, hin, by omega⟩
      · rintro ⟨entry, hentry, his, hin, -⟩
        rw [← hout] at hin
        exact ⟨entry, hentry, his, hin⟩
  · rw [h.off hactive]
    unfold csCheckViolation csCheckV
    rw [if_pos hactive]
    simp

/-- One violation at time 0. -/
private theorem reachable_one [Inhabited Ip] (hactive : cfg.failbantime ≠ 0 ∨ cfg.acoscEnabled = true) :
    (system cfg).Reachable Plain [(⟨1, default, 0, 0, false, 0⟩ : VBan Ip)] := by
  have hnext : (system cfg).next [] (.add (default : Ip) 0 0 0) = some [⟨1, default, 0, 0, false, 0⟩] := by
    change some (csCheckV cfg [] (default : Ip) 0 true 0 0 0).1 = _
    unfold csCheckV
    rw [if_neg (not_not.mpr hactive)]
    rfl
  have hplain : Plain [] (.add (default : Ip) 0 0 0) := trivial
  exact .step (.init rfl) hplain hnext

/-- Failban refuses the addresses that it should in every run exactly with the settings that are exact. -/
theorem csCheckViolation_correct [Inhabited Ip] (cfg : Config) :
    (∀ vList : List (VBan Ip), (system cfg).Reachable Plain vList → Correct cfg vList) ↔ cfg.Exact := by
  constructor
  · intro h
    by_cases hactive : cfg.failbantime ≠ 0 ∨ cfg.acoscEnabled = true
    · have hone : ∀ now, now < cfg.ftime ↔ now < cfg.failbantime * 60000 ∧ cfg.failbancount ≤ 1 := by
        intro now
        have hcheck := (h _ (reachable_one hactive)).banned default 0 now
        rw [check_iff hactive] at hcheck
        simpa [VBan.outOfTime, VBan.Expired, VBan.Is] using hcheck
      obtain ⟨-, hcount⟩ := (hone (cfg.ftime - 1)).mp (by omega)
      right
      refine ⟨hcount, ftime_eq_iff.mp ?_⟩
      have hlow := (hone (cfg.ftime - 1)).mp (by omega)
      have hhigh := (hone (cfg.failbantime * 60000 - 1)).mpr ⟨by omega, hcount⟩
      omega
    · left
      rw [not_or, not_not, Bool.not_eq_true] at hactive
      exact hactive
  · exact fun hexact vList hreach => hexact.correct (.reachable hreach)

/-- With three chances an address is refused after the first violation. -/
theorem refused_early : ¬ ∀ (cfg : Config) (vList : List (VBan (BitVec 32))), (system cfg).Reachable Plain vList →
    Correct cfg vList := by
  intro h
  have hactive : (⟨10, 3, false⟩ : Config).failbantime ≠ 0 ∨ (⟨10, 3, false⟩ : Config).acoscEnabled = true :=
    Or.inl (by decide)
  have hcorrect := h ⟨10, 3, false⟩ _ (reachable_one hactive)
  have hcheck : (csCheckViolation ⟨10, 3, false⟩ [(⟨1, 0, 0, 0, false, 0⟩ : VBan (BitVec 32))] 0 0 1000).2 = true := by
    decide +kernel
  obtain ⟨entry, hentry, -, -, hcount⟩ := (hcorrect.banned 0 0 1000).mp hcheck
  rw [List.mem_singleton.mp hentry] at hcount
  exact absurd hcount (by decide)

end Runs

end NCam.Failban
