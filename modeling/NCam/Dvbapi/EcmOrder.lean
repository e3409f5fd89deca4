import Mathlib.Data.List.Perm.Subperm
import NCam.Dvbapi.EcmPids
import NCam.Lib.Signed

/-! Which ECM pids `dvbapi_resort_ecmpids` ignores, and in which order it puts those that the rules name. -/
namespace NCam.Dvbapi.EcmPids

open NCam.Conf NCam.Lib

section Statement

variable {ρ : Type*} (cfg : Setup ρ) (d : Demux)

/-- A `p` rule matches the pid. -/
def Priority.takes (prio : Priority) (n : ℕ) : Bool :=
  prio.type = .p ∧ prio.names cfg d n (d.ecmpids n).toEcmInfo ∧
    (prio.cadata = 0 ∨ prio.cadata = (d.ecmpids n).cadata)

/-- An `i` rule for all chids matches the pid. -/
def Priority.drops (prio : Priority) (n : ℕ) : Bool :=
  prio.type = .i ∧ prio.names cfg d n (d.ecmpids n).toEcmInfo ∧ prio.chid = 0x10000

/-- No rule that is forced. -/
def NoForced : Prop := ∀ prio ∈ cfg.priority, prio.type = .p → prio.force = 0

/-- The service at place `k` is deselected and matches the pid. -/
def Deselects (k n : ℕ) : Prop :=
  ∃ sidtab, cfg.sidtab[k]? = some sidtab ∧ sidtab.hasEntries = true ∧
    cfg.sidtabs.no &&& cfg.shift.bit k ≠ 0 ∧
      chkSrvidMatch (cfg.ask d (d.ecmpids n).toEcmInfo).toSrvRequest sidtab = true

/-- The service at place `k` is selected and matches the pid. -/
def Selects (k n : ℕ) : Prop :=
  ∃ sidtab, cfg.sidtab[k]? = some sidtab ∧ sidtab.hasEntries = true ∧
    cfg.sidtabs.ok &&& cfg.shift.bit k ≠ 0 ∧
      chkSrvidMatch (cfg.ask d (d.ecmpids n).toEcmInfo).toSrvRequest sidtab = true

/-- No reader matches the pid. -/
def NoReader (n : ℕ) : Prop :=
  ∀ rdr ∈ cfg.readers, cfg.matchingReader (cfg.ask d (d.ecmpids n).toEcmInfo) rdr = false

/-- The first rule that decides about the pid. -/
def firstRule (n : ℕ) : Option Priority :=
  cfg.priority.find? fun prio => prio.takes cfg d n || prio.drops cfg d n

/-- The pid is ignored: by a rule, without a reader, or by a service. -/
def Ignored (n : ℕ) : Prop :=
  (∃ prio, firstRule cfg d n = some prio ∧ prio.drops cfg d n = true) ∨ NoReader cfg d n ∨
    ∃ k, Deselects cfg d k n

/-- A `p` rule matches the pid. -/
def Matched (n : ℕ) : Prop := ∃ prio ∈ cfg.priority, prio.takes cfg d n = true

/-- The place of the first `p` rule that matches the pid. -/
def ruleOf (n : ℕ) : ℕ := cfg.priority.findIdx fun prio => prio.takes cfg d n

/-- The rules match `n` before `m`, or do not name `m`. -/
def Before (n m : ℕ) : Prop :=
  Ignored cfg d m ∨ ¬ Matched cfg d m ∨ ruleOf cfg d n < ruleOf cfg d m ∨
    ruleOf cfg d n = ruleOf cfg d m ∧ n < m

/-- The demuxer after a resort and calls of `dvbapi_try_next_caid` for the run with priorities. -/
def tried (requestmode : ℤ) (calls : List (ℕ → Start)) : Demux :=
  calls.foldl (fun d starts => (tryNextCaid requestmode 0 starts d).2) (resortEcmpids cfg d)

/-- The pids are in the order of the rules. -/
structure Sorted : Prop where
  ignored : ∀ n < d.ecmpidcount, NoReader cfg d n ∨ (∃ k, Deselects cfg d k n) →
    ((resortEcmpids cfg d).ecmpids n).status = -1
  ranked : cfg.preferlocalcards = 0 → (∀ k < cfg.sidtab.length, cfg.sidtabs.ok &&& cfg.shift.bit k = 0) →
    ∀ n < d.ecmpidcount, Matched cfg d n → ¬ Ignored cfg d n →
      0 < ((resortEcmpids cfg d).ecmpids n).status.toInt ∧ ((resortEcmpids cfg d).ecmpids n).checked = 0 ∧
        ∀ m < d.ecmpidcount, Before cfg d n m →
          ((resortEcmpids cfg d).ecmpids m).status.toInt < ((resortEcmpids cfg d).ecmpids n).status.toInt
  /-- A pid is tried only after those before it that still wait. -/
  inTurn : cfg.preferlocalcards = 0 → (∀ k < cfg.sidtab.length, cfg.sidtabs.ok &&& cfg.shift.bit k = 0) →
    ∀ requestmode calls starts, ∀ n < d.ecmpidcount, Matched cfg d n → ¬ Ignored cfg d n →
      ((tried cfg d requestmode calls).ecmpids n).checked = 0 →
        let tries := (tryNextCaid requestmode 0 starts (tried cfg d requestmode calls)).1
        (∀ l₁ m l₂, tries = l₁ ++ m :: l₂ → Before cfg d n m → n ∈ l₁) ∧
          (n ∈ tries ∨ requestmode = 0 ∧ ∃ m ∈ tries, starts m = .started)

/-- A pid that a deselected service matches has no selected one that matches behind all of those. -/
def KeepsDeselected : Prop :=
  ∀ n < d.ecmpidcount, ¬ NoReader cfg d n →
    (∀ prio, firstRule cfg d n = some prio → prio.drops cfg d n = false) →
      (∃ k, Deselects cfg d k n) → ∃ k, Deselects cfg d k n ∧ ∀ j, k < j → ¬ Selects cfg d j n

/-- The highest status fits, if a rule gives one. -/
def Fits : Prop :=
  (∃ n < d.ecmpidcount, ∃ prio, firstRule cfg d n = some prio ∧ prio.takes cfg d n = true) →
    cfg.readers.length + d.ecmpidcount + 1 ≤ 127

end Statement

section Rules

variable {ρ : Type*} {cfg : Setup ρ} {d : Demux} {s t : Sorting}

/-- What the rules held against the pids so far say about a pid: taken, dropped or nothing. -/
def verdict (cfg : Setup ρ) (d : Demux) (visited : List (Priority × ℕ)) (n : ℕ) : Option Priority :=
  (visited.find? fun visit => visit.2 = n ∧ (visit.1.takes cfg d n || visit.1.drops cfg d n)).map Prod.fst

theorem verdict_append {visited more : List (Priority × ℕ)} {n : ℕ} :
    verdict cfg d (visited ++ more) n = (verdict cfg d visited n).or (verdict cfg d more n) := by
  unfold verdict
  rw [List.find?_append]
  cases visited.find? fun visit =>
    decide (visit.2 = n ∧ (visit.1.takes cfg d n || visit.1.drops cfg d n) = true) <;> rfl

theorem verdict_singleton {visit : Priority × ℕ} {n : ℕ} : verdict cfg d [visit] n =
    if visit.2 = n ∧ (visit.1.takes cfg d n || visit.1.drops cfg d n) then some visit.1 else none := by
  unfold verdict
  rw [List.find?_singleton]
  split_ifs with h h' h'
  · rfl
  · exact absurd (of_decide_eq_true h) h'
  · exact absurd (decide_eq_true h') h
  · rfl

theorem drops_eq_false {prio : Priority} {n : ℕ} (h : prio.takes cfg d n = true) :
    prio.drops cfg d n = false := by
  refine Bool.eq_false_of_not_eq_true fun hdrops => ?_
  have htype := (of_decide_eq_true h).1
  rw [(of_decide_eq_true hdrops).1] at htype
  cases htype

/-- What holding a rule against a pid leaves: nothing new, the next status, or an ignored pid. -/
structure Held (cfg : Setup ρ) (d : Demux) (prio : Priority) (n : ℕ) (s t : Sorting) : Prop where
  info : ∀ m, (t.ecmpids m).toEcmInfo = (s.ecmpids m).toEcmInfo
  checked : ∀ m, (t.ecmpids m).checked = (s.ecmpids m).checked
  others : ∀ m ≠ n, (t.ecmpids m).status = (s.ecmpids m).status
  outcome :
    ((t.ecmpids n).status = (s.ecmpids n).status ∧ t.pOrder = s.pOrder ∧ t.matchingDone = s.matchingDone ∧
        ((s.ecmpids n).status = 0 → prio.takes cfg d n = false ∧ prio.drops cfg d n = false)) ∨
      ((s.ecmpids n).status = 0 ∧ prio.takes cfg d n = true ∧ t.pOrder = s.pOrder - 1 ∧
        t.matchingDone = true ∧ (t.ecmpids n).status = BitVec.ofInt 8 (cfg.readers.length + s.pOrder)) ∨
      ((s.ecmpids n).status = 0 ∧ prio.drops cfg d n = true ∧ t.pOrder = s.pOrder ∧
        t.matchingDone = s.matchingDone ∧ (t.ecmpids n).status = -1)

theorem Held.refl {prio : Priority} {n : ℕ}
    (h : (s.ecmpids n).status = 0 → prio.takes cfg d n = false ∧ prio.drops cfg d n = false) :
    Held cfg d prio n s s :=
  ⟨fun _ => rfl, fun _ => rfl, fun _ _ => rfl, Or.inl ⟨rfl, rfl, rfl, h⟩⟩

/-- A pid that is written with what it had, but for its status and its CHID. -/
theorem held_update {prio : Priority} {n : ℕ} {pid : EcmPid} {pOrder : ℤ} {matchingDone : Bool}
    (hinfo : pid.toEcmInfo = (s.ecmpids n).toEcmInfo) (hchecked : pid.checked = (s.ecmpids n).checked)
    (h : (pid.status = (s.ecmpids n).status ∧ pOrder = s.pOrder ∧ matchingDone = s.matchingDone ∧
        ((s.ecmpids n).status = 0 → prio.takes cfg d n = false ∧ prio.drops cfg d n = false)) ∨
      ((s.ecmpids n).status = 0 ∧ prio.takes cfg d n = true ∧ pOrder = s.pOrder - 1 ∧
        matchingDone = true ∧ pid.status = BitVec.ofInt 8 (cfg.readers.length + s.pOrder)) ∨
      ((s.ecmpids n).status = 0 ∧ prio.drops cfg d n = true ∧ pOrder = s.pOrder ∧
        matchingDone = s.matchingDone ∧ pid.status = -1)) :
    Held cfg d prio n s ⟨Function.update s.ecmpids n pid, pOrder, matchingDone⟩ := by
  refine ⟨fun m => ?_, fun m => ?_, fun m hm => ?_, ?_⟩
  all_goals dsimp only
  · by_cases hm : m = n
    · subst hm
      rw [Function.update_self]
      exact hinfo
    · rw [Function.update_of_ne hm]
  · by_cases hm : m = n
    · subst hm
      rw [Function.update_self]
      exact hchecked
    · rw [Function.update_of_ne hm]
  · rw [Function.update_of_ne hm]
  · rw [Function.update_self]
    exact h

theorem applyPrio_held {prio : Priority} {n : ℕ} (hinfo : (s.ecmpids n).toEcmInfo = (d.ecmpids n).toEcmInfo)
    (h : applyPrio cfg d s (prio, n) = .ok t) : Held cfg d prio n s t := by
  unfold applyPrio at h
  dsimp only at h
  have hcadata : (s.ecmpids n).cadata = (d.ecmpids n).cadata := congrArg EcmInfo.cadata hinfo
  by_cases hignored : (s.ecmpids n).status = -1
  · rw [if_pos hignored] at h
    obtain rfl := Except.ok.inj h
    exact Held.refl fun hzero => absurd (hignored.symm.trans hzero) (by decide)
  rw [if_neg hignored] at h
  have hsame : prio.names cfg d n (s.ecmpids n).toEcmInfo = prio.names cfg d n (d.ecmpids n).toEcmInfo := by
    rw [hinfo]
  rw [hsame] at h
  by_cases hnames : prio.names cfg d n (d.ecmpids n).toEcmInfo = true
  case neg =>
    rw [Bool.eq_false_of_not_eq_true hnames, Bool.not_false, if_pos rfl] at h
    obtain rfl := Except.ok.inj h
    refine Held.refl fun _ => ⟨decide_eq_false ?_, decide_eq_false ?_⟩
    · exact fun htakes => hnames htakes.2.1
    · exact fun hdrops => hnames hdrops.2.1
  rw [hnames, Bool.not_true, if_neg (by decide)] at h
  cases htype : prio.type
  case p =>
    have hdrops : prio.drops cfg d n = false := decide_eq_false fun h => by rw [htype] at h; cases h.1
    rw [htype] at h
    dsimp only at h
    by_cases hcad : prio.cadata ≠ 0 ∧ prio.cadata ≠ (s.ecmpids n).cadata
    · rw [if_pos hcad] at h
      obtain rfl := Except.ok.inj h
      refine Held.refl fun _ => ⟨decide_eq_false fun htakes => ?_, hdrops⟩
      rcases htakes.2.2 with hzero | hsame
      · exact hcad.1 hzero
      · exact hcad.2 (hsame.trans hcadata.symm)
    rw [if_neg hcad] at h
    have htakes : prio.takes cfg d n = true := by
      refine decide_eq_true ⟨htype, hnames, ?_⟩
      rw [hcadata] at hcad
      exact or_iff_not_imp_left.mpr fun hne => not_not.mp fun hne' => hcad ⟨hne, hne'⟩
    by_cases hforce : prio.force ≠ 0
    · rw [if_pos hforce] at h
      cases h
    rw [if_neg hforce] at h
    generalize hpid : (if prio.chid < 0x10000 then { s.ecmpids n with chid := prio.chid } else s.ecmpids n) = pid
      at h
    have hkept : pid.toEcmInfo = (s.ecmpids n).toEcmInfo ∧ pid.checked = (s.ecmpids n).checked ∧
        pid.status = (s.ecmpids n).status := by
      rw [← hpid]
      split_ifs
      all_goals exact ⟨rfl, rfl, rfl⟩
    obtain ⟨hinfo', hchecked, hstatus⟩ := hkept
    by_cases hzero : pid.status = 0
    · rw [if_pos hzero] at h
      obtain rfl := Except.ok.inj h
      refine held_update hinfo' hchecked (Or.inr (Or.inl ⟨hstatus.symm.trans hzero, htakes, rfl, rfl, rfl⟩))
    · rw [if_neg hzero] at h
      obtain rfl := Except.ok.inj h
      refine held_update hinfo' hchecked (Or.inl ⟨hstatus, rfl, rfl, fun hz => ?_⟩)
      exact absurd (hstatus.trans hz) hzero
  case i =>
    have htakes : prio.takes cfg d n = false := decide_eq_false fun h => by rw [htype] at h; cases h.1
    rw [htype] at h
    dsimp only at h
    by_cases hdrop : prio.chid = 0x10000 ∧ (s.ecmpids n).status = 0
    · rw [if_pos hdrop] at h
      obtain rfl := Except.ok.inj h
      refine held_update rfl rfl (Or.inr (Or.inr ⟨hdrop.2, ?_, rfl, rfl, rfl⟩))
      exact decide_eq_true ⟨htype, hnames, hdrop.1⟩
    · rw [if_neg hdrop] at h
      obtain rfl := Except.ok.inj h
      exact Held.refl fun hzero => ⟨htakes, decide_eq_false fun h => hdrop ⟨h.2.2, hzero⟩⟩
  all_goals
    rw [htype] at h
    obtain rfl := Except.ok.inj h
    refine Held.refl fun _ => ⟨decide_eq_false fun h => ?_, decide_eq_false fun h => ?_⟩
    all_goals
      rw [htype] at h
      cases h.1

/-- Without forced entries the rules go on. -/
theorem applyPrio_isOk {prio : Priority} {n : ℕ} (h : prio.type = .p → prio.force = 0) :
    ∃ t, applyPrio cfg d s (prio, n) = .ok t := by
  unfold applyPrio
  dsimp only
  by_cases hstatus : (s.ecmpids n).status = -1
  · exact ⟨s, if_pos hstatus⟩
  rw [if_neg hstatus]
  by_cases hnames : (!prio.names cfg d n (s.ecmpids n).toEcmInfo) = true
  · exact ⟨s, if_pos hnames⟩
  rw [if_neg hnames]
  cases htype : prio.type with
  | p =>
    dsimp only
    rw [if_neg (not_not.mpr (h htype))]
    split_ifs
    all_goals exact ⟨_, rfl⟩
  | i =>
    dsimp only
    split_ifs
    all_goals exact ⟨_, rfl⟩
  | _ => exact ⟨s, rfl⟩

/-- A rule took the pid before another one dropped it. -/
def Taken (cfg : Setup ρ) (d : Demux) (visited : List (Priority × ℕ)) (n : ℕ) : Prop :=
  ∃ prio, verdict cfg d visited n = some prio ∧ prio.takes cfg d n = true

/-- A rule dropped the pid before another one took it. -/
def Dropped (cfg : Setup ρ) (d : Demux) (visited : List (Priority × ℕ)) (n : ℕ) : Prop :=
  ∃ prio, verdict cfg d visited n = some prio ∧ prio.drops cfg d n = true

section Verdicts

variable {visited : List (Priority × ℕ)} {visit : Priority × ℕ} {n : ℕ}

theorem verdict_cases : verdict cfg d visited n = none ∨ Taken cfg d visited n ∨ Dropped cfg d visited n := by
  cases h : verdict cfg d visited n with
  | none => exact Or.inl rfl
  | some prio =>
    obtain ⟨visit, hfind, rfl⟩ := Option.map_eq_some_iff.mp h
    have hdecides := List.find?_some hfind
    rcases Bool.or_eq_true_iff.mp (of_decide_eq_true hdecides).2 with htakes | hdrops
    · exact Or.inr (Or.inl ⟨_, h, htakes⟩)
    · exact Or.inr (Or.inr ⟨_, h, hdrops⟩)

theorem Taken.ne_none (h : Taken cfg d visited n) : verdict cfg d visited n ≠ none := by
  obtain ⟨prio, hverdict, -⟩ := h
  rw [hverdict]
  exact Option.some_ne_none prio

theorem Taken.append (h : Taken cfg d visited n) (more : List (Priority × ℕ)) :
    Taken cfg d (visited ++ more) n := by
  obtain ⟨prio, hverdict, htakes⟩ := h
  exact ⟨prio, by rw [verdict_append, hverdict]; rfl, htakes⟩

theorem verdict_concat_eq_some {prio : Priority} : verdict cfg d (visited ++ [visit]) n = some prio ↔
    verdict cfg d visited n = some prio ∨ verdict cfg d visited n = none ∧ visit.2 = n ∧
      (visit.1.takes cfg d n || visit.1.drops cfg d n) = true ∧ visit.1 = prio := by
  rw [verdict_append, verdict_singleton, Option.or_eq_some_iff]
  refine or_congr_right (and_congr_right fun _ => ?_)
  split_ifs with h
  · rw [Option.some_inj]
    exact ⟨fun heq => ⟨h.1, h.2, heq⟩, fun hmore => hmore.2.2⟩
  · exact ⟨fun hsome => hsome.elim, fun hmore => (h ⟨hmore.1, hmore.2.1⟩).elim⟩

theorem taken_concat : Taken cfg d (visited ++ [visit]) n ↔
    Taken cfg d visited n ∨ verdict cfg d visited n = none ∧ visit.2 = n ∧ visit.1.takes cfg d n = true := by
  constructor
  · rintro ⟨prio, hverdict, htakes⟩
    rcases verdict_concat_eq_some.mp hverdict with hsome | ⟨hnone, heq, -, rfl⟩
    · exact Or.inl ⟨prio, hsome, htakes⟩
    · exact Or.inr ⟨hnone, heq, htakes⟩
  · rintro (⟨prio, hsome, htakes⟩ | ⟨hnone, heq, htakes⟩)
    · exact ⟨prio, verdict_concat_eq_some.mpr (Or.inl hsome), htakes⟩
    · refine ⟨visit.1, verdict_concat_eq_some.mpr (Or.inr ⟨hnone, heq, ?_, rfl⟩), htakes⟩
      rw [htakes, Bool.true_or]

theorem dropped_concat : Dropped cfg d (visited ++ [visit]) n ↔
    Dropped cfg d visited n ∨ verdict cfg d visited n = none ∧ visit.2 = n ∧ visit.1.drops cfg d n = true := by
  constructor
  · rintro ⟨prio, hverdict, hdrops⟩
    rcases verdict_concat_eq_some.mp hverdict with hsome | ⟨hnone, heq, -, rfl⟩
    · exact Or.inl ⟨prio, hsome, hdrops⟩
    · exact Or.inr ⟨hnone, heq, hdrops⟩
  · rintro (⟨prio, hsome, hdrops⟩ | ⟨hnone, heq, hdrops⟩)
    · exact ⟨prio, verdict_concat_eq_some.mpr (Or.inl hsome), hdrops⟩
    · refine ⟨visit.1, verdict_concat_eq_some.mpr (Or.inr ⟨hnone, heq, ?_, rfl⟩), hdrops⟩
      rw [hdrops, Bool.or_true]

theorem verdict_concat_eq_none : verdict cfg d (visited ++ [visit]) n = none ↔
    verdict cfg d visited n = none ∧
      (visit.2 = n → visit.1.takes cfg d n = false ∧ visit.1.drops cfg d n = false) := by
  rw [verdict_append, verdict_singleton, Option.or_eq_none_iff]
  refine and_congr_right fun _ => ?_
  split_ifs with h
  · refine ⟨fun hnone => hnone.elim, fun hno => ?_⟩
    obtain ⟨htakes, hdrops⟩ := hno h.1
    have hsome := h.2
    rw [htakes, hdrops] at hsome
    cases hsome
  · simp only [true_iff]
    refine fun heq => ?_
    have hno : ¬ (visit.1.takes cfg d n || visit.1.drops cfg d n) = true := fun hsome => h ⟨heq, hsome⟩
    exact Bool.or_eq_false_iff.mp (Bool.eq_false_of_not_eq_true hno)

end Verdicts

/-- What the loop over the rules has done to the pids. -/
structure Marks (cfg : Setup ρ) (d : Demux) (visited : List (Priority × ℕ)) (s : Sorting) : Prop where
  info : ∀ n, (s.ecmpids n).toEcmInfo = (d.ecmpids n).toEcmInfo
  checked : ∀ n, (s.ecmpids n).checked = (d.ecmpids n).checked
  unnamed : ∀ n < d.ecmpidcount, verdict cfg d visited n = none → (s.ecmpids n).status = 0
  dropped : ∀ n < d.ecmpidcount, Dropped cfg d visited n → (s.ecmpids n).status = -1
  done : ∀ n < d.ecmpidcount, Taken cfg d visited n → s.matchingDone = true

/-- The taken pids have the statuses handed out so far, the first one the highest. -/
structure Ranks (cfg : Setup ρ) (d : Demux) (visited : List (Priority × ℕ)) (s : Sorting) : Prop where
  order : ∃ order : List ℕ, order.Nodup ∧ (∀ n, n ∈ order ↔ n < d.ecmpidcount ∧ Taken cfg d visited n) ∧
    s.pOrder + order.length = d.ecmpidcount + 1
  above : ∀ n < d.ecmpidcount, Taken cfg d visited n →
    cfg.readers.length + s.pOrder < (s.ecmpids n).status.toInt
  before : ∀ n < d.ecmpidcount, ∀ m < d.ecmpidcount, ∀ earlier, earlier <+: visited →
    Taken cfg d earlier n → verdict cfg d earlier m = none → Taken cfg d visited m →
      (s.ecmpids m).status.toInt < (s.ecmpids n).status.toInt

theorem Marks.held {visited : List (Priority × ℕ)} {visit : Priority × ℕ} (hm : Marks cfg d visited s)
    (h : Held cfg d visit.1 visit.2 s t) : Marks cfg d (visited ++ [visit]) t := by
  have hstatus : ∀ n, visit.2 ≠ n → (t.ecmpids n).status = (s.ecmpids n).status :=
    fun n hn => h.others n (Ne.symm hn)
  refine ⟨fun n => (h.info n).trans (hm.info n), fun n => (h.checked n).trans (hm.checked n), ?_, ?_, ?_⟩
  · intro n hn hnone
    obtain ⟨hnone, hno⟩ := verdict_concat_eq_none.mp hnone
    have hzero := hm.unnamed n hn hnone
    by_cases heq : visit.2 = n
    · subst heq
      obtain ⟨htakes, hdrops⟩ := hno rfl
      rcases h.outcome with ⟨hsame, -⟩ | ⟨-, htakes', -⟩ | ⟨-, hdrops', -⟩
      · exact hsame.trans hzero
      · exact absurd (htakes.symm.trans htakes') Bool.false_ne_true
      · exact absurd (hdrops.symm.trans hdrops') Bool.false_ne_true
    · exact (hstatus n heq).trans hzero
  · intro n hn hdropped
    by_cases heq : visit.2 = n
    case neg =>
      rcases dropped_concat.mp hdropped with hdropped | ⟨-, heq', -⟩
      · exact (hstatus n heq).trans (hm.dropped n hn hdropped)
      · exact absurd heq' heq
    subst heq
    rcases dropped_concat.mp hdropped with hdropped | ⟨hnone, -, hdrops⟩
    · have hminus := hm.dropped _ hn hdropped
      have hne : (s.ecmpids visit.2).status ≠ 0 := by
        rw [hminus]
        decide
      rcases h.outcome with ⟨hsame, -⟩ | ⟨hzero, -⟩ | ⟨hzero, -⟩
      · exact hsame.trans hminus
      · exact absurd hzero hne
      · exact absurd hzero hne
    · rcases h.outcome with ⟨-, -, -, hno⟩ | ⟨-, htakes, -⟩ | ⟨-, -, -, -, hminus⟩
      · have hfalse := (hno (hm.unnamed _ hn hnone)).2
        exact absurd (hfalse.symm.trans hdrops) Bool.false_ne_true
      · exact absurd ((drops_eq_false htakes).symm.trans hdrops) Bool.false_ne_true
      · exact hminus
  · intro n hn htaken
    rcases taken_concat.mp htaken with htaken | ⟨hnone, heq, htakes⟩
    · have hdone := hm.done n hn htaken
      rcases h.outcome with ⟨-, -, hsame, -⟩ | ⟨-, -, -, htrue, -⟩ | ⟨-, -, -, hsame, -⟩
      · exact hsame.trans hdone
      · exact htrue
      · exact hsame.trans hdone
    · subst heq
      rcases h.outcome with ⟨-, -, -, hno⟩ | ⟨-, -, -, htrue, -⟩ | ⟨-, hdrops, -⟩
      · have hfalse := (hno (hm.unnamed _ hn hnone)).1
        exact absurd (hfalse.symm.trans htakes) Bool.false_ne_true
      · exact htrue
      · exact absurd ((drops_eq_false htakes).symm.trans hdrops) Bool.false_ne_true

theorem Ranks.held {visited : List (Priority × ℕ)} {visit : Priority × ℕ}
    (hfits : cfg.readers.length + d.ecmpidcount + 1 ≤ 127) (hm : Marks cfg d visited s)
    (hr : Ranks cfg d visited s) (hn : visit.2 < d.ecmpidcount) (h : Held cfg d visit.1 visit.2 s t) :
    Ranks cfg d (visited ++ [visit]) t := by
  obtain ⟨order, hnodup, hmem, hlength⟩ := hr.order
  have hsub : order ⊆ List.range d.ecmpidcount := fun n hn => List.mem_range.mpr ((hmem n).mp hn).1
  by_cases hnew : verdict cfg d visited visit.2 = none ∧ visit.1.takes cfg d visit.2 = true
  case pos =>
    obtain ⟨hnone, htakes⟩ := hnew
    have hnot : ¬ Taken cfg d visited visit.2 := fun htaken => htaken.ne_none hnone
    have hnodup' : (order ++ [visit.2]).Nodup := by
      refine hnodup.append (List.nodup_singleton _) (List.disjoint_singleton.mpr fun hin => ?_)
      exact hnot ((hmem _).mp hin).2
    have hroom : order.length + 1 ≤ d.ecmpidcount := by
      have hsub' : order ++ [visit.2] ⊆ List.range d.ecmpidcount := by
        refine List.append_subset.mpr ⟨hsub, List.cons_subset.mpr ⟨List.mem_range.mpr hn, List.nil_subset _⟩⟩
      have hle := (hnodup'.subperm hsub').length_le
      rwa [List.length_append, List.length_singleton, List.length_range] at hle
    have hzero := hm.unnamed _ hn hnone
    have htook : t.pOrder = s.pOrder - 1 ∧
        (t.ecmpids visit.2).status = BitVec.ofInt 8 (cfg.readers.length + s.pOrder) := by
      rcases h.outcome with ⟨-, -, -, hno⟩ | ⟨-, -, hpOrder, -, hstatus⟩ | ⟨-, hdrops, -⟩
      · exact absurd ((hno hzero).1.symm.trans htakes) Bool.false_ne_true
      · exact ⟨hpOrder, hstatus⟩
      · exact absurd ((drops_eq_false htakes).symm.trans hdrops) Bool.false_ne_true
    have hstatus : (t.ecmpids visit.2).status.toInt = cfg.readers.length + s.pOrder := by
      rw [htook.2]
      refine (Signed.toInt_ofInt_eq_self_iff (w := 7)).mpr ⟨?_, ?_⟩ <;> norm_num <;> omega
    have hothers : ∀ n, Taken cfg d visited n → (t.ecmpids n).status = (s.ecmpids n).status := by
      intro n htaken
      refine h.others n ?_
      rintro rfl
      exact hnot htaken
    refine ⟨⟨order ++ [visit.2], hnodup', fun n => ?_, ?_⟩, fun n hlt htaken => ?_, ?_⟩
    · rw [List.mem_append, List.mem_singleton, hmem, taken_concat]
      constructor
      · rintro (⟨hlt, htaken⟩ | rfl)
        · exact ⟨hlt, Or.inl htaken⟩
        · exact ⟨hn, Or.inr ⟨hnone, rfl, htakes⟩⟩
      · rintro ⟨hlt, htaken | ⟨-, rfl, -⟩⟩
        · exact Or.inl ⟨hlt, htaken⟩
        · exact Or.inr rfl
    · rw [List.length_append, List.length_singleton, htook.1]
      push_cast
      omega
    · rcases taken_concat.mp htaken with htaken | ⟨-, rfl, -⟩
      · have habove := hr.above n hlt htaken
        rw [hothers n htaken, htook.1]
        omega
      · rw [hstatus, htook.1]
        omega
    · intro n hlt m hlt' earlier hinit htaken hearlier htaken'
      rcases List.prefix_concat_iff.mp hinit with rfl | hinit
      · exact absurd hearlier htaken'.ne_none
      · obtain ⟨more, rfl⟩ := hinit
        have htaken_n := htaken.append more
        have habove := hr.above n hlt htaken_n
        rw [hothers n htaken_n]
        rcases taken_concat.mp htaken' with htaken' | ⟨-, rfl, -⟩
        · rw [hothers m htaken']
          exact hr.before n hlt m hlt' earlier (List.prefix_append _ _) htaken hearlier htaken'
        · rw [hstatus]
          exact habove
  case neg =>
    have hle : order.length ≤ d.ecmpidcount := by
      have hle := (hnodup.subperm hsub).length_le
      rwa [List.length_range] at hle
    have hsame : ∀ n, Taken cfg d (visited ++ [visit]) n ↔ Taken cfg d visited n := by
      intro n
      rw [taken_concat]
      refine or_iff_left ?_
      rintro ⟨hnone, rfl, htakes⟩
      exact hnew ⟨hnone, htakes⟩
    have hpositive : ∀ n < d.ecmpidcount, Taken cfg d visited n → (s.ecmpids n).status ≠ 0 := by
      intro n hlt htaken hzero
      have habove := hr.above n hlt htaken
      rw [hzero] at habove
      change (cfg.readers.length : ℤ) + s.pOrder < 0 at habove
      omega
    have hkept : t.pOrder = s.pOrder ∧
        ∀ n < d.ecmpidcount, Taken cfg d visited n → (t.ecmpids n).status = (s.ecmpids n).status := by
      rcases h.outcome with ⟨hstatus, hpOrder, -⟩ | ⟨hzero, htakes, -⟩ | ⟨hzero, -, hpOrder, -⟩
      · refine ⟨hpOrder, fun n hlt htaken => ?_⟩
        by_cases heq : n = visit.2
        · subst heq
          exact hstatus
        · exact h.others n heq
      · rcases @verdict_cases _ cfg d visited visit.2 with hnone | htaken | hdropped
        · exact absurd ⟨hnone, htakes⟩ hnew
        · exact absurd hzero (hpositive _ hn htaken)
        · have hminus := hm.dropped _ hn hdropped
          rw [hzero] at hminus
          exact absurd hminus (by decide)
      · refine ⟨hpOrder, fun n hlt htaken => h.others n ?_⟩
        rintro rfl
        exact hpositive _ hlt htaken hzero
    obtain ⟨hpOrder, hstatus⟩ := hkept
    refine ⟨⟨order, hnodup, fun n => ?_, ?_⟩, fun n hlt htaken => ?_, ?_⟩
    · rw [hmem, hsame]
    · rw [hpOrder]
      exact hlength
    · rw [hpOrder, hstatus n hlt ((hsame n).mp htaken)]
      exact hr.above n hlt ((hsame n).mp htaken)
    · intro n hlt m hlt' earlier hinit htaken hearlier htaken'
      rcases List.prefix_concat_iff.mp hinit with rfl | hinit
      · exact absurd hearlier htaken'.ne_none
      · obtain ⟨more, rfl⟩ := hinit
        rw [hstatus n hlt (htaken.append more), hstatus m hlt' ((hsame m).mp htaken')]
        exact hr.before n hlt m hlt' earlier (List.prefix_append _ _) htaken hearlier ((hsame m).mp htaken')

/-- The loop over the rules, once none of them is forced. -/
theorem foldlM_applyPrio {visited more : List (Priority × ℕ)} (hm : Marks cfg d visited s)
    (hmore : ∀ visit ∈ more, visit.2 < d.ecmpidcount ∧ (visit.1.type = .p → visit.1.force = 0)) :
    ∃ t, more.foldlM (applyPrio cfg d) s = .ok t ∧ Marks cfg d (visited ++ more) t ∧
      (cfg.readers.length + d.ecmpidcount + 1 ≤ 127 → Ranks cfg d visited s →
        Ranks cfg d (visited ++ more) t) := by
  induction more generalizing visited s with
  | nil =>
    rw [List.append_nil]
    exact ⟨s, rfl, hm, fun _ hr => hr⟩
  | cons visit more ih =>
    obtain ⟨hlt, hforce⟩ := hmore visit List.mem_cons_self
    obtain ⟨u, hu⟩ := @applyPrio_isOk _ cfg d s visit.1 visit.2 hforce
    have hheld := applyPrio_held (hm.info visit.2) hu
    obtain ⟨t, hfold, hmarks, hranks⟩ := ih (hm.held hheld) fun visit hin => hmore visit (List.mem_cons_of_mem _ hin)
    rw [List.append_assoc, List.singleton_append] at hmarks hranks
    refine ⟨t, ?_, hmarks, fun hfits hr => hranks hfits (Ranks.held hfits hm hr hlt hheld)⟩
    rw [List.foldlM_cons, hu]
    exact hfold

theorem verdict_row (prio : Priority) (k n : ℕ) :
    verdict cfg d ((List.range k).map fun n => (prio, n)) n =
      if n < k ∧ (prio.takes cfg d n || prio.drops cfg d n) then some prio else none := by
  induction k with
  | zero => rfl
  | succ k ih =>
    rw [List.range_succ, List.map_append, List.map_singleton, verdict_append, verdict_singleton, ih]
    dsimp only
    generalize (prio.takes cfg d n || prio.drops cfg d n) = decides
    cases decides with
    | false => simp only [Bool.false_eq_true, and_false, if_false, Option.none_or]
    | true =>
      simp only [and_true]
      rcases lt_trichotomy n k with hlt | rfl | hgt
      · rw [if_pos hlt, Option.some_or, if_pos (Nat.lt_succ_of_lt hlt)]
      · rw [if_neg (lt_irrefl _), if_pos rfl, if_pos (Nat.lt_succ_self _), Option.none_or]
      · rw [if_neg (by omega), if_neg (by omega), if_neg (by omega), Option.none_or]

/-- What the rules say about a pid is what the first of them says that decides about it. -/
theorem verdict_rows (rules : List Priority) {n : ℕ} (hn : n < d.ecmpidcount) :
    verdict cfg d (rules.flatMap fun prio => (List.range d.ecmpidcount).map fun n => (prio, n)) n =
      rules.find? fun prio => prio.takes cfg d n || prio.drops cfg d n := by
  induction rules with
  | nil => rfl
  | cons prio rules ih =>
    rw [List.flatMap_cons, verdict_append, verdict_row, ih, List.find?_cons]
    by_cases hdecides : (prio.takes cfg d n || prio.drops cfg d n) = true
    · rw [if_pos ⟨hn, hdecides⟩, hdecides, Option.some_or]
    · rw [if_neg fun h => hdecides h.2, Bool.eq_false_of_not_eq_true hdecides, Option.none_or]

/-- The first rule of a pid that a rule takes, and those before it. -/
theorem exists_firstRule {n : ℕ} (hmatched : Matched cfg d n)
    (hkept : ¬ ∃ prio, firstRule cfg d n = some prio ∧ prio.drops cfg d n = true) :
    ∃ before prio after, cfg.priority = before ++ prio :: after ∧ prio.takes cfg d n = true ∧
      (∀ other ∈ before, (other.takes cfg d n || other.drops cfg d n) = false) ∧
        before.length = ruleOf cfg d n := by
  cases hfirst : firstRule cfg d n with
  | none =>
    obtain ⟨prio, hmem, htakes⟩ := hmatched
    have hno := List.find?_eq_none.mp hfirst prio hmem
    rw [htakes] at hno
    exact absurd rfl hno
  | some prio =>
    obtain ⟨hdecides, before, after, hsplit, hbefore⟩ := List.find?_eq_some_iff_append.mp hfirst
    have htakes : prio.takes cfg d n = true := by
      rcases Bool.or_eq_true_iff.mp hdecides with htakes | hdrops
      · exact htakes
      · exact absurd ⟨prio, hfirst, hdrops⟩ hkept
    have hno : ∀ other ∈ before, (other.takes cfg d n || other.drops cfg d n) = false :=
      fun other hin => Bool.eq_false_of_not_eq_true fun h => by
        have hneg := hbefore other hin
        rw [h] at hneg
        cases hneg
    refine ⟨before, prio, after, hsplit, htakes, hno, ?_⟩
    have hlength : before.findIdx (fun prio => prio.takes cfg d n) = before.length :=
      List.findIdx_eq_length.mpr fun other hin => (Bool.or_eq_false_iff.mp (hno other hin)).1
    unfold ruleOf
    rw [hsplit, List.findIdx_append, hlength, if_neg (lt_irrefl _), List.findIdx_cons, htakes]
    exact (Nat.zero_add _).symm

theorem taken_visits {n : ℕ} (hn : n < d.ecmpidcount) (hmatched : Matched cfg d n)
    (hkept : ¬ ∃ prio, firstRule cfg d n = some prio ∧ prio.drops cfg d n = true) :
    Taken cfg d (visits cfg d) n := by
  obtain ⟨before, prio, after, hsplit, htakes, hno, -⟩ := exists_firstRule hmatched hkept
  refine ⟨prio, ?_, htakes⟩
  unfold visits
  rw [verdict_rows _ hn, hsplit, List.find?_append, List.find?_eq_none.mpr, List.find?_cons, htakes]
  · rfl
  · intro other hin
    rw [hno other hin]
    exact Bool.false_ne_true

/-- Where the rules match one pid before another, the loop takes it before it looks at the other. -/
theorem exists_earlier {n m : ℕ} (hn : n < d.ecmpidcount) (hmatched : Matched cfg d n)
    (hkept : ¬ ∃ prio, firstRule cfg d n = some prio ∧ prio.drops cfg d n = true)
    (hm : m < d.ecmpidcount) (hmatched' : Matched cfg d m)
    (hkept' : ¬ ∃ prio, firstRule cfg d m = some prio ∧ prio.drops cfg d m = true)
    (hlt : ruleOf cfg d n < ruleOf cfg d m ∨ ruleOf cfg d n = ruleOf cfg d m ∧ n < m) :
    ∃ earlier, earlier <+: visits cfg d ∧ Taken cfg d earlier n ∧ verdict cfg d earlier m = none := by
  obtain ⟨before, prio, after, hsplit, htakes, hno, hlength⟩ := exists_firstRule hmatched hkept
  obtain ⟨before', prio', after', hsplit', -, hno', hlength'⟩ := exists_firstRule hmatched' hkept'
  have hinit : before <+: before' := by
    refine @List.prefix_of_prefix_length_le _ before before' cfg.priority ?_ ?_ (by omega)
    · rw [hsplit]
      exact List.prefix_append _ _
    · rw [hsplit']
      exact List.prefix_append _ _
  have hnone : before.find? (fun prio => prio.takes cfg d m || prio.drops cfg d m) = none := by
    refine List.find?_eq_none.mpr fun other hin => ?_
    rw [hno' other (hinit.subset hin)]
    exact Bool.false_ne_true
  refine ⟨(before.flatMap fun prio => (List.range d.ecmpidcount).map fun n => (prio, n)) ++
    (List.range (n + 1)).map fun n => (prio, n), ?_, ⟨prio, ?_, htakes⟩, ?_⟩
  · unfold visits
    rw [hsplit, List.flatMap_append, List.flatMap_cons]
    refine (List.prefix_append_right_inj _).mpr (List.IsPrefix.trans ?_ (List.prefix_append _ _))
    have htake : List.range (n + 1) = (List.range d.ecmpidcount).take (n + 1) := by
      rw [List.take_range, Nat.min_eq_left hn]
    rw [htake]
    exact (List.take_prefix _ _).map _
  · rw [verdict_append, verdict_rows _ hn, List.find?_eq_none.mpr, Option.none_or, verdict_row, htakes]
    · exact if_pos ⟨Nat.lt_succ_self _, rfl⟩
    · intro other hin
      rw [hno other hin]
      exact Bool.false_ne_true
  · rw [verdict_append, verdict_rows _ hm, hnone, Option.none_or, verdict_row]
    refine if_neg fun hdecides => ?_
    rcases hlt with hlt | ⟨-, hlt⟩
    · have hin : prio ∈ before' := by
        have hlong : before ++ [prio] <+: before' := by
          refine @List.prefix_of_prefix_length_le _ (before ++ [prio]) before' cfg.priority ?_ ?_ ?_
          · rw [hsplit]
            exact ⟨after, by rw [List.append_assoc, List.singleton_append]⟩
          · rw [hsplit']
            exact List.prefix_append _ _
          · rw [List.length_append, List.length_singleton]
            omega
        exact hlong.subset (List.mem_append_right _ (List.mem_singleton_self _))
      rw [hno' prio hin] at hdecides
      cases hdecides.2
    · omega

end Rules

section Services

variable {ρ : Type*} {cfg : Setup ρ} {er : SrvRequest}

theorem serviceStatus_append (nr : ℕ) (before after : List SidTab) (status : BitVec 8) :
    serviceStatus cfg er nr (before ++ after) status =
      serviceStatus cfg er (nr + before.length) after (serviceStatus cfg er nr before status) := by
  induction before generalizing nr status with
  | nil => rfl
  | cons sidtab before ih =>
    have hplace : nr + (sidtab :: before).length = nr + 1 + before.length := by
      rw [List.length_cons]
      omega
    rw [List.cons_append, hplace, serviceStatus, serviceStatus]
    split_ifs
    all_goals exact ih _ _

/-- Services that neither select nor deselect change nothing. -/
theorem serviceStatus_of_forall {nr : ℕ} {tabs : List SidTab} {status : BitVec 8}
    (h : ∀ k sidtab, tabs[k]? = some sidtab → sidtab.hasEntries = true → chkSrvidMatch er sidtab = true →
      cfg.sidtabs.no &&& cfg.shift.bit (nr + k) = 0 ∧ cfg.sidtabs.ok &&& cfg.shift.bit (nr + k) = 0) :
    serviceStatus cfg er nr tabs status = status := by
  induction tabs generalizing nr with
  | nil => rfl
  | cons sidtab tabs ih =>
    have hrest : serviceStatus cfg er (nr + 1) tabs status = status := by
      refine ih fun k other hk => ?_
      have hplace : nr + 1 + k = nr + (k + 1) := by omega
      rw [hplace]
      exact h (k + 1) other hk
    have hhead := h 0 sidtab rfl
    unfold serviceStatus
    split_ifs with hentries hno hok
    · exact absurd (hhead hentries hno.2).1 hno.1
    · exact absurd (hhead hentries hok.2).2 hok.1
    · exact hrest
    · exact hrest

/-- A deselected service that matches, with no selected one that matches behind it, ignores the pid. -/
theorem serviceStatus_eq_neg_one {tabs : List SidTab} {status : BitVec 8} {k : ℕ} {sidtab : SidTab}
    (hk : tabs[k]? = some sidtab) (hentries : sidtab.hasEntries = true)
    (hmatch : chkSrvidMatch er sidtab = true) (hno : cfg.sidtabs.no &&& cfg.shift.bit k ≠ 0)
    (h : ∀ j other, k < j → tabs[j]? = some other → other.hasEntries = true → chkSrvidMatch er other = true →
      cfg.sidtabs.ok &&& cfg.shift.bit j = 0) :
    serviceStatus cfg er 0 tabs status = -1 := by
  obtain ⟨hlt, rfl⟩ := List.getElem?_eq_some_iff.mp hk
  have hsplit : tabs = tabs.take k ++ tabs[k] :: tabs.drop (k + 1) := by
    rw [← List.drop_eq_getElem_cons hlt, List.take_append_drop]
  have hafter : ∀ (nr : ℕ) (rest : List SidTab), (∀ j other, rest[j]? = some other → other.hasEntries = true →
      chkSrvidMatch er other = true → cfg.sidtabs.ok &&& cfg.shift.bit (nr + j) = 0) →
      serviceStatus cfg er nr rest (-1) = -1 := by
    intro nr rest
    induction rest generalizing nr with
    | nil => exact fun _ => rfl
    | cons other rest ih =>
      intro hrest
      have htail := ih (nr + 1) fun j other' hj => by
        have hplace : nr + 1 + j = nr + (j + 1) := by omega
        rw [hplace]
        exact hrest (j + 1) other' hj
      unfold serviceStatus
      split_ifs with hentries' hno' hok
      · exact htail
      · exact absurd (hrest 0 other rfl hentries' hok.2) hok.1
      · exact htail
      · exact htail
  have hlength : (tabs.take k).length = k := by
    rw [List.length_take]
    omega
  rw [hsplit, serviceStatus_append, Nat.zero_add, hlength, serviceStatus, if_pos hentries, if_pos ⟨hno, hmatch⟩]
  refine hafter _ _ fun j other hj hentries' hmatch' => ?_
  rw [List.getElem?_drop] at hj
  exact h (k + 1 + j) other (by omega) hj hentries' hmatch'

end Services

section Finish

variable {ρ : Type*} {cfg : Setup ρ} {d : Demux} {s : Sorting} {n : ℕ}

theorem checkReaders_noReader {pid : EcmPid} (hinfo : pid.toEcmInfo = (d.ecmpids n).toEcmInfo)
    (h : NoReader cfg d n) : (checkReaders cfg d pid).status = -1 := by
  unfold checkReaders
  dsimp only
  split_ifs with hminus hzero
  · exact hminus
  · rfl
  · refine absurd (List.countP_eq_zero.mpr fun rdr hin => ?_) hzero
    rw [hinfo, h rdr hin]
    exact Bool.false_ne_true

theorem checkReaders_deselected {pid : EcmPid} (hinfo : pid.toEcmInfo = (d.ecmpids n).toEcmInfo)
    (h : ∃ k, Deselects cfg d k n ∧ ∀ j, k < j → ¬ Selects cfg d j n) :
    (checkReaders cfg d pid).status = -1 := by
  unfold checkReaders
  dsimp only
  split_ifs with hminus hzero
  · exact hminus
  · rfl
  · obtain ⟨k, ⟨sidtab, hk, hentries, hno, hmatch⟩, hafter⟩ := h
    rw [hinfo]
    refine serviceStatus_eq_neg_one hk hentries hmatch hno fun j other hlt hj hentries' hmatch' => ?_
    by_contra hok
    exact hafter j hlt ⟨other, hj, hentries', hok, hmatch'⟩

/-- The services keep the status of a pid that none of them is about. -/
theorem checkReaders_kept {pid : EcmPid} (hinfo : pid.toEcmInfo = (d.ecmpids n).toEcmInfo)
    (hreader : ¬ NoReader cfg d n) (hno : ¬ ∃ k, Deselects cfg d k n)
    (hok : ∀ k < cfg.sidtab.length, cfg.sidtabs.ok &&& cfg.shift.bit k = 0) :
    (checkReaders cfg d pid).status = pid.status := by
  unfold checkReaders
  dsimp only
  split_ifs with hminus hzero
  · rfl
  · refine absurd (fun rdr hin => ?_) hreader
    rw [← hinfo]
    exact Bool.eq_false_of_not_eq_true (List.countP_eq_zero.mp hzero rdr hin)
  · refine serviceStatus_of_forall fun k sidtab hk hentries hmatch => ?_
    rw [Nat.zero_add]
    refine ⟨?_, hok k (List.getElem?_eq_some_iff.mp hk).1⟩
    by_contra hbit
    rw [hinfo] at hmatch
    exact hno ⟨k, sidtab, hk, hentries, hbit, hmatch⟩

theorem checkReaders_ignored {pid : EcmPid} (h : pid.status = -1) : checkReaders cfg d pid = pid := if_pos h

theorem checkReaders_checked (pid : EcmPid) : (checkReaders cfg d pid).checked = pid.checked := by
  unfold checkReaders
  dsimp only
  split_ifs
  all_goals rfl

/-- What the passes after the readers leave of a pid that is ignored. -/
theorem finish_ignored (hminus : ((if n < d.ecmpidcount then checkReaders cfg d (s.ecmpids n) else s.ecmpids n) :
    EcmPid).status = -1) : ((s.finish cfg d).ecmpids n).status = -1 := by
  unfold Sorting.finish
  dsimp only
  generalize hreadable : (fun n => if n < d.ecmpidcount then checkReaders cfg d (s.ecmpids n) else s.ecmpids n) =
    readable
  have hreadable_n : (readable n).status = -1 := by
    rw [← hreadable]
    exact hminus
  have hweighed : (sortReaders cfg d s.matchingDone readable n).status = -1 := by
    unfold sortReaders
    dsimp only
    rw [if_neg fun h => h.2.2 hreadable_n]
    exact hreadable_n
  generalize sortReaders cfg d s.matchingDone readable = weighed at hweighed
  have hsorted : (sortChannels cfg d s.matchingDone weighed n).status = -1 := by
    unfold sortChannels
    cases hfound : foundChannel cfg d s.matchingDone weighed with
    | none =>
      dsimp only
      rw [if_neg fun h => h.2.2.1 hweighed]
      exact hweighed
    | some found =>
      dsimp only
      rw [if_neg ?_]
      · exact hweighed
      · rintro rfl
        unfold foundChannel at hfound
        split_ifs at hfound
        have hgood := List.find?_some hfound
        exact (of_decide_eq_true hgood).1 hweighed
  generalize sortChannels cfg d s.matchingDone weighed = sorted at hsorted
  have hmarked : (markNoprio cfg d sorted n).status = -1 := by
    unfold markNoprio
    dsimp only
    split_ifs
    all_goals exact hsorted
  cases foundChannel cfg d s.matchingDone weighed with
  | none => exact hmarked
  | some found =>
    dsimp only
    split_ifs
    · unfold keepFound
      dsimp only
      rw [if_neg fun h => h.2 hmarked]
      exact hmarked
    · exact hmarked

theorem weighReaders_done {er : Request} {readers : List ρ} {status : BitVec 8} {cacheexprio localprio : ℤ}
    (hprefer : cfg.preferlocalcards = 0) :
    weighReaders cfg true er readers status cacheexprio localprio = status := by
  induction readers with
  | nil => rfl
  | cons rdr readers ih =>
    unfold weighReaders
    by_cases hmatch : cfg.matchingReader er rdr = true
    · rw [if_pos hmatch, if_pos hprefer]
      exact ih
    · rw [if_neg hmatch]
      exact ih

/-- Once a rule took a pid, the passes after the readers leave the statuses as they are. -/
theorem finish_done (hdone : s.matchingDone = true) (hprefer : cfg.preferlocalcards = 0) :
    let readable : ℕ → EcmPid := fun n => if n < d.ecmpidcount then checkReaders cfg d (s.ecmpids n) else s.ecmpids n
    (∀ n, ((s.finish cfg d).ecmpids n).status = (readable n).status) ∧
      (∀ n, (readable n).status ≠ 0 → ((s.finish cfg d).ecmpids n).checked = (readable n).checked) ∧
        (s.finish cfg d).maxStatus = BitVec.ofInt 8 (highestPrio d (s.finish cfg d).ecmpids).1 := by
  intro readable
  have hweighed : sortReaders cfg d true readable = readable := by
    funext n
    unfold sortReaders
    dsimp only
    split_ifs
    all_goals first | rfl | rw [weighReaders_done hprefer]
  have hfound : foundChannel cfg d true readable = none := rfl
  have hsorted : sortChannels cfg d true readable = readable := by
    funext n
    unfold sortChannels
    rw [hfound]
    dsimp only
    rw [if_neg fun h => Bool.noConfusion h.2.1]
  have hmarked : ∀ n, (markNoprio cfg d readable n).status = (readable n).status := by
    intro n
    unfold markNoprio
    dsimp only
    split_ifs
    all_goals rfl
  have hfinish : s.finish cfg d =
      { d with
        ecmpids := markNoprio cfg d readable
        maxStatus := BitVec.ofInt 8 (highestPrio d readable).1 } := by
    unfold Sorting.finish
    dsimp only
    rw [hdone, hweighed, hsorted, hfound]
  rw [hfinish]
  refine ⟨hmarked, fun n hne => ?_, ?_⟩
  · dsimp only
    unfold markNoprio
    dsimp only
    rw [if_neg fun h => hne h.2.2.2]
  · dsimp only
    unfold highestPrio
    simp only [hmarked]

/-- The highest status is the highest. -/
theorem le_highestPrio (ecmpids : ℕ → EcmPid) :
    0 ≤ (highestPrio d ecmpids).1 ∧ (highestPrio d ecmpids).1 < 128 ∧
      ∀ n < d.ecmpidcount, (ecmpids n).status.toInt ≤ (highestPrio d ecmpids).1 := by
  unfold highestPrio
  induction d.ecmpidcount with
  | zero =>
    refine ⟨le_refl _, ?_, fun n hn => absurd hn (Nat.not_lt_zero n)⟩
    change (0 : ℤ) < 128
    decide
  | succ k ih =>
    rw [List.range_succ, List.foldl_append, List.foldl_cons, List.foldl_nil]
    generalize (List.range k).foldl _ _ = best at ih ⊢
    obtain ⟨hpos, hlt, hle⟩ := ih
    dsimp only
    have hfits := BitVec.toInt_lt (x := (ecmpids k).status)
    split_ifs with hbetter
    · refine ⟨by omega, hfits, fun n hn => ?_⟩
      rcases Nat.lt_succ_iff_lt_or_eq.mp hn with hn | rfl
      · exact (hle n hn).trans hbetter.2.le
      · exact le_refl _
    · refine ⟨hpos, hlt, fun n hn => ?_⟩
      rcases Nat.lt_succ_iff_lt_or_eq.mp hn with hn | rfl
      · exact hle n hn
      · by_cases hminus : (ecmpids n).status = -1
        · rw [hminus]
          exact le_trans (by decide) hpos
        · exact not_lt.mp fun hbig => hbetter ⟨hminus, hbig⟩

end Finish

section Tries

variable {requestmode : ℤ} {starts : ℕ → Start} {p q : ℕ → EcmPid}

/-- What calls for the run with priorities do to the pids: one that still waits is as it was, and one that
cannot be used is given up. -/
def Waits (p q : ℕ → EcmPid) : Prop :=
  ∀ n, ((q n).checked = 0 → (p n).checked = 0 ∧ (q n).status = (p n).status) ∧
    ((q n).status = (p n).status ∨ (q n).status = -1)

theorem Waits.refl (p : ℕ → EcmPid) : Waits p p := fun _ => ⟨fun h => ⟨h, rfl⟩, Or.inl rfl⟩

theorem Waits.trans {r : ℕ → EcmPid} (h : Waits p q) (h' : Waits q r) : Waits p r := by
  intro n
  obtain ⟨hwait, hstatus⟩ := h n
  obtain ⟨hwait', hstatus'⟩ := h' n
  refine ⟨fun hzero => ?_, ?_⟩
  · obtain ⟨hchecked, heq⟩ := hwait' hzero
    exact ⟨(hwait hchecked).1, heq.trans (hwait hchecked).2⟩
  · rcases hstatus' with heq | hminus
    · rw [heq]
      exact hstatus
    · exact Or.inr hminus

theorem waits_start (p : ℕ → EcmPid) {n : ℕ} (hchecked : (p n).checked = 0) (start : Start) :
    Waits p (Function.update p n ((p n).start 0 start)) := by
  intro m
  by_cases hm : m = n
  case neg =>
    rw [Function.update_of_ne hm]
    exact ⟨fun h => ⟨h, rfl⟩, Or.inl rfl⟩
  subst hm
  rw [Function.update_self]
  have hone : (0 + 1 : BitVec 8) ≠ 0 := by decide
  have hfour : (4 : BitVec 8) ≠ 0 := by decide
  cases start with
  | noTask => exact ⟨fun h => ⟨h, rfl⟩, Or.inl rfl⟩
  | started => exact ⟨fun h => absurd h hone, Or.inl rfl⟩
  | notStarted => exact ⟨fun h => absurd h hone, Or.inl rfl⟩
  | unusable => exact ⟨fun h => absurd h hfour, Or.inr rfl⟩

theorem waits_tryLoop (turns : List (ℕ × ℕ)) (p : ℕ → EcmPid) :
    Waits p (tryLoop requestmode 0 starts turns p).2 := by
  induction turns generalizing p with
  | nil => exact Waits.refl p
  | cons turn turns ih =>
    unfold tryLoop
    dsimp only
    split_ifs with hhit hstop
    · exact waits_start p hhit.1 _
    · exact (waits_start p hhit.1 _).trans (ih _)
    · exact ih p

theorem mem_turns_of_mem {turns : List (ℕ × ℕ)} {m : ℕ} (h : m ∈ (tryLoop requestmode 0 starts turns p).1) :
    ∃ j, (j, m) ∈ turns := by
  induction turns generalizing p with
  | nil => cases h
  | cons turn turns ih =>
    unfold tryLoop at h
    dsimp only at h
    split_ifs at h
    · obtain rfl := List.mem_singleton.mp h
      exact ⟨turn.1, List.mem_cons_self⟩
    · rcases List.mem_cons.mp h with rfl | h
      · exact ⟨turn.1, List.mem_cons_self⟩
      · obtain ⟨j, hj⟩ := ih h
        exact ⟨j, List.mem_cons_of_mem _ hj⟩
    · obtain ⟨j, hj⟩ := ih h
      exact ⟨j, List.mem_cons_of_mem _ hj⟩

/-- A pid that waits is tried, or the call ends with a filter. -/
theorem tryLoop_all {turns : List (ℕ × ℕ)} {i n : ℕ} (hturn : (i, n) ∈ turns) (hchecked : (p n).checked = 0)
    (hstatus : (p n).status.toInt = i) :
    n ∈ (tryLoop requestmode 0 starts turns p).1 ∨
      requestmode = 0 ∧ ∃ m ∈ (tryLoop requestmode 0 starts turns p).1, starts m = .started := by
  induction turns generalizing p with
  | nil => cases hturn
  | cons turn turns ih =>
    unfold tryLoop
    dsimp only
    split_ifs with hhit hstop
    · exact Or.inr ⟨hstop.1, turn.2, List.mem_singleton_self _, hstop.2⟩
    · by_cases hn : n = turn.2
      · rw [hn]
        exact Or.inl List.mem_cons_self
      · have hrest : (i, n) ∈ turns := by
          rcases List.mem_cons.mp hturn with heq | hrest
          · exact absurd (congrArg Prod.snd heq) hn
          · exact hrest
        rcases @ih (Function.update p turn.2 ((p turn.2).start 0 (starts turn.2))) hrest
          (by rw [Function.update_of_ne hn]; exact hchecked)
          (by rw [Function.update_of_ne hn]; exact hstatus) with hin | ⟨hmode, m, hm, hstarted⟩
        · exact Or.inl (List.mem_cons_of_mem _ hin)
        · exact Or.inr ⟨hmode, m, List.mem_cons_of_mem _ hm, hstarted⟩
    · refine ih ?_ hchecked hstatus
      rcases List.mem_cons.mp hturn with heq | hrest
      · rw [← heq] at hhit
        exact absurd ⟨hchecked, hstatus⟩ hhit
      · exact hrest

/-- A pid that waits is tried before those of lower status. -/
theorem tryLoop_inTurn {turns : List (ℕ × ℕ)} (hsorted : turns.Pairwise fun x y => y.1 ≤ x.1) {i n : ℕ}
    (hturn : (i, n) ∈ turns) (hchecked : (p n).checked = 0) (hstatus : (p n).status.toInt = i)
    {l₁ l₂ : List ℕ} {m : ℕ} (h : (tryLoop requestmode 0 starts turns p).1 = l₁ ++ m :: l₂) :
    n ∈ l₁ ∨ (i : ℤ) ≤ (p m).status.toInt := by
  induction turns generalizing p l₁ with
  | nil => cases hturn
  | cons turn turns ih =>
    obtain ⟨hfirst, hrest⟩ := List.pairwise_cons.mp hsorted
    have hhead : (p turn.2).status.toInt = turn.1 → (i : ℤ) ≤ (p turn.2).status.toInt := by
      intro heq
      rw [heq]
      rcases List.mem_cons.mp hturn with hsame | hin
      · rw [← hsame]
      · exact_mod_cast hfirst _ hin
    unfold tryLoop at h
    dsimp only at h
    split_ifs at h with hhit hstop
    · cases l₁ with
      | nil =>
        obtain ⟨rfl, -⟩ := List.cons.inj h
        exact Or.inr (hhead hhit.2)
      | cons first l₁ => exact absurd (congrArg List.length h) (by simp)
    · cases l₁ with
      | nil =>
        obtain ⟨rfl, -⟩ := List.cons.inj h
        exact Or.inr (hhead hhit.2)
      | cons first l₁ =>
        obtain ⟨rfl, htail⟩ := List.cons.inj h
        by_cases hn : n = turn.2
        · rw [hn]
          exact Or.inl List.mem_cons_self
        have hin : (i, n) ∈ turns := by
          rcases List.mem_cons.mp hturn with heq | hin
          · exact absurd (congrArg Prod.snd heq) hn
          · exact hin
        rcases ih hrest hin (by rw [Function.update_of_ne hn]; exact hchecked)
          (by rw [Function.update_of_ne hn]; exact hstatus) htail with hbefore | hle
        · exact Or.inl (List.mem_cons_of_mem _ hbefore)
        · right
          rcases (waits_start p hhit.1 (starts turn.2) m).2 with heq | hminus
          · rw [heq] at hle
            exact hle
          · rw [hminus] at hle
            exact absurd hle (by change ¬ (i : ℤ) ≤ -1; omega)
    · refine ih hrest ?_ hchecked hstatus h
      rcases List.mem_cons.mp hturn with heq | hin
      · rw [← heq] at hhit
        exact absurd ⟨hchecked, hstatus⟩ hhit
      · exact hin

theorem turns_sorted (d : Demux) : d.turns.Pairwise fun x y => y.1 ≤ x.1 := by
  unfold Demux.turns
  refine List.pairwise_flatMap.mpr ⟨fun j _ => ?_, ?_⟩
  · refine List.pairwise_map.mpr (List.pairwise_of_forall fun _ _ => le_refl _)
  · refine (List.pairwise_reverse.mpr (List.pairwise_lt_range.imp ?_))
    intro j k hjk x hx y hy
    obtain ⟨n, -, rfl⟩ := List.mem_map.mp hx
    obtain ⟨m, -, rfl⟩ := List.mem_map.mp hy
    exact hjk.le

theorem mem_turns {d : Demux} {j n : ℕ} : (j, n) ∈ d.turns ↔ (j : ℤ) ≤ d.maxStatus.toInt ∧ n < d.ecmpidcount := by
  unfold Demux.turns
  simp only [List.mem_flatMap, List.mem_reverse, List.mem_range, List.mem_map, Prod.mk.injEq]
  constructor
  · rintro ⟨i, hi, m, hm, rfl, rfl⟩
    exact ⟨by omega, hm⟩
  · rintro ⟨hj, hn⟩
    exact ⟨j, by omega, n, hn, rfl, rfl⟩

/-- Calls of `dvbapi_try_next_caid` write the marks of the pids only. -/
theorem tried_waits {ρ : Type*} (cfg : Setup ρ) (d : Demux) (requestmode : ℤ) (calls : List (ℕ → Start)) :
    (tried cfg d requestmode calls).ecmpidcount = (resortEcmpids cfg d).ecmpidcount ∧
      (tried cfg d requestmode calls).maxStatus = (resortEcmpids cfg d).maxStatus ∧
        Waits (resortEcmpids cfg d).ecmpids (tried cfg d requestmode calls).ecmpids := by
  unfold tried
  generalize resortEcmpids cfg d = e
  induction calls generalizing e with
  | nil => exact ⟨rfl, rfl, Waits.refl _⟩
  | cons starts calls ih =>
    obtain ⟨hcount, hmax, hwaits⟩ := ih (tryNextCaid requestmode 0 starts e).2
    exact ⟨hcount, hmax, (waits_tryLoop e.turns e.ecmpids).trans hwaits⟩

end Tries

section Main

variable {ρ : Type*} {cfg : Setup ρ} {d : Demux} {n : ℕ}

theorem info_reset (d : Demux) (n : ℕ) : (d.reset.ecmpids n).toEcmInfo = (d.ecmpids n).toEcmInfo := by
  unfold Demux.reset
  dsimp only
  split_ifs
  all_goals rfl

theorem ask_reset : cfg.ask d.reset (d.reset.ecmpids n).toEcmInfo = cfg.ask d (d.ecmpids n).toEcmInfo := by
  rw [info_reset]
  rfl

theorem takes_reset {prio : Priority} : prio.takes cfg d.reset n = prio.takes cfg d n := by
  unfold Priority.takes
  rw [info_reset]
  rfl

theorem drops_reset {prio : Priority} : prio.drops cfg d.reset n = prio.drops cfg d n := by
  unfold Priority.drops
  rw [info_reset]
  rfl

theorem firstRule_reset : firstRule cfg d.reset n = firstRule cfg d n := by
  unfold firstRule
  simp only [takes_reset, drops_reset]

theorem noReader_reset : NoReader cfg d.reset n ↔ NoReader cfg d n := by
  unfold NoReader
  rw [ask_reset]

theorem deselects_reset {k : ℕ} : Deselects cfg d.reset k n ↔ Deselects cfg d k n := by
  unfold Deselects
  rw [ask_reset]

theorem selects_reset {k : ℕ} : Selects cfg d.reset k n ↔ Selects cfg d k n := by
  unfold Selects
  rw [ask_reset]

theorem matched_reset : Matched cfg d.reset n ↔ Matched cfg d n := by
  unfold Matched
  simp only [takes_reset]

theorem ruleOf_reset : ruleOf cfg d.reset n = ruleOf cfg d n := by
  unfold ruleOf
  simp only [takes_reset]

/-- The loop over the rules ends, and the rest of the function goes on with what it has done. -/
theorem exists_finish (hforced : NoForced cfg) : ∃ s, resortEcmpids cfg d = s.finish cfg d.reset ∧
    Marks cfg d.reset (visits cfg d.reset) s ∧
      (cfg.readers.length + d.ecmpidcount + 1 ≤ 127 → Ranks cfg d.reset (visits cfg d.reset) s) := by
  have hmarks : Marks cfg d.reset [] ⟨d.reset.ecmpids, d.reset.ecmpidcount + 1, false⟩ := by
    refine ⟨fun _ => rfl, fun _ => rfl, fun n hn _ => ?_, fun n _ hdropped => ?_, fun n _ htaken => ?_⟩
    · unfold Demux.reset at hn ⊢
      dsimp only at hn ⊢
      rw [if_pos hn]
    · obtain ⟨prio, hnone, -⟩ := hdropped
      cases hnone
    · exact absurd rfl htaken.ne_none
  have hranks : Ranks cfg d.reset [] ⟨d.reset.ecmpids, d.reset.ecmpidcount + 1, false⟩ := by
    refine ⟨⟨[], List.nodup_nil, fun n => ?_, ?_⟩, fun n _ htaken => ?_, ?_⟩
    · exact ⟨fun h => absurd h List.not_mem_nil, fun h => absurd rfl h.2.ne_none⟩
    · exact add_zero _
    · exact absurd rfl htaken.ne_none
    · intro n _ m _ earlier _ _ _ htaken
      exact absurd rfl htaken.ne_none
  obtain ⟨s, hfold, hm, hr⟩ := @foldlM_applyPrio _ cfg d.reset _ [] (visits cfg d.reset) hmarks (by
    intro visit hvisit
    obtain ⟨prio, hprio, hrow⟩ := List.mem_flatMap.mp hvisit
    obtain ⟨n, hn, rfl⟩ := List.mem_map.mp hrow
    exact ⟨List.mem_range.mp hn, hforced prio hprio⟩)
  refine ⟨s, ?_, hm, fun hfits => hr hfits hranks⟩
  unfold resortEcmpids
  dsimp only
  rw [hfold]

theorem verdict_visits (hn : n < d.ecmpidcount) :
    verdict cfg d.reset (visits cfg d.reset) n = firstRule cfg d n := by
  rw [← firstRule_reset]
  exact verdict_rows (d := d.reset) cfg.priority hn

theorem resort_count (hforced : NoForced cfg) : (resortEcmpids cfg d).ecmpidcount = d.ecmpidcount := by
  obtain ⟨s, hresort, -⟩ := @exists_finish _ cfg d hforced
  rw [hresort]
  unfold Sorting.finish
  dsimp only
  split
  · split_ifs
    all_goals rfl
  · rfl

/-- Ignored pids have the status -1. -/
theorem resort_ignored (hforced : NoForced cfg) (hkeeps : KeepsDeselected cfg d) (hn : n < d.ecmpidcount)
    (h : Ignored cfg d n) : ((resortEcmpids cfg d).ecmpids n).status = -1 := by
  obtain ⟨s, hresort, hmarks, -⟩ := @exists_finish _ cfg d hforced
  rw [hresort]
  refine finish_ignored ?_
  have hn' : n < d.reset.ecmpidcount := hn
  rw [if_pos hn']
  by_cases hdropped : Dropped cfg d.reset (visits cfg d.reset) n
  · rw [checkReaders_ignored (hmarks.dropped n hn hdropped)]
    exact hmarks.dropped n hn hdropped
  by_cases hreader : NoReader cfg d n
  · exact checkReaders_noReader (hmarks.info n) (noReader_reset.mpr hreader)
  have hno : ∀ prio, firstRule cfg d n = some prio → prio.drops cfg d n = false := by
    refine fun prio hfirst => Bool.eq_false_of_not_eq_true fun hdrops => hdropped ⟨prio, ?_, ?_⟩
    · rw [verdict_visits hn]
      exact hfirst
    · rw [drops_reset]
      exact hdrops
  rcases h with ⟨prio, hfirst, hdrops⟩ | hreader' | hdeselected
  · exact absurd ((hno prio hfirst).symm.trans hdrops) Bool.false_ne_true
  · exact absurd hreader' hreader
  · obtain ⟨k, hk, hafter⟩ := hkeeps n hn hreader hno hdeselected
    refine checkReaders_deselected (hmarks.info n) ⟨k, deselects_reset.mpr hk, fun j hj => ?_⟩
    rw [selects_reset]
    exact hafter j hj

/-- With a pid that a rule names and nothing ignores, the statuses are those of the rules. -/
theorem resort_ranked (hforced : NoForced cfg) (hkeeps : KeepsDeselected cfg d) (hfits : Fits cfg d)
    (hprefer : cfg.preferlocalcards = 0)
    (hok : ∀ k < cfg.sidtab.length, cfg.sidtabs.ok &&& cfg.shift.bit k = 0) (hn : n < d.ecmpidcount)
    (hmatched : Matched cfg d n) (hnot : ¬ Ignored cfg d n) :
    (0 < ((resortEcmpids cfg d).ecmpids n).status.toInt ∧ ((resortEcmpids cfg d).ecmpids n).checked = 0 ∧
      ∀ m < d.ecmpidcount, Before cfg d n m →
        ((resortEcmpids cfg d).ecmpids m).status.toInt < ((resortEcmpids cfg d).ecmpids n).status.toInt) ∧
      ((resortEcmpids cfg d).ecmpids n).status.toInt ≤ (resortEcmpids cfg d).maxStatus.toInt := by
  have hignored : ∀ m < d.ecmpidcount, Ignored cfg d m → ((resortEcmpids cfg d).ecmpids m).status = -1 :=
    fun m hm => resort_ignored hforced hkeeps hm
  obtain ⟨s, hresort, hmarks, hranks⟩ := @exists_finish _ cfg d hforced
  have hrule : ∀ m, ¬ Ignored cfg d m →
      ¬ ∃ prio, firstRule cfg d.reset m = some prio ∧ prio.drops cfg d.reset m = true := by
    rintro m hm ⟨prio, hfirst, hdrops⟩
    rw [firstRule_reset] at hfirst
    rw [drops_reset] at hdrops
    exact hm (Or.inl ⟨prio, hfirst, hdrops⟩)
  have htaken : ∀ m < d.ecmpidcount, Matched cfg d m → ¬ Ignored cfg d m →
      Taken cfg d.reset (visits cfg d.reset) m :=
    fun m hm hmatched' hm' => taken_visits (d := d.reset) hm (matched_reset.mpr hmatched') (hrule m hm')
  have hbound : cfg.readers.length + d.ecmpidcount + 1 ≤ 127 := by
    obtain ⟨prio, hverdict, htakes⟩ := htaken n hn hmatched hnot
    rw [verdict_visits hn] at hverdict
    rw [takes_reset] at htakes
    exact hfits ⟨n, hn, prio, hverdict, htakes⟩
  have hr := hranks hbound
  have hdone := hmarks.done n hn (htaken n hn hmatched hnot)
  obtain ⟨hfinal, hchecked, hmax⟩ := @finish_done _ cfg d.reset s hdone hprefer
  have hstatus : ∀ m < d.ecmpidcount, ¬ Ignored cfg d m →
      ((resortEcmpids cfg d).ecmpids m).status = (s.ecmpids m).status := by
    intro m hm hnot'
    rw [hresort, hfinal m]
    dsimp only
    rw [if_pos (by exact hm)]
    refine checkReaders_kept (hmarks.info m) (fun h => hnot' (Or.inr (Or.inl (noReader_reset.mp h)))) ?_ hok
    rintro ⟨k, hk⟩
    exact hnot' (Or.inr (Or.inr ⟨k, deselects_reset.mp hk⟩))
  have hpositive : 0 < (s.ecmpids n).status.toInt := by
    obtain ⟨order, hnodup, hmem, hlength⟩ := hr.order
    have hsub : order ⊆ List.range d.ecmpidcount := fun m hm => List.mem_range.mpr ((hmem m).mp hm).1
    have hle := (hnodup.subperm hsub).length_le
    rw [List.length_range] at hle
    have habove := hr.above n hn (htaken n hn hmatched hnot)
    have hreset : d.reset.ecmpidcount = d.ecmpidcount := rfl
    rw [hreset] at hlength
    omega
  refine ⟨⟨?_, ?_, fun m hm hbefore => ?_⟩, ?_⟩
  · rw [hstatus n hn hnot]
    exact hpositive
  · have hne : (s.ecmpids n).status ≠ 0 := by
      intro hzero
      rw [hzero] at hpositive
      exact lt_irrefl _ hpositive
    rw [← hstatus n hn hnot, hresort, hfinal n] at hne
    rw [hresort, hchecked n hne]
    dsimp only
    rw [if_pos (by exact hn), checkReaders_checked, hmarks.checked]
    unfold Demux.reset
    dsimp only
    rw [if_pos hn]
  · rw [hstatus n hn hnot]
    by_cases hm' : Ignored cfg d m
    · rw [hignored m hm hm']
      exact lt_trans (by decide) hpositive
    rw [hstatus m hm hm']
    by_cases hmatched' : Matched cfg d m
    · have hlt : ruleOf cfg d.reset n < ruleOf cfg d.reset m ∨
          ruleOf cfg d.reset n = ruleOf cfg d.reset m ∧ n < m := by
        rw [ruleOf_reset, ruleOf_reset]
        rcases hbefore with hbefore | hbefore | hbefore
        · exact absurd hbefore hm'
        · exact absurd hmatched' hbefore
        · exact hbefore
      obtain ⟨earlier, hinit, htaken_n, hnone⟩ := exists_earlier (d := d.reset) hn
        (matched_reset.mpr hmatched) (hrule n hnot) hm (matched_reset.mpr hmatched') (hrule m hm') hlt
      exact hr.before n hn m hm earlier hinit htaken_n hnone (htaken m hm hmatched' hm')
    · have hzero : (s.ecmpids m).status = 0 := by
        rcases @verdict_cases _ cfg d.reset (visits cfg d.reset) m with hnone | hnamed | hdropped
        · exact hmarks.unnamed m hm hnone
        · obtain ⟨prio, hverdict, htakes⟩ := hnamed
          rw [verdict_visits hm] at hverdict
          rw [takes_reset] at htakes
          exact absurd ⟨prio, List.mem_of_find?_eq_some hverdict, htakes⟩ hmatched'
        · obtain ⟨prio, hverdict, hdrops⟩ := hdropped
          rw [verdict_visits hm] at hverdict
          rw [drops_reset] at hdrops
          exact absurd (Or.inl ⟨prio, hverdict, hdrops⟩) hm'
      rw [hzero]
      exact hpositive
  · have hbest := @le_highestPrio d.reset (s.finish cfg d.reset).ecmpids
    rw [hresort, hmax, (Signed.toInt_ofInt_eq_self_iff (w := 7)).mpr ⟨by omega, by omega⟩]
    exact hbest.2.2 n hn

/-- What the function is for, where the deselected services keep the pids and the highest status fits. -/
theorem resortEcmpids_sorted {ρ : Type*} (cfg : Setup ρ) (d : Demux) (hforced : NoForced cfg)
    (hkeeps : KeepsDeselected cfg d) (hfits : Fits cfg d) : Sorted cfg d := by
  refine ⟨fun n hn h => resort_ignored hforced hkeeps hn (Or.inr h),
    fun hprefer hok n hn hmatched hnot => (resort_ranked hforced hkeeps hfits hprefer hok hn hmatched hnot).1, ?_⟩
  intro hprefer hok requestmode calls starts n hn hmatched hnot hchecked
  obtain ⟨⟨hpositive, -, hlower⟩, hmax⟩ := resort_ranked hforced hkeeps hfits hprefer hok hn hmatched hnot
  obtain ⟨hcount, hmaxStatus, hwaits⟩ := tried_waits cfg d requestmode calls
  have hcount' : (tried cfg d requestmode calls).ecmpidcount = d.ecmpidcount := hcount.trans (resort_count hforced)
  have hstatus := ((hwaits n).1 hchecked).2
  have hlevel : ((tried cfg d requestmode calls).ecmpids n).status.toInt =
      (((resortEcmpids cfg d).ecmpids n).status.toInt.toNat : ℕ) := by
    rw [hstatus]
    omega
  have hturn : (((resortEcmpids cfg d).ecmpids n).status.toInt.toNat, n) ∈ (tried cfg d requestmode calls).turns := by
    rw [mem_turns, hcount', hmaxStatus]
    exact ⟨by omega, hn⟩
  refine ⟨fun l₁ m l₂ htries hbefore => ?_, tryLoop_all hturn hchecked hlevel⟩
  rcases tryLoop_inTurn (turns_sorted _) hturn hchecked hlevel htries with hin | hle
  · exact hin
  · have hmem : m ∈ (tryNextCaid requestmode 0 starts (tried cfg d requestmode calls)).1 := by
      rw [htries]
      exact List.mem_append_right _ List.mem_cons_self
    obtain ⟨j, hj⟩ := mem_turns_of_mem hmem
    have hm : m < d.ecmpidcount := by
      rw [← hcount']
      exact (mem_turns.mp hj).2
    have hlt := hlower m hm hbefore
    rcases (hwaits m).2 with heq | hminus
    · rw [heq] at hle
      omega
    · rw [hminus] at hle
      change ((((resortEcmpids cfg d).ecmpids n).status.toInt.toNat : ℕ) : ℤ) ≤ -1 at hle
      omega

private def pidOf (caid : BitVec 16) (ecmPid : BitVec 16) : EcmPid :=
  ⟨⟨caid, 0, ecmPid, 0⟩, 0x10000, 0, 0, 0, 0, 0, 0, 0⟩

private def threePids : Demux :=
  ⟨3, fun n => pidOf (BitVec.ofNat 16 (0xB00 + n)) (BitVec.ofNat 16 (0x100 + n)), 0, -1, -1, 0, 1⟩

private def takeCaid (caid : BitVec 16) : Priority := ⟨.p, caid, 0, 0, 0x10000, 0, 0, 0, 0⟩

private def service (caid : BitVec 16) : SidTab := ⟨[], [caid], [], []⟩

/-- A reader for all, rules for the pids 1 and 0, and services for a pid. -/
private def setupWith (sidtab : List SidTab) (sidtabs : Sidtabs) : Setup Unit where
  readers := [()]
  matchingReader _ _ := true
  cacheexReader _ := false
  isLocalreader _ _ := true
  chkOnBtun _ := 0
  priority := [takeCaid 0xB01, takeCaid 0xB00]
  shift := .modulo
  sidtab := sidtab
  sidtabs := sidtabs
  preferlocalcards := 0
  channelCache := []
  maxfilter := 64
  useOpenxcas := false

private theorem noForced_setupWith (sidtab : List SidTab) (sidtabs : Sidtabs) :
    NoForced (setupWith sidtab sidtabs) := by
  intro prio hprio _
  rcases List.mem_cons.mp hprio with rfl | hprio
  · rfl
  · obtain rfl := List.mem_singleton.mp hprio
    rfl

/-- The rules put pid 1 before pid 0, and a deselected service takes pid 2 away. -/
theorem resortEcmpids_sorted_three :
    Sorted (setupWith [service 0xB02] ⟨0, 1⟩) threePids ∧
      ((List.range 3).map fun n =>
        ((resortEcmpids (setupWith [service 0xB02] ⟨0, 1⟩) threePids).ecmpids n).status.toInt) = [4, 5, -1] := by
  refine ⟨resortEcmpids_sorted _ _ (noForced_setupWith _ _) ?_ ?_, by decide +kernel⟩
  · rintro n - - - ⟨k, hk⟩
    refine ⟨k, hk, fun j hj hselects => ?_⟩
    obtain ⟨sidtab, hplace, -⟩ := hselects
    have hlt := (List.getElem?_eq_some_iff.mp hplace).1
    change j < 1 at hlt
    omega
  · exact fun _ => by decide

/-- A selected service that matches behind a deselected one gives the pid back. -/
theorem resortEcmpids_returns_deselected :
    NoForced (setupWith [service 0xB02, service 0xB02] ⟨2, 1⟩) ∧
      ¬ Sorted (setupWith [service 0xB02, service 0xB02] ⟨2, 1⟩) threePids := by
  refine ⟨noForced_setupWith _ _, fun hsorted => ?_⟩
  have hminus := hsorted.ignored 2 (by decide)
    (Or.inr ⟨0, service 0xB02, rfl, by decide, by decide +kernel, by decide +kernel⟩)
  exact absurd hminus (by decide +kernel)

end Main

end NCam.Dvbapi.EcmPids
