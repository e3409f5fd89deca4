import NCam.Lib.Transition
import NCam.Lib.Walks
import Mathlib.Algebra.BigOperators.Fin
import Mathlib.Algebra.Order.Ring.Int

/-! The garbage collector: `add_garbage` puts data that other threads may still read into one of the buckets, and
each pass of the collector frees what has been there for longer than the timeout of the clients. Every sequence of
calls and passes frees data once for each time it was handed over, and only after its time in the bucket. -/
namespace NCam.Garbage

open NCam.Lib

def hashBuckets : ℕ := 250

structure CsGarbage (D : Type*) where
  time : ℤ
  data : D
  deriving DecidableEq

/-- What `start_garbage_collector` and the configuration fix, with the option to build with `WITH_DEBUG`. -/
structure Settings where
  garbageCollectorActive : Bool
  garbageDebug : ℤ
  withDebug : Bool
  ctimeout : BitVec 32

def Settings.timeoutTime (cfg : Settings) : ℤ := (2 * cfg.ctimeout / 1000 + 6).toInt

/-- A call of `free`, with the time of the call, for data that was handed over at `garbage.time`; `memory` tells
whether there was memory for its list element. -/
structure Freed (D : Type*) where
  garbage : CsGarbage D
  time : ℤ
  memory : Bool
  deriving DecidableEq

/-- The buckets, with what was handed over and what was freed since the start. -/
structure Collector (D : Type*) where
  counter : Fin hashBuckets
  garbageFirst : Fin hashBuckets → List (CsGarbage D)
  clock : ℤ
  added : List D
  freed : List (Freed D)

variable {D : Type*} [DecidableEq D]

namespace Collector

variable (cfg : Settings) (s : Collector D)

def nextBucket (counter : Fin hashBuckets) : Fin hashBuckets :=
  if h : counter.val + 1 < hashBuckets then ⟨counter.val + 1, h⟩ else ⟨0, by decide⟩

def free (garbage : CsGarbage D) (now : ℤ) (memory : Bool) : Collector D :=
  { s with freed := s.freed ++ [⟨garbage, now, memory⟩] }

def push (bucket : Fin hashBuckets) (garbage : CsGarbage D) : Collector D :=
  { s with garbageFirst := Function.update s.garbageFirst bucket (garbage :: s.garbageFirst bucket) }

/-- The insertion at the head of a bucket; with `garbage_debug` 2 only of data that is not in it. -/
def insert (bucket : Fin hashBuckets) (garbage : CsGarbage D) : Collector D :=
  if cfg.withDebug ∧ cfg.garbageDebug = 2 ∧ (s.garbageFirst bucket).any (·.data = garbage.data) then s
  else s.push bucket garbage

/-- `malloc` tells whether there is memory for a list element; data is `none` for a null pointer. -/
def addGarbage (data : Option D) (now : ℤ) (malloc : Bool) : Collector D :=
  match data with
  | none => s
  | some data =>
    let s := { s with added := s.added ++ [data] }
    if ¬ cfg.garbageCollectorActive ∨ cfg.garbageDebug = 1 then s.free ⟨now, data⟩ now malloc
    else
      let bucket := s.counter
      let s := { s with counter := nextBucket s.counter }
      if malloc then s.insert cfg bucket ⟨now, data⟩ else s.free ⟨now, data⟩ now malloc

/-- `garbage->time < deltime`. -/
def expired (now : ℤ) (garbage : CsGarbage D) : Bool := garbage.time < now - cfg.timeoutTime

/-- The pass through one bucket: the list is cut at the first expired element, then everything from there on is
freed. -/
def collectBucket (now : ℤ) (i : Fin hashBuckets) : Collector D :=
  let cut := cutAt (expired cfg now) (s.garbageFirst i)
  { s with
    garbageFirst := Function.update s.garbageFirst i cut.1
    freed := s.freed ++ cut.2.map fun garbage => ⟨garbage, now, true⟩ }

/-- One turn of the loop of `garbage_collector`. -/
def garbageCollector (now : ℤ) : Collector D :=
  (List.finRange hashBuckets).foldl (fun s i => s.collectBucket cfg now i) s

/-- The elements that are reachable from the heads of the buckets. -/
def reachable : List (CsGarbage D) := (List.finRange hashBuckets).flatMap s.garbageFirst

def timesAdded (d : D) : ℕ := s.added.count d

def timesFreed (d : D) : ℕ := (s.freed.map (·.garbage.data)).count d

def timesKept (d : D) : ℕ := (s.reachable.map CsGarbage.data).count d

end Collector

inductive Call (D : Type*)
  | addGarbage (data : Option D) (now : ℤ) (malloc : Bool)
  | pass (now : ℤ)

def Call.now : Call D → ℤ
  | addGarbage _ now _ => now
  | pass now => now

/-- The calls one after the other, with a clock that never goes back; only an active collector makes passes. -/
def system (cfg : Settings) : System (Collector D) (Call D) where
  init s := (∀ i, s.garbageFirst i = []) ∧ s.added = [] ∧ s.freed = []
  next s call :=
    if call.now < s.clock then none
    else
      match call with
      | .addGarbage data now malloc => some { s.addGarbage cfg data now malloc with clock := now }
      | .pass now =>
        if cfg.garbageCollectorActive then some { s.garbageCollector cfg now with clock := now } else none

variable {D : Type*} {cfg : Settings} {s : Collector D} {now : ℤ} {d : D}

/-- Data that `add_garbage` frees itself. -/
def Freed.Direct (cfg : Settings) (f : Freed D) : Prop :=
  cfg.garbageCollectorActive = false ∨ cfg.garbageDebug = 1 ∨ f.memory = false

/-- The time in the bucket has passed. -/
def Freed.Late (cfg : Settings) (f : Freed D) : Prop := f.garbage.time + cfg.timeoutTime < f.time

/-- The pass takes the expired elements out of every bucket and frees them, and leaves all others there. -/
def PassFrees (cfg : Settings) (s : Collector D) (now : ℤ) : Prop :=
  (∀ i, (s.garbageCollector cfg now).garbageFirst i =
    (s.garbageFirst i).filter fun g => now ≤ g.time + cfg.timeoutTime) ∧
  (s.garbageCollector cfg now).freed = s.freed ++
    (s.reachable.filter fun g => g.time + cfg.timeoutTime < now).map fun g => ⟨g, now, true⟩

namespace Collector

private theorem expired_eq (cfg : Settings) (now : ℤ) :
    (expired cfg now : CsGarbage D → Bool) = fun g => decide (g.time + cfg.timeoutTime < now) := by
  funext g
  have hiff : g.time < now - cfg.timeoutTime ↔ g.time + cfg.timeoutTime < now := by omega
  simp [expired, hiff]

private theorem foldl_collectBucket (cfg : Settings) (now : ℤ) {is : List (Fin hashBuckets)} (hnodup : is.Nodup)
    (s : Collector D) :
    is.foldl (fun s i => s.collectBucket cfg now i) s =
      { s with
        garbageFirst := fun i =>
          if i ∈ is then (cutAt (expired cfg now) (s.garbageFirst i)).1 else s.garbageFirst i
        freed := s.freed ++ is.flatMap fun i =>
          (cutAt (expired cfg now) (s.garbageFirst i)).2.map fun g => ⟨g, now, true⟩ } := by
  induction is generalizing s with
  | nil => simp
  | cons i is ih =>
    obtain ⟨hi, hrest⟩ := List.nodup_cons.mp hnodup
    have hold : ∀ j ∈ is, (s.collectBucket cfg now i).garbageFirst j = s.garbageFirst j := by
      intro j hj
      have hne : j ≠ i := fun he => hi (he ▸ hj)
      exact Function.update_of_ne hne _ _
    rw [List.foldl_cons, ih hrest]
    congr 1
    · funext j
      by_cases hj : j ∈ is
      · simp [hj, hold j hj]
      · by_cases hji : j = i
        · subst hji
          simp [hj, collectBucket]
        · simp [hj, hji, collectBucket]
    · rw [List.flatMap_cons, ← List.append_assoc]
      congr 1
      exact List.flatMap_congr fun j hj => by rw [hold j hj]

/-- What a pass does to all buckets. -/
theorem garbageCollector_eq (cfg : Settings) (s : Collector D) (now : ℤ) :
    s.garbageCollector cfg now =
      { s with
        garbageFirst := fun i => (cutAt (expired cfg now) (s.garbageFirst i)).1
        freed := s.freed ++ (List.finRange hashBuckets).flatMap fun i =>
          (cutAt (expired cfg now) (s.garbageFirst i)).2.map fun g => ⟨g, now, true⟩ } := by
  unfold garbageCollector
  rw [foldl_collectBucket cfg now (List.nodup_finRange hashBuckets)]
  simp [List.mem_finRange]

/-- The elements of a bucket stand in it from the newest to the oldest. -/
structure Ordered (s : Collector D) : Prop where
  sorted : ∀ i, (s.garbageFirst i).Pairwise fun g h => h.time ≤ g.time
  past : ∀ i, ∀ g ∈ s.garbageFirst i, g.time ≤ s.clock

private theorem Ordered.aged (h : s.Ordered) (cfg : Settings) (now : ℤ) (i : Fin hashBuckets) :
    Aged (expired cfg now) (s.garbageFirst i) := by
  refine (h.sorted i).imp ?_
  intro g g' hle hg
  have hlt : g.time < now - cfg.timeoutTime := of_decide_eq_true hg
  exact decide_eq_true (lt_of_le_of_lt hle hlt)

theorem passFrees_of_ordered (h : s.Ordered) (cfg : Settings) (now : ℤ) : PassFrees cfg s now := by
  have hcut : ∀ i, cutAt (expired cfg now) (s.garbageFirst i) = _ := fun i => cutAt_eq_filter (h.aged cfg now i)
  rw [expired_eq] at hcut
  constructor
  · intro i
    rw [garbageCollector_eq, expired_eq]
    simp [hcut, ← decide_not]
  · rw [garbageCollector_eq, expired_eq]
    simp [hcut, reachable, List.filter_flatMap, List.map_flatMap]

private theorem clock_pass (s : Collector D) (cfg : Settings) (now : ℤ) :
    (s.garbageCollector cfg now).clock = s.clock := by
  rw [garbageCollector_eq]

variable [DecidableEq D]

private theorem timesKept_eq (s : Collector D) (d : D) :
    s.timesKept d = ∑ i, ((s.garbageFirst i).map CsGarbage.data).count d := by
  unfold timesKept reachable
  rw [List.map_flatMap, List.count_flatMap, Fin.sum_univ_def]
  rfl

private theorem timesKept_push (s : Collector D) (bucket : Fin hashBuckets) (g : CsGarbage D) (d : D) :
    (s.push bucket g).timesKept d = s.timesKept d + [g.data].count d := by
  rw [timesKept_eq, timesKept_eq, ← Finset.add_sum_erase _ _ (Finset.mem_univ bucket),
    ← Finset.add_sum_erase _ (fun i => ((s.garbageFirst i).map CsGarbage.data).count d) (Finset.mem_univ bucket)]
  have hrest : ∑ i ∈ Finset.univ.erase bucket, ((Function.update s.garbageFirst bucket
      (g :: s.garbageFirst bucket) i).map CsGarbage.data).count d =
      ∑ i ∈ Finset.univ.erase bucket, ((s.garbageFirst i).map CsGarbage.data).count d := by
    refine Finset.sum_congr rfl fun i hi => ?_
    rw [Function.update_of_ne (Finset.ne_of_mem_erase hi)]
  simp only [push, hrest, Function.update_self, List.map_cons]
  rw [List.count_cons, List.count_singleton]
  omega

/-- A pass frees what it takes out of the buckets. -/
private theorem ledger_pass (s : Collector D) (cfg : Settings) (now : ℤ) (d : D) :
    (s.garbageCollector cfg now).timesFreed d + (s.garbageCollector cfg now).timesKept d =
      s.timesFreed d + s.timesKept d := by
  have hsplit : ∀ i, ((s.garbageFirst i).map CsGarbage.data).count d =
      ((cutAt (expired cfg now) (s.garbageFirst i)).2.map CsGarbage.data).count d +
        ((cutAt (expired cfg now) (s.garbageFirst i)).1.map CsGarbage.data).count d := by
    intro i
    conv_lhs => rw [← cutAt_append (p := expired cfg now) (s.garbageFirst i)]
    rw [List.map_append, List.count_append, Nat.add_comm]
  have hfreed : (s.garbageCollector cfg now).timesFreed d = s.timesFreed d +
      ∑ i, ((cutAt (expired cfg now) (s.garbageFirst i)).2.map CsGarbage.data).count d := by
    rw [garbageCollector_eq, Fin.sum_univ_def]
    simp [timesFreed, List.map_flatMap, List.count_flatMap, Function.comp_def]
  rw [hfreed, timesKept_eq s, Finset.sum_congr rfl fun i _ => hsplit i, Finset.sum_add_distrib, timesKept_eq,
    garbageCollector_eq]
  exact Nat.add_assoc _ _ _

private theorem timesAdded_pass (s : Collector D) (cfg : Settings) (now : ℤ) (d : D) :
    (s.garbageCollector cfg now).timesAdded d = s.timesAdded d := by
  rw [garbageCollector_eq, timesAdded, timesAdded]

/-- What every call keeps. -/
structure Kept (cfg : Settings) (s : Collector D) : Prop where
  ordered : s.Ordered
  ledger : ∀ d, s.timesFreed d + s.timesKept d ≤ s.timesAdded d
  late : ∀ f ∈ s.freed, f.Direct cfg ∨ f.Late cfg

private theorem timesFreed_free (s : Collector D) (g : CsGarbage D) (now : ℤ) (memory : Bool) (d : D) :
    (s.free g now memory).timesFreed d = s.timesFreed d + [g.data].count d := by
  simp [timesFreed, Collector.free]

private theorem Kept.free (h : s.Kept cfg) (d : D) (now : ℤ) (memory : Bool) (counter : Fin hashBuckets)
    (hdirect : cfg.garbageCollectorActive = false ∨ cfg.garbageDebug = 1 ∨ memory = false) :
    (({ s with added := s.added ++ [d], counter := counter } : Collector D).free ⟨now, d⟩ now memory).Kept cfg where
  ordered := ⟨h.ordered.sorted, h.ordered.past⟩
  ledger d' := by
    have hle := h.ledger d'
    rw [timesFreed_free]
    change s.timesFreed d' + [d].count d' + s.timesKept d' ≤ (s.added ++ [d]).count d'
    rw [List.count_append]
    have hadded : s.timesAdded d' = s.added.count d' := rfl
    omega
  late f hf := by
    rcases List.mem_append.mp hf with hf | hf
    · exact h.late f hf
    · rw [List.mem_singleton.mp hf]
      exact .inl hdirect

private theorem Kept.insert (h : s.Kept cfg) (hnow : s.clock ≤ now) (d : D) (counter : Fin hashBuckets) :
    ({ Collector.insert cfg { s with added := s.added ++ [d], counter := counter } s.counter ⟨now, d⟩ with
      clock := now } : Collector D).Kept cfg := by
  have hpast : ∀ i, ∀ g ∈ s.garbageFirst i, g.time ≤ now := fun i g hg => (h.ordered.past i g hg).trans hnow
  unfold Collector.insert
  split_ifs with hdouble
  · refine ⟨⟨h.ordered.sorted, hpast⟩, fun d' => ?_, h.late⟩
    have hle := h.ledger d'
    change s.timesFreed d' + s.timesKept d' ≤ (s.added ++ [d]).count d'
    rw [List.count_append]
    exact hle.trans (Nat.le_add_right _ _)
  · refine ⟨⟨fun i => ?_, fun i g hg => ?_⟩, fun d' => ?_, h.late⟩
    · by_cases hi : i = s.counter
      · subst hi
        simp only [push, Function.update_self]
        exact List.pairwise_cons.mpr ⟨fun g hg => hpast _ g hg, h.ordered.sorted _⟩
      · simpa only [push, Function.update_of_ne hi] using h.ordered.sorted i
    · by_cases hi : i = s.counter
      · subst hi
        simp only [push, Function.update_self] at hg
        rcases List.mem_cons.mp hg with rfl | hg
        · exact le_rfl
        · exact hpast _ g hg
      · simp only [push, Function.update_of_ne hi] at hg
        exact hpast i g hg
    · have hle := h.ledger d'
      have hkept : (s.push s.counter ⟨now, d⟩).timesKept d' = s.timesKept d' + [d].count d' :=
        timesKept_push s s.counter ⟨now, d⟩ d'
      change s.timesFreed d' + (s.push s.counter ⟨now, d⟩).timesKept d' ≤ (s.added ++ [d]).count d'
      rw [hkept, List.count_append]
      have hadded : s.timesAdded d' = s.added.count d' := rfl
      omega

private theorem Kept.clock (h : s.Kept cfg) (hnow : s.clock ≤ now) : { s with clock := now }.Kept cfg :=
  ⟨⟨h.ordered.sorted, fun i g hg => (h.ordered.past i g hg).trans hnow⟩, h.ledger, h.late⟩

theorem Kept.addGarbage (h : s.Kept cfg) (hnow : s.clock ≤ now) (data : Option D) (malloc : Bool) :
    { s.addGarbage cfg data now malloc with clock := now }.Kept cfg := by
  cases data with
  | none => exact h.clock hnow
  | some d =>
    unfold Collector.addGarbage
    by_cases hdirect : ¬ cfg.garbageCollectorActive ∨ cfg.garbageDebug = 1
    · simp only [if_pos hdirect]
      refine (h.free d now malloc s.counter ?_).clock hnow
      rcases hdirect with hoff | hdebug
      · exact .inl (Bool.eq_false_of_not_eq_true hoff)
      · exact .inr (.inl hdebug)
    · simp only [if_neg hdirect]
      cases malloc with
      | true => exact h.insert hnow d (nextBucket s.counter)
      | false => exact (h.free d now false (nextBucket s.counter) (.inr (.inr rfl))).clock hnow

theorem Kept.pass (h : s.Kept cfg) (now : ℤ) : (s.garbageCollector cfg now).Kept cfg := by
  obtain ⟨hleft, hfreed⟩ := passFrees_of_ordered h.ordered cfg now
  refine ⟨⟨fun i => ?_, fun i g hg => ?_⟩, fun d => ?_, fun f hf => ?_⟩
  · simp only [hleft i]
    exact (h.ordered.sorted i).filter _
  · simp only [hleft i] at hg
    rw [clock_pass]
    exact h.ordered.past i g (List.mem_of_mem_filter hg)
  · have hle := h.ledger d
    rw [← ledger_pass s cfg now d, ← timesAdded_pass s cfg now d] at hle
    exact hle
  · simp only [hfreed] at hf
    rcases List.mem_append.mp hf with hf | hf
    · exact h.late f hf
    · obtain ⟨g, hg, rfl⟩ := List.mem_map.mp hf
      have hlate : g.time + cfg.timeoutTime < now := of_decide_eq_true (List.mem_filter.mp hg).2
      exact .inr hlate

private theorem kept_init (hs : (system cfg).init s) : s.Kept cfg := by
  obtain ⟨hempty, hadded, hfreed⟩ := hs
  refine ⟨⟨fun i => ?_, fun i g hg => ?_⟩, fun d => ?_, fun f hf => ?_⟩
  · simp [hempty]
  · simp [hempty] at hg
  · have hreachable : s.reachable = [] := by simp [reachable, hempty]
    simp [timesFreed, timesKept, hfreed, hreachable]
  · simp [hfreed] at hf

/-- What the collector keeps in every state its calls reach. -/
theorem kept_of_reachable (h : (system cfg).Reachable System.free s) : s.Kept cfg := by
  refine h.invariant (I := Kept cfg) (fun s hs => kept_init hs) fun s call t hs _ ht => ?_
  cases call with
  | addGarbage data now malloc =>
    simp only [system] at ht
    split_ifs at ht with hback
    exact Option.some.inj ht ▸ hs.addGarbage (not_lt.mp hback) data malloc
  | pass now =>
    simp only [system] at ht
    split_ifs at ht with hback
    have hnow : (s.garbageCollector cfg now).clock ≤ now := by
      rw [clock_pass]
      exact not_lt.mp hback
    exact Option.some.inj ht ▸ (hs.pass now).clock hnow

end Collector

variable [DecidableEq D]

/-- Everything is freed at most as often as it was handed over, and what is still in a bucket once less; what was
not freed by the call itself is freed only after its time, and each pass frees exactly that. -/
theorem garbageCollector_frees (cfg : Settings) (s : Collector D) (h : (system cfg).Reachable System.free s) :
    (∀ d, s.timesFreed d + s.timesKept d ≤ s.timesAdded d) ∧
    (∀ f ∈ s.freed, f.Direct cfg ∨ f.Late cfg) ∧
    ∀ now, PassFrees cfg s now := by
  have hkept := Collector.kept_of_reachable h
  exact ⟨hkept.ledger, hkept.late, fun now => Collector.passFrees_of_ordered hkept.ordered cfg now⟩

private def clientTimeout (garbageDebug : ℤ) : Settings where
  garbageCollectorActive := true
  garbageDebug := garbageDebug
  withDebug := false
  ctimeout := 5000

private def started : Collector ℕ := ⟨⟨0, Nat.succ_pos 249⟩, fun _ => [], 0, [], []⟩

/-- Data handed over at 100 and at 101, then a pass at 117: the first is freed. -/
theorem garbageCollector_frees_first : ∃ s : Collector ℕ,
    ((∀ d, s.timesFreed d + s.timesKept d ≤ s.timesAdded d) ∧
      (∀ f ∈ s.freed, f.Direct (clientTimeout 0) ∨ f.Late (clientTimeout 0)) ∧
      ∀ now, PassFrees (clientTimeout 0) s now) ∧
    s.freed = [⟨⟨100, 7⟩, 117, true⟩] ∧ s.garbageFirst ⟨1, by decide⟩ = [⟨101, 8⟩] := by
  obtain ⟨s, hs, hlast⟩ := @System.exists_reachable_of_exec _ _ (system (clientTimeout 0)) System.free _
    started ⟨fun _ => rfl, rfl, rfl⟩
    [.addGarbage (some 7) 100 true, .addGarbage (some 8) 101 true, .pass 117]
    (fun s => s.freed = [⟨⟨100, 7⟩, 117, true⟩] ∧ s.garbageFirst ⟨1, by decide⟩ = [⟨101, 8⟩])
    (by decide +kernel)
  exact ⟨s, garbageCollector_frees _ s hs, of_decide_eq_true hlast⟩

/-- With `garbage_debug` 1 data is freed when it is handed over; without, data that was handed over twice is freed
twice. -/
theorem freed_at_once_or_twice :
    (∃ s : Collector ℕ, (system (clientTimeout 1)).Reachable System.free s ∧ s.timesAdded 7 = 1 ∧
      ∃ f ∈ s.freed, f.garbage = ⟨100, 7⟩ ∧ ¬ f.Late (clientTimeout 1)) ∧
    ∃ s : Collector ℕ, (system (clientTimeout 0)).Reachable System.free s ∧ s.timesFreed 7 = 2 := by
  constructor
  · obtain ⟨s, hs, hlast⟩ := @System.exists_reachable_of_exec _ _ (system (clientTimeout 1)) System.free _
      started ⟨fun _ => rfl, rfl, rfl⟩ [.addGarbage (some 7) 100 true]
      (fun s => s.timesAdded 7 = 1 ∧ s.freed = [⟨⟨100, 7⟩, 100, true⟩]) (by decide +kernel)
    obtain ⟨hadded, hfreed⟩ : s.timesAdded 7 = 1 ∧ s.freed = [⟨⟨100, 7⟩, 100, true⟩] := of_decide_eq_true hlast
    refine ⟨s, hs, hadded, ⟨⟨100, 7⟩, 100, true⟩, ?_, rfl, ?_⟩
    · simp [hfreed]
    · change ¬ (100 + (clientTimeout 1).timeoutTime < 100)
      decide
  · obtain ⟨s, hs, hlast⟩ := @System.exists_reachable_of_exec _ _ (system (clientTimeout 0)) System.free _
      started ⟨fun _ => rfl, rfl, rfl⟩
      [.addGarbage (some 7) 100 true, .addGarbage (some 7) 100 true, .pass 200] (fun s => s.timesFreed 7 = 2)
      (by decide +kernel)
    exact ⟨s, hs, of_decide_eq_true hlast⟩

end NCam.Garbage
