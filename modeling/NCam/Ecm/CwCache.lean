import Mathlib.Data.List.TakeWhile
import NCam.Lib.Transition

/-! The list `ecmcwcache` of pending ECM requests: insertion by the client threads, some time after the
request was received, and the cleanup of `cw_process`. -/
namespace NCam.Ecm.CwCache

open NCam.Lib

/-- A request: its address and the second it was received in. -/
structure CachedEcm where
  addr : ℕ
  tps : ℤ
deriving DecidableEq

/-- What a cleanup did: the limit, the list it found, what it freed and what it left. -/
structure Cleanup where
  limit : ℤ
  before : List CachedEcm
  freed : List CachedEcm
  after : List CachedEcm
deriving DecidableEq

/-- `received` are the requests between `get_ecmtask` and their insertion, whose threads may be in
`ac_chk`'s fake delay. `cleanups` records the cleanups so far. -/
structure State where
  now : ℤ
  received : List CachedEcm
  ecmcwcache : List CachedEcm
  ecmcwcacheSize : ℕ
  cleanups : List Cleanup
deriving DecidableEq

/-- The walk of the cleanup: the chain from the first old request on, and the number of requests before
it. -/
def scan (ecmMaxcachetime : ℤ) : List CachedEcm → ℕ → Option (List CachedEcm) × ℕ
  | [], count => (none, count)
  | ecm :: rest, count =>
    if ecm.tps < ecmMaxcachetime then (some (ecm :: rest), count)
    else scan ecmMaxcachetime rest (count + 1)

/-- The list with the chain cut off. `new` was inserted since the walk; without a request before the
chain the whole list goes. -/
def cut (new before : List CachedEcm) (count : ℕ) : List CachedEcm :=
  if count = 0 then [] else new ++ before.take count

inductive Action
  /-- Time passes, or the clock is set. -/
  | tick (seconds : ℤ)
  /-- `get_ecmtask`. -/
  | receive (addr : ℕ)
  /-- The end of `get_cw`, for the request at position `i` of `received`. -/
  | insert (i : ℕ)
  /-- `get_cw` answers the request without inserting it. -/
  | drop (i : ℕ)
  /-- A cleanup with the time `tNow` of the start of its round. The requests `walk` are inserted between
  the walk and the cut, the requests `store` between the cut and the store of the size. -/
  | cleanup (tNow : ℤ) (ctimeout : ℕ) (walk store : List CachedEcm)

/-- `t_now` less the time that requests may stay, `ctimeout` in milliseconds. -/
def maxcachetime (tNow : ℤ) (ctimeout : ℕ) : ℤ := tNow - (((ctimeout + 500) / 1000 : ℕ) + 3)

def cleanupEcmcwcache (limit : ℤ) (walk store : List CachedEcm) (s : State) : State :=
  let (ecmt, count) := scan limit s.ecmcwcache 0
  let left := store ++ match ecmt with
    | some _ => cut walk s.ecmcwcache count
    | none => walk ++ s.ecmcwcache
  { s with
    received := s.received.filter fun ecm => !(walk ++ store).contains ecm
    ecmcwcache := left
    ecmcwcacheSize := count
    cleanups := ⟨limit, s.ecmcwcache, ecmt.getD [], left⟩ :: s.cleanups }

def next (s : State) : Action → Option State
  | .tick seconds => some { s with now := s.now + seconds }
  | .receive addr => some { s with received := ⟨addr, s.now⟩ :: s.received }
  | .insert i => (s.received[i]?).map fun ecm =>
    { s with
      received := s.received.eraseIdx i
      ecmcwcache := ecm :: s.ecmcwcache
      ecmcwcacheSize := s.ecmcwcacheSize + 1 }
  | .drop i => some { s with received := s.received.eraseIdx i }
  | .cleanup tNow ctimeout walk store =>
    if ∀ ecm ∈ walk ++ store, ecm ∈ s.received then
      some (cleanupEcmcwcache (maxcachetime tNow ctimeout) walk store s)
    else none

def system : System State Action where
  init s := s.received = [] ∧ s.ecmcwcache = [] ∧ s.ecmcwcacheSize = 0 ∧ s.cleanups = []
  next := next

/-- The cleanup freed exactly what is older than the limit and left everything else. -/
def Cleanup.Exact (c : Cleanup) : Prop :=
  c.freed = c.before.filter (·.tps < c.limit) ∧ c.after = c.before.filter fun ecm => ¬ ecm.tps < c.limit

/-- Behind a request older than `limit`, that is, inserted before it, all are older. -/
def OldBehindOld (limit : ℤ) (cache : List CachedEcm) : Prop :=
  cache.Pairwise fun ecm behind => ecm.tps < limit → behind.tps < limit

/-- Cleanups have no insertion in between, and find no younger request behind an older one. -/
def Orderly (s : State) (a : Action) : Prop :=
  match a with
  | .cleanup tNow ctimeout walk store =>
    walk = [] ∧ store = [] ∧ OldBehindOld (maxcachetime tNow ctimeout) s.ecmcwcache
  | _ => True

instance (limit : ℤ) (cache : List CachedEcm) : Decidable (OldBehindOld limit cache) :=
  inferInstanceAs (Decidable (List.Pairwise _ _))

instance (s : State) (a : Action) : Decidable (Orderly s a) := by
  cases a <;> unfold Orderly <;> infer_instance

structure Good (s : State) : Prop where
  size : s.ecmcwcacheSize = s.ecmcwcache.length
  exact : ∀ c ∈ s.cleanups, c.Exact

section Walk

variable {limit : ℤ} {cache : List CachedEcm}

/-- The walk splits the list at its first old request. -/
theorem scan_eq (count : ℕ) : scan limit cache count =
    (if (cache.dropWhile fun ecm => ¬ ecm.tps < limit) = [] then none
      else some (cache.dropWhile fun ecm => ¬ ecm.tps < limit),
      count + (cache.takeWhile fun ecm => ¬ ecm.tps < limit).length) := by
  induction cache generalizing count with
  | nil => rfl
  | cons ecm rest ih =>
    unfold scan
    by_cases hold : ecm.tps < limit
    · simp [hold]
    · rw [if_neg hold, ih, List.dropWhile_cons_of_pos (by simpa using hold),
        List.takeWhile_cons_of_pos (by simpa using hold), List.length_cons, Nat.add_assoc,
        Nat.add_comm 1]

theorem filter_eq_dropWhile_iff : cache.filter (·.tps < limit) =
    (cache.dropWhile fun ecm => ¬ ecm.tps < limit) ↔ OldBehindOld limit cache := by
  induction cache with
  | nil => simp [OldBehindOld]
  | cons ecm rest ih =>
    unfold OldBehindOld at ih ⊢
    rw [List.pairwise_cons]
    by_cases hold : ecm.tps < limit
    · rw [List.filter_cons_of_pos (by simpa using hold),
        List.dropWhile_cons_of_neg (by simpa using hold), List.cons.injEq, List.filter_eq_self]
      constructor
      · intro h
        have hrest : ∀ behind ∈ rest, behind.tps < limit := fun b hb => by simpa using h.2 b hb
        constructor
        · intro behind hb _
          exact hrest behind hb
        · exact List.pairwise_of_forall_mem_list fun _ _ b hb _ => hrest b hb
      · intro h
        exact ⟨rfl, fun b hb => by simpa using h.1 b hb hold⟩
    · rw [List.filter_cons_of_neg (by simpa using hold),
        List.dropWhile_cons_of_pos (by simpa using hold), ih]
      constructor
      · intro h
        exact ⟨fun _ _ hecm => absurd hecm hold, h⟩
      · intro h
        exact h.2

/-- What is left in front of the first old request is what is not old. -/
theorem filter_eq_takeWhile (h : OldBehindOld limit cache) :
    (cache.filter fun ecm => ¬ ecm.tps < limit) = cache.takeWhile fun ecm => ¬ ecm.tps < limit := by
  have hdrop := filter_eq_dropWhile_iff.mpr h
  have hall : ∀ ecm ∈ cache.dropWhile fun ecm => ¬ ecm.tps < limit, ecm.tps < limit := by
    intro ecm hecm
    rw [← hdrop] at hecm
    simpa using (List.mem_filter.mp hecm).2
  calc cache.filter (fun ecm => ¬ ecm.tps < limit)
      = ((cache.takeWhile fun ecm => ¬ ecm.tps < limit) ++
          cache.dropWhile fun ecm => ¬ ecm.tps < limit).filter fun ecm => ¬ ecm.tps < limit := by
        rw [List.takeWhile_append_dropWhile]
    _ = cache.takeWhile fun ecm => ¬ ecm.tps < limit := by
        rw [List.filter_append, List.filter_eq_self.mpr, List.filter_eq_nil_iff.mpr,
          List.append_nil]
        · intro ecm hecm
          simpa using hall ecm hecm
        · intro ecm hecm
          have hyoung := List.mem_takeWhile_imp hecm
          simpa using hyoung

end Walk

section Steps

variable {s : State}

/-- A cleanup without insertions in between frees the chain from the first old request on. -/
theorem cleanup_eq (limit : ℤ) (s : State) : cleanupEcmcwcache limit [] [] s =
    { s with
      ecmcwcache := s.ecmcwcache.takeWhile fun ecm => ¬ ecm.tps < limit
      ecmcwcacheSize := (s.ecmcwcache.takeWhile fun ecm => ¬ ecm.tps < limit).length
      cleanups := ⟨limit, s.ecmcwcache, s.ecmcwcache.dropWhile fun ecm => ¬ ecm.tps < limit,
        s.ecmcwcache.takeWhile fun ecm => ¬ ecm.tps < limit⟩ :: s.cleanups } := by
  have hsplit := List.takeWhile_append_dropWhile (p := fun ecm : CachedEcm => ¬ ecm.tps < limit)
    (l := s.ecmcwcache)
  have hreceived : (s.received.filter fun ecm => !([] ++ [] : List CachedEcm).contains ecm) =
      s.received := by simp
  unfold cleanupEcmcwcache
  rw [scan_eq, hreceived]
  by_cases hdrop : (s.ecmcwcache.dropWhile fun ecm => ¬ ecm.tps < limit) = []
  · rw [if_pos hdrop, hdrop]
    rw [hdrop, List.append_nil] at hsplit
    simp only [hsplit, Nat.zero_add, List.nil_append, Option.getD_none]
  · rw [if_neg hdrop]
    have hcut : cut [] s.ecmcwcache (s.ecmcwcache.takeWhile fun ecm => ¬ ecm.tps < limit).length =
        s.ecmcwcache.takeWhile fun ecm => ¬ ecm.tps < limit := by
      unfold cut
      split_ifs with hlen
      · exact (List.length_eq_zero_iff.mp hlen).symm
      · nth_rewrite 2 [← hsplit]
        exact List.take_left
    simp only [hcut, Nat.zero_add, List.nil_append, Option.getD_some]

/-- Without insertions in between a cleanup is exact if and only if it finds no younger request behind an
old one. -/
theorem exact_iff {limit : ℤ} {cache : List CachedEcm} :
    Cleanup.Exact ⟨limit, cache, cache.dropWhile fun ecm => ¬ ecm.tps < limit,
      cache.takeWhile fun ecm => ¬ ecm.tps < limit⟩ ↔ OldBehindOld limit cache := by
  constructor
  · intro h
    exact filter_eq_dropWhile_iff.mp h.1.symm
  · intro h
    exact ⟨(filter_eq_dropWhile_iff.mpr h).symm, (filter_eq_takeWhile h).symm⟩

theorem Good.cleanup (h : Good s) {limit : ℤ} (hold : OldBehindOld limit s.ecmcwcache) :
    Good (cleanupEcmcwcache limit [] [] s) := by
  rw [cleanup_eq]
  constructor
  · rfl
  · intro c hc
    rcases List.mem_cons.mp hc with rfl | hc
    · exact exact_iff.mpr hold
    · exact h.exact c hc

theorem Good.next {s' : State} {a : Action} (h : Good s) (hguard : Orderly s a)
    (hnext : system.next s a = some s') : Good s' := by
  change CwCache.next s a = some s' at hnext
  unfold CwCache.next at hnext
  cases a with
  | tick seconds =>
    rw [← Option.some.inj hnext]
    exact ⟨h.size, h.exact⟩
  | receive addr =>
    rw [← Option.some.inj hnext]
    exact ⟨h.size, h.exact⟩
  | insert i =>
    obtain ⟨ecm, _, rfl⟩ := Option.map_eq_some_iff.mp hnext
    constructor
    · dsimp only
      rw [h.size, List.length_cons]
    · exact h.exact
  | drop i =>
    rw [← Option.some.inj hnext]
    exact ⟨h.size, h.exact⟩
  | cleanup tNow ctimeout walk store =>
    obtain ⟨rfl, rfl, hold⟩ := hguard
    dsimp only at hnext
    rw [Option.ite_none_right_eq_some] at hnext
    rw [← Option.some.inj hnext.2]
    exact h.cleanup hold

end Steps

/-- In every run whose cleanups have no insertion in between and find no younger request behind an older
one, every cleanup is exact and the size is that of the list. -/
theorem orderly_good {s : State} (h : system.Reachable Orderly s) : Good s := by
  apply h.invariant
  · intro s hinit
    obtain ⟨_, hcache, hsize, hcleanups⟩ := hinit
    constructor
    · rw [hcache, hsize]
      rfl
    · rw [hcleanups]
      simp
  · intro s a s' hs hguard hnext
    exact hs.next hguard hnext

def empty : State where
  now := 100
  received := []
  ecmcwcache := []
  ecmcwcacheSize := 0
  cleanups := []

/-- Two requests, one of which the cleanup frees. -/
theorem orderly_good_two : ∃ s, system.Reachable Orderly s ∧
    s.ecmcwcache = [⟨1, 108⟩] ∧ s.cleanups.length = 1 ∧ Good s := by
  obtain ⟨s, hs, hp⟩ := System.exists_reachable_of_exec (G := Orderly) (S := system) (s := empty)
    (by exact ⟨rfl, rfl, rfl, rfl⟩)
    [.receive 0, .insert 0, .tick 8, .receive 1, .insert 0, .tick 1, .cleanup 109 5000 [] []]
    (fun s => s.ecmcwcache = [⟨1, 108⟩] ∧ s.cleanups.length = 1) (by decide)
  obtain ⟨hcache, hlen⟩ := of_decide_eq_true hp
  exact ⟨s, hs, hcache, hlen, orderly_good hs⟩

/-- Request 0 sleeps in the fake delay while request 1 comes in. The cleanup frees both, though request 1
is not old. -/
theorem delayed_frees_younger : ∃ s, system.Reachable System.free s ∧ s.ecmcwcache = [] ∧
    s.cleanups = [⟨101, [⟨0, 100⟩, ⟨1, 101⟩], [⟨0, 100⟩, ⟨1, 101⟩], []⟩] ∧ ¬ Good s := by
  obtain ⟨s, hs, hp⟩ := System.exists_reachable_of_exec (G := System.free) (S := system)
    (s := empty) (by exact ⟨rfl, rfl, rfl, rfl⟩)
    [.receive 0, .tick 1, .receive 1, .insert 0, .insert 0, .tick 8, .cleanup 109 5000 [] []]
    (fun s => s.ecmcwcache = [] ∧
      s.cleanups = [⟨101, [⟨0, 100⟩, ⟨1, 101⟩], [⟨0, 100⟩, ⟨1, 101⟩], []⟩]) (by decide)
  obtain ⟨hcache, hcleanups⟩ := of_decide_eq_true hp
  refine ⟨s, hs, hcache, hcleanups, ?_⟩
  intro hgood
  have hexact := hgood.exact ⟨101, [⟨0, 100⟩, ⟨1, 101⟩], [⟨0, 100⟩, ⟨1, 101⟩], []⟩ (by simp [hcleanups])
  exact absurd hexact.1 (by decide)

end NCam.Ecm.CwCache
