import NCam.Lib.Slots
import NCam.Lib.Transition
import NCam.Lib.Walks

/-! The EMM filters of all demuxers: `check_add_emmpid` starts one or lets it wait, and `rotate_emmfilter`
gives the waiting ones their turn. -/
namespace NCam.Dvbapi.EmmFilters

open NCam.Lib

structure EmmPid where
  pid : BitVec 16
  caid : BitVec 16
  provid : BitVec 32

/-- What a filter is for. -/
structure Key where
  demuxId : ℕ
  caid : BitVec 16
  provid : BitVec 32
  pid : BitVec 16
  filter : BitVec 256
  deriving DecidableEq

/-- `s_emm_filter` in a node at `addr`; the start time is in milliseconds. -/
structure EmmFilter where
  addr : ℕ
  key : Key
  num : ℤ
  timeStarted : ℤ
  deriving DecidableEq

/-- An entry of `demux_fd` in use. -/
structure Fd where
  emm : Bool
  caid : BitVec 16
  provid : BitVec 32
  pid : BitVec 16
  deriving DecidableEq

/-- What does not change: the limits and the EMM pids of the demuxers. -/
structure Box where
  maxfilter : ℕ
  maxEmmFilter : ℕ → ℕ
  emmpids : ℕ → ℕ → EmmPid

/-- `added` lists the filters that `check_add_emmpid` started or let wait. -/
structure Emm where
  active : List EmmFilter
  inactive : List EmmFilter
  pending : List EmmFilter
  nextAddr : ℕ
  demuxFd : ℕ → ℕ → Option Fd
  emmFilter : ℕ → ℤ
  added : List Key

/-- What a call finds outside: what the clock shows when the call begins, whether the `k`-th start of a
filter gets through, what the clock shows then, and the filters that a priority forces. -/
structure Env where
  now : ℤ
  starts : ℕ → Bool
  clock : ℕ → ℤ
  forced : Key → Bool

namespace Emm

variable (box : Box) (env : Env)

/-- Only a filter that runs is told when it was started. -/
def addEmmfilterToList (s : Emm) (key : Key) (num timeStarted : ℤ) : Emm :=
  let item : EmmFilter := ⟨s.nextAddr, key, num, timeStarted⟩
  let s := { s with nextAddr := s.nextAddr + 1 }
  if 0 < num then { s with active := s.active ++ [item] }
  else if num < 0 then { s with pending := s.pending ++ [item] }
  else { s with inactive := s.inactive ++ [item] }

/-- The demuxer is not compared. -/
def isEmmfilterInList (s : Emm) (key : Key) : Bool :=
  (s.active ++ s.inactive ++ s.pending).any fun item =>
    item.key.filter = key.filter ∧ item.key.pid = key.pid ∧ item.key.provid = key.provid ∧
      item.key.caid = key.caid

/-- The first entry of a list with these values. -/
def isEntry (demuxId : ℕ) (fd : Fd) (num : ℤ) (item : EmmFilter) : Bool :=
  item.key.demuxId = demuxId ∧ item.key.caid = fd.caid ∧ item.key.provid = fd.provid ∧
    item.key.pid = fd.pid ∧ item.num = num

def removeEmmfilterFromList (s : Emm) (demuxId : ℕ) (fd : Fd) (num : ℤ) : Emm :=
  let p := isEntry demuxId fd num
  if s.active.any p then { s with active := s.active.eraseP p }
  else if s.inactive.any p then { s with inactive := s.inactive.eraseP p }
  else { s with pending := s.pending.eraseP p }

/-- `dvbapi_set_filter` for an EMM filter, in the first free place of its demuxer. -/
def setFilter (s : Emm) (key : Key) (k : ℕ) : Option Emm :=
  match Slots.firstWhere Option.isNone (s.demuxFd key.demuxId) box.maxfilter with
  | none => none
  | some n =>
    if env.starts k then
      let fds := Function.update (s.demuxFd key.demuxId) n (some ⟨true, key.caid, key.provid, key.pid⟩)
      let s := { s with demuxFd := Function.update s.demuxFd key.demuxId fds }
      some (s.addEmmfilterToList key (n + 1) (env.clock k))
    else none

/-- `dvbapi_stop_filternum`, as far as the EMM filters go. -/
def stopFilternum (s : Emm) (demuxId num : ℕ) : Emm :=
  match s.demuxFd demuxId num with
  | none => s
  | some fd =>
    let s := if fd.emm then s.removeEmmfilterFromList demuxId fd (num + 1) else s
    let fds := Function.update (s.demuxFd demuxId) num none
    { s with demuxFd := Function.update s.demuxFd demuxId fds }

def checkAddEmmpid (s : Emm) (demuxId : ℕ) (filter : BitVec 256) (l : ℤ) : Emm :=
  if l < 0 then s
  else
    let emmpid := box.emmpids demuxId l.toNat
    let key : Key := ⟨demuxId, emmpid.caid, emmpid.provid, emmpid.pid, filter⟩
    if s.isEmmfilterInList key then s
    else
      let s := { s with added := s.added ++ [key] }
      let started :=
        if s.emmFilter demuxId < (box.maxEmmFilter demuxId : ℤ) then s.setFilter box env key 0 else none
      match started with
      | some s =>
        let emmFilter := if s.emmFilter demuxId = -1 then 0 else s.emmFilter demuxId
        { s with emmFilter := Function.update s.emmFilter demuxId (emmFilter + 1) }
      | none => s.addEmmfilterToList key 0 0

/-- The filter was active for 45 s, and no priority forces it. -/
def due (item : EmmFilter) : Bool := 45 * 1000 < env.now - item.timeStarted ∧ !env.forced item.key

/-- `ll_iter_next`: a position that is not in the list any more begins anew. -/
def iterNext (items : List EmmFilter) (cur : Option ℕ) : Option EmmFilter :=
  nextAfter EmmFilter.addr items cur

/-- The loop state of `rotate_emmfilter`. `tries` numbers the starts. -/
structure Rotation where
  s : Emm
  cur : Option ℕ
  stopped : ℕ
  started : ℕ
  tries : ℕ

/-- The filter is stopped, and waits for the next rotation. `ll_iter_remove_data` removes a node that is
still there, and goes back to the one before it. -/
def Rotation.stop (r : Rotation) (item : EmmFilter) : Rotation :=
  let s := r.s.stopFilternum item.key.demuxId (item.num - 1).toNat
  let isItem (other : EmmFilter) : Bool := other.addr = item.addr
  let before := s.active.takeWhile fun other => !isItem other
  let cur := if s.active.any isItem then before.getLast?.map (·.addr) else r.cur
  let s := { s with active := s.active.eraseP isItem }
  { r with s := s.addEmmfilterToList item.key (-1) 0, cur := cur, stopped := r.stopped + 1 }

/-- The loop that tries the waiting filters; `before` holds those that could not be started. -/
def Rotation.start (r : Rotation) (before : List EmmFilter) : List EmmFilter → Rotation
  | [] => r
  | item :: rest =>
    match r.s.setFilter box env item.key r.tries with
    | some s =>
      { r with
        s := { s with inactive := before ++ rest }
        started := r.started + 1
        tries := r.tries + 1 }
    | none => Rotation.start { r with tries := r.tries + 1 } (before ++ [item]) rest

/-- A round of the loop over the active filters. -/
def Rotation.round (r : Rotation) (item : EmmFilter) : Rotation :=
  let r := { r with cur := some item.addr }
  let r := if due env item then r.stop item else r
  if r.started < r.stopped then r.start box env [] r.s.inactive else r

/-- There is no result if more than `fuel` rounds are needed. -/
def rotateLoop (filterQueue : ℕ) : ℕ → Rotation → Option Rotation
  | 0, _ => none
  | fuel + 1, r =>
    match iterNext r.s.active r.cur with
    | none => some r
    | some item =>
      if r.s.inactive = [] ∨ r.started = filterQueue then some r
      else rotateLoop filterQueue fuel (r.round box env item)

/-- The pending filters become inactive ones. -/
def drain (s : Emm) : Emm :=
  s.pending.foldl (fun s item => s.addEmmfilterToList item.key 0 0) { s with pending := [] }

/-- There is something to rotate. -/
def rotates (s : Emm) (demuxId : ℕ) : Prop :=
  0 < box.maxEmmFilter demuxId ∧ s.inactive ≠ [] ∧
    box.maxEmmFilter demuxId < s.active.length + s.inactive.length

instance (s : Emm) (demuxId : ℕ) : Decidable (s.rotates box demuxId) := by
  unfold rotates
  infer_instance

def rotateEmmfilter (s : Emm) (demuxId fuel : ℕ) : Option Emm :=
  if s.rotates box demuxId then
    (rotateLoop box env s.inactive.length fuel ⟨s, none, 0, 0, 0⟩).map fun r => r.s.drain
  else some s

end Emm

inductive Act
  | checkAdd (demuxId : ℕ) (filter : BitVec 256) (l : ℤ) (env : Env)
  | rotate (demuxId : ℕ) (env : Env) (fuel : ℕ)

def system (box : Box) : System Emm Act where
  init s := s.active = [] ∧ s.inactive = [] ∧ s.pending = [] ∧ s.added = [] ∧ ∀ d, s.emmFilter d = -1
  next s
    | .checkAdd demuxId filter l env => some (s.checkAddEmmpid box env demuxId filter l)
    | .rotate demuxId env fuel => s.rotateEmmfilter box env demuxId fuel

/-- A rotation that stops a filter has only filters of that demuxer to start instead, and starts them. -/
def Clear (box : Box) (s : Emm) : Act → Prop
  | .rotate demuxId env _ => s.rotates box demuxId → ∀ item ∈ s.active, Emm.due env item →
      (∀ other ∈ s.inactive, other.key.demuxId = item.key.demuxId) ∧
        ∀ k < s.inactive.length, env.starts k = true
  | _ => True

instance (box : Box) (s : Emm) (a : Act) : Decidable (Clear box s a) := by
  unfold Clear
  cases a <;> infer_instance

section Lists

variable {box : Box} {env : Env} {s t : Emm}

/-- All filters in the lists. -/
def Emm.keys (s : Emm) : List Key := (s.active ++ s.inactive ++ s.pending).map EmmFilter.key

/-- The active filters of a demuxer. -/
def Emm.activeOf (s : Emm) (d : ℕ) : ℕ := s.active.countP fun item => item.key.demuxId = d

/-- The active filters run, each in a place of its own. -/
structure Running (box : Box) (s : Emm) : Prop where
  addr : ∀ item ∈ s.active, item.addr < s.nextAddr
  distinct : (s.active.map EmmFilter.addr).Nodup
  places : (s.active.map fun item => (item.key.demuxId, item.num)).Nodup
  place : ∀ item ∈ s.active, ∃ n < box.maxfilter, item.num = n + 1 ∧
    s.demuxFd item.key.demuxId n = some ⟨true, item.key.caid, item.key.provid, item.key.pid⟩

/-- A filter that is started is active, in a place that was free. -/
structure Started (box : Box) (key : Key) (s t : Emm) : Prop where
  active : ∃ item, item.key = key ∧ t.active = s.active ++ [item]
  inactive : t.inactive = s.inactive
  pending : t.pending = s.pending
  emmFilter : t.emmFilter = s.emmFilter
  added : t.added = s.added
  running : Running box s → Running box t

theorem setFilter_started {key : Key} {k : ℕ} (h : s.setFilter box env key k = some t) :
    Started box key s t := by
  unfold Emm.setFilter at h
  cases hfirst : Slots.firstWhere Option.isNone (s.demuxFd key.demuxId) box.maxfilter with
  | none =>
    rw [hfirst] at h
    cases h
  | some n =>
    rw [hfirst] at h
    dsimp only at h
    split_ifs at h with hstarts
    obtain ⟨hn, hfree, -⟩ := Slots.firstWhere_eq_some hfirst
    obtain rfl := Option.some.inj h
    unfold Emm.addEmmfilterToList
    rw [if_pos (by omega)]
    refine ⟨⟨_, rfl, rfl⟩, rfl, rfl, rfl, rfl, fun hr => ⟨?_, ?_, ?_, ?_⟩⟩
    · intro item hitem
      rcases List.mem_append.mp hitem with hitem | hitem
      · exact (hr.addr item hitem).trans (Nat.lt_succ_self _)
      · obtain rfl := List.mem_singleton.mp hitem
        exact Nat.lt_succ_self _
    · rw [List.map_append, List.map_singleton]
      refine hr.distinct.append (List.nodup_singleton _) (List.disjoint_singleton.mpr ?_)
      intro hmem
      obtain ⟨item, hitem, heq⟩ := List.mem_map.mp hmem
      exact absurd heq (hr.addr item hitem).ne
    · rw [List.map_append, List.map_singleton]
      refine hr.places.append (List.nodup_singleton _) (List.disjoint_singleton.mpr ?_)
      intro hmem
      obtain ⟨item, hitem, heq⟩ := List.mem_map.mp hmem
      obtain ⟨hdemux, hnum⟩ := Prod.mk.inj heq
      obtain ⟨m, -, hm, hfd⟩ := hr.place item hitem
      have hnum' : item.num = n + 1 := hnum
      obtain rfl : m = n := by omega
      rw [hdemux] at hfd
      rw [hfd] at hfree
      cases hfree
    · intro item hitem
      rcases List.mem_append.mp hitem with hitem | hitem
      · obtain ⟨m, hm, hnum, hfd⟩ := hr.place item hitem
        refine ⟨m, hm, hnum, ?_⟩
        dsimp only
        by_cases hdemux : item.key.demuxId = key.demuxId
        · have hne : m ≠ n := by
            rintro rfl
            rw [hdemux] at hfd
            rw [hfd] at hfree
            cases hfree
          rw [hdemux, Function.update_self, Function.update_of_ne hne, ← hdemux]
          exact hfd
        · rw [Function.update_of_ne hdemux]
          exact hfd
      · obtain rfl := List.mem_singleton.mp hitem
        exact ⟨n, hn, rfl, by dsimp only; rw [Function.update_self, Function.update_self]⟩

/-- A filter can be started where its demuxer has a free place. -/
theorem setFilter_isSome {key : Key} {k n : ℕ} (hn : n < box.maxfilter)
    (hfree : s.demuxFd key.demuxId n = none) (hstarts : env.starts k = true) :
    (s.setFilter box env key k).isSome = true := by
  unfold Emm.setFilter
  cases hfirst : Slots.firstWhere Option.isNone (s.demuxFd key.demuxId) box.maxfilter with
  | none =>
    have hused := Slots.firstWhere_eq_none.mp hfirst n hn
    rw [hfree] at hused
    cases hused
  | some m =>
    dsimp only
    rw [if_pos hstarts]
    rfl

/-- A filter that is stopped leaves its place and the list of the active ones. -/
structure Stopped (box : Box) (item : EmmFilter) (s t : Emm) : Prop where
  active : ∃ before after, s.active = before ++ item :: after ∧ t.active = before ++ after
  inactive : t.inactive = s.inactive
  pending : t.pending = s.pending
  nextAddr : t.nextAddr = s.nextAddr
  emmFilter : t.emmFilter = s.emmFilter
  added : t.added = s.added
  running : Running box t
  free : ∃ n < box.maxfilter, t.demuxFd item.key.demuxId n = none

theorem stopFilternum_stopped (hr : Running box s) {item : EmmFilter} (hitem : item ∈ s.active) :
    Stopped box item s (s.stopFilternum item.key.demuxId (item.num - 1).toNat) := by
  obtain ⟨n, hn, hnum, hfd⟩ := hr.place item hitem
  have htoNat : (item.num - 1).toNat = n := by omega
  unfold Emm.stopFilternum
  rw [htoNat, hfd]
  dsimp only
  rw [if_pos rfl]
  unfold Emm.removeEmmfilterFromList
  dsimp only
  set p := Emm.isEntry item.key.demuxId ⟨true, item.key.caid, item.key.provid, item.key.pid⟩ (n + 1)
    with hp
  have hpitem : p item = true := by
    rw [hp, Emm.isEntry]
    simp [hnum]
  obtain ⟨other, before, after, -, hother, hsplit, herase⟩ := List.exists_of_eraseP hitem hpitem
  have hsame : other = item := by
    have hmem : other ∈ s.active := hsplit ▸ List.mem_append_right _ List.mem_cons_self
    refine List.inj_on_of_nodup_map hr.places hmem hitem (Prod.ext ?_ ?_)
    · rw [hp, Emm.isEntry] at hother
      exact (of_decide_eq_true hother).1
    · rw [hp, Emm.isEntry] at hother
      exact (of_decide_eq_true hother).2.2.2.2.trans hnum.symm
  subst hsame
  rw [if_pos (List.any_eq_true.mpr ⟨other, hitem, hpitem⟩), herase]
  have hsub : (before ++ after).Sublist s.active := by
    rw [hsplit]
    exact (List.sublist_cons_self _ _).append_left _
  have hplaces := hr.places
  rw [hsplit, List.map_append, List.map_cons] at hplaces
  have hno := (List.nodup_middle.mp hplaces).notMem
  rw [← List.map_append] at hno
  refine ⟨⟨before, after, hsplit, rfl⟩, rfl, rfl, rfl, rfl, rfl, ⟨?_, ?_, ?_, ?_⟩, n, hn, ?_⟩
  · exact fun i hi => hr.addr i (hsub.subset hi)
  · exact hr.distinct.sublist (hsub.map _)
  · exact hr.places.sublist (hsub.map _)
  · intro i hi
    obtain ⟨m, hm, hinum, hifd⟩ := hr.place i (hsub.subset hi)
    refine ⟨m, hm, hinum, ?_⟩
    dsimp only
    by_cases hdemux : i.key.demuxId = other.key.demuxId
    · have hne : m ≠ n := by
        rintro rfl
        exact hno (List.mem_map.mpr ⟨i, hi, Prod.ext hdemux (hinum.trans hnum.symm)⟩)
      rw [hdemux, Function.update_self, Function.update_of_ne hne, ← hdemux]
      exact hifd
    · rw [Function.update_of_ne hdemux]
      exact hifd
  · dsimp only
    rw [Function.update_self, Function.update_self]

end Lists

section Rotation

open Emm

variable {box : Box} {env : Env} {r : Rotation}

/-- What the loop of `rotate_emmfilter` keeps. -/
structure Keeps (box : Box) (s t : Emm) : Prop where
  running : Running box t
  keys : t.keys.Perm s.keys
  emmFilter : t.emmFilter = s.emmFilter
  added : t.added = s.added

theorem Keeps.trans {s t u : Emm} (h : Keeps box s t) (h' : Keeps box t u) : Keeps box s u :=
  ⟨h'.running, h'.keys.trans h.keys, h'.emmFilter.trans h.emmFilter, h'.added.trans h.added⟩

/-- A round that stops a filter. -/
structure Stops (box : Box) (item : EmmFilter) (r r' : Rotation) : Prop where
  keeps : Keeps box r.s r'.s
  active : ∃ before after, r.s.active = before ++ item :: after ∧ r'.s.active = before ++ after
  inactive : r'.s.inactive = r.s.inactive
  free : ∃ n < box.maxfilter, r'.s.demuxFd item.key.demuxId n = none
  stopped : r'.stopped = r.stopped + 1
  started : r'.started = r.started
  tries : r'.tries = r.tries

theorem Rotation.stop_stops (hr : Running box r.s) {item : EmmFilter} (hitem : item ∈ r.s.active) :
    Stops box item r (r.stop item) := by
  have hs := stopFilternum_stopped hr hitem
  unfold Rotation.stop
  generalize r.s.stopFilternum item.key.demuxId (item.num - 1).toNat = t at hs
  obtain ⟨before, after, hsplit, hactive⟩ := hs.active
  have hdistinct := hr.distinct
  rw [hsplit, List.map_append, List.map_cons] at hdistinct
  have hno := (List.nodup_middle.mp hdistinct).notMem
  rw [← List.map_append, ← hactive] at hno
  have hgone : ∀ other ∈ t.active, ¬ decide (other.addr = item.addr) = true := by
    intro other hother heq
    exact hno (List.mem_map.mpr ⟨other, hother, of_decide_eq_true heq⟩)
  dsimp only
  rw [List.eraseP_of_forall_not hgone]
  unfold addEmmfilterToList
  rw [if_neg (by decide), if_pos (by decide)]
  refine ⟨⟨⟨?_, hs.running.distinct, hs.running.places, hs.running.place⟩, ?_, hs.emmFilter, hs.added⟩,
    ⟨before, after, hsplit, hactive⟩, hs.inactive, hs.free, rfl, rfl, rfl⟩
  · exact fun other hother => (hs.running.addr other hother).trans (Nat.lt_succ_self _)
  · rw [List.perm_iff_count]
    intro key
    unfold Emm.keys
    dsimp only
    rw [hsplit, hactive, hs.inactive, hs.pending]
    simp only [List.map_append, List.map_cons, List.map_nil, List.count_append, List.count_cons,
      List.count_nil]
    omega

/-- A round that starts a filter. -/
structure Starts (box : Box) (r r' : Rotation) : Prop where
  keeps : Running box r.s → Keeps box r.s r'.s
  moved : ∃ before item item' after, r.s.inactive = before ++ item :: after ∧
    r'.s.inactive = before ++ after ∧ item'.key = item.key ∧ r'.s.active = r.s.active ++ [item']
  started : r'.started = r.started + 1

theorem Rotation.start_starts (r : Rotation) (before rest : List EmmFilter)
    (h : r.s.inactive = before ++ rest) :
    ((r.start box env before rest).cur = r.cur ∧ (r.start box env before rest).stopped = r.stopped) ∧
      ((r.start box env before rest).s = r.s ∧ (r.start box env before rest).started = r.started ∨
        Starts box r (r.start box env before rest)) := by
  induction rest generalizing r before with
  | nil => exact ⟨⟨rfl, rfl⟩, Or.inl ⟨rfl, rfl⟩⟩
  | cons item rest ih =>
    unfold Rotation.start
    cases hset : r.s.setFilter box env item.key r.tries with
    | none =>
      dsimp only
      have hrest : ({ r with tries := r.tries + 1 } : Rotation).s.inactive =
          (before ++ [item]) ++ rest := by
        rw [List.append_assoc]
        exact h
      obtain ⟨hkeep, hcases⟩ := ih { r with tries := r.tries + 1 } (before ++ [item]) hrest
      refine ⟨hkeep, hcases.imp id fun hstarts => ?_⟩
      exact ⟨hstarts.keeps, hstarts.moved, hstarts.started⟩
    | some t =>
      have ht := setFilter_started hset
      obtain ⟨item', hkey, hactive⟩ := ht.active
      refine ⟨⟨rfl, rfl⟩, Or.inr ⟨fun hr => ?_, ⟨before, item, item', rest, h, rfl, hkey, hactive⟩, rfl⟩⟩
      have hrun := ht.running hr
      refine ⟨⟨hrun.addr, hrun.distinct, hrun.places, hrun.place⟩, ?_, ht.emmFilter, ht.added⟩
      rw [List.perm_iff_count]
      intro key
      unfold Emm.keys
      dsimp only
      rw [h, hactive, ht.pending]
      simp only [List.map_append, List.map_cons, List.map_nil, List.count_append, List.count_cons,
        List.count_nil, hkey]
      omega

/-- A round loses no filter. -/
theorem round_keeps (hr : Running box r.s) {item : EmmFilter} (hitem : item ∈ r.s.active) :
    Keeps box r.s (r.round box env item).s := by
  have hself : Keeps box r.s r.s := ⟨hr, List.Perm.refl _, rfl, rfl⟩
  have hstart : ∀ r' : Rotation, Keeps box r.s r'.s →
      Keeps box r.s (if r'.started < r'.stopped then r'.start box env [] r'.s.inactive else r').s := by
    intro r' hkeeps
    split_ifs
    · obtain ⟨-, ⟨hsame, -⟩ | hstarts⟩ :=
        @Rotation.start_starts box env r' [] r'.s.inactive rfl
      · rw [hsame]
        exact hkeeps
      · exact hkeeps.trans (hstarts.keeps hkeeps.running)
    · exact hkeeps
  unfold Rotation.round
  dsimp only
  refine hstart _ ?_
  split_ifs with hdue
  · exact (Rotation.stop_stops (r := { r with cur := some item.addr }) hr hitem).keeps
  · exact hself

theorem rotateLoop_keeps {filterQueue fuel : ℕ} {r' : Rotation} (hr : Running box r.s)
    (h : rotateLoop box env filterQueue fuel r = some r') : Keeps box r.s r'.s := by
  have hself : Keeps box r.s r.s := ⟨hr, List.Perm.refl _, rfl, rfl⟩
  induction fuel generalizing r with
  | zero => cases h
  | succ fuel ih =>
    unfold rotateLoop at h
    cases hnext : iterNext r.s.active r.cur with
    | none =>
      rw [hnext] at h
      obtain rfl := Option.some.inj h
      exact hself
    | some item =>
      rw [hnext] at h
      dsimp only at h
      split_ifs at h with hend
      · obtain rfl := Option.some.inj h
        exact hself
      · have hkeeps := @round_keeps box env r hr item (mem_of_nextAfter hnext)
        exact hkeeps.trans (ih hkeeps.running h ⟨hkeeps.running, List.Perm.refl _, rfl, rfl⟩)

/-- The pending filters go to the inactive ones. -/
theorem drain_keeps {s : Emm} (hr : Running box s) :
    Keeps box s s.drain ∧ s.drain.active = s.active ∧ s.drain.pending = [] := by
  have hfold : ∀ (items : List EmmFilter) (t : Emm), Running box t → t.pending = [] →
      let u := items.foldl (fun s item => s.addEmmfilterToList item.key 0 0) t
      Running box u ∧ u.keys.Perm (t.keys ++ items.map EmmFilter.key) ∧ u.emmFilter = t.emmFilter ∧
        u.added = t.added ∧ u.active = t.active ∧ u.pending = [] := by
    intro items
    induction items with
    | nil => exact fun t ht hp => ⟨ht, by simp, rfl, rfl, rfl, hp⟩
    | cons item items ih =>
      intro t ht hp
      have hadd : t.addEmmfilterToList item.key 0 0 =
          { t with nextAddr := t.nextAddr + 1, inactive := t.inactive ++ [⟨t.nextAddr, item.key, 0, 0⟩] } :=
        rfl
      rw [List.foldl_cons, hadd]
      obtain ⟨hrun, hkeys, hemm, hadded, hactive, hpend⟩ := ih
        { t with nextAddr := t.nextAddr + 1, inactive := t.inactive ++ [⟨t.nextAddr, item.key, 0, 0⟩] }
        ⟨fun i hi => (ht.addr i hi).trans (Nat.lt_succ_self _), ht.distinct, ht.places, ht.place⟩ hp
      refine ⟨hrun, hkeys.trans ?_, hemm, hadded, hactive, hpend⟩
      rw [List.perm_iff_count]
      intro key
      unfold Emm.keys
      dsimp only
      rw [hp]
      simp only [List.map_append, List.map_cons, List.map_nil, List.count_append, List.count_cons,
        List.count_nil]
      omega
  obtain ⟨hrun, hkeys, hemm, hadded, hactive, hpend⟩ := hfold s.pending { s with pending := [] }
    ⟨hr.addr, hr.distinct, hr.places, hr.place⟩ rfl
  refine ⟨⟨hrun, hkeys.trans ?_, hemm, hadded⟩, hactive, hpend⟩
  unfold Emm.keys
  dsimp only
  rw [List.append_nil, List.map_append, List.map_append, List.map_append]

/-- A round changes nothing but the position, or moves a filter. -/
theorem round_progress (hr : Running box r.s) {item : EmmFilter} (hitem : item ∈ r.s.active) :
    (r.round box env item).s = r.s ∧ (r.round box env item).cur = some item.addr ∨
      2 * (r.round box env item).s.inactive.length + (r.round box env item).s.active.length <
        2 * r.s.inactive.length + r.s.active.length := by
  have hstart : ∀ r₁ r₂ : Rotation,
      (if r₁.started < r₁.stopped then r₁.start box env [] r₁.s.inactive else r₁) = r₂ →
      r₂.s = r₁.s ∧ r₂.cur = r₁.cur ∨
        2 * r₂.s.inactive.length + r₂.s.active.length <
          2 * r₁.s.inactive.length + r₁.s.active.length := by
    intro r₁ r₂ h
    split_ifs at h
    · obtain ⟨⟨hcur, -⟩, ⟨hsame, -⟩ | hstarts⟩ :=
        @Rotation.start_starts box env r₁ [] r₁.s.inactive rfl
      · rw [← h]
        exact Or.inl ⟨hsame, hcur⟩
      · obtain ⟨before, other, other', after, hsplit, hinactive, -, hactive⟩ := hstarts.moved
        refine Or.inr ?_
        rw [← h, hinactive, hactive, hsplit]
        simp only [List.length_append, List.length_cons, List.length_nil]
        omega
    · rw [← h]
      exact Or.inl ⟨rfl, rfl⟩
  unfold Rotation.round
  dsimp only
  by_cases hdue : due env item = true
  case neg =>
    rw [if_neg hdue]
    exact hstart { r with cur := some item.addr } _ rfl
  rw [if_pos hdue]
  have hstop := Rotation.stop_stops (r := { r with cur := some item.addr }) hr hitem
  generalize Rotation.stop { r with cur := some item.addr } item = r₁ at hstop
  obtain ⟨before, after, hsplit, hactive⟩ := hstop.active
  have hinactive : r₁.s.inactive = r.s.inactive := hstop.inactive
  have hlength : r₁.s.active.length + 1 = r.s.active.length := by
    dsimp only at hsplit
    rw [hactive, hsplit]
    simp only [List.length_append, List.length_cons]
    omega
  rcases hstart r₁ _ rfl with ⟨hsame, -⟩ | hless
  · right
    rw [hsame, hinactive]
    omega
  · have hwaiting := congrArg List.length hinactive
    right
    omega

/-- The loop ends. -/
theorem rotateLoop_ends (filterQueue : ℕ) (hr : Running box r.s) :
    ∃ fuel r', rotateLoop box env filterQueue fuel r = some r' := by
  induction hn : 2 * r.s.inactive.length + r.s.active.length using Nat.strongRecOn generalizing r with
  | _ n ihn =>
    induction hm : toGo EmmFilter.addr r.s.active r.cur using Nat.strongRecOn generalizing r with
    | _ m ihm =>
      cases hnext : iterNext r.s.active r.cur with
      | none => exact ⟨1, r, by rw [rotateLoop, hnext]⟩
      | some item =>
        by_cases hend : r.s.inactive = [] ∨ r.started = filterQueue
        · exact ⟨1, r, by rw [rotateLoop, hnext]; exact if_pos hend⟩
        suffices hrest : ∃ fuel r', rotateLoop box env filterQueue fuel (r.round box env item) = some r' by
          obtain ⟨fuel, r', hloop⟩ := hrest
          refine ⟨fuel + 1, r', ?_⟩
          rw [rotateLoop, hnext]
          exact (if_neg hend).trans hloop
        have hitem := mem_of_nextAfter hnext
        have hrun := (@round_keeps box env r hr item hitem).running
        rcases @round_progress box env r hr item hitem with ⟨hsame, hcur⟩ | hless
        · refine ihm _ ?_ hrun (by rw [hsame]; exact hn) rfl
          rw [hsame, hcur, ← hm]
          exact toGo_nextAfter hr.distinct hnext
        · exact ihn _ (hn ▸ hless) hrun rfl

theorem rotateEmmfilter_keeps {s t : Emm} {d fuel : ℕ} (hr : Running box s)
    (h : s.rotateEmmfilter box env d fuel = some t) : Keeps box s t := by
  unfold rotateEmmfilter at h
  split_ifs at h with hrotates
  · obtain ⟨r, hloop, rfl⟩ := Option.map_eq_some_iff.mp h
    have hkeeps := rotateLoop_keeps (r := ⟨s, none, 0, 0, 0⟩) hr hloop
    exact hkeeps.trans (drain_keeps hkeeps.running).1
  · obtain rfl := Option.some.inj h
    exact ⟨hr, List.Perm.refl _, rfl, rfl⟩

/-- All filters that may be stopped or started are of one demuxer, and there were as many starts as
stops. -/
structure Uniform (env : Env) (d filterQueue : ℕ) (r : Rotation) : Prop where
  due : ∀ item ∈ r.s.active, due env item → item.key.demuxId = d
  waiting : ∀ item ∈ r.s.inactive, item.key.demuxId = d
  even : r.started = r.stopped
  tries : r.tries = r.started
  queue : r.started + r.s.inactive.length = filterQueue

theorem round_uniform {d filterQueue : ℕ} (hu : Uniform env d filterQueue r) (hr : Running box r.s)
    (hstarts : ∀ k < filterQueue, env.starts k = true) {item : EmmFilter} (hitem : item ∈ r.s.active)
    (hwaiting : r.s.inactive ≠ []) :
    Uniform env d filterQueue (r.round box env item) ∧
      ∀ e, (r.round box env item).s.activeOf e = r.s.activeOf e := by
  unfold Rotation.round
  dsimp only
  by_cases hdue : due env item = true
  case neg =>
    rw [if_neg hdue, if_neg (by exact hu.even.symm.le.not_gt)]
    exact ⟨{ hu with }, fun _ => rfl⟩
  rw [if_pos hdue]
  have hstop := Rotation.stop_stops (r := { r with cur := some item.addr }) hr hitem
  generalize Rotation.stop { r with cur := some item.addr } item = r₁ at hstop
  obtain ⟨first, rest, hfirst⟩ := List.exists_cons_of_ne_nil hwaiting
  have hinactive : r₁.s.inactive = first :: rest := hstop.inactive.trans hfirst
  have hfirst_d : first.key.demuxId = d := hu.waiting first (hfirst ▸ List.mem_cons_self)
  have hitem_d : item.key.demuxId = d := hu.due item hitem hdue
  obtain ⟨n, hn, hfree⟩ := hstop.free
  have htries : r₁.tries = r.started := hstop.tries.trans hu.tries
  have hqueue := hu.queue
  rw [hfirst, List.length_cons] at hqueue
  have hset : (r₁.s.setFilter box env first.key r₁.tries).isSome = true := by
    refine setFilter_isSome hn ?_ (hstarts _ (by omega))
    rw [hfirst_d, ← hitem_d]
    exact hfree
  obtain ⟨t, ht⟩ := Option.isSome_iff_exists.mp hset
  obtain ⟨item', hkey, hactive'⟩ := (setFilter_started ht).active
  obtain ⟨before, after, hsplit, hactive⟩ := hstop.active
  have hlt : r₁.started < r₁.stopped := by
    have hstopped := hstop.stopped
    have hstarted := hstop.started
    have heven := hu.even
    dsimp only at hstopped hstarted
    omega
  rw [if_pos hlt, hinactive, Rotation.start, ht]
  refine ⟨⟨fun other hother hdue' => ?_, fun other hother => ?_, ?_, ?_, ?_⟩, fun e => ?_⟩
  · dsimp only at hother
    rw [hactive', hactive] at hother
    rcases List.mem_append.mp hother with hother | hother
    · refine hu.due other ?_ hdue'
      dsimp only at hsplit
      rw [hsplit]
      exact ((List.sublist_cons_self _ _).append_left _).subset hother
    · obtain rfl := List.mem_singleton.mp hother
      rw [hkey]
      exact hfirst_d
  · exact hu.waiting other (hfirst ▸ List.mem_cons_of_mem _ hother)
  · have hstopped := hstop.stopped
    have hstarted := hstop.started
    have heven := hu.even
    dsimp only at hstopped hstarted ⊢
    omega
  · dsimp only
    rw [htries, hstop.started]
  · have hstarted := hstop.started
    dsimp only [List.nil_append] at hstarted ⊢
    omega
  · unfold Emm.activeOf
    dsimp only at hsplit ⊢
    rw [hactive', hactive, hsplit]
    simp only [List.countP_append, List.countP_cons, List.countP_nil, hkey, hfirst_d, hitem_d]
    omega

theorem rotateLoop_uniform {d filterQueue fuel : ℕ} {r' : Rotation} (hr : Running box r.s)
    (hu : Uniform env d filterQueue r) (hstarts : ∀ k < filterQueue, env.starts k = true)
    (h : rotateLoop box env filterQueue fuel r = some r') (e : ℕ) :
    r'.s.activeOf e = r.s.activeOf e := by
  induction fuel generalizing r with
  | zero => cases h
  | succ fuel ih =>
    unfold rotateLoop at h
    cases hnext : iterNext r.s.active r.cur with
    | none =>
      rw [hnext] at h
      obtain rfl := Option.some.inj h
      rfl
    | some item =>
      rw [hnext] at h
      dsimp only at h
      split_ifs at h with hend
      · obtain rfl := Option.some.inj h
        rfl
      · have hitem := mem_of_nextAfter hnext
        obtain ⟨hu', hcount⟩ := round_uniform hu hr hstarts hitem fun hnil => hend (Or.inl hnil)
        exact (ih (round_keeps hr hitem).running hu' h).trans (hcount e)

/-- Nothing is due, nothing happens. -/
theorem rotateLoop_idle {filterQueue fuel : ℕ} {r' : Rotation}
    (hdue : ∀ item ∈ r.s.active, ¬ due env item = true) (heven : r.started = r.stopped)
    (h : rotateLoop box env filterQueue fuel r = some r') : r'.s = r.s := by
  induction fuel generalizing r with
  | zero => cases h
  | succ fuel ih =>
    unfold rotateLoop at h
    cases hnext : iterNext r.s.active r.cur with
    | none =>
      rw [hnext] at h
      obtain rfl := Option.some.inj h
      rfl
    | some item =>
      rw [hnext] at h
      dsimp only at h
      have hround : r.round box env item = { r with cur := some item.addr } := by
        unfold Rotation.round
        dsimp only
        rw [if_neg (hdue item (mem_of_nextAfter hnext)), if_neg (by exact heven.symm.le.not_gt)]
      split_ifs at h with hend
      · obtain rfl := Option.some.inj h
        rfl
      · rw [hround] at h
        exact ih (r := { r with cur := some item.addr }) hdue heven h

/-- A clear rotation leaves every demuxer as many active filters as it had. -/
theorem rotateEmmfilter_activeOf {s t : Emm} {d fuel : ℕ} (hr : Running box s)
    (hclear : Clear box s (.rotate d env fuel)) (h : s.rotateEmmfilter box env d fuel = some t) (e : ℕ) :
    t.activeOf e = s.activeOf e := by
  unfold rotateEmmfilter at h
  split_ifs at h with hrotates
  case neg =>
    obtain rfl := Option.some.inj h
    rfl
  obtain ⟨r, hloop, rfl⟩ := Option.map_eq_some_iff.mp h
  have hrun := (rotateLoop_keeps (r := ⟨s, none, 0, 0, 0⟩) hr hloop).running
  have hdrain : r.s.drain.activeOf e = r.s.activeOf e := by
    unfold Emm.activeOf
    rw [(drain_keeps hrun).2.1]
  rw [hdrain]
  by_cases hdue : ∃ item ∈ s.active, due env item = true
  · obtain ⟨item, hitem, hdue⟩ := hdue
    obtain ⟨hwaiting, hstarts⟩ := hclear hrotates item hitem hdue
    obtain ⟨other, hother⟩ := List.exists_mem_of_ne_nil _ hrotates.2.1
    refine rotateLoop_uniform (r := ⟨s, none, 0, 0, 0⟩) (d := item.key.demuxId) hr ⟨?_, hwaiting, rfl, rfl, ?_⟩
      hstarts hloop e
    · intro item' hitem' hdue'
      have hwaiting' := (hclear hrotates item' hitem' hdue').1
      exact (hwaiting' other hother).symm.trans (hwaiting other hother)
    · exact Nat.zero_add _
  · have hnone : ∀ item ∈ s.active, ¬ due env item = true := fun item hitem hd => hdue ⟨item, hitem, hd⟩
    rw [rotateLoop_idle (r := ⟨s, none, 0, 0, 0⟩) hnone rfl hloop]

end Rotation

section Runs

open Emm

variable {box : Box} {env : Env} {s t : Emm}

/-- The counter of a demuxer is the number of its active filters, once it has one. -/
def Counts (s : Emm) : Prop :=
  ∀ d, s.emmFilter d = -1 ∧ s.activeOf d = 0 ∨ s.emmFilter d = s.activeOf d

/-- `check_add_emmpid` leaves everything as it is, or adds one filter. -/
theorem checkAddEmmpid_cases (s : Emm) (d : ℕ) (filter : BitVec 256) (l : ℤ) :
    s.checkAddEmmpid box env d filter l = s ∨
      ∃ key : Key, key.demuxId = d ∧ s.isEmmfilterInList key = false ∧
        (s.checkAddEmmpid box env d filter l).added = s.added ++ [key] ∧
        (s.checkAddEmmpid box env d filter l).keys.Perm (s.keys ++ [key]) ∧
        (Running box s → Running box (s.checkAddEmmpid box env d filter l)) ∧
        (Counts s → Counts (s.checkAddEmmpid box env d filter l)) := by
  unfold checkAddEmmpid
  by_cases hl : l < 0
  · rw [if_pos hl]
    exact Or.inl rfl
  rw [if_neg hl]
  dsimp only
  generalize hkey : (⟨d, (box.emmpids d l.toNat).caid, (box.emmpids d l.toNat).provid,
    (box.emmpids d l.toNat).pid, filter⟩ : Key) = key
  have hd : key.demuxId = d := by rw [← hkey]
  by_cases hin : s.isEmmfilterInList key = true
  · rw [if_pos hin]
    exact Or.inl rfl
  rw [if_neg hin]
  refine Or.inr ⟨key, hd, Bool.eq_false_of_not_eq_true hin, ?_⟩
  generalize hstart : (if s.emmFilter d < (box.maxEmmFilter d : ℤ) then
    Emm.setFilter box env { s with added := s.added ++ [key] } key 0 else none) = started
  cases started with
  | none =>
    refine ⟨rfl, ?_, fun hr => ?_, fun hc => hc⟩
    · rw [List.perm_iff_count]
      intro k
      unfold Emm.keys
      dsimp only [addEmmfilterToList]
      rw [if_neg (lt_irrefl _), if_neg (lt_irrefl _)]
      simp only [List.map_append, List.map_cons, List.map_nil, List.count_append]
      omega
    · exact ⟨fun i hi => (hr.addr i hi).trans (Nat.lt_succ_self _), hr.distinct, hr.places, hr.place⟩
  | some t =>
    split_ifs at hstart
    have ht := setFilter_started hstart
    obtain ⟨item, hitem, hactive⟩ := ht.active
    refine ⟨ht.added, ?_, fun hr => ?_, fun hc e => ?_⟩
    · rw [List.perm_iff_count]
      intro k
      unfold Emm.keys
      dsimp only
      rw [hactive, ht.inactive, ht.pending]
      simp only [List.map_append, List.map_cons, List.map_nil, List.count_append, hitem]
      omega
    · have hrun := ht.running ⟨hr.addr, hr.distinct, hr.places, hr.place⟩
      exact ⟨hrun.addr, hrun.distinct, hrun.places, hrun.place⟩
    · have hcount : ∀ e, t.activeOf e = s.activeOf e + if d = e then 1 else 0 := by
        intro e
        unfold Emm.activeOf
        rw [hactive]
        simp [List.countP_append, List.countP_cons, hitem, hd]
      have hemm : t.emmFilter = s.emmFilter := ht.emmFilter
      have hce := hc e
      change (Function.update t.emmFilter d _ e = -1 ∧ t.activeOf e = 0) ∨
        Function.update t.emmFilter d _ e = (t.activeOf e : ℤ)
      rw [hcount e, hemm]
      by_cases he : d = e
      · subst he
        rw [Function.update_self, if_pos rfl]
        refine Or.inr ?_
        split_ifs with hfirst
        all_goals
          push_cast
          omega
      · rw [Function.update_of_ne (Ne.symm he), if_neg he]
        exact hce

/-- The filters in the lists are those added, each once. -/
structure Listed (box : Box) (s : Emm) : Prop where
  running : Running box s
  keys : s.keys.Perm s.added
  nodup : s.keys.Nodup

private theorem listed_init (h : (system box).init s) : Listed box s ∧ Counts s := by
  obtain ⟨hactive, hinactive, hpending, hadded, hemm⟩ := h
  have hkeys : s.keys = [] := by
    rw [Emm.keys, hactive, hinactive, hpending]
    rfl
  refine ⟨⟨⟨?_, ?_, ?_, ?_⟩, ?_, ?_⟩, fun d => Or.inl ⟨hemm d, ?_⟩⟩
  all_goals simp [Emm.activeOf, hactive, hkeys, hadded]

private theorem notMem_keys {key : Key} (h : s.isEmmfilterInList key = false) : key ∉ s.keys := by
  intro hmem
  obtain ⟨item, hitem, rfl⟩ := List.mem_map.mp hmem
  have hno := List.any_eq_false.mp h item hitem
  simp at hno

private theorem listed_next {a : Act} (hl : Listed box s) (h : (system box).next s a = some t) :
    Listed box t ∧ (Clear box s a → Counts s → Counts t) := by
  cases a with
  | checkAdd d filter l env =>
    obtain rfl := Option.some.inj h
    rcases @checkAddEmmpid_cases box env s d filter l with
      hsame | ⟨key, -, hnew, hadded, hkeys, hrun, hcounts⟩
    · rw [hsame]
      exact ⟨hl, fun _ hc => hc⟩
    · refine ⟨⟨hrun hl.running, ?_, ?_⟩, fun _ => hcounts⟩
      · rw [hadded]
        exact hkeys.trans (hl.keys.append_right _)
      · refine hkeys.nodup_iff.mpr (hl.nodup.append (List.nodup_singleton _) ?_)
        exact List.disjoint_singleton.mpr (notMem_keys hnew)
  | rotate d env fuel =>
    have hkeeps := rotateEmmfilter_keeps hl.running h
    refine ⟨⟨hkeeps.running, ?_, hkeeps.keys.nodup_iff.mpr hl.nodup⟩, fun hclear hc e => ?_⟩
    · rw [hkeeps.added]
      exact hkeeps.keys.trans hl.keys
    · rw [hkeeps.emmFilter, rotateEmmfilter_activeOf hl.running hclear h e]
      exact hc e

/-- No filter is lost or listed twice, and the counters are right on runs whose rotations are clear. -/
theorem emmFilters_kept (box : Box) (s : Emm) :
    ((system box).Reachable System.free s → s.keys.Perm s.added ∧ s.keys.Nodup) ∧
      ((system box).Reachable (Clear box) s →
        ∀ d, s.emmFilter d ≠ -1 → s.emmFilter d = s.activeOf d) := by
  refine ⟨fun h => ?_, fun h d hd => ?_⟩
  · have hl : Listed box s := by
      refine h.invariant (I := Listed box) (fun s hinit => (listed_init hinit).1) ?_
      exact fun s a t hl _ ht => (listed_next hl ht).1
    exact ⟨hl.keys, hl.nodup⟩
  · have hl : Listed box s ∧ Counts s := by
      refine h.invariant (I := fun s => Listed box s ∧ Counts s) (fun s hinit => listed_init hinit) ?_
      rintro s a t ⟨hl, hc⟩ hclear ht
      exact ⟨(listed_next hl ht).1, (listed_next hl ht).2 hclear hc⟩
    exact (hl.2 d).resolve_left fun hnone => hd hnone.1

private def smallBox : Box := ⟨2, fun _ => 1, fun _ _ => ⟨0x100#16, 0x500#16, 0#32⟩⟩

private def envAt (now : ℤ) : Env := ⟨now, fun _ => true, fun _ => now, fun _ => false⟩

private def start : Emm := ⟨[], [], [], 0, fun _ _ => none, fun _ => -1, []⟩

private theorem init_start : (system smallBox).init start := ⟨rfl, rfl, rfl, rfl, fun _ => rfl⟩

/-- Two filters of a demuxer take turns. -/
theorem emmFilters_kept_turns : ∃ s, (system smallBox).Reachable (Clear smallBox) s ∧
    s.keys.Perm s.added ∧ s.keys.Nodup ∧ (∀ d, s.emmFilter d ≠ -1 → s.emmFilter d = s.activeOf d) ∧
    s.active.map (fun item => item.key.filter) = [2#256] := by
  obtain ⟨s, hr, hs⟩ := @System.exists_reachable_of_exec _ _ (system smallBox) (Clear smallBox) _ _
    init_start [.checkAdd 0 1#256 0 (envAt 0), .checkAdd 0 2#256 0 (envAt 0), .rotate 0 (envAt 50000) 9]
    (fun s => s.active.map (fun item => item.key.filter) = [2#256]) (by decide +kernel)
  have hfree : (system smallBox).Reachable System.free s := hr.mono fun _ _ _ => trivial
  have hlists := (emmFilters_kept smallBox s).1 hfree
  exact ⟨s, hr, hlists.1, hlists.2, (emmFilters_kept smallBox s).2 hr, of_decide_eq_true hs⟩

/-- In every reachable state a rotation ends, whatever the clock, the priorities and the box say. -/
theorem rotateEmmfilter_returns (h : (system box).Reachable System.free s) (env : Env) (d : ℕ) :
    ∃ fuel t, s.rotateEmmfilter box env d fuel = some t := by
  have hl : Listed box s := by
    refine h.invariant (I := Listed box) (fun s hinit => (listed_init hinit).1) ?_
    exact fun s a t hl _ ht => (listed_next hl ht).1
  unfold rotateEmmfilter
  by_cases hrotates : s.rotates box d
  · obtain ⟨fuel, r, hloop⟩ := @rotateLoop_ends box env ⟨s, none, 0, 0, 0⟩ s.inactive.length hl.running
    exact ⟨fuel, r.s.drain, by rw [if_pos hrotates, hloop]; rfl⟩
  · exact ⟨0, s, if_neg hrotates⟩

theorem rotateEmmfilter_returns_two : ∃ s : Emm, s.rotates smallBox 0 ∧
    ∃ fuel t, s.rotateEmmfilter smallBox (envAt 50000) 0 fuel = some t := by
  obtain ⟨s, hr, hs⟩ := @System.exists_reachable_of_exec _ _ (system smallBox) System.free _ _ init_start
    [.checkAdd 0 1#256 0 (envAt 0), .checkAdd 0 2#256 0 (envAt 0)] (fun s => s.rotates smallBox 0) (by decide +kernel)
  exact ⟨s, of_decide_eq_true hs, rotateEmmfilter_returns hr (envAt 50000) 0⟩

/-- The filter of demuxer 0 is stopped for one of demuxer 1, and both counters stay. -/
theorem emmFilter_off : ∃ s, (system smallBox).Reachable System.free s ∧
    s.emmFilter 0 = 1 ∧ s.activeOf 0 = 0 ∧ s.emmFilter 1 = 1 ∧ s.activeOf 1 = 2 := by
  obtain ⟨s, hr, hs⟩ := @System.exists_reachable_of_exec _ _ (system smallBox) System.free
    (fun _ _ => instDecidableTrue) _ init_start
    [.checkAdd 0 1#256 0 (envAt 0), .checkAdd 1 2#256 0 (envAt 40000), .checkAdd 1 3#256 0 (envAt 40000),
      .rotate 0 (envAt 50000) 9]
    (fun s => s.emmFilter 0 = 1 ∧ s.activeOf 0 = 0 ∧ s.emmFilter 1 = 1 ∧ s.activeOf 1 = 2)
    (by decide +kernel)
  exact ⟨s, hr, of_decide_eq_true hs⟩

end Runs

end NCam.Dvbapi.EmmFilters
