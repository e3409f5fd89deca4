import NCam.Lib.Transition
import NCam.Tommy.Table

/-! The hit cache of `module-cacheex.c` under any order of its operations. Deleting a key unlinks its
entry from the hash table and leaves it in the list. -/
namespace NCam.Cacheex

open NCam.Lib NCam.Tommy

/-- `HIT_KEY`. -/
structure HitKey where
  caid : ℕ
  prid : ℕ
  srvid : ℕ
  deriving DecidableEq

/-- `CACHE_HIT`; of the embedded nodes only the hash value in `ht_node` is data. -/
structure CacheHit where
  key : HitKey
  time : ℤ
  maxHitcacheTime : ℤ
  grp : BitVec 64
  grpLastMaxHitcacheTime : BitVec 64
  waittimeBlock : ℤ
  htNodeIndex : ℕ

/-- The settings of `cfg` that the hit cache reads. -/
structure Config where
  maxHitcacheTime : ℤ
  cacheexWaitTimetabCevnum : ℕ
  waittimeBlockStart : ℕ
  waittimeBlockTime : ℕ

/-- The allocated entries by address, and the two structures that link them. Addresses are not
handed out twice. -/
structure HitCache where
  heap : ℕ → Option CacheHit
  nextAddr : ℕ
  hits : Table ℕ

/-- What the operations must never do. -/
inductive Fault
  | unlinkedTwice
  | useAfterFree
  deriving DecidableEq

namespace HitCache

variable (hash : HitKey → ℕ)

def initHitcache : HitCache := ⟨fun _ => none, 0, .initHashTable⟩

/-- `cacheex_compare_hitkey`, true on a match. -/
def compareHitkey (s : HitCache) (key : HitKey) (addr : ℕ) : Bool :=
  match s.heap addr with
  | some hit => decide (hit.key = key)
  | none => false

/-- `find_hash_table` on the hit cache. -/
def find (s : HitCache) (key : HitKey) : Option ℕ :=
  s.hits.findHashTable (s.compareHitkey key) (hash key)

def modify (s : HitCache) (addr : ℕ) (f : CacheHit → CacheHit) : HitCache :=
  { s with heap := Function.update s.heap addr ((s.heap addr).map f) }

/-- The insertion of a fresh entry in `cacheex_add_hitcache`. -/
def create (s : HitCache) (key : HitKey) (now : ℤ) : HitCache where
  heap := Function.update s.heap s.nextAddr (some
    { key := key, time := 0, maxHitcacheTime := now, grp := 0, grpLastMaxHitcacheTime := 0
      waittimeBlock := 0, htNodeIndex := hash key })
  nextAddr := s.nextAddr + 1
  hits := s.hits.addHashTable s.nextAddr (hash key)

/-- `cl` is the group mask of the client, if there is one; `malloc` tells whether an entry could be
allocated. -/
def cacheexAddHitcache (cfg : Config) (s : HitCache) (cl : Option (BitVec 64)) (key : HitKey)
    (cacheexWaitTime : ℕ) (now : ℤ) (malloc : Bool) : HitCache :=
  if cfg.maxHitcacheTime = 0 ∨ cfg.cacheexWaitTimetabCevnum = 0 ∨ cacheexWaitTime = 0 then s
  else
    let grp := cl.getD 0
    let touch (hit : CacheHit) : CacheHit := { hit with
      grp := hit.grp ||| grp
      grpLastMaxHitcacheTime := hit.grpLastMaxHitcacheTime ||| grp
      time := now }
    match s.find hash key with
    | some addr => s.modify addr touch
    | none => if malloc then (s.create hash key now).modify s.nextAddr touch else s

/-- The `while` loop of `cacheex_del_hitcache`: `none` when it is still running after `fuel` rounds. -/
def delLoop (s : HitCache) (grp : BitVec 64) (key : HitKey) : ℕ → Option HitCache
  | 0 => none
  | fuel + 1 =>
    match s.find hash key with
    | none => some s
    | some addr =>
      delLoop (s.modify addr fun hit => { hit with
        grp := hit.grp &&& ~~~grp
        grpLastMaxHitcacheTime := hit.grpLastMaxHitcacheTime &&& ~~~grp }) grp key fuel

def cacheexDelHitcache (s : HitCache) (cl : Option (BitVec 64)) (key : HitKey) (fuel : ℕ) :
    Option HitCache :=
  let grp := cl.getD 0
  (if grp ≠ 0 then s.delLoop hash grp key fuel else some s).map fun s =>
    { s with hits := (s.hits.searchRemoveElemHashTable (s.compareHitkey key) (hash key)).1 }

/-- `remove_elem_list`, `remove_elem_hash_table` and `NULLFREE` of an entry. -/
def drop (s : HitCache) (addr : ℕ) (hit : CacheHit) : Except Fault HitCache :=
  match (s.hits.removeElemList addr).bind (·.removeElemHashTable ⟨addr, hit.htNodeIndex⟩) with
  | some hits => .ok { s with hits := hits, heap := Function.update s.heap addr none }
  | none => .error .unlinkedTwice

/-- One round of the loop of `cacheex_cleanup_hitcache`, the clock reading `now`. -/
def cleanupEntry (cfg : Config) (force : Bool) (now : ℤ) (s : HitCache) (addr : ℕ) :
    Except Fault HitCache :=
  match s.heap addr with
  | none => .error .useAfterFree
  | some hit =>
    let timeout := (cfg.maxHitcacheTime + cfg.maxHitcacheTime.tdiv 2) * 1000
    let cleanGrp := cfg.maxHitcacheTime * 1000
    let gone := now - hit.time
    let goneMaxHitcacheTime := now - hit.maxHitcacheTime
    if force ∨ gone > timeout ∨ hit.waittimeBlock > (cfg.waittimeBlockTime / 3 + 1 : ℕ) then
      s.drop addr hit
    else
      let renew (hit : CacheHit) : CacheHit :=
        if goneMaxHitcacheTime ≥ cleanGrp then
          { hit with
            grp := hit.grpLastMaxHitcacheTime
            grpLastMaxHitcacheTime := 0
            maxHitcacheTime := now }
        else hit
      let block (hit : CacheHit) : CacheHit :=
        if cfg.waittimeBlockStart ≠ 0 ∧ hit.waittimeBlock ≥ cfg.waittimeBlockStart then
          { hit with waittimeBlock := hit.waittimeBlock + 1 }
        else hit
      .ok (s.modify addr fun hit => block (renew hit))

/-- The walk of `cacheex_cleanup_hitcache`: the next node is read before the entry is removed. -/
def cleanupLoop (cfg : Config) (force : Bool) (now : ℕ → ℤ) : List ℕ → HitCache → Except Fault HitCache
  | [], s => .ok s
  | addr :: rest, s => (s.cleanupEntry cfg force (now addr) addr).bind (cleanupLoop cfg force now rest)

def cacheexCleanupHitcache (cfg : Config) (s : HitCache) (force : Bool) (now : ℕ → ℤ) :
    Except Fault HitCache :=
  cleanupLoop cfg force now s.hits.ll s

/-- The hit-cache part of `cacheex_timeout`, the only other writer of an entry. -/
def cacheexTimeout (cfg : Config) (s : HitCache) (key : HitKey) : HitCache :=
  match s.find hash key with
  | some addr => s.modify addr fun hit =>
      if cfg.waittimeBlockStart ≠ 0 ∧ hit.waittimeBlock ≤ cfg.waittimeBlockStart then
        { hit with waittimeBlock := hit.waittimeBlock + 1 }
      else hit
  | none => s

inductive Action
  | add (cfg : Config) (cl : Option (BitVec 64)) (key : HitKey) (cacheexWaitTime : ℕ) (now : ℤ)
      (malloc : Bool)
  | del (cl : Option (BitVec 64)) (key : HitKey) (fuel : ℕ)
  | cleanup (cfg : Config) (force : Bool) (now : ℕ → ℤ)
  | timeout (cfg : Config) (key : HitKey)

/-- The hit cache, or the fault that ended the run. -/
abbrev State := Except Fault HitCache

/-- A `del` whose loop does not end within its `fuel` is no step. -/
def next : State → Action → Option State
  | .error _, _ => none
  | .ok s, .add cfg cl key waitTime now malloc =>
    some (.ok (s.cacheexAddHitcache hash cfg cl key waitTime now malloc))
  | .ok s, .del cl key fuel => (s.cacheexDelHitcache hash cl key fuel).map .ok
  | .ok s, .cleanup cfg force now => some (s.cacheexCleanupHitcache cfg force now)
  | .ok s, .timeout cfg key => some (.ok (s.cacheexTimeout hash cfg key))

def system : System State Action where
  init st := st = .ok initHitcache
  next := next hash

/-- The hash table and the list hold the same entries, each once, at most one for each key, and
every linked entry is allocated. -/
structure Consistent (s : HitCache) : Prop where
  same : ∀ addr, addr ∈ s.hits.hashed ↔ addr ∈ s.hits.ll
  nodupList : s.hits.ll.Nodup
  nodupTable : s.hits.hashed.Nodup
  live : ∀ addr ∈ s.hits.ll, s.heap addr ≠ none
  oneForKey : ∀ a ∈ s.hits.ll, ∀ b ∈ s.hits.ll, ∀ hit hit', s.heap a = some hit →
    s.heap b = some hit' → hit.key = hit'.key → a = b

/-- No fault has happened and the structures are consistent. -/
def Good : State → Prop
  | .ok s => s.Consistent
  | .error _ => False

/-- A `del` for a client without a group is issued for keys that are not stored only. -/
def AbsentDel : State → Action → Prop
  | .ok s, .del cl key _ => cl.getD 0 = 0 → s.find hash key = none
  | _, _ => True

/-- The key of an allocated entry with the hash value in its embedded node. -/
def keys (s : HitCache) (addr : ℕ) : Option (HitKey × ℕ) :=
  (s.heap addr).map fun hit => (hit.key, hit.htNodeIndex)

structure Inv (s : HitCache) : Prop where
  keyed : s.hits.Keyed s.keys hash
  fresh : ∀ addr, s.nextAddr ≤ addr → s.heap addr = none

variable {hash} {s : HitCache}

theorem Inv.consistent (h : s.Inv hash) : s.Consistent where
  same addr := h.keyed.agree.hashed_perm.mem_iff
  nodupList := h.keyed.agree.nodup
  nodupTable := h.keyed.agree.hashed_perm.nodup_iff.mpr h.keyed.agree.nodup
  live addr hm hnone := by
    obtain ⟨k, hk⟩ := h.keyed.live addr hm
    simp [keys, hnone] at hk
  oneForKey a ha b hb hit hit' hha hhb he := by
    obtain ⟨k, hk⟩ := h.keyed.live a ha
    obtain ⟨k', hk'⟩ := h.keyed.live b hb
    refine h.keyed.oneForKey a ha b hb ?_
    simp only [keys, hha, hhb, Option.map_some, Option.some.injEq, Prod.mk.injEq] at hk hk' ⊢
    exact ⟨he, by rw [hk.2, hk'.2, ← hk.1, ← hk'.1, he]⟩

theorem compareHitkey_iff (key : HitKey) (addr : ℕ) :
    s.compareHitkey key addr = true ↔ ∃ i, s.keys addr = some (key, i) := by
  cases h : s.heap addr with
  | none => simp [compareHitkey, keys, h]
  | some hit => simp [compareHitkey, keys, h]

private theorem inv_init : initHitcache.Inv hash := ⟨.init, fun _ _ => rfl⟩

theorem keys_modify (addr : ℕ) {f : CacheHit → CacheHit}
    (hf : ∀ hit, (f hit).key = hit.key ∧ (f hit).htNodeIndex = hit.htNodeIndex) :
    (s.modify addr f).keys = s.keys := by
  funext a
  by_cases ha : a = addr
  · subst ha
    cases hh : s.heap a <;> simp [keys, HitCache.modify, hh, hf]
  · simp [keys, HitCache.modify, ha]

/-- Changes of an entry other than to its key and its node leave the structures alone. -/
private theorem Inv.modify (h : s.Inv hash) (addr : ℕ) {f : CacheHit → CacheHit}
    (hf : ∀ hit, (f hit).key = hit.key ∧ (f hit).htNodeIndex = hit.htNodeIndex) :
    (s.modify addr f).Inv hash := by
  refine ⟨?_, fun a hle => ?_⟩
  · rw [keys_modify addr hf]
    exact h.keyed
  · by_cases ha : a = addr
    · subst ha
      simp [HitCache.modify, h.fresh a hle]
    · simpa [HitCache.modify, ha] using h.fresh a hle

private theorem Inv.create (h : s.Inv hash) {key : HitKey} (hf : s.find hash key = none) (now : ℤ) :
    (s.create hash key now).Inv hash := by
  have hfree := h.keyed.find_eq_none
    (fun addr i hi => (compareHitkey_iff key addr).mpr ⟨i, hi⟩) hf
  have hnew : s.nextAddr ∉ s.hits.ll := by
    intro hm
    obtain ⟨k, hk⟩ := h.keyed.live _ hm
    simp [keys, h.fresh _ le_rfl] at hk
  have hold : ∀ a, a ≠ s.nextAddr → (s.create hash key now).heap a = s.heap a :=
    fun a hne => Function.update_of_ne hne _ _
  refine ⟨h.keyed.add hnew ?_ (fun a hm => ?_) hfree, fun a hle => ?_⟩
  · simp [keys, HitCache.create]
  · rw [keys, hold a fun he => hnew (he ▸ hm)]
    rfl
  · have hlt : s.nextAddr + 1 ≤ a := hle
    rw [hold a (by omega)]
    exact h.fresh a (by omega)

private theorem Inv.add (h : s.Inv hash) (cfg : Config) (cl : Option (BitVec 64)) (key : HitKey)
    (waitTime : ℕ) (now : ℤ) (malloc : Bool) :
    (s.cacheexAddHitcache hash cfg cl key waitTime now malloc).Inv hash := by
  unfold cacheexAddHitcache
  dsimp only
  split_ifs with hoff hmalloc
  · exact h
  · cases hf : s.find hash key with
    | some addr => exact h.modify addr fun _ => ⟨rfl, rfl⟩
    | none => exact (h.create hf now).modify _ fun _ => ⟨rfl, rfl⟩
  · cases hf : s.find hash key with
    | some addr => exact h.modify addr fun _ => ⟨rfl, rfl⟩
    | none => exact h

theorem find_modify (s : HitCache) (addr : ℕ) {f : CacheHit → CacheHit}
    (hf : ∀ hit, (f hit).key = hit.key ∧ (f hit).htNodeIndex = hit.htNodeIndex) (key : HitKey) :
    (s.modify addr f).find hash key = s.find hash key := by
  have hcmp : (s.modify addr f).compareHitkey key = s.compareHitkey key := by
    funext a
    rw [Bool.eq_iff_iff, compareHitkey_iff, compareHitkey_iff, keys_modify addr hf]
  simp only [find, hcmp]
  rfl

/-- On a stored key the loop of `cacheex_del_hitcache` never ends: it changes no key. -/
theorem delLoop_eq_none (grp : BitVec 64) {key : HitKey} (hf : s.find hash key ≠ none) (fuel : ℕ) :
    s.delLoop hash grp key fuel = none := by
  induction fuel generalizing s with
  | zero => rfl
  | succ fuel ih =>
    unfold delLoop
    cases hs : s.find hash key with
    | none => exact absurd hs hf
    | some addr =>
      apply ih
      rwa [find_modify]
      exact fun _ => ⟨rfl, rfl⟩

/-- So does a `del` that returns for a client with a group: the key was not stored. -/
theorem del_absent {cl : Option (BitVec 64)} {key : HitKey} {fuel : ℕ} {t : HitCache}
    (hg : cl.getD 0 = 0 → s.find hash key = none)
    (h : s.cacheexDelHitcache hash cl key fuel = some t) : s.find hash key = none ∧ t = s := by
  have hf : s.find hash key = none := by
    by_cases hgrp : cl.getD 0 = 0
    · exact hg hgrp
    · by_contra hne
      rw [cacheexDelHitcache, if_pos hgrp, delLoop_eq_none _ hne] at h
      cases h
  refine ⟨hf, ?_⟩
  have hrem := Hashlin.remove_of_search_none hf
  have hkeep : (s.hits.searchRemoveElemHashTable (s.compareHitkey key) (hash key)).1 = s.hits := by
    simp only [Table.searchRemoveElemHashTable, hrem]
  by_cases hgrp : cl.getD 0 = 0
  · simp only [cacheexDelHitcache, hgrp, ne_eq, not_true, if_false, Option.map_some, hkeep] at h
    exact (Option.some.inj h).symm
  · cases fuel with
    | zero =>
      rw [cacheexDelHitcache, if_pos hgrp, delLoop] at h
      cases h
    | succ fuel =>
      simp only [cacheexDelHitcache, hgrp, ne_eq, not_false_iff, if_true, delLoop, hf,
        Option.map_some, hkeep] at h
      exact (Option.some.inj h).symm

private theorem Inv.drop (h : s.Inv hash) {addr : ℕ} (hm : addr ∈ s.hits.ll) {hit : CacheHit}
    (hh : s.heap addr = some hit) :
    ∃ t, s.drop addr hit = .ok t ∧ t.Inv hash ∧ t.hits.ll = s.hits.ll.erase addr := by
  have hkey : s.keys addr = some (hit.key, hit.htNodeIndex) := by simp [keys, hh]
  obtain ⟨hits, hrem, hkeyed, hll⟩ := h.keyed.removeElem hm hkey
  refine ⟨⟨Function.update s.heap addr none, s.nextAddr, hits⟩, by simp [HitCache.drop, hrem],
    ⟨hkeyed.congr fun a ha => ?_, fun a hle => ?_⟩, hll⟩
  · have hne : a ≠ addr := by
      rw [hll, h.keyed.agree.nodup.mem_erase_iff] at ha
      exact ha.1
    simp [keys, hne]
  · by_cases ha : a = addr
    · subst ha
      exact Function.update_self _ _ _
    · exact (Function.update_of_ne ha _ _).trans (h.fresh a hle)

private theorem Inv.cleanupEntry (h : s.Inv hash) (cfg : Config) (force : Bool) (now : ℤ) {addr : ℕ}
    (hm : addr ∈ s.hits.ll) :
    ∃ t, s.cleanupEntry cfg force now addr = .ok t ∧ t.Inv hash ∧
      (t.hits.ll = s.hits.ll ∨ t.hits.ll = s.hits.ll.erase addr) := by
  obtain ⟨k, hk⟩ := h.keyed.live addr hm
  obtain ⟨hit, hh, -⟩ := Option.map_eq_some_iff.mp hk
  simp only [HitCache.cleanupEntry, hh]
  by_cases hdrop : force = true ∨ now - hit.time >
      (cfg.maxHitcacheTime + cfg.maxHitcacheTime.tdiv 2) * 1000 ∨
      hit.waittimeBlock > (cfg.waittimeBlockTime / 3 + 1 : ℕ)
  · rw [if_pos hdrop]
    obtain ⟨t, ht, hinv, hll⟩ := h.drop hm hh
    exact ⟨t, ht, hinv, .inr hll⟩
  · rw [if_neg hdrop]
    refine ⟨_, rfl, h.modify addr fun _ => ?_, .inl rfl⟩
    split_ifs <;> exact ⟨rfl, rfl⟩

private theorem Inv.cleanupLoop (cfg : Config) (force : Bool) (now : ℕ → ℤ) {l : List ℕ}
    (hl : l.Nodup) (h : s.Inv hash) (hsub : ∀ a ∈ l, a ∈ s.hits.ll) :
    ∃ t, HitCache.cleanupLoop cfg force now l s = .ok t ∧ t.Inv hash := by
  induction l generalizing s with
  | nil => exact ⟨s, rfl, h⟩
  | cons addr rest ih =>
    obtain ⟨hnot, hrest⟩ := List.nodup_cons.mp hl
    obtain ⟨t, ht, hinv, hll⟩ := h.cleanupEntry cfg force (now addr) (hsub addr (by simp))
    have hsub' : ∀ a ∈ rest, a ∈ t.hits.ll := by
      intro a ha
      have hms := hsub a (List.mem_cons_of_mem _ ha)
      rcases hll with hll | hll
      · rwa [hll]
      · have hne : a ≠ addr := fun he => hnot (he ▸ ha)
        rw [hll]
        exact (List.mem_erase_of_ne hne).mpr hms
    obtain ⟨u, hu, hinv'⟩ := ih hrest hinv hsub'
    refine ⟨u, ?_, hinv'⟩
    rw [HitCache.cleanupLoop, ht]
    exact hu

private theorem inv_step {a : Action} {st : State} (h : s.Inv hash) (hg : AbsentDel hash (.ok s) a)
    (ht : next hash (.ok s) a = some st) : ∃ t, st = .ok t ∧ t.Inv hash := by
  cases a with
  | add cfg cl key waitTime now malloc =>
    exact ⟨_, (Option.some.inj ht).symm, h.add cfg cl key waitTime now malloc⟩
  | del cl key fuel =>
    obtain ⟨t, hdel, rfl⟩ := Option.map_eq_some_iff.mp ht
    obtain ⟨-, rfl⟩ := del_absent hg hdel
    exact ⟨_, rfl, h⟩
  | cleanup cfg force now =>
    obtain ⟨t, hclean, hinv⟩ := h.cleanupLoop cfg force now h.keyed.agree.nodup fun _ hm => hm
    exact ⟨t, (Option.some.inj ht).symm.trans hclean, hinv⟩
  | timeout cfg key =>
    refine ⟨_, (Option.some.inj ht).symm, ?_⟩
    unfold cacheexTimeout
    cases hf : s.find hash key with
    | none => exact h
    | some addr => exact h.modify addr fun _ => by split_ifs <;> exact ⟨rfl, rfl⟩

/-- Runs that delete absent keys only keep the two structures equal, whatever the hash function. -/
theorem absentDel_good {st : State} (h : (system hash).Reachable (AbsentDel hash) st) : Good st := by
  have hinv : ∃ s, st = .ok s ∧ s.Inv hash := by
    refine h.invariant (I := fun st => ∃ s, st = .ok s ∧ s.Inv hash) ?_ ?_
    · rintro st rfl
      exact ⟨_, rfl, inv_init⟩
    · rintro st a st' ⟨s, rfl, hs⟩ hg ht
      exact inv_step hs hg ht
  obtain ⟨s, rfl, hs⟩ := hinv
  exact hs.consistent

instance : ∀ (st : State) (a : Action), Decidable (AbsentDel hash st a)
  | .ok _, .del _ _ _ => inferInstanceAs (Decidable (_ = _ → _ = _))
  | .ok _, .add _ _ _ _ _ _ | .ok _, .cleanup _ _ _ | .ok _, .timeout _ _ | .error _, _ =>
    inferInstanceAs (Decidable True)

private def cfg : Config := ⟨15, 1, 0, 0⟩

private def byCaid (key : HitKey) : ℕ := key.caid

private def addOne : Action := .add cfg (some 1) ⟨0x500, 0, 1⟩ 50 0 true

/-- An entry that lives through a `del` of another key and one cleanup, and goes with the next. -/
theorem absentDel_good_aged : ∃ s, (system byCaid).Reachable (AbsentDel byCaid) (.ok s) ∧
    s.nextAddr = 1 ∧ s.hits.ll = [] ∧ Good (.ok s) := by
  obtain ⟨st, hst, hp⟩ := System.exists_reachable_of_exec (S := system byCaid)
    (G := AbsentDel byCaid) (s := .ok initHitcache) rfl
    [addOne, .del none ⟨0x500, 0, 2⟩ 0, .cleanup cfg false fun _ => 15000,
      .cleanup cfg false fun _ => 22001]
    (fun st => match st with
      | .ok s => decide (s.nextAddr = 1 ∧ s.hits.ll = [])
      | .error _ => false) (by decide +kernel)
  match st, hst, hp with
  | .ok s, hst, hp =>
    obtain ⟨hn, hl⟩ := of_decide_eq_true hp
    exact ⟨s, hst, hn, hl, absentDel_good hst⟩

/-- Deleting a stored key leaves its entry in the list, and the next cleanup unlinks it again. -/
theorem del_unlinks_twice :
    (∃ s, (system byCaid).Reachable System.free (.ok s) ∧ ¬ s.Consistent) ∧
      (system byCaid).Reachable System.free (.error .unlinkedTwice) := by
  constructor
  · obtain ⟨st, hst, hp⟩ := System.exists_reachable_of_exec (S := system byCaid)
      (G := System.free) (s := .ok initHitcache) rfl [addOne, .del none ⟨0x500, 0, 1⟩ 0]
      (fun st => match st with
        | .ok s => decide (0 ∈ s.hits.ll ∧ 0 ∉ s.hits.hashed)
        | .error _ => false) (by decide +kernel)
    match st, hst, hp with
    | .ok s, hst, hp =>
      obtain ⟨hl, ht⟩ := of_decide_eq_true hp
      exact ⟨s, hst, fun hc => ht ((hc.same 0).mpr hl)⟩
  · obtain ⟨st, hst, hp⟩ := System.exists_reachable_of_exec (S := system byCaid)
      (G := System.free) (s := .ok initHitcache) rfl
      [addOne, .del none ⟨0x500, 0, 1⟩ 0, .cleanup cfg true fun _ => 0]
      (fun st => match st with
        | .ok _ => false
        | .error f => decide (f = .unlinkedTwice)) (by decide +kernel)
    match st, hst, hp with
    | .error f, hst, hp =>
      obtain rfl := of_decide_eq_true hp
      exact hst

end HitCache

end NCam.Cacheex
