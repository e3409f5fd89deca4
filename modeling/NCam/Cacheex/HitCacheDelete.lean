import NCam.Cacheex.HitCache

/-! What `cacheex_del_hitcache` leaves of a hit cache: with an entry of the key it does not end, or removes the
entry of a group that the client is not in. -/
namespace NCam.Cacheex.HitCache

open NCam.Lib NCam.Tommy

variable {hash : HitKey → ℕ} {s t : HitCache} {key : HitKey} {addr : ℕ}

/-- An entry with the key is in the hash table. -/
def Stores (s : HitCache) (key : HitKey) : Prop :=
  ∃ addr ∈ s.hits.hashed, ∃ hit, s.heap addr = some hit ∧ hit.key = key

/-- The deletion returns; no entry of the key is left that shares a group with the client, and the entries of
other keys or of other groups are still there, as they were. -/
def DeletesShared (hash : HitKey → ℕ) (s : HitCache) (cl : Option (BitVec 64)) (key : HitKey) : Prop :=
  ∃ fuel t, s.cacheexDelHitcache hash cl key fuel = some t ∧
    (∀ addr ∈ t.hits.hashed, ∀ hit, t.heap addr = some hit → hit.key = key → hit.grp &&& cl.getD 0 = 0) ∧
    ∀ addr ∈ s.hits.hashed, ∀ hit, s.heap addr = some hit → hit.key ≠ key ∨ hit.grp &&& cl.getD 0 = 0 →
      addr ∈ t.hits.hashed ∧ t.heap addr = some hit

/-- What any run keeps of the hash table: it links allocated entries, each once, under the hash of its key. -/
structure Filed (hash : HitKey → ℕ) (s : HitCache) : Prop where
  wf : s.hits.ht.WF
  nodup : s.hits.hashed.Nodup
  filed : ∀ n ∈ s.hits.ht.content, ∃ key, s.keys n.data = some (key, hash key) ∧ n.index = hash key
  fresh : ∀ addr, s.nextAddr ≤ addr → s.heap addr = none

private theorem filed_init : initHitcache.Filed hash where
  wf := .init
  nodup := by
    have hnil : (initHitcache.hits.hashed) = [] :=
      List.map_eq_nil_iff.mpr (List.flatMap_eq_nil_iff.mpr fun _ _ => rfl)
    simp [hnil]
  filed := by simp [initHitcache, Table.initHashTable, Hashlin.init, Hashlin.content]
  fresh _ _ := rfl

private theorem mem_hashed_of_content {n : Node ℕ} (hn : n ∈ s.hits.ht.content) : n.data ∈ s.hits.hashed :=
  List.mem_map_of_mem hn

/-- Changes of an entry other than to its key and its node keep the table filed. -/
private theorem Filed.modify (h : s.Filed hash) (addr : ℕ) {f : CacheHit → CacheHit}
    (hf : ∀ hit, (f hit).key = hit.key ∧ (f hit).htNodeIndex = hit.htNodeIndex) :
    (s.modify addr f).Filed hash where
  wf := h.wf
  nodup := h.nodup
  filed := by
    rw [keys_modify addr hf]
    exact h.filed
  fresh a hle := by
    have hnone := h.fresh a hle
    by_cases ha : a = addr
    · subst ha
      simp [HitCache.modify, hnone]
    · simpa [HitCache.modify, ha] using hnone

private theorem Filed.create (h : s.Filed hash) (key : HitKey) (now : ℤ) : (s.create hash key now).Filed hash := by
  obtain ⟨hwf, hperm⟩ := h.wf.insert s.nextAddr (hash key)
  have hnew : s.nextAddr ∉ s.hits.hashed := by
    intro hm
    obtain ⟨n, hn, hdata⟩ := List.mem_map.mp hm
    obtain ⟨k, hk, -⟩ := h.filed n hn
    rw [hdata] at hk
    simp [keys, h.fresh _ le_rfl] at hk
  have hold : ∀ a, a ≠ s.nextAddr → (s.create hash key now).heap a = s.heap a :=
    fun a hne => Function.update_of_ne hne _ _
  constructor
  · exact hwf
  · have hdata := hperm.map Node.data
    rw [List.map_cons] at hdata
    exact hdata.nodup_iff.mpr (List.nodup_cons.mpr ⟨hnew, h.nodup⟩)
  · intro n hn
    rcases List.mem_cons.mp (hperm.mem_iff.mp hn) with rfl | hn
    · exact ⟨key, by simp [keys, HitCache.create], rfl⟩
    · obtain ⟨k, hk, hindex⟩ := h.filed n hn
      have hne : n.data ≠ s.nextAddr := by
        intro he
        exact hnew (he ▸ mem_hashed_of_content hn)
      refine ⟨k, ?_, hindex⟩
      rw [keys, hold n.data hne]
      exact hk
  · intro a hle
    have hlt : s.nextAddr + 1 ≤ a := hle
    rw [hold a (by omega)]
    exact h.fresh a (by omega)

private theorem Filed.add (h : s.Filed hash) (cfg : Config) (cl : Option (BitVec 64)) (key : HitKey)
    (waitTime : ℕ) (now : ℤ) (malloc : Bool) :
    (s.cacheexAddHitcache hash cfg cl key waitTime now malloc).Filed hash := by
  unfold cacheexAddHitcache
  dsimp only
  by_cases hoff : cfg.maxHitcacheTime = 0 ∨ cfg.cacheexWaitTimetabCevnum = 0 ∨ waitTime = 0
  · rw [if_pos hoff]
    exact h
  rw [if_neg hoff]
  cases hfind : s.find hash key with
  | some addr => exact h.modify addr fun _ => ⟨rfl, rfl⟩
  | none =>
    dsimp only
    split_ifs
    · exact (h.create key now).modify _ fun _ => ⟨rfl, rfl⟩
    · exact h

/-- Taking a node out of the table, and with it what its entry no longer tells. -/
private theorem Filed.unlink (h : s.Filed hash) {n : Node ℕ} {ht : Hashlin ℕ} {heap : ℕ → Option CacheHit}
    {ll : List ℕ} (hn : n ∈ s.hits.ht.content) (hwf : ht.WF) (hperm : ht.content.Perm (s.hits.ht.content.erase n))
    (hheap : ∀ a, a ≠ n.data → heap a = s.heap a) (hfresh : ∀ a, s.nextAddr ≤ a → heap a = none) :
    (HitCache.mk heap s.nextAddr ⟨ht, ll⟩).Filed hash ∧ n.data ∉ ht.content.map Node.data := by
  have hsplit := (List.perm_cons_erase hn).map Node.data
  rw [List.map_cons] at hsplit
  obtain ⟨hout, hrest⟩ := List.nodup_cons.mp (hsplit.nodup_iff.mp h.nodup)
  have hdata := hperm.map Node.data
  have hgone : n.data ∉ ht.content.map Node.data := fun hm => hout (hdata.mem_iff.mp hm)
  refine ⟨⟨hwf, hdata.nodup_iff.mpr hrest, ?_, hfresh⟩, hgone⟩
  intro m hm
  obtain ⟨k, hk, hindex⟩ := h.filed m (List.mem_of_mem_erase (hperm.mem_iff.mp hm))
  refine ⟨k, ?_, hindex⟩
  have hne : m.data ≠ n.data := fun he => hgone (he ▸ List.mem_map_of_mem hm)
  show Option.map (fun hit => (hit.key, hit.htNodeIndex)) (heap m.data) = _
  rw [hheap m.data hne]
  exact hk

/-- The entry that a search finds. -/
private theorem Filed.find_eq_some (h : s.Filed hash) (hfind : s.find hash key = some addr) :
    ⟨addr, hash key⟩ ∈ s.hits.ht.content ∧ ∃ hit, s.heap addr = some hit ∧ hit.key = key := by
  obtain ⟨hmem, hcmp⟩ := Hashlin.search_eq_some h.wf hfind
  refine ⟨hmem, ?_⟩
  unfold compareHitkey at hcmp
  cases hheap : s.heap addr with
  | none => simp [hheap] at hcmp
  | some hit =>
    rw [hheap] at hcmp
    exact ⟨hit, rfl, of_decide_eq_true hcmp⟩

/-- The search sees every entry of the table. -/
private theorem Filed.find_eq_none (h : s.Filed hash) : s.find hash key = none ↔ ¬ s.Stores key := by
  constructor
  · rintro hfind ⟨addr, hmem, hit, hheap, hkey⟩
    obtain ⟨n, hn, rfl⟩ := List.mem_map.mp hmem
    obtain ⟨k, hk, hindex⟩ := h.filed n hn
    have hhit : hit.key = k := by
      simp only [keys, hheap, Option.map_some, Option.some.injEq, Prod.mk.injEq] at hk
      exact hk.1
    have hin : (⟨n.data, hash key⟩ : Node ℕ) ∈ s.hits.ht.content := by
      rw [← hkey, hhit, ← hindex]
      exact hn
    have hcmp := (Hashlin.search_eq_none h.wf).mp hfind n.data hin
    simp [compareHitkey, hheap, hkey] at hcmp
  · intro hnone
    cases hfind : s.find hash key with
    | none => rfl
    | some addr =>
      obtain ⟨hmem, hit, hheap, hkey⟩ := h.find_eq_some hfind
      exact absurd ⟨addr, mem_hashed_of_content hmem, hit, hheap, hkey⟩ hnone

/-- A search that finds an entry removes it. -/
private theorem Filed.remove (h : s.Filed hash) (hfind : s.find hash key = some addr) :
    let t : HitCache := { s with
      hits := (s.hits.searchRemoveElemHashTable (s.compareHitkey key) (hash key)).1 }
    t.Filed hash ∧ addr ∉ t.hits.hashed := by
  obtain ⟨hmem, -⟩ := h.find_eq_some hfind
  obtain ⟨hwf, hperm⟩ := h.wf.remove hfind
  exact h.unlink hmem hwf hperm (fun _ _ => rfl) h.fresh

private theorem del_of_absent (hfind : s.find hash key = none) (cl : Option (BitVec 64)) :
    s.cacheexDelHitcache hash cl key 1 = some s := by
  have hkeep : (s.hits.searchRemoveElemHashTable (s.compareHitkey key) (hash key)).1 = s.hits := by
    have hrem := Hashlin.remove_of_search_none hfind
    simp only [Table.searchRemoveElemHashTable, hrem]
  unfold cacheexDelHitcache delLoop
  dsimp only
  rw [hfind]
  split_ifs <;> simp [hkeep]

/-- A deletion that returns for a stored key removes the entry that a search finds. -/
private theorem del_of_stored {cl : Option (BitVec 64)} {fuel : ℕ} (hfind : s.find hash key = some addr)
    (hdel : s.cacheexDelHitcache hash cl key fuel = some t) : cl.getD 0 = 0 ∧ t = { s with
      hits := (s.hits.searchRemoveElemHashTable (s.compareHitkey key) (hash key)).1 } := by
  unfold cacheexDelHitcache at hdel
  dsimp only at hdel
  by_cases hgrp : cl.getD 0 = 0
  · simp only [hgrp, ne_eq, not_true, if_false, Option.map_some, Option.some.injEq] at hdel
    exact ⟨hgrp, hdel.symm⟩
  · have hnone := @delLoop_eq_none hash s (cl.getD 0) key (by simp [hfind]) fuel
    rw [if_pos hgrp, hnone] at hdel
    cases hdel

private theorem Filed.del (h : s.Filed hash) {cl : Option (BitVec 64)} {fuel : ℕ}
    (hdel : s.cacheexDelHitcache hash cl key fuel = some t) : t.Filed hash := by
  cases hfind : s.find hash key with
  | some addr =>
    rw [(del_of_stored hfind hdel).2]
    exact (h.remove hfind).1
  | none =>
    obtain ⟨-, rfl⟩ := del_absent (fun _ => hfind) hdel
    exact h

private theorem Filed.drop (h : s.Filed hash) {hit : CacheHit} (hdrop : s.drop addr hit = .ok t) :
    t.Filed hash := by
  unfold HitCache.drop Table.removeElemList at hdrop
  split_ifs at hdrop with hll
  · unfold Table.removeElemHashTable at hdrop
    dsimp only [Option.bind_some] at hdrop
    by_cases hmem : (⟨addr, hit.htNodeIndex⟩ : Node ℕ) ∈ s.hits.ht.content
    · obtain ⟨ht, hrem, hwf, hperm⟩ := h.wf.removeExisting hmem
      rw [hrem] at hdrop
      obtain rfl := Except.ok.inj hdrop
      refine (h.unlink hmem hwf hperm ?_ ?_).1
      · exact fun a hne => Function.update_of_ne hne _ _
      · intro a hle
        by_cases ha : a = addr
        · simp [ha]
        · simpa [ha] using h.fresh a hle
    · rw [h.wf.removeExisting_eq_none hmem] at hdrop
      cases hdrop
  · cases hdrop

private theorem Filed.cleanupEntry (h : s.Filed hash) {cfg : Config} {force : Bool} {now : ℤ}
    (hentry : s.cleanupEntry cfg force now addr = .ok t) : t.Filed hash := by
  unfold HitCache.cleanupEntry at hentry
  cases hheap : s.heap addr with
  | none =>
    rw [hheap] at hentry
    cases hentry
  | some hit =>
    simp only [hheap] at hentry
    by_cases hold : force = true ∨ now - hit.time >
        (cfg.maxHitcacheTime + cfg.maxHitcacheTime.tdiv 2) * 1000 ∨
        hit.waittimeBlock > (cfg.waittimeBlockTime / 3 + 1 : ℕ)
    · rw [if_pos hold] at hentry
      exact h.drop hentry
    · rw [if_neg hold] at hentry
      obtain rfl := Except.ok.inj hentry
      exact h.modify addr fun _ => by split_ifs <;> exact ⟨rfl, rfl⟩

private theorem Filed.cleanupLoop (cfg : Config) (force : Bool) (now : ℕ → ℤ) {l : List ℕ} (h : s.Filed hash)
    (hloop : HitCache.cleanupLoop cfg force now l s = .ok t) : t.Filed hash := by
  induction l generalizing s with
  | nil =>
    obtain rfl := Except.ok.inj hloop
    exact h
  | cons addr rest ih =>
    unfold HitCache.cleanupLoop at hloop
    cases hentry : s.cleanupEntry cfg force (now addr) addr with
    | error fault =>
      rw [hentry] at hloop
      cases hloop
    | ok u =>
      rw [hentry] at hloop
      exact ih (h.cleanupEntry hentry) hloop

/-- One operation, unless it fails. -/
private theorem Filed.next (h : s.Filed hash) {a : Action} (hnext : next hash (.ok s) a = some (.ok t)) :
    t.Filed hash := by
  cases a with
  | add cfg cl key waitTime now malloc =>
    obtain rfl := Except.ok.inj (Option.some.inj hnext)
    exact h.add cfg cl key waitTime now malloc
  | del cl key fuel =>
    obtain ⟨u, hdel, hu⟩ := Option.map_eq_some_iff.mp hnext
    obtain rfl := Except.ok.inj hu
    exact h.del hdel
  | cleanup cfg force now => exact h.cleanupLoop cfg force now (Option.some.inj hnext)
  | timeout cfg key =>
    obtain rfl := Except.ok.inj (Option.some.inj hnext)
    unfold cacheexTimeout
    cases hfind : s.find hash key with
    | none => exact h
    | some addr => exact h.modify addr fun _ => by split_ifs <;> exact ⟨rfl, rfl⟩

theorem filed_of_reachable (hr : (system hash).Reachable System.free (.ok s)) : s.Filed hash := by
  have hall := hr.invariant (I := fun st => ∀ s, st = .ok s → s.Filed hash) ?_ ?_
  · exact hall s rfl
  · rintro st rfl s hs
    obtain rfl := Except.ok.inj hs
    exact filed_init
  · rintro st a st' hst - hnext t rfl
    cases st with
    | error fault => cases hnext
    | ok u => exact (hst u rfl).next hnext

/-- In a hit cache that a run has led to, a deletion does what it should exactly when there is nothing to
delete: a client with a group waits forever for a stored key, and one without a group has no entry to remove. -/
theorem deletesShared_iff (hr : (system hash).Reachable System.free (.ok s)) (cl : Option (BitVec 64))
    (key : HitKey) : DeletesShared hash s cl key ↔ ¬ s.Stores key := by
  have h := filed_of_reachable hr
  rw [← h.find_eq_none]
  constructor
  · rintro ⟨fuel, t, hdel, -, hkept⟩
    cases hfind : s.find hash key with
    | none => rfl
    | some addr =>
      obtain ⟨hgrp, rfl⟩ := del_of_stored hfind hdel
      obtain ⟨hmem, hit, hheap, -⟩ := h.find_eq_some hfind
      have hshare : hit.grp &&& cl.getD 0 = 0 := by
        rw [hgrp]
        exact BitVec.and_zero
      have hstay := hkept addr (mem_hashed_of_content hmem) hit hheap (Or.inr hshare)
      exact absurd hstay.1 (h.remove hfind).2
  · intro hfind
    refine ⟨1, s, del_of_absent hfind cl, ?_, fun addr hmem hit hheap _ => ⟨hmem, hheap⟩⟩
    intro addr hmem hit hheap hkey
    exact absurd ⟨addr, hmem, hit, hheap, hkey⟩ (h.find_eq_none.mp hfind)

private def caidHash (key : HitKey) : ℕ := key.caid

/-- The hit cache after the insertion of one key by a client of the first group. -/
private def oneHit : HitCache :=
  initHitcache.cacheexAddHitcache caidHash ⟨15, 1, 0, 0⟩ (some 1) ⟨0x500, 0, 1⟩ 50 0 true

private theorem oneHit_reachable : (system caidHash).Reachable System.free (.ok oneHit) :=
  .step (a := .add ⟨15, 1, 0, 0⟩ (some 1) ⟨0x500, 0, 1⟩ 50 0 true) (.init rfl) trivial rfl

/-- Another key of the same hash is not stored. -/
theorem deletesShared_other : DeletesShared caidHash oneHit (some 1) ⟨0x500, 0, 2⟩ :=
  (deletesShared_iff oneHit_reachable (some 1) ⟨0x500, 0, 2⟩).mpr
    ((filed_of_reachable oneHit_reachable).find_eq_none.mp (by decide +kernel))

/-- The client of the entry itself waits forever. -/
theorem del_endless : ¬ ∀ (hash : HitKey → ℕ) (s : HitCache), (system hash).Reachable System.free (.ok s) →
    ∀ (cl : Option (BitVec 64)) (key : HitKey), DeletesShared hash s cl key := by
  intro h
  obtain ⟨fuel, t, hdel, -⟩ := h caidHash oneHit oneHit_reachable (some 1) ⟨0x500, 0, 1⟩
  have hstored : oneHit.find caidHash ⟨0x500, 0, 1⟩ = some 0 := by decide +kernel
  have hgrp := (del_of_stored hstored hdel).1
  cases hgrp

end NCam.Cacheex.HitCache
