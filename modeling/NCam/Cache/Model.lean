import NCam.Lib.Transition
import NCam.Tommy.Table
import Mathlib

/-! The control word cache of `ncam-cache.c`: entries by ECM hash, each with the control words received for it, and
the clients every word was pushed to. Concurrent `check_is_pushed` calls on the list of these make the test under the
read lock and the insertion under the write lock, without a second test. -/
namespace NCam.Cache

open NCam.Lib NCam.Tommy

/-- The read-locked section of `check_is_pushed`: is the client in the list? -/
def checkIsPushedRead {κ : Type} [DecidableEq κ] (pushoutClient : List κ) (cl : κ) : Bool :=
  pushoutClient.any (· == cl)

/-- The write-locked section; `malloc` tells whether the node could be allocated. -/
def checkIsPushedWrite {κ : Type} (pushoutClient : List κ) (cl : κ) (malloc : Bool) : List κ :=
  if malloc then cl :: pushoutClient else pushoutClient

namespace Pushout

/-- Where a call is: not started, between its two sections, or returned. -/
inductive Pc
  | idle
  | notPushed
  | returned (ret : ℕ)
  deriving DecidableEq

variable {ι κ : Type} [DecidableEq ι] [DecidableEq κ]

structure State (ι κ : Type) where
  pushoutClient : List κ
  pc : ι → Pc

inductive Action (ι : Type)
  | readSection (i : ι)
  | writeSection (i : ι) (malloc : Bool)

/-- Calls `i : ι` of `check_is_pushed` for the clients `client i`, on one control word. -/
def next (client : ι → κ) (s : State ι κ) : Action ι → Option (State ι κ)
  | .readSection i =>
    if s.pc i = .idle then
      let pc := if checkIsPushedRead s.pushoutClient (client i) then .returned 1 else .notPushed
      some ⟨s.pushoutClient, Function.update s.pc i pc⟩
    else none
  | .writeSection i malloc =>
    if s.pc i = .notPushed then
      some ⟨checkIsPushedWrite s.pushoutClient (client i) malloc,
        Function.update s.pc i (.returned 0)⟩
    else none

def system (client : ι → κ) : System (State ι κ) (Action ι) where
  init s := s.pushoutClient = [] ∧ ∀ i, s.pc i = .idle
  next := next client

/-- For every client at most one call returned 0 and the client is recorded at most once. -/
def PushedOnce (client : ι → κ) (s : State ι κ) : Prop :=
  (∀ i j, client i = client j → s.pc i = .returned 0 → s.pc j = .returned 0 → i = j) ∧
    ∀ cl, s.pushoutClient.count cl ≤ 1

/-- A call does not start its read-locked section while another call for the same client is between
its two sections, and the allocation in the write-locked section succeeds. -/
def Separate (client : ι → κ) (s : State ι κ) : Action ι → Prop
  | .readSection i => ∀ j, client j = client i → s.pc j ≠ .notPushed
  | .writeSection _ malloc => malloc = true

structure Inv (client : ι → κ) (s : State ι κ) : Prop where
  nodup : s.pushoutClient.Nodup
  absent : ∀ i, s.pc i = .notPushed → client i ∉ s.pushoutClient
  present : ∀ i, s.pc i = .returned 0 → client i ∈ s.pushoutClient
  single : ∀ i j, client i = client j → (s.pc i = .notPushed ∨ s.pc i = .returned 0) →
    (s.pc j = .notPushed ∨ s.pc j = .returned 0) → i = j

variable {client : ι → κ} {s t : State ι κ}

private theorem inv_readSection (hinv : Inv client s) {i : ι}
    (hg : Separate client s (.readSection i)) (h : next client s (.readSection i) = some t) :
    Inv client t := by
  simp only [next] at h
  split_ifs at h with hidle hpushed
  · -- the client is recorded: the call returns 1
    have ht := (Option.some.inj h).symm
    have hpc : ∀ j, t.pc j = .notPushed ∨ t.pc j = .returned 0 → t.pc j = s.pc j ∧ j ≠ i := by
      intro j hj
      by_cases hji : j = i
      · subst hji; simp [ht] at hj
      · exact ⟨by simp [ht, hji], hji⟩
    have hlist : t.pushoutClient = s.pushoutClient := by rw [ht]
    refine ⟨hlist ▸ hinv.nodup, fun j hj => ?_, fun j hj => ?_, fun j k hjk hj hk => ?_⟩
    · rw [hlist]; exact hinv.absent j ((hpc j (.inl hj)).1 ▸ hj)
    · rw [hlist]; exact hinv.present j ((hpc j (.inr hj)).1 ▸ hj)
    · exact hinv.single j k hjk ((hpc j hj).1 ▸ hj) ((hpc k hk).1 ▸ hk)
  · -- the client is not recorded: no other call for it can have returned 0 or be on its way
    have ht := (Option.some.inj h).symm
    have hlist : t.pushoutClient = s.pushoutClient := by rw [ht]
    have hmem : client i ∉ s.pushoutClient := by
      simpa [checkIsPushedRead] using hpushed
    have hother : ∀ j, client j = client i → ¬ (s.pc j = .notPushed ∨ s.pc j = .returned 0) := by
      rintro j hji (hj | hj)
      · exact hg j hji hj
      · exact hmem (hji ▸ hinv.present j hj)
    have hpc : ∀ j, j ≠ i → t.pc j = s.pc j := fun j hj => by simp [ht, hj]
    have hpci : t.pc i = .notPushed := by simp [ht]
    refine ⟨hlist ▸ hinv.nodup, fun j hj => ?_, fun j hj => ?_, fun j k hjk hj hk => ?_⟩
    · rw [hlist]
      by_cases hji : j = i
      · exact hji ▸ hmem
      · exact hinv.absent j (hpc j hji ▸ hj)
    · rw [hlist]
      have hji : j ≠ i := by rintro rfl; simp [hpci] at hj
      exact hinv.present j (hpc j hji ▸ hj)
    · by_cases hji : j = i <;> by_cases hki : k = i
      · rw [hji, hki]
      · subst hji; exact absurd (hpc k hki ▸ hk) (hother k hjk.symm)
      · subst hki; exact absurd (hpc j hji ▸ hj) (hother j hjk)
      · exact hinv.single j k hjk (hpc j hji ▸ hj) (hpc k hki ▸ hk)

private theorem inv_writeSection (hinv : Inv client s) {i : ι} {malloc : Bool}
    (hg : Separate client s (.writeSection i malloc))
    (h : next client s (.writeSection i malloc) = some t) : Inv client t := by
  have hmalloc : malloc = true := hg
  subst hmalloc
  simp only [next, checkIsPushedWrite, if_true] at h
  split_ifs at h with hpcs
  have ht := (Option.some.inj h).symm
  have hlist : t.pushoutClient = client i :: s.pushoutClient := by rw [ht]
  have hpc : ∀ j, j ≠ i → t.pc j = s.pc j := fun j hj => by simp [ht, hj]
  have hpci : t.pc i = .returned 0 := by simp [ht]
  have hactive : ∀ j, t.pc j = .notPushed ∨ t.pc j = .returned 0 →
      s.pc j = .notPushed ∨ s.pc j = .returned 0 := fun j hj => by
    by_cases hji : j = i
    · exact hji ▸ .inl hpcs
    · exact hpc j hji ▸ hj
  refine ⟨?_, fun j hj => ?_, fun j hj => ?_, fun j k hjk hj hk =>
    hinv.single j k hjk (hactive j hj) (hactive k hk)⟩
  · rw [hlist]; exact List.nodup_cons.mpr ⟨hinv.absent i hpcs, hinv.nodup⟩
  · have hji : j ≠ i := by rintro rfl; simp [hpci] at hj
    have hjs := hpc j hji ▸ hj
    rw [hlist, List.mem_cons, not_or]
    exact ⟨fun hc => hji (hinv.single j i hc (.inl hjs) (.inl hpcs)), hinv.absent j hjs⟩
  · rw [hlist, List.mem_cons]
    by_cases hji : j = i
    · exact .inl (hji ▸ rfl)
    · exact .inr (hinv.present j (hpc j hji ▸ hj))

theorem inv_of_reachable (h : (system client).Reachable (Separate client) s) : Inv client s := by
  refine h.invariant (fun s hs => ?_) fun s a t hinv hg hstep => ?_
  · obtain ⟨hl, hp⟩ := hs
    refine ⟨by simp [hl], fun i hi => ?_, fun i hi => ?_, fun i j _ hi _ => ?_⟩ <;> simp [hp] at hi
  · cases a with
    | readSection i => exact inv_readSection hinv hg hstep
    | writeSection i malloc => exact inv_writeSection hinv hg hstep

/-- When no two calls for one client overlap between their sections, the client is pushed and
recorded once. -/
theorem separate_pushedOnce (h : (system client).Reachable (Separate client) s) :
    PushedOnce client s := by
  have hinv := inv_of_reachable h
  exact ⟨fun i j hij hi hj => hinv.single i j hij (.inr hi) (.inr hj),
    fun cl => List.nodup_iff_count_le_one.mp hinv.nodup cl⟩

private def twoCalls : State Bool Unit := ⟨[], fun _ => .idle⟩

private abbrev sameClient : Bool → Unit := fun _ => ()

instance (s : State Bool Unit) : (a : Action Bool) → Decidable (Separate sameClient s a)
  | .readSection _ => inferInstanceAs (Decidable (∀ _, _ → _))
  | .writeSection _ _ => inferInstanceAs (Decidable (_ = _))

theorem separate_pushedOnce_sequential :
    ∃ s : State Bool Unit, (system sameClient).Reachable (Separate sameClient) s ∧
      s.pc true = .returned 1 ∧ PushedOnce sameClient s := by
  obtain ⟨s, hs, hp⟩ := System.exists_reachable_of_exec (S := system sameClient)
    (G := Separate sameClient) (s := twoCalls) ⟨rfl, fun _ => rfl⟩
    [.readSection false, .writeSection false true, .readSection true]
    (fun s => decide (s.pc true = .returned 1)) (by decide)
  exact ⟨s, hs, of_decide_eq_true hp, separate_pushedOnce hs⟩

/-- Two calls for one client that both made their test before either inserted. -/
theorem pushed_twice : ∃ s : State Bool Unit,
    (system sameClient).Reachable System.free s ∧ ¬ PushedOnce sameClient s := by
  obtain ⟨s, hs, hp⟩ := System.exists_reachable_of_exec (S := system sameClient)
    (G := System.free) (s := twoCalls) ⟨rfl, fun _ => rfl⟩
    [.readSection false, .readSection true, .writeSection false true, .writeSection true true]
    (fun s => decide (s.pc false = .returned 0 ∧ s.pc true = .returned 0)) (by decide)
  have hboth := of_decide_eq_true hp
  exact ⟨s, hs, fun hx => Bool.false_ne_true (hx.1 _ _ rfl hboth.1 hboth.2)⟩

end Pushout

abbrev CwBytes := Vector (BitVec 8) 16

/-- `CW`; of the embedded nodes only the hash value in `ht_node` is data. `received` is not in the
source: the local-generated flags of the receipts since the word was stored. -/
structure Cw where
  cw : CwBytes
  oddEven : BitVec 8
  cwcCycletime : BitVec 8
  cwcNextCwCycle : BitVec 8
  gotBadCwc : Bool
  caid : ℕ
  prid : ℕ
  srvid : ℕ
  selectedReader : Option ℕ
  cacheexSrc : Option ℕ
  grp : BitVec 64
  csp : Bool
  cacheex : Bool
  localcards : Bool
  proxy : Bool
  count : ℕ
  localgenerated : Bool
  pushoutClient : List ℕ
  htNodeIndex : ℕ
  received : List Bool

/-- `ECMHASH`. -/
structure EcmHash where
  cws : Table ℕ
  updTime : ℤ
  firstRecvTime : ℤ
  cspHash : ℕ
  htNodeIndex : ℕ

/-- The allocated objects by address and the table of entries. Addresses are not handed out twice. -/
structure EcmCache where
  ecmHash : ℕ → Option EcmHash
  cw : ℕ → Option Cw
  pushClient : ℕ → Option ℕ
  nextAddr : ℕ
  entries : Table ℕ
  lgCacheSize : ℕ

/-- The fields of `ECM_REQUEST` that `add_cache` reads. -/
structure EcmRequest where
  cspHash : ℕ
  cw : CwBytes
  ecm0 : BitVec 8
  cwcCycletime : BitVec 8
  cwcNextCwCycle : BitVec 8
  caid : ℕ
  prid : ℕ
  srvid : ℕ
  grp : BitVec 64
  rc : ℕ
  ecmTime : ℕ
  selectedReader : Option ℕ
  cacheexSrc : Option ℕ
  fromCacheex : Bool
  fromCsp : Bool
  localgenerated : Bool

/-- What `add_cache` gets from the functions it calls and from the settings. -/
structure Env where
  cwCacheCheck : Bool
  malloc : Bool
  now : ℤ
  isLocalreader : Bool
  isNetworkReader : Bool
  lgOnlyException : Bool
  lgOnly : Bool
  nopushafter : ℕ
  dropdiffs : Bool

inductive Fault
  | unlinkedTwice
  | useAfterFree
  deriving DecidableEq

def getOddEven (er : EcmRequest) : BitVec 8 :=
  if er.ecm0 ≠ 0x80 ∧ er.ecm0 ≠ 0x81 then 0 else er.ecm0

/-- `count_sort` as the sort sees it: its result type is `uint8_t`. -/
def countSort (a b : ℕ) : ℤ :=
  let ret : BitVec 8 := if a = b then 0 else if a > b then -1 else 1
  ret.toNat

def localgeneratedCount : ℕ := 0x0F000000

def isLocalgenerated (er : EcmRequest) (env : Env) : Bool :=
  er.localgenerated || (er.selectedReader.isSome && !env.isNetworkReader)

/-- A receipt's change of `count`. -/
def countReceipt (count : ℕ) (localgenerated : Bool) : ℕ :=
  let count := if localgenerated ∧ count < localgeneratedCount then count ||| localgeneratedCount
    else count
  (count + 1) % 2 ^ 32

/-- The update of a stored control word in `add_cache`. -/
def receive (cw : Cw) (er : EcmRequest) (env : Env) : Cw :=
  { cw with
    cacheex := cw.cacheex || er.fromCacheex
    csp := cw.csp || er.fromCsp
    localcards := cw.localcards || (er.cacheexSrc.isNone && env.isLocalreader)
    proxy := cw.proxy || (er.cacheexSrc.isNone && !env.isLocalreader)
    localgenerated := isLocalgenerated er env
    grp := cw.grp ||| er.grp
    count := countReceipt cw.count (isLocalgenerated er env)
    received := cw.received ++ [isLocalgenerated er env] }

def newCw (er : EcmRequest) (hash : ℕ) : Cw where
  cw := er.cw
  oddEven := getOddEven er
  cwcCycletime := er.cwcCycletime
  cwcNextCwCycle := er.cwcNextCwCycle
  gotBadCwc := false
  caid := er.caid
  prid := er.prid
  srvid := er.srvid
  selectedReader := er.selectedReader
  cacheexSrc := er.cacheexSrc
  grp := 0
  csp := false
  cacheex := false
  localcards := false
  proxy := false
  count := 0
  localgenerated := false
  pushoutClient := []
  htNodeIndex := hash
  received := []

/-- Whether `add_cache` hands the word to `cacheex_cache_add`; `cws` is the entry's word count. -/
def pushes (er : EcmRequest) (env : Env) (cws : ℕ) : Bool :=
  let localgenerated := isLocalgenerated er env
  if !localgenerated && !env.lgOnlyException && env.lgOnly then false
  else if er.rc < 3 ∧ er.ecmTime ≠ 0 ∧ env.nopushafter ≠ 0 ∧ env.nopushafter < er.ecmTime then false
  else if env.dropdiffs ∧ cws > 1 ∧ !localgenerated then false
  else true

namespace EcmCache

def initCache : EcmCache where
  ecmHash := fun _ => none
  cw := fun _ => none
  pushClient := fun _ => none
  nextAddr := 0
  entries := .initHashTable
  lgCacheSize := 0

variable (hashCsp : ℕ → ℕ) (hashCw : CwBytes → ℕ)

def compareCspHash (s : EcmCache) (cspHash addr : ℕ) : Bool :=
  match s.ecmHash addr with
  | some ecmhash => decide (ecmhash.cspHash = cspHash)
  | none => false

def compareCw (s : EcmCache) (cw : CwBytes) (addr : ℕ) : Bool :=
  match s.cw addr with
  | some c => decide (c.cw = cw)
  | none => false

def setEcmHash (s : EcmCache) (e : ℕ) (ecmhash : EcmHash) : EcmCache :=
  { s with ecmHash := Function.update s.ecmHash e (some ecmhash) }

def setCw (s : EcmCache) (a : ℕ) (cw : Cw) : EcmCache :=
  { s with cw := Function.update s.cw a (some cw) }

def count (s : EcmCache) (a : ℕ) : ℕ := ((s.cw a).map Cw.count).getD 0

def createEcmHash (s : EcmCache) (er : EcmRequest) (now : ℤ) : EcmCache where
  ecmHash := Function.update s.ecmHash s.nextAddr (some
    { cws := .initHashTable, updTime := now, firstRecvTime := now, cspHash := er.cspHash
      htNodeIndex := hashCsp er.cspHash })
  cw := s.cw
  pushClient := s.pushClient
  nextAddr := s.nextAddr + 1
  entries := s.entries.addHashTable s.nextAddr (hashCsp er.cspHash)
  lgCacheSize := s.lgCacheSize

/-- The entry of a request, created if there is none; `none` when the allocation fails. -/
def ecmHashFor (s : EcmCache) (er : EcmRequest) (env : Env) : Option (EcmCache × ℕ) :=
  match s.entries.findHashTable (s.compareCspHash er.cspHash) (hashCsp er.cspHash) with
  | some e => some (s, e)
  | none => if env.malloc then some (s.createEcmHash hashCsp er env.now, s.nextAddr) else none

def createCw (s : EcmCache) (e : ℕ) (ecmhash : EcmHash) (er : EcmRequest) : EcmCache where
  ecmHash := Function.update s.ecmHash e (some
    { ecmhash with cws := ecmhash.cws.addHashTable s.nextAddr (hashCw er.cw) })
  cw := Function.update s.cw s.nextAddr (some (newCw er (hashCw er.cw)))
  pushClient := s.pushClient
  nextAddr := s.nextAddr + 1
  entries := s.entries
  lgCacheSize := s.lgCacheSize

/-- The stored word of a request and whether it is new; `none` at the limit of 10 words. The
allocation is repeated until it succeeds. -/
def cwFor (s : EcmCache) (e : ℕ) (ecmhash : EcmHash) (er : EcmRequest) : Option (EcmCache × ℕ × Bool) :=
  match ecmhash.cws.findHashTable (s.compareCw er.cw) (hashCw er.cw) with
  | some a => some (s, a, false)
  | none =>
    if ecmhash.cws.countHashTable ≥ 10 then none
    else some (s.createCw hashCw e ecmhash er, s.nextAddr, true)

/-- `sort_list` on the words of an entry. -/
def sortCws (s : EcmCache) (e : ℕ) : EcmCache :=
  { s with ecmHash := Function.update s.ecmHash e ((s.ecmHash e).map fun ecmhash =>
      { ecmhash with cws := ecmhash.cws.sortList fun a b => countSort (s.count a) (s.count b) }) }

/-- The update of word `a` of entry `e` and the sort after it. -/
def receiveCw (s : EcmCache) (e a : ℕ) (cw : Cw) (er : EcmRequest) (env : Env) : EcmCache :=
  let weighed := isLocalgenerated er env ∧ cw.count < localgeneratedCount
  let s := { s.setCw a (receive cw er env) with
    lgCacheSize := if weighed then (s.lgCacheSize + 1) % 2 ^ 32 else s.lgCacheSize }
  if (receive cw er env).count > 1 then s.sortCws e else s

/-- What `add_cache` leaves: the cache, its changes of the request, and the arguments of
`cacheex_cache_add` if that is called. -/
structure AddResult where
  cache : EcmCache
  localgenerated : Bool
  cwCount : ℕ
  push : Option (ℕ × ℕ × Bool)

/-- `add_cache` from the search for the word on, in entry `e`. -/
def storeCw (s : EcmCache) (e : ℕ) (ecmhash : EcmHash) (er : EcmRequest) (env : Env) :
    Except Fault AddResult :=
  match s.cwFor hashCw e ecmhash er with
  | none => .ok ⟨s, er.localgenerated, 0, none⟩
  | some (s, a, addNewCw) =>
    match s.cw a with
    | none => .error .useAfterFree
    | some cw =>
      let s := s.receiveCw e a cw er env
      let cws := ((s.ecmHash e).map fun ecmhash => ecmhash.cws.countHashTable).getD 0
      .ok ⟨s, isLocalgenerated er env, (receive cw er env).count,
        if pushes er env cws then some (e, a, addNewCw) else none⟩

def addCache (s : EcmCache) (er : EcmRequest) (env : Env) : Except Fault AddResult :=
  if er.cspHash = 0 ∨ !env.cwCacheCheck then .ok ⟨s, er.localgenerated, 0, none⟩
  else match s.ecmHashFor hashCsp er env with
    | none => .ok ⟨s, er.localgenerated, 0, none⟩
    | some (s, e) =>
      match s.ecmHash e with
      | none => .error .useAfterFree
      | some ecmhash =>
        let ecmhash := { ecmhash with updTime := env.now }
        (s.setEcmHash e ecmhash).storeCw hashCw e ecmhash er env

/-- `get_first_cw` on the words of an entry, `oddEven` being `get_odd_even` of the request. -/
def getFirstCw (s : EcmCache) (ecmhash : EcmHash) (oddEven : BitVec 8) : Option ℕ :=
  ecmhash.cws.ll.find? fun a =>
    match s.cw a with
    | some cw => cw.oddEven == oddEven && !cw.gotBadCwc
    | none => false

/-- The loop that frees a pushed-client list. -/
def freePushout (pushClient : ℕ → Option ℕ) : List ℕ → Except Fault (ℕ → Option ℕ)
  | [] => .ok pushClient
  | pc :: rest =>
    if (pushClient pc).isNone then .error .useAfterFree
    else freePushout (Function.update pushClient pc none) rest

/-- One round of the inner loop of `cleanup_cache`: word `a` of entry `e` is unlinked and freed. -/
def dropCw (s : EcmCache) (e a : ℕ) : Except Fault EcmCache :=
  match s.ecmHash e, s.cw a with
  | some ecmhash, some cw =>
    (freePushout s.pushClient cw.pushoutClient).bind fun pushClient =>
      match (ecmhash.cws.removeElemList a).bind (·.removeElemHashTable ⟨a, cw.htNodeIndex⟩) with
      | none => .error .unlinkedTwice
      | some cws =>
        .ok { s with
          pushClient := pushClient
          lgCacheSize := if cw.count ≥ localgeneratedCount then (s.lgCacheSize + (2 ^ 32 - 1)) % 2 ^ 32
            else s.lgCacheSize
          ecmHash := Function.update s.ecmHash e (some { ecmhash with cws := cws })
          cw := Function.update s.cw a none }
  | _, _ => .error .useAfterFree

def dropCws (e : ℕ) : List ℕ → EcmCache → Except Fault EcmCache
  | [], s => .ok s
  | a :: rest, s => (s.dropCw e a).bind (dropCws e rest)

/-- The removal of an entry in `cleanup_cache`, its words first. -/
def dropEcmHash (s : EcmCache) (e : ℕ) (ecmhash : EcmHash) : Except Fault EcmCache :=
  (dropCws e ecmhash.cws.ll s).bind fun s =>
    match (s.entries.removeElemList e).bind (·.removeElemHashTable ⟨e, ecmhash.htNodeIndex⟩) with
    | none => .error .unlinkedTwice
    | some entries => .ok { s with entries := entries, ecmHash := Function.update s.ecmHash e none }

/-- The walk of `cleanup_cache`: it ends at the first entry that is younger than the limit. -/
def cleanupLoop (force : Bool) (maxCacheTime : ℤ) (now : ℕ → ℤ) : List ℕ → EcmCache → Except Fault EcmCache
  | [], s => .ok s
  | e :: rest, s =>
    match s.ecmHash e with
    | none => .error .useAfterFree
    | some ecmhash =>
      let goneFirst := now e - ecmhash.firstRecvTime
      let goneUpd := now e - ecmhash.updTime
      if !force ∧ goneFirst ≤ maxCacheTime * 1000 then .ok s
      else if force ∨ goneUpd > maxCacheTime * 1000 then
        (s.dropEcmHash e ecmhash).bind (cleanupLoop force maxCacheTime now rest)
      else cleanupLoop force maxCacheTime now rest s

def cleanupCache (s : EcmCache) (force : Bool) (maxCacheTime : ℤ) (now : ℕ → ℤ) : Except Fault EcmCache :=
  cleanupLoop force maxCacheTime now s.entries.ll s

/-- `check_is_pushed` of client `cl` for a stored word, nothing else running between its sections. -/
def checkIsPushed (s : EcmCache) (a : ℕ) (cw : Cw) (cl : ℕ) (malloc : Bool) : EcmCache :=
  if checkIsPushedRead (cw.pushoutClient.filterMap s.pushClient) cl ∨ !malloc then s
  else
    { s with
      pushClient := Function.update s.pushClient s.nextAddr (some cl)
      cw := Function.update s.cw a (some { cw with pushoutClient := s.nextAddr :: cw.pushoutClient })
      nextAddr := s.nextAddr + 1 }

inductive Action
  | add (er : EcmRequest) (env : Env)
  | cleanup (force : Bool) (maxCacheTime : ℤ) (now : ℕ → ℤ)
  | push (a cl : ℕ) (malloc : Bool)

/-- The cache, or the fault that ended the run. -/
abbrev State := Except Fault EcmCache

/-- A push is for a word that is stored. -/
def next : State → Action → Option State
  | .error _, _ => none
  | .ok s, .add er env => some ((s.addCache hashCsp hashCw er env).map AddResult.cache)
  | .ok s, .cleanup force maxCacheTime now => some (s.cleanupCache force maxCacheTime now)
  | .ok s, .push a cl malloc => (s.cw a).map fun cw => .ok (s.checkIsPushed a cw cl malloc)

def system : System State Action where
  init st := st = .ok initCache
  next := next hashCsp hashCw

end EcmCache

end NCam.Cache
