import NCam.CwCycle.Stages
import NCam.Garbage.Collector
import NCam.Lock.Model

/-! The lock calls of the control word cycle check and of the garbage collector. Both unlock once more
than they lock: the check for a service without an entry, the collector in a bucket with more than two
elements that are young or behind young ones. -/
namespace NCam.Lock

inductive LockCall
  | lock (type : LockType)
  | unlock (type : LockType)
  deriving DecidableEq

/-- The locks of a type held behind the calls, `none` once one is given back that is not held. -/
def heldBehind (type : LockType) : ℕ → List LockCall → Option ℕ
  | n, [] => some n
  | n, .lock t :: calls => heldBehind type (if t = type then n + 1 else n) calls
  | n, .unlock t :: calls =>
    if t ≠ type then heldBehind type n calls
    else if n = 0 then none
    else heldBehind type (n - 1) calls

/-- Each lock of the type is given back, once. -/
def ReleasedOnce (type : LockType) (calls : List LockCall) : Prop := heldBehind type 0 calls = some 0

instance (type : LockType) (calls : List LockCall) : Decidable (ReleasedOnce type calls) :=
  inferInstanceAs (Decidable (_ = _))

end NCam.Lock

namespace NCam.CwCycle

open NCam.Lock

/-- The calls for the read lock of the cycle list, up to the insertion. The lock is left where the node
is copied, behind the loop if `readlocked` is still set, and again if `need_new_entry` is. -/
def readCalls (found alloc : Bool) : List LockCall :=
  let readlocked := !(found && alloc)
  let needNewEntry := !found
  [.lock .read] ++ (if readlocked then [] else [.unlock .read]) ++
    (if readlocked then [.unlock .read] else []) ++ (if needNewEntry then [.unlock .read] else [])

def writeCalls : List LockCall := [.lock .write, .unlock .write]

/-- `checkcwcycle_int` with its calls for `cwcycle_lock`. -/
def checkcwcycleLocked (cfg : Setting) (call : Call) (s : State) :
    (ℕ × CheckedRequest × State) × List LockCall :=
  let now := call.er.tps
  let (valid, er) := checkvalidCW call.er
  if !valid then ((3, er, s), [])
  else match lookup er s.cwCcList with
    | some (node, list) =>
      let calls := readCalls true call.alloc
      if !call.alloc then ((6, er, s), calls)
      else
        let size := if node.old then s.cwCcListSize else s.cwCcListSize - 1
        let w := judge cfg call now ⟨node, 6, true, er⟩
        if w.updEntry then
          ((w.ret, w.er, { s with
            cwCcList := updated call now w.er w.cwc :: list
            cwCcListSize := size + 1 }), calls ++ writeCalls)
        else ((w.ret, w.er, { s with cwCcList := list, cwCcListSize := size }), calls)
    | none =>
      let calls := readCalls false call.alloc
      if s.cwCcListSize ≤ cfg.maxcyclelist ∧ call.alloc then
        ((if call.cycletimeFr > 0 ∧ call.nextCwCycleFr < 2 then 8 else 6, er, { s with
          cwCcList := newEntry cfg { call with er := er } now :: s.cwCcList
          cwCcListSize := s.cwCcListSize + 1 }), calls ++ writeCalls)
      else ((6, er, s), calls)

theorem checkcwcycleLocked_fst (cfg : Setting) (call : Call) (s : State) :
    (checkcwcycleLocked cfg call s).1 = checkcwcycleInt cfg call s := by
  unfold checkcwcycleLocked checkcwcycleInt
  dsimp only
  by_cases hvalid : (checkvalidCW call.er).1 = true
  · simp only [hvalid, Bool.not_true, Bool.false_eq_true, if_false]
    cases lookup (checkvalidCW call.er).2 s.cwCcList with
    | none =>
      dsimp only
      split_ifs <;> rfl
    | some found =>
      dsimp only
      split_ifs <;> rfl
  · simp [hvalid]

/-- The service of the request has an entry. -/
def HasEntry (call : Call) (s : State) : Prop := ∃ node ∈ s.cwCcList, sameService call.er node = true

theorem sameService_checkvalidCW (er : CheckedRequest) (node : CwCycleCheck) :
    sameService (checkvalidCW er).2 node = sameService er node := by
  unfold checkvalidCW
  dsimp only
  split_ifs <;> rfl

theorem lookup_isSome (er : CheckedRequest) (nodes : List CwCycleCheck) :
    (lookup er nodes).isSome = true ↔ ∃ node ∈ nodes, sameService er node = true := by
  induction nodes with
  | nil => simp [lookup]
  | cons node rest ih =>
    unfold lookup
    by_cases hsame : sameService er node = true
    · simp [hsame]
    · simp [hsame, ih]

/-- The calls of a check for a valid control word, but for the insertion under the write lock. -/
theorem checkcwcycleLocked_calls (cfg : Setting) (call : Call) (s : State)
    (hvalid : (checkvalidCW call.er).1 = true) :
    ∃ calls, (calls = [] ∨ calls = writeCalls) ∧ (checkcwcycleLocked cfg call s).2 =
      readCalls (lookup (checkvalidCW call.er).2 s.cwCcList).isSome call.alloc ++ calls := by
  unfold checkcwcycleLocked
  dsimp only
  simp only [hvalid, Bool.not_true, Bool.false_eq_true, if_false]
  cases lookup (checkvalidCW call.er).2 s.cwCcList with
  | none =>
    by_cases hroom : s.cwCcListSize ≤ cfg.maxcyclelist ∧ call.alloc = true
    · exact ⟨writeCalls, Or.inr rfl, by simp only [if_pos hroom]; rfl⟩
    · exact ⟨[], Or.inl rfl, by simp only [if_neg hroom]; rfl⟩
  | some found =>
    by_cases halloc : call.alloc = true
    · by_cases hupd : (judge cfg call call.er.tps
          ⟨found.1, 6, true, (checkvalidCW call.er).2⟩).updEntry = true
      · exact ⟨writeCalls, Or.inr rfl, by simp [halloc, hupd]⟩
      · exact ⟨[], Or.inl rfl, by simp [halloc, hupd]⟩
    · exact ⟨[], Or.inl rfl, by simp [halloc]⟩

/-- With `n` read locks of others the check leaves them all, or one less. -/
theorem heldBehind_readCalls (found alloc : Bool) (calls : List LockCall)
    (hcalls : calls = [] ∨ calls = writeCalls) (n : ℕ) :
    heldBehind .read n (readCalls found alloc ++ calls) =
      if found then some n else if n = 0 then none else some (n - 1) := by
  rcases hcalls with rfl | rfl <;> cases found <;> cases alloc <;> cases n <;>
    simp [readCalls, writeCalls, heldBehind]

theorem releasedOnce_checkcwcycleLocked (cfg : Setting) (call : Call) (s : State) :
    ReleasedOnce .read (checkcwcycleLocked cfg call s).2 ↔
      (checkvalidCW call.er).1 = false ∨ HasEntry call s := by
  by_cases hvalid : (checkvalidCW call.er).1 = true
  · obtain ⟨calls, hcalls, heq⟩ := checkcwcycleLocked_calls cfg call s hvalid
    have hsome := lookup_isSome (checkvalidCW call.er).2 s.cwCcList
    simp only [sameService_checkvalidCW] at hsome
    unfold ReleasedOnce HasEntry
    rw [heq, heldBehind_readCalls _ _ calls hcalls, ← hsome]
    by_cases hfound : (lookup (checkvalidCW call.er).2 s.cwCcList).isSome = true
    · simp [hfound]
    · simp [hfound, hvalid]
  · have hcalls : (checkcwcycleLocked cfg call s).2 = [] := by
      unfold checkcwcycleLocked
      simp [hvalid]
    simp [hcalls, ReleasedOnce, heldBehind, hvalid]

end NCam.CwCycle

namespace NCam.Garbage

open NCam.Lib NCam.Lock

variable {D : Type*}

/-- The loop over a bucket, which counts the elements in `j`: the cut list with the unlock calls. -/
def cutLocked (late : CsGarbage D → Bool) :
    ℕ → List (CsGarbage D) → (List (CsGarbage D) × List (CsGarbage D)) × List LockCall
  | _, [] => (([], []), [])
  | j, garbage :: next =>
    let calls := if j = 2 then [.unlock .write] else []
    let j := if j = 2 then j + 1 else j
    if late garbage then (([], garbage :: next), calls)
    else
      let r := cutLocked late (j + 1) next
      ((garbage :: r.1.1, r.1.2), calls ++ r.2)

/-- `Collector.collectBucket` with its calls for the lock of the bucket. -/
def collectBucketLocked [DecidableEq D] (cfg : Settings) (s : Collector D) (now : ℤ)
    (i : Fin hashBuckets) : Collector D × List LockCall :=
  let cut := cutLocked (Collector.expired cfg now) 0 (s.garbageFirst i)
  ({ s with
    garbageFirst := Function.update s.garbageFirst i cut.1.1
    freed := s.freed ++ cut.1.2.map fun garbage => ⟨garbage, now, true⟩ },
    [.lock .write] ++ cut.2 ++ [.unlock .write])

theorem cutLocked_fst (late : CsGarbage D → Bool) (j : ℕ) (bucket : List (CsGarbage D)) :
    (cutLocked late j bucket).1 = cutAt late bucket := by
  induction bucket generalizing j with
  | nil => rfl
  | cons garbage next ih =>
    unfold cutLocked cutAt
    by_cases hlate : late garbage = true
    · simp [hlate]
    · simp [hlate, ih]

theorem collectBucketLocked_fst [DecidableEq D] (cfg : Settings) (s : Collector D) (now : ℤ)
    (i : Fin hashBuckets) : (collectBucketLocked cfg s now i).1 = s.collectBucket cfg now i := by
  simp only [collectBucketLocked, Collector.collectBucket, cutLocked_fst]

theorem cutLocked_behind (late : CsGarbage D → Bool) (j : ℕ) (hj : 2 < j)
    (bucket : List (CsGarbage D)) : (cutLocked late j bucket).2 = [] := by
  induction bucket generalizing j with
  | nil => rfl
  | cons garbage next ih =>
    have : j ≠ 2 := by omega
    unfold cutLocked
    by_cases hlate : late garbage = true
    · simp [hlate, this]
    · simp [hlate, this, ih (j + 1) (by omega)]

/-- The loop unlocks at the third element, which it reaches behind two that are not late. -/
theorem cutLocked_calls (late : CsGarbage D → Bool) (bucket : List (CsGarbage D)) :
    (cutLocked late 0 bucket).2 =
      if bucket.length ≤ 2 ∨ (bucket.take 2).any late then [] else [.unlock .write] := by
  match bucket with
  | [] => rfl
  | [a] =>
    cases h : late a <;> simp [cutLocked, h]
  | [a, b] =>
    cases ha : late a <;> cases hb : late b <;> simp [cutLocked, ha, hb]
  | a :: b :: c :: rest =>
    have hrest := cutLocked_behind late 4 (by omega) rest
    cases ha : late a <;> cases hb : late b <;> cases hc : late c <;>
      simp [cutLocked, ha, hb, hc, hrest]

/-- The lock of the bucket is given back once in a pass that ends before a third element. -/
theorem unlocks_collectBucketLocked [DecidableEq D] (cfg : Settings) (s : Collector D) (now : ℤ)
    (i : Fin hashBuckets) :
    (collectBucketLocked cfg s now i).2.count (.unlock .write) = 1 ↔ (s.garbageFirst i).length ≤ 2 ∨
      ∃ garbage ∈ (s.garbageFirst i).take 2, garbage.time < now - cfg.timeoutTime := by
  have hlate : ((s.garbageFirst i).take 2).any (Collector.expired cfg now) = true ↔
      ∃ garbage ∈ (s.garbageFirst i).take 2, garbage.time < now - cfg.timeoutTime := by
    simp [Collector.expired]
  unfold collectBucketLocked
  simp only [cutLocked_calls, ← hlate]
  split_ifs with h
  · simpa using h
  · simpa using h

end NCam.Garbage

namespace NCam.Lock

open NCam.CwCycle NCam.Garbage

/-- The locks of the cycle list and of the buckets are given back once: in a check whose control word
is not valid or whose service has an entry, and in a pass that ends before a third element. -/
theorem releasedOnce_iff {D : Type*} [DecidableEq D] (cfg : Setting) (call : Call) (s : CwCycle.State)
    (gcfg : Settings) (c : Collector D) (now : ℤ) (i : Fin hashBuckets) :
    (ReleasedOnce .read (checkcwcycleLocked cfg call s).2 ↔
      (checkvalidCW call.er).1 = false ∨ HasEntry call s) ∧
    ((collectBucketLocked gcfg c now i).2.count (.unlock .write) = 1 ↔
      (c.garbageFirst i).length ≤ 2 ∨
        ∃ garbage ∈ (c.garbageFirst i).take 2, garbage.time < now - gcfg.timeoutTime) :=
  ⟨releasedOnce_checkcwcycleLocked cfg call s, unlocks_collectBucketLocked gcfg c now i⟩

theorem hashBuckets_pos : 0 < hashBuckets := Nat.succ_pos 249

/-- A bucket of three elements that are one, two and three seconds old. -/
def youngBucket : Collector ℕ where
  counter := ⟨0, hashBuckets_pos⟩
  garbageFirst _ := [⟨99, 1⟩, ⟨98, 2⟩, ⟨97, 3⟩]
  clock := 100
  added := []
  freed := []

/-- The first control word of a service, and a bucket of three young elements. -/
theorem released_twice :
    ¬ReleasedOnce .read (checkcwcycleLocked ceSetting (callAt 1000 (.replicate 16 1) 10)
      ⟨[], 0, 0⟩).2 ∧
    (collectBucketLocked ⟨true, 0, false, 5000⟩ youngBucket 100 ⟨0, hashBuckets_pos⟩).2.count
      (.unlock .write) = 2 := by
  constructor
  · rw [releasedOnce_checkcwcycleLocked]
    have hvalid : (checkvalidCW (callAt 1000 (.replicate 16 1) 10).er).1 = true := by decide
    rintro (hinvalid | ⟨node, hnode, -⟩)
    · exact absurd (hvalid.symm.trans hinvalid) (by decide)
    · exact absurd hnode List.not_mem_nil
  · show ([LockCall.lock .write] ++ (cutLocked _ 0 [⟨99, 1⟩, ⟨98, 2⟩, ⟨97, 3⟩]).2 ++
      [LockCall.unlock .write]).count (LockCall.unlock .write) = 2
    rw [cutLocked_calls, if_neg (by decide)]
    rfl

end NCam.Lock
