import NCam.Lib.Transition
import Mathlib

/-! The reader-writer lock of `ncam-lock.c` and the threads that use one lock. A stretch of code
under the lock's mutex is one step. -/
namespace NCam.Lock

open NCam.Lib

inductive LockType
  | write
  | read
  deriving DecidableEq

/-- The value an `int16_t` field holds after `x` was stored in it. -/
def int16 (x : ℤ) : ℤ := (x + 32768) % 65536 - 32768

theorem int16_of_bounds {x : ℤ} (h₀ : 0 ≤ x) (h : x ≤ 32767) : int16 x = x := by
  unfold int16
  omega

/-- `CS_MUTEX_LOCK` without its mutex and condition variables: `named` is `name != NULL`. -/
structure CsMutexLock where
  named : Bool
  flag : Bool
  writelock : ℤ
  readlock : ℤ
  deriving DecidableEq

def csLockCreate : CsMutexLock := ⟨true, false, 0, 0⟩

/-- `cs_rwlock_int` up to its condition wait; the second component tells whether it waits. -/
def csRwlockInt (l : CsMutexLock) (type : LockType) : CsMutexLock × Bool :=
  if !l.named || l.flag then (l, false)
  else match type with
    | .write =>
      let l := { l with writelock := int16 (l.writelock + 1) }
      (l, decide (l.writelock > 1) || decide (l.readlock > 0))
    | .read =>
      let l := { l with readlock := int16 (l.readlock + 1) }
      (l, decide (l.writelock > 0))

/-- `cs_rwlock_int` after the condition wait returned `ret`. -/
def csRwlockResume (l : CsMutexLock) (type : LockType) (ret : ℤ) : CsMutexLock :=
  if ret > 0 then
    match type with
    | .write => { l with writelock := 1, readlock := 0 }
    | .read => { l with writelock := 0, readlock := 1 }
  else l

/-- What `cs_rwunlock_int` does to the condition variables. -/
inductive Wakeup
  | none
  | signalWrite
  | broadcastRead
  deriving DecidableEq

def csRwunlockInt (l : CsMutexLock) (type : LockType) : CsMutexLock × Wakeup :=
  if l.flag then (l, .none)
  else
    let l := match type with
      | .write => { l with writelock := int16 (l.writelock - 1) }
      | .read => { l with readlock := int16 (l.readlock - 1) }
    let l := if l.writelock < 0 then { l with writelock := 0 } else l
    let l := if l.readlock < 0 then { l with readlock := 0 } else l
    (l, if l.writelock ≠ 0 then .signalWrite
        else if l.readlock ≠ 0 ∧ type ≠ .read then .broadcastRead
        else .none)

/-- `cs_try_rwlock_int` with its status: `1` when the lock is busy. -/
def csTryRwlockInt (l : CsMutexLock) (type : LockType) : CsMutexLock × ℤ :=
  if !l.named || l.flag then (l, 0)
  else match type with
    | .write =>
      if l.writelock ≠ 0 ∨ l.readlock ≠ 0 then (l, 1)
      else ({ l with writelock := int16 (l.writelock + 1) }, 0)
    | .read =>
      if l.writelock ≠ 0 then (l, 1)
      else ({ l with readlock := int16 (l.readlock + 1) }, 0)

/-- Where a thread is: outside the lock's code, blocked in a condition wait, or signalled and
about to get the mutex back. -/
inductive Pc
  | run
  | wait (type : LockType)
  | woken (type : LockType)
  deriving DecidableEq

/-- The read and write locks a thread holds, and where it is. -/
structure Thread where
  rd : ℕ
  wr : ℕ
  pc : Pc
  deriving DecidableEq

namespace Thread

/-- Locks of a type that the thread holds. -/
def held (t : Thread) : LockType → ℕ
  | .write => t.wr
  | .read => t.rd

/-- Locks of a type that are the thread's: held, or handed to it by a signal. -/
def owned (t : Thread) (type : LockType) : ℕ :=
  t.held type + if t.pc = .woken type then 1 else 0

/-- Locks of a type that the thread has asked for and not given back. -/
def requested (t : Thread) (type : LockType) : ℕ :=
  t.owned type + if t.pc = .wait type then 1 else 0

def acquire (t : Thread) : LockType → Thread
  | .write => { t with wr := t.wr + 1, pc := .run }
  | .read => { t with rd := t.rd + 1, pc := .run }

def release (t : Thread) : LockType → Thread
  | .write => { t with wr := t.wr - 1 }
  | .read => { t with rd := t.rd - 1 }

/-- The effect of a signal on a thread that waits for a lock of this type. -/
def wake (t : Thread) (type : LockType) : Thread :=
  if t.pc = .wait type then { t with pc := .woken type } else t

end Thread

variable (ι : Type) [Fintype ι] [DecidableEq ι]

structure State where
  lock : CsMutexLock
  thread : ι → Thread

/-- `resume` is the end of a condition wait; `woken` of an unlock is the thread its signal wakes. -/
inductive Action
  | lock (i : ι) (type : LockType)
  | tryLock (i : ι) (type : LockType)
  | unlock (i : ι) (type : LockType) (woken : Option ι)
  | resume (i : ι)

variable {ι}

/-- The threads after an unlock's wakeup. A signal wakes one waiting thread if there is one. -/
def applyWakeup (thread : ι → Thread) : Wakeup → Option ι → Option (ι → Thread)
  | .none, none => some thread
  | .signalWrite, some j =>
    if (thread j).pc = .wait .write then
      some (Function.update thread j ((thread j).wake .write))
    else none
  | .signalWrite, none =>
    if ∀ j, (thread j).pc ≠ .wait .write then some thread else none
  | .broadcastRead, none => some fun j => (thread j).wake .read
  | _, _ => none

/-- One mutex-protected stretch; only a thread outside the lock's code starts a call, and only a
holder unlocks. No wait times out, so `ret` is `0`. -/
def next (s : State ι) : Action ι → Option (State ι)
  | .lock i type =>
    if (s.thread i).pc = .run then
      let (l, waits) := csRwlockInt s.lock type
      some ⟨l, Function.update s.thread i
        (if waits then { s.thread i with pc := .wait type } else (s.thread i).acquire type)⟩
    else none
  | .tryLock i type =>
    if (s.thread i).pc = .run then
      let (l, status) := csTryRwlockInt s.lock type
      some ⟨l, if status = 0 then Function.update s.thread i ((s.thread i).acquire type)
        else s.thread⟩
    else none
  | .unlock i type woken =>
    if (s.thread i).pc = .run ∧ 0 < (s.thread i).held type then
      let (l, wakeup) := csRwunlockInt s.lock type
      (applyWakeup (Function.update s.thread i ((s.thread i).release type)) wakeup woken).map
        fun thread => ⟨l, thread⟩
    else none
  | .resume i =>
    match (s.thread i).pc with
    | .woken type =>
      some ⟨csRwlockResume s.lock type 0,
        Function.update s.thread i ((s.thread i).acquire type)⟩
    | _ => none

def system (ι : Type) [Fintype ι] [DecidableEq ι] : System (State ι) (Action ι) where
  init s := s.lock = csLockCreate ∧ ∀ i, s.thread i = ⟨0, 0, .run⟩
  next := next

/-- No thread holds the write lock while another thread holds the read or the write lock. -/
def Exclusive (s : State ι) : Prop :=
  ∀ i j, i ≠ j → 0 < (s.thread i).wr → (s.thread j).wr = 0 ∧ (s.thread j).rd = 0

/-- Locks of a type that are held, over all threads. -/
def holders (s : State ι) (type : LockType) : ℕ := ∑ i, (s.thread i).held type

/-- Threads that are blocked in a condition wait for a lock of a type, or on their way out of it. -/
def waiters (s : State ι) (type : LockType) : ℕ :=
  ∑ i, if (s.thread i).pc = .wait type ∨ (s.thread i).pc = .woken type then 1 else 0

end NCam.Lock
