import NCam.Lock.Model

/-! Mutual exclusion and the counters of the lock. A read unlock signals a waiting writer although
other read locks are still out; runs in which that does not happen keep readers and writers apart. -/
namespace NCam.Lock

open NCam.Lib

namespace CsMutexLock

/-- The counter of a lock type. -/
def count (l : CsMutexLock) : LockType → ℤ
  | .write => l.writelock
  | .read => l.readlock

end CsMutexLock

section Calls

variable {l : CsMutexLock} (type : LockType)

/-- What `cs_rwlock_int` does before its wait: the counter goes up, and a caller that does not wait
found no writer and, for the write lock, no reader. -/
theorem csRwlockInt_spec (hn : l.named = true) (hf : l.flag = false)
    (h₀ : ∀ ty, 0 ≤ l.count ty) (hlt : l.count type < 32767) :
    (csRwlockInt l type).1.named = true ∧ (csRwlockInt l type).1.flag = false ∧
      (∀ ty, (csRwlockInt l type).1.count ty = l.count ty + if type = ty then 1 else 0) ∧
      ((csRwlockInt l type).2 = false →
        l.count .write = 0 ∧ (type = .write → l.count .read = 0)) := by
  have hw : 0 ≤ l.writelock := h₀ .write
  have hr : 0 ≤ l.readlock := h₀ .read
  cases type with
  | write =>
    have h16 : int16 (l.writelock + 1) = l.writelock + 1 := int16_of_bounds (by omega) hlt
    simp only [csRwlockInt, hn, hf, h16, CsMutexLock.count]
    refine ⟨rfl, rfl, fun ty => by cases ty <;> simp, fun hwait => ?_⟩
    simp at hwait
    omega
  | read =>
    have h16 : int16 (l.readlock + 1) = l.readlock + 1 := int16_of_bounds (by omega) hlt
    simp only [csRwlockInt, hn, hf, h16, CsMutexLock.count]
    refine ⟨rfl, rfl, fun ty => by cases ty <;> simp, fun hwait => ?_⟩
    simp at hwait
    exact ⟨by omega, fun h => LockType.noConfusion h⟩

theorem csTryRwlockInt_spec (hn : l.named = true) (hf : l.flag = false)
    (h₀ : ∀ ty, 0 ≤ l.count ty) (hlt : l.count type < 32767) :
    ((csTryRwlockInt l type).2 ≠ 0 → (csTryRwlockInt l type).1 = l) ∧
      ((csTryRwlockInt l type).2 = 0 →
        (csTryRwlockInt l type).1.named = true ∧ (csTryRwlockInt l type).1.flag = false ∧
        (∀ ty, (csTryRwlockInt l type).1.count ty = l.count ty + if type = ty then 1 else 0) ∧
        l.count .write = 0 ∧ (type = .write → l.count .read = 0)) := by
  have hw : 0 ≤ l.writelock := h₀ .write
  have hr : 0 ≤ l.readlock := h₀ .read
  cases type with
  | write =>
    have h16 : int16 (l.writelock + 1) = l.writelock + 1 := int16_of_bounds (by omega) hlt
    by_cases hbusy : l.writelock ≠ 0 ∨ l.readlock ≠ 0
    · simp [csTryRwlockInt, hn, hf, hbusy]
    · have hfree : l.writelock = 0 ∧ l.readlock = 0 := by omega
      simp only [csTryRwlockInt, hn, hf, hbusy, h16, CsMutexLock.count]
      refine ⟨by simp, fun _ => ⟨by simp, by simp, fun ty => ?_, hfree.1, fun _ => hfree.2⟩⟩
      cases ty <;> simp
  | read =>
    have h16 : int16 (l.readlock + 1) = l.readlock + 1 := int16_of_bounds (by omega) hlt
    by_cases hbusy : l.writelock ≠ 0
    · simp [csTryRwlockInt, hn, hf, hbusy]
    · simp only [csTryRwlockInt, hn, hf, hbusy, h16, CsMutexLock.count]
      refine ⟨by simp, fun _ => ⟨by simp, by simp, fun ty => ?_, by omega, fun h => LockType.noConfusion h⟩⟩
      cases ty <;> simp

/-- What `cs_rwunlock_int` does for a caller that holds the lock: the counter goes down, and the
wakeup depends on the counters that are left. -/
theorem csRwunlockInt_spec (hf : l.flag = false) (h₀ : ∀ ty, 0 ≤ l.count ty)
    (hlt : ∀ ty, l.count ty ≤ 32767) (hpos : 0 < l.count type) :
    (csRwunlockInt l type).1.named = l.named ∧ (csRwunlockInt l type).1.flag = false ∧
      (∀ ty, (csRwunlockInt l type).1.count ty + (if type = ty then 1 else 0) = l.count ty) ∧
      ((csRwunlockInt l type).2 = .broadcastRead →
        type = .write ∧ (csRwunlockInt l type).1.count .write = 0) := by
  have hw : 0 ≤ l.writelock := h₀ .write
  have hr : 0 ≤ l.readlock := h₀ .read
  have hlw : l.writelock ≤ 32767 := hlt .write
  have hlr : l.readlock ≤ 32767 := hlt .read
  cases type with
  | write =>
    have hp : 0 < l.writelock := hpos
    have h16 : int16 (l.writelock - 1) = l.writelock - 1 := int16_of_bounds (by omega) (by omega)
    have hnn : ¬ l.writelock - 1 < 0 := by omega
    have hnr : ¬ l.readlock < 0 := by omega
    simp only [csRwunlockInt, hf, h16, hnn, hnr, if_false, CsMutexLock.count]
    refine ⟨by simp, by simp, fun ty => by cases ty <;> simp, ?_⟩
    simp only [Bool.false_eq_true, if_false]
    split_ifs <;> simp_all
  | read =>
    have hp : 0 < l.readlock := hpos
    have h16 : int16 (l.readlock - 1) = l.readlock - 1 := int16_of_bounds (by omega) (by omega)
    have hnn : ¬ l.readlock - 1 < 0 := by omega
    have hnw : ¬ l.writelock < 0 := by omega
    simp only [csRwunlockInt, hf, h16, hnn, hnw, if_false, CsMutexLock.count]
    refine ⟨by simp, by simp, fun ty => by cases ty <;> simp, ?_⟩
    simp only [Bool.false_eq_true, if_false]
    split_ifs <;> simp_all

end Calls

variable {ι : Type} [Fintype ι] [DecidableEq ι]

/-- Locks of a type that are some thread's: held, or handed over by a signal. -/
def out (s : State ι) (type : LockType) : ℕ := ∑ i, (s.thread i).owned type

/-- Locks of a type that are some thread's or that a thread waits for. -/
def asked (s : State ι) (type : LockType) : ℕ := ∑ i, (s.thread i).requested type

/-- The counter that a call increments stays below its limit, and a read unlock wakes a waiting
writer only when no other read lock is out. -/
def Orderly (s : State ι) : Action ι → Prop
  | .lock _ type | .tryLock _ type => s.lock.count type < 32767
  | .unlock _ .read (some _) => out s .read = 1
  | _ => True

instance : ∀ (s : State ι) (a : Action ι), Decidable (Orderly s a)
  | _, .lock _ _ | _, .tryLock _ _ => inferInstanceAs (Decidable (_ < _))
  | _, .unlock _ .read (some _) => inferInstanceAs (Decidable (_ = _))
  | _, .unlock _ .read none | _, .unlock _ .write _ | _, .resume _ => inferInstanceAs (Decidable True)

structure Inv (s : State ι) : Prop where
  named : s.lock.named = true
  flag : s.lock.flag = false
  count : ∀ type, s.lock.count type = asked s type
  bound : ∀ type, s.lock.count type ≤ 32767
  excl : out s .write = 0 ∨ out s .write = 1 ∧ out s .read = 0

section Sums

private theorem sum_update (f : ι → Thread) (i : ι) (t : Thread) (g : Thread → ℕ) :
    (∑ j, g (Function.update f i t j)) + g (f i) = (∑ j, g (f j)) + g t := by
  have hnew : (∑ j, g (Function.update f i t j)) = g t + ∑ j ∈ Finset.univ \ {i}, g (f j) := by
    have hcomp := Function.comp_update g f i t
    have hsum := Finset.sum_update_of_mem (Finset.mem_univ i) (g ∘ f) (g t)
    rw [← hcomp] at hsum
    exact hsum
  have hold := Finset.add_sum_erase Finset.univ (fun j => g (f j)) (Finset.mem_univ i)
  rw [Finset.sdiff_singleton_eq_erase] at hnew
  omega

omit [DecidableEq ι] in
private theorem le_sum (f : ι → Thread) (i : ι) (g : Thread → ℕ) : g (f i) ≤ ∑ j, g (f j) :=
  Finset.single_le_sum (f := fun j => g (f j)) (fun _ _ => Nat.zero_le _) (Finset.mem_univ i)

private theorem pair_le_sum (f : ι → Thread) {i j : ι} (hij : i ≠ j) (g : Thread → ℕ) :
    g (f i) + g (f j) ≤ ∑ k, g (f k) := by
  rw [← Finset.sum_pair (f := fun k => g (f k)) hij]
  exact Finset.sum_le_sum_of_subset (Finset.subset_univ _)

end Sums

section Threads

variable (t : Thread) (type type' : LockType)

private theorem owned_acquire (h : t.pc = .run) :
    (t.acquire type).owned type' = t.owned type' + if type = type' then 1 else 0 := by
  cases type <;> cases type' <;> simp [Thread.owned, Thread.held, Thread.acquire, h]

private theorem requested_acquire (h : t.pc = .run) :
    (t.acquire type).requested type' = t.requested type' + if type = type' then 1 else 0 := by
  cases type <;> cases type' <;>
    simp [Thread.requested, Thread.owned, Thread.held, Thread.acquire, h]

private theorem owned_resume (h : t.pc = .woken type) :
    (t.acquire type).owned type' = t.owned type' := by
  cases type <;> cases type' <;> simp [Thread.owned, Thread.held, Thread.acquire, h]

private theorem requested_resume (h : t.pc = .woken type) :
    (t.acquire type).requested type' = t.requested type' := by
  cases type <;> cases type' <;>
    simp [Thread.requested, Thread.owned, Thread.held, Thread.acquire, h]

private theorem owned_block (h : t.pc = .run) :
    ({ t with pc := .wait type } : Thread).owned type' = t.owned type' := by
  cases type <;> cases type' <;> simp [Thread.owned, Thread.held, h]

private theorem requested_block (h : t.pc = .run) :
    ({ t with pc := .wait type } : Thread).requested type' =
      t.requested type' + if type = type' then 1 else 0 := by
  cases type <;> cases type' <;> simp [Thread.requested, Thread.owned, Thread.held, h]

private theorem owned_release (h : t.pc = .run) (hp : 0 < t.held type) :
    (t.release type).owned type' + (if type = type' then 1 else 0) = t.owned type' := by
  cases type <;> cases type' <;> simp [Thread.owned, Thread.held, Thread.release, h] at hp ⊢ <;> omega

private theorem requested_release (h : t.pc = .run) (hp : 0 < t.held type) :
    (t.release type).requested type' + (if type = type' then 1 else 0) = t.requested type' := by
  cases type <;> cases type' <;>
    simp [Thread.requested, Thread.owned, Thread.held, Thread.release, h] at hp ⊢ <;> omega

private theorem owned_wake (h : t.pc = .wait type) :
    (t.wake type).owned type' = t.owned type' + if type = type' then 1 else 0 := by
  cases type <;> cases type' <;> simp [Thread.owned, Thread.held, Thread.wake, h]

@[simp] private theorem requested_wake : (t.wake type).requested type' = t.requested type' := by
  unfold Thread.wake
  split_ifs with h
  · cases type <;> cases type' <;> simp [Thread.requested, Thread.owned, Thread.held, h]
  · rfl

private theorem owned_broadcast_ne (hne : type ≠ type') :
    (t.wake type).owned type' = t.owned type' := by
  unfold Thread.wake
  split_ifs with h
  · cases type <;> cases type' <;> simp_all [Thread.owned, Thread.held]
  · rfl

theorem owned_le_requested : t.owned type ≤ t.requested type := Nat.le_add_right _ _

theorem requested_eq : t.requested type =
    t.held type + if t.pc = .wait type ∨ t.pc = .woken type then 1 else 0 := by
  unfold Thread.requested Thread.owned
  by_cases hw : t.pc = .wait type
  · simp [hw]
  · simp [hw]

end Threads

section Steps

variable {s t : State ι}

omit [DecidableEq ι] in
private theorem out_le (s : State ι) (type : LockType) : out s type ≤ asked s type :=
  Finset.sum_le_sum fun _ _ => owned_le_requested _ _

/-- One thread changed: what each sum gains and loses. -/
private theorem out_update (i : ι) (th : Thread) (ht : t.thread = Function.update s.thread i th)
    (ty : LockType) : out t ty + (s.thread i).owned ty = out s ty + th.owned ty := by
  unfold out
  rw [ht]
  exact sum_update s.thread i th (·.owned ty)

private theorem asked_update (i : ι) (th : Thread) (ht : t.thread = Function.update s.thread i th)
    (ty : LockType) : asked t ty + (s.thread i).requested ty = asked s ty + th.requested ty := by
  unfold asked
  rw [ht]
  exact sum_update s.thread i th (·.requested ty)

omit [DecidableEq ι] in
private theorem Inv.nonneg (h : Inv s) (type : LockType) : 0 ≤ s.lock.count type := by
  rw [h.count]
  exact Int.natCast_nonneg _

/-- A thread that gets a free lock. -/
private theorem inv_acquire (hinv : Inv s) {i : ι} {type : LockType} (hpc : (s.thread i).pc = .run)
    (hlt : s.lock.count type < 32767) (hn : t.lock.named = true) (hf : t.lock.flag = false)
    (hc : ∀ ty, t.lock.count ty = s.lock.count ty + if type = ty then 1 else 0)
    (hfree : s.lock.count .write = 0 ∧ (type = .write → s.lock.count .read = 0))
    (ht : t.thread = Function.update s.thread i ((s.thread i).acquire type)) : Inv t := by
  have ho := out_update i _ ht
  have hq := asked_update i _ ht
  simp only [owned_acquire _ _ _ hpc, requested_acquire _ _ _ hpc] at ho hq
  refine ⟨hn, hf, fun ty => ?_, fun ty => ?_, ?_⟩
  · have := hc ty; have := hinv.count ty; have := hq ty
    push_cast [hc ty]
    split_ifs at * <;> omega
  · have := hc ty; have := hinv.bound ty
    split_ifs at * with htype
    · subst htype; omega
    · omega
  · have hw := hinv.count .write; have hr := hinv.count .read
    have := out_le s .write; have := out_le s .read
    have := ho .write; have := ho .read
    cases type with
    | write =>
      have := hfree.2 rfl
      simp only [reduceCtorEq, if_true, if_false] at *
      omega
    | read =>
      simp only [reduceCtorEq, if_true, if_false] at *
      omega

private theorem inv_lock (hinv : Inv s) {i : ι} {type : LockType} (hg : Orderly s (.lock i type))
    (h : next s (.lock i type) = some t) : Inv t := by
  obtain ⟨hn, hf, hc, hfree⟩ := csRwlockInt_spec type hinv.named hinv.flag hinv.nonneg hg
  simp only [next] at h
  split_ifs at h with hpc hwait
  · have ht := Option.some.inj h
    have ho := out_update (t := t) i _ (by rw [← ht])
    have hq := asked_update (t := t) i _ (by rw [← ht])
    simp only [owned_block _ _ _ hpc, requested_block _ _ _ hpc] at ho hq
    have hlock : t.lock = (csRwlockInt s.lock type).1 := by rw [← ht]
    refine ⟨by rw [hlock]; exact hn, by rw [hlock]; exact hf, fun ty => ?_, fun ty => ?_, ?_⟩
    · have := hc ty; have := hinv.count ty; have := hq ty
      rw [hlock, hc ty]
      split_ifs at * <;> omega
    · have := hc ty; have := hinv.bound ty
      have hlt : s.lock.count type < 32767 := hg
      rw [hlock]
      split_ifs at * with htype
      · subst htype; omega
      · omega
    · have := ho .write; have := ho .read; have := hinv.excl
      omega
  · have ht := Option.some.inj h
    exact inv_acquire hinv hpc hg (by rw [← ht]; exact hn) (by rw [← ht]; exact hf)
      (by rw [← ht]; exact hc) (hfree (by simpa using hwait)) (by rw [← ht])

private theorem inv_tryLock (hinv : Inv s) {i : ι} {type : LockType}
    (hg : Orderly s (.tryLock i type)) (h : next s (.tryLock i type) = some t) : Inv t := by
  obtain ⟨hbusy, hok⟩ := csTryRwlockInt_spec type hinv.named hinv.flag hinv.nonneg hg
  simp only [next] at h
  split_ifs at h with hpc hstatus
  · have ht := Option.some.inj h
    obtain ⟨hn, hf, hc, hfree⟩ := hok hstatus
    exact inv_acquire hinv hpc hg (by rw [← ht]; exact hn) (by rw [← ht]; exact hf)
      (by rw [← ht]; exact hc) hfree (by rw [← ht])
  · have ht : s = t := by
      have := Option.some.inj h
      rw [hbusy hstatus] at this
      exact this
    exact ht ▸ hinv

private theorem inv_unlock (hinv : Inv s) {i : ι} {type : LockType} {woken : Option ι}
    (hg : Orderly s (.unlock i type woken)) (h : next s (.unlock i type woken) = some t) :
    Inv t := by
  simp only [next] at h
  split_ifs at h with hcall
  obtain ⟨hpc, hheld⟩ := hcall
  obtain ⟨thread, hwake, ht⟩ := Option.map_eq_some_iff.mp h
  have hown : 1 ≤ out s type :=
    le_trans (by unfold Thread.owned; omega) (le_sum s.thread i (·.owned type))
  have hpos : 0 < s.lock.count type := by
    have := out_le s type; have := hinv.count type
    omega
  obtain ⟨hn, hf, hc, hbroad⟩ :=
    csRwunlockInt_spec type hinv.flag hinv.nonneg hinv.bound hpos
  -- the threads between the release and the wakeup
  let u : State ι := ⟨t.lock, Function.update s.thread i ((s.thread i).release type)⟩
  have hou : ∀ ty, out u ty + (if type = ty then 1 else 0) = out s ty := fun ty => by
    have := out_update (s := s) (t := u) i _ rfl ty
    have := owned_release (s.thread i) type ty hpc hheld
    omega
  have hau : ∀ ty, asked u ty + (if type = ty then 1 else 0) = asked s ty := fun ty => by
    have := asked_update (s := s) (t := u) i _ rfl ty
    have := requested_release (s.thread i) type ty hpc hheld
    omega
  have hthread : t.thread = thread := by rw [← ht]
  have hlock : t.lock = (csRwunlockInt s.lock type).1 := by rw [← ht]
  have hcount : ∀ ty, t.lock.count ty = asked u ty := fun ty => by
    have := hc ty; have := hau ty; have := hinv.count ty
    rw [hlock]
    split_ifs at * <;> omega
  have hbound : ∀ ty, t.lock.count ty ≤ 32767 := fun ty => by
    have := hc ty; have := hinv.bound ty
    rw [hlock]
    split_ifs at * <;> omega
  have hexcl := hinv.excl
  have houw := hou .write
  have hour := hou .read
  suffices hw : (∀ ty, asked t ty = asked u ty) ∧
      (out t .write = 0 ∨ out t .write = 1 ∧ out t .read = 0) by
    exact ⟨by rw [hlock, hn]; exact hinv.named, by rw [hlock]; exact hf,
      fun ty => by rw [hw.1]; exact hcount ty, hbound, hw.2⟩
  cases hwk : (csRwunlockInt s.lock type).2 with
  | none =>
    cases woken with
    | some j => simp [hwk, applyWakeup] at hwake
    | none =>
      have hut : t.thread = u.thread := by
        rw [hwk] at hwake
        exact hthread.trans (Option.some.inj hwake).symm
      have hout : ∀ ty, out t ty = out u ty := fun ty => by unfold out; rw [hut]
      refine ⟨fun ty => by unfold asked; rw [hut], ?_⟩
      rw [hout, hout]
      split_ifs at houw hour <;> omega
  | signalWrite =>
    cases woken with
    | some j =>
      simp only [hwk, applyWakeup] at hwake
      split_ifs at hwake with hwait
      have hut : t.thread = Function.update u.thread j ((u.thread j).wake .write) :=
        hthread.trans (Option.some.inj hwake).symm
      have ho := out_update (s := u) j _ hut
      have hq := asked_update (s := u) j _ hut
      have howake := owned_wake (u.thread j) .write
      refine ⟨fun ty => ?_, Or.inr ?_⟩
      · have := hq ty
        rw [requested_wake] at this
        omega
      · have h1 := ho .write; have h2 := ho .read
        rw [howake _ hwait] at h1 h2
        cases type with
        | write =>
          simp only [reduceCtorEq, if_true, if_false] at *
          omega
        | read =>
          have hone : out s .read = 1 := hg
          simp only [reduceCtorEq, if_true, if_false] at *
          omega
    | none =>
      simp only [hwk, applyWakeup] at hwake
      split_ifs at hwake with hidle
      have hut : t.thread = u.thread := hthread.trans (Option.some.inj hwake).symm
      have hout : ∀ ty, out t ty = out u ty := fun ty => by unfold out; rw [hut]
      refine ⟨fun ty => by unfold asked; rw [hut], ?_⟩
      rw [hout, hout]
      split_ifs at houw hour <;> omega
  | broadcastRead =>
    cases woken with
    | some j => simp [hwk, applyWakeup] at hwake
    | none =>
      obtain ⟨htype, hzero⟩ := hbroad hwk
      have hut : t.thread = fun j => (u.thread j).wake .read := by
        rw [hwk] at hwake
        exact hthread.trans (Option.some.inj hwake).symm
      refine ⟨fun ty => by simp only [asked, hut, requested_wake], Or.inl ?_⟩
      have hw : out t .write = out u .write := by
        simp only [out, hut, owned_broadcast_ne _ _ _ (show LockType.read ≠ .write from LockType.noConfusion)]
      have := hcount .write; have := out_le u .write
      rw [← hlock] at hzero
      omega

private theorem inv_resume (hinv : Inv s) {i : ι} (h : next s (.resume i) = some t) : Inv t := by
  simp only [next] at h
  cases hpc : (s.thread i).pc with
  | run => simp [hpc] at h
  | wait type => simp [hpc] at h
  | woken type =>
    simp only [hpc, csRwlockResume, gt_iff_lt, lt_self_iff_false, if_false] at h
    have ht := Option.some.inj h
    have ho := out_update (t := t) i _ (by rw [← ht])
    have hq := asked_update (t := t) i _ (by rw [← ht])
    simp only [owned_resume _ _ _ hpc, requested_resume _ _ _ hpc] at ho hq
    have hout : ∀ ty, out t ty = out s ty := fun ty => by have := ho ty; omega
    have hlock : t.lock = s.lock := by rw [← ht]
    refine ⟨by rw [hlock]; exact hinv.named, by rw [hlock]; exact hinv.flag, fun ty => ?_,
      by rw [hlock]; exact hinv.bound, by rw [hout, hout]; exact hinv.excl⟩
    have := hq ty; have := hinv.count ty
    rw [hlock]
    omega

theorem inv_init {s : State ι} (h : (system ι).init s) : Inv s := by
  obtain ⟨hl, ht⟩ := h
  have hzero : ∀ ty, asked s ty = 0 := fun ty =>
    Finset.sum_eq_zero fun i _ => by
      rw [ht i]
      cases ty <;> simp [Thread.requested, Thread.owned, Thread.held]
  have hout : ∀ ty, out s ty = 0 := fun ty => by
    have := out_le s ty; have := hzero ty
    omega
  refine ⟨by rw [hl]; rfl, by rw [hl]; rfl, fun ty => ?_, fun ty => ?_, Or.inl (hout _)⟩
  · rw [hzero, hl]
    cases ty <;> rfl
  · rw [hl]
    cases ty <;> simp [csLockCreate, CsMutexLock.count]

theorem inv_step {a : Action ι} (hinv : Inv s) (hg : Orderly s a)
    (h : (system ι).next s a = some t) : Inv t := by
  cases a with
  | lock i type => exact inv_lock hinv hg h
  | tryLock i type => exact inv_tryLock hinv hg h
  | unlock i type woken => exact inv_unlock hinv hg h
  | resume i => exact inv_resume hinv h

theorem inv_of_reachable (h : (system ι).Reachable Orderly s) : Inv s :=
  h.invariant (fun _ => inv_init) fun _ _ _ => inv_step

end Steps

variable {s : State ι}

private theorem Inv.exclusive (h : Inv s) : Exclusive s := by
  intro i j hij hwr
  have hw := pair_le_sum s.thread hij (·.owned .write)
  have hr := le_sum s.thread j (·.owned .read)
  have hexcl := h.excl
  unfold out at hexcl
  simp only [Thread.owned, Thread.held] at hw hr hexcl
  omega

omit [DecidableEq ι] in
private theorem asked_eq (s : State ι) (type : LockType) :
    asked s type = holders s type + waiters s type := by
  unfold asked holders waiters
  rw [← Finset.sum_add_distrib]
  exact Finset.sum_congr rfl fun i _ => requested_eq _ _

/-- In runs whose read unlocks wake a writer only when no read lock is left, writers are alone, and
each counter is the number of holders and waiters of its type. -/
theorem orderly_exclusive_and_counts (h : (system ι).Reachable Orderly s) :
    Exclusive s ∧ ∀ type, s.lock.count type = (holders s type + waiters s type : ℕ) := by
  have hinv := inv_of_reachable h
  exact ⟨hinv.exclusive, fun type => by rw [hinv.count, asked_eq]⟩

private def start : State (Fin 3) := ⟨csLockCreate, fun _ => ⟨0, 0, .run⟩⟩

/-- Two readers, a writer that waits for them, and the first reader's unlock. -/
private def twoReaders : List (Action (Fin 3)) :=
  [.lock 0 .read, .lock 1 .read, .lock 2 .write, .unlock 0 .read (some 2), .resume 2]

theorem orderly_exclusive_and_counts_nonvacuous :
    ∃ s : State (Fin 3), (system (Fin 3)).Reachable Orderly s ∧ 0 < (s.thread 2).wr ∧
      Exclusive s ∧ ∀ type, s.lock.count type = (holders s type + waiters s type : ℕ) := by
  obtain ⟨s, hs, hp⟩ := System.exists_reachable_of_exec (S := system (Fin 3)) (G := Orderly)
    (s := start) ⟨rfl, fun _ => rfl⟩
    [.lock 0 .read, .lock 2 .write, .lock 1 .read, .unlock 0 .read (some 2), .resume 2]
    (fun s => decide (0 < (s.thread 2).wr)) (by decide)
  exact ⟨s, hs, of_decide_eq_true hp, orderly_exclusive_and_counts hs⟩

/-- A writer joins a reader that never left, and a waiting writer is counted as if it held the
lock. -/
theorem rwlock_not_exclusive_not_holders :
    (∃ s : State (Fin 3), (system (Fin 3)).Reachable System.free s ∧ ¬ Exclusive s) ∧
      ∃ s : State (Fin 3), (system (Fin 3)).Reachable System.free s ∧
        s.lock.count .write ≠ holders s .write := by
  constructor
  · obtain ⟨s, hs, hp⟩ := System.exists_reachable_of_exec (S := system (Fin 3))
      (G := System.free) (s := start) ⟨rfl, fun _ => rfl⟩ twoReaders
      (fun s => decide (0 < (s.thread 2).wr ∧ 0 < (s.thread 1).rd)) (by decide)
    have hboth := of_decide_eq_true hp
    exact ⟨s, hs, fun hx => by have := (hx 2 1 (by decide) hboth.1).2; omega⟩
  · obtain ⟨s, hs, hp⟩ := System.exists_reachable_of_exec (S := system (Fin 3))
      (G := System.free) (s := start) ⟨rfl, fun _ => rfl⟩ (twoReaders.take 3)
      (fun s => decide (s.lock.count .write = 1 ∧ holders s .write = 0)) (by decide)
    have hboth := of_decide_eq_true hp
    exact ⟨s, hs, by rw [hboth.1, hboth.2]; decide⟩

end NCam.Lock
