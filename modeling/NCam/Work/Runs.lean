import NCam.Work.Invariant

/-! The client over whole runs: one worker at a time, and every accepted job in its turn. From every state the
workers can finish by themselves, so every accepted job comes to its end. -/
namespace NCam.Work

open NCam.Lib

/-- The flags agree with the workers, the jobs are accounted for, and no two calls share an `id`. -/
structure Inv (s : State) : Prop where
  flags : Flags s.client s.workers
  jobs : Jobs s.client s.workers s.accepted
  ids : ((s.accepted ++ s.adding).map Job.id).Nodup
  below : ∀ j ∈ s.accepted ++ s.adding, j.id < s.calls

variable {s t : State}

private theorem inv_fresh (reader : Bool) : Inv (fresh reader) := by
  constructor
  · constructor <;> simp [fresh, Ending]
  · constructor <;> simp [fresh, Ending]
  · exact List.nodup_nil
  · exact fun j hj => absurd hj List.not_mem_nil

private theorem inv_call {action : Actions} (h : Inv s) : Inv (addJobCall s action) := by
  unfold addJobCall
  split_ifs
  · exact h
  · exact ⟨h.flags, h.jobs, h.ids, h.below⟩
  · refine ⟨h.flags, h.jobs, ?_, ?_⟩
    · change ((s.accepted ++ (s.adding ++ [_])).map Job.id).Nodup
      rw [← List.append_assoc, List.map_append, List.nodup_append]
      refine ⟨h.ids, List.nodup_cons.mpr ⟨List.not_mem_nil, List.nodup_nil⟩, ?_⟩
      intro a ha b hb hab
      obtain ⟨j, hj, rfl⟩ := List.mem_map.mp ha
      rw [List.map_singleton, List.mem_singleton] at hb
      have hlt := h.below j hj
      change b = s.calls at hb
      omega
    · intro j hj
      change j ∈ s.accepted ++ (s.adding ++ [_]) at hj
      rw [← List.append_assoc, List.mem_append, List.mem_singleton] at hj
      rcases hj with hj | rfl
      · exact Nat.lt_succ_of_lt (h.below j hj)
      · exact Nat.lt_succ_self _

/-- A job is put at the end of the queue. -/
private theorem inv_queue (j : Job) (h : Inv s) (hkill : s.client.kill = false)
    (hactive : s.client.threadActive ≠ 0) :
    Flags { s.client with joblist := s.client.joblist ++ [j] } s.workers ∧
      Jobs { s.client with joblist := s.client.joblist ++ [j] } s.workers (s.accepted ++ [j]) := by
  obtain ⟨hf, hj, _, _⟩ := h
  constructor
  · refine ⟨hf.one, hf.active, hf.fits, hf.kills, hf.started, hf.claimed, hf.early, hf.untracked,
      fun _ => Or.inl (hf.active.mp hactive), ?_⟩
    intro hs _
    have hkilled := hf.started hs
    rw [hkill] at hkilled
    cases hkilled
  · constructor
    · change (s.client.freed ++ s.workers.filterMap Worker.job ++ (s.client.joblist ++ [j])).Perm _
      rw [← List.append_assoc]
      exact hj.accounted.append_right [j]
    · exact hj.inOrder.trans (List.sublist_append_left _ _)
    · intro hnot
      obtain ⟨hand, hperm, heq, hran⟩ := hj.queue hnot
      refine ⟨hand, hperm, ?_, hran⟩
      change s.client.freed ++ hand ++ (s.client.joblist ++ [j]) = _
      rw [← List.append_assoc, heq]
    · exact hj.unrun

/-- A job goes to a new worker. -/
private theorem inv_start (j : Job) (h : Inv s) (hcount : s.workers.countP Worker.runs = 0) :
    Flags { s.client with threadActive := 1 } (⟨.start, some (.job j)⟩ :: s.workers) ∧
      Jobs { s.client with threadActive := 1 } (⟨.start, some (.job j)⟩ :: s.workers)
        (s.accepted ++ [j]) := by
  obtain ⟨hf, hj, _, _⟩ := h
  have hone : (⟨.start, some (.job j)⟩ :: s.workers).countP Worker.runs = 1 := by
    rw [List.countP_cons_of_pos rfl, hcount]
  have hending : Ending s.client s.workers →
      Ending { s.client with threadActive := 1 } (⟨.start, some (.job j)⟩ :: s.workers) := by
    rintro (hs | ⟨v, hv, hends⟩)
    · exact Or.inl hs
    · exact Or.inr ⟨v, List.mem_cons_of_mem _ hv, hends⟩
  constructor
  · constructor
    · exact Nat.le_of_eq hone
    · rw [hone]
      exact ⟨fun _ => Nat.one_pos, fun _ => Nat.one_ne_zero⟩
    · intro v hv
      rcases List.mem_cons.mp hv with rfl | hv
      · simp [Worker.Fits]
      · exact hf.fits v hv
    · intro v hv hkills
      rcases List.mem_cons.mp hv with rfl | hv
      · cases hkills
      · exact hf.kills v hv hkills
    · exact hf.started
    · intro v hv hpc
      rcases List.mem_cons.mp hv with rfl | hv
      · cases hpc
      · exact hf.claimed v hv hpc
    · intro _ v hv hruns
      rcases List.mem_cons.mp hv with rfl | hv
      · rfl
      · exact absurd hruns (List.countP_eq_zero.mp hcount v hv)
    · intro v hv hpc
      rcases List.mem_cons.mp hv with rfl | hv
      · rcases hpc with hpc | hpc <;> cases hpc
      · exact hf.untracked v hv hpc
    · intro _
      rw [hone]
      exact Or.inl Nat.one_pos
    · intro hs hlist
      obtain ⟨v, hv, hpc⟩ := hf.servedLast hs hlist
      exact ⟨v, List.mem_cons_of_mem _ hv, hpc⟩
  · have hcase : ¬ Ending s.client s.workers →
        s.workers.filterMap Worker.job = [] ∧ s.client.joblist = [] ∧
          s.client.freed = s.accepted ∧ s.client.ran.Sublist s.client.freed := by
      intro hnot
      have hjobs : s.workers.filterMap Worker.job = [] := by
        rw [List.filterMap_eq_nil_iff]
        intro v hv
        refine job_of_gone (hf.fits v hv) (by simpa using List.countP_eq_zero.mp hcount v hv) ?_
        rw [← Bool.not_eq_true]
        exact fun hends => hnot (Or.inr ⟨v, hv, hends⟩)
      have hlist : s.client.joblist = [] := by
        by_contra hlist
        rcases hf.served hlist with hpos | hends
        · omega
        · exact hnot (Or.inr hends)
      obtain ⟨hand, hperm, heq, hran⟩ := hj.queue hnot
      rw [hjobs] at hperm
      rw [List.nil_perm.mp hperm, hlist, List.append_nil, List.append_nil] at heq
      rw [List.nil_perm.mp hperm, List.append_nil] at hran
      exact ⟨hjobs, hlist, heq, hran⟩
    constructor
    · change (s.client.freed ++ (j :: s.workers.filterMap Worker.job) ++ s.client.joblist).Perm _
      rw [List.append_assoc, List.cons_append]
      refine List.perm_middle.trans ?_
      rw [← List.append_assoc]
      refine List.Perm.trans ?_ (@List.perm_append_comm _ [j] _)
      exact hj.accounted.cons j
    · exact hj.inOrder.trans (List.sublist_append_left _ _)
    · intro hnot
      obtain ⟨hjobs, hlist, hfreed, hran⟩ := hcase (mt hending hnot)
      refine ⟨[j], ?_, ?_, hran.trans (List.sublist_append_left _ _)⟩
      · change (j :: s.workers.filterMap Worker.job).Perm [j]
        rw [hjobs]
      · change s.client.freed ++ [j] ++ s.client.joblist = s.accepted ++ [j]
        rw [hlist, hfreed, List.append_nil]
    · intro hnot _ _
      exact (hcase (mt hending hnot)).2.2.2

private theorem inv_enqueue {k : ℕ} {created : Bool} (h : Inv s) (hsound : Sound s (.enqueue k created))
    (ht : next s (.enqueue k created) = some t) : Inv t := by
  obtain ⟨rfl, hkilled⟩ := hsound
  obtain ⟨j, hj, rfl⟩ := Option.map_eq_some_iff.mp ht
  obtain ⟨hk, hget⟩ := List.getElem?_eq_some_iff.mp hj
  have hperm : (j :: s.adding.eraseIdx k).Perm s.adding := by
    rw [← hget]
    exact List.getElem_cons_eraseIdx_perm hk
  have hall : (s.accepted ++ [j] ++ s.adding.eraseIdx k).Perm (s.accepted ++ s.adding) := by
    rw [List.append_assoc]
    exact hperm.append_left s.accepted
  have hids : ((s.accepted ++ [j] ++ s.adding.eraseIdx k).map Job.id).Nodup :=
    (hall.map Job.id).nodup_iff.mpr h.ids
  have hbelow : ∀ i ∈ s.accepted ++ [j] ++ s.adding.eraseIdx k, i.id < s.calls :=
    fun i hi => h.below i (hall.mem_iff.mp hi)
  unfold addJobLocked
  by_cases hqueue : s.client.kill = false ∧ s.client.threadActive ≠ 0
  · simp only [if_pos hqueue]
    obtain ⟨hf, hjobs⟩ := inv_queue j h hqueue.1 hqueue.2
    exact ⟨hf, hjobs, hids, hbelow⟩
  · simp only [if_neg hqueue, if_true]
    have hcount : s.workers.countP Worker.runs = 0 := by
      by_contra hpos
      have hactive : s.client.threadActive ≠ 0 := h.flags.active.mpr (Nat.pos_of_ne_zero hpos)
      have hkill : s.client.kill = true := by
        rw [← Bool.not_eq_false]
        exact fun hk => hqueue ⟨hk, hactive⟩
      obtain ⟨w, hw, hruns⟩ := List.countP_pos_iff.mp (Nat.pos_of_ne_zero hpos)
      exact hkilled ⟨hkill, w, hw, hruns⟩
    obtain ⟨hf, hjobs⟩ := inv_start j h hcount
    have hswap : (⟨.start, some (.job j)⟩ :: s.workers).Perm (s.workers ++ [⟨.start, some (.job j)⟩]) :=
      (List.perm_append_singleton _ _).symm
    exact ⟨hf.perm hswap, hjobs.perm hswap, hids, hbelow⟩

private theorem inv_checkThread (h : Inv s) : Inv (checkThread s) := by
  have hnever : ¬ (s.client.kill = false ∧ s.client.threadActive ≠ 0 ∧
      s.workers.all (·.pc = .done) = true) := by
    rintro ⟨_, hactive, hall⟩
    obtain ⟨w, hw, hruns⟩ := List.countP_pos_iff.mp (h.flags.active.mp hactive)
    have hpc : w.pc = .done := by simpa using List.all_eq_true.mp hall w hw
    simp [Worker.runs, hpc, Pc.runs] at hruns
  simp only [checkThread, if_neg hnever]
  exact ⟨h.flags, h.jobs, h.ids, h.below⟩

private theorem inv_kill (h : Inv s) : Inv { s with client.kill := true } := by
  obtain ⟨hf, hj, hids, hbelow⟩ := h
  refine ⟨⟨hf.one, hf.active, hf.fits, fun _ _ _ => rfl, fun _ => rfl, hf.claimed, hf.early,
    hf.untracked, hf.served, hf.servedLast⟩, ⟨hj.accounted, hj.inOrder, hj.queue, ?_⟩, hids, hbelow⟩
  intro hnot hidle hcond
  rcases hcond with hkill | hready
  · cases hkill
  · exact hj.unrun hnot hidle (Or.inr hready)

private theorem inv_worker {i : ℕ} {o : Outcome} (h : Inv s) (hsound : Sound s (.worker i o))
    (ht : next s (.worker i o) = some t) : Inv t := by
  obtain ⟨w, hw, ht⟩ := Option.bind_eq_some_iff.mp ht
  obtain ⟨⟨c', w'⟩, hstep, rfl⟩ := Option.map_eq_some_iff.mp ht
  obtain ⟨hi, hget⟩ := List.getElem?_eq_some_iff.mp hw
  obtain ⟨l₁, l₂, hsplit, _, hset⟩ := @List.exists_of_set _ _ w' _ hi
  rw [hget] at hsplit
  have hperm : s.workers.Perm (w :: (l₁ ++ l₂)) := by
    rw [hsplit]
    exact List.perm_middle
  have hperm' : (w' :: (l₁ ++ l₂)).Perm (s.workers.set i w') := by
    rw [hset]
    exact List.perm_middle.symm
  have hf := h.flags.perm hperm
  have hj := h.jobs.perm hperm
  have hactive : w.runs = true → s.client.threadActive ≠ 0 := by
    intro hruns
    apply hf.active.mpr
    rw [List.countP_cons_of_pos hruns]
    exact Nat.succ_pos _
  have he := workerStep_effect (hf.fits w List.mem_cons_self) hactive hstep
  have hclose : w.pc = .closing → (l₁ ++ l₂).countP Worker.runs = 0 := by
    intro hpc
    rw [List.countP_eq_zero]
    intro v hv
    rw [hsound w hw hpc v (hperm.mem_iff.mpr (List.mem_cons_of_mem w hv))]
    exact Bool.false_ne_true
  exact ⟨(hf.worker he hclose).perm hperm', (hj.worker hf he hclose).perm hperm', h.ids, h.below⟩

/-- Every step that takes no wrong branch keeps the invariant. -/
theorem inv_step {a : Step} (h : Inv s) (hsound : Sound s a) (ht : next s a = some t) : Inv t := by
  cases a with
  | call action =>
    cases ht
    exact inv_call h
  | enqueue k created => exact inv_enqueue h hsound ht
  | checkThread =>
    unfold next at ht
    split_ifs at ht
    cases ht
    exact inv_checkThread h
  | kill =>
    cases ht
    exact inv_kill h
  | worker i o => exact inv_worker h hsound ht

theorem inv_of_reachable (h : system.Reachable Sound s) : Inv s := by
  refine h.invariant ?_ fun _ _ _ hs hsound ht => inv_step hs hsound ht
  rintro _ ⟨reader, rfl⟩
  exact inv_fresh reader

theorem Inv.good (h : Inv s) : Good s := by
  refine ⟨h.flags.one, ?_, h.jobs.accounted, ?_, ?_, h.jobs.inOrder⟩
  · have hids := h.ids
    rw [List.map_append, List.nodup_append] at hids
    exact List.Nodup.of_map Job.id hids.1
  · intro w hw hpc
    have hdata : w.data = none := by simpa [Worker.Fits, hpc] using h.flags.fits w hw
    exact job_none hdata
  · intro hlist
    rcases h.flags.served hlist with hpos | ⟨w, hw, hends⟩
    · obtain ⟨w, hw, hruns⟩ := List.countP_pos_iff.mp hpos
      refine ⟨w, hw, fun hpc => ?_⟩
      simp [Worker.runs, hpc, Pc.runs] at hruns
    · refine ⟨w, hw, fun hpc => ?_⟩
      rw [hpc] at hends
      cases hends

/-- No socket, no event, and a job that is not too old and does not kill the client. -/
def quiet : Outcome := ⟨false, false, false, false, false, false⟩

/-- How far a worker is from its end; `more` tells whether jobs are queued, `busy` whether it has a job or
an event. -/
private def rank (more busy : Bool) : Pc → ℕ
  | .start => 16
  | .outer => if busy then 15 else 7
  | .inner => if busy then 14 else 6
  | .check => if busy then 13 else 5
  | .killing => 4
  | .fetch => 4
  | .idle => if more then 9 else 3
  | .poll => 12
  | .polled => 11
  | .ready => 12
  | .running => 11
  | .finished => 10
  | .leaving => if more then 8 else 2
  | .closing => 1
  | .killed => 3
  | .freeing => 2
  | .freeJobs => 1
  | .done => 0

private theorem rank_mono (busy : Bool) (pc : Pc) {more more' : Bool}
    (h : more' = true → more = true) : rank more' busy pc ≤ rank more busy pc := by
  cases more with
  | true => cases more' <;> cases busy <;> cases pc <;> decide
  | false =>
    cases more' with
    | true => cases h rfl
    | false => exact Nat.le_refl _

private def load (c : Client) (w : Worker) : ℕ :=
  20 * c.joblist.length + rank (c.joblist ≠ []) w.data.isSome w.pc

/-- A worker that has not ended can make a step, and comes closer to its end. -/
private theorem workerStep_quiet {c : Client} {w : Worker} (hfits : w.Fits)
    (hactive : w.runs = true → c.threadActive ≠ 0) (hpc : w.pc ≠ .done) :
    ∃ c' w', workerStep c w quiet = some (c', w') ∧ load c' w' < load c w ∧
      (c'.joblist ≠ [] → c.joblist ≠ []) := by
  obtain ⟨pc, data⟩ := w
  cases pc with
  | start =>
    refine ⟨_, _, rfl, ?_, id⟩
    simp only [load, rank]
    split_ifs <;> omega
  | outer =>
    refine ⟨_, _, rfl, ?_, id⟩
    simp only [load, if_pos (hactive rfl), rank]
    split_ifs <;> omega
  | inner =>
    refine ⟨_, _, rfl, ?_, id⟩
    simp only [load, if_pos (hactive rfl), rank]
    split_ifs <;> omega
  | check =>
    refine ⟨_, _, rfl, ?_, id⟩
    cases data with
    | none => by_cases hkill : c.kill = true <;> simp [load, rank, hkill]
    | some d => by_cases hkill : c.kill = true <;> simp [load, rank, hkill]
  | killing => exact ⟨_, _, rfl, by simp [load, rank], id⟩
  | fetch =>
    cases hlist : c.joblist with
    | nil =>
      exact ⟨c, ⟨.idle, data⟩, by simp [workerStep, hlist], by simp [load, rank, hlist], by simp [hlist]⟩
    | cons j rest =>
      refine ⟨{ c with joblist := rest }, ⟨.ready, some (.job j)⟩, by simp [workerStep, hlist], ?_, by simp⟩
      simp only [load, rank, hlist, List.length_cons]
      omega
  | idle =>
    refine ⟨_, _, rfl, ?_, id⟩
    simp only [load, rank]
    split <;> omega
  | poll => exact ⟨_, _, rfl, by simp [load, rank], id⟩
  | polled =>
    have hdata : data = none := hfits
    subst hdata
    exact ⟨_, _, rfl, by simp [load, rank], id⟩
  | ready =>
    rcases data with - | (j | -)
    · exact absurd rfl hfits
    · simp only [workerStep]
      split_ifs
      · refine ⟨_, _, rfl, ?_, by simp⟩
        simp only [load, rank, freeJobData_joblist]
        split <;> omega
      · rename_i hold
        cases hold
      · exact ⟨_, _, rfl, by simp [load, rank], id⟩
    · exact ⟨_, _, rfl, by simp [load, rank], id⟩
  | running => exact ⟨_, _, rfl, by simp [load, rank, quiet], id⟩
  | finished => exact ⟨_, _, rfl, by simp [load, rank], by simp⟩
  | leaving =>
    have hdata : data = none := hfits
    subst hdata
    simp only [workerStep]
    split_ifs with hlist
    · exact ⟨_, _, rfl, by simp [load, rank, hlist], id⟩
    · exact ⟨_, _, rfl, by simp [load, rank, hlist], id⟩
  | closing => exact ⟨_, _, rfl, by simp [load, rank], id⟩
  | killed => exact ⟨_, _, rfl, by simp [load, rank], by simp⟩
  | freeing =>
    simp only [workerStep]
    split_ifs
    · exact ⟨_, _, rfl, by simp [load, rank], id⟩
    · exact ⟨_, _, rfl, by simp [load, rank], id⟩
  | freeJobs => exact ⟨_, _, rfl, by simp [load, rank], by simp⟩
  | done => exact absurd rfl hpc

/-- How far all workers together are from their ends. -/
private def total (c : Client) (ws : List Worker) : ℕ :=
  20 * c.joblist.length + (ws.map fun w => rank (c.joblist ≠ []) w.data.isSome w.pc).sum

/-- All workers have ended, and every accepted job was freed once. -/
def Drained (s : State) : Prop :=
  (∀ w ∈ s.workers, w.pc = .done) ∧ s.client.freed.Perm s.accepted

variable {s : State}

theorem Good.drained (h : Good s) (hdone : ∀ w ∈ s.workers, w.pc = .done) : Drained s := by
  refine ⟨hdone, ?_⟩
  have hheld : s.held = [] := by
    unfold State.held
    rw [List.filterMap_eq_nil_iff]
    exact fun w hw => h.heldAlive w hw (hdone w hw)
  have hlist : s.client.joblist = [] := by
    by_contra hlist
    obtain ⟨w, hw, hpc⟩ := h.queuedAlive hlist
    exact hpc (hdone w hw)
  have haccounted := h.accounted
  rw [hheld, hlist, List.append_nil, List.append_nil] at haccounted
  exact haccounted

/-- The worker that runs, or any other one if none does. -/
private theorem exists_worker (hdone : ¬ ∀ w ∈ s.workers, w.pc = .done) :
    ∃ (i : ℕ) (w : Worker), s.workers[i]? = some w ∧ w.pc ≠ .done ∧
      (w.pc = .closing → ∀ v ∈ s.workers, v.runs = false) := by
  by_cases hruns : ∃ w ∈ s.workers, w.runs = true
  · obtain ⟨w, hw, hruns⟩ := hruns
    obtain ⟨i, hi⟩ := List.mem_iff_getElem?.mp hw
    refine ⟨i, w, hi, fun hpc => ?_, fun hpc => ?_⟩ <;> simp [Worker.runs, hpc, Pc.runs] at hruns
  · rw [not_forall] at hdone
    obtain ⟨w, hdone⟩ := hdone
    rw [Classical.not_imp] at hdone
    obtain ⟨i, hi⟩ := List.mem_iff_getElem?.mp hdone.1
    refine ⟨i, w, hi, hdone.2, fun _ v hv => ?_⟩
    rw [← Bool.not_eq_true]
    exact fun hv' => hruns ⟨v, hv, hv'⟩

private theorem exists_step (h : Inv s) (hdone : ¬ Drained s) :
    ∃ a t, Sound s a ∧ next s a = some t ∧ (Inv t ∧ t.accepted = s.accepted) ∧
      total t.client t.workers < total s.client s.workers := by
  obtain ⟨i, w, hw, hpc, hclosing⟩ := exists_worker fun hall => hdone (h.good.drained hall)
  obtain ⟨hi, hget⟩ := List.getElem?_eq_some_iff.mp hw
  have hmem : w ∈ s.workers := hget ▸ List.getElem_mem hi
  have hactive : w.runs = true → s.client.threadActive ≠ 0 :=
    fun hruns => h.flags.active.mpr (List.countP_pos_iff.mpr ⟨w, hmem, hruns⟩)
  obtain ⟨c', w', hstep, hload, hlist⟩ := workerStep_quiet (h.flags.fits w hmem) hactive hpc
  have hsound : Sound s (.worker i quiet) := by
    intro v hv hpcv
    rw [hw] at hv
    cases hv
    exact hclosing hpcv
  have ht : next s (.worker i quiet) = some { s with client := c', workers := s.workers.set i w' } := by
    simp only [next, hw, Option.bind_some, hstep, Option.map_some]
  refine ⟨_, _, hsound, ht, ⟨inv_step h hsound ht, rfl⟩, ?_⟩
  obtain ⟨l₁, l₂, hsplit, _, hset⟩ := @List.exists_of_set _ _ w' _ hi
  rw [hget] at hsplit
  have hmono : ∀ l : List Worker,
      (l.map fun v => rank (c'.joblist ≠ []) v.data.isSome v.pc).sum ≤
        (l.map fun v => rank (s.client.joblist ≠ []) v.data.isSome v.pc).sum := by
    intro l
    apply List.sum_le_sum
    intro v _
    apply rank_mono
    simpa using hlist
  change total c' (s.workers.set i w') < total s.client s.workers
  rw [hset, hsplit]
  have h₁ := hmono l₁
  have h₂ := hmono l₂
  simp only [total, load, List.map_append, List.map_cons, List.sum_append, List.sum_cons] at hload ⊢
  omega

/-- In every run that takes no wrong branch the client is good, and from there its workers can end with every
accepted job freed. -/
theorem queue_good (h : system.Reachable Sound s) :
    Good s ∧ ∃ as t, system.exec Sound s as = some t ∧ Drained t ∧ t.accepted = s.accepted := by
  have hinv := inv_of_reachable h
  refine ⟨hinv.good, ?_⟩
  have hprogress : ∀ u, Inv u ∧ u.accepted = s.accepted → ¬ Drained u →
      ∃ a t, Sound u a ∧ system.next u a = some t ∧ (Inv t ∧ t.accepted = s.accepted) ∧
        total t.client t.workers < total u.client u.workers := by
    rintro u ⟨hu, haccepted⟩ hnot
    obtain ⟨a, t, hsound, ht, ⟨ht', hsame⟩, hlt⟩ := exists_step hu hnot
    exact ⟨a, t, hsound, ht, ⟨ht', hsame.trans haccepted⟩, hlt⟩
  obtain ⟨as, t, ht, ⟨_, haccepted⟩, hdrained⟩ := System.exists_exec_of_measure _ Drained
    (fun t => total t.client t.workers) hprogress ⟨hinv, rfl⟩
  exact ⟨as, t, ht, hdrained, haccepted⟩

/-- Two jobs for the first worker, which then ends. -/
private def twoJobs : List Step :=
  [.call .clientInit, .call .clientUdp, .enqueue 0 true, .worker 0 quiet, .enqueue 0 true] ++
    List.replicate 17 (.worker 0 quiet)

theorem queue_good_twoJobs :
    ∃ s, (s.client.ran.map Job.action = [.clientInit, .clientUdp] ∧ s.client.joblist = []) ∧ Good s ∧
      ∃ as t, system.exec Sound s as = some t ∧ Drained t ∧ t.accepted = s.accepted := by
  obtain ⟨s, hs, hp⟩ := System.exists_reachable_of_exec (S := system) (G := Sound) ⟨false, rfl⟩ twoJobs
    (fun s => s.client.ran.map Job.action = [.clientInit, .clientUdp] ∧ s.client.joblist = []) (by decide)
  exact ⟨s, of_decide_eq_true hp, queue_good hs⟩

/-- While the first worker is before its last assignment, a job starts a second worker; the assignment then
makes the next job start a third. -/
private def lateClose : List Step :=
  [.call .clientInit, .call .clientUdp, .call .clientIdle, .enqueue 0 true] ++
    List.replicate 12 (.worker 0 quiet) ++
    [.enqueue 0 true, .worker 1 quiet, .worker 0 quiet, .enqueue 0 true]

theorem two_workers_lateClose :
    ¬ ∀ s, system.Reachable System.free s → Good s := by
  intro h
  obtain ⟨s, hs, hp⟩ := System.exists_reachable_of_exec (S := system) (G := System.free) ⟨false, rfl⟩
    lateClose (fun s => 1 < s.workers.countP Worker.runs) (by decide)
  have hone := (h s hs).oneRuns
  have htwo := of_decide_eq_true hp
  omega

end NCam.Work
