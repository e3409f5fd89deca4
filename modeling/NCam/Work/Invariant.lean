import NCam.Work.Model

/-! What the runs keep in which no branch goes wrong: the flag agrees with the workers, and every job is in one
place. -/
namespace NCam.Work

/-- Some worker has given up the killed client. -/
def Ending (c : Client) (ws : List Worker) : Prop :=
  c.killStarted = true ∨ ∃ w ∈ ws, w.pc.ends = true

/-- The workers and the flags of the client. -/
structure Flags (c : Client) (ws : List Worker) : Prop where
  one : ws.countP Worker.runs ≤ 1
  active : c.threadActive ≠ 0 ↔ 0 < ws.countP Worker.runs
  fits : ∀ w ∈ ws, w.Fits
  kills : ∀ w ∈ ws, w.pc.kills = true → c.kill = true
  started : c.killStarted = true → c.kill = true
  claimed : ∀ w ∈ ws, w.pc = .freeJobs → c.killStarted = true
  early : Ending c ws → ∀ w ∈ ws, w.runs = true → w.pc.early = true
  untracked : ∀ w ∈ ws, w.pc = .freeing ∨ w.pc = .freeJobs → c.workJobData = none
  served : c.joblist ≠ [] → 0 < ws.countP Worker.runs ∨ ∃ w ∈ ws, w.pc.ends = true
  servedLast : c.killStarted = true → c.joblist ≠ [] → ∃ w ∈ ws, w.pc = .freeJobs

/-- The jobs of the client. -/
structure Jobs (c : Client) (ws : List Worker) (accepted : List Job) : Prop where
  accounted : (c.freed ++ ws.filterMap Worker.job ++ c.joblist).Perm accepted
  inOrder : c.ran.Sublist accepted
  queue : ¬ Ending c ws → ∃ hand, (ws.filterMap Worker.job).Perm hand ∧
    c.freed ++ hand ++ c.joblist = accepted ∧ c.ran.Sublist (c.freed ++ hand)
  unrun : ¬ Ending c ws → (∀ w ∈ ws, w.pc ≠ .running ∧ w.pc ≠ .finished) →
    (c.kill = false ∨ ∃ w ∈ ws, w.pc = .ready) → c.ran.Sublist c.freed

section Perm

variable {c : Client} {ws ws' : List Worker} {accepted : List Job}

theorem Flags.perm (h : Flags c ws) (hp : ws.Perm ws') : Flags c ws' := by
  have hcount := hp.countP_eq Worker.runs
  have hmem : ∀ w, w ∈ ws' ↔ w ∈ ws := fun w => hp.mem_iff.symm
  have hending : Ending c ws' ↔ Ending c ws := by simp only [Ending, hmem]
  obtain ⟨one, active, fits, kills, started, claimed, early, untracked, served, servedLast⟩ := h
  rw [hcount] at one active served
  constructor
  · exact one
  · exact active
  · simpa only [hmem] using fits
  · simpa only [hmem] using kills
  · exact started
  · simpa only [hmem] using claimed
  · simpa only [hmem, hending] using early
  · simpa only [hmem] using untracked
  · simpa only [hmem] using served
  · simpa only [hmem] using servedLast

theorem Jobs.perm (h : Jobs c ws accepted) (hp : ws.Perm ws') : Jobs c ws' accepted := by
  have hjobs := hp.filterMap Worker.job
  have hmem : ∀ w, w ∈ ws' ↔ w ∈ ws := fun w => hp.mem_iff.symm
  have hending : Ending c ws' ↔ Ending c ws := by simp only [Ending, hmem]
  obtain ⟨accounted, inOrder, queue, unrun⟩ := h
  constructor
  · exact (((hjobs.symm.append_left c.freed).append_right c.joblist)).trans accounted
  · exact inOrder
  · rw [hending]
    intro hnot
    obtain ⟨hand, hhand, heq⟩ := queue hnot
    exact ⟨hand, hjobs.symm.trans hhand, heq⟩
  · simpa only [hmem, hending] using unrun

end Perm

section Worker

variable {c c' : Client} {w w' : Worker} {os : List Worker}

/-- While one worker runs, no other does. -/
theorem Flags.others (h : Flags c (w :: os)) (hruns : w.runs = true) :
    os.countP Worker.runs = 0 := by
  have hone := h.one
  rw [List.countP_cons_of_pos hruns] at hone
  omega

theorem Flags.not_runs (h : Flags c (w :: os)) (hruns : w.runs = true) : ∀ v ∈ os, v.runs = false := by
  have hcount := h.others hruns
  rw [List.countP_eq_zero] at hcount
  exact fun v hv => by simpa using hcount v hv

theorem ends_not_runs {w : Worker} (h : w.pc.ends = true) : w.runs = false := by
  obtain ⟨pc, data⟩ := w
  cases pc <;> first | rfl | cases h

theorem Flags.ending_kill {ws : List Worker} (h : Flags c ws) (hending : Ending c ws) :
    c.kill = true := by
  rcases hending with hstarted | ⟨w, hw, hends⟩
  · exact h.started hstarted
  · apply h.kills w hw
    obtain ⟨pc, data⟩ := w
    cases pc <;> first | rfl | cases hends

/-- A worker goes on. -/
private theorem Flags.goOn (h : Flags c (w :: os)) (hruns : w.runs = true) (hruns' : w'.runs = true)
    (hfits : w'.Fits) (ha : c'.threadActive ≠ 0) (hk : c.kill = true → c'.kill = true)
    (hkills : w'.pc.kills = true → c'.kill = true) (hstarted : c'.killStarted = c.killStarted)
    (hearly : w.pc.early = true → c.kill = true → w'.pc.early = true)
    (htracked : w.pc.early = false ∨ c'.workJobData = c.workJobData)
    (hlist : c'.joblist ≠ [] → c.joblist ≠ []) : Flags c' (w' :: os) := by
  have hcount := h.others hruns
  have hnot := h.not_runs hruns
  have hends : ∀ v : Worker, v.runs = true → v.pc.ends = false := by
    intro v hv
    rw [← Bool.not_eq_true]
    intro hv'
    rw [ends_not_runs hv'] at hv
    cases hv
  have hending : Ending c' (w' :: os) → Ending c (w :: os) := by
    unfold Ending
    rw [hstarted]
    rintro (hs | ⟨v, hv, hv'⟩)
    · exact Or.inl hs
    · rcases List.mem_cons.mp hv with rfl | hv
      · rw [hends v hruns'] at hv'
        cases hv'
      · exact Or.inr ⟨v, List.mem_cons_of_mem w hv, hv'⟩
  constructor
  · rw [List.countP_cons_of_pos hruns']
    omega
  · rw [List.countP_cons_of_pos hruns']
    exact ⟨fun _ => Nat.succ_pos _, fun _ => ha⟩
  · intro v hv
    rcases List.mem_cons.mp hv with rfl | hv
    · exact hfits
    · exact h.fits v (List.mem_cons_of_mem w hv)
  · intro v hv hv'
    rcases List.mem_cons.mp hv with rfl | hv
    · exact hkills hv'
    · exact hk (h.kills v (List.mem_cons_of_mem w hv) hv')
  · rw [hstarted]
    exact fun hs => hk (h.started hs)
  · intro v hv hpc
    rw [hstarted]
    rcases List.mem_cons.mp hv with rfl | hv
    · simp [Worker.runs, hpc, Pc.runs] at hruns'
    · exact h.claimed v (List.mem_cons_of_mem w hv) hpc
  · intro he v hv hv'
    rcases List.mem_cons.mp hv with rfl | hv
    · exact hearly (h.early (hending he) w List.mem_cons_self hruns) (h.ending_kill (hending he))
    · rw [hnot v hv] at hv'
      cases hv'
  · intro v hv hpc
    rcases List.mem_cons.mp hv with rfl | hv
    · exfalso
      rcases hpc with hpc | hpc <;> simp [Worker.runs, hpc, Pc.runs] at hruns'
    · have hv' := List.mem_cons_of_mem w hv
      rcases htracked with hlate | hsame
      · have hpcEnds : v.pc.ends = true := by
          rcases hpc with hpc | hpc <;> simp [hpc, Pc.ends]
        have hw := h.early (Or.inr ⟨v, hv', hpcEnds⟩) w List.mem_cons_self hruns
        rw [hw] at hlate
        cases hlate
      · rw [hsame]
        exact h.untracked v hv' hpc
  · intro _
    rw [List.countP_cons_of_pos hruns']
    exact Or.inl (Nat.succ_pos _)
  · rw [hstarted]
    intro hs hl
    obtain ⟨v, hv, hpc⟩ := h.servedLast hs (hlist hl)
    rcases List.mem_cons.mp hv with rfl | hv
    · simp [Worker.runs, hpc, Pc.runs] at hruns
    · exact ⟨v, List.mem_cons_of_mem w' hv, hpc⟩

/-- A worker gives up or goes on giving up. -/
private theorem Flags.giveUp (h : Flags c (w :: os)) (hruns' : w'.runs = false) (hfits : w'.Fits)
    (ha : c'.threadActive ≠ 0 ↔ 0 < os.countP Worker.runs)
    (hothers : os.countP Worker.runs = 0 ∨ Ending c (w :: os))
    (hk : c.kill = true → c'.kill = true) (hkills : w'.pc.kills = true → c'.kill = true)
    (hstarted : c'.killStarted = true → c'.kill = true)
    (hclaimed : c.killStarted = true → c'.killStarted = true)
    (hclaims : w'.pc = .freeJobs → c'.killStarted = true)
    (htracked : c'.workJobData = c.workJobData ∨ c'.workJobData = none)
    (htracked' : w'.pc = .freeing ∨ w'.pc = .freeJobs → c'.workJobData = none)
    (hserved : c'.joblist ≠ [] → 0 < os.countP Worker.runs ∨ ∃ v ∈ w' :: os, v.pc.ends = true)
    (hlast : c'.killStarted = true → c'.joblist ≠ [] → ∃ v ∈ w' :: os, v.pc = .freeJobs) :
    Flags c' (w' :: os) := by
  have hcons : (w' :: os).countP Worker.runs = os.countP Worker.runs :=
    List.countP_cons_of_neg (by simp [hruns'])
  constructor
  · rw [hcons]
    have hone := h.one
    rw [List.countP_cons] at hone
    omega
  · rw [hcons]
    exact ha
  · intro v hv
    rcases List.mem_cons.mp hv with rfl | hv
    · exact hfits
    · exact h.fits v (List.mem_cons_of_mem w hv)
  · intro v hv hv'
    rcases List.mem_cons.mp hv with rfl | hv
    · exact hkills hv'
    · exact hk (h.kills v (List.mem_cons_of_mem w hv) hv')
  · exact hstarted
  · intro v hv hpc
    rcases List.mem_cons.mp hv with rfl | hv
    · exact hclaims hpc
    · exact hclaimed (h.claimed v (List.mem_cons_of_mem w hv) hpc)
  · intro _ v hv hv'
    rcases List.mem_cons.mp hv with rfl | hv
    · rw [hruns'] at hv'
      cases hv'
    · rcases hothers with hnone | hending
      · exact absurd hv' (List.countP_eq_zero.mp hnone v hv)
      · exact h.early hending v (List.mem_cons_of_mem w hv) hv'
  · intro v hv hpc
    rcases List.mem_cons.mp hv with rfl | hv
    · exact htracked' hpc
    · rcases htracked with hsame | hnone
      · rw [hsame]
        exact h.untracked v (List.mem_cons_of_mem w hv) hpc
      · exact hnone
  · rw [hcons]
    exact hserved
  · exact hlast

/-- A step of a worker keeps the flags. -/
theorem Flags.worker (h : Flags c (w :: os)) (he : Effect c w c' w')
    (hclose : w.pc = .closing → os.countP Worker.runs = 0) : Flags c' (w' :: os) := by
  have hruns_of : ∀ {pc : Pc}, w.pc = pc → w.runs = pc.runs := fun hpc => congrArg Pc.runs hpc
  have hactive : w.runs = true → c.threadActive ≠ 0 := by
    intro hruns
    apply h.active.mpr
    rw [List.countP_cons_of_pos hruns]
    omega
  have hcount : w.runs = false → (c.threadActive ≠ 0 ↔ 0 < os.countP Worker.runs) := by
    intro hruns
    rw [h.active, List.countP_cons_of_neg (by simp [hruns])]
  have hending : w.pc.ends = true → Ending c (w :: os) :=
    fun hends => Or.inr ⟨w, List.mem_cons_self, hends⟩
  have hkill : w.pc.kills = true → c.kill = true := h.kills w List.mem_cons_self
  -- a queue that was served by another worker still is
  have hserved : w.runs = false → w.pc ≠ .freeJobs → c.joblist ≠ [] →
      0 < os.countP Worker.runs ∨ w.pc.ends = true ∨ ∃ v ∈ os, v.pc.ends = true := by
    intro hruns hpc hlist
    rcases h.served hlist with hlive | ⟨v, hv, hends⟩
    · rw [List.countP_cons_of_neg (by simp [hruns])] at hlive
      exact Or.inl hlive
    · rcases List.mem_cons.mp hv with rfl | hv
      · exact Or.inr (Or.inl hends)
      · exact Or.inr (Or.inr ⟨v, hv, hends⟩)
  have hlast : w.pc ≠ .freeJobs → c.killStarted = true → c.joblist ≠ [] →
      ∃ v ∈ os, v.pc = .freeJobs := by
    intro hpc hs hlist
    obtain ⟨v, hv, hv'⟩ := h.servedLast hs hlist
    rcases List.mem_cons.mp hv with rfl | hv
    · exact absurd hv' hpc
    · exact ⟨v, hv, hv'⟩
  cases he with
  | move hruns hruns' hfits hjob ha hk hkills hearly hready hrunning hfinished =>
    exact h.goOn hruns hruns' hfits ha hk hkills rfl hearly (Or.inr rfl) id
  | take hpc hdata hlist =>
    have hruns : w.runs = true := hruns_of hpc
    refine h.goOn hruns rfl (by simp [Worker.Fits]) (hactive hruns) id (fun h => by cases h) rfl ?_ (Or.inr rfl) ?_
    · rw [hpc]
      exact fun h => by cases h
    · rw [hlist]
      exact fun _ => List.cons_ne_nil _ _
  | begin hpc hdata =>
    have hruns : w.runs = true := hruns_of hpc
    refine h.goOn hruns rfl (by simp [Worker.Fits]) (hactive hruns) id (fun h => by cases h) rfl ?_ (Or.inl ?_) id
    · rw [hpc]
      exact fun h => by cases h
    · rw [hpc]
      rfl
  | @free pc hpc hpc' =>
    have hruns : w.runs = true := by
      rcases hpc with hpc | hpc <;> exact hruns_of hpc
    have hlate : w.pc.early = false := by
      rcases hpc with hpc | hpc <;> rw [hpc] <;> rfl
    refine h.goOn hruns ?_ ?_ ?_ ?_ ?_ (freeJobData_killStarted c _) ?_ (Or.inl hlate) ?_
    · rcases hpc' with rfl | rfl <;> rfl
    · rcases hpc' with rfl | rfl
      · trivial
      · rfl
    · rw [freeJobData_threadActive]
      exact hactive hruns
    · rw [freeJobData_kill]
      exact id
    · rcases hpc' with rfl | rfl <;> exact fun h => by cases h
    · rw [hlate]
      exact fun h => by cases h
    · rw [freeJobData_joblist]
      exact id
  | leave hpc hdata hlist =>
    have hothers := h.others (hruns_of hpc)
    refine h.giveUp rfl rfl ?_ (Or.inl hothers) id (fun h => by cases h) h.started id
      (fun h => by cases h) (Or.inl rfl) (fun h => by rcases h with h | h <;> cases h) ?_ ?_
    · simp [hothers]
    · exact fun hl => absurd hlist hl
    · exact fun _ hl => absurd hlist hl
  | close hpc hdata =>
    have hothers := hclose hpc
    refine h.giveUp rfl rfl ?_ (Or.inl hothers) id (fun h => by cases h) h.started id
      (fun h => by cases h) (Or.inl rfl) (fun h => by rcases h with h | h <;> cases h) ?_ ?_
    · simp [hothers]
    · intro hl
      rcases hserved (hruns_of hpc) (by rw [hpc]; exact fun h => by cases h) hl with hlive | hends | ⟨v, hv, hends⟩
      · exact Or.inl hlive
      · rw [hpc] at hends
        cases hends
      · exact Or.inr ⟨v, List.mem_cons_of_mem _ hv, hends⟩
    · intro hs hl
      obtain ⟨v, hv, hv'⟩ := hlast (by rw [hpc]; exact fun h => by cases h) hs hl
      exact ⟨v, List.mem_cons_of_mem _ hv, hv'⟩
  | die hpc =>
    have hothers := h.others (hruns_of hpc)
    refine h.giveUp rfl trivial ?_ (Or.inl hothers) id ?_ h.started id (fun h => by cases h)
      (Or.inl rfl) (fun h => by rcases h with h | h <;> cases h) ?_ ?_
    · simp [hothers]
    · exact fun _ => hkill (by rw [hpc]; rfl)
    · exact fun _ => Or.inr ⟨_, List.mem_cons_self, rfl⟩
    · intro hs hl
      obtain ⟨v, hv, hv'⟩ := hlast (by rw [hpc]; exact fun h => by cases h) hs hl
      exact ⟨v, List.mem_cons_of_mem _ hv, hv'⟩
  | release hpc =>
    have hk : c.kill = true := hkill (by rw [hpc]; rfl)
    have hnone := freeJobData_workJobData c w.data
    refine h.giveUp rfl rfl ?_ (Or.inr (hending (by rw [hpc]; rfl))) ?_ ?_ ?_ ?_ (fun h => by cases h)
      (Or.inr hnone) (fun _ => hnone) ?_ ?_
    · rw [freeJobData_threadActive]
      exact hcount (hruns_of hpc)
    · rw [freeJobData_kill]
      exact id
    · rw [freeJobData_kill]
      exact fun _ => hk
    · rw [freeJobData_kill]
      exact fun _ => hk
    · rw [freeJobData_killStarted]
      exact id
    · exact fun _ => Or.inr ⟨_, List.mem_cons_self, rfl⟩
    · rw [freeJobData_killStarted, freeJobData_joblist]
      intro hs hl
      obtain ⟨v, hv, hv'⟩ := hlast (by rw [hpc]; exact fun h => by cases h) hs hl
      exact ⟨v, List.mem_cons_of_mem _ hv, hv'⟩
  | give hpc hdata hstarted =>
    have hlast' := hlast (by rw [hpc]; exact fun h => by cases h) hstarted
    refine h.giveUp rfl rfl (hcount (hruns_of hpc)) (Or.inr (hending (by rw [hpc]; rfl))) id
      (fun h => by cases h) h.started id (fun h => by cases h) (Or.inl rfl)
      (fun h => by rcases h with h | h <;> cases h) ?_ ?_
    · intro hl
      obtain ⟨v, hv, hv'⟩ := hlast' hl
      exact Or.inr ⟨v, List.mem_cons_of_mem _ hv, by rw [hv']; rfl⟩
    · intro _ hl
      obtain ⟨v, hv, hv'⟩ := hlast' hl
      exact ⟨v, List.mem_cons_of_mem _ hv, hv'⟩
  | claim hpc hdata hstarted =>
    have hnone := h.untracked w List.mem_cons_self (Or.inl hpc)
    refine h.giveUp rfl rfl (hcount (hruns_of hpc)) (Or.inr (hending (by rw [hpc]; rfl)))
      (fun _ => rfl) (fun _ => rfl) (fun _ => rfl) (fun _ => rfl) (fun _ => rfl) (Or.inl rfl)
      (fun _ => hnone) ?_ ?_
    · exact fun _ => Or.inr ⟨_, List.mem_cons_self, rfl⟩
    · exact fun _ _ => ⟨_, List.mem_cons_self, rfl⟩
  | freeJobs hpc hdata =>
    refine h.giveUp rfl rfl (hcount (hruns_of hpc)) (Or.inr (hending (by rw [hpc]; rfl))) id
      (fun h => by cases h) h.started id (fun h => by cases h) (Or.inr rfl)
      (fun h => by rcases h with h | h <;> cases h) ?_ ?_
    · exact fun hl => absurd rfl hl
    · exact fun _ hl => absurd rfl hl

private theorem filterMap_cons_job :
    (w :: os).filterMap Worker.job = w.job.toList ++ os.filterMap Worker.job := by
  rw [List.filterMap_cons]
  cases w.job <;> rfl

/-- A worker that has given up a client that is not killed has no job. -/
theorem job_of_gone {v : Worker} (hfits : v.Fits) (hruns : v.runs = false)
    (hends : v.pc.ends = false) : v.job = none := by
  obtain ⟨pc, data⟩ := v
  have hdata : data = none := by
    cases pc <;> first | exact hfits | exact Bool.noConfusion hruns | exact Bool.noConfusion hends
  rw [hdata]
  rfl

private theorem others_no_job (h : Flags c (w :: os)) (hnot : ¬ Ending c (w :: os))
    (hothers : os.countP Worker.runs = 0) : os.filterMap Worker.job = [] := by
  rw [List.filterMap_eq_nil_iff]
  intro v hv
  have hends : v.pc.ends = false := by
    rw [← Bool.not_eq_true]
    exact fun hends => hnot (Or.inr ⟨v, List.mem_cons_of_mem w hv, hends⟩)
  exact job_of_gone (h.fits v (List.mem_cons_of_mem w hv))
    (by simpa using List.countP_eq_zero.mp hothers v hv) hends

section Jobs

variable {accepted : List Job}

/-- The order of the jobs while one worker goes through them. -/
private theorem Jobs.line (hj : Jobs c (w :: os) accepted) (h : Flags c (w :: os))
    (hnot : ¬ Ending c (w :: os)) (hothers : os.countP Worker.runs = 0) :
    c.freed ++ w.job.toList ++ c.joblist = accepted ∧ c.ran.Sublist (c.freed ++ w.job.toList) := by
  obtain ⟨hand, hperm, heq⟩ := hj.queue hnot
  rw [filterMap_cons_job, others_no_job h hnot hothers, List.append_nil] at hperm
  have hhand : hand = w.job.toList := by
    cases hjob : w.job with
    | none =>
      rw [hjob] at hperm
      exact List.nil_perm.mp hperm
    | some j =>
      rw [hjob] at hperm
      exact (List.singleton_perm.mp hperm).symm
  rw [hhand] at heq
  exact heq

private theorem Jobs.ofLine (hothers : os.filterMap Worker.job = [])
    (hline : c'.freed ++ w'.job.toList ++ c'.joblist = accepted)
    (hran : c'.ran.Sublist (c'.freed ++ w'.job.toList))
    (hunrun : (w'.pc ≠ .running ∧ w'.pc ≠ .finished) → c'.kill = false ∨ w'.pc = .ready →
      c'.ran.Sublist c'.freed) (hready : ∀ v ∈ os, v.pc ≠ .ready) : Jobs c' (w' :: os) accepted := by
  have hlist : (w' :: os).filterMap Worker.job = w'.job.toList := by
    rw [filterMap_cons_job, hothers, List.append_nil]
  constructor
  · rw [hlist, hline]
  · rw [← hline]
    exact hran.trans (List.sublist_append_left _ _)
  · intro _
    exact ⟨w'.job.toList, by rw [hlist], hline, hran⟩
  · intro _ hpcs hcond
    apply hunrun (hpcs w' List.mem_cons_self)
    rcases hcond with hk | ⟨v, hv, hpc⟩
    · exact Or.inl hk
    · rcases List.mem_cons.mp hv with rfl | hv
      · exact Or.inr hpc
      · exact absurd hpc (hready v hv)

/-- A killed client whose jobs some worker gives back. -/
private theorem Jobs.ofEnding {ws : List Worker} (hending : Ending c ws)
    (haccounted : (c.freed ++ ws.filterMap Worker.job ++ c.joblist).Perm accepted)
    (hinOrder : c.ran.Sublist accepted) : Jobs c ws accepted :=
  ⟨haccounted, hinOrder, fun hnot => absurd hending hnot, fun hnot => absurd hending hnot⟩

theorem job_none (hdata : w.data = none) : w.job = none := by
  unfold Worker.job
  rw [hdata]

private theorem job_some {j : Job} (hdata : w.data = some (.job j)) : w.job = some j := by
  unfold Worker.job
  rw [hdata]

/-- A step of a worker loses no job and frees none twice. -/
private theorem Jobs.worker_accounted (hj : Jobs c (w :: os) accepted) (h : Flags c (w :: os))
    (he : Effect c w c' w') :
    (c'.freed ++ (w' :: os).filterMap Worker.job ++ c'.joblist).Perm accepted := by
  refine List.Perm.trans ?_ hj.accounted
  rw [filterMap_cons_job, filterMap_cons_job]
  cases he with
  | move hruns hruns' hfits hjob => rw [hjob]
  | @take j rest hpc hdata hlist =>
    rw [job_none hdata, hlist]
    change (c.freed ++ (j :: os.filterMap Worker.job) ++ rest).Perm
      (c.freed ++ os.filterMap Worker.job ++ (j :: rest))
    rw [List.append_assoc, List.cons_append]
    refine List.perm_middle.trans ?_
    rw [← List.append_assoc]
    exact List.perm_middle.symm
  | begin hpc hdata =>
    unfold Worker.job
    rw [hdata]
  | @free pc hpc hpc' =>
    rw [freeJobData_freed, freeJobData_joblist, List.append_assoc c.freed w.job.toList]
    rfl
  | leave hpc hdata => rw [job_none hdata]; rfl
  | close hpc hdata => rw [job_none hdata]; rfl
  | die hpc => rfl
  | release hpc =>
    rw [freeJobData_freed, freeJobData_joblist, List.append_assoc c.freed w.job.toList]
    rfl
  | give hpc hdata => rw [job_none hdata]; rfl
  | claim hpc hdata => rw [job_none hdata]; rfl
  | freeJobs hpc hdata =>
    rw [job_none hdata, h.untracked w List.mem_cons_self (Or.inr hpc)]
    change (c.freed ++ c.joblist ++ [] ++ os.filterMap Worker.job ++ []).Perm
      (c.freed ++ os.filterMap Worker.job ++ c.joblist)
    rw [List.append_nil, List.append_nil, List.append_assoc, List.append_assoc]
    exact List.perm_append_comm.append_left c.freed

/-- A worker that gives back the jobs of a killed client stays until another one has taken that over. -/
private theorem Effect.ending (he : Effect c w c' w') (h : Flags c (w :: os))
    (hending : Ending c (w :: os)) : Ending c' (w' :: os) := by
  -- only the step itself matters: what the others show does not change
  have hkeep : (c.killStarted = true → c'.killStarted = true) →
      (w.pc.ends = true → Ending c' (w' :: os)) → Ending c' (w' :: os) := by
    intro hstarted hw
    rcases hending with hs | ⟨v, hv, hends⟩
    · exact Or.inl (hstarted hs)
    · rcases List.mem_cons.mp hv with rfl | hv
      · exact hw hends
      · exact Or.inr ⟨v, List.mem_cons_of_mem w' hv, hends⟩
  have hnot : ∀ {pc : Pc}, w.pc = pc → pc.ends = false → w.pc.ends = true → Ending c' (w' :: os) := by
    intro pc hpc hends hw
    rw [hpc, hends] at hw
    cases hw
  cases he with
  | move hruns =>
    refine hkeep id fun hends => ?_
    rw [ends_not_runs hends] at hruns
    cases hruns
  | take hpc => exact hkeep id (hnot hpc rfl)
  | begin hpc => exact hkeep id (hnot hpc rfl)
  | free hpc =>
    apply hkeep
    · rw [freeJobData_killStarted]
      exact id
    · rcases hpc with hpc | hpc <;> exact hnot hpc rfl
  | leave hpc => exact hkeep id (hnot hpc rfl)
  | close hpc => exact hkeep id (hnot hpc rfl)
  | die => exact Or.inr ⟨_, List.mem_cons_self, rfl⟩
  | release => exact Or.inr ⟨_, List.mem_cons_self, rfl⟩
  | give _ _ hstarted => exact Or.inl hstarted
  | claim => exact Or.inl rfl
  | freeJobs hpc => exact Or.inl (h.claimed w List.mem_cons_self hpc)

/-- A worker that runs a job is the only one, and the jobs run so far come before it. -/
private theorem Jobs.before (hj : Jobs c (w :: os) accepted) (h : Flags c (w :: os))
    (hready : w.pc = .ready) : ¬ Ending c (w :: os) ∧ c.ran.Sublist c.freed := by
  have hruns : w.runs = true := congrArg Pc.runs hready
  have hnot : ¬ Ending c (w :: os) := by
    intro hending
    have hearly := h.early hending w List.mem_cons_self hruns
    rw [hready] at hearly
    cases hearly
  refine ⟨hnot, hj.unrun hnot ?_ (Or.inr ⟨w, List.mem_cons_self, hready⟩)⟩
  intro v hv
  rcases List.mem_cons.mp hv with rfl | hv
  · rw [hready]
    exact ⟨(fun h => by cases h), (fun h => by cases h)⟩
  · have hv' := h.not_runs hruns v hv
    exact ⟨fun hpc => by simp [Worker.runs, hpc, Pc.runs] at hv',
      fun hpc => by simp [Worker.runs, hpc, Pc.runs] at hv'⟩

private theorem Jobs.worker_inOrder (hj : Jobs c (w :: os) accepted) (h : Flags c (w :: os))
    (he : Effect c w c' w') : c'.ran.Sublist accepted := by
  cases he with
  | @begin j hpc hdata =>
    obtain ⟨hnot, hran⟩ := hj.before h hpc
    have hline := hj.line h hnot (h.others (congrArg Pc.runs hpc))
    have hjob : w.job = some j := job_some hdata
    rw [hjob] at hline
    rw [← hline.1]
    exact (hran.append_right _).trans (List.sublist_append_left _ _)
  | free =>
    rw [freeJobData_ran]
    exact hj.inOrder
  | release =>
    rw [freeJobData_ran]
    exact hj.inOrder
  | _ => exact hj.inOrder

/-- A step of a worker keeps what is said of the jobs. -/
theorem Jobs.worker (hj : Jobs c (w :: os) accepted) (h : Flags c (w :: os)) (he : Effect c w c' w')
    (hclose : w.pc = .closing → os.countP Worker.runs = 0) : Jobs c' (w' :: os) accepted := by
  by_cases hending : Ending c' (w' :: os)
  · exact .ofEnding hending (hj.worker_accounted h he) (hj.worker_inOrder h he)
  have hnot : ¬ Ending c (w :: os) := fun hold => hending (he.ending h hold)
  have hruns_of : ∀ {pc : Pc}, w.pc = pc → w.runs = pc.runs := fun hpc => congrArg Pc.runs hpc
  -- the step of a worker that still works off the queue
  have live : os.countP Worker.runs = 0 → (c.freed ++ w.job.toList ++ c.joblist = accepted →
      c.ran.Sublist (c.freed ++ w.job.toList) →
      c'.freed ++ w'.job.toList ++ c'.joblist = accepted ∧
        c'.ran.Sublist (c'.freed ++ w'.job.toList) ∧
        ((w'.pc ≠ .running ∧ w'.pc ≠ .finished) → c'.kill = false ∨ w'.pc = .ready →
          c'.ran.Sublist c'.freed)) → Jobs c' (w' :: os) accepted := by
    intro hothers hstep
    obtain ⟨hline, hran⟩ := hj.line h hnot hothers
    obtain ⟨hline', hran', hunrun'⟩ := hstep hline hran
    refine .ofLine (others_no_job h hnot hothers) hline' hran' hunrun' ?_
    intro v hv hpc
    apply List.countP_eq_zero.mp hothers v hv
    exact congrArg Pc.runs hpc
  cases he with
  | @move a k w' hruns hruns' hfits hjob ha hk hkills hearly hready hrunning hfinished =>
    apply live (h.others hruns)
    intro hline hran
    rw [hjob]
    refine ⟨hline, hran, ?_⟩
    rintro ⟨hnotRunning, hnotFinished⟩ hcond
    have hkill : k = false → c.kill = false := by
      intro hk'
      rw [← Bool.not_eq_true]
      intro hkill
      rw [hk hkill] at hk'
      cases hk'
    have hidle : c.kill = false → c.ran.Sublist c.freed := by
      intro hkill
      refine hj.unrun hnot ?_ (Or.inl hkill)
      intro v hv
      rcases List.mem_cons.mp hv with rfl | hv
      · refine ⟨fun hpc => ?_, hfinished⟩
        rcases hrunning hpc with hpc' | ⟨hk', hpc'⟩
        · exact hnotFinished hpc'
        · rcases hcond with hk'' | hpc''
          · exact Bool.noConfusion (hk'.symm.trans hk'')
          · exact Pc.noConfusion (hpc'.symm.trans hpc'')
      · have hv' := h.not_runs hruns v hv
        exact ⟨fun hpc => by simp [Worker.runs, hpc, Pc.runs] at hv',
          fun hpc => by simp [Worker.runs, hpc, Pc.runs] at hv'⟩
    rcases hcond with hk' | hpc
    · exact hidle (hkill hk')
    · rcases hready hpc with hnone | hkill'
      · rw [hnone] at hran
        simpa using hran
      · exact hidle hkill'
  | @take j rest hpc hdata hlist =>
    apply live (h.others (hruns_of hpc))
    intro hline hran
    rw [job_none hdata] at hline hran
    rw [hlist] at hline
    have hran' : c.ran.Sublist c.freed := by simpa using hran
    refine ⟨?_, hran'.trans (List.sublist_append_left _ _), fun _ _ => hran'⟩
    rw [← hline]
    change c.freed ++ [j] ++ rest = c.freed ++ [] ++ ([j] ++ rest)
    rw [List.append_nil, List.append_assoc]
  | @begin j hpc hdata =>
    apply live (h.others (hruns_of hpc))
    intro hline _
    rw [job_some hdata] at hline
    refine ⟨hline, (hj.before h hpc).2.append_right [j], ?_⟩
    exact fun hnotRunning => absurd rfl hnotRunning.1
  | @free pc hpc hpc' =>
    have hothers : os.countP Worker.runs = 0 := by
      rcases hpc with hpc | hpc <;> exact h.others (hruns_of hpc)
    apply live hothers
    intro hline hran
    rw [freeJobData_freed, freeJobData_ran, freeJobData_joblist]
    change c.freed ++ w.job.toList ++ [] ++ c.joblist = accepted ∧
      c.ran.Sublist (c.freed ++ w.job.toList ++ []) ∧ _
    rw [List.append_nil]
    exact ⟨hline, hran, fun _ _ => hran⟩
  | leave hpc hdata =>
    apply live (h.others (hruns_of hpc))
    intro hline hran
    rw [job_none hdata] at hline hran
    exact ⟨hline, hran, fun _ _ => by simpa using hran⟩
  | close hpc hdata =>
    apply live (hclose hpc)
    intro hline hran
    rw [job_none hdata] at hline hran
    exact ⟨hline, hran, fun _ _ => by simpa using hran⟩
  | die => exact absurd (Or.inr ⟨_, List.mem_cons_self, rfl⟩) hending
  | release => exact absurd (Or.inr ⟨_, List.mem_cons_self, rfl⟩) hending
  | give _ _ hstarted => exact absurd (Or.inl hstarted) hending
  | claim => exact absurd (Or.inl rfl) hending
  | freeJobs hpc => exact absurd (Or.inl (h.claimed w List.mem_cons_self hpc)) hending

end Jobs

end Worker

end NCam.Work
