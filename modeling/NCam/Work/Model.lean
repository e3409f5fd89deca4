import NCam.Lib.Transition
import Mathlib

/-! The job queue of one client: the calls of `add_job` and the worker threads of `ncam-work.c`. A stretch
under `thread_lock`, and every other access to a shared field, is one step. What one step of a worker can do. -/
namespace NCam.Work

open NCam.Lib

/-- `enum actions`. -/
inductive Actions
  | readerIdle | readerRemote | readerReset | readerEcmRequest | readerEmm | readerCardinfo
  | readerInit | readerRestart | readerResetFast | readerCheckHealth | readerCapmtNotify
  | readerPollStatus | clientUdp | clientTcp | clientKill | clientInit | clientIdle | cachePushOut
  | clientSendMsg | cacheexTimeout | fallbackTimeout | clientTimeout | ecmAnswerReader
  | ecmAnswerCache | cacheex1Delay | peerIdle | clientHidecards
  deriving DecidableEq

def Actions.code : Actions → ℕ
  | .readerIdle => 1 | .readerRemote => 2 | .readerReset => 4 | .readerEcmRequest => 5
  | .readerEmm => 6 | .readerCardinfo => 7 | .readerInit => 8 | .readerRestart => 9
  | .readerResetFast => 10 | .readerCheckHealth => 11 | .readerCapmtNotify => 12
  | .readerPollStatus => 13 | .clientUdp => 22 | .clientTcp => 23 | .clientKill => 24
  | .clientInit => 25 | .clientIdle => 26 | .cachePushOut => 27 | .clientSendMsg => 28
  | .cacheexTimeout => 29 | .fallbackTimeout => 30 | .clientTimeout => 31 | .ecmAnswerReader => 32
  | .ecmAnswerCache => 33 | .cacheex1Delay => 34 | .peerIdle => 35 | .clientHidecards => 36

def actionClientFirst : ℕ := 20

/-- `job_data` of one call of `add_job`; `id` tells the calls apart. -/
structure Job where
  id : ℕ
  action : Actions
  deriving DecidableEq

/-- What `data` of a worker points to: a job, or `tmp_data` for an event on the client's socket. -/
inductive Data
  | job (j : Job)
  | event
  deriving DecidableEq

/-- Where a worker is in `work_thread`. -/
inductive Pc
  /-- before its first assignment of `thread_active` -/
  | start
  /-- at the condition of the outer loop -/
  | outer
  /-- at the condition of the inner loop -/
  | inner
  /-- at the test of `kill` -/
  | check
  /-- at the locked assignment for a killed client -/
  | killing
  /-- at the locked look at the queue -/
  | fetch
  /-- without a job, at the test of the socket -/
  | idle
  /-- in `poll` -/
  | poll
  /-- back from `poll` -/
  | polled
  /-- with a job or an event, before it is run -/
  | ready
  /-- in the switch -/
  | running
  /-- behind the switch -/
  | finished
  /-- behind the inner loop, at the locked look whether another job was added -/
  | leaving
  /-- at the last, unlocked assignment of `thread_active` -/
  | closing
  /-- a killed client: before its job is freed -/
  | killed
  /-- a killed client: at the start of `free_client` -/
  | freeing
  /-- a killed client: at `free_joblist` -/
  | freeJobs
  | done
  deriving DecidableEq

/-- The worker has not given up the queue yet. -/
def Pc.runs : Pc → Bool
  | .closing | .killed | .freeing | .freeJobs | .done => false
  | _ => true

structure Worker where
  pc : Pc
  data : Option Data
  deriving DecidableEq

def Worker.runs (w : Worker) : Bool := w.pc.runs

/-- The job that a worker has. -/
def Worker.job (w : Worker) : Option Job :=
  match w.data with
  | some (.job j) => some j
  | _ => none

/-- The shared fields of the client. `ran` lists the jobs whose action was started, `freed` the jobs whose
data was given back. -/
structure Client where
  reader : Bool
  kill : Bool
  killStarted : Bool
  threadActive : ℕ
  joblist : List Job
  workJobData : Option Job
  ran : List Job
  freed : List Job
  deriving DecidableEq

/-- `__free_job_data`. -/
def Client.freeJobData (c : Client) : Option Data → Client
  | some (.job j) => { c with freed := c.freed ++ [j], workJobData := none }
  | _ => { c with workJobData := none }

section FreeJobData

variable (c : Client) (d : Option Data)

@[simp] theorem freeJobData_threadActive : (c.freeJobData d).threadActive = c.threadActive := by
  unfold Client.freeJobData
  split <;> rfl

@[simp] theorem freeJobData_kill : (c.freeJobData d).kill = c.kill := by
  unfold Client.freeJobData
  split <;> rfl

@[simp] theorem freeJobData_killStarted : (c.freeJobData d).killStarted = c.killStarted := by
  unfold Client.freeJobData
  split <;> rfl

@[simp] theorem freeJobData_joblist : (c.freeJobData d).joblist = c.joblist := by
  unfold Client.freeJobData
  split <;> rfl

@[simp] theorem freeJobData_workJobData : (c.freeJobData d).workJobData = none := by
  unfold Client.freeJobData
  split <;> rfl

@[simp] theorem freeJobData_ran : (c.freeJobData d).ran = c.ran := by
  unfold Client.freeJobData
  split <;> rfl

theorem freeJobData_freed (w : Worker) :
    (c.freeJobData w.data).freed = c.freed ++ w.job.toList := by
  unfold Client.freeJobData Worker.job
  split <;> simp

end FreeJobData

/-- What a step of a worker depends on besides the state: whether there is a socket to wait on, whether an
event came and whether it was a hangup, whether the job is too old, and whether the action kills the client
and leaves the switch by `continue`. -/
structure Outcome where
  fd : Bool
  event : Bool
  hup : Bool
  old : Bool
  kills : Bool
  again : Bool

/-- Only the TCP action leaves the switch by `continue`. -/
def Data.mayContinue : Data → Bool
  | .job j => j.action = .clientTcp
  | .event => true

/-- One step of `work_thread`. -/
def workerStep (c : Client) (w : Worker) (o : Outcome) : Option (Client × Worker) :=
  match w.pc, w.data with
  | .start, data => some ({ c with threadActive := 1 }, ⟨.outer, data⟩)
  | .outer, data => some (c, ⟨if c.threadActive ≠ 0 then .inner else .closing, data⟩)
  | .inner, data => some (c, ⟨if c.threadActive ≠ 0 then .check else .leaving, data⟩)
  | .check, data =>
    some (c, ⟨if c.kill then .killing else if data = none then .fetch else .ready, data⟩)
  | .killing, data => some ({ c with threadActive := 0 }, ⟨.killed, data⟩)
  | .fetch, data =>
    match c.joblist with
    | [] => some (c, ⟨.idle, data⟩)
    | j :: rest => some ({ c with joblist := rest }, ⟨.ready, some (.job j)⟩)
  | .idle, data =>
    if o.fd then some ({ c with threadActive := 2 }, ⟨.poll, data⟩) else some (c, ⟨.leaving, data⟩)
  | .poll, data => some ({ c with threadActive := 1 }, ⟨.polled, data⟩)
  | .polled, data =>
    if o.event then
      some ({ c with kill := c.kill || (o.hup && !c.reader) }, ⟨.ready, some .event⟩)
    else some (c, ⟨.inner, data⟩)
  | .ready, none => none
  | .ready, some .event => some (c, ⟨.running, some .event⟩)
  | .ready, some (.job j) =>
    if !c.reader ∧ j.action.code < actionClientFirst then
      some (c.freeJobData (some (.job j)), ⟨.leaving, none⟩)
    else if o.old then some (c.freeJobData (some (.job j)), ⟨.inner, none⟩)
    else some ({ c with ran := c.ran ++ [j], workJobData := some j }, ⟨.running, some (.job j)⟩)
  | .running, data =>
    some ({ c with kill := c.kill || o.kills },
      ⟨if o.kills ∧ o.again ∧ (data.any Data.mayContinue) then .inner else .finished, data⟩)
  | .finished, data => some (c.freeJobData data, ⟨.inner, none⟩)
  | .leaving, data =>
    if c.joblist ≠ [] then some (c, ⟨.outer, data⟩)
    else some ({ c with threadActive := 0 }, ⟨.closing, data⟩)
  | .closing, data => some ({ c with threadActive := 0 }, ⟨.done, data⟩)
  | .killed, data => some (c.freeJobData data, ⟨.freeing, none⟩)
  | .freeing, data =>
    if c.killStarted then some (c, ⟨.done, data⟩)
    else some ({ c with killStarted := true, kill := true }, ⟨.freeJobs, data⟩)
  | .freeJobs, data =>
    some ({ c with
      freed := c.freed ++ c.joblist ++ c.workJobData.toList, joblist := [], workJobData := none },
      ⟨.done, data⟩)
  | .done, _ => none

/-- `adding` are the calls of `add_job` between their first checks and their locked section, `checking` those
that found the queue too long; `accepted` are the jobs for which `add_job` returned 1, in the order of the
locked sections. -/
structure State where
  client : Client
  workers : List Worker
  calls : ℕ
  adding : List Job
  checking : ℕ
  accepted : List Job
  deriving DecidableEq

inductive Step
  /-- the first checks of `add_job` -/
  | call (action : Actions)
  /-- the locked section of a call; `created` tells whether a thread can be created -/
  | enqueue (k : ℕ) (created : Bool)
  /-- the locked section of `cacheex_check_queue_length` -/
  | checkThread
  /-- another thread sets `kill` -/
  | kill
  | worker (i : ℕ) (o : Outcome)

/-- The first part of `add_job`. -/
def addJobCall (s : State) (action : Actions) : State :=
  if s.client.kill then s
  else if action = .cachePushOut ∧ s.client.joblist.length > 2000 then
    { s with checking := s.checking + 1 }
  else { s with calls := s.calls + 1, adding := s.adding ++ [⟨s.calls, action⟩] }

/-- The locked section of `add_job`. When no thread can be created, the job is freed. -/
def addJobLocked (s : State) (j : Job) (created : Bool) : State :=
  let s := { s with accepted := s.accepted ++ [j] }
  if s.client.kill = false ∧ s.client.threadActive ≠ 0 then
    { s with client.joblist := s.client.joblist ++ [j] }
  else if created then
    { s with client.threadActive := 1, workers := s.workers ++ [⟨.start, some (.job j)⟩] }
  else
    { s with client.threadActive := 1, client.freed := s.client.freed ++ [j] }

/-- `pthread_detach` does not find the thread exactly if all threads of the client have ended. -/
def checkThread (s : State) : State :=
  let s := { s with checking := s.checking - 1 }
  if s.client.kill = false ∧ s.client.threadActive ≠ 0 ∧ s.workers.all (·.pc = .done) then
    { s with client.threadActive := 0 }
  else s

def next (s : State) : Step → Option State
  | .call action => some (addJobCall s action)
  | .enqueue k created =>
    (s.adding[k]?).map fun j => addJobLocked { s with adding := s.adding.eraseIdx k } j created
  | .checkThread => if 0 < s.checking then some (checkThread s) else none
  | .kill => some { s with client.kill := true }
  | .worker i o =>
    (s.workers[i]?).bind fun w =>
      (workerStep s.client w o).map fun (c, w) => { s with client := c, workers := s.workers.set i w }

/-- A client without a worker and without jobs. -/
def fresh (reader : Bool) : State :=
  ⟨⟨reader, false, false, 0, [], none, [], []⟩, [], 0, [], 0, []⟩

def system : System State Step where
  init s := ∃ reader, s = fresh reader
  next := next

/-- The jobs in the hands of workers. -/
def State.held (s : State) : List Job := s.workers.filterMap Worker.job

/-- At most one worker runs jobs; every job that `add_job` accepted is freed, in the hands of a worker that has
not ended, or queued, once altogether, and in the queue only while some worker has not ended; and jobs are
run in the order of their acceptance, each at most once. -/
structure Good (s : State) : Prop where
  oneRuns : s.workers.countP Worker.runs ≤ 1
  distinct : s.accepted.Nodup
  accounted : (s.client.freed ++ s.held ++ s.client.joblist).Perm s.accepted
  heldAlive : ∀ w ∈ s.workers, w.pc = .done → w.job = none
  queuedAlive : s.client.joblist ≠ [] → ∃ w ∈ s.workers, w.pc ≠ .done
  inOrder : s.client.ran.Sublist s.accepted

/-- The branches that go wrong are not taken: no thread creation fails, no call of `add_job` finds in its
locked section that the client was killed while a worker still runs, and no exiting worker makes its last
assignment of `thread_active` after another worker was started. -/
def Sound (s : State) : Step → Prop
  | .enqueue _ created =>
    created = true ∧ ¬ (s.client.kill = true ∧ ∃ w ∈ s.workers, w.runs = true)
  | .worker i _ =>
    ∀ w, s.workers[i]? = some w → w.pc = .closing → ∀ v ∈ s.workers, v.runs = false
  | _ => True

instance (s : State) (a : Step) : Decidable (Sound s a) :=
  match a with
  | .call _ => inferInstanceAs (Decidable True)
  | .enqueue _ created => inferInstanceAs (Decidable (created = true ∧ ¬ (_ ∧ _)))
  | .checkThread => inferInstanceAs (Decidable True)
  | .kill => inferInstanceAs (Decidable True)
  | .worker i _ => inferInstanceAs
      (Decidable (∀ w, s.workers[i]? = some w → w.pc = .closing → ∀ v ∈ s.workers, v.runs = false))

/-- A worker on its way to the test of `kill`. -/
def Pc.early : Pc → Bool
  | .start | .outer | .inner | .check | .killing => true
  | _ => false

/-- A worker that has seen `kill`. -/
def Pc.kills : Pc → Bool
  | .killing | .killed | .freeing | .freeJobs => true
  | _ => false

/-- A worker that has given up a killed client and still has to free what is left. -/
def Pc.ends : Pc → Bool
  | .killed | .freeing | .freeJobs => true
  | _ => false

/-- Without a job where the code has none, and with a job or an event where it uses one. -/
def Worker.Fits (w : Worker) : Prop :=
  match w.pc with
  | .start | .ready | .running | .finished => w.data ≠ none
  | .outer | .inner | .check | .killing | .killed => True
  | _ => w.data = none

/-- The kinds of steps of a worker. -/
inductive Effect (c : Client) (w : Worker) : Client → Worker → Prop
  | move {a : ℕ} {k : Bool} {w' : Worker} (hruns : w.runs = true) (hruns' : w'.runs = true)
      (hfits : w'.Fits) (hjob : w'.job = w.job) (ha : a ≠ 0) (hk : c.kill = true → k = true)
      (hkills : w'.pc.kills = true → k = true)
      (hearly : w.pc.early = true → c.kill = true → w'.pc.early = true)
      (hready : w'.pc = .ready → w.job = none ∨ c.kill = false)
      (hrunning : w.pc = .running → w'.pc = .finished ∨ (k = true ∧ w'.pc = .inner))
      (hfinished : w.pc ≠ .finished) :
      Effect c w { c with threadActive := a, kill := k } w'
  | take {j : Job} {rest : List Job} (hpc : w.pc = .fetch) (hdata : w.data = none)
      (hlist : c.joblist = j :: rest) :
      Effect c w { c with joblist := rest } ⟨.ready, some (.job j)⟩
  | begin {j : Job} (hpc : w.pc = .ready) (hdata : w.data = some (.job j)) :
      Effect c w { c with ran := c.ran ++ [j], workJobData := some j } ⟨.running, some (.job j)⟩
  | free {pc : Pc} (hpc : w.pc = .ready ∨ w.pc = .finished) (hpc' : pc = .inner ∨ pc = .leaving) :
      Effect c w (c.freeJobData w.data) ⟨pc, none⟩
  | leave (hpc : w.pc = .leaving) (hdata : w.data = none) (hlist : c.joblist = []) :
      Effect c w { c with threadActive := 0 } ⟨.closing, none⟩
  | close (hpc : w.pc = .closing) (hdata : w.data = none) :
      Effect c w { c with threadActive := 0 } ⟨.done, none⟩
  | die (hpc : w.pc = .killing) : Effect c w { c with threadActive := 0 } ⟨.killed, w.data⟩
  | release (hpc : w.pc = .killed) : Effect c w (c.freeJobData w.data) ⟨.freeing, none⟩
  | give (hpc : w.pc = .freeing) (hdata : w.data = none) (hstarted : c.killStarted = true) :
      Effect c w c ⟨.done, none⟩
  | claim (hpc : w.pc = .freeing) (hdata : w.data = none) (hstarted : c.killStarted = false) :
      Effect c w { c with killStarted := true, kill := true } ⟨.freeJobs, none⟩
  | freeJobs (hpc : w.pc = .freeJobs) (hdata : w.data = none) :
      Effect c w
        { c with
          freed := c.freed ++ c.joblist ++ c.workJobData.toList, joblist := [], workJobData := none }
        ⟨.done, none⟩

section Effect

variable {c c' : Client} {w w' : Worker} {o : Outcome}

private theorem move_same {w' : Worker} (hruns : w.runs = true) (hactive : c.threadActive ≠ 0)
    (hruns' : w'.runs = true) (hfits : w'.Fits) (hjob : w'.job = w.job)
    (hkills : w'.pc.kills = true → c.kill = true)
    (hearly : w.pc.early = true → c.kill = true → w'.pc.early = true)
    (hready : w'.pc = .ready → w.job = none ∨ c.kill = false) (hrunning : w.pc ≠ .running)
    (hfinished : w.pc ≠ .finished) : Effect c w c w' :=
  .move hruns hruns' hfits hjob hactive id hkills hearly hready (fun h => absurd h hrunning) hfinished

/-- A worker that runs finds `thread_active` set. -/
theorem workerStep_effect (hfits : w.Fits) (hactive : w.runs = true → c.threadActive ≠ 0)
    (h : workerStep c w o = some (c', w')) : Effect c w c' w' := by
  obtain ⟨pc, data⟩ := w
  cases pc with
  | start =>
    cases h
    exact .move rfl rfl trivial rfl Nat.one_ne_zero id nofun (fun _ _ => rfl)
      nofun nofun nofun
  | outer =>
    have ha := hactive rfl
    simp only [workerStep, if_pos ha] at h
    cases h
    exact move_same rfl ha rfl trivial rfl nofun (fun _ _ => rfl)
      nofun nofun nofun
  | inner =>
    have ha := hactive rfl
    simp only [workerStep, if_pos ha] at h
    cases h
    exact move_same rfl ha rfl trivial rfl nofun (fun _ _ => rfl)
      nofun nofun nofun
  | check =>
    have ha := hactive rfl
    simp only [workerStep] at h
    cases h
    by_cases hk : c.kill = true
    · simp only [if_pos hk]
      exact move_same rfl ha rfl trivial rfl (fun _ => hk) (fun _ _ => rfl) nofun
        nofun nofun
    · simp only [if_neg hk]
      by_cases hd : data = none
      · simp only [if_pos hd]
        exact move_same rfl ha rfl hd rfl nofun (fun _ h => absurd h hk)
          nofun nofun nofun
      · simp only [if_neg hd]
        exact move_same rfl ha rfl hd rfl nofun (fun _ h => absurd h hk)
          (fun _ => Or.inr (by simpa using hk)) nofun nofun
  | killing =>
    cases h
    exact .die rfl
  | fetch =>
    have hd : data = none := hfits
    have ha := hactive rfl
    subst hd
    cases hlist : c.joblist with
    | nil =>
      simp only [workerStep, hlist] at h
      cases h
      exact move_same rfl ha rfl rfl rfl nofun nofun
        nofun nofun nofun
    | cons j rest =>
      simp only [workerStep, hlist] at h
      cases h
      exact .take rfl rfl hlist
  | idle =>
    have hd : data = none := hfits
    have ha := hactive rfl
    subst hd
    simp only [workerStep] at h
    split_ifs at h
    · cases h
      exact .move rfl rfl rfl rfl (by decide) id nofun nofun
        nofun nofun nofun
    · cases h
      exact move_same rfl ha rfl rfl rfl nofun nofun
        nofun nofun nofun
  | poll =>
    have hd : data = none := hfits
    subst hd
    cases h
    exact .move rfl rfl rfl rfl Nat.one_ne_zero id nofun nofun
      nofun nofun nofun
  | polled =>
    have hd : data = none := hfits
    have ha := hactive rfl
    subst hd
    simp only [workerStep] at h
    split_ifs at h
    · cases h
      exact .move rfl rfl (by simp [Worker.Fits]) rfl ha (fun h => by simp [h]) nofun
        nofun (fun _ => Or.inl rfl) nofun nofun
    · cases h
      exact move_same rfl ha rfl trivial rfl nofun nofun
        nofun nofun nofun
  | ready =>
    have ha := hactive rfl
    match data with
    | none => exact absurd rfl hfits
    | some .event =>
      cases h
      exact move_same rfl ha rfl hfits rfl nofun nofun
        nofun nofun nofun
    | some (.job j) =>
      simp only [workerStep] at h
      split_ifs at h
      · cases h
        exact .free (Or.inl rfl) (Or.inr rfl)
      · cases h
        exact .free (Or.inl rfl) (Or.inl rfl)
      · cases h
        exact .begin rfl rfl
  | running =>
    have ha := hactive rfl
    simp only [workerStep] at h
    cases h
    by_cases hagain : o.kills = true ∧ o.again = true ∧ data.any Data.mayContinue = true
    · simp only [if_pos hagain]
      exact .move rfl rfl trivial rfl ha (fun h => by simp [h]) nofun
        nofun nofun (fun _ => Or.inr ⟨by simp [hagain.1], rfl⟩)
        nofun
    · simp only [if_neg hagain]
      exact .move rfl rfl hfits rfl ha (fun h => by simp [h]) nofun
        nofun nofun (fun _ => Or.inl rfl) nofun
  | finished =>
    cases h
    exact .free (Or.inr rfl) (Or.inl rfl)
  | leaving =>
    have hd : data = none := hfits
    have ha := hactive rfl
    subst hd
    simp only [workerStep] at h
    split_ifs at h with hlist
    · cases h
      exact move_same rfl ha rfl trivial rfl nofun nofun
        nofun nofun nofun
    · cases h
      exact .leave rfl rfl (not_not.mp hlist)
  | closing =>
    have hd : data = none := hfits
    subst hd
    cases h
    exact .close rfl rfl
  | killed =>
    cases h
    exact .release rfl
  | freeing =>
    have hd : data = none := hfits
    subst hd
    simp only [workerStep] at h
    split_ifs at h with hstarted
    · cases h
      exact .give rfl rfl hstarted
    · cases h
      exact .claim rfl rfl (by simpa using hstarted)
  | freeJobs =>
    have hd : data = none := hfits
    subst hd
    cases h
    exact .freeJobs rfl rfl
  | done => cases h

end Effect

end NCam.Work
