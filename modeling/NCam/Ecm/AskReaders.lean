import Mathlib.Tactic.SplitIfs
import NCam.Ecm.Answer

/-! What `request_cw_from_readers` does to a request: its stage, and whom it asks. -/
namespace NCam.Ecm.Answer

/-- Marks the readers of `f` as asked. -/
def EcmAnswer.sendIf (f : EcmAnswer → Bool) (ea : EcmAnswer) : EcmAnswer :=
  if f ea then ea.send else ea

section SendIf

variable (f : EcmAnswer → Bool) (ea : EcmAnswer)

@[simp] theorem sendIf_reader : (ea.sendIf f).reader = ea.reader := by
  unfold EcmAnswer.sendIf
  split_ifs <;> rfl

@[simp] theorem sendIf_rc : (ea.sendIf f).rc = ea.rc := by
  unfold EcmAnswer.sendIf
  split_ifs <;> rfl

@[simp] theorem sendIf_active :
    (ea.sendIf f).status.readerActive = ea.status.readerActive := by
  unfold EcmAnswer.sendIf
  split_ifs <;> rfl

@[simp] theorem sendIf_fallback :
    (ea.sendIf f).status.readerFallback = ea.status.readerFallback := by
  unfold EcmAnswer.sendIf
  split_ifs <;> rfl

@[simp] theorem sendIf_local : (ea.sendIf f).status.readerLocal = ea.status.readerLocal := by
  unfold EcmAnswer.sendIf
  split_ifs <;> rfl

@[simp] theorem sendIf_cacheex :
    (ea.sendIf f).status.readerCacheex = ea.status.readerCacheex := by
  unfold EcmAnswer.sendIf
  split_ifs <;> rfl

@[simp] theorem sendIf_answered :
    (ea.sendIf f).status.requestAnswered = ea.status.requestAnswered := by
  unfold EcmAnswer.sendIf
  split_ifs <;> rfl

@[simp] theorem sendIf_sent :
    (ea.sendIf f).status.requestSent = (f ea || ea.status.requestSent) := by
  unfold EcmAnswer.sendIf
  split_ifs with h <;> simp [h, EcmAnswer.send]

/-- Asking twice is asking once. -/
theorem sendIf_sendIf (g : EcmAnswer → Bool) :
    (ea.sendIf f).sendIf g = ea.sendIf fun ea => f ea || g (ea.sendIf f) := by
  by_cases hf : f ea
  · have hsent : ∀ b : Bool, (if b then ea.send.send else ea.send) = ea.send := by
      intro b
      split_ifs <;> rfl
    simp [EcmAnswer.sendIf, hf, hsent]
  · simp [EcmAnswer.sendIf, hf]

end SendIf

/-- `er'` is `er` with a later stage and more readers asked: active ones, and before stage 2 cacheex
ones only. -/
structure Asked (er er' : EcmRequest) : Prop where
  same : er' =
    { er with
      stage := er'.stage
      matchingRdr := er'.matchingRdr
      readerRequested := er'.readerRequested }
  readers : ∃ f : EcmAnswer → Bool, er'.matchingRdr = er.matchingRdr.map (·.sendIf f) ∧
    ∀ ea, f ea → ea.status.readerActive ∧ (er'.stage ≤ 1 → ea.status.readerCacheex)
  stage : er.stage ≤ er'.stage

namespace Asked

theorem refl (er : EcmRequest) : Asked er er := by
  have hid : EcmAnswer.sendIf (fun _ => false) = id := rfl
  constructor
  · rfl
  · exact ⟨fun _ => false, by simp [hid], nofun⟩
  · exact Nat.le_refl _

theorem trans {a b c : EcmRequest} (hab : Asked a b) (hbc : Asked b c) : Asked a c := by
  obtain ⟨f, hf, hfa⟩ := hab.readers
  obtain ⟨g, hg, hga⟩ := hbc.readers
  constructor
  · have hsame := hbc.same
    rw [hab.same] at hsame
    exact hsame
  · refine ⟨fun ea => f ea || g (ea.sendIf f), ?_, ?_⟩
    · rw [hg, hf, List.map_map]
      apply List.map_congr_left
      intro ea _
      exact sendIf_sendIf f ea g
    · intro ea hea
      rcases Bool.or_eq_true_iff.mp hea with h | h
      · exact ⟨(hfa ea h).1, fun hstage => (hfa ea h).2 (Nat.le_trans hbc.stage hstage)⟩
      · simpa using hga _ h
  · exact Nat.le_trans hab.stage hbc.stage

variable {er er' : EcmRequest} (h : Asked er er')

include h

theorem rc : er'.rc = er.rc := by
  rw [h.same]

theorem expired : er'.cacheexWaitTimeExpired = er.cacheexWaitTimeExpired := by
  rw [h.same]

/-- Who is in the new list, and who is still in it. -/
theorem mem {ea' : EcmAnswer} (hea : ea' ∈ er'.matchingRdr) :
    ∃ ea ∈ er.matchingRdr, ∃ f, ea' = ea.sendIf f := by
  obtain ⟨f, hf, -⟩ := h.readers
  rw [hf] at hea
  obtain ⟨ea, hmem, rfl⟩ := List.mem_map.mp hea
  exact ⟨ea, hmem, f, rfl⟩

theorem mem_of_mem {ea : EcmAnswer} (hea : ea ∈ er.matchingRdr) :
    ∃ f, ea.sendIf f ∈ er'.matchingRdr := by
  obtain ⟨f, hf, -⟩ := h.readers
  exact ⟨f, hf ▸ List.mem_map_of_mem hea⟩

end Asked

theorem nextStage_cases (preferlocalcards stage : ℕ) :
    (nextStage preferlocalcards stage = stage + 1 ∧
        (stage = 0 → preferlocalcards ≠ 2) ∧ (stage = 1 → preferlocalcards ≠ 0)) ∨
      (nextStage preferlocalcards stage = stage + 2 ∧
        (stage = 0 ∧ preferlocalcards = 2 ∨ stage = 1 ∧ preferlocalcards = 0)) := by
  unfold nextStage
  dsimp only
  split_ifs <;> omega

private theorem asked_active {stage : ℕ} {status : Status} (h : status.asked stage) :
    status.readerActive := by
  unfold Status.asked at h
  simp only [Bool.and_eq_true] at h
  exact h.1.2

theorem asked_unsent {stage : ℕ} {status : Status} (h : status.asked stage) :
    status.requestSent = false := by
  unfold Status.asked at h
  simp only [Bool.and_eq_true, Bool.not_eq_true'] at h
  exact h.1.1

/-- One round of the loop. -/
theorem askReaders_asked (er : EcmRequest) (stage : ℕ) (h : er.stage < stage) :
    Asked er (askReaders { er with stage := stage }) := by
  constructor
  · rfl
  · refine ⟨fun ea => ea.status.asked stage, rfl, ?_⟩
    intro ea hea
    refine ⟨asked_active hea, ?_⟩
    intro hone
    change stage ≤ 1 at hone
    obtain rfl : stage = 1 := by omega
    simp only [Status.asked, Bool.and_eq_true] at hea
    exact hea.2
  · exact Nat.le_of_lt h

/-- A reader that is asked in a stage and can answer. -/
def AskedIn (env : Env) (er : EcmRequest) (stage : ℕ) : Prop :=
  ∃ ea ∈ er.matchingRdr, ea.status.asked stage ∧ env.connected ea.reader

/-- Whoever is asked in a later stage was not asked before. -/
theorem AskedIn.of_asked {env : Env} {er er' : EcmRequest} {stage : ℕ} (h : Asked er er')
    (hin : AskedIn env er' stage) : AskedIn env er stage := by
  obtain ⟨ea', hmem, hasked, hconn⟩ := hin
  obtain ⟨ea, hea, f, rfl⟩ := h.mem hmem
  have hunsent := asked_unsent hasked
  rw [sendIf_sent, Bool.or_eq_false_iff] at hunsent
  have hid : ea.sendIf f = ea := by
    simp [EcmAnswer.sendIf, hunsent.1]
  rw [hid] at hasked hconn
  exact ⟨ea, hea, hasked, hconn⟩

section Loop

variable (env : Env)

private theorem sentAny_iff (er : EcmRequest) : sentAny env er ↔ AskedIn env er er.stage := by
  simp [sentAny, AskedIn]

private theorem requestLoop_asked (stopStage fuel : ℕ) (er : EcmRequest) :
    Asked er (requestLoop env stopStage fuel er) := by
  induction fuel generalizing er with
  | zero => exact .refl er
  | succ fuel ih =>
    have hnext : er.stage < nextStage er.preferlocalcards er.stage := by
      rcases nextStage_cases er.preferlocalcards er.stage with h | h <;> omega
    have hround := askReaders_asked er _ hnext
    unfold requestLoop
    dsimp only
    split_ifs
    · exact .refl er
    · exact hround
    · exact hround.trans (ih _)

theorem requestCwFromReaders_asked (stopStage : ℕ) (er : EcmRequest) :
    Asked er (requestCwFromReaders env stopStage er) :=
  requestLoop_asked env stopStage _ er

/-- What a request without a stop gets to: a stage with a reader to wait for, or the last one. -/
structure Reached (er er' : EcmRequest) : Prop where
  later : er.stage < er'.stage
  last : er'.stage ≤ 4
  waits : er'.stage < 4 → AskedIn env er er'.stage
  one : er'.stage = 1 → er.preferlocalcards ≠ 2

private theorem requestLoop_reached (fuel : ℕ) (er : EcmRequest) (hfuel : 4 ≤ er.stage + fuel)
    (hlt : er.stage < 4) : Reached env er (requestLoop env 0 fuel er) := by
  induction fuel generalizing er with
  | zero => omega
  | succ fuel ih =>
    have hnext := nextStage_cases er.preferlocalcards er.stage
    have hround := askReaders_asked er (nextStage er.preferlocalcards er.stage) (by omega)
    unfold requestLoop
    rw [if_neg (by omega : ¬ ((0 : ℕ) ≠ 0 ∧ 0 ≤ er.stage))]
    dsimp only
    by_cases hstop : sentAny env { er with stage := nextStage er.preferlocalcards er.stage } ∨
        4 ≤ nextStage er.preferlocalcards er.stage
    · rw [if_pos hstop]
      constructor
      · change er.stage < nextStage er.preferlocalcards er.stage
        omega
      · change nextStage er.preferlocalcards er.stage ≤ 4
        omega
      · intro hlast
        rcases hstop with hsent | hstop
        · exact (sentAny_iff env _).mp hsent
        · exact absurd hlast (Nat.not_lt.mpr hstop)
      · intro hone
        change nextStage er.preferlocalcards er.stage = 1 at hone
        rcases hnext with ⟨h, hzero, -⟩ | ⟨h, -⟩
        · exact hzero (by omega)
        · omega
    · rw [if_neg hstop]
      have hstage : ¬ 4 ≤ nextStage er.preferlocalcards er.stage := fun h => hstop (.inr h)
      let er₁ := askReaders { er with stage := nextStage er.preferlocalcards er.stage }
      have her₁ : er₁.stage = nextStage er.preferlocalcards er.stage := rfl
      have hrest : Reached env er₁ (requestLoop env 0 fuel er₁) := ih er₁ (by omega) (by omega)
      have hlater := hrest.later
      constructor
      · exact Nat.lt_trans (by omega) hlater
      · exact hrest.last
      · intro hlast
        exact (hrest.waits hlast).of_asked hround
      · intro hone
        have hearly : er₁.stage < 1 := hone ▸ hlater
        omega

theorem requestCwFromReaders_reached (er : EcmRequest) (hlt : er.stage < 4) :
    Reached env er (requestCwFromReaders env 0 er) :=
  requestLoop_reached env _ er (by omega) hlt

/-- With the stop after stage 1 only the cacheex readers are asked. -/
theorem requestCwFromReaders_one (er : EcmRequest) (hstage : er.stage = 0)
    (hprefer : er.preferlocalcards ≠ 2) : (requestCwFromReaders env 1 er).stage = 1 := by
  have hnext : nextStage er.preferlocalcards er.stage = 1 := by
    rcases nextStage_cases er.preferlocalcards er.stage with h | h <;> omega
  have hloop : ∀ er : EcmRequest, er.stage = 1 → requestLoop env 1 3 er = er := by
    intro er h
    unfold requestLoop
    rw [if_pos (by omega)]
  unfold requestCwFromReaders
  rw [hstage]
  change (requestLoop env 1 4 er).stage = 1
  unfold requestLoop
  rw [if_neg (by omega)]
  dsimp only
  rw [hnext]
  by_cases hsent : sentAny env { er with stage := 1 } ∨ 4 ≤ 1
  · rw [if_pos hsent]
    rfl
  · rw [if_neg hsent, hloop _ rfl]
    rfl

theorem fallbackLoop_asked (fuel : ℕ) (er : EcmRequest) : Asked er (fallbackLoop env fuel er) := by
  induction fuel generalizing er with
  | zero => exact .refl er
  | succ fuel ih =>
    unfold fallbackLoop
    split_ifs
    · exact (requestCwFromReaders_asked env 0 er).trans (ih _)
    · exact .refl er

/-- The loop of `fallback_timeout` ends in the last stage. -/
theorem fallbackLoop_stage (fuel : ℕ) (er : EcmRequest) (hfuel : 4 ≤ er.stage + fuel)
    (hle : er.stage ≤ 4) : (fallbackLoop env fuel er).stage = 4 := by
  induction fuel generalizing er with
  | zero =>
    unfold fallbackLoop
    omega
  | succ fuel ih =>
    unfold fallbackLoop
    by_cases hlt : er.stage < 4
    · rw [if_pos hlt]
      have hreached := requestCwFromReaders_reached env er hlt
      have hlater := hreached.later
      exact ih _ (by omega) hreached.last
    · rw [if_neg hlt]
      omega

end Loop

end NCam.Ecm.Answer
