import NCam.Ecm.AskReaders
import NCam.Lib.Transition
import Mathlib.Algebra.Order.Ring.Int

/-! The calls of `write_ecm_request` over the life of a request, and what `reader_requested` says of them. -/
namespace NCam.Ecm.Answer

open NCam.Lib

/-- A request with the readers that `write_ecm_request` was called for. -/
structure Sends where
  er : EcmRequest
  writes : List ℕ

/-- What the walk through the matching readers changes besides their flags; `reader_requested` has 16 bits. -/
structure Walk where
  readerRequested : ℕ
  writes : List ℕ
  sent : Bool

/-- The walk through the matching readers in one stage. -/
def visitReaders (env : Env) (stage : ℕ) : List EcmAnswer → Walk → List EcmAnswer × Walk
  | [], w => ([], w)
  | ea :: eas, w =>
    if ea.status.asked stage then
      let r := visitReaders env stage eas
        { readerRequested := (w.readerRequested + 1) % 2 ^ 16
          writes := w.writes ++ [ea.reader]
          sent := w.sent || env.connected ea.reader }
      (ea.send :: r.1, r.2)
    else
      let r := visitReaders env stage eas w
      (ea :: r.1, r.2)

namespace Sends

/-- One round of the loop of `request_cw_from_readers`, with whether a reader was asked that can answer. -/
def ask (env : Env) (stage : ℕ) (s : Sends) : Sends × Bool :=
  let r := visitReaders env stage s.er.matchingRdr ⟨s.er.readerRequested, s.writes, false⟩
  ({ er := { s.er with stage := stage, matchingRdr := r.1, readerRequested := r.2.readerRequested }
     writes := r.2.writes }, r.2.sent)

def requestLoop (env : Env) (stopStage : ℕ) : ℕ → Sends → Option Sends
  | 0, _ => none
  | fuel + 1, s =>
    if stopStage ≠ 0 ∧ stopStage ≤ s.er.stage then some s
    else
      let r := s.ask env (nextStage s.er.preferlocalcards s.er.stage)
      if r.2 ∨ 4 ≤ r.1.er.stage then some r.1 else requestLoop env stopStage fuel r.1

/-- Nothing if the loop takes more than `fuel` rounds. -/
def requestCwFromReaders (env : Env) (stopStage fuel : ℕ) (s : Sends) : Option Sends :=
  if 4 ≤ s.er.stage then some s else requestLoop env stopStage fuel s

/-- The loop of `fallback_timeout`; the readers' states may change from one round to the next. -/
def fallbackLoop (env : ℕ → Env) : ℕ → Sends → Option Sends
  | 0, _ => none
  | fuel + 1, s =>
    if s.er.stage < 4 then (s.requestCwFromReaders (env fuel) 0 4).bind (fallbackLoop env fuel) else some s

def fallbackTimeout (env : ℕ → Env) (fuel : ℕ) (s : Sends) : Option Sends :=
  if E_UNHANDLED ≤ s.er.rc ∧ s.er.stage < 4 then fallbackLoop env fuel s else some s

/-- Another job sets the fields that are not about asking. -/
def other (er : EcmRequest) (f : EcmAnswer → EcmAnswer) (s : Sends) : Sends :=
  { s with
    er :=
      { er with
        stage := s.er.stage
        readerRequested := s.er.readerRequested
        matchingRdr := s.er.matchingRdr.map fun ea =>
          { f ea with
            reader := ea.reader
            status := { ea.status with requestAnswered := (f ea).status.requestAnswered } } } }

end Sends

/-- What happens to a request while it is open. -/
inductive Event
  | requestCwFromReaders (env : Env) (stopStage : ℕ)
  | fallbackTimeout (env : ℕ → Env)
  | writeEcmAnswer (reader : ℕ) (given : Given)
  | other (er : EcmRequest) (f : EcmAnswer → EcmAnswer)

/-- The life of a request; a loop that took more rounds than there are stages would be no step. -/
def sending (s₀ : Sends) : System Sends Event where
  init s := s = s₀
  next s event :=
    match event with
    | .requestCwFromReaders env stopStage => s.requestCwFromReaders env stopStage 4
    | .fallbackTimeout env => s.fallbackTimeout env 5
    | .writeEcmAnswer reader given => some { s with er := writeEcmAnswer reader given s.er }
    | .other er f => some (s.other er f)

/-- A request as `get_cw` starts it: no reader is asked yet, and no two answers have the same reader. -/
structure Unasked (s : Sends) : Prop where
  stage : s.er.stage = 0
  open_ : E_UNHANDLED ≤ s.er.rc
  distinct : (s.er.matchingRdr.map (·.reader)).Nodup
  unsent : ∀ ea ∈ s.er.matchingRdr, ea.status.requestSent = false
  requested : s.er.readerRequested = 0
  writes : s.writes = []

/-- The readers flagged `REQUEST_SENT`. -/
def requestSent (s : Sends) : ℕ := s.er.matchingRdr.countP (·.status.requestSent)

/-- Each reader is asked at most once, which its flag and `reader_requested` tell; from stage 3 on every active
reader that is no fallback was asked and from stage 4 on every active one; both loops end. -/
structure AskedOnce (s : Sends) : Prop where
  once : ∀ ea ∈ s.er.matchingRdr, s.writes.count ea.reader = if ea.status.requestSent then 1 else 0
  counted : s.er.readerRequested = requestSent s
  normal : 3 ≤ s.er.stage → ∀ ea ∈ s.er.matchingRdr, ea.status.readerActive → ¬ ea.status.readerFallback →
    ea.status.requestSent
  all : 4 ≤ s.er.stage → ∀ ea ∈ s.er.matchingRdr, ea.status.readerActive → ea.status.requestSent
  returns : ∀ env stopStage, ∃ t, s.requestCwFromReaders env stopStage 4 = some t
  ends : ∀ env, ∃ t, s.fallbackTimeout env 5 = some t ∧ (E_UNHANDLED ≤ s.er.rc → 4 ≤ t.er.stage)

section Visit

variable (env : Env) (stage : ℕ)

private theorem visitReaders_list (l : List EcmAnswer) (w : Walk) :
    (visitReaders env stage l w).1 = l.map (·.sendIf fun ea => ea.status.asked stage) := by
  induction l generalizing w with
  | nil => rfl
  | cons ea l ih =>
    unfold visitReaders
    by_cases hasked : ea.status.asked stage
    · simp [hasked, ih, EcmAnswer.sendIf]
    · simp [hasked, ih, EcmAnswer.sendIf]

private theorem visitReaders_writes (l : List EcmAnswer) (w : Walk) :
    (visitReaders env stage l w).2.writes =
      w.writes ++ (l.filter fun ea => ea.status.asked stage).map (·.reader) := by
  induction l generalizing w with
  | nil => simp [visitReaders]
  | cons ea l ih =>
    unfold visitReaders
    by_cases hasked : ea.status.asked stage
    · simp [hasked, ih]
    · simp [hasked, ih]

private theorem visitReaders_requested (l : List EcmAnswer) (w : Walk) (n : ℕ)
    (hw : w.readerRequested = n % 2 ^ 16) : (visitReaders env stage l w).2.readerRequested =
      (n + l.countP fun ea => ea.status.asked stage) % 2 ^ 16 := by
  induction l generalizing w n with
  | nil => exact hw
  | cons ea l ih =>
    unfold visitReaders
    by_cases hasked : ea.status.asked stage
    · have hnext : (w.readerRequested + 1) % 2 ^ 16 = (n + 1) % 2 ^ 16 := by
        rw [hw, Nat.mod_add_mod]
      simp only [hasked, if_true, List.countP_cons_of_pos]
      rw [ih _ (n + 1) hnext, Nat.add_right_comm, Nat.add_assoc]
    · simpa [hasked] using ih w n hw

private theorem visitReaders_sent (l : List EcmAnswer) (w : Walk) :
    (visitReaders env stage l w).2.sent =
      (w.sent || l.any fun ea => ea.status.asked stage && env.connected ea.reader) := by
  induction l generalizing w with
  | nil => simp [visitReaders]
  | cons ea l ih =>
    unfold visitReaders
    by_cases hasked : ea.status.asked stage
    · simp [hasked, ih, Bool.or_assoc]
    · simp [hasked, ih]

end Visit

/-- The round asks whom `askReaders` asks. -/
private theorem ask_er (env : Env) (stage : ℕ) (s : Sends) : (s.ask env stage).1.er =
    { askReaders { s.er with stage := stage } with readerRequested := (s.ask env stage).1.er.readerRequested } := by
  simp only [Sends.ask, askReaders, visitReaders_list]
  rfl

private theorem ask_sent (env : Env) (stage : ℕ) (s : Sends) :
    (s.ask env stage).2 = sentAny env { s.er with stage := stage } := by
  simp [Sends.ask, visitReaders_sent, sentAny]

private theorem lt_nextStage (preferlocalcards stage : ℕ) : stage < nextStage preferlocalcards stage := by
  rcases nextStage_cases preferlocalcards stage with h | h <;> omega

/-- The loop returns after at most as many rounds as there are stages left, with what `requestLoop` makes of the
request. -/
private theorem requestLoop_er (env : Env) (stopStage fuel fuel' : ℕ) (s : Sends) (er : EcmRequest)
    (hsame : s.er = { er with readerRequested := s.er.readerRequested }) (hlt : er.stage < 4)
    (hfuel : 4 ≤ er.stage + fuel) (hfuel' : 4 ≤ er.stage + fuel') : ∃ t,
    s.requestLoop env stopStage fuel = some t ∧
      t.er = { requestLoop env stopStage fuel' er with readerRequested := t.er.readerRequested } := by
  induction fuel generalizing s er fuel' with
  | zero => omega
  | succ fuel ih =>
    cases fuel' with
    | zero => omega
    | succ fuel' =>
      have hstage : s.er.stage = er.stage := by rw [hsame]
      have hprefer : s.er.preferlocalcards = er.preferlocalcards := by rw [hsame]
      have hlater := lt_nextStage er.preferlocalcards er.stage
      unfold Sends.requestLoop requestLoop
      rw [hstage, hprefer]
      generalize nextStage er.preferlocalcards er.stage = stage at hlater
      have hround : (s.ask env stage).1.er = { askReaders { er with stage := stage } with
          readerRequested := (s.ask env stage).1.er.readerRequested } := by
        rw [ask_er, hsame]
        rfl
      have hsent : (s.ask env stage).2 = sentAny env { er with stage := stage } := by
        rw [ask_sent, hsame]
        rfl
      have hask : (s.ask env stage).1.er.stage = stage := rfl
      dsimp only
      rw [hsent, hask]
      split_ifs with hstop hdone
      · exact ⟨s, rfl, hsame⟩
      · exact ⟨_, rfl, hround⟩
      · have hlt' : stage < 4 := by
          by_contra hge
          exact hdone (.inr (Nat.not_lt.mp hge))
        exact ih fuel' _ (askReaders { er with stage := stage }) hround hlt' (by change 4 ≤ stage + fuel; omega)
          (by change 4 ≤ stage + fuel'; omega)

/-- `request_cw_from_readers` returns, with the request as `requestCwFromReaders` leaves it. -/
theorem requestCwFromReaders_er (env : Env) (stopStage : ℕ) (s : Sends) : ∃ t,
    s.requestCwFromReaders env stopStage 4 = some t ∧
      t.er = { requestCwFromReaders env stopStage s.er with readerRequested := t.er.readerRequested } := by
  unfold Sends.requestCwFromReaders requestCwFromReaders
  split_ifs with hge
  · refine ⟨s, rfl, ?_⟩
    rw [Nat.sub_eq_zero_of_le hge]
    rfl
  · exact requestLoop_er env stopStage 4 _ s s.er rfl (by omega) (by omega) (by omega)

theorem requestCwFromReaders_later (env : Env) (s : Sends) (hlt : s.er.stage < 4) : ∃ t,
    s.requestCwFromReaders env 0 4 = some t ∧ s.er.stage < t.er.stage ∧ t.er.stage ≤ 4 := by
  obtain ⟨t, ht, her⟩ := requestCwFromReaders_er env 0 s
  have hreached := requestCwFromReaders_reached env s.er hlt
  have hstage : t.er.stage = (requestCwFromReaders env 0 s.er).stage := by rw [her]
  have hlater : s.er.stage < t.er.stage := hstage ▸ hreached.later
  have hlast : t.er.stage ≤ 4 := hstage ▸ hreached.last
  exact ⟨t, ht, hlater, hlast⟩

private theorem fallbackLoop_ends (env : ℕ → Env) (fuel : ℕ) (s : Sends) (hfuel : 4 - s.er.stage < fuel) :
    ∃ t, s.fallbackLoop env fuel = some t ∧ 4 ≤ t.er.stage := by
  induction fuel generalizing s with
  | zero => omega
  | succ fuel ih =>
    unfold Sends.fallbackLoop
    by_cases hlt : s.er.stage < 4
    · rw [if_pos hlt]
      obtain ⟨t, ht, hlater, -⟩ := requestCwFromReaders_later (env fuel) s hlt
      rw [ht]
      exact ih t (by omega)
    · rw [if_neg hlt]
      exact ⟨s, rfl, Nat.not_lt.mp hlt⟩

/-- The loop of `fallback_timeout` ends in the last stage. -/
theorem fallbackTimeout_ends (env : ℕ → Env) (s : Sends) : ∃ t, s.fallbackTimeout env 5 = some t ∧
    (E_UNHANDLED ≤ s.er.rc → 4 ≤ t.er.stage) := by
  unfold Sends.fallbackTimeout
  by_cases hopen : E_UNHANDLED ≤ s.er.rc ∧ s.er.stage < 4
  · rw [if_pos hopen]
    obtain ⟨t, ht, hstage⟩ := fallbackLoop_ends env 5 s (by omega)
    exact ⟨t, ht, fun _ => hstage⟩
  · rw [if_neg hopen]
    exact ⟨s, rfl, fun hrc => by omega⟩

section List

variable {l : List EcmAnswer} {f : EcmAnswer → Bool}

/-- Who is asked is flagged besides those who were. -/
private theorem filter_sent_perm (hf : ∀ ea ∈ l, f ea → ea.status.requestSent = false) :
    (((l.map (·.sendIf f)).filter (·.status.requestSent)).map (·.reader)).Perm
      ((l.filter (·.status.requestSent)).map (·.reader) ++ (l.filter f).map (·.reader)) := by
  induction l with
  | nil => simp
  | cons ea l ih =>
    obtain ⟨hea, hl⟩ := List.forall_mem_cons.mp hf
    cases hask : f ea with
    | true =>
      have hunsent := hea hask
      simp only [List.map_cons, List.filter_cons, sendIf_sent, hask, hunsent, Bool.true_or, if_true,
        Bool.false_eq_true, if_false, sendIf_reader]
      exact ((ih hl).cons ea.reader).trans List.perm_middle.symm
    | false =>
      cases hsent : ea.status.requestSent with
      | true => simpa [hask, hsent] using ih hl
      | false => simpa [hask, hsent] using ih hl

private theorem count_reader (hnodup : (l.map (·.reader)).Nodup) {ea : EcmAnswer} (hea : ea ∈ l) :
    ((l.filter f).map (·.reader)).count ea.reader = if f ea then 1 else 0 := by
  have hsub : ((l.filter f).map (·.reader)).Nodup := hnodup.sublist ((List.filter_sublist).map _)
  split_ifs with hfea
  · exact List.count_eq_one_of_mem hsub (List.mem_map_of_mem (List.mem_filter.mpr ⟨hea, hfea⟩))
  · refine List.count_eq_zero_of_not_mem ?_
    intro hmem
    obtain ⟨ea', hea', heq⟩ := List.mem_map.mp hmem
    obtain ⟨hmem', hf'⟩ := List.mem_filter.mp hea'
    obtain rfl := List.inj_on_of_nodup_map hnodup hmem' hea heq
    exact hfea hf'

end List

/-- What every step of the life of a request with `n` active readers keeps. -/
structure Sending (n : ℕ) (s : Sends) : Prop where
  distinct : (s.er.matchingRdr.map (·.reader)).Nodup
  writes : s.writes.Perm ((s.er.matchingRdr.filter (·.status.requestSent)).map (·.reader))
  counted : s.er.readerRequested = requestSent s % 2 ^ 16
  normal : 3 ≤ s.er.stage → ∀ ea ∈ s.er.matchingRdr, ea.status.readerActive → ¬ ea.status.readerFallback →
    ea.status.requestSent
  all : 4 ≤ s.er.stage → ∀ ea ∈ s.er.matchingRdr, ea.status.readerActive → ea.status.requestSent
  bound : s.er.matchingRdr.countP (fun ea => ea.status.readerActive || ea.status.requestSent) ≤ n

namespace Sending

variable {n : ℕ} {s t : Sends}

private theorem ask (h : Sending n s) (env : Env) (hlt : s.er.stage < 4) :
    Sending n (s.ask env (nextStage s.er.preferlocalcards s.er.stage)).1 := by
  have hnext := nextStage_cases s.er.preferlocalcards s.er.stage
  generalize nextStage s.er.preferlocalcards s.er.stage = stage at hnext
  have hunsent : ∀ ea ∈ s.er.matchingRdr, ea.status.asked stage → ea.status.requestSent = false :=
    fun ea _ hasked => asked_unsent hasked
  have hlist : (s.ask env stage).1.er.matchingRdr =
      s.er.matchingRdr.map (·.sendIf fun ea => ea.status.asked stage) := visitReaders_list env stage _ _
  have hperm := filter_sent_perm hunsent
  rw [← hlist] at hperm
  have hcount : requestSent (s.ask env stage).1 =
      requestSent s + s.er.matchingRdr.countP fun ea => ea.status.asked stage := by
    have hlen := hperm.length_eq
    simpa [requestSent, List.countP_eq_length_filter] using hlen
  constructor
  · simpa [hlist, Function.comp_def] using h.distinct
  · refine List.Perm.trans ?_ hperm.symm
    change (visitReaders env stage s.er.matchingRdr _).2.writes.Perm _
    rw [visitReaders_writes]
    exact h.writes.append_right _
  · rw [hcount]
    exact visitReaders_requested env stage _ _ _ h.counted
  · intro hge ea' hea' hactive hnormal
    rw [hlist] at hea'
    obtain ⟨ea, hea, rfl⟩ := List.mem_map.mp hea'
    rw [sendIf_active] at hactive
    rw [sendIf_fallback] at hnormal
    rw [sendIf_sent]
    change 3 ≤ stage at hge
    by_cases hthree : stage = 3
    · subst hthree
      cases hsent : ea.status.requestSent with
      | true => simp
      | false => simp [Status.asked, hsent, hactive, hnormal]
    · have hsent := h.normal (by omega) ea hea hactive hnormal
      simp [hsent]
  · intro hge ea' hea' hactive
    rw [hlist] at hea'
    obtain ⟨ea, hea, rfl⟩ := List.mem_map.mp hea'
    rw [sendIf_active] at hactive
    rw [sendIf_sent]
    change 4 ≤ stage at hge
    have hthree : s.er.stage = 3 := by omega
    obtain rfl : stage = 4 := by omega
    cases hsent : ea.status.requestSent with
    | true => simp
    | false =>
      have hfallback : ea.status.readerFallback = true := by
        by_contra hnormal
        have hasked := h.normal (by omega) ea hea hactive hnormal
        rw [hsent] at hasked
        cases hasked
      simp [Status.asked, hsent, hactive, hfallback]
  · refine le_of_eq_of_le ?_ h.bound
    rw [hlist, List.countP_map]
    refine List.countP_congr fun ea _ => ?_
    have hactive : ea.status.asked stage → ea.status.readerActive := by
      intro hasked
      simp only [Status.asked, Bool.and_eq_true] at hasked
      exact hasked.1.2
    cases hact : ea.status.readerActive with
    | true => simp [hact]
    | false =>
      have hnot : ea.status.asked stage = false := by
        by_contra hasked
        rw [hactive (by simpa using hasked)] at hact
        cases hact
      simp [hact, hnot]

private theorem loop (h : Sending n s) (env : Env) (stopStage fuel : ℕ) (hlt : s.er.stage < 4)
    (ht : s.requestLoop env stopStage fuel = some t) : Sending n t := by
  induction fuel generalizing s with
  | zero => cases ht
  | succ fuel ih =>
    unfold Sends.requestLoop at ht
    dsimp only at ht
    have hround := h.ask env hlt
    split_ifs at ht with hstop hdone
    · exact Option.some.inj ht ▸ h
    · exact Option.some.inj ht ▸ hround
    · refine ih hround ?_ ht
      by_contra hge
      exact hdone (.inr (Nat.not_lt.mp hge))

/-- What a call of `request_cw_from_readers` keeps. -/
theorem request (h : Sending n s) (env : Env) (stopStage fuel : ℕ)
    (ht : s.requestCwFromReaders env stopStage fuel = some t) : Sending n t := by
  unfold Sends.requestCwFromReaders at ht
  split_ifs at ht with hge
  · exact Option.some.inj ht ▸ h
  · exact h.loop env stopStage fuel (Nat.not_le.mp hge) ht

private theorem fallbackLoop (h : Sending n s) (env : ℕ → Env) (fuel : ℕ)
    (ht : s.fallbackLoop env fuel = some t) : Sending n t := by
  induction fuel generalizing s with
  | zero => cases ht
  | succ fuel ih =>
    unfold Sends.fallbackLoop at ht
    split_ifs at ht
    · obtain ⟨u, hu, hrest⟩ := Option.bind_eq_some_iff.mp ht
      exact ih (h.request _ _ _ hu) hrest
    · exact Option.some.inj ht ▸ h

theorem fallback (h : Sending n s) (env : ℕ → Env) (fuel : ℕ) (ht : s.fallbackTimeout env fuel = some t) :
    Sending n t := by
  unfold Sends.fallbackTimeout at ht
  split_ifs at ht
  · exact h.fallbackLoop env fuel ht
  · exact Option.some.inj ht ▸ h

/-- Changes of the answers that keep the readers and whom was asked, and either keep who is active or end that. -/
private theorem map (h : Sending n s) (g : EcmAnswer → EcmAnswer) (er : EcmRequest)
    (hlist : er.matchingRdr = s.er.matchingRdr.map g) (hrequested : er.readerRequested = s.er.readerRequested)
    (hg : ∀ ea, (g ea).reader = ea.reader ∧ (g ea).status.requestSent = ea.status.requestSent)
    (hstatus : (er.stage = s.er.stage ∧ ∀ ea, (g ea).status.readerActive = ea.status.readerActive ∧
      (g ea).status.readerFallback = ea.status.readerFallback) ∨ ∀ ea, (g ea).status.readerActive = false) :
    Sending n { s with er := er } := by
  have hsent : requestSent { s with er := er } = requestSent s := by
    simp [requestSent, hlist, List.countP_map, Function.comp_def, hg]
  constructor
  · simpa [hlist, Function.comp_def, hg] using h.distinct
  · simpa [hlist, List.filter_map, Function.comp_def, hg] using h.writes
  · rw [hsent]
    exact hrequested.trans h.counted
  · intro hge ea' hea' hactive hnormal
    simp only [hlist] at hea'
    obtain ⟨ea, hea, rfl⟩ := List.mem_map.mp hea'
    rw [(hg ea).2]
    rcases hstatus with ⟨hstage, hkept⟩ | hnone
    · rw [(hkept ea).1] at hactive
      rw [(hkept ea).2] at hnormal
      exact h.normal (hstage ▸ hge) ea hea hactive hnormal
    · rw [hnone ea] at hactive
      cases hactive
  · intro hge ea' hea' hactive
    simp only [hlist] at hea'
    obtain ⟨ea, hea, rfl⟩ := List.mem_map.mp hea'
    rw [(hg ea).2]
    rcases hstatus with ⟨hstage, hkept⟩ | hnone
    · rw [(hkept ea).1] at hactive
      exact h.all (hstage ▸ hge) ea hea hactive
    · rw [hnone ea] at hactive
      cases hactive
  · refine Nat.le_trans ?_ h.bound
    simp only [hlist, List.countP_map]
    refine List.countP_mono_left fun ea _ hea => ?_
    rcases hstatus with ⟨-, hkept⟩ | hnone
    · simpa [hg, hkept] using hea
    · have hasked : ea.status.requestSent = true := by simpa [hg, hnone] using hea
      simp [hasked]

private theorem update (h : Sending n s) (reader : ℕ) (answered : Bool) (rc rcEx : ℕ) (cw : Option Cw) :
    Sending n { s with er := s.er.update reader (·.store answered rc rcEx cw) } := by
  refine h.map (fun ea => if ea.reader = reader then ea.store answered rc rcEx cw else ea) _ rfl rfl ?_
    (.inl ⟨rfl, ?_⟩)
  · intro ea
    split_ifs <;> exact ⟨rfl, rfl⟩
  · intro ea
    split_ifs <;> exact ⟨rfl, rfl⟩

theorem answer (h : Sending n s) (reader : ℕ) (given : Given) :
    Sending n { s with er := writeEcmAnswer reader given s.er } := by
  have hwrong : Sending n { s with er := wrongChksum s.er } :=
    h.map _ _ rfl rfl (fun _ => ⟨rfl, rfl⟩) (.inr fun _ => rfl)
  have hcycle : ∀ rc, Sending n { s with er := cycleCheck given rc s.er } := by
    intro rc
    unfold cycleCheck
    by_cases hcycles : given.cycles rc = true
    · rw [if_pos hcycles]
      exact h.map id _ (by simp) rfl (fun _ => ⟨rfl, rfl⟩) (.inl ⟨rfl, fun _ => ⟨rfl, rfl⟩⟩)
    · rw [if_neg hcycles]
      exact h
  unfold writeEcmAnswer
  dsimp only
  cases getEcmAnswer reader s.er with
  | none => exact h
  | some ea =>
    dsimp only
    generalize (if (given.lgRefused && decide (given.rc < E_NOTFOUND)) = true then E_NOTFOUND else given.rc) = rc
    by_cases hanswered : ea.status.requestAnswered = true
    · rw [if_pos hanswered]
      exact h
    · rw [if_neg hanswered]
      by_cases hbad : rc = E_NOTFOUND ∧ given.rcEx = E2_WRONG_CHKSUM
      · rw [if_pos hbad]
        exact hwrong.update reader _ _ _ _
      · rw [if_neg hbad]
        exact (hcycle _).update reader _ _ _ _

theorem other (h : Sending n s) (er : EcmRequest) (f : EcmAnswer → EcmAnswer) : Sending n (s.other er f) :=
  h.map _ _ rfl rfl (fun _ => ⟨rfl, rfl⟩) (.inl ⟨rfl, fun _ => ⟨rfl, rfl⟩⟩)

theorem start (h : Unasked s) : Sending (s.er.matchingRdr.countP (·.status.readerActive)) s := by
  have hnone : s.er.matchingRdr.filter (·.status.requestSent) = [] :=
    List.filter_eq_nil_iff.mpr fun ea hea => by simp [h.unsent ea hea]
  have hstage := h.stage
  constructor
  · exact h.distinct
  · simp [h.writes, hnone]
  · simp [requestSent, List.countP_eq_length_filter, hnone, h.requested]
  · omega
  · omega
  · refine Nat.le_of_eq (List.countP_congr fun ea hea => ?_)
    simp [h.unsent ea hea]

/-- What holds throughout the life of a request. -/
theorem of_reachable {s₀ : Sends} (h₀ : Unasked s₀) (h : (sending s₀).Reachable System.free s) :
    Sending (s₀.er.matchingRdr.countP (·.status.readerActive)) s := by
  refine h.invariant (I := Sending _) ?_ ?_
  · intro s hs
    obtain rfl : s = s₀ := hs
    exact start h₀
  · intro s event t hs _ ht
    cases event with
    | requestCwFromReaders env stopStage => exact hs.request env stopStage 4 ht
    | fallbackTimeout env => exact hs.fallback env 5 ht
    | writeEcmAnswer reader given => exact Option.some.inj ht ▸ hs.answer reader given
    | other er f => exact Option.some.inj ht ▸ hs.other er f

theorem askedOnce (h : Sending n s) (hn : n < 2 ^ 16) : AskedOnce s := by
  constructor
  · intro ea hea
    rw [h.writes.count_eq, count_reader h.distinct hea]
  · rw [h.counted]
    have hle : requestSent s ≤ n := by
      refine Nat.le_trans (List.countP_mono_left fun ea _ hea => ?_) h.bound
      rw [hea, Bool.or_true]
    exact Nat.mod_eq_of_lt (by omega)
  · exact h.normal
  · exact h.all
  · intro env stopStage
    obtain ⟨t, ht, -⟩ := requestCwFromReaders_er env stopStage s
    exact ⟨t, ht⟩
  · exact fun env => fallbackTimeout_ends env s

end Sending

/-- No reader can answer. -/
private def deaf : Env := ⟨0, false, true, true, false, ⟨⟨0, 0, 0, 0⟩, 0, 0, 0, 0, []⟩, fun _ => false⟩

/-- A request whose readers cannot answer goes through all its stages at once. -/
private theorem exists_last (s : Sends) (hlt : s.er.stage < 4) : ∃ t,
    s.requestCwFromReaders deaf 0 4 = some t ∧ t.er.stage = 4 ∧
      ∃ f, t.er.matchingRdr = s.er.matchingRdr.map (·.sendIf f) := by
  obtain ⟨t, ht, her⟩ := requestCwFromReaders_er deaf 0 s
  have hreached := requestCwFromReaders_reached deaf s.er hlt
  obtain ⟨f, hf, -⟩ := (requestCwFromReaders_asked deaf 0 s.er).readers
  refine ⟨t, ht, ?_, f, ?_⟩
  · rw [her]
    have hlast := hreached.last
    by_contra hne
    change ¬ (requestCwFromReaders deaf 0 s.er).stage = 4 at hne
    obtain ⟨ea, -, -, hconn⟩ := hreached.waits (by omega)
    cases hconn
  · rw [her]
    exact hf

/-- The counter does not hold a number of active readers beyond its size. -/
private theorem exists_wrapped {s : Sends} (h : Unasked s)
    (hmany : 2 ^ 16 ≤ s.er.matchingRdr.countP (·.status.readerActive)) :
    ∃ t, (sending s).Reachable System.free t ∧ t.er.readerRequested < requestSent t := by
  have hstage := h.stage
  obtain ⟨t, ht, hlast, f, hlist⟩ := exists_last s (by omega)
  have hreach : (sending s).Reachable System.free t :=
    .step (a := .requestCwFromReaders deaf 0) (.init rfl) trivial ht
  have hkept := Sending.of_reachable h hreach
  have hactive : t.er.matchingRdr.countP (·.status.readerActive) =
      s.er.matchingRdr.countP (·.status.readerActive) := by
    simp [hlist, List.countP_map, Function.comp_def]
  have hle : t.er.matchingRdr.countP (·.status.readerActive) ≤ requestSent t :=
    List.countP_mono_left fun ea hea hact => hkept.all (by omega) ea hea hact
  refine ⟨t, hreach, ?_⟩
  rw [hkept.counted]
  have hmod := Nat.mod_lt (requestSent t) (show 0 < 2 ^ 16 by omega)
  omega

/-- Throughout the life of a request its readers are asked as they should be, and `reader_requested` counts them,
if and only if it can count all that are active. -/
theorem askedOnce_iff (s₀ : Sends) (h₀ : Unasked s₀) :
    (∀ s, (sending s₀).Reachable System.free s → AskedOnce s) ↔
      s₀.er.matchingRdr.countP (·.status.readerActive) < 2 ^ 16 := by
  constructor
  · intro hall
    by_contra hmany
    obtain ⟨t, hreach, hlt⟩ := exists_wrapped h₀ (Nat.not_lt.mp hmany)
    exact absurd (hall t hreach).counted (Nat.ne_of_lt hlt)
  · intro hfew s hs
    exact (Sending.of_reachable h₀ hs).askedOnce hfew

private def freshRequest (status : ℕ → Status) (readers : List ℕ) : Sends where
  er :=
    { caid := 0x0500, prid := 0, rc := E_UNHANDLED, rcEx := 0, cw := 0, stage := 0, preferlocalcards := 1
      matchingRdr := readers.map fun reader => ⟨reader, status reader, E_UNHANDLED, 0, 0, false⟩
      selectedReader := none, readerRequested := 0, readerCount := 0, fallbackReaderCount := 0
      localreaderCount := 0, cacheexReaderCount := 0, cacheexWaitTimeExpired := true, cacheexHitcache := false
      cacheexMode1Delay := 0, readersTimeoutCheck := false, checked := 0, originReader := none, cwChecked := 0
      delivered := [] }
  writes := []

private theorem freshRequest_unasked (status : ℕ → Status) {readers : List ℕ} (hnodup : readers.Nodup)
    (hunsent : ∀ reader, (status reader).requestSent = false) : Unasked (freshRequest status readers) where
  stage := rfl
  open_ := Nat.le_refl _
  distinct := by simpa [freshRequest, Function.comp_def] using hnodup
  unsent ea hea := by
    obtain ⟨reader, -, rfl⟩ := List.mem_map.mp hea
    exact hunsent reader
  requested := rfl
  writes := rfl

/-- A local reader, one behind a proxy and a fallback. -/
private def threeReaders : Sends :=
  freshRequest (fun reader => ⟨true, decide (reader = 2), decide (reader = 0), false, false, false⟩) [0, 1, 2]

theorem askedOnce_three : Unasked threeReaders ∧
    ∀ s, (sending threeReaders).Reachable System.free s → AskedOnce s := by
  have hunasked : Unasked threeReaders := freshRequest_unasked _ (by decide) fun _ => rfl
  exact ⟨hunasked, (askedOnce_iff threeReaders hunasked).mpr (by decide)⟩

private def manyReaders : Sends := freshRequest (fun _ => ⟨true, false, false, false, false, false⟩) (List.range 65536)

/-- A request with 65536 active readers: when all are asked, the counter is 0. -/
theorem reader_requested_wraps : Unasked manyReaders ∧
    ∃ s, (sending manyReaders).Reachable System.free s ∧ s.er.readerRequested ≠ requestSent s := by
  have hunasked : Unasked manyReaders := freshRequest_unasked _ List.nodup_range fun _ => rfl
  have hmany : manyReaders.er.matchingRdr.countP (·.status.readerActive) = 65536 := by
    simp only [manyReaders, freshRequest, List.countP_map, Function.comp_def, List.countP_true, List.length_range]
  obtain ⟨s, hs, hlt⟩ := exists_wrapped hunasked (by
    rw [hmany]
    decide)
  exact ⟨hunasked, s, hs, Nat.ne_of_lt hlt⟩

end NCam.Ecm.Answer
