import NCam.Casc.Proxies
import NCam.Lib.Transition

/-! Runs of a newcamd or camd35 proxy reader: which requests an answer reaches, and what `pending` counts. -/
namespace NCam.Casc

open NCam.Lib NCam.Util
open NCam.Ecm (E_FOUND E_NOCARD)

/-- What happens to a proxy reader. -/
inductive Action (p : Proxy)
  | request (er : Request) (t : ℤ) (link : p.Link)
  | packet (m : p.Packet) (t : ℤ)
  | other (o : p.Other)
  | close

/-- The client with its history: the content of the request last sent with each id, and how often the request
in each slot was answered. -/
structure Cascade where
  cl : CascClient Request
  sentAs : BitVec 16 → Option (BitVec 16 × BitVec 128)
  answers : ℕ → ℕ

namespace Cascade

variable (cfg : Config) (p : Proxy) (s : Cascade)

/-- The ids that count after a step; those of newcamd belong to a connection. -/
def idsAfter (closed : Bool) : BitVec 16 → Option (BitVec 16 × BitVec 128) :=
  if p.newcamd && closed then fun _ => none else s.sentAs

def forwarded (er : Request) (f : Forwarded Request (BitVec 16)) : Cascade where
  cl := f.cl
  sentAs :=
    match f.sent with
    | some m => Function.update s.sentAs m (some (content er))
    | none => s.idsAfter p f.closed
  answers j := (if f.slot = some j then 0 else s.answers j) + (f.answered j).toNat

/-- Whether `work_thread` writes the answer `a` to the request in the slot `j`. -/
def written (a : Answer) (j : ℕ) : Bool := (slotOf cfg s.cl a.idx).any fun i => answered s.cl i j

/-- `work_thread` with an answer. -/
def received (t : ℤ) (a : Answer) : Cascade :=
  match slotOf cfg s.cl a.idx with
  | none => s
  | some i =>
    { s with
      cl := cascCheckDcw cfg t s.cl i
      answers := fun j => s.answers j + (s.written cfg a j).toNat }

/-- The client of a new reader. -/
def Fresh : Prop :=
  (∀ j, (s.cl.ecmtask j).idx = 0 ∧ (s.cl.ecmtask j).rc = E_FOUND) ∧ s.cl.pending = 0 ∧ s.cl.idx = 0 ∧
    s.cl.lastIdx = 0 ∧ s.cl.ncdMsgid = 0 ∧ s.cl.tcpConnected = false ∧ s.sentAs = (fun _ => none) ∧
    s.answers = fun _ => 0

def system : System Cascade (Action p) where
  init := Fresh
  next s
    | .request er t link =>
      (cascProcessEcm cfg t p.newcamd (p.sendEcm link) s.cl er).map (s.forwarded p er)
    | .packet m t => some ((p.recvChk m).elim s (s.received cfg t))
    | .other o => (p.other s.cl o).map fun r => { s with cl := r.cl, sentAs := s.idsAfter p r.closed }
    | .close => some { s with cl := networkTcpConnectionClose p.newcamd s.cl, sentAs := s.idsAfter p true }

/-- The client that sends the request in the slot `n`, and the id of the slot. -/
def sender (er : Request) (t : ℤ) (n : ℕ) : CascClient Request := store p.newcamd (dropTimeouts cfg t s.cl) n er

def nextIdx (t : ℤ) : BitVec 16 := (takeIdx p.newcamd (dropTimeouts cfg t s.cl)).1

/-- No other slot than `n` has the id `m` for another content. -/
def idFree (c : BitVec 16 × BitVec 128) (n : ℕ) (m : BitVec 16) : Bool :=
  (List.range cfg.maxPending).all fun j =>
    j = n || (s.cl.ecmtask j).idx ≠ m || content (s.cl.ecmtask j).er = c

/-- A request goes out with the id of its slot, which is not 0 and no other slot has for another content; a
duplicate does not get an id that something else was sent with. -/
def distinctIds : Action p → Bool
  | .request er t link =>
    (freeSlot cfg (dropTimeouts cfg t s.cl)).all fun n =>
      if duplicate cfg (dropTimeouts cfg t s.cl) er then
        (s.sentAs (s.nextIdx cfg p t)).all fun c => content er = c
      else (p.sendEcm link (s.sender cfg p er t n) n).all fun r =>
        r.sent.all fun m => m = s.nextIdx cfg p t && m ≠ 0 && s.idFree cfg (content er) n m
  | _ => true

/-- The step counts the waiting requests anew and leaves no request waiting that it took, or it leaves what
was counted. -/
def counted : Action p → Bool
  | .request er t link =>
    (freeSlot cfg (dropTimeouts cfg t s.cl)).all fun n =>
      !duplicate cfg (dropTimeouts cfg t s.cl) er &&
        (p.sendEcm link (s.sender cfg p er t n) n).all fun r => r.sent.isNone
  | .packet m _ =>
    (p.recvChk m).any (fun a => (slotOf cfg s.cl a.idx).isSome) ||
      s.cl.pending = waitingCount cfg s.cl.ecmtask
  | .other o =>
    (p.other s.cl o).all fun r =>
      s.cl.pending = if r.closed then 0 else waitingCount cfg s.cl.ecmtask
  | .close => s.cl.pending = 0

/-- The answer is written to waiting requests only, with the content of the request that was sent with its
id; the id 0 is that of the last request that was sent. -/
def RightAnswers : Prop :=
  ∀ m a, p.recvChk m = some a → ∀ c, s.sentAs (if a.idx = 0 then s.cl.lastIdx else a.idx) = some c →
    ∀ j, s.written cfg a j = true →
      (s.cl.ecmtask j).waiting = true ∧ content (s.cl.ecmtask j).er = c

/-- A request that waits, and is not dropped at the time of the step, is not overwritten. -/
def KeepsWaiting (a : Action p) (u : Cascade) : Prop :=
  ∀ j, (s.cl.ecmtask j).waiting = true →
    (∀ er t link, a = .request er t link → (s.cl.ecmtask j).timedOut cfg t = false) →
    (u.cl.ecmtask j).er = (s.cl.ecmtask j).er

variable {cfg p s} {u : Cascade}

/-- A slot with an id has the content of the request that was sent with it, and waits for its first answer. -/
structure Kept (cfg : Config) (s : Cascade) : Prop where
  zero : s.sentAs 0 = none
  outside : ∀ j, cfg.maxPending ≤ j → (s.cl.ecmtask j).idx = 0
  sent : ∀ j c, s.sentAs (s.cl.ecmtask j).idx = some c → content (s.cl.ecmtask j).er = c
  fresh : ∀ j, (s.cl.ecmtask j).waiting = true → s.answers j = 0
  once : ∀ j, s.answers j ≤ 1

/-- The slot `j` keeps its request, and counts an answer only if it stops to wait. -/
structure SlotKept (s u : Cascade) (j : ℕ) : Prop where
  shrinks : Shrinks (s.cl.ecmtask j) (u.cl.ecmtask j)
  answers : u.answers j = s.answers j ∨
    (s.cl.ecmtask j).waiting = true ∧ (u.cl.ecmtask j).waiting = false ∧ u.answers j = s.answers j + 1

theorem Fresh.kept (h : Fresh s) : Kept cfg s := by
  obtain ⟨hslots, -, -, -, -, -, hsent, hanswers⟩ := h
  refine ⟨by rw [hsent], fun j _ => (hslots j).1, ?_, ?_, ?_⟩
  · intro j c hc
    rw [hsent] at hc
    cases hc
  · intro j _
    rw [hanswers]
  · intro j
    rw [hanswers]
    exact Nat.zero_le 1

theorem SlotKept.fresh {j : ℕ} (hj : SlotKept s u j) (h : Kept cfg s)
    (hw : (u.cl.ecmtask j).waiting = true) : u.answers j = 0 := by
  rcases hj.answers with heq | ⟨-, hno, -⟩
  · rw [heq]
    exact h.fresh j (hj.shrinks.waiting hw)
  · exact absurd (hw.symm.trans hno) Bool.noConfusion

theorem SlotKept.once {j : ℕ} (hj : SlotKept s u j) (h : Kept cfg s) : u.answers j ≤ 1 := by
  rcases hj.answers with heq | ⟨hw, -, heq⟩
  · exact heq ▸ h.once j
  · rw [heq, h.fresh j hw]

/-- A step that stores no request. -/
theorem Kept.of_slots (h : Kept cfg s) (hj : ∀ j, SlotKept s u j)
    (hsent : ∀ m c, u.sentAs m = some c → s.sentAs m = some c) : Kept cfg u := by
  have hzero : u.sentAs 0 = none := by
    refine Option.eq_none_iff_forall_ne_some.mpr fun c hc => ?_
    exact absurd (hsent 0 c hc) (by rw [h.zero]; exact (Option.some_ne_none c).symm)
  refine ⟨hzero, ?_, ?_, fun j => (hj j).fresh h, fun j => (hj j).once h⟩
  · intro j hout
    rcases (hj j).shrinks.idx with heq | heq
    · exact heq.trans (h.outside j hout)
    · exact heq
  · intro j c hc
    rw [(hj j).shrinks.er]
    rcases (hj j).shrinks.idx with heq | heq
    · exact h.sent j c (hsent _ _ (heq ▸ hc))
    · rw [heq, hzero] at hc
      cases hc

/-- A step that stores a request in the slot `n`: its content is what was sent with the id it has then. -/
theorem Kept.of_store {n : ℕ} (h : Kept cfg s) (hn : n < cfg.maxPending) (hj : ∀ j, j ≠ n → SlotKept s u j)
    (hzero : u.sentAs 0 = none)
    (hsent : ∀ j, j ≠ n → ∀ c, (u.cl.ecmtask j).idx = (s.cl.ecmtask j).idx →
      u.sentAs (s.cl.ecmtask j).idx = some c → content (s.cl.ecmtask j).er = c)
    (hstored : ∀ c, u.sentAs (u.cl.ecmtask n).idx = some c → content (u.cl.ecmtask n).er = c)
    (hfresh : (u.cl.ecmtask n).waiting = true → u.answers n = 0) (honce : u.answers n ≤ 1) : Kept cfg u := by
  refine ⟨hzero, ?_, ?_, ?_, ?_⟩
  · intro j hout
    rcases (hj j (by omega)).shrinks.idx with heq | heq
    · exact heq.trans (h.outside j hout)
    · exact heq
  · intro j c hc
    by_cases hjn : j = n
    · exact hjn ▸ hstored c (hjn ▸ hc)
    · rw [(hj j hjn).shrinks.er]
      rcases (hj j hjn).shrinks.idx with heq | heq
      · exact hsent j hjn c heq (heq ▸ hc)
      · rw [heq, hzero] at hc
        cases hc
  · intro j
    by_cases hjn : j = n
    · exact hjn ▸ hfresh
    · exact (hj j hjn).fresh h
  · intro j
    by_cases hjn : j = n
    · exact hjn ▸ honce
    · exact (hj j hjn).once h

theorem idsAfter_some {closed : Bool} {m : BitVec 16} {c : BitVec 16 × BitVec 128}
    (h : s.idsAfter p closed m = some c) : s.sentAs m = some c := by
  unfold idsAfter at h
  split_ifs at h with hclosed
  exact h

theorem received_kept {t : ℤ} {a : Answer} (h : Kept cfg s) : Kept cfg (s.received cfg t a) := by
  unfold received
  generalize hslot : slotOf cfg s.cl a.idx = slot
  cases slot with
  | none => exact h
  | some i =>
    refine h.of_slots (fun j => ⟨checkDcw_shrinks, ?_⟩) fun m c hc => hc
    by_cases hw : answered s.cl i j = true
    · refine .inr ⟨(Bool.and_eq_true_iff.mp hw).1, ?_, ?_⟩
      · change ((s.cl.ecmtask j).checkDcw cfg t _).waiting = false
        rw [checkDcw_of_answers hw]
        rfl
      · change s.answers j + (s.written cfg a j).toNat = _
        unfold written
        rw [hslot, Option.any_some, hw]
        rfl
    · left
      change s.answers j + (s.written cfg a j).toNat = _
      unfold written
      rw [hslot, Option.any_some, eq_false_of_ne_true hw]
      rfl

/-- What leaves the table alone or closes the connection keeps the ids. -/
theorem kept_of_keeps {r : SendResult Request (BitVec 16)} (h : Kept cfg s) (hr : Keeps s.cl r) :
    Kept cfg { s with cl := r.cl, sentAs := s.idsAfter p r.closed } := by
  refine h.of_slots (fun j => ⟨?_, .inl rfl⟩) fun m c hc => idsAfter_some hc
  obtain ⟨-, ⟨-, htask⟩ | ⟨-, -, htask⟩⟩ := hr
  · change Shrinks _ (r.cl.ecmtask j)
    rw [htask]
    exact .refl
  · change Shrinks _ (r.cl.ecmtask j)
    rw [htask]
    exact reset_shrinks

section Request

variable {er : Request} {t : ℤ} {n : ℕ} {r : SendResult Request (BitVec 16)}

/-- A duplicate in its slot. -/
def taken (cfg : Config) (p : Proxy) (s : Cascade) (er : Request) (t : ℤ) (n : ℕ) : Cascade :=
  s.forwarded p er ⟨wrapIdx (s.sender cfg p er t n), some n, none, fun _ => false, false⟩

theorem sender_of_ne {j : ℕ} (hj : j ≠ n) :
    (s.sender cfg p er t n).ecmtask j = (s.cl.ecmtask j).dropTimeout cfg t := by
  unfold sender
  rw [store_ecmtask, Function.update_of_ne hj]
  rfl

theorem sender_self : (s.sender cfg p er t n).ecmtask n = ⟨er, s.nextIdx cfg p t, E_NOCARD⟩ := by
  unfold sender
  rw [store_ecmtask, Function.update_self]
  rfl

theorem nextIdx_eq : s.nextIdx cfg p t = (takeIdx p.newcamd (dropTimeouts cfg t s.cl)).1 := rfl

theorem idFree_ne (h : s.idFree cfg (content er) n (s.nextIdx cfg p t) = true) (hk : Kept cfg s)
    (hzero : s.nextIdx cfg p t ≠ 0) {j : ℕ} (hjn : j ≠ n)
    (hidx : (s.cl.ecmtask j).idx = s.nextIdx cfg p t) : content (s.cl.ecmtask j).er = content er := by
  by_cases hj : j < cfg.maxPending
  · have hall := List.all_eq_true.mp h j (List.mem_range.mpr hj)
    rw [Bool.or_eq_true, Bool.or_eq_true, decide_eq_true_eq, decide_eq_true_eq, decide_eq_true_eq] at hall
    rcases hall with (heq | hne) | hc
    · exact absurd heq hjn
    · exact absurd hidx hne
    · exact hc
  · exact absurd (hidx.symm.trans (hk.outside j (by omega))) hzero

theorem duplicate_kept (h : Kept cfg s) (hn : n < cfg.maxPending)
    (hids : (s.sentAs (s.nextIdx cfg p t)).all (fun c => content er = c) = true) :
    Kept cfg (s.taken cfg p er t n) := by
  have htask : (s.taken cfg p er t n).cl.ecmtask = (s.sender cfg p er t n).ecmtask := wrapIdx_ecmtask
  have hsent : (s.taken cfg p er t n).sentAs = s.sentAs := by
    change s.idsAfter p false = s.sentAs
    unfold idsAfter
    rw [Bool.and_false]
    rfl
  refine h.of_store hn ?_ ?_ ?_ ?_ ?_ ?_
  · intro j hj
    refine ⟨?_, .inl ?_⟩
    · rw [htask, sender_of_ne hj]
      exact dropTimeout_shrinks
    · exact if_neg fun heq => hj (Option.some.inj heq).symm
  · rw [hsent]
    exact h.zero
  · intro j _ c _ hc
    rw [hsent] at hc
    exact h.sent j c hc
  · intro c hc
    rw [htask, sender_self, hsent] at hc
    rw [htask, sender_self]
    rw [hc, Option.all_some, decide_eq_true_eq] at hids
    exact hids
  · intro _
    exact if_pos rfl
  · have hself : (s.taken cfg p er t n).answers n = 0 := if_pos rfl
    rw [hself]
    exact Nat.zero_le 1

theorem sent_kept (h : Kept cfg s) (hn : n < cfg.maxPending) (hr : Keeps (s.sender cfg p er t n) r)
    {m : BitVec 16} (hm : r.sent = some m) (hid : m = s.nextIdx cfg p t) (hzero : m ≠ 0)
    (hfree : s.idFree cfg (content er) n m = true) : Kept cfg (s.forwarded p er (finish cfg t n r)) := by
  have hstay : r.cl.ecmtask = (s.sender cfg p er t n).ecmtask := by
    obtain ⟨-, ⟨-, htask⟩ | ⟨-, hnone, -⟩⟩ := hr
    · exact htask
    · rw [hnone] at hm
      cases hm
  have hfinish : finish cfg t n r =
      ⟨wrapIdx { r.cl with lastIdx := (r.cl.ecmtask n).idx }, some n, some m, fun _ => false, r.closed⟩ := by
    unfold finish
    rw [hm]
  rw [hfinish]
  generalize hu : s.forwarded p er _ = u
  have htask : u.cl.ecmtask = (s.sender cfg p er t n).ecmtask := by
    rw [← hu]
    exact wrapIdx_ecmtask.trans hstay
  have hsent : u.sentAs = Function.update s.sentAs m (some (content er)) := by
    rw [← hu]
    rfl
  have hanswers : ∀ j, u.answers j = if some n = some j then 0 else s.answers j := by
    rw [← hu]
    exact fun j => rfl
  have hself : u.answers n = 0 := (hanswers n).trans (if_pos rfl)
  refine h.of_store hn ?_ ?_ ?_ ?_ (fun _ => hself) (hself ▸ Nat.zero_le 1)
  · intro j hj
    refine ⟨?_, .inl ?_⟩
    · rw [htask, sender_of_ne hj]
      exact dropTimeout_shrinks
    · exact (hanswers j).trans (if_neg fun heq => hj (Option.some.inj heq).symm)
  · rw [hsent, Function.update_of_ne hzero.symm]
    exact h.zero
  · intro j hj c _ hc
    by_cases hidx : (s.cl.ecmtask j).idx = m
    · rw [hsent, hidx, Function.update_self] at hc
      rw [← Option.some.inj hc]
      subst hid
      exact idFree_ne hfree h hzero hj hidx
    · rw [hsent, Function.update_of_ne hidx] at hc
      exact h.sent j c hc
  · intro c hc
    rw [htask, sender_self, hsent, ← hid, Function.update_self] at hc
    rw [htask, sender_self]
    exact Option.some.inj hc

/-- A request that is not sent is answered, or the table is reset. -/
theorem refused_kept (h : Kept cfg s) (hn : n < cfg.maxPending)
    (hr : Keeps (s.sender cfg p er t n) r) (hnone : r.sent = none) :
    Kept cfg (s.forwarded p er (finish cfg t n r)) := by
  have hfinish : finish cfg t n r =
      ⟨wrapIdx (cascCheckDcw cfg t r.cl n), some n, none, answered r.cl n, r.closed⟩ := by
    unfold finish
    rw [hnone]
  rw [hfinish]
  generalize hu : s.forwarded p er _ = u
  have htask : ∀ j, u.cl.ecmtask j = (r.cl.ecmtask j).checkDcw cfg t (content (r.cl.ecmtask n).er) := by
    rw [← hu]
    intro j
    exact congrFun wrapIdx_ecmtask j
  have hsent : u.sentAs = s.idsAfter p r.closed := by
    rw [← hu]
    rfl
  have hanswers : ∀ j, u.answers j =
      (if some n = some j then 0 else s.answers j) + (answered r.cl n j).toNat := by
    rw [← hu]
    exact fun j => rfl
  have hshrinks : ∀ j, Shrinks ((s.sender cfg p er t n).ecmtask j) (r.cl.ecmtask j) := by
    intro j
    obtain ⟨-, ⟨-, heq⟩ | ⟨-, -, heq⟩⟩ := hr
    · rw [heq]
      exact .refl
    · rw [heq]
      exact reset_shrinks
  -- the request itself is answered if it still waits
  have hidx : (u.cl.ecmtask n).idx = 0 ∧ (u.cl.ecmtask n).waiting = false := by
    rw [htask]
    obtain ⟨-, ⟨-, heq⟩ | ⟨-, -, heq⟩⟩ := hr
    · have hans : (r.cl.ecmtask n).answers (content (r.cl.ecmtask n).er) = true := by
        refine Bool.and_eq_true_iff.mpr ⟨?_, decide_eq_true rfl⟩
        rw [heq, sender_self]
        rfl
      rw [checkDcw_of_answers hans]
      exact ⟨rfl, rfl⟩
    · have hreset : (r.cl.ecmtask n) = ((s.sender cfg p er t n).ecmtask n).reset := congrFun heq n
      have hshrink := @checkDcw_shrinks _ _ cfg t (r.cl.ecmtask n) (content (r.cl.ecmtask n).er)
      have hidx : (r.cl.ecmtask n).idx = 0 := by rw [hreset]; rfl
      have hw : (r.cl.ecmtask n).waiting = false := by rw [hreset]; rfl
      refine ⟨?_, eq_false_of_ne_true fun h => ?_⟩
      · rcases hshrink.idx with h | h
        · exact h.trans hidx
        · exact h
      · exact absurd ((hshrink.waiting h).symm.trans hw) Bool.noConfusion
  refine h.of_store hn ?_ ?_ ?_ ?_ ?_ ?_
  · intro j hj
    have hsender : Shrinks (s.cl.ecmtask j) (r.cl.ecmtask j) := by
      have hj' := hshrinks j
      rw [sender_of_ne hj] at hj'
      exact dropTimeout_shrinks.trans hj'
    refine ⟨?_, ?_⟩
    · rw [htask]
      exact hsender.trans checkDcw_shrinks
    · rw [hanswers, if_neg fun heq => hj (Option.some.inj heq).symm]
      by_cases hw : answered r.cl n j = true
      · refine .inr ⟨hsender.waiting (Bool.and_eq_true_iff.mp hw).1, ?_, by rw [hw]; rfl⟩
        rw [htask, checkDcw_of_answers hw]
        rfl
      · exact .inl (by rw [eq_false_of_ne_true hw]; rfl)
  · rw [hsent]
    refine Option.eq_none_iff_forall_ne_some.mpr fun c hc => ?_
    exact absurd (idsAfter_some hc) (by rw [h.zero]; exact (Option.some_ne_none c).symm)
  · intro j _ c _ hc
    rw [hsent] at hc
    exact h.sent j c (idsAfter_some hc)
  · intro c hc
    rw [hsent, hidx.1] at hc
    exact absurd (idsAfter_some hc) (by rw [h.zero]; exact (Option.some_ne_none c).symm)
  · intro hw
    exact absurd (hw.symm.trans hidx.2) Bool.noConfusion
  · rw [hanswers, if_pos rfl, Nat.zero_add]
    exact Bool.toNat_le _

end Request

/-- The invariant of the runs with distinct ids. -/
theorem step_kept {a : Action p} (h : Kept cfg s) (hids : s.distinctIds cfg p a = true)
    (hnext : (system cfg p).next s a = some u) : Kept cfg u := by
  cases a with
  | request er t link =>
    obtain ⟨f, hf, rfl⟩ := Option.map_eq_some_iff.mp hnext
    rcases cascProcessEcm_cases hf with ⟨-, rfl⟩ | ⟨n, hslot, ⟨hdup, rfl⟩ | ⟨hdup, r, hr, rfl⟩⟩
    · refine h.of_slots (fun j => ⟨dropTimeout_shrinks, .inl rfl⟩) fun m c hc => idsAfter_some hc
    · unfold distinctIds at hids
      dsimp only at hids
      rw [hslot, Option.all_some, if_pos hdup] at hids
      exact duplicate_kept h (freeSlot_some hslot).1 hids
    · have hkeeps := p.sendEcm_keeps _ _ _ _ hr
      unfold distinctIds at hids
      dsimp only at hids
      rw [hslot, Option.all_some, if_neg (ne_true_of_eq_false hdup)] at hids
      unfold sender at hids
      rw [hr, Option.all_some] at hids
      cases hm : r.sent with
      | none => exact refused_kept h (freeSlot_some hslot).1 hkeeps hm
      | some m =>
        rw [hm, Option.all_some, Bool.and_eq_true, Bool.and_eq_true, decide_eq_true_eq,
          decide_eq_true_eq] at hids
        exact sent_kept h (freeSlot_some hslot).1 hkeeps hm hids.1.1 hids.1.2 hids.2
  | packet m t =>
    have hu := Option.some.inj hnext
    cases ha : p.recvChk m with
    | none =>
      rw [ha] at hu
      exact hu ▸ h
    | some a =>
      rw [ha] at hu
      exact hu ▸ received_kept h
  | other o =>
    obtain ⟨r, hr, rfl⟩ := Option.map_eq_some_iff.mp hnext
    exact kept_of_keeps h (p.other_keeps _ _ _ hr)
  | close =>
    obtain rfl := Option.some.inj hnext
    exact h.of_slots (fun j => ⟨reset_shrinks, .inl rfl⟩) fun m c hc => idsAfter_some hc

theorem rightAnswers (h : Kept cfg s) : s.RightAnswers cfg p := by
  intro m a _ c hc j hw
  obtain ⟨i, hslot, hans⟩ := (Option.any_eq_true _ _).mp hw
  obtain ⟨-, hidx, -⟩ := Slots.firstWhere_eq_some hslot
  rw [decide_eq_true_eq] at hidx
  obtain ⟨hwait, hcontent⟩ := Bool.and_eq_true_iff.mp hans
  refine ⟨hwait, (of_decide_eq_true hcontent).trans ?_⟩
  exact h.sent i c (hidx ▸ hc)

theorem keepsWaiting {a : Action p} (hnext : (system cfg p).next s a = some u) :
    s.KeepsWaiting cfg p a u := by
  intro j hw htime
  cases a with
  | request er t link =>
    obtain ⟨f, hf, rfl⟩ := Option.map_eq_some_iff.mp hnext
    rcases cascProcessEcm_cases hf with ⟨-, rfl⟩ | ⟨n, hslot, hcases⟩
    · exact dropTimeout_shrinks.er
    · -- the slot that is taken is free, also after the timeouts
      have hjn : j ≠ n := by
        rintro rfl
        have hfree : ((s.cl.ecmtask j).dropTimeout cfg t).waiting = false := (freeSlot_some hslot).2.1
        rw [waiting_dropTimeout, hw, htime er t link rfl] at hfree
        exact absurd hfree Bool.noConfusion
      have hsender : Shrinks (s.cl.ecmtask j) ((s.sender cfg p er t n).ecmtask j) := by
        rw [sender_of_ne hjn]
        exact dropTimeout_shrinks
      rcases hcases with ⟨-, rfl⟩ | ⟨-, r, hr, rfl⟩
      · change ((wrapIdx (s.sender cfg p er t n)).ecmtask j).er = _
        rw [wrapIdx_ecmtask]
        exact hsender.er
      · have hsend : Shrinks ((s.sender cfg p er t n).ecmtask j) (r.cl.ecmtask j) := by
          obtain ⟨-, ⟨-, htask⟩ | ⟨-, -, htask⟩⟩ := p.sendEcm_keeps _ _ _ _ hr
          · rw [htask]
            exact .refl
          · rw [htask]
            exact reset_shrinks
        change ((finish cfg t n r).cl.ecmtask j).er = _
        unfold finish
        cases r.sent with
        | none =>
          dsimp only
          rw [wrapIdx_ecmtask]
          exact ((hsender.trans hsend).trans checkDcw_shrinks).er
        | some m =>
          dsimp only
          rw [wrapIdx_ecmtask]
          exact (hsender.trans hsend).er
  | packet m t =>
    have hu := Option.some.inj hnext
    cases ha : p.recvChk m with
    | none =>
      rw [ha] at hu
      exact hu ▸ rfl
    | some a =>
      rw [ha] at hu
      subst hu
      change ((s.received cfg t a).cl.ecmtask j).er = _
      unfold received
      cases slotOf cfg s.cl a.idx with
      | none => rfl
      | some i => exact checkDcw_shrinks.er
  | other o =>
    obtain ⟨r, hr, rfl⟩ := Option.map_eq_some_iff.mp hnext
    change (r.cl.ecmtask j).er = _
    obtain ⟨-, ⟨-, htask⟩ | ⟨-, -, htask⟩⟩ := p.other_keeps _ _ _ hr
    · rw [htask]
    · rw [htask]
      rfl
  | close =>
    obtain rfl := Option.some.inj hnext
    rfl

theorem waitingCount_reset {ecmtask : ℕ → EcmTask Request} :
    waitingCount cfg (fun j => (ecmtask j).reset) = 0 := Slots.count_eq_zero_iff.mpr fun _ _ => waiting_reset

/-- The request in its slot is not counted yet. -/
theorem pending_sender {er : Request} {t : ℤ} {n : ℕ}
    (hslot : freeSlot cfg (dropTimeouts cfg t s.cl) = some n) :
    (s.sender cfg p er t n).pending ≠ waitingCount cfg (s.sender cfg p er t n).ecmtask := by
  obtain ⟨hn, hfree, -⟩ := freeSlot_some hslot
  have hcount := @Slots.count_update _ EcmTask.waiting (dropTimeouts cfg t s.cl).ecmtask _ _
    ⟨er, s.nextIdx cfg p t, E_NOCARD⟩ hn
  rw [hfree] at hcount
  unfold sender
  rw [store_pending, store_ecmtask]
  change ((waitingCount cfg (dropTimeouts cfg t s.cl).ecmtask : ℕ) : ℤ) ≠ _
  unfold waitingCount
  rw [← nextIdx_eq, Ne, Nat.cast_inj]
  intro heq
  exact absurd (hcount.symm.trans heq.symm) (Nat.succ_ne_self _)

theorem pending_other {r : SendResult Request (BitVec 16)} (hr : Keeps s.cl r) :
    r.cl.pending = waitingCount cfg r.cl.ecmtask ↔
      s.cl.pending = if r.closed then (0 : ℤ) else waitingCount cfg s.cl.ecmtask := by
  obtain ⟨hpending, ⟨hopen, htask⟩ | ⟨hclosed, -, htask⟩⟩ := hr
  · rw [hpending, htask, hopen]
    exact Iff.rfl
  · rw [hpending, htask, hclosed, waitingCount_reset]
    exact Iff.rfl

theorem pending_iff {a : Action p} (hnext : (system cfg p).next s a = some u) :
    u.cl.pending = waitingCount cfg u.cl.ecmtask ↔ s.counted cfg p a = true := by
  cases a with
  | request er t link =>
    obtain ⟨f, hf, rfl⟩ := Option.map_eq_some_iff.mp hnext
    change f.cl.pending = waitingCount cfg f.cl.ecmtask ↔ _
    unfold counted
    dsimp only
    rcases cascProcessEcm_cases hf with ⟨hslot, rfl⟩ | ⟨n, hslot, ⟨hdup, rfl⟩ | ⟨hdup, r, hr, rfl⟩⟩
    · rw [hslot]
      exact iff_of_true rfl rfl
    · have hcount := @pending_sender cfg p s er t n hslot
      rw [hslot, Option.all_some, hdup, wrapIdx_pending, wrapIdx_ecmtask]
      exact iff_of_false hcount Bool.noConfusion
    · have hcount := @pending_sender cfg p s er t n hslot
      have hkeeps := p.sendEcm_keeps _ _ _ _ hr
      unfold sender
      rw [hslot, Option.all_some, hdup, hr, Option.all_some]
      unfold finish
      cases hsent : r.sent with
      | none =>
        dsimp only
        rw [wrapIdx_pending, wrapIdx_ecmtask]
        exact iff_of_true rfl rfl
      | some m =>
        dsimp only
        rw [wrapIdx_pending, wrapIdx_ecmtask]
        refine iff_of_false (fun heq => ?_) Bool.noConfusion
        obtain ⟨hpending, ⟨-, htask⟩ | ⟨-, hnone, -⟩⟩ := hkeeps
        · change r.cl.pending = waitingCount cfg r.cl.ecmtask at heq
          rw [hpending, htask] at heq
          exact hcount heq
        · rw [hsent] at hnone
          cases hnone
  | packet m t =>
    have hu := Option.some.inj hnext
    unfold counted
    rw [Bool.or_eq_true, decide_eq_true_eq]
    cases ha : p.recvChk m with
    | none =>
      rw [ha] at hu
      subst hu
      exact ⟨.inr, fun h => h.resolve_left Bool.false_ne_true⟩
    | some a =>
      rw [ha] at hu
      subst hu
      change (s.received cfg t a).cl.pending = waitingCount cfg (s.received cfg t a).cl.ecmtask ↔ _
      rw [Option.any_some]
      unfold received
      cases slotOf cfg s.cl a.idx with
      | none => exact ⟨.inr, fun h => h.resolve_left Bool.false_ne_true⟩
      | some i => exact iff_of_true rfl (.inl rfl)
  | other o =>
    obtain ⟨r, hr, rfl⟩ := Option.map_eq_some_iff.mp hnext
    unfold counted
    dsimp only
    rw [hr, Option.all_some, decide_eq_true_eq]
    exact pending_other (p.other_keeps _ _ _ hr)
  | close =>
    obtain rfl := Option.some.inj hnext
    unfold counted
    rw [decide_eq_true_eq]
    change s.cl.pending = waitingCount cfg (fun j => (s.cl.ecmtask j).reset) ↔ _
    rw [waitingCount_reset]
    exact Iff.rfl

/-- In every state that runs with distinct ids reach, the answers go to the right requests, each of them once,
and the next step overwrites none that waits; `pending` is right after a step exactly if it is `counted`. -/
theorem answers_reach_requests (cfg : Config) (p : Proxy) {s : Cascade}
    (h : (system cfg p).Reachable (fun s a => s.distinctIds cfg p a = true) s) :
    s.RightAnswers cfg p ∧ (∀ j, s.answers j ≤ 1) ∧
      ∀ a u, (system cfg p).next s a = some u → s.KeepsWaiting cfg p a u ∧
        (u.cl.pending = waitingCount cfg u.cl.ecmtask ↔ s.counted cfg p a = true) := by
  have hkept : Kept cfg s := by
    refine h.invariant (fun s hs => @Fresh.kept cfg s hs) ?_
    intro s a u hs hids hnext
    exact step_kept hs hids hnext
  exact ⟨rightAnswers hkept, hkept.once, fun a u hnext => ⟨keepsWaiting hnext, pending_iff hnext⟩⟩

/-- Thirty-two slots, and a timeout of five seconds. -/
def demoConfig : Config := ⟨32, 5000⟩

def demoRequest (md5 : BitVec 128) : Request := ⟨0x0500, 0, 1, 0, fun _ => 0x80, 3, md5, 0⟩

def demoLink : NcdLink :=
  ⟨.connected false, true, fun _ => 0, fun _ => 0, false, ⟨.NCD_525, fun _ => 0, none⟩, none, fun _ => true⟩

def demoStart : Cascade := ⟨⟨fun _ => ⟨demoRequest 0, 0, E_FOUND⟩, 0, 0, 0, 0, false⟩, fun _ => none, fun _ => 0⟩

theorem demoStart_fresh : demoStart.Fresh := ⟨fun _ => ⟨rfl, rfl⟩, rfl, rfl, rfl, rfl, rfl, rfl, rfl⟩

/-- The control word for the newcamd message id `idx`. -/
def demoPacket (idx : Byte) : newcamd.Packet :=
  (fun i => if i = 1 then idx else if i = 2 then 0x80 else 0, 21)

/-- Two requests are sent, and the second is answered. -/
def demoRun : List (Action newcamd) :=
  [.request (demoRequest 1) 0 demoLink, .request (demoRequest 2) 0 demoLink, .packet (demoPacket 3) 1]

theorem answers_reach_requests_two : ∃ s : Cascade,
    (s.RightAnswers demoConfig newcamd ∧ (∀ j, s.answers j ≤ 1) ∧
      ∀ a u, (system demoConfig newcamd).next s a = some u → s.KeepsWaiting demoConfig newcamd a u ∧
        (u.cl.pending = waitingCount demoConfig u.cl.ecmtask ↔ s.counted demoConfig newcamd a = true)) ∧
      (s.answers 0 = 0 && s.answers 1 = 1) = true := by
  obtain ⟨s, hs, hp⟩ := @System.exists_reachable_of_exec _ _ (system demoConfig newcamd)
    (fun s a => s.distinctIds demoConfig newcamd a = true) _ _ demoStart_fresh demoRun
    (fun s => s.answers 0 = 0 && s.answers 1 = 1) (by decide +kernel)
  exact ⟨s, answers_reach_requests demoConfig newcamd hs, hp⟩

/-- A repeated request gets the id that the next request is sent with. -/
def duplicateRun : List (Action newcamd) :=
  [.request (demoRequest 1) 0 demoLink, .request (demoRequest 1) 0 demoLink, .request (demoRequest 2) 0 demoLink]

/-- The control word for the second ECM would be written to a request for the first one, and `pending` is two
while three requests wait. -/
theorem answer_reaches_wrong_request : ∃ s, (system demoConfig newcamd).Reachable System.free s ∧
    ¬ s.RightAnswers demoConfig newcamd ∧ s.cl.pending ≠ waitingCount demoConfig s.cl.ecmtask := by
  obtain ⟨s, hs, hp⟩ := @System.exists_reachable_of_exec _ _ (system demoConfig newcamd) System.free
    (fun _ _ => instDecidableTrue) _ demoStart_fresh duplicateRun
    (fun s => s.sentAs 3 = some (content (demoRequest 2)) && s.written demoConfig ⟨3, 1, List.replicate 16 0⟩ 0 &&
      content (s.cl.ecmtask 0).er ≠ content (demoRequest 2) &&
      s.cl.pending ≠ waitingCount demoConfig s.cl.ecmtask) (by decide +kernel)
  rw [Bool.and_eq_true, Bool.and_eq_true, Bool.and_eq_true, decide_eq_true_eq, decide_eq_true_eq,
    decide_eq_true_eq] at hp
  obtain ⟨⟨⟨hsent, hwritten⟩, hne⟩, hpending⟩ := hp
  refine ⟨s, hs, fun hright => ?_, hpending⟩
  have hans := hright (demoPacket 3) ⟨3, 1, List.replicate 16 0⟩ rfl _ hsent 0 hwritten
  exact hne hans.2

end Cascade

end NCam.Casc
