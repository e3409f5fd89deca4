import NCam.Ecm.Answer
import NCam.Lib.Transition

/-! Identical ECM requests to one reader: `reader_get_ecm` attaches a request to one that was already sent,
and `write_ecm_answer` hands the answer of that one on. -/
namespace NCam.Ecm.Pending

open NCam.Lib Answer

def E2_RATELIMIT : ℕ := 14

/-- A request that is to ask `reader`. -/
def Asked (reader : ℕ) : Type :=
  { er : Answer.EcmRequest // (getEcmAnswer reader er).isSome = true }

section Asked

variable {reader : ℕ}

private theorem getEcmAnswer_update {er : Answer.EcmRequest} {f : EcmAnswer → EcmAnswer}
    (hf : ∀ ea, (f ea).reader = ea.reader) :
    getEcmAnswer reader (er.update reader f) = (getEcmAnswer reader er).map f := by
  unfold getEcmAnswer Answer.EcmRequest.update
  induction er.matchingRdr with
  | nil => rfl
  | cons ea rest ih =>
    rw [List.map_cons, List.find?_cons, List.find?_cons]
    by_cases hea : ea.reader = reader
    · have hfea : (f ea).reader = reader := (hf ea).trans hea
      rw [if_pos hea, decide_eq_true hea, decide_eq_true hfea]
      rfl
    · rw [if_neg hea, decide_eq_false hea]
      exact ih

private theorem getEcmAnswer_wrongChksum (er : Answer.EcmRequest) :
    getEcmAnswer reader (wrongChksum er) = (getEcmAnswer reader er).map fun ea =>
      { ea with status := { ea.status with readerActive := false, readerFallback := false } } := by
  unfold getEcmAnswer wrongChksum
  dsimp only
  rw [List.find?_map]
  rfl

private theorem getEcmAnswer_cycleCheck (given : Given) (rc : ℕ) (er : Answer.EcmRequest) :
    getEcmAnswer reader (cycleCheck given rc er) = getEcmAnswer reader er := by
  unfold cycleCheck
  split_ifs <;> rfl

/-- The checks of `write_ecm_answer` leave the answer as it is. -/
def clean (given : Given) : Bool :=
  !given.lgRefused && given.badCw.isNone && !given.cycleBad &&
    !(given.rc = E_NOTFOUND ∧ given.rcEx = E2_WRONG_CHKSUM)

/-- The control word is refused as not locally generated. -/
def refused (given : Given) : Bool := given.lgRefused && decide (given.rc < E_NOTFOUND)

/-- What `write_ecm_answer` makes of the reader's answer if it was not answered before. -/
structure Stored (given : Given) (ea ea' : EcmAnswer) : Prop where
  rc : given.rc < E_99 → ea'.rc < E_99
  answered : ea'.status.requestAnswered = !refused given
  isPending : ea'.isPending = ea.isPending
  same : clean given = true →
    ea'.rc = given.rc ∧ ea'.rcEx = given.rcEx ∧ ea'.cw = given.cw.getD ea.cw

private theorem checkedRc_lt (given : Given) {rc : ℕ} (hrc : rc < E_99) :
    (checkedRc given rc).1 < E_99 := by
  unfold checkedRc
  split_ifs
  · cases given.badCw with
    | none => exact hrc
    | some rcEx => exact (by decide : E_NOTFOUND < E_99)
  · exact hrc

private theorem writeEcmAnswer_stored (given : Given) {er : Answer.EcmRequest} {ea : EcmAnswer}
    (hea : getEcmAnswer reader er = some ea) (hnew : ea.status.requestAnswered = false) :
    ∃ ea', getEcmAnswer reader (writeEcmAnswer reader given er) = some ea' ∧ Stored given ea ea' := by
  have hupdate : ∀ (er' : Answer.EcmRequest) (rc rcEx : ℕ), getEcmAnswer reader
      (er'.update reader (·.store (!refused given) rc rcEx given.cw)) =
        (getEcmAnswer reader er').map (·.store (!refused given) rc rcEx given.cw) :=
    fun er' rc rcEx => getEcmAnswer_update fun _ => rfl
  have hflag : (ea.status.requestAnswered || !refused given) = !refused given := by
    rw [hnew, Bool.false_or]
  unfold writeEcmAnswer
  simp only [hea, hnew, Bool.false_eq_true, if_false]
  have hrefused : (given.lgRefused && decide (given.rc < E_NOTFOUND)) = refused given := rfl
  rw [hrefused]
  by_cases hbad : (if refused given = true then E_NOTFOUND else given.rc) = E_NOTFOUND ∧
      given.rcEx = E2_WRONG_CHKSUM
  · rw [if_pos hbad, hupdate, getEcmAnswer_wrongChksum, hea]
    refine ⟨_, rfl, fun _ => (by decide : E_INVALID < E_99), hflag, rfl, fun hclean => ?_⟩
    simp only [clean, Bool.and_eq_true, Bool.not_eq_true'] at hclean
    simp only [refused, hclean.1.1.1, Bool.false_and, Bool.false_eq_true, if_false] at hbad
    exact absurd hbad (of_decide_eq_false hclean.2)
  · rw [if_neg hbad, hupdate, getEcmAnswer_cycleCheck, hea]
    refine ⟨_, rfl, fun hrc => ?_, hflag, rfl, fun hclean => ?_⟩
    · have hgiven : (if refused given = true then E_NOTFOUND else given.rc) < E_99 := by
        split_ifs
        · decide
        · exact hrc
      dsimp only [EcmAnswer.store]
      generalize (if refused given = true then E_NOTFOUND else given.rc) = rc at hgiven
      split_ifs
      · exact (by decide : E_NOTFOUND < E_99)
      · exact checkedRc_lt given hgiven
    · simp only [clean, Bool.and_eq_true, Bool.not_eq_true', Option.isNone_iff_eq_none] at hclean
      obtain ⟨⟨⟨hlg, hcw⟩, hcycle⟩, -⟩ := hclean
      simp [refused, checkedRc, EcmAnswer.store, hlg, hcw, hcycle]

/-- The answer of the reader. -/
def Asked.ea (r : Asked reader) : EcmAnswer := (getEcmAnswer reader r.1).get r.2

theorem Asked.getEcmAnswer_eq (r : Asked reader) : getEcmAnswer reader r.1 = some r.ea :=
  (Option.some_get r.2).symm

/-- Changes what is known of the answer. -/
def Asked.update (r : Asked reader) (f : EcmAnswer → EcmAnswer) (hf : ∀ ea, (f ea).reader = ea.reader) :
    Asked reader :=
  ⟨r.1.update reader f, by rw [getEcmAnswer_update hf, Option.isSome_map]; exact r.2⟩

@[simp] theorem Asked.ea_update (r : Asked reader) {f : EcmAnswer → EcmAnswer}
    (hf : ∀ ea, (f ea).reader = ea.reader) : (r.update f hf).ea = f r.ea := by
  have hmap := @getEcmAnswer_update reader r.1 f hf
  rw [r.getEcmAnswer_eq] at hmap
  exact Option.some.inj ((r.update f hf).getEcmAnswer_eq.symm.trans hmap)

private theorem writeEcmAnswer_answered (given : Given) {er : Answer.EcmRequest} {ea : EcmAnswer}
    (hea : getEcmAnswer reader er = some ea) (hold : ea.status.requestAnswered = true) :
    writeEcmAnswer reader given er = er := by
  unfold writeEcmAnswer
  simp only [hea, hold, if_true]

/-- `write_ecm_answer` for the request. -/
def Asked.write (r : Asked reader) (given : Given) : Asked reader :=
  ⟨writeEcmAnswer reader given r.1, by
    cases hanswered : r.ea.status.requestAnswered with
    | true =>
      rw [writeEcmAnswer_answered given r.getEcmAnswer_eq hanswered]
      exact r.2
    | false =>
      obtain ⟨ea', hea', -⟩ := writeEcmAnswer_stored given r.getEcmAnswer_eq hanswered
      rw [hea']
      rfl⟩

theorem Asked.write_stored (r : Asked reader) (given : Given)
    (hnew : r.ea.status.requestAnswered = false) : Stored given r.ea (r.write given).ea := by
  obtain ⟨ea', hea', hstored⟩ := writeEcmAnswer_stored given r.getEcmAnswer_eq hnew
  obtain rfl := Option.some.inj ((r.write given).getEcmAnswer_eq.symm.trans hea')
  exact hstored

end Asked

/-- A call of `write_ecm_answer` for the attached request `er` with the answer of `ecm`: what it was given,
and whether it came too late or after another answer. -/
structure Passed (ι : Type*) where
  er : ι
  ecm : ι
  given : Given
  late : Bool
  answered : Bool

/-- The identical requests, which `ι` names, and where the threads are with them. -/
structure State (ι : Type*) (reader : ℕ) where
  er : ι → Asked reader
  /-- The chain of the requests attached to each request. -/
  pending : ι → List ι
  /-- The request the thread of the reader is at in `reader_get_ecm`, and the one it found. -/
  found : Option (ι × ι)
  /-- Attached, and the answer was there. -/
  direct : List (ι × ι)
  /-- The answer is stored, and the chain not read yet. -/
  stored : List ι
  /-- The runs of `distribute_ea`, with the rest of the chain. -/
  walks : List (ι × List ι)
  attached : List (ι × ι)
  passed : List (Passed ι)

/-- The locked sections and what lies between them. -/
inductive Act (ι : Type*)
  /-- `request_cw_from_readers` sends the request to the reader. -/
  | send (er : ι)
  /-- `reader_get_ecm` finds `ecm` in `ecmcwcache`. -/
  | find (er ecm : ι)
  /-- Its section under the lock of the answer. -/
  | attach
  | direct (er ecm : ι) (given : Given) (late : Bool)
  /-- The section of `write_ecm_answer` under the lock, for a request that is not attached. -/
  | deliver (er : ι) (given : Given) (late : Bool)
  /-- `write_ecm_answer` reads the chain. -/
  | distribute (ecm : ι)
  /-- The next round of a loop of `distribute_ea`. -/
  | next (k : ℕ) (given : Given) (late : Bool)

section System

variable {ι : Type*} [DecidableEq ι] {reader : ℕ}

/-- `reader_get_ecm` takes the request for one that was sent to the reader. -/
def wasSent (ea : EcmAnswer) : Bool :=
  !ea.isPending && ea.status.requestSent && decide (ea.rc ≠ E_TIMEOUT ∧ ea.rcEx ≠ E2_RATELIMIT)

/-- What is handed on of an answer; `given` has the results of the checks. -/
def handOn (ea : EcmAnswer) (given : Given) : Given :=
  { given with rc := if ea.rc = E_FOUND then E_FOUND else E_NOTFOUND, rcEx := ea.rcEx, cw := some ea.cw }

namespace State

/-- `write_ecm_answer` up to the end of its locked section. -/
def write (s : State ι reader) (er : ι) (given : Given) (late : Bool) : State ι reader :=
  if late || (s.er er).ea.status.requestAnswered then s
  else { s with er := Function.update s.er er ((s.er er).write given), stored := s.stored ++ [er] }

omit [DecidableEq ι] in
/-- A call for `er` with the answer of `ecm`. -/
def record (s : State ι reader) (er ecm : ι) (given : Given) (late : Bool) : Passed ι :=
  ⟨er, ecm, handOn (s.er ecm).ea given, late, (s.er er).ea.status.requestAnswered⟩

/-- The answer of `ecm` is handed on to `er`. -/
def pass (s : State ι reader) (er ecm : ι) (given : Given) (late : Bool) : State ι reader :=
  { s.write er (handOn (s.er ecm).ea given) late with
    passed := s.passed ++ [s.record er ecm given late] }

/-- The request becomes a pending one, and its answer is there or it goes to the chain. -/
def attach (s : State ι reader) (er ecm : ι) : State ι reader :=
  let pending := (s.er er).update (fun ea => { ea with isPending := true }) fun _ => rfl
  let s := { s with
    er := Function.update s.er er pending, found := none, attached := s.attached ++ [(er, ecm)] }
  if (s.er ecm).ea.rc < E_99 then { s with direct := s.direct ++ [(er, ecm)] }
  else { s with pending := Function.update s.pending ecm (er :: s.pending ecm) }

/-- Nothing is left of an answer to be handed on. -/
def Idle (s : State ι reader) : Prop := s.direct = [] ∧ s.stored = [] ∧ ∀ w ∈ s.walks, w.2 = []

instance (s : State ι reader) : Decidable s.Idle := by
  unfold Idle
  infer_instance

end State

def next (s : State ι reader) : Act ι → Option (State ι reader)
  | .send er =>
    some { s with er := Function.update s.er er ((s.er er).update EcmAnswer.send fun _ => rfl) }
  | .find er ecm =>
    -- the thread of the reader takes the requests one after the other, and each once
    if s.found = none ∧ er ≠ ecm ∧ er ∉ s.attached.map Prod.fst ∧ wasSent (s.er ecm).ea then
      some { s with found := some (er, ecm) }
    else none
  | .attach => s.found.map fun found => s.attach found.1 found.2
  | .direct er ecm given late =>
    if (er, ecm) ∈ s.direct then
      some ({ s with direct := s.direct.erase (er, ecm) }.pass er ecm given late)
    else none
  | .deliver er given late =>
    if given.rc < E_99 ∧ (s.er er).ea.isPending = false then some (s.write er given late) else none
  | .distribute ecm =>
    if ecm ∈ s.stored then
      some { s with stored := s.stored.erase ecm, walks := s.walks ++ [(ecm, s.pending ecm)] }
    else none
  | .next k given late =>
    match s.walks[k]? with
    | some (ecm, er :: rest) =>
      some ({ s with walks := s.walks.set k (ecm, rest) }.pass er ecm given late)
    | _ => none

/-- The requests are matched with the reader, and none was asked or answered. -/
structure Fresh (s : State ι reader) : Prop where
  rc : ∀ i, (s.er i).ea.rc = E_UNHANDLED
  answered : ∀ i, (s.er i).ea.status.requestAnswered = false
  isPending : ∀ i, (s.er i).ea.isPending = false
  pending : ∀ i, s.pending i = []
  found : s.found = none
  direct : s.direct = []
  stored : s.stored = []
  walks : s.walks = []
  attached : s.attached = []
  passed : s.passed = []

def system : System (State ι reader) (Act ι) where
  init := Fresh
  next := next

/-- No answer is refused as not locally generated, which would leave its request open for another. -/
def Accepts (_ : State ι reader) : Act ι → Prop
  | .deliver _ given _ => refused given = false
  | _ => True

instance (s : State ι reader) (a : Act ι) : Decidable (Accepts s a) := by
  unfold Accepts
  cases a <;> infer_instance

end System

section Inv

variable {ι : Type*} {reader : ℕ} {s : State ι reader}

/-- The answer of the request is there. -/
def State.Settled (s : State ι reader) (o : ι) : Prop := (s.er o).ea.rc < E_99

/-- Where the attached requests are. -/
structure Book (s : State ι reader) : Prop where
  once : (s.attached.map Prod.fst).Nodup
  chain : ∀ o, ∀ i ∈ s.pending o, (i, o) ∈ s.attached
  chainOnce : ∀ o, (s.pending o).Nodup
  direct : ∀ p ∈ s.direct, p ∈ s.attached ∧ p.1 ∉ s.pending p.2 ∧ s.Settled p.2
  directOnce : s.direct.Nodup
  owners : (s.stored ++ s.walks.map Prod.fst).Nodup
  settled : ∀ o, o ∈ s.stored ++ s.walks.map Prod.fst ↔ s.Settled o
  rest : ∀ w ∈ s.walks, w.2.Nodup ∧ ∀ i ∈ w.2, i ∈ s.pending w.1
  chained : ∀ p ∈ s.attached, p.1 ∈ s.pending p.2 →
    (p.1 ∈ s.passed.map Passed.er ↔ ∃ w ∈ s.walks, w.1 = p.2 ∧ p.1 ∉ w.2)
  unchained : ∀ p ∈ s.attached, p.1 ∉ s.pending p.2 →
    (p.1 ∈ s.passed.map Passed.er ↔ p ∉ s.direct)
  passedOnce : (s.passed.map Passed.er).Nodup
  passed : ∀ c ∈ s.passed, (c.er, c.ecm) ∈ s.attached

/-- What was handed on is the answer, and what was taken of it is stored. -/
structure Content (s : State ι reader) : Prop where
  new : ∀ p, s.found = some p → p.1 ∉ s.attached.map Prod.fst
  pending : ∀ p ∈ s.attached, (s.er p.1).ea.isPending = true
  handed : ∀ c ∈ s.passed, s.Settled c.ecm ∧ c.given = handOn (s.er c.ecm).ea c.given
  kept : ∀ c ∈ s.passed, c.late = false → c.answered = false → clean c.given = true →
    (s.er c.er).ea.rc = c.given.rc ∧ (s.er c.er).ea.rcEx = c.given.rcEx ∧
      some (s.er c.er).ea.cw = c.given.cw
  answered : ∀ i, s.Settled i →
    (s.er i).ea.status.requestAnswered = true ∨ i ∈ s.passed.map Passed.er

private theorem Book.owner_eq (hb : Book s) {i o o' : ι} (ho : (i, o) ∈ s.attached)
    (ho' : (i, o') ∈ s.attached) : o = o' :=
  (Prod.mk.inj (List.inj_on_of_nodup_map hb.once ho ho' rfl)).2

private theorem mem_passed_append {c : Passed ι} {i : ι} :
    i ∈ (s.passed ++ [c]).map Passed.er ↔ i ∈ s.passed.map Passed.er ∨ i = c.er := by
  rw [List.map_append, List.mem_append, List.map_singleton, List.mem_singleton]

private theorem nodup_passed_append {c : Passed ι} (hb : Book s) (hc : c.er ∉ s.passed.map Passed.er) :
    ((s.passed ++ [c]).map Passed.er).Nodup := by
  rw [List.map_append, List.map_singleton]
  exact hb.passedOnce.append (List.nodup_singleton _) (List.disjoint_singleton.mpr hc)

private theorem Book.not_passed (hb : Book s) {i : ι} (hnew : i ∉ s.attached.map Prod.fst) :
    i ∉ s.passed.map Passed.er := by
  intro hi
  obtain ⟨c, hc, rfl⟩ := List.mem_map.mp hi
  exact hnew (List.mem_map.mpr ⟨_, hb.passed c hc, rfl⟩)

private theorem nodup_attached_append (hb : Book s) {i o : ι} (hnew : i ∉ s.attached.map Prod.fst) :
    ((s.attached ++ [(i, o)]).map Prod.fst).Nodup := by
  rw [List.map_append, List.map_singleton]
  exact hb.once.append (List.nodup_singleton _) (List.disjoint_singleton.mpr hnew)

/-- A request is attached to one whose answer is there. -/
private theorem Book.attachDirect (hb : Book s) {i o : ι} (hnew : i ∉ s.attached.map Prod.fst)
    (ho : s.Settled o) :
    Book { s with attached := s.attached ++ [(i, o)], direct := s.direct ++ [(i, o)] } := by
  have hother : ∀ p ∈ s.attached, p.1 ≠ i := fun p hp heq =>
    hnew (List.mem_map.mpr ⟨p, hp, heq⟩)
  have hfree : i ∉ s.pending o := fun hi => hother _ (hb.chain _ _ hi) rfl
  have hsub : ∀ p ∈ s.attached, p ∈ s.attached ++ [(i, o)] := fun p hp => List.mem_append_left _ hp
  exact
    { hb with
      once := nodup_attached_append hb hnew
      chain := fun x j hj => hsub _ (hb.chain x j hj)
      direct := fun p hp => by
        rcases List.mem_append.mp hp with hp | hp
        · obtain ⟨hatt, hrest⟩ := hb.direct p hp
          exact ⟨hsub p hatt, hrest⟩
        · obtain rfl := List.mem_singleton.mp hp
          exact ⟨List.mem_append_right _ List.mem_cons_self, hfree, ho⟩
      directOnce := by
        refine hb.directOnce.append (List.nodup_singleton _) (List.disjoint_singleton.mpr ?_)
        exact fun hp => hother _ (hb.direct _ hp).1 rfl
      chained := fun p hp hpend => by
        rcases List.mem_append.mp hp with hp | hp
        · exact hb.chained p hp hpend
        · obtain rfl := List.mem_singleton.mp hp
          exact absurd hpend hfree
      unchained := fun p hp hno => by
        rcases List.mem_append.mp hp with hp | hp
        · rw [hb.unchained p hp hno, List.mem_append, List.mem_singleton,
            or_iff_left fun heq => hother p hp (congrArg Prod.fst heq)]
        · obtain rfl := List.mem_singleton.mp hp
          exact iff_of_false (hb.not_passed hnew)
            fun hnot => hnot (List.mem_append_right _ List.mem_cons_self)
      passed := fun c hc => hsub _ (hb.passed c hc) }

/-- Nothing but the answers changes, and they stay the same. -/
private theorem Book.congr (hb : Book s) {er : ι → Asked reader}
    (h : ∀ j, (er j).ea.rc = (s.er j).ea.rc) : Book { s with er } := by
  have hsettled : ∀ o, State.Settled { s with er } o ↔ s.Settled o := fun o => by
    unfold State.Settled
    rw [h]
  exact
    { hb with
      direct := fun p hp => by
        obtain ⟨hatt, hno, ho⟩ := hb.direct p hp
        exact ⟨hatt, hno, (hsettled _).mpr ho⟩
      settled := fun o => (hb.settled o).trans (hsettled o).symm }

private theorem Content.congr (hc : Content s) {er : ι → Asked reader}
    (h : ∀ j, ∃ requestSent isPending, (er j).ea =
      { (s.er j).ea with
        status := { (s.er j).ea.status with requestSent }
        isPending := (s.er j).ea.isPending || isPending }) : Content { s with er } where
  new := hc.new
  pending := fun p hp => by
    obtain ⟨_, _, heq⟩ := h p.1
    dsimp only
    rw [heq, hc.pending p hp]
    rfl
  handed := fun c hcm => by
    obtain ⟨_, _, heq⟩ := h c.ecm
    unfold State.Settled
    dsimp only
    rw [heq]
    exact hc.handed c hcm
  kept := fun c hcm => by
    obtain ⟨_, _, heq⟩ := h c.er
    dsimp only
    rw [heq]
    exact hc.kept c hcm
  answered := fun i => by
    obtain ⟨_, _, heq⟩ := h i
    unfold State.Settled
    dsimp only
    rw [heq]
    exact hc.answered i

private theorem inv_congr (hb : Book s) (hc : Content s) {er : ι → Asked reader}
    (h : ∀ j, ∃ requestSent isPending, (er j).ea =
      { (s.er j).ea with
        status := { (s.er j).ea.status with requestSent }
        isPending := (s.er j).ea.isPending || isPending }) : Book { s with er } ∧ Content { s with er } := by
  refine ⟨hb.congr fun j => ?_, hc.congr h⟩
  obtain ⟨_, _, heq⟩ := h j
  rw [heq]

private theorem inv_fresh (h : Fresh s) : Book s ∧ Content s := by
  have hunsettled : ∀ i, ¬ s.Settled i := by
    intro i hi
    rw [State.Settled, h.rc] at hi
    exact absurd hi (by decide)
  constructor
  · constructor
    all_goals simp [h.pending, h.direct, h.stored, h.walks, h.attached, h.passed, hunsettled]
  · constructor
    all_goals simp [h.found, h.attached, h.passed, hunsettled]

variable [DecidableEq ι]

private theorem settled_update {i : ι} {x : Asked reader} (hx : x.ea.rc < E_99) {stored : List ι} (o : ι) :
    State.Settled { s with er := Function.update s.er i x, stored := stored } o ↔ o = i ∨ s.Settled o := by
  unfold State.Settled
  by_cases ho : o = i
  · subst ho
    simp [hx]
  · simp [ho]

/-- An answer is stored. -/
private theorem Book.store (hb : Book s) {i : ι} {x : Asked reader} (hnew : ¬ s.Settled i)
    (hx : x.ea.rc < E_99) :
    Book { s with er := Function.update s.er i x, stored := s.stored ++ [i] } where
  once := hb.once
  chain := hb.chain
  chainOnce := hb.chainOnce
  direct := fun p hp => by
    obtain ⟨hatt, hno, hsettled⟩ := hb.direct p hp
    exact ⟨hatt, hno, (settled_update hx _).mpr (Or.inr hsettled)⟩
  directOnce := hb.directOnce
  owners := by
    have hi : i ∉ s.stored ++ s.walks.map Prod.fst := fun hmem => hnew ((hb.settled i).mp hmem)
    have hperm : (s.stored ++ [i] ++ s.walks.map Prod.fst).Perm
        (i :: (s.stored ++ s.walks.map Prod.fst)) := by
      rw [List.append_assoc]
      exact List.perm_middle
    exact hperm.nodup_iff.mpr (List.nodup_cons.mpr ⟨hi, hb.owners⟩)
  settled := fun o => by
    rw [settled_update hx, ← hb.settled]
    simp only [List.mem_append, List.mem_singleton]
    tauto
  rest := hb.rest
  chained := hb.chained
  unchained := hb.unchained
  passedOnce := hb.passedOnce
  passed := hb.passed

/-- The answer that was there is handed on. -/
private theorem Book.passDirect (hb : Book s) {c : Passed ι} (h : (c.er, c.ecm) ∈ s.direct) :
    c.er ∉ s.passed.map Passed.er ∧
      Book { s with direct := s.direct.erase (c.er, c.ecm), passed := s.passed ++ [c] } := by
  obtain ⟨hatt, hno, hsettled⟩ := hb.direct _ h
  have hnew : c.er ∉ s.passed.map Passed.er := fun hmem => (hb.unchained _ hatt hno).mp hmem h
  refine ⟨hnew, ?_⟩
  exact
    { hb with
      direct := fun p hp => hb.direct p (List.mem_of_mem_erase hp)
      directOnce := hb.directOnce.erase _
      chained := fun p hp hpend => by
        have hne : p.1 ≠ c.er := by
          intro heq
          obtain ⟨i, o⟩ := p
          obtain rfl : i = c.er := heq
          obtain rfl := hb.owner_eq hp hatt
          exact hno hpend
        rw [mem_passed_append, or_iff_left hne]
        exact hb.chained p hp hpend
      unchained := fun p hp hpend => by
        rw [mem_passed_append]
        by_cases heq : p.1 = c.er
        · obtain ⟨i, o⟩ := p
          obtain rfl : i = c.er := heq
          obtain rfl := hb.owner_eq hp hatt
          exact iff_of_true (Or.inr rfl) (List.Nodup.not_mem_erase hb.directOnce)
        · rw [or_iff_left heq, hb.unchained p hp hpend,
            List.mem_erase_of_ne fun hpc => heq (congrArg Prod.fst hpc)]
      passedOnce := nodup_passed_append hb hnew
      passed := fun d hd => by
        rcases List.mem_append.mp hd with hd | hd
        · exact hb.passed d hd
        · obtain rfl := List.mem_singleton.mp hd
          exact hatt }

/-- The answer is handed on to the next request of a chain. -/
private theorem Book.passNext (hb : Book s) {c : Passed ι} {k : ℕ} {rest : List ι}
    (h : s.walks[k]? = some (c.ecm, c.er :: rest)) :
    (s.Settled c.ecm ∧ c.er ∉ s.passed.map Passed.er) ∧
      Book { s with walks := s.walks.set k (c.ecm, rest), passed := s.passed ++ [c] } := by
  obtain ⟨hk, hget⟩ := List.getElem?_eq_some_iff.mp h
  obtain ⟨before, after, hwalks, -, hset⟩ := @List.exists_of_set _ k (c.ecm, rest) s.walks hk
  rw [hget] at hwalks
  have hmem : (c.ecm, c.er :: rest) ∈ s.walks := hwalks ▸ List.mem_append_right _ List.mem_cons_self
  have howners : (s.walks.set k (c.ecm, rest)).map Prod.fst = s.walks.map Prod.fst := by
    rw [hset, hwalks]
    simp
  obtain ⟨hrest, hchain⟩ := hb.rest _ hmem
  obtain ⟨hnotrest, hrest⟩ := List.nodup_cons.mp hrest
  have hpending : c.er ∈ s.pending c.ecm := hchain _ List.mem_cons_self
  have hatt := hb.chain _ _ hpending
  have hwalksOnce : (s.walks.map Prod.fst).Nodup := (List.nodup_append.mp hb.owners).2.1
  have hnew : c.er ∉ s.passed.map Passed.er := by
    intro hpassed
    obtain ⟨w, hw, howner, hgone⟩ := (hb.chained _ hatt hpending).mp hpassed
    obtain rfl := List.inj_on_of_nodup_map hwalksOnce hw hmem howner
    exact hgone List.mem_cons_self
  have hsettled : s.Settled c.ecm :=
    (hb.settled _).mp (List.mem_append_right _ (List.mem_map.mpr ⟨_, hmem, rfl⟩))
  have hmemset : ∀ w, w ∈ s.walks.set k (c.ecm, rest) ↔
      w = (c.ecm, rest) ∨ w ∈ s.walks ∧ w ≠ (c.ecm, c.er :: rest) := by
    intro w
    have hother : (c.ecm, c.er :: rest) ∉ before ++ after :=
      (List.nodup_middle.mp (hwalks ▸ hwalksOnce.of_map)).notMem
    rw [hset, hwalks]
    simp only [List.mem_append, List.mem_cons] at hother ⊢
    constructor
    · rintro (hw | rfl | hw)
      · exact Or.inr ⟨Or.inl hw, fun heq => hother (Or.inl (heq ▸ hw))⟩
      · exact Or.inl rfl
      · exact Or.inr ⟨Or.inr (Or.inr hw), fun heq => hother (Or.inr (heq ▸ hw))⟩
    · tauto
  refine ⟨⟨hsettled, hnew⟩, ?_⟩
  exact
    { hb with
      owners := by
        rw [howners]
        exact hb.owners
      settled := fun o => by
        rw [howners]
        exact hb.settled o
      rest := fun w hw => by
        rcases (hmemset w).mp hw with rfl | ⟨hw, -⟩
        · exact ⟨hrest, fun i hi => hchain i (List.mem_cons_of_mem _ hi)⟩
        · exact hb.rest w hw
      chained := fun p hp hpend => by
        rw [mem_passed_append]
        by_cases heq : p.1 = c.er
        · obtain ⟨i, o⟩ := p
          obtain rfl : i = c.er := heq
          obtain rfl := hb.owner_eq hp hatt
          exact iff_of_true (Or.inr rfl) ⟨_, (hmemset _).mpr (Or.inl rfl), rfl, hnotrest⟩
        rw [or_iff_left heq, hb.chained p hp hpend]
        constructor
        · rintro ⟨w, hw, howner, hgone⟩
          by_cases hwhead : w = (c.ecm, c.er :: rest)
          · subst hwhead
            exact ⟨_, (hmemset _).mpr (Or.inl rfl), howner,
              fun hin => hgone (List.mem_cons_of_mem _ hin)⟩
          · exact ⟨w, (hmemset w).mpr (Or.inr ⟨hw, hwhead⟩), howner, hgone⟩
        · rintro ⟨w, hw, howner, hgone⟩
          rcases (hmemset w).mp hw with rfl | ⟨hw, -⟩
          · refine ⟨_, hmem, howner, fun hin => ?_⟩
            rcases List.mem_cons.mp hin with hin | hin
            · exact heq hin
            · exact hgone hin
          · exact ⟨w, hw, howner, hgone⟩
      unchained := fun p hp hno => by
        have hne : p.1 ≠ c.er := by
          intro heq
          obtain ⟨i, o⟩ := p
          obtain rfl : i = c.er := heq
          obtain rfl := hb.owner_eq hp hatt
          exact hno hpending
        rw [mem_passed_append, or_iff_left hne]
        exact hb.unchained p hp hno
      passedOnce := nodup_passed_append hb hnew
      passed := fun d hd => by
        rcases List.mem_append.mp hd with hd | hd
        · exact hb.passed d hd
        · obtain rfl := List.mem_singleton.mp hd
          exact hatt }

/-- The chain is read. -/
private theorem Book.distribute (hb : Book s) {o : ι} (h : o ∈ s.stored) :
    Book { s with stored := s.stored.erase o, walks := s.walks ++ [(o, s.pending o)] } := by
  have hperm : (s.stored.erase o ++ (s.walks ++ [(o, s.pending o)]).map Prod.fst).Perm
      (s.stored ++ s.walks.map Prod.fst) := by
    rw [List.map_append, List.map_singleton, ← List.append_assoc]
    refine (List.perm_append_singleton o _).trans ?_
    rw [← List.cons_append]
    exact (List.perm_cons_erase h).symm.append_right _
  have hno : ∀ w ∈ s.walks, w.1 ≠ o := fun w hw heq =>
    (List.nodup_append.mp hb.owners).2.2 o h w.1 (List.mem_map.mpr ⟨w, hw, rfl⟩) heq.symm
  exact
    { hb with
      owners := hperm.nodup_iff.mpr hb.owners
      settled := fun x => (hperm.mem_iff).trans (hb.settled x)
      rest := fun w hw => by
        rcases List.mem_append.mp hw with hw | hw
        · exact hb.rest w hw
        · obtain rfl := List.mem_singleton.mp hw
          exact ⟨hb.chainOnce o, fun i hi => hi⟩
      chained := fun p hp hpend => by
        rw [hb.chained p hp hpend]
        constructor
        · rintro ⟨w, hw, hrest⟩
          exact ⟨w, List.mem_append_left _ hw, hrest⟩
        · rintro ⟨w, hw, howner, hgone⟩
          rcases List.mem_append.mp hw with hw | hw
          · exact ⟨w, hw, howner, hgone⟩
          · obtain rfl := List.mem_singleton.mp hw
            obtain rfl : o = p.2 := howner
            exact absurd hpend hgone }

/-- A request goes to the chain of one that has no answer yet. -/
private theorem Book.attachPending (hb : Book s) {i o : ι} (hnew : i ∉ s.attached.map Prod.fst)
    (ho : ¬ s.Settled o) :
    Book { s with
      attached := s.attached ++ [(i, o)]
      pending := Function.update s.pending o (i :: s.pending o) } := by
  have hother : ∀ p ∈ s.attached, p.1 ≠ i := fun p hp heq =>
    hnew (List.mem_map.mpr ⟨p, hp, heq⟩)
  have hfree : ∀ x, i ∉ s.pending x := fun x hi => hother _ (hb.chain _ _ hi) rfl
  have hsub : ∀ p ∈ s.attached, p ∈ s.attached ++ [(i, o)] := fun p hp => List.mem_append_left _ hp
  have hpending : ∀ x j, j ∈ Function.update s.pending o (i :: s.pending o) x ↔
      j ∈ s.pending x ∨ j = i ∧ x = o := by
    intro x j
    by_cases hx : x = o
    · subst hx
      rw [Function.update_self, List.mem_cons]
      tauto
    · rw [Function.update_of_ne hx]
      tauto
  have hold : ∀ p ∈ s.attached, (p.1 ∈ Function.update s.pending o (i :: s.pending o) p.2 ↔
      p.1 ∈ s.pending p.2) := fun p hp => by
    rw [hpending, or_iff_left fun h => hother p hp h.1]
  exact
    { hb with
      once := nodup_attached_append hb hnew
      chain := fun x j hj => by
        rcases (hpending x j).mp hj with hj | ⟨rfl, rfl⟩
        · exact hsub _ (hb.chain x j hj)
        · exact List.mem_append_right _ List.mem_cons_self
      chainOnce := fun x => by
        by_cases hx : x = o
        · subst hx
          dsimp only
          rw [Function.update_self]
          exact List.nodup_cons.mpr ⟨hfree x, hb.chainOnce x⟩
        · dsimp only
          rw [Function.update_of_ne hx]
          exact hb.chainOnce x
      direct := fun p hp => by
        obtain ⟨hatt, hno, hsettled⟩ := hb.direct p hp
        exact ⟨hsub p hatt, fun h => hno ((hold p hatt).mp h), hsettled⟩
      rest := fun w hw => by
        obtain ⟨honce, hin⟩ := hb.rest w hw
        exact ⟨honce, fun j hj => (hpending _ _).mpr (Or.inl (hin j hj))⟩
      chained := fun p hp hpend => by
        rcases List.mem_append.mp hp with hp | hp
        · exact hb.chained p hp ((hold p hp).mp hpend)
        · obtain rfl := List.mem_singleton.mp hp
          refine iff_of_false (hb.not_passed hnew) ?_
          rintro ⟨w, hw, rfl, -⟩
          exact ho ((hb.settled _).mp (List.mem_append_right _ (List.mem_map.mpr ⟨w, hw, rfl⟩)))
      unchained := fun p hp hno => by
        rcases List.mem_append.mp hp with hp | hp
        · exact hb.unchained p hp fun h => hno ((hold p hp).mpr h)
        · obtain rfl := List.mem_singleton.mp hp
          exact absurd ((hpending _ _).mpr (Or.inr ⟨rfl, rfl⟩)) hno
      passed := fun c hc => hsub _ (hb.passed c hc) }

private theorem pass_eq (s : State ι reader) (er ecm : ι) (given : Given) (late : Bool) :
    s.pass er ecm given late =
      State.write { s with passed := s.passed ++ [s.record er ecm given late] } er
        (handOn (s.er ecm).ea given) late := by
  unfold State.pass State.write
  split_ifs <;> rfl

private theorem handOn_lt (ea : EcmAnswer) (given : Given) : (handOn ea given).rc < E_99 := by
  unfold handOn
  dsimp only
  split_ifs
  · exact (by decide : E_FOUND < E_99)
  · exact (by decide : E_NOTFOUND < E_99)

/-- The call for an attached request that waited for the answer. -/
private theorem pass_inv {er ecm : ι} {given : Given} {late : Bool} {direct : List (ι × ι)}
    {walks : List (ι × List ι)} (hc : Content s) (ho : s.Settled ecm)
    (hnew : er ∉ s.passed.map Passed.er)
    (hb : Book { s with
      direct, walks
      passed := s.passed ++ [s.record er ecm given late] }) :
    Book ({ s with direct, walks }.pass er ecm given late) ∧
      Content ({ s with direct, walks }.pass er ecm given late) := by
  rw [pass_eq]
  unfold State.write
  by_cases htaken : (late || (s.er er).ea.status.requestAnswered) = true
  · rw [if_pos htaken]
    refine ⟨hb, hc.new, hc.pending, fun c hcm => ?_, fun c hcm hlate hans => ?_, fun i hi => ?_⟩
    · rcases List.mem_append.mp hcm with hcm | hcm
      · exact hc.handed c hcm
      · obtain rfl := List.mem_singleton.mp hcm
        exact ⟨ho, rfl⟩
    · rcases List.mem_append.mp hcm with hcm | hcm
      · exact hc.kept c hcm hlate hans
      · obtain rfl := List.mem_singleton.mp hcm
        obtain rfl : late = false := hlate
        exact absurd (htaken.symm.trans hans) Bool.false_ne_true.symm
    · rcases hc.answered i hi with hans | hpassed
      · exact Or.inl hans
      · exact Or.inr (mem_passed_append.mpr (Or.inl hpassed))
  · rw [if_neg htaken]
    obtain ⟨rfl, hans⟩ : late = false ∧ (s.er er).ea.status.requestAnswered = false := by
      simpa using htaken
    have hunsettled : ¬ s.Settled er := by
      intro hsettled
      rcases hc.answered er hsettled with hans' | hpassed
      · exact absurd (hans'.symm.trans hans) Bool.false_ne_true.symm
      · exact hnew hpassed
    have hstored := (s.er er).write_stored (handOn (s.er ecm).ea given) hans
    have hrc := hstored.rc (handOn_lt _ _)
    have hsame : ∀ j, j ≠ er →
        Function.update s.er er ((s.er er).write (handOn (s.er ecm).ea given)) j = s.er j :=
      fun j hj => Function.update_of_ne hj _ _
    have hother : ∀ j, s.Settled j → j ≠ er := fun j hj heq => hunsettled (heq ▸ hj)
    refine ⟨hb.store hunsettled hrc, hc.new, fun p hp => ?_, fun c hcm => ?_,
      fun c hcm hlate hans' hclean => ?_, fun i hi => ?_⟩
    · dsimp only
      by_cases hp' : p.1 = er
      · rw [hp', Function.update_self, hstored.isPending, ← hp']
        exact hc.pending p hp
      · rw [hsame _ hp']
        exact hc.pending p hp
    · have hhanded : s.Settled c.ecm ∧ c.given = handOn (s.er c.ecm).ea c.given := by
        rcases List.mem_append.mp hcm with hcm | hcm
        · exact hc.handed c hcm
        · obtain rfl := List.mem_singleton.mp hcm
          exact ⟨ho, rfl⟩
      unfold State.Settled
      dsimp only
      rw [hsame _ (hother _ hhanded.1)]
      exact hhanded
    · dsimp only
      rcases List.mem_append.mp hcm with hcm | hcm
      · have hne : c.er ≠ er := fun heq => hnew (heq ▸ List.mem_map.mpr ⟨c, hcm, rfl⟩)
        rw [hsame _ hne]
        exact hc.kept c hcm hlate hans' hclean
      · obtain rfl := List.mem_singleton.mp hcm
        obtain ⟨hrc', hrcEx, hcw⟩ := hstored.same hclean
        dsimp only [State.record]
        rw [Function.update_self]
        exact ⟨hrc', hrcEx, congrArg some hcw⟩
    · rcases (settled_update hrc i).mp hi with rfl | hi
      · exact Or.inr (mem_passed_append.mpr (Or.inr rfl))
      · dsimp only
        rw [hsame _ (hother _ hi)]
        rcases hc.answered i hi with hans' | hpassed
        · exact Or.inl hans'
        · exact Or.inr (mem_passed_append.mpr (Or.inl hpassed))

/-- A request that is not attached is answered. -/
private theorem write_inv (hb : Book s) (hc : Content s) {er : ι} {given : Given} {late : Bool}
    (hrc : given.rc < E_99) (hfree : (s.er er).ea.isPending = false) (haccept : refused given = false) :
    Book (s.write er given late) ∧ Content (s.write er given late) := by
  have hnew : er ∉ s.passed.map Passed.er := by
    intro hpassed
    obtain ⟨c, hcm, rfl⟩ := List.mem_map.mp hpassed
    exact Bool.false_ne_true (hfree.symm.trans (hc.pending _ (hb.passed c hcm)))
  unfold State.write
  split_ifs with htaken
  · exact ⟨hb, hc⟩
  obtain ⟨-, hans⟩ : late = false ∧ (s.er er).ea.status.requestAnswered = false := by
    simpa using htaken
  have hunsettled : ¬ s.Settled er := by
    intro hsettled
    rcases hc.answered er hsettled with hans' | hpassed
    · exact absurd (hans'.symm.trans hans) Bool.false_ne_true.symm
    · exact hnew hpassed
  have hstored := (s.er er).write_stored given hans
  have hsame : ∀ j, j ≠ er → Function.update s.er er ((s.er er).write given) j = s.er j :=
    fun j hj => Function.update_of_ne hj _ _
  have hother : ∀ j, s.Settled j → j ≠ er := fun j hj heq => hunsettled (heq ▸ hj)
  refine ⟨hb.store hunsettled (hstored.rc hrc), hc.new, fun p hp => ?_, fun c hcm => ?_,
    fun c hcm hlate hans' hclean => ?_, fun i hi => ?_⟩
  · dsimp only
    rw [hsame _ fun heq => Bool.false_ne_true (hfree.symm.trans (heq ▸ hc.pending p hp))]
    exact hc.pending p hp
  · have hhanded := hc.handed c hcm
    unfold State.Settled
    dsimp only
    rw [hsame _ (hother _ hhanded.1)]
    exact hhanded
  · dsimp only
    have hne : c.er ≠ er := fun heq => hnew (heq ▸ List.mem_map.mpr ⟨c, hcm, rfl⟩)
    rw [hsame _ hne]
    exact hc.kept c hcm hlate hans' hclean
  · rcases (settled_update (hstored.rc hrc) i).mp hi with rfl | hi
    · refine Or.inl ?_
      dsimp only
      rw [Function.update_self, hstored.answered, haccept]
      rfl
    · dsimp only
      rw [hsame _ (hother _ hi)]
      exact hc.answered i hi

/-- A change of what was sent or is pending. -/
private theorem ea_update_flags {er : ι} {f : EcmAnswer → EcmAnswer}
    (hf : ∀ ea, (f ea).reader = ea.reader)
    (h : ∀ ea, ∃ requestSent isPending, f ea =
      { ea with
        status := { ea.status with requestSent }
        isPending := ea.isPending || isPending }) (j : ι) :
    ∃ requestSent isPending, (Function.update s.er er ((s.er er).update f hf) j).ea =
      { (s.er j).ea with
        status := { (s.er j).ea.status with requestSent }
        isPending := (s.er j).ea.isPending || isPending } := by
  by_cases hj : j = er
  · subst hj
    rw [Function.update_self, Asked.ea_update]
    exact h _
  · rw [Function.update_of_ne hj]
    exact ⟨(s.er j).ea.status.requestSent, false, by rw [Bool.or_false]⟩

private theorem attach_inv (hb : Book s) (hc : Content s) {er ecm : ι}
    (hfound : s.found = some (er, ecm)) : Book (s.attach er ecm) ∧ Content (s.attach er ecm) := by
  have hflags := @ea_update_flags ι reader s _ er (fun ea => { ea with isPending := true })
    (fun _ => rfl) fun ea => ⟨ea.status.requestSent, true, by rw [Bool.or_true]⟩
  obtain ⟨hb', hc'⟩ := inv_congr hb hc hflags
  have hnew := hc.new _ hfound
  have hpending : ∀ p ∈ s.attached ++ [(er, ecm)], (Function.update s.er er
      ((s.er er).update (fun ea => { ea with isPending := true }) fun _ => rfl) p.1).ea.isPending =
        true := by
    intro p hp
    rcases List.mem_append.mp hp with hp | hp
    · exact hc'.pending p hp
    · obtain rfl := List.mem_singleton.mp hp
      dsimp only
      rw [Function.update_self, Asked.ea_update]
  unfold State.attach
  dsimp only
  split_ifs with ho
  · exact ⟨{ hb'.attachDirect hnew ho with },
      { hc' with new := fun p hp => (by cases hp), pending := hpending }⟩
  · exact ⟨{ hb'.attachPending hnew ho with },
      { hc' with new := fun p hp => (by cases hp), pending := hpending }⟩

private theorem inv_next (hb : Book s) (hc : Content s) {a : Act ι} {t : State ι reader}
    (hg : Accepts s a) (h : next s a = some t) : Book t ∧ Content t := by
  cases a with
  | send er =>
    obtain rfl := Option.some.inj h
    have hflags := @ea_update_flags ι reader s _ er EcmAnswer.send (fun _ => rfl)
      fun ea => ⟨true, false, by rw [Bool.or_false]; rfl⟩
    exact inv_congr hb hc hflags
  | find er ecm =>
    dsimp only [next] at h
    split_ifs at h with hfind
    obtain rfl := Option.some.inj h
    refine ⟨{ hb with }, { hc with new := fun p hp => ?_ }⟩
    obtain rfl := Option.some.inj hp
    exact hfind.2.2.1
  | attach =>
    obtain ⟨p, hfound, rfl⟩ := Option.map_eq_some_iff.mp h
    exact attach_inv hb hc hfound
  | direct er ecm given late =>
    dsimp only [next] at h
    split_ifs at h with hdirect
    obtain rfl := Option.some.inj h
    obtain ⟨hnew, hbook⟩ := @Book.passDirect _ _ _ _ hb (s.record er ecm given late) hdirect
    exact pass_inv hc (hb.direct _ hdirect).2.2 hnew hbook
  | deliver er given late =>
    dsimp only [next] at h
    split_ifs at h with hdeliver
    obtain rfl := Option.some.inj h
    exact write_inv hb hc hdeliver.1 hdeliver.2 hg
  | distribute ecm =>
    dsimp only [next] at h
    split_ifs at h with hstored
    obtain rfl := Option.some.inj h
    exact ⟨hb.distribute hstored, { hc with }⟩
  | next k given late =>
    dsimp only [next] at h
    split at h
    case h_2 => cases h
    case h_1 ecm er rest hwalk =>
      obtain rfl := Option.some.inj h
      obtain ⟨⟨ho, hnew⟩, hbook⟩ :=
        @Book.passNext _ _ _ _ hb (s.record er ecm given late) _ _ hwalk
      exact pass_inv hc ho hnew hbook

/-- On runs in which no answer is refused, an attached request is handed the answer of the other one
exactly once when nothing is left to be done for it, and before that waits for it in a chain that will be
gone through; what is handed on is that answer, found or not found, and it is stored if it comes in time,
before any other, and passes the checks. -/
theorem attached_answered (s : State ι reader) (h : system.Reachable Accepts s) :
    (∀ p ∈ s.attached, s.Settled p.2 → s.Idle → (s.passed.filter fun c => c.er = p.1).length = 1) ∧
    (∀ i, (s.passed.filter fun c => c.er = i).length ≤ 1) ∧
    (∀ o, ∀ i ∈ s.pending o, s.Settled o →
      o ∈ s.stored ∨ (∃ w ∈ s.walks, w.1 = o ∧ i ∈ w.2) ∨ ∃ c ∈ s.passed, c.er = i) ∧
    ∀ c ∈ s.passed, (c.er, c.ecm) ∈ s.attached ∧ s.Settled c.ecm ∧
      c.given = handOn (s.er c.ecm).ea c.given ∧
      (c.late = false → c.answered = false → clean c.given = true →
        (s.er c.er).ea.rc = c.given.rc ∧ (s.er c.er).ea.rcEx = c.given.rcEx ∧
          some (s.er c.er).ea.cw = c.given.cw) := by
  obtain ⟨hb, hc⟩ : Book s ∧ Content s := by
    refine h.invariant (I := fun s => Book s ∧ Content s) (fun s hinit => inv_fresh hinit) ?_
    rintro s a t ⟨hb, hc⟩ hg ht
    exact inv_next hb hc hg ht
  have hcount : ∀ i, (s.passed.filter fun c => c.er = i).length =
      (s.passed.map Passed.er).count i := by
    intro i
    rw [List.count, List.countP_map, List.countP_eq_length_filter]
    rfl
  refine ⟨fun p hp ho hidle => ?_, fun i => ?_, fun o i hi ho => ?_, fun c hcm => ?_⟩
  · obtain ⟨hdirect, hstored, hwalks⟩ := hidle
    have hpassed : p.1 ∈ s.passed.map Passed.er := by
      by_cases hpend : p.1 ∈ s.pending p.2
      · have howner := (hb.settled p.2).mpr ho
        rw [hstored, List.nil_append] at howner
        obtain ⟨w, hw, howner⟩ := List.mem_map.mp howner
        refine (hb.chained p hp hpend).mpr ⟨w, hw, howner, ?_⟩
        rw [hwalks w hw]
        exact List.not_mem_nil
      · refine (hb.unchained p hp hpend).mpr ?_
        rw [hdirect]
        exact List.not_mem_nil
    rw [hcount]
    exact List.count_eq_one_of_mem hb.passedOnce hpassed
  · rw [hcount]
    exact List.nodup_iff_count_le_one.mp hb.passedOnce i
  · rcases List.mem_append.mp ((hb.settled o).mpr ho) with hstored | hwalk
    · exact Or.inl hstored
    · obtain ⟨w, hw, howner⟩ := List.mem_map.mp hwalk
      by_cases hleft : i ∈ w.2
      · exact Or.inr (Or.inl ⟨w, hw, howner, hleft⟩)
      · have hpassed := (hb.chained _ (hb.chain o i hi) hi).mpr ⟨w, hw, howner, hleft⟩
        exact Or.inr (Or.inr (List.mem_map.mp hpassed))
  · exact ⟨hb.passed c hcm, (hc.handed c hcm).1, (hc.handed c hcm).2, hc.kept c hcm⟩

end Inv

section Runs

/-- A request that is to ask reader 7. -/
def toAsk : Asked 7 where
  val :=
    { caid := 0x500, prid := 0, rc := E_UNHANDLED, rcEx := 0, cw := 0, stage := 3, preferlocalcards := 0
      matchingRdr := [⟨7, ⟨true, false, false, false, false, false⟩, E_UNHANDLED, 0, 0, false⟩]
      selectedReader := none, readerRequested := 0, readerCount := 1, fallbackReaderCount := 0
      localreaderCount := 0, cacheexReaderCount := 0, cacheexWaitTimeExpired := true
      cacheexHitcache := false, cacheexMode1Delay := 0, readersTimeoutCheck := false, checked := 0
      originReader := none, cwChecked := 0, delivered := [] }
  property := rfl

def start : State ℕ 7 where
  er := fun _ => toAsk
  pending := fun _ => []
  found := none
  direct := []
  stored := []
  walks := []
  attached := []
  passed := []

private theorem fresh_start : Fresh start := by
  constructor
  all_goals intros
  all_goals rfl

/-- A control word that passes the checks. -/
def foundGiven : Given := ⟨E_FOUND, 0, some 5, false, none, false, false, false⟩

/-- Request 1 is attached before the answer, request 2 after it. -/
def attachedRun : List (Act ℕ) :=
  [.send 0, .find 1 0, .attach, .deliver 0 foundGiven false, .find 2 0, .attach, .distribute 0,
    .direct 2 0 foundGiven false, .next 0 foundGiven false, .distribute 1, .distribute 2]

/-- Both are answered. -/
theorem attached_answered_both : ∃ s : State ℕ 7, system.Reachable Accepts s ∧
    (s.er 1).ea.cw = 5 ∧ (s.er 2).ea.cw = 5 ∧
    (s.passed.filter fun c => c.er = 1).length = 1 ∧ (s.passed.filter fun c => c.er = 2).length = 1 := by
  obtain ⟨s, hr, hs⟩ := @System.exists_reachable_of_exec _ _ system Accepts _ _ fresh_start attachedRun
    (fun s => s.attached = [(1, 0), (2, 0)] ∧ s.Idle ∧ (s.er 0).ea.rc < E_99 ∧
      (s.er 1).ea.cw = 5 ∧ (s.er 2).ea.cw = 5) (by decide +kernel)
  obtain ⟨hatt, hidle, hsettled, hone, htwo⟩ := of_decide_eq_true hs
  have hall := (attached_answered s hr).1
  rw [hatt] at hall
  exact ⟨s, hr, hone, htwo, hall (1, 0) List.mem_cons_self hsettled hidle,
    hall (2, 0) (List.mem_cons_of_mem _ List.mem_cons_self) hsettled hidle⟩

/-- A timeout is handed on as not found; and where a control word is refused, the answer that follows is
handed on once more. -/
theorem attached_answered_differently :
    (∃ s : State ℕ 7, system.Reachable Accepts s ∧ s.Idle ∧ s.attached = [(1, 0)] ∧
      (s.er 0).ea.rc = E_TIMEOUT ∧ (s.er 1).ea.rc = E_NOTFOUND) ∧
    ∃ s : State ℕ 7, system.Reachable System.free s ∧ s.attached = [(1, 0)] ∧
      s.passed.map (fun c => (c.er, c.given.rc)) = [(1, E_NOTFOUND), (1, E_FOUND)] := by
  constructor
  · obtain ⟨s, hr, hs⟩ := @System.exists_reachable_of_exec _ _ system Accepts _ _ fresh_start
      [.send 0, .find 1 0, .attach, .deliver 0 timeoutGiven false, .distribute 0,
        .next 0 foundGiven false, .distribute 1]
      (fun s => s.Idle ∧ s.attached = [(1, 0)] ∧ (s.er 0).ea.rc = E_TIMEOUT ∧
        (s.er 1).ea.rc = E_NOTFOUND) (by decide +kernel)
    exact ⟨s, hr, of_decide_eq_true hs⟩
  · obtain ⟨s, hr, hs⟩ := @System.exists_reachable_of_exec _ _ system System.free
      (fun _ _ => instDecidableTrue) _ fresh_start
      [.send 0, .find 1 0, .attach, .deliver 0 { foundGiven with lgRefused := true } false,
        .distribute 0, .next 0 foundGiven false, .deliver 0 foundGiven false, .distribute 0,
        .next 1 foundGiven false]
      (fun s => s.attached = [(1, 0)] ∧
        s.passed.map (fun c => (c.er, c.given.rc)) = [(1, E_NOTFOUND), (1, E_FOUND)]) (by decide +kernel)
    exact ⟨s, hr, of_decide_eq_true hs⟩

end Runs

end NCam.Ecm.Pending
