import NCam.Casc.Proxies
import NCam.Gbox.SendLimits

/-! The CWs of a gbox peer: `gbox_chk_recvd_dcw` finds the request for a checksum, `gbox_received_dcw` the
requests that get the CW. -/
namespace NCam.Gbox

open NCam.Lib NCam.Util
open NCam.Casc
open NCam.Ecm (E_FOUND)

/-- A request as it is forwarded to the peer. -/
structure GboxRequest extends EcmRequest where
  ocaid : BitVec 16
  ecmd5 : BitVec 128
  tps : ℤ

instance : CascRequest GboxRequest :=
  ⟨fun er => er.caid, GboxRequest.ocaid, fun er => er.srvid, GboxRequest.ecmd5, GboxRequest.tps⟩

abbrev GboxTask := EcmTask GboxRequest

def setEr (cl : CascClient GboxRequest) (n : ℕ) (er : EcmRequest) : CascClient GboxRequest :=
  let task := cl.ecmtask n
  { cl with ecmtask := Function.update cl.ecmtask n { task with er := { task.er with toEcmRequest := er } } }

/-- What `gbox_send_ecm` works with beside the request. -/
structure GboxLink where
  loc : LocalGbox
  peer : GboxPeer
  now : ℤ
  cards : List GboxCard

/-- `gbox_send_ecm` as `c_send_ecm`. -/
def gboxCSendEcm (link : GboxLink) (cl : CascClient GboxRequest) (n : ℕ) :
    Option (SendResult GboxRequest Unit) :=
  let er := (cl.ecmtask n).er.toEcmRequest
  (gboxSendEcm link.loc link.peer link.now link.cards er).map fun (er', _, out) =>
    match out with
    | .refused _ => ⟨setEr cl n er', none, false⟩
    | .nothing => ⟨setEr cl n er', if er.ecmlen = 0 then none else some (), false⟩
    | .sent _ _ =>
      ⟨{ setEr cl n er' with pending := if er.gboxEcmStatus = .newReq then cl.pending + 1 else cl.pending },
        some (), false⟩

/-- `gbox_get_pending_time`, as far as it changes the request. -/
def pendingSeen (er : EcmRequest) (id : GboxCardId) : EcmRequest :=
  if (er.gboxCardsPending.getD []).contains id then { er with gboxCwSrcPeer := id.peer } else er

def checksumSlot (cfg : Config) (cl : CascClient GboxRequest) (crc : BitVec 32) : Option ℕ :=
  Slots.firstWhere (fun task => task.er.gboxCrc = crc) cl.ecmtask cfg.maxPending

/-- `gbox_chk_recvd_dcw` on a message of `n` bytes, with the id it returns. -/
def gboxChkRecvdDcw (cfg : Config) (cl : CascClient GboxRequest) (data : ℕ → Byte) (n : ℕ) :
    CascClient GboxRequest × Option (BitVec 16) :=
  if b2i 2 data 0 ≠ MSG_CW ∨ n < 44 then (cl, none)
  else match checksumSlot cfg cl (b2i 4 data 30) with
    | none => (cl, none)
    | some i =>
      let idCard := (b2i 2 data 10).setWidth 16
      let er := pendingSeen (cl.ecmtask i).er.toEcmRequest ⟨idCard, data 36⟩
      if er.gboxEcmStatus = .newReq ∨ er.gboxEcmStatus = .answered then (setEr cl i er, none)
      else
        (setEr cl i { er with gboxEcmStatus := .answered, gboxCwSrcPeer := idCard }, some (cl.ecmtask i).idx)

/-- `gbox_received_dcw`. -/
def gboxReceivedDcw (cfg : Config) (t : ℤ) (cl : CascClient GboxRequest) (data : ℕ → Byte) (n : ℕ) :
    CascClient GboxRequest :=
  let (cl, idx) := gboxChkRecvdDcw cfg cl data n
  match idx.bind (slotOf cfg cl) with
  | none => cl
  | some i => cascCheckDcw cfg t cl i

/-- Whether `gbox_received_dcw` writes the CW to the request in the slot `j`. -/
def delivered (cfg : Config) (cl : CascClient GboxRequest) (data : ℕ → Byte) (n j : ℕ) : Bool :=
  let (cl, idx) := gboxChkRecvdDcw cfg cl data n
  (idx.bind (slotOf cfg cl)).any fun i => answered cl i j

inductive GboxAction
  | request (er : GboxRequest) (t : ℤ) (link : GboxLink)
  | message (data : ℕ → Byte) (n : ℕ) (t : ℤ)

/-- The slots of a new client are empty. -/
def NewClient (cl : CascClient GboxRequest) : Prop :=
  (∀ j, (cl.ecmtask j).idx = 0 ∧ (cl.ecmtask j).rc = E_FOUND ∧ (cl.ecmtask j).er.gboxEcmStatus = .newReq ∧
    (cl.ecmtask j).er.gboxCrc = 0) ∧ cl.pending = 0 ∧ cl.idx = 0 ∧ cl.lastIdx = 0

/-- The client of a gbox peer. A request arrives without having been sent. -/
def gboxSystem (cfg : Config) : System (CascClient GboxRequest) GboxAction where
  init := NewClient
  next cl
    | .request er t link =>
      if er.gboxEcmStatus = .newReq then
        (cascProcessEcm cfg t false (gboxCSendEcm link) cl er).map Forwarded.cl
      else none
    | .message data n t => some (gboxReceivedDcw cfg t cl data n)

/-- The request in the slot `j` has the checksum, was sent and waits. -/
def sentWaiting (cl : CascClient GboxRequest) (crc : BitVec 32) (j : ℕ) : Bool :=
  (cl.ecmtask j).waiting && (cl.ecmtask j).er.gboxEcmStatus ≠ .newReq && (cl.ecmtask j).er.gboxCrc = crc

/-- The id that a request is given is that of no other slot. -/
def freshIdx (cfg : Config) (cl : CascClient GboxRequest) : GboxAction → Bool
  | .request _ t _ =>
    (freeSlot cfg (dropTimeouts cfg t cl)).all fun n => (List.range cfg.maxPending).all fun j =>
      j = n || (cl.ecmtask j).idx ≠ (takeIdx false cl).1
  | .message .. => true

/-- Where the id of the slot `i` leads: an answered slot has none, and stands for the last request sent. -/
def addressed (cfg : Config) (cl : CascClient GboxRequest) (i : ℕ) : Option ℕ :=
  if (cl.ecmtask i).idx = 0 then slotOf cfg cl 0 else some i

/-- The first slot with the checksum is that of a request that was sent and got no CW, and its id leads to the
content of a waiting request with the checksum that was sent: to its own if it waits. -/
def Leads (cfg : Config) (cl : CascClient GboxRequest) (crc : BitVec 32) : Prop :=
  ∃ i, checksumSlot cfg cl crc = some i ∧ (cl.ecmtask i).er.gboxEcmStatus = .sent ∧
    ∃ k, addressed cfg cl i = some k ∧ ∃ j < cfg.maxPending, sentWaiting cl crc j = true ∧
      content (cl.ecmtask j).er = content (cl.ecmtask k).er

section Runs

variable {cfg : Config} {cl u : CascClient GboxRequest} {t : ℤ}

/-- Slots in use have different ids. -/
def Distinct (cfg : Config) (cl : CascClient GboxRequest) : Prop :=
  ∀ i < cfg.maxPending, ∀ j < cfg.maxPending, (cl.ecmtask i).idx ≠ 0 →
    (cl.ecmtask i).idx = (cl.ecmtask j).idx → i = j

/-- Some slots lose their ids. -/
def LosesIds (cl u : CascClient GboxRequest) : Prop :=
  ∀ j, (u.ecmtask j).idx = (cl.ecmtask j).idx ∨ (u.ecmtask j).idx = 0

theorem Distinct.of_losesIds (h : Distinct cfg cl) (hu : LosesIds cl u) : Distinct cfg u := by
  intro i hi j hj hne heq
  have hi' : (u.ecmtask i).idx = (cl.ecmtask i).idx := (hu i).resolve_right hne
  have hj' : (u.ecmtask j).idx = (cl.ecmtask j).idx := (hu j).resolve_right (heq ▸ hne)
  exact h i hi j hj (hi' ▸ hne) (hi'.symm.trans (heq.trans hj'))

theorem dropTimeout_idx {task : GboxTask} : (task.dropTimeout cfg t).idx = task.idx := by
  unfold EcmTask.dropTimeout
  split_ifs <;> rfl

theorem checkDcw_losesIds {i : ℕ} : LosesIds cl (cascCheckDcw cfg t cl i) := by
  intro j
  change (EcmTask.checkDcw cfg t _ _).idx = _ ∨ (EcmTask.checkDcw cfg t _ _).idx = 0
  unfold EcmTask.checkDcw
  rw [dropTimeout_idx]
  split_ifs
  · exact .inr rfl
  · exact .inl rfl

theorem setEr_idx {n j : ℕ} {er : EcmRequest} : ((setEr cl n er).ecmtask j).idx = (cl.ecmtask j).idx := by
  unfold setEr
  dsimp only
  by_cases hj : j = n
  · subst hj
    rw [Function.update_self]
  · rw [Function.update_of_ne hj]

/-- Sending changes the request, but no id. -/
theorem gboxCSendEcm_idx {link : GboxLink} {n : ℕ} {r : SendResult GboxRequest Unit}
    (h : gboxCSendEcm link cl n = some r) (j : ℕ) : (r.cl.ecmtask j).idx = (cl.ecmtask j).idx := by
  obtain ⟨⟨er', cards, out⟩, -, rfl⟩ := Option.map_eq_some_iff.mp h
  cases out with
  | refused refusal => exact setEr_idx
  | nothing => exact setEr_idx
  | sent buf buflen => exact setEr_idx

theorem gboxChkRecvdDcw_losesIds {data : ℕ → Byte} {n : ℕ} :
    LosesIds cl (gboxChkRecvdDcw cfg cl data n).1 := by
  intro j
  left
  unfold gboxChkRecvdDcw
  split_ifs
  · rfl
  · cases checksumSlot cfg cl (b2i 4 data 30) with
    | none => rfl
    | some i =>
      dsimp only
      split_ifs
      · exact setEr_idx
      · exact setEr_idx

theorem finish_losesIds {n : ℕ} {r : SendResult GboxRequest Unit} :
    LosesIds r.cl (finish cfg t n r).cl := by
  intro j
  unfold finish
  cases r.sent with
  | none =>
    dsimp only
    rw [wrapIdx_ecmtask]
    exact checkDcw_losesIds j
  | some m =>
    dsimp only
    rw [wrapIdx_ecmtask]
    exact .inl rfl

/-- The slot that is taken gets an id of its own. -/
theorem store_distinct {er : GboxRequest} {n : ℕ} (h : Distinct cfg cl)
    (hids : (List.range cfg.maxPending).all (fun j => j = n || (cl.ecmtask j).idx ≠ (takeIdx false cl).1) = true) :
    Distinct cfg (store false (dropTimeouts cfg t cl) n er) := by
  have hself : ((store false (dropTimeouts cfg t cl) n er).ecmtask n).idx = (takeIdx false cl).1 := by
    rw [store_ecmtask, Function.update_self]
    rfl
  have hother : ∀ j, j ≠ n →
      ((store false (dropTimeouts cfg t cl) n er).ecmtask j).idx = (cl.ecmtask j).idx := by
    intro j hj
    rw [store_ecmtask, Function.update_of_ne hj]
    exact dropTimeout_idx
  have hne : ∀ j < cfg.maxPending, j ≠ n → (cl.ecmtask j).idx ≠ (takeIdx false cl).1 := by
    intro j hj hjn
    have hall := List.all_eq_true.mp hids j (List.mem_range.mpr hj)
    rw [Bool.or_eq_true, decide_eq_true_eq, decide_eq_true_eq] at hall
    exact hall.resolve_left hjn
  intro i hi j hj hzero heq
  by_cases hin : i = n
  · by_cases hjn : j = n
    · exact hin.trans hjn.symm
    · rw [hin, hself, hother j hjn] at heq
      exact absurd heq.symm (hne j hj hjn)
  · by_cases hjn : j = n
    · rw [hjn, hself, hother i hin] at heq
      exact absurd heq (hne i hi hin)
    · rw [hother i hin, hother j hjn] at heq
      rw [hother i hin] at hzero
      exact h i hi j hj hzero heq

theorem step_distinct {a : GboxAction} (h : Distinct cfg cl) (hids : freshIdx cfg cl a = true)
    (hnext : (gboxSystem cfg).next cl a = some u) : Distinct cfg u := by
  cases a with
  | request er t link =>
    change (if er.gboxEcmStatus = .newReq then _ else none) = some u at hnext
    split_ifs at hnext with hnew
    obtain ⟨f, hf, rfl⟩ := Option.map_eq_some_iff.mp hnext
    unfold freshIdx at hids
    dsimp only at hids
    rcases cascProcessEcm_cases hf with ⟨-, rfl⟩ | ⟨n, hslot, hcases⟩
    · exact h.of_losesIds fun j => .inl dropTimeout_idx
    · rw [hslot, Option.all_some] at hids
      have hstore := @store_distinct _ _ t er _ h hids
      rcases hcases with ⟨-, rfl⟩ | ⟨-, r, hr, rfl⟩
      · refine hstore.of_losesIds fun j => .inl ?_
        change ((wrapIdx (store false (dropTimeouts cfg t cl) n er)).ecmtask j).idx = _
        rw [wrapIdx_ecmtask]
      · have hsend : Distinct cfg r.cl := hstore.of_losesIds fun j => .inl (gboxCSendEcm_idx hr j)
        exact hsend.of_losesIds finish_losesIds
  | message data n t =>
    obtain rfl := Option.some.inj hnext
    change Distinct cfg (gboxReceivedDcw cfg t cl data n)
    have hchk := h.of_losesIds (@gboxChkRecvdDcw_losesIds cfg cl data n)
    unfold gboxReceivedDcw
    dsimp only
    cases (gboxChkRecvdDcw cfg cl data n).2.bind (slotOf cfg (gboxChkRecvdDcw cfg cl data n).1) with
    | none => exact hchk
    | some i => exact hchk.of_losesIds checkDcw_losesIds

end Runs

section Delivery

variable {cfg : Config} {cl : CascClient GboxRequest} {data : ℕ → Byte} {n i j : ℕ} {er : EcmRequest}

/-- A change of the status leaves what `casc_check_dcw` compares. -/
theorem setEr_answered (hcaid : er.caid = (cl.ecmtask n).er.caid) :
    answered (setEr cl n er) i j = answered cl i j := by
  have hslot : ∀ j, ((setEr cl n er).ecmtask j).waiting = (cl.ecmtask j).waiting ∧
      content ((setEr cl n er).ecmtask j).er = content (cl.ecmtask j).er := by
    intro j
    unfold setEr
    dsimp only
    by_cases hj : j = n
    · subst hj
      rw [Function.update_self]
      exact ⟨rfl, Prod.ext hcaid rfl⟩
    · rw [Function.update_of_ne hj]
      exact ⟨rfl, rfl⟩
  unfold answered EcmTask.answers
  rw [(hslot j).1, (hslot j).2, (hslot i).2]

theorem setEr_slotOf {idx : BitVec 16} : slotOf cfg (setEr cl n er) idx = slotOf cfg cl idx := by
  unfold slotOf Slots.firstWhere
  simp only [setEr_idx]
  rfl

theorem pendingSeen_caid {id : GboxCardId} : (pendingSeen er id).caid = er.caid := by
  unfold pendingSeen
  split_ifs <;> rfl

theorem pendingSeen_status {id : GboxCardId} : (pendingSeen er id).gboxEcmStatus = er.gboxEcmStatus := by
  unfold pendingSeen
  split_ifs <;> rfl

/-- A CW is written to the requests that the id of the first slot with its checksum leads to, if that slot has
the status `sent`. -/
theorem delivered_iff (hcw : b2i 2 data 0 = MSG_CW) (hn : 44 ≤ n)
    (hi : checksumSlot cfg cl (b2i 4 data 30) = some i) :
    delivered cfg cl data n j = true ↔ (cl.ecmtask i).er.gboxEcmStatus = .sent ∧
      ∃ k, slotOf cfg cl (cl.ecmtask i).idx = some k ∧ answered cl k j = true := by
  have hmsg : ¬ (b2i 2 data 0 ≠ MSG_CW ∨ n < 44) := by
    rw [not_or, not_not]
    exact ⟨hcw, by omega⟩
  unfold delivered gboxChkRecvdDcw
  rw [if_neg hmsg, hi]
  dsimp only
  rw [pendingSeen_status]
  cases hstatus : (cl.ecmtask i).er.gboxEcmStatus with
  | newReq =>
    rw [if_pos (.inl rfl)]
    exact iff_of_false Bool.false_ne_true fun h => EcmStatus.noConfusion h.1
  | answered =>
    rw [if_pos (.inr rfl)]
    exact iff_of_false Bool.false_ne_true fun h => EcmStatus.noConfusion h.1
  | sent =>
    rw [if_neg (by rintro (h | h) <;> cases h), Option.bind_some, setEr_slotOf, Option.any_eq_true]
    constructor
    · rintro ⟨k, hk, hj⟩
      rw [setEr_answered] at hj
      · exact ⟨rfl, k, hk, hj⟩
      · exact pendingSeen_caid
    · rintro ⟨-, k, hk, hj⟩
      refine ⟨k, hk, ?_⟩
      rw [setEr_answered]
      · exact hj
      · exact pendingSeen_caid

/-- With distinct ids the id of a slot leads to the slot itself. -/
theorem addressed_eq (h : Distinct cfg cl) (hi : i < cfg.maxPending) :
    slotOf cfg cl (cl.ecmtask i).idx = addressed cfg cl i := by
  unfold addressed
  split_ifs with hzero
  · rw [hzero]
  · refine Slots.firstWhere_of_first hi ?_ ?_
    · rw [if_neg hzero]
      exact decide_eq_true rfl
    · intro j hj
      rw [if_neg hzero]
      refine decide_eq_false fun heq => ?_
      exact absurd (h i hi j (by omega) hzero heq.symm) (by omega)

theorem cw_delivered_of_distinct (h : Distinct cfg cl) (hcw : b2i 2 data 0 = MSG_CW) (hn : 44 ≤ n)
    (hwait : ∃ j < cfg.maxPending, sentWaiting cl (b2i 4 data 30) j = true) :
    (∃ j < cfg.maxPending, sentWaiting cl (b2i 4 data 30) j = true ∧ delivered cfg cl data n j = true) ↔
      Leads cfg cl (b2i 4 data 30) := by
  have hcrc : ∀ j, sentWaiting cl (b2i 4 data 30) j = true →
      (cl.ecmtask j).waiting = true ∧ (cl.ecmtask j).er.gboxCrc = b2i 4 data 30 := by
    intro j hj
    obtain ⟨hj, hcrc⟩ := Bool.and_eq_true_iff.mp hj
    exact ⟨(Bool.and_eq_true_iff.mp hj).1, of_decide_eq_true hcrc⟩
  obtain ⟨i, hi⟩ : ∃ i, checksumSlot cfg cl (b2i 4 data 30) = some i := by
    obtain ⟨j, hj, hsent⟩ := hwait
    refine Option.ne_none_iff_exists'.mp fun hnone => ?_
    have hno := Slots.firstWhere_eq_none.mp hnone j hj
    exact of_decide_eq_false hno (hcrc j hsent).2
  have haddr := addressed_eq h (Slots.firstWhere_eq_some hi).1
  constructor
  · rintro ⟨j, hj, hsent, hdel⟩
    obtain ⟨hstatus, k, hk, hans⟩ := (delivered_iff hcw hn hi).mp hdel
    refine ⟨i, hi, hstatus, k, haddr.symm.trans hk, j, hj, hsent, ?_⟩
    exact of_decide_eq_true (Bool.and_eq_true_iff.mp hans).2
  · rintro ⟨i', hi', hstatus, k, hk, j, hj, hsent, hcontent⟩
    obtain rfl := Option.some.inj (hi.symm.trans hi')
    refine ⟨j, hj, hsent, (delivered_iff hcw hn hi).mpr ⟨hstatus, k, haddr.trans hk, ?_⟩⟩
    exact Bool.and_eq_true_iff.mpr ⟨(hcrc j hsent).1, decide_eq_true hcontent⟩

end Delivery

section Answers

/-- In every state that runs with distinct ids reach: of the requests with the checksum of a CW that were sent
and wait, if there are any, one gets the CW exactly if the first slot with the checksum leads to one. -/
theorem cw_delivered_iff_leads (cfg : Config) {cl : CascClient GboxRequest}
    (h : (gboxSystem cfg).Reachable (fun cl a => freshIdx cfg cl a = true) cl) {data : ℕ → Byte} {n : ℕ}
    (hcw : b2i 2 data 0 = MSG_CW) (hn : 44 ≤ n)
    (hwait : ∃ j < cfg.maxPending, sentWaiting cl (b2i 4 data 30) j = true) :
    (∃ j < cfg.maxPending, sentWaiting cl (b2i 4 data 30) j = true ∧ delivered cfg cl data n j = true) ↔
      Leads cfg cl (b2i 4 data 30) := by
  have hdistinct : Distinct cfg cl := by
    refine h.invariant (fun cl hcl i _ j _ hne => ?_) fun cl a u hcl hids hnext => ?_
    · exact absurd (hcl.1 i).1 hne
    · exact step_distinct hcl hids hnext
  exact cw_delivered_of_distinct hdistinct hcw hn hwait

def GboxLink.plain : GboxLink := ⟨.plain, .taking 1, 0, [.viaccess 1 none]⟩

/-- A request for an ECM that begins with `first`; the checksum is known if it comes from a gbox. -/
def GboxRequest.viaccess (first : Byte) (known : Bool) : GboxRequest :=
  { EcmRequest.viaccess 3 with
    ecm := fun i => if i = 0 then first else 0
    gboxCrc := if known then first.setWidth 32 <<< 24 else 0
    ocaid := 0, ecmd5 := first.setWidth 128, tps := 0 }

/-- The CW for the ECM that begins with `first`. -/
def cwMessage (first : Byte) : ℕ → Byte :=
  fun i => if i = 0 then 0x48 else if i = 1 then 0x44 else if i = 30 then first else 0

def newClient : CascClient GboxRequest :=
  ⟨fun _ => ⟨{ GboxRequest.viaccess 0 false with gboxCrc := 0 }, 0, E_FOUND⟩, 0, 0, 0, 0, false⟩

theorem newClient_new : NewClient newClient := ⟨fun _ => ⟨rfl, rfl, rfl, rfl⟩, rfl, rfl, rfl⟩

/-- Two ECMs are sent and the first is answered; then the second comes again. -/
def repeatedRun (known : Bool) : List GboxAction :=
  [.request (.viaccess 1 false) 0 .plain, .request (.viaccess 2 false) 0 .plain,
    .message (cwMessage 1) 44 0, .request (.viaccess 2 known) 0 .plain]

theorem cw_delivered_iff_leads_repeated : ∃ cl,
    ((∃ j < 32, sentWaiting cl (b2i 4 (cwMessage 2) 30) j = true ∧
      delivered ⟨32, 5000⟩ cl (cwMessage 2) 44 j = true) ↔ Leads ⟨32, 5000⟩ cl (b2i 4 (cwMessage 2) 30)) ∧
    delivered ⟨32, 5000⟩ cl (cwMessage 2) 44 1 = true := by
  obtain ⟨cl, hcl, hp⟩ := @System.exists_reachable_of_exec _ _ (gboxSystem ⟨32, 5000⟩)
    (fun cl a => freshIdx ⟨32, 5000⟩ cl a = true) _ _ newClient_new (repeatedRun false)
    (fun cl => sentWaiting cl 0x02000000 1 && delivered ⟨32, 5000⟩ cl (cwMessage 2) 44 1) (by decide +kernel)
  obtain ⟨hwait, hdel⟩ := Bool.and_eq_true_iff.mp hp
  exact ⟨cl, cw_delivered_iff_leads ⟨32, 5000⟩ hcl (by decide) (by decide) ⟨1, by decide, hwait⟩, hdel⟩

/-- Where the repeated request comes from a gbox it has the checksum already: it takes the slot of the first
request, is not sent, and keeps the CW from the request that was sent. -/
theorem cw_not_delivered : ∃ cl, (gboxSystem ⟨32, 5000⟩).Reachable System.free cl ∧
    ¬ ((∃ j < 32, sentWaiting cl (b2i 4 (cwMessage 2) 30) j = true) → ∃ j < 32,
      sentWaiting cl (b2i 4 (cwMessage 2) 30) j = true ∧
        delivered ⟨32, 5000⟩ cl (cwMessage 2) 44 j = true) := by
  obtain ⟨cl, hcl, hp⟩ := @System.exists_reachable_of_exec _ _ (gboxSystem ⟨32, 5000⟩) System.free
    (fun _ _ => instDecidableTrue) _ newClient_new (repeatedRun true)
    (fun cl => sentWaiting cl 0x02000000 1 &&
      (List.range 32).all fun j => !delivered ⟨32, 5000⟩ cl (cwMessage 2) 44 j) (by decide +kernel)
  obtain ⟨hwait, hnone⟩ := Bool.and_eq_true_iff.mp hp
  refine ⟨cl, hcl, fun hall => ?_⟩
  obtain ⟨j, hj, -, hdel⟩ := hall ⟨1, by decide, hwait⟩
  have hno := List.all_eq_true.mp hnone j (List.mem_range.mpr hj)
  rw [hdel] at hno
  exact absurd hno Bool.noConfusion

end Answers

end NCam.Gbox
