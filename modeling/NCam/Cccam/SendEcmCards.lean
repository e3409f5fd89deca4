import NCam.Cccam.SendEcm

/-! Which card a request of `cc_send_ecm` goes to, and that the loop ends. -/
namespace NCam.Cccam.SendEcm

open NCam.Util

/-- A request without an origin card of its own finds the card that the variable still holds. -/
def AgreesFor (env : Env) (time : ℤ) (cards : List Card) (kept : Option Card) (curEr : EcmTask) : Prop :=
  ∀ card, kept = some card → originCard env cards curEr = none →
    ∃ own ∈ (searchCard env time cards curEr).2, own.id = card.id

/-- Every request of `order` that comes behind one with a card, and has no origin card of its own, finds the
card of the one before; up to a request that the server stopped or a message that does not go out. -/
def Agrees (env : Env) (sleepsend waits : Bool) :
    ℕ → List Card → Option Card → LastEcm → List EcmTask → Prop
  | _, _, _, _, [] => True
  | k, cards, kept, last, curEr :: order =>
    match sleepCheck sleepsend last curEr with
    | none => True
    | some last =>
      AgreesFor env (env.now k) cards kept curEr ∧
        match chooseCard env (env.now k) cards kept curEr with
        | (cards, some card) => env.sendOk k = true → Agrees env sleepsend waits (k + 1) cards (some card) last order
        | (cards, none) =>
          Agrees env sleepsend waits (k + 1)
            (if waits then cards else reopenSids (env.now k) false curEr cards) none last order

variable {env : Env} {time : ℤ} {cards cards' : List Card} {kept : Option Card} {card : Card}
  {curEr ern : EcmTask} {k n fuel : ℕ} {s : Pass} {last : LastEcm}

theorem cardId_of_ecmMessage {er : Requests.EcmRequest} {id id' : BitVec 32}
    (h : Requests.ecmMessage er id = Requests.ecmMessage er id') : id = id' := by
  have htail := List.append_cancel_left (List.append_cancel_left h)
  have hid : i2b 4 id = i2b 4 id' := (List.append_inj htail rfl).1
  have hholds : Lib.Memory.Holds (Lib.Memory.put (fun _ => (0 : Byte)) 0 (i2b 4 id)) 0 (i2b 4 id') := by
    rw [← hid]
    exact Lib.Memory.holds_put
  exact (b2i_four Lib.Memory.holds_put).symm.trans (b2i_four hholds)

theorem kept_eq_none (h : chooseCard env time cards kept curEr = (cards', none)) : kept = none := by
  have hnone : (originCard env cards curEr).or kept = none := by
    cases hor : (originCard env cards curEr).or kept with
    | none => rfl
    | some card =>
      rw [chooseCard, hor] at h
      cases h
  exact (Option.or_eq_none_iff.mp hnone).2

/-- The message of a pass, in terms of the card that the variable held before. -/
theorem addressed_iff (h : chooseCard env (env.now k) cards kept curEr = (cards', some card)) :
    Send.Addressed env ⟨k, cards, n, curEr, Requests.ecmMessage curEr.toEcmRequest card.id⟩ ↔
      AgreesFor env (env.now k) cards kept curEr := by
  cases horigin : originCard env cards curEr with
  | some own =>
    rw [chooseCard_origin horigin] at h
    obtain ⟨-, hown⟩ := Prod.mk.inj h
    have hcard : own = card := Option.some.inj hown
    subst hcard
    constructor
    · intro _ card _ hnone
      rw [horigin] at hnone
      cases hnone
    · intro _
      exact .inl ⟨own, horigin, rfl⟩
  | none =>
    cases kept with
    | none =>
      rw [chooseCard_search horigin] at h
      constructor
      · intro _ card hkept
        cases hkept
      · intro _
        exact .inr ⟨card, congrArg Prod.snd h, rfl⟩
    | some old =>
      rw [chooseCard_kept horigin] at h
      obtain ⟨-, hold⟩ := Prod.mk.inj h
      have hcard : old = card := Option.some.inj hold
      subst hcard
      constructor
      · intro haddr card hkept _
        have heq : old = card := Option.some.inj hkept
        subst heq
        rcases haddr with ⟨own, hown, -⟩ | ⟨own, hown, hmsg⟩
        · have hsome : originCard env cards curEr = some own := hown
          rw [horigin] at hsome
          cases hsome
        · exact ⟨own, hown, (cardId_of_ecmMessage hmsg).symm⟩
      · intro hagree
        obtain ⟨own, hown, hid⟩ := hagree old rfl horigin
        exact .inr ⟨own, hown, congrArg (Requests.ecmMessage curEr.toEcmRequest) hid.symm⟩

/-- The search for the next request in a pass. -/
def Pass.scan (env : Env) (k : ℕ) (s : Pass) : Scan :=
  ccGetNxtEcm env (env.now k) s.cc.peerNodeId s.cc.extendedMode s.cl.ecmtask

/-- What no pass changes. -/
def CcData.fixed (cc : CcData) : Bool × Bool × NodeId × Bool :=
  (cc.extendedMode, cc.sleepsend, cc.peerNodeId, cc.waitsForCards)

theorem nextIdx_fixed (cc : CcData) : cc.nextIdx.fixed = cc.fixed := by
  cases h : cc.extendedMode with
  | true => simp [CcData.nextIdx, CcData.fixed, CcData.waitsForCards, h]
  | false => simp [CcData.nextIdx, h]

theorem nextIdx_extendedMode (cc : CcData) : cc.nextIdx.extendedMode = cc.extendedMode :=
  congrArg Prod.fst (nextIdx_fixed cc)

theorem pass_none (h : (s.scan env k).next = none) :
    ∃ s', pass env k s = (.ret, s') ∧ s'.sends = s.sends := by
  rw [Pass.scan] at h
  rw [pass]
  dsimp only
  rw [h]
  exact ⟨_, rfl, rfl⟩

theorem pass_stopped (h : (s.scan env k).next = some (n, ern))
    (hsleep : sleepCheck s.cc.sleepsend s.cl.last { ern with rc := E_ALREADY_SENT } = none) :
    ∃ s', pass env k s = (.ret, s') ∧ s'.sends = s.sends := by
  rw [Pass.scan] at h
  rw [pass]
  dsimp only
  rw [h]
  dsimp only [Pass.scanned]
  rw [hsleep]
  exact ⟨_, rfl, rfl⟩

/-- A pass that takes a request. -/
theorem pass_take (h : (s.scan env k).next = some (n, ern)) (hcur : curEr = { ern with rc := E_ALREADY_SENT })
    (hsleep : sleepCheck s.cc.sleepsend s.cl.last curEr = some last) :
    pass env k s =
      match chooseCard env (env.now k) s.cc.cards s.card curEr with
      | (cards, some card) =>
        let s := ((s.scanned env (s.scan env k)).take n curEr last).sendTo k n curEr cards card
        (if s.cc.extendedMode then .again else .ret, if env.sendOk k then s else s.cliClose)
      | (cards, none) =>
        (.again, ((s.scanned env (s.scan env k)).take n curEr last).noCard env (env.now k) n curEr cards) := by
  rw [Pass.scan] at h
  subst hcur
  rw [pass]
  dsimp only
  rw [h]
  dsimp only
  rw [show (s.scanned env _).cc.sleepsend = s.cc.sleepsend from rfl,
    show (s.scanned env _).cl.last = s.cl.last from rfl, hsleep]
  rfl

theorem pass_send (h : (s.scan env k).next = some (n, ern)) (hcur : curEr = { ern with rc := E_ALREADY_SENT })
    (hsleep : sleepCheck s.cc.sleepsend s.cl.last curEr = some last)
    (hc : chooseCard env (env.now k) s.cc.cards s.card curEr = (cards, some card)) :
    ∃ s', pass env k s =
        (if s.cc.extendedMode then .again else .ret, if env.sendOk k then s' else s'.cliClose) ∧
      s'.sends = s.sends ++ [⟨k, s.cc.cards, n, curEr, Requests.ecmMessage curEr.toEcmRequest card.id⟩] ∧
      s'.card = some card ∧ s'.cc.cards = cards ∧ s'.cc.fixed = s.cc.fixed ∧ s'.cl.last = last ∧
      s'.cl.ecmtask = (s.scan env k).ecmtask.set n curEr := by
  refine ⟨((s.scanned env (s.scan env k)).take n curEr last).sendTo k n curEr cards card, ?_, rfl, rfl, rfl,
    nextIdx_fixed _, rfl, rfl⟩
  rw [pass_take h hcur hsleep, hc]
  dsimp only
  rw [show (((s.scanned env (s.scan env k)).take n curEr last).sendTo k n curEr cards card).cc.extendedMode =
    s.cc.extendedMode from nextIdx_extendedMode _]

/-- A request without a card does not wait any more in this call. -/
theorem noCard_ecmtask (s : Pass) : ∃ er', er'.waiting = false ∧
    (s.noCard env time n { ern with rc := E_ALREADY_SENT } cards).cl.ecmtask = s.cl.ecmtask.set n er' := by
  by_cases hw : s.cc.waitsForCards = true
  · refine ⟨{ ern with rc := E_WAITING }, waiting_of_gt (show E_UNHANDLED < E_WAITING by decide), ?_⟩
    rw [Pass.noCard, if_pos hw]
    rfl
  · refine ⟨writeEcmAnswer env time { ern with rc := E_ALREADY_SENT } E_NOTFOUND, ?_, ?_⟩
    · rw [Bool.eq_false_iff]
      intro h
      have hsent : EcmTask.waiting { ern with rc := E_ALREADY_SENT } = false :=
        waiting_of_gt (show E_UNHANDLED < E_ALREADY_SENT by decide)
      rw [waiting_writeEcmAnswer (by decide) h, hsent] at h
      cases h
    · rw [Pass.noCard, if_neg hw]
      rfl

/-- What a request without a card leaves of the rest. -/
theorem noCard_rest (s : Pass) :
    let s' := s.noCard env time n curEr cards
    s'.sends = s.sends ∧ s'.card = s.card ∧ s'.processedEcms = s.processedEcms ∧
      s'.cc.cards = (if s.cc.waitsForCards then cards else reopenSids time false curEr cards) ∧
      s'.cc.fixed = s.cc.fixed ∧ s'.cl.last = s.cl.last := by
  dsimp only
  rw [Pass.noCard]
  split_ifs
  · exact ⟨rfl, rfl, rfl, rfl, rfl, rfl⟩
  · exact ⟨rfl, rfl, rfl, rfl, rfl, rfl⟩

theorem pass_noCard (h : (s.scan env k).next = some (n, ern)) (hcur : curEr = { ern with rc := E_ALREADY_SENT })
    (hsleep : sleepCheck s.cc.sleepsend s.cl.last curEr = some last)
    (hc : chooseCard env (env.now k) s.cc.cards s.card curEr = (cards, none)) :
    ∃ s' er', pass env k s = (.again, s') ∧ s'.sends = s.sends ∧ s'.card = s.card ∧
      s'.processedEcms = s.processedEcms ∧
      s'.cc.cards = (if s.cc.waitsForCards then cards else reopenSids (env.now k) false curEr cards) ∧
      s'.cc.fixed = s.cc.fixed ∧ s'.cl.last = last ∧ er'.waiting = false ∧
      s'.cl.ecmtask = (s.scan env k).ecmtask.set n er' := by
  obtain ⟨er', hw, htask⟩ := @noCard_ecmtask env (env.now k) cards ern n
    ((s.scanned env (s.scan env k)).take n curEr last)
  obtain ⟨hsends, hcard, hprocessed, hcards, hfixed, hlast⟩ := @noCard_rest env (env.now k) cards
    curEr n ((s.scanned env (s.scan env k)).take n curEr last)
  refine ⟨((s.scanned env (s.scan env k)).take n curEr last).noCard env (env.now k) n curEr cards, er', ?_,
    hsends, hcard, hprocessed, hcards, hfixed, hlast, hw, ?_⟩
  · rw [pass_take h hcur hsleep, hc]
  · subst hcur
    rw [htask]
    exact List.set_set _

/-- Without waiting requests the loop ends at once. -/
theorem sendLoop_idle (h : waitingSlots s.cl.ecmtask = ∅) :
    ∃ r, sendLoop env (fuel + 1) k s = some r ∧ r.sends = s.sends := by
  obtain ⟨s', hpass, hsends⟩ := @pass_none env k s (next_eq_none h)
  refine ⟨s', ?_, hsends⟩
  rw [sendLoop, hpass]

theorem waitingSlots_cliClose (s : Pass) : waitingSlots s.cliClose.cl.ecmtask = ∅ := by
  rw [Finset.eq_empty_iff_forall_notMem]
  intro j hj
  obtain ⟨er, her, hw⟩ := mem_waitingSlots.mp hj
  change (s.cl.ecmtask.map _)[j]? = some er at her
  rw [List.getElem?_map] at her
  obtain ⟨e, -, rfl⟩ := Option.map_eq_some_iff.mp her
  cases hw

theorem requestOrder_none (h : (s.scan env k).next = none) :
    requestOrder env s.cc.peerNodeId s.cc.extendedMode (fuel + 1) k s.cl.ecmtask = [] := by
  rw [Pass.scan] at h
  rw [requestOrder, h]

theorem requestOrder_some (h : (s.scan env k).next = some (n, ern))
    (hcur : curEr = { ern with rc := E_ALREADY_SENT }) :
    requestOrder env s.cc.peerNodeId s.cc.extendedMode (fuel + 1) k s.cl.ecmtask =
      curEr :: requestOrder env s.cc.peerNodeId s.cc.extendedMode fuel (k + 1)
        ((s.scan env k).ecmtask.set n curEr) := by
  rw [Pass.scan] at h
  rw [requestOrder, h, hcur]
  rfl

section Agrees

variable {sleepsend waits : Bool} {order : List EcmTask}

theorem agrees_stopped (hsleep : sleepCheck sleepsend last curEr = none) :
    Agrees env sleepsend waits k cards kept last (curEr :: order) := by
  rw [Agrees, hsleep]
  trivial

variable {last' : LastEcm} (hsleep : sleepCheck sleepsend last curEr = some last')
include hsleep

theorem agrees_send (hc : chooseCard env (env.now k) cards kept curEr = (cards', some card)) :
    Agrees env sleepsend waits k cards kept last (curEr :: order) ↔
      AgreesFor env (env.now k) cards kept curEr ∧
        (env.sendOk k = true → Agrees env sleepsend waits (k + 1) cards' (some card) last' order) := by
  rw [Agrees, hsleep]
  dsimp only
  rw [hc]

theorem agrees_noCard (hc : chooseCard env (env.now k) cards kept curEr = (cards', none)) :
    Agrees env sleepsend waits k cards kept last (curEr :: order) ↔
      Agrees env sleepsend waits (k + 1)
        (if waits then cards' else reopenSids (env.now k) false curEr cards') none last' order := by
  have hkept := kept_eq_none hc
  rw [Agrees, hsleep]
  dsimp only
  rw [hc]
  exact and_iff_right fun card h => absurd (hkept.symm.trans h) (by simp)

end Agrees

/-- What the loop does from a pass on: it sends to slots that wait, each at most once; in extended mode every
message goes to a card of its own exactly when the requests agree. -/
def Served (env : Env) (fuel k : ℕ) (s r : Pass) : Prop :=
  ∃ new, r.sends = s.sends ++ new ∧ (new.map Send.n).Nodup ∧
    (∀ x ∈ new, x.n ∈ waitingSlots s.cl.ecmtask) ∧
    if s.cc.extendedMode then
      ((∀ x ∈ new, x.Addressed env) ↔
        Agrees env s.cc.sleepsend s.cc.waitsForCards k s.cc.cards s.card s.cl.last
          (requestOrder env s.cc.peerNodeId s.cc.extendedMode fuel k s.cl.ecmtask))
    else s.card = none → ∀ x ∈ new, x.Addressed env

/-- The loop sends nothing from here on. -/
theorem served_nothing {r : Pass} (h : r.sends = s.sends)
    (hagrees : Agrees env s.cc.sleepsend s.cc.waitsForCards k s.cc.cards s.card s.cl.last
      (requestOrder env s.cc.peerNodeId s.cc.extendedMode fuel k s.cl.ecmtask)) :
    Served env fuel k s r := by
  refine ⟨[], ?_, List.nodup_nil, fun x hx => absurd hx List.not_mem_nil, ?_⟩
  · rw [h, List.append_nil]
  · split_ifs
    · exact iff_of_true (fun x hx => absurd hx List.not_mem_nil) hagrees
    · exact fun _ x hx => absurd hx List.not_mem_nil

theorem fixed_inj {cc cc' : CcData} (h : cc'.fixed = cc.fixed) :
    cc'.extendedMode = cc.extendedMode ∧ cc'.sleepsend = cc.sleepsend ∧ cc'.peerNodeId = cc.peerNodeId ∧
      cc'.waitsForCards = cc.waitsForCards := by
  simpa [CcData.fixed] using h

/-- The rest of the loop, after a request that no card was found for. -/
theorem served_noCard {s' r : Pass} {er' : EcmTask} (h : (s.scan env k).next = some (n, ern))
    (hcur : curEr = { ern with rc := E_ALREADY_SENT })
    (hsleep : sleepCheck s.cc.sleepsend s.cl.last curEr = some last)
    (hc : chooseCard env (env.now k) s.cc.cards s.card curEr = (cards, none))
    (hsends : s'.sends = s.sends) (hcard : s'.card = s.card)
    (hcards : s'.cc.cards = if s.cc.waitsForCards then cards else reopenSids (env.now k) false curEr cards)
    (hfixed : s'.cc.fixed = s.cc.fixed) (hlast : s'.cl.last = last) (hw : er'.waiting = false)
    (htask : s'.cl.ecmtask = (s.scan env k).ecmtask.set n er') (hserved : Served env fuel (k + 1) s' r) :
    Served env (fuel + 1) k s r := by
  obtain ⟨new, hnew, hnodup, hslots, hrest⟩ := hserved
  obtain ⟨hext, hss, hpeer, hwaits⟩ := fixed_inj hfixed
  have hfewer : Fewer s'.cl.ecmtask s.cl.ecmtask := by
    rw [htask]
    exact (waitingSlots_set h hw).2.2
  refine ⟨new, hnew.trans (congrArg (· ++ new) hsends), hnodup, fun x hx => hfewer.subset (hslots x hx), ?_⟩
  have hkept := kept_eq_none hc
  have hcur' : curEr.waiting = false := by
    rw [hcur]
    exact waiting_of_gt (show E_UNHANDLED < E_ALREADY_SENT by decide)
  have horder := @requestOrder_congr env s.cc.peerNodeId s.cc.extendedMode _ _ fuel (k + 1)
    ((Same.refl (l := (s.scan env k).ecmtask)).set (i := n)
      ((core_of_not_waiting hw).trans (core_of_not_waiting hcur').symm))
  rw [hext] at hrest
  split_ifs with hmode
  · rw [if_pos hmode] at hrest
    rw [hrest, requestOrder_some h hcur, agrees_noCard hsleep hc, hss, hwaits, hcards, hcard, hlast, htask,
      hkept, hpeer, horder]
  · rw [if_neg hmode, hcard] at hrest
    exact hrest

/-- The message of this pass, and what the loop sends after it. -/
theorem served_send {s' r : Pass} {new : List Send} (h : (s.scan env k).next = some (n, ern))
    (hcur : curEr = { ern with rc := E_ALREADY_SENT })
    (hsleep : sleepCheck s.cc.sleepsend s.cl.last curEr = some last)
    (hc : chooseCard env (env.now k) s.cc.cards s.card curEr = (cards, some card))
    (hsends : s'.sends = s.sends ++ [⟨k, s.cc.cards, n, curEr, Requests.ecmMessage curEr.toEcmRequest card.id⟩])
    (htask : s'.cl.ecmtask = (s.scan env k).ecmtask.set n curEr)
    (hnew : r.sends = s'.sends ++ new) (hnodup : (new.map Send.n).Nodup)
    (hslots : ∀ x ∈ new, x.n ∈ waitingSlots s'.cl.ecmtask)
    (hrest : if s.cc.extendedMode then
        ((∀ x ∈ new, x.Addressed env) ↔ (env.sendOk k = true →
          Agrees env s.cc.sleepsend s.cc.waitsForCards (k + 1) cards (some card) last
            (requestOrder env s.cc.peerNodeId s.cc.extendedMode fuel (k + 1)
              ((s.scan env k).ecmtask.set n curEr))))
      else new = []) :
    Served env (fuel + 1) k s r := by
  have hcur' : curEr.waiting = false := by
    rw [hcur]
    exact waiting_of_gt (show E_UNHANDLED < E_ALREADY_SENT by decide)
  obtain ⟨hmem, hnot, hfewer⟩ := waitingSlots_set h hcur'
  have hx := addressed_iff (n := n) hc
  refine ⟨⟨k, s.cc.cards, n, curEr, Requests.ecmMessage curEr.toEcmRequest card.id⟩ :: new, ?_, ?_, ?_, ?_⟩
  · rw [hnew, hsends, List.append_assoc]
    rfl
  · rw [List.map_cons, List.nodup_cons]
    refine ⟨fun hn => ?_, hnodup⟩
    obtain ⟨x, hx, hxn⟩ := List.mem_map.mp hn
    have hslot := hslots x hx
    rw [htask, hxn] at hslot
    exact hnot hslot
  · intro x hx
    rcases List.mem_cons.mp hx with rfl | hx
    · exact hmem
    · have hslot := hslots x hx
      rw [htask] at hslot
      exact hfewer.subset hslot
  · split_ifs at hrest ⊢ with hmode
    · rw [requestOrder_some h hcur, agrees_send hsleep hc, List.forall_mem_cons, hx, hrest]
    · rw [hrest]
      intro hkept x hmemx
      rw [List.mem_singleton.mp hmemx, hx]
      intro old hold
      rw [hkept] at hold
      cases hold

/-- The loop ends, and what it has sent is as `Served` says. -/
theorem sendLoop_served (hfuel : (waitingSlots s.cl.ecmtask).card < fuel)
    (hprocessed : s.cc.extendedMode = false → s.processedEcms = 0) :
    ∃ r, sendLoop env fuel k s = some r ∧ Served env fuel k s r := by
  induction fuel generalizing k s with
  | zero => exact absurd hfuel (Nat.not_lt_zero _)
  | succ fuel ih =>
    cases hnext : (s.scan env k).next with
    | none =>
      obtain ⟨s', hpass, hsends⟩ := pass_none hnext
      refine ⟨s', by rw [sendLoop, hpass], served_nothing hsends ?_⟩
      rw [requestOrder_none hnext]
      trivial
    | some p =>
      obtain ⟨n, ern⟩ := p
      obtain ⟨curEr, hcur⟩ : ∃ curEr : EcmTask, curEr = { ern with rc := E_ALREADY_SENT } := ⟨_, rfl⟩
      cases hsleep : sleepCheck s.cc.sleepsend s.cl.last curEr with
      | none =>
        obtain ⟨s', hpass, hsends⟩ := pass_stopped hnext (hcur ▸ hsleep)
        refine ⟨s', by rw [sendLoop, hpass], served_nothing hsends ?_⟩
        rw [requestOrder_some hnext hcur]
        exact agrees_stopped hsleep
      | some last =>
        -- the entry of this request waits no more, so there is fuel for the rest
        have hless : ∀ {s' : Pass} {er' : EcmTask}, er'.waiting = false →
            s'.cl.ecmtask = (s.scan env k).ecmtask.set n er' → (waitingSlots s'.cl.ecmtask).card < fuel := by
          intro s' er' hw htask
          obtain ⟨hmem, hnot, hfewer⟩ := waitingSlots_set hnext hw
          have hlt : (waitingSlots s'.cl.ecmtask).card < (waitingSlots s.cl.ecmtask).card := by
            rw [htask]
            exact Finset.card_lt_card ⟨hfewer.subset, fun hsub => hnot (hsub hmem)⟩
          omega
        rcases hc : chooseCard env (env.now k) s.cc.cards s.card curEr with ⟨cards, found⟩
        cases found with
        | none =>
          obtain ⟨s', er', hpass, hsends, hcard, hproc, hcards, hfixed, hlast, hw, htask⟩ :=
            pass_noCard hnext hcur hsleep hc
          obtain ⟨hext, -⟩ := fixed_inj hfixed
          obtain ⟨r, hr, hserved⟩ := ih (k := k + 1) (hless hw htask) (by rw [hext, hproc]; exact hprocessed)
          refine ⟨r, ?_, served_noCard hnext hcur hsleep hc hsends hcard hcards hfixed hlast hw htask hserved⟩
          have hcond : (s'.cc.extendedMode || decide (s'.processedEcms = 0)) = true := by
            rw [hext, hproc]
            cases hmode : s.cc.extendedMode with
            | true => rfl
            | false => rw [hprocessed hmode]; rfl
          rw [sendLoop, hpass]
          exact (if_pos hcond).trans hr
        | some card =>
          obtain ⟨s', hpass, hsends, hcard, hcards, hfixed, hlast, htask⟩ := pass_send hnext hcur hsleep hc
          obtain ⟨hext, hss, hpeer, hwaits⟩ := fixed_inj hfixed
          have hw : curEr.waiting = false := by
            rw [hcur]
            exact waiting_of_gt (show E_UNHANDLED < E_ALREADY_SENT by decide)
          have hfuel' := hless hw htask
          cases hmode : s.cc.extendedMode with
          | false =>
            refine ⟨if env.sendOk k then s' else s'.cliClose, ?_, ?_⟩
            · rw [sendLoop, hpass, hmode]
              rfl
            · refine @served_send env _ _ _ _ _ _ _ _ _ _ _ [] hnext hcur hsleep hc hsends htask ?_
                List.nodup_nil (fun x hx => absurd hx List.not_mem_nil) ?_
              · rw [List.append_nil]
                split_ifs
                · rfl
                · rfl
              · rw [hmode]
                rfl
          | true =>
            cases hok : env.sendOk k with
            | true =>
              obtain ⟨r, hr, new, hnew, hnodup, hslots, hrest⟩ := ih (k := k + 1) hfuel' (fun h => by
                rw [hext, hmode] at h
                cases h)
              refine ⟨r, ?_, served_send hnext hcur hsleep hc hsends htask hnew hnodup hslots ?_⟩
              · rw [sendLoop, hpass, hmode, hok]
                change (if s'.cc.extendedMode || _ then _ else _) = _
                rw [hext, hmode]
                exact hr
              · rw [hext, hss, hpeer, hwaits, hcards, hcard, hlast, htask] at hrest
                rw [hmode] at hrest ⊢
                rw [hok]
                simpa using hrest
            | false =>
              obtain ⟨fuel, rfl⟩ : ∃ f, fuel = f + 1 := ⟨fuel - 1, by omega⟩
              obtain ⟨r, hr, hrs⟩ := @sendLoop_idle env (k + 1) fuel _ (waitingSlots_cliClose s')
              refine ⟨r, ?_, @served_send env _ _ _ _ _ _ _ _ _ _ _ [] hnext hcur hsleep hc hsends
                htask ?_ List.nodup_nil (fun x hx => absurd hx List.not_mem_nil) ?_⟩
              · rw [sendLoop, hpass, hmode, hok]
                change (if s'.cc.extendedMode || _ then _ else _) = _
                rw [hext, hmode]
                exact hr
              · rw [hrs, List.append_nil]
                rfl
              · rw [hmode, hok]
                simp

theorem sendLoop_mono {r : Pass} (h : sendLoop env fuel k s = some r) {fuel' : ℕ} (hle : fuel ≤ fuel') :
    sendLoop env fuel' k s = some r := by
  induction fuel generalizing fuel' k s with
  | zero => cases h
  | succ fuel ih =>
    obtain ⟨fuel', rfl⟩ : ∃ f, fuel' = f + 1 := ⟨fuel' - 1, by omega⟩
    rw [sendLoop] at h ⊢
    rcases hpass : pass env k s with ⟨next, s'⟩
    rw [hpass] at h
    cases next with
    | ret => exact h
    | again =>
      dsimp only at h ⊢
      split_ifs at h ⊢
      · exact ih h (by omega)
      · exact h

/-- A card without providers and sids. -/
def plainCard (id : BitVec 32) (caid : BitVec 16) : Card where
  id
  remoteId := id
  caid
  hop := 1
  reshare := 1
  hexserial := .replicate 8 0
  providers := []
  badsids := []
  goodsids := []
  remoteNodes := []
  originId := 0
  cardType := .remoteCard
  sidtab := none
  grp := 0
  rdrReshare := 0
  sidtabno := 0
  isExt := false
  addr := id.toNat
  rating := 0

/-- A request that waits. -/
def plainTask (caid srvid : BitVec 16) (tps : ℤ) : EcmTask where
  caid
  prid := 0
  srvid
  ecm := [0x80, 0, 0]
  ecmlen_le := by decide
  chid := 0
  pid := 0
  rc := E_UNHANDLED
  idx := 1
  tps
  client := none
  fromReader := false
  originCard := none

def plainEnv : Env where
  ctimeout := 5000
  ccForwardOriginCard := false
  ccWantEmu := false
  lbMode := 0
  lbAutoBetatunnel := false
  lbAutoBetatunnelMode := 0
  hasSrvid := fun _ => false
  now := fun _ => 2000100
  sendOk := fun _ => true

/-- A reader in extended mode with two cards, and one request for each. -/
def twoCards : State where
  tcpConnected := 2
  pfd := 1
  initialized := true
  ccReconnect := 0
  cc :=
    { cards := [plainCard 1 0x0500, plainCard 2 0x0600]
      extendedMode := true
      sleepsend := false
      lastMsg := 0
      justLoggedIn := false
      peerNodeId := .replicate 8 0
      ecmBusy := false
      ecmTime := 0
      serverEcmIdx := 0
      gFlag := 0
      extendedEcmIdx := [] }
  cl :=
    { ecmtask := [plainTask 0x0500 1 2000000, plainTask 0x0600 2 1999000]
      last := ⟨false, 0, 0, 0⟩
      pending := 0 }

def idleNet : Net := ⟨id, id⟩

end NCam.Cccam.SendEcm
