import NCam.Cccam.ShareSync

/-! Runs of `update_card_list` and reports to new clients, and what the clients hold after them. -/
namespace NCam.Cccam.Share

open NCam.Lib

/-- The number of ids that `cards` still need for `clients`. -/
def idsNeeded (cfg : Config) (clients : List Client) (cards : List ShareCard) : ℕ :=
  cards.countP fun card => card.id = 0 && clients.any fun cl => shows cfg cl card

/-- The cards of `new_cards`. -/
def newCards (entries : List Entry) : List ShareCard := (entries.filter fun entry => entry.old.isNone).map Entry.card

/-- `cc_share_id` gives `n` more ids before it wraps around. -/
def IdsLeft (next : BitVec 32) (n : ℕ) : Prop := n = 0 ∨ next ≠ 0 ∧ next.toNat + n ≤ 2 ^ 32

/-- The messages for the card keep inside their buffer and are read back. -/
def CanSend (cfg : Config) (clients : List Client) (card : ShareCard) : Prop :=
  ∀ cl ∈ clients, shows cfg cl card = true → Sendable (request cfg cl card) card.toCcCard

/-- A card that `find_reported_card` takes for unchanged is unchanged for the clients that know the old one. -/
def Unchanged (cfg : Config) (clients : List Client) (card old : ShareCard) : Prop :=
  ∀ cl ∈ clients, (cl.reported = true ∨ ∃ x ∈ cl.held, x.id = old.id) → share cfg cl card = share cfg cl old

/-- The condition on a step, in the state before it. -/
def StepOk (cfg : Config) (st : State) : Action → Prop
  | .update time serverCards =>
    let entries := (reportCards time (serverCards.map createdCard) st.reported).1
    (∀ entry ∈ entries, ∀ old ∈ entry.old, Unchanged cfg st.clients entry.card old) ∧
      (∀ entry ∈ entries, entry.old = none → CanSend cfg st.clients entry.card) ∧
      IdsLeft st.ccShareId (idsNeeded cfg st.clients (newCards entries))
  | .report i =>
    ∀ cl ∈ st.clients[i]?, (∀ card ∈ st.reported, CanSend cfg [cl] card) ∧
      IdsLeft st.ccShareId (idsNeeded cfg [cl] st.reported)
  | _ => True

variable {cfg : Config} {time : ℤ} {cl : Client} {card : ShareCard} {cards C P rest reported : List ShareCard}
  {entries : List Entry} {clients clients' : List Client} {next : BitVec 32} {n : ℕ}

instance : Decidable (IdsLeft next n) := inferInstanceAs (Decidable (_ ∨ _))

instance {req : CardRequest} {card : CcCard} : Decidable (Sendable req card) :=
  decidable_of_iff (messageLength req card ≤ ccMaxmsgsize ∧ (goodSids req card).length ≤ sidLimit card ∧
      (badSids req card).length ≤ sidLimit card ∧ ∀ prov ∈ card.providers,
        prov.prov.toNat < 2 ^ 24 ∧ ¬ (prov.prov = 0xFFFFFF ∧ caidIsBetacrypt card.caid = true))
    ⟨fun ⟨h1, h2, h3, h4⟩ => ⟨h1, h2, h3, h4⟩, fun ⟨h1, h2, h3, h4⟩ => ⟨h1, h2, h3, h4⟩⟩

instance : Decidable (CanSend cfg clients card) := inferInstanceAs (Decidable (∀ cl ∈ clients, _))

instance {old : ShareCard} : Decidable (Unchanged cfg clients card old) :=
  inferInstanceAs (Decidable (∀ cl ∈ clients, _))

instance (st : State) : ∀ a, Decidable (StepOk cfg st a)
  | .update _ _ => inferInstanceAs (Decidable (_ ∧ _ ∧ _))
  | .report _ => inferInstanceAs (Decidable (∀ cl ∈ _, _))
  | .connect _ => inferInstanceAs (Decidable True)
  | .disconnect _ => inferInstanceAs (Decidable True)

theorem IdsLeft.ne_zero (h : IdsLeft next (n + 1)) : next ≠ 0 := (h.resolve_left (Nat.succ_ne_zero n)).1

theorem IdsLeft.succ (h : IdsLeft next (n + 1)) : IdsLeft (next + 1) n := by
  obtain ⟨-, hle⟩ := h.resolve_left (Nat.succ_ne_zero n)
  by_cases hn : n = 0
  · exact .inl hn
  · have hsucc : (next + 1).toNat = next.toNat + 1 := by
      rw [BitVec.toNat_add]
      exact Nat.mod_eq_of_lt (by change next.toNat + 1 < 2 ^ 32; omega)
    refine .inr ⟨fun hzero => ?_, by omega⟩
    rw [hzero] at hsucc
    exact absurd hsucc (Nat.zero_ne_add_one _)

section Accounts

theorem account_deliver : (deliver cfg card cl).account = cl.account := by
  rw [deliver]
  split_ifs
  · rfl
  · rfl

theorem account_withdraw : (withdraw cfg card cl).account = cl.account := by
  rw [withdraw]
  split_ifs
  · rfl
  · rfl

theorem accounts_deliver : (clients.map (deliver cfg card)).map Client.account = clients.map Client.account := by
  rw [List.map_map]
  exact List.map_congr_left fun _ _ => account_deliver

theorem idsNeeded_congr (h : clients'.map Client.account = clients.map Client.account) :
    idsNeeded cfg clients' cards = idsNeeded cfg clients cards := by
  have hany : ∀ l : List Client, ∀ card : ShareCard,
      (l.any fun cl => shows cfg cl card) = (l.map Client.account).any fun cl => shows cfg cl card := by
    intro l card
    rw [List.any_map]
    rfl
  rw [idsNeeded, idsNeeded]
  congr 1
  funext card
  rw [hany, hany clients, h]

theorem CanSend.congr (hsend : CanSend cfg clients card)
    (h : clients'.map Client.account = clients.map Client.account) : CanSend cfg clients' card := by
  intro cl hcl hshows
  have hmem : cl.account ∈ clients.map Client.account := h ▸ List.mem_map_of_mem hcl
  obtain ⟨cl₀, hcl₀, heq⟩ := List.mem_map.mp hmem
  have hrequest : request cfg cl.account card = request cfg cl₀.account card := by rw [heq]
  have hshows₀ : shows cfg cl₀.account card = true := by
    rw [heq]
    exact hshows
  change Sendable (request cfg cl.account card) card.toCcCard
  rw [hrequest]
  exact hsend cl₀ hcl₀ hshows₀

theorem accounts_sendCardToAllClients (h0 : card.id = 0)
    (hnext : (∃ cl ∈ clients, shows cfg cl card = true) → next ≠ 0) :
    (sendCardToAllClients cfg next card clients).2.2.map Client.account = clients.map Client.account := by
  by_cases hshows : ∃ cl ∈ clients, shows cfg cl card = true
  · rw [sendCardToAllClients_new h0 (hnext hshows) hshows]
    exact accounts_deliver
  · rw [sendCardToAllClients_hidden fun cl hcl => Bool.eq_false_iff.mpr fun hcl' => hshows ⟨cl, hcl, hcl'⟩]

theorem accounts_remove : (rest.foldl (fun clients card => sendRemoveCardToClients cfg card clients)
    clients).map Client.account = clients.map Client.account := by
  induction rest generalizing clients with
  | nil => rfl
  | cons card rest ih =>
    rw [List.foldl_cons, ih, sendRemoveCardToClients_eq, List.map_map]
    exact List.map_congr_left fun _ _ => account_withdraw

/-- The ids that are left after a new card. -/
theorem idsLeft_sendCard (h0 : card.id = 0) (h : IdsLeft next (idsNeeded cfg clients (card :: cards))) :
    ((∃ cl ∈ clients, shows cfg cl card = true) → next ≠ 0) ∧
      IdsLeft (sendCardToAllClients cfg next card clients).1 (idsNeeded cfg clients cards) := by
  have hcount : idsNeeded cfg clients (card :: cards) = idsNeeded cfg clients cards +
      if (card.id = 0 && clients.any fun cl => shows cfg cl card) = true then 1 else 0 := List.countP_cons
  by_cases hshows : ∃ cl ∈ clients, shows cfg cl card = true
  · have hany : (card.id = 0 && clients.any fun cl => shows cfg cl card) = true := by
      rw [decide_eq_true h0, Bool.true_and]
      exact List.any_eq_true.mpr hshows
    rw [hcount, if_pos hany] at h
    rw [sendCardToAllClients_new h0 h.ne_zero hshows]
    exact ⟨fun _ => h.ne_zero, h.succ⟩
  · rw [sendCardToAllClients_hidden fun cl hcl => Bool.eq_false_iff.mpr fun hcl' => hshows ⟨cl, hcl, hcl'⟩]
    refine ⟨fun hex => absurd hex hshows, ?_⟩
    have hany : ¬ (card.id = 0 && clients.any fun cl => shows cfg cl card) = true := by
      intro hand
      exact hshows (List.any_eq_true.mp (Bool.and_eq_true_iff.mp hand).2)
    rw [hcount, if_neg hany] at h
    exact h

end Accounts

section Report

theorem findReportedCard_perm {card2 : ShareCard}
    (h : findReportedCard time card reported = some (card2, rest)) : reported.Perm (card2 :: rest) := by
  induction reported generalizing card2 rest with
  | nil => cases h
  | cons c list ih =>
    rw [findReportedCard] at h
    split_ifs at h with hsame
    · have heq := Option.some.inj h
      obtain ⟨rfl, rfl⟩ := Prod.mk.inj heq
      exact List.Perm.refl _
    · obtain ⟨⟨found, rest'⟩, hfound, heq⟩ := Option.map_eq_some_iff.mp h
      obtain ⟨rfl, rfl⟩ := Prod.mk.inj heq
      exact ((ih hfound).cons c).trans (List.Perm.swap found c rest')

/-- Every card of the old list is replaced by one of the new list or stays behind. -/
theorem reportCards_perm : reported.Perm
    ((reportCards time cards reported).1.filterMap Entry.old ++ (reportCards time cards reported).2) := by
  induction cards generalizing reported with
  | nil => exact List.Perm.refl _
  | cons card cards ih =>
    rw [reportCards]
    cases hfind : findReportedCard time card reported with
    | none => exact ih
    | some found =>
      obtain ⟨card2, rest⟩ := found
      exact (findReportedCard_perm hfind).trans (ih.cons card2)

/-- A card that replaces an old one has its id. -/
theorem reportCards_id (hcards : ∀ card ∈ cards, card.id = 0) :
    ∀ entry ∈ (reportCards time cards reported).1, entry.card.id = (entry.old.map (·.id)).getD 0 := by
  induction cards generalizing reported with
  | nil => exact fun entry h => absurd h List.not_mem_nil
  | cons card cards ih =>
    have hrest : ∀ card ∈ cards, card.id = 0 := fun c hc => hcards c (List.mem_cons_of_mem _ hc)
    rw [reportCards]
    cases hfind : findReportedCard time card reported with
    | none =>
      intro entry hentry
      rcases List.mem_cons.mp hentry with rfl | hentry
      · exact hcards card List.mem_cons_self
      · exact ih hrest entry hentry
    | some found =>
      obtain ⟨card2, rest⟩ := found
      intro entry hentry
      rcases List.mem_cons.mp hentry with rfl | hentry
      · rfl
      · exact ih hrest entry hentry

end Report

/-- The cards of the new list that replace one of the old list. -/
def keptCards (entries : List Entry) : List ShareCard :=
  (entries.filter fun entry => entry.old.isSome).map Entry.card

/-- The old cards that are found again give way to the new ones. -/
theorem Inv.replaceAll (h : Inv cfg next (entries.filterMap Entry.old ++ C) clients)
    (hid : ∀ entry ∈ entries, entry.card.id = (entry.old.map (·.id)).getD 0)
    (hsame : ∀ entry ∈ entries, ∀ old ∈ entry.old, Unchanged cfg clients entry.card old) :
    Inv cfg next (keptCards entries ++ C) clients := by
  induction entries generalizing C with
  | nil => exact h
  | cons entry entries ih =>
    have hid' : ∀ entry ∈ entries, entry.card.id = (entry.old.map (·.id)).getD 0 := fun e he =>
      hid e (List.mem_cons_of_mem _ he)
    have hsame' : ∀ entry ∈ entries, ∀ old ∈ entry.old, Unchanged cfg clients entry.card old := fun e he =>
      hsame e (List.mem_cons_of_mem _ he)
    obtain ⟨card, old⟩ := entry
    cases old with
    | none => exact ih h hid' hsame'
    | some old =>
      have hone : Inv cfg next (card :: (entries.filterMap Entry.old ++ C)) clients :=
        @Inv.replace _ _ old _ _ _ h (hid ⟨card, some old⟩ List.mem_cons_self)
          (hsame ⟨card, some old⟩ List.mem_cons_self old rfl)
      exact (ih (hone.perm List.perm_middle.symm) hid' hsame').perm List.perm_middle

/-- The cards that stay behind are withdrawn. -/
theorem Inv.removeAll (h : Inv cfg next (rest ++ C) clients) :
    Inv cfg next C (rest.foldl (fun clients card => sendRemoveCardToClients cfg card clients) clients) := by
  induction rest generalizing clients with
  | nil => exact h
  | cons card rest ih => exact ih h.remove

/-- The new cards come into the list and go to the clients. -/
theorem Inv.sendAll (h : Inv cfg next (keptCards entries ++ C) clients)
    (hnew : ∀ entry ∈ entries, entry.old = none → entry.card.id = 0 ∧ CanSend cfg clients entry.card)
    (hids : IdsLeft next (idsNeeded cfg clients (newCards entries))) :
    Inv cfg (sendNewCards cfg next entries clients).1 ((sendNewCards cfg next entries clients).2.1 ++ C)
      (sendNewCards cfg next entries clients).2.2 := by
  induction entries generalizing next clients C with
  | nil => exact h
  | cons entry entries ih =>
    have hnew' : ∀ entry ∈ entries, entry.old = none → entry.card.id = 0 ∧ CanSend cfg clients entry.card :=
      fun e he => hnew e (List.mem_cons_of_mem _ he)
    obtain ⟨card, old⟩ := entry
    rw [sendNewCards]
    cases old with
    | some old =>
      exact (ih (C := card :: C) (h.perm List.perm_middle.symm) hnew' hids).perm List.perm_middle
    | none =>
      obtain ⟨h0, hsend⟩ := hnew ⟨card, none⟩ List.mem_cons_self rfl
      obtain ⟨hnext, hids'⟩ := @idsLeft_sendCard _ _ (newCards entries) _ _ h0 hids
      have hacc := accounts_sendCardToAllClients h0 hnext
      have hadd := (h.add h0 hnext hsend).perm List.perm_middle.symm
      refine (ih hadd ?_ ?_).perm List.perm_middle
      · exact fun e he hold => ⟨(hnew' e he hold).1, (hnew' e he hold).2.congr hacc⟩
      · rw [idsNeeded_congr hacc]
        exact hids'

theorem Inv.update {st : State} (h : Inv cfg st.ccShareId st.reported st.clients)
    {serverCards : List ShareCard} (hok : StepOk cfg st (.update time serverCards)) :
    Inv cfg (updateCardList cfg time serverCards st).ccShareId (updateCardList cfg time serverCards st).reported
      (updateCardList cfg time serverCards st).clients := by
  obtain ⟨hsame, hsend, hids⟩ := hok
  have hcreated : ∀ card ∈ serverCards.map createdCard, card.id = 0 := by
    intro card hcard
    obtain ⟨c, -, rfl⟩ := List.mem_map.mp hcard
    rfl
  have hid := @reportCards_id time _ st.reported hcreated
  have hreplaced := (h.perm reportCards_perm).replaceAll hid hsame
  have hremoved := (hreplaced.perm List.perm_append_comm).removeAll
  have hnew := @Inv.sendAll _ [] (reportCards time (serverCards.map createdCard) st.reported).1 _
    _ (by rw [List.append_nil]; exact hremoved) ?_ ?_
  · rw [List.append_nil] at hnew
    exact hnew
  · intro entry hentry hold
    refine ⟨?_, (hsend entry hentry hold).congr accounts_remove⟩
    rw [hid entry hentry, hold]
    rfl
  · rw [idsNeeded_congr accounts_remove]
    exact hids

theorem Inv.setReported (h : Inv cfg next C clients) {i : ℕ} (hi : clients[i]? = some cl)
    (hcomplete : Complete cfg C cl) : Inv cfg next C (clients.set i { cl with reported := true }) := by
  refine ⟨h.distinct, h.below, fun cl' hcl' => ?_, fun cl' hcl' hrep => ?_⟩
  · rcases List.mem_or_eq_of_mem_set hcl' with hmem | rfl
    · exact h.sound cl' hmem
    · exact ⟨(h.sound cl (List.mem_of_getElem? hi)).nodup, (h.sound cl (List.mem_of_getElem? hi)).source⟩
  · rcases List.mem_or_eq_of_mem_set hcl' with hmem | rfl
    · exact h.complete cl' hmem hrep
    · exact hcomplete

/-- One card of the report to a client. -/
theorem Inv.sendTo {i : ℕ} (h : Inv cfg next (P ++ card :: cards) clients) (hi : clients[i]? = some cl)
    (hP : Complete cfg P cl) (hsend : CanSend cfg [cl] card)
    (hids : IdsLeft next (idsNeeded cfg [cl] (card :: cards))) :
    ∃ next' card' cl', sendCardToClient cfg next card cl = (next', card', cl') ∧
      Inv cfg next' (P ++ card' :: cards) (clients.set i cl') ∧ Complete cfg (P ++ [card']) cl' ∧
      cl'.account = cl.account ∧ IdsLeft next' (idsNeeded cfg [cl] cards) := by
  -- the card has its id, and goes to the client
  have hknown : ∀ {next : BitVec 32} {card : ShareCard}, Inv cfg next (P ++ card :: cards) clients →
      card.id ≠ 0 → (shows cfg cl card = true → Sendable (request cfg cl card) card.toCcCard) →
      Inv cfg next (P ++ card :: cards) (clients.set i (Share.deliver cfg card cl)) ∧
        Complete cfg (P ++ [card]) (Share.deliver cfg card cl) := by
    intro next card h h0 hsend
    have hmem : card ∈ P ++ card :: cards := List.mem_append_right _ List.mem_cons_self
    refine ⟨h.deliver hi hmem (fun _ => h0) hsend, fun c hc => ?_⟩
    have hother : ∀ c ∈ P, c.id = card.id → c = card := fun c hc hid =>
      h.distinct.eq_of_id (List.mem_append_left _ hc) hmem hid (hid ▸ h0)
    exact hP.deliver hother hsend c (List.perm_append_singleton card P |>.mem_iff.mp hc)
  by_cases h0 : card.id = 0
  · obtain ⟨hnext, hids'⟩ := @idsLeft_sendCard _ _ _ [cl] _ h0 hids
    cases hshows : shows cfg cl card with
    | false =>
      rw [sendCardToAllClients_hidden fun c hc => List.mem_singleton.mp hc ▸ hshows] at hids'
      have hset : clients.set i cl = clients := by
        obtain ⟨hlt, rfl⟩ := List.getElem?_eq_some_iff.mp hi
        exact List.set_getElem_self hlt
      refine ⟨next, card, cl, sendCardToClient_hidden hshows, hset.symm ▸ h, fun c hc x hx => ?_, rfl, hids'⟩
      rcases List.mem_append.mp hc with hc | hc
      · exact hP c hc x hx
      · rw [List.mem_singleton.mp hc] at hx
        rw [shows_of_share hx] at hshows
        cases hshows
    | true =>
      have hex : ∃ c ∈ [cl], shows cfg c card = true := ⟨cl, List.mem_singleton_self cl, hshows⟩
      rw [sendCardToAllClients_new h0 (hnext hex) hex] at hids'
      have hassign := ((h.perm List.perm_middle).assign h0 (hnext hex)).perm List.perm_middle.symm
      obtain ⟨hinv, hcomplete⟩ := hknown hassign (hnext hex) fun _ =>
        sendable_id next (hsend cl (List.mem_singleton_self cl) hshows)
      exact ⟨_, _, _, sendCardToClient_new h0 hshows, hinv, hcomplete, account_deliver, hids'⟩
  · obtain ⟨hinv, hcomplete⟩ := hknown h h0 (hsend cl (List.mem_singleton_self cl))
    refine ⟨_, _, _, sendCardToClient_id h0, hinv, hcomplete, account_deliver, ?_⟩
    rw [idsNeeded, List.countP_cons_of_neg (by rw [decide_eq_false h0, Bool.false_and]; exact Bool.false_ne_true)]
      at hids
    exact hids

/-- The report to a client sends it every card that it should know. -/
theorem Inv.report {i : ℕ} (h : Inv cfg next (P ++ cards) clients) (hi : clients[i]? = some cl)
    (hP : Complete cfg P cl) (hsend : ∀ card ∈ cards, CanSend cfg [cl] card)
    (hids : IdsLeft next (idsNeeded cfg [cl] cards)) :
    Inv cfg (ccSrvReportCards cfg next cards cl).1 (P ++ (ccSrvReportCards cfg next cards cl).2.1)
      (clients.set i (ccSrvReportCards cfg next cards cl).2.2) := by
  induction cards generalizing P next cl clients with
  | nil =>
    rw [List.append_nil] at h
    rw [ccSrvReportCards, List.append_nil]
    exact h.setReported hi hP
  | cons card cards ih =>
    have hsend' : ∀ card ∈ cards, CanSend cfg [cl] card := fun c hc => hsend c (List.mem_cons_of_mem _ hc)
    obtain ⟨next', card', cl', hstep, hinv, hcomplete, hacc, hids'⟩ :=
      h.sendTo hi hP (hsend card List.mem_cons_self) hids
    have hlt := (List.getElem?_eq_some_iff.mp hi).1
    have haccs : [cl'].map Client.account = [cl].map Client.account := by
      rw [List.map_singleton, List.map_singleton, hacc]
    rw [List.append_cons] at hinv
    have hrest := ih hinv (List.getElem?_set_self hlt) hcomplete (fun c hc => (hsend' c hc).congr haccs)
      (by rw [idsNeeded_congr haccs]; exact hids')
    rw [List.set_set, List.append_assoc] at hrest
    rw [ccSrvReportCards, hstep]
    exact hrest

/-- The invariant of a state. -/
def State.Inv (cfg : Config) (st : State) : Prop := Share.Inv cfg st.ccShareId st.reported st.clients

theorem inv_init {st : State} (h : (system cfg).init st) : st.Inv cfg := by
  have hst : st = ⟨0x64, [], []⟩ := h
  subst hst
  exact ⟨List.Pairwise.nil, .inr fun c hc => absurd hc List.not_mem_nil, fun cl hcl => absurd hcl List.not_mem_nil,
    fun cl hcl => absurd hcl List.not_mem_nil⟩

/-- A step that meets the condition keeps the invariant. -/
theorem inv_step {st st' : State} {a : Action} (h : st.Inv cfg) (hok : StepOk cfg st a)
    (hnext : (system cfg).next st a = some st') : st'.Inv cfg := by
  cases a with
  | update time serverCards =>
    have heq : updateCardList cfg time serverCards st = st' := Option.some.inj hnext
    rw [← heq]
    exact Inv.update h hok
  | connect cl =>
    have heq := Option.some.inj hnext
    rw [← heq]
    refine ⟨h.distinct, h.below, fun c hc => ?_, fun c hc hrep => ?_⟩
    · rcases List.mem_append.mp hc with hc | hc
      · exact h.sound c hc
      · rw [List.mem_singleton.mp hc]
        exact ⟨List.nodup_nil, fun x hx => absurd hx List.not_mem_nil⟩
    · rcases List.mem_append.mp hc with hc | hc
      · exact h.complete c hc hrep
      · rw [List.mem_singleton.mp hc] at hrep
        cases hrep
  | report i =>
    obtain ⟨cl, hi, heq⟩ := Option.map_eq_some_iff.mp hnext
    obtain ⟨hsend, hids⟩ := hok cl hi
    rw [← heq]
    exact Inv.report (P := []) h hi (fun c hc => absurd hc List.not_mem_nil) hsend hids
  | disconnect i =>
    have heq := Option.some.inj hnext
    rw [← heq]
    exact ⟨h.distinct, h.below, fun c hc => h.sound c (List.mem_of_mem_eraseIdx hc),
      fun c hc => h.complete c (List.mem_of_mem_eraseIdx hc)⟩

/-- What the invariant says about a client that the cards were reported to. -/
theorem Inv.agrees (h : Inv cfg next C clients) (hcl : cl ∈ clients) (hrep : cl.reported = true) :
    Agrees cfg C cl := by
  have hnodup := (h.sound cl hcl).nodup
  refine ⟨(List.perm_ext_iff_of_nodup hnodup.of_map ?_).mpr fun x => ?_, hnodup⟩
  · refine List.pairwise_filterMap.mpr (h.distinct.imp_of_mem fun {a b} ha hb hab x hx y hy hxy => ?_)
    have hid : a.id = b.id := by
      rw [← share_id hx, ← share_id hy, hxy]
    exact h.id_ne_zero hcl hrep ha (shows_of_share hx) (hab hid)
  · rw [List.mem_filterMap]
    constructor
    · intro hx
      obtain ⟨card, hcard, -, hshare⟩ := (h.sound cl hcl).source x hx
      exact ⟨card, hcard, hshare⟩
    · rintro ⟨card, hcard, hshare⟩
      exact h.complete cl hcl hrep card hcard x hshare

/-- A remote card of caid 0500 with one provider. -/
def oneCard (prov : BitVec 32) : ShareCard where
  id := 0
  remoteId := 1
  caid := 0x0500
  hop := 1
  reshare := 2
  hexserial := .replicate 8 0
  providers := [⟨prov, .replicate 4 0⟩]
  badsids := []
  goodsids := []
  remoteNodes := []
  originId := 1
  cardType := .remoteCard
  sidtab := none
  grp := 1
  rdrReshare := 2
  sidtabno := 0
  isExt := false
  originReader := some 1
  sidtabPos := none
  timeout := 0

def oneClient : Client where
  grp := 1
  ftab := []
  chkCtab := fun _ => true
  chkSrvidByCaidProv := fun _ _ => true
  cccreshare := 2
  cccignorereshare := 0
  cccmaxhops := 10
  sidtabsOk := 0
  sidtabsNo := 0
  peerNodeId := .replicate 8 1
  nodeId := .replicate 8 2
  cccam220 := false
  aureaders := []
  reported := false
  queue := []

def plainConfig : Config := ⟨2, 0, []⟩

/-- The provider of a card changes between two runs. -/
def providerRun : List Action :=
  [.connect oneClient, .report 0, .update 0 [oneCard 1], .update 1 [oneCard 2]]

/-- Two runs with the same card. -/
def steadyRun : List Action :=
  [.connect oneClient, .report 0, .update 0 [oneCard 1], .update 1 [oneCard 1]]

end NCam.Cccam.Share
