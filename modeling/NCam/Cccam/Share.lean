import NCam.Cccam.CardRoundTrip
import NCam.Lib.Transition

/-! The share list of the CCcam server: `update_card_list`, the report to a new client, and the messages that
both queue for the clients. What a client reads from the message for a card. -/
namespace NCam.Cccam.Share

open NCam.Lib NCam.Lib.Memory NCam.Util

/-- A card of the share list. `originReader` and `sidtabPos` stand for the pointers to the reader and into
`cfg.sidtab`. -/
structure ShareCard extends CcCard where
  originReader : Option ℕ
  sidtabPos : Option ℕ
  timeout : ℤ

/-- An entry of `ftab`. -/
structure Filt where
  caid : BitVec 16
  prids : List (BitVec 32)

/-- The options of the server. -/
structure Config where
  ccReshare : BitVec 8
  ccIgnoreReshare : BitVec 8
  sidtab : List Sidtab

/-- A queued message; a card comes as a buffer with the length that counts in it. -/
inductive Msg
  | newCard (ext : Bool) (buf : ℕ → Byte) (len : ℕ)
  | cardRemoved (id : BitVec 32)

/-- A connected CCcam client: its account, its connection, and the messages queued for it so far. `chkCtab` and
`chkSrvidByCaidProv` are the filters on its caid table and its services; `reported` is set when
`cc_srv_report_cards` has run for it. -/
structure Client where
  grp : BitVec 64
  ftab : List Filt
  chkCtab : BitVec 16 → Bool
  chkSrvidByCaidProv : BitVec 16 → BitVec 32 → Bool
  cccreshare : BitVec 8
  cccignorereshare : BitVec 8
  cccmaxhops : ℤ
  sidtabsOk : BitVec 64
  sidtabsNo : BitVec 64
  peerNodeId : NodeId
  nodeId : NodeId
  cccam220 : Bool
  aureaders : List ℕ
  reported : Bool
  queue : List Msg

/-- `same_first_node`. -/
def sameFirstNode (card1 card2 : ShareCard) : Bool := card1.remoteNodes.head? = card2.remoteNodes.head?

/-- `same_card2`. -/
def sameCard2 (card1 card2 : ShareCard) (compareGrp : Bool) : Bool :=
  card1.caid = card2.caid && card1.cardType = card2.cardType && card1.sidtabPos = card2.sidtabPos &&
    (!compareGrp || card1.grp = card2.grp) && card1.hexserial = card2.hexserial

/-- `same_card`. -/
def sameCard (card1 card2 : ShareCard) : Bool :=
  card1.remoteId = card2.remoteId && sameCard2 card1 card2 true && sameFirstNode card1 card2

/-- `card_timed_out`. -/
def cardTimedOut (time : ℤ) (card : ShareCard) : Bool := card.cardType ≠ .remoteCard && card.timeout < time

/-- `can_use_ext`. -/
def canUseExt (card : ShareCard) : Bool :=
  if card.cardType = .remoteCard then card.isExt
  else
    match card.sidtab with
    | some sidtab => !sidtab.srvid.isEmpty
    | none => !card.goodsids.isEmpty || !card.badsids.isEmpty

/-- `chk_ident`, from the entries of `ftab` on; `res` is what the entries before gave. -/
def chkIdent (card : ShareCard) : Bool → List Filt → Bool
  | res, [] => res
  | res, filt :: ftab =>
    if filt.caid = 0 then chkIdent card res ftab
    else if filt.caid = card.caid ∧
        (filt.prids = [] ∨ (card.providers.any fun prov => filt.prids.contains prov.prov) = true) then true
    else chkIdent card false ftab

/-- The check of a card that was made from a service in `card_valid_for_client`. -/
def serviceValid (cl : Client) (card : ShareCard) : Bool :=
  match card.sidtabPos with
  | none => true
  | some j =>
    if cl.sidtabsOk = 0 ∧ cl.sidtabsNo = 0 then true
    else if cl.sidtabsNo.getLsbD j then false
    else cl.sidtabsOk = 0 || cl.sidtabsOk.getLsbD j

/-- `card_valid_for_client`. -/
def cardValidForClient (cfg : Config) (cl : Client) (card : ShareCard) : Bool :=
  let ignorereshare := if cl.cccignorereshare.toInt = -1 then cfg.ccIgnoreReshare else cl.cccignorereshare
  (card.grp = 0 || card.grp &&& cl.grp ≠ 0) && chkIdent card true cl.ftab && cl.chkCtab card.caid &&
    !(card.cardType = .remoteCard && ignorereshare = 0 && card.reshare = 0) &&
    !(cl.cccmaxhops < (card.hop.toNat : ℤ)) && !card.remoteNodes.contains cl.peerNodeId &&
    (if card.providers.isEmpty then cl.chkSrvidByCaidProv card.caid 0
      else card.providers.any fun prov => cl.chkSrvidByCaidProv card.caid prov.prov) &&
    serviceValid cl card

/-- The value of `new_reshare` in `send_card_to_client`. -/
def newReshare (cfg : Config) (cl : Client) (card : ShareCard) : BitVec 8 :=
  let usrReshare := if cl.cccreshare.toInt = -1 then cfg.ccReshare else cl.cccreshare
  let ignorereshare := if cl.cccignorereshare.toInt = -1 then cfg.ccIgnoreReshare else cl.cccignorereshare
  let readerReshare := if card.originReader.isSome then card.rdrReshare else usrReshare
  let readerReshare := if readerReshare.toInt = -1 then cfg.ccReshare else readerReshare
  let reshare := if readerReshare.toInt < usrReshare.toInt then readerReshare else usrReshare
  if card.cardType = .byServiceUser then usrReshare
  else if ignorereshare ≠ 0 then reshare
  else
    let newReshare := if card.cardType = .remoteCard then card.reshare - 1 else card.reshare
    if newReshare.toInt > reshare.toInt then reshare else newReshare

/-- Whether `send_card_to_client` has a message for the client. -/
def shows (cfg : Config) (cl : Client) (card : ShareCard) : Bool :=
  cardValidForClient cfg cl card && (newReshare cfg cl card).toInt ≥ 0

/-- `is_client_au_allowed`. -/
def isClientAuAllowed (card : ShareCard) (cl : Client) : Bool :=
  card.originReader.any fun rdr => cl.aureaders.contains rdr

/-- The arguments of `write_card` in `send_card_to_client`. -/
def request (cfg : Config) (cl : Client) (card : ShareCard) : CardRequest where
  nodeId := cl.nodeId
  sidtabsNo := cl.sidtabsNo
  cfgSidtab := cfg.sidtab
  addOwn := true
  ext := cl.cccam220 && canUseExt card
  auAllowed := isClientAuAllowed card cl

/-- The message of `send_card_to_client`. -/
def cardMessage (cfg : Config) (cl : Client) (card : ShareCard) : Msg :=
  let req := request cfg cl card
  let out := writeCard req card.toCcCard fun _ => 0
  .newCard req.ext (put out.buf 11 [newReshare cfg cl card]) out.ofs

def Client.send (cl : Client) (msg : Msg) : Client := { cl with queue := cl.queue ++ [msg] }

/-- `send_card_to_client`, with `cc_share_id`, the card and the client as it leaves them. -/
def sendCardToClient (cfg : Config) (ccShareId : BitVec 32) (card : ShareCard) (cl : Client) :
    BitVec 32 × ShareCard × Client :=
  if shows cfg cl card then
    if card.id = 0 then
      let card := { card with id := ccShareId }
      (ccShareId + 1, card, cl.send (cardMessage cfg cl card))
    else (ccShareId, card, cl.send (cardMessage cfg cl card))
  else (ccShareId, card, cl)

/-- `send_card_to_all_clients`. -/
def sendCardToAllClients (cfg : Config) : BitVec 32 → ShareCard → List Client → BitVec 32 × ShareCard × List Client
  | ccShareId, card, [] => (ccShareId, card, [])
  | ccShareId, card, cl :: clients =>
    let (ccShareId, card, cl) := sendCardToClient cfg ccShareId card cl
    let (ccShareId, card, clients) := sendCardToAllClients cfg ccShareId card clients
    (ccShareId, card, cl :: clients)

/-- `send_remove_card_to_clients`. -/
def sendRemoveCardToClients (cfg : Config) (card : ShareCard) (clients : List Client) : List Client :=
  if card.id = 0 then clients
  else clients.map fun cl => if cardValidForClient cfg cl card then cl.send (.cardRemoved card.id) else cl

/-- `find_reported_card`: the first card of the old list that is the same, and the old list without it. Its caid
is that of `card1`, so this is the search in the one list for this caid. -/
def findReportedCard (time : ℤ) (card1 : ShareCard) : List ShareCard → Option (ShareCard × List ShareCard)
  | [] => none
  | card2 :: list =>
    if sameCard card1 card2 && !cardTimedOut time card2 then some (card2, list)
    else (findReportedCard time card1 list).map fun (card, rest) => (card, card2 :: rest)

/-- A card of the new list, with the card of the old list that it replaces; without one it is in `new_cards`. -/
structure Entry where
  card : ShareCard
  old : Option ShareCard

/-- `report_card` for the cards of a run, with what stays of the old list. -/
def reportCards (time : ℤ) : List ShareCard → List ShareCard → List Entry × List ShareCard
  | [], reported => ([], reported)
  | card :: cards, reported =>
    match findReportedCard time card reported with
    | some (card2, reported) =>
      let (entries, rest) := reportCards time cards reported
      (⟨{ card with id := card2.id, timeout := card2.timeout }, some card2⟩ :: entries, rest)
    | none =>
      let (entries, rest) := reportCards time cards reported
      (⟨card, none⟩ :: entries, rest)

/-- The loop that sends the new cards; it gives the cards of the new list with their ids. -/
def sendNewCards (cfg : Config) : BitVec 32 → List Entry → List Client → BitVec 32 × List ShareCard × List Client
  | ccShareId, [], clients => (ccShareId, [], clients)
  | ccShareId, entry :: entries, clients =>
    match entry.old with
    | some _ =>
      let (ccShareId, cards, clients) := sendNewCards cfg ccShareId entries clients
      (ccShareId, entry.card :: cards, clients)
    | none =>
      let (ccShareId, card, clients) := sendCardToAllClients cfg ccShareId entry.card clients
      let (ccShareId, cards, clients) := sendNewCards cfg ccShareId entries clients
      (ccShareId, card :: cards, clients)

/-- `reported` has the 32 lists of `reported_carddatas_list` one behind the other. -/
structure State where
  ccShareId : BitVec 32
  reported : List ShareCard
  clients : List Client

/-- A card from `create_card` has no id yet. -/
def createdCard (card : ShareCard) : ShareCard := { card with id := 0 }

/-- `update_card_list` from the cards of `server_cards` on. -/
def updateCardList (cfg : Config) (time : ℤ) (serverCards : List ShareCard) (st : State) : State :=
  let (entries, rest) := reportCards time (serverCards.map createdCard) st.reported
  let clients := rest.foldl (fun clients card => sendRemoveCardToClients cfg card clients) st.clients
  let (ccShareId, reported, clients) := sendNewCards cfg st.ccShareId entries clients
  ⟨ccShareId, reported, clients⟩

/-- `cc_srv_report_cards`. -/
def ccSrvReportCards (cfg : Config) : BitVec 32 → List ShareCard → Client → BitVec 32 × List ShareCard × Client
  | ccShareId, [], cl => (ccShareId, [], { cl with reported := true })
  | ccShareId, card :: cards, cl =>
    let (ccShareId, card, cl) := sendCardToClient cfg ccShareId card cl
    let (ccShareId, cards, cl) := ccSrvReportCards cfg ccShareId cards cl
    (ccShareId, card :: cards, cl)

inductive Action
  | update (time : ℤ) (serverCards : List ShareCard)
  /-- A client gets into the list of the clients. -/
  | connect (cl : Client)
  /-- The cards are reported to the client at this place in the list. -/
  | report (i : ℕ)
  | disconnect (i : ℕ)

/-- The server with its clients; updates and reports exclude each other by `cc_shares_lock`. -/
def system (cfg : Config) : System State Action where
  init st := st = ⟨0x64, [], []⟩
  next st
    | .update time serverCards => some (updateCardList cfg time serverCards st)
    | .connect cl => some { st with clients := st.clients ++ [{ cl with reported := false, queue := [] }] }
    | .report i =>
      st.clients[i]?.map fun cl =>
        let (ccShareId, reported, cl) := ccSrvReportCards cfg st.ccShareId st.reported cl
        ⟨ccShareId, reported, st.clients.set i cl⟩
    | .disconnect i => some { st with clients := st.clients.eraseIdx i }

/-- What a client should know about a card. -/
structure Share where
  id : BitVec 32
  caid : BitVec 16
  providers : List CcProvider
  goodsids : List (BitVec 16)
  badsids : List (BitVec 16)
deriving DecidableEq

/-- A reported card that is valid for the client, as far as its message goes. -/
def share (cfg : Config) (cl : Client) (card : ShareCard) : Option Share :=
  if shows cfg cl card then
    let req := request cfg cl card
    some
      { id := card.id
        caid := card.caid
        providers := card.providers.map (announcedProvider req.auAllowed)
        goodsids := goodSids req card.toCcCard
        badsids := badSids req card.toCcCard }
  else none

/-- A card that a client has read. -/
def readShare (card : CcCard) : Share :=
  ⟨card.id, card.caid, card.providers, card.goodsids.map (·.sid), card.badsids.map (·.sid)⟩

/-- The client applies a message: a card replaces the one of its id. -/
def apply (held : List Share) : Msg → List Share
  | .newCard ext buf len =>
    match readCard buf len ext with
    | some card => Mirror.place Share.id (readShare card) held
    | none => held
  | .cardRemoved id => Mirror.remove Share.id id held

/-- The cards of a client that has applied its messages in order. -/
def Client.held (cl : Client) : List Share := cl.queue.foldl apply []

/-- The client has exactly the reported cards that are valid for it, as they are now, with different ids. -/
structure Agrees (cfg : Config) (reported : List ShareCard) (cl : Client) : Prop where
  shares : cl.held.Perm (reported.filterMap (share cfg cl))
  nodup : (cl.held.map Share.id).Nodup

section Reading

variable {buf : ℕ → Byte} {r : BitVec 8} {o : ℕ}

private theorem put_reshare_lt {i : ℕ} (h : i < 11) : put buf 11 [r] i = buf i := put_of_lt h

private theorem put_reshare_gt {i : ℕ} (h : 12 ≤ i) : put buf 11 [r] i = buf i := put_of_le h

private theorem readSid_put_reshare (h : o + 2 ≤ 11 ∨ 12 ≤ o) : readSid (put buf 11 [r]) o = readSid buf o := by
  have hbyte : ∀ k < 2, put buf 11 [r] (o + k) = buf (o + k) := by
    intro k hk
    rcases h with hlo | hhi
    · exact put_reshare_lt (by omega)
    · exact put_reshare_gt (by omega)
  simp only [readSid, b2i, hbyte 0 (by decide), hbyte 1 (by decide)]

private theorem readProvider_put_reshare (caid : BitVec 16) (i : ℕ) (h : 12 ≤ o) :
    readProvider caid (put buf 11 [r]) o i = readProvider caid buf o i := by
  have hbyte : ∀ k, put buf 11 [r] (o + k) = buf (o + k) := fun k => put_reshare_gt (by omega)
  simp only [readProvider, b2i, Nat.add_assoc, hbyte]

private theorem readCardBody_put_reshare (ext : Bool) (np na nr : ℕ) (h : 12 ≤ o) :
    readCardBody (put buf 11 [r]) ext np na nr o = { readCardBody buf ext np na nr o with reshare := r } := by
  have hid : b2i 4 (put buf 11 [r]) 0 = b2i 4 buf 0 := b2i_four_put (.inl (by decide))
  have hremote : b2i 4 (put buf 11 [r]) 4 = b2i 4 buf 4 := b2i_four_put (.inl (by decide))
  have hcaid : readSid (put buf 11 [r]) 8 = readSid buf 8 := readSid_put_reshare (.inl (by decide))
  have hserial : ∀ j, put buf 11 [r] (12 + j) = buf (12 + j) := fun j => put_reshare_gt (by omega)
  have hsid : ∀ i, 12 ≤ i → readSid (put buf 11 [r]) i = readSid buf i := fun i hi =>
    readSid_put_reshare (.inr hi)
  have hprov : ∀ i, readProvider (readSid buf 8) (put buf 11 [r]) (o + 7 * i) i =
      readProvider (readSid buf 8) buf (o + 7 * i) i := fun i => readProvider_put_reshare _ _ (by omega)
  have hgood : ∀ i, readSid (put buf 11 [r]) (o + 7 * np + 2 * i) = readSid buf (o + 7 * np + 2 * i) :=
    fun i => hsid _ (by omega)
  have hbad : ∀ i, readSid (put buf 11 [r]) (o + 7 * np + 2 * na + 2 * i) =
      readSid buf (o + 7 * np + 2 * na + 2 * i) := fun i => hsid _ (by omega)
  simp only [readCardBody, hid, hremote, hcaid, hserial, hprov, hgood, hbad,
    put_reshare_lt (show 10 < 11 by decide), put_self]

/-- `new_reshare` in byte 11 is the reshare of the card that is read, and nothing else. -/
theorem readCard_put_reshare (buf : ℕ → Byte) (len : ℕ) (ext : Bool) (r : BitVec 8) :
    readCard (put buf 11 [r]) len ext = (readCard buf len ext).map fun card => { card with reshare := r } := by
  have hge : ∀ i, 12 ≤ i → put buf 11 [r] i = buf i := fun i hi => put_reshare_gt hi
  unfold readCard
  rw [hge 20 (by decide), hge 21 (by decide), hge 22 (by decide)]
  dsimp only
  generalize (if ext = true then (buf 21).toNat else 0) = na
  generalize (if ext = true then (buf 22).toNat else 0) = nr
  obtain ⟨o, ho, hstart⟩ : ∃ o, (if ext = true then 23 else 21) = o ∧ 12 ≤ o := by
    refine ⟨_, rfl, ?_⟩
    split_ifs <;> decide
  rw [ho, readCardBody_put_reshare ext _ na nr hstart, hge _ (by omega)]
  have hnode : ∀ i j, put buf 11 [r] (o + (buf 20).toNat * 7 + na * 2 + nr * 2 + 1 + 8 * i + j) =
      buf (o + (buf 20).toNat * 7 + na * 2 + nr * 2 + 1 + 8 * i + j) := fun i j => hge _ (by omega)
  simp only [hnode]
  split_ifs <;> rfl

end Reading

variable {cfg : Config} {cl : Client} {card : ShareCard} {clients : List Client} {next : BitVec 32}

/-- The message for a sendable card gives the client what it should know. -/
theorem apply_cardMessage (hshows : shows cfg cl card = true)
    (h : Sendable (request cfg cl card) card.toCcCard) :
    ∃ x, share cfg cl card = some x ∧
      ∀ held, apply held (cardMessage cfg cl card) = Mirror.place Share.id x held := by
  obtain ⟨-, card', hread, hback⟩ := roundTrips_of_sendable h fun _ => 0
  refine ⟨_, if_pos hshows, fun held => ?_⟩
  have hmsg := readCard_put_reshare (writeCard (request cfg cl card) card.toCcCard fun _ => 0).buf
    (writeCard (request cfg cl card) card.toCcCard fun _ => 0).ofs (request cfg cl card).ext
    (newReshare cfg cl card)
  rw [hread, Option.map_some] at hmsg
  rw [cardMessage, apply]
  rw [hmsg]
  dsimp only [readShare]
  rw [hback.id, hback.caid, hback.providers, hback.goodsids, hback.badsids]

/-- The account and the connection of a client, without what happens to it. -/
def Client.account (cl : Client) : Client := { cl with reported := false, queue := [] }

/-- The message for a card with an id, where the client is sent one. -/
def deliver (cfg : Config) (card : ShareCard) (cl : Client) : Client :=
  if shows cfg cl card then cl.send (cardMessage cfg cl card) else cl

/-- The id of a card does not matter to the checks. -/
theorem shows_id (id : BitVec 32) : shows cfg cl { card with id } = shows cfg cl card := by
  have hident : ∀ ftab res, chkIdent { card with id } res ftab = chkIdent card res ftab := by
    intro ftab
    induction ftab with
    | nil => exact fun _ => rfl
    | cons filt ftab ih => exact fun res => by simp only [chkIdent, ih]
  simp only [shows, cardValidForClient, hident]
  rfl

/-- Nor does it to what fits into a message. -/
theorem sendable_id (id : BitVec 32) (h : Sendable (request cfg cl card) card.toCcCard) :
    Sendable (request cfg cl { card with id }) { card with id }.toCcCard := by
  have hrejected : ∀ tabs n, rejectedSids (request cfg cl { card with id }) { card with id }.toCcCard n tabs =
      rejectedSids (request cfg cl card) card.toCcCard n tabs := by
    intro tabs
    induction tabs with
    | nil => exact fun _ => rfl
    | cons ptr tabs ih => exact fun n => by rw [rejectedSids, rejectedSids, ih]; rfl
  have hbad : badSids (request cfg cl { card with id }) { card with id }.toCcCard =
      badSids (request cfg cl card) card.toCcCard := by
    rw [badSids, badSids, hrejected]
    rfl
  constructor
  · rw [messageLength, hbad]
    exact h.length
  · exact h.good
  · rw [hbad]
    exact h.bad
  · exact h.providers

theorem sendCardToClient_id (h : card.id ≠ 0) :
    sendCardToClient cfg next card cl = (next, card, deliver cfg card cl) := by
  rw [sendCardToClient, deliver, if_neg h]
  split_ifs
  · rfl
  · rfl

theorem sendCardToClient_new (h : card.id = 0) (hshows : shows cfg cl card = true) :
    sendCardToClient cfg next card cl =
      (next + 1, { card with id := next }, deliver cfg { card with id := next } cl) := by
  have hshows' : shows cfg cl { card with id := next } = true := (shows_id next).trans hshows
  rw [sendCardToClient, deliver, if_pos hshows, if_pos h, if_pos hshows']

theorem sendCardToClient_hidden (hshows : shows cfg cl card = false) :
    sendCardToClient cfg next card cl = (next, card, cl) := by
  rw [sendCardToClient, hshows]
  rfl

theorem sendCardToAllClients_id (h : card.id ≠ 0) :
    sendCardToAllClients cfg next card clients = (next, card, clients.map (deliver cfg card)) := by
  induction clients with
  | nil => rfl
  | cons cl clients ih =>
    rw [sendCardToAllClients, sendCardToClient_id h]
    dsimp only
    rw [ih]
    rfl

theorem sendCardToAllClients_hidden (h : ∀ cl ∈ clients, shows cfg cl card = false) :
    sendCardToAllClients cfg next card clients = (next, card, clients) := by
  induction clients with
  | nil => rfl
  | cons cl clients ih =>
    rw [sendCardToAllClients, sendCardToClient_hidden (h cl List.mem_cons_self)]
    dsimp only
    rw [ih fun cl hcl => h cl (List.mem_cons_of_mem _ hcl)]

theorem deliver_hidden (hshows : shows cfg cl card = false) : deliver cfg card cl = cl := by
  rw [deliver, hshows]
  rfl

/-- The first client that is shown a new card gives it its id. -/
theorem sendCardToAllClients_new (h : card.id = 0) (hnext : next ≠ 0)
    (hshows : ∃ cl ∈ clients, shows cfg cl card = true) :
    sendCardToAllClients cfg next card clients =
      (next + 1, { card with id := next }, clients.map (deliver cfg { card with id := next })) := by
  induction clients with
  | nil =>
    obtain ⟨cl, hcl, -⟩ := hshows
    exact absurd hcl List.not_mem_nil
  | cons cl clients ih =>
    rw [sendCardToAllClients]
    cases hcl : shows cfg cl card with
    | true =>
      have hid : ({ card with id := next } : ShareCard).id ≠ 0 := hnext
      rw [sendCardToClient_new h hcl]
      dsimp only
      rw [sendCardToAllClients_id hid]
      rfl
    | false =>
      have hrest : ∃ cl ∈ clients, shows cfg cl card = true := by
        obtain ⟨cl', hmem, hcl'⟩ := hshows
        rcases List.mem_cons.mp hmem with rfl | hmem
        · rw [hcl] at hcl'
          cases hcl'
        · exact ⟨cl', hmem, hcl'⟩
      have hcl' : shows cfg cl { card with id := next } = false := (shows_id next).trans hcl
      rw [sendCardToClient_hidden hcl]
      dsimp only
      rw [ih hrest, List.map_cons, deliver_hidden hcl']

end NCam.Cccam.Share
