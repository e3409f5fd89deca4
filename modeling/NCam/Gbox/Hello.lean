import NCam.Gbox.SendEcm

/-! The hello packets of a gbox peer: `gbox_decompress`, `read_cards_from_hello` and `gbox_cmd_hello_rcvd`, and
those to a peer: `count_send_cards`, `gbox_send_hello_packet` and `gbox_send_hello`, with the cards they carry. -/
namespace NCam.Gbox

open NCam.Lib.Memory NCam.Util

def MSG_HELLO : BitVec 32 := 0xDDAB
def MSG_HELLO1 : BitVec 32 := 0x4849

/-- What a gbox knows of a peer from its hellos. -/
structure HelloPeer where
  id : BitVec 16
  online : Bool
  nextHello : Byte
  hostname : Option (List Byte)
  checkcode : List Byte
  crdCrcChange : Bool
  minorVersion : Byte
  cpuApi : Byte
  totalCards : BitVec 16
  filteredCards : BitVec 16

/-- What decides about a received card: `chk_ctab`, `gbox_maxdist` and `check_peer_ignored`. -/
structure HelloFilter where
  ctab : BitVec 16 → Bool
  gboxMaxdist : Byte
  ignored : BitVec 16 → Bool

inductive HelloStat
  | helloL
  | helloS
  | helloR
  deriving DecidableEq

inductive HelloAnswer
  | hello (stat : HelloStat)
  | checkcode
  deriving DecidableEq

/-- What came of a packet; `failed` is -1. -/
inductive HelloOutcome
  | outOfSync
  | failed
  | next
  | goodNight
  | complete (answers : List HelloAnswer)
  deriving DecidableEq

/-- The peer and the list of all cards after a packet. -/
structure HelloState where
  peer : HelloPeer
  cards : List GboxCard

/-- `gbox_decompress`, for what LZO makes of the packet: the buffer and the length. -/
def gboxDecompress (data : ℕ → Byte) (unpacked : List Byte) : Option ((ℕ → Byte) × ℕ) :=
  (putWithin RECEIVE_BUFFER_SIZE data 12 unpacked).map fun data => (data, unpacked.length + 12)

/-- `slice` of the receive buffer from a position that may lie in front of it. -/
def sliceFrom (data : ℕ → Byte) (o : ℤ) (n : ℕ) : Option (List Byte) :=
  if 0 ≤ o then sliceWithin RECEIVE_BUFFER_SIZE data o.toNat n else none

section Cards

variable (filter : HelloFilter) (peerId : BitVec 16) (data : ℕ → Byte)

/-- The card at `ptr`. -/
def readCard (caprovid : BitVec 32) (ptr : ℕ) (cards : List GboxCard) : Option (List GboxCard) := do
  let levelDist ← getWithin RECEIVE_BUFFER_SIZE data (ptr + 1)
  if levelDist &&& 0xF ≤ filter.gboxMaxdist then
    let slot ← getWithin RECEIVE_BUFFER_SIZE data ptr
    let _ ← sliceWithin RECEIVE_BUFFER_SIZE data (ptr + 2) 2
    let idPeer := (b2i 2 data (ptr + 2)).setWidth 16
    some (gboxAddCard filter.ignored cards
      ⟨idPeer, caprovid, slot, levelDist >>> 4, levelDist &&& 0xF, .gbox, some peerId⟩)
  else some cards

/-- The cards of one caid and provider, from `ptr` on. -/
def readGroup (caprovid : BitVec 32) (ptr count : ℕ) (cards : List GboxCard) : Option (List GboxCard) :=
  (List.range count).foldlM (fun cards j => readCard filter peerId data caprovid (ptr + 4 * j) cards) cards

/-- `read_cards_from_hello`: the list of all cards, and the number of those in the message. -/
def readCardsFromHello (ptr : ℕ) (len : ℤ) (cards : List GboxCard) (ncardsInMsg : BitVec 16) :
    Option (List GboxCard × BitVec 16) :=
  if (ptr : ℤ) < len then do
    let _ ← sliceWithin RECEIVE_BUFFER_SIZE data ptr 5
    let caprovid := b2i 4 data ptr
    let count := (data (ptr + 4)).toNat
    let cards ←
      if filter.ctab (gboxGetCaid caprovid) then
        readGroup filter peerId data caprovid (ptr + 5) count cards
      else some cards
    readCardsFromHello (ptr + 5 + count * 4) len cards (ncardsInMsg + BitVec.ofNat 16 count)
  else some (cards, ncardsInMsg)
termination_by (len - ptr).toNat
decreasing_by omega

end Cards

/-- The footer of the first packet, which ends the message. -/
def readFooter (data : ℕ → Byte) (payloadLen : ℕ) (peer : HelloPeer) : Option (HelloPeer × ℕ) := do
  let hostnameLen ← (sliceFrom data (payloadLen - 1 : ℤ) 1).map fun bytes => (bytes.headD 0).toNat
  let footerLen := hostnameLen + 2 + 7
  let hostname ← sliceFrom data (payloadLen - 1 - hostnameLen : ℤ) hostnameLen
  let footer ← sliceFrom data (payloadLen - footerLen - 1 : ℤ) 9
  let checkcode := footer.take 7
  some ({ peer with
    hostname :=
      if peer.hostname.any fun h => h.take hostnameLen = hostname then peer.hostname else some hostname
    checkcode := checkcode
    crdCrcChange := if peer.checkcode ≠ checkcode then true else peer.crdCrcChange
    minorVersion := footer.getD 7 0
    cpuApi := footer.getD 8 0
    totalCards := 0 }, footerLen)

/-- `gbox_count_peer_cards`. -/
def gboxCountPeerCards (cards : List GboxCard) (peerId : BitVec 16) : BitVec 16 :=
  BitVec.ofNat 16 (cards.countP fun card => card.originPeer = some peerId)

/-- What is done when the packet was the last one. -/
def helloComplete (data : ℕ → Byte) (s : HelloState) : HelloState × HelloOutcome :=
  if data 10 = 1 ∧ slice data 12 7 = List.replicate 7 0xFF then
    (⟨{ s.peer with nextHello := 0, online := false, crdCrcChange := false },
      gboxDeleteCards s.cards (.fromPeer s.peer.id)⟩, .goodNight)
  else
    let oldHello := data 10 = 0 ∧ data 11 = 0x80 ∧ slice data 12 7 = List.replicate 7 0
    let online := s.peer.online || decide oldHello || s.peer.crdCrcChange
    (⟨{ s.peer with
        filteredCards := gboxCountPeerCards s.cards s.peer.id,
        online := true, nextHello := 0, crdCrcChange := false }, s.cards⟩,
      .complete ((if data 10 = 0 then [.hello .helloR] else [.checkcode]) ++
        if online then [] else [.hello .helloS]))

/-- The peer after the footer, if the packet is the first one, and its length. -/
def helloFooter (data : ℕ → Byte) (payloadLen : ℕ) (peer : HelloPeer) : Option (HelloPeer × ℕ) :=
  if data 11 &&& 0xF = 0 then readFooter data payloadLen peer else some (peer, 0)

/-- The first packet replaces the cards of the peer. -/
def helloCards (data : ℕ → Byte) (s : HelloState) : List GboxCard :=
  if data 11 &&& 0xF = 0 then gboxDeleteCards s.cards (.fromPeer s.peer.id) else s.cards

/-- What is done with the packet when its cards are read. -/
def helloRead (data : ℕ → Byte) (peer : HelloPeer) (cards : List GboxCard) (cardsNumber : BitVec 16) :
    HelloState × HelloOutcome :=
  if cardsNumber.msb then (⟨peer, cards⟩, .failed)
  else
    let peer := { peer with totalCards := peer.totalCards + cardsNumber }
    if data 11 &&& 0x80 ≠ 0 then helloComplete data ⟨peer, cards⟩
    else (⟨{ peer with nextHello := peer.nextHello + 1 }, cards⟩, .next)

/-- A packet whose cards stand from `ptr` on. -/
def helloPacket (filter : HelloFilter) (s : HelloState) (data : ℕ → Byte) (payloadLen ptr : ℕ) :
    Option (HelloState × HelloOutcome) :=
  if data 11 &&& 0xF ≠ s.peer.nextHello then
    some (⟨{ s.peer with nextHello := 0 }, s.cards⟩, .outOfSync)
  else do
    let (peer, footerLen) ← helloFooter data payloadLen s.peer
    let (cards, cardsNumber) ←
      readCardsFromHello filter s.peer.id data ptr (payloadLen - footerLen - 1 : ℤ) (helloCards data s) 0
    some (helloRead data peer cards cardsNumber)

/-- `gbox_cmd_hello_rcvd` on a packet of `n` bytes, with what LZO makes of a compressed one; `none` is an
access outside the receive buffer. -/
def gboxCmdHelloRcvd (filter : HelloFilter) (s : HelloState) (data : ℕ → Byte) (n : ℕ)
    (unpacked : List Byte) : Option (HelloState × HelloOutcome) :=
  if b2i 2 data 0 ≠ MSG_HELLO1 then do
    let (data, payloadLen) ← gboxDecompress data unpacked
    helloPacket filter s data payloadLen 12
  else helloPacket filter s data n 11

def MAX_GBOX_CARDS : BitVec 16 := 1024
def GBOX_MAX_LOCAL_CARDS : BitVec 16 := 32

/-- What is sent to a peer, and what decides about it: `chk_ctab` and `cccmaxhops` of the account,
`gbox_reshare` and `gbox_cccam_reshare` of the reader, which its initialisation bounds, and
`chk_ident_filter` of `ccc_gbx_reshare_ident`. Levels of remote cards come out of four bits. -/
structure HelloSender where
  loc : LocalGbox
  hostname : List Byte
  cards : List GboxCard
  peerId : BitVec 16
  peerPassword : BitVec 32
  ctab : BitVec 16 → Bool
  cccmaxhops : ℤ
  gboxReshare : Byte
  gboxCccamReshare : Byte
  cccGbxReshareIdent : BitVec 16 → BitVec 32 → Bool
  hostname_le : hostname.length ≤ 128
  reshare_le : gboxReshare.toNat ≤ GBOX_MAXHOPS
  cccamReshare_le : gboxCccamReshare.toInt ≤ GBOX_MAXHOPS
  lvl_le : ∀ c ∈ cards, c.type = .gbox → c.lvl.toNat ≤ 15

/-- `calc_slot`. -/
def calcSlot (slot : Byte) : Byte :=
  (List.range 9).foldl (fun cslot i => if i * 18 < slot.toNat then slot - BitVec.ofNat 8 (i * 18) else cslot) slot

/-- The bytes of a card; the distance is added to the byte with the level. -/
def helloCardBytes (card : GboxCard) (level : Byte) : List Byte :=
  i2b 4 card.caprovid ++ [1, calcSlot card.id.slot, (level <<< 4) + card.dist + 1] ++
    i2b 2 (card.id.peer.setWidth 32)

/-- The packets that are already sent, the number of the next one and its cards. -/
structure Sending where
  sent : List (List Byte)
  packet : Byte
  body : List Byte
  nbcards : BitVec 16
  nbcardsCnt : BitVec 16

namespace HelloSender

variable (snd : HelloSender)

/-- What both loops ask of a card before they look at its type. -/
def forwards (card : GboxCard) : Bool :=
  snd.ctab (gboxGetCaid card.caprovid) && 0 < card.lvl && (card.dist.toNat : ℤ) ≤ snd.cccmaxhops &&
    card.originPeer ≠ some snd.peerId

/-- The loop of `count_send_cards`; only a CCcam card that the filter of idents rejects gets to its `break`. -/
def countLoop : List GboxCard → BitVec 16 → BitVec 16
  | [], nbcards => nbcards
  | card :: cards, nbcards =>
    if snd.forwards card then
      match card.type with
      | .gbox => countLoop cards (nbcards + 1)
      | .cccam =>
        if snd.gboxCccamReshare.slt 0 then countLoop cards nbcards
        else if snd.cccGbxReshareIdent (gboxGetCaid card.caprovid) (gboxGetProvid card.caprovid) then
          countLoop cards (nbcards + 1)
        else if nbcards = MAX_GBOX_CARDS then nbcards
        else countLoop cards nbcards
      | .local | .betun | .proxy =>
        if 0 < snd.gboxReshare then countLoop cards (nbcards + 1) else countLoop cards nbcards
    else countLoop cards nbcards

def countSendCards : BitVec 16 := snd.countLoop snd.cards 0

/-- The level of a card that is sent; the reader keeps the smaller of its two values. -/
def levelToSend (card : GboxCard) : Option Byte :=
  match card.type with
  | .gbox => some (card.lvl - 1)
  | .cccam =>
    if snd.gboxCccamReshare.slt 0 then none
    else if snd.cccGbxReshareIdent (gboxGetCaid card.caprovid) (gboxGetProvid card.caprovid) then
      some (if (snd.gboxReshare.toNat : ℤ) < snd.gboxCccamReshare.toInt then snd.gboxReshare
        else snd.gboxCccamReshare)
    else none
  | .local | .betun | .proxy => if 0 < snd.gboxReshare then some (snd.gboxReshare - 1) else none

/-- `gbox_send_hello_packet`, in front of the compression. -/
def gboxSendHelloPacket (stat : HelloStat) (packet : Byte) (body : List Byte) : List Byte :=
  (gboxMessageHeader MSG_HELLO snd.peerPassword snd.loc.password).flatMap Prod.snd ++
    [if stat = .helloR then 1 else 0, packet] ++ body ++
    if packet &&& 0x0F = 0 then
      snd.loc.checkcode.toList ++ [snd.loc.gboxMyVers, snd.loc.gboxMyCpuApi] ++ snd.hostname ++
        [BitVec.ofNat 8 snd.hostname.length]
    else []

/-- The loop over all cards for HelloS and HelloR. -/
def sendLoop (stat : HelloStat) (nbSendCards : BitVec 16) : List GboxCard → Sending → Sending
  | [], s => s
  | card :: cards, s =>
    if snd.forwards card then
      match snd.levelToSend card with
      | none => sendLoop stat nbSendCards cards s
      | some level =>
        let s := { s with
          body := s.body ++ helloCardBytes card level, nbcards := s.nbcards + 1,
          nbcardsCnt := s.nbcardsCnt + 1 }
        if s.nbcardsCnt = MAX_GBOX_CARDS then s
        else if s.nbcardsCnt = nbSendCards then s
        else if s.nbcards = 74 then
          sendLoop stat nbSendCards cards { s with
            sent := s.sent ++ [snd.gboxSendHelloPacket stat s.packet s.body], packet := s.packet + 1,
            body := [], nbcards := 0 }
        else sendLoop stat nbSendCards cards s
    else sendLoop stat nbSendCards cards s

/-- The loop over the local cards for HelloL, which also counts cards that are not shared. -/
def localLoop : List GboxCard → BitVec 16 → List Byte → List Byte
  | [], _, body => body
  | card :: cards, nbcards, body =>
    if 0 < card.lvl ∧ card.type ≠ .cccam ∧ card.type ≠ .gbox then
      let body := if 0 < snd.gboxReshare then body ++ helloCardBytes card (snd.gboxReshare - 1) else body
      if GBOX_MAX_LOCAL_CARDS ≤ nbcards + 1 then body else localLoop cards (nbcards + 1) body
    else localLoop cards nbcards body

/-- `gbox_send_hello`: all packets, the last one marked. -/
def gboxSendHello (stat : HelloStat) : List (List Byte) :=
  match stat with
  | .helloL => [snd.gboxSendHelloPacket stat 0x80 (snd.localLoop snd.cards 0 [])]
  | .helloS | .helloR =>
    let s := snd.sendLoop stat snd.countSendCards snd.cards ⟨[], 0, [], 0, 0⟩
    s.sent ++ [snd.gboxSendHelloPacket stat (0x80 ||| s.packet) s.body]

end HelloSender

/-- A card with the level it is sent with. -/
abbrev SentCard := GboxCard × Byte

def SentCard.bytes (c : SentCard) : List Byte := helloCardBytes c.1 c.2

namespace HelloSender

variable (snd : HelloSender)

/-- The local cards of a HelloL. -/
def isLocal (card : GboxCard) : Bool := 0 < card.lvl && card.type ≠ .cccam && card.type ≠ .gbox

/-- The level of a card that passes all of the filter. -/
def sentCard (card : GboxCard) : Option SentCard :=
  if snd.forwards card then (snd.levelToSend card).map fun level => (card, level) else none

/-- The cards that are sent to the peer. -/
def selected : HelloStat → List SentCard
  | .helloL =>
    if 0 < snd.gboxReshare then
      ((snd.cards.filter isLocal).take GBOX_MAX_LOCAL_CARDS.toNat).map fun card => (card, snd.gboxReshare - 1)
    else []
  | .helloS | .helloR => snd.cards.filterMap snd.sentCard

/-- The packets from number `i` on: each but the last has 74 cards, and the last has one unless it is the
only one. -/
inductive Emitted (stat : HelloStat) : ℕ → List SentCard → List (List Byte) → Prop
  | last {i : ℕ} {cards : List SentCard} (hroom : cards.length ≤ 74) (hcard : i ≠ 0 → cards ≠ []) :
    Emitted stat i cards [snd.gboxSendHelloPacket stat (0x80 ||| BitVec.ofNat 8 i) (cards.flatMap SentCard.bytes)]
  | more {i : ℕ} {first rest : List SentCard} {packets : List (List Byte)} (hfull : first.length = 74)
      (hrest : Emitted stat (i + 1) rest packets) :
    Emitted stat i (first ++ rest)
      (snd.gboxSendHelloPacket stat (BitVec.ofNat 8 i) (first.flatMap SentCard.bytes) :: packets)

section Count

variable {snd} {card : GboxCard} {cards : List GboxCard} {n : ℕ}

/-- The number of cards is exact as long as it does not get past the largest one. -/
private theorem countLoop_eq (h : n + (cards.filterMap snd.sentCard).length ≤ 1024) :
    snd.countLoop cards (BitVec.ofNat 16 n) = BitVec.ofNat 16 (n + (cards.filterMap snd.sentCard).length) := by
  induction cards generalizing n with
  | nil => rfl
  | cons card cards ih =>
    have hone : BitVec.ofNat 16 n + 1 = BitVec.ofNat 16 (n + 1) := (BitVec.ofNat_add n 1).symm
    have hstep : ∀ {level : Byte}, snd.sentCard card = some (card, level) →
        snd.countLoop cards (BitVec.ofNat 16 n + 1) =
          BitVec.ofNat 16 (n + ((card :: cards).filterMap snd.sentCard).length) := by
      intro level hsent
      rw [List.filterMap_cons_some hsent, List.length_cons] at h ⊢
      rw [hone, ih (by omega), Nat.add_assoc, Nat.add_comm 1]
    have hskip : snd.sentCard card = none →
        snd.countLoop cards (BitVec.ofNat 16 n) =
          BitVec.ofNat 16 (n + ((card :: cards).filterMap snd.sentCard).length) := by
      intro hsent
      rw [List.filterMap_cons_none hsent] at h ⊢
      exact ih h
    have hlocal : (snd.sentCard card = (if 0 < snd.gboxReshare then some (snd.gboxReshare - 1) else none).map
          fun level => (card, level)) →
        (if 0 < snd.gboxReshare then snd.countLoop cards (BitVec.ofNat 16 n + 1)
          else snd.countLoop cards (BitVec.ofNat 16 n)) =
          BitVec.ofNat 16 (n + ((card :: cards).filterMap snd.sentCard).length) := by
      intro hsent
      split_ifs at hsent ⊢
      · exact hstep hsent
      · exact hskip hsent
    rw [countLoop]
    by_cases hforwards : snd.forwards card = true
    · rw [if_pos hforwards]
      have hsent : snd.sentCard card = (snd.levelToSend card).map fun level => (card, level) := if_pos hforwards
      unfold levelToSend at hsent
      cases htype : card.type with
      | gbox =>
        rw [htype] at hsent
        exact hstep hsent
      | cccam =>
        rw [htype] at hsent
        dsimp only at hsent ⊢
        by_cases hneg : snd.gboxCccamReshare.slt 0 = true
        · rw [if_pos hneg] at hsent ⊢
          exact hskip hsent
        · rw [if_neg hneg] at hsent ⊢
          by_cases hident :
              snd.cccGbxReshareIdent (gboxGetCaid card.caprovid) (gboxGetProvid card.caprovid) = true
          · rw [if_pos hident] at hsent ⊢
            exact hstep hsent
          · rw [if_neg hident] at hsent ⊢
            by_cases hmax : BitVec.ofNat 16 n = MAX_GBOX_CARDS
            · -- the largest number is reached, so no card follows that is sent
              have hn : n = 1024 := by
                have := congrArg BitVec.toNat hmax
                rw [BitVec.toNat_ofNat, Nat.mod_eq_of_lt (by omega)] at this
                exact this
              rw [if_pos hmax]
              have hnone : ((card :: cards).filterMap snd.sentCard).length = 0 := by omega
              rw [hnone, Nat.add_zero]
            · rw [if_neg hmax]
              exact hskip hsent
      | «local» =>
        rw [htype] at hsent
        exact hlocal hsent
      | betun =>
        rw [htype] at hsent
        exact hlocal hsent
      | proxy =>
        rw [htype] at hsent
        exact hlocal hsent
    · rw [if_neg hforwards]
      exact hskip (if_neg hforwards)

theorem countSendCards_eq (h : (snd.cards.filterMap snd.sentCard).length ≤ 1024) :
    snd.countSendCards = BitVec.ofNat 16 (snd.cards.filterMap snd.sentCard).length := by
  have hcount := @countLoop_eq snd snd.cards 0 (by omega)
  rw [Nat.zero_add] at hcount
  exact hcount

end Count

section Send

variable {snd} {stat : HelloStat} {card : GboxCard} {cards : List GboxCard} {pending : List SentCard} {i count : ℕ}
  {sent : List (List Byte)} {nbSendCards : BitVec 16}

/-- All packets, when the loop ends in this state. -/
private def finish (snd : HelloSender) (stat : HelloStat) (s : Sending) : List (List Byte) :=
  s.sent ++ [snd.gboxSendHelloPacket stat (0x80 ||| s.packet) s.body]

/-- The state with `i` packets sent and `pending` cards in the next one, `count` cards in all. -/
private def state (sent : List (List Byte)) (i : ℕ) (pending : List SentCard) (count : ℕ) : Sending where
  sent := sent
  packet := BitVec.ofNat 8 i
  body := pending.flatMap SentCard.bytes
  nbcards := BitVec.ofNat 16 pending.length
  nbcardsCnt := BitVec.ofNat 16 count

private theorem ofNat_eq_iff {m n : ℕ} (hm : m ≤ 1024) (hn : n ≤ 1024) :
    BitVec.ofNat 16 m = BitVec.ofNat 16 n ↔ m = n := by
  rw [← BitVec.toNat_inj, BitVec.toNat_ofNat, BitVec.toNat_ofNat, Nat.mod_eq_of_lt (by omega),
    Nat.mod_eq_of_lt (by omega)]

/-- What the loop does with a card that is sent. -/
private theorem sendLoop_cons {level : Byte} (hsent : snd.sentCard card = some (card, level)) :
    snd.sendLoop stat nbSendCards (card :: cards) (state sent i pending count) =
      let s := state sent i (pending ++ [(card, level)]) (count + 1)
      if s.nbcardsCnt = MAX_GBOX_CARDS then s
      else if s.nbcardsCnt = nbSendCards then s
      else if s.nbcards = 74 then
        snd.sendLoop stat nbSendCards cards
          (state (sent ++ [snd.gboxSendHelloPacket stat s.packet s.body]) (i + 1) [] (count + 1))
      else snd.sendLoop stat nbSendCards cards s := by
  have hcount : BitVec.ofNat 16 count + 1 = BitVec.ofNat 16 (count + 1) := (BitVec.ofNat_add count 1).symm
  have hcards : BitVec.ofNat 16 pending.length + 1 = BitVec.ofNat 16 (pending ++ [(card, level)]).length := by
    rw [List.length_append]
    exact (BitVec.ofNat_add pending.length 1).symm
  have hpacket : BitVec.ofNat 8 i + 1 = BitVec.ofNat 8 (i + 1) := (BitVec.ofNat_add i 1).symm
  have hbody : pending.flatMap SentCard.bytes ++ helloCardBytes card level =
      (pending ++ [(card, level)]).flatMap SentCard.bytes := by
    rw [List.flatMap_append, List.flatMap_singleton]
    rfl
  unfold sentCard at hsent
  split_ifs at hsent with hforwards
  obtain ⟨level', hlevel, heq⟩ := Option.map_eq_some_iff.mp hsent
  obtain rfl : level' = level := (Prod.mk.inj heq).2
  rw [sendLoop, if_pos hforwards, hlevel]
  unfold state
  dsimp only
  rw [hcount, hcards, hpacket, hbody]
  rfl

private theorem sendLoop_skip (hsent : snd.sentCard card = none) (s : Sending) :
    snd.sendLoop stat nbSendCards (card :: cards) s = snd.sendLoop stat nbSendCards cards s := by
  unfold sentCard at hsent
  rw [sendLoop]
  split_ifs at hsent ⊢ with hforwards
  · rw [Option.map_eq_none_iff.mp hsent]
  · rfl

/-- The packets carry the pending cards and all further ones that are sent. -/
private theorem emitted_sendLoop (hnb : nbSendCards = BitVec.ofNat 16 (count + (cards.filterMap snd.sentCard).length))
    (hmax : count + (cards.filterMap snd.sentCard).length ≤ 1024) (hroom : pending.length < 74)
    (hcard : i ≠ 0 → pending ++ cards.filterMap snd.sentCard ≠ []) :
    ∃ packets, finish snd stat (snd.sendLoop stat nbSendCards cards (state sent i pending count)) = sent ++ packets ∧
      snd.Emitted stat i (pending ++ cards.filterMap snd.sentCard) packets := by
  induction cards generalizing sent i pending count with
  | nil =>
    rw [List.filterMap_nil, List.append_nil] at hcard ⊢
    exact ⟨_, rfl, .last hroom.le hcard⟩
  | cons card cards ih =>
    cases hsent : snd.sentCard card with
    | none =>
      rw [List.filterMap_cons_none hsent] at hnb hmax hcard ⊢
      rw [sendLoop_skip hsent]
      exact ih hnb hmax hroom hcard
    | some c =>
      obtain ⟨card', level⟩ := c
      obtain rfl : card' = card := by
        unfold sentCard at hsent
        split_ifs at hsent
        obtain ⟨level', -, heq⟩ := Option.map_eq_some_iff.mp hsent
        exact (Prod.mk.inj heq).1.symm
      rw [List.filterMap_cons_some hsent, List.length_cons] at hnb hmax
      rw [List.filterMap_cons_some hsent, List.append_cons pending]
      rw [sendLoop_cons hsent]
      have hlen : (pending ++ [(card', level)]).length = pending.length + 1 := by simp
      -- after the last card the loop ends
      have hend : cards.filterMap snd.sentCard = [] → ∃ packets,
          finish snd stat (state sent i (pending ++ [(card', level)]) (count + 1)) = sent ++ packets ∧
            snd.Emitted stat i (pending ++ [(card', level)] ++ cards.filterMap snd.sentCard) packets := by
        intro hnil
        rw [hnil, List.append_nil]
        exact ⟨_, rfl, .last (by omega) fun _ => by simp⟩
      dsimp only
      by_cases hcount : (state sent i (pending ++ [(card', level)]) (count + 1)).nbcardsCnt = MAX_GBOX_CARDS
      · rw [if_pos hcount]
        have hfull : count + 1 = 1024 := (ofNat_eq_iff (by omega) (by omega)).mp hcount
        exact hend (List.eq_nil_of_length_eq_zero (by omega))
      · rw [if_neg hcount]
        by_cases hall : (state sent i (pending ++ [(card', level)]) (count + 1)).nbcardsCnt = nbSendCards
        · rw [if_pos hall]
          rw [hnb] at hall
          have hlast : count + 1 = count + ((cards.filterMap snd.sentCard).length + 1) :=
            (ofNat_eq_iff (by omega) (by omega)).mp hall
          exact hend (List.eq_nil_of_length_eq_zero (by omega))
        · rw [if_neg hall]
          have hrest : cards.filterMap snd.sentCard ≠ [] := by
            intro hnil
            rw [hnb, hnil] at hall
            exact hall rfl
          have hnb' : nbSendCards = BitVec.ofNat 16 (count + 1 + (cards.filterMap snd.sentCard).length) := by
            rw [hnb, Nat.add_assoc, Nat.add_comm 1]
          by_cases hpacket : (state sent i (pending ++ [(card', level)]) (count + 1)).nbcards = 74
          · rw [if_pos hpacket]
            have hfull : (pending ++ [(card', level)]).length = 74 :=
              (ofNat_eq_iff (by omega) (by omega)).mp hpacket
            obtain ⟨packets, hpackets, hemitted⟩ := @ih [] (i + 1) (count + 1) _ hnb' (by omega) (by simp)
              fun _ => hrest
            refine ⟨_ :: packets, ?_, .more hfull hemitted⟩
            rw [hpackets, List.append_assoc]
            rfl
          · rw [if_neg hpacket]
            have hopen : (pending ++ [(card', level)]).length ≠ 74 := by
              intro hfull
              exact hpacket (congrArg (BitVec.ofNat 16) hfull)
            exact ih hnb' (by omega) (by omega) fun _ => by simp

end Send

section Local

variable {snd} {card : GboxCard} {cards : List GboxCard} {body : List Byte} {n : ℕ}

private theorem localLoop_eq (hn : n < 32) : snd.localLoop cards (BitVec.ofNat 16 n) body =
    body ++ if 0 < snd.gboxReshare then
      ((cards.filter isLocal).take (32 - n)).flatMap fun card => helloCardBytes card (snd.gboxReshare - 1)
    else [] := by
  induction cards generalizing n body with
  | nil => simp [localLoop]
  | cons card cards ih =>
    rw [localLoop]
    by_cases hlocal : 0 < card.lvl ∧ card.type ≠ .cccam ∧ card.type ≠ .gbox
    · have hfilter : isLocal card = true := by simpa [isLocal, and_assoc] using hlocal
      have hone : BitVec.ofNat 16 n + 1 = BitVec.ofNat 16 (n + 1) := (BitVec.ofNat_add n 1).symm
      rw [if_pos hlocal, List.filter_cons_of_pos hfilter, hone]
      dsimp only
      by_cases hmax : GBOX_MAX_LOCAL_CARDS ≤ BitVec.ofNat 16 (n + 1)
      · have hlast : 32 - n = 1 := by
          have hle : 32 ≤ (BitVec.ofNat 16 (n + 1)).toNat := hmax
          rw [BitVec.toNat_ofNat, Nat.mod_eq_of_lt (by omega)] at hle
          omega
        rw [if_pos hmax, hlast]
        split_ifs <;> simp
      · have hlt : n + 1 < 32 := by
          by_contra hge
          refine hmax ?_
          change 32 ≤ (BitVec.ofNat 16 (n + 1)).toNat
          rw [BitVec.toNat_ofNat, Nat.mod_eq_of_lt (by omega)]
          omega
        have htake : 32 - n = 32 - (n + 1) + 1 := by omega
        rw [if_neg hmax, ih hlt, htake, List.take_succ_cons, List.flatMap_cons]
        split_ifs <;> simp
    · have hfilter : ¬ isLocal card = true := by simpa [isLocal, and_assoc] using hlocal
      rw [if_neg hlocal, List.filter_cons_of_neg hfilter]
      exact ih hn

end Local

/-- The packets of a hello carry the cards that are selected. -/
theorem emitted_gboxSendHello (stat : HelloStat) (h : (snd.selected stat).length ≤ 1024) :
    snd.Emitted stat 0 (snd.selected stat) (snd.gboxSendHello stat) := by
  have hloop : ∀ stat, (snd.cards.filterMap snd.sentCard).length ≤ 1024 →
      snd.Emitted stat 0 (snd.cards.filterMap snd.sentCard)
        (finish snd stat (snd.sendLoop stat snd.countSendCards snd.cards ⟨[], 0, [], 0, 0⟩)) := by
    intro stat hle
    obtain ⟨packets, hpackets, hemitted⟩ := @emitted_sendLoop snd stat snd.cards [] 0 0 [] snd.countSendCards
      (by rw [snd.countSendCards_eq hle, Nat.zero_add]) (by omega) (by simp) fun h => absurd rfl h
    change finish snd stat (snd.sendLoop stat snd.countSendCards snd.cards ⟨[], 0, [], 0, 0⟩) = _ at hpackets
    rw [hpackets]
    exact hemitted
  cases stat with
  | helloL =>
    have hbody : snd.localLoop snd.cards 0 [] = (snd.selected .helloL).flatMap SentCard.bytes := by
      have heq := @localLoop_eq snd snd.cards [] 0 (by omega)
      rw [List.nil_append] at heq
      change snd.localLoop snd.cards (BitVec.ofNat 16 0) [] = _
      rw [heq]
      unfold selected
      split_ifs
      · rw [List.flatMap_map]
        rfl
      · rfl
    have hroom : (snd.selected .helloL).length ≤ 74 := by
      unfold selected
      split_ifs
      · rw [List.length_map, List.length_take]
        exact (Nat.min_le_left _ _).trans (by decide)
      · exact Nat.zero_le _
    change snd.Emitted .helloL 0 (snd.selected .helloL)
      [snd.gboxSendHelloPacket .helloL 0x80 (snd.localLoop snd.cards 0 [])]
    rw [hbody]
    exact .last hroom fun h => absurd rfl h
  | helloS => exact hloop .helloS h
  | helloR => exact hloop .helloR h

end HelloSender

end NCam.Gbox
