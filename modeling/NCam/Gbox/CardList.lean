import NCam.Lib.Transition
import NCam.Util.Bytes
import Mathlib.Data.List.Pairwise

/-! The card list of `module-gbox-cards.c`, with the caid and provider that a card's `caprovid` stands for, and the
cards that an ECM is sent to: `gbox_get_cards_for_ecm`, which writes them into the send buffer. The list over all
sequences of offers and deletions, with offers of ignored peers and of cards of all types. -/
namespace NCam.Gbox

open NCam.Util
open NCam.Lib

def gboxGetCaid (caprovid : BitVec 32) : BitVec 16 :=
  if caprovid >>> 24 = 0x05 then 0x0500 else (caprovid >>> 16).truncate 16

def gboxGetProvid (caprovid : BitVec 32) : BitVec 32 :=
  if caprovid >>> 24 = 0x05 then caprovid &&& 0xFFFFFF
  else if caprovid >>> 24 = 0x0D then (caprovid >>> 8) &&& 0xFF
  else caprovid &&& 0xFFFF

def gboxGetCaprovid (caid : BitVec 16) (prid : BitVec 32) : BitVec 32 :=
  let hi : BitVec 32 := (caid >>> 8).setWidth 32
  let lo : BitVec 32 := (caid &&& 0xFF).setWidth 32
  if caid >>> 8 = 0x05 then hi <<< 24 ||| (prid &&& 0xFFFFFF)
  else if caid >>> 8 = 0x0D then hi <<< 24 ||| lo <<< 16 ||| ((prid <<< 8) &&& 0xFF00)
  else if caid >>> 8 = 0x18 then hi <<< 24 ||| lo <<< 16
  else hi <<< 24 ||| lo <<< 16 ||| (prid &&& 0xFFFF)

def caidIsSeca (caid : BitVec 16) : Bool := caid >>> 8 = 0x01

inductive CardType
  | gbox
  | local
  | betun
  | cccam
  | proxy
  deriving DecidableEq

structure GboxCardId where
  peer : BitVec 16
  slot : BitVec 8
  deriving DecidableEq

structure GboxSrvid where
  sid : BitVec 16
  providId : BitVec 32
  deriving DecidableEq

structure GboxGoodSrvid where
  srvid : GboxSrvid
  lastCwReceived : ℤ
  deriving DecidableEq

structure GboxBadSrvid where
  srvid : GboxSrvid
  badStrikes : BitVec 8
  deriving DecidableEq

/-- `originPeer` is the id of the peer that `origin_peer` points to. -/
structure GboxCard where
  id : GboxCardId
  caprovid : BitVec 32
  dist : BitVec 8
  lvl : BitVec 8
  type : CardType
  badsids : List GboxBadSrvid
  goodsids : List GboxGoodSrvid
  noCwsReturned : BitVec 32
  averageCwTime : BitVec 32
  originPeer : Option (BitVec 16)
  deriving DecidableEq

/-- The arguments of `gbox_add_card`. -/
structure Offer where
  idPeer : BitVec 16
  caprovid : BitVec 32
  slot : BitVec 8
  level : BitVec 8
  distance : BitVec 8
  type : CardType
  originPeer : Option (BitVec 16)
  deriving DecidableEq

namespace Offer

/-- The new card. -/
def card (o : Offer) : GboxCard where
  id := ⟨o.idPeer, o.slot⟩
  caprovid := o.caprovid
  dist := o.distance
  lvl := o.level
  type := o.type
  badsids := []
  goodsids := []
  noCwsReturned := 0
  averageCwTime := 0
  originPeer := o.originPeer

/-- The cards that `check_card_properties` compares the offer with; the slot of a CCcam card is not
looked at. -/
def compared (o : Offer) (card : GboxCard) : Bool :=
  (card.caprovid = o.caprovid && card.id.peer = o.idPeer && card.id.slot = o.slot && o.type ≠ .cccam) ||
    (card.caprovid = o.caprovid && card.id.peer = o.idPeer && o.type = .cccam)

/-- Cards without a caid, and Seca cards without a provider, are not added. -/
def admitted (o : Offer) : Bool :=
  o.caprovid ≠ 0 && !(caidIsSeca (gboxGetCaid o.caprovid) && gboxGetProvid o.caprovid = 0)

end Offer

/-- The list, from which a worse card was removed, and whether the card passes. -/
def checkCardProperties (cards : List GboxCard) (o : Offer) : List GboxCard × Bool :=
  if o.distance = 0 then (cards, true)
  else
    match cards.find? o.compared with
    | none => (cards, true)
    | some card => if o.distance < card.dist then (cards.eraseP o.compared, true) else (cards, false)

def gboxAddCard (ignored : BitVec 16 → Bool) (cards : List GboxCard) (o : Offer) : List GboxCard :=
  if !o.admitted then cards
  else
    let (cards, passes) := checkCardProperties cards o
    if passes && !ignored o.idPeer then cards ++ [o.card] else cards

/-- `delete_type` with its criteria. -/
inductive DeleteType
  | fromPeer (id : BitVec 16)
  | withId (id : BitVec 16)
  | withType (type : CardType)
  | invalid
  deriving DecidableEq

def DeleteType.found : DeleteType → GboxCard → Bool
  | .fromPeer id, card => card.originPeer = some id
  | .withId id, card => card.id.peer = id
  | .withType type, card => card.type = type
  | .invalid, _ => false

/-- Removing a card inside the loop makes its iterator start from the head again. -/
def deleteLoop (found : GboxCard → Bool) : ℕ → List GboxCard → List GboxCard
  | 0, cards => cards
  | n + 1, cards => if cards.any found then deleteLoop found n (cards.eraseP found) else cards

def gboxDeleteCards (cards : List GboxCard) (deleteType : DeleteType) : List GboxCard :=
  deleteLoop deleteType.found cards.length cards

def GBOX_SID_CONFIRM_TIME : ℤ := 3600

inductive EcmStatus
  | newReq
  | sent
  | answered
  deriving DecidableEq

/-- An ECM request; the ECM has `ecmlen` bytes. `gboxCardsPending` is `none` while it is `NULL`. -/
structure EcmRequest where
  ecm : ℕ → Byte
  ecmlen : ℕ
  pid : BitVec 16
  srvid : BitVec 16
  caid : BitVec 16
  prid : BitVec 32
  gboxEcmStatus : EcmStatus
  gboxCardsPending : Option (List GboxCardId)
  gboxEcmDist : Byte
  gboxEcmSrcPeer : BitVec 16
  gboxCwSrcPeer : BitVec 16
  gboxCrc : BitVec 32

/-- What `gbox_get_cards_for_ecm` is called with, beside the send buffer and the card list. -/
structure CardSearch where
  maxCards : Byte
  er : EcmRequest
  peerId : BitVec 16
  forceRemm : Bool
  now : ℤ

/-- Without a list nothing counts as not pending. -/
def isAlreadyPending (pendingCards : Option (List GboxCardId)) (id : GboxCardId) : Bool :=
  pendingCards.elim true fun l => l.contains id

def cardBytes (id : GboxCardId) : List Byte := i2b 2 (id.peer.setWidth 32) ++ [id.slot]

namespace CardSearch

variable (q : CardSearch)

/-- A card of the peer for the caid and the provider, that is not pending. -/
def candidate (card : GboxCard) : Bool :=
  card.originPeer = some q.peerId && card.type = .gbox && gboxGetCaid card.caprovid = q.er.caid &&
    gboxGetProvid card.caprovid = q.er.prid && !isAlreadyPending q.er.gboxCardsPending card.id

def forService (srvid : GboxSrvid) : Bool := srvid.providId = q.er.prid && srvid.sid = q.er.srvid

def findGood (card : GboxCard) : Option GboxGoodSrvid := card.goodsids.find? fun g => q.forService g.srvid

def findBad (card : GboxCard) : Option GboxBadSrvid := card.badsids.find? fun b => q.forService b.srvid

/-- The last CW of a new request's service is not an hour old. -/
def confirms (srvidGood : GboxGoodSrvid) : Bool :=
  |srvidGood.lastCwReceived - q.now| < GBOX_SID_CONFIRM_TIME && q.er.gboxEcmStatus = .newReq

end CardSearch

/-- The send buffer with the position `len2`, and the variables of `gbox_get_cards_for_ecm`. -/
structure CardsOut where
  sendBuf : ℕ → Byte
  len2 : ℕ
  nbMatchingCrds : Byte
  enough : Bool
  currentAvgCardTime : BitVec 32

/-- The result of an access outside the `size` bytes of the send buffer is `none`. -/
def CardsOut.write (size : ℕ) (out : CardsOut) (id : GboxCardId) : Option CardsOut :=
  (Memory.putWithin size out.sendBuf out.len2 (cardBytes id)).map fun sendBuf =>
    { out with sendBuf, len2 := out.len2 + 3 }

section Loops

variable (size : ℕ) (q : CardSearch)

/-- A card with a good sid is written, in place of the last one if that was confirmed and is slower. -/
def writeGood (card : GboxCard) (srvidGood : GboxGoodSrvid) (out : CardsOut) : Option CardsOut :=
  if !out.enough || out.currentAvgCardTime > card.averageCwTime then
    let out := { out with currentAvgCardTime := card.averageCwTime }
    let out :=
      if out.enough then { out with len2 := out.len2 - 3 }
      else { out with nbMatchingCrds := out.nbMatchingCrds + 1, enough := q.confirms srvidGood }
    out.write size card.id
  else some out

/-- The loop over good cards only. -/
def goodLoop : List GboxCard → CardsOut → Option CardsOut
  | [], out => some out
  | card :: cards, out =>
    if q.candidate card then
      ((q.findGood card).elim (some out) fun srvidGood => writeGood size q card srvidGood out).bind fun out =>
        if out.nbMatchingCrds = q.maxCards then some out else goodLoop cards out
    else goodLoop cards out

/-- The card after it was asked for the service: a new bad sid, or one more strike. -/
def strike (card : GboxCard) : GboxCard :=
  match q.findBad card with
  | none => { card with badsids := card.badsids ++ [⟨⟨q.er.srvid, gboxGetProvid card.caprovid⟩, 1⟩] }
  | some b =>
    let badStrikes := if q.forceRemm then 1 else b.badStrikes + 1
    { card with badsids := card.badsids.replace b { b with badStrikes } }

/-- The sid is not good, and has not failed three times. -/
def untested (card : GboxCard) : Bool :=
  (q.findGood card).isNone && (q.findBad card).all fun b => b.badStrikes < 3

/-- The loop over bad and unknown cards. The limit is tested after a card was written. -/
def otherLoop : List GboxCard → CardsOut → Option (List GboxCard × CardsOut)
  | [], out => some ([], out)
  | card :: cards, out =>
    if q.candidate card && !out.enough then
      let step := if untested q card then
          (out.write size card.id).map fun out =>
            (strike q card, { out with nbMatchingCrds := out.nbMatchingCrds + 1 })
        else some (card, out)
      step.bind fun (card, out) =>
        if out.nbMatchingCrds = q.maxCards then some (card :: cards, out)
        else (otherLoop cards out).map fun (cards, out) => (card :: cards, out)
    else (otherLoop cards out).map fun (cards, out) => (card :: cards, out)

def gboxGetCardsForEcm (sendBuf : ℕ → Byte) (len2 : ℕ) (cards : List GboxCard) :
    Option (List GboxCard × CardsOut) :=
  (goodLoop size q cards ⟨sendBuf, len2, 0, false, 0⟩).bind fun out => otherLoop size q cards out

end Loops

/-- What a card is offered under. -/
structure CardKey where
  caprovid : BitVec 32
  peer : BitVec 16
  slot : BitVec 8
  deriving DecidableEq

def GboxCard.key (c : GboxCard) : CardKey := ⟨c.caprovid, c.id.peer, c.id.slot⟩

def Offer.key (o : Offer) : CardKey := ⟨o.caprovid, o.idPeer, o.slot⟩

/-- Two remote cards have different keys. -/
def Apart (a b : GboxCard) : Prop := 0 < a.dist → 0 < b.dist → a.key ≠ b.key

/-- The card list, and the peers that the configuration ignores. -/
structure CardList where
  cards : List GboxCard
  ignored : List (BitVec 16)

inductive CardEvent
  | add (o : Offer)
  | delete (deleteType : DeleteType)
  | configure (ignored : List (BitVec 16))

namespace CardList

def add (s : CardList) (o : Offer) : List GboxCard := gboxAddCard (fun id => id ∈ s.ignored) s.cards o

def system : System CardList CardEvent where
  init s := s.cards = []
  next s
    | .add o => some { s with cards := s.add o }
    | .delete deleteType => some { s with cards := gboxDeleteCards s.cards deleteType }
    | .configure ignored => some { s with ignored }

def Distinct (s : CardList) : Prop := s.cards.Pairwise Apart

/-- A remote card that is offered again replaces the one with its key if it is nearer, and changes nothing
if it is not; ignored peers change nothing. -/
def Respects (s : CardList) (o : Offer) : Prop :=
  (o.idPeer ∈ s.ignored → s.add o = s.cards) ∧
    ∀ c ∈ s.cards, c.key = o.key → 0 < c.dist → 0 < o.distance →
      (o.distance < c.dist → o.idPeer ∉ s.ignored → s.add o = s.cards.erase c ++ [o.card]) ∧
        (c.dist ≤ o.distance → s.add o = s.cards)

/-- The first card that the offer is compared with. -/
def first (s : CardList) (o : Offer) : Option GboxCard := s.cards.find? o.compared

/-- The steps on which the list does not go wrong. An offer of an ignored peer is not nearer than the first
card it is compared with. For another one, that card is the card with its key, or the offer is nearer than
neither of the two. -/
def Kept (s : CardList) : CardEvent → Prop
  | .add o => o.admitted = true → 0 < o.distance →
    if o.idPeer ∈ s.ignored then ∀ m ∈ s.first o, m.dist ≤ o.distance
    else ∀ c ∈ s.cards, c.key = o.key → 0 < c.dist → ∀ m ∈ s.first o,
      (m.key = o.key ∧ 0 < m.dist) ∨ (m.dist ≤ o.distance ∧ c.dist ≤ o.distance)
  | _ => True

instance (s : CardList) : (a : CardEvent) → Decidable (s.Kept a)
  | .add _ => by unfold Kept; exact @instDecidableForall _ _ inferInstance inferInstance
  | .delete _ => instDecidableTrue
  | .configure _ => instDecidableTrue

end CardList

section Delete

variable {found : GboxCard → Bool} {cards : List GboxCard}

theorem deleteLoop_eq {n : ℕ} (h : cards.countP found ≤ n) :
    deleteLoop found n cards = cards.filter fun c => !found c := by
  induction n generalizing cards with
  | zero =>
    have hnone := List.countP_eq_zero.mp (Nat.le_zero.mp h)
    rw [deleteLoop, List.filter_eq_self.mpr fun c hc => ?_]
    rw [eq_false_of_ne_true (hnone c hc)]
    rfl
  | succ n ih =>
    rw [deleteLoop]
    cases hany : cards.any found with
    | false =>
      have hnone := List.any_eq_false.mp hany
      rw [if_neg Bool.false_ne_true, List.filter_eq_self.mpr fun c hc => ?_]
      rw [eq_false_of_ne_true (hnone c hc)]
      rfl
    | true =>
      obtain ⟨c, hc, hfound⟩ := List.any_eq_true.mp hany
      obtain ⟨a, l₁, l₂, hbefore, ha, hsplit, herase⟩ := List.exists_of_eraseP hc hfound
      rw [if_pos rfl, herase, ih]
      · rw [hsplit, List.filter_append, List.filter_append, List.filter_cons_of_neg (by simp [ha])]
      · rw [hsplit, List.countP_append, List.countP_cons_of_pos ha] at h
        rw [List.countP_append]
        omega

/-- All cards that meet the criteria are deleted, and no others. -/
theorem gboxDeleteCards_eq (cards : List GboxCard) (deleteType : DeleteType) :
    gboxDeleteCards cards deleteType = cards.filter fun c => !deleteType.found c :=
  deleteLoop_eq List.countP_le_length

end Delete

section Add

variable {s : CardList} {o : Offer} {c m : GboxCard}

theorem compared_of_key (h : c.key = o.key) : o.compared c = true := by
  obtain ⟨hcaprovid, hpeer, hslot⟩ := CardKey.mk.inj h
  rw [Offer.compared, hcaprovid, hpeer, hslot]
  by_cases htype : o.type = .cccam <;> simp [htype]

instance : Std.Symm Apart := ⟨fun _ _ h hb ha he => h ha hb he.symm⟩

theorem CardList.Distinct.eq (h : s.Distinct) (hc : c ∈ s.cards) (hm : m ∈ s.cards) (hcdist : 0 < c.dist)
    (hmdist : 0 < m.dist) (hkey : c.key = m.key) : c = m := by
  by_contra hne
  exact h.forall hc hm hne hcdist hmdist hkey

/-- Removing the first card that was found removes that card. -/
theorem eraseP_eq_erase {p : GboxCard → Bool} {l : List GboxCard} (h : l.find? p = some m) :
    l.eraseP p = l.erase m := by
  induction l with
  | nil => cases h
  | cons a l ih =>
    cases ha : p a with
    | true =>
      rw [List.find?_cons_of_pos ha] at h
      obtain rfl := Option.some.inj h
      rw [List.eraseP_cons_of_pos ha, List.erase_cons_head]
    | false =>
      rw [List.find?_cons_of_neg (by rw [ha]; exact Bool.false_ne_true)] at h
      have hne : a ≠ m := by
        rintro rfl
        rw [List.find?_some h] at ha
        cases ha
      rw [List.eraseP_cons_of_neg (by rw [ha]; exact Bool.false_ne_true), List.erase_cons_tail (by simpa using hne),
        ih h]

theorem add_of_not_admitted (h : o.admitted = false) : s.add o = s.cards := by
  rw [CardList.add, gboxAddCard, h]
  rfl

private theorem distance_ne (h : 0 < o.distance) : o.distance ≠ 0 := by
  rintro he
  rw [he] at h
  exact BitVec.not_lt_zero h

theorem add_of_first_none (ha : o.admitted = true) (hd : 0 < o.distance) (hfirst : s.first o = none) :
    s.add o = if o.idPeer ∈ s.ignored then s.cards else s.cards ++ [o.card] := by
  have hfind : s.cards.find? o.compared = none := hfirst
  rw [CardList.add, gboxAddCard, ha, if_neg (by exact Bool.false_ne_true), checkCardProperties,
    if_neg (distance_ne hd), hfind]
  by_cases hi : o.idPeer ∈ s.ignored <;> simp [hi]

theorem add_of_nearer (ha : o.admitted = true) (hd : 0 < o.distance) (hfirst : s.first o = some m)
    (hlt : o.distance < m.dist) :
    s.add o = if o.idPeer ∈ s.ignored then s.cards.erase m else s.cards.erase m ++ [o.card] := by
  have hfind : s.cards.find? o.compared = some m := hfirst
  rw [CardList.add, gboxAddCard, ha, if_neg (by exact Bool.false_ne_true), checkCardProperties,
    if_neg (distance_ne hd), hfind]
  dsimp only
  rw [if_pos hlt, eraseP_eq_erase hfind]
  by_cases hi : o.idPeer ∈ s.ignored <;> simp [hi]

theorem add_of_not_nearer (ha : o.admitted = true) (hd : 0 < o.distance) (hfirst : s.first o = some m)
    (hle : m.dist ≤ o.distance) : s.add o = s.cards := by
  have hfind : s.cards.find? o.compared = some m := hfirst
  rw [CardList.add, gboxAddCard, ha, if_neg (by exact Bool.false_ne_true), checkCardProperties,
    if_neg (distance_ne hd), hfind]
  dsimp only
  rw [if_neg (BitVec.not_lt.mpr hle)]
  rfl

/-- Local cards are added without a comparison. -/
theorem add_of_local (ha : o.admitted = true) (hd : o.distance = 0) :
    s.add o = if o.idPeer ∈ s.ignored then s.cards else s.cards ++ [o.card] := by
  rw [CardList.add, gboxAddCard, ha, if_neg (by exact Bool.false_ne_true), checkCardProperties, if_pos hd]
  by_cases hi : o.idPeer ∈ s.ignored <;> simp [hi]

end Add

section Runs

open CardList

variable {s t : CardList} {o : Offer} {a : CardEvent}

/-- The remote cards have different keys, and all cards are of a kind that is added. -/
structure CardList.Inv (s : CardList) : Prop where
  distinct : s.Distinct
  admitted : ∀ c ∈ s.cards, ∀ o : Offer, o.caprovid = c.caprovid → o.admitted = true

/-- The card with the key of the offer is found by the comparison. -/
private theorem first_eq (hi : s.Inv) (hk : s.Kept (.add o)) (ha : o.admitted = true) (hd : 0 < o.distance)
    (hnot : o.idPeer ∉ s.ignored) {c : GboxCard} (hc : c ∈ s.cards) (hkey : c.key = o.key)
    (hcdist : 0 < c.dist) : ∃ m, s.first o = some m ∧ (m = c ∨ m.dist ≤ o.distance ∧ c.dist ≤ o.distance) := by
  cases hfirst : s.first o with
  | none =>
    have hno := List.find?_eq_none.mp hfirst c hc
    exact absurd (compared_of_key hkey) hno
  | some m =>
    refine ⟨m, rfl, ?_⟩
    have hcase := hk ha hd
    rw [if_neg hnot] at hcase
    rcases hcase c hc hkey hcdist m hfirst with ⟨hmkey, hmdist⟩ | hle
    · exact Or.inl (hi.distinct.eq (List.mem_of_find?_eq_some hfirst) hc hmdist hcdist
        (hmkey.trans hkey.symm))
    · exact Or.inr hle

theorem CardList.Inv.respects (hi : s.Inv) (hk : s.Kept (.add o)) : s.Respects o := by
  cases ha : o.admitted with
  | false =>
    have hsame := @add_of_not_admitted s o ha
    refine ⟨fun _ => hsame, fun c hc hkey _ _ => ⟨fun _ _ => ?_, fun _ => hsame⟩⟩
    rw [hi.admitted c hc o (CardKey.mk.inj hkey).1.symm] at ha
    cases ha
  | true =>
    constructor
    · intro hignored
      by_cases hd : 0 < o.distance
      · cases hfirst : s.first o with
        | none => rw [add_of_first_none ha hd hfirst, if_pos hignored]
        | some m =>
          have hle := hk ha hd
          rw [if_pos hignored] at hle
          exact add_of_not_nearer ha hd hfirst (hle m hfirst)
      · have hzero : o.distance = 0 := BitVec.le_zero_iff.mp (BitVec.not_lt.mp hd)
        rw [add_of_local ha hzero, if_pos hignored]
    · intro c hc hkey hcdist hd
      constructor
      · intro hlt hnot
        obtain ⟨m, hfirst, rfl | ⟨-, hle⟩⟩ := first_eq hi hk ha hd hnot hc hkey hcdist
        · rw [add_of_nearer ha hd hfirst hlt, if_neg hnot]
        · exact absurd hlt (BitVec.not_lt.mpr hle)
      · intro hle
        by_cases hignored : o.idPeer ∈ s.ignored
        · cases hfirst : s.first o with
          | none => rw [add_of_first_none ha hd hfirst, if_pos hignored]
          | some m =>
            have hmle := hk ha hd
            rw [if_pos hignored] at hmle
            exact add_of_not_nearer ha hd hfirst (hmle m hfirst)
        · obtain ⟨m, hfirst, rfl | ⟨hmle, -⟩⟩ := first_eq hi hk ha hd hignored hc hkey hcdist
          · exact add_of_not_nearer ha hd hfirst hle
          · exact add_of_not_nearer ha hd hfirst hmle

/-- Appending a card whose key no remote card has. -/
private theorem distinct_append {cards : List GboxCard} (h : cards.Pairwise Apart)
    (hnew : ∀ c ∈ cards, 0 < c.dist → 0 < o.distance → c.key ≠ o.key) :
    (cards ++ [o.card]).Pairwise Apart := by
  refine List.pairwise_append.mpr ⟨h, List.pairwise_singleton _ _, fun c hc x hx hcdist hxdist => ?_⟩
  rw [List.mem_singleton.mp hx] at hxdist ⊢
  exact hnew c hc hcdist hxdist

theorem CardList.Inv.distinct_add (hi : s.Inv) (hk : s.Kept (.add o)) : (s.add o).Pairwise Apart := by
  cases ha : o.admitted with
  | false =>
    rw [add_of_not_admitted ha]
    exact hi.distinct
  | true =>
    by_cases hd : 0 < o.distance
    · cases hfirst : s.first o with
      | none =>
        rw [add_of_first_none ha hd hfirst]
        split_ifs
        · exact hi.distinct
        · refine distinct_append hi.distinct fun c hc _ _ hkey => ?_
          exact List.find?_eq_none.mp hfirst c hc (compared_of_key hkey)
      | some m =>
        by_cases hlt : o.distance < m.dist
        · rw [add_of_nearer ha hd hfirst hlt]
          have hsub : (s.cards.erase m).Pairwise Apart := hi.distinct.sublist List.erase_sublist
          split_ifs with hignored
          · exact hsub
          · refine distinct_append hsub fun c hc hcdist _ hkey => ?_
            have hmem := List.mem_of_find?_eq_some hfirst
            have hapart : ∀ x ∈ s.cards.erase m, Apart m x :=
              (List.pairwise_cons.mp (((List.perm_cons_erase hmem).pairwise_iff fun h => Std.Symm.symm _ _ h).mp
                hi.distinct)).1
            obtain ⟨m', hfirst', rfl | ⟨hle, -⟩⟩ :=
              first_eq hi hk ha hd hignored (List.mem_of_mem_erase hc) hkey hcdist
            · obtain rfl := Option.some.inj (hfirst.symm.trans hfirst')
              exact hapart m hc hcdist hcdist rfl
            · obtain rfl := Option.some.inj (hfirst.symm.trans hfirst')
              exact absurd hlt (BitVec.not_lt.mpr hle)
        · rw [add_of_not_nearer ha hd hfirst (BitVec.not_lt.mp hlt)]
          exact hi.distinct
    · have hzero : o.distance = 0 := BitVec.le_zero_iff.mp (BitVec.not_lt.mp hd)
      rw [add_of_local ha hzero]
      split_ifs
      · exact hi.distinct
      · exact distinct_append hi.distinct fun c _ _ hpos => absurd hpos hd

/-- Every card of the new list was there or is the offered one. -/
theorem mem_add {c : GboxCard} (h : c ∈ s.add o) : c ∈ s.cards ∨ c = o.card ∧ o.admitted = true := by
  cases ha : o.admitted with
  | false =>
    rw [add_of_not_admitted ha] at h
    exact Or.inl h
  | true =>
    have happend : ∀ {l : List GboxCard}, l.Sublist s.cards → c ∈ l ++ [o.card] →
        c ∈ s.cards ∨ c = o.card ∧ true = true := by
      intro l hl hc
      rcases List.mem_append.mp hc with hc | hc
      · exact Or.inl (hl.subset hc)
      · exact Or.inr ⟨List.mem_singleton.mp hc, rfl⟩
    by_cases hd : 0 < o.distance
    · cases hfirst : s.first o with
      | none =>
        rw [add_of_first_none ha hd hfirst] at h
        split_ifs at h
        · exact Or.inl h
        · exact happend (List.Sublist.refl _) h
      | some m =>
        by_cases hlt : o.distance < m.dist
        · rw [add_of_nearer ha hd hfirst hlt] at h
          split_ifs at h
          · exact Or.inl (List.mem_of_mem_erase h)
          · exact happend List.erase_sublist h
        · rw [add_of_not_nearer ha hd hfirst (BitVec.not_lt.mp hlt)] at h
          exact Or.inl h
    · have hzero : o.distance = 0 := BitVec.le_zero_iff.mp (BitVec.not_lt.mp hd)
      rw [add_of_local ha hzero] at h
      split_ifs at h
      · exact Or.inl h
      · exact happend (List.Sublist.refl _) h

theorem CardList.Inv.step (hi : s.Inv) (hk : s.Kept a) (ht : system.next s a = some t) : t.Inv := by
  cases a with
  | add o =>
    cases ht
    refine ⟨hi.distinct_add hk, fun c hc o' ho' => ?_⟩
    rcases mem_add hc with hc | ⟨rfl, ha⟩
    · exact hi.admitted c hc o' ho'
    · change o'.caprovid = o.caprovid at ho'
      rw [Offer.admitted, ho']
      exact ha
  | delete deleteType =>
    cases ht
    have hsub : (gboxDeleteCards s.cards deleteType).Sublist s.cards := by
      rw [gboxDeleteCards_eq]
      exact List.filter_sublist
    exact ⟨hi.distinct.sublist hsub, fun c hc => hi.admitted c (hsub.subset hc)⟩
  | configure ignored =>
    cases ht
    exact ⟨hi.distinct, hi.admitted⟩

theorem CardList.inv_of_reachable (hr : system.Reachable Kept s) : s.Inv := by
  refine hr.invariant (fun s (hinit : s.cards = []) => ⟨?_, ?_⟩) fun _ _ _ hi hk ht => hi.step hk ht
  · rw [Distinct, hinit]
    exact List.Pairwise.nil
  · intro c hc
    rw [hinit] at hc
    cases hc

/-- In every run of offers and deletions that meet the condition, remote cards have different keys, and
the next offer that meets it is respected. -/
theorem card_list_kept (s : CardList) (hr : system.Reachable Kept s) :
    s.Distinct ∧ ∀ o, s.Kept (.add o) → s.Respects o :=
  ⟨(inv_of_reachable hr).distinct, fun _ hk => (inv_of_reachable hr).respects hk⟩

/-- A Viaccess card of peer `1234`. -/
def Offer.viaccess (slot distance : BitVec 8) (type : CardType) : Offer :=
  ⟨0x1234, 0x05021700, slot, 2, distance, type, some 0x1111⟩

/-- A nearer offer replaces the card, and a CCcam card comes under its own slot. -/
theorem card_list_kept_replace : ∃ s, (system.Reachable Kept s ∧ s.cards =
    [(Offer.viaccess 1 2 .gbox).card, (Offer.viaccess 2 1 .cccam).card]) ∧
    s.Distinct ∧ ∀ o, s.Kept (.add o) → s.Respects o := by
  obtain ⟨s, hr, hs⟩ := @System.exists_reachable_of_exec _ _ system Kept _ ⟨[], []⟩ rfl
    [.add (.viaccess 3 3 .gbox), .add (.viaccess 1 3 .gbox), .add (.viaccess 1 2 .gbox),
      .add (.viaccess 2 1 .cccam)]
    (fun s => decide (s.cards = [(Offer.viaccess 1 2 .gbox).card, (Offer.viaccess 2 1 .cccam).card]))
    (by decide +kernel)
  exact ⟨s, ⟨hr, of_decide_eq_true hs⟩, card_list_kept s hr⟩

/-- A CCcam card removes a card of another slot, and stands beside the one that has its key; and the offer
of a peer that is ignored by now removes its card. -/
theorem cccam_card_beside_its_key : (∃ s, system.Reachable System.free s ∧ ¬ s.Distinct) ∧
    ∃ s, system.Reachable System.free s ∧ ¬ s.Respects (.viaccess 1 2 .gbox) := by
  constructor
  · obtain ⟨s, hr, hs⟩ := @System.exists_reachable_of_exec _ _ system System.free
      (fun _ _ => instDecidableTrue) ⟨[], []⟩ rfl
      [.add (.viaccess 1 3 .gbox), .add (.viaccess 2 1 .gbox), .add (.viaccess 2 2 .cccam)]
      (fun s => decide (s.cards = [(Offer.viaccess 2 1 .gbox).card, (Offer.viaccess 2 2 .cccam).card]))
      (by decide +kernel)
    refine ⟨s, hr, fun h => ?_⟩
    rw [Distinct, of_decide_eq_true hs] at h
    exact (List.pairwise_cons.mp h).1 _ List.mem_cons_self (by decide) (by decide) rfl
  · obtain ⟨s, hr, hs⟩ := @System.exists_reachable_of_exec _ _ system System.free
      (fun _ _ => instDecidableTrue) ⟨[], []⟩ rfl
      [.add (.viaccess 1 3 .gbox), .configure [0x1234]]
      (fun s => decide (0x1234 ∈ s.ignored ∧ s.add (.viaccess 1 2 .gbox) ≠ s.cards)) (by decide +kernel)
    obtain ⟨hignored, hne⟩ := of_decide_eq_true hs
    exact ⟨s, hr, fun h => hne (h.1 hignored)⟩

end Runs

end NCam.Gbox
