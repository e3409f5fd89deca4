import NCam.Cccam.Card
import NCam.Lib.Transition

/-! The card list of a CCcam reader and its counters, over all sequences of announcements, removals,
server data messages and reconnects. -/
namespace NCam.Cccam.CardList

open NCam.Lib NCam.Util

/-- The counters of `cc_data` for the hop and reshare classes. -/
structure Counters where
  numHop1 : ℤ
  numHop2 : ℤ
  numHopx : ℤ
  numReshare0 : ℤ
  numReshare1 : ℤ
  numReshare2 : ℤ
  numResharex : ℤ
deriving DecidableEq

def Counters.zero : Counters := ⟨0, 0, 0, 0, 0, 0, 0⟩

/-- The counter of the hop class of `card` changes by `d`. -/
def Counters.bumpHop (n : Counters) (card : CcCard) (d : ℤ) : Counters :=
  if card.hop = 1 then { n with numHop1 := n.numHop1 + d }
  else if card.hop = 2 then { n with numHop2 := n.numHop2 + d }
  else { n with numHopx := n.numHopx + d }

/-- The counter of the reshare class of `card` changes by `d`. -/
def Counters.bumpReshare (n : Counters) (card : CcCard) (d : ℤ) : Counters :=
  if card.reshare = 0 then { n with numReshare0 := n.numReshare0 + d }
  else if card.reshare = 1 then { n with numReshare1 := n.numReshare1 + d }
  else if card.reshare = 2 then { n with numReshare2 := n.numReshare2 + d }
  else { n with numResharex := n.numResharex + d }

/-- The configuration of the reader. `chkCtab` and `chkIdent` are the filters on the caid table and on the
ident table of the reader. -/
structure Reader where
  ccMaxhops : BitVec 8
  ccMindown : BitVec 8
  chkCtab : BitVec 16 → Bool
  chkIdent : CcCard → Bool
  ccNodeId : NodeId
  grp : BitVec 64
  ccReshare : BitVec 8
  cfgReshare : BitVec 8

/-- The part of `cc_data` that holds the cards. -/
structure CcData where
  cards : List CcCard
  num : Counters
deriving DecidableEq

def sameFirstNode (card1 card2 : CcCard) : Bool := card1.remoteNodes.head? = card2.remoteNodes.head?

def sameCard2 (card1 card2 : CcCard) (compareGrp : Bool) : Bool :=
  card1.caid = card2.caid && card1.cardType = card2.cardType && card1.sidtab = card2.sidtab &&
    (!compareGrp || card1.grp = card2.grp) && card1.hexserial = card2.hexserial

def sameCard (card1 card2 : CcCard) : Bool :=
  card1.remoteId = card2.remoteId && sameCard2 card1 card2 true && sameFirstNode card1 card2

/-- The card of an announcement that passes the filters of the reader. -/
def announcedCard (rdr : Reader) (ext : Bool) (buf : ℕ → Byte) (l : ℕ) : Option CcCard :=
  if l < 16 then none
  else
    let caid := (b2i 2 buf 12).setWidth 16
    if caid = 0 ∨ ((buf 14).toNat : ℤ) ≥ rdr.ccMaxhops.toInt + 1 then none
    else if ((buf 15).toNat : ℤ) < rdr.ccMindown.toInt then none
    else if !rdr.chkCtab caid then none
    else
      (readCard (fun i => buf (4 + i)) (l - 4) ext).bind fun card =>
        let card := { card with
          originId := card.id
          grp := rdr.grp
          rdrReshare := if rdr.ccReshare.toInt > -1 then rdr.ccReshare else rdr.cfgReshare }
        if card.remoteNodes.contains rdr.ccNodeId then none
        else if !rdr.chkIdent card then none
        else some card

/-- `MSG_NEW_CARD` and, with `ext`, `MSG_NEW_CARD_SIDINFO` in `cc_parse_msg`. A card that is already
there is not added again. -/
def newCard (rdr : Reader) (ext : Bool) (buf : ℕ → Byte) (l : ℕ) (cc : CcData) : CcData :=
  match announcedCard rdr ext buf l with
  | none => cc
  | some card =>
    if cc.cards.any fun oldCard => oldCard.id = card.id || sameCard oldCard card then cc
    else
      let card := { card with cardType := .remoteCard, hop := card.hop + 1 }
      { cards := cc.cards ++ [card], num := (cc.num.bumpHop card 1).bumpReshare card 1 }

/-- The loop of `cc_card_removed` over the list: the cards that stay and the counters. -/
def removeLoop (shareid : BitVec 32) : List CcCard → Counters → List CcCard × Counters
  | [], num => ([], num)
  | card :: cards, num =>
    if card.id = shareid then
      removeLoop shareid cards ((num.bumpHop card (-1)).bumpReshare card (-1))
    else
      let (rest, num) := removeLoop shareid cards num
      (card :: rest, num)

/-- `MSG_CARD_REMOVED`. -/
def cardRemoved (buf : ℕ → Byte) (l : ℕ) (cc : CcData) : CcData :=
  if l < 8 then cc
  else
    let (cards, num) := removeLoop (b2i 4 buf 4) cc.cards cc.num
    ⟨cards, num⟩

/-- `MSG_SRV_DATA` of length `l`: normal server data has 72 bytes and clears the list; the other lengths
set keys and modes only. -/
def srvData (l : ℕ) (cc : CcData) : CcData :=
  if l < 4 then cc else if l - 4 = 0x48 then ⟨[], .zero⟩ else cc

/-- How far `cc_cli_connect` gets: it stops on a configuration error, a connection that is not opened or
a seed that is not received, or it goes on behind the seed. -/
inductive Connect
  | stopped
  | seeded
deriving DecidableEq

/-- `cc_cli_connect` of a client that has its `cc_data`: the cards are freed at the start, the counters
are reset behind the seed. -/
def cliConnect (how : Connect) (cc : CcData) : CcData :=
  let cc := { cc with cards := [] }
  match how with
  | .stopped => cc
  | .seeded => { cc with num := .zero }

/-- `move_card_to_end`, for an ECM that the card did not decode; `i` is the position of the card. -/
def moveCardToEnd (i : ℕ) (cc : CcData) : CcData :=
  match cc.cards[i]? with
  | none => cc
  | some card => { cc with cards := cc.cards.eraseIdx i ++ [card] }

inductive Action
  | newCard (ext : Bool) (buf : ℕ → Byte) (l : ℕ)
  | cardRemoved (buf : ℕ → Byte) (l : ℕ)
  | srvData (l : ℕ)
  | connect (how : Connect)
  | moveCardToEnd (i : ℕ)

/-- A reader from its first connect on. -/
def system (rdr : Reader) : System CcData Action where
  init cc := cc = ⟨[], .zero⟩
  next cc a := some (match a with
    | .newCard ext buf l => newCard rdr ext buf l cc
    | .cardRemoved buf l => cardRemoved buf l cc
    | .srvData l => srvData l cc
    | .connect how => cliConnect how cc
    | .moveCardToEnd i => moveCardToEnd i cc)

/-- What the counters should be for a list of cards. -/
def countersOf (cards : List CcCard) : Counters where
  numHop1 := cards.countP (·.hop = 1)
  numHop2 := cards.countP (·.hop = 2)
  numHopx := cards.countP fun card => card.hop ≠ 1 ∧ card.hop ≠ 2
  numReshare0 := cards.countP (·.reshare = 0)
  numReshare1 := cards.countP (·.reshare = 1)
  numReshare2 := cards.countP (·.reshare = 2)
  numResharex := cards.countP fun card => card.reshare ≠ 0 ∧ card.reshare ≠ 1 ∧ card.reshare ≠ 2

/-- The counters agree with the cards, and the ids are different. -/
structure Good (cc : CcData) : Prop where
  num : cc.num = countersOf cc.cards
  nodup : (cc.cards.map (·.id)).Nodup

/-- A connect stops early only while the reader has no cards. -/
def ConnectsThrough (cc : CcData) (a : Action) : Prop := a matches .connect .stopped → cc.cards = []

section Counting

variable {card : CcCard} {cards : List CcCard} {n : Counters}

theorem countersOf_cons : countersOf (card :: cards) =
    ((countersOf cards).bumpHop card 1).bumpReshare card 1 := by
  unfold countersOf Counters.bumpHop Counters.bumpReshare
  simp only [List.countP_cons]
  by_cases h1 : card.hop = 1 <;> by_cases h2 : card.hop = 2 <;> by_cases r0 : card.reshare = 0 <;>
    by_cases r1 : card.reshare = 1 <;> by_cases r2 : card.reshare = 2 <;> simp_all

theorem countersOf_perm {cards' : List CcCard} (h : cards.Perm cards') :
    countersOf cards = countersOf cards' := by
  unfold countersOf
  simp only [h.countP_eq]

/-- A removal takes back what the announcement counted. -/
theorem bump_neg : (((n.bumpHop card 1).bumpReshare card 1).bumpHop card (-1)).bumpReshare card (-1)
    = n := by
  unfold Counters.bumpHop Counters.bumpReshare
  split_ifs <;> simp [Int.add_neg_cancel_right]

end Counting

section Steps

variable {cc : CcData} (h : Good cc)

theorem removeLoop_sublist (shareid : BitVec 32) (cards : List CcCard) (n : Counters) :
    (removeLoop shareid cards n).1.Sublist cards := by
  induction cards generalizing n with
  | nil => exact List.Sublist.slnil
  | cons card cards ih =>
    unfold removeLoop
    by_cases hid : card.id = shareid
    · rw [if_pos hid]
      exact (ih _).cons card
    · rw [if_neg hid]
      exact (ih n).cons_cons card

/-- The loop keeps the counters in step with the cards, those it has passed (`pre`) included. -/
theorem removeLoop_counters (shareid : BitVec 32) (pre cards : List CcCard) (n : Counters)
    (hn : n = countersOf (pre ++ cards)) :
    (removeLoop shareid cards n).2 = countersOf (pre ++ (removeLoop shareid cards n).1) := by
  induction cards generalizing pre n with
  | nil => exact hn
  | cons card cards ih =>
    unfold removeLoop
    by_cases hid : card.id = shareid
    · rw [if_pos hid]
      apply ih
      rw [hn, countersOf_perm List.perm_middle, countersOf_cons, bump_neg]
    · rw [if_neg hid]
      have hstep := ih (pre ++ [card]) n (by rw [hn, List.append_assoc, List.singleton_append])
      rw [List.append_assoc, List.singleton_append] at hstep
      exact hstep

include h

theorem Good.cardRemoved (buf : ℕ → Byte) (l : ℕ) : Good (cardRemoved buf l cc) := by
  unfold CardList.cardRemoved
  by_cases hl : l < 8
  · rw [if_pos hl]
    exact h
  rw [if_neg hl]
  constructor
  · exact removeLoop_counters _ [] _ _ h.num
  · exact h.nodup.sublist ((removeLoop_sublist _ _ _).map _)

theorem Good.newCard (rdr : Reader) (ext : Bool) (buf : ℕ → Byte) (l : ℕ) :
    Good (newCard rdr ext buf l cc) := by
  unfold CardList.newCard
  cases announcedCard rdr ext buf l with
  | none => exact h
  | some card =>
    dsimp only
    by_cases hany : (cc.cards.any fun oldCard => oldCard.id = card.id || sameCard oldCard card) = true
    · rw [if_pos hany]
      exact h
    rw [if_neg hany]
    constructor
    · dsimp only
      rw [h.num, countersOf_perm (List.perm_append_singleton _ _), countersOf_cons]
    · have hnew : card.id ∉ cc.cards.map (·.id) := by
        intro hmem
        obtain ⟨oldCard, hold, hid⟩ := List.mem_map.mp hmem
        exact hany (List.any_eq_true.mpr ⟨oldCard, hold, by simp [hid]⟩)
      rw [List.map_append]
      exact ((List.perm_append_singleton _ _).nodup_iff).mpr (List.nodup_cons.mpr ⟨hnew, h.nodup⟩)

theorem Good.moveCardToEnd (i : ℕ) : Good (moveCardToEnd i cc) := by
  unfold CardList.moveCardToEnd
  cases hcard : cc.cards[i]? with
  | none => exact h
  | some card =>
    have hperm : (cc.cards.eraseIdx i ++ [card]).Perm cc.cards := by
      obtain ⟨hi, rfl⟩ := List.getElem?_eq_some_iff.mp hcard
      have herase := (List.erase_getElem hi).symm.cons cc.cards[i]
      exact (List.perm_append_singleton _ _).trans
        (herase.trans (List.perm_cons_erase (List.getElem_mem hi)).symm)
    constructor
    · exact h.num.trans (countersOf_perm hperm.symm)
    · exact ((hperm.map _).nodup_iff).mpr h.nodup

theorem Good.cliConnect {how : Connect} (hguard : how = .stopped → cc.cards = []) :
    Good (cliConnect how cc) := by
  cases how with
  | seeded => exact ⟨rfl, List.nodup_nil⟩
  | stopped =>
    constructor
    · have hnum := h.num
      rw [hguard rfl] at hnum
      exact hnum
    · exact List.nodup_nil

end Steps

theorem Good.next {rdr : Reader} {cc cc' : CcData} {a : Action} (h : Good cc)
    (hguard : ConnectsThrough cc a) (hnext : (system rdr).next cc a = some cc') : Good cc' := by
  have hcc := Option.some.inj hnext
  rw [← hcc]
  cases a with
  | newCard ext buf l => exact h.newCard rdr ext buf l
  | cardRemoved buf l => exact h.cardRemoved buf l
  | srvData l =>
    dsimp only [srvData]
    split_ifs
    · exact h
    · exact ⟨rfl, List.nodup_nil⟩
    · exact h
  | connect how =>
    apply h.cliConnect
    intro hstopped
    rw [hstopped] at hguard
    exact hguard rfl
  | moveCardToEnd i => exact h.moveCardToEnd i

/-- In every run in which connects only stop early while the reader has no cards, the counters agree with
the cards and the ids are different. -/
theorem connectsThrough_good {rdr : Reader} {cc : CcData}
    (h : (system rdr).Reachable ConnectsThrough cc) : Good cc := by
  apply h.invariant
  · intro cc hinit
    rw [hinit]
    exact ⟨rfl, List.nodup_nil⟩
  · intro cc a cc' hcc hguard hnext
    exact hcc.next hguard hnext

/-- A reader without filters. -/
def openReader : Reader where
  ccMaxhops := 10
  ccMindown := 0
  chkCtab := fun _ => true
  chkIdent := fun _ => true
  ccNodeId := .replicate 8 0xEE
  grp := 1
  ccReshare := 0
  cfgReshare := 0

/-- The announcement of card 1: caid 0500 at hop 0, reshare 2, without providers and nodes. -/
def announcement : ℕ → Byte :=
  Memory.put (fun _ => 0) 0 [0, 7, 0, 22, 0, 0, 0, 1, 0, 0, 0, 1, 5, 0, 0, 2]

instance (cc : CcData) (a : Action) : Decidable (ConnectsThrough cc a) := by
  unfold ConnectsThrough
  infer_instance

theorem connectsThrough_good_announced :
    ∃ cc, (system openReader).Reachable ConnectsThrough cc ∧ cc.cards.length = 1 ∧ Good cc := by
  obtain ⟨cc, hcc, hp⟩ := System.exists_reachable_of_exec (G := ConnectsThrough)
    (S := system openReader) (s := ⟨[], .zero⟩) rfl
    [.connect .stopped, .connect .seeded, .newCard false announcement 26,
      .newCard false announcement 26, .moveCardToEnd 0]
    (fun cc => cc.cards.length = 1) (by decide)
  exact ⟨cc, hcc, of_decide_eq_true hp, connectsThrough_good hcc⟩

/-- A connect that stops early leaves the counters of the freed cards. -/
theorem stopped_connect_keeps_counters : ∃ cc, (system openReader).Reachable System.free cc ∧
    cc.cards = [] ∧ cc.num.numHop1 = 1 ∧ ¬ Good cc := by
  obtain ⟨cc, hcc, hp⟩ := System.exists_reachable_of_exec (G := System.free)
    (S := system openReader) (s := ⟨[], .zero⟩) rfl
    [.newCard false announcement 26, .connect .stopped]
    (fun cc => cc.cards = [] ∧ cc.num.numHop1 = 1) (by decide)
  obtain ⟨hcards, hnum⟩ := of_decide_eq_true hp
  refine ⟨cc, hcc, hcards, hnum, ?_⟩
  intro h
  have hgood := congrArg Counters.numHop1 h.num
  rw [hcards, hnum] at hgood
  exact absurd hgood (by decide)

end NCam.Cccam.CardList
