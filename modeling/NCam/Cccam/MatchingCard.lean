import NCam.Cccam.Requests

/-! The card that the CCcam reader chooses for a request: `get_matching_card` and `reopen_sids`. The blocked services
of a card over runs of `add_sid_block`, `is_sid_blocked`, `remove_sid_block` and `reopen_sids`, beside the blocks as
they are meant to last. -/
namespace NCam.Cccam.SendEcm

open NCam.Lib.Shadow

def MIN_RATING : ℤ := -25
def MAX_RATING : ℤ := 25
def HOP_RATING : ℤ := 5

/-- A card of the reader; `addr` stands for the pointer to it. -/
structure Card extends CcCard where
  addr : ℕ
  rating : ℤ
deriving DecidableEq

/-- An entry of `ecmtask`. Its times are in milliseconds; `client` is the node id of the client that asks, if it
uses CCcam itself, and `fromReader` says that `origin_reader` is this reader. -/
structure EcmTask extends Requests.EcmRequest where
  chid : BitVec 16
  pid : BitVec 16
  rc : ℕ
  idx : ℕ
  tps : ℤ
  client : Option NodeId
  fromReader : Bool
  originCard : Option ℕ

/-- The options that the functions read, the clock in each pass of the loop, and whether the message of the
pass goes out. -/
structure Env where
  ctimeout : ℤ
  ccForwardOriginCard : Bool
  ccWantEmu : Bool
  lbMode : ℕ
  lbAutoBetatunnel : Bool
  lbAutoBetatunnelMode : ℕ
  hasSrvid : EcmTask → Bool
  now : ℕ → ℤ
  sendOk : ℕ → Bool

def caidIsNagra (caid : BitVec 16) : Bool := caid >>> 8 = 0x18

/-- `cur_srvid` of a request. -/
def curSrvid (curEr : EcmTask) : CcSrvid := ⟨curEr.srvid, curEr.chid, .ofNat 8 curEr.ecm.length⟩

/-- `sid_eq` and `sid_eq_nb`. -/
def sidEq (srvid1 srvid2 : CcSrvid) : Bool :=
  srvid1.sid = srvid2.sid && (srvid1.chid = srvid2.chid || srvid1.chid = 0 || srvid2.chid = 0) &&
    (srvid1.ecmlen = srvid2.ecmlen || srvid1.ecmlen = 0 || srvid2.ecmlen = 0)

/-- `is_sid_blocked`, with the bad sids that it leaves: it drops blocks of other services on its way. -/
def isSidBlocked (time : ℤ) (srvidBlocked : CcSrvid) :
    List CcSrvidBlock → List CcSrvidBlock × Option CcSrvidBlock
  | [] => ([], none)
  | srvid :: badsids =>
    if sidEq srvidBlocked srvid.toCcSrvid then (srvid :: badsids, some srvid)
    else
      let rest := isSidBlocked time srvidBlocked badsids
      if srvid.ecmlen ≠ 0 ∧ srvid.blockedTill > time then rest
      else (srvid :: rest.1, rest.2)

/-- `is_good_sid`. -/
def isGoodSid (card : Card) (srvidGood : CcSrvid) : Bool :=
  card.goodsids.any fun srvid => sidEq srvid srvidGood

/-- The checks of good and bad sids in `get_matching_card`, with the card as they leave it. -/
def sidAllowed (time : ℤ) (chkOnly : Bool) (ncard : Card) (srvid : CcSrvid) : Card × Bool :=
  let blocks (blocked : Option CcSrvidBlock) : Bool :=
    blocked.any fun sid => !chkOnly || sid.blockedTill = 0
  match ncard.goodsids.isEmpty, ncard.badsids.isEmpty with
  | true, true => (ncard, true)
  | false, true => (ncard, isGoodSid ncard srvid)
  | true, false =>
    let (badsids, blockedSid) := isSidBlocked time srvid ncard.badsids
    ({ ncard with badsids }, !blocks blockedSid)
  | false, false =>
    let (badsids, blockedSid) := isSidBlocked time srvid ncard.badsids
    ({ ncard with badsids }, !blocks blockedSid && isGoodSid ncard srvid)

/-- Whether the system of a card fits to a request. -/
def caidMatches (env : Env) (chkOnly : Bool) (curEr : EcmTask) (ncard : Card) : Bool :=
  let lbMatch := chkOnly && env.lbMode ≠ 0 && env.lbAutoBetatunnel &&
    (caidIsNagra curEr.caid && caidIsBetacrypt ncard.caid && env.lbAutoBetatunnelMode ≤ 3 ||
      caidIsBetacrypt curEr.caid && caidIsNagra ncard.caid && env.lbAutoBetatunnelMode ≥ 1)
  ncard.caid = curEr.caid || env.ccWantEmu && ncard.caid = curEr.caid &&& 0xFF00 || lbMatch

/-- The best card so far; `xcard` is for 18xx requests without a provider. -/
structure Best where
  bestRating : ℤ
  card : Option Card
  xcard : Option Card

/-- The rating of a card that passed the checks, and what it changes. -/
def rate (env : Env) (curEr : EcmTask) (ncard : Card) (b : Best) : Best :=
  let b :=
    if !env.ccWantEmu && caidIsNagra ncard.caid && b.xcard.all fun xcard => ncard.hop < xcard.hop then
      { b with xcard := some ncard }
    else b
  let rating := max MIN_RATING (min MAX_RATING (ncard.rating - ncard.hop.toNat * HOP_RATING))
  let provid := ncard.providers.isEmpty || ncard.providers.any fun provider =>
    curEr.prid = 0 || provider.prov = 0 || provider.prov = curEr.prid
  if provid && rating > b.bestRating then { b with card := some ncard, bestRating := rating } else b

/-- The loop of `get_matching_card` over the cards. -/
def matchCards (env : Env) (time : ℤ) (chkOnly : Bool) (curEr : EcmTask) (b : Best) :
    List Card → List Card × Best
  | [] => ([], b)
  | ncard :: cards =>
    if caidMatches env chkOnly curEr ncard then
      let (ncard, allowed) := sidAllowed time chkOnly ncard (curSrvid curEr)
      let (cards, b) := matchCards env time chkOnly curEr
        (if allowed then rate env curEr ncard b else b) cards
      (ncard :: cards, b)
    else
      let (cards, b) := matchCards env time chkOnly curEr b cards
      (ncard :: cards, b)

/-- `get_matching_card`, with the cards as it leaves them. -/
def getMatchingCard (env : Env) (time : ℤ) (chkOnly : Bool) (curEr : EcmTask) (cards : List Card) :
    List Card × Option Card :=
  let (cards, b) := matchCards env time chkOnly curEr ⟨MIN_RATING - 1, none, none⟩ cards
  (cards, b.card.or b.xcard)

/-- `reopen_sids`. -/
def reopenSids (time : ℤ) (ignoreTime : Bool) (curEr : EcmTask) (cards : List Card) : List Card :=
  cards.map fun card =>
    if card.caid = curEr.caid then
      { card with
        badsids := card.badsids.filter fun srvid =>
          !(srvid.blockedTill > 0 && sidEq srvid.toCcSrvid (curSrvid curEr) &&
            (ignoreTime || srvid.blockedTill ≤ time)) }
    else card

/-- The search of `cc_send_ecm` for a card, the second time with the blocked services open again. -/
def searchCard (env : Env) (time : ℤ) (cards : List Card) (curEr : EcmTask) : List Card × Option Card :=
  let (cards, card) := getMatchingCard env time false curEr (reopenSids time false curEr cards)
  if card.isNone && env.hasSrvid curEr then
    getMatchingCard env time false curEr (reopenSids time true curEr cards)
  else (cards, card)

/-- The origin card of a request that came through this reader, if it is still there. -/
def originCard (env : Env) (cards : List Card) (curEr : EcmTask) : Option Card :=
  if env.ccForwardOriginCard && curEr.fromReader then
    curEr.originCard.bind fun addr => cards.find? fun ncard => ncard.addr = addr
  else none

/-- The three sources of a card in `cc_send_ecm`; `card` is what the variable holds from the pass before. -/
def chooseCard (env : Env) (time : ℤ) (cards : List Card) (card : Option Card) (curEr : EcmTask) :
    List Card × Option Card :=
  match (originCard env cards curEr).or card with
  | some card => (cards, some card)
  | none => searchCard env time cards curEr

variable {env : Env} {time : ℤ} {cards : List Card} {card : Option Card} {curEr : EcmTask}

theorem chooseCard_origin {ncard : Card} (h : originCard env cards curEr = some ncard) :
    chooseCard env time cards card curEr = (cards, some ncard) := by
  rw [chooseCard, h, Option.some_or]

theorem chooseCard_kept {ncard : Card} (h : originCard env cards curEr = none) :
    chooseCard env time cards (some ncard) curEr = (cards, some ncard) := by
  rw [chooseCard, h, Option.none_or]

theorem chooseCard_search (h : originCard env cards curEr = none) :
    chooseCard env time cards none curEr = searchCard env time cards curEr := by
  rw [chooseCard, h, Option.none_or]

def BLOCKING_SECONDS : ℤ := 6

/-- The block that `add_sid_block` appends. -/
def newBlock (time : ℤ) (srvidBlocked : CcSrvid) (temporary : Bool) : CcSrvidBlock :=
  { srvidBlocked with blockedTill := if temporary then time + BLOCKING_SECONDS else 0 }

def addSidBlock (time : ℤ) (card : Card) (srvidBlocked : CcSrvid) (temporary : Bool) : Card :=
  let (badsids, blocked) := isSidBlocked time srvidBlocked card.badsids
  if blocked.isSome then { card with badsids }
  else { card with badsids := badsids ++ [newBlock time srvidBlocked temporary] }

def removeSidBlock (card : Card) (srvidBlocked : CcSrvid) : Card :=
  { card with badsids := card.badsids.filter fun srvid => !sidEq srvidBlocked srvid.toCcSrvid }

/-- The pass of `reopen_sids` over the blocks of a card. -/
def reopenBlocks (time : ℤ) (ignoreTime : Bool) (curSrvid : CcSrvid) (badsids : List CcSrvidBlock) :
    List CcSrvidBlock :=
  badsids.filter fun srvid =>
    !(srvid.blockedTill > 0 && sidEq srvid.toCcSrvid curSrvid && (ignoreTime || srvid.blockedTill ≤ time))

def reopenCard (time : ℤ) (ignoreTime : Bool) (curEr : EcmTask) (card : Card) : Card :=
  if card.caid = curEr.caid then
    { card with badsids := reopenBlocks time ignoreTime (curSrvid curEr) card.badsids }
  else card

inductive SidOp
  | addSidBlock (srvidBlocked : CcSrvid) (temporary : Bool)
  | isSidBlocked (srvidBlocked : CcSrvid)
  | removeSidBlock (srvidBlocked : CcSrvid)
  | reopenSids (ignoreTime : Bool) (curEr : EcmTask)

/-- An operation at a time. -/
structure SidCall where
  time : ℤ
  op : SidOp

def sidStep (card : Card) (call : SidCall) : Card :=
  match call.op with
  | .addSidBlock srvid temporary => addSidBlock call.time card srvid temporary
  | .isSidBlocked srvid => { card with badsids := (isSidBlocked call.time srvid card.badsids).1 }
  | .removeSidBlock srvid => removeSidBlock card srvid
  | .reopenSids ignoreTime curEr => reopenCard call.time ignoreTime curEr card

section Meant

/-- A permanent block, or a temporary one that has not expired. -/
def InForce (time : ℤ) (srvid : CcSrvidBlock) : Prop := srvid.blockedTill = 0 ∨ time < srvid.blockedTill

instance (time : ℤ) (srvid : CcSrvidBlock) : Decidable (InForce time srvid) :=
  inferInstanceAs (Decidable (_ ∨ _))

/-- A block of the service is in force. -/
def Blocked (time : ℤ) (srvid : CcSrvid) (blocks : List CcSrvidBlock) : Prop :=
  ∃ b ∈ blocks, sidEq srvid b.toCcSrvid = true ∧ InForce time b

instance (time : ℤ) (srvid : CcSrvid) (blocks : List CcSrvidBlock) :
    Decidable (Blocked time srvid blocks) := inferInstanceAs (Decidable (∃ _ ∈ _, _))

/-- The blocks of a card for `caid` after an operation: asking changes nothing, and a service is blocked
once. -/
def meantStep (caid : BitVec 16) (blocks : List CcSrvidBlock) (call : SidCall) : List CcSrvidBlock :=
  match call.op with
  | .addSidBlock srvid temporary =>
    if Blocked call.time srvid blocks then blocks else blocks ++ [newBlock call.time srvid temporary]
  | .isSidBlocked _ => blocks
  | .removeSidBlock srvid => blocks.filter fun b => !sidEq srvid b.toCcSrvid
  | .reopenSids ignoreTime curEr =>
    if caid = curEr.caid then reopenBlocks call.time ignoreTime (curSrvid curEr) blocks else blocks

/-- The service that an operation asks about. -/
def SidOp.asked : SidOp → Option CcSrvid
  | .addSidBlock srvid _ => some srvid
  | .isSidBlocked srvid => some srvid
  | .removeSidBlock _ => none
  | .reopenSids _ _ => none

/-- A service is reported blocked exactly if a block of it is in force, and asking for it leaves every block
that is in force. -/
def AnsweredRight (time : ℤ) (srvid : CcSrvid) (badsids blocks : List CcSrvidBlock) : Prop :=
  ((isSidBlocked time srvid badsids).2.isSome ↔ Blocked time srvid blocks) ∧
    (isSidBlocked time srvid badsids).1.filter (InForce time ·) = badsids.filter (InForce time ·)

def CallRight (card : Card) (blocks : List CcSrvidBlock) (call : SidCall) : Prop :=
  ∀ srvid ∈ call.op.asked, AnsweredRight call.time srvid card.badsids blocks

/-- Every question of the run is answered right. -/
def AlwaysRight (card : Card) (calls : List SidCall) : Prop :=
  AlwaysBeside sidStep (meantStep card.caid) CallRight card card.badsids calls

/-- No temporary block in force that has a length stands before the first block of the service, and if the
service has blocks, one of them is in force. -/
def Unhindered (time : ℤ) (srvid : CcSrvid) (badsids : List CcSrvidBlock) : Prop :=
  (∀ b ∈ badsids.takeWhile fun b => !sidEq srvid b.toCcSrvid,
    ¬ (b.ecmlen ≠ 0 ∧ b.blockedTill > time)) ∧
  ((∃ b ∈ badsids, sidEq srvid b.toCcSrvid = true) → Blocked time srvid badsids)

def CallUnhindered (card : Card) (call : SidCall) : Prop :=
  ∀ srvid ∈ call.op.asked, Unhindered call.time srvid card.badsids

end Meant

section Claims

variable {time : ℤ} {srvid : CcSrvid} {badsids blocks : List CcSrvidBlock} {card : Card}

/-- A service is reported blocked if it has a block, in force or not. -/
theorem isSidBlocked_isSome : (isSidBlocked time srvid badsids).2.isSome ↔
    ∃ b ∈ badsids, sidEq srvid b.toCcSrvid = true := by
  induction badsids with
  | nil => simp [isSidBlocked]
  | cons b badsids ih =>
    unfold isSidBlocked
    by_cases hb : sidEq srvid b.toCcSrvid = true
    · simp [hb]
    · rw [if_neg hb]
      dsimp only
      split_ifs <;> simp [ih, hb]

/-- The question drops temporary blocks with a length from the part before the first block of the service. -/
theorem isSidBlocked_fst : (isSidBlocked time srvid badsids).1 =
    ((badsids.takeWhile fun b => !sidEq srvid b.toCcSrvid).filter fun b =>
      !decide (b.ecmlen ≠ 0 ∧ b.blockedTill > time)) ++
      badsids.dropWhile fun b => !sidEq srvid b.toCcSrvid := by
  induction badsids with
  | nil => rfl
  | cons b badsids ih =>
    unfold isSidBlocked
    by_cases hb : sidEq srvid b.toCcSrvid = true
    · simp [hb]
    · rw [if_neg hb]
      dsimp only
      by_cases hdrop : b.ecmlen ≠ 0 ∧ b.blockedTill > time
      · rw [if_pos hdrop, ih, List.takeWhile_cons_of_pos (by simpa using hb),
          List.dropWhile_cons_of_pos (by simpa using hb), List.filter_cons_of_neg (by simpa using hdrop)]
      · rw [if_neg hdrop, ih, List.takeWhile_cons_of_pos (by simpa using hb),
          List.dropWhile_cons_of_pos (by simpa using hb),
          List.filter_cons_of_pos (by rw [decide_eq_false hdrop]; rfl), List.cons_append]

theorem isSidBlocked_fst_of_unhindered (h : Unhindered time srvid badsids) :
    (isSidBlocked time srvid badsids).1 = badsids := by
  rw [isSidBlocked_fst, List.filter_eq_self.mpr, List.takeWhile_append_dropWhile]
  intro b hb
  rw [decide_eq_false (h.1 b hb)]
  rfl

theorem isSome_iff_blocked (h : Unhindered time srvid badsids) :
    (isSidBlocked time srvid badsids).2.isSome ↔ Blocked time srvid badsids := by
  rw [isSidBlocked_isSome]
  constructor
  · exact h.2
  · intro hblocked
    obtain ⟨b, hb, heq, -⟩ := hblocked
    exact ⟨b, hb, heq⟩

/-- A question about the blocks as they are meant is answered right if and only if nothing stands in its
way. -/
theorem answeredRight_iff : AnsweredRight time srvid badsids badsids ↔ Unhindered time srvid badsids := by
  constructor
  · intro h
    obtain ⟨hreport, hkept⟩ := h
    constructor
    · intro b hb hdrop
      have hforce : InForce time b := .inr hdrop.2
      have hmem : b ∈ (badsids.takeWhile fun b => !sidEq srvid b.toCcSrvid).filter (InForce time ·) := by
        rw [List.mem_filter]
        exact ⟨hb, decide_eq_true hforce⟩
      have hsplit := List.takeWhile_append_dropWhile (p := fun b => !sidEq srvid b.toCcSrvid) (l := badsids)
      rw [isSidBlocked_fst] at hkept
      conv_rhs at hkept => rw [← hsplit]
      rw [List.filter_append, List.filter_append] at hkept
      rw [← List.append_cancel_right hkept, List.mem_filter, List.mem_filter] at hmem
      have hstays := hmem.1.2
      rw [decide_eq_true hdrop] at hstays
      exact absurd hstays (by decide)
    · intro hmatch
      exact hreport.mp (isSidBlocked_isSome.mpr hmatch)
  · intro h
    refine ⟨isSome_iff_blocked h, ?_⟩
    rw [isSidBlocked_fst_of_unhindered h]

theorem addSidBlock_of_unhindered (h : Unhindered time srvid card.badsids) (temporary : Bool) :
    (addSidBlock time card srvid temporary).badsids =
      if Blocked time srvid card.badsids then card.badsids
      else card.badsids ++ [newBlock time srvid temporary] := by
  unfold addSidBlock
  dsimp only
  rw [isSidBlocked_fst_of_unhindered h]
  by_cases hblocked : Blocked time srvid card.badsids
  · rw [if_pos ((isSome_iff_blocked h).mpr hblocked), if_pos hblocked]
  · rw [if_neg fun hsome => hblocked ((isSome_iff_blocked h).mp hsome), if_neg hblocked]

@[simp] theorem sidStep_caid (call : SidCall) : (sidStep card call).caid = card.caid := by
  unfold sidStep
  split
  · unfold addSidBlock
    dsimp only
    split_ifs <;> rfl
  · rfl
  · rfl
  · unfold reopenCard
    split_ifs <;> rfl

/-- An operation whose question is not hindered leaves the blocks as it is meant to. -/
theorem sidStep_badsids {call : SidCall} (h : CallUnhindered card call) :
    (sidStep card call).badsids = meantStep card.caid card.badsids call := by
  obtain ⟨time, op⟩ := call
  cases op with
  | addSidBlock srvid temporary => exact addSidBlock_of_unhindered (h srvid rfl) temporary
  | isSidBlocked srvid => exact isSidBlocked_fst_of_unhindered (h srvid rfl)
  | removeSidBlock srvid => rfl
  | reopenSids ignoreTime curEr =>
    unfold sidStep meantStep reopenCard
    dsimp only
    split_ifs <;> rfl

/-- Every question of a run is answered right if and only if no question of it is hindered. -/
theorem alwaysRight_iff (card : Card) (calls : List SidCall) :
    AlwaysRight card calls ↔ Always sidStep CallUnhindered card calls := by
  have hright : ∀ (c : Card) (blocks : List CcSrvidBlock) (call : SidCall),
      c.badsids = blocks ∧ c.caid = card.caid → (CallRight c blocks call ↔ CallUnhindered c call) := by
    intro c blocks call h
    rw [← h.1]
    unfold CallRight CallUnhindered
    simp only [answeredRight_iff]
  have hstep : ∀ (c : Card) (blocks : List CcSrvidBlock) (call : SidCall),
      c.badsids = blocks ∧ c.caid = card.caid → CallUnhindered c call →
        (sidStep c call).badsids = meantStep card.caid blocks call ∧ (sidStep c call).caid = card.caid := by
    intro c blocks call h hclear
    rw [sidStep_badsids hclear, sidStep_caid, ← h.1, ← h.2]
    exact ⟨rfl, rfl⟩
  exact alwaysBeside_iff hright hstep ⟨rfl, rfl⟩ calls

private def openCard : Card where
  id := 1
  remoteId := 1
  caid := 0x0500
  hop := 1
  reshare := 0
  hexserial := Vector.replicate 8 0
  providers := []
  badsids := []
  goodsids := []
  remoteNodes := []
  originId := 0
  cardType := .remoteCard
  sidtab := none
  grp := 0
  rdrReshare := 0
  sidtabno := 0
  isExt := false
  addr := 1
  rating := 0

/-- A service is blocked for six seconds, and another one is asked about in the next second. -/
theorem block_dropped : ¬ AlwaysRight openCard
    [⟨100, .addSidBlock ⟨0x10, 0, 0x50⟩ true⟩, ⟨101, .isSidBlocked ⟨0x20, 0, 0x50⟩⟩] := by
  intro h
  have hasked := h.2.1 ⟨0x20, 0, 0x50⟩ rfl
  exact absurd hasked.2 (by decide)

end Claims

end NCam.Cccam.SendEcm
