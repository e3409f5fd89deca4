import NCam.Gbox.CardSelection
import NCam.Gbox.SendEcm

/-! When the ECM message keeps to the limit of cards and to the send buffer. -/
namespace NCam.Gbox

open NCam.Lib NCam.Util

section Buffer

variable {loc : LocalGbox} {peer : GboxPeer} {er : EcmRequest} {buf : ℕ → Byte}

/-- The fields before the cards need `ecmlen + 28` bytes. -/
theorem ecmFields_fit (loc : LocalGbox) (peer : GboxPeer) (er : EcmRequest) :
    ∀ w ∈ ecmFields loc peer er, w.1 + w.2.length ≤ er.ecmlen + 28 := by
  have hremm : ∀ w ∈ (if peer.validRemmPeer then [(er.ecmlen + 18 + 3, [loc.gbxRev])] else []),
      w.1 + w.2.length ≤ er.ecmlen + 28 := by
    split_ifs
    · intro w hw
      rw [List.mem_singleton.mp hw, List.length_singleton]
      omega
    · exact fun w hw => absurd hw List.not_mem_nil
  unfold ecmFields gboxMessageHeader
  simp only [List.forall_mem_append, List.forall_mem_cons, length_i2b_two, length_i2b_four,
    List.length_singleton, Memory.length_slice]
  refine ⟨⟨⟨⟨?_, ?_, ?_, ?_⟩, ?_, ?_, ?_, ?_, ?_, ?_, ?_, ?_, ?_, ?_⟩, hremm⟩, ?_, ?_, ?_, ?_⟩ <;>
    first
    | omega
    | exact fun w hw => absurd hw List.not_mem_nil

theorem ecmBuffer_eq (h : er.ecmlen + 28 ≤ SEND_BUF_SIZE) :
    ecmBuffer loc peer er =
      some ((ecmFields loc peer er).foldl (fun buf w => Memory.put buf w.1 w.2) fun _ => 0) :=
  Memory.putAll_of_le fun w hw => (ecmFields_fit loc peer er w hw).trans h

theorem ecmBuffer_none (h : SEND_BUF_SIZE < er.ecmlen + 28) : ecmBuffer loc peer er = none := by
  refine @Memory.putAll_eq_none _ _ _ _ (er.ecmlen + 18 + 9, [0]) ?_ ?_
  · exact List.mem_append_right _ (List.mem_cons_of_mem _ (List.mem_cons_of_mem _ List.mem_cons_self))
  · change SEND_BUF_SIZE < er.ecmlen + 18 + 9 + 1
    omega

/-- The hops and the check codes need `dist + 15` bytes. -/
theorem ecmFooter_isSome {nb : Byte} {buflen : ℕ} (h16 : 16 < SEND_BUF_SIZE) :
    (ecmFooter loc peer er nb buf buflen).isSome ↔
      er.gboxEcmDist ≠ 255 ∧ buflen + (er.gboxEcmDist.toNat + 1) + 14 ≤ SEND_BUF_SIZE := by
  unfold ecmFooter hopBytes
  by_cases hmax : er.gboxEcmDist = 255
  · rw [if_pos hmax]
    exact iff_of_false Bool.false_ne_true fun h => h.1 hmax
  · rw [if_neg hmax, Option.bind_some, List.length_map, List.length_range]
    by_cases hfit : buflen + (er.gboxEcmDist.toNat + 1) + 14 ≤ SEND_BUF_SIZE
    · refine iff_of_true ?_ ⟨hmax, hfit⟩
      rw [Memory.putAll_of_le]
      · rfl
      · simp only [List.forall_mem_cons, List.length_singleton, List.length_map, List.length_range,
          Vector.length_toList]
        refine ⟨by omega, by omega, by omega, by omega, fun w hw => absurd hw List.not_mem_nil⟩
    · refine iff_of_false ?_ fun h => hfit h.2
      rw [@Memory.putAll_eq_none _ _ _ _ (buflen + (er.gboxEcmDist.toNat + 1) + 7, peer.checkcode.toList)]
      · exact Bool.false_ne_true
      · exact List.mem_cons_of_mem _ (List.mem_cons_of_mem _ (List.mem_cons_of_mem _ List.mem_cons_self))
      · change SEND_BUF_SIZE < buflen + (er.gboxEcmDist.toNat + 1) + 7 + peer.checkcode.toList.length
        rw [Vector.length_toList]
        omega

end Buffer

section Limits

variable (loc : LocalGbox) (peer : GboxPeer) (now : ℤ) (cards : List GboxCard) (er : EcmRequest)

/-- The request is not turned away before cards are looked for. -/
def Ready : Prop :=
  er.ecmlen ≠ 0 ∧ peer.tcpConnected = true ∧ peer.filteredCards ≠ 0 ∧ peer.online = true

instance : Decidable (Ready peer er) := by
  unfold Ready
  infer_instance

/-- The search that is made for the request. -/
def search : CardSearch := cardSearch peer now (prepared loc er)

/-- The call of `gbox_get_cards_for_ecm` for the buffer before the cards. -/
def searchCards : Option (List GboxCard × CardsOut) :=
  (ecmBuffer loc peer (prepared loc er)).bind fun buf =>
    gboxGetCardsForEcm SEND_BUF_SIZE (search loc peer now er) buf (er.ecmlen + 28) cards

/-- At most the configured number of cards is returned; they are different cards of the peer that match and
are not pending, and stand in three bytes each. -/
def SelectsWell : Prop :=
  ∃ cards' out, ∃ sent : List GboxCard, searchCards loc peer now cards er = some (cards', out) ∧
    out.nbMatchingCrds.toNat ≤ peer.gboxMaxecmsend.toNat ∧
    out.len2 = er.ecmlen + 28 + 3 * out.nbMatchingCrds.toNat ∧
    sent.length = out.nbMatchingCrds.toNat ∧
    sent.Subperm (cards.filter (search loc peer now er).candidate) ∧
    Memory.Holds out.sendBuf (er.ecmlen + 28) (sent.flatMap fun c => cardBytes c.id)

/-- The cards are selected well and nothing is written outside the send buffer. -/
def SendsWell : Prop :=
  (Ready peer er → SelectsWell loc peer now cards er) ∧ (gboxSendEcm loc peer now cards er).isSome

/-- The message with `n` cards fits into the send buffer. -/
def Fits (n : ℕ) : Prop :=
  if n = 0 then er.ecmlen + 28 ≤ SEND_BUF_SIZE
  else er.gboxEcmDist ≠ 255 ∧
    er.ecmlen + 28 + 3 * n + (er.gboxEcmDist.toNat + 1) + 14 ≤ SEND_BUF_SIZE

instance (n : ℕ) : Decidable (Fits er n) := by
  unfold Fits
  infer_instance

variable {loc peer now cards er}

private theorem fits_cards {n : ℕ} (h : Fits er n) : er.ecmlen + 28 + 3 * n ≤ SEND_BUF_SIZE := by
  unfold Fits at h
  split_ifs at h with hn
  · omega
  · omega

private theorem written_start (buf : ℕ → Byte) (base : ℕ) :
    Written base buf ⟨buf, base, 0, false, 0⟩ Selection.start :=
  ⟨rfl, rfl, rfl, rfl, rfl, fun _ _ => rfl, fun h => by cases h⟩

/-- The call writes the selection if that fits. -/
theorem searchCards_of_fit
    (hfit : er.ecmlen + 28 + 3 * (Selection.all (search loc peer now er) cards).sent.length ≤ SEND_BUF_SIZE) :
    ∃ buf cards' out, ecmBuffer loc peer (prepared loc er) = some buf ∧
      searchCards loc peer now cards er = some (cards', out) ∧
      Written (er.ecmlen + 28) buf out (Selection.all (search loc peer now er) cards) := by
  have hbuf := @ecmBuffer_eq loc peer (prepared loc er) (show er.ecmlen + 28 ≤ SEND_BUF_SIZE by omega)
  generalize hsel : Selection.good (search loc peer now er) cards Selection.start = s
  have hall : Selection.all (search loc peer now er) cards = Selection.other (search loc peer now er) cards s := by
    rw [← hsel]
    rfl
  have hle := @length_other_le (search loc peer now er) s cards
  rw [hall] at hfit ⊢
  rw [searchCards, hbuf, Option.bind_some]
  generalize (ecmFields loc peer (prepared loc er)).foldl (fun buf w => Memory.put buf w.1 w.2) (fun _ => 0) = buf
  have hstart := written_start buf (er.ecmlen + 28)
  have hgood := @Written.goodLoop SEND_BUF_SIZE _ (search loc peer now er) buf _ _ cards hstart
    (by change er.ecmlen + 28 + 3 * 0 ≤ _; omega)
  rw [hsel] at hgood
  obtain ⟨out₁, hout₁, hw₁⟩ := hgood.fits (by omega)
  have hother := @Written.otherLoop SEND_BUF_SIZE _ (search loc peer now er) buf _ _ cards hw₁ (by omega)
  obtain ⟨out₂, hout₂, hw₂⟩ := hother.fits hfit
  obtain ⟨⟨cards', out₂'⟩, hloop, rfl⟩ := Option.map_eq_some_iff.mp hout₂
  refine ⟨buf, cards', out₂', rfl, ?_, hw₂⟩
  rw [gboxGetCardsForEcm, hout₁, Option.bind_some, hloop]

/-- The call leaves the buffer if the selection does not fit. -/
theorem searchCards_of_not_fit
    (hlong : SEND_BUF_SIZE < er.ecmlen + 28 + 3 * (Selection.all (search loc peer now er) cards).sent.length) :
    searchCards loc peer now cards er = none := by
  by_cases hbase : SEND_BUF_SIZE < er.ecmlen + 28
  · rw [searchCards, @ecmBuffer_none loc peer (prepared loc er) hbase]
    rfl
  · have hbuf := @ecmBuffer_eq loc peer (prepared loc er) (show er.ecmlen + 28 ≤ SEND_BUF_SIZE by omega)
    rw [searchCards, hbuf, Option.bind_some]
    generalize (ecmFields loc peer (prepared loc er)).foldl (fun buf w => Memory.put buf w.1 w.2) (fun _ => 0) = buf
    have hgood := @Written.goodLoop SEND_BUF_SIZE _ (search loc peer now er) buf _ _ cards
      (written_start buf (er.ecmlen + 28)) (by change er.ecmlen + 28 + 3 * 0 ≤ _; omega)
    rw [gboxGetCardsForEcm]
    by_cases hfirst : SEND_BUF_SIZE < er.ecmlen + 28 +
        3 * (Selection.good (search loc peer now er) cards Selection.start).sent.length
    · rw [hgood.leaves hfirst]
      rfl
    · obtain ⟨out₁, hout₁, hw₁⟩ := hgood.fits (by omega)
      have hother := @Written.otherLoop SEND_BUF_SIZE _ (search loc peer now er) buf _ _ cards hw₁ (by omega)
      rw [hout₁, Option.bind_some]
      exact Option.map_eq_none_iff.mp (hother.leaves hlong)

theorem gboxSendEcm_of_not_ready (h : ¬ Ready peer er) : (gboxSendEcm loc peer now cards er).isSome := by
  unfold gboxSendEcm
  split_ifs with hlen hconnected hcards honline
  · rfl
  · rfl
  · rfl
  · rfl
  · refine absurd ⟨hlen, ?_, hcards, ?_⟩ h
    · rwa [Bool.not_eq_true, Bool.not_eq_false'] at hconnected
    · rwa [Bool.not_eq_true, Bool.not_eq_false'] at honline

/-- Behind the search only the footer can leave the buffer. -/
theorem gboxSendEcm_of_ready (h : Ready peer er) {cards' : List GboxCard} {out : CardsOut}
    (hsearch : searchCards loc peer now cards er = some (cards', out)) :
    (gboxSendEcm loc peer now cards er).isSome ↔ (out.nbMatchingCrds ≠ 0 →
      (ecmFooter loc peer (prepared loc er) out.nbMatchingCrds out.sendBuf
        (er.ecmlen + 28 + 3 * out.nbMatchingCrds.toNat)).isSome) := by
  obtain ⟨hlen, hconnected, hcards, honline⟩ := h
  obtain ⟨buf, hbuf, hget⟩ := Option.bind_eq_some_iff.mp hsearch
  have hget' : gboxGetCardsForEcm SEND_BUF_SIZE (cardSearch peer now (prepared loc er)) buf
      ((prepared loc er).ecmlen + 28) cards = some (cards', out) := hget
  unfold gboxSendEcm
  rw [if_neg hlen, hconnected, if_neg (by exact Bool.false_ne_true), if_neg hcards, honline,
    if_neg (by exact Bool.false_ne_true)]
  simp only [hbuf, hget', Option.bind_eq_bind, Option.bind_some]
  by_cases hzero : out.nbMatchingCrds = 0
  · rw [if_pos hzero]
    exact iff_of_true rfl fun hne => absurd hzero hne
  · rw [if_neg hzero, Option.isSome_bind]
    change (ecmFooter loc peer (prepared loc er) out.nbMatchingCrds out.sendBuf
      (er.ecmlen + 28 + 3 * out.nbMatchingCrds.toNat)).any _ = true ↔ _
    cases ecmFooter loc peer (prepared loc er) out.nbMatchingCrds out.sendBuf
      (er.ecmlen + 28 + 3 * out.nbMatchingCrds.toNat) with
    | none => exact iff_of_false Bool.false_ne_true fun hf => Bool.false_ne_true (hf hzero)
    | some _ => exact iff_of_true rfl fun _ => rfl

/-- An ECM is sent well exactly if the selection keeps to the limit, and the message with it fits. -/
theorem sendsWell_iff : SendsWell loc peer now cards er ↔
    (Ready peer er → Limited (search loc peer now er) cards ∧ Fits er (wanted (search loc peer now er) cards)) := by
  by_cases hready : Ready peer er
  · obtain ⟨hle, hlen⟩ := @length_all (search loc peer now er) cards
    have hmax := peer.gboxMaxecmsend.isLt
    constructor
    · rintro ⟨hselects, hsome⟩ -
      obtain ⟨cards', out, sent, hsearch, hnb, hpos, -⟩ := hselects hready
      have hfit : er.ecmlen + 28 + 3 * (Selection.all (search loc peer now er) cards).sent.length ≤
          SEND_BUF_SIZE := by
        by_contra hlong
        rw [searchCards_of_not_fit (by omega)] at hsearch
        cases hsearch
      obtain ⟨buf, cards'', out', -, hsearch', hw⟩ := searchCards_of_fit hfit
      obtain ⟨rfl, rfl⟩ := Prod.mk.inj (Option.some.inj (hsearch.symm.trans hsearch'))
      have hcount := hw.len.symm.trans hpos
      have hlimited : Limited (search loc peer now er) cards := hle.mp (by change _ ≤ peer.gboxMaxecmsend.toNat; omega)
      refine ⟨hlimited, ?_⟩
      rw [← hlen hlimited]
      unfold Fits
      split_ifs with hzero
      · omega
      · have hne : out.nbMatchingCrds ≠ 0 := by
          intro hnb0
          rw [hnb0] at hcount
          change er.ecmlen + 28 + 3 * _ = er.ecmlen + 28 + 3 * 0 at hcount
          omega
        have hfooter := (ecmFooter_isSome (by decide)).mp ((gboxSendEcm_of_ready hready hsearch).mp hsome hne)
        refine ⟨hfooter.1, ?_⟩
        have := hfooter.2
        change er.ecmlen + 28 + 3 * out.nbMatchingCrds.toNat + (er.gboxEcmDist.toNat + 1) + 14 ≤ _ at this
        omega
    · intro h
      obtain ⟨hlimited, hfits⟩ := h hready
      rw [← hlen hlimited] at hfits
      have hbound : (Selection.all (search loc peer now er) cards).sent.length ≤ peer.gboxMaxecmsend.toNat :=
        hle.mpr hlimited
      obtain ⟨buf, cards', out, -, hsearch, hw⟩ := searchCards_of_fit (fits_cards hfits)
      have hnb : out.nbMatchingCrds.toNat = (Selection.all (search loc peer now er) cards).sent.length := by
        rw [hw.nb, BitVec.toNat_ofNat, Nat.mod_eq_of_lt (by omega)]
      refine ⟨fun _ => ⟨cards', out, _, hsearch, by omega, by rw [hnb]; exact hw.len, hnb.symm, all_subperm,
        hw.holds⟩, (gboxSendEcm_of_ready hready hsearch).mpr fun hne => ?_⟩
      refine (ecmFooter_isSome (by decide)).mpr ?_
      have hpos : (Selection.all (search loc peer now er) cards).sent.length ≠ 0 := by
        intro hzero
        rw [hzero] at hnb
        exact hne (BitVec.eq_of_toNat_eq hnb)
      rw [Fits, if_neg hpos, ← hnb] at hfits
      exact hfits
  · exact iff_of_true ⟨fun h => absurd h hready, gboxSendEcm_of_not_ready hready⟩ fun h => absurd h hready

end Limits

section Examples

/-- The local gbox and a peer that takes `maxecmsend` cards. -/
def LocalGbox.plain : LocalGbox := ⟨0x2222, 0x22222222, 0x2A, 0x61, 0x30, Vector.replicate 7 0⟩

def GboxPeer.taking (maxecmsend : Byte) : GboxPeer :=
  ⟨0x1111, 0x11111111, Vector.replicate 7 0, 1, true, false, true, maxecmsend, false⟩

/-- A new request of the local gbox for service 1234 with an ECM of `ecmlen` bytes. -/
def EcmRequest.viaccess (ecmlen : ℕ) : EcmRequest :=
  ⟨fun i => if i = 1 then BitVec.ofNat 8 ((ecmlen - 3) / 256) else BitVec.ofNat 8 (ecmlen - 3), ecmlen,
    0x100, 0x1234, 0x0500, 0x021700, .newReq, none, 0, 0, 0, 0⟩

/-- A card of the peer; the last CW for the service came at `lastCw`. -/
def GboxCard.viaccess (slot : Byte) (lastCw : Option ℤ) : GboxCard :=
  ⟨⟨0x1111, slot⟩, 0x05021700, 1, 2, .gbox, [],
    lastCw.elim [] (fun t => [⟨⟨0x1234, 0x021700⟩, t⟩]), 0, 0, some 0x1111⟩

/-- Of a card that is not checked yet and a good one two hours old both are taken, although the limit is
one; and an ECM of 1000 bytes does not fit. -/
theorem two_cards_for_limit_one :
    ¬ SendsWell .plain (.taking 1) 10000 [.viaccess 1 none, .viaccess 2 (some 2800)] (.viaccess 100) ∧
      ¬ SendsWell .plain (.taking 1) 10000 [.viaccess 1 none] (.viaccess 1000) := by
  constructor
  · intro h
    obtain ⟨cards', out, sent, hsearch, hnb, -⟩ := h.1 ⟨by decide, rfl, by decide, rfl⟩
    have htwo : (searchCards .plain (.taking 1) 10000 [.viaccess 1 none, .viaccess 2 (some 2800)]
        (.viaccess 100)).map (fun r => r.2.nbMatchingCrds) = some 2 := by decide +kernel
    rw [hsearch, Option.map_some] at htwo
    rw [Option.some.inj htwo] at hnb
    exact absurd hnb (by decide)
  · intro h
    obtain ⟨cards', out, sent, hsearch, -⟩ := h.1 ⟨by decide, rfl, by decide, rfl⟩
    rw [searchCards, ecmBuffer_none (by decide)] at hsearch
    cases hsearch

/-- With the good card in front the limit holds. -/
theorem one_card_for_limit_one :
    SendsWell .plain (.taking 1) 10000 [.viaccess 2 (some 2800), .viaccess 1 none] (.viaccess 100) :=
  sendsWell_iff.mpr fun _ => by decide +kernel

end Examples

end NCam.Gbox
