import NCam.Gbox.HelloReceive

/-! What a peer knows of the cards of another gbox after a hello. -/
namespace NCam.Gbox

open NCam.Util

section Add

variable {ignored : BitVec 16 → Bool} {cards : List GboxCard} {o : Offer} {x : GboxCard} {k : CardKey} {d : Byte}

/-- For other cards than those of a CCcam, the keys are compared. -/
theorem compared_iff (htype : o.type ≠ .cccam) : o.compared x = true ↔ x.key = o.key := by
  constructor
  · intro h
    unfold Offer.compared at h
    simp only [htype, decide_false, Bool.and_false, Bool.or_false, Bool.and_eq_true, decide_eq_true_eq] at h
    obtain ⟨⟨⟨hcaprovid, hpeer⟩, hslot⟩, -⟩ := h
    unfold GboxCard.key Offer.key
    rw [hcaprovid, hpeer, hslot]
  · exact compared_of_key

/-- An offer is not added, or it is after a card with its key that is farther was removed. -/
private theorem gboxAddCard_cases (htype : o.type ≠ .cccam) :
    (gboxAddCard ignored cards o = cards ∧
      (o.admitted = true → ∃ x ∈ cards, x.key = o.key ∧ x.dist ≤ o.distance)) ∨
    ∃ rest, gboxAddCard ignored cards o = (if ignored o.idPeer then rest else rest ++ [o.card]) ∧
      o.admitted = true ∧ (rest = cards ∨
        ∃ m ∈ cards, m.key = o.key ∧ o.distance < m.dist ∧ rest = cards.erase m) := by
  unfold gboxAddCard
  cases hadmitted : o.admitted with
  | false => exact .inl ⟨rfl, fun h => absurd h Bool.false_ne_true⟩
  | true =>
    rw [if_neg (by simp)]
    have happend : ∀ rest, (if (true && !ignored o.idPeer) = true then rest ++ [o.card] else rest) =
        if ignored o.idPeer then rest else rest ++ [o.card] := by
      intro rest
      cases ignored o.idPeer <;> rfl
    unfold checkCardProperties
    by_cases hlocal : o.distance = 0
    · rw [if_pos hlocal]
      exact .inr ⟨cards, happend cards, rfl, .inl rfl⟩
    · rw [if_neg hlocal]
      cases hfind : cards.find? o.compared with
      | none => exact .inr ⟨cards, happend cards, rfl, .inl rfl⟩
      | some m =>
        have hkey : m.key = o.key := (compared_iff htype).mp (List.find?_some hfind)
        have hmem := List.mem_of_find?_eq_some hfind
        dsimp only
        by_cases hlt : o.distance < m.dist
        · rw [if_pos hlt, eraseP_eq_erase hfind]
          exact .inr ⟨cards.erase m, happend _, rfl, .inr ⟨m, hmem, hkey, hlt, rfl⟩⟩
        · rw [if_neg hlt]
          exact .inl ⟨rfl, fun _ => ⟨m, hmem, hkey, BitVec.not_lt.mp hlt⟩⟩

/-- A card of the new list was there before or is the offered one. -/
private theorem mem_gboxAddCard (htype : o.type ≠ .cccam) (h : x ∈ gboxAddCard ignored cards o) :
    x ∈ cards ∨ x = o.card ∧ o.admitted = true ∧ ignored o.idPeer = false := by
  rcases @gboxAddCard_cases ignored cards o htype with ⟨hsame, -⟩ | ⟨rest, hnew, hadmitted, hrest⟩
  · rw [hsame] at h
    exact .inl h
  · have hsub : ∀ y ∈ rest, y ∈ cards := by
      rcases hrest with rfl | ⟨m, -, -, -, rfl⟩
      · exact fun y hy => hy
      · exact fun y hy => List.mem_of_mem_erase hy
    rw [hnew] at h
    cases hignored : ignored o.idPeer with
    | true =>
      rw [hignored, if_pos rfl] at h
      exact .inl (hsub x h)
    | false =>
      rw [hignored, if_neg Bool.false_ne_true] at h
      rcases List.mem_append.mp h with h | h
      · exact .inl (hsub x h)
      · exact .inr ⟨List.mem_singleton.mp h, hadmitted, rfl⟩

/-- A card with the key `k` that is at most `d` hops away. -/
def Reaches (cards : List GboxCard) (k : CardKey) (d : Byte) : Prop := ∃ x ∈ cards, x.key = k ∧ x.dist ≤ d

/-- An offer that is not ignored leaves its key within reach. -/
private theorem reaches_gboxAddCard (htype : o.type ≠ .cccam) (hadmitted : o.admitted = true)
    (hignored : ignored o.idPeer = false) : Reaches (gboxAddCard ignored cards o) o.key o.distance := by
  rcases @gboxAddCard_cases ignored cards o htype with ⟨hsame, hfound⟩ | ⟨rest, hnew, -, -⟩
  · rw [hsame]
    exact hfound hadmitted
  · rw [hnew, hignored, if_neg Bool.false_ne_true]
    exact ⟨o.card, List.mem_append_right _ (List.mem_singleton.mpr rfl), rfl, BitVec.le_refl _⟩

/-- A key within reach stays there unless its peer is ignored. -/
private theorem Reaches.gboxAddCard (htype : o.type ≠ .cccam) (hignored : ignored k.peer = false)
    (h : Reaches cards k d) : Reaches (gboxAddCard ignored cards o) k d := by
  obtain ⟨x, hx, hkey, hdist⟩ := h
  rcases @gboxAddCard_cases ignored cards o htype with ⟨hsame, -⟩ | ⟨rest, hnew, -, rfl | ⟨m, -, hmkey, hlt, rfl⟩⟩
  · rw [hsame]
    exact ⟨x, hx, hkey, hdist⟩
  · rw [hnew]
    split_ifs
    · exact ⟨x, hx, hkey, hdist⟩
    · exact ⟨x, List.mem_append_left _ hx, hkey, hdist⟩
  · rw [hnew]
    by_cases hxm : x = m
    · -- the removed card makes room for a nearer one of the same peer
      have hokey : o.key = k := by rw [← hmkey, ← hxm, hkey]
      have hpeer : o.idPeer = k.peer := congrArg CardKey.peer hokey
      rw [hpeer, hignored, if_neg Bool.false_ne_true]
      have hle : o.distance ≤ d := by
        rw [hxm] at hdist
        exact BitVec.le_trans (BitVec.le_of_lt hlt) hdist
      exact ⟨o.card, List.mem_append_right _ (List.mem_singleton.mpr rfl), hokey, hle⟩
    · have hkept : x ∈ cards.erase m := (List.mem_erase_of_ne hxm).mpr hx
      split_ifs
      · exact ⟨x, hkept, hkey, hdist⟩
      · exact ⟨x, List.mem_append_left _ hkept, hkey, hdist⟩

/-- An offer with a new key is added. -/
private theorem gboxAddCard_new (htype : o.type ≠ .cccam) (hnew : ∀ x ∈ cards, x.key ≠ o.key) :
    gboxAddCard ignored cards o =
      if o.admitted && !ignored o.idPeer then cards ++ [o.card] else cards := by
  have hfind : cards.find? o.compared = none := by
    rw [List.find?_eq_none]
    intro x hx hcompared
    exact hnew x hx ((compared_iff htype).mp hcompared)
  have hpass : checkCardProperties cards o = (cards, true) := by
    unfold checkCardProperties
    rw [hfind]
    split_ifs <;> rfl
  unfold gboxAddCard
  rw [hpass]
  cases o.admitted <;> cases ignored o.idPeer <;> rfl

end Add

/-- The cards that the receiver takes: those of the filter, but for cards that `gbox_add_card` does not admit
and those of ignored peers. -/
def HelloFilter.takes (filter : HelloFilter) (peerId : BitVec 16) (c : SentCard) : Bool :=
  filter.accepts c && ((c.offer peerId).admitted && !filter.ignored c.1.id.peer)

def SentCard.key (c : SentCard) : CardKey := ⟨c.1.caprovid, c.1.id.peer, calcSlot c.1.id.slot⟩

/-- The lists before and after a hello. Of cards with one key the nearest one stays; where no two of them come
together, the list gets all cards that were taken and no others. -/
structure Exchanged (filter : HelloFilter) (s t : HelloState) (sent : List SentCard) : Prop where
  taken : ∀ x ∈ t.cards, x.originPeer = some s.peer.id →
    ∃ c ∈ sent, filter.takes s.peer.id c = true ∧ x = (c.offer s.peer.id).card
  others : ∀ x ∈ t.cards, x.originPeer ≠ some s.peer.id → x ∈ s.cards
  reached : ∀ c ∈ sent, filter.takes s.peer.id c = true → Reaches t.cards c.key (c.1.dist + 1)
  exact : ((sent.filter (filter.takes s.peer.id)).map SentCard.key).Nodup →
    (∀ x ∈ s.cards, x.originPeer ≠ some s.peer.id → ∀ c ∈ sent, filter.accepts c = true → x.key ≠ c.key) →
    t.cards = (s.cards.filter fun x => x.originPeer ≠ some s.peer.id) ++
      (sent.filter (filter.takes s.peer.id)).map fun c => (c.offer s.peer.id).card
  total : t.peer.totalCards.toNat = sent.length

section Fold

variable {filter : HelloFilter} {peerId : BitVec 16} {cards : List GboxCard} {l : List SentCard} {c : SentCard}
  {x : GboxCard} {k : CardKey} {d : Byte}

private theorem not_cccam : (c.offer peerId).type ≠ .cccam := by
  intro h
  cases h

private theorem mem_foldl_receive (h : x ∈ l.foldl (filter.receive peerId) cards) :
    x ∈ cards ∨ ∃ c ∈ l, filter.takes peerId c = true ∧ x = (c.offer peerId).card := by
  induction l generalizing cards with
  | nil => exact .inl h
  | cons c l ih =>
    rcases ih h with h | ⟨c', hc', htakes, hx⟩
    · unfold HelloFilter.receive at h
      split_ifs at h with haccepts
      · rcases mem_gboxAddCard not_cccam h with h | ⟨hx, hadmitted, hignored⟩
        · exact .inl h
        · have htakes : filter.takes peerId c = true := by
            change filter.ignored c.1.id.peer = false at hignored
            unfold HelloFilter.takes
            rw [haccepts, hadmitted, hignored]
            rfl
          exact .inr ⟨c, List.mem_cons_self, htakes, hx⟩
      · exact .inl h
    · exact .inr ⟨c', List.mem_cons_of_mem _ hc', htakes, hx⟩

private theorem takes_iff : filter.takes peerId c = true ↔ filter.accepts c = true ∧
    (c.offer peerId).admitted = true ∧ filter.ignored c.1.id.peer = false := by
  unfold HelloFilter.takes
  rw [Bool.and_eq_true, Bool.and_eq_true, Bool.not_eq_true']

private theorem Reaches.foldl_receive (hignored : filter.ignored k.peer = false) (h : Reaches cards k d) :
    Reaches (l.foldl (filter.receive peerId) cards) k d := by
  induction l generalizing cards with
  | nil => exact h
  | cons c l ih =>
    apply ih
    unfold HelloFilter.receive
    split_ifs
    · exact h.gboxAddCard not_cccam hignored
    · exact h

private theorem reaches_foldl_receive (hc : c ∈ l) (htakes : filter.takes peerId c = true) :
    Reaches (l.foldl (filter.receive peerId) cards) c.key (c.1.dist + 1) := by
  obtain ⟨haccepts, hadmitted, hignored⟩ := takes_iff.mp htakes
  induction l generalizing cards with
  | nil => cases hc
  | cons c' l ih =>
    rcases List.mem_cons.mp hc with rfl | hc
    · have hfirst : Reaches (filter.receive peerId cards c) c.key (c.1.dist + 1) := by
        unfold HelloFilter.receive
        rw [if_pos haccepts]
        exact reaches_gboxAddCard not_cccam hadmitted hignored
      exact @Reaches.foldl_receive filter peerId _ l _ _ hignored hfirst
    · exact ih hc

/-- Cards with one key are taken or not alike. -/
private theorem takes_of_key {c' : SentCard} (hkey : c.key = c'.key) (htakes : filter.takes peerId c = true)
    (haccepts : filter.accepts c' = true) : filter.takes peerId c' = true := by
  obtain ⟨-, hadmitted, hignored⟩ := takes_iff.mp htakes
  obtain ⟨hcaprovid, hpeer, -⟩ := CardKey.mk.inj hkey
  refine takes_iff.mpr ⟨haccepts, ?_, ?_⟩
  · have hoffer : (c'.offer peerId).caprovid = (c.offer peerId).caprovid := hcaprovid.symm
    unfold Offer.admitted at hadmitted ⊢
    rw [hoffer]
    exact hadmitted
  · rw [← hpeer]
    exact hignored

/-- Cards with new keys are all added. -/
private theorem foldl_receive_new (hnodup : ((l.filter (filter.takes peerId)).map SentCard.key).Nodup)
    (hnew : ∀ x ∈ cards, ∀ c ∈ l, filter.accepts c = true → x.key ≠ c.key) :
    l.foldl (filter.receive peerId) cards =
      cards ++ (l.filter (filter.takes peerId)).map fun c => (c.offer peerId).card := by
  induction l generalizing cards with
  | nil => simp
  | cons c l ih =>
    have hrest : ∀ x ∈ cards, ∀ c' ∈ l, filter.accepts c' = true → x.key ≠ c'.key :=
      fun x hx c' hc' => hnew x hx c' (List.mem_cons_of_mem _ hc')
    have hreceive : filter.accepts c = true → filter.receive peerId cards c =
        if (c.offer peerId).admitted && !filter.ignored c.1.id.peer then cards ++ [(c.offer peerId).card]
        else cards := by
      intro haccepts
      unfold HelloFilter.receive
      rw [if_pos haccepts]
      exact gboxAddCard_new not_cccam fun x hx => hnew x hx c List.mem_cons_self haccepts
    rw [List.foldl_cons]
    by_cases htakes : filter.takes peerId c = true
    · obtain ⟨haccepts, hadmitted, hignored⟩ := takes_iff.mp htakes
      rw [List.filter_cons_of_pos htakes, List.map_cons] at hnodup ⊢
      obtain ⟨hfirst, hnodup⟩ := List.nodup_cons.mp hnodup
      rw [hreceive haccepts, hadmitted, hignored, if_pos (by decide), ih hnodup, List.append_assoc]
      · rfl
      · intro x hx c' hc' haccepts' hkey
        rcases List.mem_append.mp hx with hx | hx
        · exact hrest x hx c' hc' haccepts' hkey
        · rw [List.mem_singleton.mp hx] at hkey
          have hsame : c.key = c'.key := hkey
          rw [hsame] at hfirst
          exact hfirst (List.mem_map_of_mem
            (List.mem_filter.mpr ⟨hc', takes_of_key hsame htakes haccepts'⟩))
    · rw [List.filter_cons_of_neg htakes] at hnodup ⊢
      have hsame : filter.receive peerId cards c = cards := by
        by_cases haccepts : filter.accepts c = true
        · rw [hreceive haccepts, if_neg]
          intro h
          refine htakes (takes_iff.mpr ⟨haccepts, ?_⟩)
          simpa using h
        · unfold HelloFilter.receive
          rw [if_neg haccepts]
      rw [hsame]
      exact ih hnodup hrest

end Fold

/-- The packets of a hello fit into the buffers, before and after their compression. A peer that expects the
first one has afterwards the cards that were selected and that it takes, with lowered levels and one more hop. -/
theorem hello_exchanged (lzo : Lzo) (snd : HelloSender) (stat : HelloStat) (filter : HelloFilter)
    (stale : ℕ → ℕ → Byte) (s : HelloState) (hmax : (snd.selected stat).length ≤ MAX_GBOX_CARDS.toNat)
    (hdist : ∀ c ∈ snd.selected stat, c.1.dist.toNat ≤ 14) (hnext : s.peer.nextHello = 0) :
    (∀ packet ∈ snd.gboxSendHello stat, packet.length ≤ 1024 ∧ (gboxCompress lzo packet).length ≤ 1024) ∧
      ∃ t, receiveHello lzo filter stale s (snd.gboxSendHello stat) = some t ∧
        Exchanged filter s t (snd.selected stat) := by
  have hmax' : (snd.selected stat).length ≤ 1024 := hmax
  have hemitted := snd.emitted_gboxSendHello stat hmax'
  constructor
  · intro packet hpacket
    have hlen := length_of_emitted hemitted packet hpacket
    exact ⟨by omega, length_gboxCompress hlen⟩
  · obtain ⟨t, hreceived, htotal, hcards⟩ := @receive_emitted lzo snd filter stat s 0 _ _ stale hemitted
      (by omega) hnext fun c hc => ⟨hdist c hc, selected_level c hc⟩
    have hbefore : listBefore 0 s = s.cards.filter fun x => x.originPeer ≠ some s.peer.id := by
      unfold listBefore
      rw [if_pos rfl, gboxDeleteCards_eq]
      simp [DeleteType.found]
    rw [hbefore] at hcards
    refine ⟨t, hreceived, ?_, ?_, ?_, ?_, ?_⟩
    · intro x hx horigin
      rw [hcards] at hx
      rcases mem_foldl_receive hx with hx | hx
      · simp [horigin] at hx
      · exact hx
    · intro x hx horigin
      rw [hcards] at hx
      rcases mem_foldl_receive hx with hx | ⟨c, -, -, rfl⟩
      · exact (List.mem_filter.mp hx).1
      · exact absurd rfl horigin
    · intro c hc htakes
      rw [hcards]
      exact reaches_foldl_receive hc htakes
    · intro hnodup hnew
      rw [hcards]
      refine foldl_receive_new hnodup fun x hx => ?_
      obtain ⟨hx, horigin⟩ := List.mem_filter.mp hx
      exact hnew x hx (of_decide_eq_true horigin)
    · have hzero : totalBefore 0 s = 0 := rfl
      rw [htotal, hzero, BitVec.toNat_add, BitVec.toNat_ofNat]
      change (0 + (snd.selected stat).length % 65536) % 65536 = _
      omega

/-- A Viaccess card of the peer `3333`, one hop away. -/
private def remoteCard (slot : Byte) : GboxCard :=
  (⟨0x3333, 0x05021700, slot, 2, 1, .gbox, some 0x3333⟩ : Offer).card

private def senderOf (slots : List Byte) : HelloSender where
  loc := ⟨0x1111, 0, 0x25, 0x61, 0, Vector.replicate 7 0⟩
  hostname := [0x61]
  cards := slots.map remoteCard
  peerId := 0x2222
  peerPassword := 0
  ctab := fun _ => true
  cccmaxhops := 10
  gboxReshare := 2
  gboxCccamReshare := -1
  cccGbxReshareIdent := fun _ _ => false
  hostname_le := by decide
  reshare_le := by decide
  cccamReshare_le := by decide
  lvl_le := by
    intro c hc _
    obtain ⟨slot, -, rfl⟩ := List.mem_map.mp hc
    change 2 ≤ 15
    omega

/-- Nothing is compressed. -/
private def stored : Lzo := ⟨id, id, fun _ => rfl, fun bytes => by simp only [id_eq]; omega⟩

private def newPeer : HelloState :=
  ⟨⟨0x1111, false, 0, none, List.replicate 7 0, false, 0, 0, 0, 0⟩, []⟩

private def manySlots : List Byte := (List.range 80).map (BitVec.ofNat 8)

/-- Eighty cards in two packets. -/
theorem hello_exchanged_two_packets :
    ((senderOf manySlots).selected .helloS).length = 80 ∧
    (∀ packet ∈ (senderOf manySlots).gboxSendHello .helloS,
      packet.length ≤ 1024 ∧ (gboxCompress stored packet).length ≤ 1024) ∧
      ∃ t, receiveHello stored ⟨fun _ => true, 2, fun _ => false⟩ (fun _ _ => 0) newPeer
          ((senderOf manySlots).gboxSendHello .helloS) = some t ∧
        Exchanged ⟨fun _ => true, 2, fun _ => false⟩ newPeer t ((senderOf manySlots).selected .helloS) := by
  have hlen : ((senderOf manySlots).selected .helloS).length = 80 := by decide +kernel
  have hmax : ((senderOf manySlots).selected .helloS).length ≤ MAX_GBOX_CARDS.toNat := by
    rw [hlen]
    decide
  have hdist : ∀ c ∈ (senderOf manySlots).selected .helloS, c.1.dist.toNat ≤ 14 := by decide +kernel
  exact ⟨hlen, hello_exchanged stored (senderOf manySlots) .helloS ⟨fun _ => true, 2, fun _ => false⟩
    (fun _ _ => 0) newPeer hmax hdist rfl⟩

/-- All cards of the caid and distance filter are in the list, and no others of the peer. -/
def ExchangedAll (filter : HelloFilter) (s t : HelloState) (sent : List SentCard) : Prop :=
  ∀ x, (x ∈ t.cards ∧ x.originPeer = some s.peer.id) ↔
    ∃ c ∈ sent, filter.accepts c = true ∧ x = (c.offer s.peer.id).card

/-- The receiver ignores the peer `3333`, whose card is sent. -/
theorem ignored_card_missing :
    ∃ t, receiveHello stored ⟨fun _ => true, 2, fun peer => peer = 0x3333⟩ (fun _ _ => 0) newPeer
      ((senderOf [1]).gboxSendHello .helloS) = some t ∧
    ¬ ExchangedAll ⟨fun _ => true, 2, fun peer => peer = 0x3333⟩ newPeer t ((senderOf [1]).selected .helloS) := by
  have hselected : (senderOf [1]).selected .helloS = [(remoteCard 1, 1)] := rfl
  have hemitted := (senderOf [1]).emitted_gboxSendHello .helloS (by decide)
  have hfits : ∀ c ∈ (senderOf [1]).selected .helloS, c.Fits := by
    rw [hselected]
    intro c hc
    rw [List.mem_singleton.mp hc]
    exact ⟨by decide, by decide⟩
  obtain ⟨t, hreceived, -, hcards⟩ :=
    @receive_emitted stored _ ⟨fun _ => true, 2, fun peer => peer = 0x3333⟩ .helloS newPeer 0 _ _
      (fun _ _ => 0) hemitted (by decide) rfl hfits
  rw [hselected] at hcards
  have hnil : t.cards = [] := hcards
  refine ⟨t, hreceived, fun h => ?_⟩
  have hin := ((h (SentCard.offer 0x1111 (remoteCard 1, 1)).card).mpr
    ⟨(remoteCard 1, 1), by rw [hselected]; exact List.mem_singleton.mpr rfl, by decide, rfl⟩).1
  rw [hnil] at hin
  cases hin

end NCam.Gbox
