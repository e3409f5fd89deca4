import NCam.Gbox.Hello

/-! What a peer reads from the packets of a hello. -/
namespace NCam.Gbox

open NCam.Lib.Memory NCam.Util

/-- LZO loses nothing, and bytes that cannot be compressed grow by a 16th of them and 67 more. -/
structure Lzo where
  compress : List Byte → List Byte
  decompress : List Byte → List Byte
  lossless : ∀ bytes, decompress (compress bytes) = bytes
  length_le : ∀ bytes, (compress bytes).length ≤ bytes.length + bytes.length / 16 + 67

/-- `gbox_compress`. -/
def gboxCompress (lzo : Lzo) (packet : List Byte) : List Byte := packet.take 12 ++ lzo.compress (packet.drop 12)

section Receive

variable (lzo : Lzo) (filter : HelloFilter)

/-- A packet arrives in a receive buffer with other bytes behind it. -/
def receivePacket (stale : ℕ → Byte) (s : HelloState) (packet : List Byte) : Option HelloState :=
  let wire := gboxCompress lzo packet
  (gboxCmdHelloRcvd filter s (put stale 0 wire) wire.length (lzo.decompress (wire.drop 12))).map Prod.fst

/-- The packets arrive in their order. -/
def receiveHello (stale : ℕ → ℕ → Byte) (s : HelloState) (packets : List (List Byte)) : Option HelloState :=
  packets.zipIdx.foldlM (fun s p => receivePacket lzo filter (stale p.2) s p.1) s

end Receive

/-- The card as the peer is told of it. -/
def SentCard.offer (peerId : BitVec 16) (c : SentCard) : Offer where
  idPeer := c.1.id.peer
  caprovid := c.1.caprovid
  slot := calcSlot c.1.id.slot
  level := c.2
  distance := c.1.dist + 1
  type := .gbox
  originPeer := some peerId

/-- The filter of `read_cards_from_hello`. -/
def HelloFilter.accepts (filter : HelloFilter) (c : SentCard) : Bool :=
  filter.ctab (gboxGetCaid c.1.caprovid) && c.1.dist + 1 ≤ filter.gboxMaxdist

/-- The list after a card was received. -/
def HelloFilter.receive (filter : HelloFilter) (peerId : BitVec 16) (cards : List GboxCard) (c : SentCard) :
    List GboxCard :=
  if filter.accepts c then gboxAddCard filter.ignored cards (c.offer peerId) else cards

/-- Level and distance have four bits each. -/
def SentCard.Fits (c : SentCard) : Prop := c.1.dist.toNat ≤ 14 ∧ c.2.toNat ≤ 15

section Card

variable {c : SentCard} {filter : HelloFilter} {peerId : BitVec 16} {data : ℕ → Byte} {ptr : ℕ}
  {cards : List GboxCard}

@[simp] private theorem length_bytes : c.bytes.length = 9 := rfl

private theorem toNat_levelDist (h : c.Fits) :
    ((c.2 <<< 4) + c.1.dist + 1 : Byte).toNat = 16 * c.2.toNat + (c.1.dist.toNat + 1) := by
  obtain ⟨hdist, hlevel⟩ := h
  have hone : (1 : Byte).toNat = 1 := rfl
  rw [BitVec.toNat_add, BitVec.toNat_add, BitVec.toNat_shiftLeft, Nat.shiftLeft_eq, hone]
  omega

/-- The distance comes out of the lower four bits. -/
private theorem dist_levelDist (h : c.Fits) : ((c.2 <<< 4) + c.1.dist + 1 : Byte) &&& 0xF = c.1.dist + 1 := by
  have hdist := h.1
  have hmask : (0xF : Byte).toNat = 2 ^ 4 - 1 := rfl
  have hone : (1 : Byte).toNat = 1 := rfl
  apply BitVec.eq_of_toNat_eq
  rw [BitVec.toNat_and, toNat_levelDist h, hmask, Nat.and_two_pow_sub_one_eq_mod, BitVec.toNat_add, hone]
  omega

/-- The level comes out of the upper four bits. -/
private theorem level_levelDist (h : c.Fits) : ((c.2 <<< 4) + c.1.dist + 1 : Byte) >>> 4 = c.2 := by
  have hdist := h.1
  apply BitVec.eq_of_toNat_eq
  rw [BitVec.toNat_ushiftRight, toNat_levelDist h, Nat.shiftRight_eq_div_pow]
  omega

private theorem holds_bytes (h : Holds data ptr c.bytes) : b2i 4 data ptr = c.1.caprovid ∧ data (ptr + 4) = 1 ∧
    data (ptr + 5) = calcSlot c.1.id.slot ∧ data (ptr + 6) = (c.2 <<< 4) + c.1.dist + 1 ∧
    (b2i 2 data (ptr + 7)).setWidth 16 = c.1.id.peer := by
  obtain ⟨hfront, hpeer⟩ := holds_append.mp h
  obtain ⟨hcaprovid, hmid⟩ := holds_append.mp hfront
  rw [length_i2b_four] at hmid
  obtain ⟨hcount, hmid⟩ := holds_cons.mp hmid
  obtain ⟨hslot, hmid⟩ := holds_cons.mp hmid
  obtain ⟨hlevelDist, -⟩ := holds_cons.mp hmid
  refine ⟨b2i_four hcaprovid, hcount, hslot, hlevelDist, ?_⟩
  have hplace : ptr + (i2b 4 c.1.caprovid ++ [1, calcSlot c.1.id.slot, (c.2 <<< 4) + c.1.dist + 1]).length =
      ptr + 7 := rfl
  rw [hplace] at hpeer
  rw [b2i_two hpeer]
  simp

private theorem readCard_bytes (hc : c.Fits) (h : Holds data ptr c.bytes) (hroom : ptr + 9 ≤ RECEIVE_BUFFER_SIZE)
    (hctab : filter.ctab (gboxGetCaid c.1.caprovid) = true) :
    readCard filter peerId data c.1.caprovid (ptr + 5) cards = some (filter.receive peerId cards c) := by
  obtain ⟨-, -, hslot, hlevelDist, hpeer⟩ := holds_bytes h
  unfold readCard HelloFilter.receive HelloFilter.accepts
  rw [getWithin_of_lt (by omega), getWithin_of_lt (by omega), sliceWithin_of_le (by omega), hctab]
  simp only [Option.bind_eq_bind, Option.bind_some, hlevelDist, hslot, hpeer, dist_levelDist hc,
    level_levelDist hc, Nat.add_assoc, Nat.reduceAdd, Bool.true_and, decide_eq_true_eq]
  split_ifs <;> rfl

/-- The cards are read if the end of the loop lies behind the first byte of the last one. -/
private theorem readCardsFromHello_bytes {l : List SentCard} {len : ℤ} {count : BitVec 16}
    (hfits : ∀ c ∈ l, c.Fits) (h : Holds data ptr (l.flatMap SentCard.bytes))
    (hroom : ptr + 9 * l.length ≤ RECEIVE_BUFFER_SIZE) (hle : len ≤ ptr + 9 * l.length)
    (hlt : (ptr + 9 * l.length : ℤ) < len + 9) :
    readCardsFromHello filter peerId data ptr len cards count =
      some (l.foldl (filter.receive peerId) cards, count + BitVec.ofNat 16 l.length) := by
  induction l generalizing ptr cards count with
  | nil =>
    rw [List.length_nil] at hle
    rw [readCardsFromHello, if_neg (by omega)]
    simp
  | cons c l ih =>
    rw [List.length_cons] at hroom hle hlt
    rw [List.flatMap_cons] at h
    obtain ⟨hc, hl⟩ := holds_append.mp h
    rw [length_bytes] at hl
    obtain ⟨hcaprovid, hcount, -⟩ := holds_bytes hc
    have hone : (data (ptr + 4)).toNat = 1 := by
      rw [hcount]
      rfl
    have hsum : count + BitVec.ofNat 16 1 + BitVec.ofNat 16 l.length = count + BitVec.ofNat 16 (l.length + 1) := by
      rw [BitVec.add_assoc, ← BitVec.ofNat_add, Nat.add_comm 1]
    have hrest := @ih (ptr + 9) (filter.receive peerId cards c) (count + BitVec.ofNat 16 1)
      (fun x hx => hfits x (List.mem_cons_of_mem _ hx)) hl (by omega) (by push_cast at hle ⊢; omega)
      (by push_cast at hlt ⊢; omega)
    rw [readCardsFromHello, if_pos (by push_cast at hlt; omega), sliceWithin_of_le (by omega)]
    dsimp only [Option.bind_eq_bind, Option.bind_some]
    rw [hcaprovid, hone]
    by_cases hctab : filter.ctab (gboxGetCaid c.1.caprovid) = true
    · have hread := @readCard_bytes c filter peerId data ptr cards (hfits c List.mem_cons_self) hc (by omega) hctab
      have hgroup : readGroup filter peerId data c.1.caprovid (ptr + 5) 1 cards =
          some (filter.receive peerId cards c) := by
        unfold readGroup
        simp [List.range_one, hread]
      rw [if_pos hctab, hgroup, Option.bind_some]
      change readCardsFromHello filter peerId data (ptr + 9) len _ _ = _
      rw [hrest, hsum]
      rfl
    · have hskip : filter.receive peerId cards c = cards := by
        unfold HelloFilter.receive HelloFilter.accepts
        simp [hctab]
      rw [hskip] at hrest
      rw [if_neg hctab]
      change readCardsFromHello filter peerId data (ptr + 9) len _ _ = _
      rw [hrest, hsum, List.foldl_cons, hskip]
      rfl

end Card

section Packet

variable {lzo : Lzo} {snd : HelloSender} {filter : HelloFilter} {stat : HelloStat} {s : HelloState} {num : Byte}
  {i : ℕ} {l : List SentCard} {data : ℕ → Byte}

/-- The footer of the first packet. -/
private def footer (snd : HelloSender) : List Byte :=
  snd.loc.checkcode.toList ++ [snd.loc.gboxMyVers, snd.loc.gboxMyCpuApi] ++ snd.hostname ++
    [BitVec.ofNat 8 snd.hostname.length]

private theorem length_footer : (footer snd).length = snd.hostname.length + 10 := by
  simp [footer]
  omega

/-- The bytes in front of the cards. -/
private def front (snd : HelloSender) (stat : HelloStat) (num : Byte) : List Byte :=
  (gboxMessageHeader MSG_HELLO snd.peerPassword snd.loc.password).flatMap Prod.snd ++
    [if stat = .helloR then 1 else 0, num]

@[simp] private theorem length_front : (front snd stat num).length = 12 := rfl

private theorem length_sentCards : (l.flatMap SentCard.bytes).length = 9 * l.length := by
  rw [length_flatMap_of_width (w := 9) fun c => length_bytes]

private theorem packet_eq : snd.gboxSendHelloPacket stat num (l.flatMap SentCard.bytes) =
    front snd stat num ++ (l.flatMap SentCard.bytes ++ if num &&& 0x0F = 0 then footer snd else []) :=
  List.append_assoc _ _ _

private theorem length_packet : (snd.gboxSendHelloPacket stat num (l.flatMap SentCard.bytes)).length =
    12 + 9 * l.length + if num &&& 0x0F = 0 then snd.hostname.length + 10 else 0 := by
  rw [packet_eq, List.length_append, List.length_append, length_sentCards, length_front]
  split_ifs
  · rw [length_footer]
    omega
  · rfl

/-- A packet fits into the buffer of the sender. -/
private theorem length_packet_le (hl : l.length ≤ 74) :
    (snd.gboxSendHelloPacket stat num (l.flatMap SentCard.bytes)).length ≤ 816 := by
  have hhost := snd.hostname_le
  rw [length_packet]
  split_ifs <;> omega

theorem length_gboxCompress {packet : List Byte} (h : packet.length ≤ 816) :
    (gboxCompress lzo packet).length ≤ RECEIVE_BUFFER_SIZE := by
  have hgrow := lzo.length_le (packet.drop 12)
  unfold gboxCompress
  unfold RECEIVE_BUFFER_SIZE
  rw [List.length_append, List.length_take]
  rw [List.length_drop] at hgrow
  omega

/-- What the receiver finds in its buffer. -/
private theorem holds_received {packet : List Byte} (stale : ℕ → Byte) (hlo : 12 ≤ packet.length)
    (hhi : packet.length ≤ 816) :
    ∃ data, gboxDecompress (put stale 0 (gboxCompress lzo packet))
        (lzo.decompress ((gboxCompress lzo packet).drop 12)) = some (data, packet.length) ∧ Holds data 0 packet ∧
      Holds (put stale 0 (gboxCompress lzo packet)) 0 (packet.take 12) := by
  have htake : (packet.take 12).length = 12 := by
    rw [List.length_take]
    omega
  have hdrop : lzo.decompress ((gboxCompress lzo packet).drop 12) = packet.drop 12 := by
    unfold gboxCompress
    rw [List.drop_left' htake, lzo.lossless]
  have hlen : (packet.drop 12).length + 12 = packet.length := by
    rw [List.length_drop]
    omega
  have hfront : Holds (put stale 0 (gboxCompress lzo packet)) 0 (packet.take 12) :=
    (holds_append.mp holds_put).1
  refine ⟨put (put stale 0 (gboxCompress lzo packet)) 12 (packet.drop 12), ?_, ?_, hfront⟩
  · have hfit : 12 + (packet.drop 12).length ≤ RECEIVE_BUFFER_SIZE := by
      unfold RECEIVE_BUFFER_SIZE
      omega
    unfold gboxDecompress
    rw [hdrop, putWithin_of_le hfit, Option.map_some, hlen]
  · have hback : Holds (put (put stale 0 (gboxCompress lzo packet)) 12 (packet.drop 12)) 0
        (packet.take 12 ++ packet.drop 12) := by
      refine holds_append.mpr ⟨hfront.put (by omega), ?_⟩
      rw [htake]
      exact holds_put
    rw [List.take_append_drop] at hback
    exact hback

private theorem sliceFrom_of_le {o k : ℕ} {z : ℤ} (hz : z = o) (hfit : o + k ≤ RECEIVE_BUFFER_SIZE) :
    sliceFrom data z k = some (slice data o k) := by
  subst hz
  unfold sliceFrom
  rw [if_pos (Int.natCast_nonneg o), Int.toNat_natCast, sliceWithin_of_le hfit]

/-- The footer behind the position `o`. -/
private theorem readFooter_footer {o : ℕ} (peer : HelloPeer) (h : Holds data o (footer snd))
    (hfit : o + (footer snd).length ≤ RECEIVE_BUFFER_SIZE) :
    ∃ peer', readFooter data (o + (footer snd).length) peer = some (peer', snd.hostname.length + 9) ∧
      peer'.id = peer.id ∧ peer'.nextHello = peer.nextHello ∧ peer'.totalCards = 0 := by
  have hlen := @length_footer snd
  have hhost := snd.hostname_le
  rw [hlen] at hfit ⊢
  have hlast : data (o + (snd.hostname.length + 10) - 1) = BitVec.ofNat 8 snd.hostname.length := by
    have hbyte := (holds_append.mp h).2
    have hfront : (snd.loc.checkcode.toList ++ [snd.loc.gboxMyVers, snd.loc.gboxMyCpuApi] ++
        snd.hostname).length = snd.hostname.length + 9 := by
      simp
      omega
    rw [hfront] at hbyte
    exact (holds_cons.mp hbyte).1
  have hnat : (data (o + (snd.hostname.length + 10) - 1)).toNat = snd.hostname.length := by
    rw [hlast, BitVec.toNat_ofNat, Nat.mod_eq_of_lt (by omega)]
  have hfirst := @sliceFrom_of_le data (o + (snd.hostname.length + 10) - 1) 1
    ((o + (snd.hostname.length + 10) : ℕ) - 1 : ℤ) (by omega) (by omega)
  have hname := @sliceFrom_of_le data (o + 9) snd.hostname.length
    ((o + (snd.hostname.length + 10) : ℕ) - 1 - snd.hostname.length : ℤ) (by omega) (by omega)
  have hfooter := @sliceFrom_of_le data o 9
    ((o + (snd.hostname.length + 10) : ℕ) - (snd.hostname.length + 2 + 7 : ℕ) - 1 : ℤ) (by omega) (by omega)
  unfold readFooter
  have hhead : (slice data (o + (snd.hostname.length + 10) - 1) 1).headD 0 =
      data (o + (snd.hostname.length + 10) - 1) := rfl
  rw [hfirst, Option.map_some, hhead, hnat]
  dsimp only [Option.bind_eq_bind, Option.bind_some]
  rw [hname, Option.bind_some, hfooter]
  exact ⟨_, rfl, rfl, rfl, rfl⟩

/-- The list that the cards of packet `i` are added to. -/
def listBefore (i : ℕ) (s : HelloState) : List GboxCard :=
  if i = 0 then gboxDeleteCards s.cards (.fromPeer s.peer.id) else s.cards

/-- The number of cards in front of packet `i`. -/
def totalBefore (i : ℕ) (s : HelloState) : BitVec 16 := if i = 0 then 0 else s.peer.totalCards

private theorem ofNat_eq_zero_iff (hi : i < 16) : BitVec.ofNat 8 i = 0 ↔ i = 0 := by
  rw [← BitVec.toNat_inj, BitVec.toNat_ofNat, Nat.mod_eq_of_lt (by omega)]
  rfl

private theorem helloPacket_packet (hi : i < 16) (hnum : num &&& 0xF = BitVec.ofNat 8 i)
    (hnext : s.peer.nextHello = BitVec.ofNat 8 i) (hl : l.length ≤ 74) (hfits : ∀ c ∈ l, c.Fits)
    (h : Holds data 0 (snd.gboxSendHelloPacket stat num (l.flatMap SentCard.bytes))) :
    ∃ peer, helloPacket filter s data (snd.gboxSendHelloPacket stat num (l.flatMap SentCard.bytes)).length 12 =
        some (helloRead data peer (l.foldl (filter.receive s.peer.id) (listBefore i s))
          (BitVec.ofNat 16 l.length)) ∧
      peer.id = s.peer.id ∧ peer.nextHello = s.peer.nextHello ∧ peer.totalCards = totalBefore i s := by
  have hhost := snd.hostname_le
  rw [packet_eq] at h
  obtain ⟨hfront, hrest⟩ := holds_append.mp h
  obtain ⟨hcards, hfooter⟩ := holds_append.mp hrest
  rw [length_front, Nat.zero_add] at hcards hfooter
  rw [length_sentCards] at hfooter
  have h11 : data 11 = num := (holds_cons.mp (holds_cons.mp (holds_append.mp hfront).2).2).1
  have hroom : 12 + 9 * l.length ≤ RECEIVE_BUFFER_SIZE := by
    unfold RECEIVE_BUFFER_SIZE
    omega
  have hsum : (0 : BitVec 16) + BitVec.ofNat 16 l.length = BitVec.ofNat 16 l.length := BitVec.zero_add _
  unfold helloPacket helloFooter helloCards
  rw [h11, hnum, if_neg (not_not_intro hnext.symm), length_packet]
  by_cases hzero : i = 0
  · have hfirst : num &&& 0x0F = 0 := by
      rw [hzero] at hnum
      exact hnum
    have hofNat : BitVec.ofNat 8 i = 0 := (ofNat_eq_zero_iff hi).mpr hzero
    rw [if_pos hfirst] at hfooter
    obtain ⟨peer, hread, hid, hnextHello, htotal⟩ := readFooter_footer s.peer hfooter (by
      rw [length_footer]
      unfold RECEIVE_BUFFER_SIZE
      omega)
    rw [length_footer] at hread
    rw [if_pos hfirst, if_pos hofNat, if_pos hofNat, hread]
    dsimp only [Option.bind_eq_bind, Option.bind_some]
    rw [readCardsFromHello_bytes hfits hcards hroom (by omega) (by omega), Option.bind_some, hsum]
    unfold listBefore totalBefore
    rw [if_pos hzero, if_pos hzero]
    exact ⟨peer, rfl, hid, hnextHello, htotal⟩
  · have hlater : ¬ num &&& 0x0F = 0 := by
      rw [hnum, ofNat_eq_zero_iff hi]
      exact hzero
    have hofNat : ¬ BitVec.ofNat 8 i = 0 := fun h => hzero ((ofNat_eq_zero_iff hi).mp h)
    rw [if_neg hlater, if_neg hofNat, if_neg hofNat]
    dsimp only [Option.bind_eq_bind, Option.bind_some]
    rw [readCardsFromHello_bytes hfits hcards hroom (by omega) (by omega), Option.bind_some, hsum]
    unfold listBefore totalBefore
    rw [if_neg hzero, if_neg hzero]
    exact ⟨s.peer, rfl, rfl, rfl, rfl⟩

/-- What becomes of a packet that arrives in its place. -/
private theorem receivePacket_eq (stale : ℕ → Byte) (hi : i < 16) (hnum : num &&& 0xF = BitVec.ofNat 8 i)
    (hnext : s.peer.nextHello = BitVec.ofNat 8 i) (hl : l.length ≤ 74) (hfits : ∀ c ∈ l, c.Fits) :
    ∃ data peer, Holds data 0 (snd.gboxSendHelloPacket stat num (l.flatMap SentCard.bytes)) ∧
      receivePacket lzo filter stale s (snd.gboxSendHelloPacket stat num (l.flatMap SentCard.bytes)) =
        some (helloRead data peer (l.foldl (filter.receive s.peer.id) (listBefore i s))
          (BitVec.ofNat 16 l.length)).1 ∧
      peer.id = s.peer.id ∧ peer.nextHello = s.peer.nextHello ∧ peer.totalCards = totalBefore i s := by
  have hlo : 12 ≤ (snd.gboxSendHelloPacket stat num (l.flatMap SentCard.bytes)).length := by
    rw [length_packet]
    omega
  obtain ⟨data, hunpack, hholds, hfront⟩ := @holds_received lzo _ stale hlo (length_packet_le hl)
  have hcmd : b2i 2 (put stale 0 (gboxCompress lzo
      (snd.gboxSendHelloPacket stat num (l.flatMap SentCard.bytes)))) 0 ≠ MSG_HELLO1 := by
    rw [packet_eq, List.take_left' length_front] at hfront
    have hhead : Holds _ 0 (i2b 2 MSG_HELLO) :=
      (@holds_append _ _ _ _ (i2b 4 snd.peerPassword ++ i2b 4 snd.loc.password ++
        [if stat = .helloR then 1 else 0, num])).mp hfront |>.1
    rw [← packet_eq] at hhead
    rw [b2i_two hhead]
    decide
  obtain ⟨peer, hpacket, hpeer⟩ := helloPacket_packet hi hnum hnext hl hfits hholds
  refine ⟨data, peer, hholds, ?_, hpeer⟩
  unfold receivePacket gboxCmdHelloRcvd
  dsimp only
  rw [if_pos hcmd, hunpack]
  dsimp only [Option.bind_eq_bind, Option.bind_some]
  rw [hpacket]
  rfl

private theorem msb_ofNat (hl : l.length ≤ 74) : (BitVec.ofNat 16 l.length).msb = false := by
  rw [BitVec.msb_eq_false_iff_two_mul_lt, BitVec.toNat_ofNat, Nat.mod_eq_of_lt (by omega)]
  omega

/-- A packet that is not the last one. -/
private theorem receivePacket_more (stale : ℕ → Byte) (hi : i < 16) (hnext : s.peer.nextHello = BitVec.ofNat 8 i)
    (hl : l.length ≤ 74) (hfits : ∀ c ∈ l, c.Fits) :
    ∃ t, receivePacket lzo filter stale s
        (snd.gboxSendHelloPacket stat (BitVec.ofNat 8 i) (l.flatMap SentCard.bytes)) = some t ∧
      t.peer.id = s.peer.id ∧ t.peer.nextHello = BitVec.ofNat 8 (i + 1) ∧
      t.peer.totalCards = totalBefore i s + BitVec.ofNat 16 l.length ∧
      t.cards = l.foldl (filter.receive s.peer.id) (listBefore i s) := by
  have hnum : BitVec.ofNat 8 i &&& 0xF = BitVec.ofNat 8 i := by
    have hall : ∀ i < 16, BitVec.ofNat 8 i &&& 0xF = BitVec.ofNat 8 i := by decide
    exact hall i hi
  have hnotLast : BitVec.ofNat 8 i &&& 0x80 = 0 := by
    have hall : ∀ i < 16, BitVec.ofNat 8 i &&& 0x80 = 0 := by decide
    exact hall i hi
  obtain ⟨data, peer, hholds, hreceived, hid, hnextHello, htotal⟩ :=
    @receivePacket_eq lzo snd filter stat s _ i l stale hi hnum hnext hl hfits
  have h11 : data 11 = BitVec.ofNat 8 i := by
    rw [packet_eq] at hholds
    exact (holds_cons.mp (holds_cons.mp (holds_append.mp (holds_append.mp hholds).1).2).2).1
  refine ⟨_, hreceived, ?_⟩
  unfold helloRead
  rw [msb_ofNat hl, h11, hnotLast]
  refine ⟨hid, ?_, ?_, rfl⟩
  · change peer.nextHello + 1 = _
    rw [hnextHello, hnext]
    exact (BitVec.ofNat_add i 1).symm
  · change peer.totalCards + _ = _
    rw [htotal]

/-- The last packet. -/
private theorem receivePacket_last (stale : ℕ → Byte) (hi : i < 16) (hnext : s.peer.nextHello = BitVec.ofNat 8 i)
    (hl : l.length ≤ 74) (hcard : i ≠ 0 → l ≠ []) (hfits : ∀ c ∈ l, c.Fits) :
    ∃ t, receivePacket lzo filter stale s
        (snd.gboxSendHelloPacket stat (0x80 ||| BitVec.ofNat 8 i) (l.flatMap SentCard.bytes)) = some t ∧
      t.peer.id = s.peer.id ∧ t.peer.nextHello = 0 ∧
      t.peer.totalCards = totalBefore i s + BitVec.ofNat 16 l.length ∧
      t.cards = l.foldl (filter.receive s.peer.id) (listBefore i s) := by
  have hnum : (0x80 ||| BitVec.ofNat 8 i) &&& 0xF = BitVec.ofNat 8 i := by
    have hall : ∀ i < 16, (0x80 ||| BitVec.ofNat 8 i) &&& 0xF = BitVec.ofNat 8 i := by decide
    exact hall i hi
  have hlast : (0x80 ||| BitVec.ofNat 8 i) &&& 0x80 ≠ 0 := by
    have hall : ∀ i < 16, (0x80 ||| BitVec.ofNat 8 i) &&& 0x80 ≠ (0 : BitVec 8) := by decide
    exact hall i hi
  obtain ⟨data, peer, hholds, hreceived, hid, hnextHello, htotal⟩ :=
    @receivePacket_eq lzo snd filter stat s _ i l stale hi hnum hnext hl hfits
  rw [packet_eq] at hholds
  obtain ⟨hfront, hrest⟩ := holds_append.mp hholds
  have h11 : data 11 = 0x80 ||| BitVec.ofNat 8 i :=
    (holds_cons.mp (holds_cons.mp (holds_append.mp hfront).2).2).1
  refine ⟨_, hreceived, ?_⟩
  unfold helloRead helloComplete
  rw [msb_ofNat hl, h11, if_neg Bool.false_ne_true, if_pos hlast]
  dsimp only
  by_cases hnight : data 10 = 1 ∧ slice data 12 7 = List.replicate 7 0xFF
  · -- a good night carries no cards
    have hnil : l = [] := by
      cases l with
      | nil => rfl
      | cons c l =>
        have hcount := (holds_bytes (holds_append.mp (holds_append.mp hrest).1).1).2.1
        have hbyte : (slice data 12 7)[4]? = some (data 16) := rfl
        rw [hnight.2] at hbyte
        rw [show data 16 = 1 from hcount] at hbyte
        exact absurd hbyte (by decide)
    have hzero : i = 0 := by
      by_contra hne
      exact hcard hne hnil
    rw [if_pos hnight, hnil]
    refine ⟨hid, rfl, ?_, ?_⟩
    · change peer.totalCards + _ = _
      rw [htotal]
    · change gboxDeleteCards (listBefore i s) (.fromPeer peer.id) = listBefore i s
      unfold listBefore
      rw [if_pos hzero, hid, gboxDeleteCards_eq, gboxDeleteCards_eq, List.filter_filter]
      simp
  · rw [if_neg hnight]
    refine ⟨hid, rfl, ?_, rfl⟩
    change peer.totalCards + _ = _
    rw [htotal]

/-- The packets from number `i` on. -/
theorem receive_emitted {packets : List (List Byte)} (stale : ℕ → ℕ → Byte)
    (h : snd.Emitted stat i l packets) (hmax : 74 * i + l.length ≤ 1024)
    (hnext : s.peer.nextHello = BitVec.ofNat 8 i) (hfits : ∀ c ∈ l, c.Fits) :
    ∃ t, (packets.zipIdx i).foldlM (fun s p => receivePacket lzo filter (stale p.2) s p.1) s = some t ∧
      t.peer.totalCards = totalBefore i s + BitVec.ofNat 16 l.length ∧
      t.cards = l.foldl (filter.receive s.peer.id) (listBefore i s) := by
  induction h generalizing s with
  | @last i l hroom hcard =>
    obtain ⟨t, hreceived, -, -, htotal, hcards⟩ :=
      @receivePacket_last lzo snd filter stat s i l (stale i) (by omega) hnext hroom hcard hfits
    refine ⟨t, ?_, htotal, hcards⟩
    rw [List.zipIdx_cons, List.zipIdx_nil, List.foldlM_cons, hreceived]
    rfl
  | @more i first rest packets hfull hrest ih =>
    rw [List.length_append] at hmax
    obtain ⟨t, hreceived, hid, hnext', htotal, hcards⟩ :=
      @receivePacket_more lzo snd filter stat s i first (stale i) (by omega) hnext (by omega)
        fun c hc => hfits c (List.mem_append_left _ hc)
    obtain ⟨u, hu, hutotal, hucards⟩ :=
      @ih t (by omega) hnext' fun c hc => hfits c (List.mem_append_right _ hc)
    refine ⟨u, ?_, ?_, ?_⟩
    · rw [List.zipIdx_cons, List.foldlM_cons, hreceived]
      exact hu
    · rw [hutotal]
      unfold totalBefore at htotal ⊢
      rw [if_neg (Nat.succ_ne_zero i), htotal, BitVec.add_assoc, ← BitVec.ofNat_add, List.length_append]
    · rw [hucards]
      unfold listBefore at hcards ⊢
      rw [if_neg (Nat.succ_ne_zero i), hcards, hid, List.foldl_append]

theorem length_of_emitted {packets : List (List Byte)} (h : snd.Emitted stat i l packets) :
    ∀ packet ∈ packets, packet.length ≤ 816 := by
  induction h with
  | last hroom hcard =>
    intro packet hmem
    rw [List.mem_singleton.mp hmem]
    exact length_packet_le hroom
  | more hfull hrest ih =>
    intro packet hmem
    rcases List.mem_cons.mp hmem with rfl | hmem
    · exact length_packet_le hfull.le
    · exact ih packet hmem

end Packet

section Selected

variable {snd : HelloSender} {stat : HelloStat}

/-- The levels are those of four bits. -/
private theorem level_le {card : GboxCard} {level : Byte} (hcard : card ∈ snd.cards) (hlvl : 0 < card.lvl)
    (h : snd.levelToSend card = some level) : level.toNat ≤ 15 := by
  have hpos : 0 < card.lvl.toNat := hlvl
  have hreshare := snd.reshare_le
  have hcccam := snd.cccamReshare_le
  have hlocal : (if 0 < snd.gboxReshare then some (snd.gboxReshare - 1) else none) = some level →
      level.toNat ≤ 15 := by
    intro h
    split_ifs at h with hreshared
    obtain rfl := Option.some.inj h
    have hone : 1 ≤ snd.gboxReshare := hreshared
    rw [BitVec.toNat_sub_of_le hone]
    unfold GBOX_MAXHOPS at hreshare
    omega
  unfold HelloSender.levelToSend at h
  cases htype : card.type with
  | gbox =>
    rw [htype] at h
    obtain rfl := Option.some.inj h
    have hle := snd.lvl_le card hcard htype
    have hone : 1 ≤ card.lvl := hlvl
    rw [BitVec.toNat_sub_of_le hone]
    omega
  | cccam =>
    rw [htype] at h
    dsimp only at h
    split_ifs at h with hneg hident hless
    · obtain rfl := Option.some.inj h
      unfold GBOX_MAXHOPS at hreshare
      omega
    · obtain rfl := Option.some.inj h
      have hnonneg : ¬ snd.gboxCccamReshare.toInt < 0 := by
        intro hlt
        exact hneg (BitVec.slt_iff_toInt_lt.mpr hlt)
      rw [BitVec.toInt_eq_toNat_cond] at hnonneg hcccam
      unfold GBOX_MAXHOPS at hcccam
      split_ifs at hnonneg hcccam <;> omega
  | «local» =>
    rw [htype] at h
    exact hlocal h
  | betun =>
    rw [htype] at h
    exact hlocal h
  | proxy =>
    rw [htype] at h
    exact hlocal h

theorem selected_level : ∀ c ∈ snd.selected stat, c.2.toNat ≤ 15 := by
  have hloop : ∀ c ∈ snd.cards.filterMap snd.sentCard, c.2.toNat ≤ 15 := by
    intro c hc
    obtain ⟨card, hcard, hsent⟩ := List.mem_filterMap.mp hc
    unfold HelloSender.sentCard at hsent
    split_ifs at hsent with hforwards
    obtain ⟨level, hlevel, rfl⟩ := Option.map_eq_some_iff.mp hsent
    unfold HelloSender.forwards at hforwards
    have hlvl : 0 < card.lvl := by
      simp only [Bool.and_eq_true, decide_eq_true_eq] at hforwards
      exact hforwards.1.1.2
    exact level_le hcard hlvl hlevel
  cases stat with
  | helloL =>
    intro c hc
    have hreshare := snd.reshare_le
    unfold HelloSender.selected at hc
    split_ifs at hc with hpos
    · obtain ⟨card, -, rfl⟩ := List.mem_map.mp hc
      have hone : 1 ≤ snd.gboxReshare := hpos
      change (snd.gboxReshare - 1).toNat ≤ 15
      rw [BitVec.toNat_sub_of_le hone]
      unfold GBOX_MAXHOPS at hreshare
      omega
    · cases hc
  | helloS => exact hloop
  | helloR => exact hloop

end Selected

end NCam.Gbox
