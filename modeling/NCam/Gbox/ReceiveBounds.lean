import NCam.Gbox.Answers
import NCam.Gbox.Hello

/-! When a datagram of a gbox peer is read inside the receive buffer. -/
namespace NCam.Gbox

open NCam.Lib.Memory NCam.Util
open NCam.Casc

/-- What the handlers of a peer's messages work with. -/
structure GboxProxy where
  filter : HelloFilter
  hello : HelloState
  ecm : EcmReceiver
  cfg : Config
  cl : CascClient GboxRequest

inductive GboxEvent
  | hello (s : HelloState) (outcome : HelloOutcome)
  | ecm (ecm : IncomingEcm)
  | cw (cl : CascClient GboxRequest) (idx : Option (BitVec 16))
  | other

/-- The bytes from 6 to 43 are read for a CW. -/
def chkRecvdDcwWithin (proxy : GboxProxy) (data : ℕ → Byte) (n : ℕ) : Option GboxEvent :=
  let (cl, idx) := gboxChkRecvdDcw proxy.cfg proxy.cl data n
  if b2i 2 data 0 ≠ MSG_CW ∨ n < 44 then some (.cw cl idx)
  else (sliceWithin RECEIVE_BUFFER_SIZE data 6 38).map fun _ => .cw cl idx

/-- `gbox_recv_cmd_switch` for hellos, ECMs and CWs. -/
def gboxRecvCmdSwitch (proxy : GboxProxy) (data : ℕ → Byte) (n : ℕ) (unpacked : List Byte) :
    Option GboxEvent :=
  let cmd := b2i 2 data 0
  if cmd = MSG_HELLO1 ∨ cmd = MSG_HELLO then
    (gboxCmdHelloRcvd proxy.filter proxy.hello data n unpacked).map fun (s, outcome) => .hello s outcome
  else if cmd = MSG_CW then chkRecvdDcwWithin proxy data n
  else if cmd = MSG_ECM then (gboxIncomingEcm proxy.ecm data n).map .ecm
  else some .other

section Inside

variable (filter : HelloFilter) (data : ℕ → Byte)

/-- A card whose distance is too large is not read further. -/
def CardInside (ptr : ℕ) : Prop :=
  ptr + 1 < RECEIVE_BUFFER_SIZE ∧
    (data (ptr + 1) &&& 0xF ≤ filter.gboxMaxdist → ptr + 4 ≤ RECEIVE_BUFFER_SIZE)

/-- The cards behind a header are only read for an accepted caid. -/
def GroupInside (ptr : ℕ) : Prop :=
  ptr + 5 ≤ RECEIVE_BUFFER_SIZE ∧ (filter.ctab (gboxGetCaid (b2i 4 data ptr)) = true →
    ∀ j < (data (ptr + 4)).toNat, CardInside filter data (ptr + 5 + 4 * j))

/-- Where the header `i` stands. -/
def groupStart (ptr : ℕ) : ℕ → ℕ
  | 0 => ptr
  | i + 1 => groupStart ptr i + 5 + (data (groupStart ptr i + 4)).toNat * 4

/-- All headers in front of `len`, with what is read behind them. -/
def CardsInside (ptr : ℕ) (len : ℤ) : Prop :=
  ∀ i, (groupStart data ptr i : ℤ) < len → GroupInside filter data (groupStart data ptr i)

/-- The first packet has room for its footer. -/
def HelloInside (nextHello : Byte) (ptr payloadLen : ℕ) : Prop :=
  data 11 &&& 0xF = nextHello →
    if data 11 &&& 0xF = 0 then
      (data (payloadLen - 1)).toNat + 10 ≤ payloadLen ∧
        CardsInside filter data ptr (payloadLen - ((data (payloadLen - 1)).toNat + 9 : ℕ) - 1 : ℤ)
    else CardsInside filter data ptr (payloadLen - 1 : ℤ)

/-- What is read behind the section lies in the buffer. -/
def EcmInside (rcv : EcmReceiver) (n : ℕ) : Prop :=
  n < 21 ∨ sectionLength data 18 < MIN_ECM_LENGTH ∨ GBOX_MAXHOPS < (data (n - 15)).toNat + 1 ∨
    rcv.gboxReshare.toNat < (data (n - 15)).toNat + 1 ∨
    (sectionLength data 18 + 23 ≤ RECEIVE_BUFFER_SIZE ∧
      (rcv.gboxBlockEcm.contains ((b2i 2 data (sectionLength data 18 + 21)).setWidth 16) = true ∨
        n < sectionLength data 18 + 21 ∨ sectionLength data 18 + 34 ≤ RECEIVE_BUFFER_SIZE))

end Inside

/-- What the handlers of a datagram touch lies in the receive buffer. -/
def DatagramInside (proxy : GboxProxy) (data : ℕ → Byte) (n : ℕ) (unpacked : List Byte) : Prop :=
  let cmd := b2i 2 data 0
  if cmd = MSG_HELLO1 then HelloInside proxy.filter data proxy.hello.peer.nextHello 11 n
  else if cmd = MSG_HELLO then
    unpacked.length + 12 ≤ RECEIVE_BUFFER_SIZE ∧ HelloInside proxy.filter (put data 12 unpacked)
      proxy.hello.peer.nextHello 12 (unpacked.length + 12)
  else if cmd = MSG_ECM then EcmInside data proxy.ecm n
  else True

section Cards

variable {filter : HelloFilter} {peerId : BitVec 16} {data : ℕ → Byte} {ptr : ℕ} {len : ℤ}

private theorem foldlM_isSome {α β : Type} {f : β → α → Option β} {P : α → Prop}
    (h : ∀ b x, (f b x).isSome ↔ P x) : ∀ (l : List α) (b : β), (l.foldlM f b).isSome ↔ ∀ x ∈ l, P x := by
  intro l
  induction l with
  | nil => exact fun b => iff_of_true rfl fun x hx => absurd hx List.not_mem_nil
  | cons x l ih =>
    intro b
    rw [List.foldlM_cons, List.forall_mem_cons, ← h b x]
    cases hx : f b x with
    | none => simp
    | some b' =>
      change (l.foldlM f b').isSome ↔ _
      rw [ih b']
      simp

private theorem readCard_isSome (caprovid : BitVec 32) (ptr : ℕ) (cards : List GboxCard) :
    (readCard filter peerId data caprovid ptr cards).isSome ↔ CardInside filter data ptr := by
  unfold readCard CardInside
  by_cases h1 : ptr + 1 < RECEIVE_BUFFER_SIZE
  · rw [getWithin_of_lt h1, getWithin_of_lt (Nat.lt_of_succ_lt h1), sliceWithin, Nat.add_assoc]
    change (if _ then _ else _ : Option (List GboxCard)).isSome ↔ _
    by_cases hdist : data (ptr + 1) &&& 0xF ≤ filter.gboxMaxdist
    · rw [if_pos hdist]
      by_cases hfit : ptr + 4 ≤ RECEIVE_BUFFER_SIZE
      · rw [if_pos hfit]
        exact iff_of_true rfl ⟨h1, fun _ => hfit⟩
      · rw [if_neg hfit]
        exact iff_of_false Bool.false_ne_true fun h => hfit (h.2 hdist)
    · rw [if_neg hdist]
      exact iff_of_true rfl ⟨h1, fun h => absurd h hdist⟩
  · unfold getWithin
    rw [if_neg h1]
    exact iff_of_false Bool.false_ne_true fun h => h1 h.1

private theorem readGroup_isSome (caprovid : BitVec 32) (ptr count : ℕ) (cards : List GboxCard) :
    (readGroup filter peerId data caprovid ptr count cards).isSome ↔
      ∀ j < count, CardInside filter data (ptr + 4 * j) := by
  unfold readGroup
  rw [foldlM_isSome fun cards j => readCard_isSome caprovid (ptr + 4 * j) cards]
  simp only [List.mem_range]

private theorem groupStart_succ (i : ℕ) : groupStart data ptr (i + 1) =
    groupStart data (ptr + 5 + (data (ptr + 4)).toNat * 4) i := by
  induction i with
  | zero => rfl
  | succ i ih =>
    change groupStart data ptr (i + 1) + 5 + (data (groupStart data ptr (i + 1) + 4)).toNat * 4 = _
    rw [ih]
    rfl

private theorem cardsInside_of_ge (h : len ≤ ptr) : CardsInside filter data ptr len := by
  have hge : ∀ i, ptr ≤ groupStart data ptr i := by
    intro i
    induction i with
    | zero => exact Nat.le_refl ptr
    | succ i ih =>
      change ptr ≤ groupStart data ptr i + 5 + (data (groupStart data ptr i + 4)).toNat * 4
      omega
  intro i hi
  have := hge i
  omega

private theorem cardsInside_of_lt (h : (ptr : ℤ) < len) : CardsInside filter data ptr len ↔
    GroupInside filter data ptr ∧ CardsInside filter data (ptr + 5 + (data (ptr + 4)).toNat * 4) len := by
  constructor
  · intro hall
    refine ⟨hall 0 h, fun i hi => ?_⟩
    rw [← groupStart_succ] at hi ⊢
    exact hall (i + 1) hi
  · rintro ⟨hfirst, hrest⟩ i hi
    cases i with
    | zero => exact hfirst
    | succ i =>
      rw [groupStart_succ] at hi ⊢
      exact hrest i hi

/-- The cards of a header, which are skipped for another caid. -/
private def headerCards (filter : HelloFilter) (peerId : BitVec 16) (data : ℕ → Byte) (ptr : ℕ)
    (cards : List GboxCard) : Option (List GboxCard) :=
  if filter.ctab (gboxGetCaid (b2i 4 data ptr)) then
    readGroup filter peerId data (b2i 4 data ptr) (ptr + 5) (data (ptr + 4)).toNat cards
  else some cards

private theorem headerCards_isSome (h : ptr + 5 ≤ RECEIVE_BUFFER_SIZE) (cards : List GboxCard) :
    (headerCards filter peerId data ptr cards).isSome ↔ GroupInside filter data ptr := by
  unfold GroupInside headerCards
  by_cases hctab : filter.ctab (gboxGetCaid (b2i 4 data ptr)) = true
  · rw [if_pos hctab, readGroup_isSome]
    exact ⟨fun hall => ⟨h, fun _ => hall⟩, fun hin => hin.2 hctab⟩
  · rw [if_neg hctab]
    exact iff_of_true rfl ⟨h, fun hyes => absurd hyes hctab⟩

private theorem readCardsFromHello_of_lt (h : (ptr : ℤ) < len) (cards : List GboxCard) (count : BitVec 16) :
    readCardsFromHello filter peerId data ptr len cards count =
      (sliceWithin RECEIVE_BUFFER_SIZE data ptr 5).bind fun _ =>
        (headerCards filter peerId data ptr cards).bind fun cards =>
          readCardsFromHello filter peerId data (ptr + 5 + (data (ptr + 4)).toNat * 4) len cards
            (count + BitVec.ofNat 16 (data (ptr + 4)).toNat) := by
  rw [readCardsFromHello, if_pos h]
  unfold headerCards
  cases sliceWithin RECEIVE_BUFFER_SIZE data ptr 5 with
  | none => rfl
  | some bytes =>
    dsimp only [Option.bind_eq_bind, Option.bind_some]
    split_ifs <;> rfl

/-- The loop stays inside if all its headers and cards do. -/
private theorem readCardsFromHello_isSome (ptr : ℕ) (len : ℤ) (cards : List GboxCard) (count : BitVec 16) :
    (readCardsFromHello filter peerId data ptr len cards count).isSome ↔ CardsInside filter data ptr len := by
  induction hk : (len - ptr).toNat using Nat.strong_induction_on generalizing ptr cards count with
  | _ k ih =>
    subst hk
    by_cases hlt : (ptr : ℤ) < len
    · rw [readCardsFromHello_of_lt hlt, cardsInside_of_lt hlt]
      by_cases hfit : ptr + 5 ≤ RECEIVE_BUFFER_SIZE
      · rw [sliceWithin_of_le hfit, Option.bind_some, ← @headerCards_isSome filter peerId _ _ hfit cards]
        cases headerCards filter peerId data ptr cards with
        | none => exact iff_of_false Bool.false_ne_true fun h => Bool.false_ne_true h.1
        | some cards' =>
          rw [Option.bind_some, ih _ (by omega) _ _ _ rfl]
          exact ⟨fun h => ⟨rfl, h⟩, fun h => h.2⟩
      · unfold sliceWithin
        rw [if_neg hfit]
        exact iff_of_false Bool.false_ne_true fun h => hfit h.1.1
    · rw [readCardsFromHello, if_neg hlt]
      exact iff_of_true rfl (cardsInside_of_ge (Int.not_lt.mp hlt))

end Cards

section Hello

variable {filter : HelloFilter} {s : HelloState} {data : ℕ → Byte} {n : ℕ}

private theorem sliceFrom_isSome (o : ℤ) (k : ℕ) :
    (sliceFrom data o k).isSome ↔ 0 ≤ o ∧ o + k ≤ RECEIVE_BUFFER_SIZE := by
  unfold sliceFrom sliceWithin
  split_ifs with h0 hfit
  · exact iff_of_true rfl ⟨h0, by omega⟩
  · exact iff_of_false Bool.false_ne_true fun h => hfit (by omega)
  · exact iff_of_false Bool.false_ne_true fun h => h0 h.1

/-- The length of the hostname, the last byte of the message. -/
private theorem hostnameLen_eq (hlo : 10 ≤ n) (hhi : n ≤ RECEIVE_BUFFER_SIZE) :
    ((sliceFrom data (n - 1 : ℤ) 1).map fun bytes => (bytes.headD 0).toNat) = some (data (n - 1)).toNat := by
  have hplace : ((n : ℤ) - 1).toNat = n - 1 := by omega
  unfold sliceFrom
  rw [if_pos (by omega), hplace, sliceWithin_of_le (by omega)]
  rfl

/-- The footer of a message that lies in the buffer. -/
private theorem readFooter_isSome (peer : HelloPeer) (hlo : 10 ≤ n) (hhi : n ≤ RECEIVE_BUFFER_SIZE) :
    (readFooter data n peer).isSome ↔ (data (n - 1)).toNat + 10 ≤ n := by
  unfold readFooter
  rw [hostnameLen_eq hlo hhi]
  dsimp only [Option.bind_eq_bind, Option.bind_some]
  by_cases hfit : (data (n - 1)).toNat + 10 ≤ n
  · obtain ⟨hostname, hhost⟩ := Option.isSome_iff_exists.mp
      ((@sliceFrom_isSome data (n - 1 - (data (n - 1)).toNat : ℤ) (data (n - 1)).toNat).mpr (by omega))
    obtain ⟨footer, hfooter⟩ := Option.isSome_iff_exists.mp
      ((@sliceFrom_isSome data (n - ((data (n - 1)).toNat + 2 + 7 : ℕ) - 1 : ℤ) 9).mpr (by omega))
    rw [hhost, Option.bind_some, hfooter]
    exact iff_of_true rfl hfit
  · have hfooter : sliceFrom data (n - ((data (n - 1)).toNat + 2 + 7 : ℕ) - 1 : ℤ) 9 = none := by
      rw [← Option.not_isSome_iff_eq_none, sliceFrom_isSome]
      omega
    rw [hfooter]
    cases sliceFrom data (n - 1 - (data (n - 1)).toNat : ℤ) (data (n - 1)).toNat with
    | none => exact iff_of_false Bool.false_ne_true hfit
    | some hostname => exact iff_of_false Bool.false_ne_true hfit

private theorem readFooter_len {peer peer' : HelloPeer} {footerLen : ℕ} (hlo : 10 ≤ n)
    (hhi : n ≤ RECEIVE_BUFFER_SIZE) (h : readFooter data n peer = some (peer', footerLen)) :
    footerLen = (data (n - 1)).toNat + 9 := by
  unfold readFooter at h
  rw [hostnameLen_eq hlo hhi] at h
  dsimp only [Option.bind_eq_bind, Option.bind_some] at h
  obtain ⟨hostname, -, h⟩ := Option.bind_eq_some_iff.mp h
  obtain ⟨footer, -, h⟩ := Option.bind_eq_some_iff.mp h
  exact (Prod.mk.inj (Option.some.inj h)).2.symm

private theorem bind_read_isSome {filter : HelloFilter} {peerId : BitVec 16} {ptr : ℕ} {len : ℤ}
    {cards : List GboxCard} {peer : HelloPeer} :
    ((readCardsFromHello filter peerId data ptr len cards 0).bind fun (cards, cardsNumber) =>
      some (helloRead data peer cards cardsNumber)).isSome ↔ CardsInside filter data ptr len := by
  rw [← @readCardsFromHello_isSome filter peerId data ptr len cards 0]
  cases readCardsFromHello filter peerId data ptr len cards 0 with
  | none => exact Iff.rfl
  | some r => exact iff_of_true rfl rfl

private theorem helloPacket_isSome (ptr : ℕ) (hlo : 10 ≤ n) (hhi : n ≤ RECEIVE_BUFFER_SIZE) :
    (helloPacket filter s data n ptr).isSome ↔ HelloInside filter data s.peer.nextHello ptr n := by
  unfold helloPacket HelloInside
  by_cases hsync : data 11 &&& 0xF = s.peer.nextHello
  · rw [if_neg (not_not_intro hsync)]
    simp only [hsync, true_implies]
    rw [← hsync]
    unfold helloFooter
    by_cases hfirst : data 11 &&& 0xF = 0
    · rw [if_pos hfirst, if_pos hfirst]
      cases hfooter : readFooter data n s.peer with
      | none =>
        refine iff_of_false Bool.false_ne_true fun h => ?_
        have hsome := (readFooter_isSome s.peer hlo hhi).mpr h.1
        rw [hfooter] at hsome
        exact Bool.false_ne_true hsome
      | some r =>
        obtain ⟨peer, footerLen⟩ := r
        have hfits := (readFooter_isSome s.peer hlo hhi).mp (by rw [hfooter]; rfl)
        obtain rfl := readFooter_len hlo hhi hfooter
        dsimp only [Option.bind_eq_bind, Option.bind_some]
        rw [bind_read_isSome]
        exact ⟨fun h => ⟨hfits, h⟩, fun h => h.2⟩
    · rw [if_neg hfirst, if_neg hfirst]
      dsimp only [Option.bind_eq_bind, Option.bind_some]
      rw [bind_read_isSome]
      simp
  · rw [if_pos hsync]
    exact iff_of_true rfl fun h => absurd h hsync

/-- A compressed packet is unpacked first. -/
private theorem gboxCmdHelloRcvd_isSome (unpacked : List Byte) (hlo : 10 ≤ n)
    (hhi : n < RECEIVE_BUFFER_SIZE) :
    (gboxCmdHelloRcvd filter s data n unpacked).isSome ↔
      if b2i 2 data 0 = MSG_HELLO1 then HelloInside filter data s.peer.nextHello 11 n
      else unpacked.length + 12 ≤ RECEIVE_BUFFER_SIZE ∧ HelloInside filter (put data 12 unpacked)
        s.peer.nextHello 12 (unpacked.length + 12) := by
  unfold gboxCmdHelloRcvd
  by_cases hcmd : b2i 2 data 0 = MSG_HELLO1
  · rw [if_neg (not_not_intro hcmd), if_pos hcmd]
    exact helloPacket_isSome 11 hlo (Nat.le_of_lt hhi)
  · rw [if_pos hcmd, if_neg hcmd]
    unfold gboxDecompress
    by_cases hfit : unpacked.length + 12 ≤ RECEIVE_BUFFER_SIZE
    · rw [putWithin_of_le (by omega), ← helloPacket_isSome 12 (by omega) hfit]
      exact ⟨fun h => ⟨hfit, h⟩, fun h => h.2⟩
    · rw [putWithin_eq_none.mpr (by omega)]
      exact iff_of_false Bool.false_ne_true fun h => hfit h.1

end Hello

section Ecm

variable {rcv : EcmReceiver} {data : ℕ → Byte} {n : ℕ}

private theorem ecmRequest_isSome {o : ℕ} {hop : Byte} (hlo : 29 ≤ o) (ho : o ≤ n)
    (hn' : n < RECEIVE_BUFFER_SIZE) (hhop : hop.toNat + 1 ≤ GBOX_MAXHOPS) :
    (ecmRequest rcv data n o hop).isSome ↔ o + 13 ≤ RECEIVE_BUFFER_SIZE := by
  have hmax : GBOX_MAXHOPS = 8 := rfl
  have hdist : (hop + 1).toNat = hop.toNat + 1 := by
    rw [BitVec.toNat_add]
    change (hop.toNat + 1) % 256 = hop.toNat + 1
    omega
  unfold ecmRequest
  by_cases hfit : o + 13 ≤ RECEIVE_BUFFER_SIZE
  · rw [sliceWithin_of_le hfit, sliceWithin_of_le (by omega), sliceWithin_of_le (by omega)]
    dsimp only [Option.bind_eq_bind, Option.bind_some]
    rw [sliceWithin_of_le (by rw [hdist]; omega)]
    exact iff_of_true rfl hfit
  · unfold sliceWithin
    rw [if_neg hfit]
    exact iff_of_false Bool.false_ne_true hfit

private theorem gboxIncomingEcm_isSome (hn' : n < RECEIVE_BUFFER_SIZE) :
    (gboxIncomingEcm rcv data n).isSome ↔ EcmInside data rcv n := by
  have hsize : RECEIVE_BUFFER_SIZE = 1024 := rfl
  have hmin : MIN_ECM_LENGTH = 8 := rfl
  unfold gboxIncomingEcm EcmInside
  by_cases hshort : n < 21
  · rw [if_pos hshort]
    exact iff_of_true rfl (Or.inl hshort)
  by_cases hsection : sectionLength data 18 < MIN_ECM_LENGTH
  · rw [if_neg hshort, if_pos hsection]
    exact iff_of_true rfl (Or.inr (Or.inl hsection))
  rw [if_neg hshort, if_neg hsection, getWithin_of_lt (by omega)]
  dsimp only [Option.bind_eq_bind, Option.bind_some]
  by_cases hhops : (data (n - 15)).toNat + 1 > GBOX_MAXHOPS ∨
      (data (n - 15)).toNat + 1 > rcv.gboxReshare.toNat
  · rw [if_pos hhops]
    exact iff_of_true rfl (Or.inr (Or.inr (hhops.imp id Or.inl)))
  rw [if_neg hhops]
  obtain ⟨hmaxhops, hreshare⟩ := not_or.mp hhops
  have hpeer : sectionLength data 18 + 3 + 18 = sectionLength data 18 + 21 := by omega
  rw [hpeer]
  simp only [hshort, hsection, Nat.not_lt.mpr (Nat.not_lt.mp hmaxhops), Nat.not_lt.mpr (Nat.not_lt.mp hreshare),
    false_or]
  by_cases hinside : sectionLength data 18 + 23 ≤ RECEIVE_BUFFER_SIZE
  · have hread : b2iWithin RECEIVE_BUFFER_SIZE 2 data (sectionLength data 18 + 21) =
        some (b2i 2 data (sectionLength data 18 + 21)) := if_pos hinside
    rw [hread, Option.bind_some]
    by_cases hblocked : rcv.gboxBlockEcm.contains ((b2i 2 data (sectionLength data 18 + 21)).setWidth 16) = true
    · rw [if_pos hblocked]
      exact iff_of_true rfl ⟨hinside, Or.inl hblocked⟩
    · rw [if_neg hblocked]
      by_cases hcut : sectionLength data 18 + 3 > MAX_ECM_SIZE ∨ sectionLength data 18 + 21 > n
      · rw [if_pos hcut]
        have hmaxecm : MAX_ECM_SIZE = 1024 := rfl
        exact iff_of_true rfl ⟨hinside, Or.inr (Or.inl (by omega))⟩
      · rw [if_neg hcut, ecmRequest_isSome (by omega) (by omega) hn' (by omega)]
        constructor
        · intro h
          exact ⟨hinside, Or.inr (Or.inr (by omega))⟩
        · rintro ⟨-, h | h | h⟩
          · exact absurd h hblocked
          · omega
          · omega
  · have hread : b2iWithin RECEIVE_BUFFER_SIZE 2 data (sectionLength data 18 + 21) = none := if_neg hinside
    rw [hread]
    exact iff_of_false Bool.false_ne_true fun h => hinside h.1

end Ecm

private theorem chkRecvdDcwWithin_isSome (proxy : GboxProxy) (data : ℕ → Byte) (n : ℕ) :
    (chkRecvdDcwWithin proxy data n).isSome := by
  unfold chkRecvdDcwWithin
  rw [sliceWithin_of_le (by decide)]
  dsimp only
  split_ifs <;> rfl

/-- A datagram is handled inside the receive buffer exactly if the lengths it holds allow it. -/
theorem received_inside_iff (proxy : GboxProxy) (data : ℕ → Byte) {n : ℕ} (hn : 10 ≤ n)
    (hn' : n < RECEIVE_BUFFER_SIZE) (unpacked : List Byte) :
    (gboxRecvCmdSwitch proxy data n unpacked).isSome ↔ DatagramInside proxy data n unpacked := by
  have hhello := @gboxCmdHelloRcvd_isSome proxy.filter proxy.hello data n unpacked hn hn'
  unfold gboxRecvCmdSwitch DatagramInside
  dsimp only
  by_cases hfirst : b2i 2 data 0 = MSG_HELLO1
  · rw [if_pos (Or.inl hfirst), if_pos hfirst, Option.isSome_map, hhello, if_pos hfirst]
  · rw [if_neg hfirst] at hhello
    rw [if_neg hfirst]
    by_cases hcompressed : b2i 2 data 0 = MSG_HELLO
    · rw [if_pos (Or.inr hcompressed), if_pos hcompressed, Option.isSome_map, hhello]
    · rw [if_neg (not_or.mpr ⟨hfirst, hcompressed⟩), if_neg hcompressed]
      by_cases hcw : b2i 2 data 0 = MSG_CW
      · have hecm : MSG_CW ≠ MSG_ECM := by decide
        rw [if_pos hcw, hcw, if_neg hecm]
        exact iff_of_true (chkRecvdDcwWithin_isSome proxy data n) trivial
      · rw [if_neg hcw]
        split_ifs with hecm
        · rw [Option.isSome_map]
          exact gboxIncomingEcm_isSome hn'
        · exact iff_of_true rfl trivial

private def emptyTask : GboxTask :=
  ⟨⟨⟨fun _ => 0, 0, 0, 0, 0, 0, .newReq, none, 0, 0, 0, 0⟩, 0, 0, 0⟩, 0, 0⟩

private def newProxy : GboxProxy where
  filter := ⟨fun _ => true, 5, fun _ => false⟩
  hello := ⟨⟨0x1234, false, 0, none, [], false, 0, 0, 0, 0⟩, []⟩
  ecm := ⟨3, [], Vector.replicate 7 0, 0⟩
  cfg := ⟨16, 5000⟩
  cl := ⟨fun _ => emptyTask, 0, 0, 0, 0, false⟩

/-- A first packet of 13 bytes that announces a hostname of `len` bytes. -/
private def shortHello (len : Byte) : ℕ → Byte :=
  fun i => [0x48, 0x49, 0, 0, 0, 0, 0, 0, 0, 0, 0, 0x80, len].getD i 0

theorem received_inside_shortHello : (gboxRecvCmdSwitch newProxy (shortHello 0) 13 []).isSome := by
  refine (received_inside_iff newProxy _ (by decide) (by decide) []).mpr ?_
  unfold DatagramInside
  rw [if_pos (by decide)]
  intro _
  rw [if_pos (by decide)]
  exact ⟨by decide, cardsInside_of_ge (by decide)⟩

/-- The footer would begin in front of the buffer. -/
theorem shortHello_outside : ¬ ∀ proxy data n unpacked, 10 ≤ n → n < RECEIVE_BUFFER_SIZE →
    unpacked.length ≤ 0x40000 → (gboxRecvCmdSwitch proxy data n unpacked).isSome := by
  intro h
  exact absurd (h newProxy (shortHello 0xFF) 13 [] (by decide) (by decide) (by decide)) (by decide +kernel)

end NCam.Gbox
