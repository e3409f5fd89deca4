import NCam.Camd35.Messages
import Mathlib.Data.List.Forall2

/-! Card data across command 05: when the card that a reader gets is the card of the server. -/
namespace NCam.Camd35

open NCam.Lib.Memory NCam.Util

/-- `d` is a buffer in which the message was received. -/
def Gets (crc32 : Crc32) (cl : Sender) (p : Peer) (mbuf d : ℕ → Byte) : Prop :=
  ∃ wire buf rest segs r, camd35Send crc32 cl mbuf 0 = some wire ∧ Arrives p wire rest segs ∧
    camd35Recv crc32 p buf segs = some r ∧ r.buf = d

/-- The same caid, providers, shared addresses, serial and blocked types. -/
structure SameCard (a : AuReader) (r : Card) : Prop where
  caid : r.caid = a.caid
  nprov : r.nprov = a.nprov
  prid : ∀ i < a.nprov, r.prid i = a.prid i
  sa : ∀ i < a.nprov, r.sa i = a.sa i
  hexserial : r.hexserial = a.hexserial
  blockemm : ∀ type ∈ emmTypes, r.blockemm &&& type = 0 ↔ a.blockemm &&& type = 0

/-- Whatever the connection, the reader `r` has the card of `a` after it received the messages. -/
def Announces (getblockemmauprovid : Bool) (messages : List (ℕ → Byte)) (a : AuReader) (r : Card) : Prop :=
  ∀ crc32 cl p, Session cl p → ∀ ds, List.Forall₂ (Gets crc32 cl p) messages ds →
    SameCard a (ds.foldl (recvCmd05 getblockemmauprovid) r)

/-- The bytes of provider `i` and their places. -/
def providerBytes (rdr : Card) (i : ℕ) : List (ℕ × Byte) :=
  if fourBytes rdr.caid then
    [(48 + i * 5, (rdr.prid i)[0]!), (50 + i * 5, (rdr.prid i)[1]!), (50 + i * 5 + 1, (rdr.prid i)[2]!),
      (50 + i * 5 + 2, (rdr.prid i)[3]!)]
  else
    [(48 + i * 5, (rdr.prid i)[2]!), (49 + i * 5, (rdr.prid i)[3]!), (50 + i * 5, (rdr.sa i)[0]!),
      (50 + i * 5 + 1, (rdr.sa i)[1]!), (50 + i * 5 + 2, (rdr.sa i)[2]!), (50 + i * 5 + 3, (rdr.sa i)[3]!)]

/-- What stands from byte 127 on: the flags of the types, and the padding of the frame. -/
def tailByte (a : AuReader) (o : ℕ) : Byte :=
  if o = 127 then emmFlag a EMM_UNKNOWN
  else if o = 128 then emmFlag a EMM_GLOBAL
  else if o = 129 then emmFlag a EMM_SHARED
  else if o = 130 then emmFlag a EMM_UNIQUE
  else 0xFF

/-- When the card arrives as it is: it has a caid and a serial of six bytes; at most 19 providers, of which
no byte from 127 on differs from what stands there; with shared addresses the last byte of each is the first
one of the next provider, and the reader has the two upper bytes of the provider ids already; without them
it has the shared addresses already; and no type is both blocked and saved, if the reader takes the blocked
types at all. -/
structure CardFits (getblockemmauprovid : Bool) (a : AuReader) (r : Card) : Prop where
  caid : a.caid ≠ 0
  hexserial : a.hexserial[6]! = 0 ∧ a.hexserial[7]! = 0
  nprov : a.nprov ≤ 19
  tail : ∀ i < a.nprov, ∀ x ∈ providerBytes a.toCard i, 127 ≤ x.1 → x.2 = tailByte a x.1
  shared : fourBytes a.caid = false → ∀ i, i + 1 < a.nprov → i < 15 → (a.sa i)[3]! = (a.prid (i + 1))[2]!
  upper : fourBytes a.caid = false → ∀ i < a.nprov,
    (r.prid i)[0]! = (a.prid i)[0]! ∧ (r.prid i)[1]! = (a.prid i)[1]!
  addresses : fourBytes a.caid = true → ∀ i < a.nprov, r.sa i = a.sa i
  blockemm : ∀ type ∈ emmTypes,
    if getblockemmauprovid then a.blockemm &&& type = 0 ∨ a.saveemm &&& type = 0
    else (r.blockemm &&& type = 0 ↔ a.blockemm &&& type = 0)

/-- The buffer holds a message of `20 + len` bytes, with its checksum, and the padding behind it. -/
structure Carried (len : ℕ) (mbuf d : ℕ → Byte) : Prop where
  message : ∀ i < 20 + len, i < 4 ∨ 8 ≤ i → d i = mbuf i
  padding : ∀ i, 20 + len ≤ i → i < 144 → d i = 0xFF

section Frame

variable {crc32 : Crc32} {cl : Sender} {p : Peer} {mbuf d : ℕ → Byte} {len : ℕ}

private theorem card_frame (h0 : mbuf 0 = 5) (h1 : mbuf 1 = .ofNat 8 len) (hlen : len = 111 ∨ len = 112) :
    bodyLen mbuf 0 = len ∧ announced mbuf = len ∧ tailLen mbuf = 0 ∧ boundary 4 (20 + 0 + len) = 144 := by
  have hbyte : (mbuf 1).toNat = len := by
    rw [h1, BitVec.toNat_ofNat]
    omega
  refine ⟨?_, ?_, ?_, ?_⟩
  · unfold bodyLen
    rw [if_pos rfl, h0, if_neg (by decide), hbyte]
  · unfold announced
    rw [h0, if_neg (by decide), if_neg (by decide), hbyte]
  · unfold tailLen
    rw [h0]
    rfl
  · rw [boundary_eq]
    omega

private theorem framed_padding {m : ℕ → Byte} {i : ℕ} (htail : tailLen m = 0) (hlo : 20 + len ≤ i)
    (hhi : i < 20 + len + 15) : framed crc32 m len i = 0xFF := by
  unfold framed
  rw [htail]
  obtain ⟨k, rfl⟩ := Nat.exists_eq_add_of_le hlo
  change put _ 4 _ (20 + len + k) = 0xFF
  rw [put_of_le (by simp; omega)]
  change put _ (20 + len) _ (20 + len + k) = 0xFF
  rw [put_at (by rw [List.length_replicate]; omega), List.getElem_replicate]

private theorem card_wire (hs : Session cl p) (h0 : mbuf 0 = 5) (h1 : mbuf 1 = .ofNat 8 len)
    (hlen : len = 111 ∨ len = 112) : camd35Send crc32 cl mbuf 0 =
      some (packet cl (framed crc32 mbuf len) (boundary 4 (20 + tailLen mbuf + len))) := by
  obtain ⟨hbody, hann, htail, hsize⟩ := card_frame h0 h1 hlen
  have hsend := @send_eq crc32 _ _ ⟨mbuf, 0, len⟩ hs _ rfl
  change camd35Send crc32 cl mbuf 0 = if _ < 4 + (20 + tailLen mbuf + bodyLen mbuf 0) + 15 then none
    else some (packet cl (framed crc32 mbuf (bodyLen mbuf 0))
      (boundary 4 (20 + tailLen mbuf + bodyLen mbuf 0))) at hsend
  rw [hbody, if_neg (by unfold REQ_SIZE MAX_ECM_SIZE; omega)] at hsend
  exact hsend

private theorem card_room (hlen : len = 111 ∨ len = 112) (htail : tailLen mbuf = 0) :
    Room p (20 + tailLen mbuf + len) := by
  unfold Room
  rw [htail, boundary_eq]
  split_ifs <;> omega

/-- What is received is the message. -/
theorem carried_of_gets (hs : Session cl p) (h0 : mbuf 0 = 5) (h1 : mbuf 1 = .ofNat 8 len)
    (hlen : len = 111 ∨ len = 112) (h : Gets crc32 cl p mbuf d) : Carried len mbuf d := by
  obtain ⟨hbody, hann, htail, hsize⟩ := card_frame h0 h1 hlen
  have h4 : mbuf 0 ≠ 4 := by
    rw [h0]
    decide
  obtain ⟨wire, buf, rest, segs, r, hwire, harr, hr, rfl⟩ := h
  rw [card_wire hs h0 h1 hlen] at hwire
  obtain rfl := Option.some.inj hwire
  obtain ⟨r', hr', -, hcells, -⟩ := recv_packet hs hann h4 rfl (card_room hlen htail) harr buf
  rw [hr] at hr'
  obtain rfl := Option.some.inj hr'
  rw [htail, hsize] at hcells
  constructor
  · intro i hi hcrc
    rw [hcells i (by omega), framed_apply (by omega) hcrc]
  · intro i hlo hhi
    rw [hcells i hhi, framed_padding htail hlo (by omega)]

/-- The message is received, and on a stream anything can stand behind it. -/
theorem exists_gets (hs : Session cl p) (h0 : mbuf 0 = 5) (h1 : mbuf 1 = .ofNat 8 len)
    (hlen : len = 111 ∨ len = 112) (g : ℕ → Byte) :
    ∃ d, Gets crc32 cl p mbuf d ∧ (p.isUdp = false → ∀ i, 144 ≤ i → d i = g i) := by
  obtain ⟨hbody, hann, htail, hsize⟩ := card_frame h0 h1 hlen
  have h4 : mbuf 0 ≠ 4 := by
    rw [h0]
    decide
  have harr := arrives_alone (p := p) (@packet_ne_nil cl (framed crc32 mbuf len)
    (boundary 4 (20 + tailLen mbuf + len)))
  obtain ⟨r, hr, -⟩ := recv_packet hs hann h4 rfl (card_room hlen htail) harr g
  refine ⟨r.buf, ⟨_, g, [], _, r, card_wire hs h0 h1 hlen, harr, hr, rfl⟩, fun htcp i hi => ?_⟩
  refine recv_behind hs htcp hann h4 rfl harr hr (by omega) ?_
  rw [htail, hsize]
  exact hi

end Frame

section Cells

variable {er : EmmRequest} {a : AuReader} {d : ℕ → Byte} {i n : ℕ}

/-- A cell that no later step of a loop writes. -/
theorem foldl_range_cell {f : (ℕ → Byte) → ℕ → ℕ → Byte} {buf : ℕ → Byte} {o : ℕ} (hi : i < n)
    (hlater : ∀ j, i < j → j < n → ∀ buf, f buf j o = buf o) :
    (List.range n).foldl f buf o = f ((List.range i).foldl f buf) i o := by
  obtain ⟨k, rfl⟩ := Nat.exists_eq_add_of_lt hi
  rw [Nat.add_assoc, List.range_add, List.foldl_append, Nat.add_comm k 1, List.range_add, List.map_append,
    List.foldl_append, foldl_cell]
  · rfl
  · intro buf j hj
    simp only [List.mem_map, List.mem_range] at hj
    obtain ⟨m, ⟨q, hq, rfl⟩, rfl⟩ := hj
    exact hlater _ (by omega) (by omega) buf

private theorem putProvider_of_before {four : Bool} {rdr : Card} {buf : ℕ → Byte} {j o : ℕ}
    (ho : o < 48 + j * 5) : putProvider four rdr buf j o = buf o := by
  unfold putProvider
  split_ifs
  · rw [put_of_lt (by omega), put_of_lt (by omega)]
  · rw [put_of_lt (by omega), put_of_lt (by omega), put_of_lt (by omega)]

private theorem cardMessage_putCard (hcaid : a.caid ≠ 0) {o : ℕ} (ho : 12 ≤ o) :
    cardMessage er a o = putCard a.caid a (cardHead er a) o := by
  have hau : auCaid a er = a.caid := by
    unfold auCaid
    rw [if_neg fun h => hcaid h.1]
  unfold cardMessage
  rw [put_of_le (by rw [length_slice]; omega), hau, if_pos hcaid]

private theorem putFlags_of_lt {buf : ℕ → Byte} {o : ℕ} (ho : o < 127) : putFlags a buf o = buf o := by
  unfold putFlags
  rw [put_of_lt ho, put_of_lt (by omega), put_of_lt (by omega), put_of_lt (by omega)]

private theorem putFlags_tail (buf : ℕ → Byte) : ∀ o, 127 ≤ o → o < 131 →
    putFlags a buf o = tailByte a o := by
  intro o hlo hhi
  have hcases : o = 127 ∨ o = 128 ∨ o = 129 ∨ o = 130 := by omega
  rcases hcases with rfl | rfl | rfl | rfl <;> rfl

/-- The bytes of a provider are where they belong after its turn. -/
private theorem putProvider_bytes (rdr : Card) (buf : ℕ → Byte) (i : ℕ) :
    ∀ x ∈ providerBytes rdr i, putProvider (fourBytes rdr.caid) rdr buf i x.1 = x.2 := by
  intro x hx
  unfold providerBytes at hx
  unfold putProvider
  by_cases hfour : fourBytes rdr.caid = true
  · rw [if_pos hfour] at hx ⊢
    have hprid : ∀ (k : ℕ) (hk : k < 3), put (put buf (48 + i * 5) [(rdr.prid i)[0]!]) (50 + i * 5)
        [(rdr.prid i)[1]!, (rdr.prid i)[2]!, (rdr.prid i)[3]!] (50 + i * 5 + k) =
          [(rdr.prid i)[1]!, (rdr.prid i)[2]!, (rdr.prid i)[3]!][k] := fun k hk => put_at hk
    simp only [List.mem_cons, List.not_mem_nil, or_false] at hx
    rcases hx with rfl | rfl | rfl | rfl
    · rw [put_of_lt (by dsimp only; omega), put_self]
    · exact hprid 0 (by omega)
    · exact hprid 1 (by omega)
    · exact hprid 2 (by omega)
  · rw [if_neg hfour] at hx ⊢
    have hsa : ∀ (k : ℕ) (hk : k < 4), put (put (put buf (48 + i * 5) [(rdr.prid i)[2]!]) (49 + i * 5)
        [(rdr.prid i)[3]!]) (50 + i * 5) (rdr.sa i).toList (50 + i * 5 + k) = (rdr.sa i)[k] := by
      intro k hk
      rw [put_at (by rwa [Vector.length_toList])]
      exact Vector.getElem_toList _
    simp only [List.mem_cons, List.not_mem_nil, or_false] at hx
    rcases hx with rfl | rfl | rfl | rfl | rfl | rfl
    · rw [put_of_lt (by dsimp only; omega), put_of_lt (by dsimp only; omega), put_self]
    · rw [put_of_lt (by dsimp only; omega), put_self]
    · exact hsa 0 (by omega)
    · exact hsa 1 (by omega)
    · exact hsa 2 (by omega)
    · exact hsa 3 (by omega)

theorem providerBytes_place {rdr : Card} {x : ℕ × Byte} (hx : x ∈ providerBytes rdr i) :
    48 + i * 5 ≤ x.1 ∧ x.1 ≤ 50 + i * 5 + 3 ∧
      (fourBytes rdr.caid = true → x.1 ≤ 50 + i * 5 + 2) := by
  unfold providerBytes at hx
  by_cases hfour : fourBytes rdr.caid = true
  · rw [if_pos hfour] at hx
    simp only [List.mem_cons, List.not_mem_nil, or_false] at hx
    rcases hx with rfl | rfl | rfl | rfl <;> dsimp only <;> omega
  · rw [if_neg hfour] at hx
    refine ⟨?_, ?_, fun h => absurd h hfour⟩ <;>
      simp only [List.mem_cons, List.not_mem_nil, or_false] at hx <;>
      rcases hx with rfl | rfl | rfl | rfl | rfl | rfl <;> dsimp only <;> omega

/-- A byte before the flags: the next provider overwrites the last byte of a shared address. -/
theorem putProviders_bytes (buf : ℕ → Byte) (hi : i < a.nprov) {x : ℕ × Byte}
    (hx : x ∈ providerBytes a.toCard i) : putProviders a.caid a buf x.1 =
      if x.1 = 50 + i * 5 + 3 ∧ i + 1 < a.nprov then (a.prid (i + 1))[2]! else x.2 := by
  unfold putProviders
  by_cases hshared : x.1 = 50 + i * 5 + 3 ∧ i + 1 < a.nprov
  · rw [if_pos hshared, foldl_range_cell hshared.2 fun j hj _ b => putProvider_of_before (by omega)]
    have hfour : fourBytes a.caid = false := by
      rw [← Bool.not_eq_true]
      intro hfour
      have hplace := (providerBytes_place hx).2.2 hfour
      omega
    have hfirst : (48 + (i + 1) * 5, (a.prid (i + 1))[2]!) ∈ providerBytes a.toCard (i + 1) := by
      unfold providerBytes
      rw [if_neg (by rw [hfour]; exact Bool.false_ne_true)]
      exact List.mem_cons_self
    have hplace : x.1 = 48 + (i + 1) * 5 := by omega
    rw [hplace]
    exact putProvider_bytes a.toCard _ (i + 1) _ hfirst
  · rw [if_neg hshared, foldl_range_cell hi fun j hj hjn b => ?_]
    · exact putProvider_bytes a.toCard _ i x hx
    · apply putProvider_of_before
      have hplace := providerBytes_place hx
      omega

/-- What a reader finds at the place of a byte. -/
private theorem carried_bytes (hcaid : a.caid ≠ 0) (hd : Carried 111 (cardMessage er a) d)
    (hn : a.nprov ≤ 19) (hi : i < a.nprov) {x : ℕ × Byte} (hx : x ∈ providerBytes a.toCard i) :
    d x.1 = if 127 ≤ x.1 then tailByte a x.1
      else if x.1 = 50 + i * 5 + 3 ∧ i + 1 < a.nprov then (a.prid (i + 1))[2]! else x.2 := by
  have hplace := providerBytes_place hx
  by_cases htail : 127 ≤ x.1
  · rw [if_pos htail]
    rcases Nat.lt_or_ge x.1 131 with hlt | hge
    · rw [hd.message x.1 hlt (by omega), cardMessage_putCard hcaid (by omega)]
      exact putFlags_tail _ x.1 htail hlt
    · rw [hd.padding x.1 hge (by omega)]
      unfold tailByte
      rw [if_neg (by omega), if_neg (by omega), if_neg (by omega), if_neg (by omega)]
  · rw [if_neg htail, hd.message x.1 (by omega) (by omega), cardMessage_putCard hcaid (by omega)]
    unfold putCard
    rw [putFlags_of_lt (by omega), putProviders_bytes _ hi hx]

/-- All bytes of the providers arrive exactly if no provider lies on something else; `tail` stands from
127 on. -/
theorem providers_arrive_iff {f tail : ℕ → Byte} (hf : ∀ i < a.nprov, ∀ x ∈ providerBytes a.toCard i,
    f x.1 = if 127 ≤ x.1 then tail x.1
      else if x.1 = 50 + i * 5 + 3 ∧ i + 1 < a.nprov then (a.prid (i + 1))[2]! else x.2) :
    (∀ i < a.nprov, ∀ x ∈ providerBytes a.toCard i, f x.1 = x.2) ↔
      (∀ i < a.nprov, ∀ x ∈ providerBytes a.toCard i, 127 ≤ x.1 → x.2 = tail x.1) ∧
        (fourBytes a.caid = false → ∀ i, i + 1 < a.nprov → i < 15 →
          (a.sa i)[3]! = (a.prid (i + 1))[2]!) := by
  constructor
  · intro hall
    constructor
    · intro i hi x hx htail
      have hbyte := hf i hi x hx
      rw [if_pos htail, hall i hi x hx] at hbyte
      exact hbyte
    · intro hfour i hi hi15
      have hx : (50 + i * 5 + 3, (a.sa i)[3]!) ∈ providerBytes a.toCard i := by
        unfold providerBytes
        rw [if_neg (by rw [hfour]; exact Bool.false_ne_true)]
        simp only [List.mem_cons, true_or, or_true]
      have hbyte := hf i (by omega) _ hx
      rw [if_neg (by dsimp only; omega), if_pos ⟨rfl, hi⟩, hall i (by omega) _ hx] at hbyte
      exact hbyte
  · rintro ⟨htail, hshared⟩ i hi x hx
    rw [hf i hi x hx]
    split_ifs with h127 hlast
    · exact (htail i hi x hx h127).symm
    · have hplace := providerBytes_place hx
      have hfour : fourBytes a.caid = false := by
        rw [← Bool.not_eq_true]
        intro hfour
        have := hplace.2.2 hfour
        omega
      rw [← hshared hfour i hlast.2 (by omega)]
      unfold providerBytes at hx
      rw [if_neg (by rw [hfour]; exact Bool.false_ne_true)] at hx
      simp only [List.mem_cons, List.not_mem_nil, or_false] at hx
      have hplace := hlast.1
      rcases hx with rfl | rfl | rfl | rfl | rfl | rfl <;>
        first | rfl | (dsimp only at hplace; omega)
    · rfl

end Cells

section Receiver

variable {a : AuReader} {r rdr : Card} {d buf : ℕ → Byte} {get : Bool}

private theorem vector_four {v : Vector Byte 4} {w x y z : Byte} :
    #v[w, x, y, z] = v ↔ w = v[0]! ∧ x = v[1]! ∧ y = v[2]! ∧ z = v[3]! := by
  constructor
  · rintro rfl
    exact ⟨rfl, rfl, rfl, rfl⟩
  · rintro ⟨rfl, rfl, rfl, rfl⟩
    apply Vector.ext
    intro i hi
    have hcases : i = 0 ∨ i = 1 ∨ i = 2 ∨ i = 3 := by omega
    rcases hcases with rfl | rfl | rfl | rfl <;> rfl

/-- The loop of the receiver sets each provider by itself. -/
theorem getProviders (buf : ℕ → Byte) (rdr : Card) (n : ℕ) :
    ∃ c, (List.range n).foldl (getProvider buf) rdr = c ∧ c.caid = rdr.caid ∧ c.nprov = rdr.nprov ∧
      c.blockemm = rdr.blockemm ∧ c.hexserial = rdr.hexserial ∧ ∀ i, (c.prid i, c.sa i) =
        if i < n then ((getProvider buf rdr i).prid i, (getProvider buf rdr i).sa i)
        else (rdr.prid i, rdr.sa i) := by
  induction n with
  | zero => exact ⟨rdr, rfl, rfl, rfl, rfl, rfl, fun i => rfl⟩
  | succ n ih =>
    obtain ⟨c, hc, hcaid, hnprov, hblock, hserial, hprov⟩ := ih
    refine ⟨getProvider buf c n, ?_, ?_, ?_, ?_, ?_, ?_⟩
    · rw [List.range_succ, List.foldl_append, hc]
      rfl
    · rw [← hcaid]
      unfold getProvider
      split <;> rfl
    · rw [← hnprov]
      unfold getProvider
      split <;> rfl
    · rw [← hblock]
      unfold getProvider
      split <;> rfl
    · rw [← hserial]
      unfold getProvider
      split <;> rfl
    · intro i
      by_cases hin : i = n
      · subst hin
        have hold := hprov i
        rw [if_neg (Nat.lt_irrefl i)] at hold
        obtain ⟨hprid, hsa⟩ := Prod.mk.inj hold
        rw [if_pos (Nat.lt_succ_self i)]
        unfold getProvider
        rw [hcaid]
        split
        · simp only [Function.update_self, hsa]
        · simp only [Function.update_self, hprid]
      · have hkeep : ((getProvider buf c n).prid i, (getProvider buf c n).sa i) = (c.prid i, c.sa i) := by
          unfold getProvider
          split
          · simp only [Function.update_of_ne hin]
          · simp only [Function.update_of_ne hin]
        rw [hkeep, hprov i]
        have hiff : i < n + 1 ↔ i < n := by omega
        simp only [hiff]

/-- A provider arrives exactly if its bytes do and the reader has already what is not sent. -/
theorem provider_iff (hcaid : rdr.caid = a.caid) (i : ℕ) :
    (getProvider d rdr i).prid i = a.prid i ∧ (getProvider d rdr i).sa i = a.sa i ↔
      (∀ x ∈ providerBytes a.toCard i, d x.1 = x.2) ∧
        (fourBytes a.caid = false → (rdr.prid i)[0]! = (a.prid i)[0]! ∧ (rdr.prid i)[1]! = (a.prid i)[1]!) ∧
        (fourBytes a.caid = true → rdr.sa i = a.sa i) := by
  unfold getProvider providerBytes
  rw [hcaid]
  cases hfour : fourBytes a.caid with
  | true =>
    simp only [if_true, Function.update_self, vector_four, List.forall_mem_cons, List.not_mem_nil,
      false_implies, implies_true, and_true, Bool.true_eq_false, true_and, forall_const, and_assoc]
  | false =>
    simp only [Bool.false_eq_true, if_false, Function.update_self, vector_four, List.forall_mem_cons,
      List.not_mem_nil, false_implies, implies_true, and_true, forall_const, and_assoc]
    constructor
    · rintro ⟨h0, h1, h2, h3, h4, h5, h6, h7⟩
      exact ⟨h2, h3, h4, h5, h6, h7, h0, h1⟩
    · rintro ⟨h2, h3, h4, h5, h6, h7, h0, h1⟩
      exact ⟨h0, h1, h2, h3, h4, h5, h6, h7⟩

/-- The same for all providers of a card. -/
theorem same_providers_iff {r' : Card} (hcaid : rdr.caid = a.caid) (hprov : ∀ i < a.nprov,
    r'.prid i = (getProvider d rdr i).prid i ∧ r'.sa i = (getProvider d rdr i).sa i) :
    (∀ i < a.nprov, r'.prid i = a.prid i ∧ r'.sa i = a.sa i) ↔
      (∀ i < a.nprov, ∀ x ∈ providerBytes a.toCard i, d x.1 = x.2) ∧
        (fourBytes a.caid = false → ∀ i < a.nprov,
          (rdr.prid i)[0]! = (a.prid i)[0]! ∧ (rdr.prid i)[1]! = (a.prid i)[1]!) ∧
        (fourBytes a.caid = true → ∀ i < a.nprov, rdr.sa i = a.sa i) := by
  have hone : ∀ i < a.nprov, r'.prid i = a.prid i ∧ r'.sa i = a.sa i ↔
      (∀ x ∈ providerBytes a.toCard i, d x.1 = x.2) ∧
        (fourBytes a.caid = false → (rdr.prid i)[0]! = (a.prid i)[0]! ∧
          (rdr.prid i)[1]! = (a.prid i)[1]!) ∧
        (fourBytes a.caid = true → rdr.sa i = a.sa i) := by
    intro i hi
    rw [(hprov i hi).1, (hprov i hi).2]
    exact provider_iff hcaid i
  constructor
  · intro hall
    exact ⟨fun i hi => ((hone i hi).mp (hall i hi)).1,
      fun hfour i hi => ((hone i hi).mp (hall i hi)).2.1 hfour,
      fun hfour i hi => ((hone i hi).mp (hall i hi)).2.2 hfour⟩
  · rintro ⟨hbytes, hupper, haddresses⟩ i hi
    exact (hone i hi).mpr ⟨hbytes i hi, fun hfour => hupper hfour i hi,
      fun hfour => haddresses hfour i hi⟩

private theorem recvCmd05_fields (h0 : buf 0 = 5) (h1 : buf 1 = 111) :
    (recvCmd05 get r buf).caid = (b2i 2 buf 20).setWidth 16 ∧
      (recvCmd05 get r buf).nprov = (buf 47).toNat ∧
      (recvCmd05 get r buf).hexserial =
        #v[buf 40, buf 41, buf 42, buf 43, buf 44, buf 45, 0, 0] ∧
      (recvCmd05 get r buf).blockemm = (if get then readBlockemm buf else r.blockemm) ∧
      ∃ rdr, rdr.caid = (b2i 2 buf 20).setWidth 16 ∧ rdr.prid = r.prid ∧ rdr.sa = r.sa ∧
        ∀ i < (buf 47).toNat, (recvCmd05 get r buf).prid i = (getProvider buf rdr i).prid i ∧
          (recvCmd05 get r buf).sa i = (getProvider buf rdr i).sa i := by
  obtain ⟨c, hc, hcaid, hnprov, hblock, -, hprov⟩ := getProviders buf
    { r with nprov := (buf 47).toNat, caid := (b2i 2 buf 20).setWidth 16 } (buf 47).toNat
  unfold recvCmd05
  rw [if_pos ⟨h0, h1⟩]
  dsimp only
  rw [hc]
  have hpair : ∀ i < (buf 47).toNat, c.prid i = (getProvider buf
      { r with nprov := (buf 47).toNat, caid := (b2i 2 buf 20).setWidth 16 } i).prid i ∧
      c.sa i = (getProvider buf
        { r with nprov := (buf 47).toNat, caid := (b2i 2 buf 20).setWidth 16 } i).sa i := by
    intro i hi
    have hold := hprov i
    rw [if_pos hi] at hold
    exact Prod.mk.inj hold
  cases get with
  | true =>
    exact ⟨hcaid, hnprov, rfl, rfl,
      { r with nprov := (buf 47).toNat, caid := (b2i 2 buf 20).setWidth 16 }, rfl, rfl, rfl, hpair⟩
  | false =>
    exact ⟨hcaid, hnprov, rfl, hblock,
      { r with nprov := (buf 47).toNat, caid := (b2i 2 buf 20).setWidth 16 }, rfl, rfl, rfl, hpair⟩

/-- A type is blocked unless its flag is 1. -/
private theorem readBlockemm_type :
    readBlockemm buf &&& EMM_UNKNOWN = (if buf 127 = 1 then 0 else EMM_UNKNOWN) ∧
      readBlockemm buf &&& EMM_GLOBAL = (if buf 128 = 1 then 0 else EMM_GLOBAL) ∧
      readBlockemm buf &&& EMM_SHARED = (if buf 129 = 1 then 0 else EMM_SHARED) ∧
      readBlockemm buf &&& EMM_UNIQUE = (if buf 130 = 1 then 0 else EMM_UNIQUE) := by
  unfold readBlockemm
  split_ifs <;> decide

/-- The flag of a type arrives as it is unless the type is both blocked and saved. -/
theorem flag_iff {type : BitVec 32} (hne : type ≠ 0) :
    ((if emmFlag a type = 1 then 0 else type) = 0 ↔ a.blockemm &&& type = 0) ↔
      (a.blockemm &&& type = 0 ∨ a.saveemm &&& type = 0) := by
  by_cases hflag : a.blockemm &&& type ≠ 0 ∧ a.saveemm &&& type = 0
  · have hzero : emmFlag a type = 0 := if_pos hflag
    rw [hzero, if_neg (by decide)]
    exact iff_of_true (iff_of_false hne hflag.1) (Or.inr hflag.2)
  · have hone : emmFlag a type = 1 := if_neg hflag
    rw [hone, if_pos rfl]
    by_cases hblock : a.blockemm &&& type = 0
    · exact iff_of_true (iff_of_true rfl hblock) (Or.inl hblock)
    · exact iff_of_false (fun h => hblock (h.mp rfl))
        (not_or.mpr ⟨hblock, fun hsave => hflag ⟨hblock, hsave⟩⟩)

private theorem blockemm_iff (hd : ∀ o, 127 ≤ o → o < 131 → d o = tailByte a o) :
    (∀ type ∈ emmTypes, readBlockemm d &&& type = 0 ↔ a.blockemm &&& type = 0) ↔
      ∀ type ∈ emmTypes, a.blockemm &&& type = 0 ∨ a.saveemm &&& type = 0 := by
  obtain ⟨hunknown, hglobal, hshared, hunique⟩ := @readBlockemm_type d
  rw [hd 127 (by omega) (by omega)] at hunknown
  rw [hd 128 (by omega) (by omega)] at hglobal
  rw [hd 129 (by omega) (by omega)] at hshared
  rw [hd 130 (by omega) (by omega)] at hunique
  unfold emmTypes
  simp only [List.forall_mem_cons, List.not_mem_nil, false_implies, implies_true, and_true]
  rw [hunknown, hglobal, hshared, hunique]
  exact and_congr (flag_iff (by decide)) (and_congr (flag_iff (by decide))
    (and_congr (flag_iff (by decide)) (flag_iff (by decide))))

end Receiver

section Card

variable {er : EmmRequest} {a : AuReader} {r : Card} {d : ℕ → Byte} {get : Bool}

private theorem cardMessage_low {o : ℕ} (ho : 12 ≤ o) (ho' : o < 48) :
    cardMessage er a o = if auCaid a er ≠ 0 then putCardHead (auCaid a er) a (cardHead er a) o
      else putNoCard (cardHead er a) o := by
  unfold cardMessage
  rw [put_of_le (by rw [length_slice]; omega)]
  split_ifs
  · unfold putCard putProviders
    rw [putFlags_of_lt (by omega), foldl_cell fun _ _ _ => putProvider_of_before (by omega)]
  · rfl

private theorem caid_bytes (caid : BitVec 16) :
    [(caid >>> 8).setWidth 8, (caid &&& 0xFF).setWidth 8] = i2b 2 (caid.setWidth 32) := by
  have hhigh : (caid >>> 8).setWidth 8 = ((caid.setWidth 32) >>> 8).setWidth 8 := by
    apply BitVec.eq_of_toNat_eq
    simp only [BitVec.toNat_setWidth, BitVec.toNat_ushiftRight, Nat.shiftRight_eq_div_pow]
    have := caid.isLt
    omega
  have hlow : (caid &&& 0xFF).setWidth 8 = (caid.setWidth 32).setWidth 8 := by
    apply BitVec.eq_of_toNat_eq
    simp only [BitVec.toNat_setWidth, BitVec.toNat_and]
    have hmask : caid.toNat &&& 255 = caid.toNat % 256 := Nat.and_two_pow_sub_one_eq_mod caid.toNat 8
    have := caid.isLt
    change (caid.toNat &&& 255) % 2 ^ 8 = _
    rw [hmask]
    omega
  rw [hhigh, hlow]
  rfl

/-- The caid that arrives. -/
private theorem read_caid (hd : Carried 111 (cardMessage er a) d) :
    (b2i 2 d 20).setWidth 16 = if auCaid a er ≠ 0 then auCaid a er else 0x100 := by
  have h20 := hd.message 20 (by omega) (by omega)
  have h21 := hd.message 21 (by omega) (by omega)
  rw [cardMessage_low (by omega) (by omega)] at h20 h21
  by_cases hcaid : auCaid a er ≠ 0
  · rw [if_pos hcaid] at h20 h21 ⊢
    have hbytes : Holds d 20 (i2b 2 ((auCaid a er).setWidth 32)) := by
      rw [← caid_bytes, holds_cons, holds_cons]
      exact ⟨h20, h21, holds_nil⟩
    rw [b2i_two hbytes]
    apply BitVec.eq_of_toNat_eq
    simp only [BitVec.toNat_setWidth]
    have := (auCaid a er).isLt
    omega
  · rw [if_neg hcaid] at h20 h21 ⊢
    have h20' : d 20 = 1 := h20
    have h21' : d 21 = 0 := h21
    have hbytes : Holds d 20 (i2b 2 0x100) := by
      change Holds d 20 [1, 0]
      rw [holds_cons, holds_cons]
      exact ⟨h20', h21', holds_nil⟩
    rw [b2i_two hbytes]
    decide

private theorem read_low (hcaid : a.caid ≠ 0) (hd : Carried 111 (cardMessage er a) d) :
    (∀ (k : ℕ), k < 6 → d (40 + k) = a.hexserial[k]!) ∧ (d 47).toNat = a.nprov := by
  have hau : auCaid a er = a.caid := by
    unfold auCaid
    rw [if_neg fun h => hcaid h.1]
  have hlow : ∀ o, 22 ≤ o → o < 48 → d o = putCardHead a.caid a (cardHead er a) o := by
    intro o ho ho'
    rw [hd.message o (by omega) (by omega), cardMessage_low (by omega) ho', hau, if_pos hcaid]
  have hserial : (a.hexserial.toList.take 6).length = 6 := by
    rw [List.length_take, Vector.length_toList]
    rfl
  constructor
  · intro k hk
    rw [hlow _ (by omega) (by omega)]
    unfold putCardHead
    rw [put_of_lt (by omega), put_at (by omega), List.getElem_take, getElem!_pos a.hexserial k (by omega)]
    exact Vector.getElem_toList _
  · rw [hlow 47 (by omega) (by omega)]
    unfold putCardHead
    rw [put_self, BitVec.toNat_ofNat]
    have hle : a.nprov ≤ 128 := a.nprov_le
    omega

/-- A serial of six bytes arrives as it is. -/
theorem hexserial_iff {b : ℕ → Byte} (h : ∀ (k : ℕ), k < 6 → b k = a.hexserial[k]!) :
    #v[b 0, b 1, b 2, b 3, b 4, b 5, 0, 0] = a.hexserial ↔
      a.hexserial[6]! = 0 ∧ a.hexserial[7]! = 0 := by
  constructor
  · intro heq
    rw [← heq]
    exact ⟨rfl, rfl⟩
  · rintro ⟨h6, h7⟩
    apply Vector.ext
    intro i hi
    have hcases : i = 0 ∨ i = 1 ∨ i = 2 ∨ i = 3 ∨ i = 4 ∨ i = 5 ∨ i = 6 ∨ i = 7 := by omega
    rcases hcases with rfl | rfl | rfl | rfl | rfl | rfl | rfl | rfl
    · exact h 0 (by omega)
    · exact h 1 (by omega)
    · exact h 2 (by omega)
    · exact h 3 (by omega)
    · exact h 4 (by omega)
    · exact h 5 (by omega)
    · exact h6.symm
    · exact h7.symm

private theorem card_head (hd : Carried 111 (cardMessage er a) d) : d 0 = 5 ∧ d 1 = 111 := by
  obtain ⟨h0, h1⟩ := cardMessage_head er a
  rw [hd.message 0 (by omega) (by omega), hd.message 1 (by omega) (by omega)]
  exact ⟨h0, h1⟩

/-- A card with a caid and at most 19 providers. -/
private theorem sameCard_iff (hcaid : a.caid ≠ 0) (hn : a.nprov ≤ 19)
    (hd : Carried 111 (cardMessage er a) d) : SameCard a (recvCmd05 get r d) ↔ CardFits get a r := by
  have hau : auCaid a er = a.caid := by
    unfold auCaid
    rw [if_neg fun h => hcaid h.1]
  have hread := read_caid hd
  rw [hau, if_pos hcaid] at hread
  obtain ⟨hserial, hnprov⟩ := read_low hcaid hd
  obtain ⟨h0, h1⟩ := card_head hd
  obtain ⟨hcaid', hnprov', hserial', hblock', rdr, hrdr, hprid, hsa, hprov⟩ :=
    @recvCmd05_fields r _ get h0 h1
  rw [hnprov] at hprov
  have htail : ∀ o, 127 ≤ o → o < 131 → d o = tailByte a o := by
    intro o ho ho'
    rw [hd.message o (by omega) (by omega), cardMessage_putCard hcaid (by omega)]
    exact putFlags_tail _ o ho ho'
  have hproviders := same_providers_iff (hrdr.trans hread) hprov
  rw [hprid, hsa] at hproviders
  have hblock : (∀ type ∈ emmTypes, (recvCmd05 get r d).blockemm &&& type = 0 ↔
      a.blockemm &&& type = 0) ↔ ∀ type ∈ emmTypes,
        if get then a.blockemm &&& type = 0 ∨ a.saveemm &&& type = 0
        else (r.blockemm &&& type = 0 ↔ a.blockemm &&& type = 0) := by
    rw [hblock']
    cases get with
    | true => exact blockemm_iff htail
    | false => exact Iff.rfl
  rw [providers_arrive_iff fun i hi x hx => carried_bytes hcaid hd hn hi hx] at hproviders
  constructor
  · intro hsame
    obtain ⟨⟨htail', hshared⟩, hupper, haddresses⟩ :=
      hproviders.mp fun i hi => ⟨hsame.prid i hi, hsame.sa i hi⟩
    refine ⟨hcaid, ?_, hn, htail', hshared, hupper, haddresses, hblock.mp hsame.blockemm⟩
    exact (hexserial_iff hserial).mp (hserial'.symm.trans hsame.hexserial)
  · intro hfits
    have hall := hproviders.mpr ⟨⟨hfits.tail, hfits.shared⟩, hfits.upper, hfits.addresses⟩
    refine ⟨hcaid'.trans hread, hnprov'.trans hnprov, fun i hi => (hall i hi).1,
      fun i hi => (hall i hi).2, ?_, hblock.mpr hfits.blockemm⟩
    exact hserial'.trans ((hexserial_iff hserial).mpr hfits.hexserial)

private theorem second_ignored {mbuf : ℕ → Byte} (h0 : mbuf 0 = 5) (h1 : mbuf 1 = 112)
    (hd : Carried 112 mbuf d) : recvCmd05 get r d = r := by
  unfold recvCmd05
  rw [hd.message 0 (by omega) (by omega), hd.message 1 (by omega) (by omega), h0, h1]
  rfl

/-- The first message decides. -/
private theorem announces_first : Announces get [cardMessage er a, put (cardMessage er a) 1 [112]] a r ↔
    ∀ crc32 cl p, Session cl p → ∀ d, Gets crc32 cl p (cardMessage er a) d →
      SameCard a (recvCmd05 get r d) := by
  obtain ⟨h0, h1⟩ := cardMessage_head er a
  have h0' : put (cardMessage er a) 1 [112] 0 = 5 := (put_of_lt (by omega)).trans h0
  have h1' : put (cardMessage er a) 1 [112] 1 = 112 := put_self
  constructor
  · intro hall crc32 cl p hs d hd
    obtain ⟨d₂, hd₂, -⟩ := @exists_gets crc32 _ _ _ _ hs h0' h1' (Or.inr rfl) fun _ => 0
    have hboth := hall crc32 cl p hs [d, d₂] (.cons hd (.cons hd₂ .nil))
    change SameCard a (recvCmd05 get (recvCmd05 get r d) d₂) at hboth
    rw [second_ignored h0' h1' (carried_of_gets hs h0' h1' (Or.inr rfl) hd₂)] at hboth
    exact hboth
  · intro hall crc32 cl p hs ds hds
    obtain ⟨d₁, ds', hd₁, hds', rfl⟩ := List.forall₂_cons_left_iff.mp hds
    obtain ⟨d₂, ds'', hd₂, hds'', rfl⟩ := List.forall₂_cons_left_iff.mp hds'
    rw [List.forall₂_nil_left_iff] at hds''
    subst hds''
    have hsecond := carried_of_gets hs h0' h1' (Or.inr rfl) hd₂
    change SameCard a (recvCmd05 get (recvCmd05 get r d₁) d₂)
    rw [second_ignored h0' h1' hsecond]
    exact hall crc32 cl p hs d₁ hd₁

/-- More than 19 providers reach bytes that are not sent at all. -/
private theorem not_same_of_many (hcaid : a.caid ≠ 0) (hn : 19 < a.nprov)
    (hd : Carried 111 (cardMessage er a) d)
    (hbehind : ∀ i, 144 ≤ i → d i = if fourBytes a.caid then (a.prid 19)[1]! + 1 else (a.sa 19)[3]! + 1) :
    ¬ SameCard a (recvCmd05 get r d) := by
  intro hsame
  have hau : auCaid a er = a.caid := by
    unfold auCaid
    rw [if_neg fun h => hcaid h.1]
  have hread := read_caid hd
  rw [hau, if_pos hcaid] at hread
  obtain ⟨h0, h1⟩ := card_head hd
  obtain ⟨-, -, -, -, rdr, hrdr, -, -, hprov⟩ := @recvCmd05_fields r _ get h0 h1
  rw [(read_low hcaid hd).2] at hprov
  have hbytes := ((provider_iff (hrdr.trans hread) 19).mp
    ⟨(hprov 19 hn).1 ▸ hsame.prid 19 hn, (hprov 19 hn).2 ▸ hsame.sa 19 hn⟩).1
  have hnext : ∀ b : Byte, b + 1 ≠ b := by decide
  cases hfour : fourBytes a.caid with
  | true =>
    rw [hfour] at hbehind
    have hx := hbytes (50 + 19 * 5, (a.prid 19)[1]!) (by unfold providerBytes; rw [hfour]; simp)
    rw [hbehind _ (show 144 ≤ 50 + 19 * 5 by omega)] at hx
    exact hnext _ hx
  | false =>
    rw [hfour] at hbehind
    have hx := hbytes (50 + 19 * 5 + 3, (a.sa 19)[3]!) (by unfold providerBytes; rw [hfour]; simp)
    rw [hbehind _ (show 144 ≤ 50 + 19 * 5 + 3 by omega)] at hx
    exact hnext _ hx

/-- When a reader gets the card that the server sends. -/
theorem announces_iff {emmReaderMatch : AuReader → BitVec 16 → BitVec 32 → Bool} {now : ℤ}
    {er : EmmRequest} {cl : AuClient} {a : AuReader} (hsel : selectAureader emmReaderMatch er cl = some a)
    (hsent : (camd35RequestEmm emmReaderMatch now er cl).2 ≠ []) (getblockemmauprovid : Bool)
    (r : Card) : Announces getblockemmauprovid (camd35RequestEmm emmReaderMatch now er cl).2 a r ↔
      CardFits getblockemmauprovid a r := by
  have hmessages : (camd35RequestEmm emmReaderMatch now er cl).2 =
      [cardMessage er a, put (cardMessage er a) 1 [112]] := by
    unfold camd35RequestEmm at hsent ⊢
    rw [hsel] at hsent ⊢
    dsimp only at hsent ⊢
    split_ifs at hsent ⊢ <;> first | rfl | exact absurd rfl hsent
  obtain ⟨h0, h1⟩ := cardMessage_head er a
  rw [hmessages, announces_first]
  constructor
  · intro hall
    have hgets : ∀ g : ℕ → Byte, ∃ d, Carried 111 (cardMessage er a) d ∧ (∀ i, 144 ≤ i → d i = g i) ∧
        SameCard a (recvCmd05 getblockemmauprovid r d) := by
      intro g
      obtain ⟨d, hd, hbehind⟩ :=
        @exists_gets (fun _ => 0) _ _ _ _ demoSession h0 h1 (Or.inl rfl) g
      exact ⟨d, carried_of_gets demoSession h0 h1 (Or.inl rfl) hd, hbehind rfl,
        hall _ _ _ demoSession d hd⟩
    by_cases hcaid : a.caid = 0
    · obtain ⟨d, hd, -, hsame⟩ := hgets fun _ => 0
      exfalso
      have hread := read_caid hd
      have hzero := hsame.caid
      obtain ⟨hd0, hd1⟩ := card_head hd
      rw [(recvCmd05_fields hd0 hd1).1, hread, hcaid] at hzero
      split_ifs at hzero with hau
      · exact hau hzero
      · exact absurd hzero (by decide)
    · by_cases hn : a.nprov ≤ 19
      · obtain ⟨d, hd, -, hsame⟩ := hgets fun _ => 0
        exact (sameCard_iff hcaid hn hd).mp hsame
      · obtain ⟨d, hd, hbehind, hsame⟩ := hgets fun _ =>
          if fourBytes a.caid then (a.prid 19)[1]! + 1 else (a.sa 19)[3]! + 1
        exact absurd hsame (not_same_of_many hcaid (Nat.lt_of_not_le hn) hd hbehind)
  · intro hfits crc32 cl p hs d hd
    exact (sameCard_iff hfits.caid hfits.nprov (carried_of_gets hs h0 h1 (Or.inl rfl) hd)).mpr hfits

end Card

private def cardOf (nprov : ℕ) (h : nprov ≤ CS_MAXPROV) : AuReader where
  caid := 0x0B00
  hexserial := #v[0, 0, 1, 2, 3, 4, 0, 0]
  nprov := nprov
  prid := fun _ => #v[0, 0, 0x10, 0]
  sa := fun _ => #v[4, 3, 2, 1]
  blockemm := 0
  auprovid := 0
  id := 0
  audisabled := false
  saveemm := 0
  nprov_le := h

private def request : EmmRequest := ⟨1, 0x0B00, 0, 7, none⟩

private def freshCard : Card := ⟨0, #v[0, 0, 0, 0, 0, 0, 0, 0], 0, fun _ => #v[0, 0, 0, 0],
  fun _ => #v[0, 0, 0, 0], 0, 0⟩

private def auClient (a : AuReader) : AuClient := ⟨some [a], #v[0, 0, 0, 0, 0, 0, 0, 0], 0, 0⟩

theorem announces_oneProvider : Announces true (camd35RequestEmm (fun _ _ _ => true) 1000 request
    (auClient (cardOf 1 (by decide)))).2 (cardOf 1 (by decide)) freshCard := by
  have hsent : (camd35RequestEmm (fun _ _ _ => true) 1000 request
      (auClient (cardOf 1 (by decide)))).2 ≠ [] :=
    fun h => absurd (congrArg List.length h) (by decide)
  refine (announces_iff rfl hsent true freshCard).mpr ?_
  constructor
  · decide
  · exact ⟨rfl, rfl⟩
  · decide
  · intro i hi x hx h127
    obtain rfl : i = 0 := Nat.lt_one_iff.mp hi
    have hplace := providerBytes_place hx
    omega
  · intro _ i hi _
    have hone : i + 1 < 1 := hi
    omega
  · intro _ i _
    exact ⟨rfl, rfl⟩
  · intro h
    exact absurd h (by decide)
  · intro type _
    exact Or.inl BitVec.zero_and

/-- The last byte of the first shared address is overwritten by the second provider. -/
theorem not_announces_twoProviders : ¬ ∀ emmReaderMatch now er cl a,
    selectAureader emmReaderMatch er cl = some a → (camd35RequestEmm emmReaderMatch now er cl).2 ≠ [] →
      ∀ r, Announces true (camd35RequestEmm emmReaderMatch now er cl).2 a r := by
  intro h
  have hsent : (camd35RequestEmm (fun _ _ _ => true) 1000 request
      (auClient (cardOf 2 (by decide)))).2 ≠ [] :=
    fun h => absurd (congrArg List.length h) (by decide)
  have hall := announces_first.mp (h (fun _ _ _ => true) 1000 request (auClient (cardOf 2 (by decide)))
    (cardOf 2 (by decide)) rfl hsent (cardOf 2 (by decide)).toCard)
  obtain ⟨h0, h1⟩ := cardMessage_head request (cardOf 2 (by decide))
  obtain ⟨d, hd, -⟩ := @exists_gets (fun _ => 0) _ _ _ _ demoSession h0 h1 (Or.inl rfl) fun _ => 0
  have hfits := (sameCard_iff (by decide) (by decide)
    (carried_of_gets demoSession h0 h1 (Or.inl rfl) hd)).mp (hall _ _ _ demoSession d hd)
  exact absurd (hfits.shared (by decide) 0 (by decide) (by decide)) (by decide)

end NCam.Camd35
