import NCam.Cccam.WriteCard

/-! Which cards `write_card` keeps inside its buffer and `read_card` reads back. -/
namespace NCam.Cccam

open NCam.Lib.Memory NCam.Util

section Defs

/-- A provider as the message announces it. -/
def announcedProvider (auAllowed : Bool) (prov : CcProvider) : CcProvider :=
  if auAllowed then prov else { prov with sa := .replicate 4 0 }

/-- What `read_card` should make of the message for `card`. -/
structure ReadBack (req : CardRequest) (card card' : CcCard) : Prop where
  id : card'.id = card.id
  remoteId : card'.remoteId = card.remoteId
  caid : card'.caid = card.caid
  hop : card'.hop = card.hop
  providers : card'.providers = card.providers.map (announcedProvider req.auAllowed)
  goodsids : card'.goodsids.map (·.sid) = goodSids req card
  badsids : card'.badsids.map (·.sid) = badSids req card
  remoteNodes : card'.remoteNodes = announcedNodes req card

/-- Whatever is in memory, `write_card` stays inside the buffer and the message is read back. -/
def RoundTrips (req : CardRequest) (card : CcCard) : Prop :=
  ∀ mem, (∀ i, ccMaxmsgsize ≤ i → (writeCard req card mem).buf i = mem i) ∧
    ∃ card', readCard (writeCard req card mem).buf (writeCard req card mem).ofs req.ext = some card' ∧
      ReadBack req card card'

/-- The length of a message with all sids of the card. -/
def messageLength (req : CardRequest) (card : CcCard) : ℕ :=
  (if req.ext then 23 else 21) + 7 * card.providers.length + 2 * (goodSids req card).length +
    2 * (badSids req card).length + 1 + 8 * (announcedNodes req card).length

/-- The message fits into the buffer, the sids stay below the limits of the code, and the providers have
three bytes that `read_card` does not take for the betacrypt default. -/
structure Sendable (req : CardRequest) (card : CcCard) : Prop where
  length : messageLength req card ≤ ccMaxmsgsize
  good : (goodSids req card).length ≤ sidLimit card
  bad : (badSids req card).length ≤ sidLimit card
  providers : ∀ prov ∈ card.providers,
    prov.prov.toNat < 2 ^ 24 ∧ ¬ (prov.prov = 0xFFFFFF ∧ caidIsBetacrypt card.caid = true)

end Defs

section Reading

variable {buf : ℕ → Byte} {o : ℕ}

theorem readSid_of_holds {sid : BitVec 16} (h : Holds buf o (sidBytes sid)) : readSid buf o = sid := by
  unfold readSid
  rw [b2i_two h]
  simp

/-- Provider `i` of the bytes. -/
theorem holds_providerBytes {gap : ℕ → Byte} {auAllowed : Bool} {provs : List CcProvider}
    (h : Holds buf o (providerBytes gap auAllowed o provs)) {i : ℕ} (hi : i < provs.length) :
    Holds buf (o + 7 * i) (i2b 3 provs[i].prov) ∧ Holds buf (o + 7 * i + 3)
      (if auAllowed then provs[i].sa.toList else slice gap (o + 7 * i + 3) 4) := by
  induction provs generalizing o i with
  | nil => simp at hi
  | cons prov provs ih =>
    unfold providerBytes at h
    have hlen : (i2b 3 prov.prov ++
        if auAllowed then prov.sa.toList else slice gap (o + 3) 4).length = 7 := by
      split_ifs <;> simp
    rw [holds_append, hlen, holds_append, length_i2b_three] at h
    cases i with
    | zero => exact h.1
    | succ i =>
      have hrest := ih h.2 (i := i) (by simpa using hi)
      rw [Nat.add_assoc o 7, Nat.add_comm 7, ← Nat.mul_succ] at hrest
      exact hrest

/-- Three bytes give the provider back if it has three bytes and is not replaced. -/
theorem readProv_eq_iff {prov : BitVec 32} {i : ℕ} {betacrypt : Bool} (hi : i < 256) :
    (if (prov.setWidth 24).setWidth 32 = 0xFFFFFF ∧ betacrypt = true then .ofNat 32 i
      else (prov.setWidth 24).setWidth 32) = prov ↔
    prov.toNat < 2 ^ 24 ∧ ¬ (prov = 0xFFFFFF ∧ betacrypt = true) := by
  have hlow : ((prov.setWidth 24).setWidth 32).toNat = prov.toNat % 2 ^ 24 := by
    simp only [BitVec.toNat_setWidth]
    omega
  constructor
  · intro h
    split_ifs at h with hdefault
    · have hprov := congrArg BitVec.toNat h
      have hFF := congrArg BitVec.toNat hdefault.1
      rw [hlow, ← hprov, BitVec.toNat_ofNat] at hFF
      have hvalue : (0xFFFFFF : BitVec 32).toNat = 16777215 := rfl
      omega
    · have hprov := congrArg BitVec.toNat h
      rw [hlow] at hprov
      rw [h] at hdefault
      exact ⟨by omega, hdefault⟩
  · rintro ⟨hlt, hdefault⟩
    have hsame : (prov.setWidth 24).setWidth 32 = prov := by
      apply BitVec.eq_of_toNat_eq
      rw [hlow]
      exact Nat.mod_eq_of_lt hlt
    rw [hsame, if_neg hdefault]

/-- What a card that is read consists of. -/
theorem readCard_eq_some {l : ℕ} {ext : Bool} {card' : CcCard} (h : readCard buf l ext = some card') :
    let nassign := if ext then (buf 21).toNat else 0
    let nreject := if ext then (buf 22).toNat else 0
    let offset := bodyStart ext + 7 * (buf 20).toNat + 2 * nassign + 2 * nreject
    (∃ nodes, card' = { readCardBody buf ext (buf 20).toNat nassign nreject (bodyStart ext) with
        remoteNodes := nodes }) ∧
      (offset + 1 ≤ l → offset + 1 + 8 * (buf offset).toNat ≤ l) := by
  have hoffset (a b c d : ℕ) : a + b * 7 + c * 2 + d * 2 = a + 7 * b + 2 * c + 2 * d := by omega
  have hstart : (if ext then 23 else 21) = bodyStart ext := rfl
  unfold readCard at h
  dsimp only at h ⊢
  generalize (if ext then (buf 21).toNat else 0) = na at h ⊢
  generalize (if ext then (buf 22).toNat else 0) = nr at h ⊢
  rw [hstart, hoffset] at h
  generalize bodyStart ext + 7 * (buf 20).toNat + 2 * na + 2 * nr = offset at h ⊢
  split_ifs at h with hshort hcounts hprovs hsids hnodes hlong
  · rw [← Option.some.inj h]
    exact ⟨⟨[], rfl⟩, fun hle => absurd hle (by omega)⟩
  · rw [← Option.some.inj h]
    exact ⟨⟨_, rfl⟩, fun _ => by omega⟩

theorem readCard_eq {l np na nr nn : ℕ} {ext : Bool} (hnp : (buf 20).toNat = np)
    (hna : (if ext then (buf 21).toNat else 0) = na) (hnr : (if ext then (buf 22).toNat else 0) = nr)
    (hnn : (buf (bodyStart ext + 7 * np + 2 * na + 2 * nr)).toNat = nn)
    (hl : l = bodyStart ext + 7 * np + 2 * na + 2 * nr + 1 + 8 * nn) :
    readCard buf l ext = some { readCardBody buf ext np na nr (bodyStart ext) with
      remoteNodes := (List.range nn).map fun i => .ofFn fun j =>
        buf (bodyStart ext + 7 * np + 2 * na + 2 * nr + 1 + 8 * i + j) } := by
  have hge := bodyStart_ge ext
  have hoffset (a b c d : ℕ) : a + b * 7 + c * 2 + d * 2 = a + 7 * b + 2 * c + 2 * d := by omega
  have hstart : (if ext then 23 else 21) = bodyStart ext := rfl
  have hcounts : ¬ (ext && decide (l < 23)) = true := by
    cases ext with
    | true =>
      have hext : bodyStart true = 23 := rfl
      simp
      omega
    | false => simp
  have hsids : ¬ (ext && decide (l < bodyStart ext + 7 * np + 2 * na + 2 * nr)) = true := by
    cases ext <;> simp; omega
  unfold readCard
  dsimp only
  rw [hstart, hnp, hna, hnr, hoffset, hnn, if_neg (by omega), if_neg hcounts, if_neg (by omega),
    if_neg hsids, if_neg (by omega), if_neg (by omega)]

theorem map_range_eq {α : Type*} {f : ℕ → α} {xs : List α}
    (h : ∀ i (hi : i < xs.length), f i = xs[i]) : (List.range xs.length).map f = xs := by
  apply List.ext_getElem
  · simp
  · intro i _ hi
    rw [List.getElem_map, List.getElem_range, h i hi]

theorem map_readSid {sids : List (BitVec 16)} (h : Holds buf o (sids.flatMap sidBytes)) :
    (List.range sids.length).map (fun i => readSid buf (o + 2 * i)) = sids :=
  map_range_eq fun _ hi => readSid_of_holds (h.getElem_flatMap length_sidBytes hi)

/-- Eight bytes in memory as a vector. -/
theorem ofFn_eq_of_holds {n : ℕ} {v : Vector Byte n} (h : Holds buf o v.toList) :
    (Vector.ofFn fun j : Fin n => buf (o + j)) = v := by
  apply Vector.ext
  intro j hj
  rw [Vector.getElem_ofFn]
  have hget := h.getElem (i := j) (by simpa using hj)
  simpa using hget

theorem map_readNode {nodes : List NodeId} (h : Holds buf o (nodes.flatMap (·.toList))) :
    (List.range nodes.length).map (fun i => Vector.ofFn fun j : Fin 8 => buf (o + 8 * i + j)) =
      nodes :=
  map_range_eq fun _ hi => ofFn_eq_of_holds (h.getElem_flatMap length_node hi)

end Reading

section Writing

variable {mem : ℕ → Byte} {req : CardRequest} {card : CcCard} {out : Out}

theorem Written.readHeader (h : Written mem req card out) : b2i 4 out.buf 0 = card.id ∧
    b2i 4 out.buf 4 = card.remoteId ∧ readSid out.buf 8 = card.caid ∧ out.buf 10 = card.hop := by
  have hheader := h.header
  unfold cardHeader at hheader
  simp only [holds_append, holds_cons, length_i2b_four, length_i2b_two, List.length_append,
    Nat.zero_add, Nat.reduceAdd] at hheader
  obtain ⟨⟨⟨⟨hid, hremote⟩, hcaid⟩, hhop, _⟩, _⟩ := hheader
  exact ⟨b2i_four hid, b2i_four hremote, readSid_of_holds hcaid, hhop⟩

theorem sidLimit_le (card : CcCard) : sidLimit card ≤ 240 := by
  unfold sidLimit
  split_ifs <;> decide

theorem writtenSids_eq {sids : List (BitVec 16)} (h : sids.length ≤ sidLimit card) :
    writtenSids card sids = sids :=
  List.take_of_length_le h

/-- A counter of at most 255 is read as it is. -/
theorem toNat_counter {b : Byte} {n : ℕ} (h : b = BitVec.ofNat 8 n) (hn : n < 256) : b.toNat = n := by
  rw [h, BitVec.toNat_ofNat]
  exact Nat.mod_eq_of_lt hn

theorem slice_memset {o n : ℕ} (h : o + n ≤ ccMaxmsgsize) :
    slice (memset mem) o n = List.replicate n 0 := by
  unfold slice
  rw [List.eq_replicate_iff]
  constructor
  · simp
  · intro b hb
    obtain ⟨i, hi, rfl⟩ := List.mem_map.mp hb
    have hlt := List.mem_range.mp hi
    exact if_pos (by omega)

theorem readProvider_prov {buf : ℕ → Byte} {o i : ℕ} {caid : BitVec 16} {prov : BitVec 32}
    (h : Holds buf o (i2b 3 prov)) : (readProvider caid buf o i).prov =
      if (prov.setWidth 24).setWidth 32 = 0xFFFFFF ∧ caidIsBetacrypt caid = true then .ofNat 32 i
      else (prov.setWidth 24).setWidth 32 := by
  unfold readProvider
  dsimp only
  rw [b2i_three h]

/-- Below the end of the buffer a provider is read as it was announced. -/
theorem Written.readProvider_eq (h : Written mem req card out) {i : ℕ} (hi : i < card.providers.length)
    (hfit : bodyStart req.ext + 7 * card.providers.length ≤ ccMaxmsgsize) (hbyte : i < 256)
    (hprov : card.providers[i].prov.toNat < 2 ^ 24 ∧
      ¬ (card.providers[i].prov = 0xFFFFFF ∧ caidIsBetacrypt card.caid = true)) :
    readProvider card.caid out.buf (bodyStart req.ext + 7 * i) i =
      announcedProvider req.auAllowed card.providers[i] := by
  obtain ⟨hid, hsa⟩ := holds_providerBytes h.providers hi
  have hread := @readProvider_prov _ _ i card.caid _ hid
  rw [(readProv_eq_iff hbyte).mpr hprov] at hread
  have hvector : (readProvider card.caid out.buf (bodyStart req.ext + 7 * i) i).sa =
      if req.auAllowed then card.providers[i].sa else .replicate 4 0 := by
    apply ofFn_eq_of_holds
    split_ifs at hsa ⊢ with hau
    · exact hsa
    · rw [slice_memset (by omega)] at hsa
      exact hsa
  change CcProvider.mk (readProvider card.caid out.buf (bodyStart req.ext + 7 * i) i).prov
    (readProvider card.caid out.buf (bodyStart req.ext + 7 * i) i).sa = _
  rw [hread, hvector]
  unfold announcedProvider
  split_ifs <;> rfl

theorem roundTrips_of_sendable (h : Sendable req card) : RoundTrips req card := by
  intro mem
  have hw := writeCard_written mem req card
  generalize writeCard req card mem = out at hw ⊢
  have hlen := h.length
  have hstart : bodyStart req.ext = if req.ext then 23 else 21 := rfl
  have hge := bodyStart_ge req.ext
  have hlimit := sidLimit_le card
  have hgoodLe := h.good
  have hbadLe := h.bad
  have hgood := hw.good
  have hbad := hw.bad
  have hassign := hw.nassign
  have hreject := hw.nreject
  have hcount := hw.count
  have hnodes := hw.nodes
  have hofs := hw.ofs
  unfold nremoteOfs at hcount hnodes hofs
  unfold messageLength ccMaxmsgsize at hlen
  rw [← hstart] at hlen
  rw [writtenSids_eq h.good, writtenSids_eq h.bad] at *
  have hzero : memset mem (bodyStart req.ext + 7 * card.providers.length +
      2 * (goodSids req card).length + 2 * (badSids req card).length) = 0 :=
    if_pos (by unfold ccMaxmsgsize; omega)
  rw [hzero] at hcount
  replace hcount := hcount.trans (BitVec.zero_add _)
  constructor
  · intro i hi
    unfold ccMaxmsgsize at hi
    rw [hw.tail i (by omega)]
    exact if_neg (by unfold ccMaxmsgsize; omega)
  · have hna : (if req.ext then (out.buf 21).toNat else 0) = (goodSids req card).length := by
      split_ifs with hext
      · exact toNat_counter (hassign hext) (by omega)
      · unfold goodSids
        rw [if_neg hext]
        rfl
    have hnr : (if req.ext then (out.buf 22).toNat else 0) = (badSids req card).length := by
      split_ifs with hext
      · exact toNat_counter (hreject hext) (by omega)
      · unfold badSids
        rw [if_neg hext]
        rfl
    refine ⟨_, readCard_eq (toNat_counter hw.nprov (by omega)) hna hnr
      (toNat_counter hcount (by omega)) hofs, ?_⟩
    obtain ⟨hid, hremote, hcaid, hhop⟩ := hw.readHeader
    constructor
    · exact hid
    · exact hremote
    · exact hcaid
    · exact hhop
    · dsimp only [readCardBody]
      rw [hcaid]
      apply List.ext_getElem
      · simp
      · intro i _ hi
        rw [List.length_map] at hi
        rw [List.getElem_map, List.getElem_range, List.getElem_map]
        exact hw.readProvider_eq hi (by unfold ccMaxmsgsize; omega) (by omega)
          (h.providers _ (List.getElem_mem hi))
    · dsimp only [readCardBody]
      rw [List.map_map]
      exact map_readSid hgood
    · dsimp only [readCardBody]
      rw [List.map_map]
      exact map_readSid hbad
    · exact map_readNode hnodes

/-- The counters of a message that is read back are those of the card. -/
theorem ReadBack.counters {card' : CcCard} (h : ReadBack req card card')
    (hread : readCard out.buf out.ofs req.ext = some card') :
    (out.buf 20).toNat = card.providers.length ∧
      (if req.ext then (out.buf 21).toNat else 0) = (goodSids req card).length ∧
      (if req.ext then (out.buf 22).toNat else 0) = (badSids req card).length := by
  obtain ⟨⟨nodes, hcard⟩, _⟩ := readCard_eq_some hread
  have hproviders := congrArg List.length h.providers
  have hgood := congrArg List.length h.goodsids
  have hbad := congrArg List.length h.badsids
  rw [hcard] at hproviders hgood hbad
  simp only [readCardBody, List.length_map, List.length_range] at hproviders hgood hbad
  exact ⟨hproviders, hgood, hbad⟩

/-- A counter that agrees with the number of sids shows that none was left out. -/
theorem length_le_of_counter {sids : List (BitVec 16)} {b : Byte}
    (hb : b = BitVec.ofNat 8 (writtenSids card sids).length) (hlen : b.toNat = sids.length) :
    sids.length ≤ sidLimit card := by
  have hlimit := sidLimit_le card
  have hwritten : (writtenSids card sids).length = min (sidLimit card) sids.length :=
    List.length_take
  rw [toNat_counter hb (by omega), hwritten] at hlen
  omega

theorem RoundTrips.sids (h : RoundTrips req card) : (goodSids req card).length ≤ sidLimit card ∧
    (badSids req card).length ≤ sidLimit card := by
  have hw := writeCard_written (fun _ => 0) req card
  obtain ⟨_, card', hread, hback⟩ := h fun _ => 0
  obtain ⟨_, hgood, hbad⟩ := hback.counters hread
  by_cases hext : req.ext = true
  · rw [if_pos hext] at hgood hbad
    exact ⟨length_le_of_counter (hw.nassign hext) hgood, length_le_of_counter (hw.nreject hext) hbad⟩
  · rw [if_neg hext] at hgood hbad
    rw [← hgood, ← hbad]
    exact ⟨Nat.zero_le _, Nat.zero_le _⟩

/-- If the message did not fit, its last byte would be behind the buffer: either the node count, which is
not initialised there, or the last byte of the last node, which is written there. -/
theorem RoundTrips.length (h : RoundTrips req card) : messageLength req card ≤ ccMaxmsgsize := by
  obtain ⟨hgood, hbad⟩ := h.sids
  have hofs : messageLength req card =
      nremoteOfs req card + 1 + 8 * (announcedNodes req card).length := by
    unfold messageLength nremoteOfs
    rw [writtenSids_eq hgood, writtenSids_eq hbad]
    rfl
  apply Nat.le_of_not_lt
  intro hlong
  rcases List.eq_nil_or_concat (announcedNodes req card) with hnil | ⟨init, last, hlast⟩
  · have hw := writeCard_written (fun _ => 1) req card
    obtain ⟨_, card', hread, hback⟩ := h fun _ => 1
    obtain ⟨hnp, hna, hnr⟩ := hback.counters hread
    obtain ⟨_, hfits⟩ := readCard_eq_some hread
    have hoffset : bodyStart req.ext + 7 * card.providers.length + 2 * (goodSids req card).length +
        2 * (badSids req card).length = nremoteOfs req card := by
      unfold nremoteOfs
      rw [writtenSids_eq hgood, writtenSids_eq hbad]
    have hcount := hw.count
    rw [hnil, List.length_nil] at hofs hcount
    have hgarbage : memset (fun _ => 1) (nremoteOfs req card) = 1 := if_neg (by omega)
    rw [hgarbage] at hcount
    rw [hnp, hna, hnr, hoffset, hcount, hw.ofs, hnil, List.length_nil] at hfits
    have hone : (1 + BitVec.ofNat 8 0 : Byte).toNat = 1 := by decide
    rw [hone] at hfits
    omega
  · have hw := writeCard_written (fun _ => last[7] + 1) req card
    obtain ⟨hbounds, _⟩ := h fun _ => last[7] + 1
    have hnodes := hw.nodes
    rw [hlast, List.concat_eq_append] at hofs hnodes
    rw [List.flatMap_append, holds_append, length_flatMap_of_width length_node] at hnodes
    have hbyte := hnodes.2.getElem (i := 7) (by simp)
    rw [List.length_append, List.length_singleton] at hofs
    rw [hbounds _ (by omega)] at hbyte
    simp at hbyte

theorem RoundTrips.provider (h : RoundTrips req card) {prov : CcProvider}
    (hprov : prov ∈ card.providers) : prov.prov.toNat < 2 ^ 24 ∧
      ¬ (prov.prov = 0xFFFFFF ∧ caidIsBetacrypt card.caid = true) := by
  have hw := writeCard_written (fun _ => 0) req card
  obtain ⟨_, card', hread, hback⟩ := h fun _ => 0
  obtain ⟨hnp, _, _⟩ := hback.counters hread
  obtain ⟨⟨nodes, hcard⟩, _⟩ := readCard_eq_some hread
  obtain ⟨_, _, hcaid, _⟩ := hw.readHeader
  obtain ⟨i, hi, rfl⟩ := List.getElem_of_mem hprov
  have hbyte : i < 256 := by
    have hlt := ((writeCard req card fun _ => 0).buf 20).isLt
    omega
  have hproviders := congrArg (fun provs => provs[i]?.map (·.prov)) hback.providers
  rw [hcard] at hproviders
  dsimp only [readCardBody] at hproviders
  rw [hnp, hcaid, List.getElem?_map, List.getElem?_map, List.getElem?_range hi,
    List.getElem?_eq_getElem hi] at hproviders
  simp only [Option.map_some, Option.some.injEq] at hproviders
  have hannounced : (announcedProvider req.auAllowed card.providers[i]).prov =
      card.providers[i].prov := by
    unfold announcedProvider
    split_ifs <;> rfl
  rw [readProvider_prov (holds_providerBytes hw.providers hi).1, hannounced] at hproviders
  exact (readProv_eq_iff hbyte).mp hproviders

end Writing

/-- A card of caid 0500 with 128 providers and 60 good sids. -/
def wideCard : CcCard where
  id := 1
  remoteId := 1
  caid := 0x0500
  hop := 0
  reshare := 0
  hexserial := .replicate 8 0
  providers := .replicate 128 ⟨0x020810, .replicate 4 0⟩
  badsids := []
  goodsids := .replicate 60 ⟨0x1234, 0, 0⟩
  remoteNodes := []
  originId := 0
  cardType := .localCard
  sidtab := none
  grp := 1
  rdrReshare := 0
  sidtabno := 0
  isExt := false

def extRequest : CardRequest where
  nodeId := .replicate 8 0x10
  sidtabsNo := 0
  cfgSidtab := []
  addOwn := true
  ext := true
  auAllowed := false

end NCam.Cccam
