import NCam.Cccam.Card

/-! The writer of card messages and the layout of what it wrote: header, counters, providers, sids and nodes. -/
namespace NCam.Cccam

open NCam.Lib.Memory NCam.Util

/-- `CC_MAXMSGSIZE`. -/
def ccMaxmsgsize : ℕ := 0x400

/-- The buffer of `write_card` with `ofs`. -/
structure Out where
  buf : ℕ → Byte
  ofs : ℕ

/-- What a client is sent and may use: `node_id` of its server, its `sidtabs.no`, `cfg.sidtab` and the
arguments of `write_card`. -/
structure CardRequest where
  nodeId : NodeId
  sidtabsNo : BitVec 64
  cfgSidtab : List Sidtab
  addOwn : Bool
  ext : Bool
  auAllowed : Bool

namespace Out

/-- `buf[c]++`. -/
def count (c : ℕ) (out : Out) : Out := { out with buf := put out.buf c [out.buf c + 1] }

/-- Stores at `ofs` and moves on. -/
def append (bs : List Byte) (out : Out) : Out := ⟨put out.buf out.ofs bs, out.ofs + bs.length⟩

def skip (n : ℕ) (out : Out) : Out := { out with ofs := out.ofs + n }

end Out

def writeProvider (auAllowed : Bool) (out : Out) (prov : CcProvider) : Out :=
  let out := out.append (i2b 3 prov.prov)
  let out := if auAllowed then out.append prov.sa.toList else out.skip 4
  out.count 20

/-- One sid, counted at `c`. -/
def writeSid (c : ℕ) (out : Out) (sid : BitVec 16) : Out :=
  (out.append (i2b 2 (sid.setWidth 32))).count c

def writeSids (c limit : ℕ) : List (BitVec 16) → Out → Out
  | [], out => out
  | sid :: sids, out =>
    let out := writeSid c out sid
    if (out.buf c).toNat ≥ limit then out else writeSids c limit sids out

/-- Whether the sids of the entry at position `n` of `cfg.sidtab` are rejected. -/
def rejects (req : CardRequest) (card : CcCard) (n : ℕ) (ptr : Sidtab) : Bool :=
  (req.sidtabsNo.getLsbD n || card.sidtabno.getLsbD n) && ptr.caid.contains card.caid

/-- The loop over `cfg.sidtab` from position `n` on. -/
def writeRejected (req : CardRequest) (card : CcCard) : ℕ → List Sidtab → Out → Out
  | _, [], out => out
  | n, ptr :: rest, out =>
    let out := if rejects req card n ptr then writeSids 22 240 ptr.srvid out else out
    if (out.buf 22).toNat ≥ 240 then out else writeRejected req card (n + 1) rest out

def writeCardSids (req : CardRequest) (card : CcCard) (out : Out) : Out :=
  match card.sidtab with
  | some ptr =>
    let out := writeSids 21 240 ptr.srvid out
    writeRejected req card 0 req.cfgSidtab out
  | none =>
    let out := writeSids 21 200 (card.goodsids.map (·.sid)) out
    writeSids 22 200 ((card.badsids.filter fun srvid => ¬ srvid.blockedTill > 0).map (·.sid)) out

/-- One remote node, counted at `nremoteOfs`. -/
def writeNode (nremoteOfs : ℕ) (out : Out) (node : NodeId) : Out :=
  (out.append node.toList).count nremoteOfs

/-- The bytes up to `buf[20]`; `memset` put zeros for `hexserial`. -/
def cardHeader (card : CcCard) (auAllowed : Bool) : List Byte :=
  i2b 4 card.id ++ i2b 4 card.remoteId ++ i2b 2 (card.caid.setWidth 32) ++
    [card.hop, card.reshare] ++ if auAllowed then card.hexserial.toList else List.replicate 8 0

/-- `memset(buf, 0, CC_MAXMSGSIZE)`. -/
def memset (buf : ℕ → Byte) : ℕ → Byte := fun i => if i < ccMaxmsgsize then 0 else buf i

/-- `write_card` on a buffer in the memory `mem`; the length of the message is the `ofs` of the result. -/
def writeCard (req : CardRequest) (card : CcCard) (mem : ℕ → Byte) : Out :=
  let out : Out := ⟨put (memset mem) 0 (cardHeader card req.auAllowed), if req.ext then 23 else 21⟩
  let out := card.providers.foldl (writeProvider req.auAllowed) out
  let out := if req.ext then writeCardSids req card out else out
  let nremoteOfs := out.ofs
  let out := out.skip 1
  let out := card.remoteNodes.foldl (writeNode nremoteOfs) out
  if req.addOwn then writeNode nremoteOfs out req.nodeId else out

/-- The good sids that a message announces. -/
def goodSids (req : CardRequest) (card : CcCard) : List (BitVec 16) :=
  if req.ext then
    match card.sidtab with
    | some ptr => ptr.srvid
    | none => card.goodsids.map (·.sid)
  else []

/-- The sids of the entries of `cfg.sidtab` from position `n` on that are rejected. -/
def rejectedSids (req : CardRequest) (card : CcCard) : ℕ → List Sidtab → List (BitVec 16)
  | _, [] => []
  | n, ptr :: rest =>
    (if rejects req card n ptr then ptr.srvid else []) ++ rejectedSids req card (n + 1) rest

/-- The bad sids that a message announces: not those that are only blocked for some time. -/
def badSids (req : CardRequest) (card : CcCard) : List (BitVec 16) :=
  if req.ext then
    match card.sidtab with
    | some _ => rejectedSids req card 0 req.cfgSidtab
    | none => (card.badsids.filter fun srvid => ¬ srvid.blockedTill > 0).map (·.sid)
  else []

/-- The number of sids that the code stops at. -/
def sidLimit (card : CcCard) : ℕ := if card.sidtab.isSome then 240 else 200

def announcedNodes (req : CardRequest) (card : CcCard) : List NodeId :=
  card.remoteNodes ++ if req.addOwn then [req.nodeId] else []

section Loops

variable {out : Out} {c limit : ℕ}

theorem count_self (c : ℕ) : (out.count c).buf c = out.buf c + 1 := put_self

/-- Counting in a cell leaves the other cells. -/
theorem count_of_ne {i : ℕ} (h : i ≠ c) : (out.count c).buf i = out.buf i := by
  rcases Nat.lt_or_gt_of_ne h with hlt | hgt
  · exact put_of_lt hlt
  · exact put_of_le hgt

theorem count_writeSid (h : c < out.ofs) (sid : BitVec 16) :
    (writeSid c out sid).buf c = out.buf c + 1 := by
  unfold writeSid
  rw [count_self]
  change put out.buf out.ofs _ c + 1 = _
  rw [put_of_lt h]

theorem ofs_writeSid (sid : BitVec 16) : (writeSid c out sid).ofs = out.ofs + 2 := rfl

/-- The loop writes sids until the counter reaches the limit. -/
theorem writeSids_eq {k : ℕ} {sids : List (BitVec 16)} (hc : c < out.ofs) (hk : (out.buf c).toNat = k)
    (hlimit : k < limit) (hmax : limit ≤ 255) :
    writeSids c limit sids out = (sids.take (limit - k)).foldl (writeSid c) out := by
  induction sids generalizing out k with
  | nil => simp [writeSids]
  | cons sid sids ih =>
    have hcount : ((writeSid c out sid).buf c).toNat = k + 1 := by
      rw [count_writeSid hc, BitVec.toNat_add, hk]
      exact Nat.mod_eq_of_lt (by simp; omega)
    unfold writeSids
    dsimp only
    obtain ⟨m, hm⟩ : ∃ m, limit - k = m + 1 := ⟨limit - k - 1, by omega⟩
    rw [hcount, hm, List.take_succ_cons, List.foldl_cons]
    by_cases hstop : k + 1 ≥ limit
    · rw [if_pos hstop]
      have hm0 : m = 0 := by omega
      rw [hm0, List.take_zero, List.foldl_nil]
    · rw [if_neg hstop, ih (by rw [ofs_writeSid]; omega) hcount (by omega)]
      congr 2
      omega

theorem foldl_writeSid (sids : List (BitVec 16)) (hc : c < out.ofs) :
    (sids.foldl (writeSid c) out).ofs = out.ofs + 2 * sids.length ∧
      (sids.foldl (writeSid c) out).buf c = out.buf c + BitVec.ofNat 8 sids.length := by
  induction sids generalizing out with
  | nil => simp
  | cons sid sids ih =>
    have hofs := @ofs_writeSid out c sid
    obtain ⟨ho, hb⟩ := @ih (writeSid c out sid) (by omega)
    rw [List.foldl_cons, List.length_cons, ho, hb, hofs, count_writeSid hc, BitVec.ofNat_add,
      BitVec.add_comm (BitVec.ofNat 8 sids.length), ← BitVec.add_assoc]
    exact ⟨by omega, rfl⟩

/-- The loop over `cfg.sidtab` is one loop over all the rejected sids. -/
theorem writeRejected_eq {req : CardRequest} {card : CcCard} {n k : ℕ} {tabs : List Sidtab}
    (hc : 22 < out.ofs) (hk : (out.buf 22).toNat = k) (hlimit : k < 240) :
    writeRejected req card n tabs out =
      ((rejectedSids req card n tabs).take (240 - k)).foldl (writeSid 22) out := by
  induction tabs generalizing out n k with
  | nil => simp [writeRejected, rejectedSids]
  | cons ptr rest ih =>
    obtain ⟨sids, hsids⟩ : ∃ sids, sids = if rejects req card n ptr then ptr.srvid else [] := ⟨_, rfl⟩
    have hout : (if rejects req card n ptr then writeSids 22 240 ptr.srvid out else out) =
        (sids.take (240 - k)).foldl (writeSid 22) out := by
      rw [hsids]
      split_ifs
      · exact writeSids_eq hc hk hlimit (by decide)
      · rw [List.take_nil, List.foldl_nil]
    obtain ⟨hofs, hcount⟩ := foldl_writeSid (sids.take (240 - k)) hc
    have hlen : (sids.take (240 - k)).length ≤ 240 - k := List.length_take_le _ _
    have hcountNat : (((sids.take (240 - k)).foldl (writeSid 22) out).buf 22).toNat =
        k + (sids.take (240 - k)).length := by
      rw [hcount, BitVec.toNat_add, BitVec.toNat_ofNat, hk]
      omega
    unfold writeRejected rejectedSids
    dsimp only
    rw [hout, hcountNat, ← hsids]
    rw [List.length_take] at hcountNat hofs ⊢
    by_cases hstop : k + min (240 - k) sids.length ≥ 240
    · rw [if_pos hstop, List.take_append_of_le_length (by omega)]
    · have hall : sids.take (240 - k) = sids := List.take_of_length_le (by omega)
      rw [if_neg hstop, ih (by omega) hcountNat (by omega), List.take_append, List.foldl_append, hall]
      congr 2
      omega

end Loops

/-- Where the providers start. -/
def bodyStart (ext : Bool) : ℕ := if ext then 23 else 21

theorem bodyStart_ge (ext : Bool) : 21 ≤ bodyStart ext ∧ bodyStart ext ≤ 23 := by
  unfold bodyStart
  split_ifs <;> omega

/-- The sids that are written. -/
def writtenSids (card : CcCard) (sids : List (BitVec 16)) : List (BitVec 16) :=
  sids.take (sidLimit card)

def sidBytes (sid : BitVec 16) : List Byte := i2b 2 (sid.setWidth 32)

/-- The providers from position `o` on. Where `sa` is left out the bytes are those of `gap`. -/
def providerBytes (gap : ℕ → Byte) (auAllowed : Bool) : ℕ → List CcProvider → List Byte
  | _, [] => []
  | o, prov :: provs =>
    i2b 3 prov.prov ++ (if auAllowed then prov.sa.toList else slice gap (o + 3) 4) ++
      providerBytes gap auAllowed (o + 7) provs

/-- What is written so far: the header, the counters and, behind them, `bytes`. Above that the buffer is
as `memset` left it. -/
structure Layout (mem : ℕ → Byte) (req : CardRequest) (card : CcCard) (counts : ℕ → ℕ)
    (bytes : List Byte) (out : Out) : Prop where
  header : Holds out.buf 0 (cardHeader card req.auAllowed)
  counters : ∀ c, 20 ≤ c → c < bodyStart req.ext → out.buf c = BitVec.ofNat 8 (counts c)
  body : Holds out.buf (bodyStart req.ext) bytes
  tail : ∀ i, out.ofs ≤ i → out.buf i = memset mem i
  ofs : out.ofs = bodyStart req.ext + bytes.length

@[simp] theorem length_cardHeader (card : CcCard) (auAllowed : Bool) :
    (cardHeader card auAllowed).length = 20 := by
  unfold cardHeader
  split_ifs <;> simp

@[simp] theorem length_sidBytes (sid : BitVec 16) : (sidBytes sid).length = 2 := rfl

theorem length_providerBytes (gap : ℕ → Byte) (auAllowed : Bool) (o : ℕ) (provs : List CcProvider) :
    (providerBytes gap auAllowed o provs).length = 7 * provs.length := by
  induction provs generalizing o with
  | nil => rfl
  | cons prov provs ih =>
    unfold providerBytes
    rw [List.length_append, List.length_append, ih, length_i2b_three, List.length_cons]
    split_ifs <;> simp <;> omega

section Writing

variable {mem : ℕ → Byte} {req : CardRequest} {card : CcCard} {counts : ℕ → ℕ} {bytes : List Byte}
  {out : Out}

theorem Layout.append (h : Layout mem req card counts bytes out) (bs : List Byte) :
    Layout mem req card counts (bytes ++ bs) (out.append bs) := by
  have hofs := h.ofs
  have hstart := bodyStart_ge req.ext
  unfold Out.append
  constructor
  · apply h.header.put
    rw [length_cardHeader]
    omega
  · intro c hlo hhi
    dsimp only
    rw [put_of_lt (by omega)]
    exact h.counters c hlo hhi
  · rw [holds_append, ← hofs]
    exact ⟨h.body.put (.inl (by omega)), holds_put⟩
  · intro i hi
    dsimp only at hi ⊢
    rw [put_of_le hi]
    exact h.tail i (by omega)
  · dsimp only
    rw [List.length_append]
    omega

theorem Layout.skip (h : Layout mem req card counts bytes out) (n : ℕ) :
    Layout mem req card counts (bytes ++ slice (memset mem) out.ofs n) (out.skip n) := by
  have hofs := h.ofs
  unfold Out.skip
  refine ⟨h.header, h.counters, ?_, ?_, ?_⟩
  · rw [holds_append, ← hofs]
    refine ⟨h.body, holds_iff.mpr fun i hi => ?_⟩
    dsimp only
    rw [h.tail _ (by omega)]
    simp [slice]
  · intro i hi
    dsimp only at hi
    exact h.tail i (by omega)
  · dsimp only
    rw [List.length_append, length_slice]
    omega

theorem Layout.count (h : Layout mem req card counts bytes out) {c : ℕ} (hlo : 20 ≤ c)
    (hhi : c < bodyStart req.ext) :
    Layout mem req card (Function.update counts c (counts c + 1)) bytes (out.count c) := by
  have hofs := h.ofs
  constructor
  · apply h.header.put
    rw [length_cardHeader]
    omega
  · intro c' hlo' hhi'
    by_cases hc : c' = c
    · rw [hc, Function.update_self, count_self, h.counters c hlo hhi, BitVec.ofNat_add]
      rfl
    · rw [Function.update_of_ne hc, count_of_ne hc]
      exact h.counters c' hlo' hhi'
  · exact h.body.put (.inr (by rw [List.length_singleton]; omega))
  · intro i hi
    change out.ofs ≤ i at hi
    rw [count_of_ne (by omega)]
    exact h.tail i hi
  · exact h.ofs

theorem Layout.providers (h : Layout mem req card counts bytes out) (provs : List CcProvider) :
    Layout mem req card (Function.update counts 20 (counts 20 + provs.length))
      (bytes ++ providerBytes (memset mem) req.auAllowed out.ofs provs)
      (provs.foldl (writeProvider req.auAllowed) out) := by
  induction provs generalizing counts bytes out with
  | nil => simpa [providerBytes] using h
  | cons prov provs ih =>
    have hstart := bodyStart_ge req.ext
    have hone : Layout mem req card (Function.update counts 20 (counts 20 + 1))
        (bytes ++ i2b 3 prov.prov ++
          if req.auAllowed then prov.sa.toList else slice (memset mem) (out.ofs + 3) 4)
        (writeProvider req.auAllowed out prov) := by
      unfold writeProvider
      apply Layout.count _ (by decide) (by omega)
      by_cases hau : req.auAllowed = true
      · rw [if_pos hau, if_pos hau]
        exact (h.append _).append _
      · rw [if_neg hau, if_neg hau]
        exact (h.append _).skip 4
    have hofs : (writeProvider req.auAllowed out prov).ofs = out.ofs + 7 := by
      unfold writeProvider
      dsimp only [Out.count, Out.append, Out.skip]
      split_ifs <;> simp
    have hall := ih hone
    rw [Function.update_self, Function.update_idem, hofs, Nat.add_assoc, Nat.add_comm 1] at hall
    unfold providerBytes
    rw [List.foldl_cons, List.length_cons]
    simp only [List.append_assoc] at hall ⊢
    exact hall

theorem Layout.sids (h : Layout mem req card counts bytes out) {c : ℕ} (hlo : 20 ≤ c)
    (hhi : c < bodyStart req.ext) (sids : List (BitVec 16)) :
    Layout mem req card (Function.update counts c (counts c + sids.length))
      (bytes ++ sids.flatMap sidBytes) (sids.foldl (writeSid c) out) := by
  induction sids generalizing counts bytes out with
  | nil => simpa using h
  | cons sid sids ih =>
    have hall := ih ((h.append (sidBytes sid)).count hlo hhi)
    rw [Function.update_self, Function.update_idem, Nat.add_assoc, Nat.add_comm 1,
      List.append_assoc] at hall
    exact hall

theorem Layout.cardSids (h : Layout mem req card counts bytes out) (hext : req.ext = true)
    (hassign : counts 21 = 0) (hreject : counts 22 = 0) :
    Layout mem req card
      (Function.update (Function.update counts 21 (writtenSids card (goodSids req card)).length)
        22 (writtenSids card (badSids req card)).length)
      (bytes ++ (writtenSids card (goodSids req card)).flatMap sidBytes ++
        (writtenSids card (badSids req card)).flatMap sidBytes) (writeCardSids req card out) := by
  have hstart : bodyStart req.ext = 23 := if_pos hext
  have hofs := h.ofs
  obtain ⟨good, hgood⟩ : ∃ good, good = writtenSids card (goodSids req card) := ⟨_, rfl⟩
  obtain ⟨bad, hbad⟩ : ∃ bad, bad = writtenSids card (badSids req card) := ⟨_, rfl⟩
  have hone := h.sids (by decide) (by rw [hstart]; decide) (c := 21) good
  have htwo := hone.sids (by decide) (by rw [hstart]; decide) (c := 22) bad
  rw [Function.update_of_ne (by decide), hassign, hreject, Nat.zero_add, Nat.zero_add] at htwo
  have hzero : (out.buf 21).toNat = 0 := by
    rw [h.counters 21 (by decide) (by rw [hstart]; decide), hassign]
    rfl
  have hzero' : ((good.foldl (writeSid 21) out).buf 22).toNat = 0 := by
    rw [hone.counters 22 (by decide) (by rw [hstart]; decide), Function.update_of_ne (by decide),
      hreject]
    rfl
  have hofs' : 22 < (good.foldl (writeSid 21) out).ofs := by
    rw [hone.ofs, hstart]
    omega
  have hwrite : writeCardSids req card out =
      bad.foldl (writeSid 22) (good.foldl (writeSid 21) out) := by
    unfold writeCardSids
    unfold writtenSids goodSids sidLimit at hgood
    unfold writtenSids badSids sidLimit at hbad
    rw [if_pos hext] at hgood hbad
    cases htab : card.sidtab with
    | some ptr =>
      rw [htab] at hgood hbad
      dsimp only at hgood hbad ⊢
      rw [writeSids_eq (by omega) hzero (by decide) (by decide), Nat.sub_zero]
      rw [hgood] at hzero' hofs' ⊢
      rw [hbad]
      exact writeRejected_eq hofs' hzero' (by decide)
    | none =>
      rw [htab] at hgood hbad
      dsimp only at hgood hbad ⊢
      rw [writeSids_eq (by omega) hzero (by decide) (by decide), Nat.sub_zero]
      rw [hgood] at hzero' hofs' ⊢
      rw [hbad]
      exact writeSids_eq hofs' hzero' (by decide) (by decide)
  rw [hwrite, ← hgood, ← hbad]
  exact htwo

/-- Counting in a byte of the body. -/
theorem Layout.countBody {pre post : List Byte} {x : Byte} {c : ℕ}
    (h : Layout mem req card counts (pre ++ x :: post) out)
    (hc : c = bodyStart req.ext + pre.length) :
    Layout mem req card counts (pre ++ (x + 1) :: post) (out.count c) := by
  have hofs := h.ofs
  have hstart := bodyStart_ge req.ext
  have hbody := h.body
  rw [holds_append, holds_cons, ← hc] at hbody
  rw [List.length_append, List.length_cons] at hofs
  constructor
  · apply h.header.put
    rw [length_cardHeader]
    omega
  · intro c' hlo hhi
    rw [count_of_ne (by omega)]
    exact h.counters c' hlo hhi
  · rw [holds_append, holds_cons, ← hc]
    refine ⟨hbody.1.put (.inl (by omega)), ?_, hbody.2.2.put (.inr (by simp))⟩
    rw [count_self, hbody.2.1]
  · intro i hi
    change out.ofs ≤ i at hi
    rw [count_of_ne (by omega)]
    exact h.tail i hi
  · rw [List.length_append, List.length_cons]
    exact hofs

theorem Layout.nodes {pre post : List Byte} {x : Byte} {c : ℕ}
    (h : Layout mem req card counts (pre ++ x :: post) out)
    (hc : c = bodyStart req.ext + pre.length) (nodes : List NodeId) :
    Layout mem req card counts (pre ++ (x + BitVec.ofNat 8 nodes.length) ::
      (post ++ nodes.flatMap (·.toList))) (nodes.foldl (writeNode c) out) := by
  induction nodes generalizing x post out with
  | nil => simpa using h
  | cons node nodes ih =>
    have hone := h.append node.toList
    rw [List.append_assoc, List.cons_append] at hone
    have hall := ih (hone.countBody hc)
    rw [List.append_assoc] at hall
    rw [List.length_cons, BitVec.ofNat_add, BitVec.add_comm (BitVec.ofNat 8 nodes.length),
      ← BitVec.add_assoc]
    exact hall

end Writing

theorem layout_memset (mem : ℕ → Byte) (req : CardRequest) (card : CcCard) :
    Layout mem req card (fun _ => 0) []
      ⟨put (memset mem) 0 (cardHeader card req.auAllowed), if req.ext then 23 else 21⟩ := by
  have hstart := bodyStart_ge req.ext
  constructor
  · exact holds_put
  · intro c hlo hhi
    dsimp only
    rw [put_of_le (by rw [length_cardHeader]; omega)]
    exact if_pos (by unfold ccMaxmsgsize; omega)
  · exact holds_nil
  · intro i hi
    change bodyStart req.ext ≤ i at hi
    exact put_of_le (by rw [length_cardHeader]; omega)
  · rfl

/-- The body before the node count. -/
def beforeNodes (mem : ℕ → Byte) (req : CardRequest) (card : CcCard) : List Byte :=
  providerBytes (memset mem) req.auAllowed (bodyStart req.ext) card.providers ++
    (writtenSids card (goodSids req card)).flatMap sidBytes ++
    (writtenSids card (badSids req card)).flatMap sidBytes

/-- Where the node count stands. -/
def nremoteOfs (req : CardRequest) (card : CcCard) : ℕ :=
  bodyStart req.ext + 7 * card.providers.length +
    2 * (writtenSids card (goodSids req card)).length +
    2 * (writtenSids card (badSids req card)).length

theorem length_beforeNodes (mem : ℕ → Byte) (req : CardRequest) (card : CcCard) :
    bodyStart req.ext + (beforeNodes mem req card).length = nremoteOfs req card := by
  unfold beforeNodes nremoteOfs
  rw [List.length_append, List.length_append, length_providerBytes,
    length_flatMap_of_width length_sidBytes, length_flatMap_of_width length_sidBytes]
  omega

theorem writeCard_layout (mem : ℕ → Byte) (req : CardRequest) (card : CcCard) :
    ∃ counts, counts 20 = card.providers.length ∧
      (req.ext = true → counts 21 = (writtenSids card (goodSids req card)).length ∧
        counts 22 = (writtenSids card (badSids req card)).length) ∧
      Layout mem req card counts
        (beforeNodes mem req card ++
          (memset mem (nremoteOfs req card) + BitVec.ofNat 8 (announcedNodes req card).length) ::
            (announcedNodes req card).flatMap (·.toList))
        (writeCard req card mem) := by
  have hprovs := (layout_memset mem req card).providers card.providers
  obtain ⟨out, hout⟩ : ∃ out, out = card.providers.foldl (writeProvider req.auAllowed)
    ⟨put (memset mem) 0 (cardHeader card req.auAllowed), if req.ext then 23 else 21⟩ := ⟨_, rfl⟩
  rw [← hout, List.nil_append] at hprovs
  have hsids : ∃ counts, counts 20 = card.providers.length ∧
      (req.ext = true → counts 21 = (writtenSids card (goodSids req card)).length ∧
        counts 22 = (writtenSids card (badSids req card)).length) ∧
      Layout mem req card counts (beforeNodes mem req card)
        (if req.ext then writeCardSids req card out else out) := by
    by_cases hext : req.ext = true
    · rw [if_pos hext]
      refine ⟨_, ?_, ?_, hprovs.cardSids hext rfl rfl⟩
      · simp
      · intro _
        constructor
        · rw [Function.update_of_ne (by decide), Function.update_self]
        · rw [Function.update_self]
    · rw [if_neg hext]
      have hbody : beforeNodes mem req card =
          providerBytes (memset mem) req.auAllowed (bodyStart req.ext) card.providers := by
        unfold beforeNodes goodSids badSids
        rw [if_neg hext, if_neg hext]
        simp [writtenSids]
      rw [hbody]
      exact ⟨_, by simp, fun h => absurd h hext, hprovs⟩
  obtain ⟨counts, hcount, hcounts, hlayout⟩ := hsids
  refine ⟨counts, hcount, hcounts, ?_⟩
  have hofs := hlayout.ofs
  rw [length_beforeNodes] at hofs
  have hskip := hlayout.skip 1
  rw [slice_succ, slice_zero, hofs] at hskip
  have hnodes := hskip.nodes (length_beforeNodes mem req card).symm (announcedNodes req card)
  rw [List.nil_append] at hnodes
  have hwrite : writeCard req card mem = (announcedNodes req card).foldl
      (writeNode (nremoteOfs req card))
      ((if req.ext then writeCardSids req card out else out).skip 1) := by
    unfold writeCard announcedNodes
    dsimp only
    rw [← hout, hofs, List.foldl_append]
    split_ifs <;> rfl
  rw [hwrite]
  exact hnodes

/-- What `write_card` leaves in memory. -/
structure Written (mem : ℕ → Byte) (req : CardRequest) (card : CcCard) (out : Out) : Prop where
  header : Holds out.buf 0 (cardHeader card req.auAllowed)
  nprov : out.buf 20 = BitVec.ofNat 8 card.providers.length
  nassign : req.ext = true →
    out.buf 21 = BitVec.ofNat 8 (writtenSids card (goodSids req card)).length
  nreject : req.ext = true →
    out.buf 22 = BitVec.ofNat 8 (writtenSids card (badSids req card)).length
  providers : Holds out.buf (bodyStart req.ext)
    (providerBytes (memset mem) req.auAllowed (bodyStart req.ext) card.providers)
  good : Holds out.buf (bodyStart req.ext + 7 * card.providers.length)
    ((writtenSids card (goodSids req card)).flatMap sidBytes)
  bad : Holds out.buf (bodyStart req.ext + 7 * card.providers.length +
    2 * (writtenSids card (goodSids req card)).length)
    ((writtenSids card (badSids req card)).flatMap sidBytes)
  count : out.buf (nremoteOfs req card) =
    memset mem (nremoteOfs req card) + BitVec.ofNat 8 (announcedNodes req card).length
  nodes : Holds out.buf (nremoteOfs req card + 1) ((announcedNodes req card).flatMap (·.toList))
  tail : ∀ i, out.ofs ≤ i → out.buf i = memset mem i
  ofs : out.ofs = nremoteOfs req card + 1 + 8 * (announcedNodes req card).length

theorem length_node (node : NodeId) : node.toList.length = 8 := Vector.length_toList

theorem writeCard_written (mem : ℕ → Byte) (req : CardRequest) (card : CcCard) :
    Written mem req card (writeCard req card mem) := by
  obtain ⟨counts, hcount, hcounts, hlayout⟩ := writeCard_layout mem req card
  have hbody := hlayout.body
  have hofs := hlayout.ofs
  have hlen := length_beforeNodes mem req card
  have hstart := bodyStart_ge req.ext
  rw [holds_append, holds_cons, hlen] at hbody
  obtain ⟨hbefore, hcountBody, hnodes⟩ := hbody
  unfold beforeNodes at hbefore
  rw [holds_append, holds_append, length_providerBytes, List.length_append, length_providerBytes,
    length_flatMap_of_width length_sidBytes, ← Nat.add_assoc] at hbefore
  rw [List.length_append, List.length_cons, length_flatMap_of_width length_node] at hofs
  constructor
  · exact hlayout.header
  · rw [← hcount]
    exact hlayout.counters 20 (by decide) (by omega)
  · intro hext
    rw [← (hcounts hext).1]
    exact hlayout.counters 21 (by decide) (by rw [hext]; decide)
  · intro hext
    rw [← (hcounts hext).2]
    exact hlayout.counters 22 (by decide) (by rw [hext]; decide)
  · exact hbefore.1.1
  · exact hbefore.1.2
  · exact hbefore.2
  · exact hcountBody
  · exact hnodes
  · exact hlayout.tail
  · omega

end NCam.Cccam
