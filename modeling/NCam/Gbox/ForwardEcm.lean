import NCam.Gbox.SendLimits

/-! An ECM message from one gbox to the next: what `gbox_send_ecm` builds and `gbox_incoming_ecm` reads. -/
namespace NCam.Gbox

open NCam.Lib.Memory NCam.Util

section Message

variable {loc : LocalGbox} {peer : GboxPeer} {now : ℤ} {cards cards' : List GboxCard} {er er' : EcmRequest}
  {buf : ℕ → Byte} {buflen : ℕ}

/-- The hop bytes for a distance. -/
def hops (dist : Byte) : List Byte := (List.range (dist.toNat + 1)).map (BitVec.ofNat 8)

theorem length_hops {dist : Byte} : (hops dist).length = dist.toNat + 1 := by
  rw [hops, List.length_map, List.length_range]

/-- The message in front of the cards. -/
def ecmStart (loc : LocalGbox) (peer : GboxPeer) (er : EcmRequest) : ℕ → Byte :=
  (ecmFields loc peer er).foldl (fun buf w => put buf w.1 w.2) fun _ => 0

/-- A message with `nb` cards: the fields in front of them, but for the byte 16, and the hops behind. -/
structure EcmMessage (loc : LocalGbox) (peer : GboxPeer) (er : EcmRequest) (nb : ℕ) (buf : ℕ → Byte)
    (buflen : ℕ) : Prop where
  len : buflen = er.ecmlen + 28 + 3 * nb + (er.gboxEcmDist.toNat + 1) + 14
  fits : buflen ≤ SEND_BUF_SIZE
  fields : ∀ i < er.ecmlen + 28, i ≠ 16 → buf i = ecmStart loc peer er i
  hops : Holds buf (er.ecmlen + 28 + 3 * nb) (Gbox.hops er.gboxEcmDist)

theorem ecmFooter_eq {nb : Byte} {start : ℕ} {buf' : ℕ → Byte}
    (h : ecmFooter loc peer er nb buf start = some buf') :
    start + (er.gboxEcmDist.toNat + 1) + 14 ≤ SEND_BUF_SIZE ∧ buf' =
      put (put (put (put buf 16 [nb]) start (hops er.gboxEcmDist))
        (start + (er.gboxEcmDist.toNat + 1)) loc.checkcode.toList)
        (start + (er.gboxEcmDist.toNat + 1) + 7) peer.checkcode.toList := by
  have hsome : (ecmFooter loc peer er nb buf start).isSome := by
    rw [h]
    rfl
  obtain ⟨hmax, hfit⟩ := (ecmFooter_isSome (by decide)).mp hsome
  refine ⟨hfit, ?_⟩
  unfold ecmFooter hopBytes at h
  rw [if_neg hmax, Option.bind_some] at h
  change putAll SEND_BUF_SIZE buf [(16, [nb]), (start, hops er.gboxEcmDist),
    (start + (hops er.gboxEcmDist).length, loc.checkcode.toList),
    (start + (hops er.gboxEcmDist).length + 7, peer.checkcode.toList)] = some buf' at h
  rw [length_hops, putAll_of_le] at h
  · exact (Option.some.inj h).symm
  · simp only [List.forall_mem_cons, List.length_singleton, length_hops, Vector.length_toList]
    have hsize : SEND_BUF_SIZE = 1024 := rfl
    exact ⟨by omega, by omega, by omega, by omega, fun w hw => absurd hw List.not_mem_nil⟩

theorem put_sixteen {b : Byte} {i : ℕ} (h : i ≠ 16) : put buf 16 [b] i = buf i := by
  rcases Nat.lt_or_gt_of_ne h with hlt | hgt
  · exact put_of_lt hlt
  · exact put_of_le hgt

/-- The cards are written behind the fields. -/
theorem searched_frame {start : ℕ → Byte} {out : CardsOut} (hstart : ecmBuffer loc peer (prepared loc er) = some start)
    (hout : gboxGetCardsForEcm SEND_BUF_SIZE (cardSearch peer now (prepared loc er)) start (er.ecmlen + 28) cards =
      some (cards', out)) : ∀ i < er.ecmlen + 28, out.sendBuf i = ecmStart loc peer (prepared loc er) i := by
  have hsearch : searchCards loc peer now cards er = some (cards', out) := by
    unfold searchCards
    rw [hstart]
    exact hout
  have hfit : er.ecmlen + 28 + 3 * (Selection.all (search loc peer now er) cards).sent.length ≤ SEND_BUF_SIZE := by
    by_contra hlong
    rw [searchCards_of_not_fit (by omega)] at hsearch
    cases hsearch
  obtain ⟨buf, cards'', out', hbuf, hsearch', hw⟩ := searchCards_of_fit hfit
  obtain ⟨-, rfl⟩ := Prod.mk.inj (Option.some.inj (hsearch.symm.trans hsearch'))
  have hfields : (prepared loc er).ecmlen + 28 ≤ SEND_BUF_SIZE := Nat.le_trans (Nat.le_add_right _ _) hfit
  rw [ecmBuffer_eq hfields] at hbuf
  obtain rfl := Option.some.inj hbuf
  exact hw.frame

/-- What `gbox_send_ecm` sends is such a message. -/
theorem ecmMessage_of_sent (h : gboxSendEcm loc peer now cards er = some (er', cards', .sent buf buflen)) :
    er'.gboxEcmSrcPeer = (prepared loc er).gboxEcmSrcPeer ∧ er'.gboxCrc = (prepared loc er).gboxCrc ∧
      ∃ nb, EcmMessage loc peer (prepared loc er) nb buf buflen := by
  unfold gboxSendEcm at h
  split_ifs at h with hlen hconnected hcards honline
  · cases h
  · cases h
  · cases h
  · cases h
  · obtain ⟨start, hstart, h⟩ := Option.bind_eq_some_iff.mp h
    obtain ⟨⟨cs, out⟩, hout, h⟩ := Option.bind_eq_some_iff.mp h
    dsimp only at h
    by_cases hnb : out.nbMatchingCrds = 0
    · rw [if_pos hnb] at h
      have h := Option.some.inj h
      split_ifs at h
      · cases h
      · cases h
    · rw [if_neg hnb] at h
      obtain ⟨final, hfooter, h⟩ := Option.bind_eq_some_iff.mp h
      obtain ⟨rfl, hrest⟩ := Prod.mk.inj (Option.some.inj h)
      obtain ⟨rfl, rfl⟩ := SendOutcome.sent.inj (Prod.mk.inj hrest).2
      obtain ⟨hfit, hfinal⟩ := ecmFooter_eq hfooter
      refine ⟨rfl, rfl, out.nbMatchingCrds.toNat, rfl, hfit, fun i hi h16 => ?_, ?_⟩
      · rw [hfinal, put_of_lt, put_of_lt, put_of_lt, put_sixteen h16]
        · exact searched_frame hstart hout i hi
        · exact Nat.lt_of_lt_of_le hi (Nat.le_add_right _ _)
        · exact Nat.lt_of_lt_of_le hi (by omega)
        · exact Nat.lt_of_lt_of_le hi (by omega)
      · rw [hfinal]
        refine (holds_put.put (Or.inl ?_)).put (Or.inl ?_)
        · rw [length_hops]
        · rw [length_hops]
          exact Nat.le_add_right _ _

/-- The fields that the receiver reads, in the start of the message. -/
structure EcmStart (er : EcmRequest) (buf : ℕ → Byte) : Prop where
  pid : Holds buf 10 (i2b 2 (er.pid.setWidth 32))
  srvid : Holds buf 12 (i2b 2 (er.srvid.setWidth 32))
  ecm : Holds buf 18 (slice er.ecm 0 er.ecmlen)
  srcPeer : Holds buf (er.ecmlen + 18) (i2b 2 (er.gboxEcmSrcPeer.setWidth 32))
  caprovid : Holds buf (er.ecmlen + 18 + 5) (i2b 4 (gboxGetCaprovid er.caid er.prid))

theorem remm_start {remm : Bool} {l : ℕ} {b : Byte} :
    ∀ w ∈ (if remm then [(l + 3, [b])] else []), w.1 = l + 3 := by
  split_ifs
  · intro w hw
    rw [List.mem_singleton.mp hw]
  · exact fun w hw => absurd hw List.not_mem_nil

theorem ecmStart_holds (loc : LocalGbox) (peer : GboxPeer) (er : EcmRequest) :
    EcmStart er (ecmStart loc peer er) := by
  have hremm : ∀ o ≤ er.ecmlen + 18 + 3,
      ∀ w ∈ (if peer.validRemmPeer then [(er.ecmlen + 18 + 3, [loc.gbxRev])] else []), o ≤ w.1 :=
    fun o ho w hw => Nat.le_trans ho (Nat.le_of_eq (remm_start w hw).symm)
  have hcaprovid : ∀ b : Bool, b = peer.validRemmPeer →
      Holds (ecmStart loc peer er) (er.ecmlen + 18 + 5) (i2b 4 (gboxGetCaprovid er.caid er.prid)) := by
    intro b hb
    cases b with
    | false =>
      refine @holds_foldl_put _ _ _ _ _ 13 ?_ ?_
      · rw [ecmFields, ← hb]
        rfl
      · rw [ecmFields, ← hb]
        exact fun w hw => Nat.le_of_eq (congrArg Prod.fst (List.mem_singleton.mp hw)).symm
    | true =>
      refine @holds_foldl_put _ _ _ _ _ 14 ?_ ?_
      · rw [ecmFields, ← hb]
        rfl
      · rw [ecmFields, ← hb]
        exact fun w hw => Nat.le_of_eq (congrArg Prod.fst (List.mem_singleton.mp hw)).symm
  refine ⟨@holds_foldl_put _ _ _ _ _ 3 rfl ?_, @holds_foldl_put _ _ _ _ _ 4 rfl ?_,
    @holds_foldl_put _ _ _ _ _ 8 rfl ?_, @holds_foldl_put _ _ _ _ _ 9 rfl ?_, hcaprovid _ rfl⟩ <;>
    unfold ecmFields gboxMessageHeader <;>
    simp only [List.cons_append, List.nil_append, List.drop_succ_cons, List.drop_zero, List.forall_mem_cons,
      List.forall_mem_append, length_i2b_two, length_slice]
  · refine ⟨by omega, by omega, by omega, by omega, by omega, by omega, by omega, by omega, hremm _ (by omega),
      by omega, by omega, by omega, fun w hw => absurd hw List.not_mem_nil⟩
  · refine ⟨by omega, by omega, by omega, by omega, by omega, by omega, by omega, hremm _ (by omega),
      by omega, by omega, by omega, fun w hw => absurd hw List.not_mem_nil⟩
  · refine ⟨by omega, by omega, by omega, hremm _ (by omega), by omega, by omega, by omega,
      fun w hw => absurd hw List.not_mem_nil⟩
  · refine ⟨by omega, by omega, hremm _ (by omega), by omega, by omega, by omega,
      fun w hw => absurd hw List.not_mem_nil⟩

end Message

section Receive

variable {loc : LocalGbox} {peer : GboxPeer} {er : EcmRequest} {nb : ℕ} {buf data : ℕ → Byte} {n : ℕ}
  {rcv : EcmReceiver}

/-- The received bytes hold what the start of the message holds. -/
theorem EcmMessage.holds (h : EcmMessage loc peer er nb buf n) (hdata : ∀ i < n, data i = buf i) {o : ℕ}
    {bs : List Byte} (hbs : Holds (ecmStart loc peer er) o bs) (hend : o + bs.length ≤ er.ecmlen + 28)
    (h16 : o + bs.length ≤ 16 ∨ 17 ≤ o) : Holds data o bs := by
  have hlen := h.len
  refine hbs.congr fun i hi => ?_
  rw [hdata _ (by omega)]
  exact h.fields _ (by omega) (by omega)

theorem EcmMessage.start (h : EcmMessage loc peer er nb buf n) (hdata : ∀ i < n, data i = buf i) :
    EcmStart er data := by
  have hstart := ecmStart_holds loc peer er
  refine ⟨h.holds hdata hstart.pid ?_ (.inl ?_), h.holds hdata hstart.srvid ?_ (.inl ?_),
    h.holds hdata hstart.ecm ?_ (.inr ?_), h.holds hdata hstart.srcPeer ?_ (.inr ?_),
    h.holds hdata hstart.caprovid ?_ (.inr ?_)⟩ <;>
    try rw [length_slice] <;> omega
  all_goals first
    | omega
    | rw [length_i2b_two]; omega
    | rw [length_i2b_four]; omega

theorem EcmMessage.hop (h : EcmMessage loc peer er nb buf n) (hdata : ∀ i < n, data i = buf i) {k : ℕ}
    (hk : k ≤ er.gboxEcmDist.toNat) : data (er.ecmlen + 28 + 3 * nb + k) = BitVec.ofNat 8 k := by
  have hlen := h.len
  have hk' : k < (Gbox.hops er.gboxEcmDist).length := by
    rw [length_hops]
    omega
  rw [hdata _ (by omega), h.hops.getElem hk']
  exact (List.getElem_map ..).trans (congrArg _ (List.getElem_range ..))

theorem gboxGetChecksum_congr {a b : ℕ → Byte} {l : ℕ} (hl : 4 ≤ l) (h : ∀ i < l, a i = b i) :
    gboxGetChecksum a l = gboxGetChecksum b l := by
  have hword : ∀ o, o + 4 ≤ l → b2i 4 a o = b2i 4 b o :=
    fun o ho => b2i_four_congr fun k hk => h (o + k) (by omega)
  unfold gboxGetChecksum
  rw [hword 0 hl]
  refine List.foldl_ext _ _ _ fun checksum counter hc => ?_
  obtain ⟨k, hk, rfl⟩ := List.mem_range'.mp hc
  rw [hword (4 * (1 + 1 * k)) (by omega)]

/-- The request `r` that the receiver makes of the message for `er`, which was sent as `er'`. -/
structure Forwards (er er' r : EcmRequest) (ere : EcmRequestExt) : Prop where
  ecmlen : r.ecmlen = er.ecmlen
  ecm : ∀ i < er.ecmlen, r.ecm i = er.ecm i
  pid : r.pid = er.pid
  srvid : r.srvid = er.srvid
  caid : r.caid = er.caid
  prid : r.prid = er.prid
  srcPeer : r.gboxEcmSrcPeer = er'.gboxEcmSrcPeer
  crc : r.gboxCrc = er'.gboxCrc
  dist : r.gboxEcmDist.toNat = er.gboxEcmDist.toNat + 1
  routing : slice ere.gboxRoutingInfo 0 er.gboxEcmDist.toNat =
    (List.range er.gboxEcmDist.toNat).map (BitVec.ofNat 8)

/-- The caid and the provider are recovered from their encoding. -/
def Lossless (er : EcmRequest) : Prop :=
  gboxGetCaid (gboxGetCaprovid er.caid er.prid) = er.caid ∧
    gboxGetProvid (gboxGetCaprovid er.caid er.prid) = er.prid

instance (er : EcmRequest) : Decidable (Lossless er) := by
  unfold Lossless
  infer_instance

theorem setWidth_back {v : BitVec 16} : (v.setWidth 32).setWidth 16 = v := by
  rw [BitVec.setWidth_setWidth_of_le _ (by omega), BitVec.setWidth_eq]

theorem toNat_succ {b : Byte} (h : b.toNat + 1 < 256) : (b + 1).toNat = b.toNat + 1 := by
  rw [BitVec.toNat_add]
  exact Nat.mod_eq_of_lt h

/-- A message for a request that is not past its hops is read back. -/
theorem EcmMessage.incoming (h : EcmMessage loc peer er nb buf n) (hdata : ∀ i < n, data i = buf i)
    (hsct : er.ecmlen = sectionLength er.ecm 0 + 3) (hmin : MIN_ECM_LENGTH ≤ sectionLength er.ecm 0)
    (hlossless : Lossless er) (hmax : er.gboxEcmDist.toNat + 1 ≤ GBOX_MAXHOPS)
    (hreshare : er.gboxEcmDist.toNat + 1 ≤ rcv.gboxReshare.toNat)
    (hblocked : rcv.gboxBlockEcm.contains er.gboxEcmSrcPeer = false) :
    ∃ r ere idx diffcheck, gboxIncomingEcm rcv data n = some (.request r ere idx diffcheck) ∧
      r.gboxCrc = gboxGetChecksum er.ecm er.ecmlen ∧
      ∀ er' : EcmRequest, er'.gboxEcmSrcPeer = er.gboxEcmSrcPeer →
        er'.gboxCrc = gboxGetChecksum er.ecm er.ecmlen → Forwards er er' r ere := by
  have hstart := h.start hdata
  have hlen := h.len
  have hfits := h.fits
  have hsize : SEND_BUF_SIZE = 1024 := rfl
  have hmaxhops : GBOX_MAXHOPS = 8 := rfl
  have hminecm : MIN_ECM_LENGTH = 8 := rfl
  have hecm : ∀ i < er.ecmlen, data (18 + i) = er.ecm i := by
    intro i hi
    have hcell := hstart.ecm.getElem (by rwa [length_slice])
    rw [hcell]
    unfold slice
    rw [List.getElem_map, List.getElem_range, Nat.zero_add]
  have hsection : sectionLength data 18 = sectionLength er.ecm 0 := by
    unfold sectionLength
    rw [hecm 1 (by omega), hecm 2 (by omega)]
  have hhop : getWithin RECEIVE_BUFFER_SIZE data (n - 15) = some er.gboxEcmDist := by
    rw [getWithin_of_lt (by change n - 15 < 1024; omega)]
    have hcell := h.hop hdata (Nat.le_refl er.gboxEcmDist.toNat)
    have hpos : n - 15 = er.ecmlen + 28 + 3 * nb + er.gboxEcmDist.toNat := by omega
    rw [hpos, hcell, BitVec.ofNat_toNat, BitVec.setWidth_eq]
  have hbound : er.ecmlen + 43 ≤ 1024 := by omega
  have hpeer : b2iWithin RECEIVE_BUFFER_SIZE 2 data (er.ecmlen + 18) =
      some (((er.gboxEcmSrcPeer.setWidth 32).setWidth 16).setWidth 32) := by
    unfold b2iWithin
    rw [if_pos (show er.ecmlen + 18 + 2 ≤ RECEIVE_BUFFER_SIZE by change _ ≤ 1024; omega), b2i_two hstart.srcPeer]
  have hback : ∀ v : BitVec 16, ((v.setWidth 32).setWidth 16).setWidth 32 = v.setWidth 32 := by
    intro v
    rw [setWidth_back]
  have hrouting : slice data (n - 14 - (er.gboxEcmDist + 1).toNat) er.gboxEcmDist.toNat =
      (List.range er.gboxEcmDist.toNat).map (BitVec.ofNat 8) := by
    have hdist : (er.gboxEcmDist + 1).toNat = er.gboxEcmDist.toNat + 1 := toNat_succ (by omega)
    have hpos : n - 14 - (er.gboxEcmDist + 1).toNat = er.ecmlen + 28 + 3 * nb := by omega
    rw [hpos]
    unfold slice
    refine List.map_congr_left fun k hk => ?_
    exact h.hop hdata (Nat.le_of_lt (List.mem_range.mp hk))
  have hsum : 18 + er.ecmlen = er.ecmlen + 18 := Nat.add_comm _ _
  have hdrop : 18 + er.ecmlen - 18 = er.ecmlen := Nat.add_sub_cancel_left ..
  have hrequest : ecmRequest rcv data n (18 + er.ecmlen) er.gboxEcmDist = some (.request
      { ecm := put (fun _ => 0) 0 (slice data 18 er.ecmlen), ecmlen := er.ecmlen
        pid := er.pid, srvid := er.srvid, caid := er.caid, prid := er.prid
        gboxEcmStatus := .newReq, gboxCardsPending := none, gboxEcmDist := er.gboxEcmDist + 1
        gboxEcmSrcPeer := er.gboxEcmSrcPeer, gboxCwSrcPeer := (b2i 2 data (18 + er.ecmlen + 10)).setWidth 16
        gboxCrc := gboxGetChecksum (put (fun _ => 0) 0 (slice data 18 er.ecmlen)) er.ecmlen }
      ⟨data (18 + er.ecmlen + 12), data (18 + er.ecmlen + 2), data (18 + er.ecmlen + 3),
        data (18 + er.ecmlen + 4),
        put (fun _ => 0) 0 (slice data (n - 14 - (er.gboxEcmDist + 1).toNat) er.gboxEcmDist.toNat)⟩
      (if rcv.ecmIdx = 100 then 0 else rcv.ecmIdx) (slice data (n - 14) 7 != rcv.checkcode.toList)) := by
    have hreceive : RECEIVE_BUFFER_SIZE = 1024 := rfl
    have hread : sliceWithin RECEIVE_BUFFER_SIZE data (n - 14 - (er.gboxEcmDist + 1).toNat)
        er.gboxEcmDist.toNat = some (slice data (n - 14 - (er.gboxEcmDist + 1).toNat) er.gboxEcmDist.toNat) :=
      sliceWithin_of_le (by omega)
    unfold ecmRequest
    rw [sliceWithin_of_le (by omega), sliceWithin_of_le (by omega), sliceWithin_of_le (by omega), hdrop, hsum]
    simp only [Option.bind_eq_bind, Option.bind_some, hread]
    rw [b2i_two hstart.pid, b2i_two hstart.srvid, b2i_two hstart.srcPeer, b2i_four hstart.caprovid,
      hlossless.1, hlossless.2]
    simp only [setWidth_back]
  have hincoming : gboxIncomingEcm rcv data n = ecmRequest rcv data n (18 + er.ecmlen) er.gboxEcmDist := by
    unfold gboxIncomingEcm
    rw [if_neg (by omega), if_neg (by omega), hhop, hsection, ← hsct]
    simp only [Option.bind_eq_bind, Option.bind_some]
    rw [if_neg (by omega), hpeer]
    simp only [Option.bind_some, setWidth_back]
    rw [hblocked, if_neg Bool.false_ne_true, if_neg (by change ¬ (er.ecmlen > 1024 ∨ _); omega)]
  have hcopy : ∀ i < er.ecmlen, put (fun _ => 0) 0 (slice data 18 er.ecmlen) i = er.ecm i := by
    intro i hi
    have hcell := @put_at _ (fun _ => (0 : Byte)) 0 (slice data 18 er.ecmlen) i (by rwa [length_slice])
    rw [Nat.zero_add] at hcell
    rw [hcell, ← hecm i hi]
    exact (List.getElem_map ..).trans (congrArg (fun k => data (18 + k)) (List.getElem_range ..))
  have hcrc := gboxGetChecksum_congr (show 4 ≤ er.ecmlen by omega) hcopy
  refine ⟨_, _, _, _, hincoming.trans hrequest, hcrc, fun er' hsrc hcrc' => ?_⟩
  refine ⟨rfl, hcopy, rfl, rfl, rfl, rfl, hsrc.symm, hcrc.trans hcrc'.symm, toNat_succ (by omega), ?_⟩
  rw [← hrouting]
  exact holds_put.slice_eq length_slice.symm

theorem dcwFields_fit (er : EcmRequest) (ere : EcmRequestExt) (a : DcwAnswer) :
    ∀ w ∈ dcwFields er ere a, w.1 + w.2.length ≤ 44 := by
  have hchid : (if er.caid >>> 8 = 0x06 then i2b 2 (a.chid.setWidth 32)
      else [if a.minorVersion = 0x2A then (0xFF : Byte) else 0, if a.minorVersion = 0x2A then 0xFF else 0]).length
        = 2 := by
    split_ifs <;> rfl
  unfold dcwFields
  simp only [List.forall_mem_cons, length_i2b_two, length_i2b_four, List.length_singleton,
    Vector.length_toList, hchid]
  exact ⟨by omega, by omega, by omega, by omega, by omega, by omega, by omega, by omega, by omega, by omega,
    by omega, by omega, by omega, by omega, by omega, by omega, fun w hw => absurd hw List.not_mem_nil⟩

/-- A CW for a request that came over one to `GBOX_MAXHOPS` hops fits into its buffer. -/
theorem gboxSendDcw_isSome {r : EcmRequest} (hpos : 1 ≤ r.gboxEcmDist.toNat)
    (hmax : r.gboxEcmDist.toNat ≤ GBOX_MAXHOPS) (ere : EcmRequestExt) (a : DcwAnswer) :
    (gboxSendDcw r ere a).isSome := by
  have hmaxhops : GBOX_MAXHOPS = 8 := rfl
  unfold gboxSendDcw
  split_ifs with hremm hrc hzero
  · rfl
  · rfl
  · rw [hzero] at hpos
    exact absurd hpos (by decide)
  · rw [sliceWithin_of_le (by omega), Option.bind_eq_bind, Option.bind_some, putAll_of_le]
    · rfl
    · have hsize : DCW_BUF_SIZE = 60 := rfl
      refine List.forall_mem_append.mpr ⟨fun w hw => ?_, ?_⟩
      · exact Nat.le_trans (dcwFields_fit r ere a w hw) (by omega)
      · simp only [List.forall_mem_cons, length_slice, List.length_singleton]
        exact ⟨by omega, by omega, fun w hw => absurd hw List.not_mem_nil⟩

end Receive

section Forward

/-- An ECM message is read back as the request it was built from, one hop further, if the section is not too
short and the hop is allowed to the receiver; the CWs for this request fit into their buffer. -/
theorem gboxIncomingEcm_gboxSendEcm {loc : LocalGbox} {peer : GboxPeer} {now : ℤ}
    {cards cards' : List GboxCard} {er er' : EcmRequest} {buf data : ℕ → Byte} {n : ℕ} {rcv : EcmReceiver}
    (h : gboxSendEcm loc peer now cards er = some (er', cards', .sent buf n)) (hdata : ∀ i < n, data i = buf i)
    (hsct : er.ecmlen = sectionLength er.ecm 0 + 3) (hmin : MIN_ECM_LENGTH ≤ sectionLength er.ecm 0)
    (hlossless : Lossless er) (hmax : er.gboxEcmDist.toNat < GBOX_MAXHOPS)
    (hreshare : er.gboxEcmDist.toNat < rcv.gboxReshare.toNat)
    (hblocked : rcv.gboxBlockEcm.contains er'.gboxEcmSrcPeer = false) :
    ∃ r ere idx diffcheck, gboxIncomingEcm rcv data n = some (.request r ere idx diffcheck) ∧
      Forwards er er' r ere ∧ ∀ a, (gboxSendDcw r ere a).isSome := by
  obtain ⟨hsrc, hcrc, nb, hmsg⟩ := ecmMessage_of_sent h
  obtain ⟨r, ere, idx, diffcheck, hin, -, hforwards⟩ := hmsg.incoming hdata hsct hmin hlossless hmax hreshare
    (hsrc ▸ hblocked)
  obtain ⟨hlen, hecm, hpid, hsrvid, hcaid, hprid, hpeer, hcrc', hdist, hrouting⟩ := hforwards er' hsrc hcrc
  have hdist' : r.gboxEcmDist.toNat = er.gboxEcmDist.toNat + 1 := hdist
  refine ⟨r, ere, idx, diffcheck, hin, ⟨hlen, hecm, hpid, hsrvid, hcaid, hprid, hpeer, hcrc', hdist, hrouting⟩,
    gboxSendDcw_isSome (by omega) (by omega) ere⟩

/-- What is sent to a peer with one card for the request. -/
def sentMessage (er : EcmRequest) : Option (EcmRequest × (ℕ → Byte) × ℕ) :=
  (gboxSendEcm .plain (.taking 1) 0 [.viaccess 1 none] er).bind fun r =>
    match r.2.2 with
    | .sent buf n => some (r.1, buf, n)
    | _ => none

theorem sentMessage_eq {er er' : EcmRequest} {buf : ℕ → Byte} {n : ℕ} (h : sentMessage er = some (er', buf, n)) :
    ∃ cards', gboxSendEcm .plain (.taking 1) 0 [.viaccess 1 none] er = some (er', cards', .sent buf n) := by
  obtain ⟨⟨er₁, cards', out⟩, hsend, hout⟩ := Option.bind_eq_some_iff.mp h
  cases out with
  | refused refusal => cases hout
  | nothing => cases hout
  | sent buf' n' =>
    obtain ⟨rfl, hrest⟩ := Prod.mk.inj (Option.some.inj hout)
    obtain ⟨rfl, rfl⟩ := Prod.mk.inj hrest
    exact ⟨cards', hsend⟩

/-- An ECM that has come over `dist` hops. -/
def EcmRequest.forwarded (dist : Byte) : EcmRequest :=
  { EcmRequest.viaccess 40 with gboxEcmDist := dist, gboxEcmSrcPeer := 0x3333 }

theorem gboxIncomingEcm_gboxSendEcm_forwarded : ∃ er' buf n r ere idx diffcheck,
    sentMessage (.forwarded 2) = some (er', buf, n) ∧
      gboxIncomingEcm ⟨5, [0x4444], Vector.replicate 7 0, 0⟩ buf n = some (.request r ere idx diffcheck) ∧
      Forwards (.forwarded 2) er' r ere ∧ ∀ a, (gboxSendDcw r ere a).isSome := by
  obtain ⟨⟨er', buf, n⟩, hsent, hpeer⟩ : ∃ m, sentMessage (.forwarded 2) = some m ∧ m.1.gboxEcmSrcPeer = 0x3333 := by
    have htest : (sentMessage (.forwarded 2)).any (fun m => m.1.gboxEcmSrcPeer = 0x3333) = true := by
      decide +kernel
    obtain ⟨m, hm, hp⟩ := (Option.any_eq_true _ _).mp htest
    exact ⟨m, hm, of_decide_eq_true hp⟩
  obtain ⟨cards', hsend⟩ := sentMessage_eq hsent
  have hblocked : [(0x4444 : BitVec 16)].contains er'.gboxEcmSrcPeer = false := by
    have hsrc : er'.gboxEcmSrcPeer = 0x3333 := hpeer
    rw [hsrc]
    decide
  obtain ⟨r, ere, idx, diffcheck, hin, hforwards, hdcw⟩ := @gboxIncomingEcm_gboxSendEcm _ _ _ _ _ _ _ _ _ _
    ⟨5, [0x4444], Vector.replicate 7 0, 0⟩ hsend (fun _ _ => rfl) (by decide) (by decide) (by decide)
    (by decide) (by decide) hblocked
  exact ⟨er', buf, n, r, ere, idx, diffcheck, hsent, hin, hforwards, hdcw⟩

/-- An ECM that has come over `GBOX_MAXHOPS` hops is sent, and dropped by every receiver. -/
theorem dropped_after_maxhops : Lossless (.forwarded 8) ∧ (EcmRequest.forwarded 8).gboxEcmDist.toNat ≤ GBOX_MAXHOPS ∧
    ∃ er' cards' buf n, gboxSendEcm .plain (.taking 1) 0 [.viaccess 1 none] (.forwarded 8) =
      some (er', cards', .sent buf n) ∧ ∀ rcv, gboxIncomingEcm rcv buf n = some .dropped := by
  refine ⟨by decide, by decide, ?_⟩
  have htest : (sentMessage (.forwarded 8)).any (fun m => 21 ≤ m.2.2 && m.2.2 ≤ 1024 &&
      MIN_ECM_LENGTH ≤ sectionLength m.2.1 18 && m.2.1 (m.2.2 - 15) = 8) = true := by
    decide +kernel
  obtain ⟨⟨er', buf, n⟩, hsent, hp⟩ := (Option.any_eq_true _ _).mp htest
  obtain ⟨cards', hsend⟩ := sentMessage_eq hsent
  simp only [Bool.and_eq_true, decide_eq_true_eq] at hp
  obtain ⟨⟨⟨hlo, hhi⟩, hmin⟩, hhop⟩ := hp
  refine ⟨er', cards', buf, n, hsend, fun rcv => ?_⟩
  unfold gboxIncomingEcm
  rw [if_neg (by omega), if_neg (by omega), getWithin_of_lt (by change n - 15 < 1024; omega), hhop,
    Option.bind_eq_bind, Option.bind_some, if_pos (Or.inl (by decide))]

end Forward

end NCam.Gbox
