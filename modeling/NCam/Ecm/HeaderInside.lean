import NCam.Ecm.HeaderReads

/-! When the header analysis of `get_cw` stays in the section and in its tables. -/
namespace NCam.Ecm

open NCam.Lib

/-- The bytes that are in the section and in the array of the request. -/
def headerBytes (er : EcmRequest) : ℕ := min (sctLen er.ecm) MAX_ECM_SIZE.toNat

/-- A place in the first `n` bytes of the section or in a table; `itab` has a row less than there are bytes. -/
def Place.InBounds (n : ℕ) : Place → Prop
  | .ecm i => i < n
  | .len4caid i => i < 256
  | .itab i => i < 0xff

section Section

variable (ecm : ℕ → Byte) (n : ℕ)

/-- The viaccess nano from `k` on has its type and length bytes below `n`, and its provider if it has one. -/
def NanoInside (k : ℕ) (len : Byte) : Prop :=
  let i := if ecm k = 0xD2 then (ecm (k + 1)).toNat + 2 else 0
  k + 1 + i < n ∧
    (ecm (k + 1 + i) = len ∧ (ecm (k + i) = 0x90 ∨ ecm (k + i) = 0x40) → k + 4 + i < n)

def ViaccessInside : Prop := NanoInside ecm n 4 3 ∧ NanoInside ecm n 6 7

/-- The places where the descriptors of a cryptoworks section stand, up to that of the provider. -/
inductive Descriptor (len : ℕ) : ℕ → ℕ → Prop
  | here (i : ℕ) : i < len → Descriptor len i i
  | behind (i j : ℕ) : i < len → ecm i ≠ 0x83 → Descriptor len (i + (ecm (i + 1)).toNat + 2) j →
      Descriptor len i j

/-- The descriptors have their length bytes below `n`, and that of the provider has the provider. -/
def DescriptorsInside (len i : ℕ) : Prop :=
  ∀ j, Descriptor ecm len i j → j + 1 < n ∧ (ecm j = 0x83 → j + 2 < n)

/-- What `chk_provid` looks for in a section of the caid is below `n`. -/
def ProvidInside (caid : Caid) : Prop :=
  (caid >>> 8 = 0x01 → 4 < n) ∧ (caid >>> 8 = 0x05 → ViaccessInside ecm n) ∧
    (caid >>> 8 = 0x0D → DescriptorsInside ecm n (sctLen ecm) 8) ∧ (caid = 0x1801 → 6 < n)

end Section

/-- The bytes of the chid are below `n`. -/
def SubidInside (caid : Caid) (n : ℕ) : Prop :=
  (caid >>> 8 = 0x01 → 8 < n) ∧ (caid >>> 8 = 0x05 → 9 < n) ∧ (caid >>> 8 = 0x06 → 7 < n) ∧
    (caid >>> 8 = 0x09 → 12 < n) ∧
    (caid >>> 8 = 0x4A ∧ !caidIsBulcrypt caid ∧ !caidIsDre caid ∧ !caidIsStreamguard caid → 7 < n)

/-- The section has a nagra header. -/
def showsNagra (ecm : ℕ → Byte) : Prop := (ecm 6).toNat = 1 ∧ (ecm 4).toNat + 2 = (ecm 2).toNat

instance (ecm : ℕ → Byte) : Decidable (showsNagra ecm) := inferInstanceAs (Decidable (_ ∧ _))

def showsIrdeto (ecm : ℕ → Byte) : Prop := (ecm 2).toNat = 0x31 ∧ (ecm 0x0b).toNat = 0x28

instance (ecm : ℕ → Byte) : Decidable (showsIrdeto ecm) := inferInstanceAs (Decidable (_ ∧ _))

/-- The guess of the card system stays in the section and in its tables. -/
def GuessInside (loaded : Bool) (ecm : ℕ → Byte) (n : ℕ) : Prop :=
  ViaccessInside ecm n ∧ 8 < n ∧ (ecm 8 = 0x10 → 9 < n) ∧
    (¬showsNagra ecm ∧ chkProvid ecm 0x500 = 0 → (ecm 2).toNat ≤ 252 ∧
      (loaded = true ∧ showsIrdeto ecm → (ecm 3).toNat ≠ 0xff))

/-- The caid that the irdeto table has for the section and the service, or 0. -/
def irdetoCaid (cfg : Setting) (er : EcmRequest) : Caid :=
  match (cfg.itab (er.ecm 3)).find? fun ptr => b2i 4 (fun k => er.ecm (4 + k)) = ptr.b47 with
  | none => 0
  | some ptr => if er.srvid ≠ 0 ∧ er.srvid ≠ ptr.sid then 0 else ptr.caid

/-- The caid from the irdeto table or by the length, else the last hope. -/
def tableCaid (cfg : Setting) (loaded : Bool) (er : EcmRequest) (lastHope : Caid) : Caid :=
  let caid := if showsIrdeto er.ecm ∧ loaded then irdetoCaid cfg er else 0
  let caid := if caid = 0 then cfg.len4caid ((er.ecm 2).toNat + 3) else caid
  if caid ≠ 0 then caid else lastHope

/-- The caid of cryptoworks or seca2 for their shapes, or 0. -/
def lastHopeCaid (ecm : ℕ → Byte) : Caid :=
  if (cryptoworksShape ecm).value then 0xd00 else if (secaShape ecm).value then 0x100 else 0

/-- The caid of the request, or that of its section. -/
def sectionCaid (cfg : Setting) (loaded : Bool) (er : EcmRequest) : Caid :=
  if er.caid ≠ 0 then er.caid
  else if showsNagra er.ecm then 0x1801
  else if chkProvid er.ecm 0x500 ≠ 0 then 0x500
  else tableCaid cfg loaded er (lastHopeCaid er.ecm)

/-- The section is long enough for all that is looked for in it, and its bytes are in the tables. -/
def HeaderInside (cfg : Setting) (loaded : Bool) (er : EcmRequest) : Prop :=
  let n := headerBytes er
  let caid := sectionCaid cfg loaded er
  (er.caid = 0 → GuessInside loaded er.ecm n) ∧ (er.ecmlen ≠ 0 → SubidInside caid n) ∧
    ProvidInside er.ecm n caid

/-- All reads are in the first `n` bytes and in the tables. -/
def ReadsInside {α : Type} (n : ℕ) (m : Reads Place α) : Prop := m.All (Place.InBounds n)

section Bytes

variable (ecm : ℕ → Byte) (n : ℕ)

theorem readsInside_byteAt (i : ℕ) : ReadsInside n (byteAt ecm i) ↔ i < n := Reads.all_read _ _

theorem readsInside_isByte (i : ℕ) (b : Byte) : ReadsInside n (isByte ecm i b) ↔ i < n := by
  unfold ReadsInside isByte
  rw [Reads.all_bind]
  constructor
  · intro h
    exact (readsInside_byteAt ecm n i).mp h.1
  · intro h
    exact ⟨(readsInside_byteAt ecm n i).mpr h, Reads.all_pure _⟩

theorem readsInside_b2iAt (m k : ℕ) (hm : 0 < m) : ReadsInside n (b2iAt ecm m k) ↔ k + m ≤ n := by
  constructor
  · intro h
    have hlast : Place.ecm (k + m - 1) ∈ (b2iAt ecm m k).places := by
      apply List.mem_map_of_mem
      rw [List.mem_range'_1]
      omega
    have : k + m - 1 < n := h _ hlast
    omega
  · intro h p hp
    obtain ⟨i, hi, rfl⟩ := List.mem_map.mp hp
    rw [List.mem_range'_1] at hi
    show i < n
    omega

theorem readsInside_skipD2 (k : ℕ) :
    ReadsInside n (skipD2 ecm k) ↔ k < n ∧ (ecm k = 0xD2 → k + 1 < n) := by
  have hfirst := readsInside_isByte ecm n k 0xD2
  have hsecond := readsInside_byteAt ecm n (k + 1)
  unfold ReadsInside at hfirst hsecond ⊢
  simp only [skipD2, Reads.all_bind, Reads.all_ite, Reads.all_pure, hfirst, hsecond, value_isByte,
    decide_eq_true_eq, and_true, implies_true]

theorem readsInside_viaccessNano (k : ℕ) (len : Byte) (provid : BitVec 32) :
    ReadsInside n (viaccessNano ecm k len provid) ↔ NanoInside ecm n k len := by
  have hskip := readsInside_skipD2 ecm n k
  have hbyte := readsInside_isByte ecm n
  have hb2i (k : ℕ) := readsInside_b2iAt ecm n 3 k (by omega)
  have hvalue := value_skipD2 ecm k
  unfold ReadsInside at hskip hbyte hb2i ⊢
  unfold NanoInside
  simp only [viaccessNano, Reads.all_bind, Reads.all_ite, Reads.all_pure, Reads.all_and, Reads.all_or,
    hskip, hbyte, hb2i, value_isByte, Reads.value_and, Reads.value_or, Bool.and_eq_true, Bool.or_eq_true,
    decide_eq_true_eq, and_true, implies_true, hvalue]
  generalize hi : (if ecm k = 0xD2 then (ecm (k + 1)).toNat + 2 else 0) = i
  constructor
  · intro h
    refine ⟨h.2.1.1, fun hnano => ?_⟩
    have := h.2.2 hnano
    omega
  · intro h
    have hskip : k < n ∧ (ecm k = 0xD2 → k + 1 < n) := ⟨by omega, by omega⟩
    have htype : k + i < n := by omega
    exact ⟨hskip, ⟨h.1, fun _ => ⟨htype, fun _ => htype⟩⟩, fun hnano => by have := h.2 hnano; omega⟩

theorem descriptorsInside_of_le (len i : ℕ) (hi : len ≤ i) : DescriptorsInside ecm n len i := by
  intro j hj
  cases hj with
  | here _ h => omega
  | behind _ _ h => omega

theorem descriptorsInside_iff (len i : ℕ) (hi : i < len) : DescriptorsInside ecm n len i ↔
    i + 1 < n ∧ (ecm i = 0x83 → i + 2 < n) ∧
      (ecm i ≠ 0x83 → DescriptorsInside ecm n len (i + (ecm (i + 1)).toNat + 2)) := by
  constructor
  · intro h
    have hhere := h i (.here i hi)
    exact ⟨hhere.1, hhere.2, fun htag j hj => h j (.behind i j hi htag hj)⟩
  · intro h j hj
    obtain ⟨hlen, hprovid, hrest⟩ := h
    cases hj with
    | here => exact ⟨hlen, hprovid⟩
    | behind _ _ _ htag hj => exact hrest htag j hj

theorem readsInside_cryptoworksReads (len i : ℕ) :
    ReadsInside n (cryptoworksReads ecm len i) ↔ DescriptorsInside ecm n len i := by
  induction i using cryptoworksReads.induct len with
  | case1 i hi ih =>
    have hnext := ih (ecm (i + 1))
    have hbyte := readsInside_byteAt ecm n
    have htag := readsInside_isByte ecm n
    rw [descriptorsInside_iff ecm n len i hi, cryptoworksReads, if_pos hi, ← hnext]
    unfold ReadsInside at hbyte htag ⊢
    simp only [Reads.all_bind, Reads.all_ite, Reads.all_pure, hbyte, htag, value_isByte, value_byteAt,
      decide_eq_true_eq, and_true]
    constructor
    · intro h
      obtain ⟨hlen, htag, hprovid, hrest⟩ := h
      exact ⟨hlen, hprovid, hrest⟩
    · intro h
      obtain ⟨hlen, hprovid, hrest⟩ := h
      exact ⟨hlen, by omega, hprovid, hrest⟩
  | case2 i hi =>
    constructor
    · intro _
      exact descriptorsInside_of_le ecm n len i (by omega)
    · intro _
      unfold cryptoworksReads
      rw [if_neg hi]
      exact Reads.all_pure 0

theorem readsInside_sctLenAt (hn : 3 ≤ n) : ReadsInside n (sctLenAt ecm) := by
  intro p hp
  rcases List.mem_pair.mp hp with rfl | rfl
  · show 1 < n
    omega
  · show 2 < n
    omega

theorem readsInside_chkProvidReads (caid : Caid) (hn : 3 ≤ n) :
    ReadsInside n (chkProvidReads ecm caid) ↔ ProvidInside ecm n caid := by
  have hb2i (m k : ℕ) := readsInside_b2iAt ecm n m k
  have hnano := readsInside_viaccessNano ecm n
  have hlen := readsInside_sctLenAt ecm n hn
  have hdescriptors := readsInside_cryptoworksReads ecm n
  unfold ReadsInside at hb2i hnano hlen hdescriptors ⊢
  unfold chkProvidReads ProvidInside ViaccessInside
  simp only [Reads.all_bind, Reads.all_ite, Reads.all_pure, hb2i 2 _ (by decide), hnano, hlen,
    hdescriptors, value_sctLenAt, true_and]
  have hnagra (h : caid = 0x1801) : caid >>> 8 = 0x18 := by
    rw [h]
    decide
  grind

theorem readsInside_nagraShape (hn : 6 < n) : ReadsInside n (nagraShape ecm) := by
  have hbyte := readsInside_byteAt ecm n
  have htag := readsInside_isByte ecm n
  unfold ReadsInside at hbyte htag ⊢
  simp only [nagraShape, Reads.all_and, Reads.all_bind, Reads.all_pure, hbyte, htag, and_true]
  exact ⟨hn, fun _ => by omega⟩

theorem readsInside_secaShape : ReadsInside n (secaShape ecm) ↔ 8 < n ∧ (ecm 8 = 0x10 → 9 < n) := by
  have hbyte := readsInside_byteAt ecm n
  have htag := readsInside_isByte ecm n
  unfold ReadsInside at hbyte htag ⊢
  simp only [secaShape, Reads.all_and, Reads.all_bind, Reads.all_pure, hbyte, htag, value_isByte,
    decide_eq_true_eq, and_true]

theorem readsInside_cryptoworksShape (hn : 7 < n) : ReadsInside n (cryptoworksShape ecm) := by
  have hbyte (i : ℕ) (hi : i ≤ 7) : Reads.All (Place.InBounds n) (byteAt ecm i) :=
    (readsInside_byteAt ecm n i).mpr (by omega)
  have htag (i : ℕ) (b : Byte) (hi : i ≤ 7) : Reads.All (Place.InBounds n) (isByte ecm i b) :=
    (readsInside_isByte ecm n i b).mpr (by omega)
  unfold ReadsInside
  simp [cryptoworksShape, hbyte, htag]

theorem readsInside_irdetoShape (hn : 2 < n) (hlong : (ecm 2).toNat = 0x31 → 0x0b < n) :
    ReadsInside n (irdetoShape ecm) := by
  have htag := readsInside_isByte ecm n
  unfold ReadsInside at htag ⊢
  simp only [irdetoShape, Reads.all_and, htag, value_isByte, decide_eq_true_eq]
  exact ⟨hn, fun h => hlong (by rw [h]; rfl)⟩

theorem readsInside_nagraHeader (k : ℕ) (hn : k + 1 < n) : ReadsInside n (nagraHeader ecm k) := by
  have htag := readsInside_isByte ecm n
  unfold ReadsInside at htag ⊢
  simp only [nagraHeader, Reads.all_and, Reads.all_or, htag]
  omega

theorem readsInside_len4caidAt (cfg : Setting) (hn : 2 < n) :
    ReadsInside n (len4caidAt ecm cfg) ↔ (ecm 2).toNat ≤ 252 := by
  have hbyte := readsInside_byteAt ecm n 2
  unfold ReadsInside at hbyte ⊢
  simp only [len4caidAt, Reads.all_bind, Reads.all_read, hbyte, value_byteAt]
  show 2 < n ∧ (ecm 2).toNat + 3 < 256 ↔ _
  omega

end Bytes

section Request

variable (cfg : Setting) (loaded : Bool) (er : EcmRequest) (n : ℕ)

theorem readsInside_getSubidReads :
    ReadsInside n (getSubidReads er) ↔ (er.ecmlen ≠ 0 → SubidInside er.caid n) := by
  have hb2i (k : ℕ) := readsInside_b2iAt er.ecm n 2 k (by decide)
  unfold ReadsInside at hb2i ⊢
  unfold getSubidReads SubidInside
  simp only [Reads.all_ite, Reads.all_pure, hb2i]
  grind

theorem readsInside_guessIrdetoReads (hn : 7 < n) :
    ReadsInside n (guessIrdetoReads cfg loaded er) ↔ (loaded = true → (er.ecm 3).toNat ≠ 0xff) := by
  have hbyte := readsInside_byteAt er.ecm n 3
  have hb2i := readsInside_b2iAt er.ecm n 4 4 (by decide)
  have hrow : Place.InBounds n (.itab (er.ecm 3).toNat) ↔ (er.ecm 3).toNat ≠ 0xff := by
    show (er.ecm 3).toNat < 0xff ↔ _
    have := (er.ecm 3).isLt
    omega
  unfold ReadsInside at hbyte hb2i ⊢
  unfold guessIrdetoReads
  cases loaded with
  | false => simp
  | true =>
    simp only [Reads.all_bind, Reads.all_ite, Reads.all_pure, Reads.all_read, hbyte, hb2i, value_byteAt,
      hrow, Bool.not_true, Bool.false_eq_true, forall_const, false_implies, true_and, and_true,
      not_false_eq_true]
    constructor
    · intro h
      exact h.2.1
    · intro h
      exact ⟨by omega, h, fun _ => trivial, fun _ => by omega⟩

/-- The tables are used for a caid that is still unknown. -/
theorem readsInside_guessByTables (lastHope : Caid) (hn : 8 < n)
    (hlong : (er.ecm 2).toNat = 0x31 → 0x0b < n) :
    ReadsInside n (guessByTables cfg loaded er lastHope) ↔ (er.caid = 0 → (er.ecm 2).toNat ≤ 252 ∧
      (loaded = true ∧ showsIrdeto er.ecm → (er.ecm 3).toNat ≠ 0xff)) := by
  have hirdeto := readsInside_irdetoShape er.ecm n (by omega) hlong
  have htable := readsInside_guessIrdetoReads cfg loaded er n (by omega)
  have hlen := readsInside_len4caidAt er.ecm n cfg (by omega)
  unfold ReadsInside at hirdeto htable hlen ⊢
  unfold guessByTables
  by_cases hcaid : er.caid = 0
  · simp only [hcaid, if_true, forall_const, Reads.all_bind, Reads.all_ite, Reads.all_pure, hirdeto,
      value_irdetoShape, decide_eq_true_eq, implies_true, true_and, and_true,
      Reads.value_pure, htable, hlen]
    show (showsIrdeto er.ecm → _) ∧ (¬showsIrdeto er.ecm → _) ↔ _
    by_cases hshape : showsIrdeto er.ecm
    · -- a section of this length stays in the table
      have hshort : (er.ecm 2).toNat ≤ 252 := by
        rw [hshape.1]
        decide
      simp [hshape, hshort]
    · simp [hshape]
  · simp only [hcaid, if_false, false_implies, Reads.all_bind, Reads.all_pure, Reads.value_pure,
      and_true]

theorem setShown_ecm (prid : BitVec 32) (nagra : Bool) : (setShown er prid nagra).ecm = er.ecm := by
  simp only [setShown, apply_ite EcmRequest.ecm, ite_self]

theorem setShown_ecmlen (prid : BitVec 32) (nagra : Bool) :
    (setShown er prid nagra).ecmlen = er.ecmlen := by
  simp only [setShown, apply_ite EcmRequest.ecmlen, ite_self]

theorem setShown_srvid (prid : BitVec 32) (nagra : Bool) :
    (setShown er prid nagra).srvid = er.srvid := by
  simp only [setShown, apply_ite EcmRequest.srvid, ite_self]

theorem setShown_caid (prid : BitVec 32) (nagra : Bool) : (setShown er prid nagra).caid =
    if nagra then 0x1801 else if prid ≠ 0 then 0x500 else er.caid := by
  simp only [setShown, apply_ite EcmRequest.caid]

theorem setShown_sectionCaid (hcaid : er.caid = 0) :
    (setShown er (chkProvid er.ecm 0x500) (nagraShape er.ecm).value).caid =
      if showsNagra er.ecm then 0x1801 else if chkProvid er.ecm 0x500 ≠ 0 then 0x500 else 0 := by
  have hshape : (nagraShape er.ecm).value = decide (showsNagra er.ecm) := value_nagraShape er.ecm
  simp only [setShown_caid, hshape, hcaid, decide_eq_true_eq]

theorem providInside_viaccess (ecm : ℕ → Byte) : ProvidInside ecm n 0x500 ↔ ViaccessInside ecm n := by
  simp [ProvidInside]

theorem readsInside_guessCardsystemReads (hcaid : er.caid = 0)
    (hlong : (er.ecm 2).toNat = 0x31 → 0x0b < n) :
    ReadsInside n (guessCardsystemReads cfg loaded er) ↔ GuessInside loaded er.ecm n := by
  have hseca := readsInside_secaShape er.ecm n
  have hviaccess (hn : 8 < n) := readsInside_chkProvidReads er.ecm n 0x500 (by omega)
  have hnagra (hn : 8 < n) := readsInside_nagraShape er.ecm n (by omega)
  have hcryptoworks (hn : 8 < n) := readsInside_cryptoworksShape er.ecm n (by omega)
  have htables (lastHope : Caid) (hn : 8 < n) := readsInside_guessByTables cfg loaded
    (setShown er (chkProvid er.ecm 0x500) (nagraShape er.ecm).value) n lastHope hn
  have hunknown : (setShown er (chkProvid er.ecm 0x500) (nagraShape er.ecm).value).caid = 0 ↔
      ¬showsNagra er.ecm ∧ chkProvid er.ecm 0x500 = 0 := by
    rw [setShown_sectionCaid er hcaid]
    split_ifs with hshape hprovid
    · exact iff_of_false (by decide) (fun h => h.1 hshape)
    · exact iff_of_false (by decide) (fun h => hprovid h.2)
    · exact iff_of_true rfl ⟨hshape, not_not.mp hprovid⟩
  simp only [setShown_ecm, hunknown] at htables
  unfold ReadsInside at hviaccess hnagra hseca hcryptoworks htables ⊢
  unfold guessCardsystemReads GuessInside
  simp only [Reads.all_bind, value_chkProvidReads, hseca]
  constructor
  · intro h
    obtain ⟨hprovid, _, hseca, _, hrest⟩ := h
    have hn := hseca.1
    exact ⟨(providInside_viaccess n er.ecm).mp ((hviaccess hn).mp hprovid), hn, hseca.2,
      (htables _ hn hlong).mp hrest⟩
  · intro h
    obtain ⟨hprovid, hn, hseca, hrest⟩ := h
    exact ⟨(hviaccess hn).mpr ((providInside_viaccess n er.ecm).mpr hprovid), hnagra hn, ⟨hn, hseca⟩,
      hcryptoworks hn, (htables _ hn hlong).mpr hrest⟩

theorem guessIrdeto_caid (hcaid : er.caid = 0) : (guessIrdeto cfg er).caid = irdetoCaid cfg er := by
  unfold guessIrdeto irdetoCaid
  generalize (cfg.itab (er.ecm 3)).find? _ = row
  cases row with
  | none => exact hcaid
  | some ptr => simp only [apply_ite EcmRequest.caid, hcaid]

theorem guessIrdetoReads_caid (hcaid : er.caid = 0) :
    (guessIrdetoReads cfg loaded er).value.caid = if loaded then irdetoCaid cfg er else 0 := by
  cases loaded with
  | false => simp [guessIrdetoReads, hcaid]
  | true => rw [value_guessIrdetoReads cfg true er (by simp), guessIrdeto_caid cfg er hcaid, if_pos rfl]

theorem guessByTables_caid (lastHope : Caid) : (guessByTables cfg loaded er lastHope).value.caid =
    if er.caid ≠ 0 then er.caid else tableCaid cfg loaded er lastHope := by
  unfold guessByTables tableCaid
  by_cases hcaid : er.caid = 0
  · have htable := guessIrdetoReads_caid cfg loaded er hcaid
    have hirdeto : (irdetoShape er.ecm).value = decide (showsIrdeto er.ecm) := value_irdetoShape er.ecm
    simp only [hcaid, ne_eq, not_true_eq_false, if_true, if_false, Reads.value_bind, Reads.value_ite,
      Reads.value_pure, hirdeto, value_len4caidAt, decide_eq_true_eq, apply_ite EcmRequest.caid, htable]
    grind
  · simp only [hcaid, ne_eq, not_false_eq_true, if_true, if_false, Reads.value_bind, Reads.value_pure]

theorem irdetoCaid_setShown (prid : BitVec 32) (nagra : Bool) :
    irdetoCaid cfg (setShown er prid nagra) = irdetoCaid cfg er := by
  unfold irdetoCaid
  simp only [setShown_ecm, setShown_srvid]

theorem tableCaid_setShown (prid : BitVec 32) (nagra : Bool) (lastHope : Caid) :
    tableCaid cfg loaded (setShown er prid nagra) lastHope = tableCaid cfg loaded er lastHope := by
  simp only [tableCaid, irdetoCaid_setShown, setShown_ecm]

theorem guessCardsystemReads_caid (hcaid : er.caid = 0) :
    (guessCardsystemReads cfg loaded er).value.caid = sectionCaid cfg loaded er := by
  unfold guessCardsystemReads sectionCaid
  simp only [Reads.value_bind, value_chkProvidReads, guessByTables_caid, tableCaid_setShown,
    setShown_sectionCaid er hcaid]
  rw [if_neg (not_not.mpr hcaid)]
  by_cases hshape : showsNagra er.ecm
  · simp only [hshape, if_true]
    rfl
  · by_cases hprovid : chkProvid er.ecm 0x500 = 0
    · simp only [hshape, hprovid, if_false, ne_eq, not_true_eq_false]
      rfl
    · simp only [hshape, hprovid, if_false, ne_eq, not_false_eq_true, if_true]
      rfl

theorem guessIrdetoReads_section : (guessIrdetoReads cfg loaded er).value.ecm = er.ecm ∧
    (guessIrdetoReads cfg loaded er).value.ecmlen = er.ecmlen := by
  cases loaded with
  | false => exact ⟨rfl, rfl⟩
  | true =>
    rw [value_guessIrdetoReads cfg true er (by simp)]
    exact ⟨guessIrdeto_section.1, guessIrdeto_section.2.1⟩

theorem guessByTables_section (lastHope : Caid) :
    (guessByTables cfg loaded er lastHope).value.ecm = er.ecm ∧
      (guessByTables cfg loaded er lastHope).value.ecmlen = er.ecmlen := by
  have htable := guessIrdetoReads_section cfg loaded er
  unfold guessByTables
  simp only [Reads.value_bind, Reads.value_ite, Reads.value_pure, apply_ite EcmRequest.ecm,
    apply_ite EcmRequest.ecmlen, htable, ite_self, and_self]

theorem guessCardsystemReads_section :
    (guessCardsystemReads cfg loaded er).value.ecm = er.ecm ∧
      (guessCardsystemReads cfg loaded er).value.ecmlen = er.ecmlen := by
  unfold guessCardsystemReads
  simp only [Reads.value_bind, guessByTables_section, setShown_ecm, setShown_ecmlen, and_self]

theorem fixIds_section : (fixIds er).ecm = er.ecm ∧ (fixIds er).ecmlen = er.ecmlen ∧
    (fixIds er).caid = er.caid := by
  simp only [fixIds, apply_ite EcmRequest.ecm, apply_ite EcmRequest.ecmlen, apply_ite EcmRequest.caid,
    ite_self, and_self]

theorem fixBeta_section : (fixBeta cfg er).value.ecm = er.ecm ∧
    (fixBeta cfg er).value.ecmlen = er.ecmlen := by
  simp only [value_fixBeta, checkLbAutoBetatunnelMode, apply_ite EcmRequest.ecm,
    apply_ite EcmRequest.ecmlen, ite_self, and_self]

theorem fixNagra_section : (fixNagra er).value.ecm = er.ecm ∧ (fixNagra er).value.ecmlen = er.ecmlen := by
  simp only [value_fixNagra, apply_ite EcmRequest.ecm, apply_ite EcmRequest.ecmlen, ite_self, and_self]

/-- The caids that are remapped have no provider behind the sixth byte. -/
theorem providInside_betatunnel (ecm : ℕ → Byte) (caid : Caid) (hcaid : chkIsBetatunnelCaid caid ≠ 0)
    (hn : 6 < n) : ProvidInside ecm n caid := by
  have hclass : caid >>> 8 = 0x17 ∨ caid >>> 8 = 0x18 := by
    unfold chkIsBetatunnelCaid at hcaid
    split_ifs at hcaid with hbeta hnagra
    · rcases hbeta with rfl | rfl <;> decide
    · rcases hnagra with rfl | rfl | rfl | rfl <;> decide
    · exact absurd rfl hcaid
  unfold ProvidInside
  grind

/-- A caid is only remapped in a long section, from and to a caid of the betatunnel. -/
def Remapped (er : EcmRequest) (caid : Caid) : Prop :=
  0x4A ≤ er.ecmlen ∧ chkIsBetatunnelCaid er.caid ≠ 0 ∧ chkIsBetatunnelCaid caid ≠ 0

theorem checkLbAutoBetatunnelMode_caid (hcaid : chkIsBetatunnelCaid er.caid ≠ 0) :
    chkIsBetatunnelCaid (checkLbAutoBetatunnelMode cfg er).caid ≠ 0 := by
  simp only [checkLbAutoBetatunnelMode]
  split_ifs
  · show chkIsBetatunnelCaid 0x1801 ≠ 0
    decide
  · show chkIsBetatunnelCaid 0x1834 ≠ 0
    decide
  · show chkIsBetatunnelCaid 0x1835 ≠ 0
    decide
  · exact hcaid

theorem fixBeta_caid : (fixBeta cfg er).value.caid = er.caid ∨ Remapped er (fixBeta cfg er).value.caid := by
  rw [value_fixBeta]
  split_ifs with hbeta hcaid
  · right
    refine ⟨by omega, by omega, ?_⟩
    show chkIsBetatunnelCaid 0x1833 ≠ 0
    decide
  · right
    have htunnel : chkIsBetatunnelCaid er.caid ≠ 0 := by omega
    exact ⟨by omega, htunnel, checkLbAutoBetatunnelMode_caid cfg er htunnel⟩
  · left
    rfl

theorem fixNagra_caid : (fixNagra er).value.caid = er.caid ∨ Remapped er (fixNagra er).value.caid := by
  rw [value_fixNagra]
  split_ifs with hnagra hcaid
  · right
    refine ⟨by omega, by omega, ?_⟩
    show chkIsBetatunnelCaid 0x1702 ≠ 0
    decide
  · right
    refine ⟨by omega, by omega, ?_⟩
    show chkIsBetatunnelCaid 0x1722 ≠ 0
    decide
  · left
    rfl

theorem providInside_remapped (ecm : ℕ → Byte) (caid : Caid) (hcaid : caid = er.caid ∨ Remapped er caid)
    (hheader : 0x4A ≤ er.ecmlen → 14 < n) : ProvidInside ecm n caid ↔ ProvidInside ecm n er.caid := by
  rcases hcaid with rfl | ⟨hlong, hold, hnew⟩
  · exact Iff.rfl
  · have hn := hheader hlong
    exact iff_of_true (providInside_betatunnel n ecm caid hnew (by omega))
      (providInside_betatunnel n ecm er.caid hold (by omega))

theorem readsInside_fixBeta (hheader : 0x4A ≤ er.ecmlen → 14 < n) : ReadsInside n (fixBeta cfg er) := by
  have hnagra (hlong : 0x4A ≤ er.ecmlen) := readsInside_nagraHeader er.ecm n 3 (by omega)
  unfold ReadsInside at hnagra ⊢
  simp only [fixBeta, Reads.all_ite, Reads.all_bind, Reads.all_pure, implies_true, and_true]
  exact fun hbeta => hnagra (by omega)

theorem readsInside_fixNagra (hheader : 0x4A ≤ er.ecmlen → 14 < n) : ReadsInside n (fixNagra er) := by
  have hnagra (hlong : 0x4A ≤ er.ecmlen) := readsInside_nagraHeader er.ecm n 13 (by omega)
  unfold ReadsInside at hnagra ⊢
  simp only [fixNagra, Reads.all_ite, Reads.all_bind, Reads.all_pure, implies_true, and_true]
  exact fun hbeta => hnagra (by omega)

theorem readsInside_quickfixReads (hheader : 0x4A ≤ er.ecmlen → 14 < n) :
    ReadsInside n (quickfixReads cfg er) ↔ (er.ecmlen ≠ 0 → SubidInside er.caid n) := by
  have hsubid := readsInside_getSubidReads er n
  have hbeta (er' : EcmRequest) := readsInside_fixBeta cfg er' n
  have hnagra (er' : EcmRequest) := readsInside_fixNagra er' n
  unfold ReadsInside at hsubid hbeta hnagra ⊢
  simp only [quickfixReads, Reads.all_bind, Reads.all_pure, hsubid, and_true]
  constructor
  · intro h
    exact h.1
  · intro h
    refine ⟨h, hbeta _ ?_, hnagra _ ?_⟩
    · rw [(fixIds_section _).2.1]
      exact hheader
    · rw [(fixBeta_section cfg _).2, (fixIds_section _).2.1]
      exact hheader

theorem quickfixReads_provid (hheader : 0x4A ≤ er.ecmlen → 14 < n) (ecm : ℕ → Byte) :
    ProvidInside ecm n (quickfixReads cfg er).value.caid ↔ ProvidInside ecm n er.caid := by
  simp only [quickfixReads, Reads.value_bind, Reads.value_pure, apply_ite EcmRequest.caid, ite_self]
  have hids := fixIds_section { er with chid := (getSubidReads er).value.setWidth 16 }
  generalize fixIds { er with chid := (getSubidReads er).value.setWidth 16 } = er' at hids ⊢
  have hbeta := fixBeta_section cfg er'
  calc
    ProvidInside ecm n (fixNagra (fixBeta cfg er').value).value.caid
      ↔ ProvidInside ecm n (fixBeta cfg er').value.caid :=
        providInside_remapped _ n ecm _ (fixNagra_caid _) (by rw [hbeta.2, hids.2.1]; exact hheader)
    _ ↔ ProvidInside ecm n er'.caid :=
        providInside_remapped _ n ecm _ (fixBeta_caid cfg er') (by rw [hids.2.1]; exact hheader)
    _ ↔ ProvidInside ecm n er.caid := by rw [hids.2.2]

theorem quickfixReads_ecm : (quickfixReads cfg er).value.ecm = er.ecm := by
  simp only [quickfixReads, Reads.value_bind, Reads.value_pure, apply_ite EcmRequest.ecm, ite_self,
    fixNagra_section, fixBeta_section, fixIds_section]

theorem readsInside_fixProviderReads (hn : 3 ≤ n) :
    ReadsInside n (fixProviderReads cfg er) ↔ ProvidInside er.ecm n er.caid := by
  have hprovid := readsInside_chkProvidReads er.ecm n er.caid hn
  unfold ReadsInside at hprovid ⊢
  simp only [fixProviderReads, Reads.all_bind, Reads.all_pure, hprovid, and_true]

theorem readsInside_identifyReads (hn : 3 ≤ n) (hlong : (er.ecm 2).toNat = 0x31 → 0x0b < n)
    (hheader : 0x4A ≤ er.ecmlen → 14 < n) : ReadsInside n (identifyReads cfg loaded er) ↔
      (er.caid = 0 → GuessInside loaded er.ecm n) ∧
        (er.ecmlen ≠ 0 → SubidInside (sectionCaid cfg loaded er) n) ∧
        ProvidInside er.ecm n (sectionCaid cfg loaded er) := by
  have hguess := readsInside_guessCardsystemReads cfg loaded er n
  have hquickfix (er' : EcmRequest) := readsInside_quickfixReads cfg er' n
  have hprovider (er' : EcmRequest) := readsInside_fixProviderReads cfg er' n hn
  unfold ReadsInside at hguess hquickfix hprovider ⊢
  by_cases hcaid : er.caid = 0
  · have hsection := guessCardsystemReads_section cfg loaded er
    have hknown := guessCardsystemReads_caid cfg loaded er hcaid
    simp only [identifyReads, hcaid, if_true, Reads.all_bind, forall_const, hguess hcaid hlong]
    generalize (guessCardsystemReads cfg loaded er).value = er' at hsection hknown
    rw [hquickfix er' (by rw [hsection.2]; exact hheader), hprovider, quickfixReads_ecm,
      quickfixReads_provid cfg er' n (by rw [hsection.2]; exact hheader), hsection.1, hsection.2, hknown]
  · have hknown : sectionCaid cfg loaded er = er.caid := if_pos hcaid
    simp only [identifyReads, hcaid, if_false, Reads.all_bind, Reads.all_pure, Reads.value_pure,
      false_implies, true_and, hquickfix er hheader, hprovider, quickfixReads_ecm,
      quickfixReads_provid cfg er n hheader, hknown]

theorem le_headerBytes : min ((er.ecm 2).toNat + 3) 1024 ≤ headerBytes er := by
  have hlen : (er.ecm 2).toNat + 3 ≤ sctLen er.ecm := by
    unfold sctLen
    omega
  show _ ≤ min (sctLen er.ecm) 1024
  omega

/-- The analysis reads inside of the section and its tables for exactly these headers. -/
theorem headerInside_iff : ReadsInside (headerBytes er) (analyseHeader cfg loaded er) ↔
    HeaderInside cfg loaded er := by
  have hbytes := le_headerBytes er
  have hsize : headerBytes er = min (sctLen er.ecm) 1024 := rfl
  have hn : 3 ≤ headerBytes er := by omega
  have hlong : (er.ecm 2).toNat = 0x31 → 0x0b < headerBytes er := by omega
  have hsct := readsInside_sctLenAt er.ecm (headerBytes er) hn
  by_cases hlen : er.ecmlen > 2
  · have hidentify := readsInside_identifyReads cfg loaded { er with ecmlen := (sctLen er.ecm : ℤ) }
      (headerBytes er) hn hlong
    have hsome : (sctLen er.ecm : ℤ) ≠ 0 := by omega
    have hheader : 0x4A ≤ (sctLen er.ecm : ℤ) → 14 < headerBytes er := by omega
    unfold ReadsInside at hsct hidentify ⊢
    simp only [analyseHeader, hlen, if_true, Reads.all_bind, Reads.all_pure, hsct, true_and]
    have hreceived : er.ecmlen ≠ 0 := by omega
    calc
      _ ↔ _ := hidentify hheader
      _ ↔ HeaderInside cfg loaded er := by
        simp only [HeaderInside, hsome, hreceived, ne_eq, not_false_eq_true, forall_const]
        rfl
  · have hidentify := readsInside_identifyReads cfg loaded er (headerBytes er) hn hlong (by omega)
    unfold ReadsInside at hidentify ⊢
    simp only [analyseHeader, hlen, if_false, Reads.all_bind, Reads.all_pure, Reads.value_pure, true_and,
      hidentify]
    rfl

end Request

/-- Without a caid, a section of 256 bytes indexes the 256 lengths with 256; a viaccess section of four
bytes is valid and read behind its end. -/
theorem header_read_outside :
    (¬ReadsInside 256 (analyseHeader openSetting true (sectionRequest 0 256)) ∧
      headerBytes (sectionRequest 0 256) = 256) ∧
    (¬ReadsInside 4 (analyseHeader openSetting true (sectionRequest 0x500 4)) ∧
      headerBytes (sectionRequest 0x500 4) = 4 ∧
      (checkLength (sectionRequest 0x500 4) E_UNHANDLED).2 = E_UNHANDLED) := by
  have hlength : Place.len4caid 256 ∈
      (analyseHeader openSetting true (sectionRequest 0 256)).places := by decide
  have hnano : Place.ecm 5 ∈
      (analyseHeader openSetting true (sectionRequest 0x500 4)).places := by decide
  refine ⟨⟨fun h => ?_, by decide⟩, ⟨fun h => ?_, by decide, by decide⟩⟩
  · have : 256 < 256 := h _ hlength
    omega
  · have : 5 < 4 := h _ hnano
    omega

end NCam.Ecm
