import NCam.Conf.EcmWhitelist

/-! What a reader's ECM whitelist and header whitelist let pass. -/
namespace NCam.Conf

open NCam.Ecm

section Length

structure LenFlags where
  ok : Bool
  foundident : Bool

def lenLoop (er : EcmRequest) : List EcmWhitelistData → LenFlags → LenFlags
  | [], s => s
  | d :: ds, s =>
    if (d.caid = 0 ∨ d.caid = er.caid) ∧ (d.ident = 0 ∨ d.ident = er.prid) then
      let s := { s with foundident := true }
      if (d.len.toNat : ℤ) = er.ecmlen then { s with ok := true } else lenLoop er ds s
    else lenLoop er ds s

/-- Whether the reader is asked for the length. -/
def chkEcmLength (ewdata : List EcmWhitelistData) (er : EcmRequest) : Bool :=
  if ewdata ≠ [] ∧ er.ecmlen ≠ 0 then
    let s := lenLoop er ewdata ⟨false, false⟩
    !(s.foundident && !s.ok)
  else true

end Length

section Header

/-- The loop over `n` bytes of a header with `byteok` and `entryok`, of which `k` are left. -/
def compareHeader (header : List (BitVec 8)) (ecm : ℕ → BitVec 8) (n : ℕ) :
    ℕ → ℕ → Bool × Bool → Bool × Bool
  | 0, _, s => s
  | k + 1, i, s =>
    if header.getD i 0 = ecm i then
      compareHeader header ecm n k (i + 1) (true, if i = n - 1 then true else s.2)
    else (false, false)

structure HdrFlags where
  byteok : Bool
  entryok : Bool
  foundcaid : Bool
  foundprovid : Bool
  skip : Bool

def hdrLoop (er : EcmRequest) : List EcmHdrWhitelistData → HdrFlags → HdrFlags
  | [], s => s
  | d :: ds, s =>
    let s := { s with skip := false, byteok := false, entryok := false }
    if d.caid = 0 ∨ d.caid = er.caid then
      let s := { s with foundcaid := true }
      if d.provid = 0 ∨ d.provid = er.prid then
        let n := (d.len.toInt.tdiv 2).toNat
        let (byteok, entryok) := compareHeader d.header.toList er.ecm n n 0 (s.byteok, s.entryok)
        let s := { s with foundprovid := true, byteok, entryok }
        if s.entryok then s else hdrLoop er ds s
      else hdrLoop er ds { s with skip := true }
    else hdrLoop er ds { s with skip := true }

/-- Whether the reader is asked for the header. -/
def chkEcmHeader (ehdata : List EcmHdrWhitelistData) (er : EcmRequest) : Bool :=
  if ehdata ≠ [] ∧ er.ecmlen ≠ 0 then
    let s := hdrLoop er ehdata ⟨false, false, false, false, false⟩
    if s.foundcaid && s.foundprovid && s.byteok && s.entryok then true
    else !(!s.skip || (s.foundcaid && s.foundprovid && !s.entryok && s.skip))
  else true

end Header

/-- The entries under this key are for the request. -/
def WhitelistKey.Applies (k : WhitelistKey) (er : EcmRequest) : Prop :=
  (k.caid = 0 ∨ k.caid = er.caid) ∧ (k.ident = 0 ∨ k.ident = er.prid)

instance (k : WhitelistKey) (er : EcmRequest) : Decidable (k.Applies er) :=
  inferInstanceAs (Decidable (_ ∧ _))

/-- The bytes of the ECM. -/
def ecmBytes (er : EcmRequest) : List (BitVec 8) := (List.range er.ecmlen.toNat).map er.ecm

/-- The bytes of the header stand in the buffer of the ECM. -/
def EcmHdrWhitelistData.InBuffer (d : EcmHdrWhitelistData) (er : EcmRequest) : Prop :=
  d.listed.header = (List.range d.listed.header.length).map er.ecm

instance (d : EcmHdrWhitelistData) (er : EcmRequest) : Decidable (d.InBuffer er) :=
  inferInstanceAs (Decidable (_ = _))

/-- An ECM passes if no entry is for it, or one of those that are lists it. -/
structure Whitelisted (ewdata : List EcmWhitelistData) (ehdata : List EcmHdrWhitelistData) (er : EcmRequest) :
    Prop where
  length : chkEcmLength ewdata er = true ↔ (∀ d ∈ ewdata, ¬ d.key.Applies er) ∨
    ∃ d ∈ ewdata, d.key.Applies er ∧ (d.len.toNat : ℤ) = er.ecmlen
  header : chkEcmHeader ehdata er = true ↔ (∀ d ∈ ehdata, ¬ d.key.Applies er) ∨
    ∃ d ∈ ehdata, d.key.Applies er ∧ d.listed.header <+: ecmBytes er

section LengthCheck

variable {er : EcmRequest} {ewdata : List EcmWhitelistData} {s : LenFlags}

/-- An ECM is rejected at the end if an entry is for it and none of these has its length. -/
private theorem lenLoop_iff (hs : s.ok = false) :
    ((lenLoop er ewdata s).foundident && !(lenLoop er ewdata s).ok) = true ↔
      (s.foundident = true ∨ ∃ d ∈ ewdata, d.key.Applies er) ∧
        ∀ d ∈ ewdata, d.key.Applies er → (d.len.toNat : ℤ) ≠ er.ecmlen := by
  induction ewdata generalizing s with
  | nil => simp [lenLoop, hs]
  | cons d ds ih =>
    unfold lenLoop
    rw [List.exists_mem_cons_iff, List.forall_mem_cons]
    by_cases happlies : d.key.Applies er
    · have hkey : (d.caid = 0 ∨ d.caid = er.caid) ∧ (d.ident = 0 ∨ d.ident = er.prid) := happlies
      rw [if_pos hkey]
      dsimp only
      by_cases hlen : (d.len.toNat : ℤ) = er.ecmlen
      · simp [hlen, happlies]
      · rw [if_neg hlen, ih (s := ⟨s.ok, true⟩) hs]
        simp [hlen, happlies]
    · have hkey : ¬ ((d.caid = 0 ∨ d.caid = er.caid) ∧ (d.ident = 0 ∨ d.ident = er.prid)) := happlies
      rw [if_neg hkey, ih hs]
      simp [happlies]

theorem chkEcmLength_iff (hecm : 0 < er.ecmlen) : chkEcmLength ewdata er = true ↔
    (∀ d ∈ ewdata, ¬ d.key.Applies er) ∨ ∃ d ∈ ewdata, d.key.Applies er ∧ (d.len.toNat : ℤ) = er.ecmlen := by
  unfold chkEcmLength
  by_cases hnil : ewdata = []
  · simp [hnil]
  · have hloop := @lenLoop_iff er ewdata ⟨false, false⟩ rfl
    rw [if_pos ⟨hnil, by omega⟩]
    dsimp only
    rw [Bool.not_eq_true', ← Bool.not_eq_true, hloop, not_and_or]
    simp

end LengthCheck

section HeaderCheck

variable {er : EcmRequest} {ehdata : List EcmHdrWhitelistData} {d : EcmHdrWhitelistData} {s : HdrFlags}
  {header : List (BitVec 8)} {ecm : ℕ → BitVec 8} {n k i : ℕ}

/-- Both flags of the inner loop say whether all bytes are the same. -/
theorem compareHeader_eq (hk : 0 < k) (hi : i + k = n) {b : Bool} : compareHeader header ecm n k i (b, false) =
    (decide (∀ j < k, header.getD (i + j) 0 = ecm (i + j)), decide (∀ j < k, header.getD (i + j) 0 = ecm (i + j))) := by
  induction k generalizing i b with
  | zero => exact absurd hk (Nat.lt_irrefl 0)
  | succ k ih =>
    unfold compareHeader
    have hsplit : (∀ j < k + 1, header.getD (i + j) 0 = ecm (i + j)) ↔
        header.getD i 0 = ecm i ∧ ∀ j < k, header.getD (i + 1 + j) 0 = ecm (i + 1 + j) := by
      rw [Nat.forall_lt_succ_left]
      simp [Nat.add_comm, Nat.add_left_comm]
    simp only [hsplit]
    by_cases hsame : header.getD i 0 = ecm i
    · rw [if_pos hsame]
      rcases Nat.eq_zero_or_pos k with hzero | hpos
      · have hlast : i = n - 1 := by omega
        subst hzero
        rw [if_pos hlast, compareHeader]
        simp only [hsame, true_and]
        simp
      · have hbefore : ¬ i = n - 1 := by omega
        rw [if_neg hbefore, ih hpos (by omega)]
        simp only [hsame, true_and]
    · rw [if_neg hsame]
      simp only [hsame, false_and, decide_false]

private theorem length_listed (h : d.Kept) : d.listed.header.length = d.len.toNat / 2 := by
  have hlen : d.header.toList.length = 20 := Vector.length_toList
  have h41 := h.2.2
  show (d.header.toList.take (d.len.toNat / 2)).length = _
  rw [List.length_take, hlen]
  omega

theorem inBuffer_iff : d.InBuffer er ↔
    ∀ j < d.listed.header.length, d.listed.header.getD j 0 = er.ecm j := by
  unfold EcmHdrWhitelistData.InBuffer
  constructor
  · intro h j hj
    rw [h, List.getD_eq_getElem _ _ (by simpa using hj)]
    simp
  · intro h
    apply List.ext_getElem (by simp)
    intro j hj _
    have hbyte := h j hj
    rw [List.getD_eq_getElem _ _ hj] at hbyte
    simpa using hbyte

/-- The comparison for an entry that is for the ECM. -/
theorem compareHeader_kept (h : d.Kept) : compareHeader d.header.toList er.ecm (d.len.toInt.tdiv 2).toNat
    (d.len.toInt.tdiv 2).toNat 0 (false, false) = (decide (d.InBuffer er), decide (d.InBuffer er)) := by
  have hlong := h.2.1
  have h41 := h.2.2
  have hint : d.len.toInt = d.len.toNat := by
    rw [BitVec.toInt_eq_toNat_cond, if_pos (by omega)]
  have hn : (d.len.toInt.tdiv 2).toNat = d.len.toNat / 2 := by
    rw [hint]
    rfl
  have hlisted := length_listed h
  have hbytes : d.InBuffer er ↔ ∀ j < d.len.toNat / 2, d.header.toList.getD (0 + j) 0 = er.ecm (0 + j) := by
    rw [inBuffer_iff, hlisted]
    apply forall_congr'
    intro j
    apply imp_congr_right
    intro hj
    have htake : d.listed.header.getD j 0 = d.header.toList.getD j 0 := by
      show (d.header.toList.take (d.len.toNat / 2)).getD j 0 = _
      rw [List.getD_eq_getElem?_getD, List.getElem?_take_of_lt hj, List.getD_eq_getElem?_getD]
    rw [htake, Nat.zero_add]
  rw [hn, compareHeader_eq (by omega) (by omega)]
  simp only [hbytes]

/-- The walk ends at a header that stands in the buffer. -/
private theorem hdrLoop_found (hkept : ∀ d ∈ ehdata, d.Kept) (hd : ∃ d ∈ ehdata, d.key.Applies er ∧ d.InBuffer er) :
    (hdrLoop er ehdata s).foundcaid = true ∧ (hdrLoop er ehdata s).foundprovid = true ∧
      (hdrLoop er ehdata s).byteok = true ∧ (hdrLoop er ehdata s).entryok = true := by
  induction ehdata generalizing s with
  | nil => simp at hd
  | cons d ds ih =>
    rw [List.forall_mem_cons] at hkept
    rw [List.exists_mem_cons_iff] at hd
    unfold hdrLoop
    dsimp only
    rw [compareHeader_kept hkept.1]
    by_cases hcaid : d.caid = 0 ∨ d.caid = er.caid
    · rw [if_pos hcaid]
      by_cases hprovid : d.provid = 0 ∨ d.provid = er.prid
      · rw [if_pos hprovid]
        by_cases hbuffer : d.InBuffer er
        · simp [hbuffer]
        · simp only [hbuffer, decide_false, Bool.false_eq_true, if_false]
          exact ih hkept.2 (hd.resolve_left fun h => hbuffer h.2)
      · rw [if_neg hprovid]
        exact ih hkept.2 (hd.resolve_left fun h => hprovid h.1.2)
    · rw [if_neg hcaid]
      exact ih hkept.2 (hd.resolve_left fun h => hcaid h.1.1)

/-- What the walk finds if no header stands in the buffer. -/
private theorem hdrLoop_missing (hkept : ∀ d ∈ ehdata, d.Kept)
    (hd : ∀ d ∈ ehdata, d.key.Applies er → ¬ d.InBuffer er) (hs : s.entryok = false)
    (hcaid : s.foundprovid = true → s.foundcaid = true) (hskip : s.skip = false → ehdata = [] → s.foundprovid = true) :
    (hdrLoop er ehdata s).entryok = false ∧
      ((hdrLoop er ehdata s).foundprovid = true ↔ s.foundprovid = true ∨ ∃ d ∈ ehdata, d.key.Applies er) ∧
        ((hdrLoop er ehdata s).foundprovid = true → (hdrLoop er ehdata s).foundcaid = true) ∧
          ((hdrLoop er ehdata s).skip = false → (hdrLoop er ehdata s).foundprovid = true) := by
  induction ehdata generalizing s with
  | nil =>
    refine ⟨hs, by simp [hdrLoop], hcaid, fun h => hskip h rfl⟩
  | cons d ds ih =>
    rw [List.forall_mem_cons] at hkept hd
    rw [List.exists_mem_cons_iff]
    unfold hdrLoop
    dsimp only
    rw [compareHeader_kept hkept.1]
    by_cases hc : d.caid = 0 ∨ d.caid = er.caid
    · rw [if_pos hc]
      by_cases hp : d.provid = 0 ∨ d.provid = er.prid
      · have happlies : d.key.Applies er := ⟨hc, hp⟩
        rw [if_pos hp]
        simp only [hd.1 happlies, decide_false, Bool.false_eq_true, if_false]
        obtain ⟨hentry, hprov, hrest⟩ := ih (s := ⟨false, false, true, true, false⟩) hkept.2 hd.2 rfl (fun _ => rfl)
          (fun _ _ => rfl)
        refine ⟨hentry, ?_, hrest⟩
        rw [hprov]
        simp [happlies]
      · have happlies : ¬ d.key.Applies er := fun h => hp h.2
        rw [if_neg hp]
        obtain ⟨hentry, hprov, hrest⟩ := ih (s := ⟨false, false, true, s.foundprovid, true⟩) hkept.2 hd.2 rfl
          (fun _ => rfl) (fun h _ => Bool.noConfusion h)
        refine ⟨hentry, ?_, hrest⟩
        rw [hprov]
        simp [happlies]
    · have happlies : ¬ d.key.Applies er := fun h => hc h.1
      rw [if_neg hc]
      obtain ⟨hentry, hprov, hrest⟩ := ih (s := ⟨false, false, s.foundcaid, s.foundprovid, true⟩) hkept.2 hd.2 rfl
        hcaid (fun h _ => Bool.noConfusion h)
      refine ⟨hentry, ?_, hrest⟩
      rw [hprov]
      simp [happlies]

/-- The headers are compared with the buffer of the ECM. -/
theorem chkEcmHeader_iff (hecm : 0 < er.ecmlen) (hkept : ∀ d ∈ ehdata, d.Kept) : chkEcmHeader ehdata er = true ↔
    (∀ d ∈ ehdata, ¬ d.key.Applies er) ∨ ∃ d ∈ ehdata, d.key.Applies er ∧ d.InBuffer er := by
  unfold chkEcmHeader
  by_cases hnil : ehdata = []
  · simp [hnil]
  rw [if_pos ⟨hnil, by omega⟩]
  dsimp only
  by_cases hfound : ∃ d ∈ ehdata, d.key.Applies er ∧ d.InBuffer er
  · obtain ⟨hc, hp, hb, he⟩ := @hdrLoop_found er ehdata ⟨false, false, false, false, false⟩ hkept hfound
    simp [hc, hp, hb, he, hfound]
  · have hnone : ∀ d ∈ ehdata, d.key.Applies er → ¬ d.InBuffer er := by
      intro d hd happlies hbuffer
      exact hfound ⟨d, hd, happlies, hbuffer⟩
    obtain ⟨hentry, hprov, hcaid, hskip⟩ := hdrLoop_missing (s := ⟨false, false, false, false, false⟩) hkept hnone rfl
      (fun h => h) (fun _ h => absurd h hnil)
    have hprov' : (hdrLoop er ehdata ⟨false, false, false, false, false⟩).foundprovid = true ↔
        ∃ d ∈ ehdata, d.key.Applies er := by simpa using hprov
    rw [or_iff_left hfound, hentry]
    cases hp : (hdrLoop er ehdata ⟨false, false, false, false, false⟩).foundprovid with
    | true =>
      rw [hcaid hp]
      have hany := hprov'.mp hp
      simp
      exact hany
    | false =>
      have hskipped : (hdrLoop er ehdata ⟨false, false, false, false, false⟩).skip = true := by
        by_contra hno
        rw [hskip (by simpa using hno)] at hp
        cases hp
      have hnot : ¬ ∃ d ∈ ehdata, d.key.Applies er := fun h => by
        rw [hprov'.mpr h] at hp
        cases hp
      simp [hskipped]
      intro d hd happlies
      exact hnot ⟨d, hd, happlies⟩

/-- A header is a prefix of the ECM if it is not longer. -/
theorem isPrefix_iff : d.listed.header <+: ecmBytes er ↔
    d.InBuffer er ∧ d.listed.header.length ≤ er.ecmlen.toNat := by
  unfold EcmHdrWhitelistData.InBuffer ecmBytes
  rw [List.prefix_iff_eq_take, ← List.map_take, List.take_range]
  constructor
  · intro h
    have hlen := congrArg List.length h
    rw [List.length_map, List.length_range] at hlen
    rw [← hlen] at h
    exact ⟨h, by omega⟩
  · rintro ⟨h, hle⟩
    rw [Nat.min_eq_left hle]
    exact h

/-- The lengths are checked as listed, and the headers are too if none of them that is longer than the ECM
goes on with what the buffer holds behind it. -/
theorem whitelisted_iff (ewdata : List EcmWhitelistData) (value : List Char) (er : EcmRequest)
    (hecm : 0 < er.ecmlen) : Whitelisted ewdata (chkEcmHdrWhitelist value) er ↔
      ∀ d ∈ chkEcmHdrWhitelist value, d.key.Applies er → er.ecmlen < d.listed.header.length → d.InBuffer er →
        ∃ d ∈ chkEcmHdrWhitelist value, d.key.Applies er ∧ d.listed.header <+: ecmBytes er := by
  have hkept : ∀ d ∈ chkEcmHdrWhitelist value, d.Kept := chkEcmHdrWhitelist_kept
  have hheader := chkEcmHeader_iff hecm hkept
  constructor
  · intro h d hd happlies _ hbuffer
    have hspec := h.header.mp (hheader.mpr (Or.inr ⟨d, hd, happlies, hbuffer⟩))
    exact hspec.resolve_left fun hnone => hnone d hd happlies
  · intro h
    refine ⟨chkEcmLength_iff hecm, hheader.trans (or_congr_right ⟨?_, ?_⟩)⟩
    · rintro ⟨d, hd, happlies, hbuffer⟩
      by_cases hlong : er.ecmlen < d.listed.header.length
      · exact h d hd happlies hlong hbuffer
      · exact ⟨d, hd, happlies, isPrefix_iff.mpr ⟨hbuffer, by omega⟩⟩
    · rintro ⟨d, hd, happlies, hprefix⟩
      exact ⟨d, hd, happlies, (isPrefix_iff.mp hprefix).1⟩

end HeaderCheck

/-- An ECM of the table 0x80 with one byte behind its header. -/
private def shortEcm : EcmRequest :=
  ⟨fun i => ([0x80, 0x70, 0x01, 0x05] : List (BitVec 8)).getD i 0, 4, 0x0500, 0, 0, 0, 0, 0x023800, 0⟩

theorem whitelisted_short : 0 < shortEcm.ecmlen ∧
    Whitelisted [] (chkEcmHdrWhitelist ['0', '5', '0', '0', ':', '8', '0', '7', '0']) shortEcm := by
  refine ⟨by decide, (whitelisted_iff [] _ shortEcm (by decide)).mpr ?_⟩
  decide

/-- A header of five bytes lets an ECM of four bytes pass. -/
theorem not_whitelisted_longer :
    ¬ Whitelisted [] (chkEcmHdrWhitelist ['8', '0', '7', '0', '0', '1', '0', '5', '0', '0']) shortEcm := by
  intro h
  have hpass : chkEcmHeader (chkEcmHdrWhitelist ['8', '0', '7', '0', '0', '1', '0', '5', '0', '0']) shortEcm = true := by
    decide
  have hspec := h.header.mp hpass
  revert hspec
  decide

end NCam.Conf
