import NCam.Capmt.Reads

/-! The inputs on which the parser stays inside the message and its arrays. -/
namespace NCam.Capmt

open NCam.Util

/-- The bytes of a descriptor of a stream that are read. -/
def esNeed (b : ℕ → Byte) (o : ℕ) (tag : Byte) (len : ℕ) : ℕ :=
  if tag = 0x09 then caNeed b o len else if tag = 0x05 then 4 else if tag = 0x7F then 1 else 0

/-- The bytes of a descriptor of the program info that are read. -/
def programNeed (b : ℕ → Byte) (o : ℕ) (tag : Byte) (len : ℕ) : ℕ := if tag = 0x09 then caNeed b o len else 0

def esInfoLength (b : ℕ → Byte) (o : ℕ) : ℕ := (Util.b2i 2 b (o + 3) &&& 0x0FFF).toNat

/-- Where the streams stand that the loop comes to, 32 at most. -/
def esHeaders (b : ℕ → Byte) (base length : ℕ) : ℕ → ℕ → List ℕ
  | 0, _ => []
  | room + 1, i =>
    if i + 4 < length then
      (base + i) :: esHeaders b base length room ((i + 5 + esInfoLength b (base + i)) % 65536)
    else []

/-- The byte of the command is skipped. -/
def esOffset (ctx : Context) (capmt : Bool) (cmd : Byte) : ℕ :=
  if capmt ∧ (ctx.boxtype = .dreambox ∨ cmd.toNat ≤ 1) then 1 else 0

variable (m : Input) (ctx : Context)

/-- The header of a stream may be read, and if its info is parsed, the byte of the command and the descriptors
that the loop comes to. -/
def esInside (capmt : Bool) (length o : ℕ) : Bool :=
  m.all o 5 &&
    if esInfoLength m.byte o ≠ 0 ∧ esInfoLength m.byte o < length then
      m.all (o + 5) (if capmt then 1 else 0) &&
        (headers m.byte (o + 5 + esOffset ctx capmt (m.byte (o + 5))) (esInfoLength m.byte o) 0).all fun o =>
          m.all o (2 + esNeed m.byte (o + 2) (m.byte o) (m.byte (o + 1)).toNat)
    else true

/-- A stream that gives the video pid. -/
def givesVideo (b : ℕ → Byte) (o : ℕ) : Bool :=
  videoStream (b o) && (Util.b2i 2 b (o + 1)).setWidth 16 &&& 0x1FFF ≠ 0

/-- A PMT, or what a CA PMT has of it: all of it that the parser comes to may be read, and there is room for
the PCR pid if it is needed. -/
structure PmtInside (capmt : Bool) (o length : ℕ) (pcrPid : BitVec 16) (pil : ℕ) (streams : List ℕ) : Prop where
  header : m.all o 2 = true
  command : capmt = true → pil ≠ 0 ∧ pil < length → m.all (o + 2) 1 = true
  program : pil ≠ 0 ∧ pil < length → ∀ i ∈ headers m.byte (o + 2) pil (if capmt then 1 else 0),
    m.all i (2 + programNeed m.byte (i + 2) (m.byte i) (m.byte (i + 1)).toNat) = true
  es : ∀ i ∈ streams, esInside m ctx capmt ((length + 65536 - 2 - pil) % 65536) i = true
  pcr : ¬ (streams.length = MAX_STREAM_PIDS ∧ (∀ i ∈ streams, givesVideo m.byte i = false) ∧ pcrPid ≠ 0x1FFF)

variable {m ctx} {d d' : Program} {o : ℕ}

theorem descriptorType_isSome (o : ℕ) (tag : Byte) (type : StreamType) :
    (descriptorType m o tag type).isSome = m.all o (if tag = 0x05 then 4 else if tag = 0x7F then 1 else 0) := by
  unfold descriptorType
  by_cases hreg : tag = 0x05
  · rw [if_pos hreg, if_pos hreg]
    simp [bind_slice]
  rw [if_neg hreg, if_neg hreg]
  by_cases hext : tag = 0x7F
  · subst hext
    simp [bind_get]
  rw [if_neg hext, if_neg hext]
  split_ifs <;> rfl

theorem programInfo_isSome (h : m.Prefix) (capmt : Bool) (o length : ℕ) (d : Program) :
    (dvbapiParsePmtProgramInfo m ctx capmt o length d).isSome =
      (m.all o (if capmt then 1 else 0) && (headers m.byte o length (if capmt then 1 else 0)).all fun i =>
        m.all i (2 + programNeed m.byte (i + 2) (m.byte i) (m.byte (i + 1)).toNat)) := by
  have hvisit : ∀ (o : ℕ) (tag : Byte) (len : ℕ) (d : Program),
      (if tag = 0x09 then dvbapiParsePmtCaDescriptor m ctx o len d else some d).isSome =
        m.all o (programNeed m.byte o tag len) := by
    intro o tag len d
    unfold programNeed
    split_ifs
    · exact caDescriptor_isSome h o len d
    · rfl
  unfold dvbapiParsePmtProgramInfo
  cases capmt with
  | false => exact walk_isSome h hvisit o length 0 d
  | true =>
    simp only [if_true, Option.bind_eq_bind]
    rw [all_one]
    unfold Input.get
    cases m.inside o with
    | false => rfl
    | true => exact walk_isSome h hvisit o length 1 _

theorem descriptors_isSome (h : m.Prefix) (o length : ℕ) (x : Program × StreamType) :
    (dvbapiParsePmtDescriptors m ctx o length x).isSome = (headers m.byte o length 0).all fun i =>
      m.all i (2 + esNeed m.byte (i + 2) (m.byte i) (m.byte (i + 1)).toNat) := by
  refine walk_isSome h (fun o tag len x => ?_) o length 0 x
  unfold esNeed
  split_ifs with hca hreg hext
  · rw [Option.isSome_map, caDescriptor_isSome h]
  · rw [Option.isSome_map, descriptorType_isSome, if_pos hreg]
  · rw [Option.isSome_map, descriptorType_isSome, if_neg hreg, if_pos hext]
  · rw [Option.isSome_map, descriptorType_isSome, if_neg hreg, if_neg hext]

theorem esDescriptors_isSome (h : m.Prefix) (capmt : Bool) (length o : ℕ) (d : Program) :
    (m.all o 5 && (esDescriptors m ctx capmt (o + 5) length (esInfoLength m.byte o) d).isSome) =
      esInside m ctx capmt length o := by
  unfold esInside esDescriptors
  congr 1
  by_cases hinfo : esInfoLength m.byte o ≠ 0 ∧ esInfoLength m.byte o < length
  · rw [if_pos hinfo, if_pos hinfo]
    cases capmt with
    | false => exact descriptors_isSome h _ _ _
    | true =>
      simp only [if_true, Option.bind_eq_bind, bind_get, descriptors_isSome h, esOffset, true_and]
  · rw [if_neg hinfo, if_neg hinfo]
    rfl

/-- What the loop over the streams does with those that it comes to. -/
structure EsDone (b : ℕ → Byte) (l : List ℕ) (d d' : Program) : Prop extends Kept d d' where
  streams : d'.streams.length = d.streams.length + l.length
  videoPid : d'.videoPid = 0 ↔ d.videoPid = 0 ∧ ∀ i ∈ l, givesVideo b i = false

/-- One stream behind its header. -/
theorem esDone_step {b : ℕ → Byte} {d₁ d₂ : Program} {pid : BitVec 16} {type : StreamType}
    (hgrows : Grows d d₁) (hpid : pid = (Util.b2i 2 b (o + 1)).setWidth 16 &&& 0x1FFF)
    (hpush : (if videoStream (b o) = true ∧ d₁.videoPid = 0 then { d₁ with videoPid := pid } else d₁).push pid
      type = some d₂) : EsDone b [o] d d₂ := by
  unfold Program.push at hpush
  obtain ⟨-, hpush⟩ := Option.ite_none_right_eq_some.mp hpush
  obtain rfl := Option.some.inj hpush
  have hvideo : givesVideo b o = (videoStream (b o) && decide (pid ≠ 0)) := by
    unfold givesVideo
    rw [hpid]
  by_cases hset : videoStream (b o) = true ∧ d₁.videoPid = 0
  · rw [if_pos hset]
    refine ⟨hgrows.toKept.trans (Kept.of_eq rfl), ?_, ?_⟩
    · simp [hgrows.streams]
    · have hold : d.videoPid = 0 := hgrows.videoPid.symm.trans hset.2
      simp [hvideo, hset.1, hold]
  · rw [if_neg hset]
    refine ⟨hgrows.toKept.trans (Kept.of_eq rfl), ?_, ?_⟩
    · simp [hgrows.streams]
    · have hold : d₁.videoPid = d.videoPid := hgrows.videoPid
      change d₁.videoPid = 0 ↔ _
      rw [hold] at hset ⊢
      simp only [List.mem_singleton, forall_eq]
      constructor
      · intro hzero
        have hno : videoStream (b o) = false := eq_false_of_ne_true fun hv => hset ⟨hv, hzero⟩
        rw [hvideo, hno]
        exact ⟨hzero, rfl⟩
      · exact And.left

theorem EsDone.trans {b : ℕ → Byte} {l l' : List ℕ} {d'' : Program} (h : EsDone b l d d')
    (h' : EsDone b l' d' d'') : EsDone b (l ++ l') d d'' := by
  refine ⟨h.toKept.trans h'.toKept, ?_, ?_⟩
  · rw [h'.streams, h.streams, List.length_append, Nat.add_assoc]
  · rw [h'.videoPid, h.videoPid, List.forall_mem_append, and_assoc]

theorem get_eq_some {x : Byte} (h : m.get o = some x) : x = m.byte o :=
  (Option.some.inj (Option.ite_none_right_eq_some.mp h).2).symm

theorem b2i_eq_some {k : ℕ} {x : BitVec 32} (h : m.b2i k o = some x) : x = Util.b2i k m.byte o :=
  (Option.some.inj (Option.ite_none_right_eq_some.mp h).2).symm

theorem esLoop_done {capmt : Bool} {base length room i : ℕ}
    (h : esLoop m ctx capmt base length room i d = some d') :
    EsDone m.byte (esHeaders m.byte base length room i) d d' := by
  induction room generalizing i d with
  | zero =>
    obtain rfl := Option.some.inj h
    exact ⟨Kept.of_eq rfl, rfl, by simp [esHeaders]⟩
  | succ room ih =>
    unfold esLoop at h
    unfold esHeaders
    by_cases hi : i + 4 < length
    · rw [if_pos hi] at h ⊢
      obtain ⟨streamType, htype, h⟩ := Option.bind_eq_some_iff.mp h
      obtain ⟨pid, hpid, h⟩ := Option.bind_eq_some_iff.mp h
      obtain ⟨info, hinfo, h⟩ := Option.bind_eq_some_iff.mp h
      obtain ⟨⟨d₁, type⟩, hd₁, h⟩ := Option.bind_eq_some_iff.mp h
      obtain ⟨d₂, hd₂, h⟩ := Option.bind_eq_some_iff.mp h
      rw [get_eq_some htype] at hd₂
      rw [b2i_eq_some hpid] at hd₂
      rw [b2i_eq_some hinfo] at h
      exact (esDone_step (grows_esDescriptors hd₁) rfl hd₂).trans (ih h)
    · rw [if_neg hi] at h ⊢
      obtain rfl := Option.some.inj h
      exact ⟨Kept.of_eq rfl, rfl, by simp⟩

/-- The loop over the streams has room for those that it comes to. -/
theorem esLoop_isSome (h : m.Prefix) (capmt : Bool) (base length : ℕ) {room : ℕ} (i : ℕ) (d : Program)
    (hroom : d.streams.length + room ≤ MAX_STREAM_PIDS) :
    (esLoop m ctx capmt base length room i d).isSome =
      (esHeaders m.byte base length room i).all (esInside m ctx capmt length) := by
  induction room generalizing i d with
  | zero => rfl
  | succ room ih =>
    unfold esLoop esHeaders
    by_cases hi : i + 4 < length
    · have hone : m.all (base + i + 1) 2 = m.all (base + i) 3 := h.all_add (base + i) 1 1
      have hthree : m.all (base + i + 3) 2 = m.all (base + i) 5 := h.all_add (base + i) 3 1
      have hheader : (m.all (base + i) 1 && (m.all (base + i) 3 && m.all (base + i) 5)) =
          m.all (base + i) 5 := by
        rw [all_and, all_and]
        rfl
      rw [if_pos hi, if_pos hi, List.all_cons, ← esDescriptors_isSome h capmt length (base + i) d, ← hheader]
      simp only [Option.bind_eq_bind, bind_get, bind_b2i, hone, hthree, Bool.and_assoc]
      congr 3
      change Option.isSome (Option.bind (esDescriptors m ctx capmt (base + i + 5) length
        (esInfoLength m.byte (base + i)) d) _) = _
      cases hd₁ : esDescriptors m ctx capmt (base + i + 5) length (esInfoLength m.byte (base + i)) d with
      | none => rfl
      | some x =>
        have hstreams := (grows_esDescriptors hd₁).streams
        rw [Option.bind_some, Option.isSome_some, Bool.true_and]
        generalize hd₂ : (if videoStream (m.byte (base + i)) = true ∧ x.1.videoPid = 0 then
          { x.1 with videoPid := (Util.b2i 2 m.byte (base + i + 1)).setWidth 16 &&& 0x1FFF } else x.1) = d₂
        have hlength : d₂.streams.length = d.streams.length := by
          rw [← hd₂, ← hstreams]
          split_ifs <;> rfl
        have hpush : d₂.push ((Util.b2i 2 m.byte (base + i + 1)).setWidth 16 &&& 0x1FFF)
            (basicType (m.byte (base + i)) x.2) = some { d₂ with streams := d₂.streams ++
              [((Util.b2i 2 m.byte (base + i + 1)).setWidth 16 &&& 0x1FFF,
                basicType (m.byte (base + i)) x.2)] } := if_pos (by omega)
        rw [hpush, Option.bind_some]
        refine ih _ _ ?_
        change (d₂.streams ++ _).length + room ≤ _
        rw [List.length_append, List.length_singleton]
        omega
    · rw [if_neg hi, if_neg hi]
      rfl

/-- The streams behind the loop: the PCR pid may find no room. -/
theorem fallback_isSome (hlength : d.streams.length ≤ MAX_STREAM_PIDS) (pcrPid : BitVec 16) :
    (d.fallback ctx pcrPid).isSome = true ↔
      ¬ (d.streams.length = MAX_STREAM_PIDS ∧ d.videoPid = 0 ∧ pcrPid ≠ 0x1FFF) := by
  unfold Program.fallback
  by_cases hnone : d.streams = []
  · have hempty : d.streams.length = 0 := by rw [hnone]; rfl
    have hfirst : d.push ctx.pmtpid .video = some { d with streams := d.streams ++ [(ctx.pmtpid, .video)] } :=
      if_pos (by rw [hempty]; exact Nat.zero_lt_succ _)
    refine iff_of_true ?_ fun hfull => ?_
    · rw [if_pos hnone, hfirst]
      simp only [Option.map_some, Option.bind_eq_bind, Option.bind_some]
      split_ifs
      · rw [Option.isSome_map, hnone]
        rfl
      · rfl
    · rw [hempty] at hfull
      exact absurd hfull.1 (by decide)
  · rw [if_neg hnone]
    simp only [Option.bind_eq_bind, Option.bind_some]
    by_cases hpcr : d.videoPid = 0 ∧ pcrPid ≠ 0x1FFF
    · rw [if_pos hpcr, Option.isSome_map]
      unfold Program.push
      by_cases hroom : d.streams.length < MAX_STREAM_PIDS
      · rw [if_pos hroom]
        exact iff_of_true rfl fun hfull => by omega
      · rw [if_neg hroom]
        exact iff_of_false Bool.false_ne_true (not_not.mpr ⟨by omega, hpcr⟩)
    · rw [if_neg hpcr]
      exact iff_of_true rfl fun hfull => hpcr hfull.2

/-- The streams that the loop of a PMT of `length` bytes comes to. -/
def pmtStreams (b : ℕ → Byte) (o length pil : ℕ) : List ℕ :=
  esHeaders b (o + 2 + pil) ((length + 65536 - 2 - pil) % 65536) MAX_STREAM_PIDS 0

theorem length_esHeaders_le (b : ℕ → Byte) (base length room i : ℕ) :
    (esHeaders b base length room i).length ≤ room := by
  induction room generalizing i with
  | zero => exact Nat.le_refl 0
  | succ room ih =>
    unfold esHeaders
    split_ifs
    · exact Nat.succ_le_succ (ih _)
    · exact Nat.zero_le _

/-- The program info, or nothing if its length is zero or too large. -/
theorem programInfo_inside (h : m.Prefix) {capmt : Bool} {length pil : ℕ} :
    (if pil ≠ 0 ∧ pil < length then dvbapiParsePmtProgramInfo m ctx capmt (o + 2) pil d
      else some d).isSome = true ↔
      (capmt = true → pil ≠ 0 ∧ pil < length → m.all (o + 2) 1 = true) ∧
        (pil ≠ 0 ∧ pil < length → ∀ i ∈ headers m.byte (o + 2) pil (if capmt then 1 else 0),
          m.all i (2 + programNeed m.byte (i + 2) (m.byte i) (m.byte (i + 1)).toNat) = true) := by
  by_cases hinfo : pil ≠ 0 ∧ pil < length
  · rw [if_pos hinfo, programInfo_isSome h, Bool.and_eq_true_iff, List.all_eq_true]
    cases capmt with
    | false => simp [hinfo]
    | true => simp [hinfo]
  · rw [if_neg hinfo]
    exact iff_of_true rfl ⟨fun _ hyes => absurd hyes hinfo, fun hyes => absurd hyes hinfo⟩

theorem grows_info {capmt : Bool} {length pil : ℕ}
    (h : (if pil ≠ 0 ∧ pil < length then dvbapiParsePmtProgramInfo m ctx capmt (o + 2) pil d
      else some d) = some d') : Grows d d' := by
  split_ifs at h
  · exact grows_programInfo h
  · obtain rfl := Option.some.inj h
    exact Grows.refl d

/-- The parser with `pil` as the length of the program info, from the loop over the streams on. -/
def afterInfo (m : Input) (ctx : Context) (capmt : Bool) (o length pil : ℕ) (pcrPid : BitVec 16) (d : Program) :
    Option Program :=
  (esLoop m ctx capmt (o + 2 + pil) ((length + 65536 - 2 - pil) % 65536) MAX_STREAM_PIDS 0 d).bind fun d =>
    (Program.fallback ctx { d with caPmtCmdId := commandOf d.caPmtCmdId } pcrPid).map fun d =>
      { d with ecmpids := d.ecmpids.map fun e => { e with vpid := d.videoPid } }

theorem dvbapiParsePmtInfo_eq (capmt : Bool) (o length : ℕ) (pcrPid : BitVec 16) :
    dvbapiParsePmtInfo m ctx capmt o length pcrPid = (m.b2i 2 o).bind fun w =>
      let pil := (w &&& 0x0FFF).toNat
      (if pil ≠ 0 ∧ pil < length then dvbapiParsePmtProgramInfo m ctx capmt (o + 2) pil ⟨[], [], 0, none⟩
        else some ⟨[], [], 0, none⟩).bind (afterInfo m ctx capmt o length pil pcrPid) := by
  have hmap : ∀ (x : Option Program) (f : Program → Program), x.map f = x.bind fun d => some (f d) :=
    fun x f => Option.map_eq_bind
  unfold dvbapiParsePmtInfo afterInfo
  simp only [Option.bind_eq_bind, hmap]
  congr 1
  funext w
  split_ifs <;> rfl

theorem afterInfo_isSome (h : m.Prefix) (capmt : Bool) (o length pil : ℕ) (pcrPid : BitVec 16)
    (hstreams : d.streams = []) (hvideo : d.videoPid = 0) :
    (afterInfo m ctx capmt o length pil pcrPid d).isSome = true ↔
      (∀ i ∈ pmtStreams m.byte o length pil,
        esInside m ctx capmt ((length + 65536 - 2 - pil) % 65536) i = true) ∧
      ¬ ((pmtStreams m.byte o length pil).length = MAX_STREAM_PIDS ∧
        (∀ i ∈ pmtStreams m.byte o length pil, givesVideo m.byte i = false) ∧ pcrPid ≠ 0x1FFF) := by
  have hloop := @esLoop_isSome m ctx h capmt (o + 2 + pil) ((length + 65536 - 2 - pil) % 65536)
    MAX_STREAM_PIDS 0 d (by rw [hstreams]; exact Nat.le_refl _)
  have hle := length_esHeaders_le m.byte (o + 2 + pil) ((length + 65536 - 2 - pil) % 65536) MAX_STREAM_PIDS 0
  unfold afterInfo pmtStreams
  rw [← List.all_eq_true, ← hloop]
  cases hd : esLoop m ctx capmt (o + 2 + pil) ((length + 65536 - 2 - pil) % 65536) MAX_STREAM_PIDS 0 d with
  | none => exact iff_of_false Bool.false_ne_true fun hno => Bool.false_ne_true hno.1
  | some d₁ =>
    have hdone := esLoop_done hd
    have hlength : d₁.streams.length = (esHeaders m.byte (o + 2 + pil)
        ((length + 65536 - 2 - pil) % 65536) MAX_STREAM_PIDS 0).length := by
      rw [hdone.streams, hstreams, List.length_nil, Nat.zero_add]
    have hpcr := @fallback_isSome ctx { d₁ with caPmtCmdId := commandOf d₁.caPmtCmdId }
      (by rw [← hlength] at hle; exact hle) pcrPid
    rw [Option.bind_some, Option.isSome_map, hpcr, Option.isSome_some]
    dsimp only
    rw [hlength, hdone.videoPid, hvideo]
    simp

theorem kept_fallback {pcrPid : BitVec 16} (h : d.fallback ctx pcrPid = some d') : Kept d d' := by
  have hpush : ∀ {d d' : Program} {pid : BitVec 16},
      (d.push pid .video).map (fun d => { d with videoPid := pid }) = some d' → Kept d d' := by
    intro d d' pid h
    obtain ⟨d₁, hd₁, rfl⟩ := Option.map_eq_some_iff.mp h
    obtain rfl := Option.some.inj (Option.ite_none_right_eq_some.mp hd₁).2
    exact Kept.of_eq rfl
  have hpcr : ∀ {d : Program}, (if d.videoPid = 0 ∧ pcrPid ≠ 0x1FFF then
      (d.push pcrPid .video).map fun d => { d with videoPid := pcrPid } else some d) = some d' → Kept d d' := by
    intro d h
    split_ifs at h
    · exact hpush h
    · obtain rfl := Option.some.inj h
      exact Kept.of_eq rfl
  unfold Program.fallback at h
  split_ifs at h
  · obtain ⟨d₁, hd₁, h⟩ := Option.bind_eq_some_iff.mp h
    exact (hpush hd₁).trans (hpcr h)
  · exact hpcr h

/-- What the program info has found of ECM pids stays. -/
theorem afterInfo_kept {capmt : Bool} {length pil : ℕ} {pcrPid : BitVec 16}
    (h : afterInfo m ctx capmt o length pil pcrPid d = some d') : Kept d d' := by
  obtain ⟨d₁, hd₁, h⟩ := Option.bind_eq_some_iff.mp h
  obtain ⟨d₂, hd₂, rfl⟩ := Option.map_eq_some_iff.mp h
  have hcommand : Kept d₁ { d₁ with caPmtCmdId := commandOf d₁.caPmtCmdId } := Kept.of_eq rfl
  refine ((esLoop_done hd₁).toKept.trans (hcommand.trans (kept_fallback hd₂))).trans
    ⟨fun e he => ⟨_, List.mem_map.mpr ⟨e, he, rfl⟩, rfl, rfl⟩, fun hall e he => ?_⟩
  obtain ⟨e', he', rfl⟩ := List.mem_map.mp he
  exact hall e' he'

/-- The parser comes to its end just when everything that it comes to is inside. -/
theorem dvbapiParsePmtInfo_isSome (h : m.Prefix) (capmt : Bool) (o length : ℕ) (pcrPid : BitVec 16) :
    (dvbapiParsePmtInfo m ctx capmt o length pcrPid).isSome = true ↔
      PmtInside m ctx capmt o length pcrPid (Util.b2i 2 m.byte o &&& 0x0FFF).toNat
        (pmtStreams m.byte o length (Util.b2i 2 m.byte o &&& 0x0FFF).toNat) := by
  rw [dvbapiParsePmtInfo_eq, bind_b2i, Bool.and_eq_true_iff]
  dsimp only
  generalize (Util.b2i 2 m.byte o &&& 0x0FFF).toNat = pil
  have hinfo := @programInfo_inside m ctx ⟨[], [], 0, none⟩ o h capmt length pil
  cases hd : (if pil ≠ 0 ∧ pil < length then
      dvbapiParsePmtProgramInfo m ctx capmt (o + 2) pil ⟨[], [], 0, none⟩ else some ⟨[], [], 0, none⟩) with
  | none =>
    rw [hd] at hinfo
    refine iff_of_false (fun hno => Bool.false_ne_true hno.2) fun hinside => ?_
    exact Bool.false_ne_true (hinfo.mpr ⟨hinside.command, hinside.program⟩)
  | some d =>
    rw [hd] at hinfo
    have hgrows := grows_info hd
    have hafter := @afterInfo_isSome m ctx d h capmt o length pil pcrPid hgrows.streams hgrows.videoPid
    obtain ⟨hcommand, hprogram⟩ := hinfo.mp rfl
    rw [Option.bind_some, hafter]
    exact ⟨fun hall => ⟨hall.1, hcommand, hprogram, hall.2.1, hall.2.2⟩,
      fun hinside => ⟨hinside.header, hinside.es, hinside.pcr⟩⟩

/-- The bytes of a message of `n` bytes; what lies behind them may not be read. -/
def received (b : ℕ → Byte) (n : ℕ) : Input := ⟨b, fun i => i < n⟩

theorem received_prefix (b : ℕ → Byte) (n : ℕ) : (received b n).Prefix :=
  fun _ _ hij hj => decide_eq_true (Nat.lt_of_le_of_lt hij (of_decide_eq_true hj))

/-- What `dvbapi_parse_capmt` reads of an object of `n` bytes. The PMT part is parsed if the program is new or
updated. -/
def capmtReads (m : Input) (ctx : Context) (n : ℕ) (parse : Bool) : Option Unit := do
  let _ ← m.get 0
  let _ ← getDemuxParameters m ctx.boxtype
  if parse then (dvbapiParsePmtInfo m ctx true 4 ((n + 65532) % 65536) 0x1FFF).map fun _ => () else some ()

/-- The private descriptors of a CA PMT that the parser comes to. -/
def ParamsInside (m : Input) (boxtype : Boxtype) : Prop :=
  m.all 0 6 = true ∧ ∀ i ∈ headers m.byte 0 (5 + (Util.b2i 2 m.byte 4 &&& 0x0FFF).toNat) 7,
    m.all i (2 + paramNeed boxtype (m.byte i) (m.byte (i + 1)).toNat) = true

/-- A PMT section whose length is `length`. -/
def SectionInside (m : Input) (ctx : Context) (capmt : Bool) (o length : ℕ) (pcrPid : BitVec 16) : Prop :=
  PmtInside m ctx capmt o length pcrPid (Util.b2i 2 m.byte o &&& 0x0FFF).toNat
    (pmtStreams m.byte o length (Util.b2i 2 m.byte o &&& 0x0FFF).toNat)

/-- For every message, the parser reads inside it and writes inside its arrays just when the headers that it
comes to and what it needs of the bodies lie inside, and the PCR pid is not needed as the 33rd stream. -/
theorem parse_inside_iff (b : ℕ → Byte) (n : ℕ) (ctx : Context) :
    (∀ parse : Bool, (capmtReads (received b n) ctx n parse).isSome = true ↔
      ParamsInside (received b n) ctx.boxtype ∧
        (parse = true → SectionInside (received b n) ctx true 4 ((n + 65532) % 65536) 0x1FFF)) ∧
    ∀ pcrPid, (dvbapiParsePmtInfo (received b n) ctx false 0 (n % 65536) pcrPid).isSome = true ↔
      SectionInside (received b n) ctx false 0 (n % 65536) pcrPid := by
  have hprefix := received_prefix b n
  refine ⟨fun parse => ?_, fun pcrPid => dvbapiParsePmtInfo_isSome hprefix false 0 (n % 65536) pcrPid⟩
  have hparams : (getDemuxParameters (received b n) ctx.boxtype).isSome = true ↔
      ParamsInside (received b n) ctx.boxtype := by
    rw [getDemuxParameters_isSome hprefix, Bool.and_eq_true_iff, List.all_eq_true]
    rfl
  have hfirst : ParamsInside (received b n) ctx.boxtype → (received b n).all 0 1 = true := by
    intro hinside
    have hsix := all_and (m := received b n) 0 1 6
    exact (Bool.and_eq_true_iff.mp (hsix.trans hinside.1)).1
  unfold capmtReads
  rw [Option.bind_eq_bind, bind_get, Bool.and_eq_true_iff, ← hparams]
  cases hp : getDemuxParameters (received b n) ctx.boxtype with
  | none => exact iff_of_false (fun hno => Bool.false_ne_true hno.2) fun hno => Bool.false_ne_true hno.1
  | some p =>
    have hone := hfirst (hparams.mp (by rw [hp]; rfl))
    rw [Option.bind_eq_bind, Option.bind_some]
    cases parse with
    | false => exact iff_of_true ⟨hone, rfl⟩ ⟨rfl, fun hno => absurd hno Bool.false_ne_true⟩
    | true =>
      rw [if_pos rfl, Option.isSome_map, dvbapiParsePmtInfo_isSome hprefix]
      exact ⟨fun hall => ⟨rfl, fun _ => hall.2⟩, fun hall => ⟨hone, hall.2 rfl⟩⟩

/-- A program info that is longer than the object. -/
theorem long_program_info : (capmtReads (received (fun i => [3, 0, 100, 1, 0x0F, 0xFF, 1, 9].getD i 0) 8)
    ⟨.dreambox, [], 0, 0⟩ 8 true).isSome = false := by decide +kernel

end NCam.Capmt
