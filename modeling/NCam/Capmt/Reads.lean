import NCam.Capmt.Parse

/-! Where the parser of CA PMT objects and PMT sections reads and writes. -/
namespace NCam.Capmt

open NCam.Util NCam.Lib

/-- What lies before a byte that may be read may be read. -/
def Input.Prefix (m : Input) : Prop := ∀ i j, i ≤ j → m.inside j = true → m.inside i = true

variable {m : Input} {ctx : Context} {o j k : ℕ} {d d' : Program}

section Bounds

theorem all_iff : m.all o k = true ↔ ∀ i < k, m.inside (o + i) = true := by simp [Input.all]

@[simp] theorem all_zero : m.all o 0 = true := rfl

theorem all_and (o j k : ℕ) : (m.all o j && m.all o k) = m.all o (max j k) := by
  rw [Bool.eq_iff_iff, Bool.and_eq_true_iff, all_iff, all_iff, all_iff]
  constructor
  · rintro ⟨hj, hk⟩ i hi
    rcases Nat.lt_or_ge i j with hij | hij
    · exact hj i hij
    · exact hk i (by omega)
  · exact fun h => ⟨fun i hi => h i (by omega), fun i hi => h i (by omega)⟩

theorem Input.Prefix.all_add (h : m.Prefix) (o j k : ℕ) : m.all (o + j) (k + 1) = m.all o (j + (k + 1)) := by
  rw [Bool.eq_iff_iff, all_iff, all_iff]
  constructor
  · intro hall i hi
    exact h _ _ (by omega) (hall k (Nat.lt_succ_self k))
  · intro hall i hi
    rw [Nat.add_assoc]
    exact hall (j + i) (by omega)

theorem all_one (o : ℕ) : m.all o 1 = m.inside o := by
  rw [Bool.eq_iff_iff, all_iff]
  simp

theorem bind_get {α : Type} (f : Byte → Option α) :
    ((m.get o).bind f).isSome = (m.all o 1 && (f (m.byte o)).isSome) := by
  rw [all_one]
  unfold Input.get
  cases m.inside o <;> rfl

theorem bind_b2i {α : Type} (f : BitVec 32 → Option α) :
    ((m.b2i k o).bind f).isSome = (m.all o k && (f (Util.b2i k m.byte o)).isSome) := by
  unfold Input.b2i
  cases m.all o k <;> rfl

theorem bind_slice {α : Type} (f : List Byte → Option α) :
    ((m.slice o k).bind f).isSome = (m.all o k && (f (Memory.slice m.byte o k)).isSome) := by
  unfold Input.slice
  cases m.all o k <;> rfl

end Bounds

/-- The bytes of a private descriptor that are read. -/
def paramNeed (boxtype : Boxtype) (tag : Byte) (len : ℕ) : ℕ :=
  if (tag = 0x81 ∧ len = 0x08) ∨ (tag = 0x82 ∧ (len = 0x02 ∨ len = 0x03 ∧ boxtype = .qboxhd)) ∨
    (tag = 0x84 ∧ len = 0x02) ∨ ((tag = 0x83 ∨ tag = 0x86 ∨ tag = 0x87) ∧ len = 0x01) then len
  else 0

theorem demuxCaMaskAdapter_isSome (h : m.Prefix) (boxtype : Boxtype) (o len : ℕ) (p : Params) :
    (demuxCaMaskAdapter m boxtype o len p).isSome =
      m.all o (if len = 0x02 ∨ len = 0x03 ∧ boxtype = .qboxhd then len else 0) := by
  have hone : m.all (o + 1) 1 = m.all o 2 := h.all_add o 1 0
  have htwo : m.all (o + 2) 1 = m.all o 3 := h.all_add o 2 0
  unfold demuxCaMaskAdapter
  by_cases hpc : len = 0x02 ∧ (boxtype = .pc ∨ boxtype = .pcNodmx ∨ boxtype = .samygo)
  · rw [if_pos hpc, if_pos (Or.inl hpc.1), hpc.1]
    simp [bind_get, hone, all_and]
  by_cases hqbox : len = 0x03 ∧ boxtype = .qboxhd
  · rw [if_neg hpc, if_pos hqbox, if_pos (Or.inr hqbox), hqbox.1]
    simp [bind_get, hone, htwo, all_and]
  by_cases htwo' : len = 0x02
  · rw [if_neg hpc, if_neg hqbox, if_pos htwo', if_pos (Or.inl htwo'), htwo']
    simp [bind_get, hone, all_and]
  · rw [if_neg hpc, if_neg hqbox, if_neg htwo', if_neg (not_or.mpr ⟨htwo', hqbox⟩)]
    rfl

theorem demuxParameter_isSome (h : m.Prefix) (boxtype : Boxtype) (o : ℕ) (tag : Byte) (len : ℕ) (p : Params) :
    (demuxParameter m boxtype o tag len p).isSome = m.all o (paramNeed boxtype tag len) := by
  have hfour : m.all (o + 4) 2 = m.all o 6 := h.all_add o 4 1
  have hsix : m.all (o + 6) 2 = m.all o 8 := h.all_add o 6 1
  have hadapter := demuxCaMaskAdapter_isSome h boxtype o len p
  unfold demuxParameter paramNeed
  by_cases hens : tag = 0x81 ∧ len = 0x08
  · obtain ⟨rfl, rfl⟩ := hens
    simp [bind_b2i, hfour, hsix, all_and]
  rw [if_neg hens]
  by_cases hmask : tag = 0x82
  · subst hmask
    simpa using hadapter
  rw [if_neg hmask]
  by_cases hdevice : tag = 0x83 ∧ len = 0x01
  · obtain ⟨rfl, rfl⟩ := hdevice
    simp [bind_get]
  rw [if_neg hdevice]
  by_cases hpmt : tag = 0x84 ∧ len = 0x02
  · obtain ⟨rfl, rfl⟩ := hpmt
    simp [bind_b2i]
  rw [if_neg hpmt]
  by_cases hdemux : tag = 0x86 ∧ len = 0x01
  · obtain ⟨rfl, rfl⟩ := hdemux
    simp [bind_get]
  rw [if_neg hdemux]
  by_cases hca : tag = 0x87 ∧ len = 0x01
  · obtain ⟨rfl, rfl⟩ := hca
    simp [bind_get]
  rw [if_neg hca, if_neg]
  · rfl
  · rintro (h | ⟨h, -⟩ | h | ⟨h | h | h, hlen⟩)
    · exact hens h
    · exact hmask h
    · exact hpmt h
    · exact hdevice ⟨h, hlen⟩
    · exact hdemux ⟨h, hlen⟩
    · exact hca ⟨h, hlen⟩

/-- The bytes of a CA descriptor that are read. -/
def caNeed (b : ℕ → Byte) (o len : ℕ) : ℕ :=
  let caSystemId := (Util.b2i 2 b o).setWidth 16
  let caPid := (Util.b2i 2 b (o + 2)).setWidth 16 &&& 0x1FFF
  if len < 4 then 0
  else if caSystemId = 0 ∨ (caidIsBissFixed caSystemId = false ∧ caPid = 0x1FFF) then 4
  else if caidIsSeca caSystemId then 2 + 15 * ((len + 12) / 15)
  else if caidIsViaccess caSystemId ∧ len = 0x0F then if b (o + 10) = 0x14 then 15 else 11
  else if caidIsNagra caSystemId ∧ len = 0x07 then 7
  else if (caSystemId >>> 8 = 0x4A ∨ caSystemId = 0x2710) ∧ len > 0x04 then
    if caidIsDre caSystemId ∧ len = 0x0A then 10 else 5
  else 4

theorem secaRecord_isSome (h : m.Prefix) (caid : BitVec 16) (o : ℕ) (d : Program) :
    (secaRecord m ctx caid o d).isSome = m.all o 15 := by
  have htwo : m.all (o + 2) 2 = m.all o 4 := h.all_add o 2 1
  have hfive : m.all (o + 5) 10 = m.all o 15 := h.all_add o 5 9
  unfold secaRecord
  simp [bind_b2i, bind_slice, htwo, hfive, all_and]

/-- The bytes of the private part that are read, with the four in front of it. -/
theorem caPrivate_isSome (h : m.Prefix) (caid : BitVec 16) (o len : ℕ) :
    (m.all o 4 && (caPrivate m caid o len).isSome) = m.all o
      (if caidIsViaccess caid ∧ len = 0x0F then if m.byte (o + 10) = 0x14 then 15 else 11
        else if caidIsNagra caid ∧ len = 0x07 then 7
        else if (caid >>> 8 = 0x4A ∨ caid = 0x2710) ∧ len > 0x04 then
          if caidIsDre caid ∧ len = 0x0A then 10 else 5
        else 4) := by
  have hten : m.all (o + 10) 1 = m.all o 11 := h.all_add o 10 0
  have htwelve : m.all (o + 12) 3 = m.all o 15 := h.all_add o 12 2
  have hfive : m.all (o + 5) 2 = m.all o 7 := h.all_add o 5 1
  have hfour : m.all (o + 4) 1 = m.all o 5 := h.all_add o 4 0
  have hsix : m.all (o + 6) 4 = m.all o 10 := h.all_add o 6 3
  unfold caPrivate
  split_ifs with hvia hprovider hnagra hother hdre
  · simp [bind_get, bind_b2i, hten, htwelve, hprovider, all_and]
  · simp only [Option.bind_eq_bind, bind_get, hten, if_neg hprovider]
    simp [all_and]
  · simp [bind_b2i, hfive, all_and]
  · simp [bind_get, bind_b2i, hfour, hsix, all_and]
  · simp [bind_get, hfour, all_and]
  · simp

/-- A loop whose steps do not depend on what they change. -/
theorem foldlM_isSome {α β : Type} {f : α → β → Option α} {good : β → Bool}
    (h : ∀ a x, (f a x).isSome = good x) (l : List β) (a : α) : (l.foldlM f a).isSome = l.all good := by
  induction l generalizing a with
  | nil => rfl
  | cons x l ih =>
    rw [List.foldlM_cons, List.all_cons, ← h a x]
    cases hx : f a x with
    | none => rfl
    | some b => exact ih b

/-- Records of 15 bytes one after the other. -/
theorem all_records (h : m.Prefix) (o : ℕ) {n : ℕ} (hn : 0 < n) :
    ((List.range n).all fun k => m.all (o + 15 * k) 15) = m.all o (15 * n) := by
  induction n with
  | zero => exact absurd hn (Nat.lt_irrefl 0)
  | succ n ih =>
    have hlast : m.all (o + 15 * n) 15 = m.all o (15 * n + 15) := h.all_add o (15 * n) 14
    rw [List.range_succ, List.all_append, List.all_cons, List.all_nil, Bool.and_true, hlast]
    rcases Nat.eq_zero_or_pos n with rfl | hpos
    · rfl
    · rw [ih hpos, all_and, Nat.max_eq_right (by omega)]
      rfl

/-- `dvbapi_parse_pmt_ca_descriptor` comes to its end just when it may read what it needs. -/
theorem caDescriptor_isSome (h : m.Prefix) (o len : ℕ) (d : Program) :
    (dvbapiParsePmtCaDescriptor m ctx o len d).isSome = m.all o (caNeed m.byte o len) := by
  have htwo : m.all (o + 2) 2 = m.all o 4 := h.all_add o 2 1
  have hfour : (m.all o 2 && m.all o 4) = m.all o 4 := all_and o 2 4
  unfold dvbapiParsePmtCaDescriptor caNeed
  by_cases hlen : len < 4
  · simp [hlen]
  dsimp only
  rw [if_neg hlen, if_neg hlen]
  simp only [Option.bind_eq_bind, bind_b2i, htwo]
  rw [← Bool.and_assoc, hfour]
  by_cases hvalid : (Util.b2i 2 m.byte o).setWidth 16 = 0 ∨
      caidIsBissFixed ((Util.b2i 2 m.byte o).setWidth 16) = false ∧
        (Util.b2i 2 m.byte (o + 2)).setWidth 16 &&& 0x1FFF = 0x1FFF
  · rw [if_pos hvalid, if_pos hvalid]
    exact Bool.and_true _
  rw [if_neg hvalid, if_neg hvalid]
  by_cases hseca : caidIsSeca ((Util.b2i 2 m.byte o).setWidth 16) = true
  · obtain ⟨n, hn⟩ := Nat.exists_eq_succ_of_ne_zero (n := (len + 12) / 15) (by omega)
    have hfold := foldlM_isSome (fun d k =>
      @secaRecord_isSome m ctx h ((Util.b2i 2 m.byte o).setWidth 16) (o + 2 + 15 * k) d)
      (List.range ((len + 12) / 15)) d
    have hall : m.all (o + 2) (15 * (n + 1)) = m.all o (2 + 15 * (n + 1)) := h.all_add o 2 (15 * n + 14)
    rw [if_pos hseca, if_pos hseca, hfold, hn, all_records h (o + 2) (Nat.succ_pos n), hall, all_and,
      Nat.max_eq_right (by omega)]
  · rw [if_neg hseca, if_neg hseca, ← caPrivate_isSome h]
    congr 1
    cases caPrivate m ((Util.b2i 2 m.byte o).setWidth 16) o len <;> rfl

/-- Where the headers of a loop over descriptors stand. -/
def headers (b : ℕ → Byte) (base limit i : ℕ) : List ℕ :=
  if i + 1 < limit then (base + i) :: headers b base limit (i + 2 + (b (base + i + 1)).toNat) else []
termination_by limit - i

/-- A loop over descriptors comes to its end just when it may read every header that it comes to, and the
bodies as far as they are needed. -/
theorem walk_isSome {α : Type} (h : m.Prefix) {visit : ℕ → Byte → ℕ → α → Option α}
    {need : ℕ → Byte → ℕ → ℕ} (hvisit : ∀ o tag len a, (visit o tag len a).isSome = m.all o (need o tag len))
    (base limit i : ℕ) (a : α) :
    (m.walk visit base limit i a).isSome = (headers m.byte base limit i).all fun o =>
      m.all o (2 + need (o + 2) (m.byte o) (m.byte (o + 1)).toNat) := by
  induction hn : limit - i using Nat.strongRecOn generalizing i a with
  | _ n ih =>
    rw [Input.walk, headers]
    by_cases hi : i + 1 < limit
    · have hsecond : m.all (base + i + 1) 1 = m.all (base + i) 2 := h.all_add (base + i) 1 0
      have hbody : (m.all (base + i) 2 && m.all (base + i + 2) (need (base + i + 2) (m.byte (base + i))
          (m.byte (base + i + 1)).toNat)) = m.all (base + i) (2 + need (base + i + 2) (m.byte (base + i))
          (m.byte (base + i + 1)).toNat) := by
        cases hneed : need (base + i + 2) (m.byte (base + i)) (m.byte (base + i + 1)).toNat with
        | zero => exact Bool.and_true _
        | succ k => rw [h.all_add (base + i) 2 k, all_and, Nat.max_eq_right (by omega)]
      have hone : (m.all (base + i) 1 && m.all (base + i) 2) = m.all (base + i) 2 := all_and _ 1 2
      rw [if_pos hi, if_pos hi, List.all_cons, ← hbody, ← hvisit _ _ _ a, ← hone]
      simp only [Option.bind_eq_bind, bind_get, hsecond, Bool.and_assoc]
      congr 2
      cases visit (base + i + 2) (m.byte (base + i)) (m.byte (base + i + 1)).toNat a with
      | none => rfl
      | some a' => exact ih _ (by omega) (i + 2 + (m.byte (base + i + 1)).toNat) a' rfl
    · rw [if_neg hi, if_neg hi]
      rfl

/-- `get_demux_parameters`: the two bytes of the program number, the length, and the private descriptors. -/
theorem getDemuxParameters_isSome (h : m.Prefix) (boxtype : Boxtype) : (getDemuxParameters m boxtype).isSome =
    (m.all 0 6 && (headers m.byte 0 (5 + (Util.b2i 2 m.byte 4 &&& 0x0FFF).toNat) 7).all fun o =>
      m.all o (2 + paramNeed boxtype (m.byte o) (m.byte (o + 1)).toNat)) := by
  have hone : m.all 1 2 = m.all 0 3 := h.all_add 0 1 1
  have hfour : m.all 4 2 = m.all 0 6 := h.all_add 0 4 1
  have hboth : (m.all 0 3 && m.all 0 6) = m.all 0 6 := all_and 0 3 6
  unfold getDemuxParameters
  simp only [Option.bind_eq_bind, bind_b2i, hone, hfour]
  rw [← Bool.and_assoc, hboth, walk_isSome h fun o tag len p => demuxParameter_isSome h boxtype o tag len p]

section Kept

/-- What every part of the parser keeps of the ECM pids. -/
structure Kept (d d' : Program) : Prop where
  keys : ∀ e ∈ d.ecmpids, ∃ e' ∈ d'.ecmpids, e'.caid = e.caid ∧ e'.ecmPid = e.ecmPid
  global : (∀ e ∈ d.ecmpids, e.streams = 0) → ∀ e ∈ d'.ecmpids, e.streams = 0

/-- A part that adds no stream. -/
structure Grows (d d' : Program) : Prop extends Kept d d' where
  streams : d'.streams = d.streams
  videoPid : d'.videoPid = d.videoPid

variable {d'' : Program}

theorem Kept.trans (h : Kept d d') (h' : Kept d' d'') : Kept d d'' := by
  refine ⟨fun e he => ?_, fun hall => h'.global (h.global hall)⟩
  obtain ⟨e', he', hcaid, hpid⟩ := h.keys e he
  obtain ⟨e'', he'', hcaid', hpid'⟩ := h'.keys e' he'
  exact ⟨e'', he'', hcaid'.trans hcaid, hpid'.trans hpid⟩

/-- The ECM pids are left as they are. -/
theorem Kept.of_eq (h : d'.ecmpids = d.ecmpids) : Kept d d' := by
  refine ⟨fun e he => ⟨e, ?_, rfl, rfl⟩, fun hall => ?_⟩
  · rw [h]
    exact he
  · rw [h]
    exact hall

theorem Grows.refl (d : Program) : Grows d d := ⟨Kept.of_eq rfl, rfl, rfl⟩

theorem Grows.trans (h : Grows d d') (h' : Grows d' d'') : Grows d d'' :=
  ⟨h.toKept.trans h'.toKept, h'.streams.trans h.streams, h'.videoPid.trans h.videoPid⟩

theorem Grows.command (cmd : Option Byte) (d : Program) : Grows d { d with caPmtCmdId := cmd } :=
  ⟨Kept.of_eq rfl, rfl, rfl⟩

theorem addStream_of_global {e : Ecmpid} (h : e.streams = 0) (stream : ℕ) : e.addStream stream = e := by
  unfold Ecmpid.addStream
  rw [if_pos h]

theorem grows_addStreams (p : Ecmpid → Bool) (stream : ℕ) (d : Program) :
    Grows d { d with ecmpids := d.ecmpids.map fun e => if p e then e.addStream stream else e } := by
  refine ⟨⟨fun e he => ⟨_, List.mem_map.mpr ⟨e, he, rfl⟩, ?_⟩, fun hall e he => ?_⟩, rfl, rfl⟩
  · unfold Ecmpid.addStream
    split_ifs <;> exact ⟨rfl, rfl⟩
  · obtain ⟨e', he', rfl⟩ := List.mem_map.mp he
    split_ifs
    · rw [addStream_of_global (hall e' he')]
      exact hall e' he'
    · exact hall e' he'

/-- The streams of an ECM pid are set to none, which means all, when it is added; then no stream is ever
added to it. -/
theorem grows_addEcmpidInt (caid ecmpid : BitVec 16) (provid cadata : BitVec 32) (d : Program) :
    Grows d (dvbapiAddEcmpidInt caid ecmpid provid cadata d) := by
  unfold dvbapiAddEcmpidInt
  dsimp only
  by_cases hhit : (d.ecmpids.any fun e => e.hit caid ecmpid provid) = true
  · rw [if_pos hhit]
    by_cases hnone : d.streams.length = 0
    · rw [if_pos hnone]
      exact Grows.refl d
    · rw [if_neg hnone]
      exact grows_addStreams (fun e => e.hit caid ecmpid provid) _ d
  · rw [if_neg hhit]
    by_cases hfull : d.ecmpids.length ≥ MAX_ECM_PIDS
    · rw [if_pos hfull]
      exact Grows.refl d
    · rw [if_neg hfull]
      refine ⟨⟨fun e he => ⟨e, List.mem_append_left _ he, rfl, rfl⟩, fun hall e he => ?_⟩, rfl, rfl⟩
      rcases List.mem_append.mp he with he | he
      · exact hall e he
      · rw [List.mem_singleton.mp he]

theorem grows_foldl {α : Type} {f : Program → α → Program} (h : ∀ d a, Grows d (f d a)) (l : List α)
    (d : Program) : Grows d (l.foldl f d) := by
  induction l generalizing d with
  | nil => exact Grows.refl d
  | cons a l ih => exact (h d a).trans (ih (f d a))

theorem grows_addEcmpid (caid ecmpid : BitVec 16) (provid cadata : BitVec 32) (d : Program) :
    Grows d (dvbapiAddEcmpid ctx caid ecmpid provid cadata d) :=
  (grows_addEcmpidInt caid ecmpid provid cadata d).trans
    (grows_foldl (fun d (j : Join) => grows_addEcmpidInt j.mapcaid j.mapecmpid j.mapprovid 0 d) _ _)

/-- A loop keeps what its body keeps. -/
theorem walk_keeps {α : Type} {R : α → α → Prop} (hrefl : ∀ a, R a a)
    (htrans : ∀ a b c, R a b → R b c → R a c) {visit : ℕ → Byte → ℕ → α → Option α}
    (hvisit : ∀ o tag len a b, visit o tag len a = some b → R a b) {base limit i : ℕ} {a c : α}
    (h : m.walk visit base limit i a = some c) : R a c := by
  induction hn : limit - i using Nat.strongRecOn generalizing i a with
  | _ n ih =>
    rw [Input.walk] at h
    by_cases hi : i + 1 < limit
    · rw [if_pos hi] at h
      obtain ⟨tag, -, h⟩ := Option.bind_eq_some_iff.mp h
      obtain ⟨len, -, h⟩ := Option.bind_eq_some_iff.mp h
      obtain ⟨b, hb, h⟩ := Option.bind_eq_some_iff.mp h
      exact htrans a b c (hvisit _ _ _ a b hb) (ih _ (by omega) h rfl)
    · rw [if_neg hi] at h
      obtain rfl := Option.some.inj h
      exact hrefl a

theorem foldlM_keeps {α β : Type} {R : α → α → Prop} (hrefl : ∀ a, R a a)
    (htrans : ∀ a b c, R a b → R b c → R a c) {f : α → β → Option α}
    (hf : ∀ a x b, f a x = some b → R a b) {l : List β} {a c : α} (h : l.foldlM f a = some c) : R a c := by
  induction l generalizing a with
  | nil =>
    obtain rfl := Option.some.inj h
    exact hrefl a
  | cons x l ih =>
    rw [List.foldlM_cons] at h
    obtain ⟨b, hb, h⟩ := Option.bind_eq_some_iff.mp h
    exact htrans a b c (hf a x b hb) (ih h)

theorem grows_caDescriptor {len : ℕ} (h : dvbapiParsePmtCaDescriptor m ctx o len d = some d') : Grows d d' := by
  unfold dvbapiParsePmtCaDescriptor at h
  by_cases hlen : len < 4
  · rw [if_pos hlen] at h
    obtain rfl := Option.some.inj h
    exact Grows.refl d
  rw [if_neg hlen] at h
  obtain ⟨caSystemId, -, h⟩ := Option.bind_eq_some_iff.mp h
  obtain ⟨caPid, -, h⟩ := Option.bind_eq_some_iff.mp h
  dsimp only at h
  split_ifs at h
  · obtain rfl := Option.some.inj h
    exact Grows.refl d
  · refine foldlM_keeps Grows.refl (fun _ _ _ => Grows.trans) (fun d k d' hd => ?_) h
    unfold secaRecord at hd
    obtain ⟨pid, -, hd⟩ := Option.bind_eq_some_iff.mp hd
    obtain ⟨provider, -, hd⟩ := Option.bind_eq_some_iff.mp hd
    obtain ⟨text, -, hd⟩ := Option.bind_eq_some_iff.mp hd
    obtain rfl := Option.some.inj hd
    exact grows_addEcmpid _ _ _ _ d
  · obtain ⟨priv, -, h⟩ := Option.bind_eq_some_iff.mp h
    obtain rfl := Option.some.inj h
    exact grows_addEcmpid _ _ _ _ d

theorem grows_programInfo {capmt : Bool} {length : ℕ}
    (h : dvbapiParsePmtProgramInfo m ctx capmt o length d = some d') : Grows d d' := by
  unfold dvbapiParsePmtProgramInfo at h
  have hwalk : ∀ {i : ℕ} {d₁ : Program}, m.walk (fun o tag len d =>
      if tag = 0x09 then dvbapiParsePmtCaDescriptor m ctx o len d else some d) o length i d₁ = some d' →
      Grows d₁ d' := by
    intro i d₁ h
    refine walk_keeps Grows.refl (fun _ _ _ => Grows.trans) (fun o tag len d d' hd => ?_) h
    split_ifs at hd
    · exact grows_caDescriptor hd
    · obtain rfl := Option.some.inj hd
      exact Grows.refl d
  cases capmt with
  | false => exact hwalk h
  | true =>
    obtain ⟨d₁, hd₁, h⟩ := Option.bind_eq_some_iff.mp h
    obtain ⟨cmd, -, rfl⟩ := Option.map_eq_some_iff.mp hd₁
    exact (Grows.command _ d).trans (hwalk h)

theorem grows_descriptors {length : ℕ} {x x' : Program × StreamType}
    (h : dvbapiParsePmtDescriptors m ctx o length x = some x') : Grows x.1 x'.1 := by
  refine walk_keeps (R := fun x x' => Grows x.1 x'.1) (fun x => Grows.refl x.1) (fun _ _ _ => Grows.trans)
    (fun o tag len x x' hx => ?_) h
  split_ifs at hx
  · obtain ⟨d, hd, rfl⟩ := Option.map_eq_some_iff.mp hx
    exact grows_caDescriptor hd
  · obtain ⟨type, -, rfl⟩ := Option.map_eq_some_iff.mp hx
    exact Grows.refl x.1

theorem grows_esDescriptors {capmt : Bool} {length esInfoLength : ℕ} {x : Program × StreamType}
    (h : esDescriptors m ctx capmt o length esInfoLength d = some x) : Grows d x.1 := by
  unfold esDescriptors at h
  by_cases hinfo : esInfoLength ≠ 0 ∧ esInfoLength < length
  · rw [if_pos hinfo] at h
    cases capmt with
    | false => exact grows_descriptors h
    | true =>
      obtain ⟨cmd, -, h⟩ := Option.bind_eq_some_iff.mp h
      have hcmd : Grows d (if ctx.boxtype = .dreambox then { d with caPmtCmdId := some cmd } else d) := by
        split_ifs
        · exact Grows.command _ d
        · exact Grows.refl d
      exact hcmd.trans (grows_descriptors h)
  · rw [if_neg hinfo] at h
    obtain rfl := Option.some.inj h
    exact Grows.refl d

end Kept

end NCam.Capmt
