import NCam.Capmt.ReadBounds
import Mathlib.Data.List.Dedup
import Mathlib.Data.List.Perm.Subperm

/-! Well-formed CA PMT objects, from the program info on, the bytes they are sent as, and which streams an ECM pid
is for after a CA PMT has been parsed. -/
namespace NCam.Capmt

open NCam.Util NCam.Lib NCam.Lib.Memory

/-- A CA descriptor in a SECA program: pid and provider, and 11 bytes more. -/
structure SecaRecord where
  pid : BitVec 16
  provider : BitVec 16
  rest : List Byte

/-- `pid` is the word of the pid, with its reserved bits. -/
inductive Descriptor
  | ca (caid pid : BitVec 16) (priv : List Byte)
  | seca (caid : BitVec 16) (records : List SecaRecord)
  | other (tag : Byte) (body : List Byte)

def word (w : BitVec 16) : List Byte := i2b 2 (w.setWidth 32)

def SecaRecord.encode (r : SecaRecord) : List Byte := word r.pid ++ word r.provider ++ r.rest

def Descriptor.body : Descriptor → List Byte
  | .ca caid pid priv => word caid ++ word pid ++ priv
  | .seca caid records => word caid ++ records.flatMap SecaRecord.encode
  | .other _ body => body

def Descriptor.tag : Descriptor → Byte
  | .ca _ _ _ | .seca _ _ => 0x09
  | .other tag _ => tag

def Descriptor.encode (x : Descriptor) : List Byte := x.tag :: .ofNat 8 x.body.length :: x.body

/-- Well-formed descriptors. -/
def Descriptor.Wf : Descriptor → Prop
  | .ca caid pid priv => caid ≠ 0 ∧ caidIsSeca caid = false ∧
      (caidIsBissFixed caid = true ∨ pid &&& 0x1FFF ≠ 0x1FFF) ∧ 4 + priv.length ≤ 255
  | .seca caid records => caidIsSeca caid = true ∧ 2 + 15 * records.length ≤ 255 ∧
      (∀ r ∈ records, r.rest.length = 11) ∧ ∃ r, records.head? = some r ∧ r.pid &&& 0x1FFF ≠ 0x1FFF
  | .other tag body => tag ≠ 0x09 ∧ body.length ≤ 255

/-- An ECM pid as a descriptor carries it. -/
structure Entry where
  caid : BitVec 16
  ecmPid : BitVec 16
  provid : BitVec 32
  cadata : BitVec 32

/-- Provider and CA data of a body on its own. -/
def privateOf (caid : BitVec 16) (body : List Byte) : BitVec 32 × BitVec 32 :=
  (caPrivate ⟨fun i => body.getD i 0, fun _ => true⟩ caid 0 body.length).getD (0, 0)

def Descriptor.entries (x : Descriptor) : List Entry :=
  match x with
  | .ca caid pid _ => [⟨caid, pid &&& 0x1FFF, (privateOf caid x.body).1, (privateOf caid x.body).2⟩]
  | .seca caid records => records.map fun r => ⟨caid, r.pid &&& 0x1FFF, r.provider.setWidth 32, 0⟩
  | .other _ _ => []

/-- An elementary stream; the command may be left out. -/
structure Es where
  streamType : Byte
  pid : BitVec 16
  reserved : BitVec 4
  info : Option (Option Byte × List Descriptor)

def Es.descriptors (es : Es) : List Descriptor := (es.info.map Prod.snd).getD []

def infoBytes : Option (Option Byte × List Descriptor) → List Byte
  | none => []
  | some (cmd, ds) => cmd.toList ++ ds.flatMap Descriptor.encode

/-- A length of 12 bits behind four reserved bits. -/
def lengthWord (reserved : BitVec 4) (n : ℕ) : List Byte := word (.ofNat 16 (reserved.toNat * 4096 + n))

def Es.encode (es : Es) : List Byte :=
  es.streamType :: (word es.pid ++ (lengthWord es.reserved (infoBytes es.info).length ++ infoBytes es.info))

structure CaPmt where
  reserved : BitVec 4
  info : Option (Byte × List Descriptor)
  streams : List Es

def CaPmt.descriptors (p : CaPmt) : List Descriptor := (p.info.map Prod.snd).getD []

def CaPmt.infoBytes (p : CaPmt) : List Byte := Capmt.infoBytes (p.info.map fun x => (some x.1, x.2))

def CaPmt.encode (p : CaPmt) : List Byte :=
  lengthWord p.reserved p.infoBytes.length ++ (p.infoBytes ++ p.streams.flatMap Es.encode)

/-- The ECM pids of a list of descriptors. -/
def entriesOf (ds : List Descriptor) : List Entry := ds.flatMap Descriptor.entries

def Entry.key (e : Entry) : BitVec 16 × BitVec 16 := (e.caid, e.ecmPid)

def Ecmpid.key (e : Ecmpid) : BitVec 16 × BitVec 16 := (e.caid, e.ecmPid)

/-- An ECM pid with its provider. -/
def Entry.ident (e : Entry) : BitVec 16 × BitVec 16 × BitVec 32 := (e.caid, e.ecmPid, e.provid)

def Ecmpid.ident (e : Ecmpid) : BitVec 16 × BitVec 16 × BitVec 32 := (e.caid, e.ecmPid, e.provid)

/-- Caid and pid of the CA descriptors at program level, and of a stream. -/
def CaPmt.keys (p : CaPmt) : List (BitVec 16 × BitVec 16) := (entriesOf p.descriptors).map Entry.key

def Es.keys (es : Es) : List (BitVec 16 × BitVec 16) := (entriesOf es.descriptors).map Entry.key

def CaPmt.entries (p : CaPmt) : List Entry :=
  entriesOf p.descriptors ++ p.streams.flatMap fun es => entriesOf es.descriptors

/-- The lengths fit their fields, the streams and ECM pids fit the arrays. -/
structure CaPmt.Wf (p : CaPmt) : Prop where
  program : ∀ x ∈ p.descriptors, x.Wf
  es : ∀ es ∈ p.streams, ∀ x ∈ es.descriptors, x.Wf
  infoLength : p.infoBytes.length < 4096
  esLength : ∀ es ∈ p.streams, (Capmt.infoBytes es.info).length < 4096
  length : p.encode.length < 65536
  streams : p.streams.length ≤ MAX_STREAM_PIDS
  ecmpids : (p.entries.map Entry.ident).dedup.length ≤ MAX_ECM_PIDS

variable {m : Input} {ctx : Context} {d : Program}

/-- Every byte may be read. -/
def Input.Open (m : Input) : Prop := ∀ i, m.inside i = true

theorem Input.Open.all (h : m.Open) (o k : ℕ) : m.all o k = true := by simp [Input.all, h _]

theorem Input.Open.get (h : m.Open) (o : ℕ) : m.get o = some (m.byte o) := by simp [Input.get, h o]

theorem Input.Open.b2i (h : m.Open) (k o : ℕ) : m.b2i k o = some (Util.b2i k m.byte o) := by
  simp [Input.b2i, h.all o k]

theorem Input.Open.slice (h : m.Open) (o k : ℕ) : m.slice o k = some (Memory.slice m.byte o k) := by
  simp [Input.slice, h.all o k]

theorem Input.Open.toPrefix (h : m.Open) : m.Prefix := fun i _ _ _ => h i

theorem caPrivate_open (h : m.Open) (caid : BitVec 16) (o len : ℕ) : ∃ x, caPrivate m caid o len = some x := by
  unfold caPrivate
  simp only [h.get, h.b2i, Option.bind_eq_bind, Option.bind_some]
  split_ifs <;> exact ⟨_, rfl⟩

/-- After the program info the parser comes to an end, and what it has found of ECM pids stays. -/
theorem parsePmtInfo_open (h : m.Open) (o length : ℕ) {pil : ℕ}
    (hpil : (Util.b2i 2 m.byte o &&& 0x0FFF).toNat = pil)
    (hd : (if pil ≠ 0 ∧ pil < length then dvbapiParsePmtProgramInfo m ctx true (o + 2) pil ⟨[], [], 0, none⟩
      else some ⟨[], [], 0, none⟩) = some d) :
    ∃ d', dvbapiParsePmtInfo m ctx true o length 0x1FFF = some d' ∧ Kept d d' := by
  have hgrows := grows_info hd
  have hinside : (afterInfo m ctx true o length pil 0x1FFF d).isSome = true := by
    rw [afterInfo_isSome h.toPrefix true o length pil 0x1FFF hgrows.streams hgrows.videoPid]
    refine ⟨fun i _ => ?_, fun hno => hno.2.2 rfl⟩
    unfold esInside
    simp [h.all]
  obtain ⟨d', hd'⟩ := Option.isSome_iff_exists.mp hinside
  refine ⟨d', ?_, afterInfo_kept hd'⟩
  rw [dvbapiParsePmtInfo_eq, h.b2i, Option.bind_some, hpil]
  dsimp only
  rw [hd]
  exact hd'

theorem Kept.key {d' : Program} (h : Kept d d') {e : Ecmpid} (he : e ∈ d.ecmpids) :
    ∃ e' ∈ d'.ecmpids, e'.key = e.key := by
  obtain ⟨e', he', hcaid, hpid⟩ := h.keys e he
  exact ⟨e', he', Prod.ext hcaid hpid⟩

section Content

variable {o : ℕ}

theorem word_at {w : BitVec 16} (h : Holds m.byte o (word w)) : (Util.b2i 2 m.byte o).setWidth 16 = w := by
  rw [b2i_two h]
  simp

theorem lengthWord_at {r : BitVec 4} {n : ℕ} (h : Holds m.byte o (lengthWord r n)) (hn : n < 4096) :
    (Util.b2i 2 m.byte o &&& 0x0FFF).toNat = n := by
  have hr := r.isLt
  have hmask : (0x0FFF : BitVec 32).toNat = 2 ^ 12 - 1 := rfl
  rw [b2i_two h, BitVec.toNat_and, hmask, Nat.and_two_pow_sub_one_eq_mod]
  simp only [BitVec.toNat_setWidth, BitVec.toNat_ofNat]
  omega

/-- The bytes of a body are read the same wherever it stands. -/
theorem caPrivate_at (h : m.Open) {body : List Byte} (hbody : Holds m.byte o body) (caid : BitVec 16) :
    caPrivate m caid o body.length = some (privateOf caid body) := by
  have hopen : Input.Open ⟨fun i => body.getD i 0, fun _ => true⟩ := fun _ => rfl
  have hbyte : ∀ k < body.length, m.byte (o + k) = body.getD k 0 := by
    intro k hk
    rw [hbody.getElem hk, List.getD_eq_getElem _ _ hk]
  have hget : ∀ k < body.length, m.byte (o + k) = body.getD (0 + k) 0 := by simpa using hbyte
  have htwo : ∀ k, k + 2 ≤ body.length →
      Util.b2i 2 m.byte (o + k) = Util.b2i 2 (fun i => body.getD i 0) (0 + k) := by
    intro k hk
    simp only [Util.b2i, Nat.add_assoc, hget (k + 0) (by omega), hget (k + 1) (by omega)]
  have hthree : ∀ k, k + 3 ≤ body.length →
      Util.b2i 3 m.byte (o + k) = Util.b2i 3 (fun i => body.getD i 0) (0 + k) := by
    intro k hk
    simp only [Util.b2i, Nat.add_assoc, hget (k + 0) (by omega), hget (k + 1) (by omega),
      hget (k + 2) (by omega)]
  have hfour : ∀ k, k + 4 ≤ body.length →
      Util.b2i 4 m.byte (o + k) = Util.b2i 4 (fun i => body.getD i 0) (0 + k) := by
    intro k hk
    simp only [Util.b2i, Nat.add_assoc, hget (k + 0) (by omega), hget (k + 1) (by omega),
      hget (k + 2) (by omega), hget (k + 3) (by omega)]
  have hsame : caPrivate m caid o body.length = caPrivate ⟨fun i => body.getD i 0, fun _ => true⟩ caid 0
      body.length := by
    unfold caPrivate
    simp only [h.get, h.b2i, hopen.get, hopen.b2i, Option.bind_eq_bind, Option.bind_some]
    by_cases hvia : caidIsViaccess caid = true ∧ body.length = 0x0F
    · rw [if_pos hvia, if_pos hvia, hget 10 (by omega), hthree 12 (by omega)]
    by_cases hnagra : caidIsNagra caid = true ∧ body.length = 0x07
    · rw [if_neg hvia, if_neg hvia, if_pos hnagra, if_pos hnagra, htwo 5 (by omega)]
    rw [if_neg hvia, if_neg hvia, if_neg hnagra, if_neg hnagra]
    by_cases hother : (caid >>> 8 = 0x4A ∨ caid = 0x2710) ∧ body.length > 0x04
    · rw [if_pos hother, if_pos hother, hget 4 (by omega)]
      by_cases hdre : caidIsDre caid = true ∧ body.length = 0x0A
      · rw [if_pos hdre, if_pos hdre, hfour 6 (by omega)]
      · rw [if_neg hdre, if_neg hdre]
    · rw [if_neg hother, if_neg hother]
  obtain ⟨x, hx⟩ := caPrivate_open h caid o body.length
  unfold privateOf
  rw [← hsame, hx]
  rfl

/-- The parser's call for an ECM pid. -/
def addEntry (ctx : Context) (d : Program) (e : Entry) : Program :=
  dvbapiAddEcmpid ctx e.caid e.ecmPid e.provid e.cadata d

theorem secaRecord_at (h : m.Open) {r : SecaRecord} (hr : Holds m.byte o r.encode) (caid : BitVec 16)
    (d : Program) : secaRecord m ctx caid o d =
      some (addEntry ctx d ⟨caid, r.pid &&& 0x1FFF, r.provider.setWidth 32, 0⟩) := by
  obtain ⟨hhead, -⟩ := holds_append.mp hr
  obtain ⟨hpid, hprovider⟩ := holds_append.mp hhead
  have hprovider' : Util.b2i 2 m.byte (o + 2) = r.provider.setWidth 32 := by
    have hat : Util.b2i 2 m.byte (o + 2) = _ := b2i_two hprovider
    simpa using hat
  unfold secaRecord
  simp only [h.b2i, h.slice, Option.bind_eq_bind, Option.bind_some, word_at hpid, hprovider']
  rfl

/-- The records of a SECA descriptor one after the other. -/
theorem secaRecords_at (h : m.Open) (caid : BitVec 16) {records : List SecaRecord}
    (hlength : ∀ r ∈ records, r.rest.length = 11) (hat : Holds m.byte o (records.flatMap SecaRecord.encode))
    (d : Program) :
    (List.range records.length).foldlM (fun d k => secaRecord m ctx caid (o + 15 * k) d) d =
      some ((records.map fun r => ⟨caid, r.pid &&& 0x1FFF, r.provider.setWidth 32, 0⟩).foldl
        (addEntry ctx) d) := by
  induction records generalizing o d with
  | nil => rfl
  | cons r records ih =>
    rw [List.flatMap_cons] at hat
    obtain ⟨hhead, htail⟩ := holds_append.mp hat
    have hr : r.encode.length = 15 := by
      have hrest := hlength r List.mem_cons_self
      unfold SecaRecord.encode word
      simp [hrest]
    rw [hr] at htail
    have hshift : ∀ k, o + 15 * (k + 1) = o + 15 + 15 * k := by
      intro k
      omega
    rw [List.length_cons, List.range_succ_eq_map, List.foldlM_cons, Nat.mul_zero, Nat.add_zero,
      secaRecord_at h hhead]
    simp only [Option.bind_eq_bind, Option.bind_some, List.foldlM_map, Nat.succ_eq_add_one, hshift]
    exact ih (fun r hr => hlength r (List.mem_cons_of_mem _ hr)) htail _

theorem length_ca (caid pid : BitVec 16) (priv : List Byte) :
    (Descriptor.ca caid pid priv).body.length = 4 + priv.length := by
  change (word caid ++ word pid ++ priv).length = _
  rw [List.length_append]
  rfl

theorem length_seca (caid : BitVec 16) {records : List SecaRecord} (h : ∀ r ∈ records, r.rest.length = 11) :
    (Descriptor.seca caid records).body.length = 2 + 15 * records.length := by
  have hrecords : (records.flatMap SecaRecord.encode).length = 15 * records.length := by
    induction records with
    | nil => rfl
    | cons r records ih =>
      have hr : r.encode.length = 15 := by
        have hrest := h r List.mem_cons_self
        unfold SecaRecord.encode word
        simp [hrest]
      rw [List.flatMap_cons, List.length_append, hr, ih fun r hr => h r (List.mem_cons_of_mem _ hr),
        List.length_cons]
      omega
  change (word caid ++ records.flatMap SecaRecord.encode).length = _
  rw [List.length_append, hrecords]
  rfl

theorem ca_at (h : m.Open) {caid pid : BitVec 16} {priv : List Byte} (hx : (Descriptor.ca caid pid priv).Wf)
    (hbody : Holds m.byte o (Descriptor.ca caid pid priv).body) (d : Program) :
    dvbapiParsePmtCaDescriptor m ctx o (Descriptor.ca caid pid priv).body.length d =
      some ((Descriptor.ca caid pid priv).entries.foldl (addEntry ctx) d) := by
  obtain ⟨hcaid, hseca, hpid, -⟩ := hx
  have hlength : ¬ (Descriptor.ca caid pid priv).body.length < 4 := by
    rw [length_ca]
    omega
  obtain ⟨hhead, -⟩ := holds_append.mp hbody
  obtain ⟨hcaidAt, hpidAt⟩ := holds_append.mp hhead
  have hpidAt' : (Util.b2i 2 m.byte (o + 2)).setWidth 16 = pid := word_at hpidAt
  have hvalid : ¬ (caid = 0 ∨ caidIsBissFixed caid = false ∧ pid &&& 0x1FFF = 0x1FFF) := by
    rintro (hzero | ⟨hbiss, hlast⟩)
    · exact hcaid hzero
    · rcases hpid with hpid | hpid
      · rw [hbiss] at hpid
        cases hpid
      · exact hpid hlast
  unfold dvbapiParsePmtCaDescriptor
  rw [if_neg hlength]
  simp only [h.b2i, Option.bind_eq_bind, Option.bind_some, word_at hcaidAt, hpidAt']
  rw [if_neg hvalid, hseca, if_neg Bool.false_ne_true, caPrivate_at h hbody]
  rfl

theorem seca_at (h : m.Open) {caid : BitVec 16} {records : List SecaRecord}
    (hx : (Descriptor.seca caid records).Wf) (hbody : Holds m.byte o (Descriptor.seca caid records).body)
    (d : Program) :
    dvbapiParsePmtCaDescriptor m ctx o (Descriptor.seca caid records).body.length d =
      some ((Descriptor.seca caid records).entries.foldl (addEntry ctx) d) := by
  obtain ⟨hseca, -, hlength, r, hr, hpid⟩ := hx
  obtain ⟨rest, rfl⟩ : ∃ rest, records = r :: rest := by
    cases records with
    | nil => cases hr
    | cons r' rest =>
      obtain rfl := Option.some.inj hr
      exact ⟨rest, rfl⟩
  obtain ⟨hcaidAt, hrecords⟩ := holds_append.mp hbody
  have hfirst := hrecords
  rw [List.flatMap_cons] at hfirst
  obtain ⟨hpidAt, -⟩ := holds_append.mp (holds_append.mp (holds_append.mp hfirst).1).1
  have hpidAt' : (Util.b2i 2 m.byte (o + 2)).setWidth 16 = r.pid := word_at hpidAt
  have hvalid : ¬ (caid = 0 ∨ caidIsBissFixed caid = false ∧ r.pid &&& 0x1FFF = 0x1FFF) := by
    rintro (hzero | ⟨-, hlast⟩)
    · rw [hzero] at hseca
      exact absurd hseca (by decide)
    · exact hpid hlast
  have hcount : (2 + 15 * (r :: rest).length + 12) / 15 = (r :: rest).length := by omega
  have hlong : ¬ 2 + 15 * (r :: rest).length < 4 := by
    rw [List.length_cons]
    omega
  unfold dvbapiParsePmtCaDescriptor
  rw [length_seca caid hlength, if_neg hlong, hcount]
  simp only [h.b2i, Option.bind_eq_bind, Option.bind_some, word_at hcaidAt, hpidAt']
  rw [if_neg hvalid, hseca, if_pos rfl]
  exact secaRecords_at h caid hlength hrecords d

/-- A well-formed descriptor is read as it was meant. -/
theorem descriptor_at (h : m.Open) {x : Descriptor} (hx : x.Wf) (hbody : Holds m.byte o x.body) (d : Program) :
    (if x.tag = 0x09 then dvbapiParsePmtCaDescriptor m ctx o x.body.length d else some d) =
      some (x.entries.foldl (addEntry ctx) d) := by
  cases x with
  | other tag body => exact if_neg hx.1
  | ca caid pid priv => exact (if_pos rfl).trans (ca_at h hx hbody d)
  | seca caid records => exact (if_pos rfl).trans (seca_at h hx hbody d)

theorem length_body_le {x : Descriptor} (hx : x.Wf) : x.body.length ≤ 255 := by
  cases x with
  | other tag body => exact hx.2
  | ca caid pid priv =>
    rw [length_ca]
    exact hx.2.2.2
  | seca caid records =>
    rw [length_seca caid hx.2.2.1]
    exact hx.2.1

theorem walk_encode (h : m.Open) {ds : List Descriptor} (hds : ∀ x ∈ ds, x.Wf) {base i limit : ℕ}
    (hat : Holds m.byte (base + i) (ds.flatMap Descriptor.encode))
    (hlimit : i + (ds.flatMap Descriptor.encode).length = limit) (d : Program) :
    m.walk (fun o tag len d => if tag = 0x09 then dvbapiParsePmtCaDescriptor m ctx o len d else some d)
      base limit i d = some ((entriesOf ds).foldl (addEntry ctx) d) := by
  induction ds generalizing i d with
  | nil =>
    rw [Input.walk, if_neg (by simp at hlimit; omega)]
    rfl
  | cons x ds ih =>
    rw [List.flatMap_cons] at hat hlimit
    obtain ⟨hx, hrest⟩ := holds_append.mp hat
    obtain ⟨htag, hx⟩ := holds_cons.mp hx
    obtain ⟨hlen, hbody⟩ := holds_cons.mp hx
    have hle := length_body_le (hds x List.mem_cons_self)
    have hlen' : (m.byte (base + i + 1)).toNat = x.body.length := by
      rw [hlen, BitVec.toNat_ofNat]
      exact Nat.mod_eq_of_lt (by omega)
    have hencode : x.encode.length = x.body.length + 2 := rfl
    rw [List.length_append, hencode] at hlimit
    have hnext : base + i + x.encode.length = base + (i + 2 + x.body.length) := by
      rw [hencode]
      omega
    rw [hnext] at hrest
    have hhere : _ = _ := @descriptor_at m ctx (base + i + 2) h _ (hds x List.mem_cons_self) hbody d
    rw [Input.walk, if_pos (by omega)]
    simp only [h.get, Option.bind_eq_bind, Option.bind_some, htag, hlen']
    rw [hhere, Option.bind_some, ih (fun y hy => hds y (List.mem_cons_of_mem _ hy)) hrest (by omega)]
    unfold entriesOf
    rw [List.flatMap_cons, List.foldl_append]

/-- The program info is read as it was meant. -/
theorem programInfo_at (h : m.Open) {cmd : Byte} {ds : List Descriptor} (hds : ∀ x ∈ ds, x.Wf)
    (hat : Holds m.byte o (cmd :: ds.flatMap Descriptor.encode)) (d : Program) :
    dvbapiParsePmtProgramInfo m ctx true o (cmd :: ds.flatMap Descriptor.encode).length d =
      some ((entriesOf ds).foldl (addEntry ctx) { d with caPmtCmdId := some cmd }) := by
  obtain ⟨hcmd, hdescriptors⟩ := holds_cons.mp hat
  have hlimit : 1 + (ds.flatMap Descriptor.encode).length = (cmd :: ds.flatMap Descriptor.encode).length := by
    rw [List.length_cons, Nat.add_comm]
  unfold dvbapiParsePmtProgramInfo
  simp only [h.get, hcmd, if_true, Option.map_some, Option.bind_eq_bind, Option.bind_some]
  exact walk_encode h hds hdescriptors hlimit _

end Content

section Association

variable {T : List (BitVec 16 × BitVec 16 × BitVec 32)}

/-- The ECM pids are different ones of a list. -/
structure Within (T : List (BitVec 16 × BitVec 16 × BitVec 32)) (d : Program) : Prop where
  nodup : (d.ecmpids.map Ecmpid.ident).Nodup
  mem : ∀ e ∈ d.ecmpids, e.ident ∈ T
  streams : d.streams = []

/-- As long as no more than fit are meant, each of them is there after its call. -/
theorem Within.add (hjoins : ctx.joins = []) (hT : T.dedup.length ≤ MAX_ECM_PIDS) (h : Within T d) {e : Entry}
    (he : e.ident ∈ T) : Within T (addEntry ctx d e) ∧ ∃ e' ∈ (addEntry ctx d e).ecmpids, e'.key = e.key := by
  have heq : addEntry ctx d e = dvbapiAddEcmpidInt e.caid e.ecmPid e.provid e.cadata d := by
    unfold addEntry dvbapiAddEcmpid
    rw [hjoins]
    rfl
  rw [heq]
  unfold dvbapiAddEcmpidInt
  dsimp only
  rw [h.streams, List.length_nil, if_pos rfl]
  by_cases hhit : (d.ecmpids.any fun e' => e'.hit e.caid e.ecmPid e.provid) = true
  · rw [if_pos hhit]
    obtain ⟨e', he', hsame⟩ := List.any_eq_true.mp hhit
    obtain ⟨hcaid, hpid, -⟩ := of_decide_eq_true hsame
    refine ⟨⟨h.nodup, h.mem, rfl⟩, e', he', ?_⟩
    unfold Ecmpid.key Entry.key
    rw [hcaid, hpid]
  · have hnew : e.ident ∉ d.ecmpids.map Ecmpid.ident := by
      intro hmem
      obtain ⟨e', he', hident⟩ := List.mem_map.mp hmem
      unfold Ecmpid.ident Entry.ident at hident
      simp only [Prod.mk.injEq] at hident
      obtain ⟨hcaid, hpid, hprovid⟩ := hident
      exact hhit (List.any_eq_true.mpr ⟨e', he', decide_eq_true ⟨hcaid, hpid, Or.inr hprovid⟩⟩)
    have hnodup : (e.ident :: d.ecmpids.map Ecmpid.ident).Nodup := List.nodup_cons.mpr ⟨hnew, h.nodup⟩
    have hsub : (e.ident :: d.ecmpids.map Ecmpid.ident) ⊆ T.dedup := by
      intro t ht
      rw [List.mem_dedup]
      rcases List.mem_cons.mp ht with rfl | ht
      · exact he
      · obtain ⟨e', he', rfl⟩ := List.mem_map.mp ht
        exact h.mem e' he'
    have hroom := (List.subperm_of_subset hnodup hsub).length_le
    rw [List.length_cons, List.length_map] at hroom
    rw [if_neg hhit, if_neg (by omega)]
    refine ⟨⟨?_, fun e' he' => ?_, rfl⟩, _, List.mem_append_right _ List.mem_cons_self, rfl⟩
    · rw [List.map_append, List.map_cons, List.map_nil]
      exact (List.perm_append_singleton _ _).nodup_iff.mpr hnodup
    · rcases List.mem_append.mp he' with he' | he'
      · exact h.mem e' he'
      · rw [List.mem_singleton.mp he']
        exact he

theorem Within.foldl (hjoins : ctx.joins = []) (hT : T.dedup.length ≤ MAX_ECM_PIDS) {l : List Entry}
    (hl : ∀ e ∈ l, e.ident ∈ T) (h : Within T d) :
    Within T (l.foldl (addEntry ctx) d) ∧
      ∀ e ∈ l, ∃ e' ∈ (l.foldl (addEntry ctx) d).ecmpids, e'.key = e.key := by
  induction l generalizing d with
  | nil => exact ⟨h, fun e he => absurd he List.not_mem_nil⟩
  | cons e l ih =>
    obtain ⟨hadd, e', he', hkey⟩ := h.add hjoins hT (hl e List.mem_cons_self)
    obtain ⟨hfold, hall⟩ := ih (fun e he => hl e (List.mem_cons_of_mem _ he)) hadd
    refine ⟨hfold, fun x hx => ?_⟩
    rcases List.mem_cons.mp hx with rfl | hx
    · obtain ⟨e'', he'', hkey'⟩ := (grows_foldl (f := addEntry ctx)
        (fun d x => grows_addEcmpid x.caid x.ecmPid x.provid x.cadata d) l (addEntry ctx d x)).toKept.key he'
      exact ⟨e'', he'', hkey'.trans hkey⟩
    · exact hall x hx

/-- Every ECM pid of the object is there. One at program level is for all streams, another one for exactly
the streams whose loops carry its descriptor. -/
structure Associated (p : CaPmt) (d : Program) : Prop where
  global : ∀ k ∈ p.keys, (∃ e ∈ d.ecmpids, e.key = k) ∧ ∀ e ∈ d.ecmpids, e.key = k → e.streams = 0
  single : ∀ es ∈ p.streams, ∀ k ∈ es.keys, k ∉ p.keys → (∃ e ∈ d.ecmpids, e.key = k) ∧
    ∀ e ∈ d.ecmpids, e.key = k → ∀ i < 32, e.streams.getLsbD i = true ↔ ∃ es, p.streams[i]? = some es ∧ k ∈ es.keys

/-- The state after the program info of a well-formed object. -/
theorem programInfo_wf {p : CaPmt} (hp : p.Wf) (hjoins : ctx.joins = []) (h : m.Open) {o : ℕ}
    (hat : Holds m.byte (o + 2) p.infoBytes) :
    ∃ d, (if p.infoBytes.length ≠ 0 ∧ p.infoBytes.length < p.encode.length then
        dvbapiParsePmtProgramInfo m ctx true (o + 2) p.infoBytes.length ⟨[], [], 0, none⟩
      else some ⟨[], [], 0, none⟩) = some d ∧ (∀ e ∈ d.ecmpids, e.streams = 0) ∧
      ∀ k ∈ p.keys, ∃ e ∈ d.ecmpids, e.key = k := by
  have hlength : p.infoBytes.length < p.encode.length := by
    change _ < (word _ ++ (p.infoBytes ++ _)).length
    rw [List.length_append, List.length_append]
    change _ < 2 + _
    omega
  cases hinfo : p.info with
  | none =>
    have hbytes : p.infoBytes.length = 0 := by
      unfold CaPmt.infoBytes
      rw [hinfo]
      rfl
    have hkeys : p.keys = [] := by
      unfold CaPmt.keys CaPmt.descriptors
      rw [hinfo]
      rfl
    rw [hbytes, hkeys]
    exact ⟨⟨[], [], 0, none⟩, if_neg fun hne => hne.1 rfl, fun e he => absurd he List.not_mem_nil,
      fun k hk => absurd hk List.not_mem_nil⟩
  | some x =>
    obtain ⟨cmd, ds⟩ := x
    have hbytes : p.infoBytes = cmd :: ds.flatMap Descriptor.encode := by
      unfold CaPmt.infoBytes
      rw [hinfo]
      rfl
    have hds : p.descriptors = ds := by
      unfold CaPmt.descriptors
      rw [hinfo]
      rfl
    have hwf := hp.program
    rw [hds] at hwf
    have hT : ∀ e ∈ entriesOf ds, e.ident ∈ p.entries.map Entry.ident := by
      intro e he
      unfold CaPmt.entries
      rw [hds]
      exact List.mem_map.mpr ⟨e, List.mem_append_left _ he, rfl⟩
    obtain ⟨-, hkeys⟩ := @Within.foldl ctx ⟨[], [], 0, some cmd⟩ _ hjoins hp.ecmpids _ hT
      ⟨List.nodup_nil, fun e he => absurd he List.not_mem_nil, rfl⟩
    have hgrows := grows_foldl (f := addEntry ctx)
      (fun d x => grows_addEcmpid x.caid x.ecmPid x.provid x.cadata d) (entriesOf ds) ⟨[], [], 0, some cmd⟩
    refine ⟨_, ?_, hgrows.global fun e he => absurd he List.not_mem_nil, fun k hk => ?_⟩
    · have hne : p.infoBytes.length ≠ 0 := by
        rw [hbytes]
        exact Nat.succ_ne_zero _
      rw [if_pos ⟨hne, hlength⟩]
      rw [hbytes] at hat ⊢
      exact programInfo_at h hwf hat _
    · unfold CaPmt.keys at hk
      rw [hds] at hk
      obtain ⟨e, he, rfl⟩ := List.mem_map.mp hk
      exact hkeys e he

/-- The streams are associated as they should be just when no ECM pid is for single streams only. -/
theorem associated_iff {p : CaPmt} (hp : p.Wf) (hjoins : ctx.joins = []) (h : m.Open) {o : ℕ}
    (hat : Holds m.byte o p.encode) :
    ∃ d, dvbapiParsePmtInfo m ctx true o p.encode.length 0x1FFF = some d ∧
      (Associated p d ↔ ∀ es ∈ p.streams, ∀ k ∈ es.keys, k ∈ p.keys) := by
  obtain ⟨hlengthAt, hrest⟩ := holds_append.mp hat
  have hinfoAt : Holds m.byte (o + 2) p.infoBytes := (holds_append.mp hrest).1
  obtain ⟨d, hd, hzero, hkeys⟩ := programInfo_wf hp hjoins h hinfoAt
  obtain ⟨d', hd', hkept⟩ := parsePmtInfo_open h o p.encode.length (lengthWord_at hlengthAt hp.infoLength) hd
  have hzero' : ∀ e ∈ d'.ecmpids, e.streams = 0 := hkept.global hzero
  refine ⟨d', hd', fun hassociated es hes k hk => ?_, fun hall => ⟨fun k hk => ?_, fun es hes k hk hno => ?_⟩⟩
  · by_contra hno
    obtain ⟨⟨e, he, hkey⟩, hstream⟩ := hassociated.single es hes k hk hno
    obtain ⟨i, hi, hget⟩ := List.mem_iff_getElem.mp hes
    have hlt : i < 32 := Nat.lt_of_lt_of_le hi hp.streams
    have hbit := (hstream e he hkey i hlt).mpr ⟨es, by rw [List.getElem?_eq_getElem hi, hget], hk⟩
    rw [hzero' e he] at hbit
    simp at hbit
  · obtain ⟨e, he, hkey⟩ := hkeys k hk
    obtain ⟨e', he', hkey'⟩ := hkept.key he
    exact ⟨⟨e', he', hkey'.trans hkey⟩, fun e he _ => hzero' e he⟩
  · exact absurd (hall es hes k hk) hno

/-- The bytes of an object, with zeros behind them. -/
def CaPmt.input (p : CaPmt) : Input := ⟨fun i => p.encode.getD i 0, fun _ => true⟩

/-- A CA descriptor at program level that comes again with the second stream. -/
def sharedPmt : CaPmt :=
  ⟨0xF, some (1, [.ca 0x0500 0xE100 []]),
    [⟨0x02, 0xE200, 0xF, none⟩, ⟨0x04, 0xE201, 0xF, some (some 1, [.ca 0x0500 0xE100 []])⟩]⟩

/-- Two streams with an ECM pid each. -/
def separatePmt : CaPmt :=
  ⟨0xF, none,
    [⟨0x02, 0xE200, 0xF, some (some 1, [.ca 0x0500 0xE100 []])⟩,
      ⟨0x04, 0xE201, 0xF, some (some 1, [.ca 0x0500 0xE101 []])⟩]⟩

theorem sharedPmt_wf : sharedPmt.Wf := by
  have hca : (Descriptor.ca 0x0500 0xE100 []).Wf := by
    unfold Descriptor.Wf
    decide
  refine ⟨fun x hx => ?_, fun es hes x hx => ?_, by decide, by decide, by decide, by decide, by decide⟩
  · obtain rfl := List.mem_singleton.mp hx
    exact hca
  · rcases List.mem_cons.mp hes with rfl | hes
    · cases hx
    · obtain rfl := List.mem_singleton.mp hes
      obtain rfl := List.mem_singleton.mp hx
      exact hca

theorem separatePmt_wf : separatePmt.Wf := by
  have hca : (Descriptor.ca 0x0500 0xE100 []).Wf ∧ (Descriptor.ca 0x0500 0xE101 []).Wf := by
    unfold Descriptor.Wf
    decide
  refine ⟨fun x hx => ?_, fun es hes x hx => ?_, by decide, by decide, by decide, by decide, by decide⟩
  · cases hx
  · rcases List.mem_cons.mp hes with rfl | hes
    · obtain rfl := List.mem_singleton.mp hx
      exact hca.1
    · obtain rfl := List.mem_singleton.mp hes
      obtain rfl := List.mem_singleton.mp hx
      exact hca.2

/-- With the ECM pid at program level both streams get it. -/
theorem associated_shared : ∃ d, dvbapiParsePmtInfo sharedPmt.input ⟨.dreambox, [], 100, 0⟩ true 0
    sharedPmt.encode.length 0x1FFF = some d ∧ Associated sharedPmt d := by
  obtain ⟨d, hd, hiff⟩ := @associated_iff sharedPmt.input ⟨.dreambox, [], 100, 0⟩ _
    sharedPmt_wf rfl (fun _ => rfl) 0 (by decide)
  refine ⟨d, hd, hiff.mpr fun es hes k hk => ?_⟩
  have hkeys : sharedPmt.keys = [(0x0500, 0x0100)] := by decide
  rw [hkeys]
  rcases List.mem_cons.mp hes with rfl | hes
  · cases hk
  · obtain rfl := List.mem_singleton.mp hes
    exact hk

/-- Each of two ECM pids is for both streams instead of its own one. -/
theorem separate_streams_shared : separatePmt.Wf ∧ ∃ d, dvbapiParsePmtInfo separatePmt.input
    ⟨.dreambox, [], 100, 0⟩ true 0 separatePmt.encode.length 0x1FFF = some d ∧ ¬ Associated separatePmt d := by
  have hrun : (dvbapiParsePmtInfo separatePmt.input ⟨.dreambox, [], 100, 0⟩ true 0 separatePmt.encode.length
      0x1FFF).map (fun d => d.ecmpids.map fun e => (e.key, e.streams)) =
      some [((0x0500, 0x0100), 0), ((0x0500, 0x0101), 0)] := by decide +kernel
  obtain ⟨d, hd, hpids⟩ := Option.map_eq_some_iff.mp hrun
  refine ⟨separatePmt_wf, d, hd, fun hassociated => ?_⟩
  obtain ⟨⟨e, he, hkey⟩, hstream⟩ := hassociated.single ⟨0x02, 0xE200, 0xF, some (some 1, [.ca 0x0500 0xE100 []])⟩
    List.mem_cons_self (0x0500, 0x0100) (by decide) (by decide)
  have hmem : (e.key, e.streams) ∈ d.ecmpids.map fun e => (e.key, e.streams) := List.mem_map.mpr ⟨e, he, rfl⟩
  have hzero : e.streams = 0 := by
    rw [hpids] at hmem
    simp only [List.mem_cons, Prod.mk.injEq, List.not_mem_nil, or_false] at hmem
    rcases hmem with hmem | hmem
    · exact hmem.2
    · exact hmem.2
  have hbit := (hstream e he hkey 0 (by decide)).mpr ⟨_, rfl, by decide⟩
  rw [hzero] at hbit
  simp at hbit

end Association

end NCam.Capmt
