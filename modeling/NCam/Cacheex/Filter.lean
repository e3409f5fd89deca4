import NCam.Util.Bytes
import NCam.Util.Strings

/-! The `cacheex_ecm_filter` table: its setting, the filter messages of the CCcam and of the camd35
transport, and when a table survives them. -/
namespace NCam.Cacheex.Filter

open NCam.Lib.Memory NCam.Util

/-- `CECSPVALUETAB_DATA`. -/
structure CecspvaluetabData where
  caid : BitVec 32
  cmask : BitVec 32
  prid : BitVec 32
  srvid : BitVec 32
  awtime : BitVec 16
  dwtime : BitVec 16
deriving DecidableEq

abbrev Cecspvaluetab := List CecspvaluetabData

/-- One entry of a setting, `[caid][&mask][@provid][$servid][:awtime][:]dwtime`. -/
def parseEntry (ptr : List Char) : CecspvaluetabData :=
  let (ptr, ptr4) := cutAt ':' (trim ptr)
  let (awtime, dwtime) : BitVec 16 × BitVec 16 :=
    match ptr4.map (strtok ':') with
    | none => (-1, -1)
    | some [] => (-1, -1)
    | some [dwtime] => (-1, .ofInt 16 (atoi dwtime))
    | some (awtime :: dwtime :: _) => (.ofInt 16 (atoi awtime), .ofInt 16 (atoi dwtime))
  let (ptr, ptr3) := cutAt '$' (trim ptr)
  let srvid := ptr3.elim (-1) (a2i · 4)
  let (ptr, ptr2) := cutAt '@' (trim ptr)
  let provid := ptr2.elim (-1) (a2i · 6)
  let (ptr, ptr1) := cutAt '&' ptr
  let cmask := ptr1.elim (-1) (a2i · (-2))
  let onlyDwtime := ptr1.isNone && ptr2.isNone && ptr3.isNone && ptr4.isNone
  let dwtime := if onlyDwtime then .ofInt 16 (atoi ptr) else dwtime
  let caid := if onlyDwtime then -1 else a2i ptr 2
  ⟨caid, cmask, provid, srvid, awtime, dwtime⟩

/-- Without a positive caid only the first entry is kept. -/
def keepEntry (d : CecspvaluetabData) (i : ℕ) : Option CecspvaluetabData :=
  if (i = 0 ∧ d.caid.toInt ≤ 0) ∨ 0 < d.caid.toInt then some d else none

def chkCacheexValuetab (lbrlt : List Char) : Cecspvaluetab :=
  (strtok ',' lbrlt).zipIdx.filterMap fun (ptr, i) => keepEntry (parseEntry ptr) i

/-- One column of the message: field `f` of the first `n` entries, four bytes each. -/
def putColumn (f : CecspvaluetabData → BitVec 32) (filter : Cecspvaluetab) (n i : ℕ)
    (buf : ℕ → Byte) : ℕ → Byte :=
  (List.range n).foldl (fun buf j =>
    match filter[j]? with
    | some d => i2bBuf 4 (f d) buf (i + 4 * j)
    | none => buf) buf

/-- The number of entries and the columns of `maxFilters` entries from `i` on. -/
def putFilter (maxFilters i : ℕ) (filter : Cecspvaluetab) (buf : ℕ → Byte) : ℕ → Byte :=
  let buf := i2bBuf 2 (.ofNat 32 filter.length) buf i
  let i := i + 2
  let buf := putColumn (·.caid) filter maxFilters i buf
  let buf := putColumn (·.cmask) filter maxFilters (i + 4 * maxFilters) buf
  let buf := putColumn (·.prid) filter maxFilters (i + 8 * maxFilters) buf
  putColumn (·.srvid) filter maxFilters (i + 12 * maxFilters) buf

/-- Reads one column into the entries that exist. -/
def readColumn (set : CecspvaluetabData → BitVec 32 → CecspvaluetabData) (n i : ℕ) (buf : ℕ → Byte)
    (filter : Cecspvaluetab) : Cecspvaluetab :=
  (List.range n).foldl (fun filter j => filter.modify j fun d => set d (b2i 4 buf (i + 4 * j))) filter

/-- The caid column: an entry is added for every positive caid. -/
def readCaids (n i : ℕ) (buf : ℕ → Byte) : Cecspvaluetab :=
  (List.range n).filterMap fun j =>
    let caid := b2i 4 buf (i + 4 * j)
    if 0 < caid.toInt then some ⟨caid, 0, 0, 0, 0, 0⟩ else none

def readFilter (maxFilters i : ℕ) (buf : ℕ → Byte) : Cecspvaluetab :=
  let i := i + 2
  let filter := readCaids maxFilters i buf
  let filter := readColumn (fun d cmask => { d with cmask }) maxFilters (i + 4 * maxFilters) buf filter
  let filter := readColumn (fun d prid => { d with prid }) maxFilters (i + 8 * maxFilters) buf filter
  readColumn (fun d srvid => { d with srvid }) maxFilters (i + 12 * maxFilters) buf filter

/-- The cache exchange settings of a reader or an account. -/
structure FilterSetting where
  mode : ℕ
  allowFilter : ℕ
  filterCaidtab : Cecspvaluetab

structure FilterClient where
  typ : Char
  reader : Option FilterSetting
  account : Option FilterSetting

/-- The own table, or the global one if it is empty. -/
def tableOf (cfg : Cecspvaluetab) (s : FilterSetting) : Cecspvaluetab :=
  if s.filterCaidtab.length = 0 ∧ cfg.length > 0 then cfg else s.filterCaidtab

/-- The table that `cc_cacheex_filter_out` sends. -/
def ccFilterSource (cfg : Cecspvaluetab) (cl : FilterClient) : Option Cecspvaluetab :=
  let rdr := if cl.typ = 'c' then none else cl.reader
  match rdr.filter (fun rdr => rdr.mode = 2 ∨ rdr.mode = 1) with
  | some rdr => some (tableOf cfg rdr)
  | none =>
    if cl.typ = 'c' then (cl.account.filter (·.mode = 3)).map (tableOf cfg) else none

/-- The message of 482 bytes. -/
def ccFilterOut (cfg : Cecspvaluetab) (cl : FilterClient) : Option (ℕ → Byte) :=
  (ccFilterSource cfg cl).map fun filter => putFilter 30 0 filter fun _ => 0

/-- The table that `camd35_cacheex_send_push_filter` sends. -/
def camd35FilterSource (cfg : Cecspvaluetab) (cl : FilterClient) (mode : ℕ) : Option Cecspvaluetab :=
  match cl.reader.filter fun _ => mode = 2 with
  | some rdr => some (tableOf cfg rdr)
  | none => if mode = 3 ∧ cl.typ = 'c' then cl.account.map (tableOf cfg) else none

/-- The message of 20 + 242 bytes. -/
def camd35SendPushFilter (cfg : Cecspvaluetab) (cl : FilterClient) (mode : ℕ) : Option (ℕ → Byte) :=
  (camd35FilterSource cfg cl mode).map fun filter =>
    putFilter 15 20 filter (put (fun _ => 0) 0 [0x3c, 0xf2])

/-- Where a received table is stored. -/
inductive Place
  | account
  | reader
deriving DecidableEq

def ccFilterPlace (cl : FilterClient) : Option Place :=
  let rdr := if cl.typ = 'c' then none else cl.reader
  if cl.typ = 'c' ∧ (cl.account.any fun a => (a.mode = 2 ∨ a.mode = 1) ∧ a.allowFilter = 1) then
    some .account
  else if rdr.any fun rdr => rdr.mode = 3 ∧ rdr.allowFilter = 1 then some .reader
  else none

def camd35FilterPlace (cl : FilterClient) (mode : ℕ) : Option Place :=
  if mode = 2 ∧ cl.typ = 'c' ∧ (cl.account.any fun a => a.mode = 2 ∧ a.allowFilter = 1) then
    some .account
  else if mode = 3 ∧ (cl.reader.any fun rdr => rdr.allowFilter = 1) then some .reader
  else none

def FilterClient.store (cl : FilterClient) (filter : Cecspvaluetab) : Place → FilterClient
  | .account => { cl with account := cl.account.map fun a => { a with filterCaidtab := filter } }
  | .reader => { cl with reader := cl.reader.map fun rdr => { rdr with filterCaidtab := filter } }

def FilterClient.table (cl : FilterClient) : Place → Option Cecspvaluetab
  | .account => cl.account.map (·.filterCaidtab)
  | .reader => cl.reader.map (·.filterCaidtab)

def ccFilterIn (cl : FilterClient) (buf : ℕ → Byte) : FilterClient :=
  match ccFilterPlace cl with
  | some place => cl.store (readFilter 30 0 buf) place
  | none => cl

/-- `camd35_cacheex_push_filter`. -/
def camd35PushFilter (cl : FilterClient) (buf : ℕ → Byte) (mode : ℕ) : FilterClient :=
  match camd35FilterPlace cl mode with
  | some place => cl.store (readFilter 15 20 buf) place
  | none => cl

section Columns

variable {f : CecspvaluetabData → BitVec 32} {filter : Cecspvaluetab} {n i j o : ℕ} {buf : ℕ → Byte}

theorem putColumn_succ : putColumn f filter (n + 1) i buf =
    match filter[n]? with
    | some d => i2bBuf 4 (f d) (putColumn f filter n i buf) (i + 4 * n)
    | none => putColumn f filter n i buf := by
  unfold putColumn
  rw [List.range_succ, List.foldl_append]
  rfl

theorem putColumn_outside (h : o + 4 ≤ i ∨ i + 4 * n ≤ o) :
    b2i 4 (putColumn f filter n i buf) o = b2i 4 buf o := by
  induction n with
  | zero => rfl
  | succ n ih =>
    rw [putColumn_succ]
    cases filter[n]? with
    | none => exact ih (by omega)
    | some d =>
      dsimp only
      rw [i2bBuf, b2i_four_put, ih (by omega)]
      rw [length_i2b_four]
      omega

theorem putColumn_at (h : j < n) : b2i 4 (putColumn f filter n i buf) (i + 4 * j) =
    (filter[j]?).elim (b2i 4 buf (i + 4 * j)) f := by
  induction n with
  | zero => cases h
  | succ n ih =>
    rw [putColumn_succ]
    rcases Nat.lt_or_ge j n with hlt | hge
    · cases filter[n]? with
      | none => exact ih hlt
      | some d =>
        dsimp only
        rw [i2bBuf, b2i_four_put, ih hlt]
        omega
    · obtain rfl : j = n := by omega
      cases filter[j]? with
      | none => exact putColumn_outside (by omega)
      | some d => exact b2i_four_i2bBuf

theorem putColumn_of_lt (h : o < i) : putColumn f filter n i buf o = buf o := by
  unfold putColumn
  apply foldl_cell
  intro buf j _
  cases filter[j]? with
  | none => rfl
  | some d => exact put_of_lt (by omega)

/-- What stands before the table stays. -/
theorem putFilter_of_lt (h : o < i) : putFilter n i filter buf o = buf o := by
  unfold putFilter
  rw [putColumn_of_lt (by omega), putColumn_of_lt (by omega), putColumn_of_lt (by omega),
    putColumn_of_lt (by omega)]
  exact put_of_lt h

/-- The four columns of a written message. -/
theorem putFilter_columns (hzero : ∀ o, i + 2 ≤ o → b2i 4 buf o = 0) (hj : j < n) :
    b2i 4 (putFilter n i filter buf) (i + 2 + 4 * j) = (filter[j]?).elim 0 (·.caid) ∧
    b2i 4 (putFilter n i filter buf) (i + 2 + 4 * n + 4 * j) = (filter[j]?).elim 0 (·.cmask) ∧
    b2i 4 (putFilter n i filter buf) (i + 2 + 8 * n + 4 * j) = (filter[j]?).elim 0 (·.prid) ∧
    b2i 4 (putFilter n i filter buf) (i + 2 + 12 * n + 4 * j) = (filter[j]?).elim 0 (·.srvid) := by
  have hbuf : ∀ o, i + 2 ≤ o → b2i 4 (i2bBuf 2 (.ofNat 32 filter.length) buf i) o = 0 := by
    intro o ho
    rw [i2bBuf, b2i_four_put (Or.inr ho), hzero o ho]
  unfold putFilter
  dsimp only
  constructor
  · rw [putColumn_outside (by omega), putColumn_outside (by omega), putColumn_outside (by omega),
      putColumn_at hj, hbuf _ (by omega)]
  constructor
  · rw [putColumn_outside (by omega), putColumn_outside (by omega), putColumn_at hj,
      putColumn_outside (by omega), hbuf _ (by omega)]
  constructor
  · rw [putColumn_outside (by omega), putColumn_at hj, putColumn_outside (by omega),
      putColumn_outside (by omega), hbuf _ (by omega)]
  · rw [putColumn_at hj, putColumn_outside (by omega), putColumn_outside (by omega),
      putColumn_outside (by omega), hbuf _ (by omega)]

theorem readColumn_getElem? (set : CecspvaluetabData → BitVec 32 → CecspvaluetabData) (k : ℕ) :
    (readColumn set n i buf filter)[k]? =
      (filter[k]?).map fun d => if k < n then set d (b2i 4 buf (i + 4 * k)) else d := by
  induction n with
  | zero => simp [readColumn]
  | succ n ih =>
    unfold readColumn at ih ⊢
    rw [List.range_succ, List.foldl_append, List.foldl_cons, List.foldl_nil, List.getElem?_modify, ih]
    cases filter[k]? with
    | none => rfl
    | some d =>
      simp only [Option.map_some, Option.map_eq_map, Option.some.injEq]
      by_cases hk : n = k
      · subst hk
        rw [if_pos rfl, if_neg (Nat.lt_irrefl n), if_pos (Nat.lt_succ_self n)]
      · have hiff : k < n + 1 ↔ k < n := by omega
        simp [hk, hiff]

theorem length_readColumn (set : CecspvaluetabData → BitVec 32 → CecspvaluetabData) :
    (readColumn set n i buf filter).length = filter.length := by
  unfold readColumn
  induction n with
  | zero => rfl
  | succ n ih => rw [List.range_succ, List.foldl_append, List.foldl_cons, List.foldl_nil,
      List.length_modify, ih]

/-- The entries that the caid column of a message gives. -/
theorem readCaids_eq (h : ∀ j < n, b2i 4 buf (i + 4 * j) = (filter[j]?).elim 0 (·.caid)) :
    readCaids n i buf = ((filter.take n).filter fun d => 0 < d.caid.toInt).map
      fun d => ⟨d.caid, 0, 0, 0, 0, 0⟩ := by
  induction n with
  | zero => rfl
  | succ n ih =>
    have hn := h n (Nat.lt_succ_self n)
    unfold readCaids at ih ⊢
    rw [List.range_succ, List.filterMap_append, ih fun j hj => h j (by omega), List.take_add_one,
      List.filter_append, List.map_append]
    congr 1
    simp only [List.filterMap_cons, List.filterMap_nil, hn]
    cases filter[n]? with
    | none => rfl
    | some d =>
      by_cases hpos : 0 < d.caid.toInt
      · simp [hpos]
      · simp [hpos]

end Columns

/-- The fields of an entry that are sent. -/
def row (d : CecspvaluetabData) : BitVec 32 × BitVec 32 × BitVec 32 × BitVec 32 :=
  (d.caid, d.cmask, d.prid, d.srvid)

/-- `tab` restores the first `n` entries of `filter`. -/
def Restores (n : ℕ) (filter tab : Cecspvaluetab) : Prop := tab.map row = (filter.take n).map row

instance (n : ℕ) (filter tab : Cecspvaluetab) : Decidable (Restores n filter tab) :=
  inferInstanceAs (Decidable (_ = _))

section Restored

variable {filter : Cecspvaluetab} {n i : ℕ} {buf : ℕ → Byte}
  (hzero : ∀ o, i + 2 ≤ o → b2i 4 buf o = 0)

include hzero

theorem length_readFilter : (readFilter n i (putFilter n i filter buf)).length =
    ((filter.take n).filter fun d => 0 < d.caid.toInt).length := by
  unfold readFilter
  dsimp only
  rw [length_readColumn, length_readColumn, length_readColumn,
    readCaids_eq fun j hj => (putFilter_columns hzero hj).1, List.length_map]

/-- A message restores its table exactly if no entry in it has a caid below 1. -/
theorem restores_iff : Restores n filter (readFilter n i (putFilter n i filter buf)) ↔
    ∀ d ∈ filter.take n, 0 < d.caid.toInt := by
  constructor
  · intro h d hd
    have hlen := congrArg List.length h
    rw [List.length_map, List.length_map, length_readFilter hzero,
      List.length_filter_eq_length_iff] at hlen
    exact of_decide_eq_true (hlen d hd)
  · intro h
    have hall : ((filter.take n).filter fun d => 0 < d.caid.toInt) = filter.take n :=
      List.filter_eq_self.mpr fun d hd => decide_eq_true (h d hd)
    apply List.ext_getElem?
    intro k
    unfold readFilter
    dsimp only
    rw [readCaids_eq fun j hj => (putFilter_columns hzero hj).1, hall]
    simp only [List.getElem?_map, readColumn_getElem?, Option.map_map]
    rcases Nat.lt_or_ge k n with hk | hk
    · obtain ⟨-, hcmask, hprid, hsrvid⟩ := @putFilter_columns filter _ _ _ _ hzero hk
      rw [List.getElem?_take_of_lt hk, hcmask, hprid, hsrvid]
      cases filter[k]? with
      | none => rfl
      | some d => simp [hk, row]
    · rw [List.getElem?_eq_none (by rw [List.length_take]; omega)]
      rfl

end Restored

section Setting

theorem keepEntry_pos {i : ℕ} {d d' : CecspvaluetabData} (hi : i ≠ 0)
    (h : keepEntry d i = some d') : 0 < d'.caid.toInt := by
  unfold keepEntry at h
  rw [Option.ite_none_right_eq_some] at h
  obtain ⟨hcond, hd⟩ := h
  rw [← Option.some.inj hd]
  rcases hcond with hfirst | hpos
  · exact absurd hfirst.1 hi
  · exact hpos

/-- Behind the first entry of a table from a setting all caids are positive. -/
theorem chk_tail_pos {lbrlt : List Char} {d : CecspvaluetabData}
    (h : d ∈ (chkCacheexValuetab lbrlt).tail) : 0 < d.caid.toInt := by
  unfold chkCacheexValuetab at h
  cases htok : strtok ',' lbrlt with
  | nil => simp [htok] at h
  | cons token tokens =>
    have hrest : d ∈ (tokens.zipIdx 1).filterMap fun (ptr, i) =>
        keepEntry (parseEntry ptr) i := by
      rw [htok, List.zipIdx_cons, List.filterMap_cons] at h
      cases hfirst : keepEntry (parseEntry token) 0 with
      | none =>
        simp only [hfirst] at h
        exact List.mem_of_mem_tail h
      | some first =>
        simp only [hfirst] at h
        exact h
    obtain ⟨⟨ptr, i⟩, hmem, hd⟩ := List.mem_filterMap.mp hrest
    have hi : 1 ≤ i := (List.mem_zipIdx hmem).1
    exact keepEntry_pos (by omega) hd

/-- The first entry, if there is one, has a positive caid. -/
def FirstCaid (filter : Cecspvaluetab) : Prop := ∀ d ∈ filter.head?, 0 < d.caid.toInt

theorem firstCaid_iff {lbrlt : List Char} {n : ℕ} (hn : 0 < n) :
    (∀ d ∈ (chkCacheexValuetab lbrlt).take n, 0 < d.caid.toInt) ↔
      FirstCaid (chkCacheexValuetab lbrlt) := by
  have htail := fun d => @chk_tail_pos lbrlt d
  obtain ⟨m, rfl⟩ : ∃ m, n = m + 1 := ⟨n - 1, by omega⟩
  cases hchk : chkCacheexValuetab lbrlt with
  | nil => simp [FirstCaid]
  | cons first rest =>
    rw [hchk] at htail
    rw [List.take_succ_cons]
    constructor
    · intro h d hd
      obtain rfl : first = d := by simpa using hd
      exact h first List.mem_cons_self
    · intro h d hd
      rcases List.mem_cons.mp hd with rfl | hd
      · exact h d rfl
      · exact htail d (List.mem_of_mem_take hd)

end Setting

/-- The client has a table at `place` that restores the first `n` entries of `filter`. -/
def Stored (n : ℕ) (filter : Cecspvaluetab) (cl : FilterClient) (place : Place) : Prop :=
  ∃ tab, cl.table place = some tab ∧ Restores n filter tab

section Stored

variable {cfg : Cecspvaluetab} {snd rcv : FilterClient} {buf : ℕ → Byte} {place : Place}
  {filter : Cecspvaluetab}

theorem table_store (h : (rcv.table place).isSome) (tab : Cecspvaluetab) :
    (rcv.store tab place).table place = some tab := by
  cases place with
  | account =>
    obtain ⟨old, hold⟩ := Option.isSome_iff_exists.mp h
    obtain ⟨a, ha, -⟩ := Option.map_eq_some_iff.mp hold
    simp [FilterClient.store, FilterClient.table, ha]
  | reader =>
    obtain ⟨old, hold⟩ := Option.isSome_iff_exists.mp h
    obtain ⟨rdr, hrdr, -⟩ := Option.map_eq_some_iff.mp hold
    simp [FilterClient.store, FilterClient.table, hrdr]

theorem stored_store_iff {n : ℕ} {tab : Cecspvaluetab} (h : (rcv.table place).isSome) :
    Stored n filter (rcv.store tab place) place ↔ Restores n filter tab := by
  unfold Stored
  rw [table_store h]
  constructor
  · intro hex
    obtain ⟨t, ht, hres⟩ := hex
    rw [Option.some.inj ht]
    exact hres
  · intro hres
    exact ⟨tab, rfl, hres⟩

theorem isSome_of_any {α : Type} {o : Option α} {p : α → Bool} (h : o.any p = true) : o.isSome := by
  cases o with
  | none => cases h
  | some a => rfl

theorem ccFilterPlace_isSome (h : ccFilterPlace rcv = some place) : (rcv.table place).isSome := by
  unfold ccFilterPlace at h
  dsimp only at h
  split_ifs at h with hacc htyp hrdr hrdr
  · cases h
    simpa [FilterClient.table] using isSome_of_any hacc.2
  · cases hrdr
  · cases h
    simpa [FilterClient.table] using isSome_of_any hrdr

theorem camd35FilterPlace_isSome {mode : ℕ} (h : camd35FilterPlace rcv mode = some place) :
    (rcv.table place).isSome := by
  unfold camd35FilterPlace at h
  split_ifs at h with hacc hrdr
  · cases h
    simpa [FilterClient.table] using isSome_of_any hacc.2.2
  · cases h
    simpa [FilterClient.table] using isSome_of_any hrdr.2

theorem cc_stored_iff (hsrc : ccFilterSource cfg snd = some filter)
    (hout : ccFilterOut cfg snd = some buf) (hplace : ccFilterPlace rcv = some place) :
    Stored 30 filter (ccFilterIn rcv buf) place ↔ ∀ d ∈ filter.take 30, 0 < d.caid.toInt := by
  rw [ccFilterOut, hsrc] at hout
  cases hout
  unfold ccFilterIn
  rw [hplace]
  dsimp only
  rw [stored_store_iff (ccFilterPlace_isSome hplace)]
  apply restores_iff
  intro o _
  exact b2i_four_zero

theorem camd35_stored_iff {mode mode' : ℕ} (hsrc : camd35FilterSource cfg snd mode = some filter)
    (hout : camd35SendPushFilter cfg snd mode = some buf)
    (hplace : camd35FilterPlace rcv mode' = some place) :
    Stored 15 filter (camd35PushFilter rcv buf mode') place ↔
      ∀ d ∈ filter.take 15, 0 < d.caid.toInt := by
  rw [camd35SendPushFilter, hsrc] at hout
  cases hout
  unfold camd35PushFilter
  rw [hplace]
  dsimp only
  rw [stored_store_iff (camd35FilterPlace_isSome hplace)]
  apply restores_iff
  intro o ho
  rw [b2i_four_put (Or.inr (by simp; omega)), b2i_four_zero]

end Stored

/-- A table from a setting survives the filter messages of both transports exactly if its first entry, if
it has one, has a positive caid. -/
theorem filter_restored_iff (lbrlt : List Char) (cfg : Cecspvaluetab) (snd rcv : FilterClient)
    (buf : ℕ → Byte) (place : Place) :
    (ccFilterSource cfg snd = some (chkCacheexValuetab lbrlt) → ccFilterOut cfg snd = some buf →
      ccFilterPlace rcv = some place →
      (Stored 30 (chkCacheexValuetab lbrlt) (ccFilterIn rcv buf) place ↔
        FirstCaid (chkCacheexValuetab lbrlt))) ∧
    (∀ mode mode' : ℕ, camd35FilterSource cfg snd mode = some (chkCacheexValuetab lbrlt) →
      camd35SendPushFilter cfg snd mode = some buf → camd35FilterPlace rcv mode' = some place →
      (Stored 15 (chkCacheexValuetab lbrlt) (camd35PushFilter rcv buf mode') place ↔
        FirstCaid (chkCacheexValuetab lbrlt))) := by
  constructor
  · intro hsrc hout hplace
    rw [cc_stored_iff hsrc hout hplace, firstCaid_iff (by decide)]
  · intro mode mode' hsrc hout hplace
    rw [camd35_stored_iff hsrc hout hplace, firstCaid_iff (by decide)]

/-- A sender with the table of a setting and a receiver that takes filters. -/
def filterReader (lbrlt : List Char) : FilterClient :=
  ⟨'p', some ⟨2, 0, chkCacheexValuetab lbrlt⟩, none⟩

def filterAccount : FilterClient := ⟨'c', none, some ⟨2, 1, []⟩⟩

/-- `&FFFF@000001,0500@020810`: a first entry for any caid. -/
def anyCaidFirst : List Char :=
  ['&', 'F', 'F', 'F', 'F', '@', '0', '0', '0', '0', '0', '1', ',',
    '0', '5', '0', '0', '@', '0', '2', '0', '8', '1', '0']

def anyCaidTable : Cecspvaluetab :=
  [⟨0, 0xFFFF, 1, -1, -1, -1⟩, ⟨0x500, -1, 0x20810, -1, -1, -1⟩]

theorem chk_anyCaidFirst : chkCacheexValuetab anyCaidFirst = anyCaidTable := by decide

theorem not_stored_of_shorter {n : ℕ} {filter tab : Cecspvaluetab} {cl : FilterClient}
    {place : Place} (htab : cl.table place = some tab) (hlen : tab.length < (filter.take n).length) :
    ¬ Stored n filter cl place := by
  intro h
  obtain ⟨t, ht, hres⟩ := h
  obtain rfl : tab = t := Option.some.inj (htab.symm.trans ht)
  have hlen' := congrArg List.length hres
  rw [List.length_map, List.length_map] at hlen'
  omega

/-- Without a caid the first entry is lost, and its mask and provider go to the second one. -/
theorem filter_shifted :
    ∃ cc camd35, ccFilterOut [] (filterReader anyCaidFirst) = some cc ∧
      camd35SendPushFilter [] (filterReader anyCaidFirst) 2 = some camd35 ∧
      (ccFilterIn filterAccount cc).table .account = some [⟨0x500, 0xFFFF, 1, -1, 0, 0⟩] ∧
      (camd35PushFilter filterAccount camd35 2).table .account =
        some [⟨0x500, 0xFFFF, 1, -1, 0, 0⟩] ∧
      ¬ Stored 30 (chkCacheexValuetab anyCaidFirst) (ccFilterIn filterAccount cc) .account ∧
      ¬ Stored 15 (chkCacheexValuetab anyCaidFirst)
        (camd35PushFilter filterAccount camd35 2) .account := by
  have hcc : (ccFilterIn filterAccount (putFilter 30 0 anyCaidTable fun _ => 0)).table .account =
      some [⟨0x500, 0xFFFF, 1, -1, 0, 0⟩] := by decide +kernel
  have hcamd35 : (camd35PushFilter filterAccount
      (putFilter 15 20 anyCaidTable (put (fun _ => 0) 0 [0x3c, 0xf2])) 2).table .account =
      some [⟨0x500, 0xFFFF, 1, -1, 0, 0⟩] := by decide +kernel
  unfold filterReader
  rw [chk_anyCaidFirst]
  exact ⟨_, _, rfl, rfl, hcc, hcamd35, not_stored_of_shorter hcc (by decide),
    not_stored_of_shorter hcamd35 (by decide)⟩

end NCam.Cacheex.Filter
