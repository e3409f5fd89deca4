import NCam.Lib.Slots
import NCam.Lib.Transition

/-! The CA PMT objects of `module-dvbapi.c`: `dvbapi_parse_capmt` gives each program of a list a demuxer, and
stops the demuxers whose programs are not in the list any more. Lists of objects on any number of connections:
which demuxers a connection has when its list is complete. -/
namespace NCam.Capmt

open NCam.Lib

/-- `ca_pmt_list_management`. -/
inductive ListManagement
  | more
  | first
  | last
  | only
  | add
  | update
deriving DecidableEq

inductive Boxtype
  | dreambox
  | duckbox
  | ufs910
  | dbox2
  | ipbox
  | ipboxPmt
  | dm7000
  | qboxhd
  | coolstream
  | neumo
  | pc
  | pcNodmx
  | samygo
deriving DecidableEq

/-- The build and the configuration. -/
structure Setup where
  maxDemux : ℕ
  coolapi : Bool
  boxtype : Boxtype
  pmtmode : ℕ

/-- `demux_parameters_t`, from the private descriptors of the object. -/
structure Params where
  demuxIndex : BitVec 8
  adapterIndex : BitVec 8
  caMask : BitVec 32
  programNumber : BitVec 16
  pmtpid : BitVec 16
  onid : BitVec 16
  tsid : BitVec 16
  ens : BitVec 32
deriving DecidableEq

/-- The part of `demux_s` that says which program it is for. `demux_index` and `adapter_index` are signed
here. -/
structure Demux where
  params : Params
  socketFd : ℤ
  stopDescrambling : Bool
deriving DecidableEq

/-- After `memset`. -/
def Demux.empty : Demux := ⟨⟨0, 0, 0, 0, 0, 0, 0, 0⟩, 0, false⟩

def Demux.occupied (d : Demux) : Bool := d.params.programNumber ≠ 0

variable (box : Setup)

/-- The demuxer index of an IPBOX is the position. -/
def Params.at (p : Params) (i : ℕ) : Params :=
  if box.boxtype = .ipboxPmt then { p with demuxIndex := .ofNat 8 i } else p

def fullCheck : Bool := !(box.coolapi || box.boxtype = .samygo)

/-- The same hardware and transponder. -/
def Demux.sameParams (d : Demux) (p : Params) : Bool :=
  d.params.demuxIndex.toInt = p.demuxIndex.toNat ∧ d.params.caMask = p.caMask ∧
    d.params.adapterIndex.toInt = p.adapterIndex.toNat ∧ d.params.pmtpid = p.pmtpid ∧
    d.params.ens = p.ens ∧ d.params.tsid = p.tsid ∧ d.params.onid = p.onid

/-- The demuxer is found for the object. -/
def Demux.matched (d : Demux) (connfd : ℤ) (p : Params) : Bool :=
  d.occupied &&
    if fullCheck box then
      (connfd > 0 ∧ d.socketFd = connfd) && d.params.programNumber = p.programNumber && d.sameParams p
    else connfd > 0 && d.params.programNumber = p.programNumber

def markList (connfd : ℤ) (demux : ℕ → Demux) : ℕ → Demux := fun i =>
  let d := demux i
  if i < box.maxDemux ∧ d.occupied = true ∧ d.socketFd = connfd then { d with stopDescrambling := true } else d

/-- The first demuxer for the object. -/
def findDemux (connfd : ℤ) (p : Params) (demux : ℕ → Demux) : Option ℕ :=
  (List.range box.maxDemux).find? fun i => (demux i).matched box connfd (p.at box i)

/-- The loop over `dvbapi_stop_descrambling`. -/
def Demux.marked (d : Demux) : Bool := d.occupied && d.stopDescrambling

def stopMarked (demux : ℕ → Demux) : ℕ → Demux := fun i =>
  if i < box.maxDemux ∧ (demux i).marked = true then .empty else demux i

/-- What the list management says about the marks. -/
def ListManagement.marks (m : ListManagement) : Bool := m = .first ∨ m = .only

def ListManagement.stops (m : ListManagement) : Bool := m ≠ .first ∧ m ≠ .more

/-- The demuxers, those that have been stopped, and the result. -/
structure Outcome where
  demux : ℕ → Demux
  stopped : List Demux
  demuxId : Option ℕ

def stopList (demux : ℕ → Demux) : List Demux := ((List.range box.maxDemux).map demux).filter Demux.marked

/-- The demuxer of a new program. -/
def Params.demux (p : Params) (connfd : ℤ) (i : ℕ) : Demux :=
  { params := if box.boxtype = .ipboxPmt then { p with caMask := .ofNat 32 (i + 1), demuxIndex := .ofNat 8 i }
      else p
    socketFd := connfd
    stopDescrambling := false }

/-- After `dvbapi_parse_pmt_info`: the program is stopped unless the object asks for descrambling. -/
def Outcome.command (r : Outcome) (okDescrambling : Bool) (i : ℕ) : Outcome :=
  if okDescrambling then { r with demuxId := some i }
  else ⟨Function.update r.demux i .empty, r.stopped ++ [r.demux i], none⟩

/-- The search, the marks and the loop that stops. -/
def dvbapiParseCapmt (m : ListManagement) (okDescrambling : Bool) (connfd : ℤ) (p : Params)
    (demux : ℕ → Demux) : Outcome :=
  let m := if box.coolapi then .only else m
  let demux := if m.marks then markList box connfd demux else demux
  let found := findDemux box connfd p demux
  let demux :=
    match found with
    | some i => Function.update demux i { demux i with stopDescrambling := false }
    | none => demux
  let r : Outcome := if m.stops then ⟨stopMarked box demux, stopList box demux, found⟩ else ⟨demux, [], found⟩
  match found with
  | some i =>
    if m = .update ∨ m = .add ∨ (box.pmtmode ≠ 6 ∧ m = .only) then r.command okDescrambling i else r
  | none =>
    if m = .update then r
    else
      match Slots.firstWhere (fun d => !d.occupied) r.demux box.maxDemux with
      | some i => { r with demux := Function.update r.demux i (p.demux box connfd i) }.command okDescrambling i
      | none => r

/-- The latest list of a connection so far, the one before, and the programs whose demuxers have been
stopped since the latest began. -/
structure Conn where
  previous : List Params
  latest : List Params
  inList : Bool
  stopped : List Params

/-- An object of a list, which asks for descrambling. -/
structure Object where
  management : ListManagement
  connfd : ℤ
  program : Params
deriving DecidableEq

/-- `fds`: the connections so far; `foreign` is set when an object stops a demuxer of another connection. -/
structure Server where
  demux : ℕ → Demux
  conns : ℤ → Conn
  fds : List ℤ
  foreign : Bool

/-- A complete list is ONLY, or FIRST, any number of MORE, and LAST; its programs are distinct. -/
def Conn.next (c : Conn) (m : ListManagement) (p : Params) : Option Conn :=
  match m with
  | .first | .only => if c.inList then none else some ⟨c.latest, [p], !m.stops, []⟩
  | .more | .last =>
    if c.inList ∧ p ∉ c.latest then some { c with latest := c.latest ++ [p], inList := !m.stops } else none
  | .add | .update => none

variable (box : Setup)

def Demux.holds (d : Demux) (connfd : ℤ) : Prop := d.occupied = true ∧ d.socketFd = connfd

/-- The programs of a connection among the stopped demuxers. -/
def stoppedOf (stopped : List Demux) (connfd : ℤ) : List Params :=
  (stopped.filter fun d => d.socketFd = connfd).map Demux.params

def Server.step (s : Server) (e : Object) : Option Server :=
  ((s.conns e.connfd).next e.management e.program).map fun c =>
    let r := dvbapiParseCapmt box e.management true e.connfd e.program s.demux
    { demux := r.demux
      conns := fun fd =>
        let c := Function.update s.conns e.connfd c fd
        { c with stopped := c.stopped ++ stoppedOf r.stopped fd }
      fds := if e.connfd ∈ s.fds then s.fds else e.connfd :: s.fds
      foreign := s.foreign || r.stopped.any fun d => d.socketFd ≠ e.connfd }

def capmt : System Server Object where
  init s := s = ⟨fun _ => .empty, fun _ => ⟨[], [], false, []⟩, [], false⟩
  next s e := s.step box e

/-- The programs in the latest lists of all connections. -/
def Server.total (s : Server) : ℕ := (s.fds.map fun fd => (s.conns fd).latest.length).sum

/-- The latest lists have at most as many programs as there are demuxers. -/
def Server.Fits (s : Server) (e : Object) : Prop := ∀ t ∈ s.step box e, t.total ≤ box.maxDemux

/-- The demuxers of a connection are those of the programs of its list, one for each, and no program of the
list before that is in the list again has been stopped. -/
structure Server.Exact (s : Server) (connfd : ℤ) : Prop where
  only : ∀ i < box.maxDemux, (s.demux i).holds connfd → (s.demux i).params ∈ (s.conns connfd).latest
  one : ∀ p ∈ (s.conns connfd).latest, ∃! i, i < box.maxDemux ∧ (s.demux i).holds connfd ∧ (s.demux i).params = p
  kept : ∀ p ∈ (s.conns connfd).previous, p ∈ (s.conns connfd).latest → p ∉ (s.conns connfd).stopped

instance (d : Demux) (connfd : ℤ) : Decidable (d.holds connfd) := inferInstanceAs (Decidable (_ ∧ _))

/-- A demuxer of the connection has the program. -/
def Server.Has (s : Server) (connfd : ℤ) (p : Params) : Prop :=
  ∃ i < box.maxDemux, (s.demux i).holds connfd ∧ (s.demux i).params = p

/-- The demuxer is free, or will be before the object needs it. -/
def Demux.FreeFor (d : Demux) (e : Object) : Prop :=
  d.occupied = false ∨ e.management.stops = true ∧ d.holds e.connfd ∧
    (d.stopDescrambling = true ∨ e.management = .only)

/-- An object with a program number, whose program has no demuxer yet or one that is found again; there is
room for it, and if it is the last one of its list then no other connection has marked demuxers. -/
structure Server.Kept (s : Server) (e : Object) : Prop where
  number : e.program.programNumber ≠ 0
  found : s.Has box e.connfd e.program →
    0 < e.connfd ∧ e.program.demuxIndex.toNat < 128 ∧ e.program.adapterIndex.toNat < 128
  room : s.Has box e.connfd e.program ∨ ∃ i < box.maxDemux, (s.demux i).FreeFor e
  alone : e.management.stops = true → ∀ i < box.maxDemux, (s.demux i).marked = true →
    (s.demux i).socketFd = e.connfd

section Phases

variable {demux : ℕ → Demux} {fd : ℤ} {c : Conn} {i : ℕ} {p : Params}

/-- The demuxers of a connection in the middle of its list or behind it. -/
structure Served (n : ℕ) (demux : ℕ → Demux) (fd : ℤ) (c : Conn) : Prop where
  marked : ∀ i < n, (demux i).holds fd → (demux i).stopDescrambling = true →
    c.inList = true ∧ (demux i).params ∉ c.latest
  unmarked : ∀ i < n, (demux i).holds fd → (demux i).stopDescrambling = false → (demux i).params ∈ c.latest
  exist : ∀ p ∈ c.latest, ∃ i < n, (demux i).holds fd ∧ (demux i).params = p
  inj : ∀ i < n, ∀ j < n, (demux i).holds fd → (demux j).holds fd → (demux i).params = (demux j).params → i = j
  fresh : c.inList = true → c.stopped = []
  stopped : ∀ p ∈ c.latest, p ∉ c.stopped

/-- Only the demuxers of the connection matter. -/
theorem Served.congr {n : ℕ} {demux' : ℕ → Demux} (h : Served n demux fd c)
    (hsame : ∀ i < n, (demux i).holds fd ∨ (demux' i).holds fd → demux' i = demux i) : Served n demux' fd c := by
  have hback : ∀ i < n, (demux' i).holds fd → demux' i = demux i := fun i hi hh => hsame i hi (Or.inr hh)
  have hheld : ∀ i < n, (demux' i).holds fd → (demux i).holds fd := fun i hi hh => hback i hi hh ▸ hh
  refine ⟨fun i hi hh hm => ?_, fun i hi hh hm => ?_, fun p hp => ?_, fun i hi j hj hhi hhj hij => ?_, h.fresh,
    h.stopped⟩
  · rw [hback i hi hh] at hm ⊢
    exact h.marked i hi (hheld i hi hh) hm
  · rw [hback i hi hh] at hm ⊢
    exact h.unmarked i hi (hheld i hi hh) hm
  · obtain ⟨i, hi, hh, hparams⟩ := h.exist p hp
    have heq := hsame i hi (Or.inl hh)
    exact ⟨i, hi, heq ▸ hh, heq ▸ hparams⟩
  · rw [hback i hi hhi, hback j hj hhj] at hij
    exact h.inj i hi j hj (hheld i hi hhi) (hheld j hj hhj) hij

theorem markList_holds {fd' : ℤ} : (markList box fd demux i).holds fd' ↔ (demux i).holds fd' := by
  unfold markList
  dsimp only
  split_ifs <;> exact Iff.rfl

theorem markList_params : (markList box fd demux i).params = (demux i).params := by
  unfold markList
  dsimp only
  split_ifs <;> rfl

theorem markList_of_ne {fd' : ℤ} (h : (demux i).holds fd') (hne : fd' ≠ fd) :
    markList box fd demux i = demux i := by
  unfold markList
  dsimp only
  rw [if_neg]
  rintro ⟨-, -, hfd⟩
  exact hne (h.2.symm.trans hfd)

theorem markList_of_holds (hi : i < box.maxDemux) (h : (demux i).holds fd) :
    (markList box fd demux i).stopDescrambling = true := by
  unfold markList
  dsimp only
  rw [if_pos ⟨hi, h⟩]

/-- A new list marks all demuxers of the connection. -/
theorem Served.markList (h : Served box.maxDemux demux fd c) :
    Served box.maxDemux (markList box fd demux) fd ⟨c.latest, [], true, []⟩ := by
  refine ⟨fun i _ _ _ => ⟨rfl, List.not_mem_nil⟩, fun i hi hh hm => ?_, fun p hp => ?_,
    fun i hi j hj hhi hhj hij => ?_, fun _ => rfl, fun p hp => ?_⟩
  · rw [markList_of_holds box hi ((markList_holds box).mp hh)] at hm
    cases hm
  · cases hp
  · rw [markList_params, markList_params] at hij
    exact h.inj i hi j hj ((markList_holds box).mp hhi) ((markList_holds box).mp hhj) hij
  · cases hp

/-- An object whose program has a demuxer takes the mark back. -/
theorem Served.unmark {n : ℕ} (h : Served n demux fd c) (hopen : c.inList = true) (hi : i < n)
    (hh : (demux i).holds fd) (hp : (demux i).params = p) :
    Served n (Function.update demux i { demux i with stopDescrambling := false }) fd
      { c with latest := c.latest ++ [p] } := by
  have hparams : ∀ j, (Function.update demux i { demux i with stopDescrambling := false } j).params =
      (demux j).params := by
    intro j
    by_cases hj : j = i
    · rw [hj, Function.update_self]
    · rw [Function.update_of_ne hj]
  have hholds : ∀ j, (Function.update demux i { demux i with stopDescrambling := false } j).holds fd ↔
      (demux j).holds fd := by
    intro j
    by_cases hj : j = i
    · rw [hj, Function.update_self]
      exact Iff.rfl
    · rw [Function.update_of_ne hj]
  refine ⟨fun j hj hhj hm => ⟨hopen, ?_⟩, fun j hj hhj hm => ?_, fun q hq => ?_, fun j hj k hk hhj hhk hjk => ?_,
    h.fresh, fun q hq => ?_⟩
  · have hji : j ≠ i := by
      rintro rfl
      rw [Function.update_self] at hm
      cases hm
    rw [Function.update_of_ne hji] at hhj hm ⊢
    rw [List.mem_append, List.mem_singleton]
    rintro (hmem | hjp)
    · exact (h.marked j hj hhj hm).2 hmem
    · exact hji (h.inj j hj i hi hhj hh (hjp.trans hp.symm))
  · rw [hparams, List.mem_append, List.mem_singleton]
    by_cases hji : j = i
    · rw [hji]
      exact Or.inr hp
    · rw [Function.update_of_ne hji] at hhj hm
      exact Or.inl (h.unmarked j hj hhj hm)
  · rw [List.mem_append, List.mem_singleton] at hq
    rcases hq with hq | rfl
    · obtain ⟨j, hj, hhj, hjq⟩ := h.exist q hq
      exact ⟨j, hj, (hholds j).mpr hhj, (hparams j).trans hjq⟩
    · exact ⟨i, hi, (hholds i).mpr hh, (hparams i).trans hp⟩
  · rw [hparams, hparams] at hjk
    exact h.inj j hj k hk ((hholds j).mp hhj) ((hholds k).mp hhk) hjk
  · change q ∉ c.stopped
    rw [h.fresh hopen]
    exact List.not_mem_nil

theorem stopMarked_holds {fd' : ℤ} (hi : i < box.maxDemux) :
    (stopMarked box demux i).holds fd' ↔ (demux i).holds fd' ∧ (demux i).stopDescrambling = false := by
  unfold stopMarked
  by_cases hm : (demux i).marked = true
  · rw [if_pos ⟨hi, hm⟩]
    refine iff_of_false (fun hh => ?_) fun hh => ?_
    · cases hh.1
    · have hstop := (Bool.and_eq_true_iff.mp hm).2
      rw [hh.2] at hstop
      cases hstop
  · rw [if_neg fun hh => hm hh.2]
    refine ⟨fun hh => ⟨hh, ?_⟩, And.left⟩
    cases hstop : (demux i).stopDescrambling with
    | false => rfl
    | true => exact absurd (Bool.and_eq_true_iff.mpr ⟨hh.1, hstop⟩) hm

theorem stopMarked_of_holds {fd' : ℤ} (hh : (stopMarked box demux i).holds fd') :
    stopMarked box demux i = demux i := by
  unfold stopMarked at hh ⊢
  split_ifs at hh ⊢ with hm
  · cases hh.1
  · rfl

theorem mem_stopList {d : Demux} :
    d ∈ stopList box demux ↔ ∃ i < box.maxDemux, demux i = d ∧ d.marked = true := by
  unfold stopList
  rw [List.mem_filter, List.mem_map]
  constructor
  · rintro ⟨⟨i, hi, rfl⟩, hm⟩
    exact ⟨i, List.mem_range.mp hi, rfl, hm⟩
  · rintro ⟨i, hi, rfl, hm⟩
    exact ⟨⟨i, List.mem_range.mpr hi, rfl⟩, hm⟩

theorem mem_stoppedOf : p ∈ stoppedOf (stopList box demux) fd ↔
    ∃ i < box.maxDemux, (demux i).holds fd ∧ (demux i).stopDescrambling = true ∧ (demux i).params = p := by
  unfold stoppedOf
  rw [List.mem_map]
  constructor
  · rintro ⟨d, hd, rfl⟩
    obtain ⟨hmem, hfd⟩ := List.mem_filter.mp hd
    obtain ⟨i, hi, rfl, hm⟩ := (mem_stopList box).mp hmem
    obtain ⟨hoccupied, hstop⟩ := Bool.and_eq_true_iff.mp hm
    exact ⟨i, hi, ⟨hoccupied, of_decide_eq_true hfd⟩, hstop, rfl⟩
  · rintro ⟨i, hi, hh, hstop, rfl⟩
    refine ⟨demux i, List.mem_filter.mpr ⟨(mem_stopList box).mpr ⟨i, hi, rfl, ?_⟩, decide_eq_true hh.2⟩, rfl⟩
    exact Bool.and_eq_true_iff.mpr ⟨hh.1, hstop⟩

/-- The last object stops the demuxers that are still marked. -/
theorem Served.stop (h : Served box.maxDemux demux fd c) :
    Served box.maxDemux (stopMarked box demux) fd
      { c with inList := false, stopped := c.stopped ++ stoppedOf (stopList box demux) fd } := by
  refine ⟨fun i hi hh hm => ?_, fun i hi hh hm => ?_, fun p hp => ?_, fun i hi j hj hhi hhj hij => ?_,
    fun hin => ?_, fun p hp hmem => ?_⟩
  · obtain ⟨-, hstop⟩ := (stopMarked_holds box hi).mp hh
    rw [stopMarked_of_holds box hh, hstop] at hm
    cases hm
  · obtain ⟨hhold, hstop⟩ := (stopMarked_holds box hi).mp hh
    rw [stopMarked_of_holds box hh]
    exact h.unmarked i hi hhold hstop
  · obtain ⟨i, hi, hh, rfl⟩ := h.exist p hp
    have hstop : (demux i).stopDescrambling = false := by
      cases hm : (demux i).stopDescrambling with
      | false => rfl
      | true => exact absurd hp (h.marked i hi hh hm).2
    have hkept := (stopMarked_holds box hi).mpr ⟨hh, hstop⟩
    exact ⟨i, hi, hkept, by rw [stopMarked_of_holds box hkept]⟩
  · rw [stopMarked_of_holds box hhi, stopMarked_of_holds box hhj] at hij
    exact h.inj i hi j hj ((stopMarked_holds box hi).mp hhi).1 ((stopMarked_holds box hj).mp hhj).1 hij
  · cases hin
  · rcases List.mem_append.mp hmem with hold | hnew
    · exact h.stopped p hp hold
    · obtain ⟨i, hi, hh, hstop, rfl⟩ := (mem_stoppedOf box).mp hnew
      exact (h.marked i hi hh hstop).2 hp

/-- An object of a new program takes a free demuxer. -/
theorem Served.put {n : ℕ} {d : Demux} (h : Served n demux fd c) (hi : i < n) (hfree : (demux i).occupied = false)
    (hd : d.holds fd) (hstop : d.stopDescrambling = false)
    (hnew : ∀ j < n, (demux j).holds fd → (demux j).params ≠ d.params) (hstopped : d.params ∉ c.stopped) :
    Served n (Function.update demux i d) fd { c with latest := c.latest ++ [d.params] } := by
  have hne : ∀ j, (demux j).holds fd → j ≠ i := by
    rintro j hj rfl
    rw [hj.1] at hfree
    cases hfree
  refine ⟨fun j hj hhj hm => ?_, fun j hj hhj hm => ?_, fun q hq => ?_, fun j hj k hk hhj hhk hjk => ?_,
    h.fresh, fun q hq => ?_⟩
  · have hji : j ≠ i := by
      rintro rfl
      rw [Function.update_self, hstop] at hm
      cases hm
    rw [Function.update_of_ne hji] at hhj hm ⊢
    refine ⟨(h.marked j hj hhj hm).1, ?_⟩
    rw [List.mem_append, List.mem_singleton]
    rintro (hmem | hjp)
    · exact (h.marked j hj hhj hm).2 hmem
    · exact hnew j hj hhj hjp
  · rw [List.mem_append, List.mem_singleton]
    by_cases hji : j = i
    · rw [hji, Function.update_self]
      exact Or.inr rfl
    · rw [Function.update_of_ne hji] at hhj hm ⊢
      exact Or.inl (h.unmarked j hj hhj hm)
  · rw [List.mem_append, List.mem_singleton] at hq
    rcases hq with hq | rfl
    · obtain ⟨j, hj, hhj, hjq⟩ := h.exist q hq
      have hji := hne j hhj
      refine ⟨j, hj, ?_, ?_⟩
      · rw [Function.update_of_ne hji]
        exact hhj
      · rw [Function.update_of_ne hji]
        exact hjq
    · refine ⟨i, hi, ?_, ?_⟩
      · rw [Function.update_self]
        exact hd
      · rw [Function.update_self]
  · by_cases hji : j = i
    · by_cases hki : k = i
      · exact hji.trans hki.symm
      · rw [hji, Function.update_self, Function.update_of_ne hki] at hjk
        rw [Function.update_of_ne hki] at hhk
        exact absurd hjk.symm (hnew k hk hhk)
    · rw [Function.update_of_ne hji] at hhj hjk
      by_cases hki : k = i
      · rw [hki, Function.update_self] at hjk
        exact absurd hjk (hnew j hj hhj)
      · rw [Function.update_of_ne hki] at hhk hjk
        exact h.inj j hj k hk hhj hhk hjk
  · rcases List.mem_append.mp hq with hold | hlast
    · exact h.stopped q hold
    · rw [List.mem_singleton.mp hlast]
      exact hstopped

end Phases

end NCam.Capmt
