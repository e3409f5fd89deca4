import NCam.Dvbapi.Demuxers

/-! Stopping an ECM filter: the streams that are taken from the list of stream pids, against those that no
other demuxer uses. -/
namespace NCam.Dvbapi

variable (box : Box)

section Trace

variable {demux : ℕ → Demux} {d oldpid n i : ℕ} {idx : BitVec 32} {pid : BitVec 16}

/-- The first `n` slots of the old ECM pid have lost their index. -/
def cleared (demux : ℕ → Demux) (d oldpid n : ℕ) : ℕ → Demux :=
  Function.update demux d { demux d with
    ecmpids := Function.update (demux d).ecmpids oldpid { (demux d).ecmpids oldpid with
      index := fun z => if z < n then INDEX_INVALID else ((demux d).ecmpids oldpid).index z } }

theorem cleared_of_ne {j : ℕ} (h : j ≠ d) : cleared demux d oldpid n j = demux j :=
  Function.update_of_ne h _ _

theorem cleared_caMask : (cleared demux d oldpid n d).caMask = (demux d).caMask := by
  unfold cleared
  rw [Function.update_self]

theorem cleared_streampids : (cleared demux d oldpid n d).streampids = (demux d).streampids := by
  unfold cleared
  rw [Function.update_self]

theorem cleared_pidindex : (cleared demux d oldpid n d).pidindex = (demux d).pidindex := by
  unfold cleared
  rw [Function.update_self]

theorem cleared_uses {p : ℕ} : ((cleared demux d oldpid n d).ecmpids p).uses i =
    ((demux d).ecmpids p).uses i := by
  unfold cleared
  rw [Function.update_self]
  dsimp only
  by_cases hp : p = oldpid
  · rw [hp, Function.update_self]
    rfl
  · rw [Function.update_of_ne hp]

theorem cleared_index {z : ℕ} (hz : n ≤ z) : ((cleared demux d oldpid n d).ecmpids oldpid).index z =
    ((demux d).ecmpids oldpid).index z := by
  unfold cleared
  rw [Function.update_self]
  dsimp only
  rw [Function.update_self]
  exact if_neg (Nat.not_lt.mpr hz)

theorem cleared_zero : cleared demux d oldpid 0 = demux := by
  unfold cleared
  have hindex : (fun z => if z < 0 then INDEX_INVALID else ((demux d).ecmpids oldpid).index z) =
      ((demux d).ecmpids oldpid).index := funext fun z => if_neg (Nat.not_lt_zero z)
  rw [hindex, Function.update_eq_self, Function.update_eq_self]

theorem setIndex_cleared {s : State} (h : s.demux = cleared demux d oldpid n) :
    (s.setIndex d oldpid n INDEX_INVALID).demux = cleared demux d oldpid (n + 1) := by
  unfold State.setIndex
  dsimp only
  rw [h]
  unfold cleared
  rw [Function.update_self, Function.update_idem]
  dsimp only
  rw [Function.update_self, Function.update_idem]
  dsimp only
  congr 4
  funext z
  by_cases hz : z = n
  · rw [hz, Function.update_self, if_pos (Nat.lt_succ_self n)]
  · rw [Function.update_of_ne hz]
    by_cases hlt : z < n
    · rw [if_pos hlt, if_pos (Nat.lt_succ_of_lt hlt)]
    · rw [if_neg hlt, if_neg (by omega)]

/-- The lost indices do not matter for the streams that are stopped. -/
theorem stopDevice_cleared : stopDevice box (cleared demux d oldpid n) d oldpid idx i pid =
    stopDevice box demux d oldpid idx i pid := by
  have hmatch : matchingStream box (cleared demux d oldpid n) d pid idx =
      matchingStream box demux d pid idx := by
    unfold matchingStream
    congr 1
    funext j
    by_cases hj : d = j
    · rw [if_pos (Or.inr (Or.inl hj)), if_pos (Or.inr (Or.inl hj))]
    · rw [cleared_of_ne (Ne.symm hj), cleared_caMask]
  unfold stopDevice
  dsimp only
  rw [hmatch, cleared_uses, cleared_pidindex, cleared_caMask]
  simp only [cleared_uses]

theorem remove_demux {s : State} {ca : ℕ} : (s.remove box ca pid idx).demux = s.demux := by
  unfold State.remove
  dsimp only
  split_ifs
  · split <;> rfl
  · rfl

/-- The removals for one slot. -/
def slotRemovals (demux : ℕ → Demux) (d oldpid z : ℕ) : List Removal :=
  let idx := ((demux d).ecmpids oldpid).index z
  if idx ≠ INDEX_INVALID then
    (demux d).streampids.zipIdx.filterMap fun stream =>
      (stopDevice box demux d oldpid idx stream.2 stream.1).map fun ca => ⟨z, stream.2, ca⟩
  else []

theorem foldl_stopStream {s : State} {z : ℕ} {calls : List Removal} (streams : List (BitVec 16 × ℕ))
    (h : s.demux = cleared demux d oldpid n) :
    (streams.foldl (stopStream box d oldpid z idx) (s, calls)).1.demux = cleared demux d oldpid n ∧
      (streams.foldl (stopStream box d oldpid z idx) (s, calls)).2 =
        calls ++ streams.filterMap fun stream =>
          (stopDevice box demux d oldpid idx stream.2 stream.1).map fun ca => ⟨z, stream.2, ca⟩ := by
  induction streams generalizing s calls with
  | nil => exact ⟨h, (List.append_nil calls).symm⟩
  | cons stream streams ih =>
    rw [List.foldl_cons]
    unfold stopStream
    dsimp only
    rw [h, stopDevice_cleared]
    cases hstop : stopDevice box demux d oldpid idx stream.2 stream.1 with
    | none =>
      dsimp only
      rw [List.filterMap_cons_none (by rw [hstop]; rfl)]
      exact ih h
    | some ca =>
      dsimp only
      obtain ⟨hdemux, hcalls⟩ := @ih (s.remove box ca stream.1 idx) (calls ++ [⟨z, stream.2, ca⟩])
        (by rw [remove_demux, h])
      refine ⟨hdemux, ?_⟩
      rw [List.filterMap_cons_some (b := ⟨z, stream.2, ca⟩) (by rw [hstop]; rfl)]
      rw [List.append_assoc] at hcalls
      exact hcalls

theorem foldl_stopIndex {s : State} :
    ((List.range n).foldl (stopIndex box d oldpid) (s, [])).1.demux = cleared s.demux d oldpid n ∧
      ((List.range n).foldl (stopIndex box d oldpid) (s, [])).2 =
        (List.range n).flatMap (slotRemovals box s.demux d oldpid) := by
  induction n with
  | zero => exact ⟨cleared_zero.symm, rfl⟩
  | succ n ih =>
    obtain ⟨hdemux, hcalls⟩ := ih
    rw [List.range_succ, List.foldl_append, List.flatMap_append, List.flatMap_singleton, List.foldl_cons,
      List.foldl_nil]
    generalize (List.range n).foldl (stopIndex box d oldpid) (s, []) = r at hdemux hcalls
    have hset := setIndex_cleared hdemux
    have hindex : ((r.1.demux d).ecmpids oldpid).index n = ((s.demux d).ecmpids oldpid).index n := by
      rw [hdemux, cleared_index (Nat.le_refl n)]
    unfold stopIndex
    dsimp only
    rw [hindex]
    by_cases hvalid : ((s.demux d).ecmpids oldpid).index n ≠ INDEX_INVALID
    · have hslot : slotRemovals box s.demux d oldpid n = _ := if_pos hvalid
      have hstreams : ((r.1.setIndex d oldpid n INDEX_INVALID).demux d).streampids =
          (s.demux d).streampids := by
        rw [hset, cleared_streampids]
      rw [if_pos hvalid, hstreams, hslot, ← hcalls]
      exact foldl_stopStream box _ hset
    · have hslot : slotRemovals box s.demux d oldpid n = [] := if_neg hvalid
      rw [if_neg hvalid, hslot, List.append_nil]
      exact ⟨hset, hcalls⟩

end Trace

section Streams

variable {s : State} {demux : ℕ → Demux} {d num oldpid z i ca : ℕ} {idx : BitVec 32} {pid : BitVec 16}

/-- The removals of a stopped ECM filter are those of the slots of its ECM pid. -/
theorem mem_stopFilternum (hkind : ((s.demux d).demuxFd num).kind = .ecm) :
    ⟨z, i, ca⟩ ∈ (stopFilternum box s d num).2 ↔ z < box.maxStreamIndices ∧
      ((s.demux d).ecmpids ((s.demux d).demuxFd num).pidindex).index z ≠ INDEX_INVALID ∧
        ∃ pid, (s.demux d).streampids[i]? = some pid ∧
          stopDevice box s.demux d ((s.demux d).demuxFd num).pidindex
            (((s.demux d).ecmpids ((s.demux d).demuxFd num).pidindex).index z) i pid = some ca := by
  have hcalls : (stopFilternum box s d num).2 = (List.range box.maxStreamIndices).flatMap
      (slotRemovals box s.demux d ((s.demux d).demuxFd num).pidindex) := by
    unfold stopFilternum
    dsimp only
    rw [if_pos hkind]
    exact (foldl_stopIndex box).2
  rw [hcalls, List.mem_flatMap]
  constructor
  · rintro ⟨z', hz', hmem⟩
    unfold slotRemovals at hmem
    dsimp only at hmem
    split_ifs at hmem with hvalid
    · obtain ⟨⟨pid, k⟩, hstream, hstop⟩ := List.mem_filterMap.mp hmem
      obtain ⟨ca', hca, heq⟩ := Option.map_eq_some_iff.mp hstop
      cases heq
      exact ⟨List.mem_range.mp hz', hvalid, pid, List.mem_zipIdx_iff_getElem?.mp hstream, hca⟩
    · cases hmem
  · rintro ⟨hz, hvalid, pid, hstream, hstop⟩
    refine ⟨z, List.mem_range.mpr hz, ?_⟩
    unfold slotRemovals
    dsimp only
    rw [if_pos hvalid, List.mem_filterMap]
    exact ⟨(pid, i), List.mem_zipIdx_iff_getElem?.mpr hstream, by rw [hstop]; rfl⟩

/-- Another demuxer that is descrambling on the same CA devices with the index. -/
def Sharing (demux : ℕ → Demux) (d : ℕ) (idx : BitVec 32) (j p : ℕ) : Prop :=
  j < box.maxDemux ∧ (demux j).programNumber ≠ 0 ∧ j ≠ d ∧ (demux j).caMask = (demux d).caMask ∧
    (demux j).pidindex = some p ∧ ∃ y < box.maxStreamIndices, ((demux j).ecmpids p).index y = idx

/-- It has the pid among the streams of its current ECM pid. -/
def UsedElsewhere (demux : ℕ → Demux) (d : ℕ) (idx : BitVec 32) (pid : BitVec 16) : Prop :=
  ∃ j p, Sharing box demux d idx j p ∧
    ∃ k, (demux j).streampids[k]? = some pid ∧ ((demux j).ecmpids p).uses k = true

/-- It has another stream, or the pid without using it. -/
def OtherStream (demux : ℕ → Demux) (d : ℕ) (idx : BitVec 32) (pid : BitVec 16) : Prop :=
  ∃ j p, Sharing box demux d idx j p ∧
    ∃ k streampid, (demux j).streampids[k]? = some streampid ∧
      ¬ (((demux j).ecmpids p).uses k = true ∧ streampid = pid)

theorem matchingStream_iff : matchingStream box demux d pid idx = true ↔ OtherStream box demux d idx pid := by
  unfold matchingStream
  rw [List.any_eq_true]
  constructor
  · rintro ⟨j, hj, hmatch⟩
    split_ifs at hmatch with hskip
    · obtain ⟨hrunning, hother, hmask⟩ := not_or.mp hskip |>.imp_right not_or.mp
      cases hp : (demux j).pidindex with
      | none =>
        rw [hp] at hmatch
        cases hmatch
      | some p =>
        rw [hp] at hmatch
        obtain ⟨y, hy, hstreams⟩ := List.any_eq_true.mp hmatch
        obtain ⟨hidx, hany⟩ := Bool.and_eq_true_iff.mp hstreams
        obtain ⟨⟨streampid, k⟩, hk, hno⟩ := List.any_eq_true.mp hany
        refine ⟨j, p, ⟨List.mem_range.mp hj, hrunning, Ne.symm hother, not_not.mp hmask, hp, y,
          List.mem_range.mp hy, of_decide_eq_true hidx⟩, k, streampid,
          List.mem_zipIdx_iff_getElem?.mp hk, fun hboth => ?_⟩
        dsimp only at hno
        rw [hboth.1, decide_eq_true hboth.2] at hno
        cases hno
  · rintro ⟨j, p, ⟨hj, hrunning, hother, hmask, hp, y, hy, hidx⟩, k, streampid, hk, hno⟩
    refine ⟨j, List.mem_range.mpr hj, ?_⟩
    have hskip : ¬ ((demux j).programNumber = 0 ∨ d = j ∨ (demux j).caMask ≠ (demux d).caMask) := by
      rintro (h | h | h)
      · exact hrunning h
      · exact hother h.symm
      · exact h hmask
    rw [if_neg hskip, hp]
    refine List.any_eq_true.mpr ⟨y, List.mem_range.mpr hy, ?_⟩
    rw [decide_eq_true hidx, Bool.true_and]
    refine List.any_eq_true.mpr ⟨(streampid, k), List.mem_zipIdx_iff_getElem?.mpr hk, ?_⟩
    dsimp only
    rw [Bool.not_eq_true', Bool.and_eq_false_iff]
    by_cases huses : ((demux j).ecmpids p).uses k = true
    · exact Or.inr (decide_eq_false fun heq => hno ⟨huses, heq⟩)
    · exact Or.inl (Bool.eq_false_of_not_eq_true huses)

/-- The current ECM pid of the demuxer uses the stream. -/
def CurrentUses (demux : ℕ → Demux) (d i : ℕ) : Prop :=
  ∃ curpid, (demux d).pidindex = some curpid ∧ ((demux d).ecmpids curpid).uses i = true

/-- What the stop of an ECM filter is for: a stream of its ECM pid is taken from the list on every CA device
of the demuxer exactly if nobody uses it any more. -/
def StopsUnused (s : State) (d num : ℕ) : Prop :=
  ∀ z < box.maxStreamIndices, ∀ i pid, (s.demux d).streampids[i]? = some pid →
    ((s.demux d).ecmpids ((s.demux d).demuxFd num).pidindex).index z ≠ INDEX_INVALID →
      ((s.demux d).ecmpids ((s.demux d).demuxFd num).pidindex).uses i = true →
        ∀ ca < CA_MAX, (s.demux d).caMask.getLsbD ca = true →
          (⟨z, i, ca⟩ ∈ (stopFilternum box s d num).2 ↔ ¬ CurrentUses s.demux d i ∧
            ¬ UsedElsewhere box s.demux d
              (((s.demux d).ecmpids ((s.demux d).demuxFd num).pidindex).index z) pid)

/-- For a stream that is used elsewhere, a demuxer that shares the index has another stream too. For one
that is not, nobody who shares the index has a stream at all, and there is one CA device. -/
def StopMeets (s : State) (d num : ℕ) : Prop :=
  ∀ z < box.maxStreamIndices, ∀ i pid, (s.demux d).streampids[i]? = some pid →
    ((s.demux d).ecmpids ((s.demux d).demuxFd num).pidindex).index z ≠ INDEX_INVALID →
      ((s.demux d).ecmpids ((s.demux d).demuxFd num).pidindex).uses i = true →
        ¬ CurrentUses s.demux d i → ∀ ca < CA_MAX, (s.demux d).caMask.getLsbD ca = true →
          (UsedElsewhere box s.demux d
              (((s.demux d).ecmpids ((s.demux d).demuxFd num).pidindex).index z) pid ∧
            OtherStream box s.demux d
              (((s.demux d).ecmpids ((s.demux d).demuxFd num).pidindex).index z) pid) ∨
          (¬ UsedElsewhere box s.demux d
              (((s.demux d).ecmpids ((s.demux d).demuxFd num).pidindex).index z) pid ∧
            ¬ OtherStream box s.demux d
              (((s.demux d).ecmpids ((s.demux d).demuxFd num).pidindex).index z) pid ∧
            ∀ ca' < CA_MAX, (s.demux d).caMask.getLsbD ca' = true → ca' = ca)

theorem stopDevice_iff (huses : ((demux d).ecmpids oldpid).uses i = true) :
    stopDevice box demux d oldpid idx i pid = some ca ↔
      ¬ CurrentUses demux d i ∧ ¬ OtherStream box demux d idx pid ∧
        firstDevice (demux d).caMask = some ca := by
  have hcurrent : ((demux d).pidindex.any fun curpid => ((demux d).ecmpids curpid).uses i) = true ↔
      CurrentUses demux d i := Option.any_eq_true _ _
  unfold stopDevice
  dsimp only
  rw [if_pos huses]
  by_cases hcur : CurrentUses demux d i
  · rw [if_pos (hcurrent.mpr hcur)]
    constructor
    · intro h
      cases h
    · exact fun h => absurd hcur h.1
  · rw [if_neg fun h => hcur (hcurrent.mp h), ← matchingStream_iff]
    by_cases hmatch : matchingStream box demux d pid idx = true
    · rw [if_pos hmatch]
      constructor
      · intro h
        cases h
      · exact fun h => absurd hmatch h.2.1
    · rw [if_neg hmatch]
      exact ⟨fun h => ⟨hcur, hmatch, h⟩, fun h => h.2.2⟩

theorem firstDevice_mem {caMask : BitVec 32} (h : firstDevice caMask = some ca) :
    ca < CA_MAX ∧ caMask.getLsbD ca = true :=
  ⟨List.mem_range.mp (List.mem_of_find?_eq_some h), List.find?_some h⟩

theorem exists_firstDevice {caMask : BitVec 32} (hca : ca < CA_MAX) (hbit : caMask.getLsbD ca = true) :
    ∃ first, firstDevice caMask = some first := by
  cases h : firstDevice caMask with
  | some first => exact ⟨first, rfl⟩
  | none => exact absurd hbit (List.find?_eq_none.mp h ca (List.mem_range.mpr hca))

end Streams

/-- A program with one ECM pid for the stream 0x100, index 0 and these CA devices. -/
def Demux.single (caMask : BitVec 32) (pidindex : Option ℕ) : Demux where
  caMask := caMask
  demuxFd := fun _ => ⟨.ecm, 0⟩
  ecmpidcount := 1
  ecmpids := fun _ => ⟨fun _ => 0, 0⟩
  streampids := [0x100]
  pidindex := pidindex
  programNumber := 1

/-- Thirty-two demuxers, the first of them in use. -/
def State.single (caMask : BitVec 32) : State where
  demux := fun j => if j = 0 then .single caMask none else { Demux.single 0 none with programNumber := 0 }
  list := []
  caDescramblersUsed := 1
  outside := false

def enigma : Box := ⟨⟨0, fun _ => 0⟩, 32, 1, 16⟩

theorem not_sharing_single {caMask : BitVec 32} {idx : BitVec 32} {j p : ℕ} :
    ¬ Sharing enigma (State.single caMask).demux 0 idx j p := by
  rintro ⟨-, hrunning, hother, -⟩
  unfold State.single at hrunning
  dsimp only at hrunning
  rw [if_neg hother] at hrunning
  exact hrunning rfl

end NCam.Dvbapi
