import NCam.Dvbapi.Listing

/-! `disable_unused_streampids` when a running demuxer gets new stream pids: the old ones are taken from the list,
the new ones are set. -/
namespace NCam.Dvbapi.UnusedStreams

open NCam.Lib

def MAX_STREAM_PIDS : ℕ := 32
def DVBAPI_INDEX_DISABLE : BitVec 32 := 0xFFFFFFFF

/-- A demuxer, and which of its ECM pids have an index for every stream. -/
structure Program extends Demux where
  useMultipleIndices : ℕ → Bool

/-- Whether the stream pids are sent to a client, which CA devices can be opened, and which stream pids they
take. -/
structure Devices where
  boxtypePc : Bool
  opens : ℕ → Bool
  takes : ℕ → BitVec 16 → Bool

/-- The list, the descramblers in use, and whether `STREAMpids` was written beyond its end. -/
structure Active where
  list : List Streampid
  caDescramblersUsed : ℕ
  outside : Bool

section SetPid

variable (box : Box) (dev : Devices) (d : Program)

/-- What `CA_SET_PID` does to the list: a stream pid that is refused is removed, and a device without stream
pids is closed. -/
def caSetPid (i : ℕ) (pid : BitVec 16) (list : List Streampid) : List Streampid :=
  if dev.boxtypePc || !dev.opens i then list
  else
    let list :=
      if dev.takes i pid then list
      else (removeStreampidFromList box.toEnv (.ofNat 8 i) pid INDEX_DISABLE_ALL list).1
    (isCaUsed box.toEnv (.ofNat 8 i) 0 list).1

/-- There is nothing to tell the CA device. -/
def quiet : StreampidAction → Bool
  | .noStreampidListed => true
  | .invalidStreampidIndex => true
  | .foundStreampidIndex => true
  | .addedStreampidIndex => true
  | .removedStreampidIndex => true
  | _ => false

/-- The index that the CA device is to forget, or to use, and a fresh one. -/
def takeOver (i : ℕ) (pid : BitVec 16) (idx : BitVec 32) (action : StreampidAction) (list : List Streampid) :
    List Streampid × BitVec 32 × BitVec 32 :=
  let cadevice := BitVec.ofNat 8 i
  let (list, curidx) :=
    if action = .removedStreampidLastindex ∨ action = .firstStreampidIndex then
      let (list, active) := isCaUsed box.toEnv cadevice (pid.setWidth 32) list
      (list, if active = INDEX_INVALID then DVBAPI_INDEX_DISABLE else idx)
    else (list, idx)
  if action = .removedDecodingStreampidIndex ∨ action = .firstStreampidIndex then
    let (list, active) := isCaUsed box.toEnv cadevice (pid.setWidth 32) list
    (list, DVBAPI_INDEX_DISABLE, active)
  else (list, curidx, INDEX_INVALID)

/-- The CA device is told one index after the other. -/
def tellDevice (i : ℕ) (pid : BitVec 16) (r : List Streampid × BitVec 32 × BitVec 32) : List Streampid :=
  let list := if r.2.1 ≠ INDEX_INVALID then caSetPid box dev i pid r.1 else r.1
  if r.2.2 ≠ INDEX_INVALID then caSetPid box dev i pid list else list

/-- `dvbapi_set_pid` on one CA device, for an API that has no case of its own. -/
def setPidOn (enable useDes : Bool) (idx : BitVec 32) (pid : BitVec 16) (a : Active) (i : ℕ) : Active :=
  if d.caMask.getLsbD i then
    let (list, action) :=
      if enable then updateStreampidList box.toEnv (.ofNat 8 i) pid idx useDes a.list
      else removeStreampidFromList box.toEnv (.ofNat 8 i) pid idx a.list
    { a with
      list := if quiet action then list else tellDevice box dev i pid (takeOver box i pid idx action list)
      caDescramblersUsed :=
        if action = .removedStreampidLastindex then (countActiveIndexers box list).getD a.caDescramblersUsed
        else a.caDescramblersUsed }
  else a

def setPid (enable useDes : Bool) (idx : BitVec 32) (pid : BitVec 16) (a : Active) : Active :=
  if d.pidindex = none ∧ enable = true then a
  else (List.range CA_MAX).foldl (setPidOn box dev d enable useDes idx pid) a

end SetPid

section Disable

variable (box : Box) (dev : Devices) (d : Program)

/-- Without ECM pids every stream is unused. -/
def Program.unused (pid : BitVec 16) : Bool :=
  d.ecmpidcount = 0 || d.streampids.all fun streampid => streampid ≠ pid

/-- The stream pid is put behind the others for the call. -/
def disableStream (idx : BitVec 32) (pid : BitVec 16) (a : Active) : Active :=
  setPid box dev d false false idx pid
    { a with outside := a.outside || decide (MAX_STREAM_PIDS ≤ d.streampids.length) }

/-- The walk that disables on CA device `i`. There is no result if it takes more than `fuel` rounds. -/
def disableLoop (idx : BitVec 32) (i : ℕ) : ℕ → Active → Option Key → Option Active
  | 0, _, _ => none
  | fuel + 1, a, cur =>
    match nextAfter Streampid.key a.list cur with
    | none => some a
    | some listitem =>
      let stale := listitem.cadevice = BitVec.ofNat 8 i ∧ listitem.hasIndex box.toEnv idx.toNat = true ∧
        d.unused listitem.streampid = true
      let a := if stale then disableStream box dev d idx listitem.streampid a else a
      disableLoop idx i fuel a (some listitem.key)

/-- A stream of the ECM pid is enabled unless CA device `i` has it. -/
def enableStream (ecmpid : Ecmpid) (idx : BitVec 32) (i : ℕ) (a : Active) (stream : BitVec 16 × ℕ) : Active :=
  let listed := a.list.any fun listitem =>
    listitem.cadevice = BitVec.ofNat 8 i ∧ listitem.hasIndex box.toEnv idx.toNat = true ∧
      listitem.streampid = stream.1
  if ecmpid.uses stream.2 = true ∧ listed = false then setPid box dev d true false idx stream.1 a else a

def enableStreams (ecmpid : Ecmpid) (idx : BitVec 32) (i : ℕ) (a : Active) : Active :=
  if d.ecmpidcount = 0 then a
  else d.streampids.zipIdx.foldl (enableStream box dev d ecmpid idx i) a

def updateDevice (ecmpid : Ecmpid) (idx : BitVec 32) (fuel : ℕ) (a : Active) (i : ℕ) : Option Active :=
  if d.caMask.getLsbD i then
    (disableLoop box dev d idx i fuel a none).map (enableStreams box dev d ecmpid idx i)
  else some a

/-- The first valid index of the ECM pid that the item has; `idx` is written for every slot. -/
def matchIndex (ecmpid : Ecmpid) (listitem : Streampid) : List ℕ → BitVec 32 → BitVec 32 × Bool
  | [], idx => (idx, false)
  | j :: rest, _ =>
    let idx := ecmpid.index j
    if idx ≠ INDEX_INVALID ∧ listitem.hasIndex box.toEnv idx.toNat = true then (idx, true)
    else matchIndex ecmpid listitem rest idx

def disableLoopMulti (ecmpid : Ecmpid) (i : ℕ) :
    ℕ → Active × BitVec 32 → Option Key → Option (Active × BitVec 32)
  | 0, _, _ => none
  | fuel + 1, (a, idx), cur =>
    match nextAfter Streampid.key a.list cur with
    | none => some (a, idx)
    | some listitem =>
      if listitem.cadevice = BitVec.ofNat 8 i then
        let (idx, found) := matchIndex box ecmpid listitem (List.range box.maxStreamIndices) idx
        let a := if found && d.unused listitem.streampid then disableStream box dev d idx listitem.streampid a else a
        disableLoopMulti ecmpid i fuel (a, idx) (some listitem.key)
      else disableLoopMulti ecmpid i fuel (a, idx) (some listitem.key)

/-- The walk that looks for a stream pid. -/
def findMulti (ecmpid : Ecmpid) (i : ℕ) (pid : BitVec 16) : List Streampid → BitVec 32 → BitVec 32 × Bool
  | [], idx => (idx, false)
  | listitem :: rest, idx =>
    if listitem.cadevice = BitVec.ofNat 8 i then
      let (idx, found) := matchIndex box ecmpid listitem (List.range box.maxStreamIndices) idx
      if found && listitem.streampid = pid then (idx, true) else findMulti ecmpid i pid rest idx
    else findMulti ecmpid i pid rest idx

def enableStreamMulti (ecmpid : Ecmpid) (i : ℕ) (r : Active × BitVec 32) (stream : BitVec 16 × ℕ) :
    Active × BitVec 32 :=
  if ecmpid.uses stream.2 then
    let (idx, listed) := findMulti box ecmpid i stream.1 r.1.list r.2
    (if listed then r.1 else setPid box dev d true false idx stream.1 r.1, idx)
  else r

/-- The loop over the CA devices ends once `idx` is invalid. -/
def updateDeviceMulti (ecmpid : Ecmpid) (fuel : ℕ) (r : Active × BitVec 32) (i : ℕ) :
    Option (Active × BitVec 32) :=
  if r.2 = INDEX_INVALID then some r
  else if d.caMask.getLsbD i then
    (disableLoopMulti box dev d ecmpid i fuel r none).map fun r =>
      if d.ecmpidcount = 0 then r
      else d.streampids.zipIdx.foldl (enableStreamMulti box dev d ecmpid i) r
  else some r

/-- `disable_unused_streampids` for an API that goes through the list. -/
def disableUnusedStreampids (fuel : ℕ) (a : Active) : Option Active :=
  match d.pidindex with
  | none => some a
  | some pidindex =>
    let ecmpid := d.ecmpids pidindex
    if a.list = [] then some a
    else if d.useMultipleIndices pidindex then
      ((List.range CA_MAX).foldlM (updateDeviceMulti box dev d ecmpid fuel) (a, INDEX_INVALID)).map Prod.fst
    else
      let idx := ecmpid.index 0
      if idx = INDEX_INVALID then some a
      else (List.range CA_MAX).foldlM (updateDevice box dev d ecmpid idx fuel) a

end Disable

section Statement

variable (box : Box) (d : Program)

/-- The list has the stream pid on the CA device with the index. -/
def Named (idx : BitVec 32) (list : List Streampid) (key : Key) : Prop :=
  ∃ listitem ∈ list, listitem.key = key ∧ listitem.activeindexers.getLsbD idx.toNat = true

/-- An index of the ECM pid. -/
def Program.HasIndex (pidindex : ℕ) (idx : BitVec 32) : Prop :=
  idx ≠ INDEX_INVALID ∧
    if d.useMultipleIndices pidindex = true then
      ∃ j < box.maxStreamIndices, idx = (d.ecmpids pidindex).index j
    else idx = (d.ecmpids pidindex).index 0

/-- A stream pid of the demuxer that the ECM pid is for. -/
def Program.Associated (pidindex : ℕ) (pid : BitVec 16) : Prop :=
  d.ecmpidcount ≠ 0 ∧ ∃ n, d.streampids[n]? = some pid ∧ (d.ecmpids pidindex).uses n = true

/-- The CA devices have the streams of the ECM pid. -/
structure Right (pidindex : ℕ) (a : Active) : Prop where
  streams : ∀ i < CA_MAX, d.caMask.getLsbD i = true → ∀ pid,
    (∃ idx, d.HasIndex box pidindex idx ∧ Named idx a.list (.ofNat 8 i, pid)) ↔ d.Associated pidindex pid
  inside : a.outside = false

/-- No stream pid of the demuxer that the ECM pid is not for is listed, and there is a place behind the others
for one that is to be disabled. With several indices, or an empty list, nothing is changed. -/
def Changeable (pidindex : ℕ) (a : Active) : Prop :=
  if a.list = [] ∨ d.useMultipleIndices pidindex = true then Right box d pidindex a
  else
    ∀ i < CA_MAX, d.caMask.getLsbD i = true → ∀ pid,
      Named ((d.ecmpids pidindex).index 0) a.list (.ofNat 8 i, pid) →
        if d.unused pid = true then d.streampids.length < MAX_STREAM_PIDS else d.Associated pidindex pid

end Statement

section Lists

variable {idx : BitVec 32} {list list' list'' : List Streampid} {pre post ys : List Streampid} {x : Streampid}
  {k : Key} {gone gone' : Key → Prop}

theorem named_append : Named idx (list ++ list') k ↔ Named idx list k ∨ Named idx list' k := by
  unfold Named
  simp only [List.mem_append, or_and_right, exists_or]

theorem named_singleton : Named idx [x] k ↔ x.key = k ∧ x.activeindexers.getLsbD idx.toNat = true := by
  unfold Named
  simp only [List.mem_singleton, exists_eq_left]

theorem Named.mem_keys (h : Named idx list k) : k ∈ list.map Streampid.key := by
  obtain ⟨listitem, hmem, rfl, -⟩ := h
  exact List.mem_map_of_mem hmem

/-- A call that takes the index away from some stream pids. -/
structure Takes (idx : BitVec 32) (list list' : List Streampid) (gone : Key → Prop) : Prop where
  keys : (list'.map Streampid.key).Sublist (list.map Streampid.key)
  named : ∀ k, Named idx list' k ↔ Named idx list k ∧ ¬ gone k

theorem Takes.refl (idx : BitVec 32) (list : List Streampid) : Takes idx list list fun _ => False :=
  ⟨List.Sublist.refl _, fun _ => (and_iff_left not_false).symm⟩

theorem Takes.trans (h : Takes idx list list' gone) (h' : Takes idx list' list'' gone') :
    Takes idx list list'' fun k => gone k ∨ gone' k := by
  refine ⟨h'.keys.trans h.keys, fun k => ?_⟩
  rw [h'.named, h.named, not_or, and_assoc]

theorem Takes.congr (h : Takes idx list list' gone) (hgone : ∀ k, gone k ↔ gone' k) :
    Takes idx list list' gone' :=
  ⟨h.keys, fun k => by rw [h.named, hgone]⟩

/-- One item is replaced or removed. -/
theorem takes_replace (hd : ((pre ++ x :: post).map Streampid.key).Nodup)
    (hys : ys = [] ∨ ∃ y, ys = [y] ∧ y.key = x.key) (hgone : ∀ k, gone k → k = x.key)
    (hbit : Named idx ys x.key ↔ x.activeindexers.getLsbD idx.toNat = true ∧ ¬ gone x.key) :
    Takes idx (pre ++ x :: post) (pre ++ (ys ++ post)) gone := by
  have hno := hd
  rw [List.map_append, List.map_cons, List.nodup_middle, List.nodup_cons, ← List.map_append] at hno
  refine ⟨?_, fun k => ?_⟩
  · rw [List.map_append, List.map_append, List.map_append, List.map_cons]
    refine List.Sublist.append_left ?_ _
    rcases hys with rfl | ⟨y, rfl, hy⟩
    · exact List.sublist_cons_self _ _
    · rw [List.map_singleton, hy, List.singleton_append]
  · rw [← List.singleton_append, named_append, named_append, named_append, named_append, named_singleton]
    by_cases hk : k = x.key
    · subst hk
      have hpre : ¬ Named idx pre x.key := fun h => hno.1 (by
        rw [List.map_append]
        exact List.mem_append_left _ h.mem_keys)
      have hpost : ¬ Named idx post x.key := fun h => hno.1 (by
        rw [List.map_append]
        exact List.mem_append_right _ h.mem_keys)
      rw [hbit]
      simp only [hpre, hpost, false_or, or_false, true_and]
    · have hys' : ¬ Named idx ys k := by
        rcases hys with rfl | ⟨y, rfl, hy⟩
        · exact fun h => absurd h.mem_keys List.not_mem_nil
        · rw [named_singleton, hy]
          exact fun h => hk h.1.symm
      have hgone' : ¬ gone k := fun h => hk (hgone k h)
      have hx : ¬ x.key = k := fun h => hk h.symm
      simp only [hys', hx, hgone', false_and, false_or, not_false_eq_true, and_true]

variable {env : Env}

/-- Looking for a fresh index takes nothing away. -/
theorem takes_isCaUsed (hidx : idx.toNat < 31) (hd : (list.map Streampid.key).Nodup) (cadevice : BitVec 8)
    (pid : BitVec 32) : Takes idx list (isCaUsed env cadevice pid list).1 fun _ => False := by
  unfold isCaUsed
  cases hr : onFirst (Streampid.isOn cadevice pid) (Streampid.decoding env) list with
  | none => exact Takes.refl idx list
  | some r =>
    obtain ⟨pre, x, post, rfl, -, -, rfl⟩ := onFirst_eq_some hr
    rw [Option.getD_some]
    have hkeep : (x.fresh env).key = x.key ∧ (x.fresh env).activeindexers = x.activeindexers := by
      unfold Streampid.fresh
      split_ifs
      · cases (List.range INDEX_MAX).find? (x.hasIndex env) <;> exact ⟨rfl, rfl⟩
      · exact ⟨rfl, rfl⟩
    unfold Streampid.decoding
    dsimp only
    split_ifs with hinvalid
    · refine takes_replace hd (Or.inl rfl) (fun _ h => h.elim) ?_
      have hbit : x.activeindexers.getLsbD idx.toNat = false := by
        by_contra htrue
        have hindex : x.hasIndex env idx.toNat = true := by
          rw [hasIndex_of_lt hidx]
          exact Bool.eq_true_of_not_eq_false htrue
        unfold Streampid.fresh at hinvalid
        split_ifs at hinvalid with hx
        · cases hfind : (List.range INDEX_MAX).find? (x.hasIndex env) with
          | none =>
            have hin : idx.toNat ∈ List.range INDEX_MAX :=
              List.mem_range.mpr (Nat.lt_trans hidx (by decide))
            exact List.find?_eq_none.mp hfind _ hin hindex
          | some i =>
            have hi : i < 64 := List.mem_range.mp (List.mem_of_find?_eq_some hfind)
            rw [hfind] at hinvalid
            have htoNat := congrArg BitVec.toNat hinvalid
            change (BitVec.ofNat 32 i).toNat = 4026531839 at htoNat
            rw [BitVec.toNat_ofNat] at htoNat
            omega
        · exact hx hinvalid
      rw [hbit]
      exact ⟨fun h => absurd h.mem_keys List.not_mem_nil, fun h => absurd h.1 Bool.false_ne_true⟩
    · refine takes_replace hd (Or.inr ⟨_, rfl, hkeep.1⟩) (fun _ h => h.elim) ?_
      rw [named_singleton, hkeep.1, hkeep.2]
      exact ⟨fun h => ⟨h.2, not_false⟩, fun h => ⟨rfl, h.1⟩⟩

private theorem removeIndexer_bit (hidx : idx.toNat < 31) :
    ((x.removeIndexer env idx).1 = [] ∨ ∃ y, (x.removeIndexer env idx).1 = [y] ∧ y.key = x.key) ∧
      ∀ y ∈ (x.removeIndexer env idx).1, y.activeindexers.getLsbD idx.toNat = false := by
  have hall : idx ≠ INDEX_DISABLE_ALL := by
    rintro rfl
    revert hidx
    decide
  have hcleared : (x.activeindexers &&& ~~~env.shifted idx.toNat).getLsbD idx.toNat = false := by
    rw [BitVec.getLsbD_and, BitVec.getLsbD_not, shifted_getLsbD hidx, decide_eq_true rfl, Bool.not_true,
      Bool.and_false, Bool.and_false]
  unfold Streampid.removeIndexer
  rw [if_neg hall]
  by_cases hset : x.hasIndex env idx.toNat = true
  · rw [if_pos hset]
    dsimp only
    split_ifs
    · exact ⟨Or.inl rfl, fun y hy => absurd hy List.not_mem_nil⟩
    all_goals
      refine ⟨Or.inr ⟨_, rfl, rfl⟩, fun y hy => ?_⟩
      rw [List.mem_singleton.mp hy]
      exact hcleared
  · rw [if_neg hset]
    dsimp only
    rw [if_neg fun h => Bool.false_ne_true h.2, if_neg Bool.false_ne_true]
    refine ⟨Or.inr ⟨x, rfl, rfl⟩, fun y hy => ?_⟩
    rw [List.mem_singleton.mp hy]
    rw [hasIndex_of_lt hidx] at hset
    exact Bool.eq_false_of_not_eq_true hset

/-- An index is taken back. -/
theorem takes_remove (hidx : idx.toNat < 31) (hd : (list.map Streampid.key).Nodup) (cadevice : BitVec 8)
    (pid : BitVec 16) :
    Takes idx list (removeStreampidFromList env cadevice pid idx list).1 (· = (cadevice, pid)) := by
  have hin : ¬ INDEX_MAX ≤ idx.toNat := Nat.not_le.mpr (Nat.lt_trans hidx (by decide))
  unfold removeStreampidFromList
  rw [if_neg hin]
  cases hr : onFirst (Streampid.isFor cadevice pid) (Streampid.removeIndexer env idx) list with
  | none =>
    refine ⟨List.Sublist.refl _, fun k => (and_iff_left_of_imp ?_).symm⟩
    rintro ⟨listitem, hmem, hkey, -⟩ rfl
    have hno := onFirst_eq_none.mp hr listitem hmem
    rw [isFor_iff.mpr hkey] at hno
    cases hno
  | some r =>
    obtain ⟨pre, x, post, rfl, -, hx, rfl⟩ := onFirst_eq_some hr
    rw [Option.getD_some, ← isFor_iff.mp hx]
    obtain ⟨hshape, hcleared⟩ := @removeIndexer_bit idx x env hidx
    refine takes_replace hd hshape (fun _ h => h) ?_
    constructor
    · rintro ⟨y, hy, -, hbit⟩
      rw [hcleared y hy] at hbit
      cases hbit
    · exact fun h => absurd rfl h.2

/-- An index is set. -/
theorem named_update (hidx : idx.toNat < 31) (hd : (list.map Streampid.key).Nodup) (cadevice : BitVec 8)
    (pid : BitVec 16) (useDes : Bool) :
    ((updateStreampidList env cadevice pid idx useDes list).1.map Streampid.key).Nodup ∧
      ∀ k, Named idx (updateStreampidList env cadevice pid idx useDes list).1 k ↔
        Named idx list k ∨ k = (cadevice, pid) := by
  have hin : ¬ INDEX_MAX ≤ idx.toNat := Nat.not_le.mpr (Nat.lt_trans hidx (by decide))
  have hshifted : (env.shifted idx.toNat).getLsbD idx.toNat = true := by
    rw [shifted_getLsbD hidx]
    exact decide_eq_true rfl
  unfold updateStreampidList
  rw [if_neg hin]
  cases hr : onFirst (Streampid.isFor cadevice pid) (Streampid.addIndexer env idx useDes) list with
  | none =>
    have hnew : (cadevice, pid) ∉ list.map Streampid.key := by
      intro hmem
      obtain ⟨listitem, hin', hkey⟩ := List.mem_map.mp hmem
      have hno := onFirst_eq_none.mp hr listitem hin'
      rw [isFor_iff.mpr hkey] at hno
      cases hno
    rw [Option.getD_none]
    refine ⟨?_, fun k => ?_⟩
    · rw [List.map_append, List.map_singleton]
      exact hd.append (List.nodup_singleton _) (List.disjoint_singleton.mpr hnew)
    · rw [named_append, named_singleton]
      exact or_congr_right ⟨fun h => h.1.symm, fun h => ⟨h.symm, hshifted⟩⟩
  | some r =>
    obtain ⟨pre, x, post, rfl, -, hx, rfl⟩ := onFirst_eq_some hr
    rw [Option.getD_some, ← isFor_iff.mp hx]
    obtain ⟨y, hy, hkey, hbit⟩ : ∃ y, (x.addIndexer env idx useDes).1 = [y] ∧ y.key = x.key ∧
        y.activeindexers.getLsbD idx.toNat = true := by
      unfold Streampid.addIndexer
      dsimp only
      split_ifs with hset hother hother
      · exact ⟨_, rfl, rfl, by rw [hasIndex_of_lt hidx] at hset; exact hset⟩
      · exact ⟨_, rfl, rfl, by rw [hasIndex_of_lt hidx] at hset; exact hset⟩
      all_goals
        refine ⟨_, rfl, rfl, ?_⟩
        rw [BitVec.getLsbD_or, hshifted, Bool.or_true]
    rw [hy]
    refine ⟨?_, fun k => ?_⟩
    · rw [List.map_append, List.map_append, List.map_singleton, hkey]
      rw [List.map_append, List.map_cons] at hd
      exact hd
    · rw [← @List.singleton_append _ x post, named_append, named_append, named_append, named_append,
        named_singleton, named_singleton, hkey]
      constructor
      · rintro (h | ⟨h, -⟩ | h)
        · exact Or.inl (Or.inl h)
        · exact Or.inr h.symm
        · exact Or.inl (Or.inr (Or.inr h))
      · rintro ((h | ⟨h, -⟩ | h) | h)
        · exact Or.inl h
        · exact Or.inr (Or.inl ⟨h, hbit⟩)
        · exact Or.inr (Or.inr h)
        · exact Or.inr (Or.inl ⟨h.symm, hbit⟩)

/-- `INDEX_DISABLE_ALL` is not below `INDEX_MAX`, and so nothing is removed. -/
theorem remove_disableAll (cadevice : BitVec 8) (pid : BitVec 16) :
    removeStreampidFromList env cadevice pid INDEX_DISABLE_ALL list = (list, .invalidStreampidIndex) :=
  if_pos (by decide)

end Lists

section Calls

variable {box : Box} {dev : Devices} {d : Program} {idx : BitVec 32} {list : List Streampid} {a : Active}
  {pid : BitVec 16}

theorem takes_caSetPid (hidx : idx.toNat < 31) (hd : (list.map Streampid.key).Nodup) (i : ℕ) :
    Takes idx list (caSetPid box dev i pid list) fun _ => False := by
  unfold caSetPid
  rw [remove_disableAll]
  dsimp only
  rw [ite_self]
  split_ifs
  · exact Takes.refl idx list
  · exact takes_isCaUsed hidx hd _ _

theorem Takes.idle {list' list'' : List Streampid} (h : Takes idx list list' fun _ => False)
    (h' : Takes idx list' list'' fun _ => False) : Takes idx list list'' fun _ => False :=
  (h.trans h').congr fun _ => or_self_iff

theorem Takes.nodup {list' : List Streampid} {gone : Key → Prop} (h : Takes idx list list' gone)
    (hd : (list.map Streampid.key).Nodup) : (list'.map Streampid.key).Nodup := hd.sublist h.keys

theorem takes_takeOver {old : BitVec 32} (hidx : idx.toNat < 31) (hd : (list.map Streampid.key).Nodup) (i : ℕ)
    (action : StreampidAction) : Takes idx list (takeOver box i pid old action list).1 fun _ => False := by
  have hused : ∀ l, (l.map Streampid.key).Nodup →
      Takes idx l (isCaUsed box.toEnv (.ofNat 8 i) (pid.setWidth 32) l).1 fun _ => False :=
    fun l hl => takes_isCaUsed hidx hl _ _
  unfold takeOver
  dsimp only
  by_cases hlast : action = .removedStreampidLastindex ∨ action = .firstStreampidIndex
  · rw [if_pos hlast]
    dsimp only
    split_ifs
    · exact (hused list hd).idle (hused _ ((hused list hd).nodup hd))
    all_goals exact hused list hd
  · rw [if_neg hlast]
    dsimp only
    split_ifs
    · exact hused list hd
    · exact Takes.refl idx list

theorem takes_tellDevice (hidx : idx.toNat < 31) (r : List Streampid × BitVec 32 × BitVec 32)
    (hd : (r.1.map Streampid.key).Nodup) (i : ℕ) :
    Takes idx r.1 (tellDevice box dev i pid r) fun _ => False := by
  have hset : ∀ l, (l.map Streampid.key).Nodup → Takes idx l (caSetPid box dev i pid l) fun _ => False :=
    fun l hl => takes_caSetPid hidx hl i
  unfold tellDevice
  dsimp only
  split_ifs
  · exact (hset r.1 hd).idle (hset _ ((hset r.1 hd).nodup hd))
  · exact hset r.1 hd
  · exact hset r.1 hd
  · exact Takes.refl idx r.1

/-- `dvbapi_set_pid` takes the index away on one CA device. -/
theorem setPidOn_disable (hidx : idx.toNat < 31) (hd : (a.list.map Streampid.key).Nodup) (useDes : Bool) (i : ℕ) :
    (setPidOn box dev d false useDes idx pid a i).outside = a.outside ∧
      Takes idx a.list (setPidOn box dev d false useDes idx pid a i).list
        fun k => d.caMask.getLsbD i = true ∧ k = (.ofNat 8 i, pid) := by
  unfold setPidOn
  by_cases hmask : d.caMask.getLsbD i = true
  case neg =>
    rw [if_neg hmask]
    exact ⟨rfl, (Takes.refl idx a.list).congr fun k => ⟨False.elim, fun h => hmask h.1⟩⟩
  rw [if_pos hmask, if_neg Bool.false_ne_true]
  have hremove := @takes_remove idx a.list box.toEnv hidx hd (.ofNat 8 i) pid
  generalize removeStreampidFromList box.toEnv (.ofNat 8 i) pid idx a.list = r at hremove
  have htell : Takes idx r.1 (if quiet r.2 then r.1 else tellDevice box dev i pid (takeOver box i pid idx r.2 r.1))
      fun _ => False := by
    split_ifs
    · exact Takes.refl idx r.1
    · have hover := @takes_takeOver box idx r.1 pid idx hidx (hremove.nodup hd) i r.2
      exact hover.idle (takes_tellDevice hidx _ (hover.nodup (hremove.nodup hd)) i)
  refine ⟨rfl, (hremove.trans htell).congr fun k => ?_⟩
  rw [or_false]
  exact (and_iff_right hmask).symm

/-- `dvbapi_set_pid` sets the index on one CA device. -/
theorem setPidOn_enable (hidx : idx.toNat < 31) (hd : (a.list.map Streampid.key).Nodup) (useDes : Bool) (i : ℕ) :
    (setPidOn box dev d true useDes idx pid a i).outside = a.outside ∧
      ((setPidOn box dev d true useDes idx pid a i).list.map Streampid.key).Nodup ∧
        ∀ k, Named idx (setPidOn box dev d true useDes idx pid a i).list k ↔
          Named idx a.list k ∨ d.caMask.getLsbD i = true ∧ k = (.ofNat 8 i, pid) := by
  unfold setPidOn
  by_cases hmask : d.caMask.getLsbD i = true
  case neg =>
    rw [if_neg hmask]
    exact ⟨rfl, hd, fun k => (or_iff_left fun h => hmask h.1).symm⟩
  rw [if_pos hmask, if_pos rfl]
  obtain ⟨hd', hnamed⟩ := @named_update idx a.list box.toEnv hidx hd (.ofNat 8 i) pid useDes
  generalize updateStreampidList box.toEnv (.ofNat 8 i) pid idx useDes a.list = r at hd' hnamed
  have htell : Takes idx r.1 (if quiet r.2 then r.1 else tellDevice box dev i pid (takeOver box i pid idx r.2 r.1))
      fun _ => False := by
    split_ifs
    · exact Takes.refl idx r.1
    · have hover := @takes_takeOver box idx r.1 pid idx hidx hd' i r.2
      exact hover.idle (takes_tellDevice hidx _ (hover.nodup hd') i)
  refine ⟨rfl, htell.nodup hd', fun k => ?_⟩
  rw [htell.named, hnamed, and_iff_left not_false, and_iff_right hmask]

/-- A CA device of the demuxer. -/
def Program.Uses (d : Program) (cadevice : BitVec 8) : Prop :=
  ∃ i < CA_MAX, d.caMask.getLsbD i = true ∧ cadevice = .ofNat 8 i

/-- The index of a stream pid is taken back on all CA devices of the demuxer. -/
theorem setPid_disable (hidx : idx.toNat < 31) (hd : (a.list.map Streampid.key).Nodup) (useDes : Bool) :
    (setPid box dev d false useDes idx pid a).outside = a.outside ∧
      Takes idx a.list (setPid box dev d false useDes idx pid a).list fun k => d.Uses k.1 ∧ k.2 = pid := by
  have hrun : ∀ n, ((List.range n).foldl (setPidOn box dev d false useDes idx pid) a).outside = a.outside ∧
      Takes idx a.list ((List.range n).foldl (setPidOn box dev d false useDes idx pid) a).list
        fun k => ∃ i < n, d.caMask.getLsbD i = true ∧ k = (.ofNat 8 i, pid) := by
    intro n
    induction n with
    | zero => exact ⟨rfl, (Takes.refl idx a.list).congr fun k => ⟨False.elim, fun h => by simp at h⟩⟩
    | succ n ih =>
      obtain ⟨houtside, htakes⟩ := ih
      rw [List.range_succ, List.foldl_append, List.foldl_cons, List.foldl_nil]
      obtain ⟨houtside', htakes'⟩ :=
        @setPidOn_disable box dev d idx _ pid hidx (htakes.nodup hd) useDes n
      exact ⟨houtside'.trans houtside, (htakes.trans htakes').congr fun k => Nat.exists_lt_succ_right.symm⟩
  obtain ⟨houtside, htakes⟩ := hrun CA_MAX
  unfold setPid
  rw [if_neg fun h => Bool.false_ne_true h.2]
  refine ⟨houtside, htakes.congr fun k => ?_⟩
  constructor
  · rintro ⟨i, hi, hmask, rfl⟩
    exact ⟨⟨i, hi, hmask, rfl⟩, rfl⟩
  · rintro ⟨⟨i, hi, hmask, hdevice⟩, hpid⟩
    exact ⟨i, hi, hmask, Prod.ext hdevice hpid⟩

/-- The index of a stream pid is set on all CA devices of the demuxer. -/
theorem setPid_enable (hidx : idx.toNat < 31) (hd : (a.list.map Streampid.key).Nodup) (useDes : Bool)
    (hpid : d.pidindex ≠ none) :
    (setPid box dev d true useDes idx pid a).outside = a.outside ∧
      ((setPid box dev d true useDes idx pid a).list.map Streampid.key).Nodup ∧
        ∀ k, Named idx (setPid box dev d true useDes idx pid a).list k ↔
          Named idx a.list k ∨ d.Uses k.1 ∧ k.2 = pid := by
  have hrun : ∀ n, ((List.range n).foldl (setPidOn box dev d true useDes idx pid) a).outside = a.outside ∧
      (((List.range n).foldl (setPidOn box dev d true useDes idx pid) a).list.map Streampid.key).Nodup ∧
        ∀ k, Named idx ((List.range n).foldl (setPidOn box dev d true useDes idx pid) a).list k ↔
          Named idx a.list k ∨ ∃ i < n, d.caMask.getLsbD i = true ∧ k = (.ofNat 8 i, pid) := by
    intro n
    induction n with
    | zero => exact ⟨rfl, hd, fun k => (or_iff_left (by simp)).symm⟩
    | succ n ih =>
      obtain ⟨houtside, hnodup, hnamed⟩ := ih
      rw [List.range_succ, List.foldl_append, List.foldl_cons, List.foldl_nil]
      obtain ⟨houtside', hnodup', hnamed'⟩ := @setPidOn_enable box dev d idx _ pid hidx hnodup useDes n
      refine ⟨houtside'.trans houtside, hnodup', fun k => ?_⟩
      rw [hnamed', hnamed, or_assoc, Nat.exists_lt_succ_right]
  obtain ⟨houtside, hnodup, hnamed⟩ := hrun CA_MAX
  unfold setPid
  rw [if_neg fun h => hpid h.1]
  refine ⟨houtside, hnodup, fun k => ?_⟩
  rw [hnamed]
  refine or_congr_right ⟨?_, ?_⟩
  · rintro ⟨i, hi, hmask, rfl⟩
    exact ⟨⟨i, hi, hmask, rfl⟩, rfl⟩
  · rintro ⟨⟨i, hi, hmask, hdevice⟩, hpid⟩
    exact ⟨i, hi, hmask, Prod.ext hdevice hpid⟩

end Calls

section Passes

variable {box : Box} {dev : Devices} {d : Program} {pidindex : ℕ} {idx : BitVec 32} {a₀ a b : Active} {i : ℕ}

/-- What the function keeps: only unused streams were taken, only streams of the ECM pid set, and the array was
left only where a stream was to be disabled. -/
structure Since (d : Program) (pidindex : ℕ) (idx : BitVec 32) (a₀ a : Active) : Prop where
  nodup : (a.list.map Streampid.key).Nodup
  sub : ∀ k, Named idx a.list k → Named idx a₀.list k ∨ d.Uses k.1 ∧ d.Associated pidindex k.2
  kept : ∀ k, Named idx a₀.list k → ¬ (d.Uses k.1 ∧ d.unused k.2 = true) → Named idx a.list k
  beyond : a.outside = true → MAX_STREAM_PIDS ≤ d.streampids.length ∧
    ∃ k, d.Uses k.1 ∧ d.unused k.2 = true ∧ Named idx a₀.list k
  inside : MAX_STREAM_PIDS ≤ d.streampids.length → a.outside = false →
    ∀ k, d.Uses k.1 → d.unused k.2 = true → Named idx a₀.list k → Named idx a.list k

/-- The CA device is done. -/
def Settled (d : Program) (pidindex : ℕ) (idx : BitVec 32) (a : Active) (cadevice : BitVec 8) : Prop :=
  ∀ pid, (d.unused pid = true → ¬ Named idx a.list (cadevice, pid)) ∧
    (d.Associated pidindex pid → Named idx a.list (cadevice, pid))

theorem Program.Associated.unused {pid : BitVec 16} (h : d.Associated pidindex pid) : d.unused pid = false := by
  obtain ⟨hcount, n, hn, -⟩ := h
  refine Bool.or_eq_false_iff.mpr ⟨decide_eq_false hcount, List.all_eq_false.mpr ?_⟩
  exact ⟨pid, List.mem_of_getElem? hn, fun hne => of_decide_eq_true hne rfl⟩

theorem disableStream_since (hidx : idx.toNat < 31) (hs : Since d pidindex idx a₀ a) {k : Key} (huses : d.Uses k.1)
    (hunused : d.unused k.2 = true) (hk : Named idx a.list k) :
    Since d pidindex idx a₀ (disableStream box dev d idx k.2 a) ∧
      Takes idx a.list (disableStream box dev d idx k.2 a).list fun k' => d.Uses k'.1 ∧ k'.2 = k.2 := by
  unfold disableStream
  obtain ⟨houtside, htakes⟩ := @setPid_disable box dev d idx
    { a with outside := a.outside || decide (MAX_STREAM_PIDS ≤ d.streampids.length) } k.2 hidx hs.nodup false
  refine ⟨⟨htakes.nodup hs.nodup, fun k' h => hs.sub k' ((htakes.named k').mp h).1, ?_, ?_, ?_⟩, htakes⟩
  · intro k' h hno
    refine (htakes.named k').mpr ⟨hs.kept k' h hno, fun hgone => hno ⟨hgone.1, ?_⟩⟩
    rw [hgone.2]
    exact hunused
  · intro hout
    rw [houtside] at hout
    rcases Bool.or_eq_true_iff.mp hout with hout | hlong
    · exact hs.beyond hout
    · refine ⟨of_decide_eq_true hlong, k, huses, hunused, (hs.sub k hk).resolve_right fun h => ?_⟩
      rw [h.2.unused] at hunused
      cases hunused
  · intro hlong hin
    rw [houtside, decide_eq_true hlong, Bool.or_true] at hin
    cases hin

/-- What the walk on a CA device leaves. -/
theorem disableLoop_since (hidx : idx.toNat < 31) (huses : d.Uses (.ofNat 8 i)) {fuel : ℕ} {cur : Option Key}
    (hs : Since d pidindex idx a₀ a)
    (hp : Passed Streampid.key a.list cur fun k =>
      k.1 = .ofNat 8 i → d.unused k.2 = true → ¬ Named idx a.list k)
    (h : disableLoop box dev d idx i fuel a cur = some b) :
    Since d pidindex idx a₀ b ∧ (∀ pid, d.unused pid = true → ¬ Named idx b.list (.ofNat 8 i, pid)) ∧
      ∀ k, (Named idx b.list k → Named idx a.list k) ∧
        (Named idx a.list k → d.unused k.2 = false → Named idx b.list k) := by
  induction fuel generalizing a cur with
  | zero => cases h
  | succ fuel ih =>
    unfold disableLoop at h
    cases hnext : nextAfter Streampid.key a.list cur with
    | none =>
      rw [hnext] at h
      obtain rfl := Option.some.inj h
      refine ⟨hs, fun pid hunused hnamed => ?_, fun k => ⟨id, fun hk _ => hk⟩⟩
      obtain ⟨listitem, hmem, hkey, hbit⟩ := hnamed
      have hclean := hp.all hnext listitem hmem
      rw [hkey] at hclean
      exact hclean rfl hunused ⟨listitem, hmem, hkey, hbit⟩
    | some listitem =>
      rw [hnext] at h
      dsimp only at h
      have hmem := mem_of_nextAfter hnext
      by_cases hstale : listitem.cadevice = .ofNat 8 i ∧ listitem.hasIndex box.toEnv idx.toNat = true ∧
          d.unused listitem.streampid = true
      · rw [if_pos hstale] at h
        obtain ⟨hdevice, hindex, hunused⟩ := hstale
        rw [hasIndex_of_lt hidx] at hindex
        have huses' : d.Uses listitem.key.1 := by
          change d.Uses listitem.cadevice
          rw [hdevice]
          exact huses
        obtain ⟨hs', htakes⟩ := @disableStream_since box dev d pidindex idx a₀ a hidx hs listitem.key huses' hunused
          ⟨listitem, hmem, rfl, hindex⟩
        have hp' := hp.next (q := fun k => k.1 = .ofNat 8 i → d.unused k.2 = true →
          ¬ Named idx (disableStream box dev d idx listitem.key.2 a).list k) hs.nodup hnext htakes.keys
          (fun k hclean hk hun hnamed => hclean hk hun ((htakes.named k).mp hnamed).1)
          (fun _ _ hnamed => ((htakes.named _).mp hnamed).2 ⟨huses', rfl⟩)
        obtain ⟨hs'', hclean, hrest⟩ := ih hs' hp' h
        refine ⟨hs'', hclean, fun k => ⟨fun hk => ((htakes.named k).mp ((hrest k).1 hk)).1, fun hk hused => ?_⟩⟩
        refine (hrest k).2 ((htakes.named k).mpr ⟨hk, fun hgone => ?_⟩) hused
        rw [hgone.2] at hused
        exact absurd (hused.symm.trans hunused) Bool.false_ne_true
      · rw [if_neg hstale] at h
        refine ih hs (hp.next hs.nodup hnext (List.Sublist.refl _) (fun _ hclean => hclean) ?_) h
        rintro hdevice hunused ⟨other, hother, hkey, hbit⟩
        obtain rfl := List.inj_on_of_nodup_map hs.nodup hother hmem hkey
        refine hstale ⟨hdevice, ?_, hunused⟩
        rw [hasIndex_of_lt hidx]
        exact hbit

/-- The walk ends. -/
theorem disableLoop_ends (hidx : idx.toNat < 31) (huses : d.Uses (.ofNat 8 i)) (cur : Option Key)
    (hs : Since d pidindex idx a₀ a) : ∃ fuel b, disableLoop box dev d idx i fuel a cur = some b := by
  induction hn : a.list.length using Nat.strongRecOn generalizing a cur with
  | _ n ihn =>
    induction hm : toGo Streampid.key a.list cur using Nat.strongRecOn generalizing a cur with
    | _ m ihm =>
      cases hnext : nextAfter Streampid.key a.list cur with
      | none => exact ⟨1, a, by rw [disableLoop, hnext]⟩
      | some listitem =>
        have hcloser := toGo_nextAfter hs.nodup hnext
        generalize hnew : (if listitem.cadevice = .ofNat 8 i ∧ listitem.hasIndex box.toEnv idx.toNat = true ∧
          d.unused listitem.streampid = true then disableStream box dev d idx listitem.streampid a else a) = new
        suffices hrest : ∃ fuel b, disableLoop box dev d idx i fuel new (some listitem.key) = some b by
          obtain ⟨fuel, b, hloop⟩ := hrest
          refine ⟨fuel + 1, b, ?_⟩
          rw [disableLoop, hnext]
          dsimp only
          rw [hnew]
          exact hloop
        by_cases hstale : listitem.cadevice = .ofNat 8 i ∧ listitem.hasIndex box.toEnv idx.toNat = true ∧
            d.unused listitem.streampid = true
        · rw [if_pos hstale] at hnew
          obtain ⟨hdevice, hindex, hunused⟩ := hstale
          rw [hasIndex_of_lt hidx] at hindex
          have huses' : d.Uses listitem.key.1 := by
            change d.Uses listitem.cadevice
            rw [hdevice]
            exact huses
          obtain ⟨hs', htakes⟩ := @disableStream_since box dev d pidindex idx a₀ a hidx hs listitem.key huses'
            hunused ⟨listitem, mem_of_nextAfter hnext, rfl, hindex⟩
          have hsame : disableStream box dev d idx listitem.key.2 a = new := hnew
          rw [hsame] at hs' htakes
          have hle := htakes.keys.length_le
          rw [List.length_map, List.length_map] at hle
          rcases Nat.lt_or_eq_of_le hle with hlt | heq
          · exact ihn _ (hn ▸ hlt) _ hs' rfl
          · have hkeys := htakes.keys.eq_of_length (by rw [List.length_map, List.length_map, heq])
            refine ihm _ ?_ _ hs' (heq.trans hn) rfl
            rw [toGo_map, hkeys, ← toGo_map, ← hm]
            exact hcloser
        · rw [if_neg hstale] at hnew
          rw [← hnew]
          exact ihm _ (hm ▸ hcloser) _ hs hn rfl

theorem disableLoop_mono {fuel fuel' : ℕ} {cur : Option Key} (hle : fuel ≤ fuel')
    (h : disableLoop box dev d idx i fuel a cur = some b) : disableLoop box dev d idx i fuel' a cur = some b := by
  induction fuel generalizing fuel' a cur with
  | zero => cases h
  | succ fuel ih =>
    obtain ⟨fuel', rfl⟩ := Nat.exists_eq_succ_of_ne_zero (Nat.ne_zero_of_lt hle)
    unfold disableLoop at h ⊢
    cases hnext : nextAfter Streampid.key a.list cur with
    | none =>
      rw [hnext] at h
      exact h
    | some listitem =>
      rw [hnext] at h
      exact ih (Nat.le_of_succ_le_succ hle) h

/-- What enabling leaves: the streams of the ECM pid may be set. -/
structure Enables (d : Program) (pidindex : ℕ) (idx : BitVec 32) (a b : Active) : Prop where
  nodup : (b.list.map Streampid.key).Nodup
  outside : b.outside = a.outside
  kept : ∀ k, Named idx a.list k → Named idx b.list k
  sub : ∀ k, Named idx b.list k → Named idx a.list k ∨ d.Uses k.1 ∧ d.Associated pidindex k.2

theorem Enables.trans {c : Active} (h : Enables d pidindex idx a b) (h' : Enables d pidindex idx b c) :
    Enables d pidindex idx a c := by
  refine ⟨h'.nodup, h'.outside.trans h.outside, fun k hk => h'.kept k (h.kept k hk), fun k hk => ?_⟩
  rcases h'.sub k hk with hk | hnew
  · exact h.sub k hk
  · exact Or.inr hnew

theorem Since.enables (hs : Since d pidindex idx a₀ a) (h : Enables d pidindex idx a b) :
    Since d pidindex idx a₀ b := by
  refine ⟨h.nodup, fun k hk => ?_, fun k hk hno => h.kept k (hs.kept k hk hno), fun hout => ?_, ?_⟩
  · rcases h.sub k hk with hk | hnew
    · exact hs.sub k hk
    · exact Or.inr hnew
  · rw [h.outside] at hout
    exact hs.beyond hout
  · intro hlong hin k huses hunused hk
    rw [h.outside] at hin
    exact h.kept k (hs.inside hlong hin k huses hunused hk)

theorem Settled.enables {cadevice : BitVec 8} (hsettled : Settled d pidindex idx a cadevice)
    (h : Enables d pidindex idx a b) : Settled d pidindex idx b cadevice := by
  refine fun pid => ⟨fun hunused hnamed => ?_, fun hassoc => h.kept _ ((hsettled pid).2 hassoc)⟩
  rcases h.sub _ hnamed with hnamed | ⟨-, hassoc⟩
  · exact (hsettled pid).1 hunused hnamed
  · exact absurd (hassoc.unused.symm.trans hunused) Bool.false_ne_true

/-- A stream of the ECM pid is set where it is not. -/
theorem enableStream_enables (hidx : idx.toNat < 31) (hd : (a.list.map Streampid.key).Nodup)
    (hpid : d.pidindex ≠ none) (huses : d.Uses (.ofNat 8 i)) {stream : BitVec 16 × ℕ}
    (hstream : (d.ecmpids pidindex).uses stream.2 = true → d.Associated pidindex stream.1) :
    Enables d pidindex idx a (enableStream box dev d (d.ecmpids pidindex) idx i a stream) ∧
      ((d.ecmpids pidindex).uses stream.2 = true →
        Named idx (enableStream box dev d (d.ecmpids pidindex) idx i a stream).list (.ofNat 8 i, stream.1)) := by
  unfold enableStream
  dsimp only
  generalize hlisted : (a.list.any fun listitem => decide (listitem.cadevice = .ofNat 8 i ∧
    listitem.hasIndex box.toEnv idx.toNat = true ∧ listitem.streampid = stream.1)) = listed
  split_ifs with hset
  · obtain ⟨houtside, hnodup, hnamed⟩ := @setPid_enable box dev d idx a stream.1 hidx hd false hpid
    refine ⟨⟨hnodup, houtside, fun k hk => (hnamed k).mpr (Or.inl hk), fun k hk => ?_⟩, fun _ => ?_⟩
    · rcases (hnamed k).mp hk with hk | ⟨hdevice, hkpid⟩
      · exact Or.inl hk
      · rw [hkpid]
        exact Or.inr ⟨hdevice, hstream hset.1⟩
    · exact (hnamed _).mpr (Or.inr ⟨huses, rfl⟩)
  · refine ⟨⟨hd, rfl, fun _ hk => hk, fun _ hk => Or.inl hk⟩, fun hwanted => ?_⟩
    have htrue : listed = true := Bool.eq_true_of_not_eq_false fun hno => hset ⟨hwanted, hno⟩
    rw [htrue] at hlisted
    obtain ⟨listitem, hmem, hitem⟩ := List.any_eq_true.mp hlisted
    obtain ⟨hdevice, hindex, hkpid⟩ := of_decide_eq_true hitem
    rw [hasIndex_of_lt hidx] at hindex
    exact ⟨listitem, hmem, Prod.ext hdevice hkpid, hindex⟩

theorem enableStreams_enables (hidx : idx.toNat < 31) (hd : (a.list.map Streampid.key).Nodup)
    (hpid : d.pidindex ≠ none) (huses : d.Uses (.ofNat 8 i)) :
    Enables d pidindex idx a (enableStreams box dev d (d.ecmpids pidindex) idx i a) ∧
      ∀ pid, d.Associated pidindex pid →
        Named idx (enableStreams box dev d (d.ecmpids pidindex) idx i a).list (.ofNat 8 i, pid) := by
  unfold enableStreams
  split_ifs with hcount
  · exact ⟨⟨hd, rfl, fun _ hk => hk, fun _ hk => Or.inl hk⟩, fun pid h => absurd hcount h.1⟩
  have hrun : ∀ streams : List (BitVec 16 × ℕ), (∀ stream ∈ streams, (d.ecmpids pidindex).uses stream.2 = true →
      d.Associated pidindex stream.1) → ∀ a : Active, (a.list.map Streampid.key).Nodup →
      Enables d pidindex idx a (streams.foldl (enableStream box dev d (d.ecmpids pidindex) idx i) a) ∧
        ∀ stream ∈ streams, (d.ecmpids pidindex).uses stream.2 = true →
          Named idx (streams.foldl (enableStream box dev d (d.ecmpids pidindex) idx i) a).list
            (.ofNat 8 i, stream.1) := by
    intro streams
    induction streams with
    | nil => exact fun _ a ha => ⟨⟨ha, rfl, fun _ hk => hk, fun _ hk => Or.inl hk⟩, by simp⟩
    | cons stream streams ih =>
      intro hstreams a ha
      obtain ⟨hfirst, hset⟩ := @enableStream_enables box dev d pidindex idx a i hidx ha hpid huses stream
        (hstreams stream List.mem_cons_self)
      obtain ⟨hrest, hsets⟩ := ih (fun s hs => hstreams s (List.mem_cons_of_mem _ hs)) _ hfirst.nodup
      refine ⟨hfirst.trans hrest, fun s hs hwanted => ?_⟩
      rcases List.mem_cons.mp hs with rfl | hs
      · exact hrest.kept _ (hset hwanted)
      · exact hsets s hs hwanted
  obtain ⟨henables, hset⟩ := hrun d.streampids.zipIdx (fun stream hstream hwanted =>
    ⟨hcount, stream.2, List.mem_zipIdx_iff_getElem?.mp hstream, hwanted⟩) a hd
  refine ⟨henables, ?_⟩
  rintro pid ⟨-, n, hn, hwanted⟩
  exact hset (pid, n) (List.mem_zipIdx_iff_getElem?.mpr hn) hwanted

/-- A CA device of the demuxer is settled, and those before it stay so. -/
theorem updateDevice_since (hidx : idx.toNat < 31) (hpid : d.pidindex ≠ none) {fuel : ℕ} (hi : i < CA_MAX)
    (hs : Since d pidindex idx a₀ a) (h : updateDevice box dev d (d.ecmpids pidindex) idx fuel a i = some b) :
    Since d pidindex idx a₀ b ∧ (d.caMask.getLsbD i = true → Settled d pidindex idx b (.ofNat 8 i)) ∧
      ∀ cadevice, Settled d pidindex idx a cadevice → Settled d pidindex idx b cadevice := by
  unfold updateDevice at h
  split_ifs at h with hmask
  case neg =>
    obtain rfl := Option.some.inj h
    exact ⟨hs, fun hno => absurd hno hmask, fun _ => id⟩
  obtain ⟨c, hloop, rfl⟩ := Option.map_eq_some_iff.mp h
  have huses : d.Uses (.ofNat 8 i) := ⟨i, hi, hmask, rfl⟩
  obtain ⟨hs', hclean, hrest⟩ := disableLoop_since hidx huses hs (passed_none _ _ _) hloop
  obtain ⟨henables, hset⟩ := @enableStreams_enables box dev d pidindex idx c i hidx hs'.nodup hpid huses
  refine ⟨hs'.enables henables, fun _ pid => ⟨fun hunused hnamed => ?_, hset pid⟩, fun cadevice hsettled => ?_⟩
  · rcases henables.sub _ hnamed with hnamed | ⟨-, hassoc⟩
    · exact hclean pid hunused hnamed
    · exact absurd (hassoc.unused.symm.trans hunused) Bool.false_ne_true
  · refine Settled.enables (fun pid => ⟨fun hunused hnamed => ?_, fun hassoc => ?_⟩) henables
    · exact (hsettled pid).1 hunused ((hrest _).1 hnamed)
    · exact (hrest _).2 ((hsettled pid).2 hassoc) hassoc.unused

theorem updateDevices_since (hidx : idx.toNat < 31) (hpid : d.pidindex ≠ none) {fuel n : ℕ} (hn : n ≤ CA_MAX)
    (hs : Since d pidindex idx a₀ a)
    (h : (List.range n).foldlM (updateDevice box dev d (d.ecmpids pidindex) idx fuel) a = some b) :
    Since d pidindex idx a₀ b ∧ ∀ i < n, d.caMask.getLsbD i = true → Settled d pidindex idx b (.ofNat 8 i) := by
  induction n generalizing b with
  | zero =>
    obtain rfl := Option.some.inj h
    exact ⟨hs, fun i hi => absurd hi (Nat.not_lt_zero i)⟩
  | succ n ih =>
    rw [List.range_succ, List.foldlM_append] at h
    obtain ⟨c, hc, hlast⟩ := Option.bind_eq_some_iff.mp h
    obtain ⟨hs', hsettled⟩ := ih (Nat.le_of_succ_le hn) hc
    rw [List.foldlM_cons] at hlast
    obtain ⟨b', hb, hnil⟩ := Option.bind_eq_some_iff.mp hlast
    obtain rfl := Option.some.inj hnil
    obtain ⟨hs'', hself, hrest⟩ := updateDevice_since hidx hpid hn hs' hb
    refine ⟨hs'', fun i hi hmask => ?_⟩
    rcases Nat.lt_succ_iff_lt_or_eq.mp hi with hi | rfl
    · exact hrest _ (hsettled i hi hmask)
    · exact hself hmask

theorem updateDevice_mono {ecmpid : Ecmpid} {fuel fuel' : ℕ} (hle : fuel ≤ fuel')
    (h : updateDevice box dev d ecmpid idx fuel a i = some b) :
    updateDevice box dev d ecmpid idx fuel' a i = some b := by
  unfold updateDevice at h ⊢
  split_ifs at h ⊢ with hmask
  · obtain ⟨c, hloop, rfl⟩ := Option.map_eq_some_iff.mp h
    rw [disableLoop_mono hle hloop]
    rfl
  · exact h

theorem updateDevices_mono {ecmpid : Ecmpid} {fuel fuel' : ℕ} (hle : fuel ≤ fuel') {devices : List ℕ}
    (h : devices.foldlM (updateDevice box dev d ecmpid idx fuel) a = some b) :
    devices.foldlM (updateDevice box dev d ecmpid idx fuel') a = some b := by
  induction devices generalizing a with
  | nil => exact h
  | cons i devices ih =>
    rw [List.foldlM_cons] at h ⊢
    obtain ⟨c, hc, hrest⟩ := Option.bind_eq_some_iff.mp h
    exact Option.bind_eq_some_iff.mpr ⟨c, updateDevice_mono hle hc, ih hrest⟩

theorem updateDevices_ends (hidx : idx.toNat < 31) (hpid : d.pidindex ≠ none) {n : ℕ} (hn : n ≤ CA_MAX)
    (hs : Since d pidindex idx a₀ a) :
    ∃ fuel b, (List.range n).foldlM (updateDevice box dev d (d.ecmpids pidindex) idx fuel) a = some b := by
  induction n with
  | zero => exact ⟨0, a, rfl⟩
  | succ n ih =>
    obtain ⟨fuel, c, hc⟩ := ih (Nat.le_of_succ_le hn)
    obtain ⟨hs', -⟩ := updateDevices_since hidx hpid (Nat.le_of_succ_le hn) hs hc
    obtain ⟨fuel', b, hb⟩ : ∃ fuel' b, updateDevice box dev d (d.ecmpids pidindex) idx fuel' c n = some b := by
      unfold updateDevice
      by_cases hmask : d.caMask.getLsbD n = true
      · obtain ⟨fuel', e, he⟩ := @disableLoop_ends box dev d pidindex idx a₀ c n hidx ⟨n, hn, hmask, rfl⟩ none hs'
        exact ⟨fuel', _, by rw [if_pos hmask, he]; rfl⟩
      · exact ⟨0, c, if_neg hmask⟩
    refine ⟨max fuel fuel', b, ?_⟩
    rw [List.range_succ, List.foldlM_append, updateDevices_mono (le_max_left _ _) hc]
    change (List.foldlM _ c [n]) = some b
    rw [List.foldlM_cons, updateDevice_mono (le_max_right _ _) hb]
    rfl

theorem updateDevicesMulti_eq {ecmpid : Ecmpid} {fuel : ℕ} (devices : List ℕ) :
    devices.foldlM (updateDeviceMulti box dev d ecmpid fuel) (a, INDEX_INVALID) = some (a, INDEX_INVALID) := by
  induction devices with
  | nil => rfl
  | cons i devices ih =>
    rw [List.foldlM_cons, updateDeviceMulti, if_pos rfl]
    exact ih

/-- The function returns, and the CA devices have the streams of the ECM pid after it if and only if the list
could be changed so. -/
theorem disableUnusedStreampids_right_iff (box : Box) (dev : Devices) (d : Program) (list : List Streampid)
    (used pidindex : ℕ) (hpid : d.pidindex = some pidindex) (hd : (list.map Streampid.key).Nodup)
    (hidx : d.useMultipleIndices pidindex = false → ((d.ecmpids pidindex).index 0).toNat < 31) :
    (∃ fuel a, disableUnusedStreampids box dev d fuel ⟨list, used, false⟩ = some a) ∧
      ∀ fuel a, disableUnusedStreampids box dev d fuel ⟨list, used, false⟩ = some a →
        (Right box d pidindex a ↔ Changeable box d pidindex ⟨list, used, false⟩) := by
  unfold disableUnusedStreampids Changeable
  rw [hpid]
  dsimp only
  by_cases hempty : list = []
  · simp only [if_pos hempty, if_pos (Or.inl hempty : list = [] ∨ d.useMultipleIndices pidindex = true)]
    refine ⟨⟨0, _, rfl⟩, fun _ a h => ?_⟩
    obtain rfl := Option.some.inj h
    rfl
  cases hmulti : d.useMultipleIndices pidindex with
  | true =>
    simp only [if_neg hempty, if_true, or_true, updateDevicesMulti_eq]
    refine ⟨⟨0, _, rfl⟩, fun _ a h => ?_⟩
    obtain rfl := Option.some.inj h
    rfl
  | false =>
    have hlt := hidx hmulti
    have hsome : d.pidindex ≠ none := by
      rw [hpid]
      exact Option.some_ne_none _
    generalize hindex : (d.ecmpids pidindex).index 0 = idx at hlt
    have hvalid : idx ≠ INDEX_INVALID := by
      rintro rfl
      revert hlt
      decide
    have hs : Since d pidindex idx ⟨list, used, false⟩ ⟨list, used, false⟩ :=
      ⟨hd, fun _ hk => Or.inl hk, fun _ hk _ => hk, fun h => absurd h Bool.false_ne_true, fun _ _ _ _ _ hk => hk⟩
    simp only [Bool.false_eq_true, if_false, if_neg hvalid, hempty, or_self]
    refine ⟨updateDevices_ends hlt hsome (le_refl _) hs, fun fuel a h => ?_⟩
    obtain ⟨hsince, hsettled⟩ := updateDevices_since hlt hsome (le_refl _) hs h
    have hnamed : ∀ k, (∃ idx', d.HasIndex box pidindex idx' ∧ Named idx' a.list k) ↔ Named idx a.list k := by
      intro k
      unfold Program.HasIndex
      simp only [hmulti, Bool.false_eq_true, if_false, hindex]
      exact ⟨fun ⟨idx', hidx', hk⟩ => hidx'.2 ▸ hk, fun hk => ⟨idx, ⟨hvalid, rfl⟩, hk⟩⟩
    constructor
    · intro hright i hi hmask pid hk
      have huses : d.Uses (.ofNat 8 i) := ⟨i, hi, hmask, rfl⟩
      split_ifs with hunused
      · refine Nat.not_le.mp fun hlong => ?_
        exact (hsettled i hi hmask pid).1 hunused (hsince.inside hlong hright.inside _ huses hunused hk)
      · refine (hright.streams i hi hmask pid).mp ((hnamed _).mpr (hsince.kept _ hk fun h => hunused h.2))
    · intro hchange
      refine ⟨fun i hi hmask pid => ?_, Bool.eq_false_of_not_eq_true fun hout => ?_⟩
      · rw [hnamed]
        refine ⟨fun hk => ?_, (hsettled i hi hmask pid).2⟩
        rcases hsince.sub _ hk with hk₀ | hassoc
        · have hused : ¬ d.unused pid = true := fun hunused => (hsettled i hi hmask pid).1 hunused hk
          have hassoc := hchange i hi hmask pid hk₀
          rw [if_neg hused] at hassoc
          exact hassoc
        · exact hassoc.2
      · obtain ⟨hlong, k, ⟨i, hi, hmask, hdevice⟩, hunused, hk⟩ := hsince.beyond hout
        have hkey : k = (.ofNat 8 i, k.2) := Prod.ext hdevice rfl
        rw [hkey] at hk
        have hshort := hchange i hi hmask k.2 hk
        rw [if_pos hunused] at hshort
        exact absurd hlong (Nat.not_le.mpr hshort)

/-- The stream of an old programme on the CA device makes room for the new one. -/
theorem disableUnusedStreampids_right_zapped :
    ∃ fuel a, disableUnusedStreampids ⟨⟨0, fun _ => 0⟩, 1, 1, 1⟩ ⟨true, fun _ => true, fun _ _ => true⟩
      ⟨⟨1, fun _ => ⟨.free, 0⟩, 1, fun _ => ⟨fun _ => 0, 0⟩, [0x100], some 0, 1⟩, fun _ => false⟩ fuel
      ⟨[⟨0x200, 0, 0, 1, false⟩], 1, false⟩ = some a ∧
    Right ⟨⟨0, fun _ => 0⟩, 1, 1, 1⟩
      ⟨⟨1, fun _ => ⟨.free, 0⟩, 1, fun _ => ⟨fun _ => 0, 0⟩, [0x100], some 0, 1⟩, fun _ => false⟩ 0 a := by
  obtain ⟨⟨fuel, a, h⟩, hiff⟩ := disableUnusedStreampids_right_iff ⟨⟨0, fun _ => 0⟩, 1, 1, 1⟩
    ⟨true, fun _ => true, fun _ _ => true⟩
    ⟨⟨1, fun _ => ⟨.free, 0⟩, 1, fun _ => ⟨fun _ => 0, 0⟩, [0x100], some 0, 1⟩, fun _ => false⟩
    [⟨0x200, 0, 0, 1, false⟩] 1 0 rfl (by decide) fun _ => by decide
  refine ⟨fuel, a, h, (hiff fuel a h).mpr ?_⟩
  unfold Changeable
  rw [if_neg (by decide)]
  intro i _ _ pid hnamed
  obtain ⟨listitem, hmem, hkey, -⟩ := hnamed
  obtain rfl := List.mem_singleton.mp hmem
  obtain rfl : 0x200 = pid := congrArg Prod.snd hkey
  rw [if_pos (by decide)]
  decide

/-- With an index for every stream the old programme keeps the CA device. -/
theorem disableUnusedStreampids_two_indices :
    ∃ a, disableUnusedStreampids ⟨⟨0, fun _ => 0⟩, 1, 2, 2⟩ ⟨true, fun _ => true, fun _ _ => true⟩
      ⟨⟨1, fun _ => ⟨.free, 0⟩, 1, fun _ => ⟨fun j => .ofNat 32 j, 0⟩, [0x100, 0x101], some 0, 1⟩,
        fun _ => true⟩ 2 ⟨[⟨0x200, 0, 0, 1, false⟩], 1, false⟩ = some a ∧
      ¬ Right ⟨⟨0, fun _ => 0⟩, 1, 2, 2⟩
        ⟨⟨1, fun _ => ⟨.free, 0⟩, 1, fun _ => ⟨fun j => .ofNat 32 j, 0⟩, [0x100, 0x101], some 0, 1⟩,
          fun _ => true⟩ 0 a := by
  refine ⟨⟨[⟨0x200, 0, 0, 1, false⟩], 1, false⟩, rfl, fun h => ?_⟩
  have hold := (h.streams 0 (by decide) (by decide) 0x200).mp
    ⟨0, ⟨by decide, 0, by decide, rfl⟩, _, List.mem_singleton_self _, rfl, by decide⟩
  obtain ⟨-, n, hn, -⟩ := hold
  have hmem := List.mem_of_getElem? hn
  revert hmem
  decide

end Passes

end NCam.Dvbapi.UnusedStreams
