import NCam.Dvbapi.Demuxers
import NCam.Lib.Slots
import NCam.Lib.Transition

/-! Calls on the list of stream pids in any order: the list names the indices that were added and not
removed, as long as the shifts of an int can. -/
namespace NCam.Dvbapi

open NCam.Lib

variable (env : Env)

/-- The list, and for every stream pid the indices that were added and not removed since. -/
structure Listing where
  list : List Streampid
  added : Key → ℕ → Bool

inductive Query
  | update (cadevice : BitVec 8) (pid : BitVec 16) (idx : BitVec 32) (useDes : Bool)
  | remove (cadevice : BitVec 8) (pid : BitVec 16) (idx : BitVec 32)
  | isCaUsed (cadevice : BitVec 8) (pid : BitVec 32)

/-- An index is set or taken back, all of them with `INDEX_DISABLE_ALL`. -/
def addIndex (idx : BitVec 32) (indices : ℕ → Bool) : ℕ → Bool := Function.update indices idx.toNat true

def removeIndex (idx : BitVec 32) (indices : ℕ → Bool) : ℕ → Bool :=
  if idx = INDEX_DISABLE_ALL then fun _ => false else Function.update indices idx.toNat false

/-- One call. -/
def Listing.call (s : Listing) : Query → Option Listing
  | .update cadevice pid idx useDes =>
    if idx.toNat < INDEX_MAX then
      some ⟨(updateStreampidList env cadevice pid idx useDes s.list).1,
        Function.update s.added (cadevice, pid) (addIndex idx (s.added (cadevice, pid)))⟩
    else none
  | .remove cadevice pid idx =>
    if idx.toNat < INDEX_MAX ∨ idx = INDEX_DISABLE_ALL then
      some ⟨(removeStreampidFromList env cadevice pid idx s.list).1,
        Function.update s.added (cadevice, pid) (removeIndex idx (s.added (cadevice, pid)))⟩
    else none
  | .isCaUsed cadevice pid => some ⟨(isCaUsed env cadevice pid s.list).1, s.added⟩

def listing : System Listing Query where
  init s := s = ⟨[], fun _ _ => false⟩
  next s q := s.call env q

/-- The list says which stream pids are descrambled with which indices. -/
structure Listing.Right (s : Listing) : Prop where
  one : ∀ key : Key, s.list.countP (fun listitem => listitem.key = key) =
    if ∃ i < INDEX_MAX, s.added key i = true then 1 else 0
  bits : ∀ listitem ∈ s.list, ∀ i < INDEX_MAX,
    listitem.activeindexers.getLsbD i = s.added listitem.key i
  caindex : ∀ listitem ∈ s.list, listitem.caindex = INDEX_INVALID ∨
    (listitem.caindex.toNat < INDEX_MAX ∧ s.added listitem.key listitem.caindex.toNat = true)
  used : ∀ cadevice, (isCaUsed env cadevice 0 s.list).2 = INDEX_INVALID →
    ∀ listitem ∈ s.list, listitem.cadevice ≠ cadevice

/-- No index from 31 on is set; one from 32 on is taken back, and `INDEX_DISABLE_ALL` is used, only for a
stream pid that is not listed. -/
def Listing.Small (s : Listing) : Query → Prop
  | .update _ _ idx _ => idx.toNat < 31
  | .remove cadevice pid idx => idx.toNat < 32 ∨ ∀ listitem ∈ s.list, listitem.key ≠ (cadevice, pid)
  | .isCaUsed _ _ => True

instance (s : Listing) : (q : Query) → Decidable (s.Small q)
  | .update _ _ idx _ => inferInstanceAs (Decidable (idx.toNat < 31))
  | .remove cadevice pid idx => inferInstanceAs (Decidable (idx.toNat < 32 ∨
      ∀ listitem ∈ s.list, listitem.key ≠ (cadevice, pid)))
  | .isCaUsed _ _ => inferInstanceAs (Decidable True)


section Bits

variable {env} {x : Streampid} {i j : ℕ}

/-- Below 31 the int has the one bit that is meant. -/
theorem shifted_getLsbD (hi : i < 31) : (env.shifted i).getLsbD j = decide (j = i) := by
  have hmsb : ((1 : BitVec 32) <<< i).msb = false := by
    rw [BitVec.msb_eq_getLsbD_last, BitVec.getLsbD_shiftLeft]
    simp
    omega
  unfold Env.shifted
  rw [if_pos (by omega), BitVec.signExtend_eq_setWidth_of_msb_false hmsb, BitVec.getLsbD_setWidth,
    BitVec.getLsbD_shiftLeft]
  change (decide (j < 64) && (decide (j < 32) && !decide (j < i) && BitVec.getLsbD 1#32 (j - i))) = _
  rw [BitVec.getLsbD_one, Bool.eq_iff_iff]
  simp only [Bool.and_eq_true, Bool.not_eq_true', decide_eq_true_eq, decide_eq_false_iff_not]
  omega

theorem hasIndex_iff : x.hasIndex env i = true ↔
    ∀ j < 64, (env.shifted i).getLsbD j = true → x.activeindexers.getLsbD j = true := by
  unfold Streampid.hasIndex
  rw [decide_eq_true_iff]
  constructor
  · intro h j _ hbit
    rw [← h, BitVec.getLsbD_and, Bool.and_eq_true] at hbit
    exact hbit.1
  · intro h
    apply BitVec.eq_of_getLsbD_eq
    intro j hj
    rw [BitVec.getLsbD_and]
    cases hbit : (env.shifted i).getLsbD j with
    | false => exact Bool.and_false _
    | true => rw [h j hj hbit, Bool.and_true]

theorem hasIndex_of_lt (hi : i < 31) : x.hasIndex env i = x.activeindexers.getLsbD i := by
  rw [Bool.eq_iff_iff, hasIndex_iff]
  constructor
  · intro h
    exact h i (by omega) (by rw [shifted_getLsbD hi, decide_eq_true rfl])
  · intro h j hj hbit
    rw [shifted_getLsbD hi] at hbit
    rw [of_decide_eq_true hbit]
    exact h

/-- The int for 31 is negative, and so the 64 bit number has the bit 32 too. -/
theorem hasIndex_31 (h : x.activeindexers.getLsbD 32 = false) : x.hasIndex env 31 = false := by
  have hbit : (env.shifted 31).getLsbD 32 = true := by
    unfold Env.shifted
    rw [if_pos (by omega)]
    decide
  rw [← Bool.not_eq_true, hasIndex_iff]
  intro hall
  rw [hall 32 (by omega) hbit] at h
  cases h

end Bits

section Step

variable {env} {s : Listing} {x y : Streampid} {pre post : List Streampid} {key : Key} {idx : BitVec 32}
  {indices : ℕ → Bool} {q : Query} {t : Listing}

/-- A listed stream pid with these indices. -/
structure Streampid.Holds (x : Streampid) (indices : ℕ → Bool) : Prop where
  bits : ∀ i < INDEX_MAX, x.activeindexers.getLsbD i = indices i
  some : ∃ i < INDEX_MAX, indices i = true
  caindex : x.caindex = INDEX_INVALID ∨
    (x.caindex.toNat < INDEX_MAX ∧ indices x.caindex.toNat = true)

/-- What every call without a shift by 31 or more keeps. -/
structure Listed (list : List Streampid) (added : Key → ℕ → Bool) : Prop where
  nodup : (list.map Streampid.key).Nodup
  holds : ∀ x ∈ list, x.Holds (added x.key)
  listed : ∀ key i, added key i = true → ∃ x ∈ list, x.key = key
  small : ∀ key i, added key i = true → i < 31

variable {list list' : List Streampid} {added : Key → ℕ → Bool}

/-- The list changes for one stream pid only. -/
theorem Listed.change (h : Listed list added) (hnodup : (list'.map Streampid.key).Nodup)
    (hholds : ∀ x ∈ list', (x.key = key ∧ x.Holds indices) ∨ (x.key ≠ key ∧ x ∈ list))
    (hlisted : ∀ i, indices i = true → ∃ x ∈ list', x.key = key)
    (hrest : ∀ x ∈ list, x.key ≠ key → x ∈ list') (hsmall : ∀ i, indices i = true → i < 31) :
    Listed list' (Function.update added key indices) where
  nodup := hnodup
  holds := by
    intro x hx
    rcases hholds x hx with ⟨hkey, hself⟩ | ⟨hkey, hold⟩
    · rw [hkey, Function.update_self]
      exact hself
    · rw [Function.update_of_ne hkey]
      exact h.holds x hold
  listed := by
    intro k i hadded
    by_cases hself : k = key
    · rw [hself, Function.update_self] at hadded
      rw [hself]
      exact hlisted i hadded
    · rw [Function.update_of_ne hself] at hadded
      obtain ⟨x, hx, rfl⟩ := h.listed k i hadded
      exact ⟨x, hrest x hx hself, rfl⟩
  small := by
    intro k i hadded
    by_cases hself : k = key
    · rw [hself, Function.update_self] at hadded
      exact hsmall i hadded
    · rw [Function.update_of_ne hself] at hadded
      exact h.small k i hadded

theorem Listed.key_ne (h : Listed (pre ++ x :: post) added) : ∀ y ∈ pre ++ post, y.key ≠ x.key := by
  have hnodup := h.nodup
  rw [List.map_append, List.map_cons, List.nodup_middle, List.nodup_cons] at hnodup
  intro y hy heq
  apply hnodup.1
  rw [← List.map_append, ← heq]
  exact List.mem_map_of_mem hy

/-- One listed stream pid is replaced. -/
theorem Listed.replace (h : Listed (pre ++ x :: post) added) (hkey : y.key = x.key)
    (hy : y.Holds indices) (hsmall : ∀ i, indices i = true → i < 31) :
    Listed (pre ++ y :: post) (Function.update added x.key indices) := by
  refine h.change ?_ ?_ ?_ ?_ hsmall
  · have hnodup := h.nodup
    rw [List.map_append, List.map_cons] at hnodup
    rw [List.map_append, List.map_cons, hkey]
    exact hnodup
  · intro z hz
    rw [List.mem_append, List.mem_cons, or_left_comm, ← List.mem_append] at hz
    rcases hz with rfl | hz
    · exact Or.inl ⟨hkey, hy⟩
    · refine Or.inr ⟨h.key_ne z hz, ?_⟩
      rw [List.mem_append, List.mem_cons, or_left_comm, ← List.mem_append]
      exact Or.inr hz
  · exact fun i _ => ⟨y, List.mem_append_right pre List.mem_cons_self, hkey⟩
  · intro z hz hne
    rw [List.mem_append, List.mem_cons, or_left_comm, ← List.mem_append] at hz ⊢
    rcases hz with rfl | hz
    · exact absurd rfl hne
    · exact Or.inr hz

/-- One is removed with its last index. -/
theorem Listed.erase (h : Listed (pre ++ x :: post) added) (hnone : ∀ i, indices i = false) :
    Listed (pre ++ post) (Function.update added x.key indices) := by
  refine h.change ?_ ?_ ?_ ?_ ?_
  · have hnodup := h.nodup
    rw [List.map_append, List.map_cons, List.nodup_middle, List.nodup_cons] at hnodup
    rw [List.map_append]
    exact hnodup.2
  · intro z hz
    refine Or.inr ⟨h.key_ne z hz, ?_⟩
    rw [List.mem_append, List.mem_cons, or_left_comm, ← List.mem_append]
    exact Or.inr hz
  · intro i hi
    rw [hnone] at hi
    cases hi
  · intro z hz hne
    rw [List.mem_append, List.mem_cons, or_left_comm, ← List.mem_append] at hz
    rcases hz with rfl | hz
    · exact absurd rfl hne
    · exact hz
  · intro i hi
    rw [hnone] at hi
    cases hi

/-- A new one is appended. -/
theorem Listed.append (h : Listed list added) (hnew : ∀ y ∈ list, y.key ≠ x.key) (hx : x.Holds indices)
    (hsmall : ∀ i, indices i = true → i < 31) :
    Listed (list ++ [x]) (Function.update added x.key indices) := by
  refine h.change ?_ ?_ ?_ ?_ hsmall
  · rw [List.map_append, List.map_singleton]
    refine List.nodup_append.mpr ⟨h.nodup, List.nodup_singleton _, ?_⟩
    intro k hk k' hk' heq
    obtain ⟨y, hy, rfl⟩ := List.mem_map.mp hk
    exact hnew y hy (heq.trans (List.mem_singleton.mp hk'))
  · intro z hz
    rcases List.mem_append.mp hz with hold | hlast
    · exact Or.inr ⟨hnew z hold, hold⟩
    · rw [List.mem_singleton.mp hlast]
      exact Or.inl ⟨rfl, hx⟩
  · exact fun i _ => ⟨x, List.mem_append_right _ List.mem_cons_self, rfl⟩
  · exact fun z hz _ => List.mem_append_left _ hz

/-- Indices that are not listed, and are not added. -/
theorem Listed.absent (h : Listed list added) (hnew : ∀ y ∈ list, y.key ≠ key) (i : ℕ) :
    added key i = false := by
  rw [← Bool.not_eq_true]
  intro hadded
  obtain ⟨x, hx, hkey⟩ := h.listed key i hadded
  exact hnew x hx hkey

theorem isFor_iff {cadevice : BitVec 8} {pid : BitVec 16} :
    x.isFor cadevice pid = true ↔ x.key = (cadevice, pid) := by
  unfold Streampid.isFor Streampid.key
  rw [decide_eq_true_iff, Prod.mk.injEq, eq_comm, @eq_comm _ pid]

/-- A walk for a stream pid: it is not listed, or it is the only one that matches. -/
theorem Listed.walk {β : Type} {f : Streampid → List Streampid × β} {cadevice : BitVec 8} {pid : BitVec 16}
    (h : Listed list added) :
    (onFirst (Streampid.isFor cadevice pid) f list = none ∧ ∀ y ∈ list, y.key ≠ (cadevice, pid)) ∨
      ∃ pre x post, list = pre ++ x :: post ∧ x.key = (cadevice, pid) ∧
        onFirst (Streampid.isFor cadevice pid) f list = some (pre ++ ((f x).1 ++ post), (f x).2) := by
  cases hr : onFirst (Streampid.isFor cadevice pid) f list with
  | none =>
    refine Or.inl ⟨rfl, fun y hy hkey => ?_⟩
    have hno := onFirst_eq_none.mp hr y hy
    rw [isFor_iff.mpr hkey] at hno
    cases hno
  | some r =>
    obtain ⟨pre, x, post, hlist, -, hx, rfl⟩ := onFirst_eq_some hr
    exact Or.inr ⟨pre, x, post, hlist, isFor_iff.mp hx, rfl⟩

/-- A stream pid keeps its place with one more index. -/
theorem addIndexer_holds {useDes : Bool} (hx : x.Holds indices) (hidx : idx.toNat < 31) :
    ∃ y, (x.addIndexer env idx useDes).1 = [y] ∧ y.key = x.key ∧ y.Holds (addIndex idx indices) := by
  have hadd : ∀ j, addIndex idx indices j = (indices j || decide (j = idx.toNat)) := by
    intro j
    unfold addIndex
    by_cases hj : j = idx.toNat
    · rw [hj, Function.update_self, decide_eq_true rfl, Bool.or_true]
    · rw [Function.update_of_ne hj, decide_eq_false hj, Bool.or_false]
  have hcaindex : x.caindex = INDEX_INVALID ∨
      (x.caindex.toNat < INDEX_MAX ∧ addIndex idx indices x.caindex.toNat = true) := by
    rcases hx.caindex with hinv | ⟨hlt, hset⟩
    · exact Or.inl hinv
    · refine Or.inr ⟨hlt, ?_⟩
      rw [hadd, hset, Bool.true_or]
  have hsome : ∃ i < INDEX_MAX, addIndex idx indices i = true := by
    refine ⟨idx.toNat, Nat.lt_trans hidx (by decide), ?_⟩
    rw [hadd, decide_eq_true rfl, Bool.or_true]
  have hbits : ∀ j < INDEX_MAX, (if x.hasIndex env idx.toNat then x.activeindexers
      else x.activeindexers ||| env.shifted idx.toNat).getLsbD j = addIndex idx indices j := by
    intro j hj
    rw [hadd, ← hx.bits j hj, hasIndex_of_lt hidx]
    split_ifs with hset
    · by_cases hji : j = idx.toNat
      · rw [hji, hset, Bool.true_or]
      · rw [decide_eq_false hji, Bool.or_false]
    · rw [BitVec.getLsbD_or, shifted_getLsbD hidx]
  unfold Streampid.addIndexer
  dsimp only
  split_ifs at hbits ⊢ with hset hother hother
  · exact ⟨_, rfl, rfl, hbits, hsome, hcaindex⟩
  · exact ⟨_, rfl, rfl, hbits, hsome, hcaindex⟩
  · exact ⟨_, rfl, rfl, hbits, hsome, hcaindex⟩
  · exact ⟨_, rfl, rfl, hbits, hsome, hcaindex⟩

theorem addIndex_lt (hsmall : ∀ i, indices i = true → i < 31) (hidx : idx.toNat < 31) :
    ∀ i, addIndex idx indices i = true → i < 31 := by
  intro i hi
  unfold addIndex at hi
  by_cases hself : i = idx.toNat
  · omega
  · rw [Function.update_of_ne hself] at hi
    exact hsmall i hi

theorem Listed.update {cadevice : BitVec 8} {pid : BitVec 16} {useDes : Bool} (h : Listed list added)
    (hidx : idx.toNat < 31) :
    Listed (updateStreampidList env cadevice pid idx useDes list).1
      (Function.update added (cadevice, pid) (addIndex idx (added (cadevice, pid)))) := by
  have hin : ¬ INDEX_MAX ≤ idx.toNat := Nat.not_le.mpr (Nat.lt_trans hidx (by decide))
  have hlt := addIndex_lt (h.small (cadevice, pid)) hidx
  unfold updateStreampidList
  rw [if_neg hin]
  rcases @walk list added _ (Streampid.addIndexer env idx useDes) cadevice pid h with
    ⟨hnone, hnew⟩ | ⟨pre, x, post, rfl, hkey, hsome⟩
  · rw [hnone, Option.getD_none]
    have habsent := h.absent hnew
    have hadd : ∀ j, addIndex idx (added (cadevice, pid)) j = decide (j = idx.toNat) := by
      intro j
      unfold addIndex
      by_cases hj : j = idx.toNat
      · rw [hj, Function.update_self, decide_eq_true rfl]
      · rw [Function.update_of_ne hj, habsent, decide_eq_false hj]
    refine @h.append ⟨pid, cadevice, idx, env.shifted idx.toNat, useDes⟩ _ _ _ hnew ⟨?_, ?_, ?_⟩ hlt
    · intro j hj
      rw [hadd, shifted_getLsbD hidx]
    · exact ⟨idx.toNat, Nat.not_le.mp hin, by rw [hadd, decide_eq_true rfl]⟩
    · exact Or.inr ⟨Nat.not_le.mp hin, by rw [hadd, decide_eq_true rfl]⟩
  · rw [hsome, Option.getD_some]
    obtain ⟨y, hy, hykey, hholds⟩ := @addIndexer_holds env x idx _ useDes
      (h.holds x (List.mem_append_right pre List.mem_cons_self)) hidx
    rw [hy, ← hkey]
    exact h.replace hykey hholds (hkey ▸ hlt)

theorem removeIndex_self (hnone : ∀ i, indices i = false) : removeIndex idx indices = indices := by
  unfold removeIndex
  funext i
  split_ifs
  · rw [hnone]
  · by_cases hself : i = idx.toNat
    · rw [hself, Function.update_self, hnone]
    · rw [Function.update_of_ne hself]

/-- Taking back an index below 32 leaves the other indices, and removes the stream pid with the last one. -/
theorem removeIndexer_holds (hx : x.Holds indices) (hsmall : ∀ i, indices i = true → i < 31)
    (hidx : idx.toNat < 32) :
    ((x.removeIndexer env idx).1 = [] ∧ ∀ i, removeIndex idx indices i = false) ∨
      ∃ y, (x.removeIndexer env idx).1 = [y] ∧ y.key = x.key ∧ y.Holds (removeIndex idx indices) := by
  have hall : idx ≠ INDEX_DISABLE_ALL := by
    rintro rfl
    revert hidx
    decide
  have hremove : ∀ j, removeIndex idx indices j = (indices j && !decide (j = idx.toNat)) := by
    intro j
    unfold removeIndex
    rw [if_neg hall]
    by_cases hj : j = idx.toNat
    · rw [hj, Function.update_self, decide_eq_true rfl, Bool.not_true, Bool.and_false]
    · rw [Function.update_of_ne hj, decide_eq_false hj, Bool.not_false, Bool.and_true]
  cases hset : x.hasIndex env idx.toNat with
  | false =>
    have hno : indices idx.toNat = false := by
      rw [← Bool.not_eq_true]
      intro htrue
      have hlt := hsmall _ htrue
      rw [hasIndex_of_lt hlt, hx.bits _ (Nat.lt_trans hlt (by decide)), htrue] at hset
      cases hset
    have hsame : removeIndex idx indices = indices := by
      funext j
      rw [hremove]
      by_cases hj : j = idx.toNat
      · rw [hj, hno, Bool.false_and]
      · rw [decide_eq_false hj, Bool.not_false, Bool.and_true]
    right
    unfold Streampid.removeIndexer
    rw [if_neg hall, hset, if_neg Bool.false_ne_true, hsame]
    dsimp only
    rw [if_neg fun hno => Bool.false_ne_true hno.2, if_neg Bool.false_ne_true]
    exact ⟨x, rfl, rfl, hx⟩
  | true =>
    have hlt : idx.toNat < 31 := by
      by_contra hge
      have heq : idx.toNat = 31 := by omega
      have h32 : x.activeindexers.getLsbD 32 = false := by
        rw [hx.bits 32 (by decide), ← Bool.not_eq_true]
        intro htrue
        exact absurd (hsmall 32 htrue) (by decide)
      rw [heq, hasIndex_31 h32] at hset
      cases hset
    have hbits : ∀ j < INDEX_MAX, (x.activeindexers &&& ~~~env.shifted idx.toNat).getLsbD j =
        removeIndex idx indices j := by
      intro j hj
      have hj64 : j < 64 := hj
      rw [hremove, BitVec.getLsbD_and, BitVec.getLsbD_not, shifted_getLsbD hlt, hx.bits j hj,
        decide_eq_true hj64, Bool.true_and]
    unfold Streampid.removeIndexer
    rw [if_neg hall, hset, if_pos rfl]
    dsimp only
    by_cases hzero : x.activeindexers &&& ~~~env.shifted idx.toNat = 0
    · left
      rw [if_pos ⟨hzero, rfl⟩]
      refine ⟨rfl, fun i => ?_⟩
      rw [← Bool.not_eq_true]
      intro htrue
      have hi : i < INDEX_MAX := by
        rw [hremove, Bool.and_eq_true] at htrue
        exact Nat.lt_trans (hsmall i htrue.1) (by decide)
      rw [← hbits i hi, hzero] at htrue
      change BitVec.getLsbD 0#64 i = true at htrue
      rw [BitVec.getLsbD_zero] at htrue
      cases htrue
    · right
      rw [if_neg fun h => hzero h.1, if_pos rfl]
      have hsome : ∃ i < INDEX_MAX, removeIndex idx indices i = true := by
        by_contra hno
        apply hzero
        apply BitVec.eq_of_getLsbD_eq
        intro i hi
        change _ = BitVec.getLsbD 0#64 i
        rw [hbits i hi, BitVec.getLsbD_zero, ← Bool.not_eq_true]
        exact fun htrue => hno ⟨i, hi, htrue⟩
      by_cases hdecoding : idx ≠ INDEX_DISABLE_ALL ∧ idx ≠ x.caindex
      · rw [if_pos hdecoding]
        refine ⟨_, rfl, rfl, hbits, hsome, ?_⟩
        rcases hx.caindex with hinv | ⟨hin, hindex⟩
        · exact Or.inl hinv
        · refine Or.inr ⟨hin, ?_⟩
          have hne : x.caindex.toNat ≠ idx.toNat := fun h =>
            hdecoding.2 (BitVec.eq_of_toNat_eq h.symm)
          change removeIndex idx indices x.caindex.toNat = true
          rw [hremove, hindex, decide_eq_false hne]
          rfl
      · rw [if_neg hdecoding]
        exact ⟨_, rfl, rfl, hbits, hsome, Or.inl rfl⟩

theorem removeIndex_lt (hsmall : ∀ i, indices i = true → i < 31) :
    ∀ i, removeIndex idx indices i = true → i < 31 := by
  intro i hi
  unfold removeIndex at hi
  split_ifs at hi
  by_cases hself : i = idx.toNat
  · rw [hself, Function.update_self] at hi
    cases hi
  · rw [Function.update_of_ne hself] at hi
    exact hsmall i hi

theorem Listed.remove {cadevice : BitVec 8} {pid : BitVec 16} (h : Listed list added)
    (hidx : idx.toNat < 32 ∨ ∀ y ∈ list, y.key ≠ (cadevice, pid)) :
    Listed (removeStreampidFromList env cadevice pid idx list).1
      (Function.update added (cadevice, pid) (removeIndex idx (added (cadevice, pid)))) := by
  have hunlisted : (∀ y ∈ list, y.key ≠ (cadevice, pid)) →
      Function.update added (cadevice, pid) (removeIndex idx (added (cadevice, pid))) = added := by
    intro hnew
    rw [removeIndex_self (h.absent hnew), Function.update_eq_self]
  unfold removeStreampidFromList
  rcases @walk list added _ (Streampid.removeIndexer env idx) cadevice pid h with
    ⟨hnone, hnew⟩ | ⟨pre, x, post, rfl, hkey, hsome⟩
  · rw [hnone, hunlisted hnew]
    split_ifs <;> exact h
  · have hlt : idx.toNat < 32 := by
      rcases hidx with hlt | hnew
      · exact hlt
      · exact absurd hkey (hnew x (List.mem_append_right pre List.mem_cons_self))
    have hin : ¬ INDEX_MAX ≤ idx.toNat := Nat.not_le.mpr (Nat.lt_trans hlt (by decide))
    rw [if_neg hin, hsome, Option.getD_some, ← hkey]
    rcases @removeIndexer_holds env x idx _ (h.holds x (List.mem_append_right pre List.mem_cons_self))
      (h.small x.key) hlt with ⟨hy, hnone⟩ | ⟨y, hy, hykey, hholds⟩
    · rw [hy]
      exact h.erase hnone
    · rw [hy]
      exact h.replace hykey hholds (removeIndex_lt (h.small x.key))

/-- A listed stream pid has a fresh index. -/
theorem fresh_holds (hx : x.Holds indices) (hsmall : ∀ i, indices i = true → i < 31) :
    (x.fresh env).key = x.key ∧ (x.fresh env).Holds indices ∧ (x.fresh env).caindex ≠ INDEX_INVALID := by
  unfold Streampid.fresh
  by_cases hinv : x.caindex = INDEX_INVALID
  · rw [if_pos hinv]
    obtain ⟨i, hi, hset⟩ := hx.some
    have hindex : ∀ j < 31, x.hasIndex env j = indices j := fun j hj => by
      rw [hasIndex_of_lt hj, hx.bits j (Nat.lt_trans hj (by decide))]
    cases hfind : (List.range INDEX_MAX).find? (x.hasIndex env) with
    | none =>
      have hno := List.find?_eq_none.mp hfind i (List.mem_range.mpr hi)
      rw [hindex i (hsmall i hset)] at hno
      exact absurd hset hno
    | some k =>
      obtain ⟨hk, hfound, hbefore⟩ := Slots.firstWhere_eq_some (p := x.hasIndex env) (t := id) hfind
      have hki : k ≤ i := by
        by_contra hlt
        have hno := hbefore i (by omega)
        change x.hasIndex env i = false at hno
        rw [hindex i (hsmall i hset), hset] at hno
        cases hno
      have hk31 : k < 31 := Nat.lt_of_le_of_lt hki (hsmall i hset)
      change x.hasIndex env k = true at hfound
      rw [hindex k hk31] at hfound
      have hnat : (BitVec.ofNat 32 k).toNat = k := by
        rw [BitVec.toNat_ofNat]
        omega
      refine ⟨rfl, ⟨hx.bits, hx.some, Or.inr ?_⟩, ?_⟩
      · change (BitVec.ofNat 32 k).toNat < INDEX_MAX ∧ indices (BitVec.ofNat 32 k).toNat = true
        rw [hnat]
        exact ⟨hk, hfound⟩
      · intro heq
        have hbig := congrArg BitVec.toNat heq
        change (BitVec.ofNat 32 k).toNat = INDEX_INVALID.toNat at hbig
        rw [hnat] at hbig
        rw [hbig] at hk31
        exact absurd hk31 (by decide)
  · rw [if_neg hinv]
    exact ⟨rfl, hx, hinv⟩

theorem Listed.walkOn {cadevice : BitVec 8} {pid : BitVec 32} (h : Listed list added) :
    (isCaUsed env cadevice pid list = (list, INDEX_INVALID) ∧
      ∀ y ∈ list, y.isOn cadevice pid = false) ∨
      (Listed (isCaUsed env cadevice pid list).1 added ∧
        (isCaUsed env cadevice pid list).2 ≠ INDEX_INVALID) := by
  unfold isCaUsed
  cases hr : onFirst (Streampid.isOn cadevice pid) (Streampid.decoding env) list with
  | none => exact Or.inl ⟨rfl, onFirst_eq_none.mp hr⟩
  | some r =>
    right
    obtain ⟨pre, x, post, rfl, -, -, rfl⟩ := onFirst_eq_some hr
    obtain ⟨hkey, hholds, hvalid⟩ := @fresh_holds env x (added x.key)
      (h.holds x (List.mem_append_right pre List.mem_cons_self)) (h.small x.key)
    have hdecoding : x.decoding env = ([x.fresh env], (x.fresh env).caindex) := if_neg hvalid
    rw [Option.getD_some, hdecoding]
    have hsame := h.replace hkey hholds (h.small x.key)
    rw [Function.update_eq_self] at hsame
    exact ⟨hsame, hvalid⟩

theorem Listed.right (h : Listed s.list s.added) : s.Right env where
  one := by
    intro key
    by_cases hkey : ∃ x ∈ s.list, x.key = key
    · obtain ⟨x, hx, rfl⟩ := hkey
      have hcount : s.list.countP (fun listitem => listitem.key = x.key) =
          (s.list.map Streampid.key).count x.key := by
        rw [List.count, List.countP_map]
        apply List.countP_congr
        intro y _
        rw [decide_eq_true_iff, Function.comp_apply, beq_iff_eq]
      rw [hcount, List.count_eq_one_of_mem h.nodup (List.mem_map_of_mem hx), if_pos (h.holds x hx).some]
    · have hnone : ¬ ∃ i < INDEX_MAX, s.added key i = true := by
        rintro ⟨i, -, hi⟩
        exact hkey (h.listed key i hi)
      rw [if_neg hnone, List.countP_eq_zero]
      intro x hx hself
      exact hkey ⟨x, hx, of_decide_eq_true hself⟩
  bits := fun x hx => (h.holds x hx).bits
  caindex := fun x hx => (h.holds x hx).caindex
  used := by
    intro cadevice hinvalid x hx heq
    rcases @walkOn env s.list s.added cadevice 0 h with ⟨-, hno⟩ | ⟨-, hvalid⟩
    · have hon : x.isOn cadevice 0 = true := by
        unfold Streampid.isOn
        simp [heq]
      rw [hno x hx] at hon
      cases hon
    · exact hvalid hinvalid

theorem Listed.call (h : Listed s.list s.added) (hq : s.Small q) (ht : s.call env q = some t) :
    Listed t.list t.added := by
  cases q with
  | update cadevice pid idx useDes =>
    obtain ⟨-, hs⟩ := Option.ite_none_right_eq_some.mp ht
    obtain rfl := Option.some.inj hs
    exact h.update hq
  | remove cadevice pid idx =>
    obtain ⟨-, hs⟩ := Option.ite_none_right_eq_some.mp ht
    obtain rfl := Option.some.inj hs
    exact h.remove hq
  | isCaUsed cadevice pid =>
    obtain rfl := Option.some.inj ht
    rcases @walkOn env s.list s.added cadevice pid h with ⟨hsame, -⟩ | ⟨hlisted, -⟩
    · change Listed (isCaUsed env cadevice pid s.list).1 s.added
      rw [hsame]
      exact h
    · exact hlisted

/-- In every run without a shift by 31 or more for a stream pid that is set or listed, the list says which
stream pids are descrambled with which indices. -/
theorem listing_right (hr : (listing env).Reachable Listing.Small s) : s.Right env := by
  have hinv : Listed s.list s.added := by
    refine hr.invariant (I := fun s => Listed s.list s.added) (fun s hs => ?_) fun s q t h hq ht => h.call hq ht
    change s = ⟨[], fun _ _ => false⟩ at hs
    rw [hs]
    refine ⟨List.nodup_nil, fun x hx => absurd hx List.not_mem_nil, ?_, ?_⟩
    · intro key i hi
      cases hi
    · intro key i hi
      cases hi
  exact hinv.right

/-- Two indices of one stream pid, one of them taken back, and a fresh one chosen. -/
theorem listing_right_takeover : ∃ s, (listing ⟨0, fun _ => 0⟩).Reachable Listing.Small s ∧
    (s.list = [⟨0x100, 1, 5, 32, false⟩]) ∧ s.Right ⟨0, fun _ => 0⟩ := by
  obtain ⟨s, hr, hs⟩ := @System.exists_reachable_of_exec _ _ (listing ⟨0, fun _ => 0⟩) Listing.Small _ _ rfl
    [.update 1 0x100 0 false, .update 1 0x100 5 false, .remove 1 0x100 0, .isCaUsed 1 0]
    (fun s => s.list = [⟨0x100, 1, 5, 32, false⟩]) (by decide +kernel)
  exact ⟨s, hr, of_decide_eq_true hs, listing_right hr⟩

/-- `INDEX_DISABLE_ALL` is no index below `INDEX_MAX`, and so the entry stays. -/
theorem disable_all_ignored :
    ∃ s, (listing ⟨0, fun _ => 0⟩).Reachable System.free s ∧ ¬ s.Right ⟨0, fun _ => 0⟩ := by
  obtain ⟨s, hr, hs⟩ := @System.exists_reachable_of_exec _ _ (listing ⟨0, fun _ => 0⟩) System.free
    (fun _ _ => instDecidableTrue) _ rfl [.update 1 0x100 0 false, .remove 1 0x100 INDEX_DISABLE_ALL]
    (fun s => (s.list = [⟨0x100, 1, 0, 1, false⟩] : Bool) && !s.added (1, 0x100) 0) (by decide +kernel)
  refine ⟨s, hr, fun hright => ?_⟩
  obtain ⟨hlist, hadded⟩ := Bool.and_eq_true_iff.mp hs
  have hbit := hright.bits ⟨0x100, 1, 0, 1, false⟩
    (by rw [of_decide_eq_true hlist]; exact List.mem_cons_self) 0 (by decide)
  change true = s.added (1, 0x100) 0 at hbit
  rw [← hbit] at hadded
  cases hadded

end Step

end NCam.Dvbapi
