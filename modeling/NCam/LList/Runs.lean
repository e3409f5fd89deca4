import NCam.LList.Invariant

/-! What each operation of an iterator does to the chain, and runs of operations on one list. -/
namespace NCam.LList

open NCam.Lib

variable {l : LlList} {L A B : List ℕ} {it : LlIter} {x : ℕ}

section Positions

theorem Placed.stale {version : ℕ} (h : it.version ≤ l.version) (hlt : l.version < version) :
    Placed L version it := by
  refine ⟨by omega, fun he => ?_⟩
  omega

theorem Placed.append (h : Placed L l.version it) (M : List ℕ) : Placed (L ++ M) l.version it := by
  refine ⟨h.1, fun he cur hcur => ?_⟩
  obtain ⟨hmem, hprv⟩ := h.2 he cur hcur
  refine ⟨List.mem_append_left _ hmem, fun prv hp => ?_⟩
  obtain ⟨A, B, rfl⟩ := hprv prv hp
  exact ⟨A, B ++ M, by simp⟩

theorem Placed.cons (h : Placed L l.version it) (n : ℕ) : Placed (n :: L) l.version it := by
  refine ⟨h.1, fun he cur hcur => ?_⟩
  obtain ⟨hmem, hprv⟩ := h.2 he cur hcur
  refine ⟨List.mem_cons_of_mem _ hmem, fun prv hp => ?_⟩
  obtain ⟨A, B, rfl⟩ := hprv prv hp
  exact ⟨n :: A, B, rfl⟩

/-- An iterator behind the nodes `A` of the chain. -/
def behind (A : List ℕ) (version : ℕ) : LlIter := ⟨A.getLast?, A.dropLast.getLast?, version⟩

theorem placed_behind (A B : List ℕ) (version : ℕ) :
    Placed (A ++ B) version (behind A version) := by
  refine ⟨le_refl _, fun _ cur hcur => ⟨List.mem_append_left _ (List.mem_of_getLast? hcur), ?_⟩⟩
  intro prv hprv
  obtain ⟨A', rfl⟩ := List.getLast?_eq_some_iff.mp hcur
  rw [behind, List.dropLast_concat] at hprv
  obtain ⟨A'', rfl⟩ := List.getLast?_eq_some_iff.mp hprv
  exact ⟨A'', B, by simp⟩

theorem outdated_iff (h : it.version ≤ l.version) (hv : l.version - it.version < 2 ^ 32) :
    l.outdated it = true ↔ it.version ≠ l.version := by
  unfold LlList.outdated
  rw [bne_iff_ne]
  omega

/-- The node before a node of the chain is found, by the iterator or by the search. -/
theorem ListInv.findPrv_mem (h : ListInv l (A ++ x :: B)) (hp : Placed (A ++ x :: B) l.version it)
    (hcur : it.cur = some x) (hv : l.version - it.version < 2 ^ 32) :
    l.findPrv it x = some (some A.getLast?) := by
  unfold LlList.findPrv
  by_cases hc : l.outdated it = true ∨ it.prv.isNone = true
  · rw [if_pos hc, h.search_found]
    rfl
  · rw [if_neg hc]
    rw [not_or, outdated_iff hp.1 hv, not_not] at hc
    obtain ⟨prv, hprv⟩ : ∃ prv, it.prv = some prv :=
      Option.isSome_iff_exists.mp (by simpa [Option.isSome_iff_ne_none] using hc.2)
    obtain ⟨A', B', he⟩ := (hp.2 hc.1 x hcur).2 prv hprv
    have hnd := List.nodup_append.mp h.nodup
    have hxA : x ∉ A := fun hm => hnd.2.2 x hm x List.mem_cons_self rfl
    have hxB : x ∉ B := (List.nodup_cons.mp hnd.2.1).1
    have he' : (A' ++ [prv]) ++ x :: B' = A ++ x :: B := by simpa using he.symm
    have heq : A = A' ++ [prv] := ((List.append_cons_inj_of_notMem hxA hxB).mp he'.symm).1
    rw [hprv, heq, List.getLast?_concat]

theorem ListInv.findPrv_notMem (h : ListInv l L) (hp : Placed L l.version it)
    (hcur : it.cur = some x) (hv : l.version - it.version < 2 ^ 32) (hx : x ∉ L) :
    l.findPrv it x = some none := by
  have hout : l.outdated it = true :=
    (outdated_iff hp.1 hv).mpr fun he => hx (hp.2 he x hcur).1
  obtain ⟨prv, hs⟩ := @ListInv.search_notFound _ _ h (some x) fun n hn he =>
    hx (Option.some.inj he ▸ hn)
  rw [LlList.findPrv, if_pos (Or.inl hout), hs]
  rfl

end Positions

section Iterators

/-- `ll_iter_next` always ends, at a node of the chain or behind its end. -/
theorem ListInv.iterNext (h : ListInv l L) (hp : Placed L l.version it)
    (hv : l.version - it.version < 2 ^ 32) :
    ∃ it', l.llIterNext it = some (it', l.objAt it'.cur) ∧ Placed L l.version it' := by
  have hinit : Placed L l.version ⟨l.initial, none, l.version⟩ := by
    refine ⟨le_refl _, fun _ cur hcur => ⟨?_, fun prv hprv => by cases hprv⟩⟩
    cases L with
    | nil => rw [show l.initial = none from h.chain] at hcur; cases hcur
    | cons n L => 
      rw [show l.initial = some n from h.chain.1] at hcur
      exact Option.some.inj hcur ▸ List.mem_cons_self
  have hnext : ∀ c ∈ L, Placed L l.version ⟨l.nxt c, some c, l.version⟩ := by
    intro c hc
    obtain ⟨A, B, rfl⟩ := List.append_of_mem hc
    obtain ⟨-, hB⟩ := Chain.Seg.mid.mp h.chain
    refine ⟨le_refl _, fun _ cur hcur => ?_⟩
    cases B with
    | nil => rw [show l.nxt c = none from hB] at hcur; cases hcur
    | cons b B =>
      rw [show l.nxt c = some b from hB.1] at hcur
      obtain rfl := Option.some.inj hcur
      refine ⟨by simp, fun prv hprv => ?_⟩
      obtain rfl := Option.some.inj hprv
      exact ⟨A, B, rfl⟩
  have hflag : (!l.flag) = true := by rw [h.flag]; rfl
  rw [LlList.llIterNext, if_pos hflag]
  unfold LlList.llIterNextNolock
  by_cases hout : l.outdated it = true
  · simp only [hout, if_true]
    by_cases hcur : it.cur.isNone ∧ it.prv.isNone
    · simp only [hcur, and_self, if_true, Option.map_some]
      exact ⟨_, rfl, hinit⟩
    · simp only [hcur, if_false]
      by_cases hmem : ∃ c ∈ L, it.cur = some c
      · obtain ⟨c, hc, he⟩ := hmem
        obtain ⟨A, B, rfl⟩ := List.append_of_mem hc
        rw [he, h.search_found]
        exact ⟨_, rfl, hnext c hc⟩
      · obtain ⟨prv, hs⟩ := @ListInv.search_notFound _ _ h it.cur
          fun n hn he => hmem ⟨n, hn, he⟩
        rw [hs]
        exact ⟨_, rfl, hinit⟩
  · rw [Bool.not_eq_true] at hout
    have hver : it.version = l.version := by
      by_contra hne
      rw [(outdated_iff hp.1 hv).mpr hne] at hout
      cases hout
    simp only [hout, Bool.false_eq_true, if_false]
    cases hcur : it.cur with
    | none =>
      by_cases hc : l.initial.isSome ∧ it.prv.isNone
      · simp only [hc, and_self, if_true, Option.map_some]
        have heq : ({ it with cur := l.initial } : LlIter) = ⟨l.initial, none, l.version⟩ := by
          rw [← hver, ← Option.isNone_iff_eq_none.mp hc.2]
        refine ⟨_, rfl, heq ▸ hinit⟩
      · simp only [hc, if_false, Option.map_some]
        exact ⟨_, rfl, hp⟩
    | some c =>
      simp only [Option.map_some]
      refine ⟨_, rfl, ?_⟩
      have := hnext c (hp.2 hver c hcur).1
      rw [← hver] at this ⊢
      exact this

/-- `ll_iter_next` of an iterator that is up to date steps over one node. -/
theorem ListInv.iterNext_behind (h : ListInv l (A ++ B)) :
    l.llIterNext (behind A l.version) =
      some (⟨B.head?, A.getLast?, l.version⟩, l.objAt B.head?) := by
  obtain ⟨r, hA, hB⟩ := Chain.Seg.append.mp h.chain
  have hr : r = B.head? := by
    cases B with
    | nil => exact hB
    | cons b B => exact hB.1
  have hout : l.outdated (behind A l.version) = false := by
    simp [LlList.outdated, behind]
  have hflag : (!l.flag) = true := by rw [h.flag]; rfl
  rw [LlList.llIterNext, if_pos hflag]
  unfold LlList.llIterNextNolock
  simp only [hout, Bool.false_eq_true, if_false]
  cases hlast : A.getLast? with
  | none =>
    obtain rfl := List.getLast?_eq_none_iff.mp hlast
    have hinit : l.initial = B.head? := hA.trans hr
    cases B with
    | nil => simp [behind, hinit]
    | cons b B => simp [behind, hinit]
  | some c =>
    obtain ⟨A', rfl⟩ := List.getLast?_eq_some_iff.mp hlast
    have hc : l.nxt c = B.head? := (Chain.Seg.concat.mp hA).2.trans hr
    simp [behind, hc]

/-- `ll_iter_remove` removes the iterator's node. -/
theorem ListInv.iterRemove_mem (h : ListInv l (A ++ x :: B))
    (hp : Placed (A ++ x :: B) l.version it) (hcur : it.cur = some x)
    (hv : l.version - it.version < 2 ^ 32) :
    l.llIterRemove it =
      some (l.removeNode A.getLast? x, behind A (l.version + 1), (l.node x).obj) := by
  have hflag : (!l.flag) = true := by rw [h.flag]; rfl
  obtain ⟨h', -, hversion⟩ := h.remove
  rw [LlList.llIterRemove, if_pos hflag]
  unfold LlList.llIterRemoveNolock
  simp only [hcur, h.findPrv_mem hp hcur hv, Option.bind_some]
  cases hlast : A.getLast? with
  | none =>
    obtain rfl := List.getLast?_eq_none_iff.mp hlast
    simp only [List.getLast?_nil] at hversion
    simp [behind, hversion]
  | some p =>
    obtain ⟨A', rfl⟩ := List.getLast?_eq_some_iff.mp hlast
    rw [hlast] at h' hversion
    rw [List.append_assoc, List.singleton_append] at h'
    simp only [h'.search_found, Option.map_some, hversion]
    simp [behind]

/-- `ll_iter_remove` changes nothing if the iterator's node is not in the list any more. -/
theorem ListInv.iterRemove_notMem (h : ListInv l L) (hp : Placed L l.version it)
    (hv : l.version - it.version < 2 ^ 32) (hx : ∀ x, it.cur = some x → x ∉ L) :
    l.llIterRemove it = some (l, it, 0) := by
  have hflag : (!l.flag) = true := by rw [h.flag]; rfl
  rw [LlList.llIterRemove, if_pos hflag]
  unfold LlList.llIterRemoveNolock
  cases hcur : it.cur with
  | none => rfl
  | some x =>
    dsimp only
    rw [h.findPrv_notMem hp hcur hv (hx x hcur)]
    rfl

/-- `ll_iter_move_first` moves the iterator's node if that is still in the list, else nothing. -/
theorem ListInv.iterMoveFirst (h : ListInv l L) (hp : Placed L l.version it)
    (hv : l.version - it.version < 2 ^ 32) :
    (∃ moved, l.llIterMoveFirst it = some (l, it, moved)) ∨
      ∃ A x B, it.cur = some x ∧ L = A ++ x :: B ∧ A ≠ [] ∧
        l.llIterMoveFirst it =
          some (l.moveNode A.getLast? x, ⟨some x, none, l.version + 1⟩, 1) := by
  have hflag : ¬ l.flag = true := by rw [h.flag]; exact Bool.false_ne_true
  rw [LlList.llIterMoveFirst, if_neg hflag]
  cases hcur : it.cur with
  | none => exact .inl ⟨0, rfl⟩
  | some x =>
    dsimp only
    by_cases hinit : l.initial = some x
    · rw [if_pos hinit]
      exact .inl ⟨1, rfl⟩
    rw [if_neg hinit]
    by_cases hx : x ∈ L
    · obtain ⟨A, B, rfl⟩ := List.append_of_mem hx
      have hA : A ≠ [] := by
        rintro rfl
        exact hinit h.chain.1
      obtain ⟨-, -, hversion⟩ := h.move hA
      refine .inr ⟨A, x, B, rfl, rfl, hA, ?_⟩
      simp only [h.findPrv_mem hp hcur hv, Option.map_some, hversion]
    · simp only [h.findPrv_notMem hp hcur hv hx, Option.map_some]
      exact .inl ⟨0, rfl⟩

theorem ListInv.removeNode_objs (h : ListInv l (A ++ x :: B)) :
    objsOf (l.removeNode A.getLast? x) (A ++ B) = objsOf l A ++ objsOf l B := by
  obtain ⟨-, hobj, -⟩ := h.remove
  simp only [objsOf, hobj, List.map_append]

/-- `ll_remove` on the nodes `B` behind its iterator: it ends, and removes those that hold `obj`. -/
theorem removeLoop_spec (obj fuel n : ℕ) (h : ListInv l (A ++ B))
    (hA : ∀ m ∈ A, (l.node m).obj ≠ obj) :
    (B.length < fuel → (LlList.removeLoop obj fuel l (behind A l.version) n).isSome) ∧
      ∀ r, LlList.removeLoop obj fuel l (behind A l.version) n = some r → ∃ L', ListInv r.1 L' ∧
        objsOf r.1 L' = (objsOf l (A ++ B)).filter (· ≠ obj) ∧
        (r.1 = l ∧ L' = A ++ B ∨ l.version < r.1.version) := by
  induction fuel generalizing l A B n with
  | zero => exact ⟨fun hlt => by omega, fun r hr => by cases hr⟩
  | succ fuel ih =>
    have hkeep : (objsOf l A).filter (· ≠ obj) = objsOf l A := by
      rw [List.filter_eq_self]
      intro o ho
      obtain ⟨m, hm, rfl⟩ := List.mem_map.mp ho
      simpa using hA m hm
    rw [LlList.removeLoop, h.iterNext_behind, Option.bind_some]
    dsimp only
    cases B with
    | nil =>
      have hzero : l.objAt ([] : List ℕ).head? = 0 := rfl
      rw [if_pos hzero]
      refine ⟨fun _ => rfl, fun r hr => ?_⟩
      obtain rfl := Option.some.inj hr
      refine ⟨A ++ [], h, ?_, .inl ⟨rfl, rfl⟩⟩
      rw [List.append_nil, hkeep]
    | cons b B =>
      have hat : l.objAt (b :: B).head? = (l.node b).obj := rfl
      have hb : (l.node b).obj ≠ 0 := h.obj b (List.mem_append_right _ List.mem_cons_self)
      rw [hat, if_neg hb]
      by_cases hobj : (l.node b).obj = obj
      · rw [if_pos hobj]
        have hp : Placed (A ++ b :: B) l.version ⟨(b :: B).head?, A.getLast?, l.version⟩ := by
          have := placed_behind (A ++ [b]) B l.version
          simpa [behind] using this
        obtain ⟨h', hobjs, hversion⟩ := h.remove
        rw [h.iterRemove_mem hp rfl (by simp), Option.bind_some, ← hversion]
        dsimp only
        obtain ⟨hret, hspec⟩ := ih (n + 1) h' fun m hm => by rw [hobjs]; exact hA m hm
        refine ⟨fun hlt => hret (by simpa using hlt), fun r hr => ?_⟩
        obtain ⟨L', hL', hfilter, hr⟩ := hspec r hr
        refine ⟨L', hL', ?_, .inr ?_⟩
        · rw [hfilter, h.removeNode_objs]
          simp [objsOf, hobj]
        · rcases hr with ⟨hr, -⟩ | hr
          · rw [hr]
            omega
          · omega
      · rw [if_neg hobj]
        have hbeh : (⟨(b :: B).head?, A.getLast?, l.version⟩ : LlIter) =
            behind (A ++ [b]) l.version := by simp [behind]
        have h' : ListInv l ((A ++ [b]) ++ B) := by simpa using h
        have hA' : ∀ m ∈ A ++ [b], (l.node m).obj ≠ obj := by
          intro m hm
          rcases List.mem_append.mp hm with hm | hm
          · exact hA m hm
          · rwa [List.mem_singleton.mp hm]
        rw [hbeh]
        obtain ⟨hret, hspec⟩ := ih n h' hA'
        have heq : (A ++ [b]) ++ B = A ++ b :: B := by simp
        rw [heq] at hspec
        exact ⟨fun hlt => hret (by simpa using hlt), hspec⟩

end Iterators

section Runs

variable {ι : Type}

/-- An insert through the iterator appends, or the iterator's node is in the list and `prv` is unset or
right. Without this `ll_iter_insert` loses the new node, or leaves a wrong `prv` marked as current. -/
def InPlace (l : LlList) (it : LlIter) : Prop :=
  match it.cur with
  | none => True
  | some cur => l.nxt cur = none ∨
      ∃ found ∈ l.search (some cur), found.1 = some cur ∧ (it.prv = none ∨ it.prv = found.2)

instance (l : LlList) (it : LlIter) : Decidable (InPlace l it) := by
  unfold InPlace
  split <;> infer_instance

/-- The steps that keep the list in order: counters do not overflow, an iterator is used before the
version came round to its own, and inserts are in place. -/
def Sound (s : State ι) : Action ι → Prop
  | .append _ _ | .prepend _ _ => s.list.count + 1 < 2 ^ 31
  | .iterNext i | .iterRemove i | .iterMoveFirst i =>
      s.list.version - (s.iter i).version < 2 ^ 32
  | .iterInsert i _ _ => s.list.count + 1 < 2 ^ 31 ∧ InPlace s.list (s.iter i)
  | .iterCreate _ | .remove _ _ => True

instance (s : State ι) : ∀ a, Decidable (Sound s a)
  | .append _ _ => by unfold Sound; infer_instance
  | .prepend _ _ => by unfold Sound; infer_instance
  | .iterNext _ => by unfold Sound; infer_instance
  | .iterRemove _ => by unfold Sound; infer_instance
  | .iterMoveFirst _ => by unfold Sound; infer_instance
  | .iterInsert _ _ _ => by unfold Sound; infer_instance
  | .iterCreate _ => by unfold Sound; infer_instance
  | .remove _ _ => by unfold Sound; infer_instance

/-- The chain holds the objects, and no iterator points past it. -/
def Inv (s : State ι) : Prop :=
  ∃ L, ListInv s.list L ∧ (∀ i, Placed L s.list.version (s.iter i)) ∧
    (objsOf s.list L).Perm s.objs

theorem Inv.wellFormed {s : State ι} (h : Inv s) : WellFormed s.list s.objs := by
  obtain ⟨L, hL, -, hperm⟩ := h
  exact hL.wellFormed hperm

theorem inserted_of_pos {objs : List ℕ} {obj : ℕ} (hobj : obj ≠ 0) :
    inserted objs obj true = obj :: objs := if_pos ⟨hobj, rfl⟩

theorem inserted_of_not {objs : List ℕ} {obj : ℕ} {malloc : Bool} (h : ¬ (obj ≠ 0 ∧ malloc)) :
    inserted objs obj malloc = objs := if_neg h

theorem Inv.append {s : State ι} (h : Inv s) (obj : ℕ) (malloc : Bool)
    (hc : s.list.count + 1 < 2 ^ 31) :
    Inv ⟨s.list.llAppendNolock obj malloc, s.iter, inserted s.objs obj malloc⟩ := by
  by_cases hins : obj ≠ 0 ∧ malloc
  · obtain ⟨L, hL, hplaced, hperm⟩ := h
    obtain ⟨hobj, rfl⟩ := hins
    have hcount := hL.count
    obtain ⟨hL', hobjs, hversion⟩ := hL.append hobj (by omega)
    rw [inserted_of_pos hobj]
    refine ⟨_, hL', fun i => ?_, ?_⟩
    · change Placed _ (s.list.llAppendNolock obj true).version _
      rw [hversion]
      exact (hplaced i).append _
    · change (objsOf (s.list.llAppendNolock obj true) _).Perm _
      rw [hobjs]
      exact (List.perm_append_singleton obj _).trans (hperm.cons obj)
  · have hkeep : s.list.llAppendNolock obj malloc = s.list :=
      if_neg fun hc => hins ⟨hc.1, hc.2.2⟩
    rwa [hkeep, inserted_of_not hins]

theorem Inv.prepend {s : State ι} (h : Inv s) (obj : ℕ) (malloc : Bool)
    (hc : s.list.count + 1 < 2 ^ 31) :
    Inv ⟨s.list.llPrepend obj malloc, s.iter, inserted s.objs obj malloc⟩ := by
  by_cases hins : obj ≠ 0 ∧ malloc
  · obtain ⟨L, hL, hplaced, hperm⟩ := h
    obtain ⟨hobj, rfl⟩ := hins
    have hcount := hL.count
    obtain ⟨hL', hobjs, hversion⟩ := hL.prepend hobj (by omega)
    rw [inserted_of_pos hobj]
    refine ⟨_, hL', fun i => ?_, ?_⟩
    · change Placed _ (s.list.llPrepend obj true).version _
      rw [hversion]
      exact (hplaced i).cons _
    · change (objsOf (s.list.llPrepend obj true) _).Perm _
      rw [hobjs]
      exact hperm.cons obj
  · have hkeep : s.list.llPrepend obj malloc = s.list :=
      if_neg fun hc => hins ⟨hc.1, hc.2.2⟩
    rwa [hkeep, inserted_of_not hins]

theorem InPlace.found {L : List ℕ} {c nxt : ℕ} (hL : ListInv l L) (h : InPlace l it)
    (hcur : it.cur = some c) (hc : l.nxt c = some nxt) :
    ∃ A B, L = A ++ c :: B ∧ (it.prv = none ∨ it.prv = A.getLast?) := by
  simp only [InPlace, hcur, hc, reduceCtorEq, false_or] at h
  obtain ⟨prv, hs, hfound, hprv⟩ := h
  rw [Option.mem_def] at hs
  have hmem : c ∈ L := by
    by_contra hno
    obtain ⟨p, hp⟩ := @ListInv.search_notFound _ _ hL (some c)
      fun n hn he => hno (Option.some.inj he ▸ hn)
    rw [hp] at hs
    obtain rfl := Option.some.inj hs
    cases hfound
  obtain ⟨A, B, rfl⟩ := List.append_of_mem hmem
  rw [hL.search_found] at hs
  obtain rfl := Option.some.inj hs
  exact ⟨A, B, rfl, hprv⟩

theorem Inv.remove {s : State ι} (h : Inv s) (obj fuel : ℕ) {l : LlList} {n : ℕ}
    (hr : s.list.llRemove obj fuel = some (l, n)) :
    Inv ⟨l, s.iter, s.objs.filter (· ≠ obj)⟩ := by
  obtain ⟨L, hL, hplaced, hperm⟩ := h
  have hL' : ListInv s.list ([] ++ L) := hL
  obtain ⟨-, hspec⟩ := removeLoop_spec obj fuel 0 hL' fun m hm => absurd hm List.not_mem_nil
  obtain ⟨M, hM, hobjs, hr⟩ := hspec _ hr
  refine ⟨M, hM, fun i => ?_, ?_⟩
  · rcases hr with ⟨rfl, rfl⟩ | hlt
    · exact hplaced i
    · exact Placed.stale (hplaced i).1 hlt
  · rw [hobjs]
    exact hperm.filter _

theorem listInv_llCreate : ListInv LlList.llCreate [] := by
  constructor
  · exact rfl
  · exact List.nodup_nil
  · rfl
  · rfl
  · exact fun n hn => absurd hn List.not_mem_nil
  · exact fun n hn => absurd hn List.not_mem_nil
  · rfl
  · exact Nat.two_pow_pos 31

variable [DecidableEq ι]

theorem inv_init {s : State ι} (h : (system ι).init s) : Inv s := by
  obtain rfl : s = _ := h
  exact ⟨[], listInv_llCreate, fun i => ⟨le_refl _, fun _ cur hcur => by cases hcur⟩,
    List.Perm.nil⟩

theorem placed_update {L : List ℕ} {version : ℕ} {iter : ι → LlIter} {i : ι} {it : LlIter}
    (hit : Placed L version it) (h : ∀ j, Placed L version (iter j)) (j : ι) :
    Placed L version (Function.update iter i it j) := by
  by_cases hj : j = i
  · rw [hj, Function.update_self]
    exact hit
  · rw [Function.update_of_ne hj]
    exact h j

theorem Inv.iterInsert {s : State ι} (h : Inv s) (i : ι) (obj : ℕ) (malloc : Bool)
    (hc : s.list.count + 1 < 2 ^ 31) (hplace : InPlace s.list (s.iter i)) :
    Inv ⟨(s.list.llIterInsert (s.iter i) obj malloc).1,
      Function.update s.iter i (s.list.llIterInsert (s.iter i) obj malloc).2,
      inserted s.objs obj malloc⟩ := by
  have happ := h.append obj malloc hc
  obtain ⟨L, hL, hplaced, hperm⟩ := h
  by_cases hobj : obj ≠ 0
  case neg =>
    have hkeep : s.list.llIterInsert (s.iter i) obj malloc = (s.list, s.iter i) :=
      if_neg fun hc => hobj hc.1
    rw [hkeep, inserted_of_not fun hc => hobj hc.1, Function.update_eq_self]
    exact ⟨L, hL, hplaced, hperm⟩
  have hcond : obj ≠ 0 ∧ !s.list.flag := ⟨hobj, by simp [hL.flag]⟩
  cases hnext : (s.iter i).cur.bind fun cur => (s.list.nxt cur).map fun nxt => (cur, nxt) with
  | none =>
    have heq : s.list.llIterInsert (s.iter i) obj malloc =
        (s.list.llAppendNolock obj malloc, s.iter i) := by
      rw [LlList.llIterInsert, if_pos hcond, hnext]
    rwa [heq, Function.update_eq_self]
  | some p =>
    obtain ⟨c, hcur, hp⟩ := Option.bind_eq_some_iff.mp hnext
    obtain ⟨nxt, hnxt, rfl⟩ := Option.map_eq_some_iff.mp hp
    cases malloc with
    | false =>
      have hkeep : s.list.llIterInsert (s.iter i) obj false = (s.list, s.iter i) := by
        rw [LlList.llIterInsert, if_pos hcond, hnext]
        rfl
      rw [hkeep, inserted_of_not (by simp), Function.update_eq_self]
      exact ⟨L, hL, hplaced, hperm⟩
    | true =>
      have hcount := hL.count
      obtain ⟨A, B, rfl, hprv⟩ := hplace.found hL hcur hnxt
      obtain ⟨hL', hobjs, hversion, hit⟩ := hL.insert hnxt hcur hobj (by omega)
      rw [inserted_of_pos hobj]
      refine ⟨_, hL', placed_update ?_ fun j => ?_, hobjs.trans (hperm.cons obj)⟩
      · rw [hit]
        change Placed _ (s.list.llIterInsert (s.iter i) obj true).1.version _
        rw [hversion]
        refine ⟨le_refl _, fun _ cur he => ?_⟩
        obtain rfl : c = cur := Option.some.inj (hcur.symm.trans he)
        refine ⟨by simp, fun prv hp => ?_⟩
        rcases hprv with hnone | hlast
        · rw [hnone] at hp
          cases hp
        · obtain ⟨A', rfl⟩ := List.getLast?_eq_some_iff.mp (hlast.symm.trans hp)
          exact ⟨A', _, by rw [List.append_assoc, List.singleton_append]⟩
      · refine (Placed.stale (hplaced j).1 ?_)
        change s.list.version < (s.list.llIterInsert (s.iter i) obj true).1.version
        omega

theorem Inv.iterRemove {s : State ι} (h : Inv s) (i : ι)
    (hv : s.list.version - (s.iter i).version < 2 ^ 32) :
    ∃ l it obj, s.list.llIterRemove (s.iter i) = some (l, it, obj) ∧
      Inv ⟨l, Function.update s.iter i it, s.objs.erase obj⟩ := by
  obtain ⟨L, hL, hplaced, hperm⟩ := h
  by_cases hmem : ∃ x ∈ L, (s.iter i).cur = some x
  · obtain ⟨x, hx, hcur⟩ := hmem
    obtain ⟨A, B, rfl⟩ := List.append_of_mem hx
    obtain ⟨hL', -, hversion⟩ := hL.remove
    refine ⟨_, _, _, hL.iterRemove_mem (hplaced i) hcur hv, A ++ B, hL', placed_update ?_ ?_, ?_⟩
    · change Placed _ (s.list.removeNode A.getLast? x).version _
      rw [hversion]
      exact placed_behind A B _
    · intro j
      refine Placed.stale (hplaced j).1 ?_
      change _ < (s.list.removeNode A.getLast? x).version
      omega
    · have hobjs : objsOf s.list (A ++ x :: B) =
          objsOf s.list A ++ (s.list.node x).obj :: objsOf s.list B := by simp [objsOf]
      have herase := (List.perm_middle.symm.trans (hobjs ▸ hperm)).erase (s.list.node x).obj
      rw [List.erase_cons_head, ← hL.removeNode_objs] at herase
      exact herase
  · have hnone := hL.iterRemove_notMem (hplaced i) hv fun x hx hm => hmem ⟨x, hm, hx⟩
    refine ⟨_, _, _, hnone, L, hL, placed_update (hplaced i) hplaced, ?_⟩
    have hzero : 0 ∉ s.objs := by
      intro hm
      obtain ⟨n, hn, he⟩ := List.mem_map.mp (hperm.mem_iff.mpr hm)
      exact hL.obj n hn he
    rw [List.erase_of_not_mem hzero]
    exact hperm

theorem Inv.iterMoveFirst {s : State ι} (h : Inv s) (i : ι)
    (hv : s.list.version - (s.iter i).version < 2 ^ 32) :
    ∃ l it moved, s.list.llIterMoveFirst (s.iter i) = some (l, it, moved) ∧
      Inv ⟨l, Function.update s.iter i it, s.objs⟩ := by
  obtain ⟨L, hL, hplaced, hperm⟩ := h
  rcases hL.iterMoveFirst (hplaced i) hv with ⟨moved, hnone⟩ | ⟨A, x, B, -, rfl, hA, hmove⟩
  · exact ⟨_, _, _, hnone, L, hL, placed_update (hplaced i) hplaced, hperm⟩
  · obtain ⟨hL', hobj, hversion⟩ := hL.move hA
    refine ⟨_, _, _, hmove, x :: (A ++ B), hL', placed_update ?_ ?_, ?_⟩
    · change Placed _ (s.list.moveNode A.getLast? x).version _
      rw [hversion]
      refine ⟨le_refl _, fun _ cur hcur => ?_⟩
      obtain rfl := Option.some.inj hcur
      exact ⟨List.mem_cons_self, fun prv hp => by cases hp⟩
    · intro j
      refine Placed.stale (hplaced j).1 ?_
      change _ < (s.list.moveNode A.getLast? x).version
      omega
    · have hobjs : objsOf (s.list.moveNode A.getLast? x) (x :: (A ++ B)) =
          objsOf s.list (x :: (A ++ B)) := by simp only [objsOf, hobj]
      change (objsOf (s.list.moveNode A.getLast? x) (x :: (A ++ B))).Perm _
      rw [hobjs]
      exact (List.perm_middle.symm.map _).trans hperm

theorem inv_step (s : State ι) (a : Action ι) (t : State ι) (h : Inv s) (hg : Sound s a)
    (ht : next s a = some t) : Inv t := by
  cases a with
  | append obj malloc =>
    obtain rfl := Option.some.inj ht
    obtain ⟨L, hL, -, -⟩ := id h
    have heq : s.list.llAppend obj malloc = s.list.llAppendNolock obj malloc := by
      by_cases hobj : obj ≠ 0
      · exact if_pos ⟨hobj, by simp [hL.flag]⟩
      · rw [LlList.llAppend, if_neg fun hc => hobj hc.1, LlList.llAppendNolock,
          if_neg fun hc => hobj hc.1]
    rw [heq]
    exact h.append obj malloc hg
  | prepend obj malloc =>
    obtain rfl := Option.some.inj ht
    exact h.prepend obj malloc hg
  | iterCreate i =>
    obtain rfl := Option.some.inj ht
    obtain ⟨L, hL, hplaced, hperm⟩ := h
    exact ⟨L, hL, placed_update ⟨le_refl _, fun _ cur hcur => by cases hcur⟩ hplaced, hperm⟩
  | iterNext i =>
    obtain ⟨L, hL, hplaced, hperm⟩ := h
    obtain ⟨it, hit, hp⟩ := hL.iterNext (hplaced i) hg
    simp only [next, hit, Option.map_some] at ht
    obtain rfl := Option.some.inj ht
    exact ⟨L, hL, placed_update hp hplaced, hperm⟩
  | iterInsert i obj malloc =>
    obtain rfl := Option.some.inj ht
    exact h.iterInsert i obj malloc hg.1 hg.2
  | iterRemove i =>
    obtain ⟨l, it, obj, hr, hinv⟩ := h.iterRemove i hg
    simp only [next, hr, Option.map_some] at ht
    exact Option.some.inj ht ▸ hinv
  | iterMoveFirst i =>
    obtain ⟨l, it, moved, hr, hinv⟩ := h.iterMoveFirst i hg
    simp only [next, hr, Option.map_some] at ht
    exact Option.some.inj ht ▸ hinv
  | remove obj fuel =>
    obtain ⟨r, hr, rfl⟩ := Option.map_eq_some_iff.mp ht
    exact h.remove obj fuel hr

/-- Every operation ends: `ll_remove` once it may take enough steps, the others in any case. -/
theorem Inv.returns {s : State ι} (h : Inv s) {a : Action ι} (hg : Sound s a)
    (hfuel : ∀ obj fuel, a = .remove obj fuel → s.list.count < fuel) : (next s a).isSome := by
  cases a with
  | append obj malloc => rfl
  | prepend obj malloc => rfl
  | iterCreate i => rfl
  | iterInsert i obj malloc => rfl
  | iterNext i =>
    obtain ⟨L, hL, hplaced, -⟩ := h
    obtain ⟨it, hit, -⟩ := hL.iterNext (hplaced i) hg
    simp [next, hit]
  | iterRemove i =>
    obtain ⟨l, it, obj, hr, -⟩ := h.iterRemove i hg
    simp [next, hr]
  | iterMoveFirst i =>
    obtain ⟨l, it, moved, hr, -⟩ := h.iterMoveFirst i hg
    simp [next, hr]
  | remove obj fuel =>
    obtain ⟨L, hL, -, -⟩ := h
    have hL' : ListInv s.list ([] ++ L) := hL
    have hlt := hfuel obj fuel rfl
    rw [hL.count] at hlt
    obtain ⟨hret, -⟩ := removeLoop_spec obj fuel 0 hL' fun m hm => absurd hm List.not_mem_nil
    rw [next, Option.isSome_map]
    exact hret (by omega)

/-- In a run of sound steps the list always is a chain of `count` nodes up to `last` that holds every
object inserted and not yet removed once, and every operation ends. -/
theorem list_wellFormed {s : State ι} (h : (system ι).Reachable Sound s) :
    WellFormed s.list s.objs ∧ ∀ a, Sound s a →
      (∀ obj fuel, a = .remove obj fuel → s.list.count < fuel) → (next s a).isSome := by
  have hinv := h.invariant (fun _ => inv_init) inv_step
  exact ⟨hinv.wellFormed, fun a ha hf => hinv.returns ha hf⟩

/-- Two iterators: one inserts behind the head, the other removes the head, the first starts over and
moves a node. -/
theorem list_wellFormed_run : ∃ s : State Bool, (system Bool).Reachable Sound s ∧
    s.list.version = 4 ∧ s.objs = [40, 30, 20] ∧ WellFormed s.list s.objs := by
  obtain ⟨s, hs, hp⟩ := System.exists_reachable_of_exec (G := Sound) (S := system Bool)
    (s := ⟨.llCreate, fun _ => LlList.llCreate.llIterCreate, []⟩) rfl
    [.append 20 true, .append 30 true, .prepend 10 true, .iterNext false, .iterNext true,
      .iterInsert false 40 true, .iterRemove true, .iterNext false, .iterNext false,
      .iterMoveFirst false, .iterNext true, .remove 50 9, .append 60 true, .remove 60 9]
    (fun s => s.list.version = 4 ∧ s.objs = [40, 30, 20]) (by decide)
  rw [decide_eq_true_eq] at hp
  exact ⟨s, hs, hp.1, hp.2, (list_wellFormed hs).1⟩

/-- An insert behind a node that another iterator removed is counted but not reachable. -/
theorem list_not_wellFormed : ∃ s : State Bool, (system Bool).Reachable System.free s ∧
    ¬ WellFormed s.list s.objs := by
  obtain ⟨s, hs, hp⟩ := System.exists_reachable_of_exec (G := System.free) (S := system Bool)
    (s := ⟨.llCreate, fun _ => LlList.llCreate.llIterCreate, []⟩) rfl
    [.append 10 true, .append 20 true, .append 30 true, .iterNext false, .iterNext true,
      .iterRemove true, .iterInsert false 40 true]
    (fun s => s.list.count = 3 ∧ s.list.initial = some 1 ∧ s.list.nxt 1 = some 2 ∧
      s.list.nxt 2 = none) (by decide)
  rw [decide_eq_true_eq] at hp
  obtain ⟨hcount, hinit, h1, h2⟩ := hp
  refine ⟨s, hs, ?_⟩
  rintro ⟨nodes, hseg, -, hlen, -, -⟩
  have hchain : Chain.Seg s.list.nxt s.list.initial [1, 2] none := ⟨hinit, h1, h2⟩
  rw [hseg.unique hchain, hcount] at hlen
  exact absurd hlen (by decide)

end Runs

end NCam.LList
