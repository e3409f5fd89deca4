import NCam.Lib.Chain
import NCam.Lib.Transition
import Mathlib.Algebra.Order.Ring.Int

/-! The linked list of `ncam-llist.c` and the iterators on it. Removed nodes stay readable, as the garbage collector
frees them later. The list stays a nil-terminated chain of the objects inserted and not yet removed, as long as no
iterator inserts behind a node that was removed or from a position that is out of date. -/
namespace NCam.LList

open NCam.Lib

/-- `LL_NODE`; the object `0` is `NULL`. -/
structure LlNode where
  obj : ℕ
  nxt : Option ℕ

/-- `LLIST` without its lock, with all nodes ever allocated. `version` counts the modifications; the
`uint32_t` of the source is its value modulo `2 ^ 32`. -/
structure LlList where
  node : ℕ → LlNode
  nextAddr : ℕ
  initial : Option ℕ
  last : Option ℕ
  count : ℤ
  flag : Bool
  version : ℕ

/-- `LL_ITER`. -/
structure LlIter where
  cur : Option ℕ
  prv : Option ℕ
  version : ℕ

/-- The value an `int32_t` field holds after `x` was stored in it. -/
def int32 (x : ℤ) : ℤ := (x + 2 ^ 31) % 2 ^ 32 - 2 ^ 31

theorem int32_of_bounds {x : ℤ} (hlo : 0 ≤ x) (hhi : x < 2 ^ 31) : int32 x = x := by
  unfold int32
  omega

namespace LlList

def llCreate : LlList := ⟨fun _ => ⟨0, none⟩, 0, none, none, 0, false, 0⟩

def nxt (l : LlList) (n : ℕ) : Option ℕ := (l.node n).nxt

def setNxt (l : LlList) (n : ℕ) (v : Option ℕ) : LlList :=
  { l with node := Function.update l.node n { l.node n with nxt := v } }

/-- A new node that is not linked yet. -/
def alloc (l : LlList) (obj : ℕ) (nxt : Option ℕ) : LlList :=
  { l with node := Function.update l.node l.nextAddr ⟨obj, nxt⟩, nextAddr := l.nextAddr + 1 }

/-- The loops that look for a node from `initial` on, with the node before it. Only a chain that does
not end needs more steps than there are nodes. -/
def search (l : LlList) (target : Option ℕ) : Option (Option ℕ × Option ℕ) :=
  Chain.walk l.nxt target (l.nextAddr + 1) l.initial none

def outdated (l : LlList) (it : LlIter) : Bool := l.version % 2 ^ 32 != it.version % 2 ^ 32

/-- Links the last node, or the list itself, to a new node. -/
def linkLast (l : LlList) (new : ℕ) : LlList :=
  match l.last with
  | some last => l.setNxt last (some new)
  | none => { l with initial := some new }

def llAppendNolock (l : LlList) (obj : ℕ) (malloc : Bool) : LlList :=
  if obj ≠ 0 ∧ !l.flag ∧ malloc then
    let new := l.nextAddr
    let l := (l.alloc obj none).linkLast new
    { l with last := some new, count := int32 (l.count + 1) }
  else l

def llAppend (l : LlList) (obj : ℕ) (malloc : Bool) : LlList :=
  if obj ≠ 0 ∧ !l.flag then l.llAppendNolock obj malloc else l

def llPrepend (l : LlList) (obj : ℕ) (malloc : Bool) : LlList :=
  if obj ≠ 0 ∧ !l.flag ∧ malloc then
    let new := l.nextAddr
    let l := l.alloc obj l.initial
    { l with
      initial := some new
      last := if l.last.isNone then some new else l.last
      count := int32 (l.count + 1) }
  else l

def llIterCreate (l : LlList) : LlIter := ⟨none, none, l.version⟩

/-- The object at a position, `0` at the end. -/
def objAt (l : LlList) (cur : Option ℕ) : ℕ := (cur.map fun n => (l.node n).obj).getD 0

def llIterNextNolock (l : LlList) (it : LlIter) : Option (LlIter × ℕ) :=
  let moved : Option LlIter :=
    if l.outdated it then
      if it.cur.isNone ∧ it.prv.isNone then some ⟨l.initial, none, l.version⟩
      else (l.search it.cur).map fun
        | (some ptr, _) => ⟨l.nxt ptr, some ptr, l.version⟩
        | (none, _) => ⟨l.initial, none, l.version⟩
    else
      match it.cur with
      | some cur => some { it with prv := some cur, cur := l.nxt cur }
      | none => some (if l.initial.isSome ∧ it.prv.isNone then { it with cur := l.initial } else it)
  moved.map fun it => (it, l.objAt it.cur)

def llIterNext (l : LlList) (it : LlIter) : Option (LlIter × ℕ) :=
  if !l.flag then l.llIterNextNolock it else some (it, 0)

/-- The node before the iterator's node `n`: taken from the iterator if that is current, else searched;
`some none` when `n` is not in the list. -/
def findPrv (l : LlList) (it : LlIter) (n : ℕ) : Option (Option (Option ℕ)) :=
  if l.outdated it ∨ it.prv.isNone then
    (l.search (some n)).map fun (found, prv) => if found.isSome then some prv else none
  else some (some it.prv)

/-- Links the node after `n` to the one before it. -/
def unlink (l : LlList) (prv : Option ℕ) (n : ℕ) : LlList :=
  match prv with
  | some p => l.setNxt p (l.nxt n)
  | none => { l with initial := l.nxt n }

/-- The list after `ll_iter_remove` unlinked `del`. -/
def removeNode (l : LlList) (prv : Option ℕ) (del : ℕ) : LlList :=
  let l := l.unlink prv del
  { l with
    last := if l.initial.isNone then none else if l.last = some del then prv else l.last
    count := int32 (l.count - 1)
    version := l.version + 1 }

def llIterRemoveNolock (l : LlList) (it : LlIter) : Option (LlList × LlIter × ℕ) :=
  match it.cur with
  | none => some (l, it, 0)
  | some del => (l.findPrv it del).bind fun
    | none => some (l, it, 0)
    | some prv =>
      let obj := (l.node del).obj
      let l := l.removeNode prv del
      let position := match prv with
        | none => some (none, none)
        | some p => l.search (some p)
      position.map fun (cur, prv) => (l, ⟨cur, prv, l.version⟩, obj)

def llIterRemove (l : LlList) (it : LlIter) : Option (LlList × LlIter × ℕ) :=
  if !l.flag then l.llIterRemoveNolock it else some (l, it, 0)

def llIterInsert (l : LlList) (it : LlIter) (obj : ℕ) (malloc : Bool) : LlList × LlIter :=
  if obj ≠ 0 ∧ !l.flag then
    match it.cur.bind fun cur => (l.nxt cur).map fun nxt => (cur, nxt) with
    | none => (l.llAppendNolock obj malloc, it)
    | some (cur, nxt) =>
      if malloc then
        let new := l.nextAddr
        let l := (l.alloc obj (some nxt)).setNxt cur (some new)
        let l := { l with count := int32 (l.count + 1), version := l.version + 1 }
        (l, { it with version := l.version })
      else (l, it)
  else (l, it)

/-- The list after `ll_iter_move_first` moved a node to the head. -/
def moveNode (l : LlList) (prv : Option ℕ) (move : ℕ) : LlList :=
  let l := l.unlink prv move
  let last := if prv.isSome ∧ l.last = some move then prv else l.last
  let l := l.setNxt move l.initial
  { l with initial := some move, last := last, version := l.version + 1 }

def llIterMoveFirst (l : LlList) (it : LlIter) : Option (LlList × LlIter × ℤ) :=
  if l.flag then some (l, it, 0)
  else match it.cur with
    | none => some (l, it, 0)
    | some move =>
      if l.initial = some move then some (l, it, 1)
      else (l.findPrv it move).map fun
        | none => (l, it, 0)
        | some prv =>
          let l := l.moveNode prv move
          (l, ⟨some move, none, l.version⟩, 1)

/-- The loop of `ll_remove`, with the number of nodes removed so far. -/
def removeLoop (obj : ℕ) : ℕ → LlList → LlIter → ℕ → Option (LlList × ℕ)
  | 0, _, _, _ => none
  | fuel + 1, l, it, n =>
    (l.llIterNext it).bind fun (it, data) =>
      if data = 0 then some (l, n)
      else if data = obj then
        (l.llIterRemove it).bind fun (l, it, _) => removeLoop obj fuel l it (n + 1)
      else removeLoop obj fuel l it n

def llRemove (l : LlList) (obj : ℕ) (fuel : ℕ) : Option (LlList × ℕ) :=
  removeLoop obj fuel l l.llIterCreate 0

end LlList

/-- A list, its live iterators, and the objects inserted and not yet removed. -/
structure State (ι : Type) where
  list : LlList
  iter : ι → LlIter
  objs : List ℕ

inductive Action (ι : Type)
  | append (obj : ℕ) (malloc : Bool)
  | prepend (obj : ℕ) (malloc : Bool)
  | iterCreate (i : ι)
  | iterNext (i : ι)
  | iterInsert (i : ι) (obj : ℕ) (malloc : Bool)
  | iterRemove (i : ι)
  | iterMoveFirst (i : ι)
  | remove (obj : ℕ) (fuel : ℕ)

/-- The objects after an insertion. -/
def inserted (objs : List ℕ) (obj : ℕ) (malloc : Bool) : List ℕ :=
  if obj ≠ 0 ∧ malloc then obj :: objs else objs

variable {ι : Type} [DecidableEq ι]

/-- An operation whose loop does not end is no step. -/
def next (s : State ι) : Action ι → Option (State ι)
  | .append obj malloc =>
    some { s with list := s.list.llAppend obj malloc, objs := inserted s.objs obj malloc }
  | .prepend obj malloc =>
    some { s with list := s.list.llPrepend obj malloc, objs := inserted s.objs obj malloc }
  | .iterCreate i => some { s with iter := Function.update s.iter i s.list.llIterCreate }
  | .iterNext i => (s.list.llIterNext (s.iter i)).map fun (it, _) =>
      { s with iter := Function.update s.iter i it }
  | .iterInsert i obj malloc =>
    let (list, it) := s.list.llIterInsert (s.iter i) obj malloc
    some ⟨list, Function.update s.iter i it, inserted s.objs obj malloc⟩
  | .iterRemove i => (s.list.llIterRemove (s.iter i)).map fun (list, it, obj) =>
      ⟨list, Function.update s.iter i it, s.objs.erase obj⟩
  | .iterMoveFirst i => (s.list.llIterMoveFirst (s.iter i)).map fun (list, it, _) =>
      ⟨list, Function.update s.iter i it, s.objs⟩
  | .remove obj fuel => (s.list.llRemove obj fuel).map fun (list, _) =>
      { s with list := list, objs := s.objs.filter (· ≠ obj) }

def system (ι : Type) [DecidableEq ι] : System (State ι) (Action ι) where
  init s := s = ⟨.llCreate, fun _ => LlList.llCreate.llIterCreate, []⟩
  next := next

/-- What the list of the source is meant to be: a chain of `count` nodes with `last` its last node,
which holds every object inserted and not yet removed once. -/
def WellFormed (l : LlList) (objs : List ℕ) : Prop :=
  ∃ nodes : List ℕ, Chain.Seg l.nxt l.initial nodes none ∧ nodes.Nodup ∧ l.count = nodes.length ∧
    l.last = nodes.getLast? ∧ (nodes.map fun n => (l.node n).obj).Perm objs

/-- The chain `L` of a list with its bookkeeping. -/
structure ListInv (l : LlList) (L : List ℕ) : Prop where
  chain : Chain.Seg l.nxt l.initial L none
  nodup : L.Nodup
  last : l.last = L.getLast?
  count : l.count = L.length
  bound : ∀ n ∈ L, n < l.nextAddr
  obj : ∀ n ∈ L, (l.node n).obj ≠ 0
  flag : l.flag = false
  small : L.length < 2 ^ 31

/-- The objects of a chain. -/
def objsOf (l : LlList) (L : List ℕ) : List ℕ := L.map fun n => (l.node n).obj

/-- An iterator whose version is current stands at a node of the chain, its `prv` unset or right. -/
def Placed (L : List ℕ) (version : ℕ) (it : LlIter) : Prop :=
  it.version ≤ version ∧ (it.version = version → ∀ cur, it.cur = some cur →
    cur ∈ L ∧ ∀ prv, it.prv = some prv → ∃ A B, L = A ++ prv :: cur :: B)

variable {l : LlList} {L A B : List ℕ} {it : LlIter} {n x : ℕ}

theorem ListInv.wellFormed (h : ListInv l L) {objs : List ℕ} (hp : (objsOf l L).Perm objs) :
    WellFormed l objs :=
  ⟨L, h.chain, h.nodup, h.count, h.last, hp⟩

section Links

@[simp] theorem nxt_setNxt (v : Option ℕ) : (l.setNxt n v).nxt = Function.update l.nxt n v := by
  funext m
  by_cases hm : m = n
  · subst hm
    simp [LlList.nxt, LlList.setNxt]
  · simp [LlList.nxt, LlList.setNxt, hm]

@[simp] theorem obj_setNxt (v : Option ℕ) (m : ℕ) :
    ((l.setNxt n v).node m).obj = (l.node m).obj := by
  by_cases hm : m = n
  · subst hm
    simp [LlList.setNxt]
  · simp [LlList.setNxt, hm]

@[simp] theorem nxt_alloc (obj : ℕ) (v : Option ℕ) :
    (l.alloc obj v).nxt = Function.update l.nxt l.nextAddr v := by
  funext m
  by_cases hm : m = l.nextAddr
  · subst hm
    simp [LlList.nxt, LlList.alloc]
  · simp [LlList.nxt, LlList.alloc, hm]

theorem obj_alloc (obj : ℕ) (v : Option ℕ) (m : ℕ) :
    ((l.alloc obj v).node m).obj = if m = l.nextAddr then obj else (l.node m).obj := by
  by_cases hm : m = l.nextAddr
  · subst hm
    simp [LlList.alloc]
  · simp [LlList.alloc, hm]

theorem ListInv.new (h : ListInv l L) : l.nextAddr ∉ L :=
  fun hm => lt_irrefl _ (h.bound _ hm)

theorem ListInv.obj_alloc_of_mem (h : ListInv l L) (obj : ℕ) (v : Option ℕ) (hn : n ∈ L) :
    ((l.alloc obj v).node n).obj = (l.node n).obj := by
  have hne : n ≠ l.nextAddr := by
    rintro rfl
    exact h.new hn
  rw [obj_alloc, if_neg hne]

theorem ListInv.search_found (h : ListInv l (A ++ x :: B)) :
    l.search (some x) = some (some x, A.getLast?) := by
  have hx : x ∉ A := fun hm => (List.nodup_append.mp h.nodup).2.2 x hm x List.mem_cons_self rfl
  have hlen := Chain.length_le_of_bound h.nodup h.bound
  rw [List.length_append] at hlen
  have := @Chain.walk_found _ _ _ _ _ _ h.chain hx none (l.nextAddr + 1) (by omega)
  rwa [Option.or_none] at this

theorem ListInv.search_notFound (h : ListInv l L) {target : Option ℕ}
    (hx : ∀ n ∈ L, target ≠ some n) : ∃ prv, l.search target = some (none, prv) :=
  Chain.walk_notFound h.chain hx none
    (Nat.lt_succ_of_le (Chain.length_le_of_bound h.nodup h.bound))

/-- Unlinking keeps the chain of the other nodes. -/
theorem ListInv.unlink (h : ListInv l (A ++ x :: B)) :
    Chain.Seg (l.unlink A.getLast? x).nxt (l.unlink A.getLast? x).initial (A ++ B) none := by
  obtain ⟨hA, hB⟩ := Chain.Seg.mid.mp h.chain
  by_cases hne : A = []
  · subst hne
    exact hB
  · obtain ⟨y, hy, -, hA'⟩ := hA.relink hne (List.nodup_append.mp h.nodup).1 (l.nxt x)
    have hyB : y ∉ B := fun hm => (List.nodup_append.mp h.nodup).2.2 y (List.mem_of_getLast? hy) y
      (List.mem_cons_of_mem _ hm) rfl
    rw [hy]
    simp only [LlList.unlink, nxt_setNxt]
    exact Chain.Seg.append.mpr ⟨_, hA', (Chain.Seg.update hyB _).mpr hB⟩

@[simp] theorem obj_unlink (prv : Option ℕ) (m : ℕ) :
    ((l.unlink prv n).node m).obj = (l.node m).obj := by
  cases prv with
  | none => rfl
  | some p => exact obj_setNxt _ m

theorem unlink_fields (prv : Option ℕ) : (l.unlink prv n).last = l.last ∧
    (l.unlink prv n).count = l.count ∧ (l.unlink prv n).nextAddr = l.nextAddr ∧
    (l.unlink prv n).flag = l.flag ∧ (l.unlink prv n).version = l.version := by
  cases prv <;> exact ⟨rfl, rfl, rfl, rfl, rfl⟩

@[simp] theorem obj_linkLast (m : ℕ) : ((l.linkLast n).node m).obj = (l.node m).obj := by
  unfold LlList.linkLast
  cases l.last with
  | none => rfl
  | some last => exact obj_setNxt _ m

theorem linkLast_fields : (l.linkLast n).nextAddr = l.nextAddr ∧ (l.linkLast n).flag = l.flag ∧
    (l.linkLast n).count = l.count ∧ (l.linkLast n).version = l.version := by
  unfold LlList.linkLast
  cases l.last <;> exact ⟨rfl, rfl, rfl, rfl⟩

/-- The chain with a new last node. -/
theorem ListInv.linkLast (h : ListInv l L) (obj : ℕ) :
    Chain.Seg ((l.alloc obj none).linkLast l.nextAddr).nxt
      ((l.alloc obj none).linkLast l.nextAddr).initial (L ++ [l.nextAddr]) none := by
  have hnew := h.new
  by_cases hL : L = []
  · subst hL
    have hlast : (l.alloc obj none).last = none := h.last
    simp only [LlList.linkLast, hlast]
    refine ⟨rfl, ?_⟩
    change (l.alloc obj none).nxt l.nextAddr = none
    rw [nxt_alloc, Function.update_self]
  · obtain ⟨y, hy, -, hrel⟩ := h.chain.relink hL h.nodup (some l.nextAddr)
    have hlast : (l.alloc obj none).last = some y := h.last.trans hy
    have hyn : y ≠ l.nextAddr := by
      rintro rfl
      exact hnew (List.mem_of_getLast? hy)
    simp only [LlList.linkLast, hlast, nxt_setNxt, nxt_alloc]
    rw [Function.update_comm hyn.symm]
    exact Chain.Seg.concat.mpr ⟨(Chain.Seg.update hnew _).mpr hrel, Function.update_self _ _ _⟩

theorem seg_initial_isNone (h : Chain.Seg l.nxt l.initial L none) : l.initial = none ↔ L = [] := by
  cases L with
  | nil =>
    have : l.initial = none := h
    simp [this]
  | cons n L => simp [h.1]

/-- The last node of a chain from which `x` is taken out. -/
private theorem getLast?_delete (hnd : (A ++ x :: B).Nodup) :
    (if (A ++ x :: B).getLast? = some x then A.getLast? else (A ++ x :: B).getLast?) =
      (A ++ B).getLast? := by
  by_cases hB : B = []
  · subst hB
    rw [if_pos (by simp), List.append_nil]
  · obtain ⟨B', y, rfl⟩ : ∃ B' y, B = B' ++ [y] := ⟨_, _, (List.dropLast_append_getLast hB).symm⟩
    have hyx : y ≠ x := by
      rintro rfl
      have := (List.nodup_append.mp hnd).2.1
      simp at this
    have hl : (A ++ x :: (B' ++ [y])).getLast? = some y := by
      rw [← List.cons_append, ← List.append_assoc, List.getLast?_concat]
    have hl' : (A ++ (B' ++ [y])).getLast? = some y := by
      rw [← List.append_assoc, List.getLast?_concat]
    rw [hl, if_neg fun he => hyx (Option.some.inj he), hl']

end Links

section Operations

theorem ListInv.append (h : ListInv l L) {obj : ℕ} (hobj : obj ≠ 0) (hsmall : L.length + 1 < 2 ^ 31) :
    ListInv (l.llAppendNolock obj true) (L ++ [l.nextAddr]) ∧
      objsOf (l.llAppendNolock obj true) (L ++ [l.nextAddr]) = objsOf l L ++ [obj] ∧
      (l.llAppendNolock obj true).version = l.version := by
  have hnew := h.new
  have hcnt := h.count
  have hcond : obj ≠ 0 ∧ !l.flag ∧ true := ⟨hobj, by simp [h.flag], rfl⟩
  have hseg := h.linkLast obj
  obtain ⟨hnext, hflag, hcount, hversion⟩ :=
    linkLast_fields (l := l.alloc obj none) (n := l.nextAddr)
  rw [LlList.llAppendNolock, if_pos hcond]
  dsimp only
  set l' := (l.alloc obj none).linkLast l.nextAddr
  have hobj' : ∀ m ∈ L, (l'.node m).obj = (l.node m).obj :=
    fun m hm => (obj_linkLast m).trans (h.obj_alloc_of_mem obj none hm)
  have hobjNew : (l'.node l.nextAddr).obj = obj := by rw [obj_linkLast, obj_alloc, if_pos rfl]
  refine ⟨⟨hseg, ?_, ?_, ?_, fun m hm => ?_, fun m hm => ?_, hflag.trans h.flag, ?_⟩, ?_, hversion⟩
  · exact h.nodup.append (List.nodup_singleton _) (by simpa using hnew)
  · exact List.getLast?_concat.symm
  · change int32 (l'.count + 1) = _
    rw [hcount, List.length_append, List.length_singleton]
    change int32 (l.count + 1) = _
    rw [hcnt, int32_of_bounds] <;> omega
  · change m < l'.nextAddr
    rw [hnext]
    change m < l.nextAddr + 1
    rcases List.mem_append.mp hm with hm | hm
    · have := h.bound m hm
      omega
    · rw [List.mem_singleton.mp hm]
      omega
  · change (l'.node m).obj ≠ 0
    rcases List.mem_append.mp hm with hm | hm
    · rw [hobj' m hm]
      exact h.obj m hm
    · rwa [List.mem_singleton.mp hm, hobjNew]
  · rwa [List.length_append, List.length_singleton]
  · rw [objsOf, List.map_append, List.map_singleton]
    change (L.map fun n => (l'.node n).obj) ++ [(l'.node l.nextAddr).obj] = _
    rw [hobjNew, List.map_congr_left hobj']
    rfl

theorem ListInv.remove (h : ListInv l (A ++ x :: B)) :
    ListInv (l.removeNode A.getLast? x) (A ++ B) ∧
      (∀ m, ((l.removeNode A.getLast? x).node m).obj = (l.node m).obj) ∧
      (l.removeNode A.getLast? x).version = l.version + 1 := by
  have hseg := h.unlink
  obtain ⟨hlast, hcount, hnext, hflag, hversion⟩ := unlink_fields (l := l) (n := x) A.getLast?
  have hsub : ∀ m ∈ A ++ B, m ∈ A ++ x :: B := by
    intro m hm
    rcases List.mem_append.mp hm with hm | hm
    · exact List.mem_append_left _ hm
    · exact List.mem_append_right _ (List.mem_cons_of_mem _ hm)
  have hlen : (A ++ x :: B).length = (A ++ B).length + 1 := by
    simp only [List.length_append, List.length_cons]
    omega
  have hsmall := h.small
  have hcnt := h.count
  have hobj : ∀ m, ((l.removeNode A.getLast? x).node m).obj = (l.node m).obj :=
    fun m => obj_unlink A.getLast? m
  refine ⟨⟨hseg, h.nodup.sublist (by simp), ?_, ?_, fun m hm => ?_, fun m hm => ?_, ?_, by omega⟩,
    hobj, ?_⟩
  · change (if (l.unlink A.getLast? x).initial.isNone then none
      else if (l.unlink A.getLast? x).last = some x then A.getLast?
      else (l.unlink A.getLast? x).last) = _
    rw [hlast, h.last, getLast?_delete h.nodup]
    by_cases hAB : A ++ B = []
    · rw [hAB, if_pos (by rw [(seg_initial_isNone hseg).mpr hAB]; rfl)]
      rfl
    · have hin := mt (seg_initial_isNone hseg).mp hAB
      rw [if_neg (by simpa using hin)]
  · change int32 ((l.unlink A.getLast? x).count - 1) = _
    rw [hcount, hcnt, int32_of_bounds] <;> omega
  · change m < (l.unlink A.getLast? x).nextAddr
    rw [hnext]
    exact h.bound m (hsub m hm)
  · rw [hobj]
    exact h.obj m (hsub m hm)
  · exact hflag.trans h.flag
  · exact congrArg (· + 1) hversion

theorem ListInv.prepend (h : ListInv l L) {obj : ℕ} (hobj : obj ≠ 0)
    (hsmall : L.length + 1 < 2 ^ 31) :
    ListInv (l.llPrepend obj true) (l.nextAddr :: L) ∧
      objsOf (l.llPrepend obj true) (l.nextAddr :: L) = obj :: objsOf l L ∧
      (l.llPrepend obj true).version = l.version := by
  have hnew := h.new
  have hcnt := h.count
  have hcond : obj ≠ 0 ∧ !l.flag ∧ true := ⟨hobj, by simp [h.flag], rfl⟩
  rw [LlList.llPrepend, if_pos hcond]
  dsimp only
  set l' := l.alloc obj l.initial with hl'
  have hobj' : ∀ m ∈ L, (l'.node m).obj = (l.node m).obj :=
    fun m hm => h.obj_alloc_of_mem obj _ hm
  have hobjNew : (l'.node l.nextAddr).obj = obj := by rw [hl', obj_alloc, if_pos rfl]
  refine ⟨⟨⟨rfl, ?_⟩, List.nodup_cons.mpr ⟨hnew, h.nodup⟩, ?_, ?_, fun m hm => ?_, fun m hm => ?_,
    h.flag, ?_⟩, ?_, rfl⟩
  · change Chain.Seg l'.nxt (l'.nxt l.nextAddr) L none
    rw [hl', nxt_alloc, Function.update_self]
    exact (Chain.Seg.update hnew _).mpr h.chain
  · change (if l.last.isNone then some l.nextAddr else l.last) = _
    rw [h.last]
    cases L with
    | nil => rfl
    | cons n L =>
      rw [List.getLast?_cons_cons, if_neg (by simp)]
  · change int32 (l.count + 1) = _
    rw [hcnt, List.length_cons, int32_of_bounds] <;> omega
  · change m < l.nextAddr + 1
    rcases List.mem_cons.mp hm with rfl | hm
    · omega
    · have := h.bound m hm
      omega
  · change (l'.node m).obj ≠ 0
    rcases List.mem_cons.mp hm with rfl | hm
    · rwa [hobjNew]
    · rw [hobj' m hm]
      exact h.obj m hm
  · rwa [List.length_cons]
  · rw [objsOf, List.map_cons]
    change (l'.node l.nextAddr).obj :: (L.map fun n => (l'.node n).obj) = _
    rw [hobjNew, List.map_congr_left hobj']
    rfl

theorem ListInv.insert {c nxt : ℕ} (h : ListInv l (A ++ c :: B)) (hc : l.nxt c = some nxt)
    (hcur : it.cur = some c) {obj : ℕ} (hobj : obj ≠ 0)
    (hsmall : (A ++ c :: B).length + 1 < 2 ^ 31) :
    ListInv (l.llIterInsert it obj true).1 (A ++ c :: l.nextAddr :: B) ∧
      (objsOf (l.llIterInsert it obj true).1 (A ++ c :: l.nextAddr :: B)).Perm
        (obj :: objsOf l (A ++ c :: B)) ∧
      (l.llIterInsert it obj true).1.version = l.version + 1 ∧
      (l.llIterInsert it obj true).2 = { it with version := l.version + 1 } := by
  have hnew := h.new
  have hcnt := h.count
  obtain ⟨hA, hB⟩ := Chain.Seg.mid.mp h.chain
  have hnd := List.nodup_append.mp h.nodup
  have hcA : c ∉ A := fun hm => hnd.2.2 c hm c List.mem_cons_self rfl
  have hcB : c ∉ B := (List.nodup_cons.mp hnd.2.1).1
  have hnewA : l.nextAddr ∉ A := fun hm => hnew (List.mem_append_left _ hm)
  have hnewB : l.nextAddr ∉ B :=
    fun hm => hnew (List.mem_append_right _ (List.mem_cons_of_mem _ hm))
  have hnewc : l.nextAddr ≠ c := by
    intro he
    exact hnew (he ▸ List.mem_append_right _ List.mem_cons_self)
  have hBne : B ≠ [] := by
    rintro rfl
    have : l.nxt c = none := hB
    rw [hc] at this
    cases this
  have hcond : obj ≠ 0 ∧ !l.flag := ⟨hobj, by simp [h.flag]⟩
  have hbind : (it.cur.bind fun cur => (l.nxt cur).map fun nxt => (cur, nxt)) = some (c, nxt) := by
    rw [hcur, Option.bind_some, hc, Option.map_some]
  rw [LlList.llIterInsert, if_pos hcond, hbind]
  simp only [if_true]
  set l' := (l.alloc obj (some nxt)).setNxt c (some l.nextAddr) with hl'
  have hnxt : l'.nxt =
      Function.update (Function.update l.nxt l.nextAddr (some nxt)) c (some l.nextAddr) := by
    rw [hl', nxt_setNxt, nxt_alloc]
  have hobj' : ∀ m ∈ A ++ c :: B, (l'.node m).obj = (l.node m).obj :=
    fun m hm => (obj_setNxt _ m).trans (h.obj_alloc_of_mem obj _ hm)
  have hobjNew : (l'.node l.nextAddr).obj = obj := by rw [hl', obj_setNxt, obj_alloc, if_pos rfl]
  have hperm : (A ++ c :: l.nextAddr :: B).Perm (l.nextAddr :: (A ++ c :: B)) := by
    have : ((A ++ [c]) ++ l.nextAddr :: B).Perm (l.nextAddr :: ((A ++ [c]) ++ B)) := List.perm_middle
    simpa using this
  have hmem : ∀ m ∈ A ++ c :: l.nextAddr :: B, m = l.nextAddr ∨ m ∈ A ++ c :: B :=
    fun m hm => List.mem_cons.mp (hperm.mem_iff.mp hm)
  refine ⟨⟨?_, ?_, ?_, ?_, fun m hm => ?_, fun m hm => ?_, h.flag, ?_⟩, ?_, rfl, rfl⟩
  · change Chain.Seg l'.nxt l.initial (A ++ c :: l.nextAddr :: B) none
    rw [hnxt]
    refine Chain.Seg.mid.mpr ⟨?_, ?_⟩
    · exact (Chain.Seg.update hcA _).mpr ((Chain.Seg.update hnewA _).mpr hA)
    · rw [Function.update_self]
      refine ⟨rfl, ?_⟩
      rw [Function.update_of_ne hnewc, Function.update_self, ← hc]
      exact (Chain.Seg.update hcB _).mpr ((Chain.Seg.update hnewB _).mpr hB)
  · exact hperm.nodup_iff.mpr (List.nodup_cons.mpr ⟨hnew, h.nodup⟩)
  · change l.last = _
    rw [h.last, List.getLast?_append_of_ne_nil _ (List.cons_ne_nil _ _),
      List.getLast?_append_of_ne_nil _ (List.cons_ne_nil _ _)]
    cases B with
    | nil => exact absurd rfl hBne
    | cons b B => simp only [List.getLast?_cons_cons]
  · change int32 (l.count + 1) = _
    rw [hcnt, hperm.length_eq, List.length_cons, int32_of_bounds] <;> omega
  · change m < l.nextAddr + 1
    rcases hmem m hm with rfl | hm
    · omega
    · have := h.bound m hm
      omega
  · change (l'.node m).obj ≠ 0
    rcases hmem m hm with rfl | hm
    · rwa [hobjNew]
    · rw [hobj' m hm]
      exact h.obj m hm
  · rw [hperm.length_eq]
    exact hsmall
  · have : (objsOf l' (A ++ c :: l.nextAddr :: B)).Perm (objsOf l' (l.nextAddr :: (A ++ c :: B))) :=
      hperm.map _
    rw [show objsOf l' (l.nextAddr :: (A ++ c :: B)) = obj :: objsOf l (A ++ c :: B) by
      rw [objsOf, List.map_cons, hobjNew, List.map_congr_left hobj', objsOf]] at this
    exact this

theorem ListInv.move (h : ListInv l (A ++ x :: B)) (hA : A ≠ []) :
    ListInv (l.moveNode A.getLast? x) (x :: (A ++ B)) ∧
      (∀ m, ((l.moveNode A.getLast? x).node m).obj = (l.node m).obj) ∧
      (l.moveNode A.getLast? x).version = l.version + 1 := by
  have hseg := h.unlink
  obtain ⟨hlast, hcount, hnext, hflag, hversion⟩ := unlink_fields (l := l) (n := x) A.getLast?
  have hperm : (A ++ x :: B).Perm (x :: (A ++ B)) := List.perm_middle
  have hnd := hperm.nodup_iff.mp h.nodup
  have hobj : ∀ m, ((l.moveNode A.getLast? x).node m).obj = (l.node m).obj :=
    fun m => (obj_setNxt _ m).trans (obj_unlink A.getLast? m)
  refine ⟨⟨⟨rfl, ?_⟩, hnd, ?_, ?_, fun m hm => ?_, fun m hm => ?_, hflag.trans h.flag, ?_⟩, hobj, ?_⟩
  · change Chain.Seg ((l.unlink A.getLast? x).setNxt x (l.unlink A.getLast? x).initial).nxt
      (((l.unlink A.getLast? x).setNxt x (l.unlink A.getLast? x).initial).nxt x) (A ++ B) none
    rw [nxt_setNxt, Function.update_self]
    exact (Chain.Seg.update (List.nodup_cons.mp hnd).1 _).mpr hseg
  · change (if A.getLast?.isSome ∧ (l.unlink A.getLast? x).last = some x then A.getLast?
      else (l.unlink A.getLast? x).last) = _
    have hsome : A.getLast?.isSome = true := by simpa using hA
    have hcons : (x :: (A ++ B)).getLast? = (A ++ B).getLast? := by
      rw [← List.singleton_append, List.getLast?_append_of_ne_nil _ (by simp [hA])]
    rw [hlast, h.last, hcons, ← getLast?_delete h.nodup]
    simp only [hsome, true_and]
  · rw [← hperm.length_eq, ← h.count]
    exact hcount
  · change m < (l.unlink A.getLast? x).nextAddr
    rw [hnext]
    exact h.bound m (hperm.mem_iff.mpr hm)
  · rw [hobj]
    exact h.obj m (hperm.mem_iff.mpr hm)
  · rw [← hperm.length_eq]
    exact h.small
  · exact congrArg (· + 1) hversion

end Operations

end NCam.LList
