import NCam.LList.Runs

/-! Loops that remove nodes of the list they iterate over: `ll_remove`, `ll_remove_all` and the clean
up loops, each with its own condition on the object. -/
namespace NCam.LList

/-- `ll_iter_reset`. -/
def LlIter.llIterReset (it : LlIter) : LlIter := { it with prv := none, cur := none }

namespace LlList

/-- `while((data = ll_iter_next(&it)))` with `ll_iter_remove(&it)` for the objects with `p`; returns
the objects visited as well. -/
def sweepLoop (p : ℕ → Bool) : ℕ → LlList → LlIter → List ℕ → Option (LlList × List ℕ)
  | 0, _, _, _ => none
  | fuel + 1, l, it, visited =>
    (l.llIterNext it).bind fun (it, data) =>
      if data = 0 then some (l, visited)
      else if p data then
        (l.llIterRemove it).bind fun (l, it, _) => sweepLoop p fuel l it (visited ++ [data])
      else sweepLoop p fuel l it (visited ++ [data])

def sweep (l : LlList) (p : ℕ → Bool) (fuel : ℕ) : Option (LlList × List ℕ) :=
  sweepLoop p fuel l l.llIterCreate []

/-- The inner loop of `ll_remove_all`: whether `data1` is an object of the other list. -/
def foundLoop (data1 : ℕ) : ℕ → LlList → LlIter → Option (LlIter × Bool)
  | 0, _, _ => none
  | fuel + 1, l, it2 =>
    (l.llIterNext it2).bind fun (it2, data2) =>
      if data2 = 0 then some (it2, false)
      else if data1 = data2 then some (it2, true)
      else foundLoop data1 fuel l it2

/-- The outer loop of `ll_remove_all`. -/
def removeAllLoop (elements : LlList) (inner : ℕ) :
    ℕ → LlList → LlIter → LlIter → ℕ → Option (LlList × ℕ)
  | 0, _, _, _, _ => none
  | fuel + 1, l, it1, it2, count =>
    (l.llIterNext it1).bind fun (it1, data1) =>
      if data1 = 0 then some (l, count)
      else (foundLoop data1 inner elements it2.llIterReset).bind fun (it2, found) =>
        if found then
          (l.llIterRemove it1).bind fun (l, it1, _) =>
            removeAllLoop elements inner fuel l it1 it2 (count + 1)
        else removeAllLoop elements inner fuel l it1 it2 count

def llRemoveAll (l elements : LlList) (fuel : ℕ) : Option (LlList × ℕ) :=
  removeAllLoop elements fuel fuel l l.llIterCreate elements.llIterCreate 0

end LlList

variable {l elements : LlList} {L A B : List ℕ} {b : ℕ}

/-- The nodes a sweep leaves. -/
def keptNodes (l : LlList) (p : ℕ → Bool) (L : List ℕ) : List ℕ :=
  L.filter fun n => !p (l.node n).obj

theorem objsOf_keptNodes (p : ℕ → Bool) :
    objsOf l (keptNodes l p L) = (objsOf l L).filter fun o => !p o := by
  unfold objsOf keptNodes
  rw [List.filter_map]
  rfl

/-- The iterator that `ll_iter_next` leaves at `b`, which `ll_iter_remove` is then called with. -/
private theorem placed_at (A B : List ℕ) (b version : ℕ) :
    Placed (A ++ b :: B) version ⟨(b :: B).head?, A.getLast?, version⟩ := by
  have := placed_behind (A ++ [b]) B version
  simpa [behind] using this

private theorem at_eq_behind (A B : List ℕ) (b version : ℕ) :
    (⟨(b :: B).head?, A.getLast?, version⟩ : LlIter) = behind (A ++ [b]) version := by
  simp [behind]

/-- A sweep whose iterator is behind `A`: it visits `B` and removes from it the nodes with `p`. -/
theorem sweepLoop_spec (p : ℕ → Bool) (fuel : ℕ) (visited : List ℕ) (h : ListInv l (A ++ B))
    (hfuel : B.length < fuel) :
    ∃ l', LlList.sweepLoop p fuel l (behind A l.version) visited =
        some (l', visited ++ objsOf l B) ∧
      ListInv l' (A ++ keptNodes l p B) ∧ ∀ m, (l'.node m).obj = (l.node m).obj := by
  -- the list itself changes when a node goes, so the induction is on the nodes still to visit
  induction B generalizing l A fuel visited with
  | nil =>
    obtain ⟨fuel, rfl⟩ : ∃ k, fuel = k + 1 := ⟨fuel - 1, by omega⟩
    refine ⟨l, ?_, h, fun _ => rfl⟩
    have hzero : l.objAt ([] : List ℕ).head? = 0 := rfl
    rw [LlList.sweepLoop, h.iterNext_behind, Option.bind_some]
    dsimp only
    rw [if_pos hzero, objsOf, List.map_nil, List.append_nil]
  | cons b B ih =>
    obtain ⟨fuel, rfl⟩ : ∃ k, fuel = k + 1 := ⟨fuel - 1, by omega⟩
    have hlt : B.length < fuel := by simpa using hfuel
    have hat : l.objAt (b :: B).head? = (l.node b).obj := rfl
    have hb : (l.node b).obj ≠ 0 := h.obj b (List.mem_append_right _ List.mem_cons_self)
    have hvisited : visited ++ objsOf l (b :: B) = visited ++ [(l.node b).obj] ++ objsOf l B := by
      rw [objsOf, List.map_cons, List.append_assoc]
      rfl
    rw [LlList.sweepLoop, h.iterNext_behind, Option.bind_some]
    dsimp only
    rw [hat, if_neg hb, hvisited]
    cases hp : p (l.node b).obj with
    | true =>
      obtain ⟨h', hobj, hversion⟩ := h.remove
      have hkept : keptNodes l p (b :: B) = keptNodes l p B := by
        rw [keptNodes, List.filter_cons_of_neg (by simp [hp])]
        rfl
      rw [if_pos rfl, h.iterRemove_mem (placed_at A B b _) rfl (by simp), Option.bind_some,
        ← hversion]
      dsimp only
      obtain ⟨l', hrun, hinv, hobj'⟩ := ih fuel (visited ++ [(l.node b).obj]) h' hlt
      have hobjs : objsOf (l.removeNode A.getLast? b) B = objsOf l B := by simp only [objsOf, hobj]
      have hsame : keptNodes (l.removeNode A.getLast? b) p B = keptNodes l p B := by
        simp only [keptNodes, hobj]
      rw [hobjs] at hrun
      rw [hsame] at hinv
      rw [hkept]
      exact ⟨l', hrun, hinv, fun m => (hobj' m).trans (hobj m)⟩
    | false =>
      have hkept : keptNodes l p (b :: B) = b :: keptNodes l p B := by
        rw [keptNodes, List.filter_cons_of_pos (by simp [hp])]
        rfl
      have heq : ∀ M : List ℕ, A ++ b :: M = (A ++ [b]) ++ M := by simp
      rw [if_neg Bool.false_ne_true, at_eq_behind, hkept, heq (keptNodes l p B)]
      rw [heq B] at h
      exact ih fuel (visited ++ [(l.node b).obj]) h hlt

/-- `ll_remove` is a sweep that counts. -/
theorem removeLoop_eq_sweepLoop (obj fuel : ℕ) (l : LlList) (it : LlIter) (visited : List ℕ) :
    LlList.removeLoop obj fuel l it (visited.count obj) =
      (LlList.sweepLoop (· == obj) fuel l it visited).map fun r => (r.1, r.2.count obj) := by
  induction fuel generalizing l it visited with
  | zero => rfl
  | succ fuel ih =>
    rw [LlList.removeLoop, LlList.sweepLoop]
    cases hnext : l.llIterNext it with
    | none => rfl
    | some r =>
      obtain ⟨it, data⟩ := r
      simp only [Option.bind_some]
      by_cases hzero : data = 0
      · rw [if_pos hzero, if_pos hzero]
        rfl
      rw [if_neg hzero, if_neg hzero]
      by_cases hobj : data = obj
      · rw [if_pos hobj, if_pos (beq_iff_eq.mpr hobj)]
        have hcount : (visited ++ [data]).count obj = visited.count obj + 1 := by
          rw [List.count_append, hobj, List.count_singleton_self]
        cases hrem : l.llIterRemove it with
        | none => rfl
        | some r =>
          rw [Option.bind_some, Option.bind_some, ← hcount]
          exact ih _ _ _
      · have hne : ¬ (data == obj) = true := fun he => hobj (beq_iff_eq.mp he)
        have hcount : (visited ++ [data]).count obj = visited.count obj := by
          rw [List.count_append, List.count_singleton, if_neg hne, Nat.add_zero]
        rw [if_neg hobj, if_neg hne, ← hcount]
        exact ih _ _ _

/-- The inner loop of `ll_remove_all` finds the objects of the other list. -/
theorem foundLoop_spec (data1 fuel : ℕ) (h : ListInv elements (A ++ B)) (hfuel : B.length < fuel) :
    ∃ it, it.version = elements.version ∧
      LlList.foundLoop data1 fuel elements (behind A elements.version) =
        some (it, decide (data1 ∈ objsOf elements B)) := by
  induction B generalizing A fuel with
  | nil =>
    obtain ⟨fuel, rfl⟩ : ∃ k, fuel = k + 1 := ⟨fuel - 1, by omega⟩
    have hzero : elements.objAt ([] : List ℕ).head? = 0 := rfl
    rw [LlList.foundLoop, h.iterNext_behind, Option.bind_some]
    dsimp only
    rw [if_pos hzero]
    exact ⟨_, rfl, rfl⟩
  | cons b B ih =>
    obtain ⟨fuel, rfl⟩ : ∃ k, fuel = k + 1 := ⟨fuel - 1, by omega⟩
    have hat : elements.objAt (b :: B).head? = (elements.node b).obj := rfl
    have hb : (elements.node b).obj ≠ 0 := h.obj b (List.mem_append_right _ List.mem_cons_self)
    have hobjs : objsOf elements (b :: B) = (elements.node b).obj :: objsOf elements B := rfl
    rw [LlList.foundLoop, h.iterNext_behind, Option.bind_some]
    dsimp only
    rw [hat, if_neg hb, hobjs]
    by_cases heq : data1 = (elements.node b).obj
    · have hmem : data1 ∈ (elements.node b).obj :: objsOf elements B := heq ▸ List.mem_cons_self
      rw [if_pos heq, decide_eq_true hmem]
      exact ⟨_, rfl, rfl⟩
    · have hmem : data1 ∈ (elements.node b).obj :: objsOf elements B ↔
          data1 ∈ objsOf elements B := by simp [heq]
      rw [if_neg heq, at_eq_behind, decide_eq_decide.mpr hmem]
      have h' : ListInv elements ((A ++ [b]) ++ B) := by simpa using h
      exact ih fuel h' (by simpa using hfuel)

/-- `ll_remove_all` is a sweep with the objects of the other list. -/
theorem removeAllLoop_eq_sweepLoop {M : List ℕ} (hM : ListInv elements M) (inner fuel : ℕ)
    (hinner : M.length < inner) (l : LlList) (it1 it2 : LlIter)
    (hit2 : it2.version = elements.version) (visited : List ℕ) :
    LlList.removeAllLoop elements inner fuel l it1 it2
        (visited.countP fun o => decide (o ∈ objsOf elements M)) =
      (LlList.sweepLoop (fun o => decide (o ∈ objsOf elements M)) fuel l it1 visited).map
        fun r => (r.1, r.2.countP fun o => decide (o ∈ objsOf elements M)) := by
  induction fuel generalizing l it1 it2 visited with
  | zero => rfl
  | succ fuel ih =>
    rw [LlList.removeAllLoop, LlList.sweepLoop]
    cases hnext : l.llIterNext it1 with
    | none => rfl
    | some r =>
      obtain ⟨it1, data⟩ := r
      simp only [Option.bind_some]
      by_cases hzero : data = 0
      · rw [if_pos hzero, if_pos hzero]
        rfl
      have hM' : ListInv elements ([] ++ M) := hM
      obtain ⟨it2', hversion, hfound⟩ := foundLoop_spec data inner hM' hinner
      have hreset : it2.llIterReset = behind [] elements.version := by rw [← hit2]; rfl
      rw [if_neg hzero, if_neg hzero, hreset, hfound, Option.bind_some]
      dsimp only
      have hcount : (visited ++ [data]).countP (fun o => decide (o ∈ objsOf elements M)) =
          visited.countP (fun o => decide (o ∈ objsOf elements M)) +
            if data ∈ objsOf elements M then 1 else 0 := by
        rw [List.countP_append, List.countP_singleton]
        simp only [decide_eq_true_eq]
      by_cases hmem : data ∈ objsOf elements M
      · rw [if_pos (decide_eq_true hmem), if_pos (decide_eq_true hmem)]
        rw [if_pos hmem] at hcount
        cases hrem : l.llIterRemove it1 with
        | none => rfl
        | some r =>
          rw [Option.bind_some, Option.bind_some, ← hcount]
          exact ih _ _ _ hversion _
      · have hno : ¬ decide (data ∈ objsOf elements M) = true := by simpa using hmem
        rw [if_neg hno, if_neg hno]
        rw [if_neg hmem, Nat.add_zero] at hcount
        rw [← hcount]
        exact ih _ _ _ hversion _

/-- A loop over a list that removes the objects with `p` visits every object once in order and ends
with a list of the others, which `count` and `last` fit; `ll_remove` and `ll_remove_all` are such
loops. -/
theorem sweep_keeps {fuel : ℕ} (h : ListInv l L) (hfuel : L.length < fuel) :
    (∀ p : ℕ → Bool, ∃ l', l.sweep p fuel = some (l', objsOf l L) ∧
      ListInv l' (keptNodes l p L) ∧
      objsOf l' (keptNodes l p L) = (objsOf l L).filter (fun o => !p o) ∧
      l'.count = ((objsOf l L).filter fun o => !p o).length ∧
      l'.last = (keptNodes l p L).getLast?) ∧
    (∀ obj, l.llRemove obj fuel =
      (l.sweep (· == obj) fuel).map fun r => (r.1, r.2.count obj)) ∧
    ∀ elements M, ListInv elements M → M.length < fuel →
      l.llRemoveAll elements fuel =
        (l.sweep (fun o => decide (o ∈ objsOf elements M)) fuel).map
          fun r => (r.1, r.2.countP fun o => decide (o ∈ objsOf elements M)) := by
  refine ⟨fun p => ?_, fun obj => ?_, fun elements M hM hlt => ?_⟩
  · have h' : ListInv l ([] ++ L) := h
    obtain ⟨l', hrun, hinv, hobj⟩ := sweepLoop_spec p fuel [] h' hfuel
    rw [List.nil_append] at hrun hinv
    have hobjs : objsOf l' (keptNodes l p L) = (objsOf l L).filter fun o => !p o := by
      rw [← objsOf_keptNodes]
      simp only [objsOf, hobj]
    refine ⟨l', hrun, hinv, hobjs, ?_, hinv.last⟩
    rw [hinv.count, ← hobjs, objsOf, List.length_map]
  · exact removeLoop_eq_sweepLoop obj fuel l l.llIterCreate []
  · exact removeAllLoop_eq_sweepLoop hM fuel fuel hlt l _ _ rfl []

/-- Removing both nodes with object 20, the first and the last of three. -/
theorem sweep_keeps_twenty :
    let l := ((LlList.llCreate.llAppendNolock 20 true).llAppendNolock 30 true).llAppendNolock 20 true
    (∃ l', l.sweep (· == 20) 4 = some (l', [20, 30, 20]) ∧ l'.count = 1 ∧ l'.last = some 1) ∧
      (l.llRemove 20 4).map Prod.snd = some 2 := by
  obtain ⟨h1, -, -⟩ := listInv_llCreate.append (show 20 ≠ 0 by decide) (by decide)
  obtain ⟨h2, -, -⟩ := h1.append (show 30 ≠ 0 by decide) (by decide)
  obtain ⟨h3, -, -⟩ := h2.append (show 20 ≠ 0 by decide) (by decide)
  obtain ⟨hsweep, hremove, -⟩ := sweep_keeps h3 (show _ < 4 by decide)
  obtain ⟨l', hrun, -, -, hcount, hlast⟩ := hsweep (· == 20)
  refine ⟨⟨l', hrun, hcount, hlast⟩, ?_⟩
  rw [hremove, hrun]
  rfl

end NCam.LList
