import NCam.Tommy.Hashlin
import NCam.Tommy.Sort

/-! The paired structure of `ncam-hashtable.c`: a linear hash table and a list that thread the same
objects through two embedded nodes. -/
namespace NCam.Tommy

/-- A hash table with its list. `α` identifies the objects. -/
structure Table (α : Type*) where
  ht : Hashlin α
  ll : List α

namespace Table

variable {α : Type*}

def initHashTable : Table α := ⟨.init, []⟩

def addHashTable (t : Table α) (obj : α) (hash : ℕ) : Table α :=
  ⟨t.ht.insert obj hash, t.ll ++ [obj]⟩

/-- `find_hash_table` with `cmp a = true` where the C comparator returns `0`. -/
def findHashTable (t : Table α) (cmp : α → Bool) (hash : ℕ) : Option α := t.ht.search cmp hash

def sortList (t : Table α) (cmp : α → α → ℤ) : Table α := ⟨t.ht, listSort cmp t.ll⟩

def countHashTable (t : Table α) : ℕ := t.ht.count

variable [DecidableEq α]

/-- `search_remove_elem_hash_table`: the list keeps the object. -/
def searchRemoveElemHashTable (t : Table α) (cmp : α → Bool) (hash : ℕ) : Table α × Option α :=
  let (ht, obj) := t.ht.remove cmp hash
  (⟨ht, t.ll⟩, obj)

/-- `remove_elem_hash_table`; `none` when the node is not linked. -/
def removeElemHashTable (t : Table α) (n : Node α) : Option (Table α) :=
  (t.ht.removeExisting n).map fun ht => ⟨ht, t.ll⟩

/-- `remove_elem_list`; `none` when the node is not linked. -/
def removeElemList (t : Table α) (obj : α) : Option (Table α) :=
  if obj ∈ t.ll then some ⟨t.ht, t.ll.erase obj⟩ else none

/-- The objects linked in the hash table. -/
def hashed (t : Table α) : List α := t.ht.content.map Node.data

/-- Both structures link the same objects, each once, every object under the hash `idx` gives it. -/
structure Agree (t : Table α) (idx : α → ℕ) : Prop where
  wf : t.ht.WF
  nodup : t.ll.Nodup
  content : t.ht.content.Perm (t.ll.map fun a => ⟨a, idx a⟩)

variable {t : Table α} {idx : α → ℕ}

omit [DecidableEq α] in
theorem Agree.init : (initHashTable : Table α).Agree idx :=
  ⟨.init, List.nodup_nil, by simp [initHashTable, Hashlin.init, Hashlin.content]⟩

omit [DecidableEq α] in
theorem Agree.congr (ha : t.Agree idx) {idx' : α → ℕ} (h : ∀ a ∈ t.ll, idx' a = idx a) :
    t.Agree idx' := by
  have hmap : (t.ll.map fun a => (⟨a, idx' a⟩ : Node α)) = t.ll.map fun a => ⟨a, idx a⟩ :=
    List.map_congr_left fun a hm => by rw [h a hm]
  exact ⟨ha.wf, ha.nodup, hmap ▸ ha.content⟩

omit [DecidableEq α] in
theorem Agree.hashed_perm (ha : t.Agree idx) : t.hashed.Perm t.ll := by
  have hdata : (t.ll.map fun a => (⟨a, idx a⟩ : Node α)).map Node.data = t.ll := by
    rw [List.map_map]
    exact List.map_id t.ll
  have := ha.content.map Node.data
  rwa [hdata] at this

omit [DecidableEq α] in
theorem Agree.mem_content (ha : t.Agree idx) (a : α) (hash : ℕ) :
    ⟨a, hash⟩ ∈ t.ht.content ↔ a ∈ t.ll ∧ idx a = hash := by
  rw [ha.content.mem_iff, List.mem_map]
  constructor
  · rintro ⟨b, hb, he⟩
    obtain ⟨rfl, rfl⟩ := Node.mk.inj he
    exact ⟨hb, rfl⟩
  · rintro ⟨hm, rfl⟩
    exact ⟨a, hm, rfl⟩

omit [DecidableEq α] in
theorem Agree.add (ha : t.Agree idx) {a : α} (hnew : a ∉ t.ll) :
    (t.addHashTable a (idx a)).Agree idx := by
  obtain ⟨hwf, hperm⟩ := ha.wf.insert a (idx a)
  refine ⟨hwf, ?_, hperm.trans ?_⟩
  · exact ha.nodup.append (List.nodup_singleton a) (by simpa using hnew)
  · change List.Perm _ ((t.ll ++ [a]).map _)
    rw [List.map_append]
    exact (ha.content.cons _).trans (List.perm_append_singleton _ _).symm

omit [DecidableEq α] in
theorem Agree.find_eq_some (ha : t.Agree idx) {cmp : α → Bool} {hash : ℕ} {a : α}
    (h : t.findHashTable cmp hash = some a) : a ∈ t.ll ∧ idx a = hash ∧ cmp a = true := by
  obtain ⟨hm, hcmp⟩ := Hashlin.search_eq_some ha.wf h
  obtain ⟨hl, hi⟩ := (ha.mem_content a hash).mp hm
  exact ⟨hl, hi, hcmp⟩

omit [DecidableEq α] in
theorem Agree.find_eq_none (ha : t.Agree idx) {cmp : α → Bool} {hash : ℕ} :
    t.findHashTable cmp hash = none ↔ ∀ a ∈ t.ll, idx a = hash → cmp a = false := by
  rw [findHashTable, Hashlin.search_eq_none ha.wf]
  simp only [ha.mem_content, and_imp]

/-- Unlinking an object from the list and then from the hash table, as both cleanups do it. -/
theorem Agree.removeElem (ha : t.Agree idx) {a : α} (hm : a ∈ t.ll) :
    ∃ t', (t.removeElemList a).bind (·.removeElemHashTable ⟨a, idx a⟩) = some t' ∧
      t'.Agree idx ∧ t'.ll = t.ll.erase a := by
  obtain ⟨ht', hrem, hwf, hperm⟩ :=
    ha.wf.removeExisting ((ha.mem_content a (idx a)).mpr ⟨hm, rfl⟩)
  refine ⟨⟨ht', t.ll.erase a⟩, ?_, ⟨hwf, ha.nodup.erase a, hperm.trans ?_⟩, rfl⟩
  · simp [removeElemList, removeElemHashTable, hm, hrem]
  · refine (ha.content.erase _).trans ?_
    have hback := ((List.perm_cons_erase hm).map fun b => (⟨b, idx b⟩ : Node α)).erase ⟨a, idx a⟩
    rwa [List.map_cons, List.erase_cons_head] at hback

omit [DecidableEq α] in
theorem Agree.sortList (ha : t.Agree idx) (cmp : α → α → ℤ) : (t.sortList cmp).Agree idx :=
  have hperm : (listSort cmp t.ll).Perm t.ll := listSort_perm t.ll
  ⟨ha.wf, hperm.nodup_iff.mpr ha.nodup, ha.content.trans (hperm.map _).symm⟩

omit [DecidableEq α] in
theorem Agree.count (ha : t.Agree idx) : t.countHashTable = t.ll.length := by
  rw [countHashTable, ha.wf.count, ha.content.length_eq, List.length_map]

/-- A table whose objects carry a key and the hash of it: `keys a` is what a live object holds. -/
structure Keyed {κ : Type*} (t : Table α) (keys : α → Option (κ × ℕ)) (hash : κ → ℕ) : Prop where
  agree : t.Agree fun a => ((keys a).map Prod.snd).getD 0
  live : ∀ a ∈ t.ll, ∃ k, keys a = some (k, hash k)
  oneForKey : ∀ a ∈ t.ll, ∀ b ∈ t.ll, keys a = keys b → a = b

section Keyed

variable {κ : Type*} {keys keys' : α → Option (κ × ℕ)} {hash : κ → ℕ} {cmp : α → Bool} {k : κ}

omit [DecidableEq α] in
theorem Keyed.init : (initHashTable : Table α).Keyed keys hash :=
  ⟨.init, fun _ hm => absurd hm List.not_mem_nil, fun _ hm => absurd hm List.not_mem_nil⟩

omit [DecidableEq α] in
theorem Keyed.congr (hk : t.Keyed keys hash) (h : ∀ a ∈ t.ll, keys' a = keys a) :
    t.Keyed keys' hash := by
  refine ⟨hk.agree.congr fun a hm => by rw [h a hm], fun a hm => ?_, fun a ha b hb he => ?_⟩
  · rw [h a hm]
    exact hk.live a hm
  · rw [h a ha, h b hb] at he
    exact hk.oneForKey a ha b hb he

omit [DecidableEq α] in
/-- What a search by key finds, `cmp` being the comparison with `k`. -/
theorem Keyed.find_eq_some (hk : t.Keyed keys hash) (hcmp : ∀ a, cmp a = true → ∃ i, keys a = some (k, i))
    {a : α} (h : t.findHashTable cmp (hash k) = some a) : a ∈ t.ll ∧ keys a = some (k, hash k) := by
  obtain ⟨hm, -, hc⟩ := hk.agree.find_eq_some h
  obtain ⟨i, hi⟩ := hcmp a hc
  obtain ⟨k', hk'⟩ := hk.live a hm
  obtain ⟨rfl, rfl⟩ := Prod.mk.inj (Option.some.inj (hi.symm.trans hk'))
  exact ⟨hm, hk'⟩

omit [DecidableEq α] in
theorem Keyed.find_eq_none (hk : t.Keyed keys hash) (hcmp : ∀ a i, keys a = some (k, i) → cmp a = true)
    (h : t.findHashTable cmp (hash k) = none) : ∀ a ∈ t.ll, ∀ i, keys a ≠ some (k, i) := by
  intro a hm i hi
  obtain ⟨k', hk'⟩ := hk.live a hm
  obtain ⟨rfl, rfl⟩ := Prod.mk.inj (Option.some.inj (hi.symm.trans hk'))
  have := hk.agree.find_eq_none.mp h a hm (by simp [hi])
  exact Bool.false_ne_true (this.symm.trans (hcmp a _ hi))

omit [DecidableEq α] in
/-- A new object with a key that no stored object has. -/
theorem Keyed.add (hk : t.Keyed keys hash) {a : α} (hnew : a ∉ t.ll) (ha : keys' a = some (k, hash k))
    (hold : ∀ b ∈ t.ll, keys' b = keys b) (hfree : ∀ b ∈ t.ll, ∀ i, keys b ≠ some (k, i)) :
    (t.addHashTable a (hash k)).Keyed keys' hash := by
  have hk' := hk.congr hold
  have hmem : ∀ b ∈ (t.addHashTable a (hash k)).ll, b ∈ t.ll ∨ b = a := by
    intro b hb
    simpa [addHashTable] using hb
  refine ⟨?_, fun b hb => ?_, fun b hb c hc he => ?_⟩
  · have := hk'.agree.add hnew
    simpa only [ha, Option.map_some, Option.getD_some] using this
  · rcases hmem b hb with hb | rfl
    · exact hk'.live b hb
    · exact ⟨k, ha⟩
  · rcases hmem b hb with hb' | rfl <;> rcases hmem c hc with hc' | rfl
    · exact hk'.oneForKey b hb' c hc' he
    · rw [hold b hb', ha] at he
      exact absurd he (hfree b hb' _)
    · rw [hold c hc', ha] at he
      exact absurd he.symm (hfree c hc' _)
    · rfl

theorem Keyed.removeElem (hk : t.Keyed keys hash) {a : α} (hm : a ∈ t.ll) {i : ℕ}
    (hi : keys a = some (k, i)) :
    ∃ t', (t.removeElemList a).bind (·.removeElemHashTable ⟨a, i⟩) = some t' ∧
      t'.Keyed keys hash ∧ t'.ll = t.ll.erase a := by
  obtain ⟨t', hrem, hagree, hll⟩ := hk.agree.removeElem hm
  simp only [hi, Option.map_some, Option.getD_some] at hrem
  have hsub : ∀ b ∈ t'.ll, b ∈ t.ll := fun b hb => List.mem_of_mem_erase (hll ▸ hb)
  exact ⟨t', hrem, ⟨hagree, fun b hb => hk.live b (hsub b hb),
    fun b hb c hc he => hk.oneForKey b (hsub b hb) c (hsub c hc) he⟩, hll⟩

omit [DecidableEq α] in
theorem Keyed.sortList (hk : t.Keyed keys hash) (cmp : α → α → ℤ) :
    (t.sortList cmp).Keyed keys hash := by
  have hsub : ∀ b ∈ (t.sortList cmp).ll, b ∈ t.ll := fun b hb => (listSort_perm t.ll).mem_iff.mp hb
  exact ⟨hk.agree.sortList cmp, fun b hb => hk.live b (hsub b hb),
    fun b hb c hc he => hk.oneForKey b (hsub b hb) c (hsub c hc) he⟩

end Keyed

end Table

end NCam.Tommy
