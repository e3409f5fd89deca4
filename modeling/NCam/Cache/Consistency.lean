import NCam.Cache.Model
import NCam.Lib.Ownership

/-! Every run of the control word cache keeps its hash tables and lists equal, loses and leaks
nothing, and counts what it receives. -/
namespace NCam.Cache.EcmCache

open NCam.Lib NCam.Tommy

/-- The value of `count` after receipts with these local-generated flags, as long as it fits in its 32
bits: a first local-generated receipt after `k` others sets the weight bits. -/
def countOf (received : List Bool) : ℕ :=
  let k := received.idxOf true
  if k < received.length ∧ k < localgeneratedCount then
    received.length - k + (k ||| localgeneratedCount)
  else received.length

/-- The two structures of a table link the same objects, each once. -/
structure Same (t : Table ℕ) : Prop where
  mem_iff : ∀ x, x ∈ t.hashed ↔ x ∈ t.ll
  nodupList : t.ll.Nodup
  nodupTable : t.hashed.Nodup

/-- Tables and lists agree, keys are unique, an entry has at most 10 words, the allocated objects are
the linked ones, and `count` counts. -/
structure Consistent (s : EcmCache) : Prop where
  entriesSame : Same s.entries
  entriesLive : ∀ e, e ∈ s.entries.ll ↔ ∃ ecmhash, s.ecmHash e = some ecmhash
  oneForHash : ∀ e e' ecmhash ecmhash', s.ecmHash e = some ecmhash → s.ecmHash e' = some ecmhash' →
    ecmhash.cspHash = ecmhash'.cspHash → e = e'
  cwsSame : ∀ e ecmhash, s.ecmHash e = some ecmhash → Same ecmhash.cws
  cwsLimit : ∀ e ecmhash, s.ecmHash e = some ecmhash → ecmhash.cws.ll.length ≤ 10
  cwsLive : ∀ a, (∃ cw, s.cw a = some cw) ↔
    ∃ e ecmhash, s.ecmHash e = some ecmhash ∧ a ∈ ecmhash.cws.ll
  cwsOnce : ∀ e e' ecmhash ecmhash' a, s.ecmHash e = some ecmhash → s.ecmHash e' = some ecmhash' →
    a ∈ ecmhash.cws.ll → a ∈ ecmhash'.cws.ll → e = e'
  oneForCw : ∀ e ecmhash a b cw cw', s.ecmHash e = some ecmhash → a ∈ ecmhash.cws.ll →
    b ∈ ecmhash.cws.ll → s.cw a = some cw → s.cw b = some cw' → cw.cw = cw'.cw → a = b
  pushLive : ∀ p, (∃ cl, s.pushClient p = some cl) ↔
    ∃ a cw, s.cw a = some cw ∧ p ∈ cw.pushoutClient
  count : ∀ a cw, s.cw a = some cw → cw.received.length < 2 ^ 32 - localgeneratedCount →
    cw.count = countOf cw.received

/-- No fault has happened and the cache is consistent. -/
def Good : State → Prop
  | .ok s => s.Consistent
  | .error _ => False

section Count

private theorem localgeneratedCount_le_or (k : ℕ) : localgeneratedCount ≤ k ||| localgeneratedCount :=
  Nat.right_le_or

private theorem or_le_add (a b : ℕ) : a ||| b ≤ a + b := by
  induction a using Nat.strong_induction_on generalizing b with
  | _ a ih =>
    by_cases ha : a = 0
    · simp [ha]
    · have hhalf := ih (a / 2) (by omega) (b / 2)
      have hdiv : (a ||| b) / 2 = a / 2 ||| b / 2 := Nat.or_div_two
      have hmod : (a ||| b) % 2 = 1 ↔ a % 2 = 1 ∨ b % 2 = 1 := Nat.or_mod_two_eq_one
      omega

/-- What one more receipt makes of the count. -/
private theorem countOf_append (r : List Bool) (lg : Bool)
    (hr : r.length + 1 < 2 ^ 32 - localgeneratedCount) :
    countReceipt (countOf r) lg = countOf (r ++ [lg]) := by
  have hor := or_le_add (r.idxOf true) localgeneratedCount
  have hor' := localgeneratedCount_le_or (r.idxOf true)
  have hw : localgeneratedCount = 0x0F000000 := rfl
  by_cases hmem : true ∈ r
  · -- the weight is set or never will be
    have hk : r.idxOf true < r.length := List.idxOf_lt_length_of_mem hmem
    have hsame : (r ++ [lg]).idxOf true = r.idxOf true := List.idxOf_append_of_mem hmem
    simp only [countOf, countReceipt, hsame, List.length_append, List.length_singleton]
    split_ifs <;> omega
  · have hk : r.idxOf true = r.length := List.idxOf_eq_length hmem
    have happ : (r ++ [lg]).idxOf true = r.length + [lg].idxOf true :=
      List.idxOf_append_of_notMem hmem
    have hr' : countOf r = r.length := by
      simp only [countOf, hk, Nat.lt_irrefl, false_and, if_false]
    rw [hr', countOf, happ, List.length_append, List.length_singleton]
    cases lg with
    | true =>
      have hz : [true].idxOf true = 0 := rfl
      rw [hk] at hor
      simp only [countReceipt, hz, Nat.add_zero, true_and, Nat.lt_succ_self]
      split_ifs <;> omega
    | false =>
      have hz : [false].idxOf true = 1 := rfl
      simp only [countReceipt, hz, Bool.false_eq_true, false_and, if_false, Nat.lt_irrefl]
      omega

/-- The counter after its receipts, from the first one on. -/
theorem foldl_countReceipt (r : List Bool) (hr : r.length < 2 ^ 32 - localgeneratedCount) :
    r.foldl countReceipt 0 = countOf r := by
  induction r using List.reverseRecOn with
  | nil => rfl
  | append_singleton r lg ih =>
    rw [List.length_append, List.length_singleton] at hr
    rw [List.foldl_append, List.foldl_cons, List.foldl_nil, ih (by omega), countOf_append r lg hr]

end Count

def entryKeys (s : EcmCache) (e : ℕ) : Option (ℕ × ℕ) :=
  (s.ecmHash e).map fun ecmhash => (ecmhash.cspHash, ecmhash.htNodeIndex)

def cwKeys (s : EcmCache) (a : ℕ) : Option (CwBytes × ℕ) :=
  (s.cw a).map fun cw => (cw.cw, cw.htNodeIndex)

def cwKids (s : EcmCache) (e : ℕ) : Option (List ℕ) :=
  (s.ecmHash e).map fun ecmhash => ecmhash.cws.ll

def pushKids (s : EcmCache) (a : ℕ) : Option (List ℕ) :=
  (s.cw a).map Cw.pushoutClient

variable (hashCsp : ℕ → ℕ) (hashCw : CwBytes → ℕ)

structure Inv (s : EcmCache) : Prop where
  entries : s.entries.Keyed s.entryKeys hashCsp
  linked : ∀ e, s.ecmHash e ≠ none → e ∈ s.entries.ll
  words : ∀ e ecmhash, s.ecmHash e = some ecmhash → ecmhash.cws.Keyed s.cwKeys hashCw
  limit : ∀ e ecmhash, s.ecmHash e = some ecmhash → ecmhash.cws.ll.length ≤ 10
  cwOwned : Owns s.cwKids fun a => s.cw a ≠ none
  pushOwned : Owns s.pushKids fun p => s.pushClient p ≠ none
  fresh : ∀ x, s.nextAddr ≤ x → s.ecmHash x = none ∧ s.cw x = none ∧ s.pushClient x = none
  counted : ∀ a cw, s.cw a = some cw → cw.count = cw.received.foldl countReceipt 0

variable {hashCsp hashCw} {s : EcmCache}

private theorem Keyed.same {κ : Type*} {t : Table ℕ} {keys : ℕ → Option (κ × ℕ)} {hash : κ → ℕ}
    (hk : t.Keyed keys hash) : Same t :=
  ⟨fun _ => hk.agree.hashed_perm.mem_iff, hk.agree.nodup,
    hk.agree.hashed_perm.nodup_iff.mpr hk.agree.nodup⟩

theorem Inv.mem_entries (h : s.Inv hashCsp hashCw) (e : ℕ) :
    e ∈ s.entries.ll ↔ ∃ ecmhash, s.ecmHash e = some ecmhash := by
  constructor
  · intro hm
    obtain ⟨k, hk⟩ := h.entries.live e hm
    obtain ⟨ecmhash, he, -⟩ := Option.map_eq_some_iff.mp hk
    exact ⟨ecmhash, he⟩
  · rintro ⟨ecmhash, he⟩
    exact h.linked e (by simp [he])

theorem Inv.cw_of_mem (h : s.Inv hashCsp hashCw) {e : ℕ} {ecmhash : EcmHash}
    (he : s.ecmHash e = some ecmhash) {a : ℕ} (ha : a ∈ ecmhash.cws.ll) :
    ∃ cw, s.cw a = some cw ∧ cw.htNodeIndex = hashCw cw.cw := by
  obtain ⟨k, hk⟩ := (h.words e ecmhash he).live a ha
  obtain ⟨cw, hcw, hkey⟩ := Option.map_eq_some_iff.mp hk
  obtain ⟨rfl, hi⟩ := Prod.mk.inj hkey
  exact ⟨cw, hcw, hi⟩

theorem Inv.consistent (h : s.Inv hashCsp hashCw) : s.Consistent where
  entriesSame := Keyed.same h.entries
  entriesLive := h.mem_entries
  oneForHash e e' ecmhash ecmhash' he he' hc := by
    have hm := (h.mem_entries e).mpr ⟨_, he⟩
    have hm' := (h.mem_entries e').mpr ⟨_, he'⟩
    obtain ⟨k, hk⟩ := h.entries.live e hm
    obtain ⟨k', hk'⟩ := h.entries.live e' hm'
    refine h.entries.oneForKey e hm e' hm' ?_
    simp only [entryKeys, he, he', Option.map_some, Option.some.injEq, Prod.mk.injEq] at hk hk' ⊢
    exact ⟨hc, by rw [hk.2, hk'.2, ← hk.1, ← hk'.1, hc]⟩
  cwsSame e ecmhash he := Keyed.same (h.words e ecmhash he)
  cwsLimit := h.limit
  cwsLive a := by
    rw [← Option.ne_none_iff_exists', h.cwOwned.alive_iff]
    simp only [cwKids, Option.map_eq_some_iff]
    constructor
    · rintro ⟨e, l, ⟨ecmhash, he, rfl⟩, ha⟩
      exact ⟨e, ecmhash, he, ha⟩
    · rintro ⟨e, ecmhash, he, ha⟩
      exact ⟨e, _, ⟨ecmhash, he, rfl⟩, ha⟩
  cwsOnce e e' ecmhash ecmhash' a he he' ha ha' :=
    h.cwOwned.disjoint e e' ecmhash.cws.ll ecmhash'.cws.ll a (by simp [cwKids, he])
      (by simp [cwKids, he']) ha ha'
  oneForCw e ecmhash a b cw cw' he ha hb hcw hcw' hc := by
    have hk := h.words e ecmhash he
    obtain ⟨_, hcw₂, hi⟩ := h.cw_of_mem he ha
    obtain ⟨_, hcw₂', hi'⟩ := h.cw_of_mem he hb
    obtain rfl := Option.some.inj (hcw.symm.trans hcw₂)
    obtain rfl := Option.some.inj (hcw'.symm.trans hcw₂')
    refine hk.oneForKey a ha b hb ?_
    simp only [cwKeys, hcw, hcw', Option.map_some, hi, hi', hc]
  pushLive p := by
    rw [← Option.ne_none_iff_exists', h.pushOwned.alive_iff]
    simp only [pushKids, Option.map_eq_some_iff]
    constructor
    · rintro ⟨a, l, ⟨cw, hcw, rfl⟩, hp⟩
      exact ⟨a, cw, hcw, hp⟩
    · rintro ⟨a, cw, hcw, hp⟩
      exact ⟨a, _, ⟨cw, hcw, rfl⟩, hp⟩
  count a cw hcw hlen := (h.counted a cw hcw).trans (foldl_countReceipt _ hlen)

theorem inv_init : initCache.Inv hashCsp hashCw where
  entries := .init
  linked _ h := absurd rfl h
  words _ _ h := by cases h
  limit _ _ h := by cases h
  cwOwned := ⟨fun _ _ h => (by cases h), fun _ _ _ _ _ h => (by cases h),
    fun _ => ⟨fun h => absurd rfl h, fun ⟨_, _, h, _⟩ => by cases h⟩⟩
  pushOwned := ⟨fun _ _ h => (by cases h), fun _ _ _ _ _ h => (by cases h),
    fun _ => ⟨fun h => absurd rfl h, fun ⟨_, _, h, _⟩ => by cases h⟩⟩
  fresh _ _ := ⟨rfl, rfl, rfl⟩
  counted _ _ h := by cases h

/-- The size of the local-generated part plays no role. -/
private theorem Inv.lgCacheSize (h : s.Inv hashCsp hashCw) (n : ℕ) :
    ({ s with lgCacheSize := n } : EcmCache).Inv hashCsp hashCw :=
  ⟨h.entries, h.linked, h.words, h.limit, h.cwOwned, h.pushOwned, h.fresh, h.counted⟩

private theorem map_update {α β : Type*} (f : ℕ → Option α) (g : α → β) (x : ℕ) (o : Option α) :
    (fun y => (Function.update f x o y).map g) =
      Function.update (fun y => (f y).map g) x (o.map g) := by
  funext y
  by_cases hy : y = x
  · subst hy
    simp
  · simp [hy]

private theorem map_update_self {α β : Type*} {f : ℕ → Option α} (g : α → β) {x : ℕ} {a b : α}
    (ha : f x = some a) (hg : g b = g a) :
    (fun y => (Function.update f x (some b) y).map g) = fun y => (f y).map g := by
  rw [map_update]
  refine Function.update_eq_self_iff.mpr ?_
  simp [ha, hg]

private theorem update_ne_none {α : Type*} {f : ℕ → Option α} {x : ℕ} {a b : α} (ha : f x = some a)
    (y : ℕ) : Function.update f x (some b) y ≠ none ↔ f y ≠ none := by
  by_cases hy : y = x
  · subst hy
    simp [ha]
  · simp [hy]

theorem ne_of_none {α : Type*} {f : ℕ → Option α} {x y : ℕ} {a : α} (hx : f x = none)
    (hy : f y = some a) : x ≠ y := by
  rintro rfl
  rw [hx] at hy
  cases hy

/-- An entry changes other than in its key, and its words at most in their order. -/
theorem Inv.setEcmHash (h : s.Inv hashCsp hashCw) {e : ℕ} {old new : EcmHash}
    (he : s.ecmHash e = some old)
    (hkey : (new.cspHash, new.htNodeIndex) = (old.cspHash, old.htNodeIndex))
    (hcws : new.cws.Keyed s.cwKeys hashCw) (hll : new.cws.ll.Perm old.cws.ll) :
    (s.setEcmHash e new).Inv hashCsp hashCw := by
  have hkeys : (s.setEcmHash e new).entryKeys = s.entryKeys :=
    map_update_self (fun ecmhash : EcmHash => (ecmhash.cspHash, ecmhash.htNodeIndex)) he hkey
  have hkids : (s.setEcmHash e new).cwKids = Function.update s.cwKids e (some new.cws.ll) :=
    map_update s.ecmHash (fun ecmhash => ecmhash.cws.ll) e (some new)
  have hcases : ∀ e' ecmhash, (s.setEcmHash e new).ecmHash e' = some ecmhash →
      ecmhash = new ∨ s.ecmHash e' = some ecmhash := by
    intro e' ecmhash h'
    by_cases hee : e' = e
    · subst hee
      left
      simpa [EcmCache.setEcmHash] using h'.symm
    · right
      simpa [EcmCache.setEcmHash, hee] using h'
  refine ⟨hkeys ▸ h.entries, fun e' h' => h.linked e' ((update_ne_none he e').mp h'),
    fun e' ecmhash h' => ?_, fun e' ecmhash h' => ?_, ?_, h.pushOwned, fun x hx => ?_, h.counted⟩
  · rcases hcases e' ecmhash h' with rfl | h''
    · exact hcws
    · exact h.words e' ecmhash h''
  · rcases hcases e' ecmhash h' with rfl | h''
    · rw [hll.length_eq]
      exact h.limit e old he
    · exact h.limit e' ecmhash h''
  · rw [hkids]
    exact h.cwOwned.reorder (by simp [cwKids, he]) hll
  · obtain ⟨hx', hrest⟩ := h.fresh x hx
    exact ⟨(Function.update_of_ne (ne_of_none hx' he) _ _).trans hx', hrest⟩

/-- A word changes other than in its key and its clients. -/
private theorem Inv.setCw (h : s.Inv hashCsp hashCw) {a : ℕ} {old new : Cw} (ha : s.cw a = some old)
    (hkey : (new.cw, new.htNodeIndex) = (old.cw, old.htNodeIndex))
    (hpush : new.pushoutClient = old.pushoutClient)
    (hcount : new.count = new.received.foldl countReceipt 0) :
    (s.setCw a new).Inv hashCsp hashCw := by
  have hkeys : (s.setCw a new).cwKeys = s.cwKeys :=
    map_update_self (fun cw : Cw => (cw.cw, cw.htNodeIndex)) ha hkey
  have hkids : (s.setCw a new).pushKids = s.pushKids := map_update_self Cw.pushoutClient ha hpush
  refine ⟨h.entries, h.linked, fun e ecmhash he => hkeys ▸ h.words e ecmhash he, h.limit,
    h.cwOwned.congr rfl fun b => update_ne_none ha b, hkids ▸ h.pushOwned, fun x hx => ?_,
    fun b cw hb => ?_⟩
  · obtain ⟨he, hx', hp⟩ := h.fresh x hx
    exact ⟨he, (Function.update_of_ne (ne_of_none hx' ha) _ _).trans hx', hp⟩
  · by_cases hba : b = a
    · subst hba
      obtain rfl : new = cw := by simpa [EcmCache.setCw] using hb
      exact hcount
    · exact h.counted b cw (by simpa [EcmCache.setCw, hba] using hb)

theorem compareCspHash_iff (k e : ℕ) :
    s.compareCspHash k e = true ↔ ∃ i, s.entryKeys e = some (k, i) := by
  cases h : s.ecmHash e with
  | none => simp [compareCspHash, entryKeys, h]
  | some ecmhash => simp [compareCspHash, entryKeys, h]

theorem compareCw_iff (k : CwBytes) (a : ℕ) :
    s.compareCw k a = true ↔ ∃ i, s.cwKeys a = some (k, i) := by
  cases h : s.cw a with
  | none => simp [compareCw, cwKeys, h]
  | some cw => simp [compareCw, cwKeys, h]

theorem Inv.createEcmHash (h : s.Inv hashCsp hashCw) (er : EcmRequest) (now : ℤ)
    (hfree : ∀ e ∈ s.entries.ll, ∀ i, s.entryKeys e ≠ some (er.cspHash, i)) :
    (s.createEcmHash hashCsp er now).Inv hashCsp hashCw := by
  obtain ⟨hnone, -, -⟩ := h.fresh s.nextAddr le_rfl
  have hnew : s.nextAddr ∉ s.entries.ll := by
    intro hm
    obtain ⟨ecmhash, he⟩ := (h.mem_entries _).mp hm
    exact ne_of_none hnone he rfl
  have hcases : ∀ e ecmhash, (s.createEcmHash hashCsp er now).ecmHash e = some ecmhash →
      e = s.nextAddr ∧ ecmhash.cws = .initHashTable ∨ s.ecmHash e = some ecmhash := by
    intro e ecmhash he
    by_cases hee : e = s.nextAddr
    · subst hee
      left
      simp only [EcmCache.createEcmHash, Function.update_self, Option.some.injEq] at he
      exact ⟨rfl, by rw [← he]⟩
    · right
      simpa [EcmCache.createEcmHash, hee] using he
  have hkids : (s.createEcmHash hashCsp er now).cwKids =
      Function.update s.cwKids s.nextAddr (some []) :=
    map_update s.ecmHash (fun ecmhash => ecmhash.cws.ll) s.nextAddr (some _)
  refine ⟨h.entries.add hnew ?_ (fun e he => ?_) hfree, fun e he => ?_, fun e ecmhash he => ?_,
    fun e ecmhash he => ?_, ?_, h.pushOwned, fun x hx => ?_, h.counted⟩
  · simp [entryKeys, EcmCache.createEcmHash]
  · have hne : e ≠ s.nextAddr := fun hee => hnew (hee ▸ he)
    simp [entryKeys, EcmCache.createEcmHash, hne]
  · obtain ⟨ecmhash, he⟩ := Option.ne_none_iff_exists'.mp he
    change e ∈ s.entries.ll ++ [s.nextAddr]
    rcases hcases e ecmhash he with ⟨rfl, -⟩ | he
    · simp
    · exact List.mem_append_left _ ((h.mem_entries e).mpr ⟨ecmhash, he⟩)
  · rcases hcases e ecmhash he with ⟨-, hc⟩ | he
    · rw [hc]
      exact .init
    · exact h.words e ecmhash he
  · rcases hcases e ecmhash he with ⟨-, hc⟩ | he
    · simp [hc, Table.initHashTable]
    · exact h.limit e ecmhash he
  · rw [hkids]
    exact h.cwOwned.newParent (by simp [cwKids, hnone])
  · have hlt : s.nextAddr + 1 ≤ x := hx
    obtain ⟨hx', hrest⟩ := h.fresh x (by omega)
    exact ⟨(Function.update_of_ne (by omega) _ _).trans hx', hrest⟩

theorem Inv.createCw (h : s.Inv hashCsp hashCw) {e : ℕ} {ecmhash : EcmHash}
    (he : s.ecmHash e = some ecmhash) (er : EcmRequest)
    (hfree : ∀ a ∈ ecmhash.cws.ll, ∀ i, s.cwKeys a ≠ some (er.cw, i))
    (hlimit : ecmhash.cws.ll.length < 10) :
    (s.createCw hashCw e ecmhash er).Inv hashCsp hashCw := by
  obtain ⟨hnone, hnoneCw, hnonePush⟩ := h.fresh s.nextAddr le_rfl
  set new : EcmHash := { ecmhash with cws := ecmhash.cws.addHashTable s.nextAddr (hashCw er.cw) }
  have hll : new.cws.ll = ecmhash.cws.ll ++ [s.nextAddr] := rfl
  have hnew : ∀ e' ecmhash', s.ecmHash e' = some ecmhash' → s.nextAddr ∉ ecmhash'.cws.ll := by
    intro e' ecmhash' he' hm
    obtain ⟨cw, hcw, -⟩ := h.cw_of_mem he' hm
    exact ne_of_none hnoneCw hcw rfl
  have hcases : ∀ e' ecmhash', (s.createCw hashCw e ecmhash er).ecmHash e' = some ecmhash' →
      ecmhash' = new ∨ s.ecmHash e' = some ecmhash' := by
    intro e' ecmhash' h'
    by_cases hee : e' = e
    · subst hee
      left
      exact (Option.some.inj ((Function.update_self e' _ s.ecmHash).symm.trans h')).symm
    · right
      exact (Function.update_of_ne hee _ s.ecmHash).symm.trans h'
  have hold : ∀ a, a ≠ s.nextAddr →
      (s.createCw hashCw e ecmhash er).cwKeys a = s.cwKeys a := by
    intro a hne
    simp [cwKeys, EcmCache.createCw, hne]
  have hkeys : (s.createCw hashCw e ecmhash er).entryKeys = s.entryKeys :=
    map_update_self (fun ecmhash : EcmHash => (ecmhash.cspHash, ecmhash.htNodeIndex)) he rfl
  have hkids : (s.createCw hashCw e ecmhash er).cwKids = Function.update s.cwKids e (some new.cws.ll) :=
    map_update s.ecmHash (fun ecmhash => ecmhash.cws.ll) e (some new)
  have hpush : (s.createCw hashCw e ecmhash er).pushKids =
      Function.update s.pushKids s.nextAddr (some []) :=
    map_update s.cw Cw.pushoutClient s.nextAddr (some _)
  refine ⟨hkeys ▸ h.entries, fun e' h' => h.linked e' ((update_ne_none he e').mp h'),
    fun e' ecmhash' h' => ?_, fun e' ecmhash' h' => ?_, ?_, ?_, fun x hx => ?_, fun a cw ha => ?_⟩
  · rcases hcases e' ecmhash' h' with rfl | h''
    · refine (h.words e ecmhash he).add (hnew e ecmhash he) ?_ (fun a ha => ?_) hfree
      · simp [cwKeys, EcmCache.createCw, newCw]
      · exact hold a fun hee => hnew e ecmhash he (hee ▸ ha)
    · exact (h.words e' ecmhash' h'').congr fun a ha =>
        hold a fun hee => hnew e' ecmhash' h'' (hee ▸ ha)
  · rcases hcases e' ecmhash' h' with rfl | h''
    · rw [hll, List.length_append, List.length_singleton]
      exact hlimit
    · exact h.limit e' ecmhash' h''
  · rw [hkids]
    have hperm : new.cws.ll.Perm (s.nextAddr :: ecmhash.cws.ll) :=
      hll ▸ List.perm_append_singleton _ _
    refine (h.cwOwned.newChild (by simp [cwKids, he]) (by simp [hnoneCw]) hperm).congr rfl
      fun a => ?_
    by_cases ha : a = s.nextAddr
    · subst ha
      simp [EcmCache.createCw]
    · simp [EcmCache.createCw, ha]
  · rw [hpush]
    exact h.pushOwned.newParent (by simp [pushKids, hnoneCw])
  · have hlt : s.nextAddr + 1 ≤ x := hx
    obtain ⟨hx₁, hx₂, hx₃⟩ := h.fresh x (by omega)
    exact ⟨(Function.update_of_ne (ne_of_none hx₁ he) _ _).trans hx₁,
      (Function.update_of_ne (by omega) _ _).trans hx₂, hx₃⟩
  · by_cases hn : a = s.nextAddr
    · subst hn
      obtain rfl : newCw er (hashCw er.cw) = cw := by simpa [EcmCache.createCw] using ha
      rfl
    · exact h.counted a cw (by simpa [EcmCache.createCw, hn] using ha)

theorem Inv.ecmHashFor (h : s.Inv hashCsp hashCw) {er : EcmRequest} {env : Env} {t : EcmCache} {e : ℕ}
    (ht : s.ecmHashFor hashCsp er env = some (t, e)) :
    t.Inv hashCsp hashCw ∧ ∃ ecmhash, t.ecmHash e = some ecmhash := by
  unfold EcmCache.ecmHashFor at ht
  split at ht
  · rename_i e' hf
    obtain ⟨rfl, rfl⟩ := Prod.mk.inj (Option.some.inj ht)
    obtain ⟨hm, -⟩ := h.entries.find_eq_some (fun a => (compareCspHash_iff _ a).mp) hf
    exact ⟨h, (h.mem_entries _).mp hm⟩
  · rename_i hf
    split_ifs at ht
    obtain ⟨rfl, rfl⟩ := Prod.mk.inj (Option.some.inj ht)
    have hfree := h.entries.find_eq_none (fun a i hi => (compareCspHash_iff _ a).mpr ⟨i, hi⟩) hf
    exact ⟨h.createEcmHash er env.now hfree, _, Function.update_self _ _ _⟩

theorem Inv.cwFor (h : s.Inv hashCsp hashCw) {e : ℕ} {ecmhash : EcmHash}
    (he : s.ecmHash e = some ecmhash) {er : EcmRequest} {t : EcmCache} {a : ℕ} {new : Bool}
    (ht : s.cwFor hashCw e ecmhash er = some (t, a, new)) :
    t.Inv hashCsp hashCw ∧ ∃ ecmhash' cw, t.ecmHash e = some ecmhash' ∧ a ∈ ecmhash'.cws.ll ∧
      t.cw a = some cw ∧ cw.cw = er.cw := by
  unfold EcmCache.cwFor at ht
  split at ht
  · rename_i a' hf
    obtain ⟨rfl, hrest⟩ := Prod.mk.inj (Option.some.inj ht)
    obtain ⟨rfl, -⟩ := Prod.mk.inj hrest
    obtain ⟨hm, hk⟩ := (h.words e ecmhash he).find_eq_some (fun a => (compareCw_iff _ a).mp) hf
    obtain ⟨cw, hcw, hkey⟩ := Option.map_eq_some_iff.mp hk
    exact ⟨h, ecmhash, cw, he, hm, hcw, (Prod.mk.inj hkey).1⟩
  · rename_i hf
    split_ifs at ht with hlimit
    obtain ⟨rfl, hrest⟩ := Prod.mk.inj (Option.some.inj ht)
    obtain ⟨rfl, -⟩ := Prod.mk.inj hrest
    have hfree := (h.words e ecmhash he).find_eq_none
      (fun a i hi => (compareCw_iff _ a).mpr ⟨i, hi⟩) hf
    rw [(h.words e ecmhash he).agree.count] at hlimit
    refine ⟨h.createCw he er hfree (by omega), _, _, Function.update_self _ _ _, ?_,
      Function.update_self _ _ _, rfl⟩
    simp [Table.addHashTable]

theorem sortCws_eq {e : ℕ} {ecmhash : EcmHash} (he : s.ecmHash e = some ecmhash) :
    s.sortCws e = s.setEcmHash e { ecmhash with
      cws := ecmhash.cws.sortList fun a b => countSort (s.count a) (s.count b) } := by
  simp only [sortCws, EcmCache.setEcmHash, he, Option.map_some]

private theorem Inv.sortCws (h : s.Inv hashCsp hashCw) {e : ℕ} {ecmhash : EcmHash}
    (he : s.ecmHash e = some ecmhash) : (s.sortCws e).Inv hashCsp hashCw := by
  rw [sortCws_eq he]
  exact h.setEcmHash he rfl ((h.words e ecmhash he).sortList _) (listSort_perm _)

private theorem Inv.receiveCw (h : s.Inv hashCsp hashCw) {e a : ℕ} {ecmhash : EcmHash} {cw : Cw}
    (he : s.ecmHash e = some ecmhash) (ha : s.cw a = some cw) (er : EcmRequest) (env : Env) :
    (s.receiveCw e a cw er env).Inv hashCsp hashCw := by
  have hset : (s.setCw a (receive cw er env)).Inv hashCsp hashCw := by
    refine h.setCw ha rfl rfl ?_
    change countReceipt cw.count _ = (cw.received ++ [_]).foldl countReceipt 0
    rw [List.foldl_append, h.counted a cw ha]
    rfl
  unfold EcmCache.receiveCw
  dsimp only
  split_ifs
  · exact @Inv.sortCws _ _ _ (hset.lgCacheSize _) e ecmhash he
  · exact @Inv.sortCws _ _ _ (hset.lgCacheSize _) e ecmhash he
  · exact hset.lgCacheSize _
  · exact hset.lgCacheSize _

theorem Inv.storeCw (h : s.Inv hashCsp hashCw) {e : ℕ} {ecmhash : EcmHash}
    (he : s.ecmHash e = some ecmhash) (er : EcmRequest) (env : Env) :
    ∃ r, s.storeCw hashCw e ecmhash er env = .ok r ∧ r.cache.Inv hashCsp hashCw := by
  unfold EcmCache.storeCw
  split
  · exact ⟨_, rfl, h⟩
  · rename_i t a new ht
    obtain ⟨hinv, ecmhash', cw, he', -, hcw, -⟩ := h.cwFor he ht
    simp only [hcw]
    exact ⟨_, rfl, hinv.receiveCw he' hcw er env⟩

/-- `add_cache` touches live objects only and keeps the invariant, whatever its allocations and the
functions it calls return. -/
theorem Inv.addCache (h : s.Inv hashCsp hashCw) (er : EcmRequest) (env : Env) :
    ∃ r, s.addCache hashCsp hashCw er env = .ok r ∧ r.cache.Inv hashCsp hashCw := by
  unfold EcmCache.addCache
  split_ifs
  · exact ⟨_, rfl, h⟩
  split
  · exact ⟨_, rfl, h⟩
  · rename_i t e ht
    obtain ⟨hinv, ecmhash, he⟩ := h.ecmHashFor ht
    simp only [he]
    refine Inv.storeCw ?_ (Function.update_self _ _ _) er env
    exact hinv.setEcmHash he rfl (hinv.words e ecmhash he) (.refl _)

private theorem freePushout_eq {pushClient : ℕ → Option ℕ} {l : List ℕ} (hl : l.Nodup)
    (hlive : ∀ p ∈ l, pushClient p ≠ none) :
    freePushout pushClient l = .ok fun p => if p ∈ l then none else pushClient p := by
  induction l generalizing pushClient with
  | nil => simp [freePushout]
  | cons p rest ih =>
    obtain ⟨hnot, hrest⟩ := List.nodup_cons.mp hl
    have hp : (pushClient p).isNone = false :=
      Option.isNone_eq_false_iff.mpr (Option.isSome_iff_ne_none.mpr (hlive p (by simp)))
    have hlive' : ∀ q ∈ rest, Function.update pushClient p none q ≠ none := by
      intro q hq
      have hne : q ≠ p := fun he => hnot (he ▸ hq)
      rw [Function.update_of_ne hne]
      exact hlive q (List.mem_cons_of_mem _ hq)
    rw [freePushout, hp, if_neg Bool.false_ne_true, ih hrest hlive']
    congr 1
    funext q
    by_cases hq : q = p
    · subst hq
      simp
    · simp [hq]

/-- Freeing a word frees its clients and leaves the rest of its entry as it was. -/
private theorem Inv.dropCw (h : s.Inv hashCsp hashCw) {e a : ℕ} {ecmhash : EcmHash}
    (he : s.ecmHash e = some ecmhash) (ha : a ∈ ecmhash.cws.ll) :
    ∃ t cws, s.dropCw e a = .ok t ∧ t.Inv hashCsp hashCw ∧
      t.ecmHash = Function.update s.ecmHash e (some { ecmhash with cws := cws }) ∧
      cws.ll = ecmhash.cws.ll.erase a ∧ t.entries = s.entries ∧ (∀ b, b ≠ a → t.cw b = s.cw b) := by
  obtain ⟨cw, hcw, -⟩ := h.cw_of_mem he ha
  have hkids : s.pushKids a = some cw.pushoutClient := by simp [pushKids, hcw]
  have hfree := freePushout_eq (h.pushOwned.nodup a _ hkids) fun p hp =>
    h.pushOwned.alive_of_mem hkids hp
  have hkey : s.cwKeys a = some (cw.cw, cw.htNodeIndex) := by simp [cwKeys, hcw]
  obtain ⟨cws, hrem, hkeyed, hll⟩ := (h.words e ecmhash he).removeElem ha hkey
  have hnodup := (h.words e ecmhash he).agree.nodup
  set new : EcmHash := { ecmhash with cws := cws }
  set t : EcmCache := { s with
    pushClient := fun p => if p ∈ cw.pushoutClient then none else s.pushClient p
    lgCacheSize := if cw.count ≥ localgeneratedCount then (s.lgCacheSize + (2 ^ 32 - 1)) % 2 ^ 32
      else s.lgCacheSize
    ecmHash := Function.update s.ecmHash e (some new)
    cw := Function.update s.cw a none } with ht
  refine ⟨t, cws, by simp only [EcmCache.dropCw, he, hcw, hfree, hrem, Except.bind, ht, new], ?_, rfl,
    hll, rfl, fun b hb => Function.update_of_ne hb _ _⟩
  have hcases : ∀ e' ecmhash', t.ecmHash e' = some ecmhash' →
      e' = e ∧ ecmhash' = new ∨ e' ≠ e ∧ s.ecmHash e' = some ecmhash' := by
    intro e' ecmhash' h'
    by_cases hee : e' = e
    · subst hee
      exact .inl ⟨rfl, (Option.some.inj ((Function.update_self e' _ s.ecmHash).symm.trans h')).symm⟩
    · exact .inr ⟨hee, (Function.update_of_ne hee _ s.ecmHash).symm.trans h'⟩
  have hold : ∀ b, b ≠ a → t.cwKeys b = s.cwKeys b := by
    intro b hb
    simp [cwKeys, ht, hb]
  have hkeys : t.entryKeys = s.entryKeys :=
    map_update_self (fun ecmhash : EcmHash => (ecmhash.cspHash, ecmhash.htNodeIndex)) he rfl
  have hcwKids : t.cwKids = Function.update s.cwKids e (some (ecmhash.cws.ll.erase a)) :=
    (map_update s.ecmHash (fun ecmhash => ecmhash.cws.ll) e (some new)).trans (by
      rw [Option.map_some, hll]
      rfl)
  have hpushKids : t.pushKids = Function.update s.pushKids a none :=
    map_update s.cw Cw.pushoutClient a none
  refine ⟨hkeys ▸ h.entries, fun e' h' => h.linked e' ((update_ne_none he e').mp h'),
    fun e' ecmhash' h' => ?_, fun e' ecmhash' h' => ?_, ?_, ?_, fun x hx => ?_, fun b c hb => ?_⟩
  · rcases hcases e' ecmhash' h' with ⟨rfl, rfl⟩ | ⟨hee, h''⟩
    · refine hkeyed.congr fun b hb => hold b ?_
      rw [hll] at hb
      exact (hnodup.mem_erase_iff.mp hb).1
    · refine (h.words e' ecmhash' h'').congr fun b hb => hold b ?_
      rintro rfl
      exact hee (h.cwOwned.disjoint e' e _ _ b (by simp [cwKids, h'']) (by simp [cwKids, he]) hb ha)
  · rcases hcases e' ecmhash' h' with ⟨rfl, rfl⟩ | ⟨-, h''⟩
    · have := h.limit e' ecmhash he
      have hlen : cws.ll.length ≤ ecmhash.cws.ll.length := hll ▸ List.length_erase_le
      exact hlen.trans this
    · exact h.limit e' ecmhash' h''
  · rw [hcwKids]
    refine (h.cwOwned.eraseChild (by simp [cwKids, he]) ha).congr rfl fun b => ?_
    by_cases hb : b = a
    · subst hb
      simp [ht]
    · simp [ht, hb]
  · rw [hpushKids]
    refine (h.pushOwned.removeParent hkids).congr rfl fun p => ?_
    by_cases hp : p ∈ cw.pushoutClient
    · simp [ht, hp]
    · simp [ht, hp]
  · obtain ⟨hx₁, hx₂, hx₃⟩ := h.fresh x hx
    refine ⟨(Function.update_of_ne (ne_of_none hx₁ he) _ _).trans hx₁,
      (Function.update_of_ne (ne_of_none hx₂ hcw) _ _).trans hx₂, ?_⟩
    simp [ht, hx₃]
  · have hba : b ≠ a := by
      rintro rfl
      simp [ht] at hb
    exact h.counted b c (by simpa [ht, hba] using hb)

private theorem Inv.dropCws {e : ℕ} {l : List ℕ} {ecmhash : EcmHash} (h : s.Inv hashCsp hashCw)
    (he : s.ecmHash e = some ecmhash) (hl : ecmhash.cws.ll = l) :
    ∃ t cws, EcmCache.dropCws e l s = .ok t ∧ t.Inv hashCsp hashCw ∧
      t.ecmHash = Function.update s.ecmHash e (some { ecmhash with cws := cws }) ∧ cws.ll = [] ∧
      t.entries = s.entries ∧ (∀ b, b ∉ l → t.cw b = s.cw b) := by
  induction l generalizing s ecmhash with
  | nil =>
    refine ⟨s, ecmhash.cws, rfl, h, ?_, hl, rfl, fun _ _ => rfl⟩
    exact (Function.update_eq_self_iff.mpr he.symm).symm
  | cons a rest ih =>
    obtain ⟨t, cws, ht, hinv, hecm, hll, hent, hcw⟩ := h.dropCw he (a := a) (by simp [hl])
    have hrest : cws.ll = rest := by rw [hll, hl, List.erase_cons_head]
    have he' : t.ecmHash e = some { ecmhash with cws := cws } := by
      rw [hecm, Function.update_self]
    obtain ⟨u, cws', hu, hinv', hecm', hll', hent', hcw'⟩ := ih hinv he' hrest
    refine ⟨u, cws', ?_, hinv', ?_, hll', hent'.trans hent, fun b hb => ?_⟩
    · rw [EcmCache.dropCws, ht]
      exact hu
    · rw [hecm', hecm, Function.update_idem]
    · rw [List.mem_cons, not_or] at hb
      rw [hcw' b hb.2, hcw b hb.1]

/-- The entries of `t` are entries of `s` with the same words. -/
def Kept (s t : EcmCache) : Prop :=
  ∀ e ecmhash, t.ecmHash e = some ecmhash →
    s.ecmHash e = some ecmhash ∧ ∀ a ∈ ecmhash.cws.ll, t.cw a = s.cw a

theorem Kept.trans {t u : EcmCache} (hst : s.Kept t) (htu : t.Kept u) : s.Kept u := by
  intro e ecmhash he
  obtain ⟨he', hcw⟩ := htu e ecmhash he
  obtain ⟨he'', hcw'⟩ := hst e ecmhash he'
  exact ⟨he'', fun a ha => (hcw a ha).trans (hcw' a ha)⟩

/-- An entry goes with its words and their clients. -/
private theorem Inv.dropEcmHash (h : s.Inv hashCsp hashCw) {e : ℕ} {ecmhash : EcmHash}
    (he : s.ecmHash e = some ecmhash) :
    ∃ t, s.dropEcmHash e ecmhash = .ok t ∧ t.Inv hashCsp hashCw ∧
      t.entries.ll = s.entries.ll.erase e ∧ s.Kept t := by
  obtain ⟨t, cws, ht, hinv, hecm, hll, hent, hcw⟩ := h.dropCws he rfl
  have he' : t.ecmHash e = some { ecmhash with cws := cws } := by
    rw [hecm, Function.update_self]
  have hkey : t.entryKeys e = some (ecmhash.cspHash, ecmhash.htNodeIndex) := by
    simp [entryKeys, he']
  have hmem : e ∈ t.entries.ll := (hinv.mem_entries e).mpr ⟨_, he'⟩
  have hnodup := hinv.entries.agree.nodup
  obtain ⟨entries, hrem, hkeyed, hentries⟩ := hinv.entries.removeElem hmem hkey
  set u : EcmCache := { t with
    entries := entries
    ecmHash := Function.update t.ecmHash e none } with hu
  have hold : ∀ e', e' ≠ e → u.ecmHash e' = t.ecmHash e' :=
    fun e' hne => Function.update_of_ne hne _ _
  have hne : ∀ e' o, u.ecmHash e' = some o → e' ≠ e := by
    rintro e' o ho rfl
    simp [hu] at ho
  refine ⟨u, ?_, ⟨?_, fun e' h' => ?_, fun e' o ho => ?_, fun e' o ho => ?_, ?_, hinv.pushOwned,
    fun x hx => ?_, hinv.counted⟩, hent ▸ hentries, fun e' o ho => ?_⟩
  · rw [EcmCache.dropEcmHash, ht]
    simp only [Except.bind, hrem, hu]
  · refine hkeyed.congr fun e' hm => ?_
    rw [hentries, hnodup.mem_erase_iff] at hm
    simp only [entryKeys, hold e' hm.1]
  · obtain ⟨o, ho⟩ := Option.ne_none_iff_exists'.mp h'
    change e' ∈ entries.ll
    rw [hentries, hnodup.mem_erase_iff]
    exact ⟨hne e' o ho, hinv.linked e' (hold e' (hne e' o ho) ▸ h')⟩
  · exact hinv.words e' o (hold e' (hne e' o ho) ▸ ho)
  · exact hinv.limit e' o (hold e' (hne e' o ho) ▸ ho)
  · have hkids : u.cwKids = Function.update t.cwKids e none :=
      map_update t.ecmHash (fun ecmhash => ecmhash.cws.ll) e none
    rw [hkids]
    refine (hinv.cwOwned.removeParent (l := []) (by simp [cwKids, he', hll])).congr rfl fun b => ?_
    simp [hu]
  · obtain ⟨hx₁, hrest⟩ := hinv.fresh x hx
    refine ⟨?_, hrest⟩
    rw [hold x (ne_of_none hx₁ he')]
    exact hx₁
  · have ho' := ho
    rw [hold e' (hne e' o ho), hecm, Function.update_of_ne (hne e' o ho)] at ho'
    refine ⟨ho', fun a ha => hcw a fun hin => hne e' o ho ?_⟩
    exact h.cwOwned.disjoint e' e _ _ a (by simp [cwKids, ho']) (by simp [cwKids, he]) ha hin

private theorem Inv.cleanupLoop (force : Bool) (maxCacheTime : ℤ) (now : ℕ → ℤ) {l : List ℕ}
    (hl : l.Nodup) (h : s.Inv hashCsp hashCw) (hsub : ∀ e ∈ l, e ∈ s.entries.ll) :
    ∃ t, EcmCache.cleanupLoop force maxCacheTime now l s = .ok t ∧ t.Inv hashCsp hashCw ∧
      s.Kept t := by
  induction l generalizing s with
  | nil => exact ⟨s, rfl, h, fun _ _ he => ⟨he, fun _ _ => rfl⟩⟩
  | cons e rest ih =>
    obtain ⟨hnot, hrest⟩ := List.nodup_cons.mp hl
    obtain ⟨ecmhash, he⟩ := (h.mem_entries e).mp (hsub e (by simp))
    have hsub' : ∀ e' ∈ rest, e' ∈ s.entries.ll := fun e' hm => hsub e' (List.mem_cons_of_mem _ hm)
    simp only [EcmCache.cleanupLoop, he]
    split_ifs with hyoung hdrop
    · exact ⟨s, rfl, h, fun _ _ he => ⟨he, fun _ _ => rfl⟩⟩
    · obtain ⟨t, ht, hinv, hll, hkept⟩ := h.dropEcmHash he
      have hsub'' : ∀ e' ∈ rest, e' ∈ t.entries.ll := by
        intro e' hm
        have hne : e' ≠ e := fun hee => hnot (hee ▸ hm)
        rw [hll]
        exact (List.mem_erase_of_ne hne).mpr (hsub' e' hm)
      obtain ⟨u, hu, hinv', hkept'⟩ := ih hrest hinv hsub''
      refine ⟨u, ?_, hinv', hkept.trans hkept'⟩
      rw [ht]
      exact hu
    · exact ih hrest h hsub'

/-- `cleanup_cache` unlinks and frees every object once and leaves the other entries alone. -/
theorem Inv.cleanupCache (h : s.Inv hashCsp hashCw) (force : Bool) (maxCacheTime : ℤ)
    (now : ℕ → ℤ) :
    ∃ t, s.cleanupCache force maxCacheTime now = .ok t ∧ t.Inv hashCsp hashCw ∧ s.Kept t :=
  h.cleanupLoop force maxCacheTime now h.entries.agree.nodup fun _ hm => hm

theorem Inv.checkIsPushed (h : s.Inv hashCsp hashCw) {a : ℕ} {cw : Cw} (ha : s.cw a = some cw)
    (cl : ℕ) (malloc : Bool) : (s.checkIsPushed a cw cl malloc).Inv hashCsp hashCw := by
  unfold EcmCache.checkIsPushed
  split_ifs
  · exact h
  obtain ⟨hnone, hnoneCw, hnonePush⟩ := h.fresh s.nextAddr le_rfl
  set new : Cw := { cw with pushoutClient := s.nextAddr :: cw.pushoutClient }
  set t : EcmCache := { s with
    pushClient := Function.update s.pushClient s.nextAddr (some cl)
    cw := Function.update s.cw a (some new)
    nextAddr := s.nextAddr + 1 } with ht
  have hkeys : t.cwKeys = s.cwKeys :=
    map_update_self (fun cw : Cw => (cw.cw, cw.htNodeIndex)) ha rfl
  have hkids : t.pushKids = Function.update s.pushKids a (some (s.nextAddr :: cw.pushoutClient)) :=
    map_update s.cw Cw.pushoutClient a (some new)
  refine ⟨h.entries, h.linked, fun e ecmhash he => hkeys ▸ h.words e ecmhash he, h.limit,
    h.cwOwned.congr rfl fun b => update_ne_none ha b, ?_, fun x hx => ?_, fun b c hb => ?_⟩
  · rw [hkids]
    refine (h.pushOwned.newChild (by simp [pushKids, ha]) (by simp [hnonePush])
      (List.Perm.refl _)).congr rfl fun p => ?_
    by_cases hp : p = s.nextAddr
    · subst hp
      simp [ht]
    · simp [ht, hp]
  · have hlt : s.nextAddr + 1 ≤ x := hx
    obtain ⟨hx₁, hx₂, hx₃⟩ := h.fresh x (by omega)
    exact ⟨hx₁, (Function.update_of_ne (ne_of_none hx₂ ha) _ _).trans hx₂,
      (Function.update_of_ne (by omega) _ _).trans hx₃⟩
  · by_cases hba : b = a
    · subst hba
      obtain rfl : new = c := by simpa [ht] using hb
      exact h.counted b cw ha
    · exact h.counted b c (by simpa [ht, hba] using hb)

theorem inv_step {act : Action} {st : State} (h : s.Inv hashCsp hashCw)
    (ht : next hashCsp hashCw (.ok s) act = some st) : ∃ t, st = .ok t ∧ t.Inv hashCsp hashCw := by
  cases act with
  | add er env =>
    obtain ⟨r, hr, hinv⟩ := h.addCache er env
    refine ⟨r.cache, (Option.some.inj ht).symm.trans ?_, hinv⟩
    rw [hr]
    rfl
  | cleanup force maxCacheTime now =>
    obtain ⟨t, hclean, hinv, -⟩ := h.cleanupCache force maxCacheTime now
    exact ⟨t, (Option.some.inj ht).symm.trans hclean, hinv⟩
  | push a cl malloc =>
    obtain ⟨cw, ha, rfl⟩ := Option.map_eq_some_iff.mp ht
    exact ⟨_, rfl, h.checkIsPushed ha cl malloc⟩

theorem inv_of_reachable {st : State} (h : (system hashCsp hashCw).Reachable System.free st) :
    ∃ s, st = .ok s ∧ s.Inv hashCsp hashCw := by
  refine h.invariant (I := fun st => ∃ s, st = .ok s ∧ s.Inv hashCsp hashCw) ?_ ?_
  · rintro st rfl
    exact ⟨_, rfl, inv_init⟩
  · rintro st act st' ⟨s, rfl, hs⟩ - ht
    exact inv_step hs ht

/-- Every run is free of faults and consistent, for any hash functions. -/
theorem reachable_good {st : State} (h : (system hashCsp hashCw).Reachable System.free st) :
    Good st := by
  obtain ⟨s, rfl, hs⟩ := inv_of_reachable h
  exact hs.consistent

/-- A request for ECM hash `7` with a word of equal bytes. -/
def request (byte : BitVec 8) (localgenerated : Bool) : EcmRequest where
  cspHash := 7
  cw := Vector.replicate 16 byte
  ecm0 := 0x80
  cwcCycletime := 0
  cwcNextCwCycle := 0
  caid := 0x500
  prid := 0
  srvid := 1
  grp := 1
  rc := 0
  ecmTime := 0
  selectedReader := none
  cacheexSrc := none
  fromCacheex := true
  fromCsp := false
  localgenerated := localgenerated

def plainEnv : Env := ⟨true, true, 0, true, true, false, false, 0, false⟩

def zeroHash : CwBytes → ℕ := fun _ => 0

/-- Two words, a push of the first, a cleanup that keeps the entry and one that takes it. -/
theorem reachable_good_cleaned : ∃ s, (system id zeroHash).Reachable System.free (.ok s) ∧
    s.nextAddr = 4 ∧ s.entries.ll = [] ∧ Good (.ok s) := by
  obtain ⟨st, hst, hp⟩ := System.exists_reachable_of_exec (S := system id zeroHash)
    (G := System.free) (s := .ok initCache) rfl
    [.add (request 1 false) plainEnv, .add (request 2 false) plainEnv, .push 1 5 true,
      .cleanup false 15 fun _ => 15000, .cleanup false 15 fun _ => 15001]
    (fun st => match st with
      | .ok s => decide (s.nextAddr = 4 ∧ s.entries.ll = [])
      | .error _ => false) (by decide +kernel)
  cases st with
  | error e => exact absurd hp Bool.false_ne_true
  | ok s =>
    obtain ⟨hn, hl⟩ := of_decide_eq_true hp
    exact ⟨s, hst, hn, hl, reachable_good hst⟩

/-- One local-generated receipt counts as `0x0F000001`. -/
theorem count_ne_receipts : ∃ s, (system id zeroHash).Reachable System.free (.ok s) ∧
    ∃ a cw, s.cw a = some cw ∧ cw.received.length = 1 ∧ cw.count = 0x0F000001 := by
  obtain ⟨st, hst, hp⟩ := System.exists_reachable_of_exec (S := system id zeroHash)
    (G := System.free) (s := .ok initCache) rfl [.add (request 1 true) plainEnv]
    (fun st => match st with
      | .ok s => (s.cw 1).any fun cw => cw.received.length = 1 ∧ cw.count = 0x0F000001
      | .error _ => false) (by decide +kernel)
  cases st with
  | error e => exact absurd hp Bool.false_ne_true
  | ok s =>
    obtain ⟨cw, hcw, hcount⟩ := (Option.any_eq_true _ _).mp hp
    exact ⟨s, hst, 1, cw, hcw, of_decide_eq_true hcount⟩

end NCam.Cache.EcmCache
