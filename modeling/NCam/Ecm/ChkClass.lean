import NCam.Ecm.Request
import Mathlib.Algebra.Order.Ring.Int

/-! The class filter of `ncam-chk.c`. `find_nano` and `chk_class` give their result with the places of
the ECM that they read. -/
namespace NCam.Ecm

def CS_NANO_CLASS : Byte := 0xE2

/-- `CLASSTAB`; `an` and `bn` are the lengths of the lists. -/
structure Classtab where
  aclass : List Byte
  bclass : List Byte

section Walk

variable (ecm : ℕ → Byte) (l : ℕ)

/-- The loop of `find_nano`, which reads a byte before it compares its place with the length. -/
def nanoLoop (nano : Byte) (s : ℕ) : ℕ × List ℕ :=
  if ecm s ≠ nano ∧ s < l then
    if ecm s = 0xEA then (0, [s])
    else
      let r := nanoLoop nano (s + 1)
      (r.1, s :: r.2)
  else (if s < l then s + 1 else 0, [s])
termination_by l - s

/-- `s = (ecm[4] == 0xD2) ? 12 : 9`. -/
def firstNano : ℕ := if ecm 4 = 0xD2 then 12 else 9

/-- The place behind the next nano. -/
def findNano (nano : Byte) (s : ℕ) : ℕ × List ℕ :=
  if l ≤ s then (0, [])
  else if s = 0 then
    let r := nanoLoop ecm l nano (firstNano ecm)
    (r.1, 4 :: r.2)
  else nanoLoop ecm l nano s

theorem nanoLoop_le (nano : Byte) (s : ℕ) (h : (nanoLoop ecm l nano s).1 ≠ 0) :
    s < (nanoLoop ecm l nano s).1 ∧ (nanoLoop ecm l nano s).1 ≤ l := by
  fun_induction nanoLoop ecm l nano s with
  | case1 s _ hend => exact absurd rfl h
  | case2 s _ hend r ih =>
    have := ih h
    dsimp only [r]
    omega
  | case3 s _ =>
    have hs : s < l := by
      by_contra hl
      simp [hl] at h
    simp only [hs, if_true]
    omega

theorem findNano_le (nano : Byte) (s : ℕ) (h : (findNano ecm l nano s).1 ≠ 0) :
    s < (findNano ecm l nano s).1 ∧ (findNano ecm l nano s).1 ≤ l := by
  unfold findNano at h ⊢
  by_cases hl : l ≤ s
  · simp [hl] at h
  rw [if_neg hl] at h ⊢
  by_cases hs : s = 0
  · rw [if_pos hs] at h ⊢
    have := nanoLoop_le ecm l nano (firstNano ecm) h
    simp only
    omega
  · rw [if_neg hs] at h ⊢
    exact nanoLoop_le ecm l nano s h

/-- The loop over the class nanos with `an` and `cl_n`, `none` at a blocked class. -/
def classLoop (clstab : Classtab) (j an clN : ℕ) : Option (ℕ × ℕ) × List ℕ :=
  let f := findNano ecm l CS_NANO_CLASS j
  if _h : f.1 = 0 then (some (an, clN), f.2)
  else
    let len := (ecm f.1).toNat
    if l < len + f.1 then
      let r := classLoop clstab f.1 an clN
      (r.1, f.2 ++ f.1 :: r.2)
    else
      let ecmClass := ecm (f.1 + len)
      if ecmClass ∈ clstab.bclass then (none, f.2 ++ [f.1, f.1 + len])
      else
        let r := classLoop clstab (f.1 + len) (if ecmClass ∈ clstab.aclass then an + 1 else an)
          (clN + 1)
        (r.1, f.2 ++ f.1 :: (f.1 + len) :: r.2)
termination_by l - j
decreasing_by
  · have hle := findNano_le ecm l CS_NANO_CLASS j _h
    omega
  · have hle := findNano_le ecm l CS_NANO_CLASS j _h
    omega

/-- The next class nano or end nano `0xEA`. -/
def nextTag (s : ℕ) : Option ℕ :=
  (List.range' s (l - s)).find? fun k => ecm k = CS_NANO_CLASS ∨ ecm k = 0xEA

/-- Where `find_nano` goes on from the next tag. -/
def behindTag (t : Option ℕ) : ℕ := t.elim 0 fun k => if ecm k = CS_NANO_CLASS then k + 1 else 0

theorem nextTag_of_le (s : ℕ) (h : l ≤ s) : nextTag ecm l s = none := by
  simp [nextTag, Nat.sub_eq_zero_of_le h]

theorem nextTag_of_lt (s : ℕ) (h : s < l) : nextTag ecm l s =
    if ecm s = CS_NANO_CLASS ∨ ecm s = 0xEA then some s else nextTag ecm l (s + 1) := by
  have hlen : l - s = (l - (s + 1)) + 1 := by omega
  unfold nextTag
  rw [hlen, List.range'_succ]
  split_ifs with htag
  · exact List.find?_cons_of_pos (by simpa using htag)
  · exact List.find?_cons_of_neg (by simpa using htag)

theorem nextTag_lt (s k : ℕ) (h : nextTag ecm l s = some k) : s ≤ k ∧ k < l := by
  have hmem := List.mem_of_find?_eq_some h
  rw [List.mem_range'_1] at hmem
  omega

theorem nanoLoop_value (s : ℕ) :
    (nanoLoop ecm l CS_NANO_CLASS s).1 = behindTag ecm (nextTag ecm l s) := by
  fun_induction nanoLoop ecm l CS_NANO_CLASS s with
  | case1 s h hend =>
    rw [nextTag_of_lt ecm l s h.2]
    simp [behindTag, hend, CS_NANO_CLASS]
  | case2 s h hend r ih =>
    rw [nextTag_of_lt ecm l s h.2, if_neg (not_or.mpr ⟨h.1, hend⟩)]
    exact ih
  | case3 s h =>
    by_cases hs : s < l
    · have htag : ecm s = CS_NANO_CLASS := by
        by_contra hne
        exact h ⟨hne, hs⟩
      rw [nextTag_of_lt ecm l s hs]
      simp [behindTag, htag, hs]
    · rw [nextTag_of_le ecm l s (by omega)]
      simp [behindTag, hs]

theorem nanoLoop_reads (s k : ℕ) (h : nextTag ecm l s = some k) :
    ∀ i ∈ (nanoLoop ecm l CS_NANO_CLASS s).2, i < l := by
  have hk := nextTag_lt ecm l s k h
  fun_induction nanoLoop ecm l CS_NANO_CLASS s with
  | case1 s _ hend => simpa using by omega
  | case2 s hs hend r ih =>
    rw [nextTag_of_lt ecm l s hs.2, if_neg (not_or.mpr ⟨hs.1, hend⟩)] at h
    intro i hi
    rcases List.mem_cons.mp hi with rfl | hi
    · omega
    · exact ih h (nextTag_lt ecm l _ k h) i hi
  | case3 s _ => simpa using by omega

/-- The place where the search of `find_nano` starts. -/
def walkStart (j : ℕ) : ℕ := if j = 0 then firstNano ecm else j

theorem walkStart_of_pos (j : ℕ) (h : j ≠ 0) : walkStart ecm j = j := by
  simp [walkStart, h]

theorem findNano_value (j : ℕ) :
    (findNano ecm l CS_NANO_CLASS j).1 = behindTag ecm (nextTag ecm l (walkStart ecm j)) := by
  unfold findNano walkStart
  by_cases hl : l ≤ j
  · have hstart : l ≤ if j = 0 then firstNano ecm else j := by
      split_ifs <;> omega
    rw [nextTag_of_le ecm l _ hstart]
    simp [hl, behindTag]
  rw [if_neg hl]
  by_cases hj : j = 0
  · rw [if_pos hj, if_pos hj]
    exact nanoLoop_value ecm l _
  · rw [if_neg hj, if_neg hj]
    exact nanoLoop_value ecm l _

theorem findNano_reads (j k : ℕ) (h : nextTag ecm l (walkStart ecm j) = some k) :
    ∀ i ∈ (findNano ecm l CS_NANO_CLASS j).2, i < l := by
  have hk := nextTag_lt ecm l _ k h
  unfold findNano
  unfold walkStart at h hk
  by_cases hl : l ≤ j
  · simp [hl]
  rw [if_neg hl]
  by_cases hj : j = 0
  · rw [if_pos hj] at h hk ⊢
    have hfirst : 9 ≤ firstNano ecm := by
      unfold firstNano
      split_ifs <;> omega
    intro i hi
    rcases List.mem_cons.mp hi with rfl | hi
    · omega
    · exact nanoLoop_reads ecm l _ k h i hi
  · rw [if_neg hj] at h ⊢
    exact nanoLoop_reads ecm l _ k h

/-- The classes of the class nanos from a place on. A nano whose class would lie behind the ECM is
none. -/
def classNanos (s : ℕ) : List Byte :=
  match h : nextTag ecm l s with
  | none => []
  | some k =>
    if ecm k ≠ CS_NANO_CLASS then []
    else
      let len := (ecm (k + 1)).toNat
      if l < len + (k + 1) then classNanos (k + 1)
      else ecm (k + 1 + len) :: classNanos (k + 1 + len)
termination_by l - s
decreasing_by
  · have := nextTag_lt ecm l s k h
    omega
  · have := nextTag_lt ecm l s k h
    omega

theorem classNanos_of_none (s : ℕ) (h : behindTag ecm (nextTag ecm l s) = 0) :
    classNanos ecm l s = [] := by
  unfold classNanos
  split
  · rfl
  · rename_i k hk
    rw [if_pos]
    intro hnano
    simp [hk, behindTag, hnano] at h

theorem classNanos_of_tag (s k : ℕ) (h : nextTag ecm l s = some k) (hk : ecm k = CS_NANO_CLASS) :
    classNanos ecm l s = if l < (ecm (k + 1)).toNat + (k + 1) then classNanos ecm l (k + 1)
      else ecm (k + 1 + (ecm (k + 1)).toNat) :: classNanos ecm l (k + 1 + (ecm (k + 1)).toNat) := by
  rw [classNanos]
  split
  · rename_i hnone
    simp [h] at hnone
  · rename_i k' hk'
    have : k' = k := by simpa [h] using hk'.symm
    subst k'
    rw [if_neg (by simpa using hk)]

/-- A further nano found by `find_nano` lies behind a class nano. -/
theorem tag_of_findNano (j : ℕ) (h : (findNano ecm l CS_NANO_CLASS j).1 ≠ 0) :
    ∃ k, nextTag ecm l (walkStart ecm j) = some k ∧ ecm k = CS_NANO_CLASS ∧
      (findNano ecm l CS_NANO_CLASS j).1 = k + 1 := by
  rw [findNano_value] at h ⊢
  cases htag : nextTag ecm l (walkStart ecm j) with
  | none => simp [htag, behindTag] at h
  | some k =>
    have hk : ecm k = CS_NANO_CLASS := by
      by_contra hne
      simp [htag, behindTag, hne] at h
    refine ⟨k, rfl, hk, ?_⟩
    simp [behindTag, hk]

/-- What the loop makes of the classes that it walks over. -/
def classResult (clstab : Classtab) (classes : List Byte) (an clN : ℕ) : Option (ℕ × ℕ) :=
  if classes.any (· ∈ clstab.bclass) then none
  else some (an + classes.countP (· ∈ clstab.aclass), clN + classes.length)

theorem classResult_nil (clstab : Classtab) (an clN : ℕ) :
    classResult clstab [] an clN = some (an, clN) := by
  simp [classResult]

theorem classResult_cons (clstab : Classtab) (c : Byte) (classes : List Byte) (an clN : ℕ) :
    classResult clstab (c :: classes) an clN =
      if c ∈ clstab.bclass then none
      else classResult clstab classes (if c ∈ clstab.aclass then an + 1 else an) (clN + 1) := by
  unfold classResult
  by_cases hb : c ∈ clstab.bclass
  · simp [hb]
  by_cases ha : c ∈ clstab.aclass
  · simp [hb, ha, Nat.add_assoc, Nat.add_comm 1]
  · simp [hb, ha, Nat.add_assoc, Nat.add_comm 1]

theorem classLoop_value (clstab : Classtab) (j an clN : ℕ) :
    (classLoop ecm l clstab j an clN).1 =
      classResult clstab (classNanos ecm l (walkStart ecm j)) an clN := by
  fun_induction classLoop ecm l clstab j an clN with
  | case1 j an clN f h =>
    rw [classNanos_of_none ecm l _ (by simpa [f, findNano_value] using h), classResult_nil]
  | case2 j an clN f h len hlong r ih =>
    obtain ⟨k, htag, hk, hf⟩ := tag_of_findNano ecm l j h
    have hf : f.1 = k + 1 := hf
    simp only [len, hf] at hlong
    rw [classNanos_of_tag ecm l _ k htag hk, if_pos hlong]
    simpa [r, hf, walkStart_of_pos ecm (k + 1)] using ih
  | case3 j an clN f h len hlong c hb =>
    obtain ⟨k, htag, hk, hf⟩ := tag_of_findNano ecm l j h
    have hf : f.1 = k + 1 := hf
    simp only [c, len, hf] at hlong hb
    rw [classNanos_of_tag ecm l _ k htag hk, if_neg hlong, classResult_cons, if_pos hb]
  | case4 j an clN f h len hlong c hb r ih =>
    obtain ⟨k, htag, hk, hf⟩ := tag_of_findNano ecm l j h
    have hf : f.1 = k + 1 := hf
    simp only [c, len, hf] at hlong hb
    rw [classNanos_of_tag ecm l _ k htag hk, if_neg hlong, classResult_cons, if_neg hb]
    simpa [r, c, len, hf, walkStart_of_pos ecm (k + 1 + (ecm (k + 1)).toNat)] using ih

/-- The walk from a place meets an end nano or a blocked class before it leaves the ECM, and the length
and the class of each class nano up to there lie in the ECM. -/
inductive Inside (clstab : Classtab) : ℕ → Prop
  | ends (s k : ℕ) : nextTag ecm l s = some k → ecm k ≠ CS_NANO_CLASS → Inside clstab s
  | skipped (s k : ℕ) : nextTag ecm l s = some k → ecm k = CS_NANO_CLASS → k + 1 < l →
      l < (ecm (k + 1)).toNat + (k + 1) → Inside clstab (k + 1) → Inside clstab s
  | blocked (s k : ℕ) : nextTag ecm l s = some k → ecm k = CS_NANO_CLASS →
      k + 1 + (ecm (k + 1)).toNat < l →
      ecm (k + 1 + (ecm (k + 1)).toNat) ∈ clstab.bclass → Inside clstab s
  | next (s k : ℕ) : nextTag ecm l s = some k → ecm k = CS_NANO_CLASS →
      k + 1 + (ecm (k + 1)).toNat < l →
      Inside clstab (k + 1 + (ecm (k + 1)).toNat) → Inside clstab s

theorem Inside.tag (clstab : Classtab) (s : ℕ) (h : Inside ecm l clstab s) :
    ∃ k, nextTag ecm l s = some k := by
  cases h with
  | ends _ k htag _ => exact ⟨k, htag⟩
  | skipped _ k htag _ _ _ _ => exact ⟨k, htag⟩
  | blocked _ k htag _ _ _ => exact ⟨k, htag⟩
  | next _ k htag _ _ _ => exact ⟨k, htag⟩

/-- The walk at a class nano. -/
theorem Inside.nano (clstab : Classtab) (s k : ℕ) (h : Inside ecm l clstab s)
    (htag : nextTag ecm l s = some k) (hk : ecm k = CS_NANO_CLASS) :
    k + 1 < l ∧ (l < (ecm (k + 1)).toNat + (k + 1) → Inside ecm l clstab (k + 1)) ∧
      (¬l < (ecm (k + 1)).toNat + (k + 1) → k + 1 + (ecm (k + 1)).toNat < l ∧
        (ecm (k + 1 + (ecm (k + 1)).toNat) ∉ clstab.bclass →
          Inside ecm l clstab (k + 1 + (ecm (k + 1)).toNat))) := by
  cases h with
  | ends _ k' htag' hend =>
    have : k' = k := by simpa [htag] using htag'.symm
    exact absurd hk (this ▸ hend)
  | skipped _ k' htag' _ hlen hlong hrest =>
    have : k' = k := by simpa [htag] using htag'.symm
    subst k'
    exact ⟨hlen, fun _ => hrest, fun hshort => absurd hlong hshort⟩
  | blocked _ k' htag' _ hclass hb =>
    have : k' = k := by simpa [htag] using htag'.symm
    subst k'
    exact ⟨by omega, fun hlong => by omega, fun _ => ⟨hclass, fun hn => absurd hb hn⟩⟩
  | next _ k' htag' _ hclass hrest =>
    have : k' = k := by simpa [htag] using htag'.symm
    subst k'
    exact ⟨by omega, fun hlong => by omega, fun _ => ⟨hclass, fun _ => hrest⟩⟩

theorem classLoop_reads (clstab : Classtab) (j an clN : ℕ)
    (h : Inside ecm l clstab (walkStart ecm j)) :
    ∀ i ∈ (classLoop ecm l clstab j an clN).2, i < l := by
  have hfind (j : ℕ) (h : Inside ecm l clstab (walkStart ecm j)) :
      ∀ i ∈ (findNano ecm l CS_NANO_CLASS j).2, i < l := by
    obtain ⟨k, htag⟩ := h.tag
    exact findNano_reads ecm l j k htag
  fun_induction classLoop ecm l clstab j an clN with
  | case1 j an clN f _ => exact hfind j h
  | case2 j an clN f hf len hlong r ih =>
    obtain ⟨k, htag, hk, hfk⟩ := tag_of_findNano ecm l j hf
    have hfk : f.1 = k + 1 := hfk
    obtain ⟨hlen, hskip, -⟩ := h.nano ecm l clstab _ k htag hk
    simp only [len, hfk] at hlong
    have hrest : Inside ecm l clstab (walkStart ecm f.1) := by
      rw [hfk, walkStart_of_pos ecm (k + 1) (by omega)]
      exact hskip hlong
    intro i hi
    simp only [List.mem_append, List.mem_cons] at hi
    rcases hi with hi | rfl | hi
    · exact hfind j h i hi
    · omega
    · exact ih hrest i hi
  | case3 j an clN f hf len hlong c hb =>
    obtain ⟨k, htag, hk, hfk⟩ := tag_of_findNano ecm l j hf
    have hfk : f.1 = k + 1 := hfk
    obtain ⟨hlen, -, hclass⟩ := h.nano ecm l clstab _ k htag hk
    simp only [len, hfk] at hlong
    intro i hi
    simp only [List.mem_append, List.mem_cons, List.not_mem_nil, or_false, len, hfk] at hi
    rcases hi with hi | rfl | rfl
    · exact hfind j h i hi
    · exact hlen
    · exact (hclass hlong).1
  | case4 j an clN f hf len hlong c hb r ih =>
    obtain ⟨k, htag, hk, hfk⟩ := tag_of_findNano ecm l j hf
    have hfk : f.1 = k + 1 := hfk
    obtain ⟨hlen, -, hclass⟩ := h.nano ecm l clstab _ k htag hk
    simp only [c, len, hfk] at hlong hb
    obtain ⟨hin, hnext⟩ := hclass hlong
    have hrest : Inside ecm l clstab (walkStart ecm (f.1 + len)) := by
      simp only [len, hfk]
      rw [walkStart_of_pos ecm _ (by omega)]
      exact hnext hb
    intro i hi
    simp only [List.mem_append, List.mem_cons] at hi
    rcases hi with hi | rfl | rfl | hi
    · exact hfind j h i hi
    · omega
    · simpa [len, hfk] using hin
    · exact ih hrest i hi

end Walk

/-- The test `cl_n && clstab->an` behind the search. -/
def classVerdict (clstab : Classtab) : Option (ℕ × ℕ) → Bool
  | none => false
  | some (an, clN) => !(clN ≠ 0 && clstab.aclass ≠ [] && an = 0)

def chkClass (er : EcmRequest) (clstab : Classtab) : Bool × List ℕ :=
  if er.caid ≠ 0x500 ∧ er.caid ≠ 0x4AE1 then (true, [])
  else if clstab.bclass = [] ∧ clstab.aclass = [] then (true, [])
  else if er.caid = 0x500 then
    let r := classLoop er.ecm er.ecmlen.toNat clstab 0 0 0
    (classVerdict clstab r.1, r.2)
  else if er.prid ≠ 0x11 then (true, [])
  else if er.ecm 0 = 0 then (true, [0])
  else if er.ecm 5 ∈ clstab.bclass then (false, [0, 5])
  else (classVerdict clstab (some (if er.ecm 5 ∈ clstab.aclass then 1 else 0, 1)), [0, 5])

/-- The classes that an ECM holds: those of its class nanos, or the one of provider `0x11`. -/
def ecmClasses (er : EcmRequest) : List Byte :=
  if er.caid = 0x500 then classNanos er.ecm er.ecmlen.toNat (firstNano er.ecm)
  else if er.caid = 0x4AE1 ∧ er.prid = 0x11 ∧ er.ecm 0 ≠ 0 then [er.ecm 5]
  else []

/-- The bytes which the class filter asks for lie in the ECM. -/
def ClassesInside (er : EcmRequest) (clstab : Classtab) : Prop :=
  (er.caid = 0x500 → Inside er.ecm er.ecmlen.toNat clstab (firstNano er.ecm)) ∧
    (er.caid = 0x4AE1 → er.prid = 0x11 → 0 < er.ecmlen ∧ (er.ecm 0 ≠ 0 → 5 < er.ecmlen))

theorem classVerdict_classResult (clstab : Classtab) (classes : List Byte) :
    classVerdict clstab (classResult clstab classes 0 0) = true ↔
      (∀ c ∈ classes, c ∉ clstab.bclass) ∧
        (classes ≠ [] → clstab.aclass ≠ [] → ∃ c ∈ classes, c ∈ clstab.aclass) := by
  unfold classResult
  by_cases hb : classes.any (· ∈ clstab.bclass)
  · rw [if_pos hb]
    simp only [List.any_eq_true, decide_eq_true_eq] at hb
    obtain ⟨c, hc, hcb⟩ := hb
    constructor
    · intro h
      exact absurd h (by simp [classVerdict])
    · intro h
      exact absurd hcb (h.1 c hc)
  · have hnone : ∀ c ∈ classes, c ∉ clstab.bclass := by simpa using hb
    have hcount : classes.countP (· ∈ clstab.aclass) = 0 ↔ ∀ c ∈ classes, c ∉ clstab.aclass := by
      simp [List.countP_eq_zero]
    have hlen : classes.length = 0 ↔ classes = [] := List.length_eq_zero_iff
    rw [if_neg hb]
    simp only [classVerdict, Nat.zero_add, ne_eq, hlen, hcount]
    simp only [Bool.not_eq_true', Bool.and_eq_false_iff, decide_eq_false_iff_not, not_not]
    constructor
    · intro h
      refine ⟨hnone, fun hne hane => ?_⟩
      have : ¬∀ c ∈ classes, c ∉ clstab.aclass := by tauto
      simpa using this
    · intro h
      by_cases hne : classes = []
      · exact Or.inl (Or.inl hne)
      by_cases hane : clstab.aclass = []
      · exact Or.inl (Or.inr hane)
      obtain ⟨c, hc, hca⟩ := h.2 hne hane
      exact Or.inr fun hall => hall c hc hca

theorem classVerdict_none (clstab : Classtab) (an : ℕ) :
    classVerdict clstab (some (an, 0)) = true := by
  simp [classVerdict]

theorem chkClass_value (er : EcmRequest) (clstab : Classtab) :
    (chkClass er clstab).1 = classVerdict clstab (classResult clstab (ecmClasses er) 0 0) := by
  unfold chkClass ecmClasses
  by_cases hother : er.caid ≠ 0x500 ∧ er.caid ≠ 0x4AE1
  · rw [if_pos hother, if_neg hother.1, if_neg fun h => hother.2 h.1, classResult_nil,
      classVerdict_none]
  rw [if_neg hother]
  by_cases htables : clstab.bclass = [] ∧ clstab.aclass = []
  · rw [if_pos htables]
    simp [classResult, htables, classVerdict]
  rw [if_neg htables]
  by_cases hvia : er.caid = 0x500
  · rw [if_pos hvia, if_pos hvia]
    show classVerdict clstab (classLoop _ _ _ _ _ _).1 = _
    rw [classLoop_value]
    rfl
  have hdre : er.caid = 0x4AE1 := by tauto
  rw [if_neg hvia, if_neg hvia]
  by_cases hprid : er.prid = 0x11
  · rw [if_neg (not_not_intro hprid)]
    by_cases hzero : er.ecm 0 = 0
    · rw [if_pos hzero, if_neg fun h => h.2.2 hzero, classResult_nil, classVerdict_none]
    · have hclass : er.caid = 0x4AE1 ∧ er.prid = 0x11 ∧ er.ecm 0 ≠ 0 := ⟨hdre, hprid, hzero⟩
      rw [if_neg hzero, if_pos hclass, classResult_cons, classResult_nil]
      by_cases hb : er.ecm 5 ∈ clstab.bclass
      · rw [if_pos hb, if_pos hb]
        rfl
      · rw [if_neg hb, if_neg hb]
  · rw [if_pos hprid, if_neg fun h => hprid h.2.1, classResult_nil, classVerdict_none]

theorem chkClass_reads (er : EcmRequest) (clstab : Classtab) (h : ClassesInside er clstab) :
    ∀ i ∈ (chkClass er clstab).2, (i : ℤ) < er.ecmlen := by
  unfold chkClass
  by_cases hother : er.caid ≠ 0x500 ∧ er.caid ≠ 0x4AE1
  · rw [if_pos hother]
    simp
  rw [if_neg hother]
  by_cases htables : clstab.bclass = [] ∧ clstab.aclass = []
  · rw [if_pos htables]
    simp
  rw [if_neg htables]
  by_cases hvia : er.caid = 0x500
  · rw [if_pos hvia]
    intro i hi
    have := classLoop_reads er.ecm er.ecmlen.toNat clstab 0 0 0 (h.1 hvia) i hi
    omega
  rw [if_neg hvia]
  have hdre : er.caid = 0x4AE1 := by tauto
  by_cases hprid : er.prid = 0x11
  · rw [if_neg (not_not_intro hprid)]
    obtain ⟨hfirst, hclass⟩ := h.2 hdre hprid
    by_cases hzero : er.ecm 0 = 0
    · rw [if_pos hzero]
      simpa using hfirst
    · have hboth : ∀ i ∈ [0, 5], ((i : ℕ) : ℤ) < er.ecmlen := by
        simpa using ⟨hfirst, hclass hzero⟩
      rw [if_neg hzero]
      by_cases hb : er.ecm 5 ∈ clstab.bclass
      · rw [if_pos hb]
        exact hboth
      · rw [if_neg hb]
        exact hboth
  · rw [if_pos hprid]
    simp

/-- An ECM of Viaccess with the given bytes from the first nano on. -/
def viaccessEcm (nanos : List Byte) : EcmRequest :=
  { ecm := fun i => if i < 9 then 0 else nanos.getD (i - 9) 0, ecmlen := 9 + nanos.length,
    caid := 0x500, ocaid := 0, srvid := 0, chid := 0, pid := 0, prid := 0, btun := 0 }

end NCam.Ecm
