import NCam.Lib.Buckets
import NCam.Lib.Memory
import NCam.Lib.Reads
import Mathlib.Algebra.Order.BigOperators.Group.List
import Mathlib.Algebra.Order.Group.Nat
import Mathlib.Algebra.Order.Ring.Int

/-! `emm_sort_nanos`, which assembles the nanos of an EMM in the order of their tags. -/
namespace NCam.Emm

open NCam.Lib NCam.Lib.Memory

abbrev Byte := BitVec 8

inductive Buffer
  | dest
  | src
  deriving DecidableEq

/-- What the inner loop carries. -/
structure Pass where
  dest : ℕ → Byte
  w : ℕ
  n : ℕ

/-- The inner loop came to the end of the nanos, or failed its sanity check. -/
inductive Scanned
  | done (p : Pass)
  | failed (dest : ℕ → Byte)

def tagAt (src : ℕ → Byte) (j : ℕ) : ℕ := (src j).toNat

/-- `src[j + 1] + 2` -/
def sizeAt (src : ℕ → Byte) (j : ℕ) : ℕ := (src (j + 1)).toNat + 2

/-- The inner loop from offset `j` on, with the cells it touches. -/
def scan (src : ℕ → Byte) (len : ℕ) (c : ℤ) :
    ℕ → ℕ → Pass → Reads (Span Buffer) (Option Scanned)
  | 0, _, _ => pure none
  | fuel + 1, j, p =>
    if j < len then do
      Reads.touch .src (j + 1) 1
      let l := sizeAt src j
      Reads.touch .src j 1
      if (tagAt src j : ℤ) = c then
        if len < p.w + l then do
          Reads.touch .dest 0 len
          pure (some (.failed (put p.dest 0 (List.replicate len 0))))
        else do
          Reads.touch .src j l
          Reads.touch .dest p.w l
          scan src len c fuel (j + l) ⟨put p.dest p.w (slice src j l), p.w + l, p.n⟩
      else if c < tagAt src j ∧ tagAt src j < p.n then
        scan src len c fuel (j + l) { p with n := tagAt src j }
      else scan src len c fuel (j + l) p
    else pure (some (.done p))

/-- The outer loop, with the tag `c` that is copied in this pass. -/
def sortLoop (src : ℕ → Byte) (len : ℕ) :
    ℕ → ℤ → (ℕ → Byte) → ℕ → Reads (Span Buffer) (Option (ℕ → Byte))
  | 0, _, _, _ => pure none
  | fuel + 1, c, dest, w => do
    match ← scan src len c (len + 1) 0 ⟨dest, w, 256⟩ with
    | none => pure none
    | some (.failed dest) => pure (some dest)
    | some (.done p) =>
      if 256 ≤ p.n then pure (some p.dest) else sortLoop src len fuel p.n p.dest p.w

/-- No buffer is touched, as `j < len` never holds, when the length is not positive. -/
def emmSortNanos (dest src : ℕ → Byte) (len : ℤ) (fuel : ℕ) :
    Reads (Span Buffer) (Option (ℕ → Byte)) :=
  sortLoop src len.toNat fuel (-1) dest 0

/-- The offsets of the nanos from `j` on. -/
def offsets (src : ℕ → Byte) (len : ℕ) : ℕ → ℕ → List ℕ
  | 0, _ => []
  | fuel + 1, j => if j < len then j :: offsets src len fuel (j + sizeAt src j) else []

/-- The bytes of the nanos at the offsets. -/
def bytesAt (src : ℕ → Byte) (js : List ℕ) : List Byte :=
  js.flatMap fun j => slice src j (sizeAt src j)

/-- A nano as it should be: a tag, its length and that many bytes. -/
structure Nano where
  tag : Byte
  payload : List Byte
  fits : payload.length < 256

def Nano.bytes (nano : Nano) : List Byte :=
  nano.tag :: BitVec.ofNat 8 nano.payload.length :: nano.payload

/-- All cells touched are below the length. -/
def InBounds {α : Type} (len : ℕ) (m : Reads (Span Buffer) α) : Prop :=
  m.All (Span.Within fun _ => len)

/-- The sort ends and touches only cells below the length, and nanos that fill the length are sorted by
their tags, those of one tag in the order in which they came. -/
structure SortsNanos (dest src : ℕ → Byte) (len : ℤ) : Prop where
  returns : ∀ fuel, 257 ≤ fuel → (emmSortNanos dest src len fuel).value.isSome
  bounds : ∀ fuel, 257 ≤ fuel → InBounds len.toNat (emmSortNanos dest src len fuel)
  sorts : ∀ nanos : List Nano, Holds src 0 (nanos.flatMap Nano.bytes) →
    (nanos.flatMap Nano.bytes).length = len → ∀ fuel, 257 ≤ fuel →
      ∃ result, ∃ ordered : List Nano, (emmSortNanos dest src len fuel).value = some result ∧
        Holds result 0 (ordered.flatMap Nano.bytes) ∧ ordered.Perm nanos ∧
        ordered.Pairwise (fun a b => a.tag.toNat ≤ b.tag.toNat) ∧
        ∀ tag, ordered.filter (fun a => a.tag = tag) = nanos.filter fun a => a.tag = tag

variable {src : ℕ → Byte} {len : ℕ} {c : ℤ} {p : Pass} {f j : ℕ} {L : List ℕ}

/-- The bytes of the nanos at the offsets, counted. -/
def total (src : ℕ → Byte) (js : List ℕ) : ℕ := (js.map (sizeAt src)).sum

/-- The nanos of one pass. -/
def mine (src : ℕ → Byte) (c : ℤ) (js : List ℕ) : List ℕ :=
  js.filter fun j => (tagAt src j : ℤ) = c

/-- The tag after the pass for `c`. -/
def nextTag (src : ℕ → Byte) (c : ℤ) (js : List ℕ) (n : ℕ) : ℕ :=
  js.foldl (fun n j => if c < tagAt src j ∧ tagAt src j < n then tagAt src j else n) n

theorem length_bytesAt (js : List ℕ) : (bytesAt src js).length = total src js := by
  simp [bytesAt, total, List.length_flatMap]

theorem total_cons (j : ℕ) (js : List ℕ) : total src (j :: js) = sizeAt src j + total src js := by
  rw [total, List.map_cons, List.sum_cons, total]

theorem total_append (is js : List ℕ) : total src (is ++ js) = total src is + total src js := by
  rw [total, List.map_append, List.sum_append, total, total]

theorem mine_cons_self (h : (tagAt src j : ℤ) = c) : mine src c (j :: L) = j :: mine src c L :=
  List.filter_cons_of_pos (by simpa using h)

theorem mine_cons_ne (h : (tagAt src j : ℤ) ≠ c) : mine src c (j :: L) = mine src c L :=
  List.filter_cons_of_neg (by simpa using h)

theorem nextTag_cons (n : ℕ) : nextTag src c (j :: L) n =
    nextTag src c L (if c < tagAt src j ∧ tagAt src j < n then tagAt src j else n) := rfl

theorem offsets_lt (hj : j < len) :
    offsets src len (f + 1) j = j :: offsets src len f (j + sizeAt src j) := by
  rw [offsets, if_pos hj]

theorem offsets_ge (hj : ¬ j < len) : offsets src len f j = [] := by
  cases f with
  | zero => rfl
  | succ f => rw [offsets, if_neg hj]

section Scan

/-- A pass whose nanos fit copies them behind each other. -/
theorem scan_done (hf : len ≤ j + f) (hfit : p.w + total src (mine src c (offsets src len f j)) ≤ len) :
    (scan src len c (f + 1) j p).value = some (.done
      ⟨put p.dest p.w (bytesAt src (mine src c (offsets src len f j))),
        p.w + total src (mine src c (offsets src len f j)),
        nextTag src c (offsets src len f j) p.n⟩) := by
  induction f generalizing j p with
  | zero =>
    have hj : ¬ j < len := by omega
    rw [scan, if_neg hj]
    simp [offsets, mine, bytesAt, total, nextTag]
  | succ f ih =>
    by_cases hj : j < len
    case neg =>
      rw [scan, if_neg hj, offsets_ge hj]
      simp [mine, bytesAt, total, nextTag]
    have hsize : sizeAt src j = (src (j + 1)).toNat + 2 := rfl
    have hf' : len ≤ j + sizeAt src j + f := by omega
    rw [offsets_lt hj] at hfit ⊢
    rw [scan, if_pos hj]
    by_cases htag : (tagAt src j : ℤ) = c
    · rw [mine_cons_self htag, total_cons] at hfit
      have hroom : ¬ len < p.w + sizeAt src j := by omega
      have hnext := @ih ⟨put p.dest p.w (slice src j (sizeAt src j)), p.w + sizeAt src j, p.n⟩
        (j + sizeAt src j) hf' (by dsimp only; omega)
      have hno : ¬ (c < (tagAt src j : ℤ) ∧ tagAt src j < p.n) := by omega
      simp only [Reads.value_bind, htag, if_true, if_neg hroom, hnext]
      rw [mine_cons_self htag, total_cons, put_put_of_eq (by simp), nextTag_cons, if_neg hno,
        Nat.add_assoc]
      rfl
    · rw [mine_cons_ne htag] at hfit ⊢
      by_cases hless : c < (tagAt src j : ℤ) ∧ tagAt src j < p.n
      · have hnext := @ih { p with n := tagAt src j } (j + sizeAt src j) hf' hfit
        simp only [Reads.value_bind, if_neg htag, if_pos hless, hnext]
        rw [nextTag_cons, if_pos hless]
      · have hnext := @ih p (j + sizeAt src j) hf' hfit
        simp only [Reads.value_bind, if_neg htag, if_neg hless, hnext]
        rw [nextTag_cons, if_neg hless]

/-- A pass whose nanos do not fit fails the check. -/
theorem scan_failed (hf : len ≤ j + f)
    (hover : len < p.w + total src (mine src c (offsets src len f j))) (hw : p.w ≤ len) :
    ∃ dest, (scan src len c (f + 1) j p).value = some (.failed dest) := by
  induction f generalizing j p with
  | zero => simp [offsets, mine, total] at hover; omega
  | succ f ih =>
    by_cases hj : j < len
    case neg => rw [offsets_ge hj] at hover; simp [mine, total] at hover; omega
    have hsize : sizeAt src j = (src (j + 1)).toNat + 2 := rfl
    have hf' : len ≤ j + sizeAt src j + f := by omega
    rw [offsets_lt hj] at hover
    rw [scan, if_pos hj]
    by_cases htag : (tagAt src j : ℤ) = c
    · rw [mine_cons_self htag, total_cons] at hover
      by_cases hroom : len < p.w + sizeAt src j
      · simp only [Reads.value_bind, htag, if_true, if_pos hroom, Reads.value_pure]
        exact ⟨_, rfl⟩
      · simp only [Reads.value_bind, htag, if_true, if_neg hroom]
        exact ih hf' (by dsimp only; omega) (by dsimp only; omega)
    · rw [mine_cons_ne htag] at hover
      by_cases hless : c < (tagAt src j : ℤ) ∧ tagAt src j < p.n
      · simp only [Reads.value_bind, if_neg htag, if_pos hless]
        exact ih hf' hover hw
      · simp only [Reads.value_bind, if_neg htag, if_neg hless]
        exact ih hf' hover hw

/-- What a pass may touch: it stops before a nano that does not fit behind the others of its tag. -/
theorem scan_inBounds (hf : len ≤ j + f) (hstart : ∀ i ∈ offsets src len f j, i + 1 < len)
    (hgood : ∀ as i bs, offsets src len f j = as ++ i :: bs → (tagAt src i : ℤ) = c →
      p.w + total src (mine src c as) + sizeAt src i ≤ len → i + sizeAt src i ≤ len) :
    InBounds len (scan src len c (f + 1) j p) := by
  induction f generalizing j p with
  | zero =>
    have hj : ¬ j < len := by omega
    rw [scan, if_neg hj]
    exact Reads.all_pure _
  | succ f ih =>
    by_cases hj : j < len
    case neg =>
      rw [scan, if_neg hj]
      exact Reads.all_pure _
    have hsize : sizeAt src j = (src (j + 1)).toNat + 2 := rfl
    have hf' : len ≤ j + sizeAt src j + f := by omega
    rw [offsets_lt hj] at hstart hgood
    have hfirst := hstart j List.mem_cons_self
    have hrest : ∀ i ∈ offsets src len f (j + sizeAt src j), i + 1 < len :=
      fun i hi => hstart i (List.mem_cons_of_mem _ hi)
    rw [scan, if_pos hj]
    unfold InBounds
    simp only [Reads.all_bind, Reads.all_touch]
    refine ⟨by omega, by omega, ?_⟩
    by_cases htag : (tagAt src j : ℤ) = c
    · rw [if_pos htag]
      by_cases hroom : len < p.w + sizeAt src j
      · rw [if_pos hroom]
        simp
      · rw [if_neg hroom]
        have hfits := hgood [] j _ rfl htag (by simp [mine, total]; omega)
        simp only [Reads.all_bind, Reads.all_touch]
        refine ⟨hfits, by omega, ih hf' hrest fun as i bs hsplit hi hle => ?_⟩
        refine hgood (j :: as) i bs (by rw [hsplit, List.cons_append]) hi ?_
        rw [mine_cons_self htag, total_cons]
        dsimp only at hle
        omega
    · have hskip : ∀ as i bs, offsets src len f (j + sizeAt src j) = as ++ i :: bs →
          (tagAt src i : ℤ) = c → p.w + total src (mine src c as) + sizeAt src i ≤ len →
          i + sizeAt src i ≤ len := by
        intro as i bs hsplit hi hle
        refine hgood (j :: as) i bs (by rw [hsplit, List.cons_append]) hi ?_
        rwa [mine_cons_ne htag]
      rw [if_neg htag]
      by_cases hless : c < (tagAt src j : ℤ) ∧ tagAt src j < p.n
      · rw [if_pos hless]
        exact ih hf' hrest hskip
      · rw [if_neg hless]
        exact ih hf' hrest hskip

/-- The first pass looks at every nano. -/
theorem InBounds.starts (hf : len ≤ j + f) (h : InBounds len (scan src len (-1) (f + 1) j p)) :
    ∀ i ∈ offsets src len f j, i + 1 < len := by
  induction f generalizing j p with
  | zero => exact fun i hi => absurd hi List.not_mem_nil
  | succ f ih =>
    by_cases hj : j < len
    case neg =>
      rw [offsets_ge hj]
      exact fun i hi => absurd hi List.not_mem_nil
    have hsize : sizeAt src j = (src (j + 1)).toNat + 2 := rfl
    have hf' : len ≤ j + sizeAt src j + f := by omega
    have htag : ¬ (tagAt src j : ℤ) = -1 := by omega
    rw [scan, if_pos hj] at h
    unfold InBounds at h
    simp only [Reads.all_bind, Reads.all_touch, if_neg htag] at h
    obtain ⟨hfirst, -, hrest⟩ := h
    rw [offsets_lt hj]
    refine List.forall_mem_cons.mpr ⟨hfirst, ?_⟩
    by_cases hless : (-1 : ℤ) < tagAt src j ∧ tagAt src j < p.n
    · rw [if_pos hless] at hrest
      exact ih hf' hrest
    · rw [if_neg hless] at hrest
      exact ih hf' hrest

/-- A pass that copies all its nanos reads all of their bytes. -/
theorem InBounds.copied (hf : len ≤ j + f) (h : InBounds len (scan src len c (f + 1) j p))
    (hfit : p.w + total src (mine src c (offsets src len f j)) ≤ len) :
    ∀ i ∈ offsets src len f j, (tagAt src i : ℤ) = c → i + sizeAt src i ≤ len := by
  induction f generalizing j p with
  | zero => exact fun i hi => absurd hi List.not_mem_nil
  | succ f ih =>
    by_cases hj : j < len
    case neg =>
      rw [offsets_ge hj]
      exact fun i hi => absurd hi List.not_mem_nil
    have hsize : sizeAt src j = (src (j + 1)).toNat + 2 := rfl
    have hf' : len ≤ j + sizeAt src j + f := by omega
    rw [scan, if_pos hj] at h
    unfold InBounds at h
    simp only [Reads.all_bind, Reads.all_touch] at h
    obtain ⟨-, -, hrest⟩ := h
    rw [offsets_lt hj] at hfit ⊢
    rw [List.forall_mem_cons]
    by_cases htag : (tagAt src j : ℤ) = c
    · rw [mine_cons_self htag, total_cons] at hfit
      rw [if_pos htag, if_neg (by omega)] at hrest
      simp only [Reads.all_bind, Reads.all_touch] at hrest
      obtain ⟨hfits, -, hrest⟩ := hrest
      exact ⟨fun _ => hfits, ih hf' hrest (by dsimp only; omega)⟩
    · rw [mine_cons_ne htag] at hfit
      rw [if_neg htag] at hrest
      refine ⟨fun heq => absurd heq htag, ?_⟩
      by_cases hless : c < (tagAt src j : ℤ) ∧ tagAt src j < p.n
      · rw [if_pos hless] at hrest
        exact ih hf' hrest hfit
      · rw [if_neg hless] at hrest
        exact ih hf' hrest hfit

/-- The next tag is the smallest above the one of the pass. -/
theorem nextTag_spec (src : ℕ → Byte) (c : ℤ) (L : List ℕ) (n : ℕ) : nextTag src c L n ≤ n ∧
    (∀ j ∈ L, (tagAt src j : ℤ) ≤ c ∨ nextTag src c L n ≤ tagAt src j) ∧
    (nextTag src c L n = n ∨ ∃ j ∈ L, tagAt src j = nextTag src c L n ∧ c < tagAt src j) := by
  induction L generalizing n with
  | nil => exact ⟨Nat.le_refl n, fun j hj => absurd hj List.not_mem_nil, Or.inl rfl⟩
  | cons j L ih =>
    rw [nextTag_cons]
    by_cases hless : c < (tagAt src j : ℤ) ∧ tagAt src j < n
    · rw [if_pos hless]
      obtain ⟨hle, hall, hor⟩ := ih (tagAt src j)
      refine ⟨by omega, List.forall_mem_cons.mpr ⟨Or.inr hle, hall⟩, ?_⟩
      rcases hor with heq | ⟨i, hi, htag, hlt⟩
      · exact Or.inr ⟨j, List.mem_cons_self, heq.symm, hless.1⟩
      · exact Or.inr ⟨i, List.mem_cons_of_mem _ hi, htag, hlt⟩
    · rw [if_neg hless]
      obtain ⟨hle, hall, hor⟩ := ih n
      refine ⟨hle, List.forall_mem_cons.mpr ⟨by omega, hall⟩, ?_⟩
      rcases hor with heq | ⟨i, hi, htag, hlt⟩
      · exact Or.inl heq
      · exact Or.inr ⟨i, List.mem_cons_of_mem _ hi, htag, hlt⟩

end Scan

section Passes

variable {dest : ℕ → Byte} {w fuel n : ℕ}

/-- The offsets of all nanos. -/
def nanos (src : ℕ → Byte) (len : ℕ) : List ℕ := offsets src len len 0

/-- The nanos with a tag below `n` in the order in which the passes copy them. -/
def sorted (src : ℕ → Byte) (len n : ℕ) : List ℕ := Buckets.below (tagAt src) (nanos src len) n

theorem tagAt_lt (src : ℕ → Byte) (j : ℕ) : tagAt src j < 256 := (src j).isLt

theorem sorted_append_mine (src : ℕ → Byte) (len : ℕ) (hc : -1 ≤ c) :
    sorted src len c.toNat ++ mine src c (nanos src len) = sorted src len (c + 1).toNat := by
  rcases hc.eq_or_lt with rfl | hpos
  · have hnone : mine src (-1) (nanos src len) = [] := by
      rw [mine, List.filter_eq_nil_iff]
      intro j _
      rw [decide_eq_true_eq]
      omega
    rw [hnone]
    rfl
  · obtain ⟨k, rfl⟩ := Int.eq_ofNat_of_zero_le (show 0 ≤ c by omega)
    have hsame : mine src k (nanos src len) =
        (nanos src len).filter fun j => tagAt src j = k := by
      unfold mine
      apply List.filter_congr
      intro j _
      rw [decide_eq_decide]
      omega
    have hk : ((k : ℤ) + 1).toNat = k + 1 := by omega
    rw [hsame, hk, Int.toNat_natCast]
    exact Buckets.below_succ.symm

/-- Passes for tags in between that no nano has do nothing. -/
theorem sorted_nextTag (src : ℕ → Byte) (len : ℕ) (hc : -1 ≤ c) : sorted src len (nextTag src c (nanos src len) 256) =
    sorted src len (c + 1).toNat := by
  obtain ⟨-, hall, hor⟩ := nextTag_spec src c (nanos src len) 256
  by_cases hle : (c + 1).toNat ≤ nextTag src c (nanos src len) 256
  · refine Buckets.below_gap hle fun j hj => ?_
    have := hall j hj
    omega
  · rcases hor with heq | ⟨j, -, htag, hlt⟩
    · refine (Buckets.below_gap (by omega) fun j hj => ?_).symm
      have := tagAt_lt src j
      omega
    · omega

theorem total_sorted (n : ℕ) : total src (sorted src len n) =
    total src ((nanos src len).filter fun j => tagAt src j < n) :=
  (Buckets.below_perm.map _).sum_eq

theorem total_sorted_mono {m : ℕ} (h : n ≤ m) :
    total src (sorted src len n) ≤ total src (sorted src len m) := by
  rw [total_sorted, total_sorted]
  have hsub : ((nanos src len).filter fun j => tagAt src j < n).Sublist
      ((nanos src len).filter fun j => tagAt src j < m) := by
    refine List.monotone_filter_right _ fun j hj => ?_
    rw [decide_eq_true_eq] at hj ⊢
    omega
  exact (hsub.map _).sum_le_sum fun _ _ => Nat.zero_le _

/-- A pass after which the loop goes on with the next tag. -/
theorem sortLoop_done (hfit : w + total src (mine src c (nanos src len)) ≤ len) :
    (sortLoop src len (fuel + 1) c dest w).value =
      if 256 ≤ nextTag src c (nanos src len) 256 then
        some (put dest w (bytesAt src (mine src c (nanos src len))))
      else (sortLoop src len fuel (nextTag src c (nanos src len) 256)
        (put dest w (bytesAt src (mine src c (nanos src len))))
        (w + total src (mine src c (nanos src len)))).value := by
  have hscan := scan_done (p := ⟨dest, w, 256⟩) (f := len) (j := 0) (by omega) hfit
  rw [sortLoop]
  simp only [Reads.value_bind, hscan]
  rw [Reads.value_ite, Reads.value_pure]
  rfl

/-- The loop always ends, at the latest after a pass for each tag. -/
theorem sortLoop_isSome (hc : -1 ≤ c) (hlt : c < 256) (hfuel : 256 - c ≤ fuel) (hw : w ≤ len) :
    (sortLoop src len fuel c dest w).value.isSome := by
  induction fuel generalizing c dest w with
  | zero => omega
  | succ fuel ih =>
    by_cases hfit : w + total src (mine src c (nanos src len)) ≤ len
    · rw [sortLoop_done hfit]
      obtain ⟨-, -, hor⟩ := nextTag_spec src c (nanos src len) 256
      by_cases hend : 256 ≤ nextTag src c (nanos src len) 256
      · rw [if_pos hend]
        rfl
      · rw [if_neg hend]
        rcases hor with heq | ⟨j, -, htag, hgt⟩
        · omega
        · exact ih (by omega) (by omega) (by omega) hfit
    · obtain ⟨d, hscan⟩ := scan_failed (p := ⟨dest, w, 256⟩) (f := len) (j := 0) (by omega)
        (not_le.mp hfit) hw
      rw [sortLoop]
      simp only [Reads.value_bind, hscan, Reads.value_pure]
      rfl

/-- Where all nanos together fit, the passes copy them all. -/
theorem sortLoop_value (htotal : total src (sorted src len 256) ≤ len) (hc : -1 ≤ c) (hlt : c < 256)
    (hfuel : 256 - c ≤ fuel) :
    (sortLoop src len fuel c (put dest 0 (bytesAt src (sorted src len c.toNat)))
      (total src (sorted src len c.toNat))).value =
        some (put dest 0 (bytesAt src (sorted src len 256))) := by
  induction fuel generalizing c with
  | zero => omega
  | succ fuel ih =>
    have hstep := sorted_append_mine src len hc
    have hnext := sorted_nextTag src len hc
    obtain ⟨hle, -, hor⟩ := nextTag_spec src c (nanos src len) 256
    have hsum : total src (sorted src len c.toNat) + total src (mine src c (nanos src len)) =
        total src (sorted src len (c + 1).toNat) := by rw [← hstep, total_append]
    have hbytes : bytesAt src (sorted src len c.toNat) ++
        bytesAt src (mine src c (nanos src len)) = bytesAt src (sorted src len (c + 1).toNat) := by
      rw [← hstep, bytesAt, bytesAt, bytesAt, List.flatMap_append]
    have hfit : total src (sorted src len c.toNat) + total src (mine src c (nanos src len)) ≤ len := by
      rw [hsum]
      exact (total_sorted_mono (by omega)).trans htotal
    rw [sortLoop_done hfit, hsum, put_put_of_eq (by rw [length_bytesAt, Nat.zero_add]), hbytes,
      ← hnext]
    by_cases hend : 256 ≤ nextTag src c (nanos src len) 256
    · rw [if_pos hend, Nat.le_antisymm hle hend]
    · rw [if_neg hend]
      rcases hor with heq | ⟨j, -, htag, hgt⟩
      · omega
      · exact @ih (nextTag src c (nanos src len) 256) (by omega) (by omega) (by omega)

/-- The passes stay in bounds if every nano that is too long fails the check. -/
theorem sortLoop_inBounds (hstart : ∀ i ∈ nanos src len, i + 1 < len)
    (hlast : ∀ as i bs, nanos src len = as ++ i :: bs → len < i + sizeAt src i →
      bs = [] ∧ len < total src (sorted src len (tagAt src i + 1)))
    (hc : -1 ≤ c) (hw : w = total src (sorted src len c.toNat)) (hroom : w ≤ len) :
    InBounds len (sortLoop src len fuel c dest w) := by
  induction fuel generalizing c dest w with
  | zero => exact Reads.all_pure _
  | succ fuel ih =>
    have hstep := sorted_append_mine src len hc
    have hsum : w + total src (mine src c (nanos src len)) =
        total src (sorted src len (c + 1).toNat) := by rw [← hstep, total_append, hw]
    have hscan : InBounds len (scan src len c (len + 1) 0 ⟨dest, w, 256⟩) := by
      refine scan_inBounds (by omega) hstart fun as i bs hsplit htag hle => ?_
      by_contra hlong
      obtain ⟨rfl, hover⟩ := hlast as i bs hsplit (by omega)
      have hmine : mine src c (nanos src len) = mine src c as ++ [i] := by
        have hone : mine src c [i] = [i] := mine_cons_self htag
        change (offsets src len len 0).filter _ = _
        rw [hsplit, List.filter_append]
        exact congrArg _ hone
      have hi : (c + 1).toNat = tagAt src i + 1 := by omega
      rw [hmine, total_append, total_cons, hi] at hsum
      have hnil : total src [] = 0 := rfl
      dsimp only at hle
      omega
    rw [sortLoop]
    unfold InBounds at hscan ⊢
    rw [Reads.all_bind]
    refine ⟨hscan, ?_⟩
    by_cases hfit : w + total src (mine src c (nanos src len)) ≤ len
    · rw [scan_done (p := ⟨dest, w, 256⟩) (f := len) (j := 0) (by omega) hfit]
      dsimp only
      rw [Reads.all_ite]
      refine ⟨fun _ => Reads.all_pure _, fun hend => ?_⟩
      obtain ⟨-, -, hor⟩ := nextTag_spec src c (nanos src len) 256
      rcases hor with heq | ⟨j, -, htag, hgt⟩
      · exact absurd heq.ge hend
      · refine @ih (nextTag src c (nanos src len) 256) _ _ (by omega) ?_ hfit
        rw [Int.toNat_natCast, sorted_nextTag src len hc]
        exact hsum
    · obtain ⟨d, hfail⟩ := scan_failed (p := ⟨dest, w, 256⟩) (f := len) (j := 0) (by omega)
        (not_le.mp hfit) hroom
      rw [hfail]
      exact Reads.all_pure _

/-- In bounds the passes stop before a nano that is too long. -/
theorem InBounds.fits {i : ℕ} (h : InBounds len (sortLoop src len fuel c dest w)) (hc : -1 ≤ c)
    (hw : w = total src (sorted src len c.toNat)) (hi : i ∈ nanos src len)
    (htag : c ≤ tagAt src i) (hfuel : 256 - c ≤ fuel)
    (hfit : total src (sorted src len (tagAt src i + 1)) ≤ len) : i + sizeAt src i ≤ len := by
  induction fuel generalizing c dest w with
  | zero =>
    have := tagAt_lt src i
    omega
  | succ fuel ih =>
    have hstep := sorted_append_mine src len hc
    have hsum : w + total src (mine src c (nanos src len)) =
        total src (sorted src len (c + 1).toNat) := by rw [← hstep, total_append, hw]
    have hpass : w + total src (mine src c (nanos src len)) ≤ len := by
      rw [hsum]
      exact (total_sorted_mono (by omega)).trans hfit
    have hscan := scan_done (p := ⟨dest, w, 256⟩) (f := len) (j := 0) (by omega) hpass
    rw [sortLoop] at h
    unfold InBounds at h
    rw [Reads.all_bind, hscan] at h
    obtain ⟨hfirst, hrest⟩ := h
    rcases htag.eq_or_lt with heq | hlt
    · exact InBounds.copied (by omega) hfirst hpass i hi heq.symm
    · dsimp only at hrest
      obtain ⟨-, hall, hor⟩ := nextTag_spec src c (nanos src len) 256
      have hle : nextTag src c (nanos src len) 256 ≤ tagAt src i := by
        have := hall i hi
        omega
      have htag' := tagAt_lt src i
      rw [Reads.all_ite] at hrest
      refine ih (hrest.2 (by change ¬ 256 ≤ nextTag src c (nanos src len) 256; omega)) (by omega)
        ?_ (by exact_mod_cast hle) ?_
      · rw [Int.toNat_natCast]
        change w + total src (mine src c (nanos src len)) =
          total src (sorted src len (nextTag src c (nanos src len) 256))
        rw [sorted_nextTag src len hc, hsum]
      · rcases hor with heq | ⟨j, -, hj, hgt⟩
        · omega
        · change 256 - (nextTag src c (nanos src len) 256 : ℤ) ≤ fuel
          omega

end Passes

section Chain

/-- Only the last nano can be longer than what is left. -/
theorem offsets_last {as bs : List ℕ} {i : ℕ} (h : offsets src len f j = as ++ i :: bs)
    (hlong : len < i + sizeAt src i) : bs = [] := by
  induction f generalizing j as with
  | zero => simp [offsets] at h
  | succ f ih =>
    by_cases hj : j < len
    case neg =>
      rw [offsets_ge hj] at h
      simp at h
    rw [offsets_lt hj] at h
    cases as with
    | nil =>
      rw [List.nil_append, List.cons.injEq] at h
      obtain ⟨rfl, hrest⟩ := h
      rw [← hrest, offsets_ge (by omega)]
    | cons a as =>
      rw [List.cons_append, List.cons.injEq] at h
      exact ih h.2

/-- An offset with the nano that stands there. -/
def Stands (src : ℕ → Byte) (j : ℕ) (nano : Nano) : Prop :=
  slice src j (sizeAt src j) = nano.bytes ∧ tagAt src j = nano.tag.toNat

theorem Nano.length_bytes (nano : Nano) : nano.bytes.length = nano.payload.length + 2 := rfl

theorem stands_of_holds {nano : Nano} (h : Holds src j nano.bytes) :
    Stands src j nano ∧ sizeAt src j = nano.bytes.length := by
  have hbytes := h
  rw [Nano.bytes, holds_cons, holds_cons] at h
  have hsize : sizeAt src j = nano.bytes.length := by
    rw [sizeAt, h.2.1, BitVec.toNat_ofNat, Nat.mod_eq_of_lt nano.fits]
    rfl
  refine ⟨⟨hbytes.slice_eq hsize, ?_⟩, hsize⟩
  rw [tagAt, h.1]

/-- The offsets of nanos that fill the length are where these stand. -/
theorem offsets_stand {ns : List Nano} (h : Holds src j (ns.flatMap Nano.bytes))
    (hlen : j + (ns.flatMap Nano.bytes).length = len) (hf : (ns.flatMap Nano.bytes).length ≤ f) :
    List.Forall₂ (Stands src) (offsets src len f j) ns ∧
      total src (offsets src len f j) = (ns.flatMap Nano.bytes).length := by
  induction ns generalizing f j with
  | nil =>
    rw [offsets_ge (by simp at hlen; omega)]
    exact ⟨List.Forall₂.nil, rfl⟩
  | cons nano ns ih =>
    rw [List.flatMap_cons, holds_append] at h
    rw [List.flatMap_cons, List.length_append] at hlen hf
    have hpos := nano.length_bytes
    obtain ⟨f, rfl⟩ : ∃ g, f = g + 1 := ⟨f - 1, by omega⟩
    obtain ⟨hstands, hsize⟩ := stands_of_holds h.1
    obtain ⟨hall, hsum⟩ := ih (f := f) h.2 (by omega) (by omega)
    rw [offsets_lt (by omega), hsize, total_cons, hsize, hsum, List.flatMap_cons,
      List.length_append]
    exact ⟨List.Forall₂.cons hstands hall, rfl⟩

theorem bytesAt_eq {js : List ℕ} {ns : List Nano} (h : List.Forall₂ (Stands src) js ns) :
    bytesAt src js = ns.flatMap Nano.bytes := by
  induction h with
  | nil => rfl
  | cons hstands _ ih =>
    rw [bytesAt, List.flatMap_cons, List.flatMap_cons, hstands.1]
    exact congrArg _ ih

end Chain

/-- Nanos that fill the length are sorted, stably and completely. -/
theorem emmSortNanos_sorts {dest : ℕ → Byte} {ns : List Nano}
    (h : Holds src 0 (ns.flatMap Nano.bytes)) {len : ℤ}
    (hlen : (ns.flatMap Nano.bytes).length = len) {fuel : ℕ} (hfuel : 257 ≤ fuel) :
    (emmSortNanos dest src len fuel).value =
      some (put dest 0 ((Buckets.below (fun a => a.tag.toNat) ns 256).flatMap Nano.bytes)) := by
  obtain ⟨hall, hsum⟩ := @offsets_stand src len.toNat len.toNat 0 ns h (by omega) (by omega)
  have hfits : total src (sorted src len.toNat 256) ≤ len.toNat := by
    have hperm : (sorted src len.toNat 256).Perm (nanos src len.toNat) :=
      Buckets.below_perm_self fun j _ => tagAt_lt src j
    have htotal : total src (sorted src len.toNat 256) = total src (nanos src len.toNat) :=
      (hperm.map _).sum_eq
    rw [htotal, nanos, hsum]
    omega
  have hvalue := @sortLoop_value src len.toNat (-1) dest fuel hfits (by decide) (by decide)
    (by omega)
  have hbelow : List.Forall₂ (Stands src) (sorted src len.toNat 256)
      (Buckets.below (fun a => a.tag.toNat) ns 256) :=
    Buckets.below_forall₂ hall fun j nano hs => hs.2
  have hstart : bytesAt src (sorted src len.toNat (-1 : ℤ).toNat) = [] := rfl
  rw [hstart, put_nil] at hvalue
  rw [← bytesAt_eq hbelow]
  exact hvalue

/-- `emm_sort_nanos` works as it should if and only if no nano starts at the last byte, and a nano that
is longer than what is left does not fit behind the nanos up to its tag either. -/
theorem emmSortNanos_sortsNanos_iff (dest src : ℕ → Byte) (len : ℤ) :
    SortsNanos dest src len ↔ ∀ i ∈ nanos src len.toNat, i + 1 < len ∧
      (len < i + sizeAt src i → len < total src
        ((nanos src len.toNat).filter fun k => tagAt src k ≤ tagAt src i)) := by
  have hupto : ∀ i, total src ((nanos src len.toNat).filter fun k => tagAt src k ≤ tagAt src i) =
      total src (sorted src len.toNat (tagAt src i + 1)) := by
    intro i
    rw [total_sorted]
    simp only [Nat.lt_succ_iff]
  simp only [hupto]
  constructor
  · intro hs i hi
    have hb := hs.bounds 257 (le_refl _)
    have hfirst : InBounds len.toNat (scan src len.toNat (-1) (len.toNat + 1) 0 ⟨dest, 0, 256⟩) := by
      have hall := hb
      unfold InBounds emmSortNanos at hall
      rw [sortLoop, Reads.all_bind] at hall
      exact hall.1
    have hstart := hfirst.starts (by omega) i hi
    refine ⟨by omega, fun hlong => ?_⟩
    by_contra hfit
    have := hb.fits (by decide) rfl hi (by omega) (by omega) (by omega)
    omega
  · intro hcond
    refine ⟨fun fuel hfuel => ?_, fun fuel _ => ?_, fun ns hns hlen fuel hfuel => ?_⟩
    · exact sortLoop_isSome (by decide) (by decide) (by omega) (Nat.zero_le _)
    · refine sortLoop_inBounds (fun i hi => ?_) (fun as i bs hsplit hlong => ?_) (by decide) rfl
        (Nat.zero_le _)
      · have := (hcond i hi).1
        omega
      · have hi : i ∈ nanos src len.toNat := hsplit ▸ List.mem_append_right _ List.mem_cons_self
        obtain ⟨hstart, hover⟩ := hcond i hi
        have := hover (by omega)
        exact ⟨offsets_last hsplit hlong, by omega⟩
    · refine ⟨_, _, emmSortNanos_sorts hns hlen hfuel, holds_put, ?_, Buckets.below_sorted, ?_⟩
      · exact Buckets.below_perm_self fun a _ => a.tag.isLt
      · intro tag
        have hkeep := @Buckets.filter_below _ (fun a : Nano => a.tag.toNat) ns _ _ tag.isLt
        simpa only [BitVec.toNat_inj] using hkeep

/-- A nano with tag 5, and the head of one with tag 1 whose byte is missing. -/
def cutNanos : ℕ → Byte := fun i => [5, 0, 1, 1].getD i 0

/-- The byte behind the length is copied. -/
theorem emmSortNanos_beyond : ¬ SortsNanos (fun _ => 0) cutNanos 4 := by
  intro hs
  have hb := hs.bounds 257 (le_refl _)
  have := hb.fits (i := 2) (by decide) rfl (by decide) (by decide) (by decide) (by decide)
  exact absurd this (by decide)

end NCam.Emm
