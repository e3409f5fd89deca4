import Mathlib.Data.List.GetD
import Mathlib.Data.List.Basic

/-! Runs of cells in a memory: storing them, reading them back, and the assertion that a run stands at an address;
and records behind each other, read one after another by a reader that returns the next offset. -/
namespace NCam.Lib.Memory

variable {β : Type*}

/-- Stores `bs` from `o` on. -/
def put (buf : ℕ → β) (o : ℕ) (bs : List β) : ℕ → β :=
  fun i => if h : o ≤ i ∧ i - o < bs.length then bs[i - o] else buf i

/-- The `n` cells from `o` on. -/
def slice (buf : ℕ → β) (o n : ℕ) : List β := (List.range n).map fun i => buf (o + i)

/-- `bs` stands at `o`. -/
def Holds (buf : ℕ → β) (o : ℕ) (bs : List β) : Prop := slice buf o bs.length = bs

instance [DecidableEq β] (buf : ℕ → β) (o : ℕ) (bs : List β) : Decidable (Holds buf o bs) :=
  inferInstanceAs (Decidable (_ = _))

variable {buf : ℕ → β} {o p n : ℕ} {as bs : List β}

@[simp] theorem length_slice : (slice buf o n).length = n := by simp [slice]

@[simp] theorem slice_zero : slice buf o 0 = [] := rfl

theorem slice_succ : slice buf o (n + 1) = buf o :: slice buf (o + 1) n := by
  simp only [slice, List.range_succ_eq_map, List.map_cons, List.map_map, Nat.add_zero,
    List.cons.injEq, true_and]
  apply List.map_congr_left
  intro i _
  simp only [Function.comp_apply]
  congr 1
  omega

theorem slice_add {m : ℕ} : slice buf o (m + n) = slice buf o m ++ slice buf (o + m) n := by
  simp only [slice, List.range_add, List.map_append, List.map_map, Function.comp_def, Nat.add_assoc]

theorem put_of_lt {i : ℕ} (h : i < o) : put buf o bs i = buf i := by
  have hout : ¬ (o ≤ i ∧ i - o < bs.length) := by omega
  simp [put, hout]

theorem put_of_le {i : ℕ} (h : o + bs.length ≤ i) : put buf o bs i = buf i := by
  have hout : ¬ (o ≤ i ∧ i - o < bs.length) := by omega
  simp [put, hout]

theorem put_at {i : ℕ} (h : i < bs.length) : put buf o bs (o + i) = bs[i] := by
  have hin : o ≤ o + i ∧ o + i - o < bs.length := by omega
  simp [put, hin, h]

theorem put_getD {k : ℕ} : put buf o bs (o + k) = bs.getD k (buf (o + k)) := by
  rcases Nat.lt_or_ge k bs.length with hlt | hge
  · rw [put_at hlt, List.getD_eq_getElem _ _ hlt]
  · rw [put_of_le (by omega), List.getD_eq_default _ _ hge]

@[simp] theorem put_self {b : β} : put buf o [b] o = b := by simp [put]

@[simp] theorem put_nil : put buf o [] = buf := by
  funext i
  simp [put]

theorem put_put_append : put (put buf o as) (o + as.length) bs = put buf o (as ++ bs) := by
  funext i
  rcases Nat.lt_or_ge i o with hlt | hge
  · rw [put_of_lt (by omega), put_of_lt hlt, put_of_lt hlt]
  · obtain ⟨j, rfl⟩ := Nat.exists_eq_add_of_le hge
    rcases Nat.lt_or_ge j as.length with ha | ha
    · rw [put_of_lt (by omega), put_at ha, put_at (by rw [List.length_append]; omega),
        List.getElem_append_left ha]
    · obtain ⟨k, rfl⟩ := Nat.exists_eq_add_of_le ha
      rcases Nat.lt_or_ge k bs.length with hb | hb
      · rw [← Nat.add_assoc, put_at hb, Nat.add_assoc,
          put_at (by rw [List.length_append]; omega), List.getElem_append_right (by omega)]
        simp
      · rw [put_of_le (by omega), put_of_le (by omega), put_of_le (by rw [List.length_append]; omega)]

theorem put_put_of_eq (h : p = o + as.length) : put (put buf o as) p bs = put buf o (as ++ bs) := by
  rw [h, put_put_append]

/-- A store over all cells of another one. -/
theorem put_put_cover (h : as.length ≤ bs.length) : put (put buf o as) o bs = put buf o bs := by
  funext i
  rcases Nat.lt_or_ge i o with hlt | hge
  · rw [put_of_lt hlt, put_of_lt hlt, put_of_lt hlt]
  · rcases Nat.lt_or_ge i (o + bs.length) with hin | hout
    · obtain ⟨j, rfl⟩ := Nat.exists_eq_add_of_le hge
      rw [put_at (by omega), put_at (by omega)]
    · rw [put_of_le hout, put_of_le hout, put_of_le (by omega)]

/-- A store in a memory whose addresses are moved by `k`. -/
theorem put_moved {k : ℕ} (ho : 0 < o) :
    put (fun i => buf (i - k)) (o + k) bs = fun i => put buf o bs (i - k) := by
  funext i
  rcases Nat.lt_or_ge i (o + k) with hlt | hge
  · rw [put_of_lt hlt, put_of_lt (by omega)]
  · obtain ⟨j, rfl⟩ := Nat.exists_eq_add_of_le hge
    have hmoved : o + k + j - k = o + j := by omega
    rw [hmoved, put_getD, put_getD, hmoved]

/-- A cell that no step of a loop writes stays. -/
theorem foldl_cell {γ : Type*} {f : (ℕ → β) → γ → ℕ → β} {l : List γ} {i : ℕ}
    (h : ∀ buf, ∀ a ∈ l, f buf a i = buf i) (buf : ℕ → β) : l.foldl f buf i = buf i := by
  induction l generalizing buf with
  | nil => rfl
  | cons a l ih =>
    rw [List.foldl_cons, ih fun buf b hb => h buf b (List.mem_cons_of_mem a hb)]
    exact h buf a List.mem_cons_self

section Holds

theorem Holds.slice_eq (h : Holds buf o bs) (hn : n = bs.length) : slice buf o n = bs := by
  rw [hn]
  exact h

theorem holds_iff : Holds buf o bs ↔ ∀ i (h : i < bs.length), buf (o + i) = bs[i] := by
  constructor
  · intro h i hi
    have hget := List.getElem_of_eq h (i := i) (by simpa using hi)
    simpa [slice] using hget
  · intro h
    apply List.ext_getElem (by simp)
    intro i _ hi
    simpa [slice] using h i hi

theorem Holds.getElem (h : Holds buf o bs) {i : ℕ} (hi : i < bs.length) : buf (o + i) = bs[i] :=
  holds_iff.mp h i hi

@[simp] theorem holds_nil : Holds buf o [] := rfl

theorem holds_append : Holds buf o (as ++ bs) ↔ Holds buf o as ∧ Holds buf (o + as.length) bs := by
  unfold Holds
  rw [List.length_append, slice_add]
  constructor
  · intro h
    exact List.append_inj h (by simp)
  · rintro ⟨ha, hb⟩
    rw [ha, hb]

theorem holds_cons {b : β} : Holds buf o (b :: bs) ↔ buf o = b ∧ Holds buf (o + 1) bs := by
  unfold Holds
  rw [List.length_cons, slice_succ, List.cons.injEq]

theorem holds_put : Holds (put buf o bs) o bs :=
  holds_iff.mpr fun _ hi => put_at hi

/-- Storing what is there changes nothing. -/
theorem put_eq_self (h : Holds buf o bs) : Memory.put buf o bs = buf := by
  funext i
  rcases Nat.lt_or_ge i o with hlt | hge
  · exact put_of_lt hlt
  · obtain ⟨j, rfl⟩ := Nat.exists_eq_add_of_le hge
    rcases Nat.lt_or_ge j bs.length with hj | hj
    · rw [put_at hj, h.getElem hj]
    · exact put_of_le (by omega)

/-- A store leaves the runs beside it. -/
theorem Holds.put (h : Holds buf o as) (hdis : o + as.length ≤ p ∨ p + bs.length ≤ o) :
    Holds (put buf p bs) o as := by
  rw [holds_iff] at h ⊢
  intro i hi
  rw [← h i hi]
  rcases hdis with hlo | hhi
  · exact put_of_lt (by omega)
  · exact put_of_le (by omega)

/-- Records of one width behind each other. -/
theorem Holds.getElem_flatMap {γ : Type*} {f : γ → List β} {w : ℕ} (hw : ∀ x, (f x).length = w)
    {xs : List γ} (h : Holds buf o (xs.flatMap f)) {i : ℕ} (hi : i < xs.length) :
    Holds buf (o + w * i) (f xs[i]) := by
  induction xs generalizing o i with
  | nil => simp at hi
  | cons x xs ih =>
    rw [List.flatMap_cons, holds_append, hw] at h
    cases i with
    | zero => exact h.1
    | succ i =>
      have hrest := ih h.2 (i := i) (by simpa using hi)
      rw [Nat.add_assoc, Nat.add_comm w, ← Nat.mul_succ] at hrest
      exact hrest

end Holds

section Within

/-- `put` into an array of `size` cells; `none` if a cell would be outside. -/
def putWithin (size : ℕ) (buf : ℕ → β) (o : ℕ) (bs : List β) : Option (ℕ → β) :=
  if o + bs.length ≤ size then some (put buf o bs) else none

/-- `slice` of an array of `size` cells. -/
def sliceWithin (size : ℕ) (buf : ℕ → β) (o n : ℕ) : Option (List β) :=
  if o + n ≤ size then some (slice buf o n) else none

/-- Several stores one after the other. -/
def putAll (size : ℕ) (buf : ℕ → β) (ws : List (ℕ × List β)) : Option (ℕ → β) :=
  ws.foldlM (fun buf w => putWithin size buf w.1 w.2) buf

/-- One cell of an array of `size` cells. -/
def getWithin (size : ℕ) (buf : ℕ → β) (i : ℕ) : Option β := if i < size then some (buf i) else none

/-- One cell of an array of `size` cells, written from itself and another one. -/
def mixWithin (size : ℕ) (buf : ℕ → β) (src dst : ℕ) (f : β → β → β) : Option (ℕ → β) := do
  let x ← getWithin size buf src
  let y ← getWithin size buf dst
  pure fun i => if i = dst then f x y else buf i

variable {size : ℕ}

theorem getWithin_of_lt {i : ℕ} (h : i < size) : getWithin size buf i = some (buf i) := if_pos h

theorem getWithin_eq_some {i : ℕ} {x : β} (h : getWithin size buf i = some x) : i < size ∧ buf i = x := by
  unfold getWithin at h
  by_cases hi : i < size
  · rw [if_pos hi] at h
    exact ⟨hi, Option.some.inj h⟩
  · rw [if_neg hi] at h
    cases h

theorem mixWithin_of_lt {src dst : ℕ} (hsrc : src < size) (hdst : dst < size) (f : β → β → β) :
    mixWithin size buf src dst f = some fun i => if i = dst then f (buf src) (buf dst) else buf i := by
  rw [mixWithin, getWithin_of_lt hsrc, getWithin_of_lt hdst]
  rfl

theorem mixWithin_eq_some {src dst : ℕ} {f : β → β → β} {buf' : ℕ → β}
    (h : mixWithin size buf src dst f = some buf') :
    src < size ∧ dst < size ∧ buf' = fun i => if i = dst then f (buf src) (buf dst) else buf i := by
  obtain ⟨x, hx, hrest⟩ := Option.bind_eq_some_iff.mp h
  obtain ⟨y, hy, hbuf⟩ := Option.bind_eq_some_iff.mp hrest
  obtain ⟨hsrc, rfl⟩ := getWithin_eq_some hx
  obtain ⟨hdst, rfl⟩ := getWithin_eq_some hy
  exact ⟨hsrc, hdst, (Option.some.inj hbuf).symm⟩

theorem putWithin_of_le (h : o + bs.length ≤ size) : putWithin size buf o bs = some (put buf o bs) :=
  if_pos h

theorem sliceWithin_of_le (h : o + n ≤ size) : sliceWithin size buf o n = some (slice buf o n) :=
  if_pos h

theorem putWithin_eq_none : putWithin size buf o bs = none ↔ size < o + bs.length := by
  unfold putWithin
  by_cases h : o + bs.length ≤ size
  · rw [if_pos h]
    exact iff_of_false (Option.some_ne_none _) (by omega)
  · rw [if_neg h]
    exact iff_of_true rfl (by omega)

theorem putAll_of_le {ws : List (ℕ × List β)} (h : ∀ w ∈ ws, w.1 + w.2.length ≤ size) :
    putAll size buf ws = some (ws.foldl (fun buf w => put buf w.1 w.2) buf) := by
  induction ws generalizing buf with
  | nil => rfl
  | cons w ws ih =>
    unfold putAll at ih ⊢
    rw [List.foldlM_cons, putWithin_of_le (h w List.mem_cons_self), List.foldl_cons]
    exact ih fun v hv => h v (List.mem_cons_of_mem w hv)

theorem putAll_eq_none {ws : List (ℕ × List β)} {w : ℕ × List β} (hw : w ∈ ws)
    (h : size < w.1 + w.2.length) : putAll size buf ws = none := by
  induction ws generalizing buf with
  | nil => cases hw
  | cons v ws ih =>
    unfold putAll at ih ⊢
    rw [List.foldlM_cons]
    rcases List.mem_cons.mp hw with rfl | hw
    · rw [putWithin_eq_none.mpr h]
      rfl
    · cases putWithin size buf v.1 v.2 with
      | none => rfl
      | some buf' => exact ih hw

theorem Holds.congr {buf' : ℕ → β} (h : Holds buf o bs) (heq : ∀ i < bs.length, buf' (o + i) = buf (o + i)) :
    Holds buf' o bs := by
  refine holds_iff.mpr fun i hi => ?_
  rw [heq i hi]
  exact h.getElem hi

/-- Stores besides a run keep it. -/
theorem Holds.foldl_put {ws : List (ℕ × List β)} (h : Holds buf o bs)
    (hdis : ∀ w ∈ ws, o + bs.length ≤ w.1 ∨ w.1 + w.2.length ≤ o) :
    Holds (ws.foldl (fun buf w => Memory.put buf w.1 w.2) buf) o bs := by
  induction ws generalizing buf with
  | nil => exact h
  | cons w ws ih =>
    rw [List.foldl_cons]
    exact ih (h.put (hdis w List.mem_cons_self)) fun v hv => hdis v (List.mem_cons_of_mem w hv)

/-- The store at the place `k` of a list stays if the later ones are behind it. -/
theorem holds_foldl_put {ws : List (ℕ × List β)} {k : ℕ} (hk : ws.drop k = (o, bs) :: ws.drop (k + 1))
    (hdis : ∀ w ∈ ws.drop (k + 1), o + bs.length ≤ w.1) :
    Holds (ws.foldl (fun buf w => Memory.put buf w.1 w.2) buf) o bs := by
  rw [← List.take_append_drop k ws, hk, List.foldl_append, List.foldl_cons]
  exact holds_put.foldl_put fun w hw => .inl (hdis w hw)

/-- A loop that stores records of one width stays inside exactly if they all fit. -/
theorem foldlM_putWithin {w : ℕ} {f : ℕ → List β} (hw : ∀ j, (f j).length = w) (hfit : o + w * n ≤ size) :
    (List.range n).foldlM (fun buf j => putWithin size buf (o + w * j) (f j)) buf =
      some (put buf o ((List.range n).flatMap f)) := by
  have hlen : ∀ n, ((List.range n).flatMap f).length = w * n := by
    intro n
    induction n with
    | zero => rfl
    | succ n ih =>
      rw [List.range_succ, List.flatMap_append, List.length_append, ih, List.flatMap_singleton, hw,
        Nat.mul_succ]
  induction n with
  | zero => simp
  | succ n ih =>
    rw [Nat.mul_succ] at hfit
    rw [List.range_succ, List.foldlM_append, ih (by omega)]
    simp only [List.foldlM_cons, List.foldlM_nil, Option.bind_eq_bind, Option.bind_some]
    rw [putWithin_of_le (by rw [hw]; omega), Option.bind_some, put_put_of_eq (by rw [hlen]),
      List.flatMap_append, List.flatMap_singleton]
    rfl

theorem foldlM_putWithin_none {w : ℕ} {f : ℕ → List β} (hw : ∀ j, (f j).length = w) (ho : o ≤ size)
    (hfit : size < o + w * n) :
    (List.range n).foldlM (fun buf j => putWithin size buf (o + w * j) (f j)) buf = none := by
  cases n with
  | zero => omega
  | succ n =>
    rw [Nat.mul_succ] at hfit
    rw [List.range_succ, List.foldlM_append]
    cases (List.range n).foldlM (fun buf j => putWithin size buf (o + w * j) (f j)) buf with
    | none => rfl
    | some b =>
      simp only [List.foldlM_cons, Option.bind_eq_bind, Option.bind_some]
      rw [putWithin_eq_none.mpr (by rw [hw]; omega)]
      rfl

end Within

theorem slice_eq_slice {buf' : ℕ → β} {p : ℕ} :
    slice buf o n = slice buf' p n ↔ ∀ i < n, buf (o + i) = buf' (p + i) := by
  unfold slice
  rw [List.map_inj_left]
  constructor
  · intro h i hi
    exact h i (List.mem_range.mpr hi)
  · intro h i hi
    exact h i (List.mem_range.mp hi)

theorem slice_congr {buf' : ℕ → β} {p : ℕ} (h : ∀ i < n, buf (o + i) = buf' (p + i)) :
    slice buf o n = slice buf' p n :=
  slice_eq_slice.mpr h

theorem length_flatMap_of_width {γ : Type*} {f : γ → List β} {w : ℕ} (hw : ∀ x, (f x).length = w)
    (xs : List γ) : (xs.flatMap f).length = w * xs.length := by
  induction xs with
  | nil => rfl
  | cons x xs ih =>
    rw [List.flatMap_cons, List.length_append, hw, ih, List.length_cons, Nat.mul_succ, Nat.add_comm]

end NCam.Lib.Memory

namespace NCam.Lib.Records

open NCam.Lib.Memory

variable {α β γ : Type*}

/-- The `n` records from `o` on. -/
def records (read : ℕ → α × ℕ) : ℕ → ℕ → List α
  | 0, _ => []
  | n + 1, o => (read o).1 :: records read n (read o).2

variable {read : ℕ → α × ℕ} {buf : ℕ → β} {f : γ → List β} {g : γ → α}

/-- What holds of every record read holds of all of them. -/
theorem forall_records {p : α → Prop} (h : ∀ o, p (read o).1) (n o : ℕ) :
    ∀ x ∈ records read n o, p x := by
  induction n generalizing o with
  | zero => simp [records]
  | succ n ih => simpa [records, h o] using ih (read o).2

/-- Written records are read back. -/
theorem records_eq {xs : List γ} {o : ℕ}
    (h : ∀ x ∈ xs, ∀ o, Holds buf o (f x) → read o = (g x, o + (f x).length))
    (hbuf : Holds buf o (xs.flatMap f)) : records read xs.length o = xs.map g := by
  induction xs generalizing o with
  | nil => rfl
  | cons x xs ih =>
    rw [List.flatMap_cons, holds_append] at hbuf
    have hx := h x List.mem_cons_self o hbuf.1
    rw [List.length_cons, records, hx, List.map_cons]
    congr 1
    exact ih (fun y hy => h y (List.mem_cons_of_mem x hy)) hbuf.2

end NCam.Lib.Records
