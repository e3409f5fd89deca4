import NCam.Lib.Memory
import Mathlib.Logic.Function.Iterate

/-! Partial steps that other steps take back, in sequences and loops, and for single cells of an
array. -/
namespace NCam.Lib

variable {σ κ α : Type*}

/-- `g` takes back every step of `f`. -/
def Undoes (f g : σ → Option σ) : Prop := ∀ s t, f s = some t → g t = some s

namespace Undoes

variable {f f' g g' : σ → Option σ}

theorem bind (h : Undoes f g) (h' : Undoes f' g') :
    Undoes (fun s => (f s).bind f') fun t => (g' t).bind g := by
  intro s t hst
  obtain ⟨u, hsu, hut⟩ := Option.bind_eq_some_iff.mp hst
  exact Option.bind_eq_some_iff.mpr ⟨u, h' u t hut, h s u hsu⟩

/-- A loop is taken back by the loop in the reverse order. -/
theorem foldlM {f g : σ → α → Option σ} {l : List α}
    (h : ∀ a ∈ l, Undoes (fun s => f s a) fun s => g s a) :
    Undoes (fun s => l.foldlM f s) fun t => l.reverse.foldlM g t := by
  induction l with
  | nil => exact fun s t hst => congrArg some (Option.some.inj hst).symm
  | cons a l ih =>
    have hrest := ih fun b hb => h b (List.mem_cons_of_mem a hb)
    intro s t hst
    change (a :: l).reverse.foldlM g t = some s
    rw [List.reverse_cons, List.foldlM_append]
    obtain ⟨u, hsu, hut⟩ := Option.bind_eq_some_iff.mp hst
    refine Option.bind_eq_some_iff.mpr ⟨u, hrest u t hut, ?_⟩
    rw [List.foldlM_cons, show g u a = some s from h a List.mem_cons_self s u hsu]
    rfl

end Undoes

/-- A loop whose steps all succeed. -/
theorem isSome_foldlM {f : σ → α → Option σ} {l : List α} (h : ∀ s, ∀ a ∈ l, (f s a).isSome) (s : σ) :
    (l.foldlM f s).isSome := by
  induction l generalizing s with
  | nil => rfl
  | cons a l ih =>
    obtain ⟨t, ht⟩ := Option.isSome_iff_exists.mp (h s a List.mem_cons_self)
    rw [List.foldlM_cons, ht]
    exact ih (fun s b hb => h s b (List.mem_cons_of_mem a hb)) t

/-- A part of the state that every step of a loop changes in the same way. -/
theorem foldlM_part {f : σ → α → Option σ} {l : List α} {part : σ → κ} {r : κ → κ}
    (h : ∀ s t a, f s a = some t → part t = r (part s)) {s t : σ} (hst : l.foldlM f s = some t) :
    part t = r^[l.length] (part s) := by
  induction l generalizing s with
  | nil => exact congrArg part (Option.some.inj hst).symm
  | cons a l ih =>
    obtain ⟨u, hsu, hut⟩ := Option.bind_eq_some_iff.mp hst
    rw [ih hut, h s u a hsu, List.length_cons, Function.iterate_succ_apply]

/-- A cell mixed with another one can be unmixed. -/
theorem undoes_mixWithin {β : Type*} (size : ℕ) {src dst : ℕ} (hne : src ≠ dst) {f g : β → β → β}
    (h : ∀ x y, g x (f x y) = y) :
    Undoes (fun buf : ℕ → β => Memory.mixWithin size buf src dst f)
      fun buf => Memory.mixWithin size buf src dst g := by
  intro buf buf' hbuf
  obtain ⟨hsrc, hdst, rfl⟩ := Memory.mixWithin_eq_some hbuf
  change Memory.mixWithin size _ src dst g = some buf
  rw [Memory.mixWithin_of_lt hsrc hdst]
  congr 1
  funext i
  by_cases hi : i = dst
  · rw [if_pos hi, if_neg hne, if_pos rfl, h, hi]
  · rw [if_neg hi, if_neg hi]

end NCam.Lib
