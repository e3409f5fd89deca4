import Mathlib.Data.List.Nodup

/-! Parents that own lists of children: every live child stands once in the list of one live
parent. -/
namespace NCam.Lib

/-- `kids p` is the list of a live parent `p`; `alive` are the live children. -/
structure Owns {π χ : Type*} (kids : π → Option (List χ)) (alive : χ → Prop) : Prop where
  nodup : ∀ p l, kids p = some l → l.Nodup
  disjoint : ∀ p q l m x, kids p = some l → kids q = some m → x ∈ l → x ∈ m → p = q
  alive_iff : ∀ x, alive x ↔ ∃ p l, kids p = some l ∧ x ∈ l

namespace Owns

variable {π χ : Type*} {kids : π → Option (List χ)} {alive : χ → Prop}

theorem congr (h : Owns kids alive) {kids' : π → Option (List χ)} {alive' : χ → Prop}
    (hk : kids' = kids) (ha : ∀ x, alive' x ↔ alive x) : Owns kids' alive' := by
  subst hk
  exact ⟨h.nodup, h.disjoint, fun x => (ha x).trans (h.alive_iff x)⟩

theorem alive_of_mem (h : Owns kids alive) {p : π} {l : List χ} (hp : kids p = some l) {x : χ}
    (hx : x ∈ l) : alive x :=
  (h.alive_iff x).mpr ⟨p, l, hp, hx⟩

variable [DecidableEq π]

private theorem update_cases {p q : π} {o : Option (List χ)} {m : List χ}
    (h : Function.update kids p o q = some m) : q = p ∧ o = some m ∨ q ≠ p ∧ kids q = some m := by
  by_cases hq : q = p
  · subst hq
    exact .inl ⟨rfl, by rwa [Function.update_self] at h⟩
  · exact .inr ⟨hq, by rwa [Function.update_of_ne hq] at h⟩

/-- A change of one parent's list, the parent included, together with the children's liveness. -/
theorem update (h : Owns kids alive) (p : π) (o : Option (List χ)) {alive' : χ → Prop}
    (hnodup : ∀ l, o = some l → l.Nodup)
    (hfree : ∀ l x, o = some l → x ∈ l → alive x → ∃ l₀, kids p = some l₀ ∧ x ∈ l₀)
    (halive : ∀ x, alive' x ↔
      (∃ l, o = some l ∧ x ∈ l) ∨ alive x ∧ ∀ l₀, kids p = some l₀ → x ∉ l₀) :
    Owns (Function.update kids p o) alive' := by
  refine ⟨fun q l hq => ?_, fun q r l m x hq hr hx hx' => ?_, fun x => ?_⟩
  · rcases update_cases hq with ⟨-, ho⟩ | ⟨-, hk⟩
    · exact hnodup l ho
    · exact h.nodup q l hk
  · rcases update_cases hq with ⟨rfl, ho⟩ | ⟨hqp, hk⟩ <;>
      rcases update_cases hr with ⟨rfl, ho'⟩ | ⟨hrp, hk'⟩
    · rfl
    · obtain ⟨l₀, hp, hm⟩ := hfree l x ho hx (h.alive_of_mem hk' hx')
      exact h.disjoint _ _ _ _ x hp hk' hm hx'
    · obtain ⟨l₀, hp, hm⟩ := hfree m x ho' hx' (h.alive_of_mem hk hx)
      exact h.disjoint _ _ _ _ x hk hp hx hm
    · exact h.disjoint _ _ _ _ x hk hk' hx hx'
  · rw [halive]
    constructor
    · rintro (⟨l, ho, hx⟩ | ⟨ha, hnot⟩)
      · exact ⟨p, l, by rw [Function.update_self, ho], hx⟩
      · obtain ⟨q, l, hq, hx⟩ := (h.alive_iff x).mp ha
        have hqp : q ≠ p := by
          rintro rfl
          exact hnot l hq hx
        exact ⟨q, l, by rw [Function.update_of_ne hqp, hq], hx⟩
    · rintro ⟨q, l, hq, hx⟩
      rcases update_cases hq with ⟨-, ho⟩ | ⟨hqp, hk⟩
      · exact .inl ⟨l, ho, hx⟩
      · exact .inr ⟨h.alive_of_mem hk hx, fun l₀ hp hx' => hqp (h.disjoint _ _ _ _ x hk hp hx hx')⟩

/-- A new parent without children. -/
theorem newParent (h : Owns kids alive) {p : π} (hp : kids p = none) :
    Owns (Function.update kids p (some [])) alive := by
  refine h.update p _ (fun l hl => ?_) (fun l x hl hx => ?_) fun x => ?_
  · obtain rfl := Option.some.inj hl
    exact List.nodup_nil
  · obtain rfl := Option.some.inj hl
    exact absurd hx List.not_mem_nil
  · simp [hp]

/-- A new child. -/
theorem newChild (h : Owns kids alive) {p : π} {l l' : List χ} (hp : kids p = some l) {x : χ}
    (hx : ¬ alive x) (hl : l'.Perm (x :: l)) :
    Owns (Function.update kids p (some l')) fun y => y = x ∨ alive y := by
  have hmem : ∀ y, y ∈ l' ↔ y = x ∨ y ∈ l := fun y => by rw [hl.mem_iff, List.mem_cons]
  refine h.update p _ (fun m hm => ?_) (fun m y hm hy ha => ?_) fun y => ?_
  · obtain rfl := Option.some.inj hm
    exact hl.nodup_iff.mpr (List.nodup_cons.mpr ⟨fun hc => hx (h.alive_of_mem hp hc), h.nodup p l hp⟩)
  · obtain rfl := Option.some.inj hm
    rcases (hmem y).mp hy with rfl | hy
    · exact absurd ha hx
    · exact ⟨l, hp, hy⟩
  · constructor
    · rintro (rfl | ha)
      · exact .inl ⟨l', rfl, (hmem y).mpr (.inl rfl)⟩
      · by_cases hy : y ∈ l
        · exact .inl ⟨l', rfl, (hmem y).mpr (.inr hy)⟩
        · exact .inr ⟨ha, fun l₀ hl₀ => Option.some.inj (hp.symm.trans hl₀) ▸ hy⟩
    · rintro (⟨m, hm, hy⟩ | ⟨ha, -⟩)
      · obtain rfl := Option.some.inj hm
        exact ((hmem y).mp hy).imp_right (h.alive_of_mem hp)
      · exact .inr ha

/-- A parent's children in another order. -/
theorem reorder (h : Owns kids alive) {p : π} {l l' : List χ} (hp : kids p = some l)
    (hl : l'.Perm l) : Owns (Function.update kids p (some l')) alive := by
  refine h.update p _ (fun m hm => ?_) (fun m y hm hy _ => ?_) fun y => ?_
  · obtain rfl := Option.some.inj hm
    exact hl.nodup_iff.mpr (h.nodup p l hp)
  · obtain rfl := Option.some.inj hm
    exact ⟨l, hp, hl.mem_iff.mp hy⟩
  · constructor
    · intro ha
      by_cases hy : y ∈ l
      · exact .inl ⟨l', rfl, hl.mem_iff.mpr hy⟩
      · exact .inr ⟨ha, fun l₀ hl₀ => Option.some.inj (hp.symm.trans hl₀) ▸ hy⟩
    · rintro (⟨m, hm, hy⟩ | ⟨ha, -⟩)
      · obtain rfl := Option.some.inj hm
        exact h.alive_of_mem hp (hl.mem_iff.mp hy)
      · exact ha

/-- One child goes. -/
theorem eraseChild [DecidableEq χ] (h : Owns kids alive) {p : π} {l : List χ} (hp : kids p = some l)
    {x : χ} (hx : x ∈ l) :
    Owns (Function.update kids p (some (l.erase x))) fun y => alive y ∧ y ≠ x := by
  have hnd := h.nodup p l hp
  refine h.update p _ (fun m hm => ?_) (fun m y hm hy _ => ?_) fun y => ?_
  · obtain rfl := Option.some.inj hm
    exact hnd.erase x
  · obtain rfl := Option.some.inj hm
    exact ⟨l, hp, List.mem_of_mem_erase hy⟩
  · constructor
    · rintro ⟨ha, hne⟩
      by_cases hy : y ∈ l
      · exact .inl ⟨_, rfl, hnd.mem_erase_iff.mpr ⟨hne, hy⟩⟩
      · exact .inr ⟨ha, fun l₀ hl₀ => Option.some.inj (hp.symm.trans hl₀) ▸ hy⟩
    · rintro (⟨m, hm, hy⟩ | ⟨ha, hnot⟩)
      · obtain rfl := Option.some.inj hm
        obtain ⟨hne, hmem⟩ := hnd.mem_erase_iff.mp hy
        exact ⟨h.alive_of_mem hp hmem, hne⟩
      · exact ⟨ha, fun hy => hnot l hp (hy ▸ hx)⟩

/-- A parent goes with all its children. -/
theorem removeParent (h : Owns kids alive) {p : π} {l : List χ} (hp : kids p = some l) :
    Owns (Function.update kids p none) fun y => alive y ∧ y ∉ l := by
  refine h.update p _ (fun _ hm => ?_) (fun _ _ hm => ?_) fun y => ?_
  · cases hm
  · cases hm
  · simp [hp]

end Owns

end NCam.Lib
