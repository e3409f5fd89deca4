import NCam.Ratelimit.Model

/-! What one call of the rate limiter does to the slots of a reader whose services have no limits of
their own. -/
namespace NCam.Ratelimit

open NCam.Lib

/-- What a slot is for. -/
structure Key where
  srvid : BitVec 16
  caid : BitVec 16
  provid : BitVec 32
  chid : BitVec 16
  deriving DecidableEq

def Ecmrl.key (s : Ecmrl) : Key := ⟨s.srvid, s.caid, s.provid, s.chid⟩

def EcmRequest.key (er : EcmRequest) : Key := ⟨er.srvid, er.caid, er.prid, er.chid⟩

/-- Some slot in use is for `k`. -/
def holds (slots : ℕ → Ecmrl) (k : Key) : Bool :=
  (List.range MAXECMRATELIMIT).any fun h => (slots h).used && (slots h).key = k

/-- All slots in use have the limit of the reader, and they are not more than it. -/
structure Tidy (ecms : ℤ) (slots : ℕ → Ecmrl) : Prop where
  limit : ∀ h < MAXECMRATELIMIT, (slots h).used = true → (slots h).ratelimitecm = ecms
  once : ∀ h < MAXECMRATELIMIT, (slots h).used = true → (slots h).once = false
  bounded : (totalEcms slots : ℤ) ≤ ecms

/-- The slots with those overtime released. -/
def released (actualtime : Timeb) (slots : ℕ → Ecmrl) (h : ℕ) : Ecmrl := releaseOvertime actualtime (slots h)

/-- Slot `h` goes to `f` with the contents `x`. -/
def moved (slots : ℕ → Ecmrl) (h f : ℕ) (x : Ecmrl) : ℕ → Ecmrl :=
  if f = h then Function.update slots h x
  else Function.update (Function.update slots f x) h x.release

variable {slots : ℕ → Ecmrl} {ecms : ℤ} {actualtime : Timeb} {h f : ℕ} {x : Ecmrl}

theorem free_eq (s : Ecmrl) : s.free = !s.used := (Bool.not_not s.free).symm

theorem used_release (s : Ecmrl) : s.release.used = false := rfl

/-- What is in use after the release was not touched. -/
theorem releaseOvertime_of_used {s : Ecmrl} (hs : (releaseOvertime actualtime s).used = true) :
    releaseOvertime actualtime s = s ∧ s.used = true := by
  unfold releaseOvertime at hs ⊢
  split_ifs at hs ⊢ with hfree hover
  · exact ⟨rfl, hs⟩
  · rw [used_release] at hs
    cases hs
  · exact ⟨rfl, hs⟩

theorem Tidy.released (ht : Tidy ecms slots) (actualtime : Timeb) :
    Tidy ecms (released actualtime slots) := by
  refine ⟨fun h hh hused => ?_, fun h hh hused => ?_, ?_⟩
  · obtain ⟨heq, hused'⟩ := releaseOvertime_of_used hused
    exact (congrArg Ecmrl.ratelimitecm heq).trans (ht.limit h hh hused')
  · obtain ⟨heq, hused'⟩ := releaseOvertime_of_used hused
    exact (congrArg Ecmrl.once heq).trans (ht.once h hh hused')
  · have hle : totalEcms (Ratelimit.released actualtime slots) ≤ totalEcms slots :=
      Slots.count_mono fun i _ hused => (releaseOvertime_of_used hused).2
    have := ht.bounded
    omega

section Limit

theorem maxEcms_le (slots : ℕ → Ecmrl) : maxEcms slots ≤ MAXECMRATELIMIT := by
  have hfold : ∀ (l : List ℕ) (m : ℤ), l.foldl (fun maxecms h =>
      if (slots h).free then maxecms
      else if (slots h).ratelimitecm < maxecms then (slots h).ratelimitecm else maxecms) m ≤ m := by
    intro l
    induction l with
    | nil => exact fun m => le_refl m
    | cons h l ih =>
      intro m
      rw [List.foldl_cons]
      refine (ih _).trans ?_
      split_ifs <;> omega
  exact hfold _ _

/-- Below the limit and the size of the table is below the most critical limit. -/
theorem Tidy.lt_maxEcms (ht : Tidy ecms slots) {m : ℤ} (hm : m < MAXECMRATELIMIT) (hlt : m < ecms) :
    m < maxEcms slots := by
  have hfold : ∀ (l : List ℕ) (acc : ℤ), (∀ h ∈ l, h < MAXECMRATELIMIT) → m < acc →
      m < l.foldl (fun maxecms h =>
        if (slots h).free then maxecms
        else if (slots h).ratelimitecm < maxecms then (slots h).ratelimitecm else maxecms) acc := by
    intro l
    induction l with
    | nil => exact fun acc _ hacc => hacc
    | cons h l ih =>
      intro acc hl hacc
      rw [List.foldl_cons]
      refine ih _ (fun k hk => hl k (List.mem_cons_of_mem h hk)) ?_
      split_ifs with hfree hlow
      · exact hacc
      · rw [free_eq, Bool.not_eq_true', Bool.not_eq_false] at hfree
        rw [ht.limit h (hl h List.mem_cons_self) hfree]
        exact hlt
      · exact hacc
  exact hfold _ _ (fun h hh => List.mem_range.mp hh) hm

end Limit

section Moved

/-- In use behind a move are the moved slot and those that stayed. -/
theorem moved_used {i : ℕ} (hused : (moved slots h f x i).used = true) :
    i = f ∧ moved slots h f x i = x ∨ i ≠ f ∧ i ≠ h ∧ moved slots h f x i = slots i := by
  unfold moved at hused ⊢
  split_ifs at hused ⊢ with hfh
  · subst hfh
    by_cases hi : i = f
    · subst hi
      exact Or.inl ⟨rfl, Function.update_self _ _ _⟩
    · exact Or.inr ⟨hi, hi, Function.update_of_ne hi _ _⟩
  · by_cases hih : i = h
    · subst hih
      rw [Function.update_self, used_release] at hused
      cases hused
    · rw [Function.update_of_ne hih]
      by_cases hi : i = f
      · subst hi
        exact Or.inl ⟨rfl, Function.update_self _ _ _⟩
      · exact Or.inr ⟨hi, hih, Function.update_of_ne hi _ _⟩

theorem count_moved (hh : h < MAXECMRATELIMIT) (hused : (slots h).used = true) (hx : x.used = true)
    (hf : f = h ∨ f < h ∧ (slots f).used = false) : totalEcms (moved slots h f x) = totalEcms slots := by
  unfold moved totalEcms
  rcases hf with rfl | ⟨hlt, hfree⟩
  · rw [if_pos rfl]
    have := @Slots.count_update _ Ecmrl.used slots _ _ x hh
    rw [hused, hx] at this
    omega
  · have hne : h ≠ f := by omega
    rw [if_neg (Ne.symm hne)]
    have hfirst := @Slots.count_update _ Ecmrl.used slots MAXECMRATELIMIT f x (by omega)
    have hsecond := @Slots.count_update _ Ecmrl.used (Function.update slots f x) _ _ x.release hh
    rw [hfree, hx] at hfirst
    rw [Function.update_of_ne hne, hused, used_release] at hsecond
    simp only [Bool.toNat_true, Bool.toNat_false] at hfirst hsecond
    omega

end Moved

section Effect

/-- The slot is in use for the service of the request; without a chid it is for every chid. -/
def serving (er : EcmRequest) (s : Ecmrl) : Bool :=
  s.used && (s.srvid = er.srvid ∧ s.caid = er.caid ∧ s.provid = er.prid ∧ (s.chid = 0 ∨ s.chid = er.chid))

/-- Another ECM of the same type is refused for a while. -/
def refuses (reader : Reader) (er : EcmRequest) (actualtime : Timeb) (s : Ecmrl) : Bool :=
  reader.ecmunique &&
    (compTimeb actualtime s.last < reader.ratelimittime ∧ s.ecmd5 ≠ er.ecmd5 ∧ er.kind = s.kindecm)

/-- The service of slot `h` can stay there or go to `f`. -/
structure Placed (slots : ℕ → Ecmrl) (h f : ℕ) : Prop where
  lt : h < MAXECMRATELIMIT
  used : (slots h).used = true
  place : f = h ∨ f < h ∧ (slots f).used = false

/-- What a call can make of the released slots, with its result. `x` is slot `h` with its flag set or
not. -/
inductive Effect (ecms : ℤ) (slots : ℕ → Ecmrl) (er : EcmRequest) (refused : Ecmrl → Bool)
    (readerMode : Bool) (record : Ecmrl) : Bool → (ℕ → Ecmrl) → Prop
  | refuse : Effect ecms slots er refused readerMode record false slots
  | room (hmode : readerMode = false) : Effect ecms slots er refused readerMode record true slots
  | placed {h f : ℕ} (hmode : readerMode = false) (hp : Placed slots h f) :
    Effect ecms slots er refused readerMode record true (moved slots h f (slots h))
  | kept {h f : ℕ} {x : Ecmrl} (hmode : readerMode = true)
    (hfirst : Slots.firstWhere (serving er) slots MAXECMRATELIMIT = some h) (hp : Placed slots h f)
    (hx : x.used = true) (hpass : refused (slots h) = false) :
    Effect ecms slots er refused readerMode record true (Function.update (moved slots h f x) f record)
  | taken {f : ℕ} (hmode : readerMode = true)
    (hnone : Slots.firstWhere (serving er) slots MAXECMRATELIMIT = none) (hf : f < MAXECMRATELIMIT)
    (hfree : (slots f).used = false) (hroom : (totalEcms slots : ℤ) + 1 ≤ ecms) :
    Effect ecms slots er refused readerMode record true (Function.update slots f record)

variable {γ : Type} {er : EcmRequest} {readerMode : Bool} {checkCache : EcmRequest → Option γ}
  {reader reader' : Reader} {registered : Timeb}

/-- A service keeps its slot or moves below it, where the limit allows every slot with only slots in use
below it. -/
theorem keepSlot_placed {maxecms : ℤ} (hh : h < MAXECMRATELIMIT) (hused : (slots h).used = true)
    (hlt : ∀ f ≤ h, (∀ i < f, (slots i).used = true) → (f : ℤ) < maxecms) :
    ∃ f, Placed slots h f ∧ (∀ i < f, (slots i).used = true) ∧
      (keepSlot (Function.update slots h x) maxecms h : _ × Space γ) =
        (moved slots h f x, .slot f) := by
  unfold keepSlot
  cases hfirst : Slots.firstWhere Ecmrl.free (Function.update slots h x) h with
  | none =>
    have hbelow : ∀ i < h, (slots i).used = true := by
      intro i hi
      have hi' := Slots.firstWhere_eq_none.mp hfirst i hi
      rwa [Function.update_of_ne (by omega), free_eq, Bool.not_eq_false'] at hi'
    dsimp only
    rw [if_pos (hlt h (Nat.le_refl h) hbelow)]
    exact ⟨h, ⟨hh, hused, Or.inl rfl⟩, hbelow, by rw [moved, if_pos rfl]⟩
  | some f =>
    obtain ⟨hfh, hfree, hbefore⟩ := Slots.firstWhere_eq_some hfirst
    have hne : f ≠ h := by omega
    rw [Function.update_of_ne hne, free_eq, Bool.not_eq_true'] at hfree
    have hbelow : ∀ i < f, (slots i).used = true := by
      intro i hi
      have hi' := hbefore i hi
      rwa [Function.update_of_ne (by omega), free_eq, Bool.not_eq_false'] at hi'
    dsimp only
    rw [if_pos (hlt f hfh.le hbelow), Function.update_self]
    refine ⟨f, ⟨hh, hused, Or.inr ⟨hfh, hfree⟩⟩, hbelow, ?_⟩
    rw [moved, if_neg hne, Function.update_comm hne.symm x x slots, Function.update_idem]

/-- A service in a slot stays within the limit. -/
theorem keepSlot_eq (ht : Tidy ecms slots) (hh : h < MAXECMRATELIMIT) (hused : (slots h).used = true) :
    ∃ f, Placed slots h f ∧
      (keepSlot (Function.update slots h x) (maxEcms slots) h : _ × Space γ) =
        (moved slots h f x, .slot f) := by
  suffices hlt : ∀ f ≤ h, (∀ i < f, (slots i).used = true) → (f : ℤ) < maxEcms slots by
    obtain ⟨f, hp, -, heq⟩ := @keepSlot_placed _ _ x γ _ hh hused hlt
    exact ⟨f, hp, heq⟩
  intro f hf hbelow
  have hall : Slots.count Ecmrl.used slots f = f := Slots.count_eq_self hbelow
  have hle : Slots.count Ecmrl.used slots f ≤ Slots.count Ecmrl.used slots h :=
    Slots.count_le_count hf
  have hsucc : Slots.count Ecmrl.used slots (h + 1) = Slots.count Ecmrl.used slots h + 1 := by
    rw [Slots.count, hused, Bool.toNat_true]
  have htotal : Slots.count Ecmrl.used slots (h + 1) ≤ totalEcms slots :=
    Slots.count_le_count (by omega)
  have hbound := ht.bounded
  exact ht.lt_maxEcms (by omega) (by omega)

theorem searchSlot_none (hserving : serving er (slots h) = false) (maxecms : ℤ) :
    searchSlot actualtime slots maxecms checkCache reader' er (limitsFor [] reader er) readerMode h =
      none := by
  unfold searchSlot
  dsimp only
  by_cases hfree : (slots h).free = true
  · rw [if_pos hfree]
  · have hserves : (slots h).serves (limitsFor [] reader er) er = false := by
      rw [serving, Ecmrl.used, Bool.eq_false_of_not_eq_true hfree] at hserving
      exact hserving
    rw [if_neg hfree, hserves]
    exact if_pos rfl

/-- The slot of the service: the request is refused with an answer, or the service keeps a slot. -/
theorem searchSlot_some (ht : Tidy ecms slots) (hh : h < MAXECMRATELIMIT)
    (hserving : serving er (slots h) = true) :
    (∃ a, readerMode = true ∧ searchSlot actualtime slots (maxEcms slots) checkCache reader' er
      (limitsFor [] reader er) readerMode h = some (slots, .answered a)) ∨
    ∃ f x, Placed slots h f ∧ x.used = true ∧ (readerMode = false → x = slots h) ∧
      (readerMode = true → refuses reader' er actualtime (slots h) = false) ∧
      searchSlot actualtime slots (maxEcms slots) checkCache reader' er (limitsFor [] reader er)
        readerMode h = some (moved slots h f x, .slot f) := by
  obtain ⟨hused, hserves⟩ := Bool.and_eq_true_iff.mp hserving
  have hfree : (slots h).free = false := by rw [free_eq, hused]; rfl
  have hserves' : (slots h).serves (limitsFor [] reader er) er = true := hserves
  have hkeep : ∃ f, Placed slots h f ∧
      (keepSlot slots (maxEcms slots) h : _ × Space γ) = (moved slots h f (slots h), .slot f) := by
    obtain ⟨f, hp, heq⟩ := @keepSlot_eq _ _ _ (slots h) γ ht hh hused
    rw [Function.update_eq_self] at heq
    exact ⟨f, hp, heq⟩
  have hstay : (readerMode = true → refuses reader' er actualtime (slots h) = false) →
      ∃ f x, Placed slots h f ∧ x.used = true ∧ (readerMode = false → x = slots h) ∧
      (readerMode = true → refuses reader' er actualtime (slots h) = false) ∧
      some (keepSlot slots (maxEcms slots) h : _ × Space γ) = some (moved slots h f x, .slot f) := by
    intro hpass
    obtain ⟨f, hp, heq⟩ := hkeep
    exact ⟨f, _, hp, hused, fun _ => rfl, hpass, congrArg some heq⟩
  unfold searchSlot
  dsimp only
  rw [if_neg (by rw [hfree]; exact Bool.false_ne_true), hserves', if_neg (by exact Bool.false_ne_true)]
  by_cases hunique : (readerMode && reader'.ecmunique) = true
  · obtain ⟨hmode, hon⟩ := Bool.and_eq_true_iff.mp hunique
    have hpass : (¬ (compTimeb actualtime (slots h).last < reader'.ratelimittime ∧
        (slots h).ecmd5 ≠ er.ecmd5 ∧ er.kind = (slots h).kindecm)) →
        readerMode = true → refuses reader' er actualtime (slots h) = false := by
      intro hno _
      rw [refuses, hon, Bool.true_and]
      exact decide_eq_false hno
    rw [if_pos hunique]
    split_ifs with hother hkind honce
    · refine Or.inl ?_
      cases checkCache { er with ecmd5 := (slots h).ecmd5 } with
      | none => exact ⟨_, hmode, rfl⟩
      | some ecm => exact ⟨_, hmode, rfl⟩
    · refine Or.inr ?_
      obtain ⟨f, hp, heq⟩ := @keepSlot_eq _ _ _ ({ slots h with once := true } : Ecmrl) γ ht hh hused
      exact ⟨f, { slots h with once := true }, hp, hused,
        fun hfalse => absurd (hfalse.symm.trans hmode) Bool.false_ne_true, hpass hother, congrArg some heq⟩
    · rw [ht.once h hh hused] at honce
      exact absurd rfl honce
    · exact Or.inr (hstay (hpass hother))
  · rw [if_neg hunique]
    refine Or.inr (hstay fun hmode => ?_)
    rw [hmode, Bool.true_and, Bool.not_eq_true] at hunique
    rw [refuses, hunique, Bool.false_and]

theorem searchSlot_eq_none_iff (ht : Tidy ecms slots) (hh : h < MAXECMRATELIMIT) :
    searchSlot actualtime slots (maxEcms slots) checkCache reader' er (limitsFor [] reader er)
      readerMode h = none ↔ serving er (slots h) = false := by
  refine ⟨fun hnone => ?_, fun hserving => searchSlot_none hserving _⟩
  by_contra hyes
  rcases searchSlot_some ht hh (Bool.eq_true_of_not_eq_false hyes) with
    ⟨a, -, heq⟩ | ⟨f, x, -, -, -, -, heq⟩
  · cases hnone.symm.trans heq
  · cases hnone.symm.trans heq

/-- What `ecm_ratelimit_check` does without limits for single services. -/
theorem check_effect (hlimit : 0 < reader.ratelimitecm)
    (ht : Tidy reader.ratelimitecm (released actualtime reader.rlecmh)) :
    ∃ rlecmh, (ecmRatelimitCheck [] checkCache reader er readerMode actualtime registered).reader =
        { reader with rlecmh } ∧
      Effect reader.ratelimitecm (released actualtime reader.rlecmh) er (refuses reader er actualtime)
        readerMode (register er registered (limitsFor [] reader er))
        (ecmRatelimitCheck [] checkCache reader er readerMode actualtime registered).ok rlecmh := by
  have hslots : (fun h => releaseOvertime actualtime (reader.rlecmh h)) =
      released actualtime reader.rlecmh := rfl
  unfold ecmRatelimitCheck ecmRatelimitFindspace
  rw [if_neg (by omega)]
  dsimp only
  rw [hslots]
  generalize released actualtime reader.rlecmh = slots at ht
  cases hsearch : (List.range MAXECMRATELIMIT).findSome? (searchSlot actualtime slots (maxEcms slots)
    checkCache { reader with rlecmh := slots } er (limitsFor [] reader er) readerMode) with
  | some result =>
    obtain ⟨h, hh, hresult, hbefore⟩ := Slots.findSome_range hsearch
    have hserving : serving er (slots h) = true := by
      by_contra hno
      cases hresult.symm.trans ((searchSlot_eq_none_iff ht hh).mpr (Bool.eq_false_of_not_eq_true hno))
    rcases searchSlot_some ht hh hserving with ⟨a, hmode, heq⟩ | ⟨f, x, hp, hx, hself, hpass, heq⟩
    · cases hresult.symm.trans heq
      exact ⟨slots, rfl, .refuse⟩
    · cases hresult.symm.trans heq
      dsimp only
      cases readerMode with
      | false =>
        rw [hself rfl]
        exact ⟨_, rfl, .placed rfl hp⟩
      | true =>
        have hfirst : Slots.firstWhere (serving er) slots MAXECMRATELIMIT = some h := by
          refine Slots.firstWhere_of_first hh hserving fun j hj => ?_
          exact (searchSlot_eq_none_iff ht (hj.trans hh)).mp (hbefore j hj)
        exact ⟨_, rfl, .kept rfl hfirst hp hx (hpass rfl)⟩
  | none =>
    have hnone : Slots.firstWhere (serving er) slots MAXECMRATELIMIT = none := by
      refine Slots.firstWhere_eq_none.mpr fun j hj => ?_
      have hj' := List.findSome?_eq_none_iff.mp hsearch j (List.mem_range.mpr hj)
      exact (searchSlot_eq_none_iff ht hj).mp hj'
    dsimp only
    by_cases hfull : (totalEcms slots : ℤ) + 1 > maxEcms slots ∨
        (totalEcms slots : ℤ) + 1 > (limitsFor [] reader er).ratelimitecm
    · rw [if_pos hfull]
      exact ⟨slots, rfl, .refuse⟩
    · rw [if_neg hfull]
      obtain ⟨hmax, hroom⟩ := not_or.mp hfull
      have hle := maxEcms_le slots
      obtain ⟨i, hi, hunused⟩ := @Slots.exists_false _ Ecmrl.used slots MAXECMRATELIMIT
        (maxEcms slots).toNat (by omega) (by change totalEcms slots < _; omega)
      cases hfree : Slots.firstWhere Ecmrl.free slots (maxEcms slots).toNat with
      | none =>
        have hi' := Slots.firstWhere_eq_none.mp hfree i hi
        rw [free_eq, hunused] at hi'
        cases hi'
      | some f =>
        obtain ⟨hf, hff, -⟩ := Slots.firstWhere_eq_some hfree
        rw [free_eq, Bool.not_eq_true'] at hff
        cases readerMode with
        | false => exact ⟨slots, rfl, .room rfl⟩
        | true =>
          refine ⟨_, rfl, .taken rfl hnone (by omega) hff ?_⟩
          change ¬ (totalEcms slots : ℤ) + 1 > reader.ratelimitecm at hroom
          omega

end Effect

end NCam.Ratelimit
