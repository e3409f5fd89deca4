import NCam.Ratelimit.Slots

/-! Runs of the rate limiter: the slots in use stay within the limit, and what it takes that a service
has one slot and gets one change of its ECM type. -/
namespace NCam.Ratelimit

open NCam.Lib

/-- Different slots in use are for different services. -/
def Single (slots : ℕ → Ecmrl) : Prop :=
  ∀ i < MAXECMRATELIMIT, ∀ j < MAXECMRATELIMIT, (slots i).used = true → (slots j).used = true →
    (slots i).key = (slots j).key → i = j

/-- A call of `ecm_ratelimit_check`, with the time of its search and that of its registration. -/
structure Call where
  er : EcmRequest
  readerMode : Bool
  checkCache : EcmRequest → Option Unit
  actualtime : Timeb
  registered : Timeb

/-- The reader, the time of the last call, and for each service the type changes within `ratelimittime`
that were let through since it took its slot. -/
structure Limiter where
  reader : Reader
  clock : Timeb
  changes : Key → ℕ

namespace Limiter

/-- No services have limits of their own. -/
def check (s : Limiter) (a : Call) : Outcome Unit :=
  ecmRatelimitCheck [] a.checkCache s.reader a.er a.readerMode a.actualtime a.registered

/-- The slots when the search of the call begins. -/
def slots (s : Limiter) (a : Call) : ℕ → Ecmrl := released a.actualtime s.reader.rlecmh

/-- The service of the request has a slot with another ECM type, not older than `ratelimittime`. -/
def typeChange (s : Limiter) (a : Call) : Bool :=
  (List.range MAXECMRATELIMIT).any fun h =>
    let slot := s.slots a h
    slot.used && slot.key = a.er.key && a.er.kind ≠ slot.kindecm &&
      compTimeb a.actualtime slot.last ≤ s.reader.ratelimittime

/-- The changes after a call with this outcome. -/
def count (s : Limiter) (a : Call) (o : Outcome Unit) (k : Key) : ℕ :=
  if !holds o.reader.rlecmh k then 0
  else if k = a.er.key ∧ a.readerMode = true ∧ o.ok = true then
    if holds (s.slots a) k then s.changes k + (s.typeChange a).toNat else 0
  else s.changes k

/-- The lookup stops at a slot without a chid, and does not refuse the request, although the service has a
slot of its own. -/
def shadowed (s : Limiter) (a : Call) : Bool :=
  (Slots.firstWhere (serving a.er) (s.slots a) MAXECMRATELIMIT).any fun h =>
    (s.slots a h).key ≠ a.er.key && !refuses s.reader a.er a.actualtime (s.slots a h) &&
      holds (s.slots a) a.er.key

/-- Time does not go back. -/
def Later (s : Limiter) (a : Call) : Prop :=
  0 ≤ a.actualtime.time ∧ 0 ≤ compTimeb a.actualtime s.clock ∧
    0 ≤ a.registered.time ∧ 0 ≤ compTimeb a.registered a.actualtime

instance (s : Limiter) (a : Call) : Decidable (s.Later a) := by
  unfold Later
  infer_instance

/-- A reader with a rate limit and empty slots. -/
def Fresh (s : Limiter) : Prop :=
  0 < s.reader.ratelimitecm ∧ (∀ h, (s.reader.rlecmh h).free = true) ∧ s.changes = fun _ => 0

def system : System Limiter Call where
  init := Fresh
  next s a :=
    if s.Later a then
      let o := s.check a
      some ⟨o.reader, a.registered, s.count a o⟩
    else none

/-- The steps on which the limiter does not go wrong: a request that is to be registered is not shadowed,
and it is not a second type change. -/
def Kept (s : Limiter) (a : Call) : Prop :=
  a.readerMode = true →
    s.shadowed a = false ∧ (s.typeChange a = true → s.changes a.er.key = 0)

instance (s : Limiter) (a : Call) : Decidable (s.Kept a) := by
  unfold Kept
  infer_instance

def OneSlot (s : Limiter) : Prop := Single s.reader.rlecmh

def Once (s : Limiter) : Prop := ∀ k, s.changes k ≤ 1

end Limiter

section Slots

variable {ecms : ℤ} {slots rlecmh : ℕ → Ecmrl} {er : EcmRequest} {refused : Ecmrl → Bool}
  {readerMode ok : Bool} {record : Ecmrl}

theorem holds_iff {k : Key} : holds slots k = true ↔
    ∃ h < MAXECMRATELIMIT, (slots h).used = true ∧ (slots h).key = k := by
  unfold holds
  simp only [List.any_eq_true, List.mem_range, Bool.and_eq_true, decide_eq_true_eq]

/-- In use afterwards are the new record and slots that stayed. -/
private theorem update_moved_used {h f i : ℕ} {x : Ecmrl}
    (hused : (Function.update (moved slots h f x) f record i).used = true) :
    i = f ∧ Function.update (moved slots h f x) f record i = record ∨
      i ≠ f ∧ i ≠ h ∧ Function.update (moved slots h f x) f record i = slots i := by
  by_cases hi : i = f
  · subst hi
    exact Or.inl ⟨rfl, Function.update_self _ _ _⟩
  · rw [Function.update_of_ne hi] at hused ⊢
    rcases moved_used hused with ⟨hif, -⟩ | ⟨hif, hih, heq⟩
    · exact absurd hif hi
    · exact Or.inr ⟨hi, hih, heq⟩

/-- Every slot in use behind a call is the new record or was in use before. -/
theorem Effect.used (he : Effect ecms slots er refused readerMode record ok rlecmh) {i : ℕ}
    (hi : i < MAXECMRATELIMIT) (hused : (rlecmh i).used = true) :
    rlecmh i = record ∨ ∃ j < MAXECMRATELIMIT, (slots j).used = true ∧ rlecmh i = slots j := by
  cases he with
  | refuse => exact Or.inr ⟨i, hi, hused, rfl⟩
  | room => exact Or.inr ⟨i, hi, hused, rfl⟩
  | placed hmode hp =>
    rcases moved_used hused with ⟨-, heq⟩ | ⟨-, -, heq⟩
    · exact Or.inr ⟨_, hp.lt, hp.used, heq⟩
    · exact Or.inr ⟨i, hi, heq ▸ hused, heq⟩
  | kept hmode hfirst hp =>
    rcases update_moved_used hused with ⟨-, heq⟩ | ⟨-, -, heq⟩
    · exact Or.inl heq
    · exact Or.inr ⟨i, hi, heq ▸ hused, heq⟩
  | @taken f hmode hnone hf hfree hroom =>
    by_cases hif : i = f
    · subst hif
      exact Or.inl (Function.update_self _ _ _)
    · have heq : Function.update slots f record i = slots i := Function.update_of_ne hif _ _
      exact Or.inr ⟨i, hi, heq ▸ hused, heq⟩

theorem Effect.bounded (he : Effect ecms slots er refused readerMode record ok rlecmh)
    (hrecord : record.used = true) (hb : (totalEcms slots : ℤ) ≤ ecms) : (totalEcms rlecmh : ℤ) ≤ ecms := by
  cases he with
  | refuse => exact hb
  | room => exact hb
  | placed hmode hp => rwa [count_moved hp.lt hp.used hp.used hp.place]
  | @kept h f x hmode hfirst hp hx hpass =>
    have hf : f < MAXECMRATELIMIT := by
      rcases hp.place with rfl | ⟨hlt, -⟩
      · exact hp.lt
      · exact hlt.trans hp.lt
    have hmoved := @count_moved slots h f x hp.lt hp.used hx hp.place
    have hself : (moved slots h f x f).used = true := by
      unfold moved
      split_ifs with hfh
      · rw [hfh, Function.update_self, hx]
      · rw [Function.update_of_ne hfh, Function.update_self, hx]
    have hupdate := @Slots.count_update _ Ecmrl.used (moved slots h f x) _ f record hf
    rw [hself, hrecord] at hupdate
    have heq : totalEcms (Function.update (moved slots h f x) f record) = totalEcms (moved slots h f x) := by
      unfold totalEcms
      omega
    rwa [heq, hmoved]
  | @taken f hmode hnone hf hfree hroom =>
    have hupdate := @Slots.count_update _ Ecmrl.used slots _ f record hf
    rw [hfree, hrecord, Bool.toNat_true, Bool.toNat_false] at hupdate
    have heq : totalEcms (Function.update slots f record) = totalEcms slots + 1 := by
      unfold totalEcms
      omega
    rw [heq]
    omega

theorem Effect.tidy (he : Effect ecms slots er refused readerMode record ok rlecmh) (hrecord : record.used = true)
    (hlimit : record.ratelimitecm = ecms) (honce : record.once = false) (ht : Tidy ecms slots) :
    Tidy ecms rlecmh := by
  refine ⟨fun i hi hused => ?_, fun i hi hused => ?_, he.bounded hrecord ht.bounded⟩
  · rcases he.used hi hused with heq | ⟨j, hj, hused', heq⟩
    · rw [heq, hlimit]
    · rw [heq, ht.limit j hj hused']
  · rcases he.used hi hused with heq | ⟨j, hj, hused', heq⟩
    · rw [heq, honce]
    · rw [heq, ht.once j hj hused']

/-- A request that is let through in reader mode is in a slot. -/
theorem Effect.holds (he : Effect ecms slots er refused true record true rlecmh) (hrecord : record.used = true) :
    holds rlecmh record.key = true := by
  apply holds_iff.mpr
  cases he with
  | room hmode => cases hmode
  | placed hmode => cases hmode
  | @kept h f x hmode hfirst hp hx hpass =>
    have hf : f < MAXECMRATELIMIT := by
      rcases hp.place with rfl | ⟨hlt, -⟩
      · exact hp.lt
      · exact hlt.trans hp.lt
    exact ⟨f, hf, by rw [Function.update_self, hrecord], by rw [Function.update_self]⟩
  | taken hmode hnone hf => exact ⟨_, hf, by rw [Function.update_self, hrecord], by rw [Function.update_self]⟩

theorem Single.released (hs : Single slots) (actualtime : Timeb) :
    Single (Ratelimit.released actualtime slots) := by
  intro i hi j hj hiused hjused hkey
  obtain ⟨hieq, hiused'⟩ := releaseOvertime_of_used hiused
  obtain ⟨hjeq, hjused'⟩ := releaseOvertime_of_used hjused
  refine hs i hi j hj hiused' hjused' ?_
  rwa [Ratelimit.released, Ratelimit.released, hieq, hjeq] at hkey

/-- A call that is not shadowed keeps one slot for each service. -/
theorem Effect.single (he : Effect ecms slots er refused readerMode record ok rlecmh)
    (hkey : record.key = er.key) (hs : Single slots)
    (hshadow : readerMode = true → ∀ h, Slots.firstWhere (serving er) slots MAXECMRATELIMIT = some h →
      refused (slots h) = false → (slots h).key = er.key ∨ Ratelimit.holds slots er.key = false) : Single rlecmh := by
  -- a slot with the key of the request is the one that the lookup found
  have hother : ∀ {h j}, Slots.firstWhere (serving er) slots MAXECMRATELIMIT = some h →
      readerMode = true → refused (slots h) = false → j < MAXECMRATELIMIT → (slots j).used = true →
        j ≠ h → (slots j).key ≠ er.key := by
    intro h j hfirst hmode hpass hj hused hne hjkey
    obtain ⟨hh, hserving, -⟩ := Slots.firstWhere_eq_some hfirst
    rcases hshadow hmode h hfirst hpass with hself | hnone
    · exact hne (hs j hj h hh hused (Bool.and_eq_true_iff.mp hserving).1 (hjkey.trans hself.symm))
    · rw [holds_iff.mpr ⟨j, hj, hused, hjkey⟩] at hnone
      cases hnone
  cases he with
  | refuse => exact hs
  | room => exact hs
  | @placed h f hmode hp =>
    intro i hi j hj hiused hjused hij
    have hiused' := hiused
    have hjused' := hjused
    rcases moved_used hiused with ⟨hif, hieq⟩ | ⟨hif, hih, hieq⟩ <;>
      rcases moved_used hjused with ⟨hjf, hjeq⟩ | ⟨hjf, hjh, hjeq⟩ <;>
      rw [hieq] at hiused' hij <;> rw [hjeq] at hjused' hij
    · exact hif.trans hjf.symm
    · exact absurd (hs h hp.lt j hj hiused' hjused' hij).symm hjh
    · exact absurd (hs i hi h hp.lt hiused' hjused' hij) hih
    · exact hs i hi j hj hiused' hjused' hij
  | @kept h f x hmode hfirst hp hx hpass =>
    intro i hi j hj hiused hjused hij
    have hiused' := hiused
    have hjused' := hjused
    rcases update_moved_used hiused with ⟨hif, hieq⟩ | ⟨hif, hih, hieq⟩ <;>
      rcases update_moved_used hjused with ⟨hjf, hjeq⟩ | ⟨hjf, hjh, hjeq⟩ <;>
      rw [hieq] at hiused' hij <;> rw [hjeq] at hjused' hij
    · exact hif.trans hjf.symm
    · exact absurd (hij.symm.trans hkey) (hother hfirst hmode hpass hj hjused' hjh)
    · exact absurd (hij.trans hkey) (hother hfirst hmode hpass hi hiused' hih)
    · exact hs i hi j hj hiused' hjused' hij
  | @taken f hmode hnone hf hfree hroom =>
    have hnew : ∀ {j}, j < MAXECMRATELIMIT → (slots j).used = true → (slots j).key ≠ er.key := by
      intro j hj hused hjkey
      have hserving : serving er (slots j) = true := by
        obtain ⟨hsrvid, hcaid, hprovid, hchid⟩ := Key.mk.inj hjkey
        rw [serving, hused, Bool.true_and, decide_eq_true_eq]
        exact ⟨hsrvid, hcaid, hprovid, Or.inr hchid⟩
      rw [Slots.firstWhere_eq_none.mp hnone j hj] at hserving
      cases hserving
    intro i hi j hj hiused hjused hij
    by_cases hif : i = f <;> by_cases hjf : j = f
    · exact hif.trans hjf.symm
    · subst hif
      rw [Function.update_of_ne hjf] at hjused hij
      rw [Function.update_self] at hij
      exact absurd (hij.symm.trans hkey) (hnew hj hjused)
    · subst hjf
      rw [Function.update_of_ne hif] at hiused hij
      rw [Function.update_self] at hij
      exact absurd (hij.trans hkey) (hnew hi hiused)
    · rw [Function.update_of_ne hif] at hiused hij
      rw [Function.update_of_ne hjf] at hjused hij
      exact hs i hi j hj hiused hjused hij

end Slots

section Runs

open Limiter

variable {s t : Limiter} {a : Call}

/-- The slots in use are within the limit of the reader, which is not changed. -/
structure Limiter.Inv (s : Limiter) : Prop where
  limit : 0 < s.reader.ratelimitecm
  tidy : Tidy s.reader.ratelimitecm s.reader.rlecmh

/-- What a call records of its request. -/
def Limiter.record (s : Limiter) (a : Call) : Ecmrl :=
  register a.er a.registered (limitsFor [] s.reader a.er)

theorem Limiter.record_key (s : Limiter) (a : Call) : (s.record a).key = a.er.key := rfl

theorem Limiter.record_used (hl : s.Later a) : (s.record a).used = true := by
  have hne : a.registered.time ≠ -1 := by
    have := hl.2.2.1
    omega
  change (!decide (a.registered.time = -1)) = true
  rw [decide_eq_false hne]
  rfl

theorem Limiter.Inv.effect (hi : s.Inv) (a : Call) :
    ∃ rlecmh, (s.check a).reader = { s.reader with rlecmh } ∧
      Effect s.reader.ratelimitecm (s.slots a) a.er (refuses s.reader a.er a.actualtime) a.readerMode
        (s.record a) (s.check a).ok rlecmh :=
  check_effect hi.limit (hi.tidy.released a.actualtime)

theorem Limiter.next_eq_some (ht : system.next s a = some t) :
    s.Later a ∧ t = ⟨(s.check a).reader, a.registered, s.count a (s.check a)⟩ := by
  change (if s.Later a then some _ else none) = some t at ht
  split_ifs at ht with hl
  exact ⟨hl, (Option.some.inj ht).symm⟩

theorem Limiter.Fresh.totalEcms_eq (hf : s.Fresh) : totalEcms s.reader.rlecmh = 0 :=
  Slots.count_eq_zero_iff.mpr fun h _ => by rw [Ecmrl.used, hf.2.1 h]; rfl

theorem Limiter.Fresh.inv (hf : s.Fresh) : s.Inv := by
  have hnone : ∀ h, (s.reader.rlecmh h).used = false := fun h => by rw [Ecmrl.used, hf.2.1 h]; rfl
  refine ⟨hf.1, fun h _ hused => ?_, fun h _ hused => ?_, ?_⟩
  · cases (hnone h).symm.trans hused
  · cases (hnone h).symm.trans hused
  · rw [hf.totalEcms_eq]
    exact hf.1.le

theorem Limiter.Inv.step (hi : s.Inv) (ht : system.next s a = some t) : t.Inv := by
  obtain ⟨hl, rfl⟩ := next_eq_some ht
  obtain ⟨rlecmh, hreader, he⟩ := hi.effect a
  rw [hreader]
  exact ⟨hi.limit, he.tidy (s.record_used hl) rfl rfl (hi.tidy.released a.actualtime)⟩

theorem Limiter.inv_of_reachable {G : Limiter → Call → Prop} (hr : system.Reachable G s) : s.Inv :=
  hr.invariant (fun _ (hf : Fresh _) => hf.inv) fun _ _ _ hi _ ht => hi.step ht

/-- What the steps of a kept run keep. -/
structure Limiter.KeptInv (s : Limiter) : Prop where
  inv : s.Inv
  oneSlot : s.OneSlot
  once : s.Once

theorem Limiter.OneSlot.step (hi : s.Inv) (ho : s.OneSlot) (hk : s.Kept a)
    (ht : system.next s a = some t) : t.OneSlot := by
  obtain ⟨-, rfl⟩ := next_eq_some ht
  obtain ⟨rlecmh, hreader, he⟩ := hi.effect a
  change Single (s.check a).reader.rlecmh
  rw [hreader]
  refine he.single (s.record_key a) (ho.released a.actualtime) fun hmode h hfirst hpass => ?_
  have hshadow := (hk hmode).1
  rw [shadowed, hfirst, Option.any_some, hpass, Bool.not_false, Bool.and_true,
    Bool.and_eq_false_iff] at hshadow
  rcases hshadow with hself | hnone
  · exact Or.inl (not_not.mp (of_decide_eq_false hself))
  · exact Or.inr hnone

theorem Limiter.Once.step (ho : s.Once) (hk : s.Kept a) (ht : system.next s a = some t) : t.Once := by
  obtain ⟨-, rfl⟩ := next_eq_some ht
  intro k
  have hold := ho k
  change s.count a (s.check a) k ≤ 1
  unfold count
  split_ifs with hgone hself hslot
  · exact Nat.zero_le 1
  · obtain ⟨rfl, hmode, -⟩ := hself
    cases hchange : s.typeChange a with
    | false => exact hold
    | true =>
      rw [(hk hmode).2 hchange]
      exact Nat.le_refl 1
  · exact Nat.zero_le 1
  · exact hold

theorem Limiter.keptInv_of_reachable (hr : system.Reachable Kept s) : s.KeptInv := by
  refine hr.invariant (fun s (hf : s.Fresh) => ⟨hf.inv, ?_, ?_⟩) fun _ _ _ hi hk ht =>
    ⟨hi.inv.step ht, hi.oneSlot.step hi.inv hk ht, hi.once.step hk ht⟩
  · intro i _ j _ hused
    rw [Ecmrl.used, hf.2.1 i] at hused
    cases hused
  · intro k
    rw [hf.2.2]
    exact Nat.zero_le 1

/-- The slots in use stay within the limit in every run, and a request that is let through holds one. A
service has one slot, and one type change, where no call is shadowed or asks for a second change. -/
theorem ratelimit_kept (s : Limiter) :
    (system.Reachable System.free s → (totalEcms s.reader.rlecmh : ℤ) ≤ s.reader.ratelimitecm ∧
      ∀ a, s.Later a → a.readerMode = true → (s.check a).ok = true →
        holds (s.check a).reader.rlecmh a.er.key = true) ∧
    (system.Reachable Kept s → s.OneSlot ∧ s.Once) := by
  refine ⟨fun hr => ?_, fun hr => ?_⟩
  · have hi := inv_of_reachable hr
    refine ⟨hi.tidy.bounded, fun a hl hmode hok => ?_⟩
    obtain ⟨rlecmh, hreader, he⟩ := hi.effect a
    rw [hreader]
    rw [hmode, hok] at he
    exact he.holds (s.record_used hl)
  · have hi := keptInv_of_reachable hr
    exact ⟨hi.oneSlot, hi.once⟩

/-- Four slots, 5 s, and one ECM for each request. -/
def Limiter.start : Limiter where
  reader := ⟨4, 5000, 0, true, ⟨0, 0⟩, fun _ => Ecmrl.zero.release⟩
  clock := ⟨0, 0⟩
  changes := fun _ => 0

/-- A request in second `time` for a channel with this chid, which nobody has in the cache. -/
def Call.at (time : ℤ) (chid : BitVec 16) (kind : BitVec 8) : Call where
  er := ⟨0x1833, 0, 0x1234, chid, BitVec.ofInt 128 time, kind, false⟩
  readerMode := true
  checkCache := fun _ => none
  actualtime := ⟨time, 0⟩
  registered := ⟨time, 0⟩

theorem Limiter.fresh_start : start.Fresh := ⟨by decide, fun _ => rfl, rfl⟩

/-- One change of the type is let through, and the service still has one slot. -/
theorem ratelimit_kept_change : ∃ s, system.Reachable Kept s ∧ s.changes (Call.at 1 5 0x80).er.key = 1 ∧
    (totalEcms s.reader.rlecmh : ℤ) ≤ s.reader.ratelimitecm ∧ s.OneSlot ∧ s.Once := by
  obtain ⟨s, hr, hs⟩ := @System.exists_reachable_of_exec _ _ system Kept _ _ fresh_start
    [.at 1 5 0x80, .at 2 5 0x81] (fun s => s.changes (Call.at 1 5 0x80).er.key = 1) (by decide +kernel)
  exact ⟨s, hr, of_decide_eq_true hs, ((ratelimit_kept s).1 (hr.mono fun _ _ _ => trivial)).1,
    (ratelimit_kept s).2 hr⟩

/-- A second change of the type within 5 s is let through, because the slot is written anew without its
flag; and a service takes over the slot without a chid although it has one. -/
theorem second_change_let_through : (∃ s, system.Reachable System.free s ∧ ¬ s.Once) ∧
    ∃ s, system.Reachable System.free s ∧ ¬ s.OneSlot := by
  constructor
  · obtain ⟨s, hr, hs⟩ := @System.exists_reachable_of_exec _ _ system System.free
      (fun _ _ => instDecidableTrue) _ fresh_start [.at 1 5 0x80, .at 2 5 0x81, .at 3 5 0x80]
      (fun s => s.changes (Call.at 1 5 0x80).er.key = 2) (by decide +kernel)
    refine ⟨s, hr, fun honce => ?_⟩
    have htwo := honce (Call.at 1 5 0x80).er.key
    rw [of_decide_eq_true hs] at htwo
    omega
  · obtain ⟨s, hr, hs⟩ := @System.exists_reachable_of_exec _ _ system System.free
      (fun _ _ => instDecidableTrue) _ fresh_start [.at 1 7 0x80, .at 2 5 0x80, .at 6 0 0x80, .at 6 5 0x80]
      (fun s => (s.reader.rlecmh 0).used && (s.reader.rlecmh 1).used &&
        decide ((s.reader.rlecmh 0).key = (s.reader.rlecmh 1).key)) (by decide +kernel)
    obtain ⟨hused, hkey⟩ := Bool.and_eq_true_iff.mp hs
    obtain ⟨hzero, hone⟩ := Bool.and_eq_true_iff.mp hused
    refine ⟨s, hr, fun hsingle => ?_⟩
    cases hsingle 0 (by decide) 1 (by decide) hzero hone (of_decide_eq_true hkey)

end Runs

end NCam.Ratelimit
