import NCam.Lib.Signed
import NCam.Ratelimit.Slots

/-! The rate limiter of a reader with cooldown: `ecm_ratelimit_check` beside the cycle that its comment
describes. -/
namespace NCam.Ratelimit

open NCam.Lib

/-- `cooldownstate` 0, 2 and 1. -/
inductive CooldownState
  | setup
  | delay
  | ratelimit
  deriving DecidableEq

structure CoolReader extends Reader where
  cooldown0 : ℤ
  cooldown1 : ℤ
  cooldownstate : CooldownState
  cooldowntime : Timeb

/-- A call of `ecm_ratelimit_check`, with what the clock shows each time it is read. -/
structure CoolCall where
  er : EcmRequest
  readerMode : Bool
  checkCache : EcmRequest → Option Unit
  now : Timeb
  limitTime : Timeb
  actualtime : Timeb
  registered : Timeb
  delayTime : Timeb
  registeredAgain : Timeb

/-- The value an `int32_t` holds after `x` was stored in it. -/
def toInt32 (x : ℤ) : ℤ := (BitVec.ofInt 32 x).toInt

section Check

variable {γ : Type} (checkCache : EcmRequest → Option γ) (reader : Reader) (er : EcmRequest)
  (readerMode : Bool) (actualtime : Timeb)

/-- `ecm_ratelimit_findspace` of a reader that may have cooldown; `limited` is whether there is none or it
is in its rate limit phase. -/
def findspaceLimited (limited : Bool) (rl : Ecmrl) : Reader × Space γ :=
  let slots := fun h => releaseOvertime actualtime (reader.rlecmh h)
  let maxecms := if limited then maxEcms slots else MAXECMRATELIMIT
  let totalecms := totalEcms slots
  let reader := { reader with rlecmh := slots }
  match (List.range MAXECMRATELIMIT).findSome?
      (searchSlot actualtime slots maxecms checkCache reader er rl readerMode) with
  | some (slots, space) => ({ reader with rlecmh := slots }, space)
  | none =>
    if limited ∧ (totalecms + 1 > maxecms ∨ totalecms + 1 > rl.ratelimitecm) then (reader, .full)
    else
      match Slots.firstWhere Ecmrl.free slots maxecms.toNat with
      | some h => (reader, .slot h)
      | none =>
        match dvbapiOverridePrio reader er actualtime with
        | (reader, some foundspace) => (reader, .slot foundspace)
        | (reader, none) => (reader, .full)

end Check

namespace CoolReader

/-- In the rate limit phase: the comparison with `cooldown[1]` is commented out. -/
def leaveRatelimit (reader : CoolReader) : CoolReader :=
  if reader.cooldownstate = .ratelimit then
    { reader with cooldownstate := .setup, cooldowntime := { reader.cooldowntime with time := -1 } }
  else reader

/-- The loop that counts the slots not overtime, until the limit is reached. -/
def countActive (reader : CoolReader) (now : Timeb) : List ℕ → ℕ → ℕ
  | [], maxslots => maxslots
  | h :: hs, maxslots =>
    if (reader.rlecmh h).free then countActive reader now hs maxslots
    else if toInt32 (compTimeb now (reader.rlecmh h).last) ≤
        toInt32 (reader.ratelimittime + reader.srvidholdtime) then
      if reader.ratelimitecm ≤ maxslots + 1 then maxslots + 1
      else countActive reader now hs (maxslots + 1)
    else countActive reader now hs maxslots

/-- In the delay phase. `gone` was computed when the call began. -/
def endDelay (reader : CoolReader) (gone : ℤ) (now limitTime : Timeb) : Option CoolReader :=
  if reader.cooldownstate = .delay ∧ toInt32 (reader.cooldown0 * 1000) < gone then
    if countActive reader now (List.range MAXECMRATELIMIT) 0 < reader.ratelimitecm then
      some { reader with
        cooldownstate := .setup, cooldowntime := { reader.cooldowntime with time := -1 } }
    else (sortEcmrl reader.ratelimitecm reader.rlecmh).map fun rlecmh =>
      { reader with cooldownstate := .ratelimit, cooldowntime := limitTime, rlecmh }
  else some reader

/-- Writes the request into slot `h`, if it is a real one. -/
def registerIf (reader : CoolReader) (readerMode : Bool) (h : ℕ) (record : Ecmrl) : CoolReader :=
  if readerMode then { reader with rlecmh := Function.update reader.rlecmh h record } else reader

/-- What follows once a slot was found. -/
def takeSlot (reader : CoolReader) (a : CoolCall) (rl : Ecmrl) (foundspace : ℕ) : CoolReader :=
  let reader := reader.registerIf a.readerMode foundspace (register a.er a.registered rl)
  if reader.cooldownstate = .setup ∧ reader.ratelimitecm ≤ foundspace then
    if !a.readerMode then reader
    else { reader with cooldownstate := .delay, cooldowntime := a.delayTime }.registerIf a.readerMode
      foundspace (register a.er a.registeredAgain rl)
  else reader.registerIf a.readerMode foundspace (register a.er a.registeredAgain rl)

/-- The reader, `OK` or `ERROR`, and the answer that was written; nothing if a slot outside of the table is
used. -/
def ecmRatelimitCheck (ratelimitList : List Ecmrl) (reader : CoolReader) (a : CoolCall) :
    Option (CoolReader × Bool × Option (Answer Unit)) :=
  if reader.ratelimitecm = 0 then some (reader, true, none)
  else
    let rl := limitsFor ratelimitList reader.toReader a.er
    if reader.cooldown0 = 0 then
      let o := Ratelimit.ecmRatelimitCheck ratelimitList a.checkCache reader.toReader a.er a.readerMode
        a.actualtime a.registered
      some ({ reader with toReader := o.reader }, o.ok, o.answer)
    else
      let gone := toInt32 (compTimeb a.now reader.cooldowntime)
      (reader.leaveRatelimit.endDelay gone a.now a.limitTime).map fun reader =>
        let (found, space) := findspaceLimited a.checkCache reader.toReader a.er a.readerMode
          a.actualtime (reader.cooldownstate = .ratelimit) rl
        let reader := { reader with toReader := found }
        match space with
        | .answered answer => (reader, false, some answer)
        | .full => (reader, false, if a.readerMode then some .notfound else none)
        | .slot foundspace => (reader.takeSlot a rl foundspace, true, none)

end CoolReader

/-- The phases of the documented cycle, with the time they began. -/
inductive Phase
  | setup
  | delay (since : Timeb)
  | ratelimit (since : Timeb)
  deriving DecidableEq

/-- What the comment says of the time that has passed. -/
def Phase.afterTime (cooldown0 cooldown1 : ℤ) (now limitTime : Timeb) (exceeded : Bool) :
    Phase → Phase
  | .setup => .setup
  | .delay since =>
    if compTimeb now since ≤ cooldown0 * 1000 then .delay since
    else if exceeded then .ratelimit limitTime else .setup
  | .ratelimit since =>
    if compTimeb now since ≤ cooldown1 * 1000 then .ratelimit since else .setup

/-- What the comment says of the requests. -/
def Phase.afterRequest (delayTime : Timeb) (exceeded : Bool) : Phase → Phase
  | .setup => if exceeded then .delay delayTime else .setup
  | phase => phase

/-- The phase a reader is in. -/
def CoolReader.phase (reader : CoolReader) : Phase :=
  match reader.cooldownstate with
  | .setup => .setup
  | .delay => .delay reader.cooldowntime
  | .ratelimit => .ratelimit reader.cooldowntime

/-- The reader beside the documented cycle, which its calls drive. -/
structure Cooling where
  reader : CoolReader
  phase : Phase

namespace Cooling

/-- The services active at the time of the call. -/
def active (s : Cooling) (a : CoolCall) : ℕ :=
  (List.range MAXECMRATELIMIT).countP fun h => (s.reader.rlecmh h).used &&
    compTimeb a.now (s.reader.rlecmh h).last ≤ s.reader.ratelimittime + s.reader.srvidholdtime

/-- `cs_ftime` does not show times before the epoch. -/
def Clocked (a : CoolCall) : Prop :=
  0 ≤ a.now.time ∧ 0 ≤ a.limitTime.time ∧ 0 ≤ a.actualtime.time ∧ 0 ≤ a.registered.time ∧
    0 ≤ a.delayTime.time ∧ 0 ≤ a.registeredAgain.time

instance (a : CoolCall) : Decidable (Clocked a) := by
  unfold Clocked
  infer_instance

/-- Calls for a reader with a limit and with cooldown. -/
def system (ratelimitList : List Ecmrl) : System Cooling CoolCall where
  init s := 0 < s.reader.ratelimitecm ∧ s.reader.cooldown0 ≠ 0 ∧
    s.reader.cooldownstate = .setup ∧ s.phase = .setup
  next s a :=
    if Clocked a then
      (s.reader.ecmRatelimitCheck ratelimitList a).map fun (reader, _) =>
        { reader
          phase := (s.phase.afterTime s.reader.cooldown0 s.reader.cooldown1 a.now a.limitTime
            (s.reader.ratelimitecm < s.active a)).afterRequest a.delayTime
              (s.reader.ratelimitecm < totalEcms reader.rlecmh) }
    else none

/-- A value that an `int32_t` keeps. -/
def Fits (x : ℤ) : Prop := -2 ^ 31 ≤ x ∧ x < 2 ^ 31

instance (x : ℤ) : Decidable (Fits x) := by
  unfold Fits
  infer_instance

/-- The delay is over at the time of the call. -/
def delayOver (s : Cooling) (a : CoolCall) : Prop :=
  s.reader.cooldown0 * 1000 < compTimeb a.now s.reader.cooldowntime

instance (s : Cooling) (a : CoolCall) : Decidable (s.delayOver a) := by
  unfold delayOver
  infer_instance

/-- Fewer services than the limit are active, or all are in the slots below the limit. -/
def Low (ratelimitecm : ℤ) (slots : ℕ → Ecmrl) : Prop :=
  totalEcms slots < ratelimitecm ∨
    ∀ h < MAXECMRATELIMIT, ratelimitecm ≤ h → (slots h).used = false

/-- The calls on which the code keeps to the cycle: none comes before the rate limit phase is over, the end
of the delay does not find just as many services as the limit, the times compared fit in 32 bits, and in the
setup phase fewer services than the limit are active where one is in a slot from the limit on. -/
structure Clear (s : Cooling) (a : CoolCall) : Prop where
  ended : s.reader.cooldownstate = .ratelimit →
    s.reader.cooldown1 * 1000 < compTimeb a.now s.reader.cooldowntime
  fits : s.reader.cooldownstate = .delay →
    Fits (s.reader.cooldown0 * 1000) ∧ Fits (compTimeb a.now s.reader.cooldowntime)
  exceeded : s.reader.cooldownstate = .delay → s.delayOver a →
    (s.active a : ℤ) ≠ s.reader.ratelimitecm ∧
      Fits (s.reader.ratelimittime + s.reader.srvidholdtime) ∧
      ∀ h < MAXECMRATELIMIT, (s.reader.rlecmh h).used = true →
        Fits (compTimeb a.now (s.reader.rlecmh h).last)
  low : (s.reader.cooldownstate = .delay →
      s.delayOver a ∧ (s.active a : ℤ) < s.reader.ratelimitecm) →
    Low s.reader.ratelimitecm (released a.actualtime s.reader.rlecmh)

instance (ratelimitecm : ℤ) (slots : ℕ → Ecmrl) : Decidable (Low ratelimitecm slots) := by
  unfold Low
  infer_instance

instance (s : Cooling) (a : CoolCall) : Decidable (s.Clear a) :=
  decidable_of_iff (_ ∧ _ ∧ _ ∧ _)
    ⟨fun h => ⟨h.1, h.2.1, h.2.2.1, h.2.2.2⟩, fun h => ⟨h.ended, h.fits, h.exceeded, h.low⟩⟩

/-- One slot, 10 s of delay and 30 s of rate limit; a slot is kept for 20 s. -/
def start : Cooling where
  reader :=
    { ratelimitecm := 1, ratelimittime := 20000, srvidholdtime := 0, ecmunique := false
      lastdvbapirateoverride := ⟨0, 0⟩, rlecmh := fun _ => Ecmrl.zero.release
      cooldown0 := 10, cooldown1 := 30, cooldownstate := .setup, cooldowntime := ⟨-1, 0⟩ }
  phase := .setup

end Cooling

/-- A request for a service at second `time`. -/
def CoolCall.at (time : ℤ) (srvid : BitVec 16) : CoolCall :=
  let now : Timeb := ⟨time, 0⟩
  { er := ⟨0x1833, 0, srvid, 0, BitVec.ofInt 128 time, 0x80, false⟩, readerMode := true
    checkCache := fun _ => none
    now, limitTime := now, actualtime := now, registered := now, delayTime := now, registeredAgain := now }

section Found

variable {γ : Type} {slots slots' : ℕ → Ecmrl} {actualtime : Timeb} {checkCache : EcmRequest → Option γ}
  {reader found : Reader} {er : EcmRequest} {rl : Ecmrl} {readerMode limited : Bool} {h f : ℕ}
  {space : Space γ}

/-- What the search without a limit leaves: no service is lost, and the slot found is the one the service
has, with no free slot below it, or the first free one. -/
structure Found (slots slots' : ℕ → Ecmrl) (space : Space γ) : Prop where
  total : totalEcms slots' = totalEcms slots
  lt : ∀ f, space = .slot f → f < MAXECMRATELIMIT
  place : ∀ f, space = .slot f →
    (slots' f).used = true ∧ f < totalEcms slots ∨
      slots' = slots ∧ (slots f).used = false ∧ f ≤ totalEcms slots

private theorem Found.of_ne (hno : ∀ f, space ≠ .slot f) : Found slots slots space :=
  ⟨rfl, fun f hf => absurd hf (hno f), fun f hf => absurd hf (hno f)⟩

private theorem keepSlot_found {x : Ecmrl} (hh : h < MAXECMRATELIMIT) (hused : (slots h).used = true)
    (hx : x.used = true)
    (hkeep : keepSlot (Function.update slots h x) MAXECMRATELIMIT h = (slots', space)) :
    Found slots slots' space := by
  obtain ⟨f, hp, hbelow, hmoved⟩ := @keepSlot_placed slots h x γ MAXECMRATELIMIT hh hused
    fun f hf _ => by omega
  have hfh : f ≤ h := by rcases hp.place with rfl | ⟨hlt, -⟩ <;> omega
  obtain ⟨rfl, rfl⟩ := Prod.mk.inj (hkeep.symm.trans hmoved)
  have hall : f ≤ Slots.count Ecmrl.used slots h :=
    (Slots.count_eq_self hbelow).symm.le.trans (Slots.count_le_count hfh)
  have hsucc : Slots.count Ecmrl.used slots (h + 1) = Slots.count Ecmrl.used slots h + 1 := by
    rw [Slots.count, hused, Bool.toNat_true]
  have htotal : Slots.count Ecmrl.used slots (h + 1) ≤ totalEcms slots :=
    Slots.count_le_count hh
  refine ⟨count_moved hh hused hx hp.place, fun g hg => ?_, fun g hg => Or.inl ?_⟩
  all_goals obtain rfl := Space.slot.inj hg
  · omega
  · refine ⟨?_, by omega⟩
    unfold moved
    split_ifs with hne
    · rw [hne, Function.update_self]
      exact hx
    · rw [Function.update_of_ne hne, Function.update_self]
      exact hx

private theorem searchSlot_found (hh : h < MAXECMRATELIMIT)
    (heq : searchSlot actualtime slots MAXECMRATELIMIT checkCache reader er rl readerMode h =
      some (slots', space)) : Found slots slots' space := by
  have hself : ∀ {s : Ecmrl}, s.free ≠ true → s.used = true := by
    intro s hs
    rw [Ecmrl.used, Bool.eq_false_of_not_eq_true hs]
    rfl
  have hstay : (slots h).free ≠ true →
      some (keepSlot slots MAXECMRATELIMIT h) = some (slots', space) → Found slots slots' space := by
    intro hfree hkeep
    refine keepSlot_found hh (hself hfree) (hself hfree) ?_
    rw [Function.update_eq_self]
    exact Option.some.inj hkeep
  unfold searchSlot at heq
  dsimp only at heq
  split_ifs at heq with hfree hserves hunique hother hkind honce
  · cases hcache : checkCache { er with ecmd5 := (slots h).ecmd5 } with
    | none =>
      rw [hcache] at heq
      cases heq
      exact .of_ne fun f hf => by cases hf
    | some ecm =>
      rw [hcache] at heq
      cases heq
      exact .of_ne fun f hf => by cases hf
  · have hused : ({ slots h with once := true } : Ecmrl).used = true := hself hfree
    exact keepSlot_found hh (hself hfree) hused (Option.some.inj heq)
  · exact hstay hfree heq
  · exact hstay hfree heq

/-- The slot of the oldest request is one of the table. -/
private theorem dvbapiOverridePrio_eq : ∃ lastdvbapirateoverride,
    (dvbapiOverridePrio reader er actualtime).1 = { reader with lastdvbapirateoverride } ∧
      ∀ f, (dvbapiOverridePrio reader er actualtime).2 = some f → f < MAXECMRATELIMIT := by
  unfold dvbapiOverridePrio
  dsimp only
  generalize (if reader.lastdvbapirateoverride.time = 0 then
    compTimeb actualtime reader.lastdvbapirateoverride else 0) = gone
  split_ifs with hclient hgone
  · exact ⟨_, rfl, fun f hf => by cases hf⟩
  · refine ⟨actualtime, rfl, ?_⟩
    let inTable (acc : Timeb × Option ℕ) : Prop := ∀ f, acc.2 = some f → f < MAXECMRATELIMIT
    generalize hrange : List.range MAXECMRATELIMIT = l
    refine List.foldlRecOn (motive := inTable) l _ (fun f hf => by cases hf) ?_
    intro acc hacc h hh f hf
    split_ifs at hf
    · obtain rfl := Option.some.inj hf
      exact List.mem_range.mp (hrange ▸ hh)
    · exact hacc f hf
  · exact ⟨_, rfl, fun f hf => by cases hf⟩

/-- The search keeps the limits of the reader. -/
theorem findspaceLimited_found :
    ∃ lastdvbapirateoverride rlecmh,
      (findspaceLimited checkCache reader er readerMode actualtime limited rl).1 =
        { reader with lastdvbapirateoverride, rlecmh } ∧
      (limited = false → Found (released actualtime reader.rlecmh) rlecmh
        (findspaceLimited checkCache reader er readerMode actualtime limited rl).2) := by
  have hslots : (fun h => releaseOvertime actualtime (reader.rlecmh h)) =
      released actualtime reader.rlecmh := rfl
  unfold findspaceLimited
  dsimp only
  rw [hslots]
  generalize released actualtime reader.rlecmh = slots
  have hmax : limited = false →
      (if limited = true then maxEcms slots else (MAXECMRATELIMIT : ℤ)) = MAXECMRATELIMIT := by
    rintro rfl
    rfl
  generalize (if limited = true then maxEcms slots else (MAXECMRATELIMIT : ℤ)) = maxecms at hmax
  cases hsearch : (List.range MAXECMRATELIMIT).findSome? (searchSlot actualtime slots maxecms
    checkCache { reader with rlecmh := slots } er rl readerMode) with
  | some result =>
    refine ⟨_, _, rfl, fun hlimited => ?_⟩
    rw [hmax hlimited] at hsearch
    obtain ⟨h, hh, hresult, -⟩ := Slots.findSome_range hsearch
    exact searchSlot_found hh hresult
  | none =>
    dsimp only
    by_cases hfull : limited = true ∧
        ((totalEcms slots : ℤ) + 1 > maxecms ∨ (totalEcms slots : ℤ) + 1 > rl.ratelimitecm)
    · rw [if_pos hfull]
      exact ⟨_, _, rfl, fun hno => absurd (hno.symm.trans hfull.1) Bool.false_ne_true⟩
    rw [if_neg hfull]
    cases hfree : Slots.firstWhere Ecmrl.free slots maxecms.toNat with
    | some f =>
      refine ⟨_, _, rfl, fun hlimited => ?_⟩
      rw [hmax hlimited, Int.toNat_natCast] at hfree
      obtain ⟨hf, hffree, hbefore⟩ := Slots.firstWhere_eq_some hfree
      rw [free_eq, Bool.not_eq_true'] at hffree
      have hbelow : Slots.count Ecmrl.used slots f = f := by
        refine Slots.count_eq_self fun i hi => ?_
        have hi' := hbefore i hi
        rwa [free_eq, Bool.not_eq_false'] at hi'
      have htotal : Slots.count Ecmrl.used slots f ≤ totalEcms slots := Slots.count_le_count hf.le
      refine ⟨rfl, fun g hg => ?_, fun g hg => ?_⟩
      all_goals obtain rfl := Space.slot.inj hg
      · exact hf
      · exact Or.inr ⟨rfl, hffree, by omega⟩
    | none =>
      obtain ⟨t, hreader, hplace⟩ :=
        @dvbapiOverridePrio_eq actualtime { reader with rlecmh := slots } er
      have hall : limited = false → ∀ i < MAXECMRATELIMIT, (slots i).used = true := by
        intro hlimited i hi
        rw [hmax hlimited, Int.toNat_natCast] at hfree
        have hi' := Slots.firstWhere_eq_none.mp hfree i hi
        rwa [free_eq, Bool.not_eq_false'] at hi'
      generalize dvbapiOverridePrio { reader with rlecmh := slots } er actualtime = o at hreader hplace
      obtain ⟨found, place⟩ := o
      obtain rfl := hreader
      cases place with
      | none => exact ⟨t, slots, rfl, fun _ => .of_ne fun f hf => by cases hf⟩
      | some f =>
        have hf : f < MAXECMRATELIMIT := hplace f rfl
        refine ⟨t, slots, rfl, fun hlimited => ⟨rfl, fun g hg => ?_, fun g hg => Or.inl ?_⟩⟩
        all_goals obtain rfl := Space.slot.inj hg
        · exact hf
        · exact ⟨hall hlimited _ hf, hf.trans_eq (Slots.count_eq_self (hall hlimited)).symm⟩

end Found

section Cycle

variable {reader r : CoolReader} {a : CoolCall} {s : Cooling} {x : ℤ} {now : Timeb}
  {slots slots' : ℕ → Ecmrl} {ratelimitecm : ℤ}

private theorem toInt32_eq (hx : Cooling.Fits x) : toInt32 x = x := Signed.toInt_ofInt_eq_self_iff.mpr hx

/-- The count stops at the limit. -/
private theorem countActive_lt_iff
    (htime : Cooling.Fits (reader.ratelimittime + reader.srvidholdtime)) {hs : List ℕ}
    (hgone : ∀ h ∈ hs, (reader.rlecmh h).used = true →
      Cooling.Fits (compTimeb now (reader.rlecmh h).last)) {m : ℕ} (hm : (m : ℤ) < reader.ratelimitecm) :
    (reader.countActive now hs m : ℤ) < reader.ratelimitecm ↔
      ((m + hs.countP fun h => (reader.rlecmh h).used &&
        compTimeb now (reader.rlecmh h).last ≤ reader.ratelimittime + reader.srvidholdtime : ℕ) : ℤ) <
          reader.ratelimitecm := by
  induction hs generalizing m with
  | nil => exact Iff.rfl
  | cons h hs ih =>
    have ih' := @ih fun k hk => hgone k (List.mem_cons_of_mem h hk)
    rw [List.countP_cons]
    unfold CoolReader.countActive
    cases hfree : (reader.rlecmh h).free with
    | true =>
      rw [if_pos rfl, Ecmrl.used, hfree]
      exact ih' hm
    | false =>
      have hused : (reader.rlecmh h).used = true := by rw [Ecmrl.used, hfree]; rfl
      rw [if_neg Bool.false_ne_true, toInt32_eq htime,
        toInt32_eq (hgone h List.mem_cons_self hused), hused, Bool.true_and]
      by_cases hin : compTimeb now (reader.rlecmh h).last ≤
          reader.ratelimittime + reader.srvidholdtime
      · rw [if_pos hin, decide_eq_true hin, if_pos rfl]
        by_cases hlimit : reader.ratelimitecm ≤ m + 1
        · rw [if_pos hlimit]
          push_cast
          omega
        · rw [if_neg hlimit, ih' (by push_cast; omega)]
          push_cast
          omega
      · rw [if_neg hin, decide_eq_false hin, if_neg Bool.false_ne_true]
        exact ih' hm

/-- The time that passes takes the reader to the phase of the cycle. -/
private theorem phase_endDelay (hpos : 0 < s.reader.ratelimitecm) (hc : s.Clear a) (hphase : s.reader.phase = s.phase)
    (h : s.reader.leaveRatelimit.endDelay (toInt32 (compTimeb a.now s.reader.cooldowntime)) a.now
      a.limitTime = some r) :
    (∃ cooldownstate cooldowntime rlecmh,
      r = { s.reader with cooldownstate, cooldowntime, rlecmh }) ∧
    r.phase = s.phase.afterTime s.reader.cooldown0 s.reader.cooldown1 a.now a.limitTime
      (s.reader.ratelimitecm < s.active a) ∧
    (r.cooldownstate = .setup → Cooling.Low s.reader.ratelimitecm (released a.actualtime r.rlecmh)) := by
  rw [← hphase]
  unfold CoolReader.endDelay CoolReader.leaveRatelimit at h
  unfold CoolReader.phase
  cases hstate : s.reader.cooldownstate with
  | setup =>
    simp only [hstate, reduceCtorEq, if_false, false_and] at h
    obtain rfl := Option.some.inj h
    rw [hstate]
    exact ⟨⟨_, _, _, rfl⟩, rfl, fun _ => hc.low fun hdelay => by cases hstate.symm.trans hdelay⟩
  | ratelimit =>
    simp only [hstate, reduceCtorEq, if_true, if_false, false_and] at h
    obtain rfl := Option.some.inj h
    refine ⟨⟨_, _, _, rfl⟩, ?_, fun _ => hc.low fun hdelay => by cases hstate.symm.trans hdelay⟩
    have hover := hc.ended hstate
    dsimp only [Phase.afterTime]
    rw [if_neg (by omega)]
  | delay =>
    obtain ⟨hcool, hgone⟩ := hc.fits hstate
    simp only [hstate, reduceCtorEq, if_false, true_and] at h
    rw [toInt32_eq hcool, toInt32_eq hgone] at h
    dsimp only [Phase.afterTime]
    by_cases hover : s.reader.cooldown0 * 1000 < compTimeb a.now s.reader.cooldowntime
    case neg =>
      rw [if_neg hover] at h
      obtain rfl := Option.some.inj h
      rw [if_pos (by omega), hstate]
      exact ⟨⟨_, _, _, rfl⟩, rfl, fun hsetup => by cases hsetup⟩
    obtain ⟨hne, htime, hslots⟩ := hc.exceeded hstate hover
    have hcount := countActive_lt_iff htime (fun h hh => hslots h (List.mem_range.mp hh)) hpos
    rw [Nat.zero_add] at hcount
    change _ ↔ (s.active a : ℤ) < _ at hcount
    rw [if_pos hover] at h
    rw [if_neg (by omega)]
    by_cases hlow : (s.active a : ℤ) < s.reader.ratelimitecm
    · rw [if_pos (hcount.mpr hlow)] at h
      obtain rfl := Option.some.inj h
      rw [decide_eq_false (by omega), if_neg Bool.false_ne_true]
      exact ⟨⟨_, _, _, rfl⟩, rfl, fun _ => hc.low fun _ => ⟨hover, hlow⟩⟩
    · rw [if_neg fun hlt => hlow (hcount.mp hlt)] at h
      obtain ⟨rlecmh, -, rfl⟩ := Option.map_eq_some_iff.mp h
      rw [decide_eq_true (by omega), if_pos rfl]
      exact ⟨⟨_, _, _, rfl⟩, rfl, fun hsetup => by cases hsetup⟩

private theorem total_le (hpos : 0 < ratelimitecm) (hlow : Cooling.Low ratelimitecm slots) :
    (totalEcms slots : ℤ) ≤ ratelimitecm := by
  rcases hlow with hlt | hfree
  · omega
  · have hle : totalEcms slots ≤ ratelimitecm.toNat :=
      Slots.count_le_of_false fun i hi hle => hfree i hi (by omega)
    omega

/-- After a request of the setup phase, more services than the limit are active if and only if its slot is
from the limit on. -/
private theorem total_update (hpos : 0 < ratelimitecm) (hlow : Cooling.Low ratelimitecm slots)
    {space : Space Unit} (hf : Found slots slots' space) {f : ℕ} (hspace : space = .slot f)
    {record : Ecmrl} (hrecord : record.used = true) :
    ratelimitecm < totalEcms (Function.update slots' f record) ↔ ratelimitecm ≤ f := by
  have hle := total_le hpos hlow
  have htotal := hf.total
  have hcount := @Slots.count_update _ Ecmrl.used slots' _ f record (hf.lt f hspace)
  rw [hrecord, Bool.toNat_true] at hcount
  change totalEcms (Function.update slots' f record) + _ = totalEcms slots' + 1 at hcount
  rcases hf.place f hspace with ⟨hused, hbelow⟩ | ⟨rfl, hunused, hbelow⟩
  · rw [hused, Bool.toNat_true] at hcount
    omega
  · rw [hunused, Bool.toNat_false] at hcount
    refine ⟨fun hover => ?_, fun hle' => by omega⟩
    by_contra hlt
    rcases hlow with hroom | hfree
    · omega
    · have hstill : Cooling.Low ratelimitecm (Function.update slots' f record) := by
        refine Or.inr fun h hh hlimit => ?_
        rw [Function.update_of_ne (by omega)]
        exact hfree h hh hlimit
      have := total_le hpos hstill
      omega

/-- A check without a request leaves the reader as it is. -/
theorem takeSlot_eq (reader : CoolReader) (a : CoolCall) (rl : Ecmrl) (f : ℕ) :
    reader.takeSlot a rl f =
      if a.readerMode = true then
        { (if reader.cooldownstate = .setup ∧ reader.ratelimitecm ≤ f then
            { reader with cooldownstate := .delay, cooldowntime := a.delayTime } else reader) with
          rlecmh := Function.update reader.rlecmh f (register a.er a.registeredAgain rl) }
      else reader := by
  unfold CoolReader.takeSlot CoolReader.registerIf
  cases a.readerMode with
  | true =>
    by_cases hover : reader.cooldownstate = .setup ∧ reader.ratelimitecm ≤ f
    · simp [hover]
    · simp [hover]
  | false => simp

/-- The request ends the setup phase if its slot is from the limit on. -/
theorem takeSlot_phase (reader : CoolReader) (a : CoolCall) (rl : Ecmrl) (f : ℕ) :
    (reader.takeSlot a rl f).phase =
      reader.phase.afterRequest a.delayTime (a.readerMode && reader.ratelimitecm ≤ f) := by
  rw [takeSlot_eq]
  unfold CoolReader.phase
  cases a.readerMode with
  | true =>
    cases hstate : reader.cooldownstate with
    | setup =>
      by_cases hover : reader.ratelimitecm ≤ f
      · simp [Phase.afterRequest, hover]
      · simp [Phase.afterRequest, hover, hstate]
    | delay => simp [Phase.afterRequest, hstate]
    | ratelimit => simp [Phase.afterRequest, hstate]
  | false =>
    cases hstate : reader.cooldownstate with
    | setup => simp [Phase.afterRequest, hstate]
    | delay => simp [Phase.afterRequest, hstate]
    | ratelimit => simp [Phase.afterRequest, hstate]

/-- Outside of the setup phase the requests change nothing. -/
private theorem afterRequest_congr {delayTime : Timeb} {exceeded exceeded' : Bool}
    (h : r.cooldownstate = .setup → exceeded = exceeded') :
    r.phase.afterRequest delayTime exceeded = r.phase.afterRequest delayTime exceeded' := by
  unfold CoolReader.phase
  cases hstate : r.cooldownstate with
  | setup => rw [h hstate]
  | delay => rfl
  | ratelimit => rfl

private theorem afterRequest_false (phase : Phase) (delayTime : Timeb) :
    phase.afterRequest delayTime false = phase := by
  cases phase with
  | setup => rfl
  | delay since => rfl
  | ratelimit since => rfl

/-- A clear call takes the reader where the documented cycle goes. -/
private theorem check_follows {ratelimitList : List Ecmrl} {out : Bool × Option (Answer Unit)}
    (hpos : 0 < s.reader.ratelimitecm) (hcool : s.reader.cooldown0 ≠ 0) (hclock : Cooling.Clocked a)
    (hc : s.Clear a) (hphase : s.reader.phase = s.phase)
    (h : s.reader.ecmRatelimitCheck ratelimitList a = some (r, out)) :
    (r.ratelimitecm = s.reader.ratelimitecm ∧ r.cooldown0 = s.reader.cooldown0) ∧
    r.phase = (s.phase.afterTime s.reader.cooldown0 s.reader.cooldown1 a.now a.limitTime
      (s.reader.ratelimitecm < s.active a)).afterRequest a.delayTime
        (s.reader.ratelimitecm < totalEcms r.rlecmh) := by
  unfold CoolReader.ecmRatelimitCheck at h
  rw [if_neg (by omega), if_neg hcool] at h
  obtain ⟨r₁, hr₁, h⟩ := Option.map_eq_some_iff.mp h
  obtain ⟨⟨cooldownstate, cooldowntime, rlecmh, hfield⟩, hphase₁, hlow⟩ :=
    phase_endDelay hpos hc hphase hr₁
  rw [← hphase₁]
  have hlimit : r₁.ratelimitecm = s.reader.ratelimitecm := by rw [hfield]
  have hcooldown0 : r₁.cooldown0 = s.reader.cooldown0 := by rw [hfield]
  clear hr₁ hphase₁ hfield
  obtain ⟨lastdvbapirateoverride, rlecmh', hreader, hfound⟩ :=
    @findspaceLimited_found _ a.actualtime a.checkCache r₁.toReader a.er
      (limitsFor ratelimitList s.reader.toReader a.er) a.readerMode (r₁.cooldownstate = .ratelimit)
  replace hfound : r₁.cooldownstate = .setup → Found (released a.actualtime r₁.rlecmh) rlecmh' _ :=
    fun hsetup => hfound (by rw [hsetup]; rfl)
  have hstill : r₁.cooldownstate = .setup →
      decide (s.reader.ratelimitecm < totalEcms rlecmh') = false := by
    intro hsetup
    have hle := total_le hpos (hlow hsetup)
    have htotal := (hfound hsetup).total
    exact decide_eq_false (by omega)
  dsimp only at h
  generalize findspaceLimited a.checkCache r₁.toReader a.er a.readerMode a.actualtime
    (r₁.cooldownstate = .ratelimit) (limitsFor ratelimitList s.reader.toReader a.er) = o at h hreader hfound
  obtain ⟨found, space⟩ := o
  obtain rfl := hreader
  cases space with
  | answered answer =>
    obtain ⟨rfl, -⟩ := Prod.mk.inj h
    refine ⟨⟨hlimit, hcooldown0⟩, ?_⟩
    rw [afterRequest_congr hstill, afterRequest_false]
    rfl
  | full =>
    obtain ⟨rfl, -⟩ := Prod.mk.inj h
    refine ⟨⟨hlimit, hcooldown0⟩, ?_⟩
    rw [afterRequest_congr hstill, afterRequest_false]
    rfl
  | slot f =>
    obtain ⟨rfl, -⟩ := Prod.mk.inj h
    refine ⟨?_, (takeSlot_phase _ _ _ _).trans (@afterRequest_congr r₁ _ _ _ fun hsetup => ?_)⟩
    · rw [takeSlot_eq]
      split_ifs <;> exact ⟨hlimit, hcooldown0⟩
    · rw [takeSlot_eq]
      cases hmode : a.readerMode with
      | false => exact (hstill hsetup).symm
      | true =>
        have hrecord : (register a.er a.registeredAgain
            (limitsFor ratelimitList s.reader.toReader a.er)).used = true := by
          have hage : 0 ≤ a.registeredAgain.time := hclock.2.2.2.2.2
          have hfree : a.registeredAgain.time ≠ -1 := by omega
          simp [Ecmrl.used, Ecmrl.free, register, hfree]
        rw [if_pos rfl, Bool.true_and, decide_eq_decide]
        change r₁.ratelimitecm ≤ f ↔ _
        rw [hlimit]
        exact (total_update hpos (hlow hsetup) (hfound hsetup) rfl hrecord).symm

/-- On runs whose calls are all clear the reader follows the documented cycle. -/
theorem cooldown_follows (ratelimitList : List Ecmrl) (s : Cooling)
    (h : (Cooling.system ratelimitList).Reachable Cooling.Clear s) : s.reader.phase = s.phase := by
  have hinv : 0 < s.reader.ratelimitecm ∧ s.reader.cooldown0 ≠ 0 ∧ s.reader.phase = s.phase := by
    refine h.invariant (I := fun s => 0 < s.reader.ratelimitecm ∧ s.reader.cooldown0 ≠ 0 ∧
      s.reader.phase = s.phase) ?_ ?_
    · rintro s ⟨hpos, hcool, hstate, hphase⟩
      refine ⟨hpos, hcool, ?_⟩
      rw [CoolReader.phase, hstate, hphase]
    · rintro s a t ⟨hpos, hcool, hphase⟩ hclear hnext
      unfold Cooling.system at hnext
      dsimp only at hnext
      split_ifs at hnext with hclock
      obtain ⟨⟨r, out⟩, hcheck, rfl⟩ := Option.map_eq_some_iff.mp hnext
      obtain ⟨⟨hlimit, hcooldown0⟩, hfollows⟩ :=
        check_follows hpos hcool hclock hclear hphase hcheck
      exact ⟨hpos.trans_eq hlimit.symm, fun hzero => hcool (hcooldown0.symm.trans hzero), hfollows⟩
  exact hinv.2.2

private theorem init_start : (Cooling.system []).init Cooling.start :=
  ⟨by decide, by decide, rfl, rfl⟩

/-- Through all the phases. -/
theorem cooldown_follows_around : ∃ s, (Cooling.system []).Reachable Cooling.Clear s ∧
    s.reader.phase = s.phase ∧ (s.reader.rlecmh 0).last = ⟨43, 0⟩ := by
  obtain ⟨s, hr, hs⟩ := @System.exists_reachable_of_exec _ _ (Cooling.system []) Cooling.Clear _ _
    init_start [.at 0 1, .at 1 2, .at 12 3, .at 43 1]
    (fun s => (s.reader.rlecmh 0).last = ⟨43, 0⟩) (by decide +kernel)
  exact ⟨s, hr, cooldown_follows [] s hr, of_decide_eq_true hs⟩

/-- One second after the rate limit phase of 30 s began, the reader is back in the setup phase. -/
theorem cooldown_leaves_ratelimit :
    ∃ s, (Cooling.system []).Reachable System.free s ∧ s.reader.phase ≠ s.phase := by
  obtain ⟨s, hr, hs⟩ := @System.exists_reachable_of_exec _ _ (Cooling.system []) System.free _ _
    init_start [.at 0 1, .at 1 2, .at 12 3, .at 13 1]
    (fun s => s.reader.phase = .setup ∧ s.phase = .ratelimit ⟨12, 0⟩) (by decide +kernel)
  obtain ⟨hsetup, hlimit⟩ := of_decide_eq_true hs
  refine ⟨s, hr, fun heq => ?_⟩
  rw [hsetup, hlimit] at heq
  cases heq

end Cycle

end NCam.Ratelimit
