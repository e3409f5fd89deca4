import NCam.Lib.Signed
import NCam.Ratelimit.Model

/-! The reconnect delay of a network reader: `block_connect`, `clear_block_delay` and
`is_connect_blocked`. -/
namespace NCam.Casc.BackOff

open NCam.Lib
open NCam.Ratelimit (Timeb compTimeb)

def R_CCCAM : ℕ := 0x35

structure Cfg where
  cccamCfgReconnectDelay : BitVec 32
  cccamCfgReconnectAttempts : BitVec 8

structure Reader where
  typ : ℕ
  fromCccamCfg : Bool
  reconnectAttempts : BitVec 8
  tcpBlockConnectTill : Timeb
  tcpBlockDelay : BitVec 32

/-- `add_ms_to_timeb`; the members of `struct timeb` have 64 bits. -/
def addMsToTimeb (tb : Timeb) (ms : ℤ) : Timeb :=
  let tb := if 1000 ≤ ms then ⟨tb.time + ms.tdiv 1000, tb.millitm + ms.tmod 1000⟩
    else { tb with millitm := tb.millitm + ms }
  if 1000 ≤ tb.millitm then ⟨tb.time + 1, tb.millitm.tmod 1000⟩ else tb

def clearBlockDelay (now : Timeb) (rdr : Reader) : Reader :=
  { rdr with tcpBlockDelay := 0, tcpBlockConnectTill := now }

/-- What the start of a reader's thread sets. -/
def startBlockDelay (now : Timeb) (rdr : Reader) : Reader :=
  { rdr with tcpBlockDelay := 100, tcpBlockConnectTill := now }

def Reader.fromCfg (rdr : Reader) : Bool := rdr.typ = R_CCCAM && rdr.fromCccamCfg

/-- No reader is left once a line of `cccam.cfg` has used up its attempts. -/
def blockConnect (cfg : Cfg) (now : Timeb) (rdr : Reader) : Option Reader :=
  let tried : Option Reader :=
    if rdr.fromCfg ∧ 0 < cfg.cccamCfgReconnectAttempts.toInt then
      if cfg.cccamCfgReconnectAttempts.toInt ≤ rdr.reconnectAttempts.toInt then none
      else some { rdr with reconnectAttempts := rdr.reconnectAttempts + 1 }
    else some rdr
  tried.map fun rdr =>
    let delay := if rdr.tcpBlockDelay = 0 then 100 else rdr.tcpBlockDelay
    { rdr with
      tcpBlockConnectTill := addMsToTimeb now delay.toInt
      tcpBlockDelay :=
        if rdr.fromCfg ∧ 4 < cfg.cccamCfgReconnectDelay.toInt then cfg.cccamCfgReconnectDelay * 1000
        else delay * 4 }

def isConnectBlocked (rdr : Reader) (curTime : Timeb) : Bool :=
  let diff := BitVec.ofInt 32 (compTimeb curTime rdr.tcpBlockConnectTill)
  rdr.tcpBlockDelay ≠ 0 && diff.toInt < 0

/-- Calls at the given times, with the delay each of them applied. -/
def blockConnects (cfg : Cfg) : Reader → List Timeb → Option (Reader × List ℤ)
  | rdr, [] => some (rdr, [])
  | rdr, now :: nows =>
    (blockConnect cfg now rdr).bind fun next =>
      (blockConnects cfg next nows).map fun (rdr, delays) =>
        (rdr, compTimeb next.tcpBlockConnectTill now :: delays)

/-- No reconnect setting of `cccam.cfg` is in use for the reader. -/
def NoSettings (cfg : Cfg) (rdr : Reader) : Prop :=
  rdr.fromCfg = true →
    cfg.cccamCfgReconnectAttempts.toInt ≤ 0 ∧ cfg.cccamCfgReconnectDelay.toInt ≤ 4

instance (cfg : Cfg) (rdr : Reader) : Decidable (NoSettings cfg rdr) := by
  unfold NoSettings
  infer_instance

/-- What `cs_ftime` fills in. -/
def Clock (t : Timeb) : Prop := 0 ≤ t.millitm ∧ t.millitm < 1000

instance (t : Timeb) : Decidable (Clock t) := by
  unfold Clock
  infer_instance

/-- Every delay is positive and none shorter than one before it, and at `curTime` the reader is blocked
if and only if the last delay, from `last` on, is not over. -/
structure BacksOff (rdr : Reader) (delays : List ℤ) (last curTime : Timeb) : Prop where
  positive : ∀ delay ∈ delays, 0 < delay
  sorted : delays.Pairwise (· ≤ ·)
  blocked : isConnectBlocked rdr curTime = true ↔
    ∃ delay, delays.getLast? = some delay ∧ compTimeb curTime last < delay

variable {cfg : Cfg} {rdr : Reader}

theorem isConnectBlocked_iff (curTime : Timeb) : isConnectBlocked rdr curTime = true ↔
    rdr.tcpBlockDelay ≠ 0 ∧
      (BitVec.ofInt 32 (compTimeb curTime rdr.tcpBlockConnectTill)).toInt < 0 := by
  rw [isConnectBlocked, Bool.and_eq_true, decide_eq_true_eq, decide_eq_true_eq]

private theorem compTimeb_carry {tb : Timeb} (hhi : tb.millitm < 2000) (tpb : Timeb) :
    compTimeb tpb (if 1000 ≤ tb.millitm then ⟨tb.time + 1, tb.millitm.tmod 1000⟩ else tb) =
      compTimeb tpb tb := by
  unfold compTimeb
  by_cases hover : 1000 ≤ tb.millitm
  · have hrest : tb.millitm.tmod 1000 = tb.millitm % 1000 :=
      Int.tmod_eq_emod_of_nonneg (by omega)
    rw [if_pos hover, hrest]
    dsimp only
    omega
  · rw [if_neg hover]

theorem compTimeb_addMsToTimeb {tb : Timeb} (htb : Clock tb) (ms : ℤ) (tpb : Timeb) :
    compTimeb tpb (addMsToTimeb tb ms) = compTimeb tpb tb - ms := by
  obtain ⟨hlo, hhi⟩ := htb
  unfold addMsToTimeb
  by_cases hms : 1000 ≤ ms
  · have hdiv : ms.tdiv 1000 = ms / 1000 := Int.tdiv_eq_ediv_of_nonneg (by omega)
    have hmod : ms.tmod 1000 = ms % 1000 := Int.tmod_eq_emod_of_nonneg (by omega)
    rw [if_pos hms, hdiv, hmod, compTimeb_carry (by dsimp only; omega)]
    unfold compTimeb
    dsimp only
    omega
  · rw [if_neg hms, compTimeb_carry (by dsimp only; omega)]
    unfold compTimeb
    dsimp only
    omega

/-- One call from a reader whose next delay is `delay`. -/
theorem blockConnect_eq (hset : NoSettings cfg rdr) (now : Timeb) {delay : BitVec 32}
    (hdelay : (if rdr.tcpBlockDelay = 0 then 100 else rdr.tcpBlockDelay) = delay) :
    blockConnect cfg now rdr = some { rdr with
      tcpBlockConnectTill := addMsToTimeb now delay.toInt
      tcpBlockDelay := delay * 4 } := by
  have hattempts : ¬ (rdr.fromCfg = true ∧ 0 < cfg.cccamCfgReconnectAttempts.toInt) := by
    rintro ⟨hfrom, hpos⟩
    have := (hset hfrom).1
    omega
  have hsetting : ¬ (rdr.fromCfg = true ∧ 4 < cfg.cccamCfgReconnectDelay.toInt) := by
    rintro ⟨hfrom, hlt⟩
    have := (hset hfrom).2
    omega
  rw [blockConnect, if_neg hattempts, Option.map_some]
  dsimp only
  rw [hdelay, if_neg hsetting]

theorem blockConnects_append (nows : List Timeb) (mores : List Timeb) :
    blockConnects cfg rdr (nows ++ mores) = (blockConnects cfg rdr nows).bind fun r =>
      (blockConnects cfg r.1 mores).map fun q => (q.1, r.2 ++ q.2) := by
  induction nows generalizing rdr with
  | nil => simp [blockConnects]
  | cons now nows ih =>
    rw [List.cons_append, blockConnects, blockConnects]
    cases blockConnect cfg now rdr with
    | none => rfl
    | some next =>
      rw [Option.bind_some, Option.bind_some, ih]
      cases blockConnects cfg next nows with
      | none => rfl
      | some r =>
        cases hmore : blockConnects cfg r.1 mores <;> simp [hmore]

/-- The delay of the call after `n` calls. -/
def delayAt (n : ℕ) : BitVec 32 := 100 * 4 ^ n

theorem delayAt_succ (n : ℕ) : delayAt n * 4 = delayAt (n + 1) := by
  rw [delayAt, delayAt, BitVec.pow_succ, BitVec.mul_assoc]

/-- The thirteenth delay is the last one that fits. -/
theorem toInt_delayAt : ∀ n < 13, (delayAt n).toInt = 100 * 4 ^ n ∧ delayAt (n + 1) ≠ 0 := by
  decide

theorem toInt_delayAt_thirteen : (delayAt 13).toInt = -1879048192 := by decide

/-- The reader's next delay is the one after `n` calls. -/
def Next (rdr : Reader) (n : ℕ) : Prop :=
  (if rdr.tcpBlockDelay = 0 then 100 else rdr.tcpBlockDelay) = delayAt n

theorem next_zero (h : rdr.tcpBlockDelay = 0 ∨ rdr.tcpBlockDelay = 100) : Next rdr 0 := by
  have hzero : delayAt 0 = 100 := by decide
  rw [Next, hzero]
  rcases h with h | h
  · rw [if_pos h]
  · rw [if_neg (by rw [h]; decide), h]

/-- One call applies the reader's next delay, as long as that fits. -/
theorem Next.blockConnect {n : ℕ} (h : Next rdr n) (hset : NoSettings cfg rdr) {now : Timeb}
    (hnow : Clock now) (hn : n < 13) :
    ∃ next, blockConnect cfg now rdr = some next ∧ NoSettings cfg next ∧ Next next (n + 1) ∧
      next.tcpBlockDelay ≠ 0 ∧ ∀ curTime : Timeb,
        compTimeb curTime next.tcpBlockConnectTill = compTimeb curTime now - 100 * 4 ^ n := by
  obtain ⟨hfit, hne⟩ := toInt_delayAt n hn
  refine ⟨_, blockConnect_eq hset now h, hset, ?_, ?_, fun curTime => ?_⟩
  · rw [Next, if_neg, delayAt_succ]
    rwa [delayAt_succ]
  · dsimp only
    rwa [delayAt_succ]
  · rw [← hfit]
    exact compTimeb_addMsToTimeb hnow _ _

/-- The delays of up to thirteen calls. -/
theorem Next.blockConnects {n : ℕ} (h : Next rdr n) (hset : NoSettings cfg rdr) {nows : List Timeb}
    (hnows : ∀ now ∈ nows, Clock now) (hn : n + nows.length ≤ 13) :
    ∃ r, blockConnects cfg rdr nows =
        some (r, (List.range' n nows.length).map fun n => 100 * 4 ^ n) ∧
      NoSettings cfg r ∧ Next r (n + nows.length) := by
  induction nows generalizing rdr n with
  | nil => exact ⟨rdr, rfl, hset, h⟩
  | cons now nows ih =>
    rw [List.length_cons] at hn
    obtain ⟨next, hcall, hset', hnext, -, htill⟩ :=
      h.blockConnect hset (hnows now List.mem_cons_self) (by omega)
    obtain ⟨r, hrun, hset'', hr⟩ := ih hnext hset'
      (fun t ht => hnows t (List.mem_cons_of_mem _ ht)) (by omega)
    refine ⟨r, ?_, hset'', ?_⟩
    · have hdelay : compTimeb next.tcpBlockConnectTill now = 100 * 4 ^ n := by
        have := htill now
        unfold compTimeb at this ⊢
        omega
      rw [BackOff.blockConnects, hcall, Option.bind_some, hrun, Option.map_some, hdelay,
        List.length_cons, List.range'_succ, List.map_cons]
    · rw [List.length_cons]
      have harith : n + (nows.length + 1) = n + 1 + nows.length := by omega
      rwa [harith]

private theorem sorted_delays (m : ℕ) :
    ((List.range' 0 m).map fun n => (100 * 4 ^ n : ℤ)).Pairwise (· ≤ ·) := by
  rw [List.pairwise_map]
  refine (@List.pairwise_lt_range' 0 m 1 Nat.one_pos).imp fun {i j} hij => ?_
  have hpow : (4 : ℤ) ^ i ≤ 4 ^ j := pow_le_pow_right₀ (by decide) hij.le
  omega

/-- Up to thirteen calls: the reader afterwards, its delays and the end of the last one. -/
theorem Next.blockConnects_concat (h : Next rdr 0) (hset : NoSettings cfg rdr)
    {earlier : List Timeb} {last : Timeb} (hclock : ∀ now ∈ earlier ++ [last], Clock now)
    (hlen : earlier.length < 13) :
    ∃ r, BackOff.blockConnects cfg rdr (earlier ++ [last]) = some (r,
        ((List.range' 0 earlier.length).map fun n => 100 * 4 ^ n) ++ [100 * 4 ^ earlier.length]) ∧
      r.tcpBlockDelay ≠ 0 ∧ ∀ curTime : Timeb, compTimeb curTime r.tcpBlockConnectTill =
        compTimeb curTime last - 100 * 4 ^ earlier.length := by
  obtain ⟨r, hrun, hset', hr⟩ := h.blockConnects hset
    (fun now hnow => hclock now (List.mem_append_left _ hnow)) (by omega)
  rw [Nat.zero_add] at hr
  obtain ⟨final, hcall, -, -, hne, htill⟩ := hr.blockConnect hset'
    (hclock last (List.mem_append_right _ List.mem_cons_self)) hlen
  refine ⟨final, ?_, hne, htill⟩
  have hdelay : compTimeb final.tcpBlockConnectTill last = 100 * 4 ^ earlier.length := by
    have := htill last
    unfold compTimeb at this ⊢
    omega
  rw [blockConnects_append, hrun, Option.bind_some, BackOff.blockConnects, hcall,
    Option.bind_some, BackOff.blockConnects, Option.map_some, Option.map_some, hdelay]

/-- From the fourteenth call on there was a negative delay. -/
theorem Next.blockConnects_neg (h : Next rdr 0) (hset : NoSettings cfg rdr) {nows : List Timeb}
    (hclock : ∀ now ∈ nows, Clock now) (hlen : 13 < nows.length) {r : Reader × List ℤ}
    (hr : BackOff.blockConnects cfg rdr nows = some r) : ∃ delay ∈ r.2, delay < 0 := by
  have hmem : ∀ now ∈ nows.take 13, Clock now :=
    fun now hnow => hclock now (List.mem_of_mem_take hnow)
  have htake : (nows.take 13).length = 13 := by
    rw [List.length_take]
    omega
  obtain ⟨first, hfirst, hset', hnext⟩ := h.blockConnects hset hmem (by omega)
  rw [htake, Nat.zero_add] at hnext
  obtain ⟨now, rest, hdrop⟩ : ∃ now rest, nows.drop 13 = now :: rest := by
    cases hcase : nows.drop 13 with
    | nil =>
      have := List.drop_eq_nil_iff.mp hcase
      omega
    | cons now rest => exact ⟨now, rest, rfl⟩
  have hnow : Clock now :=
    hclock now (@List.mem_of_mem_drop _ _ 13 _ (hdrop ▸ List.mem_cons_self))
  rw [← List.take_append_drop 13 nows, blockConnects_append, hfirst, Option.bind_some, hdrop,
    BackOff.blockConnects, blockConnect_eq hset' now hnext, Option.bind_some] at hr
  obtain ⟨q, hq, rfl⟩ := Option.map_eq_some_iff.mp hr
  obtain ⟨tail, -, rfl⟩ := Option.map_eq_some_iff.mp hq
  refine ⟨_, List.mem_append_right _ List.mem_cons_self, ?_⟩
  have htill := compTimeb_addMsToTimeb hnow (delayAt 13).toInt now
  rw [toInt_delayAt_thirteen] at htill
  dsimp only
  rw [toInt_delayAt_thirteen]
  unfold compTimeb at htill ⊢
  omega

/-- The calls and the query behave as long as no delay and no time difference leaves its 32 bits: up to
the thirteenth call, and not in every other period of 2^31 ms from the end of the delay on. -/
theorem blockConnect_backsOff_iff (hset : NoSettings cfg rdr)
    (hstart : rdr.tcpBlockDelay = 0 ∨ rdr.tcpBlockDelay = 100) {earlier : List Timeb}
    {last : Timeb} (hclock : ∀ now ∈ earlier ++ [last], Clock now) (curTime : Timeb) :
    (∃ r, blockConnects cfg rdr (earlier ++ [last]) = some r ∧
      BacksOff r.1 r.2 last curTime) ↔
      earlier.length < 13 ∧ (compTimeb curTime last < 100 * 4 ^ earlier.length ↔
        (compTimeb curTime last - 100 * 4 ^ earlier.length) / 2 ^ 31 % 2 = 1) := by
  have hnext := next_zero hstart
  by_cases hlen : earlier.length < 13
  · obtain ⟨r, hall, hne, htill⟩ := hnext.blockConnects_concat hset hclock hlen
    have hblocked : isConnectBlocked r curTime = true ↔
        (compTimeb curTime last - 100 * 4 ^ earlier.length) / 2 ^ 31 % 2 = 1 := by
      have hneg : (BitVec.ofInt 32 (compTimeb curTime r.tcpBlockConnectTill)).toInt < 0 ↔ _ :=
        Signed.toInt_ofInt_neg_iff (w := 31)
      rw [htill] at hneg
      rw [← hneg, isConnectBlocked_iff, htill]
      exact and_iff_right hne
    constructor
    · rintro ⟨q, hq, hback⟩
      obtain rfl := Option.some.inj (hall.symm.trans hq)
      refine ⟨hlen, ?_⟩
      rw [← hblocked, hback.blocked]
      simp
    · rintro ⟨-, hiff⟩
      have hsorted := sorted_delays (earlier.length + 1)
      rw [List.range'_1_concat, List.map_append, List.map_singleton, Nat.zero_add] at hsorted
      refine ⟨_, hall, ⟨fun delay hmem => ?_, hsorted, ?_⟩⟩
      · obtain ⟨n, rfl⟩ : ∃ n : ℕ, delay = 100 * 4 ^ n := by
          rcases List.mem_append.mp hmem with hmem | hmem
          · obtain ⟨n, -, rfl⟩ := List.mem_map.mp hmem
            exact ⟨n, rfl⟩
          · exact ⟨_, List.mem_singleton.mp hmem⟩
        have : (0 : ℤ) < 4 ^ n := pow_pos (by decide) n
        omega
      · rw [hblocked, ← hiff]
        simp
  · constructor
    · rintro ⟨r, hr, hback⟩
      have hmany : 13 < (earlier ++ [last]).length := by
        rw [List.length_append, List.length_singleton]
        omega
      obtain ⟨delay, hmem, hneg⟩ := hnext.blockConnects_neg hset hclock hmany hr
      have := hback.positive delay hmem
      omega
    · rintro ⟨hlt, -⟩
      exact absurd hlt hlen

/-- A reader that is not from `cccam.cfg`. -/
def plainReader : Reader := ⟨R_CCCAM, false, 0, ⟨0, 0⟩, 0⟩

/-- The second call after a connection, asked about a second after it. -/
theorem blockConnect_backsOff_iff_second :
    ∃ r, blockConnects ⟨0, 0⟩ (clearBlockDelay ⟨0, 0⟩ plainReader) [⟨10, 900⟩, ⟨11, 100⟩] =
      some r ∧ BacksOff r.1 r.2 ⟨11, 100⟩ ⟨12, 100⟩ :=
  (@blockConnect_backsOff_iff ⟨0, 0⟩ _ (by decide) (Or.inl rfl) [⟨10, 900⟩] ⟨11, 100⟩
    (by decide) ⟨12, 100⟩).mpr (by decide)

/-- The fourteenth delay in a row is negative, and 2^31 ms after the end of its first delay a reader is
blocked again. -/
theorem blockConnect_not_backsOff :
    (¬ ∃ r, blockConnects ⟨0, 0⟩ (startBlockDelay ⟨0, 0⟩ plainReader)
        (List.replicate 13 ⟨0, 0⟩ ++ [⟨0, 0⟩]) = some r ∧
      BacksOff r.1 r.2 ⟨0, 0⟩ ⟨0, 0⟩) ∧
    ¬ ∃ r, blockConnects ⟨0, 0⟩ (startBlockDelay ⟨0, 0⟩ plainReader) [⟨0, 0⟩] = some r ∧
      BacksOff r.1 r.2 ⟨0, 0⟩ ⟨2147484, 0⟩ := by
  constructor
  · rintro ⟨r, hr, hback⟩
    have hrun : (blockConnects ⟨0, 0⟩ (startBlockDelay ⟨0, 0⟩ plainReader)
        (List.replicate 13 ⟨0, 0⟩ ++ [⟨0, 0⟩])).any (fun r => -1879048192 ∈ r.2) = true := by
      decide
    rw [hr, Option.any_some, decide_eq_true_eq] at hrun
    exact absurd (hback.positive _ hrun) (by decide)
  · rintro ⟨r, hr, hback⟩
    have hrun : (blockConnects ⟨0, 0⟩ (startBlockDelay ⟨0, 0⟩ plainReader) [⟨0, 0⟩]).any
        (fun r => r.2 = [100] ∧ isConnectBlocked r.1 ⟨2147484, 0⟩ = true) = true := by
      decide
    rw [hr, Option.any_some, decide_eq_true_eq] at hrun
    obtain ⟨delay, hlast, hlt⟩ := hback.blocked.mp hrun.2
    rw [hrun.1] at hlast
    obtain rfl := Option.some.inj hlast
    exact absurd hlt (by decide)

end NCam.Casc.BackOff
