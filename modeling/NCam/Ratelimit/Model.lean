import NCam.Lib.Slots
import NCam.Lib.Transition

/-! The ECM rate limiter of `ncam-reader.c` for a reader without cooldown: the slots of `ecm_ratelimit_findspace`, the
priority of DVBAPI users and `ecm_ratelimit_check`. `sort_ecmrl`, which is to keep the youngest requests in the slots
below the limit when the rate limit sets in. -/
namespace NCam.Ratelimit

open NCam.Lib

def MAXECMRATELIMIT : ℕ := 20

structure Timeb where
  time : ℤ
  millitm : ℤ
  deriving DecidableEq

/-- Milliseconds from `tpb` to `tpa`. -/
def compTimeb (tpa tpb : Timeb) : ℤ := (tpa.time - tpb.time) * 1000 + (tpa.millitm - tpb.millitm)

structure Ecmrl where
  last : Timeb
  kindecm : BitVec 8
  once : Bool
  ecmd5 : BitVec 128
  caid : BitVec 16
  provid : BitVec 32
  srvid : BitVec 16
  chid : BitVec 16
  ratelimitecm : ℤ
  ratelimittime : ℤ
  srvidholdtime : ℤ
  deriving DecidableEq

/-- What `memset` leaves. -/
def Ecmrl.zero : Ecmrl := ⟨⟨0, 0⟩, 0, false, 0, 0, 0, 0, 0, 0, 0, 0⟩

/-- The slot is not in use. -/
def Ecmrl.free (s : Ecmrl) : Bool := s.last.time = -1

def Ecmrl.used (s : Ecmrl) : Bool := !s.free

def Ecmrl.release (s : Ecmrl) : Ecmrl :=
  { s with last := { s.last with time := -1 }, srvid := 0xFFFF, kindecm := 0, once := false }

structure EcmRequest where
  caid : BitVec 16
  prid : BitVec 32
  srvid : BitVec 16
  chid : BitVec 16
  ecmd5 : BitVec 128
  /-- `ecm[0]`. -/
  kind : BitVec 8
  /-- DVBAPI is enabled, and the client is its user. -/
  dvbapi : Bool
  deriving DecidableEq

structure Reader where
  ratelimitecm : ℤ
  ratelimittime : ℤ
  srvidholdtime : ℤ
  ecmunique : Bool
  lastdvbapirateoverride : Timeb
  rlecmh : ℕ → Ecmrl

/-- The limits of `cfg.ratelimit_list` for the service, or none. -/
def getRatelimit (ratelimitList : List Ecmrl) (er : EcmRequest) : Ecmrl :=
  (ratelimitList.find? fun rl => rl.caid = er.caid ∧ rl.provid = er.prid ∧ rl.srvid = er.srvid ∧
    (rl.chid = 0 ∨ rl.chid = er.chid)).getD .zero

/-- The slot with the oldest request. -/
def dvbapiOverridePrio (reader : Reader) (er : EcmRequest) (actualtime : Timeb) :
    Reader × Option ℕ :=
  if !er.dvbapi then (reader, none)
  else
    let gone := if reader.lastdvbapirateoverride.time = 0 then
      compTimeb actualtime reader.lastdvbapirateoverride else 0
    if gone > reader.ratelimittime then
      let (_, foundspace) := (List.range MAXECMRATELIMIT).foldl (fun (minecmtime, foundspace) h =>
        if compTimeb minecmtime (reader.rlecmh h).last > 0 then ((reader.rlecmh h).last, some h)
        else (minecmtime, foundspace)) (actualtime, none)
      ({ reader with lastdvbapirateoverride := actualtime }, foundspace)
    else (reader, none)

/-- What is written as the answer of a request. -/
inductive Answer (γ : Type)
  | cached (ecm : γ)
  | notfound
  deriving DecidableEq

/-- The result of `ecm_ratelimit_findspace`: a slot, -1, or -2 with the answer written. -/
inductive Space (γ : Type)
  | slot (h : ℕ)
  | full
  | answered (a : Answer γ)
  deriving DecidableEq

section Findspace

variable {γ : Type} (actualtime : Timeb) (slots : ℕ → Ecmrl) (maxecms : ℤ)

/-- A slot that is overtime is released. -/
def releaseOvertime (s : Ecmrl) : Ecmrl :=
  if s.free then s
  else if compTimeb actualtime s.last ≥ s.ratelimittime + s.srvidholdtime ∨
      compTimeb actualtime s.last < 0 then s.release
  else s

/-- The most critical limit of the slots in use. -/
def maxEcms : ℤ :=
  (List.range MAXECMRATELIMIT).foldl (fun maxecms h =>
    if (slots h).free then maxecms
    else if (slots h).ratelimitecm < maxecms then (slots h).ratelimitecm else maxecms) MAXECMRATELIMIT

def totalEcms : ℕ := Slots.count Ecmrl.used slots MAXECMRATELIMIT

/-- The slot is for the service of the request; a slot without a chid is for every chid. -/
def Ecmrl.serves (s rl : Ecmrl) (er : EcmRequest) : Bool :=
  s.srvid = er.srvid ∧ s.caid = rl.caid ∧ s.provid = rl.provid ∧ (s.chid = 0 ∨ s.chid = rl.chid)

/-- The service moves from slot `h` to the first free slot below it. -/
def keepSlot (h : ℕ) : (ℕ → Ecmrl) × Space γ :=
  match Slots.firstWhere Ecmrl.free slots h with
  | some foundspace =>
    let slots := Function.update (Function.update slots foundspace (slots h)) h (slots h).release
    if foundspace < maxecms then (slots, .slot foundspace)
    else
      let s := slots foundspace
      (Function.update slots foundspace { s with last := { s.last with time := -1 } }, .full)
  | none =>
    if h < maxecms then (slots, .slot h)
    else (Function.update slots h (slots h).release, .full)

/-- The loop body that looks for the service in slot `h`; `none` goes on with the next slot. -/
def searchSlot (checkCache : EcmRequest → Option γ) (reader : Reader) (er : EcmRequest) (rl : Ecmrl)
    (readerMode : Bool) (h : ℕ) : Option ((ℕ → Ecmrl) × Space γ) :=
  let s := slots h
  if s.free then none
  else if !s.serves rl er then none
  else if readerMode && reader.ecmunique then
    let gone := compTimeb actualtime s.last
    if gone < reader.ratelimittime ∧ s.ecmd5 ≠ er.ecmd5 ∧ er.kind = s.kindecm then
      -- another ECM of the same type: the answer of the ECM in the slot is used
      match checkCache { er with ecmd5 := s.ecmd5 } with
      | some ecm => some (slots, .answered (.cached ecm))
      | none => some (slots, .answered .notfound)
    else if er.kind ≠ s.kindecm ∧ gone ≤ reader.ratelimittime then
      if !s.once then some (keepSlot (Function.update slots h { s with once := true }) maxecms h)
      else none
    else some (keepSlot slots maxecms h)
  else some (keepSlot slots maxecms h)

end Findspace

section Check

variable {γ : Type} (ratelimitList : List Ecmrl) (checkCache : EcmRequest → Option γ) (reader : Reader)
  (er : EcmRequest) (readerMode : Bool) (actualtime registered : Timeb)

def ecmRatelimitFindspace (rl : Ecmrl) : Reader × Space γ :=
  let slots := fun h => releaseOvertime actualtime (reader.rlecmh h)
  let maxecms := maxEcms slots
  let totalecms := totalEcms slots
  let reader := { reader with rlecmh := slots }
  match (List.range MAXECMRATELIMIT).findSome?
      (searchSlot actualtime slots maxecms checkCache reader er rl readerMode) with
  | some (slots, space) => ({ reader with rlecmh := slots }, space)
  | none =>
    if totalecms + 1 > maxecms ∨ totalecms + 1 > rl.ratelimitecm then (reader, .full)
    else
      match Slots.firstWhere Ecmrl.free slots maxecms.toNat with
      | some h => (reader, .slot h)
      | none =>
        match dvbapiOverridePrio reader er actualtime with
        | (reader, some foundspace) => (reader, .slot foundspace)
        | (reader, none) => (reader, .full)

/-- The limits of the request's service: its own, or those of the reader. -/
def limitsFor : Ecmrl :=
  let rl := getRatelimit ratelimitList er
  if rl.ratelimitecm > 0 then rl
  else
    { rl with
      ratelimitecm := reader.ratelimitecm, ratelimittime := reader.ratelimittime,
      srvidholdtime := reader.srvidholdtime,
      caid := er.caid, provid := er.prid, chid := er.chid, srvid := er.srvid }

/-- The result of `ecm_ratelimit_check`: `OK` or `ERROR`, and the answer that was written. -/
structure Outcome (γ : Type) where
  reader : Reader
  ok : Bool
  answer : Option (Answer γ)

/-- What a slot records of the request. -/
def register (rl : Ecmrl) : Ecmrl := { rl with last := registered, ecmd5 := er.ecmd5, kindecm := er.kind }

def ecmRatelimitCheck : Outcome γ :=
  if reader.ratelimitecm = 0 then ⟨reader, true, none⟩
  else
    let rl := limitsFor ratelimitList reader er
    let (reader, space) := ecmRatelimitFindspace checkCache reader er readerMode actualtime rl
    match space with
    | .answered a => ⟨reader, false, some a⟩
    | .full => ⟨reader, false, if readerMode then some .notfound else none⟩
    | .slot foundspace =>
      if readerMode then
        let rlecmh := Function.update reader.rlecmh foundspace (register er registered rl)
        ⟨{ reader with rlecmh }, true, none⟩
      else ⟨reader, true, none⟩

end Check

/-- The youngest slot found so far, and its request. -/
structure Youngest where
  loc : ℕ
  tmp : Ecmrl

/-- The inner loop, on the slots above `i`. -/
def findYounger (slots : ℕ → Ecmrl) (i : ℕ) : Youngest :=
  (List.range' (i + 1) (MAXECMRATELIMIT - (i + 1))).foldl (fun y j =>
    if (slots j).free then y
    else
      let gone := BitVec.ofInt 32 (compTimeb (slots i).last y.tmp.last)
      if 0 < gone.toInt then ⟨j, slots j⟩ else y) ⟨i, slots i⟩

/-- The body of the outer loop. -/
def sortSlot (slots : ℕ → Ecmrl) (i : ℕ) : ℕ → Ecmrl :=
  if (slots i).free then slots
  else
    let y := findYounger slots i
    if y.loc ≠ i then Function.update (Function.update slots y.loc (slots i)) i y.tmp else slots

/-- The slots above the limit are released. -/
def releaseFrom (ratelimitecm : ℕ) (slots : ℕ → Ecmrl) : ℕ → Ecmrl := fun i =>
  if ratelimitecm ≤ i ∧ i < MAXECMRATELIMIT then (slots i).release else slots i

/-- There is no result when a slot outside of the table is used. -/
def sortEcmrl (ratelimitecm : ℤ) (slots : ℕ → Ecmrl) : Option (ℕ → Ecmrl) :=
  ((List.range ratelimitecm.toNat).foldlM (fun slots i =>
    if i < MAXECMRATELIMIT then some (sortSlot slots i) else none) slots).bind fun slots =>
      if ratelimitecm < 0 then none else some (releaseFrom ratelimitecm.toNat slots)

/-- The requests in the slots from `a` on. -/
def requests (slots : ℕ → Ecmrl) (a n : ℕ) : List Ecmrl :=
  ((List.range' a n).map slots).filter Ecmrl.used

/-- The requests below the limit are the youngest ones, as many as there is room for, and the slots above
are free. -/
def KeepsYoungest (ratelimitecm : ℤ) (slots : ℕ → Ecmrl) : Prop :=
  ∃ sorted, sortEcmrl ratelimitecm slots = some sorted ∧
    (∀ i : ℕ, ratelimitecm ≤ i → i < MAXECMRATELIMIT → (sorted i).free = true) ∧
    ∃ dropped, (requests slots 0 MAXECMRATELIMIT).Perm
        (requests sorted 0 ratelimitecm.toNat ++ dropped) ∧
      (requests sorted 0 ratelimitecm.toNat).length =
        min ratelimitecm.toNat (requests slots 0 MAXECMRATELIMIT).length ∧
      ∀ kept ∈ requests sorted 0 ratelimitecm.toNat, ∀ old ∈ dropped,
        compTimeb old.last kept.last ≤ 0

variable {slots : ℕ → Ecmrl} {ratelimitecm : ℤ}

/-- The loop compares the request of slot `i` with itself. -/
theorem findYounger_eq (slots : ℕ → Ecmrl) (i : ℕ) : findYounger slots i = ⟨i, slots i⟩ := by
  have hself : compTimeb (slots i).last (slots i).last = 0 := by
    unfold compTimeb
    omega
  unfold findYounger
  induction List.range' (i + 1) (MAXECMRATELIMIT - (i + 1)) with
  | nil => rfl
  | cons j js ih =>
    have hzero : ¬ 0 < (BitVec.ofInt 32 0).toInt := by decide
    rw [List.foldl_cons]
    dsimp only
    rw [hself, if_neg hzero, ite_self]
    exact ih

theorem sortSlot_eq (slots : ℕ → Ecmrl) (i : ℕ) : sortSlot slots i = slots := by
  unfold sortSlot
  rw [findYounger_eq]
  simp

private theorem sortSlots_eq (slots : ℕ → Ecmrl) (n : ℕ) :
    (List.range n).foldlM (fun slots i =>
      if i < MAXECMRATELIMIT then some (sortSlot slots i) else none) slots =
        if n ≤ MAXECMRATELIMIT then some slots else none := by
  induction n with
  | zero => rfl
  | succ n ih =>
    rw [List.range_succ, List.foldlM_append, ih]
    by_cases hn : n < MAXECMRATELIMIT
    · rw [if_pos hn.le, if_pos (show n + 1 ≤ MAXECMRATELIMIT from hn)]
      simp [hn, sortSlot_eq]
    · rw [if_neg (show ¬ n + 1 ≤ MAXECMRATELIMIT from hn)]
      split_ifs
      · simp [hn]
      · rfl

/-- Nothing is sorted. -/
theorem sortEcmrl_eq : sortEcmrl ratelimitecm slots =
    if 0 ≤ ratelimitecm ∧ ratelimitecm ≤ MAXECMRATELIMIT then
      some (releaseFrom ratelimitecm.toNat slots)
    else none := by
  have hmax : (MAXECMRATELIMIT : ℤ) = 20 := rfl
  unfold sortEcmrl
  rw [sortSlots_eq]
  by_cases hlo : ratelimitecm < 0
  · have hno : ¬ (0 ≤ ratelimitecm ∧ ratelimitecm ≤ MAXECMRATELIMIT) := by omega
    rw [if_neg hno, if_pos (by omega), Option.bind_some, if_pos hlo]
  · by_cases hhi : ratelimitecm.toNat ≤ MAXECMRATELIMIT
    · rw [if_pos hhi, if_pos (by omega), Option.bind_some, if_neg hlo]
    · rw [if_neg hhi, if_neg (by omega)]
      rfl

theorem releaseFrom_of_lt {n i : ℕ} (h : i < n) : releaseFrom n slots i = slots i :=
  if_neg fun hi => absurd hi.1 (Nat.not_le.mpr h)

theorem releaseFrom_free {n i : ℕ} (h : n ≤ i) (hi : i < MAXECMRATELIMIT) :
    (releaseFrom n slots i).free = true := by
  rw [releaseFrom, if_pos ⟨h, hi⟩]
  rfl

theorem requests_releaseFrom (n : ℕ) : requests (releaseFrom n slots) 0 n = requests slots 0 n := by
  unfold requests
  rw [List.map_congr_left fun i hi => releaseFrom_of_lt (by simpa using hi)]

theorem requests_split (slots : ℕ → Ecmrl) {n : ℕ} (h : n ≤ MAXECMRATELIMIT) :
    requests slots 0 MAXECMRATELIMIT =
      requests slots 0 n ++ requests slots n (MAXECMRATELIMIT - n) := by
  have hrange : List.range' 0 MAXECMRATELIMIT =
      List.range' 0 n ++ List.range' n (MAXECMRATELIMIT - n) := by
    have := List.range'_append_1 (s := 0) (m := n) (n := MAXECMRATELIMIT - n)
    rw [Nat.zero_add, Nat.add_sub_cancel' h] at this
    exact this.symm
  unfold requests
  rw [hrange, List.map_append, List.filter_append]

theorem mem_requests {a n : ℕ} {s : Ecmrl} :
    s ∈ requests slots a n ↔ ∃ i, a ≤ i ∧ i < a + n ∧ (slots i).used = true ∧ slots i = s := by
  unfold requests
  rw [List.mem_filter, List.mem_map]
  constructor
  · rintro ⟨⟨i, hi, rfl⟩, hu⟩
    rw [List.mem_range'_1] at hi
    exact ⟨i, hi.1, hi.2, hu, rfl⟩
  · rintro ⟨i, hlo, hhi, hu, rfl⟩
    exact ⟨⟨i, List.mem_range'_1.mpr ⟨hlo, hhi⟩, rfl⟩, hu⟩

/-- All slots below `n` are in use if and only if there are `n` requests. -/
theorem length_requests (slots : ℕ → Ecmrl) (n : ℕ) : (requests slots 0 n).length ≤ n ∧
    ((requests slots 0 n).length = n ↔ ∀ i < n, (slots i).used = true) := by
  have hlen : ((List.range' 0 n).map slots).length = n := by simp
  have hall := List.length_filter_eq_length_iff (p := Ecmrl.used) (l := (List.range' 0 n).map slots)
  rw [hlen] at hall
  unfold requests
  refine ⟨(List.length_filter_le _ _).trans hlen.le, hall.trans ?_⟩
  simp

/-- `sort_ecmrl` keeps the youngest requests if and only if they were in the slots below the limit
before. -/
theorem sortEcmrl_keepsYoungest_iff (ratelimitecm : ℤ) (slots : ℕ → Ecmrl) :
    KeepsYoungest ratelimitecm slots ↔
      0 ≤ ratelimitecm ∧ ratelimitecm ≤ MAXECMRATELIMIT ∧
        ∀ j : ℕ, ratelimitecm ≤ j → j < MAXECMRATELIMIT → (slots j).used = true →
          ∀ i : ℕ, i < ratelimitecm → (slots i).used = true ∧
            compTimeb (slots j).last (slots i).last ≤ 0 := by
  unfold KeepsYoungest
  rw [sortEcmrl_eq]
  by_cases hrange : 0 ≤ ratelimitecm ∧ ratelimitecm ≤ MAXECMRATELIMIT
  case neg =>
    rw [if_neg hrange]
    constructor
    · rintro ⟨sorted, hs, -⟩
      cases hs
    · rintro ⟨hlo, hhi, -⟩
      exact absurd ⟨hlo, hhi⟩ hrange
  obtain ⟨n, rfl⟩ := Int.eq_ofNat_of_zero_le hrange.1
  have hn : n ≤ MAXECMRATELIMIT := by exact_mod_cast hrange.2
  have hsplit := requests_split slots hn
  obtain ⟨hle, hfull⟩ := length_requests slots n
  have hlen : (requests slots 0 MAXECMRATELIMIT).length =
      (requests slots 0 n).length + (requests slots n (MAXECMRATELIMIT - n)).length := by
    rw [hsplit, List.length_append]
  rw [if_pos hrange, Int.toNat_natCast]
  constructor
  · rintro ⟨sorted, hs, -, dropped, hperm, hcount, hyoung⟩
    obtain rfl := Option.some.inj hs
    rw [requests_releaseFrom] at hperm hcount hyoung
    rw [hsplit, List.perm_append_left_iff] at hperm
    refine ⟨hrange.1, hrange.2, fun j hlo hhi hused i hi => ?_⟩
    have hj : slots j ∈ requests slots n (MAXECMRATELIMIT - n) :=
      mem_requests.mpr ⟨j, by omega, by omega, hused, rfl⟩
    have hpos := List.length_pos_of_mem hj
    have hi' : i < n := by omega
    have hiused := hfull.mp (by omega) i hi'
    refine ⟨hiused, hyoung _ (mem_requests.mpr ⟨i, by omega, by omega, hiused, rfl⟩) _ ?_⟩
    exact hperm.mem_iff.mp hj
  · rintro ⟨-, -, hcond⟩
    refine ⟨_, rfl, fun i hlo hhi => releaseFrom_free (by omega) hhi,
      requests slots n (MAXECMRATELIMIT - n), ?_, ?_, ?_⟩
    · rw [requests_releaseFrom, hsplit]
    · rw [requests_releaseFrom]
      cases hrest : requests slots n (MAXECMRATELIMIT - n) with
      | nil =>
        rw [hrest, List.length_nil] at hlen
        omega
      | cons s rest =>
        have hs : s ∈ requests slots n (MAXECMRATELIMIT - n) := hrest ▸ List.mem_cons_self
        obtain ⟨j, hlo, hhi, hused, -⟩ := mem_requests.mp hs
        have := hfull.mpr fun i hi => (hcond j (by omega) (by omega) hused i (by omega)).1
        omega
    · rw [requests_releaseFrom]
      intro kept hkept old hold
      obtain ⟨i, -, hi, -, rfl⟩ := mem_requests.mp hkept
      obtain ⟨j, hlo, hhi, hused, rfl⟩ := mem_requests.mp hold
      exact (hcond j (by omega) (by omega) hused i (by omega)).2

/-- A slot in use since the time `t`. -/
def slotAt (t : ℤ) : Ecmrl := { Ecmrl.zero with last := ⟨t, 0⟩ }

/-- One slot is left, for the older of two requests. -/
theorem sortEcmrl_keeps_older :
    ¬ KeepsYoungest 1 fun i => if i = 0 then slotAt 10 else if i = 1 then slotAt 20
      else Ecmrl.zero.release := by
  rintro ⟨sorted, hs, -, dropped, hperm, -, hyoung⟩
  have hkept : requests sorted 0 1 = [slotAt 10] := by
    rw [sortEcmrl_eq, if_pos (by decide)] at hs
    obtain rfl := Option.some.inj hs
    decide
  have hall : requests (fun i => if i = 0 then slotAt 10 else if i = 1 then slotAt 20
      else Ecmrl.zero.release) 0 MAXECMRATELIMIT = [slotAt 10, slotAt 20] := by
    decide
  have hone : (1 : ℤ).toNat = 1 := rfl
  rw [hone, hkept] at hperm hyoung
  rw [hall] at hperm
  have hold : slotAt 20 ∈ dropped := by
    have hmem := hperm.mem_iff.mp (show slotAt 20 ∈ [slotAt 10, slotAt 20] by decide)
    rcases List.mem_append.mp hmem with hmem | hmem
    · exact absurd hmem (by decide)
    · exact hmem
  exact absurd (hyoung _ List.mem_cons_self _ hold) (by decide)

end NCam.Ratelimit
