import NCam.Cccam.SendEcm

/-! Which of the waiting requests `cc_get_nxt_ecm` returns: the first one of the latest second, and when this
is the one received first. -/
namespace NCam.Cccam.SendEcm

section Defs

variable (env : Env) (time : ℤ) (peer : NodeId) (ext : Bool)

/-- A request that `cc_get_nxt_ecm` answers with a timeout. -/
def EcmTask.timedOut (er : EcmTask) : Prop := time - er.tps ≥ env.ctimeout + 500

instance (er : EcmTask) : Decidable (er.timedOut env time) := inferInstanceAs (Decidable (_ ≤ _))

/-- A request that waits and is answered neither with a timeout nor as a loop. -/
def EcmTask.eligible (er : EcmTask) : Prop :=
  er.waiting = true ∧ ¬ er.timedOut env time ∧ loopCheck peer er.client = false

instance (er : EcmTask) : Decidable (er.eligible env time peer) :=
  inferInstanceAs (Decidable (_ ∧ _ ∧ _))

/-- Another request with the same caid and ECM was sent and is not answered; `ecmd5` has the hashes of the
slots. -/
def PendingTwin (ecmd5 : ℕ → Vector Byte 16) (l : List EcmTask) (i : ℕ) (er : EcmTask) : Prop :=
  ∃ j erx, l[j]? = some erx ∧ i ≠ j ∧ erx.rc = E_ALREADY_SENT ∧ ¬ erx.timedOut env time ∧
    er.caid = erx.caid ∧ ecmd5 i = ecmd5 j

/-- The requests that may go next. -/
def Candidate (ecmd5 : ℕ → Vector Byte 16) (l : List EcmTask) (i : ℕ) (er : EcmTask) : Prop :=
  l[i]? = some er ∧ er.eligible env time peer ∧ (ext = true → ¬ PendingTwin env time ecmd5 l i er)

/-- None is returned only if none may go, and else one that may go and was received first. -/
def NextRight (ecmd5 : ℕ → Vector Byte 16) (l : List EcmTask) : Prop :=
  match (ccGetNxtEcm env time peer ext l).next with
  | none => ∀ i er, ¬ Candidate env time peer ext ecmd5 l i er
  | some (n, ern) => Candidate env time peer ext ecmd5 l n ern ∧
      ∀ i er, Candidate env time peer ext ecmd5 l i er → ern.tps ≤ er.tps

def EcmTask.second (er : EcmTask) : ℤ := er.tps / 1000

/-- The first of the requests of the latest second, among those of the first `m` slots that wait. -/
def LatestFirst (l : List EcmTask) (m n : ℕ) (ern : EcmTask) : Prop :=
  n < m ∧ l[n]? = some ern ∧ ern.eligible env time peer ∧
    ∀ j < m, ∀ er : EcmTask, l[j]? = some er → er.eligible env time peer →
      er.second ≤ ern.second ∧ (j < n → er.second < ern.second)

/-- No request waits, or the first one of the latest second may go, and none that may go was received before
it. -/
def LatestIsFirst (ecmd5 : ℕ → Vector Byte 16) (l : List EcmTask) : Prop :=
  (∀ (i : ℕ) (er : EcmTask), l[i]? = some er → ¬ er.eligible env time peer) ∨
    ∃ n ern, LatestFirst env time peer l l.length n ern ∧
      (ext = true → ¬ PendingTwin env time ecmd5 l n ern) ∧
      ∀ i er, Candidate env time peer ext ecmd5 l i er → ern.tps ≤ er.tps

end Defs

section Claims

variable {env : Env} {time : ℤ} {peer : NodeId} {ext : Bool} {l : List EcmTask} {s : Scan} {i m : ℕ}
  {er : EcmTask}

/-- No request is ever found to be pending already. -/
theorem alreadyPending_eq_false : alreadyPending l i er = false := by
  unfold alreadyPending
  rw [List.any_eq_false]
  intro j _ hany
  cases hj : l[j]? with
  | none => simp [hj] at hany
  | some erx =>
    rw [hj] at hany
    simp only [Option.any_some, Bool.and_eq_true, decide_eq_true_eq] at hany
    exact hany.1.1.1 hany.2

/-- A step keeps the slots behind it. -/
private theorem scanStep_behind {j : ℕ} (hj : i < j) :
    (scanStep env time peer ext s i).ecmtask[j]? = s.ecmtask[j]? := by
  unfold scanStep
  split
  · rfl
  · split_ifs <;> simp [List.getElem?_set_ne (Nat.ne_of_lt hj)]

/-- A step takes an eligible request of a later second than the one so far. -/
private theorem scanStep_next (hi : s.ecmtask[i]? = some er) :
    (scanStep env time peer ext s i).next =
      if er.eligible env time peer ∧ s.next.all (fun ern => ern.2.second < er.second) = true then
        some (i, er)
      else s.next := by
  have hactive : er.waiting = true → E_NOCARD ≤ er.rc := by
    intro hwait
    unfold EcmTask.waiting at hwait
    exact of_decide_eq_true (Bool.and_eq_true_iff.mp hwait).1
  have hlater : (s.next.all fun ern => decide (ern.2.tps / 1000 - er.tps / 1000 < 0)) =
      s.next.all fun ern => decide (ern.2.second < er.second) := by
    simp only [sub_neg]
    rfl
  unfold scanStep
  rw [hi]
  dsimp only
  by_cases htime : time - er.tps ≥ env.ctimeout + 500 ∧ er.rc ≥ E_NOCARD
  · rw [if_pos htime, if_neg]
    intro h
    exact h.1.2.1 htime.1
  · rw [if_neg htime]
    by_cases hwait : er.waiting = true
    · have htimed : ¬ er.timedOut env time := fun h => htime ⟨h, hactive hwait⟩
      rw [if_pos hwait, alreadyPending_eq_false, Bool.and_false, Bool.not_false, Bool.and_true, hlater]
      by_cases hloop : loopCheck peer er.client = true
      · rw [if_pos hloop, if_neg]
        intro h
        exact absurd (hloop.symm.trans h.1.2.2) (by decide)
      · have heligible : er.eligible env time peer := ⟨hwait, htimed, by simpa using hloop⟩
        rw [if_neg hloop]
        by_cases hall : s.next.all (fun ern => decide (ern.2.second < er.second)) = true
        · rw [if_pos hall, if_pos ⟨heligible, hall⟩]
        · rw [if_neg hall, if_neg fun h => hall h.2]
    · rw [if_neg hwait, if_neg]
      intro h
      exact hwait h.1.1

/-- The latest request stays the latest over a slot that has no later one. -/
private theorem LatestFirst.extend {n : ℕ} {ern : EcmTask} (h : LatestFirst env time peer l m n ern)
    (hm : ∀ er : EcmTask, l[m]? = some er → er.eligible env time peer → er.second ≤ ern.second) :
    LatestFirst env time peer l (m + 1) n ern := by
  obtain ⟨hlt, hget, heligible, hall⟩ := h
  refine ⟨by omega, hget, heligible, ?_⟩
  intro j hj er hjer hel
  obtain hj | rfl := Nat.lt_succ_iff_lt_or_eq.mp hj
  · exact hall j hj er hjer hel
  · exact ⟨hm er hjer hel, fun h => by omega⟩

/-- What is found after `m` slots, with the slots behind them as they were. -/
private def Scanned (env : Env) (time : ℤ) (peer : NodeId) (l : List EcmTask) (m : ℕ) (s : Scan) : Prop :=
  (∀ j, m ≤ j → s.ecmtask[j]? = l[j]?) ∧
    (s.next = none → ∀ j < m, ∀ er : EcmTask, l[j]? = some er → ¬ er.eligible env time peer) ∧
    ∀ n ern, s.next = some (n, ern) → LatestFirst env time peer l m n ern

private theorem scanned_step (h : Scanned env time peer l m s) :
    Scanned env time peer l (m + 1) (scanStep env time peer ext s m) := by
  obtain ⟨hbehind, hnone, hsome⟩ := h
  have hslots : ∀ j, m + 1 ≤ j → (scanStep env time peer ext s m).ecmtask[j]? = l[j]? := by
    intro j hj
    rw [scanStep_behind (by omega), hbehind j (by omega)]
  refine ⟨hslots, ?_⟩
  cases hm : l[m]? with
  | none =>
    have hskip : scanStep env time peer ext s m = s := by
      unfold scanStep
      rw [hbehind m le_rfl, hm]
    rw [hskip]
    constructor
    · intro hnext j hj er hjer
      obtain hlt | rfl := Nat.lt_succ_iff_lt_or_eq.mp hj
      · exact hnone hnext j hlt er hjer
      · exact absurd (hm.symm.trans hjer) (by simp)
    · intro n ern hnext
      refine (hsome n ern hnext).extend ?_
      intro er hmer
      exact absurd (hm.symm.trans hmer) (by simp)
  | some er =>
    rw [scanStep_next ((hbehind m le_rfl).trans hm)]
    by_cases htake : er.eligible env time peer ∧
        s.next.all (fun ern => ern.2.second < er.second) = true
    · rw [if_pos htake]
      obtain ⟨heligible, hlater⟩ := htake
      refine ⟨fun h => absurd h (by simp), ?_⟩
      intro n ern hnext
      obtain ⟨rfl, rfl⟩ := Prod.mk.inj (Option.some.inj hnext)
      refine ⟨by omega, hm, heligible, ?_⟩
      intro j hj er' hjer hel
      obtain hlt | rfl := Nat.lt_succ_iff_lt_or_eq.mp hj
      · cases hbest : s.next with
        | none => exact absurd hel (hnone hbest j hlt er' hjer)
        | some best =>
          have hle := ((hsome best.1 best.2 hbest).2.2.2 j hlt er' hjer hel).1
          have hless : best.2.second < er.second := by simpa [hbest] using hlater
          exact ⟨by omega, fun _ => by omega⟩
      · have heq : er = er' := Option.some.inj (hm.symm.trans hjer)
        rw [heq]
        exact ⟨le_rfl, fun h => absurd h (lt_irrefl _)⟩
    · rw [if_neg htake]
      constructor
      · intro hnext j hj er' hjer hel
        obtain hlt | rfl := Nat.lt_succ_iff_lt_or_eq.mp hj
        · exact hnone hnext j hlt er' hjer hel
        · have heq : er = er' := Option.some.inj (hm.symm.trans hjer)
          rw [← heq] at hel
          exact htake ⟨hel, by rw [hnext]; rfl⟩
      · intro n ern hnext
        refine (hsome n ern hnext).extend ?_
        intro er' hmer hel
        have heq : er = er' := Option.some.inj (hm.symm.trans hmer)
        rw [← heq] at hel ⊢
        by_contra hlt
        exact htake ⟨hel, by simpa [hnext] using hlt⟩

private theorem scanned_ccGetNxtEcm :
    Scanned env time peer l l.length (ccGetNxtEcm env time peer ext l) := by
  have hall : ∀ m, Scanned env time peer l m
      ((List.range m).foldl (scanStep env time peer ext) ⟨l, none, 0⟩) := by
    intro m
    induction m with
    | zero =>
      refine ⟨fun _ _ => rfl, ?_, ?_⟩
      · intro _ j hj
        exact absurd hj (Nat.not_lt_zero j)
      · intro n ern h
        cases h
    | succ m ih =>
      rw [List.range_succ, List.foldl_append]
      exact scanned_step ih
  exact hall l.length

/-- The request returned is the first one of the latest second. -/
theorem ccGetNxtEcm_some {n : ℕ} {ern : EcmTask}
    (h : (ccGetNxtEcm env time peer ext l).next = some (n, ern)) :
    LatestFirst env time peer l l.length n ern := scanned_ccGetNxtEcm.2.2 n ern h

/-- None is returned only if none waits. -/
theorem ccGetNxtEcm_none (h : (ccGetNxtEcm env time peer ext l).next = none) (hi : l[i]? = some er) :
    ¬ er.eligible env time peer := by
  have hlt : i < l.length := (List.getElem?_eq_some_iff.mp hi).1
  exact scanned_ccGetNxtEcm.2.1 h i hlt er hi

/-- There is one first request of the latest second. -/
private theorem LatestFirst.unique {n n' : ℕ} {ern ern' : EcmTask}
    (h : LatestFirst env time peer l m n ern) (h' : LatestFirst env time peer l m n' ern') :
    n = n' ∧ ern = ern' := by
  obtain ⟨hlt, hget, heligible, hall⟩ := h
  obtain ⟨hlt', hget', heligible', hall'⟩ := h'
  have hle := hall n' hlt' ern' hget' heligible'
  have hle' := hall' n hlt ern hget heligible
  have hn : n = n' := by
    rcases lt_trichotomy n n' with hlt | heq | hgt
    · have := hle'.2 hlt
      omega
    · exact heq
    · have := hle.2 hgt
      omega
  rw [← hn] at hget'
  exact ⟨hn, Option.some.inj (hget.symm.trans hget')⟩

/-- The request received first is returned, and no request that is pending already, if and only if none waits
or the first one of the latest second is such a request. -/
theorem nextRight_iff (env : Env) (time : ℤ) (peer : NodeId) (ext : Bool)
    (ecmd5 : ℕ → Vector Byte 16) (l : List EcmTask) :
    NextRight env time peer ext ecmd5 l ↔ LatestIsFirst env time peer ext ecmd5 l := by
  unfold NextRight LatestIsFirst
  cases hnext : (ccGetNxtEcm env time peer ext l).next with
  | none =>
    have hidle : ∀ (i : ℕ) (er : EcmTask), l[i]? = some er → ¬ er.eligible env time peer :=
      fun i er hi => ccGetNxtEcm_none hnext hi
    constructor
    · intro _
      exact .inl hidle
    · intro _ i er hcandidate
      exact hidle i er hcandidate.1 hcandidate.2.1
  | some next =>
    obtain ⟨n, ern⟩ := next
    have hlatest := ccGetNxtEcm_some hnext
    constructor
    · intro h
      exact .inr ⟨n, ern, hlatest, h.1.2.2, h.2⟩
    · intro h
      cases h with
      | inl hidle => exact absurd hlatest.2.2.1 (hidle n ern hlatest.2.1)
      | inr hfirst =>
        obtain ⟨n', ern', hlatest', hpending, hfirst⟩ := hfirst
        obtain ⟨rfl, rfl⟩ := hlatest.unique hlatest'
        exact ⟨⟨hlatest.2.1, hlatest.2.2.1, hpending⟩, hfirst⟩

/-- A request received at `tps`. -/
private def task (tps : ℤ) : EcmTask where
  caid := 0x0500
  prid := 0
  srvid := 1
  ecm := []
  ecmlen_le := Nat.zero_le _
  chid := 0
  pid := 0
  rc := E_NOCARD
  idx := 0
  tps := tps
  client := none
  fromReader := false
  originCard := none

private def loneEnv : Env :=
  ⟨5000, false, false, 0, false, 0, fun _ => false, fun _ => 0, fun _ => true⟩

/-- Of two requests the one received a second later goes first. -/
theorem later_first : ¬ NextRight loneEnv 102000 (Vector.replicate 8 0) false
    (fun _ => Vector.replicate 16 0) [task 100000, task 101000] := by
  have hnext : (ccGetNxtEcm loneEnv 102000 (Vector.replicate 8 0) false
      [task 100000, task 101000]).next = some (1, task 101000) := rfl
  intro h
  unfold NextRight at h
  rw [hnext] at h
  have hfirst : Candidate loneEnv 102000 (Vector.replicate 8 0) false
      (fun _ => Vector.replicate 16 0) [task 100000, task 101000] 0 (task 100000) :=
    ⟨rfl, by decide, fun hext => absurd hext (by decide)⟩
  have hle : (101000 : ℤ) ≤ 100000 := h.2 0 (task 100000) hfirst
  omega

end Claims

end NCam.Cccam.SendEcm
