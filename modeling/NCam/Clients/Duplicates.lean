import NCam.Lib.Slots
import NCam.Lib.Transition

/-! Logins with one account: `cs_fake_client` marks duplicates at a login and when the accounts are
reloaded. Duplicates are not disconnected (`dropdups` is off). -/
namespace NCam.Clients

open NCam.Lib NCam.Lib.Slots

/-- `s_client`. `pending`: the account is assigned, but `cs_fake_client` has not run yet; `unvisited`:
`cs_reinit_clients` has not come to the client yet. -/
structure Client where
  connected : Bool
  ip : ℕ
  account : Bool
  dup : Bool
  pending : Bool
  unvisited : Bool
deriving DecidableEq

def Client.gone : Client := ⟨false, 0, false, false, false, false⟩

/-- Connected with the account and not marked. -/
def Client.active (cl : Client) : Bool := cl.connected && cl.account && !cl.dup

/-- `uniq` and `max_connections` of the account. -/
structure Account where
  uniq : ℕ
  maxConnections : ℕ

/-- The clients in the order of the list, the number of them so far, and whether one has logged in since
one was disconnected. -/
structure Server where
  clients : ℕ → Client
  count : ℕ
  loggedIn : Bool

/-- The loop of `cs_fake_client`: `left` after its `break`. -/
structure Walk where
  clients : ℕ → Client
  conCount : ℕ
  left : Bool

variable (account : Account)

/-- One client of the list. -/
def fakeStep (uniq client ip : ℕ) (w : Walk) (k : ℕ) : Walk :=
  let cl := w.clients k
  if w.left then w
  else if k ≠ client ∧ cl.active = true ∧ uniq < 5 ∧ (uniq % 2 = 1 ∨ cl.ip ≠ ip) then
    let conCount := w.conCount + 1
    if conCount ≤ account.maxConnections then { w with conCount }
    else if uniq = 3 ∨ uniq = 4 then
      { w with clients := Function.update w.clients k { cl with dup := true }, conCount }
    else
      { clients := Function.update w.clients client { w.clients client with dup := true }
        conCount := conCount
        left := true }
  else w

/-- `cs_fake_client`, which is not called if the account has no uniq. -/
def fakeClient (uniq client count : ℕ) (clients : ℕ → Client) : ℕ → Client :=
  if account.uniq = 0 then clients
  else
    ((List.range count).foldl (fakeStep account uniq client (clients client).ip)
      ⟨clients, 1, false⟩).clients

def Server.set (s : Server) (i : ℕ) (cl : Client) : Server :=
  { s with clients := Function.update s.clients i cl }

/-- The client that `cs_reinit_clients` comes to next. -/
def Server.next (s : Server) : Option ℕ := firstWhere Client.unvisited s.clients s.count

inductive Event
  | connect (ip : ℕ)
  | assign (client : ℕ)
  | check (client : ℕ)
  | disconnect (client : ℕ)
  | reload
  | visit
deriving DecidableEq

/-- The uniq that `cs_reinit_clients` passes on. -/
def Account.reloadUniq : ℕ := if account.uniq = 1 ∨ account.uniq = 2 then account.uniq + 2 else account.uniq

def Server.step (s : Server) : Event → Option Server
  | .connect ip =>
    some ⟨Function.update s.clients s.count ⟨true, ip, false, false, false, s.next.isSome⟩, s.count + 1,
      s.loggedIn⟩
  | .assign client =>
    let cl := s.clients client
    if client < s.count ∧ cl.connected = true ∧ cl.pending = false then
      some { s.set client { cl with account := true, dup := false, pending := true } with loggedIn := true }
    else none
  | .check client =>
    if client < s.count ∧ (s.clients client).pending = true then
      let clients := fakeClient account account.uniq client s.count s.clients
      some { s with clients := Function.update clients client { clients client with pending := false } }
    else none
  | .disconnect client =>
    let cl := s.clients client
    if client < s.count ∧ cl.connected = true then
      some { s.set client .gone with loggedIn := s.loggedIn && !cl.account }
    else none
  | .reload =>
    if s.next = none then
      some { s with clients := fun i => { s.clients i with unvisited := (s.clients i).connected } }
    else none
  | .visit =>
    s.next.map fun client =>
      let clients :=
        if (s.clients client).account then fakeClient account account.reloadUniq client s.count s.clients
        else s.clients
      { s with clients := Function.update clients client { clients client with unvisited := false } }

def logins : System Server Event where
  init s := s = ⟨fun _ => .gone, 0, false⟩
  next s e := s.step account e

/-- The connected clients of the account that are not marked. -/
def Server.active (s : Server) : ℕ := Slots.count Client.active s.clients s.count

/-- No login and no reload is in progress. -/
def Server.Quiet (s : Server) : Prop :=
  ∀ i < s.count, (s.clients i).pending = false ∧ (s.clients i).unvisited = false

/-- With room for one connection only, the others are not marked on behalf of a client that is marked
itself. -/
def Server.Unmarked (s : Server) : Event → Prop
  | .check client => account.uniq = 1 ∨ 2 ≤ account.maxConnections ∨ (s.clients client).dup = false
  | .visit => ∀ client, s.next = some client → (s.clients client).account = true →
      2 ≤ account.maxConnections ∨ (s.clients client).dup = false
  | _ => True

section Loop

variable {clients : ℕ → Client} {c ip n k : ℕ} {w : Walk}

/-- The active clients besides `c` among the first `n`. -/
def others (c : ℕ) (clients : ℕ → Client) (n : ℕ) : ℕ :=
  Slots.count id (fun k => decide (k ≠ c) && (clients k).active) n

theorem others_succ : others c clients (n + 1) =
    others c clients n + (decide (n ≠ c) && (clients n).active).toNat := rfl

theorem others_congr {clients' : ℕ → Client} (h : ∀ k < n, k ≠ c → clients' k = clients k) :
    others c clients' n = others c clients n := by
  refine Slots.count_congr fun k hk => ?_
  by_cases hkc : k = c
  · rw [decide_eq_false (not_not.mpr hkc), Bool.false_and, Bool.false_and]
  · rw [h k hk hkc]

private theorem count_of_le (hn : n ≤ c) : Slots.count Client.active clients n = others c clients n := by
  induction n with
  | zero => rfl
  | succ n ih =>
    rw [others_succ, Slots.count, ih (by omega), decide_eq_true (Nat.ne_of_lt hn), Bool.true_and]

theorem count_active (hc : c < n) : Slots.count Client.active clients n =
    others c clients n + (clients c).active.toNat := by
  induction n with
  | zero => exact absurd hc (Nat.not_lt_zero c)
  | succ n ih =>
    rw [others_succ, Slots.count]
    by_cases hcn : c = n
    · subst hcn
      rw [count_of_le (Nat.le_refl c), decide_eq_false (not_not.mpr rfl), Bool.false_and, Bool.toNat_false]
      omega
    · rw [ih (by omega), decide_eq_true (Ne.symm hcn), Bool.true_and]
      omega

theorem fakeStep_of_not_active (h : (decide (k ≠ c) && (w.clients k).active) = false) (uniq : ℕ) :
    fakeStep account uniq c ip w k = w := by
  have hno : ¬ (k ≠ c ∧ (w.clients k).active = true ∧ uniq < 5 ∧ (uniq % 2 = 1 ∨ (w.clients k).ip ≠ ip)) := by
    rintro ⟨hk, hactive, -⟩
    rw [decide_eq_true hk, hactive] at h
    cases h
  unfold fakeStep
  dsimp only
  rw [if_neg hno, ite_self]

/-- With uniq 3 the first others are kept, and the rest of them is marked. -/
structure Marked (clients : ℕ → Client) (c n : ℕ) (w : Walk) : Prop where
  left : w.left = false
  conCount : w.conCount = 1 + others c clients n
  self : w.clients c = clients c
  rest : ∀ k, n ≤ k → w.clients k = clients k
  others : others c w.clients n = min (others c clients n) (account.maxConnections - 1)
  mark : ∀ k, w.clients k = clients k ∨ w.clients k = { clients k with dup := true }

theorem marked_walk (n : ℕ) :
    Marked account clients c n ((List.range n).foldl (fakeStep account 3 c ip) ⟨clients, 1, false⟩) := by
  induction n with
  | zero => exact ⟨rfl, rfl, rfl, fun _ _ => rfl, (Nat.zero_min _).symm, fun _ => Or.inl rfl⟩
  | succ n ih =>
    rw [List.range_succ, List.foldl_append, List.foldl_cons, List.foldl_nil]
    generalize (List.range n).foldl (fakeStep account 3 c ip) ⟨clients, 1, false⟩ = w at ih
    have hself := ih.rest n (Nat.le_refl n)
    cases hbit : decide (n ≠ c) && (clients n).active with
    | false =>
      have hcount : others c clients (n + 1) = others c clients n := by
        rw [others_succ, hbit]
        rfl
      have hcount' : others c w.clients (n + 1) = others c w.clients n := by
        rw [others_succ, hself, hbit]
        rfl
      rw [fakeStep_of_not_active account (by rw [hself, hbit])]
      refine ⟨ih.left, ?_, ih.self, fun k hk => ih.rest k (by omega), ?_, ih.mark⟩
      · rw [hcount, ih.conCount]
      · rw [hcount, hcount', ih.others]
    | true =>
      obtain ⟨hnc, hactive⟩ := Bool.and_eq_true_iff.mp hbit
      have hnc := of_decide_eq_true hnc
      have hcount : others c clients (n + 1) = others c clients n + 1 := by
        rw [others_succ, hbit]
        rfl
      have hother : n ≠ c ∧ (w.clients n).active = true ∧ 3 < 5 ∧ (3 % 2 = 1 ∨ (w.clients n).ip ≠ ip) := by
        rw [hself]
        exact ⟨hnc, hactive, by omega, Or.inl rfl⟩
      unfold fakeStep
      dsimp only
      rw [ih.left, if_neg Bool.false_ne_true, if_pos hother]
      have hcon := ih.conCount
      have hothers := ih.others
      by_cases hroom : w.conCount + 1 ≤ account.maxConnections
      · rw [if_pos hroom]
        refine ⟨rfl, ?_, ih.self, fun k hk => ih.rest k (by omega), ?_, ih.mark⟩
        · change w.conCount + 1 = _
          omega
        · change NCam.Clients.others c w.clients (n + 1) = _
          rw [others_succ, hself, hbit, Bool.toNat_true, hothers, hcount]
          omega
      · rw [if_neg hroom, if_pos (Or.inl rfl)]
        refine ⟨rfl, ?_, ?_, ?_, ?_, ?_⟩
        · change w.conCount + 1 = _
          omega
        · change Function.update w.clients n _ c = _
          rw [Function.update_of_ne (Ne.symm hnc), ih.self]
        · intro k hk
          change Function.update w.clients n _ k = _
          rw [Function.update_of_ne (by omega), ih.rest k (by omega)]
        · have hkeep : NCam.Clients.others c (Function.update w.clients n
              { w.clients n with dup := true }) n = NCam.Clients.others c w.clients n :=
            others_congr fun k hk _ => Function.update_of_ne (Nat.ne_of_lt hk) _ _
          have hmarked : Client.active { w.clients n with dup := true } = false := Bool.and_false _
          change NCam.Clients.others c (Function.update w.clients n _) (n + 1) = _
          rw [others_succ, hkeep, Function.update_self, hmarked, Bool.and_false, Bool.toNat_false, hothers,
            hcount]
          omega
        · intro k
          change Function.update w.clients n _ k = _ ∨ Function.update w.clients n _ k = _
          by_cases hk : k = n
          · rw [hk, Function.update_self, hself]
            exact Or.inr rfl
          · rw [Function.update_of_ne hk]
            exact ih.mark k

/-- With uniq 1 the client itself is marked if the others leave no room. -/
theorem single_walk (hm : 1 ≤ account.maxConnections) (n : ℕ) :
    (others c clients n < account.maxConnections ∧
      (List.range n).foldl (fakeStep account 1 c ip) ⟨clients, 1, false⟩ =
        ⟨clients, 1 + others c clients n, false⟩) ∨
      (account.maxConnections ≤ others c clients n ∧
        ((List.range n).foldl (fakeStep account 1 c ip) ⟨clients, 1, false⟩).clients =
          Function.update clients c { clients c with dup := true } ∧
        ((List.range n).foldl (fakeStep account 1 c ip) ⟨clients, 1, false⟩).left = true) := by
  induction n with
  | zero => exact Or.inl ⟨hm, rfl⟩
  | succ n ih =>
    rw [List.range_succ, List.foldl_append, List.foldl_cons, List.foldl_nil]
    generalize (List.range n).foldl (fakeStep account 1 c ip) ⟨clients, 1, false⟩ = w at ih
    have hgrow : others c clients n ≤ others c clients (n + 1) := Nat.le_add_right _ _
    rcases ih with ⟨hroom, rfl⟩ | ⟨hfull, hclients, hleft⟩
    · cases hbit : decide (n ≠ c) && (clients n).active with
      | false =>
        have hcount : others c clients (n + 1) = others c clients n := by
          rw [others_succ, hbit]
          rfl
        rw [fakeStep_of_not_active account hbit, hcount]
        exact Or.inl ⟨hroom, rfl⟩
      | true =>
        obtain ⟨hnc, hactive⟩ := Bool.and_eq_true_iff.mp hbit
        have hother : n ≠ c ∧ (clients n).active = true ∧ 1 < 5 ∧ (1 % 2 = 1 ∨ (clients n).ip ≠ ip) :=
          ⟨of_decide_eq_true hnc, hactive, by omega, Or.inl rfl⟩
        have hcount : others c clients (n + 1) = others c clients n + 1 := by
          rw [others_succ, hbit]
          rfl
        unfold fakeStep
        dsimp only
        rw [if_neg Bool.false_ne_true, if_pos hother]
        by_cases hmore : 1 + others c clients n + 1 ≤ account.maxConnections
        · rw [if_pos hmore, hcount]
          exact Or.inl ⟨by omega, rfl⟩
        · rw [if_neg hmore, if_neg (by omega)]
          exact Or.inr ⟨by omega, rfl, rfl⟩
    · right
      have hstop : fakeStep account 1 c ip w n = w := by
        unfold fakeStep
        dsimp only
        rw [if_pos hleft]
      rw [hstop]
      exact ⟨Nat.le_trans hfull hgrow, hclients, hleft⟩

/-- Only `dup` is written. -/
def Marks (clients clients' : ℕ → Client) : Prop :=
  ∀ k, clients' k = clients k ∨ clients' k = { clients k with dup := true }

/-- The room that `cs_fake_client` leaves when it marks others. -/
theorem fakeClient_three (huniq : account.uniq ≠ 0) (hm : 1 ≤ account.maxConnections) (hc : c < n) :
    Slots.count Client.active (fakeClient account 3 c n clients) n ≤ account.maxConnections ∧
      Marks clients (fakeClient account 3 c n clients) ∧
      (1 ≤ Slots.count Client.active clients n →
        2 ≤ account.maxConnections ∨ (clients c).active = true →
          1 ≤ Slots.count Client.active (fakeClient account 3 c n clients) n) := by
  have h := @marked_walk account clients c (clients c).ip n
  have heq : fakeClient account 3 c n clients = _ := if_neg huniq
  rw [heq]
  have hself := h.self
  have hothers := h.others
  have hbit := Bool.toNat_le (clients c).active
  rw [count_active hc, count_active hc, hself]
  refine ⟨by omega, h.mark, fun hone hroom => ?_⟩
  rcases hroom with htwo | hactive
  · omega
  · rw [hactive, Bool.toNat_true]
    omega

/-- Its room when it marks the client itself. -/
theorem fakeClient_one (huniq : account.uniq ≠ 0) (hm : 1 ≤ account.maxConnections) :
    (others c clients n < account.maxConnections ∧ fakeClient account 1 c n clients = clients) ∨
      (account.maxConnections ≤ others c clients n ∧ fakeClient account 1 c n clients =
        Function.update clients c { clients c with dup := true }) := by
  have heq : fakeClient account 1 c n clients = _ := if_neg huniq
  rw [heq]
  rcases @single_walk account clients c (clients c).ip hm n with ⟨hroom, hwalk⟩ | ⟨hfull, hclients, -⟩
  · exact Or.inl ⟨hroom, by rw [hwalk]⟩
  · exact Or.inr ⟨hfull, hclients⟩

/-- A change of one client that leaves it active or not. -/
theorem count_active_update {cl : Client} (hc : c < n) (h : cl.active = (clients c).active) :
    Slots.count Client.active (Function.update clients c cl) n = Slots.count Client.active clients n := by
  have hupdate := @Slots.count_update _ Client.active clients n c cl hc
  rw [h] at hupdate
  omega

end Loop

section Runs

variable {s t : Server} {e : Event} {c : ℕ} {clients : ℕ → Client} {n : ℕ}

/-- Active, and through with the login. -/
def Client.settled (cl : Client) : Bool := cl.active && !cl.pending

theorem count_settled_le : Slots.count Client.settled clients n ≤ Slots.count Client.active clients n :=
  Slots.count_mono fun _ _ h => (Bool.and_eq_true_iff.mp h).1

/-- A client that is not settled now. -/
theorem count_settled_update {cl : Client} (hc : c < n) (h : cl.settled = false) :
    Slots.count Client.settled (Function.update clients c cl) n ≤ Slots.count Client.settled clients n := by
  have hupdate := @Slots.count_update _ Client.settled clients n c cl hc
  rw [h, Bool.toNat_false] at hupdate
  omega

/-- A login that is not finished has the account; only connected clients are visited. -/
def Client.Wf (cl : Client) : Prop :=
  (cl.pending = true → cl.connected = true ∧ cl.account = true) ∧ (cl.unvisited = true → cl.connected = true)

/-- What every event keeps. -/
structure Server.Limited (s : Server) : Prop where
  settled : Slots.count Client.settled s.clients s.count ≤ account.maxConnections
  wf : ∀ i, (s.clients i).Wf

theorem Server.next_eq_some (h : s.next = some c) : c < s.count ∧ (s.clients c).unvisited = true :=
  ⟨(Slots.firstWhere_eq_some h).1, (Slots.firstWhere_eq_some h).2.1⟩

theorem Marks.wf {clients' : ℕ → Client} (hmarks : Marks clients clients') (h : ∀ i, (clients i).Wf) (i : ℕ) :
    (clients' i).Wf := by
  rcases hmarks i with hi | hi
  · rw [hi]
    exact h i
  · rw [hi]
    exact h i

theorem update_wf {cl : Client} (h : ∀ i, (clients i).Wf) (hcl : cl.Wf) (i : ℕ) :
    (Function.update clients c cl i).Wf := by
  by_cases hi : i = c
  · rw [hi, Function.update_self]
    exact hcl
  · rw [Function.update_of_ne hi]
    exact h i

theorem Server.Limited.check (h : s.Limited account) (huniq : account.uniq = 1 ∨ account.uniq = 3)
    (hm : 1 ≤ account.maxConnections) (hc : c < s.count) (hpending : (s.clients c).pending = true)
    (hf : clients = fakeClient account account.uniq c s.count s.clients) :
    Server.Limited account
      { s with clients := Function.update clients c { clients c with pending := false } } := by
  have hne : account.uniq ≠ 0 := by omega
  have hunsettled : (s.clients c).settled = false := by
    unfold Client.settled
    rw [hpending, Bool.not_true, Bool.and_false]
  rcases huniq with hone | hthree
  · rw [hone] at hf
    rcases @fakeClient_one account s.clients c s.count hne hm with ⟨hroom, hsame⟩ | ⟨-, hmarked⟩
    · rw [hsame] at hf
      rw [hf]
      refine ⟨?_, update_wf h.wf ⟨fun hp => ?_, (h.wf c).2⟩⟩
      · have hactive := @count_active_update s.clients c s.count
          { s.clients c with pending := false } hc rfl
        have hsplit := @count_active s.clients c s.count hc
        have hbit := Bool.toNat_le (s.clients c).active
        exact Nat.le_trans count_settled_le (Nat.le_trans (Nat.le_of_eq hactive) (by omega))
      · cases hp
    · rw [hmarked] at hf
      rw [hf, Function.update_self, Function.update_idem]
      refine ⟨Nat.le_trans (count_settled_update hc ?_) h.settled,
        update_wf h.wf ⟨fun hp => ?_, (h.wf c).2⟩⟩
      · unfold Client.settled Client.active
        dsimp only
        rw [Bool.not_true, Bool.and_false, Bool.false_and]
      · cases hp
  · rw [hthree] at hf
    obtain ⟨hle, hmarks, -⟩ := @fakeClient_three account s.clients c s.count hne hm hc
    rw [← hf] at hle hmarks
    have hwf := hmarks.wf h.wf
    refine ⟨?_, update_wf hwf ⟨fun hp => ?_, (hwf c).2⟩⟩
    · have hactive := @count_active_update clients c s.count { clients c with pending := false } hc rfl
      exact Nat.le_trans count_settled_le (Nat.le_trans (Nat.le_of_eq hactive) hle)
    · cases hp

private theorem Account.reloadUniq_three (account : Account) (huniq : account.uniq = 1 ∨ account.uniq = 3) :
    account.reloadUniq = 3 := by
  unfold Account.reloadUniq
  rcases huniq with hone | hthree
  · rw [hone]
    rfl
  · rw [hthree]
    rfl

theorem Server.Limited.visit (h : s.Limited account) (huniq : account.uniq = 1 ∨ account.uniq = 3)
    (hm : 1 ≤ account.maxConnections) (hc : c < s.count)
    (hf : clients = if (s.clients c).account then fakeClient account account.reloadUniq c s.count s.clients
      else s.clients) :
    Server.Limited account
      { s with clients := Function.update clients c { clients c with unvisited := false } } := by
  have hne : account.uniq ≠ 0 := by omega
  rw [account.reloadUniq_three huniq] at hf
  by_cases haccount : (s.clients c).account = true
  · rw [if_pos haccount] at hf
    obtain ⟨hle, hmarks, -⟩ := @fakeClient_three account s.clients c s.count hne hm hc
    rw [← hf] at hle hmarks
    have hwf := hmarks.wf h.wf
    refine ⟨?_, update_wf hwf ⟨(hwf c).1, fun hu => ?_⟩⟩
    · have hactive := @count_active_update clients c s.count { clients c with unvisited := false } hc rfl
      exact Nat.le_trans count_settled_le (Nat.le_trans (Nat.le_of_eq hactive) hle)
    · cases hu
  · rw [if_neg haccount] at hf
    rw [hf]
    refine ⟨?_, update_wf h.wf ⟨(h.wf c).1, fun hu => ?_⟩⟩
    · have hupdate := @Slots.count_update _ Client.settled s.clients s.count c
        { s.clients c with unvisited := false } hc
      have hbit : Client.settled { s.clients c with unvisited := false } = (s.clients c).settled := rfl
      rw [hbit] at hupdate
      exact Nat.le_trans (Nat.le_of_eq (Nat.add_right_cancel hupdate)) h.settled
    · cases hu

theorem Server.Limited.step (h : s.Limited account) (huniq : account.uniq = 1 ∨ account.uniq = 3)
    (hm : 1 ≤ account.maxConnections) (ht : s.step account e = some t) : t.Limited account := by
  cases e with
  | connect ip =>
    obtain rfl := Option.some.inj ht
    refine ⟨?_, update_wf h.wf ⟨fun hp => ?_, fun _ => rfl⟩⟩
    · have hold := @Slots.count_congr _ Client.settled Client.settled
        (Function.update s.clients s.count ⟨true, ip, false, false, false, s.next.isSome⟩) s.clients s.count
        fun i hi => by rw [Function.update_of_ne (Nat.ne_of_lt hi)]
      change Slots.count Client.settled (Function.update s.clients s.count _) (s.count + 1) ≤ _
      rw [Slots.count, hold, Function.update_self]
      exact h.settled
    · cases hp
  | assign c =>
    obtain ⟨⟨hc, hconnected, -⟩, hs⟩ := Option.ite_none_right_eq_some.mp ht
    obtain rfl := Option.some.inj hs
    refine ⟨Nat.le_trans (count_settled_update hc ?_) h.settled,
      update_wf h.wf ⟨fun _ => ⟨hconnected, rfl⟩, (h.wf c).2⟩⟩
    unfold Client.settled
    dsimp only
    rw [Bool.not_true, Bool.and_false]
  | check c =>
    obtain ⟨⟨hc, hpending⟩, hs⟩ := Option.ite_none_right_eq_some.mp ht
    obtain rfl := Option.some.inj hs
    exact h.check account huniq hm hc hpending rfl
  | disconnect c =>
    obtain ⟨⟨hc, -⟩, hs⟩ := Option.ite_none_right_eq_some.mp ht
    obtain rfl := Option.some.inj hs
    refine ⟨Nat.le_trans (count_settled_update hc rfl) h.settled,
      update_wf h.wf ⟨fun hp => ?_, fun hu => ?_⟩⟩
    · cases hp
    · cases hu
  | reload =>
    obtain ⟨-, hs⟩ := Option.ite_none_right_eq_some.mp ht
    obtain rfl := Option.some.inj hs
    refine ⟨?_, fun i => ⟨(h.wf i).1, fun hu => hu⟩⟩
    have hsame := @Slots.count_congr _ Client.settled Client.settled
      (fun i => { s.clients i with unvisited := (s.clients i).connected }) s.clients s.count fun _ _ => rfl
    exact Nat.le_trans (Nat.le_of_eq hsame) h.settled
  | visit =>
    obtain ⟨c, hnext, rfl⟩ := Option.map_eq_some_iff.mp ht
    exact h.visit account huniq hm (Server.next_eq_some hnext).1 rfl

/-- Somebody is active once somebody has logged in. -/
def Server.Served (s : Server) : Prop := s.loggedIn = true → 1 ≤ s.active

theorem one_le_active {clients : ℕ → Client} {n i : ℕ} (hi : i < n) (h : (clients i).active = true) :
    1 ≤ Slots.count Client.active clients n := by
  have hsplit := @count_active clients i n hi
  rw [h, Bool.toNat_true] at hsplit
  omega

/-- Marking the others for a client that is not marked itself, or with room for one of them, leaves one. -/
theorem Server.Served.fake_three (h : s.Served) (huniq : account.uniq ≠ 0)
    (hm : 1 ≤ account.maxConnections) (hc : c < s.count) (hconnected : (s.clients c).connected = true)
    (haccount : (s.clients c).account = true) (hkept : 2 ≤ account.maxConnections ∨ (s.clients c).dup = false)
    (hlogged : s.loggedIn = true) :
    1 ≤ Slots.count Client.active (fakeClient account 3 c s.count s.clients) s.count := by
  obtain ⟨-, -, hone⟩ := @fakeClient_three account s.clients c s.count huniq hm hc
  refine hone (h hlogged) ?_
  rcases hkept with htwo | hdup
  · exact Or.inl htwo
  · right
    unfold Client.active
    rw [hconnected, haccount, hdup]
    rfl

theorem Server.Served.check (h : s.Served) (hl : s.Limited account)
    (huniq : account.uniq = 1 ∨ account.uniq = 3) (hm : 1 ≤ account.maxConnections) (hc : c < s.count)
    (hpending : (s.clients c).pending = true) (hkept : s.Unmarked account (.check c))
    (hlogged : s.loggedIn = true) :
    1 ≤ Slots.count Client.active (fakeClient account account.uniq c s.count s.clients) s.count := by
  have hne : account.uniq ≠ 0 := by omega
  obtain ⟨hconnected, haccount⟩ := (hl.wf c).1 hpending
  rcases huniq with hone | hthree
  · rw [hone]
    rcases @fakeClient_one account s.clients c s.count hne hm with ⟨-, hsame⟩ | ⟨hfull, hmarked⟩
    · rw [hsame]
      exact h hlogged
    · have hsplit := @count_active (Function.update s.clients c { s.clients c with dup := true }) c s.count hc
      have hothers := @others_congr s.clients c s.count
        (Function.update s.clients c { s.clients c with dup := true })
        fun k _ hk => Function.update_of_ne hk _ _
      rw [hmarked]
      omega
  · rw [hthree]
    refine h.fake_three account hne hm hc hconnected haccount ?_ hlogged
    rcases hkept with hone | hkept
    · omega
    · exact hkept

theorem Server.Served.step (h : s.Served) (hl : s.Limited account)
    (huniq : account.uniq = 1 ∨ account.uniq = 3) (hm : 1 ≤ account.maxConnections)
    (hkept : s.Unmarked account e) (ht : s.step account e = some t) : t.Served := by
  cases e with
  | connect ip =>
    obtain rfl := Option.some.inj ht
    intro hlogged
    have hold := @Slots.count_congr _ Client.active Client.active
      (Function.update s.clients s.count ⟨true, ip, false, false, false, s.next.isSome⟩) s.clients s.count
      fun i hi => by rw [Function.update_of_ne (Nat.ne_of_lt hi)]
    have hone := h hlogged
    unfold Server.active at hone ⊢
    change 1 ≤ Slots.count Client.active (Function.update s.clients s.count _) (s.count + 1)
    rw [Slots.count, hold]
    omega
  | assign c =>
    obtain ⟨⟨hc, hconnected, -⟩, hs⟩ := Option.ite_none_right_eq_some.mp ht
    obtain rfl := Option.some.inj hs
    intro _
    refine @one_le_active _ _ c hc ?_
    change (Function.update s.clients c _ c).active = true
    rw [Function.update_self]
    unfold Client.active
    dsimp only
    rw [hconnected]
    rfl
  | check c =>
    obtain ⟨⟨hc, hpending⟩, hs⟩ := Option.ite_none_right_eq_some.mp ht
    obtain rfl := Option.some.inj hs
    intro hlogged
    have hactive := @count_active_update (fakeClient account account.uniq c s.count s.clients) c s.count
      { fakeClient account account.uniq c s.count s.clients c with pending := false } hc rfl
    exact Nat.le_trans (h.check account hl huniq hm hc hpending hkept hlogged) (Nat.le_of_eq hactive.symm)
  | disconnect c =>
    obtain ⟨⟨hc, -⟩, hs⟩ := Option.ite_none_right_eq_some.mp ht
    obtain rfl := Option.some.inj hs
    intro hlogged
    obtain ⟨hlogged, hother⟩ := Bool.and_eq_true_iff.mp hlogged
    have haccount : (s.clients c).account = false := by
      cases hcl : (s.clients c).account with
      | false => rfl
      | true =>
        rw [hcl] at hother
        cases hother
    have hinactive : Client.gone.active = (s.clients c).active := by
      unfold Client.active
      rw [haccount, Bool.and_false, Bool.false_and]
      rfl
    have hactive := @count_active_update s.clients c s.count .gone hc hinactive
    exact Nat.le_trans (h hlogged) (Nat.le_of_eq hactive.symm)
  | reload =>
    obtain ⟨-, hs⟩ := Option.ite_none_right_eq_some.mp ht
    obtain rfl := Option.some.inj hs
    intro hlogged
    have hsame := @Slots.count_congr _ Client.active Client.active
      (fun i => { s.clients i with unvisited := (s.clients i).connected }) s.clients s.count fun _ _ => rfl
    exact Nat.le_trans (h hlogged) (Nat.le_of_eq hsame.symm)
  | visit =>
    obtain ⟨c, hnext, rfl⟩ := Option.map_eq_some_iff.mp ht
    obtain ⟨hc, hunvisited⟩ := Server.next_eq_some hnext
    intro hlogged
    have hactive := @count_active_update
      (if (s.clients c).account then fakeClient account account.reloadUniq c s.count s.clients
        else s.clients) c s.count
      { (if (s.clients c).account then fakeClient account account.reloadUniq c s.count s.clients
        else s.clients) c with unvisited := false } hc rfl
    refine Nat.le_trans ?_ (Nat.le_of_eq hactive.symm)
    by_cases haccount : (s.clients c).account = true
    · rw [if_pos haccount, account.reloadUniq_three huniq]
      exact h.fake_three account (by omega) hm hc ((hl.wf c).2 hunvisited) haccount
        (hkept c hnext haccount) hlogged
    · rw [if_neg haccount]
      exact h hlogged

/-- The connections that are not marked are within the limit in every run, and in every run that does not
mark others for a marked client while there is room for one connection only, one is not marked once a
client has logged in. -/
theorem logins_limited (huniq : account.uniq = 1 ∨ account.uniq = 3) (hm : 1 ≤ account.maxConnections) :
    (∀ s, (logins account).Reachable System.free s → s.Quiet → s.active ≤ account.maxConnections) ∧
      ∀ s, (logins account).Reachable (Server.Unmarked account) s → s.Quiet →
        s.active ≤ account.maxConnections ∧ (s.loggedIn = true → 1 ≤ s.active) := by
  have hstart : ∀ s, (logins account).init s → s.Limited account := by
    intro s hs
    change s = ⟨fun _ => .gone, 0, false⟩ at hs
    rw [hs]
    exact ⟨Nat.zero_le _, fun i => ⟨fun hp => Bool.noConfusion hp, fun hu => Bool.noConfusion hu⟩⟩
  have hlimited : ∀ s, (logins account).Reachable System.free s → s.Limited account := fun s hr =>
    hr.invariant (I := Server.Limited account) hstart fun _ _ _ h _ ht => h.step account huniq hm ht
  have hquiet : ∀ s : Server, s.Limited account → s.Quiet → s.active ≤ account.maxConnections := by
    intro s hl hq
    refine Nat.le_trans (Nat.le_of_eq ?_) hl.settled
    refine Slots.count_congr fun i hi => ?_
    unfold Client.settled
    rw [(hq i hi).1, Bool.not_false, Bool.and_true]
  refine ⟨fun s hr hq => hquiet s (hlimited s hr) hq, fun s hr hq => ?_⟩
  have hboth : s.Limited account ∧ s.Served := by
    refine hr.invariant (I := fun s => s.Limited account ∧ s.Served) (fun s hs => ⟨hstart s hs, ?_⟩)
      fun _ _ _ h hkept ht => ⟨h.1.step account huniq hm ht, h.2.step account h.1 huniq hm hkept ht⟩
    change s = ⟨fun _ => .gone, 0, false⟩ at hs
    rw [hs]
    intro hlogged
    cases hlogged
  exact ⟨hquiet s hboth.1 hq, hboth.2⟩

instance : DecidablePred (Server.Unmarked account s)
  | .connect _ | .assign _ | .disconnect _ | .reload => instDecidableTrue
  | .check client => inferInstanceAs
      (Decidable (account.uniq = 1 ∨ 2 ≤ account.maxConnections ∨ (s.clients client).dup = false))
  | .visit => inferInstanceAs (Decidable (∀ client, s.next = some client →
      (s.clients client).account = true → 2 ≤ account.maxConnections ∨ (s.clients client).dup = false))

instance : Decidable s.Quiet := inferInstanceAs
  (Decidable (∀ i < s.count, (s.clients i).pending = false ∧ (s.clients i).unvisited = false))

/-- One connection for each user, and a second one that is marked. -/
theorem logins_limited_second : ∃ s, (logins ⟨1, 1⟩).Reachable (Server.Unmarked ⟨1, 1⟩) s ∧
    s.loggedIn = true ∧ s.active ≤ 1 ∧ 1 ≤ s.active := by
  obtain ⟨s, hr, hs⟩ := @System.exists_reachable_of_exec _ _ (logins ⟨1, 1⟩) (Server.Unmarked ⟨1, 1⟩) _ _ rfl
    [.connect 1, .assign 0, .check 0, .connect 2, .assign 1, .check 1]
    (fun s => decide (s.Quiet ∧ s.loggedIn = true)) (by decide +kernel)
  obtain ⟨hq, hlogged⟩ := of_decide_eq_true hs
  obtain ⟨hle, hone⟩ := (logins_limited ⟨1, 1⟩ (Or.inl rfl) (Nat.le_refl 1)).2 s hr hq
  exact ⟨s, hr, hlogged, hle, hone hlogged⟩

/-- A reload after the second login marks the first client on behalf of the second one. -/
theorem reload_marks_all : ∃ s, (logins ⟨1, 1⟩).Reachable System.free s ∧ s.Quiet ∧
    s.loggedIn = true ∧ s.active = 0 := by
  obtain ⟨s, hr, hs⟩ := @System.exists_reachable_of_exec _ _ (logins ⟨1, 1⟩) System.free
    (fun _ _ => instDecidableTrue) _ rfl
    [.connect 1, .assign 0, .check 0, .connect 2, .assign 1, .check 1, .reload, .visit, .visit]
    (fun s => decide (s.Quiet ∧ s.loggedIn = true ∧ s.active = 0)) (by decide +kernel)
  exact ⟨s, hr, of_decide_eq_true hs⟩

end Runs

end NCam.Clients
