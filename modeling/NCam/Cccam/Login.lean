import NCam.Cccam.Crypt

/-! The search of `cc_srv_connect` for the account of a CCcam login, by the first twenty bytes of the user
name and the proof of the password. -/
namespace NCam.Cccam.Login

open NCam.Util

/-- What the search reads of `struct s_auth`. -/
structure Account where
  usr : List Byte
  pwd : List Byte
deriving DecidableEq

/-- `"CCcam\0"`. -/
def ccCam : List Byte := [0x43, 0x43, 0x63, 0x61, 0x6D, 0x00]

/-- `strncmp(usr, account->usr, 20) == 0`. -/
def SameUser (usr : List Byte) (account : Account) : Prop := usr.take 20 = account.usr.take 20

instance (usr : List Byte) (account : Account) : Decidable (SameUser usr account) :=
  inferInstanceAs (Decidable (_ = _))

/-- The block after the password, of which `pwd` holds 64 bytes. -/
def pwdBlock (block : CcCryptBlock) (pwd : List Byte) : CcCryptBlock :=
  (ccCrypt block (pwd.take 64) .encrypt).2

/-- What `cc_cli_connect` sends for its password, and its block afterwards. -/
def clientProof (block : CcCryptBlock) (pwd : List Byte) : List Byte × CcCryptBlock :=
  ccCrypt (pwdBlock block pwd) ccCam .encrypt

/-- The check of an account, in place. -/
def pwdCheck (saveBlock : CcCryptBlock) (account : Account) (buf : List Byte) :
    List Byte × CcCryptBlock :=
  ccCrypt (pwdBlock saveBlock account.pwd) buf .decrypt

/-- The loop of `cc_srv_connect`. The bytes that one account was checked against are left to the next. -/
def accountSearch (usr : List Byte) (saveBlock : CcCryptBlock) :
    List Account → List Byte → Option (Account × CcCryptBlock)
  | [], _ => none
  | account :: accounts, buf =>
    if SameUser usr account then
      let (buf, block) := pwdCheck saveBlock account buf
      if buf = ccCam then some (account, block) else accountSearch usr saveBlock accounts buf
    else accountSearch usr saveBlock accounts buf

section Claims

variable (usr : List Byte) (block : CcCryptBlock) (accounts : List Account) (buf : List Byte)

/-- The client sent the name of the account and a proof of its password. -/
def Proves (account : Account) : Prop :=
  SameUser usr account ∧ buf = (clientProof block account.pwd).1

instance (account : Account) : Decidable (Proves usr block buf account) :=
  inferInstanceAs (Decidable (_ ∧ _))

/-- A login that proves the password of an account is accepted, with an account that it proves. -/
def Accepted : Prop :=
  (∃ a ∈ accounts, Proves usr block buf a) →
    ∃ a ∈ accounts, Proves usr block buf a ∧
      (accountSearch usr block accounts buf).map Prod.fst = some a

/-- The bytes that the accounts leave of those received. -/
def left (accounts : List Account) : List Byte :=
  accounts.foldl (fun buf account => (pwdCheck block account buf).1) buf

/-- The accounts of that name before a proved one leave the received bytes as they were, and make `CCcam`
of them nowhere on the way. -/
def FoundUnchanged : Prop :=
  ∃ before a after, accounts.filter (SameUser usr ·) = before ++ a :: after ∧ Proves usr block buf a ∧
    left block buf before = buf ∧
    ∀ checked, checked ≠ [] → checked <+: before → left block buf checked ≠ ccCam

variable {usr block accounts buf}

theorem pwdCheck_eq_iff {account : Account} :
    (pwdCheck block account buf).1 = ccCam ↔ buf = (clientProof block account.pwd).1 :=
  ccCrypt_decrypt_eq_iff _ _ _

/-- The candidates up to a later one start with the first. -/
private theorem left_cons_ne {account : Account} {before : List Account}
    (hne : (pwdCheck block account buf).1 ≠ ccCam)
    (hbefore : ∀ checked, checked ≠ [] → checked <+: before →
      left block (pwdCheck block account buf).1 checked ≠ ccCam) (checked : List Account)
    (hchecked : checked ≠ []) (hpre : checked <+: account :: before) :
    left block buf checked ≠ ccCam := by
  cases checked with
  | nil => exact absurd rfl hchecked
  | cons c checked =>
    obtain ⟨rfl, hrest⟩ := List.cons_prefix_cons.mp hpre
    by_cases hnil : checked = []
    · rw [hnil]
      exact hne
    · exact hbefore checked hnil hrest

/-- The search returns the first candidate for which the bytes that the others left are a proof. -/
theorem accountSearch_eq_some_iff {a : Account} :
    (accountSearch usr block accounts buf).map Prod.fst = some a ↔
      ∃ before after, accounts.filter (SameUser usr ·) = before ++ a :: after ∧
        left block buf before = (clientProof block a.pwd).1 ∧
        ∀ checked, checked ≠ [] → checked <+: before → left block buf checked ≠ ccCam := by
  induction accounts generalizing buf with
  | nil => simp [accountSearch]
  | cons account accounts ih =>
    unfold accountSearch
    by_cases huser : SameUser usr account
    · rw [if_pos huser, List.filter_cons_of_pos (by simpa using huser)]
      dsimp only
      by_cases hfirst : (pwdCheck block account buf).1 = ccCam
      · rw [if_pos hfirst]
        constructor
        · intro h
          have ha : account = a := by simpa using h
          refine ⟨[], accounts.filter (SameUser usr ·), by rw [ha]; simp, ?_, ?_⟩
          · rw [← ha]
            exact pwdCheck_eq_iff.mp hfirst
          · intro checked hchecked hpre
            exact absurd (List.prefix_nil.mp hpre) hchecked
        · intro h
          obtain ⟨before, after, hsplit, -, hbefore⟩ := h
          cases before with
          | nil =>
            have ha : account = a := (List.cons.inj hsplit).1
            simp [ha]
          | cons c before =>
            have hc : account = c := (List.cons.inj hsplit).1
            refine absurd hfirst (hbefore [account] (by simp) ?_)
            rw [hc]
            exact List.prefix_append [c] before
      · rw [if_neg hfirst, ih]
        constructor
        · intro h
          obtain ⟨before, after, hsplit, hleft, hbefore⟩ := h
          refine ⟨account :: before, after, by rw [hsplit]; simp, hleft, ?_⟩
          exact left_cons_ne hfirst hbefore
        · intro h
          obtain ⟨before, after, hsplit, hleft, hbefore⟩ := h
          cases before with
          | nil =>
            have ha : account = a := (List.cons.inj hsplit).1
            rw [← ha] at hleft
            exact absurd (pwdCheck_eq_iff.mpr hleft) hfirst
          | cons c before =>
            obtain ⟨hc, hsplit⟩ := List.cons.inj hsplit
            rw [← hc] at hleft hbefore
            refine ⟨before, after, hsplit, hleft, ?_⟩
            intro checked hchecked hpre
            exact hbefore (account :: checked) (by simp) (List.cons_prefix_cons.mpr ⟨rfl, hpre⟩)
    · rw [if_neg huser, ih, List.filter_cons_of_neg (by simpa using huser)]

/-- A login is accepted as it should be if and only if it proves no account, or the first account whose check
succeeds is checked against the bytes received. -/
theorem accepted_iff (usr : List Byte) (block : CcCryptBlock) (accounts : List Account)
    (buf : List Byte) : Accepted usr block accounts buf ↔
      (∀ a ∈ accounts, ¬ Proves usr block buf a) ∨ FoundUnchanged usr block accounts buf := by
  constructor
  · intro h
    by_cases hproved : ∃ a ∈ accounts, Proves usr block buf a
    · obtain ⟨a, -, ha, hsearch⟩ := h hproved
      obtain ⟨before, after, hsplit, hleft, hbefore⟩ := accountSearch_eq_some_iff.mp hsearch
      exact .inr ⟨before, a, after, hsplit, ha, hleft.trans ha.2.symm, hbefore⟩
    · left
      intro a ha hproves
      exact hproved ⟨a, ha, hproves⟩
  · intro h hproved
    cases h with
    | inl hnone =>
      obtain ⟨a, ha, hproves⟩ := hproved
      exact absurd hproves (hnone a ha)
    | inr hfound =>
      obtain ⟨before, a, after, hsplit, ha, hleft, hbefore⟩ := hfound
      have hmem : a ∈ accounts.filter (SameUser usr ·) := by
        rw [hsplit]
        simp
      refine ⟨a, List.mem_of_mem_filter hmem, ha, ?_⟩
      exact accountSearch_eq_some_iff.mpr ⟨before, after, hsplit, hleft.trans ha.2, hbefore⟩

/-- The second of two accounts with the same name. -/
private def usr0 : List Byte := [0x75]

private def accounts0 : List Account := [⟨usr0, [0x61]⟩, ⟨usr0, [0x62]⟩]

private def block0 : CcCryptBlock := ⟨Vector.ofFn fun i => BitVec.ofNat 8 i, 0, 0, 0⟩

theorem second_refused : ¬ Accepted usr0 block0 accounts0 (clientProof block0 [0x62]).1 := by
  intro h
  have hproved : ∃ a ∈ accounts0, Proves usr0 block0 (clientProof block0 [0x62]).1 a :=
    ⟨⟨usr0, [0x62]⟩, by simp [accounts0], rfl, rfl⟩
  have hnone : accountSearch usr0 block0 accounts0 (clientProof block0 [0x62]).1 = none := by
    decide +kernel
  obtain ⟨a, -, -, ha⟩ := h hproved
  rw [hnone] at ha
  exact absurd ha (by simp)

end Claims

end NCam.Cccam.Login
