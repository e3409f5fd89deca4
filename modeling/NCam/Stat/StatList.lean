import NCam.Stat.Betatunnel
import NCam.Stat.ReopenTimes
import Mathlib.Data.List.Find

/-! The list of a reader's statistics in every run: no two entries answer one query, wherever the moves to the
front have put them. -/
namespace NCam.Stat

/-- `get_stat_lock` takes the entry. -/
def Key.fits (q : Key) (s : ReaderStat) : Bool :=
  s.caid = q.caid && s.prid = q.prid && s.srvid = q.srvid && s.chid = q.chid &&
    (s.ecmlen = q.ecmlen || s.ecmlen = 0 || q.ecmlen = 0)

/-- The entry that is found, and what the loop does to its length. -/
def completed (q : Key) (s : ReaderStat) : ReaderStat := if s.ecmlen = 0 then { s with ecmlen := q.ecmlen } else s

/-- `get_stat_lock`, with what the caller does to the entry; nothing if there is none. An entry behind the tenth is
moved to the start of the list. -/
def getStatLock (busy : Bool) (q : Key) (f : ReaderStat → ReaderStat) (lbStat : List ReaderStat) :
    Option (List ReaderStat) :=
  match lbStat.dropWhile (! q.fits ·) with
  | [] => none
  | s :: after =>
    let before := lbStat.takeWhile (! q.fits ·)
    let s := f (completed q s)
    some (if 10 < before.length + 1 ∧ !busy then s :: (before ++ after) else before ++ s :: after)

/-- The entry that `get_add_stat` makes. -/
def addedStat (q : Key) (now : Timeb) : ReaderStat where
  rc := BitVec.ofNat 32 Ecm.E_FOUND
  caid := q.caid
  prid := q.prid
  srvid := q.srvid
  chid := q.chid
  ecmlen := q.ecmlen
  lastReceived := now
  ecmCount := 0
  timeAvg := 99999
  failFactor := 0

/-- `get_add_stat`, with what the caller does to the entry. -/
def getAddStat (busy : Bool) (q : Key) (now : Timeb) (f : ReaderStat → ReaderStat) (lbStat : List ReaderStat) :
    List ReaderStat :=
  if busy then lbStat else (getStatLock false q f lbStat).getD (f (addedStat q now) :: lbStat)

def countAnswer (rc : ℕ) (now : Timeb) (timeAvg : BitVec 32) (s : ReaderStat) : ReaderStat :=
  let s := addStat rc now s
  if rc = Ecm.E_FOUND then { s with ecmCount := s.ecmCount + 1, timeAvg } else s

/-- The calls that change the list of a reader. -/
inductive StatCall
  | getStat (busy : Bool) (q : Key)
  /-- `add_stat` behind the reasons to ignore an answer; `timeAvg` is what `calc_stat` computes. -/
  | addStat (busy : Bool) (q : Key) (rc : ℕ) (now : Timeb) (timeAvg : BitVec 32)
  /-- `readerinfofix_get_add_stat` and `readerinfofix_inc_fail`. -/
  | timedOut (busy : Bool) (q : Key) (now : Timeb)
  | cleanStatByRc (busy : Bool) (rc : BitVec 32) (inverse : Bool)
  | cleanStatById (busy : Bool) (id : Key)
  | clearReaderStat
  | save (ts : Timeb) (lbStatCleanup : BitVec 32)
  | housekeeping (now : Timeb) (lbStatCleanup : BitVec 32)

def StatCall.run (rdr : Reader) (call : StatCall) : Reader :=
  { rdr with lbStat := match call with
    | .getStat busy q => (getStatLock busy q id rdr.lbStat).getD rdr.lbStat
    | .addStat busy q rc now timeAvg => getAddStat busy q now (countAnswer rc now timeAvg) rdr.lbStat
    | .timedOut busy q now => getAddStat busy q now incFail rdr.lbStat
    | .cleanStatByRc busy rc inverse =>
      if busy then rdr.lbStat else rdr.lbStat.filter fun s => (s.rc = rc) = inverse
    | .cleanStatById busy i => if busy then rdr.lbStat else rdr.lbStat.eraseP (·.key = i)
    | .clearReaderStat => []
    | .save ts lbStatCleanup => keptStats ts lbStatCleanup rdr
    | .housekeeping now lbStatCleanup => housekeptStats now lbStatCleanup rdr }

/-- No query with a length takes both entries. -/
def Apart (s t : ReaderStat) : Prop := ∀ q : Key, q.ecmlen ≠ 0 → ¬ (q.fits s = true ∧ q.fits t = true)

variable {q : Key} {s t : ReaderStat} {l l' : List ReaderStat} {f : ReaderStat → ReaderStat}

theorem fits_iff : q.fits s = true ↔
    (q.caid, q.prid, q.srvid, q.chid) = (s.caid, s.prid, s.srvid, s.chid) ∧
      (s.ecmlen = q.ecmlen ∨ s.ecmlen = 0 ∨ q.ecmlen = 0) := by
  unfold Key.fits
  simp only [Bool.and_eq_true, Bool.or_eq_true, decide_eq_true_eq, Prod.mk.injEq]
  tauto

theorem Apart.symm (h : Apart s t) : Apart t s := fun q hq hfits => h q hq hfits.symm

/-- What takes no query more stays apart. -/
theorem Apart.imp {s' : ReaderStat} (h : Apart s t) (hs : ∀ q : Key, q.ecmlen ≠ 0 → q.fits s' = true → q.fits s = true) :
    Apart s' t := fun q hq hfits => h q hq ⟨hs q hq hfits.1, hfits.2⟩

theorem fits_of_completed {p : Key} (hp : p.fits (completed q s) = true) : p.fits s = true := by
  unfold completed at hp
  split_ifs at hp with hzero
  · rw [fits_iff] at hp ⊢
    exact ⟨hp.1, Or.inr (Or.inl hzero)⟩
  · exact hp

/-- An entry for a query that no other one takes is apart from all. -/
theorem apart_addedStat {now : Timeb} (h : q.fits t = false) : Apart (addedStat q now) t := by
  rintro p hp ⟨hnew, ht⟩
  have hq := Bool.eq_false_iff.mp h
  rw [fits_iff] at hnew ht
  rw [Ne, fits_iff] at hq
  have hkey : (p.caid, p.prid, p.srvid, p.chid) = (q.caid, q.prid, q.srvid, q.chid) := hnew.1
  have hlen : q.ecmlen = p.ecmlen ∨ q.ecmlen = 0 ∨ p.ecmlen = 0 := hnew.2
  refine hq ⟨hkey.symm.trans ht.1, ?_⟩
  rcases hlen with hlen | hlen | hlen
  · rw [hlen]
    exact ht.2
  · exact Or.inr (Or.inr hlen)
  · exact absurd hlen hp

/-- The caller does not change what the entry answers. -/
def KeepsKey (f : ReaderStat → ReaderStat) : Prop := ∀ s, (f s).key = s.key

theorem KeepsKey.fits (hf : KeepsKey f) (p : Key) (s : ReaderStat) : p.fits (f s) = p.fits s := by
  have h := Key.mk.inj (hf s)
  unfold Key.fits
  rw [h.1, h.2.1, h.2.2.1, h.2.2.2.1, h.2.2.2.2]

theorem getStatLock_perm {busy : Bool} (h : getStatLock busy q f l = some l') :
    ∃ s before after, l = before ++ s :: after ∧ l'.Perm (before ++ f (completed q s) :: after) := by
  unfold getStatLock at h
  split at h
  · cases h
  · rename_i s after hdrop
    refine ⟨s, _, after, (hdrop ▸ List.takeWhile_append_dropWhile).symm, ?_⟩
    rw [← Option.some.inj h]
    split_ifs
    · exact List.perm_middle.symm
    · exact .refl _

theorem getStatLock_none {busy : Bool} (h : getStatLock busy q f l = none) : ∀ s ∈ l, q.fits s = false := by
  unfold getStatLock at h
  split at h
  · rename_i hdrop
    simpa using List.dropWhile_eq_nil_iff.mp hdrop
  · cases h

theorem pairwise_getStatLock {busy : Bool} (hf : KeepsKey f) (hl : l.Pairwise Apart)
    (h : getStatLock busy q f l = some l') : l'.Pairwise Apart := by
  obtain ⟨s, before, after, rfl, hperm⟩ := getStatLock_perm h
  rw [hperm.pairwise_iff Apart.symm, List.perm_middle.pairwise_iff Apart.symm, List.pairwise_cons]
  rw [List.perm_middle.pairwise_iff Apart.symm, List.pairwise_cons] at hl
  refine ⟨fun t ht => (hl.1 t ht).imp fun p _ hp => ?_, hl.2⟩
  rw [hf.fits] at hp
  exact fits_of_completed hp

theorem pairwise_getAddStat {busy : Bool} {now : Timeb} (hf : KeepsKey f) (hl : l.Pairwise Apart) :
    (getAddStat busy q now f l).Pairwise Apart := by
  unfold getAddStat
  split_ifs
  · exact hl
  · cases h : getStatLock false q f l with
    | some l' => exact pairwise_getStatLock hf hl h
    | none =>
      refine List.pairwise_cons.mpr ⟨fun t ht => ?_, hl⟩
      have hnew : Apart (addedStat q now) t := apart_addedStat (getStatLock_none h t ht)
      apply hnew.imp
      intro p _ hp
      rwa [hf.fits] at hp

theorem keepsKey_incFail : KeepsKey incFail := fun _ => rfl

theorem keepsKey_countAnswer (rc : ℕ) (now : Timeb) (timeAvg : BitVec 32) : KeepsKey (countAnswer rc now timeAvg) := by
  intro s
  unfold countAnswer addStat
  dsimp only
  split_ifs
  all_goals rfl

/-- Every call keeps the entries apart. -/
theorem pairwise_run {rdr : Reader} (call : StatCall) (h : rdr.lbStat.Pairwise Apart) :
    (call.run rdr).lbStat.Pairwise Apart := by
  cases call with
  | getStat busy q =>
    change ((getStatLock busy q id rdr.lbStat).getD rdr.lbStat).Pairwise Apart
    cases hget : getStatLock busy q id rdr.lbStat with
    | none => exact h
    | some l' => exact pairwise_getStatLock (fun _ => rfl) h hget
  | addStat busy q rc now timeAvg => exact pairwise_getAddStat (keepsKey_countAnswer rc now timeAvg) h
  | timedOut busy q now => exact pairwise_getAddStat keepsKey_incFail h
  | cleanStatByRc busy rc inverse =>
    unfold StatCall.run
    dsimp only
    split_ifs
    · exact h
    · exact h.filter _
  | cleanStatById busy i =>
    unfold StatCall.run
    dsimp only
    split_ifs
    · exact h
    · exact h.sublist List.eraseP_sublist
  | clearReaderStat => exact .nil
  | save ts lbStatCleanup => exact h.filter _
  | housekeeping now lbStatCleanup => exact h.filter _

theorem Apart.key_ne (h : Apart s t) : s.key ≠ t.key := by
  intro heq
  obtain ⟨hcaid, hprid, hsrvid, hchid, hlen⟩ := Key.mk.inj heq
  refine h { s.key with ecmlen := if s.ecmlen = 0 then 1 else s.ecmlen } ?_ ⟨fits_iff.mpr ⟨rfl, ?_⟩, fits_iff.mpr ⟨?_, ?_⟩⟩
  · dsimp only
    split_ifs with hzero
    · decide
    · exact hzero
  · dsimp only
    split_ifs with hzero
    · exact Or.inr (Or.inl hzero)
    · exact Or.inl rfl
  · simp only [ReaderStat.key, hcaid, hprid, hsrvid, hchid]
  · dsimp only
    split_ifs with hzero
    · exact Or.inr (Or.inl (hlen.symm.trans hzero))
    · exact Or.inl hlen.symm

/-- In every run no key has two entries, and the entry found for a query with a length is the same in every order
of the list: no move to the start takes one before another. -/
theorem lbStat_unique (label : Label) (calls : List StatCall) :
    ((calls.foldl StatCall.run ⟨label, []⟩).lbStat.map ReaderStat.key).Nodup ∧
    ∀ (q : Key) (l : List ReaderStat), q.ecmlen ≠ 0 → l.Perm (calls.foldl StatCall.run ⟨label, []⟩).lbStat →
      getStat q l = getStat q (calls.foldl StatCall.run ⟨label, []⟩).lbStat := by
  have hrun : ∀ rdr : Reader, rdr.lbStat.Pairwise Apart → (calls.foldl StatCall.run rdr).lbStat.Pairwise Apart := by
    induction calls with
    | nil => exact fun _ h => h
    | cons call calls ih => exact fun rdr h => ih _ (pairwise_run call h)
  have hapart := hrun ⟨label, []⟩ .nil
  refine ⟨List.pairwise_map.mpr (hapart.imp Apart.key_ne), fun q l hq hperm => ?_⟩
  apply List.find?_eq_find?_of_perm hperm
  intro s hs t ht
  by_contra hne
  have : Std.Symm Apart := ⟨fun _ _ => Apart.symm⟩
  exact hapart.forall (hperm.mem_iff.mp hs.1) (hperm.mem_iff.mp ht.1) hne q hq ⟨hs.2, ht.2⟩

end NCam.Stat
