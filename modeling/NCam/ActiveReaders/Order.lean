import NCam.Lib.Chain
import NCam.Lib.Transition

/-! The list of active readers of `ncam-reader.c`: `add_reader_to_active` and `remove_reader_from_active` on the
readers' `next` pointers. The active readers are a chain in the configured order, in every run in which a reader
that is added is not the last one of the chain, and its predecessor by client and flag is its predecessor there. -/
namespace NCam.ActiveReaders

open NCam.Lib

structure SReader where
  next : Option ℕ
  client : Option ℕ
  enable : Bool
  active : Bool

/-- The readers by their addresses. `clients` is the client list behind `first_client`. -/
structure Readers where
  configuredReaders : List ℕ
  reader : ℕ → SReader
  firstActiveReader : Option ℕ
  clients : List ℕ

namespace Readers

def next (s : Readers) (rdr : ℕ) : Option ℕ := (s.reader rdr).next

def active (s : Readers) (rdr : ℕ) : Bool := (s.reader rdr).active

def setNext (s : Readers) (rdr : ℕ) (v : Option ℕ) : Readers :=
  { s with reader := Function.update s.reader rdr { s.reader rdr with next := v } }

def setActive (s : Readers) (rdr : ℕ) (b : Bool) : Readers :=
  { s with reader := Function.update s.reader rdr { s.reader rdr with active := b } }

/-- Only a list that does not end needs more steps than there are readers. -/
def fuel (s : Readers) : ℕ := s.configuredReaders.length + 1

/-- The loop over `first_active_reader` does not end on a cycle without `rdr`. -/
def removeReaderFromActive (s : Readers) (rdr : ℕ) : Option Readers :=
  (Chain.walk s.next (some rdr) s.fuel s.firstActiveReader none).map fun (rdr2, prv) =>
    let s :=
      match rdr2, prv with
      | some rdr2, some prv => s.setNext prv (s.next rdr2)
      | some rdr2, none => { s with firstActiveReader := s.next rdr2 }
      | none, _ => s
    (s.setNext rdr none).setActive rdr false

/-- The last reader configured before `rdr` that has a client and is enabled; without one `rdr` goes to
the front (`at_first`). -/
def rdrPrv (s : Readers) (rdr : ℕ) : Option ℕ :=
  (s.configuredReaders.takeWhile (· ≠ rdr)).foldl
    (fun prv rdr2 => if (s.reader rdr2).client.isSome && (s.reader rdr2).enable then some rdr2 else prv) none

/-- The client of the reader goes to the front of the client list. -/
def moveFirst (clients : List ℕ) : Option ℕ → List ℕ
  | some cl => if cl ∈ clients then cl :: clients.erase cl else clients
  | none => clients

/-- The client of the reader goes behind `prv`, which must not be `NULL`. -/
def moveBehind (clients : List ℕ) (prv : Option ℕ) : Option ℕ → Option (List ℕ)
  | some cl =>
    if cl ∈ clients then
      prv.map fun prv => (clients.erase cl).flatMap fun c => if c = prv then [c, cl] else [c]
    else some clients
  | none => some clients

/-- The insertion at the configured position. -/
def insert (s : Readers) (rdr : ℕ) : Option Readers :=
  match s.firstActiveReader with
  | none => some ({ s with firstActiveReader := some rdr }.setActive rdr true)
  | some first =>
    match s.rdrPrv rdr with
    | none =>
      let clients := moveFirst s.clients (s.reader rdr).client
      some (({ s with firstActiveReader := some rdr, clients }.setNext rdr (some first)).setActive rdr true)
    | some rdrPrv =>
      (Chain.walkTo s.next rdrPrv s.fuel first).bind fun rdr2 =>
        let rdrTmp := s.next rdr2
        (moveBehind s.clients (s.reader rdr2).client (s.reader rdr).client).map fun clients =>
          (({ s with clients }.setNext rdr2 (some rdr)).setNext rdr rdrTmp).setActive rdr true

def addReaderToActive (s : Readers) (rdr : ℕ) : Option Readers :=
  if (s.next rdr).isSome then (s.removeReaderFromActive rdr).bind fun s => s.insert rdr
  else s.insert rdr

end Readers

namespace Readers

variable {s t : Readers} {rdr : ℕ}

@[simp] theorem next_setNext (s : Readers) (r : ℕ) (v : Option ℕ) :
    (s.setNext r v).next = Function.update s.next r v :=
  Function.comp_update SReader.next s.reader r _

@[simp] theorem next_setActive (s : Readers) (r : ℕ) (b : Bool) : (s.setActive r b).next = s.next :=
  (Function.comp_update SReader.next s.reader r _).trans (Function.update_eq_self r s.next)

@[simp] theorem active_setNext (s : Readers) (r : ℕ) (v : Option ℕ) : (s.setNext r v).active = s.active :=
  (Function.comp_update SReader.active s.reader r _).trans (Function.update_eq_self r s.active)

@[simp] theorem active_setActive (s : Readers) (r : ℕ) (b : Bool) :
    (s.setActive r b).active = Function.update s.active r b :=
  Function.comp_update SReader.active s.reader r _

/-- The client and the flag of a reader, which the loop over the configured readers asks for. -/
def config (s : Readers) (rdr : ℕ) : Option ℕ × Bool := ((s.reader rdr).client, (s.reader rdr).enable)

@[simp] theorem config_setNext (s : Readers) (r : ℕ) (v : Option ℕ) : (s.setNext r v).config = s.config :=
  (Function.comp_update (fun x : SReader => (x.client, x.enable)) s.reader r _).trans
    (Function.update_eq_self r s.config)

@[simp] theorem config_setActive (s : Readers) (r : ℕ) (b : Bool) : (s.setActive r b).config = s.config :=
  (Function.comp_update (fun x : SReader => (x.client, x.enable)) s.reader r _).trans
    (Function.update_eq_self r s.config)

/-- `active` is set by adding a reader and cleared by removing it. The links from `first_active_reader`
lead through the active readers, each once and in the configured order, and then there is `NULL`. -/
structure Listed (s : Readers) : Prop where
  nodup : s.configuredReaders.Nodup
  chain : Chain.Seg s.next s.firstActiveReader (s.configuredReaders.filter s.active) none
  configured : ∀ r, s.active r = true → r ∈ s.configuredReaders
  unlinked : ∀ r, s.active r = false → s.next r = none

def selected (s : Readers) (rdr : ℕ) : Bool := (s.config rdr).1.isSome && (s.config rdr).2

/-- The active readers configured before `rdr`, and those behind it. -/
def before (s : Readers) (rdr : ℕ) : List ℕ := (s.configuredReaders.takeWhile (· ≠ rdr)).filter s.active

def behind (s : Readers) (rdr : ℕ) : List ℕ :=
  (s.configuredReaders.dropWhile (· ≠ rdr)).tail.filter s.active

/-- The reader of `rdrPrv` is the last active one before `rdr`; or it is not active, so that `rdr` goes
to the end, and the end is its place. -/
def InPlace (s : Readers) (rdr : ℕ) : Prop :=
  s.rdrPrv rdr = (s.before rdr).getLast? ∨
    (s.rdrPrv rdr).any (fun p => !s.active p) = true ∧ s.behind rdr = [] ∧
      ∀ y ∈ (s.before rdr).getLast?, (moveBehind s.clients (s.reader y).client (s.reader rdr).client).isSome

instance (s : Readers) (rdr : ℕ) : Decidable (s.InPlace rdr) := by
  unfold InPlace
  infer_instance

theorem rdrPrv_eq (s : Readers) (rdr : ℕ) :
    s.rdrPrv rdr = ((s.configuredReaders.takeWhile (· ≠ rdr)).filter s.selected).getLast? := by
  unfold rdrPrv
  generalize s.configuredReaders.takeWhile (· ≠ rdr) = l
  have hfold : ∀ prv : Option ℕ, l.foldl (fun prv rdr2 =>
      if (s.reader rdr2).client.isSome && (s.reader rdr2).enable then some rdr2 else prv) prv =
        (l.filter s.selected).getLast?.or prv := by
    induction l with
    | nil => exact fun prv => rfl
    | cons r l ih =>
      intro prv
      rw [List.foldl_cons, ih]
      change (l.filter s.selected).getLast?.or (if s.selected r = true then some r else prv) = _
      cases hr : s.selected r with
      | false => rw [List.filter_cons_of_neg (by rw [hr]; exact Bool.false_ne_true), if_neg Bool.false_ne_true]
      | true =>
        rw [List.filter_cons_of_pos hr, if_pos rfl]
        cases hl : l.filter s.selected with
        | nil => rfl
        | cons x l =>
          rw [List.getLast?_cons_cons, List.getLast?_eq_some_getLast (List.cons_ne_nil x l)]
          rfl
  rw [hfold none, Option.or_none]

/-- The configured list around a reader. -/
theorem configured_split (h : rdr ∈ s.configuredReaders) :
    s.configuredReaders = s.configuredReaders.takeWhile (· ≠ rdr) ++
      rdr :: (s.configuredReaders.dropWhile (· ≠ rdr)).tail := by
  generalize s.configuredReaders = l at h
  induction l with
  | nil => cases h
  | cons x l ih =>
    by_cases hx : x = rdr
    · subst hx
      simp
    · have hrest := ih (by simpa [Ne.symm hx] using h)
      simp only [ne_eq, hx, not_false_eq_true, decide_true, List.takeWhile_cons_of_pos,
        List.dropWhile_cons_of_pos, List.cons_append]
      exact congrArg (List.cons x) hrest

section Remove

theorem filter_inactive (h : s.configuredReaders.Nodup) (rdr : ℕ) :
    s.configuredReaders.filter (Function.update s.active rdr false) =
      (s.configuredReaders.filter s.active).erase rdr := by
  rw [(h.filter _).erase_eq_filter, List.filter_filter]
  refine List.filter_congr fun x _ => ?_
  by_cases hx : x = rdr <;> simp [hx]

private theorem Listed.of_removed (h : s.Listed) (rdr : ℕ) (hconf : t.configuredReaders = s.configuredReaders)
    (hactive : t.active = Function.update s.active rdr false)
    (hchain : Chain.Seg t.next t.firstActiveReader ((s.configuredReaders.filter s.active).erase rdr) none)
    (hself : t.next rdr = none) (hnext : ∀ x, s.active x = false → t.next x = none) : t.Listed := by
  refine ⟨hconf ▸ h.nodup, ?_, fun x hx => ?_, fun x hx => ?_⟩
  · rw [hactive, hconf, filter_inactive h.nodup]
    exact hchain
  · by_cases hxr : x = rdr
    · rw [hactive, hxr, Function.update_self] at hx
      cases hx
    · rw [hactive, Function.update_of_ne hxr] at hx
      rw [hconf]
      exact h.configured x hx
  · by_cases hxr : x = rdr
    · rwa [hxr]
    · rw [hactive, Function.update_of_ne hxr] at hx
      exact hnext x hx

/-- Removing a reader unlinks it and clears its flag. -/
theorem Listed.remove (h : s.Listed) (rdr : ℕ) : ∃ t, s.removeReaderFromActive rdr = some t ∧ t.Listed ∧
    t.active = Function.update s.active rdr false ∧ t.configuredReaders = s.configuredReaders ∧
    t.clients = s.clients ∧ t.config = s.config := by
  have hnd : (s.configuredReaders.filter s.active).Nodup := h.nodup.filter _
  have hlen : (s.configuredReaders.filter s.active).length < s.fuel :=
    Nat.lt_succ_of_le (List.length_filter_le _ _)
  have hchain := h.chain
  unfold removeReaderFromActive
  by_cases hmem : rdr ∈ s.configuredReaders.filter s.active
  · obtain ⟨A, B, hsplit⟩ := List.append_of_mem hmem
    have herase : (s.configuredReaders.filter s.active).erase rdr = A ++ B := by
      rw [hsplit, List.erase_append_right, List.erase_cons_head]
      intro hA
      rw [hsplit] at hnd
      exact (List.nodup_append.mp hnd).2.2 rdr hA rdr List.mem_cons_self rfl
    have hold : ∀ x ∈ A ++ rdr :: B, s.active x = true := by
      intro x hx
      rw [← hsplit] at hx
      exact (List.mem_filter.mp hx).2
    rw [hsplit] at hchain hnd hlen
    obtain ⟨hndA, hcons, hdisj⟩ := List.nodup_append.mp hnd
    have hA : rdr ∉ A := fun hr => hdisj rdr hr rdr List.mem_cons_self rfl
    have hB : rdr ∉ B := (List.nodup_cons.mp hcons).1
    rw [Chain.walk_found hchain hA none (by rw [List.length_append] at hlen; omega), Option.map_some,
      Option.or_none]
    obtain ⟨hto, hfrom⟩ := Chain.Seg.mid.mp hchain
    cases hlast : A.getLast? with
    | none =>
      obtain rfl : A = [] := List.getLast?_eq_none_iff.mp hlast
      refine ⟨_, rfl, h.of_removed rdr rfl (by simp; rfl) ?_ (by simp) fun x hx => ?_, by simp; rfl, rfl, rfl,
        by simp; rfl⟩
      · rw [herase]
        simp only [next_setActive, next_setNext]
        exact (Chain.Seg.update hB none).mpr hfrom
      · simp only [next_setActive, next_setNext]
        by_cases hxr : x = rdr
        · rw [hxr, Function.update_self]
        · rw [Function.update_of_ne hxr]
          exact h.unlinked x hx
    | some y =>
      have hne : A ≠ [] := by
        rintro rfl
        cases hlast
      obtain ⟨y', hy', -, hseg⟩ := hto.relink hne hndA (s.next rdr)
      obtain rfl : y = y' := Option.some.inj (hlast.symm.trans hy')
      have hyA : y ∈ A := List.mem_of_getLast? hlast
      have hyB : y ∉ B := fun hy => hdisj y hyA y (List.mem_cons_of_mem _ hy) rfl
      refine ⟨_, rfl, h.of_removed rdr rfl (by simp) ?_ (by simp) fun x hx => ?_, by simp, rfl, rfl, by simp⟩
      · rw [herase]
        simp only [next_setActive, next_setNext]
        refine Chain.Seg.append.mpr ⟨_, (Chain.Seg.update hA none).mpr hseg, ?_⟩
        exact (Chain.Seg.update hB none).mpr ((Chain.Seg.update hyB _).mpr hfrom)
      · have hxy : x ≠ y := by
          rintro rfl
          rw [hold x (List.mem_append_left _ hyA)] at hx
          cases hx
        simp only [next_setActive, next_setNext]
        by_cases hxr : x = rdr
        · rw [hxr, Function.update_self]
        · rw [Function.update_of_ne hxr, Function.update_of_ne hxy]
          exact h.unlinked x hx
  · obtain ⟨prv', hwalk⟩ := @Chain.walk_notFound _ _ _ hchain (some rdr)
      (fun n hn he => hmem (Option.some.inj he ▸ hn)) none _ hlen
    rw [hwalk, Option.map_some]
    refine ⟨_, rfl, h.of_removed rdr rfl (by simp) ?_ (by simp) fun x hx => ?_, by simp, rfl, rfl, by simp⟩
    · rw [List.erase_of_not_mem hmem]
      simp only [next_setActive, next_setNext]
      exact (Chain.Seg.update hmem none).mpr hchain
    · simp only [next_setActive, next_setNext]
      by_cases hxr : x = rdr
      · rw [hxr, Function.update_self]
      · rw [Function.update_of_ne hxr]
        exact h.unlinked x hx

end Remove

section Insert

/-- The chain around the place of a reader that is not active. -/
theorem active_split (h : rdr ∈ s.configuredReaders) (hinactive : s.active rdr = false) :
    s.configuredReaders.filter s.active = s.before rdr ++ s.behind rdr := by
  conv_lhs => rw [configured_split h]
  rw [List.filter_append, List.filter_cons_of_neg (by rw [hinactive]; exact Bool.false_ne_true)]
  rfl

theorem active_split_of_active (hnd : s.configuredReaders.Nodup) (h : rdr ∈ s.configuredReaders) :
    s.configuredReaders.filter (Function.update s.active rdr true) =
      s.before rdr ++ rdr :: s.behind rdr := by
  have hsplit := configured_split h
  conv_lhs => rw [hsplit]
  rw [hsplit] at hnd
  obtain ⟨-, hcons, hdisj⟩ := List.nodup_append.mp hnd
  rw [List.filter_append, List.filter_cons_of_pos (by rw [Function.update_self])]
  congr 1
  · refine List.filter_congr fun x hx => Function.update_of_ne ?_ _ _
    exact hdisj x hx rdr List.mem_cons_self
  · congr 1
    refine List.filter_congr fun x hx => Function.update_of_ne ?_ _ _
    rintro rfl
    exact (List.nodup_cons.mp hcons).1 hx

private theorem Listed.of_inserted (h : s.Listed) (hmem : rdr ∈ s.configuredReaders)
    (hconf : t.configuredReaders = s.configuredReaders) (hactive : t.active = Function.update s.active rdr true)
    (hchain : Chain.Seg t.next t.firstActiveReader (s.before rdr ++ rdr :: s.behind rdr) none)
    (hnext : ∀ x, s.active x = false → x ≠ rdr → t.next x = none) : t.Listed := by
  refine ⟨hconf ▸ h.nodup, ?_, fun x hx => ?_, fun x hx => ?_⟩
  · rw [hactive, hconf, active_split_of_active h.nodup hmem]
    exact hchain
  · by_cases hxr : x = rdr
    · rwa [hconf, hxr]
    · rw [hactive, Function.update_of_ne hxr] at hx
      rw [hconf]
      exact h.configured x hx
  · by_cases hxr : x = rdr
    · rw [hactive, hxr, Function.update_self] at hx
      cases hx
    · rw [hactive, Function.update_of_ne hxr] at hx
      exact hnext x hx hxr

theorem mem_before {x : ℕ} (hx : x ∈ s.before rdr) : s.active x = true := (List.mem_filter.mp hx).2

/-- The reader behind which the new one goes, and that its client is there. -/
private theorem Listed.stop (h : s.Listed) (hmem : rdr ∈ s.configuredReaders)
    (hinactive : s.active rdr = false) (hplace : s.InPlace rdr) {first p : ℕ}
    (hfirst : s.firstActiveReader = some first) (hp : s.rdrPrv rdr = some p) :
    ∃ A y, s.before rdr = A ++ [y] ∧ Chain.walkTo s.next p s.fuel first = some y ∧
      (moveBehind s.clients (s.reader y).client (s.reader rdr).client).isSome := by
  have hchain := h.chain
  have hnd : (s.configuredReaders.filter s.active).Nodup := h.nodup.filter _
  have hlen : (s.configuredReaders.filter s.active).length < s.fuel :=
    Nat.lt_succ_of_le (List.length_filter_le _ _)
  rw [active_split hmem hinactive] at hchain hnd hlen
  rw [hfirst] at hchain
  rcases hplace with heq | ⟨hout, hbehind, hclient⟩
  · have hne : s.before rdr ≠ [] := by
      intro hnil
      rw [hp, hnil] at heq
      cases heq
    obtain ⟨A, y, hsplit⟩ : ∃ A y, s.before rdr = A ++ [y] :=
      ⟨_, _, (List.dropLast_append_getLast hne).symm⟩
    rw [hp, hsplit, List.getLast?_concat] at heq
    obtain rfl := Option.some.inj heq
    rw [hsplit, List.append_assoc, List.singleton_append] at hchain hnd hlen
    have hyA : p ∉ A := fun hy => (List.nodup_append.mp hnd).2.2 p hy p List.mem_cons_self rfl
    refine ⟨A, p, hsplit, Chain.walkTo_stop hchain hyA (Or.inl rfl) ?_, ?_⟩
    · rw [List.length_append] at hlen
      omega
    · have hselected : s.selected p = true := by
        rw [rdrPrv_eq] at hp
        exact (List.mem_filter.mp (List.mem_of_getLast? hp)).2
      obtain ⟨c, hc⟩ := Option.isSome_iff_exists.mp (Bool.and_eq_true_iff.mp hselected).1
      change (s.reader p).client = some c at hc
      rw [hc]
      unfold moveBehind
      cases (s.reader rdr).client with
      | none => rfl
      | some cl =>
        dsimp only
        split_ifs <;> rfl
  · rw [hp, Option.any_some, Bool.not_eq_true'] at hout
    rw [hbehind, List.append_nil] at hchain hnd hlen
    have hne : s.before rdr ≠ [] := by
      intro hnil
      rw [hnil] at hchain
      cases hchain
    obtain ⟨A, y, hsplit⟩ : ∃ A y, s.before rdr = A ++ [y] :=
      ⟨_, _, (List.dropLast_append_getLast hne).symm⟩
    have hpA : p ∉ A := by
      intro hpA
      have hin : p ∈ s.before rdr := by
        rw [hsplit]
        exact List.mem_append_left _ hpA
      rw [mem_before hin] at hout
      cases hout
    refine ⟨A, y, hsplit, ?_, hclient y (by rw [hsplit, List.getLast?_concat]; rfl)⟩
    rw [hsplit] at hchain hlen
    refine Chain.walkTo_stop hchain hpA (Or.inr rfl) ?_
    rw [List.length_append] at hlen
    omega

/-- A reader goes to its configured place. -/
theorem Listed.insert (h : s.Listed) (hmem : rdr ∈ s.configuredReaders) (hinactive : s.active rdr = false)
    (hplace : s.InPlace rdr) : ∃ t, s.insert rdr = some t ∧ t.Listed := by
  have hchain := h.chain
  have hnd : (s.configuredReaders.filter s.active).Nodup := h.nodup.filter _
  have hnot : rdr ∉ s.configuredReaders.filter s.active := by
    intro hin
    rw [(List.mem_filter.mp hin).2] at hinactive
    cases hinactive
  rw [active_split hmem hinactive] at hchain hnd hnot
  unfold Readers.insert
  cases hfirst : s.firstActiveReader with
  | none =>
    have hnil : s.before rdr ++ s.behind rdr = [] := by
      rw [hfirst] at hchain
      cases hlist : s.before rdr ++ s.behind rdr with
      | nil => rfl
      | cons x l =>
        rw [hlist] at hchain
        cases hchain.1
    obtain ⟨hbefore, hbehind⟩ := List.append_eq_nil_iff.mp hnil
    refine ⟨_, rfl, h.of_inserted hmem rfl (by simp; rfl) ?_ fun x hx _ => ?_⟩
    · rw [hbefore, hbehind]
      simp only [next_setActive]
      exact ⟨rfl, h.unlinked rdr hinactive⟩
    · simp only [next_setActive]
      exact h.unlinked x hx
  | some first =>
    cases hp : s.rdrPrv rdr with
    | none =>
      have hbefore : s.before rdr = [] := by
        rcases hplace with heq | ⟨hout, -⟩
        · rw [hp] at heq
          exact List.getLast?_eq_none_iff.mp heq.symm
        · rw [hp] at hout
          cases hout
      rw [hbefore, List.nil_append] at hchain hnot
      refine ⟨_, rfl, h.of_inserted hmem rfl (by simp; rfl) ?_ fun x hx hxr => ?_⟩
      · rw [hbefore]
        simp only [next_setActive, next_setNext]
        refine ⟨rfl, ?_⟩
        rw [Function.update_self, ← hfirst]
        exact (Chain.Seg.update hnot _).mpr hchain
      · simp only [next_setActive, next_setNext]
        rw [Function.update_of_ne hxr]
        exact h.unlinked x hx
    | some p =>
      obtain ⟨A, y, hsplit, hwalk, hclient⟩ := h.stop hmem hinactive hplace hfirst hp
      obtain ⟨clients, hclients⟩ := Option.isSome_iff_exists.mp hclient
      have hactive : s.active y = true :=
        mem_before (by rw [hsplit]; exact List.mem_append_right _ List.mem_cons_self)
      rw [hsplit, List.append_assoc, List.singleton_append] at hchain hnd hnot
      dsimp only
      rw [hwalk, Option.bind_some, hclients, Option.map_some]
      refine ⟨_, rfl, h.of_inserted hmem rfl (by simp; rfl) ?_ fun x hx hxr => ?_⟩
      · rw [hsplit, List.append_assoc, List.singleton_append]
        simp only [next_setActive, next_setNext]
        rw [hfirst] at hchain
        exact hchain.insert hnd hnot
      · have hxy : x ≠ y := by
          rintro rfl
          rw [hactive] at hx
          cases hx
        simp only [next_setActive, next_setNext]
        rw [Function.update_of_ne hxr, Function.update_of_ne hxy]
        exact h.unlinked x hx

end Insert

section Add

/-- A reader that is added is not the last one of the chain, and goes to its configured place. -/
def Addable (s : Readers) (rdr : ℕ) : Prop :=
  (s.active rdr = true → (s.next rdr).isSome = true) ∧ s.InPlace rdr

instance (s : Readers) (rdr : ℕ) : Decidable (s.Addable rdr) := by
  unfold Addable
  infer_instance

/-- Whether the reader itself is active does not matter for its place. -/
private theorem InPlace.removed (hplace : s.InPlace rdr) (hmem : rdr ∈ s.configuredReaders)
    (hnd : s.configuredReaders.Nodup) (hactive : t.active = Function.update s.active rdr false)
    (hconf : t.configuredReaders = s.configuredReaders) (hclients : t.clients = s.clients)
    (hconfig : t.config = s.config) : t.InPlace rdr := by
  have hsplit := configured_split hmem
  rw [hsplit] at hnd
  obtain ⟨-, hcons, hdisj⟩ := List.nodup_append.mp hnd
  have hbefore : t.before rdr = s.before rdr := by
    unfold before
    rw [hconf, hactive]
    exact List.filter_congr fun x hx => Function.update_of_ne (hdisj x hx rdr List.mem_cons_self) _ _
  have hbehind : t.behind rdr = s.behind rdr := by
    unfold behind
    rw [hconf, hactive]
    refine List.filter_congr fun x hx => Function.update_of_ne ?_ _ _
    rintro rfl
    exact (List.nodup_cons.mp hcons).1 hx
  have hprv : t.rdrPrv rdr = s.rdrPrv rdr := by
    have hselected : t.selected = s.selected := by
      unfold selected
      rw [hconfig]
    rw [rdrPrv_eq, rdrPrv_eq, hselected, hconf]
  have hclient : ∀ x, (t.reader x).client = (s.reader x).client :=
    fun x => congrArg Prod.fst (congrFun hconfig x)
  rcases hplace with heq | ⟨hout, hnil, hmove⟩
  · refine Or.inl ?_
    rw [hprv, hbefore]
    exact heq
  · refine Or.inr ⟨?_, by rw [hbehind, hnil], fun y hy => ?_⟩
    · rw [hprv]
      cases hp : s.rdrPrv rdr with
      | none =>
        rw [hp] at hout
        cases hout
      | some p =>
        rw [hp, Option.any_some] at hout
        rw [Option.any_some, hactive]
        by_cases hpr : p = rdr
        · rw [hpr, Function.update_self]
          rfl
        · rwa [Function.update_of_ne hpr]
    · rw [hbefore] at hy
      rw [hclients, hclient, hclient]
      exact hmove y hy

theorem Listed.add (h : s.Listed) (hmem : rdr ∈ s.configuredReaders) (ha : s.Addable rdr) :
    ∃ t, s.addReaderToActive rdr = some t ∧ t.Listed := by
  unfold addReaderToActive
  split_ifs with hnext
  · obtain ⟨t, hremove, ht, hactive, hconf, hclients, hconfig⟩ := h.remove rdr
    have hplace := ha.2.removed hmem h.nodup hactive hconf hclients hconfig
    have hinactive : t.active rdr = false := by rw [hactive, Function.update_self]
    rw [hremove]
    exact ht.insert (hconf ▸ hmem) hinactive hplace
  · have hinactive : s.active rdr = false := by
      by_contra hyes
      exact hnext (ha.1 (eq_true_of_ne_false hyes))
    exact h.insert hmem hinactive ha.2

end Add

end Readers

section Runs

open Readers

/-- What happens to the readers: the two calls, and what the rest of the program does in between with the
clients, the flags and the configured list. -/
inductive Event
  | add (rdr : ℕ)
  | remove (rdr : ℕ)
  | setClient (rdr : ℕ) (client : Option ℕ)
  | setEnable (rdr : ℕ) (enable : Bool)
  | setClients (clients : List ℕ)
  | configure (rdr : ℕ)
  | unconfigure (rdr : ℕ)

/-- No reader is active. -/
def Readers.Fresh (s : Readers) : Prop :=
  s.configuredReaders.Nodup ∧ s.firstActiveReader = none ∧
    ∀ r, s.active r = false ∧ s.next r = none

/-- Only configured readers are added, and active ones are removed before they are deleted. -/
def system : System Readers Event where
  init := Fresh
  next s
    | .add rdr => if rdr ∈ s.configuredReaders then s.addReaderToActive rdr else none
    | .remove rdr => s.removeReaderFromActive rdr
    | .setClient rdr client => some { s with reader := Function.update s.reader rdr { s.reader rdr with client } }
    | .setEnable rdr enable => some { s with reader := Function.update s.reader rdr { s.reader rdr with enable } }
    | .setClients clients => some { s with clients }
    | .configure rdr =>
      if rdr ∈ s.configuredReaders then none
      else some { s with configuredReaders := s.configuredReaders ++ [rdr] }
    | .unconfigure rdr =>
      if s.active rdr then none else some { s with configuredReaders := s.configuredReaders.erase rdr }

def Readers.Kept (s : Readers) : Event → Prop
  | .add rdr => s.Addable rdr
  | _ => True

instance (s : Readers) (a : Event) : Decidable (s.Kept a) := by
  cases a <;> unfold Readers.Kept <;> infer_instance

variable {s t : Readers} {a : Event}

theorem Readers.Fresh.listed (hf : s.Fresh) : s.Listed := by
  obtain ⟨hnd, hfirst, hnone⟩ := hf
  refine ⟨hnd, ?_, fun r hr => ?_, fun r _ => (hnone r).2⟩
  · have hnil : s.configuredReaders.filter s.active = [] :=
      List.filter_eq_nil_iff.mpr fun r _ => by rw [(hnone r).1]; exact Bool.false_ne_true
    rw [hfirst, hnil]
    rfl
  · rw [(hnone r).1] at hr
    cases hr

/-- Changes of other fields keep the chain. -/
private theorem Readers.Listed.of_same (h : s.Listed) (hconf : t.configuredReaders = s.configuredReaders)
    (hfirst : t.firstActiveReader = s.firstActiveReader) (hnext : t.next = s.next)
    (hactive : t.active = s.active) : t.Listed := by
  refine ⟨hconf ▸ h.nodup, ?_, ?_, ?_⟩
  · rw [hconf, hfirst, hnext, hactive]
    exact h.chain
  · rw [hconf, hactive]
    exact h.configured
  · rw [hnext, hactive]
    exact h.unlinked

theorem Readers.Listed.step (h : s.Listed) (hk : s.Kept a) (ht : system.next s a = some t) : t.Listed := by
  cases a with
  | add rdr =>
    change (if rdr ∈ s.configuredReaders then s.addReaderToActive rdr else none) = some t at ht
    split_ifs at ht with hmem
    obtain ⟨u, hu, hlisted⟩ := h.add hmem hk
    obtain rfl := Option.some.inj (hu.symm.trans ht)
    exact hlisted
  | remove rdr =>
    obtain ⟨u, hu, hlisted, -⟩ := h.remove rdr
    obtain rfl := Option.some.inj (hu.symm.trans ht)
    exact hlisted
  | setClient rdr client =>
    cases ht
    exact h.of_same rfl rfl ((Function.comp_update SReader.next s.reader rdr _).trans
      (Function.update_eq_self rdr s.next)) ((Function.comp_update SReader.active s.reader rdr _).trans
      (Function.update_eq_self rdr s.active))
  | setEnable rdr enable =>
    cases ht
    exact h.of_same rfl rfl ((Function.comp_update SReader.next s.reader rdr _).trans
      (Function.update_eq_self rdr s.next)) ((Function.comp_update SReader.active s.reader rdr _).trans
      (Function.update_eq_self rdr s.active))
  | setClients clients =>
    cases ht
    exact h.of_same rfl rfl rfl rfl
  | configure rdr =>
    change (if rdr ∈ s.configuredReaders then none
      else some { s with configuredReaders := s.configuredReaders ++ [rdr] }) = some t at ht
    split_ifs at ht with hmem
    cases ht
    have hinactive : s.active rdr = false := by
      by_contra hyes
      exact hmem (h.configured rdr (eq_true_of_ne_false hyes))
    refine ⟨?_, ?_, fun r hr => List.mem_append_left _ (h.configured r hr), h.unlinked⟩
    · refine List.nodup_append.mpr ⟨h.nodup, List.nodup_singleton rdr, fun x hx y hy => ?_⟩
      rw [List.mem_singleton.mp hy]
      rintro rfl
      exact hmem hx
    · change Chain.Seg s.next s.firstActiveReader ((s.configuredReaders ++ [rdr]).filter s.active) none
      rw [List.filter_append, List.filter_singleton, hinactive, Bool.cond_false, List.append_nil]
      exact h.chain
  | unconfigure rdr =>
    change (if s.active rdr then none
      else some { s with configuredReaders := s.configuredReaders.erase rdr }) = some t at ht
    split_ifs at ht with hactive
    cases ht
    refine ⟨h.nodup.erase rdr, ?_, fun r hr => ?_, h.unlinked⟩
    · change Chain.Seg s.next s.firstActiveReader ((s.configuredReaders.erase rdr).filter s.active) none
      have hsame : (s.configuredReaders.erase rdr).filter s.active = s.configuredReaders.filter s.active := by
        rw [h.nodup.erase_eq_filter, List.filter_filter]
        refine List.filter_congr fun x _ => ?_
        by_cases hx : x = rdr
        · rw [hx, eq_false_of_ne_true hactive]
          rfl
        · rw [bne_iff_ne.mpr hx, Bool.and_true]
      rw [hsame]
      exact h.chain
    · refine (List.mem_erase_of_ne ?_).mpr (h.configured r hr)
      rintro rfl
      exact hactive hr

theorem Readers.listed_of_reachable (hr : system.Reachable Kept s) : s.Listed :=
  hr.invariant (fun _ (hf : Fresh _) => hf.listed) fun _ _ _ h hk ht => h.step hk ht

/-- Where added readers are not the last ones of the chain and go to their place, the active readers are
always a chain in the configured order, and both calls return. -/
theorem active_chain (s : Readers) (hr : system.Reachable Kept s) :
    s.Listed ∧ (∀ rdr ∈ s.configuredReaders, s.Kept (.add rdr) → (s.addReaderToActive rdr).isSome) ∧
      ∀ rdr, (s.removeReaderFromActive rdr).isSome := by
  have h := listed_of_reachable hr
  refine ⟨h, fun rdr hmem hk => ?_, fun rdr => ?_⟩
  · obtain ⟨t, ht, -⟩ := h.add hmem hk
    rw [ht]
    rfl
  · obtain ⟨t, ht, -⟩ := h.remove rdr
    rw [ht]
    rfl

/-- Four configured readers without a thread. -/
def Readers.start : Readers := ⟨[1, 2, 3, 4], fun _ => ⟨none, none, true, false⟩, none, []⟩

theorem Readers.fresh_start : start.Fresh := ⟨by decide, rfl, fun _ => ⟨rfl, rfl⟩⟩

/-- A reader is started with a new client, without being removed first. -/
def Event.restart (rdr client : ℕ) : List Event :=
  [.setClient rdr none, .setClients [5, 6, 7, 8, 9], .setClient rdr (some client), .add rdr]

/-- All readers are started, two of them are disabled, and one of these comes back. -/
theorem active_chain_restart : ∃ s, (system.Reachable Kept s ∧ s.active 3 = true ∧ s.active 2 = false) ∧
    s.Listed ∧ (∀ rdr ∈ s.configuredReaders, s.Kept (.add rdr) → (s.addReaderToActive rdr).isSome) ∧
      ∀ rdr, (s.removeReaderFromActive rdr).isSome := by
  obtain ⟨s, hr, hs⟩ := @System.exists_reachable_of_exec _ _ system Kept _ _ fresh_start
    (Event.restart 1 5 ++ Event.restart 2 6 ++ Event.restart 3 7 ++ Event.restart 4 8 ++
      [.setEnable 2 false, .remove 2, .setEnable 3 false, .remove 3, .setEnable 3 true] ++
      Event.restart 3 9)
    (fun s => s.active 3 && !s.active 2) (by decide)
  obtain ⟨h3, h2⟩ := Bool.and_eq_true_iff.mp hs
  exact ⟨s, ⟨hr, h3, by rwa [Bool.not_eq_true'] at h2⟩, active_chain s hr⟩

/-- Adding the last reader of the chain once more links it to itself; and a reader whose predecessor was
removed, but has still a client, goes behind a reader that is configured after it. -/
theorem last_reader_added_again :
    (∃ s, system.Reachable System.free s ∧ s.next 1 = some 1 ∧ ¬ s.Listed) ∧
      ∃ s, system.Reachable System.free s ∧ s.next 4 = some 3 ∧ ¬ s.Listed := by
  constructor
  · obtain ⟨s, hr, hs⟩ := @System.exists_reachable_of_exec _ _ system System.free
      (fun _ _ => instDecidableTrue) _ fresh_start (Event.restart 1 5 ++ Event.restart 1 6)
      (fun s => s.active 1 && decide (s.next 1 = some 1)) (by decide)
    obtain ⟨hactive, hnext⟩ := Bool.and_eq_true_iff.mp hs
    refine ⟨s, hr, of_decide_eq_true hnext, fun h => ?_⟩
    have hmem : 1 ∈ s.configuredReaders.filter s.active :=
      List.mem_filter.mpr ⟨h.configured 1 hactive, hactive⟩
    obtain ⟨A, B, hsplit⟩ := List.append_of_mem hmem
    have hnd : (s.configuredReaders.filter s.active).Nodup := h.nodup.filter _
    have hchain := h.chain
    rw [hsplit] at hchain hnd
    have hrest := (Chain.Seg.mid.mp hchain).2
    rw [of_decide_eq_true hnext] at hrest
    cases B with
    | nil => cases hrest
    | cons x B =>
      obtain rfl := Option.some.inj hrest.1
      exact (List.nodup_cons.mp (List.nodup_append.mp hnd).2.1).1 List.mem_cons_self
  · obtain ⟨s, hr, hs⟩ := @System.exists_reachable_of_exec _ _ system System.free
      (fun _ _ => instDecidableTrue) _ fresh_start
      (Event.restart 1 5 ++ Event.restart 2 6 ++ Event.restart 3 7 ++ Event.restart 4 8 ++
        [.remove 2, .remove 3] ++ Event.restart 3 9)
      (fun s => decide (s.configuredReaders.filter s.active = [1, 3, 4]) &&
        decide (s.next 1 = some 4 ∧ s.next 4 = some 3)) (by decide)
    obtain ⟨hfilter, hnext⟩ := Bool.and_eq_true_iff.mp hs
    obtain ⟨h1, h4⟩ := of_decide_eq_true hnext
    refine ⟨s, hr, h4, fun h => ?_⟩
    have hchain := h.chain
    rw [of_decide_eq_true hfilter] at hchain
    obtain ⟨-, hthree, -⟩ := hchain
    cases h1.symm.trans hthree

end Runs

end NCam.ActiveReaders
