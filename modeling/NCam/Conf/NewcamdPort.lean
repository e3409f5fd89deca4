import NCam.Util.Decimal
import NCam.Util.HexBytes

/-! The ports of the newcamd server: `mk_t_newcamd_port` writes the table that `chk_port_tab` has read. -/
namespace NCam.Conf

open NCam.Util

def csMaxprov : ℕ := 128

def csMaxports : ℕ := 200

/-- The length of `filts` in `NCD_FTAB`. -/
def ncdMaxfilts : ℕ := 16

abbrev DesKey := Vector (BitVec 8) 14

structure PortFilter where
  caid : BitVec 16
  nprids : BitVec 8
  prids : ℕ → BitVec 32

/-- A port with its settings; a key that is not set is never read. -/
structure NcdPort where
  sPort : BitVec 32
  ncdKey : Option DesKey
  nfilts : ℕ
  filts : ℕ → PortFilter

structure Ptab where
  nports : ℕ
  ports : ℕ → NcdPort

def emptyFilter : PortFilter := ⟨0, 0, fun _ => 0⟩

/-- What the first pass finds in one token: whether it has a port, the text of its filters, and what stays in its
place. -/
structure PortPiece where
  isPort : Bool
  sPort : BitVec 32
  ncdKey : Option DesKey
  ptr : List Char
  left : List Char

def readDesKey (asc : List Char) : Option DesKey :=
  if (List.range 14).all fun j => (keyByte asc j).isSome then some (keyAtobL asc (Vector.replicate 14 0) 28)
  else none

def portPiece (ptr1 : List Char) : PortPiece :=
  match cutAt '@' (trim ptr1) with
  | (ptr1, some ptr2) =>
    let key := cutAt '{' (trim ptr1)
    ⟨true, .ofInt 32 (atoi ptr1), key.2.bind readDesKey, ptr2, key.1⟩
  | (ptr1, none) => ⟨false, 0, none, ptr1, ptr1⟩

def portPieces (portasc : List Char) : List PortPiece := ((strtok ';' portasc).take csMaxports).map portPiece

/-- The variables of the second pass. -/
structure PortRead where
  ports : ℕ → NcdPort
  iport : ℕ
  ifilt : ℕ

def addPrid (f : PortFilter) (j : ℕ) (prid : BitVec 32) : PortFilter :=
  { f with nprids := f.nprids + 1, prids := Function.update f.prids j prid }

def PortRead.setPort (s : PortRead) (p : NcdPort) : PortRead := { s with ports := Function.update s.ports s.iport p }

/-- One `caid:ident` or `ident` with the next value of `j`; nothing if it would be stored outside the arrays. -/
def readIdent (s : PortRead) (j : ℕ) (ptr3 : List Char) : Option (PortRead × ℕ) :=
  let p := s.ports s.iport
  match cutAt ':' (trim ptr3) with
  | (ptr3, some ptr2) =>
    let ifilt := p.nfilts
    if ifilt < ncdMaxfilts then
      let f := addPrid { p.filts ifilt with caid := (a2i ptr3 4).setWidth 16 } 0 (a2i ptr2 6)
      some ({ s.setPort { p with nfilts := ifilt + 1, filts := Function.update p.filts ifilt f } with
        ifilt := ifilt }, 1)
    else none
  | (ptr3, none) =>
    if s.ifilt < ncdMaxfilts then
      let f := addPrid (p.filts s.ifilt) j (a2i ptr3 6)
      some (s.setPort { p with filts := Function.update p.filts s.ifilt f }, j + 1)
    else none

def readIdents : PortRead → ℕ → List (List Char) → Option PortRead
  | s, _, [] => some s
  | s, j, ptr3 :: tokens =>
    if j < csMaxprov then (readIdent s j ptr3).bind fun r => readIdents r.1 r.2 tokens else some s

/-- The second pass from token `i` on. -/
def readPieces : PortRead → ℕ → List PortPiece → Option PortRead
  | s, _, [] => some s
  | s, i, p :: pieces =>
    let s := if p.sPort ≠ 0 then { s with iport := i } else s
    (readIdents s 0 (strtok ',' p.ptr)).bind fun s => readPieces s (i + 1) pieces

def chkPortTab (portasc : List Char) : Option Ptab :=
  let pieces := portPieces portasc
  let ports : ℕ → NcdPort := fun i =>
    pieces[i]?.elim ⟨0, none, 0, fun _ => emptyFilter⟩ fun p => ⟨p.sPort, p.ncdKey, 0, fun _ => emptyFilter⟩
  let nports := pieces.countP (·.isPort)
  let left := portasc.takeWhile (· = ';') ++ pieces.head?.elim [] (·.left)
  let only := pieces.length = 1 ∧ left.length < 6 ∧ (ports 0).sPort = 0
  let ports := if only then Function.update ports 0 { ports 0 with sPort := .ofInt 32 (atoi left) } else ports
  (readPieces ⟨ports, 0, 0⟩ 0 pieces).map fun s => ⟨if only then 1 else nports, s.ports⟩

/-- The texts of one port. -/
def printPort (dot1 : List Char) (p : NcdPort) : List (List Char) :=
  [dot1 ++ printfDec p.sPort.toInt] ++
    (p.ncdKey.elim [] fun key => [['{']] ++ key.toList.map hexByte ++ [['}']]) ++
    ['@' :: printfHex 4 ((p.filts 0).caid.setWidth 32)] ++
    (List.range (p.filts 0).nprids.toNat).map fun j =>
      (if j = 0 then ':' else ',') :: printfHex 6 ((p.filts 0).prids j)

def neededPort (p : NcdPort) : ℕ :=
  11 + (if p.ncdKey.isSome then 30 else 0) + (p.filts 0).nprids.toNat * 7

/-- The text in its buffer; nothing if providers behind the array are read or texts are written behind the
buffer. -/
def mkTNewcamdPort (ptab : Ptab) : Option (List Char) :=
  if (List.range ptab.nports).all fun i => ((ptab.ports i).filts 0).nprids.toNat ≤ csMaxprov then
    let needed := 1 + ((List.range ptab.nports).map fun i => neededPort (ptab.ports i)).sum
    if needed = 1 then some []
    else snprintfs needed ((List.range ptab.nports).flatMap fun i =>
      printPort (if i = 0 then [] else [';']) (ptab.ports i)) 0 []
  else none

/-- The tokens of one text that start a filter. -/
def colonCount : ℕ → List (List Char) → ℕ
  | _, [] => 0
  | j, ptr3 :: tokens =>
    if j < csMaxprov then
      if (cutAt ':' (trim ptr3)).2.isSome then colonCount 1 tokens + 1 else colonCount (j + 1) tokens
    else 0

/-- What one token says: the caid of a new filter, if it has one, and the ident. -/
def parseIdent (ptr3 : List Char) : Option (BitVec 16) × BitVec 32 :=
  match cutAt ':' (trim ptr3) with
  | (ptr3, some ptr2) => (some ((a2i ptr3 4).setWidth 16), a2i ptr2 6)
  | (ptr3, none) => (none, a2i ptr3 6)

/-- The filters that are stored for port `r`. -/
def filterCount (r : ℕ) : ℕ → ℕ → List PortPiece → ℕ
  | _, _, [] => 0
  | iport, i, p :: pieces =>
    let iport := if p.sPort ≠ 0 then i else iport
    (if iport = r then colonCount 0 (strtok ',' p.ptr) else 0) + filterCount r iport (i + 1) pieces

section Read

variable {s s' : PortRead} {i j j' r : ℕ} {ptr3 : List Char} {tokens : List (List Char)} {p : PortPiece}
  {pieces pieces' : List PortPiece}

/-- What one token can do: it only changes filters of the port `iport`. -/
private theorem readIdent_spec (h : readIdent s j ptr3 = some (s', j')) :
    s'.iport = s.iport ∧ (∀ r ≠ s.iport, s'.ports r = s.ports r) ∧
      ((s'.ports s.iport).sPort = (s.ports s.iport).sPort ∧
        (s'.ports s.iport).ncdKey = (s.ports s.iport).ncdKey) ∧
      s'.ifilt < ncdMaxfilts ∧
      if (cutAt ':' (trim ptr3)).2.isSome then
        (s.ports s.iport).nfilts < ncdMaxfilts ∧ (s'.ports s.iport).nfilts = (s.ports s.iport).nfilts + 1 ∧ j' = 1
      else (s'.ports s.iport).nfilts = (s.ports s.iport).nfilts ∧ j' = j + 1 := by
  unfold readIdent at h
  dsimp only at h
  revert h
  obtain ⟨caid, rest⟩ := cutAt ':' (trim ptr3)
  intro h
  cases rest with
  | some ptr2 =>
    dsimp only at h
    split_ifs at h with hin
    · obtain ⟨rfl, rfl⟩ := Prod.mk.inj (Option.some.inj h)
      refine ⟨rfl, fun r hr => Function.update_of_ne hr _ _, ?_, hin, ?_⟩
      · unfold PortRead.setPort
        dsimp only
        rw [Function.update_self]
        exact ⟨rfl, rfl⟩
      · unfold PortRead.setPort
        dsimp only
        rw [Function.update_self]
        exact ⟨hin, rfl, rfl⟩
  | none =>
    dsimp only at h
    split_ifs at h with hin
    · obtain ⟨rfl, rfl⟩ := Prod.mk.inj (Option.some.inj h)
      refine ⟨rfl, fun r hr => Function.update_of_ne hr _ _, ?_, hin, ?_⟩
      · unfold PortRead.setPort
        dsimp only
        rw [Function.update_self]
        exact ⟨rfl, rfl⟩
      · unfold PortRead.setPort
        dsimp only
        rw [Function.update_self]
        exact ⟨rfl, rfl⟩

private theorem readIdent_isSome (hifilt : s.ifilt < ncdMaxfilts)
    (h : (cutAt ':' (trim ptr3)).2.isSome → (s.ports s.iport).nfilts < ncdMaxfilts) :
    ∃ s' j', readIdent s j ptr3 = some (s', j') := by
  unfold readIdent
  dsimp only
  revert h
  obtain ⟨caid, rest⟩ := cutAt ':' (trim ptr3)
  intro h
  cases rest with
  | some ptr2 =>
    dsimp only
    rw [if_pos (h rfl)]
    exact ⟨_, _, rfl⟩
  | none =>
    dsimp only
    rw [if_pos hifilt]
    exact ⟨_, _, rfl⟩

private theorem readIdents_cons (hj : j < csMaxprov) :
    readIdents s j (ptr3 :: tokens) = (readIdent s j ptr3).bind fun r => readIdents r.1 r.2 tokens := if_pos hj

private theorem readIdents_full (hj : ¬ j < csMaxprov) : readIdents s j tokens = some s := by
  cases tokens with
  | nil => rfl
  | cons ptr3 tokens => exact if_neg hj

/-- What the tokens of one text can do. -/
theorem readIdents_spec (h : readIdents s j tokens = some s') (hifilt : s.ifilt < ncdMaxfilts) :
    s'.iport = s.iport ∧ (∀ r ≠ s.iport, s'.ports r = s.ports r) ∧
      ((s'.ports s.iport).sPort = (s.ports s.iport).sPort ∧
        (s'.ports s.iport).ncdKey = (s.ports s.iport).ncdKey) ∧
      s'.ifilt < ncdMaxfilts ∧
      (s'.ports s.iport).nfilts = (s.ports s.iport).nfilts + colonCount j tokens ∧
      (0 < colonCount j tokens → (s'.ports s.iport).nfilts ≤ ncdMaxfilts) := by
  induction tokens generalizing s j with
  | nil =>
    rw [← Option.some.inj h]
    exact ⟨rfl, fun _ _ => rfl, ⟨rfl, rfl⟩, hifilt, rfl, fun h => absurd h (Nat.lt_irrefl 0)⟩
  | cons ptr3 tokens ih =>
    unfold colonCount
    by_cases hj : j < csMaxprov
    · rw [readIdents_cons hj] at h
      cases hone : readIdent s j ptr3 with
      | none =>
        rw [hone] at h
        cases h
      | some r =>
        rw [hone, Option.bind_some] at h
        obtain ⟨hiport, hothers, hfixed, hifilt', hcount⟩ := readIdent_spec hone
        obtain ⟨hiport', hothers', hfixed', hlast, hsum, hle⟩ := ih h hifilt'
        rw [hiport] at hothers' hfixed' hsum hle hiport'
        rw [if_pos hj]
        refine ⟨hiport', fun r' hr' => (hothers' r' hr').trans (hothers r' hr'),
          ⟨hfixed'.1.trans hfixed.1, hfixed'.2.trans hfixed.2⟩, hlast, ?_, ?_⟩
        · split_ifs at hcount ⊢ with hcolon
          · rw [hcount.2.2] at hsum
            omega
          · rw [hcount.2] at hsum
            omega
        · split_ifs at hcount ⊢ with hcolon
          · intro _
            by_cases hmore : 0 < colonCount r.2 tokens
            · exact hle hmore
            · omega
          · rw [hcount.2] at hle
            exact hle
    · rw [readIdents_full hj] at h
      rw [if_neg hj, ← Option.some.inj h]
      exact ⟨rfl, fun _ _ => rfl, ⟨rfl, rfl⟩, hifilt, rfl, fun h => absurd h (Nat.lt_irrefl 0)⟩

private theorem readIdents_isSome (hifilt : s.ifilt < ncdMaxfilts)
    (hle : (s.ports s.iport).nfilts + colonCount j tokens ≤ ncdMaxfilts) :
    ∃ s', readIdents s j tokens = some s' := by
  induction tokens generalizing s j with
  | nil => exact ⟨s, rfl⟩
  | cons ptr3 tokens ih =>
    by_cases hj : j < csMaxprov
    · unfold colonCount at hle
      rw [if_pos hj] at hle
      obtain ⟨s₁, j₁, hone⟩ := @readIdent_isSome s j ptr3 hifilt fun hcolon => by
        rw [if_pos hcolon] at hle
        omega
      obtain ⟨hiport, -, -, hifilt', hcount⟩ := readIdent_spec hone
      rw [readIdents_cons hj, hone, Option.bind_some]
      apply ih hifilt'
      rw [hiport]
      split_ifs at hle hcount
      · dsimp only
        rw [hcount.2.2, hcount.2.1]
        omega
      · dsimp only
        rw [hcount.2, hcount.1]
        exact hle
    · exact ⟨s, readIdents_full hj⟩

/-- The state with which the text of a piece is read. -/
def startPiece (s : PortRead) (i : ℕ) (p : PortPiece) : PortRead := if p.sPort ≠ 0 then { s with iport := i } else s

theorem readPieces_cons : readPieces s i (p :: pieces) =
    (readIdents (startPiece s i p) 0 (strtok ',' p.ptr)).bind fun s => readPieces s (i + 1) pieces := rfl

theorem startPiece_ports : (startPiece s i p).ports = s.ports ∧ (startPiece s i p).ifilt = s.ifilt ∧
    (startPiece s i p).iport = if p.sPort ≠ 0 then i else s.iport := by
  unfold startPiece
  split_ifs <;> exact ⟨rfl, rfl, rfl⟩

theorem readPieces_append : readPieces s i (pieces ++ pieces') =
    (readPieces s i pieces).bind fun s => readPieces s (i + pieces.length) pieces' := by
  induction pieces generalizing s i with
  | nil => rfl
  | cons p pieces ih =>
    have hlen : i + (p :: pieces).length = i + 1 + pieces.length := by
      rw [List.length_cons]
      omega
    rw [List.cons_append, readPieces_cons, readPieces_cons, hlen]
    cases readIdents (startPiece s i p) 0 (strtok ',' p.ptr) with
    | none => rfl
    | some s₁ => exact ih

/-- The second pass finds every filter a place exactly if no port has too many. -/
theorem readPieces_isSome_iff (hifilt : s.ifilt < ncdMaxfilts) (hall : ∀ r, (s.ports r).nfilts ≤ ncdMaxfilts) :
    (readPieces s i pieces).isSome ↔
      ∀ r, (s.ports r).nfilts + filterCount r s.iport i pieces ≤ ncdMaxfilts := by
  induction pieces generalizing s i with
  | nil => exact ⟨fun _ r => hall r, fun _ => rfl⟩
  | cons p pieces ih =>
    obtain ⟨hports, hfilt, hiport⟩ := @startPiece_ports s i p
    rw [readPieces_cons]
    unfold filterCount
    dsimp only
    rw [← hiport, ← hports]
    cases hread : readIdents (startPiece s i p) 0 (strtok ',' p.ptr) with
    | none =>
      refine ⟨fun h => (Bool.false_ne_true h).elim, fun h => ?_⟩
      have hle := h (startPiece s i p).iport
      rw [if_pos rfl] at hle
      obtain ⟨s₁, hs₁⟩ := @readIdents_isSome (startPiece s i p) 0 (strtok ',' p.ptr) (hfilt ▸ hifilt) (by omega)
      rw [hread] at hs₁
      cases hs₁
    | some s₁ =>
      obtain ⟨hiport', hothers, -, hfilt', hsum, hmore⟩ := readIdents_spec hread (hfilt ▸ hifilt)
      have hcount : ∀ r, (s₁.ports r).nfilts = ((startPiece s i p).ports r).nfilts +
          if (startPiece s i p).iport = r then colonCount 0 (strtok ',' p.ptr) else 0 := by
        intro r
        by_cases hr : (startPiece s i p).iport = r
        · rw [if_pos hr, ← hr]
          exact hsum
        · rw [if_neg hr, hothers r (Ne.symm hr), Nat.add_zero]
      have hall' : ∀ r, (s₁.ports r).nfilts ≤ ncdMaxfilts := by
        intro r
        by_cases hr : (startPiece s i p).iport = r
        · by_cases hcolon : 0 < colonCount 0 (strtok ',' p.ptr)
          · rw [← hr]
            exact hmore hcolon
          · rw [hcount, if_pos hr, hports]
            have hle := hall r
            omega
        · rw [hcount, if_neg hr, hports]
          exact hall r
      rw [Option.bind_some, ih hfilt' hall', hiport']
      refine forall_congr' fun r => ?_
      rw [hcount r, Nat.add_assoc]

/-- A port that is not the one in use stays as it is until a token names it. -/
theorem readPieces_untouched (h : readPieces s i pieces = some s') (hifilt : s.ifilt < ncdMaxfilts)
    (hr : r ≠ s.iport) (hport : ∀ j p, i + j = r → pieces[j]? = some p → p.sPort = 0) :
    s'.ports r = s.ports r := by
  induction pieces generalizing s i with
  | nil => rw [← Option.some.inj h]
  | cons p pieces ih =>
    obtain ⟨hports, hfilt, hiport⟩ := @startPiece_ports s i p
    rw [readPieces_cons] at h
    cases hread : readIdents (startPiece s i p) 0 (strtok ',' p.ptr) with
    | none =>
      rw [hread] at h
      cases h
    | some s₁ =>
      rw [hread, Option.bind_some] at h
      obtain ⟨hiport', hothers, -, hfilt', -, -⟩ := readIdents_spec hread (hfilt ▸ hifilt)
      have hne : r ≠ (startPiece s i p).iport := by
        rw [hiport]
        split_ifs with hzero
        · intro heq
          exact hzero (hport 0 p heq.symm rfl)
        · exact hr
      rw [ih h hfilt' (hiport' ▸ hne) fun j q hj hq => hport (j + 1) q (by omega) hq, hothers r hne, hports]

/-- A text of at most one token that starts no filter, or one that has a port of its own. -/
def PortPiece.Quiet (p : PortPiece) : Prop :=
  p.sPort = 0 → (strtok ',' p.ptr).length ≤ 1 ∧ ∀ t ∈ strtok ',' p.ptr, (parseIdent t).1 = none

private theorem readIdent_none (hnone : (parseIdent ptr3).1 = none) (hifilt : s.ifilt < ncdMaxfilts) :
    readIdent s j ptr3 = some (s.setPort { s.ports s.iport with
      filts := Function.update (s.ports s.iport).filts s.ifilt
        (addPrid ((s.ports s.iport).filts s.ifilt) j (parseIdent ptr3).2) }, j + 1) := by
  unfold parseIdent at hnone ⊢
  unfold readIdent
  revert hnone
  obtain ⟨caid, rest⟩ := cutAt ':' (trim ptr3)
  cases rest with
  | some ptr2 => intro hnone; cases hnone
  | none => exact fun _ => if_pos hifilt

private theorem readIdent_some {caid : BitVec 16} (hsome : (parseIdent ptr3).1 = some caid)
    (hnfilts : (s.ports s.iport).nfilts = 0) :
    readIdent s j ptr3 = some ({ s.setPort { s.ports s.iport with
      nfilts := 1
      filts := Function.update (s.ports s.iport).filts 0
        (addPrid { (s.ports s.iport).filts 0 with caid := caid } 0 (parseIdent ptr3).2) } with ifilt := 0 }, 1) := by
  unfold parseIdent at hsome ⊢
  unfold readIdent
  revert hsome
  obtain ⟨ptr3, rest⟩ := cutAt ':' (trim ptr3)
  cases rest with
  | none => intro hsome; cases hsome
  | some ptr2 =>
    intro hsome
    dsimp only
    rw [hnfilts, if_pos (by decide), ← Option.some.inj hsome]

/-- A single ident goes to the filter `ifilt`. -/
theorem readIdents_one {t : List Char} (hnone : (parseIdent t).1 = none) (hifilt : s.ifilt < ncdMaxfilts) :
    readIdents s 0 [t] = some (s.setPort { s.ports s.iport with
      filts := Function.update (s.ports s.iport).filts s.ifilt
        (addPrid ((s.ports s.iport).filts s.ifilt) 0 (parseIdent t).2) }) := by
  rw [readIdents_cons (by decide), readIdent_none hnone hifilt]
  rfl

/-- Behind a port only single idents are added to its first filter. -/
theorem readPieces_quiet (h : readPieces s i pieces = some s') (hifilt : s.ifilt = 0) (hlt : s.iport < i)
    (hquiet : ∀ p ∈ pieces, p.Quiet) :
    ∃ c ≤ pieces.length, (s'.ports s.iport).nfilts = (s.ports s.iport).nfilts ∧
      (∀ f, f ≠ 0 → (s'.ports s.iport).filts f = (s.ports s.iport).filts f) ∧
      ((s'.ports s.iport).filts 0).nprids = ((s.ports s.iport).filts 0).nprids + BitVec.ofNat 8 c ∧
      (c = 0 → s'.ports s.iport = s.ports s.iport) := by
  induction pieces generalizing s i with
  | nil =>
    rw [← Option.some.inj h]
    exact ⟨0, Nat.le_refl 0, rfl, fun _ _ => rfl, by simp, fun _ => rfl⟩
  | cons p pieces ih =>
    have hrest : ∀ p ∈ pieces, p.Quiet := fun x hx => hquiet x (List.mem_cons_of_mem p hx)
    have hfilt : s.ifilt < ncdMaxfilts := by
      rw [hifilt]
      decide
    by_cases hport : p.sPort = 0
    · have hstart : startPiece s i p = s := if_neg fun h => h hport
      obtain ⟨hlen, hcolon⟩ := hquiet p List.mem_cons_self hport
      rw [readPieces_cons, hstart] at h
      cases htokens : strtok ',' p.ptr with
      | nil =>
        rw [htokens] at h
        obtain ⟨c, hc, hspec⟩ := ih h hifilt (Nat.lt_succ_of_lt hlt) hrest
        exact ⟨c, Nat.le_succ_of_le hc, hspec⟩
      | cons t ts =>
        rw [htokens] at hlen hcolon
        have hnil : ts = [] := List.eq_nil_of_length_eq_zero (by rw [List.length_cons] at hlen; omega)
        rw [htokens, hnil, readIdents_one (hcolon t List.mem_cons_self) hfilt, Option.bind_some] at h
        obtain ⟨c, hc, hnfilts, hother, hnprids, -⟩ := ih h hifilt (Nat.lt_succ_of_lt hlt) hrest
        have hiport : ∀ q, (s.setPort q).iport = s.iport := fun _ => rfl
        have hself : ∀ q, (s.setPort q).ports s.iport = q := fun q => Function.update_self _ _ _
        rw [hiport, hself] at hnfilts hother hnprids
        refine ⟨c + 1, Nat.succ_le_succ hc, hnfilts, fun f hf => ?_, ?_, fun h => absurd h (Nat.succ_ne_zero c)⟩
        · rw [hother f hf, hifilt]
          exact Function.update_of_ne hf _ _
        · rw [hnprids, hifilt]
          dsimp only
          rw [Function.update_self]
          change ((s.ports s.iport).filts 0).nprids + 1 + BitVec.ofNat 8 c = _
          rw [BitVec.add_assoc]
          congr 1
          apply BitVec.eq_of_toNat_eq
          rw [BitVec.toNat_add, BitVec.toNat_ofNat, BitVec.toNat_ofNat]
          change (1 + _) % _ = _
          omega
    · have hstart : startPiece s i p = { s with iport := i } := if_pos hport
      have hsame : s'.ports s.iport = s.ports s.iport := by
        rw [readPieces_cons, hstart] at h
        cases hread : readIdents { s with iport := i } 0 (strtok ',' p.ptr) with
        | none =>
          rw [hread] at h
          cases h
        | some s₁ =>
          rw [hread, Option.bind_some] at h
          obtain ⟨hiport, hothers, -, hfilt', -, -⟩ := readIdents_spec hread hfilt
          have hne : s.iport ≠ i := Nat.ne_of_lt hlt
          rw [readPieces_untouched h hfilt' (by rw [hiport]; exact hne) fun j q hj _ => by omega]
          exact hothers s.iport hne
      rw [hsame]
      exact ⟨0, Nat.zero_le _, rfl, fun _ _ => rfl, by simp, fun _ => rfl⟩

/-- Idents one after another, from place `j` on. -/
def addPrids : PortFilter → ℕ → List (BitVec 32) → PortFilter
  | f, _, [] => f
  | f, j, v :: vs => addPrids (addPrid f j v) (j + 1) vs

theorem addPrids_spec {f : PortFilter} {vs : List (BitVec 32)} : (addPrids f j vs).caid = f.caid ∧
    (addPrids f j vs).nprids = f.nprids + BitVec.ofNat 8 vs.length ∧
      ∀ k, (addPrids f j vs).prids k = if j ≤ k then (vs[k - j]?).getD (f.prids k) else f.prids k := by
  induction vs generalizing f j with
  | nil =>
    refine ⟨rfl, by simp [addPrids], fun k => ?_⟩
    split_ifs <;> rfl
  | cons v vs ih =>
    obtain ⟨hcaid, hnprids, hprids⟩ := @ih (j + 1) (addPrid f j v)
    unfold addPrids
    refine ⟨hcaid, ?_, fun k => ?_⟩
    · rw [hnprids]
      change f.nprids + 1 + _ = _
      rw [BitVec.add_assoc]
      congr 1
      apply BitVec.eq_of_toNat_eq
      rw [BitVec.toNat_add, BitVec.toNat_ofNat, BitVec.toNat_ofNat, List.length_cons]
      change (1 + _) % _ = _
      omega
    · rw [hprids]
      change (if j + 1 ≤ k then (vs[k - (j + 1)]?).getD (Function.update f.prids j v k) else
        Function.update f.prids j v k) = _
      rcases Nat.lt_trichotomy k j with hlt | rfl | hgt
      · rw [if_neg (by omega), if_neg (by omega), Function.update_of_ne (by omega)]
      · rw [if_neg (by omega), if_pos (Nat.le_refl k), Function.update_self, Nat.sub_self]
        rfl
      · have hsub : k - j = k - (j + 1) + 1 := by omega
        rw [if_pos (by omega), if_pos (by omega), Function.update_of_ne (by omega), hsub, List.getElem?_cons_succ]

private theorem setPort_setPort {p q : NcdPort} : (s.setPort p).setPort q = s.setPort q := by
  unfold PortRead.setPort
  dsimp only
  rw [Function.update_idem]

/-- Idents behind each other in the filter `ifilt`. -/
private theorem readIdents_prids (hnone : ∀ t ∈ tokens, (parseIdent t).1 = none) (hifilt : s.ifilt < ncdMaxfilts)
    (hlen : j + tokens.length ≤ csMaxprov) :
    readIdents s j tokens = some (s.setPort { s.ports s.iport with
      filts := Function.update (s.ports s.iport).filts s.ifilt
        (addPrids ((s.ports s.iport).filts s.ifilt) j (tokens.map fun t => (parseIdent t).2)) }) := by
  induction tokens generalizing s j with
  | nil =>
    have hport : { s.ports s.iport with
        filts := Function.update (s.ports s.iport).filts s.ifilt ((s.ports s.iport).filts s.ifilt) } =
          s.ports s.iport := by
      rw [Function.update_eq_self]
    change some s = some (s.setPort { s.ports s.iport with
      filts := Function.update (s.ports s.iport).filts s.ifilt ((s.ports s.iport).filts s.ifilt) })
    rw [hport]
    unfold PortRead.setPort
    rw [Function.update_eq_self]
  | cons t tokens ih =>
    rw [List.length_cons] at hlen
    have hself : ∀ q, (s.setPort q).ports s.iport = q := fun q => Function.update_self _ _ _
    have hrest := @ih (s.setPort { s.ports s.iport with
        filts := Function.update (s.ports s.iport).filts s.ifilt
          (addPrid ((s.ports s.iport).filts s.ifilt) j (parseIdent t).2) }) (j + 1)
      (fun x hx => hnone x (List.mem_cons_of_mem t hx)) hifilt (by omega)
    change readIdents _ _ tokens = some ((s.setPort _).setPort { (s.setPort _).ports s.iport with
      filts := Function.update ((s.setPort _).ports s.iport).filts s.ifilt
        (addPrids (((s.setPort _).ports s.iport).filts s.ifilt) (j + 1) _) }) at hrest
    rw [hself, setPort_setPort] at hrest
    dsimp only at hrest
    rw [Function.update_idem, Function.update_self] at hrest
    rw [readIdents_cons (by omega), readIdent_none (hnone t List.mem_cons_self) hifilt, Option.bind_some, hrest]
    rfl

/-- A text with a filter in the first place of a port without filters. -/
theorem readIdents_group {caid : BitVec 16} {t : List Char} (hsome : (parseIdent t).1 = some caid)
    (hnone : ∀ t ∈ tokens, (parseIdent t).1 = none) (hnfilts : (s.ports s.iport).nfilts = 0)
    (hlen : 1 + tokens.length ≤ csMaxprov) :
    readIdents s 0 (t :: tokens) = some { s.setPort { s.ports s.iport with
      nfilts := 1
      filts := Function.update (s.ports s.iport).filts 0
        (addPrids { (s.ports s.iport).filts 0 with caid := caid } 0
          ((t :: tokens).map fun t => (parseIdent t).2)) } with ifilt := 0 } := by
  have hself : ∀ q, ({ s.setPort q with ifilt := 0 } : PortRead).ports s.iport = q :=
    fun q => Function.update_self _ _ _
  have hrest := @readIdents_prids { s.setPort { s.ports s.iport with
      nfilts := 1
      filts := Function.update (s.ports s.iport).filts 0
        (addPrid { (s.ports s.iport).filts 0 with caid := caid } 0 (parseIdent t).2) } with
      ifilt := 0 } 1 tokens hnone (Nat.zero_lt_succ 15) hlen
  change readIdents _ _ tokens = some (PortRead.setPort _ { PortRead.ports _ s.iport with
    filts := Function.update (PortRead.ports _ s.iport).filts 0
      (addPrids ((PortRead.ports _ s.iport).filts 0) 1 _) }) at hrest
  rw [hself] at hrest
  dsimp only at hrest
  rw [Function.update_idem, Function.update_self] at hrest
  rw [readIdents_cons (by decide), readIdent_some hsome hnfilts, Option.bind_some, hrest]
  unfold PortRead.setPort
  dsimp only
  rw [Function.update_idem]
  rfl

end Read

end NCam.Conf
