import NCam.Conf.Caidtab
import NCam.Conf.NewcamdPort

/-! The text of a table of newcamd ports, cut at the end of its buffer, and the tables that it gives back. -/
namespace NCam.Conf

open NCam.Util

def portDigits (p : NcdPort) : List Char := printfDec p.sPort.toInt

def desKeyText (p : NcdPort) : List Char :=
  p.ncdKey.elim [] fun key => '{' :: ((key.toList.map hexByte).flatten ++ ['}'])

def pridTexts (p : NcdPort) : List (List Char) :=
  (List.range (p.filts 0).nprids.toNat).map fun j => printfHex 6 ((p.filts 0).prids j)

/-- The caid with the idents of the first filter, the text behind `@`. -/
def identsText (p : NcdPort) : List Char :=
  hexText 4 ((p.filts 0).caid.setWidth 32) ++
    if pridTexts p = [] then [] else ':' :: joinTokens ',' (pridTexts p)

def portText (p : NcdPort) : List Char := portDigits p ++ desKeyText p ++ '@' :: identsText p

/-- The characters of a port beyond those that `needed` provides for. -/
def portExcess (p : NcdPort) : ℤ :=
  intWidth p.sPort.toInt - 5 +
    ((List.range (p.filts 0).nprids.toNat).map fun j => (hexWidth 6 ((p.filts 0).prids j) : ℤ) - 6).sum

def portsExcess (ptab : Ptab) : ℤ := ((List.range ptab.nports).map fun i => portExcess (ptab.ports i)).sum

section Text

variable {p : NcdPort} {dot1 x : List Char} {ptab : Ptab} {key : DesKey} {n j : ℕ} {c : Char}

/-- The idents with their separators, the first one behind the colon. -/
private theorem flatten_idents {t : ℕ → List Char} :
    ((List.range n).map fun j => (if j = 0 then ':' else ',') :: t j).flatten =
      if (List.range n).map t = [] then [] else ':' :: joinTokens ',' ((List.range n).map t) := by
  cases n with
  | zero => rfl
  | succ n =>
    rw [List.range_succ_eq_map, List.map_cons, List.map_cons, if_neg (List.cons_ne_nil _ _), joinTokens_cons,
      List.map_map, List.map_map, List.map_map]
    rfl

private theorem flatten_printPort : (printPort dot1 p).flatten = dot1 ++ portText p := by
  have hcaid : printfHex 4 ((p.filts 0).caid.setWidth 32) = hexText 4 ((p.filts 0).caid.setWidth 32) := by
    rw [printfHex_eq (by omega), hexWidth_of_lt (by omega) toNat_caid]
  have hkey : (p.ncdKey.elim [] fun key => [['{']] ++ key.toList.map hexByte ++ [['}']]).flatten = desKeyText p := by
    unfold desKeyText
    cases p.ncdKey with
    | none => rfl
    | some key => simp
  unfold printPort portText identsText
  rw [List.flatten_append, List.flatten_append, List.flatten_append, hkey, flatten_idents, hcaid]
  unfold pridTexts portDigits
  simp

private theorem flatten_ports : ((List.range n).flatMap fun i =>
    printPort (if i = 0 then [] else [';']) (ptab.ports i)).flatten =
      joinTokens ';' ((List.range n).map fun i => portText (ptab.ports i)) := by
  induction n with
  | zero => rfl
  | succ n ih =>
    rw [List.range_succ, List.flatMap_append, List.flatten_append, ih, List.map_append, List.map_singleton,
      joinTokens_concat, List.flatMap_singleton, flatten_printPort]
    by_cases hn : n = 0
    · subst hn
      rfl
    · have hne : ¬ (List.range n).map (fun i => portText (ptab.ports i)) = [] := by
        rw [List.map_eq_nil_iff, List.range_eq_nil]
        exact hn
      rw [if_neg hn, if_neg hne]
      rfl

theorem length_portText : ((portText p).length : ℤ) + 1 = neededPort p + portExcess p := by
  have hkey : (desKeyText p).length = if p.ncdKey.isSome then 30 else 0 := by
    unfold desKeyText
    cases p.ncdKey with
    | none => rfl
    | some key =>
      rw [Option.elim_some, List.length_cons, List.length_append, length_hexBytes, Vector.length_toList]
      rfl
  have hidents : ((identsText p).length : ℤ) = 4 + (p.filts 0).nprids.toNat * 7 +
      ((List.range (p.filts 0).nprids.toNat).map fun j => (hexWidth 6 ((p.filts 0).prids j) : ℤ) - 6).sum := by
    have hsum : ∀ n, ((((List.range n).map fun j => (if j = 0 then ':' else ',') ::
        printfHex 6 ((p.filts 0).prids j)).flatten.length : ℕ) : ℤ) =
        n * 7 + ((List.range n).map fun j => (hexWidth 6 ((p.filts 0).prids j) : ℤ) - 6).sum := by
      intro n
      induction n with
      | zero => rfl
      | succ n ih =>
        have hlen := @length_printfHex ((p.filts 0).prids n) 6 (by omega)
        rw [List.range_succ, List.map_append, List.flatten_append, List.length_append, Nat.cast_add, ih,
          List.map_append, List.sum_append, List.map_singleton, List.flatten_singleton, List.length_cons, hlen,
          List.map_singleton, List.sum_singleton]
        omega
    unfold identsText pridTexts
    rw [List.length_append, length_hexText, ← flatten_idents, Nat.cast_add, hsum]
    omega
  have hdigits := @length_printfDec p.sPort.toInt
  unfold portText neededPort portExcess portDigits
  rw [List.length_append, List.length_append, List.length_cons, hkey, hdigits]
  omega

/-- A printed key is read whatever is behind it. -/
private theorem readDesKey_text : readDesKey ((key.toList.map hexByte).flatten ++ x) = some key := by
  have hlen : (key.toList.map hexByte).flatten.length = 28 := by
    rw [length_hexBytes, Vector.length_toList]
  have hsame : ∀ j < 14, keyByte ((key.toList.map hexByte).flatten ++ x) j =
      keyByte (key.toList.map hexByte).flatten j := fun j hj => keyByte_append (by omega)
  have hall : ((List.range 14).all fun j => (keyByte ((key.toList.map hexByte).flatten ++ x) j).isSome) = true := by
    rw [List.all_eq_true]
    intro j hj
    have hlt := List.mem_range.mp hj
    rw [hsame j hlt, keyByte_hexBytes (by rw [Vector.length_toList]; exact hlt)]
    rfl
  have hread : keyAtobL ((key.toList.map hexByte).flatten ++ x) (Vector.replicate 14 0) 28 =
      keyAtobL (key.toList.map hexByte).flatten (Vector.replicate 14 0) 28 := by
    unfold keyAtobL
    apply List.foldl_ext
    intro bin j hj
    rw [hsame j (List.mem_range.mp hj)]
  unfold readDesKey
  rw [if_pos hall, hread]
  exact congrArg some keyAtobL_hexBytes

private theorem desKeyText_spec (hkey : gethexval c = none) (hopen : c ≠ '{') (hclose : c ≠ '}') :
    c ∉ desKeyText p := by
  unfold desKeyText
  cases p.ncdKey with
  | none => exact List.not_mem_nil
  | some key =>
    rw [Option.elim_some, List.mem_cons, List.mem_append, List.mem_singleton, not_or, not_or]
    exact ⟨hopen, fun hc => hex_hexBytes c hc hkey, hclose⟩

private theorem notMem_front (hdigit : c.isDigit = false) (hminus : c ≠ '-') (hkey : gethexval c = none)
    (hopen : c ≠ '{') (hclose : c ≠ '}') : c ∉ portDigits p ++ desKeyText p := by
  rw [List.mem_append, not_or]
  exact ⟨notMem_printfDec hdigit hminus, desKeyText_spec hkey hopen hclose⟩

private theorem noBlank_front : ∀ c ∈ portDigits p ++ desKeyText p, isBlank c = false := by
  intro c hc
  by_contra hblank
  rw [Bool.not_eq_false] at hblank
  unfold isBlank at hblank
  simp only [Bool.or_eq_true, decide_eq_true_eq] at hblank
  rcases hblank with ((rfl | rfl) | rfl) | rfl <;>
    exact notMem_front (by decide) (by decide) (by decide) (by decide) (by decide) hc

/-- A port of which the text behind `@` may be cut. -/
private theorem portPiece_text (hx : ∀ c ∈ x, isBlank c = false) :
    portPiece (portDigits p ++ desKeyText p ++ '@' :: x) = ⟨true, p.sPort, p.ncdKey, x, portDigits p⟩ := by
  have hblank : ∀ c ∈ portDigits p ++ desKeyText p ++ '@' :: x, isBlank c = false := by
    intro c hc
    rcases List.mem_append.mp hc with hc | hc
    · exact noBlank_front c hc
    · rcases List.mem_cons.mp hc with rfl | hc
      · rfl
      · exact hx c hc
  have hatoi : BitVec.ofInt 32 (atoi (portDigits p ++ desKeyText p)) = p.sPort := by
    have hrest : ∀ c ∈ (desKeyText p).head?, c.isDigit = false := by
      unfold desKeyText
      cases p.ncdKey with
      | none => exact fun c hc => absurd hc (Option.not_mem_none c)
      | some key =>
        intro c hc
        rw [← Option.some.inj hc]
        rfl
    rw [portDigits, atoi_append hrest, BitVec.ofInt_toInt]
  have hkey : (cutAt '{' (portDigits p ++ desKeyText p)).1 = portDigits p ∧
      (cutAt '{' (portDigits p ++ desKeyText p)).2.bind readDesKey = p.ncdKey := by
    have hdigits : '{' ∉ portDigits p := notMem_printfDec (by decide) (by decide)
    unfold desKeyText
    cases p.ncdKey with
    | none =>
      rw [Option.elim_none, List.append_nil, cutAt_of_notMem hdigits]
      exact ⟨rfl, rfl⟩
    | some key =>
      rw [Option.elim_some, cutAt_append hdigits]
      exact ⟨rfl, readDesKey_text⟩
  unfold portPiece
  rw [trim_of_noBlank hblank, cutAt_append (notMem_front (by decide) (by decide) (by decide) (by decide) (by decide))]
  dsimp only
  rw [trim_of_noBlank noBlank_front, hatoi, hkey.1, hkey.2]

/-- The last text of a port: an ident, or the caid if there is none. -/
def lastText (p : NcdPort) : List Char :=
  if (p.filts 0).nprids.toNat = 0 then '@' :: printfHex 4 ((p.filts 0).caid.setWidth 32)
  else (if (p.filts 0).nprids.toNat - 1 = 0 then ':' else ',') ::
    printfHex 6 ((p.filts 0).prids ((p.filts 0).nprids.toNat - 1))

private theorem printPort_last : ∃ texts, printPort dot1 p = texts ++ [lastText p] := by
  unfold printPort lastText
  cases hn : (p.filts 0).nprids.toNat with
  | zero => exact ⟨_, List.append_nil _⟩
  | succ n =>
    rw [List.range_succ, List.map_append, List.map_singleton, if_neg (Nat.succ_ne_zero n), Nat.add_sub_cancel,
      ← List.append_assoc]
    exact ⟨_, rfl⟩

theorem length_lastText : (lastText p).length < (portText p).length := by
  have hdigits : 0 < (portDigits p).length := List.length_pos_of_ne_nil printfDec_ne_nil
  have hcaid : (printfHex 4 ((p.filts 0).caid.setWidth 32)).length = 4 := by
    rw [length_printfHex (by omega), hexWidth_of_lt (by omega) toNat_caid]
  unfold portText lastText identsText
  rw [List.length_append, List.length_append, List.length_cons, List.length_append, length_hexText]
  cases hn : (p.filts 0).nprids.toNat with
  | zero =>
    rw [if_pos rfl, List.length_cons, hcaid]
    omega
  | succ n =>
    have hidents : pridTexts p = ((List.range n).map fun j => printfHex 6 ((p.filts 0).prids j)) ++
        [printfHex 6 ((p.filts 0).prids n)] := by
      unfold pridTexts
      rw [hn, List.range_succ, List.map_append, List.map_singleton]
    have hjoin := @length_joinTokens_append ',' (printfHex 6 ((p.filts 0).prids n))
      ((List.range n).map fun j => printfHex 6 ((p.filts 0).prids j))
    rw [if_neg (Nat.succ_ne_zero n), List.length_cons, Nat.add_sub_cancel, hidents, if_neg (by simp),
      List.length_cons, hjoin]
    omega

/-- What is left of a port at the end of the table. -/
def cutText (ptab : Ptab) (p : NcdPort) : List Char :=
  (portText p).take ((portText p).length - (portsExcess ptab - 1).toNat)

private theorem sum_needed :
    ((joinTokens ';' ((List.range (n + 1)).map fun i => portText (ptab.ports i))).length : ℤ) + 1 =
    ((List.range (n + 1)).map fun i => neededPort (ptab.ports i)).sum +
      ((List.range (n + 1)).map fun i => portExcess (ptab.ports i)).sum := by
  have hsum : ∀ n, (lastStart ((List.range n).map fun i => portText (ptab.ports i)) : ℤ) =
      ((List.range n).map fun i => neededPort (ptab.ports i)).sum +
        ((List.range n).map fun i => portExcess (ptab.ports i)).sum := by
    intro n
    induction n with
    | zero => rfl
    | succ n ih =>
      have hone := @length_portText (ptab.ports n)
      unfold lastStart at ih ⊢
      rw [List.range_succ, List.map_append, List.map_append, List.sum_append, List.map_append, List.sum_append,
        List.map_append, List.sum_append, List.map_singleton, List.map_singleton, List.sum_singleton,
        List.map_singleton, List.sum_singleton, List.map_singleton, List.sum_singleton]
      omega
  have hne : (List.range (n + 1)).map (fun i => portText (ptab.ports i)) ≠ [] := by simp
  rw [← hsum, ← length_joinTokens_succ hne, Nat.cast_add]
  rfl

/-- The text that is left in the buffer: the last port may be cut. -/
theorem mkTNewcamdPort_eq (hn : ptab.nports = n + 1) : mkTNewcamdPort ptab =
    if (∀ i < n + 1, ((ptab.ports i).filts 0).nprids.toNat ≤ csMaxprov) ∧
        portsExcess ptab ≤ (lastText (ptab.ports n)).length + 2 then
      some (joinTokens ';' (((List.range n).map fun i => portText (ptab.ports i)) ++
        [cutText ptab (ptab.ports n)]))
    else none := by
  have hneeded : ∀ n, 11 * n ≤ ((List.range n).map fun i => neededPort (ptab.ports i)).sum := by
    intro n
    induction n with
    | zero => exact Nat.le_refl 0
    | succ n ih =>
      have hone : 11 ≤ neededPort (ptab.ports n) := by
        unfold neededPort
        omega
      rw [List.range_succ, List.map_append, List.sum_append, List.map_singleton, List.sum_singleton]
      omega
  have hall : ((List.range ptab.nports).all fun i => decide (((ptab.ports i).filts 0).nprids.toNat ≤ csMaxprov)) =
      true ↔ ∀ i < n + 1, ((ptab.ports i).filts 0).nprids.toNat ≤ csMaxprov := by
    rw [hn, List.all_eq_true]
    simp only [List.mem_range, decide_eq_true_eq]
  have htotal := @sum_needed ptab n
  have hexcess : portsExcess ptab = ((List.range (n + 1)).map fun i => portExcess (ptab.ports i)).sum := by
    unfold portsExcess
    rw [hn]
  obtain ⟨texts, htexts⟩ := @printPort_last (ptab.ports n) (if n = 0 then [] else [';'])
  have hsplit : ((List.range (n + 1)).flatMap fun i => printPort (if i = 0 then [] else [';']) (ptab.ports i)) =
      ((List.range n).flatMap fun i => printPort (if i = 0 then [] else [';']) (ptab.ports i)) ++ texts ++
        [lastText (ptab.ports n)] := by
    rw [List.range_succ, List.flatMap_append, List.flatMap_singleton, htexts, List.append_assoc]
  have hflat := @flatten_ports ptab (n + 1)
  have hlen := congrArg List.length hflat
  rw [hsplit, List.flatten_append, List.length_append, List.flatten_singleton] at hlen
  have hlast : (joinTokens ';' ((List.range (n + 1)).map fun i => portText (ptab.ports i))).length =
      lastStart ((List.range n).map fun i => portText (ptab.ports i)) + (portText (ptab.ports n)).length := by
    rw [List.range_succ, List.map_append, List.map_singleton, length_joinTokens_append]
  have hle := @length_lastText (ptab.ports n)
  have hdrop : ((List.range (n + 1)).flatMap fun i =>
      printPort (if i = 0 then [] else [';']) (ptab.ports i)).dropLast.flatten.length =
        (((List.range n).flatMap fun i => printPort (if i = 0 then [] else [';']) (ptab.ports i)) ++
          texts).flatten.length := by
    rw [hsplit, List.dropLast_concat]
  unfold mkTNewcamdPort
  dsimp only
  by_cases hprids : ∀ i < n + 1, ((ptab.ports i).filts 0).nprids.toNat ≤ csMaxprov
  · rw [if_pos (hall.mpr hprids), hn, if_neg (by have := hneeded (n + 1); omega),
      snprintfs_eq (by rw [hsplit]; simp), hflat]
    by_cases hfit : portsExcess ptab ≤ (lastText (ptab.ports n)).length + 2
    · rw [if_pos (by omega), if_pos ⟨hprids, hfit⟩]
      congr 1
      unfold cutText
      rw [← take_joinTokens_append]
      have hall : (List.range (n + 1)).map (fun i => portText (ptab.ports i)) =
          ((List.range n).map fun i => portText (ptab.ports i)) ++ [portText (ptab.ports n)] := by
        rw [List.range_succ, List.map_append, List.map_singleton]
      rw [hall] at hlast htotal ⊢
      by_cases hcut : portsExcess ptab ≤ 1
      · rw [List.take_of_length_le (by omega), List.take_of_length_le (by omega)]
      · congr 1
        omega
    · rw [if_neg (by omega), if_neg fun h => hfit h.2]
  · rw [if_neg (fun h => hprids (hall.mp h)), if_neg fun h => hprids h.1]

theorem mem_identsText (hc : c ∈ identsText p) : gethexval c ≠ none ∨ c = ':' ∨ c = ',' := by
  unfold identsText at hc
  rcases List.mem_append.mp hc with hc | hc
  · exact Or.inl fun h => notMem_hexText h hc
  · split_ifs at hc with hnil
    · exact absurd hc List.not_mem_nil
    · rcases List.mem_cons.mp hc with hc | hc
      · exact Or.inr (Or.inl hc)
      · rcases mem_joinTokens hc with hc | ⟨t, ht, hc⟩
        · exact Or.inr (Or.inr hc)
        · obtain ⟨j, -, rfl⟩ := List.mem_map.mp ht
          rw [printfHex_eq (by omega)] at hc
          exact Or.inl fun h => notMem_hexText h hc

/-- What the idents of a port and their beginnings consist of. -/
def IdentChars (x : List Char) : Prop := ∀ c ∈ x, gethexval c ≠ none ∨ c = ':' ∨ c = ','

theorem identChars_take (m : ℕ) : IdentChars ((identsText p).take m) :=
  fun _ hc => mem_identsText (List.mem_of_mem_take hc)

theorem IdentChars.noBlank (h : IdentChars x) : ∀ c ∈ x, isBlank c = false := by
  intro c hc
  rcases h c hc with h | rfl | rfl
  · exact isBlank_of_hex h
  · rfl
  · rfl

private theorem IdentChars.semicolon (h : IdentChars x) : ';' ∉ x := by
  intro hc
  rcases h ';' hc with h | h | h
  · exact h rfl
  · cases h
  · cases h

def portFront (p : NcdPort) : List Char := portDigits p ++ desKeyText p

private theorem semicolon_portFront : ';' ∉ portFront p :=
  notMem_front (by decide) (by decide) (by decide) (by decide) (by decide)

private theorem at_portFront : '@' ∉ portFront p :=
  notMem_front (by decide) (by decide) (by decide) (by decide) (by decide)

theorem areTokens_portText : AreTokens ';' ((List.range n).map fun i => portText (ptab.ports i)) := by
  intro t ht
  obtain ⟨i, -, rfl⟩ := List.mem_map.mp ht
  have hwhole : IdentChars (identsText (ptab.ports i)) := fun c hc => mem_identsText hc
  unfold portText
  refine ⟨by simp, ?_⟩
  rw [List.mem_append, List.mem_cons, not_or, not_or]
  exact ⟨semicolon_portFront, by decide, hwhole.semicolon⟩

/-- The text of a table of which the last token is any text without a semicolon. -/
private theorem portPieces_text {u : List Char} (hn : n < csMaxports) (hne : u ≠ []) (hout : ';' ∉ u) :
    (strtok ';' (joinTokens ';' (((List.range n).map fun i => portText (ptab.ports i)) ++ [u]))).take csMaxports =
        ((List.range n).map fun i => portText (ptab.ports i)) ++ [u] ∧
      (joinTokens ';' (((List.range n).map fun i => portText (ptab.ports i)) ++ [u])).takeWhile (· = ';') = [] := by
  have htokens : AreTokens ';' (((List.range n).map fun i => portText (ptab.ports i)) ++ [u]) := by
    intro t ht
    rcases List.mem_append.mp ht with ht | ht
    · exact areTokens_portText t ht
    · rw [List.mem_singleton.mp ht]
      exact ⟨hne, hout⟩
  constructor
  · rw [strtok_joinTokens htokens, List.take_of_length_le]
    rw [List.length_append, List.length_map, List.length_range, List.length_singleton]
    exact hn
  · obtain ⟨t, ts, hts⟩ : ∃ t ts, ((List.range n).map fun i => portText (ptab.ports i)) ++ [u] = t :: ts :=
      List.exists_cons_of_ne_nil (by simp)
    rw [hts] at htokens ⊢
    obtain ⟨hfirst, hsemi⟩ := htokens t List.mem_cons_self
    obtain ⟨c, cs, rfl⟩ := List.exists_cons_of_ne_nil hfirst
    rw [joinTokens_cons, List.cons_append, List.takeWhile_cons_of_neg]
    intro h
    have hc := of_decide_eq_true h
    rw [hc] at hsemi
    exact hsemi List.mem_cons_self

def portPieceOf (p : NcdPort) (x : List Char) : PortPiece := ⟨true, p.sPort, p.ncdKey, x, portDigits p⟩

/-- The pieces of a text in which `x` is left of the idents of the last port. -/
def portPiecesOf (ptab : Ptab) (n : ℕ) (x : List Char) : List PortPiece :=
  ((List.range n).map fun i => portPieceOf (ptab.ports i) (identsText (ptab.ports i))) ++ [portPieceOf (ptab.ports n) x]

def freshPort (p : NcdPort) : NcdPort := ⟨p.sPort, p.ncdKey, 0, fun _ => emptyFilter⟩

/-- The ports after the first pass. -/
def freshPorts (ptab : Ptab) (n i : ℕ) : NcdPort :=
  if i < n + 1 then freshPort (ptab.ports i) else ⟨0, none, 0, fun _ => emptyFilter⟩

private theorem map_portPiece (hx : IdentChars x) :
    (((List.range n).map fun i => portText (ptab.ports i)) ++ [portFront (ptab.ports n) ++ '@' :: x]).map portPiece =
      portPiecesOf ptab n x := by
  unfold portPiecesOf
  rw [List.map_append, List.map_map, List.map_singleton]
  congr 1
  · apply List.map_congr_left
    intro i _
    have hwhole : IdentChars (identsText (ptab.ports i)) := fun c hc => mem_identsText hc
    exact portPiece_text hwhole.noBlank
  · unfold portFront
    rw [portPiece_text hx.noBlank]
    rfl

theorem length_portPiecesOf : (portPiecesOf ptab n x).length = n + 1 := by
  unfold portPiecesOf
  rw [List.length_append, List.length_map, List.length_range, List.length_singleton]

theorem getElem?_portPiecesOf {i : ℕ} : (portPiecesOf ptab n x)[i]? =
    if i < n then some (portPieceOf (ptab.ports i) (identsText (ptab.ports i)))
    else if i = n then some (portPieceOf (ptab.ports n) x) else none := by
  unfold portPiecesOf
  rw [List.getElem?_append, List.length_map, List.length_range]
  split_ifs with h1 h2
  · rw [List.getElem?_map, List.getElem?_range h1]
    rfl
  · rw [h2, Nat.sub_self]
    rfl
  · rw [List.getElem?_eq_none]
    rw [List.length_singleton]
    omega

/-- Reading a text in which the last port still has its `@`. -/
theorem chkPortTab_text (hn : n < csMaxports) (hx : IdentChars x) :
    chkPortTab (joinTokens ';' (((List.range n).map fun i => portText (ptab.ports i)) ++
        [portFront (ptab.ports n) ++ '@' :: x])) =
      (readPieces ⟨freshPorts ptab n, 0, 0⟩ 0 (portPiecesOf ptab n x)).map fun s => ⟨n + 1, s.ports⟩ := by
  have hsemi : ';' ∉ portFront (ptab.ports n) ++ '@' :: x := by
    rw [List.mem_append, List.mem_cons, not_or, not_or]
    exact ⟨semicolon_portFront, by decide, hx.semicolon⟩
  obtain ⟨htokens, hstart⟩ := @portPieces_text ptab n _ hn (by simp) hsemi
  have hpieces : portPieces (joinTokens ';' (((List.range n).map fun i => portText (ptab.ports i)) ++
      [portFront (ptab.ports n) ++ '@' :: x])) = portPiecesOf ptab n x := by
    unfold portPieces
    rw [htokens, map_portPiece hx]
  have hports : (fun i => (portPiecesOf ptab n x)[i]?.elim ⟨0, none, 0, fun _ => emptyFilter⟩ fun p =>
      (⟨p.sPort, p.ncdKey, 0, fun _ => emptyFilter⟩ : NcdPort)) = freshPorts ptab n := by
    funext i
    rw [getElem?_portPiecesOf]
    unfold freshPorts
    rcases Nat.lt_trichotomy i n with hlt | rfl | hgt
    · rw [if_pos hlt, if_pos (by omega)]
      rfl
    · rw [if_neg (Nat.lt_irrefl i), if_pos rfl, if_pos (Nat.lt_succ_self i)]
      rfl
    · rw [if_neg (by omega), if_neg (by omega), if_neg (by omega)]
      rfl
  have hcount : (portPiecesOf ptab n x).countP (·.isPort) = n + 1 := by
    have hall : (portPiecesOf ptab n x).countP (·.isPort) = (portPiecesOf ptab n x).length := by
      rw [List.countP_eq_length]
      intro p hp
      unfold portPiecesOf at hp
      rcases List.mem_append.mp hp with hp | hp
      · obtain ⟨i, -, rfl⟩ := List.mem_map.mp hp
        rfl
      · rw [List.mem_singleton.mp hp]
        rfl
    rw [hall, length_portPiecesOf]
  unfold chkPortTab
  dsimp only
  have hfirst := congrFun hports 0
  simp only [hpieces, hports, hfirst, hcount, hstart, length_portPiecesOf]
  by_cases honly : n + 1 = 1 ∧ ([] ++ (portPiecesOf ptab n x).head?.elim [] (·.left)).length < 6 ∧
      (freshPorts ptab n 0).sPort = 0
  · have hzero : n = 0 := by omega
    subst hzero
    have hleft : [] ++ (portPiecesOf ptab 0 x).head?.elim [] (·.left) = portDigits (ptab.ports 0) := rfl
    have hself : { freshPorts ptab 0 0 with sPort := .ofInt 32 (atoi (portDigits (ptab.ports 0))) } =
        freshPorts ptab 0 0 := by
      unfold portDigits
      rw [atoi_printfDec, BitVec.ofInt_toInt]
      rfl
    rw [if_pos honly, if_pos honly, hleft, hself, Function.update_eq_self]
  · rw [if_neg honly, if_neg honly]

/-- If the last port has lost its `@`, it is not counted. -/
theorem chkPortTab_lost {u : List Char} {ptab' : Ptab} (hn : n < csMaxports) (hne : u ≠ [])
    (hfront : ∃ m, u = (portFront (ptab.ports n)).take m)
    (h : chkPortTab (joinTokens ';' (((List.range n).map fun i => portText (ptab.ports i)) ++ [u])) = some ptab')
    (hnports : ptab'.nports = n + 1) : n = 0 ∧ u.length < 6 := by
  obtain ⟨m, hm⟩ := hfront
  have hsub : ∀ c ∈ u, c ∈ portFront (ptab.ports n) := by
    intro c hc
    rw [hm] at hc
    exact List.mem_of_mem_take hc
  obtain ⟨htokens, hstart⟩ := @portPieces_text ptab n u hn hne fun hc => semicolon_portFront (hsub ';' hc)
  have hlast : portPiece u = ⟨false, 0, none, u, u⟩ := by
    unfold portPiece
    rw [trim_of_noBlank fun c hc => noBlank_front c (hsub c hc),
      cutAt_of_notMem fun hc => at_portFront (hsub '@' hc)]
  have hpieces : portPieces (joinTokens ';' (((List.range n).map fun i => portText (ptab.ports i)) ++ [u])) =
      ((List.range n).map fun i => portPieceOf (ptab.ports i) (identsText (ptab.ports i))) ++
        [⟨false, 0, none, u, u⟩] := by
    unfold portPieces
    rw [htokens, List.map_append, List.map_singleton, hlast, List.map_map]
    congr 1
    apply List.map_congr_left
    intro i _
    have hwhole : IdentChars (identsText (ptab.ports i)) := fun c hc => mem_identsText hc
    exact portPiece_text hwhole.noBlank
  have hcount : (((List.range n).map fun i => portPieceOf (ptab.ports i) (identsText (ptab.ports i))) ++
      [(⟨false, 0, none, u, u⟩ : PortPiece)]).countP (·.isPort) = n := by
    rw [List.countP_append, List.countP_map]
    have hall : (List.range n).countP ((·.isPort) ∘ fun i => portPieceOf (ptab.ports i) (identsText (ptab.ports i))) =
        n := by
      have hlen : (List.range n).length = n := List.length_range
      nth_rewrite 2 [← hlen]
      exact List.countP_eq_length.mpr fun i _ => rfl
    rw [hall]
    rfl
  unfold chkPortTab at h
  dsimp only at h
  rw [hpieces, hcount, hstart, List.length_append, List.length_map, List.length_range, List.length_singleton] at h
  rw [Option.map_eq_some_iff] at h
  obtain ⟨s, -, rfl⟩ := h
  dsimp only at hnports
  split_ifs at hnports with honly
  · have hzero : n = 0 := by omega
    subst hzero
    exact ⟨rfl, honly.2.1⟩
  · omega

end Text

end NCam.Conf
