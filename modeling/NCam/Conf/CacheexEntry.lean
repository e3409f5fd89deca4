import NCam.Conf.Caidtab
import NCam.Util.Decimal

/-! Lists of `caid&mask@provid$servid…`: the parts that the printers of the cacheex settings share, and what
the parsers make of them. -/
namespace NCam.Conf

open NCam.Util

/-- One optional number; a negative one is not printed. -/
def printField (sep : Char) (w : ℕ) (v : BitVec 32) : List (List Char) :=
  if 0 ≤ v.toInt then [sep :: printfHex w v] else []

/-- The mask, the provider and the service behind a caid. -/
def printFields (cmask prid srvid : BitVec 32) : List (List Char) :=
  printField '&' 4 cmask ++ (printField '@' 6 prid ++ printField '$' 4 srvid)

/-- A caid other than zero: two digits if it is below 0x0100. -/
def printCaidText (caid : BitVec 32) : List Char := printfHex (if caid.toInt < 256 then 2 else 4) caid

/-- The texts of the entries, with a comma before every one but the first. -/
def printTab {α : Type} (print : α → List (List Char)) : List α → List (List Char)
  | [] => []
  | d :: ds => print d ++ ds.flatMap fun d => [','] :: print d

/-- The texts in a buffer of `size` bytes, with the zero that is written at the place where they end. -/
def printTerminated (size : ℕ) (texts : List (List Char)) : Option (List Char) :=
  (snprintfs size texts 0 []).bind fun buf => if texts.flatten.length < size then some buf else none

section Table

variable {α : Type} {print : α → List (List Char)} {parse : List Char → α} {positive : α → Bool}
  {text : α → List Char} {d : α} {ds : List α} {size : ℕ} {texts : List (List Char)}

/-- Nothing is cut: the zero is written inside the buffer only if the texts are. -/
theorem printTerminated_eq : printTerminated size texts =
    if texts.flatten.length < size then some texts.flatten else none := by
  unfold printTerminated
  by_cases hfits : texts.flatten.length < size
  · have hlast : texts.dropLast.flatten.length ≤ texts.flatten.length :=
      ((List.dropLast_sublist _).flatten).length_le
    obtain ⟨buf, hbuf⟩ := @snprintfs_isSome size 0 [] texts (by omega)
    have htake := @snprintfs_eq_take size 0 [] [] buf texts rfl List.take_nil.symm hbuf
    rw [List.nil_append, List.take_of_length_le (by omega)] at htake
    rw [if_pos hfits, hbuf, Option.bind_some, if_pos hfits, htake]
  · rw [if_neg hfits]
    cases snprintfs size texts 0 [] with
    | none => rfl
    | some buf => exact if_neg hfits

theorem flatten_printTab (htext : ∀ d, (print d).flatten = text d) :
    (printTab print ds).flatten = joinTokens ',' (ds.map text) := by
  cases ds with
  | nil => rfl
  | cons d ds =>
    have hrest : (ds.flatMap fun d => [','] :: print d).flatten =
        ((ds.map text).map fun t => ',' :: t).flatten := by
      induction ds with
      | nil => rfl
      | cons e ds ih =>
        rw [List.flatMap_cons, List.flatten_append, ih, List.flatten_cons, htext]
        rfl
    unfold printTab
    rw [List.flatten_append, htext, hrest, List.map_cons, joinTokens_cons]

/-- Each entry with its comma, the last one with the final zero in place of it. -/
theorem length_joinTokens (hne : ds ≠ []) :
    (joinTokens ',' (ds.map text)).length + 1 = (ds.map fun d => (text d).length + 1).sum := by
  induction ds with
  | nil => exact absurd rfl hne
  | cons d ds ih =>
    cases ds with
    | nil => rfl
    | cons e ds =>
      have hrest := ih (List.cons_ne_nil e ds)
      change (text d ++ ',' :: joinTokens ',' ((e :: ds).map text)).length + 1 = _
      rw [List.length_append, List.length_cons, hrest, List.map_cons (l := e :: ds), List.sum_cons]
      omega

/-- Entries that would be dropped are not read back. -/
theorem filter_map_iff {f : α → α} (hpos : ∀ x ∈ ds, positive x = true) :
    (ds.map f).filter positive = ds ↔ ∀ x ∈ ds, f x = x := by
  constructor
  · intro heq
    have hlen : ((ds.map f).filter positive).length = (ds.map f).length := by
      rw [heq, List.length_map]
    have hall := List.filter_sublist.eq_of_length hlen
    rw [hall] at heq
    have hmap := List.map_inj_left (f := f) (g := id) (l := ds)
    rw [List.map_id] at hmap
    exact hmap.mp heq
  · intro hsame
    have hmap : ds.map f = ds := by
      have hid := List.map_congr_left (g := id) hsame
      rw [List.map_id] at hid
      exact hid
    rw [hmap]
    exact List.filter_eq_self.mpr hpos

/-- The entries of a setting of which the first one is kept in any case. -/
theorem zipIdx_filterMap {keep : α → ℕ → Option α} (hzero : ∀ x, keep x 0 = some x)
    (hsucc : ∀ x i, keep x (i + 1) = if positive x = true then some x else none) (ts : List (List Char)) :
    ts.zipIdx.filterMap (fun p => keep (parse p.1) p.2) =
      (ts.head?.map parse).toList ++ (ts.tail.map parse).filter positive := by
  have hrest : ∀ (ts : List (List Char)) (i : ℕ), (ts.zipIdx (i + 1)).filterMap
      (fun p => keep (parse p.1) p.2) = (ts.map parse).filter positive := by
    intro ts
    induction ts with
    | nil => exact fun _ => rfl
    | cons t ts ih =>
      intro i
      rw [List.zipIdx_cons, List.filterMap_cons, ih, List.map_cons, List.filter_cons, hsucc]
      by_cases hpositive : positive (parse t) = true
      · rw [if_pos hpositive, if_pos hpositive]
      · rw [if_neg hpositive, if_neg hpositive]
  cases ts with
  | nil => rfl
  | cons t ts =>
    rw [List.zipIdx_cons, List.filterMap_cons, hzero, hrest]
    rfl

/-- The printed entries fit, or something is written behind the buffer. -/
theorem printTerminated_printTab {width : α → ℕ} (htext : ∀ d, (print d).flatten = text d)
    (hwidth : ∀ d ∈ ds, (text d).length = width d) (hne : ds ≠ []) :
    printTerminated size (printTab print ds) =
      if (ds.map fun d => width d + 1).sum ≤ size then some (joinTokens ',' (ds.map text)) else none := by
  have hlen := @length_joinTokens _ text ds hne
  have hmap : (ds.map fun d => (text d).length + 1) = ds.map fun d => width d + 1 :=
    List.map_congr_left fun d hd => congrArg (· + 1) (hwidth d hd)
  rw [hmap] at hlen
  rw [printTerminated_eq, flatten_printTab htext]
  by_cases hfits : (joinTokens ',' (ds.map text)).length < size
  · rw [if_pos hfits, if_pos (by omega)]
  · rw [if_neg hfits, if_neg (by omega)]

/-- Reading the printed entries, the first one in any case. -/
theorem reread_iff (htokens : ∀ d ∈ ds, text d ≠ [] ∧ ',' ∉ text d) (hpos : ∀ d ∈ ds.tail, positive d = true) :
    ((strtok ',' (joinTokens ',' (ds.map text))).head?.map parse).toList ++
        ((strtok ',' (joinTokens ',' (ds.map text))).tail.map parse).filter positive = ds ↔
      ∀ d ∈ ds, parse (text d) = d := by
  have hare : AreTokens ',' (ds.map text) := by
    intro t ht
    obtain ⟨d, hd, rfl⟩ := List.mem_map.mp ht
    exact htokens d hd
  rw [strtok_joinTokens hare]
  cases ds with
  | nil => exact ⟨fun _ d hd => absurd hd List.not_mem_nil, fun _ => rfl⟩
  | cons d ds =>
    have hrest := @filter_map_iff _ positive ds (parse ∘ text) hpos
    rw [List.map_cons, List.head?_cons, List.tail_cons, Option.map_some, List.map_map, Option.toList_some,
      List.singleton_append, List.cons.injEq, hrest, List.forall_mem_cons]
    rfl

/-- Entries that are kept only if they are positive come first in no case. -/
theorem zipIdx_tail {keep : α → ℕ → Option α} (hzero : ∀ x, keep x 0 = some x)
    (hsucc : ∀ x i, keep x (i + 1) = if positive x = true then some x else none) (ts : List (List Char)) :
    ∀ d ∈ (ts.zipIdx.filterMap fun p => keep (parse p.1) p.2).tail, positive d = true := by
  rw [zipIdx_filterMap hzero hsucc]
  cases ts with
  | nil => exact fun d hd => absurd hd List.not_mem_nil
  | cons t ts => exact fun d hd => (List.mem_filter.mp hd).2

/-- A text that is written only if it fits reads back under both conditions. -/
theorem printed_iff {read : List Char → List α} {s : List Char} {fits kept : Prop} [Decidable fits]
    (hback : read s = ds ↔ kept) :
    (∃ out, (if fits then some s else none) = some out ∧ read out = ds) ↔ kept ∧ fits := by
  constructor
  · rintro ⟨out, hout, hsame⟩
    rw [Option.ite_none_right_eq_some] at hout
    rw [← Option.some.inj hout.2] at hsame
    exact ⟨hback.mp hsame, hout.1⟩
  · rintro ⟨hkept, hfits⟩
    exact ⟨_, if_pos hfits, hback.mpr hkept⟩

end Table

section Fields

variable {v caid cmask prid srvid : BitVec 32} {s : List Char} {sep c : Char} {w n : ℕ}

def fieldText (sep : Char) (w : ℕ) (v : BitVec 32) : List Char :=
  if 0 ≤ v.toInt then sep :: printfHex w v else []

/-- The characters of one optional number and its separator. -/
def fieldWidth (w : ℕ) (v : BitVec 32) : ℕ := if 0 ≤ v.toInt then 1 + hexWidth w v else 0

def fieldsWidth (cmask prid srvid : BitVec 32) : ℕ :=
  fieldWidth 4 cmask + fieldWidth 6 prid + fieldWidth 4 srvid

/-- The text before the times: a number of `n` digits and the fields. -/
def frontText (n : ℕ) (caid cmask prid srvid : BitVec 32) : List Char :=
  hexText n caid ++ fieldText '&' 4 cmask ++ fieldText '@' 6 prid ++ fieldText '$' 4 srvid

theorem flatten_printField : (printField sep w v).flatten = fieldText sep w v := by
  unfold printField fieldText
  split_ifs
  · exact List.flatten_singleton
  · rfl

theorem length_fieldText (hw : w ≤ 8) : (fieldText sep w v).length = fieldWidth w v := by
  unfold fieldText fieldWidth
  split_ifs
  · rw [List.length_cons, length_printfHex hw, Nat.add_comm]
  · rfl

theorem length_frontText : (frontText n caid cmask prid srvid).length = n + fieldsWidth cmask prid srvid := by
  unfold frontText fieldsWidth
  rw [List.length_append, List.length_append, List.length_append, length_hexText,
    length_fieldText (by omega), length_fieldText (by omega), length_fieldText (by omega)]
  omega

theorem notMem_fieldText (hw : w ≤ 8) (hc : gethexval c = none) (hne : c ≠ sep) : c ∉ fieldText sep w v := by
  unfold fieldText
  split_ifs
  · rw [printfHex_eq hw, List.mem_cons, not_or]
    exact ⟨hne, notMem_hexText hc⟩
  · exact List.not_mem_nil

/-- The fields have no other characters than digits and their separators. -/
theorem notMem_frontText (hc : gethexval c = none) (hmask : c ≠ '&') (hprid : c ≠ '@') (hsrvid : c ≠ '$') :
    c ∉ frontText n caid cmask prid srvid := by
  unfold frontText
  simp only [List.mem_append, not_or]
  exact ⟨⟨⟨notMem_hexText hc, notMem_fieldText (by omega) hc hmask⟩, notMem_fieldText (by omega) hc hprid⟩,
    notMem_fieldText (by omega) hc hsrvid⟩

theorem isBlank_of_notMem (hspace : ' ' ∉ s) (htab : '\t' ∉ s) (hline : '\n' ∉ s) (hreturn : '\r' ∉ s) :
    ∀ c ∈ s, isBlank c = false := by
  intro c hc
  unfold isBlank
  have hne : ∀ d, d ∉ s → decide (c = d) = false := fun d hd => decide_eq_false fun h => hd (h ▸ hc)
  rw [hne _ hspace, hne _ htab, hne _ hline, hne _ hreturn]
  rfl

theorem trim_of_notMem (h : ∀ c, gethexval c = none → c ≠ '&' → c ≠ '@' → c ≠ '$' → c ∉ s) : trim s = s :=
  trim_of_noBlank (isBlank_of_notMem (h _ rfl (by decide) (by decide) (by decide))
    (h _ rfl (by decide) (by decide) (by decide)) (h _ rfl (by decide) (by decide) (by decide))
    (h _ rfl (by decide) (by decide) (by decide)))

private theorem cutAt_fieldText (h : sep ∉ s) : cutAt sep (s ++ fieldText sep w v) =
    (s, if 0 ≤ v.toInt then some (printfHex w v) else none) := by
  unfold fieldText
  split_ifs
  · exact cutAt_append h
  · rw [List.append_nil]
    exact cutAt_of_notMem h

/-- The service at the end of the fields. -/
theorem cutAt_srvid : cutAt '$' (trim (frontText n caid cmask prid srvid)) =
    (hexText n caid ++ fieldText '&' 4 cmask ++ fieldText '@' 6 prid,
      if 0 ≤ srvid.toInt then some (printfHex 4 srvid) else none) := by
  have hout : '$' ∉ hexText n caid ++ fieldText '&' 4 cmask ++ fieldText '@' 6 prid := by
    simp only [List.mem_append, not_or]
    exact ⟨⟨notMem_hexText rfl, notMem_fieldText (by omega) rfl (by decide)⟩,
      notMem_fieldText (by omega) rfl (by decide)⟩
  rw [trim_of_notMem fun c hc h1 h2 h3 => notMem_frontText hc h1 h2 h3]
  exact cutAt_fieldText hout

theorem cutAt_prid : cutAt '@' (trim (hexText n caid ++ fieldText '&' 4 cmask ++ fieldText '@' 6 prid)) =
    (hexText n caid ++ fieldText '&' 4 cmask, if 0 ≤ prid.toInt then some (printfHex 6 prid) else none) := by
  have hout : '@' ∉ hexText n caid ++ fieldText '&' 4 cmask := by
    rw [List.mem_append, not_or]
    exact ⟨notMem_hexText rfl, notMem_fieldText (by omega) rfl (by decide)⟩
  have htrim : trim (hexText n caid ++ fieldText '&' 4 cmask ++ fieldText '@' 6 prid) =
      hexText n caid ++ fieldText '&' 4 cmask ++ fieldText '@' 6 prid := by
    refine trim_of_notMem fun c hc hmask hprid _ => ?_
    simp only [List.mem_append, not_or]
    exact ⟨⟨notMem_hexText hc, notMem_fieldText (by omega) hc hmask⟩, notMem_fieldText (by omega) hc hprid⟩
  rw [htrim]
  exact cutAt_fieldText hout

theorem cutAt_cmask : cutAt '&' (hexText n caid ++ fieldText '&' 4 cmask) =
    (hexText n caid, if 0 ≤ cmask.toInt then some (printfHex 4 cmask) else none) :=
  cutAt_fieldText (notMem_hexText rfl)

/-- The provider or the service as it is read back. -/
theorem read_field {bytes : ℕ} (hw : w ≤ 8) (hbytes : 4 ≤ bytes) :
    (if 0 ≤ v.toInt then some (printfHex w v) else none).elim (-1) (a2i · bytes) =
      if 0 ≤ v.toInt then v else -1 := by
  split_ifs
  · have hle := @hexWidth_le v w hw
    exact a2i_printfHex hw (by omega)
  · rfl

private theorem a2iLoop_fill {l : List Char} {i : ℕ} {rc : BitVec 32} (h : n ≤ l.length) :
    a2iLoop true n i l rc = a2iLoop false n i l rc := by
  induction n generalizing l i rc with
  | zero => cases l <;> rfl
  | succ n ih =>
    cases l with
    | nil => exact absurd h (Nat.not_succ_le_zero n)
    | cons c l =>
      unfold a2iLoop
      cases gethexval c with
      | none => rfl
      | some d => exact ih (Nat.le_of_succ_le_succ h)

/-- The mask is printed with four digits at least, so that nothing is filled up. -/
theorem read_cmask : (if 0 ≤ v.toInt then some (printfHex 4 v) else none).elim (-1) (a2i · (-2)) =
    if 0 ≤ v.toInt then BitVec.ofNat 32 (v.toNat % 16 ^ 4) else -1 := by
  split_ifs
  · have hle := @hexWidth_le v 4 (by omega)
    have hfour : 4 ≤ hexWidth 4 v := Nat.le_max_left _ _
    have hplain := @a2i_hexText v (hexWidth 4 v) 2 (by omega)
    have hmin : min (2 <<< 1) (hexWidth 4 v) = 4 := Nat.min_eq_left hfour
    rw [hmin] at hplain
    change a2i (printfHex 4 v) (-2) = _
    rw [printfHex_eq (by omega), ← hplain]
    unfold a2i
    rw [trim_of_noBlank isBlank_hexText]
    exact a2iLoop_fill (by rw [List.length_reverse, length_hexText]; exact hfour)
  · rfl

/-- A mask, a provider and a service that come back. -/
def FieldsKept (cmask prid srvid : BitVec 32) : Prop :=
  (cmask = -1 ∨ cmask.toNat < 0x10000) ∧ (prid = -1 ∨ 0 ≤ prid.toInt) ∧ (srvid = -1 ∨ 0 ≤ srvid.toInt)

instance : Decidable (FieldsKept cmask prid srvid) := inferInstanceAs (Decidable (_ ∧ _ ∧ _))

theorem field_iff : (if 0 ≤ v.toInt then v else -1) = v ↔ v = -1 ∨ 0 ≤ v.toInt := by
  split_ifs with h
  · exact ⟨fun _ => Or.inr h, fun _ => rfl⟩
  · constructor
    · exact fun heq => Or.inl heq.symm
    · rintro (heq | hle)
      · exact heq.symm
      · exact absurd hle h

theorem toInt_nonneg (h : v.toNat < 0x10000) : 0 ≤ v.toInt := by
  rw [BitVec.toInt_eq_toNat_of_lt (by omega)]
  omega

theorem cut_iff : BitVec.ofNat 32 (v.toNat % 16 ^ 4) = v ↔ v.toNat < 0x10000 := by
  have hlt : v.toNat % 16 ^ 4 < 16 ^ 4 := Nat.mod_lt _ (by omega)
  constructor
  · intro heq
    have hval := congrArg BitVec.toNat heq
    rw [BitVec.toNat_ofNat, Nat.mod_eq_of_lt (by omega)] at hval
    omega
  · intro hv
    apply BitVec.eq_of_toNat_eq
    rw [BitVec.toNat_ofNat]
    omega

/-- A value that is written as zero if it is negative. -/
theorem shown_iff : BitVec.ofNat 32 ((if 0 ≤ v.toInt then v else 0).toNat % 16 ^ 4) = v ↔
    v.toNat < 0x10000 := by
  by_cases hpos : 0 ≤ v.toInt
  · rw [if_pos hpos]
    exact cut_iff
  · rw [if_neg hpos]
    constructor
    · intro heq
      rw [← heq] at hpos
      exact absurd (by decide) hpos
    · intro hlt
      exact absurd (toInt_nonneg hlt) hpos

theorem cmask_iff : (if 0 ≤ v.toInt then BitVec.ofNat 32 (v.toNat % 16 ^ 4) else -1) = v ↔
    v = -1 ∨ v.toNat < 0x10000 := by
  split_ifs with h
  · rw [cut_iff]
    constructor
    · exact Or.inr
    · rintro (heq | hlt)
      · rw [heq] at h
        exact absurd h (by decide)
      · exact hlt
  · constructor
    · exact fun heq => Or.inl heq.symm
    · rintro (heq | hlt)
      · exact heq.symm
      · exact absurd (toInt_nonneg hlt) h

/-- A caid is read with four digits. -/
theorem read_caidText (hn : n ≤ 8) (hv : v.toNat < 16 ^ n) :
    a2i (hexText n v) 2 = BitVec.ofNat 32 (v.toNat % 16 ^ 4) := by
  change a2i (hexText n v) ((2 : ℕ) : ℤ) = _
  rw [a2i_hexText hn]
  by_cases hfour : n ≤ 4
  · have hmin : min (2 <<< 1) n = n := Nat.min_eq_right hfour
    have hle : 16 ^ n ≤ 16 ^ 4 := Nat.pow_le_pow_right (by omega) hfour
    rw [hmin, Nat.mod_eq_of_lt hv, Nat.mod_eq_of_lt (by omega)]
  · have hmin : min (2 <<< 1) n = 4 := Nat.min_eq_left (by change 4 ≤ n; omega)
    rw [hmin]

/-- Digits give a number of as many digits, other texts the number that stands for an error. -/
theorem a2iLoop_le {l : List Char} {i : ℕ} {rc : BitVec 32} (hrc : rc.toNat < 2 ^ (4 * i))
    (hi : i + n ≤ 8) : a2iLoop false n i l rc = 0x1f1f1f ∨ (a2iLoop false n i l rc).toNat < 2 ^ (4 * (i + n)) := by
  induction n generalizing l i rc with
  | zero => exact Or.inr hrc
  | succ n ih =>
    have hsum : i + (n + 1) = i + 1 + n := by omega
    have hle : 2 ^ (4 * i) ≤ 2 ^ (4 * (i + 1)) := Nat.pow_le_pow_right (by omega) (by omega)
    rw [hsum]
    cases l with
    | nil => exact ih (l := []) (Nat.lt_of_lt_of_le hrc hle) (by omega)
    | cons c l =>
      unfold a2iLoop
      cases hdigit : gethexval c with
      | none => exact Or.inl rfl
      | some v =>
        have hshift : i <<< 2 = 4 * i := by
          rw [Nat.shiftLeft_eq]
          omega
        have hv : v < 2 ^ 4 := by
          unfold gethexval at hdigit
          split_ifs at hdigit with h1 h2 h3
          · have := Option.some.inj hdigit
            have hhigh : c.toNat ≤ '9'.toNat := h1.2
            change c.toNat ≤ 57 at hhigh
            change c.toNat - 48 = v at this
            omega
          · have := Option.some.inj hdigit
            have hhigh : c.toNat ≤ 'F'.toNat := h2.2
            change c.toNat ≤ 70 at hhigh
            change c.toNat - 65 + 10 = v at this
            omega
          · have := Option.some.inj hdigit
            have hhigh : c.toNat ≤ 'f'.toNat := h3.2
            change c.toNat ≤ 102 at hhigh
            change c.toNat - 97 + 10 = v at this
            omega
        apply ih _ (by omega)
        rw [BitVec.toNat_or, BitVec.toNat_shiftLeft, BitVec.toNat_ofNat, hshift]
        apply Nat.or_lt_two_pow (Nat.lt_of_lt_of_le hrc hle)
        have hpow : (2 : ℕ) ^ (4 * (i + 1)) = 2 ^ 4 * 2 ^ (4 * i) := by rw [← Nat.pow_add]; congr 1; omega
        have hmul : v * 2 ^ (4 * i) < 2 ^ (4 * (i + 1)) := by
          rw [hpow]
          exact Nat.mul_lt_mul_of_pos_right hv (Nat.pow_pos (by omega))
        rw [Nat.mod_eq_of_lt (a := v) (by omega), Nat.shiftLeft_eq]
        exact Nat.lt_of_le_of_lt (Nat.mod_le _ _) hmul

/-- A caid that is read is not negative. -/
theorem toInt_a2i_two : 0 ≤ (a2i s 2).toInt := by
  have h := @a2iLoop_le 4 (trim s).reverse 0 0 (by decide) (by omega)
  change a2i s 2 = 0x1f1f1f ∨ (a2i s 2).toNat < 2 ^ 16 at h
  rcases h with heq | hlt
  · rw [heq]
    decide
  · exact toInt_nonneg (by omega)

/-- The digits of a caid other than zero. -/
def caidWidth (caid : BitVec 32) : ℕ := hexWidth (if caid.toInt < 256 then 2 else 4) caid

theorem printCaidText_eq : printCaidText v = hexText (caidWidth v) v := by
  unfold printCaidText caidWidth
  split_ifs <;> exact printfHex_eq (by omega)

theorem caidWidth_le : caidWidth v ≤ 8 := by
  unfold caidWidth
  split_ifs <;> exact hexWidth_le (by omega)

theorem toNat_lt_caidWidth : v.toNat < 16 ^ caidWidth v :=
  (length_hexDigits_le_iff caidWidth_le).mp (Nat.le_max_right _ _)

theorem caidWidth_pos : 2 ≤ caidWidth v := by
  have htwo : 2 ≤ hexWidth 2 v := Nat.le_max_left _ _
  have hfour : 4 ≤ hexWidth 4 v := Nat.le_max_left _ _
  unfold caidWidth
  split_ifs
  · exact htwo
  · omega

end Fields

end NCam.Conf
