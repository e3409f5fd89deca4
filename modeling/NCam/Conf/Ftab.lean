import NCam.Conf.Caidtab

/-! The filter table: `mk_t_ftab` writes what `chk_ftab` has read. -/
namespace NCam.Conf

open NCam.Util NCam.Cacheex.FeatureTrigger

/-- The texts of the `snprintf` calls for one filter. -/
def printFilter (semicolon : List Char) (cur : Filt) : List (List Char) :=
  (semicolon ++ printfHex 4 (cur.caid.setWidth 32) ++ [':']) ::
    match cur.prids with
    | [] => []
    | prid :: prids => printfHex 6 prid :: prids.map fun prid => ',' :: printfHex 6 prid

/-- The buffer of `mk_t_ftab`: 13 bytes for each filter, seven for each of its idents. -/
def ftabMaxlen (ftab : Ftab) : ℕ := 13 * ftab.length + (ftab.map fun d => d.prids.length * 7).sum

/-- The text that `mk_t_ftab` leaves in its buffer, unless it writes behind it. -/
def mkTFtab (ftab : Ftab) : Option (List Char) :=
  match ftab with
  | [] => some []
  | d :: ds => snprintfs (ftabMaxlen ftab) (printFilter [] d ++ ds.flatMap (printFilter [';'])) 0 []

/-- The digits of an ident beyond the six that the buffer is computed for. -/
def excessDigits (prid : BitVec 32) : ℕ :=
  if prid.toNat < 16 ^ 6 then 0 else if prid.toNat < 16 ^ 7 then 1 else 2

def excess (ftab : Ftab) : ℕ := (ftab.map fun d => (d.prids.map excessDigits).sum).sum

/-- The ident at the end of the text. -/
def lastIdent (ftab : Ftab) : Option (BitVec 32) := ftab.getLast?.bind fun d => d.prids.getLast?

section Ident

variable {prid : BitVec 32} {k : ℕ}

/-- One ident of a filter as `chk_ftab` reads it. -/
def chkIdent (ptr : List Char) : Option (BitVec 32) :=
  if a2iValid ptr 4 = true then some (a2i ptr 4) else none

theorem hexWidth_ident : hexWidth 6 prid = 6 + excessDigits prid := by
  have h6 := @length_hexDigits_le_iff prid 6 (by omega)
  have h7 := @length_hexDigits_le_iff prid 7 (by omega)
  have h8 := @length_hexDigits_le prid
  unfold hexWidth excessDigits
  split_ifs with hsix hseven <;> omega

theorem length_ident : (printfHex 6 prid).length = 6 + excessDigits prid := by
  rw [length_printfHex (by omega), hexWidth_ident]

/-- The beginning of a number is the number only if it is all of it, or if the number is zero. -/
theorem chkIdent_take (hk : 0 < k) :
    chkIdent ((printfHex 6 prid).take k) = some prid ↔
      6 + excessDigits prid ≤ k ∨ prid = 0 := by
  have hwidth := @hexWidth_ident prid
  have hle := @hexWidth_le prid 6 (by omega)
  have hdigits : (hexDigits prid).length ≤ hexWidth 6 prid := Nat.le_max_right _ _
  rcases Nat.lt_or_ge k (hexWidth 6 prid) with hlt | hge
  · have hlow : prid.toNat < 16 ^ hexWidth 6 prid := (length_hexDigits_le_iff hle).mp hdigits
    have hshift : (prid >>> (4 * (hexWidth 6 prid - k))).toNat =
        prid.toNat / 16 ^ (hexWidth 6 prid - k) := by
      rw [BitVec.toNat_ushiftRight, Nat.shiftRight_eq_div_pow, Nat.pow_mul]
    have hfit : (prid >>> (4 * (hexWidth 6 prid - k))).toNat < 16 ^ k := by
      rw [hshift, Nat.div_lt_iff_lt_mul (Nat.pow_pos (by omega)), ← Nat.pow_add]
      have hsum : k + (hexWidth 6 prid - k) = hexWidth 6 prid := by omega
      rw [hsum]
      exact hlow
    have hread : a2i (hexText k (prid >>> (4 * (hexWidth 6 prid - k)))) 4 =
        prid >>> (4 * (hexWidth 6 prid - k)) := by
      have hmin : min (4 <<< 1) k = k := Nat.min_eq_right (by omega)
      change a2i _ ((4 : ℕ) : ℤ) = _
      rw [a2i_hexText (by omega), hmin, Nat.mod_eq_of_lt hfit, BitVec.ofNat_toNat, BitVec.setWidth_eq]
    unfold chkIdent
    rw [printfHex_eq (by omega), take_hexText (by omega), if_pos a2iValid_hexText, hread]
    constructor
    · intro heq
      right
      have hnat := congrArg BitVec.toNat (Option.some.inj heq)
      rw [hshift] at hnat
      by_contra hne
      have hpos : 0 < prid.toNat := by
        rcases Nat.eq_zero_or_pos prid.toNat with hz | hp
        · exact absurd (BitVec.eq_of_toNat_eq hz) hne
        · exact hp
      have hbase : 1 < 16 ^ (hexWidth 6 prid - k) := Nat.one_lt_pow (by omega) (by omega)
      have := Nat.div_lt_self hpos hbase
      omega
    · rintro (hlong | rfl)
      · omega
      · congr 1
        apply BitVec.eq_of_toNat_eq
        rw [hshift]
        exact Nat.zero_div _
  · have hall : (printfHex 6 prid).take k = printfHex 6 prid := by
      apply List.take_of_length_le
      rw [length_printfHex (by omega)]
      exact hge
    have hread : a2i (printfHex 6 prid) ((4 : ℕ) : ℤ) = prid := a2i_printfHex (by omega) hle
    rw [hall]
    unfold chkIdent
    rw [printfHex_eq (by omega), if_pos a2iValid_hexText, ← printfHex_eq (by omega)]
    constructor
    · intro _
      left
      omega
    · intro _
      exact congrArg some hread

theorem chkIdent_printfHex : chkIdent (printfHex 6 prid) = some prid := by
  have hlen := @length_ident prid
  have h := (@chkIdent_take prid (printfHex 6 prid).length (by omega)).mpr (Or.inl (by omega))
  rw [List.take_length] at h
  exact h

end Ident

section Filter

variable {d : Filt} {prids : List (BitVec 32)} {prid : BitVec 32} {m : ℕ}

/-- One filter as it is written. -/
def filterText (d : Filt) : List Char :=
  printfHex 4 (d.caid.setWidth 32) ++ ':' :: joinTokens ',' (d.prids.map (printfHex 6))

theorem flatten_printFilter (semicolon : List Char) :
    (printFilter semicolon d).flatten = semicolon ++ filterText d := by
  unfold printFilter filterText
  cases d.prids with
  | nil => simp [joinTokens]
  | cons prid prids =>
    rw [List.map_cons, joinTokens_cons, List.map_map]
    simp [Function.comp_def]

private theorem printfHex_caid : printfHex 4 (d.caid.setWidth 32) = hexText 4 (d.caid.setWidth 32) := by
  rw [printfHex_eq (by omega), hexWidth_of_lt (by omega) toNat_caid]

private theorem areTokens_prids : AreTokens ',' (d.prids.map (printfHex 6)) := by
  intro t ht
  obtain ⟨prid, -, rfl⟩ := List.mem_map.mp ht
  constructor
  · intro hnil
    have hlen := congrArg List.length hnil
    rw [length_ident, List.length_nil] at hlen
    omega
  · rw [printfHex_eq (by omega)]
    exact notMem_hexText rfl

/-- The characters of a filter and of the separator behind it. -/
theorem length_filterText (h : d.prids ≠ []) : (filterText d).length + 1 =
    5 + d.prids.length * 7 + (d.prids.map excessDigits).sum := by
  have hjoin : ∀ prids : List (BitVec 32), prids ≠ [] →
      (joinTokens ',' (prids.map (printfHex 6))).length + 1 =
        prids.length * 7 + (prids.map excessDigits).sum := by
    intro prids
    induction prids with
    | nil => exact fun h => absurd rfl h
    | cons prid prids ih =>
      intro _
      cases prids with
      | nil =>
        change (printfHex 6 prid).length + 1 = _
        rw [length_ident, List.map_cons, List.sum_cons]
        simp
        omega
      | cons next prids =>
        have hrest := ih (List.cons_ne_nil _ _)
        change (printfHex 6 prid ++ ',' :: joinTokens ',' ((next :: prids).map (printfHex 6))).length + 1 = _
        have hsum : ((prid :: next :: prids).map excessDigits).sum =
            excessDigits prid + ((next :: prids).map excessDigits).sum := List.sum_cons
        have hcount : (prid :: next :: prids).length = (next :: prids).length + 1 := rfl
        rw [List.length_append, List.length_cons, hrest, length_ident, hsum, hcount]
        omega
  have hprids := hjoin d.prids h
  unfold filterText
  rw [List.length_append, List.length_cons, printfHex_caid, length_hexText]
  omega

private theorem filterMap_chkIdent (ts : List (List Char)) :
    (ts.filter (a2iValid · 4)).map (a2i · 4) = ts.filterMap chkIdent := by
  induction ts with
  | nil => rfl
  | cons t ts ih =>
    by_cases hvalid : a2iValid t 4 = true
    · have ht : chkIdent t = some (a2i t 4) := if_pos hvalid
      rw [List.filter_cons_of_pos (by exact hvalid), List.map_cons, ih, List.filterMap_cons_some ht]
    · have ht : chkIdent t = none := if_neg hvalid
      rw [List.filter_cons_of_neg (by exact hvalid), ih, List.filterMap_cons_none ht]

/-- What is read behind the caid of a written filter. -/
private theorem chkFilt_read (hcaid : d.caid ≠ 0) (headers : List Char)
    (hlen : ((strtok ',' headers).filterMap chkIdent).length ≤ csMaxprov) :
    chkFilt (hexText 4 (d.caid.setWidth 32) ++ ':' :: headers) =
      if (strtok ',' headers).filterMap chkIdent ≠ [] then
        some ⟨d.caid, (strtok ',' headers).filterMap chkIdent⟩
      else none := by
  have hread : (a2i (hexText 4 (d.caid.setWidth 32)) 4).setWidth 16 = d.caid := by
    change (a2i (hexText 4 (d.caid.setWidth 32)) ((4 : ℕ) : ℤ)).setWidth 16 = _
    rw [a2i_hexText (by omega)]
    change (BitVec.ofNat 32 ((d.caid.setWidth 32).toNat % 16 ^ 4)).setWidth 16 = _
    rw [Nat.mod_eq_of_lt toNat_caid, BitVec.ofNat_toNat]
    simp
  have hkeep : ¬ (d.caid = 0 ∨ a2iValid (hexText 4 (d.caid.setWidth 32)) 4 = false) := by
    rw [a2iValid_hexText]
    rintro (hzero | hinvalid)
    · exact hcaid hzero
    · cases hinvalid
  unfold chkFilt
  rw [cutAt_append (notMem_hexText rfl)]
  dsimp only
  rw [hread, if_neg hkeep, filterMap_chkIdent, List.take_of_length_le hlen]

/-- The beginning of a written filter is read as the filter only if at most five zeros of a last ident 0
are missing. -/
theorem chkFilt_take (hcaid : d.caid ≠ 0) (hlen : d.prids.length ≤ csMaxprov)
    (hprids : d.prids = prids ++ [prid]) :
    chkFilt ((filterText d).take m) = some d ↔
      (filterText d).length ≤ m ∨ (prid = 0 ∧ (filterText d).length ≤ m + 5) := by
  have htext : filterText d = hexText 4 (d.caid.setWidth 32) ++
      ':' :: joinTokens ',' (prids.map (printfHex 6) ++ [printfHex 6 prid]) := by
    unfold filterText
    rw [printfHex_caid, hprids, List.map_append]
    rfl
  have htokens : AreTokens ',' (prids.map (printfHex 6) ++ [printfHex 6 prid]) := by
    have h := @areTokens_prids d
    rw [hprids, List.map_append] at h
    exact h
  have hcount : (prids.map (printfHex 6) ++ [printfHex 6 prid]).length ≤ csMaxprov := by
    rw [hprids, List.length_append] at hlen
    rw [List.length_append, List.length_map]
    exact hlen
  have hparse : (prids.map (printfHex 6)).map chkIdent = prids.map some := by
    rw [List.map_map, Function.comp_def]
    simp only [chkIdent_printfHex]
  have hwidth : (filterText d).length =
      5 + (lastStart (prids.map (printfHex 6)) + (6 + excessDigits prid)) := by
    rw [htext, List.length_append, List.length_cons, length_hexText, length_joinTokens_append,
      length_ident]
    omega
  have hzero : prid = 0 → excessDigits prid = 0 := by
    rintro rfl
    rfl
  rcases Nat.lt_or_ge 4 m with hgt | hle
  · obtain ⟨k, rfl⟩ : ∃ k, m = 4 + (k + 1) := ⟨m - 5, by omega⟩
    obtain ⟨headers, hheaders⟩ : ∃ headers,
        headers = (joinTokens ',' (prids.map (printfHex 6) ++ [printfHex 6 prid])).take k := ⟨_, rfl⟩
    have htake : (filterText d).take (4 + (k + 1)) =
        hexText 4 (d.caid.setWidth 32) ++ ':' :: headers := by
      have h4 : 4 + (k + 1) = (hexText 4 (d.caid.setWidth 32)).length + (k + 1) := by
        rw [length_hexText]
      rw [htext, h4, List.take_length_add_append, List.take_succ_cons, hheaders]
    have hiff := @parse_take_iff _ ',' chkIdent (printfHex 6 prid) (prids.map (printfHex 6)) prid prids k
      htokens hparse
    have hfew : ((strtok ',' headers).filterMap chkIdent).length ≤ csMaxprov := by
      refine Nat.le_trans (List.length_filterMap_le _ _) (Nat.le_trans ?_ hcount)
      rw [hheaders]
      exact length_strtok_take_le htokens
    rw [← hheaders, ← hprids] at hiff
    rw [htake, chkFilt_read hcaid headers hfew]
    have hsame : ((if (strtok ',' headers).filterMap chkIdent ≠ [] then
        some (⟨d.caid, (strtok ',' headers).filterMap chkIdent⟩ : Filt) else none) = some d) ↔
        (strtok ',' headers).filterMap chkIdent = d.prids := by
      constructor
      · intro heq
        rw [Option.ite_none_right_eq_some] at heq
        exact congrArg Filt.prids (Option.some.inj heq.2)
      · intro heq
        rw [heq, if_pos (by rw [hprids]; simp)]
    rw [hsame, hiff]
    constructor
    · rintro ⟨hlt, hread⟩
      rcases (chkIdent_take (by omega)).mp hread with hall | hz
      · left
        omega
      · have hno := hzero hz
        exact Or.inr ⟨hz, by omega⟩
    · intro hcond
      have hlt : lastStart (prids.map (printfHex 6)) < k := by
        rcases hcond with hall | ⟨-, hmiss⟩ <;> omega
      refine ⟨hlt, (chkIdent_take (by omega)).mpr ?_⟩
      rcases hcond with hall | ⟨hz, -⟩
      · left
        omega
      · exact Or.inr hz
  · have hcut : (filterText d).take m = (hexText 4 (d.caid.setWidth 32)).take m := by
      rw [htext, List.take_append_of_le_length (by rw [length_hexText]; exact hle)]
    have hnone : chkFilt ((filterText d).take m) = none := by
      unfold chkFilt
      rw [hcut, cutAt_of_notMem fun h => notMem_hexText rfl (List.mem_of_mem_take h)]
    rw [hnone]
    constructor
    · intro hsome
      cases hsome
    · rintro (hall | ⟨-, hmiss⟩) <;> omega

end Filter

section Table

variable {ftab ds : Ftab} {d : Filt} {prids : List (BitVec 32)} {prid : BitVec 32} {m : ℕ}
  {value : List Char}

/-- A table that `chk_ftab` gives: caids, idents, and no more idents than a filter has room for. -/
def FtabRead (ftab : Ftab) : Prop :=
  ∀ d ∈ ftab, d.caid ≠ 0 ∧ d.prids ≠ [] ∧ d.prids.length ≤ csMaxprov

theorem ftabRead_chkFtab : FtabRead (chkFtab value) := chkFtab_admitted value

private theorem flatten_pieces : (printFilter [] d ++ ds.flatMap (printFilter [';'])).flatten =
    joinTokens ';' ((d :: ds).map filterText) := by
  have hrest : (ds.flatMap (printFilter [';'])).flatten =
      ((ds.map filterText).map fun t => ';' :: t).flatten := by
    induction ds with
    | nil => rfl
    | cons e ds ih =>
      rw [List.flatMap_cons, List.flatten_append, ih, flatten_printFilter]
      rfl
  rw [List.map_cons, joinTokens_cons, List.flatten_append, flatten_printFilter, hrest,
    List.nil_append]

private theorem areTokens_filters : AreTokens ';' (ftab.map filterText) := by
  intro t ht
  obtain ⟨d, -, rfl⟩ := List.mem_map.mp ht
  constructor
  · unfold filterText
    simp
  · have hjoin : ∀ prids : List (BitVec 32), ';' ∉ joinTokens ',' (prids.map (printfHex 6)) := by
      intro prids
      induction prids with
      | nil => exact List.not_mem_nil
      | cons prid prids ih =>
        have hprid : ';' ∉ printfHex 6 prid := by
          rw [printfHex_eq (by omega)]
          exact notMem_hexText rfl
        cases prids with
        | nil => exact hprid
        | cons next prids =>
          change ';' ∉ printfHex 6 prid ++ ',' :: joinTokens ',' ((next :: prids).map (printfHex 6))
          rw [List.mem_append, List.mem_cons, not_or, not_or]
          exact ⟨hprid, by decide, ih⟩
    unfold filterText
    rw [printfHex_caid, List.mem_append, List.mem_cons, not_or, not_or]
    exact ⟨notMem_hexText rfl, by decide, hjoin d.prids⟩

/-- The characters of the text and of one more separator, against the size of the buffer. -/
theorem length_text (h : FtabRead ftab) :
    (ftab.map fun d => (filterText d).length + 1).sum + 8 * ftab.length =
      ftabMaxlen ftab + excess ftab := by
  unfold ftabMaxlen excess
  induction ftab with
  | nil => rfl
  | cons d ds ih =>
    have hd := length_filterText (h d List.mem_cons_self).2.1
    have hds := ih fun e he => h e (List.mem_cons_of_mem d he)
    simp only [List.map_cons, List.sum_cons, List.length_cons]
    omega

theorem lastStart_filters (fs : Ftab) :
    lastStart (fs.map filterText) = (fs.map fun d => (filterText d).length + 1).sum := by
  unfold lastStart
  rw [List.map_map]
  rfl

/-- A beginning of the written table is read as the table only if at most five zeros of a last ident 0 are
missing. -/
theorem chkFtab_take (h : FtabRead (ds ++ [d])) (hlast : d.prids = prids ++ [prid]) :
    chkFtab ((joinTokens ';' ((ds ++ [d]).map filterText)).take m) = ds ++ [d] ↔
      (joinTokens ';' ((ds ++ [d]).map filterText)).length ≤ m ∨
        (prid = 0 ∧ (joinTokens ';' ((ds ++ [d]).map filterText)).length ≤ m + 5) := by
  obtain ⟨hcaid, -, hlen⟩ := h d (List.mem_append_right ds List.mem_cons_self)
  have hmap : (ds ++ [d]).map filterText = ds.map filterText ++ [filterText d] := List.map_append
  have htokens := @areTokens_filters (ds ++ [d])
  have hparse : (ds.map filterText).map chkFilt = ds.map some := by
    rw [List.map_map]
    apply List.map_congr_left
    intro e he
    obtain ⟨hecaid, heprids, helen⟩ := h e (List.mem_append_left [d] he)
    have hwhole := (chkFilt_take hecaid helen (List.dropLast_append_getLast heprids).symm).mpr
      (Or.inl (Nat.le_refl (filterText e).length))
    rw [List.take_length] at hwhole
    exact hwhole
  have hone := @chkFilt_take d prids prid (m - lastStart (ds.map filterText)) hcaid hlen hlast
  have hsmall : 6 ≤ (filterText d).length := by
    have := length_filterText (h d (List.mem_append_right ds List.mem_cons_self)).2.1
    rw [hlast, List.length_append, List.length_singleton] at this
    omega
  rw [hmap] at htokens ⊢
  rw [length_joinTokens_append]
  unfold chkFtab
  rw [parse_take_iff htokens hparse, hone]
  constructor
  · rintro ⟨hlt, hall | ⟨hz, hmiss⟩⟩
    · left
      omega
    · right
      exact ⟨hz, by omega⟩
  · rintro (hall | ⟨hz, hmiss⟩)
    · exact ⟨by omega, Or.inl (by omega)⟩
    · exact ⟨by omega, Or.inr ⟨hz, by omega⟩⟩

/-- The last text that is printed for a filter is an ident. -/
private theorem printFilter_concat (semicolon : List Char) (h : d.prids ≠ []) :
    ∃ init last, printFilter semicolon d = init ++ [last] ∧ 6 ≤ last.length := by
  have hlong : ∀ prid, 6 ≤ (printfHex 6 prid).length := by
    intro prid
    rw [length_ident]
    omega
  unfold printFilter
  cases hprids : d.prids with
  | nil => exact absurd hprids h
  | cons prid prids =>
    rcases List.eq_nil_or_concat prids with rfl | ⟨ps, p, rfl⟩
    · exact ⟨[_], printfHex 6 prid, rfl, hlong prid⟩
    · refine ⟨(semicolon ++ printfHex 4 (d.caid.setWidth 32) ++ [':']) :: printfHex 6 prid ::
        ps.map fun prid => ',' :: printfHex 6 prid, ',' :: printfHex 6 p, ?_, Nat.le_succ_of_le (hlong p)⟩
      dsimp only
      rw [List.concat_eq_append, List.map_append]
      rfl

/-- The last call starts at least six characters before the end of the text. -/
private theorem length_dropLast (h : FtabRead (d :: ds)) :
    (printFilter [] d ++ ds.flatMap (printFilter [';'])).dropLast.flatten.length + 6 ≤
      (joinTokens ';' ((d :: ds).map filterText)).length := by
  obtain ⟨init, last, heq, hlong⟩ : ∃ init last,
      printFilter [] d ++ ds.flatMap (printFilter [';']) = init ++ [last] ∧ 6 ≤ last.length := by
    rcases List.eq_nil_or_concat ds with rfl | ⟨es, e, rfl⟩
    · obtain ⟨init, last, heq, hlong⟩ := printFilter_concat [] (h d List.mem_cons_self).2.1
      exact ⟨init, last, by rw [heq, List.flatMap_nil, List.append_nil], hlong⟩
    · have he : e ∈ d :: es.concat e := by
        rw [List.concat_eq_append]
        exact List.mem_cons_of_mem d (List.mem_append_right es List.mem_cons_self)
      obtain ⟨init, last, heq, hlong⟩ := printFilter_concat [';'] (h e he).2.1
      refine ⟨printFilter [] d ++ (es.flatMap (printFilter [';']) ++ init), last, ?_, hlong⟩
      rw [List.concat_eq_append, List.flatMap_append, List.flatMap_singleton, heq]
      simp only [List.append_assoc]
  rw [← flatten_pieces, heq, List.dropLast_concat, List.flatten_append, List.length_append,
    List.flatten_singleton]
  omega

/-- The table that `chk_ftab` has read from a setting is written inside the buffer and read back as it was
exactly if the idents have at most eight digits beyond six for each filter, five more if the last ident is
zero. -/
theorem mkTFtab_chkFtab (s : List Char) :
    (∃ text, mkTFtab (chkFtab s) = some text ∧ chkFtab text = chkFtab s) ↔
      excess (chkFtab s) ≤
        8 * (chkFtab s).length + if lastIdent (chkFtab s) = some 0 then 5 else 0 := by
  have hread := @ftabRead_chkFtab s
  generalize chkFtab s = ftab at hread
  rcases List.eq_nil_or_concat ftab with rfl | ⟨ds, d, rfl⟩
  · constructor
    · exact fun _ => Nat.zero_le _
    · exact fun _ => ⟨[], rfl, rfl⟩
  · rw [List.concat_eq_append] at hread ⊢
    obtain ⟨prids, prid, hlast⟩ : ∃ prids prid, d.prids = prids ++ [prid] := by
      have hne := (hread d (List.mem_append_right ds List.mem_cons_self)).2.1
      exact ⟨_, _, (List.dropLast_append_getLast hne).symm⟩
    have hident : lastIdent (ds ++ [d]) = some prid := by
      unfold lastIdent
      rw [List.getLast?_concat, Option.bind_some, hlast, List.getLast?_concat]
    have hlen : (joinTokens ';' ((ds ++ [d]).map filterText)).length + 1 + 8 * (ds ++ [d]).length =
        ftabMaxlen (ds ++ [d]) + excess (ds ++ [d]) := by
      have hsum : ((ds ++ [d]).map fun d => (filterText d).length + 1).sum =
          (ds.map fun d => (filterText d).length + 1).sum + ((filterText d).length + 1) := by
        rw [List.map_append, List.sum_append, List.map_singleton, List.sum_singleton]
      rw [← length_text hread, hsum, List.map_append, List.map_singleton, length_joinTokens_append,
        lastStart_filters]
      omega
    obtain ⟨e, es, hcons⟩ : ∃ e es, ds ++ [d] = e :: es := by
      cases ds with
      | nil => exact ⟨d, [], rfl⟩
      | cons e ds => exact ⟨e, ds ++ [d], rfl⟩
    have htake : ∀ text, mkTFtab (ds ++ [d]) = some text →
        text = (joinTokens ';' ((ds ++ [d]).map filterText)).take (ftabMaxlen (ds ++ [d]) - 1) := by
      intro text htext
      rw [hcons] at htext ⊢
      change snprintfs (ftabMaxlen (e :: es)) (printFilter [] e ++ es.flatMap (printFilter [';'])) 0 [] =
        some text at htext
      have h := @snprintfs_eq_take _ _ _ [] _ _ rfl (List.take_nil).symm htext
      rw [List.nil_append, flatten_pieces] at h
      exact h
    have hmax : 13 ≤ ftabMaxlen (ds ++ [d]) := by
      unfold ftabMaxlen
      rw [List.length_append, List.length_singleton]
      omega
    have hback := @chkFtab_take ds d prids prid (ftabMaxlen (ds ++ [d]) - 1) hread hlast
    rw [hident]
    constructor
    · rintro ⟨text, htext, hsame⟩
      rw [htake text htext, hback] at hsame
      rcases hsame with hall | ⟨hz, hmiss⟩
      · omega
      · rw [if_pos (by rw [hz])]
        omega
    · intro hle
      have hmiss : (joinTokens ';' ((ds ++ [d]).map filterText)).length ≤ ftabMaxlen (ds ++ [d]) - 1 ∨
          (prid = 0 ∧ (joinTokens ';' ((ds ++ [d]).map filterText)).length ≤
            ftabMaxlen (ds ++ [d]) - 1 + 5) := by
        by_cases hz : prid = 0
        · rw [if_pos (by rw [hz])] at hle
          exact Or.inr ⟨hz, by omega⟩
        · rw [if_neg fun h => hz (Option.some.inj h)] at hle
          exact Or.inl (by omega)
      obtain ⟨text, htext⟩ : ∃ text, mkTFtab (ds ++ [d]) = some text := by
        have hstart := @length_dropLast es e (by rw [← hcons]; exact hread)
        rw [← hcons] at hstart
        rw [hcons]
        refine snprintfs_isSome ?_
        rw [← hcons]
        rcases hmiss with hall | ⟨-, hmiss⟩ <;> omega
      refine ⟨text, htext, ?_⟩
      rw [htake text htext]
      exact hback.mpr hmiss

/-- Ten idents of eight digits: the last one is printed behind the buffer. -/
theorem long_idents_behind_buffer :
    ¬ ∃ text, mkTFtab (chkFtab (['1', ':'] ++ (List.replicate 10 (',' :: List.replicate 8 'F')).flatten)) =
        some text ∧
      chkFtab text = chkFtab (['1', ':'] ++ (List.replicate 10 (',' :: List.replicate 8 'F')).flatten) := by
  have hnone : mkTFtab (chkFtab (['1', ':'] ++
      (List.replicate 10 (',' :: List.replicate 8 'F')).flatten)) = none := by decide +kernel
  rw [hnone]
  rintro ⟨text, htext, -⟩
  cases htext

end Table

end NCam.Conf
