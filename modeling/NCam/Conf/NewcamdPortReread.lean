import NCam.Conf.NewcamdPortText

/-! Which tables of newcamd ports come back from their text. -/
namespace NCam.Conf

open NCam.Util

/-- The same caid and the same idents. -/
def PortFilter.Same (f g : PortFilter) : Prop :=
  f.caid = g.caid ∧ f.nprids = g.nprids ∧ ∀ j < f.nprids.toNat, j < csMaxprov → f.prids j = g.prids j

def NcdPort.Same (p q : NcdPort) : Prop :=
  p.sPort = q.sPort ∧ p.ncdKey = q.ncdKey ∧ p.nfilts = q.nfilts ∧
    ∀ f < ncdMaxfilts, (p.filts f).Same (q.filts f)

/-- The same ports with the same keys and filters. -/
def Ptab.Same (ptab ptab' : Ptab) : Prop :=
  ptab.nports = ptab'.nports ∧ ∀ i < ptab.nports, (ptab.ports i).Same (ptab'.ports i)

/-- The filters from number `k` on are not used. -/
def NcdPort.EmptyFrom (p : NcdPort) (k : ℕ) : Prop :=
  ∀ f < ncdMaxfilts, k ≤ f → (p.filts f).caid = 0 ∧ (p.filts f).nprids = 0

/-- The first port, or one with a number: the others have no filters of their own. -/
def NcdPort.Leads (i : ℕ) (p : NcdPort) : Prop := i = 0 ∨ p.sPort ≠ 0

/-- A port with exactly one filter that has idents, and no more than are printed. -/
def NcdPort.Kept (i : ℕ) (p : NcdPort) : Prop :=
  p.Leads i ∧ p.nfilts = 1 ∧ 0 < (p.filts 0).nprids.toNat ∧ (p.filts 0).nprids.toNat ≤ csMaxprov ∧ p.EmptyFrom 1

/-- The last port of a table of which `portsExcess` characters too many are printed: its end may be cut if nothing
is lost by that. -/
def NcdPort.LastKept (i : ℕ) (p : NcdPort) (excess : ℤ) : Prop :=
  (p.Kept i ∧ (excess ≤ 1 ∨ ((p.filts 0).prids ((p.filts 0).nprids.toNat - 1) = 0 ∧
      excess ≤ if (p.filts 0).nprids.toNat = 1 then 7 else 6))) ∨
    (p.nfilts = 0 ∧ p.EmptyFrom 0 ∧ excess = 5) ∨
    (p.Leads i ∧ p.nfilts = 0 ∧ (p.filts 0).caid = 0 ∧ (p.filts 0).nprids = 1 ∧ (p.filts 0).prids 0 = 0 ∧
      p.EmptyFrom 1 ∧ (excess = 8 ∨ excess = 9))

/-- The tables that come back. -/
def PortsKept (ptab : Ptab) : Prop :=
  (∀ i, i + 1 < ptab.nports → (ptab.ports i).Kept i) ∧
    ∀ i, i + 1 = ptab.nports → (ptab.ports i).LastKept i (portsExcess ptab)

section Idents

variable {p : NcdPort} {x : List Char} {v : BitVec 32} {caid : BitVec 16} {n k w : ℕ} {t : List Char}

/-- What the text of a port with idents says. -/
def idList (p : NcdPort) : List (Option (BitVec 16) × BitVec 32) :=
  (List.range (p.filts 0).nprids.toNat).map fun j =>
    (if j = 0 then some (p.filts 0).caid else none, (p.filts 0).prids j)

/-- What is said by a text that may be cut. -/
def parsedOf (x : List Char) : List (Option (BitVec 16) × BitVec 32) := (strtok ',' x).map parseIdent

private theorem parseIdent_hex (hhex : ∀ c ∈ t, gethexval c ≠ none) : parseIdent t = (none, a2i t 6) := by
  have hcolon : ':' ∉ t := fun hc => hhex ':' hc rfl
  unfold parseIdent
  rw [trim_of_noBlank fun c hc => isBlank_of_hex (hhex c hc), cutAt_of_notMem hcolon]

private theorem parseIdent_caid (hhex : ∀ c ∈ t, gethexval c ≠ none) :
    parseIdent (hexText 4 (caid.setWidth 32) ++ ':' :: t) = (some caid, a2i t 6) := by
  have hblank : ∀ c ∈ hexText 4 (caid.setWidth 32) ++ ':' :: t, isBlank c = false := by
    intro c hc
    rcases List.mem_append.mp hc with hc | hc
    · exact isBlank_hexText c hc
    · rcases List.mem_cons.mp hc with rfl | hc
      · rfl
      · exact isBlank_of_hex (hhex c hc)
  have hcaid : (a2i (hexText 4 (caid.setWidth 32)) 4).setWidth 16 = caid := by
    change (a2i (hexText 4 (caid.setWidth 32)) ((4 : ℕ) : ℤ)).setWidth 16 = caid
    rw [a2i_hexText (by omega)]
    change (BitVec.ofNat 32 ((caid.setWidth 32).toNat % 16 ^ 4)).setWidth 16 = caid
    rw [Nat.mod_eq_of_lt toNat_caid, BitVec.ofNat_toNat]
    simp
  unfold parseIdent
  rw [trim_of_noBlank hblank, cutAt_append (notMem_hexText rfl)]
  dsimp only
  rw [hcaid]

private theorem hex_hexText : ∀ c ∈ hexText w v, gethexval c ≠ none := fun _ hc h => notMem_hexText h hc

/-- An ident of which the last digits are cut is read as itself only if it is zero. -/
private theorem a2i_take_iff (hk : k ≤ hexWidth 6 v) :
    a2i ((hexText (hexWidth 6 v) v).take (hexWidth 6 v - k)) 6 = v ↔ k = 0 ∨ v = 0 := by
  have hwidth : hexWidth 6 v ≤ 8 := hexWidth_le (by omega)
  have hv : v.toNat < 16 ^ hexWidth 6 v := (length_hexDigits_le_iff hwidth).mp (Nat.le_max_right _ _)
  have hsub : hexWidth 6 v - (hexWidth 6 v - k) = k := by omega
  have hshift : (v >>> (4 * k)).toNat = v.toNat / 16 ^ k := by
    rw [BitVec.toNat_ushiftRight, Nat.shiftRight_eq_div_pow, Nat.pow_mul]
  have hlt : v.toNat / 16 ^ k < 16 ^ (hexWidth 6 v - k) := by
    rw [Nat.div_lt_iff_lt_mul (Nat.pow_pos (by omega)), ← Nat.pow_add]
    have hadd : hexWidth 6 v - k + k = hexWidth 6 v := by omega
    rw [hadd]
    exact hv
  have hmin : min (6 <<< 1) (hexWidth 6 v - k) = hexWidth 6 v - k := by
    rw [Nat.min_eq_right]
    change hexWidth 6 v - k ≤ 12
    omega
  rw [take_hexText (by omega), hsub]
  change a2i _ ((6 : ℕ) : ℤ) = v ↔ _
  rw [a2i_hexText (by omega), hmin, hshift, Nat.mod_eq_of_lt hlt]
  have h32 : v.toNat / 16 ^ k < 2 ^ 32 := Nat.lt_of_le_of_lt (Nat.div_le_self _ _) v.isLt
  constructor
  · intro heq
    have hval := congrArg BitVec.toNat heq
    rw [BitVec.toNat_ofNat, Nat.mod_eq_of_lt h32] at hval
    by_contra hne
    rw [not_or] at hne
    have hpos : 0 < v.toNat := by
      rcases Nat.eq_zero_or_pos v.toNat with h | h
      · exact absurd (BitVec.eq_of_toNat_eq h) hne.2
      · exact h
    have hone : 1 < 16 ^ k := Nat.one_lt_pow hne.1 (by omega)
    have hless := Nat.div_lt_self hpos hone
    omega
  · rintro (rfl | rfl)
    · apply BitVec.eq_of_toNat_eq
      rw [BitVec.toNat_ofNat, Nat.pow_zero, Nat.div_one, Nat.mod_eq_of_lt v.isLt]
    · apply BitVec.eq_of_toNat_eq
      rw [BitVec.toNat_ofNat]
      change 0 / 16 ^ k % 2 ^ 32 = 0
      rw [Nat.zero_div]

private def identToken (p : NcdPort) (j : ℕ) : List Char :=
  (if j = 0 then hexText 4 ((p.filts 0).caid.setWidth 32) ++ [':'] else []) ++ printfHex 6 ((p.filts 0).prids j)

private theorem parseIdent_token : parseIdent (identToken p n) =
    (if n = 0 then some (p.filts 0).caid else none, (p.filts 0).prids n) := by
  have hprid : ∀ c ∈ printfHex 6 ((p.filts 0).prids n), gethexval c ≠ none := by
    rw [printfHex_eq (by omega)]
    exact hex_hexText
  have hle := @hexWidth_le ((p.filts 0).prids n) 6 (by omega)
  have hback : a2i (printfHex 6 ((p.filts 0).prids n)) 6 = (p.filts 0).prids n :=
    a2i_printfHex (by omega) (by change _ ≤ 12; omega)
  unfold identToken
  by_cases hn : n = 0
  · rw [if_pos hn, if_pos hn, List.append_assoc, List.singleton_append, parseIdent_caid hprid, hback]
  · rw [if_neg hn, if_neg hn, List.nil_append, parseIdent_hex hprid, hback]

/-- The text of a port with idents is put together from its tokens. -/
private theorem identsText_eq (hn : (p.filts 0).nprids.toNat = n + 1) :
    identsText p = joinTokens ',' ((List.range (n + 1)).map (identToken p)) := by
  have hprids : pridTexts p = (List.range (n + 1)).map fun j => printfHex 6 ((p.filts 0).prids j) := by
    unfold pridTexts
    rw [hn]
  unfold identsText
  rw [hprids, if_neg (by simp), List.range_succ_eq_map, List.map_cons, List.map_cons, joinTokens_cons,
    joinTokens_cons]
  unfold identToken
  simp [Function.comp_def]

private theorem areTokens_identToken : AreTokens ',' ((List.range n).map (identToken p)) := by
  intro t ht
  obtain ⟨j, -, rfl⟩ := List.mem_map.mp ht
  have hne : printfHex 6 ((p.filts 0).prids j) ≠ [] := by
    intro hnil
    have hlen := congrArg List.length hnil
    have hsix : 6 ≤ hexWidth 6 ((p.filts 0).prids j) := Nat.le_max_left _ _
    rw [length_printfHex (by omega), List.length_nil] at hlen
    omega
  have hout : ',' ∉ printfHex 6 ((p.filts 0).prids j) := by
    rw [printfHex_eq (by omega)]
    exact notMem_hexText rfl
  unfold identToken
  refine ⟨by simp [hne], ?_⟩
  rw [List.mem_append, not_or]
  refine ⟨?_, hout⟩
  split_ifs
  · rw [List.mem_append, List.mem_singleton, not_or]
    exact ⟨notMem_hexText rfl, by decide⟩
  · exact List.not_mem_nil

/-- The idents of a text that is cut are all found if its last token is read alike. -/
private theorem parsedOf_take_iff {m : ℕ} (hn : (p.filts 0).nprids.toNat = n + 1) :
    parsedOf ((identsText p).take m) = idList p ↔
      lastStart ((List.range n).map (identToken p)) < m ∧
        parseIdent ((identToken p n).take (m - lastStart ((List.range n).map (identToken p)))) =
          (if n = 0 then some (p.filts 0).caid else none, (p.filts 0).prids n) := by
  have hsplit : (List.range (n + 1)).map (identToken p) =
      (List.range n).map (identToken p) ++ [identToken p n] := by
    rw [List.range_succ, List.map_append, List.map_singleton]
  have hlist : idList p = ((List.range n).map fun j => (if j = 0 then some (p.filts 0).caid else none,
      (p.filts 0).prids j)) ++ [(if n = 0 then some (p.filts 0).caid else none, (p.filts 0).prids n)] := by
    unfold idList
    rw [hn, List.range_succ, List.map_append, List.map_singleton]
  have hparse : ((List.range n).map (identToken p)).map (fun t => some (parseIdent t)) =
      ((List.range n).map fun j => ((if j = 0 then some (p.filts 0).caid else none),
        (p.filts 0).prids j)).map some := by
    rw [List.map_map, List.map_map]
    apply List.map_congr_left
    intro j _
    exact congrArg some parseIdent_token
  have htake := @parse_take_iff _ ',' (fun t => some (parseIdent t)) (identToken p n)
    ((List.range n).map (identToken p)) (if n = 0 then some (p.filts 0).caid else none, (p.filts 0).prids n) _
    m (hsplit ▸ areTokens_identToken) hparse
  have hmap : ∀ ts : List (List Char), ts.filterMap (fun t => some (parseIdent t)) = ts.map parseIdent := by
    intro ts
    rw [← List.filterMap_eq_map]
    rfl
  rw [← hsplit, ← identsText_eq hn, hmap, ← hlist, Option.some.injEq] at htake
  exact htake

private theorem hexWidth_six (v : BitVec 32) : 6 ≤ hexWidth 6 v ∧ (v = 0 → hexWidth 6 v = 6) := by
  refine ⟨Nat.le_max_left _ _, ?_⟩
  intro h
  rw [h]
  decide

private theorem hex_take_hexText (v : BitVec 32) (m : ℕ) :
    ∀ c ∈ (hexText (hexWidth 6 v) v).take m, gethexval c ≠ none :=
  fun c hc => hex_hexText c (List.mem_of_mem_take hc)

/-- The first token without its last `k` characters. -/
private theorem parseIdent_take_first {v : BitVec 32} :
    parseIdent ((hexText 4 (caid.setWidth 32) ++ [':'] ++ hexText (hexWidth 6 v) v).take
      (5 + hexWidth 6 v - k)) = (some caid, v) ↔ k = 0 ∨ (v = 0 ∧ k ≤ 6) := by
  obtain ⟨hsix, hzero⟩ := hexWidth_six v
  have hfive : (hexText 4 (caid.setWidth 32) ++ [':']).length = 5 := by
    rw [List.length_append, length_hexText]
    rfl
  by_cases hk : k ≤ hexWidth 6 v
  · have hsub : 5 + hexWidth 6 v - k =
        (hexText 4 (caid.setWidth 32) ++ [':']).length + (hexWidth 6 v - k) := by omega
    rw [hsub, List.take_length_add_append, List.append_assoc, List.singleton_append,
      parseIdent_caid (hex_take_hexText v _), Prod.mk.injEq, a2i_take_iff hk]
    constructor
    · rintro ⟨-, h | h⟩
      · exact Or.inl h
      · exact Or.inr ⟨h, by rw [hzero h] at hk; exact hk⟩
    · rintro (h | h)
      · exact ⟨rfl, Or.inl h⟩
      · exact ⟨rfl, Or.inr h.1⟩
  · have htake : (hexText 4 (caid.setWidth 32) ++ [':'] ++ hexText (hexWidth 6 v) v).take
        (5 + hexWidth 6 v - k) = (hexText 4 (caid.setWidth 32)).take (5 + hexWidth 6 v - k) := by
      rw [List.append_assoc, List.take_append_of_le_length]
      rw [length_hexText]
      omega
    rw [htake, parseIdent_hex fun c hc => hex_hexText c (List.mem_of_mem_take hc), Prod.mk.injEq]
    constructor
    · rintro ⟨h, -⟩
      cases h
    · rintro (h | h)
      · omega
      · rw [hzero h.1] at hk
        omega

/-- A token behind the first one without its last `k` characters. -/
private theorem parseIdent_take_rest {v : BitVec 32} (hk : k < hexWidth 6 v) :
    parseIdent ((hexText (hexWidth 6 v) v).take (hexWidth 6 v - k)) = (none, v) ↔
      k = 0 ∨ (v = 0 ∧ k ≤ 5) := by
  obtain ⟨hsix, hzero⟩ := hexWidth_six v
  rw [parseIdent_hex (hex_take_hexText v _), Prod.mk.injEq, a2i_take_iff (Nat.le_of_lt hk)]
  constructor
  · rintro ⟨-, h | h⟩
    · exact Or.inl h
    · exact Or.inr ⟨h, by rw [hzero h] at hk; omega⟩
  · rintro (h | h)
    · exact ⟨rfl, Or.inl h⟩
    · exact ⟨rfl, Or.inr h.1⟩

/-- The idents are all found if nothing is cut, or if the cut digits are those of a zero. -/
theorem parsedOf_cut (hn : (p.filts 0).nprids.toNat = n + 1) :
    parsedOf ((identsText p).take ((identsText p).length - k)) = idList p ↔
      k = 0 ∨ ((p.filts 0).prids n = 0 ∧ k ≤ if n = 0 then 6 else 5) := by
  obtain ⟨hsix, hzero⟩ := hexWidth_six ((p.filts 0).prids n)
  have htoken : identToken p n = (if n = 0 then hexText 4 ((p.filts 0).caid.setWidth 32) ++ [':'] else []) ++
      hexText (hexWidth 6 ((p.filts 0).prids n)) ((p.filts 0).prids n) := by
    unfold identToken
    rw [printfHex_eq (by omega)]
  have hlen : (identsText p).length =
      lastStart ((List.range n).map (identToken p)) + (identToken p n).length := by
    rw [identsText_eq hn, List.range_succ, List.map_append, List.map_singleton, length_joinTokens_append]
  rw [parsedOf_take_iff hn, hlen, htoken]
  by_cases hfirst : n = 0
  · have hstart : lastStart ((List.range n).map (identToken p)) = 0 := by
      rw [hfirst]
      rfl
    have hwidth : (hexText 4 ((p.filts 0).caid.setWidth 32) ++ [':'] ++
        hexText (hexWidth 6 ((p.filts 0).prids n)) ((p.filts 0).prids n)).length =
          5 + hexWidth 6 ((p.filts 0).prids n) := by
      rw [List.length_append, List.length_append, length_hexText, length_hexText]
      rfl
    simp only [hfirst, if_true] at hstart hwidth ⊢
    rw [hstart, hwidth, Nat.zero_add, Nat.sub_zero, parseIdent_take_first]
    rw [hfirst] at hsix hzero
    constructor
    · intro h
      exact h.2
    · intro h
      refine ⟨?_, h⟩
      rcases h with h | h
      · omega
      · omega
  · rw [if_neg hfirst, if_neg hfirst, if_neg hfirst, List.nil_append, length_hexText]
    by_cases hk : k < hexWidth 6 ((p.filts 0).prids n)
    · have hsub : lastStart ((List.range n).map (identToken p)) + hexWidth 6 ((p.filts 0).prids n) - k -
          lastStart ((List.range n).map (identToken p)) = hexWidth 6 ((p.filts 0).prids n) - k := by omega
      rw [hsub, parseIdent_take_rest hk]
      constructor
      · intro h
        exact h.2
      · intro h
        exact ⟨by omega, h⟩
    · constructor
      · rintro ⟨h, -⟩
        omega
      · rintro (h | h)
        · omega
        · rw [hzero h.1] at hk
          omega

end Idents

section Cut

variable {p : NcdPort} {n r : ℕ}

private theorem identsText_take (hr : r ≤ 4) : (identsText p).take r =
    hexText r (((p.filts 0).caid.setWidth 32) >>> (4 * (4 - r))) := by
  unfold identsText
  rw [List.take_append_of_le_length (by rw [length_hexText]; exact hr), take_hexText hr]

/-- A part of the caid alone is read as an ident. -/
theorem strtok_cut_caid (hpos : 0 < r) (hr : r ≤ 4) : ∃ t v, strtok ',' ((identsText p).take r) = [t] ∧
    parseIdent t = (none, v) ∧ ((p.filts 0).caid = 0 → v = 0) := by
  have hne : hexText r (((p.filts 0).caid.setWidth 32) >>> (4 * (4 - r))) ≠ [] := by
    intro hnil
    have hlen := congrArg List.length hnil
    rw [length_hexText, List.length_nil] at hlen
    omega
  rw [identsText_take hr, strtok_token hne (notMem_hexText rfl)]
  refine ⟨_, _, rfl, parseIdent_hex hex_hexText, fun hzero => ?_⟩
  rw [hzero]
  change a2i _ ((6 : ℕ) : ℤ) = 0
  rw [a2i_hexText (by omega)]
  apply BitVec.eq_of_toNat_eq
  rw [BitVec.toNat_ofNat, BitVec.toNat_ushiftRight, Nat.shiftRight_eq_div_pow]
  change 0 / _ % _ % _ = 0
  rw [Nat.zero_div]
  simp

/-- A text in which the colon is left starts a filter. -/
theorem strtok_cut_group (hn : (p.filts 0).nprids.toNat = n + 1) (hr : 5 ≤ r) :
    ∃ t ts caid, strtok ',' ((identsText p).take r) = t :: ts ∧ (parseIdent t).1 = some caid ∧
      (∀ u ∈ ts, (parseIdent u).1 = none) ∧ ts.length ≤ n := by
  have htoken : identToken p 0 = hexText 4 ((p.filts 0).caid.setWidth 32) ++ [':'] ++
      printfHex 6 ((p.filts 0).prids 0) := rfl
  have htokens : AreTokens ',' ((List.range (n + 1)).map (identToken p)) := areTokens_identToken
  rw [identsText_eq hn]
  rw [List.range_succ_eq_map, List.map_cons, List.map_map] at htokens ⊢
  obtain ⟨hne, hout⟩ := htokens _ List.mem_cons_self
  rcases Nat.lt_or_ge (identToken p 0).length r with hgt | hle
  · cases hrest : (List.range n).map (identToken p ∘ Nat.succ) with
    | nil =>
      refine ⟨identToken p 0, [], (p.filts 0).caid, ?_, ?_, fun u hu => absurd hu List.not_mem_nil, Nat.zero_le n⟩
      · change strtok ',' ((identToken p 0).take r) = _
        rw [List.take_of_length_le (Nat.le_of_lt hgt), strtok_token hne hout]
      · rw [parseIdent_token]
        rfl
    | cons u us =>
      rw [strtok_take_of_gt hne hout hgt]
      refine ⟨_, _, (p.filts 0).caid, rfl, by rw [parseIdent_token]; rfl, fun t ht => ?_, ?_⟩
      · have hhex : ∀ c ∈ t, gethexval c ≠ none := by
          intro c hc
          obtain ⟨hmem, hcomma⟩ := mem_of_mem_strtok ht hc
          rcases mem_joinTokens (List.mem_of_mem_take hmem) with h | ⟨w, hw, hcw⟩
          · exact absurd h hcomma
          · rw [← hrest] at hw
            obtain ⟨j, -, rfl⟩ := List.mem_map.mp hw
            change c ∈ identToken p (j + 1) at hcw
            unfold identToken at hcw
            rw [if_neg (Nat.succ_ne_zero j), List.nil_append, printfHex_eq (by omega)] at hcw
            exact hex_hexText c hcw
        rw [parseIdent_hex hhex]
      · rw [hrest] at htokens
        have hle := @length_strtok_take_le ',' (u :: us) (r - ((identToken p 0).length + 1))
          fun t ht => htokens t (List.mem_cons_of_mem _ ht)
        have hcount : (u :: us).length = n := by
          rw [← hrest, List.length_map, List.length_range]
        rw [hcount] at hle
        exact hle
  · rw [strtok_take_of_le hout hle, if_neg (by omega)]
    have hfive : (hexText 4 ((p.filts 0).caid.setWidth 32) ++ [':']).length = 5 := by
      rw [List.length_append, length_hexText]
      rfl
    have hsum : r = (hexText 4 ((p.filts 0).caid.setWidth 32) ++ [':']).length + (r - 5) := by omega
    have hcut : (identToken p 0).take r = hexText 4 ((p.filts 0).caid.setWidth 32) ++
        ':' :: (printfHex 6 ((p.filts 0).prids 0)).take (r - 5) := by
      rw [htoken, hsum, List.take_length_add_append, ← hsum, List.append_assoc]
      rfl
    refine ⟨_, [], (p.filts 0).caid, rfl, ?_, fun u hu => absurd hu List.not_mem_nil, Nat.zero_le n⟩
    rw [hcut, parseIdent_caid]
    intro c hc
    have hmem := List.mem_of_mem_take hc
    rw [printfHex_eq (by omega)] at hmem
    exact hex_hexText c hmem

end Cut

section Ports

variable {p : NcdPort} {ptab : Ptab} {s s' : PortRead} {i n : ℕ} {x t : List Char} {ts : List (List Char)}
  {caid : BitVec 16} {vs : List (BitVec 32)}

/-- A port with one filter. -/
private def groupPort (p : NcdPort) (caid : BitVec 16) (vs : List (BitVec 32)) : NcdPort :=
  ⟨p.sPort, p.ncdKey, 1, Function.update (fun _ => emptyFilter) 0 (addPrids { emptyFilter with caid := caid } 0 vs)⟩

private theorem groupPort_filts : (groupPort p caid vs).filts 0 =
    addPrids { emptyFilter with caid := caid } 0 vs ∧
      ∀ f, f ≠ 0 → (groupPort p caid vs).filts f = emptyFilter := by
  unfold groupPort
  dsimp only
  refine ⟨by rw [Function.update_self], fun f hf => ?_⟩
  rw [Function.update_of_ne hf]

private theorem ports_setPort {q : NcdPort} {r : ℕ} :
    (s.setPort q).ports r = Function.update s.ports s.iport q r := rfl

private theorem ports_setGroup {q : NcdPort} {r : ℕ} :
    ({ s.setPort q with ifilt := 0 } : PortRead).ports r = Function.update s.ports s.iport q r := rfl

private theorem read_group (hport : s.ports s.iport = freshPort p) (hsome : (parseIdent t).1 = some caid)
    (hnone : ∀ u ∈ ts, (parseIdent u).1 = none) (hlen : 1 + ts.length ≤ csMaxprov) :
    readIdents s 0 (t :: ts) =
      some { s.setPort (groupPort p caid ((t :: ts).map fun t => (parseIdent t).2)) with ifilt := 0 } := by
  rw [readIdents_group hsome hnone (by rw [hport]; rfl) hlen, hport]
  rfl

/-- The filter that is read is the one that was printed if all its idents are found. -/
private theorem same_addPrids (hN : (p.filts 0).nprids.toNat ≤ csMaxprov) (hsome : (parseIdent t).1 = some caid)
    (hnone : ∀ u ∈ ts, (parseIdent u).1 = none) (hlen : 1 + ts.length ≤ csMaxprov) :
    (p.filts 0).Same (addPrids { emptyFilter with caid := caid } 0 ((t :: ts).map fun t => (parseIdent t).2)) ↔
      (t :: ts).map parseIdent = idList p := by
  obtain ⟨hcaid, hnprids, hprids⟩ := @addPrids_spec 0 { emptyFilter with caid := caid }
    ((t :: ts).map fun t => (parseIdent t).2)
  change _ = caid at hcaid
  change _ = 0#8 + BitVec.ofNat 8 _ at hnprids
  rw [BitVec.zero_add, List.length_map, List.length_cons] at hnprids
  have hcount : (BitVec.ofNat 8 (ts.length + 1)).toNat = ts.length + 1 := by
    rw [BitVec.toNat_ofNat, Nat.mod_eq_of_lt]
    have hmax : csMaxprov = 128 := rfl
    omega
  have hget : ∀ j, j < ts.length + 1 → ((t :: ts).map fun t => (parseIdent t).2)[j]? =
      ((t :: ts).map parseIdent)[j]?.map Prod.snd := by
    intro j _
    rw [List.getElem?_map, List.getElem?_map, Option.map_map]
    rfl
  unfold PortFilter.Same
  rw [hcaid, hnprids]
  constructor
  · rintro ⟨hc, hn, hall⟩
    have hN' : (p.filts 0).nprids.toNat = ts.length + 1 := by rw [hn, hcount]
    apply List.ext_getElem?
    intro j
    unfold idList
    rw [hN']
    rcases Nat.lt_or_ge j (ts.length + 1) with hlt | hge
    · have hj := hall j (by omega) (by omega)
      rw [hprids, if_pos (Nat.zero_le j), Nat.sub_zero, hget j hlt] at hj
      have hright : ((List.range (ts.length + 1)).map fun j =>
          ((if j = 0 then some (p.filts 0).caid else none), (p.filts 0).prids j))[j]? =
          some (if j = 0 then some (p.filts 0).caid else none, (p.filts 0).prids j) := by
        rw [List.getElem?_map, List.getElem?_range hlt, Option.map_some]
      rw [hright]
      cases j with
      | zero =>
        rw [if_pos rfl, hc, hj]
        change some (parseIdent t) = some (some caid, (parseIdent t).2)
        rw [← hsome]
      | succ j =>
        have hlt' : j < ts.length := by omega
        have hu := hnone (ts.get ⟨j, hlt'⟩) (List.get_mem ts ⟨j, hlt'⟩)
        rw [if_neg (Nat.succ_ne_zero j), hj]
        rw [List.map_cons, List.getElem?_cons_succ, List.getElem?_map, List.getElem?_eq_getElem hlt']
        change some (parseIdent (ts.get ⟨j, hlt'⟩)) = some (none, (parseIdent (ts.get ⟨j, hlt'⟩)).2)
        rw [← hu]
    · rw [List.getElem?_eq_none (by rw [List.length_map, List.length_cons]; exact hge),
        List.getElem?_eq_none (by rw [List.length_map, List.length_range]; exact hge)]
  · intro heq
    have hlen' := congrArg List.length heq
    unfold idList at hlen' heq
    rw [List.length_map, List.length_cons, List.length_map, List.length_range] at hlen'
    have hn : (p.filts 0).nprids = BitVec.ofNat 8 (ts.length + 1) := by
      apply BitVec.eq_of_toNat_eq
      rw [hcount, hlen']
    have hat : ∀ j < ts.length + 1, ((t :: ts).map parseIdent)[j]? =
        some (if j = 0 then some (p.filts 0).caid else none, (p.filts 0).prids j) := by
      intro j hj
      rw [heq, List.getElem?_map, List.getElem?_range (by omega), Option.map_some]
    refine ⟨?_, hn, fun j hj _ => ?_⟩
    · have hzero := Option.some.inj (hat 0 (Nat.succ_pos _))
      rw [hzero] at hsome
      exact Option.some.inj hsome
    · rw [hprids, if_pos (Nat.zero_le j), Nat.sub_zero, hget j (by omega), hat j (by omega)]
      rfl

/-- A kept port is the one that is read from all its idents. -/
private theorem same_groupPort (h : p.Kept i) (hsome : (parseIdent t).1 = some caid)
    (hnone : ∀ u ∈ ts, (parseIdent u).1 = none) (hlen : 1 + ts.length ≤ csMaxprov)
    (hparsed : (t :: ts).map parseIdent = idList p) :
    p.Same (groupPort p caid ((t :: ts).map fun t => (parseIdent t).2)) := by
  obtain ⟨-, hnfilts, -, hN, hempty⟩ := h
  obtain ⟨hzero, hother⟩ := @groupPort_filts p caid ((t :: ts).map fun t => (parseIdent t).2)
  refine ⟨rfl, rfl, hnfilts, fun f hf => ?_⟩
  by_cases hf0 : f = 0
  · subst hf0
    rw [hzero]
    exact (same_addPrids hN hsome hnone hlen).mpr hparsed
  · obtain ⟨hcaid, hnprids⟩ := hempty f hf (by omega)
    rw [hother f hf0]
    refine ⟨hcaid, hnprids, fun j hj => ?_⟩
    rw [hnprids] at hj
    exact absurd hj (Nat.not_lt_zero j)

/-- The state before piece `i`: the ports before it are read, the others are fresh. -/
private structure ReadUpTo (ptab : Ptab) (n i : ℕ) (s : PortRead) : Prop where
  iport : s.iport = i - 1
  ifilt : s.ifilt = 0
  fresh : ∀ r, i ≤ r → s.ports r = freshPorts ptab n r
  same : ∀ r < i, (ptab.ports r).Same (s.ports r)

private theorem freshPorts_of_le (hi : i ≤ n) : freshPorts ptab n i = freshPort (ptab.ports i) :=
  if_pos (Nat.lt_succ_of_le hi)

/-- A leading port is the one in use when its text is read. -/
private theorem startPiece_leads (h : ReadUpTo ptab n i s) (hi : i ≤ n) (hleads : (ptab.ports i).Leads i) :
    (startPiece s i (portPieceOf (ptab.ports i) x)).iport = i ∧
      (startPiece s i (portPieceOf (ptab.ports i) x)).ports i = freshPort (ptab.ports i) ∧
        (startPiece s i (portPieceOf (ptab.ports i) x)).ifilt = 0 ∧
          (startPiece s i (portPieceOf (ptab.ports i) x)).ports = s.ports := by
  obtain ⟨hports, hifilt, hiport⟩ := @startPiece_ports s i (portPieceOf (ptab.ports i) x)
  refine ⟨?_, by rw [hports, h.fresh i (Nat.le_refl i), freshPorts_of_le hi], by rw [hifilt, h.ifilt], hports⟩
  rw [hiport]
  split_ifs with hport
  · rfl
  · rcases hleads with hzero | hne
    · rw [h.iport]
      omega
    · exact absurd hne hport

/-- A leading port of which all idents are found. -/
private theorem read_leads (h : ReadUpTo ptab n i s) (hi : i ≤ n) (hkept : (ptab.ports i).Kept i)
    (hx : strtok ',' x = t :: ts) (hsome : (parseIdent t).1 = some caid) (hnone : ∀ u ∈ ts, (parseIdent u).1 = none)
    (hlen : 1 + ts.length ≤ csMaxprov) (hparsed : (t :: ts).map parseIdent = idList (ptab.ports i)) :
    ∃ s', readIdents (startPiece s i (portPieceOf (ptab.ports i) x)) 0 (strtok ',' x) = some s' ∧
      ReadUpTo ptab n (i + 1) s' := by
  obtain ⟨hiport, hfresh, -, hports⟩ := @startPiece_leads ptab s i n x h hi hkept.1
  rw [hx, read_group (by rw [hiport, hfresh]) hsome hnone hlen]
  refine ⟨_, rfl, ⟨?_, rfl, fun r hr => ?_, fun r hr => ?_⟩⟩
  · change (startPiece s i (portPieceOf (ptab.ports i) x)).iport = i
    exact hiport
  · rw [ports_setGroup, hiport, Function.update_of_ne (by omega), hports]
    exact h.fresh r (by omega)
  · rw [ports_setGroup, hiport]
    by_cases hri : r = i
    · subst hri
      rw [Function.update_self]
      exact same_groupPort hkept hsome hnone hlen hparsed
    · rw [Function.update_of_ne hri, hports]
      exact h.same r (by omega)

/-- Nothing is cut from the idents. -/
private theorem parsedOf_identsText (hN : 0 < (p.filts 0).nprids.toNat) : parsedOf (identsText p) = idList p := by
  obtain ⟨n, hn⟩ : ∃ n, (p.filts 0).nprids.toNat = n + 1 := ⟨_, (Nat.succ_pred_eq_of_pos hN).symm⟩
  have hcut := (@parsedOf_cut p n 0 hn).mpr (Or.inl rfl)
  rw [Nat.sub_zero, List.take_length] at hcut
  exact hcut

private theorem strtok_identsText (hN : 0 < (p.filts 0).nprids.toNat) (hmax : (p.filts 0).nprids.toNat ≤ csMaxprov) :
    ∃ t ts caid, strtok ',' (identsText p) = t :: ts ∧ (parseIdent t).1 = some caid ∧
      (∀ u ∈ ts, (parseIdent u).1 = none) ∧ 1 + ts.length ≤ csMaxprov := by
  obtain ⟨n, hn⟩ : ∃ n, (p.filts 0).nprids.toNat = n + 1 := ⟨_, (Nat.succ_pred_eq_of_pos hN).symm⟩
  have hlen : 5 ≤ (identsText p).length := by
    unfold identsText
    rw [List.length_append, length_hexText]
    have hne : ¬ pridTexts p = [] := by
      unfold pridTexts
      rw [List.map_eq_nil_iff, List.range_eq_nil]
      omega
    rw [if_neg hne, List.length_cons]
    omega
  obtain ⟨t, ts, caid, htokens, hsome, hnone, hle⟩ := @strtok_cut_group p n (identsText p).length hn hlen
  rw [List.take_length] at htokens
  exact ⟨t, ts, caid, htokens, hsome, hnone, by omega⟩

private theorem readUpTo_zero : ReadUpTo ptab n 0 ⟨freshPorts ptab n, 0, 0⟩ :=
  ⟨rfl, rfl, fun _ _ => rfl, fun r hr => absurd hr (Nat.not_lt_zero r)⟩

/-- One kept port after another. -/
private theorem readUpTo_kept (hi : i ≤ n) (hkept : ∀ r < i, (ptab.ports r).Kept r) :
    ∃ s, readPieces ⟨freshPorts ptab n, 0, 0⟩ 0 ((List.range i).map fun i =>
        portPieceOf (ptab.ports i) (identsText (ptab.ports i))) = some s ∧ ReadUpTo ptab n i s := by
  induction i with
  | zero => exact ⟨_, rfl, readUpTo_zero⟩
  | succ i ih =>
    obtain ⟨s, hs, hread⟩ := ih (by omega) fun r hr => hkept r (by omega)
    have hk := hkept i (Nat.lt_succ_self i)
    obtain ⟨t, ts, caid, htokens, hsome, hnone, hlen⟩ := strtok_identsText hk.2.2.1 hk.2.2.2.1
    have hparsed := parsedOf_identsText hk.2.2.1
    unfold parsedOf at hparsed
    rw [htokens] at hparsed
    obtain ⟨s', hs', hread'⟩ := read_leads hread (by omega) hk htokens hsome hnone hlen hparsed
    refine ⟨s', ?_, hread'⟩
    rw [List.range_succ, List.map_append, readPieces_append, hs, Option.bind_some, List.map_singleton,
      readPieces_cons, List.length_map, List.length_range, Nat.zero_add]
    change (readIdents _ 0 (strtok ',' (identsText (ptab.ports i)))).bind _ = _
    rw [hs']
    rfl

end Ports

section Forced

variable {p : NcdPort} {ptab : Ptab} {s s₁ s' : PortRead} {i n r : ℕ} {x t : List Char} {pieces : List PortPiece}
  {v : BitVec 32}

/-- A port that is the same as a fresh one has no filters. -/
private theorem same_freshPort : p.Same (freshPort p) ↔ p.nfilts = 0 ∧ p.EmptyFrom 0 := by
  constructor
  · rintro ⟨-, -, hnfilts, hfilts⟩
    exact ⟨hnfilts, fun f hf _ => ⟨(hfilts f hf).1, (hfilts f hf).2.1⟩⟩
  · rintro ⟨hnfilts, hempty⟩
    refine ⟨rfl, rfl, hnfilts, fun f hf => ?_⟩
    obtain ⟨hcaid, hnprids⟩ := hempty f hf (Nat.zero_le f)
    refine ⟨hcaid, hnprids, fun j hj => ?_⟩
    rw [hnprids] at hj
    exact absurd hj (Nat.not_lt_zero j)

/-- The same as a port with one ident outside of a filter. -/
private theorem same_single : p.Same { freshPort p with
      filts := Function.update (fun _ => emptyFilter) 0 (addPrid emptyFilter 0 v) } ↔
    p.nfilts = 0 ∧ (p.filts 0).caid = 0 ∧ (p.filts 0).nprids = 1 ∧ (p.filts 0).prids 0 = v ∧ p.EmptyFrom 1 := by
  constructor
  · rintro ⟨-, -, hnfilts, hfilts⟩
    obtain ⟨hcaid, hnprids, hprids⟩ := hfilts 0 (by decide)
    dsimp only at hcaid hnprids hprids
    rw [Function.update_self] at hcaid hnprids hprids
    change _ = 0#8 + 1#8 at hnprids
    refine ⟨hnfilts, hcaid, hnprids, ?_, fun f hf hone => ?_⟩
    · rw [hprids 0 (by rw [hnprids]; decide) (by decide)]
      dsimp only [addPrid]
      rw [Function.update_self]
    · have hother := hfilts f hf
      dsimp only at hother
      rw [Function.update_of_ne (by omega)] at hother
      exact ⟨hother.1, hother.2.1⟩
  · rintro ⟨hnfilts, hcaid, hnprids, hprid, hempty⟩
    refine ⟨rfl, rfl, hnfilts, fun f hf => ?_⟩
    dsimp only
    by_cases hf0 : f = 0
    · subst hf0
      rw [Function.update_self]
      refine ⟨hcaid, hnprids, fun j hj _ => ?_⟩
      rw [hnprids] at hj
      have hj0 : j = 0 := Nat.lt_one_iff.mp hj
      rw [hj0, hprid]
      dsimp only [addPrid]
      rw [Function.update_self]
    · obtain ⟨hc, hz⟩ := hempty f hf (by omega)
      rw [Function.update_of_ne hf0]
      refine ⟨hc, hz, fun j hj => ?_⟩
      rw [hz] at hj
      exact absurd hj (Nat.not_lt_zero j)

private theorem identsText_empty (hN : (p.filts 0).nprids.toNat = 0) : (identsText p).length = 4 := by
  have hnil : pridTexts p = [] := by
    unfold pridTexts
    rw [hN]
    rfl
  unfold identsText
  rw [if_pos hnil, List.append_nil, length_hexText]

/-- The idents of a port without any: at most one token, and no filter. -/
private theorem strtok_empty (hN : (p.filts 0).nprids.toNat = 0) (m : ℕ) :
    (m = 0 ∧ strtok ',' ((identsText p).take m) = []) ∨
      (0 < m ∧ ∃ t, strtok ',' ((identsText p).take m) = [t] ∧ (parseIdent t).1 = none) := by
  have hlen := identsText_empty hN
  rcases Nat.eq_zero_or_pos m with rfl | hpos
  · exact Or.inl ⟨rfl, rfl⟩
  · right
    refine ⟨hpos, ?_⟩
    have hmin : (identsText p).take m = (identsText p).take (min m 4) := by
      rw [← hlen]
      exact List.take_eq_take_min
    obtain ⟨t, v, htokens, hparse, -⟩ := @strtok_cut_caid p (min m 4) (by omega) (Nat.min_le_right m 4)
    rw [hmin, htokens]
    exact ⟨t, rfl, by rw [hparse]⟩

private theorem quiet_portPieceOf (hN : p.sPort = 0 → (p.filts 0).nprids.toNat = 0) (m : ℕ) :
    (portPieceOf p ((identsText p).take m)).Quiet := by
  intro hport
  change (strtok ',' ((identsText p).take m)).length ≤ 1 ∧ ∀ t ∈ strtok ',' ((identsText p).take m), _
  rcases strtok_empty (hN hport) m with ⟨-, hnil⟩ | ⟨-, t, htokens, hnone⟩
  · rw [hnil]
    exact ⟨Nat.zero_le 1, fun t ht => absurd ht List.not_mem_nil⟩
  · rw [htokens]
    refine ⟨Nat.le_refl 1, fun u hu => ?_⟩
    rw [List.mem_singleton.mp hu]
    exact hnone

/-- An ident without a filter is one too many for the port in use. -/
private theorem single_too_many (hifilt : s.ifilt = 0) (hlt : s.iport < i) (hnone : (parseIdent t).1 = none)
    (hone : readIdents s 0 [t] = some s₁) (hrest : readPieces s₁ i pieces = some s')
    (hquiet : ∀ q ∈ pieces, q.Quiet) (hlen : pieces.length < csMaxports)
    (hsame : ((s'.ports s.iport).filts 0).nprids = ((s.ports s.iport).filts 0).nprids) : False := by
  have hmax : csMaxports = 200 := rfl
  rw [readIdents_one hnone (by rw [hifilt]; decide)] at hone
  have hs₁ := Option.some.inj hone
  have hiport : s₁.iport = s.iport := by
    rw [← hs₁]
    rfl
  have hfirst : ((s₁.ports s.iport).filts 0).nprids = ((s.ports s.iport).filts 0).nprids + 1 := by
    rw [← hs₁, hifilt]
    unfold PortRead.setPort
    dsimp only
    rw [Function.update_self]
    dsimp only
    rw [Function.update_self]
    rfl
  obtain ⟨c, hc, -, -, hcount, -⟩ := readPieces_quiet hrest (by rw [← hs₁]; exact hifilt) (hiport ▸ hlt) hquiet
  rw [hiport, hfirst, hsame] at hcount
  have hval := congrArg BitVec.toNat hcount
  rw [BitVec.toNat_add, BitVec.toNat_add, BitVec.toNat_ofNat] at hval
  have hbound := ((s.ports s.iport).filts 0).nprids.isLt
  change _ = ((((s.ports s.iport).filts 0).nprids.toNat + 1) % 2 ^ 8 + c % 2 ^ 8) % 2 ^ 8 at hval
  omega

/-- The pieces behind the first. -/
private theorem quiet_drop (hzero : ∀ r, 0 < r → r ≤ n → (ptab.ports r).sPort = 0 →
      ((ptab.ports r).filts 0).nprids.toNat = 0) (m : ℕ) :
    ∀ q ∈ (portPiecesOf ptab n ((identsText (ptab.ports n)).take m)).drop (i + 1), q.Quiet := by
  intro q hq
  obtain ⟨j, hj⟩ := List.mem_iff_getElem?.mp hq
  rw [List.getElem?_drop, getElem?_portPiecesOf] at hj
  split_ifs at hj with hlt heq
  · rw [← Option.some.inj hj]
    have hwhole := @quiet_portPieceOf (ptab.ports (i + 1 + j)) (hzero _ (by omega) (by omega))
      (identsText (ptab.ports (i + 1 + j))).length
    rw [List.take_length] at hwhole
    exact hwhole
  · rw [← Option.some.inj hj]
    exact quiet_portPieceOf (hzero n (by omega) (Nat.le_refl n)) m

/-- A port that is not in use as the others are read is fresh at the end. -/
private theorem fresh_of_not_leads (h : readPieces ⟨freshPorts ptab n, 0, 0⟩ 0 (portPiecesOf ptab n x) = some s')
    (hpos : 0 < r) (hr : r ≤ n) (hport : (ptab.ports r).sPort = 0) : s'.ports r = freshPort (ptab.ports r) := by
  have hsame := readPieces_untouched h (Nat.zero_lt_succ 15) (Nat.ne_of_gt hpos) (r := r) fun j q hj hq => by
    rw [Nat.zero_add] at hj
    subst hj
    rw [getElem?_portPiecesOf] at hq
    split_ifs at hq with hlt heq
    · rw [← Option.some.inj hq]
      exact hport
    · rw [← Option.some.inj hq, ← heq]
      exact hport
  rw [hsame]
  exact freshPorts_of_le hr

/-- All idents of a port are read before the next port. -/
private theorem kept_of_same (hread : ReadUpTo ptab n i s) (hi : i < n) (hn : n < csMaxports)
    (hN : ((ptab.ports i).filts 0).nprids.toNat ≤ csMaxprov)
    (hone : readIdents (startPiece s i (portPieceOf (ptab.ports i) (identsText (ptab.ports i)))) 0
      (strtok ',' (identsText (ptab.ports i))) = some s₁)
    (hrest : readPieces s₁ (i + 1) pieces = some s') (hquiet : ∀ q ∈ pieces, q.Quiet) (hlen : pieces.length ≤ n)
    (hzero : 0 < i → (ptab.ports i).sPort = 0 → ((ptab.ports i).filts 0).nprids.toNat = 0)
    (hsame : ∀ r ≤ i, (ptab.ports r).Same (s'.ports r)) : (ptab.ports i).Kept i ∧ ReadUpTo ptab n (i + 1) s₁ := by
  have hmax : csMaxports = 200 := rfl
  have hpos : 0 < ((ptab.ports i).filts 0).nprids.toNat := by
    by_contra hnone
    have hnil : ((ptab.ports i).filts 0).nprids.toNat = 0 := by omega
    have hfour := identsText_empty hnil
    rcases strtok_empty hnil (identsText (ptab.ports i)).length with ⟨h, -⟩ | ⟨-, t, htokens, hplain⟩
    · omega
    · rw [List.take_length] at htokens
      rw [htokens] at hone
      obtain ⟨hports, hifilt, hiport⟩ := @startPiece_ports s i (portPieceOf (ptab.ports i) (identsText (ptab.ports i)))
      by_cases hleads : (ptab.ports i).Leads i
      · obtain ⟨huse, hfresh, -, -⟩ := @startPiece_leads ptab s i n (identsText (ptab.ports i)) hread
          (Nat.le_of_lt hi) hleads
        apply single_too_many (by rw [hifilt, hread.ifilt]) (by rw [huse]; exact Nat.lt_succ_self i) hplain hone hrest
          hquiet (by omega)
        rw [huse, hfresh, ← (((hsame i (Nat.le_refl i)).2.2.2 0 (by decide)).2.1)]
        exact BitVec.eq_of_toNat_eq hnil
      · unfold NcdPort.Leads at hleads
        rw [not_or, not_not] at hleads
        have huse : (startPiece s i (portPieceOf (ptab.ports i) (identsText (ptab.ports i)))).iport = i - 1 := by
          rw [hiport, if_neg fun h => h hleads.2, hread.iport]
        apply single_too_many (by rw [hifilt, hread.ifilt]) (by rw [huse]; omega) hplain hone hrest hquiet (by omega)
        rw [huse, hports, ← (((hsame (i - 1) (by omega)).2.2.2 0 (by decide)).2.1),
          ((hread.same (i - 1) (by omega)).2.2.2 0 (by decide)).2.1]
  have hleads : (ptab.ports i).Leads i := by
    by_contra hnot
    unfold NcdPort.Leads at hnot
    rw [not_or, not_not] at hnot
    have hnil := hzero (by omega) hnot.2
    omega
  obtain ⟨t, ts, caid, htokens, hsome, hnone, hle⟩ := strtok_identsText hpos hN
  have hparsed := parsedOf_identsText hpos
  unfold parsedOf at hparsed
  rw [htokens] at hparsed
  have hcount : ts.length + 1 = ((ptab.ports i).filts 0).nprids.toNat := by
    have hlen := congrArg List.length hparsed
    unfold idList at hlen
    rw [List.length_map, List.length_map, List.length_range, List.length_cons] at hlen
    exact hlen
  obtain ⟨huse, hfresh, -, -⟩ := @startPiece_leads ptab s i n (identsText (ptab.ports i)) hread (Nat.le_of_lt hi) hleads
  have hgroup := hone
  rw [htokens, read_group (by rw [huse, hfresh]) hsome hnone hle] at hgroup
  have hs₁ := Option.some.inj hgroup
  have hiport : s₁.iport = i := by
    rw [← hs₁]
    exact huse
  have hport : s₁.ports i = groupPort (ptab.ports i) caid ((t :: ts).map fun t => (parseIdent t).2) := by
    rw [← hs₁]
    rw [ports_setGroup, huse, Function.update_self]
  obtain ⟨c, hc, hnfilts, hother, hnprids, -⟩ :=
    readPieces_quiet hrest (by rw [← hs₁]) (by rw [hiport]; exact Nat.lt_succ_self i) hquiet
  rw [hiport, hport] at hnfilts hother hnprids
  obtain ⟨hfirst, hempty⟩ := @groupPort_filts (ptab.ports i) caid ((t :: ts).map fun t => (parseIdent t).2)
  obtain ⟨-, -, hsnfilts, hsfilts⟩ := hsame i (Nat.le_refl i)
  have hkept : (ptab.ports i).Kept i := by
    refine ⟨hleads, hsnfilts.trans hnfilts, hpos, hN, fun f hf hone => ?_⟩
    have hf' := hsfilts f hf
    rw [hother f (by omega), hempty f (by omega)] at hf'
    exact ⟨hf'.1, hf'.2.1⟩
  refine ⟨hkept, ?_⟩
  obtain ⟨s₂, hs₂, hread₂⟩ := read_leads hread (Nat.le_of_lt hi) hkept htokens hsome hnone hle hparsed
  rw [hone] at hs₂
  rw [Option.some.inj hs₂]
  exact hread₂

/-- Every port but the last is kept. -/
private theorem kept_before {m : ℕ} (hn : n < csMaxports)
    (hN : ∀ r < n + 1, ((ptab.ports r).filts 0).nprids.toNat ≤ csMaxprov)
    (h : readPieces ⟨freshPorts ptab n, 0, 0⟩ 0 (portPiecesOf ptab n ((identsText (ptab.ports n)).take m)) = some s')
    (hsame : ∀ r < n + 1, (ptab.ports r).Same (s'.ports r)) (hi : i ≤ n) :
    ∃ s, ReadUpTo ptab n i s ∧
      readPieces s i ((portPiecesOf ptab n ((identsText (ptab.ports n)).take m)).drop i) = some s' ∧
        ∀ r < i, (ptab.ports r).Kept r := by
  have hzero : ∀ r, 0 < r → r ≤ n → (ptab.ports r).sPort = 0 → ((ptab.ports r).filts 0).nprids.toNat = 0 := by
    intro r hpos hr hport
    have hfresh := hsame r (by omega)
    rw [fresh_of_not_leads h hpos hr hport, same_freshPort] at hfresh
    rw [(hfresh.2 0 (by decide) (Nat.le_refl 0)).2]
    rfl
  induction i with
  | zero => exact ⟨_, readUpTo_zero, h, fun r hr => absurd hr (Nat.not_lt_zero r)⟩
  | succ i ih =>
    obtain ⟨s, hread, hrest, hkept⟩ := ih (by omega)
    have hlen : i < (portPiecesOf ptab n ((identsText (ptab.ports n)).take m)).length := by
      rw [length_portPiecesOf]
      omega
    have hpiece := @getElem?_portPiecesOf ((identsText (ptab.ports n)).take m) ptab n i
    rw [if_pos (by omega), List.getElem?_eq_getElem hlen] at hpiece
    rw [List.drop_eq_getElem_cons hlen, Option.some.inj hpiece, readPieces_cons, Option.bind_eq_some_iff] at hrest
    obtain ⟨s₁, hone, hrest⟩ := hrest
    obtain ⟨hk, hread'⟩ := kept_of_same hread (by omega) hn (hN i (by omega)) hone hrest (quiet_drop hzero m)
      (by rw [List.length_drop, length_portPiecesOf]; omega) (fun hpos => hzero i hpos (by omega))
      fun r hr => hsame r (by omega)
    refine ⟨s₁, hread', hrest, fun r hr => ?_⟩
    rcases Nat.lt_or_ge r i with hlt | hge
    · exact hkept r hlt
    · have hri : r = i := by omega
      rw [hri]
      exact hk

end Forced

section Last

variable {p : NcdPort} {ptab : Ptab} {s s' : PortRead} {n k : ℕ} {x : List Char}

private theorem identsText_length (hn : (p.filts 0).nprids.toNat = n + 1) : 11 ≤ (identsText p).length ∧
    (n = 0 → (p.filts 0).prids 0 = 0 → (identsText p).length = 11) := by
  have hsix : ∀ v, 6 ≤ hexWidth 6 v := fun v => Nat.le_max_left _ _
  have htoken : (identToken p 0).length = 5 + hexWidth 6 ((p.filts 0).prids 0) := by
    unfold identToken
    rw [if_pos rfl, List.length_append, List.length_append, length_hexText, length_printfHex (by omega)]
    rfl
  have hfirst := hsix ((p.filts 0).prids 0)
  rw [identsText_eq hn, List.range_succ_eq_map, List.map_cons, joinTokens_cons, List.length_append, htoken]
  refine ⟨by omega, fun hzero hprid => ?_⟩
  rw [hzero, hprid]
  rfl

/-- What is read of the last port when its text is cut by `k` characters. -/
private def LastRead (i : ℕ) (p : NcdPort) (k : ℕ) : Prop :=
  (p.Kept i ∧ (k = 0 ∨ ((p.filts 0).prids ((p.filts 0).nprids.toNat - 1) = 0 ∧
      k ≤ if (p.filts 0).nprids.toNat = 1 then 6 else 5))) ∨
    (p.nfilts = 0 ∧ p.EmptyFrom 0 ∧ k = 4) ∨
    (p.Leads i ∧ p.nfilts = 0 ∧ (p.filts 0).caid = 0 ∧ (p.filts 0).nprids = 1 ∧ (p.filts 0).prids 0 = 0 ∧
      p.EmptyFrom 1 ∧ 7 ≤ k)

private theorem readPieces_last : readPieces s n ((portPiecesOf ptab n x).drop n) =
    readIdents (startPiece s n (portPieceOf (ptab.ports n) x)) 0 (strtok ',' x) := by
  have hlen : ((List.range n).map fun i => portPieceOf (ptab.ports i) (identsText (ptab.ports i))).length = n := by
    rw [List.length_map, List.length_range]
  have hdrop : (portPiecesOf ptab n x).drop n = [portPieceOf (ptab.ports n) x] := by
    unfold portPiecesOf
    rw [List.drop_append_of_le_length (Nat.le_of_eq hlen.symm), List.drop_eq_nil_of_le (Nat.le_of_eq hlen),
      List.nil_append]
  rw [hdrop, readPieces_cons]
  change (readIdents _ 0 (strtok ',' x)).bind some = _
  exact Option.bind_fun_some _

/-- The text that is left of the last port decides. -/
private theorem lastRead_of_same (hread : ReadUpTo ptab n n s) (hN : ((ptab.ports n).filts 0).nprids.toNat ≤ csMaxprov)
    (hk : k ≤ (identsText (ptab.ports n)).length)
    (hone : readIdents (startPiece s n (portPieceOf (ptab.ports n)
        ((identsText (ptab.ports n)).take ((identsText (ptab.ports n)).length - k)))) 0
      (strtok ',' ((identsText (ptab.ports n)).take ((identsText (ptab.ports n)).length - k))) = some s')
    (hfresh : 0 < n → (ptab.ports n).sPort = 0 → s'.ports n = freshPort (ptab.ports n))
    (hsame : ∀ r < n + 1, (ptab.ports r).Same (s'.ports r)) : LastRead n (ptab.ports n) k := by
  have hlast := hsame n (Nat.lt_succ_self n)
  obtain ⟨hports, hifilt, hiport⟩ := @startPiece_ports s n (portPieceOf (ptab.ports n)
    ((identsText (ptab.ports n)).take ((identsText (ptab.ports n)).length - k)))
  by_cases hleads : (ptab.ports n).Leads n
  · obtain ⟨huse, hport, -, -⟩ := @startPiece_leads ptab s n n
      ((identsText (ptab.ports n)).take ((identsText (ptab.ports n)).length - k)) hread (Nat.le_refl n) hleads
    have hnone : (identsText (ptab.ports n)).length - k = 0 →
        (ptab.ports n).nfilts = 0 ∧ (ptab.ports n).EmptyFrom 0 := by
      intro hnil
      rw [hnil] at hone hport
      have hs' := Option.some.inj hone
      rw [← hs', hport, same_freshPort] at hlast
      exact hlast
    have hplain : ∀ t v, strtok ',' ((identsText (ptab.ports n)).take ((identsText (ptab.ports n)).length - k)) = [t] →
        parseIdent t = (none, v) → (ptab.ports n).nfilts = 0 ∧ ((ptab.ports n).filts 0).caid = 0 ∧
          ((ptab.ports n).filts 0).nprids = 1 ∧ ((ptab.ports n).filts 0).prids 0 = v ∧ (ptab.ports n).EmptyFrom 1 := by
      intro t v htokens hparse
      have hifilt0 : (startPiece s n (portPieceOf (ptab.ports n)
          ((identsText (ptab.ports n)).take ((identsText (ptab.ports n)).length - k)))).ifilt = 0 := by
        rw [hifilt, hread.ifilt]
      rw [htokens, readIdents_one (by rw [hparse]) (by rw [hifilt0]; decide)] at hone
      rw [← Option.some.inj hone] at hlast
      rw [ports_setPort, huse, Function.update_self, hport, hifilt0, hparse] at hlast
      exact same_single.mp hlast
    cases hcount : ((ptab.ports n).filts 0).nprids.toNat with
    | zero =>
      have hfour := identsText_empty hcount
      rcases strtok_empty hcount ((identsText (ptab.ports n)).length - k) with ⟨hnil, -⟩ | ⟨-, t, htokens, hparse⟩
      · obtain ⟨hnfilts, hempty⟩ := hnone hnil
        exact Or.inr (Or.inl ⟨hnfilts, hempty, by omega⟩)
      · obtain ⟨-, -, hnprids, -⟩ := hplain t (parseIdent t).2 htokens (by rw [← hparse])
        rw [hnprids] at hcount
        cases hcount
    | succ N =>
      obtain ⟨heleven, hexact⟩ := identsText_length hcount
      rcases Nat.lt_or_ge ((identsText (ptab.ports n)).length - k) 5 with hlt | hge
      · rcases Nat.eq_zero_or_pos ((identsText (ptab.ports n)).length - k) with hnil | hpos
        · obtain ⟨-, hempty⟩ := hnone hnil
          have hzero := (hempty 0 (by decide) (Nat.le_refl 0)).2
          rw [hzero] at hcount
          cases hcount
        · obtain ⟨t, v, htokens, hparse, hv⟩ := @strtok_cut_caid (ptab.ports n) _ hpos (Nat.le_of_lt_succ hlt)
          obtain ⟨hnfilts, hcaid, hnprids, hprid, hempty⟩ := hplain t v htokens hparse
          have hzero : N = 0 := by
            rw [hnprids] at hcount
            exact (Nat.succ.inj hcount).symm
          have hprid0 := hprid.trans (hv hcaid)
          have hall := hexact hzero hprid0
          exact Or.inr (Or.inr ⟨hleads, hnfilts, hcaid, hnprids, hprid0, hempty, by omega⟩)
      · obtain ⟨t, ts, caid, htokens, hsome, hplainRest, hle⟩ := strtok_cut_group hcount hge
        have hlen : 1 + ts.length ≤ csMaxprov := by omega
        rw [htokens, read_group (by rw [huse, hport]) hsome hplainRest hlen] at hone
        rw [← Option.some.inj hone] at hlast
        rw [ports_setGroup, huse, Function.update_self] at hlast
        obtain ⟨hfirst, hempty⟩ := @groupPort_filts (ptab.ports n) caid ((t :: ts).map fun t => (parseIdent t).2)
        obtain ⟨-, -, hnfilts, hfilts⟩ := hlast
        have hparsed : parsedOf ((identsText (ptab.ports n)).take ((identsText (ptab.ports n)).length - k)) =
            idList (ptab.ports n) := by
          unfold parsedOf
          rw [htokens]
          have hzero := hfilts 0 (by decide)
          rw [hfirst] at hzero
          exact (same_addPrids hN hsome hplainRest hlen).mp hzero
        left
        refine ⟨⟨hleads, hnfilts, by omega, hN, fun f hf hf1 => ?_⟩, ?_⟩
        · have hf' := hfilts f hf
          rw [hempty f (by omega)] at hf'
          exact ⟨hf'.1, hf'.2.1⟩
        · rw [parsedOf_cut hcount] at hparsed
          rw [hcount, Nat.add_sub_cancel]
          by_cases hzero : N = 0
          · subst hzero
            exact hparsed
          · rw [if_neg hzero] at hparsed
            rw [if_neg (by omega)]
            exact hparsed
  · unfold NcdPort.Leads at hleads
    rw [not_or, not_not] at hleads
    have hpos : 0 < n := Nat.pos_of_ne_zero hleads.1
    rw [hfresh hpos hleads.2, same_freshPort] at hlast
    have hcount : ((ptab.ports n).filts 0).nprids.toNat = 0 := by
      rw [(hlast.2 0 (by decide) (Nat.le_refl 0)).2]
      rfl
    have hfour := identsText_empty hcount
    rcases strtok_empty hcount ((identsText (ptab.ports n)).length - k) with ⟨hnil, -⟩ | ⟨-, t, htokens, hparse⟩
    · exact Or.inr (Or.inl ⟨hlast.1, hlast.2, by omega⟩)
    · exfalso
      rw [htokens] at hone
      have huse : (startPiece s n (portPieceOf (ptab.ports n)
          ((identsText (ptab.ports n)).take ((identsText (ptab.ports n)).length - k)))).iport = n - 1 := by
        rw [hiport, if_neg fun h => h hleads.2, hread.iport]
      apply single_too_many (by rw [hifilt, hread.ifilt]) (i := n) (by rw [huse]; omega) hparse hone rfl
        (fun q hq => absurd hq List.not_mem_nil) (by decide)
      rw [huse, hports, ← (((hsame (n - 1) (by omega)).2.2.2 0 (by decide)).2.1),
        ((hread.same (n - 1) (by omega)).2.2.2 0 (by decide)).2.1]

/-- The last port comes back from what is left of its text. -/
private theorem same_of_lastRead (hread : ReadUpTo ptab n n s) (hk : k ≤ (identsText (ptab.ports n)).length)
    (hk8 : k ≤ 8) (hlast : LastRead n (ptab.ports n) k) :
    ∃ s', readIdents (startPiece s n (portPieceOf (ptab.ports n)
        ((identsText (ptab.ports n)).take ((identsText (ptab.ports n)).length - k)))) 0
      (strtok ',' ((identsText (ptab.ports n)).take ((identsText (ptab.ports n)).length - k))) = some s' ∧
        ∀ r < n + 1, (ptab.ports r).Same (s'.ports r) := by
  obtain ⟨hports, hifilt, hiport⟩ := @startPiece_ports s n (portPieceOf (ptab.ports n)
    ((identsText (ptab.ports n)).take ((identsText (ptab.ports n)).length - k)))
  rcases hlast with ⟨hkept, hcut⟩ | ⟨hnfilts, hempty, hfour⟩ | ⟨hleads, hnfilts, hcaid, hnprids, hprid, hempty, hseven⟩
  · obtain ⟨N, hN⟩ : ∃ N, ((ptab.ports n).filts 0).nprids.toNat = N + 1 :=
      ⟨_, (Nat.succ_pred_eq_of_pos hkept.2.2.1).symm⟩
    have hmax := hkept.2.2.2.1
    obtain ⟨heleven, -⟩ := identsText_length hN
    have hparsed : parsedOf ((identsText (ptab.ports n)).take ((identsText (ptab.ports n)).length - k)) =
        idList (ptab.ports n) := by
      rw [parsedOf_cut hN]
      rw [hN, Nat.add_sub_cancel] at hcut
      by_cases hzero : N = 0
      · subst hzero
        exact hcut
      · rw [if_neg (by omega)] at hcut
        rw [if_neg hzero]
        exact hcut
    have hsix : k ≤ 6 := by
      rcases hcut with h | ⟨-, h⟩
      · omega
      · split_ifs at h <;> omega
    obtain ⟨t, ts, caid, htokens, hsome, hnone, hle⟩ := @strtok_cut_group (ptab.ports n) N
      ((identsText (ptab.ports n)).length - k) hN (by omega)
    unfold parsedOf at hparsed
    rw [htokens] at hparsed
    obtain ⟨s', hs', hread'⟩ := read_leads hread (Nat.le_refl n) hkept htokens hsome hnone (by omega) hparsed
    exact ⟨s', hs', hread'.same⟩
  · have hcount : ((ptab.ports n).filts 0).nprids.toNat = 0 := by
      rw [(hempty 0 (by decide) (Nat.le_refl 0)).2]
      rfl
    have hlen := identsText_empty hcount
    have hnil : (identsText (ptab.ports n)).length - k = 0 := by omega
    rw [hnil]
    refine ⟨_, rfl, fun r hr => ?_⟩
    rw [startPiece_ports.1]
    rcases Nat.lt_or_ge r n with hlt | hge
    · exact hread.same r hlt
    · have hrn : r = n := by omega
      subst hrn
      rw [hread.fresh r (Nat.le_refl r), freshPorts_of_le (Nat.le_refl r)]
      exact same_freshPort.mpr ⟨hnfilts, hempty⟩
  · have hcount : ((ptab.ports n).filts 0).nprids.toNat = 0 + 1 := by
      rw [hnprids]
      rfl
    have hlen := (identsText_length hcount).2 rfl hprid
    obtain ⟨t, v, htokens, hparse, hv⟩ := @strtok_cut_caid (ptab.ports n)
      ((identsText (ptab.ports n)).length - k) (by omega) (by omega)
    obtain ⟨huse, hport, -, -⟩ := @startPiece_leads ptab s n n
      ((identsText (ptab.ports n)).take ((identsText (ptab.ports n)).length - k)) hread (Nat.le_refl n) hleads
    have hifilt0 : (startPiece s n (portPieceOf (ptab.ports n)
        ((identsText (ptab.ports n)).take ((identsText (ptab.ports n)).length - k)))).ifilt = 0 := by
      rw [hifilt, hread.ifilt]
    rw [htokens, readIdents_one (by rw [hparse]) (by rw [hifilt0]; decide)]
    refine ⟨_, rfl, fun r hr => ?_⟩
    rw [ports_setPort, huse]
    rcases Nat.lt_or_ge r n with hlt | hge
    · rw [Function.update_of_ne (Nat.ne_of_lt hlt), hports]
      exact hread.same r hlt
    · have hrn : r = n := by omega
      rw [hrn, Function.update_self, hport, hifilt0, hparse]
      exact same_single.mpr ⟨hnfilts, hcaid, hnprids, hprid.trans (hv hcaid).symm, hempty⟩

end Last

section Whole

variable {p : NcdPort} {ptab ptab' : Ptab} {n : ℕ} {s : List Char}

private theorem portText_eq : portText p = portFront p ++ '@' :: identsText p := rfl

/-- As long as only idents are cut, the last port keeps its `@`. -/
private theorem cutText_idents (hk : (portsExcess ptab - 1).toNat ≤ (identsText p).length) : cutText ptab p =
    portFront p ++ '@' :: (identsText p).take ((identsText p).length - (portsExcess ptab - 1).toNat) := by
  unfold cutText
  rw [portText_eq, List.length_append, List.length_cons]
  have hsum : (portFront p).length + ((identsText p).length + 1) - (portsExcess ptab - 1).toNat =
      (portFront p).length + ((identsText p).length - (portsExcess ptab - 1).toNat + 1) := by omega
  rw [hsum, List.take_length_add_append, List.take_succ_cons]

private theorem cutText_front (hk : (identsText p).length < (portsExcess ptab - 1).toNat) :
    ∃ m, cutText ptab p = (portFront p).take m := by
  refine ⟨(portText p).length - (portsExcess ptab - 1).toNat, ?_⟩
  unfold cutText
  rw [portText_eq, List.take_append_of_le_length]
  rw [List.length_append, List.length_cons]
  omega

/-- A text has no more ports than tokens. -/
private theorem nports_le (h : chkPortTab s = some ptab) :
    ptab.nports ≤ max 1 (strtok ';' s).length ∧ ptab.nports ≤ csMaxports := by
  have hmax : csMaxports = 200 := rfl
  have hcount : (portPieces s).countP (·.isPort) ≤ (portPieces s).length := List.countP_le_length
  have hlen : (portPieces s).length = min csMaxports (strtok ';' s).length := by
    unfold portPieces
    rw [List.length_map, List.length_take]
  unfold chkPortTab at h
  dsimp only at h
  rw [Option.map_eq_some_iff] at h
  obtain ⟨s', -, rfl⟩ := h
  dsimp only
  split_ifs
  · omega
  · omega

/-- The last port has lost its `@`: its table does not come back. -/
private theorem not_same_of_lost (hn : ptab.nports = n + 1) (hlt : n < csMaxports)
    (hk : (identsText (ptab.ports n)).length < (portsExcess ptab - 1).toNat)
    (h : chkPortTab (joinTokens ';' (((List.range n).map fun i => portText (ptab.ports i)) ++
      [cutText ptab (ptab.ports n)])) = some ptab') : ptab'.nports ≠ n + 1 := by
  intro hnports
  have hlen := @length_portText (ptab.ports n)
  have hfour : 4 ≤ (identsText (ptab.ports n)).length := by
    unfold identsText
    rw [List.length_append, length_hexText]
    omega
  have hneeded : 11 ≤ neededPort (ptab.ports n) := by
    unfold neededPort
    omega
  have halone : n = 0 → 11 ≤ (cutText ptab (ptab.ports n)).length := by
    intro hzero
    subst hzero
    have hexcess : portsExcess ptab = portExcess (ptab.ports 0) := by
      unfold portsExcess
      rw [hn]
      exact Int.add_zero _
    unfold cutText
    rw [List.length_take, hexcess]
    rw [hexcess] at hk
    omega
  by_cases hne : cutText ptab (ptab.ports n) = []
  · have hpos : 0 < n := by
      rcases Nat.eq_zero_or_pos n with hzero | hpos
      · have h11 := halone hzero
        rw [hne, List.length_nil] at h11
        omega
      · exact hpos
    have hle := (nports_le h).1
    have hone : ¬ (List.range n).map (fun i => portText (ptab.ports i)) = [] := by
      rw [List.map_eq_nil_iff, List.range_eq_nil]
      omega
    rw [hne, joinTokens_concat, if_neg hone, strtok_append_delim, strtok_joinTokens areTokens_portText, strtok_nil,
      List.append_nil, List.length_map, List.length_range] at hle
    omega
  · obtain ⟨hzero, hsix⟩ := chkPortTab_lost hlt hne (cutText_front hk) h hnports
    have h11 := halone hzero
    omega

private theorem lastText_length : (lastText p).length =
    if (p.filts 0).nprids.toNat = 0 then 5
    else 1 + hexWidth 6 ((p.filts 0).prids ((p.filts 0).nprids.toNat - 1)) := by
  unfold lastText
  split_ifs with hnone
  · rw [List.length_cons, length_printfHex (by omega), hexWidth_of_lt (by omega) toNat_caid]
  · rw [List.length_cons, length_printfHex (by omega), Nat.add_comm]
  · rw [List.length_cons, length_printfHex (by omega), Nat.add_comm]

/-- The last port is kept if it is printed inside the buffer and read from what is left of it. -/
private theorem lastKept_iff {i : ℕ} {excess : ℤ} : p.LastKept i excess ↔
    (p.filts 0).nprids.toNat ≤ csMaxprov ∧ excess ≤ (lastText p).length + 2 ∧
      (excess - 1).toNat ≤ (identsText p).length ∧ LastRead i p (excess - 1).toNat := by
  have hmax : csMaxprov = 128 := rfl
  have hempty : p.EmptyFrom 0 → (p.filts 0).nprids.toNat = 0 := by
    intro h
    rw [(h 0 (by decide) (Nat.le_refl 0)).2]
    rfl
  rw [lastText_length]
  constructor
  · rintro (⟨hkept, hcut⟩ | ⟨hnfilts, hnone, hfive⟩ | ⟨hleads, hnfilts, hcaid, hnprids, hprid, hone, hexcess⟩)
    · obtain ⟨N, hN⟩ : ∃ N, (p.filts 0).nprids.toNat = N + 1 := ⟨_, (Nat.succ_pred_eq_of_pos hkept.2.2.1).symm⟩
      obtain ⟨heleven, -⟩ := identsText_length hN
      have hseven : excess ≤ 7 := by
        rcases hcut with h | ⟨-, h⟩
        · omega
        · split_ifs at h <;> omega
      have hsix : 6 ≤ hexWidth 6 ((p.filts 0).prids ((p.filts 0).nprids.toNat - 1)) := Nat.le_max_left _ _
      refine ⟨hkept.2.2.2.1, ?_, by omega, Or.inl ⟨hkept, ?_⟩⟩
      · rw [if_neg (by omega)]
        omega
      · rcases hcut with h | ⟨hzero, h⟩
        · exact Or.inl (by omega)
        · refine Or.inr ⟨hzero, ?_⟩
          split_ifs at h ⊢ <;> omega
    · have hnil := hempty hnone
      have hfour := identsText_empty hnil
      rw [if_pos hnil, hnil, hfour]
      exact ⟨Nat.zero_le _, by omega, by omega, Or.inr (Or.inl ⟨hnfilts, hnone, by omega⟩)⟩
    · have hN : (p.filts 0).nprids.toNat = 0 + 1 := by
        rw [hnprids]
        rfl
      have heleven := (identsText_length hN).2 rfl hprid
      have hsix : 6 ≤ hexWidth 6 ((p.filts 0).prids ((p.filts 0).nprids.toNat - 1)) := Nat.le_max_left _ _
      rw [if_neg (by omega), heleven]
      exact ⟨by omega, by omega, by omega,
        Or.inr (Or.inr ⟨hleads, hnfilts, hcaid, hnprids, hprid, hone, by omega⟩)⟩
  · rintro ⟨hN, hfit, hk, ⟨hkept, hcut⟩ | ⟨hnfilts, hnone, hfour⟩ |
      ⟨hleads, hnfilts, hcaid, hnprids, hprid, hone, hseven⟩⟩
    · left
      refine ⟨hkept, ?_⟩
      rcases hcut with h | ⟨hzero, h⟩
      · exact Or.inl (by omega)
      · refine Or.inr ⟨hzero, ?_⟩
        split_ifs at h ⊢ <;> omega
    · exact Or.inr (Or.inl ⟨hnfilts, hnone, by omega⟩)
    · have hN1 : (p.filts 0).nprids.toNat = 1 := by
        rw [hnprids]
        rfl
      have hwidth : hexWidth 6 (0 : BitVec 32) = 6 := by decide
      rw [hN1, if_neg (by decide), Nat.sub_self, hprid, hwidth] at hfit
      exact Or.inr (Or.inr ⟨hleads, hnfilts, hcaid, hnprids, hprid, hone, by omega⟩)

/-- The tables with ports that come back. -/
private theorem portsKept_iff (hn : ptab.nports = n + 1) (hlt : n < csMaxports) :
    (∃ text, mkTNewcamdPort ptab = some text ∧ ∃ ptab', chkPortTab text = some ptab' ∧ ptab.Same ptab') ↔
      PortsKept ptab := by
  have hkept : PortsKept ptab ↔
      (∀ i < n, (ptab.ports i).Kept i) ∧ (ptab.ports n).LastKept n (portsExcess ptab) := by
    unfold PortsKept
    rw [hn]
    constructor
    · rintro ⟨hbefore, hlast⟩
      exact ⟨fun i hi => hbefore i (by omega), hlast n rfl⟩
    · rintro ⟨hbefore, hlast⟩
      refine ⟨fun i hi => hbefore i (by omega), fun i hi => ?_⟩
      rw [Nat.succ.inj hi]
      exact hlast
  rw [hkept, lastKept_iff, mkTNewcamdPort_eq hn]
  constructor
  · rintro ⟨text, htext, ptab', hread, hnports, hsame⟩
    split_ifs at htext with hfits
    obtain ⟨hN, hfit⟩ := hfits
    rw [← Option.some.inj htext] at hread
    rw [hn] at hnports hsame
    rcases Nat.lt_or_ge (identsText (ptab.ports n)).length (portsExcess ptab - 1).toNat with hlost | hk
    · exact absurd hnports.symm (not_same_of_lost hn hlt hlost hread)
    · rw [cutText_idents hk, chkPortTab_text hlt (identChars_take _), Option.map_eq_some_iff] at hread
      obtain ⟨s', hs', rfl⟩ := hread
      obtain ⟨s, hup, hlast, hbefore⟩ := kept_before hlt hN hs' hsame (Nat.le_refl n)
      rw [readPieces_last] at hlast
      exact ⟨hbefore, hN n (Nat.lt_succ_self n), hfit, hk, lastRead_of_same hup (hN n (Nat.lt_succ_self n)) hk hlast
        (fun hpos hport => fresh_of_not_leads hs' hpos (Nat.le_refl n) hport) hsame⟩
  · rintro ⟨hbefore, hN, hfit, hk, hlast⟩
    have hall : ∀ i < n + 1, ((ptab.ports i).filts 0).nprids.toNat ≤ csMaxprov := by
      intro i hi
      rcases Nat.lt_or_ge i n with h | h
      · exact (hbefore i h).2.2.2.1
      · have hin : i = n := by omega
        rw [hin]
        exact hN
    have height : (portsExcess ptab - 1).toNat ≤ 8 := by
      rcases hlast with ⟨-, hcut⟩ | ⟨-, -, hfour⟩ | ⟨-, -, -, hnprids, hprid, -, -⟩
      · rcases hcut with h | ⟨-, h⟩
        · omega
        · split_ifs at h <;> omega
      · omega
      · have hN1 : ((ptab.ports n).filts 0).nprids.toNat = 1 := by
          rw [hnprids]
          rfl
        have hwidth : hexWidth 6 (0 : BitVec 32) = 6 := by decide
        rw [lastText_length, hN1, if_neg (by decide), Nat.sub_self, hprid, hwidth] at hfit
        omega
    have hptr : ∀ x, (portPieceOf (ptab.ports n) x).ptr = x := fun _ => rfl
    refine ⟨_, if_pos ⟨hall, hfit⟩, ?_⟩
    obtain ⟨s, hs, hup⟩ := readUpTo_kept (Nat.le_refl n) hbefore
    obtain ⟨s', hs', hsame⟩ := same_of_lastRead hup hk height hlast
    refine ⟨⟨n + 1, s'.ports⟩, ?_, hn, fun i hi => hsame i (by omega)⟩
    rw [cutText_idents hk, chkPortTab_text hlt (identChars_take _)]
    unfold portPiecesOf
    rw [readPieces_append, hs, Option.bind_some, readPieces_cons, List.length_map, List.length_range, Nat.zero_add,
      hptr, hs']
    rfl

private theorem kept_nil (hn : ptab.nports = 0) : PortsKept ptab := by
  unfold PortsKept
  rw [hn]
  exact ⟨fun i hi => absurd hi (Nat.not_lt_zero _), fun i hi => absurd hi (Nat.succ_ne_zero i)⟩

private theorem back_nil (hn : ptab.nports = 0) :
    ∃ text, mkTNewcamdPort ptab = some text ∧ ∃ ptab', chkPortTab text = some ptab' ∧ ptab.Same ptab' := by
  refine ⟨[], ?_, _, rfl, hn, fun i hi => ?_⟩
  · unfold mkTNewcamdPort
    rw [hn]
    rfl
  · rw [hn] at hi
    exact absurd hi (Nat.not_lt_zero i)

/-- Every filter has its place exactly if no port has more than sixteen. -/
private theorem chkPortTab_isSome_iff : (chkPortTab s).isSome ↔
    ∀ r, filterCount r 0 0 (portPieces s) ≤ ncdMaxfilts := by
  unfold chkPortTab
  dsimp only
  rw [Option.isSome_map]
  have hports : ∀ ports : ℕ → NcdPort, (∀ r, (ports r).nfilts = 0) →
      ((readPieces ⟨ports, 0, 0⟩ 0 (portPieces s)).isSome ↔
        ∀ r, filterCount r 0 0 (portPieces s) ≤ ncdMaxfilts) := by
    intro ports hzero
    rw [readPieces_isSome_iff (Nat.zero_lt_succ 15) fun r => by rw [hzero r]; exact Nat.zero_le _]
    refine forall_congr' fun r => ?_
    rw [hzero r, Nat.zero_add]
  have hfresh : ∀ r : ℕ, ((portPieces s)[r]?.elim (⟨0, none, 0, fun _ => emptyFilter⟩ : NcdPort) fun p : PortPiece =>
      ⟨p.sPort, p.ncdKey, 0, fun _ => emptyFilter⟩).nfilts = 0 := by
    intro r
    cases (portPieces s)[r]? <;> rfl
  apply hports
  intro r
  split_ifs
  · by_cases hr : r = 0
    · rw [hr, Function.update_self]
      exact hfresh 0
    · rw [Function.update_of_ne hr]
      exact hfresh r
  · exact hfresh r

/-- The text of a table stays in its buffer and gives the same ports exactly for the tables that are kept, and every
filter has its place exactly if no port has more than sixteen. -/
theorem mkTNewcamdPort_chkPortTab (portasc : List Char) :
    (∃ ptab, chkPortTab portasc = some ptab ∧ ∃ text, mkTNewcamdPort ptab = some text ∧
      ∃ ptab', chkPortTab text = some ptab' ∧ ptab.Same ptab') ↔
        (∀ r, filterCount r 0 0 (portPieces portasc) ≤ ncdMaxfilts) ∧
          ∀ ptab, chkPortTab portasc = some ptab → PortsKept ptab := by
  rw [← chkPortTab_isSome_iff]
  cases hread : chkPortTab portasc with
  | none =>
    constructor
    · rintro ⟨ptab, h, -⟩
      cases h
    · rintro ⟨h, -⟩
      cases h
  | some ptab =>
    have hback : (∃ text, mkTNewcamdPort ptab = some text ∧ ∃ ptab', chkPortTab text = some ptab' ∧ ptab.Same ptab') ↔
        PortsKept ptab := by
      cases hn : ptab.nports with
      | zero => exact ⟨fun _ => kept_nil hn, fun _ => back_nil hn⟩
      | succ n =>
        apply portsKept_iff hn
        have hle := (nports_le hread).2
        omega
    constructor
    · rintro ⟨ptab', h, htext⟩
      refine ⟨rfl, fun ptab'' h' => ?_⟩
      rw [← Option.some.inj h']
      rw [← Option.some.inj h] at htext
      exact hback.mp htext
    · rintro ⟨-, h⟩
      exact ⟨ptab, rfl, hback.mpr (h ptab rfl)⟩

/-- Only the first filter of a port is printed. -/
theorem second_filter_lost : ¬ ∀ portasc : List Char,
    ∃ ptab, chkPortTab portasc = some ptab ∧ ∃ text, mkTNewcamdPort ptab = some text ∧
      ∃ ptab', chkPortTab text = some ptab' ∧ ptab.Same ptab' := by
  intro h
  obtain ⟨ptab, hread, text, htext, ptab', hback, hsame⟩ := h "12000@500:1,600:2".toList
  have hfirst : (chkPortTab "12000@500:1,600:2".toList).map (fun ptab => (ptab.nports, (ptab.ports 0).nfilts)) =
      some (1, 2) := by
    decide +kernel
  have hagain : ((chkPortTab "12000@500:1,600:2".toList).bind mkTNewcamdPort).bind (fun text =>
      (chkPortTab text).map fun ptab => (ptab.ports 0).nfilts) = some 1 := by
    decide +kernel
  rw [hread, Option.map_some] at hfirst
  rw [hread, Option.bind_some, htext, Option.bind_some, hback, Option.map_some] at hagain
  obtain ⟨hn, hnfilts⟩ := Prod.mk.inj (Option.some.inj hfirst)
  have hport := (hsame.2 0 (by omega)).2.2.1
  rw [hnfilts, Option.some.inj hagain] at hport
  cases hport

end Whole

end NCam.Conf
