import NCam.Conf.Caidtab

/-! The beta tunnels: `chk_tuntab` reads a setting, `mk_t_tuntab` writes it back. -/
namespace NCam.Conf

open NCam.Util NCam.Ecm NCam.Cacheex.FeatureTrigger

deriving instance DecidableEq for TuntabData

abbrev Tuntab := List TuntabData

/-- The texts that the first '.' and the first ':' leave: caid, service id and, if there is one, target caid. -/
def cutTun (ptr : List Char) : Option (List Char × List Char × Option (List Char)) :=
  match cutAt '.' ptr with
  | (_, none) => none
  | (front, some rest) =>
    match cutAt ':' front with
    | (caid, some caidto) => some (caid, rest, some caidto)
    | (caid, none) => some (caid, (cutAt ':' rest).1, (cutAt ':' rest).2)

/-- The fields in the order in which `a2i` reads them. -/
def tunFields (caid srvid : List Char) (caidto : Option (List Char)) : List (List Char) :=
  [caid, srvid] ++ caidto.toList

/-- `errno == EINVAL` behind the calls of `a2i`, each of which sets `errno` anew. -/
def einvalAfter (fields : List (List Char)) : Bool := fields.foldl (fun _ asc => !a2iValid asc 2) false

/-- The numbers of one tunnel; those of malformed fields are the ones that `a2i` returns for them. -/
def readTun (caid srvid : List Char) (caidto : Option (List Char)) : TuntabData where
  btCaidfrom := (a2i caid 2).setWidth 16
  btSrvid := (a2i srvid 2).setWidth 16
  btCaidto := caidto.elim 0 fun caidto => (a2i caidto 2).setWidth 16

/-- The entry is stored: one of its numbers is not zero. -/
def SomeTun (d : TuntabData) : Prop := d.btCaidfrom ||| d.btSrvid ||| d.btCaidto ≠ 0

instance (d : TuntabData) : Decidable (SomeTun d) := inferInstanceAs (Decidable (_ ≠ _))

/-- One `caid.srvid[:caid]`. -/
def chkTun (ptr : List Char) : Option TuntabData :=
  (cutTun (trim ptr)).bind fun (caid, srvid, caidto) =>
    if einvalAfter (tunFields caid srvid caidto) = false ∧ SomeTun (readTun caid srvid caidto) then
      some (readTun caid srvid caidto)
    else none

def chkTuntab (tunasc : List Char) : Tuntab := (strtok ',' tunasc).filterMap chkTun

/-- The texts of the `snprintf` calls for one entry. -/
def printTun (comma : List Char) (d : TuntabData) : List (List Char) :=
  [comma ++ printfHex 4 (d.btCaidfrom.setWidth 32), '.' :: printfHex 4 (d.btSrvid.setWidth 32)] ++
    if d.btCaidto ≠ 0 then [':' :: printfHex 4 (d.btCaidto.setWidth 32)] else []

/-- The text that `mk_t_tuntab` leaves in its buffer, unless it writes behind it. -/
def mkTTuntab (ttab : Tuntab) : Option (List Char) :=
  match ttab with
  | [] => some []
  | d :: ds => snprintfs (16 * ttab.length) (printTun [] d ++ ds.flatMap (printTun [','])) 0 []

/-- The tunnel that an entry stands for: all of its fields are well formed, and not all are zero. -/
def tunnel (ptr : List Char) : Option TuntabData :=
  (cutTun (trim ptr)).bind fun (caid, srvid, caidto) =>
    if (∀ asc ∈ tunFields caid srvid caidto, a2iValid asc 2 = true) ∧ SomeTun (readTun caid srvid caidto) then
      some (readTun caid srvid caidto)
    else none

/-- The table holds the tunnels of the setting, and it is written and read back as itself. -/
def TunnelsRead (tunasc : List Char) : Prop :=
  chkTuntab tunasc = (strtok ',' tunasc).filterMap tunnel ∧
    ∃ text, mkTTuntab (chkTuntab tunasc) = some text ∧ chkTuntab text = chkTuntab tunasc

section Entry

variable {d : TuntabData} {asc caid srvid ptr : List Char} {caidto : Option (List Char)}
  {fields : List (List Char)}

/-- `a2i` returns its error value for a malformed field. -/
private theorem a2iLoop_invalid {l : List Char} {n i : ℕ} {rc : BitVec 32}
    (h : ((l.take n).all fun c => (gethexval c).isSome) = false) : a2iLoop false n i l rc = 0x1f1f1f := by
  induction n generalizing l i rc with
  | zero => simp at h
  | succ n ih =>
    cases l with
    | nil => simp at h
    | cons c l =>
      unfold a2iLoop
      cases hc : gethexval c with
      | none => rfl
      | some v =>
        rw [List.take_succ_cons, List.all_cons, hc, Option.isSome_some, Bool.true_and] at h
        exact ih h

private theorem a2i_invalid (h : a2iValid asc 2 = false) : (a2i asc 2).setWidth 16 = 0x1f1f := by
  have hloop : a2i asc 2 = 0x1f1f1f := a2iLoop_invalid h
  rw [hloop]
  rfl

private theorem einvalAfter_append (fields : List (List Char)) : einvalAfter (fields ++ [asc]) = !a2iValid asc 2 := by
  unfold einvalAfter
  rw [List.foldl_append]
  rfl

/-- Only the last of the calls decides. -/
private theorem einvalAfter_tunFields :
    einvalAfter (tunFields caid srvid caidto) = !a2iValid (caidto.getD srvid) 2 := by
  unfold tunFields
  cases caidto with
  | none => exact einvalAfter_append [caid]
  | some caidto => exact einvalAfter_append [caid, srvid]

private theorem or_ne_zero_iff {x y : BitVec 16} : x ||| y ≠ 0 ↔ x ≠ 0 ∨ y ≠ 0 := by
  rw [← not_and_or, not_iff_not]
  exact BitVec.or_eq_zero_iff

theorem someTun_iff : SomeTun d ↔ d.btCaidfrom ≠ 0 ∨ d.btSrvid ≠ 0 ∨ d.btCaidto ≠ 0 := by
  unfold SomeTun
  rw [or_ne_zero_iff, or_ne_zero_iff, or_assoc]

/-- A malformed field makes the entry one that is not zero. -/
private theorem someTun_of_invalid (hasc : asc ∈ tunFields caid srvid caidto) (h : a2iValid asc 2 = false) :
    SomeTun (readTun caid srvid caidto) := by
  have hne : (a2i asc 2).setWidth 16 ≠ 0 := by
    rw [a2i_invalid h]
    decide
  rw [someTun_iff]
  unfold tunFields at hasc
  rcases List.mem_append.mp hasc with hasc | hasc
  · rcases List.mem_cons.mp hasc with rfl | hasc
    · exact Or.inl hne
    · rw [List.mem_singleton] at hasc
      rw [hasc] at hne
      exact Or.inr (Or.inl hne)
  · rw [Option.mem_toList] at hasc
    rw [hasc]
    exact Or.inr (Or.inr hne)

/-- What is well formed is read as it is. -/
theorem chkTun_of_tunnel (h : tunnel ptr = some d) : chkTun ptr = some d := by
  obtain ⟨⟨caid, srvid, caidto⟩, hcut, hread⟩ := Option.bind_eq_some_iff.mp h
  dsimp only at hread
  rw [Option.ite_none_right_eq_some] at hread
  obtain ⟨⟨hvalid, hsome⟩, hd⟩ := hread
  have hlast : caidto.getD srvid ∈ tunFields caid srvid caidto := by
    unfold tunFields
    cases caidto <;> simp
  unfold chkTun
  rw [hcut]
  dsimp only [Option.bind_some]
  rw [einvalAfter_tunFields, hvalid _ hlast, if_pos ⟨rfl, hsome⟩, hd]

/-- An entry is taken for a tunnel by mistake when only its last field is well formed. -/
private theorem chkTun_eq_tunnel_iff : chkTun ptr = tunnel ptr ↔
    ∀ caid srvid caidto, cutTun (trim ptr) = some (caid, srvid, caidto) →
      a2iValid (caidto.getD srvid) 2 = true → a2iValid caid 2 = true ∧ a2iValid srvid 2 = true := by
  unfold chkTun tunnel
  cases hcut : cutTun (trim ptr) with
  | none => simp
  | some fields =>
    obtain ⟨caid, srvid, caidto⟩ := fields
    dsimp only [Option.bind_some]
    rw [einvalAfter_tunFields]
    have hall : (∀ asc ∈ tunFields caid srvid caidto, a2iValid asc 2 = true) ↔
        a2iValid caid 2 = true ∧ a2iValid srvid 2 = true ∧ a2iValid (caidto.getD srvid) 2 = true := by
      unfold tunFields
      cases caidto <;> simp
    constructor
    · rintro heq _ _ _ ⟨rfl⟩ hlast
      by_contra hbad
      have hinvalid : ∃ asc ∈ tunFields caid srvid caidto, a2iValid asc 2 = false := by
        by_contra hnone
        push Not at hnone
        have hvalid := hall.mp fun asc hasc => by simpa using hnone asc hasc
        exact hbad ⟨hvalid.1, hvalid.2.1⟩
      obtain ⟨asc, hasc, hasc'⟩ := hinvalid
      rw [hlast, if_pos ⟨rfl, someTun_of_invalid hasc hasc'⟩, if_neg fun h => hbad ⟨(hall.mp h.1).1,
        (hall.mp h.1).2.1⟩] at heq
      cases heq
    · intro hcond
      have hiff : (!a2iValid (caidto.getD srvid) 2) = false ↔
          ∀ asc ∈ tunFields caid srvid caidto, a2iValid asc 2 = true := by
        rw [hall, Bool.not_eq_false']
        constructor
        · intro hlast
          obtain ⟨hcaid, hsrvid⟩ := hcond _ _ _ rfl hlast
          exact ⟨hcaid, hsrvid, hlast⟩
        · exact fun h => h.2.2
      simp only [hiff]

/-- One tunnel as it is written. -/
def tunText (d : TuntabData) : List Char :=
  hexText 4 (d.btCaidfrom.setWidth 32) ++ '.' :: (hexText 4 (d.btSrvid.setWidth 32) ++
    if d.btCaidto ≠ 0 then ':' :: hexText 4 (d.btCaidto.setWidth 32) else [])

theorem flatten_printTun (comma : List Char) : (printTun comma d).flatten = comma ++ tunText d := by
  have hfour : ∀ v : BitVec 16, printfHex 4 (v.setWidth 32) = hexText 4 (v.setWidth 32) := by
    intro v
    rw [printfHex_eq (by omega), hexWidth_of_lt (by omega) toNat_caid]
  unfold printTun tunText
  rw [hfour, hfour, hfour]
  split_ifs <;> simp

theorem length_tunText : (tunText d).length ≤ 14 := by
  unfold tunText
  split_ifs <;> simp [length_hexText]

/-- The characters of a written tunnel. -/
private theorem notMem_tunText {c : Char} (hc : gethexval c = none) (hdot : c ≠ '.') (hcolon : c ≠ ':') :
    c ∉ tunText d := by
  unfold tunText
  split_ifs <;> simp [notMem_hexText hc, hdot, hcolon]

private theorem cutTun_tunText : cutTun (trim (tunText d)) =
    some (hexText 4 (d.btCaidfrom.setWidth 32), hexText 4 (d.btSrvid.setWidth 32),
      if d.btCaidto ≠ 0 then some (hexText 4 (d.btCaidto.setWidth 32)) else none) := by
  have htrim : trim (tunText d) = tunText d := by
    apply trim_of_noBlank
    intro c hc
    cases hb : isBlank c with
    | false => rfl
    | true =>
      exfalso
      unfold isBlank at hb
      simp only [Bool.or_eq_true, decide_eq_true_eq] at hb
      rcases hb with ((rfl | rfl) | rfl) | rfl
      · exact notMem_tunText rfl (by decide) (by decide) hc
      · exact notMem_tunText rfl (by decide) (by decide) hc
      · exact notMem_tunText rfl (by decide) (by decide) hc
      · exact notMem_tunText rfl (by decide) (by decide) hc
  have hdot : ∀ v : BitVec 32, '.' ∉ hexText 4 v := fun v => notMem_hexText rfl
  have hcolon : ∀ v : BitVec 32, ':' ∉ hexText 4 v := fun v => notMem_hexText rfl
  rw [htrim]
  unfold cutTun tunText
  rw [cutAt_append (hdot _)]
  dsimp only
  rw [cutAt_of_notMem (hcolon _)]
  dsimp only
  split_ifs with hto
  · rw [cutAt_append (hcolon _)]
  · rw [List.append_nil, cutAt_of_notMem (hcolon _)]

/-- Reading one written tunnel. -/
theorem chkTun_tunText (h : SomeTun d) : chkTun (tunText d) = some d := by
  have hread : ∀ v : BitVec 16, (a2i (hexText 4 (v.setWidth 32)) 2).setWidth 16 = v :=
    fun v => read_caid (by omega) toNat_caid
  have hself : readTun (hexText 4 (d.btCaidfrom.setWidth 32)) (hexText 4 (d.btSrvid.setWidth 32))
      (if d.btCaidto ≠ 0 then some (hexText 4 (d.btCaidto.setWidth 32)) else none) = d := by
    unfold readTun
    rw [hread, hread]
    by_cases hto : d.btCaidto ≠ 0
    · rw [if_pos hto, Option.elim_some, hread]
    · rw [if_neg hto, Option.elim_none, ← not_not.mp hto]
  unfold chkTun
  rw [cutTun_tunText]
  dsimp only [Option.bind_some]
  rw [einvalAfter_tunFields, hself, if_pos]
  refine ⟨?_, h⟩
  split_ifs <;> simp [a2iValid_hexText]

end Entry

section Table

variable {tunasc : List Char} {ttab : Tuntab}

theorem chkTuntab_some : ∀ d ∈ chkTuntab tunasc, SomeTun d := by
  intro d hd
  obtain ⟨ptr, -, hchk⟩ := List.mem_filterMap.mp hd
  obtain ⟨⟨caid, srvid, caidto⟩, -, hread⟩ := Option.bind_eq_some_iff.mp hchk
  dsimp only at hread
  rw [Option.ite_none_right_eq_some] at hread
  rw [← Option.some.inj hread.2]
  exact hread.1.2

/-- The buffer holds the whole text. -/
theorem mkTTuntab_eq : mkTTuntab ttab = some (joinTokens ',' (ttab.map tunText)) := by
  cases ttab with
  | nil => rfl
  | cons d ds =>
    have hlen : ∀ e ∈ d :: ds, (tunText e).length ≤ 15 := by
      intro e _
      have he := @length_tunText e
      omega
    exact snprintfs_entries (fun comma e => flatten_printTun comma) hlen

theorem chkTuntab_joinTokens (h : ∀ d ∈ ttab, SomeTun d) :
    chkTuntab (joinTokens ',' (ttab.map tunText)) = ttab := by
  apply parse_joinTokens
  · intro t ht
    obtain ⟨d, -, rfl⟩ := List.mem_map.mp ht
    refine ⟨?_, notMem_tunText rfl (by decide) (by decide)⟩
    unfold tunText
    simp
  · rw [List.map_map]
    exact List.map_congr_left fun d hd => chkTun_tunText (h d hd)

/-- The tunnels are read as they should be exactly from the settings in which no entry has a well-formed last
field behind a malformed one. -/
theorem tunnelsRead_iff (tunasc : List Char) : TunnelsRead tunasc ↔
    ∀ ptr ∈ strtok ',' tunasc, ∀ caid srvid caidto, cutTun (trim ptr) = some (caid, srvid, caidto) →
      a2iValid (caidto.getD srvid) 2 = true → a2iValid caid 2 = true ∧ a2iValid srvid 2 = true := by
  have hagain : ∃ text, mkTTuntab (chkTuntab tunasc) = some text ∧ chkTuntab text = chkTuntab tunasc :=
    ⟨_, mkTTuntab_eq, chkTuntab_joinTokens chkTuntab_some⟩
  unfold TunnelsRead
  rw [and_iff_left hagain]
  unfold chkTuntab
  rw [filterMap_eq_iff fun ptr _ d hd => chkTun_of_tunnel hd]
  exact forall₂_congr fun ptr _ => chkTun_eq_tunnel_iff

/-- The malformed caid in front is not noticed. -/
theorem bad_caid_tunneled : ¬ ∀ tunasc : List Char, TunnelsRead tunasc := by
  intro h
  have htable := (h "zzzz.007A:1702".toList).1
  have hbad : chkTuntab "zzzz.007A:1702".toList = [⟨0x1f1f, 0x1702, 0x007a⟩] := by decide +kernel
  have hgood : (strtok ',' "zzzz.007A:1702".toList).filterMap tunnel = [] := by decide +kernel
  rw [hbad, hgood] at htable
  cases htable

end Table

end NCam.Conf
