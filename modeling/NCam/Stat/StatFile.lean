import NCam.Util.Decimal
import NCam.Util.Printf
import Mathlib.Data.List.Infix

/-! The file of the load balancer's statistics: `save_stat_to_file_thread` writes a line for every entry that is
not outdated, `load_stat_from_file` gives each entry it reads to the first reader with the label of its line. Which
statistics a reader has after they were saved and loaded. -/
namespace NCam.Stat

open NCam.Util

/-- `LINESIZE`. -/
def linesize : ℕ := 1024

structure Timeb where
  time : BitVec 64
  millitm : BitVec 16
  deriving DecidableEq

/-- `comp_timeb`, in milliseconds. -/
def compTimeb (tpa tpb : Timeb) : BitVec 64 :=
  (tpa.time - tpb.time) * 1000 + (tpa.millitm.setWidth 64 - tpb.millitm.setWidth 64)

/-- `READER_STAT` without the times of the last answers, which are not written. -/
structure ReaderStat where
  rc : BitVec 32
  caid : BitVec 16
  prid : BitVec 32
  srvid : BitVec 16
  chid : BitVec 32
  ecmlen : BitVec 16
  lastReceived : Timeb
  ecmCount : BitVec 32
  timeAvg : BitVec 32
  failFactor : BitVec 32
  deriving DecidableEq

/-- What `reader_label_fn` leaves in the 64 characters of a label. -/
structure Label where
  chars : List Char
  noSpace : ' ' ∉ chars
  noNewline : '\n' ∉ chars
  fits : chars.length < 64

/-- `lb_stat` is empty where it is a null pointer. -/
structure Reader where
  label : Label
  lbStat : List ReaderStat

/-- The fields `get_stat` compares. -/
structure Key where
  caid : BitVec 16
  prid : BitVec 32
  srvid : BitVec 16
  chid : BitVec 32
  ecmlen : BitVec 16
  deriving DecidableEq

def ReaderStat.key (s : ReaderStat) : Key := ⟨s.caid, s.prid, s.srvid, s.chid, s.ecmlen⟩

def cleanupTimeout (lbStatCleanup : BitVec 32) : BitVec 32 := lbStatCleanup * 60 * 60 * 1000

/-- The entries of a reader that are not removed before the file is written. -/
def keptStats (ts : Timeb) (lbStatCleanup : BitVec 32) (rdr : Reader) : List ReaderStat :=
  rdr.lbStat.filter fun s =>
    ¬ ((cleanupTimeout lbStatCleanup).toInt < (compTimeb ts s.lastReceived).toInt ∨ s.ecmlen = 0)

/-- The texts of `"%d,%04hX,%06X,%04hX,%04hX,%d,%d,%ld,%d,%02hX"`, behind the label. -/
def statTexts (s : ReaderStat) : List (List Char) :=
  [printfDec s.rc.toInt, printfHex 4 (s.caid.setWidth 32), printfHex 6 s.prid, printfHex 4 (s.srvid.setWidth 32),
    printfHex 4 ((s.chid.setWidth 16).setWidth 32), printfDec s.timeAvg.toInt, printfDec s.ecmCount.toInt,
    printfDec s.lastReceived.time.toInt, printfDec s.failFactor.toInt, printfHex 2 (s.ecmlen.setWidth 32)]

def statLine (label : List Char) (s : ReaderStat) : List Char :=
  joinTokens ',' (label :: statTexts s) ++ ['\n']

/-- What is left in the memory and the file. -/
def saveStatToFile (ts : Timeb) (lbStatCleanup : BitVec 32) (readers : List Reader) : List Reader × List Char :=
  (readers.map fun rdr => { rdr with lbStat := keptStats ts lbStatCleanup rdr },
    readers.flatMap fun rdr => (keptStats ts lbStatCleanup rdr).flatMap (statLine rdr.label.chars))

/-- The label and the entry of a line with eleven texts. -/
def newFormat (line : List Char) : Option (List Char × ReaderStat) :=
  match strtok ',' line with
  | [label, rc, caid, prid, srvid, chid, timeAvg, ecmCount, time, failFactor, ecmlen] =>
    some (label.take 255,
      { rc := .ofInt 32 (atoi rc)
        caid := (a2i caid 4).setWidth 16
        prid := a2i prid 6
        srvid := (a2i srvid 4).setWidth 16
        chid := a2i chid 4
        timeAvg := .ofInt 32 (atoi timeAvg)
        ecmCount := .ofInt 32 (atoi ecmCount)
        lastReceived := ⟨.ofInt 64 (atoi time), 0⟩
        failFactor := .ofInt 32 (atoi failFactor)
        ecmlen := (a2i ecmlen 2).setWidth 16 })
  | _ => none

/-- The entry is appended to the first reader with the label. -/
def appendStat (label : List Char) (s : ReaderStat) : List Reader → List Reader
  | [] => []
  | rdr :: rdrs =>
    if rdr.label.chars = label then { rdr with lbStat := rdr.lbStat ++ [s] } :: rdrs
    else rdr :: appendStat label s rdrs

/-- `strstr(line, " rc ")`. -/
def hasRc (line : List Char) : Bool := line.tails.any fun rest => [' ', 'r', 'c', ' '].isPrefixOf rest

/-- The lines one after the other; `old` is what the first one decided about the format of the file, `oldFormat`
the `sscanf` of the old one. -/
def loadLines (oldFormat : List Char → Option (List Char × ReaderStat)) :
    Option Bool → List (List Char) → List Reader → List Reader
  | _, [], rdrs => rdrs
  | old, line :: lines, rdrs =>
    if line = [] ∨ line.head? = some '#' ∨ line.head? = some ';' then loadLines oldFormat old lines rdrs
    else
      let isOld := old.getD (hasRc line)
      match if isOld then oldFormat line else newFormat line with
      | some (label, s) =>
        loadLines oldFormat (some isOld) lines (if 0 < s.ecmlen.toInt then appendStat label s rdrs else rdrs)
      | none => loadLines oldFormat (some isOld) lines rdrs

def loadStatFromFile (oldFormat : List Char → Option (List Char × ReaderStat)) (file : List Char)
    (readers : List Reader) : List Reader :=
  loadLines oldFormat none (fgetsLines linesize file) readers

/-- Without the milliseconds, which are not written. -/
def ReaderStat.inSeconds (s : ReaderStat) : ReaderStat :=
  { s with lastReceived := { s.lastReceived with millitm := 0 } }

/-- What is read of a line that is accepted: of the channel id four digits were written. -/
def ReaderStat.asRead (s : ReaderStat) : ReaderStat := { s.inSeconds with chid := (s.chid.setWidth 16).setWidth 32 }

/-- A line that starts with the label is no comment, and its label is read as `l`. -/
def ReadAs (label l : List Char) : Prop :=
  strtok ',' label = [l] ∧ label.head? ≠ some '#' ∧ label.head? ≠ some ';'

instance (label l : List Char) : Decidable (ReadAs label l) := inferInstanceAs (Decidable (_ ∧ _ ∧ _))

section Line

variable {label l : List Char} {s : ReaderStat} {d : Char}

private def frontTexts (s : ReaderStat) : List (List Char) := (statTexts s).dropLast

private def lastText (s : ReaderStat) : List Char := printfHex 2 (s.ecmlen.setWidth 32)

private theorem statTexts_eq : statTexts s = frontTexts s ++ [lastText s] := rfl

private theorem printfDec_spec {n : ℕ} {v : BitVec n} (hn : n ≤ 64) (hd : d.isDigit = false) (hminus : d ≠ '-') :
    printfDec v.toInt ≠ [] ∧ d ∉ printfDec v.toInt ∧ (printfDec v.toInt).length ≤ 20 := by
  refine ⟨printfDec_ne_nil, notMem_printfDec hd hminus, ?_⟩
  rw [length_printfDec]
  exact intWidth_toInt_le v hn

/-- What the texts behind the label consist of. -/
private theorem statTexts_spec (hhex : gethexval d = none) (hd : d.isDigit = false) (hminus : d ≠ '-') :
    ∀ t ∈ statTexts s, t ≠ [] ∧ d ∉ t ∧ t.length ≤ 20 := by
  have hprint : ∀ w v, 0 < w → w ≤ 8 →
      printfHex w v ≠ [] ∧ d ∉ printfHex w v ∧ (printfHex w v).length ≤ 20 := by
    intro w v hpos hw
    obtain ⟨hne, hnot, hlen⟩ : printfHex w v ≠ [] ∧ d ∉ printfHex w v ∧ _ := printfHex_spec hhex hpos hw
    exact ⟨hne, hnot, by omega⟩
  intro t ht
  unfold statTexts at ht
  simp only [List.mem_cons, List.not_mem_nil, or_false] at ht
  rcases ht with rfl | rfl | rfl | rfl | rfl | rfl | rfl | rfl | rfl | rfl
  · exact printfDec_spec (by omega) hd hminus
  · exact hprint 4 _ (by omega) (by omega)
  · exact hprint 6 _ (by omega) (by omega)
  · exact hprint 4 _ (by omega) (by omega)
  · exact hprint 4 _ (by omega) (by omega)
  · exact printfDec_spec (by omega) hd hminus
  · exact printfDec_spec (by omega) hd hminus
  · exact printfDec_spec (by omega) hd hminus
  · exact printfDec_spec (by omega) hd hminus
  · exact hprint 2 _ (by omega) (by omega)

private theorem statTexts_length : (statTexts s).length = 10 := rfl

/-- The tokens of a line are those of the label and the texts, the last one with the end of the line. -/
private theorem strtok_statLine :
    strtok ',' (statLine label s) = strtok ',' label ++ (frontTexts s ++ [lastText s ++ ['\n']]) := by
  have htexts := @statTexts_spec s ',' rfl (by decide) (by decide)
  have hline : statLine label s = label ++ ',' :: joinTokens ',' (frontTexts s ++ [lastText s ++ ['\n']]) := by
    change (label ++ ',' :: joinTokens ',' (statTexts s)) ++ ['\n'] = _
    rw [joinTokens_append_last, ← statTexts_eq, List.append_assoc, List.cons_append]
  have htokens : AreTokens ',' (frontTexts s ++ [lastText s ++ ['\n']]) := by
    intro t ht
    rcases List.mem_append.mp ht with ht | ht
    · have hmem : t ∈ statTexts s := by
        rw [statTexts_eq]
        exact List.mem_append_left _ ht
      exact ⟨(htexts t hmem).1, (htexts t hmem).2.1⟩
    · rw [List.mem_singleton.mp ht]
      have hmem : lastText s ∈ statTexts s := by
        rw [statTexts_eq]
        exact List.mem_append_right _ (List.mem_singleton.mpr rfl)
      simp [(htexts _ hmem).2.1]
  rw [hline, strtok_append_delim, strtok_joinTokens htokens]

private theorem a2i_newline {t : List Char} {bytes : ℤ} (hblank : ∀ c ∈ t, isBlank c = false) :
    a2i (t ++ ['\n']) bytes = a2i t bytes := by
  have htrim : trim (t ++ ['\n']) = trim t := by
    rw [trim_of_noBlank hblank]
    cases t with
    | nil => decide
    | cons c t =>
      have hspace : (c :: t ++ ['\n']).head? ≠ some ' ' := by
        intro hhead
        have hc : c = ' ' := Option.some.inj hhead
        have hnot := hblank c List.mem_cons_self
        rw [hc] at hnot
        cases hnot
      have hrest := @trim_of_noBlank (c :: t) hblank
      have hhead : (c :: t).head? ≠ some ' ' := hspace
      unfold trim at hrest ⊢
      rw [if_neg hhead] at hrest
      rw [if_neg hspace]
      dsimp only at hrest ⊢
      rw [List.reverse_append]
      exact hrest
  unfold a2i
  rw [htrim]

private theorem setWidth_read {v : BitVec 16} {w : ℕ} (bytes : ℕ) (hw : 0 < w) (hle : w ≤ 4)
    (hbytes : bytes = 2 ∨ bytes = 4) :
    (a2i (printfHex w (v.setWidth 32)) bytes).setWidth 16 = v := by
  have hlt : (v.setWidth 32).toNat < 16 ^ 4 := by
    rw [BitVec.toNat_setWidth_of_le (by omega)]
    exact v.isLt
  have hwidth : hexWidth w (v.setWidth 32) ≤ 4 :=
    Nat.max_le.mpr ⟨hle, (length_hexDigits_le_iff (by omega)).mpr hlt⟩
  have hread : a2i (printfHex w (v.setWidth 32)) bytes = v.setWidth 32 := by
    refine a2i_printfHex (by omega) ?_
    rcases hbytes with rfl | rfl
    · exact hwidth
    · exact hwidth.trans (by decide)
  rw [hread]
  simp

/-- The label of a line with one token is read, with the entry behind it. -/
private theorem newFormat_statLine (hl : l.length < 64) (hlabel : strtok ',' label = [l]) :
    newFormat (statLine label s) = some (l, s.asRead) := by
  have hchid : a2i (printfHex 4 ((s.chid.setWidth 16).setWidth 32)) 4 = (s.chid.setWidth 16).setWidth 32 := by
    have hlt : ((s.chid.setWidth 16).setWidth 32).toNat < 16 ^ 4 := by
      rw [BitVec.toNat_setWidth_of_le (by omega)]
      exact (s.chid.setWidth 16).isLt
    have hwidth : hexWidth 4 ((s.chid.setWidth 16).setWidth 32) ≤ 4 <<< 1 := by
      rw [hexWidth_of_lt (by omega) hlt]
      decide
    exact a2i_printfHex (by omega) hwidth
  have hprid : a2i (printfHex 6 s.prid) 6 = s.prid :=
    have hwidth : hexWidth 6 s.prid ≤ 6 <<< 1 := (hexWidth_le (by omega)).trans (by decide)
    a2i_printfHex (by omega) hwidth
  have hecmlen : (a2i (lastText s ++ ['\n']) 2).setWidth 16 = s.ecmlen := by
    unfold lastText
    rw [a2i_newline]
    · exact setWidth_read 2 (by omega) (by omega) (.inl rfl)
    · rw [printfHex_eq (by omega)]
      exact isBlank_hexText
  have hcaid : (a2i (printfHex 4 (s.caid.setWidth 32)) 4).setWidth 16 = s.caid :=
    setWidth_read 4 (by omega) (by omega) (.inr rfl)
  have hsrvid : (a2i (printfHex 4 (s.srvid.setWidth 32)) 4).setWidth 16 = s.srvid :=
    setWidth_read 4 (by omega) (by omega) (.inr rfl)
  have htake : l.take 255 = l := List.take_of_length_le (by omega)
  unfold newFormat
  rw [strtok_statLine, hlabel]
  change some (l.take 255, _) = _
  simp only [atoi_printfDec, BitVec.ofInt_toInt, hchid, hprid, hecmlen, hcaid, hsrvid, htake]
  rfl

private theorem newFormat_none (hlabel : (strtok ',' label).length ≠ 1) : newFormat (statLine label s) = none := by
  have hlen : (strtok ',' (statLine label s)).length ≠ 11 := by
    rw [strtok_statLine, List.length_append]
    change _ + 10 ≠ 11
    omega
  unfold newFormat
  split
  · next heq => exact absurd (congrArg List.length heq) hlen
  · rfl

/-- A token is not longer than its text. -/
private theorem length_token (hlabel : strtok ',' label = [l]) : l.length ≤ label.length := by
  have hsub : (strtok ',' label).flatten.Sublist label := by
    have hflat := List.flatten_splitBy (fun a b : Char => decide (a ≠ ',') && decide (b ≠ ',')) label
    conv_rhs => rw [← hflat]
    exact List.Sublist.flatten List.filter_sublist
  rw [hlabel] at hsub
  simpa using hsub.length_le

private theorem head_statLine : (statLine label s).head? = some (label.head?.getD ',') := by
  cases label with
  | nil => rfl
  | cons c label => rfl

private theorem notMem_statLine (hhex : gethexval d = none) (hd : d.isDigit = false) (hminus : d ≠ '-')
    (hcomma : d ≠ ',') (hlabel : d ∉ label) : d ∉ joinTokens ',' (label :: statTexts s) := by
  intro hmem
  rcases mem_joinTokens hmem with heq | ⟨t, ht, hdt⟩
  · exact hcomma heq
  · rcases List.mem_cons.mp ht with rfl | ht
    · exact hlabel hdt
    · exact (statTexts_spec hhex hd hminus t ht).2.1 hdt

private theorem hasRc_statLine (hlabel : ' ' ∉ label) : hasRc (statLine label s) = false := by
  have hspace : ' ' ∉ statLine label s := by
    unfold statLine
    rw [List.mem_append, not_or]
    exact ⟨notMem_statLine rfl (by decide) (by decide) (by decide) hlabel, by decide⟩
  unfold hasRc
  rw [List.any_eq_false]
  intro rest hrest hprefix
  have hsuffix : rest <:+ statLine label s := (List.mem_tails _ _).mp hrest
  have hmem := (List.isPrefixOf_iff_prefix.mp hprefix).subset List.mem_cons_self
  exact hspace (hsuffix.subset hmem)

private theorem length_statLine (hlabel : label.length < 64) :
    (joinTokens ',' (label :: statTexts s)).length < linesize - 1 := by
  have hlen := @length_joinTokens_succ ',' (label :: statTexts s) (List.cons_ne_nil _ _)
  have htexts : ∀ t ∈ statTexts s, t.length ≤ 20 :=
    fun t ht => (statTexts_spec (d := ',') rfl (by decide) (by decide) t ht).2.2
  have hsum := lastStart_le htexts
  rw [statTexts_length] at hsum
  have hcons : lastStart (label :: statTexts s) = label.length + 1 + lastStart (statTexts s) := by
    simp [lastStart]
  change _ < 1023
  omega

end Line

/-- What a saved entry gives when its line is read. -/
def readBack (label : List Char) (s : ReaderStat) : Option (List Char × ReaderStat) :=
  if label.head? = some '#' ∨ label.head? = some ';' ∨ ¬ 0 < s.ecmlen.toInt then none
  else
    match strtok ',' label with
    | [l] => some (l, s.asRead)
    | _ => none

/-- A reader before this one has its label. -/
def preceded (pre : List Reader) (rdr : Reader) : Bool := pre.any fun r => r.label.chars = rdr.label.chars

/-- The entry is given to the first reader with its label. -/
private def giveStat (rdrs : List Reader) (entry : List Char × ReaderStat) : List Reader :=
  appendStat entry.1 entry.2 rdrs

section File

variable {oldFormat : List Char → Option (List Char × ReaderStat)}

private theorem loadLines_step (old : Option Bool) (line : List Char) (lines : List (List Char))
    (rdrs : List Reader) : loadLines oldFormat old (line :: lines) rdrs =
      if line = [] ∨ line.head? = some '#' ∨ line.head? = some ';' then loadLines oldFormat old lines rdrs
      else ((if old.getD (hasRc line) then oldFormat line else newFormat line).elim
        (loadLines oldFormat (some (old.getD (hasRc line))) lines rdrs)
        fun e => loadLines oldFormat (some (old.getD (hasRc line))) lines
          (if 0 < e.2.ecmlen.toInt then giveStat rdrs e else rdrs)) := by
  conv_lhs => unfold loadLines
  split_ifs with hskip hold
  · rfl
  · dsimp only
    rw [if_pos hold]
    cases oldFormat line <;> rfl
  · dsimp only
    rw [if_neg hold]
    cases newFormat line <;> rfl

private theorem loadLines_cons {old : Option Bool} (hold : old ≠ some true) (label : Label) (s : ReaderStat)
    (lines : List (List Char)) (rdrs : List Reader) : ∃ old', old' ≠ some true ∧
    loadLines oldFormat old (statLine label.chars s :: lines) rdrs =
      loadLines oldFormat old' lines ((readBack label.chars s).toList.foldl giveStat rdrs) := by
  have hne : statLine label.chars s ≠ [] := by simp [statLine]
  have hhead := @head_statLine label.chars s
  have hcomment : statLine label.chars s = [] ∨ (statLine label.chars s).head? = some '#' ∨
      (statLine label.chars s).head? = some ';' ↔ label.chars.head? = some '#' ∨ label.chars.head? = some ';' := by
    rw [hhead]
    cases label.chars.head? with
    | none => simp [hne]
    | some c => simp [hne]
  have hold' : old.getD (hasRc (statLine label.chars s)) = false := by
    rw [hasRc_statLine label.noSpace]
    cases old with
    | none => rfl
    | some b =>
      cases b with
      | false => rfl
      | true => exact absurd rfl hold
  rw [loadLines_step]
  by_cases hskip : label.chars.head? = some '#' ∨ label.chars.head? = some ';'
  · rw [if_pos (hcomment.mpr hskip)]
    have hnone : readBack label.chars s = none := by
      unfold readBack
      rw [if_pos (or_assoc.mp (.inl hskip))]
    rw [hnone]
    exact ⟨old, hold, rfl⟩
  · rw [if_neg fun h => hskip (hcomment.mp h), hold', if_neg Bool.false_ne_true]
    refine ⟨some false, by simp, ?_⟩
    by_cases hone : (strtok ',' label.chars).length = 1
    · obtain ⟨l, hl⟩ := List.length_eq_one_iff.mp hone
      have hlen : l.length < 64 := Nat.lt_of_le_of_lt (length_token hl) label.fits
      rw [newFormat_statLine hlen hl, Option.elim_some]
      have hecmlen : s.asRead.ecmlen = s.ecmlen := rfl
      rw [hecmlen]
      by_cases hpos : 0 < s.ecmlen.toInt
      · have hread : readBack label.chars s = some (l, s.asRead) := by
          unfold readBack
          rw [if_neg (by simpa [hpos] using hskip), hl]
        rw [if_pos hpos, hread]
        rfl
      · have hread : readBack label.chars s = none := by
          unfold readBack
          rw [if_pos (.inr (.inr hpos))]
        rw [if_neg hpos, hread]
        rfl
    · have hread : readBack label.chars s = none := by
        unfold readBack
        split_ifs
        · rfl
        · split
          · next heq => exact absurd (congrArg List.length heq) hone
          · rfl
      rw [newFormat_none hone, hread]
      rfl

private theorem loadLines_saved {old : Option Bool} (hold : old ≠ some true) (entries : List (Label × ReaderStat))
    (rdrs : List Reader) :
    loadLines oldFormat old (entries.map fun e => statLine e.1.chars e.2) rdrs =
      (entries.filterMap fun e => readBack e.1.chars e.2).foldl giveStat rdrs := by
  induction entries generalizing old rdrs with
  | nil => rfl
  | cons e entries ih =>
    obtain ⟨old', hold', hstep⟩ := @loadLines_cons oldFormat old hold e.1 e.2
      (entries.map fun e => statLine e.1.chars e.2) rdrs
    rw [List.map_cons, hstep, ih hold']
    cases hread : readBack e.1.chars e.2 with
    | none => simp [hread]
    | some entry => simp [hread]

/-- The lines of a saved file are those of its entries. -/
private theorem fgetsLines_saved (entries : List (Label × ReaderStat)) :
    fgetsLines linesize (entries.flatMap fun e => statLine e.1.chars e.2) =
      entries.map fun e => statLine e.1.chars e.2 := by
  induction entries with
  | nil => rfl
  | cons e entries ih =>
    have hline : '\n' ∉ joinTokens ',' (e.1.chars :: statTexts e.2) :=
      notMem_statLine rfl (by decide) (by decide) (by decide) e.1.noNewline
    have hfirst : fgetsLines linesize (joinTokens ',' (e.1.chars :: statTexts e.2) ++
          '\n' :: entries.flatMap fun e => statLine e.1.chars e.2) = _ :=
      fgetsLines_whole hline (length_statLine e.1.fits)
    have hsplit : statLine e.1.chars e.2 ++ (entries.flatMap fun e => statLine e.1.chars e.2) =
        joinTokens ',' (e.1.chars :: statTexts e.2) ++
          '\n' :: entries.flatMap fun e => statLine e.1.chars e.2 := by
      simp [statLine]
    rw [List.flatMap_cons, List.map_cons, ← ih, hsplit, hfirst]
    rfl

end File

section Give

variable {rdr rdr' : Reader} {rdrs : List Reader} {entries : List (List Char × ReaderStat)}

/-- The entries with a label. -/
private def given (label : List Char) (entries : List (List Char × ReaderStat)) : List ReaderStat :=
  (entries.filter fun e => e.1 = label).map (·.2)

private theorem giveStat_cons (e : List Char × ReaderStat) : giveStat (rdr :: rdrs) e =
    if rdr.label.chars = e.1 then { rdr with lbStat := rdr.lbStat ++ [e.2] } :: rdrs
    else rdr :: giveStat rdrs e := rfl

private theorem foldl_giveStat_nil : entries.foldl giveStat [] = [] := by
  induction entries with
  | nil => rfl
  | cons e entries ih => exact ih

private theorem foldl_giveStat_cons : entries.foldl giveStat (rdr :: rdrs) =
    { rdr with lbStat := rdr.lbStat ++ given rdr.label.chars entries } ::
      (entries.filter fun e => e.1 ≠ rdr.label.chars).foldl giveStat rdrs := by
  induction entries generalizing rdr rdrs with
  | nil => simp [given]
  | cons e entries ih =>
    rw [List.foldl_cons, giveStat_cons]
    by_cases hlabel : rdr.label.chars = e.1
    · rw [if_pos hlabel, ih]
      simp [given, hlabel]
    · rw [if_neg hlabel, ih]
      have hne : e.1 ≠ rdr.label.chars := fun h => hlabel h.symm
      simp [given, hne]

private theorem given_filter {label label' : List Char} :
    given label (entries.filter fun e => e.1 ≠ label') = if label' = label then [] else given label entries := by
  unfold given
  rw [List.filter_filter]
  split_ifs with heq
  · subst heq
    simp
  · congr 1
    refine List.filter_congr fun e _ => ?_
    by_cases he : e.1 = label
    · have hne : label ≠ label' := fun h => heq h.symm
      simp [he, hne]
    · simp [he]

/-- Who gets what: the first reader with a label all entries with it. -/
private theorem mem_foldl_giveStat : rdr' ∈ entries.foldl giveStat rdrs ↔ ∃ pre rdr post,
    rdrs = pre ++ rdr :: post ∧ rdr' =
      { rdr with
        lbStat := if preceded pre rdr then rdr.lbStat
          else rdr.lbStat ++ given rdr.label.chars entries } := by
  induction rdrs generalizing entries with
  | nil => simp [foldl_giveStat_nil]
  | cons r rdrs ih =>
    rw [foldl_giveStat_cons, List.mem_cons, ih]
    have hgiven : ∀ pre (rdr : Reader), (if preceded pre rdr then rdr.lbStat
        else rdr.lbStat ++ given rdr.label.chars (entries.filter fun e => e.1 ≠ r.label.chars)) =
        if preceded (r :: pre) rdr then rdr.lbStat else rdr.lbStat ++ given rdr.label.chars entries := by
      intro pre rdr
      rw [given_filter]
      unfold preceded
      rw [List.any_cons]
      by_cases hr : r.label.chars = rdr.label.chars
      · simp [hr]
      · simp [hr]
    constructor
    · rintro (rfl | ⟨pre, rdr, post, rfl, rfl⟩)
      · exact ⟨[], r, rdrs, rfl, by simp [preceded]⟩
      · refine ⟨r :: pre, rdr, post, rfl, ?_⟩
        rw [hgiven]
    · rintro ⟨pre, rdr, post, heq, rfl⟩
      cases pre with
      | nil =>
        obtain ⟨rfl, rfl⟩ := List.cons.inj heq
        exact .inl (by simp [preceded])
      | cons r' pre =>
        obtain ⟨rfl, rfl⟩ := List.cons.inj heq
        refine .inr ⟨pre, rdr, post, rfl, ?_⟩
        rw [hgiven]

end Give

section Restore

variable (ts : Timeb) (lbStatCleanup : BitVec 32)

/-- The entries that are written, with the labels of their readers. -/
def savedStats (saved : List Reader) : List (Label × ReaderStat) :=
  saved.flatMap fun rdr => (keptStats ts lbStatCleanup rdr).map fun s => (rdr.label, s)

/-- The entries, as they are read, of all readers whose label is read as `l`. -/
def statsReadAs (saved : List Reader) (l : List Char) : List ReaderStat :=
  ((savedStats ts lbStatCleanup saved).filter fun e => ReadAs e.1.chars l ∧ 0 < e.2.ecmlen.toInt).map (·.2.asRead)

/-- After saving and loading every reader that still exists has each entry that was kept, but for the
milliseconds, and no two entries with one key. -/
structure Restored (saved loaded : List Reader) : Prop where
  found : ∀ rdr ∈ saved, ∀ s ∈ keptStats ts lbStatCleanup rdr, ∀ rdr' ∈ loaded,
    rdr'.label.chars = rdr.label.chars → ∃ s' ∈ rdr'.lbStat, s'.inSeconds = s.inSeconds
  unique : ∀ rdr' ∈ loaded, (rdr'.lbStat.map ReaderStat.key).Nodup

/-- Each entry that is kept is already in the memory of its reader, or no other reader before has the label and
an entry like it is written under a label that is read as the reader's; and the keys of the reader's own
entries and of those that are written under such labels are all different. -/
structure Restorable (saved readers : List Reader) : Prop where
  found : ∀ pre rdr' post, readers = pre ++ rdr' :: post → ∀ rdr ∈ saved,
    ∀ s ∈ keptStats ts lbStatCleanup rdr, rdr'.label.chars = rdr.label.chars →
      (∃ s' ∈ rdr'.lbStat, s'.inSeconds = s.inSeconds) ∨
      preceded pre rdr' = false ∧ ∃ rdr₂ ∈ saved, ∃ s₂ ∈ keptStats ts lbStatCleanup rdr₂,
        ReadAs rdr₂.label.chars rdr'.label.chars ∧ 0 < s₂.ecmlen.toInt ∧ s₂.asRead = s.inSeconds
  unique : ∀ pre rdr' post, readers = pre ++ rdr' :: post →
    ((if preceded pre rdr' then rdr'.lbStat
      else rdr'.lbStat ++ statsReadAs ts lbStatCleanup saved rdr'.label.chars).map ReaderStat.key).Nodup

variable {ts lbStatCleanup}

private theorem mem_statsReadAs {saved : List Reader} {l : List Char} {s' : ReaderStat} :
    s' ∈ statsReadAs ts lbStatCleanup saved l ↔ ∃ rdr ∈ saved, ∃ s ∈ keptStats ts lbStatCleanup rdr,
      ReadAs rdr.label.chars l ∧ 0 < s.ecmlen.toInt ∧ s.asRead = s' := by
  unfold statsReadAs savedStats
  constructor
  · intro h
    obtain ⟨e, he, rfl⟩ := List.mem_map.mp h
    obtain ⟨hmem, hread⟩ := List.mem_filter.mp he
    obtain ⟨rdr, hrdr, hmem⟩ := List.mem_flatMap.mp hmem
    obtain ⟨s, hs, rfl⟩ := List.mem_map.mp hmem
    obtain ⟨has, hpos⟩ := of_decide_eq_true hread
    exact ⟨rdr, hrdr, s, hs, has, hpos, rfl⟩
  · rintro ⟨rdr, hrdr, s, hs, has, hpos, rfl⟩
    refine List.mem_map.mpr ⟨(rdr.label, s), List.mem_filter.mpr ⟨?_, decide_eq_true ⟨has, hpos⟩⟩, rfl⟩
    exact List.mem_flatMap.mpr ⟨rdr, hrdr, List.mem_map_of_mem hs⟩

private theorem readBack_eq_some {label l : List Char} {s s' : ReaderStat} :
    readBack label s = some (l, s') ↔ (ReadAs label l ∧ 0 < s.ecmlen.toInt) ∧ s.asRead = s' := by
  unfold readBack ReadAs
  by_cases hskip : label.head? = some '#' ∨ label.head? = some ';' ∨ ¬ 0 < s.ecmlen.toInt
  · rw [if_pos hskip]
    simp only [reduceCtorEq, false_iff]
    tauto
  · rw [if_neg hskip]
    split
    · next l' heq =>
      rw [heq]
      simp only [Option.some.injEq, Prod.mk.injEq, List.cons.injEq, and_true]
      tauto
    · next hne =>
      simp only [reduceCtorEq, false_iff]
      rintro ⟨⟨⟨hone, -⟩, -⟩, -⟩
      exact hne l hone

private theorem given_readBack (saved : List Reader) (l : List Char) :
    given l ((savedStats ts lbStatCleanup saved).filterMap fun e => readBack e.1.chars e.2) =
      statsReadAs ts lbStatCleanup saved l := by
  unfold given statsReadAs
  induction savedStats ts lbStatCleanup saved with
  | nil => rfl
  | cons e entries ih =>
    by_cases hread : ReadAs e.1.chars l ∧ 0 < e.2.ecmlen.toInt
    · have hsome := readBack_eq_some.mpr ⟨hread, rfl⟩
      rw [List.filterMap_cons, hsome]
      simp [hread, ih]
    · cases hback : readBack e.1.chars e.2 with
      | none =>
        rw [List.filterMap_cons, hback]
        simp [hread, ih]
      | some entry =>
        obtain ⟨l', s'⟩ := entry
        have hne : l' ≠ l := by
          rintro rfl
          exact hread (readBack_eq_some.mp hback).1
        rw [List.filterMap_cons, hback]
        simp [hread, hne, ih]

/-- What saving and loading gives every reader. -/
private theorem mem_load {oldFormat : List Char → Option (List Char × ReaderStat)} {saved readers : List Reader}
    {rdr' : Reader} : rdr' ∈ loadStatFromFile oldFormat (saveStatToFile ts lbStatCleanup saved).2 readers ↔
    ∃ pre rdr post, readers = pre ++ rdr :: post ∧ rdr' =
      { rdr with
        lbStat := if preceded pre rdr then rdr.lbStat
          else rdr.lbStat ++ statsReadAs ts lbStatCleanup saved rdr.label.chars } := by
  have hfile : (saveStatToFile ts lbStatCleanup saved).2 =
      (savedStats ts lbStatCleanup saved).flatMap fun e => statLine e.1.chars e.2 := by
    simp [saveStatToFile, savedStats, List.flatMap_assoc, List.flatMap_map]
  unfold loadStatFromFile
  rw [hfile, fgetsLines_saved, loadLines_saved (by simp), mem_foldl_giveStat]
  simp only [given_readBack]

/-- Statistics survive saving and loading if and only if their labels are read as they are, no field is cut and no
key comes twice. -/
theorem restored_iff (oldFormat : List Char → Option (List Char × ReaderStat)) (ts : Timeb)
    (lbStatCleanup : BitVec 32) (saved readers : List Reader) :
    Restored ts lbStatCleanup saved
        (loadStatFromFile oldFormat (saveStatToFile ts lbStatCleanup saved).2 readers) ↔
      Restorable ts lbStatCleanup saved readers := by
  constructor
  · intro h
    constructor
    · intro pre rdr' post hreaders rdr hrdr s hs hlabel
      obtain ⟨s', hs', heq⟩ := h.found rdr hrdr s hs _ (mem_load.mpr ⟨pre, rdr', post, hreaders, rfl⟩) hlabel
      dsimp only at hs'
      split_ifs at hs' with hpre
      · exact .inl ⟨s', hs', heq⟩
      · rcases List.mem_append.mp hs' with hs' | hs'
        · exact .inl ⟨s', hs', heq⟩
        · obtain ⟨rdr₂, hrdr₂, s₂, hs₂, has, hpos, rfl⟩ := mem_statsReadAs.mp hs'
          exact .inr ⟨by simpa using hpre, rdr₂, hrdr₂, s₂, hs₂, has, hpos, heq⟩
    · intro pre rdr' post hreaders
      exact h.unique _ (mem_load.mpr ⟨pre, rdr', post, hreaders, rfl⟩)
  · intro h
    constructor
    · intro rdr hrdr s hs rdr' hrdr' hlabel
      obtain ⟨pre, rdr₀, post, hreaders, rfl⟩ := mem_load.mp hrdr'
      dsimp only at hlabel ⊢
      rcases h.found pre rdr₀ post hreaders rdr hrdr s hs hlabel with ⟨s', hs', heq⟩ | ⟨hpre, hread⟩
      · refine ⟨s', ?_, heq⟩
        split_ifs
        · exact hs'
        · exact List.mem_append_left _ hs'
      · obtain ⟨rdr₂, hrdr₂, s₂, hs₂, has, hpos, heq⟩ := hread
        refine ⟨s₂.asRead, ?_, heq⟩
        rw [hpre, if_neg Bool.false_ne_true]
        exact List.mem_append_right _ (mem_statsReadAs.mpr ⟨rdr₂, hrdr₂, s₂, hs₂, has, hpos, rfl⟩)
    · intro rdr' hrdr'
      obtain ⟨pre, rdr₀, post, hreaders, rfl⟩ := mem_load.mp hrdr'
      exact h.unique pre rdr₀ post hreaders

end Restore

private def commaStat : ReaderStat := ⟨0, 0x0500, 0x030600, 1, 0, 0x70, ⟨1000, 0⟩, 1, 200, 0⟩

private def commaReader (lbStat : List ReaderStat) : Reader :=
  ⟨⟨['a', ',', 'b'], by decide, by decide, by decide⟩, lbStat⟩

/-- The entry of a reader with a comma in its label is lost. -/
theorem comma_label_lost : ((commaReader [commaStat]).lbStat.map ReaderStat.key).Nodup ∧
    ¬ Restored ⟨1000, 0⟩ 336 [commaReader [commaStat]] (loadStatFromFile (fun _ => none)
      (saveStatToFile ⟨1000, 0⟩ 336 [commaReader [commaStat]]).2 [commaReader []]) := by
  refine ⟨by simp [commaReader], fun h => ?_⟩
  have hkept : keptStats ⟨1000, 0⟩ 336 (commaReader [commaStat]) = [commaStat] := by decide
  have hmem : commaStat ∈ keptStats ⟨1000, 0⟩ 336 (commaReader [commaStat]) := by
    rw [hkept]
    exact List.mem_cons_self
  obtain ⟨s', hs', -⟩ := h.found _ List.mem_cons_self commaStat hmem _
    (mem_load.mpr ⟨[], commaReader [], [], rfl, rfl⟩) rfl
  obtain ⟨rdr, hrdr, s, -, hread, -⟩ := mem_statsReadAs.mp hs'
  rw [List.mem_singleton.mp hrdr] at hread
  exact absurd hread (by decide)

end NCam.Stat
