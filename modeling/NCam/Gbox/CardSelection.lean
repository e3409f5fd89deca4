import NCam.Gbox.CardList
import Mathlib.Data.List.Perm.Subperm

/-! The cards that `gbox_get_cards_for_ecm` selects, without the send buffer: the loops on the buffer
write this selection, and exactly when it fits. -/
namespace NCam.Gbox

open NCam.Lib NCam.Util

/-- The cards selected so far. -/
structure Selection where
  sent : List GboxCard
  enough : Bool
  avg : BitVec 32

namespace Selection

variable (q : CardSearch)

/-- The limit, as the counter of one byte sees it. -/
def full (s : Selection) : Bool := BitVec.ofNat 8 s.sent.length = q.maxCards

def takeGood (card : GboxCard) (srvidGood : GboxGoodSrvid) (s : Selection) : Selection :=
  if !s.enough || s.avg > card.averageCwTime then
    if s.enough then ⟨s.sent.dropLast ++ [card], true, card.averageCwTime⟩
    else ⟨s.sent ++ [card], q.confirms srvidGood, card.averageCwTime⟩
  else s

def stepGood (card : GboxCard) (s : Selection) : Selection :=
  (q.findGood card).elim s fun srvidGood => s.takeGood q card srvidGood

def good : List GboxCard → Selection → Selection
  | [], s => s
  | card :: cards, s =>
    if q.candidate card then
      if (s.stepGood q card).full q then s.stepGood q card else good cards (s.stepGood q card)
    else good cards s

def stepOther (card : GboxCard) (s : Selection) : Selection :=
  if untested q card then { s with sent := s.sent ++ [card] } else s

def other : List GboxCard → Selection → Selection
  | [], s => s
  | card :: cards, s =>
    if q.candidate card && !s.enough then
      if (s.stepOther q card).full q then s.stepOther q card else other cards (s.stepOther q card)
    else other cards s

def start : Selection := ⟨[], false, 0⟩

/-- The selection of both loops. -/
def all (cards : List GboxCard) : Selection := other q cards (good q cards start)

end Selection

section Written

variable {size base : ℕ} {q : CardSearch} {buf : ℕ → Byte} {out : CardsOut} {s : Selection}
  {card : GboxCard}

/-- The buffer holds the selected cards from `base` on, and below it what was there. -/
structure Written (base : ℕ) (buf : ℕ → Byte) (out : CardsOut) (s : Selection) : Prop where
  len : out.len2 = base + 3 * s.sent.length
  holds : Memory.Holds out.sendBuf base (s.sent.flatMap fun c => cardBytes c.id)
  nb : out.nbMatchingCrds = BitVec.ofNat 8 s.sent.length
  enough : out.enough = s.enough
  avg : out.currentAvgCardTime = s.avg
  frame : ∀ i < base, out.sendBuf i = buf i
  nonempty : s.enough = true → s.sent ≠ []

theorem length_cards (l : List GboxCard) : (l.flatMap fun c => cardBytes c.id).length = 3 * l.length :=
  @Memory.length_flatMap_of_width _ _ _ 3 (fun _ => rfl) l

/-- One card is written behind `l`. -/
private theorem holds_written {l : List GboxCard}
    (h : Memory.Holds out.sendBuf base (l.flatMap fun c => cardBytes c.id)) (card : GboxCard) :
    Memory.Holds (Memory.put out.sendBuf (base + 3 * l.length) (cardBytes card.id)) base
      ((l ++ [card]).flatMap fun c => cardBytes c.id) := by
  rw [List.flatMap_append, List.flatMap_singleton]
  refine Memory.holds_append.mpr ⟨h.put (Or.inl ?_), ?_⟩
  · rw [length_cards]
  · rw [length_cards]
    exact Memory.holds_put

private theorem write_eq {k : ℕ} (hlen : out.len2 = base + 3 * k) (id : GboxCardId) :
    out.write size id = if base + 3 * (k + 1) ≤ size then
      some { out with sendBuf := Memory.put out.sendBuf (base + 3 * k) (cardBytes id),
                      len2 := base + 3 * (k + 1) } else none := by
  unfold CardsOut.write Memory.putWithin
  rw [hlen]
  change Option.map _ (if base + 3 * k + 3 ≤ size then some _ else none) = _
  by_cases h : base + 3 * (k + 1) ≤ size
  · rw [if_pos h, if_pos (by omega)]
    rfl
  · rw [if_neg h, if_neg (by omega)]
    rfl

/-- A step on the buffer writes the step of the selection if that fits, and fails if not. -/
structure Steps (size base : ℕ) (buf : ℕ → Byte) (result : Option CardsOut) (s : Selection) : Prop where
  fits : base + 3 * s.sent.length ≤ size → ∃ out, result = some out ∧ Written base buf out s
  leaves : size < base + 3 * s.sent.length → result = none

theorem Written.steps (h : Written base buf out s) (hfit : base + 3 * s.sent.length ≤ size) :
    Steps size base buf (some out) s :=
  ⟨fun _ => ⟨out, rfl, h⟩, fun hlt => absurd hfit (by omega)⟩

/-- A card is written behind the first ones `l` of the selection. -/
private theorem Written.write {l : List GboxCard} (h : Written base buf out s) (hl : l <+: s.sent)
    (card : GboxCard) {nb : Byte} (hnb : nb = BitVec.ofNat 8 (l.length + 1)) (enough : Bool)
    (avg : BitVec 32) :
    Steps size base buf
      (({ out with len2 := base + 3 * l.length, nbMatchingCrds := nb, enough, currentAvgCardTime := avg } :
        CardsOut).write size card.id) ⟨l ++ [card], enough, avg⟩ := by
  have hholds : Memory.Holds out.sendBuf base (l.flatMap fun c => cardBytes c.id) := by
    obtain ⟨r, hr⟩ := hl
    have hall := h.holds
    rw [← hr, List.flatMap_append] at hall
    exact (Memory.holds_append.mp hall).1
  rw [@write_eq size base _ l.length rfl]
  constructor
  · intro hfit
    rw [List.length_append, List.length_singleton] at hfit
    rw [if_pos hfit]
    refine ⟨_, rfl, ⟨?_, holds_written hholds card, ?_, rfl, rfl, fun i hi => ?_, fun _ => ?_⟩⟩
    · rw [List.length_append, List.length_singleton]
    · rw [List.length_append, List.length_singleton]
      exact hnb
    · exact (Memory.put_of_lt (by omega)).trans (h.frame i hi)
    · exact List.append_ne_nil_of_right_ne_nil l (List.cons_ne_nil card [])
  · intro hlt
    rw [List.length_append, List.length_singleton] at hlt
    exact if_neg (by omega)

theorem Written.writeGood (h : Written base buf out s) (hfit : base + 3 * s.sent.length ≤ size)
    (g : GboxGoodSrvid) : Steps size base buf (writeGood size q card g out) (s.takeGood q card g) := by
  unfold Gbox.writeGood Selection.takeGood
  rw [h.enough, h.avg]
  by_cases hslow : (!s.enough || s.avg > card.averageCwTime) = true
  · rw [if_pos hslow, if_pos hslow]
    cases henough : s.enough with
    | true =>
      have hne := h.nonempty henough
      have hdrop : s.sent.dropLast.length + 1 = s.sent.length := by
        rw [List.length_dropLast]
        have := List.length_pos_iff.mpr hne
        omega
      have hlen : out.len2 - 3 = base + 3 * s.sent.dropLast.length := by
        have := h.len
        omega
      simp only [reduceIte, hlen]
      exact h.write (List.dropLast_prefix s.sent) card (by rw [hdrop, h.nb]) true card.averageCwTime
    | false =>
      simp only [Bool.false_eq_true, reduceIte, h.len]
      refine h.write (List.prefix_refl s.sent) card ?_ (q.confirms g) card.averageCwTime
      rw [h.nb, BitVec.ofNat_add]
      rfl
  · rw [if_neg hslow, if_neg hslow]
    exact h.steps hfit

theorem Written.stepGood (h : Written base buf out s) (hfit : base + 3 * s.sent.length ≤ size)
    (card : GboxCard) : Steps size base buf
      ((q.findGood card).elim (some out) fun g => Gbox.writeGood size q card g out) (s.stepGood q card) := by
  unfold Selection.stepGood
  cases q.findGood card with
  | none => exact h.steps hfit
  | some g => exact h.writeGood hfit g

theorem Written.full (h : Written base buf out s) :
    out.nbMatchingCrds = q.maxCards ↔ s.full q = true := by
  rw [h.nb, Selection.full, decide_eq_true_eq]

end Written

section Length

variable {q : CardSearch} {s : Selection} {card : GboxCard} {cards : List GboxCard}

/-- What was selected grows by at most one card in a step, and does not shrink. -/
structure Grows (s t : Selection) (card : GboxCard) : Prop where
  le : s.sent.length ≤ t.sent.length
  sublist : t.sent.Sublist (s.sent ++ [card])
  nonempty : t.enough = true → t.sent ≠ []

theorem Grows.refl (hne : s.enough = true → s.sent ≠ []) : Grows s s card :=
  ⟨Nat.le_refl _, List.sublist_append_left _ _, hne⟩

theorem grows_stepGood (hne : s.enough = true → s.sent ≠ []) : Grows s (s.stepGood q card) card := by
  unfold Selection.stepGood
  cases q.findGood card with
  | none => exact Grows.refl hne
  | some g =>
    change Grows s (s.takeGood q card g) card
    unfold Selection.takeGood
    split_ifs with hslow henough
    · have := List.length_pos_iff.mpr (hne henough)
      refine ⟨?_, (List.dropLast_sublist s.sent).append_right [card], fun _ => by simp⟩
      simp only [List.length_append, List.length_dropLast, List.length_singleton]
      omega
    · exact ⟨by simp, List.Sublist.refl _, fun _ => by simp⟩
    · exact Grows.refl hne

theorem grows_stepOther (hne : s.enough = true → s.sent ≠ []) : Grows s (s.stepOther q card) card := by
  unfold Selection.stepOther
  split_ifs
  · exact ⟨by simp, List.Sublist.refl _, fun _ => by simp⟩
  · exact Grows.refl hne

theorem good_cons_of_candidate (h : q.candidate card = true) : Selection.good q (card :: cards) s =
    if (s.stepGood q card).full q then s.stepGood q card else Selection.good q cards (s.stepGood q card) :=
  if_pos h

theorem good_cons_of_not (h : q.candidate card = false) :
    Selection.good q (card :: cards) s = Selection.good q cards s :=
  if_neg (by rw [h]; exact Bool.false_ne_true)

theorem other_cons_of_candidate (h : q.candidate card = true) (henough : s.enough = false) :
    Selection.other q (card :: cards) s =
      if (s.stepOther q card).full q then s.stepOther q card
      else Selection.other q cards (s.stepOther q card) :=
  if_pos (by rw [h, henough]; rfl)

theorem other_cons_of_not (h : q.candidate card = false) :
    Selection.other q (card :: cards) s = Selection.other q cards s :=
  if_neg (by rw [h]; exact Bool.false_ne_true)

theorem other_of_enough (henough : s.enough = true) : Selection.other q cards s = s := by
  induction cards with
  | nil => rfl
  | cons card cards ih =>
    refine (if_neg ?_).trans ih
    rw [henough, Bool.not_true, Bool.and_false]
    exact Bool.false_ne_true

theorem length_good_le (hne : s.enough = true → s.sent ≠ []) :
    s.sent.length ≤ (Selection.good q cards s).sent.length ∧
      ((Selection.good q cards s).enough = true → (Selection.good q cards s).sent ≠ []) := by
  induction cards generalizing s with
  | nil => exact ⟨Nat.le_refl _, hne⟩
  | cons card cards ih =>
    cases hc : q.candidate card with
    | false =>
      rw [good_cons_of_not hc]
      exact ih hne
    | true =>
      have hgrows := @grows_stepGood q s card hne
      rw [good_cons_of_candidate hc]
      split_ifs
      · exact ⟨hgrows.le, hgrows.nonempty⟩
      · obtain ⟨hle, hne'⟩ := ih hgrows.nonempty
        exact ⟨hgrows.le.trans hle, hne'⟩

theorem length_other_le : s.sent.length ≤ (Selection.other q cards s).sent.length := by
  induction cards generalizing s with
  | nil => exact Nat.le_refl _
  | cons card cards ih =>
    cases henough : s.enough with
    | true => rw [other_of_enough henough]
    | false =>
      cases hc : q.candidate card with
      | false =>
        rw [other_cons_of_not hc]
        exact ih
      | true =>
        have hgrows := @grows_stepOther q s card fun h => by rw [henough] at h; cases h
        rw [other_cons_of_candidate hc henough]
        split_ifs
        · exact hgrows.le
        · exact hgrows.le.trans ih

end Length

section Refinement

variable {size base : ℕ} {q : CardSearch} {buf : ℕ → Byte} {out : CardsOut} {s : Selection}
  {cards : List GboxCard}

/-- The first loop writes its selection. -/
theorem Written.goodLoop (h : Written base buf out s) (hfit : base + 3 * s.sent.length ≤ size) :
    Steps size base buf (goodLoop size q cards out) (Selection.good q cards s) := by
  induction cards generalizing out s with
  | nil => exact h.steps hfit
  | cons card cards ih =>
    cases hc : q.candidate card with
    | false =>
      rw [good_cons_of_not hc, Gbox.goodLoop, if_neg (by rw [hc]; exact Bool.false_ne_true)]
      exact ih h hfit
    | true =>
      have hstep := @Written.stepGood size base q buf out s h hfit card
      rw [good_cons_of_candidate hc, Gbox.goodLoop, if_pos hc]
      have hnonempty := (@grows_stepGood q s card h.nonempty).nonempty
      generalize s.stepGood q card = t at hstep hnonempty ⊢
      by_cases hfit' : base + 3 * t.sent.length ≤ size
      · obtain ⟨out', hout, hw⟩ := hstep.fits hfit'
        rw [hout, Option.bind_some]
        by_cases hfull : t.full q = true
        · rw [if_pos hfull, if_pos (hw.full.mpr hfull)]
          exact hw.steps hfit'
        · rw [if_neg hfull, if_neg fun hf => hfull (hw.full.mp hf)]
          exact ih hw hfit'
      · rw [hstep.leaves (by omega), Option.bind_none]
        have hle : t.sent.length ≤
            (if t.full q = true then t else Selection.good q cards t).sent.length := by
          split_ifs
          · exact Nat.le_refl _
          · exact (length_good_le hnonempty).1
        exact ⟨fun hf => absurd hf (by omega), fun _ => rfl⟩

/-- The second loop writes its selection behind that. -/
theorem Written.otherLoop (h : Written base buf out s) (hfit : base + 3 * s.sent.length ≤ size) :
    Steps size base buf ((otherLoop size q cards out).map Prod.snd) (Selection.other q cards s) := by
  induction cards generalizing out s with
  | nil => exact h.steps hfit
  | cons card cards ih =>
    cases hc : (q.candidate card && !s.enough) with
    | false =>
      have hother : Selection.other q (card :: cards) s = Selection.other q cards s :=
        if_neg (by rw [hc]; exact Bool.false_ne_true)
      rw [hother, Gbox.otherLoop, if_neg (by rw [h.enough, hc]; exact Bool.false_ne_true), Option.map_map]
      exact ih h hfit
    | true =>
      have hother : Selection.other q (card :: cards) s = if (s.stepOther q card).full q then
          s.stepOther q card else Selection.other q cards (s.stepOther q card) := if_pos hc
      obtain ⟨hcand, hopen⟩ := Bool.and_eq_true_iff.mp hc
      rw [Bool.not_eq_true'] at hopen
      rw [hother, Gbox.otherLoop, if_pos (by rw [h.enough, hc])]
      -- what the step gives, with the card as it goes back into the list
      have hstep : ∃ card' r, (if untested q card = true then (out.write size card.id).map fun out =>
          (strike q card, { out with nbMatchingCrds := out.nbMatchingCrds + 1 }) else some (card, out)) =
          Option.map (fun out => (card', out)) r ∧ Steps size base buf r (s.stepOther q card) := by
        unfold Selection.stepOther
        by_cases huntested : untested q card = true
        · rw [if_pos huntested, if_pos huntested]
          refine ⟨strike q card, ({ out with nbMatchingCrds := out.nbMatchingCrds + 1 } :
            CardsOut).write size card.id, ?_, ?_⟩
          · unfold CardsOut.write
            rw [Option.map_map, Option.map_map]
            rfl
          · have hwrite := @Written.write size base buf out s s.sent h (List.prefix_refl s.sent) card
              (out.nbMatchingCrds + 1) (by rw [h.nb, BitVec.ofNat_add]; rfl) s.enough s.avg
            rw [← h.len, ← h.enough, ← h.avg] at hwrite
            rw [← h.enough, ← h.avg]
            exact hwrite
        · rw [if_neg huntested, if_neg huntested]
          exact ⟨card, some out, rfl, h.steps hfit⟩
      obtain ⟨card', r, hr, hstep⟩ := hstep
      dsimp only
      rw [hr]
      generalize s.stepOther q card = t at hstep ⊢
      by_cases hfit' : base + 3 * t.sent.length ≤ size
      · obtain ⟨out', hout, hw⟩ := hstep.fits hfit'
        rw [hout, Option.map_some, Option.bind_some]
        by_cases hfull : t.full q = true
        · dsimp only
          rw [if_pos hfull, if_pos (hw.full.mpr hfull)]
          exact hw.steps hfit'
        · dsimp only
          rw [if_neg hfull, if_neg fun hf => hfull (hw.full.mp hf), Option.map_map]
          exact ih hw hfit'
      · rw [hstep.leaves (by omega), Option.map_none, Option.bind_none, Option.map_none]
        have hle : t.sent.length ≤
            (if t.full q = true then t else Selection.other q cards t).sent.length := by
          split_ifs
          · exact Nat.le_refl _
          · exact length_other_le
        exact ⟨fun hf => absurd hf (by omega), fun _ => rfl⟩

end Refinement

section Amount

variable (q : CardSearch) (cards : List GboxCard)

/-- The candidates whose sid is good. -/
def goods : List GboxCard := cards.filter fun c => q.candidate c && (q.findGood c).isSome

/-- The candidates whose sid is unknown or has not failed three times. -/
def others : List GboxCard := cards.filter fun c => q.candidate c && untested q c

/-- The good sid of the card is confirmed. -/
def confirmed (card : GboxCard) : Bool := (q.findGood card).any q.confirms

/-- One card if that is confirmed, after the good ones before it; all good and untested ones if none is,
up to the limit. -/
def wanted : ℕ :=
  (((goods q cards).take q.maxCards.toNat).findIdx? (confirmed q)).elim
    (min q.maxCards.toNat ((goods q cards).length + (others q cards).length)) (· + 1)

/-- The first candidate is not good if there is no room, and not untested if unconfirmed good ones take up
all the room. -/
def Limited : Prop :=
  (q.maxCards.toNat = 0 → (cards.find? q.candidate).all (fun c => (q.findGood c).isNone) = true) ∧
    (q.maxCards.toNat ≤ (goods q cards).length →
      ((goods q cards).take q.maxCards.toNat).any (confirmed q) = false →
        (cards.find? q.candidate).all (fun c => !untested q c) = true)

instance : Decidable (Limited q cards) := by
  unfold Limited
  infer_instance

variable {q cards} {s : Selection} {card : GboxCard}

theorem goods_cons_of_not (h : q.candidate card = false) : goods q (card :: cards) = goods q cards :=
  List.filter_cons_of_neg (by rw [h]; exact Bool.false_ne_true)

theorem others_cons_of_not (h : q.candidate card = false) : others q (card :: cards) = others q cards :=
  List.filter_cons_of_neg (by rw [h]; exact Bool.false_ne_true)

/-- What is selected are different cards: good ones, and behind them untested ones. -/
theorem good_sublist (hne : s.enough = true → s.sent ≠ []) :
    (Selection.good q cards s).sent.Sublist (s.sent ++ goods q cards) := by
  induction cards generalizing s with
  | nil => exact List.sublist_append_left _ _
  | cons card cards ih =>
    cases hc : q.candidate card with
    | false =>
      rw [good_cons_of_not hc, goods_cons_of_not hc]
      exact ih hne
    | true =>
      have hgrows := @grows_stepGood q s card hne
      have hstep : (s.stepGood q card).sent.Sublist (s.sent ++ goods q [card]) := by
        cases hgood : q.findGood card with
        | none =>
          rw [Selection.stepGood, hgood]
          exact List.sublist_append_left _ _
        | some g =>
          have hone : goods q [card] = [card] := by
            rw [goods, List.filter_singleton, hc, hgood]
            rfl
          rw [hone]
          exact hgrows.sublist
      have hsplit : s.sent ++ goods q (card :: cards) = s.sent ++ goods q [card] ++ goods q cards := by
        rw [List.append_assoc, goods, goods, goods, ← List.filter_append]
        rfl
      rw [good_cons_of_candidate hc, hsplit]
      split_ifs
      · exact hstep.trans (List.sublist_append_left _ _)
      · exact (ih hgrows.nonempty).trans (hstep.append_right _)

theorem other_sublist : (Selection.other q cards s).sent.Sublist (s.sent ++ others q cards) := by
  induction cards generalizing s with
  | nil => exact List.sublist_append_left _ _
  | cons card cards ih =>
    cases henough : s.enough with
    | true =>
      rw [other_of_enough henough]
      exact List.sublist_append_left _ _
    | false =>
      cases hc : q.candidate card with
      | false =>
        rw [other_cons_of_not hc, others_cons_of_not hc]
        exact ih
      | true =>
        have hstep : (s.stepOther q card).sent.Sublist (s.sent ++ others q [card]) := by
          cases huntested : untested q card with
          | false =>
            rw [Selection.stepOther, huntested]
            exact List.sublist_append_left _ _
          | true =>
            have hone : others q [card] = [card] := by
              rw [others, List.filter_singleton, hc, huntested]
              rfl
            rw [Selection.stepOther, huntested, hone]
            exact List.Sublist.refl _
        have hsplit : s.sent ++ others q (card :: cards) = s.sent ++ others q [card] ++ others q cards := by
          rw [List.append_assoc, others, others, others, ← List.filter_append]
          rfl
        rw [other_cons_of_candidate hc henough, hsplit]
        split_ifs
        · exact hstep.trans (List.sublist_append_left _ _)
        · exact ih.trans (hstep.append_right _)

theorem all_subperm : (Selection.all q cards).sent.Subperm (cards.filter q.candidate) := by
  have hgood : (Selection.good q cards Selection.start).sent.Sublist (goods q cards) :=
    @good_sublist q cards Selection.start fun h => by cases h
  have hall := (@other_sublist q cards (Selection.good q cards Selection.start)).trans
    (hgood.append_right (others q cards))
  refine hall.subperm.trans ?_
  have hrest : (others q cards).Sublist
      ((cards.filter q.candidate).filter fun c => !(q.findGood c).isSome) := by
    rw [List.filter_filter]
    refine List.monotone_filter_right cards fun c hc => ?_
    obtain ⟨hcand, huntested⟩ := Bool.and_eq_true_iff.mp hc
    have hnone := (Bool.and_eq_true_iff.mp huntested).1
    rw [hcand, Bool.and_true, Bool.not_eq_true', Option.isSome_eq_false_iff]
    exact hnone
  have hfirst : goods q cards = (cards.filter q.candidate).filter fun c => (q.findGood c).isSome := by
    rw [List.filter_filter]
    refine List.filter_congr fun c _ => ?_
    rw [Bool.and_comm]
  rw [hfirst]
  exact (hrest.append_left _).subperm.trans (List.filter_append_perm _ _).subperm

/-- Once there is a confirmed card only the last card changes. -/
theorem good_of_enough (hne : s.sent ≠ []) (henough : s.enough = true) :
    (Selection.good q cards s).enough = true ∧
      (Selection.good q cards s).sent.length = s.sent.length := by
  induction cards generalizing s with
  | nil => exact ⟨henough, rfl⟩
  | cons card cards ih =>
    cases hc : q.candidate card with
    | false =>
      rw [good_cons_of_not hc]
      exact ih hne henough
    | true =>
      have hstep : (s.stepGood q card).enough = true ∧ (s.stepGood q card).sent.length = s.sent.length := by
        unfold Selection.stepGood
        cases q.findGood card with
        | none => exact ⟨henough, rfl⟩
        | some g =>
          change (s.takeGood q card g).enough = true ∧ (s.takeGood q card g).sent.length = _
          unfold Selection.takeGood
          have := List.length_pos_iff.mpr hne
          by_cases hslow : (!s.enough || s.avg > card.averageCwTime) = true
          · rw [if_pos hslow, if_pos henough]
            refine ⟨rfl, ?_⟩
            simp only [List.length_append, List.length_dropLast, List.length_singleton]
            omega
          · rw [if_neg hslow]
            exact ⟨henough, rfl⟩
      have hne' : (s.stepGood q card).sent ≠ [] := by
        apply List.ne_nil_of_length_pos
        rw [hstep.2]
        exact List.length_pos_iff.mpr hne
      rw [good_cons_of_candidate hc]
      split_ifs
      · exact hstep
      · obtain ⟨h1, h2⟩ := ih hne' hstep.1
        exact ⟨h1, h2.trans hstep.2⟩

theorem full_iff (hle : s.sent.length ≤ 255) : s.full q = true ↔ s.sent.length = q.maxCards.toNat := by
  rw [Selection.full, decide_eq_true_eq]
  constructor
  · intro h
    rw [← h, BitVec.toNat_ofNat, Nat.mod_eq_of_lt (by omega)]
  · intro h
    rw [h, BitVec.ofNat_toNat, BitVec.setWidth_eq]

/-- While no card is confirmed the good ones are taken up to the limit. -/
theorem good_of_open (hopen : s.enough = false) (hlt : s.sent.length < q.maxCards.toNat) :
    (Selection.good q cards s).enough =
        ((goods q cards).take (q.maxCards.toNat - s.sent.length)).any (confirmed q) ∧
      (Selection.good q cards s).sent.length =
        (((goods q cards).take (q.maxCards.toNat - s.sent.length)).findIdx? (confirmed q)).elim
          (min q.maxCards.toNat (s.sent.length + (goods q cards).length)) fun k => s.sent.length + k + 1 := by
  have hmax := q.maxCards.isLt
  induction cards generalizing s with
  | nil =>
    rw [show goods q [] = [] from rfl, List.take_nil]
    refine ⟨hopen, ?_⟩
    change s.sent.length = min q.maxCards.toNat (s.sent.length + 0)
    omega
  | cons card cards ih =>
    cases hc : q.candidate card with
    | false =>
      rw [good_cons_of_not hc, goods_cons_of_not hc]
      exact ih hopen hlt
    | true =>
      rw [good_cons_of_candidate hc]
      cases hgood : q.findGood card with
      | none =>
        have hstep : s.stepGood q card = s := by rw [Selection.stepGood, hgood]; rfl
        have hgoods : goods q (card :: cards) = goods q cards :=
          List.filter_cons_of_neg (by rw [hc, hgood]; exact Bool.false_ne_true)
        have hnot : s.full q = false := by
          apply eq_false_of_ne_true
          rw [full_iff (by omega)]
          omega
        rw [hstep, hgoods, hnot]
        exact ih hopen hlt
      | some g =>
        have hstep : s.stepGood q card = ⟨s.sent ++ [card], q.confirms g, card.averageCwTime⟩ := by
          rw [Selection.stepGood, hgood]
          change s.takeGood q card g = _
          rw [Selection.takeGood, hopen]
          rfl
        have hgoods : goods q (card :: cards) = card :: goods q cards :=
          List.filter_cons_of_pos (by rw [hc, hgood]; rfl)
        have hconfirmed : confirmed q card = q.confirms g := by rw [confirmed, hgood]; rfl
        have hroom : q.maxCards.toNat - s.sent.length = q.maxCards.toNat - (s.sent.length + 1) + 1 := by omega
        have hlen : (s.sent ++ [card]).length = s.sent.length + 1 := by
          rw [List.length_append, List.length_singleton]
        rw [hstep, hgoods, hroom, List.take_succ_cons, List.any_cons, List.findIdx?_cons, hconfirmed]
        generalize ht : (⟨s.sent ++ [card], q.confirms g, card.averageCwTime⟩ : Selection) = t
        have htlen : t.sent.length = s.sent.length + 1 := by rw [← ht]; exact hlen
        have htenough : t.enough = q.confirms g := by rw [← ht]
        have htne : t.sent ≠ [] := List.ne_nil_of_length_pos (by omega)
        cases hconf : q.confirms g with
        | true =>
          have hall := @good_of_enough q cards t htne (htenough.trans hconf)
          rw [Bool.true_or, if_pos rfl, Option.elim_some, Nat.add_zero]
          split_ifs
          · exact ⟨htenough.trans hconf, htlen⟩
          · exact ⟨hall.1, hall.2.trans htlen⟩
        | false =>
          rw [Bool.false_or, if_neg Bool.false_ne_true]
          by_cases hfull : t.full q = true
          · have heq := (full_iff (by omega)).mp hfull
            rw [if_pos hfull, show q.maxCards.toNat - (s.sent.length + 1) = 0 by omega, List.take_zero]
            refine ⟨htenough.trans hconf, ?_⟩
            change t.sent.length = min q.maxCards.toNat (s.sent.length + (card :: goods q cards).length)
            rw [List.length_cons]
            omega
          · have hlt' : t.sent.length < q.maxCards.toNat := by
              have := mt (full_iff (by omega)).mpr hfull
              omega
            obtain ⟨h1, h2⟩ := ih (htenough.trans hconf) hlt'
            rw [htlen] at h1 h2
            rw [if_neg hfull]
            refine ⟨h1, h2.trans ?_⟩
            rw [List.length_cons]
            cases ((goods q cards).take (q.maxCards.toNat - (s.sent.length + 1))).findIdx?
              (confirmed q) with
            | none =>
              change min _ _ = min _ _
              congr 1
              omega
            | some k =>
              change s.sent.length + 1 + k + 1 = s.sent.length + (k + 1) + 1
              omega

/-- Below the limit the untested ones are taken up to it. -/
theorem other_of_open (hopen : s.enough = false) (hlt : s.sent.length < q.maxCards.toNat) :
    (Selection.other q cards s).sent.length =
      min q.maxCards.toNat (s.sent.length + (others q cards).length) := by
  have hmax := q.maxCards.isLt
  induction cards generalizing s with
  | nil =>
    change s.sent.length = min q.maxCards.toNat (s.sent.length + 0)
    omega
  | cons card cards ih =>
    cases hc : q.candidate card with
    | false =>
      rw [other_cons_of_not hc, others_cons_of_not hc]
      exact ih hopen hlt
    | true =>
      rw [other_cons_of_candidate hc hopen]
      cases huntested : untested q card with
      | false =>
        have hstep : s.stepOther q card = s := by
          rw [Selection.stepOther, huntested]
          rfl
        have hothers : others q (card :: cards) = others q cards :=
          List.filter_cons_of_neg (by rw [hc, huntested]; exact Bool.false_ne_true)
        have hnot : s.full q = false := by
          apply eq_false_of_ne_true
          rw [full_iff (by omega)]
          omega
        rw [hstep, hothers, hnot]
        exact ih hopen hlt
      | true =>
        have hstep : s.stepOther q card = { s with sent := s.sent ++ [card] } := by
          rw [Selection.stepOther, huntested]
          rfl
        have hothers : others q (card :: cards) = card :: others q cards :=
          List.filter_cons_of_pos (by rw [hc, huntested]; rfl)
        rw [hstep, hothers, List.length_cons]
        generalize ht : ({ s with sent := s.sent ++ [card] } : Selection) = t
        have htlen : t.sent.length = s.sent.length + 1 := by
          rw [← ht]
          exact List.length_append
        have htenough : t.enough = false := by rw [← ht]; exact hopen
        by_cases hfull : t.full q = true
        · have heq := (full_iff (by omega)).mp hfull
          rw [if_pos hfull]
          omega
        · have hlt' : t.sent.length < q.maxCards.toNat := by
            have := mt (full_iff (by omega)).mpr hfull
            omega
          rw [if_neg hfull, ih htenough hlt', htlen]
          congr 1
          omega

/-- At the limit the first candidate decides: the loop stops there, or takes it and does not stop any
more. -/
theorem other_of_full (hopen : s.enough = false) (heq : s.sent.length = q.maxCards.toNat) :
    (Selection.other q cards s).sent.length ≤ q.maxCards.toNat ↔
      (cards.find? q.candidate).all (fun c => !untested q c) = true := by
  have hmax := q.maxCards.isLt
  induction cards with
  | nil => exact iff_of_true (Nat.le_of_eq heq) rfl
  | cons card cards ih =>
    cases hc : q.candidate card with
    | false =>
      rw [other_cons_of_not hc, List.find?_cons_of_neg (by rw [hc]; exact Bool.false_ne_true)]
      exact ih
    | true =>
      rw [other_cons_of_candidate hc hopen, List.find?_cons_of_pos hc, Option.all_some]
      cases huntested : untested q card with
      | false =>
        have hstep : s.stepOther q card = s := by
          rw [Selection.stepOther, huntested]
          rfl
        rw [hstep, if_pos ((full_iff (by omega)).mpr heq)]
        exact iff_of_true (Nat.le_of_eq heq) rfl
      | true =>
        have hlen : (s.stepOther q card).sent.length = s.sent.length + 1 := by
          rw [Selection.stepOther, huntested]
          exact List.length_append
        refine iff_of_false ?_ Bool.false_ne_true
        split_ifs
        · omega
        · have := @length_other_le q (s.stepOther q card) cards
          omega

/-- Without room the first candidate decides the first loop. -/
theorem good_of_zero (hzero : q.maxCards.toNat = 0) :
    ((cards.find? q.candidate).all (fun c => (q.findGood c).isNone) = true ∧
        Selection.good q cards Selection.start = Selection.start) ∨
      ((cards.find? q.candidate).all (fun c => (q.findGood c).isNone) = false ∧
        0 < (Selection.good q cards Selection.start).sent.length) := by
  induction cards with
  | nil => exact Or.inl ⟨rfl, rfl⟩
  | cons card cards ih =>
    cases hc : q.candidate card with
    | false =>
      rw [good_cons_of_not hc, List.find?_cons_of_neg (by rw [hc]; exact Bool.false_ne_true)]
      exact ih
    | true =>
      rw [good_cons_of_candidate hc, List.find?_cons_of_pos hc, Option.all_some]
      cases hgood : q.findGood card with
      | none =>
        have hstep : Selection.start.stepGood q card = Selection.start := by
          rw [Selection.stepGood, hgood]
          rfl
        rw [hstep, if_pos ((@full_iff q Selection.start (Nat.zero_le 255)).mpr hzero.symm)]
        exact Or.inl ⟨rfl, rfl⟩
      | some g =>
        have hlen : (Selection.start.stepGood q card).sent.length = 1 := by
          rw [Selection.stepGood, hgood]
          rfl
        refine Or.inr ⟨rfl, ?_⟩
        split_ifs
        · omega
        · have hne : (Selection.start.stepGood q card).sent ≠ [] := List.ne_nil_of_length_pos (by omega)
          have := (@length_good_le q (Selection.start.stepGood q card) cards fun _ => hne).1
          omega

/-- The selection keeps to the limit exactly under `Limited`, and then its size is known. -/
theorem length_all : ((Selection.all q cards).sent.length ≤ q.maxCards.toNat ↔ Limited q cards) ∧
    (Limited q cards → (Selection.all q cards).sent.length = wanted q cards) := by
  unfold Selection.all
  rcases Nat.eq_zero_or_pos q.maxCards.toNat with hzero | hpos
  · have hwanted : wanted q cards = 0 := by
      rw [wanted, hzero, List.take_zero, List.findIdx?_nil, Option.elim_none, Nat.zero_min]
    have hany : ((goods q cards).take q.maxCards.toNat).any (confirmed q) = false := by
      rw [hzero, List.take_zero]
      rfl
    rcases @good_of_zero q cards hzero with ⟨hfirst, hstart⟩ | ⟨hfirst, hlen⟩
    · have hother := @other_of_full q cards Selection.start rfl hzero.symm
      have hlimited : Limited q cards ↔ (cards.find? q.candidate).all (fun c => !untested q c) = true :=
        ⟨fun h => h.2 (by omega) hany, fun h => ⟨fun _ => hfirst, fun _ _ => h⟩⟩
      rw [hstart, hlimited]
      refine ⟨hother, fun h => ?_⟩
      have := hother.mpr h
      omega
    · have hle := @length_other_le q (Selection.good q cards Selection.start) cards
      have hnot : ¬ Limited q cards := by
        intro h
        rw [h.1 hzero] at hfirst
        cases hfirst
      exact ⟨iff_of_false (by omega) hnot, fun h => absurd h hnot⟩
  · obtain ⟨henough, hlen⟩ := @good_of_open q cards Selection.start rfl hpos
    rw [show Selection.start.sent.length = 0 from rfl, Nat.sub_zero] at henough hlen
    generalize Selection.good q cards Selection.start = s at henough hlen ⊢
    unfold wanted
    cases hany : ((goods q cards).take q.maxCards.toNat).any (confirmed q) with
    | true =>
      obtain ⟨k, hk⟩ : ∃ k, ((goods q cards).take q.maxCards.toNat).findIdx? (confirmed q) = some k := by
        rw [← Option.isSome_iff_exists, List.findIdx?_isSome]
        exact hany
      have hlt := (List.findIdx?_eq_some_iff_getElem.mp hk).1
      rw [List.length_take] at hlt
      rw [hk, Option.elim_some, Nat.zero_add] at hlen
      rw [other_of_enough (henough.trans hany), hk, Option.elim_some]
      refine ⟨iff_of_true (by omega) ⟨fun hz => absurd hz (by omega), fun _ hno => ?_⟩, fun _ => hlen⟩
      rw [hany] at hno
      cases hno
    | false =>
      have hnone : ((goods q cards).take q.maxCards.toNat).findIdx? (confirmed q) = none := by
        exact List.findIdx?_eq_none_iff.mpr fun c hc => eq_false_of_ne_true (List.any_eq_false.mp hany c hc)
      rw [hnone, Option.elim_none, Nat.zero_add] at hlen
      rw [hnone, Option.elim_none]
      rw [hany] at henough
      by_cases hgoods : (goods q cards).length < q.maxCards.toNat
      · have hother := @other_of_open q cards s henough (by omega)
        have hs : s.sent.length = (goods q cards).length := by omega
        rw [hs] at hother
        refine ⟨iff_of_true (by omega) ⟨fun hz => absurd hz (by omega), fun hge => ?_⟩, fun _ => hother⟩
        exact absurd hgoods (by omega)
      · have hother := @other_of_full q cards s henough (by omega)
        have hle := @length_other_le q s cards
        have hlimited : Limited q cards ↔ (cards.find? q.candidate).all (fun c => !untested q c) = true :=
          ⟨fun h => h.2 (by omega) hany, fun h => ⟨fun hz => absurd hz (by omega), fun _ _ => h⟩⟩
        rw [hlimited]
        refine ⟨hother, fun h => ?_⟩
        have := hother.mpr h
        omega

end Amount

end NCam.Gbox
