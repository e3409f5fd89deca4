import NCam.CwCycle.Check

/-! The stages, the history and the size of the list of the control word cycle check, over all runs. A control word
that it refuses leaves the nodes as they are. -/
namespace NCam.CwCycle

open NCam.Ecm NCam.Lib

/-- The stages and what they say about the part that must cycle next. -/
inductive StageOk : ℤ → ℤ → Prop
  | learning {stage : ℤ} (hlo : 0 ≤ stage) (hhi : stage ≤ 2) : StageOk stage 2
  | learned {next : ℤ} (hnext : next = 0 ∨ next = 1) : StageOk 3 next
  | relearning : StageOk 4 2

def HistOk (hist : ℤ) : Prop := 0 ≤ hist ∧ hist < 15

structure NodeOk (c : CwCycleCheck) : Prop where
  stage : StageOk c.stage c.nextcyclecw
  hist : HistOk c.cwcHistEntry

/-- Every node is in order, and the size counts the nodes that are not old. -/
structure Good (s : State) : Prop where
  nodes : ∀ c ∈ s.cwCcList, NodeOk c
  size : s.cwCcListSize = (s.cwCcList.countP (!·.old) : ℕ)

theorem StageOk.bounds {stage next : ℤ} (h : StageOk stage next) : 0 ≤ stage ∧ stage ≤ 4 := by
  cases h with
  | learning hlo hhi => omega
  | learned => decide
  | relearning => decide

/-- In stage 3, and only there, it is known which part must cycle next. -/
theorem StageOk.learned_iff {stage next : ℤ} (h : StageOk stage next) :
    stage = 3 ↔ next = 0 ∨ next = 1 := by
  cases h with
  | learning hlo hhi => omega
  | learned hnext => simp [hnext]
  | relearning => decide

section Stages

variable {cfg : Setting} {call : Call} {now : ℤ} {c : CwCycleCheck} {w : Work}

theorem useCeInfo_next (h : useCeInfo cfg call = true) :
    (call.nextCwCycleFr.toNat : ℤ) = 0 ∨ (call.nextCwCycleFr.toNat : ℤ) = 1 := by
  unfold useCeInfo at h
  simp only [Bool.and_eq_true, decide_eq_true_eq] at h
  have hlt : call.nextCwCycleFr.toNat < 2 := h.2
  omega

/-- A learned part below 2 is one of the two parts; otherwise it stays unknown. -/
theorem learnedNext_cases (h : c.nextcyclecw = 2) :
    (learnedNext cfg call c < 2 → learnedNext cfg call c = 0 ∨ learnedNext cfg call c = 1) ∧
      (¬ learnedNext cfg call c < 2 → learnedNext cfg call c = 2) := by
  unfold learnedNext
  dsimp only
  rw [h]
  split_ifs <;> simp

theorem StageOk.next_of_ne {stage next : ℤ} (h : StageOk stage next) (hstage : stage ≠ 3) :
    next = 2 := by
  cases h with
  | learning => rfl
  | learned => exact absurd rfl hstage
  | relearning => rfl

theorem NodeOk.learnStages (h : NodeOk c) : NodeOk (learnStages cfg call now c) := by
  have hbounds := h.stage.bounds
  unfold CwCycle.learnStages
  dsimp only
  split_ifs with h0 hstable h1 hstable h2 hstable hlearned
  · constructor
    · dsimp only
      rw [h.stage.next_of_ne (by omega)]
      exact .learning (by omega) (by omega)
    · exact h.hist
  · exact h
  · constructor
    · dsimp only
      rw [h.stage.next_of_ne (by omega)]
      exact .learning (by omega) (by omega)
    · exact h.hist
  · constructor
    · dsimp only
      rw [h.stage.next_of_ne (by omega)]
      exact .learning (by omega) (by omega)
    · exact h.hist
  · constructor
    · exact .learned ((learnedNext_cases (h.stage.next_of_ne (by omega))).1 hlearned)
    · exact h.hist
  · constructor
    · dsimp only
      rw [(learnedNext_cases (h.stage.next_of_ne (by omega))).2 hlearned]
      exact .learning (by decide) (by decide)
    · exact h.hist
  · constructor
    · dsimp only
      rw [h.stage.next_of_ne (by omega)]
      exact .learning (by decide) (by decide)
    · exact h.hist
  · exact h

theorem NodeOk.learnStage4 (h : NodeOk c) (h4 : c.stage = 4) : NodeOk (learnStage4 cfg call c) := by
  unfold CwCycle.learnStage4
  constructor
  · dsimp only
    have h2 : c.nextcyclecw = 2 := h.stage.next_of_ne (by omega)
    split_ifs with hlearned hrepeat
    · exact .learned ((learnedNext_cases h2).1 hlearned)
    · rw [(learnedNext_cases h2).2 hlearned]
      exact .learning (by decide) (by decide)
    · rw [(learnedNext_cases h2).2 hlearned, h4]
      exact .relearning
  · exact h.hist

theorem NodeOk.setLocktime (h : NodeOk c) : NodeOk (setLocktime cfg now c) := by
  unfold CwCycle.setLocktime
  split_ifs <;> exact ⟨h.stage, h.hist⟩

theorem NodeOk.setDyncycletime (h : NodeOk c) : NodeOk (setDyncycletime now c) := by
  unfold CwCycle.setDyncycletime
  by_cases h3 : c.stage = 3
  · rw [if_pos h3]
    exact ⟨h.stage, h.hist⟩
  · rw [if_neg h3]
    exact h

theorem NodeOk.learning (h : NodeOk w.cwc) : NodeOk (learning cfg call now w).cwc := by
  unfold CwCycle.learning
  apply NodeOk.setDyncycletime
  by_cases hlock : now > w.cwc.locktime
  · rw [if_pos hlock]
    by_cases h4 : w.cwc.stage = 4
    · rw [if_pos h4]
      exact (h.learnStage4 h4).setLocktime
    · rw [if_neg h4]
      exact h.learnStages.setLocktime
  · rw [if_neg hlock]
    by_cases h3 : w.cwc.stage ≠ 3
    · rw [if_pos h3]
      exact h
    · rw [if_neg h3]
      exact h

theorem NodeOk.leaveStage3 (h : NodeOk w.cwc) : NodeOk (leaveStage3 cfg now w).cwc := by
  unfold CwCycle.leaveStage3
  split_ifs with h3
  · constructor
    · dsimp only
      rw [h3]
      split_ifs
      · exact .relearning
      · exact .learning (by decide) (by decide)
    · exact h.hist
  · exact h

theorem NodeOk.validCycle (h : NodeOk w.cwc) (h3 : w.cwc.stage = 3) {next : ℕ}
    (hnext : (next : ℤ) = 0 ∨ (next : ℤ) = 1) : NodeOk (validCycle next w).cwc := by
  unfold CwCycle.validCycle
  constructor
  · dsimp only
    rw [h3]
    exact .learned hnext
  · exact h.hist

theorem NodeOk.badCycle (h : NodeOk w.cwc) : NodeOk (badCycle cfg call w).cwc := by
  unfold CwCycle.badCycle
  cases w.cwc.ecmMd5.toList.find? (sameEcm w.er) with
  | some entry => exact h
  | none =>
    dsimp only
    split_ifs
    · exact ⟨.relearning, h.hist⟩
    · exact h

theorem NodeOk.fromCe (h : NodeOk w.cwc) (hce : useCeInfo cfg call = true) :
    NodeOk (fromCe cfg call now w).cwc := by
  unfold CwCycle.fromCe
  dsimp only
  split_ifs <;> exact ⟨.learned (useCeInfo_next hce), h.hist⟩

theorem NodeOk.judge (h : NodeOk w.cwc) : NodeOk (judge cfg call now w).cwc := by
  unfold CwCycle.judge
  split_ifs with hce hwindow hsame hok0 hok1
  · exact h.fromCe hce
  · exact h
  · exact (h.validCycle hwindow.1 (by decide)).learning
  · exact (h.validCycle hwindow.1 (by decide)).learning
  · exact h.badCycle
  · exact h.leaveStage3.learning

theorem NodeOk.updated (h : NodeOk c) (er : CheckedRequest) : NodeOk (updated call now er c) := by
  unfold CwCycle.updated
  constructor
  · exact h.stage
  · obtain ⟨hlo, hhi⟩ := h.hist
    have hbmod : int8 (c.cwcHistEntry + 1) = c.cwcHistEntry + 1 := by
      unfold int8
      exact Int.bmod_eq_of_le (by omega) (by omega)
    dsimp only
    rw [hbmod]
    unfold HistOk
    split_ifs <;> omega

theorem nodeOk_newEntry : NodeOk (newEntry cfg call now) := by
  unfold newEntry
  constructor
  · dsimp only
    split_ifs with hce
    · exact .learned (useCeInfo_next hce)
    · exact .learning (by decide) (by decide)
  · exact ⟨Int.le_refl 0, Int.ofNat_lt.mpr (by decide)⟩

end Stages

section Lists

variable {er : CheckedRequest} {node : CwCycleCheck} {nodes list : List CwCycleCheck}

/-- The node found is in the list, which it leaves as an old one. -/
theorem lookup_eq_some (h : lookup er nodes = some (node, list)) :
    ∃ before after, nodes = before ++ node :: after ∧
      list = before ++ { node with old := true } :: after := by
  induction nodes generalizing node list with
  | nil => exact absurd h (by simp [lookup])
  | cons c rest ih =>
    unfold lookup at h
    split_ifs at h with hsame
    · obtain ⟨rfl, rfl⟩ := Prod.mk.inj (Option.some.inj h)
      exact ⟨[], rest, rfl, rfl⟩
    · obtain ⟨⟨found, rest'⟩, hrest, heq⟩ := Option.map_eq_some_iff.mp h
      obtain ⟨rfl, rfl⟩ := Prod.mk.inj heq
      obtain ⟨before, after, hbefore, hafter⟩ := ih hrest
      refine ⟨c :: before, after, ?_, ?_⟩
      · rw [hbefore, List.cons_append]
      · rw [hafter, List.cons_append]

theorem countP_marked {before after : List CwCycleCheck} (node : CwCycleCheck) :
    ((before ++ { node with old := true } :: after).countP (!·.old) : ℤ) =
      if node.old then ((before ++ node :: after).countP (!·.old) : ℤ)
      else ((before ++ node :: after).countP (!·.old) : ℤ) - 1 := by
  rw [List.countP_append, List.countP_append, List.countP_cons, List.countP_cons]
  cases node.old with
  | true => simp
  | false =>
    simp
    omega

end Lists

section Steps

variable {s : State} {c node : CwCycleCheck} {list : List CwCycleCheck}

theorem Good.push (h : Good s) (hc : NodeOk c) (hold : c.old = false) :
    Good { s with cwCcList := c :: s.cwCcList, cwCcListSize := s.cwCcListSize + 1 } := by
  constructor
  · intro c' hc'
    rcases List.mem_cons.mp hc' with rfl | hc'
    · exact hc
    · exact h.nodes c' hc'
  · dsimp only
    rw [h.size, List.countP_cons_of_pos (by rw [hold]; rfl)]
    rfl

/-- The node found is in order, and so is the list once it is marked and taken off the size. -/
theorem Good.lookup (h : Good s) {er : CheckedRequest}
    (hlookup : lookup er s.cwCcList = some (node, list)) : NodeOk node ∧
      Good { s with
        cwCcList := list
        cwCcListSize := if node.old then s.cwCcListSize else s.cwCcListSize - 1 } := by
  obtain ⟨before, after, hnodes, hlist⟩ := lookup_eq_some hlookup
  have hnode : NodeOk node := h.nodes node (by rw [hnodes]; simp)
  refine ⟨hnode, ?_, ?_⟩
  · intro c hc
    dsimp only at hc
    rw [hlist] at hc
    rcases List.mem_append.mp hc with hc | hc
    · exact h.nodes c (by rw [hnodes]; simp [hc])
    · rcases List.mem_cons.mp hc with rfl | hc
      · exact ⟨hnode.stage, hnode.hist⟩
      · exact h.nodes c (by rw [hnodes]; simp [hc])
  · dsimp only
    rw [hlist, countP_marked, ← hnodes, h.size]

theorem Good.checkcwcycleInt (h : Good s) (cfg : Setting) (call : Call) :
    Good (checkcwcycleInt cfg call s).2.2 := by
  unfold CwCycle.checkcwcycleInt
  dsimp only
  by_cases hvalid : (!(checkvalidCW call.er).1) = true
  · rw [if_pos hvalid]
    exact h
  rw [if_neg hvalid]
  generalize (checkvalidCW call.er).2 = er
  cases hlookup : CwCycle.lookup er s.cwCcList with
  | none =>
    dsimp only
    by_cases hspace : s.cwCcListSize ≤ cfg.maxcyclelist ∧ call.alloc = true
    · rw [if_pos hspace]
      exact h.push nodeOk_newEntry rfl
    · rw [if_neg hspace]
      exact h
  | some found =>
    obtain ⟨node, list⟩ := found
    obtain ⟨hnode, hlist⟩ := h.lookup hlookup
    dsimp only
    generalize hw : judge cfg call call.er.tps ⟨node, 6, true, er⟩ = w
    have hcwc : NodeOk w.cwc := by
      rw [← hw]
      exact NodeOk.judge (w := ⟨node, 6, true, er⟩) hnode
    by_cases halloc : (!call.alloc) = true
    · rw [if_pos halloc]
      exact h
    rw [if_neg halloc]
    by_cases hupd : w.updEntry = true
    · rw [if_pos hupd]
      exact hlist.push (hcwc.updated w.er) rfl
    · rw [if_neg hupd]
      exact hlist

theorem Good.cleanupcwcycle (h : Good s) (keepcycletime now : ℤ) :
    Good (cleanupcwcycle keepcycletime now s) := by
  unfold CwCycle.cleanupcwcycle
  by_cases hearly : s.lastCwcyclecleaning + 120 > now
  · rw [if_pos hearly]
    exact h
  rw [if_neg hearly]
  constructor
  · intro c hc
    exact h.nodes c (List.takeWhile_subset _ hc)
  · dsimp only
    generalize (fun node : CwCycleCheck => decide (now - node.time ≤ keepcycletime * 60 + 30)) = young
    have hsplit := congrArg (List.countP (!·.old))
      (List.takeWhile_append_dropWhile (p := young) (l := s.cwCcList))
    rw [List.countP_append] at hsplit
    rw [h.size]
    omega

end Steps

/-- In every state that calls and cleanups lead to, every node has a stage from 0 to 4, a history entry
from 0 to 14 and a known next part exactly in stage 3, and the size counts the nodes that are not old. -/
theorem stages_good {s : State} (h : system.Reachable System.free s) :
    (∀ c ∈ s.cwCcList, (0 ≤ c.stage ∧ c.stage ≤ 4) ∧ (0 ≤ c.cwcHistEntry ∧ c.cwcHistEntry < 15) ∧
      (c.stage = 3 ↔ c.nextcyclecw = 0 ∨ c.nextcyclecw = 1)) ∧
      s.cwCcListSize = (s.cwCcList.countP (!·.old) : ℕ) := by
  have hgood : Good s := by
    apply h.invariant
    · intro s hinit
      obtain ⟨hlist, hsize, _⟩ := hinit
      constructor
      · rw [hlist]
        simp
      · rw [hlist, hsize]
        rfl
    · intro s a s' hs _ hnext
      rw [← Option.some.inj hnext]
      cases a with
      | check cfg call => exact hs.checkcwcycleInt cfg call
      | cleanup keepcycletime now => exact hs.cleanupcwcycle keepcycletime now
  constructor
  · intro c hc
    have hok := hgood.nodes c hc
    exact ⟨hok.stage.bounds, hok.hist, hok.stage.learned_iff⟩
  · exact hgood.size

/-- A configuration that takes cycle times from cache exchange. -/
def ceSetting : Setting where
  maxcyclelist := 500
  cwcycleUsecwcfromce := true
  cwcycleDropold := true
  cwcycleSensitive := 4
  cwcycleAllowbadfromffb := false
  keepcycletime := 0
  fallbacktimeout := fun _ => 2500
  memcmp := fun as bs => if as = bs then 0 else 1

/-- A call at the second `now`. -/
def callAt (now : ℤ) (cw : Cw) (cycletimeFr : Byte) : Call where
  er :=
    { caid := 0x0500
      prid := 0x020810
      srvid := 1
      chid := 0
      ecmlen := 0
      tps := now
      ecmd5 := .replicate 16 (.ofInt 8 now)
      cspHash := 0
      cw := cw
      rc := E_FOUND
      cwcCycletime := 0
      cwcNextCwCycle := 2 }
  cw := cw
  cycletimeFr := cycletimeFr
  nextCwCycleFr := 0
  posFallback := false
  alloc := true

/-- A service learned from cache exchange, a valid cycle ten seconds later, and a cleanup. -/
theorem stages_good_two : ∃ s, system.Reachable System.free s ∧
    s.cwCcList.map (fun c => (c.stage, c.nextcyclecw, c.old)) = [(3, 1, false), (3, 0, true)] ∧
    (∀ c ∈ s.cwCcList, (0 ≤ c.stage ∧ c.stage ≤ 4) ∧ (0 ≤ c.cwcHistEntry ∧ c.cwcHistEntry < 15) ∧
      (c.stage = 3 ↔ c.nextcyclecw = 0 ∨ c.nextcyclecw = 1)) ∧
      s.cwCcListSize = (s.cwCcList.countP (!·.old) : ℕ) := by
  obtain ⟨s, hs, hp⟩ := System.exists_reachable_of_exec (G := System.free) (S := system)
    (s := ⟨[], 0, 0⟩) (by exact ⟨rfl, rfl, rfl⟩)
    [.check ceSetting (callAt 1000 (.replicate 16 1) 10),
      .check ceSetting (callAt 1010 (.ofFn fun i => if i.val < 8 then 1 else 2) 0), .cleanup 0 1030]
    (fun s => s.cwCcList.map (fun c => (c.stage, c.nextcyclecw, c.old)) =
      [(3, 1, false), (3, 0, true)]) (by decide +kernel)
  exact ⟨s, hs, of_decide_eq_true hp, stages_good hs⟩

/-- The results for a bad, an old and a stored control word. -/
def Refused (ret : ℕ) : Prop := ret = 1 ∨ ret = 2 ∨ ret = 4

/-- The same nodes in the same order, but for their marks. -/
def SameNodes (nodes nodes' : List CwCycleCheck) : Prop :=
  List.Forall₂ (fun node node' => node' = { node with old := node'.old }) nodes nodes'

section Refusing

variable {cfg : Setting} {call : Call} {now : ℤ} {w : Work}

/-- The learning stages refuse nothing. -/
theorem learning_notRefused (h : ¬ Refused w.ret) : ¬ Refused (learning cfg call now w).ret := by
  unfold learning
  dsimp only
  by_cases hlock : now > w.cwc.locktime
  · rw [if_pos hlock]
    by_cases h4 : w.cwc.stage = 4
    · rw [if_pos h4]
      by_cases h3 : w.ret = 3 <;> simp [Refused, h3]
    · simpa [h4] using h
  · rw [if_neg hlock]
    by_cases h3 : w.cwc.stage ≠ 3
    · simpa [h3] using h
    · simpa [h3] using h

theorem leaveStage3_notRefused (h : ¬ Refused w.ret) : ¬ Refused (leaveStage3 cfg now w).ret := by
  unfold leaveStage3
  split_ifs with h3
  · simp [Refused]
  · exact h

/-- A node whose cycle is bad is not updated, unless the reader is a fixed fallback. -/
theorem badCycle_updEntry (h : Refused (badCycle cfg call w).ret) : (badCycle cfg call w).updEntry = false := by
  unfold badCycle at h ⊢
  cases hold : w.cwc.ecmMd5.toList.find? (sameEcm w.er) with
  | some entry => simp
  | none =>
    simp only [hold] at h ⊢
    split_ifs at h ⊢ with hfb
    · simp [Refused] at h
    · simp

theorem fromCe_updEntry (h : Refused (fromCe cfg call now w).ret) : (fromCe cfg call now w).updEntry = false := by
  unfold fromCe at h ⊢
  dsimp only at h ⊢
  split_ifs at h ⊢ with hsame
  · rfl
  · simp [Refused] at h

/-- A refused control word updates no node. -/
theorem judge_updEntry (hw : ¬ Refused w.ret) (h : Refused (judge cfg call now w).ret) :
    (judge cfg call now w).updEntry = false := by
  unfold judge at h ⊢
  have hvalid : ∀ next, ¬ Refused (validCycle next w).ret := by
    intro next
    simp [validCycle, Refused]
  split_ifs at h ⊢ with hce hwindow hsame hok0 hok1
  · exact fromCe_updEntry h
  · rfl
  · exact absurd h (learning_notRefused (hvalid 1))
  · exact absurd h (learning_notRefused (hvalid 0))
  · exact badCycle_updEntry h
  · exact absurd h (learning_notRefused (leaveStage3_notRefused hw))

theorem SameNodes.refl (nodes : List CwCycleCheck) : SameNodes nodes nodes := by
  apply List.forall₂_same.mpr
  intro node _
  rfl

/-- The lookup marks the node it finds. -/
theorem lookup_sameNodes {er : CheckedRequest} {nodes list : List CwCycleCheck} {node : CwCycleCheck}
    (h : lookup er nodes = some (node, list)) : SameNodes nodes list := by
  obtain ⟨before, after, rfl, rfl⟩ := lookup_eq_some h
  apply List.rel_append
  · exact SameNodes.refl before
  · apply List.Forall₂.cons
    · rfl
    · exact SameNodes.refl after

/-- A control word found bad, old or the same as the stored one changes nothing but marks: no node comes or
goes, and none gets another control word, stage, time or history. -/
theorem checkcwcycleInt_refused (cfg : Setting) (call : Call) (s : State)
    (h : Refused (checkcwcycleInt cfg call s).1) :
    SameNodes s.cwCcList (checkcwcycleInt cfg call s).2.2.cwCcList := by
  have hsix : ¬ Refused 6 := by simp [Refused]
  have height : ¬ Refused 8 := by simp [Refused]
  unfold checkcwcycleInt at h ⊢
  dsimp only at h ⊢
  by_cases hvalid : (!(checkvalidCW call.er).1) = true
  · rw [if_pos hvalid]
    exact SameNodes.refl _
  rw [if_neg hvalid] at h ⊢
  generalize (checkvalidCW call.er).2 = er at h ⊢
  cases hlookup : lookup er s.cwCcList with
  | none =>
    rw [hlookup] at h
    dsimp only at h
    split_ifs at h with hspace hce
    · exact absurd h height
    · exact absurd h hsix
    · exact absurd h hsix
  | some found =>
    obtain ⟨node, list⟩ := found
    rw [hlookup] at h
    dsimp only at h ⊢
    by_cases halloc : (!call.alloc) = true
    · rw [if_pos halloc]
      exact SameNodes.refl _
    rw [if_neg halloc] at h ⊢
    have hkeep : (judge cfg call call.er.tps ⟨node, 6, true, er⟩).updEntry = false := by
      apply judge_updEntry hsix
      split_ifs at h <;> exact h
    rw [if_neg (by rw [hkeep]; exact Bool.false_ne_true)]
    exact lookup_sameNodes hlookup

end Refusing

/-- The store after the first control word of a service. -/
private def learned : State := (checkcwcycleInt ceSetting (callAt 1000 (.replicate 16 1) 10) ⟨[], 0, 0⟩).2.2

/-- A bad cycle ten seconds later, and the stored control word again after five and after twelve seconds. -/
theorem checkcwcycleInt_refused_learned :
    ((checkcwcycleInt ceSetting (callAt 1010 (.replicate 16 3) 0) learned).1 = 1 ∧
      SameNodes learned.cwCcList
        (checkcwcycleInt ceSetting (callAt 1010 (.replicate 16 3) 0) learned).2.2.cwCcList) ∧
    ((checkcwcycleInt ceSetting (callAt 1012 (.replicate 16 1) 0) learned).1 = 2 ∧
      SameNodes learned.cwCcList
        (checkcwcycleInt ceSetting (callAt 1012 (.replicate 16 1) 0) learned).2.2.cwCcList) ∧
    ((checkcwcycleInt ceSetting (callAt 1005 (.replicate 16 1) 0) learned).1 = 4 ∧
      SameNodes learned.cwCcList
        (checkcwcycleInt ceSetting (callAt 1005 (.replicate 16 1) 0) learned).2.2.cwCcList) := by
  have hbad : (checkcwcycleInt ceSetting (callAt 1010 (.replicate 16 3) 0) learned).1 = 1 := by decide +kernel
  have hold : (checkcwcycleInt ceSetting (callAt 1012 (.replicate 16 1) 0) learned).1 = 2 := by decide +kernel
  have hsame : (checkcwcycleInt ceSetting (callAt 1005 (.replicate 16 1) 0) learned).1 = 4 := by decide +kernel
  exact ⟨⟨hbad, checkcwcycleInt_refused _ _ _ (Or.inl hbad)⟩,
    ⟨hold, checkcwcycleInt_refused _ _ _ (Or.inr (Or.inl hold))⟩,
    ⟨hsame, checkcwcycleInt_refused _ _ _ (Or.inr (Or.inr hsame))⟩⟩

end NCam.CwCycle
