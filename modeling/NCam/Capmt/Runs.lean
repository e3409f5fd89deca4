import NCam.Capmt.Demuxers

/-! Runs of CA PMT objects: the demuxers of every connection stay those of its list. -/
namespace NCam.Capmt

open NCam.Lib

variable {box : Setup} {s t : Server} {e : Object} {demux : ℕ → Demux} {d : Demux} {fd : ℤ} {p : Params}
  {c : Conn} {i : ℕ}

/-- A box without a special way of finding demuxers. -/
structure Setup.Plain (box : Setup) : Prop where
  coolapi : box.coolapi = false
  samygo : box.boxtype ≠ .samygo
  ipboxPmt : box.boxtype ≠ .ipboxPmt

theorem Setup.Plain.fullCheck (h : box.Plain) : fullCheck box = true := by
  unfold Capmt.fullCheck
  rw [h.coolapi, decide_eq_false h.samygo]
  rfl

theorem Setup.Plain.at (h : box.Plain) : p.at box i = p := by
  unfold Params.at
  rw [if_neg h.ipboxPmt]

/-- A signed byte is equal to an unsigned one only below 128. -/
theorem toInt_eq_toNat_iff (a b : BitVec 8) : a.toInt = b.toNat ↔ a = b ∧ b.toNat < 128 := by
  have ha := a.isLt
  have hb := b.isLt
  rw [← BitVec.toNat_inj, BitVec.toInt_eq_toNat_cond]
  split_ifs with h
  · omega
  · omega

/-- The search finds a demuxer by the program, unless an index of the object is not below 128. -/
theorem matched_iff (hbox : box.Plain) : d.matched box fd p = true ↔
    d.holds fd ∧ d.params = p ∧ 0 < fd ∧ p.demuxIndex.toNat < 128 ∧ p.adapterIndex.toNat < 128 := by
  unfold Demux.matched Demux.sameParams Demux.holds
  rw [hbox.fullCheck, if_pos rfl]
  simp only [Bool.and_eq_true, decide_eq_true_eq, toInt_eq_toNat_iff]
  constructor
  · rintro ⟨hoccupied, ⟨⟨hpos, hfd⟩, hnumber⟩, ⟨hdemux, hsmall⟩, hmask, ⟨hadapter, hsmall'⟩, hpmt, hens, htsid, honid⟩
    refine ⟨⟨hoccupied, hfd⟩, ?_, hpos, hsmall, hsmall'⟩
    cases hd : d.params
    cases p
    rw [hd] at hnumber hdemux hmask hadapter hpmt hens htsid honid
    simp only at hnumber hdemux hmask hadapter hpmt hens htsid honid
    rw [hnumber, hdemux, hmask, hadapter, hpmt, hens, htsid, honid]
  · rintro ⟨⟨hoccupied, hfd⟩, rfl, hpos, hsmall, hsmall'⟩
    exact ⟨hoccupied, ⟨⟨hpos, hfd⟩, rfl⟩, ⟨rfl, hsmall⟩, rfl, ⟨rfl, hsmall'⟩, rfl, rfl, rfl, rfl⟩

theorem findDemux_some (hbox : box.Plain) (h : findDemux box fd p demux = some i) :
    i < box.maxDemux ∧ (demux i).holds fd ∧ (demux i).params = p := by
  obtain ⟨hmatched, hi, -⟩ := List.find?_range_eq_some.mp h
  rw [hbox.at, matched_iff hbox] at hmatched
  exact ⟨List.mem_range.mp hi, hmatched.1, hmatched.2.1⟩

theorem findDemux_none (hbox : box.Plain) (h : findDemux box fd p demux = none) (hi : i < box.maxDemux)
    (hh : (demux i).holds fd) (hp : (demux i).params = p) :
    ¬ (0 < fd ∧ p.demuxIndex.toNat < 128 ∧ p.adapterIndex.toNat < 128) := by
  intro hsmall
  refine List.find?_eq_none.mp h i (List.mem_range.mpr hi) ?_
  rw [hbox.at]
  exact (matched_iff hbox).mpr ⟨hh, hp, hsmall⟩

/-- The demuxers once the marks of a new list are set, and the list so far. -/
def begun (box : Setup) (m : ListManagement) (fd : ℤ) (demux : ℕ → Demux) : ℕ → Demux :=
  if m.marks then markList box fd demux else demux

def Conn.begun (c : Conn) (m : ListManagement) : Conn :=
  if m.marks then ⟨c.latest, [], true, []⟩ else c

theorem Conn.next_begun {c' : Conn} {m : ListManagement} (h : c.next m p = some c') :
    (c.begun m).inList = true ∧ p ∉ (c.begun m).latest ∧
      c' = { c.begun m with latest := (c.begun m).latest ++ [p], inList := !m.stops } ∧
      m ≠ .update ∧ m ≠ .add := by
  cases m with
  | first =>
    obtain ⟨-, h⟩ := Option.ite_none_left_eq_some.mp h
    exact ⟨rfl, List.not_mem_nil, (Option.some.inj h).symm, by decide, by decide⟩
  | only =>
    obtain ⟨-, h⟩ := Option.ite_none_left_eq_some.mp h
    exact ⟨rfl, List.not_mem_nil, (Option.some.inj h).symm, by decide, by decide⟩
  | more =>
    obtain ⟨hin, h⟩ := Option.ite_none_right_eq_some.mp h
    exact ⟨hin.1, hin.2, (Option.some.inj h).symm, by decide, by decide⟩
  | last =>
    obtain ⟨hin, h⟩ := Option.ite_none_right_eq_some.mp h
    exact ⟨hin.1, hin.2, (Option.some.inj h).symm, by decide, by decide⟩
  | add => cases h
  | update => cases h

theorem begun_holds {m : ListManagement} {fd' : ℤ} :
    (begun box m fd demux i).holds fd' ↔ (demux i).holds fd' := by
  unfold begun
  split_ifs
  · exact markList_holds box
  · exact Iff.rfl

theorem begun_params {m : ListManagement} : (begun box m fd demux i).params = (demux i).params := by
  unfold begun
  split_ifs
  · exact markList_params box
  · rfl

theorem begun_of_ne {m : ListManagement} {fd' : ℤ} (h : (demux i).holds fd') (hne : fd' ≠ fd) :
    begun box m fd demux i = demux i := by
  unfold begun
  split_ifs
  · exact markList_of_ne box h hne
  · rfl

theorem Served.begun {m : ListManagement} (h : Served box.maxDemux demux fd c) :
    Served box.maxDemux (begun box m fd demux) fd (c.begun m) := by
  unfold Capmt.begun Conn.begun
  split_ifs
  · exact h.markList
  · exact h

/-- What the object does to its demuxer, or to the marks of the others, is done by the last one as well. -/
theorem dvbapiParseCapmt_found (hbox : box.Plain) {m : ListManagement}
    (h : findDemux box fd p (begun box m fd demux) = some i) :
    ∃ id, dvbapiParseCapmt box m true fd p demux =
      (let demux := Function.update (begun box m fd demux) i
          { begun box m fd demux i with stopDescrambling := false }
       if m.stops then ⟨stopMarked box demux, stopList box demux, id⟩ else ⟨demux, [], id⟩) := by
  refine ⟨some i, ?_⟩
  unfold begun at h ⊢
  unfold dvbapiParseCapmt
  rw [hbox.coolapi]
  simp only [Bool.false_eq_true, if_false, h, Outcome.command, if_true]
  split_ifs <;> rfl

theorem dvbapiParseCapmt_new (hbox : box.Plain) {m : ListManagement} (hm : m ≠ .update)
    (h : findDemux box fd p (begun box m fd demux) = none) {demux' : ℕ → Demux}
    (hdemux : demux' = if m.stops then stopMarked box (begun box m fd demux) else begun box m fd demux)
    (hi : Slots.firstWhere (fun d => !d.occupied) demux' box.maxDemux = some i) :
    dvbapiParseCapmt box m true fd p demux =
      ⟨Function.update demux' i ⟨p, fd, false⟩,
        if m.stops then stopList box (begun box m fd demux) else [], some i⟩ := by
  have hput : p.demux box fd i = ⟨p, fd, false⟩ := by
    unfold Params.demux
    rw [if_neg hbox.ipboxPmt]
  unfold begun at h hdemux ⊢
  unfold dvbapiParseCapmt
  rw [hbox.coolapi]
  subst hdemux
  simp only [Bool.false_eq_true, if_false, h, if_neg hm]
  by_cases hstops : m.stops = true
  · rw [if_pos hstops] at hi
    simp only [if_pos hstops, hi, hput, Outcome.command, if_true]
  · rw [if_neg hstops] at hi
    simp only [if_neg hstops, hi, hput, Outcome.command, if_true]

/-- The demuxers of the connection are the same. -/
def Untouched (n : ℕ) (fd : ℤ) (a b : ℕ → Demux) : Prop :=
  ∀ i < n, (a i).holds fd ∨ (b i).holds fd → b i = a i

theorem Untouched.trans {n : ℕ} {a b c : ℕ → Demux} (hab : Untouched n fd a b) (hbc : Untouched n fd b c) :
    Untouched n fd a c := by
  intro i hi hh
  have hb : (b i).holds fd := by
    rcases hh with ha | hc
    · rw [hab i hi (Or.inl ha)]
      exact ha
    · rw [← hbc i hi (Or.inr hc)]
      exact hc
  exact (hbc i hi (Or.inl hb)).trans (hab i hi (Or.inr hb))

theorem untouched_begun {n : ℕ} {m : ListManagement} {fd' : ℤ} (hne : fd' ≠ fd) :
    Untouched n fd' demux (begun box m fd demux) := by
  rintro i - (hh | hh)
  · exact begun_of_ne hh hne
  · exact begun_of_ne (begun_holds.mp hh) hne

theorem untouched_update {n : ℕ} {fd' : ℤ} (hold : ¬ (demux i).holds fd') (hnew : ¬ d.holds fd') :
    Untouched n fd' demux (Function.update demux i d) := by
  intro j _ hh
  by_cases hj : j = i
  · rw [hj, Function.update_self] at hh
    rcases hh with hh | hh
    · exact absurd hh hold
    · exact absurd hh hnew
  · rw [Function.update_of_ne hj]

theorem untouched_stopMarked {fd' : ℤ}
    (h : ∀ i < box.maxDemux, (demux i).marked = true → (demux i).socketFd ≠ fd') :
    Untouched box.maxDemux fd' demux (stopMarked box demux) := by
  rintro i hi (hh | hh)
  · have hstop : (demux i).stopDescrambling = false := by
      cases hm : (demux i).stopDescrambling with
      | false => rfl
      | true => exact absurd hh.2 (h i hi (Bool.and_eq_true_iff.mpr ⟨hh.1, hm⟩))
    exact stopMarked_of_holds box ((stopMarked_holds box hi).mpr ⟨hh, hstop⟩)
  · exact stopMarked_of_holds box hh

/-- An object whose program has a demuxer. -/
theorem Served.object_found (hbox : box.Plain) {m : ListManagement} {c' : Conn}
    (h : Served box.maxDemux demux fd c) (hnext : c.next m p = some c')
    (hf : findDemux box fd p (Capmt.begun box m fd demux) = some i) {r : Outcome}
    (hr : r = dvbapiParseCapmt box m true fd p demux) :
    Served box.maxDemux r.demux fd { c' with stopped := c'.stopped ++ stoppedOf r.stopped fd } := by
  obtain ⟨hopen, -, rfl, -, -⟩ := Conn.next_begun hnext
  obtain ⟨hi, hh, hp⟩ := findDemux_some hbox hf
  obtain ⟨id, heq⟩ := dvbapiParseCapmt_found hbox hf
  have hunmarked := (h.begun (m := m)).unmark hopen hi hh hp
  rw [hr, heq]
  by_cases hstops : m.stops = true
  · rw [if_pos hstops, hstops]
    exact hunmarked.stop
  · rw [if_neg hstops, eq_false_of_ne_true hstops, Bool.not_false, ← hopen]
    have hnil : stoppedOf [] fd = [] := rfl
    change Served _ _ _ { c.begun m with stopped := _ ++ stoppedOf [] fd, latest := _ }
    rw [hnil, List.append_nil]
    exact hunmarked

theorem begun_marked {m : ListManagement} (hi : i < box.maxDemux) (hh : (demux i).holds fd)
    (hm : (demux i).stopDescrambling = true ∨ m = .only) :
    (Capmt.begun box m fd demux i).marked = true := by
  have hmark := markList_of_holds box hi hh
  refine Bool.and_eq_true_iff.mpr ⟨(begun_holds.mpr hh).1, ?_⟩
  unfold Capmt.begun
  rcases hm with hold | honly
  · split_ifs
    · exact hmark
    · exact hold
  · rw [honly]
    exact hmark

/-- The demuxer that a new program takes. -/
theorem exists_free {m : ListManagement} {demux' : ℕ → Demux}
    (hdemux : demux' = if m.stops then stopMarked box (Capmt.begun box m fd demux)
      else Capmt.begun box m fd demux)
    (hroom : ∃ i < box.maxDemux, (demux i).occupied = false ∨ m.stops = true ∧ (demux i).holds fd ∧
      ((demux i).stopDescrambling = true ∨ m = .only)) :
    ∃ i, Slots.firstWhere (fun d => !d.occupied) demux' box.maxDemux = some i := by
  cases hfirst : Slots.firstWhere (fun d => !d.occupied) demux' box.maxDemux with
  | some i => exact ⟨i, rfl⟩
  | none =>
    obtain ⟨i, hi, hfree⟩ := hroom
    have hfull := Slots.firstWhere_eq_none.mp hfirst i hi
    have hempty : (demux' i).occupied = false := by
      rw [hdemux]
      rcases hfree with hfree | ⟨hstops, hh, hm⟩
      · have hbegun : (Capmt.begun box m fd demux i).occupied = false := by
          unfold Demux.occupied at hfree ⊢
          rw [begun_params]
          exact hfree
        split_ifs
        · unfold stopMarked
          split_ifs
          · rfl
          · exact hbegun
        · exact hbegun
      · rw [if_pos hstops]
        unfold stopMarked
        rw [if_pos ⟨hi, begun_marked hi hh hm⟩]
        rfl
    rw [hempty] at hfull
    cases hfull

/-- An object whose program has none. -/
theorem Served.object_new (hbox : box.Plain) {m : ListManagement} {c' : Conn}
    (h : Served box.maxDemux demux fd c) (hnext : c.next m p = some c')
    (hf : findDemux box fd p (Capmt.begun box m fd demux) = none) (hnumber : p.programNumber ≠ 0)
    (hnew : ∀ i < box.maxDemux, (demux i).holds fd → (demux i).params ≠ p)
    {demux' : ℕ → Demux} (hdemux : demux' = if m.stops then stopMarked box (Capmt.begun box m fd demux)
      else Capmt.begun box m fd demux)
    (hi : Slots.firstWhere (fun d => !d.occupied) demux' box.maxDemux = some i) {r : Outcome}
    (hr : r = dvbapiParseCapmt box m true fd p demux) :
    Served box.maxDemux r.demux fd { c' with stopped := c'.stopped ++ stoppedOf r.stopped fd } := by
  obtain ⟨hopen, -, rfl, hupdate, -⟩ := Conn.next_begun hnext
  obtain ⟨hin, hempty, -⟩ := Slots.firstWhere_eq_some hi
  have hfree : (demux' i).occupied = false := by
    cases ho : (demux' i).occupied with
    | false => rfl
    | true =>
      rw [ho] at hempty
      cases hempty
  have hnumber' : Demux.occupied ⟨p, fd, false⟩ = true := decide_eq_true hnumber
  have hbegun : ∀ j < box.maxDemux, (Capmt.begun box m fd demux j).holds fd →
      (Capmt.begun box m fd demux j).params ≠ p := by
    intro j hj hh
    rw [begun_params]
    exact hnew j hj (begun_holds.mp hh)
  have hserved := h.begun (m := m)
  rw [hr, dvbapiParseCapmt_new hbox hupdate hf hdemux hi]
  by_cases hstops : m.stops = true
  · rw [if_pos hstops] at hdemux
    rw [if_pos hstops, hstops]
    subst hdemux
    refine hserved.stop.put hin hfree ⟨hnumber', rfl⟩ rfl (fun j hj hh => ?_) fun hmem => ?_
    · rw [stopMarked_of_holds box hh]
      exact hbegun j hj ((stopMarked_holds box hj).mp hh).1
    · rcases List.mem_append.mp hmem with hold | hstopped
      · rw [hserved.fresh hopen] at hold
        cases hold
      · obtain ⟨j, hj, hh, -, hp⟩ := (mem_stoppedOf box).mp hstopped
        exact hbegun j hj hh hp
  · rw [if_neg hstops] at hdemux
    rw [if_neg hstops, eq_false_of_ne_true hstops, Bool.not_false, ← hopen]
    subst hdemux
    have hnil : stoppedOf [] fd = [] := rfl
    change Served _ _ _ { c.begun m with stopped := _ ++ stoppedOf [] fd, latest := _ }
    rw [hnil, List.append_nil]
    refine hserved.put hin hfree ⟨hnumber', rfl⟩ rfl hbegun fun hmem => ?_
    rw [hserved.fresh hopen] at hmem
    cases hmem

/-- The demuxers of the other connections, and what is stopped of them. -/
theorem untouched_object (hbox : box.Plain) {m : ListManagement} {fd' : ℤ} (hne : fd' ≠ fd)
    (hupdate : m ≠ .update)
    (halone : m.stops = true → ∀ i < box.maxDemux, (demux i).marked = true → (demux i).socketFd = fd)
    (hroom : findDemux box fd p (Capmt.begun box m fd demux) = none → ∃ i < box.maxDemux,
      (demux i).occupied = false ∨ m.stops = true ∧ (demux i).holds fd ∧
        ((demux i).stopDescrambling = true ∨ m = .only)) {r : Outcome}
    (hr : r = dvbapiParseCapmt box m true fd p demux) :
    Untouched box.maxDemux fd' demux r.demux ∧ ∀ d ∈ r.stopped, d.socketFd ≠ fd' := by
  have hbegun : Untouched box.maxDemux fd' demux (Capmt.begun box m fd demux) := untouched_begun hne
  have hmarks : ∀ demux₁, Untouched box.maxDemux fd' demux demux₁ → m.stops = true →
      ∀ i < box.maxDemux, (demux₁ i).marked = true → (demux₁ i).socketFd ≠ fd' := by
    intro demux₁ hsame hstops i hi hm hfd
    have heq := hsame i hi (Or.inr ⟨(Bool.and_eq_true_iff.mp hm).1, hfd⟩)
    rw [heq] at hm hfd
    exact hne (hfd.symm.trans (halone hstops i hi hm))
  have hstopped : ∀ demux₁, Untouched box.maxDemux fd' demux demux₁ → m.stops = true →
      ∀ d ∈ stopList box demux₁, d.socketFd ≠ fd' := by
    intro demux₁ hsame hstops d hd
    obtain ⟨i, hi, rfl, hm⟩ := (mem_stopList box).mp hd
    exact hmarks demux₁ hsame hstops i hi hm
  cases hf : findDemux box fd p (Capmt.begun box m fd demux) with
  | some i =>
    obtain ⟨-, hh, -⟩ := findDemux_some hbox hf
    obtain ⟨id, heq⟩ := dvbapiParseCapmt_found hbox hf
    have hunmark : Untouched box.maxDemux fd' demux (Function.update (Capmt.begun box m fd demux) i
        { Capmt.begun box m fd demux i with stopDescrambling := false }) :=
      hbegun.trans (untouched_update (fun hold => hne (hold.2.symm.trans hh.2))
        fun hnew => hne (hnew.2.symm.trans hh.2))
    rw [hr, heq]
    by_cases hstops : m.stops = true
    · rw [if_pos hstops]
      exact ⟨hunmark.trans (untouched_stopMarked (hmarks _ hunmark hstops)), hstopped _ hunmark hstops⟩
    · rw [if_neg hstops]
      exact ⟨hunmark, fun d hd => absurd hd List.not_mem_nil⟩
  | none =>
    obtain ⟨i, hi⟩ := exists_free rfl (hroom hf)
    obtain ⟨-, hempty, -⟩ := Slots.firstWhere_eq_some hi
    rw [hr, dvbapiParseCapmt_new hbox hupdate hf rfl hi]
    by_cases hstops : m.stops = true
    · rw [if_pos hstops] at hempty ⊢
      rw [if_pos hstops]
      refine ⟨(hbegun.trans (untouched_stopMarked (hmarks _ hbegun hstops))).trans
        (untouched_update (fun hold => ?_) fun hnew => hne hnew.2.symm), hstopped _ hbegun hstops⟩
      rw [hold.1] at hempty
      cases hempty
    · rw [if_neg hstops] at hempty ⊢
      rw [if_neg hstops]
      refine ⟨hbegun.trans (untouched_update (fun hold => ?_) fun hnew => hne hnew.2.symm),
        fun d hd => absurd hd List.not_mem_nil⟩
      rw [hold.1] at hempty
      cases hempty

/-- Every connection has the demuxers of its list, and no object has stopped one of another connection. -/
structure Server.Served (box : Setup) (s : Server) : Prop where
  conns : ∀ fd, Capmt.Served box.maxDemux s.demux fd (s.conns fd)
  foreign : s.foreign = false

theorem Server.Served.step (hbox : box.Plain) (h : s.Served box) (hkept : s.Kept box e)
    (ht : s.step box e = some t) : t.Served box := by
  obtain ⟨c', hnext, rfl⟩ := Option.map_eq_some_iff.mp ht
  obtain ⟨-, -, -, hupdate, -⟩ := Conn.next_begun hnext
  have hnew : findDemux box e.connfd e.program (begun box e.management e.connfd s.demux) = none →
      ∀ i < box.maxDemux, (s.demux i).holds e.connfd → (s.demux i).params ≠ e.program := by
    intro hf i hi hh hp
    refine findDemux_none hbox hf hi (begun_holds.mpr hh) (begun_params.trans hp) ?_
    exact hkept.found ⟨i, hi, hh, hp⟩
  have hroom : findDemux box e.connfd e.program (begun box e.management e.connfd s.demux) = none →
      ∃ i < box.maxDemux, (s.demux i).FreeFor e := by
    intro hf
    rcases hkept.room with ⟨i, hi, hh, hp⟩ | hfree
    · exact absurd hp (hnew hf i hi hh)
    · exact hfree
  have hothers : ∀ fd', fd' ≠ e.connfd → _ := fun fd' hne =>
    untouched_object hbox hne hupdate hkept.alone hroom rfl
  refine ⟨fun fd => ?_, ?_⟩
  · by_cases hfd : fd = e.connfd
    · subst hfd
      change Capmt.Served box.maxDemux _ e.connfd
        { Function.update s.conns e.connfd c' e.connfd with stopped := _ }
      rw [Function.update_self]
      cases hf : findDemux box e.connfd e.program (begun box e.management e.connfd s.demux) with
      | some i => exact (h.conns e.connfd).object_found hbox hnext hf rfl
      | none =>
        obtain ⟨i, hi⟩ := exists_free rfl (hroom hf)
        exact (h.conns e.connfd).object_new hbox hnext hf hkept.number (hnew hf) rfl hi rfl
    · obtain ⟨hsame, hstopped⟩ := hothers fd hfd
      have hnil : stoppedOf (dvbapiParseCapmt box e.management true e.connfd e.program s.demux).stopped fd =
          [] := by
        unfold stoppedOf
        rw [List.map_eq_nil_iff, List.filter_eq_nil_iff]
        exact fun d hd hdfd => hstopped d hd (of_decide_eq_true hdfd)
      change Capmt.Served box.maxDemux _ fd { Function.update s.conns e.connfd c' fd with stopped := _ ++ _ }
      rw [Function.update_of_ne hfd, hnil, List.append_nil]
      exact (h.conns fd).congr hsame
  · change (s.foreign || _) = false
    rw [h.foreign, Bool.false_or, List.any_eq_false]
    intro d hd hne
    have hdfd := of_decide_eq_true hne
    exact (hothers d.socketFd hdfd).2 d hd rfl

/-- In every run whose objects are kept, the demuxers of a connection whose list is complete are exactly
those of its programs, and no object stops a demuxer of another connection. -/
theorem capmt_exact (hbox : box.Plain) {s : Server} (hr : (capmt box).Reachable (Server.Kept box) s) :
    s.foreign = false ∧ ∀ fd, (s.conns fd).inList = false → s.Exact box fd := by
  have hserved : s.Served box := by
    refine hr.invariant (I := Server.Served box) (fun s hs => ?_) fun _ _ _ h hk ht => h.step hbox hk ht
    change s = ⟨fun _ => .empty, fun _ => ⟨[], [], false, []⟩, [], false⟩ at hs
    rw [hs]
    have hempty : ∀ fd, ¬ Demux.empty.holds fd := fun fd hh => Bool.noConfusion hh.1
    exact ⟨fun fd => ⟨fun i _ hh _ => absurd hh (hempty fd), fun i _ hh _ => absurd hh (hempty fd),
      fun p hp => absurd hp List.not_mem_nil, fun i _ j _ hh => absurd hh (hempty fd), fun _ => rfl,
      fun p hp => absurd hp List.not_mem_nil⟩, rfl⟩
  refine ⟨hserved.foreign, fun fd hin => ?_⟩
  have h := hserved.conns fd
  refine ⟨fun i hi hh => ?_, fun p hp => ?_, fun p _ hp => h.stopped p hp⟩
  · cases hm : (s.demux i).stopDescrambling with
    | false => exact h.unmarked i hi hh hm
    | true =>
      have hopen := (h.marked i hi hh hm).1
      rw [hin] at hopen
      cases hopen
  · obtain ⟨i, hi, hh, hip⟩ := h.exist p hp
    exact ⟨i, ⟨hi, hh, hip⟩, fun j ⟨hj, hhj, hjp⟩ => h.inj j hj i hi hhj hh (hjp.trans hip.symm)⟩

instance (connfd : ℤ) (p : Params) : Decidable (s.Has box connfd p) :=
  inferInstanceAs (Decidable (∃ i, i < box.maxDemux ∧ (s.demux i).holds connfd ∧ (s.demux i).params = p))

instance : DecidablePred fun d : Demux => d.FreeFor e := fun d =>
  inferInstanceAs (Decidable (d.occupied = false ∨ e.management.stops = true ∧ d.holds e.connfd ∧
    (d.stopDescrambling = true ∨ e.management = .only)))

instance : Decidable (s.Kept box e) :=
  decidable_of_iff (e.program.programNumber ≠ 0 ∧
    (s.Has box e.connfd e.program →
      0 < e.connfd ∧ e.program.demuxIndex.toNat < 128 ∧ e.program.adapterIndex.toNat < 128) ∧
    (s.Has box e.connfd e.program ∨ ∃ i, i < box.maxDemux ∧ (s.demux i).FreeFor e) ∧
    (e.management.stops = true → ∀ i < box.maxDemux, (s.demux i).marked = true →
      (s.demux i).socketFd = e.connfd))
    ⟨fun h => ⟨h.1, h.2.1, h.2.2.1, h.2.2.2⟩, fun h => ⟨h.number, h.found, h.room, h.alone⟩⟩

instance : Decidable (s.Fits box e) :=
  inferInstanceAs (Decidable (∀ t ∈ s.step box e, t.total ≤ box.maxDemux))

/-- A list that comes twice, with a list of another connection in between. -/
theorem capmt_exact_twice : ∃ s, (capmt ⟨32, false, .dreambox, 6⟩).Reachable (Server.Kept ⟨32, false, .dreambox, 6⟩) s ∧
    (s.conns 5).latest.length = 2 ∧ (s.conns 7).latest.length = 1 ∧ s.Exact ⟨32, false, .dreambox, 6⟩ 5 ∧
    s.Exact ⟨32, false, .dreambox, 6⟩ 7 := by
  obtain ⟨s, hr, hs⟩ := @System.exists_reachable_of_exec _ _ (capmt ⟨32, false, .dreambox, 6⟩)
    (Server.Kept ⟨32, false, .dreambox, 6⟩) _ _ rfl
    [⟨.first, 5, ⟨0, 0, 1, 100, 200, 1, 1, 0⟩⟩, ⟨.last, 5, ⟨0, 0, 1, 101, 201, 1, 1, 0⟩⟩,
      ⟨.only, 7, ⟨1, 0, 1, 102, 202, 1, 1, 0⟩⟩, ⟨.first, 5, ⟨0, 0, 1, 100, 200, 1, 1, 0⟩⟩,
      ⟨.last, 5, ⟨0, 0, 1, 101, 201, 1, 1, 0⟩⟩]
    (fun s => decide ((s.conns 5).latest.length = 2 ∧ (s.conns 7).latest.length = 1 ∧
      (s.conns 5).inList = false ∧ (s.conns 7).inList = false)) (by decide +kernel)
  obtain ⟨hfive, hseven, hin, hin'⟩ := of_decide_eq_true hs
  obtain ⟨-, hexact⟩ := capmt_exact ⟨rfl, by decide, by decide⟩ hr
  exact ⟨s, hr, hfive, hseven, hexact 5 hin, hexact 7 hin'⟩

/-- The list of another connection stops a demuxer whose program comes later in the new list. -/
theorem marked_demuxer_stopped :
    ∃ s, (capmt ⟨32, false, .dreambox, 6⟩).Reachable (Server.Fits ⟨32, false, .dreambox, 6⟩) s ∧
      (s.conns 5).inList = false ∧ (s.conns 7).inList = false ∧ s.foreign = true ∧
      ¬ s.Exact ⟨32, false, .dreambox, 6⟩ 5 := by
  obtain ⟨s, hr, hs⟩ := @System.exists_reachable_of_exec _ _ (capmt ⟨32, false, .dreambox, 6⟩)
    (Server.Fits ⟨32, false, .dreambox, 6⟩) _ _ rfl
    [⟨.first, 5, ⟨0, 0, 1, 100, 200, 1, 1, 0⟩⟩, ⟨.last, 5, ⟨0, 0, 1, 101, 201, 1, 1, 0⟩⟩,
      ⟨.first, 5, ⟨0, 0, 1, 100, 200, 1, 1, 0⟩⟩, ⟨.only, 7, ⟨1, 0, 1, 102, 202, 1, 1, 0⟩⟩,
      ⟨.last, 5, ⟨0, 0, 1, 101, 201, 1, 1, 0⟩⟩]
    (fun s => decide ((s.conns 5).inList = false ∧ (s.conns 7).inList = false ∧ s.foreign = true ∧
      ∃ p ∈ (s.conns 5).previous, p ∈ (s.conns 5).latest ∧ p ∈ (s.conns 5).stopped)) (by decide +kernel)
  obtain ⟨hin, hin', hforeign, p, hprevious, hlatest, hstopped⟩ := of_decide_eq_true hs
  exact ⟨s, hr, hin, hin', hforeign, fun h => h.kept p hprevious hlatest hstopped⟩

end NCam.Capmt
