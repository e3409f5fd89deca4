import NCam.Cacheex.FeatureSend

/-! When a feature message brings its setting to the other side. -/
namespace NCam.Cacheex.FeatureTrigger

open NCam.Lib.Memory NCam.Lib.Records NCam.Util NCam.Cacheex.Filter

/-- The sender ends with a message and stays inside its payload, and the receiver holds the setting
afterwards, whatever it held before and whatever is behind the message. -/
def Conveys (t : Transport) (trigger : ℕ → Trigger) (feature : Feature) (cfg : Cfg) (rcv : Client)
    (s : Setting) : Prop :=
  ∃ fuel size p, trigger fuel = .sent size p ∧ p.top ≤ t.capacity ∧
    size ≤ t.header + t.capacity ∧
    ∀ old buf, Holds buf t.header ((t.message size p).drop t.header) →
      (featureTriggerIn buf t cfg (rcv.hold old)).map (fun cl => cl.own.held feature) = some s

section Conveys

variable {t : Transport} {trigger : ℕ → Trigger} {feature : Feature} {cfg : Cfg} {rcv : Client}
  {s received : Setting} {size : ℕ} {p : Payload} {bs : List Byte} {buf : ℕ → Byte}

private theorem length_head : (t.head size).length = t.header := by
  cases t <;> rfl

theorem message_drop : (t.message size p).drop t.header = slice p.mem 0 (size - t.header) := by
  unfold Transport.message
  rw [List.drop_append_of_le_length (by rw [length_head]),
    List.drop_of_length_le (by rw [length_head]), List.nil_append]

/-- A message holds what is in the payload. -/
theorem holds_payload (hmem : p.mem = put (fun _ => 0) 0 bs) (hsize : t.header + bs.length ≤ size)
    (h : Holds buf t.header ((t.message size p).drop t.header)) : Holds buf t.header bs := by
  have hsplit : size - t.header = bs.length + (size - t.header - bs.length) := by omega
  have hslice : slice p.mem 0 bs.length = bs := by
    rw [hmem]
    exact holds_put
  rw [message_drop, hsplit, slice_add, holds_append, hslice] at h
  exact h.1

theorem not_conveys_of_nothing (h : SendsNothing trigger) : ¬ Conveys t trigger feature cfg rcv s := by
  rintro ⟨fuel, size, p, hsent, -⟩
  exact h fuel size p hsent

/-- It is enough that one earlier setting is not replaced by the message. -/
theorem not_conveys_of_old (hsend : Sends trigger size bs) (hsize : t.header + bs.length ≤ size)
    (hold : ∃ old, ∀ buf, Holds buf t.header bs →
      (featureTriggerIn buf t cfg (rcv.hold old)).map (fun cl => cl.own.held feature) ≠ some s) :
    ¬ Conveys t trigger feature cfg rcv s := by
  obtain ⟨p, hmem, -, -, hunique⟩ := hsend
  obtain ⟨old, hne⟩ := hold
  rintro ⟨fuel, size', p', hsent, -, -, hconveys⟩
  obtain ⟨rfl, rfl⟩ := hunique fuel size' p' hsent
  have hholds : Holds (put (fun _ => 0) t.header ((t.message size' p').drop t.header)) t.header
      ((t.message size' p').drop t.header) := holds_put
  exact hne _ (holds_payload hmem hsize hholds) (hconveys old _ hholds)

theorem not_conveys_of_unchanged (hsend : Sends trigger size bs)
    (hsize : t.header + bs.length ≤ size)
    (h : ∀ old buf, Holds buf t.header bs →
      featureTriggerIn buf t cfg (rcv.hold old) = some (rcv.hold old)) :
    ¬ Conveys t trigger feature cfg rcv s := by
  apply not_conveys_of_old hsend hsize
  obtain ⟨old, hne⟩ := exists_held_ne feature s
  refine ⟨old, fun buf hbuf => ?_⟩
  rw [h old buf hbuf, Option.map_some, own_hold]
  exact fun heq => hne rcv.own (Option.some.inj heq)

/-- A receiver that stores what it reads holds the setting exactly if it reads that setting. -/
theorem conveys_iff_of_stored (hsend : Sends trigger size bs) (hsize : t.header + bs.length ≤ size)
    (hheld : ∀ own : Cecsp, (own.hold received).held feature = received)
    (h : ∀ old buf, Holds buf t.header bs →
      featureTriggerIn buf t cfg (rcv.hold old) = some ((rcv.hold old).hold received)) :
    Conveys t trigger feature cfg rcv s ↔ size ≤ t.header + t.capacity ∧ received = s := by
  obtain ⟨p, hmem, htop, ⟨fuel, hsent⟩, hunique⟩ := hsend
  have hafter : ∀ old buf, Holds buf t.header bs →
      (featureTriggerIn buf t cfg (rcv.hold old)).map (fun cl => cl.own.held feature) =
        some received := by
    intro old buf hbuf
    rw [h old buf hbuf, Option.map_some, own_hold, hheld]
  constructor
  · rintro ⟨fuel', size', p', hsent', -, hcap, hconveys⟩
    obtain ⟨rfl, rfl⟩ := hunique fuel' size' p' hsent'
    have hholds : Holds (put (fun _ => 0) t.header ((t.message size' p').drop t.header)) t.header
        ((t.message size' p').drop t.header) := holds_put
    have hgot := hconveys received _ hholds
    rw [hafter received _ (holds_payload hmem hsize hholds)] at hgot
    exact ⟨hcap, Option.some.inj hgot⟩
  · rintro ⟨hcap, rfl⟩
    refine ⟨fuel, size, p, hsent, by omega, hcap, fun old buf hbuf => ?_⟩
    exact hafter old buf (holds_payload hmem hsize hbuf)

/-- The receiver stores what it reads under a condition and otherwise leaves everything as it is. -/
theorem conveys_iff_of_cond (received : Setting) {cond : Prop} (hsend : Sends trigger size bs)
    (hsize : t.header + bs.length ≤ size)
    (hheld : ∀ own : Cecsp, (own.hold received).held feature = received)
    (htake : cond → ∀ old buf, Holds buf t.header bs →
      featureTriggerIn buf t cfg (rcv.hold old) = some ((rcv.hold old).hold received))
    (hkeep : ¬ cond → ∀ old buf, Holds buf t.header bs →
      featureTriggerIn buf t cfg (rcv.hold old) = some (rcv.hold old)) :
    Conveys t trigger feature cfg rcv s ↔ cond ∧ size ≤ t.header + t.capacity ∧ received = s := by
  by_cases hcond : cond
  · rw [conveys_iff_of_stored hsend hsize hheld (htake hcond)]
    exact ⟨fun h => ⟨hcond, h⟩, fun h => h.2⟩
  · exact ⟨fun h => absurd h (not_conveys_of_unchanged hsend hsize (hkeep hcond)),
      fun h => absurd h.1 hcond⟩

/-- A message that fits and carries the setting itself. -/
theorem conveys_iff_cond {cond : Prop} (hsend : Sends trigger size bs)
    (hsize : t.header + bs.length ≤ size) (hcap : size ≤ t.header + t.capacity)
    (hheld : ∀ own : Cecsp, (own.hold s).held feature = s)
    (htake : cond → ∀ old buf, Holds buf t.header bs →
      featureTriggerIn buf t cfg (rcv.hold old) = some ((rcv.hold old).hold s))
    (hkeep : ¬ cond → ∀ old buf, Holds buf t.header bs →
      featureTriggerIn buf t cfg (rcv.hold old) = some (rcv.hold old)) :
    Conveys t trigger feature cfg rcv s ↔ cond := by
  rw [conveys_iff_of_cond s hsend hsize hheld htake hkeep]
  exact and_iff_left ⟨hcap, rfl⟩

end Conveys

/-- What the configuration admits as a setting. -/
def Setting.Admitted : Setting → Prop
  | .lgOnlyTab tab => ∀ d ∈ tab, d.caid ≠ 0 ∧ d.prids ≠ [] ∧ d.prids.length ≤ csMaxprov
  | .ecmFilter filter => ∀ d ∈ filter, 0 < d.caid.toInt ∧ d.awtime = 0 ∧ d.dwtime = 0
  | .noPushAfter ctab => ∀ d ∈ ctab, d.caid ≠ 0
  | _ => True

/-- The receiver takes the feature and replaces what it has. -/
def Heeds (cfg : Cfg) (cl : Client) (s : Setting) : Feature → Prop
  | .localgeneratedOnly =>
    cl.kill = false ∧ cl.takes = true ∧ (cl.remote cfg = true ∨ s ≠ .localgeneratedOnly 0)
  | .lgOnlyCaidtab => cl.kill = false ∧ cl.takes = true ∧ cl.remote cfg = true
  | .ecmFilter => cl.kill = false ∧ cl.takes = true ∧ cl.own.allowFilter ≠ 0
  | .noPushAfter => cl.kill = false ∧ cl.takes = true
  | .maxHop => cl.kill = false ∧ cl.takes = true ∧ cl.own.allowMaxhop ≠ 0
  | .aioVersion => cl.Active
  | .lgOnlyTab => cl.kill = false ∧ cl.takes = true ∧ cl.remote cfg = true

/-- All values in an entry can be told from the one for -1. -/
def FitsEntry (d : CecspvaluetabData) : Prop :=
  d.caid.toNat < 0xffff ∧ (d.cmask = -1 ∨ d.cmask.toNat < 0xffff) ∧
    (d.prid = -1 ∨ d.prid.toNat < 0xffffff) ∧ (d.srvid = -1 ∨ d.srvid.toNat < 0xffff)

/-- The setting fits in the message of the feature. -/
def Fits (t : Transport) : Feature → Setting → Prop
  | .lgOnlyCaidtab, .lgOnlyTab tab => tab.length ≤ 255 ∧ ∀ d ∈ tab, d.prids = [noProvidValue]
  | .ecmFilter, .ecmFilter filter =>
    5 + 9 * filter.length ≤ t.capacity ∧ ∀ d ∈ filter, FitsEntry d
  | .noPushAfter, .noPushAfter ctab => 5 + 4 * ctab.length ≤ t.capacity
  | .lgOnlyTab, .lgOnlyTab tab =>
    (tab.map fun d => 6 + 6 * d.prids.length).sum < 256 ∧
      ∀ d ∈ tab, ∀ prid ∈ d.prids, prid.toNat < 2 ^ 24
  | _, _ => True

section Bytes

variable {t : Transport} {cfg : Cfg} {rcv : Client} {feature : Feature} {len : ℕ} {bs : List Byte}

theorem sendBytes_sends :
    Sends (fun _ => sendBytes t feature len bs) (t.pad feature (t.header + 4 + len))
      (i2b 2 feature.bit ++ i2b 2 (.ofNat 32 len) ++ bs) := by
  have hp := (Wrote.start feature len).append bs
  exact sends_const hp.mem hp.top

theorem sendBytes_size (hlen : bs.length ≤ len) :
    t.header + (i2b 2 feature.bit ++ i2b 2 (.ofNat 32 len) ++ bs).length ≤
      t.pad feature (t.header + 4 + len) := by
  apply Nat.le_trans _ le_pad
  rw [List.length_append, List.length_append, length_i2b_two, length_i2b_two]
  omega

theorem sendBytes_cap (hlen : len ≤ 12) :
    t.pad feature (t.header + 4 + len) ≤ t.header + t.capacity := by
  rw [pad_le_iff]
  cases t with
  | cccam => change 0 + 4 + len ≤ 0 + 1020; omega
  | camd35 => change 20 + 4 + len ≤ 20 + 1000; omega

theorem bytes_holds {buf : ℕ → Byte}
    (h : Holds buf t.header (i2b 2 feature.bit ++ i2b 2 (.ofNat 32 len) ++ bs)) :
    Holds buf t.header (i2b 2 feature.bit) ∧ Holds buf (t.header + 4) bs := by
  rw [holds_append, holds_append] at h
  exact ⟨h.1.1, h.2⟩

theorem conveys_localgeneratedOnly_iff (flag : Byte) :
    Conveys t (fun _ => sendBytes t .localgeneratedOnly 1 [flag]) .localgeneratedOnly cfg rcv
      (.localgeneratedOnly flag) ↔
      Heeds cfg rcv (.localgeneratedOnly flag) .localgeneratedOnly := by
  apply conveys_iff_cond sendBytes_sends (sendBytes_size (Nat.le_refl 1)) (sendBytes_cap (by omega))
  · exact fun own => rfl
  · rintro ⟨hkill, htakes, hremote⟩ old buf hbuf
    obtain ⟨hbit, hflag⟩ := bytes_holds hbuf
    have hread : buf (t.header + 4) = flag := (holds_cons.mp hflag).1
    have hcond : rcv.remote cfg = true ∨ flag ≠ 0 :=
      hremote.imp id fun h hzero => h (congrArg Setting.localgeneratedOnly hzero)
    rw [featureTriggerIn_active (active_hold.mpr (Client.takes_active hkill htakes)) hbit]
    unfold receive
    dsimp only
    rw [hread, takes_hold, remote_hold, if_pos ⟨htakes, hcond⟩]
  · intro hnot old buf hbuf
    obtain ⟨hbit, hflag⟩ := bytes_holds hbuf
    have hread : buf (t.header + 4) = flag := (holds_cons.mp hflag).1
    by_cases htakes : rcv.kill = false ∧ rcv.takes = true
    · have hcond : ¬ (rcv.takes = true ∧ (rcv.remote cfg = true ∨ flag ≠ 0)) := by
        intro h
        exact hnot ⟨htakes.1, htakes.2, h.2.imp id fun hne hs => hne (by injection hs)⟩
      rw [featureTriggerIn_active (active_hold.mpr (Client.takes_active htakes.1 htakes.2)) hbit]
      unfold receive
      dsimp only
      rw [hread, takes_hold, remote_hold, if_neg hcond]
    · exact featureTriggerIn_not_takes (by simpa using htakes) (by decide) hbit

theorem conveys_maxHop_iff (maxhop maxhopLg : Byte) :
    Conveys t (fun _ => sendBytes t .maxHop 2 [maxhop, maxhopLg]) .maxHop cfg rcv
      (.maxHop maxhop maxhopLg) ↔ Heeds cfg rcv (.maxHop maxhop maxhopLg) .maxHop := by
  apply conveys_iff_cond sendBytes_sends (sendBytes_size (Nat.le_refl 2)) (sendBytes_cap (by omega))
  · exact fun own => rfl
  · rintro ⟨hkill, htakes, hallow⟩ old buf hbuf
    obtain ⟨hbit, hhops⟩ := bytes_holds hbuf
    rw [holds_cons, holds_cons] at hhops
    rw [featureTriggerIn_active (active_hold.mpr (Client.takes_active hkill htakes)) hbit]
    unfold receive
    dsimp only
    rw [hhops.1, hhops.2.1, takes_hold, own_hold, allowMaxhop_hold, if_pos ⟨htakes, hallow⟩]
  · intro hnot old buf hbuf
    obtain ⟨hbit, -⟩ := bytes_holds hbuf
    by_cases htakes : rcv.kill = false ∧ rcv.takes = true
    · have hcond : ¬ (rcv.takes = true ∧ rcv.own.allowMaxhop ≠ 0) :=
        fun h => hnot ⟨htakes.1, h.1, h.2⟩
      rw [featureTriggerIn_active (active_hold.mpr (Client.takes_active htakes.1 htakes.2)) hbit]
      unfold receive
      dsimp only
      rw [takes_hold, own_hold, allowMaxhop_hold, if_neg hcond]
    · exact featureTriggerIn_not_takes (by simpa using htakes) (by decide) hbit

/-- The version is read up to the zero behind it, whatever the stack held. -/
private theorem readVersion_eq {buf : ℕ → Byte} {o : ℕ} {stack : ℕ → Byte}
    (h : Holds buf o (versionToken stack)) : readVersion buf o = csAioVersion := by
  have hstack : slice (put stack 0 (csAioVersion ++ [0])) 0 6 = csAioVersion ++ [0] := holds_put
  unfold versionToken at h
  rw [show 12 = 6 + 6 from rfl, slice_add, holds_append, hstack] at h
  have hread : slice buf o 6 = csAioVersion ++ [0] := h.1
  unfold readVersion
  rw [show 11 = 6 + 5 from rfl, slice_add, hread]
  rfl

theorem conveys_aioVersion_iff (stack : ℕ → Byte) :
    Conveys t (fun _ => sendBytes t .aioVersion 12 (versionToken stack)) .aioVersion cfg rcv
      (.aioVersion csAioVersion) ↔ Heeds cfg rcv (.aioVersion csAioVersion) .aioVersion := by
  have hlen : (versionToken stack).length ≤ 12 := by
    unfold versionToken
    rw [length_slice]
  apply conveys_iff_cond sendBytes_sends (sendBytes_size hlen) (sendBytes_cap (by omega))
  · exact fun own => rfl
  · intro hactive old buf hbuf
    obtain ⟨hbit, hversion⟩ := bytes_holds hbuf
    rw [featureTriggerIn_active (active_hold.mpr hactive) hbit]
    unfold receive
    dsimp only
    rw [readVersion_eq hversion]
  · intro hnot old buf _
    exact featureTriggerIn_inactive fun h => hnot (active_hold.mp h)

end Bytes

section Tables

variable {t : Transport} {cfg : Cfg} {rcv : Client}

/-- A list that passes a map and a filter unchanged consists of entries that do. -/
private theorem filter_map_eq_self {α : Type} {f : α → α} {p : α → Bool} {l : List α} :
    (l.map f).filter p = l ↔ ∀ x ∈ l, f x = x ∧ p x = true := by
  constructor
  · intro h
    have hall : (l.map f).filter p = l.map f := by
      apply List.filter_eq_self.mpr
      rw [← List.length_filter_eq_length_iff, h, List.length_map]
    have hmap : l.map f = l.map id := by rw [List.map_id, ← hall, h]
    have hp : ∀ x ∈ l.map f, p x = true := List.filter_eq_self.mp hall
    rw [← hall, h] at hp
    exact fun x hx => ⟨List.map_inj_left.mp hmap x hx, hp x hx⟩
  · intro h
    have hmap : l.map f = l := by
      rw [List.map_congr_left fun x hx => (h x hx).1, List.map_id']
    rw [hmap]
    exact List.filter_eq_self.mpr fun x hx => (h x hx).2

private theorem toNat_neg_one : (-1 : BitVec 32).toNat = 2 ^ 32 - 1 := by decide

private theorem pow_sub_one_mod {n : ℕ} (hn : n < 32) : (2 ^ 32 - 1) % 2 ^ n = 2 ^ n - 1 := by
  have hsplit : 2 ^ 32 = 2 ^ n * 2 ^ (32 - n) := by
    rw [← Nat.pow_add, Nat.add_sub_cancel' (Nat.le_of_lt hn)]
  have hpos : 0 < 2 ^ n * 2 ^ (32 - n) := Nat.mul_pos (Nat.two_pow_pos n) (Nat.two_pow_pos _)
  rw [hsplit, Nat.mul_sub_mod hpos, Nat.zero_mod]

private theorem carried_eq_iff {n : ℕ} (hn : n < 32) {top : BitVec 32} (htop : top.toNat = 2 ^ n - 1)
    (v : BitVec 32) :
    (if (v.setWidth n).setWidth 32 = top then -1 else (v.setWidth n).setWidth 32) = v ↔
      v = -1 ∨ v.toNat < top.toNat := by
  have hone := toNat_neg_one
  have hpow : 2 ^ n < 2 ^ 32 := Nat.pow_lt_pow_right (by omega) hn
  have hmodlt : v.toNat % 2 ^ n < 2 ^ n := Nat.mod_lt _ (Nat.two_pow_pos n)
  have hlow : ((v.setWidth n).setWidth 32).toNat = v.toNat % 2 ^ n := by
    rw [BitVec.toNat_setWidth, BitVec.toNat_setWidth, Nat.mod_eq_of_lt (Nat.lt_trans hmodlt hpow)]
  by_cases hones : (v.setWidth n).setWidth 32 = top
  · have hmod : v.toNat % 2 ^ n = 2 ^ n - 1 := by
      rw [← hlow, hones, htop]
    rw [if_pos hones]
    constructor
    · exact fun h => Or.inl h.symm
    · rintro (h | h)
      · exact h.symm
      · rw [Nat.mod_eq_of_lt (by omega)] at hmod
        omega
  · have hmod : v.toNat % 2 ^ n ≠ 2 ^ n - 1 := by
      intro h
      exact hones (BitVec.eq_of_toNat_eq ((hlow.trans h).trans htop.symm))
    rw [if_neg hones]
    constructor
    · intro h
      rw [h] at hlow
      exact Or.inr (by omega)
    · rintro (h | h)
      · rw [h, hone, pow_sub_one_mod hn] at hmod
        exact absurd rfl hmod
      · apply BitVec.eq_of_toNat_eq
        rw [hlow, Nat.mod_eq_of_lt (by omega)]

theorem carried2_eq_iff (v : BitVec 32) : carried2 v = v ↔ v = -1 ∨ v.toNat < 0xffff :=
  carried_eq_iff (by omega) rfl v

theorem carried3_eq_iff (v : BitVec 32) : carried3 v = v ↔ v = -1 ∨ v.toNat < 0xffffff :=
  carried_eq_iff (by omega) rfl v

theorem capacity_ge : 1000 ≤ t.capacity := by
  cases t <;> decide

section Counted

variable {α : Type} {feature : Feature} {w : ℕ}
  {enc : α → List Byte} {tab : List α}

theorem tableBytes_size (hw : ∀ x, (enc x).length = w) :
    t.header + (tableBytes feature (tab.length * w + 1) enc tab).length ≤
      t.pad feature (t.header + 4 + (tab.length * w + 1)) := by
  have hentries : (tab.flatMap enc).length = w * tab.length := length_flatMap_of_width hw tab
  apply Nat.le_trans _ le_pad
  unfold tableBytes
  rw [List.length_append, List.length_append, List.length_append, hentries, length_i2b_two,
    length_i2b_two, List.length_singleton, Nat.mul_comm]
  omega

/-- The payload holds the four bytes before the table as well, which the sender does not count. -/
theorem table_cap_iff : t.pad feature (t.header + 4 + (tab.length * w + 1)) ≤
    t.header + t.capacity ↔ 5 + w * tab.length ≤ t.capacity := by
  rw [pad_le_iff, Nat.mul_comm]
  omega

end Counted

/-- A filter as the list of caids carries it. -/
def anyProvider (d : Filt) : Filt := ⟨d.caid, [noProvidValue]⟩

private theorem map_anyProvider_iff {tab : Ftab} :
    tab.map anyProvider = tab ↔ ∀ d ∈ tab, d.prids = [noProvidValue] := by
  constructor
  · intro h d hd
    have hmap : tab.map anyProvider = tab.map id := by rw [h, List.map_id]
    have hself : anyProvider d = d := List.map_inj_left.mp hmap d hd
    exact (congrArg Filt.prids hself).symm
  · intro h
    have hmap : tab.map anyProvider = tab.map id := by
      apply List.map_congr_left
      intro d hd
      change (⟨d.caid, [noProvidValue]⟩ : Filt) = d
      rw [← h d hd]
    rw [hmap, List.map_id]

/-- Merging does not shorten the table. -/
private theorem not_conveys_of_longer {trigger : ℕ → Trigger} {feature : Feature} {size : ℕ}
    {bs : List Byte} {tab : Ftab} (hsend : Sends trigger size bs)
    (hsize : t.header + bs.length ≤ size)
    (hheld : ∀ own : Cecsp, own.held feature = .lgOnlyTab own.lgOnlyTab)
    (h : ∀ buf, Holds buf t.header bs → ∀ cl,
      featureTriggerIn buf t cfg (rcv.hold (.lgOnlyTab (⟨0, []⟩ :: tab))) = some cl →
        tab.length < cl.own.lgOnlyTab.length) :
    ¬ Conveys t trigger feature cfg rcv (.lgOnlyTab tab) := by
  apply not_conveys_of_old hsend hsize
  refine ⟨.lgOnlyTab (⟨0, []⟩ :: tab), fun buf hbuf heq => ?_⟩
  obtain ⟨cl, hcl, hgot⟩ := Option.map_eq_some_iff.mp heq
  have hlonger := h buf hbuf cl hcl
  rw [hheld] at hgot
  rw [Setting.lgOnlyTab.inj hgot] at hlonger
  omega

theorem conveys_lgOnlyCaidtab_iff {tab : Ftab} (hadm : (Setting.lgOnlyTab tab).Admitted) :
    Conveys t (sendTable t .lgOnlyCaidtab 2 true putCaid · tab) .lgOnlyCaidtab cfg rcv
      (.lgOnlyTab tab) ↔
      Heeds cfg rcv (.lgOnlyTab tab) .lgOnlyCaidtab ∧ Fits t .lgOnlyCaidtab (.lgOnlyTab tab) := by
  have hcapacity := capacity_ge (t := t)
  by_cases hlen : tab.length ≤ 255
  · have hsend : Sends (sendTable t .lgOnlyCaidtab 2 true putCaid · tab)
        (t.pad .lgOnlyCaidtab (t.header + 4 + (tab.length * 2 + 1)))
        (tableBytes .lgOnlyCaidtab (tab.length * 2 + 1) caidBytes tab) :=
      sendTable_sends (fun d hd p bs hp => hp.putCaid (hadm d hd).1) (by omega) hlen
    have hsize : t.header + (tableBytes .lgOnlyCaidtab (tab.length * 2 + 1) caidBytes tab).length ≤
        t.pad .lgOnlyCaidtab (t.header + 4 + (tab.length * 2 + 1)) :=
      tableBytes_size fun d => length_i2b_two _
    have hread : ∀ buf, Holds buf t.header (tableBytes .lgOnlyCaidtab (tab.length * 2 + 1) caidBytes tab) →
        records (readCaid buf) (buf (t.header + 4)).toNat (t.header + 4 + 1) = tab.map anyProvider := by
      intro buf hbuf
      obtain ⟨-, hcount, hentries⟩ := tableBytes_holds hbuf hlen
      rw [hcount]
      exact records_eq (fun d _ o h => readCaid_eq h) hentries
    by_cases htakes : rcv.kill = false ∧ rcv.takes = true
    · have hactive := fun old => active_hold (s := old).mpr (Client.takes_active htakes.1 htakes.2)
      by_cases hremote : rcv.remote cfg = true
      · have hstored : ∀ old buf,
            Holds buf t.header (tableBytes .lgOnlyCaidtab (tab.length * 2 + 1) caidBytes tab) →
            featureTriggerIn buf t cfg (rcv.hold old) =
              some ((rcv.hold old).hold (.lgOnlyTab (tab.map anyProvider))) := by
          intro old buf hbuf
          rw [featureTriggerIn_active (hactive old) (tableBytes_holds hbuf hlen).1]
          unfold receive
          dsimp only
          rw [hread buf hbuf, takes_hold, remote_hold, htakes.2, if_neg (by decide), if_pos hremote]
        rw [conveys_iff_of_stored hsend hsize (fun own => rfl) hstored, table_cap_iff,
          Setting.lgOnlyTab.injEq, map_anyProvider_iff]
        change _ ↔ (_ ∧ _ ∧ _) ∧ tab.length ≤ 255 ∧ _
        constructor
        · exact fun h => ⟨⟨htakes.1, htakes.2, hremote⟩, hlen, h.2⟩
        · exact fun h => ⟨by omega, h.2.2⟩
      · refine ⟨fun h => absurd h ?_, fun h => absurd h.1.2.2 hremote⟩
        apply not_conveys_of_longer hsend hsize fun own => rfl
        intro buf hbuf cl hcl
        rw [featureTriggerIn_active (hactive _) (tableBytes_holds hbuf hlen).1] at hcl
        unfold receive at hcl
        dsimp only at hcl
        rw [takes_hold, remote_hold, htakes.2, if_neg (by decide), if_neg hremote] at hcl
        obtain ⟨merged, hmerged, rfl⟩ := Option.map_eq_some_iff.mp hcl
        have hgrown := foldlM_length (fun tab d tab' => mergeCaid_length) hmerged
        rw [own_hold] at hgrown
        rw [own_hold]
        exact Nat.lt_of_succ_le hgrown
    · refine ⟨fun h => absurd h ?_, fun h => absurd ⟨h.1.1, h.1.2.1⟩ htakes⟩
      apply not_conveys_of_unchanged hsend hsize
      intro old buf hbuf
      exact featureTriggerIn_not_takes (by simpa using htakes) (by decide)
        (tableBytes_holds hbuf hlen).1
  · refine ⟨fun h => absurd h (not_conveys_of_nothing ?_), fun h => absurd h.2.1 hlen⟩
    exact sendTable_nothing (Or.inr ⟨rfl, by omega⟩)

private theorem caid_ne_zero {d : CecspvaluetabData} (h : 0 < d.caid.toInt) : d.caid ≠ 0 := by
  intro hzero
  rw [hzero] at h
  cases h

private theorem carriedEntry_iff {d : CecspvaluetabData} (hcaid : 0 < d.caid.toInt)
    (haw : d.awtime = 0) (hdw : d.dwtime = 0) :
    (carriedEntry d = d ∧ decide (0 < d.caid.toInt) = true) ↔ FitsEntry d := by
  have hone : d.caid ≠ -1 := by
    intro h
    rw [h] at hcaid
    cases hcaid
  have heq : carriedEntry d = d ↔ carried2 d.caid = d.caid ∧ carried2 d.cmask = d.cmask ∧
      carried3 d.prid = d.prid ∧ carried2 d.srvid = d.srvid := by
    cases d
    simp only at haw hdw
    simp [carriedEntry, haw, hdw]
  rw [heq, carried2_eq_iff, carried2_eq_iff, carried3_eq_iff, carried2_eq_iff, or_iff_right hone]
  exact and_iff_left (decide_eq_true hcaid)

theorem conveys_ecmFilter_iff {filter : Cecspvaluetab} (hadm : (Setting.ecmFilter filter).Admitted) :
    Conveys t (sendTable t .ecmFilter 9 false putFilterEntry · filter) .ecmFilter cfg rcv
      (.ecmFilter filter) ↔
      Heeds cfg rcv (.ecmFilter filter) .ecmFilter ∧ Fits t .ecmFilter (.ecmFilter filter) := by
  have hcapacity := capacity_le (t := t)
  have hfits : (filter.map carriedEntry).filter (fun d => 0 < d.caid.toInt) = filter ↔
      ∀ d ∈ filter, FitsEntry d := by
    rw [filter_map_eq_self]
    constructor
    · exact fun h d hd =>
        (carriedEntry_iff (hadm d hd).1 (hadm d hd).2.1 (hadm d hd).2.2).mp (h d hd)
    · exact fun h d hd =>
        (carriedEntry_iff (hadm d hd).1 (hadm d hd).2.1 (hadm d hd).2.2).mpr (h d hd)
  change _ ↔ (_ ∧ _ ∧ _) ∧ 5 + 9 * filter.length ≤ t.capacity ∧ _
  by_cases hcap : filter.length * 9 + 1 ≤ t.capacity
  · have hlen : filter.length ≤ 255 := by omega
    have hsend : Sends (sendTable t .ecmFilter 9 false putFilterEntry · filter)
        (t.pad .ecmFilter (t.header + 4 + (filter.length * 9 + 1)))
        (tableBytes .ecmFilter (filter.length * 9 + 1) filterBytes filter) :=
      sendTable_sends (fun d hd p bs hp => hp.putFilterEntry (caid_ne_zero (hadm d hd).1)) hcap hlen
    have hsize : t.header +
        (tableBytes .ecmFilter (filter.length * 9 + 1) filterBytes filter).length ≤
        t.pad .ecmFilter (t.header + 4 + (filter.length * 9 + 1)) :=
      tableBytes_size fun d => rfl
    rw [conveys_iff_of_cond (.ecmFilter ((filter.map carriedEntry).filter fun d => 0 < d.caid.toInt))
      hsend hsize (fun own => rfl), table_cap_iff, Setting.ecmFilter.injEq, hfits]
    · rintro ⟨hkill, htakes, hallow⟩ old buf hbuf
      obtain ⟨hbit, hcount, hentries⟩ := tableBytes_holds hbuf hlen
      have hread := records_eq (fun d _ o h => readFilterEntry_eq h) hentries
      rw [featureTriggerIn_active (active_hold.mpr (Client.takes_active hkill htakes)) hbit]
      unfold receive
      dsimp only
      rw [hcount, hread, takes_hold, own_hold, allowFilter_hold, if_pos ⟨htakes, hallow⟩]
    · intro hnot old buf hbuf
      obtain ⟨hbit, -⟩ := tableBytes_holds hbuf hlen
      by_cases htakes : rcv.kill = false ∧ rcv.takes = true
      · have hcond : ¬ (rcv.takes = true ∧ rcv.own.allowFilter ≠ 0) :=
          fun h => hnot ⟨htakes.1, h.1, h.2⟩
        rw [featureTriggerIn_active (active_hold.mpr (Client.takes_active htakes.1 htakes.2)) hbit]
        unfold receive
        dsimp only
        rw [takes_hold, own_hold, allowFilter_hold, if_neg hcond]
      · exact featureTriggerIn_not_takes (by simpa using htakes) (by decide) hbit
  · refine ⟨fun h => absurd h (not_conveys_of_nothing ?_), fun h => by omega⟩
    exact sendTable_nothing (Or.inl (by omega))

theorem conveys_noPushAfter_iff {ctab : Caidvaluetab} (hadm : (Setting.noPushAfter ctab).Admitted) :
    Conveys t (sendTable t .noPushAfter 4 true putCaidvalue · ctab) .noPushAfter cfg rcv
      (.noPushAfter ctab) ↔
      Heeds cfg rcv (.noPushAfter ctab) .noPushAfter ∧ Fits t .noPushAfter (.noPushAfter ctab) := by
  have hcapacity := capacity_le (t := t)
  have hkeepAll : ctab.filter (fun d => 0 < d.caid) = ctab := by
    apply List.filter_eq_self.mpr
    intro d hd
    apply decide_eq_true
    have hne := hadm d hd
    bv_omega
  change _ ↔ (_ ∧ _) ∧ 5 + 4 * ctab.length ≤ t.capacity
  by_cases hcap : ctab.length * 4 + 1 ≤ t.capacity ∧ ctab.length ≤ 255
  · have hsend : Sends (sendTable t .noPushAfter 4 true putCaidvalue · ctab)
        (t.pad .noPushAfter (t.header + 4 + (ctab.length * 4 + 1)))
        (tableBytes .noPushAfter (ctab.length * 4 + 1) caidvalueBytes ctab) :=
      sendTable_sends (fun d hd p bs hp => hp.putCaidvalue (hadm d hd)) hcap.1 hcap.2
    have hsize : t.header +
        (tableBytes .noPushAfter (ctab.length * 4 + 1) caidvalueBytes ctab).length ≤
        t.pad .noPushAfter (t.header + 4 + (ctab.length * 4 + 1)) :=
      tableBytes_size fun d => rfl
    rw [conveys_iff_of_cond (.noPushAfter ctab) hsend hsize (fun own => rfl),
      table_cap_iff, and_iff_left rfl]
    · rintro ⟨hkill, htakes⟩ old buf hbuf
      obtain ⟨hbit, hcount, hentries⟩ := tableBytes_holds hbuf hcap.2
      have hread := records_eq (fun d _ o h => readCaidvalue_eq h) hentries
      rw [List.map_id'] at hread
      rw [featureTriggerIn_active (active_hold.mpr (Client.takes_active hkill htakes)) hbit]
      unfold receive
      dsimp only
      rw [hcount, hread, takes_hold, if_pos htakes, hkeepAll]
    · intro hnot old buf hbuf
      exact featureTriggerIn_not_takes (by simpa using hnot) (by decide)
        (tableBytes_holds hbuf hcap.2).1
  · refine ⟨fun h => absurd h (not_conveys_of_nothing ?_), fun h => by omega⟩
    rcases Nat.lt_or_ge t.capacity (ctab.length * 4 + 1) with h | h
    · exact sendTable_nothing (Or.inl h)
    · exact sendTable_nothing (Or.inr ⟨rfl, by omega⟩)

section LgOnlyTab

variable {trigger : ℕ → Trigger} {size : ℕ} {bs : List Byte} {tab : Ftab}

/-- A receiver that does not take the table, or merges it into its own. -/
private theorem not_conveys_of_not_heeds (hsend : Sends trigger size bs)
    (hsize : t.header + bs.length ≤ size)
    (hbit : ∀ buf, Holds buf t.header bs → Holds buf t.header (i2b 2 Feature.lgOnlyTab.bit))
    (h : ¬ Heeds cfg rcv (.lgOnlyTab tab) .lgOnlyTab) :
    ¬ Conveys t trigger .lgOnlyTab cfg rcv (.lgOnlyTab tab) := by
  by_cases htakes : rcv.kill = false ∧ rcv.takes = true
  · have hremote : ¬ rcv.remote cfg = true := fun hremote => h ⟨htakes.1, htakes.2, hremote⟩
    apply not_conveys_of_longer hsend hsize fun own => rfl
    intro buf hbuf cl hcl
    rw [featureTriggerIn_active (active_hold.mpr (Client.takes_active htakes.1 htakes.2))
      (hbit buf hbuf)] at hcl
    unfold receive at hcl
    dsimp only at hcl
    rw [takes_hold, remote_hold, own_hold, htakes.2, if_neg (by decide)] at hcl
    by_cases hover : ((records (readIdent buf) (buf (t.header + 4)).toNat (t.header + 4 + 1)).any
        fun d => csMaxprov < d.prids.length) = true
    · rw [if_pos hover] at hcl
      cases hcl
    · have hmerge : ¬ (rcv.remote cfg = true ∨
          ((rcv.own.hold (.lgOnlyTab (⟨0, []⟩ :: tab))).lgOnlyTab).length = 0) := by
        rintro (h | h)
        · exact hremote h
        · cases h
      rw [if_neg hover, if_neg hmerge] at hcl
      obtain ⟨merged, hmerged, rfl⟩ := Option.map_eq_some_iff.mp hcl
      rw [own_hold]
      exact Nat.lt_of_succ_le (foldlM_length (fun tab d tab' => mergeIdents_length) hmerged)
  · apply not_conveys_of_unchanged hsend hsize
    intro old buf hbuf
    exact featureTriggerIn_not_takes (by simpa using htakes) (by decide) (hbit buf hbuf)

/-- What a receiver stores that replaces its table. -/
private theorem featureTriggerIn_replace {buf : ℕ → Byte} {old : Setting}
    (h : Heeds cfg rcv (.lgOnlyTab tab) .lgOnlyTab)
    (hbit : Holds buf t.header (i2b 2 Feature.lgOnlyTab.bit)) :
    featureTriggerIn buf t cfg (rcv.hold old) =
      if (records (readIdent buf) (buf (t.header + 4)).toNat (t.header + 4 + 1)).any
        fun d => csMaxprov < d.prids.length then none
      else some ((rcv.hold old).hold (.lgOnlyTab
        (records (readIdent buf) (buf (t.header + 4)).toNat (t.header + 4 + 1)))) := by
  obtain ⟨hkill, htakes, hremote⟩ := h
  rw [featureTriggerIn_active (active_hold.mpr (Client.takes_active hkill htakes)) hbit]
  unfold receive
  dsimp only
  rw [takes_hold, remote_hold, htakes, if_neg (by decide), if_pos (Or.inl hremote)]

theorem cxaioFtabSize_eq (hadm : (Setting.lgOnlyTab tab).Admitted) :
    cxaioFtabSize tab = (tab.map fun d => 6 + 6 * d.prids.length).sum := by
  unfold cxaioFtabSize
  congr 1
  apply List.map_congr_left
  intro d hd
  have hne : ¬ d.prids.length = 0 := fun h => (hadm d hd).2.1 (List.length_eq_zero_iff.mp h)
  rw [if_neg hne]
  omega

theorem lgOnlyBytes_eq (hadm : (Setting.lgOnlyTab tab).Admitted)
    (hprids : ∀ d ∈ tab, ∀ prid ∈ d.prids, prid.toNat < 2 ^ 24) :
    lgOnlyBytes tab = tableBytes .lgOnlyTab (cxaioFtabSize tab) identBytes tab := by
  have hlen : ∀ d ∈ tab, d.prids.length < 2 ^ 8 := by
    intro d hd
    have hmax : d.prids.length ≤ 128 := (hadm d hd).2.2
    omega
  unfold lgOnlyBytes tableBytes
  rw [hexBytes_cxaioFtabToBuf (fun d hd => (hadm d hd).2.1) hlen hprids]

private theorem lgOnlyBytes_size (hpos : 0 < cxaioFtabSize tab) :
    t.header + (lgOnlyBytes tab).length ≤ t.pad .lgOnlyTab (t.header + 4 + cxaioFtabSize tab) := by
  obtain ⟨k, hk⟩ := @two_dvd_cxaioFtabSize tab
  have hbytes : (hexBytes (cxaioFtabToBuf tab)).length = k := by
    rw [hexBytes_eq_map (k := k) (by rw [length_cxaioFtabToBuf, hk]), List.length_map,
      List.length_range]
  apply Nat.le_trans _ le_pad
  unfold lgOnlyBytes
  rw [List.length_append, List.length_append, List.length_append, hbytes, length_i2b_two,
    length_i2b_two, List.length_singleton]
  omega

private theorem length_le_size (hadm : (Setting.lgOnlyTab tab).Admitted) :
    12 * tab.length ≤ cxaioFtabSize tab := by
  rw [cxaioFtabSize_eq hadm]
  induction tab with
  | nil => exact Nat.le_refl 0
  | cons d tab ih =>
    have hne : d.prids.length ≠ 0 :=
      fun h => (hadm d List.mem_cons_self).2.1 (List.length_eq_zero_iff.mp h)
    have hrest := ih fun d hd => hadm d (List.mem_cons_of_mem _ hd)
    rw [List.length_cons, List.map_cons, List.sum_cons]
    omega

private theorem conveys_lgOnlyTab_nil :
    Conveys t (sendLgOnlyTab t · []) .lgOnlyTab cfg rcv (.lgOnlyTab []) ↔
      Heeds cfg rcv (.lgOnlyTab []) .lgOnlyTab := by
  have hsend := sendLgOnlyTab_nil (t := t)
  have hsize : t.header + (i2b 2 Feature.lgOnlyTab.bit ++ List.replicate 3 (0 : Byte)).length ≤
      t.pad .lgOnlyTab (t.header + 4) := by
    cases t <;> decide
  have hcap : t.pad .lgOnlyTab (t.header + 4) ≤ t.header + t.capacity := by
    cases t <;> decide
  constructor
  · intro h
    by_contra hheeds
    exact not_conveys_of_not_heeds hsend hsize (fun buf hbuf => (holds_append.mp hbuf).1) hheeds h
  · intro hheeds
    apply (conveys_iff_of_stored hsend hsize (fun own => rfl) _).mpr ⟨hcap, rfl⟩
    intro old buf hbuf
    obtain ⟨hbit, hzeros⟩ := holds_append.mp hbuf
    have hcount : buf (t.header + 4) = 0 := hzeros.getElem (i := 2) (by decide)
    rw [featureTriggerIn_replace hheeds hbit, hcount]
    rfl

theorem conveys_lgOnlyTab_iff (hadm : (Setting.lgOnlyTab tab).Admitted) :
    Conveys t (sendLgOnlyTab t · tab) .lgOnlyTab cfg rcv (.lgOnlyTab tab) ↔
      Heeds cfg rcv (.lgOnlyTab tab) .lgOnlyTab ∧ Fits t .lgOnlyTab (.lgOnlyTab tab) := by
  change _ ↔ _ ∧ _ < 256 ∧ _
  rw [← cxaioFtabSize_eq hadm]
  by_cases hnil : tab = []
  · subst hnil
    rw [conveys_lgOnlyTab_nil]
    exact (and_iff_left ⟨by decide, by simp⟩).symm
  have hpos : 0 < cxaioFtabSize tab := by
    have hlen := length_le_size hadm
    have hne := List.length_pos_iff.mpr hnil
    omega
  by_cases hsmall : cxaioFtabSize tab < 256
  · have hsend := sendLgOnlyTab_sends (t := t) hpos hsmall
    have hsize := lgOnlyBytes_size (t := t) hpos
    have hcapacity := capacity_ge (t := t)
    have hcap : t.pad .lgOnlyTab (t.header + 4 + cxaioFtabSize tab) ≤ t.header + t.capacity := by
      rw [pad_le_iff]
      omega
    have hbit : ∀ buf, Holds buf t.header (lgOnlyBytes tab) →
        Holds buf t.header (i2b 2 Feature.lgOnlyTab.bit) := by
      intro buf hbuf
      unfold lgOnlyBytes at hbuf
      rw [holds_append, holds_append, holds_append] at hbuf
      exact hbuf.1.1.1
    by_cases hheeds : Heeds cfg rcv (.lgOnlyTab tab) .lgOnlyTab
    · by_cases hprids : ∀ d ∈ tab, ∀ prid ∈ d.prids, prid.toNat < 2 ^ 24
      · refine ⟨fun _ => ⟨hheeds, hsmall, hprids⟩, fun _ => ?_⟩
        apply (conveys_iff_of_stored hsend hsize (fun own => rfl) _).mpr ⟨hcap, rfl⟩
        intro old buf hbuf
        have hlen := length_le_size hadm
        have hcounts : ∀ d ∈ tab, d.prids.length < 2 ^ 8 := by
          intro d hd
          have hmax : d.prids.length ≤ 128 := (hadm d hd).2.2
          omega
        rw [featureTriggerIn_replace hheeds (hbit buf hbuf)]
        rw [lgOnlyBytes_eq hadm hprids] at hbuf
        obtain ⟨-, hcount, hentries⟩ := tableBytes_holds hbuf (by omega)
        have hread := records_eq
          (fun d hd o h => readIdent_eq (hcounts d hd) (hprids d hd) h) hentries
        have hfew : ¬ (tab.any fun d => csMaxprov < d.prids.length) = true := by
          rw [List.any_eq_true]
          rintro ⟨d, hd, hover⟩
          have hmax := (hadm d hd).2.2
          exact absurd (of_decide_eq_true hover) (by omega)
        rw [List.map_id'] at hread
        rw [hcount, hread, if_neg hfew]
      · refine ⟨fun h => absurd h ?_, fun h => absurd h.2.2 hprids⟩
        apply not_conveys_of_old hsend hsize
        refine ⟨.lgOnlyTab [], fun buf hbuf heq => ?_⟩
        obtain ⟨cl, hcl, hgot⟩ := Option.map_eq_some_iff.mp heq
        rw [featureTriggerIn_replace hheeds (hbit buf hbuf), Option.ite_none_left_eq_some] at hcl
        rw [← Option.some.inj hcl.2, own_hold] at hgot
        apply hprids
        rw [← Setting.lgOnlyTab.inj hgot]
        exact forall_records (fun o => readIdent_prids) _ _
    · refine ⟨fun h => absurd h ?_, fun h => absurd h.1 hheeds⟩
      exact not_conveys_of_not_heeds hsend hsize hbit hheeds
  · refine ⟨fun h => absurd h (not_conveys_of_nothing ?_), fun h => absurd h.2.1 hsmall⟩
    intro fuel size p hsent
    have hendless := sendLgOnlyTab_endless (t := t) (Nat.le_of_not_lt hsmall) fuel
    cases hendless.symm.trans hsent

end LgOnlyTab

end Tables

/-- A setting that the configuration admits reaches the other side, on both transports, exactly if the sender
runs, the receiver takes it, and it fits in the message. -/
theorem conveys_iff (t : Transport) (stack : ℕ → Byte) (cfg cfg' : Cfg) (snd rcv : Client)
    (feature : Feature) (mode : ℕ) (own : Cecsp) (hown : snd.sender mode = some own)
    (hadm : (settingOf cfg snd own feature).Admitted) :
    Conveys t (featureTrigger t stack · cfg snd feature mode) feature cfg' rcv
      (settingOf cfg snd own feature) ↔
      snd.kill = false ∧ Heeds cfg' rcv (settingOf cfg snd own feature) feature ∧
        Fits t feature (settingOf cfg snd own feature) := by
  by_cases hkill : snd.kill = true
  · constructor
    · intro h
      refine absurd h (not_conveys_of_nothing ?_)
      intro fuel size p hsent
      have hunsent : featureTrigger t stack fuel cfg snd feature mode = .unsent := if_pos hkill
      cases hunsent.symm.trans hsent
    · intro h
      rw [hkill] at h
      cases h.1
  · have halive : snd.kill = false := by simpa using hkill
    unfold featureTrigger
    rw [hown, halive, and_iff_right rfl]
    simp only [Bool.false_eq_true, if_false]
    cases feature with
    | localgeneratedOnly =>
      exact (conveys_localgeneratedOnly_iff _).trans (and_iff_left trivial).symm
    | lgOnlyCaidtab => exact conveys_lgOnlyCaidtab_iff hadm
    | ecmFilter => exact conveys_ecmFilter_iff hadm
    | noPushAfter => exact conveys_noPushAfter_iff hadm
    | maxHop => exact (conveys_maxHop_iff _ _).trans (and_iff_left trivial).symm
    | aioVersion => exact (conveys_aioVersion_iff stack).trans (and_iff_left trivial).symm
    | lgOnlyTab => exact conveys_lgOnlyTab_iff hadm

/-- A sender in mode 2 with a table of its own, and an account that takes remote settings. -/
def featureReader (tab : Ftab) : Client :=
  ⟨false, 'p', true, ⟨0, 0, 0, [], 0, 0, 0, [], 0, [], 0, 0, [], []⟩,
    ⟨2, 0, 0, [], 0, 0, 0, [], 0, tab, 0, 0, [], []⟩⟩

def featureAccount : Client :=
  ⟨false, 'c', true, ⟨2, 0, 0, [], 1, 1, 0, [], 0, [], 1, 0, [], []⟩,
    ⟨0, 0, 0, [], 0, 0, 0, [], 0, [], 0, 0, [], []⟩⟩

def featureCfg : Cfg := ⟨0, [], [], [], [], 0⟩

/-- Two filters, one of them with two providers. -/
def smallFtab : Ftab := [⟨0x0500, [0x020810, 0x041950]⟩, ⟨0x0d05, [0x000004]⟩]

private theorem featureTrigger_lgOnlyTab {t : Transport} {stack : ℕ → Byte} {fuel mode : ℕ} {cfg : Cfg}
    {cl : Client} {own : Cecsp} (hkill : cl.kill = false) (hown : cl.sender mode = some own) :
    featureTrigger t stack fuel cfg cl .lgOnlyTab mode =
      sendLgOnlyTab t fuel (ownOr own.lgOnlyInTab cfg.cacheexLgOnlyInTab) := by
  unfold featureTrigger
  rw [hown, if_neg (by simp [hkill])]

private theorem ownOr_cons {α : Type} {own cfg : List α} (h : own ≠ []) : ownOr own cfg = own :=
  if_neg fun hlen => h (List.length_eq_zero_iff.mp hlen)

theorem conveys_smallFtab :
    Conveys .camd35 (featureTrigger .camd35 (fun _ => 0) · featureCfg (featureReader smallFtab) .lgOnlyTab 2)
      .lgOnlyTab featureCfg featureAccount
      (settingOf featureCfg (featureReader smallFtab) (featureReader smallFtab).reader .lgOnlyTab) := by
  have hset : settingOf featureCfg (featureReader smallFtab) (featureReader smallFtab).reader
      .lgOnlyTab = .lgOnlyTab smallFtab := congrArg Setting.lgOnlyTab (ownOr_cons (by decide))
  apply (conveys_iff .camd35 (fun _ => 0) featureCfg featureCfg (featureReader smallFtab) featureAccount
    .lgOnlyTab 2 (featureReader smallFtab).reader rfl _).mpr
  · rw [hset]
    refine ⟨rfl, ⟨rfl, by decide, by decide⟩, ?_⟩
    change _ < 256 ∧ ∀ d ∈ smallFtab, _
    simp [smallFtab]
  · rw [hset]
    change ∀ d ∈ smallFtab, _
    decide

/-- 22 filters with one provider each: 264 digits, which a counter of one byte does not reach. -/
def longFtab : Ftab := List.replicate 22 ⟨0x0500, [0x020810]⟩

theorem not_conveys_longFtab : (Setting.lgOnlyTab longFtab).Admitted ∧ ∀ t : Transport,
    (∀ fuel, featureTrigger t (fun _ => 0) fuel featureCfg (featureReader longFtab) .lgOnlyTab 2 =
      .endless) ∧
    ¬ Conveys t (featureTrigger t (fun _ => 0) · featureCfg (featureReader longFtab) .lgOnlyTab 2)
      .lgOnlyTab featureCfg featureAccount (.lgOnlyTab longFtab) := by
  have hadm : (Setting.lgOnlyTab longFtab).Admitted := by
    intro d hd
    rw [List.eq_of_mem_replicate hd]
    decide
  have hsize : 256 ≤ cxaioFtabSize longFtab := by
    simp [cxaioFtabSize, longFtab]
  refine ⟨hadm, fun t => ?_⟩
  have hendless : ∀ fuel, featureTrigger t (fun _ => 0) fuel featureCfg (featureReader longFtab)
      .lgOnlyTab 2 = .endless := by
    intro fuel
    rw [featureTrigger_lgOnlyTab rfl (show (featureReader longFtab).sender 2 =
      some (featureReader longFtab).reader from rfl)]
    show sendLgOnlyTab t fuel (ownOr longFtab []) = .endless
    rw [ownOr_cons (by simp [longFtab]), sendLgOnlyTab_endless hsize]
  refine ⟨hendless, not_conveys_of_nothing ?_⟩
  intro fuel size p hsent
  cases (hendless fuel).symm.trans hsent

end NCam.Cacheex.FeatureTrigger
