import NCam.Cacheex.FeatureTrigger
import Mathlib.Data.List.TakeWhile

/-! What the feature senders put into the payload, and when they send it: `cxaio_ftab_to_buf` as hexadecimal digits,
and the bytes that are sent for them. What the feature receivers read from a payload. -/
namespace NCam.Cacheex.FeatureTrigger

open NCam.Lib.Memory NCam.Lib.Counter NCam.Lib.Records NCam.Util NCam.Cacheex.Filter

section Digits

variable {v : BitVec 32} {w k : ℕ}

private theorem gethexval_hexChars : ∀ n < 16, gethexval (hexChars.getD n '0') = some n := by decide

private theorem nibbles_eq :
    ∀ a < 16, ∀ b < 16, (BitVec.ofNat 8 a) <<< 4 ||| BitVec.ofNat 8 b = BitVec.ofNat 8 (16 * a + b) := by
  decide

theorem hexNibble_hexDigit : hexNibble (hexDigit v k) = .ofNat 8 (v.toNat / 16 ^ k % 16) := by
  unfold hexNibble hexDigit
  rw [gethexval_hexChars _ (Nat.mod_lt _ (by omega))]
  rfl

/-- Two digits give back their byte. -/
theorem hexByte_hexDigit (v : BitVec 32) (k : ℕ) :
    hexByte (hexDigit v (2 * k + 1)) (hexDigit v (2 * k)) = (v >>> (8 * k)).setWidth 8 := by
  have hpow : 2 ^ (8 * k) = 16 ^ (2 * k) := by
    rw [show 8 * k = 4 * (2 * k) by omega, Nat.pow_mul]
  have hdiv : v.toNat / 16 ^ (2 * k + 1) = v.toNat / 16 ^ (2 * k) / 16 := by
    rw [Nat.pow_succ, Nat.div_div_eq_div_mul]
  unfold hexByte
  rw [hexNibble_hexDigit, hexNibble_hexDigit,
    nibbles_eq _ (Nat.mod_lt _ (by omega)) _ (Nat.mod_lt _ (by omega)), hdiv]
  apply BitVec.eq_of_toNat_eq
  rw [BitVec.toNat_ofNat, BitVec.toNat_setWidth, BitVec.toNat_ushiftRight, Nat.shiftRight_eq_div_pow,
    hpow]
  omega

private theorem pad_dropWhile {p : Char → Bool} {s : List Char} (hp : ∀ c, p c = true → c = '0') :
    List.replicate (s.length - (s.dropWhile p).length) '0' ++ s.dropWhile p = s := by
  have hlen : (s.takeWhile p).length + (s.dropWhile p).length = s.length := by
    rw [← List.length_append, List.takeWhile_append_dropWhile]
  have hzeros : s.takeWhile p = List.replicate (s.length - (s.dropWhile p).length) '0' := by
    apply List.eq_replicate_iff.mpr
    exact ⟨by omega, fun c hc => hp c (List.mem_takeWhile_imp hc)⟩
  rw [← hzeros, List.takeWhile_append_dropWhile]

theorem length_printHex : (printHex w v).length = w := by
  unfold printHex
  rw [List.length_take, List.length_append, List.length_replicate]
  omega

/-- A number of at most `w` digits is printed in full. -/
theorem printHex_eq (hw : w ≤ 8) (hv : v.toNat < 16 ^ w) :
    printHex w v = (List.range w).reverse.map (hexDigit v) := by
  have hrange : List.range 8 = List.range w ++ (List.range (8 - w)).map (w + ·) := by
    rw [← List.range_add, Nat.add_sub_cancel' hw]
  have hzero : ∀ c ∈ ((List.range (8 - w)).map (w + ·)).reverse.map (hexDigit v),
      decide (c = '0') = true := by
    intro c hc
    simp only [List.mem_map, List.mem_reverse] at hc
    obtain ⟨-, ⟨j, -, rfl⟩, rfl⟩ := hc
    have hdiv : v.toNat / 16 ^ (w + j) = 0 :=
      Nat.div_eq_of_lt (Nat.lt_of_lt_of_le hv (Nat.pow_le_pow_right (by omega) (by omega)))
    apply decide_eq_true
    unfold hexDigit
    rw [hdiv]
    rfl
  have hlen : ((List.range w).reverse.map (hexDigit v)).length = w := by simp
  unfold printHex
  rw [hrange, List.reverse_append, List.map_append, List.dropWhile_append_of_pos hzero]
  have hpad := pad_dropWhile (p := (· = '0')) (s := (List.range w).reverse.map (hexDigit v))
    fun c hc => of_decide_eq_true hc
  rw [hlen] at hpad
  dsimp only
  rw [hpad, List.take_of_length_le (by omega)]

end Digits

/-- The bytes of the digits in pairs. -/
def hexBytes : List Char → List Byte
  | c :: d :: str => hexByte c d :: hexBytes str
  | _ => []

section Bytes

variable {v : BitVec 32} {str : List Char}

theorem hexBytes_append {k : ℕ} {s : List Char} (hs : s.length = 2 * k) (str : List Char) :
    hexBytes (s ++ str) = hexBytes s ++ hexBytes str := by
  induction k generalizing s with
  | zero =>
    rw [List.length_eq_zero_iff.mp hs]
    rfl
  | succ k ih =>
    match s with
    | [] => cases hs
    | [c] => simp at hs; omega
    | c :: d :: s =>
      change hexByte c d :: hexBytes (s ++ str) = hexByte c d :: (hexBytes s ++ hexBytes str)
      rw [ih (by simp at hs; omega)]

theorem hexBytes_printHex_two (h : v.toNat < 2 ^ 8) : hexBytes (printHex 2 v) = [v.setWidth 8] := by
  rw [printHex_eq (by omega) h]
  change [hexByte (hexDigit v (2 * 0 + 1)) (hexDigit v (2 * 0))] = _
  rw [hexByte_hexDigit]
  rfl

theorem hexBytes_printHex_four (h : v.toNat < 2 ^ 16) : hexBytes (printHex 4 v) = i2b 2 v := by
  rw [printHex_eq (by omega) h]
  change [hexByte (hexDigit v (2 * 1 + 1)) (hexDigit v (2 * 1)),
    hexByte (hexDigit v (2 * 0 + 1)) (hexDigit v (2 * 0))] = _
  rw [hexByte_hexDigit, hexByte_hexDigit]
  rfl

theorem hexBytes_printHex_six (h : v.toNat < 2 ^ 24) : hexBytes (printHex 6 v) = i2b 3 v := by
  rw [printHex_eq (by omega) h]
  change [hexByte (hexDigit v (2 * 2 + 1)) (hexDigit v (2 * 2)),
    hexByte (hexDigit v (2 * 1 + 1)) (hexDigit v (2 * 1)),
    hexByte (hexDigit v (2 * 0 + 1)) (hexDigit v (2 * 0))] = _
  rw [hexByte_hexDigit, hexByte_hexDigit, hexByte_hexDigit]
  rfl

/-- Texts of even length behind each other. -/
theorem hexBytes_flatMap {γ : Type} {f : γ → List Char} {g : γ → List Byte} {xs : List γ}
    (heven : ∀ x ∈ xs, 2 ∣ (f x).length) (hbytes : ∀ x ∈ xs, hexBytes (f x) = g x) :
    hexBytes (xs.flatMap f) = xs.flatMap g := by
  induction xs with
  | nil => rfl
  | cons x xs ih =>
    obtain ⟨k, hk⟩ := heven x List.mem_cons_self
    rw [List.flatMap_cons, List.flatMap_cons, hexBytes_append hk, hbytes x List.mem_cons_self,
      ih (fun y hy => heven y (List.mem_cons_of_mem x hy))
        fun y hy => hbytes y (List.mem_cons_of_mem x hy)]

/-- The bytes that the copying loop takes from the digits. -/
theorem hexBytes_eq_map {k : ℕ} (h : str.length = 2 * k) :
    hexBytes str = (List.range k).map fun j =>
      hexByte (str.getD (2 * j) '\x00') (str.getD (2 * j + 1) '\x00') := by
  induction k generalizing str with
  | zero =>
    rw [List.length_eq_zero_iff.mp h]
    rfl
  | succ k ih =>
    match str with
    | [] => cases h
    | [c] => simp at h; omega
    | c :: d :: str =>
      rw [List.range_succ_eq_map, List.map_cons, List.map_map, hexBytes,
        ih (by simp at h; omega)]
      rfl

end Bytes

/-- One filter in the message. -/
def identBytes (d : Filt) : List Byte :=
  i2b 2 (d.caid.setWidth 32) ++ ([.ofNat 8 d.prids.length] ++ d.prids.flatMap (i2b 3))

section Table

variable {d : Filt} {tab : Ftab}

theorem length_printFilt : (printFilt d).length =
    4 + 2 + 6 * d.prids.length + if d.prids.length = 0 then 6 else 0 := by
  have hprids : (d.prids.flatMap (printHex 6)).length = 6 * d.prids.length :=
    length_flatMap_of_width (fun _ => length_printHex) d.prids
  unfold printFilt
  rw [List.length_append, List.length_append, length_printHex, hprids]
  by_cases hempty : d.prids.length = 0
  · rw [if_pos hempty, if_pos hempty, hempty]
    rfl
  · rw [if_neg hempty, if_neg hempty, length_printHex]
    omega

/-- The text has the length that was allocated for it. -/
theorem length_cxaioFtabToBuf : (cxaioFtabToBuf tab).length = cxaioFtabSize tab := by
  unfold cxaioFtabToBuf cxaioFtabSize
  rw [List.length_flatMap]
  simp only [length_printFilt]

theorem two_dvd_length_printFilt : 2 ∣ (printFilt d).length := by
  rw [length_printFilt]
  split_ifs <;> omega

theorem two_dvd_cxaioFtabSize : 2 ∣ cxaioFtabSize tab := by
  unfold cxaioFtabSize
  induction tab with
  | nil => exact Nat.dvd_zero 2
  | cons d tab ih =>
    rw [List.map_cons, List.sum_cons, ← length_printFilt]
    exact Nat.dvd_add two_dvd_length_printFilt ih

theorem hexBytes_printFilt (hne : d.prids ≠ []) (hlen : d.prids.length < 2 ^ 8)
    (hprid : ∀ prid ∈ d.prids, prid.toNat < 2 ^ 24) : hexBytes (printFilt d) = identBytes d := by
  have hcaid : (d.caid.setWidth 32).toNat < 2 ^ 16 := by
    rw [BitVec.toNat_setWidth_of_le (by omega)]
    exact d.caid.isLt
  have hcount : (BitVec.ofNat 32 d.prids.length).toNat < 2 ^ 8 := by
    rw [BitVec.toNat_ofNat]
    omega
  have hprids : hexBytes (d.prids.flatMap (printHex 6)) = d.prids.flatMap (i2b 3) := by
    apply hexBytes_flatMap
    · intro prid _
      rw [length_printHex]
      omega
    · exact fun prid h => hexBytes_printHex_six (hprid prid h)
  have hempty : ¬ d.prids.length = 0 := fun h => hne (List.length_eq_zero_iff.mp h)
  unfold printFilt identBytes
  rw [if_neg hempty, List.append_assoc, hexBytes_append (k := 2) length_printHex,
    hexBytes_append (k := 1) length_printHex, hexBytes_printHex_four hcaid,
    hexBytes_printHex_two hcount, hprids]
  congr 3
  apply BitVec.eq_of_toNat_eq
  rw [BitVec.toNat_setWidth, BitVec.toNat_ofNat, BitVec.toNat_ofNat]
  omega

/-- The bytes of a table whose providers have 24 bits. -/
theorem hexBytes_cxaioFtabToBuf (hne : ∀ d ∈ tab, d.prids ≠ [])
    (hlen : ∀ d ∈ tab, d.prids.length < 2 ^ 8)
    (hprid : ∀ d ∈ tab, ∀ prid ∈ d.prids, prid.toNat < 2 ^ 24) :
    hexBytes (cxaioFtabToBuf tab) = tab.flatMap identBytes :=
  hexBytes_flatMap (fun _ _ => two_dvd_length_printFilt)
    fun d hd => hexBytes_printFilt (hne d hd) (hlen d hd) (hprid d hd)

end Table

/-- The payload is `bs` followed by zeros, and the index stands behind `bs`. -/
structure Wrote (p : Payload) (bs : List Byte) : Prop where
  mem : p.mem = put (fun _ => 0) 0 bs
  index : p.i = bs.length
  top : p.top ≤ bs.length

section Wrote

variable {p : Payload} {bs cs : List Byte} {v : BitVec 32} {n : ℕ} {feature : Feature}

private theorem zeros_holds : Holds (put (fun _ => 0) 0 bs) bs.length (List.replicate n (0 : Byte)) := by
  apply holds_iff.mpr
  intro i hi
  rw [List.getElem_replicate]
  exact put_of_le (by omega)

private theorem put_zeros :
    put (fun _ => 0) 0 (bs ++ List.replicate n 0) = put (fun _ => (0 : Byte)) 0 bs := by
  rw [← put_put_append, Nat.zero_add]
  exact put_eq_self zeros_holds

theorem Wrote.empty : Wrote .empty [] := ⟨put_nil.symm, rfl, Nat.le_refl 0⟩

theorem Wrote.append (h : Wrote p bs) (cs : List Byte) : Wrote (p.append cs) (bs ++ cs) := by
  have htop := h.top
  constructor
  · change put p.mem p.i cs = _
    rw [h.mem, h.index]
    exact put_put_of_eq (by omega)
  · change p.i + cs.length = _
    rw [h.index, List.length_append]
  · change max p.top (p.i + cs.length) ≤ _
    rw [h.index, List.length_append]
    omega

/-- A field that is zero is not written, and is there all the same. -/
theorem Wrote.putField (h : Wrote p bs) (hlen : (i2b n v).length = n)
    (hzero : v = 0 → i2b n v = List.replicate n 0) : Wrote (putField n v p) (bs ++ i2b n v) := by
  unfold FeatureTrigger.putField
  by_cases hv : v = 0
  · rw [if_neg (by simp [hv]), hzero hv]
    have htop := h.top
    constructor
    · change p.mem = _
      rw [put_zeros, h.mem]
    · change p.i + n = _
      rw [h.index, List.length_append, List.length_replicate]
    · change p.top ≤ _
      rw [List.length_append]
      omega
  · rw [if_pos hv]
    have happ := h.append (i2b n v)
    unfold Payload.append at happ
    rwa [hlen] at happ

theorem Wrote.start (feature : Feature) (n : ℕ) :
    Wrote (.start feature n) (i2b 2 feature.bit ++ i2b 2 (.ofNat 32 n)) :=
  (Wrote.empty.append _).append _

theorem Wrote.foldl {α : Type} {write : Payload → α → Payload} {enc : α → List Byte} {xs : List α}
    (hwrite : ∀ x ∈ xs, ∀ p bs, Wrote p bs → Wrote (write p x) (bs ++ enc x)) (h : Wrote p bs) :
    Wrote (xs.foldl write p) (bs ++ xs.flatMap enc) := by
  induction xs generalizing p bs with
  | nil => simpa using h
  | cons x xs ih =>
    rw [List.foldl_cons, List.flatMap_cons, ← List.append_assoc]
    apply ih
    · exact fun y hy => hwrite y (List.mem_cons_of_mem x hy)
    · exact hwrite x List.mem_cons_self p bs h

end Wrote

/-- With enough fuel a message of `size` bytes with the payload `bs` is sent, and never another. -/
def Sends (trigger : ℕ → Trigger) (size : ℕ) (bs : List Byte) : Prop :=
  ∃ p : Payload, p.mem = put (fun _ => 0) 0 bs ∧ p.top ≤ bs.length ∧
    (∃ fuel, trigger fuel = .sent size p) ∧
    ∀ fuel size' p', trigger fuel = .sent size' p' → size' = size ∧ p' = p

def SendsNothing (trigger : ℕ → Trigger) : Prop := ∀ fuel size p, trigger fuel ≠ .sent size p

section Sends

variable {t : Transport} {feature : Feature} {size : ℕ} {p : Payload} {bs : List Byte}
  {loop : ℕ → Option Payload}

theorem sends_const (h : p.mem = put (fun _ => 0) 0 bs) (htop : p.top ≤ bs.length) :
    Sends (fun _ => .sent size p) size bs := by
  refine ⟨p, h, htop, ⟨0, rfl⟩, ?_⟩
  intro fuel size' p' heq
  cases heq
  exact ⟨rfl, rfl⟩

/-- A sender that ends with its loop. -/
theorem sends_of_loop (hp : Wrote p bs) {k : ℕ} (hk : ∀ fuel, k < fuel → loop fuel = some p)
    (hmono : ∀ fuel fuel' p', loop fuel = some p' → fuel ≤ fuel' → loop fuel' = some p') :
    Sends (fun fuel => .ofLoop size (loop fuel)) size bs := by
  have hsent : Trigger.ofLoop size (loop (k + 1)) = .sent size p := by
    rw [hk (k + 1) (by omega), Trigger.ofLoop]
  refine ⟨p, hp.mem, hp.top, ⟨k + 1, hsent⟩, ?_⟩
  intro fuel size' p' heq
  change Trigger.ofLoop size (loop fuel) = _ at heq
  cases hloop : loop fuel with
  | none =>
    rw [hloop] at heq
    cases heq
  | some q =>
    rw [hloop] at heq
    cases heq
    have hmax := hmono fuel (max fuel (k + 1)) p' hloop (by omega)
    rw [hk _ (by omega)] at hmax
    exact ⟨rfl, (Option.some.inj hmax).symm⟩

theorem capacity_le : t.header + t.capacity = 1020 := by
  cases t <;> rfl

theorem pad_le_iff :
    t.pad feature size ≤ t.header + t.capacity ↔ size ≤ t.header + t.capacity := by
  have hcap := capacity_le (t := t)
  unfold Transport.pad
  split_ifs with h <;> omega

theorem le_pad : size ≤ t.pad feature size := by
  unfold Transport.pad
  split_ifs with h <;> omega

end Sends

section Table

variable {α : Type} {t : Transport} {feature : Feature} {w : ℕ} {max255 : Bool}
  {write : Payload → α → Payload} {enc : α → List Byte} {tab : List α}

/-- The payload of a table. -/
def tableBytes (feature : Feature) (len : ℕ) (enc : α → List Byte) (tab : List α) : List Byte :=
  i2b 2 feature.bit ++ i2b 2 (.ofNat 32 len) ++ [.ofNat 8 tab.length] ++ tab.flatMap enc

theorem sendTable_nothing (h : t.capacity < tab.length * w + 1 ∨ (max255 = true ∧ 255 < tab.length)) :
    SendsNothing fun fuel => sendTable t feature w max255 write fuel tab := by
  intro fuel size p heq
  unfold sendTable at heq
  dsimp only at heq
  by_cases hcap : tab.length * w + 1 > t.capacity
  · rw [if_pos hcap] at heq
    cases heq
  · have hcount : max255 = true ∧ tab.length > 255 := h.resolve_left hcap
    rw [if_neg hcap, if_pos hcount] at heq
    cases heq

theorem sendTable_sends (hwrite : ∀ x ∈ tab, ∀ p bs, Wrote p bs → Wrote (write p x) (bs ++ enc x))
    (hcap : tab.length * w + 1 ≤ t.capacity) (hcount : tab.length ≤ 255) :
    Sends (fun fuel => sendTable t feature w max255 write fuel tab)
      (t.pad feature (t.header + 4 + (tab.length * w + 1)))
      (tableBytes feature (tab.length * w + 1) enc tab) := by
  have hle := capacity_le (t := t)
  have hsize : (t.header + 4 + (tab.length * w + 1)) % 2 ^ 16 =
      t.header + 4 + (tab.length * w + 1) := Nat.mod_eq_of_lt (by omega)
  have hp := Wrote.foldl hwrite
    ((Wrote.start feature (tab.length * w + 1)).append [.ofNat 8 tab.length])
  have hsend : (fun fuel => sendTable t feature w max255 write fuel tab) = fun fuel =>
      .ofLoop (t.pad feature (t.header + 4 + (tab.length * w + 1)))
        (countUp 256 1 tab.length (atEntry write tab) fuel 0
          ((Payload.start feature (tab.length * w + 1)).append [.ofNat 8 tab.length])) := by
    funext fuel
    unfold sendTable
    dsimp only
    rw [if_neg (by omega), if_neg (by omega), hsize]
  rw [hsend]
  exact sends_of_loop hp (fun fuel hfuel => countUp_entries (by omega) hfuel)
    fun fuel fuel' p' => countUp_mono

end Table

section Entries

variable {p : Payload} {bs : List Byte}

def caidBytes (d : Filt) : List Byte := i2b 2 (d.caid.setWidth 32)

def caidvalueBytes (d : CaidvaluetabData) : List Byte :=
  i2b 2 (d.caid.setWidth 32) ++ i2b 2 (d.value.setWidth 32)

def filterBytes (d : CecspvaluetabData) : List Byte :=
  i2b 2 d.caid ++ (i2b 2 d.cmask ++ (i2b 3 d.prid ++ i2b 2 d.srvid))

theorem Wrote.putCaid {d : Filt} (h : Wrote p bs) (hcaid : d.caid ≠ 0) :
    Wrote (putCaid p d) (bs ++ caidBytes d) := by
  unfold FeatureTrigger.putCaid
  rw [if_pos hcaid]
  exact h.append _

theorem Wrote.putCaidvalue {d : CaidvaluetabData} (h : Wrote p bs) (hcaid : d.caid ≠ 0) :
    Wrote (putCaidvalue p d) (bs ++ caidvalueBytes d) := by
  unfold FeatureTrigger.putCaidvalue caidvalueBytes
  rw [if_pos hcaid, ← List.append_assoc]
  exact (h.append _).append _

theorem Wrote.putFilterEntry {d : CecspvaluetabData} (h : Wrote p bs) (hcaid : d.caid ≠ 0) :
    Wrote (putFilterEntry p d) (bs ++ filterBytes d) := by
  have hzero_two : ∀ v : BitVec 32, v = 0 → i2b 2 v = List.replicate 2 0 := by
    rintro v rfl
    decide
  have hzero_three : ∀ v : BitVec 32, v = 0 → i2b 3 v = List.replicate 3 0 := by
    rintro v rfl
    decide
  unfold FeatureTrigger.putFilterEntry filterBytes
  rw [if_pos hcaid, ← List.append_assoc, ← List.append_assoc, ← List.append_assoc]
  have hcmask := (h.append (i2b 2 d.caid)).putField (n := 2) rfl (hzero_two d.cmask)
  have hprid := hcmask.putField (n := 3) rfl (hzero_three d.prid)
  exact hprid.putField rfl (hzero_two d.srvid)

end Entries

section LgOnlyTab

variable {t : Transport} {tab : Ftab}

/-- The loop over the digits has a counter of one byte and does not end with 256 digits or more. -/
theorem sendLgOnlyTab_endless (h : 256 ≤ cxaioFtabSize tab) (fuel : ℕ) :
    sendLgOnlyTab t fuel tab = .endless := by
  have hlen : 256 ≤ (cxaioFtabToBuf tab).length := by
    rw [length_cxaioFtabToBuf]
    exact h
  unfold sendLgOnlyTab
  dsimp only
  rw [if_pos (by omega), countUp_endless (by omega) hlen fuel (by omega)]
  rfl

private theorem wrote_putHex {p : Payload} {bs : List Byte} {k : ℕ} (h : Wrote p bs)
    (hlen : (cxaioFtabToBuf tab).length = 2 * k) :
    Wrote ((List.range k).foldl (fun p j => putHex (cxaioFtabToBuf tab) (2 * j) p) p)
      (bs ++ hexBytes (cxaioFtabToBuf tab)) := by
  rw [hexBytes_eq_map hlen, List.map_eq_flatMap]
  exact Wrote.foldl (fun j _ p bs hp => hp.append _) h

/-- The payload of a table in digits. -/
def lgOnlyBytes (tab : Ftab) : List Byte :=
  i2b 2 Feature.lgOnlyTab.bit ++ i2b 2 (.ofNat 32 (cxaioFtabSize tab)) ++ [.ofNat 8 tab.length] ++
    hexBytes (cxaioFtabToBuf tab)

theorem sendLgOnlyTab_sends (hpos : 0 < cxaioFtabSize tab) (hsize : cxaioFtabSize tab < 256) :
    Sends (fun fuel => sendLgOnlyTab t fuel tab)
      (t.pad .lgOnlyTab (t.header + 4 + cxaioFtabSize tab)) (lgOnlyBytes tab) := by
  obtain ⟨k, hk⟩ := @two_dvd_cxaioFtabSize tab
  have hlen : (cxaioFtabToBuf tab).length = 2 * k := by rw [length_cxaioFtabToBuf, hk]
  have hle := capacity_le (t := t)
  have hmod : (t.header + 4 + cxaioFtabSize tab) % 2 ^ 16 = t.header + 4 + cxaioFtabSize tab :=
    Nat.mod_eq_of_lt (by omega)
  have hp := wrote_putHex (k := k)
    ((Wrote.start .lgOnlyTab (cxaioFtabSize tab)).append [.ofNat 8 tab.length]) hlen
  have hsend : (fun fuel => sendLgOnlyTab t fuel tab) = fun fuel =>
      .ofLoop (t.pad .lgOnlyTab (t.header + 4 + cxaioFtabSize tab))
        (countUp 256 2 (2 * k) (putHex (cxaioFtabToBuf tab)) fuel 0
          ((Payload.start .lgOnlyTab (cxaioFtabSize tab)).append [.ofNat 8 tab.length])) := by
    funext fuel
    unfold sendLgOnlyTab
    dsimp only
    rw [if_pos (by omega), length_cxaioFtabToBuf, hmod, ← hk]
    rfl
  rw [hsend]
  exact sends_of_loop hp (fun fuel hfuel => countUp_eq (by omega) (by omega) hfuel)
    fun fuel fuel' p' => countUp_mono

theorem sendLgOnlyTab_nil :
    Sends (fun fuel => sendLgOnlyTab t fuel [])
      (t.pad .lgOnlyTab (t.header + 4)) (i2b 2 Feature.lgOnlyTab.bit ++ List.replicate 3 0) := by
  have hp := Wrote.empty.append (i2b 2 Feature.lgOnlyTab.bit)
  apply sends_const
  · rw [put_zeros]
    exact hp.mem
  · exact Nat.le_trans hp.top (by simp)

end LgOnlyTab

section Entries

variable {buf : ℕ → Byte} {o : ℕ}

private theorem narrow_widen (v : BitVec 16) : ((v.setWidth 32).setWidth 16 : BitVec 16) = v := by
  rw [BitVec.setWidth_setWidth_of_le _ (by omega), BitVec.setWidth_eq]

private theorem widen_narrow (v : BitVec 16) :
    (((v.setWidth 32).setWidth 16).setWidth 32 : BitVec 32) = v.setWidth 32 :=
  congrArg (BitVec.setWidth 32) (narrow_widen v)

theorem readCaid_eq {d : Filt} (h : Holds buf o (caidBytes d)) :
    readCaid buf o = (⟨d.caid, [noProvidValue]⟩, o + (caidBytes d).length) := by
  unfold readCaid
  rw [b2i_two h, widen_narrow, narrow_widen]
  rfl

private theorem readField_narrow {v : BitVec 16} (h : Holds buf o (i2b 2 (v.setWidth 32))) :
    (readField buf 2 o 0xffff).setWidth 16 = v := by
  unfold readField
  rw [b2i_two h, widen_narrow]
  dsimp only
  by_cases hones : v.setWidth 32 = (0xffff : BitVec 32)
  · rw [if_pos hones, ← narrow_widen v, hones]
    rfl
  · rw [if_neg hones, narrow_widen]

theorem readCaidvalue_eq {d : CaidvaluetabData} (h : Holds buf o (caidvalueBytes d)) :
    readCaidvalue buf o = (d, o + (caidvalueBytes d).length) := by
  unfold caidvalueBytes at h
  rw [holds_append, length_i2b_two] at h
  unfold readCaidvalue
  rw [readField_narrow h.1, readField_narrow h.2]
  rfl

/-- What a field of two bytes carries of a value. -/
def carried2 (v : BitVec 32) : BitVec 32 :=
  if (v.setWidth 16).setWidth 32 = (0xffff : BitVec 32) then -1 else (v.setWidth 16).setWidth 32

/-- What a field of three bytes carries of a value. -/
def carried3 (v : BitVec 32) : BitVec 32 :=
  if (v.setWidth 24).setWidth 32 = (0xffffff : BitVec 32) then -1 else (v.setWidth 24).setWidth 32

def carriedEntry (d : CecspvaluetabData) : CecspvaluetabData :=
  ⟨carried2 d.caid, carried2 d.cmask, carried3 d.prid, carried2 d.srvid, 0, 0⟩

private theorem readField_two {v : BitVec 32} (h : Holds buf o (i2b 2 v)) :
    readField buf 2 o 0xffff = carried2 v := by
  unfold readField carried2
  rw [b2i_two h]

private theorem readField_three {v : BitVec 32} (h : Holds buf o (i2b 3 v)) :
    readField buf 3 o 0xffffff = carried3 v := by
  unfold readField carried3
  rw [b2i_three h]

theorem readFilterEntry_eq {d : CecspvaluetabData} (h : Holds buf o (filterBytes d)) :
    readFilterEntry buf o = (carriedEntry d, o + (filterBytes d).length) := by
  unfold filterBytes at h
  rw [holds_append, holds_append, holds_append, length_i2b_two, length_i2b_two, length_i2b_three,
    Nat.add_assoc, Nat.add_assoc] at h
  obtain ⟨hcaid, hcmask, hprid, hsrvid⟩ := h
  unfold readFilterEntry carriedEntry
  rw [readField_two hcaid, readField_two hcmask, readField_three hprid, readField_two hsrvid]
  rfl

private theorem readPrid_eq {prid : BitVec 32} (hprid : prid.toNat < 2 ^ 24)
    (h : Holds buf o (i2b 3 prid)) : readPrid buf o = (prid, o + (i2b 3 prid).length) := by
  unfold readPrid
  rw [b2i_three h, length_i2b_three]
  congr 1
  apply BitVec.eq_of_toNat_eq
  rw [BitVec.toNat_setWidth, BitVec.toNat_setWidth]
  omega

theorem readIdent_eq {d : Filt} (hlen : d.prids.length < 2 ^ 8)
    (hprid : ∀ prid ∈ d.prids, prid.toNat < 2 ^ 24) (h : Holds buf o (identBytes d)) :
    readIdent buf o = (d, o + (identBytes d).length) := by
  unfold identBytes at h
  rw [holds_append, holds_append, length_i2b_two, List.length_singleton, Nat.add_assoc] at h
  obtain ⟨hcaid, hcount, hprids⟩ := h
  have hnprids : (b2i 1 buf (o + 2)).toNat = d.prids.length := by
    rw [b2i_one hcount, BitVec.toNat_setWidth, BitVec.toNat_ofNat]
    omega
  have hread : records (readPrid buf) d.prids.length (o + 3) = d.prids.map id :=
    records_eq (fun prid hmem o h => readPrid_eq (hprid prid hmem) h) hprids
  have hbytes : (d.prids.flatMap (i2b 3)).length = 3 * d.prids.length :=
    length_flatMap_of_width (fun _ => length_i2b_three _) d.prids
  rw [List.map_id] at hread
  unfold readIdent identBytes
  dsimp only
  rw [hnprids, b2i_two hcaid, widen_narrow, narrow_widen, hread, List.length_append,
    List.length_append, hbytes, length_i2b_two, List.length_singleton]
  congr 1
  omega

/-- A received provider has 24 bits. -/
theorem readIdent_prids : ∀ prid ∈ (readIdent buf o).1.prids, prid.toNat < 2 ^ 24 := by
  apply forall_records
  exact fun o => b2i_three_lt buf o

end Entries

section Hold

variable {own : Cecsp} {cl : Client} {cfg : Cfg} {s : Setting}

@[simp] theorem mode_hold : (own.hold s).mode = own.mode := by cases s <;> rfl

@[simp] theorem allowFilter_hold : (own.hold s).allowFilter = own.allowFilter := by cases s <;> rfl

@[simp] theorem allowMaxhop_hold : (own.hold s).allowMaxhop = own.allowMaxhop := by cases s <;> rfl

@[simp] theorem lgOnlyRemoteSettings_hold :
    (own.hold s).lgOnlyRemoteSettings = own.lgOnlyRemoteSettings := by cases s <;> rfl

@[simp] theorem kill_hold : (cl.hold s).kill = cl.kill := by
  unfold Client.hold
  split_ifs <;> rfl

@[simp] theorem typ_hold : (cl.hold s).typ = cl.typ := by
  unfold Client.hold
  split_ifs <;> rfl

@[simp] theorem own_hold : (cl.hold s).own = cl.own.hold s := by
  unfold Client.hold Client.own
  split_ifs <;> rfl

@[simp] theorem takes_hold : (cl.hold s).takes = cl.takes := by simp [Client.takes]

@[simp] theorem remote_hold : (cl.hold s).remote cfg = cl.remote cfg := by simp [Client.remote]

/-- For every setting of a feature there is another one that may be held. -/
theorem exists_held_ne (feature : Feature) (s : Setting) :
    ∃ old : Setting, ∀ own : Cecsp, (own.hold old).held feature ≠ s := by
  have htwo : ∃ a b : Setting, a ≠ b ∧ ∀ own : Cecsp,
      (own.hold a).held feature = a ∧ (own.hold b).held feature = b := by
    cases feature with
    | localgeneratedOnly =>
      exact ⟨.localgeneratedOnly 0, .localgeneratedOnly 1, by decide, fun own => ⟨rfl, rfl⟩⟩
    | lgOnlyCaidtab | lgOnlyTab =>
      exact ⟨.lgOnlyTab [], .lgOnlyTab [⟨0, []⟩], by decide, fun own => ⟨rfl, rfl⟩⟩
    | ecmFilter =>
      exact ⟨.ecmFilter [], .ecmFilter [⟨0, 0, 0, 0, 0, 0⟩], by decide, fun own => ⟨rfl, rfl⟩⟩
    | noPushAfter =>
      exact ⟨.noPushAfter [], .noPushAfter [⟨0, 0⟩], by decide, fun own => ⟨rfl, rfl⟩⟩
    | maxHop => exact ⟨.maxHop 0 0, .maxHop 1 0, by decide, fun own => ⟨rfl, rfl⟩⟩
    | aioVersion => exact ⟨.aioVersion [], .aioVersion [1], by decide, fun own => ⟨rfl, rfl⟩⟩
  obtain ⟨a, b, hne, hheld⟩ := htwo
  by_cases ha : a = s
  · refine ⟨b, fun own => ?_⟩
    rw [(hheld own).2, ← ha]
    exact hne.symm
  · refine ⟨a, fun own => ?_⟩
    rw [(hheld own).1]
    exact ha

end Hold

section Dispatch

variable {buf : ℕ → Byte} {t : Transport} {cfg : Cfg} {cl : Client} {feature : Feature}

/-- A client that the receiver looks at. -/
def Client.Active (cl : Client) : Prop :=
  cl.kill = false ∧ (cl.typ = 'c' ∨ cl.typ = 'p') ∧ 0 < cl.own.mode

theorem active_hold {s : Setting} : (cl.hold s).Active ↔ cl.Active := by simp [Client.Active]

theorem Client.takes_active (hkill : cl.kill = false) (h : cl.takes = true) : cl.Active := by
  simp only [Client.takes, Bool.or_eq_true, Bool.and_eq_true, decide_eq_true_eq] at h
  refine ⟨hkill, ?_⟩
  rcases h with ⟨htyp, hmode⟩ | ⟨htyp, hmode⟩
  · exact ⟨Or.inl htyp, by omega⟩
  · exact ⟨Or.inr htyp, by omega⟩

theorem ofBit_read (h : Holds buf t.header (i2b 2 feature.bit)) :
    Feature.ofBit (b2i 2 buf t.header) = some feature := by
  rw [b2i_two h]
  cases feature <;> decide

theorem featureTriggerIn_active (h : cl.Active) (hbit : Holds buf t.header (i2b 2 feature.bit)) :
    featureTriggerIn buf t cfg cl = receive buf t cfg cl feature := by
  unfold featureTriggerIn
  rw [if_neg (by simp [h.1, h.2]), ofBit_read hbit]

theorem featureTriggerIn_inactive (h : ¬ cl.Active) : featureTriggerIn buf t cfg cl = some cl := by
  unfold featureTriggerIn
  apply if_pos
  unfold Client.Active at h
  by_cases hkill : cl.kill = true
  · exact Or.inl hkill
  · exact Or.inr fun hopen => h ⟨by simpa using hkill, hopen⟩

/-- Only the version is taken without the right mode. -/
theorem featureTriggerIn_not_takes (h : ¬ (cl.kill = false ∧ cl.takes = true))
    (hfeature : feature ≠ .aioVersion) (hbit : Holds buf t.header (i2b 2 feature.bit)) :
    featureTriggerIn buf t cfg cl = some cl := by
  by_cases hactive : cl.Active
  · have htakes : cl.takes = false := by
      rw [← Bool.not_eq_true]
      exact fun htakes => h ⟨hactive.1, htakes⟩
    rw [featureTriggerIn_active hactive hbit]
    unfold receive
    cases feature with
    | aioVersion => exact absurd rfl hfeature
    | localgeneratedOnly | lgOnlyCaidtab | ecmFilter | noPushAfter | maxHop | lgOnlyTab =>
      simp [htakes]
  · exact featureTriggerIn_inactive hactive

end Dispatch

section Merge

variable {tab tab' : Ftab}

theorem addPrid_length {d : Filt} {prid : BitVec 32} (h : addPrid d prid tab = some tab') :
    tab.length ≤ tab'.length := by
  unfold addPrid at h
  obtain ⟨place, -, hplace⟩ := Option.map_eq_some_iff.mp h
  cases place with
  | none =>
    rw [← hplace, List.length_append]
    omega
  | some l => rw [← hplace, List.length_modify]

theorem foldlM_length {α : Type} {f : Ftab → α → Option Ftab} {xs : List α}
    (hf : ∀ tab x tab', f tab x = some tab' → tab.length ≤ tab'.length)
    (h : xs.foldlM f tab = some tab') : tab.length ≤ tab'.length := by
  induction xs generalizing tab with
  | nil =>
    rw [List.foldlM_nil] at h
    rw [Option.some.inj h]
  | cons x xs ih =>
    rw [List.foldlM_cons] at h
    obtain ⟨next, hnext, hrest⟩ := Option.bind_eq_some_iff.mp h
    exact Nat.le_trans (hf tab x next hnext) (ih hrest)

theorem mergeCaid_length {d : Filt} (h : mergeCaid tab d = some tab') : tab.length ≤ tab'.length := by
  unfold mergeCaid at h
  split_ifs at h with hchk
  · rw [Option.some.inj h]
  · exact addPrid_length h

theorem mergeIdents_length {d : Filt} (h : mergeIdents tab d = some tab') :
    tab.length ≤ tab'.length := by
  apply foldlM_length _ h
  intro tab k tab' hk
  unfold mergeIdent at hk
  dsimp only at hk
  split_ifs at hk with hchk
  · rw [Option.some.inj hk]
  · exact addPrid_length hk

end Merge

section Tables

variable {α : Type} {buf : ℕ → Byte} {t : Transport} {feature : Feature} {len : ℕ}
  {enc : α → List Byte} {tab : List α}

/-- The parts of the payload of a table. -/
theorem tableBytes_holds (h : Holds buf t.header (tableBytes feature len enc tab))
    (hlen : tab.length ≤ 255) :
    Holds buf t.header (i2b 2 feature.bit) ∧ (buf (t.header + 4)).toNat = tab.length ∧
      Holds buf (t.header + 4 + 1) (tab.flatMap enc) := by
  unfold tableBytes at h
  rw [holds_append, holds_append, holds_append, List.length_append, List.length_append,
    length_i2b_two, length_i2b_two, holds_cons] at h
  obtain ⟨⟨⟨hbit, -⟩, hcount, -⟩, hentries⟩ := h
  refine ⟨hbit, ?_, hentries⟩
  rw [hcount, BitVec.toNat_ofNat]
  omega

end Tables

end NCam.Cacheex.FeatureTrigger
