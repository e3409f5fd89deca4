import NCam.Newcamd.CardData

/-! The serial of a card in the formats of ncam and of CCcam, and which serials survive the way from one to the
other and back. -/
namespace NCam.Cccam

open NCam.Util
open NCam.Camd35 (caidIsBulcrypt caidIsStreamguard caidIsTongfang caidIsDvn caidIsIrdeto)
open NCam.Newcamd (caidIsViaccess caidIsCryptoworks hexserialToNewcamd newcamdToHexserial uaLen)

/-- `get_UA_ofs`. -/
def getUaOfs (caid : BitVec 16) : ℕ :=
  if caid >>> 8 = 0x05 ∨ caid >>> 8 = 0x0D ∨ caid >>> 8 = 0x4A ∨ caid >>> 8 = 0x4B ∨ caid >>> 8 = 0x09 ∨
      caid >>> 8 = 0x0B ∨ caid >>> 8 = 0x18 ∨ caid >>> 8 = 0x01 ∨ caid >>> 8 = 0x00 ∨ caid >>> 8 = 0x17 ∨
      caid >>> 8 = 0x06 then 2
  else 0

/-- `UA_left`. -/
def uaLeft (input : List Byte) (ofs : ℕ) : List Byte :=
  (input.drop ofs).take (8 - ofs) ++ List.replicate ofs 0

/-- `memcpy(out + ofs, src, …)`. -/
def copyInto (out : List Byte) (ofs : ℕ) (src : List Byte) : List Byte :=
  out.take ofs ++ src ++ out.drop (ofs + src.length)

/-- The loop of `UA_right`. -/
def uaRight (input : List Byte) : ℕ → ℕ → List Byte → List Byte
  | 0, _, out => out
  | len + 1, ofs, out =>
    let out := copyInto out ofs (input.take (len + 1))
    if out.getD len 0 ≠ 0 then out else uaRight input len (ofs + 1) (out.set 0 0)

/-- The systems whose serial has its four bytes at the end. -/
def fourByteSerial (caid : BitVec 16) : Prop :=
  caidIsBulcrypt caid ∨ caidIsStreamguard caid ∨ caidIsTongfang caid ∨ caidIsDvn caid

instance (caid : BitVec 16) : Decidable (fourByteSerial caid) := inferInstanceAs (Decidable (_ ∨ _))

/-- Eight bytes of a buffer. -/
def uaOf (buf : List Byte) : Vector Byte 8 := Vector.ofFn fun i => buf.getD i 0

/-- `cc_UA_ncam2cccam`. -/
def ccUaNcam2cccam (input : Vector Byte 8) (caid : BitVec 16) : Vector Byte 8 :=
  if fourByteSerial caid then #v[0, 0, 0, 0, input[0]!, input[1]!, input[2]!, input[3]!]
  else uaOf (uaRight ([0, 0] ++ hexserialToNewcamd input caid) 8 0 (List.replicate 8 0))

/-- `cc_UA_cccam2ncam`. -/
def ccUaCccam2ncam (input : Vector Byte 8) (caid : BitVec 16) : Vector Byte 8 :=
  if fourByteSerial caid then #v[input[4]!, input[5]!, input[6]!, input[7]!, 0, 0, 0, 0]
  else
    newcamdToHexserial (fun k => (uaLeft input.toList (getUaOfs caid)).getD k 0) 0 (Vector.replicate 8 0) caid

section Claims

/-- The bytes that `hexserial_to_newcamd` drops are zero. -/
def DroppedZero (caid : BitVec 16) (ua : Vector Byte 8) : Prop :=
  ∀ k : Fin 8, uaLen caid ≤ k → ua.get k = 0

/-- Both ways back lead to the serial. -/
def UaRestored (caid : BitVec 16) (ua : Vector Byte 8) : Prop :=
  ccUaCccam2ncam (ccUaNcam2cccam ua caid) caid = ua ∧
    newcamdToHexserial (fun k => (hexserialToNewcamd ua caid).getD k 0) 0 (Vector.replicate 8 0) caid = ua

/-- The last byte of the newcamd format is not zero. -/
def LastByte (caid : BitVec 16) (ua : Vector Byte 8) : Prop :=
  (hexserialToNewcamd ua caid).getD 5 0 ≠ 0

private theorem uaRight_eq (a b c d e f : Byte) :
    uaRight [0, 0, a, b, c, d, e, f] 8 0 (List.replicate 8 0) =
      if f ≠ 0 then [0, 0, a, b, c, d, e, f]
      else if d ≠ 0 then [0, 0, 0, a, b, c, d, e]
      else if b ≠ 0 then [0, 0, 0, 0, a, b, c, d]
      else List.replicate 8 0 := by
  simp [uaRight, copyInto]

private theorem ua_bytes (ua : Vector Byte 8) :
    ∃ a b c d e f g h : Byte, ua = #v[a, b, c, d, e, f, g, h] := by
  refine ⟨ua[0], ua[1], ua[2], ua[3], ua[4], ua[5], ua[6], ua[7], ?_⟩
  apply Vector.ext
  intro i hi
  interval_cases i <;> rfl

/-- The newcamd bytes of a serial as they come back, moved by two or not at all. -/
private theorem uaLeft_two (a b c d e f : Byte) :
    uaLeft (uaOf (uaRight [0, 0, a, b, c, d, e, f] 8 0 (List.replicate 8 0))).toList 2 =
      if f ≠ 0 then [a, b, c, d, e, f, 0, 0]
      else if d ≠ 0 then [0, a, b, c, d, e, 0, 0]
      else if b ≠ 0 then [0, 0, a, b, c, d, 0, 0]
      else List.replicate 8 0 := by
  rw [uaRight_eq]
  split_ifs <;> rfl

private theorem uaLeft_zero (a b c d e f : Byte) :
    uaLeft (uaOf (uaRight [0, 0, a, b, c, d, e, f] 8 0 (List.replicate 8 0))).toList 0 =
      if f ≠ 0 then [0, 0, a, b, c, d, e, f]
      else if d ≠ 0 then [0, 0, 0, a, b, c, d, e]
      else if b ≠ 0 then [0, 0, 0, 0, a, b, c, d]
      else List.replicate 8 0 := by
  rw [uaRight_eq]
  split_ifs <;> rfl

theorem getUaOfs_cases (caid : BitVec 16) : getUaOfs caid = 2 ∨ getUaOfs caid = 0 := by
  unfold getUaOfs
  split_ifs
  · exact .inl rfl
  · exact .inr rfl

section Bytes

variable {caid : BitVec 16} {a b c d e f g h : Byte}

private theorem dropped_bytes (hdrop : DroppedZero caid #v[a, b, c, d, e, f, g, h]) :
    g = 0 ∧ h = 0 ∧ (uaLen caid ≤ 5 → f = 0) ∧ (uaLen caid ≤ 4 → e = 0) := by
  have hlen : uaLen caid ≤ 6 := by
    unfold uaLen
    split_ifs <;> decide
  exact ⟨hdrop 6 hlen, hdrop 7 (by simp; omega), hdrop 5, hdrop 4⟩

private theorem ua_eq_iff {a' b' c' d' e' f' g' h' : Byte} :
    (#v[a, b, c, d, e, f, g, h] : Vector Byte 8) = #v[a', b', c', d', e', f', g', h'] ↔
      a = a' ∧ b = b' ∧ c = c' ∧ d = d' ∧ e = e' ∧ f = f' ∧ g = g' ∧ h = h' := by
  simp

private theorem zero_ua : Vector.replicate 8 (0 : Byte) = #v[0, 0, 0, 0, 0, 0, 0, 0] := rfl

private theorem restored_four (hfour : fourByteSerial caid) :
    UaRestored caid #v[a, b, c, d, 0, 0, 0, 0] := by
  unfold UaRestored ccUaCccam2ncam ccUaNcam2cccam newcamdToHexserial hexserialToNewcamd
  unfold fourByteSerial at hfour
  simp only [hfour, fourByteSerial, if_true]
  exact ⟨rfl, rfl⟩

/-- The serial in the newcamd bytes `t`. -/
private def back (t : List Byte) (caid : BitVec 16) : Vector Byte 8 :=
  newcamdToHexserial (fun k => t.getD k 0) 0 (Vector.replicate 8 0) caid

private theorem restored_eq (hfour : ¬ fourByteSerial caid) (ua : Vector Byte 8) :
    UaRestored caid ua ↔
      back (uaLeft (uaOf (uaRight ([0, 0] ++ hexserialToNewcamd ua caid) 8 0 (List.replicate 8 0))).toList
        (getUaOfs caid)) caid = ua ∧ back (hexserialToNewcamd ua caid) caid = ua := by
  unfold UaRestored ccUaCccam2ncam ccUaNcam2cccam
  rw [if_neg hfour, if_neg hfour]
  exact Iff.rfl

private theorem sent_irdeto (hfour : ¬ fourByteSerial caid)
    (hirdeto : caidIsIrdeto caid ∨ Camd35.caidIsBetacrypt caid) :
    hexserialToNewcamd #v[a, b, c, d, e, f, g, h] caid = [0, 0, d, a, b, c] := by
  unfold fourByteSerial at hfour
  unfold hexserialToNewcamd
  rw [if_neg hfour, if_pos hirdeto]
  rfl

private theorem back_irdeto (hfour : ¬ fourByteSerial caid)
    (hirdeto : caidIsIrdeto caid ∨ Camd35.caidIsBetacrypt caid) (t : List Byte) :
    back t caid = #v[t.getD 3 0, t.getD 4 0, t.getD 5 0, t.getD 2 0, 0, 0, 0, 0] := by
  unfold fourByteSerial at hfour
  unfold back newcamdToHexserial
  rw [if_neg hfour, if_pos hirdeto]
  rfl

private theorem sent_viaccess (hfour : ¬ fourByteSerial caid)
    (hirdeto : ¬ (caidIsIrdeto caid ∨ Camd35.caidIsBetacrypt caid))
    (hviaccess : caidIsViaccess caid ∨ caidIsCryptoworks caid) :
    hexserialToNewcamd #v[a, b, c, d, e, f, g, h] caid = [0, a, b, c, d, e] := by
  unfold fourByteSerial at hfour
  unfold hexserialToNewcamd
  rw [if_neg hfour, if_neg hirdeto, if_pos hviaccess]
  rfl

private theorem back_viaccess (hfour : ¬ fourByteSerial caid)
    (hirdeto : ¬ (caidIsIrdeto caid ∨ Camd35.caidIsBetacrypt caid))
    (hviaccess : caidIsViaccess caid ∨ caidIsCryptoworks caid) (t : List Byte) :
    back t caid = #v[t.getD 1 0, t.getD 2 0, t.getD 3 0, t.getD 4 0, t.getD 5 0, 0, 0, 0] := by
  unfold fourByteSerial at hfour
  unfold back newcamdToHexserial
  rw [if_neg hfour, if_neg hirdeto, if_pos hviaccess]
  rfl

private theorem sent_other (hfour : ¬ fourByteSerial caid)
    (hirdeto : ¬ (caidIsIrdeto caid ∨ Camd35.caidIsBetacrypt caid))
    (hviaccess : ¬ (caidIsViaccess caid ∨ caidIsCryptoworks caid)) :
    hexserialToNewcamd #v[a, b, c, d, e, f, g, h] caid = [a, b, c, d, e, f] := by
  unfold fourByteSerial at hfour
  unfold hexserialToNewcamd
  rw [if_neg hfour, if_neg hirdeto, if_neg hviaccess]
  rfl

private theorem back_other (hfour : ¬ fourByteSerial caid)
    (hirdeto : ¬ (caidIsIrdeto caid ∨ Camd35.caidIsBetacrypt caid))
    (hviaccess : ¬ (caidIsViaccess caid ∨ caidIsCryptoworks caid)) (t : List Byte) :
    back t caid = #v[t.getD 0 0, t.getD 1 0, t.getD 2 0, t.getD 3 0, t.getD 4 0, t.getD 5 0, 0, 0] := by
  unfold fourByteSerial at hfour
  unfold back newcamdToHexserial
  rw [if_neg hfour, if_neg hirdeto, if_neg hviaccess]
  rfl

private theorem ofs_irdeto (hirdeto : caidIsIrdeto caid ∨ Camd35.caidIsBetacrypt caid) : getUaOfs caid = 2 := by
  unfold getUaOfs
  apply if_pos
  obtain hsystem | hsystem := hirdeto
  · simp [of_decide_eq_true hsystem]
  · simp [of_decide_eq_true hsystem]

private theorem ofs_viaccess (hviaccess : caidIsViaccess caid ∨ caidIsCryptoworks caid) :
    getUaOfs caid = 2 := by
  unfold getUaOfs
  apply if_pos
  obtain hsystem | hsystem := hviaccess
  · exact .inl (of_decide_eq_true hsystem)
  · exact .inr (.inl (of_decide_eq_true hsystem))

/-- Irdeto and Betacrypt: four bytes of the serial are sent, the last one in front. -/
private theorem restored_irdeto (hfour : ¬ fourByteSerial caid)
    (hirdeto : caidIsIrdeto caid ∨ Camd35.caidIsBetacrypt caid) :
    UaRestored caid #v[a, b, c, d, 0, 0, 0, 0] ↔
      #v[a, b, c, d, 0, 0, 0, 0] = Vector.replicate 8 0 ∨ c ≠ 0 := by
  rw [restored_eq hfour, sent_irdeto hfour hirdeto, ofs_irdeto hirdeto, List.cons_append, List.cons_append,
    List.nil_append, uaLeft_two]
  split_ifs with hc ha hd <;> simp only [back_irdeto hfour hirdeto, ua_eq_iff, zero_ua, List.replicate,
    List.getD_cons_zero, List.getD_cons_succ] <;> grind

/-- Viaccess and Cryptoworks: five bytes of the serial are sent. -/
private theorem restored_viaccess (hfour : ¬ fourByteSerial caid)
    (hirdeto : ¬ (caidIsIrdeto caid ∨ Camd35.caidIsBetacrypt caid))
    (hviaccess : caidIsViaccess caid ∨ caidIsCryptoworks caid) :
    UaRestored caid #v[a, b, c, d, e, 0, 0, 0] ↔
      #v[a, b, c, d, e, 0, 0, 0] = Vector.replicate 8 0 ∨ e ≠ 0 := by
  rw [restored_eq hfour, sent_viaccess hfour hirdeto hviaccess, ofs_viaccess hviaccess, List.cons_append,
    List.cons_append, List.nil_append, uaLeft_two]
  split_ifs with he hc ha <;> simp only [back_viaccess hfour hirdeto hviaccess, ua_eq_iff, zero_ua,
    List.replicate, List.getD_cons_zero, List.getD_cons_succ] <;> grind

/-- The other systems: six bytes of the serial are sent. -/
private theorem restored_other (hfour : ¬ fourByteSerial caid)
    (hirdeto : ¬ (caidIsIrdeto caid ∨ Camd35.caidIsBetacrypt caid))
    (hviaccess : ¬ (caidIsViaccess caid ∨ caidIsCryptoworks caid)) :
    UaRestored caid #v[a, b, c, d, e, f, 0, 0] ↔
      #v[a, b, c, d, e, f, 0, 0] = Vector.replicate 8 0 ∨ (getUaOfs caid = 2 ∧ f ≠ 0) := by
  rw [restored_eq hfour, sent_other hfour hirdeto hviaccess, List.cons_append, List.cons_append,
    List.nil_append]
  obtain hofs | hofs := getUaOfs_cases caid
  · rw [hofs, uaLeft_two]
    split_ifs with hf hd hb <;> simp only [back_other hfour hirdeto hviaccess, ua_eq_iff, zero_ua,
      List.replicate, List.getD_cons_zero, List.getD_cons_succ] <;> grind
  · rw [hofs, uaLeft_zero]
    split_ifs with hf hd hb <;> simp only [back_other hfour hirdeto hviaccess, ua_eq_iff, zero_ua,
      List.replicate, List.getD_cons_zero, List.getD_cons_succ] <;> grind

end Bytes

/-- A serial whose dropped bytes are zero survives the way to the CCcam format and back if and only if its
system has it in four bytes at the end, or it is zero, or its system has an offset and the last byte in the
newcamd format is not zero. -/
theorem uaRestored_iff (caid : BitVec 16) (ua : Vector Byte 8) (hdropped : DroppedZero caid ua) :
    UaRestored caid ua ↔ fourByteSerial caid ∨ ua = Vector.replicate 8 0 ∨
      (getUaOfs caid = 2 ∧ LastByte caid ua) := by
  obtain ⟨a, b, c, d, e, f, g, h, rfl⟩ := ua_bytes ua
  obtain ⟨rfl, rfl, hf, he⟩ := dropped_bytes hdropped
  unfold uaLen at hf he
  by_cases hfour : fourByteSerial caid
  · have hlen := hfour
    unfold fourByteSerial at hlen
    rw [if_pos hlen] at hf he
    obtain rfl := hf (by decide)
    obtain rfl := he (by decide)
    exact iff_of_true (restored_four hfour) (.inl hfour)
  have hlen := hfour
  unfold fourByteSerial at hlen
  rw [if_neg hlen] at hf he
  rw [or_iff_right hfour, LastByte]
  by_cases hirdeto : caidIsIrdeto caid ∨ Camd35.caidIsBetacrypt caid
  · rw [if_pos hirdeto] at hf he
    obtain rfl := hf (by decide)
    obtain rfl := he (by decide)
    rw [restored_irdeto hfour hirdeto, sent_irdeto hfour hirdeto, and_iff_right (ofs_irdeto hirdeto)]
    exact Iff.rfl
  rw [if_neg hirdeto] at hf he
  by_cases hviaccess : caidIsViaccess caid ∨ caidIsCryptoworks caid
  · rw [if_pos hviaccess] at hf
    obtain rfl := hf (by decide)
    rw [restored_viaccess hfour hirdeto hviaccess, sent_viaccess hfour hirdeto hviaccess,
      and_iff_right (ofs_viaccess hviaccess)]
    exact Iff.rfl
  rw [restored_other hfour hirdeto hviaccess, sent_other hfour hirdeto hviaccess]
  exact Iff.rfl

theorem viaccess_restored : UaRestored 0x0500 #v[0x12, 0x34, 0x56, 0x78, 0x9A, 0, 0, 0] :=
  (uaRestored_iff 0x0500 #v[0x12, 0x34, 0x56, 0x78, 0x9A, 0, 0, 0] (by unfold DroppedZero; decide)).mpr
    (.inr (.inr ⟨rfl, by unfold LastByte; decide⟩))

/-- A nagra serial that ends with a zero byte comes back moved. -/
theorem nagra_moved : DroppedZero 0x1800 #v[0, 0, 0x12, 0x34, 0x56, 0, 0, 0] ∧
    ¬ UaRestored 0x1800 #v[0, 0, 0x12, 0x34, 0x56, 0, 0, 0] := by
  constructor
  · unfold DroppedZero
    decide
  · intro h
    have hback : (ccUaCccam2ncam (ccUaNcam2cccam #v[0, 0, 0x12, 0x34, 0x56, 0, 0, 0] 0x1800) 0x1800) =
        #v[0, 0, 0, 0x12, 0x34, 0x56, 0, 0] := by decide
    exact absurd (hback.symm.trans h.1) (by decide)

end Claims

end NCam.Cccam
