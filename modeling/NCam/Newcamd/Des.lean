import NCam.Lib.Blocks
import Mathlib.Dynamics.PeriodicPts.Defs
import Mathlib.Tactic.IntervalCases

/-! The DES of `module-newcamd-des.c`: permutations, key schedule, rounds and the modes of
`EuroDes`. Decryption inverts encryption: the bit permutations, the rounds with the key schedule
rotated forwards and backwards, and the three passes of `EuroDes`. -/
namespace NCam.Newcamd

open NCam.Lib

abbrev Byte := BitVec 8

/-- Half of a block, or half of a key. -/
abbrev Word := Vector Byte 4

abbrev Block := Vector Byte 8

def DES_IP : Byte := 1
def DES_IP_1 : Byte := 2
def DES_RIGHT : Byte := 4
def DES_HASH : Byte := 8

def DES_ECM_CRYPT : Byte := 0
def DES_ECM_HASH : Byte := DES_HASH
def DES_ECS2_DECRYPT : Byte := DES_IP ||| DES_IP_1 ||| DES_RIGHT
def DES_ECS2_CRYPT : Byte := DES_IP ||| DES_IP_1

def F_EURO_S2 : ℕ := 0
def F_TRIPLE_DES : ℕ := 1

def PC2 : Vector (Vector ℕ 6) 8 :=
  #v[#v[14, 17, 11, 24, 1, 5], #v[3, 28, 15, 6, 21, 10], #v[23, 19, 12, 4, 26, 8],
    #v[16, 7, 27, 20, 13, 2], #v[41, 52, 31, 37, 47, 55], #v[30, 40, 51, 45, 33, 48],
    #v[44, 49, 39, 56, 34, 53], #v[46, 42, 50, 36, 29, 32]]

def E : Vector (Vector ℕ 6) 8 :=
  #v[#v[32, 1, 2, 3, 4, 5], #v[4, 5, 6, 7, 8, 9], #v[8, 9, 10, 11, 12, 13],
    #v[12, 13, 14, 15, 16, 17], #v[16, 17, 18, 19, 20, 21], #v[20, 21, 22, 23, 24, 25],
    #v[24, 25, 26, 27, 28, 29], #v[28, 29, 30, 31, 32, 1]]

def P : Vector ℕ 32 :=
  #v[16, 7, 20, 21, 29, 12, 28, 17, 1, 15, 23, 26, 5, 18, 31, 10,
    2, 8, 24, 14, 32, 27, 3, 9, 19, 13, 30, 6, 22, 11, 4, 25]

def SBOXES : Vector (Vector Byte 64) 4 :=
  #v[#v[0x2e, 0xe0, 0xc4, 0xbf, 0x4d, 0x27, 0x11, 0xc4,
      0x72, 0x4e, 0xaf, 0x72, 0xbb, 0xdd, 0x68, 0x11,
      0x83, 0x5a, 0x5a, 0x06, 0x36, 0xfc, 0xfc, 0xab,
      0xd5, 0x39, 0x09, 0x95, 0xe0, 0x83, 0x97, 0x68,
      0x44, 0xbf, 0x21, 0x8c, 0x1e, 0xc8, 0xb8, 0x72,
      0xad, 0x14, 0xd6, 0xe9, 0x72, 0x21, 0x8b, 0xd7,
      0xff, 0x65, 0x9c, 0xfb, 0xc9, 0x03, 0x57, 0x9e,
      0x63, 0xaa, 0x3a, 0x40, 0x05, 0x56, 0xe0, 0x3d],
    #v[0xcf, 0xa3, 0x11, 0xfd, 0xa8, 0x44, 0xfe, 0x27,
      0x96, 0x7f, 0x2b, 0xc2, 0x63, 0x98, 0x84, 0x5e,
      0x09, 0x6c, 0xd7, 0x10, 0x32, 0xd1, 0x4d, 0xea,
      0xec, 0x06, 0x70, 0xb9, 0x55, 0x3b, 0xba, 0x85,
      0x90, 0x4d, 0xee, 0x38, 0xf7, 0x2a, 0x5b, 0xc1,
      0x2a, 0x93, 0x84, 0x5f, 0xcd, 0xf4, 0x31, 0xa2,
      0x75, 0xbb, 0x08, 0xe6, 0x4c, 0x17, 0xa6, 0x7c,
      0x19, 0x60, 0xd3, 0x05, 0xb2, 0x8e, 0x6f, 0xd9],
    #v[0x4a, 0xdd, 0xb0, 0x07, 0x29, 0xb0, 0xee, 0x79,
      0xf6, 0x43, 0x03, 0x94, 0x8f, 0x16, 0xd5, 0xaa,
      0x31, 0xe2, 0xcd, 0x38, 0x9c, 0x55, 0x77, 0xce,
      0x5b, 0x2c, 0xa4, 0xfb, 0x62, 0x8f, 0x18, 0x61,
      0x1d, 0x61, 0x46, 0xba, 0xb4, 0xdd, 0xd9, 0x80,
      0xc8, 0x16, 0x3f, 0x49, 0x73, 0xa8, 0xe0, 0x77,
      0xab, 0x94, 0xf1, 0x5f, 0x62, 0x0e, 0x8c, 0xf3,
      0x05, 0xeb, 0x5a, 0x25, 0x9e, 0x32, 0x27, 0xcc],
    #v[0xd7, 0x1d, 0x2d, 0xf8, 0x8e, 0xdb, 0x43, 0x85,
      0x60, 0xa6, 0xf6, 0x3f, 0xb9, 0x70, 0x1a, 0x43,
      0xa1, 0xc4, 0x92, 0x57, 0x38, 0x62, 0xe5, 0xbc,
      0x5b, 0x01, 0x0c, 0xea, 0xc4, 0x9e, 0x7f, 0x29,
      0x7a, 0x23, 0xb6, 0x1f, 0x49, 0xe0, 0x10, 0x76,
      0x9c, 0x4a, 0xcb, 0xa1, 0xe7, 0x8d, 0x2d, 0xd8,
      0x0f, 0xf9, 0x61, 0xc4, 0xa3, 0x95, 0xde, 0x0b,
      0xf5, 0x3c, 0x32, 0x57, 0x58, 0x62, 0x84, 0xbe]]

def PC1 : Vector (Vector ℕ 8) 7 :=
  #v[#v[57, 49, 41, 33, 25, 17, 9, 1], #v[58, 50, 42, 34, 26, 18, 10, 2],
    #v[59, 51, 43, 35, 27, 19, 11, 3], #v[60, 52, 44, 36, 63, 55, 47, 39],
    #v[31, 23, 15, 7, 62, 54, 46, 38], #v[30, 22, 14, 6, 61, 53, 45, 37],
    #v[29, 21, 13, 5, 28, 20, 12, 4]]

/-- The byte `bit` if it is set, else zero. -/
def orBit (set : Bool) (bit : Byte) : Byte := if set then bit else 0

/-- The new key, whose last byte stays zero. -/
def doPC1 (data : Block) : Block :=
  (List.finRange 7).foldl (fun buf (j : Fin 7) => (List.finRange 8).foldl (fun buf (i : Fin 8) =>
    let lookup := PC1[j][i]
    let bit := data[Fin.ofNat 8 (lookup / 8)] >>> (8 - lookup % 8) &&& 1
    buf.set j (buf[j] ||| bit <<< (7 - i.val))) buf) (.replicate 8 0)

/-- The order in which `doIp` and `doIp_1` visit the bytes `p[k]`. -/
def ipOrder : List (Fin 8) := [3, 7, 2, 6, 1, 5, 0, 4]

/-- A byte shifted right with a new top bit. -/
def shiftIn (b : Byte) (set : Bool) : Byte := b >>> 1 ||| orBit set 0x80

/-- The inner loops of `doIp` for one byte. -/
def doIpByte (buf : Block) (val : Byte) : Block :=
  (ipOrder.foldl (fun (buf, val) (p : Fin 8) =>
    (buf.set p (shiftIn buf[p] (val.getLsbD 0)), val >>> 1)) (buf, val)).1

def doIp (data : Block) : Block :=
  (List.finRange 8).foldl (fun buf i => doIpByte buf data[i]) (.replicate 8 0)

/-- The inner loops of `doIp_1` for one byte. -/
def doIp1Byte (data : Block) (r : Byte) : Block × Byte :=
  ipOrder.foldl (fun (data, r) (p : Fin 8) =>
    (data.set p (data[p] >>> 1), shiftIn r (data[p].getLsbD 0))) (data, r)

/-- The loop of `doIp_1` over the bytes `buf[i]`. -/
def doIp1Loop (is : List (Fin 8)) (state : Block × Byte × Block) : Block × Byte × Block :=
  is.foldl (fun (data, r, buf) (i : Fin 8) =>
    let (data, r) := doIp1Byte data r
    (data, r, buf.set i r)) state

def doIp1 (data : Block) : Block := (doIp1Loop (.finRange 8) (data, 0, .replicate 8 0)).2.2

def makeK (left right : Word) : Block :=
  .ofFn fun i => (List.finRange 6).foldl (fun val (j : Fin 6) =>
    let (bit, p) := if PC2[i][j] < 29 then (28 - PC2[i][j], left) else (56 - PC2[i][j], right)
    val <<< 1 ||| orBit (p[Fin.ofNat 4 (bit / 8)].getLsbD (bit % 8)) 1) 0

def rightRot (key : Word) : Word :=
  #v[key[0] >>> 1 ||| orBit (key[1].getLsbD 0) 0x80, key[1] >>> 1 ||| orBit (key[2].getLsbD 0) 0x80,
    key[2] >>> 1 ||| orBit (key[3].getLsbD 0) 0x80, key[3] >>> 1 ||| orBit (key[0].getLsbD 0) 0x08]

def leftRot (key : Word) : Word := rightRot^[27] key

/-- A bit of a half, counted from its last byte's lowest. -/
def wordBit (data : Word) (bit : ℕ) : Bool := data[Fin.ofNat 4 (3 - bit / 8)].getLsbD (bit % 8)

def desCore (data : Word) (K : Block) : Word :=
  (List.finRange 8).foldl (fun result (i : Fin 8) =>
    let val : Byte := (List.finRange 6).foldl (fun val (j : Fin 6) =>
      val <<< 1 ||| orBit (wordBit data (32 - E[i][j])) 1) 0
    let val := val ^^^ K[i]
    let val := SBOXES[Fin.ofNat 4 i.val][Fin.ofNat 64 val.toNat]
    let val := (if i.val > 3 then val >>> 4 else val) &&& 0x0f
    let h := Fin.ofNat 4 (i.val / 2)
    result.set h (result[h] ||| if i.val % 2 = 1 then val else val <<< 4)) (.replicate 4 0)

def permut32 (data : Word) : Word :=
  (List.finRange 32).foldl (fun r (i : Fin 32) =>
    #v[r[0] <<< 1 ||| orBit (r[1].getLsbD 7) 1, r[1] <<< 1 ||| orBit (r[2].getLsbD 7) 1,
      r[2] <<< 1 ||| orBit (r[3].getLsbD 7) 1, r[3] <<< 1 ||| orBit (wordBit data (32 - P[i])) 1])
    (.replicate 4 0)

/-- `data[0..3]` and `data[4..7]`. -/
def halves (data : Block) : Word × Word :=
  (#v[data[0], data[1], data[2], data[3]], #v[data[4], data[5], data[6], data[7]])

def join (h : Word × Word) : Block :=
  #v[h.1[0], h.1[1], h.1[2], h.1[3], h.2[0], h.2[1], h.2[2], h.2[3]]

def xorBytes {n : ℕ} (a b : Vector Byte n) : Vector Byte n := a.zipWith (· ^^^ ·) b

/-- What `desRound` adds to the first half, from the second. -/
def roundKeyed (left right : Word) (mode k8 : Byte) (tempr : Word) : Word :=
  -- Viaccess
  let temp := (k8.toNat * tempr[0].toNat + k8.toNat + tempr[0].toNat) % 2 ^ 16
  let t0 := BitVec.ofInt 8 ((temp % 256 : ℕ) - (temp / 256 % 256 : ℕ))
  let t0 := if temp % 256 < temp / 256 then t0 + 1 else t0
  let r := permut32 (desCore (tempr.set 0 t0) (makeK left right))
  if mode &&& DES_HASH ≠ 0 then #v[r[1], r[0], r[2], r[3]] else r

def desRound (left right : Word) (data : Block) (mode k8 : Byte) : Block :=
  let (a, b) := halves data
  join (b, xorBytes a (roundKeyed left right mode k8 b))

/-- The rotations of a key half in one round: two, unless the top bit of `DESShift` is set. -/
def rotateKey (rot : Word → Word) (DESShift : BitVec 16) (key : Word) : Word :=
  if DESShift &&& 0x8000 = 0 then rot (rot key) else rot key

/-- The rounds of `nc_des`. `DESShift` is zero after 16 steps at most. -/
def ncDesRounds (mode k8 : Byte) : ℕ → BitVec 16 → Word → Word → Block → Block
  | 0, _, _, _, data => data
  | n + 1, DESShift, left, right, data =>
    let (left, right) :=
      if mode &&& DES_RIGHT = 0 then
        (rotateKey leftRot DESShift left, rotateKey leftRot DESShift right)
      else (left, right)
    let data := desRound left right data mode k8
    let (left, right) :=
      if mode &&& DES_RIGHT ≠ 0 then
        (rotateKey rightRot DESShift left, rotateKey rightRot DESShift right)
      else (left, right)
    if DESShift <<< 1 = 0 then data else ncDesRounds mode k8 n (DESShift <<< 1) left right data

/-- The halves of the key with its bytes in the order of the rotations. -/
def keyHalves (key : Block) : Word × Word :=
  (#v[key[2] <<< 4 ||| key[3] >>> 4, key[1] <<< 4 ||| key[2] >>> 4, key[0] <<< 4 ||| key[1] >>> 4,
    key[0] >>> 4], #v[key[6], key[5], key[4], key[3] &&& 0x0f])

def ncDes (key : Block) (mode : Byte) (data : Block) : Block :=
  let DESShift : BitVec 16 := if mode &&& DES_RIGHT ≠ 0 then 0x8103 else 0xc081
  let (left, right) := keyHalves key
  let data := if mode &&& DES_IP ≠ 0 then doIp data else data
  let data := ncDesRounds mode key[7] 16 DESShift left right data
  let data := join (halves data).swap
  if mode &&& DES_IP_1 ≠ 0 then doIp1 data else data

def getmask (outData mask : Block) (I J : ℕ) : Byte :=
  let K := I ^^^ J
  let DI := 7
  let (K, DI) := if K &&& 4 = 4 then (K ^^^ 7, DI ^^^ 7) else (K, DI)
  let MI := 3 &&& J
  let K := (K ^^^ MI) + MI
  if K &&& 4 = 4 then 0
  else
    let D := outData.get (Fin.ofNat 8 (DI ^^^ J))
    let M1 := mask.get (Fin.ofNat 8 J)
    let M := mask.get (Fin.ofNat 8 (J ^^^ 4))
    let (D, _) := (List.range 8).foldl (fun (D, B) _ =>
      let B := if D &&& 1 = 1 then B + M else B
      (D >>> 1 + (B &&& 1) <<< 7, B >>> 1)) (D, (0 : Byte))
    D ^^^ M1

def v2mask (cw mask : Block) : Block :=
  let step (cw : Block) (i j : Fin 8) : Block := cw.set i (cw[i] ^^^ getmask cw mask i j)
  let cw := [7, 6, 5, 4, 3, 2, 1, 0].foldl (fun cw i => [7, 6, 5, 4].foldl (step · i ·) cw) cw
  [0, 1, 2, 3, 4, 5, 6, 7].foldl (fun cw i => [0, 1, 2, 3].foldl (step · i ·) cw) cw

inductive OperatingMode
  | crypt
  | hash
  deriving DecidableEq

/-- `EuroDes` with a second key. -/
def euroDes (key1 key2 : Block) (desMode : ℕ) (operatingMode : OperatingMode) (data : Block) :
    Block :=
  if key1[7] ≠ 0 then
    let mode := if operatingMode = .hash then DES_ECM_HASH else DES_ECM_CRYPT
    v2mask (ncDes key1 mode (v2mask data key2)) key2
  else if desMode.testBit F_TRIPLE_DES then
    let mode := if operatingMode = .hash then 0 else DES_RIGHT
    let data := ncDes key1 (DES_IP ||| mode) data
    let mode := mode ^^^ DES_RIGHT
    let data := ncDes key2 mode data
    let mode := mode ^^^ DES_RIGHT
    ncDes key1 (mode ||| DES_IP_1) data
  else
    let mode :=
      if desMode.testBit F_EURO_S2 then
        if operatingMode = .hash then DES_ECS2_CRYPT else DES_ECS2_DECRYPT
      else if operatingMode = .hash then DES_ECM_HASH else DES_ECM_CRYPT
    ncDes key1 mode data

section Keys

/-- Byte 7 stays if every step of a loop keeps it. -/
theorem foldl_last {α : Type} (f : Block → α → Block) (h : ∀ buf a, (f buf a)[7] = buf[7])
    (l : List α) (buf : Block) : (l.foldl f buf)[7] = buf[7] := by
  induction l generalizing buf with
  | nil => rfl
  | cons a l ih => rw [List.foldl_cons, ih, h]

/-- `doPC1` fills seven bytes. -/
theorem doPC1_last (data : Block) : (doPC1 data)[7] = 0 := by
  unfold doPC1
  rw [foldl_last]
  · simp
  · intro buf j
    apply foldl_last
    intro buf i
    have hne : (j : ℕ) ≠ 7 := by omega
    exact Vector.getElem_set_ne _ _ hne

end Keys

section Permutations

theorem getLsbD_orBit (s : Bool) (bit : Byte) (i : ℕ) :
    (orBit s bit).getLsbD i = (s && bit.getLsbD i) := by
  cases s <;> simp [orBit]

theorem getElem_orBit (s : Bool) (bit : Byte) {i : ℕ} (hi : i < 8) :
    (orBit s bit)[i] = (s && bit[i]) := getLsbD_orBit s bit i

theorem getLsbD_shiftIn (b : Byte) (s : Bool) {i : ℕ} (hi : i < 8) :
    (shiftIn b s).getLsbD i = if i = 7 then s else b.getLsbD (i + 1) := by
  rw [shiftIn, BitVec.getLsbD_or, getLsbD_orBit, BitVec.getLsbD_ushiftRight, Nat.add_comm]
  interval_cases i <;> simp

/-- Eight bits shifted in are the bits of the byte. -/
theorem getLsbD_foldl_shiftIn (b : Byte) (bits : List Bool) (hlen : bits.length = 8) {i : ℕ}
    (hi : i < 8) : (bits.foldl shiftIn b).getLsbD i = bits.getD i false := by
  match bits, hlen with
  | [b0, b1, b2, b3, b4, b5, b6, b7], _ =>
    simp only [List.foldl_cons, List.foldl_nil]
    interval_cases i <;> simp (disch := omega) only [getLsbD_shiftIn] <;> rfl

/-- The bit of a byte of the input that `doIp` puts into byte `b`. -/
def ipBit (b : ℕ) : ℕ := 2 * (3 - b % 4) + b / 4

theorem getElem_doIpByte (buf : Block) (val : Byte) {b : ℕ} (hb : b < 8) :
    (doIpByte buf val)[b] = shiftIn buf[b] (val.getLsbD (ipBit b)) := by
  unfold doIpByte ipOrder
  simp only [List.foldl_cons, List.foldl_nil]
  interval_cases b <;> simp [ipBit]

theorem getElem_foldl_doIpByte (data : List Byte) (buf : Block) {b : ℕ} (hb : b < 8) :
    (data.foldl doIpByte buf)[b] =
      (data.map fun val => val.getLsbD (ipBit b)).foldl shiftIn buf[b] := by
  induction data generalizing buf with
  | nil => rfl
  | cons val data ih => rw [List.foldl_cons, ih, getElem_doIpByte, List.map_cons, List.foldl_cons]

theorem toList_eq (data : Block) : (List.finRange 8).map (data[·]) = data.toList := by
  apply List.ext_getElem
  · simp
  · intro i h1 h2
    simp

theorem doIp_eq (data : Block) : doIp data = data.toList.foldl doIpByte (.replicate 8 0) := by
  rw [← toList_eq, List.foldl_map]
  rfl

theorem getLsbD_doIp (data : Block) {b i : ℕ} (hb : b < 8) (hi : i < 8) :
    (doIp data)[b].getLsbD i = data[i].getLsbD (ipBit b) := by
  rw [doIp_eq, getElem_foldl_doIpByte, getLsbD_foldl_shiftIn _ _ (by simp) hi]
  simp [hi]

/-- The inner loops of `doIp_1` take the lowest bit of every byte. -/
theorem doIp1Byte_eq (data : Block) (r : Byte) : doIp1Byte data r =
    (data.map fun b : Byte => b >>> 1,
      (ipOrder.map fun p : Fin 8 => data[p].getLsbD 0).foldl shiftIn r) := by
  unfold doIp1Byte ipOrder
  simp only [List.foldl_cons, List.foldl_nil, List.map_cons, List.map_nil]
  refine Prod.ext ?_ (by simp)
  ext1 b hb
  interval_cases b <;> simp

theorem doIp1Loop_of_notMem {b : Fin 8} (is : List (Fin 8)) (hb : b ∉ is) (data : Block) (r : Byte)
    (buf : Block) : (doIp1Loop is (data, r, buf)).2.2[b] = buf[b] := by
  induction is generalizing data r buf with
  | nil => rfl
  | cons i is ih =>
    rw [List.mem_cons, not_or] at hb
    have hne : (i : ℕ) ≠ b := fun he => hb.1 (Fin.ext he.symm)
    refine (ih hb.2 _ _ _).trans ?_
    exact Vector.getElem_set_ne i.isLt b.isLt hne

/-- Byte `b` of the result gets bit `b` of every byte. -/
theorem getLsbD_doIp1Loop {b : Fin 8} (before behind : List (Fin 8)) (hb : b ∉ behind)
    (data : Block) (r : Byte) (buf : Block) {i : ℕ} (hi : i < 8) :
    ((doIp1Loop (before ++ b :: behind) (data, r, buf)).2.2[b]).getLsbD i =
      data[ipOrder.getD i 0].getLsbD before.length := by
  induction before generalizing data r buf with
  | nil =>
    change ((doIp1Loop behind ((doIp1Byte data r).1, (doIp1Byte data r).2,
      buf.set b (doIp1Byte data r).2)).2.2[b]).getLsbD i = _
    rw [doIp1Loop_of_notMem behind hb, doIp1Byte_eq]
    simp only [Fin.getElem_fin, Vector.getElem_set_self]
    rw [getLsbD_foldl_shiftIn _ _ rfl hi]
    interval_cases i <;> rfl
  | cons k before ih =>
    refine (ih (doIp1Byte data r).1 (doIp1Byte data r).2 (buf.set k (doIp1Byte data r).2)).trans ?_
    rw [doIp1Byte_eq]
    simp [Nat.add_comm]

theorem getLsbD_doIp1 (data : Block) {b i : ℕ} (hb : b < 8) (hi : i < 8) :
    (doIp1 data)[b].getLsbD i = data[ipOrder.getD i 0].getLsbD b := by
  have hsplit : ∀ b : Fin 8, (List.finRange 8).take b ++ b :: (List.finRange 8).drop (b + 1) =
      List.finRange 8 ∧ b ∉ (List.finRange 8).drop (b + 1) := by decide
  obtain ⟨heq, hnot⟩ := hsplit ⟨b, hb⟩
  have hloop := getLsbD_doIp1Loop ((List.finRange 8).take b) _ hnot data 0 (.replicate 8 0) hi
  rw [heq, List.length_take, List.length_finRange, min_eq_left hb.le] at hloop
  exact hloop

theorem block_ext {a b : Block} (h : ∀ k (hk : k < 8), ∀ i < 8, a[k].getLsbD i = b[k].getLsbD i) :
    a = b := by
  ext1 k hk
  apply BitVec.eq_of_getLsbD_eq
  intro i hi
  exact h k hk i hi

theorem doIp1_doIp (data : Block) : doIp1 (doIp data) = data := by
  apply block_ext
  intro b hb i hi
  rw [getLsbD_doIp1 _ hb hi]
  interval_cases i <;> exact getLsbD_doIp data (by decide) hb

theorem doIp_doIp1 (data : Block) : doIp (doIp1 data) = data := by
  apply block_ext
  intro b hb i hi
  rw [getLsbD_doIp _ hb hi]
  interval_cases b <;> exact getLsbD_doIp1 data hi (by decide)

end Permutations

section KeySchedule

/-- The key half has 28 bits. -/
def Short (key : Word) : Prop := ∀ i, 4 ≤ i → key[3].getLsbD i = false

def keyBit (key : Word) (i : ℕ) : Bool := key[Fin.ofNat 4 (i / 8)].getLsbD (i % 8)

theorem Short.rightRot {key : Word} (h : Short key) : Short (rightRot key) := by
  intro i hi
  have hkey := h (i + 1) (by omega)
  by_cases h8 : i < 8
  · unfold NCam.Newcamd.rightRot
    simp only [Vector.getElem_mk, List.getElem_toArray, List.getElem_cons_succ,
      List.getElem_cons_zero, BitVec.getLsbD_or, getLsbD_orBit, BitVec.getLsbD_ushiftRight,
      Nat.add_comm 1 i, hkey, Bool.false_or]
    interval_cases i <;> simp
  · exact BitVec.getLsbD_of_ge _ _ (by omega)

theorem keyBit_rightRot {key : Word} (h : Short key) {i : ℕ} (hi : i < 28) :
    keyBit (rightRot key) i = keyBit key ((i + 1) % 28) := by
  have hkey : key[3][4] = false := h 4 (le_refl 4)
  unfold keyBit NCam.Newcamd.rightRot
  interval_cases i <;> simp [getElem_orBit, hkey]

theorem keyBit_iterate {key : Word} (h : Short key) (n : ℕ) :
    Short (rightRot^[n] key) ∧
      ∀ i < 28, keyBit (rightRot^[n] key) i = keyBit key ((i + n) % 28) := by
  induction n with
  | zero =>
    refine ⟨h, fun i hi => ?_⟩
    rw [Nat.add_zero, Nat.mod_eq_of_lt hi]
    rfl
  | succ n ih =>
    obtain ⟨hshort, hbit⟩ := ih
    rw [Function.iterate_succ_apply']
    refine ⟨hshort.rightRot, fun i hi => ?_⟩
    rw [keyBit_rightRot hshort hi, hbit _ (Nat.mod_lt _ (by decide)), Nat.mod_add_mod,
      Nat.add_right_comm, Nat.add_assoc]

theorem Short.ext {a b : Word} (ha : Short a) (hb : Short b)
    (h : ∀ i < 28, keyBit a i = keyBit b i) : a = b := by
  ext1 k hk
  apply BitVec.eq_of_getLsbD_eq
  intro i hi
  by_cases hlt : 8 * k + i < 28
  · have hbit := h (8 * k + i) hlt
    have hdiv : (8 * k + i) / 8 = k := by omega
    have hmod : (8 * k + i) % 8 = i := by omega
    unfold keyBit at hbit
    simp only [hdiv, hmod, Fin.ofNat, Fin.getElem_fin, Nat.mod_eq_of_lt hk] at hbit
    exact hbit
  · have hk3 : k = 3 := by omega
    subst hk3
    rw [ha i (by omega), hb i (by omega)]

/-- 28 rotations of a half key are none. -/
theorem rightRot_periodic {key : Word} (h : Short key) : Function.IsPeriodicPt rightRot 28 key := by
  obtain ⟨hshort, hbit⟩ := keyBit_iterate h 28
  apply hshort.ext h
  intro i hi
  rw [hbit i hi, Nat.add_mod_right, Nat.mod_eq_of_lt hi]

theorem short_keyHalves (key : Block) : Short (keyHalves key).1 ∧ Short (keyHalves key).2 := by
  constructor
  · intro i hi
    simp only [keyHalves, Vector.getElem_mk, List.getElem_toArray, List.getElem_cons_succ,
      List.getElem_cons_zero, BitVec.getLsbD_ushiftRight]
    exact BitVec.getLsbD_of_ge _ _ (by omega)
  · intro i hi
    simp only [keyHalves, Vector.getElem_mk, List.getElem_toArray, List.getElem_cons_succ,
      List.getElem_cons_zero, BitVec.getLsbD_and]
    have hmask : (0x0f : Byte).getLsbD i = false := by
      by_cases h8 : i < 8
      · interval_cases i <;> rfl
      · exact BitVec.getLsbD_of_ge _ _ (by omega)
    rw [hmask, Bool.and_false]

end KeySchedule

section Rounds

@[simp] theorem halves_join (h : Word × Word) : halves (join h) = h := by
  apply Prod.ext <;> ext1 k hk <;> interval_cases k <;> simp [halves, join]

@[simp] theorem join_halves (data : Block) : join (halves data) = data := by
  ext1 k hk
  interval_cases k <;> simp [halves, join]

theorem xorBytes_xorBytes {n : ℕ} (a b : Vector Byte n) : xorBytes (xorBytes a b) b = a := by
  ext1 k hk
  simp [xorBytes, BitVec.xor_assoc]

theorem halves_desRound (left right : Word) (data : Block) (mode k8 : Byte) :
    halves (desRound left right data mode k8) =
      Feistel.round xorBytes (roundKeyed left right mode k8) (halves data) := halves_join _

/-- The number of rotations in one round. -/
def steps (DESShift : BitVec 16) : ℕ := if DESShift &&& 0x8000 = 0 then 2 else 1

theorem rotateKey_leftRot (DESShift : BitVec 16) (key : Word) (k : ℕ) :
    rotateKey leftRot DESShift (rightRot^[k] key) = rightRot^[k + 27 * steps DESShift] key := by
  have hleft : ∀ key m, leftRot (rightRot^[m] key) = rightRot^[m + 27] key := by
    intro key m
    rw [leftRot, ← Function.iterate_add_apply, Nat.add_comm]
  unfold rotateKey steps
  split_ifs
  · rw [hleft, hleft]
  · rw [hleft]

theorem rotateKey_rightRot (DESShift : BitVec 16) (key : Word) (k : ℕ) :
    rotateKey rightRot DESShift (rightRot^[k] key) = rightRot^[k + steps DESShift] key := by
  have hright : ∀ key m, rightRot (rightRot^[m] key) = rightRot^[m + 1] key :=
    fun key m => (Function.iterate_succ_apply' _ _ _).symm
  unfold rotateKey steps
  split_ifs
  · rw [hright, hright]
  · rw [hright]

/-- How often the key halves have been rotated to the right in each round. -/
def rotations (reverse : Bool) : ℕ → BitVec 16 → ℕ → List ℕ
  | 0, _, _ => []
  | n + 1, DESShift, k =>
    let used := if reverse then k else k + 27 * steps DESShift
    let next := if reverse then k + steps DESShift else used
    used :: if DESShift <<< 1 = 0 then [] else rotations reverse n (DESShift <<< 1) next

theorem ncDesRounds_eq (mode k8 : Byte) (n : ℕ) (DESShift : BitVec 16) (left right : Word) (k : ℕ)
    (data : Block) : ncDesRounds mode k8 n DESShift (rightRot^[k] left) (rightRot^[k] right) data =
      (rotations (mode &&& DES_RIGHT ≠ 0) n DESShift k).foldl (fun data k =>
        desRound (rightRot^[k] left) (rightRot^[k] right) data mode k8) data := by
  induction n generalizing DESShift k data with
  | zero => rfl
  | succ n ih =>
    unfold ncDesRounds rotations
    by_cases hmode : mode &&& DES_RIGHT = 0
    · simp only [hmode, ne_eq, not_true, if_true, if_false, decide_false, Bool.false_eq_true,
        rotateKey_leftRot, List.foldl_cons] at ih ⊢
      by_cases hend : DESShift <<< 1 = 0
      · rw [if_pos hend, if_pos hend]
        rfl
      · rw [if_neg hend, if_neg hend, ih]
    · simp only [hmode, ne_eq, not_false_eq_true, if_true, if_false, decide_true,
        rotateKey_rightRot, List.foldl_cons] at ih ⊢
      by_cases hend : DESShift <<< 1 = 0
      · rw [if_pos hend, if_pos hend]
        rfl
      · rw [if_neg hend, if_neg hend, ih]

/-- The functions of the rounds that use the key rotated as given. -/
def roundFns (key : Block) (ks : List ℕ) : List (Word → Word) :=
  ks.map fun k =>
    roundKeyed (rightRot^[k] (keyHalves key).1) (rightRot^[k] (keyHalves key).2) 0 key[7]

theorem roundFns_mod (key : Block) (ks : List ℕ) :
    roundFns key (ks.map (· % 28)) = roundFns key ks := by
  obtain ⟨hleft, hright⟩ := short_keyHalves key
  unfold roundFns
  rw [List.map_map]
  apply List.map_congr_left
  intro k _
  simp only [Function.comp_apply, (rightRot_periodic hleft).iterate_mod_apply,
    (rightRot_periodic hright).iterate_mod_apply]

/-- The rotations of the rounds with and without `DES_RIGHT`. -/
def schedule (reverse : Bool) : List ℕ := rotations reverse 16 (if reverse then 0x8103 else 0xc081) 0

theorem schedule_reverse (reverse : Bool) :
    (schedule (!reverse)).map (· % 28) = ((schedule reverse).map (· % 28)).reverse := by
  cases reverse <;> decide

/-- `nc_des` without the initial and the final permutation. -/
def pass (key : Block) (reverse : Bool) (data : Block) : Block :=
  join (Feistel.rounds xorBytes (roundFns key (schedule reverse)) (halves data)).swap

/-- The rounds forwards and backwards undo each other. -/
theorem pass_pass (key : Block) (reverse : Bool) (data : Block) :
    pass key (!reverse) (pass key reverse data) = data := by
  have hfns : roundFns key (schedule (!reverse)) = (roundFns key (schedule reverse)).reverse := by
    rw [← roundFns_mod, schedule_reverse]
    unfold roundFns
    rw [List.map_reverse]
    exact congrArg List.reverse (roundFns_mod key (schedule reverse))
  unfold pass
  rw [halves_join, hfns, Feistel.rounds_reverse xorBytes_xorBytes, Prod.swap_swap, join_halves]

theorem halves_ncDesRounds {mode : Byte} (hmode : mode &&& DES_HASH = 0) (key data : Block)
    (ks : List ℕ) :
    halves (ks.foldl (fun data k => desRound (rightRot^[k] (keyHalves key).1)
      (rightRot^[k] (keyHalves key).2) data mode key[7]) data) =
        Feistel.rounds xorBytes (roundFns key ks) (halves data) := by
  have hkeyed : ∀ left right, roundKeyed left right mode key[7] = roundKeyed left right 0 key[7] := by
    intro left right
    funext tempr
    have hzero : (0 : Byte) &&& DES_HASH = 0 := rfl
    simp only [roundKeyed, hmode, hzero]
  induction ks generalizing data with
  | nil => rfl
  | cons k ks ih =>
    rw [List.foldl_cons, ih, halves_desRound, hkeyed]
    rfl

theorem ncDes_eq {mode : Byte} (hmode : mode &&& DES_HASH = 0) (key data : Block) :
    ncDes key mode data =
      (if mode &&& DES_IP_1 ≠ 0 then doIp1 else id) (pass key (mode &&& DES_RIGHT ≠ 0)
        ((if mode &&& DES_IP ≠ 0 then doIp else id) data)) := by
  have hrounds : ∀ data, join (halves (ncDesRounds mode key[7] 16
      (if mode &&& DES_RIGHT ≠ 0 then 0x8103 else 0xc081) (keyHalves key).1 (keyHalves key).2
      data)).swap = pass key (mode &&& DES_RIGHT ≠ 0) data := by
    intro data
    have hloop := ncDesRounds_eq mode key[7] 16 (if mode &&& DES_RIGHT ≠ 0 then 0x8103 else 0xc081)
      (keyHalves key).1 (keyHalves key).2 0 data
    rw [Function.iterate_zero, id_eq, id_eq] at hloop
    rw [hloop, halves_ncDesRounds hmode, pass, schedule]
    simp only [decide_eq_true_eq]
  unfold ncDes
  dsimp only
  rw [hrounds]
  split_ifs <;> rfl

/-- With the first key's last byte zero, `EuroDes` in three passes inverts itself. -/
theorem euroDes_crypt_hash {key1 key2 : Block} (hkey : key1[7] = 0) {desMode : ℕ}
    (hmode : desMode.testBit F_TRIPLE_DES) (data : Block) :
    euroDes key1 key2 desMode .crypt (euroDes key1 key2 desMode .hash data) = data := by
  have hkey' : ¬ key1[7] ≠ 0 := fun h => h hkey
  have hhash : euroDes key1 key2 desMode .hash data =
      doIp1 (pass key1 false (pass key2 true (pass key1 false (doIp data)))) := by
    rw [euroDes, if_neg hkey', if_pos hmode]
    dsimp only
    rw [ncDes_eq (by decide), ncDes_eq (by decide), ncDes_eq (by decide)]
    rfl
  have hcrypt : ∀ data, euroDes key1 key2 desMode .crypt data =
      doIp1 (pass key1 true (pass key2 false (pass key1 true (doIp data)))) := by
    intro data
    rw [euroDes, if_neg hkey', if_pos hmode]
    dsimp only
    rw [ncDes_eq (by decide), ncDes_eq (by decide), ncDes_eq (by decide)]
    rfl
  have hback : ∀ key data, pass key true (pass key false data) = data := fun key => pass_pass key false
  have hforth : ∀ key data, pass key false (pass key true data) = data := fun key => pass_pass key true
  rw [hhash, hcrypt, doIp_doIp1, hback, hforth, hback, doIp1_doIp]

end Rounds

end NCam.Newcamd
