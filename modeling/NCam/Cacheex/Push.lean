import NCam.Ecm.Request
import NCam.Util.Bytes

/-! Cache push messages: the hop limits of both ends, what `push_out` of the CCcam and of the camd35 transport writes,
what `push_in` reads, and the round trip. Allocations succeed. -/
namespace NCam.Cacheex

/-- The `maxhop` and `maxhop_lg` settings of a reader or an account; zero means unset. -/
structure HopSetting where
  maxhop : BitVec 8
  maxhopLg : BitVec 8
deriving DecidableEq

/-- The peer of a cache exchange link, with the settings of its reader and its account. -/
structure HopClient where
  reader : Option HopSetting
  account : Option HopSetting
deriving DecidableEq

namespace HopClient

variable (cl : HopClient)

def cacheexMaxhop : ℤ :=
  match cl.reader.filter (·.maxhop ≠ 0), cl.account.filter (·.maxhop ≠ 0) with
  | some reader, _ => reader.maxhop.toInt
  | none, some account => account.maxhop.toInt
  | none, none => 10

/-- The local generated limit from a set `maxhop_lg`, which is written back. -/
def limitLg (maxhop : ℤ) (s : HopSetting) : ℤ × HopSetting :=
  let max : ℤ := 10
  let s := if s.maxhopLg.toInt > max then { s with maxhopLg := .ofInt 8 max } else s
  let maxhopLg := if s.maxhopLg.toInt < maxhop then maxhop else s.maxhopLg.toInt
  (maxhopLg, { s with maxhopLg := .ofInt 8 maxhopLg })

/-- `cacheex_maxhop_lg`, with the client after it. -/
def cacheexMaxhopLg : ℤ × HopClient :=
  match cl.reader.filter (·.maxhopLg ≠ 0), cl.account.filter (·.maxhopLg ≠ 0) with
  | some reader, _ =>
    ((limitLg cl.cacheexMaxhop reader).1,
      { cl with reader := some (limitLg cl.cacheexMaxhop reader).2 })
  | none, some account =>
    ((limitLg cl.cacheexMaxhop account).1,
      { cl with account := some (limitLg cl.cacheexMaxhop account).2 })
  | none, none => (cl.cacheexMaxhop, cl)

/-- The first test of both `push_chk` functions, on the number of nodes and the local generated flag. -/
def hopLimitReached (nodes : ℕ) (localgenerated : Bool) : Bool :=
  (nodes : ℤ) ≥ cl.cacheexMaxhop &&
    (!localgenerated || localgenerated && (nodes : ℤ) ≥ cl.cacheexMaxhopLg.1)

/-- The test of both `push_in` functions on the received nodes: `true` if the push is ignored. -/
def hopsExceeded (nodes : ℕ) (localgenerated : Bool) : Bool :=
  if localgenerated then (nodes : ℤ) > cl.cacheexMaxhopLg.1 else (nodes : ℤ) > cl.cacheexMaxhop

/-- The configured `maxhop` in force, zero when it is unset. -/
def maxhop : BitVec 8 :=
  ((cl.reader.filter (·.maxhop ≠ 0)).or (cl.account.filter (·.maxhop ≠ 0))).elim 0 (·.maxhop)

/-- The configured `maxhop_lg` in force, zero when it is unset. -/
def maxhopLg : BitVec 8 :=
  ((cl.reader.filter (·.maxhopLg ≠ 0)).or (cl.account.filter (·.maxhopLg ≠ 0))).elim 0 (·.maxhopLg)

section Limits

variable {cl}

theorem cacheexMaxhop_eq : cl.cacheexMaxhop = if cl.maxhop = 0 then 10 else cl.maxhop.toInt := by
  unfold cacheexMaxhop maxhop
  cases hr : cl.reader.filter (·.maxhop ≠ 0) with
  | some reader =>
    have hne : reader.maxhop ≠ 0 := by simpa using (Option.filter_eq_some_iff.mp hr).2
    exact (if_neg hne).symm
  | none =>
    cases ha : cl.account.filter (·.maxhop ≠ 0) with
    | some account =>
      have hne : account.maxhop ≠ 0 := by simpa using (Option.filter_eq_some_iff.mp ha).2
      exact (if_neg hne).symm
    | none => rfl

private theorem limitLg_fst {m : ℤ} {s t : HopSetting} (h : s.maxhopLg = t.maxhopLg) :
    (limitLg m s).1 = (limitLg m t).1 := by
  unfold limitLg
  dsimp only
  rw [h]
  split_ifs <;> simp_all

theorem cacheexMaxhopLg_eq : cl.cacheexMaxhopLg.1 =
    if cl.maxhopLg = 0 then cl.cacheexMaxhop else (limitLg cl.cacheexMaxhop ⟨0, cl.maxhopLg⟩).1 := by
  unfold cacheexMaxhopLg maxhopLg
  cases hr : cl.reader.filter (·.maxhopLg ≠ 0) with
  | some reader =>
    have hne : reader.maxhopLg ≠ 0 := by simpa using (Option.filter_eq_some_iff.mp hr).2
    change _ = if reader.maxhopLg = 0 then _ else (limitLg _ ⟨0, reader.maxhopLg⟩).1
    rw [if_neg hne]
    exact limitLg_fst rfl
  | none =>
    cases ha : cl.account.filter (·.maxhopLg ≠ 0) with
    | some account =>
      have hne : account.maxhopLg ≠ 0 := by simpa using (Option.filter_eq_some_iff.mp ha).2
      change _ = if account.maxhopLg = 0 then _ else (limitLg _ ⟨0, account.maxhopLg⟩).1
      rw [if_neg hne]
      exact limitLg_fst rfl
    | none => rfl

theorem cacheexMaxhop_lt : cl.cacheexMaxhop < 128 := by
  rw [cacheexMaxhop_eq]
  split_ifs
  · decide
  · exact BitVec.toInt_lt

theorem le_limitLg {m : ℤ} {s : HopSetting} : m ≤ (limitLg m s).1 := by
  unfold limitLg
  dsimp only
  split_ifs <;> omega

theorem limitLg_lt {m : ℤ} {s : HopSetting} (hm : m < 128) : (limitLg m s).1 < 128 := by
  unfold limitLg
  dsimp only
  split_ifs
  · exact hm
  · exact BitVec.toInt_lt
  · exact hm
  · exact BitVec.toInt_lt

/-- A local generated word may always go as far as an ordinary one. -/
theorem cacheexMaxhop_le_lg : cl.cacheexMaxhop ≤ cl.cacheexMaxhopLg.1 := by
  rw [cacheexMaxhopLg_eq]
  split_ifs
  · exact Int.le_refl _
  · exact le_limitLg

theorem cacheexMaxhopLg_lt : cl.cacheexMaxhopLg.1 < 128 := by
  rw [cacheexMaxhopLg_eq]
  split_ifs
  · exact cacheexMaxhop_lt
  · exact limitLg_lt cacheexMaxhop_lt

end Limits

section Agreement

variable {snd rcv : HopClient}

theorem cacheexMaxhop_congr (h : snd.maxhop = rcv.maxhop) :
    snd.cacheexMaxhop = rcv.cacheexMaxhop := by
  rw [cacheexMaxhop_eq, cacheexMaxhop_eq, h]

theorem cacheexMaxhopLg_congr (h : snd.maxhop = rcv.maxhop) (hlg : snd.maxhopLg = rcv.maxhopLg) :
    snd.cacheexMaxhopLg.1 = rcv.cacheexMaxhopLg.1 := by
  rw [cacheexMaxhopLg_eq, cacheexMaxhopLg_eq, cacheexMaxhop_congr h, hlg]

/-- A node list that the sender lets through is short enough for the count byte. -/
theorem nodes_lt {n : ℕ} {lg : Bool} (h : snd.hopLimitReached n lg = false) : n < 128 := by
  have hmax := snd.cacheexMaxhop_lt
  have hlg := snd.cacheexMaxhopLg_lt
  have hcases : (n : ℤ) < snd.cacheexMaxhop ∨ (n : ℤ) < snd.cacheexMaxhopLg.1 := by
    cases lg <;> simp [hopLimitReached] at h <;> omega
  omega

/-- What the sender lets through is not too long at the receiver with the sender's node added. -/
theorem hopsExceeded_succ (h : snd.maxhop = rcv.maxhop) (hlg : snd.maxhopLg = rcv.maxhopLg) {n : ℕ}
    {lg : Bool} (hchk : snd.hopLimitReached n lg = false) : rcv.hopsExceeded (n + 1) lg = false := by
  have hmax := cacheexMaxhop_congr h
  have hmaxlg := cacheexMaxhopLg_congr h hlg
  have hle := rcv.cacheexMaxhop_le_lg
  cases lg with
  | false =>
    simp [hopLimitReached, hopsExceeded] at hchk ⊢
    omega
  | true =>
    simp [hopLimitReached, hopsExceeded] at hchk ⊢
    omega

end Agreement

end HopClient

end NCam.Cacheex

namespace NCam.Cacheex.Push

open NCam.Lib.Memory NCam.Util
open NCam.Ecm (E_FOUND E_NOTFOUND E_UNHANDLED)

abbrev Digest := Vector Byte 16
abbrev NodeId := Vector Byte 8

/-- The fields of an ECM request that a push carries; `ecm0` is the first byte of the section. -/
structure PushedEcm where
  rc : Byte
  caid : BitVec 16
  prid : BitVec 32
  srvid : BitVec 16
  pid : BitVec 16
  ecm0 : Byte
  ecmd5 : Digest
  cspHash : BitVec 32
  cw : Digest
  cwcCycletime : Byte
  cwcNextCwCycle : Byte
  cspLastnodes : List NodeId
  localgenerated : Bool
deriving DecidableEq

/-- What the filters of the receiver look at. -/
structure EcmKey where
  caid : BitVec 16
  prid : BitVec 32
  srvid : BitVec 16
  ecmd5 : Digest

def PushedEcm.key (er : PushedEcm) : EcmKey := ⟨er.caid, er.prid, er.srvid, er.ecmd5⟩

/-- The receiving client. `checkCacheexFilter` is the function of that name, `ecmFilter` and
`lgOnlyIn` are the conditions on the `cacheex_ecm_filter` and `lg_only_in` settings; they read the key
of the request and the configuration. -/
structure Receiver where
  hops : HopClient
  checkCacheexFilter : EcmKey → Bool
  ecmFilter : EcmKey → Bool
  lgOnlyIn : EcmKey → Bool

/-- Why a push is ignored. -/
inductive Ignored
  | rc
  | format
  | filter
  | ecmFilter
  | nodes
  | lgOnly
deriving DecidableEq

def cspHashSwap (n : BitVec 32) : BitVec 32 :=
  (n &&& 0xFF) <<< 24 ||| (n &&& 0xFF00) <<< 8 ||| (n &&& 0xFF0000) >>> 8 |||
    (n &&& 0xFF000000) >>> 24

/-- `0x80` and `0x81` are pushed, other table ids are not. -/
def oddEven (b : Byte) : Byte := if b ≠ 0x80 ∧ b ≠ 0x81 then 0 else b

/-- `cc_cacheex_push_chk`: whether the request may be pushed to the client. `connected` is its connection
after the attempt to connect, `pushed` the result of `check_is_pushed`. -/
def ccPushChk (cl : HopClient) (peerNodeId : NodeId) (connected pushed : Bool) (er : PushedEcm) :
    Bool :=
  if peerNodeId = .replicate 8 0 then false
  else if cl.hopLimitReached er.cspLastnodes.length er.localgenerated then false
  else if er.cspLastnodes.contains peerNodeId then false
  else if !connected then false
  else !pushed

/-- `camd35_cacheex_push_chk`: as for CCcam, but the hop limits come first and the peer's node may be
unknown. -/
def camd35PushChk (cl : HopClient) (ncdSkey : Option NodeId) (connected pushed : Bool)
    (er : PushedEcm) : Bool :=
  if cl.hopLimitReached er.cspLastnodes.length er.localgenerated then false
  else if cl.reader.isSome && !connected then false
  else
    match ncdSkey with
    | none => false
    | some remoteNode => if er.cspLastnodes.contains remoteNode then false else !pushed

/-- The result code that is pushed. -/
def pushRc (er : PushedEcm) : Byte :=
  if er.rc.toInt < E_NOTFOUND then .ofNat 8 E_FOUND else er.rc

/-- The result codes that a push may carry. -/
def rcSupported (rc : Byte) : Bool := rc = .ofNat 8 E_FOUND || rc = .ofNat 8 E_UNHANDLED

/-- Byte 18: the cycle time, with bit 8 for CW1. -/
def cycleByte (er : PushedEcm) : Byte :=
  if er.cwcCycletime ≠ 0 ∧ er.cwcNextCwCycle < 2 then
    if er.cwcNextCwCycle = 1 then er.cwcCycletime ||| 0x80 else er.cwcCycletime
  else 0

/-- The size behind the 20 header bytes. -/
def pushSize (er : PushedEcm) : ℕ := 16 + 4 + 16 + 1 + (er.cspLastnodes.length + 1) * 8 + 1

/-- The loop that writes the other nodes: the buffer and the offset behind them. -/
def writeNodes : List NodeId → (ℕ → Byte) → ℕ → (ℕ → Byte) × ℕ
  | [], buf, ofs => (buf, ofs)
  | node :: nodes, buf, ofs => writeNodes nodes (put buf ofs node.toList) (ofs + 8)

/-- What both transports write from `ofs` on. -/
def writeEcm (ownNode : NodeId) (er : PushedEcm) (buf : ℕ → Byte) (ofs : ℕ) : ℕ → Byte :=
  let buf := put buf ofs er.ecmd5.toList
  let buf := i2bBuf 4 (cspHashSwap er.cspHash) buf (ofs + 16)
  let buf := put buf (ofs + 20) er.cw.toList
  let buf := put buf (ofs + 36) [BitVec.ofNat 8 (er.cspLastnodes.length + 1)]
  let buf := put buf (ofs + 37) ownNode.toList
  let (buf, ofs) := writeNodes er.cspLastnodes buf (ofs + 45)
  put buf ofs [if er.localgenerated then 1 else 0xFF]

/-- `cc_cacheex_push_out` on a connected client: the message and its length; `none` for the result -1. -/
def ccPushOut (nodeId : NodeId) (er : PushedEcm) : Option ((ℕ → Byte) × ℕ) :=
  let rc := pushRc er
  if !rcSupported rc then none
  else
    let buf : ℕ → Byte := fun _ => 0
    let buf := put buf 12 [36]
    let buf := put buf 13 [0]
    let buf := put buf 14 [rc]
    let buf := i2bBuf 2 (er.caid.setWidth 32) buf 0
    let buf := i2bBuf 4 er.prid buf 2
    let buf := i2bBuf 2 (er.srvid.setWidth 32) buf 10
    let buf := put buf 18 [cycleByte er]
    let buf := put buf 19 [oddEven er.ecm0]
    some (writeEcm nodeId er buf 20, pushSize er + 20)

/-- `camd35_cacheex_push_out` on a connected client: the message and the length that `camd35_send`
gets; `none` for the result -1. -/
def camd35PushOut (camd35NodeId : NodeId) (er : PushedEcm) : Option ((ℕ → Byte) × ℕ) :=
  let rc := pushRc er
  if !rcSupported rc then none
  else
    let size : BitVec 32 := .ofNat 32 (pushSize er)
    let buf : ℕ → Byte := fun _ => 0
    let buf := put buf 0 [0x3f]
    let buf := put buf 1 [size.setWidth 8]
    let buf := put buf 2 [(size >>> 8).setWidth 8]
    let buf := put buf 3 [rc]
    let buf := i2bBuf 2 (er.srvid.setWidth 32) buf 8
    let buf := i2bBuf 2 (er.caid.setWidth 32) buf 10
    let buf := i2bBuf 4 er.prid buf 12
    let buf := put buf 18 [cycleByte er]
    let buf := put buf 19 [oddEven er.ecm0]
    some (writeEcm camd35NodeId er buf 20, pushSize er)

/-- Reads `count` nodes; the offset behind them comes second. -/
def readNodes (buf : ℕ → Byte) : ℕ → ℕ → List NodeId × ℕ
  | 0, ofs => ([], ofs)
  | count + 1, ofs =>
    let (nodes, last) := readNodes buf count (ofs + 8)
    (.ofFn (fun i => buf (ofs + i)) :: nodes, last)

/-- The cycle time and the next cycle of byte 18. A request of `get_ecmtask` has 0 in both fields. -/
def readCycle (b : Byte) : Byte × Byte :=
  if b ≠ 0 then
    if b &&& 0x80 ≠ 0 then (b &&& 0x7F, 1) else (b, 0)
  else (0, 0)

/-- `b2i` of two bytes for a 16 bit field. -/
def b2i16 (buf : ℕ → Byte) (ofs : ℕ) : BitVec 16 := (b2i 2 buf ofs).setWidth 16

def readDigest (buf : ℕ → Byte) (ofs : ℕ) : Digest := .ofFn fun i => buf (ofs + i)

/-- The node list behind the control word: the count, the nodes and the local generated flag. -/
def readList (buf : ℕ → Byte) : List NodeId × Bool :=
  let (nodes, ofs) := readNodes buf (buf 56).toNat 57
  (nodes, b2i 1 buf ofs = 1)

/-- The request that `push_in` fills. The caid, the provider and the service stand at offsets of the
transport, the node list and the flag come from `list`; the rest is the same in both transports. -/
def readEcm (rc : Byte) (caidAt pridAt srvidAt : ℕ) (pid : BitVec 16) (list : List NodeId × Bool)
    (buf : ℕ → Byte) : PushedEcm where
  rc := rc
  caid := b2i16 buf caidAt
  prid := b2i 4 buf pridAt
  srvid := b2i16 buf srvidAt
  pid := pid
  ecm0 := oddEven (buf 19)
  ecmd5 := readDigest buf 20
  cspHash := cspHashSwap (b2i 4 buf 36)
  cw := readDigest buf 40
  cwcCycletime := (readCycle (buf 18)).1
  cwcNextCwCycle := (readCycle (buf 18)).2
  cspLastnodes := list.1
  localgenerated := list.2

/-- The checks on the key, before the control word is read. -/
def Receiver.checkFilters (rcv : Receiver) (key : EcmKey) : Except Ignored Unit :=
  if !rcv.checkCacheexFilter key then .error .filter
  else if rcv.ecmFilter key then .error .ecmFilter
  else .ok ()

/-- The checks on the node list and the local generated flag. -/
def Receiver.checkNodes (rcv : Receiver) (er : PushedEcm) : Except Ignored Unit :=
  if rcv.hops.hopsExceeded er.cspLastnodes.length er.localgenerated then .error .nodes
  else if !er.localgenerated && rcv.lgOnlyIn er.key then .error .lgOnly
  else .ok ()

def Receiver.check (rcv : Receiver) (er : PushedEcm) : Except Ignored Unit :=
  match rcv.checkFilters er.key with
  | .error why => .error why
  | .ok () => rcv.checkNodes er

/-- The request, if it passes the checks. -/
def Receiver.accept (rcv : Receiver) (er : PushedEcm) : Except Ignored PushedEcm :=
  match rcv.check er with
  | .error why => .error why
  | .ok () => .ok er

/-- `cc_cacheex_push_in`: the request it hands to `cacheex_add_to_cache`. -/
def ccPushIn (rcv : Receiver) (peerNodeId : NodeId) (buf : ℕ → Byte) : Except Ignored PushedEcm :=
  let rc := buf 14
  if !rcSupported rc then .error .rc
  else
    let size : BitVec 16 := (buf 12).setWidth 16 ||| (buf 13).setWidth 16 <<< 8
    if size ≠ 36 then .error .format
    else
      let er := readEcm rc 0 2 10 0 (readList buf) buf
      match rcv.check er with
      | .error why => .error why
      | .ok () =>
        .ok (if er.cspLastnodes.isEmpty then { er with cspLastnodes := [peerNodeId] } else er)

/-- `camd35_cacheex_push_in`: the request it hands to `cacheex_add_to_cache` and the stored remote node. A
message of the old size has no node list and no checks on it. -/
def camd35PushIn (rcv : Receiver) (ncdSkey : Option NodeId) (buf : ℕ → Byte) :
    Except Ignored (PushedEcm × Option NodeId) :=
  let rc := buf 3
  if !rcSupported rc then .error .rc
  else
    let size : BitVec 16 := (buf 1).setWidth 16 ||| (buf 2).setWidth 16 <<< 8
    if size < 36 then .error .format
    else
      let list := if size > 36 then readList buf else ([], false)
      let er := readEcm rc 10 12 8 (b2i16 buf 16) list buf
      match if size > 36 then rcv.check er else rcv.checkFilters er.key with
      | .error why => .error why
      | .ok () =>
        let ncdSkey := ncdSkey.or er.cspLastnodes.head?
        let nodes := if er.cspLastnodes.isEmpty then ncdSkey.toList else er.cspLastnodes
        .ok ({ er with cspLastnodes := nodes }, ncdSkey)

section Written

/-- What stands behind the header of a push. -/
def ecmBytes (ownNode : NodeId) (er : PushedEcm) : List Byte :=
  er.ecmd5.toList ++ (i2b 4 (cspHashSwap er.cspHash) ++ (er.cw.toList ++
    ([BitVec.ofNat 8 (er.cspLastnodes.length + 1)] ++
      ((ownNode :: er.cspLastnodes).flatMap (·.toList) ++ [if er.localgenerated then 1 else 0xFF]))))

theorem length_flatMap_nodes (nodes : List NodeId) :
    (nodes.flatMap (·.toList)).length = 8 * nodes.length := by
  induction nodes with
  | nil => rfl
  | cons node nodes ih =>
    rw [List.flatMap_cons, List.length_append, ih, Vector.length_toList, List.length_cons]
    omega

theorem writeNodes_eq (nodes : List NodeId) (buf : ℕ → Byte) (ofs : ℕ) :
    writeNodes nodes buf ofs = (put buf ofs (nodes.flatMap (·.toList)), ofs + 8 * nodes.length) := by
  induction nodes generalizing buf ofs with
  | nil => simp [writeNodes]
  | cons node nodes ih =>
    have hput := @put_put_append _ buf ofs node.toList (nodes.flatMap (·.toList))
    rw [Vector.length_toList] at hput
    rw [writeNodes, ih, hput, List.flatMap_cons, List.length_cons]
    congr 1
    omega

theorem writeEcm_eq (ownNode : NodeId) (er : PushedEcm) (buf : ℕ → Byte) (ofs : ℕ) :
    writeEcm ownNode er buf ofs = put buf ofs (ecmBytes ownNode er) := by
  unfold writeEcm ecmBytes
  simp only [writeNodes_eq, i2bBuf]
  rw [put_put_of_eq (by rw [length_flatMap_nodes]), put_put_of_eq (by simp),
    put_put_of_eq (by simp), put_put_of_eq (by simp), put_put_of_eq (by simp),
    put_put_of_eq (by simp)]
  simp only [List.flatMap_cons, List.append_assoc]

end Written

section Bits

/-- Masking with the bits from `lo` to `hi`. -/
private theorem getLsbD_mask (m : BitVec 32) (lo hi : ℕ)
    (h : ∀ k < 32, m.getLsbD k = decide (lo ≤ k ∧ k < hi)) (n : BitVec 32) (k : ℕ) :
    (n &&& m).getLsbD k = (decide (lo ≤ k ∧ k < hi) && n.getLsbD k) := by
  rw [BitVec.getLsbD_and, Bool.and_comm]
  rcases Nat.lt_or_ge k 32 with hk | hk
  · rw [h k hk]
  · rw [BitVec.getLsbD_of_ge n k hk, Bool.and_false, Bool.and_false]

private theorem getLsbD_cspHashSwap (n : BitVec 32) (k : ℕ) (hk : k < 32) :
    (cspHashSwap n).getLsbD k =
      if k < 8 then n.getLsbD (k + 24) else if k < 16 then n.getLsbD (k + 8)
      else if k < 24 then n.getLsbD (k - 8) else n.getLsbD (k - 24) := by
  simp only [cspHashSwap, BitVec.getLsbD_or, BitVec.getLsbD_shiftLeft, BitVec.getLsbD_ushiftRight]
  rw [getLsbD_mask 0xFF 0 8 (by decide), getLsbD_mask 0xFF00 8 16 (by decide),
    getLsbD_mask 0xFF0000 16 24 (by decide), getLsbD_mask 0xFF000000 24 32 (by decide)]
  grind

theorem cspHashSwap_cspHashSwap (n : BitVec 32) : cspHashSwap (cspHashSwap n) = n := by
  apply BitVec.eq_of_getLsbD_eq
  intro k hk
  rw [getLsbD_cspHashSwap _ _ hk]
  grind [getLsbD_cspHashSwap]

private theorem cycle_bits : ∀ b : Byte, b.toNat < 128 →
    b ||| 0x80 ≠ 0 ∧ (b ||| 0x80) &&& 0x80 ≠ 0 ∧ (b ||| 0x80) &&& 0x7F = b ∧ b &&& 0x80 = 0 := by
  decide

theorem oddEven_oddEven (b : Byte) : oddEven (oddEven b) = oddEven b := by
  by_cases h : b ≠ 0x80 ∧ b ≠ 0x81
  · have hzero : oddEven b = 0 := if_pos h
    rw [hzero]
    decide
  · have hkeep : oddEven b = b := if_neg h
    rw [hkeep, hkeep]

/-- The 16 bit size from its two bytes. -/
theorem size_bytes (n : BitVec 32) :
    (n.setWidth 8).setWidth 16 ||| ((n >>> 8).setWidth 8).setWidth 16 <<< 8 = n.setWidth 16 := by
  ext k hk
  simp only [BitVec.getElem_or, BitVec.getElem_shiftLeft, BitVec.getElem_setWidth,
    BitVec.getLsbD_setWidth, BitVec.getLsbD_ushiftRight]
  grind

end Bits

/-- The cycle information of a request: which word comes next, and the cycle time. -/
def cycleInfo (er : PushedEcm) : Option (Byte × Byte) :=
  if er.cwcCycletime ≠ 0 ∧ er.cwcNextCwCycle < 2 then some (er.cwcNextCwCycle, er.cwcCycletime)
  else none

section Read

variable {buf : ℕ → Byte} {ofs : ℕ}

theorem readDigest_of_holds {d : Digest} (h : Holds buf ofs d.toList) : readDigest buf ofs = d := by
  apply Vector.ext
  intro i hi
  have hget := h.getElem (i := i) (by simpa using hi)
  simpa [readDigest] using hget

theorem readNodes_of_holds {nodes : List NodeId} (h : Holds buf ofs (nodes.flatMap (·.toList))) :
    readNodes buf nodes.length ofs = (nodes, ofs + 8 * nodes.length) := by
  induction nodes generalizing ofs with
  | nil => rfl
  | cons node nodes ih =>
    rw [List.flatMap_cons, holds_append, Vector.length_toList] at h
    have hnode : (Vector.ofFn fun i : Fin 8 => buf (ofs + i)) = node := by
      apply Vector.ext
      intro i hi
      have hget := h.1.getElem (i := i) (by simpa using hi)
      simpa using hget
    rw [List.length_cons, readNodes, ih h.2, hnode]
    dsimp only
    rw [Nat.mul_succ, Nat.add_assoc, Nat.add_comm 8]

theorem b2i16_of_holds {n : BitVec 16} (h : Holds buf ofs (i2b 2 (n.setWidth 32))) :
    b2i16 buf ofs = n := by
  rw [b2i16, b2i_two h]
  simp

/-- The cycle information survives byte 18 if the time leaves bit 8 free. -/
theorem readCycle_cycleByte {er : PushedEcm}
    (h : cycleInfo er = none ∨ er.cwcCycletime.toNat ≤ 127) :
    readCycle (cycleByte er) =
      match cycleInfo er with
      | some (next, time) => (time, next)
      | none => (0, 0) := by
  unfold cycleInfo cycleByte at *
  by_cases hinfo : er.cwcCycletime ≠ 0 ∧ er.cwcNextCwCycle < 2
  · rw [if_pos hinfo] at h ⊢
    rw [if_pos hinfo]
    have htime : er.cwcCycletime.toNat < 128 := by
      rcases h with h | h
      · cases h
      · omega
    obtain ⟨hne, hset, hmask, hclear⟩ := cycle_bits er.cwcCycletime htime
    have hnext : er.cwcNextCwCycle = 0 ∨ er.cwcNextCwCycle = 1 := by
      have hlt : er.cwcNextCwCycle.toNat < 2 := hinfo.2
      rcases (by omega : er.cwcNextCwCycle.toNat = 0 ∨ er.cwcNextCwCycle.toNat = 1) with h0 | h1
      · exact Or.inl (BitVec.eq_of_toNat_eq h0)
      · exact Or.inr (BitVec.eq_of_toNat_eq h1)
    rcases hnext with h0 | h1
    · have hno : ¬ er.cwcNextCwCycle = 1 := by
        rw [h0]
        decide
      unfold readCycle
      rw [if_neg hno, if_pos hinfo.1, if_neg (fun hbit => hbit hclear), h0]
    · unfold readCycle
      rw [if_pos h1, if_pos hne, if_pos hset, hmask, h1]
  · rw [if_neg hinfo, if_neg hinfo]
    rfl

end Read

end NCam.Cacheex.Push
