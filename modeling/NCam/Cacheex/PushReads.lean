import NCam.Cacheex.Push
import NCam.Camd35.Frame
import NCam.Lib.Reads

/-! What the two `push_in` functions read of a cache push, in the builds with and without `CS_CACHEEX_AIO`,
and when it lies in the message. -/
namespace NCam.Cacheex.Push

open NCam.Lib NCam.Lib.Reads NCam.Util
open NCam.Camd35 (packetLen)

/-- `len` bytes of the message from `start` on. -/
def readBytes (start len : ℕ) : Reads (Span Unit) Unit := touch () start len

/-- The loop over the nodes. -/
def nodesRead (buf : ℕ → Byte) : ℕ → ℕ → Reads (Span Unit) (List NodeId × ℕ)
  | 0, ofs => return ([], ofs)
  | count + 1, ofs => do
    readBytes ofs 8
    let (nodes, last) ← nodesRead buf count (ofs + 8)
    return (.ofFn (fun i => buf (ofs + i)) :: nodes, last)

/-- The node list; `none` if its count is refused before it is read. -/
def listRead (aio : Bool) (rcv : Receiver) (buf : ℕ → Byte) :
    Reads (Span Unit) (Option (List NodeId × Bool)) := do
  readBytes 56 1
  if aio = false ∧ rcv.hops.cacheexMaxhop < (buf 56).toNat then return none
  let (nodes, ofs) ← nodesRead buf (buf 56).toNat 57
  if aio = false then return some (nodes, false)
  readBytes ofs 1
  return some (nodes, b2i 1 buf ofs = 1)

/-- The checks on the key; only the AIO build has those of `cacheex_ecm_filter`. -/
def filtersPass (aio : Bool) (rcv : Receiver) (key : EcmKey) : Except Ignored Unit :=
  if !rcv.checkCacheexFilter key then .error .filter
  else if aio && rcv.ecmFilter key then .error .ecmFilter
  else .ok ()

/-- The checks on the node list in the AIO build. -/
def nodesPass (aio : Bool) (rcv : Receiver) (er : PushedEcm) : Except Ignored Unit :=
  if aio then rcv.checkNodes er else .ok ()

/-- The end of `cc_cacheex_push_in`, behind the node list. -/
def ccPushEnd (aio : Bool) (rcv : Receiver) (peerNodeId : NodeId) (buf : ℕ → Byte) :
    Option (List NodeId × Bool) → Except Ignored PushedEcm
  | none => .error .nodes
  | some list =>
    let er := readEcm (buf 14) 0 2 10 0 list buf
    match nodesPass aio rcv er with
    | .error why => .error why
    | .ok () => .ok (if er.cspLastnodes.isEmpty then { er with cspLastnodes := [peerNodeId] } else er)

/-- `cc_cacheex_push_in`. -/
def ccPushInRead (aio : Bool) (rcv : Receiver) (peerNodeId : NodeId) (buf : ℕ → Byte) :
    Reads (Span Unit) (Except Ignored PushedEcm) := do
  readBytes 14 1
  if rcSupported (buf 14) = false then return .error .rc
  readBytes 12 2
  if (buf 12).setWidth 16 ||| (buf 13).setWidth 16 <<< 8 ≠ (36 : BitVec 16) then return .error .format
  readBytes 0 6
  readBytes 10 2
  readBytes 18 2
  readBytes 20 16
  match filtersPass aio rcv ⟨b2i16 buf 0, b2i 4 buf 2, b2i16 buf 10, readDigest buf 20⟩ with
  | .error why => return .error why
  | .ok () =>
    readBytes 36 4
    readBytes 40 16
    return ccPushEnd aio rcv peerNodeId buf (← listRead aio rcv buf)

/-- The end of `camd35_cacheex_push_in`, behind the node list. -/
def camd35PushEnd (aio : Bool) (rcv : Receiver) (ncdSkey : Option NodeId) (buf : ℕ → Byte) (old : Bool) :
    Option (List NodeId × Bool) → Except Ignored (PushedEcm × Option NodeId)
  | none => .error .nodes
  | some list =>
    let er := readEcm (buf 3) 10 12 8 (b2i16 buf 16) list buf
    match if old then .ok () else nodesPass aio rcv er with
    | .error why => .error why
    | .ok () =>
      let ncdSkey := ncdSkey.or er.cspLastnodes.head?
      let nodes := if er.cspLastnodes.isEmpty then ncdSkey.toList else er.cspLastnodes
      .ok ({ er with cspLastnodes := nodes }, ncdSkey)

/-- `camd35_cacheex_push_in`. -/
def camd35PushInRead (aio : Bool) (rcv : Receiver) (ncdSkey : Option NodeId) (buf : ℕ → Byte) :
    Reads (Span Unit) (Except Ignored (PushedEcm × Option NodeId)) := do
  readBytes 3 1
  if rcSupported (buf 3) = false then return .error .rc
  readBytes 1 2
  let size : BitVec 16 := (buf 1).setWidth 16 ||| (buf 2).setWidth 16 <<< 8
  if size < 36 then return .error .format
  readBytes 8 10
  readBytes 18 2
  readBytes 20 16
  match filtersPass aio rcv ⟨b2i16 buf 10, b2i 4 buf 12, b2i16 buf 8, readDigest buf 20⟩ with
  | .error why => return .error why
  | .ok () =>
    readBytes 36 4
    readBytes 40 16
    if size > 36 then return camd35PushEnd aio rcv ncdSkey buf false (← listRead aio rcv buf)
    else return camd35PushEnd aio rcv ncdSkey buf true (some ([], false))

section Claims

/-- A cache push as it reaches `push_in`: the payload of a CCcam message, or a camd35 packet. -/
inductive PushMessage
  | cccam (data : ℕ → Byte) (len : ℕ)
  | camd35 (buf : ℕ → Byte)

variable (aio : Bool) (rcv : Receiver) (peerNodeId : NodeId) (ncdSkey : Option NodeId)

/-- What is read lies in the message; a CCcam payload below 18 bytes is not handed on. -/
def ReadsMessage : PushMessage → Prop
  | .cccam data len =>
    18 ≤ len → (ccPushInRead aio rcv peerNodeId data).All (Span.Within fun _ => len)
  | .camd35 buf =>
    buf 0 = 0x3F → (camd35PushInRead aio rcv ncdSkey buf).All (Span.Within fun _ => packetLen buf)

/-- The count is refused, or the nodes it announces, with the flag of the AIO build, end at `n`. -/
def ListFits (buf : ℕ → Byte) (n : ℕ) : Prop :=
  (aio = false ∧ rcv.hops.cacheexMaxhop < (buf 56).toNat) ∨
    57 + 8 * (buf 56).toNat + (if aio then 1 else 0) ≤ n

/-- A push that passes the checks on its header has room for the hash, and one that passes those on its key
for the count and the node list. -/
def PushFits : PushMessage → Prop
  | .cccam data len =>
    18 ≤ len → rcSupported (data 14) = true →
      (data 12).setWidth 16 ||| (data 13).setWidth 16 <<< 8 = (36 : BitVec 16) →
        36 ≤ len ∧ (filtersPass aio rcv ⟨b2i16 data 0, b2i 4 data 2, b2i16 data 10, readDigest data 20⟩ =
          .ok () → 57 ≤ len ∧ ListFits aio rcv data len)
  | .camd35 buf =>
    buf 0 = 0x3F → rcSupported (buf 3) = true →
      (buf 1).setWidth 16 ||| (buf 2).setWidth 16 <<< 8 > (36 : BitVec 16) →
        filtersPass aio rcv ⟨b2i16 buf 10, b2i 4 buf 12, b2i16 buf 8, readDigest buf 20⟩ = .ok () →
          ListFits aio rcv buf (packetLen buf)

variable {aio rcv peerNodeId ncdSkey} {buf : ℕ → Byte} {n : ℕ}

@[simp] theorem all_readBytes (start len : ℕ) :
    (readBytes start len).All (Span.Within fun _ => n) ↔ start + len ≤ n := all_touch _ _ _

@[simp] theorem value_nodesRead (count ofs : ℕ) :
    (nodesRead buf count ofs).value = readNodes buf count ofs := by
  induction count generalizing ofs with
  | zero => rfl
  | succ count ih =>
    simp only [nodesRead, value_bind, ih, readNodes]
    rfl

theorem readNodes_snd (count ofs : ℕ) : (readNodes buf count ofs).2 = ofs + 8 * count := by
  induction count generalizing ofs with
  | zero => rfl
  | succ count ih =>
    simp only [readNodes, ih]
    omega

theorem all_nodesRead_iff (count ofs : ℕ) (hofs : ofs ≤ n) :
    (nodesRead buf count ofs).All (Span.Within fun _ => n) ↔ ofs + 8 * count ≤ n := by
  induction count generalizing ofs with
  | zero => simp [nodesRead, hofs]
  | succ count ih =>
    simp only [nodesRead, all_bind, all_readBytes, all_pure, and_true]
    constructor
    · intro h
      have hrest := (ih (ofs + 8) h.1).mp h.2
      omega
    · intro h
      exact ⟨by omega, (ih (ofs + 8) (by omega)).mpr (by omega)⟩

/-- The list is read inside a message if and only if its count is there and it fits. -/
theorem all_listRead_iff : (listRead aio rcv buf).All (Span.Within fun _ => n) ↔
    57 ≤ n ∧ ListFits aio rcv buf n := by
  unfold listRead ListFits
  rw [all_bind, all_readBytes]
  apply and_congr_right
  intro hcount
  by_cases hrefused : aio = false ∧ rcv.hops.cacheexMaxhop < (buf 56).toNat
  · rw [if_pos hrefused]
    simp [hrefused]
  · rw [if_neg hrefused, all_bind, all_nodesRead_iff _ _ hcount, value_nodesRead]
    simp only [hrefused, false_or]
    cases aio with
    | false => simp
    | true =>
      simp only [Bool.true_eq_false, if_false, if_true, all_bind, all_readBytes, all_pure, and_true,
        readNodes_snd]
      omega

theorem filtersPass_true (key : EcmKey) : filtersPass true rcv key = rcv.checkFilters key := rfl

theorem value_listRead_true : (listRead true rcv buf).value = some (readList buf) := by
  simp [listRead, readList]

/-- The AIO build takes from a CCcam push what was read for it. -/
theorem value_ccPushInRead : (ccPushInRead true rcv peerNodeId buf).value = ccPushIn rcv peerNodeId buf := by
  unfold ccPushInRead ccPushIn Receiver.check
  simp only [value_bind, value_ite, value_pure, filtersPass_true]
  by_cases hrc : rcSupported (buf 14) = true
  · by_cases hsize : (buf 12).setWidth 16 ||| (buf 13).setWidth 16 <<< 8 = (36 : BitVec 16)
    · rw [if_neg (by simp [hrc]), if_neg (by simp [hsize]), if_neg (by simp [hrc]), if_neg (by simp [hsize])]
      have hkey : (readEcm (buf 14) 0 2 10 0 (readList buf) buf).key =
          ⟨b2i16 buf 0, b2i 4 buf 2, b2i16 buf 10, readDigest buf 20⟩ := rfl
      rw [hkey]
      cases rcv.checkFilters ⟨b2i16 buf 0, b2i 4 buf 2, b2i16 buf 10, readDigest buf 20⟩ with
      | error why => rfl
      | ok _ =>
        cases hnodes : rcv.checkNodes (readEcm (buf 14) 0 2 10 0 (readList buf) buf) <;>
          simp only [value_bind, value_pure, value_listRead_true, ccPushEnd, nodesPass, if_true, hnodes]
    · rw [if_neg (by simp [hrc]), if_pos hsize, if_neg (by simp [hrc]), if_pos hsize]
  · rw [if_pos (by simpa using hrc), if_pos (by simp [hrc])]

theorem all_ccPushInRead_iff : (ccPushInRead aio rcv peerNodeId buf).All (Span.Within fun _ => n) ↔
    15 ≤ n ∧ (rcSupported (buf 14) = true →
      (buf 12).setWidth 16 ||| (buf 13).setWidth 16 <<< 8 = (36 : BitVec 16) → 36 ≤ n ∧
        (filtersPass aio rcv ⟨b2i16 buf 0, b2i 4 buf 2, b2i16 buf 10, readDigest buf 20⟩ = .ok () →
          57 ≤ n ∧ ListFits aio rcv buf n)) := by
  unfold ccPushInRead
  rw [all_bind, all_readBytes]
  apply and_congr_right
  intro h15
  by_cases hrc : rcSupported (buf 14) = true
  · rw [if_neg (by simp [hrc]), all_bind, all_readBytes]
    by_cases hsize : (buf 12).setWidth 16 ||| (buf 13).setWidth 16 <<< 8 = (36 : BitVec 16)
    · rw [if_neg (not_not.mpr hsize)]
      simp only [all_bind, all_readBytes, hrc, hsize, true_implies]
      cases hfilters : filtersPass aio rcv ⟨b2i16 buf 0, b2i 4 buf 2, b2i16 buf 10, readDigest buf 20⟩ with
      | error why =>
        simp only [all_pure, reduceCtorEq, false_implies, and_true]
        omega
      | ok _ =>
        simp only [all_bind, all_readBytes, all_listRead_iff, all_pure, and_true, true_implies]
        constructor
        · intro h
          exact ⟨by omega, h.2.2.2.2.2.2.2⟩
        · intro h
          have h57 := h.2.1
          exact ⟨by omega, by omega, by omega, by omega, by omega, by omega, by omega, h.2⟩
    · rw [if_pos hsize]
      simp only [all_pure, hsize, false_implies, implies_true, and_true, iff_true]
      omega
  · rw [if_pos (by simpa using hrc)]
    simp [hrc]

/-- The AIO build takes from a camd35 push what was read for it. -/
theorem value_camd35PushInRead :
    (camd35PushInRead true rcv ncdSkey buf).value = camd35PushIn rcv ncdSkey buf := by
  unfold camd35PushInRead camd35PushIn Receiver.check
  simp only [value_bind, value_ite, value_pure, filtersPass_true]
  by_cases hrc : rcSupported (buf 3) = true
  · have hread : ¬ rcSupported (buf 3) = false := by simp [hrc]
    have hkept : ¬ (!rcSupported (buf 3)) = true := by simp [hrc]
    rw [if_neg hread, if_neg hkept]
    by_cases hold : (buf 1).setWidth 16 ||| (buf 2).setWidth 16 <<< 8 < (36 : BitVec 16)
    · rw [if_pos hold, if_pos hold]
    · rw [if_neg hold, if_neg hold]
      have hkey (list : List NodeId × Bool) : (readEcm (buf 3) 10 12 8 (b2i16 buf 16) list buf).key =
          ⟨b2i16 buf 10, b2i 4 buf 12, b2i16 buf 8, readDigest buf 20⟩ := rfl
      rw [hkey]
      by_cases hnew : (buf 1).setWidth 16 ||| (buf 2).setWidth 16 <<< 8 > (36 : BitVec 16)
      · simp only [if_pos hnew]
        cases rcv.checkFilters ⟨b2i16 buf 10, b2i 4 buf 12, b2i16 buf 8, readDigest buf 20⟩ with
        | error why => rfl
        | ok _ =>
          cases hnodes : rcv.checkNodes (readEcm (buf 3) 10 12 8 (b2i16 buf 16) (readList buf) buf) <;>
            simp only [value_bind, value_pure, value_listRead_true, camd35PushEnd, nodesPass, if_true,
              Bool.false_eq_true, if_false, hnodes]
      · simp only [if_neg hnew]
        cases rcv.checkFilters ⟨b2i16 buf 10, b2i 4 buf 12, b2i16 buf 8, readDigest buf 20⟩ <;> rfl
  · rw [if_pos (by simpa using hrc), if_pos (by simp [hrc])]

/-- The size in the header of a push is that of the packet it came in. -/
theorem packetLen_push (hcmd : buf 0 = 0x3F) : packetLen buf =
    NCam.Camd35.boundary 4 (20 + ((buf 1).setWidth 16 ||| (buf 2).setWidth 16 <<< 8 : BitVec 16).toNat) := by
  have hsize : ((buf 1).setWidth 16 ||| (buf 2).setWidth 16 <<< 8 : BitVec 16).toNat =
      (buf 1).toNat ||| (buf 2).toNat <<< 8 := by
    have h2 := (buf 2).isLt
    have hmul : (buf 2).toNat <<< 8 < 65536 := by
      rw [Nat.shiftLeft_eq]
      omega
    rw [BitVec.toNat_or, BitVec.toNat_shiftLeft, BitVec.toNat_setWidth_of_le (by omega),
      BitVec.toNat_setWidth_of_le (by omega), Nat.mod_eq_of_lt hmul]
  have hannounced : NCam.Camd35.announced buf = (buf 1).toNat ||| (buf 2).toNat <<< 8 := by
    unfold NCam.Camd35.announced
    rw [hcmd]
    rfl
  have htail : (if buf 0 = 3 then 0x34 else 0) = 0 := by
    rw [hcmd]
    rfl
  unfold packetLen
  rw [htail, hannounced, hsize, Nat.zero_add]

theorem all_camd35PushInRead_iff (h4 : 4 ≤ n)
    (h64 : ¬ (buf 1).setWidth 16 ||| (buf 2).setWidth 16 <<< 8 < (36 : BitVec 16) → 64 ≤ n) :
    (camd35PushInRead aio rcv ncdSkey buf).All (Span.Within fun _ => n) ↔
      (rcSupported (buf 3) = true →
        (buf 1).setWidth 16 ||| (buf 2).setWidth 16 <<< 8 > (36 : BitVec 16) →
          filtersPass aio rcv ⟨b2i16 buf 10, b2i 4 buf 12, b2i16 buf 8, readDigest buf 20⟩ = .ok () →
            ListFits aio rcv buf n) := by
  unfold camd35PushInRead
  rw [all_bind, all_readBytes]
  by_cases hrc : rcSupported (buf 3) = true
  · rw [if_neg (by simp [hrc]), all_bind, all_readBytes]
    by_cases hsize : (buf 1).setWidth 16 ||| (buf 2).setWidth 16 <<< 8 < (36 : BitVec 16)
    · have hold : ¬ ((buf 1).setWidth 16 ||| (buf 2).setWidth 16 <<< 8 > (36 : BitVec 16)) := by
        rw [gt_iff_lt, BitVec.lt_def] at *
        omega
      rw [if_pos hsize]
      simp only [all_pure, hold, false_implies, implies_true, and_true, iff_true]
      omega
    · have hroom := h64 hsize
      rw [if_neg hsize]
      simp only [all_bind, all_readBytes, hrc, true_implies]
      cases hfilters : filtersPass aio rcv ⟨b2i16 buf 10, b2i 4 buf 12, b2i16 buf 8, readDigest buf 20⟩ with
      | error why =>
        simp only [all_pure, reduceCtorEq, false_implies, implies_true, and_true, iff_true]
        omega
      | ok _ =>
        simp only [all_bind, all_readBytes, all_ite, all_listRead_iff, all_pure, and_true, implies_true,
          true_implies]
        constructor
        · intro h hnew
          exact (h.2.2.2.2.2.2.2 hnew).2
        · intro h
          exact ⟨by omega, by omega, by omega, by omega, by omega, by omega, by omega,
            fun hnew => ⟨by omega, h hnew⟩⟩
  · rw [if_pos (by simpa using hrc)]
    exact iff_of_true ⟨by omega, all_pure _⟩ fun h => absurd h hrc

/-- A cache push is read inside its message if and only if it has room for what it announces. -/
theorem readsMessage_iff (aio : Bool) (rcv : Receiver) (peerNodeId : NodeId) (ncdSkey : Option NodeId)
    (m : PushMessage) : ReadsMessage aio rcv peerNodeId ncdSkey m ↔ PushFits aio rcv m := by
  cases m with
  | cccam data len =>
    unfold ReadsMessage PushFits
    apply imp_congr_right
    intro h18
    rw [all_ccPushInRead_iff, and_iff_right (by omega)]
  | camd35 buf =>
    unfold ReadsMessage PushFits
    apply imp_congr_right
    intro hcmd
    have hlen := packetLen_push hcmd
    rw [NCam.Camd35.boundary_eq] at hlen
    apply all_camd35PushInRead_iff
    · omega
    · intro hsize
      rw [BitVec.lt_def, not_lt] at hsize
      have h36 : (36 : BitVec 16).toNat = 36 := rfl
      omega

private def openReceiver : Receiver := ⟨⟨none, none⟩, fun _ => true, fun _ => false, fun _ => false⟩

/-- A payload of 57 bytes that announces one node. -/
theorem node_behind : ¬ ReadsMessage false openReceiver (Vector.replicate 8 0) none
    (.cccam (fun i => if i = 12 then 36 else if i = 56 then 1 else 0) 57) := by
  intro h
  have hlist := (all_ccPushInRead_iff.mp (h (by omega))).2 rfl rfl
  obtain hrefused | hfits := (hlist.2 rfl).2
  · exact absurd hrefused.2 (by decide)
  · exact absurd hfits (by decide)

end Claims

end NCam.Cacheex.Push
