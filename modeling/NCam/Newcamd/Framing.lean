import NCam.Newcamd.Frame

/-! What `network_message_receive` makes of the bytes of `network_message_send`. -/
namespace NCam.Newcamd

open NCam.Lib.Memory

/-- Both sides speak one variant of the protocol, and decryption with the session key undoes encryption. -/
structure Session (cl peer : Client) (deskey : Option DesKey) : Prop where
  proto : cl.ncdProto ≠ .NCD_AUTO
  same : peer.ncdProto = cl.ncdProto
  key : ∀ key ∈ deskey, key.Inverts

/-- The service id of a message. Custom data have one of their own, and so has a login acknowledged in the
way of mgclient. -/
def serviceId (ncdMgclient : Bool) (cl : Client) (m : Call) : BitVec 16 :=
  if MgAck ncdMgclient cl m then 0x6E73
  else match m.cd with
    | some cd => cd.sid
    | none => m.sid

/-- The receiver returns the body, as the sender left it, with its length and the message id, and to a server
the service id. -/
def Delivered (ncdMgclient : Bool) (cl : Client) (m : Call) (s : Sent) (netMsgId : Option (BitVec 16))
    (r : Received) : Prop :=
  r.rc = m.len + 2 ∧ slice r.buffer 2 m.len = slice s.buffer 0 m.len ∧
    match m.commType with
    | .COMMTYPE_CLIENT => slice r.buffer 0 2 = bytes16 (serviceId ncdMgclient cl m) ∧
        r.netMsgId = netMsgId.map fun _ => s.netMsgId.getD 0
    | .COMMTYPE_SERVER => slice r.buffer 0 2 = bytes16 (s.netMsgId.getD 0)

/-- Custom data in a short header, which reach into the body, repeat what stands there, and to a server
their caid, which stands in the place of the service id, is that. -/
def Spares (cl : Client) (m : Call) : Prop :=
  ∀ cd ∈ m.cd, cl.ncdProto = .NCD_524 → slice (lenField m.buffer m.len) 0 3 = cd.provBytes ∧
    (m.commType = .COMMTYPE_CLIENT → cd.caid = cd.sid)

section Header

variable {ncdMgclient : Bool} {cl : Client} {m : Call} {netbuf : ℕ → Byte}

theorem length_bytes16 (v : BitVec 16) : (bytes16 v).length = 2 := rfl

theorem bytes16_inj {v w : BitVec 16} : bytes16 v = bytes16 w ↔ v = w := by
  constructor
  · intro h
    have hbyte := fun i => congrArg (fun l : List Byte => l.getD i 0) h
    have hhi : (v >>> 8).setWidth 8 = (w >>> 8).setWidth 8 := hbyte 0
    have hlo : v.setWidth 8 = w.setWidth 8 := hbyte 1
    have hhi' := congrArg BitVec.toNat hhi
    have hlo' := congrArg BitVec.toNat hlo
    simp only [BitVec.toNat_setWidth, BitVec.toNat_ushiftRight, Nat.shiftRight_eq_div_pow] at hhi' hlo'
    apply BitVec.eq_of_toNat_eq
    omega
  · exact congrArg bytes16

/-- The two bytes of a field, read back. -/
theorem msgid_bytes16 (v : BitVec 16) :
    ((v >>> 8).setWidth 8).setWidth 16 <<< 8 ||| (v.setWidth 8).setWidth 16 = v := by
  ext k hk
  simp only [BitVec.getElem_or, BitVec.getElem_shiftLeft, BitVec.getElem_setWidth,
    BitVec.getLsbD_setWidth, BitVec.getLsbD_ushiftRight]
  grind

theorem putSid_of_not {i : ℕ} {sid : BitVec 16} (hi : i < 4 ∨ headSize cl.ncdProto ≤ i) :
    putSid cl sid netbuf i = netbuf i := by
  unfold putSid
  by_cases h0 : sid ≠ 0
  · rw [if_pos h0]
    have hpos : i < sidPos cl.ncdProto ∨ sidPos cl.ncdProto + 2 ≤ i := by
      unfold sidPos headSize at *
      split_ifs at * <;> omega
    have hput : ∀ b, put b (sidPos cl.ncdProto) (bytes16 sid) i = b i := by
      intro b
      rcases hpos with hlo | hhi
      · exact put_of_lt hlo
      · exact put_of_le hhi
    rw [hput]
    cases cl.reader with
    | none => rfl
    | some reader =>
      dsimp only
      split_ifs with hfilt
      · rcases hi with hlo | hhi
        · exact put_of_lt hlo
        · unfold headSize at hhi
          rw [if_neg hfilt.2.2] at hhi
          exact put_of_le (by rw [length_slice]; omega)
      · rfl
  · rw [if_neg h0]

theorem putMarks_of_not {i : ℕ} (hi : i < 4 ∨ headSize cl.ncdProto ≤ i) :
    putMarks ncdMgclient cl m netbuf i = netbuf i := by
  by_cases h525 : cl.ncdProto = .NCD_525
  · have hsize : headSize cl.ncdProto = 12 := by
      rw [h525]
      rfl
    have h4 : ∀ b : ℕ → Byte, put b 4 [0x6E, 0x73] i = b i := by
      intro b
      rcases hi with hlo | hhi
      · exact put_of_lt hlo
      · exact put_of_le (by simp; omega)
    have h11 : ∀ b : ℕ → Byte, put b 11 [0x14] i = b i := by
      intro b
      rcases hi with hlo | hhi
      · exact put_of_lt (by omega)
      · exact put_of_le (by simp; omega)
    unfold putMarks
    split_ifs <;> simp only [h4, h11]
  · unfold putMarks MgAck
    simp only [h525, false_and, if_false]

theorem length_bytes (cd : CustomData) : cd.bytes.length = 7 := rfl

/-- Behind its seven bytes the custom data change nothing. -/
theorem putCustom_of_not {i : ℕ} {cd : Option CustomData} (hi : i < 4 ∨ 11 ≤ i ∨ cd = none) :
    putCustom cd netbuf i = netbuf i := by
  cases cd with
  | none => rfl
  | some cd =>
    rcases hi with hlo | hhi | hcd
    · exact put_of_lt hlo
    · exact put_of_le (by rw [length_bytes]; omega)
    · exact absurd hcd (Option.some_ne_none cd)

/-- Before the body. -/
theorem putHeader_id : slice (putHeader ncdMgclient cl m netbuf) 2 2 = bytes16 (m.nextMsgId.getD 0) := by
  have hcell : ∀ k < 2, putHeader ncdMgclient cl m netbuf (2 + k) =
      put netbuf 2 (bytes16 (m.nextMsgId.getD 0)) (2 + k) := by
    intro k hk
    unfold putHeader
    rw [putMarks_of_not (.inl (by omega)), putCustom_of_not (.inl (by omega)),
      putSid_of_not (.inl (by omega)), put_of_lt (by omega)]
  rw [slice_congr hcell]
  exact holds_put

/-- The body stays, but for custom data in a short header. -/
theorem putHeader_body {i : ℕ} (hi : headSize cl.ncdProto ≤ i)
    (hcd : cl.ncdProto = .NCD_524 → 11 ≤ i ∨ m.cd = none) :
    putHeader ncdMgclient cl m netbuf i = netbuf i := by
  have hcustom : i < 4 ∨ 11 ≤ i ∨ m.cd = none := by
    by_cases h524 : cl.ncdProto = .NCD_524
    · exact Or.inr (hcd h524)
    · unfold headSize at hi
      rw [if_neg h524] at hi
      exact Or.inr (Or.inl (by omega))
  have hzero : ∀ b : ℕ → Byte,
      put b 4 (List.replicate (if cl.ncdProto = .NCD_524 then 4 else 8) 0) i = b i := by
    intro b
    apply put_of_le
    rw [List.length_replicate]
    unfold headSize at hi
    split_ifs at hi ⊢ <;> omega
  have h4 : 8 ≤ i := by
    unfold headSize at hi
    split_ifs at hi <;> omega
  unfold putHeader
  rw [putMarks_of_not (.inr hi), putCustom_of_not hcustom, putSid_of_not (.inr hi), hzero,
    put_of_le (by rw [length_bytes16]; omega)]

/-- In a short header the provider id of custom data stands in the first bytes of the body. -/
theorem putHeader_custom {cd : CustomData} (h524 : cl.ncdProto = .NCD_524) (hcd : m.cd = some cd) :
    slice (putHeader ncdMgclient cl m netbuf) 8 3 = cd.provBytes := by
  unfold putHeader
  have hcell : ∀ b : ℕ → Byte, ∀ k < 3, putMarks ncdMgclient cl m b (8 + k) = b (8 + k) := by
    intro b k hk
    apply putMarks_of_not
    right
    rw [h524]
    exact Nat.le_add_right 8 k
  rw [slice_congr (hcell _), hcd]
  have hheld : ∀ b : ℕ → Byte, Holds (putCustom (some cd) b) 4 cd.bytes := fun b => holds_put
  exact (holds_append.mp (hheld _)).2

/-- What stands in the place of the service id. -/
def headerSid (ncdMgclient : Bool) (cl : Client) (m : Call) : BitVec 16 :=
  if MgAck ncdMgclient cl m then 0x6E73
  else match m.cd with
    | some cd => if cl.ncdProto = .NCD_524 then cd.caid else cd.sid
    | none => m.sid

theorem putHeader_sid : slice (putHeader ncdMgclient cl m netbuf) (sidPos cl.ncdProto) 2 =
    bytes16 (headerSid ncdMgclient cl m) := by
  have hadd : ∀ b : ℕ → Byte, slice (if cl.ncdProto = .NCD_525 ∧ m.buffer 0 = MSG_SERVER_2_CLIENT_ADDSID
      then put b 11 [0x14] else b) (sidPos cl.ncdProto) 2 = slice b (sidPos cl.ncdProto) 2 := by
    intro b
    split_ifs with hadd
    · apply slice_congr
      intro i hi
      apply put_of_lt
      unfold sidPos
      split_ifs <;> omega
    · rfl
  unfold putHeader putMarks
  rw [hadd]
  by_cases hack : MgAck ncdMgclient cl m
  · have hsid : headerSid ncdMgclient cl m = 0x6E73 := if_pos hack
    have hpos : sidPos cl.ncdProto = 4 := by
      rw [hack.1]
      rfl
    have hmark : ∀ b : ℕ → Byte, Holds (put (put b 4 [0x6E, 0x73]) 11 [0x14]) 4 [0x6E, 0x73] :=
      fun b => holds_put.put (.inl (by simp))
    rw [if_pos hack, hsid, hpos]
    exact hmark _
  rw [if_neg hack]
  cases hcd : m.cd with
  | some cd =>
    have hheld : ∀ b : ℕ → Byte, Holds (putCustom (some cd) b) 4 cd.bytes := fun b => holds_put
    by_cases h524 : cl.ncdProto = .NCD_524
    · have hsid : headerSid ncdMgclient cl m = cd.caid := by
        unfold headerSid
        rw [if_neg hack, hcd]
        exact if_pos h524
      have hpos : sidPos cl.ncdProto = 6 := if_pos h524
      rw [hsid, hpos]
      exact (holds_append.mp (holds_append.mp (hheld _)).1).2
    · have hsid : headerSid ncdMgclient cl m = cd.sid := by
        unfold headerSid
        rw [if_neg hack, hcd]
        exact if_neg h524
      have hpos : sidPos cl.ncdProto = 4 := if_neg h524
      rw [hsid, hpos]
      exact (holds_append.mp (holds_append.mp (hheld _)).1).1
  | none =>
    have hsid : headerSid ncdMgclient cl m = m.sid := by
      unfold headerSid
      rw [if_neg hack, hcd]
    rw [hsid]
    change slice (putSid cl m.sid _) _ 2 = _
    unfold putSid
    by_cases h0 : m.sid ≠ 0
    · rw [if_pos h0]
      exact holds_put
    · rw [if_neg h0]
      have hzero : ∀ b : ℕ → Byte, ∀ k < 2,
          put b 4 (List.replicate (if cl.ncdProto = .NCD_524 then 4 else 8) 0) (sidPos cl.ncdProto + k) =
            (fun _ => 0 : ℕ → Byte) (0 + k) := by
        intro b k hk
        have hpos : sidPos cl.ncdProto + k = 4 + (sidPos cl.ncdProto - 4 + k) := by
          unfold sidPos
          split_ifs <;> omega
        rw [hpos, put_at, List.getElem_replicate]
        rw [List.length_replicate]
        unfold sidPos
        split_ifs <;> omega
      rw [not_not.mp h0]
      exact (@slice_congr _ _ _ _ (fun _ => 0) 0 (hzero _)).trans rfl

end Header

section Length

/-- The body carries its length. -/
theorem bodyLen_lenField {buffer netbuf : ℕ → Byte} {len o : ℕ} (hlo : 3 ≤ len)
    (hhi : len ≤ CWS_NETMSGSIZE) (h : slice netbuf o len = slice (lenField buffer len) 0 len) :
    bodyLen netbuf o = len := by
  have hcell : ∀ i < len, netbuf (o + i) = lenField buffer len i := by
    intro i hi
    have hget := List.getElem_of_eq h (i := i) (by simpa using hi)
    simpa [slice] using hget
  have h1 : lenField buffer len 1 =
      (buffer 1 &&& 0xF0) ||| (.ofNat 8 ((len - 3) >>> 8) &&& 0x0F) := put_at (o := 1) (i := 0) (by simp)
  have h2 : lenField buffer len 2 = .ofNat 8 (len - 3) &&& 0xFF := put_at (o := 1) (i := 1) (by simp)
  have hnibble : ∀ a c : Byte, ((a &&& 0xF0) ||| (c &&& 0x0F)) &&& 0x0F = c &&& 0x0F := by
    intro a c
    ext k hk
    interval_cases k <;> simp
  have hlow : ∀ x : ℕ, (BitVec.ofNat 8 x &&& 0xFF).toNat = x % 2 ^ 8 := by
    intro x
    rw [BitVec.toNat_and, BitVec.toNat_ofNat]
    change x % 2 ^ 8 &&& 2 ^ 8 - 1 = _
    rw [Nat.and_two_pow_sub_one_eq_mod, Nat.mod_mod]
  have hhigh : ∀ x : ℕ, (BitVec.ofNat 8 x &&& 0x0F).toNat = x % 2 ^ 8 % 2 ^ 4 := by
    intro x
    rw [BitVec.toNat_and, BitVec.toNat_ofNat]
    change x % 2 ^ 8 &&& 2 ^ 4 - 1 = _
    rw [Nat.and_two_pow_sub_one_eq_mod]
  unfold bodyLen CWS_NETMSGSIZE at *
  rw [hcell 1 (by omega), hcell 2 (by omega), h1, h2, hnibble, hlow, hhigh,
    ← Nat.shiftLeft_add_eq_or_of_lt (Nat.mod_lt _ (by omega)), Nat.shiftLeft_eq,
    Nat.shiftRight_eq_div_pow]
  omega

end Length

section Send

variable {rand : ℕ → BitVec 32} {ncdMgclient : Bool} {netbuf : ℕ → Byte} {cl : Client} {handle : Bool}
  {deskey : Option DesKey} {m : Call}

/-- The frame before it is encrypted. -/
def plain (ncdMgclient : Bool) (netbuf : ℕ → Byte) (cl : Client) (m : Call) : ℕ → Byte :=
  frameLen (putHeader ncdMgclient cl m
    (put netbuf (headSize cl.ncdProto) (slice (lenField m.buffer m.len) 0 m.len)))
    (m.len + headSize cl.ncdProto)

/-- A message of a length that fits is sent if it is encrypted. -/
theorem networkMessageSend_eq (hlo : 3 ≤ m.len) (hmax : m.len + headSize cl.ncdProto ≤ CWS_NETMSGSIZE) :
    networkMessageSend rand ncdMgclient netbuf cl true deskey m =
      some ⟨m.nextMsgId, lenField m.buffer m.len,
        (ncDesEncrypt rand (plain ncdMgclient netbuf cl m) (m.len + headSize cl.ncdProto) deskey).map
          fun (sent, l) => slice (frameLen sent l) 0 l⟩ := by
  have href : ¬ (m.len < 3 ∨ m.len + headSize cl.ncdProto > CWS_NETMSGSIZE ∨ true = false) := by
    rw [not_or, not_or]
    exact ⟨by omega, by omega, Bool.noConfusion⟩
  have hput : ∀ bs : List Byte, bs.length = m.len →
      putWithin CWS_NETMSGSIZE netbuf (headSize cl.ncdProto) bs =
        some (put netbuf (headSize cl.ncdProto) bs) := by
    intro bs hbs
    apply putWithin_of_le
    omega
  unfold networkMessageSend
  rw [if_neg href]
  simp only [hput _ length_slice, Option.bind_eq_bind, Option.bind_some]
  unfold plain
  generalize henc : ncDesEncrypt rand _ (m.len + headSize cl.ncdProto) deskey = sealed
  cases sealed with
  | none => rfl
  | some p =>
    obtain ⟨sent, l⟩ := p
    have hl := (ncDesEncrypt_le (by omega) henc).2
    dsimp only
    rw [sliceWithin_of_le (by omega)]
    rfl

/-- Sending stays inside the buffer; what is sent is the encrypted frame. -/
theorem networkMessageSend_spec :
    ∃ s, networkMessageSend rand ncdMgclient netbuf cl handle deskey m = some s ∧
      ∀ wire, s.wire = some wire → 3 ≤ m.len ∧ m.len + headSize cl.ncdProto ≤ CWS_NETMSGSIZE ∧
        s.netMsgId = m.nextMsgId ∧ s.buffer = lenField m.buffer m.len ∧
        ∃ sent l, ncDesEncrypt rand (plain ncdMgclient netbuf cl m) (m.len + headSize cl.ncdProto)
          deskey = some (sent, l) ∧ wire = slice (frameLen sent l) 0 l := by
  by_cases href : m.len < 3 ∨ m.len + headSize cl.ncdProto > CWS_NETMSGSIZE ∨ handle = false
  · unfold networkMessageSend
    rw [if_pos href]
    exact ⟨_, rfl, fun wire h => absurd h (Option.some_ne_none _).symm⟩
  · rw [not_or, not_or, Bool.not_eq_false] at href
    obtain ⟨hlo, hmax, rfl⟩ := href
    refine ⟨_, networkMessageSend_eq (by omega) (by omega), fun wire h => ?_⟩
    refine ⟨by omega, by omega, rfl, rfl, ?_⟩
    obtain ⟨⟨sent, l⟩, henc, hwire⟩ := Option.map_eq_some_iff.mp h
    exact ⟨sent, l, henc, hwire.symm⟩

end Send

section Receive

variable {netbuf : ℕ → Byte} {cl : Client} {netMsgId : Option (BitVec 16)} {buffer : ℕ → Byte}
  {len : ℕ} {rest : List Byte} {commType : CommType}

def refused (cl : Client) (netMsgId : Option (BitVec 16)) (buffer : ℕ → Byte) (rest : List Byte) :
    Received :=
  ⟨-1, cl, netMsgId, buffer, rest, false⟩

/-- What is taken out of a frame. -/
def taken (cl : Client) (netMsgId : Option (BitVec 16)) (buffer netbuf : ℕ → Byte) (rest : List Byte)
    (commType : CommType) : Received :=
  let o := headSize cl.ncdProto
  { rc := bodyLen netbuf o + 2
    cl := { cl with ncdHeader := put cl.ncdHeader 0 (slice netbuf 0 o) }
    netMsgId := if commType = .COMMTYPE_SERVER then
        netMsgId.map fun _ => (netbuf 2).setWidth 16 <<< 8 ||| (netbuf 3).setWidth 16
      else netMsgId
    buffer := put (put buffer 0
      (slice netbuf (if commType = .COMMTYPE_SERVER then sidPos cl.ncdProto else 2) 2)) 2
      (slice netbuf o (bodyLen netbuf o))
    rest := rest
    disconnected := false }

/-- The body of the frame is behind the two id bytes. -/
theorem taken_body (commType : CommType) : slice (taken cl netMsgId buffer netbuf rest commType).buffer 2
    (bodyLen netbuf (headSize cl.ncdProto)) =
      slice netbuf (headSize cl.ncdProto) (bodyLen netbuf (headSize cl.ncdProto)) :=
  holds_put.slice_eq length_slice.symm

/-- In front of the body a server has the service id, a client the message id. -/
theorem taken_id (commType : CommType) : slice (taken cl netMsgId buffer netbuf rest commType).buffer 0 2 =
    slice netbuf (if commType = .COMMTYPE_SERVER then sidPos cl.ncdProto else 2) 2 :=
  (holds_put.put (.inl (by simp))).slice_eq length_slice.symm

theorem read_msgid {v : BitVec 16} (h : slice netbuf 2 2 = bytes16 v) :
    (netbuf 2).setWidth 16 <<< 8 ||| (netbuf 3).setWidth 16 = v := by
  rw [slice_succ, slice_succ, slice_zero] at h
  obtain ⟨hhi, hlow⟩ := List.cons.inj h
  rw [hhi, (List.cons.inj hlow).1]
  exact msgid_bytes16 _

theorem detect_ne_auto {ncdProto ncdProto' : NcdProto} (h : detect netbuf len ncdProto = some ncdProto') :
    ncdProto' ≠ .NCD_AUTO := by
  cases ncdProto with
  | NCD_AUTO =>
    unfold detect at h
    dsimp only at h
    split_ifs at h
    · cases h
      exact NcdProto.noConfusion
    · cases h
      exact NcdProto.noConfusion
  | NCD_524 =>
    cases h
    exact NcdProto.noConfusion
  | NCD_525 =>
    cases h
    exact NcdProto.noConfusion

/-- Taking a frame apart stays inside the buffers. -/
theorem takeFrame_eq (hlen : len ≤ CWS_NETMSGSIZE) :
    takeFrame cl netMsgId buffer netbuf len rest commType =
      some (if len < 11 then refused cl netMsgId buffer rest
        else match detect netbuf len cl.ncdProto with
          | none => refused cl netMsgId buffer rest
          | some ncdProto =>
            if len < bodyLen netbuf (headSize ncdProto) + headSize ncdProto then
              refused { cl with ncdProto := ncdProto } netMsgId buffer rest
            else taken { cl with ncdProto := ncdProto } netMsgId buffer netbuf rest commType) := by
  unfold takeFrame
  by_cases h11 : len < 11
  · rw [if_pos h11, if_pos h11]
    rfl
  rw [if_neg h11, if_neg h11]
  cases hdet : detect netbuf len cl.ncdProto with
  | none => rfl
  | some ncdProto =>
    have hauto := detect_ne_auto hdet
    have ho : (if ncdProto = .NCD_525 then 12 else 8) = headSize ncdProto := by
      cases ncdProto with
      | NCD_AUTO => exact absurd rfl hauto
      | NCD_524 => rfl
      | NCD_525 => rfl
    have hsid : (if ncdProto = .NCD_525 then 4 else 6) = sidPos ncdProto := by
      cases ncdProto with
      | NCD_AUTO => exact absurd rfl hauto
      | NCD_524 => rfl
      | NCD_525 => rfl
    have h8 : 8 ≤ headSize ncdProto := by
      unfold headSize
      split_ifs <;> omega
    dsimp only
    rw [ho, hsid]
    by_cases hlong : len < bodyLen netbuf (headSize ncdProto) + headSize ncdProto
    · rw [if_pos hlong, if_pos hlong]
      rfl
    rw [if_neg hlong, if_neg hlong, sliceWithin_of_le (by omega)]
    have hput : ∀ b : ℕ → Byte, putWithin CWS_NETMSGSIZE b 2
        (slice netbuf (headSize ncdProto) (bodyLen netbuf (headSize ncdProto))) =
        some (put b 2 (slice netbuf (headSize ncdProto) (bodyLen netbuf (headSize ncdProto)))) := by
      intro b
      apply putWithin_of_le
      rw [length_slice]
      omega
    cases commType with
    | COMMTYPE_CLIENT =>
      simp only [hput, Option.bind_eq_bind, Option.bind_some]
      rfl
    | COMMTYPE_SERVER =>
      simp only [hput, Option.bind_eq_bind, Option.bind_some]
      rfl

variable {handle : Bool} {deskey : Option DesKey} {arrived : List Byte}

/-- Receiving stays inside the buffers, whatever comes in. -/
theorem networkMessageReceive_total : ∃ r,
    networkMessageReceive netbuf cl handle netMsgId buffer arrived deskey commType = some r := by
  unfold networkMessageReceive
  by_cases hhandle : handle = false
  · rw [if_pos hhandle]
    exact ⟨_, rfl⟩
  have htwo : (arrived.take 2).length ≤ 2 := List.length_take_le 2 arrived
  have hput := @putWithin_of_le Byte netbuf 0 _ CWS_NETMSGSIZE
    (show 0 + (arrived.take 2).length ≤ 1024 by omega)
  rw [if_neg hhandle]
  simp only [hput, Option.bind_eq_bind, Option.bind_some]
  generalize hs : (put netbuf 0 (arrived.take 2) 0).toNat <<< 8 |||
    (put netbuf 0 (arrived.take 2) 1).toNat = size
  by_cases h0 : (arrived.take 2).length = 0
  · rw [if_pos h0]
    exact ⟨_, rfl⟩
  rw [if_neg h0]
  by_cases h2 : (arrived.take 2).length ≠ 2
  · rw [if_pos h2]
    exact ⟨_, rfl⟩
  rw [if_neg h2]
  by_cases hsize : size > CWS_NETMSGSIZE - 2
  · rw [if_pos hsize]
    exact ⟨_, rfl⟩
  rw [if_neg hsize]
  have hgot : ((arrived.drop 2).take size).length ≤ size := List.length_take_le _ _
  unfold CWS_NETMSGSIZE at hsize
  rw [putWithin_of_le (by unfold CWS_NETMSGSIZE; omega)]
  simp only [Option.bind_some]
  split_ifs
  · exact ⟨_, rfl⟩
  · exact ⟨_, rfl⟩
  · cases hdec : ncDesDecrypt (put (put netbuf 0 (arrived.take 2)) 2 ((arrived.drop 2).take size))
        (size + 2) deskey with
    | none => exact ⟨_, rfl⟩
    | some p =>
      obtain ⟨received, len⟩ := p
      have hlen := ncDesDecrypt_le hdec
      exact ⟨_, takeFrame_eq (by unfold CWS_NETMSGSIZE; omega)⟩

/-- The bytes of a frame are read as a whole. -/
theorem networkMessageReceive_wire {sent : ℕ → Byte} {l : ℕ} (hlo : 3 ≤ l) (hhi : l ≤ CWS_NETMSGSIZE) :
    ∃ recv : ℕ → Byte, (∀ i, 2 ≤ i → i < l → recv i = sent i) ∧
      networkMessageReceive netbuf cl true netMsgId buffer (slice (frameLen sent l) 0 l ++ rest) deskey
        commType = match ncDesDecrypt recv l deskey with
          | none => some (refused cl netMsgId buffer rest)
          | some (netbuf, len) => takeFrame cl netMsgId buffer netbuf len rest commType := by
  obtain ⟨size, rfl⟩ : ∃ size, l = 2 + size := ⟨l - 2, by omega⟩
  unfold CWS_NETMSGSIZE at hhi
  set head : List Byte := [.ofNat 8 (size >>> 8), .ofNat 8 size &&& 0xFF] with hhead
  have hframe : frameLen sent (2 + size) = put sent 0 head := by
    unfold frameLen
    rw [Nat.add_sub_cancel_left]
  have hwire : slice (frameLen sent (2 + size)) 0 (2 + size) ++ rest =
      head ++ (slice sent 2 size ++ rest) := by
    have hheld : slice (put sent 0 head) 0 2 = head := holds_put
    have hbehind : slice (put sent 0 head) (0 + 2) size = slice sent 2 size := by
      apply slice_congr
      intro i hi
      exact put_of_le (by simp [hhead])
    rw [slice_add, hframe, hheld, hbehind, List.append_assoc]
  have htake : (head ++ (slice sent 2 size ++ rest)).take 2 = head := rfl
  have hdrop : (head ++ (slice sent 2 size ++ rest)).drop 2 = slice sent 2 size ++ rest := rfl
  have htake' : (slice sent 2 size ++ rest).take size = slice sent 2 size := by
    rw [List.take_append_of_le_length (by simp), List.take_of_length_le (by simp)]
  have hdrop' : (slice sent 2 size ++ rest).drop size = rest := by
    rw [List.drop_append_of_le_length (by simp), List.drop_of_length_le (by simp), List.nil_append]
  have hsize : (put netbuf 0 head 0).toNat <<< 8 ||| (put netbuf 0 head 1).toNat = size := by
    have h0 : put netbuf 0 head 0 = .ofNat 8 (size >>> 8) := put_at (o := 0) (i := 0) (by simp [hhead])
    have h1 : put netbuf 0 head 1 = .ofNat 8 size := by
      have hff : ∀ b : Byte, b &&& 0xFF = b := fun b => BitVec.and_allOnes
      have hcell : put netbuf 0 head 1 = .ofNat 8 size &&& 0xFF :=
        put_at (o := 0) (i := 1) (by simp [hhead])
      rw [hcell, hff]
    rw [h0, h1]
    exact Util.size_two (by omega)
  refine ⟨put (put netbuf 0 head) 2 (slice sent 2 size), ?_, ?_⟩
  · intro i hi hl
    obtain ⟨k, rfl⟩ := Nat.exists_eq_add_of_le hi
    rw [put_at (by rw [length_slice]; omega)]
    simp [slice]
  · have h0 : ¬ head.length = 0 := by simp [hhead]
    have h2 : ¬ head.length ≠ 2 := by simp [hhead]
    have hfit : ¬ size > CWS_NETMSGSIZE - 2 := by
      unfold CWS_NETMSGSIZE
      omega
    have hbody : ¬ (slice sent 2 size).length = 0 := by
      rw [length_slice]
      omega
    have hall : ¬ (slice sent 2 size).length ≠ size := by
      rw [length_slice]
      exact fun h => h rfl
    rw [hwire]
    unfold networkMessageReceive
    have hput := @putWithin_of_le Byte netbuf 0 head CWS_NETMSGSIZE (show 0 + 2 ≤ 1024 by omega)
    have hput' : ∀ b : ℕ → Byte, putWithin CWS_NETMSGSIZE b 2 (slice sent 2 size) =
        some (put b 2 (slice sent 2 size)) := by
      intro b
      apply putWithin_of_le
      rw [length_slice]
      exact hhi
    rw [if_neg Bool.noConfusion]
    simp only [htake, hdrop, hput, Option.bind_eq_bind, Option.bind_some]
    rw [if_neg h0, if_neg h2, hsize, if_neg hfit]
    simp only [htake', hdrop', hput', Option.bind_some]
    rw [if_neg hbody, if_neg hall, Nat.add_comm size 2]
    rfl

end Receive

section Delivery

variable {ncdMgclient : Bool} {cl peer : Client} {deskey : Option DesKey} {m : Call}

private theorem plain_cell {netbuf : ℕ → Byte} {i : ℕ} (hi : 2 ≤ i) :
    plain ncdMgclient netbuf cl m i = putHeader ncdMgclient cl m
      (put netbuf (headSize cl.ncdProto) (slice (lenField m.buffer m.len) 0 m.len)) i :=
  put_of_le (by simpa using hi)

private theorem plain_id {netbuf : ℕ → Byte} :
    slice (plain ncdMgclient netbuf cl m) 2 2 = bytes16 (m.nextMsgId.getD 0) := by
  rw [slice_congr fun i _ => plain_cell (Nat.le_add_right 2 i)]
  exact putHeader_id

private theorem plain_sid {netbuf : ℕ → Byte} :
    slice (plain ncdMgclient netbuf cl m) (sidPos cl.ncdProto) 2 =
      bytes16 (headerSid ncdMgclient cl m) := by
  have hpos : 2 ≤ sidPos cl.ncdProto := by
    unfold sidPos
    split_ifs <;> omega
  rw [slice_congr fun i _ => plain_cell (by omega)]
  exact putHeader_sid

/-- The body is sent as it is, unless custom data reach into it. -/
private theorem plain_body {netbuf : ℕ → Byte} (hlen : 3 ≤ m.len) :
    slice (plain ncdMgclient netbuf cl m) (headSize cl.ncdProto) m.len =
        slice (lenField m.buffer m.len) 0 m.len ↔
      ∀ cd ∈ m.cd, cl.ncdProto = .NCD_524 → slice (lenField m.buffer m.len) 0 3 = cd.provBytes := by
  have h8 : 8 ≤ headSize cl.ncdProto := by
    unfold headSize
    split_ifs <;> omega
  have hover : ∀ cd ∈ m.cd, cl.ncdProto = .NCD_524 →
      slice (plain ncdMgclient netbuf cl m) (headSize cl.ncdProto) 3 = cd.provBytes := by
    intro cd hcd h524
    have hsize : headSize cl.ncdProto = 8 := if_pos h524
    rw [slice_congr fun i _ => plain_cell (by omega), hsize]
    exact putHeader_custom h524 hcd
  constructor
  · intro h cd hcd h524
    rw [slice_eq_slice] at h
    rw [← hover cd hcd h524]
    exact slice_congr fun i hi => (h i (by omega)).symm
  · intro h
    rw [slice_eq_slice]
    intro i hi
    by_cases hin : cl.ncdProto = .NCD_524 ∧ m.cd ≠ none ∧ i < 3
    · obtain ⟨h524, hcd, hi3⟩ := hin
      obtain ⟨cd, hcd⟩ := Option.ne_none_iff_exists'.mp hcd
      have hsame := (hover cd hcd h524).trans (h cd hcd h524).symm
      exact slice_eq_slice.mp hsame i hi3
    · rw [plain_cell (by omega), putHeader_body (Nat.le_add_right _ i)]
      · rw [put_at (by rwa [length_slice])]
        simp [slice]
      · intro h524
        have hsize : headSize cl.ncdProto = 8 := if_pos h524
        rw [hsize]
        by_cases hcd : m.cd = none
        · exact Or.inr hcd
        · left
          by_contra hlt
          exact hin ⟨h524, hcd, by omega⟩

/-- Only custom data in a short header put something else in the place of the service id. -/
private theorem headerSid_eq_iff : headerSid ncdMgclient cl m = serviceId ncdMgclient cl m ↔
    ∀ cd ∈ m.cd, cl.ncdProto = .NCD_524 → cd.caid = cd.sid := by
  unfold headerSid serviceId
  by_cases hack : MgAck ncdMgclient cl m
  · rw [if_pos hack, if_pos hack]
    refine iff_of_true rfl fun cd _ h524 => ?_
    have h525 := hack.1
    rw [h524] at h525
    exact NcdProto.noConfusion h525
  rw [if_neg hack, if_neg hack]
  cases hcd : m.cd with
  | none => exact iff_of_true rfl fun cd h => absurd h (Option.not_mem_none cd)
  | some cd =>
    dsimp only
    constructor
    · intro h cd' hcd' h524
      rw [if_pos h524] at h
      rw [← Option.some.inj hcd']
      exact h
    · intro h
      by_cases h524 : cl.ncdProto = .NCD_524
      · rw [if_pos h524]
        exact h cd rfl h524
      · rw [if_neg h524]

/-- A receiver that has the frame of a message in its memory. -/
private theorem delivered_iff (hs : Session cl peer deskey) {netbuf received : ℕ → Byte} {len : ℕ}
    (hlo : 3 ≤ m.len) (hmax : len ≤ CWS_NETMSGSIZE) (hlen : m.len + headSize cl.ncdProto ≤ len)
    (hcells : ∀ i, 2 ≤ i → i < m.len + headSize cl.ncdProto →
      received i = plain ncdMgclient netbuf cl m i)
    {s : Sent} (hid : s.netMsgId = m.nextMsgId) (hbuf : s.buffer = lenField m.buffer m.len)
    (netMsgId : Option (BitVec 16)) (buffer : ℕ → Byte) (rest : List Byte) :
    (∃ r, takeFrame peer netMsgId buffer received len rest m.commType.peer = some r ∧
      Delivered ncdMgclient cl m s netMsgId r ∧ r.rest = rest) ↔ Spares cl m := by
  have h8 : 8 ≤ headSize cl.ncdProto ∧ sidPos cl.ncdProto + 2 ≤ headSize cl.ncdProto ∧
      2 ≤ sidPos cl.ncdProto := by
    unfold headSize sidPos
    split_ifs <;> omega
  have hbody : slice received (headSize cl.ncdProto) m.len =
      slice (plain ncdMgclient netbuf cl m) (headSize cl.ncdProto) m.len :=
    slice_congr fun i hi => hcells _ (by omega) (by omega)
  have hidCells : slice received 2 2 = bytes16 (s.netMsgId.getD 0) := by
    rw [slice_congr fun i hi => hcells (2 + i) (by omega) (by omega), hid]
    exact plain_id
  have hsidCells : slice received (sidPos cl.ncdProto) 2 = bytes16 (headerSid ncdMgclient cl m) := by
    rw [slice_congr fun i hi => hcells (sidPos cl.ncdProto + i) (by omega) (by omega)]
    exact plain_sid
  have hdet : detect received len peer.ncdProto = some cl.ncdProto := by
    rw [hs.same]
    cases h : cl.ncdProto with
    | NCD_AUTO => exact absurd h hs.proto
    | NCD_524 => rfl
    | NCD_525 => rfl
  have hpeer : ({ peer with ncdProto := cl.ncdProto } : Client) = peer := by rw [← hs.same]
  have hsize : headSize peer.ncdProto = headSize cl.ncdProto := by rw [hs.same]
  have hpos : sidPos peer.ncdProto = sidPos cl.ncdProto := by rw [hs.same]
  have htaken (hN : bodyLen received (headSize cl.ncdProto) = m.len) (commType : CommType) :
      slice (taken peer netMsgId buffer received rest commType).buffer 2 m.len =
        slice received (headSize cl.ncdProto) m.len := by
    have hbody := @taken_body received peer netMsgId buffer rest commType
    rwa [hsize, hN] at hbody
  have hroom : bodyLen received (headSize cl.ncdProto) = m.len →
      ¬ len < bodyLen received (headSize cl.ncdProto) + headSize cl.ncdProto := by omega
  rw [takeFrame_eq hmax, if_neg (by omega), hdet]
  dsimp only
  rw [hpeer]
  constructor
  · rintro ⟨r, hr, ⟨hrc, hsame, hids⟩, -⟩
    by_cases hlong : len < bodyLen received (headSize cl.ncdProto) + headSize cl.ncdProto
    · rw [if_pos hlong] at hr
      rw [← Option.some.inj hr] at hrc
      change (-1 : ℤ) = m.len + 2 at hrc
      omega
    rw [if_neg hlong] at hr
    have hr := (Option.some.inj hr).symm
    subst hr
    change ((bodyLen received (headSize peer.ncdProto) : ℕ) : ℤ) + 2 = m.len + 2 at hrc
    rw [hsize] at hrc
    have hN : bodyLen received (headSize cl.ncdProto) = m.len := by omega
    rw [htaken hN m.commType.peer, hbody, hbuf, plain_body hlo] at hsame
    intro cd hcd h524
    refine ⟨hsame cd hcd h524, fun hct => ?_⟩
    rw [hct] at hids
    have hboth := hids.1
    change slice (taken peer netMsgId buffer received rest .COMMTYPE_SERVER).buffer 0 2 = _ at hboth
    rw [taken_id, if_pos rfl, hpos, hsidCells, bytes16_inj, headerSid_eq_iff] at hboth
    exact hboth cd hcd h524
  · intro hsp
    have hsame : slice (plain ncdMgclient netbuf cl m) (headSize cl.ncdProto) m.len =
        slice (lenField m.buffer m.len) 0 m.len :=
      (plain_body hlo).mpr fun cd hcd h524 => (hsp cd hcd h524).1
    have hN : bodyLen received (headSize cl.ncdProto) = m.len :=
      bodyLen_lenField hlo (by omega) (hbody.trans hsame)
    rw [if_neg (hroom hN)]
    refine ⟨_, rfl, ⟨?_, ?_, ?_⟩, rfl⟩
    · unfold taken
      simp only [hsize, hN]
    · rw [hbuf, ← hsame, ← hbody]
      exact htaken hN m.commType.peer
    · cases hct : m.commType with
      | COMMTYPE_CLIENT =>
        have hsid : headerSid ncdMgclient cl m = serviceId ncdMgclient cl m :=
          headerSid_eq_iff.mpr fun cd hcd h524 => (hsp cd hcd h524).2 hct
        refine ⟨?_, ?_⟩
        · change slice (taken peer netMsgId buffer received rest .COMMTYPE_SERVER).buffer 0 2 = _
          rw [taken_id, if_pos rfl, hpos, hsidCells, hsid]
        · have hread := read_msgid hidCells
          change netMsgId.map (fun _ => (received 2).setWidth 16 <<< 8 ||| (received 3).setWidth 16) = _
          rw [hread]
      | COMMTYPE_SERVER =>
        change slice (taken peer netMsgId buffer received rest .COMMTYPE_CLIENT).buffer 0 2 = _
        rw [taken_id, if_neg (by simp), hidCells]

/-- What a peer in a session makes of the bytes that were sent. -/
private theorem receive_iff (hs : Session cl peer deskey) {rand : ℕ → BitVec 32} {netbuf sent : ℕ → Byte}
    {l : ℕ} (hlo : 3 ≤ m.len) (hmax : m.len + headSize cl.ncdProto ≤ CWS_NETMSGSIZE)
    (henc : ncDesEncrypt rand (plain ncdMgclient netbuf cl m) (m.len + headSize cl.ncdProto) deskey =
      some (sent, l))
    {s : Sent} (hid : s.netMsgId = m.nextMsgId) (hbuf : s.buffer = lenField m.buffer m.len)
    (netbuf' : ℕ → Byte) (netMsgId : Option (BitVec 16)) (buffer : ℕ → Byte) (rest : List Byte) :
    (∃ r, networkMessageReceive netbuf' peer true netMsgId buffer
        (slice (frameLen sent l) 0 l ++ rest) deskey m.commType.peer = some r ∧
      Delivered ncdMgclient cl m s netMsgId r ∧ r.rest = rest) ↔ Spares cl m := by
  obtain ⟨hle, hfit⟩ := ncDesEncrypt_le hmax henc
  obtain ⟨recv, hrecv, hwire⟩ := @networkMessageReceive_wire netbuf' peer netMsgId buffer rest
    m.commType.peer deskey sent l (by omega) hfit
  obtain ⟨received, l', hdec, hlen, hcells⟩ :=
    ncDesDecrypt_of_ncDesEncrypt hs.key (by omega) henc hrecv
  have hl' := ncDesDecrypt_le hdec
  rw [hwire, hdec]
  exact delivered_iff hs hlo (by omega) hlen hcells hid hbuf netMsgId buffer rest

/-- Neither side leaves its buffers, and a message that `network_message_send` accepts is returned by
`network_message_receive` on the other side exactly if its custom data spare the body. -/
theorem delivered_iff_spares (hs : Session cl peer deskey) (rand : ℕ → BitVec 32) (ncdMgclient : Bool)
    (netbuf : ℕ → Byte) (handle : Bool) (m : Call) :
    (∃ s, networkMessageSend rand ncdMgclient netbuf cl handle deskey m = some s ∧
      ∀ wire, s.wire = some wire →
        ((∀ netbuf' netMsgId buffer rest, ∃ r,
            networkMessageReceive netbuf' peer true netMsgId buffer (wire ++ rest) deskey
              m.commType.peer = some r ∧
            Delivered ncdMgclient cl m s netMsgId r ∧ r.rest = rest) ↔ Spares cl m)) ∧
      ∀ netbuf' netMsgId buffer arrived commType, ∃ r,
        networkMessageReceive netbuf' peer true netMsgId buffer arrived deskey commType = some r := by
  refine ⟨?_, fun _ _ _ _ _ => networkMessageReceive_total⟩
  obtain ⟨s, hsend, hspec⟩ := @networkMessageSend_spec rand ncdMgclient netbuf cl handle deskey m
  refine ⟨s, hsend, fun wire hw => ?_⟩
  obtain ⟨hlo, hmax, hid, hbuf, sent, l, henc, rfl⟩ := hspec wire hw
  constructor
  · intro h
    exact (receive_iff hs hlo hmax henc hid hbuf _ _ _ _).mp (h (fun _ => 0) none (fun _ => 0) [])
  · intro h netbuf' netMsgId buffer rest
    exact (receive_iff hs hlo hmax henc hid hbuf netbuf' netMsgId buffer rest).mpr h

private theorem demoInverts : ∀ key ∈ some (ncDesLoginKeyGet (.replicate 14 1) [2, 3]), key.Inverts := by
  intro key hkey
  rw [← Option.some.inj hkey]
  exact inverts_ncDesLoginKeyGet _ _

/-- A request of a mgcamd client with a long header. -/
theorem delivered_iff_spares_request :
    ∃ s, networkMessageSend (fun _ => 0) false (fun _ => 0) ⟨.NCD_525, fun _ => 0, some ⟨true, 0⟩⟩ true
        (some (ncDesLoginKeyGet (.replicate 14 1) [2, 3]))
        ⟨some 7, fun _ => 0x80, 100, .COMMTYPE_CLIENT, 0x1234, none⟩ = some s ∧
      ∀ wire, s.wire = some wire → ∀ netbuf' netMsgId buffer rest, ∃ r,
        networkMessageReceive netbuf' ⟨.NCD_525, fun _ => 0, none⟩ true netMsgId buffer (wire ++ rest)
          (some (ncDesLoginKeyGet (.replicate 14 1) [2, 3])) .COMMTYPE_SERVER = some r ∧
        Delivered false ⟨.NCD_525, fun _ => 0, some ⟨true, 0⟩⟩
          ⟨some 7, fun _ => 0x80, 100, .COMMTYPE_CLIENT, 0x1234, none⟩ s netMsgId r ∧ r.rest = rest := by
  have hs : Session ⟨.NCD_525, fun _ => 0, some ⟨true, 0⟩⟩ ⟨.NCD_525, fun _ => 0, none⟩
      (some (ncDesLoginKeyGet (.replicate 14 1) [2, 3])) :=
    ⟨NcdProto.noConfusion, rfl, demoInverts⟩
  obtain ⟨⟨s, hsend, hiff⟩, -⟩ := delivered_iff_spares hs (fun _ => 0) false (fun _ => 0) true
    ⟨some 7, fun _ => 0x80, 100, .COMMTYPE_CLIENT, 0x1234, none⟩
  refine ⟨s, hsend, fun wire hwire => (hiff wire hwire).mpr ?_⟩
  exact fun cd hcd => absurd hcd (Option.not_mem_none cd)

/-- Card data for a client with a short header are sent, but not as they are. -/
theorem cardData_not_delivered :
    ∃ s wire, networkMessageSend (fun _ => 0) false (fun _ => 0) ⟨.NCD_524, fun _ => 0, none⟩ true
        (some (ncDesLoginKeyGet (.replicate 14 1) [2, 3]))
        ⟨some 0, fun i => if i = 0 then MSG_CARD_DATA else 0, 15, .COMMTYPE_SERVER, 0,
          some ⟨0, 0, 0⟩⟩ = some s ∧ s.wire = some wire ∧
      ¬ ∀ netbuf' netMsgId buffer rest, ∃ r,
        networkMessageReceive netbuf' ⟨.NCD_524, fun _ => 0, none⟩ true netMsgId buffer (wire ++ rest)
          (some (ncDesLoginKeyGet (.replicate 14 1) [2, 3])) .COMMTYPE_CLIENT = some r ∧
        Delivered false ⟨.NCD_524, fun _ => 0, none⟩
          ⟨some 0, fun i => if i = 0 then MSG_CARD_DATA else 0, 15, .COMMTYPE_SERVER, 0,
            some ⟨0, 0, 0⟩⟩ s netMsgId r ∧ r.rest = rest := by
  have hs : Session ⟨.NCD_524, fun _ => 0, none⟩ ⟨.NCD_524, fun _ => 0, none⟩
      (some (ncDesLoginKeyGet (.replicate 14 1) [2, 3])) :=
    ⟨NcdProto.noConfusion, rfl, demoInverts⟩
  generalize hm : (⟨some 0, fun i => if i = 0 then MSG_CARD_DATA else 0, 15, .COMMTYPE_SERVER, 0,
    some ⟨0, 0, 0⟩⟩ : Call) = m
  have hlen : m.len = 15 := by rw [← hm]
  obtain ⟨sent, l, henc⟩ : ∃ sent l, ncDesEncrypt (fun _ => 0)
      (plain false (fun _ => 0) ⟨.NCD_524, fun _ => 0, none⟩ m) (m.len + headSize .NCD_524)
      (some (ncDesLoginKeyGet (.replicate 14 1) [2, 3])) = some (sent, l) := by
    rw [hlen]
    unfold ncDesEncrypt
    dsimp only
    rw [if_neg (by decide)]
    exact ⟨_, _, rfl⟩
  have hsend := @networkMessageSend_eq (fun _ => 0) false (fun _ => 0) ⟨.NCD_524, fun _ => 0, none⟩
    (some (ncDesLoginKeyGet (.replicate 14 1) [2, 3])) m (by omega) (by rw [hlen]; decide)
  refine ⟨_, slice (frameLen sent l) 0 l, hsend, by rw [henc]; rfl, fun h => ?_⟩
  have hct : m.commType.peer = .COMMTYPE_CLIENT := by rw [← hm]; rfl
  have hgot := h (fun _ => 0) none (fun _ => 0) []
  rw [← hct, receive_iff hs (by omega) (by rw [hlen]; decide) henc rfl rfl] at hgot
  have hover := (hgot ⟨0, 0, 0⟩ (by rw [← hm]; rfl) rfl).1
  rw [← hm] at hover
  exact absurd hover (by decide)

end Delivery

end NCam.Newcamd
