import NCam.Cccam.Link

/-! The stream states of the two sides of a CCcam connection stay in step, and every message is decoded to
the bytes sent. -/
namespace NCam.Cccam.Link

open NCam.Lib NCam.Util

section Defs

/-- A message with its header. -/
def frame (flag code : Byte) (buf : List Byte) : List Byte :=
  flag :: code :: BitVec.ofNat 8 (buf.length >>> 8) :: BitVec.ofNat 8 buf.length :: buf

/-- The length fits into the header and the message into the receiver's buffer. -/
def Fits (maxlen : ℕ) (buf : List Byte) : Prop := buf.length ≤ maxlen ∧ buf.length < 65536

instance (maxlen : ℕ) (buf : List Byte) : Decidable (Fits maxlen buf) :=
  inferInstanceAs (Decidable (_ ∧ _))

/-- The bytes of an answer before `cc_cmd_send`. -/
def Answer.buf (nodeId : NodeId) (answer : Answer) : List Byte :=
  if answer.extendedMode then answer.cw.toList
  else ccCwCrypt nodeId answer.cccamId answer.cw.toList

/-- The step of the sender after a message. -/
def Sent.after (nodeId : NodeId) (m : Sent) (block : CcCryptBlock) : CcCryptBlock :=
  match m.answer with
  | some answer => if answer.extendedMode then block else cipher.run block (answer.buf nodeId)
  | none => block

def Sent.packet (nodeId : NodeId) (m : Sent) : Packet CcCryptBlock Byte := ⟨m.msg, m.after nodeId⟩

/-- What the receiver makes of a message. -/
def Sent.decoded (m : Sent) : Received := ⟨m.msg, m.answer.map (·.cw.toList)⟩

/-- The messages of the server: control words with a balanced mask, and others. -/
inductive ServerMessage (nodeId : NodeId) : Sent → Prop
  | plain {flag code : Byte} {buf : List Byte} (hcw : code ≠ CcMsgType.cwEcm.code.setWidth 8)
      (hlgf : code ≠ CcMsgType.cwEcmLgf.code.setWidth 8) :
      ServerMessage nodeId ⟨frame flag code buf, none⟩
  | answer {flag code : Byte} {answer : Answer}
      (hcode : code = CcMsgType.cwEcm.code.setWidth 8 ∨ code = CcMsgType.cwEcmLgf.code.setWidth 8)
      (hmask : answer.extendedMode = false → Balanced nodeId answer.cccamId) :
      ServerMessage nodeId ⟨frame flag code (answer.buf nodeId), some answer⟩

/-- The sender is ahead of the receiver by the messages not received yet. -/
structure InStep (nodeId : NodeId) (maxlen : ℕ) (d : Direction) : Prop where
  ahead : cipher.Ahead d.encrypt d.decrypt d.wire
    ((d.sent.drop d.received.length).map (Sent.packet nodeId))
  received : d.received = (d.sent.take d.received.length).map Sent.decoded
  fits : ∀ m ∈ d.sent, ∃ flag code buf, m.msg = frame flag code buf ∧ Fits maxlen buf

/-- What was received is what was sent, in its order. What is left to receive is received, and when nothing
is left the blocks of the two sides agree. -/
structure Agree (maxlen : ℕ) (d : Direction) : Prop where
  received : d.received <+: d.sent.map Sent.decoded
  delivers : ∀ m, d.sent[d.received.length]? = some m →
    ∃ d', ccMsgRecv maxlen d = some (m.msg, d')
  idle : d.received.length = d.sent.length → d.wire = [] ∧ d.encrypt = d.decrypt

/-- The sides find each other's messages: these fit the buffers, and the reader's request is for the card
and in the mode of the answer that it receives. -/
def Matching (s : State) (a : Action) : Prop :=
  match a with
  | .serverSend _ _ buf => Fits s.reader.maxlen buf
  | .serverAnswer _ _ _ _ => 16 ≤ s.reader.maxlen
  | .readerRecv cccamId => ∀ m ∈ s.down.sent[s.down.received.length]?, ∀ answer ∈ m.answer,
    cccamId = some answer.cccamId ∧ s.reader.extendedMode = answer.extendedMode
  | .readerSend _ _ buf => Fits s.server.maxlen buf
  | _ => True

/-- Outside the extended mode control words are answered with a balanced mask only. -/
def BalancedAnswer (s : State) (a : Action) : Prop :=
  match a with
  | .serverAnswer _ cccamId _ _ => s.server.extendedMode = false → Balanced s.server.nodeId cccamId
  | _ => True

def Agreeing (s : State) (a : Action) : Prop := Matching s a ∧ BalancedAnswer s a

structure Good (s : State) : Prop where
  nodeId : s.server.nodeId = s.reader.nodeId
  down : InStep s.server.nodeId s.reader.maxlen s.down
  up : InStep s.server.nodeId s.server.maxlen s.up
  server : ∀ m ∈ s.down.sent, ServerMessage s.server.nodeId m
  reader : ∀ m ∈ s.up.sent, m.answer = none

end Defs

section Directions

variable {nodeId : NodeId} {maxlen : ℕ} {d : Direction} {m : Sent}

theorem InStep.of_fresh (h : d.Fresh) : InStep nodeId maxlen d := by
  obtain ⟨hblock, hwire, hsent, hreceived⟩ := h
  constructor
  · rw [hblock, hwire, hsent, List.drop_nil]
    exact .refl _
  · rw [hreceived]
    rfl
  · rw [hsent]
    simp

theorem InStep.length_le (h : InStep nodeId maxlen d) : d.received.length ≤ d.sent.length := by
  have hlen := congrArg List.length h.received
  rw [List.length_map, List.length_take] at hlen
  omega

theorem InStep.send (h : InStep nodeId maxlen d)
    (hm : ∃ flag code buf, m.msg = frame flag code buf ∧ Fits maxlen buf) :
    InStep nodeId maxlen { d with
      encrypt := m.after nodeId (cipher.run d.encrypt m.msg)
      wire := d.wire ++ cipher.encrypt d.encrypt m.msg
      sent := d.sent ++ [m] } := by
  have hle := h.length_le
  constructor
  · dsimp only
    rw [List.drop_append_of_le_length hle, List.map_append]
    exact h.ahead.send (m.packet nodeId)
  · dsimp only
    rw [List.take_append_of_le_length hle]
    exact h.received
  · intro m' hm'
    rcases List.mem_append.mp hm' with hm' | hm'
    · exact h.fits m' hm'
    · rw [List.mem_singleton.mp hm']
      exact hm

/-- A message that fits is received as it was sent. -/
theorem ccMsgRecv_eq {flag code : Byte} {buf rest : List Byte} (hfits : Fits maxlen buf)
    (hwire : d.wire = cipher.encrypt d.decrypt (frame flag code buf) ++ rest) :
    ccMsgRecv maxlen d = some (frame flag code buf,
      { d with decrypt := cipher.run d.decrypt (frame flag code buf), wire := rest }) := by
  obtain ⟨header, hheader⟩ : ∃ header, header = [flag, code, BitVec.ofNat 8 (buf.length >>> 8),
    BitVec.ofNat 8 buf.length] := ⟨_, rfl⟩
  have hframe : frame flag code buf = header ++ buf := by rw [hheader]; rfl
  have hlen : (cipher.encrypt d.decrypt header).length = 4 := by
    rw [StreamCipher.length_encrypt, hheader]
    rfl
  have hsize : (header.getD 2 0).toNat <<< 8 ||| (header.getD 3 0).toNat = buf.length := by
    rw [hheader]
    exact size_two hfits.2
  rw [hframe, cipher.encrypt_append, List.append_assoc] at hwire
  have htotal : d.wire.length = 4 + (buf.length + rest.length) := by
    rw [hwire, List.length_append, hlen, List.length_append, StreamCipher.length_encrypt]
  have hdata : (d.wire.drop 4).take buf.length =
      cipher.encrypt (cipher.run d.decrypt header) buf := by
    rw [hwire, List.drop_left' hlen, List.take_left' (by simp)]
  have hrest : d.wire.drop (4 + buf.length) = rest := by
    rw [← List.drop_drop, hwire, List.drop_left' hlen, List.drop_left' (by simp)]
  unfold ccMsgRecv
  rw [if_neg (by omega), hwire, List.take_left' hlen, ← hwire, ccCrypt_cipher_encrypt]
  dsimp only
  have hmax := hfits.1
  rw [hsize, if_neg (by omega), hdata, ccCrypt_cipher_encrypt, hrest, hframe, cipher.run_append]

/-- What is received next is the first message not received yet. -/
theorem InStep.recv (h : InStep nodeId maxlen d) (hm : d.sent[d.received.length]? = some m) :
    ∃ rest, ccMsgRecv maxlen d = some (m.msg,
        { d with decrypt := cipher.run d.decrypt m.msg, wire := rest }) ∧
      InStep nodeId maxlen { d with
        decrypt := m.after nodeId (cipher.run d.decrypt m.msg)
        wire := rest
        received := d.received ++ [m.decoded] } := by
  have hdrop : d.sent.drop d.received.length = m :: d.sent.drop (d.received.length + 1) := by
    obtain ⟨hi, rfl⟩ := List.getElem?_eq_some_iff.mp hm
    exact List.drop_eq_getElem_cons hi
  have hahead := h.ahead
  rw [hdrop, List.map_cons] at hahead
  obtain ⟨rest, hwire, hahead⟩ := hahead.split
  obtain ⟨flag, code, buf, hmsg, hfits⟩ := h.fits m (List.mem_of_getElem? hm)
  refine ⟨rest, ?_, ?_, ?_, h.fits⟩
  · change d.wire = cipher.encrypt d.decrypt m.msg ++ rest at hwire
    rw [hmsg] at hwire ⊢
    exact ccMsgRecv_eq hfits hwire
  · dsimp only
    rw [List.length_append]
    exact hahead
  · dsimp only
    rw [List.length_append, List.length_singleton, List.take_add_one, hm, Option.toList_some,
      List.map_append, ← h.received]
    rfl

theorem InStep.idle (h : InStep nodeId maxlen d) (hm : d.received.length = d.sent.length) :
    d.wire = [] ∧ d.encrypt = d.decrypt := by
  have hahead := h.ahead
  rw [hm, List.drop_length] at hahead
  exact ⟨hahead.wire, hahead.state⟩

/-- Only what was sent is received. -/
theorem InStep.getElem?_of_ccMsgRecv (h : InStep nodeId maxlen d) {buf : List Byte} {d' : Direction}
    (hrecv : ccMsgRecv maxlen d = some (buf, d')) : ∃ m, d.sent[d.received.length]? = some m := by
  apply Option.ne_none_iff_exists'.mp
  intro hnone
  have hlen : d.received.length = d.sent.length :=
    Nat.le_antisymm h.length_le (List.getElem?_eq_none_iff.mp hnone)
  unfold ccMsgRecv at hrecv
  rw [(h.idle hlen).1, if_pos (by simp)] at hrecv
  exact absurd hrecv (by simp)

theorem InStep.agree (h : InStep nodeId maxlen d) : Agree maxlen d := by
  constructor
  · rw [h.received, List.map_take]
    exact List.take_prefix _ _
  · intro m hm
    obtain ⟨rest, hrecv, _⟩ := h.recv hm
    exact ⟨_, hrecv⟩
  · exact h.idle

end Directions

section Messages

variable {d : Direction}

@[simp] theorem getD_frame_one (flag code : Byte) (buf : List Byte) :
    (frame flag code buf).getD 1 0 = code := rfl

@[simp] theorem drop_frame_four (flag code : Byte) (buf : List Byte) :
    (frame flag code buf).drop 4 = buf := rfl

@[simp] theorem length_frame (flag code : Byte) (buf : List Byte) :
    (frame flag code buf).length = buf.length + 4 := rfl

theorem netbuf_eq {cmd : CcMsgType} (h : cmd ≠ .noHeader) (gFlag : Byte) (buf : List Byte) :
    netbuf gFlag cmd buf = frame gFlag (cmd.code.setWidth 8) buf :=
  if_neg h

theorem ccCmdSend_eq (cc : CcData) (buf : List Byte) (cmd : CcMsgType) (answer : Option Answer) :
    ccCmdSend cc buf cmd answer d = { d with
      encrypt := cipher.run d.encrypt (netbuf cc.gFlag cmd buf)
      wire := d.wire ++ cipher.encrypt d.encrypt (netbuf cc.gFlag cmd buf)
      sent := d.sent ++ [⟨netbuf cc.gFlag cmd buf, answer⟩] } := by
  unfold ccCmdSend
  dsimp only
  rw [ccCrypt_encrypt]

theorem Answer.length_buf (nodeId : NodeId) (answer : Answer) : (answer.buf nodeId).length = 16 := by
  unfold Answer.buf
  split_ifs <;> simp

/-- No other command has the byte of a control word. -/
theorem code_ne {cmd cmd' : CcMsgType} (hcw : cmd' = .cwEcm ∨ cmd' = .cwEcmLgf) (h : cmd ≠ cmd') :
    cmd.code.setWidth 8 ≠ cmd'.code.setWidth 8 := by
  rcases hcw with rfl | rfl <;> cases cmd <;> first | exact absurd rfl h | decide

/-- The message of an answer. -/
def answerMessage (cc : CcData) (answer : Answer) (lg : Bool) : Sent where
  msg := frame cc.gFlag
    ((if cc.extendedLgFlaggedCws && lg then CcMsgType.cwEcmLgf else .cwEcm).code.setWidth 8)
    (answer.buf cc.nodeId)
  answer := answer

theorem serverMessage_answerMessage (cc : CcData) {answer : Answer} {lg : Bool}
    (h : answer.extendedMode = false → Balanced cc.nodeId answer.cccamId) :
    ServerMessage cc.nodeId (answerMessage cc answer lg) := by
  unfold answerMessage
  apply ServerMessage.answer
  · by_cases hlg : (cc.extendedLgFlaggedCws && lg) = true
    · rw [if_pos hlg]
      exact .inr rfl
    · rw [if_neg hlg]
      exact .inl rfl
  · exact h

theorem ccSendDcw_eq {cc : CcData} {answer : Answer} (h : answer.extendedMode = cc.extendedMode)
    (lg : Bool) : ccSendDcw cc answer lg d =
      let m := answerMessage cc answer lg
      { d with
        encrypt := m.after cc.nodeId (cipher.run d.encrypt m.msg)
        wire := d.wire ++ cipher.encrypt d.encrypt m.msg
        sent := d.sent ++ [m] } := by
  have hcmd : (if cc.extendedLgFlaggedCws && lg then CcMsgType.cwEcmLgf else .cwEcm) ≠ .noHeader := by
    split_ifs <;> decide
  unfold ccSendDcw Sent.after answerMessage
  dsimp only
  rw [ccCmdSend_eq, netbuf_eq hcmd]
  unfold Answer.buf
  rw [h]
  by_cases hext : cc.extendedMode = true
  · rw [if_pos hext, if_pos hext, if_pos hext]
  · rw [if_neg hext, if_neg hext, if_neg hext, ccCrypt_encrypt]

/-- The reader takes from a message of the server what was put into it, and does the same step. -/
theorem ccParseMsg_eq {cc : CcData} {m : Sent} {cccamId : Option (BitVec 32)}
    (hm : ServerMessage cc.nodeId m) (hmatch : ∀ answer ∈ m.answer,
      cccamId = some answer.cccamId ∧ cc.extendedMode = answer.extendedMode) :
    ccParseMsg cc cccamId m.msg d =
      some (m.decoded.dcw, { d with decrypt := m.after cc.nodeId d.decrypt }) := by
  cases hm with
  | plain hcw hlgf =>
    unfold ccParseMsg
    dsimp only
    rw [getD_frame_one, if_neg (not_or.mpr ⟨hcw, hlgf⟩)]
    rfl
  | @answer flag code answer hcode hmask =>
    obtain ⟨hid, hmode⟩ := hmatch answer rfl
    have hlen := answer.length_buf cc.nodeId
    unfold ccParseMsg
    dsimp only
    rw [getD_frame_one, if_pos hcode]
    unfold parseCw Sent.after Sent.decoded
    rw [length_frame, hlen, if_neg (by decide), hid]
    dsimp only [Option.map_some]
    rw [drop_frame_four, hmode]
    by_cases hext : answer.extendedMode = true
    · rw [if_pos hext, if_pos hext]
      unfold Answer.buf
      rw [if_pos hext, List.take_of_length_le (by simp)]
    · have hbuf : answer.buf cc.nodeId = ccCwCrypt cc.nodeId answer.cccamId answer.cw.toList :=
        if_neg hext
      have hbalanced := hmask (Bool.eq_false_iff.mpr hext)
      rw [if_neg hext, if_neg hext, hbuf, ccCwCrypt_ccCwCrypt, ccCrypt_encrypt,
        List.take_of_length_le (by simp),
        (run_ccCwCrypt_iff cc.nodeId answer.cccamId (by simp) d.decrypt).mpr hbalanced]

end Messages

section Steps

variable {s s' : State} {a : Action}

theorem Good.next (h : Good s) (hguard : Agreeing s a) (hnext : system.next s a = some s') :
    Good s' := by
  change Link.next s a = some s' at hnext
  unfold Link.next at hnext
  cases a with
  | serverSend flag cmd buf =>
    dsimp only at hnext
    rw [Option.ite_none_right_eq_some] at hnext
    obtain ⟨⟨hplain, hcw, hlgf⟩, hnext⟩ := hnext
    rw [← Option.some.inj hnext, ccCmdSend_eq, netbuf_eq hplain.1]
    constructor
    · exact h.nodeId
    · exact h.down.send (m := ⟨_, none⟩) ⟨_, _, buf, rfl, hguard.1⟩
    · exact h.up
    · intro m hm
      rcases List.mem_append.mp hm with hm | hm
      · exact h.server m hm
      · rw [List.mem_singleton.mp hm]
        exact .plain (code_ne (.inl rfl) hcw) (code_ne (.inr rfl) hlgf)
    · exact h.reader
  | serverAnswer cw cccamId sendIdx lg =>
    rw [← Option.some.inj hnext, ccSendDcw_eq rfl]
    constructor
    · exact h.nodeId
    · apply h.down.send
      refine ⟨_, _, _, rfl, ?_⟩
      unfold Fits
      rw [Answer.length_buf]
      exact ⟨hguard.1, by decide⟩
    · exact h.up
    · intro m hm
      rcases List.mem_append.mp hm with hm | hm
      · exact h.server m hm
      · rw [List.mem_singleton.mp hm]
        exact serverMessage_answerMessage _ hguard.2
    · exact h.reader
  | readerRecv cccamId =>
    obtain ⟨⟨buf, d⟩, hrecv, hnext⟩ := Option.bind_eq_some_iff.mp hnext
    obtain ⟨⟨dcw, d'⟩, hparse, hnext⟩ := Option.map_eq_some_iff.mp hnext
    obtain ⟨m, hm⟩ := h.down.getElem?_of_ccMsgRecv hrecv
    obtain ⟨rest, hrecv', hstep⟩ := h.down.recv hm
    rw [hrecv] at hrecv'
    obtain ⟨rfl, rfl⟩ := Prod.mk.inj (Option.some.inj hrecv')
    have hmessage := h.server m (List.mem_of_getElem? hm)
    rw [h.nodeId] at hmessage hstep
    have hmatch := hguard.1 m hm
    rw [ccParseMsg_eq hmessage hmatch] at hparse
    obtain ⟨rfl, rfl⟩ := Prod.mk.inj (Option.some.inj hparse)
    rw [← hnext]
    refine ⟨h.nodeId, ?_, h.up, h.server, h.reader⟩
    rw [h.nodeId]
    exact hstep
  | readerSend flag cmd buf =>
    dsimp only at hnext
    rw [Option.ite_none_right_eq_some] at hnext
    obtain ⟨hplain, hnext⟩ := hnext
    rw [← Option.some.inj hnext, ccCmdSend_eq, netbuf_eq hplain.1]
    constructor
    · exact h.nodeId
    · exact h.down
    · exact h.up.send (m := ⟨_, none⟩) ⟨_, _, buf, rfl, hguard.1⟩
    · exact h.server
    · intro m hm
      rcases List.mem_append.mp hm with hm | hm
      · exact h.reader m hm
      · rw [List.mem_singleton.mp hm]
  | serverRecv =>
    obtain ⟨⟨buf, d⟩, hrecv, hnext⟩ := Option.map_eq_some_iff.mp hnext
    obtain ⟨m, hm⟩ := h.up.getElem?_of_ccMsgRecv hrecv
    obtain ⟨rest, hrecv', hstep⟩ := h.up.recv hm
    rw [hrecv] at hrecv'
    obtain ⟨rfl, rfl⟩ := Prod.mk.inj (Option.some.inj hrecv')
    have hanswer := h.reader m (List.mem_of_getElem? hm)
    rw [← hnext]
    refine ⟨h.nodeId, h.down, ?_, h.server, h.reader⟩
    unfold Sent.after Sent.decoded at hstep
    rw [hanswer] at hstep
    exact hstep
  | serverPartner ext lgf =>
    rw [← Option.some.inj hnext]
    exact ⟨h.nodeId, h.down, h.up, h.server, h.reader⟩
  | readerPartner ext lgf =>
    rw [← Option.some.inj hnext]
    exact ⟨h.nodeId, h.down, h.up, h.server, h.reader⟩

end Steps

/-- In every run in which the sides find each other's messages and the masks of all control words sent
outside the extended mode are balanced, both directions agree. -/
theorem agreeing_agree {s : State} (h : system.Reachable Agreeing s) :
    Agree s.reader.maxlen s.down ∧ Agree s.server.maxlen s.up := by
  have hgood : Good s := by
    apply h.invariant
    · intro s hinit
      obtain ⟨hid, hdown, hup⟩ := hinit
      refine ⟨hid, .of_fresh hdown, .of_fresh hup, ?_, ?_⟩
      · rw [hdown.2.2.1]
        simp
      · rw [hup.2.2.1]
        simp
    · intro s a s' hs hguard hnext
      exact hs.next hguard hnext
  exact ⟨hgood.down.agree, hgood.up.agree⟩

def identityBlock : CcCryptBlock := ⟨.ofFn fun i => BitVec.ofNat 8 i, 0x43, 0, 0⟩

def connected : State where
  server := ⟨#v[1, 1, 0x11, 0x11, 0x11, 0x11, 0x11, 0], false, false, 0, 1024⟩
  reader := ⟨#v[1, 1, 0x11, 0x11, 0x11, 0x11, 0x11, 0], false, false, 0, 1024⟩
  down := ⟨identityBlock, identityBlock, [], [], []⟩
  up := ⟨identityBlock, identityBlock, [], [], []⟩

instance (s : State) (a : Action) : Decidable (Matching s a) := by
  cases a <;> unfold Matching <;> infer_instance

instance (s : State) (a : Action) : Decidable (BalancedAnswer s a) := by
  cases a <;> unfold BalancedAnswer <;> infer_instance

instance (s : State) (a : Action) : Decidable (Agreeing s a) := inferInstanceAs (Decidable (_ ∧ _))

/-- An answer for card 0, whose mask is balanced for this node, and a message after it. -/
theorem agreeing_agree_two : ∃ s, system.Reachable Agreeing s ∧ s.down.received.length = 2 ∧
    Agree s.reader.maxlen s.down ∧ Agree s.server.maxlen s.up := by
  obtain ⟨s, hs, hp⟩ := System.exists_reachable_of_exec (G := Agreeing) (S := system)
    (s := connected) ⟨rfl, ⟨rfl, rfl, rfl, rfl⟩, ⟨rfl, rfl, rfl, rfl⟩⟩
    [.serverAnswer (.replicate 16 7) 0 1 false, .readerRecv (some 0),
      .serverSend none .keepalive [], .readerRecv none]
    (fun s => s.down.received.length = 2) (by decide +kernel)
  exact ⟨s, hs, of_decide_eq_true hp, agreeing_agree hs⟩

/-- After an answer for card 1 the blocks differ, and the flag of the message after it is received as 1
instead of 0. -/
theorem unbalanced_flag : ∃ s, system.Reachable Matching s ∧
    s.down.received.map (·.msg) ≠ s.down.sent.map (·.msg) ∧
    s.down.sent.getLast? = some ⟨[0, 6, 0, 0], none⟩ ∧
    s.down.received.getLast? = some ⟨[1, 6, 0, 0], none⟩ := by
  obtain ⟨s, hs, hp⟩ := System.exists_reachable_of_exec (G := Matching) (S := system)
    (s := connected) ⟨rfl, ⟨rfl, rfl, rfl, rfl⟩, ⟨rfl, rfl, rfl, rfl⟩⟩
    [.serverAnswer (.replicate 16 7) 1 1 false, .readerRecv (some 1),
      .serverSend none .keepalive [], .readerRecv none]
    (fun s => s.down.received.map (·.msg) ≠ s.down.sent.map (·.msg) ∧
      s.down.sent.getLast? = some ⟨[0, 6, 0, 0], none⟩ ∧
      s.down.received.getLast? = some ⟨[1, 6, 0, 0], none⟩) (by decide +kernel)
  exact ⟨s, hs, of_decide_eq_true hp⟩

end NCam.Cccam.Link
