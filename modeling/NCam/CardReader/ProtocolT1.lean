import NCam.Util.Bytes

/-! The protocol T=1 of `csctapi/protocol_t1.c`: a command goes to the card in a chain of blocks, and the chain that
answers it is put together. What the card sends is arbitrary. -/
namespace NCam.CardReader.T1

open NCam.Lib.Memory NCam.Util

def T1_BLOCK_MAX_SIZE : ℕ := 259
def T1_BLOCK_I : Byte := 0x00
def T1_BLOCK_R_OK : Byte := 0x80
def T1_BLOCK_S_RESYNCH_REQ : Byte := 0xC0
def T1_BLOCK_S_RESYNCH_RES : Byte := 0xE0
def T1_BLOCK_S_IFS_REQ : Byte := 0xC1
def T1_BLOCK_S_WTX_REQ : Byte := 0xC3
def T1_BLOCK_S_WTX_RES : Byte := 0xE3
def T1_BLOCK_NAD : Byte := 0x00
def DEFAULT_IFSC : ℕ := 32
def MAX_IFSC : ℕ := 251

/-- What `s_reader` has for the protocol. -/
structure T1Reader where
  ifsc : ℕ
  ns : Byte
  ifsc_pos : 0 < ifsc
  ifsc_le : ifsc ≤ MAX_IFSC
  ns_bit : ns = 0 ∨ ns = 1

/-- `InitCard`, with the interface byte TA3 of the card. -/
def initCard (smargopatch : Bool) (ta : Option Byte) : T1Reader where
  ifsc :=
    let ifsc := match ta with
      | some ta => if ta ≠ 0x00 ∧ ta ≠ 0xFF then ta.toNat else DEFAULT_IFSC
      | none => DEFAULT_IFSC
    if smargopatch then min ifsc 28 else min ifsc MAX_IFSC
  ns := 1
  ifsc_pos := by
    have hpos : ∀ ta : Byte, ta ≠ 0x00 → 0 < ta.toNat := fun ta hta =>
      Nat.pos_of_ne_zero fun h => hta (BitVec.eq_of_toNat_eq h)
    dsimp only
    split_ifs
    all_goals
      refine lt_min ?_ (by decide)
      split
      · split_ifs with hta
        · exact hpos _ hta.1
        · decide
      · decide
  ifsc_le := by
    dsimp only
    split_ifs
    · exact le_trans (min_le_right _ _) (by decide)
    · exact min_le_right _ _
  ns_bit := Or.inr rfl

section Blocks

def t1BlockLrc (data : List Byte) : Byte := data.foldl (· ^^^ ·) 0

def t1Block (pcb : Byte) (inf : List Byte) : List Byte :=
  let block := [T1_BLOCK_NAD, pcb, .ofNat 8 inf.length] ++ inf
  block ++ [t1BlockLrc block]

/-- `T1_Block_SendIBlock`. -/
def iBlock (inf : List Byte) (ns : Byte) (more : Bool) : List Byte :=
  t1Block ((T1_BLOCK_I ||| (ns <<< 6 &&& 0x40)) ||| if more then 0x20 else 0x00) inf

/-- `T1_Block_SendRBlock`. -/
def rBlock (type nr : Byte) : List Byte := t1Block (type ||| (nr <<< 4 &&& 0x10)) []

/-- `T1_Block_SendSBlock`. -/
def sBlock (type : Byte) (inf : List Byte) : List Byte := t1Block type inf

def t1BlockGetNs (block : ℕ → Byte) : Byte := block 1 >>> 6 &&& 0x01
def t1BlockGetMore (block : ℕ → Byte) : Bool := block 1 >>> 5 &&& 0x01 ≠ 0x00

/-- The type of a received block. -/
def rspType (block : ℕ → Byte) : Byte :=
  if block 1 &&& 0x80 = T1_BLOCK_I then T1_BLOCK_I else block 1 &&& 0xEF

end Blocks

section Command

/-- Whether a block gets to the card, and the block that is received then: the bytes as the card sends them. -/
structure Turn where
  transmit : Bool
  receive : Option (ℕ → Byte)

/-- The number of the last I-block, all blocks that were sent, and the first bytes of `rsp`. -/
structure Link where
  ns : Byte
  sent : List (List Byte)
  rsp : List Byte

def Link.transmit (s : Link) (block : List Byte) : Link := { s with sent := s.sent ++ [block] }

def toggle (ns : Byte) : Byte := if ns = 1 then 0 else 1

/-- The command ends, or one more block is sent. -/
inductive Reply
  | stop (ok : Bool) (s : Link)
  | send (block : List Byte) (s : Link)

def reply (s : Link) : Option (ℕ → Byte) → Reply
  | none => .stop false s
  | some block =>
    if rspType block = T1_BLOCK_I then
      let bytes := (block 2).toNat
      if T1_BLOCK_MAX_SIZE < s.rsp.length + bytes then .stop false s
      else
        let s := { s with rsp := s.rsp ++ slice block 3 bytes }
        if t1BlockGetMore block then .send (rBlock T1_BLOCK_R_OK ((t1BlockGetNs block + 1) % 2)) s
        else .stop true s
    else if rspType block = T1_BLOCK_S_WTX_REQ then .send (sBlock T1_BLOCK_S_WTX_RES [block 3]) s
    else .stop false s

/-- The second loop of `Protocol_T1_Command`; the first turn is that of the block sent last. Without a turn the
block does not get through. -/
def receiveLoop : List Turn → Link → Bool × Link
  | [], s => (false, s)
  | turn :: turns, s =>
    if turn.transmit then
      match reply s turn.receive with
      | .stop ok s => (ok, s)
      | .send block s => receiveLoop turns (s.transmit block)
    else (false, s)

/-- The first loop, with the I-block before it. -/
def sendLoop (command : List Byte) (ifsc : ℕ) (turns : List Turn) (counter : ℕ) (s : Link) : Bool × Link :=
  let bytes := min (command.length - counter) ifsc
  let more := decide (ifsc < command.length - counter)
  let ns := toggle s.ns
  let s := { s with ns }.transmit (iBlock ((command.drop counter).take bytes) ns more)
  if more then
    match turns with
    | [] => (false, s)
    | turn :: turns =>
      if turn.transmit then
        match turn.receive with
        | some block =>
          if rspType block = T1_BLOCK_R_OK then sendLoop command ifsc turns (counter + bytes) s else (false, s)
        | none => (false, s)
      else (false, s)
  else receiveLoop turns s

/-- `Protocol_T1_Command`: whether it returns OK, and what it leaves. -/
def protocolT1Command (r : T1Reader) (command : List Byte) (turns : List Turn) : Bool × Link :=
  let received := turns.head?.bind Turn.receive
  if command.getD 1 0 = T1_BLOCK_S_IFS_REQ then
    (received.isSome, ⟨r.ns, [sBlock T1_BLOCK_S_IFS_REQ [command.getD 3 0]], []⟩)
  else if command.getD 1 0 = T1_BLOCK_S_RESYNCH_REQ then
    let ns := match received with
      | some block => if rspType block = T1_BLOCK_S_RESYNCH_RES then 0 else r.ns
      | none => r.ns
    (received.isSome, ⟨ns, [sBlock T1_BLOCK_S_RESYNCH_REQ []], []⟩)
  else sendLoop command r.ifsc turns 0 ⟨r.ns, [], []⟩

end Command

section Card

/-- The receiving end of a block: its control byte and what it carries, if the length and the LRC are right. -/
def opened : List Byte → Option (Byte × List Byte)
  | nad :: pcb :: len :: rest =>
    if rest.length = len.toNat + 1 ∧ t1BlockLrc (nad :: pcb :: len :: rest) = 0 then some (pcb, rest.take len.toNat)
    else none
  | _ => none

def isIBlock (pcb : Byte) : Bool := pcb &&& 0x80 = 0
def sendNumber (pcb : Byte) : Byte := pcb >>> 6 &&& 0x01
def moreBit (pcb : Byte) : Bool := pcb >>> 5 &&& 0x01 ≠ 0

/-- A card that waits for the I-block with number `ns` and puts the chain together. Every block must be right, and
the last one is the first without the more bit. -/
def reassemble : Byte → List (List Byte) → Option (List Byte)
  | _, [] => none
  | ns, block :: blocks =>
    match opened block with
    | none => none
    | some (pcb, inf) =>
      if isIBlock pcb ∧ sendNumber pcb = ns then
        if moreBit pcb then (reassemble (toggle ns) blocks).map (inf ++ ·)
        else if blocks = [] then some inf else none
      else none

theorem t1BlockLrc_concat (data : List Byte) : t1BlockLrc (data ++ [t1BlockLrc data]) = 0 := by
  unfold t1BlockLrc
  rw [List.foldl_append]
  exact BitVec.xor_self

theorem opened_t1Block {pcb : Byte} {inf : List Byte} (h : inf.length < 256) :
    opened (t1Block pcb inf) = some (pcb, inf) := by
  have hlen : (BitVec.ofNat 8 inf.length).toNat = inf.length := by
    rw [BitVec.toNat_ofNat]
    exact Nat.mod_eq_of_lt h
  have hlrc := t1BlockLrc_concat ([T1_BLOCK_NAD, pcb, .ofNat 8 inf.length] ++ inf)
  change opened (T1_BLOCK_NAD :: pcb :: BitVec.ofNat 8 inf.length :: (inf ++ [_])) = _
  unfold opened
  dsimp only
  rw [if_pos ⟨by rw [List.length_append, hlen]; rfl, hlrc⟩, hlen, List.take_left]

theorem toggle_bit (ns : Byte) : toggle ns = 0 ∨ toggle ns = 1 := by
  unfold toggle
  split_ifs
  · exact Or.inl rfl
  · exact Or.inr rfl

theorem toggle_iterate_bit {ns : Byte} (hns : ns = 0 ∨ ns = 1) (k : ℕ) : toggle^[k] ns = 0 ∨ toggle^[k] ns = 1 := by
  cases k with
  | zero => exact hns
  | succ k =>
    rw [Function.iterate_succ_apply']
    exact toggle_bit _

/-- The control byte of an I-block. -/
def iPcb (ns : Byte) (more : Bool) : Byte := (T1_BLOCK_I ||| (ns <<< 6 &&& 0x40)) ||| if more then 0x20 else 0x00

theorem iPcb_spec {ns : Byte} (hns : ns = 0 ∨ ns = 1) (more : Bool) :
    isIBlock (iPcb ns more) = true ∧ sendNumber (iPcb ns more) = ns ∧ moreBit (iPcb ns more) = more := by
  rcases hns with rfl | rfl
  all_goals
    cases more
    all_goals decide

end Card

section Pieces

variable (r : T1Reader) (command : List Byte)

/-- The number of I-blocks for the command. -/
def count : ℕ := (command.length - 1) / r.ifsc + 1

def piece (k : ℕ) : List Byte := (command.drop (k * r.ifsc)).take r.ifsc

def iBlockAt (k : ℕ) : List Byte :=
  iBlock (piece r command k) (toggle^[k + 1] r.ns) (decide ((k + 1) * r.ifsc < command.length))

/-- The chain of I-blocks for the command. -/
def iBlocks : List (List Byte) := (List.range (count r command)).map (iBlockAt r command)

variable {r command}

theorem succ_lt_count {k : ℕ} : k + 1 < count r command ↔ (k + 1) * r.ifsc < command.length := by
  have hpos : 0 < (k + 1) * r.ifsc := Nat.mul_pos (Nat.succ_pos k) r.ifsc_pos
  unfold count
  rw [Nat.lt_succ_iff, Nat.le_div_iff_mul_le r.ifsc_pos]
  omega

theorem length_le_count : command.length ≤ count r command * r.ifsc := by
  have h := Nat.lt_succ_self (count r command - 1)
  have hcount : count r command - 1 + 1 = count r command := Nat.succ_pred_eq_of_pos (Nat.succ_pos _)
  by_contra hlt
  rw [not_le, ← hcount, ← succ_lt_count, hcount] at hlt
  exact absurd hlt (lt_irrefl _)

theorem length_piece_le (k : ℕ) : (piece r command k).length < 256 := by
  have h : (piece r command k).length ≤ r.ifsc := List.length_take_le _ _
  have hifsc : r.ifsc ≤ 251 := r.ifsc_le
  omega

theorem length_iBlocks : (iBlocks r command).length = count r command := by
  rw [iBlocks, List.length_map, List.length_range]

theorem iBlocks_drop {k : ℕ} (hk : k < count r command) :
    (iBlocks r command).drop k = iBlockAt r command k :: (iBlocks r command).drop (k + 1) := by
  rw [List.drop_eq_getElem_cons (by rw [length_iBlocks]; exact hk)]
  congr 1
  simp [iBlocks]

/-- A card that reads the chain has the command. -/
theorem reassemble_iBlocks_from {n k : ℕ} (hk : k + n + 1 = count r command) :
    reassemble (toggle^[k + 1] r.ns) ((iBlocks r command).drop k) = some (command.drop (k * r.ifsc)) := by
  induction n generalizing k with
  | zero =>
    have hlast : ¬ (k + 1) * r.ifsc < command.length := by
      rw [← succ_lt_count]
      omega
    have hend : (iBlocks r command).drop (k + 1) = [] := List.drop_eq_nil_iff.mpr (by simp [iBlocks]; omega)
    obtain ⟨hi, hnumber, hmore⟩ := iPcb_spec (toggle_iterate_bit r.ns_bit (k + 1)) false
    rw [iBlocks_drop (by omega), hend]
    unfold reassemble iBlockAt iBlock
    rw [decide_eq_false hlast, opened_t1Block (length_piece_le k)]
    dsimp only
    rw [if_pos ⟨hi, hnumber⟩]
    change (if moreBit (iPcb _ false) = true then _ else _) = _
    rw [if_neg (by rw [hmore]; exact Bool.false_ne_true), if_pos rfl]
    refine congrArg some (List.take_of_length_le ?_)
    rw [List.length_drop]
    have h : command.length ≤ count r command * r.ifsc := length_le_count
    rw [← hk, Nat.add_zero, Nat.succ_mul] at h
    omega
  | succ n ih =>
    have hmid : (k + 1) * r.ifsc < command.length := by
      rw [← succ_lt_count]
      omega
    obtain ⟨hi, hnumber, hmore⟩ := iPcb_spec (toggle_iterate_bit r.ns_bit (k + 1)) true
    rw [iBlocks_drop (by omega)]
    unfold reassemble iBlockAt iBlock
    rw [decide_eq_true hmid, opened_t1Block (length_piece_le k)]
    dsimp only
    rw [if_pos ⟨hi, hnumber⟩]
    change (if moreBit (iPcb _ true) = true then _ else _) = _
    rw [if_pos hmore, ← Function.iterate_succ_apply' toggle (k + 1), ih (by omega)]
    refine congrArg some ?_
    rw [piece, Nat.succ_mul, ← List.drop_drop]
    exact List.take_append_drop _ _

end Pieces

section Answers

variable {turns : List Turn} {rsp : List Byte} {replies : List (List Byte)} {s t : Link}

def infOf (block : ℕ → Byte) : List Byte := slice block 3 (block 2).toNat

/-- The card answers with `rsp`, in one or more I-blocks with requests for more time between them; `replies` are
the blocks of the reader in between. -/
inductive Answered : List Turn → List Byte → List (List Byte) → Prop
  | last {turn : Turn} {turns : List Turn} {block : ℕ → Byte} (htransmit : turn.transmit = true)
      (hreceive : turn.receive = some block) (htype : rspType block = T1_BLOCK_I)
      (hmore : t1BlockGetMore block = false) : Answered (turn :: turns) (infOf block) []
  | part {turn : Turn} {turns : List Turn} {block : ℕ → Byte} {rsp : List Byte} {replies : List (List Byte)}
      (htransmit : turn.transmit = true) (hreceive : turn.receive = some block)
      (htype : rspType block = T1_BLOCK_I) (hmore : t1BlockGetMore block = true)
      (hrest : Answered turns rsp replies) : Answered (turn :: turns) (infOf block ++ rsp)
        (rBlock T1_BLOCK_R_OK ((t1BlockGetNs block + 1) % 2) :: replies)
  | wait {turn : Turn} {turns : List Turn} {block : ℕ → Byte} {rsp : List Byte} {replies : List (List Byte)}
      (htransmit : turn.transmit = true) (hreceive : turn.receive = some block)
      (htype : rspType block = T1_BLOCK_S_WTX_REQ) (hrest : Answered turns rsp replies) :
      Answered (turn :: turns) rsp (sBlock T1_BLOCK_S_WTX_RES [block 3] :: replies)

theorem length_infOf (block : ℕ → Byte) : (infOf block).length = (block 2).toNat := length_slice

theorem reply_inf {block : ℕ → Byte} (htype : rspType block = T1_BLOCK_I)
    (hfit : s.rsp.length + (infOf block).length ≤ T1_BLOCK_MAX_SIZE) :
    reply s (some block) =
      if t1BlockGetMore block then
        .send (rBlock T1_BLOCK_R_OK ((t1BlockGetNs block + 1) % 2)) { s with rsp := s.rsp ++ infOf block }
      else .stop true { s with rsp := s.rsp ++ infOf block } := by
  unfold reply
  dsimp only
  rw [length_infOf] at hfit
  rw [if_pos htype, if_neg (Nat.not_lt.mpr hfit)]
  rfl

theorem reply_wait {block : ℕ → Byte} (htype : rspType block = T1_BLOCK_S_WTX_REQ) :
    reply s (some block) = .send (sBlock T1_BLOCK_S_WTX_RES [block 3]) s := by
  unfold reply
  dsimp only
  rw [if_neg (by rw [htype]; decide), if_pos htype]

theorem Answered.receives (h : Answered turns rsp replies)
    (hfit : s.rsp.length + rsp.length ≤ T1_BLOCK_MAX_SIZE) :
    receiveLoop turns s = (true, ⟨s.ns, s.sent ++ replies, s.rsp ++ rsp⟩) := by
  induction h generalizing s with
  | last htransmit hreceive htype hmore =>
    unfold receiveLoop
    rw [if_pos htransmit, hreceive, reply_inf htype hfit, hmore, List.append_nil]
    rfl
  | @part turn turns block rsp replies htransmit hreceive htype hmore hrest ih =>
    rw [List.length_append, ← Nat.add_assoc] at hfit
    unfold receiveLoop
    rw [if_pos htransmit, hreceive, reply_inf htype (le_trans (Nat.le_add_right _ _) hfit), if_pos hmore]
    dsimp only
    rw [ih (by rw [Link.transmit, List.length_append]; exact hfit)]
    simp only [Link.transmit, List.append_assoc, List.singleton_append]
  | wait htransmit hreceive htype hrest ih =>
    unfold receiveLoop
    rw [if_pos htransmit, hreceive, reply_wait htype]
    dsimp only
    rw [ih (s := s.transmit _) hfit]
    simp only [Link.transmit, List.append_assoc, List.singleton_append]

/-- The command ends where the block that is received does not fit in, or with the last block of the answer. -/
theorem reply_stop {received : Option (ℕ → Byte)} {ok : Bool} (h : reply s received = .stop ok t) :
    t.ns = s.ns ∧ t.sent = s.sent ∧ (ok = true → ∃ block, received = some block ∧ rspType block = T1_BLOCK_I ∧
      s.rsp.length + (infOf block).length ≤ T1_BLOCK_MAX_SIZE ∧ t1BlockGetMore block = false ∧
      t.rsp = s.rsp ++ infOf block) := by
  cases received with
  | none =>
    cases h
    exact ⟨rfl, rfl, fun h => by cases h⟩
  | some block =>
    unfold reply at h
    dsimp only at h
    split_ifs at h with htype hlong hmore hwait
    all_goals cases h
    · exact ⟨rfl, rfl, fun h => by cases h⟩
    · refine ⟨rfl, rfl, fun _ => ⟨block, rfl, htype, ?_, eq_false_of_ne_true hmore, rfl⟩⟩
      rw [length_infOf]
      exact not_lt.mp hlong
    · exact ⟨rfl, rfl, fun h => by cases h⟩

theorem reply_send {received : Option (ℕ → Byte)} {answer : List Byte} (h : reply s received = .send answer t) :
    ∃ block, received = some block ∧
      ((rspType block = T1_BLOCK_I ∧ t1BlockGetMore block = true ∧
          answer = rBlock T1_BLOCK_R_OK ((t1BlockGetNs block + 1) % 2) ∧ t = { s with rsp := s.rsp ++ infOf block }) ∨
        (rspType block = T1_BLOCK_S_WTX_REQ ∧ answer = sBlock T1_BLOCK_S_WTX_RES [block 3] ∧ t = s)) := by
  cases received with
  | none => cases h
  | some block =>
    unfold reply at h
    dsimp only at h
    split_ifs at h with htype hlong hmore hwait
    all_goals cases h
    · exact ⟨block, rfl, Or.inl ⟨htype, hmore, rfl, rfl⟩⟩
    · exact ⟨block, rfl, Or.inr ⟨hwait, rfl, rfl⟩⟩

theorem answered_of_receiveLoop (h : receiveLoop turns s = (true, t)) :
    ∃ rsp replies, Answered turns rsp replies ∧ s.rsp.length + rsp.length ≤ T1_BLOCK_MAX_SIZE ∧
      t = ⟨s.ns, s.sent ++ replies, s.rsp ++ rsp⟩ := by
  induction turns generalizing s with
  | nil => cases h
  | cons turn turns ih =>
    unfold receiveLoop at h
    split_ifs at h with htransmit
    swap
    · cases h
    cases hreply : reply s turn.receive with
    | stop ok u =>
      rw [hreply] at h
      cases h
      obtain ⟨hns, hsent, hlast⟩ := reply_stop hreply
      obtain ⟨block, hreceive, htype, hfit, hmore, hrsp⟩ := hlast rfl
      refine ⟨_, [], .last htransmit hreceive htype hmore, hfit, ?_⟩
      rw [List.append_nil, ← hns, ← hsent, ← hrsp]
    | send answer u =>
      rw [hreply] at h
      obtain ⟨rsp, replies, hrest, hlen, rfl⟩ := ih h
      obtain ⟨block, hreceive, hcase⟩ := reply_send hreply
      rcases hcase with ⟨htype, hmore, rfl, rfl⟩ | ⟨htype, rfl, rfl⟩
      · refine ⟨_, _, .part htransmit hreceive htype hmore hrest, ?_, ?_⟩
        · rw [List.length_append, ← Nat.add_assoc, ← List.length_append]
          exact hlen
        · simp only [Link.transmit, List.append_assoc, List.singleton_append]
      · refine ⟨_, _, .wait htransmit hreceive htype hrest, hlen, ?_⟩
        simp only [Link.transmit, List.append_assoc, List.singleton_append]

theorem rBlock_not_iBlock (nr : Byte) : isIBlock ((rBlock T1_BLOCK_R_OK nr).getD 1 0) = false := by
  change isIBlock (0x80 ||| (nr <<< 4 &&& 0x10)) = false
  refine decide_eq_false fun h => ?_
  have hbit := congrArg (fun x : Byte => x.getLsbD 7) h
  simp at hbit

theorem wait_not_iBlock (inf : List Byte) : isIBlock ((sBlock T1_BLOCK_S_WTX_RES inf).getD 1 0) = false := by
  change isIBlock 0xE3 = false
  decide

theorem reply_not_iBlock {received : Option (ℕ → Byte)} {answer : List Byte}
    (h : reply s received = .send answer t) : t.ns = s.ns ∧ t.sent = s.sent ∧ isIBlock (answer.getD 1 0) = false := by
  obtain ⟨block, -, ⟨-, -, rfl, rfl⟩ | ⟨-, rfl, rfl⟩⟩ := reply_send h
  · exact ⟨rfl, rfl, rBlock_not_iBlock _⟩
  · exact ⟨rfl, rfl, wait_not_iBlock _⟩

/-- The second loop sends no I-block. -/
theorem receiveLoop_sent (turns : List Turn) (s : Link) :
    (receiveLoop turns s).2.ns = s.ns ∧ ∃ replies, (receiveLoop turns s).2.sent = s.sent ++ replies ∧
      ∀ block ∈ replies, isIBlock (block.getD 1 0) = false := by
  induction turns generalizing s with
  | nil => exact ⟨rfl, [], (List.append_nil _).symm, by simp⟩
  | cons turn turns ih =>
    unfold receiveLoop
    split_ifs with htransmit
    · cases hreply : reply s turn.receive with
      | stop ok t =>
        obtain ⟨hns, hsent, -⟩ := reply_stop hreply
        exact ⟨hns, [], hsent.trans (List.append_nil _).symm, by simp⟩
      | send answer t =>
        obtain ⟨hns, hsent, hanswer⟩ := reply_not_iBlock hreply
        obtain ⟨hns', replies, hreplies, hall⟩ := ih (t.transmit answer)
        refine ⟨hns'.trans hns, answer :: replies, hreplies.trans ?_, List.forall_mem_cons.mpr ⟨hanswer, hall⟩⟩
        simp only [Link.transmit, hsent, List.append_assoc, List.singleton_append]
    · exact ⟨rfl, [], (List.append_nil _).symm, by simp⟩

end Answers

section Commands

variable {r : T1Reader} {command : List Byte} {turns : List Turn} {turn : Turn} {s t : Link} {k : ℕ}

/-- The card asks for the next I-block. -/
def Turn.acked (turn : Turn) : Bool :=
  turn.transmit && turn.receive.any fun block => rspType block = T1_BLOCK_R_OK

/-- The link after I-block `k`. -/
def Link.advance (r : T1Reader) (command : List Byte) (k : ℕ) (s : Link) : Link :=
  ⟨toggle^[k + 1] r.ns, s.sent ++ [iBlockAt r command k], s.rsp⟩

theorem advance_eq (hns : s.ns = toggle^[k] r.ns) :
    ({ s with ns := toggle s.ns }.transmit (iBlock ((command.drop (k * r.ifsc)).take
      (min (command.length - k * r.ifsc) r.ifsc)) (toggle s.ns) (decide (r.ifsc < command.length - k * r.ifsc)))) =
      s.advance r command k := by
  have hpiece : (command.drop (k * r.ifsc)).take (min (command.length - k * r.ifsc) r.ifsc) = piece r command k := by
    rw [piece, min_comm, ← List.length_drop]
    exact List.take_eq_take_min.symm
  have hmore : decide (r.ifsc < command.length - k * r.ifsc) = decide ((k + 1) * r.ifsc < command.length) := by
    apply decide_eq_decide.mpr
    rw [Nat.succ_mul]
    omega
  rw [hpiece, hmore, hns, ← Function.iterate_succ_apply' toggle k]
  rfl

theorem sendLoop_last (hns : s.ns = toggle^[k] r.ns) (hk : ¬ k + 1 < count r command) :
    sendLoop command r.ifsc turns (k * r.ifsc) s = receiveLoop turns (s.advance r command k) := by
  have hmore : ¬ r.ifsc < command.length - k * r.ifsc := by
    rw [succ_lt_count, Nat.succ_mul] at hk
    omega
  unfold sendLoop
  dsimp only
  rw [advance_eq hns, decide_eq_false hmore]
  rfl

theorem sendLoop_nil (hns : s.ns = toggle^[k] r.ns) :
    sendLoop command r.ifsc [] (k * r.ifsc) s = (false, s.advance r command k) := by
  unfold sendLoop
  dsimp only
  rw [advance_eq hns]
  split_ifs
  · rfl
  · rfl

theorem sendLoop_cons (hns : s.ns = toggle^[k] r.ns) (hk : k + 1 < count r command) :
    sendLoop command r.ifsc (turn :: turns) (k * r.ifsc) s =
      if turn.acked then sendLoop command r.ifsc turns ((k + 1) * r.ifsc) (s.advance r command k)
      else (false, s.advance r command k) := by
  have hmore : r.ifsc < command.length - k * r.ifsc := by
    rw [succ_lt_count, Nat.succ_mul] at hk
    omega
  have hcounter : k * r.ifsc + min (command.length - k * r.ifsc) r.ifsc = (k + 1) * r.ifsc := by
    rw [min_eq_right hmore.le, Nat.succ_mul]
  conv_lhs => unfold sendLoop
  dsimp only
  rw [advance_eq hns, if_pos (decide_eq_true hmore), hcounter]
  unfold Turn.acked
  cases htransmit : turn.transmit with
  | false => rfl
  | true =>
    rw [if_pos rfl, Bool.true_and]
    cases turn.receive with
    | none => rfl
    | some block =>
      by_cases htype : rspType block = T1_BLOCK_R_OK
      · simp only [if_pos htype, Option.any_some, decide_eq_true htype, if_true]
      · simp only [if_neg htype, Option.any_some, decide_eq_false htype, Bool.false_eq_true, if_false]

theorem iBlocks_take_succ (hk : k < count r command) :
    (iBlocks r command).take (k + 1) = (iBlocks r command).take k ++ [iBlockAt r command k] := by
  have hget : (iBlocks r command)[k]? = some (iBlockAt r command k) := by
    rw [iBlocks, List.getElem?_map, List.getElem?_range hk]
    rfl
  rw [List.take_add_one, hget]
  rfl

/-- The command is sent as far as the card asks for it, and no I-block follows its chain. -/
theorem sendLoop_sent (hk : k < count r command) (hns : s.ns = toggle^[k] r.ns)
    (hsent : s.sent = (iBlocks r command).take k) :
    ∃ n replies, n ≤ count r command ∧
      (sendLoop command r.ifsc turns (k * r.ifsc) s).2.sent = (iBlocks r command).take n ++ replies ∧
      (sendLoop command r.ifsc turns (k * r.ifsc) s).2.ns = toggle^[n] r.ns ∧
      (∀ block ∈ replies, isIBlock (block.getD 1 0) = false) ∧ (replies ≠ [] → n = count r command) := by
  have hadvance : (s.advance r command k).sent = (iBlocks r command).take (k + 1) := by
    rw [iBlocks_take_succ hk, ← hsent]
    rfl
  have hstop : ∃ n replies, n ≤ count r command ∧
      (s.advance r command k).sent = (iBlocks r command).take n ++ replies ∧
      (s.advance r command k).ns = toggle^[n] r.ns ∧
      (∀ block ∈ replies, isIBlock (block.getD 1 0) = false) ∧ (replies ≠ [] → n = count r command) :=
    ⟨k + 1, [], hk, by rw [hadvance, List.append_nil], rfl, by simp, fun h => absurd rfl h⟩
  induction turns generalizing k s with
  | nil =>
    rw [sendLoop_nil hns]
    exact hstop
  | cons turn turns ih =>
    by_cases hmore : k + 1 < count r command
    · rw [sendLoop_cons hns hmore]
      split_ifs with hacked
      · have hadvance' : ((s.advance r command k).advance r command (k + 1)).sent =
            (iBlocks r command).take (k + 1 + 1) := by
          rw [iBlocks_take_succ hmore, ← hadvance]
          rfl
        exact ih hmore rfl hadvance hadvance' ⟨k + 2, [], hmore, by rw [hadvance', List.append_nil], rfl, by simp,
          fun h => absurd rfl h⟩
      · exact hstop
    · obtain ⟨hns', replies, hreplies, hall⟩ := receiveLoop_sent (turn :: turns) (s.advance r command k)
      have hcount : k + 1 = count r command := by omega
      rw [sendLoop_last hns hmore, hns', hreplies, hadvance]
      exact ⟨k + 1, replies, hk, rfl, rfl, hall, fun _ => hcount⟩

theorem sendLoop_ok_iff {n : ℕ} (hk : k + n + 1 = count r command) (hns : s.ns = toggle^[k] r.ns)
    (hsent : s.sent = (iBlocks r command).take k) :
    sendLoop command r.ifsc turns (k * r.ifsc) s = (true, t) ↔
      (∀ turn ∈ turns.take n, turn.acked = true) ∧
      ∃ rsp replies, Answered (turns.drop n) rsp replies ∧ s.rsp.length + rsp.length ≤ T1_BLOCK_MAX_SIZE ∧
        t = ⟨toggle^[count r command] r.ns, iBlocks r command ++ replies, s.rsp ++ rsp⟩ := by
  have hadvance : (s.advance r command k).sent = (iBlocks r command).take (k + 1) := by
    rw [iBlocks_take_succ (by omega), ← hsent]
    rfl
  induction n generalizing k s turns with
  | zero =>
    have hall : (iBlocks r command).take (k + 1) = iBlocks r command :=
      List.take_of_length_le (by rw [length_iBlocks]; omega)
    have hend : s.advance r command k = ⟨toggle^[count r command] r.ns, iBlocks r command, s.rsp⟩ := by
      rw [← hk, ← hall, ← hadvance]
      rfl
    rw [sendLoop_last hns (by omega), hend, List.take_zero, List.drop_zero]
    constructor
    · exact fun h => ⟨fun _ hmem => absurd hmem List.not_mem_nil, answered_of_receiveLoop h⟩
    · rintro ⟨-, rsp, replies, hanswered, hfit, rfl⟩
      exact hanswered.receives hfit
  | succ n ih =>
    cases turns with
    | nil =>
      rw [sendLoop_nil hns, List.drop_nil]
      constructor
      · intro h
        cases h
      · rintro ⟨-, rsp, replies, hanswered, -⟩
        cases hanswered
    | cons turn turns =>
      rw [sendLoop_cons hns (by omega), List.take_succ_cons, List.drop_succ_cons, List.forall_mem_cons]
      have hnext := @ih turns (s.advance r command k) (k + 1) (by omega) rfl hadvance
        (by rw [iBlocks_take_succ (by omega), ← hadvance]; rfl)
      by_cases hacked : turn.acked = true
      · rw [if_pos hacked]
        refine hnext.trans ?_
        simp only [hacked, true_and]
        rfl
      · rw [if_neg hacked]
        constructor
        · intro h
          cases h
        · exact fun h => absurd h.1.1 hacked

/-- The card that reads the chain has the command, whatever its length. The command returns OK if and only if
the card asks for every I-block of the chain after the first and answers the last one with a chain of at most
`T1_BLOCK_MAX_SIZE` bytes; then the chain was sent, and the answer is in `rsp`. -/
theorem protocolT1Command_ok_iff (r : T1Reader) (command : List Byte) (turns : List Turn) (t : Link)
    (hifs : command.getD 1 0 ≠ T1_BLOCK_S_IFS_REQ) (hresynch : command.getD 1 0 ≠ T1_BLOCK_S_RESYNCH_REQ) :
    reassemble (toggle r.ns) (iBlocks r command) = some command ∧
    (protocolT1Command r command turns = (true, t) ↔
      (∀ turn ∈ turns.take (count r command - 1), turn.acked = true) ∧
      ∃ rsp replies, Answered (turns.drop (count r command - 1)) rsp replies ∧
        rsp.length ≤ T1_BLOCK_MAX_SIZE ∧
        t = ⟨toggle^[count r command] r.ns, iBlocks r command ++ replies, rsp⟩) := by
  have hcount : 0 + (count r command - 1) + 1 = count r command := by
    rw [Nat.zero_add]
    exact Nat.succ_pred_eq_of_pos (Nat.succ_pos _)
  refine ⟨?_, ?_⟩
  · have h := @reassemble_iBlocks_from r command _ _ hcount
    rw [Nat.zero_mul] at h
    exact h
  · have h := @sendLoop_ok_iff r command turns ⟨r.ns, [], []⟩ t 0 _ hcount rfl rfl
    rw [Nat.zero_mul] at h
    unfold protocolT1Command
    dsimp only
    rw [if_neg hifs, if_neg hresynch, h]
    simp only [List.length_nil, Nat.zero_add, List.nil_append]

/-- Five bytes in two blocks; the card asks for the second one, wants more time, and answers two bytes. -/
theorem protocolT1Command_ok_two_blocks : ∃ t,
    protocolT1Command (initCard false (some 3)) [0x90, 0x12, 0x00, 0x00, 0x00]
      [⟨true, some fun i => [0x00, 0x80, 0x00, 0x80].getD i 0⟩,
        ⟨true, some fun i => [0x00, 0xC3, 0x01, 0x02, 0xC0].getD i 0⟩,
        ⟨true, some fun i => [0x00, 0x00, 0x02, 0x90, 0x00, 0x92].getD i 0⟩] = (true, t) ∧
      t.rsp = [0x90, 0x00] :=
  ⟨_, (protocolT1Command_ok_iff (initCard false (some 3)) [0x90, 0x12, 0x00, 0x00, 0x00]
    [⟨true, some fun i => [0x00, 0x80, 0x00, 0x80].getD i 0⟩,
      ⟨true, some fun i => [0x00, 0xC3, 0x01, 0x02, 0xC0].getD i 0⟩,
      ⟨true, some fun i => [0x00, 0x00, 0x02, 0x90, 0x00, 0x92].getD i 0⟩] _ (by decide) (by decide)).2.mpr
    ⟨by decide, _, _, .wait rfl rfl (by decide) (.last rfl rfl (by decide) (by decide)), by decide, rfl⟩,
    by decide⟩

end Commands

section Numbers

variable {r : T1Reader} {command : List Byte} {turns : List Turn}

/-- The numbers of the I-blocks among the blocks that were sent. -/
def sendNumbers (sent : List (List Byte)) : List Byte :=
  (sent.filter fun block => isIBlock (block.getD 1 0)).map fun block => sendNumber (block.getD 1 0)

/-- The card accepted a resynchronisation. -/
def resynched (call : List Byte × List Turn) : Bool :=
  call.1.getD 1 0 = T1_BLOCK_S_RESYNCH_REQ ∧
    (call.2.head?.bind Turn.receive).any (fun block => rspType block = T1_BLOCK_S_RESYNCH_RES) = true

theorem sendNumbers_append (sent sent' : List (List Byte)) :
    sendNumbers (sent ++ sent') = sendNumbers sent ++ sendNumbers sent' := by
  unfold sendNumbers
  rw [List.filter_append, List.map_append]

theorem sendNumbers_eq_nil {sent : List (List Byte)} (h : ∀ block ∈ sent, isIBlock (block.getD 1 0) = false) :
    sendNumbers sent = [] := by
  unfold sendNumbers
  rw [List.filter_eq_nil_iff.mpr fun block hblock => by rw [h block hblock]; exact Bool.false_ne_true]
  rfl

theorem sendNumbers_iBlocks {n : ℕ} (hn : n ≤ count r command) :
    sendNumbers ((iBlocks r command).take n) = (List.range n).map fun k => toggle^[k + 1] r.ns := by
  induction n with
  | zero => rfl
  | succ n ih =>
    obtain ⟨hi, hnumber, -⟩ := iPcb_spec (toggle_iterate_bit r.ns_bit (n + 1))
      (decide ((n + 1) * r.ifsc < command.length))
    rw [iBlocks_take_succ (by omega), sendNumbers_append, ih (by omega), List.range_succ, List.map_append]
    congr 1
    change (List.filter _ [iBlockAt r command n]).map _ = _
    rw [List.filter_cons_of_pos (by exact hi)]
    exact congrArg (fun number => [number]) hnumber

/-- What one command sends and leaves. -/
theorem protocolT1Command_numbers (hno : resynched (command, turns) = false) :
    ∃ n, sendNumbers (protocolT1Command r command turns).2.sent = (List.range n).map (fun k => toggle^[k + 1] r.ns) ∧
      (protocolT1Command r command turns).2.ns = toggle^[n] r.ns := by
  unfold protocolT1Command
  dsimp only
  split_ifs with hifs hresynch
  · refine ⟨0, sendNumbers_eq_nil (List.forall_mem_singleton.mpr ?_), rfl⟩
    change isIBlock 0xC1 = false
    decide
  · refine ⟨0, rfl, ?_⟩
    unfold resynched at hno
    simp only [hresynch, true_and, decide_eq_false_iff_not, Bool.not_eq_true] at hno
    cases hreceived : turns.head?.bind Turn.receive with
    | none => rfl
    | some block =>
      rw [hreceived, Option.any_some, decide_eq_false_iff_not] at hno
      exact if_neg hno
  · obtain ⟨n, replies, hn, hsent, hns, hall, -⟩ := @sendLoop_sent r command turns ⟨r.ns, [], []⟩ 0
      (Nat.succ_pos _) rfl rfl
    rw [Nat.zero_mul] at hsent hns
    refine ⟨n, ?_, hns⟩
    rw [hsent, sendNumbers_append, sendNumbers_iBlocks hn, sendNumbers_eq_nil hall, List.append_nil]

theorem resynched_ns {call : List Byte × List Turn} (h : resynched call = true) :
    (protocolT1Command r call.1 call.2).2.ns = 0 := by
  obtain ⟨hresynch, hany⟩ := of_decide_eq_true h
  unfold protocolT1Command
  dsimp only
  rw [if_neg (by rw [hresynch]; decide), if_pos hresynch]
  cases hreceived : call.2.head?.bind Turn.receive with
  | none =>
    rw [hreceived] at hany
    cases hany
  | some block =>
    rw [hreceived] at hany
    exact if_pos (of_decide_eq_true hany)

theorem protocolT1Command_ns_bit (r : T1Reader) (call : List Byte × List Turn) :
    (protocolT1Command r call.1 call.2).2.ns = 0 ∨ (protocolT1Command r call.1 call.2).2.ns = 1 := by
  cases hno : resynched call with
  | false =>
    obtain ⟨n, -, hns⟩ := @protocolT1Command_numbers r call.1 call.2 hno
    rw [hns]
    exact toggle_iterate_bit r.ns_bit n
  | true => exact Or.inl (resynched_ns hno)

/-- The reader after a command. -/
def T1Reader.next (r : T1Reader) (call : List Byte × List Turn) : T1Reader :=
  { r with ns := (protocolT1Command r call.1 call.2).2.ns, ns_bit := protocolT1Command_ns_bit r call }

/-- The blocks that a run of commands sends. -/
def sentBy : T1Reader → List (List Byte × List Turn) → List (List Byte)
  | _, [] => []
  | r, call :: calls => (protocolT1Command r call.1 call.2).2.sent ++ sentBy (r.next call) calls

theorem sendNumbers_sentBy {calls : List (List Byte × List Turn)} (hno : ∀ call ∈ calls, resynched call = false) :
    ∃ n, sendNumbers (sentBy r calls) = (List.range n).map fun k => toggle^[k + 1] r.ns := by
  induction calls generalizing r with
  | nil => exact ⟨0, rfl⟩
  | cons call calls ih =>
    obtain ⟨hcall, hcalls⟩ := List.forall_mem_cons.mp hno
    obtain ⟨n, hn, hns⟩ := @protocolT1Command_numbers r call.1 call.2 hcall
    obtain ⟨m, hm⟩ := @ih (r.next call) hcalls
    refine ⟨n + m, ?_⟩
    rw [sentBy, sendNumbers_append, hn, hm, List.range_add, List.map_append, List.map_map]
    congr 1
    apply List.map_congr_left
    intro k _
    change toggle^[k + 1] (protocolT1Command r call.1 call.2).2.ns = toggle^[n + k + 1] r.ns
    rw [hns, ← Function.iterate_add_apply, Nat.add_right_comm, Nat.add_comm n]

theorem toggle_iterate_zero (k : ℕ) : toggle^[k] 0 = .ofNat 8 (k % 2) := by
  induction k with
  | zero => rfl
  | succ k ih =>
    rw [Function.iterate_succ_apply', ih]
    rcases Nat.mod_two_eq_zero_or_one k with h | h
    · rw [h, Nat.succ_mod_two_eq_one_iff.mpr h]
      rfl
    · rw [h, Nat.succ_mod_two_eq_zero_iff.mpr h]
      rfl

/-- In every run of commands the I-blocks have the numbers 0, 1, 0, ... after the card is activated, but
1, 0, 1, ... after a resynchronisation that the card accepts, whatever was before. -/
theorem sendNumbers_alternate (calls : List (List Byte × List Turn)) (hno : ∀ call ∈ calls, resynched call = false) :
    (∀ smargopatch ta, ∃ n, sendNumbers (sentBy (initCard smargopatch ta) calls) =
      (List.range n).map fun k => .ofNat 8 (k % 2)) ∧
    ∀ (r : T1Reader) (call : List Byte × List Turn), resynched call = true →
      ∃ n, sendNumbers (sentBy (r.next call) calls) = (List.range n).map fun k => .ofNat 8 ((k + 1) % 2) := by
  refine ⟨fun smargopatch ta => ?_, fun r call hcall => ?_⟩
  · obtain ⟨n, hn⟩ := sendNumbers_sentBy (r := initCard smargopatch ta) hno
    refine ⟨n, hn.trans (List.map_congr_left fun k _ => ?_)⟩
    rw [← toggle_iterate_zero, Function.iterate_succ_apply]
    rfl
  · obtain ⟨n, hn⟩ := sendNumbers_sentBy (r := r.next call) hno
    refine ⟨n, hn.trans (List.map_congr_left fun k _ => ?_)⟩
    have hns : (r.next call).ns = 0 := resynched_ns hcall
    rw [hns, toggle_iterate_zero]

/-- Two commands that the card leaves unanswered. -/
theorem sendNumbers_alternate_two :
    (∃ n, sendNumbers (sentBy (initCard false none) [([0x80, 0x12], []), ([0x80, 0x14], [])]) =
      (List.range n).map fun k => .ofNat 8 (k % 2)) ∧
    sendNumbers (sentBy (initCard false none) [([0x80, 0x12], []), ([0x80, 0x14], [])]) = [0, 1] :=
  ⟨(sendNumbers_alternate [([0x80, 0x12], []), ([0x80, 0x14], [])] (by decide)).1 false none, by decide⟩

end Numbers

end NCam.CardReader.T1
