import NCam.Cccam.Link
import NCam.Lib.Reads

/-! The memory that `cc_recv` touches while it receives a message and handles command 05. -/
namespace NCam.Cccam.MsgRecv

open NCam.Lib NCam.Lib.Reads NCam.Util
open NCam.Cccam.Link (CcMsgType)

def CC_MAXMSGSIZE : ℕ := 0x400

/-- The caller's buffer, the fields `receive_buffer` and `cmd05_data`, and the locals of
`send_cmd05_answer`. -/
inductive Area
  | buf
  | receiveBuffer
  | cmd05Data
  | aeskey
  | out

/-- `cc_cmd05_mode`. -/
inductive CcCmd05Mode
  | unknown
  | plain
  | aes
  | ccCrypt
  | rc4Crypt
  | len0
deriving DecidableEq

/-- The fields of `cc_data` used here. `cmd05Data` are the `cmd05_data_len` bytes of `cmd05_data`. -/
structure CcData where
  decrypt : CcCryptBlock
  gFlag : Byte
  lastMsg : Byte
  justLoggedIn : Bool
  cmd05Active : Byte
  cmd05Data : List Byte
  cmd05Mode : CcCmd05Mode
  cmd05Aeskey : Vector Byte 16
  cmd05Cryptkey : CcCryptBlock
  ecmBusy : Bool
  hasCards : Bool
  maxEcms : ℕ
  ecmCounter : ℕ
  cmd05NOK : Bool
deriving DecidableEq

/-- `isClient` stands for `typ == 'c'`. -/
structure SClient where
  isClient : Bool
  udpFd : ℤ
  kill : Bool
  cc : CcData
deriving DecidableEq

/-- One round of `cc_rc4_crypt`. -/
def rc4Byte (block : CcCryptBlock) (x : Byte) (mode : CcCryptMode) : Byte × CcCryptBlock :=
  let counter := block.counter + 1
  let sum := block.sum + block.keytable.get counter.toFin
  let keytable := block.keytable.swapIfInBounds counter.toNat sum.toNat
  let y := x ^^^ keytable.get (keytable.get counter.toFin + keytable.get sum.toFin).toFin
  let z := match mode with
    | .decrypt => y
    | .encrypt => x
  (y, ⟨keytable, block.state ^^^ z, counter, sum⟩)

def ccRc4Crypt (block : CcCryptBlock) (data : List Byte) (mode : CcCryptMode) :
    List Byte × CcCryptBlock :=
  match data with
  | [] => ([], block)
  | x :: data =>
    let (y, block) := rc4Byte block x mode
    let (ys, block) := ccRc4Crypt block data mode
    (y :: ys, block)

section Cmd05

-- `AES_encrypt` with a key, on a block of 16 bytes.
variable (aes : Vector Byte 16 → List Byte → List Byte)

/-- The loop over the blocks from `i` on. -/
def encryptBlocks (key : Vector Byte 16) : ℕ → ℕ → List Byte → Reads (Span Area) (List Byte)
  | _, 0, _ => return []
  | i, n + 1, data => do
    touch .cmd05Data i 16
    touch .out i 16
    let rest ← encryptBlocks key (i + 16) n (data.drop 16)
    return aes key (data.take 16) ++ rest

/-- The answer for 256 bytes, with the mode it was made in. -/
def cmd05Answer (cc : CcData) : Reads (Span Area) (CcData × Option (List Byte)) :=
  match cc.cmd05Mode with
  | .plain => do
    touch .cmd05Data 0 256
    return (cc, some cc.cmd05Data)
  | .aes => do
    touch .aeskey 0 16
    let out ← encryptBlocks aes cc.cmd05Aeskey 0 16 cc.cmd05Data
    touch .out 0 256
    return (cc, some out)
  | .ccCrypt => do
    touch .cmd05Data 0 256
    let (data, block) := ccCrypt cc.cmd05Cryptkey cc.cmd05Data .encrypt
    touch .cmd05Data 0 256
    return ({ cc with cmd05Data := data, cmd05Cryptkey := block }, some data)
  | .rc4Crypt => do
    touch .cmd05Data 0 256
    let (data, block) := ccRc4Crypt cc.cmd05Cryptkey cc.cmd05Data .decrypt
    touch .cmd05Data 0 256
    return ({ cc with cmd05Data := data, cmd05Cryptkey := block }, some data)
  | _ => return (cc, none)

/-- `send_cmd05_answer`, with the payload sent. -/
def sendCmd05Answer (cc : CcData) : Reads (Span Area) (CcData × Option (List Byte)) := do
  if cc.cmd05Active = 0 ∨ cc.ecmBusy = true then return (cc, none)
  let cc := { cc with cmd05Active := cc.cmd05Active - 1 }
  if cc.cmd05Active ≠ 0 then return (cc, none)
  let (cc, answer) ←
    if cc.cmd05Data.length = 0 then pure (cc, some [])
    else if cc.cmd05Data.length = 256 then cmd05Answer aes cc
    else pure (cc, none)
  let cc := if answer = none ∧ cc.maxEcms = 0 then { cc with maxEcms := 50, ecmCounter := 0 } else cc
  return ({ cc with cmd05NOK := true }, some (answer.getD []))

/-- What `cc_parse_msg` does with every message, and with command 05. -/
def parseCmd05 (cl : SClient) (buf : List Byte) : Reads (Span Area) (SClient × Option (List Byte)) := do
  if cl.kill = true ∨ buf.length < 4 then return (cl, none)
  touch .buf 4 (buf.length - 4)
  touch .receiveBuffer 0 (buf.length - 4)
  let cc := { cl.cc with lastMsg := buf.getD 1 0 }
  if buf.getD 1 0 ≠ CcMsgType.cmd05.code.setWidth 8 ∨ cl.isClient = true then
    return ({ cl with cc := cc }, none)
  touch .buf 4 (buf.length - 4)
  touch .cmd05Data 0 (buf.length - 4)
  let cc := { cc with justLoggedIn := false, cmd05Active := 1, cmd05Data := buf.drop 4 }
  if cc.ecmBusy = true ∨ cc.hasCards = false then return ({ cl with cc := cc }, none)
  let (cc, answer) ← sendCmd05Answer aes cc
  return ({ cl with cc := cc }, answer)

end Cmd05

/-- What `cc_msg_recv` returns, and the message in the buffer. -/
structure Received where
  ret : ℤ
  cl : SClient
  buf : List Byte

/-- The length in a decrypted header. -/
def msgSize (header : List Byte) : ℕ := (header.getD 2 0).toNat <<< 8 ||| (header.getD 3 0).toNat

/-- `cc_msg_recv` behind the header, with the bytes that arrive until the peer closes the connection. -/
def recvPayload (cl : SClient) (maxlen : ℤ) (header arriving : List Byte) : Reads (Span Area) Received := do
  if msgSize header = 0 then return ⟨4, cl, header⟩
  if maxlen < msgSize header then return ⟨0, cl, header⟩
  let data := arriving.take (msgSize header)
  touch .buf 4 data.length
  if data.length ≠ msgSize header then return ⟨-1, cl, header ++ data⟩
  touch .buf 4 data.length
  let (data, decrypt) := ccCrypt cl.cc.decrypt data .decrypt
  return ⟨data.length + 4, { cl with cc := { cl.cc with decrypt := decrypt } }, header ++ data⟩

/-- The header of what arrives, decrypted. -/
def header (cl : SClient) (wire : List Byte) : List Byte :=
  (ccCrypt cl.cc.decrypt (wire.take 4) .decrypt).1

/-- The client behind the header. -/
def headerRead (cl : SClient) (wire : List Byte) : SClient :=
  { cl with cc := { cl.cc with
    decrypt := (ccCrypt cl.cc.decrypt (wire.take 4) .decrypt).2, gFlag := (header cl wire).getD 0 0 } }

def ccMsgRecv (cl : SClient) (maxlen : ℤ) (wire : List Byte) : Reads (Span Area) Received := do
  if cl.udpFd ≤ 0 ∨ maxlen < 4 then return ⟨-1, cl, []⟩
  touch .buf 0 (wire.take 4).length
  if (wire.take 4).length ≠ 4 then return ⟨-1, cl, wire.take 4⟩
  touch .buf 0 4
  recvPayload (headerRead cl wire) maxlen (header cl wire) (wire.drop 4)

/-- `cc_recv`, up to the answer to command 05. -/
def ccRecv (aes : Vector Byte 16 → List Byte → List Byte) (cl : SClient) (l : ℤ) (wire : List Byte) :
    Reads (Span Area) (SClient × Option (List Byte)) := do
  if l ≤ 0 then return (cl, none)
  let msg ← ccMsgRecv cl l wire
  if msg.ret < 4 ∨ (CC_MAXMSGSIZE : ℤ) < msg.ret then return (msg.cl, none)
  parseCmd05 aes msg.cl msg.buf

section Claims

/-- The sizes of the areas, for a buffer of `maxlen` bytes. -/
def areaSize (maxlen : ℤ) : Area → ℕ
  | .buf => maxlen.toNat
  | .receiveBuffer => CC_MAXMSGSIZE
  | .cmd05Data => 256
  | .aeskey => 16
  | .out => 256

variable (aes : Vector Byte 16 → List Byte → List Byte) (cl : SClient) (l : ℤ) (wire : List Byte)

/-- All that is touched lies in the areas. -/
def Safe : Prop := (ccRecv aes cl l wire).All (Span.Within (areaSize l))

/-- A length that is not refused leaves room for the header, or not so many bytes arrive. -/
def BufFits : Prop :=
  msgSize (header cl wire) ≤ l → (min (msgSize (header cl wire)) (wire.length - 4) + 4 : ℕ) ≤ l

/-- A whole command 05 that reaches the reader has at most 256 bytes. -/
def Cmd05Fits : Prop :=
  cl.kill = false → cl.isClient = false → (header cl wire).getD 1 0 = 0x05 →
    msgSize (header cl wire) ≤ l → msgSize (header cl wire) + 4 ≤ wire.length →
      msgSize (header cl wire) + 4 ≤ CC_MAXMSGSIZE → msgSize (header cl wire) ≤ 256

/-- No message is read, or it fits into the buffer and into `cmd05_data`. -/
def Fits : Prop :=
  cl.udpFd ≤ 0 ∨ l < 4 ∨ wire.length < 4 ∨ (BufFits cl l wire ∧ Cmd05Fits cl l wire)

variable {aes cl l wire}

private theorem all_encryptBlocks (key : Vector Byte 16) (n : ℕ) : ∀ (i : ℕ) (data : List Byte),
    i + 16 * n ≤ 256 → (encryptBlocks aes key i n data).All (Span.Within (areaSize l)) := by
  induction n with
  | zero =>
    intro i data h
    simp [encryptBlocks]
  | succ n ih =>
    intro i data h
    have hrest := ih (i + 16) (data.drop 16) (by omega)
    have hblock : i + 16 ≤ 256 := by omega
    simp [encryptBlocks, areaSize, hblock, hrest]

private theorem all_cmd05Answer (cc : CcData) :
    (cmd05Answer aes cc).All (Span.Within (areaSize l)) := by
  have hblocks : (encryptBlocks aes cc.cmd05Aeskey 0 16 cc.cmd05Data).All (Span.Within (areaSize l)) :=
    all_encryptBlocks cc.cmd05Aeskey 16 0 cc.cmd05Data (by omega)
  unfold cmd05Answer
  split <;> simp [areaSize, hblocks]

/-- The answer to command 05 is made inside the fixed buffers, whatever was stored. -/
theorem all_sendCmd05Answer (cc : CcData) :
    (sendCmd05Answer aes cc).All (Span.Within (areaSize l)) := by
  unfold sendCmd05Answer
  split_ifs
  all_goals simp [all_cmd05Answer]

/-- A message of at most `CC_MAXMSGSIZE` bytes is parsed inside the areas if and only if it is no command 05
of the reader with more than 256 bytes. -/
theorem all_parseCmd05_iff {buf : List Byte} (hbuf : buf.length ≤ l) (hmax : buf.length ≤ CC_MAXMSGSIZE) :
    (parseCmd05 aes cl buf).All (Span.Within (areaSize l)) ↔
      (4 ≤ buf.length → cl.kill = false → cl.isClient = false → buf.getD 1 0 = 0x05 →
        buf.length ≤ 260) := by
  have hcode : CcMsgType.cmd05.code.setWidth 8 = (0x05 : Byte) := rfl
  have hdata : 4 ≤ buf.length → 4 + (buf.length - 4) ≤ l.toNat := by omega
  have hcopy : buf.length - 4 ≤ CC_MAXMSGSIZE := by omega
  unfold parseCmd05
  rw [hcode]
  by_cases hskip : cl.kill = true ∨ buf.length < 4
  · rw [if_pos hskip]
    simp only [all_pure, true_iff]
    intro hlen hkill
    have hshort : buf.length < 4 := hskip.resolve_left (by simp [hkill])
    omega
  · obtain ⟨hkill, hlen⟩ := not_or.mp hskip
    have hroom := hdata (by omega)
    rw [if_neg hskip]
    by_cases hother : buf.getD 1 0 ≠ (0x05 : Byte) ∨ cl.isClient = true
    · rw [if_pos hother]
      simp only [all_bind, all_touch, all_pure, areaSize, hroom, hcopy, Nat.zero_add, and_true, true_iff]
      intro _ _ hclient hcmd
      rw [hclient] at hother
      exact absurd hcmd (hother.resolve_right Bool.false_ne_true)
    · obtain ⟨hcmd, hclient⟩ := not_or.mp hother
      rw [if_neg hother]
      have hwithin : (buf.length - 4 ≤ 256) ↔ buf.length ≤ 260 := by omega
      simp only [all_bind, all_touch, all_ite, all_pure, all_sendCmd05Answer, areaSize, hroom, hcopy,
        Nat.zero_add, hwithin, implies_true, and_true, true_and]
      constructor
      · intro h _ _ _ _
        exact h
      · intro h
        exact h (by omega) (by simpa using hkill) (by simpa using hclient) (not_not.mp hcmd)

@[simp] theorem length_ccCrypt (block : CcCryptBlock) (data : List Byte) :
    (ccCrypt block data .decrypt).1.length = data.length := by
  rw [ccCrypt_decrypt]
  exact cipher.length_decrypt block data

variable {head arriving : List Byte}

private theorem all_recvPayload_iff (hl : 4 ≤ l) :
    (recvPayload cl l head arriving).All (Span.Within (areaSize l)) ↔
      (msgSize head ≤ l → (min (msgSize head) arriving.length + 4 : ℕ) ≤ l) := by
  simp only [recvPayload, all_bind, all_touch, areaSize, all_ite, all_pure, true_and, List.length_take,
    implies_true, and_true]
  constructor
  · intro h hsize
    by_cases hzero : msgSize head = 0
    · omega
    · have hdata := (h hzero (by omega)).1
      omega
  · intro h _ hsize
    have hdata := h (by omega)
    exact ⟨by omega, fun _ => by omega⟩

/-- A message is received inside the buffer if and only if none is read, or a length that is not refused
leaves room for the header. -/
theorem all_ccMsgRecv_iff : (ccMsgRecv cl l wire).All (Span.Within (areaSize l)) ↔
    cl.udpFd ≤ 0 ∨ l < 4 ∨ wire.length < 4 ∨ BufFits cl l wire := by
  unfold ccMsgRecv BufFits
  by_cases hclosed : cl.udpFd ≤ 0 ∨ l < 4
  · rw [if_pos hclosed]
    simp only [all_pure, true_iff]
    tauto
  · rw [if_neg hclosed]
    obtain ⟨hopen, hl⟩ := not_or.mp hclosed
    have hpayload := @all_recvPayload_iff (headerRead cl wire) l (header cl wire) (wire.drop 4) (not_lt.mp hl)
    simp only [all_bind, all_touch, areaSize, Nat.zero_add, all_ite, all_pure, true_and, hpayload,
      List.length_take, List.length_drop, hopen, hl, false_or, implies_true]
    by_cases hshort : wire.length < 4
    · simp only [hshort, true_or, iff_true]
      exact ⟨by omega, fun h => absurd h (by omega)⟩
    · simp only [hshort, false_or]
      constructor
      · intro h
        exact (h.2 (by omega)).2
      · intro h
        exact ⟨by omega, fun _ => ⟨by omega, h⟩⟩

/-- The bytes behind the header that are not refused and arrive are returned with it. -/
private theorem recvPayload_whole (hhead : head.length = 4) (hsize : msgSize head ≤ l)
    (harrive : msgSize head ≤ arriving.length) :
    (recvPayload cl l head arriving).value.ret = msgSize head + 4 ∧
      (recvPayload cl l head arriving).value.buf.length = msgSize head + 4 ∧
      (recvPayload cl l head arriving).value.buf.take 4 = head ∧
      (recvPayload cl l head arriving).value.cl.kill = cl.kill ∧
      (recvPayload cl l head arriving).value.cl.isClient = cl.isClient := by
  have hdata : (arriving.take (msgSize head)).length = msgSize head := by
    rw [List.length_take]
    omega
  unfold recvPayload
  by_cases hzero : msgSize head = 0
  · simp only [hzero, if_true, value_pure]
    exact ⟨rfl, hhead, List.take_of_length_le (by omega), trivial, trivial⟩
  · rw [if_neg hzero, if_neg (by omega)]
    simp only [value_bind, value_pure, hdata, ne_eq, not_true_eq_false, if_false,
      length_ccCrypt, List.length_append, hhead, true_and, and_true]
    exact ⟨Nat.add_comm _ _, by rw [← hhead, List.take_left]⟩

/-- Otherwise the parser gets nothing. -/
private theorem recvPayload_short (hzero : msgSize head ≠ 0)
    (h : l < msgSize head ∨ arriving.length < msgSize head) :
    (recvPayload cl l head arriving).value.ret < 4 := by
  unfold recvPayload
  rw [if_neg hzero]
  by_cases hbig : l < msgSize head
  · simp [hbig]
  · have hdata : (arriving.take (msgSize head)).length ≠ msgSize head := by
      rw [List.length_take]
      omega
    rw [if_neg hbig]
    simp only [value_bind]
    rw [if_pos hdata]
    simp

/-- A whole message arrives. -/
def Whole (cl : SClient) (l : ℤ) (wire : List Byte) : Prop :=
  0 < cl.udpFd ∧ 4 ≤ l ∧ msgSize (header cl wire) ≤ l ∧ msgSize (header cl wire) + 4 ≤ wire.length

private theorem value_ccMsgRecv (hopen : 0 < cl.udpFd) (hl : 4 ≤ l) (hwire : 4 ≤ wire.length) :
    (ccMsgRecv cl l wire).value =
      (recvPayload (headerRead cl wire) l (header cl wire) (wire.drop 4)).value := by
  have hclosed : ¬ (cl.udpFd ≤ 0 ∨ l < 4) := by omega
  have hlen : ¬ (wire.take 4).length ≠ 4 := by
    rw [List.length_take]
    omega
  unfold ccMsgRecv
  rw [if_neg hclosed]
  simp only [value_bind]
  rw [if_neg hlen]
  rfl

private theorem ccMsgRecv_short (h : ¬ Whole cl l wire) : (ccMsgRecv cl l wire).value.ret < 4 := by
  unfold Whole at h
  by_cases hread : 0 < cl.udpFd ∧ 4 ≤ l ∧ 4 ≤ wire.length
  · obtain ⟨hopen, hl, hwire⟩ := hread
    rw [value_ccMsgRecv hopen hl hwire]
    apply recvPayload_short
    · omega
    · rw [List.length_drop]
      omega
  · unfold ccMsgRecv
    by_cases hclosed : cl.udpFd ≤ 0 ∨ l < 4
    · simp [hclosed]
    · have hlen : (wire.take 4).length ≠ 4 := by
        rw [List.length_take]
        omega
      rw [if_neg hclosed]
      simp only [value_bind]
      rw [if_pos hlen]
      simp

private theorem ccMsgRecv_whole (h : Whole cl l wire) :
    (ccMsgRecv cl l wire).value.ret = msgSize (header cl wire) + 4 ∧
      (ccMsgRecv cl l wire).value.buf.length = msgSize (header cl wire) + 4 ∧
      (ccMsgRecv cl l wire).value.buf.getD 1 0 = (header cl wire).getD 1 0 ∧
      (ccMsgRecv cl l wire).value.cl.kill = cl.kill ∧
      (ccMsgRecv cl l wire).value.cl.isClient = cl.isClient := by
  obtain ⟨hopen, hl, hsize, hwire⟩ := h
  have hhead : (header cl wire).length = 4 := by
    simp only [header, length_ccCrypt, List.length_take]
    omega
  have harrive : msgSize (header cl wire) ≤ (wire.drop 4).length := by
    rw [List.length_drop]
    omega
  rw [value_ccMsgRecv hopen hl (by omega)]
  obtain ⟨hret, hlen, htake, hkill, hclient⟩ :=
    @recvPayload_whole (headerRead cl wire) l (header cl wire) (wire.drop 4) hhead hsize harrive
  refine ⟨hret, hlen, ?_, hkill, hclient⟩
  have hsecond := congrArg (·.getD 1 0) htake
  simpa [List.getD_eq_getElem?_getD, List.getElem?_take] using hsecond

/-- What is received and handled stays in the buffers if and only if nothing is read, or the message fits
into the caller's buffer behind its header and a command 05 into `cmd05_data`. -/
theorem safe_iff (aes : Vector Byte 16 → List Byte → List Byte) (cl : SClient) (l : ℤ)
    (wire : List Byte) : Safe aes cl l wire ↔ Fits cl l wire := by
  unfold Safe ccRecv Fits
  by_cases hl : l ≤ 0
  · rw [if_pos hl]
    simp only [all_pure, true_iff]
    omega
  rw [if_neg hl, all_bind, all_ccMsgRecv_iff]
  by_cases hwhole : Whole cl l wire
  · have hread : ¬ (cl.udpFd ≤ 0) ∧ ¬ (l < 4) ∧ ¬ (wire.length < 4) := by
      unfold Whole at hwhole
      omega
    simp only [hread, false_or]
    apply and_congr_right
    intro hbuf
    obtain ⟨hret, hlen, hcmd, hkill, hclient⟩ := ccMsgRecv_whole hwhole
    obtain ⟨-, -, hsize, hwire⟩ := hwhole
    have hfits := hbuf hsize
    unfold Cmd05Fits
    by_cases hmax : msgSize (header cl wire) + 4 ≤ CC_MAXMSGSIZE
    · rw [if_neg (by omega), all_parseCmd05_iff (by omega) (by omega), hcmd, hkill, hclient, hlen]
      have hwithin : (msgSize (header cl wire) + 4 ≤ 260) ↔ msgSize (header cl wire) ≤ 256 := by omega
      simp only [hsize, hwire, hmax, hwithin, Nat.le_add_left, true_implies]
    · rw [if_pos (by omega)]
      simp only [all_pure, true_iff]
      intro _ _ _ _ _ hle
      exact absurd hle hmax
  · have hshort := ccMsgRecv_short hwhole
    have hcmd : 0 < cl.udpFd → 4 ≤ l → Cmd05Fits cl l wire := by
      intro hopen hl4 _ _ _ hsize hwire
      exact absurd ⟨hopen, hl4, hsize, hwire⟩ hwhole
    rw [if_pos (.inl hshort)]
    simp only [all_pure, and_true]
    by_cases hclosed : cl.udpFd ≤ 0 ∨ l < 4
    · tauto
    · simp only [hcmd (by omega) (by omega), and_true]

/-- The header that a peer in step sends is read as it was. -/
private theorem header_sent {msg rest : List Byte} (hmsg : msg.length = 4) :
    header cl ((ccCrypt cl.cc.decrypt msg .encrypt).1 ++ rest) = msg := by
  have hlen : (cipher.encrypt cl.cc.decrypt msg).length = 4 := by rw [cipher.length_encrypt, hmsg]
  unfold header
  rw [ccCrypt_encrypt, ← hlen, List.take_left, ccCrypt_decrypt]
  exact cipher.decrypt_encrypt cl.cc.decrypt msg

private def zeroBlock : CcCryptBlock := ⟨Vector.replicate 256 0, 0, 0, 0⟩

private def server0 : SClient :=
  ⟨true, 1, false, ⟨zeroBlock, 0, 0, false, 0, [], .unknown, Vector.replicate 16 0, zeroBlock, false, false,
    0, 0, false⟩⟩

/-- A keepalive with 2048 bytes in the buffer of 2048 bytes. -/
theorem keepalive_unsafe : ¬ Safe (fun _ _ => []) server0 2048
    ((ccCrypt zeroBlock [0, 6, 8, 0] .encrypt).1 ++ List.replicate 2048 0) := by
  intro h
  unfold Safe ccRecv at h
  rw [if_neg (by omega), all_bind] at h
  have hheader : header server0 ((ccCrypt zeroBlock [0, 6, 8, 0] .encrypt).1 ++ List.replicate 2048 0) =
      [0, 6, 8, 0] := header_sent rfl
  have hlen : ((ccCrypt zeroBlock [0, 6, 8, 0] .encrypt).1 ++ List.replicate 2048 (0 : Byte)).length =
      2052 := by
    rw [ccCrypt_encrypt, List.length_append, cipher.length_encrypt, List.length_replicate]
    rfl
  have hsize : msgSize [0, 6, 8, 0] = 2048 := by decide
  obtain hclosed | hsmall | hshort | hfits := all_ccMsgRecv_iff.mp h.1
  · exact absurd hclosed (by decide)
  · omega
  · omega
  · unfold BufFits at hfits
    rw [hheader, hlen, hsize] at hfits
    omega

end Claims

end NCam.Cccam.MsgRecv
