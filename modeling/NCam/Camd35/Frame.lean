import NCam.Lib.Blocks
import NCam.Lib.Socket
import NCam.Util.Bytes

/-! The frame of a camd35 message: `__camd35_send` and `camd35_recv`, and what the second makes of the bytes of the
first. -/
namespace NCam.Camd35

open NCam.Lib NCam.Lib.Memory NCam.Util

def MAX_ECM_SIZE : ℕ := 1024

def REQ_SIZE : ℕ := 20 + MAX_ECM_SIZE + 0x34

def DEFAULT_MODULE_BUFSIZE : ℕ := 1024

/-- `boundary` for a positive `n`. -/
def boundary (exp n : ℕ) : ℕ := (((n - 1) >>> exp) + 1) <<< exp

/-- The two directions of the AES key of a client. -/
structure Aes where
  encrypt : Vector Byte 16 → Vector Byte 16
  decrypt : Vector Byte 16 → Vector Byte 16
  decrypt_encrypt : ∀ b, decrypt (encrypt b) = b

/-- `aes_encrypt_idx` of the `n` bytes at `o`. -/
def Aes.encryptIdx (aes : Aes) (buf : ℕ → Byte) (o n : ℕ) : ℕ → Byte :=
  Ecb.apply aes.encrypt ((n + 15) / 16) o buf

/-- `aes_decrypt` of the `n` bytes at `o`. -/
def Aes.decryptAt (aes : Aes) (buf : ℕ → Byte) (o n : ℕ) : ℕ → Byte :=
  Ecb.apply aes.decrypt ((n + 15) / 16) o buf

/-- The length of the section at 20. -/
def sectionLen (buf : ℕ → Byte) : ℕ := (((buf 21 &&& 0x0F).toNat <<< 8) ||| (buf 22).toNat) + 3

/-- The checksum that both sides compute. -/
abbrev Crc32 := List Byte → BitVec 32

/-- The sending side of a client. -/
structure Sender where
  udpFd : Bool
  crypted : Bool
  ucrc : Vector Byte 4
  aes : Aes

/-- The length of the body, which a sender leaves open with 0. -/
def bodyLen (buf : ℕ → Byte) (buflen : ℕ) : ℕ :=
  if buflen = 0 then (if buf 0 = 0 then sectionLen buf else (buf 1).toNat) else buflen

/-- What follows the body of a cascading request or answer. -/
def tailLen (buf : ℕ → Byte) : ℕ := if buf 0 = 3 ∨ buf 0 = 4 then 0x34 else 0

/-- `sbuf` before it is encrypted. -/
def framed (crc32 : Crc32) (buf : ℕ → Byte) (buflen : ℕ) : ℕ → Byte :=
  let l := 20 + tailLen buf + buflen
  let sbuf := put (fun _ => 0) 0 (slice buf 0 l)
  let sbuf := put sbuf l (List.replicate 15 0xFF)
  i2bBuf 4 (crc32 (slice sbuf 20 buflen)) sbuf 4

/-- The bytes that are sent: `none` where they do not fit into `rbuf`, and no bytes for the result -1. -/
def camd35Send (crc32 : Crc32) (cl : Sender) (buf : ℕ → Byte) (buflen : ℕ) : Option (List Byte) :=
  if !cl.udpFd || !cl.crypted then some []
  else
    let buflen := bodyLen buf buflen
    let l := 20 + tailLen buf + buflen
    if 4 + REQ_SIZE + 15 < 4 + l + 15 then none
    else
      let sbuf := framed crc32 buf buflen
      let l := boundary 4 l
      some (cl.ucrc.toList ++ slice (cl.aes.encryptIdx sbuf 0 l) 0 l)

/-- The receiving side of a client; `server` is the type 'c', and `login` the result of the search for an
account. -/
structure Peer where
  udpFd : Bool
  isUdp : Bool
  server : Bool
  upwd : Bool
  ucrc : Vector Byte 4
  login : List Byte → ℕ
  aes : Aes

/-- `camd35_auth_client`. -/
def Peer.authClient (p : Peer) (ucrc : List Byte) : ℕ :=
  if p.upwd then (if p.ucrc.toList = ucrc then 0 else 1) else p.login ucrc

/-- The bytes of a datagram that arrive: a server reads into the 1024 bytes behind the three of its pipe
message. -/
def Peer.datagram (p : Peer) : ℕ := if p.server then 1024 - 3 else DEFAULT_MODULE_BUFSIZE

/-- The first read. -/
def Peer.receive (p : Peer) (segs : List (List Byte)) : List Byte × List (List Byte) :=
  if p.isUdp then
    match segs with
    | [] => ([], [])
    | seg :: segs => (seg.take p.datagram, segs)
  else Socket.readFull true 36 segs

/-- The length of the body, by the first block. -/
def announced (buf : ℕ → Byte) : ℕ :=
  if buf 0 = 0 then sectionLen buf
  else if buf 0 = 0x40 ∨ buf 0 = 0x41 ∨ buf 0 = 0x42 ∨ buf 0 = 0x3D ∨ buf 0 = 0x3E ∨ buf 0 = 0x3F then
    (buf 1).toNat ||| ((buf 2).toNat <<< 8)
  else (buf 1).toNat

/-- The size of the packet, by the first block. -/
def packetLen (buf : ℕ → Byte) : ℕ :=
  boundary 4 ((if buf 0 = 3 then 0x34 else 0) + 20 + announced buf)

/-- The result, the buffer and what is left on the socket. -/
structure Recv where
  rc : ℤ
  buf : ℕ → Byte
  rest : List (List Byte)

/-- The rest of a packet of `n` bytes of which `rs` are there; `none` where it does not fit into the buffer. -/
def Peer.readRest (p : Peer) (buf : ℕ → Byte) (rs n : ℕ) (segs : List (List Byte)) :
    Option ((ℕ → Byte) × ℕ × List (List Byte)) :=
  if ¬ (p.isUdp ∧ p.server) ∧ rs < n ∧ 32 < n then
    let (got, segs) := Socket.readFull (!p.isUdp) (n - 32) segs
    if DEFAULT_MODULE_BUFSIZE < 32 + got.length then none
    else some (p.aes.decryptAt (put buf 32 got) 32 got.length, rs + got.length, segs)
  else some (buf, rs, segs)

/-- The end of `camd35_recv` for a packet of `n` bytes of which `rs` are there. -/
def checked (crc32 : Crc32) (buflen n : ℕ) (buf : ℕ → Byte) (rs : ℕ) (segs : List (List Byte)) : Recv :=
  if rs < n then ⟨-3, buf, segs⟩
  else if crc32 (slice buf 20 buflen) ≠ b2i 4 buf 4 then ⟨-4, buf, segs⟩
  else ⟨n, buf, segs⟩

/-- `camd35_recv`; `none` where it writes behind the buffer. -/
def camd35Recv (crc32 : Crc32) (p : Peer) (buf : ℕ → Byte) (segs : List (List Byte)) : Option Recv :=
  if !p.udpFd then some ⟨-9, buf, segs⟩
  else
    let (got, segs) := p.receive segs
    let buf := put buf 0 got
    if got.length < 36 then some ⟨if p.isUdp then -1 else -5, buf, segs⟩
    else
      let auth := p.authClient (slice buf 0 4)
      let rs := got.length - 4
      let buf := put buf 0 (slice buf 4 rs)
      if auth ≠ 0 then some ⟨if auth = 1 then -2 else -9, buf, segs⟩
      else
        let buf := p.aes.decryptAt buf 0 rs
        let buflen := announced buf
        let n := packetLen buf
        (p.readRest buf rs n segs).map fun (buf, rs, segs) => checked crc32 buflen n buf rs segs

section Boundary

theorem boundary_eq (n : ℕ) : boundary 4 n = ((n - 1) / 16 + 1) * 16 := by
  simp [boundary, Nat.shiftRight_eq_div_pow, Nat.shiftLeft_eq]

theorem blocks_boundary {n : ℕ} : boundary 4 n / 16 * 16 = boundary 4 n := by
  rw [boundary_eq]
  omega

theorem le_boundary (n : ℕ) : n ≤ boundary 4 n := by
  rw [boundary_eq]
  omega

end Boundary

/-- Both sides are connected with one key, and the receiver knows the user. -/
structure Session (cl : Sender) (p : Peer) : Prop where
  sender : cl.udpFd = true ∧ cl.crypted = true
  peer : p.udpFd = true
  user : p.authClient cl.ucrc.toList = 0
  key : p.aes = cl.aes

/-- How the bytes come to the receiver: as one datagram, or in any pieces on an open stream. -/
def Arrives (p : Peer) (wire : List Byte) (rest segs : List (List Byte)) : Prop :=
  if p.isUdp then segs = wire :: rest else [] ∉ segs ∧ segs.flatten = wire ++ rest.flatten

/-- What is left on the socket. -/
def Leaves (p : Peer) (rest segs : List (List Byte)) : Prop :=
  if p.isUdp then segs = rest else [] ∉ segs ∧ segs.flatten = rest.flatten

/-- A message as it is given to `__camd35_send`, and the length of the body that it means. -/
structure Sent where
  buf : ℕ → Byte
  buflen : ℕ
  len : ℕ

/-- The receiver gets the message, its checksum field apart, with its length, and nothing of what follows. -/
def Delivers (crc32 : Crc32) (cl : Sender) (p : Peer) (m : Sent) : Prop :=
  ∃ wire, camd35Send crc32 cl m.buf m.buflen = some wire ∧
    ∀ buf rest segs, Arrives p wire rest segs → ∃ r, camd35Recv crc32 p buf segs = some r ∧
      r.rc = boundary 4 (20 + tailLen m.buf + m.len) ∧ announced r.buf = m.len ∧
      (∀ i < 20 + tailLen m.buf + m.len, i < 4 ∨ 8 ≤ i → r.buf i = m.buf i) ∧ Leaves p rest r.rest

/-- The packet fits into the buffer of the receiver. -/
def Room (p : Peer) (l : ℕ) : Prop := boundary 4 l ≤ if p.isUdp then 1008 else 1024

instance (p : Peer) (l : ℕ) : Decidable (Room p l) := inferInstanceAs (Decidable (_ ≤ _))

/-- A key that turns every byte over, and a session with it on a stream. -/
def flipAes : Aes where
  encrypt := fun b => b.map fun x => ~~~x
  decrypt := fun b => b.map fun x => ~~~x
  decrypt_encrypt := fun b => by
    rw [Vector.map_map]
    exact (congrArg (Vector.map · b) (funext fun x => BitVec.not_not)).trans (Vector.map_id b)

def demoSender : Sender := ⟨true, true, #v[1, 2, 3, 4], flipAes⟩

def demoPeer : Peer := ⟨true, false, true, true, #v[1, 2, 3, 4], fun _ => 1, flipAes⟩

theorem demoSession : Session demoSender demoPeer := ⟨⟨rfl, rfl⟩, rfl, rfl, rfl⟩

section Framed

variable {crc32 : Crc32} {buf : ℕ → Byte} {L : ℕ}

private theorem i2bBuf_of_not {v : BitVec 32} {b : ℕ → Byte} {i : ℕ} (hi : i < 4 ∨ 8 ≤ i) :
    i2bBuf 4 v b 4 i = b i := by
  rcases hi with hlo | hhi
  · exact put_of_lt hlo
  · exact put_of_le hhi

theorem put_slice {b : ℕ → Byte} {o n i : ℕ} (hi : i < n) : put b 0 (slice buf o n) i = buf (o + i) := by
  have hput := @put_at _ b 0 (slice buf o n) i (by rwa [length_slice])
  rw [Nat.zero_add] at hput
  rw [hput]
  simp [slice]

theorem framed_apply {i : ℕ} (hi : i < 20 + tailLen buf + L) (hcrc : i < 4 ∨ 8 ≤ i) :
    framed crc32 buf L i = buf i := by
  unfold framed
  rw [i2bBuf_of_not hcrc, put_of_lt hi, put_slice hi, Nat.zero_add]

/-- The checksum is that of the body as it is sent. -/
theorem framed_crc :
    b2i 4 (framed crc32 buf L) 4 = crc32 (slice (framed crc32 buf L) 20 L) := by
  have hbody : slice (framed crc32 buf L) 20 L =
      slice (put (put (fun _ => 0) 0 (slice buf 0 (20 + tailLen buf + L))) (20 + tailLen buf + L)
        (List.replicate 15 0xFF)) 20 L := by
    unfold slice
    apply List.map_congr_left
    intro i _
    exact i2bBuf_of_not (Or.inr (by omega))
  rw [hbody]
  exact b2i_four holds_put

theorem announced_congr {b : ℕ → Byte} (h : ∀ i < 3, b i = buf i)
    (hsection : buf 0 = 0 → b 21 = buf 21 ∧ b 22 = buf 22) : announced b = announced buf := by
  unfold announced
  rw [h 0 (by omega), h 1 (by omega), h 2 (by omega)]
  by_cases h0 : buf 0 = 0
  · rw [if_pos h0, if_pos h0]
    unfold sectionLen
    rw [(hsection h0).1, (hsection h0).2]
  · rw [if_neg h0, if_neg h0]

/-- The receiver finds the length that the sender took. -/
theorem announced_framed {b : ℕ → Byte} (hL : announced buf = L)
    (h : ∀ i < 32, i < 20 + tailLen buf + L → b i = framed crc32 buf L i) : announced b = L := by
  rw [← hL]
  apply announced_congr
  · intro i hi
    rw [h i (by omega) (by omega), framed_apply (by omega) (by omega)]
  · intro h0
    have hlen : 3 ≤ L := by
      rw [← hL]
      unfold announced sectionLen
      rw [if_pos h0]
      omega
    rw [h 21 (by omega) (by omega), h 22 (by omega) (by omega), framed_apply (by omega) (by omega),
      framed_apply (by omega) (by omega)]
    exact ⟨rfl, rfl⟩

/-- The size that the receiver finds is the size that was sent. -/
theorem packetLen_framed {b : ℕ → Byte} (h : announced b = L) (h0 : b 0 = buf 0) (hcmd : buf 0 ≠ 4) :
    packetLen b = boundary 4 (20 + tailLen buf + L) := by
  unfold packetLen tailLen
  rw [h, h0]
  congr 1
  by_cases h3 : buf 0 = 3
  · simp only [h3, if_true, true_or]
  · simp only [h3, hcmd, if_false, or_self]

end Framed

section Receive

variable {crc32 : Crc32} {cl : Sender} {p : Peer} {sbuf buf : ℕ → Byte} {l : ℕ}

/-- The bytes of a packet. -/
def packet (cl : Sender) (sbuf : ℕ → Byte) (l : ℕ) : List Byte :=
  cl.ucrc.toList ++ slice (cl.aes.encryptIdx sbuf 0 l) 0 l

private theorem length_packet : (packet cl sbuf l).length = 4 + l := by
  rw [packet, List.length_append, Vector.length_toList, length_slice]

private theorem packet_cell {g i : ℕ} (hg : g ≤ 4 + l) (hi : 4 + i < g) :
    put buf 0 ((packet cl sbuf l).take g) (4 + i) = cl.aes.encryptIdx sbuf 0 l i := by
  have hlen : ((packet cl sbuf l).take g).length = g := by
    rw [List.length_take, length_packet]
    omega
  have hput := @put_at _ buf 0 ((packet cl sbuf l).take g) (4 + i) (by omega)
  rw [Nat.zero_add] at hput
  rw [hput, List.getElem_take]
  unfold packet
  rw [List.getElem_append_right (by rw [Vector.length_toList]; omega)]
  simp [slice]

private theorem packet_user {g : ℕ} (hg : g ≤ 4 + l) (h4 : 4 ≤ g) :
    slice (put buf 0 ((packet cl sbuf l).take g)) 0 4 = cl.ucrc.toList := by
  have hlen : ((packet cl sbuf l).take g).length = g := by
    rw [List.length_take, length_packet]
    omega
  apply List.ext_getElem
  · rw [length_slice, Vector.length_toList]
  · intro i hi _
    rw [length_slice] at hi
    have hput := @put_at _ buf 0 ((packet cl sbuf l).take g) i (by omega)
    rw [Nat.zero_add] at hput
    simp only [slice, List.getElem_map, List.getElem_range, Nat.zero_add]
    rw [hput, List.getElem_take]
    unfold packet
    rw [List.getElem_append_left (by rw [Vector.length_toList]; omega)]

/-- The full blocks of what was read first. -/
private theorem decrypt_first (hkey : p.aes = cl.aes) {g i : ℕ} (hg : g ≤ 4 + l) (hl : l / 16 * 16 = l)
    (hi : i < (g - 4) / 16 * 16) :
    p.aes.decryptAt (put (put buf 0 ((packet cl sbuf l).take g)) 0
      (slice (put buf 0 ((packet cl sbuf l).take g)) 4 (g - 4))) 0 (g - 4) i = sbuf i := by
  have hcells : ∀ m < (g - 4) / 16 * 16, put (put buf 0 ((packet cl sbuf l).take g)) 0
      (slice (put buf 0 ((packet cl sbuf l).take g)) 4 (g - 4)) (0 + m) =
        Ecb.apply cl.aes.encrypt ((l + 15) / 16) 0 sbuf (0 + 0 * 16 + m) := by
    intro m hm
    simp only [Nat.zero_mul, Nat.zero_add]
    rw [put_slice (by omega), packet_cell hg (by omega)]
    rfl
  have happly := Ecb.apply_apply (g := p.aes.decrypt) (n := (g - 4 + 15) / 16)
    (by rw [hkey]; exact cl.aes.decrypt_encrypt) (by omega) (by omega) (by omega) hcells hi
  simp only [Nat.zero_mul, Nat.zero_add] at happly
  exact happly

/-- The rest of a packet is decrypted behind what is there. -/
private theorem decrypt_rest (hkey : p.aes = cl.aes) {i : ℕ} (hl : l / 16 * 16 = l) (h32 : 32 ≤ l)
    (hbuf : ∀ i < 32, buf i = sbuf i) (hi : i < l) :
    p.aes.decryptAt (put buf 32 (slice (cl.aes.encryptIdx sbuf 0 l) 32 (l - 32))) 32 (l - 32) i =
      sbuf i := by
  rcases Nat.lt_or_ge i 32 with hlo | hhi
  · unfold Aes.decryptAt
    rw [Ecb.apply_of_not (Or.inl hlo), put_of_lt hlo, hbuf i hlo]
  · obtain ⟨m, rfl⟩ := Nat.exists_eq_add_of_le hhi
    have hcells : ∀ m < (l - 32) / 16 * 16,
        put buf 32 (slice (cl.aes.encryptIdx sbuf 0 l) 32 (l - 32)) (32 + m) =
          Ecb.apply cl.aes.encrypt ((l + 15) / 16) 0 sbuf (0 + 2 * 16 + m) := by
      intro m hm
      rw [put_at (by rw [length_slice]; omega)]
      simp only [slice, List.getElem_map, List.getElem_range]
      rfl
    exact Ecb.apply_apply (g := p.aes.decrypt) (n := (l - 32 + 15) / 16)
      (by rw [hkey]; exact cl.aes.decrypt_encrypt) (by omega) (by omega) (by omega) hcells (by omega)

/-- After the first read the full blocks are the plain ones, and the size decides what follows. -/
private theorem recv_first (hs : Session cl p) {g : ℕ} {segs rest : List (List Byte)}
    (hread : p.receive segs = ((packet cl sbuf l).take g, rest)) (h36 : 36 ≤ g) (hg : g ≤ 4 + l)
    (hl : l / 16 * 16 = l) (buf : ℕ → Byte) : ∃ b, (∀ i < (g - 4) / 16 * 16, b i = sbuf i) ∧
      (∀ i, g ≤ i → (g - 4 + 15) / 16 * 16 ≤ i → b i = buf i) ∧
      camd35Recv crc32 p buf segs = (p.readRest b (g - 4) (packetLen b) rest).map
        fun x => checked crc32 (announced b) (packetLen b) x.1 x.2.1 x.2.2 := by
  have hlen : ((packet cl sbuf l).take g).length = g := by
    rw [List.length_take, length_packet]
    omega
  refine ⟨p.aes.decryptAt (put (put buf 0 ((packet cl sbuf l).take g)) 0
    (slice (put buf 0 ((packet cl sbuf l).take g)) 4 (g - 4))) 0 (g - 4),
    fun i hi => decrypt_first hs.key hg hl hi, ?_, ?_⟩
  · intro i hi hi'
    unfold Aes.decryptAt
    rw [Ecb.apply_of_not (Or.inr (by omega)), put_of_le (by rw [length_slice]; omega),
      put_of_le (by omega)]
  unfold camd35Recv
  simp only [hs.peer, hread, hlen, packet_user hg (by omega : 4 ≤ g), hs.user, Bool.not_true,
    Bool.false_eq_true, if_false, ne_eq, not_true_eq_false, Nat.not_lt.mpr h36]

/-- A packet that is there in full and in plain is taken with its size. -/
private theorem checked_full {L n rs : ℕ} {segs : List (List Byte)} {m b : ℕ → Byte}
    (hn : n = boundary 4 (20 + tailLen m + L)) (hrs : n ≤ rs)
    (hb : ∀ i < n, b i = framed crc32 m L i) : checked crc32 L n b rs segs = ⟨n, b, segs⟩ := by
  have hle := le_boundary (20 + tailLen m + L)
  have hbody : slice b 20 L = slice (framed crc32 m L) 20 L := by
    unfold slice
    apply List.map_congr_left
    intro i hi
    rw [List.mem_range] at hi
    exact hb _ (by omega)
  have hcrc : b2i 4 b 4 = b2i 4 (framed crc32 m L) 4 :=
    b2i_four_congr fun k hk => hb _ (by omega)
  unfold checked
  rw [if_neg (Nat.not_lt.mpr hrs), hbody, hcrc, framed_crc, if_neg (not_not.mpr rfl)]

private theorem datagram_ge (p : Peer) : 1021 ≤ p.datagram := by
  unfold Peer.datagram DEFAULT_MODULE_BUFSIZE
  split_ifs <;> omega

private theorem first_ge {g : ℕ} {P Q : Prop}
    (hmode : if p.isUdp then g = min p.datagram (4 + l) ∧ P else g = 36 ∧ Q) (h32 : 32 ≤ l) : 36 ≤ g := by
  have hdatagram := datagram_ge p
  by_cases hudp : p.isUdp = true
  · rw [if_pos hudp] at hmode
    obtain ⟨hg, -⟩ := hmode
    omega
  · rw [if_neg hudp] at hmode
    obtain ⟨hg, -⟩ := hmode
    omega

/-- The first read takes a datagram, or the 36 bytes that each packet has. -/
private theorem receive_packet {rest segs : List (List Byte)}
    (harr : Arrives p (packet cl sbuf l) rest segs) (h32 : 32 ≤ l) :
    ∃ g rest', p.receive segs = ((packet cl sbuf l).take g, rest') ∧ 36 ≤ g ∧ g ≤ 4 + l ∧
      if p.isUdp then g = min p.datagram (4 + l) ∧ rest' = rest
      else g = 36 ∧ [] ∉ rest' ∧ rest'.flatten = (packet cl sbuf l).drop 36 ++ rest.flatten := by
  unfold Arrives at harr
  unfold Peer.receive
  by_cases hudp : p.isUdp = true
  · simp only [hudp, if_true] at harr ⊢
    subst harr
    have hdatagram := datagram_ge p
    refine ⟨min p.datagram (4 + l), rest, ?_, by omega, by omega, rfl, rfl⟩
    change ((packet cl sbuf l).take p.datagram, rest) = _
    rw [← @length_packet cl sbuf, ← List.take_eq_take_min]
  · simp only [hudp, if_false] at harr ⊢
    obtain ⟨hopen, hflat⟩ := harr
    obtain ⟨hgot, hleft, hopen'⟩ := @Socket.readFull_stream _ 36 _ hopen
    have h36 : 36 ≤ (packet cl sbuf l).length := by
      rw [length_packet]
      omega
    rw [hflat, List.take_append_of_le_length h36] at hgot
    rw [hflat, List.drop_append_of_le_length h36] at hleft
    exact ⟨36, _, Prod.ext hgot rfl, by omega, by omega, rfl, hopen', hleft⟩

/-- The rest of a packet is read from an open stream. -/
private theorem readRest_stream (hs : Session cl p) (htcp : p.isUdp = false) {rest rest' : List (List Byte)}
    (hl : l / 16 * 16 = l) (h32 : 32 < l) (hopen : [] ∉ rest')
    (hflat : rest'.flatten = (packet cl sbuf l).drop 36 ++ rest.flatten)
    (hbuf : ∀ i < 32, buf i = sbuf i) :
    if 1024 < l then p.readRest buf 32 l rest' = none
    else ∃ b rest'', p.readRest buf 32 l rest' = some (b, l, rest'') ∧ (∀ i < l, b i = sbuf i) ∧
      [] ∉ rest'' ∧ rest''.flatten = rest.flatten := by
  obtain ⟨hgot, hleft, hopen'⟩ := @Socket.readFull_stream _ (l - 32) _ hopen
  have hdrop : (packet cl sbuf l).drop 36 = slice (cl.aes.encryptIdx sbuf 0 l) 32 (l - 32) := by
    unfold packet
    have hsplit : slice (cl.aes.encryptIdx sbuf 0 l) 0 l = slice (cl.aes.encryptIdx sbuf 0 l) 0 32 ++
        slice (cl.aes.encryptIdx sbuf 0 l) 32 (l - 32) := by
      have hadd := @slice_add _ (cl.aes.encryptIdx sbuf 0 l) 0 (l - 32) 32
      rw [Nat.zero_add, Nat.add_sub_cancel' (Nat.le_of_lt h32)] at hadd
      exact hadd
    rw [hsplit, ← List.append_assoc]
    apply List.drop_left'
    rw [List.length_append, Vector.length_toList, length_slice]
  have hlen : ((packet cl sbuf l).drop 36).length = l - 32 := by
    rw [hdrop, length_slice]
  rw [hflat, List.take_left' hlen, hdrop] at hgot
  rw [hflat, List.drop_left' hlen] at hleft
  have hgotLen : (Socket.readFull true (l - 32) rest').1.length = l - 32 := by
    rw [hgot, length_slice]
  have hcond : ¬ (p.isUdp = true ∧ p.server = true) ∧ 32 < l ∧ 32 < l := by
    rw [htcp]
    exact ⟨fun h => Bool.noConfusion h.1, h32, h32⟩
  unfold Peer.readRest
  rw [if_pos hcond, htcp]
  simp only [Bool.not_false]
  rw [hgotLen]
  by_cases hbig : 1024 < l
  · rw [if_pos hbig]
    exact if_pos (by unfold DEFAULT_MODULE_BUFSIZE; omega)
  · rw [if_neg hbig]
    refine ⟨p.aes.decryptAt (put buf 32 (Socket.readFull true (l - 32) rest').1) 32 (l - 32), _, ?_, ?_,
      hopen', hleft⟩
    · rw [if_neg (by unfold DEFAULT_MODULE_BUFSIZE; omega), Nat.add_sub_cancel' (Nat.le_of_lt h32)]
    · intro i hi
      rw [hgot]
      exact decrypt_rest hs.key hl (Nat.le_of_lt h32) hbuf hi

/-- The result is an error or the size that the first block tells. -/
private theorem checked_rc {L n rs : ℕ} {segs : List (List Byte)} {b : ℕ → Byte} :
    (checked crc32 L n b rs segs).buf = b ∧
      ((checked crc32 L n b rs segs).rc < 0 ∨ (checked crc32 L n b rs segs).rc = n) := by
  unfold checked
  split_ifs
  · exact ⟨rfl, Or.inl (show (-3 : ℤ) < 0 by omega)⟩
  · exact ⟨rfl, Or.inl (show (-4 : ℤ) < 0 by omega)⟩
  · exact ⟨rfl, Or.inr rfl⟩

private theorem readRest_first {rs n i : ℕ} {segs : List (List Byte)}
    {x : (ℕ → Byte) × ℕ × List (List Byte)} (hx : p.readRest buf rs n segs = some x) (hi : i < 32) :
    x.1 i = buf i := by
  unfold Peer.readRest at hx
  split_ifs at hx
  · dsimp only at hx
    split_ifs at hx
    obtain rfl := Option.some.inj hx
    change p.aes.decryptAt _ 32 _ i = _
    unfold Aes.decryptAt
    rw [Ecb.apply_of_not (Or.inl hi), put_of_lt hi]
  · obtain rfl := Option.some.inj hx
    rfl

section Packet

variable {m : ℕ → Byte} {L : ℕ}

/-- The first read of a packet: what the receiver knows then, and how it goes on. -/
private theorem recv_start (hs : Session cl p) (hL : announced m = L)
    (hl : l = boundary 4 (20 + tailLen m + L)) {rest segs : List (List Byte)}
    (harr : Arrives p (packet cl (framed crc32 m L) l) rest segs) (buf : ℕ → Byte) :
    ∃ g rest' b, (if p.isUdp then g = min p.datagram (4 + l) ∧ rest' = rest
        else g = 36 ∧ [] ∉ rest' ∧
          rest'.flatten = (packet cl (framed crc32 m L) l).drop 36 ++ rest.flatten) ∧
      (∀ i < (g - 4) / 16 * 16, b i = framed crc32 m L i) ∧
      (∀ i, g ≤ i → (g - 4 + 15) / 16 * 16 ≤ i → b i = buf i) ∧ b 0 = m 0 ∧
      camd35Recv crc32 p buf segs = (p.readRest b (g - 4) (packetLen b) rest').map
        fun x => checked crc32 L (packetLen b) x.1 x.2.1 x.2.2 := by
  have hle := le_boundary (20 + tailLen m + L)
  have hblocks := @blocks_boundary (20 + tailLen m + L)
  rw [← hl] at hle hblocks
  obtain ⟨g, rest', hread, h36, hg, hmode⟩ := receive_packet harr (by omega)
  obtain ⟨b, hb, hbehind, hrecv⟩ := @recv_first crc32 _ _ _ _ hs _ _ _ hread h36 hg hblocks buf
  have hL' : announced b = L := announced_framed hL fun i hi hi' => hb i (by omega)
  refine ⟨g, rest', b, hmode, hb, hbehind, ?_, ?_⟩
  · rw [hb 0 (by omega), framed_apply (by omega) (by omega)]
  · rw [hrecv, hL']

/-- A packet that fits is received with its size and its bytes. -/
theorem recv_packet (hs : Session cl p) (hL : announced m = L) (hcmd : m 0 ≠ 4)
    (hl : l = boundary 4 (20 + tailLen m + L)) (hroom : Room p (20 + tailLen m + L))
    {rest segs : List (List Byte)} (harr : Arrives p (packet cl (framed crc32 m L) l) rest segs)
    (buf : ℕ → Byte) : ∃ r, camd35Recv crc32 p buf segs = some r ∧ r.rc = l ∧
      (∀ i < l, r.buf i = framed crc32 m L i) ∧ Leaves p rest r.rest := by
  have hle := le_boundary (20 + tailLen m + L)
  have hblocks := @blocks_boundary (20 + tailLen m + L)
  unfold Room at hroom
  rw [← hl] at hle hblocks hroom
  obtain ⟨g, rest', b, hmode, hb, hbehind, h0, hrecv⟩ := recv_start hs hL hl harr buf
  have hb32 : ∀ i < 32, i < 20 + tailLen m + L → b i = framed crc32 m L i := by
    intro i hi hi'
    apply hb
    by_cases hudp : p.isUdp = true
    · rw [if_pos hudp] at hmode hroom
      have hdatagram := datagram_ge p
      obtain ⟨hg, _⟩ := hmode
      omega
    · rw [if_neg hudp] at hmode
      omega
  have hn : packetLen b = l := by
    rw [packetLen_framed (announced_framed hL hb32) h0 hcmd, hl]
  rw [hn] at hrecv
  by_cases hudp : p.isUdp = true
  · rw [if_pos hudp] at hmode hroom
    have hdatagram := datagram_ge p
    obtain ⟨hg, rfl⟩ := hmode
    have hg' : g - 4 = l := by omega
    have hrest : p.readRest b (g - 4) l rest' = some (b, l, rest') := by
      unfold Peer.readRest
      rw [if_neg (by omega), hg']
    rw [hrest, Option.map_some, checked_full hl (Nat.le_refl l) fun i hi => hb i (by omega)] at hrecv
    refine ⟨_, hrecv, rfl, fun i hi => hb i (by omega), ?_⟩
    unfold Leaves
    rw [if_pos hudp]
  · rw [if_neg hudp] at hmode hroom
    obtain ⟨rfl, hopen, hflat⟩ := hmode
    have hleaves : ∀ {rest'' : List (List Byte)}, [] ∉ rest'' → rest''.flatten = rest.flatten →
        Leaves p rest rest'' := by
      intro rest'' hopen hflat
      unfold Leaves
      rw [if_neg hudp]
      exact ⟨hopen, hflat⟩
    rcases Nat.lt_or_ge 32 l with hmore | hdone
    · have hrest := readRest_stream hs (by simpa using hudp) hblocks hmore hopen hflat
        fun i hi => hb i (by omega)
      rw [if_neg (by omega)] at hrest
      obtain ⟨b', rest'', hrest, hb', hopen', hflat'⟩ := hrest
      change camd35Recv crc32 p buf segs = (p.readRest b 32 l rest').map _ at hrecv
      rw [hrest, Option.map_some, checked_full hl (Nat.le_refl l) hb'] at hrecv
      exact ⟨_, hrecv, rfl, hb', hleaves hopen' hflat'⟩
    · have hl32 : l = 32 := by omega
      have hrest : p.readRest b 32 l rest' = some (b, 32, rest') := by
        unfold Peer.readRest
        rw [if_neg (by omega)]
      change camd35Recv crc32 p buf segs = (p.readRest b 32 l rest').map _ at hrecv
      rw [hrest, Option.map_some, checked_full hl (by omega) fun i hi => hb i (by omega)] at hrecv
      refine ⟨_, hrecv, rfl, fun i hi => hb i (by omega), hleaves hopen ?_⟩
      rw [hflat, List.drop_of_length_le (by rw [length_packet]; omega), List.nil_append]

/-- A stream receiver leaves what is behind the packet. -/
theorem recv_behind (hs : Session cl p) (htcp : p.isUdp = false) (hL : announced m = L) (hcmd : m 0 ≠ 4)
    (hl : l = boundary 4 (20 + tailLen m + L)) {rest segs : List (List Byte)}
    (harr : Arrives p (packet cl (framed crc32 m L) l) rest segs) {buf : ℕ → Byte} {r : Recv}
    (hr : camd35Recv crc32 p buf segs = some r) {i : ℕ} (h36 : 36 ≤ i) (hi : l ≤ i) : r.buf i = buf i := by
  have hblocks := @blocks_boundary (20 + tailLen m + L)
  have hle := le_boundary (20 + tailLen m + L)
  rw [← hl] at hblocks hle
  obtain ⟨g, rest', b, hmode, hb, hbehind, h0, hrecv⟩ := recv_start hs hL hl harr buf
  rw [htcp, if_neg Bool.false_ne_true] at hmode
  obtain ⟨rfl, hopen, hflat⟩ := hmode
  have hn : packetLen b = l := by
    rw [packetLen_framed (announced_framed hL fun i hi _ => hb i (by omega)) h0 hcmd, hl]
  rw [hrecv] at hr
  obtain ⟨x, hx, rfl⟩ := Option.map_eq_some_iff.mp hr
  rw [(@checked_rc crc32 L (packetLen b) x.2.1 x.2.2 x.1).1]
  rw [hn] at hx
  unfold Peer.readRest at hx
  split_ifs at hx with hcond
  · dsimp only at hx
    split_ifs at hx
    obtain rfl := Option.some.inj hx
    have hlen := @Socket.readFull_length_le _ (l - 32) rest' (!p.isUdp)
    change p.aes.decryptAt _ 32 _ i = _
    unfold Aes.decryptAt
    rw [Ecb.apply_of_not (Or.inr (by omega)), put_of_le (by omega), hbehind i h36 (by omega)]
  · obtain rfl := Option.some.inj hx
    exact hbehind i h36 (by omega)

/-- A packet that does not fit is not received. -/
private theorem recv_big (hs : Session cl p) (hL : announced m = L) (hcmd : m 0 ≠ 4)
    (hl : l = boundary 4 (20 + tailLen m + L)) (hroom : ¬ Room p (20 + tailLen m + L))
    (harr : Arrives p (packet cl (framed crc32 m L) l) [] [packet cl (framed crc32 m L) l])
    (buf : ℕ → Byte) : camd35Recv crc32 p buf [packet cl (framed crc32 m L) l] = none ∨
      ∃ r, camd35Recv crc32 p buf [packet cl (framed crc32 m L) l] = some r ∧ r.rc < 0 := by
  have hblocks := @blocks_boundary (20 + tailLen m + L)
  unfold Room at hroom
  rw [← hl] at hblocks hroom
  obtain ⟨g, rest', b, hmode, hb, hbehind, h0, hrecv⟩ := recv_start hs hL hl harr buf
  have h32 : 32 < l := by
    split_ifs at hroom <;> omega
  have hg := first_ge hmode (by omega)
  have hn : packetLen b = l := by
    rw [packetLen_framed (announced_framed hL fun i hi _ => hb i (by omega)) h0 hcmd, hl]
  rw [hn] at hrecv
  by_cases hudp : p.isUdp = true
  · rw [if_pos hudp] at hmode hroom
    obtain ⟨hg', rfl⟩ := hmode
    have hdatagram : p.datagram ≤ 1024 := by
      unfold Peer.datagram DEFAULT_MODULE_BUFSIZE
      split_ifs <;> omega
    have hrest : ∃ b', p.readRest b (g - 4) l [] = some (b', g - 4, []) := by
      unfold Peer.readRest
      split_ifs
      · exact ⟨_, rfl⟩
      · exact ⟨_, rfl⟩
    obtain ⟨b', hrest⟩ := hrest
    rw [hrest, Option.map_some] at hrecv
    refine Or.inr ⟨_, hrecv, ?_⟩
    unfold checked
    rw [if_pos (show g - 4 < l by omega)]
    exact (show (-3 : ℤ) < 0 by omega)
  · rw [if_neg hudp] at hmode hroom
    obtain ⟨rfl, hopen, hflat⟩ := hmode
    have hrest := readRest_stream hs (by simpa using hudp) hblocks h32 hopen hflat
      fun i hi => hb i (by omega)
    rw [if_pos (by omega)] at hrest
    change camd35Recv crc32 p buf _ = (p.readRest b 32 l rest').map _ at hrecv
    rw [hrest] at hrecv
    exact Or.inl hrecv

/-- A packet is received only with the size and the length that its first block tells. -/
private theorem recv_rc (hs : Session cl p) (hL : announced m = L)
    (hl : l = boundary 4 (20 + tailLen m + L)) {rest segs : List (List Byte)}
    (harr : Arrives p (packet cl (framed crc32 m L) l) rest segs) (buf : ℕ → Byte) {r : Recv}
    (hr : camd35Recv crc32 p buf segs = some r) :
    r.rc < 0 ∨ r.rc = boundary 4 ((if m 0 = 3 then 0x34 else 0) + 20 + L) ∧ announced r.buf = L := by
  have hblocks := @blocks_boundary (20 + tailLen m + L)
  have hle := le_boundary (20 + tailLen m + L)
  rw [← hl] at hblocks hle
  obtain ⟨g, rest', b, hmode, hb, hbehind, h0, hrecv⟩ := recv_start hs hL hl harr buf
  have hg := first_ge hmode (by omega)
  have hn : packetLen b = boundary 4 ((if m 0 = 3 then 0x34 else 0) + 20 + L) := by
    unfold packetLen
    rw [announced_framed hL fun i hi _ => hb i (by omega), h0]
  rw [hrecv] at hr
  obtain ⟨x, hx, rfl⟩ := Option.map_eq_some_iff.mp hr
  obtain ⟨hbuf, hrc⟩ := @checked_rc crc32 L (packetLen b) x.2.1 x.2.2 x.1
  rw [hn] at hrc hbuf
  rw [hn]
  refine hrc.imp_right fun hrc => ⟨hrc, ?_⟩
  rw [hbuf]
  apply announced_framed hL
  intro i hi _
  rw [readRest_first hx hi, hb i (by omega)]

end Packet

end Receive

section Delivers

variable {crc32 : Crc32} {cl : Sender} {p : Peer} {m : Sent}

theorem send_eq (hs : Session cl p) {l : ℕ}
    (hl : l = 20 + tailLen m.buf + bodyLen m.buf m.buflen) :
    camd35Send crc32 cl m.buf m.buflen = if 4 + REQ_SIZE + 15 < 4 + l + 15 then none
      else some (packet cl (framed crc32 m.buf (bodyLen m.buf m.buflen)) (boundary 4 l)) := by
  subst hl
  unfold camd35Send
  simp only [hs.sender.1, hs.sender.2, Bool.not_true, Bool.or_self, Bool.false_eq_true, if_false]
  rfl

theorem arrives_alone {wire : List Byte} (hwire : wire ≠ []) : Arrives p wire [] [wire] := by
  unfold Arrives
  split_ifs
  · rfl
  · refine ⟨fun h => hwire (List.mem_singleton.mp h).symm, ?_⟩
    rw [List.flatten_cons, List.flatten_nil]

theorem packet_ne_nil {sbuf : ℕ → Byte} {l : ℕ} : packet cl sbuf l ≠ [] := by
  intro h
  have hlen := @length_packet cl sbuf l
  rw [h] at hlen
  change 0 = 4 + l at hlen
  omega

/-- A message whose length the two sides take alike is delivered exactly if it fits into the buffer of the
receiver. -/
theorem delivers_iff_room (hs : Session cl p) (hsender : bodyLen m.buf m.buflen = m.len)
    (hreceiver : announced m.buf = m.len) (hcmd : m.buf 0 ≠ 4) :
    Delivers crc32 cl p m ↔ Room p (20 + tailLen m.buf + m.len) := by
  have hle := le_boundary (20 + tailLen m.buf + m.len)
  have hsend := @send_eq crc32 _ _ m hs _ rfl
  rw [hsender] at hsend
  constructor
  · rintro ⟨wire, hwire, hrecv⟩
    by_contra hroom
    rw [hsend] at hwire
    split_ifs at hwire
    obtain rfl := Option.some.inj hwire
    have harr := arrives_alone (p := p) (@packet_ne_nil cl (framed crc32 m.buf m.len)
      (boundary 4 (20 + tailLen m.buf + m.len)))
    obtain ⟨r, hr, hrc, -⟩ := hrecv (fun _ => 0) [] _ harr
    rcases recv_big hs hreceiver hcmd rfl hroom harr fun _ => 0 with hnone | ⟨r', hr', hneg⟩
    · rw [hnone] at hr
      cases hr
    · rw [hr'] at hr
      obtain rfl := Option.some.inj hr
      omega
  · intro hroom
    have hfits : ¬ 4 + REQ_SIZE + 15 < 4 + (20 + tailLen m.buf + m.len) + 15 := by
      unfold Room at hroom
      unfold REQ_SIZE MAX_ECM_SIZE
      split_ifs at hroom <;> omega
    rw [if_neg hfits] at hsend
    refine ⟨_, hsend, fun buf rest segs harr => ?_⟩
    obtain ⟨r, hr, hrc, hcells, hleaves⟩ := recv_packet hs hreceiver hcmd rfl hroom harr buf
    refine ⟨r, hr, hrc, ?_, ?_, hleaves⟩
    · exact announced_framed hreceiver fun i _ hi => hcells i (by omega)
    · intro i hi hcrc
      rw [hcells i (by omega), framed_apply hi hcrc]

/-- What a delivery says of the bytes that are sent. -/
private theorem rc_of_delivers (hs : Session cl p) (hL : announced m.buf = bodyLen m.buf m.buflen)
    (hdel : Delivers crc32 cl p m) : bodyLen m.buf m.buflen = m.len ∧
      boundary 4 ((if m.buf 0 = 3 then 0x34 else 0) + 20 + bodyLen m.buf m.buflen) =
        boundary 4 (20 + tailLen m.buf + m.len) := by
  obtain ⟨wire, hwire, hrecv⟩ := hdel
  rw [send_eq hs rfl] at hwire
  split_ifs at hwire
  obtain rfl := Option.some.inj hwire
  have harr := arrives_alone (p := p) (@packet_ne_nil cl
    (framed crc32 m.buf (bodyLen m.buf m.buflen))
    (boundary 4 (20 + tailLen m.buf + bodyLen m.buf m.buflen)))
  obtain ⟨r, hr, hrc, hlen, -⟩ := hrecv (fun _ => 0) [] _ harr
  rcases recv_rc hs hL rfl harr (fun _ => 0) hr with hneg | ⟨hrc', hlen'⟩
  · omega
  · rw [hrc] at hrc'
    exact ⟨hlen'.symm.trans hlen, (Int.ofNat_inj.mp hrc').symm⟩

private theorem announced_lt (buf : ℕ → Byte) : announced buf < 2 ^ 16 := by
  have hbyte : ∀ b : Byte, b.toNat < 2 ^ 8 := fun b => b.isLt
  have hword : ∀ a b : Byte, a.toNat ||| (b.toNat <<< 8) < 2 ^ 16 := by
    intro a b
    apply Nat.or_lt_two_pow
    · have := hbyte a
      omega
    · have := hbyte b
      rw [Nat.shiftLeft_eq]
      omega
  unfold announced
  split_ifs
  · unfold sectionLen
    have hlow := (buf 22).isLt
    have hhigh : (buf 21 &&& 0x0F).toNat < 2 ^ 4 := by
      rw [BitVec.toNat_and]
      exact Nat.and_lt_two_pow _ (by decide)
    have hor : ((buf 21 &&& 0x0F).toNat <<< 8) ||| (buf 22).toNat < 2 ^ 12 := by
      apply Nat.or_lt_two_pow
      · rw [Nat.shiftLeft_eq]
        omega
      · omega
    omega
  · exact hword _ _
  · have := hbyte (buf 1)
    omega

/-- No message is delivered whose length does not fit into two bytes. -/
theorem not_delivers_of_long (hlong : 2 ^ 16 ≤ m.len) : ¬ Delivers crc32 cl p m := by
  rintro ⟨wire, -, hrecv⟩
  have harr : Arrives p wire [] (if p.isUdp then [wire] else if wire = [] then [] else [wire]) := by
    unfold Arrives
    split_ifs with hudp hwire
    · rfl
    · exact ⟨List.not_mem_nil, by rw [hwire]; rfl⟩
    · refine ⟨fun h => hwire (List.mem_singleton.mp h).symm, ?_⟩
      rw [List.flatten_cons, List.flatten_nil]
  obtain ⟨r, -, -, hlen, -⟩ := hrecv (fun _ => 0) [] _ harr
  have := announced_lt r.buf
  omega

/-- Where the sides take another length than the message means, it is not delivered. -/
theorem not_delivers_of_len (hs : Session cl p) (hL : announced m.buf = bodyLen m.buf m.buflen)
    (hne : bodyLen m.buf m.buflen ≠ m.len) : ¬ Delivers crc32 cl p m :=
  fun hdel => hne (rc_of_delivers hs hL hdel).1

/-- The receiver does not know that a cascading answer is longer than its body. -/
theorem not_delivers_cascade (hs : Session cl p) (hL : announced m.buf = bodyLen m.buf m.buflen)
    (hcmd : m.buf 0 = 4) : ¬ Delivers crc32 cl p m := by
  intro hdel
  obtain ⟨hlen, hsize⟩ := rc_of_delivers hs hL hdel
  have htail : tailLen m.buf = 0x34 := by
    unfold tailLen
    rw [if_pos (Or.inr hcmd)]
  rw [hcmd, if_neg (by decide), htail, hlen, boundary_eq, boundary_eq] at hsize
  omega

end Delivers

end NCam.Camd35
