import NCam.Camd35.Frame
import NCam.Ecm.Request
import NCam.Lib.Reads

/-! What `camd35_recv` writes into its buffer and `camd35_process_ecm` copies from it, and when that lies in the
buffer. -/
namespace NCam.Camd35

open NCam.Lib NCam.Lib.Reads NCam.Lib.Memory NCam.Util

/-- The buffer of the caller, and `er->ecm`. -/
inductive Area
  | buf
  | ecm

/-- The sizes of the areas, for a buffer of `l` bytes. -/
def Area.size (l : ℕ) : Area → ℕ
  | .buf => l
  | .ecm => MAX_ECM_SIZE

/-- The buffer, the bytes that were received into it, and what is left on the socket. -/
structure Filled where
  buf : ℕ → Byte
  rs : ℕ
  segs : List (List Byte)

/-- The first read into a buffer of `l` bytes; only a client on UDP heeds `l`. -/
def Peer.receiveIn (p : Peer) (l : ℕ) (segs : List (List Byte)) : List Byte × List (List Byte) :=
  if p.isUdp ∧ p.server = false then
    match segs with
    | [] => ([], [])
    | seg :: segs => (seg.take l, segs)
  else p.receive segs

/-- The rest of a packet of `n` bytes is read. -/
def Peer.GoesOn (p : Peer) (rs n : ℕ) : Prop := ¬ (p.isUdp ∧ p.server) ∧ rs < n ∧ 32 < n

instance (p : Peer) (rs n : ℕ) : Decidable (p.GoesOn rs n) := inferInstanceAs (Decidable (_ ∧ _))

/-- The rest of a packet of `n` bytes, and what is left on the socket. -/
def Peer.rest (p : Peer) (n : ℕ) (segs : List (List Byte)) : List Byte × List (List Byte) :=
  Socket.readFull (!p.isUdp) (n - 32) segs

/-- The bytes of the blocks that `aes_decrypt` turns for `n` bytes. -/
def blockBytes (n : ℕ) : ℕ := (n + 15) / 16 * 16

/-- `aes_decrypt`. -/
def Aes.decryptIn (aes : Aes) (buf : ℕ → Byte) (o n : ℕ) : Reads (Span Area) (ℕ → Byte) := do
  touch .buf o (blockBytes n)
  return aes.decryptAt buf o n

def Peer.readRestIn (p : Peer) (f : Filled) (n : ℕ) : Reads (Span Area) Filled := do
  if p.GoesOn f.rs n then
    touch .buf 32 (p.rest n f.segs).1.length
    let buf ← p.aes.decryptIn (put f.buf 32 (p.rest n f.segs).1) 32 (p.rest n f.segs).1.length
    return ⟨buf, f.rs + (p.rest n f.segs).1.length, (p.rest n f.segs).2⟩
  else return f

/-- The states 2 and 3 of `camd35_recv`. -/
def Peer.recvPacket (crc32 : Crc32) (p : Peer) (f : Filled) : Reads (Span Area) Recv := do
  let buf ← p.aes.decryptIn f.buf 0 f.rs
  let g ← p.readRestIn { f with buf := buf } (packetLen buf)
  return checked crc32 (announced buf) (packetLen buf) g.buf g.rs g.segs

/-- `camd35_recv` with a buffer of `l` bytes. -/
def camd35RecvIn (crc32 : Crc32) (p : Peer) (l : ℕ) (buf : ℕ → Byte) (segs : List (List Byte)) :
    Reads (Span Area) Recv := do
  if !p.udpFd then return ⟨-9, buf, segs⟩
  let got := p.receiveIn l segs
  touch .buf 0 got.1.length
  let buf := put buf 0 got.1
  if got.1.length < 36 then return ⟨if p.isUdp then -1 else -5, buf, got.2⟩
  let auth := p.authClient (slice buf 0 4)
  let rs := got.1.length - 4
  touch .buf 0 rs
  let buf := put buf 0 (slice buf 4 rs)
  if auth ≠ 0 then return ⟨if auth = 1 then -2 else -9, buf, got.2⟩
  p.recvPacket crc32 ⟨buf, rs, got.2⟩

/-- The request that `camd35_process_ecm` makes. -/
structure ReceivedEcm where
  srcData : List Byte
  srvid : BitVec 32
  caid : BitVec 32
  prid : BitVec 32
  ecm : List Byte

/-- `SCT_LEN` of the section at 20. -/
def ecmLen (buf : ℕ → Byte) : ℕ := Ecm.sctLen fun i => buf (20 + i)

def camd35ProcessEcm (buf : ℕ → Byte) (buflen : ℕ) : Reads (Span Area) (Option ReceivedEcm) := do
  if buflen < 23 then return none
  touch .buf 21 2
  if ecmLen buf > MAX_ECM_SIZE ∨ ecmLen buf + 20 > buflen ∨ ecmLen buf < 4 then return none
  touch .buf 0 (0x34 + 20 + ecmLen buf)
  touch .buf 8 8
  touch .buf 20 (ecmLen buf)
  touch .ecm 0 (ecmLen buf)
  return some ⟨slice buf 0 (0x34 + 20 + ecmLen buf), b2i 2 buf 8, b2i 2 buf 10, b2i 4 buf 12,
    slice buf 20 (ecmLen buf)⟩

/-- `camd35_server`, for the commands of an ECM. -/
def camd35Server (buf : ℕ → Byte) (n : ℕ) : Reads (Span Area) (Option ReceivedEcm) := do
  if buf 0 = 0 ∨ buf 0 = 3 then camd35ProcessEcm buf n else return none

/-- A packet is received and, by a server, handled. -/
def camd35Receive (crc32 : Crc32) (p : Peer) (l : ℕ) (buf : ℕ → Byte) (segs : List (List Byte)) :
    Reads (Span Area) (Option ReceivedEcm) := do
  let r ← camd35RecvIn crc32 p l buf segs
  if r.rc < 0 ∨ p.server = false then return none
  camd35Server r.buf r.rc.toNat

section Claims

/-- What is written and copied lies in the areas. -/
def ReceivesWithin (crc32 : Crc32) (p : Peer) (l : ℕ) (buf : ℕ → Byte) (segs : List (List Byte)) : Prop :=
  (camd35Receive crc32 p l buf segs).All (Span.Within (Area.size l))

/-- The first packet without its first four bytes. -/
def Peer.shifted (p : Peer) (l : ℕ) (buf : ℕ → Byte) (segs : List (List Byte)) : Filled :=
  let buf := put buf 0 (p.receiveIn l segs).1
  let rs := (p.receiveIn l segs).1.length - 4
  ⟨put buf 0 (slice buf 4 rs), rs, (p.receiveIn l segs).2⟩

/-- The first packet decrypted. -/
def Peer.opened (p : Peer) (f : Filled) : Filled := { f with buf := p.aes.decryptAt f.buf 0 f.rs }

/-- The packet with its rest. -/
def Peer.completed (p : Peer) (f : Filled) (n : ℕ) : Filled :=
  if p.GoesOn f.rs n then
    ⟨p.aes.decryptAt (put f.buf 32 (p.rest n f.segs).1) 32 (p.rest n f.segs).1.length,
      f.rs + (p.rest n f.segs).1.length, (p.rest n f.segs).2⟩
  else f

/-- All bytes of the packet are there, with the right checksum. -/
def Filled.Complete (crc32 : Crc32) (buflen n : ℕ) (f : Filled) : Prop :=
  n ≤ f.rs ∧ crc32 (slice f.buf 20 buflen) = b2i 4 f.buf 4

/-- A request of `n` bytes that is not refused fits with the 0x34 bytes behind it. -/
def EcmFits (l : ℕ) (buf : ℕ → Byte) (n : ℕ) : Prop :=
  buf 0 = 0 ∨ buf 0 = 3 → 4 ≤ ecmLen buf → ecmLen buf ≤ MAX_ECM_SIZE → ecmLen buf + 20 ≤ n →
    0x34 + 20 + ecmLen buf ≤ l

/-- The blocks of the opened packet fit, those of its rest do, and so does the request of a server. -/
def PacketFits (crc32 : Crc32) (p : Peer) (l : ℕ) (f : Filled) : Prop :=
  blockBytes f.rs ≤ l ∧
    (p.GoesOn f.rs (packetLen f.buf) → 32 + blockBytes (p.rest (packetLen f.buf) f.segs).1.length ≤ l) ∧
    (p.server = true →
      (p.completed f (packetLen f.buf)).Complete crc32 (announced f.buf) (packetLen f.buf) →
        EcmFits l (p.completed f (packetLen f.buf)).buf (packetLen f.buf))

/-- No packet is read, or the first read fits and a packet with the right user does. -/
def ReceiveFits (crc32 : Crc32) (p : Peer) (l : ℕ) (buf : ℕ → Byte) (segs : List (List Byte)) : Prop :=
  p.udpFd = false ∨ ((p.receiveIn l segs).1.length ≤ l ∧
    (36 ≤ (p.receiveIn l segs).1.length → p.authClient ((p.receiveIn l segs).1.take 4) = 0 →
      PacketFits crc32 p l (p.opened (p.shifted l buf segs))))

variable {crc32 : Crc32} {p : Peer} {l n : ℕ} {buf : ℕ → Byte} {segs : List (List Byte)} {f : Filled} {aes : Aes}
  {o : ℕ}

theorem le_blockBytes (n : ℕ) : n ≤ blockBytes n := by
  unfold blockBytes
  omega

@[simp] theorem value_decryptIn : (aes.decryptIn buf o n).value = aes.decryptAt buf o n := rfl

@[simp] theorem all_decryptIn :
    (aes.decryptIn buf o n).All (Span.Within (Area.size l)) ↔ o + blockBytes n ≤ l := by
  unfold Aes.decryptIn
  simp [Area.size]

theorem value_readRestIn : (p.readRestIn f n).value = p.completed f n := by
  unfold Peer.readRestIn Peer.completed
  rw [value_ite]
  rfl

theorem all_readRestIn : (p.readRestIn f n).All (Span.Within (Area.size l)) ↔
    (p.GoesOn f.rs n → 32 + blockBytes (p.rest n f.segs).1.length ≤ l) := by
  have hle := le_blockBytes (p.rest n f.segs).1.length
  unfold Peer.readRestIn
  simp only [all_ite, all_bind, all_touch, all_decryptIn, all_pure, and_true, implies_true, Area.size]
  constructor
  · intro h hgoes
    exact (h hgoes).2
  · intro h hgoes
    have hfits := h hgoes
    exact ⟨by omega, hfits⟩

theorem value_recvPacket : (p.recvPacket crc32 f).value =
    checked crc32 (announced (p.opened f).buf) (packetLen (p.opened f).buf)
      (p.completed (p.opened f) (packetLen (p.opened f).buf)).buf
      (p.completed (p.opened f) (packetLen (p.opened f).buf)).rs
      (p.completed (p.opened f) (packetLen (p.opened f).buf)).segs := by
  unfold Peer.recvPacket
  simp only [value_bind, value_decryptIn, value_readRestIn, value_pure]
  rfl

theorem all_recvPacket : (p.recvPacket crc32 f).All (Span.Within (Area.size l)) ↔
    blockBytes f.rs ≤ l ∧ (p.GoesOn f.rs (packetLen (p.opened f).buf) →
      32 + blockBytes (p.rest (packetLen (p.opened f).buf) f.segs).1.length ≤ l) := by
  unfold Peer.recvPacket
  simp only [all_bind, all_decryptIn, value_decryptIn, all_readRestIn, all_pure, and_true, Nat.zero_add]
  rfl

theorem checked_rc_iff {f : Filled} {buflen : ℕ} : 0 ≤ (checked crc32 buflen n f.buf f.rs f.segs).rc ↔
    f.Complete crc32 buflen n := by
  unfold checked Filled.Complete
  by_cases hshort : f.rs < n
  · rw [if_pos hshort]
    simp [Nat.not_le.mpr hshort]
  · rw [if_neg hshort]
    by_cases hcrc : crc32 (slice f.buf 20 buflen) = b2i 4 f.buf 4
    · simp [hcrc, Nat.le_of_not_lt hshort]
    · simp [hcrc]

theorem checked_of_complete {buflen : ℕ} (h : f.Complete crc32 buflen n) :
    checked crc32 buflen n f.buf f.rs f.segs = ⟨n, f.buf, f.segs⟩ := by
  unfold checked
  rw [if_neg (Nat.not_lt.mpr h.1), if_neg (not_not.mpr h.2)]

theorem all_camd35Server (hbuf : 23 ≤ l) :
    (camd35Server buf n).All (Span.Within (Area.size l)) ↔ EcmFits l buf n := by
  unfold camd35Server camd35ProcessEcm EcmFits
  simp only [all_ite, all_bind, all_touch, all_pure, true_and, and_true, implies_true, Area.size, Nat.zero_add]
  constructor
  · intro h hcmd hmin hmax hlen
    exact ((h hcmd (by omega)).2 (by omega)).1
  · intro h hcmd hn
    refine ⟨by omega, ?_⟩
    intro hsize
    have hfits := h hcmd (by omega) (by omega) (by omega)
    exact ⟨hfits, by omega, by omega, by omega⟩

theorem slice_put_take {got : List Byte} (h : 4 ≤ got.length) : slice (put buf 0 got) 0 4 = got.take 4 := by
  have hsplit : 4 + (got.length - 4) = got.length := by omega
  have hall : slice (put buf 0 got) 0 got.length = got := holds_put
  rw [← hsplit, slice_add] at hall
  conv_rhs => rw [← hall]
  exact (List.take_left' length_slice).symm

section Open

variable (hopen : p.udpFd = true)

include hopen

theorem camd35RecvIn_short (h : (p.receiveIn l segs).1.length < 36) :
    ((camd35RecvIn crc32 p l buf segs).All (Span.Within (Area.size l)) ↔
        (p.receiveIn l segs).1.length ≤ l) ∧
      (camd35RecvIn crc32 p l buf segs).value.rc < 0 := by
  unfold camd35RecvIn
  dsimp only
  rw [hopen, Bool.not_true, if_neg Bool.false_ne_true, if_pos h]
  refine ⟨by simp [Area.size], ?_⟩
  simp only [value_bind, value_pure]
  split <;> decide

theorem camd35RecvIn_refused (h : 36 ≤ (p.receiveIn l segs).1.length)
    (hauth : p.authClient ((p.receiveIn l segs).1.take 4) ≠ 0) :
    ((camd35RecvIn crc32 p l buf segs).All (Span.Within (Area.size l)) ↔
        (p.receiveIn l segs).1.length ≤ l) ∧
      (camd35RecvIn crc32 p l buf segs).value.rc < 0 := by
  unfold camd35RecvIn
  dsimp only
  rw [hopen, Bool.not_true, if_neg Bool.false_ne_true, if_neg (Nat.not_lt.mpr h),
    slice_put_take (by omega), if_pos hauth]
  refine ⟨?_, ?_⟩
  · simp only [all_bind, all_touch, all_pure, and_true, Area.size]
    omega
  · simp only [value_bind, value_pure]
    split <;> decide

theorem camd35RecvIn_accepted (h : 36 ≤ (p.receiveIn l segs).1.length)
    (hauth : p.authClient ((p.receiveIn l segs).1.take 4) = 0) :
    ((camd35RecvIn crc32 p l buf segs).All (Span.Within (Area.size l)) ↔
        (p.receiveIn l segs).1.length ≤ l ∧
          (p.recvPacket crc32 (p.shifted l buf segs)).All (Span.Within (Area.size l))) ∧
      (camd35RecvIn crc32 p l buf segs).value = (p.recvPacket crc32 (p.shifted l buf segs)).value := by
  unfold camd35RecvIn
  dsimp only
  rw [hopen, Bool.not_true, if_neg Bool.false_ne_true, if_neg (Nat.not_lt.mpr h),
    slice_put_take (by omega), if_neg (not_not.mpr hauth)]
  refine ⟨?_, rfl⟩
  simp only [all_bind, all_touch, Area.size]
  constructor
  · intro hall
    exact ⟨by omega, hall.2.2⟩
  · intro hall
    exact ⟨by omega, by omega, hall.2⟩

end Open

/-- What is done with a packet that was received. -/
theorem all_camd35Receive : ReceivesWithin crc32 p l buf segs ↔
    (camd35RecvIn crc32 p l buf segs).All (Span.Within (Area.size l)) ∧
      (p.server = true → 0 ≤ (camd35RecvIn crc32 p l buf segs).value.rc →
        (camd35Server (camd35RecvIn crc32 p l buf segs).value.buf
          (camd35RecvIn crc32 p l buf segs).value.rc.toNat).All (Span.Within (Area.size l))) := by
  unfold ReceivesWithin camd35Receive
  simp only [all_bind, all_ite, all_pure, implies_true, true_and, not_or, Int.not_lt, and_imp,
    Bool.not_eq_false]
  apply and_congr_right
  intro _
  exact ⟨fun h hs hrc => h hrc hs, fun h hrc hs => h hs hrc⟩

/-- What is received and handled stays in the buffer if and only if no packet is read, or it fits. -/
theorem receivesWithin_iff (crc32 : Crc32) (p : Peer) (l : ℕ) (buf : ℕ → Byte) (segs : List (List Byte)) :
    ReceivesWithin crc32 p l buf segs ↔ ReceiveFits crc32 p l buf segs := by
  rw [all_camd35Receive]
  unfold ReceiveFits
  by_cases hclosed : p.udpFd = false
  · have hrecv : camd35RecvIn crc32 p l buf segs = return ⟨-9, buf, segs⟩ := by
      unfold camd35RecvIn
      rw [hclosed]
      rfl
    rw [hrecv]
    simp [hclosed]
  · have hopen : p.udpFd = true := by simpa using hclosed
    rw [or_iff_right hclosed]
    by_cases hshort : (p.receiveIn l segs).1.length < 36
    · obtain ⟨hall, hrc⟩ := camd35RecvIn_short hopen hshort
      rw [hall]
      apply and_congr_right
      intro _
      exact ⟨fun _ hlen => by omega, fun _ _ hpos => by omega⟩
    · have hlen : 36 ≤ (p.receiveIn l segs).1.length := Nat.le_of_not_lt hshort
      by_cases hauth : p.authClient ((p.receiveIn l segs).1.take 4) = 0
      · obtain ⟨hall, hvalue⟩ := camd35RecvIn_accepted hopen hlen hauth
        rw [hall, hvalue, and_assoc]
        apply and_congr_right
        intro hfirst
        simp only [hlen, hauth, true_implies]
        rw [all_recvPacket, value_recvPacket, checked_rc_iff, and_assoc]
        unfold PacketFits
        apply and_congr_right
        intro _
        apply and_congr_right
        intro _
        apply forall_congr'
        intro _
        apply forall_congr'
        intro hcomplete
        rw [checked_of_complete hcomplete]
        exact all_camd35Server (by omega)
      · obtain ⟨hall, hrc⟩ := camd35RecvIn_refused hopen hlen hauth
        rw [hall]
        apply and_congr_right
        intro _
        exact ⟨fun _ _ hok => absurd hok hauth, fun _ _ hpos => by omega⟩

theorem receiveIn_module (p : Peer) (segs : List (List Byte)) :
    p.receiveIn DEFAULT_MODULE_BUFSIZE segs = p.receive segs := by
  unfold Peer.receiveIn
  split_ifs with hclient
  · have hmax : p.datagram = DEFAULT_MODULE_BUFSIZE := by
      unfold Peer.datagram
      exact if_neg (by simp [hclient.2])
    unfold Peer.receive
    rw [← hmax]
    cases segs with
    | nil => exact (if_pos hclient.1).symm
    | cons seg segs => exact (if_pos hclient.1).symm
  · rfl

private theorem readRest_eq {g : (ℕ → Byte) × ℕ × List (List Byte)}
    (h : p.readRest f.buf f.rs n f.segs = some g) : p.completed f n = ⟨g.1, g.2.1, g.2.2⟩ := by
  unfold Peer.readRest at h
  unfold Peer.completed
  by_cases hgoes : p.GoesOn f.rs n
  · rw [if_pos hgoes]
    unfold Peer.GoesOn at hgoes
    rw [if_pos hgoes] at h
    dsimp only at h
    split_ifs at h
    obtain rfl := Option.some_inj.mp h
    rfl
  · rw [if_neg hgoes]
    unfold Peer.GoesOn at hgoes
    rw [if_neg hgoes] at h
    obtain rfl := Option.some_inj.mp h
    rfl

/-- Into the module buffer the same is received as by `camd35Recv`. -/
theorem value_camd35RecvIn {r : Recv} (h : camd35Recv crc32 p buf segs = some r) :
    (camd35RecvIn crc32 p DEFAULT_MODULE_BUFSIZE buf segs).value = r := by
  unfold camd35Recv at h
  unfold camd35RecvIn
  rw [receiveIn_module]
  dsimp only at h ⊢
  by_cases hclosed : (!p.udpFd) = true
  · rw [if_pos hclosed] at h ⊢
    exact Option.some_inj.mp h
  · rw [if_neg hclosed] at h ⊢
    rw [value_bind]
    by_cases hshort : (p.receive segs).1.length < 36
    · rw [if_pos hshort] at h ⊢
      exact Option.some_inj.mp h
    · rw [if_neg hshort] at h ⊢
      rw [value_bind]
      by_cases hauth : p.authClient (slice (put buf 0 (p.receive segs).1) 0 4) ≠ 0
      · rw [if_pos hauth] at h ⊢
        exact Option.some_inj.mp h
      · rw [if_neg hauth] at h ⊢
        rw [value_recvPacket]
        obtain ⟨g, hg, rfl⟩ := Option.map_eq_some_iff.mp h
        rw [readRest_eq hg]
        rfl

/-- The first 36 bytes of a cache push that announces 65535 bytes, and the next 1000. -/
def longPushHead : List Byte := [1, 2, 3, 4, 0xC0, 0, 0] ++ List.replicate 29 0xFF

def longPushRest : List Byte := List.replicate 1000 0

/-- The push without its first four bytes. -/
def longPush : Filled :=
  let buf := put (fun _ => 0) 0 longPushHead
  ⟨put buf 0 (slice buf 4 32), 32, [longPushRest]⟩

private theorem length_longPushRest : longPushRest.length = 1000 := List.length_replicate

private theorem packetLen_longPush : packetLen (demoPeer.opened longPush).buf = 65568 := by decide +kernel

/-- A push that announces 65535 bytes is received behind the module buffer. -/
theorem longPush_overflows : ¬ ReceivesWithin (fun _ => 0) demoPeer DEFAULT_MODULE_BUFSIZE (fun _ => 0)
    [longPushHead, longPushRest] := by
  intro h
  have hfirst : demoPeer.receiveIn DEFAULT_MODULE_BUFSIZE [longPushHead, longPushRest] =
      (longPushHead, [longPushRest]) := rfl
  have hlen : 36 ≤ (demoPeer.receiveIn DEFAULT_MODULE_BUFSIZE [longPushHead, longPushRest]).1.length := by
    rw [hfirst]
    decide
  have hauth : demoPeer.authClient
      ((demoPeer.receiveIn DEFAULT_MODULE_BUFSIZE [longPushHead, longPushRest]).1.take 4) = 0 := by
    rw [hfirst]
    decide
  have hshifted : demoPeer.shifted DEFAULT_MODULE_BUFSIZE (fun _ => 0) [longPushHead, longPushRest] =
      longPush := by
    unfold Peer.shifted
    rw [hfirst]
    rfl
  have hpacket := ((camd35RecvIn_accepted rfl hlen hauth).1.mp (all_camd35Receive.mp h).1).2
  rw [hshifted, all_recvPacket, packetLen_longPush] at hpacket
  have hrest : (demoPeer.rest 65568 longPush.segs).1 = longPushRest := by
    apply Socket.readFull_last
    · exact List.ne_nil_of_length_pos (by rw [length_longPushRest]; decide)
    · rw [length_longPushRest]
      decide
  have hfits := hpacket.2 (by decide)
  rw [hrest, length_longPushRest] at hfits
  exact absurd hfits (by decide)

end Claims

end NCam.Camd35
