import NCam.Camd35.RequestEmm
import NCam.Newcamd.Framing

/-! The card data of the newcamd login: the filter of a user, the message of `newcamd_auth_client`, and what
`connect_newcamd_server` takes from it. A result `none` is an access outside an array, or through NULL. When the card
data fit into the message, and into the client that takes them. -/
namespace NCam.Newcamd

open NCam.Camd35 (CS_MAXPROV EMM_UNIQUE EMM_SHARED EMM_GLOBAL Card caidIsBulcrypt caidIsStreamguard
  caidIsTongfang caidIsDvn caidIsIrdeto caidIsBetacrypt fourBytes)
open NCam.Lib.Memory NCam.Util

def caidIsViaccess (caid : BitVec 16) : Bool := caid >>> 8 = 0x05
def caidIsCryptoworks (caid : BitVec 16) : Bool := caid >>> 8 = 0x0D

/-- `FILTER`; its `nprids` entries fit into the array. -/
structure Filter where
  caid : BitVec 16
  prids : List (BitVec 32)
  nprids_le : prids.length ≤ CS_MAXPROV

/-- The filter after `memset`. -/
def Filter.empty : Filter := ⟨0, [], Nat.zero_le _⟩

/-- Appends an entry while there is room. -/
def Filter.push (filt : Filter) (prid : BitVec 32) : Filter :=
  if h : filt.prids.length < CS_MAXPROV then
    ⟨filt.caid, filt.prids ++ [prid], by rw [List.length_append]; exact h⟩
  else filt

structure CaidtabData where
  caid : BitVec 16
  mask : BitVec 16

/-- A reader whose card is announced. -/
structure AuReader extends Card where
  /-- `typ == R_EMU`. -/
  emu : Bool
  emuAuproviders : List Filter
  saveemm : BitVec 32
  nprov_le : nprov ≤ CS_MAXPROV

/-- The provider ids of the card. -/
def AuReader.prids (rdr : AuReader) : List (BitVec 32) :=
  (List.range rdr.nprov).map fun i => b2i 3 (fun k => (rdr.prid i).toList.getD k 0) 1

/-- What the card data for a user depend on: the filter of the port, the CAID and IDENT lists of the
user, the reader for his EMMs. -/
structure Server where
  ncd : Option Filter
  ctab : List CaidtabData
  ftab : List Filter
  aureader : Option AuReader
  threadnum : Byte

/-- `mk_user_au_ftab`. -/
def mkUserAuFtab (aureader : AuReader) (filt : Filter) : Filter :=
  let caid := if aureader.caid = 0 then filt.caid else aureader.caid
  let new := aureader.prids.foldl Filter.push ⟨caid, [], Nat.zero_le _⟩
  filt.prids.foldl (fun new prid => if prid ∈ new.prids then new else new.push prid) new

/-- The search in the CAID list: the caid found, and whether an entry before has one. -/
def ctabSearch (psfilt : Filter) : List CaidtabData → BitVec 16 × Bool
  | [] => (0, false)
  | d :: ctab =>
    let ctabCaid := d.caid &&& d.mask
    if psfilt.caid = ctabCaid then (ctabCaid, ctabCaid ≠ 0)
    else ((ctabSearch psfilt ctab).1, ctabCaid ≠ 0 || (ctabSearch psfilt ctab).2)

/-- The search in IDENT, after the provider ids of the port. -/
def identPrids (psfilt : Filter) (ftab : List Filter) (filt : Filter) : Filter :=
  ftab.foldl (fun filt ident =>
    if ident.caid = 0 ∨ ident.caid = filt.caid then
      psfilt.prids.foldl (fun filt prid =>
        if ident.prids ≠ [] then
          ident.prids.foldl (fun filt own => if own = prid then filt.push own else filt) filt
        else filt.push prid) filt
    else filt) filt

/-- `mk_user_ftab`. Without IDENT the loop over the readers fills a filter that is then overwritten by that of
the port. -/
def mkUserFtab (s : Server) : Filter :=
  match s.ncd with
  | none => .empty
  | some psfilt =>
    let (caid, c) := ctabSearch psfilt s.ctab
    if c ∧ caid = 0 then .empty
    else
      let found := s.ftab.any fun ident => ident.caid ≠ 0 && psfilt.caid = ident.caid
      if caid = 0 ∧ s.ftab ≠ [] ∧ (s.ftab.all fun ident => ident.caid ≠ 0) ∧ !found then .empty
      else if s.ftab = [] then psfilt
      else identPrids psfilt s.ftab ⟨psfilt.caid, [], Nat.zero_le _⟩

/-- `get_emu_prids_for_caid`. -/
def getEmuPridsForCaid (rdr : AuReader) (caid : BitVec 16) : Option Filter :=
  rdr.emuAuproviders.find? fun filt => caid = filt.caid

/-- `usr_filter` for the card data. -/
def usrFilter (s : Server) : Option Filter :=
  match s.aureader with
  | none => some (mkUserFtab s)
  | some aureader =>
    if aureader.emu then s.ncd.bind fun psfilt => getEmuPridsForCaid aureader psfilt.caid
    else some (mkUserAuFtab aureader (mkUserFtab s))

/-- `hexserial_to_newcamd`. -/
def hexserialToNewcamd (source : Vector Byte 8) (caid : BitVec 16) : List Byte :=
  if caidIsBulcrypt caid ∨ caidIsStreamguard caid ∨ caidIsTongfang caid ∨ caidIsDvn caid then
    [0, 0, source[0]!, source[1]!, source[2]!, source[3]!]
  else if caidIsIrdeto caid ∨ caidIsBetacrypt caid then
    [0, 0, source[3]!, source[0]!, source[1]!, source[2]!]
  else if caidIsViaccess caid ∨ caidIsCryptoworks caid then
    [0, source[0]!, source[1]!, source[2]!, source[3]!, source[4]!]
  else [source[0]!, source[1]!, source[2]!, source[3]!, source[4]!, source[5]!]

/-- `newcamd_to_hexserial` of the bytes from `o` on. -/
def newcamdToHexserial (source : ℕ → Byte) (o : ℕ) (dest : Vector Byte 8) (caid : BitVec 16) :
    Vector Byte 8 :=
  if caidIsBulcrypt caid ∨ caidIsStreamguard caid ∨ caidIsTongfang caid ∨ caidIsDvn caid then
    #v[source (o + 2), source (o + 3), source (o + 4), source (o + 5), 0, 0, dest[6]!, dest[7]!]
  else if caidIsIrdeto caid ∨ caidIsBetacrypt caid then
    #v[source (o + 3), source (o + 4), source (o + 5), source (o + 2), 0, 0, dest[6]!, dest[7]!]
  else if caidIsViaccess caid ∨ caidIsCryptoworks caid then
    #v[source (o + 1), source (o + 2), source (o + 3), source (o + 4), source (o + 5), 0, dest[6]!, dest[7]!]
  else
    #v[source o, source (o + 1), source (o + 2), source (o + 3), source (o + 4), source (o + 5), dest[6]!,
      dest[7]!]

/-- A provider id of the filter in three bytes. -/
def pridBytes (prid : BitVec 32) : List Byte :=
  [(prid >>> 16).setWidth 8, (prid >>> 8).setWidth 8, prid.setWidth 8]

/-- The four bytes for a provider of the card: the whole id for two systems, else the shared address. -/
def addressBytes (pufilt : Filter) (aureader : AuReader) (k : ℕ) : List Byte :=
  if fourBytes pufilt.caid then (aureader.prid k).toList else (aureader.sa k).toList

/-- The last four bytes for provider `prid` of the filter. -/
def providerAddress (pufilt : Filter) (aureader : Option AuReader) (prid : BitVec 32) : List Byte :=
  match aureader with
  | some aureader =>
    if pufilt.caid = aureader.caid ∧ aureader.emu = false then
      match aureader.prids.findIdx? (· = prid) with
      | some k => addressBytes pufilt aureader k
      | none => [0, 0, 0, 0]
    else [0, 0, 0, 0]
  | none => if fourBytes pufilt.caid then 0 :: pridBytes prid else [0, 0, 0, 0]

/-- The first three bytes for provider `j`. -/
def providerId (pufilt : Filter) (j : ℕ) : List Byte :=
  if fourBytes pufilt.caid then [0, 0, .ofNat 8 j] else pridBytes (pufilt.prids.getD j 0)

/-- The eleven bytes for provider `j`. -/
def providerBytes (pufilt : Filter) (aureader : Option AuReader) (j : ℕ) : List Byte :=
  providerId pufilt j ++ [0, 0, 0, 0] ++ providerAddress pufilt aureader (pufilt.prids.getD j 0)

/-- The UA in six bytes. -/
def uaBytes (s : Server) (caid : BitVec 16) : List Byte :=
  match s.aureader with
  | some aureader => hexserialToNewcamd aureader.hexserial caid
  | none => [0, 0, 0, 0, 0, 0]

/-- The bytes before the providers. -/
def cardHead (s : Server) (pufilt : Filter) : List Byte :=
  [MSG_CARD_DATA, 0, 0, if s.aureader.isSome then 1 else s.threadnum + 10] ++
    (bytes16 pufilt.caid ++ ([0, 0] ++ (uaBytes s pufilt.caid ++ [.ofNat 8 pufilt.prids.length])))

/-- The part of `newcamd_auth_client` that answers `MSG_CARD_DATA_REQ`: `mbuf` and its length. -/
def cardDataMessage (s : Server) (mbuf : ℕ → Byte) : Option ((ℕ → Byte) × ℕ) := do
  let pufilt ← usrFilter s
  let mbuf ← putWithin CWS_NETMSGSIZE mbuf 0 (cardHead s pufilt)
  let mbuf ← (List.range pufilt.prids.length).foldlM (fun mbuf j =>
    putWithin CWS_NETMSGSIZE mbuf (15 + 11 * j) (providerBytes pufilt s.aureader j)) mbuf
  some (mbuf, 15 + 11 * pufilt.prids.length)

/-- The loop body of the client for provider `i`; both arrays have `CS_MAXPROV` rows. -/
def getProvider (buf : ℕ → Byte) (rdr : Card) (i : ℕ) : Option Card :=
  if i < CS_MAXPROV then
    let address : Vector Byte 4 :=
      #v[buf (24 + 11 * i), buf (24 + 11 * i + 1), buf (24 + 11 * i + 2), buf (24 + 11 * i + 3)]
    let prid : Vector Byte 4 :=
      if fourBytes rdr.caid then address
      else #v[(rdr.prid i)[0]!, buf (17 + 11 * i), buf (18 + 11 * i), buf (19 + 11 * i)]
    some { rdr with prid := Function.update rdr.prid i prid, sa := Function.update rdr.sa i address }
  else none

/-- The part of `connect_newcamd_server` that takes the card data from `bytesReceived` bytes in `buf`; the
inner result `none` is -4. -/
def getCardData (rdr : Card) (buf : ℕ → Byte) (bytesReceived : ℤ) : Option (Option Card) :=
  if bytesReceived < 16 ∨ buf 2 ≠ MSG_CARD_DATA then some none
  else do
    let rdr := { rdr with caid := (buf 6).setWidth 16 <<< 8 ||| (buf 7).setWidth 16 }
    let rdr := { rdr with hexserial := newcamdToHexserial buf 10 rdr.hexserial rdr.caid }
    let rdr := { rdr with nprov := (buf 16).toNat, prid := fun _ => .replicate 4 0 }
    let rdr ← (List.range rdr.nprov).foldlM (getProvider buf) rdr
    some (some rdr)

/-- The number of bytes that the UA of a card has in newcamd. -/
def uaLen (caid : BitVec 16) : ℕ :=
  if caidIsBulcrypt caid ∨ caidIsStreamguard caid ∨ caidIsTongfang caid ∨ caidIsDvn caid then 4
  else if caidIsIrdeto caid ∨ caidIsBetacrypt caid then 4
  else if caidIsViaccess caid ∨ caidIsCryptoworks caid then 5
  else 6

/-- The UA that a server announces. -/
def announcedUa (s : Server) : Vector Byte 8 :=
  match s.aureader with
  | some aureader => aureader.hexserial
  | none => .replicate 8 0

/-- The provider id announced for entry `prid` of the filter; two systems have it in the place of the shared
address. -/
def announcedPrid (s : Server) (pufilt : Filter) (prid : BitVec 32) : List Byte :=
  if fourBytes pufilt.caid then providerAddress pufilt s.aureader prid else 0 :: pridBytes prid

/-- The client has stored what the server announced. -/
structure Stores (s : Server) (pufilt : Filter) (rdr : Card) : Prop where
  caid : rdr.caid = pufilt.caid
  ua : ∀ k (hk : k < 6), rdr.hexserial[k] = if k < uaLen pufilt.caid then (announcedUa s)[k] else 0
  nprov : rdr.nprov = pufilt.prids.length
  provider : ∀ j (hj : j < pufilt.prids.length),
    (rdr.prid j).toList = announcedPrid s pufilt pufilt.prids[j] ∧
      (rdr.sa j).toList = providerAddress pufilt s.aureader pufilt.prids[j]

/-- The message is built inside its buffer, and a client that gets it stores it. -/
def Announces (s : Server) (mbuf : ℕ → Byte) : Prop :=
  ∃ pufilt mbuf' len, usrFilter s = some pufilt ∧ cardDataMessage s mbuf = some (mbuf', len) ∧
    ∀ (rdr : Card) (buf : ℕ → Byte), (∀ i < len, buf (2 + i) = lenField mbuf' len i) →
      ∃ rdr', getCardData rdr buf (len + 2) = some (some rdr') ∧ Stores s pufilt rdr'

/-- There is a filter, and its providers fit into the message. -/
def FilterFits (s : Server) : Prop :=
  ∃ pufilt, usrFilter s = some pufilt ∧ 15 + 11 * pufilt.prids.length ≤ CWS_NETMSGSIZE

/-- A message taken as card data does not count more providers than the arrays have rows. -/
def CountFits (buf : ℕ → Byte) (bytesReceived : ℤ) : Prop :=
  16 ≤ bytesReceived → buf 2 = MSG_CARD_DATA → (buf 16).toNat ≤ CS_MAXPROV

section Message

variable {s : Server} {pufilt : Filter}

theorem length_hexserialToNewcamd (source : Vector Byte 8) (caid : BitVec 16) :
    (hexserialToNewcamd source caid).length = 6 := by
  unfold hexserialToNewcamd
  split_ifs <;> rfl

theorem uaBytes_eq (caid : BitVec 16) : uaBytes s caid = hexserialToNewcamd (announcedUa s) caid := by
  unfold uaBytes announcedUa
  cases s.aureader with
  | some aureader => rfl
  | none =>
    unfold hexserialToNewcamd
    split_ifs <;> simp

theorem length_cardHead : (cardHead s pufilt).length = 15 := by
  simp only [cardHead, List.length_append, uaBytes_eq, length_hexserialToNewcamd, length_bytes16]
  rfl

theorem length_providerAddress (aureader : Option AuReader) (prid : BitVec 32) :
    (providerAddress pufilt aureader prid).length = 4 := by
  unfold providerAddress addressBytes
  cases aureader with
  | none =>
    dsimp only
    split_ifs <;> rfl
  | some aureader =>
    dsimp only
    split_ifs
    · cases aureader.prids.findIdx? (· = prid) with
      | none => rfl
      | some k => exact Vector.length_toList
    · cases aureader.prids.findIdx? (· = prid) with
      | none => rfl
      | some k => exact Vector.length_toList
    · rfl

theorem length_providerBytes (aureader : Option AuReader) (j : ℕ) :
    (providerBytes pufilt aureader j).length = 11 := by
  have hid : (providerId pufilt j).length = 3 := by
    unfold providerId
    split_ifs <;> rfl
  simp only [providerBytes, List.length_append, hid, length_providerAddress]
  rfl

/-- The message, if its providers fit. -/
theorem cardDataMessage_eq {mbuf : ℕ → Byte} (hfilt : usrFilter s = some pufilt)
    (hfit : 15 + 11 * pufilt.prids.length ≤ CWS_NETMSGSIZE) :
    cardDataMessage s mbuf = some (put mbuf 0 (cardHead s pufilt ++
      (List.range pufilt.prids.length).flatMap (providerBytes pufilt s.aureader)),
      15 + 11 * pufilt.prids.length) := by
  have hhead : 0 + (cardHead s pufilt).length ≤ CWS_NETMSGSIZE := by
    rw [length_cardHead]
    exact Nat.le_trans (by omega) hfit
  unfold cardDataMessage
  rw [hfilt]
  simp only [Option.bind_eq_bind, Option.bind_some, putWithin_of_le hhead,
    foldlM_putWithin (length_providerBytes s.aureader) hfit]
  rw [put_put_of_eq (by rw [length_cardHead])]

theorem cardDataMessage_eq_none {mbuf : ℕ → Byte} (hfilt : usrFilter s = some pufilt)
    (hfit : CWS_NETMSGSIZE < 15 + 11 * pufilt.prids.length) : cardDataMessage s mbuf = none := by
  have hhead : 0 + (cardHead s pufilt).length ≤ CWS_NETMSGSIZE := by
    rw [length_cardHead]
    decide
  unfold cardDataMessage
  rw [hfilt]
  simp only [Option.bind_eq_bind, Option.bind_some, putWithin_of_le hhead,
    foldlM_putWithin_none (length_providerBytes s.aureader) (by decide) hfit, Option.bind_none]

end Message

section Client

variable {buf : ℕ → Byte}

/-- The address of provider `i` in a received message. -/
def addressAt (buf : ℕ → Byte) (i : ℕ) : Vector Byte 4 :=
  .ofFn fun k => buf (24 + 11 * i + k)

/-- The row for provider `i`. -/
def pridAt (buf : ℕ → Byte) (caid : BitVec 16) (i : ℕ) : Vector Byte 4 :=
  if fourBytes caid then addressAt buf i
  else #v[0, buf (17 + 11 * i), buf (18 + 11 * i), buf (19 + 11 * i)]

/-- The loop of the client over `n` providers: rows from `n` on stay. -/
theorem foldlM_getProvider {rdr : Card} (hzero : ∀ i, rdr.prid i = .replicate 4 0) {n : ℕ}
    (hn : n ≤ CS_MAXPROV) :
    (List.range n).foldlM (getProvider buf) rdr = some { rdr with
      prid := fun i => if i < n then pridAt buf rdr.caid i else rdr.prid i
      sa := fun i => if i < n then addressAt buf i else rdr.sa i } := by
  induction n with
  | zero => simp
  | succ n ih =>
    rw [List.range_succ, List.foldlM_append, ih (by omega)]
    simp only [List.foldlM_cons, List.foldlM_nil, Option.bind_eq_bind, Option.bind_some]
    unfold getProvider
    rw [if_pos (by omega)]
    change some _ = some _
    have hrow : ∀ i : ℕ, i ≠ n → (i < n + 1 ↔ i < n) := by omega
    have hfirst : (rdr.prid n)[0]! = 0 := by simp [hzero]
    congr 2
    · funext i
      by_cases hi : i = n
      · subst hi
        rw [Function.update_self, if_pos (Nat.lt_succ_self i)]
        unfold pridAt
        simp only [Nat.lt_irrefl, if_false, hfirst]
        rfl
      · rw [Function.update_of_ne hi]
        simp only [hrow i hi]
    · funext i
      by_cases hi : i = n
      · subst hi
        rw [Function.update_self, if_pos (Nat.lt_succ_self i)]
        rfl
      · rw [Function.update_of_ne hi]
        simp only [hrow i hi]

/-- More providers than rows are written behind the arrays. -/
theorem foldlM_getProvider_none {rdr : Card} {n : ℕ} (hn : CS_MAXPROV < n) :
    (List.range n).foldlM (getProvider buf) rdr = none := by
  obtain ⟨k, rfl⟩ : ∃ k, n = CS_MAXPROV + 1 + k := Nat.exists_eq_add_of_le hn
  rw [List.range_add, List.foldlM_append, List.range_succ, List.foldlM_append]
  cases (List.range CS_MAXPROV).foldlM (getProvider buf) rdr with
  | none => rfl
  | some rdr =>
    have hout : getProvider buf rdr CS_MAXPROV = none := if_neg (Nat.lt_irrefl _)
    simp only [List.foldlM_cons, Option.bind_eq_bind, Option.bind_some, hout]
    rfl

theorem getCardData_isSome_iff (rdr : Card) (buf : ℕ → Byte) (bytesReceived : ℤ) :
    getCardData rdr buf bytesReceived ≠ none ↔ CountFits buf bytesReceived := by
  unfold getCardData CountFits
  by_cases hrefused : bytesReceived < 16 ∨ buf 2 ≠ MSG_CARD_DATA
  · rw [if_pos hrefused]
    refine iff_of_true (Option.some_ne_none _) fun hlen hcmd => ?_
    rcases hrefused with hshort | hother
    · omega
    · exact absurd hcmd hother
  · rw [if_neg hrefused]
    rw [not_or, not_lt, not_not] at hrefused
    simp only [hrefused.1, hrefused.2, true_imp_iff]
    by_cases hcount : (buf 16).toNat ≤ CS_MAXPROV
    · rw [foldlM_getProvider (fun _ => rfl) hcount]
      exact iff_of_true (Option.some_ne_none _) hcount
    · rw [foldlM_getProvider_none (by omega)]
      exact iff_of_false (fun h => h rfl) hcount

end Client

section Stored

variable {s : Server} {pufilt : Filter} {buf : ℕ → Byte}

/-- The UA goes through the six bytes of the message. -/
private theorem newcamdToHexserial_hexserialToNewcamd {source dest : Vector Byte 8} {caid : BitVec 16}
    {o : ℕ} (h : Holds buf o (hexserialToNewcamd source caid)) {k : ℕ} (hk : k < 6) :
    (newcamdToHexserial buf o dest caid)[k] = if k < uaLen caid then source[k] else 0 := by
  unfold hexserialToNewcamd at h
  unfold newcamdToHexserial uaLen
  split_ifs at h ⊢ <;>
    (simp only [holds_cons, Nat.add_assoc, Nat.reduceAdd] at h
     interval_cases k <;> simp_all)

/-- A client with the bytes of the message, from the caid on, stores what they announce. -/
private theorem stores_of_holds (rdr : Card) (hcmd : buf 2 = MSG_CARD_DATA)
    (hhead : Holds buf 6 ((cardHead s pufilt).drop 4))
    (hprov : ∀ j < pufilt.prids.length, Holds buf (17 + 11 * j) (providerBytes pufilt s.aureader j)) :
    ∃ rdr', getCardData rdr buf ((15 + 11 * pufilt.prids.length : ℕ) + 2) = some (some rdr') ∧
      Stores s pufilt rdr' := by
  have hbound := pufilt.nprids_le
  change Holds buf 6 (bytes16 pufilt.caid ++ ([0, 0] ++ (uaBytes s pufilt.caid ++
    [.ofNat 8 pufilt.prids.length]))) at hhead
  rw [uaBytes_eq, holds_append, holds_append, holds_append, length_hexserialToNewcamd] at hhead
  obtain ⟨hcaid, -, hua, hcount⟩ := hhead
  have hcaid : (buf 6).setWidth 16 <<< 8 ||| (buf 7).setWidth 16 = pufilt.caid := by
    simp only [bytes16, holds_cons] at hcaid
    rw [hcaid.1, hcaid.2.1]
    exact msgid_bytes16 _
  have hcount : (buf 16).toNat = pufilt.prids.length := by
    have hcell : buf 16 = .ofNat 8 pufilt.prids.length := (holds_cons.mp hcount).1
    rw [hcell, BitVec.toNat_ofNat]
    unfold CS_MAXPROV at hbound
    omega
  have haccept : ¬ (((15 + 11 * pufilt.prids.length : ℕ) : ℤ) + 2 < 16 ∨ buf 2 ≠ MSG_CARD_DATA) := by
    rw [not_or, not_not]
    exact ⟨by omega, hcmd⟩
  unfold getCardData
  rw [if_neg haccept]
  simp only [hcaid, hcount]
  rw [foldlM_getProvider (fun _ => rfl) hbound]
  refine ⟨_, rfl, rfl, ?_, rfl, ?_⟩
  · intro k hk
    exact newcamdToHexserial_hexserialToNewcamd hua hk
  · intro j hj
    have hj' := hprov j hj
    have hget : pufilt.prids.getD j 0 = pufilt.prids[j] := List.getD_eq_getElem _ _ hj
    unfold providerBytes at hj'
    rw [hget, holds_append, holds_append] at hj'
    obtain ⟨⟨hid, -⟩, haddr⟩ := hj'
    have hidLen : (providerId pufilt j).length = 3 := by
      unfold providerId
      split_ifs <;> rfl
    rw [List.length_append, hidLen] at haddr
    have haddress : (addressAt buf j).toList = providerAddress pufilt s.aureader pufilt.prids[j] := by
      have hpos : 17 + 11 * j + (3 + ([0, 0, 0, 0] : List Byte).length) = 24 + 11 * j := by
        change 17 + 11 * j + 7 = _
        omega
      rw [hpos] at haddr
      exact haddr.slice_eq (length_providerAddress s.aureader pufilt.prids[j]).symm
    refine ⟨?_, ?_⟩
    · change (if j < pufilt.prids.length then pridAt buf pufilt.caid j else _).toList = _
      rw [if_pos hj]
      unfold pridAt announcedPrid
      by_cases hfour : fourBytes pufilt.caid = true
      · rw [if_pos hfour, if_pos hfour, haddress]
      · rw [if_neg hfour, if_neg hfour]
        have hbytes : providerId pufilt j = pridBytes pufilt.prids[j] := by
          unfold providerId
          rw [if_neg hfour, hget]
        rw [hbytes] at hid
        have h18 : 18 + 11 * j = 17 + 11 * j + 1 := by omega
        have h19 : 19 + 11 * j = 17 + 11 * j + 2 := by omega
        rw [h18, h19]
        exact congrArg (0 :: ·) (hid.slice_eq (n := 3) rfl)
    · change (if j < pufilt.prids.length then addressAt buf j else _).toList = _
      rw [if_pos hj, haddress]

/-- A message that fits arrives in the client's cards. -/
private theorem announces_of_fits (mbuf : ℕ → Byte) (hfilt : usrFilter s = some pufilt)
    (hfit : 15 + 11 * pufilt.prids.length ≤ CWS_NETMSGSIZE) : Announces s mbuf := by
  refine ⟨pufilt, _, _, hfilt, cardDataMessage_eq hfilt hfit, fun rdr buf hbuf => ?_⟩
  set message := cardHead s pufilt ++
    (List.range pufilt.prids.length).flatMap (providerBytes pufilt s.aureader) with hmessage
  have hheld : Holds (put mbuf 0 message) 0 message := holds_put
  have hcell : ∀ i < 15 + 11 * pufilt.prids.length, i ≠ 1 → i ≠ 2 →
      buf (2 + i) = put mbuf 0 message i := by
    intro i hi h1 h2
    rw [hbuf i hi]
    unfold lenField
    rcases Nat.lt_or_ge i 1 with hlo | hhi
    · exact put_of_lt hlo
    · exact put_of_le (show 1 + 2 ≤ i by omega)
  have hlen : ((List.range pufilt.prids.length).flatMap (providerBytes pufilt s.aureader)).length =
      11 * pufilt.prids.length := by
    rw [length_flatMap_of_width (length_providerBytes s.aureader), List.length_range]
  rw [hmessage, holds_append, length_cardHead] at hheld
  obtain ⟨hhead, hprov⟩ := hheld
  apply stores_of_holds
  · rw [hcell 0 (by omega) (by omega) (by omega)]
    exact (holds_cons.mp hhead).1
  · rw [holds_iff] at hhead ⊢
    intro i hi
    rw [List.length_drop, length_cardHead] at hi
    have hsame := hhead (4 + i) (by rw [length_cardHead]; omega)
    rw [Nat.zero_add] at hsame
    rw [List.getElem_drop, ← hsame, ← hcell (4 + i) (by omega) (by omega) (by omega)]
    congr 1
    omega
  · intro j hj
    have hrow := hprov.getElem_flatMap (length_providerBytes s.aureader) (i := j)
      (by rwa [List.length_range])
    rw [List.getElem_range, holds_iff] at hrow
    rw [holds_iff]
    intro i hi
    rw [length_providerBytes] at hi
    rw [← hrow i (by rwa [length_providerBytes]), ← hcell (0 + 15 + 11 * j + i) (by omega) (by omega) (by omega)]
    congr 1
    omega

/-- Server and client agree on the card data, and the client stays inside its arrays on a message, exactly if
the providers of the filter fit into the message and those counted in it into the arrays. -/
theorem cardStored_iff (s : Server) (mbuf : ℕ → Byte) (rdr : Card) (buf : ℕ → Byte) (bytesReceived : ℤ) :
    Announces s mbuf ∧ getCardData rdr buf bytesReceived ≠ none ↔
      FilterFits s ∧ CountFits buf bytesReceived := by
  rw [getCardData_isSome_iff]
  apply and_congr_left
  intro _
  constructor
  · rintro ⟨pufilt, mbuf', len, hfilt, hmessage, -⟩
    refine ⟨pufilt, hfilt, ?_⟩
    by_contra hbig
    rw [cardDataMessage_eq_none hfilt (by omega)] at hmessage
    exact absurd hmessage (Option.some_ne_none _).symm
  · rintro ⟨pufilt, hfilt, hfit⟩
    exact announces_of_fits mbuf hfilt hfit

theorem length_foldl_push (prids : List (BitVec 32)) (filt : Filter) :
    (prids.foldl Filter.push filt).prids.length = min CS_MAXPROV (filt.prids.length + prids.length) := by
  induction prids generalizing filt with
  | nil => exact (min_eq_right filt.nprids_le).symm
  | cons prid prids ih =>
    have hle := filt.nprids_le
    rw [List.foldl_cons, ih, List.length_cons]
    unfold Filter.push
    split_ifs with hroom
    · rw [List.length_append, List.length_singleton]
      omega
    · omega

/-- The filter for an AU reader has all the providers of its card. -/
theorem nprov_le_mkUserAuFtab (aureader : AuReader) (filt : Filter) :
    aureader.nprov ≤ (mkUserAuFtab aureader filt).prids.length := by
  have hgrow : ∀ (prids : List (BitVec 32)) (new : Filter), new.prids.length ≤
      (prids.foldl (fun new prid => if prid ∈ new.prids then new else new.push prid) new).prids.length := by
    intro prids
    induction prids with
    | nil => exact fun new => Nat.le_refl _
    | cons prid prids ih =>
      intro new
      refine Nat.le_trans ?_ (ih _)
      dsimp only
      split_ifs
      · exact Nat.le_refl _
      · unfold Filter.push
        split_ifs
        · rw [List.length_append]
          exact Nat.le_add_right _ _
        · exact Nat.le_refl _
  have hcard : aureader.prids.length = aureader.nprov := by
    unfold AuReader.prids
    rw [List.length_map, List.length_range]
  have hle := aureader.nprov_le
  unfold mkUserAuFtab
  refine Nat.le_trans ?_ (hgrow _ _)
  rw [length_foldl_push, hcard]
  change aureader.nprov ≤ min CS_MAXPROV (0 + aureader.nprov)
  omega

/-- A reader with a full card. -/
def wideReader : AuReader where
  caid := 0x0500
  hexserial := .replicate 8 0
  nprov := CS_MAXPROV
  prid := fun i => #v[0, 0, 0, .ofNat 8 i]
  sa := fun _ => .replicate 4 0
  blockemm := 0
  auprovid := 0
  emu := false
  emuAuproviders := []
  saveemm := 0
  nprov_le := Nat.le_refl _

def wideServer : Server := ⟨some ⟨0x0500, [], Nat.zero_le _⟩, [], [], some wideReader, 0⟩

/-- A full card is not announced, and card data that count 129 providers are stored outside the arrays. -/
theorem wideServer_not_announced : (∀ mbuf, ¬ Announces wideServer mbuf) ∧
    ∀ rdr, getCardData rdr (fun i => if i = 2 then MSG_CARD_DATA else if i = 16 then 129 else 0) 17 =
      none := by
  constructor
  · rintro mbuf ⟨pufilt, mbuf', len, hfilt, hmessage, -⟩
    have hlen : CS_MAXPROV ≤ pufilt.prids.length := by
      rw [← Option.some.inj hfilt]
      exact nprov_le_mkUserAuFtab wideReader _
    have hbig : CWS_NETMSGSIZE < 15 + 11 * pufilt.prids.length := by
      unfold CS_MAXPROV at hlen
      unfold CWS_NETMSGSIZE
      omega
    rw [cardDataMessage_eq_none hfilt hbig] at hmessage
    exact absurd hmessage (Option.some_ne_none _).symm
  · intro rdr
    by_contra h
    have hcount := (getCardData_isSome_iff rdr _ 17).mp h (by omega) rfl
    exact absurd hcount (by decide)

end Stored

end NCam.Newcamd
