import NCam.Cccam.Share

/-! What the clients hold against what is reported, through each kind of message. -/
namespace NCam.Cccam.Share

open NCam.Lib

variable {cfg : Config} {cl cl' : Client} {card old : ShareCard} {C C' P : List ShareCard} {clients : List Client}
  {next : BitVec 32} {x : Share}

/-- The client holds nothing but reported cards as they are now. -/
structure Sound (cfg : Config) (C : List ShareCard) (cl : Client) : Prop where
  nodup : (cl.held.map Share.id).Nodup
  source : ∀ x ∈ cl.held, ∃ card ∈ C, card.id ≠ 0 ∧ share cfg cl card = some x

/-- The client holds every card that it should know. -/
def Complete (cfg : Config) (C : List ShareCard) (cl : Client) : Prop :=
  ∀ card ∈ C, ∀ x, share cfg cl card = some x → x ∈ cl.held

/-- Two cards with one id have none. -/
def Distinct (C : List ShareCard) : Prop := C.Pairwise fun a b => a.id = b.id → a.id = 0

/-- The invariant of the server for a list of reported cards. -/
structure Inv (cfg : Config) (next : BitVec 32) (C : List ShareCard) (clients : List Client) : Prop where
  distinct : Distinct C
  below : next = 0 ∨ ∀ card ∈ C, card.id.toNat < next.toNat
  sound : ∀ cl ∈ clients, Sound cfg C cl
  complete : ∀ cl ∈ clients, cl.reported = true → Complete cfg C cl

theorem share_id (h : share cfg cl card = some x) : x.id = card.id := by
  rw [share] at h
  split_ifs at h
  rw [← Option.some.inj h]

theorem shows_of_share (h : share cfg cl card = some x) : shows cfg cl card = true := by
  rw [share] at h
  split_ifs at h with hshows
  exact hshows

theorem Distinct.eq_of_id (h : Distinct C) {a b : ShareCard} (ha : a ∈ C) (hb : b ∈ C) (hid : a.id = b.id)
    (h0 : a.id ≠ 0) : a = b := by
  induction C with
  | nil => exact absurd ha List.not_mem_nil
  | cons c C ih =>
    obtain ⟨hc, hC⟩ := List.pairwise_cons.mp h
    rcases List.mem_cons.mp ha with rfl | ha'
    · rcases List.mem_cons.mp hb with rfl | hb'
      · rfl
      · exact absurd (hc b hb' hid) h0
    · rcases List.mem_cons.mp hb with rfl | hb'
      · exact absurd (hc a ha' hid.symm) (hid ▸ h0)
      · exact ih hC ha' hb'

theorem Distinct.perm (h : Distinct C) (hp : C.Perm C') : Distinct C' := by
  refine (hp.pairwise_iff ?_).mp h
  intro a b hab hid
  rw [hid]
  exact hab hid.symm

section Send

theorem held_send (msg : Msg) : (cl.send msg).held = apply cl.held msg := by
  rw [Client.held, Client.send, List.foldl_append]
  rfl

/-- A client after it was sent a card. -/
theorem mem_held_deliver (hsend : shows cfg cl card = true → Sendable (request cfg cl card) card.toCcCard) :
    x ∈ (deliver cfg card cl).held ↔
      (x ∈ cl.held ∧ (shows cfg cl card = true → x.id ≠ card.id)) ∨ share cfg cl card = some x := by
  by_cases hshows : shows cfg cl card = true
  · obtain ⟨y, hy, happly⟩ := apply_cardMessage hshows (hsend hshows)
    rw [deliver, if_pos hshows, held_send, happly, Mirror.mem_place, share_id hy, hy]
    constructor
    · rintro (⟨hmem, hid⟩ | rfl)
      · exact .inl ⟨hmem, fun _ => hid⟩
      · exact .inr rfl
    · rintro (⟨hmem, hid⟩ | heq)
      · exact .inl ⟨hmem, hid hshows⟩
      · exact .inr (Option.some.inj heq).symm
  · have hnone : share cfg cl card = none := if_neg hshows
    rw [deliver, if_neg hshows, hnone]
    constructor
    · exact fun hmem => .inl ⟨hmem, fun h => absurd h hshows⟩
    · rintro (⟨hmem, -⟩ | h)
      · exact hmem
      · cases h

theorem nodup_deliver (hsend : shows cfg cl card = true → Sendable (request cfg cl card) card.toCcCard)
    (h : (cl.held.map Share.id).Nodup) : ((deliver cfg card cl).held.map Share.id).Nodup := by
  by_cases hshows : shows cfg cl card = true
  · obtain ⟨y, -, happly⟩ := apply_cardMessage hshows (hsend hshows)
    rw [deliver, if_pos hshows, held_send, happly]
    exact Mirror.nodup_place h
  · rw [deliver, if_neg hshows]
    exact h

theorem share_deliver : share cfg (deliver cfg card cl) old = share cfg cl old := by
  rw [deliver]
  split_ifs
  · rfl
  · rfl

theorem reported_deliver : (deliver cfg card cl).reported = cl.reported := by
  rw [deliver]
  split_ifs
  · rfl
  · rfl

/-- A client that is sent a card of the list holds only cards of the list. -/
theorem Sound.deliver (h : Sound cfg C cl) (hcard : card ∈ C) (hid : shows cfg cl card = true → card.id ≠ 0)
    (hsend : shows cfg cl card = true → Sendable (request cfg cl card) card.toCcCard) :
    Sound cfg C (deliver cfg card cl) := by
  refine ⟨nodup_deliver hsend h.nodup, fun x hx => ?_⟩
  rcases (mem_held_deliver hsend).mp hx with ⟨hmem, -⟩ | hshare
  · obtain ⟨c, hc, hc0, hshare⟩ := h.source x hmem
    exact ⟨c, hc, hc0, share_deliver.trans hshare⟩
  · exact ⟨card, hcard, hid (shows_of_share hshare), share_deliver.trans hshare⟩

/-- A client that is sent a card holds it, and what it held of the others. -/
theorem Complete.deliver (h : Complete cfg P cl) (hother : ∀ c ∈ P, c.id = card.id → c = card)
    (hsend : shows cfg cl card = true → Sendable (request cfg cl card) card.toCcCard) :
    Complete cfg (card :: P) (deliver cfg card cl) := by
  intro c hc x hx
  rw [share_deliver] at hx
  rw [mem_held_deliver hsend]
  rcases List.mem_cons.mp hc with rfl | hc
  · exact .inr hx
  · by_cases hid : x.id = card.id
    · rw [share_id hx] at hid
      exact .inr (hother c hc hid ▸ hx)
    · exact .inl ⟨h c hc x hx, fun _ => hid⟩

end Send

section Remove

/-- `send_remove_card_to_clients` for one client. -/
def withdraw (cfg : Config) (card : ShareCard) (cl : Client) : Client :=
  if card.id ≠ 0 ∧ cardValidForClient cfg cl card = true then cl.send (.cardRemoved card.id) else cl

theorem sendRemoveCardToClients_eq (clients : List Client) :
    sendRemoveCardToClients cfg card clients = clients.map (withdraw cfg card) := by
  rw [sendRemoveCardToClients]
  by_cases h0 : card.id = 0
  · have hid : withdraw cfg card = id := by
      funext cl
      exact if_neg fun h => h.1 h0
    rw [if_pos h0, hid, List.map_id]
  · rw [if_neg h0]
    apply List.map_congr_left
    intro cl _
    rw [withdraw]
    simp only [ne_eq, h0, not_false_eq_true, true_and]

theorem share_withdraw : share cfg (withdraw cfg card cl) old = share cfg cl old := by
  rw [withdraw]
  split_ifs
  · rfl
  · rfl

theorem reported_withdraw : (withdraw cfg card cl).reported = cl.reported := by
  rw [withdraw]
  split_ifs
  · rfl
  · rfl

theorem valid_of_shows (h : shows cfg cl card = true) : cardValidForClient cfg cl card = true :=
  (Bool.and_eq_true_iff.mp h).1

theorem mem_held_withdraw : x ∈ (withdraw cfg card cl).held ↔
    x ∈ cl.held ∧ (card.id ≠ 0 ∧ cardValidForClient cfg cl card = true → x.id ≠ card.id) := by
  rw [withdraw]
  split_ifs with h
  · rw [held_send]
    exact Mirror.mem_remove.trans (and_congr_right fun _ => ⟨fun hid _ => hid, fun hid => hid h⟩)
  · exact ⟨fun hx => ⟨hx, fun h' => absurd h' h⟩, And.left⟩

theorem Sound.withdraw (h : Sound cfg (card :: C) cl) : Sound cfg C (withdraw cfg card cl) := by
  constructor
  · rw [Share.withdraw]
    split_ifs
    · rw [held_send]
      exact Mirror.nodup_remove h.nodup
    · exact h.nodup
  · intro x hx
    obtain ⟨hmem, hid⟩ := mem_held_withdraw.mp hx
    obtain ⟨c, hc, hc0, hshare⟩ := h.source x hmem
    rcases List.mem_cons.mp hc with rfl | hc
    · exact absurd (share_id hshare) (hid ⟨hc0, valid_of_shows (shows_of_share hshare)⟩)
    · exact ⟨c, hc, hc0, share_withdraw.trans hshare⟩

theorem Complete.withdraw (h : Complete cfg (card :: C) cl) (hd : Distinct (card :: C)) :
    Complete cfg C (withdraw cfg card cl) := by
  intro c hc x hx
  rw [share_withdraw] at hx
  refine mem_held_withdraw.mpr ⟨h c (List.mem_cons_of_mem _ hc) x hx, fun ⟨h0, _⟩ hid => ?_⟩
  rw [share_id hx] at hid
  exact h0 ((List.pairwise_cons.mp hd).1 c hc hid.symm)

end Remove

theorem toNat_next (next : BitVec 32) : next + 1 = 0 ∨ (next + 1).toNat = next.toNat + 1 := by
  by_cases h : next.toNat + 1 < 2 ^ 32
  · right
    rw [BitVec.toNat_add]
    exact Nat.mod_eq_of_lt h
  · left
    apply BitVec.eq_of_toNat_eq
    have hlt := next.isLt
    have heq : next.toNat + 1 = 2 ^ 32 := by omega
    rw [BitVec.toNat_add]
    change (next.toNat + 1) % 2 ^ 32 = 0
    rw [heq, Nat.mod_self]

namespace Inv

theorem perm (h : Inv cfg next C clients) (hp : C.Perm C') : Inv cfg next C' clients where
  distinct := h.distinct.perm hp
  below := h.below.imp id fun hlt card hcard => hlt card (hp.mem_iff.mpr hcard)
  sound cl hcl := by
    refine ⟨(h.sound cl hcl).nodup, fun x hx => ?_⟩
    obtain ⟨card, hcard, hshare⟩ := (h.sound cl hcl).source x hx
    exact ⟨card, hp.mem_iff.mp hcard, hshare⟩
  complete cl hcl hrep card hcard := h.complete cl hcl hrep card (hp.mem_iff.mpr hcard)

/-- A card that is removed is withdrawn from all clients. -/
theorem remove (h : Inv cfg next (card :: C) clients) :
    Inv cfg next C (sendRemoveCardToClients cfg card clients) := by
  rw [sendRemoveCardToClients_eq]
  constructor
  · exact (List.pairwise_cons.mp h.distinct).2
  · exact h.below.imp id fun hlt c hc => hlt c (List.mem_cons_of_mem _ hc)
  · intro cl hcl
    obtain ⟨cl, hmem, rfl⟩ := List.mem_map.mp hcl
    exact (h.sound cl hmem).withdraw
  · intro cl hcl hrep
    obtain ⟨cl, hmem, rfl⟩ := List.mem_map.mp hcl
    rw [reported_withdraw] at hrep
    exact (h.complete cl hmem hrep).withdraw h.distinct

/-- A reported client that is shown a card knows an id of it. -/
theorem id_ne_zero (h : Inv cfg next C clients) {cl : Client} (hcl : cl ∈ clients) (hrep : cl.reported = true)
    (hcard : card ∈ C) (hshows : shows cfg cl card = true) : card.id ≠ 0 := by
  obtain ⟨x, hx⟩ : ∃ x, share cfg cl card = some x := ⟨_, if_pos hshows⟩
  obtain ⟨c, -, hc0, hshare⟩ := (h.sound cl hcl).source x (h.complete cl hcl hrep card hcard x hx)
  rw [← share_id hx, share_id hshare]
  exact hc0

/-- A card of the new list takes the place, the id and the shares of an old one. -/
theorem replace (h : Inv cfg next (old :: C) clients) (hid : card.id = old.id)
    (hshare : ∀ cl ∈ clients, (cl.reported = true ∨ ∃ x ∈ cl.held, x.id = old.id) →
      share cfg cl card = share cfg cl old) : Inv cfg next (card :: C) clients := by
  obtain ⟨hold, hC⟩ := List.pairwise_cons.mp h.distinct
  constructor
  · refine List.pairwise_cons.mpr ⟨fun c hc hidc => ?_, hC⟩
    rw [hid] at hidc ⊢
    exact hold c hc hidc
  · refine h.below.imp id fun hlt c hc => ?_
    rcases List.mem_cons.mp hc with rfl | hc
    · rw [hid]
      exact hlt old List.mem_cons_self
    · exact hlt c (List.mem_cons_of_mem _ hc)
  · intro cl hcl
    refine ⟨(h.sound cl hcl).nodup, fun x hx => ?_⟩
    obtain ⟨c, hc, hc0, hsx⟩ := (h.sound cl hcl).source x hx
    rcases List.mem_cons.mp hc with rfl | hc
    · refine ⟨card, List.mem_cons_self, hid ▸ hc0, ?_⟩
      rw [hshare cl hcl (.inr ⟨x, hx, share_id hsx⟩)]
      exact hsx
    · exact ⟨c, List.mem_cons_of_mem _ hc, hc0, hsx⟩
  · intro cl hcl hrep c hc x hx
    rcases List.mem_cons.mp hc with rfl | hc
    · rw [hshare cl hcl (.inl hrep)] at hx
      exact h.complete cl hcl hrep old List.mem_cons_self x hx
    · exact h.complete cl hcl hrep c (List.mem_cons_of_mem _ hc) x hx

/-- A card that no client knows yet gets an id. -/
theorem assign (h : Inv cfg next (card :: C) clients) (h0 : card.id = 0) (hnext : next ≠ 0) :
    Inv cfg (next + 1) ({ card with id := next } :: C) clients := by
  obtain ⟨hcard, hC⟩ := List.pairwise_cons.mp h.distinct
  have hlt : ∀ c ∈ card :: C, c.id.toNat < next.toNat := h.below.resolve_left hnext
  constructor
  · refine List.pairwise_cons.mpr ⟨fun c hc hid => ?_, hC⟩
    have hltc := hlt c (List.mem_cons_of_mem _ hc)
    rw [← hid] at hltc
    exact absurd hltc (Nat.lt_irrefl _)
  · refine (toNat_next next).imp id fun hsucc c hc => ?_
    rw [hsucc]
    rcases List.mem_cons.mp hc with rfl | hc
    · exact Nat.lt_succ_self _
    · exact Nat.lt_succ_of_lt (hlt c (List.mem_cons_of_mem _ hc))
  · intro cl hcl
    refine ⟨(h.sound cl hcl).nodup, fun x hx => ?_⟩
    obtain ⟨c, hc, hc0, hsx⟩ := (h.sound cl hcl).source x hx
    rcases List.mem_cons.mp hc with rfl | hc
    · exact absurd h0 hc0
    · exact ⟨c, List.mem_cons_of_mem _ hc, hc0, hsx⟩
  · intro cl hcl hrep c hc x hx
    rcases List.mem_cons.mp hc with rfl | hc
    · have hshows := (shows_id next).symm.trans (shows_of_share hx)
      exact absurd h0 (h.id_ne_zero hcl hrep List.mem_cons_self hshows)
    · exact h.complete cl hcl hrep c (List.mem_cons_of_mem _ hc) x hx

/-- A client is sent a card that has an id. -/
theorem deliver (h : Inv cfg next C clients) {i : ℕ} (hi : clients[i]? = some cl) (hcard : card ∈ C)
    (hid : shows cfg cl card = true → card.id ≠ 0)
    (hsend : shows cfg cl card = true → Sendable (request cfg cl card) card.toCcCard) :
    Inv cfg next C (clients.set i (deliver cfg card cl)) := by
  have hcl := List.mem_of_getElem? hi
  constructor
  · exact h.distinct
  · exact h.below
  · intro cl' hcl'
    rcases List.mem_or_eq_of_mem_set hcl' with hmem | rfl
    · exact h.sound cl' hmem
    · exact (h.sound cl hcl).deliver hcard hid hsend
  · intro cl' hcl' hrep
    rcases List.mem_or_eq_of_mem_set hcl' with hmem | rfl
    · exact h.complete cl' hmem hrep
    · rw [reported_deliver] at hrep
      by_cases hshows : shows cfg cl card = true
      · have hother : ∀ c ∈ C, c.id = card.id → c = card := fun c hc hidc =>
          h.distinct.eq_of_id hc hcard hidc (hidc ▸ hid hshows)
        exact fun c hc => (h.complete cl hcl hrep).deliver hother hsend c (List.mem_cons_of_mem _ hc)
      · rw [deliver_hidden (Bool.eq_false_iff.mpr hshows)]
        exact h.complete cl hcl hrep

/-- A new card without an id comes into the list and goes to all clients. -/
theorem add (h : Inv cfg next C clients) (h0 : card.id = 0)
    (hnext : (∃ cl ∈ clients, shows cfg cl card = true) → next ≠ 0)
    (hsend : ∀ cl ∈ clients, shows cfg cl card = true → Sendable (request cfg cl card) card.toCcCard) :
    Inv cfg (sendCardToAllClients cfg next card clients).1
      ((sendCardToAllClients cfg next card clients).2.1 :: C)
      (sendCardToAllClients cfg next card clients).2.2 := by
  by_cases hshows : ∃ cl ∈ clients, shows cfg cl card = true
  · rw [sendCardToAllClients_new h0 (hnext hshows) hshows]
    have hlt := h.below.resolve_left (hnext hshows)
    have hother : ∀ c ∈ C, c.id ≠ next := by
      intro c hc hid
      have hltc := hlt c hc
      rw [hid] at hltc
      exact absurd hltc (Nat.lt_irrefl _)
    have hsend' : ∀ cl ∈ clients, shows cfg cl { card with id := next } = true →
        Sendable (request cfg cl { card with id := next }) { card with id := next }.toCcCard :=
      fun cl hcl hcl' => sendable_id next (hsend cl hcl ((shows_id next).symm.trans hcl'))
    constructor
    · exact List.pairwise_cons.mpr ⟨fun c hc hid => absurd hid.symm (hother c hc), h.distinct⟩
    · refine (toNat_next next).imp id fun hsucc c hc => ?_
      rw [hsucc]
      rcases List.mem_cons.mp hc with rfl | hc
      · exact Nat.lt_succ_self _
      · exact Nat.lt_succ_of_lt (hlt c hc)
    · intro cl hcl
      obtain ⟨cl, hmem, rfl⟩ := List.mem_map.mp hcl
      have hmono : Sound cfg ({ card with id := next } :: C) cl := by
        refine ⟨(h.sound cl hmem).nodup, fun x hx => ?_⟩
        obtain ⟨c, hc, hrest⟩ := (h.sound cl hmem).source x hx
        exact ⟨c, List.mem_cons_of_mem _ hc, hrest⟩
      exact hmono.deliver List.mem_cons_self (fun _ => hnext hshows) (hsend' cl hmem)
    · intro cl hcl hrep
      obtain ⟨cl, hmem, rfl⟩ := List.mem_map.mp hcl
      rw [reported_deliver] at hrep
      exact (h.complete cl hmem hrep).deliver (fun c hc hid => absurd hid (hother c hc)) (hsend' cl hmem)
  · have hhidden : ∀ cl ∈ clients, shows cfg cl card = false := fun cl hcl =>
      Bool.eq_false_iff.mpr fun hcl' => hshows ⟨cl, hcl, hcl'⟩
    rw [sendCardToAllClients_hidden hhidden]
    constructor
    · refine List.pairwise_cons.mpr ⟨fun c _ _ => h0, h.distinct⟩
    · by_cases hzero : next = 0
      · exact .inl hzero
      · refine .inr fun c hc => ?_
        rcases List.mem_cons.mp hc with rfl | hc
        · rw [h0]
          exact Nat.pos_of_ne_zero fun hnat => hzero (BitVec.eq_of_toNat_eq hnat)
        · exact h.below.resolve_left hzero c hc
    · intro cl hcl
      refine ⟨(h.sound cl hcl).nodup, fun x hx => ?_⟩
      obtain ⟨c, hc, hrest⟩ := (h.sound cl hcl).source x hx
      exact ⟨c, List.mem_cons_of_mem _ hc, hrest⟩
    · intro cl hcl hrep c hc x hx
      rcases List.mem_cons.mp hc with rfl | hc
      · have hcl' := hhidden cl hcl
        rw [shows_of_share hx] at hcl'
        cases hcl'
      · exact h.complete cl hcl hrep c hc x hx

end Inv

end NCam.Cccam.Share
