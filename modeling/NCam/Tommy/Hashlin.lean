import Mathlib.Data.List.Range
import Mathlib.Data.Nat.Bitwise

/-! The linear hash table of `tommyhashlin.c` and what it stores, for every state of its incremental reallocation: the
operations as operations on a multiset of nodes. -/
namespace NCam.Tommy

/-- A node of a bucket chain: `data` identifies the object it is embedded in. -/
structure Node (α : Type*) where
  data : α
  index : ℕ
  deriving DecidableEq

inductive ReallocState
  | stable
  | grow
  | shrink
  deriving DecidableEq

/-- `tommy_hashlin`; a bucket position below `lowMax + split` is in use. -/
structure Hashlin (α : Type*) where
  bucket : ℕ → List (Node α)
  bucketBit : ℕ
  bucketMax : ℕ
  bucketMask : ℕ
  lowMax : ℕ
  lowMask : ℕ
  split : ℕ
  count : ℕ
  state : ReallocState

namespace Hashlin

variable {α : Type*}

/-- `TOMMY_HASHLIN_BIT`. -/
def hashlinBit : ℕ := 6

def stable (h : Hashlin α) : Hashlin α :=
  { h with state := .stable, lowMax := h.bucketMax, lowMask := h.bucketMask, split := 0 }

def init : Hashlin α where
  bucket := fun _ => []
  bucketBit := hashlinBit
  bucketMax := 2 ^ hashlinBit
  bucketMask := 2 ^ hashlinBit - 1
  lowMax := 2 ^ hashlinBit
  lowMask := 2 ^ hashlinBit - 1
  split := 0
  count := 0
  state := .stable

/-- `tommy_hashlin_bucket_ref`. -/
def bucketRef (h : Hashlin α) (hash : ℕ) : ℕ :=
  let pos := hash &&& h.lowMask
  if pos < h.split then hash &&& h.bucketMask else pos

/-- One bucket split of `hashlin_grow_step`: the flush keeps the chain order in both halves. -/
def splitBucket (h : Hashlin α) : Hashlin α :=
  let j := h.bucket h.split
  let low := j.filter fun n => decide (n.index &&& h.lowMax = 0)
  let high := j.filter fun n => decide (n.index &&& h.lowMax ≠ 0)
  { h with
    bucket := Function.update (Function.update h.bucket h.split low) (h.split + h.lowMax) high
    split := h.split + 1 }

/-- The reallocation loop of `hashlin_grow_step`; `fuel` bounds the splits left. -/
def growLoop (splitTarget : ℕ) : ℕ → Hashlin α → Hashlin α
  | 0, h => h
  | fuel + 1, h =>
    if h.split + h.lowMax < splitTarget then
      let h := h.splitBucket
      if h.split = h.lowMax then h.stable else growLoop splitTarget fuel h
    else h

def growSetup (h : Hashlin α) : Hashlin α :=
  if h.state ≠ .grow ∧ h.count > h.bucketMax / 2 then
    let h := if h.state = .stable then
        { h with
          lowMax := h.bucketMax
          lowMask := h.bucketMask
          bucketBit := h.bucketBit + 1
          bucketMax := 2 ^ (h.bucketBit + 1)
          bucketMask := 2 ^ (h.bucketBit + 1) - 1
          split := 0 }
      else h
    { h with state := .grow }
  else h

def growStep (h : Hashlin α) : Hashlin α :=
  let h := h.growSetup
  if h.state = .grow then growLoop (2 * h.count) h.lowMax h else h

/-- One bucket concatenation of `hashlin_shrink_step`. -/
def concatBucket (h : Hashlin α) : Hashlin α :=
  let split := h.split - 1
  { h with
    split := split
    bucket := Function.update h.bucket split (h.bucket split ++ h.bucket (split + h.lowMax)) }

def shrinkLoop (splitTarget : ℕ) : ℕ → Hashlin α → Hashlin α
  | 0, h => h
  | fuel + 1, h =>
    if h.split + h.lowMax > splitTarget then
      let h := h.concatBucket
      if h.split = 0 then
        stable { h with
          bucketBit := h.bucketBit - 1
          bucketMax := 2 ^ (h.bucketBit - 1)
          bucketMask := 2 ^ (h.bucketBit - 1) - 1 }
      else shrinkLoop splitTarget fuel h
    else h

def shrinkSetup (h : Hashlin α) : Hashlin α :=
  if h.state ≠ .shrink ∧ h.count < h.bucketMax / 8 ∧ h.bucketBit > hashlinBit then
    let h := if h.state = .stable then
        { h with
          lowMax := h.bucketMax / 2
          lowMask := h.bucketMask / 2
          split := h.bucketMax / 2 }
      else h
    { h with state := .shrink }
  else h

def shrinkStep (h : Hashlin α) : Hashlin α :=
  let h := h.shrinkSetup
  if h.state = .shrink then shrinkLoop (8 * h.count) h.split h else h

/-- `tommy_hashlin_insert`. -/
def insert (h : Hashlin α) (data : α) (hash : ℕ) : Hashlin α :=
  let pos := h.bucketRef hash
  growStep { h with
    bucket := Function.update h.bucket pos (h.bucket pos ++ [⟨data, hash⟩])
    count := h.count + 1 }

/-- `tommy_hashlin_search`: the first node of the chain with this hash that `cmp` accepts. -/
def search (h : Hashlin α) (cmp : α → Bool) (hash : ℕ) : Option α :=
  ((h.bucket (h.bucketRef hash)).find? fun n => n.index == hash && cmp n.data).map Node.data

variable [DecidableEq α]

/-- `tommy_hashlin_remove_existing`; `none` when the node is not linked in its bucket, where the C
code follows the node's stale links. -/
def removeExisting (h : Hashlin α) (n : Node α) : Option (Hashlin α) :=
  let pos := h.bucketRef n.index
  if n ∈ h.bucket pos then
    some (shrinkStep { h with
      bucket := Function.update h.bucket pos ((h.bucket pos).erase n)
      count := h.count - 1 })
  else none

/-- `tommy_hashlin_remove`: search and unlink, with the object found. -/
def remove (h : Hashlin α) (cmp : α → Bool) (hash : ℕ) : Hashlin α × Option α :=
  let pos := h.bucketRef hash
  match (h.bucket pos).find? fun n => n.index == hash && cmp n.data with
  | some n =>
    (shrinkStep { h with
      bucket := Function.update h.bucket pos ((h.bucket pos).erase n)
      count := h.count - 1 }, some n.data)
  | none => (h, none)

/-- The stored nodes, bucket by bucket. -/
def content (h : Hashlin α) : List (Node α) :=
  (List.range (h.lowMax + h.split)).flatMap h.bucket

end Hashlin

end NCam.Tommy

namespace NCam.Tommy.Hashlin

variable {α : Type*}

/-- Where a hash belongs when the buckets below `split` of a table of `2 ^ k` are already split. -/
def addr (k split hash : ℕ) : ℕ :=
  if hash % 2 ^ k < split then hash % 2 ^ (k + 1) else hash % 2 ^ k

private theorem mod_two_pow_succ_cases (k x : ℕ) :
    (x &&& 2 ^ k = 0 ∧ x % 2 ^ (k + 1) = x % 2 ^ k) ∨
      (x &&& 2 ^ k ≠ 0 ∧ x % 2 ^ (k + 1) = x % 2 ^ k + 2 ^ k) := by
  have hpos : 0 < 2 ^ k := Nat.two_pow_pos k
  rw [Nat.mod_pow_succ, Nat.and_two_pow, Nat.testBit_eq_decide_div_mod_eq]
  rcases Nat.mod_two_eq_zero_or_one (x / 2 ^ k) with h | h
  · left
    simp [h]
  · right
    simp [h]

theorem addr_lt {k split : ℕ} (hash : ℕ) : addr k split hash < 2 ^ k + split := by
  unfold addr
  have hlt := Nat.mod_lt hash (Nat.two_pow_pos k)
  split_ifs with h
  · rcases mod_two_pow_succ_cases k hash with ⟨-, he⟩ | ⟨-, he⟩ <;> omega
  · omega

theorem addr_eq_split {k split hash : ℕ} (hs : split < 2 ^ k) :
    addr k split hash = split ↔ hash % 2 ^ k = split := by
  unfold addr
  split_ifs with h
  · rcases mod_two_pow_succ_cases k hash with ⟨-, he⟩ | ⟨-, he⟩ <;> omega
  · rfl

theorem addr_succ {k split hash : ℕ} (hs : split < 2 ^ k) :
    addr k (split + 1) hash =
      if addr k split hash = split then
        if hash &&& 2 ^ k = 0 then split else split + 2 ^ k
      else addr k split hash := by
  by_cases h : hash % 2 ^ k = split
  · rw [if_pos ((addr_eq_split hs).mpr h)]
    unfold addr
    rw [if_pos (by omega)]
    rcases mod_two_pow_succ_cases k hash with ⟨hb, he⟩ | ⟨hb, he⟩
    · rw [if_pos hb]; omega
    · rw [if_neg hb]; omega
  · rw [if_neg (mt (addr_eq_split hs).mp h)]
    unfold addr
    split_ifs <;> first | rfl | omega

theorem addr_full (k hash : ℕ) : addr k (2 ^ k) hash = hash % 2 ^ (k + 1) :=
  if_pos (Nat.mod_lt _ (Nat.two_pow_pos k))

theorem addr_zero (k hash : ℕ) : addr k 0 hash = hash % 2 ^ k :=
  if_neg (Nat.not_lt_zero _)

private theorem flatMap_update_perm {β : Type*} (b : ℕ → List β) {N p : ℕ} (hp : p < N) (l : List β) :
    ((List.range N).flatMap (Function.update b p l) ++ b p).Perm
      ((List.range N).flatMap b ++ l) := by
  induction N with
  | zero => omega
  | succ N ih =>
    rw [List.range_succ, List.flatMap_append, List.flatMap_append, List.flatMap_singleton,
      List.flatMap_singleton]
    rcases Nat.lt_succ_iff_lt_or_eq.mp hp with hlt | rfl
    · rw [Function.update_of_ne (by omega : N ≠ p), List.append_assoc, List.append_assoc]
      refine ((List.perm_append_comm).append_left _).trans ?_
      rw [← List.append_assoc]
      refine ((ih hlt).append_right _).trans ?_
      rw [List.append_assoc]
      exact (List.perm_append_comm).append_left _
    · have hsame : (List.range p).flatMap (Function.update b p l) = (List.range p).flatMap b :=
        List.flatMap_congr fun q hq => Function.update_of_ne (List.mem_range.mp hq).ne _ _
      rw [Function.update_self, hsame, List.append_assoc, List.append_assoc]
      exact (List.perm_append_comm).append_left _


/-- The masks and sizes of a table whose lower half has `2 ^ k` buckets, and every node in the
bucket of its hash. -/
structure Geometry (h : Hashlin α) (k : ℕ) : Prop where
  lowMax : h.lowMax = 2 ^ k
  lowMask : h.lowMask = 2 ^ k - 1
  bucketBit : h.bucketBit = if h.state = .stable then k else k + 1
  bucketMax : h.bucketMax = 2 ^ h.bucketBit
  bucketMask : h.bucketMask = 2 ^ h.bucketBit - 1
  placed : ∀ p < 2 ^ k + h.split, ∀ n ∈ h.bucket p, addr k h.split n.index = p

/-- Between two operations a reallocation is either finished or under way. -/
structure WF (h : Hashlin α) : Prop where
  geometry : ∃ k, h.Geometry k
  stable : h.state = .stable → h.split = 0
  moving : h.state ≠ .stable → 1 ≤ h.split ∧ h.split < h.lowMax
  count : h.count = h.content.length

variable {h : Hashlin α} {k : ℕ}

theorem Geometry.bucketRef_eq (g : h.Geometry k) (hs : h.state = .stable → h.split = 0) (hash : ℕ) :
    h.bucketRef hash = addr k h.split hash := by
  unfold bucketRef addr
  rw [g.lowMask, g.bucketMask, g.bucketBit]
  simp only [Nat.and_two_pow_sub_one_eq_mod]
  split_ifs with hlt hstable
  · rw [hs hstable] at hlt
    exact absurd hlt (Nat.not_lt_zero _)
  · rfl
  · rfl

theorem Geometry.stable (g : h.Geometry k) (hs : h.split = 2 ^ k) (hm : h.state ≠ .stable) :
    h.stable.Geometry (k + 1) where
  lowMax := by simp [Hashlin.stable, g.bucketMax, g.bucketBit, hm]
  lowMask := by simp [Hashlin.stable, g.bucketMask, g.bucketBit, hm]
  bucketBit := by simp [Hashlin.stable, g.bucketBit, hm]
  bucketMax := g.bucketMax
  bucketMask := g.bucketMask
  placed p hp n hn := by
    have hp' : p < 2 ^ k + h.split := by
      rw [hs, ← Nat.two_mul, ← pow_succ']
      exact hp
    have := g.placed p hp' n hn
    rw [hs, addr_full] at this
    exact (addr_zero _ _).trans this

theorem Geometry.content_eq (g : h.Geometry k) :
    h.content = (List.range (2 ^ k + h.split)).flatMap h.bucket := by
  rw [content, g.lowMax]

theorem Geometry.content_stable (g : h.Geometry k) (hs : h.split = 2 ^ k) (hm : h.state ≠ .stable) :
    h.stable.content = h.content := by
  rw [(g.stable hs hm).content_eq, g.content_eq, hs]
  rw [pow_succ, Nat.mul_two]
  rfl

theorem Geometry.splitBucket (g : h.Geometry k) (hs : h.split < 2 ^ k) :
    h.splitBucket.Geometry k where
  lowMax := g.lowMax
  lowMask := g.lowMask
  bucketBit := g.bucketBit
  bucketMax := g.bucketMax
  bucketMask := g.bucketMask
  placed p hp n hn := by
    change p < 2 ^ k + (h.split + 1) at hp
    change addr k (h.split + 1) n.index = p
    simp only [Hashlin.splitBucket, g.lowMax] at hn
    rw [addr_succ hs]
    by_cases hhigh : p = h.split + 2 ^ k
    · subst hhigh
      rw [Function.update_self, List.mem_filter, decide_eq_true_eq] at hn
      rw [if_pos (g.placed _ (by omega) n hn.1), if_neg hn.2]
    · rw [Function.update_of_ne hhigh] at hn
      by_cases hlow : p = h.split
      · subst hlow
        rw [Function.update_self, List.mem_filter, decide_eq_true_eq] at hn
        rw [if_pos (g.placed _ (by omega) n hn.1), if_pos hn.2]
      · rw [Function.update_of_ne hlow] at hn
        have hold := g.placed p (by omega) n hn
        rw [if_neg (hold.symm ▸ hlow), hold]

theorem Geometry.content_splitBucket (g : h.Geometry k) (hs : h.split < 2 ^ k) :
    h.splitBucket.content.Perm h.content := by
  rw [(g.splitBucket hs).content_eq, g.content_eq]
  change ((List.range (2 ^ k + h.split + 1)).flatMap _).Perm _
  have hN : 0 < 2 ^ k := Nat.two_pow_pos k
  simp only [Hashlin.splitBucket, g.lowMax]
  rw [List.range_succ, List.flatMap_append, List.flatMap_singleton, Nat.add_comm h.split,
    Function.update_self, List.flatMap_congr fun q hq =>
      Function.update_of_ne (List.mem_range.mp hq).ne _ _]
  set low := (h.bucket h.split).filter fun n => decide (n.index &&& 2 ^ k = 0)
  set high := (h.bucket h.split).filter fun n => decide (n.index &&& 2 ^ k ≠ 0)
  have hparts : (low ++ high).Perm (h.bucket h.split) := by
    simpa [low, high] using List.filter_append_perm
      (fun n : Node α => decide (n.index &&& 2 ^ k = 0)) (h.bucket h.split)
  have hupd := flatMap_update_perm h.bucket (show h.split < 2 ^ k + h.split by omega) low
  refine (List.perm_append_right_iff (h.bucket h.split)).mp ?_
  have hswap : (high ++ h.bucket h.split).Perm (h.bucket h.split ++ high) := List.perm_append_comm
  rw [List.append_assoc]
  refine (hswap.append_left _).trans ?_
  rw [← List.append_assoc]
  refine (hupd.append_right high).trans ?_
  rw [List.append_assoc]
  exact hparts.append_left _


private theorem wf_moving (g : h.Geometry k) (hm : h.state ≠ .stable) (hlo : 1 ≤ h.split)
    (hhi : h.split < 2 ^ k) (hc : h.count = h.content.length) : h.WF :=
  ⟨⟨k, g⟩, fun hs => absurd hs hm, fun _ => ⟨hlo, g.lowMax.symm ▸ hhi⟩, hc⟩

private theorem growLoop_spec (target fuel : ℕ) (g : h.Geometry k) (hm : h.state ≠ .stable)
    (hhi : h.split < 2 ^ k) (hlo : 1 ≤ h.split ∨ 0 < fuel ∧ h.split + h.lowMax < target)
    (hc : h.count = h.content.length) :
    (growLoop target fuel h).WF ∧ (growLoop target fuel h).content.Perm h.content := by
  induction fuel generalizing h with
  | zero =>
    have : 1 ≤ h.split := by omega
    exact ⟨wf_moving g hm this hhi hc, .refl _⟩
  | succ fuel ih =>
    unfold growLoop
    dsimp only
    by_cases htarget : h.split + h.lowMax < target
    · rw [if_pos htarget]
      have gs := g.splitBucket hhi
      have hperm := g.content_splitBucket hhi
      have hcs : h.splitBucket.count = h.splitBucket.content.length :=
        hc.trans hperm.length_eq.symm
      by_cases hfull : h.splitBucket.split = h.splitBucket.lowMax
      · rw [if_pos hfull]
        have hfull' : h.splitBucket.split = 2 ^ k := hfull.trans g.lowMax
        have hcontent := gs.content_stable hfull' hm
        exact ⟨⟨⟨k + 1, gs.stable hfull' hm⟩, fun _ => rfl, fun hx => absurd rfl hx,
          hcs.trans (congrArg List.length hcontent.symm)⟩, hcontent ▸ hperm⟩
      · rw [if_neg hfull]
        have hlt : h.splitBucket.split < 2 ^ k := by
          have hne : h.split + 1 ≠ h.lowMax := hfull
          have := g.lowMax
          change h.split + 1 < 2 ^ k
          omega
        obtain ⟨hwf, hp⟩ := ih gs hm hlt (.inl (Nat.le_add_left 1 h.split)) hcs
        exact ⟨hwf, hp.trans hperm⟩
    · rw [if_neg htarget]
      have : 1 ≤ h.split := by omega
      exact ⟨wf_moving g hm this hhi hc, .refl _⟩

private theorem WF.growSetup (hw : h.WF) (hstate : h.growSetup.state = .grow) :
    ∃ k, h.growSetup.Geometry k ∧ h.growSetup.split < 2 ^ k ∧
      (1 ≤ h.growSetup.split ∨ 0 < h.growSetup.lowMax ∧
        h.growSetup.split + h.growSetup.lowMax < 2 * h.growSetup.count) ∧
      h.growSetup.count = h.count ∧ h.growSetup.content = h.content := by
  obtain ⟨k, g⟩ := hw.geometry
  have hpos : 0 < 2 ^ k := Nat.two_pow_pos k
  by_cases hgrow : h.state ≠ .grow ∧ h.count > h.bucketMax / 2
  · by_cases hstable : h.state = .stable
    · -- the table is doubled: no bucket is split yet, but the load asks for at least one split
      have hbit : h.bucketBit = k := by simpa [hstable] using g.bucketBit
      have hmax : h.bucketMax = 2 ^ k := hbit ▸ g.bucketMax
      have hmask : h.bucketMask = 2 ^ k - 1 := hbit ▸ g.bucketMask
      have hsplit := hw.stable hstable
      have heq : h.growSetup = { h with
          lowMax := h.bucketMax, lowMask := h.bucketMask, bucketBit := h.bucketBit + 1
          bucketMax := 2 ^ (h.bucketBit + 1), bucketMask := 2 ^ (h.bucketBit + 1) - 1
          split := 0, state := .grow } := by
        rw [Hashlin.growSetup, if_pos hgrow, if_pos hstable]
      rw [heq]
      refine ⟨k, ⟨hmax, hmask, ?_, rfl, rfl, fun p hp n hn => ?_⟩, hpos, .inr ?_, rfl, ?_⟩
      · simp [hbit]
      · have hold := g.placed p (by simpa [hsplit] using hp) n hn
        rwa [hsplit] at hold
      · have := hgrow.2
        dsimp only
        omega
      · rw [g.content_eq, hsplit, content, hmax]
    · obtain ⟨hlo, hhi⟩ := hw.moving hstable
      have heq : h.growSetup = { h with state := .grow } := by
        rw [Hashlin.growSetup, if_pos hgrow, if_neg hstable]
      rw [heq]
      refine ⟨k, ⟨g.lowMax, g.lowMask, ?_, g.bucketMax, g.bucketMask, g.placed⟩, g.lowMax ▸ hhi,
        .inl hlo, rfl, rfl⟩
      simpa [hstable] using g.bucketBit
  · have heq : h.growSetup = h := if_neg hgrow
    rw [heq] at hstate ⊢
    have hm : h.state ≠ .stable := by simp [hstate]
    obtain ⟨hlo, hhi⟩ := hw.moving hm
    exact ⟨k, g, g.lowMax ▸ hhi, .inl hlo, rfl, rfl⟩

private theorem growSetup_of_ne (hstate : h.growSetup.state ≠ .grow) : h.growSetup = h := by
  by_cases hgrow : h.state ≠ .grow ∧ h.count > h.bucketMax / 2
  · exact absurd (by rw [Hashlin.growSetup, if_pos hgrow]) hstate
  · exact if_neg hgrow

theorem WF.growStep (hw : h.WF) : h.growStep.WF ∧ h.growStep.content.Perm h.content := by
  by_cases hstate : h.growSetup.state = .grow
  · obtain ⟨k, g, hhi, hlo, hc, hcontent⟩ := hw.growSetup hstate
    rw [Hashlin.growStep, if_pos hstate, ← hcontent]
    refine growLoop_spec _ _ g (by simp [hstate]) hhi hlo ?_
    rw [hc, hcontent, hw.count]
  · rw [Hashlin.growStep, if_neg hstate, growSetup_of_ne hstate]
    exact ⟨hw, .refl _⟩

private theorem Geometry.concatBucket (g : h.Geometry k) (hlo : 1 ≤ h.split) (hhi : h.split ≤ 2 ^ k) :
    h.concatBucket.Geometry k where
  lowMax := g.lowMax
  lowMask := g.lowMask
  bucketBit := g.bucketBit
  bucketMax := g.bucketMax
  bucketMask := g.bucketMask
  placed p hp n hn := by
    obtain ⟨s, hs⟩ : ∃ s, h.split = s + 1 := ⟨h.split - 1, by omega⟩
    have hsplit : h.concatBucket.split = s := by simp [Hashlin.concatBucket, hs]
    rw [hsplit] at hp ⊢
    have hslt : s < 2 ^ k := by omega
    -- a node of the two merged buckets lands in the lower one
    have hback : ∀ q < 2 ^ k + (s + 1), ∀ m ∈ h.bucket q,
        addr k s m.index = if q = s ∨ q = s + 2 ^ k then s else q := by
      intro q hq m hm
      have hold := g.placed q (by rwa [hs]) m hm
      rw [hs, addr_succ hslt] at hold
      by_cases ha : addr k s m.index = s
      · rw [if_pos ha] at hold
        have hq' : q = s ∨ q = s + 2 ^ k := by split_ifs at hold <;> omega
        rw [if_pos hq', ha]
      · rw [if_neg ha] at hold
        have hlt : addr k s m.index < 2 ^ k + s := addr_lt m.index
        rw [if_neg (by omega), hold]
    simp only [Hashlin.concatBucket, hs, Nat.add_sub_cancel, g.lowMax] at hn
    by_cases hps : p = s
    · subst hps
      rw [Function.update_self, List.mem_append] at hn
      rcases hn with hn | hn
      · rw [hback p (by omega) n hn, if_pos (.inl rfl)]
      · rw [hback _ (by omega) n hn, if_pos (.inr rfl)]
    · rw [Function.update_of_ne hps] at hn
      rw [hback p (by omega) n hn, if_neg (by omega)]

private theorem Geometry.content_concatBucket (g : h.Geometry k) (hlo : 1 ≤ h.split)
    (hhi : h.split ≤ 2 ^ k) : h.concatBucket.content.Perm h.content := by
  rw [(g.concatBucket hlo hhi).content_eq, g.content_eq]
  obtain ⟨s, hs⟩ : ∃ s, h.split = s + 1 := ⟨h.split - 1, by omega⟩
  have hpos : 0 < 2 ^ k := Nat.two_pow_pos k
  simp only [Hashlin.concatBucket, hs, Nat.add_sub_cancel, g.lowMax]
  rw [← Nat.add_assoc, List.range_succ, List.flatMap_append, List.flatMap_singleton,
    Nat.add_comm s (2 ^ k)]
  have hupd := flatMap_update_perm h.bucket (show s < 2 ^ k + s by omega)
    (h.bucket s ++ h.bucket (2 ^ k + s))
  have hswap : (h.bucket s ++ h.bucket (2 ^ k + s)).Perm (h.bucket (2 ^ k + s) ++ h.bucket s) :=
    List.perm_append_comm
  refine (List.perm_append_right_iff (h.bucket s)).mp (hupd.trans ?_)
  rw [List.append_assoc]
  exact hswap.append_left _

private theorem shrinkLoop_spec (target fuel : ℕ) (g : h.Geometry k) (hm : h.state ≠ .stable)
    (hlo : 1 ≤ h.split) (hhi : h.split ≤ 2 ^ k)
    (hlt : h.split < 2 ^ k ∨ 0 < fuel ∧ target < h.split + h.lowMax)
    (hc : h.count = h.content.length) :
    (shrinkLoop target fuel h).WF ∧ (shrinkLoop target fuel h).content.Perm h.content := by
  induction fuel generalizing h with
  | zero =>
    have : h.split < 2 ^ k := by omega
    exact ⟨wf_moving g hm hlo this hc, .refl _⟩
  | succ fuel ih =>
    unfold shrinkLoop
    dsimp only
    by_cases htarget : h.split + h.lowMax > target
    · rw [if_pos htarget]
      have gc := g.concatBucket hlo hhi
      have hperm := g.content_concatBucket hlo hhi
      have hcs : h.concatBucket.count = h.concatBucket.content.length :=
        hc.trans hperm.length_eq.symm
      by_cases hempty : h.concatBucket.split = 0
      · rw [if_pos hempty]
        have hk : h.concatBucket.bucketBit - 1 = k := by
          have := g.bucketBit
          simp only [hm, if_false] at this
          change h.bucketBit - 1 = k
          omega
        rw [hk]
        set h' := stable { h.concatBucket with
          bucketBit := k, bucketMax := 2 ^ k, bucketMask := 2 ^ k - 1 } with hh'
        have heq : h'.content = h.concatBucket.content := by
          rw [gc.content_eq, hempty]
          rfl
        have gh : h'.Geometry k := by
          refine ⟨rfl, rfl, rfl, rfl, rfl, fun p hp n hn => ?_⟩
          have := gc.placed p (by rw [hempty]; exact hp) n hn
          rwa [hempty] at this
        exact ⟨⟨⟨k, gh⟩, fun _ => rfl, fun hx => absurd rfl hx, heq ▸ hcs⟩, heq ▸ hperm⟩
      · rw [if_neg hempty]
        have hsplit : h.concatBucket.split = h.split - 1 := rfl
        obtain ⟨hwf, hp⟩ := ih gc hm (by omega) (by omega) (.inl (by omega)) hcs
        exact ⟨hwf, hp.trans hperm⟩
    · rw [if_neg htarget]
      have : h.split < 2 ^ k := by omega
      exact ⟨wf_moving g hm hlo this hc, .refl _⟩

private theorem WF.shrinkSetup (hw : h.WF) (hstate : h.shrinkSetup.state = .shrink) :
    ∃ k, h.shrinkSetup.Geometry k ∧ 1 ≤ h.shrinkSetup.split ∧ h.shrinkSetup.split ≤ 2 ^ k ∧
      (h.shrinkSetup.split < 2 ^ k ∨ 0 < h.shrinkSetup.split ∧
        8 * h.shrinkSetup.count < h.shrinkSetup.split + h.shrinkSetup.lowMax) ∧
      h.shrinkSetup.count = h.count ∧ h.shrinkSetup.content = h.content := by
  obtain ⟨k, g⟩ := hw.geometry
  by_cases hshrink : h.state ≠ .shrink ∧ h.count < h.bucketMax / 8 ∧ h.bucketBit > hashlinBit
  · by_cases hstable : h.state = .stable
    · -- the upper half of the buckets is still in use, but the load asks for at least one merge
      have hbit : h.bucketBit = k := by simpa [hstable] using g.bucketBit
      obtain ⟨j, rfl⟩ : ∃ j, k = j + 1 := ⟨k - 1, by have := hshrink.2.2; omega⟩
      have hmax : h.bucketMax = 2 * 2 ^ j := by rw [g.bucketMax, hbit, pow_succ']
      have hmask : h.bucketMask = 2 * 2 ^ j - 1 := by rw [g.bucketMask, hbit, pow_succ']
      have hhalf : h.bucketMax / 2 = 2 ^ j := by omega
      have hhalf' : h.bucketMask / 2 = 2 ^ j - 1 := by omega
      have hpos : 0 < 2 ^ j := Nat.two_pow_pos j
      have hsplit := hw.stable hstable
      have hdouble : 2 ^ (j + 1) = 2 ^ j + 2 ^ j := by rw [pow_succ, Nat.mul_two]
      have heq : h.shrinkSetup = { h with
          lowMax := 2 ^ j, lowMask := 2 ^ j - 1, split := 2 ^ j, state := .shrink } := by
        rw [Hashlin.shrinkSetup, if_pos hshrink, if_pos hstable]
        simp only [hhalf, hhalf']
      rw [heq]
      refine ⟨j, ⟨rfl, rfl, ?_, g.bucketMax, g.bucketMask, fun p hp n hn => ?_⟩, hpos, le_rfl,
        .inr ⟨hpos, ?_⟩, rfl, ?_⟩
      · simp [hbit]
      · have hold := g.placed p (by dsimp only at hp; omega) n hn
        rw [hsplit, addr_zero] at hold
        exact (addr_full _ _).trans hold
      · have := hshrink.2.1
        dsimp only
        omega
      · rw [g.content_eq, hsplit, content, hdouble]
        rfl
    · obtain ⟨hlo, hhi⟩ := hw.moving hstable
      have heq : h.shrinkSetup = { h with state := .shrink } := by
        rw [Hashlin.shrinkSetup, if_pos hshrink, if_neg hstable]
      rw [heq]
      rw [g.lowMax] at hhi
      refine ⟨k, ⟨g.lowMax, g.lowMask, ?_, g.bucketMax, g.bucketMask, g.placed⟩, hlo, hhi.le,
        .inl hhi, rfl, rfl⟩
      simpa [hstable] using g.bucketBit
  · have heq : h.shrinkSetup = h := if_neg hshrink
    rw [heq] at hstate ⊢
    have hm : h.state ≠ .stable := by simp [hstate]
    obtain ⟨hlo, hhi⟩ := hw.moving hm
    rw [g.lowMax] at hhi
    exact ⟨k, g, hlo, hhi.le, .inl hhi, rfl, rfl⟩

private theorem shrinkSetup_of_ne (hstate : h.shrinkSetup.state ≠ .shrink) : h.shrinkSetup = h := by
  by_cases hshrink : h.state ≠ .shrink ∧ h.count < h.bucketMax / 8 ∧ h.bucketBit > hashlinBit
  · exact absurd (by rw [Hashlin.shrinkSetup, if_pos hshrink]) hstate
  · exact if_neg hshrink

theorem WF.shrinkStep (hw : h.WF) : h.shrinkStep.WF ∧ h.shrinkStep.content.Perm h.content := by
  by_cases hstate : h.shrinkSetup.state = .shrink
  · obtain ⟨k, g, hlo, hhi, hlt, hc, hcontent⟩ := hw.shrinkSetup hstate
    rw [Hashlin.shrinkStep, if_pos hstate, ← hcontent]
    refine shrinkLoop_spec _ _ g (by simp [hstate]) hlo hhi hlt ?_
    rw [hc, hcontent, hw.count]
  · rw [Hashlin.shrinkStep, if_neg hstate, shrinkSetup_of_ne hstate]
    exact ⟨hw, .refl _⟩

theorem WF.init : (Hashlin.init : Hashlin α).WF where
  geometry := ⟨hashlinBit, rfl, rfl, rfl, rfl, rfl, fun _ _ n hn => absurd hn List.not_mem_nil⟩
  stable _ := rfl
  moving hm := absurd rfl hm
  count := by simp [Hashlin.init, content]

/-- A node is stored exactly when the bucket of its hash holds it. -/
theorem WF.mem_content (hw : h.WF) (n : Node α) :
    n ∈ h.content ↔ n ∈ h.bucket (h.bucketRef n.index) := by
  obtain ⟨k, g⟩ := hw.geometry
  rw [g.content_eq, List.mem_flatMap, g.bucketRef_eq hw.stable]
  constructor
  · rintro ⟨p, hp, hn⟩
    rwa [g.placed p (List.mem_range.mp hp) n hn]
  · intro hn
    exact ⟨_, List.mem_range.mpr (addr_lt n.index), hn⟩

/-- Replacing the bucket of `hash` by chains of the same hash keeps every node in place. -/
private theorem WF.setBucket (hw : h.WF) (hash : ℕ) {l : List (Node α)} {c : ℕ}
    (hl : ∀ n ∈ l, n ∈ h.bucket (h.bucketRef hash) ∨ n.index = hash)
    (hc : c + (h.bucket (h.bucketRef hash)).length = h.count + l.length) :
    let h' := { h with bucket := Function.update h.bucket (h.bucketRef hash) l, count := c }
    h'.WF ∧ (h'.content ++ h.bucket (h.bucketRef hash)).Perm (h.content ++ l) := by
  intro h'
  obtain ⟨k, g⟩ := hw.geometry
  have href := g.bucketRef_eq hw.stable hash
  have hlt : h.bucketRef hash < 2 ^ k + h.split := href ▸ addr_lt hash
  have hperm : (h'.content ++ h.bucket (h.bucketRef hash)).Perm (h.content ++ l) := by
    have := flatMap_update_perm h.bucket hlt l
    rwa [← g.content_eq, ← g.lowMax] at this
  have hlen := hperm.length_eq
  rw [List.length_append, List.length_append] at hlen
  refine ⟨⟨⟨k, g.lowMax, g.lowMask, g.bucketBit, g.bucketMax, g.bucketMask, fun p hp n hn => ?_⟩,
    hw.stable, hw.moving, ?_⟩, hperm⟩
  · by_cases hpr : p = h.bucketRef hash
    · subst hpr
      rw [show h'.bucket = Function.update h.bucket (h.bucketRef hash) l from rfl,
        Function.update_self] at hn
      rcases hl n hn with hold | rfl
      · exact g.placed _ hp n hold
      · exact href.symm
    · rw [show h'.bucket = Function.update h.bucket (h.bucketRef hash) l from rfl,
        Function.update_of_ne hpr] at hn
      exact g.placed p hp n hn
  · have := hw.count
    change c = h'.content.length
    omega

theorem WF.insert (hw : h.WF) (data : α) (hash : ℕ) :
    (h.insert data hash).WF ∧ (h.insert data hash).content.Perm (⟨data, hash⟩ :: h.content) := by
  obtain ⟨hw', hperm⟩ := hw.setBucket hash (l := h.bucket (h.bucketRef hash) ++ [⟨data, hash⟩])
    (c := h.count + 1) (fun n hn => by
      rcases List.mem_append.mp hn with hn | hn
      · exact .inl hn
      · exact .inr (List.mem_singleton.mp hn ▸ rfl)) (by simp; omega)
  obtain ⟨hwf, hgrow⟩ := hw'.growStep
  refine ⟨hwf, hgrow.trans ?_⟩
  have hcancel : (_ ++ h.bucket (h.bucketRef hash)).Perm
      ((h.content ++ [⟨data, hash⟩]) ++ h.bucket (h.bucketRef hash)) := hperm.trans (by
    rw [List.append_assoc]
    exact (List.perm_append_comm).append_left _)
  exact ((List.perm_append_right_iff _).mp hcancel).trans (List.perm_append_singleton _ _)

theorem search_eq_some (hw : h.WF) {cmp : α → Bool} {hash : ℕ} {d : α}
    (hs : h.search cmp hash = some d) : ⟨d, hash⟩ ∈ h.content ∧ cmp d = true := by
  obtain ⟨n, hn, rfl⟩ := Option.map_eq_some_iff.mp hs
  have hp := List.find?_some hn
  rw [Bool.and_eq_true, beq_iff_eq] at hp
  obtain ⟨rfl, hcmp⟩ := hp
  exact ⟨(hw.mem_content n).mpr (List.mem_of_find?_eq_some hn), hcmp⟩

theorem search_eq_none (hw : h.WF) {cmp : α → Bool} {hash : ℕ} :
    h.search cmp hash = none ↔ ∀ d, ⟨d, hash⟩ ∈ h.content → cmp d = false := by
  rw [search, Option.map_eq_none_iff, List.find?_eq_none]
  constructor
  · intro hall d hd
    simpa using hall _ ((hw.mem_content _).mp hd)
  · rintro hall ⟨d, i⟩ hn hp
    rw [Bool.and_eq_true, beq_iff_eq] at hp
    obtain ⟨rfl, hcmp⟩ := hp
    exact Bool.false_ne_true ((hall d ((hw.mem_content ⟨d, i⟩).mpr hn)).symm.trans hcmp)

variable [DecidableEq α]

private theorem WF.unlink (hw : h.WF) {n : Node α} (hn : n ∈ h.bucket (h.bucketRef n.index)) :
    let h' := Hashlin.shrinkStep { h with
      bucket := Function.update h.bucket (h.bucketRef n.index)
        ((h.bucket (h.bucketRef n.index)).erase n)
      count := h.count - 1 }
    h'.WF ∧ h'.content.Perm (h.content.erase n) := by
  intro h'
  have hmem := (hw.mem_content n).mpr hn
  have hcount := List.length_pos_of_mem hmem
  have hlen := List.length_pos_of_mem hn
  have hcnt := hw.count
  obtain ⟨hw', hperm⟩ := hw.setBucket n.index (l := (h.bucket (h.bucketRef n.index)).erase n)
    (c := h.count - 1) (fun m hm => .inl (List.mem_of_mem_erase hm)) (by
      rw [List.length_erase_of_mem hn]; omega)
  obtain ⟨hwf, hshrink⟩ := hw'.shrinkStep
  refine ⟨hwf, hshrink.trans ?_⟩
  have hb := List.perm_cons_erase hn
  have hc := List.perm_cons_erase hmem
  have hback : (_ ++ h.bucket (h.bucketRef n.index)).Perm
      (h.content.erase n ++ h.bucket (h.bucketRef n.index)) := hperm.trans <|
    ((hc.append_right _).trans (List.perm_middle.symm)).trans (hb.symm.append_left _)
  exact (List.perm_append_right_iff _).mp hback

theorem WF.removeExisting (hw : h.WF) {n : Node α} (hn : n ∈ h.content) :
    ∃ h', h.removeExisting n = some h' ∧ h'.WF ∧ h'.content.Perm (h.content.erase n) := by
  have hb := (hw.mem_content n).mp hn
  obtain ⟨hwf, hp⟩ := hw.unlink hb
  exact ⟨_, if_pos hb, hwf, hp⟩

theorem WF.removeExisting_eq_none (hw : h.WF) {n : Node α} (hn : n ∉ h.content) :
    h.removeExisting n = none :=
  if_neg (mt (hw.mem_content n).mpr hn)

theorem WF.remove (hw : h.WF) {cmp : α → Bool} {hash : ℕ} {d : α} (hs : h.search cmp hash = some d) :
    (h.remove cmp hash).1.WF ∧
      (h.remove cmp hash).1.content.Perm (h.content.erase ⟨d, hash⟩) := by
  obtain ⟨n, hn, rfl⟩ := Option.map_eq_some_iff.mp hs
  have hp := List.find?_some hn
  rw [Bool.and_eq_true, beq_iff_eq] at hp
  obtain ⟨rfl, -⟩ := hp
  simp only [Hashlin.remove, hn]
  exact hw.unlink (List.mem_of_find?_eq_some hn)

theorem remove_of_search_none {cmp : α → Bool} {hash : ℕ} (hs : h.search cmp hash = none) :
    h.remove cmp hash = (h, none) := by
  have hn := Option.map_eq_none_iff.mp hs
  simp only [Hashlin.remove, hn]

theorem remove_snd (h : Hashlin α) (cmp : α → Bool) (hash : ℕ) : (h.remove cmp hash).2 = h.search cmp hash := by
  unfold remove search
  dsimp only
  cases (h.bucket (h.bucketRef hash)).find? fun n => n.index == hash && cmp n.data <;> rfl

/-- The calls that change what is stored. -/
inductive HashCall (α : Type*)
  | insert (data : α) (hash : ℕ)
  | remove (cmp : α → Bool) (hash : ℕ)

/-- A table, with the nodes that were put in and those that were found and taken out. -/
structure Log (α : Type*) where
  table : Hashlin α
  put : List (Node α)
  taken : List (Node α)

def Log.next (s : Log α) : HashCall α → Log α
  | .insert data hash => ⟨s.table.insert data hash, ⟨data, hash⟩ :: s.put, s.taken⟩
  | .remove cmp hash =>
    let (table, found) := s.table.remove cmp hash
    ⟨table, s.put, found.toList.map (⟨·, hash⟩) ++ s.taken⟩

theorem stored_next {s : Log α} (hw : s.table.WF) (hp : (s.taken ++ s.table.content).Perm s.put) (call : HashCall α) :
    (s.next call).table.WF ∧ ((s.next call).taken ++ (s.next call).table.content).Perm (s.next call).put := by
  cases call with
  | insert data hash =>
    obtain ⟨hwf, hc⟩ := hw.insert data hash
    exact ⟨hwf, ((hc.append_left _).trans List.perm_middle).trans (hp.cons _)⟩
  | remove cmp hash =>
    have hfound := remove_snd s.table cmp hash
    unfold Log.next
    dsimp only
    cases hs : s.table.search cmp hash with
    | none =>
      rw [remove_of_search_none hs]
      exact ⟨hw, hp⟩
    | some d =>
      obtain ⟨hwf, hc⟩ := hw.remove hs
      have hd := List.perm_cons_erase (search_eq_some hw hs).1
      rw [hfound, hs]
      refine ⟨hwf, (((hc.append_left s.taken).cons _).trans ?_).trans hp⟩
      exact List.perm_middle.symm.trans (hd.symm.append_left _)

/-- In every run and at every stage of a reallocation the table holds what was put in and not taken out, as often as
that, and a search finds one of the nodes with its hash that `cmp` accepts if there is one. -/
theorem stored_of_run (calls : List (HashCall α)) :
    let s := calls.foldl Log.next ⟨init, [], []⟩
    (s.taken ++ s.table.content).Perm s.put ∧ s.table.count = s.table.content.length ∧
      ∀ cmp hash, (s.table.search cmp hash = none ↔ ∀ d, ⟨d, hash⟩ ∈ s.table.content → cmp d = false) ∧
        ∀ d, s.table.search cmp hash = some d → ⟨d, hash⟩ ∈ s.table.content ∧ cmp d = true := by
  obtain ⟨hw, hp⟩ := List.foldlRecOn (motive := fun s : Log α => s.table.WF ∧ (s.taken ++ s.table.content).Perm s.put)
    calls Log.next (b := ⟨init, [], []⟩) ⟨WF.init, by simp [init, content]⟩ fun s hs call _ => stored_next hs.1 hs.2 call
  exact ⟨hp, hw.count, fun cmp hash => ⟨search_eq_none hw, fun d => search_eq_some hw⟩⟩

end NCam.Tommy.Hashlin
