import PepePrivate.Common.Pruning

/-! The block queue of cryptonote_protocol/block_queue.cpp: the spans of blocks scheduled for
download or downloaded, a std::set ordered by start height, and two unordered sets of hashes,
those requested from some peer and those whose block is here. A span is reserved for a
connection with the hashes it will fetch, and filled with the blocks that arrive. Hashes,
block entries and connection ids are abstract. -/

namespace PepePrivate.Protocol

open Common

/-- block_queue::span, without rate, size and time. -/
structure Span (α β κ : Type) where
  startBlockHeight : UInt64
  hashes : List α
  blocks : List β
  connectionId : κ
  nblocks : UInt64

variable {α β κ : Type}

/-- std::set::insert of a span into the spans sorted by start height: nothing is inserted when a
span with the same start height is there. -/
def insertSpan (s : Span α β κ) : List (Span α β κ) → List (Span α β κ)
  | [] => [s]
  | t :: ts =>
    if s.startBlockHeight < t.startBlockHeight then s :: t :: ts
    else if s.startBlockHeight = t.startBlockHeight then t :: ts
    else t :: insertSpan s ts

theorem mem_insertSpan_of_mem (s : Span α β κ) {u : Span α β κ} {l : List (Span α β κ)}
    (hu : u ∈ l) : u ∈ insertSpan s l := by
  induction l with
  | nil => cases hu
  | cons t ts ih =>
    simp only [insertSpan]
    split_ifs
    · exact List.mem_cons_of_mem _ hu
    · exact hu
    · rcases List.mem_cons.mp hu with rfl | hu
      · exact List.mem_cons_self
      · exact List.mem_cons_of_mem _ (ih hu)

theorem mem_insertSpan {s u : Span α β κ} {l : List (Span α β κ)} (hu : u ∈ insertSpan s l) :
    u = s ∨ u ∈ l := by
  induction l with
  | nil => simpa [insertSpan] using hu
  | cons t ts ih =>
    simp only [insertSpan] at hu
    split_ifs at hu
    · simpa using hu
    · exact .inr hu
    · rcases List.mem_cons.mp hu with rfl | hu
      · exact .inr List.mem_cons_self
      · exact (ih hu).imp_right (List.mem_cons_of_mem _)

theorem mem_insertSpan_self (s : Span α β κ) {l : List (Span α β κ)}
    (hfree : ∀ t ∈ l, t.startBlockHeight ≠ s.startBlockHeight) : s ∈ insertSpan s l := by
  induction l with
  | nil => simp [insertSpan]
  | cons t ts ih =>
    simp only [insertSpan]
    split_ifs with hlt heq
    · exact List.mem_cons_self
    · exact absurd heq.symm (hfree t List.mem_cons_self)
    · exact List.mem_cons_of_mem _ (ih fun u hu => hfree u (List.mem_cons_of_mem _ hu))

theorem sorted_insertSpan (s : Span α β κ) {l : List (Span α β κ)}
    (hl : l.Pairwise fun a b => a.startBlockHeight < b.startBlockHeight) :
    (insertSpan s l).Pairwise fun a b => a.startBlockHeight < b.startBlockHeight := by
  induction l with
  | nil => simp [insertSpan]
  | cons t ts ih =>
    rw [List.pairwise_cons] at hl
    simp only [insertSpan]
    split_ifs with hlt heq
    · refine List.Pairwise.cons ?_ (List.Pairwise.cons hl.1 hl.2)
      intro u hu
      rcases List.mem_cons.mp hu with rfl | hu
      · exact hlt
      · exact UInt64.lt_trans hlt (hl.1 u hu)
    · exact List.Pairwise.cons hl.1 hl.2
    · have hts : t.startBlockHeight < s.startBlockHeight := by
        rcases UInt64.lt_or_lt_of_ne heq with h | h
        · exact absurd h hlt
        · exact h
      refine List.Pairwise.cons ?_ (ih hl.2)
      intro u hu
      rcases mem_insertSpan hu with rfl | hu
      · exact hts
      · exact hl.1 u hu

structure BlockMap (α β κ : Type) where
  spans : List (Span α β κ)
  sorted : spans.Pairwise fun s t => s.startBlockHeight < t.startBlockHeight

namespace BlockMap

def empty : BlockMap α β κ := ⟨[], List.Pairwise.nil⟩

def insert (s : Span α β κ) (m : BlockMap α β κ) : BlockMap α β κ :=
  ⟨insertSpan s m.spans, sorted_insertSpan s m.sorted⟩

def erase (startBlockHeight : UInt64) (m : BlockMap α β κ) : BlockMap α β κ :=
  ⟨m.spans.filter (·.startBlockHeight != startBlockHeight), m.sorted.filter _⟩

theorem eq_of_startBlockHeight_eq (m : BlockMap α β κ) {s t : Span α β κ} (hs : s ∈ m.spans)
    (ht : t ∈ m.spans) (h : s.startBlockHeight = t.startBlockHeight) : s = t := by
  have hne : m.spans.Pairwise fun a b => a.startBlockHeight ≠ b.startBlockHeight :=
    m.sorted.imp UInt64.ne_of_lt
  have : Std.Symm fun a b : Span α β κ => a.startBlockHeight ≠ b.startBlockHeight :=
    ⟨fun _ _ h => h.symm⟩
  by_contra hst
  exact hne.forall hs ht hst h

theorem startBlockHeights_nodup (m : BlockMap α β κ) :
    (m.spans.map (·.startBlockHeight)).Nodup :=
  List.pairwise_map.mpr (m.sorted.imp UInt64.ne_of_lt)

theorem mem_erase {m : BlockMap α β κ} {h : UInt64} {u : Span α β κ} :
    u ∈ (m.erase h).spans ↔ u ∈ m.spans ∧ u.startBlockHeight ≠ h := by
  simp [erase]

theorem mem_insert_of_mem (s : Span α β κ) {m : BlockMap α β κ} {u : Span α β κ}
    (hu : u ∈ m.spans) : u ∈ (m.insert s).spans :=
  mem_insertSpan_of_mem s hu

theorem mem_insert {s : Span α β κ} {m : BlockMap α β κ} {u : Span α β κ}
    (hu : u ∈ (m.insert s).spans) : u = s ∨ u ∈ m.spans :=
  mem_insertSpan hu

theorem mem_insert_self (s : Span α β κ) {m : BlockMap α β κ}
    (hfree : ∀ t ∈ m.spans, t.startBlockHeight ≠ s.startBlockHeight) : s ∈ (m.insert s).spans :=
  mem_insertSpan_self s hfree

end BlockMap

section Hashes

variable [DecidableEq α]

def eraseHashes (hashes : List α) (set : Finset α) : Finset α :=
  hashes.foldl (fun set h => set.erase h) set

def insertHashes (hashes : List α) (set : Finset α) : Finset α :=
  hashes.foldl (fun set h => insert h set) set

@[simp] theorem mem_eraseHashes {hashes : List α} {set : Finset α} {x : α} :
    x ∈ eraseHashes hashes set ↔ x ∈ set ∧ x ∉ hashes := by
  induction hashes generalizing set with
  | nil => simp [eraseHashes]
  | cons h hs ih =>
    simp only [eraseHashes, List.foldl_cons] at ih ⊢
    rw [ih, Finset.mem_erase, List.mem_cons]
    tauto

@[simp] theorem mem_insertHashes {hashes : List α} {set : Finset α} {x : α} :
    x ∈ insertHashes hashes set ↔ x ∈ hashes ∨ x ∈ set := by
  induction hashes generalizing set with
  | nil => simp [insertHashes]
  | cons h hs ih =>
    simp only [insertHashes, List.foldl_cons] at ih ⊢
    rw [ih, Finset.mem_insert, List.mem_cons]
    tauto

end Hashes

/-- The state of a block_queue. -/
structure BlockQueue (α β κ : Type) where
  blocks : BlockMap α β κ
  requestedHashes : Finset α
  haveBlocks : Finset α

namespace BlockQueue

def empty : BlockQueue α β κ := ⟨BlockMap.empty, ∅, ∅⟩

end BlockQueue

section Operations

variable [DecidableEq α] [DecidableEq κ]

/-- block_queue::erase_block. -/
def eraseBlock (j : Span α β κ) (q : BlockQueue α β κ) : BlockQueue α β κ where
  blocks := q.blocks.erase j.startBlockHeight
  requestedHashes := eraseHashes j.hashes q.requestedHashes
  haveBlocks := eraseHashes j.hashes q.haveBlocks

def eraseBlocksWhere (p : Span α β κ → Bool) (q : BlockQueue α β κ) : BlockQueue α β κ :=
  q.blocks.spans.foldl (fun q j => if p j then eraseBlock j q else q) q

/-- block_queue::remove_span: the hashes of the span at the height, none where there is none. -/
def removeSpan (startBlockHeight : UInt64) (q : BlockQueue α β κ) :
    Option (List α) × BlockQueue α β κ :=
  match q.blocks.spans.find? (·.startBlockHeight == startBlockHeight) with
  | none => (none, q)
  | some i => (some i.hashes, eraseBlock i q)

/-- block_queue::set_span_hashes: the span of the connection at the height gets the hashes. -/
def setSpanHashes (startHeight : UInt64) (connectionId : κ) (hashes : List α)
    (q : BlockQueue α β κ) : BlockQueue α β κ :=
  match q.blocks.spans.find? fun i =>
      i.startBlockHeight == startHeight && i.connectionId == connectionId with
  | none => q
  | some i =>
    let q := eraseBlock i q
    { q with
      requestedHashes := insertHashes hashes q.requestedHashes
      blocks := q.blocks.insert { i with hashes := hashes } }

/-- block_queue::add_blocks for a downloaded span: the span at the height is replaced by one
holding the blocks, which keeps the hashes of the span it replaces and has them all. -/
def addBlocks (height : UInt64) (bcel : List β) (connectionId : κ) (q : BlockQueue α β κ) :
    BlockQueue α β κ :=
  let (hashes, q) := removeSpan height q
  let q := { q with blocks := q.blocks.insert ⟨height, [], bcel, connectionId, bcel.length.toUInt64⟩ }
  match hashes with
  | none => q
  | some hashes =>
    setSpanHashes height connectionId hashes
      { q with
        requestedHashes := insertHashes hashes q.requestedHashes
        haveBlocks := insertHashes hashes q.haveBlocks }

def addBlocksCount (height nblocks : UInt64) (connectionId : κ) (q : BlockQueue α β κ) :
    Except String (BlockQueue α β κ) :=
  if nblocks > 0 then .ok { q with blocks := q.blocks.insert ⟨height, [], [], connectionId, nblocks⟩ }
  else .error "Empty span"

def flushSpans (connectionId : κ) (all : Bool) : BlockQueue α β κ → BlockQueue α β κ :=
  eraseBlocksWhere fun j => j.connectionId == connectionId && (all || j.blocks.length == 0)

def flushStaleSpans (liveConnections : Finset κ) : BlockQueue α β κ → BlockQueue α β κ :=
  eraseBlocksWhere fun j => j.blocks.isEmpty && decide (j.connectionId ∉ liveConnections)

def removeSpans (connectionId : κ) (startBlockHeight : UInt64) :
    BlockQueue α β κ → BlockQueue α β κ :=
  eraseBlocksWhere fun j => j.connectionId == connectionId && j.startBlockHeight ≤ startBlockHeight

def requestedInternal (q : BlockQueue α β κ) (hash : α) : Bool := hash ∈ q.requestedHashes

def takeSpanHashes (syncPrunedBlocks firstIsPruned : Bool) (localPruningSeed pruningSeed : UInt32)
    (blockchainHeight maxBlocks spanStartHeight : UInt64) :
    UInt64 → List (α × UInt64) → List α
  | _, [] => []
  | spanLength, (h, _) :: rest =>
    if spanLength < maxBlocks && (syncPrunedBlocks ||
        hasUnprunedBlock (spanStartHeight + spanLength) blockchainHeight pruningSeed) then
      -- if we want to sync pruned blocks, stop at the first block for which we need full data
      if syncPrunedBlocks && firstIsPruned ==
          hasUnprunedBlock (spanStartHeight + spanLength) blockchainHeight localPruningSeed then []
      else h :: takeSpanHashes syncPrunedBlocks firstIsPruned localPruningSeed pruningSeed
        blockchainHeight maxBlocks spanStartHeight (spanLength + 1) rest
    else []

def spanToReserve (firstBlockHeight lastBlockHeight maxBlocks : UInt64) (syncPrunedBlocks : Bool)
    (localPruningSeed pruningSeed : UInt32) (blockchainHeight : UInt64)
    (blockHashes : List (α × UInt64)) (q : BlockQueue α β κ) : Option (UInt64 × List α) :=
  if lastBlockHeight < firstBlockHeight ∨ maxBlocks = 0 then none
  else if blockHashes.length > lastBlockHeight.toNat then none
  else
    -- skip everything we've already requested
    let blockHashesStartHeight := lastBlockHeight - blockHashes.length.toUInt64 + 1
    let spanStartHeight := blockHashesStartHeight +
      (blockHashes.takeWhile fun p => requestedInternal q p.1).length.toUInt64
    let spanStartHeight :=
      if !syncPrunedBlocks then
        -- the next unpruned height is kept in a uint32_t
        let nextUnprunedHeight :=
          (getNextUnprunedBlockHeight spanStartHeight blockchainHeight pruningSeed).toUInt32.toUInt64
        if nextUnprunedHeight > spanStartHeight ∧
            nextUnprunedHeight < spanStartHeight + cryptonotePruningStripeSize then nextUnprunedHeight
        else spanStartHeight
      else spanStartHeight
    if spanStartHeight ≥ blockHashes.length.toUInt64 + blockHashesStartHeight then none
    else
      let rest := blockHashes.drop (spanStartHeight - blockHashesStartHeight).toNat
      let skipped := (rest.takeWhile fun p => requestedInternal q p.1).length
      let spanStartHeight := spanStartHeight + skipped.toUInt64
      let firstIsPruned :=
        syncPrunedBlocks && !hasUnprunedBlock spanStartHeight blockchainHeight localPruningSeed
      let hashes := takeSpanHashes syncPrunedBlocks firstIsPruned localPruningSeed pruningSeed
        blockchainHeight maxBlocks spanStartHeight 0 (rest.drop skipped)
      if hashes.length.toUInt64 = 0 then none
      else some (spanStartHeight, hashes)

/-- block_queue::reserve_span: the start and length of the span reserved for the connection, or
(0, 0). -/
def reserveSpan (firstBlockHeight lastBlockHeight maxBlocks : UInt64) (connectionId : κ)
    (syncPrunedBlocks : Bool) (localPruningSeed pruningSeed : UInt32) (blockchainHeight : UInt64)
    (blockHashes : List (α × UInt64)) (q : BlockQueue α β κ) :
    Except String ((UInt64 × UInt64) × BlockQueue α β κ) :=
  match spanToReserve firstBlockHeight lastBlockHeight maxBlocks syncPrunedBlocks localPruningSeed
      pruningSeed blockchainHeight blockHashes q with
  | none => .ok ((0, 0), q)
  | some (spanStartHeight, hashes) => do
    let spanLength := hashes.length.toUInt64
    let q ← addBlocksCount spanStartHeight spanLength connectionId q
    return ((spanStartHeight, spanLength), setSpanHashes spanStartHeight connectionId hashes q)

/-- The operations of a block_queue that change it. -/
inductive Op (α β κ : Type) where
  | addBlocks (height : UInt64) (bcel : List β) (connectionId : κ)
  | addBlocksCount (height nblocks : UInt64) (connectionId : κ)
  | flushSpans (connectionId : κ) (all : Bool)
  | flushStaleSpans (liveConnections : Finset κ)
  | removeSpan (startBlockHeight : UInt64)
  | removeSpans (connectionId : κ) (startBlockHeight : UInt64)
  | reserveSpan (firstBlockHeight lastBlockHeight maxBlocks : UInt64) (connectionId : κ)
      (syncPrunedBlocks : Bool) (localPruningSeed pruningSeed : UInt32) (blockchainHeight : UInt64)
      (blockHashes : List (α × UInt64))
  | setSpanHashes (startHeight : UInt64) (connectionId : κ) (hashes : List α)

/-- One operation; one that throws leaves the queue as it was. -/
def step : Op α β κ → BlockQueue α β κ → BlockQueue α β κ
  | .addBlocks height bcel connectionId, q => addBlocks height bcel connectionId q
  | .addBlocksCount height nblocks connectionId, q =>
    match addBlocksCount height nblocks connectionId q with
    | .ok q => q
    | .error _ => q
  | .flushSpans connectionId all, q => flushSpans connectionId all q
  | .flushStaleSpans liveConnections, q => flushStaleSpans liveConnections q
  | .removeSpan startBlockHeight, q => (removeSpan startBlockHeight q).2
  | .removeSpans connectionId startBlockHeight, q => removeSpans connectionId startBlockHeight q
  | .reserveSpan first last maxBlocks connectionId sync localSeed seed blockchainHeight blockHashes,
      q =>
    match reserveSpan first last maxBlocks connectionId sync localSeed seed blockchainHeight
        blockHashes q with
    | .ok (_, q) => q
    | .error _ => q
  | .setSpanHashes startHeight connectionId hashes, q => setSpanHashes startHeight connectionId hashes q

def run (ops : List (Op α β κ)) (q : BlockQueue α β κ) : BlockQueue α β κ :=
  ops.foldl (fun q op => step op q) q

end Operations

section Invariant

variable {q : BlockQueue α β κ}

def CoveredBy (extra : List α) (q : BlockQueue α β κ) : Prop :=
  ∀ h, h ∈ q.requestedHashes ∨ h ∈ q.haveBlocks → h ∈ extra ∨ ∃ s ∈ q.blocks.spans, h ∈ s.hashes

/-- Every hash in have_blocks or requested_hashes belongs to the hashes of some span. -/
def Covered (q : BlockQueue α β κ) : Prop :=
  ∀ h, h ∈ q.requestedHashes ∨ h ∈ q.haveBlocks → ∃ s ∈ q.blocks.spans, h ∈ s.hashes

def SpanHashesRequested (q : BlockQueue α β κ) : Prop :=
  ∀ s ∈ q.blocks.spans, ∀ h ∈ s.hashes, h ∈ q.requestedHashes

theorem coveredBy_nil : CoveredBy [] q ↔ Covered q := by
  simp [CoveredBy, Covered]

theorem Covered.coveredBy (h : Covered q) (extra : List α) : CoveredBy extra q :=
  fun x hx => .inr (h x hx)

theorem covered_empty : Covered (BlockQueue.empty : BlockQueue α β κ) := by
  intro h hh
  simp [BlockQueue.empty] at hh

theorem Covered.of_subset {q' : BlockQueue α β κ} (h : Covered q)
    (hreq : q'.requestedHashes = q.requestedHashes) (hhave : q'.haveBlocks = q.haveBlocks)
    (hsub : ∀ s ∈ q.blocks.spans, s ∈ q'.blocks.spans) : Covered q' := by
  intro x hx
  rw [hreq, hhave] at hx
  obtain ⟨s, hs, hxs⟩ := h x hx
  exact ⟨s, hsub s hs, hxs⟩

theorem Covered.insert (h : Covered q) (s : Span α β κ) :
    Covered { q with blocks := q.blocks.insert s } :=
  h.of_subset rfl rfl fun _ => BlockMap.mem_insert_of_mem s

theorem Covered.addBlocksCount {q' : BlockQueue α β κ} (h : Covered q) {height nblocks : UInt64}
    {connectionId : κ} (hq : addBlocksCount height nblocks connectionId q = .ok q') : Covered q' := by
  unfold PepePrivate.Protocol.addBlocksCount at hq
  split_ifs at hq
  cases hq
  exact h.insert _

variable [DecidableEq α]

instance : DecidablePred (SpanHashesRequested (α := α) (β := β) (κ := κ)) := fun q =>
  inferInstanceAs (Decidable (∀ s ∈ q.blocks.spans, ∀ h ∈ s.hashes, h ∈ q.requestedHashes))

theorem CoveredBy.eraseBlock {extra : List α} {j : Span α β κ} (h : CoveredBy extra q)
    (hkey : ∀ t ∈ q.blocks.spans, t.startBlockHeight = j.startBlockHeight → t = j) :
    CoveredBy extra (eraseBlock j q) := by
  intro x hx
  have hx' : (x ∈ q.requestedHashes ∨ x ∈ q.haveBlocks) ∧ x ∉ j.hashes := by
    simp only [PepePrivate.Protocol.eraseBlock, mem_eraseHashes] at hx
    tauto
  rcases h x hx'.1 with hextra | ⟨s, hs, hxs⟩
  · exact .inl hextra
  · have hne : s.startBlockHeight ≠ j.startBlockHeight := fun heq => by
      rw [hkey s hs heq] at hxs
      exact hx'.2 hxs
    exact .inr ⟨s, BlockMap.mem_erase.mpr ⟨hs, hne⟩, hxs⟩

theorem Covered.eraseBlock_of_mem {j : Span α β κ} {m : BlockMap α β κ} (h : Covered q)
    (hsub : ∀ t ∈ q.blocks.spans, t ∈ m.spans) (hj : j ∈ m.spans) : Covered (eraseBlock j q) :=
  coveredBy_nil.mp ((h.coveredBy []).eraseBlock fun t ht heq =>
    m.eq_of_startBlockHeight_eq (hsub t ht) hj heq)

theorem Covered.eraseBlock {j : Span α β κ} (h : Covered q) (hj : j ∈ q.blocks.spans) :
    Covered (eraseBlock j q) :=
  h.eraseBlock_of_mem (fun _ ht => ht) hj

theorem Covered.foldl_eraseBlock (p : Span α β κ → Bool) (m : BlockMap α β κ) :
    ∀ (l : List (Span α β κ)) (q : BlockQueue α β κ), (∀ j ∈ l, j ∈ m.spans) →
      (∀ t ∈ q.blocks.spans, t ∈ m.spans) → Covered q →
        Covered (l.foldl (fun q j => if p j then PepePrivate.Protocol.eraseBlock j q else q) q)
  | [], _, _, _, h => h
  | j :: l, q, hl, hsub, h => by
    simp only [List.foldl_cons]
    have hj := hl j List.mem_cons_self
    refine Covered.foldl_eraseBlock p m l _ (fun j hj => hl j (List.mem_cons_of_mem _ hj)) ?_ ?_
    · split_ifs
      · exact fun t ht => hsub t (BlockMap.mem_erase.mp ht).1
      · exact hsub
    · split_ifs
      · exact h.eraseBlock_of_mem hsub hj
      · exact h

theorem Covered.eraseBlocksWhere (h : Covered q) (p : Span α β κ → Bool) :
    Covered (eraseBlocksWhere p q) :=
  Covered.foldl_eraseBlock p q.blocks q.blocks.spans q (fun _ hj => hj) (fun _ ht => ht) h

theorem Covered.removeSpan (h : Covered q) (startBlockHeight : UInt64) :
    Covered (removeSpan startBlockHeight q).2 := by
  unfold PepePrivate.Protocol.removeSpan
  split
  · exact h
  · exact h.eraseBlock (List.mem_of_find?_eq_some ‹_›)

theorem removeSpan_free {startBlockHeight : UInt64} {hashes : List α} {q' : BlockQueue α β κ}
    (hr : removeSpan startBlockHeight q = (some hashes, q')) :
    ∀ t ∈ q'.blocks.spans, t.startBlockHeight ≠ startBlockHeight := by
  unfold PepePrivate.Protocol.removeSpan at hr
  split at hr
  · cases hr
  · rename_i i hfind
    cases hr
    have hi := List.find?_some hfind
    intro t ht
    rw [← beq_iff_eq.mp hi]
    exact (BlockMap.mem_erase.mp ht).2

variable [DecidableEq κ]

theorem CoveredBy.setSpanHashes_of_find {startHeight : UInt64} {connectionId : κ}
    {hashes : List α} {i : Span α β κ} (h : CoveredBy hashes q)
    (hfind : q.blocks.spans.find? (fun i =>
      i.startBlockHeight == startHeight && i.connectionId == connectionId) = some i) :
    Covered (setSpanHashes startHeight connectionId hashes q) := by
  have hi := List.mem_of_find?_eq_some hfind
  have h1 := h.eraseBlock fun _ ht heq => q.blocks.eq_of_startBlockHeight_eq ht hi heq
  have hself : { i with hashes := hashes } ∈
      ((PepePrivate.Protocol.eraseBlock i q).blocks.insert { i with hashes }).spans :=
    BlockMap.mem_insert_self _ fun t ht => (BlockMap.mem_erase.mp ht).2
  simp only [PepePrivate.Protocol.setSpanHashes, hfind]
  intro x hx
  simp only [mem_insertHashes] at hx
  rcases hx with (hxh | hx) | hx
  · exact ⟨_, hself, hxh⟩
  all_goals
    rcases h1 x (by tauto) with hxh | ⟨s, hs, hxs⟩
    · exact ⟨_, hself, hxh⟩
    · exact ⟨s, BlockMap.mem_insert_of_mem _ hs, hxs⟩

theorem CoveredBy.setSpanHashes {startHeight : UInt64} {connectionId : κ} {hashes : List α}
    (h : CoveredBy hashes q) (hspan : ∃ s ∈ q.blocks.spans,
      s.startBlockHeight = startHeight ∧ s.connectionId = connectionId) :
    Covered (setSpanHashes startHeight connectionId hashes q) := by
  obtain ⟨s, hs, hstart, hconn⟩ := hspan
  cases hfind : q.blocks.spans.find? (fun i =>
      i.startBlockHeight == startHeight && i.connectionId == connectionId) with
  | none =>
    have := List.find?_eq_none.mp hfind s hs
    simp [hstart, hconn] at this
  | some i => exact h.setSpanHashes_of_find hfind

theorem Covered.setSpanHashes (h : Covered q) (startHeight : UInt64) (connectionId : κ)
    (hashes : List α) : Covered (setSpanHashes startHeight connectionId hashes q) := by
  cases hfind : q.blocks.spans.find? (fun i =>
      i.startBlockHeight == startHeight && i.connectionId == connectionId) with
  | none => simpa only [PepePrivate.Protocol.setSpanHashes, hfind] using h
  | some i => exact (h.coveredBy hashes).setSpanHashes_of_find hfind

theorem Covered.addBlocks (h : Covered q) (height : UInt64) (bcel : List β) (connectionId : κ) :
    Covered (addBlocks height bcel connectionId q) := by
  have hremoved := h.removeSpan height
  unfold PepePrivate.Protocol.addBlocks
  rcases hr : PepePrivate.Protocol.removeSpan height q with ⟨hashes, q₁⟩
  rw [hr] at hremoved
  cases hashes with
  | none => exact hremoved.insert _
  | some hashes =>
    have hfree := removeSpan_free hr
    refine CoveredBy.setSpanHashes ?_ ⟨_, BlockMap.mem_insert_self _ hfree, rfl, rfl⟩
    intro x hx
    simp only [mem_insertHashes] at hx
    rcases hx with (hxh | hx) | (hxh | hx)
    · exact .inl hxh
    · exact .inr ((hremoved.insert _) x (.inl hx))
    · exact .inl hxh
    · exact .inr ((hremoved.insert _) x (.inr hx))

theorem Covered.reserveSpan {q' : BlockQueue α β κ} (h : Covered q) {first last maxBlocks : UInt64}
    {connectionId : κ} {sync : Bool} {localSeed seed : UInt32} {blockchainHeight : UInt64}
    {blockHashes : List (α × UInt64)} {r : UInt64 × UInt64}
    (hq : reserveSpan first last maxBlocks connectionId sync localSeed seed blockchainHeight
      blockHashes q = .ok (r, q')) : Covered q' := by
  unfold PepePrivate.Protocol.reserveSpan at hq
  split at hq
  · cases hq
    exact h
  · rename_i spanStartHeight hashes _
    cases ha : PepePrivate.Protocol.addBlocksCount spanStartHeight hashes.length.toUInt64
        connectionId q with
    | error e => simp [ha] at hq
    | ok q₁ =>
      simp only [ha] at hq
      cases hq
      exact (h.addBlocksCount ha).setSpanHashes _ _ _

theorem Covered.step (h : Covered q) (op : Op α β κ) : Covered (step op q) := by
  cases op with
  | addBlocks height bcel connectionId => exact h.addBlocks height bcel connectionId
  | addBlocksCount height nblocks connectionId =>
    simp only [PepePrivate.Protocol.step]
    split
    · exact h.addBlocksCount ‹_›
    · exact h
  | flushSpans connectionId all => exact h.eraseBlocksWhere _
  | flushStaleSpans liveConnections => exact h.eraseBlocksWhere _
  | removeSpan startBlockHeight => exact h.removeSpan startBlockHeight
  | removeSpans connectionId startBlockHeight => exact h.eraseBlocksWhere _
  | reserveSpan first last maxBlocks connectionId sync localSeed seed blockchainHeight blockHashes =>
    simp only [PepePrivate.Protocol.step]
    split
    · exact h.reserveSpan ‹_›
    · exact h
  | setSpanHashes startHeight connectionId hashes => exact h.setSpanHashes startHeight connectionId hashes

theorem Covered.run (h : Covered q) (ops : List (Op α β κ)) : Covered (run ops q) := by
  induction ops generalizing q with
  | nil => exact h
  | cons op ops ih => exact ih (h.step op)

/-- From an empty queue, over every run, every hash of the two sets is listed by some span, and
no two spans start at one height. -/
theorem covered_run_empty (ops : List (Op α β κ)) :
    Covered (run ops BlockQueue.empty) ∧
      ((run ops BlockQueue.empty).blocks.spans.map (·.startBlockHeight)).Nodup :=
  ⟨covered_empty.run ops, BlockMap.startBlockHeights_nodup _⟩

end Invariant

/-- Two connections reserve spans out of hash lists that start at different heights: the second
span starts below the first and takes its hashes again. Flushing the first connection's spans
erases those hashes from requested_hashes while the second span still lists them, and a third
connection is then given the same blocks to download. -/
theorem span_hashes_unrequested_after_flush :
    let q : BlockQueue Nat Unit Nat := run
      [.reserveSpan 2 3 2 1 false 0 0 0 [(11, 0), (12, 0)],
       .reserveSpan 1 3 3 2 false 0 0 0 [(10, 0), (11, 0), (12, 0)],
       .flushSpans 1 true] BlockQueue.empty
    (q.blocks.spans.map fun s => (s.startBlockHeight, s.hashes, s.connectionId)) =
        [(1, [10, 11, 12], 2)] ∧
      q.requestedHashes = {10} ∧ ¬SpanHashesRequested q ∧
      ((run [.reserveSpan 2 3 2 3 false 0 0 0 [(11, 0), (12, 0)]] q).blocks.spans.map
        fun s => (s.startBlockHeight, s.hashes, s.connectionId)) =
        [(1, [10, 11, 12], 2), (2, [11, 12], 3)] := by
  decide

/-- reserve_span reports spans it has not reserved as asked. Once an unrequested hash starts the
span, the loop takes the hashes after it without asking whether they were requested: a span of
block 3 is reserved, and a second connection is then given blocks 2 and 3. And when a span
already starts at the chosen height, the std::set insert does nothing: after the spans of two
connections are flushed, the hashes of a third connection's span at height 2 are no longer
requested, so a fourth connection is told it reserved blocks 2 and 3, which stay the third's. -/
theorem reserveSpan_reports_unreserved_span :
    let q₁ : BlockQueue Nat Unit Nat := run [.reserveSpan 3 3 1 1 false 0 0 0 [(12, 0)]] BlockQueue.empty
    let q₂ : BlockQueue Nat Unit Nat := run
      [.reserveSpan 2 3 2 1 false 0 0 0 [(11, 0), (12, 0)],
       .reserveSpan 1 3 3 2 false 0 0 0 [(10, 0), (11, 0), (12, 0)],
       .flushSpans 1 true,
       .reserveSpan 1 3 3 3 false 0 0 0 [(10, 0), (11, 0), (12, 0)],
       .flushSpans 2 true] BlockQueue.empty
    (12 ∈ q₁.requestedHashes ∧
      (reserveSpan 2 3 2 2 false 0 0 0 [(11, 0), (12, 0)] q₁).map Prod.fst = .ok (2, 2)) ∧
    ((q₂.blocks.spans.map fun s => (s.startBlockHeight, s.hashes, s.connectionId)) =
        [(2, [11, 12], 3)] ∧ q₂.requestedHashes = ∅ ∧
      (reserveSpan 2 3 2 4 false 0 0 0 [(11, 0), (12, 0)] q₂).map Prod.fst = .ok (2, 2) ∧
      ((run [.reserveSpan 2 3 2 4 false 0 0 0 [(11, 0), (12, 0)]] q₂).blocks.spans.map
        fun s => (s.startBlockHeight, s.hashes, s.connectionId, s.nblocks)) = [(2, [11, 12], 3, 2)]) := by
  decide

end PepePrivate.Protocol
