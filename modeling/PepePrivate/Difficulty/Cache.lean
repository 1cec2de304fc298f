import PepePrivate.Difficulty.Algorithms

/-! The difficulty window of Blockchain::get_difficulty_for_next_block and its cache. The cache
is the pair m_timestamps, m_difficulties taken at chain height
m_timestamps_and_difficulties_height (0: no cache); every path that changes the chain other
than by appending a block drops it. The operations are those of blockchain.cpp that touch the
chain or the cache, and the hard-fork version is an argument of each query, so that it may
change in either direction between two queries. -/

namespace PepePrivate.Difficulty

structure BlockEntry where
  timestamp : UInt64
  cumulativeDifficulty : UInt64
  deriving Repr, DecidableEq, Inhabited

def columns (bs : List BlockEntry) : List UInt64 × List UInt64 :=
  (bs.map (·.timestamp), bs.map (·.cumulativeDifficulty))

def windowStart (height count : Nat) : Nat :=
  let offset := height - min height count
  if offset = 0 then 1 else offset

theorem windowStart_eq (height count : Nat) : windowStart height count = max 1 (height - count) := by
  simp only [windowStart]
  split_ifs <;> omega

/-- The else branch of get_difficulty_for_next_block: blocks offset..height-1 read from m_db. -/
def loadWindow (blocks : List BlockEntry) (count : Nat) : List BlockEntry :=
  blocks.drop (windowStart blocks.length count)

structure Blockchain where
  blocks : List BlockEntry
  fixedDifficulty : UInt64
  timestamps : List UInt64
  difficulties : List UInt64
  timestampsAndDifficultiesHeight : Nat

namespace Blockchain

def height (bc : Blockchain) : Nat := bc.blocks.length

def takesCachedBranch (bc : Blockchain) (count : Nat) : Bool :=
  bc.timestampsAndDifficultiesHeight != 0 && bc.height - bc.timestampsAndDifficultiesHeight == 1 &&
    decide (count ≤ bc.timestamps.length)

def slideWindow (bc : Blockchain) (count : Nat) : List UInt64 × List UInt64 :=
  let top := bc.blocks.getD (bc.height - 1) default
  let ts := bc.timestamps ++ [top.timestamp]
  let ds := bc.difficulties ++ [top.cumulativeDifficulty]
  (ts.drop (ts.length - count), ds.drop (ds.length - count))

def difficultyWindow (bc : Blockchain) (count : Nat) : List UInt64 × List UInt64 :=
  if bc.takesCachedBranch count then bc.slideWindow count else columns (loadWindow bc.blocks count)

/-- get_difficulty_for_next_block. Both branches leave the window they computed in the cache,
taken at the current height. -/
def getDifficultyForNextBlock (bc : Blockchain) (version : UInt8) : UInt64 × Blockchain :=
  if bc.fixedDifficulty ≠ 0 then (if bc.height ≠ 0 then bc.fixedDifficulty else 1, bc)
  else
    let w := bc.difficultyWindow (getDifficultyBlocksCount version)
    (nextDifficultyFor version w.1 w.2,
      { bc with timestamps := w.1, difficulties := w.2, timestampsAndDifficultiesHeight := bc.height })

def difficultyFromScratch (bc : Blockchain) (version : UInt8) : UInt64 :=
  if bc.fixedDifficulty ≠ 0 then (if bc.height ≠ 0 then bc.fixedDifficulty else 1)
  else
    let w := columns (loadWindow bc.blocks (getDifficultyBlocksCount version))
    nextDifficultyFor version w.1 w.2

end Blockchain

/-- The operations of Blockchain on the chain and the cache. Appending is m_db->add_block in
handle_block_to_main_chain; a chain switch or a rollback is pops and appends between resets. -/
inductive Op
  | addBlock (b : BlockEntry)
  | popBlockFromBlockchain
  /-- The loop of Blockchain::init that pops blocks of the wrong version with m_db->pop_block,
  resetting the cache once after it. -/
  | popBlocksOnInit (n : Nat)
  /-- handle_alternative_block, switch_to_alternative_blockchain and
  rollback_blockchain_switching drop the cache. -/
  | resetCache
  | resetAndSetGenesisBlock (genesis : BlockEntry)
  | getDifficultyForNextBlock (version : UInt8)

namespace Blockchain

def step (bc : Blockchain) : Op → Blockchain
  | .addBlock b => { bc with blocks := bc.blocks ++ [b] }
  | .popBlockFromBlockchain =>
    -- the cache is dropped before the check that refuses to pop the genesis block
    if bc.height > 1 then { bc with blocks := bc.blocks.dropLast, timestampsAndDifficultiesHeight := 0 }
    else { bc with timestampsAndDifficultiesHeight := 0 }
  | .popBlocksOnInit n =>
    if n > 0 then
      { bc with blocks := bc.blocks.take (bc.height - n), timestampsAndDifficultiesHeight := 0 }
    else bc
  | .resetCache => { bc with timestampsAndDifficultiesHeight := 0 }
  | .resetAndSetGenesisBlock g => { bc with blocks := [g], timestampsAndDifficultiesHeight := 0 }
  | .getDifficultyForNextBlock version => (bc.getDifficultyForNextBlock version).2

/-- The constructor leaves the cache empty; the database may already hold a chain. -/
inductive Reachable : Blockchain → Prop
  | init (blocks : List BlockEntry) (fixedDifficulty : UInt64) :
    Reachable ⟨blocks, fixedDifficulty, [], [], 0⟩
  | step {bc : Blockchain} (op : Op) : Reachable bc → Reachable (bc.step op)

/-- A cache taken at height c holds the columns of blocks lo..c-1 of the current chain. -/
structure Caches (bc : Blockchain) (lo : Nat) : Prop where
  start_pos : 1 ≤ lo
  start_le : lo ≤ bc.timestampsAndDifficultiesHeight
  height_le : bc.timestampsAndDifficultiesHeight ≤ bc.height
  columns_eq : (bc.timestamps, bc.difficulties) =
    columns ((bc.blocks.take bc.timestampsAndDifficultiesHeight).drop lo)

def CacheConsistent (bc : Blockchain) : Prop :=
  bc.timestampsAndDifficultiesHeight ≠ 0 → ∃ lo, bc.Caches lo

theorem cacheConsistent_of_dropped {bc : Blockchain} (h : bc.timestampsAndDifficultiesHeight = 0) :
    bc.CacheConsistent :=
  fun hc => absurd h hc

theorem push_window {α β : Type*} (f : α → β) (l : List α) (d : α) {lo c count : Nat}
    (hl : l.length = c + 1) (hlo : lo ≤ c) (hcount : count ≤ c - lo) :
    let w := ((l.take c).drop lo).map f ++ [f (l.getD c d)]
    w.drop (w.length - count) = (l.drop (c + 1 - count)).map f := by
  have hpush : (l.take c).drop lo ++ [l.getD c d] = l.drop lo := by
    rw [List.getD_eq_getElem _ _ (by omega), ← List.drop_append_of_le_length (by simp; omega),
      ← List.take_succ_eq_append_getElem (by omega), List.take_of_length_le (by omega)]
  have hw : ((l.take c).drop lo).map f ++ [f (l.getD c d)] = (l.drop lo).map f := by
    rw [← hpush, List.map_append, List.map_singleton]
  simp only [hw, List.length_map, List.length_drop, ← List.map_drop, List.drop_drop]
  congr 2
  omega

theorem slideWindow_eq {bc : Blockchain} {lo count : Nat} (hc : bc.Caches lo)
    (hb : bc.takesCachedBranch count = true) :
    bc.slideWindow count = columns (loadWindow bc.blocks count) := by
  obtain ⟨hlo, hloc, hcH, hcols⟩ := hc
  simp only [takesCachedBranch, Bool.and_eq_true, bne_iff_ne, ne_eq, beq_iff_eq,
    decide_eq_true_eq] at hb
  obtain ⟨⟨hc0, hH⟩, hcount⟩ := hb
  simp only [columns, Prod.mk.injEq] at hcols
  obtain ⟨hts, hds⟩ := hcols
  set c := bc.timestampsAndDifficultiesHeight
  have hlen : bc.blocks.length = c + 1 := by unfold height at hH hcH; omega
  have hcount' : count ≤ c - lo := by
    rw [hts] at hcount
    simpa [List.length_take, hlen, show min c (c + 1) = c by omega] using hcount
  have hstart : windowStart bc.blocks.length count = c + 1 - count := by
    rw [windowStart_eq]
    omega
  have htop : bc.height - 1 = c := by unfold height; omega
  simp only [slideWindow, loadWindow, columns, hts, hds, hstart, htop]
  exact Prod.ext (push_window _ _ _ hlen hloc hcount') (push_window _ _ _ hlen hloc hcount')

theorem difficultyWindow_eq_loadWindow {bc : Blockchain} (hbc : bc.CacheConsistent) (count : Nat) :
    bc.difficultyWindow count = columns (loadWindow bc.blocks count) := by
  unfold difficultyWindow
  split_ifs with hb
  · have hc0 : bc.timestampsAndDifficultiesHeight ≠ 0 := by
      simp only [takesCachedBranch, Bool.and_eq_true, bne_iff_ne] at hb
      exact hb.1.1
    obtain ⟨lo, hlo⟩ := hbc hc0
    exact slideWindow_eq hlo hb
  · rfl

theorem getDifficultyForNextBlock_fst {bc : Blockchain} (hbc : bc.CacheConsistent) (version : UInt8) :
    (bc.getDifficultyForNextBlock version).1 = bc.difficultyFromScratch version := by
  unfold getDifficultyForNextBlock difficultyFromScratch
  split_ifs <;> simp [difficultyWindow_eq_loadWindow hbc]

theorem caches_loadWindow (bc : Blockchain) (count : Nat) (hH : bc.height ≠ 0) :
    ({ bc with timestamps := (columns (loadWindow bc.blocks count)).1,
               difficulties := (columns (loadWindow bc.blocks count)).2,
               timestampsAndDifficultiesHeight := bc.height } : Blockchain).Caches
      (windowStart bc.height count) where
  start_pos := by rw [windowStart_eq]; omega
  start_le := by
    show windowStart bc.height count ≤ bc.height
    rw [windowStart_eq]
    omega
  height_le := le_refl _
  columns_eq := by simp [height, loadWindow]

theorem getDifficultyForNextBlock_consistent {bc : Blockchain} (hbc : bc.CacheConsistent)
    (version : UInt8) : (bc.getDifficultyForNextBlock version).2.CacheConsistent := by
  unfold getDifficultyForNextBlock
  by_cases hf : bc.fixedDifficulty ≠ 0
  · rw [if_pos hf]
    exact hbc
  · rw [if_neg hf]
    intro hH
    simp only [difficultyWindow_eq_loadWindow hbc]
    exact ⟨_, caches_loadWindow bc _ hH⟩

theorem Caches.addBlock {bc : Blockchain} {lo : Nat} (hc : bc.Caches lo) (b : BlockEntry) :
    ({ bc with blocks := bc.blocks ++ [b] } : Blockchain).Caches lo where
  start_pos := hc.start_pos
  start_le := hc.start_le
  height_le := by
    have h := hc.height_le
    simp only [height, List.length_append] at h ⊢
    omega
  columns_eq := by
    rw [List.take_append_of_le_length hc.height_le]
    exact hc.columns_eq

theorem step_consistent {bc : Blockchain} (hbc : bc.CacheConsistent) (op : Op) :
    (bc.step op).CacheConsistent := by
  cases op with
  | addBlock b =>
    intro hc0
    obtain ⟨lo, hlo⟩ := hbc hc0
    exact ⟨lo, hlo.addBlock b⟩
  | popBlockFromBlockchain =>
    simp only [step]
    split_ifs <;> exact cacheConsistent_of_dropped rfl
  | popBlocksOnInit n =>
    simp only [step]
    split_ifs
    · exact cacheConsistent_of_dropped rfl
    · exact hbc
  | resetCache => exact cacheConsistent_of_dropped rfl
  | resetAndSetGenesisBlock g => exact cacheConsistent_of_dropped rfl
  | getDifficultyForNextBlock version => exact getDifficultyForNextBlock_consistent hbc version

theorem reachable_consistent {bc : Blockchain} (h : Reachable bc) : bc.CacheConsistent := by
  induction h with
  | init blocks fixedDifficulty => exact cacheConsistent_of_dropped rfl
  | step op _ ih => exact step_consistent ih op

/-- Whenever the cached branch is taken, on any chain reached by any sequence of operations
and at any hard-fork version, its window is the one the from-scratch branch loads, and so the
query returns the difficulty recomputed from the chain. -/
theorem cached_window_eq_fresh {bc : Blockchain} (hbc : Reachable bc) (version : UInt8) :
    (bc.takesCachedBranch (getDifficultyBlocksCount version) = true →
      bc.slideWindow (getDifficultyBlocksCount version) =
        columns (loadWindow bc.blocks (getDifficultyBlocksCount version))) ∧
    (bc.getDifficultyForNextBlock version).1 = bc.difficultyFromScratch version := by
  have hcons := reachable_consistent hbc
  refine ⟨fun hb => ?_, getDifficultyForNextBlock_fst hcons version⟩
  have hdw := difficultyWindow_eq_loadWindow hcons (getDifficultyBlocksCount version)
  rwa [difficultyWindow, if_pos hb] at hdw

theorem cached_window_eq_fresh_cached_branch :
    let bc := ((Blockchain.mk (List.replicate 92 ⟨0, 0⟩) 0 [] [] 0).step
      (.getDifficultyForNextBlock 16)).step (.addBlock ⟨120, 1⟩)
    Reachable bc ∧ bc.takesCachedBranch (getDifficultyBlocksCount 16) = true ∧
      ((bc.takesCachedBranch (getDifficultyBlocksCount 16) = true →
        bc.slideWindow (getDifficultyBlocksCount 16) =
          columns (loadWindow bc.blocks (getDifficultyBlocksCount 16))) ∧
      (bc.getDifficultyForNextBlock 16).1 = bc.difficultyFromScratch 16) :=
  ⟨.step _ (.step _ (.init _ _)), by decide,
    cached_window_eq_fresh (.step _ (.step _ (.init _ _))) 16⟩

end Blockchain

end PepePrivate.Difficulty
