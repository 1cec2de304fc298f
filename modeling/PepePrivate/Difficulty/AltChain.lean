import PepePrivate.Difficulty.Cache

/-! Blockchain::get_next_difficulty_for_alternative_chain. A block on an alternative chain gets
its difficulty from a window made of main-chain blocks below the fork and the alternative
chain, or from the alternative chain alone once it is long enough. Either way the window is the
one get_difficulty_for_next_block takes on the chain made of the main chain below the fork and
the alternative chain. -/

namespace PepePrivate.Difficulty

structure BlockExtendedInfo where
  timestamp : UInt64
  height : Nat
  cumulativeDifficulty : UInt64
  deriving Repr, DecidableEq, Inhabited

def BlockExtendedInfo.entry (bei : BlockExtendedInfo) : BlockEntry :=
  ⟨bei.timestamp, bei.cumulativeDifficulty⟩

def mainChainStopOffset (altChain : List BlockExtendedInfo) (bei : BlockExtendedInfo) : Nat :=
  match altChain.head? with
  | some front => front.height
  | none => bei.height

def mainChainStartOffset (stop count altLength : Nat) : Nat :=
  let mainChainCount := min (count - min count altLength) stop
  let start := stop - mainChainCount
  if start = 0 then 1 else start

def fillFromBack (limit maxI : Nat) : Nat → List BlockExtendedInfo → List BlockEntry → List BlockEntry
  | _, [], res => res
  | i, b :: bs, res =>
    let res := res.set (maxI - i) b.entry
    if i + 1 ≥ limit then res else fillFromBack limit maxI (i + 1) bs res

namespace Blockchain

def getNextDifficultyForAlternativeChain (bc : Blockchain) (altChain : List BlockExtendedInfo)
    (bei : BlockExtendedInfo) (version : UInt8) : UInt64 :=
  if bc.fixedDifficulty ≠ 0 then (if bc.height ≠ 0 then bc.fixedDifficulty else 1)
  else
    let count := getDifficultyBlocksCount version
    if altChain.length < count then
      let stop := mainChainStopOffset altChain bei
      let main := (bc.blocks.take stop).drop (mainChainStartOffset stop count altChain.length)
      -- CHECK_AND_ASSERT_MES returns false from a function returning a difficulty: 0
      if altChain.length + main.length ≤ count then
        let w := columns (main ++ altChain.map (·.entry))
        nextDifficultyFor version w.1 w.2
      else 0
    else
      let w := columns (fillFromBack count (count - 1) 0 altChain.reverse (List.replicate count default))
      nextDifficultyFor version w.1 w.2

/-- The chain of the main-chain blocks below height s followed by an alternative chain. -/
def splice (bc : Blockchain) (s : Nat) (altChain : List BlockExtendedInfo) : List BlockEntry :=
  bc.blocks.take s ++ altChain.map (·.entry)

end Blockchain

theorem fillFromBack_eq {limit i : Nat} {rs : List BlockExtendedInfo} {placed : List BlockEntry}
    (hi : i < limit) (hrs : limit - i ≤ rs.length) :
    fillFromBack limit (limit - 1) i rs (List.replicate (limit - i) default ++ placed) =
      (rs.take (limit - i)).reverse.map (·.entry) ++ placed := by
  induction rs generalizing i placed with
  | nil => simp at hrs; omega
  | cons b bs ih =>
    have hset : (List.replicate (limit - i) default ++ placed).set (limit - 1 - i) b.entry =
        List.replicate (limit - (i + 1)) default ++ b.entry :: placed := by
      obtain ⟨m, hm⟩ : ∃ m, limit - i = m + 1 := ⟨limit - i - 1, by omega⟩
      rw [hm, List.replicate_succ', List.append_assoc, List.set_append_right _ _ (by simp; omega)]
      simp [show limit - 1 - i - m = 0 by omega, show limit - (i + 1) = m by omega]
    simp only [fillFromBack, hset]
    split_ifs with hlast
    · simp [show limit - i = 1 by omega, show limit - (i + 1) = 0 by omega]
    · rw [ih (by omega) (by simp at hrs; omega), show limit - i = limit - (i + 1) + 1 by omega,
        List.take_succ_cons]
      simp

theorem fillFromBack_long {count : Nat} {altChain : List BlockExtendedInfo} (hpos : 0 < count)
    (hlong : count ≤ altChain.length) :
    fillFromBack count (count - 1) 0 altChain.reverse (List.replicate count default) =
      (altChain.drop (altChain.length - count)).map (·.entry) := by
  have h : fillFromBack count (count - 1) 0 altChain.reverse (List.replicate (count - 0) default ++ []) =
      (altChain.reverse.take (count - 0)).reverse.map (·.entry) ++ [] :=
    fillFromBack_eq hpos (by simp; omega)
  simp only [Nat.sub_zero, List.append_nil] at h
  rw [h, List.take_reverse, List.reverse_reverse]

theorem height_front_of_heights {front : BlockExtendedInfo} {rest : List BlockExtendedInfo}
    {s : Nat} (hheights : (front :: rest).map (·.height) = List.range' s (front :: rest).length) :
    front.height = s := by
  simp only [List.map_cons, List.length_cons, List.range'_succ, List.cons.injEq] at hheights
  exact hheights.1

theorem mainChainStopOffset_eq {altChain : List BlockExtendedInfo} {bei : BlockExtendedInfo} {s : Nat}
    (hheights : altChain.map (·.height) = List.range' s altChain.length)
    (hbei : bei.height = s + altChain.length) : mainChainStopOffset altChain bei = s := by
  cases altChain with
  | nil => simpa [mainChainStopOffset] using hbei
  | cons front rest => exact height_front_of_heights hheights

theorem mainChainStartOffset_eq {s count altLength : Nat} (hL : altLength < count) :
    mainChainStartOffset s count altLength = windowStart (s + altLength) count := by
  simp only [mainChainStartOffset, windowStart]
  split_ifs <;> omega

namespace Blockchain

section Splice

variable {bc : Blockchain} {s count : Nat} {altChain : List BlockExtendedInfo}

theorem length_take_blocks (hmain : s ≤ bc.height) : (bc.blocks.take s).length = s :=
  List.length_take_of_le hmain

theorem length_splice (hmain : s ≤ bc.height) :
    (bc.splice s altChain).length = s + altChain.length := by
  rw [splice, List.length_append, length_take_blocks hmain, List.length_map]

theorem loadWindow_splice_short (hs : 0 < s) (hmain : s ≤ bc.height) (hL : altChain.length < count) :
    loadWindow (bc.splice s altChain) count =
      (bc.blocks.take s).drop (mainChainStartOffset s count altChain.length) ++
        altChain.map (·.entry) := by
  have hstart : mainChainStartOffset s count altChain.length ≤ (bc.blocks.take s).length := by
    rw [mainChainStartOffset_eq hL, windowStart_eq, length_take_blocks hmain]
    omega
  rw [loadWindow, length_splice hmain, ← mainChainStartOffset_eq hL, splice,
    List.drop_append_of_le_length hstart]

theorem window_size_short (hmain : s ≤ bc.height) (hL : altChain.length < count) :
    altChain.length + ((bc.blocks.take s).drop (mainChainStartOffset s count altChain.length)).length
      ≤ count := by
  rw [List.length_drop, length_take_blocks hmain, mainChainStartOffset_eq hL, windowStart_eq]
  omega

theorem loadWindow_splice_long (hs : 0 < s) (hmain : s ≤ bc.height) (hL : count ≤ altChain.length) :
    loadWindow (bc.splice s altChain) count = (altChain.drop (altChain.length - count)).map (·.entry) := by
  have hstart : windowStart (s + altChain.length) count = s + (altChain.length - count) := by
    rw [windowStart_eq]
    omega
  rw [loadWindow, length_splice hmain, hstart, splice, ← List.drop_drop,
    List.drop_left' (length_take_blocks hmain), List.map_drop]

end Splice

/-- The difficulty of a block on an alternative chain forking at height s is the difficulty
get_difficulty_for_next_block returns, in any reachable state, on the chain made of the main
chain below s followed by the alternative chain, at the same hard-fork version. -/
theorem alt_chain_difficulty_eq_spliced {bc spliced : Blockchain} {altChain : List BlockExtendedInfo}
    {bei : BlockExtendedInfo} {s : Nat} (version : UInt8) (hs : 0 < s) (hmain : s ≤ bc.height)
    (hheights : altChain.map (·.height) = List.range' s altChain.length)
    (hbei : bei.height = s + altChain.length) (hreach : Reachable spliced)
    (hblocks : spliced.blocks = bc.splice s altChain)
    (hfixed : spliced.fixedDifficulty = bc.fixedDifficulty) :
    (spliced.getDifficultyForNextBlock version).1 =
      bc.getNextDifficultyForAlternativeChain altChain bei version := by
  rw [getDifficultyForNextBlock_fst (reachable_consistent hreach)]
  have hH : spliced.height ≠ 0 := by
    rw [height, hblocks, length_splice hmain]
    omega
  have hH' : bc.height ≠ 0 := by omega
  simp only [difficultyFromScratch, getNextDifficultyForAlternativeChain, hfixed, hblocks,
    mainChainStopOffset_eq hheights hbei]
  by_cases hf : bc.fixedDifficulty ≠ 0
  · simp only [hf, hH, hH', if_true, ne_eq, not_false_eq_true]
  · simp only [hf, if_false]
    by_cases hL : altChain.length < getDifficultyBlocksCount version
    · rw [if_pos hL, if_pos (window_size_short hmain hL), loadWindow_splice_short hs hmain hL]
    · rw [if_neg hL, fillFromBack_long (by have := getDifficultyBlocksCount_ge version; omega) (by omega),
        loadWindow_splice_long hs hmain (by omega)]

theorem alt_chain_difficulty_eq_spliced_fork_at_two :
    let bc : Blockchain := ⟨[⟨0, 1⟩, ⟨120, 2⟩, ⟨240, 3⟩], 0, [], [], 0⟩
    let alt : List BlockExtendedInfo := [⟨250, 2, 4⟩]
    let bei : BlockExtendedInfo := ⟨370, 3, 0⟩
    let spliced : Blockchain := ⟨bc.splice 2 alt, 0, [], [], 0⟩
    0 < 2 ∧ 2 ≤ bc.height ∧ alt.map (·.height) = List.range' 2 alt.length ∧
      bei.height = 2 + alt.length ∧ Reachable spliced ∧ spliced.blocks = bc.splice 2 alt ∧
      spliced.fixedDifficulty = bc.fixedDifficulty ∧
      (spliced.getDifficultyForNextBlock 16).1 = bc.getNextDifficultyForAlternativeChain alt bei 16 :=
  ⟨by decide, by decide, rfl, rfl, .init _ _, rfl, rfl,
    alt_chain_difficulty_eq_spliced 16 (by decide) (by decide) rfl rfl (.init _ _) rfl rfl⟩

end Blockchain

end PepePrivate.Difficulty
