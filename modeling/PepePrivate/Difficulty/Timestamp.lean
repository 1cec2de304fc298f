import PepePrivate.Difficulty.AltChain

/-! The timestamp checks of blockchain.cpp. A block on the main chain must not be older than the
median of the last BLOCKCHAIN_TIMESTAMP_CHECK_WINDOW_V11 block timestamps
(check_median_block_timestamp). A block on an alternative chain is checked against the
timestamps build_alt_chain collects: the whole alternative chain from its tip down, completed
from the main chain below the fork by complete_timestamps_vector only while fewer than 11 are
collected. epee's median sorts its argument in place, so check_block_timestamp then reads the
largest timestamp as back(). -/

namespace PepePrivate.Difficulty

def blockchainTimestampCheckWindowV9 : Nat := 11
def blockchainTimestampCheckWindowV11 : Nat := 11
def cryptonoteBlockFutureTimeLimitV11 : UInt64 := 360

theorem insertionSort_eq_of_perm {α : Type*} {r : α → α → Prop} [DecidableRel r] [Std.Total r]
    [IsTrans α r] [Std.Antisymm r] {l₁ l₂ : List α} (h : l₁.Perm l₂) :
    l₁.insertionSort r = l₂.insertionSort r :=
  List.Perm.eq_of_pairwise' (List.pairwise_insertionSort r l₁) (List.pairwise_insertionSort r l₂)
    ((List.perm_insertionSort r l₁).trans (h.trans (List.perm_insertionSort r l₂).symm))

/-- epee::misc_utils::median, with the vector as the call leaves it: sorted, unless it has at
most one entry. An empty vector gives the value-initialised 0. -/
def median (v : List UInt64) : UInt64 × List UInt64 :=
  if v.isEmpty then (0, v)
  else if v.length = 1 then (v.getD 0 0, v)
  else
    let n := v.length / 2
    let v := v.insertionSort (· ≤ ·)
    if v.length % 2 = 1 then (v.getD n 0, v) else ((v.getD (n - 1) 0 + v.getD n 0) / 2, v)

theorem median_perm {v w : List UInt64} (h : v.Perm w) : median v = median w := by
  have hlen := h.length_eq
  by_cases h0 : v.length = 0
  · rw [List.length_eq_zero_iff.mp h0] at h ⊢
    rw [← h.nil_eq]
  by_cases h1 : v.length = 1
  · obtain ⟨a, rfl⟩ := List.length_eq_one_iff.mp h1
    rw [List.perm_singleton.mp h.symm]
  · have hw0 : ¬w.length = 0 := by omega
    have hw1 : ¬w.length = 1 := by omega
    simp only [median, List.isEmpty_iff, ← List.length_eq_zero_iff, hw0, hw1, if_false,
      insertionSort_eq_of_perm h, hlen]

theorem median_replicate_append {a c : UInt64} {p q : Nat} (hac : a ≤ c) (hqp : q < p)
    (ha : a.toNat < 2 ^ 63) : (median (List.replicate p a ++ List.replicate q c)).1 = a := by
  have hsorted : (List.replicate p a ++ List.replicate q c).Pairwise (· ≤ ·) := by
    refine List.pairwise_append.mpr ⟨List.pairwise_replicate.mpr (Or.inr (UInt64.le_refl a)),
      List.pairwise_replicate.mpr (Or.inr (UInt64.le_refl c)), ?_⟩
    intro x hx y hy
    rw [List.eq_of_mem_replicate hx, List.eq_of_mem_replicate hy]
    exact hac
  have hget : ∀ i < p, (List.replicate p a ++ List.replicate q c).getD i 0 = a := fun i hi => by
    rw [List.getD_append _ _ _ _ (by simpa using hi), List.getD_replicate _ hi]
  have hhalf : (a + a) / 2 = a := by
    apply UInt64.toNat_inj.mp
    rw [UInt64.toNat_div, UInt64.toNat_add]
    simp only [UInt64.reduceToNat]
    omega
  have hne : (List.replicate p a ++ List.replicate q c).isEmpty = false := by
    obtain ⟨p, rfl⟩ : ∃ p', p = p' + 1 := ⟨p - 1, by omega⟩
    simp [List.replicate_succ]
  simp only [median, hne, Bool.false_eq_true, ↓reduceIte, hsorted.insertionSort_eq,
    List.length_append, List.length_replicate]
  split_ifs with h1 hodd
  · exact hget 0 (by omega)
  · exact hget _ (by omega)
  · rw [hget _ (by omega), hget _ (by omega), hhalf]

/-- check_block_timestamp(timestamps, b, median_ts) for a block with timestamp blockTimestamp:
not more than the future time limit before the newest timestamp (from version 10), and not
before the median. -/
def checkBlockTimestamp (timestamps : List UInt64) (blockTimestamp : UInt64) (hfVersion : UInt8) :
    Bool :=
  let m := median timestamps
  -- back() of the vector median sorted; an empty vector does not occur where it is called
  let topBlockTimestamp := m.2.getLast?.getD 0
  if hfVersion > 9 ∧ blockTimestamp < topBlockTimestamp - cryptonoteBlockFutureTimeLimitV11 then false
  else if blockTimestamp < m.1 then false
  else true

theorem checkBlockTimestamp_perm {v w : List UInt64} (h : v.Perm w) (blockTimestamp : UInt64)
    (hfVersion : UInt8) :
    checkBlockTimestamp v blockTimestamp hfVersion = checkBlockTimestamp w blockTimestamp hfVersion := by
  simp only [checkBlockTimestamp, median_perm h]

namespace Blockchain

def checkMedianBlockTimestamp (bc : Blockchain) (blockTimestamp : UInt64) (hfVersion : UInt8) :
    Bool :=
  let window :=
    if hfVersion > 9 then blockchainTimestampCheckWindowV11 else blockchainTimestampCheckWindowV9
  if bc.height < window then true
  else checkBlockTimestamp ((bc.blocks.drop (bc.height - window)).map (·.timestamp)) blockTimestamp
    hfVersion

def timestampsDown (bc : Blockchain) : Nat → Nat → List UInt64
  | 0, _ => []
  | k + 1, h => (bc.blocks.getD h default).timestamp :: bc.timestampsDown k (h - 1)

/-- complete_timestamps_vector. Both callers ignore its result, so a failed check leaves the
vector as it was. -/
def completeTimestampsVector (bc : Blockchain) (startTopHeight : Nat) (timestamps : List UInt64) :
    List UInt64 :=
  if timestamps.length ≥ blockchainTimestampCheckWindowV11 then timestamps
  else
    let needElements := blockchainTimestampCheckWindowV11 - timestamps.length
    if startTopHeight < bc.height then
      let stopOffset := if startTopHeight > needElements then startTopHeight - needElements else 0
      timestamps ++ bc.timestampsDown (startTopHeight - stopOffset) startTopHeight
    else timestamps

/-- The timestamps build_alt_chain collects for a block whose parent is the tip of altChain, or
the main-chain block at parentHeight when altChain is empty; none when it fails. -/
def buildAltChain (bc : Blockchain) (altChain : List BlockExtendedInfo) (parentHeight : Nat) :
    Option (List UInt64) :=
  let timestamps := (altChain.map (·.timestamp)).reverse
  match altChain.head? with
  | some front =>
    -- the chain must start inside the main chain and connect to its block front.height - 1
    if front.height < bc.height ∧ 0 < front.height then
      some (bc.completeTimestampsVector (front.height - 1) timestamps)
    else none
  | none =>
    if parentHeight < bc.height then some (bc.completeTimestampsVector parentHeight timestamps)
    else none

/-- The timestamp check handle_alternative_block makes on a block extending altChain. -/
def altBlockTimestampOk (bc : Blockchain) (altChain : List BlockExtendedInfo) (parentHeight : Nat)
    (blockTimestamp : UInt64) (hfVersion : UInt8) : Bool :=
  match bc.buildAltChain altChain parentHeight with
  | some timestamps => checkBlockTimestamp timestamps blockTimestamp hfVersion
  | none => false

theorem timestampsDown_eq (bc : Blockchain) {k h lo : Nat} (hk : lo + k = h + 1)
    (hh : h < bc.height) :
    bc.timestampsDown k h = (((bc.blocks.take (h + 1)).drop lo).map (·.timestamp)).reverse := by
  induction k generalizing h lo with
  | zero =>
    have hlo : lo = h + 1 := by omega
    subst hlo
    simp [timestampsDown]
  | succ k ih =>
    have hh' : h < bc.blocks.length := hh
    have htake : (bc.blocks.take (h + 1)).drop lo = (bc.blocks.take h).drop lo ++ [bc.blocks[h]] := by
      rw [List.take_succ_eq_append_getElem hh', List.drop_append_of_le_length (by simp; omega)]
    rw [timestampsDown, htake, List.map_append, List.reverse_append, List.getD_eq_getElem _ _ hh']
    cases k with
    | zero =>
      have hlo : lo = h := by omega
      subst hlo
      simp [timestampsDown]
    | succ k =>
      rw [ih (show lo + (k + 1) = h - 1 + 1 by omega) (by omega), show h - 1 + 1 = h by omega]
      rfl

section Fork

variable {bc : Blockchain} {altChain : List BlockExtendedInfo} {s : Nat}

theorem completeTimestampsVector_fork {timestamps : List UInt64} (hs : 0 < s)
    (hmain : s < bc.height) (hshort : timestamps.length ≤ 11) (hlong : 12 ≤ s + timestamps.length) :
    bc.completeTimestampsVector (s - 1) timestamps =
      timestamps ++ (((bc.blocks.take s).drop (s + timestamps.length - 11)).map (·.timestamp)).reverse := by
  unfold completeTimestampsVector blockchainTimestampCheckWindowV11
  by_cases hfull : timestamps.length ≥ 11
  · rw [if_pos hfull, show s + timestamps.length - 11 = s by omega]
    simp
  · rw [if_neg hfull, if_pos (by omega)]
    have hstop : (s - 1 - if s - 1 > 11 - timestamps.length then s - 1 - (11 - timestamps.length) else 0)
        = 11 - timestamps.length := by
      split_ifs <;> omega
    have hk : s + timestamps.length - 11 + (11 - timestamps.length) = s - 1 + 1 := by omega
    dsimp only
    rw [hstop, timestampsDown_eq bc hk (by omega), show s - 1 + 1 = s by omega]

theorem buildAltChain_fork (hs : 0 < s) (hmain : s < bc.height)
    (hheights : altChain.map (·.height) = List.range' s altChain.length)
    (hshort : altChain.length ≤ 11) (hlong : 12 ≤ s + altChain.length) :
    bc.buildAltChain altChain (s - 1) =
      some (((bc.splice s altChain).drop (s + altChain.length - 11)).map (·.timestamp)).reverse := by
  have hcomplete : bc.completeTimestampsVector (s - 1) (altChain.map (·.timestamp)).reverse =
      (altChain.map (·.timestamp)).reverse ++ (((bc.blocks.take s).drop
        (s + (altChain.map (·.timestamp)).reverse.length - 11)).map (·.timestamp)).reverse :=
    completeTimestampsVector_fork hs hmain (by simpa using hshort) (by simpa using hlong)
  have hsplice : ((bc.splice s altChain).drop (s + altChain.length - 11)).map (·.timestamp) =
      ((bc.blocks.take s).drop (s + altChain.length - 11)).map (·.timestamp) ++
        altChain.map (·.timestamp) := by
    have hstart : s + altChain.length - 11 ≤ (bc.blocks.take s).length := by
      rw [length_take_blocks hmain.le]
      omega
    rw [splice, List.drop_append_of_le_length hstart]
    simp [Function.comp_def, BlockExtendedInfo.entry]
  rw [hsplice, List.reverse_append]
  simp only [List.length_reverse, List.length_map] at hcomplete
  cases altChain with
  | nil => simpa [buildAltChain, show s - 1 < bc.height by omega] using hcomplete
  | cons front rest =>
    have hfront := height_front_of_heights hheights
    simp only [buildAltChain, List.head?_cons, hfront, hmain, hs, and_self, if_true, hcomplete]

end Fork

/-- For an alternative chain of at most 11 blocks forking at s, with at least 12 blocks in the
spliced chain, the alternative-block timestamp check accepts a block exactly when the main-chain
check would accept it on the main chain below s followed by the alternative chain. -/
theorem alt_timestamp_check_eq_spliced {bc : Blockchain} {altChain : List BlockExtendedInfo}
    {s : Nat} (blockTimestamp : UInt64) (hfVersion : UInt8) (hs : 0 < s) (hmain : s < bc.height)
    (hheights : altChain.map (·.height) = List.range' s altChain.length)
    (hshort : altChain.length ≤ 11) (hlong : 12 ≤ s + altChain.length) :
    bc.altBlockTimestampOk altChain (s - 1) blockTimestamp hfVersion =
      ({ bc with blocks := bc.splice s altChain } : Blockchain).checkMedianBlockTimestamp
        blockTimestamp hfVersion := by
  have hheight : ({ bc with blocks := bc.splice s altChain } : Blockchain).height = s + altChain.length :=
    length_splice (Nat.le_of_lt hmain)
  have hwindow : (if hfVersion > 9 then blockchainTimestampCheckWindowV11
      else blockchainTimestampCheckWindowV9) = 11 := by
    split_ifs <;> rfl
  rw [altBlockTimestampOk, buildAltChain_fork hs hmain hheights hshort hlong]
  simp only [checkMedianBlockTimestamp, hwindow, hheight, show ¬s + altChain.length < 11 by omega,
    if_false]
  exact checkBlockTimestamp_perm (List.reverse_perm _) blockTimestamp hfVersion

theorem alt_timestamp_check_eq_spliced_fork_at_ten :
    let bc : Blockchain := ⟨(List.range 12).map fun i => ⟨(i * 120).toUInt64, 0⟩, 0, [], [], 0⟩
    let alt : List BlockExtendedInfo := [⟨1200, 10, 0⟩, ⟨1300, 11, 0⟩, ⟨1400, 12, 0⟩]
    0 < 10 ∧ 10 < bc.height ∧ alt.map (·.height) = List.range' 10 alt.length ∧ alt.length ≤ 11 ∧
      12 ≤ 10 + alt.length ∧
      bc.altBlockTimestampOk alt (10 - 1) 1500 16 =
        ({ bc with blocks := bc.splice 10 alt } : Blockchain).checkMedianBlockTimestamp 1500 16 :=
  ⟨by decide, by decide, rfl, by decide, by decide,
    alt_timestamp_check_eq_spliced 1500 16 (by decide) (by decide) rfl (by decide) (by decide)⟩

end Blockchain

end PepePrivate.Difficulty
