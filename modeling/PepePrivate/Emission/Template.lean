import PepePrivate.Emission.MinerTx
import PepePrivate.Core.TxPool

/-! create_block_template of blockchain.cpp for the main chain, with fill_block_template of
tx_pool.cpp and construct_miner_tx of cryptonote_tx_utils.cpp. The template is paid from
median_weight = m_current_block_cumul_weight_limit / 2, which
update_next_cumulative_weight_limit caps from hard fork 14 at
CRYPTONOTE_SHORT_TERM_BLOCK_WEIGHT_SURGE_FACTOR times the long-term effective median, while
validate_miner_transaction pays from the plain median of the last
CRYPTONOTE_REWARD_BLOCKS_WINDOW block weights. -/

namespace PepePrivate.Emission

open PepePrivate.Core

def cryptonoteLongTermBlockWeightWindowSize : Nat := 100000
def cryptonoteShortTermBlockWeightSurgeFactor : UInt64 := 50
def cryptonoteCoinbaseBlobReservedSize : UInt64 := 600
def hfVersionLongTermBlockWeight : UInt8 := 14

/-- get_long_term_block_weights: the long-term weights of count blocks from start_height. -/
def getLongTermBlockWeights (longTermBlockWeights : List UInt64) (startHeight count : Nat) :
    List UInt64 :=
  (longTermBlockWeights.drop startHeight).take count

/-- update_next_cumulative_weight_limit after the block at db_height - 1: the effective median
and m_current_block_cumul_weight_limit. -/
def updateNextCumulativeWeightLimit (blockWeights longTermBlockWeights : List UInt64)
    (hfVersion : UInt8) : UInt64 × UInt64 :=
  let dbHeight := blockWeights.length
  let fullRewardZone := getMinBlockWeight hfVersion
  let median :=
    if hfVersion < hfVersionLongTermBlockWeight then
      (Difficulty.median (getLastNBlocksWeights blockWeights cryptonoteRewardBlocksWindow)).1
    else
      let blockWeight := blockWeights.getD (dbHeight - 1) 0
      let (weights, longTermMedian) :=
        if dbHeight = 1 then ([], cryptonoteBlockGrantedFullRewardZoneV5)
        else
          let nblocks := min cryptonoteLongTermBlockWeightWindowSize dbHeight
          let nblocks := if nblocks = dbHeight then nblocks - 1 else nblocks
          let weights := getLongTermBlockWeights longTermBlockWeights (dbHeight - nblocks - 1) nblocks
          (weights, (Difficulty.median weights).1)
      let longTermEffectiveMedian := max cryptonoteBlockGrantedFullRewardZoneV5 longTermMedian
      let shortTermConstraint := longTermEffectiveMedian + longTermEffectiveMedian * 2 / 5
      let longTermBlockWeight := min blockWeight shortTermConstraint
      -- new_weights[0] = long_term_block_weight, after a resize(1) of an empty vector
      let newWeights := match weights with
        | [] => [longTermBlockWeight]
        | _ :: rest => longTermBlockWeight :: rest
      let longTermEffectiveMedian :=
        max cryptonoteBlockGrantedFullRewardZoneV5 (Difficulty.median newWeights).1
      let shortTermMedian :=
        (Difficulty.median (getLastNBlocksWeights blockWeights cryptonoteRewardBlocksWindow)).1
      min (max cryptonoteBlockGrantedFullRewardZoneV5 shortTermMedian)
        (cryptonoteShortTermBlockWeightSurgeFactor * longTermEffectiveMedian)
  let median := if median ≤ fullRewardZone then fullRewardZone else median
  (median, median * 2)

theorem updateNextCumulativeWeightLimit_snd (blockWeights longTermBlockWeights : List UInt64)
    (hfVersion : UInt8) :
    (updateNextCumulativeWeightLimit blockWeights longTermBlockWeights hfVersion).2 =
      (updateNextCumulativeWeightLimit blockWeights longTermBlockWeights hfVersion).1 * 2 := rfl

theorem updateNextCumulativeWeightLimit_of_long {blockWeights longTermBlockWeights rest : List UInt64}
    {hfVersion : UInt8} {x : UInt64} (hv : ¬hfVersion < hfVersionLongTermBlockWeight)
    (hlong : cryptonoteLongTermBlockWeightWindowSize < blockWeights.length)
    (hwin : getLongTermBlockWeights longTermBlockWeights
      (blockWeights.length - cryptonoteLongTermBlockWeightWindowSize - 1)
      cryptonoteLongTermBlockWeightWindowSize = x :: rest) :
    (updateNextCumulativeWeightLimit blockWeights longTermBlockWeights hfVersion).1 =
      let longTermEffectiveMedian := max cryptonoteBlockGrantedFullRewardZoneV5 (Difficulty.median (x :: rest)).1
      let longTermBlockWeight := min (blockWeights.getD (blockWeights.length - 1) 0)
        (longTermEffectiveMedian + longTermEffectiveMedian * 2 / 5)
      let effectiveMedian := min (max cryptonoteBlockGrantedFullRewardZoneV5
          (Difficulty.median (getLastNBlocksWeights blockWeights cryptonoteRewardBlocksWindow)).1)
        (cryptonoteShortTermBlockWeightSurgeFactor *
          max cryptonoteBlockGrantedFullRewardZoneV5 (Difficulty.median (longTermBlockWeight :: rest)).1)
      if effectiveMedian ≤ getMinBlockWeight hfVersion then getMinBlockWeight hfVersion
      else effectiveMedian := by
  have h1 : blockWeights.length ≠ 1 := by
    unfold cryptonoteLongTermBlockWeightWindowSize at hlong
    omega
  have hmin : min cryptonoteLongTermBlockWeightWindowSize blockWeights.length =
      cryptonoteLongTermBlockWeightWindowSize := Nat.min_eq_left hlong.le
  simp only [updateNextCumulativeWeightLimit, hv, h1, hmin, Nat.ne_of_lt hlong, ↓reduceIte, hwin]

/-- construct_miner_tx: the amounts of the miner output and, from version 16, of the governance
output; none where it returns false. -/
def constructMinerTx (height medianWeight alreadyGeneratedCoins currentBlockWeight fee : UInt64)
    (hardForkVersion : UInt8) (nettype : NetworkType) : Option (List UInt64) := do
  let blockReward ← if height = 1 then some moneyPremine
    else getBlockReward medianWeight currentBlockWeight alreadyGeneratedCoins hardForkVersion
  let governanceReward :=
    if hardForkVersion ≥ 16 then getGovernanceReward height blockReward hardForkVersion else 0
  let blockReward := blockReward - governanceReward + fee
  if hardForkVersion ≥ 16 then
    if nettype = .stagenet ∨ nettype = .testnet ∨ nettype = .mainnet then
      some [blockReward, governanceReward]
    else none
  else some [blockReward]

def float32Round (x : UInt64) : UInt64 :=
  let n := x.toNat
  let e := Nat.log2 n + 1 - 24
  if e = 0 then x
  else
    let q := n / 2 ^ e
    let r := n % 2 ^ e
    let half := 2 ^ (e - 1)
    let q := if r > half ∨ (r = half ∧ q % 2 = 1) then q + 1 else q
    (q * 2 ^ e).toUInt64

/-- template_accept_threshold, with ACCEPT_THRESHOLD = 1.0f. -/
def templateAcceptThreshold (amount : UInt64) : UInt64 := float32Round amount

theorem toNat_float32Round_le (x : UInt64) :
    (float32Round x).toNat ≤ x.toNat + x.toNat / 2 ^ 23 := by
  dsimp only [float32Round]
  generalize hn : x.toNat = n
  generalize he : Nat.log2 n + 1 - 24 = e
  have hunit : e ≠ 0 → 2 ^ e ≤ n / 2 ^ 23 := fun he0 => by
    have hn0 : n ≠ 0 := by
      rintro rfl
      simp at he
      omega
    apply (Nat.le_div_iff_mul_le (by positivity)).mpr
    rw [← pow_add, show e + 23 = Nat.log2 n by omega]
    exact Nat.log2_self_le hn0
  have hq := Nat.div_mul_le_self n (2 ^ e)
  split_ifs with he0 hup
  · omega
  · have := hunit he0
    calc (((n / 2 ^ e + 1) * 2 ^ e).toUInt64).toNat ≤ (n / 2 ^ e + 1) * 2 ^ e := by
          simp [Nat.mod_le]
      _ = n / 2 ^ e * 2 ^ e + 2 ^ e := by ring
      _ ≤ n + n / 2 ^ 23 := by omega
  · calc ((n / 2 ^ e * 2 ^ e).toUInt64).toNat ≤ n / 2 ^ e * 2 ^ e := by simp [Nat.mod_le]
      _ ≤ n + n / 2 ^ 23 := by omega

/-- The state of the loop of fill_block_template: weight, fees, best coinbase, key images. -/
structure FillState (κ : Type) where
  totalWeight : UInt64
  fee : UInt64
  bestCoinbase : UInt64
  kImages : Finset κ

variable {η κ : Type} [DecidableEq η] [DecidableEq κ]

/-- The checks of one entry of the loop of fill_block_template from version 5, in the source's
order: the loop state once the transaction is taken, none where the loop continues past it.
isReady is is_transaction_ready_to_go. -/
def takeEntry (pool : TxMemoryPool η κ) (isReady : η → Bool) (medianWeight alreadyGeneratedCoins : UInt64)
    (version : UInt8) (maxTotalWeight : UInt64) (s : FillState κ) (e : SortedEntry η) :
    Option (FillState κ) :=
  match getTxpoolTx e.txid pool.txpool with
  | none => none
  | some (txMeta, tx) =>
    if txMeta.pruned then none
    else if maxTotalWeight < s.totalWeight + txMeta.weight then none
    else
      match getBlockReward medianWeight (s.totalWeight + txMeta.weight) alreadyGeneratedCoins version with
      | none => none
      | some blockReward =>
        let coinbase := blockReward + s.fee + txMeta.fee
        if coinbase < templateAcceptThreshold s.bestCoinbase then none
        else if !isReady e.txid then none
        else if haveKeyImages s.kImages tx.vin then none
        else
          some { totalWeight := s.totalWeight + txMeta.weight
                 fee := s.fee + txMeta.fee
                 bestCoinbase := coinbase
                 kImages := (appendKeyImages s.kImages tx.vin).2 }

/-- One entry of the loop of fill_block_template from version 5. -/
def fillStep (pool : TxMemoryPool η κ) (isReady : η → Bool) (medianWeight alreadyGeneratedCoins : UInt64)
    (version : UInt8) (maxTotalWeight : UInt64) (s : FillState κ) (e : SortedEntry η) : FillState κ :=
  (takeEntry pool isReady medianWeight alreadyGeneratedCoins version maxTotalWeight s e).getD s

def fillBlockTemplate (pool : TxMemoryPool η κ) (isReady : η → Bool)
    (medianWeight alreadyGeneratedCoins : UInt64) (version : UInt8) : UInt64 × UInt64 :=
  let bestCoinbase := (getBlockReward medianWeight 0 alreadyGeneratedCoins version).getD 0
  let maxTotalWeight := 2 * medianWeight - cryptonoteCoinbaseBlobReservedSize
  let s := pool.txsByFeeAndReceiveTime.foldl
    (fillStep pool isReady medianWeight alreadyGeneratedCoins version maxTotalWeight)
    ⟨0, 0, bestCoinbase, ∅⟩
  (s.totalWeight, s.fee)

/-! ### What fill_block_template returns -/

structure BlockTemplateFill (η : Type) where
  txHashes : List η
  totalWeight : UInt64
  fee : UInt64
  expectedReward : UInt64

def fillStepHashes (pool : TxMemoryPool η κ) (isReady : η → Bool)
    (medianWeight alreadyGeneratedCoins : UInt64) (version : UInt8) (maxTotalWeight : UInt64)
    (st : FillState κ × List η) (e : SortedEntry η) : FillState κ × List η :=
  match takeEntry pool isReady medianWeight alreadyGeneratedCoins version maxTotalWeight st.1 e with
  | none => st
  | some s => (s, st.2 ++ [e.txid])

/-- tx_memory_pool::fill_block_template from version 5 with everything it returns;
expected_reward is the best coinbase when the loop ends. -/
def fillBlockTemplateFull (pool : TxMemoryPool η κ) (isReady : η → Bool)
    (medianWeight alreadyGeneratedCoins : UInt64) (version : UInt8) : BlockTemplateFill η :=
  let bestCoinbase := (getBlockReward medianWeight 0 alreadyGeneratedCoins version).getD 0
  let maxTotalWeight := 2 * medianWeight - cryptonoteCoinbaseBlobReservedSize
  let st := pool.txsByFeeAndReceiveTime.foldl
    (fillStepHashes pool isReady medianWeight alreadyGeneratedCoins version maxTotalWeight)
    (⟨0, 0, bestCoinbase, ∅⟩, [])
  ⟨st.2, st.1.totalWeight, st.1.fee, st.1.bestCoinbase⟩

section Loop

variable {pool : TxMemoryPool η κ} {isReady : η → Bool}
  {medianWeight alreadyGeneratedCoins maxTotalWeight : UInt64} {version : UInt8}

theorem takeEntry_eq_some_iff {s s' : FillState κ} {e : SortedEntry η} :
    takeEntry pool isReady medianWeight alreadyGeneratedCoins version maxTotalWeight s e = some s' ↔
      ∃ txMeta tx r, getTxpoolTx e.txid pool.txpool = some (txMeta, tx) ∧ txMeta.pruned = false ∧
        s.totalWeight + txMeta.weight ≤ maxTotalWeight ∧
        getBlockReward medianWeight (s.totalWeight + txMeta.weight) alreadyGeneratedCoins
          version = some r ∧
        templateAcceptThreshold s.bestCoinbase ≤ r + s.fee + txMeta.fee ∧ isReady e.txid = true ∧
        haveKeyImages s.kImages tx.vin = false ∧
        s' = ⟨s.totalWeight + txMeta.weight, s.fee + txMeta.fee, r + s.fee + txMeta.fee,
          (appendKeyImages s.kImages tx.vin).2⟩ := by
  constructor
  · intro h
    simp only [takeEntry] at h
    split at h
    · cases h
    rename_i txMeta tx hget
    split at h
    · cases h
    rename_i hpruned
    split at h
    · cases h
    rename_i hover
    split at h
    · cases h
    rename_i r hreward
    split at h
    · cases h
    rename_i hcoinbase
    split at h
    · cases h
    rename_i hready
    split at h
    · cases h
    rename_i hseen
    refine ⟨txMeta, tx, r, hget, by simpa using hpruned, UInt64.not_lt.mp hover, hreward,
      UInt64.not_lt.mp hcoinbase, by simpa using hready, by simpa using hseen, ?_⟩
    exact (Option.some_injective _ h).symm
  · rintro ⟨txMeta, tx, r, hget, hpruned, hfits, hreward, hcoinbase, hready, hseen, rfl⟩
    simp only [takeEntry, hget, hpruned, UInt64.not_lt.mpr hfits, hreward,
      UInt64.not_lt.mpr hcoinbase, hready, hseen, Bool.not_true, Bool.false_eq_true, ↓reduceIte]

theorem fillStepHashes_of_none {st : FillState κ × List η} {e : SortedEntry η}
    (h : takeEntry pool isReady medianWeight alreadyGeneratedCoins version maxTotalWeight st.1 e = none) :
    fillStepHashes pool isReady medianWeight alreadyGeneratedCoins version maxTotalWeight st e = st := by
  simp only [fillStepHashes, h]

theorem fillStepHashes_of_some {st : FillState κ × List η} {e : SortedEntry η} {s : FillState κ}
    (h : takeEntry pool isReady medianWeight alreadyGeneratedCoins version maxTotalWeight st.1 e = some s) :
    fillStepHashes pool isReady medianWeight alreadyGeneratedCoins version maxTotalWeight st e =
      (s, st.2 ++ [e.txid]) := by
  simp only [fillStepHashes, h]

theorem fillStep_of_take {s : FillState κ} {e : SortedEntry η} {txMeta : TxpoolTxMeta}
    {tx : PoolTransaction κ} {r : UInt64}
    (hget : getTxpoolTx e.txid pool.txpool = some (txMeta, tx)) (hpruned : txMeta.pruned = false)
    (hfits : s.totalWeight + txMeta.weight ≤ maxTotalWeight)
    (hreward : getBlockReward medianWeight (s.totalWeight + txMeta.weight) alreadyGeneratedCoins
      version = some r)
    (hcoinbase : templateAcceptThreshold s.bestCoinbase ≤ r + s.fee + txMeta.fee)
    (hready : isReady e.txid = true) (hvin : tx.vin.all TxIn.isToKey = true)
    (hnodup : (keyImagesOf tx.vin).Nodup) (hfresh : ∀ k ∈ keyImagesOf tx.vin, k ∉ s.kImages) :
    fillStep pool isReady medianWeight alreadyGeneratedCoins version maxTotalWeight s e =
      { totalWeight := s.totalWeight + txMeta.weight
        fee := s.fee + txMeta.fee
        bestCoinbase := r + s.fee + txMeta.fee
        kImages := (keyImagesOf tx.vin).foldl (fun k i => insert i k) s.kImages } := by
  have htake := takeEntry_eq_some_iff.mpr ⟨txMeta, tx, r, hget, hpruned, hfits, hreward, hcoinbase,
    hready, (haveKeyImages_eq_false_iff hvin).mpr hfresh, rfl⟩
  rw [fillStep, htake, Option.getD_some, appendKeyImages_snd_of_fresh hvin hnodup hfresh]

theorem fillStepHashes_fst (st : FillState κ × List η) (e : SortedEntry η) :
    (fillStepHashes pool isReady medianWeight alreadyGeneratedCoins version maxTotalWeight st e).1 =
      fillStep pool isReady medianWeight alreadyGeneratedCoins version maxTotalWeight st.1 e := by
  cases h : takeEntry pool isReady medianWeight alreadyGeneratedCoins version maxTotalWeight st.1 e with
  | none => rw [fillStepHashes_of_none h, fillStep, h, Option.getD_none]
  | some s => rw [fillStepHashes_of_some h, fillStep, h, Option.getD_some]

theorem foldl_fillStepHashes_fst (l : List (SortedEntry η)) (st : FillState κ × List η) :
    (l.foldl (fillStepHashes pool isReady medianWeight alreadyGeneratedCoins version maxTotalWeight)
      st).1 =
      l.foldl (fillStep pool isReady medianWeight alreadyGeneratedCoins version maxTotalWeight) st.1 := by
  induction l generalizing st with
  | nil => rfl
  | cons e l ih => rw [List.foldl_cons, List.foldl_cons, ih, fillStepHashes_fst]

theorem fillBlockTemplate_eq_full (pool : TxMemoryPool η κ) (isReady : η → Bool)
    (medianWeight alreadyGeneratedCoins : UInt64) (version : UInt8) :
    fillBlockTemplate pool isReady medianWeight alreadyGeneratedCoins version =
      ((fillBlockTemplateFull pool isReady medianWeight alreadyGeneratedCoins version).totalWeight,
        (fillBlockTemplateFull pool isReady medianWeight alreadyGeneratedCoins version).fee) := by
  simp only [fillBlockTemplate, fillBlockTemplateFull, foldl_fillStepHashes_fst]

end Loop

def takenTxs (pool : TxMemoryPool η κ) (txHashes : List η) : List (TxpoolTxMeta × PoolTransaction κ) :=
  txHashes.filterMap fun h => getTxpoolTx h pool.txpool

omit [DecidableEq κ] in
theorem takenTxs_append_of_get {pool : TxMemoryPool η κ} {txHashes : List η} {h : η}
    {p : TxpoolTxMeta × PoolTransaction κ} (hget : getTxpoolTx h pool.txpool = some p) :
    takenTxs pool (txHashes ++ [h]) = takenTxs pool txHashes ++ [p] := by
  simp [takenTxs, List.filterMap_append, hget]

theorem mem_foldl_insert {l : List κ} {S : Finset κ} {k : κ} :
    k ∈ l.foldl (fun s i => insert i s) S ↔ k ∈ S ∨ k ∈ l := by
  induction l generalizing S with
  | nil => simp
  | cons x xs ih =>
    simp only [List.foldl_cons, ih, Finset.mem_insert, List.mem_cons, or_assoc, or_left_comm]

/-- Every transaction of the table passed insert_key_images, as add_tx and init require before a
transaction enters the sorted container. -/
def KeyImagesAdmitted (pool : TxMemoryPool η κ) : Prop :=
  ∀ e ∈ pool.txpool, ∃ keptByBlock spent, (insertKeyImages e.1 keptByBlock e.2.2.vin spent).1 = true

/-- What the loop of fill_block_template keeps over the transactions it has taken: each txid
names a pool transaction, none pruned, their key images pairwise disjoint and gathered in
k_images, their weights and fees summed (in uint64_t, as the source adds them) within the
maximum weight, and the best coinbase the reward at that weight plus the fees. -/
structure FillInv (pool : TxMemoryPool η κ) (medianWeight alreadyGeneratedCoins : UInt64)
    (version : UInt8) (maxTotalWeight : UInt64) (st : FillState κ × List η) : Prop where
  resolved : (takenTxs pool st.2).length = st.2.length
  unpruned : ∀ p ∈ takenTxs pool st.2, p.1.pruned = false
  disjoint : ((takenTxs pool st.2).map fun p => keyImagesOf p.2.vin).Pairwise List.Disjoint
  kImages : ∀ k, k ∈ st.1.kImages ↔ ∃ p ∈ takenTxs pool st.2, k ∈ keyImagesOf p.2.vin
  weight_le : st.1.totalWeight ≤ maxTotalWeight
  weight_eq : st.1.totalWeight = ((takenTxs pool st.2).map fun p => p.1.weight).sum
  fee_eq : st.1.fee = ((takenTxs pool st.2).map fun p => p.1.fee).sum
  coinbase : ∃ r, getBlockReward medianWeight st.1.totalWeight alreadyGeneratedCoins version = some r ∧
    st.1.bestCoinbase = r + st.1.fee

omit [DecidableEq κ] in
theorem fillInv_init (pool : TxMemoryPool η κ) (medianWeight alreadyGeneratedCoins : UInt64)
    (version : UInt8) (maxTotalWeight : UInt64) :
    FillInv pool medianWeight alreadyGeneratedCoins version maxTotalWeight
      (⟨0, 0, (getBlockReward medianWeight 0 alreadyGeneratedCoins version).getD 0, ∅⟩, []) where
  resolved := rfl
  unpruned := by simp [takenTxs]
  disjoint := by simp [takenTxs]
  kImages := by simp [takenTxs]
  weight_le := UInt64.zero_le
  weight_eq := rfl
  fee_eq := rfl
  coinbase := by
    have hempty := @getBlockReward_of_le medianWeight 0 alreadyGeneratedCoins version UInt64.zero_le
    refine ⟨baseReward alreadyGeneratedCoins version, hempty, ?_⟩
    show (getBlockReward medianWeight 0 alreadyGeneratedCoins version).getD 0 =
      baseReward alreadyGeneratedCoins version + 0
    rw [hempty, Option.getD_some, add_zero]

theorem FillInv.fillStepHashes {pool : TxMemoryPool η κ} {isReady : η → Bool}
    {medianWeight alreadyGeneratedCoins maxTotalWeight : UInt64} {version : UInt8}
    {st : FillState κ × List η} (hadmitted : KeyImagesAdmitted pool)
    (hinv : FillInv pool medianWeight alreadyGeneratedCoins version maxTotalWeight st)
    (e : SortedEntry η) :
    FillInv pool medianWeight alreadyGeneratedCoins version maxTotalWeight
      (Emission.fillStepHashes pool isReady medianWeight alreadyGeneratedCoins version maxTotalWeight
        st e) := by
  cases htake : takeEntry pool isReady medianWeight alreadyGeneratedCoins version maxTotalWeight
    st.1 e with
  | none =>
    rw [fillStepHashes_of_none htake]
    exact hinv
  | some s =>
    rw [fillStepHashes_of_some htake]
    obtain ⟨txMeta, tx, r, hget, hpruned, hfits, hreward, -, -, hseen, rfl⟩ :=
      takeEntry_eq_some_iff.mp htake
    obtain ⟨keptByBlock, spent, hins⟩ := hadmitted _ (mem_of_getTxpoolTx hget)
    obtain ⟨hvin, hnodup, -⟩ := inputs_of_insertKeyImages hins
    have hfresh := (haveKeyImages_eq_false_iff hvin).mp hseen
    have htaken : takenTxs pool (st.2 ++ [e.txid]) = takenTxs pool st.2 ++ [(txMeta, tx)] :=
      takenTxs_append_of_get hget
    refine ⟨?_, ?_, ?_, ?_, hfits, ?_, ?_, ⟨r, hreward, ?_⟩⟩
    · simp only [htaken, List.length_append, hinv.resolved, List.length_singleton]
    · intro p hp
      rw [htaken, List.mem_append, List.mem_singleton] at hp
      rcases hp with hp | rfl
      · exact hinv.unpruned p hp
      · exact hpruned
    · rw [htaken, List.map_append, List.map_singleton, List.pairwise_append]
      refine ⟨hinv.disjoint, List.pairwise_singleton _ _, ?_⟩
      intro a ha b hb k hka hkb
      rw [List.mem_singleton] at hb
      subst hb
      obtain ⟨p, hp, rfl⟩ := List.mem_map.mp ha
      exact hfresh k hkb ((hinv.kImages k).mpr ⟨p, hp, hka⟩)
    · intro k
      simp only [appendKeyImages_snd_of_fresh hvin hnodup hfresh, mem_foldl_insert, hinv.kImages k,
        htaken, List.mem_append, List.mem_singleton]
      constructor
      · rintro (⟨p, hp, hk⟩ | hk)
        · exact ⟨p, .inl hp, hk⟩
        · exact ⟨(txMeta, tx), .inr rfl, hk⟩
      · rintro ⟨p, hp | rfl, hk⟩
        · exact .inl ⟨p, hp, hk⟩
        · exact .inr hk
    · simp [htaken, List.sum_append, hinv.weight_eq]
    · simp [htaken, List.sum_append, hinv.fee_eq]
    · rw [add_assoc]

theorem fillInv_foldl {pool : TxMemoryPool η κ} {isReady : η → Bool}
    {medianWeight alreadyGeneratedCoins maxTotalWeight : UInt64} {version : UInt8}
    (hadmitted : KeyImagesAdmitted pool) (l : List (SortedEntry η)) {st : FillState κ × List η}
    (hinv : FillInv pool medianWeight alreadyGeneratedCoins version maxTotalWeight st) :
    FillInv pool medianWeight alreadyGeneratedCoins version maxTotalWeight
      (l.foldl (fillStepHashes pool isReady medianWeight alreadyGeneratedCoins version maxTotalWeight)
        st) := by
  induction l generalizing st with
  | nil => exact hinv
  | cons e l ih => exact ih (hinv.fillStepHashes hadmitted e)

omit [DecidableEq κ] in
theorem getTxpoolTx_map_range {n i : Nat} (g : Nat → TxpoolTxMeta × PoolTransaction κ) (hi : i < n) :
    getTxpoolTx i ((List.range n).map fun j => (j, g j)) = some (g i) := by
  have hfind : (List.range n).find? (· == i) = some i :=
    List.find?_range_eq_some.mpr ⟨beq_self_eq_true i, List.mem_range.mpr hi,
      fun j hj => by simpa using Nat.ne_of_lt hj⟩
  simp only [getTxpoolTx, List.find?_map, Function.comp_def, hfind, Option.map_some]

def FillState.TookFlat (s : FillState Nat) (k w f b : Nat) : Prop :=
  s.totalWeight.toNat = k * w ∧ s.fee.toNat = k * f ∧ s.bestCoinbase.toNat = b + k * f ∧
    s.kImages = Finset.range k

section Flat

/-! A pool of n transactions of weight w and fee f, the i-th spending key image i, where n of them
still fit within the median: fill_block_template takes them one after another. -/

variable {pool : TxMemoryPool Nat Nat} {isReady : Nat → Bool}
  {medianWeight alreadyGeneratedCoins maxTotalWeight : UInt64} {version : UInt8}
  {g : Nat → TxpoolTxMeta × PoolTransaction Nat} {entry : Nat → SortedEntry Nat} {n w f : Nat}
  (htable : ∀ i < n, getTxpoolTx i pool.txpool = some (g i))
  (hentry : ∀ i, (entry i).txid = i)
  (hmeta : ∀ i < n, (g i).1.pruned = false ∧ (g i).1.weight.toNat = w ∧ (g i).1.fee.toNat = f ∧
    (g i).2.vin.all TxIn.isToKey = true ∧ keyImagesOf (g i).2.vin = [i])
  (hready : ∀ i < n, isReady i = true)
  (hmedian : n * w ≤ medianWeight.toNat) (hmax : n * w ≤ maxTotalWeight.toNat)
  (hslack : ((baseReward alreadyGeneratedCoins version).toNat + n * f) / 2 ^ 23 ≤ f)
  (hbound : (baseReward alreadyGeneratedCoins version).toNat + n * f < 2 ^ 64)
include htable hentry hmeta hready hmedian hmax hslack hbound

theorem FillState.TookFlat.fillStep {s : FillState Nat} {k : Nat}
    (hs : s.TookFlat k w f (baseReward alreadyGeneratedCoins version).toNat) (hk : k < n) :
    (Emission.fillStep pool isReady medianWeight alreadyGeneratedCoins version maxTotalWeight s
      (entry k)).TookFlat (k + 1) w f (baseReward alreadyGeneratedCoins version).toNat := by
  obtain ⟨hw, hf, hb, hi⟩ := hs
  obtain ⟨hpruned, hweight, hfee, hvin, hkeys⟩ := hmeta k hk
  have hkw : (k + 1) * w ≤ n * w := Nat.mul_le_mul_right _ hk
  have hkf : (k + 1) * f ≤ n * f := Nat.mul_le_mul_right _ hk
  have hsw : (k + 1) * w = k * w + w := Nat.succ_mul k w
  have hsf : (k + 1) * f = k * f + f := Nat.succ_mul k f
  have hm : medianWeight.toNat < 2 ^ 64 := medianWeight.toNat_lt_size
  have hwt : (s.totalWeight + (g k).1.weight).toNat = (k + 1) * w := by
    rw [UInt64.toNat_add, hw, hweight, Nat.mod_eq_of_lt (by omega), hsw]
  have hcb : (baseReward alreadyGeneratedCoins version + s.fee + (g k).1.fee).toNat =
      (baseReward alreadyGeneratedCoins version).toNat + (k + 1) * f := by
    rw [UInt64.toNat_add, UInt64.toNat_add, hf, hfee, Nat.mod_eq_of_lt (by omega),
      Nat.mod_eq_of_lt (by omega), hsf, Nat.add_assoc]
  have hround : (templateAcceptThreshold s.bestCoinbase).toNat ≤
      (baseReward alreadyGeneratedCoins version).toNat + (k + 1) * f := by
    have hdiv : s.bestCoinbase.toNat / 2 ^ 23 ≤ f :=
      le_trans (Nat.div_le_div_right (by rw [hb]; omega)) hslack
    have := toNat_float32Round_le s.bestCoinbase
    rw [templateAcceptThreshold]
    omega
  have hreward := getBlockReward_of_le alreadyGeneratedCoins version
    (UInt64.le_iff_toNat_le.mpr (by rw [hwt]; omega) :
      s.totalWeight + (g k).1.weight ≤ medianWeight)
  have hfresh : ∀ x ∈ keyImagesOf (g k).2.vin, x ∉ s.kImages := by
    simp [hkeys, hi]
  rw [fillStep_of_take (by rw [hentry, htable k hk]) hpruned
    (UInt64.le_iff_toNat_le.mpr (by rw [hwt]; omega)) hreward
    (UInt64.le_iff_toNat_le.mpr (by rw [hcb]; exact hround)) (by rw [hentry]; exact hready k hk)
    hvin (by simp [hkeys]) hfresh]
  refine ⟨hwt, ?_, hcb, ?_⟩
  · rw [UInt64.toNat_add, hf, hfee, Nat.mod_eq_of_lt (by omega), hsf]
  · simp [hkeys, hi, Finset.range_add_one]

theorem tookFlat_foldl_fillStep {k : Nat} (hk : k ≤ n) :
    (((List.range k).map entry).foldl
      (Emission.fillStep pool isReady medianWeight alreadyGeneratedCoins version maxTotalWeight)
      ⟨0, 0, baseReward alreadyGeneratedCoins version, ∅⟩).TookFlat k w f
      (baseReward alreadyGeneratedCoins version).toNat := by
  induction k with
  | zero => simp [FillState.TookFlat]
  | succ k ih =>
    rw [List.range_succ, List.map_append, List.foldl_append, List.map_singleton, List.foldl_cons,
      List.foldl_nil]
    exact (ih (by omega)).fillStep htable hentry hmeta hready hmedian hmax hslack hbound (by omega)

end Flat

/-- create_block_template on the main chain: the amounts of the miner transaction, the block's
cumulative weight, and the fees. The loop of the source pads the miner transaction until the
block weighs txs_weight plus the weight of the miner transaction, given here as
coinbaseWeight. -/
def createBlockTemplate (blockWeights longTermBlockWeights : List UInt64)
    (alreadyGeneratedCoins : UInt64) (version : UInt8) (nettype : NetworkType)
    (pool : TxMemoryPool η κ) (isReady : η → Bool) (coinbaseWeight : UInt64) :
    Option (List UInt64 × UInt64 × UInt64) := do
  let height := blockWeights.length.toUInt64
  let medianWeight := (updateNextCumulativeWeightLimit blockWeights longTermBlockWeights version).2 / 2
  let (txsWeight, fee) := fillBlockTemplate pool isReady medianWeight alreadyGeneratedCoins version
  let cumulativeWeight := txsWeight + coinbaseWeight
  let vout ← constructMinerTx height medianWeight alreadyGeneratedCoins cumulativeWeight fee version nettype
  return (vout, cumulativeWeight, fee)

theorem createBlockTemplate_eq {blockWeights longTermBlockWeights : List UInt64}
    {alreadyGeneratedCoins coinbaseWeight txsWeight fee : UInt64} {version : UInt8}
    {nettype : NetworkType} {pool : TxMemoryPool η κ} {isReady : η → Bool}
    (hfill : fillBlockTemplate pool isReady
      ((updateNextCumulativeWeightLimit blockWeights longTermBlockWeights version).2 / 2)
      alreadyGeneratedCoins version = (txsWeight, fee)) :
    createBlockTemplate blockWeights longTermBlockWeights alreadyGeneratedCoins version nettype pool
      isReady coinbaseWeight =
      (constructMinerTx blockWeights.length.toUInt64
        ((updateNextCumulativeWeightLimit blockWeights longTermBlockWeights version).2 / 2)
        alreadyGeneratedCoins (txsWeight + coinbaseWeight) fee version nettype).map
        fun vout => (vout, txsWeight + coinbaseWeight, fee) := by
  simp only [createBlockTemplate, hfill]
  cases constructMinerTx _ _ _ _ _ _ _ <;> rfl

/-- A chain after a surge: 235000 light blocks, 204 blocks that double the short-term median
every 51 blocks within the limit in force, and 100 blocks of 20000000. Their long-term weights
are capped at 1.4 times the long-term effective median of 300000. The template is paid from
min(20000000, 50 * 300000) = 15000000 and takes 307 transactions of 49000, past that median,
while validation pays from the short-term median of 20000000 and asks for a governance output
of a tenth of the unpenalised reward. -/
theorem template_fails_governance_check_in_surge :
    let txMeta : Nat → TxpoolTxMeta := fun i =>
      ⟨49000, 1000000, 0, false, i.toUInt64, true, false, false, false⟩
    let tx : Nat → PoolTransaction Nat := fun i => ⟨2, [.toKey 0 i], 0, 1000000, false, 49000⟩
    let blockWeights : List UInt64 := List.replicate 235000 1000 ++ List.replicate 51 2000000 ++
      List.replicate 51 3900000 ++ List.replicate 51 7700000 ++ List.replicate 51 15000000 ++
      List.replicate 100 20000000
    let longTermBlockWeights : List UInt64 :=
      List.replicate 235000 1000 ++ List.replicate 304 420000
    let pool : TxMemoryPool Nat Nat :=
      ⟨(List.range 307).map fun i => (i, txMeta i, tx i),
        (List.range 307).map fun i => ⟨1000000, 49000, i.toUInt64, i⟩,
        fun k => if k < 307 then some {k} else none, 15043000, ∅, 648000000, false⟩
    (updateNextCumulativeWeightLimit blockWeights longTermBlockWeights 16).1 = 15000000 ∧
      (Difficulty.median (getLastNBlocksWeights blockWeights cryptonoteRewardBlocksWindow)).1 =
        20000000 ∧
      createBlockTemplate blockWeights longTermBlockWeights 9500000000000000 16 .mainnet pool
        (fun _ => true) 200 = some ([20047894609, 2193432734], 15043200, 307000000) ∧
      getGovernanceReward blockWeights.length.toUInt64 (baseReward 9500000000000000 16) 16 =
        2193450927 ∧
      validateMinerTransaction [20047894609, 2193432734] 15043200 307000000 9500000000000000 16
        blockWeights.length.toUInt64 blockWeights .mainnet true = none := by
  intro txMeta tx blockWeights longTermBlockWeights pool
  have hlen : blockWeights.length = 235304 := by
    simp only [blockWeights, List.length_append, List.length_replicate]
  have hheight : blockWeights.length.toUInt64 = 235304 := by
    rw [hlen]
    rfl
  have hstm : (Difficulty.median (getLastNBlocksWeights blockWeights cryptonoteRewardBlocksWindow)).1 =
      20000000 := by
    have hlast := getLastNBlocksWeights_append (List.replicate 235000 1000 ++
      List.replicate 51 2000000 ++ List.replicate 51 3900000 ++ List.replicate 51 7700000 ++
      List.replicate 51 15000000) (List.replicate 100 (20000000 : UInt64))
    rw [List.length_replicate] at hlast
    have hmed := Difficulty.median_replicate_append (a := (20000000 : UInt64)) (c := 20000000)
      (p := 100) (q := 0) (by decide) (by decide) (by decide)
    rw [List.replicate_zero, List.append_nil] at hmed
    rw [show getLastNBlocksWeights blockWeights cryptonoteRewardBlocksWindow =
      List.replicate 100 20000000 from hlast, hmed]
  have hblock : blockWeights.getD (blockWeights.length - 1) 0 = 20000000 := by
    rw [hlen, List.getD_append_right _ _ _ _ (by simp only [List.length_append, List.length_replicate]; omega)]
    simp only [List.length_append, List.length_replicate]
    exact List.getD_replicate _ (by omega)
  have hwin : getLongTermBlockWeights longTermBlockWeights
      (blockWeights.length - cryptonoteLongTermBlockWeightWindowSize - 1)
      cryptonoteLongTermBlockWeightWindowSize =
      1000 :: (List.replicate 99696 1000 ++ List.replicate 303 420000) := by
    have hdrop : longTermBlockWeights.drop 135303 =
        List.replicate 99697 1000 ++ List.replicate 304 420000 := by
      rw [List.drop_append_of_le_length (by simp only [List.length_replicate]; omega),
        List.drop_replicate]
    rw [hlen, getLongTermBlockWeights,
      show 235304 - cryptonoteLongTermBlockWeightWindowSize - 1 = 135303 from rfl,
      show cryptonoteLongTermBlockWeightWindowSize = 100000 from rfl, hdrop, List.take_append,
      List.take_replicate, List.take_replicate, List.length_replicate,
      show min 100000 99697 = 99697 from rfl, show min (100000 - 99697) 304 = 303 from rfl,
      List.replicate_succ, List.cons_append]
  have hltm : (Difficulty.median (1000 :: (List.replicate 99696 1000 ++
      List.replicate 303 420000))).1 = 1000 := by
    rw [← List.cons_append, ← List.replicate_succ]
    exact Difficulty.median_replicate_append (by decide) (by omega) (by decide)
  have hnew : (Difficulty.median (420000 :: (List.replicate 99696 1000 ++
      List.replicate 303 420000))).1 = 1000 := by
    rw [Difficulty.median_perm List.perm_middle.symm, ← List.replicate_succ]
    exact Difficulty.median_replicate_append (by decide) (by omega) (by decide)
  have hlimit : (updateNextCumulativeWeightLimit blockWeights longTermBlockWeights 16).1 = 15000000 := by
    rw [updateNextCumulativeWeightLimit_of_long (by decide) (by rw [hlen]; decide) hwin]
    have hconstraint : min (20000000 : UInt64) (max cryptonoteBlockGrantedFullRewardZoneV5 1000 +
        max cryptonoteBlockGrantedFullRewardZoneV5 1000 * 2 / 5) = 420000 := by decide
    simp only [hltm, hblock, hconstraint, hnew, hstm]
    decide
  have hB : baseReward 9500000000000000 16 = 21934509277 := by decide
  let entry : Nat → SortedEntry Nat := fun i => ⟨1000000, 49000, i.toUInt64, i⟩
  have htxs : pool.txsByFeeAndReceiveTime = (List.range 306 ++ [306]).map entry := by
    rw [← List.range_succ]
  have htable : ∀ i < 307, getTxpoolTx i pool.txpool = some (txMeta i, tx i) := fun i hi =>
    getTxpoolTx_map_range (fun j => (txMeta j, tx j)) hi
  have hfill : fillBlockTemplate pool (fun _ => true) 15000000 9500000000000000 16 =
      (15043000, 307000000) := by
    rw [fillBlockTemplate, getBlockReward_of_le _ _ UInt64.zero_le, Option.getD_some, htxs,
      List.map_append, List.foldl_append, List.map_singleton, List.foldl_cons, List.foldl_nil]
    have hflat := @tookFlat_foldl_fillStep pool (fun _ => true) 15000000 9500000000000000
      (2 * 15000000 - cryptonoteCoinbaseBlobReservedSize) 16 (fun j => (txMeta j, tx j)) entry
      306 49000 1000000 (fun i hi => htable i (by omega)) (fun _ => rfl)
      (fun _ _ => ⟨rfl, rfl, rfl, rfl, rfl⟩) (fun _ _ => rfl) (by decide) (by decide) (by rw [hB]; decide)
      (by rw [hB]; decide) 306 le_rfl
    generalize ((List.range 306).map entry).foldl
      (fillStep pool (fun _ => true) 15000000 9500000000000000 16
        (2 * 15000000 - cryptonoteCoinbaseBlobReservedSize))
      ⟨0, 0, baseReward 9500000000000000 16, ∅⟩ = s at hflat ⊢
    obtain ⟨hw, hf, hb, hi⟩ := hflat
    have hw' : s.totalWeight = 14994000 := UInt64.toNat_inj.mp (by rw [hw]; rfl)
    have hf' : s.fee = 306000000 := UInt64.toNat_inj.mp (by rw [hf]; rfl)
    have hb' : s.bestCoinbase = 22240509277 := UInt64.toNat_inj.mp (by rw [hb, hB]; rfl)
    rw [fillStep_of_take (e := entry 306) (r := 21934329024) (htable 306 (by omega)) rfl (by rw [hw']; decide)
      (by rw [hw']; decide) (by rw [hb', hf']; decide) rfl rfl (by simp [tx])
      (by simp [hi, tx]), hw', hf']
    simp only [Prod.mk.injEq]
    constructor <;> decide
  have hmedian : (updateNextCumulativeWeightLimit blockWeights longTermBlockWeights 16).2 / 2 =
      15000000 := by
    rw [updateNextCumulativeWeightLimit_snd, hlimit]
    decide
  have htemplate := @createBlockTemplate_eq Nat Nat _ _ blockWeights longTermBlockWeights
    9500000000000000 200 15043000 307000000 16 .mainnet pool (fun _ => true)
    (show fillBlockTemplate pool (fun _ => true)
      ((updateNextCumulativeWeightLimit blockWeights longTermBlockWeights 16).2 / 2)
      9500000000000000 16 = (15043000, 307000000) by rw [hmedian]; exact hfill)
  refine ⟨hlimit, hstm, ?_, ?_, ?_⟩
  · rw [htemplate, hheight, hmedian]
    decide
  · rw [hheight]
    decide
  · exact @validateMinerTransaction_eq_none_of_governance _ _ _ _ _ _ 21934509277 _ _ _ (by decide)
      (by rw [hstm]; decide) (by rw [hheight]; decide)

end PepePrivate.Emission
