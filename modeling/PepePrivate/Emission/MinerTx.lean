import PepePrivate.Emission.Coins
import PepePrivate.Difficulty.Timestamp

/-! validate_miner_transaction of blockchain.cpp, and the coins the two paths of a block store.
On the main chain, handle_block_to_main_chain adds the base reward validate_miner_transaction
returns, which from height 2 is the miner transaction's outputs less the fees of the block's
transactions. On an alternative chain, handle_alternative_block adds the miner transaction's
outputs, fees included. The key of the governance output is a curve point derived from the
height; whether it is the right one is an input here. -/

namespace PepePrivate.Emission

inductive NetworkType
  | mainnet
  | testnet
  | stagenet
  | fakechain
  | undefined
  deriving DecidableEq, Repr

def cryptonoteRewardBlocksWindow : Nat := 100

/-- get_outs_money_amount, and the money_in_use loop: the outputs' amounts, added as uint64_t. -/
def getOutsMoneyAmount (vout : List UInt64) : UInt64 := vout.foldl (· + ·) 0

/-- get_governance_reward. -/
def getGovernanceReward (height baseReward : UInt64) (hfVersion : UInt8) : UInt64 :=
  if hfVersion ≥ 16 then baseReward * 10 / 100 else 0

/-- get_last_n_blocks_weights over the weights of the whole chain. -/
def getLastNBlocksWeights (blockWeights : List UInt64) (count : Nat) : List UInt64 :=
  blockWeights.drop (blockWeights.length - count)

theorem getLastNBlocksWeights_append (l r : List UInt64) :
    getLastNBlocksWeights (l ++ r) r.length = r := by
  rw [getLastNBlocksWeights, List.length_append, Nat.add_sub_cancel]
  exact List.drop_left' rfl

def governanceOk (vout : List UInt64) (height baseReward : UInt64) (version : UInt8)
    (nettype : NetworkType) (governanceKeyValid : Bool) : Bool :=
  if version ≥ 16 then
    vout.getLast?.getD 0 == getGovernanceReward height baseReward version &&
      (nettype == .stagenet || nettype == .testnet || nettype == .mainnet) && governanceKeyValid
  else true

/-- validate_miner_transaction for a block whose miner transaction has outputs vout, at
height = m_db->height(): the base reward it leaves and partial_block_reward, or none where it
returns false. -/
def validateMinerTransaction (vout : List UInt64) (cumulativeBlockWeight fee alreadyGeneratedCoins : UInt64)
    (version : UInt8) (height : UInt64) (blockWeights : List UInt64) (nettype : NetworkType)
    (governanceKeyValid : Bool) : Option (UInt64 × Bool) :=
  let moneyInUse := getOutsMoneyAmount vout
  let lastBlocksWeights := getLastNBlocksWeights blockWeights cryptonoteRewardBlocksWindow
  match getBlockReward (Difficulty.median lastBlocksWeights).1 cumulativeBlockWeight
      alreadyGeneratedCoins version with
  | none => none
  | some baseReward =>
    if !governanceOk vout height baseReward version nettype governanceKeyValid then none
    else if height = 1 then some (moneyPremine, false)
    else if height > 1 ∧ baseReward + fee < moneyInUse then none
    -- CHECK_AND_ASSERT_MES(money_in_use - fee <= base_reward, ...)
    else if ¬(moneyInUse - fee ≤ baseReward) then none
    else some (moneyInUse - fee, baseReward + fee ≠ moneyInUse)

theorem validateMinerTransaction_eq_none_of_governance {vout blockWeights : List UInt64}
    {cumulativeBlockWeight fee alreadyGeneratedCoins height baseReward : UInt64} {version : UInt8}
    {nettype : NetworkType} {governanceKeyValid : Bool} (hversion : 16 ≤ version)
    (hreward : getBlockReward (Difficulty.median (getLastNBlocksWeights blockWeights
      cryptonoteRewardBlocksWindow)).1 cumulativeBlockWeight alreadyGeneratedCoins version =
      some baseReward)
    (hgov : vout.getLast?.getD 0 ≠ getGovernanceReward height baseReward version) :
    validateMinerTransaction vout cumulativeBlockWeight fee alreadyGeneratedCoins version height
      blockWeights nettype governanceKeyValid = none := by
  have hok : governanceOk vout height baseReward version nettype governanceKeyValid = false := by
    simp [governanceOk, hversion, hgov]
  simp only [validateMinerTransaction, hreward, hok, Bool.not_false, ↓reduceIte]

theorem validateMinerTransaction_baseReward {vout blockWeights : List UInt64}
    {cumulativeBlockWeight fee alreadyGeneratedCoins height baseReward : UInt64} {version : UInt8}
    {nettype : NetworkType} {governanceKeyValid partialBlockReward : Bool} (hheight : 1 < height)
    (h : validateMinerTransaction vout cumulativeBlockWeight fee alreadyGeneratedCoins version height
      blockWeights nettype governanceKeyValid = some (baseReward, partialBlockReward)) :
    baseReward = getOutsMoneyAmount vout - fee := by
  have hne : height ≠ 1 := by
    rintro rfl
    exact absurd hheight (by decide)
  simp only [validateMinerTransaction] at h
  split at h
  · cases h
  · split_ifs at h
    cases h
    rfl

/-- The coins a block stores on the main chain and as an alternative block, when it is
accepted at a height from 2 on a chain whose last stored coins are prev = main's last entry:
away from the cap, the alternative block stores the fees on top. -/
theorem alt_block_coins_include_fees {main vout blockWeights : List UInt64}
    {height cumulativeBlockWeight fee baseReward : UInt64} {version : UInt8}
    {nettype : NetworkType} {governanceKeyValid partialBlockReward : Bool}
    (hlen : main.length = height.toNat) (hheight : 2 ≤ height.toNat)
    (hvalid : validateMinerTransaction vout cumulativeBlockWeight fee (main.getD (main.length - 1) 0)
      version height blockWeights nettype governanceKeyValid = some (baseReward, partialBlockReward))
    (hpaid : fee ≤ getOutsMoneyAmount vout)
    (hroom : (main.getD (main.length - 1) 0).toNat + (getOutsMoneyAmount vout).toNat <
      moneySupply.toNat) :
    (altBlockGeneratedCoins (main.getD (main.length - 1) 0) (getOutsMoneyAmount vout)).toNat =
      (mainBlockGeneratedCoins main baseReward).toNat + fee.toNat := by
  have hbase := validateMinerTransaction_baseReward
    (UInt64.lt_iff_toNat_lt.mpr (by simp only [UInt64.toNat_one]; omega)) hvalid
  have hsub : (getOutsMoneyAmount vout - fee).toNat = (getOutsMoneyAmount vout).toNat - fee.toNat :=
    UInt64.toNat_sub_of_le _ _ hpaid
  have hfee := UInt64.le_iff_toNat_le.mp hpaid
  have hmain : main.length ≠ 0 := by omega
  rw [altBlockGeneratedCoins, toNat_capGeneratedCoins_of_lt hroom, mainBlockGeneratedCoins,
    if_pos hmain, hbase, toNat_capGeneratedCoins_of_lt (by rw [hsub]; omega), hsub]
  omega

theorem alt_block_coins_include_fees_at_two :
    let main : List UInt64 := [0, moneyPremine]
    let vout : List UInt64 := [34333275390]
    main.length = (2 : UInt64).toNat ∧ 2 ≤ (2 : UInt64).toNat ∧
      validateMinerTransaction vout 1000 1000000 (main.getD (main.length - 1) 0) 15 2 [0, 0]
        .mainnet false = some (34332275390, false) ∧
      1000000 ≤ getOutsMoneyAmount vout ∧
      (main.getD (main.length - 1) 0).toNat + (getOutsMoneyAmount vout).toNat <
        moneySupply.toNat ∧
      (altBlockGeneratedCoins (main.getD (main.length - 1) 0) (getOutsMoneyAmount vout)).toNat =
        (mainBlockGeneratedCoins main 34332275390).toNat + (1000000 : UInt64).toNat :=
  ⟨rfl, by decide, by decide, by decide, by decide,
    @alt_block_coins_include_fees [0, moneyPremine] [34333275390] [0, 0] 2 1000 1000000
      34332275390 15 .mainnet false false rfl (by decide) (by decide) (by decide) (by decide)⟩

/-! ## The outputs as the block has them

The governance checks read vout.back() and take its key with boost::get<txout_to_key>. On a miner
transaction without outputs back() is undefined behaviour, and on a last output of another
target boost::get throws; prevalidate_miner_transaction, the only check before, reads the
inputs, the unlock time and the sum of the amounts. -/

def arqmaBlockUnlockConfirmations : UInt64 := 18

inductive TxinV
  | gen (height : UInt64)
  | toScript
  | toScripthash
  | toKey
  deriving DecidableEq, Repr

inductive TxoutTarget (κ : Type)
  | toScript
  | toScripthash
  | toKey (key : κ)
  deriving DecidableEq, Repr

structure TxOut (κ : Type) where
  amount : UInt64
  target : TxoutTarget κ
  deriving DecidableEq, Repr

/-- The fields of a miner transaction that the checks read. -/
structure MinerTransaction (κ : Type) where
  vin : List TxinV
  unlockTime : UInt64
  vout : List (TxOut κ)

inductive MinerTxFault
  | backOfEmpty
  | badGet
  deriving DecidableEq, Repr

variable {κ : Type}

/-- check_outs_overflow: the running sum of the amounts never wraps; a wrap returns false. -/
def checkOutsOverflow (vout : List (TxOut κ)) : Bool :=
  (vout.foldlM (fun (money : UInt64) o =>
    if money > o.amount + money then none else some (money + o.amount)) 0).isSome

/-- prevalidate_miner_transaction. -/
def prevalidateMinerTransaction (tx : MinerTransaction κ) (height : UInt64) : Bool :=
  if tx.vin.length ≠ 1 then false
  else match tx.vin.head? with
    | some (.gen h) =>
      if h ≠ height then false
      else if tx.unlockTime ≠ height + arqmaBlockUnlockConfirmations then false
      else checkOutsOverflow tx.vout
    | _ => false

/-- validate_miner_transaction on the outputs themselves: the governance checks from version 16
read the last output and the key of its target; validateGovernanceRewardKey is
validate_governance_reward_key at this height, network and output index. -/
def validateMinerTransactionOuts (vout : List (TxOut κ))
    (cumulativeBlockWeight fee alreadyGeneratedCoins : UInt64) (version : UInt8) (height : UInt64)
    (blockWeights : List UInt64) (nettype : NetworkType) (validateGovernanceRewardKey : κ → Bool) :
    Except MinerTxFault (Option (UInt64 × Bool)) :=
  let moneyInUse := getOutsMoneyAmount (vout.map (·.amount))
  let lastBlocksWeights := getLastNBlocksWeights blockWeights cryptonoteRewardBlocksWindow
  match getBlockReward (Difficulty.median lastBlocksWeights).1 cumulativeBlockWeight
      alreadyGeneratedCoins version with
  | none => .ok none
  | some baseReward =>
    -- the checks after the governance block
    let rest : Option (UInt64 × Bool) :=
      if height = 1 then some (moneyPremine, false)
      else if height > 1 ∧ baseReward + fee < moneyInUse then none
      else if ¬(moneyInUse - fee ≤ baseReward) then none
      else some (moneyInUse - fee, baseReward + fee ≠ moneyInUse)
    if version ≥ 16 then
      match vout.getLast? with
      | none => .error .backOfEmpty
      | some back =>
        if back.amount ≠ getGovernanceReward height baseReward version then .ok none
        else if ¬(nettype = .stagenet ∨ nettype = .testnet ∨ nettype = .mainnet) then .ok none
        else match back.target with
          | .toKey key => if validateGovernanceRewardKey key then .ok rest else .ok none
          | _ => .error .badGet
    else .ok rest

/-- The miner transaction steps of handle_block_to_main_chain for a block at height (the chain's
height before it): prevalidate_miner_transaction, then validate_miner_transaction at the current
hard fork version with the block's cumulative weight and fees; a failed step rejects the block. -/
def handleBlockToMainChainMinerTx (tx : MinerTransaction κ) (height cumulativeBlockWeight feeSummary
    alreadyGeneratedCoins : UInt64) (version : UInt8) (blockWeights : List UInt64)
    (nettype : NetworkType) (validateGovernanceRewardKey : κ → Bool) :
    Except MinerTxFault (Option (UInt64 × Bool)) :=
  if !prevalidateMinerTransaction tx height then .ok none
  else validateMinerTransactionOuts tx.vout cumulativeBlockWeight feeSummary alreadyGeneratedCoins
    version height blockWeights nettype validateGovernanceRewardKey

theorem prevalidateMinerTransaction_gen (height : UInt64) (vout : List (TxOut κ)) :
    prevalidateMinerTransaction ⟨[.gen height], height + arqmaBlockUnlockConfirmations, vout⟩ height =
      checkOutsOverflow vout := by
  simp [prevalidateMinerTransaction]

theorem checkOutsOverflow_singleton (o : TxOut κ) : checkOutsOverflow [o] = true := by
  simp [checkOutsOverflow]

/-- From version 16, a block whose miner transaction passes prevalidation and the reward check
makes handle_block_to_main_chain read back() of an empty vout when the miner transaction has no
outputs, and throw from boost::get when its only output pays the governance reward to a script. -/
theorem handleBlockToMainChainMinerTx_faults {height cumulativeBlockWeight feeSummary
    alreadyGeneratedCoins baseReward : UInt64} {version : UInt8} {blockWeights : List UInt64}
    {nettype : NetworkType} {validateGovernanceRewardKey : κ → Bool} (hversion : 16 ≤ version)
    (hreward : getBlockReward (Difficulty.median (getLastNBlocksWeights blockWeights
      cryptonoteRewardBlocksWindow)).1 cumulativeBlockWeight alreadyGeneratedCoins version =
      some baseReward) :
    handleBlockToMainChainMinerTx ⟨[.gen height], height + arqmaBlockUnlockConfirmations, []⟩ height
        cumulativeBlockWeight feeSummary alreadyGeneratedCoins version blockWeights nettype
        validateGovernanceRewardKey = .error .backOfEmpty ∧
      (nettype = .stagenet ∨ nettype = .testnet ∨ nettype = .mainnet →
        handleBlockToMainChainMinerTx ⟨[.gen height], height + arqmaBlockUnlockConfirmations,
            [⟨getGovernanceReward height baseReward version, .toScript⟩]⟩ height
          cumulativeBlockWeight feeSummary alreadyGeneratedCoins version blockWeights nettype
          validateGovernanceRewardKey = .error .badGet) := by
  have hv : version ≥ 16 := hversion
  refine ⟨?_, fun hn => ?_⟩
  · rw [handleBlockToMainChainMinerTx, prevalidateMinerTransaction_gen]
    simp [checkOutsOverflow, validateMinerTransactionOuts, hreward, hv]
  · rw [handleBlockToMainChainMinerTx, prevalidateMinerTransaction_gen, checkOutsOverflow_singleton]
    simp [validateMinerTransactionOuts, hreward, hv, hn]

theorem handleBlockToMainChainMinerTx_faults_at_ten :
    16 ≤ (16 : UInt8) ∧
      getBlockReward (Difficulty.median (getLastNBlocksWeights [] cryptonoteRewardBlocksWindow)).1
        100 0 16 = some 40054321289 ∧
      (handleBlockToMainChainMinerTx (κ := Nat) ⟨[.gen 10], 10 + arqmaBlockUnlockConfirmations, []⟩
          10 100 0 0 16 [] .mainnet (fun _ => true) = .error .backOfEmpty ∧
        (NetworkType.mainnet = .stagenet ∨ NetworkType.mainnet = .testnet ∨
            NetworkType.mainnet = .mainnet →
          handleBlockToMainChainMinerTx (κ := Nat) ⟨[.gen 10], 10 + arqmaBlockUnlockConfirmations,
              [⟨getGovernanceReward 10 40054321289 16, .toScript⟩]⟩ 10 100 0 0 16 [] .mainnet
            (fun _ => true) = .error .badGet)) := by
  have hreward : getBlockReward (Difficulty.median (getLastNBlocksWeights []
      cryptonoteRewardBlocksWindow)).1 100 0 16 = some 40054321289 := by decide
  exact ⟨by decide, hreward, handleBlockToMainChainMinerTx_faults (by decide) hreward⟩

end PepePrivate.Emission
