import PepePrivate.Library.Runs

/-! The transfers of wallet2 and their indexes, as process_new_blockchain_entry,
process_new_transaction and detach_blockchain keep them, for a wallet that is neither multisig
nor watch-only. Finding a wallet's outputs in a transaction is abstract: a transaction comes with
the outputs scan_output found for each of its public keys, and with the key images and amounts of
its inputs. The key image of an output is a function of its public key. A call that throws ends
the run. -/

namespace PepePrivate.Wallet

/-- wallet2::hashchain: the ids of the wallet's blocks from offset on. -/
structure Hashchain (β : Type) where
  offset : Nat
  blockchain : List β

namespace Hashchain

variable {β : Type}

def size (c : Hashchain β) : Nat := c.blockchain.length + c.offset

def pushBack (hash : β) (c : Hashchain β) : Hashchain β :=
  { c with blockchain := c.blockchain ++ [hash] }

def crop [Inhabited β] (height : Nat) (c : Hashchain β) : Hashchain β :=
  let n := height - c.offset
  { c with blockchain := c.blockchain.take n ++ List.replicate (n - c.blockchain.length) default }

end Hashchain

/-- The fields of transfer_details that the three functions read or write; pubKey is
get_public_key(), the key of the output m_tx.vout[m_internal_output_index]. -/
structure TransferDetails (π ι σ : Type) where
  blockHeight : UInt64
  pubKey : π
  keyImage : ι
  amount : UInt64
  spent : Bool
  spentHeight : UInt64
  subaddrIndex : σ
  deriving DecidableEq, Repr

structure ReceivedOutput (π σ : Type) where
  index : Nat
  pubKey : π
  voutAmount : UInt64
  amount : UInt64
  subaddrIndex : σ
  deriving DecidableEq, Repr

def ReceivedOutput.outputAmount {π σ : Type} (o : ReceivedOutput π σ) : UInt64 :=
  if o.voutAmount ≠ 0 then o.voutAmount else o.amount

structure ScannedTx (π ι σ : Type) where
  outs : List (List (ReceivedOutput π σ))
  ins : List (ι × UInt64)

inductive RefreshType
  | refreshFull
  | refreshOptimizeCoinbase
  | refreshNoCoinbase
  deriving DecidableEq, Repr

/-- The wallet2 members the three functions read or write. -/
structure Wallet2 (π ι σ β : Type) where
  transfers : List (TransferDetails π ι σ)
  keyImages : ι → Option Nat
  pubKeys : π → Option Nat
  blockchain : Hashchain β
  refreshType : RefreshType
  createTime : UInt64
  refreshFromBlockHeight : UInt64

variable {π ι σ β : Type} [DecidableEq π] [DecidableEq ι] [DecidableEq σ]

/-- One output of the loop over outs in process_new_transaction, with tx_money_got_in_outs. -/
def processReceivedOutput (keyImageOf : π → ι) (height : UInt64) (w : Wallet2 π ι σ β)
    (moneyGot : σ → UInt64) (o : ReceivedOutput π σ) :
    Except String (Wallet2 π ι σ β × (σ → UInt64)) :=
  match w.pubKeys o.pubKey with
  | none =>
    -- a new transfer, unspent, indexed by its key image and its public key
    let td : TransferDetails π ι σ :=
      { blockHeight := height, pubKey := o.pubKey, keyImage := keyImageOf o.pubKey,
        amount := o.outputAmount, spent := false, spentHeight := 0, subaddrIndex := o.subaddrIndex }
    let idx := w.transfers.length
    .ok ({ w with
      transfers := w.transfers ++ [td]
      keyImages := Function.update w.keyImages td.keyImage (some idx)
      pubKeys := Function.update w.pubKeys o.pubKey (some idx) }, moneyGot)
  | some i =>
    match w.transfers[i]? with
    | none => .error "Unexpected transfer index from public key"
    | some td =>
      if td.spent || td.amount ≥ o.amount then
        -- received output ignored
        if moneyGot o.subaddrIndex < o.amount then .error "Unexpected values of new and old outputs"
        else .ok (w, Function.update moneyGot o.subaddrIndex (moneyGot o.subaddrIndex - o.amount))
      else
        -- the new larger output replaced a previous smaller one
        if moneyGot o.subaddrIndex < o.amount then .error "Unexpected values of new and old outputs"
        else if td.amount > o.amount then .error "Unexpected values of new and old outputs"
        else
          let moneyGot :=
            Function.update moneyGot o.subaddrIndex (moneyGot o.subaddrIndex - td.amount)
          -- the checks on the public key and the spent flag that follow hold here: the output's
          -- key is o.pubKey and td is unspent
          let td := { td with
            blockHeight := height, amount := o.outputAmount, subaddrIndex := o.subaddrIndex }
          .ok ({ w with transfers := w.transfers.set i td }, moneyGot)

def scanOutputs (outs : List (ReceivedOutput π σ)) (moneyGot : σ → UInt64) :
    Except String (σ → UInt64) :=
  outs.foldlM (fun moneyGot o =>
    if moneyGot o.subaddrIndex ≥ 18446744073709551615 - o.amount then
      .error "Overflow in received amounts"
    else .ok (Function.update moneyGot o.subaddrIndex (moneyGot o.subaddrIndex + o.amount)))
    moneyGot

def processOutputs (keyImageOf : π → ι) (height : UInt64)
    (acc : Wallet2 π ι σ β × (σ → UInt64)) (outs : List (ReceivedOutput π σ)) :
    Except String (Wallet2 π ι σ β × (σ → UInt64)) := do
  let moneyGot ← scanOutputs outs acc.2
  outs.foldlM (fun acc o => processReceivedOutput keyImageOf height acc.1 acc.2 o) (acc.1, moneyGot)

def processSpentInput (height : UInt64) (w : Wallet2 π ι σ β) (input : ι × UInt64) :
    Except String (Wallet2 π ι σ β) :=
  match w.keyImages input.1 with
  | none => .ok w
  | some i =>
    match w.transfers[i]? with
    | none => .error "Invalid index"
    | some td =>
      let td := if input.2 > 0 ∧ input.2 ≠ td.amount then { td with amount := input.2 } else td
      -- set_spent
      .ok { w with transfers := w.transfers.set i { td with spent := true, spentHeight := height } }

/-- wallet2::process_new_transaction for a transaction in a block. -/
def processNewTransaction (keyImageOf : π → ι) (tx : ScannedTx π ι σ) (height : UInt64)
    (w : Wallet2 π ι σ β) : Except String (Wallet2 π ι σ β) := do
  let (w, _) ← tx.outs.foldlM (processOutputs keyImageOf height) (w, fun _ => 0)
  tx.ins.foldlM (processSpentInput height) w

/-- wallet2::process_new_blockchain_entry: the block's transactions are processed when the block
is not older than a day before the wallet was created and not below the refresh height. -/
def processNewBlockchainEntry (keyImageOf : π → ι) (timestamp : UInt64) (minerTx : ScannedTx π ι σ)
    (txs : List (ScannedTx π ι σ)) (blId : β) (height : UInt64) (w : Wallet2 π ι σ β) :
    Except String (Wallet2 π ι σ β) := do
  let w ← if timestamp + 60 * 60 * 24 > w.createTime ∧ height ≥ w.refreshFromBlockHeight then do
      let w ← if w.refreshType ≠ .refreshNoCoinbase then
          processNewTransaction keyImageOf minerTx height w
        else pure w
      txs.foldlM (fun w tx => processNewTransaction keyImageOf tx height w) w
    else pure w
  pure { w with blockchain := w.blockchain.pushBack blId }

def resetSpent (height : UInt64) (transfers : List (TransferDetails π ι σ)) :
    List (TransferDetails π ι σ) :=
  transfers.map fun td =>
    if td.spent ∧ td.spentHeight ≥ height then { td with spent := false, spentHeight := 0 } else td

/-- wallet2::detach_blockchain: the transfers from the first one at the height or above are
dropped with their key images and public keys, and the chain is cropped to the height. -/
def detachBlockchain [Inhabited β] (height : UInt64) (w : Wallet2 π ι σ β) :
    Except String (Wallet2 π ι σ β) := do
  if height.toNat < w.blockchain.offset ∧ w.blockchain.size > w.blockchain.offset then
    throw "Daemon claims reorg below last checkpoint"
  let transfers := resetSpent height w.transfers
  let iStart := transfers.findIdx (·.blockHeight ≥ height)
  -- every key image is known and none is partial in this wallet
  let keyImages ← (transfers.drop iStart).foldlM (fun keyImages td =>
      match keyImages td.keyImage with
      | none => throw "key image not found"
      | some _ => pure (Function.update keyImages td.keyImage none)) w.keyImages
  let pubKeys ← (transfers.drop iStart).foldlM (fun pubKeys td =>
      match pubKeys td.pubKey with
      | none => throw "public key not found"
      | some _ => pure (Function.update pubKeys td.pubKey none)) w.pubKeys
  pure { w with
    transfers := transfers.take iStart
    keyImages := keyImages
    pubKeys := pubKeys
    blockchain := w.blockchain.crop height.toNat }

/-- The calls of a refresh: a block at the next height, or a reorganisation. -/
inductive Event (π ι σ β : Type) where
  | block (timestamp : UInt64) (minerTx : ScannedTx π ι σ) (txs : List (ScannedTx π ι σ)) (blId : β)
      (height : UInt64)
  | detach (height : UInt64)

def step [Inhabited β] (keyImageOf : π → ι) : Event π ι σ β → Wallet2 π ι σ β →
    Except String (Wallet2 π ι σ β)
  | .block timestamp minerTx txs blId height, w =>
    processNewBlockchainEntry keyImageOf timestamp minerTx txs blId height w
  | .detach height, w => detachBlockchain height w

def run [Inhabited β] (keyImageOf : π → ι) (events : List (Event π ι σ β)) (w : Wallet2 π ι σ β) :
    Except String (Wallet2 π ι σ β) :=
  events.foldlM (fun w e => step keyImageOf e w) w

section Detach

variable [Inhabited β] {height : UInt64} {w w' : Wallet2 π ι σ β}

omit [DecidableEq π] [DecidableEq ι] [DecidableEq σ] in
theorem map_blockHeight_resetSpent (l : List (TransferDetails π ι σ)) :
    (resetSpent height l).map (·.blockHeight) = l.map (·.blockHeight) := by
  induction l with
  | nil => rfl
  | cons td l ih =>
    simp only [resetSpent, List.map_cons, List.map_map] at ih ⊢
    split_ifs <;> simp [ih]

omit [DecidableEq σ] in
theorem detachBlockchain_transfers (h : detachBlockchain height w = .ok w') :
    w'.transfers = (resetSpent height w.transfers).take
      ((resetSpent height w.transfers).findIdx (·.blockHeight ≥ height)) := by
  unfold detachBlockchain at h
  split at h
  · simp [throw, throwThe, MonadExceptOf.throw, bind, Except.bind] at h
  · simp only [Runs.bind_eq_ok, Runs.pure_eq_ok] at h
    obtain ⟨_, -, _, -, rfl⟩ := h
    rfl

omit [DecidableEq σ] in
/-- On transfers sorted by height, a detach keeps exactly those below the height. -/
theorem detachBlockchain_transfers_of_sorted
    (hsorted : w.transfers.Pairwise fun a b => a.blockHeight ≤ b.blockHeight)
    (h : detachBlockchain height w = .ok w') :
    w'.transfers = (resetSpent height w.transfers).filter (·.blockHeight < height) := by
  have hheights : ((resetSpent height w.transfers).map (·.blockHeight)).Pairwise
      fun x y => x.toNat ≤ y.toNat := by
    rw [map_blockHeight_resetSpent, List.pairwise_map]
    exact hsorted.imp UInt64.le_iff_toNat_le.mp
  rw [List.pairwise_map] at hheights
  have hcut := Runs.take_findIdx_eq_filter (fun td : TransferDetails π ι σ => td.blockHeight.toNat)
    height.toNat hheights
  rw [detachBlockchain_transfers h]
  simp only [ge_iff_le, UInt64.le_iff_toNat_le, UInt64.lt_iff_toNat_lt]
  exact hcut

end Detach

def detachExample : Wallet2 Nat Nat Nat Nat :=
  ⟨[⟨0, 1, 101, 5, true, 2, 0⟩, ⟨1, 2, 102, 3, false, 0, 0⟩, ⟨3, 3, 103, 7, false, 0, 0⟩],
    fun k => if 101 ≤ k ∧ k ≤ 103 then some (k - 101) else none,
    fun p => if 1 ≤ p ∧ p ≤ 3 then some (p - 1) else none, ⟨0, [10, 11, 12, 13]⟩, .refreshFull, 0, 0⟩

def detachExampleResult : Wallet2 Nat Nat Nat Nat :=
  { detachExample with
    transfers := [⟨0, 1, 101, 5, false, 0, 0⟩, ⟨1, 2, 102, 3, false, 0, 0⟩]
    keyImages := Function.update detachExample.keyImages 103 none
    pubKeys := Function.update detachExample.pubKeys 3 none
    blockchain := detachExample.blockchain.crop 2 }

theorem detachBlockchain_transfers_of_sorted_example :
    detachExample.transfers.Pairwise (fun a b => a.blockHeight ≤ b.blockHeight) ∧
      detachBlockchain 2 detachExample = .ok detachExampleResult ∧
      detachExampleResult.transfers =
        (resetSpent 2 detachExample.transfers).filter (·.blockHeight < 2) := by
  have hsorted : detachExample.transfers.Pairwise (fun a b => a.blockHeight ≤ b.blockHeight) := by
    decide
  have h : detachBlockchain 2 detachExample = .ok detachExampleResult := rfl
  exact ⟨hsorted, h, detachBlockchain_transfers_of_sorted hsorted h⟩

/-- A wallet receives an output at height 0, another at height 1, and at height 2 a larger output
with the first one's public key, which replaces it and moves it to height 2. The transfers are
then out of height order, and detaching the block at height 2 drops both transfers, though the
block at height 1 stays. -/
theorem detach_drops_transfer_below_height :
    let w₀ : Wallet2 Nat Nat Nat Nat :=
      ⟨[], fun _ => none, fun _ => none, ⟨0, []⟩, .refreshFull, 0, 0⟩
    let received (pub : Nat) (amount : UInt64) : ScannedTx Nat Nat Nat := ⟨[[⟨0, pub, 0, amount, 0⟩]], []⟩
    let blocks : List (Event Nat Nat Nat Nat) :=
      [.block 0 ⟨[], []⟩ [received 1 5] 10 0, .block 0 ⟨[], []⟩ [received 2 3] 11 1,
        .block 0 ⟨[], []⟩ [received 1 7] 12 2]
    (run (· + 100) blocks w₀).toOption.map
        (fun w => (w.transfers.map fun td => (td.pubKey, td.blockHeight), w.blockchain.size)) =
        some ([(1, 2), (2, 1)], 3) ∧
      (run (· + 100) (blocks ++ [.detach 2]) w₀).toOption.map
        (fun w => (w.transfers, w.blockchain.size)) = some ([], 2) := by
  decide

end PepePrivate.Wallet
