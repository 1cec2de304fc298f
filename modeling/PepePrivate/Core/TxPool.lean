import Mathlib

/-! The transaction pool of cryptonote_core/tx_pool.cpp: the txpool table of the database, which
holds each transaction's meta and blob, and three in-memory indexes built beside it, the txids
sorted by fee per weight and receive time, the pool txids spending each key image, and the
total weight. The database calls of one operation run inside a LockedTXN, which joins a batch
the caller holds or else starts one and aborts it unless committed. The verdicts of the
blockchain (fee, outputs, inputs, presence in a block) are inputs. -/

namespace PepePrivate.Core

inductive TxIn (κ : Type) where
  | gen
  | toKey (amount : UInt64) (kImage : κ)
  deriving DecidableEq, Repr

/-- The parts of a transaction the pool reads; a blob parses back to it, and blobWeight is
get_transaction_weight(tx, blob.size()). -/
structure PoolTransaction (κ : Type) where
  version : Nat
  vin : List (TxIn κ)
  outsAmount : UInt64
  txnFee : UInt64
  pruned : Bool
  blobWeight : UInt64
  deriving DecidableEq, Repr

structure TxpoolTxMeta where
  weight : UInt64
  fee : UInt64
  maxUsedBlockHeight : UInt64
  keptByBlock : Bool
  receiveTime : UInt64
  relayed : Bool
  doNotRelay : Bool
  doubleSpendSeen : Bool
  pruned : Bool
  deriving DecidableEq, Repr

structure SortedEntry (η : Type) where
  fee : UInt64
  divisor : UInt64
  receiveTime : UInt64
  txid : η
  deriving DecidableEq, Repr

/-- What the blockchain answers the pool. -/
structure ChainView (η κ : Type) where
  checkFee : UInt64 → UInt64 → Bool
  checkTxOutputs : PoolTransaction κ → Bool
  /-- The hard-fork version Blockchain::check_tx_inputs reads. -/
  hfVersion : UInt8
  /-- The checks of Blockchain::check_tx_inputs other than the order of the inputs, with
  max_used_block_height where they pass. -/
  checkTxInputsRest : PoolTransaction κ → Bool → Option UInt64
  haveTx : η → Bool

structure TxMemoryPool (η κ : Type) where
  /-- The txpool table: txid, meta and the transaction its blob holds. -/
  txpool : List (η × TxpoolTxMeta × PoolTransaction κ)
  txsByFeeAndReceiveTime : List (SortedEntry η)
  spentKeyImages : κ → Option (Finset η)
  txpoolWeight : UInt64
  timedOutTransactions : Finset η
  txpoolMaxWeight : UInt64
  /-- A database batch held by the caller, which every LockedTXN joins. -/
  batchActive : Bool

variable {η κ : Type} [DecidableEq η] [DecidableEq κ]

def TxIn.isToKey : TxIn κ → Bool
  | .toKey _ _ => true
  | .gen => false

def checkInputsTypesSupported (tx : PoolTransaction κ) : Bool :=
  tx.vin.all TxIn.isToKey

def getInputsMoneyAmount (tx : PoolTransaction κ) : Option UInt64 :=
  tx.vin.foldlM (fun money input => match input with
    | .toKey amount _ => some (money + amount)
    | .gen => none) 0

def transactionSizeLimit : UInt64 := 48 * 1024

def getTransactionWeightLimit (version : UInt8) : UInt64 :=
  if version > 12 then transactionSizeLimit else transactionSizeLimit * 4

def txCompare (a b : SortedEntry η) : Bool :=
  if a.fee.toNat * b.divisor.toNat > b.fee.toNat * a.divisor.toNat then true
  else if a.fee.toNat * b.divisor.toNat < b.fee.toNat * a.divisor.toNat then false
  else if a.receiveTime < b.receiveTime then true
  else if a.receiveTime > b.receiveTime then false
  else a.txid != b.txid

def emplaceSorted (e : SortedEntry η) : List (SortedEntry η) → List (SortedEntry η)
  | [] => [e]
  | x :: xs =>
    if txCompare e x then e :: x :: xs
    else if txCompare x e then x :: emplaceSorted e xs
    else x :: xs

def eraseSorted (id : η) (sorted : List (SortedEntry η)) : List (SortedEntry η) :=
  match sorted.findIdx? (·.txid == id) with
  | none => sorted
  | some i => sorted.eraseIdx i

section Database

def getTxpoolTx (id : η) (table : List (η × TxpoolTxMeta × PoolTransaction κ)) :
    Option (TxpoolTxMeta × PoolTransaction κ) :=
  (table.find? (·.1 == id)).map (·.2)

omit [DecidableEq κ] in
theorem mem_of_getTxpoolTx {id : η} {table : List (η × TxpoolTxMeta × PoolTransaction κ)}
    {p : TxpoolTxMeta × PoolTransaction κ} (h : getTxpoolTx id table = some p) : (id, p) ∈ table := by
  obtain ⟨x, hx, rfl⟩ := Option.map_eq_some_iff.mp h
  have hid : x.1 = id := by simpa using List.find?_some hx
  rw [← hid]
  exact List.mem_of_find?_eq_some hx

def addTxpoolTx (id : η) (tx : PoolTransaction κ) (txMeta : TxpoolTxMeta)
    (table : List (η × TxpoolTxMeta × PoolTransaction κ)) :
    Except String (List (η × TxpoolTxMeta × PoolTransaction κ)) :=
  if (getTxpoolTx id table).isSome then .error "Attempting to add txpool tx metadata that's already in the db"
  else .ok (table ++ [(id, txMeta, tx)])

def removeTxpoolTx (id : η) (table : List (η × TxpoolTxMeta × PoolTransaction κ)) :
    List (η × TxpoolTxMeta × PoolTransaction κ) :=
  table.filter (·.1 != id)

end Database

def lockedAbort (pool : TxMemoryPool η κ) (before after : List (η × TxpoolTxMeta × PoolTransaction κ)) :
    List (η × TxpoolTxMeta × PoolTransaction κ) :=
  if pool.batchActive then after else before

/-- tx_memory_pool::insert_key_images: false, with the key images inserted so far, where an input
is not a txin_to_key, a key image another pool tx spends is met outside kept_by_block, or the
txid is already in a key image's set. -/
def insertKeyImages (id : η) (keptByBlock : Bool) :
    List (TxIn κ) → (κ → Option (Finset η)) → Bool × (κ → Option (Finset η))
  | [], spent => (true, spent)
  | .gen :: _, spent => (false, spent)
  | .toKey _ k :: vin, spent =>
    -- m_spent_key_images[k] makes an empty set where there is none
    let set := (spent k).getD ∅
    let spent := Function.update spent k (some set)
    if ¬(keptByBlock ∨ set.card = 0) then (false, spent)
    else if id ∈ set then (false, spent)
    else insertKeyImages id keptByBlock vin (Function.update spent k (some (insert id set)))

/-- tx_memory_pool::remove_transaction_keyimages: false where it returns early. -/
def removeTransactionKeyimages (id : η) :
    List (TxIn κ) → (κ → Option (Finset η)) → Bool × (κ → Option (Finset η))
  | [], spent => (true, spent)
  | .gen :: _, spent => (false, spent)
  | .toKey _ k :: vin, spent =>
    match spent k with
    | none => (false, spent)
    | some set =>
      if set.card = 0 then (false, spent)
      else if id ∉ set then (false, spent)
      else
        let set := set.erase id
        removeTransactionKeyimages id vin
          (Function.update spent k (if set.card = 0 then none else some set))

/-- The key images of the txin_to_key inputs. -/
def keyImagesOf (vin : List (TxIn κ)) : List κ :=
  vin.filterMap fun | .toKey _ k => some k | .gen => none

omit [DecidableEq η] [DecidableEq κ] in
@[simp] theorem keyImagesOf_nil : keyImagesOf ([] : List (TxIn κ)) = [] := rfl

omit [DecidableEq η] [DecidableEq κ] in
@[simp] theorem keyImagesOf_cons_gen (vin : List (TxIn κ)) :
    keyImagesOf (.gen :: vin) = keyImagesOf vin := rfl

omit [DecidableEq η] [DecidableEq κ] in
@[simp] theorem keyImagesOf_cons_toKey (amount : UInt64) (k : κ) (vin : List (TxIn κ)) :
    keyImagesOf (.toKey amount k :: vin) = k :: keyImagesOf vin := rfl

theorem inputs_of_insertKeyImages {id : η} {keptByBlock : Bool} {vin : List (TxIn κ)}
    {spent : κ → Option (Finset η)} (h : (insertKeyImages id keptByBlock vin spent).1 = true) :
    vin.all TxIn.isToKey = true ∧ (keyImagesOf vin).Nodup ∧
      ∀ k ∈ keyImagesOf vin, id ∉ (spent k).getD ∅ := by
  induction vin generalizing spent with
  | nil => simp
  | cons input vin ih =>
    cases input with
    | gen => simp [insertKeyImages] at h
    | toKey amount k =>
      have hpass : id ∉ (spent k).getD ∅ ∧ (insertKeyImages id keptByBlock vin
          (Function.update spent k (some (insert id ((spent k).getD ∅))))).1 = true := by
        simp only [insertKeyImages] at h
        split_ifs at h with hkept hid
        simpa [Function.update_idem] using And.intro hid h
      obtain ⟨hall, hnodup, hfree⟩ := ih hpass.2
      have hk : k ∉ keyImagesOf vin := fun hk => hfree k hk (by simp)
      refine ⟨by simpa [TxIn.isToKey] using hall, by simpa using And.intro hk hnodup, ?_⟩
      intro k' hk'
      rw [keyImagesOf_cons_toKey, List.mem_cons] at hk'
      rcases hk' with rfl | hk'
      · exact hpass.1
      · have hne : k' ≠ k := fun h => hk (h ▸ hk')
        simpa [Function.update, hne] using hfree k' hk'

/-- Outside kept_by_block, insert_key_images succeeds exactly when every input is a txin_to_key,
no key image repeats, and none is spent by a pool tx already. -/
theorem insertKeyImages_fst_iff (id : η) (vin : List (TxIn κ)) (spent : κ → Option (Finset η)) :
    (insertKeyImages id false vin spent).1 = true ↔
      vin.all TxIn.isToKey ∧ (keyImagesOf vin).Nodup ∧
        ∀ k ∈ keyImagesOf vin, (spent k).getD ∅ = ∅ := by
  induction vin generalizing spent with
  | nil => simp [insertKeyImages, keyImagesOf]
  | cons input vin ih =>
    cases input with
    | gen => simp [insertKeyImages, TxIn.isToKey]
    | toKey amount k =>
      by_cases hk : (spent k).getD ∅ = ∅
      · have hstep : insertKeyImages id false (.toKey amount k :: vin) spent =
            insertKeyImages id false vin (Function.update spent k (some {id})) := by
          simp [insertKeyImages, hk]
        rw [hstep, ih]
        simp only [keyImagesOf, List.filterMap_cons, List.nodup_cons, List.mem_cons,
          forall_eq_or_imp, List.all_cons, TxIn.isToKey, Bool.true_and, hk, true_and]
        constructor
        · rintro ⟨hall, hnodup, hfree⟩
          refine ⟨hall, ⟨fun hmem => ?_, hnodup⟩, fun k' hk' => ?_⟩
          · have := hfree k hmem
            simp at this
          · have := hfree k' hk'
            by_cases hkk : k' = k
            · subst hkk
              simp at this
            · simpa [Function.update, hkk] using this
        · rintro ⟨hall, ⟨hnotmem, hnodup⟩, hfree⟩
          refine ⟨hall, hnodup, fun k' hk' => ?_⟩
          have hkk : k' ≠ k := fun h => hnotmem (h ▸ hk')
          simpa [Function.update, hkk] using hfree k' hk'
      · have hcard : ((spent k).getD ∅).card ≠ 0 := by
          rwa [Ne, Finset.card_eq_zero]
        simp [insertKeyImages, hcard, keyImagesOf, hk]

/-- tx_memory_pool::have_key_images: true at the first txin_to_key whose key image is in k_images,
false at the first input that is not a txin_to_key. -/
def haveKeyImages (kImages : Finset κ) : List (TxIn κ) → Bool
  | [] => false
  | .gen :: _ => false
  | .toKey _ k :: vin => if k ∈ kImages then true else haveKeyImages kImages vin

/-- tx_memory_pool::append_key_images: the key images go into k_images up to the first input that
is not a txin_to_key or whose key image is there already, where it returns false. -/
def appendKeyImages (kImages : Finset κ) : List (TxIn κ) → Bool × Finset κ
  | [] => (true, kImages)
  | .gen :: _ => (false, kImages)
  | .toKey _ k :: vin =>
    if k ∈ kImages then (false, kImages) else appendKeyImages (insert k kImages) vin

section KeyImages

variable {kImages : Finset κ} {vin : List (TxIn κ)}

theorem haveKeyImages_eq_false_iff (hvin : vin.all TxIn.isToKey = true) :
    haveKeyImages kImages vin = false ↔ ∀ k ∈ keyImagesOf vin, k ∉ kImages := by
  induction vin with
  | nil => simp [haveKeyImages]
  | cons input vin ih =>
    cases input with
    | gen => simp [TxIn.isToKey] at hvin
    | toKey amount k =>
      rw [List.all_cons, TxIn.isToKey, Bool.true_and] at hvin
      by_cases hk : k ∈ kImages <;> simp [haveKeyImages, hk, ih hvin]

theorem appendKeyImages_snd_of_fresh (hvin : vin.all TxIn.isToKey = true)
    (hnodup : (keyImagesOf vin).Nodup) (hfresh : ∀ k ∈ keyImagesOf vin, k ∉ kImages) :
    (appendKeyImages kImages vin).2 = (keyImagesOf vin).foldl (fun s i => insert i s) kImages := by
  induction vin generalizing kImages with
  | nil => rfl
  | cons input vin ih =>
    cases input with
    | gen => simp [TxIn.isToKey] at hvin
    | toKey amount k =>
      rw [List.all_cons, TxIn.isToKey, Bool.true_and] at hvin
      rw [keyImagesOf_cons_toKey, List.nodup_cons] at hnodup
      rw [keyImagesOf_cons_toKey, List.forall_mem_cons] at hfresh
      rw [appendKeyImages, if_neg hfresh.1, keyImagesOf_cons_toKey, List.foldl_cons]
      refine ih hvin hnodup.2 fun k' hk' hmem => ?_
      rcases Finset.mem_insert.mp hmem with rfl | hmem
      · exact hnodup.1 hk'
      · exact hfresh.2 k' hk' hmem

end KeyImages

/-- The rule of Blockchain::check_tx_inputs from version 7: the key image of each txin_to_key
is below the one of the txin_to_key before it, in the order of memcmp. -/
def sortedKeyImages [LT κ] [DecidableLT κ] (vin : List (TxIn κ)) : Bool :=
  decide ((keyImagesOf vin).IsChain fun last k => k < last)

/-- Blockchain::check_tx_inputs: a failure of its order rule, or of the rest. -/
def ChainView.checkTxInputs [LT κ] [DecidableLT κ] (chain : ChainView η κ) (tx : PoolTransaction κ)
    (keptByBlock : Bool) : Option UInt64 :=
  if chain.hfVersion ≥ 7 ∧ !sortedKeyImages tx.vin then none
  else chain.checkTxInputsRest tx keptByBlock

def haveTxKeyimgesAsSpent (pool : TxMemoryPool η κ) (tx : PoolTransaction κ) : Bool :=
  tx.vin.any fun | .toKey _ k => (pool.spentKeyImages k).isSome | .gen => true

/-- tx_memory_pool::mark_double_spend: every pool tx spending a key image of tx is marked. -/
def markDoubleSpend (pool : TxMemoryPool η κ) (tx : PoolTransaction κ) : TxMemoryPool η κ :=
  -- every input is a txin_to_key here
  { pool with txpool := pool.txpool.map fun e =>
      let spends := tx.vin.any fun
        | .toKey _ k => match pool.spentKeyImages k with
          | none => false
          | some set => e.1 ∈ set
        | .gen => false
      if spends then (e.1, { e.2.1 with doubleSpendSeen := true }, e.2.2) else e }

def addTxTry (id : η) (tx : PoolTransaction κ) (txMeta : TxpoolTxMeta) (removeFirst : Bool)
    (keptByBlock : Bool) (entry : SortedEntry η) (pool : TxMemoryPool η κ) :
    Bool × TxMemoryPool η κ :=
  let table := if removeFirst then removeTxpoolTx id pool.txpool else pool.txpool
  match addTxpoolTx id tx txMeta table with
  | .error _ => (false, { pool with txpool := lockedAbort pool pool.txpool table })
  | .ok table =>
    match insertKeyImages id keptByBlock tx.vin pool.spentKeyImages with
    | (false, spent) =>
      (false, { pool with txpool := lockedAbort pool pool.txpool table, spentKeyImages := spent })
    | (true, spent) =>
      (true, { pool with
        txpool := table
        spentKeyImages := spent
        txsByFeeAndReceiveTime := emplaceSorted entry pool.txsByFeeAndReceiveTime })

def pruneStep (pool : TxMemoryPool η κ) (e : SortedEntry η) : Option (TxMemoryPool η κ) :=
  match getTxpoolTx e.txid pool.txpool with
  | none => none
  | some (txMeta, tx) =>
    if txMeta.keptByBlock then some pool
    else
      let spent := (removeTransactionKeyimages e.txid tx.vin pool.spentKeyImages).2
      some { pool with
        txpool := removeTxpoolTx e.txid pool.txpool
        txpoolWeight := pool.txpoolWeight - txMeta.weight
        spentKeyImages := spent
        txsByFeeAndReceiveTime := pool.txsByFeeAndReceiveTime.erase e }

def pruneLoop (bytes : UInt64) : List (SortedEntry η) → TxMemoryPool η κ → Bool × TxMemoryPool η κ
  | [], pool => (true, pool)
  | e :: es, pool =>
    if pool.txpoolWeight ≤ bytes then (true, pool)
    else match pruneStep pool e with
      | none => (false, pool)
      | some pool => pruneLoop bytes es pool

/-- tx_memory_pool::prune. Where the loop returns early the lock aborts, and only the table goes
back; the in-memory indexes keep what the loop did. The source starts from --end(), so it is
never called on an empty container. -/
def prune (bytes : UInt64) (pool : TxMemoryPool η κ) : TxMemoryPool η κ :=
  let bytes := if bytes = 0 then pool.txpoolMaxWeight else bytes
  match pool.txsByFeeAndReceiveTime with
  | [] => pool
  | _ :: rest =>
    match pruneLoop bytes rest.reverse pool with
    | (true, p) => p
    | (false, p) => { p with txpool := lockedAbort pool pool.txpool p.txpool }

/-- tx_memory_pool::add_tx: whether the tx is added, and the pool. -/
def addTx [LT κ] [DecidableLT κ] (chain : ChainView η κ) (now : UInt64) (tx : PoolTransaction κ) (id : η) (txWeight : UInt64)
    (keptByBlock relayed doNotRelay : Bool) (version : UInt8) (pool : TxMemoryPool η κ) :
    Bool × TxMemoryPool η κ :=
  if tx.version = 0 then (false, pool)
  else if ¬keptByBlock ∧ id ∈ pool.timedOutTransactions then (false, pool)
  else if !checkInputsTypesSupported tx then (false, pool)
  else
    let fee : Option UInt64 :=
      if tx.version = 1 then
        match getInputsMoneyAmount tx with
        | none => none
        | some inputsAmount =>
          if tx.outsAmount ≥ inputsAmount then none else some (inputsAmount - tx.outsAmount)
      else some tx.txnFee
    match fee with
    | none => (false, pool)
    | some fee =>
      if ¬keptByBlock ∧ !chain.checkFee txWeight fee then (false, pool)
      else if ¬keptByBlock ∧ txWeight > getTransactionWeightLimit version then (false, pool)
      else if ¬keptByBlock ∧ haveTxKeyimgesAsSpent pool tx then (false, markDoubleSpend pool tx)
      else if !chain.checkTxOutputs tx then (false, pool)
      else
        let entry : SortedEntry η := ⟨fee, if txWeight ≠ 0 then txWeight else 1, now, id⟩
        let (added, pool) := match chain.checkTxInputs tx keptByBlock with
          | none =>
            -- a transaction kept by block may become valid again
            if keptByBlock then
              addTxTry id tx ⟨txWeight, fee, 0, keptByBlock, now, relayed, doNotRelay,
                haveTxKeyimgesAsSpent pool tx, tx.pruned⟩ false keptByBlock entry pool
            else (false, pool)
          | some maxUsedBlockHeight =>
            addTxTry id tx ⟨txWeight, fee, maxUsedBlockHeight, keptByBlock, now, relayed,
              doNotRelay, false, tx.pruned⟩ true keptByBlock entry pool
        if added then (true, prune pool.txpoolMaxWeight { pool with txpoolWeight := pool.txpoolWeight + txWeight })
        else (false, pool)

/-- tx_memory_pool::take_tx. -/
def takeTx (id : η) (pool : TxMemoryPool η κ) : Bool × TxMemoryPool η κ :=
  match pool.txsByFeeAndReceiveTime.find? (·.txid == id) with
  | none => (false, pool)
  | some _ =>
    match getTxpoolTx id pool.txpool with
    | none => (false, pool)
    | some (txMeta, tx) =>
      let spent := (removeTransactionKeyimages id tx.vin pool.spentKeyImages).2
      (true, { pool with
        txpool := removeTxpoolTx id pool.txpool
        txpoolWeight := pool.txpoolWeight - txMeta.weight
        spentKeyImages := spent
        txsByFeeAndReceiveTime := eraseSorted id pool.txsByFeeAndReceiveTime })

def cryptonoteMempoolTxLivetime : UInt64 := 86400 * 3
def cryptonoteMempoolTxFromAltBlockLivetime : UInt64 := 604800

/-- tx_memory_pool::remove_stuck_transactions at time now. -/
def removeStuckTransactions (now : UInt64) (pool : TxMemoryPool η κ) : TxMemoryPool η κ :=
  let stuck := pool.txpool.filter fun e =>
    let txAge := now - e.2.1.receiveTime
    (txAge > cryptonoteMempoolTxLivetime ∧ !e.2.1.keptByBlock) ∨
      (txAge > cryptonoteMempoolTxFromAltBlockLivetime ∧ e.2.1.keptByBlock)
  -- the sorted entries go first, and the ids are marked as timed out
  let pool := stuck.foldl (fun p e => { p with
    txsByFeeAndReceiveTime := eraseSorted e.1 p.txsByFeeAndReceiveTime
    timedOutTransactions := insert e.1 p.timedOutTransactions }) pool
  stuck.foldl (fun p e => { p with
    txpool := removeTxpoolTx e.1 p.txpool
    txpoolWeight := p.txpoolWeight - e.2.1.weight
    spentKeyImages := (removeTransactionKeyimages e.1 e.2.2.vin p.spentKeyImages).2 }) pool

/-- tx_memory_pool::validate: the weight is summed afresh from the metas, and a removed tx takes
the weight of its blob off again. -/
def validate (chain : ChainView η κ) (version : UInt8) (pool : TxMemoryPool η κ) :
    TxMemoryPool η κ :=
  let txWeightLimit := getTransactionWeightLimit version
  let remove := pool.txpool.filter fun e => e.2.1.weight > txWeightLimit || chain.haveTx e.1
  let pool := { pool with txpoolWeight := (pool.txpool.map (·.2.1.weight)).sum }
  -- the blob of a pruned tx does not parse as a whole transaction, and the tx stays
  remove.foldl (fun p e => if e.2.2.pruned then p else { p with
    txpool := removeTxpoolTx e.1 p.txpool
    txpoolWeight := p.txpoolWeight - e.2.2.blobWeight
    spentKeyImages := (removeTransactionKeyimages e.1 e.2.2.vin p.spentKeyImages).2
    txsByFeeAndReceiveTime := eraseSorted e.1 p.txsByFeeAndReceiveTime }) pool

def initPass (kept : Bool) (pool : TxMemoryPool η κ) : Option (TxMemoryPool η κ) :=
  pool.txpool.foldlM (fun p e =>
    if kept ≠ e.2.1.keptByBlock then some p
    else match insertKeyImages e.1 e.2.1.keptByBlock e.2.2.vin p.spentKeyImages with
      | (false, _) => none
      | (true, spent) => some { p with
        spentKeyImages := spent
        txsByFeeAndReceiveTime :=
          emplaceSorted ⟨e.2.1.fee, e.2.1.weight, e.2.1.receiveTime, e.1⟩ p.txsByFeeAndReceiveTime
        txpoolWeight := p.txpoolWeight + e.2.1.weight }) pool

/-- tx_memory_pool::init: the indexes rebuilt from the table, first the txs not kept by block. -/
def init (maxTxpoolWeight : UInt64) (pool : TxMemoryPool η κ) : Option (TxMemoryPool η κ) :=
  let pool := { pool with
    txpoolMaxWeight := if maxTxpoolWeight ≠ 0 then maxTxpoolWeight else 648000000
    txsByFeeAndReceiveTime := []
    spentKeyImages := fun _ => none
    txpoolWeight := 0 }
  match initPass false pool with
  | none => none
  | some pool => initPass true pool

end PepePrivate.Core
