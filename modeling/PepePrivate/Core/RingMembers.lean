import Mathlib

/-! The ring members of a transaction's inputs, as the checks of cryptonote_core.cpp and
blockchain.cpp see them. An input names its ring by offsets: the first is an index among the
outputs of its amount, each next one the distance from the previous member. The absolute
indices are running sums in uint64_t, so an offset close to 2^64 steps back. The semantic check
refuses a zero offset after the first, and the input check looks every member up; neither
bounds the offsets. Curve arithmetic (key images, unlock times, ring signatures) is an input
here. -/

namespace PepePrivate.Core

structure TxinToKey where
  amount : UInt64
  keyOffsets : List UInt64
  kImage : Nat
  deriving DecidableEq, Repr

structure OutputData where
  pubkey : Nat
  unlockTime : UInt64
  height : UInt64
  deriving DecidableEq, Repr

/-- The parts of a transaction the ring checks read; every input is a txin_to_key, which
check_inputs_types_supported requires. -/
structure Transaction where
  version : Nat
  vin : List TxinToKey
  deriving DecidableEq, Repr

def addPrevious (prev : UInt64) : List UInt64 → List UInt64
  | [] => []
  | o :: rest => (prev + o) :: addPrevious (prev + o) rest

/-- relative_output_offsets_to_absolute: res[i] += res[i-1]. -/
def relativeOutputOffsetsToAbsolute : List UInt64 → List UInt64
  | [] => []
  | o :: rest => o :: addPrevious o rest

/-- core::check_tx_inputs_ring_members_diff. -/
def checkTxInputsRingMembersDiff (version : UInt8) (tx : Transaction) : Bool :=
  if version ≥ 7 then tx.vin.all fun txin => (txin.keyOffsets.drop 1).all (· ≠ 0)
  else true

/-- core::check_tx_inputs_keyimages_diff. -/
def checkTxInputsKeyimagesDiff (tx : Transaction) : Bool := (tx.vin.map (·.kImage)).Nodup

/-- The ring checks of core::check_tx_semantic: inputs present, distinct key images, no repeated
ring member by a zero offset, key images in the prime-order subgroup. -/
def checkTxSemanticRings (version : UInt8) (keyImageInDomain : Nat → Bool) (tx : Transaction) :
    Bool :=
  !tx.vin.isEmpty && checkTxInputsKeyimagesDiff tx && checkTxInputsRingMembersDiff version tx &&
    tx.vin.all fun txin => keyImageInDomain txin.kImage

/-- Blockchain::scan_outputkeys_for_indexes with check_tx_input's visitor, for the outputs the
database holds for each amount: the ring's output data, and the related block height it takes
from the ring's last member; none where it fails. -/
def scanOutputkeysForIndexes (outputs : UInt64 → List OutputData)
    (isTxSpendtimeUnlocked : UInt64 → Bool) (txin : TxinToKey) : Option (List OutputData × UInt64) :=
  if txin.keyOffsets.isEmpty then none
  else
    let absoluteOffsets := relativeOutputOffsetsToAbsolute txin.keyOffsets
    -- get_output_key throws for an index past the outputs of the amount
    match absoluteOffsets.mapM fun i => (outputs txin.amount)[i.toNat]? with
    | none => none
    | some ring =>
      if ring.all fun o => isTxSpendtimeUnlocked o.unlockTime then
        some (ring, (ring.getLast?.map (·.height)).getD 0)
      else none

def checkMixin (hfVersion : UInt8) (numOutputs : UInt64 → Nat) (tx : Transaction) : Bool :=
  let minMixin : Nat := if hfVersion ≥ 13 then 10 else 6
  let nUnmixable := (tx.vin.filter fun txin => txin.amount ≠ 0 ∧ numOutputs txin.amount ≤ minMixin).length
  let nMixable := tx.vin.length - nUnmixable
  -- key_offsets.size() - 1 in size_t, from SIZE_MAX
  let mixin : Nat := (tx.vin.map fun txin => (txin.keyOffsets.length + (2 ^ 64 - 1)) % 2 ^ 64).foldl
    min (2 ^ 64 - 1)
  if ((hfVersion = 13 ∨ hfVersion = 14) ∧ mixin ≠ 10) ∨ (hfVersion ≥ 15 ∧ mixin > 10) then false
  else if mixin < minMixin ∧ (nUnmixable = 0 ∨ nMixable > 1) then false
  else
    let minTxVersion := if nUnmixable > 0 then 1 else if hfVersion ≥ 6 then 2 else 1
    tx.version ≤ 2 ∧ minTxVersion ≤ tx.version

def sortedIns (tx : Transaction) : Bool := decide ((tx.vin.map (·.kImage)).Pairwise (· > ·))

/-- Blockchain::check_tx_inputs for a transaction that is not pruned: the ring-size and order
rules from version 7, then for every input a key image not spent on the chain and a ring whose
members all exist and are unlocked; the ring signatures over those rings are an input. Also
the largest related block height, pmax_used_block_height. -/
def checkTxInputs (hfVersion : UInt8) (outputs : UInt64 → List OutputData)
    (isTxSpendtimeUnlocked : UInt64 → Bool) (haveTxKeyimgAsSpent : Nat → Bool)
    (ringSignaturesValid : Bool) (tx : Transaction) : Option UInt64 :=
  let numOutputs := fun amount => (outputs amount).length
  if hfVersion ≥ 7 ∧ !(checkMixin hfVersion numOutputs tx && sortedIns tx) then none
  else
    match tx.vin.mapM fun txin =>
        if haveTxKeyimgAsSpent txin.kImage then none
        else scanOutputkeysForIndexes outputs isTxSpendtimeUnlocked txin with
    | none => none
    | some rings =>
      if ringSignaturesValid then some ((rings.map (·.2)).foldl max 0) else none

theorem relativeOutputOffsetsToAbsolute_cons_cons (o x : UInt64) (rest : List UInt64) :
    relativeOutputOffsetsToAbsolute (o :: x :: rest) =
      o :: relativeOutputOffsetsToAbsolute ((o + x) :: rest) := rfl

theorem head_mem_relativeOutputOffsetsToAbsolute (o : UInt64) (rest : List UInt64) :
    o ∈ relativeOutputOffsetsToAbsolute (o :: rest) := by
  cases rest <;> simp [relativeOutputOffsetsToAbsolute]

/-- The absolute indices increase strictly exactly when no offset after the first is zero and
the offsets add up to less than 2^64: the first running sum that wraps steps back. -/
theorem relativeOutputOffsetsToAbsolute_pairwise_iff (o : UInt64) (rest : List UInt64) :
    (relativeOutputOffsetsToAbsolute (o :: rest)).Pairwise (· < ·) ↔
      (∀ x ∈ rest, x ≠ 0) ∧ o.toNat + (rest.map UInt64.toNat).sum < 2 ^ 64 := by
  induction rest generalizing o with
  | nil =>
    have := o.toNat_lt_size
    simpa [relativeOutputOffsetsToAbsolute, addPrevious, UInt64.size] using this
  | cons x xs ih =>
    have ho := o.toNat_lt_size
    have hx := x.toNat_lt_size
    simp only [UInt64.size] at ho hx
    rw [relativeOutputOffsetsToAbsolute_cons_cons, List.pairwise_cons, ih]
    constructor
    · rintro ⟨hhead, hne, hsum⟩
      have hlt := UInt64.lt_iff_toNat_lt.mp (hhead _ (head_mem_relativeOutputOffsetsToAbsolute _ _))
      rw [UInt64.toNat_add] at hlt hsum
      have hno : o.toNat + x.toNat < 2 ^ 64 := by
        by_contra hwrap
        rw [Nat.mod_eq_sub_mod (by omega), Nat.mod_eq_of_lt (by omega)] at hlt
        omega
      rw [Nat.mod_eq_of_lt hno] at hlt hsum
      refine ⟨?_, ?_⟩
      · intro y hy
        rcases List.mem_cons.mp hy with rfl | hy
        · intro h0
          rw [h0, UInt64.toNat_zero] at hlt
          omega
        · exact hne y hy
      · simp only [List.map_cons, List.sum_cons]
        omega
    · rintro ⟨hne, hsum⟩
      simp only [List.map_cons, List.sum_cons] at hsum
      have hsum' : (o + x).toNat = o.toNat + x.toNat := by
        rw [UInt64.toNat_add, Nat.mod_eq_of_lt (by omega)]
      have hx0 : x.toNat ≠ 0 := fun h => hne x (by simp) (UInt64.toNat_inj.mp (h.trans rfl))
      have htail : (relativeOutputOffsetsToAbsolute ((o + x) :: xs)).Pairwise (· < ·) :=
        (ih (o + x)).mpr ⟨fun y hy => hne y (by simp [hy]), by rw [hsum']; omega⟩
      refine ⟨?_, fun y hy => hne y (by simp [hy]), by rw [hsum']; omega⟩
      intro y hy
      have hox : o < o + x := UInt64.lt_iff_toNat_lt.mpr (by rw [hsum']; omega)
      cases xs with
      | nil =>
        simp only [relativeOutputOffsetsToAbsolute, addPrevious, List.mem_singleton] at hy
        rw [hy]
        exact hox
      | cons z zs =>
        rw [relativeOutputOffsetsToAbsolute_cons_cons, List.mem_cons] at hy
        rw [relativeOutputOffsetsToAbsolute_cons_cons, List.pairwise_cons] at htail
        rcases hy with rfl | hy
        · exact hox
        · exact UInt64.lt_trans hox (htail.1 y hy)

/-- A transaction at version 16 with one input of ring size 11 over the 16 outputs of amount 0:
its offsets step past 2^64 twice, the semantic ring checks and the input checks accept it, and
its ring has ten distinct members, not eleven, with output 6 twice. The related block height is
that of the last member, output 6, not of output 15. -/
theorem ring_members_repeat_after_wrap :
    let txin : TxinToKey :=
      ⟨0, [15, 18446744073709551602, 1, 1, 1, 1, 1, 1, 1, 1, 18446744073709551613], 1⟩
    let tx : Transaction := ⟨2, [txin]⟩
    let outputs : UInt64 → List OutputData := fun _ =>
      (List.range 16).map fun i => ⟨i, 0, i.toUInt64⟩
    checkTxSemanticRings 16 (fun _ => true) tx = true ∧
      checkTxInputs 16 outputs (fun _ => true) (fun _ => false) true tx = some 6 ∧
      relativeOutputOffsetsToAbsolute txin.keyOffsets = [15, 1, 2, 3, 4, 5, 6, 7, 8, 9, 6] ∧
      ¬(relativeOutputOffsetsToAbsolute txin.keyOffsets).Nodup := by
  decide

end PepePrivate.Core
