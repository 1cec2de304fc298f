import PepePrivate.Library.Cycles

/-! The pruning stripes of common/pruning.cpp. A pruned node keeps the full data of one stripe of
every 2^log_stripes runs of CRYPTONOTE_PRUNING_STRIPE_SIZE blocks, and of the last
CRYPTONOTE_PRUNING_TIP_BLOCKS blocks; a seed of 0 keeps everything. -/

namespace PepePrivate.Common

def cryptonotePruningStripeSize : UInt64 := 4096
def cryptonotePruningLogStripes : UInt64 := 3
def cryptonotePruningTipBlocks : UInt64 := 5500
def cryptonoteMaxBlockNumber : UInt64 := 500000000

def getPruningLogStripes (pruningSeed : UInt32) : UInt32 := (pruningSeed >>> 7) &&& 0x7

/-- get_pruning_stripe of a seed. -/
def getPruningStripe (pruningSeed : UInt32) : UInt32 :=
  if pruningSeed = 0 then 0 else (1 : UInt32) + ((pruningSeed >>> 0) &&& 0x7f)

/-- get_pruning_stripe of a block: 0 near the tip, where every node keeps the block. -/
def getPruningStripeOfBlock (blockHeight blockchainHeight : UInt64) (logStripes : UInt32) : UInt32 :=
  if blockHeight + cryptonotePruningTipBlocks ≥ blockchainHeight then 0
  else (((blockHeight / cryptonotePruningStripeSize) &&& ((1 <<< logStripes.toUInt64) - 1)) + 1).toUInt32

def hasUnprunedBlock (blockHeight blockchainHeight : UInt64) (pruningSeed : UInt32) : Bool :=
  let stripe := getPruningStripe pruningSeed
  if stripe = 0 then true
  else
    let logStripes := getPruningLogStripes pruningSeed
    let blockStripe := getPruningStripeOfBlock blockHeight blockchainHeight logStripes
    blockStripe = 0 || blockStripe = stripe

/-- get_next_unpruned_block_height; a CHECK_AND_ASSERT_MES that fails returns block_height. -/
def getNextUnprunedBlockHeight (blockHeight blockchainHeight : UInt64) (pruningSeed : UInt32) :
    UInt64 :=
  if ¬(blockHeight ≤ cryptonoteMaxBlockNumber + 1) then blockHeight
  else if ¬(blockchainHeight ≤ cryptonoteMaxBlockNumber + 1) then blockHeight
  else
    let stripe := getPruningStripe pruningSeed
    if stripe = 0 then blockHeight
    else if blockHeight + cryptonotePruningTipBlocks ≥ blockchainHeight then blockHeight
    else
      let seedLogStripes := getPruningLogStripes pruningSeed
      let logStripes : UInt64 := if seedLogStripes ≠ 0 then seedLogStripes.toUInt64
        else cryptonotePruningLogStripes
      let mask : UInt64 := (1 <<< logStripes) - 1
      let blockPruningStripe : UInt32 :=
        (((blockHeight / cryptonotePruningStripeSize) &&& mask) + 1).toUInt32
      if blockPruningStripe = stripe then blockHeight
      else
        let cycles := (blockHeight / cryptonotePruningStripeSize) >>> logStripes
        let cycleStart := cycles + if stripe > blockPruningStripe then 0 else 1
        -- (stripe - 1) * CRYPTONOTE_PRUNING_STRIPE_SIZE is computed in uint32_t
        let h := cycleStart * (cryptonotePruningStripeSize <<< logStripes) +
          ((stripe - 1) * cryptonotePruningStripeSize.toUInt32).toUInt64
        if h + cryptonotePruningTipBlocks > blockchainHeight then
          if blockchainHeight < cryptonotePruningTipBlocks then 0
          else blockchainHeight - cryptonotePruningTipBlocks
        else if ¬(h ≥ blockHeight) then blockHeight
        else h

/-- make_pruning_seed; a CHECK_AND_ASSERT_THROW_MES throws its message. -/
def makePruningSeed (stripe logStripes : UInt32) : Except String UInt32 :=
  if ¬logStripes ≤ 7 then .error "log_stripes out of range"
  else if ¬(stripe > 0 ∧ stripe.toUInt64 ≤ (1 : UInt64) <<< logStripes.toUInt64) then
    .error "stripe out of range"
  else .ok ((logStripes <<< 7) ||| ((stripe - 1) <<< 0))

/-- get_next_pruned_block_height: the next unpruned height for the seed of the following
stripe, from a block of the seed's own stripe. -/
def getNextPrunedBlockHeight (blockHeight blockchainHeight : UInt64) (pruningSeed : UInt32) :
    Except String UInt64 :=
  let stripe := getPruningStripe pruningSeed
  if stripe = 0 then .ok blockchainHeight
  else if blockHeight + cryptonotePruningTipBlocks ≥ blockchainHeight then .ok blockchainHeight
  else
    let seedLogStripes := getPruningLogStripes pruningSeed
    let logStripes : UInt64 := if seedLogStripes ≠ 0 then seedLogStripes.toUInt64
      else cryptonotePruningLogStripes
    let mask : UInt64 := (1 <<< logStripes) - 1
    let blockPruningSeed : UInt32 :=
      (((blockHeight / cryptonotePruningStripeSize) &&& mask) + 1).toUInt32
    if blockPruningSeed ≠ stripe then .ok blockHeight
    else
      let nextStripe : UInt32 := ((1 : UInt64) + (blockPruningSeed.toUInt64 &&& mask)).toUInt32
      return getNextUnprunedBlockHeight blockHeight blockchainHeight
        (← makePruningSeed nextStripe logStripes.toUInt32)

theorem seed_fields : ∀ L : Fin 8, ∀ s : Fin 128, 0 < L.val →
    getPruningStripe ((L.val.toUInt32 <<< 7) ||| (s.val.toUInt32 <<< 0)) = s.val.toUInt32 + 1 ∧
      getPruningLogStripes ((L.val.toUInt32 <<< 7) ||| (s.val.toUInt32 <<< 0)) = L.val.toUInt32 := by
  decide +kernel

theorem two_pow_le_128 {n : Nat} (hn : n ≤ 7) : 2 ^ n ≤ 128 :=
  calc 2 ^ n ≤ 2 ^ 7 := Nat.pow_le_pow_right (by norm_num) hn
    _ = 128 := rfl

theorem toNat_one_shiftLeft {L : UInt64} (hL : L.toNat ≤ 7) :
    ((1 : UInt64) <<< L).toNat = 2 ^ L.toNat := by
  rw [UInt64.toNat_shiftLeft, UInt64.toNat_one, Nat.one_shiftLeft,
    Nat.mod_eq_of_lt (show L.toNat < 64 by omega)]
  exact Nat.mod_eq_of_lt (Nat.pow_lt_pow_right (by norm_num) (by omega))

theorem toNat_and_mask (x : UInt64) {L : UInt64} (hL : L.toNat ≤ 7) :
    (x &&& ((1 <<< L) - 1)).toNat = x.toNat % 2 ^ L.toNat := by
  have hone : (1 : UInt64) ≤ 1 <<< L := by
    rw [UInt64.le_iff_toNat_le, toNat_one_shiftLeft hL, UInt64.toNat_one]
    exact Nat.one_le_two_pow
  rw [UInt64.toNat_and, UInt64.toNat_sub_of_le _ _ hone, toNat_one_shiftLeft hL, UInt64.toNat_one,
    Nat.and_two_pow_sub_one_eq_mod]

theorem makePruningSeed_range {s L seed : UInt32} (h : makePruningSeed s L = .ok seed) :
    L.toNat ≤ 7 ∧ 1 ≤ s.toNat ∧ s.toNat ≤ 2 ^ L.toNat := by
  unfold makePruningSeed at h
  split_ifs at h with hL7 hs
  obtain ⟨hs0, hs2⟩ := hs
  have hLn : L.toNat ≤ 7 := by simpa [UInt32.le_iff_toNat_le] using hL7
  rw [gt_iff_lt, UInt32.lt_iff_toNat_lt, UInt32.toNat_zero] at hs0
  rw [UInt64.le_iff_toNat_le, UInt32.toNat_toUInt64,
    toNat_one_shiftLeft (by simpa using hLn), UInt32.toNat_toUInt64] at hs2
  exact ⟨hLn, hs0, hs2⟩

theorem makePruningSeed_stripe_ne_zero {s L seed : UInt32} (h : makePruningSeed s L = .ok seed) :
    s ≠ 0 := by
  obtain ⟨-, hs1, -⟩ := makePruningSeed_range h
  rintro rfl
  simp at hs1

theorem makePruningSeed_eq {s L seed : UInt32} (h : makePruningSeed s L = .ok seed) :
    seed = (L <<< 7) ||| ((s - 1) <<< 0) := by
  unfold makePruningSeed at h
  split_ifs at h
  exact (Except.ok.inj h).symm

theorem makePruningSeed_fields {s L seed : UInt32} (hL : 1 ≤ L)
    (h : makePruningSeed s L = .ok seed) :
    getPruningStripe seed = s ∧ getPruningLogStripes seed = L := by
  obtain ⟨hLn, hs1, hs2⟩ := makePruningSeed_range h
  have hL1 : 1 ≤ L.toNat := by simpa [UInt32.le_iff_toNat_le] using hL
  have h128 := two_pow_le_128 hLn
  have hsub : (s.toNat - 1).toUInt32 = s - 1 := by
    apply UInt32.toNat_inj.mp
    rw [UInt32.toNat_sub_of_le _ _ (UInt32.le_iff_toNat_le.mpr (by simpa using hs1))]
    simp
    omega
  obtain ⟨hstripe, hlog⟩ :=
    seed_fields ⟨L.toNat, by omega⟩ ⟨s.toNat - 1, by omega⟩ (by simp only; omega)
  simp only [UInt32.ofNat_toNat, hsub] at hstripe hlog
  rw [makePruningSeed_eq h]
  refine ⟨?_, hlog⟩
  rw [hstripe]
  exact UInt32.sub_add_cancel s 1

theorem tip_iff {h H : UInt64} (hh : h ≤ cryptonoteMaxBlockNumber + 1) :
    h + cryptonotePruningTipBlocks ≥ H ↔ H.toNat ≤ h.toNat + 5500 := by
  have hhn : h.toNat ≤ 500000001 := UInt64.le_iff_toNat_le.mp hh
  rw [ge_iff_le, UInt64.le_iff_toNat_le, UInt64.toNat_add,
    show cryptonotePruningTipBlocks.toNat = 5500 from rfl, Nat.mod_eq_of_lt (by omega)]

theorem toNat_blockStripe (x : UInt64) {L : UInt64} (hL : L.toNat ≤ 7) :
    (((x / cryptonotePruningStripeSize) &&& ((1 <<< L) - 1)) + 1).toUInt32.toNat =
      x.toNat / 4096 % 2 ^ L.toNat + 1 := by
  have h128 : x.toNat / 4096 % 2 ^ L.toNat < 128 := by
    calc x.toNat / 4096 % 2 ^ L.toNat < 2 ^ L.toNat := Nat.mod_lt _ (Nat.two_pow_pos _)
      _ ≤ 128 := two_pow_le_128 hL
  rw [UInt64.toNat_toUInt32, UInt64.toNat_add, toNat_and_mask _ hL, UInt64.toNat_div,
    show cryptonotePruningStripeSize.toNat = 4096 from rfl, UInt64.toNat_one,
    Nat.mod_eq_of_lt (show x.toNat / 4096 % 2 ^ L.toNat + 1 < 2 ^ 64 by omega)]
  exact Nat.mod_eq_of_lt (by omega)

theorem nextStripeStart_eq {b : UInt64} {s L : UInt32} (hb : b ≤ cryptonoteMaxBlockNumber + 1)
    (hLn : L.toNat ≤ 7) (hs1 : 1 ≤ s.toNat) (hs2 : s.toNat ≤ 2 ^ L.toNat)
    (hne : b.toNat / 4096 % 2 ^ L.toNat ≠ s.toNat - 1) :
    ((b / cryptonotePruningStripeSize) >>> L.toUInt64 +
          if s > ((b / cryptonotePruningStripeSize &&& 1 <<< L.toUInt64 - 1) + 1).toUInt32 then 0
          else 1) * cryptonotePruningStripeSize <<< L.toUInt64 +
        ((s - 1) * cryptonotePruningStripeSize.toUInt32).toUInt64 =
      (Cycles.nextAtResidue (b.toNat / 4096) (2 ^ L.toNat) (s.toNat - 1) * 4096).toUInt64 := by
  have hbn : b.toNat ≤ 500000001 := UInt64.le_iff_toNat_le.mp hb
  have hL64 : L.toUInt64.toNat ≤ 7 := by simpa using hLn
  have hm := two_pow_le_128 hLn
  have hm0 : 0 < 2 ^ L.toNat := Nat.two_pow_pos _
  have hgt : s > ((b / cryptonotePruningStripeSize &&& 1 <<< L.toUInt64 - 1) + 1).toUInt32 ↔
      b.toNat / 4096 % 2 ^ L.toNat < s.toNat - 1 := by
    rw [gt_iff_lt, UInt32.lt_iff_toNat_lt, toNat_blockStripe b hL64, UInt32.toNat_toUInt64]
    omega
  have hcycles : ((b / cryptonotePruningStripeSize) >>> L.toUInt64).toNat =
      b.toNat / 4096 / 2 ^ L.toNat := by
    rw [UInt64.toNat_shiftRight, UInt64.toNat_div, UInt32.toNat_toUInt64,
      show cryptonotePruningStripeSize.toNat = 4096 from rfl,
      Nat.mod_eq_of_lt (show L.toNat < 64 by omega), Nat.shiftRight_eq_div_pow]
  have hrun : (cryptonotePruningStripeSize <<< L.toUInt64).toNat = 4096 * 2 ^ L.toNat := by
    rw [UInt64.toNat_shiftLeft, UInt32.toNat_toUInt64,
      show cryptonotePruningStripeSize.toNat = 4096 from rfl,
      Nat.mod_eq_of_lt (show L.toNat < 64 by omega), Nat.shiftLeft_eq]
    exact Nat.mod_eq_of_lt (by omega)
  have hoff : ((s - 1) * cryptonotePruningStripeSize.toUInt32).toUInt64.toNat =
      (s.toNat - 1) * 4096 := by
    rw [UInt32.toNat_toUInt64, UInt32.toNat_mul,
      UInt32.toNat_sub_of_le _ _ (UInt32.le_iff_toNat_le.mpr (by simpa using hs1))]
    simp only [UInt32.toNat_one, show cryptonotePruningStripeSize.toUInt32.toNat = 4096 from rfl]
    exact Nat.mod_eq_of_lt (by omega)
  have hq := Nat.div_mul_le_self (b.toNat / 4096) (2 ^ L.toNat)
  have hqn : b.toNat / 4096 ≤ 122071 := by omega
  apply UInt64.toNat_inj.mp
  rw [UInt64.toNat_add, UInt64.toNat_mul, UInt64.toNat_add, hcycles, hrun, hoff, Nat.toUInt64_eq,
    UInt64.toNat_ofNat', Cycles.nextAtResidue]
  obtain ⟨δ, hδ, hδ'⟩ : ∃ δ, (if s > ((b / cryptonotePruningStripeSize &&& 1 <<< L.toUInt64 - 1) +
      1).toUInt32 then (0 : UInt64) else 1).toNat = δ ∧
        (if s.toNat - 1 < b.toNat / 4096 % 2 ^ L.toNat then 1 else 0) = δ := by
    by_cases hc : b.toNat / 4096 % 2 ^ L.toNat < s.toNat - 1
    · exact ⟨0, by rw [if_pos (hgt.mpr hc)]; rfl, if_neg (by omega)⟩
    · exact ⟨1, by rw [if_neg (mt hgt.mp hc)]; rfl, if_pos (by omega)⟩
  have hδ1 : δ ≤ 1 := by
    rw [← hδ']
    split_ifs <;> omega
  have hqm : b.toNat / 4096 / 2 ^ L.toNat ≤ b.toNat / 4096 := Nat.div_le_self _ _
  rw [hδ, hδ', Nat.mod_eq_of_lt (show b.toNat / 4096 / 2 ^ L.toNat + δ < 2 ^ 64 by omega),
    show (b.toNat / 4096 / 2 ^ L.toNat + δ) * (4096 * 2 ^ L.toNat) =
    (b.toNat / 4096 / 2 ^ L.toNat + δ) * 2 ^ L.toNat * 4096 by ring]
  have ht : (b.toNat / 4096 / 2 ^ L.toNat + δ) * 2 ^ L.toNat ≤ b.toNat / 4096 + 2 ^ L.toNat := by
    rw [Nat.add_mul]
    have : δ * 2 ^ L.toNat ≤ 2 ^ L.toNat := by
      calc δ * 2 ^ L.toNat ≤ 1 * 2 ^ L.toNat := Nat.mul_le_mul_right _ hδ1
        _ = 2 ^ L.toNat := Nat.one_mul _
    omega
  generalize (b.toNat / 4096 / 2 ^ L.toNat + δ) * 2 ^ L.toNat = t at ht ⊢
  omega

section ValidSeed

variable {s L seed : UInt32} (hL : 1 ≤ L) (hseed : makePruningSeed s L = .ok seed)
include hL hseed

theorem hasUnprunedBlock_iff {h H : UInt64} (hh : h ≤ cryptonoteMaxBlockNumber + 1) :
    hasUnprunedBlock h H seed = true ↔
      H.toNat ≤ h.toNat + 5500 ∨ h.toNat / 4096 % 2 ^ L.toNat + 1 = s.toNat := by
  obtain ⟨hstripe, hlog⟩ := makePruningSeed_fields hL hseed
  obtain ⟨hLn, -, -⟩ := makePruningSeed_range hseed
  have hs0 := makePruningSeed_stripe_ne_zero hseed
  unfold hasUnprunedBlock getPruningStripeOfBlock
  simp only [hstripe, hlog, hs0, if_false]
  by_cases htip : H.toNat ≤ h.toNat + 5500
  · simp [(tip_iff hh).mpr htip, htip]
  · rw [if_neg (mt (tip_iff hh).mp htip)]
    simp only [Bool.or_eq_true, decide_eq_true_eq, ← UInt32.toNat_inj,
      toNat_blockStripe h (by simpa using hLn : L.toUInt64.toNat ≤ 7), UInt32.toNat_zero,
      UInt32.toNat_toUInt64]
    omega

theorem toNat_getNextUnprunedBlockHeight {b H : UInt64} (hH : H ≤ cryptonoteMaxBlockNumber + 1)
    (hb : b < H) :
    (getNextUnprunedBlockHeight b H seed).toNat =
      if H.toNat ≤ b.toNat + 5500 ∨ b.toNat / 4096 % 2 ^ L.toNat + 1 = s.toNat then b.toNat
      else min (Cycles.nextAtResidue (b.toNat / 4096) (2 ^ L.toNat) (s.toNat - 1) * 4096)
        (H.toNat - 5500) := by
  obtain ⟨hstripe, hlog⟩ := makePruningSeed_fields hL hseed
  obtain ⟨hLn, hs1, hs2⟩ := makePruningSeed_range hseed
  have hs0 := makePruningSeed_stripe_ne_zero hseed
  have hL0 : L ≠ 0 := by
    rintro rfl
    simp at hL
  have hb' : b ≤ cryptonoteMaxBlockNumber + 1 := UInt64.le_of_lt (UInt64.lt_of_lt_of_le hb hH)
  have hHn : H.toNat ≤ 500000001 := UInt64.le_iff_toNat_le.mp hH
  unfold getNextUnprunedBlockHeight
  simp only [hb', hH, not_true_eq_false, if_false, hstripe, hlog, hs0, ne_eq, hL0,
    not_false_eq_true, if_true]
  by_cases htip : H.toNat ≤ b.toNat + 5500
  · rw [if_pos ((tip_iff hb').mpr htip), if_pos (Or.inl htip)]
  rw [if_neg (mt (tip_iff hb').mp htip)]
  have hstripeN := toNat_blockStripe b (L := L.toUInt64) (by simpa using hLn)
  rw [UInt32.toNat_toUInt64] at hstripeN
  by_cases hsame : b.toNat / 4096 % 2 ^ L.toNat + 1 = s.toNat
  · rw [if_pos (UInt32.toNat_inj.mp (hstripeN.trans hsame)), if_pos (Or.inr hsame)]
  rw [if_neg (fun h => hsame (hstripeN.symm.trans (congrArg UInt32.toNat h))),
    if_neg (not_or.mpr ⟨htip, hsame⟩), nextStripeStart_eq hb' hLn hs1 hs2 (by omega)]
  set N := Cycles.nextAtResidue (b.toNat / 4096) (2 ^ L.toNat) (s.toNat - 1) with hN
  have hi : s.toNat - 1 < 2 ^ L.toNat := by omega
  have hpast : b.toNat / 4096 < N := Cycles.lt_nextAtResidue hi (by omega)
  have hnear : N < b.toNat / 4096 + 2 ^ L.toNat := Cycles.nextAtResidue_lt hi
  have hm := two_pow_le_128 hLn
  have hjN : (N * 4096).toUInt64.toNat = N * 4096 := by
    rw [Nat.toUInt64_eq, UInt64.toNat_ofNat']
    exact Nat.mod_eq_of_lt (by omega)
  have htipN : cryptonotePruningTipBlocks.toNat = 5500 := rfl
  split_ifs with hj hsmall hlt
  · exfalso
    rw [UInt64.lt_iff_toNat_lt, htipN] at hsmall
    omega
  · rw [gt_iff_lt, UInt64.lt_iff_toNat_lt, UInt64.toNat_add, hjN, htipN] at hj
    rw [UInt64.toNat_sub_of_le _ _ (UInt64.not_lt.mp hsmall), htipN]
    omega
  · rw [gt_iff_lt, UInt64.lt_iff_toNat_lt, UInt64.toNat_add, hjN, htipN] at hj
    rw [hjN]
    omega
  · exfalso
    rw [ge_iff_le, UInt64.le_iff_toNat_le, hjN] at hlt
    omega

end ValidSeed

/-- get_next_unpruned_block_height returns the least height from b on that the seed keeps. -/
theorem getNextUnprunedBlockHeight_least {seed : UInt32}
    (hseed : seed = 0 ∨ ∃ s L : UInt32, 1 ≤ L ∧ L ≤ 7 ∧ 1 ≤ s ∧ s.toNat ≤ 2 ^ L.toNat ∧
      makePruningSeed s L = .ok seed)
    {b H : UInt64} (hH : H ≤ cryptonoteMaxBlockNumber + 1) (hb : b < H) :
    b ≤ getNextUnprunedBlockHeight b H seed ∧
      hasUnprunedBlock (getNextUnprunedBlockHeight b H seed) H seed = true ∧
      ∀ h, b ≤ h → h < getNextUnprunedBlockHeight b H seed → hasUnprunedBlock h H seed = false := by
  have hb' : b ≤ cryptonoteMaxBlockNumber + 1 := UInt64.le_of_lt (UInt64.lt_of_lt_of_le hb hH)
  have hHn : H.toNat ≤ 500000001 := UInt64.le_iff_toNat_le.mp hH
  rcases hseed with rfl | ⟨s, L, hL, -, -, -, hmake⟩
  · have hnext : getNextUnprunedBlockHeight b H 0 = b := by
      simp [getNextUnprunedBlockHeight, hb', hH, getPruningStripe]
    rw [hnext]
    refine ⟨UInt64.le_refl b, by simp [hasUnprunedBlock, getPruningStripe], ?_⟩
    intro h h1 h2
    exact absurd h1 (UInt64.not_le.mpr h2)
  obtain ⟨hLn, hs1, hs2⟩ := makePruningSeed_range hmake
  have hrN := toNat_getNextUnprunedBlockHeight hL hmake hH hb
  have hkept : ∀ h : UInt64, h.toNat ≤ H.toNat → (hasUnprunedBlock h H seed = true ↔
      H.toNat ≤ h.toNat + 5500 ∨ h.toNat / 4096 % 2 ^ L.toNat + 1 = s.toNat) := fun h hh =>
    hasUnprunedBlock_iff hL hmake (UInt64.le_trans (UInt64.le_iff_toNat_le.mpr hh) hH)
  have hbH : b.toNat < H.toNat := UInt64.lt_iff_toNat_lt.mp hb
  by_cases hkeep : H.toNat ≤ b.toNat + 5500 ∨ b.toNat / 4096 % 2 ^ L.toNat + 1 = s.toNat
  · rw [if_pos hkeep] at hrN
    have hr : getNextUnprunedBlockHeight b H seed = b := UInt64.toNat_inj.mp hrN
    rw [hr]
    refine ⟨UInt64.le_refl b, (hkept b hbH.le).mpr hkeep, ?_⟩
    intro h h1 h2
    exact absurd h1 (UInt64.not_le.mpr h2)
  rw [if_neg hkeep] at hrN
  set N := Cycles.nextAtResidue (b.toNat / 4096) (2 ^ L.toNat) (s.toNat - 1) with hN
  have hi : s.toNat - 1 < 2 ^ L.toNat := by omega
  have hpast : b.toNat / 4096 < N := Cycles.lt_nextAtResidue hi (by omega)
  have hNmod : N % 2 ^ L.toNat = s.toNat - 1 := Cycles.nextAtResidue_mod hi
  have hfirst : ∀ y, b.toNat / 4096 ≤ y → y % 2 ^ L.toNat = s.toNat - 1 → N ≤ y :=
    fun y hy hyi => Cycles.nextAtResidue_le hi hy hyi
  refine ⟨?_, ?_, ?_⟩
  · rw [UInt64.le_iff_toNat_le, hrN]
    omega
  · rw [hkept _ (by omega), hrN]
    by_cases hbelow : N * 4096 ≤ H.toNat - 5500
    · right
      rw [Nat.min_eq_left hbelow, Nat.mul_div_cancel _ (by norm_num), hNmod]
      omega
    · left
      omega
  · intro h h1 h2
    rw [UInt64.le_iff_toNat_le] at h1
    rw [UInt64.lt_iff_toNat_lt, hrN] at h2
    rw [Bool.eq_false_iff, ne_eq, hkept h (by omega)]
    rintro (htip | hstripe)
    · omega
    · have hq : b.toNat / 4096 ≤ h.toNat / 4096 := Nat.div_le_div_right h1
      have := hfirst (h.toNat / 4096) hq (by omega)
      omega

theorem getNextUnprunedBlockHeight_least_second_stripe :
    ((385 : UInt32) = 0 ∨ ∃ s L : UInt32, 1 ≤ L ∧ L ≤ 7 ∧ 1 ≤ s ∧ s.toNat ≤ 2 ^ L.toNat ∧
      makePruningSeed s L = .ok 385) ∧
    (20000 : UInt64) ≤ cryptonoteMaxBlockNumber + 1 ∧ (100 : UInt64) < 20000 ∧
    (100 ≤ getNextUnprunedBlockHeight 100 20000 385 ∧
      hasUnprunedBlock (getNextUnprunedBlockHeight 100 20000 385) 20000 385 = true ∧
      ∀ h, 100 ≤ h → h < getNextUnprunedBlockHeight 100 20000 385 →
        hasUnprunedBlock h 20000 385 = false) := by
  have hseed : (385 : UInt32) = 0 ∨ ∃ s L : UInt32, 1 ≤ L ∧ L ≤ 7 ∧ 1 ≤ s ∧
      s.toNat ≤ 2 ^ L.toNat ∧ makePruningSeed s L = .ok 385 :=
    Or.inr ⟨2, 3, by decide, by decide, by decide, by decide, by decide⟩
  exact ⟨hseed, by decide, by decide,
    getNextUnprunedBlockHeight_least hseed (by decide) (by decide)⟩

/-- get_next_pruned_block_height from the first block of a stripe-1 node, on a chain of 9000
blocks: the first run of 4096 blocks and the last 5500 blocks are kept, so no block below 9000 is
pruned, yet the call returns 3500, the start of the tip, which the next stripe's jump is clamped
to. -/
theorem getNextPrunedBlockHeight_stops_at_tip :
    makePruningSeed 1 3 = .ok 384 ∧ getNextPrunedBlockHeight 0 9000 384 = .ok 3500 ∧
      ∀ h : UInt64, h < 9000 → hasUnprunedBlock h 9000 384 = true := by
  have hmake : makePruningSeed 1 3 = .ok 384 := by decide
  refine ⟨hmake, by decide, ?_⟩
  intro h hh
  have hhn : h.toNat < 9000 := UInt64.lt_iff_toNat_lt.mp hh
  rw [hasUnprunedBlock_iff (by decide) hmake (UInt64.le_of_lt (UInt64.lt_of_lt_of_le hh (by decide))),
    show (2 : Nat) ^ (3 : UInt32).toNat = 8 from rfl, show (1 : UInt32).toNat = 1 from rfl,
    show (9000 : UInt64).toNat = 9000 from rfl]
  omega

end PepePrivate.Common
