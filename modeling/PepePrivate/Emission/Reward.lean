import PepePrivate.Difficulty.Algorithms
import PepePrivate.Library.Words

/-! get_block_reward of cryptonote_basic_impl.cpp with the 128-bit helpers of int-util.h. The
base reward is the coins left shifted right by the emission speed factor, floored at the tail
subsidy; a block heavier than the median is paid a penalised share, computed as a 128-bit
product and two long divisions by the median in base 2^32. -/

namespace PepePrivate.Emission

def moneySupply : UInt64 := 21000000000000000
def emissionSpeedFactorPerMinute : UInt64 := 20
def finalSubsidyPerMinute : UInt64 := 300000000
def premineBurn : UInt64 := 0
def moneyPremine : UInt64 := 3000000000000000
def cryptonoteBlockGrantedFullRewardZoneV1 : UInt64 := 20000
def cryptonoteBlockGrantedFullRewardZoneV2 : UInt64 := 60000
def cryptonoteBlockGrantedFullRewardZoneV5 : UInt64 := 300000
def minimumBlockSizeLimit : UInt64 := 1 * 1024 * 1024

def targetMinutes : UInt64 := Difficulty.difficultyTargetV2 / 60

def emissionSpeedFactor : UInt64 := emissionSpeedFactorPerMinute - (targetMinutes - 3)

def getMinBlockWeight (version : UInt8) : UInt64 :=
  if version < 2 then cryptonoteBlockGrantedFullRewardZoneV1
  else if version < 5 then cryptonoteBlockGrantedFullRewardZoneV2
  else if version < 13 then cryptonoteBlockGrantedFullRewardZoneV5
  else minimumBlockSizeLimit

def hiDword (val : UInt64) : UInt64 := val >>> 32

def loDword (val : UInt64) : UInt64 := val &&& 0xFFFFFFFF

/-- mul128: the product of two words from the four products of their 32-bit halves, with the
carries of the middle sum and of the low word; the result is (product_lo, product_hi). -/
def mul128 (multiplier multiplicand : UInt64) : UInt64 × UInt64 :=
  let a := hiDword multiplier
  let b := loDword multiplier
  let c := hiDword multiplicand
  let d := loDword multiplicand
  let ac := a * c
  let ad := a * d
  let bc := b * c
  let bd := b * d
  let adbc := ad + bc
  let adbcCarry : UInt64 := if adbc < ad then 1 else 0
  let productLo := bd + (adbc <<< 32)
  let productLoCarry : UInt64 := if productLo < bd then 1 else 0
  (productLo, ac + (adbc >>> 32) + (adbcCarry <<< 32) + productLoCarry)

theorem toNat_hiDword (x : UInt64) : (hiDword x).toNat = x.toNat / 2 ^ 32 :=
  Words.toNat_shiftRight_32 x

theorem toNat_loDword (x : UInt64) : (loDword x).toNat = x.toNat % 2 ^ 32 :=
  Words.toNat_and_low x

theorem mul128_spec (multiplier multiplicand : UInt64) :
    (mul128 multiplier multiplicand).1.toNat + 2 ^ 64 * (mul128 multiplier multiplicand).2.toNat =
      multiplier.toNat * multiplicand.toNat := by
  have hprod : multiplier.toNat * multiplicand.toNat < 2 ^ 64 * 2 ^ 64 :=
    Nat.mul_lt_mul'' (Words.toNat_lt_two_pow _) (Words.toNat_lt_two_pow _)
  have ha : (hiDword multiplier).toNat < 2 ^ 32 := by
    rw [toNat_hiDword]
    have := Words.toNat_lt_two_pow multiplier
    omega
  have hb : (loDword multiplier).toNat < 2 ^ 32 := by rw [toNat_loDword]; omega
  have hc : (hiDword multiplicand).toNat < 2 ^ 32 := by
    rw [toNat_hiDword]
    have := Words.toNat_lt_two_pow multiplicand
    omega
  have hd : (loDword multiplicand).toNat < 2 ^ 32 := by rw [toNat_loDword]; omega
  have hsplit : multiplier.toNat * multiplicand.toNat =
      (hiDword multiplier * hiDword multiplicand).toNat * 2 ^ 64 +
        ((hiDword multiplier * loDword multiplicand).toNat +
          (loDword multiplier * hiDword multiplicand).toNat) * 2 ^ 32 +
        (loDword multiplier * loDword multiplicand).toNat := by
    rw [Words.toNat_mul_of_lt ha hc, Words.toNat_mul_of_lt ha hd, Words.toNat_mul_of_lt hb hc,
      Words.toNat_mul_of_lt hb hd, toNat_hiDword, toNat_hiDword, toNat_loDword, toNat_loDword]
    exact Words.mul_eq_halves _ _
  have hac := Words.toNat_lt_two_pow (hiDword multiplier * hiDword multiplicand)
  have had := Words.toNat_lt_two_pow (hiDword multiplier * loDword multiplicand)
  have hbc := Words.toNat_lt_two_pow (loDword multiplier * hiDword multiplicand)
  have hbd := Words.toNat_lt_two_pow (loDword multiplier * loDword multiplicand)
  simp only [mul128]
  generalize hiDword multiplier * hiDword multiplicand = ac at *
  generalize hiDword multiplier * loDword multiplicand = ad at *
  generalize loDword multiplier * hiDword multiplicand = bc at *
  generalize loDword multiplier * loDword multiplicand = bd at *
  split_ifs with hmid hlow hlow <;>
    simp only [UInt64.lt_iff_toNat_lt, UInt64.toNat_add, Words.toNat_shiftLeft_32,
      Words.toNat_shiftRight_32, UInt64.toNat_one, UInt64.toNat_zero] at hmid hlow ⊢ <;>
    omega

/-- div_with_reminder: one step of long division, the remainder so far as the high half of the
dividend; the result is (quotient, remainder). -/
def divWithReminder (dividend : UInt64) (divisor remainder : UInt32) : UInt64 × UInt32 :=
  let dividend := dividend ||| (remainder.toUInt64 <<< 32)
  (dividend / divisor.toUInt64, (dividend % divisor.toUInt64).toUInt32)

/-- div128_32: long division of a 128-bit number by a 32-bit one, a 32-bit digit at a time; the
result is (remainder, quotient_hi, quotient_lo). -/
def div128_32 (dividendHi dividendLo : UInt64) (divisor : UInt32) : UInt32 × UInt64 × UInt64 :=
  let q3 := divWithReminder (hiDword dividendHi) divisor 0
  let q2 := divWithReminder (loDword dividendHi) divisor q3.2
  let q1 := divWithReminder (hiDword dividendLo) divisor q2.2
  let q0 := divWithReminder (loDword dividendLo) divisor q1.2
  (q0.2, (q3.1 <<< 32) ||| q2.1, (q1.1 <<< 32) ||| q0.1)

def baseReward (alreadyGeneratedCoins : UInt64) (version : UInt8) : UInt64 :=
  let alreadyGeneratedCoins :=
    if version > 12 then alreadyGeneratedCoins - premineBurn else alreadyGeneratedCoins
  let baseReward := (moneySupply - alreadyGeneratedCoins) >>> emissionSpeedFactor
  if baseReward < finalSubsidyPerMinute * targetMinutes then finalSubsidyPerMinute * targetMinutes
  else baseReward

/-- get_block_reward; none where it returns false. The asserts of the source are not checked in
a release build and are left out. -/
def getBlockReward (medianWeight currentBlockWeight alreadyGeneratedCoins : UInt64) (version : UInt8) :
    Option UInt64 :=
  let baseReward := baseReward alreadyGeneratedCoins version
  let fullRewardZone := getMinBlockWeight version
  let medianWeight := if medianWeight < fullRewardZone then fullRewardZone else medianWeight
  if currentBlockWeight ≤ medianWeight then some baseReward
  else if currentBlockWeight > 2 * medianWeight then none
  else
    let multiplicand := (2 * medianWeight - currentBlockWeight) * currentBlockWeight
    let product := mul128 baseReward multiplicand
    let reward := div128_32 product.2 product.1 medianWeight.toUInt32
    let reward := div128_32 reward.2.1 reward.2.2 medianWeight.toUInt32
    some reward.2.2

theorem getBlockReward_of_le {medianWeight currentBlockWeight : UInt64} (alreadyGeneratedCoins : UInt64)
    (version : UInt8) (h : currentBlockWeight ≤ medianWeight) :
    getBlockReward medianWeight currentBlockWeight alreadyGeneratedCoins version =
      some (baseReward alreadyGeneratedCoins version) := by
  have hclamp : currentBlockWeight ≤
      if medianWeight < getMinBlockWeight version then getMinBlockWeight version else medianWeight := by
    split_ifs with hlt
    · exact UInt64.le_trans h (UInt64.le_of_lt hlt)
    · exact h
  simp only [getBlockReward, hclamp, ↓reduceIte]

theorem baseReward_eq {alreadyGeneratedCoins : UInt64} (h : alreadyGeneratedCoins ≤ moneySupply)
    (version : UInt8) :
    (baseReward alreadyGeneratedCoins version).toNat =
      max 1200000000 ((moneySupply.toNat - alreadyGeneratedCoins.toNat) / 2 ^ 19) := by
  have hburn : alreadyGeneratedCoins - premineBurn = alreadyGeneratedCoins := by
    simp [premineBurn]
  have hshift : ((moneySupply - alreadyGeneratedCoins) >>> emissionSpeedFactor).toNat =
      (moneySupply.toNat - alreadyGeneratedCoins.toNat) / 2 ^ 19 := by
    rw [UInt64.toNat_shiftRight, UInt64.toNat_sub_of_le _ _ h, Nat.shiftRight_eq_div_pow]
    rfl
  have htail : (finalSubsidyPerMinute * targetMinutes).toNat = 1200000000 := by decide
  simp only [baseReward, hburn, ite_self]
  split_ifs with hlt
  · rw [UInt64.lt_iff_toNat_lt, hshift, htail] at hlt
    rw [htail]
    omega
  · rw [UInt64.lt_iff_toNat_lt, hshift, htail] at hlt
    rw [hshift]
    omega

theorem divWithReminder_spec {dividend : UInt64} {divisor remainder : UInt32}
    (hd : dividend.toNat < 2 ^ 32) (hr : remainder.toNat < divisor.toNat) :
    (divWithReminder dividend divisor remainder).1.toNat =
        (remainder.toNat * 2 ^ 32 + dividend.toNat) / divisor.toNat ∧
      (divWithReminder dividend divisor remainder).2.toNat =
        (remainder.toNat * 2 ^ 32 + dividend.toNat) % divisor.toNat := by
  have hcat : (dividend ||| (remainder.toUInt64 <<< 32)).toNat =
      remainder.toNat * 2 ^ 32 + dividend.toNat := by
    rw [UInt64.or_comm, Words.toNat_shiftLeft_or hd, UInt32.toNat_toUInt64,
      Nat.mod_eq_of_lt remainder.toNat_lt]
  have hD := divisor.toNat_lt
  refine ⟨?_, ?_⟩
  · rw [divWithReminder, UInt64.toNat_div, hcat, UInt32.toNat_toUInt64]
  · rw [divWithReminder, UInt64.toNat_toUInt32, UInt64.toNat_mod, hcat, UInt32.toNat_toUInt64]
    exact Nat.mod_eq_of_lt (lt_of_lt_of_le (Nat.mod_lt _ (by omega)) hD.le)

theorem div128_32_spec (dividendHi dividendLo : UInt64) {divisor : UInt32}
    (hD : 0 < divisor.toNat) :
    (div128_32 dividendHi dividendLo divisor).2.1.toNat * 2 ^ 64 +
        (div128_32 dividendHi dividendLo divisor).2.2.toNat =
        (dividendHi.toNat * 2 ^ 64 + dividendLo.toNat) / divisor.toNat ∧
      (div128_32 dividendHi dividendLo divisor).1.toNat =
        (dividendHi.toNat * 2 ^ 64 + dividendLo.toNat) % divisor.toNat := by
  have h3 : (hiDword dividendHi).toNat < 2 ^ 32 := by
    rw [toNat_hiDword]
    have := Words.toNat_lt_two_pow dividendHi
    omega
  have h2 : (loDword dividendHi).toNat < 2 ^ 32 := by rw [toNat_loDword]; omega
  have h1 : (hiDword dividendLo).toNat < 2 ^ 32 := by
    rw [toNat_hiDword]
    have := Words.toNat_lt_two_pow dividendLo
    omega
  have h0 : (loDword dividendLo).toNat < 2 ^ 32 := by rw [toNat_loDword]; omega
  have hdigits : dividendHi.toNat * 2 ^ 64 + dividendLo.toNat =
      (((hiDword dividendHi).toNat * 2 ^ 32 + (loDword dividendHi).toNat) * 2 ^ 32 +
        (hiDword dividendLo).toNat) * 2 ^ 32 + (loDword dividendLo).toNat := by
    rw [toNat_hiDword, toNat_loDword, toNat_hiDword, toNat_loDword]
    have := Nat.div_add_mod dividendHi.toNat (2 ^ 32)
    have := Nat.div_add_mod dividendLo.toNat (2 ^ 32)
    omega
  simp only [div128_32]
  obtain ⟨hq3, hr3⟩ := @divWithReminder_spec (hiDword dividendHi) divisor 0 h3 (by simpa using hD)
  simp only [UInt32.toNat_zero, Nat.zero_mul, Nat.zero_add] at hq3 hr3
  generalize divWithReminder (hiDword dividendHi) divisor 0 = s3 at hq3 hr3 ⊢
  obtain ⟨hq2, hr2⟩ := @divWithReminder_spec (loDword dividendHi) divisor s3.2 h2
    (by rw [hr3]; exact Nat.mod_lt _ hD)
  generalize divWithReminder (loDword dividendHi) divisor s3.2 = s2 at hq2 hr2 ⊢
  obtain ⟨hq1, hr1⟩ := @divWithReminder_spec (hiDword dividendLo) divisor s2.2 h1
    (by rw [hr2]; exact Nat.mod_lt _ hD)
  generalize divWithReminder (hiDword dividendLo) divisor s2.2 = s1 at hq1 hr1 ⊢
  obtain ⟨hq0, hr0⟩ := @divWithReminder_spec (loDword dividendLo) divisor s1.2 h0
    (by rw [hr1]; exact Nat.mod_lt _ hD)
  generalize divWithReminder (loDword dividendLo) divisor s1.2 = s0 at hq0 hr0 ⊢
  rw [hr3] at hq2 hr2
  rw [hr2] at hq1 hr1
  rw [hr1] at hq0 hr0
  have hq3' : s3.1.toNat < 2 ^ 32 := by
    rw [hq3]
    exact lt_of_le_of_lt (Nat.div_le_self _ _) h3
  have hq2' : s2.1.toNat < 2 ^ 32 := by
    rw [hq2]
    exact Words.digit_quot_lt (Nat.mod_lt _ hD) h2
  have hq0' : s0.1.toNat < 2 ^ 32 := by
    rw [hq0]
    exact Words.digit_quot_lt (Nat.mod_lt _ hD) h0
  obtain ⟨hdiv, hmod⟩ := Words.div_four_digits (2 ^ 32) (hiDword dividendHi).toNat
    (loDword dividendHi).toNat (hiDword dividendLo).toNat (loDword dividendLo).toNat hD
  rw [Words.toNat_shiftLeft_or hq2', Words.toNat_shiftLeft_or hq0', Nat.mod_eq_of_lt hq3',
    Nat.mod_eq_of_lt (show s1.1.toNat < 2 ^ 32 from ?_), hdigits, hdiv, hmod, hq3, hq2, hq1, hq0, hr0]
  · constructor
    · ring
    · rfl
  · rw [hq1]
    exact Words.digit_quot_lt (Nat.mod_lt _ hD) h1

theorem getMinBlockWeight_ge (version : UInt8) : 20000 ≤ (getMinBlockWeight version).toNat := by
  unfold getMinBlockWeight
  split_ifs <;> decide

theorem penalty_lt_sq {M W : Nat} (hlt : M < W) (hle : W ≤ 2 * M) : (2 * M - W) * W < M ^ 2 := by
  obtain ⟨e, rfl⟩ : ∃ e, W = M + e := ⟨W - M, by omega⟩
  obtain ⟨f, hf⟩ : ∃ f, M = e + f := ⟨M - e, by omega⟩
  have he : 0 < e * e := Nat.mul_pos (by omega) (by omega)
  have hsq : M ^ 2 = f * (M + e) + e * e := by
    rw [hf]
    ring
  rw [show 2 * M - (M + e) = f by omega, hsq]
  omega

theorem penalizedReward_toNat (b : UInt64) {m W : UInt64} (hm : m.toNat < 2 ^ 32)
    (h1 : m.toNat < W.toNat) (h2 : W.toNat ≤ 2 * m.toNat) :
    (div128_32 (div128_32 (mul128 b ((2 * m - W) * W)).2 (mul128 b ((2 * m - W) * W)).1
        m.toUInt32).2.1
      (div128_32 (mul128 b ((2 * m - W) * W)).2 (mul128 b ((2 * m - W) * W)).1 m.toUInt32).2.2
      m.toUInt32).2.2.toNat =
      b.toNat * (2 * m.toNat - W.toNat) * W.toNat / m.toNat ^ 2 := by
  have hpen := penalty_lt_sq h1 h2
  have hsq : m.toNat ^ 2 < 2 ^ 64 := by
    calc m.toNat ^ 2 < (2 ^ 32) ^ 2 := Nat.pow_lt_pow_left hm (by norm_num)
      _ = 2 ^ 64 := by norm_num
  have h2m : (2 * m).toNat = 2 * m.toNat := by
    rw [UInt64.toNat_mul, show (2 : UInt64).toNat = 2 from rfl]
    omega
  have hsub : (2 * m - W).toNat = 2 * m.toNat - W.toNat := by
    rw [UInt64.toNat_sub_of_le _ _ (UInt64.le_iff_toNat_le.mpr (by rw [h2m]; exact h2)), h2m]
  have hmult : ((2 * m - W) * W).toNat = (2 * m.toNat - W.toNat) * W.toNat := by
    rw [UInt64.toNat_mul, hsub]
    exact Nat.mod_eq_of_lt (by omega)
  have hdivisor : m.toUInt32.toNat = m.toNat := by
    rw [UInt64.toNat_toUInt32]
    exact Nat.mod_eq_of_lt hm
  have hpos : 0 < m.toUInt32.toNat := by omega
  have hprod := mul128_spec b ((2 * m - W) * W)
  generalize mul128 b ((2 * m - W) * W) = p at hprod ⊢
  obtain ⟨hq1, -⟩ := div128_32_spec p.2 p.1 hpos
  generalize div128_32 p.2 p.1 m.toUInt32 = r1 at hq1 ⊢
  obtain ⟨hq2, -⟩ := div128_32_spec r1.2.1 r1.2.2 hpos
  generalize div128_32 r1.2.1 r1.2.2 m.toUInt32 = r2 at hq2 ⊢
  rw [hmult] at hprod
  have hN : p.2.toNat * 2 ^ 64 + p.1.toNat = b.toNat * ((2 * m.toNat - W.toNat) * W.toNat) := by
    rw [← hprod]
    ring
  rw [hq1, hdivisor, hN, Nat.div_div_eq_div_mul, ← pow_two, ← Nat.mul_assoc] at hq2
  have hle : b.toNat * (2 * m.toNat - W.toNat) * W.toNat / m.toNat ^ 2 ≤ b.toNat := by
    apply Nat.div_le_of_le_mul
    rw [Nat.mul_assoc, Nat.mul_comm (m.toNat ^ 2)]
    exact Nat.mul_le_mul_left _ hpen.le
  have hb := Words.toNat_lt_two_pow b
  omega

/-- get_block_reward in numbers. With the median raised to the full reward zone, M', and the
base reward B: a block over 2M' fails, a block up to M' is paid B, and one in between is paid
B(2M' - W)W / M'^2 exactly, less than B. -/
theorem getBlockReward_exact (M W G : UInt64) (version : UInt8) (hG : G ≤ moneySupply)
    (hM : max M.toNat (getMinBlockWeight version).toNat < 2 ^ 32) :
    let M' := max M.toNat (getMinBlockWeight version).toNat
    let B := max ((moneySupply.toNat - G.toNat) >>> emissionSpeedFactor.toNat)
      (finalSubsidyPerMinute.toNat * targetMinutes.toNat)
    (getBlockReward M W G version = none ↔ 2 * M' < W.toNat) ∧
      (W.toNat ≤ M' → (getBlockReward M W G version).map UInt64.toNat = some B) ∧
      (M' < W.toNat → W.toNat ≤ 2 * M' →
        (getBlockReward M W G version).map UInt64.toNat =
            some (B * (2 * M' - W.toNat) * W.toNat / M' ^ 2) ∧
          B * (2 * M' - W.toNat) * W.toNat / M' ^ 2 < B) := by
  intro M' B
  have hB : (baseReward G version).toNat = B := by
    rw [baseReward_eq hG, max_comm]
    show _ = max ((moneySupply.toNat - G.toNat) >>> 19) 1200000000
    rw [Nat.shiftRight_eq_div_pow]
  have hzone := getMinBlockWeight_ge version
  simp only [getBlockReward]
  have hclamp : (if M < getMinBlockWeight version then getMinBlockWeight version else M).toNat = M' := by
    split_ifs with h <;> rw [UInt64.lt_iff_toNat_lt] at h <;> omega
  generalize (if M < getMinBlockWeight version then getMinBlockWeight version else M) = m at hclamp ⊢
  have hBpos : 0 < B := by
    rw [← hB, baseReward_eq hG]
    omega
  have hM20 : 20000 ≤ M' := le_max_of_le_right hzone
  replace hM : M' < 2 ^ 32 := hM
  clear_value M' B
  have h2m : (2 * m).toNat = 2 * M' := by
    rw [UInt64.toNat_mul, hclamp, show (2 : UInt64).toNat = 2 from rfl]
    omega
  have hle : W ≤ m ↔ W.toNat ≤ M' := by rw [UInt64.le_iff_toNat_le, hclamp]
  have hgt : W > 2 * m ↔ 2 * M' < W.toNat := by rw [gt_iff_lt, UInt64.lt_iff_toNat_lt, h2m]
  refine ⟨?_, ?_, ?_⟩
  · by_cases h1 : W.toNat ≤ M'
    · rw [if_pos (hle.mpr h1)]
      simp only [reduceCtorEq, false_iff]
      omega
    rw [if_neg (mt hle.mp h1)]
    by_cases h2 : 2 * M' < W.toNat
    · simp only [if_pos (hgt.mpr h2), h2]
    · simp only [if_neg (mt hgt.mp h2), h2, reduceCtorEq]
  · intro h1
    rw [if_pos (hle.mpr h1), Option.map_some, hB]
  intro h1 h2
  rw [if_neg (mt hle.mp (by omega)), if_neg (mt hgt.mp (by omega)), Option.map_some]
  refine ⟨?_, ?_⟩
  · rw [Option.some_inj, penalizedReward_toNat _ (by omega) (by omega) (by omega), hB, hclamp]
  · rw [Nat.div_lt_iff_lt_mul (by positivity), Nat.mul_assoc]
    exact Nat.mul_lt_mul_of_pos_left (penalty_lt_sq h1 h2) hBpos

theorem getBlockReward_exact_over_zone :
    (0 : UInt64) ≤ moneySupply ∧ max (300000 : UInt64).toNat (getMinBlockWeight 16).toNat < 2 ^ 32 ∧
    (getBlockReward 300000 1500000 0 16 = none ↔
        2 * max (300000 : UInt64).toNat (getMinBlockWeight 16).toNat < (1500000 : UInt64).toNat) ∧
      ((1500000 : UInt64).toNat ≤ max (300000 : UInt64).toNat (getMinBlockWeight 16).toNat →
        (getBlockReward 300000 1500000 0 16).map UInt64.toNat =
          some (max ((moneySupply.toNat - (0 : UInt64).toNat) >>> emissionSpeedFactor.toNat)
            (finalSubsidyPerMinute.toNat * targetMinutes.toNat))) ∧
      (max (300000 : UInt64).toNat (getMinBlockWeight 16).toNat < (1500000 : UInt64).toNat →
        (1500000 : UInt64).toNat ≤ 2 * max (300000 : UInt64).toNat (getMinBlockWeight 16).toNat →
        (getBlockReward 300000 1500000 0 16).map UInt64.toNat =
            some (max ((moneySupply.toNat - (0 : UInt64).toNat) >>> emissionSpeedFactor.toNat)
                (finalSubsidyPerMinute.toNat * targetMinutes.toNat) *
              (2 * max (300000 : UInt64).toNat (getMinBlockWeight 16).toNat - (1500000 : UInt64).toNat) *
              (1500000 : UInt64).toNat / max (300000 : UInt64).toNat (getMinBlockWeight 16).toNat ^ 2) ∧
          max ((moneySupply.toNat - (0 : UInt64).toNat) >>> emissionSpeedFactor.toNat)
                (finalSubsidyPerMinute.toNat * targetMinutes.toNat) *
              (2 * max (300000 : UInt64).toNat (getMinBlockWeight 16).toNat - (1500000 : UInt64).toNat) *
              (1500000 : UInt64).toNat / max (300000 : UInt64).toNat (getMinBlockWeight 16).toNat ^ 2 <
            max ((moneySupply.toNat - (0 : UInt64).toNat) >>> emissionSpeedFactor.toNat)
              (finalSubsidyPerMinute.toNat * targetMinutes.toNat)) := by
  have hG : (0 : UInt64) ≤ moneySupply := by decide
  have hM : max (300000 : UInt64).toNat (getMinBlockWeight 16).toNat < 2 ^ 32 := by decide
  exact ⟨hG, hM, getBlockReward_exact 300000 1500000 0 16 hG hM⟩

end PepePrivate.Emission
