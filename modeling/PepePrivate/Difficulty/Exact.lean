import PepePrivate.Difficulty.Algorithms
import PepePrivate.Difficulty.CheckHash

/-! The difficulty formulas of difficulty.cpp over unbounded naturals, and where the uint64_t
code leaves them: the rounding step of next_difficulty, whose carry test also fires below
2^64, and the products of next_difficulty_lwma_4. -/

namespace PepePrivate.Difficulty

/-! ### next_difficulty -/

theorem roundUp_toNat (product : Nat) (timeSpan : UInt64) (hspan : timeSpan ≠ 0) :
    (if product / 2 ^ 64 ≠ 0 ∨ product.toUInt64 + timeSpan - 1 < product.toUInt64 then 0
      else (product.toUInt64 + timeSpan - 1) / timeSpan).toNat =
      if product + timeSpan.toNat - 1 < 2 ^ 64 then (product + timeSpan.toNat - 1) / timeSpan.toNat
      else 0 := by
  have hpos : 0 < timeSpan.toNat := UInt64.lt_iff_toNat_lt.mp (UInt64.pos_iff_ne_zero.mpr hspan)
  have hts := timeSpan.toNat_lt
  have hlow : product.toUInt64.toNat = product % 2 ^ 64 := by
    rw [Nat.toUInt64_eq, UInt64.toNat_ofNat']
  have hsum : (product.toUInt64 + timeSpan - 1).toNat =
      (product % 2 ^ 64 + timeSpan.toNat - 1) % 2 ^ 64 := by
    rw [UInt64.toNat_sub, UInt64.toNat_add, hlow]
    simp only [UInt64.toNat_one]
    omega
  by_cases hfit : product + timeSpan.toNat - 1 < 2 ^ 64
  · have hp : product / 2 ^ 64 = 0 := Nat.div_eq_of_lt (by omega)
    have hnocarry : ¬product.toUInt64 + timeSpan - 1 < product.toUInt64 := by
      rw [UInt64.lt_iff_toNat_lt, hsum, hlow]
      omega
    rw [if_neg (by simp only [hp, ne_eq, not_true_eq_false, false_or, hnocarry, not_false_eq_true]),
      if_pos hfit, UInt64.toNat_div, hsum]
    congr 1
    omega
  · rw [if_neg hfit]
    by_cases hp : product < 2 ^ 64
    · have hcarry : product.toUInt64 + timeSpan - 1 < product.toUInt64 := by
        rw [UInt64.lt_iff_toNat_lt, hsum, hlow]
        omega
      rw [if_pos (Or.inr hcarry)]
      rfl
    · have hhigh : product / 2 ^ 64 ≠ 0 := by
        rw [ne_eq, Nat.div_eq_zero_iff_lt (by norm_num)]
        exact hp
      rw [if_pos (Or.inl hhigh)]
      rfl

/-- next_difficulty on a window of at most DIFFICULTY_WINDOW - 2 * DIFFICULTY_CUT blocks, where
nothing is cut: the ceiling of total_work * target / time_span while total_work * target +
time_span - 1 fits in 64 bits, and 0 otherwise. -/
theorem nextDifficulty_toNat {timestamps cumulativeDifficulties : List UInt64} (target : UInt64)
    (hlen : 2 ≤ timestamps.length)
    (hkept : timestamps.length ≤ difficultyWindow - 2 * difficultyCut) :
    let sorted := timestamps.insertionSort (· ≤ ·)
    let span := sorted.getD (timestamps.length - 1) 0 - sorted.getD 0 0
    let timeSpan := if span = 0 then 1 else span
    let totalWork := cumulativeDifficulties.getD (timestamps.length - 1) 0 -
      cumulativeDifficulties.getD 0 0
    (nextDifficulty timestamps cumulativeDifficulties target).toNat =
      if totalWork.toNat * target.toNat + timeSpan.toNat - 1 < 2 ^ 64 then
        (totalWork.toNat * target.toNat + timeSpan.toNat - 1) / timeSpan.toNat
      else 0 := by
  intro sorted span timeSpan totalWork
  have hspan : timeSpan ≠ 0 := by
    simp only [timeSpan]
    split_ifs with h
    · decide
    · exact h
  have hnotcut : ¬timestamps.length > difficultyWindow := by
    simp only [difficultyWindow, difficultyCut] at hkept ⊢
    omega
  rw [← roundUp_toNat _ _ hspan]
  simp only [nextDifficulty, if_neg hnotcut, if_pos hkept,
    if_neg (show ¬timestamps.length ≤ 1 by omega), Nat.zero_add]
  rfl

theorem nextDifficulty_toNat_two_blocks :
    2 ≤ ([0, 120] : List UInt64).length ∧
      ([0, 120] : List UInt64).length ≤ difficultyWindow - 2 * difficultyCut ∧
      let sorted := ([0, 120] : List UInt64).insertionSort (· ≤ ·)
      let span := sorted.getD (([0, 120] : List UInt64).length - 1) 0 - sorted.getD 0 0
      let timeSpan := if span = 0 then 1 else span
      let totalWork := ([0, 1000] : List UInt64).getD (([0, 120] : List UInt64).length - 1) 0 -
        ([0, 1000] : List UInt64).getD 0 0
      (nextDifficulty [0, 120] [0, 1000] 120).toNat =
        if totalWork.toNat * (120 : UInt64).toNat + timeSpan.toNat - 1 < 2 ^ 64 then
          (totalWork.toNat * (120 : UInt64).toNat + timeSpan.toNat - 1) / timeSpan.toNat
        else 0 :=
  ⟨by decide, by decide, nextDifficulty_toNat 120 (by decide) (by decide)⟩

/-! ### next_difficulty_lwma_4 -/

def lwma4SolveTimeExact (ts : List Nat) (t i : Nat) : Nat :=
  let at_ (j : Nat) := ts.getD j 0
  if i > 4 ∧ at_ i - at_ (i - 1) > 5 * t ∧ at_ (i - 1) - at_ (i - 4) < 14 * t / 10 then 2 * t
  else if i > 7 ∧ at_ i - at_ (i - 1) > 5 * t ∧ at_ (i - 1) - at_ (i - 7) < 4 * t then 2 * t
  else min (5 * t) (at_ i - at_ (i - 1))

def roundInsignificantExact (nextD : Nat) : Nat → Nat
  | 0 => nextD
  | k + 1 =>
    if nextD > 10 ^ (k + 1) * 100 then (nextD + 10 ^ (k + 1) / 2) / 10 ^ (k + 1) * 10 ^ (k + 1)
    else roundInsignificantExact nextD k

/-- The formula of next_difficulty_lwma_4 evaluated over unbounded naturals: the value the
uint64_t code is meant to return. On nondecreasing timestamps and increasing cumulative
difficulties every difference it takes is exact, so truncated subtraction loses nothing. -/
def nextDifficultyLwma4Exact (timestamps cumulativeDifficulties : List Nat) : Nat :=
  let t := difficultyTargetV11.toNat
  if timestamps.length ≤ 12 then 80000
  else
    let n := min (timestamps.length - 1) difficultyWindowV11
    let ts := match timestamps.take (n + 1) with
      | [] => []
      | t0 :: rest => rest.scanl max t0
    let at_ (j : Nat) := ts.getD j 0
    let cd (j : Nat) := cumulativeDifficulties.getD j 0
    let l := max ((List.range' 1 n).map fun i => lwma4SolveTimeExact ts t i * i).sum (n * n * t / 20)
    let avgD := (cd n - cd 0) / n
    let nextD := if avgD > 2000000 * n * n * t then avgD / (200 * l) * (n * (n + 1) * t * 97)
      else avgD * n * (n + 1) * t * 97 / (200 * l)
    let prevD := cd n - cd (n - 1)
    let nextD :=
      if at_ n - at_ (n - 1) < 2 * t / 10 ∨ at_ n - at_ (n - 2) < 5 * t / 10 ∨
          at_ n - at_ (n - 3) < 8 * t / 10 then
        max nextD (min (prevD * 110 / 100) (105 * avgD / 100))
      else nextD
    let nextD := roundInsignificantExact nextD 9
    if nextD > 100000 then (nextD + 500) / 1000 * 1000 + min 999 ((at_ n - at_ (n - 10)) / 10)
    else nextD

-- Ninety blocks at the target spacing, of difficulty 2·10^11 each: avg_D takes the
-- small-difficulty branch and its product wraps, so LWMA-4 returns 6300000120 where the
-- formula gives 194000000120.
theorem nextDifficultyLwma4_wraps_small_branch :
    ((List.range 91).map fun i => (200000000000 * i).toUInt64).Pairwise (· < ·) ∧
      nextDifficultyLwma4 ((List.range 91).map fun i => (120 * i).toUInt64)
        ((List.range 91).map fun i => (200000000000 * i).toUInt64) = 6300000120 ∧
      nextDifficultyLwma4Exact (((List.range 91).map fun i => (120 * i).toUInt64).map UInt64.toNat)
        (((List.range 91).map fun i => (200000000000 * i).toUInt64).map UInt64.toNat) =
        194000000120 := by
  decide +kernel

/-! ### A zero difficulty -/

-- Before version 7 a product of 2^64 - 16 fits, yet the carry test returns 0 where the
-- ceiling is positive; from version 10 ninety slow blocks of difficulty one give 0. At
-- difficulty 0 check_hash accepts every hash.
theorem nextDifficultyFor_zero_on_admissible_windows :
    76861433640456465 * difficultyTargetV2.toNat < 2 ^ 64 ∧
      nextDifficultyFor 6 [0, 100] [0, 76861433640456465] = 0 ∧
      0 < (76861433640456465 * difficultyTargetV2.toNat + 100 - 1) / 100 ∧
      ((List.range 91).map fun i => i.toUInt64).Pairwise (· < ·) ∧
      nextDifficultyFor 10 ((List.range 91).map fun i => (720 * i).toUInt64)
        ((List.range 91).map fun i => i.toUInt64) = 0 ∧
      ∀ hash : Hash, checkHash mul hash 0 = true := by
  refine ⟨by decide, by decide +kernel, by decide, by decide +kernel, by decide +kernel,
    fun hash => ?_⟩
  exact (checkHash_iff mul_correct hash 0).mpr (by simp)

end PepePrivate.Difficulty
