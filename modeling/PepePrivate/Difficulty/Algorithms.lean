import Mathlib

/-! The difficulty algorithms of cryptonote_basic/difficulty.cpp and the window sizes of
cryptonote_config.h. Timestamps and cumulative difficulties are uint64_t, so they are
UInt64 here and wrap as the source does; the 128-bit product of mul is taken over Nat.
LWMA computes in double, so it is written over Float. -/

namespace PepePrivate.Difficulty

def difficultyTargetV2 : UInt64 := 240
def difficultyWindow : Nat := 720
def difficultyWindowV2 : Nat := 30
def difficultyWindowV3 : Nat := 17
def difficultyLag : Nat := 15
def difficultyCut : Nat := 60
def difficultyTargetV11 : UInt64 := 120
def difficultyWindowV11 : Nat := 90
def difficultyBlocksCount : Nat := difficultyWindow + difficultyLag
def difficultyBlocksCountV2 : Nat := difficultyWindowV2 + 1
def difficultyBlocksCountV3 : Nat := difficultyWindowV3 + 1
def difficultyBlocksCountV11 : Nat := difficultyWindowV11 + 1

def getDifficultyBlocksCount (version : UInt8) : Nat :=
  if version < 7 then difficultyBlocksCount
  else if version < 9 then difficultyBlocksCountV2
  else if version < 10 then difficultyBlocksCountV3
  else difficultyBlocksCountV11

theorem getDifficultyBlocksCount_ge (version : UInt8) : 18 ≤ getDifficultyBlocksCount version := by
  unfold getDifficultyBlocksCount
  split_ifs <;> decide

def resize (l : List UInt64) (n : Nat) : List UInt64 := l.take n ++ List.replicate (n - l.length) 0

def nextDifficulty (timestamps cumulativeDifficulties : List UInt64) (targetSeconds : UInt64) :
    UInt64 :=
  let (timestamps, cumulativeDifficulties) :=
    if timestamps.length > difficultyWindow then
      (resize timestamps difficultyWindow, resize cumulativeDifficulties difficultyWindow)
    else (timestamps, cumulativeDifficulties)
  let length := timestamps.length
  if length ≤ 1 then 1
  else
    let sorted := timestamps.insertionSort (· ≤ ·)
    let kept := difficultyWindow - 2 * difficultyCut
    let cutBegin := if length ≤ kept then 0 else (length - kept + 1) / 2
    let cutEnd := if length ≤ kept then length else cutBegin + kept
    let timeSpan := sorted.getD (cutEnd - 1) 0 - sorted.getD cutBegin 0
    let timeSpan := if timeSpan = 0 then 1 else timeSpan
    let totalWork :=
      cumulativeDifficulties.getD (cutEnd - 1) 0 - cumulativeDifficulties.getD cutBegin 0
    -- mul(total_work, target_seconds, low, high): the 128-bit product in two words
    let product := totalWork.toNat * targetSeconds.toNat
    let low := product.toUInt64
    if product / 2 ^ 64 ≠ 0 ∨ low + timeSpan - 1 < low then 0
    else (low + timeSpan - 1) / timeSpan

def lwmaTerm (timestamps cumulativeDifficulties : List UInt64) (t ftl : Int64) (k : Float)
    (acc : Float × Float) (i : Nat) : Float × Float :=
  let solveTime := (timestamps.getD i 0).toInt64 - (timestamps.getD (i - 1) 0).toInt64
  let solveTime := min (t * 10) (max solveTime (-ftl))
  let difficulty := cumulativeDifficulties.getD i 0 - cumulativeDifficulties.getD (i - 1) 0
  (acc.1 + Float.ofInt (solveTime * i.toInt64).toInt / k, acc.2 + 1 / difficulty.toFloat)

def nextDifficultyLwma (timestamps cumulativeDifficulties : List UInt64) (version : UInt8) :
    UInt64 :=
  let t : Int64 := 240
  let (n, ftl) : Nat × Int64 := if version ≥ 9 then (difficultyWindowV3, 300) else (difficultyWindowV2, 600)
  let adjust : Float := 0.998
  if timestamps.length < 4 then 1
  else
    let (n, timestamps, cumulativeDifficulties) :=
      if timestamps.length < n + 1 then (timestamps.length - 1, timestamps, cumulativeDifficulties)
      else (n, resize timestamps (n + 1), resize cumulativeDifficulties (n + 1))
    let k := Float.ofNat (n * (n + 1) / 2)
    let (lwma, sumInverseD) :=
      (List.range' 1 n).foldl (lwmaTerm timestamps cumulativeDifficulties t ftl k) (0, 0)
    let harmonicMeanD := Float.ofNat n / sumInverseD
    let lwma := if lwma.round.toInt64 < t / 20 then Float.ofInt (t / 20).toInt else lwma
    (harmonicMeanD * Float.ofInt t.toInt / lwma * adjust).toUInt64

def runningMax (prev : UInt64) : List UInt64 → List UInt64
  | [] => []
  | t :: ts =>
    let cur := if t > prev then t else prev
    cur :: runningMax cur ts

def lwma4SolveTime (ts : List UInt64) (t : UInt64) (i : Nat) : UInt64 :=
  let at_ (j : Nat) := ts.getD j 0
  if i > 4 ∧ at_ i - at_ (i - 1) > 5 * t ∧ at_ (i - 1) - at_ (i - 4) < 14 * t / 10 then 2 * t
  else if i > 7 ∧ at_ i - at_ (i - 1) > 5 * t ∧ at_ (i - 1) - at_ (i - 7) < 4 * t then 2 * t
  else min (5 * t) (at_ i - at_ (i - 1))

def roundInsignificant (nextD : UInt64) : Nat → UInt64
  | 0 => nextD
  | k + 1 =>
    let i : UInt64 := 10 ^ (k + 1)
    if nextD > i * 100 then (nextD + i / 2) / i * i else roundInsignificant nextD k

def nextDifficultyLwma4 (timestamps cumulativeDifficulties : List UInt64) : UInt64 :=
  let t := difficultyTargetV11
  let difficultyGuess : UInt64 := 80000
  if timestamps.length ≤ 12 then difficultyGuess
  else
    let n := if timestamps.length < difficultyWindowV11 + 1 then timestamps.length - 1
      else difficultyWindowV11
    let ts := match timestamps.take (n + 1) with
      | [] => []
      | t0 :: rest => t0 :: runningMax t0 rest
    let at_ (j : Nat) := ts.getD j 0
    let cd (j : Nat) := cumulativeDifficulties.getD j 0
    let nn := n.toUInt64
    let l := (List.range' 1 n).foldl (fun l i => l + lwma4SolveTime ts t i * i.toUInt64) 0
    let l := if l < nn * nn * t / 20 then nn * nn * t / 20 else l
    let avgD := (cd n - cd 0) / nn
    let nextD := if avgD > 2000000 * nn * nn * t then avgD / (200 * l) * (nn * (nn + 1) * t * 97)
      else avgD * nn * (nn + 1) * t * 97 / (200 * l)
    let prevD := cd n - cd (n - 1)
    -- the 10% jump rule
    let nextD :=
      if at_ n - at_ (n - 1) < 2 * t / 10 ∨ at_ n - at_ (n - 2) < 5 * t / 10 ∨
          at_ n - at_ (n - 3) < 8 * t / 10 then
        max nextD (min (prevD * 110 / 100) (105 * avgD / 100))
      else nextD
    let nextD := roundInsignificant nextD 9
    if nextD > 100000 then (nextD + 500) / 1000 * 1000 + min 999 ((at_ n - at_ (n - 10)) / 10)
    else nextD

/-- The choice of algorithm by hard-fork version that ends both get_difficulty_for_next_block
and get_next_difficulty_for_alternative_chain. -/
def nextDifficultyFor (version : UInt8) (timestamps difficulties : List UInt64) : UInt64 :=
  if version ≥ 10 then nextDifficultyLwma4 timestamps difficulties
  else if version ≥ 7 then nextDifficultyLwma timestamps difficulties version
  else nextDifficulty timestamps difficulties difficultyTargetV2

end PepePrivate.Difficulty
