import PepePrivate.Emission.Reward
import PepePrivate.Library.Digits

/-! check_hash of cryptonote_basic/difficulty.cpp: a hash meets a difficulty when the hash,
read as a 256-bit little-endian number, times the difficulty stays below 2^256. The product
is taken one 64-bit word of the hash at a time; only the carries of the upper words are kept.
The word product mul is mul128 on x86_64 and a portable 32-bit version elsewhere. -/

namespace PepePrivate.Difficulty

/-- A product split into its low and high words, as both versions of mul return it. -/
def MulCorrect (mul : UInt64 → UInt64 → UInt64 × UInt64) : Prop :=
  ∀ a b, (mul a b).1.toNat + 2 ^ 64 * (mul a b).2.toNat = a.toNat * b.toNat

/-- mul on x86_64: (low, high). -/
def mul (a b : UInt64) : UInt64 × UInt64 := Emission.mul128 a b

/-- The portable mul, in 32-bit limbs: (low, high). -/
def mulPortable (a b : UInt64) : UInt64 × UInt64 :=
  let aLow := a &&& 0xFFFFFFFF
  let aHigh := a >>> 32
  let bLow := b &&& 0xFFFFFFFF
  let bHigh := b >>> 32
  let res := aLow * bLow
  let lowRes1 := res &&& 0xFFFFFFFF
  let carry := res >>> 32
  let res := aHigh * bLow + carry
  let highResHigh1 := res >>> 32
  let highResLow1 := res &&& 0xFFFFFFFF
  let res := aLow * bHigh
  let lowRes2 := res &&& 0xFFFFFFFF
  let carry := res >>> 32
  let res := aHigh * bHigh + carry
  let highResHigh2 := res >>> 32
  let highResLow2 := res &&& 0xFFFFFFFF
  -- addition
  let r := highResLow1 + lowRes2
  let carry := r >>> 32
  let low := (r <<< 32) ||| lowRes1
  let r := highResHigh1 + highResLow2 + carry
  let d3 := r &&& 0xFFFFFFFF
  let carry := r >>> 32
  let r := highResHigh2 + carry
  (low, d3 ||| (r <<< 32))

def cadd (a b : UInt64) : Bool := a + b < a

def cadc (a b : UInt64) (c : Bool) : Bool := a + b < a || (c && a + b == -1)

/-- crypto::hash: 32 bytes. -/
structure Hash where
  data : List UInt8
  length_eq : data.length = 32

def Hash.word (hash : Hash) (i : Nat) : UInt64 :=
  (Nat.ofDigits 256 (((hash.data.drop (8 * i)).take 8).map UInt8.toNat)).toUInt64

def Hash.toNat (hash : Hash) : Nat := Nat.ofDigits 256 (hash.data.map UInt8.toNat)

/-- check_hash, for the mul it is compiled with. -/
def checkHash (mul : UInt64 → UInt64 → UInt64 × UInt64) (hash : Hash) (difficulty : UInt64) :
    Bool :=
  -- first the highest word, which most likely fails for a random hash
  let (top, high) := mul (hash.word 3) difficulty
  if high ≠ 0 then false
  else
    let (_, cur) := mul (hash.word 0) difficulty
    let (low, high) := mul (hash.word 1) difficulty
    let carry := cadd cur low
    let cur := high
    let (low, high) := mul (hash.word 2) difficulty
    let carry := cadc cur low carry
    let carry := cadc high top carry
    !carry

end PepePrivate.Difficulty

namespace PepePrivate.Difficulty

theorem mul_correct : MulCorrect mul := Emission.mul128_spec

theorem mulPortable_correct : MulCorrect mulPortable := by
  intro a b
  have hprod : a.toNat * b.toNat < 2 ^ 64 * 2 ^ 64 :=
    Nat.mul_lt_mul'' (Words.toNat_lt_two_pow a) (Words.toNat_lt_two_pow b)
  have hsplit := Words.mul_eq_halves a.toNat b.toNat
  have haH : a.toNat / 2 ^ 32 < 2 ^ 32 := by have := Words.toNat_lt_two_pow a; omega
  have haL : a.toNat % 2 ^ 32 < 2 ^ 32 := by omega
  have hbH : b.toNat / 2 ^ 32 < 2 ^ 32 := by have := Words.toNat_lt_two_pow b; omega
  have hbL : b.toNat % 2 ^ 32 < 2 ^ 32 := by omega
  have hHH := Words.mul_le_of_lt haH hbH
  have hHL := Words.mul_le_of_lt haH hbL
  have hLH := Words.mul_le_of_lt haL hbH
  have hLL := Words.mul_le_of_lt haL hbL
  simp only [mulPortable, Words.toNat_shiftLeft_or_low, Words.toNat_low_or_shiftLeft,
    UInt64.toNat_add, UInt64.toNat_mul, Words.toNat_and_low, Words.toNat_shiftRight_32]
  omega

theorem cadd_eq_true_iff (a b : UInt64) : cadd a b = true ↔ 2 ^ 64 ≤ a.toNat + b.toNat := by
  have ha := Words.toNat_lt_two_pow a
  have hb := Words.toNat_lt_two_pow b
  simp only [cadd, decide_eq_true_iff, UInt64.lt_iff_toNat_lt, UInt64.toNat_add]
  omega

theorem cadc_eq_true_iff (a b : UInt64) (c : Bool) :
    cadc a b c = true ↔ 2 ^ 64 ≤ a.toNat + b.toNat + c.toNat := by
  have ha := Words.toNat_lt_two_pow a
  have hb := Words.toNat_lt_two_pow b
  have hmax : (-1 : UInt64).toNat = 2 ^ 64 - 1 := rfl
  cases c <;>
    simp only [cadc, Bool.or_eq_true, decide_eq_true_iff, Bool.and_eq_true, beq_iff_eq,
      UInt64.lt_iff_toNat_lt, ← UInt64.toNat_inj, UInt64.toNat_add, hmax, Bool.toNat_true,
      Bool.toNat_false, Bool.false_eq_true, false_and, or_false, true_and] <;>
    omega

theorem Hash.toNat_word (hash : Hash) (i : Nat) :
    (hash.word i).toNat = Nat.ofDigits 256 (((hash.data.map UInt8.toNat).drop (8 * i)).take 8) := by
  have hdigits : ∀ d ∈ ((hash.data.map UInt8.toNat).drop (8 * i)).take 8, d < 256 := by
    intro d hd
    obtain ⟨b, -, rfl⟩ := List.mem_map.mp (List.mem_of_mem_drop (List.mem_of_mem_take hd))
    exact b.toNat_lt
  have hlt : Nat.ofDigits 256 (((hash.data.map UInt8.toNat).drop (8 * i)).take 8) < 2 ^ 64 :=
    calc _ < 256 ^ (((hash.data.map UInt8.toNat).drop (8 * i)).take 8).length :=
          Nat.ofDigits_lt_base_pow_length (by norm_num) hdigits
      _ ≤ 256 ^ 8 := Nat.pow_le_pow_right (by norm_num) (by simp)
      _ = 2 ^ 64 := by norm_num
  have hmap : ((hash.data.drop (8 * i)).take 8).map UInt8.toNat =
      ((hash.data.map UInt8.toNat).drop (8 * i)).take 8 := by
    rw [List.map_take, List.map_drop]
  rw [Hash.word, UInt64.toNat_ofNat', hmap, Nat.mod_eq_of_lt hlt]

theorem Hash.toNat_eq_words (hash : Hash) :
    hash.toNat = (hash.word 0).toNat + 2 ^ 64 * (hash.word 1).toNat +
      2 ^ 128 * (hash.word 2).toNat + 2 ^ 192 * (hash.word 3).toNat := by
  have hlen : (hash.data.map UInt8.toNat).length = 32 := by simp [hash.length_eq]
  have hend : (hash.data.map UInt8.toNat).drop 32 = [] := List.drop_of_length_le (by omega)
  have h0 := Digits.ofDigits_drop_eq 256 (hash.data.map UInt8.toNat) (n := 0) (k := 8) (by omega)
  have h1 := Digits.ofDigits_drop_eq 256 (hash.data.map UInt8.toNat) (n := 8) (k := 8) (by omega)
  have h2 := Digits.ofDigits_drop_eq 256 (hash.data.map UInt8.toNat) (n := 16) (k := 8) (by omega)
  have h3 := Digits.ofDigits_drop_eq 256 (hash.data.map UInt8.toNat) (n := 24) (k := 8) (by omega)
  simp only [Nat.reduceAdd, List.drop_zero] at h0 h1 h2 h3
  rw [Hash.toNat, h0, h1, h2, h3, hend, Hash.toNat_word, Hash.toNat_word, Hash.toNat_word,
    Hash.toNat_word]
  simp only [Nat.mul_zero, List.drop_zero, Nat.reduceMul, Nat.ofDigits_nil]
  ring

theorem checkHash_iff {mul : UInt64 → UInt64 → UInt64 × UInt64} (hmul : MulCorrect mul)
    (hash : Hash) (difficulty : UInt64) :
    checkHash mul hash difficulty = true ↔ hash.toNat * difficulty.toNat < 2 ^ 256 := by
  have hexp : hash.toNat * difficulty.toNat =
      (hash.word 0).toNat * difficulty.toNat + 2 ^ 64 * ((hash.word 1).toNat * difficulty.toNat) +
        2 ^ 128 * ((hash.word 2).toNat * difficulty.toNat) +
        2 ^ 192 * ((hash.word 3).toNat * difficulty.toNat) := by
    rw [Hash.toNat_eq_words]
    ring
  have h0 := hmul (hash.word 0) difficulty
  have h1 := hmul (hash.word 1) difficulty
  have h2 := hmul (hash.word 2) difficulty
  have h3 := hmul (hash.word 3) difficulty
  rw [hexp]
  simp only [checkHash]
  generalize mul (hash.word 0) difficulty = p0 at *
  generalize mul (hash.word 1) difficulty = p1 at *
  generalize mul (hash.word 2) difficulty = p2 at *
  generalize mul (hash.word 3) difficulty = p3 at *
  obtain ⟨lo0, hi0⟩ := p0
  obtain ⟨lo1, hi1⟩ := p1
  obtain ⟨lo2, hi2⟩ := p2
  obtain ⟨lo3, hi3⟩ := p3
  dsimp only at h0 h1 h2 h3 ⊢
  have := Words.toNat_lt_two_pow lo0
  have := Words.toNat_lt_two_pow lo1
  have := Words.toNat_lt_two_pow lo2
  have := Words.toNat_lt_two_pow lo3
  have := Words.toNat_lt_two_pow hi0
  have := Words.toNat_lt_two_pow hi1
  have := Words.toNat_lt_two_pow hi2
  by_cases hhigh : hi3 = 0
  · have e1 := cadd_eq_true_iff hi0 lo1
    have e2 := cadc_eq_true_iff hi1 lo2 (cadd hi0 lo1)
    have e3 := cadc_eq_true_iff hi2 lo3 (cadc hi1 lo2 (cadd hi0 lo1))
    have hhigh' : hi3.toNat = 0 := by rw [hhigh]; rfl
    rw [if_neg (not_not.mpr hhigh)]
    generalize cadd hi0 lo1 = c1 at *
    generalize cadc hi1 lo2 c1 = c2 at *
    generalize cadc hi2 lo3 c2 = c3 at *
    cases c1 <;> cases c2 <;> cases c3 <;>
      simp only [Bool.toNat_true, Bool.toNat_false, Bool.not_true, Bool.not_false,
        Bool.false_eq_true, true_iff, false_iff] at e1 e2 e3 ⊢ <;>
      omega
  · have hpos : 0 < hi3.toNat := UInt64.lt_iff_toNat_lt.mp (UInt64.pos_iff_ne_zero.mpr hhigh)
    rw [if_pos hhigh]
    simp only [Bool.false_eq_true, false_iff, not_lt]
    omega

-- at the boundary: the largest hash meets difficulty 1 and fails difficulty 2
example : checkHash mulPortable ⟨List.replicate 32 0xFF, rfl⟩ 1 = true ∧
    checkHash mulPortable ⟨List.replicate 32 0xFF, rfl⟩ 2 = false := by
  decide

/-- Both versions of mul return the full product of their operands, and check_hash built on
either accepts a hash at a difficulty exactly when their product is below 2^256. -/
theorem checkHash_iff_product_lt :
    MulCorrect mul ∧ MulCorrect mulPortable ∧
      ∀ (hash : Hash) (difficulty : UInt64),
        (checkHash mul hash difficulty = true ↔ hash.toNat * difficulty.toNat < 2 ^ 256) ∧
        (checkHash mulPortable hash difficulty = true ↔
          hash.toNat * difficulty.toNat < 2 ^ 256) :=
  ⟨mul_correct, mulPortable_correct, fun hash difficulty =>
    ⟨checkHash_iff mul_correct hash difficulty, checkHash_iff mulPortable_correct hash difficulty⟩⟩

end PepePrivate.Difficulty
