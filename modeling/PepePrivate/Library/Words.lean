import Mathlib

/-! 64-bit words split into 32-bit halves, the way portable wide multiplication computes
with them: the halves, products of halves that cannot wrap, and a high half shifted over a
low one. -/

namespace Words

theorem toNat_lt_two_pow (x : UInt64) : x.toNat < 2 ^ 64 := x.toNat_lt_size

theorem toNat_shiftRight_32 (x : UInt64) : (x >>> 32).toNat = x.toNat / 2 ^ 32 := by
  rw [UInt64.toNat_shiftRight, Nat.shiftRight_eq_div_pow]
  rfl

theorem toNat_and_low (x : UInt64) : (x &&& 0xFFFFFFFF).toNat = x.toNat % 2 ^ 32 := by
  rw [UInt64.toNat_and, ← Nat.and_two_pow_sub_one_eq_mod]
  rfl

theorem toNat_shiftLeft_32 (x : UInt64) : (x <<< 32).toNat = x.toNat % 2 ^ 32 * 2 ^ 32 := by
  rw [UInt64.toNat_shiftLeft, Nat.shiftLeft_eq, show (32 : UInt64).toNat % 64 = 32 from rfl]
  omega

theorem toNat_shiftLeft_or {x y : UInt64} (hy : y.toNat < 2 ^ 32) :
    ((x <<< 32) ||| y).toNat = x.toNat % 2 ^ 32 * 2 ^ 32 + y.toNat := by
  have hshift : (x <<< 32).toNat = (x.toNat % 2 ^ 32) <<< 32 := by
    rw [toNat_shiftLeft_32, Nat.shiftLeft_eq]
  rw [UInt64.toNat_or, hshift, ← Nat.shiftLeft_add_eq_or_of_lt hy, Nat.shiftLeft_eq]

theorem toNat_shiftLeft_or_low (x y : UInt64) :
    ((x <<< 32) ||| (y &&& 0xFFFFFFFF)).toNat = x.toNat % 2 ^ 32 * 2 ^ 32 + y.toNat % 2 ^ 32 := by
  rw [toNat_shiftLeft_or (by rw [toNat_and_low]; omega), toNat_and_low]

theorem toNat_low_or_shiftLeft (x y : UInt64) :
    ((y &&& (0xFFFFFFFF : UInt64)) ||| (x <<< 32)).toNat = x.toNat % 2 ^ 32 * 2 ^ 32 + y.toNat % 2 ^ 32 := by
  rw [UInt64.or_comm, toNat_shiftLeft_or_low]

theorem toNat_mul_of_lt {x y : UInt64} (hx : x.toNat < 2 ^ 32) (hy : y.toNat < 2 ^ 32) :
    (x * y).toNat = x.toNat * y.toNat := by
  rw [UInt64.toNat_mul, Nat.mod_eq_of_lt]
  calc x.toNat * y.toNat < 2 ^ 32 * 2 ^ 32 := Nat.mul_lt_mul'' hx hy
    _ = 2 ^ 64 := by norm_num

theorem mul_le_of_lt {m n : Nat} (hm : m < 2 ^ 32) (hn : n < 2 ^ 32) :
    m * n ≤ (2 ^ 32 - 1) * (2 ^ 32 - 1) :=
  Nat.mul_le_mul (by omega) (by omega)

theorem mul_eq_halves (m n : Nat) :
    m * n = m / 2 ^ 32 * (n / 2 ^ 32) * 2 ^ 64 +
      (m / 2 ^ 32 * (n % 2 ^ 32) + m % 2 ^ 32 * (n / 2 ^ 32)) * 2 ^ 32 + m % 2 ^ 32 * (n % 2 ^ 32) := by
  conv_lhs => rw [← Nat.div_add_mod m (2 ^ 32), ← Nat.div_add_mod n (2 ^ 32)]
  ring

/-! ## Long division by digits -/

theorem div_digit {D : Nat} (a d B : Nat) (hD : 0 < D) :
    (a * B + d) / D = a / D * B + (a % D * B + d) / D ∧
      (a * B + d) % D = (a % D * B + d) % D := by
  have hsplit : a * B + d = (a % D * B + d) + D * (a / D * B) := by
    conv_lhs => rw [← Nat.mod_add_div a D]
    ring
  constructor
  · rw [hsplit, Nat.add_mul_div_left _ _ hD]
    ring
  · rw [hsplit, Nat.add_mul_mod_self_left]

theorem digit_quot_lt {D r d B : Nat} (hr : r < D) (hd : d < B) : (r * B + d) / D < B := by
  rw [Nat.div_lt_iff_lt_mul (by omega)]
  calc r * B + d < (r + 1) * B := by rw [Nat.add_one_mul]; omega
    _ ≤ D * B := Nat.mul_le_mul_right _ hr
    _ = B * D := Nat.mul_comm _ _

theorem div_four_digits {D : Nat} (B d3 d2 d1 d0 : Nat) (hD : 0 < D) :
    (((d3 * B + d2) * B + d1) * B + d0) / D =
        ((d3 / D * B + (d3 % D * B + d2) / D) * B + ((d3 % D * B + d2) % D * B + d1) / D) * B +
          (((d3 % D * B + d2) % D * B + d1) % D * B + d0) / D ∧
      (((d3 * B + d2) * B + d1) * B + d0) % D =
        (((d3 % D * B + d2) % D * B + d1) % D * B + d0) % D := by
  obtain ⟨hA2, hR2⟩ := div_digit d3 d2 B hD
  obtain ⟨hA3, hR3⟩ := div_digit (d3 * B + d2) d1 B hD
  obtain ⟨hA4, hR4⟩ := div_digit ((d3 * B + d2) * B + d1) d0 B hD
  rw [hA4, hR4, hA3, hR3, hA2, hR2]
  exact ⟨rfl, rfl⟩

end Words
