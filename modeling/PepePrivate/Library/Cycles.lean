import Mathlib

/-! Numbers taken in cycles of m: the first number from q on that leaves a given residue
modulo m, and that no number between q and it leaves that residue. -/

namespace Cycles

def nextAtResidue (q m i : Nat) : Nat := (q / m + if i < q % m then 1 else 0) * m + i

variable {q m i : Nat}

theorem nextAtResidue_eq :
    nextAtResidue q m i = q / m * m + (if i < q % m then m else 0) + i := by
  unfold nextAtResidue
  split_ifs <;> ring

theorem nextAtResidue_mod (hi : i < m) : nextAtResidue q m i % m = i := by
  rw [nextAtResidue, Nat.mul_add_mod_self_right, Nat.mod_eq_of_lt hi]

theorem lt_nextAtResidue (hi : i < m) (hq : q % m ≠ i) : q < nextAtResidue q m i := by
  have hq' := Nat.div_add_mod' q m
  have hr := Nat.mod_lt q (show 0 < m by omega)
  rw [nextAtResidue_eq]
  generalize q / m * m = t at hq' ⊢
  split_ifs <;> omega

theorem nextAtResidue_lt (hi : i < m) : nextAtResidue q m i < q + m := by
  have hq := Nat.div_add_mod' q m
  rw [nextAtResidue_eq]
  generalize q / m * m = t at hq ⊢
  split_ifs <;> omega

theorem nextAtResidue_le {y : Nat} (hi : i < m) (hy : q ≤ y) (hyi : y % m = i) :
    nextAtResidue q m i ≤ y := by
  have hq := Nat.div_add_mod' q m
  have hy' := Nat.div_add_mod' y m
  have hr := Nat.mod_lt q (show 0 < m by omega)
  have hdiv : q / m * m ≤ y / m * m := Nat.mul_le_mul_right m (Nat.div_le_div_right hy)
  rw [nextAtResidue_eq]
  split_ifs with hlt
  · have hnext : q / m + 1 ≤ y / m := by
      by_contra hsame
      have heq : y / m = q / m := by
        have := Nat.div_le_div_right (c := m) hy
        omega
      rw [heq] at hy'
      omega
    have := Nat.mul_le_mul_right m hnext
    rw [Nat.add_mul, Nat.one_mul] at this
    omega
  · omega

end Cycles
