import Mathlib

/-! Per-value counters kept beside a list, as `UInt32` tallies: bumping a counter when its
value enters the list and unbumping it when the value leaves keeps every counter equal to
the value's number of occurrences, modulo `2 ^ 32`. Below `2 ^ 32` entries the counters are
exact, so a counter is never unbumped from zero. -/

namespace Tally

variable {α : Type*} [DecidableEq α]

def bump (c : α → UInt32) (a : α) : α → UInt32 :=
  fun x => if x = a then c x + 1 else c x

def unbump (c : α → UInt32) (a : α) : α → UInt32 :=
  fun x => if x = a then c x - 1 else c x

/-- `c` counts the occurrences of every value in `l`, modulo `2 ^ 32`. -/
def Counts (c : α → UInt32) (l : List α) : Prop :=
  ∀ x, (c x).toNat = l.count x % 2 ^ 32

theorem counts_nil : Counts (fun _ => (0 : UInt32)) ([] : List α) := by
  intro x
  simp

theorem Counts.bump_append {c : α → UInt32} {l : List α} (h : Counts c l) (a : α) :
    Counts (bump c a) (l ++ [a]) := by
  intro x
  by_cases hx : x = a
  · subst hx
    simp only [bump, if_true, UInt32.toNat_add, h x, List.count_append, List.count_singleton_self,
      UInt32.reduceToNat]
    omega
  · simp [bump, hx, h x, List.count_append, Ne.symm hx]

theorem Counts.bump_cons {c : α → UInt32} {l : List α} (h : Counts c l) (a : α) :
    Counts (bump c a) (a :: l) := by
  intro x
  by_cases hx : x = a
  · subst hx
    simp only [bump, if_true, UInt32.toNat_add, h x, List.count_cons_self, UInt32.reduceToNat]
    omega
  · simp [bump, hx, h x, Ne.symm hx]

theorem Counts.unbump_of_count {c : α → UInt32} {l l' : List α} {a : α} (h : Counts c l)
    (hcount : ∀ x, l.count x = l'.count x + if x = a then 1 else 0) : Counts (unbump c a) l' := by
  intro x
  by_cases hx : x = a
  · subst hx
    have hc := hcount x
    simp only [if_true] at hc
    simp only [unbump, if_true, UInt32.toNat_sub, h x, hc, UInt32.reduceToNat]
    omega
  · have hc := hcount x
    simp only [hx, if_false, Nat.add_zero] at hc
    simp [unbump, hx, h x, hc]

theorem Counts.unbump_cons {c : α → UInt32} {l : List α} {a : α} (h : Counts c (a :: l)) :
    Counts (unbump c a) l :=
  h.unbump_of_count fun x => by
    by_cases hx : x = a
    · subst hx
      simp
    · simp [hx, Ne.symm hx]

theorem Counts.unbump_dropLast {c : α → UInt32} {l : List α} {a : α} (h : Counts c l)
    (hl : l.getLast? = some a) : Counts (unbump c a) l.dropLast := by
  have he : l = l.dropLast ++ [a] := (List.dropLast_append_getLast? a hl).symm
  refine h.unbump_of_count fun x => ?_
  conv_lhs => rw [he]
  by_cases hx : x = a <;> simp [List.count_append, hx, Ne.symm]

theorem Counts.foldl_bump {c : α → UInt32} {l : List α} (h : Counts c l) (m : List α) :
    Counts (m.foldl bump c) (l ++ m) := by
  induction m generalizing c l with
  | nil => simpa using h
  | cons a m ih => simpa [List.foldl_cons] using ih (h.bump_append a)

theorem Counts.toNat_eq {c : α → UInt32} {l : List α} (h : Counts c l) (hl : l.length < 2 ^ 32)
    (x : α) : (c x).toNat = l.count x := by
  rw [h x, Nat.mod_eq_of_lt (lt_of_le_of_lt List.count_le_length hl)]

theorem Counts.one_le_of_mem {c : α → UInt32} {l : List α} {x : α} (h : Counts c l)
    (hl : l.length < 2 ^ 32) (hx : x ∈ l) : 1 ≤ c x := by
  rw [UInt32.le_iff_toNat_le, h.toNat_eq hl]
  simpa using List.count_pos_iff.mpr hx

theorem Counts.unique {c c' : α → UInt32} {l : List α} (h : Counts c l) (h' : Counts c' l) :
    c = c' := by
  funext x
  apply UInt32.toNat_inj.mp
  rw [h x, h' x]

end Tally
