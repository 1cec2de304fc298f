import Mathlib

/-! Fixed-width positional notation. `toDigitsLE b n v` is the `n` lowest base-`b` digits of
`v`, least significant first, read back by Mathlib's `Nat.ofDigits`; a big-endian digit string
is read by a left fold. A fixed width keeps leading zeros, which is what makes a fixed-width
encoding a bijection between `[0, b ^ n)` and digit strings of length `n`. Also the carry test
of wrapped addition and lookup in a table of distinct symbols, which a digit codec needs. -/

namespace Digits

/-- The `n` lowest base-`b` digits of `v`, least significant first. -/
def toDigitsLE (b : Nat) : Nat → Nat → List Nat
  | 0, _ => []
  | n + 1, v => v % b :: toDigitsLE b n (v / b)

def ofDigitsBE (b : Nat) (l : List Nat) : Nat := l.foldl (fun acc d => acc * b + d) 0

@[simp] theorem length_toDigitsLE (b n v : Nat) : (toDigitsLE b n v).length = n := by
  induction n generalizing v with
  | zero => rfl
  | succ n ih => simp [toDigitsLE, ih]

theorem lt_of_mem_toDigitsLE {b n v d : Nat} (hb : 0 < b) (h : d ∈ toDigitsLE b n v) : d < b := by
  induction n generalizing v with
  | zero => simp [toDigitsLE] at h
  | succ n ih =>
    rcases List.mem_cons.mp h with rfl | h
    · exact Nat.mod_lt _ hb
    · exact ih h

theorem toDigitsLE_zero (b n : Nat) : toDigitsLE b n 0 = List.replicate n 0 := by
  induction n with
  | zero => rfl
  | succ n ih => simp [toDigitsLE, ih, List.replicate_succ]

theorem ofDigits_toDigitsLE (b n v : Nat) : Nat.ofDigits b (toDigitsLE b n v) = v % b ^ n := by
  induction n generalizing v with
  | zero => simp [toDigitsLE, Nat.mod_one]
  | succ n ih => rw [toDigitsLE, Nat.ofDigits_cons, ih, pow_succ', Nat.mod_mul]

theorem toDigitsLE_ofDigits {b : Nat} {l : List Nat} (hl : ∀ d ∈ l, d < b) :
    toDigitsLE b l.length (Nat.ofDigits b l) = l := by
  induction l with
  | nil => rfl
  | cons d l ih =>
    have hd := hl d (by simp)
    have hmod : (d + b * Nat.ofDigits b l) % b = d := by
      rw [Nat.add_mul_mod_self_left, Nat.mod_eq_of_lt hd]
    have hdiv : (d + b * Nat.ofDigits b l) / b = Nat.ofDigits b l := by
      rw [Nat.add_mul_div_left _ _ (by omega), Nat.div_eq_of_lt hd, Nat.zero_add]
    rw [List.length_cons, toDigitsLE, Nat.ofDigits_cons, hmod, hdiv,
      ih fun x hx => hl x (by simp [hx])]

theorem ofDigits_drop_eq (b : Nat) (l : List Nat) {n k : Nat} (hk : n + k ≤ l.length) :
    Nat.ofDigits b (l.drop n) =
      Nat.ofDigits b ((l.drop n).take k) + b ^ k * Nat.ofDigits b (l.drop (n + k)) := by
  have hlen : ((l.drop n).take k).length = k := by simp; omega
  conv_lhs => rw [← List.take_append_drop k (l.drop n)]
  rw [Nat.ofDigits_append, hlen, List.drop_drop]

theorem foldl_mul_add (b acc : Nat) (l : List Nat) :
    l.foldl (fun acc d => acc * b + d) acc = acc * b ^ l.length + Nat.ofDigits b l.reverse := by
  induction l generalizing acc with
  | nil => simp
  | cons d l ih =>
    rw [List.foldl_cons, ih, List.reverse_cons, Nat.ofDigits_append, Nat.ofDigits_singleton,
      List.length_cons, List.length_reverse, pow_succ]
    ring

theorem ofDigitsBE_eq (b : Nat) (l : List Nat) : ofDigitsBE b l = Nat.ofDigits b l.reverse := by
  simp [ofDigitsBE, foldl_mul_add]

theorem add_mod_lt_iff {m r p : Nat} (hr : r < m) (hp : p < m) : (r + p) % m < r ↔ m ≤ r + p := by
  by_cases h : r + p < m
  · rw [Nat.mod_eq_of_lt h]
    omega
  · have hsub : (r + p) % m = r + p - m := by
      rw [Nat.mod_eq_sub_mod (by omega), Nat.mod_eq_of_lt (by omega)]
    omega

theorem idxOf?_getElem_of_nodup {α : Type*} [BEq α] [LawfulBEq α] {l : List α} (hl : l.Nodup)
    {i : Nat} (hi : i < l.length) : l.idxOf? l[i] = some i := by
  refine List.idxOf?_eq_some_iff.mpr ⟨hi, rfl, fun j hj h => ?_⟩
  have := (hl.getElem_inj_iff).mp h
  omega

/-! ### Bytes, least significant first -/

def toBytesLE (n v : Nat) : List UInt8 := (toDigitsLE 256 n v).map Nat.toUInt8

def ofBytesLE (l : List UInt8) : Nat := Nat.ofDigits 256 (l.map UInt8.toNat)

@[simp] theorem length_toBytesLE (n v : Nat) : (toBytesLE n v).length = n := by
  simp [toBytesLE]

theorem map_toNat_toBytesLE (n v : Nat) : (toBytesLE n v).map UInt8.toNat = toDigitsLE 256 n v := by
  rw [toBytesLE, List.map_map]
  conv_rhs => rw [← List.map_id (toDigitsLE 256 n v)]
  apply List.map_congr_left
  intro d hd
  have hlt : d < 256 := lt_of_mem_toDigitsLE (by norm_num) hd
  rw [Function.comp_apply, Nat.toUInt8_eq, UInt8.toNat_ofNat', Nat.mod_eq_of_lt (by simpa using hlt)]
  rfl

theorem ofBytesLE_toBytesLE (n v : Nat) : ofBytesLE (toBytesLE n v) = v % 256 ^ n := by
  rw [ofBytesLE, map_toNat_toBytesLE, ofDigits_toDigitsLE]

theorem ofBytesLE_lt (l : List UInt8) : ofBytesLE l < 256 ^ l.length := by
  have hlt := Nat.ofDigits_lt_base_pow_length (b := 256) (l := l.map UInt8.toNat) (by norm_num)
    (fun x hx => by
      obtain ⟨y, -, rfl⟩ := List.mem_map.mp hx
      exact y.toNat_lt)
  rwa [List.length_map] at hlt

end Digits
