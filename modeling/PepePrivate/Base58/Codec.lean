import PepePrivate.Base58.Basic

/-! The Base58 codec is a bijection between byte strings and the strings `decode` accepts. A
block of `n` bytes denotes a number below `256 ^ n ≤ 58 ^ encoded_block_sizes[n]`, so its digits
fit the encoded block; `decode_block` computes the number of the digits exactly, refuses it past
`2 ^ 64` or past the decoded size, and so accepts only the digits of a block. -/

namespace PepePrivate.Base58

open Digits

/-! ### The size tables -/

theorem decodedBlockSizes_encoded {n : Nat} (hn : n ≤ 8) :
    decodedBlockSizes (encodedBlockSizes.getD n 0) = n := by
  have : ∀ n < 9, decodedBlockSizes (encodedBlockSizes.getD n 0) = n := by decide
  exact this n (by omega)

theorem encoded_of_decodedBlockSizes {r : Nat} (hr : r ≤ 11) (hpos : 0 < decodedBlockSizes r) :
    (decodedBlockSizes r).toNat ≤ 8 ∧ encodedBlockSizes.getD (decodedBlockSizes r).toNat 0 = r := by
  have : ∀ r < 12, 0 < decodedBlockSizes r →
      (decodedBlockSizes r).toNat ≤ 8 ∧
        encodedBlockSizes.getD (decodedBlockSizes r).toNat 0 = r := by decide
  exact this r (by omega) hpos

theorem pow_le_encoded {n : Nat} (hn : n ≤ 8) : 256 ^ n ≤ 58 ^ encodedBlockSizes.getD n 0 := by
  have : ∀ n < 9, 256 ^ n ≤ 58 ^ encodedBlockSizes.getD n 0 := by decide
  exact this n (by omega)

theorem encoded_lt {n : Nat} (hn : n < 8) : encodedBlockSizes.getD n 0 < 11 := by
  have : ∀ n < 8, encodedBlockSizes.getD n 0 < 11 := by decide
  exact this n hn

theorem encoded_pos {n : Nat} (hn : 0 < n) (hn' : n ≤ 8) : 0 < encodedBlockSizes.getD n 0 := by
  have : ∀ n < 9, 0 < n → 0 < encodedBlockSizes.getD n 0 := by decide
  exact this n (by omega) hn

theorem encoded_le {n : Nat} (hn : n ≤ 8) : encodedBlockSizes.getD n 0 ≤ 11 := by
  have : ∀ n < 9, encodedBlockSizes.getD n 0 ≤ 11 := by decide
  exact this n (by omega)

theorem eq_full_of_encoded {n : Nat} (hn : n ≤ 8) (h : encodedBlockSizes.getD n 0 = 11) :
    n = 8 := by
  have : ∀ n < 9, encodedBlockSizes.getD n 0 = 11 → n = 8 := by decide
  exact this n (by omega) h

/-! ### Letters and digits -/

theorem map_reverseAlphabet_letter {ds : List Nat} (hds : ∀ d ∈ ds, d < 58) :
    (ds.map letter).map reverseAlphabet = ds.map some := by
  rw [List.map_map]
  exact List.map_congr_left fun d hd => reverseAlphabet_letter (hds d hd)

theorem eq_map_letter {cs : List UInt8} {ds : List Nat}
    (h : cs.map reverseAlphabet = ds.map some) : cs = ds.map letter ∧ ∀ d ∈ ds, d < 58 := by
  induction cs generalizing ds with
  | nil =>
    obtain rfl : ds = [] := List.map_eq_nil_iff.mp (h.symm.trans List.map_nil)
    simp
  | cons c cs ih =>
    cases ds with
    | nil => simp at h
    | cons d ds =>
    simp only [List.map_cons, List.cons.injEq] at h
    obtain ⟨hlt, hc⟩ := letter_of_reverseAlphabet h.1
    obtain ⟨rfl, hds⟩ := ih h.2
    refine ⟨by rw [List.map_cons, hc], ?_⟩
    intro x hx
    rcases List.mem_cons.mp hx with rfl | hx
    · exact hlt
    · exact hds x hx

theorem uint8beTo64_eq (data : List UInt8) :
    uint8beTo64 data = Nat.ofDigits 256 (data.map UInt8.toNat).reverse := by
  rw [uint8beTo64, ofDigitsBE_eq]

theorem lt_of_mem_bytes {data : List UInt8} {d : Nat} (hd : d ∈ (data.map UInt8.toNat).reverse) :
    d < 256 := by
  simp only [List.mem_reverse, List.mem_map] at hd
  obtain ⟨a, -, rfl⟩ := hd
  exact a.toNat_lt

theorem uint8beTo64_lt (data : List UInt8) : uint8beTo64 data < 256 ^ data.length := by
  rw [uint8beTo64_eq]
  have := Nat.ofDigits_lt_base_pow_length (l := (data.map UInt8.toNat).reverse) (by norm_num)
    fun d hd => lt_of_mem_bytes hd
  simpa using this

theorem uint64To8be_uint8beTo64 (data : List UInt8) :
    uint64To8be (uint8beTo64 data) data.length = data := by
  have hlen : (data.map UInt8.toNat).reverse.length = data.length := by simp
  rw [uint64To8be, uint8beTo64_eq, ← hlen, toDigitsLE_ofDigits fun d hd => lt_of_mem_bytes hd,
    List.reverse_reverse, List.map_map, List.map_congr_left (g := id) fun a _ => by simp,
    List.map_id]

theorem length_uint64To8be (num size : Nat) : (uint64To8be num size).length = size := by
  simp [uint64To8be]

theorem uint8beTo64_uint64To8be {num size : Nat} (h : num < 256 ^ size) :
    uint8beTo64 (uint64To8be num size) = num := by
  have hd : ∀ d ∈ toDigitsLE 256 size num, d % 256 = d :=
    fun d hd => Nat.mod_eq_of_lt (lt_of_mem_toDigitsLE (by norm_num) hd)
  simp only [uint8beTo64_eq, uint64To8be, List.map_reverse, List.reverse_reverse, List.map_map]
  have hmap : (toDigitsLE 256 size num).map (UInt8.toNat ∘ Nat.toUInt8) =
      toDigitsLE 256 size num := by
    conv_rhs => rw [← List.map_id (toDigitsLE 256 size num)]
    exact List.map_congr_left fun d hd' => by simpa using hd d hd'
  rw [hmap, ofDigits_toDigitsLE, Nat.mod_eq_of_lt h]

/-! ### One block -/

theorem encodeBlockLoop_eq (k num : Nat) (res : List UInt8) (hk : k ≤ res.length)
    (hpad : res.take k = List.replicate k (letter 0)) :
    encodeBlockLoop k num res = (toDigitsLE 58 k num).reverse.map letter ++ res.drop k := by
  induction k generalizing num res with
  | zero => simp [encodeBlockLoop, toDigitsLE]
  | succ k ih =>
    simp only [encodeBlockLoop]
    split_ifs with hn
    · have hpad' : (res.set k (alphabet.getD (num % 58) 0)).take k =
          List.replicate k (letter 0) := by
        have htake : res.take k = (res.take (k + 1)).take k := by
          rw [List.take_take, min_eq_left (by omega)]
        rw [List.take_set_of_le le_rfl, htake, hpad, List.take_replicate, min_eq_left (by omega)]
      have hdrop : (res.set k (alphabet.getD (num % 58) 0)).drop k =
          letter (num % 58) :: res.drop (k + 1) := by
        rw [List.drop_set, if_neg (Nat.lt_irrefl k), Nat.sub_self,
          List.drop_eq_getElem_cons (by omega)]
        rfl
      rw [ih (num / 58) _ (by simp; omega) hpad', hdrop, toDigitsLE, List.reverse_cons,
        List.map_append, List.append_assoc]
      rfl
    · obtain rfl : num = 0 := by omega
      rw [toDigitsLE_zero, List.reverse_replicate, List.map_replicate, ← hpad,
        List.take_append_drop]

theorem encodeBlock_eq (block : List UInt8) :
    encodeBlock block = (toDigitsLE 58 (encodedBlockSizes.getD block.length 0)
      (uint8beTo64 block)).reverse.map letter := by
  rw [encodeBlock, encodeBlockLoop_eq _ _ _ (by simp) (by simp [letter]), List.drop_replicate]
  simp

theorem length_encodeBlock (block : List UInt8) :
    (encodeBlock block).length = encodedBlockSizes.getD block.length 0 := by
  simp [encodeBlock_eq]

theorem order_lt {k : Nat} (hk : k ≤ 10) : 58 ^ k < 2 ^ 64 :=
  calc 58 ^ k ≤ 58 ^ 10 := Nat.pow_le_pow_right (by norm_num) hk
    _ < 2 ^ 64 := by norm_num

theorem decodeBlockLoop_digits {cs : List UInt8} {ds : List Nat}
    (hds : cs.map reverseAlphabet = ds.map some) {r k : Nat} (hk : k + cs.length ≤ 11)
    (hv : r + 58 ^ k * Nat.ofDigits 58 ds < 2 ^ 64) :
    decodeBlockLoop cs r (58 ^ k) = some (r + 58 ^ k * Nat.ofDigits 58 ds) := by
  induction cs generalizing ds r k with
  | nil =>
    obtain rfl : ds = [] := List.map_eq_nil_iff.mp (hds.symm.trans List.map_nil)
    simp [decodeBlockLoop]
  | cons c cs ih =>
    cases ds with
    | nil => simp at hds
    | cons d ds =>
    simp only [List.map_cons, List.cons.injEq] at hds
    rw [Nat.ofDigits_cons] at hv ⊢
    have hle : 58 ^ k * d ≤ 58 ^ k * (d + 58 * Nat.ofDigits 58 ds) :=
      Nat.mul_le_mul_left _ (Nat.le_add_right _ _)
    have hsum : r + 58 ^ k * d < 2 ^ 64 := lt_of_le_of_lt (Nat.add_le_add_left hle r) hv
    have hprod : 58 ^ k * d < 2 ^ 64 := lt_of_le_of_lt (Nat.le_add_left _ r) hsum
    have htmp : (r + 58 ^ k * d % 2 ^ 64) % 2 ^ 64 = r + 58 ^ k * d := by
      rw [Nat.mod_eq_of_lt hprod, Nat.mod_eq_of_lt hsum]
    simp only [decodeBlockLoop, hds.1, htmp, Nat.div_eq_of_lt hprod]
    rw [if_neg (by simp)]
    rcases cs with _ | ⟨c', cs'⟩
    · obtain rfl : ds = [] := List.map_eq_nil_iff.mp (hds.2.symm.trans List.map_nil)
      simp [decodeBlockLoop]
    · have hk' : k + 1 ≤ 10 := by simp at hk; omega
      rw [show 58 ^ k * 58 % 2 ^ 64 = 58 ^ (k + 1) by
        rw [← pow_succ, Nat.mod_eq_of_lt (order_lt hk')]]
      rw [ih hds.2 (by simp at hk ⊢; omega) (by rw [pow_succ]; nlinarith)]
      congr 1
      rw [pow_succ]
      ring

theorem decodeBlockLoop_eq_some {cs : List UInt8} {r k v : Nat}
    (h : decodeBlockLoop cs r (58 ^ k) = some v) (hr : r < 2 ^ 64) (hk : k + cs.length ≤ 11) :
    ∃ ds, cs.map reverseAlphabet = ds.map some ∧ v = r + 58 ^ k * Nat.ofDigits 58 ds ∧
      v < 2 ^ 64 := by
  induction cs generalizing r k with
  | nil =>
    simp only [decodeBlockLoop, Option.some.injEq] at h
    exact ⟨[], rfl, by simp [h], h ▸ hr⟩
  | cons c cs ih =>
    simp only [decodeBlockLoop] at h
    cases hd : reverseAlphabet c with
    | none => simp [hd] at h
    | some d =>
      simp only [hd] at h
      have hkc : k ≤ 10 := by simp at hk; omega
      split_ifs at h with hc
      simp only [Bool.or_eq_true, decide_eq_true_eq, not_or, ne_eq, Decidable.not_not] at hc
      obtain ⟨hnc, hhi⟩ := hc
      have hprod : 58 ^ k * d < 2 ^ 64 := by
        have := Nat.lt_of_div_eq_zero (by norm_num) hhi
        exact this
      rw [Nat.mod_eq_of_lt hprod] at hnc h
      have hsum : r + 58 ^ k * d < 2 ^ 64 := by
        by_contra hge
        exact hnc ((add_mod_lt_iff hr hprod).mpr (by omega))
      rw [Nat.mod_eq_of_lt hsum] at h
      rcases cs with _ | ⟨c', cs'⟩
      · simp only [decodeBlockLoop, Option.some.injEq] at h
        exact ⟨[d], by simp [hd], by simp [← h], h ▸ hsum⟩
      · have hk' : k + 1 ≤ 10 := by simp at hk; omega
        rw [show 58 ^ k * 58 % 2 ^ 64 = 58 ^ (k + 1) by
          rw [← pow_succ, Nat.mod_eq_of_lt (order_lt hk')]] at h
        obtain ⟨ds, hds, rfl, hv⟩ := ih h hsum (by simp at hk ⊢; omega)
        refine ⟨d :: ds, by simp [hd, hds], ?_, hv⟩
        rw [Nat.ofDigits_cons, pow_succ]
        ring

end PepePrivate.Base58
