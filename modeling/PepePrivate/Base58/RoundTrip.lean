import PepePrivate.Base58.Codec

/-! `decode` inverts `encode` on every byte string, and `encode` inverts `decode` on every string
`decode` accepts: the format is canonical. Both directions are proved for one block first and
then carried along the blocks. -/

namespace PepePrivate.Base58

open Digits

theorem decodeBlock_digits {block : List UInt8} {ds : List Nat} {n : Nat} (hn : 0 < n)
    (hn8 : n ≤ 8) (hlen : block.length = encodedBlockSizes.getD n 0)
    (hds : block.reverse.map reverseAlphabet = ds.map some) (hv : Nat.ofDigits 58 ds < 256 ^ n) :
    decodeBlock block = some (uint64To8be (Nat.ofDigits 58 ds) n) := by
  have hsize : decodedBlockSizes block.length = n := by rw [hlen, decodedBlockSizes_encoded hn8]
  have h64 : Nat.ofDigits 58 ds < 2 ^ 64 :=
    calc Nat.ofDigits 58 ds < 256 ^ n := hv
      _ ≤ 256 ^ 8 := Nat.pow_le_pow_right (by norm_num) hn8
      _ = 2 ^ 64 := by norm_num
  have hloop : decodeBlockLoop block.reverse 0 1 = some (Nat.ofDigits 58 ds) := by
    have := decodeBlockLoop_digits (r := 0) (k := 0) hds
      (by simp only [List.length_reverse, hlen]; exact Nat.zero_add _ ▸ encoded_le hn8)
      (by simpa using h64)
    simpa using this
  have hpos : ¬ ((n : Int) ≤ 0) := by omega
  have hcheck : ¬ (n < fullBlockSize ∧ 2 ^ (8 * n) ≤ Nat.ofDigits 58 ds) := by
    rintro ⟨-, hle⟩
    rw [pow_mul] at hle
    norm_num at hle
    omega
  simp only [decodeBlock, hsize, if_neg hpos, hloop, Int.toNat_natCast, if_neg hcheck]

theorem decodeBlock_eq_some {block data : List UInt8} (h : decodeBlock block = some data)
    (hlen : block.length ≤ 11) :
    ∃ ds n, 0 < n ∧ n ≤ 8 ∧ encodedBlockSizes.getD n 0 = block.length ∧
      block.reverse.map reverseAlphabet = ds.map some ∧ Nat.ofDigits 58 ds < 256 ^ n ∧
      data = uint64To8be (Nat.ofDigits 58 ds) n := by
  simp only [decodeBlock] at h
  split_ifs at h with hpos
  split at h
  · cases h
  · rename_i v hloop
    split_ifs at h with hchk
    rw [← pow_zero 58] at hloop
    obtain ⟨ds, hds, hv, h64⟩ := decodeBlockLoop_eq_some hloop (by norm_num) (by simp; omega)
    simp only [pow_zero, one_mul, Nat.zero_add] at hv
    subst hv
    obtain ⟨hn8, henc⟩ := encoded_of_decodedBlockSizes hlen (by omega)
    refine ⟨ds, _, by omega, hn8, henc, hds, ?_, (Option.some.inj h).symm⟩
    by_cases hshort : (decodedBlockSizes block.length).toNat < fullBlockSize
    · have hlt := not_le.mp fun hle => hchk ⟨hshort, hle⟩
      rwa [pow_mul, show (2 : Nat) ^ 8 = 256 by norm_num] at hlt
    · have h8 : (decodedBlockSizes block.length).toNat = 8 := by
        simp only [fullBlockSize] at hshort
        omega
      rw [h8]
      simpa using h64

theorem decodeBlock_encodeBlock {block : List UInt8} (h1 : 0 < block.length)
    (h8 : block.length ≤ 8) : decodeBlock (encodeBlock block) = some block := by
  have hv := uint8beTo64_lt block
  have hE := lt_of_lt_of_le hv (pow_le_encoded h8)
  have hds58 : ∀ d ∈ toDigitsLE 58 (encodedBlockSizes.getD block.length 0) (uint8beTo64 block),
      d < 58 := fun d hd => lt_of_mem_toDigitsLE (by norm_num) hd
  have hval : Nat.ofDigits 58 (toDigitsLE 58 (encodedBlockSizes.getD block.length 0)
      (uint8beTo64 block)) = uint8beTo64 block := by
    rw [ofDigits_toDigitsLE, Nat.mod_eq_of_lt hE]
  have hrev : ((toDigitsLE 58 (encodedBlockSizes.getD block.length 0)
      (uint8beTo64 block)).reverse.map letter).reverse =
      (toDigitsLE 58 (encodedBlockSizes.getD block.length 0) (uint8beTo64 block)).map letter := by
    rw [List.map_reverse, List.reverse_reverse]
  rw [encodeBlock_eq, decodeBlock_digits h1 h8 (by simp)
    (by rw [hrev]; exact map_reverseAlphabet_letter hds58)
    (by rw [hval]; exact hv), hval, uint64To8be_uint8beTo64]

theorem encodeBlock_decodeBlock {block data : List UInt8} (h : decodeBlock block = some data)
    (hlen : block.length ≤ 11) : encodeBlock data = block := by
  obtain ⟨ds, n, -, -, henc, hds, hv, rfl⟩ := decodeBlock_eq_some h hlen
  obtain ⟨hbl, hds58⟩ := eq_map_letter hds
  have hdlen : ds.length = block.length := by
    have := congrArg List.length hbl
    simp only [List.length_reverse, List.length_map] at this
    omega
  rw [encodeBlock_eq, length_uint64To8be, uint8beTo64_uint64To8be hv, henc, ← hdlen,
    toDigitsLE_ofDigits hds58, List.map_reverse, ← hbl, List.reverse_reverse]

theorem length_decodeBlock {block data : List UInt8} (h : decodeBlock block = some data)
    (hlen : block.length ≤ 11) : encodedBlockSizes.getD data.length 0 = block.length ∧
      0 < data.length ∧ data.length ≤ 8 := by
  obtain ⟨ds, n, hn, hn8, henc, -, -, rfl⟩ := decodeBlock_eq_some h hlen
  rw [length_uint64To8be]
  exact ⟨henc, hn, hn8⟩

/-! ### The blocks -/

theorem length_encodeBlocks (k : Nat) (data : List UInt8) (hk : data.length / 8 = k) :
    (encodeBlocks k data).length = 11 * k + encodedBlockSizes.getD (data.length % 8) 0 := by
  induction k generalizing data with
  | zero =>
    rw [Nat.mod_eq_of_lt (by omega)]
    by_cases hd : 0 < data.length
    · simp [encodeBlocks, hd, length_encodeBlock]
    · obtain rfl : data = [] := List.eq_nil_of_length_eq_zero (by omega)
      rfl
  | succ k ih =>
    have hlen : (data.take fullBlockSize).length = 8 := by simp [fullBlockSize]; omega
    rw [encodeBlocks, List.length_append, length_encodeBlock, hlen,
      ih _ (by simp [fullBlockSize]; omega)]
    simp only [List.length_drop, fullBlockSize]
    rw [show (data.length - 8) % 8 = data.length % 8 by omega,
      show encodedBlockSizes.getD 8 0 = 11 from rfl]
    ring

theorem decodeBlocks_encodeBlocks (k : Nat) (data : List UInt8) (hk : data.length / 8 = k) :
    decodeBlocks k (encodeBlocks k data) = some data := by
  induction k generalizing data with
  | zero =>
    by_cases hd : 0 < data.length
    · have hpos := encoded_pos hd (by omega)
      simp only [encodeBlocks, hd, if_true, decodeBlocks, length_encodeBlock, hpos]
      exact decodeBlock_encodeBlock hd (by omega)
    · obtain rfl : data = [] := List.eq_nil_of_length_eq_zero (by omega)
      rfl
  | succ k ih =>
    have hlen : (data.take fullBlockSize).length = 8 := by simp [fullBlockSize]; omega
    have hE : (encodeBlock (data.take fullBlockSize)).length = fullEncodedBlockSize := by
      rw [length_encodeBlock, hlen]
      rfl
    rw [encodeBlocks, decodeBlocks, List.take_left' hE, List.drop_left' hE,
      decodeBlock_encodeBlock (by omega) (by omega), ih _ (by simp [fullBlockSize]; omega)]
    simp

theorem encodeBlocks_decodeBlocks (k : Nat) {enc data : List UInt8}
    (h : decodeBlocks k enc = some data) (hk : enc.length / 11 = k) :
    data.length / 8 = k ∧ encodeBlocks k data = enc := by
  induction k generalizing enc data with
  | zero =>
    by_cases he : 0 < enc.length
    · simp only [decodeBlocks, he, if_true] at h
      obtain ⟨henc, hpos, h8⟩ := length_decodeBlock h (by omega)
      have hshort : data.length ≠ 8 := by
        intro h8'
        rw [h8'] at henc
        have : enc.length = 11 := henc.symm
        omega
      refine ⟨by omega, ?_⟩
      simp only [encodeBlocks, hpos, if_true]
      exact encodeBlock_decodeBlock h (by omega)
    · obtain rfl : enc = [] := List.eq_nil_of_length_eq_zero (by omega)
      simp only [decodeBlocks, List.length_nil, Nat.lt_irrefl, if_false, Option.some.injEq] at h
      subst h
      exact ⟨rfl, rfl⟩
  | succ k ih =>
    simp only [decodeBlocks] at h
    split at h
    · cases h
    · rename_i blk hblk
      obtain ⟨rest, hrest, rfl⟩ := Option.map_eq_some_iff.mp h
      have htake : (enc.take fullEncodedBlockSize).length = 11 := by
        simp [fullEncodedBlockSize]
        omega
      obtain ⟨henc, -, h8⟩ := length_decodeBlock hblk (by omega)
      have hblen : blk.length = 8 := eq_full_of_encoded h8 (henc.trans htake)
      obtain ⟨hq, hrest'⟩ := ih hrest (by simp [fullEncodedBlockSize]; omega)
      refine ⟨by simp only [List.length_append]; omega, ?_⟩
      have hblk' : (blk ++ rest).take fullBlockSize = blk := List.take_left' hblen
      have hrest'' : (blk ++ rest).drop fullBlockSize = rest := List.drop_left' hblen
      rw [encodeBlocks, hblk', hrest'', hrest', encodeBlock_decodeBlock hblk (by omega),
        List.take_append_drop]

theorem decode_encode (data : List UInt8) : decode (encode data) = some data := by
  by_cases hd : data = []
  · subst hd
    rfl
  have hlen := length_encodeBlocks (data.length / 8) data rfl
  have hm := encoded_lt (n := data.length % 8) (Nat.mod_lt _ (by norm_num))
  have hne : ¬ (encodeBlocks (data.length / 8) data).isEmpty := by
    rw [List.isEmpty_iff, ← List.length_eq_zero_iff, hlen]
    have hpos : data.length / 8 = 0 → 0 < encodedBlockSizes.getD (data.length % 8) 0 :=
      fun h0 => encoded_pos (by have := List.length_pos_iff.mpr hd; omega) (by omega)
    omega
  have hdiv : (encodeBlocks (data.length / 8) data).length / fullEncodedBlockSize =
      data.length / 8 := by
    rw [hlen, fullEncodedBlockSize]
    omega
  have hmod : (encodeBlocks (data.length / 8) data).length % fullEncodedBlockSize =
      encodedBlockSizes.getD (data.length % 8) 0 := by
    rw [hlen, fullEncodedBlockSize]
    omega
  have hsize : ¬ decodedBlockSizes (encodedBlockSizes.getD (data.length % 8) 0) < 0 := by
    rw [decodedBlockSizes_encoded (by omega)]
    omega
  simp only [encode, List.isEmpty_iff, hd, if_false, fullBlockSize, decode, hne, hmod, hsize,
    hdiv]
  exact decodeBlocks_encodeBlocks _ data rfl

theorem encode_of_decode {enc data : List UInt8} (h : decode enc = some data) :
    encode data = enc := by
  by_cases he : enc = []
  · subst he
    simp only [decode, List.isEmpty_nil, if_true, Option.some.injEq] at h
    subst h
    rfl
  simp only [decode, List.isEmpty_iff, he, if_false] at h
  split_ifs at h
  obtain ⟨hq, henc⟩ := encodeBlocks_decodeBlocks _ h rfl
  by_cases hd : data = []
  · subst hd
    simp only [List.length_nil, Nat.zero_div] at hq
    rw [← hq] at henc
    exact absurd henc.symm he
  simp only [encode, List.isEmpty_iff, hd, if_false, fullBlockSize, hq]
  exact henc

/-- Base58 round-trips on the whole format: `decode` recovers every encoded byte string, and
every string `decode` accepts is the encoding of what it returns. -/
theorem base58_round_trip :
    (∀ data, decode (encode data) = some data) ∧
      ∀ enc data, decode enc = some data → encode data = enc :=
  ⟨decode_encode, fun _ _ h => encode_of_decode h⟩

end PepePrivate.Base58
