import PepePrivate.Library.Digits

/-! `tools::base58`: the block variant of Base58. Data is cut into blocks of 8 bytes, the last
one shorter; a block of `n` bytes, read as a big-endian number, is written as
`encoded_block_sizes[n]` base-58 digits, most significant first, padded with the zero digit
`'1'`. Strings and byte strings are lists of bytes; `false` results are `none`. -/

namespace PepePrivate.Base58

open Digits

def alphabet : List UInt8 :=
  "123456789ABCDEFGHJKLMNPQRSTUVWXYZabcdefghijkmnopqrstuvwxyz".toList.map fun c => c.toNat.toUInt8

def encodedBlockSizes : List Nat := [0, 2, 3, 5, 6, 7, 9, 10, 11]

def fullBlockSize : Nat := 8

def fullEncodedBlockSize : Nat := 11

/-- The `reverse_alphabet` table: the position of a letter in the alphabet, `-1` as `none`.
The table spans `'1'` to `'z'`, which holds every letter of the alphabet. -/
def reverseAlphabet (letter : UInt8) : Option Nat := alphabet.idxOf? letter

/-- The `decoded_block_sizes` table: the block size whose encoding has this length, `-1` for a
length no block is encoded to. -/
def decodedBlockSizes (encodedBlockSize : Nat) : Int :=
  match encodedBlockSizes.idxOf? encodedBlockSize with
  | some i => i
  | none => -1

def uint8beTo64 (data : List UInt8) : Nat := ofDigitsBE 256 (data.map UInt8.toNat)

/-- The `size` low bytes of `num`, most significant first. -/
def uint64To8be (num size : Nat) : List UInt8 := (toDigitsLE 256 size num).reverse.map Nat.toUInt8

def encodeBlockLoop : Nat → Nat → List UInt8 → List UInt8
  | 0, _, res => res
  | i + 1, num, res =>
    if 0 < num then encodeBlockLoop i (num / 58) (res.set i (alphabet.getD (num % 58) 0))
    else res

/-- `encode_block` into a slice already filled with `alphabet[0]`, as `encode` prepares it. -/
def encodeBlock (block : List UInt8) : List UInt8 :=
  let size := encodedBlockSizes.getD block.length 0
  encodeBlockLoop size (uint8beTo64 block) (List.replicate size (alphabet.getD 0 0))

def decodeBlockLoop : List UInt8 → Nat → Nat → Option Nat
  | [], resNum, _ => some resNum
  | letter :: letters, resNum, order =>
    match reverseAlphabet letter with
    | none => none
    | some digit =>
      let product := order * digit
      let tmp := (resNum + product % 2 ^ 64) % 2 ^ 64
      if tmp < resNum || product / 2 ^ 64 ≠ 0 then none
      else decodeBlockLoop letters tmp (order * 58 % 2 ^ 64)

def decodeBlock (block : List UInt8) : Option (List UInt8) :=
  let resSize := decodedBlockSizes block.length
  if resSize ≤ 0 then none
  else
    match decodeBlockLoop block.reverse 0 1 with
    | none => none
    | some resNum =>
      if resSize.toNat < fullBlockSize ∧ 2 ^ (8 * resSize.toNat) ≤ resNum then none
      else some (uint64To8be resNum resSize.toNat)

/-- `encode` after `k` full blocks are left: each full block, then the last block if any. -/
def encodeBlocks : Nat → List UInt8 → List UInt8
  | 0, rest => if 0 < rest.length then encodeBlock rest else []
  | k + 1, rest => encodeBlock (rest.take fullBlockSize) ++ encodeBlocks k (rest.drop fullBlockSize)

def encode (data : List UInt8) : List UInt8 :=
  if data.isEmpty then [] else encodeBlocks (data.length / fullBlockSize) data

/-- `decode` after `k` full blocks are left, stopping at the first block that fails. -/
def decodeBlocks : Nat → List UInt8 → Option (List UInt8)
  | 0, rest => if 0 < rest.length then decodeBlock rest else some []
  | k + 1, rest =>
    match decodeBlock (rest.take fullEncodedBlockSize) with
    | none => none
    | some block => (decodeBlocks k (rest.drop fullEncodedBlockSize)).map (block ++ ·)

def decode (enc : List UInt8) : Option (List UInt8) :=
  if enc.isEmpty then some []
  else if decodedBlockSizes (enc.length % fullEncodedBlockSize) < 0 then none
  else decodeBlocks (enc.length / fullEncodedBlockSize) enc

theorem alphabet_length : alphabet.length = 58 := by decide

theorem alphabet_nodup : alphabet.Nodup := by decide

def letter (d : Nat) : UInt8 := alphabet.getD d 0

theorem reverseAlphabet_letter {d : Nat} (hd : d < 58) : reverseAlphabet (letter d) = some d := by
  have hd' : d < alphabet.length := alphabet_length ▸ hd
  simp only [reverseAlphabet, letter, List.getD_eq_getElem _ _ hd']
  exact idxOf?_getElem_of_nodup alphabet_nodup hd'

theorem letter_of_reverseAlphabet {c : UInt8} {d : Nat} (h : reverseAlphabet c = some d) :
    d < 58 ∧ letter d = c := by
  obtain ⟨hd, hc, -⟩ := List.idxOf?_eq_some_iff.mp h
  refine ⟨alphabet_length ▸ hd, ?_⟩
  rw [letter, List.getD_eq_getElem _ _ hd, hc]

end PepePrivate.Base58
