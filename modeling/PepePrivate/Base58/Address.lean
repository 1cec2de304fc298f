import PepePrivate.Base58.RoundTrip
import PepePrivate.Serialization.Varint
import PepePrivate.Difficulty.CheckHash

/-! encode_addr and decode_addr of common/base58.cpp. An address is the varint of its tag, the
payload, and the first four bytes of cn_fast_hash of both, all in base58; decode_addr strips
the layers in the opposite order. cn_fast_hash is any function to 32-byte hashes here. -/

namespace PepePrivate.Base58

open Serialization

def addrChecksumSize : Nat := 4

def encodeAddr (cnFastHash : List UInt8 → Difficulty.Hash) (tag : UInt64) (data : List UInt8) :
    List UInt8 :=
  -- get_varint_data(tag)
  let buf := writeVarint tag.toNat ++ data
  let hash := cnFastHash buf
  encode (buf ++ hash.data.take addrChecksumSize)

/-- decode_addr; none where it returns false. -/
def decodeAddr (cnFastHash : List UInt8 → Difficulty.Hash) (addr : List UInt8) :
    Option (UInt64 × List UInt8) :=
  match decode addr with
  | none => none
  | some addrData =>
    if addrData.length ≤ addrChecksumSize then none
    else
      let checksum := addrData.drop (addrData.length - addrChecksumSize)
      let addrData := addrData.take (addrData.length - addrChecksumSize)
      let expectedChecksum := (cnFastHash addrData).data.take addrChecksumSize
      if expectedChecksum ≠ checksum then none
      else
        -- read_varint for a uint64_t tag
        let (read, tag, _) := readVarint 64 addrData
        if read ≤ 0 then none
        else some (tag.toUInt64, addrData.drop read.toNat)

/-- Every address decodes to the tag and the payload it was made of, whatever the hash
function: the checksum is taken over the same bytes on both sides, and the varint of a 64-bit
tag is read back whole. -/
theorem decodeAddr_encodeAddr (cnFastHash : List UInt8 → Difficulty.Hash) (tag : UInt64)
    (data : List UInt8) : decodeAddr cnFastHash (encodeAddr cnFastHash tag data) = some (tag, data) := by
  have hcs : ((cnFastHash (writeVarint tag.toNat ++ data)).data.take addrChecksumSize).length =
      addrChecksumSize := by
    simp [(cnFastHash _).length_eq, addrChecksumSize]
  have hpos := length_writeVarint_pos tag.toNat
  have hbuf : (writeVarint tag.toNat ++ data ++
      (cnFastHash (writeVarint tag.toNat ++ data)).data.take addrChecksumSize).length -
        addrChecksumSize = (writeVarint tag.toNat ++ data).length := by
    rw [List.length_append, hcs]
    omega
  have hread := readVarint_writeVarint (Words.toNat_lt_two_pow tag) data
  simp only [encodeAddr, decodeAddr, decode_encode]
  rw [if_neg (by rw [List.length_append, hcs]; simp only [List.length_append]; omega), hbuf,
    List.drop_left' rfl, List.take_left' rfl, if_neg (not_not.mpr rfl), hread,
    if_neg (by omega), Int.toNat_natCast, List.drop_left' rfl]
  exact congrArg (fun t => some (t, data)) UInt64.ofNat_toNat

end PepePrivate.Base58
