import Mathlib

/-! varint.h and its use by binary_archive. A varint holds 7 bits per byte, least significant
group first, with the high bit set on every byte but the last. read_varint<bits> reports an
over-wide last group (EVARINT_OVERFLOW) and a zero byte after the first
(EVARINT_REPRESENT), but it has stored and consumed what it read by then; the reading side of
binary_archive ignores the code, so it takes the value read so far. -/

namespace PepePrivate.Serialization

def evarintOverflow : Int := -1
def evarintRepresent : Int := -2

/-- write_varint. -/
def writeVarint (i : Nat) : List UInt8 :=
  if i ≥ 0x80 then ((i.toUInt8 &&& 0x7f) ||| 0x80) :: writeVarint (i >>> 7)
  else [i.toUInt8]
termination_by i
decreasing_by rw [Nat.shiftRight_eq_div_pow]; omega

/-- The loop of read_varint<bits> at bit position shift, having read `read` bytes into `write`;
the result is the return code, the value written and the rest of the input. -/
def readVarintLoop (bits : Nat) : Nat → Int → Nat → List UInt8 → Int × Nat × List UInt8
  | _, read, write, [] => (read, write, [])
  | shift, read, write, byte :: rest =>
    if shift + 7 ≥ bits ∧ byte.toNat ≥ 2 ^ (bits - shift) then (evarintOverflow, write, rest)
    else if byte = 0 ∧ shift ≠ 0 then (evarintRepresent, write, rest)
    else
      let write := (write ||| ((byte &&& 0x7f).toNat <<< shift)) % 2 ^ bits
      if byte &&& 0x80 = 0 then (read + 1, write, rest)
      else readVarintLoop bits (shift + 7) (read + 1) write rest

def readVarint (bits : Nat) (input : List UInt8) : Int × Nat × List UInt8 :=
  readVarintLoop bits 0 0 0 input

/-- binary_archive<false>::serialize_uvarint: the value read_varint stores, whatever it returns,
and the rest of the stream. -/
def inputSerializeUvarint (bits : Nat) (input : List UInt8) : Nat × List UInt8 :=
  ((readVarint bits input).2.1, (readVarint bits input).2.2)

/-- binary_archive<true>::serialize_uvarint. -/
def outputSerializeUvarint (v : Nat) : List UInt8 := writeVarint v

theorem paddedByte : ∀ y : Fin 0x80,
    (y.val.toUInt8 ||| 0x80).toNat = y.val + 0x80 ∧ ((y.val.toUInt8 ||| 0x80) &&& 0x7f).toNat = y.val ∧
      (y.val.toUInt8 ||| 0x80) &&& 0x80 ≠ 0 := by
  decide

/-- Every value below 0x80 is written as one byte, but read back as well from the two bytes
made of it with the continuation bit set and a zero byte: read_varint rejects them as
non-canonical after storing the value, and the reading side of the archive keeps the value. -/
theorem inputSerializeUvarint_padded {bits x : Nat} (hbits : 8 ≤ bits) (hx : x < 0x80)
    (rest : List UInt8) :
    readVarint bits ((x.toUInt8 ||| 0x80) :: 0 :: rest) = (evarintRepresent, x, rest) ∧
      inputSerializeUvarint bits ((x.toUInt8 ||| 0x80) :: 0 :: rest) = (x, rest) ∧
      outputSerializeUvarint x = [x.toUInt8] := by
  obtain ⟨hbyte, hlow, hcont⟩ := paddedByte ⟨x, hx⟩
  have hfirst : ¬(0 + 7 ≥ bits ∧ (x.toUInt8 ||| 0x80).toNat ≥ 2 ^ (bits - 0)) := by omega
  have hnz : ¬(x.toUInt8 ||| 0x80 = 0 ∧ (0 : Nat) ≠ 0) := by simp
  have hwrite : (0 ||| x <<< 0) % 2 ^ bits = x := by
    have hpow : (0x80 : Nat) ≤ 2 ^ bits :=
      calc (0x80 : Nat) = 2 ^ 7 := rfl
        _ ≤ 2 ^ bits := Nat.pow_le_pow_right (by norm_num) (by omega)
    rw [Nat.shiftLeft_zero, Nat.zero_or, Nat.mod_eq_of_lt (by omega)]
  have hsecond : ¬(0 + 7 + 7 ≥ bits ∧ (0 : UInt8).toNat ≥ 2 ^ (bits - (0 + 7))) := by
    have := Nat.pow_pos (n := bits - (0 + 7)) (show 0 < 2 by norm_num)
    simp only [UInt8.toNat_zero]
    omega
  have hreject : (0 : UInt8) = 0 ∧ 0 + 7 ≠ 0 := ⟨rfl, by omega⟩
  have hread : readVarint bits ((x.toUInt8 ||| 0x80) :: 0 :: rest) = (evarintRepresent, x, rest) := by
    rw [readVarint, readVarintLoop, if_neg hfirst, if_neg hnz, hlow, hwrite, if_neg hcont,
      readVarintLoop, if_neg hsecond, if_pos hreject]
  refine ⟨hread, by rw [inputSerializeUvarint, hread], ?_⟩
  rw [outputSerializeUvarint, writeVarint, if_neg (by omega)]

theorem inputSerializeUvarint_version_one :
    8 ≤ 64 ∧ 1 < 0x80 ∧
      (readVarint 64 [0x81, 0x00] = (evarintRepresent, 1, []) ∧
        inputSerializeUvarint 64 [0x81, 0x00] = (1, []) ∧ outputSerializeUvarint 1 = [0x01]) :=
  ⟨by norm_num, by norm_num, @inputSerializeUvarint_padded 64 1 (by norm_num) (by norm_num) []⟩

theorem lowSeven (r : Nat) : r.toUInt8 &&& 0x7f = (r % 0x80).toUInt8 := by
  apply UInt8.toNat_inj.mp
  rw [UInt8.toNat_and]
  simp only [Nat.toUInt8, UInt8.toNat_ofNat']
  rw [show (UInt8.toNat 0x7f) = 2 ^ 7 - 1 from rfl, Nat.and_two_pow_sub_one_eq_mod]
  omega

theorem lastByte : ∀ y : Fin 0x80, y.val.toUInt8.toNat = y.val ∧
    (y.val.toUInt8 &&& 0x7f).toNat = y.val ∧ y.val.toUInt8 &&& 0x80 = 0 := by
  decide

theorem or_shiftLeft_mod {write m shift bits : Nat} (hw : write < 2 ^ shift)
    (hm : m < 2 ^ (bits - shift)) (hs : shift ≤ bits) :
    (write ||| m <<< shift) % 2 ^ bits = write + m * 2 ^ shift := by
  have hlt : m * 2 ^ shift + write < 2 ^ bits :=
    calc m * 2 ^ shift + write < (m + 1) * 2 ^ shift := by rw [Nat.add_one_mul]; omega
      _ ≤ 2 ^ (bits - shift) * 2 ^ shift := Nat.mul_le_mul_right _ hm
      _ = 2 ^ bits := by rw [← pow_add, Nat.sub_add_cancel hs]
  rw [Nat.lor_comm, ← Nat.shiftLeft_add_eq_or_of_lt hw, Nat.shiftLeft_eq, Nat.mod_eq_of_lt hlt,
    Nat.add_comm]

theorem add_mul_two_pow_lt {write low shift : Nat} (hw : write < 2 ^ shift) (hlow : low < 0x80) :
    write + low * 2 ^ shift < 2 ^ (shift + 7) := by
  have : low * 2 ^ shift ≤ 127 * 2 ^ shift := Nat.mul_le_mul_right _ (by omega)
  rw [pow_add]
  omega

theorem readVarintLoop_writeVarint {bits : Nat} (rest : List UInt8) (r : Nat) :
    ∀ (shift : Nat) (read : Int) (write : Nat), write < 2 ^ shift → shift ≤ bits →
      r < 2 ^ (bits - shift) → (shift ≠ 0 → r ≠ 0) →
      readVarintLoop bits shift read write (writeVarint r ++ rest) =
        (read + (writeVarint r).length, write + r * 2 ^ shift, rest) := by
  induction r using Nat.strongRecOn with
  | ind r ih =>
  intro shift read write hw hs hr hz
  by_cases hbig : r ≥ 0x80
  · obtain ⟨hbyte, hlow, hcont⟩ := paddedByte ⟨r % 0x80, Nat.mod_lt _ (by norm_num)⟩
    have hroom : shift + 7 < bits := by
      have h7 : 2 ^ 7 < 2 ^ (bits - shift) := by omega
      have := (Nat.pow_lt_pow_iff_right (by norm_num : 1 < 2)).mp h7
      omega
    have hnz : ¬((r % 0x80).toUInt8 ||| 0x80 = 0 ∧ shift ≠ 0) := by
      intro h
      have := congrArg UInt8.toNat h.1
      simp only [hbyte, UInt8.toNat_zero] at this
      omega
    have hwrite : (write ||| (r % 0x80) <<< shift) % 2 ^ bits = write + r % 0x80 * 2 ^ shift :=
      or_shiftLeft_mod hw (lt_of_lt_of_le (Nat.mod_lt _ (by norm_num))
        (Nat.pow_le_pow_right (by norm_num) (by omega) : 2 ^ 7 ≤ 2 ^ (bits - shift))) hs
    have hnext : r >>> 7 < r := by rw [Nat.shiftRight_eq_div_pow]; omega
    rw [writeVarint, if_pos hbig, List.cons_append, readVarintLoop, lowSeven, if_neg (by omega),
      if_neg hnz, hlow, if_neg hcont, hwrite]
    have hw' := add_mul_two_pow_lt hw (Nat.mod_lt r (show 0 < 0x80 by norm_num))
    have hr' : r >>> 7 < 2 ^ (bits - (shift + 7)) := by
      rw [Nat.shiftRight_eq_div_pow, Nat.div_lt_iff_lt_mul (by norm_num), ← pow_add,
        show bits - (shift + 7) + 7 = bits - shift by omega]
      exact hr
    have hz' : shift + 7 ≠ 0 → r >>> 7 ≠ 0 := by
      intro _
      rw [Nat.shiftRight_eq_div_pow]
      omega
    rw [ih (r >>> 7) hnext (shift + 7) (read + 1) _ hw' (by omega) hr' hz', List.length_cons]
    have hsplit : write + r % 0x80 * 2 ^ shift + r >>> 7 * 2 ^ (shift + 7) = write + r * 2 ^ shift := by
      rw [Nat.shiftRight_eq_div_pow, pow_add, show (2 : Nat) ^ 7 = 0x80 from rfl]
      conv_rhs => rw [← Nat.div_add_mod r 0x80]
      ring
    rw [hsplit]
    congr 1
    push_cast
    ring
  · have hsmall : r < 0x80 := by omega
    have hbyte : r.toUInt8.toNat = r := (lastByte ⟨r, hsmall⟩).1
    have hlow : (r.toUInt8 &&& 0x7f).toNat = r := (lastByte ⟨r, hsmall⟩).2.1
    have hlast : r.toUInt8 &&& 0x80 = 0 := (lastByte ⟨r, hsmall⟩).2.2
    have hnz : ¬(r.toUInt8 = 0 ∧ shift ≠ 0) := by
      intro h
      have := congrArg UInt8.toNat h.1
      simp only [hbyte, UInt8.toNat_zero] at this
      exact hz h.2 this
    rw [writeVarint, if_neg hbig, List.singleton_append, readVarintLoop, if_neg (by omega),
      if_neg hnz, hlow, if_pos hlast, or_shiftLeft_mod hw hr hs]
    simp

theorem readVarint_writeVarint {bits r : Nat} (hr : r < 2 ^ bits) (rest : List UInt8) :
    readVarint bits (writeVarint r ++ rest) = (((writeVarint r).length : Int), r, rest) := by
  have h := readVarintLoop_writeVarint rest r 0 0 0 (by norm_num) (Nat.zero_le _)
    (by simpa using hr) (fun h => absurd rfl h)
  simpa [readVarint] using h

theorem length_writeVarint_pos (r : Nat) : 0 < (writeVarint r).length := by
  rw [writeVarint]
  split <;> simp

theorem length_readVarintLoop_rest_le {bits : Nat} :
    ∀ (l : List UInt8) (shift : Nat) (read : Int) (write : Nat),
      (readVarintLoop bits shift read write l).2.2.length ≤ l.length := by
  intro l
  induction l with
  | nil => intro _ _ _; simp [readVarintLoop]
  | cons byte rest ih =>
    intro shift read write
    rw [readVarintLoop]
    split_ifs
    · simp
    · simp
    · simp
    · exact Nat.le_succ_of_le (ih _ _ _)

theorem length_inputSerializeUvarint_le (bits : Nat) (l : List UInt8) :
    (inputSerializeUvarint bits l).2.length ≤ l.length :=
  length_readVarintLoop_rest_le l 0 0 0

theorem readVarintLoop_value_lt {bits : Nat} :
    ∀ (l : List UInt8) (shift : Nat) (read : Int) {write : Nat}, write < 2 ^ bits →
      (readVarintLoop bits shift read write l).2.1 < 2 ^ bits := by
  intro l
  induction l with
  | nil => intro _ _ _ h; simpa [readVarintLoop] using h
  | cons byte rest ih =>
    intro shift read write h
    rw [readVarintLoop]
    split_ifs
    · exact h
    · exact h
    · exact Nat.mod_lt _ (by positivity)
    · exact ih _ _ (Nat.mod_lt _ (by positivity))

theorem inputSerializeUvarint_lt (bits : Nat) (l : List UInt8) :
    (inputSerializeUvarint bits l).1 < 2 ^ bits :=
  readVarintLoop_value_lt l 0 0 (by positivity)

theorem length_readVarintLoop_cons_rest_le {bits : Nat} (byte : UInt8) (l : List UInt8)
    (shift : Nat) (read : Int) (write : Nat) :
    (readVarintLoop bits shift read write (byte :: l)).2.2.length ≤ l.length := by
  rw [readVarintLoop]
  split_ifs
  · simp
  · simp
  · simp
  · exact length_readVarintLoop_rest_le l _ _ _

/-! ## What read_varint accepts -/

theorem writeVarint_of_lt {m : Nat} (hm : m < 0x80) : writeVarint m = [m.toUInt8] := by
  rw [writeVarint, if_neg (by omega)]

theorem writeVarint_of_ge {m : Nat} (hm : 0x80 ≤ m) :
    writeVarint m = ((m.toUInt8 &&& 0x7f) ||| 0x80) :: writeVarint (m >>> 7) := by
  rw [writeVarint, if_pos hm]

theorem length_writeVarint_le (k : Nat) :
    ∀ r : Nat, r < 2 ^ (7 * (k + 1)) → (writeVarint r).length ≤ k + 1 := by
  induction k with
  | zero =>
    intro r hr
    rw [writeVarint_of_lt (by simpa using hr)]
    simp
  | succ k ih =>
    intro r hr
    by_cases hbig : 0x80 ≤ r
    · have hnext : r >>> 7 < 2 ^ (7 * (k + 1)) := by
        rw [Nat.shiftRight_eq_div_pow, Nat.div_lt_iff_lt_mul (by norm_num), ← pow_add]
        exact lt_of_lt_of_le hr (Nat.pow_le_pow_right (by norm_num) (by omega))
      rw [writeVarint_of_ge hbig, List.length_cons]
      exact Nat.succ_le_succ (ih _ hnext)
    · rw [writeVarint_of_lt (by omega)]
      simp

set_option maxRecDepth 4000 in
theorem contByte : ∀ byte : UInt8, byte &&& 0x80 ≠ 0 →
    0x80 ≤ byte.toNat ∧ (byte &&& 0x7f).toNat.toUInt8 ||| 0x80 = byte := by
  decide

set_option maxRecDepth 4000 in
theorem stopByte : ∀ byte : UInt8, byte &&& 0x80 = 0 →
    byte.toNat < 0x80 ∧ (byte &&& 0x7f).toNat = byte.toNat := by
  decide

theorem writeVarint_last (m : Nat) :
    (writeVarint m).getD ((writeVarint m).length - 1) 0 &&& 0x80 = 0 := by
  induction m using Nat.strongRecOn with
  | ind m ih =>
  by_cases hm : 0x80 ≤ m
  · have hnext : m >>> 7 < m := by rw [Nat.shiftRight_eq_div_pow]; omega
    have hpos := length_writeVarint_pos (m >>> 7)
    rw [writeVarint_of_ge hm, List.length_cons, Nat.add_sub_cancel,
      show (writeVarint (m >>> 7)).length = (writeVarint (m >>> 7)).length - 1 + 1 by omega,
      List.getD_cons_succ]
    exact ih _ hnext
  · rw [writeVarint_of_lt (by omega)]
    exact (lastByte ⟨m, by omega⟩).2.2

theorem toNat_and_low_lt (byte : UInt8) : (byte &&& 0x7f).toNat < 0x80 := by
  rw [UInt8.toNat_and]
  exact lt_of_le_of_lt Nat.and_le_right (by decide)

theorem low_lt_of_not_overflow {bits shift : Nat} {byte : UInt8}
    (hover : ¬(shift + 7 ≥ bits ∧ byte.toNat ≥ 2 ^ (bits - shift))) :
    (byte &&& 0x7f).toNat < 2 ^ (bits - shift) ∧ (byte &&& 0x80 ≠ 0 → shift + 7 < bits) := by
  constructor
  · by_cases hnear : shift + 7 ≥ bits
    · have hbyte : byte.toNat < 2 ^ (bits - shift) := by
        by_contra h
        exact hover ⟨hnear, by omega⟩
      rw [UInt8.toNat_and]
      exact lt_of_le_of_lt Nat.and_le_left hbyte
    · calc (byte &&& 0x7f).toNat < 2 ^ 7 := toNat_and_low_lt byte
        _ ≤ 2 ^ (bits - shift) := Nat.pow_le_pow_right (by norm_num) (by omega)
  · intro hlast
    have hbig := (contByte byte hlast).1
    by_contra hnear
    have : byte.toNat < 2 ^ 7 :=
      calc byte.toNat < 2 ^ (bits - shift) := by
            by_contra h
            exact hover ⟨by omega, by omega⟩
        _ ≤ 2 ^ 7 := Nat.pow_le_pow_right (by norm_num) (by omega)
    omega

theorem writeVarint_cont {byte : UInt8} {m : Nat} (hlast : byte &&& 0x80 ≠ 0) (hm0 : m ≠ 0) :
    writeVarint ((byte &&& 0x7f).toNat + 0x80 * m) = byte :: writeVarint m := by
  have hlow7 := toNat_and_low_lt byte
  have hge : 0x80 ≤ (byte &&& 0x7f).toNat + 0x80 * m := by omega
  have hshift : ((byte &&& 0x7f).toNat + 0x80 * m) >>> 7 = m := by
    rw [Nat.shiftRight_eq_div_pow]
    omega
  have hmod : ((byte &&& 0x7f).toNat + 0x80 * m) % 0x80 = (byte &&& 0x7f).toNat := by omega
  rw [writeVarint_of_ge hge, lowSeven, hmod, (contByte byte hlast).2, hshift]

theorem readVarintLoop_consumed {bits : Nat} :
    ∀ (b : List UInt8) (shift : Nat) (read : Int) (write : Nat), 0 ≤ read → write < 2 ^ shift →
      shift ≤ bits → 0 ≤ (readVarintLoop bits shift read write b).1 →
      ∃ k ≤ b.length, (readVarintLoop bits shift read write b).1 = read + k ∧
        (readVarintLoop bits shift read write b).2.2 = b.drop k ∧
        ((∃ m, m < 2 ^ (bits - shift) ∧ (shift ≠ 0 → m ≠ 0) ∧
            (readVarintLoop bits shift read write b).2.1 = write + m * 2 ^ shift ∧
            b.take k = writeVarint m) ∨
          (k = b.length ∧ (k = 0 ∨ b.getD (k - 1) 0 &&& 0x80 ≠ 0))) := by
  intro b
  induction b with
  | nil =>
    intro shift read write _ _ _ _
    exact ⟨0, le_rfl, by simp [readVarintLoop], rfl, Or.inr ⟨rfl, Or.inl rfl⟩⟩
  | cons byte tail ih =>
    intro shift read write hread hw hs hok
    rw [readVarintLoop] at hok ⊢
    by_cases hover : shift + 7 ≥ bits ∧ byte.toNat ≥ 2 ^ (bits - shift)
    · rw [if_pos hover] at hok
      exact absurd hok (by simp [evarintOverflow])
    rw [if_neg hover] at hok ⊢
    by_cases hrep : byte = 0 ∧ shift ≠ 0
    · rw [if_pos hrep] at hok
      exact absurd hok (by simp [evarintRepresent])
    rw [if_neg hrep] at hok ⊢
    obtain ⟨hlow, hroom⟩ := low_lt_of_not_overflow hover
    rw [or_shiftLeft_mod hw hlow hs] at hok ⊢
    by_cases hlast : byte &&& 0x80 = 0
    · rw [if_pos hlast]
      obtain ⟨hsmall, hval⟩ := stopByte byte hlast
      have hnz : shift ≠ 0 → byte.toNat ≠ 0 := by
        intro hsh h0
        exact hrep ⟨UInt8.toNat_inj.mp (by simpa using h0), hsh⟩
      refine ⟨1, by simp, by simp, rfl, Or.inl ⟨byte.toNat, hval ▸ hlow, hnz, by rw [hval], ?_⟩⟩
      rw [writeVarint_of_lt hsmall]
      simp
    · rw [if_neg hlast] at hok ⊢
      have hroom' := hroom hlast
      have hlow7 := toNat_and_low_lt byte
      have hw' := add_mul_two_pow_lt hw hlow7
      obtain ⟨k, hk, hn, hrest, hcase⟩ :=
        ih (shift + 7) (read + 1) _ (by omega) hw' (by omega) hok
      refine ⟨k + 1, by simp; omega, by rw [hn]; push_cast; ring, by rw [hrest]; rfl, ?_⟩
      rcases hcase with ⟨m, hm, hz, hv, htake⟩ | ⟨hk', htail⟩
      · left
        have hm0 : m ≠ 0 := hz (by omega)
        have hsplit : 2 ^ (bits - shift) = 0x80 * 2 ^ (bits - (shift + 7)) := by
          rw [show bits - shift = 7 + (bits - (shift + 7)) by omega, pow_add]
          rfl
        refine ⟨(byte &&& 0x7f).toNat + 0x80 * m, by omega, fun _ => by omega, ?_, ?_⟩
        · rw [hv, pow_add]
          ring
        · rw [List.take_succ_cons, htake, writeVarint_cont hlast hm0]
      · right
        refine ⟨by simp [hk'], Or.inr ?_⟩
        cases k with
        | zero => simpa using hlast
        | succ k =>
          rcases htail with h0 | htail
          · omega
          · simpa using htail

/-- read_varint returns more than 0 only on a whole, canonical encoding of a value of at most
`bits` bits, or on an input that ends inside a varint. -/
theorem readVarint_canonical_or_truncated (bits : Nat) :
    (∀ x, x < 2 ^ bits → ∀ rest, readVarint bits (writeVarint x ++ rest) =
      (((writeVarint x).length : Int), x, rest)) ∧
    ∀ (b : List UInt8) (n : Nat), (readVarint bits b).1 = n → 0 < n →
      n ≤ b.length ∧ (readVarint bits b).2.2 = b.drop n ∧
      ((b.getD (n - 1) 0 &&& 0x80 = 0 ∧ (readVarint bits b).2.1 < 2 ^ bits ∧
          writeVarint (readVarint bits b).2.1 = b.take n) ∨
        (n = b.length ∧ b.getD (n - 1) 0 &&& 0x80 ≠ 0)) := by
  refine ⟨fun x hx rest => readVarint_writeVarint hx rest, ?_⟩
  intro b n hn hpos
  obtain ⟨k, hk, hread, hrest, hcase⟩ := readVarintLoop_consumed b 0 0 0 le_rfl (by norm_num)
    (Nat.zero_le _) (by rw [← readVarint, hn]; omega)
  rw [← readVarint] at hread hrest hcase
  have hkn : k = n := by
    rw [hn] at hread
    omega
  subst hkn
  refine ⟨hk, hrest, ?_⟩
  rcases hcase with ⟨m, hm, -, hv, htake⟩ | ⟨hlen, hlast | hlast⟩
  · left
    have hvm : (readVarint bits b).2.1 = m := by simpa using hv
    rw [hvm]
    refine ⟨?_, by simpa using hm, htake.symm⟩
    have hlastm := writeVarint_last m
    rw [← htake, List.length_take, Nat.min_eq_left hk] at hlastm
    simpa [List.getD_eq_getElem?_getD, List.getElem?_take, show k - 1 < k by omega] using hlastm
  · omega
  · exact Or.inr ⟨hlen, hlast⟩

/-- A 64-bit read of the single byte 80, which asks for a byte that is not there: read_varint
returns 1 with value 0, though the byte has its continuation bit set and 0 is written 00. -/
theorem readVarint_truncated_accepted :
    readVarint 64 [0x80] = (1, 0, []) ∧ (0x80 : UInt8) &&& 0x80 ≠ 0 ∧ writeVarint 0 = [0x00] := by
  refine ⟨by decide, by decide, ?_⟩
  rw [writeVarint_of_lt (by norm_num)]
  rfl

theorem readVarint_canonical_or_truncated_three_hundred :
    (300 < 2 ^ 64 ∧ readVarint 64 (writeVarint 300 ++ []) =
      (((writeVarint 300).length : Int), 300, [])) ∧
    ((readVarint 64 [(0xAC : UInt8), 0x02]).1 = 2 ∧ 0 < 2 ∧
      (2 ≤ [(0xAC : UInt8), 0x02].length ∧
        (readVarint 64 [0xAC, 0x02]).2.2 = [(0xAC : UInt8), 0x02].drop 2 ∧
        (([(0xAC : UInt8), 0x02].getD (2 - 1) 0 &&& 0x80 = 0 ∧
            (readVarint 64 [0xAC, 0x02]).2.1 < 2 ^ 64 ∧
            writeVarint (readVarint 64 [0xAC, 0x02]).2.1 = [(0xAC : UInt8), 0x02].take 2) ∨
          (2 = [(0xAC : UInt8), 0x02].length ∧
            [(0xAC : UInt8), 0x02].getD (2 - 1) 0 &&& 0x80 ≠ 0)))) := by
  have hread : (readVarint 64 [0xAC, 0x02]).1 = 2 := by decide
  exact ⟨⟨by norm_num, (readVarint_canonical_or_truncated 64).1 300 (by norm_num) []⟩,
    hread, by norm_num, (readVarint_canonical_or_truncated 64).2 _ 2 hread (by norm_num)⟩

end PepePrivate.Serialization
