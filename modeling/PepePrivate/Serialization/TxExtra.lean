import PepePrivate.Serialization.Varint

/-! tx_extra of cryptonote_format_utils.cpp and tx_extra.h: a list of fields, each a one-byte
variant tag and the field's own encoding, read by parse_tx_extra through binary_archive until the
stream ends. Strings and vectors carry their length as a varint that is read by read_varint over
the stream buffer, so a varint cut off by the end of the input reads as what it had so far. A
padding field reads zeros up to the end of the input. The add_ helpers append a field, the
nonce with a one-byte length written by hand. -/

namespace PepePrivate.Serialization

def Bytes32 : Type := {l : List UInt8 // l.length = 32}

instance : DecidableEq Bytes32 := inferInstanceAs (DecidableEq {l : List UInt8 // l.length = 32})

def txExtraPaddingMaxCount : Nat := 255
def txExtraNonceMaxCount : Nat := 255

def txExtraTagPadding : UInt8 := 0x00
def txExtraTagPubkey : UInt8 := 0x01
def txExtraNonce : UInt8 := 0x02
def txExtraMergeMiningTag : UInt8 := 0x03
def txExtraTagAdditionalPubkeys : UInt8 := 0x04
def txExtraMysteriousMinergateTag : UInt8 := 0xDE

/-- tx_extra_field, the variant of the six field types. -/
inductive TxExtraField
  | padding (size : Nat)
  | pubKey (pubKey : Bytes32)
  | nonce (nonce : List UInt8)
  | mergeMiningTag (depth : Nat) (merkleRoot : Bytes32)
  | additionalPubKeys (data : List Bytes32)
  | mysteriousMinergate (data : List UInt8)
  deriving DecidableEq

/-! ## Reading -/

def readBlob (n : Nat) (input : List UInt8) : Option (List UInt8 × List UInt8) :=
  if n ≤ input.length then some (input.take n, input.drop n) else none

def readBytes32 (input : List UInt8) : Option (Bytes32 × List UInt8) :=
  if h : 32 ≤ input.length then some (⟨input.take 32, by simp [h]⟩, input.drop 32) else none

/-- do_serialize(std::string) on the reading side: a varint size, refused when fewer bytes
remain, then the bytes. -/
def readString (input : List UInt8) : Option (List UInt8 × List UInt8) :=
  let size := inputSerializeUvarint 64 input
  if size.2.length < size.1 then none else readBlob size.1 size.2

def readKeys : Nat → List UInt8 → Option (List Bytes32 × List UInt8)
  | 0, input => some ([], input)
  | cnt + 1, input =>
    match readBytes32 input with
    | none => none
    | some (key, rest) => (readKeys cnt rest).map fun (keys, rest) => (key :: keys, rest)

def readKeyVector (input : List UInt8) : Option (List Bytes32 × List UInt8) :=
  let cnt := inputSerializeUvarint 64 input
  if cnt.2.length < cnt.1 then none else readKeys cnt.1 cnt.2

def paddingLoop (size : Nat) : List UInt8 → Option Nat
  | [] => if size ≤ txExtraPaddingMaxCount then some size else none
  | zero :: rest =>
    if size ≤ txExtraPaddingMaxCount then
      if zero ≠ 0 then none else paddingLoop (size + 1) rest
    else none

def readMergeMiningTag (field : List UInt8) : Option (Nat × Bytes32) :=
  let depth := inputSerializeUvarint 64 field
  match readBytes32 depth.2 with
  | none => none
  | some (merkleRoot, rest) => if rest = [] then some (depth.1, merkleRoot) else none

/-- do_serialize of a tx_extra_field: the tag byte, then the field of that type. -/
def readField : List UInt8 → Option (TxExtraField × List UInt8)
  | [] => none
  | tag :: input =>
    if tag = txExtraTagPadding then
      (paddingLoop 1 input).map fun size => (.padding size, [])
    else if tag = txExtraTagPubkey then
      (readBytes32 input).map fun (pubKey, rest) => (.pubKey pubKey, rest)
    else if tag = txExtraNonce then
      match readString input with
      | none => none
      | some (nonce, rest) =>
        if txExtraNonceMaxCount < nonce.length then none else some (.nonce nonce, rest)
    else if tag = txExtraMergeMiningTag then
      match readString input with
      | none => none
      | some (field, rest) =>
        (readMergeMiningTag field).map fun (depth, merkleRoot) =>
          (.mergeMiningTag depth merkleRoot, rest)
    else if tag = txExtraTagAdditionalPubkeys then
      (readKeyVector input).map fun (data, rest) => (.additionalPubKeys data, rest)
    else if tag = txExtraMysteriousMinergateTag then
      (readString input).map fun (data, rest) => (.mysteriousMinergate data, rest)
    else none

/-! Every reader leaves a suffix of its input. -/

theorem readBlob_sound {n : Nat} {input s rest : List UInt8}
    (h : readBlob n input = some (s, rest)) : s.length = n ∧ input = s ++ rest := by
  unfold readBlob at h
  split_ifs at h with hn
  cases h
  exact ⟨by simp [hn], (List.take_append_drop n input).symm⟩

theorem readBlob_rest_le {n : Nat} {input s rest : List UInt8}
    (h : readBlob n input = some (s, rest)) : rest.length ≤ input.length := by
  unfold readBlob at h
  split_ifs at h
  cases h
  simp

theorem readBytes32_rest_le {input rest : List UInt8} {key : Bytes32}
    (h : readBytes32 input = some (key, rest)) : rest.length ≤ input.length := by
  unfold readBytes32 at h
  split_ifs at h
  cases h
  simp

theorem readString_rest_le {input s rest : List UInt8} (h : readString input = some (s, rest)) :
    rest.length ≤ input.length := by
  simp only [readString] at h
  split_ifs at h
  exact (readBlob_rest_le h).trans (length_inputSerializeUvarint_le 64 input)

theorem readKeys_rest_le :
    ∀ (cnt : Nat) {input rest : List UInt8} {keys : List Bytes32},
      readKeys cnt input = some (keys, rest) → rest.length ≤ input.length
  | 0, _, _, _, h => by
    simp only [readKeys, Option.some.injEq, Prod.mk.injEq] at h
    rw [h.2]
  | cnt + 1, input, rest, keys, h => by
    simp only [readKeys] at h
    split at h
    · cases h
    · rename_i key rest' hkey
      obtain ⟨⟨keys', rest''⟩, hrest, heq⟩ := Option.map_eq_some_iff.mp h
      cases heq
      exact (readKeys_rest_le cnt hrest).trans (readBytes32_rest_le hkey)

theorem readKeyVector_rest_le {input rest : List UInt8} {keys : List Bytes32}
    (h : readKeyVector input = some (keys, rest)) : rest.length ≤ input.length := by
  simp only [readKeyVector] at h
  split_ifs at h
  exact (readKeys_rest_le _ h).trans (length_inputSerializeUvarint_le 64 input)

theorem readField_rest_lt {input rest : List UInt8} {field : TxExtraField}
    (h : readField input = some (field, rest)) : rest.length < input.length := by
  cases input with
  | nil => simp [readField] at h
  | cons tag input =>
    simp only [readField] at h
    rw [List.length_cons, Nat.lt_succ_iff]
    split_ifs at h
    · obtain ⟨size, -, heq⟩ := Option.map_eq_some_iff.mp h
      cases heq
      exact Nat.zero_le _
    · obtain ⟨⟨key, rest'⟩, hkey, heq⟩ := Option.map_eq_some_iff.mp h
      cases heq
      exact readBytes32_rest_le hkey
    · split at h
      · cases h
      · rename_i nonce rest' hs
        split_ifs at h
        cases h
        exact readString_rest_le hs
    · split at h
      · cases h
      · rename_i s rest' hs
        obtain ⟨_, -, heq⟩ := Option.map_eq_some_iff.mp h
        cases heq
        exact readString_rest_le hs
    · obtain ⟨⟨keys, rest'⟩, hkeys, heq⟩ := Option.map_eq_some_iff.mp h
      cases heq
      exact readKeyVector_rest_le hkeys
    · obtain ⟨⟨data, rest'⟩, hs, heq⟩ := Option.map_eq_some_iff.mp h
      cases heq
      exact readString_rest_le hs

def parseFields (input : List UInt8) : Option (List TxExtraField) :=
  match _h : readField input with
  | none => none
  | some (field, rest) =>
    if rest = [] then some [field] else (parseFields rest).map (field :: ·)
termination_by input.length
decreasing_by exact readField_rest_lt _h

/-- parse_tx_extra; none where it returns false. -/
def parseTxExtra (txExtra : List UInt8) : Option (List TxExtraField) :=
  if txExtra = [] then some [] else parseFields txExtra

/-! ## Writing -/

def writeString (str : List UInt8) : List UInt8 := writeVarint str.length ++ str

/-- do_serialize of a tx_extra_field on the writing side: the tag byte and the field; none where
the field's serializer returns false. -/
def writeField : TxExtraField → Option (List UInt8)
  | .padding size =>
    if txExtraPaddingMaxCount < size then none
    else some (txExtraTagPadding :: List.replicate (size - 1) 0)
  | .pubKey pubKey => some (txExtraTagPubkey :: pubKey.val)
  | .nonce nonce =>
    if txExtraNonceMaxCount < nonce.length then none else some (txExtraNonce :: writeString nonce)
  | .mergeMiningTag depth merkleRoot =>
    some (txExtraMergeMiningTag :: writeString (writeVarint depth ++ merkleRoot.val))
  | .additionalPubKeys data =>
    some (txExtraTagAdditionalPubkeys :: (writeVarint data.length ++ (data.map (·.val)).flatten))
  | .mysteriousMinergate data => some (txExtraMysteriousMinergateTag :: writeString data)

/-- add_tx_pub_key_to_extra. -/
def addTxPubKeyToExtra (txExtra : List UInt8) (txPubKey : Bytes32) : List UInt8 :=
  txExtra ++ txExtraTagPubkey :: txPubKey.val

/-- add_extra_nonce_to_tx_extra: the tag, the length as one byte, and the nonce; none where it
returns false. -/
def addExtraNonceToTxExtra (txExtra extraNonce : List UInt8) : Option (List UInt8) :=
  if ¬extraNonce.length ≤ txExtraNonceMaxCount then none
  else some (txExtra ++ txExtraNonce :: extraNonce.length.toUInt8 :: extraNonce)

/-- add_additional_tx_pub_keys_to_extra: the field serialized and appended. -/
def addAdditionalTxPubKeysToExtra (txExtra : List UInt8) (additionalPubKeys : List Bytes32) :
    Option (List UInt8) :=
  (writeField (.additionalPubKeys additionalPubKeys)).map (txExtra ++ ·)

/-! ## Each reader reads what its writer writes -/

def TxExtraField.Fits : TxExtraField → Prop
  | .padding size => 1 ≤ size
  | .pubKey _ => True
  | .nonce n => n.length < 2 ^ 64
  | .mergeMiningTag depth _ => depth < 2 ^ 64
  | .additionalPubKeys data => data.length < 2 ^ 64
  | .mysteriousMinergate data => data.length < 2 ^ 64

def TxExtraField.isPadding : TxExtraField → Bool
  | .padding _ => true
  | _ => false

@[simp] theorem readBlob_append (s y : List UInt8) : readBlob s.length (s ++ y) = some (s, y) := by
  simp [readBlob]

@[simp] theorem readBytes32_append (key : Bytes32) (y : List UInt8) :
    readBytes32 (key.val ++ y) = some (key, y) := by
  have hlen := key.property
  simp only [readBytes32, List.length_append, hlen, Nat.le_add_right, dite_true,
    List.take_left' hlen, List.drop_left' hlen]
  rfl

theorem inputSerializeUvarint_writeVarint {r : Nat} (hr : r < 2 ^ 64) (y : List UInt8) :
    inputSerializeUvarint 64 (writeVarint r ++ y) = (r, y) := by
  rw [inputSerializeUvarint, readVarint_writeVarint hr]

theorem readString_writeString {str : List UInt8} (hstr : str.length < 2 ^ 64) (y : List UInt8) :
    readString (writeString str ++ y) = some (str, y) := by
  simp only [readString, writeString, List.append_assoc, inputSerializeUvarint_writeVarint hstr,
    List.length_append, readBlob_append]
  rw [if_neg (by omega)]

theorem readKeys_append (keys : List Bytes32) (y : List UInt8) :
    readKeys keys.length ((keys.map (·.val)).flatten ++ y) = some (keys, y) := by
  induction keys with
  | nil => rfl
  | cons key keys ih =>
    simp only [List.length_cons, List.map_cons, List.flatten_cons, List.append_assoc, readKeys,
      readBytes32_append, ih, Option.map_some]

theorem length_flatten_keys (keys : List Bytes32) :
    ((keys.map (·.val)).flatten).length = 32 * keys.length := by
  induction keys with
  | nil => rfl
  | cons key keys ih =>
    simp only [List.map_cons, List.flatten_cons, List.length_append, ih, key.property,
      List.length_cons]
    ring

theorem readKeyVector_write {keys : List Bytes32} (hkeys : keys.length < 2 ^ 64) (y : List UInt8) :
    readKeyVector (writeVarint keys.length ++ (keys.map (·.val)).flatten ++ y) = some (keys, y) := by
  simp only [readKeyVector, List.append_assoc, inputSerializeUvarint_writeVarint hkeys,
    List.length_append, length_flatten_keys]
  rw [if_neg (by omega), readKeys_append]

theorem readMergeMiningTag_write {depth : Nat} (hdepth : depth < 2 ^ 64) (merkleRoot : Bytes32) :
    readMergeMiningTag (writeVarint depth ++ merkleRoot.val) = some (depth, merkleRoot) := by
  have hroot := readBytes32_append merkleRoot []
  rw [List.append_nil] at hroot
  simp only [readMergeMiningTag]
  rw [inputSerializeUvarint_writeVarint hdepth, hroot]
  rfl

theorem paddingLoop_replicate {size : Nat} (k : Nat) (h : size + k ≤ txExtraPaddingMaxCount) :
    paddingLoop size (List.replicate k 0) = some (size + k) := by
  induction k generalizing size with
  | zero =>
    rw [List.replicate_zero, paddingLoop, if_pos (by omega)]
    rfl
  | succ k ih =>
    rw [List.replicate_succ, paddingLoop, if_pos (by omega), if_neg (by simp),
      ih (by omega)]
    congr 1
    omega

theorem readField_writeField {field : TxExtraField} {b : List UInt8} (hfits : field.Fits)
    (hpad : field.isPadding = false) (hw : writeField field = some b) (y : List UInt8) :
    readField (b ++ y) = some (field, y) := by
  cases field with
  | padding size => simp [TxExtraField.isPadding] at hpad
  | pubKey pubKey =>
    simp only [writeField, Option.some.injEq] at hw
    subst hw
    simp [readField, txExtraTagPadding, txExtraTagPubkey]
  | nonce n =>
    simp only [writeField] at hw
    split_ifs at hw with hmax
    cases hw
    simp only [List.cons_append, readField, readString_writeString hfits, if_neg hmax]
    simp [txExtraTagPadding, txExtraTagPubkey, txExtraNonce]
  | mergeMiningTag depth merkleRoot =>
    simp only [writeField, Option.some.injEq] at hw
    subst hw
    have hinner : (writeVarint depth ++ merkleRoot.val).length < 2 ^ 64 := by
      have hlen := length_writeVarint_le 9 depth (lt_of_lt_of_le hfits (by norm_num))
      rw [List.length_append, merkleRoot.property]
      omega
    simp only [List.cons_append, readField, readString_writeString hinner,
      readMergeMiningTag_write hfits]
    simp [txExtraTagPadding, txExtraTagPubkey, txExtraNonce, txExtraMergeMiningTag]
  | additionalPubKeys data =>
    simp only [writeField, Option.some.injEq] at hw
    subst hw
    simp only [List.cons_append, readField, readKeyVector_write hfits]
    simp [txExtraTagPadding, txExtraTagPubkey, txExtraNonce, txExtraMergeMiningTag,
      txExtraTagAdditionalPubkeys]
  | mysteriousMinergate data =>
    simp only [writeField, Option.some.injEq] at hw
    subst hw
    simp only [List.cons_append, readField, readString_writeString hfits]
    simp [txExtraTagPadding, txExtraTagPubkey, txExtraNonce, txExtraMergeMiningTag,
      txExtraTagAdditionalPubkeys, txExtraMysteriousMinergateTag]

theorem readField_writeField_padding {size : Nat} {b : List UInt8} (hsize : 1 ≤ size)
    (hw : writeField (.padding size) = some b) : readField b = some (.padding size, []) := by
  simp only [writeField] at hw
  split_ifs at hw with hmax
  cases hw
  rw [readField, if_pos rfl, paddingLoop_replicate (size - 1) (by omega)]
  simp only [Option.map_some]
  congr 3
  omega

theorem parseFields_of_readField {input rest : List UInt8} {field : TxExtraField}
    (h : readField input = some (field, rest)) :
    parseFields input = if rest = [] then some [field] else (parseFields rest).map (field :: ·) := by
  rw [parseFields]
  split
  · rename_i hnone
    rw [h] at hnone
    cases hnone
  · rename_i field' rest' hsome
    rw [h] at hsome
    cases hsome
    rfl

/-! ## A tx_extra built field by field -/

def writeFields : List TxExtraField → Option (List UInt8)
  | [] => some []
  | field :: fields =>
    match writeField field, writeFields fields with
    | some b, some bs => some (b ++ bs)
    | _, _ => none

theorem writeFields_cons {field : TxExtraField} {fields : List TxExtraField} {x : List UInt8}
    (h : writeFields (field :: fields) = some x) :
    ∃ b bs, writeField field = some b ∧ writeFields fields = some bs ∧ x = b ++ bs := by
  simp only [writeFields] at h
  split at h
  · rename_i b bs hb hbs
    cases h
    exact ⟨b, bs, hb, hbs, rfl⟩
  · cases h

theorem writeField_ne_nil {field : TxExtraField} {b : List UInt8} (h : writeField field = some b) :
    b ≠ [] := by
  cases field <;> simp only [writeField] at h <;> (try split_ifs at h) <;> cases h <;> simp

/-- Fields that parse_tx_extra reads back: their lengths fit, and none is padding, which would
swallow what follows it. -/
def Readable (fields : List TxExtraField) : Prop :=
  ∀ field ∈ fields, field.Fits ∧ field.isPadding = false

theorem parseFields_writeFields_append {fields : List TxExtraField} {x : List UInt8}
    (hfields : Readable fields) (hx : writeFields fields = some x) {y : List UInt8} (hy : y ≠ []) :
    parseFields (x ++ y) = (parseFields y).map (fields ++ ·) := by
  induction fields generalizing x with
  | nil =>
    simp only [writeFields, Option.some.injEq] at hx
    subst hx
    simp
  | cons field fields ih =>
    obtain ⟨b, bs, hb, hbs, rfl⟩ := writeFields_cons hx
    obtain ⟨hfits, hpad⟩ := hfields field (List.mem_cons_self ..)
    have hrest : Readable fields := fun f hf => hfields f (List.mem_cons_of_mem _ hf)
    have hread := readField_writeField hfits hpad hb (bs ++ y)
    rw [List.append_assoc, parseFields_of_readField hread, if_neg (by simp [hy]), ih hrest hbs,
      Option.map_map]
    rfl

theorem parseTxExtra_writeFields {fields : List TxExtraField} {x : List UInt8}
    (hfields : Readable fields) (hx : writeFields fields = some x) :
    parseTxExtra x = some fields := by
  induction fields generalizing x with
  | nil =>
    simp only [writeFields, Option.some.injEq] at hx
    subst hx
    rfl
  | cons field fields ih =>
    obtain ⟨b, bs, hb, hbs, rfl⟩ := writeFields_cons hx
    obtain ⟨hfits, hpad⟩ := hfields field (List.mem_cons_self ..)
    have hrest : Readable fields := fun f hf => hfields f (List.mem_cons_of_mem _ hf)
    have hread := readField_writeField hfits hpad hb bs
    have hne : b ++ bs ≠ [] := by simp [writeField_ne_nil hb]
    rw [parseTxExtra, if_neg hne, parseFields_of_readField hread]
    by_cases hbs0 : bs = []
    · subst hbs0
      cases fields with
      | nil => rw [if_pos rfl]
      | cons f fs =>
        obtain ⟨c, cs, hc, -, hcs⟩ := writeFields_cons hbs
        exact absurd hcs.symm (by simp [writeField_ne_nil hc])
    · have hparse := ih hrest hbs
      rw [parseTxExtra, if_neg hbs0] at hparse
      rw [if_neg hbs0, hparse]
      rfl

theorem parseTxExtra_append_field {fields : List TxExtraField} {x b : List UInt8}
    (hfields : Readable fields) (hx : writeFields fields = some x) {field : TxExtraField}
    (hfits : field.Fits) (hpad : field.isPadding = false) (hb : writeField field = some b) :
    parseTxExtra (x ++ b) = some (fields ++ [field]) := by
  have hne := writeField_ne_nil hb
  have hread := readField_writeField hfits hpad hb []
  rw [List.append_nil] at hread
  rw [parseTxExtra, if_neg (by simp [hne]), parseFields_writeFields_append hfields hx hne,
    parseFields_of_readField hread, if_pos rfl]
  rfl

theorem writeFields_append_field {fields : List TxExtraField} {x b : List UInt8}
    {field : TxExtraField} (hx : writeFields fields = some x) (hb : writeField field = some b) :
    writeFields (fields ++ [field]) = some (x ++ b) := by
  induction fields generalizing x with
  | nil =>
    simp only [writeFields, Option.some.injEq] at hx
    subst hx
    simp [writeFields, hb]
  | cons f fields ih =>
    obtain ⟨c, cs, hc, hcs, rfl⟩ := writeFields_cons hx
    simp [writeFields, hc, ih hcs, List.append_assoc]

/-! ## A tx_extra filled call by call -/

/-- A call that appends a field to tx.extra: add_tx_pub_key_to_extra,
add_extra_nonce_to_tx_extra or add_additional_tx_pub_keys_to_extra. -/
inductive ExtraAdd
  | txPubKey (txPubKey : Bytes32)
  | extraNonce (extraNonce : List UInt8)
  | additionalTxPubKeys (additionalPubKeys : List Bytes32)

namespace ExtraAdd

def apply : ExtraAdd → List UInt8 → Option (List UInt8)
  | .txPubKey key, txExtra => some (addTxPubKeyToExtra txExtra key)
  | .extraNonce nonce, txExtra => addExtraNonceToTxExtra txExtra nonce
  | .additionalTxPubKeys keys, txExtra => addAdditionalTxPubKeysToExtra txExtra keys

def field : ExtraAdd → TxExtraField
  | .txPubKey key => .pubKey key
  | .extraNonce nonce => .nonce nonce
  | .additionalTxPubKeys keys => .additionalPubKeys keys

def Short : ExtraAdd → Prop
  | .txPubKey _ => True
  | .extraNonce nonce => nonce.length < 0x80
  | .additionalTxPubKeys keys => keys.length < 2 ^ 64

theorem apply_eq_append {a : ExtraAdd} (ha : a.Short) (txExtra : List UInt8) :
    ∃ b, writeField a.field = some b ∧ a.apply txExtra = some (txExtra ++ b) := by
  cases a with
  | txPubKey key => exact ⟨_, rfl, rfl⟩
  | extraNonce nonce =>
    have hshort : nonce.length < 0x80 := ha
    have hmax : nonce.length ≤ txExtraNonceMaxCount := by
      simp only [txExtraNonceMaxCount]
      omega
    refine ⟨_, ?_, by rw [apply, addExtraNonceToTxExtra, if_neg (not_not.mpr hmax)]⟩
    rw [field, writeField, if_neg (by omega), writeString, writeVarint_of_lt hshort]
    rfl
  | additionalTxPubKeys keys => exact ⟨_, rfl, rfl⟩

theorem readable_field {a : ExtraAdd} (ha : a.Short) : a.field.Fits ∧ a.field.isPadding = false := by
  cases a with
  | txPubKey => exact ⟨trivial, rfl⟩
  | extraNonce nonce =>
    have hshort : nonce.length < 0x80 := ha
    exact ⟨show nonce.length < 2 ^ 64 by omega, rfl⟩
  | additionalTxPubKeys => exact ⟨ha, rfl⟩

end ExtraAdd

/-- The calls one after another; none where one returns false. -/
def addToExtra (adds : List ExtraAdd) (txExtra : List UInt8) : Option (List UInt8) :=
  adds.foldlM (fun x a => a.apply x) txExtra

theorem addToExtra_writeFields (adds : List ExtraAdd) (hadds : ∀ a ∈ adds, a.Short)
    {fields : List TxExtraField} {x : List UInt8} (hx : writeFields fields = some x) :
    ∃ z, addToExtra adds x = some z ∧ writeFields (fields ++ adds.map ExtraAdd.field) = some z := by
  induction adds generalizing fields x with
  | nil => exact ⟨x, rfl, by simpa using hx⟩
  | cons a adds ih =>
    obtain ⟨b, hb, happly⟩ := ExtraAdd.apply_eq_append (hadds a (List.mem_cons_self ..)) x
    obtain ⟨z, hz, hw⟩ := ih (fun a' h => hadds a' (List.mem_cons_of_mem _ h))
      (writeFields_append_field hx hb)
    refine ⟨z, ?_, by simpa using hw⟩
    simp only [addToExtra, List.foldlM_cons, happly, Option.bind_eq_bind, Option.bind_some]
    exact hz

/-- After fields written before, parse_tx_extra reads back every field that a run of
add_tx_pub_key_to_extra, add_extra_nonce_to_tx_extra (with a nonce shorter than 128 bytes) and
add_additional_tx_pub_keys_to_extra appends, in the order of the calls. -/
theorem parseTxExtra_addToExtra {fields : List TxExtraField} {x : List UInt8}
    (hfields : Readable fields) (hx : writeFields fields = some x) (adds : List ExtraAdd)
    (hadds : ∀ a ∈ adds, a.Short) :
    ∃ z, addToExtra adds x = some z ∧ parseTxExtra z = some (fields ++ adds.map ExtraAdd.field) := by
  obtain ⟨z, hz, hw⟩ := addToExtra_writeFields adds hadds hx
  have hreadable : Readable (fields ++ adds.map ExtraAdd.field) := by
    intro f hf
    rcases List.mem_append.mp hf with hf | hf
    · exact hfields f hf
    · obtain ⟨a, ha, rfl⟩ := List.mem_map.mp hf
      exact ExtraAdd.readable_field (hadds a ha)
  exact ⟨z, hz, parseTxExtra_writeFields hreadable hw⟩

theorem parseTxExtra_addToExtra_key_nonce_keys :
    let key : Bytes32 := ⟨List.replicate 32 7, List.length_replicate⟩
    let adds := [ExtraAdd.txPubKey key, .extraNonce [1, 2, 3], .additionalTxPubKeys [key]]
    Readable [] ∧ writeFields [] = some [] ∧ (∀ a ∈ adds, a.Short) ∧
      ∃ z, addToExtra adds [] = some z ∧ parseTxExtra z = some ([] ++ adds.map ExtraAdd.field) := by
  intro key adds
  have hadds : ∀ a ∈ adds, a.Short := by
    intro a ha
    simp only [adds, List.mem_cons, List.not_mem_nil, or_false] at ha
    rcases ha with rfl | rfl | rfl
    · exact trivial
    · show [1, 2, 3].length < 0x80
      decide
    · show [key].length < 2 ^ 64
      decide
  have hempty : Readable [] := fun _ h => absurd h List.not_mem_nil
  exact ⟨hempty, rfl, hadds, parseTxExtra_addToExtra hempty rfl adds hadds⟩

theorem parseFields_head {input : List UInt8} {field : TxExtraField} {fields : List TxExtraField}
    (h : parseFields input = some (field :: fields)) : ∃ rest, readField input = some (field, rest) := by
  rw [parseFields] at h
  split at h
  · cases h
  · rename_i field' rest hread
    refine ⟨rest, ?_⟩
    split_ifs at h
    · cases h
      exact hread
    · obtain ⟨_, -, heq⟩ := Option.map_eq_some_iff.mp h
      cases heq
      exact hread

theorem readField_long_nonce {extraNonce rest : List UInt8} {field : TxExtraField}
    (hlong : 0x80 ≤ extraNonce.length) (hmax : extraNonce.length ≤ txExtraNonceMaxCount)
    (h : readField (txExtraNonce :: extraNonce.length.toUInt8 :: extraNonce) = some (field, rest)) :
    field ≠ .nonce extraNonce := by
  have hbyte : extraNonce.length.toUInt8.toNat = extraNonce.length := by
    simp only [txExtraNonceMaxCount] at hmax
    simp only [Nat.toUInt8, UInt8.toNat_ofNat']
    omega
  have hcont : extraNonce.length.toUInt8 &&& 0x80 ≠ 0 := by
    intro hstop
    have := (stopByte _ hstop).1
    omega
  obtain ⟨c, cs, hcs⟩ : ∃ c cs, extraNonce = c :: cs := List.exists_cons_of_ne_nil (by
    intro h0
    simp [h0] at hlong)
  have hsize : (inputSerializeUvarint 64 (extraNonce.length.toUInt8 :: extraNonce)).2.length <
      extraNonce.length := by
    generalize extraNonce.length.toUInt8 = b at hcont ⊢
    have hnz : ¬(b = 0 ∧ (0 : Nat) ≠ 0) := by simp
    simp only [inputSerializeUvarint, readVarint]
    rw [readVarintLoop, if_neg (by omega), if_neg hnz, if_neg hcont, hcs]
    exact lt_of_le_of_lt (length_readVarintLoop_cons_rest_le c cs _ _ _) (by simp)
  rw [readField, if_neg (by decide), if_neg (by decide), if_pos rfl] at h
  split at h
  · cases h
  · rename_i s r hs
    split_ifs at h
    cases h
    simp only [readString] at hs
    split_ifs at hs with hlt
    obtain ⟨hlen, -⟩ := readBlob_sound hs
    intro heq
    cases heq
    omega

/-- add_extra_nonce_to_tx_extra accepts nonces up to 255 bytes but writes their length as one
byte: appended to any written fields, a nonce of 128 to 255 bytes is not parsed back. -/
theorem addExtraNonceToTxExtra_long_nonce_unreadable {fields : List TxExtraField}
    {x extraNonce : List UInt8} (hfields : Readable fields) (hx : writeFields fields = some x)
    (hlong : 0x80 ≤ extraNonce.length) (hmax : extraNonce.length ≤ txExtraNonceMaxCount) :
    parseTxExtra x = some fields ∧ ∃ z, addExtraNonceToTxExtra x extraNonce = some z ∧
      parseTxExtra z ≠ some (fields ++ [.nonce extraNonce]) := by
  refine ⟨parseTxExtra_writeFields hfields hx, _,
    by rw [addExtraNonceToTxExtra, if_neg (not_not.mpr hmax)], ?_⟩
  intro hparse
  have hne : txExtraNonce :: extraNonce.length.toUInt8 :: extraNonce ≠ [] := by simp
  rw [parseTxExtra, if_neg (by simp), parseFields_writeFields_append hfields hx hne] at hparse
  obtain ⟨l, hl, happ⟩ := Option.map_eq_some_iff.mp hparse
  rw [List.append_cancel_left happ] at hl
  obtain ⟨rest, hread⟩ := parseFields_head hl
  exact readField_long_nonce hlong hmax hread rfl

theorem addExtraNonceToTxExtra_long_nonce_unreadable_empty :
    Readable [] ∧ writeFields [] = some [] ∧ 0x80 ≤ (List.replicate 128 (1 : UInt8)).length ∧
      (List.replicate 128 (1 : UInt8)).length ≤ txExtraNonceMaxCount ∧
      (parseTxExtra [] = some [] ∧ ∃ z, addExtraNonceToTxExtra [] (List.replicate 128 1) = some z ∧
        parseTxExtra z ≠ some ([] ++ [.nonce (List.replicate 128 1)])) := by
  have hnil : Readable [] := fun _ h => absurd h List.not_mem_nil
  have hlong : 0x80 ≤ (List.replicate 128 (1 : UInt8)).length := by simp
  have hmax : (List.replicate 128 (1 : UInt8)).length ≤ txExtraNonceMaxCount := by
    simp [txExtraNonceMaxCount]
  exact ⟨hnil, rfl, hlong, hmax, addExtraNonceToTxExtra_long_nonce_unreadable hnil rfl hlong hmax⟩

/-! ## What parse_tx_extra returns -/

theorem paddingLoop_bounds :
    ∀ {input : List UInt8} {size r : Nat}, paddingLoop size input = some r →
      size ≤ r ∧ r ≤ txExtraPaddingMaxCount
  | [], size, r, h => by
    rw [paddingLoop] at h
    split_ifs at h with hmax
    cases h
    exact ⟨le_rfl, hmax⟩
  | zero :: rest, size, r, h => by
    rw [paddingLoop] at h
    split_ifs at h
    have := paddingLoop_bounds h
    omega

theorem readString_length {input s rest : List UInt8} (h : readString input = some (s, rest)) :
    s.length < 2 ^ 64 := by
  simp only [readString] at h
  split_ifs at h
  rw [(readBlob_sound h).1]
  exact inputSerializeUvarint_lt 64 input

theorem readKeys_length :
    ∀ (cnt : Nat) {input rest : List UInt8} {keys : List Bytes32},
      readKeys cnt input = some (keys, rest) → keys.length = cnt
  | 0, _, _, _, h => by
    simp only [readKeys, Option.some.injEq, Prod.mk.injEq] at h
    rw [← h.1]
    rfl
  | cnt + 1, input, rest, keys, h => by
    simp only [readKeys] at h
    split at h
    · cases h
    · obtain ⟨⟨keys', rest''⟩, hrest, heq⟩ := Option.map_eq_some_iff.mp h
      cases heq
      rw [List.length_cons, readKeys_length cnt hrest]

theorem readKeyVector_length {input rest : List UInt8} {keys : List Bytes32}
    (h : readKeyVector input = some (keys, rest)) : keys.length < 2 ^ 64 := by
  simp only [readKeyVector] at h
  split_ifs at h
  rw [readKeys_length _ h]
  exact inputSerializeUvarint_lt 64 input

theorem readMergeMiningTag_depth {field : List UInt8} {depth : Nat} {merkleRoot : Bytes32}
    (h : readMergeMiningTag field = some (depth, merkleRoot)) : depth < 2 ^ 64 := by
  simp only [readMergeMiningTag] at h
  split at h
  · cases h
  · split_ifs at h
    cases h
    exact inputSerializeUvarint_lt 64 field

theorem readField_fits {input rest : List UInt8} {field : TxExtraField}
    (h : readField input = some (field, rest)) :
    field.Fits ∧ (writeField field).isSome = true ∧ (field.isPadding = true → rest = []) := by
  cases input with
  | nil => simp [readField] at h
  | cons tag input =>
    simp only [readField] at h
    split_ifs at h
    · obtain ⟨size, hloop, heq⟩ := Option.map_eq_some_iff.mp h
      cases heq
      have hbounds := paddingLoop_bounds hloop
      refine ⟨hbounds.1, ?_, fun _ => rfl⟩
      simp [writeField, if_neg (Nat.not_lt.mpr hbounds.2)]
    · obtain ⟨⟨key, rest'⟩, -, heq⟩ := Option.map_eq_some_iff.mp h
      cases heq
      exact ⟨trivial, rfl, nofun⟩
    · split at h
      · cases h
      · split_ifs at h with hmax
        cases h
        refine ⟨?_, by simp [writeField, hmax], nofun⟩
        simp only [TxExtraField.Fits, txExtraNonceMaxCount] at hmax ⊢
        omega
    · split at h
      · cases h
      · rename_i s rest' hs
        obtain ⟨⟨depth, merkleRoot⟩, hmm, heq⟩ := Option.map_eq_some_iff.mp h
        cases heq
        exact ⟨readMergeMiningTag_depth hmm, rfl, nofun⟩
    · obtain ⟨⟨keys, rest'⟩, hkeys, heq⟩ := Option.map_eq_some_iff.mp h
      cases heq
      exact ⟨readKeyVector_length hkeys, rfl, nofun⟩
    · obtain ⟨⟨data, rest'⟩, hs, heq⟩ := Option.map_eq_some_iff.mp h
      cases heq
      exact ⟨readString_length hs, rfl, nofun⟩

/-- Fields as parse_tx_extra returns them: each fits and serializes, and no field but the last
is a padding. -/
def Parsed (fields : List TxExtraField) : Prop :=
  (∀ field ∈ fields, field.Fits ∧ (writeField field).isSome = true) ∧
    fields.Pairwise fun field _ => field.isPadding = false

theorem parseFields_parsed {input : List UInt8} {fields : List TxExtraField}
    (h : parseFields input = some fields) : Parsed fields := by
  induction hn : input.length using Nat.strong_induction_on generalizing input fields with
  | _ n ih =>
    rw [parseFields] at h
    split at h
    · cases h
    · rename_i field rest hread
      obtain ⟨hfits, hw, hpad⟩ := readField_fits hread
      split_ifs at h with hrest
      · cases h
        exact ⟨by simpa using ⟨hfits, hw⟩, List.pairwise_singleton _ _⟩
      · obtain ⟨fields', hfields', rfl⟩ := Option.map_eq_some_iff.mp h
        have ih' := ih rest.length (hn ▸ readField_rest_lt hread) hfields' rfl
        have hnotpad : field.isPadding = false := by
          cases hp : field.isPadding
          · rfl
          · exact absurd (hpad hp) hrest
        refine ⟨?_, List.pairwise_cons.mpr ⟨fun _ _ => hnotpad, ih'.2⟩⟩
        intro f hf
        rcases List.mem_cons.mp hf with rfl | hf
        · exact ⟨hfits, hw⟩
        · exact ih'.1 f hf

end PepePrivate.Serialization
