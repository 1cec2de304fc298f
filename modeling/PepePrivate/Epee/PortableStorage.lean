import PepePrivate.Library.Digits

/-! The binary format of epee's portable storage, contrib/epee/include/storages. A section maps
names to storage entries, each a scalar, a string, a section or an array of one kind of them.
portable_storage::store_to_binary writes a header and the root section with
pack_entry_to_buff; load_from_binary checks the header and reads the root section back with
throwable_buffer_reader, every call of which takes one step of a recursion counter that throws
at EPEE_PORTABLE_STORAGE_RECURSION_LIMIT_INTERNAL. Exceptions are the error of an Except. -/

namespace PepePrivate.Epee

open Digits

def portableStorageSignaturea : Nat := 0x01011101
def portableStorageSignatureb : Nat := 0x01020101
def portableStorageFormatVer : UInt8 := 1

def portableRawSizeMarkMask : UInt8 := 0x03
def portableRawSizeMarkByte : Nat := 0
def portableRawSizeMarkWord : Nat := 1
def portableRawSizeMarkDword : Nat := 2
def portableRawSizeMarkInt64 : Nat := 3

def maxStringLenPossible : Nat := 2000000000

def serializeTypeInt64 : UInt8 := 1
def serializeTypeInt32 : UInt8 := 2
def serializeTypeInt16 : UInt8 := 3
def serializeTypeInt8 : UInt8 := 4
def serializeTypeUint64 : UInt8 := 5
def serializeTypeUint32 : UInt8 := 6
def serializeTypeUint16 : UInt8 := 7
def serializeTypeUint8 : UInt8 := 8
def serializeTypeDuoble : UInt8 := 9
def serializeTypeString : UInt8 := 10
def serializeTypeBool : UInt8 := 11
def serializeTypeObject : UInt8 := 12
def serializeTypeArray : UInt8 := 13
def serializeFlagArray : UInt8 := 0x80

def epeePortableStorageRecursionLimitInternal : Nat := 100

def maxVarint : Nat := 4611686018427387903

inductive PodType
  | int64 | int32 | int16 | int8 | uint64 | uint32 | uint16 | uint8 | double | bool
  deriving DecidableEq, Repr

def PodType.size : PodType → Nat
  | .int64 | .uint64 | .double => 8
  | .int32 | .uint32 => 4
  | .int16 | .uint16 => 2
  | .int8 | .uint8 | .bool => 1

def PodType.code : PodType → UInt8
  | .int64 => serializeTypeInt64
  | .int32 => serializeTypeInt32
  | .int16 => serializeTypeInt16
  | .int8 => serializeTypeInt8
  | .uint64 => serializeTypeUint64
  | .uint32 => serializeTypeUint32
  | .uint16 => serializeTypeUint16
  | .uint8 => serializeTypeUint8
  | .double => serializeTypeDuoble
  | .bool => serializeTypeBool

abbrev PodValue (t : PodType) := Fin (2 ^ (8 * t.size))

mutual
/-- storage_entry: the scalars, std::string, section and array_entry. -/
inductive StorageEntry
  | pod (t : PodType) (v : PodValue t)
  | string (v : List UInt8)
  | section (v : Section)
  | array (v : ArrayEntry)

/-- array_entry: an array_entry_t of one scalar type, of strings, of sections or of arrays. -/
inductive ArrayEntry
  | pod (t : PodType) (vs : List (PodValue t))
  | string (vs : List (List UInt8))
  | section (vs : List Section)
  | array (vs : List ArrayEntry)

/-- section: the std::map m_entries as its pairs in the order of their names. -/
inductive Section
  | mk (entries : List (List UInt8 × StorageEntry))
end

def Section.entries : Section → List (List UInt8 × StorageEntry)
  | .mk entries => entries

/-! ## Writing: pack_entry_to_buff -/

/-- pack_varint_t: the low sizeof(pack_value) bytes of pv shifted left by two and or'ed with the
size mark, written in as many bytes. -/
def packVarintT (size typeOr pv : Nat) : List UInt8 :=
  toBytesLE size ((pv % 2 ^ (8 * size)) <<< 2 % 2 ^ (8 * size) ||| typeOr)

/-- pack_varint: the fewest of one, two, four or eight bytes, their two low bits saying which. -/
def packVarint (val : Nat) : Except String (List UInt8) :=
  if val ≤ 63 then .ok (packVarintT 1 portableRawSizeMarkByte val)
  else if val ≤ 16383 then .ok (packVarintT 2 portableRawSizeMarkWord val)
  else if val ≤ 1073741823 then .ok (packVarintT 4 portableRawSizeMarkDword val)
  else if val ≤ maxVarint then .ok (packVarintT 8 portableRawSizeMarkInt64 val)
  else .error ("failed to pack varint - too big amount = " ++ toString val)

def putString (v : List UInt8) : Except String (List UInt8) := do
  let size ← packVarint v.length
  return size ++ v

def putStrings : List (List UInt8) → Except String (List UInt8)
  | [] => .ok []
  | v :: vs => do
    let b ← putString v
    let rest ← putStrings vs
    return b ++ rest

mutual
/-- pack_entry_to_buff of a section: the number of entries, then each name, one byte of length
first, and its entry. -/
def Section.packEntryToBuff : Section → Except String (List UInt8)
  | .mk entries => do
    let count ← packVarint entries.length
    let body ← packEntries entries
    return count ++ body

def packEntries : List (List UInt8 × StorageEntry) → Except String (List UInt8)
  | [] => .ok []
  | (name, entry) :: entries => do
    if ¬name.length < 255 then throw ("storage_entry_name is too long: " ++ toString name.length)
    let e ← entry.packEntryToBuff
    let rest ← packEntries entries
    return (name.length.toUInt8 :: name) ++ e ++ rest

/-- pack_entry_to_buff of a storage_entry, through storage_entry_store_visitor: the type code,
then the value; an array writes its own type code. -/
def StorageEntry.packEntryToBuff : StorageEntry → Except String (List UInt8)
  | .pod t v => .ok (t.code :: toBytesLE t.size v.val)
  | .string v => do
    let b ← putString v
    return serializeTypeString :: b
  | .section v => do
    let b ← v.packEntryToBuff
    return serializeTypeObject :: b
  | .array v => v.packEntryToBuff

/-- pack_entry_to_buff of an array_entry, through array_entry_store_visitor: the element type
code with SERIALIZE_FLAG_ARRAY, the number of elements, then the elements. -/
def ArrayEntry.packEntryToBuff : ArrayEntry → Except String (List UInt8)
  | .pod t vs => do
    let count ← packVarint vs.length
    return (t.code ||| serializeFlagArray) :: count ++ vs.flatMap fun x => toBytesLE t.size x.val
  | .string vs => do
    let count ← packVarint vs.length
    let body ← putStrings vs
    return (serializeTypeString ||| serializeFlagArray) :: count ++ body
  | .section vs => do
    let count ← packVarint vs.length
    let body ← packSections vs
    return (serializeTypeObject ||| serializeFlagArray) :: count ++ body
  | .array vs => do
    let count ← packVarint vs.length
    let body ← packArrays vs
    return (serializeTypeArray ||| serializeFlagArray) :: count ++ body

def packSections : List Section → Except String (List UInt8)
  | [] => .ok []
  | s :: ss => do
    let b ← s.packEntryToBuff
    let rest ← packSections ss
    return b ++ rest

def packArrays : List ArrayEntry → Except String (List UInt8)
  | [] => .ok []
  | a :: as => do
    let b ← a.packEntryToBuff
    let rest ← packArrays as
    return b ++ rest
end

def storageBlockHeader : List UInt8 :=
  toBytesLE 4 portableStorageSignaturea ++ toBytesLE 4 portableStorageSignatureb ++
    [portableStorageFormatVer]

/-- portable_storage::store_to_binary: none where pack_entry_to_buff throws. -/
def storeToBinary (root : Section) : Option (List UInt8) :=
  match root.packEntryToBuff with
  | .ok body => some (storageBlockHeader ++ body)
  | .error _ => none

/-! ## Reading: throwable_buffer_reader

Every reader function takes the number of calls the recursion counter still allows. Entering
one takes one of them, and the calls it makes get the rest; with none left, RECURSION_LIMITATION
throws. -/

def recursionLimitationError : String :=
  "Wrong blob data in portable storage: recursion limitation (100) exceeded"

/-- while (count--): the reads of count elements one after another. -/
def readLoop {α : Type} (readOne : List UInt8 → Except String (α × List UInt8)) : Nat → List UInt8 → Except String (List α × List UInt8)
  | 0, input => .ok ([], input)
  | n + 1, input => do
    let (a, input) ← readOne input
    let (as, input) ← readLoop readOne n input
    return (a :: as, input)

/-- read(void*, count). -/
def readBytes : Nat → Nat → List UInt8 → Except String (List UInt8 × List UInt8)
  | 0, _, _ => .error recursionLimitationError
  | _ + 1, count, input =>
    if input.length ≥ count then .ok (input.take count, input.drop count)
    else .error (" attempt to read " ++ toString count ++ " bytes from buffer with " ++
      toString input.length ++ " bytes remained")

/-- read(t_pod_type&): sizeof bytes, little-endian. -/
def readPod : Nat → (size : Nat) → List UInt8 → Except String (Fin (2 ^ (8 * size)) × List UInt8)
  | 0, _, _ => .error recursionLimitationError
  | f + 1, size, input => do
    let (bytes, input) ← readBytes f size input
    -- the bytes read are size of them, so the reduction leaves their value as it is
    return (⟨ofBytesLE bytes % 2 ^ (8 * size), Nat.mod_lt _ (Nat.two_pow_pos _)⟩, input)

def readUInt8 (f : Nat) (input : List UInt8) : Except String (UInt8 × List UInt8) := do
  let (v, input) ← readPod f 1 input
  return (v.val.toUInt8, input)

def readT : Nat → (size : Nat) → List UInt8 → Except String (Fin (2 ^ (8 * size)) × List UInt8)
  | 0, _, _ => .error recursionLimitationError
  | f + 1, size, input => readPod f size input

def varintSize (sizeMask : UInt8) : Nat :=
  match sizeMask with
  | 0 => 1
  | 1 => 2
  | 2 => 4
  | _ => 8

/-- read_varint: the size mark of the first byte chooses how many bytes to read, and the value
read is shifted right by two. -/
def readVarint : Nat → List UInt8 → Except String (Nat × List UInt8)
  | 0, _ => .error recursionLimitationError
  | f + 1, input =>
    match input with
    | [] => .error "empty buff, expected place for varint"
    | b :: _ => do
      let (v, input) ← readT f (varintSize (b &&& portableRawSizeMarkMask)) input
      return (v.val >>> 2, input)

/-- read_sec_name: one byte of length, then the name. -/
def readSecName : Nat → List UInt8 → Except String (List UInt8 × List UInt8)
  | 0, _ => .error recursionLimitationError
  | f + 1, input => do
    let (nameLen, input) ← readPod f 1 input
    readBytes f nameLen.val input

/-- read(std::string&): the length, bounded by MAX_STRING_LEN_POSSIBLE and by the bytes left,
then the bytes, copied without another read. -/
def readString : Nat → List UInt8 → Except String (List UInt8 × List UInt8)
  | 0, _ => .error recursionLimitationError
  | f + 1, input => do
    let (len, input) ← readVarint f input
    if ¬len < maxStringLenPossible then throw ("to big string len value in storage: " ++ toString len)
    if ¬input.length ≥ len then
      throw ("string len count value " ++ toString len ++ " goes out of remain storage len " ++
        toString input.length)
    return (input.take len, input.drop len)

def readTString : Nat → List UInt8 → Except String (List UInt8 × List UInt8)
  | 0, _ => .error recursionLimitationError
  | f + 1, input => readString f input

def readArrayEntry : Nat → List UInt8 → Except String (ArrayEntry × List UInt8)
  | 0, _ => .error recursionLimitationError
  | _ + 1, _ => .error "Reading array entry is not supported"

def readTArrayEntry : Nat → List UInt8 → Except String (ArrayEntry × List UInt8)
  | 0, _ => .error recursionLimitationError
  | f + 1, input => readArrayEntry f input

inductive EntryType
  | pod (t : PodType)
  | string
  | object
  | array

def entryTypeOfCode (code : UInt8) : Option EntryType :=
  match code with
  | 1 => some (.pod .int64)
  | 2 => some (.pod .int32)
  | 3 => some (.pod .int16)
  | 4 => some (.pod .int8)
  | 5 => some (.pod .uint64)
  | 6 => some (.pod .uint32)
  | 7 => some (.pod .uint16)
  | 8 => some (.pod .uint8)
  | 9 => some (.pod .double)
  | 10 => some .string
  | 11 => some (.pod .bool)
  | 12 => some .object
  | 13 => some .array
  | _ => none

def mapInsert {α : Type} (name : List UInt8) (v : α) : List (List UInt8 × α) → List (List UInt8 × α)
  | [] => [(name, v)]
  | (n, w) :: rest =>
    if name < n then (name, v) :: (n, w) :: rest
    else if name = n then (n, w) :: rest
    else (n, w) :: mapInsert name v rest

def readNameAndEntry (f : Nat) (loadEntry : List UInt8 → Except String (StorageEntry × List UInt8))
    (input : List UInt8) : Except String ((List UInt8 × StorageEntry) × List UInt8) := do
  let (name, input) ← readSecName f input
  let (entry, input) ← loadEntry input
  return ((name, entry), input)

mutual
/-- read(section&): the number of entries, then each name and entry, inserted into m_entries. -/
def readSection : Nat → List UInt8 → Except String (Section × List UInt8)
  | 0, _ => .error recursionLimitationError
  | f + 1, input => do
    let (count, input) ← readVarint f input
    let (entries, input) ← readLoop (readNameAndEntry f (loadStorageEntry f)) count input
    return (.mk (entries.foldl (fun m e => mapInsert e.1 e.2 m) []), input)

/-- load_storage_entry: the type code, then an array where it has SERIALIZE_FLAG_ARRAY, else the
value read_se reads for it. -/
def loadStorageEntry : Nat → List UInt8 → Except String (StorageEntry × List UInt8)
  | 0, _ => .error recursionLimitationError
  | f + 1, input => do
    let (entType, input) ← readUInt8 f input
    if entType &&& serializeFlagArray ≠ 0 then
      let (a, input) ← loadStorageArrayEntry f entType input
      return (.array a, input)
    match entryTypeOfCode entType with
    | some kind => readSe f kind input
    | none => throw ("unknown entry_type code = " ++ toString entType)

/-- read_se<t_type>. An entry of type SERIALIZE_TYPE_ARRAY reads another type code, which must
have the array flag. -/
def readSe : Nat → EntryType → List UInt8 → Except String (StorageEntry × List UInt8)
  | 0, _, _ => .error recursionLimitationError
  | f + 1, .pod t, input => do
    let (v, input) ← readPod f t.size input
    return (.pod t v, input)
  | f + 1, .string, input => do
    let (v, input) ← readTString f input
    return (.string v, input)
  | f + 1, .object, input => do
    let (s, input) ← readSection f input
    return (.section s, input)
  | f + 1, .array, input => do
    let (entType, input) ← readUInt8 f input
    if entType &&& serializeFlagArray = 0 then throw "wrong type sequenses"
    let (a, input) ← loadStorageArrayEntry f entType input
    return (.array a, input)

/-- load_storage_array_entry: the element type is the type code without the array flag. -/
def loadStorageArrayEntry : Nat → UInt8 → List UInt8 → Except String (ArrayEntry × List UInt8)
  | 0, _, _ => .error recursionLimitationError
  | f + 1, type, input =>
    match entryTypeOfCode (type &&& ~~~serializeFlagArray) with
    | some kind => readAe f kind input
    | none => .error ("unknown entry_type code = " ++ toString (type &&& ~~~serializeFlagArray))

/-- read_ae<type_name>: the number of elements, then each with read<type_name>(). -/
def readAe : Nat → EntryType → List UInt8 → Except String (ArrayEntry × List UInt8)
  | 0, _, _ => .error recursionLimitationError
  | f + 1, kind, input => do
    let (size, input) ← readVarint f input
    match kind with
    | .pod t => do
      let (vs, input) ← readLoop (readT f t.size) size input
      return (.pod t vs, input)
    | .string => do
      let (vs, input) ← readLoop (readTString f) size input
      return (.string vs, input)
    | .object => do
      let (vs, input) ← readLoop (readTSection f) size input
      return (.section vs, input)
    | .array => do
      let (vs, input) ← readLoop (readTArrayEntry f) size input
      return (.array vs, input)

/-- read<section>(). -/
def readTSection : Nat → List UInt8 → Except String (Section × List UInt8)
  | 0, _ => .error recursionLimitationError
  | f + 1, input => readSection f input
end

def storageBlockHeaderSize : Nat := 9

/-- portable_storage::load_from_binary: none where it returns false. The reader starts with
its counter at 0, and the bytes after the root section are not looked at. -/
def loadFromBinary (source : List UInt8) : Option Section :=
  if source.length < storageBlockHeaderSize then none
  else if ofBytesLE (source.take 4) ≠ portableStorageSignaturea ∨
      ofBytesLE ((source.drop 4).take 4) ≠ portableStorageSignatureb then none
  else if source.getD 8 0 ≠ portableStorageFormatVer then none
  -- the constructor of throwable_buffer_reader throws on an empty buffer
  else if source.drop storageBlockHeaderSize = [] then none
  else
    match readSection (epeePortableStorageRecursionLimitInternal - 1)
        (source.drop storageBlockHeaderSize) with
    | .ok (root, _) => some root
    | .error _ => none

/-! ## What reading needs

The calls the reader makes for a section written by pack_entry_to_buff: the fewest calls the
recursion counter must allow for each read to go through. -/

mutual
def Section.frames : Section → Nat
  | .mk entries => max 5 (entriesFrames entries)

def entriesFrames : List (List UInt8 × StorageEntry) → Nat
  | [] => 0
  | (_, e) :: entries => max (e.frames + 1) (entriesFrames entries)

def StorageEntry.frames : StorageEntry → Nat
  | .pod _ _ => 4
  | .string _ => 8
  | .section s => s.frames + 2
  | .array a => a.frames + 2

def ArrayEntry.frames : ArrayEntry → Nat
  | .pod _ _ => 5
  | .string vs => if vs = [] then 5 else 7
  | .section vs => max 5 (sectionsFrames vs)
  | .array _ => 5

def sectionsFrames : List Section → Nat
  | [] => 0
  | s :: ss => max (s.frames + 2) (sectionsFrames ss)
end

/-! What a section read back from bytes always satisfies: its names are in map order and fit
their length byte, its counts are what read_varint can return, its strings are below
MAX_STRING_LEN_POSSIBLE, and its arrays of arrays are empty, since read(array_entry&) throws. -/

mutual
def Section.wellFormed : Section → Bool
  | .mk entries => decide ((entries.map Prod.fst).Pairwise (· < ·)) &&
      decide (entries.length ≤ maxVarint) && entriesWellFormed entries

def entriesWellFormed : List (List UInt8 × StorageEntry) → Bool
  | [] => true
  | (name, e) :: entries => decide (name.length < 256) && e.wellFormed && entriesWellFormed entries

def StorageEntry.wellFormed : StorageEntry → Bool
  | .pod _ _ => true
  | .string v => decide (v.length < maxStringLenPossible)
  | .section s => s.wellFormed
  | .array a => a.wellFormed

def ArrayEntry.wellFormed : ArrayEntry → Bool
  | .pod _ vs => decide (vs.length ≤ maxVarint)
  | .string vs => decide (vs.length ≤ maxVarint) && vs.all fun v => decide (v.length < maxStringLenPossible)
  | .section vs => decide (vs.length ≤ maxVarint) && sectionsWellFormed vs
  | .array vs => vs.isEmpty

def sectionsWellFormed : List Section → Bool
  | [] => true
  | s :: ss => s.wellFormed && sectionsWellFormed ss
end

/-! Every name shorter than 255 bytes, as pack_entry_to_buff requires. -/

mutual
def Section.namesShort : Section → Bool
  | .mk entries => entriesNamesShort entries

def entriesNamesShort : List (List UInt8 × StorageEntry) → Bool
  | [] => true
  | (name, e) :: entries => decide (name.length < 255) && e.namesShort && entriesNamesShort entries

def StorageEntry.namesShort : StorageEntry → Bool
  | .section s => s.namesShort
  | .array a => a.namesShort
  | _ => true

def ArrayEntry.namesShort : ArrayEntry → Bool
  | .section vs => sectionsNamesShort vs
  | _ => true

def sectionsNamesShort : List Section → Bool
  | [] => true
  | s :: ss => s.namesShort && sectionsNamesShort ss
end

end PepePrivate.Epee
