import PepePrivate.Epee.StorageSound
import PepePrivate.Epee.StorageFrame

/-! portable_storage::store_to_binary and load_from_binary together: what is stored loads back
exactly while the recursion limit allows its nesting, what loads is well formed, and what loads
stores again unless a name has 255 bytes. -/

namespace PepePrivate.Epee

open Digits Runs

/-! ## When pack_entry_to_buff throws -/

theorem packVarint_ok {n : Nat} (h : n ≤ maxVarint) : ∃ b, packVarint n = .ok b := by
  unfold packVarint
  split_ifs <;> exact ⟨_, rfl⟩

theorem packVarint_ne_nil {n : Nat} {b : List UInt8} (h : packVarint n = .ok b) : b ≠ [] := by
  unfold packVarint at h
  split_ifs at h <;> cases h <;> simp [packVarintT, ← List.length_pos_iff]

theorem putString_ok {v : List UInt8} (h : v.length < maxStringLenPossible) :
    ∃ b, putString v = .ok b := by
  rw [putString, exists_bind_pure_eq_ok]
  exact packVarint_ok (le_of_lt (lt_of_lt_of_le h (by decide)))

theorem putStrings_ok : ∀ {vs : List (List UInt8)}, (∀ v ∈ vs, v.length < maxStringLenPossible) →
    ∃ b, putStrings vs = .ok b
  | [], _ => ⟨[], rfl⟩
  | v :: vs, h => by
    rw [putStrings, exists_bind_bind_pure_eq_ok]
    exact ⟨putString_ok (h v List.mem_cons_self),
      putStrings_ok fun w hw => h w (List.mem_cons_of_mem _ hw)⟩

/-! Of a section whose counts and strings fit, the writer throws only for a name of 255 bytes
or more. -/

mutual
theorem Section.packEntryToBuff_ok_iff : ∀ s : Section, s.wellFormed = true →
    ((∃ b, s.packEntryToBuff = .ok b) ↔ s.namesShort = true)
  | .mk entries, hwf => by
    simp only [Section.wellFormed, Bool.and_eq_true, decide_eq_true_eq] at hwf
    rw [Section.packEntryToBuff, exists_bind_bind_pure_eq_ok, Section.namesShort,
      packEntries_ok_iff entries hwf.2]
    exact and_iff_right (packVarint_ok hwf.1.2)

theorem packEntries_ok_iff : ∀ entries : List (List UInt8 × StorageEntry),
    entriesWellFormed entries = true →
      ((∃ b, packEntries entries = .ok b) ↔ entriesNamesShort entries = true)
  | [], _ => ⟨fun _ => rfl, fun _ => ⟨[], rfl⟩⟩
  | (name, e) :: entries, hwf => by
    simp only [entriesWellFormed, Bool.and_eq_true, decide_eq_true_eq] at hwf
    simp only [entriesNamesShort, Bool.and_eq_true, decide_eq_true_eq]
    rw [packEntries]
    by_cases hlong : name.length < 255
    · rw [if_neg (not_not.mpr hlong)]
      dsimp only
      rw [exists_bind_bind_pure_eq_ok, StorageEntry.packEntryToBuff_ok_iff e hwf.1.2,
        packEntries_ok_iff entries hwf.2]
      rw [and_assoc, and_iff_right hlong]
    · rw [if_pos hlong, throw_bind]
      simp [hlong]

theorem StorageEntry.packEntryToBuff_ok_iff : ∀ e : StorageEntry, e.wellFormed = true →
    ((∃ b, e.packEntryToBuff = .ok b) ↔ e.namesShort = true)
  | .pod t v, _ => ⟨fun _ => rfl, fun _ => ⟨_, rfl⟩⟩
  | .string v, hwf => by
    simp only [StorageEntry.wellFormed, decide_eq_true_eq] at hwf
    rw [StorageEntry.packEntryToBuff, exists_bind_pure_eq_ok]
    exact ⟨fun _ => rfl, fun _ => putString_ok hwf⟩
  | .section s, hwf => by
    rw [StorageEntry.packEntryToBuff, exists_bind_pure_eq_ok, StorageEntry.namesShort]
    exact Section.packEntryToBuff_ok_iff s hwf
  | .array a, hwf => by
    rw [StorageEntry.packEntryToBuff, StorageEntry.namesShort]
    exact ArrayEntry.packEntryToBuff_ok_iff a hwf

theorem ArrayEntry.packEntryToBuff_ok_iff : ∀ a : ArrayEntry, a.wellFormed = true →
    ((∃ b, a.packEntryToBuff = .ok b) ↔ a.namesShort = true)
  | .pod t vs, hwf => by
    simp only [ArrayEntry.wellFormed, decide_eq_true_eq] at hwf
    rw [ArrayEntry.packEntryToBuff, exists_bind_pure_eq_ok]
    exact ⟨fun _ => rfl, fun _ => packVarint_ok hwf⟩
  | .string vs, hwf => by
    simp only [ArrayEntry.wellFormed, Bool.and_eq_true, decide_eq_true_eq, List.all_eq_true] at hwf
    rw [ArrayEntry.packEntryToBuff, exists_bind_bind_pure_eq_ok]
    exact ⟨fun _ => rfl, fun _ => ⟨packVarint_ok hwf.1, putStrings_ok hwf.2⟩⟩
  | .section vs, hwf => by
    simp only [ArrayEntry.wellFormed, Bool.and_eq_true, decide_eq_true_eq] at hwf
    rw [ArrayEntry.packEntryToBuff, exists_bind_bind_pure_eq_ok, ArrayEntry.namesShort,
      packSections_ok_iff vs hwf.2]
    exact and_iff_right (packVarint_ok hwf.1)
  | .array vs, hwf => by
    simp only [ArrayEntry.wellFormed, List.isEmpty_iff] at hwf
    subst hwf
    exact ⟨fun _ => rfl, fun _ => ⟨_, rfl⟩⟩

theorem packSections_ok_iff : ∀ vs : List Section, sectionsWellFormed vs = true →
    ((∃ b, packSections vs = .ok b) ↔ sectionsNamesShort vs = true)
  | [], _ => ⟨fun _ => rfl, fun _ => ⟨[], rfl⟩⟩
  | s :: vs, hwf => by
    simp only [sectionsWellFormed, Bool.and_eq_true] at hwf
    rw [packSections, exists_bind_bind_pure_eq_ok, Section.packEntryToBuff_ok_iff s hwf.1,
      packSections_ok_iff vs hwf.2, sectionsNamesShort, Bool.and_eq_true]
end

/-! ## The storage block header -/

theorem length_storageBlockHeader : storageBlockHeader.length = storageBlockHeaderSize := rfl

theorem Section.packEntryToBuff_ne_nil {s : Section} {b : List UInt8}
    (h : s.packEntryToBuff = .ok b) : b ≠ [] := by
  cases s
  rw [Section.packEntryToBuff] at h
  obtain ⟨count, hcount, h⟩ := bind_eq_ok.mp h
  obtain ⟨body, -, h⟩ := bind_eq_ok.mp h
  rw [pure_eq_ok] at h
  subst h
  exact List.append_ne_nil_of_left_ne_nil (packVarint_ne_nil hcount) body

theorem loadFromBinary_header {body : List UInt8} (hbody : body ≠ []) :
    loadFromBinary (storageBlockHeader ++ body) =
      ((readSection (epeePortableStorageRecursionLimitInternal - 1) body).toOption).map Prod.fst := by
  have hsigA : (storageBlockHeader ++ body).take 4 = toBytesLE 4 portableStorageSignaturea := by
    rw [storageBlockHeader, List.append_assoc, List.append_assoc]
    exact List.take_left' (length_toBytesLE 4 _)
  have hsigB : ((storageBlockHeader ++ body).drop 4).take 4 = toBytesLE 4 portableStorageSignatureb := by
    rw [storageBlockHeader, List.append_assoc, List.append_assoc,
      List.drop_left' (length_toBytesLE 4 _)]
    exact List.take_left' (length_toBytesLE 4 _)
  have hver : (storageBlockHeader ++ body).getD 8 0 = portableStorageFormatVer := by
    rw [List.getD_eq_getElem?_getD, List.getElem?_append_left (by rw [length_storageBlockHeader]; decide)]
    rfl
  have hdrop : (storageBlockHeader ++ body).drop storageBlockHeaderSize = body :=
    List.drop_left' length_storageBlockHeader
  have hlen : ¬(storageBlockHeader ++ body).length < storageBlockHeaderSize := by
    rw [List.length_append, length_storageBlockHeader]
    omega
  rw [loadFromBinary, if_neg hlen, hsigA, hsigB, ofBytesLE_toBytesLE, ofBytesLE_toBytesLE, hver, hdrop,
    if_neg (by decide), if_neg (not_not.mpr rfl), if_neg hbody]
  cases readSection (epeePortableStorageRecursionLimitInternal - 1) body <;> rfl

theorem loadFromBinary_eq_some_iff {input : List UInt8} {s : Section} :
    loadFromBinary input = some s ↔ storageBlockHeaderSize ≤ input.length ∧
      ofBytesLE (input.take 4) = portableStorageSignaturea ∧
      ofBytesLE ((input.drop 4).take 4) = portableStorageSignatureb ∧
      input.getD 8 0 = portableStorageFormatVer ∧ input.drop storageBlockHeaderSize ≠ [] ∧
      ∃ r, readSection (epeePortableStorageRecursionLimitInternal - 1)
        (input.drop storageBlockHeaderSize) = .ok (s, r) := by
  constructor
  · intro h
    unfold loadFromBinary at h
    split_ifs at h with hlen hsig hver hbody
    split at h
    · next root r hread =>
      cases h
      obtain ⟨hA, hB⟩ := not_or.mp hsig
      exact ⟨by omega, not_not.mp hA, not_not.mp hB, not_not.mp hver, hbody, r, hread⟩
    · cases h
  · rintro ⟨hlen, hA, hB, hver, hbody, r, hread⟩
    have hsig : ¬(ofBytesLE (input.take 4) ≠ portableStorageSignaturea ∨
        ofBytesLE ((input.drop 4).take 4) ≠ portableStorageSignatureb) := by
      rw [hA, hB]
      simp
    rw [loadFromBinary, if_neg (by omega), if_neg hsig, if_neg (not_not.mpr hver), if_neg hbody, hread]

theorem loadFromBinary_eq_some {input : List UInt8} {s : Section} (h : loadFromBinary input = some s) :
    ∃ r, readSection (epeePortableStorageRecursionLimitInternal - 1)
      (input.drop storageBlockHeaderSize) = .ok (s, r) :=
  (loadFromBinary_eq_some_iff.mp h).2.2.2.2.2

theorem loadFromBinary_append_of_storeToBinary {s : Section} {b : List UInt8}
    (hwf : s.wellFormed = true) (hstore : storeToBinary s = some b)
    (hframes : s.frames < epeePortableStorageRecursionLimitInternal) (junk : List UInt8) :
    loadFromBinary (b ++ junk) = some s := by
  unfold storeToBinary at hstore
  split at hstore
  · next body hbody =>
    cases hstore
    rw [List.append_assoc,
      loadFromBinary_header (List.append_ne_nil_of_left_ne_nil (Section.packEntryToBuff_ne_nil hbody) junk),
      readSection_packEntryToBuff s junk hbody hwf (Nat.le_sub_one_of_lt hframes)]
    rfl
  · cases hstore

/-! ## store_to_binary and load_from_binary -/

/-- What store_to_binary writes, with any bytes after it, load_from_binary reads back to the same
section exactly when the section's nesting keeps within the recursion limit. -/
theorem loadFromBinary_storeToBinary {s : Section} {b : List UInt8} (hwf : s.wellFormed = true)
    (hstore : storeToBinary s = some b) (junk : List UInt8) :
    loadFromBinary (b ++ junk) = some s ↔ s.frames < epeePortableStorageRecursionLimitInternal := by
  constructor
  · intro hload
    obtain ⟨r, hread⟩ := loadFromBinary_eq_some hload
    have hframes := ((readSound _).readSection hread).2
    unfold epeePortableStorageRecursionLimitInternal at hframes ⊢
    omega
  · exact fun hframes => loadFromBinary_append_of_storeToBinary hwf hstore hframes junk

theorem loadFromBinary_storeToBinary_nested :
    (Section.mk [([97], .section (.mk [([98], .string [1, 2, 3])]))]).wellFormed = true ∧
      storeToBinary (.mk [([97], .section (.mk [([98], .string [1, 2, 3])]))]) =
        some [0x01, 0x11, 0x01, 0x01, 0x01, 0x01, 0x02, 0x01, 0x01, 4, 1, 97, 12, 4, 1, 98, 10, 12, 1, 2, 3] ∧
      (loadFromBinary ([0x01, 0x11, 0x01, 0x01, 0x01, 0x01, 0x02, 0x01, 0x01, 4, 1, 97, 12, 4, 1, 98, 10, 12,
          1, 2, 3] ++ [0]) = some (.mk [([97], .section (.mk [([98], .string [1, 2, 3])]))]) ↔
        (Section.mk [([97], .section (.mk [([98], .string [1, 2, 3])]))]).frames <
          epeePortableStorageRecursionLimitInternal) :=
  ⟨by decide, rfl, loadFromBinary_storeToBinary (by decide) rfl [0]⟩

/-- Whatever bytes load_from_binary accepts, the root section it returns is well formed: its
names are in map order and fit their length byte, its counts and strings are what read_varint
and read(std::string&) accept, its arrays of arrays are empty, and its nesting keeps within the
recursion limit. -/
theorem loadFromBinary_sound {input : List UInt8} {s : Section} (h : loadFromBinary input = some s) :
    s.wellFormed = true ∧ s.frames < epeePortableStorageRecursionLimitInternal := by
  obtain ⟨r, hread⟩ := loadFromBinary_eq_some h
  obtain ⟨hwf, hframes⟩ := (readSound _).readSection hread
  refine ⟨hwf, ?_⟩
  unfold epeePortableStorageRecursionLimitInternal at hframes ⊢
  omega

theorem loadFromBinary_sound_unsorted :
    loadFromBinary [0x01, 0x11, 0x01, 0x01, 0x01, 0x01, 0x02, 0x01, 0x01, 12, 1, 98, 8, 1, 1, 97, 8, 2,
        1, 98, 8, 3] = some (.mk [([97], .pod .uint8 ⟨2, by decide⟩), ([98], .pod .uint8 ⟨1, by decide⟩)]) ∧
      (Section.mk [([97], .pod .uint8 ⟨2, by decide⟩), ([98], .pod .uint8 ⟨1, by decide⟩)]).wellFormed = true ∧
      (Section.mk [([97], .pod .uint8 ⟨2, by decide⟩), ([98], .pod .uint8 ⟨1, by decide⟩)]).frames <
        epeePortableStorageRecursionLimitInternal := by
  have hload : loadFromBinary [0x01, 0x11, 0x01, 0x01, 0x01, 0x01, 0x02, 0x01, 0x01, 12, 1, 98, 8, 1, 1,
      97, 8, 2, 1, 98, 8, 3] = some (.mk [([97], .pod .uint8 ⟨2, by decide⟩), ([98], .pod .uint8 ⟨1, by decide⟩)]) :=
    rfl
  exact ⟨hload, loadFromBinary_sound hload⟩

/-- A section that load_from_binary returns, store_to_binary writes again unless one of its names
has 255 bytes, which the reader's length byte allows and the writer's check does not; and what it
writes loads back to the same section. -/
theorem storeToBinary_of_loadFromBinary {input : List UInt8} {s : Section}
    (h : loadFromBinary input = some s) :
    (storeToBinary s).isSome = s.namesShort ∧
      ∀ b, storeToBinary s = some b → loadFromBinary b = some s := by
  obtain ⟨r, hread⟩ := loadFromBinary_eq_some h
  obtain ⟨hwf, hframes⟩ := (readSound _).readSection hread
  refine ⟨?_, fun b hstore => ?_⟩
  · rw [Bool.eq_iff_iff, ← Section.packEntryToBuff_ok_iff s hwf, storeToBinary]
    cases s.packEntryToBuff <;> simp
  · have hload := loadFromBinary_append_of_storeToBinary hwf hstore
      (Nat.lt_of_le_sub_one (by decide) hframes) []
    rwa [List.append_nil] at hload

set_option maxRecDepth 8000 in
theorem storeToBinary_of_loadFromBinary_long_name :
    loadFromBinary ([0x01, 0x11, 0x01, 0x01, 0x01, 0x01, 0x02, 0x01, 0x01, 4, 255] ++
        List.replicate 255 97 ++ [8, 7]) = some (.mk [(List.replicate 255 97, .pod .uint8 ⟨7, by decide⟩)]) ∧
      storeToBinary (.mk [(List.replicate 255 97, .pod .uint8 ⟨7, by decide⟩)]) = none ∧
      ((storeToBinary (.mk [(List.replicate 255 97, .pod .uint8 ⟨7, by decide⟩)])).isSome =
          (Section.mk [(List.replicate 255 97, .pod .uint8 ⟨7, by decide⟩)]).namesShort ∧
        ∀ b, storeToBinary (.mk [(List.replicate 255 97, .pod .uint8 ⟨7, by decide⟩)]) = some b →
          loadFromBinary b = some (.mk [(List.replicate 255 97, .pod .uint8 ⟨7, by decide⟩)])) := by
  have hload : loadFromBinary ([0x01, 0x11, 0x01, 0x01, 0x01, 0x01, 0x02, 0x01, 0x01, 4, 255] ++
      List.replicate 255 97 ++ [8, 7]) = some (.mk [(List.replicate 255 97, .pod .uint8 ⟨7, by decide⟩)]) :=
    rfl
  exact ⟨hload, rfl, storeToBinary_of_loadFromBinary hload⟩

/-- load_from_binary never looks past the root section: bytes appended to a blob it accepts
change nothing of what it returns. -/
theorem loadFromBinary_append {input : List UInt8} {s : Section} (h : loadFromBinary input = some s)
    (junk : List UInt8) : loadFromBinary (input ++ junk) = some s := by
  obtain ⟨hlen, hA, hB, hver, hbody, r, hread⟩ := loadFromBinary_eq_some_iff.mp h
  have hlen9 : 9 ≤ input.length := hlen
  have htake : (input ++ junk).take 4 = input.take 4 := List.take_append_of_le_length (by omega)
  have hdrop4 : ((input ++ junk).drop 4).take 4 = (input.drop 4).take 4 := by
    rw [List.drop_append_of_le_length (by omega),
      List.take_append_of_le_length (by rw [List.length_drop]; omega)]
  have hgetD : (input ++ junk).getD 8 0 = input.getD 8 0 := List.getD_append _ _ _ _ (by omega)
  have hdrop : (input ++ junk).drop storageBlockHeaderSize = input.drop storageBlockHeaderSize ++ junk :=
    List.drop_append_of_le_length hlen
  refine loadFromBinary_eq_some_iff.mpr ⟨?_, ?_, ?_, ?_, ?_, r ++ junk, ?_⟩
  · rw [List.length_append]
    omega
  · rwa [htake]
  · rwa [hdrop4]
  · rwa [hgetD]
  · rw [hdrop]
    exact List.append_ne_nil_of_left_ne_nil hbody junk
  · rw [hdrop]
    exact (readFrame _).readSection hread

theorem loadFromBinary_append_zero :
    loadFromBinary ([0x01, 0x11, 0x01, 0x01, 0x01, 0x01, 0x02, 0x01, 0x01, 4, 1, 97, 8, 7] ++ [0, 0]) =
      some (.mk [([97], .pod .uint8 ⟨7, by decide⟩)]) := by
  have hload : loadFromBinary [0x01, 0x11, 0x01, 0x01, 0x01, 0x01, 0x02, 0x01, 0x01, 4, 1, 97, 8, 7] =
      some (.mk [([97], .pod .uint8 ⟨7, by decide⟩)]) := rfl
  exact loadFromBinary_append hload [0, 0]

end PepePrivate.Epee
