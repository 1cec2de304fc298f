import PepePrivate.Epee.PortableStorage
import PepePrivate.Library.Runs

/-! Reading back what pack_entry_to_buff writes: the scalars, read_varint after pack_varint, the
strings, and the whole section, with the bytes after it untouched. -/

namespace PepePrivate.Epee

open Digits Runs

/-! ## Scalars and varints -/

theorem toBytesLE_succ (n v : Nat) :
    toBytesLE (n + 1) v = (v % 256).toUInt8 :: toBytesLE n (v / 256) := rfl

theorem two_pow_eight_mul (n : Nat) : 2 ^ (8 * n) = 256 ^ n := by
  rw [pow_mul]
  rfl

theorem readBytes_append {f : Nat} (hf : 1 ≤ f) (l rest : List UInt8) :
    readBytes f l.length (l ++ rest) = .ok (l, rest) := by
  obtain ⟨f, rfl⟩ : ∃ g, f = g + 1 := ⟨f - 1, by omega⟩
  simp [readBytes]

theorem readPod_toBytesLE {f size v : Nat} (hf : 2 ≤ f) (hv : v < 2 ^ (8 * size))
    (rest : List UInt8) : readPod f size (toBytesLE size v ++ rest) = .ok (⟨v, hv⟩, rest) := by
  obtain ⟨f, rfl⟩ : ∃ g, f = g + 1 := ⟨f - 1, by omega⟩
  have hread := readBytes_append (f := f) (by omega) (toBytesLE size v) rest
  rw [length_toBytesLE] at hread
  have hval : ofBytesLE (toBytesLE size v) % 2 ^ (8 * size) = v := by
    rw [ofBytesLE_toBytesLE, ← two_pow_eight_mul, Nat.mod_mod, Nat.mod_eq_of_lt hv]
  simp only [readPod, hread, ok_bind, hval]
  rfl

theorem readT_toBytesLE {f size v : Nat} (hf : 3 ≤ f) (hv : v < 2 ^ (8 * size))
    (rest : List UInt8) : readT f size (toBytesLE size v ++ rest) = .ok (⟨v, hv⟩, rest) := by
  obtain ⟨f, rfl⟩ : ∃ g, f = g + 1 := ⟨f - 1, by omega⟩
  exact readPod_toBytesLE (by omega) hv rest

theorem toNat_toUInt8_mod (x : Nat) : (x % 256).toUInt8.toNat = x % 256 := by
  rw [Nat.toUInt8_eq, UInt8.toNat_ofNat']
  exact Nat.mod_mod _ _

theorem toUInt8_and_mask (x : Nat) :
    ((x % 256).toUInt8 &&& portableRawSizeMarkMask).toNat = x % 4 := by
  have hmask : portableRawSizeMarkMask.toNat = 2 ^ 2 - 1 := rfl
  rw [UInt8.toNat_and, toNat_toUInt8_mod, hmask, Nat.and_two_pow_sub_one_eq_mod]
  exact Nat.mod_mod_of_dvd x (by norm_num)

theorem packVarintT_eq {size mark val : Nat} (hmark : mark < 4) (hval : val * 4 < 2 ^ (8 * size)) :
    packVarintT size mark val = toBytesLE size (val * 4 + mark) := by
  have hshift : val <<< 2 = val * 4 := by rw [Nat.shiftLeft_eq]
  rw [packVarintT, Nat.mod_eq_of_lt (by omega : val < 2 ^ (8 * size)), hshift,
    Nat.mod_eq_of_lt hval, ← hshift, ← Nat.shiftLeft_add_eq_or_of_lt (by simpa using hmark), hshift]

theorem readVarint_cons {f s : Nat} {b : UInt8} {input rest : List UInt8} {v : Fin (2 ^ (8 * s))}
    (hs : varintSize (b &&& portableRawSizeMarkMask) = s) (hread : readT f s (b :: input) = .ok (v, rest)) :
    readVarint (f + 1) (b :: input) = .ok (v.val >>> 2, rest) := by
  subst hs
  simp only [readVarint, hread, ok_bind]
  rfl

theorem readVarint_toBytesLE {f n mark val : Nat} (hf : 4 ≤ f) (hmark : mark < 4)
    (hsize : varintSize mark.toUInt8 = n + 1) (hval : val * 4 + mark < 2 ^ (8 * (n + 1)))
    (rest : List UInt8) :
    readVarint f (toBytesLE (n + 1) (val * 4 + mark) ++ rest) = .ok (val, rest) := by
  obtain ⟨f, rfl⟩ : ∃ g, f = g + 1 := ⟨f - 1, by omega⟩
  have hmask : ((val * 4 + mark) % 256).toUInt8 &&& portableRawSizeMarkMask = mark.toUInt8 := by
    apply UInt8.toNat_inj.mp
    rw [toUInt8_and_mask, Nat.toUInt8_eq, UInt8.toNat_ofNat',
      Nat.mod_eq_of_lt (lt_of_lt_of_le hmark (by norm_num))]
    omega
  have hshift : (val * 4 + mark) >>> 2 = val := by
    rw [Nat.shiftRight_eq_div_pow]
    omega
  have hread := readT_toBytesLE (f := f) (by omega) hval rest
  rw [toBytesLE_succ, List.cons_append] at hread ⊢
  rw [readVarint_cons (by rw [hmask, hsize]) hread, hshift]

theorem readVarint_packVarint {f val : Nat} {b : List UInt8} (hf : 4 ≤ f) (h : packVarint val = .ok b)
    (rest : List UInt8) : readVarint f (b ++ rest) = .ok (val, rest) := by
  unfold packVarint at h
  split_ifs at h with h1 h2 h3 h4 <;> cases h
  · rw [packVarintT_eq (by decide) (by simp; omega)]
    exact readVarint_toBytesLE (n := 0) hf (by decide) rfl (by simp [portableRawSizeMarkByte]; omega) rest
  · rw [packVarintT_eq (by decide) (by simp; omega)]
    exact readVarint_toBytesLE (n := 1) hf (by decide) rfl (by simp [portableRawSizeMarkWord]; omega) rest
  · rw [packVarintT_eq (by decide) (by simp; omega)]
    exact readVarint_toBytesLE (n := 3) hf (by decide) rfl (by simp [portableRawSizeMarkDword]; omega) rest
  · rw [packVarintT_eq (by decide) (by simp [maxVarint] at h4 ⊢; omega)]
    exact readVarint_toBytesLE (n := 7) hf (by decide) rfl
      (by simp [portableRawSizeMarkInt64, maxVarint] at h4 ⊢; omega) rest

/-! ## Strings, names and the scalars of arrays -/

theorem readString_putString {f : Nat} {v b : List UInt8} (hf : 5 ≤ f)
    (hlen : v.length < maxStringLenPossible) (h : putString v = .ok b) (rest : List UInt8) :
    readString f (b ++ rest) = .ok (v, rest) := by
  obtain ⟨f, rfl⟩ : ∃ g, f = g + 1 := ⟨f - 1, by omega⟩
  rw [putString, bind_eq_ok] at h
  obtain ⟨size, hsize, hb⟩ := h
  rw [pure_eq_ok] at hb
  subst hb
  have hnot : ¬maxStringLenPossible ≤ v.length := by omega
  rw [List.append_assoc, readString, readVarint_packVarint (f := f) (by omega) hsize (v ++ rest), ok_bind]
  simp [hnot]
  rfl

theorem readTString_putString {f : Nat} {v b : List UInt8} (hf : 6 ≤ f)
    (hlen : v.length < maxStringLenPossible) (h : putString v = .ok b) (rest : List UInt8) :
    readTString f (b ++ rest) = .ok (v, rest) := by
  obtain ⟨f, rfl⟩ : ∃ g, f = g + 1 := ⟨f - 1, by omega⟩
  exact readString_putString (by omega) hlen h rest

theorem readLoop_putStrings {f : Nat} (hf : 6 ≤ f) :
    ∀ {vs : List (List UInt8)} {b : List UInt8}, (∀ v ∈ vs, v.length < maxStringLenPossible) →
      putStrings vs = .ok b → ∀ rest, readLoop (readTString f) vs.length (b ++ rest) = .ok (vs, rest)
  | [], b, _, h, rest => by
    rw [putStrings] at h
    cases h
    rfl
  | v :: vs, b, hlen, h, rest => by
    rw [putStrings, bind_eq_ok] at h
    obtain ⟨bv, hv, h⟩ := h
    rw [bind_eq_ok] at h
    obtain ⟨bs, hbs, hb⟩ := h
    rw [pure_eq_ok] at hb
    subst hb
    have hhead := readTString_putString hf (hlen v List.mem_cons_self) hv (bs ++ rest)
    have htail := readLoop_putStrings hf (fun w hw => hlen w (List.mem_cons_of_mem v hw)) hbs rest
    simp only [List.length_cons, readLoop, List.append_assoc, hhead, ok_bind, htail]
    rfl

theorem readLoop_toBytesLE {f : Nat} (hf : 3 ≤ f) (t : PodType) (vs : List (PodValue t))
    (rest : List UInt8) :
    readLoop (readT f t.size) vs.length ((vs.flatMap fun x => toBytesLE t.size x.val) ++ rest) =
      .ok (vs, rest) := by
  induction vs with
  | nil => rfl
  | cons x vs ih =>
    rw [List.flatMap_cons, List.append_assoc, List.length_cons, readLoop,
      readT_toBytesLE hf x.isLt, ok_bind]
    dsimp only
    rw [ih]
    rfl

theorem toBytesLE_one {n : Nat} (hn : n < 256) : toBytesLE 1 n = [n.toUInt8] := by
  rw [toBytesLE_succ, Nat.mod_eq_of_lt hn]
  rfl

theorem readSecName_cons {f : Nat} (hf : 3 ≤ f) {name : List UInt8} (hname : name.length < 256)
    (rest : List UInt8) : readSecName f (name.length.toUInt8 :: name ++ rest) = .ok (name, rest) := by
  obtain ⟨f, rfl⟩ : ∃ g, f = g + 1 := ⟨f - 1, by omega⟩
  have hlen := @readPod_toBytesLE f 1 name.length (by omega) (by simpa using hname) (name ++ rest)
  rw [toBytesLE_one hname, List.singleton_append] at hlen
  rw [List.cons_append, readSecName, hlen, ok_bind]
  exact readBytes_append (by omega) name rest

theorem readUInt8_cons {f : Nat} (hf : 2 ≤ f) (c : UInt8) (rest : List UInt8) :
    readUInt8 f (c :: rest) = .ok (c, rest) := by
  have hc : c.toNat.toUInt8 = c := by rw [Nat.toUInt8_eq, UInt8.ofNat_toNat]
  have hread := @readPod_toBytesLE f 1 c.toNat hf (by simpa using c.toNat_lt) rest
  rw [toBytesLE_one c.toNat_lt, hc, List.singleton_append] at hread
  rw [readUInt8, hread, ok_bind]
  simp only [hc]
  rfl

/-! ## Type codes -/

theorem entryTypeOfCode_code (t : PodType) : entryTypeOfCode t.code = some (.pod t) := by
  cases t <;> rfl

theorem and_flagArray_of_lt {code : UInt8} (h : code < 0x80) : code &&& serializeFlagArray = 0 := by
  revert code
  decide +kernel

theorem or_flagArray_and_flagArray {code : UInt8} (h : code < 0x80) :
    (code ||| serializeFlagArray) &&& serializeFlagArray ≠ 0 := by
  revert code
  decide +kernel

theorem or_flagArray_and_not {code : UInt8} (h : code < 0x80) :
    (code ||| serializeFlagArray) &&& ~~~serializeFlagArray = code := by
  revert code
  decide +kernel

theorem code_lt (t : PodType) : t.code < 0x80 := by
  cases t <;> decide

/-! ## std::map::insert in name order -/

theorem mapInsert_of_lt {α : Type} {name : List UInt8} {v : α} :
    ∀ {m : List (List UInt8 × α)}, (∀ p ∈ m, p.1 < name) → mapInsert name v m = m ++ [(name, v)]
  | [], _ => rfl
  | (n, w) :: m, h => by
    have hn : n < name := h (n, w) List.mem_cons_self
    have hne : name ≠ n := fun heq => List.lt_irrefl n (heq ▸ hn)
    rw [mapInsert, if_neg (List.lt_asymm hn), if_neg hne,
      mapInsert_of_lt fun p hp => h p (List.mem_cons_of_mem _ hp)]
    rfl

theorem foldl_mapInsert_of_pairwise {α : Type} :
    ∀ {acc entries : List (List UInt8 × α)}, ((acc ++ entries).map Prod.fst).Pairwise (· < ·) →
      entries.foldl (fun m e => mapInsert e.1 e.2 m) acc = acc ++ entries
  | acc, [], _ => by simp
  | acc, e :: entries, h => by
    have hlt : ∀ p ∈ acc, p.1 < e.1 := by
      intro p hp
      rw [List.map_append, List.pairwise_append] at h
      exact h.2.2 p.1 (List.mem_map_of_mem hp) e.1 (by simp)
    rw [List.foldl_cons, mapInsert_of_lt hlt, foldl_mapInsert_of_pairwise (by simpa using h)]
    simp

/-! ## The type code read by load_storage_entry -/

theorem loadStorageEntry_single {g : Nat} {code : UInt8} (hcode : code < 0x80) {kind : EntryType}
    (hkind : entryTypeOfCode code = some kind) (input : List UInt8) :
    loadStorageEntry (g + 3) (code :: input) = readSe (g + 2) kind input := by
  rw [loadStorageEntry, readUInt8_cons (by omega), ok_bind]
  dsimp only
  rw [if_neg (not_not.mpr (and_flagArray_of_lt hcode)), hkind]

theorem loadStorageEntry_array {g : Nat} {code : UInt8} (hcode : code < 0x80) {kind : EntryType}
    (hkind : entryTypeOfCode code = some kind) (input : List UInt8) :
    loadStorageEntry (g + 3) ((code ||| serializeFlagArray) :: input) = (do
      let (a, input) ← readAe (g + 1) kind input
      return (.array a, input)) := by
  rw [loadStorageEntry, readUInt8_cons (by omega), ok_bind]
  dsimp only
  rw [if_pos (or_flagArray_and_flagArray hcode), loadStorageArrayEntry,
    or_flagArray_and_not hcode, hkind]

theorem five_le_frames (s : Section) : 5 ≤ s.frames := by
  cases s
  exact le_max_left _ _

/-! ## A section written by pack_entry_to_buff reads back

The induction follows the data, one theorem for each kind of node; the fuel each reader is given
is what frames counts for its node. -/

mutual
theorem readSection_packEntryToBuff : ∀ (s : Section) {b : List UInt8} (rest : List UInt8) {f : Nat},
    s.packEntryToBuff = .ok b → s.wellFormed = true → s.frames ≤ f →
      readSection f (b ++ rest) = .ok (s, rest)
  | .mk entries, b, rest, f, hpack, hwf, hf => by
    obtain ⟨count, hcount, hpack⟩ := bind_eq_ok.mp hpack
    obtain ⟨body, hbody, hb⟩ := bind_eq_ok.mp hpack
    rw [pure_eq_ok] at hb
    subst hb
    simp only [Section.wellFormed, Bool.and_eq_true, decide_eq_true_eq] at hwf
    obtain ⟨⟨hsorted, _⟩, hentries⟩ := hwf
    rw [Section.frames] at hf
    obtain ⟨g, rfl⟩ : ∃ g, f = g + 1 := ⟨f - 1, by omega⟩
    rw [readSection, List.append_assoc, readVarint_packVarint (by omega) hcount, ok_bind]
    dsimp only
    rw [readLoop_packEntries entries rest hbody hentries (by omega) (by omega), ok_bind]
    dsimp only
    rw [foldl_mapInsert_of_pairwise (by simpa using hsorted)]
    rfl

theorem readLoop_packEntries : ∀ (entries : List (List UInt8 × StorageEntry)) {b : List UInt8}
    (rest : List UInt8) {g : Nat}, packEntries entries = .ok b → entriesWellFormed entries = true →
      entriesFrames entries ≤ g + 1 → 4 ≤ g →
        readLoop (readNameAndEntry g (loadStorageEntry g)) entries.length (b ++ rest) = .ok (entries, rest)
  | [], b, rest, g, hpack, _, _, _ => by
    cases hpack
    rfl
  | (name, e) :: entries, b, rest, g, hpack, hwf, hg, hg4 => by
    rw [packEntries] at hpack
    split_ifs at hpack with hlong
    · dsimp only at hpack
      obtain ⟨be, hbe, hpack⟩ := bind_eq_ok.mp hpack
      obtain ⟨brest, hbrest, hb⟩ := bind_eq_ok.mp hpack
      rw [pure_eq_ok] at hb
      subst hb
      simp only [entriesWellFormed, Bool.and_eq_true, decide_eq_true_eq] at hwf
      obtain ⟨⟨hname, he⟩, hentries⟩ := hwf
      rw [entriesFrames] at hg
      rw [List.length_cons, readLoop, List.append_assoc, List.append_assoc, readNameAndEntry,
        readSecName_cons (by omega) hname, ok_bind]
      dsimp only
      rw [loadStorageEntry_packEntryToBuff e _ hbe he (by omega), ok_bind]
      dsimp only
      rw [pure_bind]
      rw [readLoop_packEntries entries rest hbrest hentries (by omega) hg4, ok_bind]
      rfl
    · cases hpack

theorem loadStorageEntry_packEntryToBuff : ∀ (e : StorageEntry) {b : List UInt8} (rest : List UInt8)
    {g : Nat}, e.packEntryToBuff = .ok b → e.wellFormed = true → e.frames ≤ g →
      loadStorageEntry g (b ++ rest) = .ok (e, rest)
  | .pod t v, b, rest, g, hpack, _, hg => by
    rw [StorageEntry.packEntryToBuff] at hpack
    cases hpack
    rw [StorageEntry.frames] at hg
    obtain ⟨g, rfl⟩ : ∃ h, g = h + 3 := ⟨g - 3, by omega⟩
    rw [List.cons_append, loadStorageEntry_single (code_lt t) (entryTypeOfCode_code t), readSe,
      readPod_toBytesLE (by omega) v.isLt, ok_bind]
    rfl
  | .string v, b, rest, g, hpack, hwf, hg => by
    obtain ⟨bs, hbs, hb⟩ := bind_eq_ok.mp hpack
    rw [pure_eq_ok] at hb
    subst hb
    simp only [StorageEntry.wellFormed, decide_eq_true_eq] at hwf
    rw [StorageEntry.frames] at hg
    obtain ⟨g, rfl⟩ : ∃ h, g = h + 3 := ⟨g - 3, by omega⟩
    rw [List.cons_append, loadStorageEntry_single (by decide) rfl, readSe,
      readTString_putString (by omega) hwf hbs, ok_bind]
    rfl
  | .section s, b, rest, g, hpack, hwf, hg => by
    obtain ⟨bs, hbs, hb⟩ := bind_eq_ok.mp hpack
    rw [pure_eq_ok] at hb
    subst hb
    rw [StorageEntry.wellFormed] at hwf
    rw [StorageEntry.frames] at hg
    obtain ⟨g, rfl⟩ : ∃ h, g = h + 3 := ⟨g - 3, by have := five_le_frames s; omega⟩
    rw [List.cons_append, loadStorageEntry_single (by decide) rfl, readSe,
      readSection_packEntryToBuff s rest hbs hwf (by omega), ok_bind]
    rfl
  | .array a, b, rest, g, hpack, hwf, hg => by
    rw [StorageEntry.wellFormed] at hwf
    rw [StorageEntry.frames] at hg
    exact loadStorageEntry_packArray a rest hpack hwf hg

theorem loadStorageEntry_packArray : ∀ (a : ArrayEntry) {b : List UInt8} (rest : List UInt8) {g : Nat},
    a.packEntryToBuff = .ok b → a.wellFormed = true → a.frames + 2 ≤ g →
      loadStorageEntry g (b ++ rest) = .ok (.array a, rest)
  | .pod t vs, b, rest, g, hpack, hwf, hg => by
    obtain ⟨count, hcount, hb⟩ := bind_eq_ok.mp hpack
    rw [pure_eq_ok] at hb
    subst hb
    rw [ArrayEntry.frames] at hg
    obtain ⟨g, rfl⟩ : ∃ h, g = h + 3 := ⟨g - 3, by omega⟩
    rw [List.cons_append, List.cons_append, loadStorageEntry_array (code_lt t) (entryTypeOfCode_code t), readAe,
      List.append_assoc, readVarint_packVarint (by omega) hcount, ok_bind]
    dsimp only
    rw [readLoop_toBytesLE (by omega), ok_bind]
    rfl
  | .string vs, b, rest, g, hpack, hwf, hg => by
    obtain ⟨count, hcount, hpack⟩ := bind_eq_ok.mp hpack
    obtain ⟨body, hbody, hb⟩ := bind_eq_ok.mp hpack
    rw [pure_eq_ok] at hb
    subst hb
    simp only [ArrayEntry.wellFormed, Bool.and_eq_true, decide_eq_true_eq, List.all_eq_true] at hwf
    rw [ArrayEntry.frames] at hg
    obtain ⟨g, rfl⟩ : ∃ h, g = h + 3 := ⟨g - 3, by split_ifs at hg <;> omega⟩
    rw [List.cons_append, List.cons_append, loadStorageEntry_array (by decide) rfl, readAe,
      List.append_assoc, readVarint_packVarint (by split_ifs at hg <;> omega) hcount, ok_bind]
    dsimp only
    rcases vs with _ | ⟨v, vs⟩
    · cases hbody
      rfl
    · rw [if_neg (List.cons_ne_nil v vs)] at hg
      rw [readLoop_putStrings (by omega) hwf.2 hbody, ok_bind]
      rfl
  | .section vs, b, rest, g, hpack, hwf, hg => by
    obtain ⟨count, hcount, hpack⟩ := bind_eq_ok.mp hpack
    obtain ⟨body, hbody, hb⟩ := bind_eq_ok.mp hpack
    rw [pure_eq_ok] at hb
    subst hb
    simp only [ArrayEntry.wellFormed, Bool.and_eq_true, decide_eq_true_eq] at hwf
    rw [ArrayEntry.frames] at hg
    obtain ⟨g, rfl⟩ : ∃ h, g = h + 3 := ⟨g - 3, by omega⟩
    rw [List.cons_append, List.cons_append, loadStorageEntry_array (by decide) rfl, readAe,
      List.append_assoc, readVarint_packVarint (by omega) hcount, ok_bind]
    dsimp only
    rw [readLoop_packSections vs rest hbody hwf.2 (by omega), ok_bind]
    rfl
  | .array vs, b, rest, g, hpack, hwf, hg => by
    obtain ⟨count, hcount, hpack⟩ := bind_eq_ok.mp hpack
    obtain ⟨body, hbody, hb⟩ := bind_eq_ok.mp hpack
    rw [pure_eq_ok] at hb
    subst hb
    simp only [ArrayEntry.wellFormed, List.isEmpty_iff] at hwf
    subst hwf
    cases hbody
    rw [ArrayEntry.frames] at hg
    obtain ⟨g, rfl⟩ : ∃ h, g = h + 3 := ⟨g - 3, by omega⟩
    rw [List.cons_append, List.cons_append, loadStorageEntry_array (by decide) rfl, readAe,
      List.append_assoc, readVarint_packVarint (by omega) hcount, ok_bind]
    rfl

theorem readLoop_packSections : ∀ (vs : List Section) {b : List UInt8} (rest : List UInt8) {m : Nat},
    packSections vs = .ok b → sectionsWellFormed vs = true → sectionsFrames vs ≤ m + 1 →
      readLoop (readTSection m) vs.length (b ++ rest) = .ok (vs, rest)
  | [], b, rest, m, hpack, _, _ => by
    cases hpack
    rfl
  | s :: vs, b, rest, m, hpack, hwf, hm => by
    obtain ⟨bs, hbs, hpack⟩ := bind_eq_ok.mp hpack
    obtain ⟨brest, hbrest, hb⟩ := bind_eq_ok.mp hpack
    rw [pure_eq_ok] at hb
    subst hb
    simp only [sectionsWellFormed, Bool.and_eq_true] at hwf
    rw [sectionsFrames] at hm
    obtain ⟨m, rfl⟩ : ∃ n, m = n + 1 := ⟨m - 1, by omega⟩
    rw [List.length_cons, readLoop, List.append_assoc, readTSection,
      readSection_packEntryToBuff s _ hbs hwf.1 (by omega), ok_bind]
    dsimp only
    rw [readLoop_packSections vs rest hbrest hwf.2 (by omega), ok_bind]
    rfl
end

end PepePrivate.Epee
