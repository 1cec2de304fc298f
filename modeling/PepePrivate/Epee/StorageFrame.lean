import PepePrivate.Epee.StorageSound

/-! The reader never looks past the bytes it consumes: a read that succeeds still succeeds, with
the same value, when more bytes follow, and leaves them after its remainder. -/

namespace PepePrivate.Epee

open Runs

section Junk

variable (junk : List UInt8)

/-! ## The scalar readers -/

theorem readBytes_append_junk {f count : Nat} {input bytes r : List UInt8}
    (h : readBytes f count input = .ok (bytes, r)) :
    readBytes f count (input ++ junk) = .ok (bytes, r ++ junk) := by
  cases f with
  | zero => cases h
  | succ f =>
    rw [readBytes] at h ⊢
    split_ifs at h with hlen
    cases h
    have hlen' : (input ++ junk).length ≥ count := by
      rw [List.length_append]
      omega
    rw [if_pos hlen', List.take_append_of_le_length hlen, List.drop_append_of_le_length hlen]

theorem readPod_append_junk {f size : Nat} {input r : List UInt8} {v : Fin (2 ^ (8 * size))}
    (h : readPod f size input = .ok (v, r)) : readPod f size (input ++ junk) = .ok (v, r ++ junk) := by
  cases f with
  | zero => cases h
  | succ f =>
    obtain ⟨⟨bytes, rest⟩, hread, h⟩ := bind_eq_ok.mp h
    rw [readPod, readBytes_append_junk junk hread, ok_bind]
    rw [pure_eq_ok] at h
    cases h
    rfl

theorem readUInt8_append_junk {f : Nat} {input r : List UInt8} {c : UInt8}
    (h : readUInt8 f input = .ok (c, r)) : readUInt8 f (input ++ junk) = .ok (c, r ++ junk) := by
  obtain ⟨⟨v, rest⟩, hread, h⟩ := bind_eq_ok.mp h
  rw [readUInt8, readPod_append_junk junk hread, ok_bind]
  rw [pure_eq_ok] at h
  cases h
  rfl

theorem readT_append_junk {f size : Nat} {input r : List UInt8} {v : Fin (2 ^ (8 * size))}
    (h : readT f size input = .ok (v, r)) : readT f size (input ++ junk) = .ok (v, r ++ junk) := by
  cases f with
  | zero => cases h
  | succ f => exact readPod_append_junk junk h

theorem readVarint_append_junk {f : Nat} {input r : List UInt8} {n : Nat}
    (h : readVarint f input = .ok (n, r)) : readVarint f (input ++ junk) = .ok (n, r ++ junk) := by
  cases f with
  | zero => cases h
  | succ f =>
    rcases input with _ | ⟨b, input⟩
    · cases h
    · obtain ⟨⟨v, rest⟩, hread, h⟩ := bind_eq_ok.mp h
      rw [pure_eq_ok] at h
      cases h
      exact readVarint_cons rfl (readT_append_junk junk hread)

theorem readSecName_append_junk {f : Nat} {input name r : List UInt8}
    (h : readSecName f input = .ok (name, r)) :
    readSecName f (input ++ junk) = .ok (name, r ++ junk) := by
  cases f with
  | zero => cases h
  | succ f =>
    obtain ⟨⟨len, rest⟩, hlen, h⟩ := bind_eq_ok.mp h
    rw [readSecName, readPod_append_junk junk hlen, ok_bind]
    exact readBytes_append_junk junk h

theorem readString_append_junk {f : Nat} {input v r : List UInt8}
    (h : readString f input = .ok (v, r)) : readString f (input ++ junk) = .ok (v, r ++ junk) := by
  cases f with
  | zero => cases h
  | succ f =>
    obtain ⟨⟨len, rest⟩, hlen, h⟩ := bind_eq_ok.mp h
    rw [readString, readVarint_append_junk junk hlen, ok_bind]
    dsimp only at h ⊢
    split_ifs at h with hmax hrem
    · rw [pure_eq_ok] at h
      cases h
      have hrem' : ¬¬(rest ++ junk).length ≥ len := by
        rw [List.length_append]
        omega
      rw [if_neg (not_not.mpr hmax), if_neg hrem', List.take_append_of_le_length hrem,
        List.drop_append_of_le_length hrem]
      rfl
    all_goals cases h

theorem readTString_append_junk {f : Nat} {input v r : List UInt8}
    (h : readTString f input = .ok (v, r)) : readTString f (input ++ junk) = .ok (v, r ++ junk) := by
  cases f with
  | zero => cases h
  | succ f => exact readString_append_junk junk h

theorem readLoop_append_junk {α : Type} {readOne : List UInt8 → Except String (α × List UInt8)}
    (hone : ∀ {input a r}, readOne input = .ok (a, r) → readOne (input ++ junk) = .ok (a, r ++ junk)) :
    ∀ {n : Nat} {input as r}, readLoop readOne n input = .ok (as, r) →
      readLoop readOne n (input ++ junk) = .ok (as, r ++ junk)
  | 0, input, as, r, h => by
    cases h
    rfl
  | n + 1, input, as, r, h => by
    obtain ⟨⟨a, rest⟩, hreadOne, h⟩ := bind_eq_ok.mp h
    obtain ⟨⟨as', rest'⟩, hloop, h⟩ := bind_eq_ok.mp h
    rw [pure_eq_ok] at h
    cases h
    rw [readLoop, hone hreadOne, ok_bind]
    dsimp only
    rw [readLoop_append_junk hone hloop, ok_bind]
    rfl

end Junk

/-! ## The mutual readers, by the fuel -/

/-- A successful read at fuel f, for each reader of the mutual block, is unchanged by bytes
after the input. -/
structure ReadFrame (f : Nat) : Prop where
  readSection : ∀ {input r junk : List UInt8} {s : Section},
    Epee.readSection f input = .ok (s, r) → Epee.readSection f (input ++ junk) = .ok (s, r ++ junk)
  loadStorageEntry : ∀ {input r junk : List UInt8} {e : StorageEntry},
    Epee.loadStorageEntry f input = .ok (e, r) →
      Epee.loadStorageEntry f (input ++ junk) = .ok (e, r ++ junk)
  readSe : ∀ {kind : EntryType} {input r junk : List UInt8} {e : StorageEntry},
    Epee.readSe f kind input = .ok (e, r) → Epee.readSe f kind (input ++ junk) = .ok (e, r ++ junk)
  loadStorageArrayEntry : ∀ {type : UInt8} {input r junk : List UInt8} {a : ArrayEntry},
    Epee.loadStorageArrayEntry f type input = .ok (a, r) →
      Epee.loadStorageArrayEntry f type (input ++ junk) = .ok (a, r ++ junk)
  readAe : ∀ {kind : EntryType} {input r junk : List UInt8} {a : ArrayEntry},
    Epee.readAe f kind input = .ok (a, r) → Epee.readAe f kind (input ++ junk) = .ok (a, r ++ junk)
  readTSection : ∀ {input r junk : List UInt8} {s : Section},
    Epee.readTSection f input = .ok (s, r) → Epee.readTSection f (input ++ junk) = .ok (s, r ++ junk)

theorem ReadFrame.zero : ReadFrame 0 where
  readSection h := nomatch h
  loadStorageEntry h := nomatch h
  readSe h := nomatch h
  loadStorageArrayEntry h := nomatch h
  readAe h := nomatch h
  readTSection h := nomatch h

section Step

variable {f : Nat} (ih : ReadFrame f) {junk : List UInt8}
include ih

theorem readNameAndEntry_append_junk {input r : List UInt8} {p : List UInt8 × StorageEntry}
    (h : readNameAndEntry f (loadStorageEntry f) input = .ok (p, r)) :
    readNameAndEntry f (loadStorageEntry f) (input ++ junk) = .ok (p, r ++ junk) := by
  obtain ⟨⟨name, rest⟩, hname, h⟩ := bind_eq_ok.mp h
  obtain ⟨⟨e, rest'⟩, he, h⟩ := bind_eq_ok.mp h
  rw [pure_eq_ok] at h
  cases h
  rw [readNameAndEntry, readSecName_append_junk junk hname, ok_bind]
  dsimp only
  rw [ih.loadStorageEntry he, ok_bind]
  rfl

theorem readSection_append_junk {input r : List UInt8} {s : Section}
    (h : readSection (f + 1) input = .ok (s, r)) :
    readSection (f + 1) (input ++ junk) = .ok (s, r ++ junk) := by
  obtain ⟨⟨count, rest⟩, hcount, h⟩ := bind_eq_ok.mp h
  obtain ⟨⟨entries, rest'⟩, hloop, h⟩ := bind_eq_ok.mp h
  rw [pure_eq_ok] at h
  cases h
  rw [readSection, readVarint_append_junk junk hcount, ok_bind]
  dsimp only
  rw [readLoop_append_junk junk (readNameAndEntry_append_junk ih) hloop, ok_bind]
  rfl

theorem readSe_append_junk {kind : EntryType} {input r : List UInt8} {e : StorageEntry}
    (h : readSe (f + 1) kind input = .ok (e, r)) :
    readSe (f + 1) kind (input ++ junk) = .ok (e, r ++ junk) := by
  cases kind with
  | pod t =>
    obtain ⟨⟨v, rest⟩, hv, h⟩ := bind_eq_ok.mp h
    rw [pure_eq_ok] at h
    cases h
    rw [readSe, readPod_append_junk junk hv, ok_bind]
    rfl
  | string =>
    obtain ⟨⟨v, rest⟩, hv, h⟩ := bind_eq_ok.mp h
    rw [pure_eq_ok] at h
    cases h
    rw [readSe, readTString_append_junk junk hv, ok_bind]
    rfl
  | object =>
    obtain ⟨⟨s, rest⟩, hs, h⟩ := bind_eq_ok.mp h
    rw [pure_eq_ok] at h
    cases h
    rw [readSe, ih.readSection hs, ok_bind]
    rfl
  | array =>
    obtain ⟨⟨type, rest⟩, htype, h⟩ := bind_eq_ok.mp h
    rw [readSe, readUInt8_append_junk junk htype, ok_bind]
    dsimp only at h ⊢
    split_ifs at h with hflag
    · cases h
    · obtain ⟨⟨a, rest'⟩, ha, h⟩ := bind_eq_ok.mp h
      dsimp only at h
      rw [pure_eq_ok] at h
      cases h
      rw [if_neg hflag, ih.loadStorageArrayEntry ha, ok_bind]
      rfl

theorem loadStorageEntry_append_junk {input r : List UInt8} {e : StorageEntry}
    (h : loadStorageEntry (f + 1) input = .ok (e, r)) :
    loadStorageEntry (f + 1) (input ++ junk) = .ok (e, r ++ junk) := by
  obtain ⟨⟨type, rest⟩, htype, h⟩ := bind_eq_ok.mp h
  rw [loadStorageEntry, readUInt8_append_junk junk htype, ok_bind]
  dsimp only at h ⊢
  split_ifs at h with hflag
  · obtain ⟨⟨a, rest'⟩, ha, h⟩ := bind_eq_ok.mp h
    dsimp only at h
    rw [pure_eq_ok] at h
    cases h
    rw [if_pos hflag, ih.loadStorageArrayEntry ha, ok_bind]
    rfl
  · rw [if_neg hflag]
    split at h
    · exact ih.readSe h
    · cases h

theorem loadStorageArrayEntry_append_junk {type : UInt8} {input r : List UInt8} {a : ArrayEntry}
    (h : loadStorageArrayEntry (f + 1) type input = .ok (a, r)) :
    loadStorageArrayEntry (f + 1) type (input ++ junk) = .ok (a, r ++ junk) := by
  rw [loadStorageArrayEntry] at h ⊢
  split at h
  · exact ih.readAe h
  · cases h

theorem readAe_append_junk {kind : EntryType} {input r : List UInt8} {a : ArrayEntry}
    (h : readAe (f + 1) kind input = .ok (a, r)) :
    readAe (f + 1) kind (input ++ junk) = .ok (a, r ++ junk) := by
  obtain ⟨⟨count, rest⟩, hcount, h⟩ := bind_eq_ok.mp h
  rw [readAe, readVarint_append_junk junk hcount, ok_bind]
  cases kind with
  | pod t =>
    obtain ⟨⟨vs, rest'⟩, hloop, h⟩ := bind_eq_ok.mp h
    rw [pure_eq_ok] at h
    cases h
    dsimp only
    rw [readLoop_append_junk junk (readT_append_junk junk) hloop, ok_bind]
    rfl
  | string =>
    obtain ⟨⟨vs, rest'⟩, hloop, h⟩ := bind_eq_ok.mp h
    rw [pure_eq_ok] at h
    cases h
    dsimp only
    rw [readLoop_append_junk junk (readTString_append_junk junk) hloop, ok_bind]
    rfl
  | object =>
    obtain ⟨⟨vs, rest'⟩, hloop, h⟩ := bind_eq_ok.mp h
    rw [pure_eq_ok] at h
    cases h
    dsimp only
    rw [readLoop_append_junk junk ih.readTSection hloop, ok_bind]
    rfl
  | array =>
    obtain ⟨⟨vs, rest'⟩, hloop, h⟩ := bind_eq_ok.mp h
    rw [pure_eq_ok] at h
    cases h
    dsimp only
    rw [readLoop_append_junk junk (fun hv => absurd hv (readTArrayEntry_ne_ok _ _ _)) hloop, ok_bind]
    rfl

theorem readTSection_append_junk {input r : List UInt8} {s : Section}
    (h : readTSection (f + 1) input = .ok (s, r)) :
    readTSection (f + 1) (input ++ junk) = .ok (s, r ++ junk) :=
  ih.readSection h

theorem ReadFrame.succ : ReadFrame (f + 1) where
  readSection h := readSection_append_junk ih h
  loadStorageEntry h := loadStorageEntry_append_junk ih h
  readSe h := readSe_append_junk ih h
  loadStorageArrayEntry h := loadStorageArrayEntry_append_junk ih h
  readAe h := readAe_append_junk ih h
  readTSection h := readTSection_append_junk ih h

end Step

theorem readFrame : ∀ f, ReadFrame f
  | 0 => ReadFrame.zero
  | f + 1 => (readFrame f).succ

end PepePrivate.Epee
