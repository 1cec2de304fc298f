import PepePrivate.Epee.StorageRead

/-! What the reader returns from any bytes at all: a section in map order whose names fit their
length byte, whose counts and strings are within what read_varint and read(std::string&)
allow, and which needs no more calls than the recursion counter gave it. -/

namespace PepePrivate.Epee

open Digits Runs

/-! ## The scalar readers -/

theorem readBytes_ok {f count : Nat} {input bytes r : List UInt8}
    (h : readBytes f count input = .ok (bytes, r)) : 1 ≤ f ∧ bytes.length = count := by
  cases f with
  | zero => cases h
  | succ f =>
    rw [readBytes] at h
    split_ifs at h with hlen
    cases h
    exact ⟨by omega, List.length_take_of_le hlen⟩

theorem readPod_ok {f size : Nat} {input r : List UInt8} {v : Fin (2 ^ (8 * size))}
    (h : readPod f size input = .ok (v, r)) : 2 ≤ f := by
  cases f with
  | zero => cases h
  | succ f =>
    obtain ⟨⟨bytes, rest⟩, hread, -⟩ := bind_eq_ok.mp h
    have := (readBytes_ok hread).1
    omega

theorem readT_ok {f size : Nat} {input r : List UInt8} {v : Fin (2 ^ (8 * size))}
    (h : readT f size input = .ok (v, r)) : 3 ≤ f := by
  cases f with
  | zero => cases h
  | succ f =>
    have := readPod_ok h
    omega

theorem varintSize_le (sizeMask : UInt8) : varintSize sizeMask ≤ 8 := by
  unfold varintSize
  split <;> omega

theorem readVarint_ok {f : Nat} {input r : List UInt8} {n : Nat}
    (h : readVarint f input = .ok (n, r)) : 4 ≤ f ∧ n ≤ maxVarint := by
  cases f with
  | zero => cases h
  | succ f =>
    rcases input with _ | ⟨b, input⟩
    · cases h
    · obtain ⟨⟨v, rest⟩, hread, h⟩ := bind_eq_ok.mp h
      rw [pure_eq_ok] at h
      cases h
      have hf := readT_ok hread
      have hv : v.val < 2 ^ 64 := lt_of_lt_of_le v.isLt
        (Nat.pow_le_pow_right (by norm_num) (by have := varintSize_le (b &&& portableRawSizeMarkMask); omega))
      refine ⟨by omega, ?_⟩
      rw [Nat.shiftRight_eq_div_pow, maxVarint]
      omega

theorem readSecName_ok {f : Nat} {input name r : List UInt8}
    (h : readSecName f input = .ok (name, r)) : 3 ≤ f ∧ name.length < 256 := by
  cases f with
  | zero => cases h
  | succ f =>
    obtain ⟨⟨len, rest⟩, hlen, h⟩ := bind_eq_ok.mp h
    obtain ⟨hf, hname⟩ := readBytes_ok h
    have := readPod_ok hlen
    refine ⟨by omega, ?_⟩
    rw [hname]
    exact len.isLt

theorem readString_ok {f : Nat} {input v r : List UInt8}
    (h : readString f input = .ok (v, r)) : 5 ≤ f ∧ v.length < maxStringLenPossible := by
  cases f with
  | zero => cases h
  | succ f =>
    obtain ⟨⟨len, rest⟩, hlen, h⟩ := bind_eq_ok.mp h
    have hf := (readVarint_ok hlen).1
    dsimp only at h
    split_ifs at h with hmax hrem
    · rw [pure_eq_ok] at h
      cases h
      exact ⟨by omega, by rw [List.length_take_of_le hrem]; exact hmax⟩
    all_goals cases h

theorem readTString_ok {f : Nat} {input v r : List UInt8}
    (h : readTString f input = .ok (v, r)) : 6 ≤ f ∧ v.length < maxStringLenPossible := by
  cases f with
  | zero => cases h
  | succ f =>
    have := readString_ok h
    omega

theorem readTArrayEntry_ne_ok (f : Nat) (input : List UInt8) (x : ArrayEntry × List UInt8) :
    readTArrayEntry f input ≠ .ok x := by
  rcases f with _ | _ | f <;> nofun

theorem readLoop_ok {α : Type} {readOne : List UInt8 → Except String (α × List UInt8)}
    {P : α → Prop} (hone : ∀ {input a r}, readOne input = .ok (a, r) → P a) :
    ∀ {n : Nat} {input as r}, readLoop readOne n input = .ok (as, r) → as.length = n ∧ ∀ a ∈ as, P a
  | 0, input, as, r, h => by
    cases h
    simp
  | n + 1, input, as, r, h => by
    obtain ⟨⟨a, rest⟩, hreadOne, h⟩ := bind_eq_ok.mp h
    obtain ⟨⟨as', rest'⟩, hloop, h⟩ := bind_eq_ok.mp h
    rw [pure_eq_ok] at h
    cases h
    obtain ⟨hlen, hall⟩ := readLoop_ok hone hloop
    exact ⟨by rw [List.length_cons, hlen], List.forall_mem_cons.mpr ⟨hone hreadOne, hall⟩⟩

/-! ## std::map::insert keeps the map in order -/

theorem mem_mapInsert {α : Type} {name : List UInt8} {v : α} {p : List UInt8 × α} :
    ∀ {m : List (List UInt8 × α)}, p ∈ mapInsert name v m → p ∈ m ∨ p = (name, v)
  | [], h => .inr (List.mem_singleton.mp h)
  | (n, w) :: m, h => by
    rw [mapInsert] at h
    split_ifs at h with hlt heq
    · rcases List.mem_cons.mp h with h | h
      · exact .inr h
      · exact .inl h
    · exact .inl h
    · rcases List.mem_cons.mp h with h | h
      · exact .inl (h ▸ List.mem_cons_self)
      · rcases mem_mapInsert h with h | h
        · exact .inl (List.mem_cons_of_mem _ h)
        · exact .inr h

theorem length_mapInsert_le {α : Type} (name : List UInt8) (v : α) :
    ∀ m : List (List UInt8 × α), (mapInsert name v m).length ≤ m.length + 1
  | [] => le_refl _
  | (n, w) :: m => by
    rw [mapInsert]
    split_ifs
    · exact le_refl _
    · exact Nat.le_succ _
    · have := length_mapInsert_le name v m
      simp only [List.length_cons]
      omega

theorem pairwise_mapInsert {α : Type} {name : List UInt8} {v : α} :
    ∀ {m : List (List UInt8 × α)}, (m.map Prod.fst).Pairwise (· < ·) →
      ((mapInsert name v m).map Prod.fst).Pairwise (· < ·)
  | [], _ => List.pairwise_singleton _ _
  | (n, w) :: m, h => by
    rw [List.map_cons, List.pairwise_cons] at h
    rw [mapInsert]
    split_ifs with hlt heq
    · rw [List.map_cons, List.pairwise_cons]
      refine ⟨?_, List.pairwise_cons.mpr h⟩
      intro k hk
      rcases List.mem_cons.mp hk with rfl | hk
      · exact hlt
      · exact List.lt_trans hlt (h.1 k hk)
    · exact List.pairwise_cons.mpr h
    · have hn : n < name := by
        rcases Std.lt_trichotomy n name with hn | hn | hn
        · exact hn
        · exact absurd hn.symm heq
        · exact absurd hn hlt
      rw [List.map_cons, List.pairwise_cons]
      refine ⟨?_, pairwise_mapInsert h.2⟩
      intro k hk
      obtain ⟨p, hp, rfl⟩ := List.mem_map.mp hk
      rcases mem_mapInsert hp with hp | rfl
      · exact h.1 p.1 (List.mem_map_of_mem hp)
      · exact hn

theorem foldl_mapInsert_sound {α : Type} {P : List UInt8 × α → Prop} :
    ∀ {acc entries : List (List UInt8 × α)}, (acc.map Prod.fst).Pairwise (· < ·) →
      (∀ p ∈ acc, P p) → (∀ p ∈ entries, P p) →
      ((entries.foldl (fun m e => mapInsert e.1 e.2 m) acc).map Prod.fst).Pairwise (· < ·) ∧
        (∀ p ∈ entries.foldl (fun m e => mapInsert e.1 e.2 m) acc, P p) ∧
        (entries.foldl (fun m e => mapInsert e.1 e.2 m) acc).length ≤ acc.length + entries.length
  | acc, [], hsorted, hacc, _ => ⟨hsorted, hacc, le_refl _⟩
  | acc, (name, v) :: entries, hsorted, hacc, hentries => by
    have hins : ∀ p ∈ mapInsert name v acc, P p := by
      intro p hp
      rcases mem_mapInsert hp with hp | rfl
      · exact hacc p hp
      · exact hentries _ List.mem_cons_self
    obtain ⟨hsorted', hall, hlen⟩ := foldl_mapInsert_sound (pairwise_mapInsert hsorted) hins
      fun p hp => hentries p (List.mem_cons_of_mem _ hp)
    have := length_mapInsert_le name v acc
    refine ⟨hsorted', hall, ?_⟩
    simp only [List.foldl_cons, List.length_cons] at hlen ⊢
    omega

/-! ## The nested predicates, entry by entry -/

theorem entriesWellFormed_iff {entries : List (List UInt8 × StorageEntry)} :
    entriesWellFormed entries = true ↔ ∀ p ∈ entries, p.1.length < 256 ∧ p.2.wellFormed = true := by
  induction entries with
  | nil => simp [entriesWellFormed]
  | cons p entries ih =>
    obtain ⟨name, e⟩ := p
    simp [entriesWellFormed, ih, and_assoc]

theorem entriesFrames_le_iff {entries : List (List UInt8 × StorageEntry)} {k : Nat} :
    entriesFrames entries ≤ k ↔ ∀ p ∈ entries, p.2.frames + 1 ≤ k := by
  induction entries with
  | nil => simp [entriesFrames]
  | cons p entries ih =>
    obtain ⟨name, e⟩ := p
    simp [entriesFrames, ih]

theorem sectionsWellFormed_iff {vs : List Section} :
    sectionsWellFormed vs = true ↔ ∀ s ∈ vs, s.wellFormed = true := by
  induction vs with
  | nil => simp [sectionsWellFormed]
  | cons s vs ih => simp [sectionsWellFormed, ih]

theorem sectionsFrames_le_iff {vs : List Section} {k : Nat} :
    sectionsFrames vs ≤ k ↔ ∀ s ∈ vs, s.frames + 2 ≤ k := by
  induction vs with
  | nil => simp [sectionsFrames]
  | cons s vs ih => simp [sectionsFrames, ih]

/-! ## The mutual readers, by the fuel

A successful read at fuel f + 1 makes its calls at fuel f, so what the readers return at f
gives what they return at f + 1. -/

/-- What a successful read returns at fuel f, for each reader of the mutual block. -/
structure ReadSound (f : Nat) : Prop where
  readSection : ∀ {input r : List UInt8} {s : Section},
    Epee.readSection f input = .ok (s, r) → s.wellFormed = true ∧ s.frames ≤ f
  loadStorageEntry : ∀ {input r : List UInt8} {e : StorageEntry},
    Epee.loadStorageEntry f input = .ok (e, r) → e.wellFormed = true ∧ e.frames ≤ f
  readSe : ∀ {kind : EntryType} {input r : List UInt8} {e : StorageEntry},
    Epee.readSe f kind input = .ok (e, r) → e.wellFormed = true ∧ e.frames ≤ f + 1
  loadStorageArrayEntry : ∀ {type : UInt8} {input r : List UInt8} {a : ArrayEntry},
    Epee.loadStorageArrayEntry f type input = .ok (a, r) → a.wellFormed = true ∧ a.frames + 1 ≤ f
  readAe : ∀ {kind : EntryType} {input r : List UInt8} {a : ArrayEntry},
    Epee.readAe f kind input = .ok (a, r) → a.wellFormed = true ∧ a.frames ≤ f
  readTSection : ∀ {input r : List UInt8} {s : Section},
    Epee.readTSection f input = .ok (s, r) → s.wellFormed = true ∧ s.frames + 1 ≤ f

theorem ReadSound.zero : ReadSound 0 where
  readSection h := nomatch h
  loadStorageEntry h := nomatch h
  readSe h := nomatch h
  loadStorageArrayEntry h := nomatch h
  readAe h := nomatch h
  readTSection h := nomatch h

section Step

variable {f : Nat} (ih : ReadSound f)
include ih

theorem readNameAndEntry_sound {input r : List UInt8} {p : List UInt8 × StorageEntry}
    (h : readNameAndEntry f (loadStorageEntry f) input = .ok (p, r)) :
    p.1.length < 256 ∧ p.2.wellFormed = true ∧ p.2.frames + 1 ≤ f + 1 := by
  obtain ⟨⟨name, rest⟩, hname, h⟩ := bind_eq_ok.mp h
  obtain ⟨⟨e, rest'⟩, he, h⟩ := bind_eq_ok.mp h
  rw [pure_eq_ok] at h
  cases h
  obtain ⟨hwf, hframes⟩ := ih.loadStorageEntry he
  exact ⟨(readSecName_ok hname).2, hwf, Nat.succ_le_succ hframes⟩

theorem readSection_sound {input r : List UInt8} {s : Section}
    (h : readSection (f + 1) input = .ok (s, r)) : s.wellFormed = true ∧ s.frames ≤ f + 1 := by
  obtain ⟨⟨count, rest⟩, hcount, h⟩ := bind_eq_ok.mp h
  obtain ⟨⟨entries, rest'⟩, hloop, h⟩ := bind_eq_ok.mp h
  rw [pure_eq_ok] at h
  cases h
  obtain ⟨hf, hmax⟩ := readVarint_ok hcount
  obtain ⟨hlen, hentries⟩ := readLoop_ok (readNameAndEntry_sound ih) hloop
  obtain ⟨hsorted, hall, hmap⟩ := foldl_mapInsert_sound List.Pairwise.nil (fun _ hp => (List.not_mem_nil hp).elim) hentries
  rw [List.length_nil, Nat.zero_add, hlen] at hmap
  refine ⟨?_, ?_⟩
  · simp only [Section.wellFormed, Bool.and_eq_true, decide_eq_true_eq]
    exact ⟨⟨hsorted, le_trans hmap hmax⟩,
      entriesWellFormed_iff.mpr fun p hp => ⟨(hall p hp).1, (hall p hp).2.1⟩⟩
  · rw [Section.frames]
    exact max_le (by omega) (entriesFrames_le_iff.mpr fun p hp => (hall p hp).2.2)

theorem readSe_sound {kind : EntryType} {input r : List UInt8} {e : StorageEntry}
    (h : readSe (f + 1) kind input = .ok (e, r)) : e.wellFormed = true ∧ e.frames ≤ f + 2 := by
  cases kind with
  | pod t =>
    obtain ⟨⟨v, rest⟩, hv, h⟩ := bind_eq_ok.mp h
    rw [pure_eq_ok] at h
    cases h
    have := readPod_ok hv
    exact ⟨rfl, by rw [StorageEntry.frames]; omega⟩
  | string =>
    obtain ⟨⟨v, rest⟩, hv, h⟩ := bind_eq_ok.mp h
    rw [pure_eq_ok] at h
    cases h
    obtain ⟨hf, hlen⟩ := readTString_ok hv
    exact ⟨by simpa [StorageEntry.wellFormed] using hlen, by rw [StorageEntry.frames]; omega⟩
  | object =>
    obtain ⟨⟨s, rest⟩, hs, h⟩ := bind_eq_ok.mp h
    rw [pure_eq_ok] at h
    cases h
    obtain ⟨hwf, hframes⟩ := ih.readSection hs
    exact ⟨hwf, by rw [StorageEntry.frames]; omega⟩
  | array =>
    obtain ⟨⟨type, rest⟩, htype, h⟩ := bind_eq_ok.mp h
    dsimp only at h
    split_ifs at h with hflag
    · cases h
    · obtain ⟨⟨a, rest'⟩, ha, h⟩ := bind_eq_ok.mp h
      dsimp only at h
      rw [pure_eq_ok] at h
      cases h
      obtain ⟨hwf, hframes⟩ := ih.loadStorageArrayEntry ha
      exact ⟨hwf, by rw [StorageEntry.frames]; omega⟩

theorem loadStorageEntry_sound {input r : List UInt8} {e : StorageEntry}
    (h : loadStorageEntry (f + 1) input = .ok (e, r)) : e.wellFormed = true ∧ e.frames ≤ f + 1 := by
  obtain ⟨⟨type, rest⟩, htype, h⟩ := bind_eq_ok.mp h
  dsimp only at h
  split_ifs at h with hflag
  · obtain ⟨⟨a, rest'⟩, ha, h⟩ := bind_eq_ok.mp h
    dsimp only at h
    rw [pure_eq_ok] at h
    cases h
    obtain ⟨hwf, hframes⟩ := ih.loadStorageArrayEntry ha
    exact ⟨hwf, by rw [StorageEntry.frames]; omega⟩
  · split at h
    · exact ih.readSe h
    · cases h

theorem loadStorageArrayEntry_sound {type : UInt8} {input r : List UInt8} {a : ArrayEntry}
    (h : loadStorageArrayEntry (f + 1) type input = .ok (a, r)) :
    a.wellFormed = true ∧ a.frames + 1 ≤ f + 1 := by
  rw [loadStorageArrayEntry] at h
  split at h
  · obtain ⟨hwf, hframes⟩ := ih.readAe h
    exact ⟨hwf, by omega⟩
  · cases h

theorem readAe_sound {kind : EntryType} {input r : List UInt8} {a : ArrayEntry}
    (h : readAe (f + 1) kind input = .ok (a, r)) : a.wellFormed = true ∧ a.frames ≤ f + 1 := by
  obtain ⟨⟨count, rest⟩, hcount, h⟩ := bind_eq_ok.mp h
  obtain ⟨hf, hmax⟩ := readVarint_ok hcount
  cases kind with
  | pod t =>
    obtain ⟨⟨vs, rest'⟩, hloop, h⟩ := bind_eq_ok.mp h
    rw [pure_eq_ok] at h
    cases h
    obtain ⟨hlen, -⟩ := readLoop_ok (P := fun _ => True) (fun _ => trivial) hloop
    exact ⟨by simpa [ArrayEntry.wellFormed, hlen] using hmax, by rw [ArrayEntry.frames]; omega⟩
  | string =>
    obtain ⟨⟨vs, rest'⟩, hloop, h⟩ := bind_eq_ok.mp h
    rw [pure_eq_ok] at h
    cases h
    obtain ⟨hlen, hall⟩ := readLoop_ok (fun hv => readTString_ok hv) hloop
    refine ⟨?_, ?_⟩
    · simp only [ArrayEntry.wellFormed, Bool.and_eq_true, decide_eq_true_eq, List.all_eq_true]
      exact ⟨hlen ▸ hmax, fun v hv => (hall v hv).2⟩
    · rw [ArrayEntry.frames]
      split_ifs with hnil
      · omega
      · obtain ⟨v, hv⟩ := List.exists_mem_of_ne_nil vs hnil
        have := (hall v hv).1
        omega
  | object =>
    obtain ⟨⟨vs, rest'⟩, hloop, h⟩ := bind_eq_ok.mp h
    rw [pure_eq_ok] at h
    cases h
    obtain ⟨hlen, hall⟩ := readLoop_ok (fun hs => ih.readTSection hs) hloop
    refine ⟨?_, ?_⟩
    · simp only [ArrayEntry.wellFormed, Bool.and_eq_true, decide_eq_true_eq]
      exact ⟨hlen ▸ hmax, sectionsWellFormed_iff.mpr fun s hs => (hall s hs).1⟩
    · rw [ArrayEntry.frames]
      exact max_le (by omega) (sectionsFrames_le_iff.mpr fun s hs => by have := (hall s hs).2; omega)
  | array =>
    obtain ⟨⟨vs, rest'⟩, hloop, h⟩ := bind_eq_ok.mp h
    rw [pure_eq_ok] at h
    cases h
    obtain ⟨-, hall⟩ := readLoop_ok (P := fun _ => False)
      (fun hv => readTArrayEntry_ne_ok _ _ _ hv) hloop
    have hnil : vs = [] := List.eq_nil_iff_forall_not_mem.mpr hall
    subst hnil
    exact ⟨rfl, by rw [ArrayEntry.frames]; omega⟩

theorem readTSection_sound {input r : List UInt8} {s : Section}
    (h : readTSection (f + 1) input = .ok (s, r)) : s.wellFormed = true ∧ s.frames + 1 ≤ f + 1 := by
  obtain ⟨hwf, hframes⟩ := ih.readSection h
  exact ⟨hwf, by omega⟩

theorem ReadSound.succ : ReadSound (f + 1) where
  readSection h := readSection_sound ih h
  loadStorageEntry h := loadStorageEntry_sound ih h
  readSe h := readSe_sound ih h
  loadStorageArrayEntry h := loadStorageArrayEntry_sound ih h
  readAe h := readAe_sound ih h
  readTSection h := readTSection_sound ih h

end Step

theorem readSound : ∀ f, ReadSound f
  | 0 => ReadSound.zero
  | f + 1 => (readSound f).succ

end PepePrivate.Epee
