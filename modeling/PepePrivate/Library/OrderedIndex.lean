import Mathlib

/-! An ordered_non_unique index of a multi-index container, as the sequence of its elements in
index order: sorted by a key, an element inserted after every element whose key is not above
its own, replaced in place when it still fits between its neighbours and moved otherwise, and
trimmed from the front. -/

namespace OrderedIndex

variable {α κ : Type*} [LinearOrder κ] (key : α → κ)

def Sorted (l : List α) : Prop := l.Pairwise fun a b => key a ≤ key b

/-- insert: after every element whose key is at most the new one's (the upper bound of its
equal range). -/
def insertUpper (x : α) : List α → List α
  | [] => [x]
  | y :: l => if key x < key y then x :: y :: l else y :: insertUpper x l

def fitsAt (x : α) (l : List α) (i : Nat) : Bool :=
  (match i with
    | 0 => true
    | j + 1 => match l[j]? with
      | some p => !decide (key x < key p)
      | none => true) &&
  (match l[i + 1]? with
    | some n => !decide (key n < key x)
    | none => true)

def replaceAt (i : Nat) (x : α) (l : List α) : List α :=
  if fitsAt key x l i then l.set i x else insertUpper key x (l.eraseIdx i)

def trimTo (limit : Nat) : List α → List α
  | [] => []
  | x :: l => if limit < (x :: l).length then trimTo limit l else x :: l

variable {key}

/-! ## insert -/

theorem perm_insertUpper (x : α) : ∀ l : List α, (insertUpper key x l).Perm (x :: l)
  | [] => List.Perm.refl _
  | y :: l => by
    rw [insertUpper]
    split_ifs
    · exact List.Perm.refl _
    · exact ((perm_insertUpper x l).cons y).trans (List.Perm.swap x y l)

theorem mem_insertUpper {a x : α} {l : List α} : a ∈ insertUpper key x l ↔ a = x ∨ a ∈ l := by
  rw [(perm_insertUpper x l).mem_iff, List.mem_cons]

@[simp] theorem length_insertUpper (x : α) (l : List α) :
    (insertUpper key x l).length = l.length + 1 := by
  rw [(perm_insertUpper x l).length_eq, List.length_cons]

theorem sorted_insertUpper (x : α) : ∀ {l : List α}, Sorted key l → Sorted key (insertUpper key x l)
  | [], _ => List.pairwise_singleton _ _
  | y :: l, hl => by
    have hy := List.pairwise_cons.mp hl
    rw [insertUpper]
    split_ifs with hxy
    · refine List.pairwise_cons.mpr ⟨?_, hl⟩
      intro b hb
      rcases List.mem_cons.mp hb with rfl | hb
      · exact le_of_lt hxy
      · exact le_trans (le_of_lt hxy) (hy.1 b hb)
    · refine List.pairwise_cons.mpr ⟨?_, sorted_insertUpper x hy.2⟩
      intro b hb
      rcases mem_insertUpper.mp hb with rfl | hb
      · exact not_lt.mp hxy
      · exact hy.1 b hb

/-! ## replace -/

theorem perm_replaceAt {l : List α} {i : Nat} (hi : i < l.length) (x : α) :
    (replaceAt key i x l).Perm (x :: l.eraseIdx i) := by
  rw [replaceAt]
  split_ifs
  · exact List.set_perm_cons_eraseIdx hi x
  · exact perm_insertUpper x _

theorem mem_replaceAt {l : List α} {i : Nat} (hi : i < l.length) {a x : α} :
    a ∈ replaceAt key i x l ↔ a = x ∨ a ∈ l.eraseIdx i := by
  rw [(perm_replaceAt hi x).mem_iff, List.mem_cons]

theorem sorted_set_of_fitsAt {l : List α} {i : Nat} {x : α} (hl : Sorted key l)
    (hi : i < l.length) (hfit : fitsAt key x l i = true) : Sorted key (l.set i x) := by
  obtain ⟨pre, y, post, rfl, rfl⟩ : ∃ pre y post, l = pre ++ y :: post ∧ i = pre.length :=
    ⟨l.take i, l[i], l.drop (i + 1), by simp, by simp; omega⟩
  have hprev : ∀ a ∈ pre, key a ≤ key x := by
    intro a ha
    obtain ⟨pre', p, rfl⟩ : ∃ pre' p, pre = pre' ++ [p] :=
      ⟨pre.dropLast, pre.getLast (List.ne_nil_of_mem ha), (List.dropLast_append_getLast _).symm⟩
    have hpx : key p ≤ key x := by
      simp only [fitsAt, List.length_append, List.length_singleton, Bool.and_eq_true] at hfit
      have h := hfit.1
      rw [List.getElem?_append_left (by simp), List.getElem?_append_right (by simp)] at h
      simpa using h
    rcases List.mem_append.mp ha with ha | ha
    · have hap : key a ≤ key p := by
        rw [Sorted, List.append_assoc, List.pairwise_append] at hl
        exact hl.2.2 a ha p (by simp)
      exact le_trans hap hpx
    · rw [List.mem_singleton.mp ha]
      exact hpx
  have hnext : ∀ b ∈ post, key x ≤ key b := by
    intro b hb
    obtain ⟨n, post', rfl⟩ : ∃ n post', post = n :: post' :=
      ⟨post.head (List.ne_nil_of_mem hb), post.tail, (List.cons_head_tail _).symm⟩
    have hxn : key x ≤ key n := by
      simp only [fitsAt, Bool.and_eq_true] at hfit
      have h := hfit.2
      rw [List.getElem?_append_right (by simp)] at h
      simpa using h
    rcases List.mem_cons.mp hb with rfl | hb
    · exact hxn
    · have hnb : key n ≤ key b := by
        rw [Sorted, List.pairwise_append, List.pairwise_cons, List.pairwise_cons] at hl
        exact hl.2.1.2.1 b hb
      exact le_trans hxn hnb
  rw [Sorted, List.pairwise_append, List.pairwise_cons] at hl
  rw [List.set_append_right _ _ (le_refl _), Nat.sub_self, List.set_cons_zero, Sorted,
    List.pairwise_append, List.pairwise_cons]
  refine ⟨hl.1, ⟨hnext, hl.2.1.2⟩, ?_⟩
  intro a ha b hb
  rcases List.mem_cons.mp hb with rfl | hb
  · exact hprev a ha
  · exact hl.2.2 a ha b (List.mem_cons_of_mem _ hb)

theorem sorted_replaceAt {l : List α} {i : Nat} (hl : Sorted key l) (hi : i < l.length) (x : α) :
    Sorted key (replaceAt key i x l) := by
  rw [replaceAt]
  split_ifs with hfit
  · exact sorted_set_of_fitsAt hl hi hfit
  · exact sorted_insertUpper x (hl.sublist (List.eraseIdx_sublist l i))

/-! ## trim -/

theorem trimTo_eq_drop (limit : Nat) : ∀ l : List α, trimTo limit l = l.drop (l.length - limit)
  | [] => by simp [trimTo]
  | x :: l => by
    rw [trimTo]
    split_ifs with h
    · rw [List.length_cons] at h
      rw [trimTo_eq_drop limit l, List.length_cons,
        show l.length + 1 - limit = (l.length - limit) + 1 by omega, List.drop_succ_cons]
    · rw [show (x :: l).length - limit = 0 by omega, List.drop_zero]

@[simp] theorem length_trimTo (limit : Nat) (l : List α) :
    (trimTo limit l).length = min l.length limit := by
  rw [trimTo_eq_drop, List.length_drop]
  omega

theorem trimTo_sublist (limit : Nat) (l : List α) : (trimTo limit l).Sublist l := by
  rw [trimTo_eq_drop]
  exact List.drop_sublist _ _

theorem sorted_trimTo (limit : Nat) {l : List α} (hl : Sorted key l) : Sorted key (trimTo limit l) :=
  hl.sublist (trimTo_sublist limit l)

/-! ## A container with a unique index on an id

The container holds its ordered_non_unique index as the sequence of its elements; the unique
index is a lookup of the position that holds an id, and no two elements share one. -/

structure Container {ι : Type*} (id : α → ι) (key : α → κ) where
  elems : List α
  sorted : Sorted key elems
  nodup : (elems.map id).Nodup

namespace Container

variable {ι : Type*} {id : α → ι}

def empty : Container id key := ⟨[], List.Pairwise.nil, List.nodup_nil⟩

def size (c : Container id key) : Nat := c.elems.length

def erase (c : Container id key) (n : Nat) : Container id key :=
  ⟨c.elems.eraseIdx n, c.sorted.sublist (List.eraseIdx_sublist _ n),
    c.nodup.sublist ((List.eraseIdx_sublist _ n).map id)⟩

/-- The trim loop of a container: erase its first element while it holds more than limit. -/
def trim (c : Container id key) (limit : Nat) : Container id key :=
  ⟨trimTo limit c.elems, sorted_trimTo limit c.sorted,
    c.nodup.sublist ((trimTo_sublist limit c.elems).map id)⟩

theorem mem_erase {c : Container id key} {n : Nat} {a : α} (ha : a ∈ (c.erase n).elems) : a ∈ c.elems :=
  (List.eraseIdx_sublist _ n).subset ha

theorem mem_trim {c : Container id key} {limit : Nat} {a : α} (ha : a ∈ (c.trim limit).elems) :
    a ∈ c.elems :=
  (trimTo_sublist limit c.elems).subset ha

theorem size_trim_le (c : Container id key) (limit : Nat) : (c.trim limit).size ≤ limit := by
  simp [trim, size]

theorem size_erase_le (c : Container id key) (n : Nat) : (c.erase n).size ≤ c.size := by
  simp only [erase, size]
  exact (List.eraseIdx_sublist _ n).length_le

theorem nodup_insertUpper {l : List α} {x : α} (hl : (l.map id).Nodup)
    (hx : ∀ y ∈ l, id y ≠ id x) : ((insertUpper key x l).map id).Nodup := by
  rw [((perm_insertUpper x l).map id).nodup_iff, List.map_cons, List.nodup_cons]
  refine ⟨?_, hl⟩
  simpa using hx

theorem nodup_replaceAt {l : List α} {n : Nat} {x : α} (hl : (l.map id).Nodup) (hn : n < l.length)
    (hx : ∀ y ∈ l.eraseIdx n, id y ≠ id x) : ((replaceAt key n x l).map id).Nodup := by
  rw [((perm_replaceAt hn x).map id).nodup_iff, List.map_cons, List.nodup_cons]
  refine ⟨by simpa using hx, ?_⟩
  exact hl.sublist ((List.eraseIdx_sublist l n).map id)

variable [DecidableEq ι]

def find (c : Container id key) (i : ι) : Option Nat := c.elems.findIdx? fun x => id x = i

/-- insert: nothing where the id is taken already. -/
def insert (c : Container id key) (x : α) : Container id key :=
  if hx : ∀ y ∈ c.elems, id y ≠ id x then
    ⟨insertUpper key x c.elems, sorted_insertUpper x c.sorted, nodup_insertUpper c.nodup hx⟩
  else c

/-- replace of the element at a position: nothing where another element holds the new id. -/
def replace (c : Container id key) (n : Nat) (x : α) : Container id key :=
  if h : n < c.elems.length ∧ ∀ y ∈ c.elems.eraseIdx n, id y ≠ id x then
    ⟨replaceAt key n x c.elems, sorted_replaceAt c.sorted h.1 x, nodup_replaceAt c.nodup h.1 h.2⟩
  else c

/-- find on the id of x, then insert x and trim where the id is new, replace where it is
known. -/
def upsert (c : Container id key) (x : α) (limit : Nat) : Container id key :=
  match c.find (id x) with
  | none => (c.insert x).trim limit
  | some it => c.replace it x

def eraseId (c : Container id key) (i : ι) : Container id key :=
  match c.find i with
  | some it => c.erase it
  | none => c

/-! ### What each operation leaves in the container -/

theorem find_eq_none {c : Container id key} {i : ι} : c.find i = none ↔ ∀ x ∈ c.elems, id x ≠ i := by
  simp [find, List.findIdx?_eq_none_iff]

theorem find_eq_some {c : Container id key} {i : ι} {n : Nat} (h : c.find i = some n) :
    ∃ hn : n < c.elems.length, id c.elems[n] = i := by
  obtain ⟨hn, hid, -⟩ := List.findIdx?_eq_some_iff_getElem.mp h
  exact ⟨hn, by simpa using hid⟩

theorem mem_insert {c : Container id key} {x a : α} (ha : a ∈ (c.insert x).elems) :
    a ∈ c.elems ∨ a = x := by
  unfold insert at ha
  split_ifs at ha
  · rcases mem_insertUpper.mp ha with ha | ha
    · exact .inr ha
    · exact .inl ha
  · exact .inl ha

theorem mem_replace {c : Container id key} {n : Nat} {x a : α} (ha : a ∈ (c.replace n x).elems) :
    a ∈ c.elems ∨ a = x := by
  unfold replace at ha
  split_ifs at ha with h
  · rcases (mem_replaceAt h.1).mp ha with ha | ha
    · exact .inr ha
    · exact .inl ((List.eraseIdx_sublist _ n).subset ha)
  · exact .inl ha

theorem id_ne_of_mem_erase {c : Container id key} {i : ι} {n : Nat} (h : c.find i = some n)
    {a : α} (ha : a ∈ (c.erase n).elems) : id a ≠ i := by
  obtain ⟨hn, hid⟩ := find_eq_some h
  have hnodup := ((List.getElem_cons_eraseIdx_perm hn).map id).nodup_iff.mpr c.nodup
  rw [List.map_cons, List.nodup_cons] at hnodup
  intro hai
  have hmem : id c.elems[n] ∈ (c.elems.eraseIdx n).map id := by
    rw [hid, ← hai]
    exact List.mem_map_of_mem ha
  exact hnodup.1 hmem

theorem size_insert_le (c : Container id key) (x : α) : (c.insert x).size ≤ c.size + 1 := by
  unfold insert size
  split_ifs
  · rw [length_insertUpper]
  · exact Nat.le_succ _

theorem mem_replace_self {c : Container id key} {x : α} {n : Nat} (h : c.find (id x) = some n) :
    x ∈ (c.replace n x).elems := by
  obtain ⟨hn, -⟩ := find_eq_some h
  have hfree : ∀ y ∈ c.elems.eraseIdx n, id y ≠ id x := fun y hy => id_ne_of_mem_erase h hy
  rw [replace, dif_pos ⟨hn, hfree⟩]
  exact (mem_replaceAt hn).mpr (.inl rfl)

theorem size_replace (c : Container id key) (n : Nat) (x : α) : (c.replace n x).size = c.size := by
  unfold replace size
  split_ifs with h
  · rw [(perm_replaceAt h.1 x).length_eq, List.length_cons, List.length_eraseIdx_of_lt h.1]
    omega
  · rfl

theorem mem_upsert {c : Container id key} {x a : α} {limit : Nat} (ha : a ∈ (c.upsert x limit).elems) :
    a ∈ c.elems ∨ a = x := by
  unfold upsert at ha
  split at ha
  · exact mem_insert (mem_trim ha)
  · exact mem_replace ha

theorem size_upsert_le {c : Container id key} (x : α) {limit : Nat} (h : c.size ≤ limit) :
    (c.upsert x limit).size ≤ limit := by
  unfold upsert
  split
  · exact size_trim_le _ _
  · rw [size_replace]
    exact h

theorem mem_upsert_self_iff {c : Container id key} {x : α} {limit : Nat} (hc : c.size ≤ limit)
    (hlimit : 0 < limit) : x ∈ (c.upsert x limit).elems ↔
      ¬(c.find (id x) = none ∧ c.size = limit ∧ ∀ e ∈ c.elems, key x < key e) := by
  unfold upsert
  split
  · next hnone =>
    have hfree := find_eq_none.mp hnone
    have hins : (c.insert x).elems = insertUpper key x c.elems := by
      rw [insert, dif_pos hfree]
    have hnot : x ∉ c.elems := fun hx => hfree x hx rfl
    simp only [trim, trimTo_eq_drop, hins, length_insertUpper, hnone, true_and]
    by_cases hfull : c.size = limit
    · obtain ⟨y, l, hyl⟩ : ∃ y l, c.elems = y :: l :=
        List.exists_cons_of_ne_nil (List.ne_nil_of_length_pos (by unfold size at hfull; omega))
      have hdrop : c.elems.length + 1 - limit = 1 := by
        unfold size at hfull
        omega
      rw [hdrop, hyl, insertUpper]
      have hsorted := c.sorted
      rw [hyl, Sorted, List.pairwise_cons] at hsorted
      rw [hyl] at hnot
      split_ifs with hxy
      · simp only [List.drop_one, List.tail_cons]
        refine iff_of_false hnot (not_not.mpr ⟨hfull, ?_⟩)
        intro e he
        rcases List.mem_cons.mp he with rfl | he
        · exact hxy
        · exact lt_of_lt_of_le hxy (hsorted.1 e he)
      · simp only [List.drop_one, List.tail_cons]
        refine iff_of_true (mem_insertUpper.mpr (.inl rfl)) ?_
        rintro ⟨-, hall⟩
        exact hxy (hall y List.mem_cons_self)
    · have hkeep : c.elems.length + 1 - limit = 0 := by
        unfold size at hc hfull
        omega
      rw [hkeep, List.drop_zero]
      exact iff_of_true (mem_insertUpper.mpr (.inl rfl)) fun h => hfull h.1
  · next it hit =>
    exact iff_of_true (mem_replace_self hit) fun h => by rw [hit] at h; cases h.1

theorem id_ne_of_not_mem_upsert {c : Container id key} {x : α} {limit : Nat}
    (hx : x ∉ (c.upsert x limit).elems) : ∀ a ∈ (c.upsert x limit).elems, id a ≠ id x := by
  intro a ha
  cases hfind : c.find (id x) with
  | none =>
    rcases mem_upsert ha with ha' | rfl
    · exact find_eq_none.mp hfind a ha'
    · exact absurd ha hx
  | some it =>
    have hmem : x ∈ (c.upsert x limit).elems := by
      unfold upsert
      rw [hfind]
      exact mem_replace_self hfind
    exact absurd hmem hx

theorem mem_eraseId {c : Container id key} {i : ι} {a : α} (ha : a ∈ (c.eraseId i).elems) :
    a ∈ c.elems ∧ id a ≠ i := by
  unfold eraseId at ha
  split at ha
  · next it hit => exact ⟨mem_erase ha, id_ne_of_mem_erase hit ha⟩
  · next hnone => exact ⟨ha, find_eq_none.mp hnone a ha⟩

theorem size_eraseId_le (c : Container id key) (i : ι) : (c.eraseId i).size ≤ c.size := by
  unfold eraseId
  split
  · exact size_erase_le _ _
  · exact le_refl _

end Container

end OrderedIndex
