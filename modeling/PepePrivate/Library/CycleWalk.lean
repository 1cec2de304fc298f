import Mathlib

/-! Applying a permutation σ of 0..n-1 in place by walking its cycles. The walk of the cycle
through i carries the element of i along the cycle, each position receiving the element of the
position σ names, and marks every position it leaves in a working copy p of σ (p j = j). The
contents are a function w: w j is the original position of the element now at j. The invariants
are stated for any σ that maps 0..n-1 injectively into itself. -/

namespace CycleWalk

/-- Between two cycles, the positions below i walked: a marked position holds its final element
and an unmarked one its own, and the marked positions are closed under σ both ways. -/
structure Settled (n : Nat) (σ : Nat → Nat) (i : Nat) (p w : Nat → Nat) : Prop where
  entry : ∀ j < n, p j = j ∨ p j = σ j
  marked_final : ∀ j < n, p j = j → w j = σ j
  unmarked_own : ∀ j < n, p j ≠ j → w j = j
  forward : ∀ j < n, p j = j → p (σ j) = σ j
  backward : ∀ j < n, p j = j → ∃ x < n, p x = x ∧ σ x = j
  walked : ∀ j < i, p j = j

/-- Inside the walk of the cycle through i, at the unmarked position cur, which holds the
element of i; the marked positions are closed under σ except at the two ends of the walk. -/
structure Walking (n : Nat) (σ : Nat → Nat) (i cur : Nat) (p w : Nat → Nat) : Prop where
  cur_lt : cur < n
  cur_unmarked : p cur ≠ cur
  entry : ∀ j < n, p j = j ∨ p j = σ j
  marked_final : ∀ j < n, p j = j → w j = σ j
  unmarked_own : ∀ j < n, p j ≠ j → j ≠ cur → w j = j
  carried : w cur = i
  forward : ∀ j < n, p j = j → p (σ j) = σ j ∨ σ j = cur
  backward : ∀ j < n, p j = j → j = i ∨ ∃ x < n, p x = x ∧ σ x = j
  cur_pred : cur = i ∨ ∃ x < n, p x = x ∧ σ x = cur
  start_marked : cur = i ∨ p i = i
  walked : ∀ j < i, p j = j

variable {n : Nat} {σ : Nat → Nat} {i cur : Nat} {p w : Nat → Nat}

theorem update_marked {j : Nat} (hj : p j = j) (k : Nat) : Function.update p k k j = j := by
  by_cases hjk : j = k
  · subst hjk
    exact Function.update_self ..
  · rw [Function.update_of_ne hjk, hj]

/-! Marking k leaves every other position as it was. -/

theorem marked_of_update {j k : Nat} (hj : Function.update p k k j = j) :
    j = k ∨ j ≠ k ∧ p j = j := by
  by_cases hjk : j = k
  · exact Or.inl hjk
  · rw [Function.update_of_ne hjk] at hj
    exact Or.inr ⟨hjk, hj⟩

theorem unmarked_of_update {j k : Nat} (hj : Function.update p k k j ≠ j) : j ≠ k ∧ p j ≠ j := by
  have hjk : j ≠ k := fun hjk => hj (hjk ▸ Function.update_self ..)
  rw [Function.update_of_ne hjk] at hj
  exact ⟨hjk, hj⟩

theorem entry_update (hentry : ∀ j < n, p j = j ∨ p j = σ j) (k : Nat) :
    ∀ j < n, Function.update p k k j = j ∨ Function.update p k k j = σ j := by
  intro j hj
  by_cases hjk : j = k
  · subst hjk
    exact Or.inl (Function.update_self ..)
  · rw [Function.update_of_ne hjk]
    exact hentry j hj

theorem settled_init (hw : ∀ j < n, w j = j) : Settled n σ 0 σ w where
  entry _ _ := Or.inr rfl
  marked_final j hj hpj := (hw j hj).trans hpj.symm
  unmarked_own j hj _ := hw j hj
  forward _ _ hj := by rw [hj, hj]
  backward j hj hpj := ⟨j, hj, hpj, hpj⟩
  walked _ h := absurd h (Nat.not_lt_zero _)

theorem Settled.skip (h : Settled n σ i p w) (hi : p i = i) : Settled n σ (i + 1) p w :=
  { h with
    walked := fun j hj => by
      rcases Nat.lt_succ_iff_lt_or_eq.mp hj with hj | rfl
      · exact h.walked j hj
      · exact hi }

theorem Settled.start (h : Settled n σ i p w) (hi : i < n) (hne : p i ≠ i) : Walking n σ i i p w where
  cur_lt := hi
  cur_unmarked := hne
  entry := h.entry
  marked_final := h.marked_final
  unmarked_own j hj hpj _ := h.unmarked_own j hj hpj
  carried := h.unmarked_own i hi hne
  forward j hj hpj := Or.inl (h.forward j hj hpj)
  backward j hj hpj := Or.inr (h.backward j hj hpj)
  cur_pred := Or.inl rfl
  start_marked := Or.inl rfl
  walked := h.walked

theorem Settled.final (h : Settled n σ n p w) : ∀ j < n, w j = σ j :=
  fun j hj => h.marked_final j hj (h.walked j hj)

theorem Walking.next_eq (h : Walking n σ i cur p w) : p cur = σ cur :=
  (h.entry cur h.cur_lt).resolve_left h.cur_unmarked

/-! What marking cur keeps of the walk: i stays marked once left, the σ-image of a marked
position is marked, and a marked position other than i has a marked σ-predecessor. -/

theorem Walking.start_update (h : Walking n σ i cur p w) : Function.update p cur cur i = i := by
  rcases h.start_marked with hi | hi
  · subst hi
    exact Function.update_self ..
  · exact update_marked hi cur

theorem Walking.forward_update (h : Walking n σ i cur p w) {j : Nat} (hj : j < n)
    (hpj : p j = j) : Function.update p cur cur (σ j) = σ j := by
  rcases h.forward j hj hpj with hσj | hσj
  · exact update_marked hσj cur
  · rw [hσj]
    exact Function.update_self ..

theorem Walking.backward_update (h : Walking n σ i cur p w) {j : Nat} (hj : j < n)
    (hpj : Function.update p cur cur j = j) :
    j = i ∨ ∃ x < n, Function.update p cur cur x = x ∧ σ x = j := by
  rcases marked_of_update hpj with rfl | ⟨-, hpj⟩
  · rcases h.cur_pred with hi | ⟨x, hx, hpx, hσx⟩
    · exact Or.inl hi
    · exact Or.inr ⟨x, hx, update_marked hpx _, hσx⟩
  · rcases h.backward j hj hpj with hi | ⟨x, hx, hpx, hσx⟩
    · exact Or.inl hi
    · exact Or.inr ⟨x, hx, update_marked hpx cur, hσx⟩

section Step

variable (hσ : ∀ j < n, σ j < n) (hinj : ∀ a < n, ∀ b < n, σ a = σ b → a = b)
include hσ hinj

theorem Walking.next_unmarked (h : Walking n σ i cur p w) (hnext : i ≠ p cur) :
    p (p cur) ≠ p cur := by
  intro hmarked
  have hlt : p cur < n := h.next_eq ▸ hσ cur h.cur_lt
  rcases h.backward (p cur) hlt hmarked with hi | ⟨x, hx, hpx, hσx⟩
  · exact hnext hi.symm
  · have hxcur : x = cur := hinj x hx cur h.cur_lt (hσx.trans (h.next_eq))
    subst hxcur
    exact h.cur_unmarked hpx

theorem Walking.step (h : Walking n σ i cur p w) (hnext : i ≠ p cur) :
    Walking n σ i (p cur) (Function.update p cur cur) (w ∘ Equiv.swap cur (p cur)) := by
  have hnext_eq := h.next_eq
  have hlt : p cur < n := hnext_eq ▸ hσ cur h.cur_lt
  have hunmarked := h.next_unmarked hσ hinj hnext
  have hne : p cur ≠ cur := h.cur_unmarked
  have hmarked_ne : ∀ j, p j = j → j ≠ cur ∧ j ≠ p cur := fun j hj =>
    ⟨fun hjc => h.cur_unmarked (hjc ▸ hj), fun hjn => hunmarked (hjn ▸ hj)⟩
  refine ⟨hlt, by rwa [Function.update_of_ne hne], entry_update h.entry cur, ?marked, ?unmarked,
    ?carried, ?forward, fun j hj hpj => h.backward_update hj hpj, ?pred, Or.inr h.start_update,
    fun j hj => update_marked (h.walked j hj) cur⟩
  case marked =>
    intro j hj hpj
    rcases marked_of_update hpj with rfl | ⟨hjc, hpj⟩
    · rw [Function.comp_apply, Equiv.swap_apply_left, h.unmarked_own _ hlt hunmarked hne, hnext_eq]
    · rw [Function.comp_apply, Equiv.swap_apply_of_ne_of_ne hjc (hmarked_ne j hpj).2]
      exact h.marked_final j hj hpj
  case unmarked =>
    intro j hj hpj hjn
    obtain ⟨hjc, hpj⟩ := unmarked_of_update hpj
    rw [Function.comp_apply, Equiv.swap_apply_of_ne_of_ne hjc hjn]
    exact h.unmarked_own j hj hpj hjc
  case carried =>
    rw [Function.comp_apply, Equiv.swap_apply_right]
    exact h.carried
  case forward =>
    intro j hj hpj
    rcases marked_of_update hpj with rfl | ⟨-, hpj⟩
    · exact Or.inr hnext_eq.symm
    · exact Or.inl (h.forward_update hj hpj)
  case pred =>
    exact Or.inr ⟨cur, h.cur_lt, Function.update_self .., hnext_eq.symm⟩

end Step

theorem Walking.exit (h : Walking n σ i cur p w) (hexit : i = p cur) :
    Settled n σ (i + 1) (Function.update p cur cur) w := by
  have hnext_eq := h.next_eq
  refine ⟨entry_update h.entry cur, ?marked, ?unmarked, ?forward, ?backward, ?walked⟩
  case marked =>
    intro j hj hpj
    rcases marked_of_update hpj with rfl | ⟨-, hpj⟩
    · rw [h.carried, hexit, hnext_eq]
    · exact h.marked_final j hj hpj
  case unmarked =>
    intro j hj hpj
    obtain ⟨hjc, hpj⟩ := unmarked_of_update hpj
    exact h.unmarked_own j hj hpj hjc
  case forward =>
    intro j hj hpj
    rcases marked_of_update hpj with rfl | ⟨-, hpj⟩
    · rw [← hnext_eq, ← hexit]
      exact h.start_update
    · exact h.forward_update hj hpj
  case backward =>
    intro j hj hpj
    rcases h.backward_update hj hpj with hi | hx
    · exact ⟨cur, h.cur_lt, Function.update_self .., by rw [← hnext_eq, ← hexit, hi]⟩
    · exact hx
  case walked =>
    intro j hj
    rcases Nat.lt_succ_iff_lt_or_eq.mp hj with hj | rfl
    · exact update_marked (h.walked j hj) cur
    · exact h.start_update

/-! ### The unmarked positions, which every pass of the walk lowers -/

def unmarkedSet (n : Nat) (p : Nat → Nat) : Finset Nat := (Finset.range n).filter fun j => p j ≠ j

theorem card_unmarkedSet_update (hk : k < n) (hpk : p k ≠ k) :
    (unmarkedSet n (Function.update p k k)).card + 1 = (unmarkedSet n p).card := by
  have herase : unmarkedSet n (Function.update p k k) = (unmarkedSet n p).erase k := by
    ext j
    simp only [unmarkedSet, Finset.mem_erase, Finset.mem_filter, Finset.mem_range]
    by_cases hjk : j = k
    · subst hjk
      simp
    · rw [Function.update_of_ne hjk]
      tauto
  have hmem : k ∈ unmarkedSet n p := by simp [unmarkedSet, hk, hpk]
  rw [herase, Finset.card_erase_of_mem hmem]
  have := Finset.card_pos.mpr ⟨k, hmem⟩
  omega

theorem Walking.card_pos (h : Walking n σ i cur p w) : 0 < (unmarkedSet n p).card :=
  Finset.card_pos.mpr ⟨cur, by simp [unmarkedSet, h.cur_lt, h.cur_unmarked]⟩

theorem card_unmarkedSet_le (n : Nat) (p : Nat → Nat) : (unmarkedSet n p).card ≤ n :=
  (Finset.card_filter_le _ _).trans (Finset.card_range n).le

end CycleWalk
