import PepePrivate.Emission.Reward

/-! The already_generated_coins stored with each block. handle_block_to_main_chain computes it
from the previous main-chain block and the base reward validate_miner_transaction leaves
(MONEY_PREMINE at height 1, money_in_use - fee above); handle_alternative_block computes it from
the parent, main-chain or alternative, and the outputs of the miner transaction. Both cap the
sum at MONEY_SUPPLY, so that with the tail subsidy, which keeps paying once the supply is
reached, the stored coins never pass it and get_block_reward never subtracts past zero. The
rewards are arbitrary here, so the result holds whatever the reward paths compute. -/

namespace PepePrivate.Emission

def capGeneratedCoins (prev reward : UInt64) : UInt64 :=
  if reward < moneySupply - prev then prev + reward else moneySupply

/-- handle_block_to_main_chain: the coins of a block at blockchain_height, from those of the
block below it (none for the genesis). -/
def mainBlockGeneratedCoins (main : List UInt64) (baseReward : UInt64) : UInt64 :=
  let alreadyGeneratedCoins := if main.length ≠ 0 then main.getD (main.length - 1) 0 else 0
  capGeneratedCoins alreadyGeneratedCoins baseReward

/-- handle_alternative_block: the coins of an alternative block from prev_generated_coins. -/
def altBlockGeneratedCoins (prevGeneratedCoins blockReward : UInt64) : UInt64 :=
  capGeneratedCoins prevGeneratedCoins blockReward

theorem capGeneratedCoins_bounds {prev : UInt64} (h : prev ≤ moneySupply) (reward : UInt64) :
    prev ≤ capGeneratedCoins prev reward ∧ capGeneratedCoins prev reward ≤ moneySupply := by
  have hms : moneySupply.toNat = 21000000000000000 := rfl
  have hprev := UInt64.le_iff_toNat_le.mp h
  unfold capGeneratedCoins
  split_ifs with hlt
  · rw [UInt64.lt_iff_toNat_lt, UInt64.toNat_sub_of_le _ _ h] at hlt
    have hsum : (prev + reward).toNat = prev.toNat + reward.toNat := by
      rw [UInt64.toNat_add]
      exact Nat.mod_eq_of_lt (by omega)
    simp only [UInt64.le_iff_toNat_le, hsum]
    omega
  · exact ⟨h, UInt64.le_refl _⟩

theorem toNat_capGeneratedCoins_of_lt {prev reward : UInt64}
    (h : prev.toNat + reward.toNat < moneySupply.toNat) :
    (capGeneratedCoins prev reward).toNat = prev.toNat + reward.toNat := by
  have hprev : prev ≤ moneySupply := UInt64.le_iff_toNat_le.mpr (by omega)
  have hlt : reward < moneySupply - prev := by
    rw [UInt64.lt_iff_toNat_lt, UInt64.toNat_sub_of_le _ _ hprev]
    omega
  rw [capGeneratedCoins, if_pos hlt, UInt64.toNat_add, Nat.mod_eq_of_lt]
  have : moneySupply.toNat < 2 ^ 64 := by decide
  omega

inductive AltParent
  | main (height : Nat)
  | alt (index : Nat)
  deriving DecidableEq

structure AltBlock where
  parent : AltParent
  alreadyGeneratedCoins : UInt64
  deriving DecidableEq

/-- The coins m_db stores: one per main-chain block, genesis first, and one per entry of the
alternative-block table. The source finds alternative blocks by hash; here by position, and a
removed block leaves a hole so that the others keep theirs. -/
structure Coins where
  main : List UInt64
  alt : List (Option AltBlock)

namespace Coins

def parentCoins (s : Coins) : AltParent → Option UInt64
  | .main height => s.main[height]?
  | .alt index => (s.alt[index]?.bind id).map (·.alreadyGeneratedCoins)

end Coins

/-- The operations that add or remove stored coins. A chain switch or a rollback is pops and
main-chain additions, with its alternative blocks removed from the table and the disconnected
blocks added to it. -/
inductive Op
  | handleBlockToMainChain (baseReward : UInt64)
  | popBlockFromBlockchain
  | handleAlternativeBlock (parent : AltParent) (blockReward : UInt64)
  | removeAltBlock (index : Nat)
  | resetAndSetGenesisBlock (baseReward : UInt64)

namespace Coins

def step (s : Coins) : Op → Coins
  | .handleBlockToMainChain r => { s with main := s.main ++ [mainBlockGeneratedCoins s.main r] }
  | .popBlockFromBlockchain => if s.main.length > 1 then { s with main := s.main.dropLast } else s
  | .handleAlternativeBlock parent r =>
    match s.parentCoins parent with
    | some prev => { s with alt := s.alt ++ [some ⟨parent, altBlockGeneratedCoins prev r⟩] }
    | none => s
  | .removeAltBlock i => { s with alt := s.alt.set i none }
  | .resetAndSetGenesisBlock r => ⟨[mainBlockGeneratedCoins [] r], s.alt.map fun _ => none⟩

inductive Reachable : Coins → Prop
  | init : Reachable ⟨[], []⟩
  | step {s : Coins} (op : Op) : Reachable s → Reachable (s.step op)

/-- The stored coins are capped, non-decreasing along the main chain, and non-decreasing from
an alternative block to its alternative parent, which is an earlier entry of the table. -/
structure Capped (s : Coins) : Prop where
  main_le : ∀ c ∈ s.main, c ≤ moneySupply
  main_sorted : s.main.Pairwise (· ≤ ·)
  alt_le : ∀ (i : Nat) (b : AltBlock), s.alt[i]? = some (some b) →
    b.alreadyGeneratedCoins ≤ moneySupply
  alt_parent_lt : ∀ (i : Nat) (b : AltBlock) (j : Nat), s.alt[i]? = some (some b) →
    b.parent = .alt j → j < i
  alt_parent_le : ∀ (i : Nat) (b : AltBlock) (j : Nat) (p : AltBlock), s.alt[i]? = some (some b) →
    b.parent = .alt j → s.alt[j]? = some (some p) → p.alreadyGeneratedCoins ≤ b.alreadyGeneratedCoins

def Stores (s : Coins) (g : UInt64) : Prop :=
  g ∈ s.main ∨ ∃ (i : Nat) (b : AltBlock), s.alt[i]? = some (some b) ∧ b.alreadyGeneratedCoins = g

theorem getElem?_append_singleton {α : Type*} {l : List α} {x y : α} {k : Nat}
    (h : (l ++ [x])[k]? = some y) : (k < l.length ∧ l[k]? = some y) ∨ (k = l.length ∧ y = x) := by
  rw [List.getElem?_append] at h
  split_ifs at h with hk
  · exact .inl ⟨hk, h⟩
  · right
    rw [List.getElem?_singleton] at h
    split_ifs at h with h0
    exact ⟨by omega, (Option.some_injective _ h).symm⟩

theorem getElem?_set_none {α : Type*} {l : List (Option α)} {i k : Nat} {y : α}
    (h : (l.set i none)[k]? = some (some y)) : k ≠ i ∧ l[k]? = some (some y) := by
  rw [List.getElem?_set] at h
  split_ifs at h with hik hi
  · simp at h
  · exact ⟨Ne.symm hik, h⟩

section Invariant

variable {s : Coins}

theorem parentCoins_alt {index : Nat} {prev : UInt64} (h : s.parentCoins (.alt index) = some prev) :
    ∃ b, s.alt[index]? = some (some b) ∧ b.alreadyGeneratedCoins = prev := by
  simp only [parentCoins, Option.map_eq_some_iff, Option.bind_eq_some_iff, id] at h
  obtain ⟨b, ⟨o, ho, rfl⟩, rfl⟩ := h
  exact ⟨b, ho, rfl⟩

theorem Capped.parentCoins_le (hs : s.Capped) {parent : AltParent} {prev : UInt64}
    (h : s.parentCoins parent = some prev) : prev ≤ moneySupply := by
  cases parent with
  | main height => exact hs.main_le prev (List.mem_of_getElem? h)
  | alt index =>
    obtain ⟨b, hb, rfl⟩ := parentCoins_alt h
    exact hs.alt_le index b hb

theorem Capped.mainBlockGeneratedCoins_bounds (hs : s.Capped) (r : UInt64) :
    (∀ c ∈ s.main, c ≤ mainBlockGeneratedCoins s.main r) ∧
      mainBlockGeneratedCoins s.main r ≤ moneySupply := by
  by_cases h0 : s.main.length = 0
  · have hnil : s.main = [] := List.eq_nil_of_length_eq_zero h0
    refine ⟨fun c hc => by simp [hnil] at hc, ?_⟩
    simpa [mainBlockGeneratedCoins, hnil] using
      (capGeneratedCoins_bounds UInt64.zero_le r).2
  · have hlt : s.main.length - 1 < s.main.length := by omega
    have hlast : s.main.getD (s.main.length - 1) 0 = s.main[s.main.length - 1] :=
      List.getD_eq_getElem _ _ hlt
    have hbounds := capGeneratedCoins_bounds (hs.main_le _ (List.getElem_mem hlt)) r
    simp only [mainBlockGeneratedCoins, h0, ne_eq, not_false_eq_true, if_true, hlast]
    refine ⟨fun c hc => ?_, hbounds.2⟩
    obtain ⟨i, hi, rfl⟩ := List.getElem_of_mem hc
    have hle : s.main[i] ≤ s.main[s.main.length - 1] := by
      by_cases hi' : i = s.main.length - 1
      · simp only [hi']
        exact UInt64.le_refl _
      · exact List.pairwise_iff_getElem.mp hs.main_sorted i _ hi hlt (by omega)
    exact UInt64.le_trans hle hbounds.1

theorem Capped.handleBlockToMainChain (hs : s.Capped) (r : UInt64) :
    (s.step (.handleBlockToMainChain r)).Capped := by
  obtain ⟨hbelow, hle⟩ := hs.mainBlockGeneratedCoins_bounds r
  refine ⟨?_, ?_, hs.alt_le, hs.alt_parent_lt, hs.alt_parent_le⟩
  · intro c hc
    rcases List.mem_append.mp hc with hc | hc
    · exact hs.main_le c hc
    · rw [List.mem_singleton.mp hc]
      exact hle
  · exact List.pairwise_append.mpr ⟨hs.main_sorted, List.pairwise_singleton _ _,
      fun a ha b hb => (List.mem_singleton.mp hb) ▸ hbelow a ha⟩

theorem Capped.popBlockFromBlockchain (hs : s.Capped) : (s.step .popBlockFromBlockchain).Capped := by
  simp only [step]
  split_ifs
  · exact ⟨fun c hc => hs.main_le c (List.mem_of_mem_dropLast hc),
      hs.main_sorted.sublist (List.dropLast_sublist _), hs.alt_le, hs.alt_parent_lt, hs.alt_parent_le⟩
  · exact hs

theorem Capped.handleAlternativeBlock (hs : s.Capped) (parent : AltParent) (r : UInt64) :
    (s.step (.handleAlternativeBlock parent r)).Capped := by
  simp only [step]
  split
  · next prev hprev =>
    have hbounds : prev ≤ altBlockGeneratedCoins prev r ∧ altBlockGeneratedCoins prev r ≤ moneySupply :=
      capGeneratedCoins_bounds (hs.parentCoins_le hprev) r
    have hparent : ∀ j, parent = .alt j → j < s.alt.length ∧ ∃ p, s.alt[j]? = some (some p) ∧
        p.alreadyGeneratedCoins = prev := by
      rintro j rfl
      obtain ⟨p, hp, hpc⟩ := parentCoins_alt hprev
      exact ⟨(List.getElem?_eq_some_iff.mp hp).1, p, hp, hpc⟩
    have hentry : ∀ i (b : AltBlock),
        (s.alt ++ [some ⟨parent, altBlockGeneratedCoins prev r⟩])[i]? = some (some b) →
          (i < s.alt.length ∧ s.alt[i]? = some (some b)) ∨
            (i = s.alt.length ∧ b = ⟨parent, altBlockGeneratedCoins prev r⟩) := by
      intro i b hb
      rcases getElem?_append_singleton hb with hold | ⟨hi, hnew⟩
      · exact .inl hold
      · exact .inr ⟨hi, Option.some_injective _ hnew⟩
    refine ⟨hs.main_le, hs.main_sorted, ?_, ?_, ?_⟩
    · intro i b hb
      rcases hentry i b hb with ⟨-, hold⟩ | ⟨-, rfl⟩
      · exact hs.alt_le i b hold
      · dsimp only
        exact hbounds.2
    · intro i b j hb hj
      rcases hentry i b hb with ⟨-, hold⟩ | ⟨hi, rfl⟩
      · exact hs.alt_parent_lt i b j hold hj
      · rw [hi]
        exact (hparent j hj).1
    · intro i b j p hb hj hp
      rcases hentry i b hb with ⟨hi, hold⟩ | ⟨-, rfl⟩
      · have hji := hs.alt_parent_lt i b j hold hj
        rw [List.getElem?_append_left (by omega)] at hp
        exact hs.alt_parent_le i b j p hold hj hp
      · obtain ⟨hjlt, p', hp', hpc⟩ := hparent j hj
        rw [List.getElem?_append_left hjlt, hp'] at hp
        cases hp
        dsimp only
        rw [hpc]
        exact hbounds.1
  · exact hs

theorem Capped.removeAltBlock (hs : s.Capped) (i : Nat) : (s.step (.removeAltBlock i)).Capped := by
  refine ⟨hs.main_le, hs.main_sorted, ?_, ?_, ?_⟩
  · intro k b hb
    exact hs.alt_le k b (getElem?_set_none hb).2
  · intro k b j hb hj
    exact hs.alt_parent_lt k b j (getElem?_set_none hb).2 hj
  · intro k b j p hb hj hp
    exact hs.alt_parent_le k b j p (getElem?_set_none hb).2 hj (getElem?_set_none hp).2

theorem Capped.resetAndSetGenesisBlock (r : UInt64) :
    (s.step (.resetAndSetGenesisBlock r)).Capped := by
  have hle := (capGeneratedCoins_bounds UInt64.zero_le r).2
  have hnone : ∀ (k : Nat) (b : AltBlock),
      (s.alt.map fun _ => (none : Option AltBlock))[k]? ≠ some (some b) := by
    intro k b h
    rw [List.getElem?_map] at h
    cases hk : s.alt[k]? <;> simp [hk] at h
  refine ⟨?_, List.pairwise_singleton _ _, fun k b hb => absurd hb (hnone k b),
    fun k b _ hb => absurd hb (hnone k b), fun k b _ _ hb => absurd hb (hnone k b)⟩
  intro c hc
  rw [List.mem_singleton.mp hc]
  simpa [mainBlockGeneratedCoins] using hle

theorem Capped.step (hs : s.Capped) (op : Op) : (s.step op).Capped := by
  cases op with
  | handleBlockToMainChain r => exact hs.handleBlockToMainChain r
  | popBlockFromBlockchain => exact hs.popBlockFromBlockchain
  | handleAlternativeBlock parent r => exact hs.handleAlternativeBlock parent r
  | removeAltBlock i => exact hs.removeAltBlock i
  | resetAndSetGenesisBlock r => exact Capped.resetAndSetGenesisBlock r

theorem reachable_capped (h : Reachable s) : s.Capped := by
  induction h with
  | init => exact ⟨by simp, List.Pairwise.nil, by simp, by simp, by simp⟩
  | step op _ ih => exact ih.step op

theorem Capped.stores_le (hs : s.Capped) {g : UInt64} (hg : s.Stores g) : g ≤ moneySupply := by
  rcases hg with hg | ⟨i, b, hb, rfl⟩
  · exact hs.main_le g hg
  · exact hs.alt_le i b hb

end Invariant

/-- Over every run of main-chain additions, pops, alternative blocks, removals from the table
and resets, with any rewards: the stored coins never pass MONEY_SUPPLY and never decrease along
the main chain or from an alternative parent; a block built on any parent stores at least the
parent's coins; and for every stored value get_block_reward's base reward is the coins left
divided by 2^19, never below the tail subsidy, with no wrap of MONEY_SUPPLY -
already_generated_coins. -/
theorem generated_coins_capped {s : Coins} (hs : Reachable s) :
    s.Capped ∧
      (∀ parent prev r, s.parentCoins parent = some prev →
        prev ≤ altBlockGeneratedCoins prev r ∧ altBlockGeneratedCoins prev r ≤ moneySupply) ∧
      ∀ g, s.Stores g → ∀ version,
        (baseReward g version).toNat = max 1200000000 ((moneySupply.toNat - g.toNat) / 2 ^ 19) := by
  have hcap := reachable_capped hs
  exact ⟨hcap, fun _ _ r h => capGeneratedCoins_bounds (hcap.parentCoins_le h) r,
    fun _ hg version => baseReward_eq (hcap.stores_le hg) version⟩

theorem generated_coins_capped_alt_block :
    let s : Coins := ((Coins.mk [] []).step (.handleBlockToMainChain moneyPremine)).step
      (.handleAlternativeBlock (.main 0) 600000000)
    Reachable s ∧ (s.Capped ∧
      (∀ parent prev r, s.parentCoins parent = some prev →
        prev ≤ altBlockGeneratedCoins prev r ∧ altBlockGeneratedCoins prev r ≤ moneySupply) ∧
      ∀ g, s.Stores g → ∀ version,
        (baseReward g version).toNat = max 1200000000 ((moneySupply.toNat - g.toNat) / 2 ^ 19)) :=
  ⟨.step _ (.step _ .init), generated_coins_capped (.step _ (.step _ .init))⟩

end Coins

end PepePrivate.Emission
