import PepePrivate.Hardfork.Node

/-! The voting window stays consistent over every run of the node. A run starts with `init`
on a database whose blocks all have their `hf_versions` row, and then adds blocks at the
next height, pops blocks (never the genesis block, as `pop_block_from_blockchain` refuses),
reorganises and rescans in any order. -/

namespace PepePrivate.Hardfork

open Tally

namespace HardFork

theorem onBlockPopped_eq_some {hf hf' : HardFork} {db : BlockchainDB} {n : Nat}
    (h : hf.onBlockPopped db n = some hf') :
    ∃ vs c, popLoop db n (db.height + n - 1) hf.versions hf.lastVersions = some (vs, c) ∧
      hf' = (hf.withWindow vs c).setForkIndex
        (hf.poppedForkIndex db.height (hf.heights.length - 1)) := by
  unfold onBlockPopped at h
  split_ifs at h
  split at h
  · cases h
  · rename_i vs c hl
    exact ⟨vs, c, hl, (Option.some.inj h).symm⟩

theorem onBlockPopped_isSome {hf : HardFork} {db : BlockchainDB} {n : Nat} (hw : hf.WindowOk)
    (hW : hf.windowSize < 2 ^ 32) (hn : 0 < n) (hpos : 0 < db.height) (hne : hf.versions ≠ [])
    (hrows : ∀ i < n, (db.getHardForkVersion (db.height + n - 1 - i)).isSome) :
    (hf.onBlockPopped db n).isSome := by
  obtain ⟨⟨vs, c⟩, hl⟩ := Option.isSome_iff_exists.mp
    (popLoop_isSome hw.tallied (by have := hw.length_le; omega) hne hrows)
  simp [onBlockPopped, hn.ne', hpos.ne', hl]

theorem onBlockPopped_frame {hf hf' : HardFork} {db : BlockchainDB} {n : Nat}
    (h : hf.onBlockPopped db n = some hf') (hw : hf.WindowOk) :
    hf'.WindowOk ∧ hf'.windowSize = hf.windowSize ∧ hf'.versions.length = hf.versions.length := by
  obtain ⟨vs, c, hl, rfl⟩ := onBlockPopped_eq_some h
  obtain ⟨hlen, hcnt⟩ := popLoop_eq_some hl
  refine ⟨⟨hcnt hw.tallied, ?_⟩, rfl, hlen⟩
  simpa [hlen] using hw.length_le

end HardFork

/-- The hard-fork object and the database it reads. -/
structure Node where
  hf : HardFork
  db : BlockchainDB

inductive Op where
  | addBlock (b : Block)
  | popBlocks (nblocks : Nat)
  | reorganize (height : Nat)
  | rescan

/-- Pops take at least one block and leave the genesis block. -/
def Op.Allowed (s : Node) : Op → Prop
  | .popBlocks n => 0 < n ∧ n < s.db.height
  | _ => True

/-- A block reaches `add` only once `check` has accepted it (`handle_block_to_main_chain`),
and it is stored in the database with it (`BlockchainDB::add_block`). -/
def Node.step (s : Node) : Op → Option Node
  | .addBlock b =>
    if s.hf.doCheck (getBlockVersion b) (getBlockVote b) then
      (s.hf.addBlock s.db b s.db.height).map fun r => ⟨r.2.1, r.2.2.addBlock b⟩
    else some s
  | .popBlocks n =>
    (s.hf.onBlockPopped (s.db.removeBlocks n) n).map fun hf => ⟨hf, s.db.removeBlocks n⟩
  | .reorganize height => (s.hf.reorganizeFromBlockHeight s.db height).map fun r => ⟨r.2.1, r.2.2⟩
  | .rescan => (s.hf.init s.db).map fun hf => ⟨hf, s.db⟩

inductive Reachable : Node → Prop where
  | init {hf hf' : HardFork} {db : BlockchainDB} :
      db.HasVersions → hf.init db = some hf' → Reachable ⟨hf', db⟩
  | step {s s' : Node} {op : Op} : Reachable s → op.Allowed s → s.step op = some s' → Reachable s'

namespace Node

structure Inv (s : Node) : Prop where
  window : s.hf.WindowOk
  nonempty : 0 < s.db.height → s.hf.versions ≠ []
  rows : s.db.HasVersions

theorem init_inv {hf hf' : HardFork} {db : BlockchainDB} (hdb : db.HasVersions)
    (h : hf.init db = some hf') : Inv ⟨hf', db⟩ :=
  have hi := HardFork.init_frame h
  ⟨hi.1, hi.2.2.2, hdb⟩

theorem step_inv {s s' : Node} {op : Op} (hi : s.Inv) (h : s.step op = some s') : s'.Inv := by
  cases op with
  | addBlock b =>
    simp only [step] at h
    split_ifs at h with hc
    · obtain ⟨⟨ok, hf', db'⟩, hadd, rfl⟩ := Option.map_eq_some_iff.mp h
      obtain ⟨hw', -, -, hb', -, -⟩ := HardFork.add_frame hadd hi.window
      rcases HardFork.add_eq_some hadd with ⟨hc', -⟩ | ⟨-, vs, c, -, he⟩
      · simp [hc] at hc'
      · simp only [Prod.mk.injEq] at he
        obtain ⟨-, rfl, rfl⟩ := he
        refine ⟨hw', fun _ => ?_, hi.rows.addBlock _ b⟩
        simp
    · rw [← Option.some.inj h]
      exact hi
  | popBlocks n =>
    obtain ⟨hf', hp, rfl⟩ := Option.map_eq_some_iff.mp h
    obtain ⟨hw', -, hlen⟩ := HardFork.onBlockPopped_frame hp hi.window
    refine ⟨hw', fun hpos => ?_, hi.rows.removeBlocks n⟩
    have hne := hi.nonempty (by simp at hpos; omega)
    show hf'.versions ≠ []
    rw [← List.length_pos_iff] at hne ⊢
    omega
  | reorganize height =>
    obtain ⟨⟨ok, hf', db'⟩, hr, rfl⟩ := Option.map_eq_some_iff.mp h
    obtain ⟨hw', -, hb', hrows', hne', -⟩ := HardFork.reorganize_frame hr hi.window
    have hh : db'.height = s.db.height := by simp [BlockchainDB.height, hb']
    refine ⟨hw', fun hpos => hne' (hi.nonempty (hh ▸ hpos)), fun k hk => ?_⟩
    exact hrows' k (hi.rows k (hh ▸ hk))
  | rescan =>
    obtain ⟨hf', hi', rfl⟩ := Option.map_eq_some_iff.mp h
    exact init_inv hi.rows hi'

theorem step_isSome {s : Node} {op : Op} (hi : s.Inv) (hW : s.hf.windowSize < 2 ^ 32)
    (hop : op.Allowed s) : (s.step op).isSome := by
  cases op with
  | addBlock b =>
    simp only [step]
    split_ifs
    · simp only [Option.isSome_map]
      exact HardFork.add_isSome _ _ _ _ hi.window.tallied (by have := hi.window.length_le; omega)
    · rfl
  | popBlocks n =>
    obtain ⟨hn, hlt⟩ := hop
    simp only [step, Option.isSome_map]
    apply HardFork.onBlockPopped_isSome hi.window hW hn (by simp; omega)
      (hi.nonempty (by omega))
    intro i hi'
    have hk : (s.db.removeBlocks n).height + n - 1 - i < s.db.height := by simp; omega
    simpa [BlockchainDB.getHardForkVersion] using hi.rows _ hk
  | reorganize height =>
    simpa [step] using HardFork.reorganize_isSome height hW hi.rows
  | rescan =>
    simpa [step] using HardFork.init_isSome hi.rows

theorem step_addBlock_of_length_lt {s : Node} {b : Block}
    (hc : s.hf.doCheck (getBlockVersion b) (getBlockVote b) = true)
    (hl : s.hf.versions.length < s.hf.windowSize) :
    s.step (.addBlock b) = some
      ⟨(s.hf.pushVotes [s.hf.getEffectiveVersion (getBlockVote b)]).raiseToVoted (s.db.height + 1),
        (s.db.setHardForkVersion s.db.height s.hf.currentParams.version).addBlock b⟩ := by
  simp only [step, hc, if_true, HardFork.addBlock, HardFork.add, Bool.not_true, Bool.false_eq_true,
    if_false, trimWindow_of_length_lt s.hf.lastVersions hl, Option.map_some]
  rfl

theorem step_addBlock_eq_none {s : Node} {b : Block}
    (hc : s.hf.doCheck (getBlockVersion b) (getBlockVote b) = true)
    (ht : trimWindow s.hf.windowSize s.hf.versions s.hf.lastVersions = none) :
    s.step (.addBlock b) = none := by
  simp only [step, hc, if_true, HardFork.addBlock, HardFork.add, Bool.not_true, Bool.false_eq_true,
    if_false, ht, Option.map_none]

theorem reachable_inv {s : Node} (h : Reachable s) : s.Inv := by
  induction h with
  | init hdb hi => exact init_inv hdb hi
  | step _ _ hs ih => exact step_inv ih hs

end Node

/-- Over every run, `last_versions` counts exactly the votes in the window, every vote in the
window has a positive counter, the window never exceeds `window_size`, and the next operation
cannot trip the assertion in `add`, unbump a zero counter or pop an empty window. -/
theorem hardfork_window_consistent {s : Node} (hs : Reachable s)
    (hW : s.hf.windowSize < 2 ^ 32) :
    (∀ v, (s.hf.lastVersions v).toNat = s.hf.versions.count v) ∧
      (∀ v ∈ s.hf.versions, 1 ≤ s.hf.lastVersions v) ∧
      s.hf.versions.length ≤ s.hf.windowSize ∧
      ∀ op, op.Allowed s → (s.step op).isSome := by
  have hi := Node.reachable_inv hs
  have hl : s.hf.versions.length < 2 ^ 32 := by have := hi.window.length_le; omega
  exact ⟨hi.window.tallied.toNat_eq hl, fun v hv => hi.window.tallied.one_le_of_mem hl hv,
    hi.window.length_le, fun op hop => Node.step_isSome hi hW hop⟩

theorem hardfork_window_consistent_mainnet :
    let s₀ : Node := ⟨((HardFork.mainnet.get (by decide)).init .empty).get (by decide), .empty⟩
    let s₁ := (s₀.step (.addBlock ⟨1, 0⟩)).get (by decide)
    let s₂ := (s₁.step (.addBlock ⟨15, 15⟩)).get (by decide)
    let s₃ := (s₂.step (.addBlock ⟨15, 15⟩)).get (by decide)
    let s := (s₃.step (.popBlocks 1)).get (by decide)
    Reachable s ∧ s.hf.windowSize < 2 ^ 32 ∧
      ((∀ v, (s.hf.lastVersions v).toNat = s.hf.versions.count v) ∧
        (∀ v ∈ s.hf.versions, 1 ≤ s.hf.lastVersions v) ∧
        s.hf.versions.length ≤ s.hf.windowSize ∧
        ∀ op, op.Allowed s → (s.step op).isSome) := by
  intro s₀ s₁ s₂ s₃ s
  have h₀ : Reachable s₀ :=
    .init (fun _ h => absurd h (Nat.not_lt_zero _)) (Option.some_get _).symm
  have h₁ : Reachable s₁ := .step h₀ (by trivial) (Option.some_get _).symm
  have h₂ : Reachable s₂ := .step h₁ (by trivial) (Option.some_get _).symm
  have h₃ : Reachable s₃ := .step h₂ (by trivial) (Option.some_get _).symm
  have hr : Reachable s := .step h₃ (by exact ⟨by decide, by decide⟩) (Option.some_get _).symm
  have hW : s.hf.windowSize < 2 ^ 32 := by decide
  exact ⟨hr, hW, hardfork_window_consistent hr hW⟩

def wideWindow : HardFork := (HardFork.new 1 (2 ^ 32) 80).get (by decide)

theorem reachable_wideWindow_votes (k : Nat) (hk : k ≤ 2 ^ 32) :
    ∃ s : Node, Reachable s ∧ s.hf.windowSize = 2 ^ 32 ∧ s.hf.versions = List.replicate k 1 ∧
      s.hf.heights = [⟨1, 0, 0, 0⟩] ∧ s.hf.currentForkIndex = 0 := by
  induction k with
  | zero =>
    refine ⟨⟨(wideWindow.init .empty).get (by decide), .empty⟩,
      .init (fun _ h => absurd h (Nat.not_lt_zero _)) (Option.some_get _).symm, ?_⟩
    decide
  | succ k ih =>
    obtain ⟨s, hr, hW, hvs, hheights, hidx⟩ := ih (by omega)
    have hc : s.hf.doCheck (getBlockVersion ⟨1, 1⟩) (getBlockVote ⟨1, 1⟩) = true := by
      simp [HardFork.doCheck, HardFork.currentParams, HardFork.forkAt, hheights, hidx,
        getBlockVersion, getBlockVote]
    have hl : s.hf.versions.length < s.hf.windowSize := by
      rw [hvs, hW, List.length_replicate]
      omega
    have hvoted : ∀ vs h, (s.hf.pushVotes vs).getVotedForkIndex h = 0 := by
      simp [HardFork.getVotedForkIndex, HardFork.votedForkIndexLoop, hheights, hidx]
    refine ⟨_, .step hr (by trivial) (Node.step_addBlock_of_length_lt hc hl), ?_⟩
    refine ⟨by simp [hW], ?_, by simp [hheights], ?_⟩
    · simp [hvs, HardFork.getEffectiveVersion, hheights, getBlockVote, List.replicate_succ']
    · simp [HardFork.raiseToVoted_currentForkIndex, hvoted, hidx]

/-- With a window of `2 ^ 32`, the `unsigned int` counter of the votes for version 1 wraps to 0
once the window is full of them, and the next block trips the assertion in `add`. -/
theorem hardfork_window_counter_wraps :
    ∃ s : Node, Reachable s ∧ s.hf.windowSize = 2 ^ 32 ∧ s.hf.versions.count 1 = 2 ^ 32 ∧
      s.hf.lastVersions 1 = 0 ∧ s.step (.addBlock ⟨1, 1⟩) = none := by
  obtain ⟨s, hr, hW, hvs, hheights, hidx⟩ := reachable_wideWindow_votes (2 ^ 32) le_rfl
  have hcount : s.hf.versions.count 1 = 2 ^ 32 := by
    rw [hvs, List.count_replicate_self]
  have hzero : s.hf.lastVersions 1 = 0 := by
    have htally := (Node.reachable_inv hr).window.tallied 1
    rw [hcount, Nat.mod_self] at htally
    exact UInt32.toNat_inj.mp htally
  have hc : s.hf.doCheck (getBlockVersion ⟨1, 1⟩) (getBlockVote ⟨1, 1⟩) = true := by
    simp [HardFork.doCheck, HardFork.currentParams, HardFork.forkAt, hheights, hidx,
      getBlockVersion, getBlockVote]
  have hvs' : s.hf.versions = 1 :: List.replicate (2 ^ 32 - 1) 1 := by
    rw [hvs, ← List.replicate_succ, Nat.sub_add_cancel Nat.one_le_two_pow]
  have hfull : s.hf.windowSize ≤ (List.replicate (2 ^ 32 - 1) (1 : UInt8)).length + 1 := by
    rw [hW, List.length_replicate, Nat.sub_add_cancel Nat.one_le_two_pow]
  have htrim : trimWindow s.hf.windowSize s.hf.versions s.hf.lastVersions = none := by
    rw [hvs']
    exact trimWindow_eq_none hfull hzero
  exact ⟨s, hr, hW, hcount, hzero, Node.step_addBlock_eq_none hc htrim⟩

end PepePrivate.Hardfork
