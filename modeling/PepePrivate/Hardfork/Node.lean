import PepePrivate.Hardfork.Window

/-! The hard-fork object together with its database, as `Blockchain` drives them: blocks are
added at the next height once `check` accepts them, blocks are popped, the chain is
reorganised, and `init` rescans. This module shows what each operation does to the window. -/

namespace PepePrivate.Hardfork

open Tally

namespace BlockchainDB

def HasVersions (db : BlockchainDB) : Prop :=
  ∀ h < db.height, (db.getHardForkVersion h).isSome

theorem HasVersions.set {db : BlockchainDB} (h : db.HasVersions) (k : Nat) (v : UInt8) :
    (db.setHardForkVersion k v).HasVersions := by
  intro i hi
  by_cases hik : i = k <;> simp [hik, h i hi]

theorem HasVersions.addBlock {db : BlockchainDB} (h : db.HasVersions) (v : UInt8) (b : Block) :
    ((db.setHardForkVersion db.height v).addBlock b).HasVersions := by
  intro i hi
  simp only [height_addBlock, height_setHardForkVersion] at hi
  by_cases hik : i = db.height
  · simp [getHardForkVersion, setHardForkVersion, hik]
  · simpa [addBlock, getHardForkVersion, setHardForkVersion, hik] using h i (by omega)

theorem HasVersions.removeBlocks {db : BlockchainDB} (h : db.HasVersions) (n : Nat) :
    (db.removeBlocks n).HasVersions := by
  intro i hi
  simpa [removeBlocks, getHardForkVersion] using h i (by simp at hi; omega)

end BlockchainDB

namespace HardFork

/-- An exact tally over at most `window_size` votes. -/
structure WindowOk (hf : HardFork) : Prop where
  tallied : hf.Tallied
  length_le : hf.versions.length ≤ hf.windowSize

theorem add_eq_some {hf : HardFork} {db : BlockchainDB} {bv vv : UInt8} {height : Nat}
    {r : Bool × HardFork × BlockchainDB} (h : hf.add db bv vv height = some r) :
    (hf.doCheck bv vv = false ∧ r = (false, hf, db)) ∨
    (hf.doCheck bv vv = true ∧ ∃ vs c,
      trimWindow hf.windowSize hf.versions hf.lastVersions = some (vs, c) ∧
      r = (true, ((hf.withWindow vs c).pushVotes [hf.getEffectiveVersion vv]).raiseToVoted
        (height + 1), db.setHardForkVersion height hf.currentParams.version)) := by
  unfold add at h
  cases hc : hf.doCheck bv vv
  · simp only [hc, Bool.not_false, if_true, Option.some.injEq] at h
    exact .inl ⟨rfl, h.symm⟩
  · simp only [hc, Bool.not_true, Bool.false_eq_true, if_false] at h
    split at h
    · cases h
    · rename_i vs c ht
      exact .inr ⟨rfl, vs, c, ht, (Option.some.inj h).symm⟩

theorem add_isSome {hf : HardFork} (db : BlockchainDB) (bv vv : UInt8) (height : Nat)
    (ht : hf.Tallied) (hl : hf.versions.length < 2 ^ 32) : (hf.add db bv vv height).isSome := by
  unfold add
  cases hc : hf.doCheck bv vv
  · simp
  · obtain ⟨⟨vs, c⟩, hs⟩ := Option.isSome_iff_exists.mp (trimWindow_isSome (W := hf.windowSize) ht hl)
    simp [hs]

theorem add_frame {hf hf' : HardFork} {db db' : BlockchainDB} {bv vv : UInt8} {height : Nat}
    {ok : Bool} (h : hf.add db bv vv height = some (ok, hf', db')) (hw : hf.WindowOk) :
    hf'.WindowOk ∧ hf'.windowSize = hf.windowSize ∧ hf'.heights = hf.heights ∧
      db'.blocks = db.blocks ∧
      (∀ k, (db.getHardForkVersion k).isSome → (db'.getHardForkVersion k).isSome) ∧
      (hf.versions ≠ [] → hf'.versions ≠ []) := by
  rcases add_eq_some h with ⟨-, he⟩ | ⟨-, vs, c, ht, he⟩
  · simp only [Prod.mk.injEq] at he
    obtain ⟨-, rfl, rfl⟩ := he
    exact ⟨hw, rfl, rfl, rfl, fun _ hk => hk, id⟩
  · simp only [Prod.mk.injEq] at he
    obtain ⟨-, rfl, rfl⟩ := he
    obtain ⟨rfl, hcnt⟩ := trimWindow_eq_some ht
    have hlt := length_drop_trim_lt hf.windowSize_pos hf.versions
    refine ⟨⟨?_, ?_⟩, by simp, by simp, rfl, ?_, by simp⟩
    · have ht' : (hf.withWindow (hf.versions.drop (hf.versions.length + 1 - hf.windowSize))
          c).Tallied := hcnt hw.tallied
      exact (ht'.pushVotes _).raiseToVoted _
    · simp only [raiseToVoted_versions, pushVotes_versions, withWindow_versions,
        List.length_append, List.length_singleton, raiseToVoted_windowSize, pushVotes_windowSize,
        withWindow_windowSize]
      omega
    · intro k hk
      by_cases hkh : k = height <;> simp [hkh, hk]

theorem replayAdds_isSome {hf : HardFork} {db : BlockchainDB} {height : Nat} {bs : List Block}
    (hw : hf.WindowOk) (hW : hf.windowSize < 2 ^ 32) : (hf.replayAdds db height bs).isSome := by
  induction bs generalizing hf db height with
  | nil => simp [replayAdds]
  | cons b bs ih =>
    obtain ⟨⟨ok, hf', db'⟩, hadd⟩ := Option.isSome_iff_exists.mp
      (add_isSome db (getBlockVersion b) (getBlockVote b) height hw.tallied
        (by have := hw.length_le; omega))
    obtain ⟨hw', hsize, -⟩ := add_frame hadd hw
    simp only [replayAdds, addBlock, hadd]
    exact ih hw' (by omega)

theorem replayAdds_frame {hf hf' : HardFork} {db db' : BlockchainDB} {height : Nat}
    {bs : List Block} (h : hf.replayAdds db height bs = some (hf', db')) (hw : hf.WindowOk) :
    hf'.WindowOk ∧ hf'.windowSize = hf.windowSize ∧ db'.blocks = db.blocks ∧
      (∀ k, (db.getHardForkVersion k).isSome → (db'.getHardForkVersion k).isSome) ∧
      (hf.versions ≠ [] → hf'.versions ≠ []) := by
  induction bs generalizing hf db height with
  | nil =>
    simp only [replayAdds, Option.some.injEq, Prod.mk.injEq] at h
    obtain ⟨rfl, rfl⟩ := h
    exact ⟨hw, rfl, rfl, fun _ hk => hk, id⟩
  | cons b bs ih =>
    simp only [replayAdds] at h
    split at h
    · cases h
    · rename_i ok hf₁ db₁ hadd
      obtain ⟨hw₁, hs₁, -, hb₁, hr₁, hn₁⟩ := add_frame hadd hw
      obtain ⟨hw', hs', hb', hr', hn'⟩ := ih h hw₁
      exact ⟨hw', hs'.trans hs₁, hb'.trans hb₁, fun k hk => hr' k (hr₁ k hk),
        fun hne => hn' (hn₁ hne)⟩

theorem rescanFromBlockHeight_eq_some {hf hf' : HardFork} {db : BlockchainDB} {height : Nat}
    {ok : Bool} (h : hf.rescanFromBlockHeight db height = some (ok, hf')) :
    (height ≥ db.height ∧ hf' = hf) ∨
    (height < db.height ∧ hf'.versions = hf.effectiveVotes (db.blocks.drop height) ∧
      hf'.Tallied ∧ hf'.windowSize = hf.windowSize ∧ hf'.heights = hf.heights) := by
  unfold rescanFromBlockHeight at h
  split_ifs at h with hh
  · simp only [Option.some.injEq, Prod.mk.injEq] at h
    exact .inl ⟨hh, h.2.symm⟩
  · split at h
    · cases h
    · simp only [Option.some.injEq, Prod.mk.injEq] at h
      obtain ⟨-, rfl⟩ := h
      refine .inr ⟨by omega, by simp [effectiveVotes], ?_, by simp, by simp⟩
      exact (((tallied_clearWindow hf).pushVotes _).setForkIndex _).raiseToVoted _

theorem rescanFromBlockHeight_isSome {hf : HardFork} {db : BlockchainDB} (height : Nat)
    (hdb : db.HasVersions) : (hf.rescanFromBlockHeight db height).isSome := by
  unfold rescanFromBlockHeight
  split_ifs with hh
  · rfl
  · obtain ⟨v, hv⟩ := Option.isSome_iff_exists.mp (hdb (db.height - 1) (by omega))
    simp [hv]

@[simp] theorem withPlaceholder_windowSize (hf : HardFork) :
    hf.withPlaceholder.windowSize = hf.windowSize := by
  unfold withPlaceholder; split_ifs <;> rfl

theorem withPlaceholder_heights_ne_nil (hf : HardFork) : hf.withPlaceholder.heights ≠ [] := by
  unfold withPlaceholder
  split_ifs with h
  · simp [pushFork]
  · exact h

theorem initHeight_pos (W h : Nat) : 0 < initHeight W h := by
  unfold initHeight; split_ifs <;> omega

theorem init_isSome {hf : HardFork} {db : BlockchainDB} (hdb : db.HasVersions) :
    (hf.init db).isSome := by
  simp only [init, rescanFromChainHeight, (initHeight_pos _ _).ne', if_false, Option.isSome_map]
  exact rescanFromBlockHeight_isSome _ hdb

theorem init_frame {hf hf' : HardFork} {db : BlockchainDB} (h : hf.init db = some hf') :
    hf'.WindowOk ∧ hf'.windowSize = hf.windowSize ∧ hf'.heights ≠ [] ∧
      (0 < db.height → hf'.versions ≠ []) := by
  set hf₀ := (hf.withPlaceholder.clearWindow).setForkIndex 0 with hhf₀
  have hW : hf₀.windowSize = hf.windowSize := by simp [hf₀]
  have hne : hf₀.heights ≠ [] := by simpa [hf₀] using withPlaceholder_heights_ne_nil hf
  have hw₀ : hf₀.WindowOk := ⟨(tallied_clearWindow _).setForkIndex 0, by simp [hf₀]⟩
  have hpos := hf₀.windowSize_pos
  simp only [init, rescanFromChainHeight, (initHeight_pos _ _).ne', if_false,
    Option.map_eq_some_iff] at h
  rw [← hhf₀] at h
  obtain ⟨⟨ok, hf₁⟩, hr, rfl⟩ := h
  rcases rescanFromBlockHeight_eq_some hr with ⟨hge, rfl⟩ | ⟨hlt, hvs, ht, hsz, hhs⟩
  · refine ⟨hw₀, hW, hne, fun hdb => ?_⟩
    unfold initHeight at hge
    split_ifs at hge <;> omega
  · unfold BlockchainDB.height at hlt
    refine ⟨⟨ht, ?_⟩, hsz.trans hW, by rw [hhs]; exact hne, fun _ => ?_⟩
    · rw [hvs, hsz, effectiveVotes, List.length_map, List.length_drop]
      unfold initHeight BlockchainDB.height
      split_ifs <;> omega
    · rw [hvs, effectiveVotes, ← List.length_pos_iff, List.length_map, List.length_drop]
      unfold BlockchainDB.height
      omega

theorem rebuildTo_frame (hf : HardFork) {db : BlockchainDB} {height : Nat} (sv : UInt8)
    (hh : height < db.height) :
    (hf.clearWindow.rebuildTo db height sv).WindowOk ∧
      (hf.clearWindow.rebuildTo db height sv).versions ≠ [] ∧
      (hf.clearWindow.rebuildTo db height sv).windowSize = hf.windowSize := by
  have hW := hf.windowSize_pos
  have hlen : (db.blocks.take (height + 1)).length = height + 1 := by
    simp only [List.length_take]; unfold BlockchainDB.height at hh; omega
  have hr : ((db.blocks.take (height + 1)).drop (rescanHeight hf.windowSize height)).length
      = height + 1 - rescanHeight hf.windowSize height := by
    rw [List.length_drop, hlen]
  have hle : height + 1 - rescanHeight hf.windowSize height ≤ hf.windowSize := by
    unfold rescanHeight; split_ifs <;> omega
  have hpos : 0 < height + 1 - rescanHeight hf.windowSize height := by
    unfold rescanHeight; split_ifs <;> omega
  have hvs : (hf.clearWindow.rebuildTo db height sv).versions.length =
      height + 1 - rescanHeight hf.windowSize height := by
    simp only [rebuildTo, raiseToVoted_versions, pushVotes_versions, setForkIndex_versions,
      clearWindow_versions, List.nil_append, effectiveVotes, List.length_map,
      setForkIndex_windowSize, clearWindow_windowSize, hr]
  have hsz : (hf.clearWindow.rebuildTo db height sv).windowSize = hf.windowSize := by
    simp [rebuildTo]
  have ht : (hf.clearWindow.rebuildTo db height sv).Tallied :=
    (((tallied_clearWindow hf).setForkIndex _).pushVotes _).raiseToVoted _
  refine ⟨⟨ht, by omega⟩, ?_, hsz⟩
  rw [← List.length_pos_iff]
  omega

theorem reorganize_isSome {hf : HardFork} {db : BlockchainDB} (height : Nat)
    (hW : hf.windowSize < 2 ^ 32) (hdb : db.HasVersions) :
    (hf.reorganizeFromBlockHeight db height).isSome := by
  by_cases hh : height ≥ db.height
  · simp [reorganizeFromBlockHeight, hh]
  · have hsv : (hf.clearWindow.reorganizeStartVersion db height).isSome := by
      unfold reorganizeStartVersion
      split_ifs
      · rfl
      · exact hdb height (by omega)
    obtain ⟨sv, hsv⟩ := Option.isSome_iff_exists.mp hsv
    obtain ⟨hw, -, hsz⟩ := rebuildTo_frame hf sv (Nat.lt_of_not_le hh)
    simp only [reorganizeFromBlockHeight, hh, if_false, hsv, Option.isSome_map]
    exact replayAdds_isSome hw (hsz ▸ hW)

theorem reorganize_frame {hf hf' : HardFork} {db db' : BlockchainDB} {height : Nat} {ok : Bool}
    (h : hf.reorganizeFromBlockHeight db height = some (ok, hf', db')) (hw : hf.WindowOk) :
    hf'.WindowOk ∧ hf'.windowSize = hf.windowSize ∧ db'.blocks = db.blocks ∧
      (∀ k, (db.getHardForkVersion k).isSome → (db'.getHardForkVersion k).isSome) ∧
      (hf.versions ≠ [] → hf'.versions ≠ []) ∧ (ok → hf'.versions ≠ []) := by
  by_cases hh : height ≥ db.height
  · simp only [reorganizeFromBlockHeight, hh, if_true, Option.some.injEq, Prod.mk.injEq] at h
    obtain ⟨rfl, rfl, rfl⟩ := h
    exact ⟨hw, rfl, rfl, fun _ hk => hk, id, by simp⟩
  · simp only [reorganizeFromBlockHeight, hh, if_false] at h
    split at h
    · cases h
    · rename_i sv _
      obtain ⟨⟨hf₁, db₁⟩, hr, he⟩ := Option.map_eq_some_iff.mp h
      simp only [Prod.mk.injEq] at he
      obtain ⟨rfl, rfl, rfl⟩ := he
      obtain ⟨hw₀, hne₀, hsz₀⟩ := rebuildTo_frame hf sv (Nat.lt_of_not_le hh)
      obtain ⟨hw', hsz', hb', hr', hn'⟩ := replayAdds_frame hr hw₀
      exact ⟨hw', hsz'.trans hsz₀, hb', hr', fun _ => hn' hne₀, fun _ => hn' hne₀⟩

end HardFork

end PepePrivate.Hardfork
