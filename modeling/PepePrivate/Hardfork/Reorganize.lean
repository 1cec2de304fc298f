import PepePrivate.Hardfork.Schedule

/-! `reorganize_from_block_height` against the incremental path. On a chain built block by
block from `init`, rebuilding from a height gives back the very state the adds reached: the
rebuilt window is the last `window_size` votes up to that height, the fork index walks down to
the one that was current there, and replaying the later blocks repeats their adds. At height 0
the walk stops at the original version instead of at fork 0, so that height needs every later
fork to lie above the original version. -/

namespace PepePrivate.Hardfork

open Tally

theorem BlockchainDB.setHardForkVersion_of_get {db : BlockchainDB} {k : Nat} {v : UInt8}
    (h : db.getHardForkVersion k = some v) : db.setHardForkVersion k v = db := by
  cases db with
  | mk blocks hfVersions =>
    simp only [BlockchainDB.setHardForkVersion, BlockchainDB.mk.injEq, true_and]
    funext i
    by_cases hi : i = k
    · subst hi
      rw [if_pos rfl]
      exact h.symm
    · simp [hi]

theorem drop_trim_append {α : Type*} {W : Nat} (hW : 0 < W) (l : List α) (a : α) :
    (l.drop (l.length - W)).drop ((l.drop (l.length - W)).length + 1 - W) ++ [a] =
      (l ++ [a]).drop ((l ++ [a]).length - W) := by
  rw [List.drop_drop, List.length_drop, List.length_append, List.length_singleton,
    List.drop_append_of_le_length (by omega)]
  congr 2
  omega

namespace HardFork

/-- The part of the object that no operation on the window changes. -/
structure SameSchedule (hf hf' : HardFork) : Prop where
  windowSize : hf'.windowSize = hf.windowSize
  threshold : hf'.defaultThresholdPercent = hf.defaultThresholdPercent
  original : hf'.originalVersion = hf.originalVersion
  heights : hf'.heights = hf.heights

theorem SameSchedule.refl (hf : HardFork) : SameSchedule hf hf := ⟨rfl, rfl, rfl, rfl⟩

theorem SameSchedule.trans {hf hf' hf'' : HardFork} (h : SameSchedule hf hf')
    (h' : SameSchedule hf' hf'') : SameSchedule hf hf'' :=
  ⟨h'.windowSize.trans h.windowSize, h'.threshold.trans h.threshold,
    h'.original.trans h.original, h'.heights.trans h.heights⟩

theorem SameSchedule.eq {hf hf' : HardFork} (h : SameSchedule hf hf')
    (hv : hf'.versions = hf.versions) (hl : hf'.lastVersions = hf.lastVersions)
    (hi : hf'.currentForkIndex = hf.currentForkIndex) : hf' = hf := by
  obtain ⟨hw, ht, ho, hh⟩ := h
  cases hf
  cases hf'
  simp only at hw ht ho hh hv hl hi
  subst hw ht ho hh hv hl hi
  rfl

theorem SameSchedule.eq_of_tallied {hf hf' : HardFork} (h : SameSchedule hf hf')
    (ht : hf.Tallied) (ht' : hf'.Tallied) (hv : hf'.versions = hf.versions)
    (hi : hf'.currentForkIndex = hf.currentForkIndex) : hf' = hf :=
  h.eq hv (Counts.unique ht' (hv ▸ ht)) hi

theorem getEffectiveVersion_congr {hf hf' : HardFork} (h : hf'.heights = hf.heights) :
    hf'.getEffectiveVersion = hf.getEffectiveVersion := by
  funext v
  simp [getEffectiveVersion, h]

theorem effectiveVotes_congr {hf hf' : HardFork} (h : hf'.heights = hf.heights) :
    hf'.effectiveVotes = hf.effectiveVotes := by
  funext bs
  simp [effectiveVotes, getEffectiveVersion_congr h]

theorem walkDown_eq (hf : HardFork) {sv : UInt8} {i n : Nat} (hi : i ≤ n)
    (hsv : 0 < i → (hf.forkAt i).version ≤ sv)
    (habove : ∀ j, i < j → j ≤ n → sv < (hf.forkAt j).version) : hf.walkDown sv n = i := by
  induction n with
  | zero =>
    simp only [walkDown]
    omega
  | succ n ih =>
    simp only [walkDown]
    by_cases hin : i = n + 1
    · subst hin
      rw [if_neg (UInt8.not_lt.mpr (hsv (by omega)))]
    · rw [if_pos (habove (n + 1) (by omega) le_rfl)]
      exact ih (by omega) fun j hij hjn => habove j hij (by omega)

theorem forkAt_mem_tail (hf : HardFork) {j : Nat} (hj : 0 < j) (hjl : j < hf.heights.length) :
    hf.forkAt j ∈ hf.heights.tail := by
  have hne : hf.heights ≠ [] := List.ne_nil_of_length_pos (by omega)
  obtain ⟨p, ps, hps⟩ := List.exists_cons_of_ne_nil hne
  have hjl' : j - 1 < ps.length := by simp [hps] at hjl; omega
  unfold forkAt
  rw [hps, List.getD_eq_getElem _ _ (by simp; omega), List.tail_cons]
  have hj' : j < (p :: ps).length := by simp; omega
  have he : (p :: ps)[j] = ps[j - 1] := by
    rw [← List.getElem_cons_succ p ps (j - 1) (by simpa using hjl')]
    congr 1
    omega
  rw [he]
  exact List.getElem_mem hjl'

theorem withPlaceholder_heights_tail (hf : HardFork) :
    hf.withPlaceholder.heights.tail = hf.heights.tail := by
  unfold withPlaceholder
  split_ifs with h
  · simp [pushFork, h]
  · rfl

theorem add_db (hf : HardFork) (db D : BlockchainDB) (bv vv : UInt8) (height : Nat) :
    hf.add D bv vv height = (hf.add db bv vv height).map fun r =>
      (r.1, r.2.1, if r.1 then D.setHardForkVersion height hf.currentParams.version else D) := by
  unfold add
  cases hf.doCheck bv vv
  · simp
  · cases trimWindow hf.windowSize hf.versions hf.lastVersions <;> simp

theorem add_sameSchedule {hf hf' : HardFork} {db db' : BlockchainDB} {bv vv : UInt8}
    {height : Nat} (h : hf.add db bv vv height = some (true, hf', db')) : SameSchedule hf hf' := by
  obtain ⟨vs, c, rfl, -⟩ := add_eq_some_true h
  exact ⟨by simp, by simp, by simp, by simp⟩

end HardFork

namespace Node

theorem addChain_append (s : Node) (l₁ l₂ : List Block) :
    s.addChain (l₁ ++ l₂) = (s.addChain l₁).bind (·.addChain l₂) := by
  induction l₁ generalizing s with
  | nil => simp [addChain]
  | cons b l₁ ih =>
    simp only [List.cons_append, addChain]
    split <;> simp [ih]

/-- What a run of accepted adds keeps: the schedule, the rows already recorded, a fork index
that only rises and stays inside the schedule. -/
structure Extends (s s' : Node) : Prop where
  schedule : s.hf.SameSchedule s'.hf
  index_le : s.hf.currentForkIndex ≤ s'.hf.currentForkIndex
  index_lt : s.hf.currentForkIndex < s.hf.heights.length →
    s'.hf.currentForkIndex < s'.hf.heights.length
  rows : ∀ k < s.db.height, s'.db.getHardForkVersion k = s.db.getHardForkVersion k
  height_le : s.db.height ≤ s'.db.height

theorem Extends.refl (s : Node) : Extends s s :=
  ⟨.refl _, le_rfl, id, fun _ _ => rfl, le_rfl⟩

theorem Extends.trans {s s' s'' : Node} (h : Extends s s') (h' : Extends s' s'') :
    Extends s s'' :=
  ⟨h.schedule.trans h'.schedule, h.index_le.trans h'.index_le, fun hi => h'.index_lt (h.index_lt hi),
    fun k hk => (h'.rows k (by have := h.height_le; omega)).trans (h.rows k hk),
    h.height_le.trans h'.height_le⟩

theorem extends_add {s : Node} {b : Block} {hf : HardFork} {db : BlockchainDB}
    (h : s.hf.addBlock s.db b s.db.height = some (true, hf, db)) :
    Extends s ⟨hf, db.addBlock b⟩ := by
  obtain ⟨hH, -, rfl, hidx⟩ := HardFork.add_index h
  refine ⟨HardFork.add_sameSchedule h, ?_, ?_, ?_, by simp⟩
  · rcases hidx with he | ⟨hlt, -, -⟩
    · exact he.ge
    · exact hlt.le
  · intro hi
    show hf.currentForkIndex < hf.heights.length
    rw [hH]
    rcases hidx with he | ⟨-, hlen, -⟩
    · exact he ▸ hi
    · exact hlen
  · intro k hk
    simp [Nat.ne_of_lt hk]

theorem addChain_extends {s s' : Node} {bs : List Block} (h : s.addChain bs = some s') :
    Extends s s' := by
  induction bs generalizing s with
  | nil =>
    simp only [addChain, Option.some.injEq] at h
    exact h ▸ Extends.refl s
  | cons b bs ih =>
    obtain ⟨hf, db, hadd, hrest⟩ := addChain_cons h
    exact (extends_add hadd).trans (ih hrest)

theorem addChain_blocks {s s' : Node} {bs : List Block} (h : s.addChain bs = some s') :
    s'.db.blocks = s.db.blocks ++ bs := by
  induction bs generalizing s with
  | nil =>
    simp only [addChain, Option.some.injEq] at h
    simp [h]
  | cons b bs ih =>
    obtain ⟨hf, db, hadd, hrest⟩ := addChain_cons h
    obtain ⟨-, -, rfl, -⟩ := HardFork.add_index hadd
    simp [ih hrest, BlockchainDB.addBlock]

/-- The window of a chain built by accepted adds is the last `window_size` effective votes of
its blocks, with an exact tally. -/
structure Windowed (s : Node) : Prop where
  tallied : s.hf.Tallied
  versions_eq : s.hf.versions =
    (s.hf.effectiveVotes s.db.blocks).drop (s.db.blocks.length - s.hf.windowSize)

theorem Windowed.windowOk {s : Node} (hs : s.Windowed) : s.hf.WindowOk := by
  refine ⟨hs.tallied, ?_⟩
  rw [hs.versions_eq, List.length_drop, HardFork.effectiveVotes, List.length_map]
  omega

theorem Windowed.add {s : Node} {b : Block} {hf : HardFork} {db : BlockchainDB}
    (hs : s.Windowed) (h : s.hf.addBlock s.db b s.db.height = some (true, hf, db)) :
    Windowed ⟨hf, db.addBlock b⟩ := by
  obtain ⟨hw, -, -, hb, -, -⟩ := HardFork.add_frame h hs.windowOk
  have hsch := HardFork.add_sameSchedule h
  rcases HardFork.add_eq_some h with ⟨-, he⟩ | ⟨-, vs, c, ht, he⟩
  · simp at he
  simp only [Prod.mk.injEq, true_and] at he
  obtain ⟨rfl, -⟩ := he
  obtain ⟨rfl, -⟩ := trimWindow_eq_some ht
  refine ⟨hw.tallied, ?_⟩
  show _ = (HardFork.effectiveVotes _ (db.blocks ++ [b])).drop _
  simp only [HardFork.raiseToVoted_versions, HardFork.pushVotes_versions,
    HardFork.withWindow_versions, HardFork.raiseToVoted_windowSize, HardFork.pushVotes_windowSize,
    HardFork.withWindow_windowSize, hb, HardFork.effectiveVotes_congr hsch.heights]
  rw [hs.versions_eq, HardFork.effectiveVotes, HardFork.effectiveVotes, List.map_append,
    List.map_singleton]
  simpa [hb] using drop_trim_append s.hf.windowSize_pos (s.db.blocks.map fun b =>
    s.hf.getEffectiveVersion (getBlockVote b)) (s.hf.getEffectiveVersion (getBlockVote b))

theorem Windowed.addChain {s s' : Node} {bs : List Block} (hs : s.Windowed)
    (h : s.addChain bs = some s') : s'.Windowed := by
  induction bs generalizing s with
  | nil =>
    simp only [Node.addChain, Option.some.injEq] at h
    exact h ▸ hs
  | cons b bs ih =>
    obtain ⟨hf, db, hadd, hrest⟩ := addChain_cons h
    exact ih (hs.add hadd) hrest

theorem windowed_start (hf : HardFork) :
    Windowed ⟨(hf.withPlaceholder.clearWindow).setForkIndex 0, .empty⟩ :=
  ⟨(HardFork.tallied_clearWindow _).setForkIndex 0,
    by simp [BlockchainDB.empty, HardFork.effectiveVotes]⟩

theorem replayAdds_of_addChain {s s' : Node} {bs : List Block} (h : s.addChain bs = some s')
    (D : BlockchainDB)
    (hD : ∀ k, s.db.height ≤ k → k < s'.db.height →
      D.getHardForkVersion k = s'.db.getHardForkVersion k) :
    s.hf.replayAdds D s.db.height bs = some (s'.hf, D) := by
  induction bs generalizing s with
  | nil =>
    simp only [Node.addChain, Option.some.injEq] at h
    subst h
    simp [HardFork.replayAdds]
  | cons b bs ih =>
    obtain ⟨hf, db, hadd, hrest⟩ := addChain_cons h
    have hext := addChain_extends hrest
    obtain ⟨-, -, rfl, -⟩ := HardFork.add_index hadd
    have hlt : s.db.height < s'.db.height := by
      have := hext.height_le
      simp only [BlockchainDB.height_addBlock, BlockchainDB.height_setHardForkVersion] at this
      omega
    have hrow : D.getHardForkVersion s.db.height = some s.hf.currentParams.version := by
      rw [hD s.db.height le_rfl hlt, hext.rows s.db.height (by simp)]
      simp
    have hadd' : s.hf.addBlock D b s.db.height = some (true, hf, D) := by
      rw [HardFork.addBlock, HardFork.add_db _ s.db D, ← HardFork.addBlock, hadd]
      simp [BlockchainDB.setHardForkVersion_of_get hrow]
    have hnext := ih hrest fun k hk hk' => hD k (by simp at hk; omega) hk'
    simp only [BlockchainDB.height_addBlock, BlockchainDB.height_setHardForkVersion] at hnext
    simp only [HardFork.replayAdds, hadd', hnext]

theorem rescanHeight_eq {W : Nat} (hW : 0 < W) (height : Nat) :
    HardFork.rescanHeight W height = height + 1 - W := by
  unfold HardFork.rescanHeight
  split_ifs <;> omega

theorem rebuildTo_eq {s t : Node} {b : Block} {hf₁ : HardFork} {db₁ : BlockchainDB} {sv : UInt8}
    (hs : s.Windowed) (hadd : s.hf.addBlock s.db b s.db.height = some (true, hf₁, db₁))
    (hsch : s.hf.SameSchedule t.hf)
    (hblocks : t.db.blocks.take (s.db.height + 1) = s.db.blocks ++ [b])
    (hwalk : t.hf.clearWindow.walkDown sv t.hf.currentForkIndex = s.hf.currentForkIndex) :
    t.hf.clearWindow.rebuildTo t.db s.db.height sv = hf₁ := by
  have hw₁ : Windowed ⟨hf₁, db₁.addBlock b⟩ := hs.add hadd
  have hsch₁ := HardFork.add_sameSchedule hadd
  obtain ⟨vs, c, rfl, rfl⟩ := HardFork.add_eq_some_true hadd
  have hY : (((s.hf.withWindow vs c).pushVotes
      [s.hf.getEffectiveVersion (getBlockVote b)])).Tallied := by
    simpa [HardFork.Tallied] using hw₁.tallied
  have hv := hw₁.versions_eq
  simp only [HardFork.raiseToVoted_versions, BlockchainDB.blocks_addBlock,
    BlockchainDB.blocks_setHardForkVersion, HardFork.raiseToVoted_windowSize,
    HardFork.pushVotes_windowSize, HardFork.withWindow_windowSize,
    HardFork.effectiveVotes_congr hsch₁.heights] at hv
  simp only [HardFork.rebuildTo, HardFork.clearWindow_currentForkIndex, hwalk]
  congr 1
  refine (HardFork.SameSchedule.eq_of_tallied ?_ hY
    (((HardFork.tallied_clearWindow _).setForkIndex _).pushVotes _) ?_ (by simp))
  · exact ⟨by simp [hsch.windowSize], by simp [hsch.threshold], by simp [hsch.original],
      by simp [hsch.heights]⟩
  · have hE : (t.hf.clearWindow.setForkIndex s.hf.currentForkIndex).effectiveVotes =
        s.hf.effectiveVotes := HardFork.effectiveVotes_congr (by simp [hsch.heights])
    rw [hv]
    simp only [HardFork.pushVotes_versions, HardFork.setForkIndex_versions,
      HardFork.clearWindow_versions, List.nil_append, HardFork.setForkIndex_windowSize,
      HardFork.clearWindow_windowSize, hsch.windowSize, rescanHeight_eq s.hf.windowSize_pos,
      hblocks, hE]
    simp only [HardFork.effectiveVotes, List.map_drop, List.length_append, List.length_singleton,
      BlockchainDB.height]

theorem walkDown_to_index {sh s : Node} (hext : Extends sh s)
    (hlt : sh.hf.currentForkIndex < sh.hf.heights.length) {sv : UInt8}
    (hsv : 0 < sh.hf.currentForkIndex → (sh.hf.forkAt sh.hf.currentForkIndex).version ≤ sv)
    (habove : ∀ j, sh.hf.currentForkIndex < j → j < sh.hf.heights.length →
      sv < (sh.hf.forkAt j).version) :
    s.hf.clearWindow.walkDown sv s.hf.currentForkIndex = sh.hf.currentForkIndex := by
  have hH : s.hf.clearWindow.heights = sh.hf.heights := by simp [hext.schedule.heights]
  have hn := hext.index_lt hlt
  rw [hext.schedule.heights] at hn
  apply HardFork.walkDown_eq _ hext.index_le
  · rw [HardFork.forkAt_congr hH]
    exact hsv
  · intro j hj hjn
    rw [HardFork.forkAt_congr hH]
    exact habove j hj (by omega)

end Node

/-- Reorganising from any height of a chain built block by block from `init` returns the state
the adds reached, database included; at height 0 provided every fork after the first has a
version above the original one. -/
theorem reorganize_eq_incremental {hf : HardFork} {bs : List Block} {s : Node}
    (hrun : (Node.start hf).bind (·.addChain bs) = some s) :
    ∀ h < bs.length, (h = 0 → ∀ p ∈ hf.heights.tail, hf.originalVersion < p.version) →
      s.hf.reorganizeFromBlockHeight s.db h = some (true, s.hf, s.db) := by
  intro h hh hsched
  rw [Node.start_eq, Option.bind_some] at hrun
  set s₀ : Node := ⟨(hf.withPlaceholder.clearWindow).setForkIndex 0, .empty⟩ with hs₀
  have hsplit : bs = bs.take h ++ bs[h] :: bs.drop (h + 1) := by
    rw [List.getElem_cons_drop, List.take_append_drop]
  rw [hsplit, Node.addChain_append] at hrun
  obtain ⟨sh, hsh, hrest⟩ := Option.bind_eq_some_iff.mp hrun
  obtain ⟨hf₁, db₁, hadd, hrest'⟩ := Node.addChain_cons hrest
  obtain ⟨-, -, hdb₁, -⟩ := HardFork.add_index hadd
  have hext₀ := Node.addChain_extends hsh
  have hext₂ := Node.addChain_extends hrest'
  have hext := (Node.extends_add hadd).trans hext₂
  have hbh : sh.db.blocks = bs.take h := by
    simpa [s₀, BlockchainDB.empty] using Node.addChain_blocks hsh
  have hhh : sh.db.height = h := by
    rw [BlockchainDB.height, hbh, List.length_take]
    omega
  have hbs : s.db.blocks = bs := by
    rw [Node.addChain_blocks hrest', BlockchainDB.blocks_addBlock, hdb₁,
      BlockchainDB.blocks_setHardForkVersion, hbh, List.append_assoc, List.singleton_append,
      List.getElem_cons_drop, List.take_append_drop]
  have hlt₀ : s₀.hf.currentForkIndex < s₀.hf.heights.length := (Node.scheduled_start hf).index_lt
  obtain ⟨sv, hsv, hwalk⟩ : ∃ sv, s.hf.clearWindow.reorganizeStartVersion s.db h = some sv ∧
      s.hf.clearWindow.walkDown sv s.hf.currentForkIndex = sh.hf.currentForkIndex := by
    by_cases h0 : h = 0
    · subst h0
      have hsh₀ : sh = s₀ := by simpa [Node.addChain] using hsh.symm
      subst hsh₀
      refine ⟨hf.originalVersion, ?_, Node.walkDown_to_index hext hlt₀ (by simp [s₀]) ?_⟩
      · simp [HardFork.reorganizeStartVersion, hext.schedule.original, s₀]
      · intro j hj hjl
        have hmem := s₀.hf.forkAt_mem_tail (by omega) hjl
        simp only [s₀, HardFork.setForkIndex_heights, HardFork.clearWindow_heights,
          HardFork.withPlaceholder_heights_tail] at hmem
        exact hsched rfl _ hmem
    · refine ⟨sh.hf.currentParams.version, ?_, Node.walkDown_to_index hext
        (hext₀.index_lt hlt₀) (fun _ => UInt8.le_refl _)
        (fun j hj hjl => (sh.hf.forkAt_lt hj hjl).1)⟩
      simp only [HardFork.reorganizeStartVersion, h0, if_false]
      rw [hext₂.rows h (by simp [hdb₁, hhh])]
      simp [hdb₁, hhh]
  have hrebuild : s.hf.clearWindow.rebuildTo s.db h sv = hf₁ := by
    have hblocks : s.db.blocks.take (sh.db.height + 1) = sh.db.blocks ++ [bs[h]] := by
      rw [hbs, hhh, hbh, List.take_succ_eq_append_getElem hh]
    have := Node.rebuildTo_eq ((Node.windowed_start hf).addChain hsh) hadd hext.schedule hblocks
      hwalk
    rwa [hhh] at this
  have hreplay := Node.replayAdds_of_addChain hrest' s.db fun _ _ _ => rfl
  simp only [BlockchainDB.height_addBlock, hdb₁, BlockchainDB.height_setHardForkVersion,
    hhh] at hreplay
  have hlt : ¬ h ≥ s.db.height := by
    rw [BlockchainDB.height, hbs]
    omega
  simp only [HardFork.reorganizeFromBlockHeight, hlt, if_false, hsv, hrebuild, hbs, hreplay,
    Option.map_some]

theorem reorganize_eq_incremental_mainnet :
    let hf := HardFork.mainnet.get (by decide)
    let bs : List Block := [⟨1, 0⟩, ⟨15, 15⟩]
    let s := ((Node.start hf).bind (·.addChain bs)).get (by decide)
    (Node.start hf).bind (·.addChain bs) = some s ∧ 0 < bs.length ∧
      (0 = 0 → ∀ p ∈ hf.heights.tail, hf.originalVersion < p.version) ∧
      s.hf.reorganizeFromBlockHeight s.db 0 = some (true, s.hf, s.db) := by
  intro hf bs s
  have hrun : (Node.start hf).bind (·.addChain bs) = some s := (Option.some_get _).symm
  have hsched : 0 = 0 → ∀ p ∈ hf.heights.tail, hf.originalVersion < p.version :=
    fun _ => by decide
  exact ⟨hrun, by decide, hsched, reorganize_eq_incremental hrun 0 (by decide) hsched⟩

/-- With the original version above the first forks, reorganising from height 0 stops the walk
at fork 1 instead of fork 0: the add of block 1 is then refused and its vote is lost. -/
theorem reorganize_at_zero_loses_votes :
    let hf := ((HardFork.new 3 3 80).bind fun hf =>
      (hf.addFork 1 0 0 0).bind fun hf => hf.addFork 2 2 0 1).get (by decide)
    let s := ((Node.start hf).bind (·.addChain [⟨1, 1⟩, ⟨1, 2⟩, ⟨2, 2⟩])).get (by decide)
    s.hf.versions = [1, 2, 2] ∧
      (s.hf.reorganizeFromBlockHeight s.db 0).map (fun r => r.2.1.versions) = some [1, 2] := by
  decide

end PepePrivate.Hardfork
