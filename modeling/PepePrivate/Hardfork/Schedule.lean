import PepePrivate.Hardfork.Consistency

/-! The fork schedule and the versions recorded for the blocks of a chain. The fork index only
moves up, and only to a fork whose height the chain has reached. So the version recorded for a
block is scheduled and never decreases along the chain; it is at most the ideal version of its
height exactly when the first fork's version is not above the original version, since
`get_ideal_version` never looks at fork 0. -/

namespace PepePrivate.Hardfork

namespace HardFork

theorem heights_pairwise (hf : HardFork) : hf.heights.Pairwise ForkOrder :=
  List.isChain_iff_pairwise.mp hf.heights_ordered

theorem forkAt_lt (hf : HardFork) {i j : Nat} (hij : i < j) (hj : j < hf.heights.length) :
    ForkOrder (hf.forkAt i) (hf.forkAt j) := by
  unfold forkAt
  rw [List.getD_eq_getElem _ _ (by omega), List.getD_eq_getElem _ _ hj]
  exact List.pairwise_iff_getElem.mp hf.heights_pairwise i j (by omega) hj hij

theorem forkAt_version_le (hf : HardFork) {i j : Nat} (hij : i ≤ j) (hj : j < hf.heights.length) :
    (hf.forkAt i).version ≤ (hf.forkAt j).version := by
  rcases Nat.lt_or_eq_of_le hij with hlt | rfl
  · exact UInt8.le_of_lt (hf.forkAt_lt hlt hj).1
  · exact UInt8.le_refl _

theorem forkAt_mem (hf : HardFork) {i : Nat} (hi : i < hf.heights.length) :
    hf.forkAt i ∈ hf.heights := by
  unfold forkAt
  rw [List.getD_eq_getElem _ _ hi]
  exact List.getElem_mem hi

theorem forkAt_congr {hf hf' : HardFork} (h : hf'.heights = hf.heights) :
    hf'.forkAt = hf.forkAt := by
  funext n
  simp [forkAt, h]

theorem getIdealVersion_congr {hf hf' : HardFork} (h : hf'.heights = hf.heights)
    (ho : hf'.originalVersion = hf.originalVersion) : hf'.getIdealVersion = hf.getIdealVersion := by
  funext height
  unfold getIdealVersion
  rw [h]
  induction hf.heights.length - 1 with
  | zero => simp [idealVersionLoop, ho]
  | succ n ih => simp [idealVersionLoop, forkAt_congr h, ih]

theorem heights_length_le (hf : HardFork) : hf.heights.length ≤ 256 := by
  have hp : (hf.heights.map fun p => p.version.toNat).Pairwise (· < ·) := by
    rw [List.pairwise_map]
    exact hf.heights_pairwise.imp fun h => UInt8.lt_iff_toNat_lt.mp h.1
  have hsub : (hf.heights.map fun p => p.version.toNat) ⊆ List.range 256 := by
    intro n hn
    obtain ⟨p, -, rfl⟩ := List.mem_map.mp hn
    simpa using p.version.toNat_lt
  simpa using (List.Nodup.subperm (hp.imp Nat.ne_of_lt) hsub).length_le

theorem votedForkIndexLoop_cases (hf : HardFork) (height n : Nat) (acc : UInt32) :
    hf.votedForkIndexLoop height n acc = hf.currentForkIndex ∨
      (0 < hf.votedForkIndexLoop height n acc ∧ hf.votedForkIndexLoop height n acc ≤ n ∧
        (hf.forkAt (hf.votedForkIndexLoop height n acc)).height ≤ height) := by
  induction n generalizing acc with
  | zero => simp [votedForkIndexLoop]
  | succ n ih =>
    simp only [votedForkIndexLoop]
    split_ifs with hv
    · simp only [Bool.and_eq_true, decide_eq_true_eq] at hv
      exact .inr ⟨by omega, le_refl _, hv.1⟩
    · rcases ih (acc + hf.lastVersions (hf.forkAt (n + 1)).version) with h | ⟨h0, hn, hh⟩
      · exact .inl h
      · exact .inr ⟨h0, by omega, hh⟩

theorem getVotedForkIndex_cases (hf : HardFork) (height : Nat) :
    hf.getVotedForkIndex height = hf.currentForkIndex ∨
      (0 < hf.getVotedForkIndex height ∧ hf.getVotedForkIndex height < hf.heights.length ∧
        (hf.forkAt (hf.getVotedForkIndex height)).height ≤ height) := by
  unfold getVotedForkIndex
  rcases hf.votedForkIndexLoop_cases height (hf.heights.length - 1) 0 with h | ⟨h0, hn, hh⟩
  · exact .inl h
  · exact .inr ⟨h0, by omega, hh⟩

theorem raiseToVoted_index (hf : HardFork) (height : Nat) :
    (hf.raiseToVoted height).currentForkIndex = hf.currentForkIndex ∨
      (hf.currentForkIndex < (hf.raiseToVoted height).currentForkIndex ∧
        (hf.raiseToVoted height).currentForkIndex < hf.heights.length ∧
        (hf.forkAt (hf.raiseToVoted height).currentForkIndex).height ≤ height) := by
  rw [raiseToVoted_currentForkIndex]
  have hlen := hf.heights_length_le
  rcases hf.getVotedForkIndex_cases height with h | ⟨-, hlt, hh⟩
  · left
    rw [h]
    have := Nat.mod_le hf.currentForkIndex 256
    omega
  · rw [Nat.mod_eq_of_lt (by omega)]
    rcases le_or_gt (hf.getVotedForkIndex height) hf.currentForkIndex with hle | hgt
    · exact .inl (max_eq_left hle)
    · rw [max_eq_right hgt.le]
      exact .inr ⟨hgt, hlt, hh⟩

theorem version_le_idealVersionLoop (hf : HardFork) {height i n : Nat} (hi : i ≤ n)
    (hn : n < hf.heights.length) (h0 : (hf.forkAt 0).version ≤ hf.originalVersion)
    (hh : 0 < i → (hf.forkAt i).height ≤ height) :
    (hf.forkAt i).version ≤ hf.idealVersionLoop height n := by
  induction n with
  | zero =>
    obtain rfl : i = 0 := by omega
    simpa [idealVersionLoop] using h0
  | succ n ih =>
    simp only [idealVersionLoop]
    split_ifs with hge
    · exact hf.forkAt_version_le hi hn
    · have hin : i ≠ n + 1 := by
        rintro rfl
        exact hge (hh (by omega))
      exact ih (by omega) (by omega)

theorem version_le_getIdealVersion (hf : HardFork) {height i : Nat} (hi : i < hf.heights.length)
    (h0 : (hf.forkAt 0).version ≤ hf.originalVersion)
    (hh : 0 < i → (hf.forkAt i).height ≤ height) :
    (hf.forkAt i).version ≤ hf.getIdealVersion height :=
  hf.version_le_idealVersionLoop (by omega) (by omega) h0 hh

theorem add_eq_some_true {hf hf' : HardFork} {db db' : BlockchainDB} {bv vv : UInt8}
    {height : Nat} (h : hf.add db bv vv height = some (true, hf', db')) :
    ∃ vs c, hf' = ((hf.withWindow vs c).pushVotes [hf.getEffectiveVersion vv]).raiseToVoted
      (height + 1) ∧ db' = db.setHardForkVersion height hf.currentParams.version := by
  rcases add_eq_some h with ⟨-, he⟩ | ⟨-, vs, c, -, he⟩
  · simp at he
  · simp only [Prod.mk.injEq, true_and] at he
    exact ⟨vs, c, he.1, he.2⟩

theorem add_index {hf hf' : HardFork} {db db' : BlockchainDB} {bv vv : UInt8} {height : Nat}
    (h : hf.add db bv vv height = some (true, hf', db')) :
    hf'.heights = hf.heights ∧ hf'.originalVersion = hf.originalVersion ∧
      db' = db.setHardForkVersion height hf.currentParams.version ∧
      (hf'.currentForkIndex = hf.currentForkIndex ∨
        (hf.currentForkIndex < hf'.currentForkIndex ∧ hf'.currentForkIndex < hf.heights.length ∧
          (hf.forkAt hf'.currentForkIndex).height ≤ height + 1)) := by
  obtain ⟨vs, c, rfl, rfl⟩ := add_eq_some_true h
  set hf₁ := (hf.withWindow vs c).pushVotes [hf.getEffectiveVersion vv]
  have hH : hf₁.heights = hf.heights := by simp [hf₁]
  have hidx := hf₁.raiseToVoted_index (height + 1)
  rw [forkAt_congr hH, hH] at hidx
  simp only [hf₁, pushVotes_currentForkIndex, withWindow_currentForkIndex] at hidx
  exact ⟨by simp [hf₁], by simp [hf₁], rfl, hidx⟩

@[simp] theorem withPlaceholder_originalVersion (hf : HardFork) :
    hf.withPlaceholder.originalVersion = hf.originalVersion := by
  unfold withPlaceholder; split_ifs <;> rfl

theorem withPlaceholder_forkAt_zero (hf : HardFork)
    (h : ∀ p ∈ hf.heights.head?, p.version ≤ hf.originalVersion) :
    (hf.withPlaceholder.forkAt 0).version ≤ hf.withPlaceholder.originalVersion := by
  unfold withPlaceholder
  split_ifs with he
  · simp [pushFork, forkAt, he]
  · obtain ⟨p, ps, hps⟩ := List.exists_cons_of_ne_nil he
    simpa [forkAt, hps] using h p (by simp [hps])

end HardFork

namespace Node

def addChain (s : Node) : List Block → Option Node
  | [] => some s
  | b :: bs =>
    match s.hf.addBlock s.db b s.db.height with
    | some (true, hf, db) => addChain ⟨hf, db.addBlock b⟩ bs
    | _ => none

theorem addChain_cons {s s' : Node} {b : Block} {bs : List Block}
    (h : s.addChain (b :: bs) = some s') :
    ∃ hf db, s.hf.addBlock s.db b s.db.height = some (true, hf, db) ∧
      Node.addChain ⟨hf, db.addBlock b⟩ bs = some s' := by
  simp only [addChain] at h
  split at h
  · exact ⟨_, _, by assumption, h⟩
  · cases h

def start (hf : HardFork) : Option Node :=
  (hf.init .empty).map fun hf' => ⟨hf', .empty⟩

theorem start_eq (hf : HardFork) :
    start hf = some ⟨(hf.withPlaceholder.clearWindow).setForkIndex 0, .empty⟩ := by
  simp [start, HardFork.init, HardFork.rescanFromChainHeight, HardFork.initHeight,
    HardFork.rescanFromBlockHeight]

/-- What a chain of accepted blocks has recorded: every row is a scheduled version at most the
ideal one and the current one, and the rows never decrease. -/
structure Scheduled (s : Node) : Prop where
  index_lt : s.hf.currentForkIndex < s.hf.heights.length
  index_height : 0 < s.hf.currentForkIndex → s.hf.currentParams.height ≤ s.db.height
  rows : ∀ h < s.db.height, ∃ v, s.db.getHardForkVersion h = some v ∧
    (∃ p ∈ s.hf.heights, p.version = v) ∧ v ≤ s.hf.getIdealVersion h ∧
    v ≤ s.hf.currentParams.version
  mono : ∀ h₁ h₂ v₁ v₂, h₁ ≤ h₂ → h₂ < s.db.height → s.db.getHardForkVersion h₁ = some v₁ →
    s.db.getHardForkVersion h₂ = some v₂ → v₁ ≤ v₂

theorem scheduled_start (hf : HardFork) :
    Scheduled ⟨(hf.withPlaceholder.clearWindow).setForkIndex 0, .empty⟩ where
  index_lt := by
    simpa [List.length_pos_iff] using HardFork.withPlaceholder_heights_ne_nil hf
  index_height := by simp
  rows := by simp
  mono := by simp

theorem Scheduled.add {s : Node} {b : Block} {hf : HardFork} {db : BlockchainDB}
    (hs : s.Scheduled) (h0 : (s.hf.forkAt 0).version ≤ s.hf.originalVersion)
    (h : s.hf.addBlock s.db b s.db.height = some (true, hf, db)) :
    Scheduled ⟨hf, db.addBlock b⟩ := by
  obtain ⟨hH, hO, rfl, hidx⟩ := HardFork.add_index h
  have hfa : hf.forkAt = s.hf.forkAt := HardFork.forkAt_congr hH
  have hideal : hf.getIdealVersion = s.hf.getIdealVersion := HardFork.getIdealVersion_congr hH hO
  have hle : s.hf.currentParams.version ≤ hf.currentParams.version := by
    show _ ≤ (hf.forkAt hf.currentForkIndex).version
    rw [hfa]
    rcases hidx with he | ⟨hlt, hlen, -⟩
    · rw [he]
      exact UInt8.le_refl _
    · exact s.hf.forkAt_version_le hlt.le hlen
  have hideal₀ : s.hf.currentParams.version ≤ s.hf.getIdealVersion s.db.height :=
    s.hf.version_le_getIdealVersion hs.index_lt h0 hs.index_height
  constructor
  · show hf.currentForkIndex < hf.heights.length
    rw [hH]
    rcases hidx with he | ⟨-, hlen, -⟩
    · exact he ▸ hs.index_lt
    · exact hlen
  · show 0 < hf.currentForkIndex → (hf.forkAt hf.currentForkIndex).height ≤ _
    intro hpos
    simp only [BlockchainDB.height_addBlock, BlockchainDB.height_setHardForkVersion, hfa]
    rcases hidx with he | ⟨-, -, hheight⟩
    · have := hs.index_height (he ▸ hpos)
      rw [he]
      exact Nat.le_succ_of_le this
    · exact hheight
  · intro k hk
    simp only [BlockchainDB.height_addBlock, BlockchainDB.height_setHardForkVersion] at hk
    simp only [BlockchainDB.getHardForkVersion_addBlock, BlockchainDB.getHardForkVersion_set, hH, hideal]
    by_cases hkh : k = s.db.height
    · subst hkh
      exact ⟨_, if_pos rfl, ⟨_, s.hf.forkAt_mem hs.index_lt, rfl⟩, hideal₀, hle⟩
    · obtain ⟨v, hv, hm, hi, hc⟩ := hs.rows k (by omega)
      exact ⟨v, by rw [if_neg hkh, hv], hm, hi, UInt8.le_trans hc hle⟩
  · intro h₁ h₂ v₁ v₂ h12 h2 hv₁ hv₂
    simp only [BlockchainDB.height_addBlock, BlockchainDB.height_setHardForkVersion] at h2
    simp only [BlockchainDB.getHardForkVersion_addBlock, BlockchainDB.getHardForkVersion_set] at hv₁ hv₂
    by_cases h2h : h₂ = s.db.height
    · rw [if_pos h2h, Option.some.injEq] at hv₂
      subst hv₂
      by_cases h1h : h₁ = s.db.height
      · rw [if_pos h1h, Option.some.injEq] at hv₁
        rw [hv₁]
        exact UInt8.le_refl _
      · rw [if_neg h1h] at hv₁
        obtain ⟨v, hv, -, -, hc⟩ := hs.rows h₁ (by omega)
        rw [hv, Option.some.injEq] at hv₁
        exact hv₁ ▸ hc
    · rw [if_neg h2h] at hv₂
      rw [if_neg (by omega)] at hv₁
      exact hs.mono h₁ h₂ v₁ v₂ h12 (by omega) hv₁ hv₂

theorem Scheduled.addChain {s s' : Node} {bs : List Block} (hs : s.Scheduled)
    (h0 : (s.hf.forkAt 0).version ≤ s.hf.originalVersion) (h : s.addChain bs = some s') :
    s'.Scheduled ∧ s'.db.height = s.db.height + bs.length := by
  induction bs generalizing s with
  | nil =>
    simp only [Node.addChain, Option.some.injEq] at h
    subst h
    exact ⟨hs, rfl⟩
  | cons b bs ih =>
    obtain ⟨hf, db, hadd, hrest⟩ := addChain_cons h
    obtain ⟨hH, hO, hdb, -⟩ := HardFork.add_index hadd
    have h0' : (hf.forkAt 0).version ≤ hf.originalVersion := by
      rw [HardFork.forkAt_congr hH, hO]
      exact h0
    obtain ⟨hs', hlen⟩ := ih (hs.add h0 hadd) h0' hrest
    refine ⟨hs', ?_⟩
    simp only [hlen, hdb, BlockchainDB.height_addBlock, BlockchainDB.height_setHardForkVersion,
      List.length_cons]
    omega

end Node

/-- Along a chain of blocks each accepted by `add` from `init` on an empty chain, the version
recorded at every height is a scheduled one, at most the ideal version of that height, and at
least every version recorded below it; provided the first fork's version is not above the
original version. -/
theorem recorded_version_le_ideal {hf : HardFork} {bs : List Block} {s : Node}
    (hsched : ∀ p ∈ hf.heights.head?, p.version ≤ hf.originalVersion)
    (hrun : (Node.start hf).bind (·.addChain bs) = some s) :
    ∀ h < bs.length, ∃ v, s.db.getHardForkVersion h = some v ∧
      (∃ p ∈ s.hf.heights, p.version = v) ∧ v ≤ s.hf.getIdealVersion h ∧
      ∀ h' ≤ h, ∀ v', s.db.getHardForkVersion h' = some v' → v' ≤ v := by
  rw [Node.start_eq, Option.bind_some] at hrun
  have h0 : ((hf.withPlaceholder.clearWindow.setForkIndex 0).forkAt 0).version ≤
      (hf.withPlaceholder.clearWindow.setForkIndex 0).originalVersion := by
    rw [HardFork.forkAt_congr (show (hf.withPlaceholder.clearWindow.setForkIndex 0).heights =
      hf.withPlaceholder.heights by simp)]
    simpa using HardFork.withPlaceholder_forkAt_zero hf hsched
  obtain ⟨hs, hlen⟩ := (Node.scheduled_start hf).addChain h0 hrun
  simp only [BlockchainDB.height_empty, Nat.zero_add] at hlen
  intro h hh
  obtain ⟨v, hv, hm, hi, -⟩ := hs.rows h (by omega)
  exact ⟨v, hv, hm, hi, fun h' hh' v' hv' => hs.mono h' h v' v hh' (by omega) hv' hv⟩

theorem recorded_version_le_ideal_mainnet :
    let hf := HardFork.mainnet.get (by decide)
    let bs : List Block := [⟨1, 0⟩, ⟨15, 15⟩]
    let s := ((Node.start hf).bind (·.addChain bs)).get (by decide)
    (∀ p ∈ hf.heights.head?, p.version ≤ hf.originalVersion) ∧
      (Node.start hf).bind (·.addChain bs) = some s ∧
      ∀ h < bs.length, ∃ v, s.db.getHardForkVersion h = some v ∧
        (∃ p ∈ s.hf.heights, p.version = v) ∧ v ≤ s.hf.getIdealVersion h ∧
        ∀ h' ≤ h, ∀ v', s.db.getHardForkVersion h' = some v' → v' ≤ v := by
  intro hf bs s
  have hsched : ∀ p ∈ hf.heights.head?, p.version ≤ hf.originalVersion := by decide
  have hrun : (Node.start hf).bind (·.addChain bs) = some s := (Option.some_get _).symm
  exact ⟨hsched, hrun, recorded_version_le_ideal hsched hrun⟩

/-- With a first fork above the original version, a block accepted at height 0 records that
fork's version, while the ideal version of height 0 is the original one. -/
theorem recorded_version_above_ideal :
    let hf := ((HardFork.new 1 10080 80).bind fun hf => hf.addFork 2 0 0 0).get (by decide)
    ((Node.start hf).bind (·.addChain [⟨2, 2⟩])).map
      (fun s => (s.db.getHardForkVersion 0, s.hf.getIdealVersion 0)) = some (some 2, 1) := by
  decide

end PepePrivate.Hardfork
