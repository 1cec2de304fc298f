import PepePrivate.Hardfork.Ops

/-! What the window loops do to the votes and their tally. Each loop is characterised once:
its result list, and that the tally stays exact whenever it was. -/

namespace PepePrivate.Hardfork

open Tally

theorem trimWindow_eq_some {W : Nat} {vs vs' : List UInt8} {c c' : UInt8 → UInt32}
    (h : trimWindow W vs c = some (vs', c')) :
    vs' = vs.drop (vs.length + 1 - W) ∧ (Counts c vs → Counts c' vs') := by
  induction vs generalizing c with
  | nil =>
    simp only [trimWindow, Option.some.injEq, Prod.mk.injEq] at h
    obtain ⟨rfl, rfl⟩ := h
    simp
  | cons v vs ih =>
    simp only [trimWindow] at h
    split_ifs at h with hw hc
    · obtain ⟨he, hcnt⟩ := ih h
      refine ⟨?_, fun hcs => hcnt hcs.unbump_cons⟩
      have hk : (v :: vs).length + 1 - W = (vs.length + 1 - W) + 1 := by simp; omega
      rw [he, hk, List.drop_succ_cons]
    · simp only [Option.some.injEq, Prod.mk.injEq] at h
      obtain ⟨rfl, rfl⟩ := h
      have hk : vs.length + 1 + 1 - W = 0 := by omega
      simp [hk]

theorem trimWindow_isSome {W : Nat} {vs : List UInt8} {c : UInt8 → UInt32} (hc : Counts c vs)
    (hl : vs.length < 2 ^ 32) : (trimWindow W vs c).isSome := by
  induction vs generalizing c with
  | nil => simp [trimWindow]
  | cons v vs ih =>
    have hv : 1 ≤ c v := hc.one_le_of_mem hl (by simp)
    simp only [trimWindow, hv, if_true]
    split_ifs
    · exact ih hc.unbump_cons (by simp at hl; omega)
    · rfl

theorem trimWindow_of_length_lt {W : Nat} {vs : List UInt8} (c : UInt8 → UInt32)
    (h : vs.length < W) : trimWindow W vs c = some (vs, c) := by
  cases vs with
  | nil => rfl
  | cons v vs =>
    rw [List.length_cons] at h
    simp only [trimWindow, show ¬W ≤ vs.length + 1 by omega, if_false]

theorem trimWindow_eq_none {W : Nat} {v : UInt8} {vs : List UInt8} {c : UInt8 → UInt32}
    (hW : W ≤ vs.length + 1) (hc : c v = 0) : trimWindow W (v :: vs) c = none := by
  simp [trimWindow, hW, hc]

theorem length_drop_trim_lt {W : Nat} (hW : 0 < W) (vs : List UInt8) :
    (vs.drop (vs.length + 1 - W)).length < W := by
  simp only [List.length_drop]
  omega

theorem popStep_eq_some {db : BlockchainDB} {height : Nat} {vs vs' : List UInt8}
    {c c' : UInt8 → UInt32} (h : popStep db height vs c = some (vs', c')) :
    ∃ w, db.getHardForkVersion height = some w ∧ vs ≠ [] ∧ vs' = w :: vs.dropLast ∧
      (Counts c vs → Counts c' vs') := by
  unfold popStep at h
  split at h
  · cases h
  · rename_i v hv
    split_ifs at h
    cases hw : db.getHardForkVersion height with
    | none => simp [hw] at h
    | some w =>
      simp only [hw, Option.map_some, Option.some.injEq, Prod.mk.injEq] at h
      obtain ⟨rfl, rfl⟩ := h
      refine ⟨w, rfl, ?_, rfl, fun hcs => (hcs.unbump_dropLast hv).bump_cons w⟩
      rintro rfl
      simp at hv

theorem popStep_isSome {db : BlockchainDB} {height : Nat} {vs : List UInt8} {c : UInt8 → UInt32}
    (hc : Counts c vs) (hl : vs.length < 2 ^ 32) (hne : vs ≠ [])
    (hrow : (db.getHardForkVersion height).isSome) : (popStep db height vs c).isSome := by
  obtain ⟨v, hv⟩ := Option.isSome_iff_exists.mp (List.getLast?_isSome.mpr hne)
  have hpos : 1 ≤ c v := hc.one_le_of_mem hl (List.mem_of_getLast? hv)
  obtain ⟨w, hw⟩ := Option.isSome_iff_exists.mp hrow
  simp [popStep, hv, hpos, hw]

theorem popLoop_eq_some {db : BlockchainDB} {k height : Nat} {vs vs' : List UInt8}
    {c c' : UInt8 → UInt32} (h : popLoop db k height vs c = some (vs', c')) :
    vs'.length = vs.length ∧ (Counts c vs → Counts c' vs') := by
  induction k generalizing height vs c with
  | zero =>
    simp only [popLoop, Option.some.injEq, Prod.mk.injEq] at h
    obtain ⟨rfl, rfl⟩ := h
    exact ⟨rfl, id⟩
  | succ k ih =>
    simp only [popLoop] at h
    split at h
    · cases h
    · rename_i vs₁ c₁ hs
      obtain ⟨w, -, hne, rfl, hcnt⟩ := popStep_eq_some hs
      obtain ⟨hlen, hcnt'⟩ := ih h
      refine ⟨?_, fun hcs => hcnt' (hcnt hcs)⟩
      rw [hlen, List.length_cons, List.length_dropLast]
      have := List.length_pos_iff.mpr hne
      omega

theorem popLoop_isSome {db : BlockchainDB} {k height : Nat} {vs : List UInt8}
    {c : UInt8 → UInt32} (hc : Counts c vs) (hl : vs.length < 2 ^ 32) (hne : vs ≠ [])
    (hrows : ∀ i < k, (db.getHardForkVersion (height - i)).isSome) :
    (popLoop db k height vs c).isSome := by
  induction k generalizing height vs c with
  | zero => simp [popLoop]
  | succ k ih =>
    obtain ⟨⟨vs₁, c₁⟩, hs⟩ := Option.isSome_iff_exists.mp
      (show (popStep db height vs c).isSome from
        popStep_isSome hc hl hne (by simpa using hrows 0 (by omega)))
    obtain ⟨w, -, -, rfl, hcnt⟩ := popStep_eq_some hs
    simp only [popLoop, hs]
    apply ih (hcnt hc) (by simp; have := List.length_pos_iff.mpr hne; omega) (by simp)
    intro i hi
    have hrow := hrows (i + 1) (by omega)
    rwa [show height - (i + 1) = height - 1 - i by omega] at hrow

namespace HardFork

/-- The tally of the window is exact modulo `2 ^ 32`. -/
def Tallied (hf : HardFork) : Prop := Counts hf.lastVersions hf.versions

@[simp] theorem withWindow_versions (hf : HardFork) (vs : List UInt8) (c : UInt8 → UInt32) :
    (hf.withWindow vs c).versions = vs := rfl

@[simp] theorem withWindow_lastVersions (hf : HardFork) (vs : List UInt8) (c : UInt8 → UInt32) :
    (hf.withWindow vs c).lastVersions = c := rfl

@[simp] theorem withWindow_heights (hf : HardFork) (vs : List UInt8) (c : UInt8 → UInt32) :
    (hf.withWindow vs c).heights = hf.heights := rfl

@[simp] theorem withWindow_windowSize (hf : HardFork) (vs : List UInt8) (c : UInt8 → UInt32) :
    (hf.withWindow vs c).windowSize = hf.windowSize := rfl

@[simp] theorem withWindow_currentForkIndex (hf : HardFork) (vs : List UInt8)
    (c : UInt8 → UInt32) : (hf.withWindow vs c).currentForkIndex = hf.currentForkIndex := rfl

@[simp] theorem withWindow_originalVersion (hf : HardFork) (vs : List UInt8)
    (c : UInt8 → UInt32) : (hf.withWindow vs c).originalVersion = hf.originalVersion := rfl

@[simp] theorem setForkIndex_originalVersion (hf : HardFork) (n : Nat) :
    (hf.setForkIndex n).originalVersion = hf.originalVersion := rfl

@[simp] theorem withWindow_defaultThresholdPercent (hf : HardFork) (vs : List UInt8)
    (c : UInt8 → UInt32) :
    (hf.withWindow vs c).defaultThresholdPercent = hf.defaultThresholdPercent := rfl

@[simp] theorem setForkIndex_defaultThresholdPercent (hf : HardFork) (n : Nat) :
    (hf.setForkIndex n).defaultThresholdPercent = hf.defaultThresholdPercent := rfl

@[simp] theorem setForkIndex_versions (hf : HardFork) (n : Nat) :
    (hf.setForkIndex n).versions = hf.versions := rfl

@[simp] theorem setForkIndex_lastVersions (hf : HardFork) (n : Nat) :
    (hf.setForkIndex n).lastVersions = hf.lastVersions := rfl

@[simp] theorem setForkIndex_heights (hf : HardFork) (n : Nat) :
    (hf.setForkIndex n).heights = hf.heights := rfl

@[simp] theorem setForkIndex_windowSize (hf : HardFork) (n : Nat) :
    (hf.setForkIndex n).windowSize = hf.windowSize := rfl

@[simp] theorem setForkIndex_currentForkIndex (hf : HardFork) (n : Nat) :
    (hf.setForkIndex n).currentForkIndex = n := rfl

@[simp] theorem pushVotes_versions (hf : HardFork) (vs : List UInt8) :
    (hf.pushVotes vs).versions = hf.versions ++ vs := rfl

@[simp] theorem pushVotes_heights (hf : HardFork) (vs : List UInt8) :
    (hf.pushVotes vs).heights = hf.heights := rfl

@[simp] theorem pushVotes_windowSize (hf : HardFork) (vs : List UInt8) :
    (hf.pushVotes vs).windowSize = hf.windowSize := rfl

@[simp] theorem pushVotes_originalVersion (hf : HardFork) (vs : List UInt8) :
    (hf.pushVotes vs).originalVersion = hf.originalVersion := rfl

@[simp] theorem pushVotes_lastVersions (hf : HardFork) (vs : List UInt8) :
    (hf.pushVotes vs).lastVersions = vs.foldl Tally.bump hf.lastVersions := rfl

@[simp] theorem pushVotes_defaultThresholdPercent (hf : HardFork) (vs : List UInt8) :
    (hf.pushVotes vs).defaultThresholdPercent = hf.defaultThresholdPercent := rfl

@[simp] theorem pushVotes_currentForkIndex (hf : HardFork) (vs : List UInt8) :
    (hf.pushVotes vs).currentForkIndex = hf.currentForkIndex := rfl

@[simp] theorem clearWindow_versions (hf : HardFork) : hf.clearWindow.versions = [] := rfl

@[simp] theorem clearWindow_heights (hf : HardFork) : hf.clearWindow.heights = hf.heights := rfl

@[simp] theorem clearWindow_windowSize (hf : HardFork) :
    hf.clearWindow.windowSize = hf.windowSize := rfl

@[simp] theorem clearWindow_originalVersion (hf : HardFork) :
    hf.clearWindow.originalVersion = hf.originalVersion := rfl

@[simp] theorem clearWindow_defaultThresholdPercent (hf : HardFork) :
    hf.clearWindow.defaultThresholdPercent = hf.defaultThresholdPercent := rfl

@[simp] theorem clearWindow_currentForkIndex (hf : HardFork) :
    hf.clearWindow.currentForkIndex = hf.currentForkIndex := rfl

@[simp] theorem raiseToVoted_versions (hf : HardFork) (h : Nat) :
    (hf.raiseToVoted h).versions = hf.versions := by
  simp only [raiseToVoted]; split_ifs <;> rfl

@[simp] theorem raiseToVoted_lastVersions (hf : HardFork) (h : Nat) :
    (hf.raiseToVoted h).lastVersions = hf.lastVersions := by
  simp only [raiseToVoted]; split_ifs <;> rfl

@[simp] theorem raiseToVoted_heights (hf : HardFork) (h : Nat) :
    (hf.raiseToVoted h).heights = hf.heights := by
  simp only [raiseToVoted]; split_ifs <;> rfl

@[simp] theorem raiseToVoted_windowSize (hf : HardFork) (h : Nat) :
    (hf.raiseToVoted h).windowSize = hf.windowSize := by
  simp only [raiseToVoted]; split_ifs <;> rfl

@[simp] theorem raiseToVoted_originalVersion (hf : HardFork) (h : Nat) :
    (hf.raiseToVoted h).originalVersion = hf.originalVersion := by
  simp only [raiseToVoted]; split_ifs <;> rfl

@[simp] theorem raiseToVoted_defaultThresholdPercent (hf : HardFork) (h : Nat) :
    (hf.raiseToVoted h).defaultThresholdPercent = hf.defaultThresholdPercent := by
  simp only [raiseToVoted]; split_ifs <;> rfl

theorem raiseToVoted_currentForkIndex (hf : HardFork) (h : Nat) :
    (hf.raiseToVoted h).currentForkIndex =
      max hf.currentForkIndex (hf.getVotedForkIndex h % 256) := by
  simp only [raiseToVoted]
  split_ifs with hv
  · simp only [setForkIndex_currentForkIndex]; omega
  · omega

theorem Tallied.pushVotes {hf : HardFork} (h : hf.Tallied) (vs : List UInt8) :
    (hf.pushVotes vs).Tallied :=
  Counts.foldl_bump h vs

theorem tallied_clearWindow (hf : HardFork) : hf.clearWindow.Tallied := counts_nil

theorem Tallied.setForkIndex {hf : HardFork} (h : hf.Tallied) (n : Nat) :
    (hf.setForkIndex n).Tallied := h

theorem Tallied.raiseToVoted {hf : HardFork} (h : hf.Tallied) (height : Nat) :
    (hf.raiseToVoted height).Tallied := by
  unfold Tallied
  rw [raiseToVoted_versions, raiseToVoted_lastVersions]
  exact h

end HardFork

end PepePrivate.Hardfork
