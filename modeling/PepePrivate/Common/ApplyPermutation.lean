import PepePrivate.Library.CycleWalk
import PepePrivate.Core.RingMembers

/-! tools::apply_permutation of common/apply_permutation.h, and the input order of
construct_tx_with_tx_key that it applies. The swap callback is recorded as the list of swaps
it is called with; on a vector each swap is std::swap of two entries. -/

namespace PepePrivate.Common

open PepePrivate.Core

/-- The while loop of apply_permutation for the cycle through i, from current: the swaps it
calls and the permutation it leaves; none when the fuel, the passes allowed, runs out. -/
def followCycle (i : Nat) : Nat → Nat → List Nat → Option (List (Nat × Nat) × List Nat)
  | 0, _, _ => none
  | fuel + 1, current, permutation =>
    if i ≠ permutation.getD current 0 then
      let next := permutation.getD current 0
      (followCycle i fuel next (permutation.set current current)).map
        fun r => ((current, next) :: r.1, r.2)
    else some ([], permutation.set current current)

def applyCycles (fuel : Nat) : List Nat → List Nat → Option (List (Nat × Nat))
  | [], _ => some []
  | i :: is, permutation =>
    match followCycle i fuel i permutation with
    | none => none
    | some (swaps, permutation) => (applyCycles fuel is permutation).map (swaps ++ ·)

/-- tools::apply_permutation with a swap callback, as the swaps it makes. It throws "Bad
permutation" unless every index below the size occurs; each cycle loop is given the size as
fuel, which applyPermutation_ok shows is enough. -/
def applyPermutation (permutation : List Nat) : Except String (Option (List (Nat × Nat))) :=
  if (List.range permutation.length).all fun n => permutation.contains n then
    .ok (applyCycles permutation.length (List.range permutation.length) permutation)
  else .error "Bad permutation"

/-- The swap callback on a vector: std::swap of the two entries, for each swap in turn. -/
def applySwaps {α : Type*} (swaps : List (Nat × Nat)) (v : List α) : List α :=
  swaps.foldl (fun v s => v.swap s.1 s.2) v

/-- apply_permutation on a vector: the sizes must match. -/
def applyPermutationVector {α : Type*} (permutation : List Nat) (v : List α) :
    Except String (Option (List α)) :=
  if permutation.length ≠ v.length then .error "Mismatched vector sizes"
  else (applyPermutation permutation).map (Option.map (applySwaps · v))

def keyImageAt (vin : List TxinToKey) (i : Nat) : Nat := (vin[i]?.map (·.kImage)).getD 0

/-- ins_order of construct_tx_with_tx_key: the input indices sorted so that an index whose key
image compares greater under memcmp comes first; std::sort is modelled by the merge sort of
that order. -/
def insOrder (vin : List TxinToKey) : List Nat :=
  (List.range vin.length).mergeSort fun i0 i1 => decide (keyImageAt vin i1 ≤ keyImageAt vin i0)

/-- The inputs of construct_tx_with_tx_key once ins_order is applied: the swap callback swaps
tx.vin, in_contexts and sources alike. -/
def sortInputs {β γ : Type*} (vin : List TxinToKey) (inContexts : List β) (sources : List γ) :
    Except String (Option (List TxinToKey × List β × List γ)) :=
  (applyPermutation (insOrder vin)).map (Option.map fun swaps =>
    (applySwaps swaps vin, applySwaps swaps inContexts, applySwaps swaps sources))

example : applyPermutationVector [3, 5, 6, 1, 2, 4, 0] [8, 4, 6, 1, 7, 2, 4] =
    .ok (some [1, 2, 4, 4, 6, 7, 8]) := by decide
example : applyPermutationVector [3, 5, 6, 1, 2, 4, 1] [8, 4, 6, 1, 7, 2, 4] =
    .error "Bad permutation" := by decide

/-! ## The loop on lists and the cycle walk on functions -/

def entryAt (l : List Nat) (j : Nat) : Nat := l.getD j 0

theorem entryAt_set {l : List Nat} {k : Nat} (hk : k < l.length) (v : Nat) :
    entryAt (l.set k v) = Function.update (entryAt l) k v := by
  funext j
  by_cases hjk : j = k
  · subst hjk
    simp [entryAt, hk]
  · rw [Function.update_of_ne hjk]
    simp [entryAt, Ne.symm hjk]

theorem entryAt_swap {l : List Nat} {a b : Nat} (ha : a < l.length) (hb : b < l.length) :
    entryAt (l.swap a b) = entryAt l ∘ Equiv.swap a b := by
  funext j
  simp only [entryAt, Function.comp_apply, List.getD_eq_getElem?_getD, Equiv.swap_apply_def]
  by_cases hj : j < l.length
  · rw [List.getElem?_eq_getElem (by simpa using hj), List.getElem_swap]
    by_cases hja : j = a
    · simp [hja, hb]
    · by_cases hjb : j = b
      · subst hjb
        simp [ha, hja]
      · simp [hja, hjb, hj]
  · have hja : j ≠ a := by omega
    have hjb : j ≠ b := by omega
    rw [List.getElem?_eq_none (by simpa using hj), if_neg hja, if_neg hjb,
      List.getElem?_eq_none (by omega)]

theorem applySwaps_cons {α : Type*} (s : Nat × Nat) (swaps : List (Nat × Nat)) (v : List α) :
    applySwaps (s :: swaps) v = applySwaps swaps (v.swap s.1 s.2) := rfl

theorem applySwaps_append {α : Type*} (swaps swaps' : List (Nat × Nat)) (v : List α) :
    applySwaps (swaps ++ swaps') v = applySwaps swaps' (applySwaps swaps v) := List.foldl_append

@[simp] theorem length_applySwaps {α : Type*} (swaps : List (Nat × Nat)) (v : List α) :
    (applySwaps swaps v).length = v.length := by
  induction swaps generalizing v with
  | nil => rfl
  | cons s swaps ih => rw [applySwaps_cons, ih, List.length_swap]

/-! ## Runs of the loops -/

section Run

variable {perm0 : List Nat}
  (hσ : ∀ j < perm0.length, entryAt perm0 j < perm0.length)
  (hinj : ∀ a < perm0.length, ∀ b < perm0.length, entryAt perm0 a = entryAt perm0 b → a = b)
include hσ hinj

theorem followCycle_run {i : Nat} :
    ∀ (fuel cur : Nat) (P w : List Nat), P.length = perm0.length → w.length = perm0.length →
      CycleWalk.Walking perm0.length (entryAt perm0) i cur (entryAt P) (entryAt w) →
      (CycleWalk.unmarkedSet perm0.length (entryAt P)).card ≤ fuel →
      ∃ swaps P', followCycle i fuel cur P = some (swaps, P') ∧ P'.length = perm0.length ∧
        CycleWalk.Settled perm0.length (entryAt perm0) (i + 1) (entryAt P')
          (entryAt (applySwaps swaps w)) ∧
        swaps.length + 1 + (CycleWalk.unmarkedSet perm0.length (entryAt P')).card =
          (CycleWalk.unmarkedSet perm0.length (entryAt P)).card ∧
        ∀ s ∈ swaps, s.1 < perm0.length ∧ s.2 < perm0.length := by
  intro fuel
  induction fuel with
  | zero =>
    intro cur P w _ _ hwalk hfuel
    exact absurd hfuel (Nat.not_le.mpr hwalk.card_pos)
  | succ fuel ih =>
    intro cur P w hP hw hwalk hfuel
    have hcur : cur < P.length := hP ▸ hwalk.cur_lt
    have hcard := CycleWalk.card_unmarkedSet_update hwalk.cur_lt hwalk.cur_unmarked
    rw [← entryAt_set hcur] at hcard
    by_cases hnext : i ≠ entryAt P cur
    · have hnext_lt : entryAt P cur < perm0.length := hwalk.next_eq ▸ hσ cur hwalk.cur_lt
      have hstep := hwalk.step hσ hinj hnext
      rw [← entryAt_set hcur, ← entryAt_swap (hw ▸ hwalk.cur_lt) (hw ▸ hnext_lt)] at hstep
      obtain ⟨swaps, P', hrun, hlen, hsettled, hcount, hbounds⟩ :=
        ih (entryAt P cur) (P.set cur cur) (w.swap cur (entryAt P cur)) (by simpa using hP)
          (by simpa using hw) hstep (by omega)
      refine ⟨(cur, entryAt P cur) :: swaps, P', ?_, hlen, by rwa [applySwaps_cons], ?_, ?_⟩
      · rw [followCycle]
        unfold entryAt at hnext hrun ⊢
        rw [if_pos hnext]
        dsimp only
        rw [hrun]
        rfl
      · rw [List.length_cons]
        omega
      · intro s hs
        rcases List.mem_cons.mp hs with rfl | hs
        · exact ⟨hwalk.cur_lt, hnext_lt⟩
        · exact hbounds s hs
    · have hexit : i = entryAt P cur := not_not.mp hnext
      have hsettled := hwalk.exit hexit
      rw [← entryAt_set hcur] at hsettled
      refine ⟨[], P.set cur cur, ?_, by simpa using hP, hsettled, by rw [List.length_nil]; omega,
        by simp⟩
      rw [followCycle]
      unfold entryAt at hnext
      rw [if_neg hnext]

theorem applyCycles_run :
    ∀ (k i : Nat) (P w : List Nat), i + k = perm0.length → P.length = perm0.length →
      w.length = perm0.length →
      CycleWalk.Settled perm0.length (entryAt perm0) i (entryAt P) (entryAt w) →
      ∃ swaps, applyCycles perm0.length (List.range' i k) P = some swaps ∧
        (∀ j < perm0.length, entryAt (applySwaps swaps w) j = entryAt perm0 j) ∧
        swaps.length + (if swaps = [] then 0 else 1) ≤
          (CycleWalk.unmarkedSet perm0.length (entryAt P)).card ∧
        ∀ s ∈ swaps, s.1 < perm0.length ∧ s.2 < perm0.length := by
  intro k
  induction k with
  | zero =>
    intro i P w hik _ _ hsettled
    rw [Nat.add_zero] at hik
    subst hik
    exact ⟨[], rfl, hsettled.final, by simp, by simp⟩
  | succ k ih =>
    intro i P w hik hP hw hsettled
    have hi : i < P.length := by omega
    rw [List.range'_succ]
    by_cases hmarked : entryAt P i = i
    · have hself : P.set i i = P := by
        have hPi : P[i] = i := by rwa [entryAt, List.getD_eq_getElem _ _ hi] at hmarked
        exact (congrArg (P.set i) hPi.symm).trans (List.set_getElem_self hi)
      have hfollow : followCycle i perm0.length i P = some ([], P) := by
        obtain ⟨m, hm⟩ : ∃ m, perm0.length = m + 1 := ⟨perm0.length - 1, by omega⟩
        unfold entryAt at hmarked
        rw [hm, followCycle, if_neg (not_not.mpr hmarked.symm), hself]
      obtain ⟨swaps, hrun, hfinal, hcount, hbounds⟩ :=
        ih (i + 1) P w (by omega) hP hw (hsettled.skip hmarked)
      refine ⟨swaps, ?_, hfinal, hcount, hbounds⟩
      rw [applyCycles, hfollow]
      simpa using hrun
    · obtain ⟨swaps, P', hfollow, hlen, hsettled', hcount, hbounds⟩ :=
        followCycle_run hσ hinj perm0.length i P w hP hw (hsettled.start (by omega) hmarked)
          (CycleWalk.card_unmarkedSet_le _ _)
      obtain ⟨swaps', hrun, hfinal, hcount', hbounds'⟩ :=
        ih (i + 1) P' (applySwaps swaps w) (by omega) hlen (by rw [length_applySwaps, hw])
          hsettled'
      refine ⟨swaps ++ swaps', ?_, ?_, ?_, ?_⟩
      · rw [applyCycles, hfollow]
        simp [hrun]
      · rw [applySwaps_append]
        exact hfinal
      · have hle : (if swaps ++ swaps' = [] then 0 else 1) ≤ 1 := by split <;> omega
        rw [List.length_append]
        omega
      · intro s hs
        rcases List.mem_append.mp hs with hs | hs
        · exact hbounds s hs
        · exact hbounds' s hs

end Run

/-! ## apply_permutation -/

theorem perm_range_of_mem {permutation : List Nat} (h : ∀ n < permutation.length, n ∈ permutation) :
    permutation.Perm (List.range permutation.length) := by
  have hsub : (List.range permutation.length).Subperm permutation :=
    List.nodup_range.subperm fun n hn => h n (List.mem_range.mp hn)
  exact (hsub.perm_of_length_le (by simp)).symm

theorem applyPermutation_ok {permutation : List Nat} (h : ∀ n < permutation.length, n ∈ permutation) :
    ∃ swaps, applyPermutation permutation = .ok (some swaps) ∧
      applySwaps swaps (List.range permutation.length) = permutation ∧
      swaps.length ≤ permutation.length - 1 ∧
      ∀ s ∈ swaps, s.1 < permutation.length ∧ s.2 < permutation.length := by
  have hperm := perm_range_of_mem h
  have hnodup : permutation.Nodup := hperm.nodup_iff.mpr List.nodup_range
  have hentry : ∀ j (hj : j < permutation.length), entryAt permutation j = permutation[j] :=
    fun j hj => List.getD_eq_getElem _ _ hj
  have hσ : ∀ j < permutation.length, entryAt permutation j < permutation.length := by
    intro j hj
    rw [hentry j hj]
    exact List.mem_range.mp (hperm.mem_iff.mp (List.getElem_mem hj))
  have hinj : ∀ a < permutation.length, ∀ b < permutation.length,
      entryAt permutation a = entryAt permutation b → a = b := by
    intro a ha b hb hab
    rw [hentry a ha, hentry b hb] at hab
    exact hnodup.getElem_inj_iff.mp hab
  have hinit : CycleWalk.Settled permutation.length (entryAt permutation) 0 (entryAt permutation)
      (entryAt (List.range permutation.length)) :=
    CycleWalk.settled_init fun j hj => by simp [entryAt, hj]
  obtain ⟨swaps, hrun, hfinal, hcount, hbounds⟩ := applyCycles_run hσ hinj permutation.length 0
    permutation (List.range permutation.length) (Nat.zero_add _) rfl List.length_range hinit
  refine ⟨swaps, ?_, ?_, ?_, hbounds⟩
  · have hcheck : ((List.range permutation.length).all fun n => permutation.contains n) = true :=
      List.all_eq_true.mpr fun n hn => List.contains_iff_mem.mpr (h n (List.mem_range.mp hn))
    rw [applyPermutation, if_pos hcheck, List.range_eq_range', hrun]
  · apply List.ext_getElem (by simp)
    intro j h1 h2
    have hj := hfinal j h2
    rwa [entryAt, entryAt, List.getD_eq_getElem _ _ h1, List.getD_eq_getElem _ _ h2] at hj
  · have hcard := CycleWalk.card_unmarkedSet_le permutation.length (entryAt permutation)
    by_cases hnil : swaps = []
    · subst hnil
      exact Nat.zero_le _
    · rw [if_neg hnil] at hcount
      omega

theorem applyPermutation_bad {permutation : List Nat} (h : ∃ n < permutation.length, n ∉ permutation) :
    applyPermutation permutation = .error "Bad permutation" := by
  obtain ⟨n, hn, hnot⟩ := h
  have hcheck : ((List.range permutation.length).all fun n => permutation.contains n) = false := by
    rw [Bool.eq_false_iff, ne_eq, List.all_eq_true, not_forall]
    exact ⟨n, by simp [hn, hnot]⟩
  rw [applyPermutation, if_neg (by rw [hcheck]; exact Bool.false_ne_true)]

theorem swap_map {α β : Type*} (f : α → β) (l : List α) (a b : Nat) :
    (l.map f).swap a b = (l.swap a b).map f := by
  apply List.ext_getElem (by simp)
  intro k _ _
  simp only [List.getElem_swap, List.getElem_map, List.length_map]
  split_ifs <;> rfl

theorem applySwaps_map {α β : Type*} (f : α → β) (swaps : List (Nat × Nat)) (l : List α) :
    applySwaps swaps (l.map f) = (applySwaps swaps l).map f := by
  induction swaps generalizing l with
  | nil => rfl
  | cons s swaps ih => rw [applySwaps_cons, applySwaps_cons, swap_map, ih]

theorem applySwaps_eq_map {α : Type*} {permutation : List Nat} {swaps : List (Nat × Nat)}
    (hswaps : applySwaps swaps (List.range permutation.length) = permutation) (v : List α)
    (hv : v.length = permutation.length) :
    (applySwaps swaps v).map some = permutation.map fun j => v[j]? := by
  have hv' : v.map some = (List.range permutation.length).map fun j => v[j]? := by
    apply List.ext_getElem (by simp [hv])
    intro j h1 _
    simp
  rw [← applySwaps_map, hv', applySwaps_map, hswaps]

/-! ## The input order of construct_tx_with_tx_key -/

theorem insOrder_perm (vin : List TxinToKey) : (insOrder vin).Perm (List.range vin.length) :=
  List.mergeSort_perm _ _

theorem insOrder_pairwise (vin : List TxinToKey) :
    (insOrder vin).Pairwise fun i0 i1 => keyImageAt vin i1 ≤ keyImageAt vin i0 := by
  have hsorted := @List.pairwise_mergeSort Nat
    (fun i0 i1 => decide (keyImageAt vin i1 ≤ keyImageAt vin i0))
    (fun a b c hab hbc => by
      simp only [decide_eq_true_eq] at hab hbc ⊢
      omega)
    (fun a b => by
      simp only [Bool.or_eq_true, decide_eq_true_eq]
      omega)
    (List.range vin.length)
  exact hsorted.imp fun h => by simpa using h

theorem keyImageAt_of_lt {vin : List TxinToKey} {j : Nat} (hj : j < vin.length) :
    keyImageAt vin j = vin[j].kImage := by
  simp [keyImageAt, hj]

theorem map_keyImageAt_range (vin : List TxinToKey) :
    (List.range vin.length).map (keyImageAt vin) = vin.map (·.kImage) := by
  apply List.ext_getElem (by simp)
  intro j h1 _
  rw [List.getElem_map, List.getElem_map, List.getElem_range, keyImageAt_of_lt (by simpa using h1)]

theorem insOrder_keyImages_decreasing (vin : List TxinToKey) (hdistinct : (vin.map (·.kImage)).Nodup) :
    ((insOrder vin).map (keyImageAt vin)).Pairwise (· > ·) := by
  have hnodup : ((insOrder vin).map (keyImageAt vin)).Nodup := by
    rw [((insOrder_perm vin).map _).nodup_iff, map_keyImageAt_range]
    exact hdistinct
  rw [List.Nodup, List.pairwise_map] at hnodup
  rw [List.pairwise_map]
  exact ((insOrder_pairwise vin).and hnodup).imp fun h => lt_of_le_of_ne h.1 (Ne.symm h.2)

theorem sortInputs_sorted {β γ : Type*} (version : Nat) (vin : List TxinToKey)
    (inContexts : List β) (sources : List γ) (hdistinct : (vin.map (·.kImage)).Nodup) :
    ∃ vin' inContexts' sources',
      sortInputs vin inContexts sources = .ok (some (vin', inContexts', sources')) ∧
      vin'.map some = (insOrder vin).map (fun j => vin[j]?) ∧
      (inContexts.length = vin.length →
        inContexts'.map some = (insOrder vin).map (fun j => inContexts[j]?)) ∧
      (sources.length = vin.length → sources'.map some = (insOrder vin).map (fun j => sources[j]?)) ∧
      sortedIns ⟨version, vin'⟩ = true := by
  have hlen : (insOrder vin).length = vin.length := by
    rw [(insOrder_perm vin).length_eq, List.length_range]
  have hcheck : ∀ n < (insOrder vin).length, n ∈ insOrder vin := fun n hn =>
    (insOrder_perm vin).mem_iff.mpr (List.mem_range.mpr (hlen ▸ hn))
  obtain ⟨swaps, hok, hrange, -, -⟩ := applyPermutation_ok hcheck
  have hvin := applySwaps_eq_map hrange vin hlen.symm
  have hkeys : (applySwaps swaps vin).map (·.kImage) = (insOrder vin).map (keyImageAt vin) := by
    have hmapped := congrArg (List.map (Option.map TxinToKey.kImage)) hvin
    have hright : (insOrder vin).map (fun j => vin[j]?.map TxinToKey.kImage) =
        ((insOrder vin).map (keyImageAt vin)).map some := by
      rw [List.map_map]
      apply List.map_congr_left
      intro j hj
      have hjlt : j < vin.length := List.mem_range.mp ((insOrder_perm vin).mem_iff.mp hj)
      simp [keyImageAt, hjlt]
    rw [List.map_map, List.map_map] at hmapped
    apply List.map_injective_iff.mpr (Option.some_injective _)
    rw [List.map_map, ← hright]
    exact hmapped
  refine ⟨_, _, _, by rw [sortInputs, hok]; rfl, hvin,
    fun h => applySwaps_eq_map hrange inContexts (h.trans hlen.symm),
    fun h => applySwaps_eq_map hrange sources (h.trans hlen.symm), ?_⟩
  rw [sortedIns, decide_eq_true_eq, hkeys]
  exact insOrder_keyImages_decreasing vin hdistinct

theorem applyPermutation_sorts_inputs {α β γ : Type*} (permutation : List Nat) (v : List α)
    (hv : v.length = permutation.length) (version : Nat) (vin : List TxinToKey)
    (inContexts : List β) (sources : List γ) (hdistinct : (vin.map (·.kImage)).Nodup) :
    ((∃ n < permutation.length, n ∉ permutation) →
      applyPermutation permutation = .error "Bad permutation") ∧
    ((∀ n < permutation.length, n ∈ permutation) →
      ∃ swaps, applyPermutation permutation = .ok (some swaps) ∧
        swaps.length ≤ permutation.length - 1 ∧
        (∀ s ∈ swaps, s.1 < permutation.length ∧ s.2 < permutation.length) ∧
        (applySwaps swaps v).map some = permutation.map fun j => v[j]?) ∧
    ∃ vin' inContexts' sources',
      sortInputs vin inContexts sources = .ok (some (vin', inContexts', sources')) ∧
      vin'.map some = (insOrder vin).map (fun j => vin[j]?) ∧
      (inContexts.length = vin.length →
        inContexts'.map some = (insOrder vin).map (fun j => inContexts[j]?)) ∧
      (sources.length = vin.length → sources'.map some = (insOrder vin).map (fun j => sources[j]?)) ∧
      sortedIns ⟨version, vin'⟩ = true := by
  refine ⟨applyPermutation_bad, fun h => ?_, sortInputs_sorted version vin inContexts sources hdistinct⟩
  obtain ⟨swaps, hok, hrange, hcount, hbounds⟩ := applyPermutation_ok h
  exact ⟨swaps, hok, hcount, hbounds, applySwaps_eq_map hrange v hv⟩

-- The permutation of two entries, and two inputs with distinct key images.
theorem applyPermutation_sorts_inputs_two :
    [7, 8].length = [1, 0].length ∧
      ([(⟨0, [], 5⟩ : TxinToKey), ⟨0, [], 9⟩].map (·.kImage)).Nodup ∧
      (((∃ n < [1, 0].length, n ∉ [1, 0]) → applyPermutation [1, 0] = .error "Bad permutation") ∧
        ((∀ n < [1, 0].length, n ∈ [1, 0]) →
          ∃ swaps, applyPermutation [1, 0] = .ok (some swaps) ∧
            swaps.length ≤ [1, 0].length - 1 ∧
            (∀ s ∈ swaps, s.1 < [1, 0].length ∧ s.2 < [1, 0].length) ∧
            (applySwaps swaps [7, 8]).map some = [1, 0].map fun j => [7, 8][j]?) ∧
        ∃ vin' inContexts' sources',
          sortInputs [(⟨0, [], 5⟩ : TxinToKey), ⟨0, [], 9⟩] [10, 20] [30, 40] =
            .ok (some (vin', inContexts', sources')) ∧
          vin'.map some = (insOrder [(⟨0, [], 5⟩ : TxinToKey), ⟨0, [], 9⟩]).map
            (fun j => [(⟨0, [], 5⟩ : TxinToKey), ⟨0, [], 9⟩][j]?) ∧
          ([10, 20].length = [(⟨0, [], 5⟩ : TxinToKey), ⟨0, [], 9⟩].length →
            inContexts'.map some =
              (insOrder [(⟨0, [], 5⟩ : TxinToKey), ⟨0, [], 9⟩]).map (fun j => [10, 20][j]?)) ∧
          ([30, 40].length = [(⟨0, [], 5⟩ : TxinToKey), ⟨0, [], 9⟩].length →
            sources'.map some =
              (insOrder [(⟨0, [], 5⟩ : TxinToKey), ⟨0, [], 9⟩]).map (fun j => [30, 40][j]?)) ∧
          sortedIns ⟨7, vin'⟩ = true) := by
  have hv : [7, 8].length = [1, 0].length := rfl
  have hdistinct : ([(⟨0, [], 5⟩ : TxinToKey), ⟨0, [], 9⟩].map (·.kImage)).Nodup := by decide
  exact ⟨hv, hdistinct, applyPermutation_sorts_inputs [1, 0] [7, 8] hv 7 _ [10, 20] [30, 40] hdistinct⟩

end PepePrivate.Common
