import Mathlib.Data.List.Basic

/-! A buffer drained by a step that reads a prefix of it: the step waits for more input, or
consumes part of the buffer and moves to a new state, or fails, having consumed part of it. The
run repeats the step until it waits or fails. Its fuel is a measure that every move lowers, so the
run is the loop itself (`run_wait`, `run_next`, `run_fail`). When the step decides on the prefix
it consumes (`Stable`), a buffer drained in two pieces, the first without a failure, ends as the
whole of it drained at once (`run_append_of_ok`). -/

namespace Drain

variable {σ β : Type*}

/-- What one step makes of the buffer: wait, or move to a state having consumed `k`, or fail
in a state having consumed `k`. -/
inductive Outcome (σ : Type*)
  | wait
  | next (s : σ) (k : Nat)
  | fail (s : σ) (k : Nat)

section Defs

variable (step : σ → List β → Outcome σ)

/-- At most `fuel` steps; out of fuel, the run stops as if the step waited. -/
def drain : Nat → σ → List β → Bool × σ × List β
  | 0, s, b => (true, s, b)
  | n + 1, s, b =>
    match step s b with
    | .wait => (true, s, b)
    | .next s' k => drain n s' (b.drop k)
    | .fail s' k => (false, s', b.drop k)

def Decreasing (m : σ → List β → Nat) : Prop :=
  ∀ {s b s' k}, step s b = .next s' k → m s' (b.drop k) < m s b

/-- The step repeated until it waits or fails: whether it did not fail, the state, and what is
left of the buffer. -/
def run (m : σ → List β → Nat) (s : σ) (b : List β) : Bool × σ × List β :=
  drain step (m s b + 1) s b

/-- The step decides on the prefix it consumes: a move or a failure stays the same when more
input follows it. A wait may turn into anything. -/
structure Stable : Prop where
  next_le : ∀ {s b s' k}, step s b = .next s' k → k ≤ b.length
  next_append : ∀ {s b s' k} (ys : List β), step s b = .next s' k → step s (b ++ ys) = .next s' k
  fail_le : ∀ {s b s' k}, step s b = .fail s' k → k ≤ b.length
  fail_append : ∀ {s b s' k} (ys : List β), step s b = .fail s' k → step s (b ++ ys) = .fail s' k

end Defs

variable {step : σ → List β → Outcome σ} {m : σ → List β → Nat}

theorem drain_eq_of_lt (hm : Decreasing step m) :
    ∀ {n n' : Nat} {s : σ} {b : List β}, m s b < n → m s b < n' →
      drain step n s b = drain step n' s b
  | 0, _, _, _, h, _ => absurd h (Nat.not_lt_zero _)
  | _, 0, _, _, _, h' => absurd h' (Nat.not_lt_zero _)
  | n + 1, n' + 1, s, b, h, h' => by
    cases hstep : step s b with
    | wait => simp only [drain, hstep]
    | next s' k =>
      simp only [drain, hstep]
      have hlt := hm hstep
      exact drain_eq_of_lt hm (by omega) (by omega)
    | fail s' k => simp only [drain, hstep]

theorem run_wait {s : σ} {b : List β} (h : step s b = .wait) : run step m s b = (true, s, b) := by
  simp only [run, drain, h]

theorem drain_succ_of_next {n : Nat} {s s' : σ} {b : List β} {k : Nat}
    (h : step s b = .next s' k) : drain step (n + 1) s b = drain step n s' (b.drop k) := by
  simp only [drain, h]

theorem run_next (hm : Decreasing step m) {s s' : σ} {b : List β} {k : Nat}
    (h : step s b = .next s' k) : run step m s b = run step m s' (b.drop k) := by
  unfold run
  rw [drain_succ_of_next h]
  exact drain_eq_of_lt hm (hm h) (Nat.lt_succ_self _)

theorem run_fail {s s' : σ} {b : List β} {k : Nat} (h : step s b = .fail s' k) :
    run step m s b = (false, s', b.drop k) := by
  simp only [run, drain, h]

theorem run_induct (hm : Decreasing step m) (P : σ → List β → Bool × σ × List β → Prop)
    (hwait : ∀ s b, step s b = .wait → P s b (true, s, b))
    (hnext : ∀ s b s' k, step s b = .next s' k →
      P s' (b.drop k) (run step m s' (b.drop k)) → P s b (run step m s' (b.drop k)))
    (hfail : ∀ s b s' k, step s b = .fail s' k → P s b (false, s', b.drop k))
    (s : σ) (b : List β) : P s b (run step m s b) := by
  induction hμ : m s b using Nat.strongRecOn generalizing s b with
  | ind μ ih =>
    cases hstep : step s b with
    | wait => rw [run_wait hstep]; exact hwait s b hstep
    | next s' k =>
      rw [run_next hm hstep]
      exact hnext s b s' k hstep (ih _ (hμ ▸ hm hstep) s' (b.drop k) rfl)
    | fail s' k => rw [run_fail hstep]; exact hfail s b s' k hstep

theorem exists_eq_append_of_run (hm : Decreasing step m) {s s' : σ}
    {b b' : List β} {ok : Bool} (h : run step m s b = (ok, s', b')) : ∃ pre, b = pre ++ b' := by
  revert h
  refine run_induct hm (fun b₀ b r => r = (ok, s', b') → ∃ pre, b = pre ++ b') ?_ ?_ ?_ s b
  · intro _ b _ h
    simp only [Prod.mk.injEq] at h
    exact ⟨[], by rw [h.2.2, List.nil_append]⟩
  · intro _ b _ k _ ih h
    obtain ⟨pre, hpre⟩ := ih h
    exact ⟨b.take k ++ pre, by rw [List.append_assoc, ← hpre, List.take_append_drop]⟩
  · intro _ b _ k _ h
    simp only [Prod.mk.injEq] at h
    exact ⟨b.take k, by rw [← h.2.2, List.take_append_drop]⟩

section Append

variable (hm : Decreasing step m) (hs : Stable step)
include hm hs

theorem run_append_of_ok {s s' : σ} {b b' : List β} (ys : List β)
    (h : run step m s b = (true, s', b')) : run step m s (b ++ ys) = run step m s' (b' ++ ys) := by
  revert h
  refine run_induct hm (fun s b r => r = (true, s', b') →
    run step m s (b ++ ys) = run step m s' (b' ++ ys)) ?_ ?_ ?_ s b
  · intro s b _ h
    simp only [Prod.mk.injEq, true_and] at h
    rw [h.1, h.2]
  · intro s b s₁ k hstep ih h
    rw [run_next hm (hs.next_append ys hstep), List.drop_append_of_le_length (hs.next_le hstep)]
    exact ih h
  · intro _ _ _ _ _ h
    simp at h

end Append

end Drain
