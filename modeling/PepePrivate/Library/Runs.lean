import Mathlib

/-! Loops that can throw, run as List.foldlM in Except: what each step keeps when it returns, the
whole loop keeps when it returns; when a chain of binds succeeds. And a list sorted by a key, cut at the first entry whose key
reaches a bound: the entries below the bound. -/

namespace Runs

universe u

variable {ε σ α : Type u}

theorem bind_eq_ok {x : Except ε α} {f : α → Except ε σ} {b : σ} :
    x >>= f = .ok b ↔ ∃ a, x = .ok a ∧ f a = .ok b := by
  cases x <;> simp [bind, Except.bind]

theorem pure_eq_ok {a b : α} : (pure a : Except ε α) = .ok b ↔ a = b := by
  simp [pure, Except.pure]

@[simp] theorem ok_bind {a : α} {f : α → Except ε σ} : (Except.ok a >>= f) = f a := rfl

@[simp] theorem throw_bind {e : ε} {f : α → Except ε σ} : (throw e >>= f : Except ε σ) = .error e := rfl

theorem exists_bind_pure_eq_ok {x : Except ε α} {g : α → σ} :
    (∃ b, (x >>= fun a => pure (g a)) = .ok b) ↔ ∃ a, x = .ok a := by
  cases x <;> simp [bind, Except.bind, pure, Except.pure]

theorem exists_bind_bind_pure_eq_ok {β : Type u} {x : Except ε α} {y : Except ε β} {g : α → β → σ} :
    (∃ b, (x >>= fun a => y >>= fun c => pure (g a c)) = .ok b) ↔
      (∃ a, x = .ok a) ∧ ∃ c, y = .ok c := by
  cases x <;> cases y <;> simp [bind, Except.bind, pure, Except.pure]

theorem take_findIdx_eq_filter (key : α → Nat) (b : Nat) {l : List α}
    (hl : l.Pairwise fun x y => key x ≤ key y) :
    l.take (l.findIdx fun x => b ≤ key x) = l.filter fun x => key x < b := by
  induction l with
  | nil => simp
  | cons x xs ih =>
    rw [List.pairwise_cons] at hl
    rw [List.findIdx_cons]
    by_cases hx : b ≤ key x
    · have hnil : xs.filter (fun y => key y < b) = [] :=
        List.filter_eq_nil_iff.mpr fun y hy => by
          have := hl.1 y hy
          simp only [decide_eq_true_eq]
          omega
      simp [hx, hnil]
    · have hlt : key x < b := by omega
      simp [hx, hlt, ih hl.2]

end Runs
