import Mathlib.Data.Nat.Notation
import Mathlib.Tactic.TypeStar
/-!
# Runs of a step relation

`Reaches step s n t` says that `t` is the state after `n` steps from `s`. An invariant may speak about the
number of steps (`Reaches.invariant`).
-/

namespace Runs

variable {σ : Type*} {step : σ → σ → Prop} {s t u : σ} {n : ℕ}

inductive Reaches (step : σ → σ → Prop) (s : σ) : ℕ → σ → Prop
  | start : Reaches step s 0 s
  | next {n : ℕ} {t u : σ} : Reaches step s n t → step t u → Reaches step s (n + 1) u

/-- What holds at the start and is kept by each step holds in every state reached. -/
theorem Reaches.invariant {P : ℕ → σ → Prop} (hstart : P 0 s) (hstep : ∀ n t u, P n t → step t u → P (n + 1) u)
    (h : Reaches step s n t) : P n t := by
  induction h with
  | start => exact hstart
  | next _ hlast ih => exact hstep _ _ _ ih hlast

theorem Reaches.head (hfirst : step s t) (h : Reaches step t n u) : Reaches step s (n + 1) u := by
  induction h with
  | start => exact .next .start hfirst
  | next _ hlast ih => exact .next ih hlast

end Runs
