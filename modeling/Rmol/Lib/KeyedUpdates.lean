import Mathlib.Data.List.Nodup
import Mathlib.Logic.Function.Iterate
/-!
# Updates of single entries

A loop that visits keys and rewrites the entry of each key it meets from that entry alone: an entry ends as its
own rewriting, applied as often as its key is visited (`visits_apply`), in whatever order.
-/

namespace KeyedUpdates

universe u v
variable {κ : Type u} {σ : Type v} [DecidableEq κ]

/-- The loop over the visited keys. -/
def visits (g : κ → σ → σ) (l : List κ) (f : κ → σ) : κ → σ :=
  l.foldl (fun f k => Function.update f k (g k (f k))) f

@[simp] theorem visits_nil (g : κ → σ → σ) (f : κ → σ) : visits g [] f = f := rfl

@[simp] theorem visits_cons (g : κ → σ → σ) (k : κ) (l : List κ) (f : κ → σ) :
    visits g (k :: l) f = visits g l (Function.update f k (g k (f k))) := rfl

/-- **An entry counts its visits.** -/
theorem visits_apply (g : κ → σ → σ) (l : List κ) (f : κ → σ) (k : κ) :
    visits g l f k = (g k)^[l.count k] (f k) := by
  induction l generalizing f with
  | nil => rfl
  | cons a l ih =>
    rw [visits_cons, ih]
    by_cases hk : a = k
    · subst hk
      rw [Function.update_self, List.count_cons_self, Function.iterate_succ_apply]
    · rw [Function.update_of_ne (Ne.symm hk), List.count_cons_of_ne hk]

theorem visits_apply_of_notMem (g : κ → σ → σ) {l : List κ} {k : κ} (hk : k ∉ l) (f : κ → σ) :
    visits g l f k = f k := by
  rw [visits_apply, List.count_eq_zero_of_not_mem hk]
  rfl

/-- A list without duplicates visits each of its keys once. -/
theorem visits_apply_of_nodup (g : κ → σ → σ) {l : List κ} {k : κ} (hn : l.Nodup) (hk : k ∈ l) (f : κ → σ) :
    visits g l f k = g k (f k) := by
  rw [visits_apply, hn.count, if_pos hk]
  rfl

/-- An idempotent rewriting does its work at the first visit. -/
theorem visits_apply_of_idempotent {g : κ → σ → σ} {k : κ} (hg : ∀ s, g k (g k s) = g k s) {l : List κ}
    (hk : k ∈ l) (f : κ → σ) : visits g l f k = g k (f k) := by
  obtain ⟨n, hn⟩ := Nat.exists_eq_succ_of_ne_zero (Nat.ne_of_gt (List.count_pos_iff.2 hk))
  rw [visits_apply, hn, Function.iterate_succ_apply]
  exact Function.iterate_fixed (hg (f k)) n

end KeyedUpdates
