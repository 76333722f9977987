import Mathlib.Algebra.BigOperators.Finprod
/-!
# Amounts in buckets

A `deposit` changes the bucket of its key. Where every step adds the amount of its deposit to what the bucket holds
(`Adds`), the total over all buckets is the total before and the amounts of the deposits (`total_deposits`): it does
not depend on the keys, so that the same amounts make the same total wherever they go.
-/

namespace Deposits

variable {κ σ δ M : Type*}

/-- A step on a bucket adds the amount of the deposit to the amount in it. -/
def Adds [AddCommMonoid M] (amount : σ → M) (step : σ → δ → σ) (weight : δ → M) : Prop :=
  ∀ s d, amount (step s d) = amount s + weight d

/-- The amount in all buckets. -/
noncomputable def total [AddCommMonoid M] (amount : σ → M) (f : κ → σ) : M := ∑ᶠ k, amount (f k)

/-- Finitely many buckets hold something. -/
def FinitelyMany [AddCommMonoid M] (amount : σ → M) (f : κ → σ) : Prop :=
  (Function.support fun k => amount (f k)).Finite

variable [DecidableEq κ]

def deposit (step : σ → δ → σ) (f : κ → σ) (e : κ × δ) : κ → σ := Function.update f e.1 (step (f e.1) e.2)

/-- A bucket without a deposit is as it was. -/
theorem deposits_of_notMem {step : σ → δ → σ} {l : List (κ × δ)} {f : κ → σ} {k : κ} (hk : k ∉ l.map Prod.fst) :
    l.foldl (deposit step) f k = f k := by
  induction l generalizing f with
  | nil => rfl
  | cons e l ih =>
    rw [List.map_cons, List.mem_cons, not_or] at hk
    rw [List.foldl_cons, ih hk.2, deposit, Function.update_of_ne hk.1]

section total
variable [AddCommMonoid M] {amount : σ → M} {step : σ → δ → σ} {weight : δ → M} {f : κ → σ}

theorem amount_deposit (hadds : Adds amount step weight) (e : κ × δ) :
    (fun k => amount (deposit step f e k)) = (fun k => amount (f k)) + Pi.single e.1 (weight e.2) := by
  funext k
  by_cases hk : k = e.1
  · subst hk
    simp [deposit, hadds (f e.1) e.2]
  · simp [deposit, hk]

theorem finite_single (k : κ) (a : M) : (Function.support (Pi.single k a : κ → M)).Finite :=
  (Set.finite_singleton k).subset Pi.support_single_subset

theorem FinitelyMany.deposit (hadds : Adds amount step weight) (h : FinitelyMany amount f) (e : κ × δ) :
    FinitelyMany amount (deposit step f e) := by
  unfold FinitelyMany
  rw [amount_deposit hadds]
  exact (h.union (finite_single e.1 (weight e.2))).subset (Function.support_add _ _)

theorem total_deposit (hadds : Adds amount step weight) (h : FinitelyMany amount f) (e : κ × δ) :
    total amount (deposit step f e) = total amount f + weight e.2 := by
  have hsingle : ∑ᶠ k, (Pi.single e.1 (weight e.2) : κ → M) k = weight e.2 := by
    rw [finsum_eq_single _ e.1 fun k hk => Pi.single_eq_of_ne hk _, Pi.single_eq_same]
  calc total amount (deposit step f e)
      = ∑ᶠ k, (amount (f k) + (Pi.single e.1 (weight e.2) : κ → M) k) := by
        rw [total, amount_deposit hadds]; rfl
    _ = total amount f + weight e.2 := by
        rw [finsum_add_distrib h (finite_single e.1 _), hsingle, total]

/-- **The total grows by the amounts**, whatever buckets they go to. -/
theorem total_deposits (hadds : Adds amount step weight) (h : FinitelyMany amount f) (l : List (κ × δ)) :
    total amount (l.foldl (deposit step) f) = total amount f + (l.map fun e => weight e.2).sum := by
  induction l generalizing f with
  | nil => simp
  | cons e l ih =>
    rw [List.foldl_cons, ih (h.deposit hadds e), total_deposit hadds h, List.map_cons, List.sum_cons, add_assoc]

end total

end Deposits
