import Mathlib.Algebra.BigOperators.Group.List.Basic
import Mathlib.Algebra.Order.Group.Defs
import Mathlib.Data.List.Chain
import Mathlib.Tactic.Abel
/-!
# Increments of a sequence

`increments a l` lists how much each value of `l` exceeds the one before it, the first one `a`. The increments add
up to what the last value exceeds `a` by, and none is negative exactly where the values never fall.
-/

namespace Increments

variable {α : Type*} [AddCommGroup α]

def increments : α → List α → List α
  | _, [] => []
  | a, b :: l => (b - a) :: increments b l

@[simp] theorem increments_nil (a : α) : increments a [] = [] := rfl

@[simp] theorem increments_cons (a b : α) (l : List α) : increments a (b :: l) = (b - a) :: increments b l := rfl

@[simp] theorem length_increments (a : α) (l : List α) : (increments a l).length = l.length := by
  induction l generalizing a with
  | nil => rfl
  | cons b l ih => simp [ih]

/-- **Increments telescope.** -/
theorem sum_increments (a : α) (l : List α) :
    (increments a l).sum = (a :: l).getLast (List.cons_ne_nil a l) - a := by
  induction l generalizing a with
  | nil => simp
  | cons b l ih =>
    rw [increments_cons, List.sum_cons, ih, List.getLast_cons (List.cons_ne_nil b l)]
    abel

/-- No increment is negative iff the values never fall. -/
theorem increments_nonneg_iff [PartialOrder α] [IsOrderedAddMonoid α] (a : α) (l : List α) :
    (∀ d ∈ increments a l, 0 ≤ d) ↔ (a :: l).IsChain (· ≤ ·) := by
  induction l generalizing a with
  | nil => simp
  | cons b l ih => rw [increments_cons, List.forall_mem_cons, ih, List.isChain_cons_cons, sub_nonneg]

end Increments
