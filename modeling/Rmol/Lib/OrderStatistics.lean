import Mathlib.Algebra.Order.Field.Basic
import Mathlib.Data.List.GetD
import Mathlib.Data.List.Sort
import Mathlib.Data.List.TakeWhile
import Mathlib.Tactic.Linarith
/-!
# Order statistics: tails of a sample and searching for them

A sample is a list of values in any order. Its tail at `x` is the number of values that are at least
`x`; in a sorted sample the tail is what a search for `x` leaves.

| here | meaning |
| --- | --- |
| `tailCount l x`     | number of values of `l` that are at least `x` |
| `PartitionedAt l x` | the values below `x` all stand before the others |
| `lowerBound l i x`  | the first position from `i` on that holds a value not below `x`, for a list partitioned there |
| `midpoint l k`      | the mean of the values at the positions `k - 1` and `k` |

The search gives the tail exactly on lists that are partitioned (`lowerBound_eq`), which sorted lists
are everywhere. A value up to the midpoint around position `k` of a sorted sample has a tail of at
least what stands from `k` on (`length_sub_le_tailCount`).
-/

namespace OrderStatistics

variable {α : Type*} [LinearOrder α]

def tailCount (l : List α) (x : α) : ℕ := l.countP fun a => x ≤ a

def PartitionedAt (l : List α) (x : α) : Prop := ∀ a ∈ l.dropWhile (fun a => a < x), x ≤ a

instance (l : List α) (x : α) : Decidable (PartitionedAt l x) := by
  unfold PartitionedAt; infer_instance

/-- Binary search from position `i` on; without a partition at `x` it has no specified result. -/
def lowerBound (l : List α) (i : ℕ) (x : α) : Option ℕ :=
  if PartitionedAt (l.drop i) x then
    some (l.length - ((l.drop i).dropWhile fun a => a < x).length)
  else none

variable {l l' : List α} {i : ℕ} {x y : α}

/-! ## Tails -/

theorem tailCount_anti (h : x ≤ y) : tailCount l y ≤ tailCount l x :=
  List.countP_mono_left fun a _ ha => by
    simp only [decide_eq_true_eq] at ha ⊢
    exact h.trans ha

theorem tailCount_le_length : tailCount l x ≤ l.length := List.countP_le_length

theorem tailCount_perm (h : l.Perm l') : tailCount l x = tailCount l' x := h.countP_eq _

/-! ## Searching -/

theorem dropWhile_append_of_lt (h : ∀ a ∈ l, a < x) :
    (l ++ l').dropWhile (fun a => a < x) = l'.dropWhile fun a => a < x := by
  rw [List.dropWhile_append, List.dropWhile_eq_nil_iff.2 fun a ha => by simpa using h a ha]
  rfl

theorem partitionedAt_drop (h : ∀ a ∈ l.take i, a < x) : PartitionedAt (l.drop i) x ↔ PartitionedAt l x := by
  unfold PartitionedAt
  conv_rhs => rw [← List.take_append_drop i l]
  rw [dropWhile_append_of_lt h]

/-- In a list partitioned at `x`, the values below `x` are the ones before the first other value. -/
theorem PartitionedAt.length_dropWhile (h : PartitionedAt l x) :
    (l.dropWhile fun a => a < x).length = tailCount l x := by
  have hsplit := List.takeWhile_append_dropWhile (p := fun a => decide (a < x)) (l := l)
  have htake : tailCount (l.takeWhile fun a => a < x) x = 0 :=
    List.countP_eq_zero.2 fun a ha => by simpa using List.mem_takeWhile_imp ha
  have hdrop : tailCount (l.dropWhile fun a => a < x) x = (l.dropWhile fun a => a < x).length :=
    List.countP_eq_length.2 fun a ha => by simpa using h a ha
  rw [← hdrop]
  conv_rhs => rw [← hsplit]
  unfold tailCount at htake ⊢
  rw [List.countP_append, htake, Nat.zero_add]

/-- **The search** succeeds iff the list is partitioned, and what stands from its result on is the
tail. -/
theorem lowerBound_eq (h : ∀ a ∈ l.take i, a < x) :
    lowerBound l i x = if PartitionedAt l x then some (l.length - tailCount l x) else none := by
  have hdrop : (l.drop i).dropWhile (fun a => a < x) = l.dropWhile fun a => a < x := by
    conv_rhs => rw [← List.take_append_drop i l]
    rw [dropWhile_append_of_lt h]
  unfold lowerBound
  by_cases hp : PartitionedAt l x
  · rw [if_pos hp, if_pos ((partitionedAt_drop h).2 hp), hdrop, hp.length_dropWhile]
  · rw [if_neg hp, if_neg fun hpd => hp ((partitionedAt_drop h).1 hpd)]

/-- What stands before the result of the search is below `x`. -/
theorem PartitionedAt.lt_of_mem_take (h : PartitionedAt l x) :
    ∀ a ∈ l.take (l.length - tailCount l x), a < x := by
  have hlen := h.length_dropWhile
  have hsplit := List.takeWhile_append_dropWhile (p := fun a => decide (a < x)) (l := l)
  have hsum := congrArg List.length hsplit
  rw [List.length_append] at hsum
  have htake : l.take (l.length - tailCount l x) = l.takeWhile fun a => a < x := by
    have hpos : l.length - tailCount l x = (l.takeWhile fun a => decide (a < x)).length := by omega
    rw [hpos]
    exact List.prefix_iff_eq_take.1 (List.takeWhile_prefix _) |>.symm
  intro a ha
  rw [htake] at ha
  simpa using List.mem_takeWhile_imp ha

/-! ## Sorted samples -/

theorem partitionedAt_of_sorted (h : l.Pairwise (· ≤ ·)) : PartitionedAt l x := by
  intro a ha
  obtain ⟨k, hk, rfl⟩ := List.mem_iff_getElem.1 ha
  have hne : l.dropWhile (fun a => a < x) ≠ [] := List.ne_nil_of_length_pos (by omega)
  have hhead : x ≤ (l.dropWhile fun a => a < x).head hne := by
    have := List.head_dropWhile_not (fun a => decide (a < x)) hne
    simpa using this
  have hsorted : (l.dropWhile fun a => a < x).Pairwise (· ≤ ·) := h.sublist (List.dropWhile_sublist _)
  rw [List.head_eq_getElem] at hhead
  rcases Nat.eq_zero_or_pos k with rfl | hpos
  · exact hhead
  · exact hhead.trans (List.pairwise_iff_getElem.1 hsorted 0 k (by omega) hk hpos)

/-- From a value of a sorted sample on everything is in its tail. -/
theorem length_sub_le_tailCount_of_le {k : ℕ} (h : l.Pairwise (· ≤ ·)) (hk : k < l.length) (hx : x ≤ l[k]) :
    l.length - k ≤ tailCount l x := by
  have htail : tailCount (l.drop k) x = (l.drop k).length := by
    apply List.countP_eq_length.2
    intro a ha
    obtain ⟨j, hj, rfl⟩ := List.mem_iff_getElem.1 ha
    rw [List.getElem_drop]
    rcases Nat.eq_zero_or_pos j with rfl | hpos
    · simpa using hx
    · simp only [decide_eq_true_eq]
      exact hx.trans (List.pairwise_iff_getElem.1 h k (k + j) hk _ (by omega))
  calc l.length - k
      _ = tailCount (l.drop k) x := by rw [htail, List.length_drop]
      _ ≤ tailCount l x := (List.drop_sublist k l).countP_le

/-- In a sorted sample the values below `x` are the first ones. -/
theorem lt_countP_iff (h : l.Pairwise (· ≤ ·)) {k : ℕ} (hk : k < l.length) :
    k < l.countP (fun a => a < x) ↔ l[k] < x := by
  constructor
  · intro hlt
    have hcount := List.length_eq_countP_add_countP (fun a => decide (a < x)) (l := l)
    have htail : l.countP (fun a => ¬ decide (a < x) = true) = tailCount l x :=
      List.countP_congr fun a _ => by simp
    refine (partitionedAt_of_sorted h).lt_of_mem_take _ ?_
    rw [List.mem_take_iff_getElem]
    exact ⟨k, by omega, rfl⟩
  · intro hx
    have hall : (l.take (k + 1)).countP (fun a => a < x) = (l.take (k + 1)).length := by
      rw [List.countP_eq_length]
      intro a ha
      obtain ⟨j, hj, rfl⟩ := List.mem_take_iff_getElem.1 ha
      have hjk : l[j] ≤ l[k] := by
        rcases Nat.eq_or_lt_of_le (by omega : j ≤ k) with rfl | hlt
        · exact le_rfl
        · exact List.pairwise_iff_getElem.1 h j k (by omega) hk hlt
      simpa using hjk.trans_lt hx
    have hsub := (List.take_sublist (k + 1) l).countP_le (p := fun a => decide (a < x))
    rw [hall, List.length_take] at hsub
    omega

section midpoint
variable {α : Type*} [Field α] [LinearOrder α] [IsStrictOrderedRing α] {l : List α} {x : α} {k : ℕ}

def midpoint (l : List α) (k : ℕ) : α := (l.getD (k - 1) 0 + l.getD k 0) / 2

theorem midpoint_le (h : l.Pairwise (· ≤ ·)) (hk : k < l.length) : midpoint l k ≤ l[k] := by
  have hle : l.getD (k - 1) 0 ≤ l[k] := by
    rw [List.getD_eq_getElem _ _ (by omega : k - 1 < l.length)]
    rcases Nat.eq_or_lt_of_le (Nat.sub_le k 1) with heq | hlt
    · simp only [heq, le_refl]
    · exact List.pairwise_iff_getElem.1 h _ _ _ _ hlt
  unfold midpoint
  rw [List.getD_eq_getElem _ _ hk]
  linarith

/-- **The tail up to a midpoint**: at most `k` values of the sorted sample are below it. -/
theorem length_sub_le_tailCount (h : l.Pairwise (· ≤ ·)) (hk : k < l.length) (hx : x ≤ midpoint l k) :
    l.length - k ≤ tailCount l x :=
  length_sub_le_tailCount_of_le h hk (hx.trans (midpoint_le h hk))

theorem midpoint_le_of_mem_drop (h : l.Pairwise (· ≤ ·)) (hk : k < l.length) {a : α} (ha : a ∈ l.drop k) :
    midpoint l k ≤ a := by
  refine (midpoint_le h hk).trans ?_
  obtain ⟨j, hj, rfl⟩ := List.mem_iff_getElem.1 ha
  rw [List.getElem_drop]
  rcases Nat.eq_zero_or_pos j with rfl | hpos
  · exact le_rfl
  · exact List.pairwise_iff_getElem.1 h k (k + j) hk _ (by omega)

theorem getElem_le_midpoint (h : l.Pairwise (· ≤ ·)) (hk : k < l.length) : l[k - 1] ≤ midpoint l k := by
  have hle : l[k - 1] ≤ l[k] := by
    rcases Nat.eq_or_lt_of_le (Nat.sub_le k 1) with heq | hlt
    · simp only [heq, le_refl]
    · exact List.pairwise_iff_getElem.1 h _ _ _ _ hlt
  unfold midpoint
  rw [List.getD_eq_getElem _ _ (by omega : k - 1 < l.length), List.getD_eq_getElem _ _ hk]
  linarith

/-- **Up to a midpoint**: with fewer than `k` values below `x` the midpoint is not below it. -/
theorem le_midpoint_of_countP_lt (h : l.Pairwise (· ≤ ·)) (hk : k < l.length)
    (hcount : l.countP (fun a => a < x) < k) : x ≤ midpoint l k := by
  have hpos : k - 1 < l.length := by omega
  have hnot : ¬ l[k - 1] < x := by
    rw [← lt_countP_iff h hpos]
    omega
  exact (not_lt.1 hnot).trans (getElem_le_midpoint h hk)

end midpoint

/-! ## Sums -/

section sums
variable {α : Type*} [AddMonoid α] [LinearOrder α] [AddLeftMono α]

/-- Adding values to others that are at least `x` leaves a sum below `x` only where the value is negative. -/
theorem countP_zipWith_add_le {x : α} : ∀ {l : List α} (values : List α), (∀ a ∈ l, x ≤ a) →
    (List.zipWith (· + ·) l values).countP (fun a => a < x) ≤ (values.take l.length).countP fun a => a < 0
  | [], _, _ => by simp
  | _ :: _, [], _ => by simp
  | a :: l, b :: values, h => by
    have ih := countP_zipWith_add_le values fun c hc => h c (List.mem_cons_of_mem _ hc)
    have hhead : a + b < x → b < 0 := by
      intro hlt
      by_contra hb
      exact absurd (hlt.trans_le (h a List.mem_cons_self)) (not_lt.2 (le_add_of_nonneg_right (not_lt.1 hb)))
    simp only [List.zipWith_cons_cons, List.length_cons, List.take_succ_cons, List.countP_cons, decide_eq_true_eq]
    split_ifs with h₁ h₂
    · omega
    · exact absurd (hhead h₁) h₂
    · omega
    · omega

end sums

end OrderStatistics
