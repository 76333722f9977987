import Mathlib.Algebra.GroupWithZero.Nat
import Mathlib.Algebra.Order.BigOperators.Group.List
import Mathlib.Data.List.Sort
import Mathlib.Order.Bounds.Basic
/-!
# Sharing units among lists of values

Each list names what its first, second, … unit is worth. A share `ks` gives `ks[i]` units to the `i`-th list, which
takes that many values from its front.

| here | meaning |
| --- | --- |
| `merged ls`   | the values of all lists from high to low |
| `taken ls ks` | the values that the share `ks` takes |

No share of `k` units takes more than the `k` highest values of all lists (`sum_taken_le`). Merging lists that do
not rise picks a front of each of them (`exists_take_merge`), so there is a share that takes just these values
(`exists_taken_perm`, `isGreatest_sum_take`). Lists that rise do no harm if the others are above them.
-/

namespace Allocation

variable {α : Type*} [LinearOrder α] {l l' : List α} {ls : List (List α)} {ks : List ℕ} {k : ℕ}

def merged (ls : List (List α)) : List α := ls.flatten.insertionSort (· ≥ ·)

omit [LinearOrder α] in
/-- The share of the first list comes first. -/
def taken (ls : List (List α)) (ks : List ℕ) : List α := (List.zipWith (fun l k => l.take k) ls ks).flatten

theorem merged_pairwise (ls : List (List α)) : (merged ls).Pairwise (· ≥ ·) := List.pairwise_insertionSort _ _

theorem merged_perm (ls : List (List α)) : (merged ls).Perm ls.flatten := List.perm_insertionSort _ _

/-- There is one list from high to low with given values. -/
theorem eq_merged (hl : l.Pairwise (· ≥ ·)) (h : l.Perm ls.flatten) : l = merged ls :=
  (h.trans (merged_perm ls).symm).eq_of_pairwise' hl (merged_pairwise ls)

/-! ## Merging -/

/-- A list that does not rise is merged into the others. -/
theorem merged_cons (hl : l.Pairwise (· ≥ ·)) : merged (l :: ls) = l.merge (merged ls) fun a b => decide (a ≥ b) := by
  refine (eq_merged ?_ ?_).symm
  · simpa using hl.merge (merged_pairwise ls)
  · rw [List.flatten_cons]
    exact (List.merge_perm_append _).trans ((merged_perm ls).append_left l)

omit [LinearOrder α] in
/-- The first values of two merged lists are a front of each of them. -/
theorem exists_take_merge (le : α → α → Bool) : ∀ (l l' : List α) (k : ℕ),
    ∃ i ≤ k, ((l.merge l' le).take k).Perm (l.take i ++ l'.take (k - i))
  | [], l', k => ⟨0, Nat.zero_le k, by simp⟩
  | a :: l, [], k => ⟨k, le_rfl, by simp⟩
  | a :: l, b :: l', 0 => ⟨0, le_rfl, by simp⟩
  | a :: l, b :: l', k + 1 => by
    by_cases hab : le a b
    · obtain ⟨i, hi, hperm⟩ := exists_take_merge le l (b :: l') k
      refine ⟨i + 1, Nat.succ_le_succ hi, ?_⟩
      rw [List.cons_merge_cons_pos _ _ _ hab, List.take_succ_cons, List.take_succ_cons, Nat.add_sub_add_right]
      exact hperm.cons a
    · obtain ⟨i, hi, hperm⟩ := exists_take_merge le (a :: l) l' k
      refine ⟨i, hi.trans (Nat.le_succ k), ?_⟩
      rw [List.cons_merge_cons_neg _ _ _ hab, List.take_succ_cons, Nat.succ_sub hi, List.take_succ_cons]
      exact (hperm.cons b).trans List.perm_middle.symm

/-- **Merging picks a front of each list.** Of the lists that `p` chooses, which do not rise, some share takes the
highest values; it gives nothing to the other lists. -/
theorem exists_taken_perm (p : List α → Bool) : ∀ (ls : List (List α)) (k : ℕ),
    (∀ l ∈ ls, p l = true → l.Pairwise (· ≥ ·)) →
    ∃ ks : List ℕ, ks.length = ls.length ∧ ks.sum ≤ k ∧ (taken ls ks).Perm ((merged (ls.filter p)).take k)
  | [], k, _ => ⟨[], rfl, Nat.zero_le k, by simp [taken, merged]⟩
  | l :: ls, k, h => by
    have hrest : ∀ m ∈ ls, p m = true → m.Pairwise (· ≥ ·) := fun m hm => h m (List.mem_cons_of_mem _ hm)
    by_cases hp : p l = true
    · obtain ⟨i, hi, hfront⟩ := exists_take_merge (fun a b => decide (a ≥ b)) l (merged (ls.filter p)) k
      obtain ⟨ks, hlen, hsum, hks⟩ := exists_taken_perm p ls (k - i) hrest
      refine ⟨i :: ks, by rw [List.length_cons, List.length_cons, hlen], by rw [List.sum_cons]; omega, ?_⟩
      rw [List.filter_cons_of_pos hp, merged_cons (h l List.mem_cons_self hp)]
      exact (hks.append_left (l.take i)).trans hfront.symm
    · obtain ⟨ks, hlen, hsum, hks⟩ := exists_taken_perm p ls k hrest
      refine ⟨0 :: ks, by rw [List.length_cons, List.length_cons, hlen], by rwa [List.sum_cons, Nat.zero_add], ?_⟩
      rw [List.filter_cons_of_neg hp]
      exact hks

/-- Lists that the others are above do not change the highest values. -/
theorem merged_eq_append (p : List α → Bool)
    (habove : ∀ l ∈ ls, p l = true → ∀ a ∈ l, ∀ m ∈ ls, p m = false → ∀ b ∈ m, b ≤ a) :
    merged ls = merged (ls.filter p) ++ merged (ls.filter fun l => !p l) := by
  refine (eq_merged ?_ ?_).symm
  · refine List.pairwise_append.2 ⟨merged_pairwise _, merged_pairwise _, fun a ha b hb => ?_⟩
    obtain ⟨l, hl, hal⟩ := List.mem_flatten.1 ((merged_perm _).subset ha)
    obtain ⟨m, hm, hbm⟩ := List.mem_flatten.1 ((merged_perm _).subset hb)
    rw [List.mem_filter] at hl hm
    exact habove l hl.1 hl.2 a hal m hm.1 (by simpa using hm.2) b hbm
  · refine ((merged_perm _).append (merged_perm _)).trans ?_
    rw [← List.flatten_append]
    exact (List.filter_append_perm p ls).flatten

/-! ## Shares -/

omit [LinearOrder α] in
theorem taken_sublist : ∀ (ls : List (List α)) (ks : List ℕ), (taken ls ks).Sublist ls.flatten
  | [], _ => List.nil_sublist _
  | _ :: _, [] => List.nil_sublist _
  | l :: ls, k :: ks => (List.take_sublist k l).append (taken_sublist ls ks)

omit [LinearOrder α] in
/-- A share of no more units than each list has. -/
theorem length_taken : ∀ (ls : List (List α)) (ks : List ℕ), ks.length = ls.length → (∀ l ∈ ls, ks.sum ≤ l.length) →
    (taken ls ks).length = ks.sum
  | [], [], _, _ => rfl
  | l :: ls, k :: ks, hlen, h => by
    have hl := h l List.mem_cons_self
    rw [List.sum_cons] at hl
    have hrest : (taken ls ks).length = ks.sum := by
      refine length_taken ls ks (Nat.succ.inj hlen) fun m hm => ?_
      have hm' := h m (List.mem_cons_of_mem _ hm)
      rw [List.sum_cons] at hm'
      omega
    rw [taken, List.zipWith_cons_cons, List.flatten_cons, List.length_append, List.length_take, List.sum_cons,
      ← taken, hrest]
    omega

section sums
variable [AddCommMonoid α] [IsOrderedAddMonoid α]

/-- Of a list that does not rise, no values are worth more than as many of the first ones. -/
theorem sum_le_sum_take_of_sublist : ∀ {l l' : List α}, l.Pairwise (· ≥ ·) → l'.Sublist l →
    l'.sum ≤ (l.take l'.length).sum
  | _, [], _, _ => by simp
  | [], b :: l', _, h => by cases h
  | a :: l, b :: l', hl, h => by
    rw [List.pairwise_cons] at hl
    have hb : b ≤ a := by
      rcases List.mem_cons.1 (h.subset List.mem_cons_self) with rfl | hb
      · exact le_rfl
      · exact hl.1 b hb
    rw [List.sum_cons, List.length_cons, List.take_succ_cons, List.sum_cons]
    exact add_le_add hb (sum_le_sum_take_of_sublist hl.2 h.tail)

theorem sum_le_sum_take_of_subperm (hl : l.Pairwise (· ≥ ·)) (h : l'.Subperm l) : l'.sum ≤ (l.take l'.length).sum := by
  obtain ⟨m, hperm, hsub⟩ := h
  rw [← hperm.sum_eq, ← hperm.length_eq]
  exact sum_le_sum_take_of_sublist hl hsub

/-- **No share takes more** than the highest values of all lists. -/
theorem sum_taken_le (hlen : ks.length = ls.length) (hlong : ∀ l ∈ ls, ks.sum ≤ l.length) :
    (taken ls ks).sum ≤ ((merged ls).take ks.sum).sum := by
  have hsub : (taken ls ks).Subperm (merged ls) := (taken_sublist ls ks).subperm.trans (merged_perm ls).symm.subperm
  have hle := sum_le_sum_take_of_subperm (merged_pairwise ls) hsub
  rwa [length_taken ls ks hlen hlong] at hle

/-- **The best share** takes the highest values, where the lists that `p` chooses do not rise and are above the others. -/
theorem isGreatest_sum_take (p : List α → Bool) (hsome : ∃ l ∈ ls, p l = true)
    (hfalling : ∀ l ∈ ls, p l = true → l.Pairwise (· ≥ ·))
    (habove : ∀ l ∈ ls, p l = true → ∀ a ∈ l, ∀ m ∈ ls, p m = false → ∀ b ∈ m, b ≤ a)
    (hlong : ∀ l ∈ ls, k ≤ l.length) :
    IsGreatest {v | ∃ ks : List ℕ, ks.length = ls.length ∧ ks.sum = k ∧ v = (taken ls ks).sum} ((merged ls).take k).sum := by
  constructor
  · obtain ⟨ks, hlen, hsum, hperm⟩ := exists_taken_perm p ls k hfalling
    obtain ⟨l, hl, hp⟩ := hsome
    -- one list alone has enough values
    have hmerged : k ≤ (merged (ls.filter p)).length := by
      rw [(merged_perm _).length_eq]
      have hsub : l.Sublist (ls.filter p).flatten := List.sublist_flatten_of_mem (List.mem_filter.2 ⟨hl, hp⟩)
      exact (hlong l hl).trans hsub.length_le
    have htaken : (taken ls ks).length = k := by rw [hperm.length_eq, List.length_take, Nat.min_eq_left hmerged]
    have hks : ks.sum = k := by
      rw [← htaken, length_taken ls ks hlen fun m hm => hsum.trans (hlong m hm)]
    refine ⟨ks, hlen, hks, ?_⟩
    rw [hperm.sum_eq, merged_eq_append p habove, List.take_append_of_le_length hmerged]
  · rintro v ⟨ks, hlen, rfl, rfl⟩
    exact sum_taken_le hlen hlong

omit [IsOrderedAddMonoid α] in
/-- A list alone gives all that it has, whether it rises or not. -/
theorem isGreatest_sum_take_single (hl : l.length = k) :
    IsGreatest {v | ∃ ks : List ℕ, ks.length = [l].length ∧ ks.sum = k ∧ v = (taken [l] ks).sum}
      ((merged [l]).take k).sum := by
  have hperm : (merged [l]).Perm l := by simpa using merged_perm [l]
  have hall : ((merged [l]).take k).sum = l.sum := by
    rw [List.take_of_length_le (hperm.length_eq.trans hl).le, hperm.sum_eq]
  rw [hall]
  constructor
  · exact ⟨[k], rfl, by simp, by simp [taken, ← hl]⟩
  · rintro v ⟨ks, hlen, hsum, rfl⟩
    obtain ⟨i, rfl⟩ := List.length_eq_one_iff.1 hlen
    rw [List.sum_singleton] at hsum
    simp [taken, hsum, ← hl]

end sums

end Allocation
