import Mathlib.Data.List.Nodup
import Mathlib.Data.List.TakeWhile
/-!
# Ladders: a duplicate-free list climbed from below

A list is read from its end towards its head. `rungs l a b` are the entries at the positions
`a, …, b - 1`; walking up from the entry at position `b - 1` and stopping in front of the entry at
position `a - 1` meets exactly these, in reverse (`reverse_dropWhile`, `reverse_takeWhile`).
Consecutive runs of rungs fill the list without gap or overlap (`take_append_rungs`).
-/

namespace Ladder

variable {κ : Type*} {l : List κ} {a b : ℕ}

/-- The entries at the positions from `a` up to, but not including, `b`. -/
def rungs (l : List κ) (a b : ℕ) : List κ := (l.take b).drop a

theorem take_append_rungs (h : a ≤ b) : l.take a ++ rungs l a b = l.take b := by
  have e := List.take_append_drop a (l.take b)
  rwa [List.take_take, Nat.min_eq_left h] at e

theorem rungs_length : (rungs l a b).length = min b l.length - a := by
  simp [rungs]

theorem rungs_ne_nil (h : a < b) (hb : b ≤ l.length) : rungs l a b ≠ [] := by
  intro h0
  have := congrArg List.length h0
  simp [rungs_length] at this
  omega

variable [DecidableEq κ] {c d : κ}

/-- Splitting a list at an entry: what stands before it are the entries above it. -/
theorem split_at_mem (hc : c ∈ l) :
    ∃ r, l = l.take (l.idxOf c) ++ c :: r := by
  have hlt := List.idxOf_lt_length_iff.2 hc
  refine ⟨l.drop (l.idxOf c + 1), ?_⟩
  conv_lhs => rw [← List.take_append_drop (l.idxOf c) l]
  rw [List.drop_eq_getElem_cons hlt, List.getElem_idxOf]

theorem take_idxOf_succ (hc : c ∈ l) : l.take (l.idxOf c + 1) = l.take (l.idxOf c) ++ [c] := by
  have hlt := List.idxOf_lt_length_iff.2 hc
  rw [List.take_add_one, List.getElem?_eq_getElem hlt, List.getElem_idxOf]
  rfl

theorem notMem_take_idxOf (c : κ) : ∀ l : List κ, c ∉ l.take (l.idxOf c)
  | [] => by simp
  | d :: l => by
    by_cases h : d = c
    · subst h; simp
    · rw [List.idxOf_cons_ne _ h, List.take_succ_cons]
      simp only [List.mem_cons, not_or]
      exact ⟨Ne.symm h, notMem_take_idxOf c l⟩

/-- Walking up to an entry: the rest of the walk is the reversed list of the entries up to it. -/
theorem reverse_dropWhile (hl : l.Nodup) (hc : c ∈ l) :
    l.reverse.dropWhile (fun d => d ≠ c) = (l.take (l.idxOf c + 1)).reverse := by
  obtain ⟨r, e⟩ := split_at_mem hc
  have hr : ∀ d ∈ r.reverse, decide (d ≠ c) = true := by
    intro d hd
    rw [e, List.nodup_append] at hl
    have hcr := (List.nodup_cons.1 hl.2.1).1
    simp only [ne_eq, decide_not, Bool.not_eq_eq_eq_not, Bool.not_true, decide_eq_false_iff_not]
    rintro rfl
    exact hcr (List.mem_reverse.1 hd)
  conv_lhs => rw [e]
  rw [take_idxOf_succ hc]
  simp only [List.reverse_append, List.reverse_cons, List.append_assoc, List.reverse_nil,
    List.nil_append]
  rw [List.dropWhile_append_of_pos hr]
  simp

/-- Walking up from a position and stopping in front of an entry above it. -/
theorem reverse_takeWhile (hl : l.Nodup) (hc : c ∈ l) (h : l.idxOf c < b) :
    (l.take b).reverse.takeWhile (fun d => d ≠ c) = (rungs l (l.idxOf c + 1) b).reverse := by
  have hsplit := take_append_rungs (l := l) (a := l.idxOf c + 1) (b := b) h
  rw [take_idxOf_succ hc, List.append_assoc] at hsplit
  have hr : ∀ d ∈ (rungs l (l.idxOf c + 1) b).reverse, decide (d ≠ c) = true := by
    intro d hd
    have hnd : (l.take b).Nodup := hl.sublist (List.take_sublist _ _)
    rw [← hsplit, List.nodup_append] at hnd
    have hcr := (List.nodup_cons.1 hnd.2.1).1
    simp only [ne_eq, decide_not, Bool.not_eq_eq_eq_not, Bool.not_true, decide_eq_false_iff_not]
    rintro rfl
    exact hcr (List.mem_reverse.1 hd)
  rw [← hsplit]
  simp only [List.reverse_append, List.reverse_cons, List.append_assoc, List.nil_append,
    List.cons_append]
  rw [List.takeWhile_append_of_pos hr]
  simp

/-- An entry stands in front of position `b` iff its index is below `b`. -/
theorem mem_take_iff_idxOf_lt (hc : c ∈ l) : c ∈ l.take b ↔ l.idxOf c < b := by
  constructor
  · intro h
    by_contra hlt
    have hsub : l.take b = (l.take (l.idxOf c)).take b := by
      rw [List.take_take, Nat.min_eq_left (Nat.not_lt.1 hlt)]
    rw [hsub] at h
    exact notMem_take_idxOf c l (List.mem_of_mem_take h)
  · intro h
    have := take_append_rungs (l := l) (a := l.idxOf c + 1) (b := b) h
    rw [← this, take_idxOf_succ hc]
    simp

end Ladder
