import Mathlib.Data.List.Chain
import Rmol.PolicyDiff
/-!
# The classes of the yield-based nesting nodes (`MarginalRevenueTransformation.cpp:183-275`)

Which class goes to which node, without yields and demand: one node per step of the hull, filled by
`diffBetweenTwoPolicies`, and one more by `computeLastNode` for the classes that are left.

`AdjustYield.lean` models the whole of `adjustYieldAndDemand` and shows that its nodes are these.
-/

namespace Rmol

variable {κ α : Type*} [DecidableEq κ] [Zero α] [LE α]

/-- The loop over consecutive policies of the hull (`:183`), each with an empty node. -/
def chainNodes (cabin : SegmentCabin κ α) : List (Policy κ α) → Except MrtFault (List (List κ))
  | lCurrentPolicy :: lNextPolicy :: lConvexHull => do
    let lNode ← diffBetweenTwoPolicies cabin [] lNextPolicy lCurrentPolicy
    let lNodeList ← chainNodes cabin (lNextPolicy :: lConvexHull)
    return lNode :: lNodeList
  | _ => return []

/-- The nodes of the steps, and the last node if some class of the cabin is in none of them. -/
def yieldNodes (cabin : SegmentCabin κ α) (lConvexHull : List (Policy κ α)) :
    Except MrtFault (List (List κ)) :=
  match lConvexHull.getLast? with
  | none => .error .emptyConvexHull
  | some lLastPolicy => do
    let lNodeList ← chainNodes cabin lConvexHull
    let lBookingClassCounter := (lNodeList.map List.length).sum
    let lNbOfBookingClass := cabin.bookingClasses.length
    if lNbOfBookingClass < lBookingClassCounter then .error .moreClassesThanCabin
    else if lBookingClassCounter < lNbOfBookingClass then do
      let lLastNode ← computeLastNode cabin [] lLastPolicy
      return lNodeList ++ [lLastNode]
    else return lNodeList

/-- Policies of the cabin, each nested in the next one and different from it. -/
structure NestedChain (cabin : SegmentCabin κ α) (hull : List (Policy κ α)) : Prop where
  shape : ∀ p ∈ hull, OneOfEach cabin.fareFamilies p.bookingClasses
  steps : hull.IsChain fun p q =>
    Nested cabin.fareFamilies p.bookingClasses q.bookingClasses ∧ p.bookingClasses ≠ q.bookingClasses

section
variable {cabin : SegmentCabin κ α} {p q : Policy κ α} {hull : List (Policy κ α)}

theorem NestedChain.tail (h : NestedChain cabin (p :: q :: hull)) : NestedChain cabin (q :: hull) :=
  ⟨fun r hr => h.shape r (List.mem_cons_of_mem _ hr), h.steps.tail⟩

theorem NestedChain.nested (h : NestedChain cabin (p :: q :: hull)) :
    Nested cabin.fareFamilies p.bookingClasses q.bookingClasses :=
  (List.isChain_cons_cons.1 h.steps).1.1

/-- The first step of a chain opens the classes of its gap, at least one. -/
theorem NestedChain.diff (h : NestedChain cabin (p :: q :: hull)) :
    diffBetweenTwoPolicies cabin [] q p =
      .ok (gap cabin.fareFamilies p.bookingClasses q.bookingClasses) ∧
    gap cabin.fareFamilies p.bookingClasses q.bookingClasses ≠ [] := by
  have hp := h.shape p (by simp)
  have hq := h.shape q (by simp)
  have hstep := (List.isChain_cons_cons.1 h.steps).1
  exact ⟨diff_eq [] hp hq hstep.1, gap_ne_nil hstep.1 hp hq hstep.2⟩

/-- The nodes of a chain: none is empty, and together with the classes that the first policy opens
they hold the classes that the last one opens. -/
theorem chainNodes_spec : ∀ (p : Policy κ α) (hull : List (Policy κ α)), NestedChain cabin (p :: hull) →
    ∃ nodes, chainNodes cabin (p :: hull) = .ok nodes ∧ nodes.length = hull.length ∧
      (∀ node ∈ nodes, node ≠ []) ∧
      (nodes.flatten ++ opened cabin.fareFamilies p.bookingClasses).Perm
        (opened cabin.fareFamilies ((p :: hull).getLast (by simp)).bookingClasses)
  | p, [], _ => ⟨[], rfl, rfl, by simp, by simp⟩
  | p, q :: hull, h => by
    obtain ⟨hdiff, hne⟩ := h.diff
    obtain ⟨nodes, hnodes, hlen, hnon, hperm⟩ := chainNodes_spec q hull h.tail
    have hgap := gap_append_opened h.nested
    generalize gap cabin.fareFamilies p.bookingClasses q.bookingClasses = g at hdiff hne hgap
    refine ⟨g :: nodes, by simp [chainNodes, hdiff, hnodes], by simp [hlen],
      by simpa using ⟨hne, hnon⟩, ?_⟩
    rw [List.getLast_cons_cons, List.flatten_cons]
    calc g ++ nodes.flatten ++ opened cabin.fareFamilies p.bookingClasses
        List.Perm _ (nodes.flatten ++ g ++ opened cabin.fareFamilies p.bookingClasses) :=
          List.perm_append_comm.append_right _
        _ = nodes.flatten ++ (g ++ opened cabin.fareFamilies p.bookingClasses) := List.append_assoc ..
        List.Perm _ (nodes.flatten ++ opened cabin.fareFamilies q.bookingClasses) :=
          hgap.append_left _
        List.Perm _ _ := hperm

/-- **The yield-based nodes partition the classes of the cabin**: along a chain that starts with the
empty policy no step leaves its node empty, and the nodes, with the last one where there is one, hold
every class of the cabin exactly once. -/
theorem yieldNodes_partition {e : Policy κ α} (h : NestedChain cabin (e :: hull))
    (he : e.bookingClasses = []) :
    ∃ nodes rest, chainNodes cabin (e :: hull) = .ok nodes ∧
      yieldNodes cabin (e :: hull) = .ok (nodes ++ rest) ∧
      nodes.length = hull.length ∧ (∀ node ∈ nodes, node ≠ []) ∧ rest.length ≤ 1 ∧
      (nodes ++ rest).flatten.Perm cabin.bookingClasses ∧ (nodes ++ rest).flatten.Nodup := by
  obtain ⟨nodes, hnodes, hlen, hne, hperm⟩ := chainNodes_spec e hull h
  have hlast := h.shape _ (List.getLast_mem (List.cons_ne_nil e hull))
  have hget : (e :: hull).getLast? = some ((e :: hull).getLast (by simp)) :=
    List.getLast?_eq_some_getLast _
  generalize (e :: hull).getLast _ = last at hperm hlast hget
  have hopen : opened cabin.fareFamilies ([] : List κ) = [] := by cases cabin.fareFamilies <;> rfl
  rw [he, hopen, List.append_nil] at hperm
  obtain ⟨out, hout, hrest⟩ := lastNode_perm [] hlast
  -- every class of the cabin is in a node of the chain or left for the last node
  have hall : (out ++ nodes.flatten).Perm cabin.bookingClasses :=
    ((hperm.append_left out).trans hrest).trans cabin.union.symm
  have hnodup : (out ++ nodes.flatten).Nodup := (hall.trans cabin.union).nodup_iff.2 cabin.nodup
  have hcount := hall.length_eq
  rw [List.length_append, List.length_flatten] at hcount
  simp only [yieldNodes, hget, hnodes, ok_bind, hout, List.nil_append]
  rw [if_neg (by omega)]
  split
  · refine ⟨nodes, [out], rfl, rfl, hlen, hne, le_rfl, ?_⟩
    have hcomm : (nodes ++ [out]).flatten.Perm (out ++ nodes.flatten) := by
      simpa using List.perm_append_comm
    exact ⟨hcomm.trans hall, hcomm.nodup_iff.2 hnodup⟩
  · have hnil : out = [] := List.length_eq_zero_iff.1 (by omega)
    subst hnil
    exact ⟨nodes, [], rfl, by simp, hlen, hne, by simp, by simpa using hall, by simpa using hnodup⟩

end

/-! ### A chain of three policies

The second policy opens the lower class of the first fare family, the third one also the higher class
of the second family; the lower class there stays for the last node. -/

def twoFamilyCabin : SegmentCabin ℕ ℤ where
  bookingClasses := [1, 2, 3, 4]
  fareFamilies := [⟨[1, 2], fun _ => none⟩, ⟨[3, 4], fun _ => none⟩]
  nodup := by decide
  union := by decide

def classPolicy (classes : List ℕ) : Policy ℕ ℤ := ⟨classes, 0, 0, [], le_rfl⟩

theorem twoFamilyChain : NestedChain twoFamilyCabin [classPolicy [], classPolicy [2], classPolicy [2, 3]] :=
  ⟨by simp [classPolicy, OneOfEach, twoFamilyCabin],
    by simp [classPolicy, Nested, twoFamilyCabin]⟩

theorem yieldNodes_partition_twoFamily :
    ∃ nodes rest, chainNodes twoFamilyCabin [classPolicy [], classPolicy [2], classPolicy [2, 3]] = .ok nodes ∧
      yieldNodes twoFamilyCabin [classPolicy [], classPolicy [2], classPolicy [2, 3]] = .ok (nodes ++ rest) ∧
      nodes.length = 2 ∧ (∀ node ∈ nodes, node ≠ []) ∧ rest.length ≤ 1 ∧
      (nodes ++ rest).flatten.Perm [1, 2, 3, 4] ∧ (nodes ++ rest).flatten.Nodup :=
  yieldNodes_partition twoFamilyChain rfl

example : yieldNodes twoFamilyCabin [classPolicy [], classPolicy [2], classPolicy [2, 3]] =
    .ok [[2, 1], [3], [4]] := rfl

end Rmol
