import Rmol.Bom
import Rmol.Lib.Ladder
/-!
# `PolicyHelper`: policy differences, the last node, nesting (`PolicyHelper.cpp`)

| here | there |
| --- | --- |
| `diffBetweenTwoPolicies`                       | `PolicyHelper.cpp:23` |
| `intersectionBetweenPolicyAndBookingClassList` | `PolicyHelper.cpp:53` |
| `diffBetweenBookingClassAndPolicy`             | `PolicyHelper.cpp:95` |
| `computeLastNode`                              | `PolicyHelper.cpp:163` |
| `isNested`                                     | `PolicyHelper.cpp:220` |

A policy without a class list (`hasList` is false) is one whose list is empty. A nesting node is the
list of the classes added to it; the yield of the node is set by the callers.

From a policy to one that it is `Nested` in, the difference adds the classes that open (`gap`):
`diff_eq` and its converse `nested_of_diff` in `PolicyDiff.lean`.
-/

namespace Rmol

variable {κ α : Type*} [DecidableEq κ]

/-- The ways in which policy differences and the marginal revenue transformation stop. -/
inductive MrtFault where
  /-- `EmptyBookingClassListException` (`PolicyHelper.cpp:108`). -/
  | emptyBookingClassList
  /-- `MissingBookingClassInFareFamilyException` (`PolicyHelper.cpp:127`). -/
  | missingBookingClassInFareFamily
  /-- `assert(ritBC != lFFBCList.rend())` (`PolicyHelper.cpp:158`). -/
  | secondPolicyClassNotFound
  /-- `assert (lNbOfFFs >= lNbOfClasses)` (`PolicyHelper.cpp:176`). -/
  | moreClassesThanFareFamilies
  /-- `assert (itCurrentPolicy != lConvexHull.end())` (`MarginalRevenueTransformation.cpp:164`). -/
  | emptyConvexHull
  /-- `assert (lAdjustedDemMean > 0.0)` (`:215`). -/
  | adjustedDemMean
  /-- `assert (lNextStdDev > lCurrentStdDev)` (`:219`). -/
  | nextStdDev
  /-- `assert (lAdjustedYield > 0.0)` (`:224`). -/
  | adjustedYield
  /-- `assert (itBC != lBCList.end())` (`:233`). -/
  | emptyNode
  /-- `++itNode` on the end of the node list (`:184`): undefined. -/
  | incrementPastEnd
  /-- `assert (lNbOfBookingClass >= lBookingClassCounter)` (`:249`). -/
  | moreClassesThanCabin
  /-- `assert (lLastNode_ptr != NULL)` (`:270`). -/
  | nullLastNode
deriving DecidableEq, Repr

section model
variable [Zero α] [LE α]

/-- The first class of the list that the policy holds. -/
def intersectionBetweenPolicyAndBookingClassList (iBCList : List κ) (iPolicy : Policy κ α) : Option κ :=
  iBCList.find? fun lFFClassCode => lFFClassCode ∈ iPolicy.bookingClasses

/-- The fare family is walked from its lowest class up: first to the class of the first policy,
then adding classes to the node until the class of the second policy, if it has one here. -/
def diffBetweenBookingClassAndPolicy (ioNode lFFBCList : List κ) (iFirstPolicyClassCode : κ)
    (iSecondPolicy : Policy κ α) : Except MrtFault (List κ) :=
  if lFFBCList = [] then .error .emptyBookingClassList
  else
    let ritBC := lFFBCList.reverse.dropWhile fun lClassCode => lClassCode ≠ iFirstPolicyClassCode
    if ritBC = [] then .error .missingBookingClassInFareFamily
    else
      match intersectionBetweenPolicyAndBookingClassList lFFBCList iSecondPolicy with
      | none => .ok (ioNode ++ ritBC)
      | some lSecondPolicyClassCode =>
        if lSecondPolicyClassCode ∈ ritBC then
          .ok (ioNode ++ ritBC.takeWhile fun lClassCode => lClassCode ≠ lSecondPolicyClassCode)
        else .error .secondPolicyClassNotFound

/-- First policy minus second: one walk per class of the first policy. -/
def diffBetweenTwoPolicies (cabin : SegmentCabin κ α) (ioNode : List κ)
    (iFirstPolicy iSecondPolicy : Policy κ α) : Except MrtFault (List κ) :=
  iFirstPolicy.bookingClasses.foldlM (fun node c =>
    diffBetweenBookingClassAndPolicy node (cabin.parentClasses c) c iSecondPolicy) ioNode

/-- All classes of the closed fare families, the last family first, then of every open family the
classes below the one that the policy holds. -/
def computeLastNode (cabin : SegmentCabin κ α) (ioNode : List κ) (iPolicy : Policy κ α) :
    Except MrtFault (List κ) :=
  if iPolicy.bookingClasses.length ≤ cabin.fareFamilies.length then
    let lNbOfClosedFFs := cabin.fareFamilies.length - iPolicy.bookingClasses.length
    let closed := (cabin.fareFamilies.reverse.take lNbOfClosedFFs).flatMap fun lFF =>
      lFF.bookingClasses.reverse
    let remaining := iPolicy.bookingClasses.reverse.flatMap fun lBC =>
      (cabin.parentClasses lBC).reverse.takeWhile fun lCurrentBC => lCurrentBC ≠ lBC
    .ok (ioNode ++ closed ++ remaining)
  else .error .moreClassesThanFareFamilies

/-- The inner loop of `isNested` (`:266`): is the first class met no later than the second one? -/
def notBelow (lFirstKey lSecondKey : κ) : List κ → Bool
  | [] => true
  | lKey :: lBCList =>
    if lFirstKey = lKey then true
    else if lSecondKey = lKey then false
    else notBelow lFirstKey lSecondKey lBCList

/-- The outer loop of `isNested` (`:247`). Equal keys leave the whole loop (`break`, `:259`), so the
classes of the later fare families are not compared. -/
def isNestedLoop (cabin : SegmentCabin κ α) : List κ → List κ → Bool
  | lFirstKey :: lFirstBCList, lSecondKey :: lSecondBCList =>
    if lFirstKey = lSecondKey then true
    else if notBelow lFirstKey lSecondKey (cabin.parentClasses lFirstKey) then
      isNestedLoop cabin lFirstBCList lSecondBCList
    else false
  | _, _ => true

def isNested (cabin : SegmentCabin κ α) (iFirstPolicy iSecondPolicy : Policy κ α) : Bool :=
  if iFirstPolicy.bookingClasses = [] then true
  else if iSecondPolicy.bookingClasses = [] then false
  else if iFirstPolicy.bookingClasses.length > iSecondPolicy.bookingClasses.length then false
  else isNestedLoop cabin iFirstPolicy.bookingClasses iSecondPolicy.bookingClasses

end model

/-! ## Open classes -/

/-- The classes that a policy opens: in each of its fare families the one it lists and all above. -/
def opened : List (FareFamily κ α) → List κ → List κ
  | f :: fs, p :: ps => f.bookingClasses.take (f.bookingClasses.idxOf p + 1) ++ opened fs ps
  | _, _ => []

/-- The classes that open from the policy `ps` to the policy `qs`, as the difference lists them. -/
def gap : List (FareFamily κ α) → List κ → List κ → List κ
  | f :: fs, [], q :: qs =>
    (f.bookingClasses.take (f.bookingClasses.idxOf q + 1)).reverse ++ gap fs [] qs
  | f :: fs, p :: ps, q :: qs =>
    (Ladder.rungs f.bookingClasses (f.bookingClasses.idxOf p + 1)
      (f.bookingClasses.idxOf q + 1)).reverse ++ gap fs ps qs
  | _, _, _ => []

theorem opened_sublist : ∀ (fs : List (FareFamily κ α)) (ps : List κ),
    (opened fs ps).Sublist (fs.flatMap FareFamily.bookingClasses)
  | [], _ => by simp [opened]
  | f :: fs, [] => by simp [opened]
  | f :: fs, p :: ps => by
    simp only [opened, List.flatMap_cons]
    exact (List.take_sublist _ _).append (opened_sublist fs ps)

/-- What opens between two nested policies, together with what was open, is what is open then. -/
theorem gap_append_opened : ∀ {fs : List (FareFamily κ α)} {ps qs : List κ}, Nested fs ps qs →
    (gap fs ps qs ++ opened fs ps).Perm (opened fs qs)
  | [], [], [], _ | [], [], _ :: _, _ | _ :: _, [], [], _ => by simp [gap, opened]
  | f :: fs, [], q :: qs, _ => by
    have ih := gap_append_opened (by cases fs <;> simp [Nested] : Nested fs [] qs)
    have e : opened fs ([] : List κ) = [] := by cases fs <;> rfl
    rw [e, List.append_nil] at ih
    simp only [gap, opened, List.append_nil]
    exact (List.reverse_perm _).append ih
  | f :: fs, p :: ps, q :: qs, h => by
    have ih := gap_append_opened h.2
    simp only [gap, opened]
    have hsplit := Ladder.take_append_rungs (l := f.bookingClasses)
      (Nat.succ_le_succ h.1 : f.bookingClasses.idxOf p + 1 ≤ f.bookingClasses.idxOf q + 1)
    rw [← hsplit]
    generalize Ladder.rungs f.bookingClasses _ _ = r
    generalize f.bookingClasses.take _ = t
    calc r.reverse ++ gap fs ps qs ++ (t ++ opened fs ps)
        _ = r.reverse ++ (gap fs ps qs ++ t ++ opened fs ps) := by simp only [List.append_assoc]
        List.Perm _ (r.reverse ++ (t ++ gap fs ps qs ++ opened fs ps)) :=
          ((List.perm_append_comm.append_right _).append_left _)
        _ = r.reverse ++ t ++ (gap fs ps qs ++ opened fs ps) := by simp only [List.append_assoc]
        List.Perm _ (t ++ r ++ opened fs qs) :=
          (((List.reverse_perm r).append_right t).trans List.perm_append_comm).append ih
  | [], _ :: _, _, h => by simp [Nested] at h
  | _ :: _, _ :: _, [], h => by simp [Nested] at h

/-- A policy that differs from one that is nested in it opens at least one class. -/
theorem gap_ne_nil : ∀ {fs : List (FareFamily κ α)} {ps qs : List κ}, Nested fs ps qs →
    OneOfEach fs ps → OneOfEach fs qs → ps ≠ qs → gap fs ps qs ≠ []
  | _, [], [], _, _, _, h => absurd rfl h
  | [], _, _ :: _, _, _, hq, _ => hq.elim
  | f :: fs, [], q :: qs, _, _, hq, _ => by
    have hlt := List.idxOf_lt_length_iff.2 hq.1
    have := Ladder.rungs_ne_nil (l := f.bookingClasses) (Nat.succ_pos (f.bookingClasses.idxOf q)) hlt
    simp only [gap, ne_eq, List.append_eq_nil_iff, List.reverse_eq_nil_iff, not_and]
    exact fun h0 => absurd h0 this
  | f :: fs, p :: ps, q :: qs, h, hp, hq, hne => by
    simp only [gap, ne_eq, List.append_eq_nil_iff, List.reverse_eq_nil_iff, not_and]
    intro h0
    have hlt := List.idxOf_lt_length_iff.2 hq.1
    -- the first family opens nothing, so both policies hold the same class there
    have hidx : f.bookingClasses.idxOf p = f.bookingClasses.idxOf q := by
      by_contra hd
      exact Ladder.rungs_ne_nil (by have := h.1; omega) hlt h0
    have hpq : p = q := (List.idxOf_inj hp.1).1 hidx
    exact gap_ne_nil h.2 hp.2 hq.2 (fun e => hne (by rw [hpq, e]))
  | _ :: _, _ :: _, [], h, _, _, _ => by simp [Nested] at h
  | [], _ :: _, [], h, _, _, _ => by simp [Nested] at h

end Rmol
