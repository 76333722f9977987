import Mathlib.Algebra.Order.Floor.Ring
import Mathlib.Analysis.Real.Sqrt
import Mathlib.Data.List.Perm.Lattice
import Rmol.Bom
import Rmol.Lib.Grouping
/-!
# The virtual classes of a leg-cabin (`Optimiser.cpp:163-243`)

| here | there |
| --- | --- |
| `LegVirtualClass`                              | the part of `stdair::VirtualClassStruct` that is set here |
| `roundedYieldLevel`                            | `static_cast<YieldLevel_T> (std::floor (lYield + 0.5))` (`:194-196`) |
| `addBookingClass`                              | one pass of the loop on booking classes (`:181-226`) |
| `buildVirtualClassListForLegBasedOptimisation` | `:163` |

The booking classes are grouped by their rounded yield in a map, which is then read from the highest level
down. `build_eq` gives the list in closed form: for each level that occurs, in descending order, the classes
of that level with the sum of their means and the root of the sum of their squared deviations.
-/

namespace Rmol

open Grouping

variable {κ : Type}

/-- `stdair::VirtualClassStruct`, with the booking classes it stands for. -/
structure LegVirtualClass (κ : Type) where
  bookingClasses : List κ
  yield : ℝ
  mean : ℝ
  stdDev : ℝ

inductive OptimiserFault where
  /-- `assert (itSC != lSegmentCabinList.end())` (`:172`). -/
  | noSegmentCabin
  /-- `assert (lYield >= 0.0)` (`:193`). -/
  | negativeYield
deriving DecidableEq, Repr

/-- The nearest integer, halves up. `YieldLevel_T` is read as unbounded. -/
def roundedYieldLevel {α : Type*} [Field α] [LinearOrder α] [FloorRing α] (lYield : α) : ℤ := ⌊lYield + 1 / (2 : ℕ)⌋

/-- `VirtualClassStruct (lBookingClassList)` with the values of its first class. -/
noncomputable def newVirtualClass (classes : ClassStore κ ℝ) (c : κ) : LegVirtualClass κ where
  bookingClasses := [c]
  yield := roundedYieldLevel (classes c).adjustedYield
  mean := (classes c).mean
  stdDev := (classes c).stdDev

/-- Another class of the same level: the two demand distributions are summed. -/
noncomputable def sumVirtualClass (classes : ClassStore κ ℝ) (lVirtualClass : LegVirtualClass κ) (c : κ) :
    LegVirtualClass κ where
  bookingClasses := lVirtualClass.bookingClasses ++ [c]
  yield := lVirtualClass.yield
  mean := lVirtualClass.mean + (classes c).mean
  stdDev := √(lVirtualClass.stdDev * lVirtualClass.stdDev + (classes c).stdDev * (classes c).stdDev)

/-- A class without demand, or with a level of zero, has no virtual class. -/
noncomputable def addBookingClass (classes : ClassStore κ ℝ) (lVirtualClassMap : Std.TreeMap ℤ (LegVirtualClass κ))
    (c : κ) : Except OptimiserFault (Std.TreeMap ℤ (LegVirtualClass κ)) :=
  if (classes c).mean > 0 then
    let lYield := (classes c).adjustedYield
    if ¬ lYield ≥ 0 then .error .negativeYield
    else
      let lRoundedYieldLevel := roundedYieldLevel lYield
      if lRoundedYieldLevel > 0 then
        match lVirtualClassMap[lRoundedYieldLevel]? with
        | none => return lVirtualClassMap.insert lRoundedYieldLevel (newVirtualClass classes c)
        | some lVirtualClass =>
          return lVirtualClassMap.insert lRoundedYieldLevel (sumVirtualClass classes lVirtualClass c)
      else return lVirtualClassMap
  else return lVirtualClassMap

/-- The class list is that of the first segment-cabin. The result is the list of virtual classes, from the
highest yield down, and whether there is one. -/
noncomputable def buildVirtualClassListForLegBasedOptimisation (classes : ClassStore κ ℝ)
    (lSegmentCabinList : List (List κ)) : Except OptimiserFault (List (LegVirtualClass κ) × Bool) :=
  match lSegmentCabinList with
  | [] => .error .noSegmentCabin
  | lBookingClassList :: _ => do
    let lVirtualClassMap ← lBookingClassList.foldlM (addBookingClass classes) ∅
    let lVirtualClassList := (lVirtualClassMap.toList.map Prod.snd).reverse
    return (lVirtualClassList, !lVirtualClassList.isEmpty)

/-! ## The list in closed form -/

section closed
variable (classes : ClassStore κ ℝ)

/-- The level whose virtual class a booking class goes to. -/
noncomputable def levelOf (c : κ) : Option ℤ :=
  if (classes c).mean > 0 ∧ roundedYieldLevel (classes c).adjustedYield > 0 then
    some (roundedYieldLevel (classes c).adjustedYield)
  else none

/-- The booking classes of a level, with the sums of their means and of their squared deviations. -/
noncomputable def virtualClassOf (lBookingClassList : List κ) (level : ℤ) : LegVirtualClass κ where
  bookingClasses := members (levelOf classes) lBookingClassList level
  yield := level
  mean := ((members (levelOf classes) lBookingClassList level).map fun c => (classes c).mean).sum
  stdDev := √((members (levelOf classes) lBookingClassList level).map fun c => (classes c).stdDev ^ 2).sum

variable {classes}

theorem roundedYieldLevel_natCast (c : ℕ) : roundedYieldLevel (c : ℝ) = c := by
  rw [roundedYieldLevel, Int.floor_eq_iff]
  constructor <;> push_cast <;> linarith

theorem levelOf_eq_some {c : κ} {level : ℤ} :
    levelOf classes c = some level ↔
      0 < (classes c).mean ∧ 1 ≤ roundedYieldLevel (classes c).adjustedYield ∧
        level = roundedYieldLevel (classes c).adjustedYield := by
  unfold levelOf
  split
  · rename_i h
    rw [Option.some.injEq]
    constructor
    · rintro rfl
      exact ⟨h.1, h.2, rfl⟩
    · rintro ⟨-, -, rfl⟩
      rfl
  · rename_i h
    constructor
    · intro hnone
      cases hnone
    · rintro ⟨hmean, hlevel, -⟩
      exact absurd ⟨hmean, hlevel⟩ h

/-- On a class with a non-negative yield the pass is a step of the grouping. -/
theorem addBookingClass_eq {c : κ} (hyield : 0 < (classes c).mean → 0 ≤ (classes c).adjustedYield)
    (m : Std.TreeMap ℤ (LegVirtualClass κ)) :
    addBookingClass classes m c =
      .ok (groupStep (levelOf classes) (newVirtualClass classes) (sumVirtualClass classes) m c) := by
  unfold addBookingClass groupStep levelOf
  by_cases hmean : (classes c).mean > 0
  · rw [if_pos hmean]
    dsimp only
    rw [if_neg (not_not.2 (hyield hmean))]
    by_cases hlevel : roundedYieldLevel (classes c).adjustedYield > 0
    · rw [if_pos hlevel, if_pos ⟨hmean, hlevel⟩]
      dsimp only
      cases m[roundedYieldLevel (classes c).adjustedYield]? <;> rfl
    · rw [if_neg hlevel, if_neg fun h => hlevel h.2]
      rfl
  · rw [if_neg hmean, if_neg fun h => hmean h.1]
    rfl

theorem foldlM_addBookingClass {l : List κ} (hyield : ∀ c ∈ l, 0 < (classes c).mean → 0 ≤ (classes c).adjustedYield)
    (m : Std.TreeMap ℤ (LegVirtualClass κ)) :
    l.foldlM (addBookingClass classes) m =
      .ok (l.foldl (groupStep (levelOf classes) (newVirtualClass classes) (sumVirtualClass classes)) m) := by
  induction l generalizing m with
  | nil => rfl
  | cons c l ih =>
    rw [List.forall_mem_cons] at hyield
    rw [List.foldlM_cons, addBookingClass_eq hyield.1, ok_bind, ih hyield.2, List.foldl_cons]

/-- The deviations are recombined one after another; their squares add up. -/
theorem foldl_sumVirtualClass (l : List κ) {vc : LegVirtualClass κ} (hstdDev : 0 ≤ vc.stdDev) :
    l.foldl (sumVirtualClass classes) vc =
      { bookingClasses := vc.bookingClasses ++ l
        yield := vc.yield
        mean := vc.mean + (l.map fun c => (classes c).mean).sum
        stdDev := √(vc.stdDev ^ 2 + (l.map fun c => (classes c).stdDev ^ 2).sum) } := by
  induction l generalizing vc with
  | nil => simp [Real.sqrt_sq hstdDev]
  | cons c l ih =>
    have hsquares : 0 ≤ vc.stdDev * vc.stdDev + (classes c).stdDev * (classes c).stdDev :=
      add_nonneg (mul_self_nonneg _) (mul_self_nonneg _)
    rw [List.foldl_cons, ih (Real.sqrt_nonneg _)]
    simp only [sumVirtualClass, Real.sq_sqrt hsquares, List.append_assoc, List.singleton_append, List.map_cons,
      List.sum_cons, LegVirtualClass.mk.injEq, true_and]
    constructor
    · ring
    · ring_nf

theorem collect_eq_some {l : List κ} {level : ℤ} {vc : LegVirtualClass κ}
    (hstdDev : ∀ c ∈ l, 0 ≤ (classes c).stdDev)
    (h : collect (newVirtualClass classes) (sumVirtualClass classes) (members (levelOf classes) l level) = some vc) :
    vc = virtualClassOf classes l level := by
  obtain ⟨c, cs, hl, hc, hlevel, rfl⟩ := collect_members_eq_some h
  rw [foldl_sumVirtualClass cs (hstdDev c hc), virtualClassOf, hl]
  simp [newVirtualClass, (levelOf_eq_some.1 hlevel).2.2]

theorem collect_yield {l : List κ} {level : ℤ} {vc : LegVirtualClass κ}
    (h : collect (newVirtualClass classes) (sumVirtualClass classes) (members (levelOf classes) l level) = some vc) :
    vc.yield = level := by
  have hkeep : ∀ (cs : List κ) (vc : LegVirtualClass κ), (cs.foldl (sumVirtualClass classes) vc).yield = vc.yield := by
    intro cs
    induction cs with
    | nil => intro vc; rfl
    | cons c cs ih => intro vc; rw [List.foldl_cons, ih]; rfl
  obtain ⟨c, cs, -, -, hlevel, rfl⟩ := collect_members_eq_some h
  rw [hkeep, newVirtualClass, (levelOf_eq_some.1 hlevel).2.2]

/-- **The virtual-class list** has one entry for each level that occurs, from the highest one down: what the
members of the level leave. -/
theorem build_entries {l : List κ} (rest : List (List κ))
    (hyield : ∀ c ∈ l, 0 < (classes c).mean → 0 ≤ (classes c).adjustedYield) :
    ∃ (levels : List ℤ) (lVirtualClassList : List (LegVirtualClass κ)),
      levels.Pairwise (· > ·) ∧ (∀ level, level ∈ levels ↔ ∃ c ∈ l, levelOf classes c = some level) ∧
      buildVirtualClassListForLegBasedOptimisation classes (l :: rest) =
        .ok (lVirtualClassList, !lVirtualClassList.isEmpty) ∧
      List.Forall₂ (fun level vc => collect (newVirtualClass classes) (sumVirtualClass classes)
        (members (levelOf classes) l level) = some vc) levels lVirtualClassList := by
  let m := l.foldl (groupStep (levelOf classes) (newVirtualClass classes) (sumVirtualClass classes))
    (∅ : Std.TreeMap ℤ (LegVirtualClass κ))
  have hentry : ∀ level, m[level]? =
      collect (newVirtualClass classes) (sumVirtualClass classes) (members (levelOf classes) l level) :=
    groups_getElem? l
  refine ⟨m.keys.reverse, (m.toList.map Prod.snd).reverse, descending_keys m, ?_, ?_, ?_⟩
  · intro level
    rw [List.mem_reverse, mem_keys_iff, hentry, exists_collect_members_iff]
  · unfold buildVirtualClassListForLegBasedOptimisation
    simp only [foldlM_addBookingClass hyield, ok_bind]
    rfl
  · exact (forall₂_descending m).imp fun level vc h => by rwa [hentry] at h

/-- With deviations of zero and more, the list in closed form. -/
theorem build_eq {l : List κ} (rest : List (List κ)) (hstdDev : ∀ c ∈ l, 0 ≤ (classes c).stdDev)
    (hyield : ∀ c ∈ l, 0 < (classes c).mean → 0 ≤ (classes c).adjustedYield) :
    ∃ levels : List ℤ, levels.Pairwise (· > ·) ∧ (∀ level, level ∈ levels ↔ ∃ c ∈ l, levelOf classes c = some level) ∧
      buildVirtualClassListForLegBasedOptimisation classes (l :: rest) =
        .ok (levels.map (virtualClassOf classes l), !levels.isEmpty) := by
  obtain ⟨levels, list, hlevels, hmem, hbuild, hentries⟩ := build_entries rest hyield
  have hlist : levels.map (virtualClassOf classes l) = list := by
    rw [← List.forall₂_eq_eq_eq, List.forall₂_map_left_iff]
    exact hentries.imp fun level vc h => (collect_eq_some hstdDev h).symm
  refine ⟨levels, hlevels, hmem, ?_⟩
  rw [hbuild, ← hlist]
  cases levels <;> rfl

end closed

/-! ## A faithful grouping -/

/-- Strictly decreasing positive integer yields; the classes with demand and a level of at least one, each in
the one virtual class of its level, once, and no other class; the sums of means and of squared deviations. -/
structure IsGrouping (classes : ClassStore κ ℝ) (lBookingClassList : List κ)
    (lVirtualClassList : List (LegVirtualClass κ)) : Prop where
  yields_decreasing : (lVirtualClassList.map (·.yield)).Pairwise (· > ·)
  yield_integer : ∀ vc ∈ lVirtualClassList, ∃ level : ℤ, 1 ≤ level ∧ vc.yield = level
  belongs : ∀ c ∈ lBookingClassList, 0 < (classes c).mean → 1 ≤ roundedYieldLevel (classes c).adjustedYield →
    ∃! vc, vc ∈ lVirtualClassList ∧ c ∈ vc.bookingClasses
  of_mem : ∀ vc ∈ lVirtualClassList, ∀ c ∈ vc.bookingClasses, c ∈ lBookingClassList ∧ 0 < (classes c).mean ∧
    1 ≤ roundedYieldLevel (classes c).adjustedYield ∧ vc.yield = roundedYieldLevel (classes c).adjustedYield
  nodup : ∀ vc ∈ lVirtualClassList, vc.bookingClasses.Nodup
  mean : ∀ vc ∈ lVirtualClassList, vc.mean = (vc.bookingClasses.map fun c => (classes c).mean).sum
  stdDev : ∀ vc ∈ lVirtualClassList, 0 ≤ vc.stdDev ∧
    vc.stdDev ^ 2 = (vc.bookingClasses.map fun c => (classes c).stdDev ^ 2).sum

/-- Equal but for the order of the booking classes. -/
structure SameUpToOrder (vc vc' : LegVirtualClass κ) : Prop where
  bookingClasses : vc.bookingClasses.Perm vc'.bookingClasses
  yield : vc.yield = vc'.yield
  mean : vc.mean = vc'.mean
  stdDev : vc.stdDev = vc'.stdDev

section grouping
variable {classes : ClassStore κ ℝ} {l l' : List κ}

theorem isGrouping_of_levels {levels : List ℤ} (hnodup : l.Nodup) (hlevels : levels.Pairwise (· > ·))
    (hmem : ∀ level, level ∈ levels ↔ ∃ c ∈ l, levelOf classes c = some level) :
    IsGrouping classes l (levels.map (virtualClassOf classes l)) where
  yields_decreasing := by
    rw [List.map_map, List.pairwise_map]
    exact hlevels.imp fun h => by simpa [virtualClassOf] using h
  yield_integer := by
    rw [List.forall_mem_map]
    intro level hlevel
    obtain ⟨c, -, hc⟩ := (hmem level).1 hlevel
    obtain ⟨-, hone, rfl⟩ := levelOf_eq_some.1 hc
    exact ⟨_, hone, rfl⟩
  belongs := by
    intro c hc hmean hone
    have hlevel : levelOf classes c = some (roundedYieldLevel (classes c).adjustedYield) :=
      levelOf_eq_some.2 ⟨hmean, hone, rfl⟩
    refine ⟨virtualClassOf classes l (roundedYieldLevel (classes c).adjustedYield), ⟨?_, ?_⟩, ?_⟩
    · exact List.mem_map_of_mem ((hmem _).2 ⟨c, hc, hlevel⟩)
    · exact mem_members.2 ⟨hc, hlevel⟩
    · rintro vc ⟨hvc, hcvc⟩
      obtain ⟨level, -, rfl⟩ := List.mem_map.1 hvc
      obtain ⟨-, hlevel'⟩ := mem_members.1 hcvc
      rw [hlevel, Option.some.injEq] at hlevel'
      rw [hlevel']
  of_mem := by
    rw [List.forall_mem_map]
    intro level _ c hc
    obtain ⟨hcl, hlevel⟩ := mem_members.1 hc
    obtain ⟨hmean, hone, rfl⟩ := levelOf_eq_some.1 hlevel
    exact ⟨hcl, hmean, hone, rfl⟩
  nodup := by
    rw [List.forall_mem_map]
    intro level _
    exact hnodup.filter _
  mean := by
    rw [List.forall_mem_map]
    intro level _
    rfl
  stdDev := by
    rw [List.forall_mem_map]
    intro level _
    refine ⟨Real.sqrt_nonneg _, Real.sq_sqrt ?_⟩
    apply List.sum_nonneg
    rw [List.forall_mem_map]
    exact fun c _ => sq_nonneg _

theorem sameUpToOrder_of_perm (h : l.Perm l') (level : ℤ) :
    SameUpToOrder (virtualClassOf classes l level) (virtualClassOf classes l' level) := by
  have hmembers : (members (levelOf classes) l level).Perm (members (levelOf classes) l' level) := h.filter _
  refine ⟨hmembers, rfl, (hmembers.map _).sum_eq, ?_⟩
  simp only [virtualClassOf]
  rw [(hmembers.map _).sum_eq]

/-- **The virtual classes** group the booking classes faithfully, and in whatever order these are listed. -/
theorem buildVirtualClassList_grouping (classes : ClassStore κ ℝ) {lBookingClassList : List κ} (rest : List (List κ))
    (hnodup : lBookingClassList.Nodup) (hstdDev : ∀ c ∈ lBookingClassList, 0 ≤ (classes c).stdDev)
    (hyield : ∀ c ∈ lBookingClassList, 0 ≤ (classes c).adjustedYield) :
    ∃ lVirtualClassList isNotEmpty,
      buildVirtualClassListForLegBasedOptimisation classes (lBookingClassList :: rest) =
        .ok (lVirtualClassList, isNotEmpty) ∧
      (isNotEmpty = true ↔ lVirtualClassList ≠ []) ∧ IsGrouping classes lBookingClassList lVirtualClassList ∧
      ∀ permuted, lBookingClassList.Perm permuted → ∃ lPermutedList,
        buildVirtualClassListForLegBasedOptimisation classes (permuted :: rest) = .ok (lPermutedList, isNotEmpty) ∧
        List.Forall₂ SameUpToOrder lVirtualClassList lPermutedList := by
  obtain ⟨levels, hlevels, hmem, hbuild⟩ := build_eq rest hstdDev fun c hc _ => hyield c hc
  refine ⟨_, _, hbuild, ?_, isGrouping_of_levels hnodup hlevels hmem, ?_⟩
  · cases levels <;> simp
  · intro permuted hperm
    have hstdDev' : ∀ c ∈ permuted, 0 ≤ (classes c).stdDev := fun c hc => hstdDev c (hperm.mem_iff.2 hc)
    have hyield' : ∀ c ∈ permuted, 0 < (classes c).mean → 0 ≤ (classes c).adjustedYield :=
      fun c hc _ => hyield c (hperm.mem_iff.2 hc)
    obtain ⟨levels', hlevels', hmem', hbuild'⟩ := build_eq rest hstdDev' hyield'
    have hsame : levels = levels' := by
      refine hlevels.eq_of_mem_iff hlevels' ?_
      intro level
      rw [hmem, hmem']
      exact exists_congr fun c => and_congr_left fun _ => hperm.mem_iff
    subst hsame
    refine ⟨_, hbuild', ?_⟩
    rw [List.forall₂_map_left_iff, List.forall₂_map_right_iff, List.forall₂_same]
    exact fun level _ => sameUpToOrder_of_perm hperm level

end grouping

/-- Class `c` has the mean `c`; the classes 1 and 2 have the same adjusted yield. -/
noncomputable def pairedClasses : ClassStore ℕ ℝ := fun c => ⟨0, c, 1, ((c + 1) / 2 : ℕ), 0, 0, 0, 0, 0, 0⟩

theorem buildVirtualClassList_grouping_paired :
    ∃ lVirtualClassList isNotEmpty,
      buildVirtualClassListForLegBasedOptimisation pairedClasses [[2, 3, 0, 1]] = .ok (lVirtualClassList, isNotEmpty) ∧
      (isNotEmpty = true ↔ lVirtualClassList ≠ []) ∧ IsGrouping pairedClasses [2, 3, 0, 1] lVirtualClassList ∧
      ∀ permuted, [2, 3, 0, 1].Perm permuted → ∃ lPermutedList,
        buildVirtualClassListForLegBasedOptimisation pairedClasses [permuted] = .ok (lPermutedList, isNotEmpty) ∧
        List.Forall₂ SameUpToOrder lVirtualClassList lPermutedList :=
  buildVirtualClassList_grouping pairedClasses [] (by decide) (fun _ _ => zero_le_one)
    fun _ _ => Nat.cast_nonneg _

end Rmol
