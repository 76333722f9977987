import Mathlib.Data.Rat.Floor
import Rmol.MCStages
/-!
# The leg-based bid prices (`MCOptimiser.cpp:28-150`)

The price of a seat should be the empirical tail of the first class that protects it, or of the last
class (`EmpiricalTails`). The code misses this in three ways:

* `lCapacity + abs (lCapacity)` overflows from a pool of `2^30` on, and for `-2^31`;
* a protection level of -1 or less becomes a large index, so that its class prices every seat left;
* the partial sums are sorted in the class loop (`:85`) and not before the loop of the last class, where
  `std::lower_bound` needs them partitioned (the O&D function sorts them, `:271`).

`optimalOptimisationByMCIntegration_empirical_iff`: where no seat comes to the second, the entries are the empirical tails
iff the pool and the sums keep clear of the others.
-/

namespace Rmol

open OrderStatistics

variable {α : Type*} [Field α] [LinearOrder α] [FloorRing α]

def legStages (lFirstVC : VirtualClass α) (lVCList : List (VirtualClass α)) : Stages α :=
  stages lFirstVC.generatedDemandVector lFirstVC.yield (legClasses lVCList)

/-- One entry for each seat of the pool: the tail of the first class that protects the seat, or else of
the last class. -/
def EmpiricalTails (st : Stages α) (lCap : α) (lBPV : List α) : Prop :=
  lBPV.length = max 0 (truncate lCap) ∧
    ∀ x : ℕ, 1 ≤ x → (x : ℤ) ≤ max 0 (truncate lCap) → lBPV[x - 1]? = some (st.price protects x)

section
variable [IsStrictOrderedRing α]

omit [IsStrictOrderedRing α] in
/-- The capacity index is the truncated pool, or zero, unless its sum with the absolute value overflows. -/
theorem optimalOptimisationByMCIntegration_eq {ioLegCabin : LegCabin α} {lFirstVC : VirtualClass α}
    {lVCList : List (VirtualClass α)} (hlist : ioLegCabin.virtualClassList = lFirstVC :: lVCList) :
    optimalOptimisationByMCIntegration ioLegCabin =
      if truncate ioLegCabin.availabilityPool ≠ -2 ^ 31 ∧ truncate ioLegCabin.availabilityPool < 2 ^ 30 then
        (legLoop ioLegCabin.availabilityPool (truncate ioLegCabin.availabilityPool).toNat
          { lFirstVC with cumulatedBookingLimit := ioLegCabin.availabilityPool } lVCList
          lFirstVC.generatedDemandVector 1).map fun out =>
            { ioLegCabin with virtualClassList := out.1, bidPriceVector := out.2 }
      else .error .signedOverflow := by
  unfold optimalOptimisationByMCIntegration
  simp only [hlist]
  by_cases hover : truncate ioLegCabin.availabilityPool = -2 ^ 31 ∨
      2 ^ 31 ≤ truncate ioLegCabin.availabilityPool + |truncate ioLegCabin.availabilityPool|
  · have hfalse : ¬ (truncate ioLegCabin.availabilityPool ≠ -2 ^ 31 ∧
        truncate ioLegCabin.availabilityPool < 2 ^ 30) := by
      rcases abs_cases (truncate ioLegCabin.availabilityPool) with ⟨h, _⟩ | ⟨h, _⟩ <;> omega
    rw [if_pos hover, if_neg hfalse]
  · have htrue : truncate ioLegCabin.availabilityPool ≠ -2 ^ 31 ∧
        truncate ioLegCabin.availabilityPool < 2 ^ 30 := by
      rcases abs_cases (truncate ioLegCabin.availabilityPool) with ⟨h, _⟩ | ⟨h, _⟩ <;> omega
    have hindex : ((truncate ioLegCabin.availabilityPool + |truncate ioLegCabin.availabilityPool|) / 2).toNat =
        (truncate ioLegCabin.availabilityPool).toNat := by
      rcases abs_cases (truncate ioLegCabin.availabilityPool) with ⟨h, _⟩ | ⟨h, _⟩ <;> omega
    rw [if_neg hover, if_pos htrue, hindex]
    rfl

/-- **The vector of a run**: what holds of the result holds of the prices of the stages, and the run
reaches its end. -/
theorem optimalOptimisationByMCIntegration_ok_iff {ioLegCabin : LegCabin α} {lFirstVC : VirtualClass α}
    {lVCList : List (VirtualClass α)} (hlist : ioLegCabin.virtualClassList = lFirstVC :: lVCList)
    (hyield : (lFirstVC.yield :: lVCList.map (·.yield)).IsChain (· > ·))
    (hsize : ∀ vc ∈ lVCList, lFirstVC.generatedDemandVector.length ≤ vc.generatedDemandVector.length)
    (hpass : (legStages lFirstVC lVCList).Passes) (P : List α → Prop) :
    (∃ out, optimalOptimisationByMCIntegration ioLegCabin = .ok out ∧ P out.bidPriceVector) ↔
      truncate ioLegCabin.availabilityPool ≠ -2 ^ 31 ∧ truncate ioLegCabin.availabilityPool < 2 ^ 30 ∧
        (∀ x ∈ seats 1 (truncate ioLegCabin.availabilityPool).toNat,
          (legStages lFirstVC lVCList).LastPartitioned x) ∧
        P ((seats 1 (truncate ioLegCabin.availabilityPool).toNat).map ((legStages lFirstVC lVCList).price wraps)) := by
  rw [optimalOptimisationByMCIntegration_eq hlist]
  by_cases hrange : truncate ioLegCabin.availabilityPool ≠ -2 ^ 31 ∧ truncate ioLegCabin.availabilityPool < 2 ^ 30
  · have hbound : (truncate ioLegCabin.availabilityPool).toNat + 1 < 2 ^ 32 := by omega
    have hspec := legLoop_spec ioLegCabin.availabilityPool hbound
      { lFirstVC with cumulatedBookingLimit := ioLegCabin.availabilityPool } lFirstVC.generatedDemandVector 1
      hyield hpass hsize
    rw [if_pos hrange, ← and_assoc, and_iff_right hrange]
    split at hspec
    · rename_i hpart
      obtain ⟨classes, hok⟩ := hspec
      rw [hok]
      refine ⟨?_, fun h => ⟨_, rfl, h.2⟩⟩
      rintro ⟨out, hout, hP⟩
      obtain rfl := Except.ok.inj hout
      exact ⟨hpart, hP⟩
    · rename_i hpart
      rw [hspec]
      refine ⟨?_, fun h => absurd h.1 hpart⟩
      rintro ⟨out, hout, -⟩
      cases hout
  · rw [if_neg hrange, ← and_assoc]
    constructor
    · rintro ⟨out, hout, -⟩
      cases hout
    · rintro ⟨h, -⟩
      exact absurd h hrange

/-- A run fails an index assertion exactly where the stages do not pass. -/
theorem optimalOptimisationByMCIntegration_sampleIndex_iff {ioLegCabin : LegCabin α} {lFirstVC : VirtualClass α}
    {lVCList : List (VirtualClass α)} (hlist : ioLegCabin.virtualClassList = lFirstVC :: lVCList)
    (hyield : (lFirstVC.yield :: lVCList.map (·.yield)).IsChain (· > ·))
    (hsize : ∀ vc ∈ lVCList, lFirstVC.generatedDemandVector.length ≤ vc.generatedDemandVector.length)
    (hrange : truncate ioLegCabin.availabilityPool ≠ -2 ^ 31 ∧ truncate ioLegCabin.availabilityPool < 2 ^ 30) :
    optimalOptimisationByMCIntegration ioLegCabin = .error .sampleIndex ↔
      ¬ (legStages lFirstVC lVCList).Passes := by
  have hbound : (truncate ioLegCabin.availabilityPool).toNat + 1 < 2 ^ 32 := by omega
  rw [optimalOptimisationByMCIntegration_eq hlist, if_pos hrange]
  constructor
  · intro herror hpass
    have hspec := legLoop_spec ioLegCabin.availabilityPool hbound
      { lFirstVC with cumulatedBookingLimit := ioLegCabin.availabilityPool } lFirstVC.generatedDemandVector 1
      hyield hpass hsize
    split at hspec
    · obtain ⟨classes, hok⟩ := hspec
      rw [hok] at herror
      cases herror
    · rw [hspec] at herror
      cases herror
  · intro hpass
    rw [legLoop_of_not_passes ioLegCabin.availabilityPool hbound
      { lFirstVC with cumulatedBookingLimit := ioLegCabin.availabilityPool } lFirstVC.generatedDemandVector 1
      hyield hpass hsize]
    rfl

omit [IsStrictOrderedRing α] in
theorem empiricalTails_map {st : Stages α} {lCap : α} (f : ℕ → α) :
    EmpiricalTails st lCap ((seats 1 (truncate lCap).toNat).map f) ↔
      ∀ x ∈ seats 1 (truncate lCap).toNat, f x = st.price protects x := by
  have hlen : ((seats 1 (truncate lCap).toNat).map f).length = (truncate lCap).toNat := by simp [seats]
  have hentry (x : ℕ) (hx : x ∈ seats 1 (truncate lCap).toNat) :
      ((seats 1 (truncate lCap).toNat).map f)[x - 1]? = some (f x) := by
    rw [mem_seats] at hx
    rw [List.getElem?_map, seats, List.getElem?_range' (by omega)]
    simp only [Option.map_some]
    congr 2
    omega
  unfold EmpiricalTails
  constructor
  · rintro ⟨-, h⟩ x hx
    have hmem := mem_seats.1 hx
    have := h x hmem.1 (by omega)
    rw [hentry x hx] at this
    exact Option.some.inj this
  · refine fun h => ⟨by omega, fun x hx hmax => ?_⟩
    have hmem : x ∈ seats 1 (truncate lCap).toNat := mem_seats.2 ⟨hx, by omega⟩
    rw [hentry x hmem, h x hmem]

/-- **The leg-based bid prices.** Where no seat of the pool meets a protection level of -1 or less before one that
reaches it, they are the empirical tails iff the sum of the pool and its absolute value is in the range of `int` and
the sums of the last class are partitioned at the seats that come to it. -/
theorem optimalOptimisationByMCIntegration_empirical_iff {ioLegCabin : LegCabin α} {lFirstVC : VirtualClass α}
    {lVCList : List (VirtualClass α)} {K : ℕ} (hlist : ioLegCabin.virtualClassList = lFirstVC :: lVCList)
    (hyield : (lFirstVC.yield :: lVCList.map (·.yield)).IsChain (· > ·))
    (hsize : ∀ vc ∈ lFirstVC :: lVCList, vc.generatedDemandVector.length = K)
    (hfits : (legStages lFirstVC lVCList).Fits) (hpass : (legStages lFirstVC lVCList).Passes)
    (hunwrapped : ∀ x ∈ seats 1 (truncate ioLegCabin.availabilityPool).toNat,
      (legStages lFirstVC lVCList).Unwrapped x) :
    (∃ out, optimalOptimisationByMCIntegration ioLegCabin = .ok out ∧
      EmpiricalTails (legStages lFirstVC lVCList) ioLegCabin.availabilityPool out.bidPriceVector) ↔
    truncate ioLegCabin.availabilityPool ≠ -2 ^ 31 ∧ truncate ioLegCabin.availabilityPool < 2 ^ 30 ∧
      ∀ x ∈ seats 1 (truncate ioLegCabin.availabilityPool).toNat, (legStages lFirstVC lVCList).LastPartitioned x := by
  have hsizes : ∀ vc ∈ lVCList, lFirstVC.generatedDemandVector.length ≤ vc.generatedDemandVector.length := by
    intro vc hvc
    rw [hsize _ List.mem_cons_self, hsize vc (List.mem_cons_of_mem _ hvc)]
  rw [optimalOptimisationByMCIntegration_ok_iff hlist hyield hsizes hpass, empiricalTails_map]
  constructor
  · rintro ⟨hmin, hmax, hpartitioned, -⟩
    exact ⟨hmin, hmax, hpartitioned⟩
  · rintro ⟨hmin, hmax, hpartitioned⟩
    refine ⟨hmin, hmax, hpartitioned, fun x hx => ?_⟩
    have hbounds := mem_seats.1 hx
    exact (hunwrapped x hx).price_eq hfits hbounds.1 (by omega)

end

/-! ## Two classes -/

section twoVC

/-- Yields 2 and 1; the sample index of the first class is half the number of samples. -/
def twoVCList (first second : List ℚ) : List (VirtualClass ℚ) := [⟨2, first, 0, 0⟩, ⟨1, second, 0, 0⟩]

def twoVCStages (first second : List ℚ) : Stages ℚ := legStages ⟨2, first, 0, 0⟩ [⟨1, second, 0, 0⟩]

def twoVCCabin (lCap : ℚ) (first second : List ℚ) : LegCabin ℚ where
  availabilityPool := lCap
  virtualClassList := twoVCList first second
  yieldLevelDemandMap := []
  bidPriceVector := []
  currentBidPrice := 1
  previousBidPrice := 1
  map_sorted := List.Pairwise.nil

theorem optimalOptimisationByMCIntegration_empirical_iff_twoVC :
    ∃ out, optimalOptimisationByMCIntegration (twoVCCabin 4 [3, 1, 4, 2] [1, 1, 1, 1]) = .ok out ∧
      EmpiricalTails (twoVCStages [3, 1, 4, 2] [1, 1, 1, 1]) 4 out.bidPriceVector :=
  (optimalOptimisationByMCIntegration_empirical_iff
    (rfl : (twoVCCabin 4 [3, 1, 4, 2] [1, 1, 1, 1]).virtualClassList = twoVCList [3, 1, 4, 2] [1, 1, 1, 1])
    (by decide +kernel) (K := 4) (by decide +kernel) (by decide +kernel) (by decide +kernel)
    (by decide +kernel)).2 (by decide +kernel)

/-- **Not the empirical tail**: the first class has the protection level -3 and prices the only seat, which
the last class should. -/
theorem optimalOptimisationByMCIntegration_not_empirical :
    ((twoVCList [-3, -3, -3, 5] [6, 6, 6, 6]).map (·.yield)).IsChain (· > ·) ∧
      (∀ vc ∈ twoVCList [-3, -3, -3, 5] [6, 6, 6, 6], 0 < vc.yield ∧ vc.generatedDemandVector.length = 4) ∧
      FitsInt (1 : ℚ) ∧ (twoVCStages [-3, -3, -3, 5] [6, 6, 6, 6]).Fits ∧
      (twoVCStages [-3, -3, -3, 5] [6, 6, 6, 6]).Passes ∧
      ¬ ∃ out, optimalOptimisationByMCIntegration (twoVCCabin 1 [-3, -3, -3, 5] [6, 6, 6, 6]) = .ok out ∧
        EmpiricalTails (twoVCStages [-3, -3, -3, 5] [6, 6, 6, 6]) 1 out.bidPriceVector := by
  refine ⟨by decide +kernel, by decide +kernel, by decide +kernel, by decide +kernel, by decide +kernel, ?_⟩
  have hcode : (optimalOptimisationByMCIntegration (twoVCCabin 1 [-3, -3, -3, 5] [6, 6, 6, 6])).map
      (·.bidPriceVector) = .ok [1 / 2] := by decide +kernel
  have htail : (twoVCStages [-3, -3, -3, 5] [6, 6, 6, 6]).price protects 1 = 1 := by decide +kernel
  rintro ⟨out, hout, -, hentries⟩
  rw [hout] at hcode
  have hvector : out.bidPriceVector = [1 / 2] := Except.ok.inj hcode
  have hentry := hentries 1 le_rfl (by decide +kernel)
  rw [hvector, htail] at hentry
  revert hentry
  decide +kernel

end twoVC

end Rmol
