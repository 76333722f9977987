import Mathlib.Data.List.Forall2
import Rmol.LegBidPrices
import Rmol.OnDBidPrices
/-!
# The two integrations on the same samples (`MCOptimiser.cpp`)

On the same yields and samples both functions go through the same stages (`stages_legClasses`), so their
vectors differ by the minimum price of the last class only. The leg-based function gets that far unless
`lCapacity + abs (lCapacity)` overflows or the last class, whose sums it leaves unsorted (`:143`, the O&D
function sorts them at `:271`), prices a seat where they are not partitioned (`bidPrices_agree_iff`).
-/

namespace Rmol

open OrderStatistics

variable {α : Type*} [Field α] [LinearOrder α] [FloorRing α]

/-- The levels have the yields of the virtual classes, and a draw of `k` samples gives the first `k` of the
class. -/
def SameSamples (draws : YieldLevel α → ℕ → List α) (lVCList : List (VirtualClass α))
    (lLevels : List (YieldLevel α)) : Prop :=
  List.Forall₂ (fun lVC lYD => lVC.yield = lYD.yield ∧ ∀ k, draws lYD k = lVC.generatedDemandVector.take k)
    lVCList lLevels

/-- The second vector is the first one, but the minimum from the first entry of the last class below it on. -/
def SameButMinimum (st : Stages α) (lBPV lMinBPV : List α) : Prop :=
  lMinBPV.length = lBPV.length ∧ ∀ i < lBPV.length,
    ((∃ j ≤ i, ¬ st.Covered (j + 1) ∧ ∃ lBP, lBPV[j]? = some lBP ∧ lBP < 1) → lMinBPV[i]? = some 1) ∧
    ((¬ ∃ j ≤ i, ¬ st.Covered (j + 1) ∧ ∃ lBP, lBPV[j]? = some lBP ∧ lBP < 1) → lMinBPV[i]? = lBPV[i]?)

omit [LinearOrder α] [FloorRing α] in
theorem nextSums_take (lPartialSumHolder lNextDemand : List α) (lj : ℕ) :
    nextSums lPartialSumHolder lj (lNextDemand.take (lPartialSumHolder.length - lj)) =
      nextSums lPartialSumHolder lj lNextDemand := by
  unfold nextSums
  rw [← List.length_drop]
  exact List.ext_getElem? fun i => by grind

/-- **The same stages**: what the O&D function draws is what the leg-based function adds. -/
theorem stages_legClasses {draws : YieldLevel α → ℕ → List α} {lVCList : List (VirtualClass α)}
    {lLevels : List (YieldLevel α)} (h : SameSamples draws lVCList lLevels) (sums : List α) (y : α) :
    stages sums y (legClasses lVCList) = stages sums y (odClasses draws lLevels) := by
  induction h generalizing sums y with
  | nil => rfl
  | @cons lVC lYD lVCList lLevels hhead _ ih =>
    have hnext : stageNext sums y lYD.yield (draws lYD) =
        stageNext sums y lYD.yield fun _ => lVC.generatedDemandVector := by
      unfold stageNext
      rw [hhead.2, nextSums_take]
    simp only [legClasses, odClasses, List.map_cons, stages, hhead.1] at ih ⊢
    rw [hnext, ih]

theorem legStages_eq_odStages {draws : YieldLevel α → ℕ → List α} {lFirstVC : VirtualClass α}
    {lVCList : List (VirtualClass α)} {lFirstYD : YieldLevel α} {lLevels : List (YieldLevel α)}
    (h : SameSamples draws (lFirstVC :: lVCList) (lFirstYD :: lLevels)) :
    odStages draws lFirstVC.generatedDemandVector.length lFirstYD lLevels = legStages lFirstVC lVCList := by
  obtain ⟨⟨hyield, hdraws⟩, htail⟩ := List.forall₂_cons.1 h
  unfold odStages legStages
  rw [stages_legClasses htail, hdraws, List.take_length, hyield]

theorem sameButMinimum_map (st : Stages α) (n : ℕ) :
    SameButMinimum st ((seats 1 n).map (st.price wraps)) ((seats 1 n).map (st.flooredPrice 1)) := by
  have hentry (f : ℕ → α) (i : ℕ) (hi : i < n) : ((seats 1 n).map f)[i]? = some (f (i + 1)) := by
    rw [List.getElem?_map, seats, List.getElem?_range' (by omega), Option.map_some]
    congr 2
    omega
  have hlength (f : ℕ → α) : ((seats 1 n).map f).length = n := by simp [seats]
  refine ⟨by rw [hlength, hlength], fun i hi => ?_⟩
  rw [hlength] at hi
  have hiff : (∃ j ≤ i, ¬ st.Covered (j + 1) ∧
        ∃ lBP, ((seats 1 n).map (st.price wraps))[j]? = some lBP ∧ lBP < 1) ↔
      ∃ z ∈ seats 1 (i + 1), ¬ st.Covered z ∧ st.price wraps z < 1 := by
    constructor
    · rintro ⟨j, hj, hcov, lBP, hlBP, hlow⟩
      rw [hentry _ j (by omega)] at hlBP
      obtain rfl := Option.some.inj hlBP
      exact ⟨j + 1, mem_seats.2 ⟨by omega, by omega⟩, hcov, hlow⟩
    · rintro ⟨z, hz, hcov, hlow⟩
      rw [mem_seats] at hz
      obtain ⟨j, rfl⟩ : ∃ j, z = j + 1 := ⟨z - 1, by omega⟩
      exact ⟨j, by omega, hcov, _, hentry _ j (by omega), hlow⟩
  rw [hiff, hentry _ i hi, hentry _ i hi]
  exact ⟨fun hmin => by rw [Stages.flooredPrice, if_pos hmin], fun hmin => by rw [Stages.flooredPrice, if_neg hmin]⟩

/-- **The two bid price vectors agree** but for the minimum iff the sum of the pool and its absolute value is
in the range of `int` and every seat that comes to the last class finds its sums partitioned. -/
theorem bidPrices_agree_iff [IsStrictOrderedRing α] {draws : YieldLevel α → ℕ → List α} {ioLegCabin : LegCabin α}
    {lFirstVC : VirtualClass α} {lVCList : List (VirtualClass α)} {lFirstYD : YieldLevel α}
    {lLevels : List (YieldLevel α)} (hlist : ioLegCabin.virtualClassList = lFirstVC :: lVCList)
    (hmap : ioLegCabin.yieldLevelDemandMap = lFirstYD :: lLevels)
    (hsame : SameSamples draws ioLegCabin.virtualClassList ioLegCabin.yieldLevelDemandMap)
    (hsize : ∀ vc ∈ lVCList, lFirstVC.generatedDemandVector.length ≤ vc.generatedDemandVector.length)
    (hpool : 1 ≤ ioLegCabin.availabilityPool) (hint : FitsInt ioLegCabin.availabilityPool)
    (hpass : (legStages lFirstVC lVCList).Passes) :
    (∃ legOut, optimalOptimisationByMCIntegration ioLegCabin = .ok legOut ∧
      ∃ odOut, computeBidPrices draws lFirstVC.generatedDemandVector.length ioLegCabin = .ok odOut ∧
        SameButMinimum (legStages lFirstVC lVCList) legOut.bidPriceVector odOut.bidPriceVector) ↔
      ⌊ioLegCabin.availabilityPool⌋ < 2 ^ 30 ∧
        ∀ x ∈ seats 1 ⌊ioLegCabin.availabilityPool⌋.toNat, (legStages lFirstVC lVCList).LastPartitioned x := by
  rw [hlist, hmap] at hsame
  have htrunc : truncate ioLegCabin.availabilityPool = ⌊ioLegCabin.availabilityPool⌋ :=
    if_pos (zero_le_one.trans hpool)
  have hfloor : 1 ≤ ⌊ioLegCabin.availabilityPool⌋ := by rwa [Int.le_floor, Int.cast_one]
  obtain ⟨-, hmax⟩ := hint
  rw [htrunc] at hmax
  have hyield : (lFirstVC.yield :: lVCList.map (·.yield)).IsChain (· > ·) := by
    have hyields : (lFirstVC :: lVCList).map (·.yield) = (lFirstYD :: lLevels).map (·.yield) :=
      hsame.rec (by rfl) fun hhead _ ih => by rw [List.map_cons, List.map_cons, hhead.1, ih]
    rw [List.map_cons, List.map_cons] at hyields
    rw [hyields]
    exact LegCabin.isChain_yield hmap
  have hod := computeBidPrices_spec (K := lFirstVC.generatedDemandVector.length) hmap hfloor
    (by omega) (by rw [legStages_eq_odStages hsame]; exact hpass)
  rw [legStages_eq_odStages hsame] at hod
  rw [optimalOptimisationByMCIntegration_ok_iff hlist hyield hsize hpass fun lBPV =>
    ∃ odOut, computeBidPrices draws lFirstVC.generatedDemandVector.length ioLegCabin = .ok odOut ∧
      SameButMinimum (legStages lFirstVC lVCList) lBPV odOut.bidPriceVector, htrunc]
  have hlow : ⌊ioLegCabin.availabilityPool⌋ ≠ -2 ^ 31 := by omega
  have hsameBut := sameButMinimum_map (legStages lFirstVC lVCList) ⌊ioLegCabin.availabilityPool⌋.toNat
  exact ⟨fun h => ⟨h.2.1, h.2.2.1⟩, fun h => ⟨hlow, h.1, h.2, _, hod, hsameBut⟩⟩

/-! ## Two classes -/

/-- The classes of `twoVCList`, and the levels of `twoLevelCabin`. -/
def sampledCabin (lCap : ℚ) (first second : List ℚ) : LegCabin ℚ :=
  { twoLevelCabin with availabilityPool := lCap, virtualClassList := twoVCList first second }

def sampledDraws (first second : List ℚ) (lYD : YieldLevel ℚ) (k : ℕ) : List ℚ :=
  (if lYD.yield = 2 then first else second).take k

theorem sampledCabin_sameSamples (lCap : ℚ) (first second : List ℚ) :
    SameSamples (sampledDraws first second) (sampledCabin lCap first second).virtualClassList
      (sampledCabin lCap first second).yieldLevelDemandMap := by
  refine .cons ⟨rfl, fun k => ?_⟩ (.cons ⟨rfl, fun k => ?_⟩ .nil)
  all_goals norm_num [sampledDraws]

/-- Seats 1 and 2 are priced by the first class, seats 3 and 4 by the second one. -/
theorem bidPrices_agree_iff_twoVC :
    ∃ legOut, optimalOptimisationByMCIntegration (sampledCabin 4 [3, 1, 4, 2] [1, 1, 1, 1]) = .ok legOut ∧
      ∃ odOut, computeBidPrices (sampledDraws [3, 1, 4, 2] [1, 1, 1, 1]) 4
          (sampledCabin 4 [3, 1, 4, 2] [1, 1, 1, 1]) = .ok odOut ∧
        SameButMinimum (twoVCStages [3, 1, 4, 2] [1, 1, 1, 1]) legOut.bidPriceVector odOut.bidPriceVector :=
  (bidPrices_agree_iff
    (rfl : (sampledCabin 4 [3, 1, 4, 2] [1, 1, 1, 1]).virtualClassList = twoVCList [3, 1, 4, 2] [1, 1, 1, 1])
    (rfl : (sampledCabin 4 [3, 1, 4, 2] [1, 1, 1, 1]).yieldLevelDemandMap = [⟨2, 3, 1⟩, ⟨1, 1, 0⟩])
    (sampledCabin_sameSamples 4 [3, 1, 4, 2] [1, 1, 1, 1]) (by decide +kernel) (by decide +kernel) (by decide +kernel)
    (by decide +kernel)).2 (by decide +kernel)

/-! ## One class -/

/-- One class of the yield 2. -/
def oneVCCabin (lCap : ℚ) (samples : List ℚ) : LegCabin ℚ where
  availabilityPool := lCap
  virtualClassList := [⟨2, samples, 0, 0⟩]
  yieldLevelDemandMap := [⟨2, 3, 1⟩]
  bidPriceVector := []
  currentBidPrice := 1
  previousBidPrice := 1
  map_sorted := List.pairwise_singleton _ _

/-- **An unsorted sample**: the leg-based function searches 5, 1, 3 for 2. -/
theorem bidPrices_not_agree :
    SameSamples (fun _ k => [5, 1, 3].take k) (oneVCCabin 2 [5, 1, 3]).virtualClassList
        (oneVCCabin 2 [5, 1, 3]).yieldLevelDemandMap ∧
      1 ≤ (oneVCCabin 2 [5, 1, 3]).availabilityPool ∧ FitsInt (oneVCCabin 2 [5, 1, 3]).availabilityPool ∧
      (legStages (⟨2, [5, 1, 3], 0, 0⟩ : VirtualClass ℚ) []).Passes ∧
      (legStages (⟨2, [5, 1, 3], 0, 0⟩ : VirtualClass ℚ) []).Fits ∧
      ¬ ∃ legOut, optimalOptimisationByMCIntegration (oneVCCabin 2 [5, 1, 3]) = .ok legOut ∧
        ∃ odOut, computeBidPrices (fun _ k => [5, 1, 3].take k) 3 (oneVCCabin 2 [5, 1, 3]) = .ok odOut ∧
          SameButMinimum (legStages ⟨2, [5, 1, 3], 0, 0⟩ []) legOut.bidPriceVector odOut.bidPriceVector := by
  have hcode : (optimalOptimisationByMCIntegration (oneVCCabin 2 [5, 1, 3])).map (·.bidPriceVector) =
      .error .unpartitionedRange := by decide +kernel
  refine ⟨.cons ⟨rfl, fun _ => rfl⟩ .nil, by decide +kernel, by decide +kernel, trivial, trivial, ?_⟩
  rintro ⟨legOut, hleg, -⟩
  rw [hleg] at hcode
  cases hcode

end Rmol
