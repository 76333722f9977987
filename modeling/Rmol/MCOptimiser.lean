import Mathlib.Algebra.Order.Floor.Ring
import Rmol.Bom
import Rmol.Lib.OrderStatistics
/-!
# Monte-Carlo integration of bid prices (`MCOptimiser.cpp`)

| here | there |
| --- | --- |
| `classStep`                          | the part of the class loop that both functions share (`:80-121`, `:213-249`) |
| `optimalOptimisationByMCIntegration` | the leg-based function (`:28`) |
| `generateDemandVector`               | `:154` |
| `computeBidPrices`                   | the O&D function up to `setCurrentBidPrice` (`:175-301`) |
| `optimisationByMCIntegration`        | `:175`, with the check of the previous bid price |

Conversions: `static_cast<int>` of a double truncates towards zero, and an `int` becomes an
`UnsignedIndex_T` modulo `2^32`, so a protection level of -1 or less is a large index. A sum of two
`int`s that does not fit in an `int` is undefined (`signedOverflow`), and so is `std::lower_bound` on a
range that is not partitioned (`unpartitionedRange`). A loop whose bound is the largest index never
ends (`endlessLoop`).

The comparison `idx <= lAvailabilityPool` of an index with a double holds up to the floor of the pool.
-/

namespace Rmol

open OrderStatistics

inductive McFault where
  /-- `assert (itCurrentVC != lVCList.end())` (`:52`). -/
  | noVirtualClass
  /-- `assert (!lYieldDemandMap.empty())` (`:181`). -/
  | noYieldLevel
  /-- `assert (yj > yj1)` (`:82`, `:218`). -/
  | yieldOrder
  /-- `assert (lj >= 1 && lj < K)` (`:94`, `:229`). -/
  | sampleIndex
  /-- `assert (K <= lNextPSH.size())` (`:126`). -/
  | sampleSize
  /-- `std::lower_bound` on a range without a partition (`:115`, `:143`): undefined. -/
  | unpartitionedRange
  /-- `lCapacity + abs (lCapacity)` (`:45`): undefined. -/
  | signedOverflow
  /-- `idx <= bound` for every index (`:240`, `:278`). -/
  | endlessLoop
  /-- `back()` of an empty vector (`:301`): undefined. -/
  | emptyBidPriceVector
  /-- `assert (lPreviousBP != 0)` (`:307`). -/
  | previousBidPrice
deriving DecidableEq, Repr

/-- `stdair::VirtualClassStruct`. -/
structure VirtualClass (α : Type*) where
  yield : α
  generatedDemandVector : List α
  cumulatedProtection : α
  cumulatedBookingLimit : α

/-- An entry of the yield-level demand map. -/
structure YieldLevel (α : Type*) where
  yield : α
  mean : α
  stdDev : α

/-- The yield-level demand map is listed from the highest level down, as `rbegin()` iterates it. -/
structure LegCabin (α : Type*) [LT α] where
  availabilityPool : α
  virtualClassList : List (VirtualClass α)
  yieldLevelDemandMap : List (YieldLevel α)
  bidPriceVector : List α
  currentBidPrice : α
  previousBidPrice : α
  map_sorted : yieldLevelDemandMap.Pairwise fun y z => z.yield < y.yield

/-- `DEFAULT_NUMBER_OF_DRAWS_FOR_MC_SIMULATION` (`BasConst.cpp:17`). -/
def DEFAULT_NUMBER_OF_DRAWS_FOR_MC_SIMULATION : ℕ := 10000

variable {α : Type*} [Field α] [LinearOrder α] [FloorRing α]

/-! ## Conversions -/

/-- `static_cast<int>`: towards zero. -/
def truncate (x : α) : ℤ := if 0 ≤ x then ⌊x⌋ else ⌈x⌉

def FitsInt (x : α) : Prop := -2 ^ 31 ≤ truncate x ∧ truncate x < 2 ^ 31

instance (x : α) : Decidable (FitsInt x) :=
  inferInstanceAs (Decidable (-2 ^ 31 ≤ truncate x ∧ truncate x < 2 ^ 31))

/-- A double through `int` to `UnsignedIndex_T`. -/
def toUnsignedIndex (x : α) : ℕ := (truncate x % 2 ^ 32).toNat

/-! ## Prices of one class -/

/-- The seats from `idx` to `bound`. -/
def seats (idx bound : ℕ) : List ℕ := List.range' idx (bound + 1 - idx)

/-- The loop over the seats; `itLowerBound` is the position where the next search starts. -/
def priceLoop (y : α) (lPartialSumHolder : List α) : List ℕ → ℕ → Except McFault (List α)
  | [], _ => return []
  | idx :: lSeats, itLowerBound =>
    match lowerBound lPartialSumHolder itLowerBound (idx : α) with
    | none => .error .unpartitionedRange
    | some pos => do
      let K := lPartialSumHolder.length
      let lBP := y * ((K - pos : ℕ) : α) / K
      let lBPs ← priceLoop y lPartialSumHolder lSeats pos
      return lBP :: lBPs

def priceSeats (y : α) (lPartialSumHolder : List α) (idx bound : ℕ) : Except McFault (List α) :=
  if 2 ^ 32 ≤ bound + 1 then .error .endlessLoop
  else priceLoop y lPartialSumHolder (seats idx bound) 0

/-- `floor (K * (yj - yj1) / yj)` (`:89`, `:225`). -/
def sampleIndex (K : ℕ) (yj yj1 : α) : ℕ := ⌊(K : α) * (yj - yj1) / yj⌋₊

/-- What a pass of the class loop leaves: the sorted sums, the index and the protection level of the
class, its prices and the seat to go on with. -/
structure ClassStep (α : Type*) where
  lPartialSumHolder : List α
  lj : ℕ
  pj : α
  lBPs : List α
  idx : ℕ

def classStep (yj yj1 : α) (bound : ℕ) (lPartialSumHolder : List α) (idx : ℕ) : Except McFault (ClassStep α) :=
  if ¬ yj > yj1 then .error .yieldOrder
  else
    let lPartialSumHolder := lPartialSumHolder.insertionSort (· ≤ ·)
    let K := lPartialSumHolder.length
    let lj := sampleIndex K yj yj1
    if ¬ (lj ≥ 1 ∧ lj < K) then .error .sampleIndex
    else do
      let pj := OrderStatistics.midpoint lPartialSumHolder lj
      let pjint := toUnsignedIndex pj
      let lBPs ← priceSeats yj lPartialSumHolder idx (min pjint bound)
      return ⟨lPartialSumHolder, lj, pj, lBPs, max idx (min pjint bound + 1)⟩

/-- The update of the partial sum holder (`:127-130`, `:255-258`). -/
def nextSums (lPartialSumHolder : List α) (lj : ℕ) (lNextDemand : List α) : List α :=
  List.zipWith (· + ·) (lPartialSumHolder.drop lj) lNextDemand

/-! ## The leg-based function -/

/-- The class loop and the prices of the last class, from the class `lCurrentVC` on. -/
def legLoop (lCap : α) (lCapacityIndex : ℕ) : VirtualClass α → List (VirtualClass α) → List α → ℕ →
    Except McFault (List (VirtualClass α) × List α)
  | lLastVC, [], lPartialSumHolder, idx => do
    let lBPs ← priceSeats lLastVC.yield lPartialSumHolder idx lCapacityIndex
    return ([lLastVC], lBPs)
  | lCurrentVC, lNextVC :: lVCList, lPartialSumHolder, idx => do
    let step ← classStep lCurrentVC.yield lNextVC.yield lCapacityIndex lPartialSumHolder idx
    if ¬ step.lPartialSumHolder.length ≤ lNextVC.generatedDemandVector.length then .error .sampleSize
    else
      let rest ← legLoop lCap lCapacityIndex { lNextVC with cumulatedBookingLimit := lCap - step.pj } lVCList
        (nextSums step.lPartialSumHolder step.lj lNextVC.generatedDemandVector) step.idx
      return ({ lCurrentVC with cumulatedProtection := step.pj } :: rest.1, step.lBPs ++ rest.2)

def optimalOptimisationByMCIntegration (ioLegCabin : LegCabin α) : Except McFault (LegCabin α) :=
  let lCap := ioLegCabin.availabilityPool
  let lCapacity := truncate lCap
  if lCapacity = -2 ^ 31 ∨ 2 ^ 31 ≤ lCapacity + |lCapacity| then .error .signedOverflow
  else
    let lCapacityIndex := ((lCapacity + |lCapacity|) / 2).toNat
    match ioLegCabin.virtualClassList with
    | [] => .error .noVirtualClass
    | lFirstVC :: lVCList => do
      let out ← legLoop lCap lCapacityIndex { lFirstVC with cumulatedBookingLimit := lCap } lVCList
        lFirstVC.generatedDemandVector 1
      return { ioLegCabin with virtualClassList := out.1, bidPriceVector := out.2 }

/-! ## The O&D function -/

/-- The draws of a generator that is seeded anew on every call, `generateNormal` being StdAir's. -/
def generateDemandVector (generateNormal : ℕ → α → α → α) (iMean iStdDev : α) (K : ℕ) : List α :=
  if iStdDev > 0 then (List.range K).map fun i => generateNormal i iMean iStdDev
  else List.replicate K iMean

/-- The prices of the last class (`:278`): from the first one below the minimum on, the minimum. -/
def lastPriceLoop (yn : α) (lPartialSumHolder : List α) : List ℕ → ℕ → Bool → Except McFault (List α)
  | [], _, _ => return []
  | idx :: lSeats, itLowerBound, lMinBPReached =>
    match lowerBound lPartialSumHolder itLowerBound (idx : α) with
    | none => .error .unpartitionedRange
    | some pos => do
      let K := lPartialSumHolder.length
      let lMinBP : α := 1
      let lBP := yn * ((K - pos : ℕ) : α) / K
      let lMinBPReached := lMinBPReached || decide (lBP < lMinBP)
      let lBPs ← lastPriceLoop yn lPartialSumHolder lSeats pos lMinBPReached
      return (if lMinBPReached then lMinBP else lBP) :: lBPs

/-- The level loop and the prices of the last level; `draws` stands for `generateDemandVector`. -/
def odLoop (draws : YieldLevel α → ℕ → List α) (lPool : ℕ) : YieldLevel α → List (YieldLevel α) → List α →
    ℕ → Except McFault (List α)
  | lCurrentYD, [], lPartialSumHolder, idx =>
    if 2 ^ 32 ≤ lPool + 1 then .error .endlessLoop
    else lastPriceLoop lCurrentYD.yield (lPartialSumHolder.insertionSort (· ≤ ·)) (seats idx lPool) 0 false
  | lCurrentYD, lNextYD :: lLevels, lPartialSumHolder, idx => do
    let step ← classStep lCurrentYD.yield lNextYD.yield lPool lPartialSumHolder idx
    let K := step.lPartialSumHolder.length
    let rest ← odLoop draws lPool lNextYD lLevels
      (nextSums step.lPartialSumHolder step.lj (draws lNextYD (K - step.lj))) step.idx
    return step.lBPs ++ rest

/-- The function up to the new current bid price. -/
def computeBidPrices (draws : YieldLevel α → ℕ → List α) (K : ℕ) (ioLegCabin : LegCabin α) :
    Except McFault (LegCabin α) :=
  match ioLegCabin.yieldLevelDemandMap with
  | [] => .error .noYieldLevel
  | lFirstYD :: lLevels => do
    let lBidPriceVector ← odLoop draws ⌊ioLegCabin.availabilityPool⌋.toNat lFirstYD lLevels (draws lFirstYD K) 1
    match lBidPriceVector.getLast? with
    | none => .error .emptyBidPriceVector
    | some lNewBP => return { ioLegCabin with bidPriceVector := lBidPriceVector, currentBidPrice := lNewBP }

/-- `updatePreviousBidPrice` is StdAir's: the previous bid price that it sets, before the current one is. -/
def optimisationByMCIntegration (generateNormal : ℕ → α → α → α) (updatePreviousBidPrice : LegCabin α → α)
    (ioLegCabin : LegCabin α) : Except McFault (LegCabin α) := do
  let out ← computeBidPrices (fun lYD => generateDemandVector generateNormal lYD.mean lYD.stdDev)
    DEFAULT_NUMBER_OF_DRAWS_FOR_MC_SIMULATION ioLegCabin
  let lPreviousBP := updatePreviousBidPrice { ioLegCabin with bidPriceVector := out.bidPriceVector }
  if lPreviousBP = 0 then .error .previousBidPrice
  else return { out with previousBidPrice := lPreviousBP }

end Rmol
