import Rmol.EMDetruncator
import Rmol.SegmentWindow
/-!
# From the historical bookings of an interval to its forecast

| here | there |
| --- | --- |
| `QForecasting.preparePriceOrientedHistoricalBooking`         | `QForecasting.cpp:135` |
| `HybridForecasting.prepareProductOrientedHistoricalBooking`  | `HybridForecasting.cpp:124` |
| `NewQFF.preparePriceOrientedHistoricalBooking`               | `NewQFF.cpp:161` |
| `OldQFF.prepareHistoricalBooking`                            | `OldQFF.cpp:137` |
| `findSellUp`                                                 | the search in a sell-up curve and its assertions (`QForecasting.cpp:185-190`) |
| `Detruncator.unconstrain`                                    | `Detruncator.cpp:17` |
| `uncDemVector`                                               | `lUncDemVector` (`NewQFF.cpp:117-126`) |
| `computeDistributionParameters`                              | `Utilities.cpp:27` |
| `Snapshots.prepareWindow`                                    | the call of one of these, and the views that it makes first (`NewQFF.cpp:110-115`, `:171-176`) |
| `History.forecastInterval`                                   | the lines of an interval that the five forecasters share (`NewQFF.cpp:94-131`) |

`prepareHistoricalBooking` of `BasedForecasting.cpp` is the one of `HistoricalBookings`. All five build one
booking for each segment of the window, so a window of two segments is a sample of two.
-/

namespace Rmol

/-- What ends a run of the forecaster. -/
inductive ForecasterFault where
  /-- An assertion of the curves and of the dispatching functions. -/
  | command (fault : ForecastFault)
  /-- No sell-up factor for the DCP: `assert (itSellUp != lSellUpCurve.end())` and the like. -/
  | missingSellUp
  /-- `assert (lSellUp != 0)`. -/
  | zeroSellUp
  /-- A window with a bound below zero, where the unsigned one wraps, or beyond the last segment of the table. -/
  | segmentIndex
  /-- `assert (lNbOfSamples > 1)` (`Utilities.cpp:32`). -/
  | samples
  /-- `assert (false)` (`Detruncator.cpp:27`). -/
  | unconstrainingMethod
  /-- `assert (false)` (`Forecaster.cpp:158`). -/
  | forecastingMethod
  /-- The loop of `EMDetruncator::unconstrain` takes more passes than the run is given. -/
  | passes
  /-- `assert (itDU != lDisutilityCurve.end())` (`OldQFF.cpp:315`). -/
  | missingDisutility
  /-- `assert (lSUToNextClass > 0.0)` and `assert (lSUToNextClass < lSUToLowestClass)` (`OldQFF.cpp:327-328`). -/
  | sellUpOrder
deriving DecidableEq, Repr

/-- The snapshot table of a cabin. -/
structure Snapshots (κ : Type*) where
  table : SegmentSnapshotTable κ ℝ
  /-- The boarding dates of its segment-cabins, by table index. -/
  boardingDates : List Date
  /-- The index of the cabin itself among the classes. -/
  lCabinIdx : ℕ

section prepare
variable {κ : Type*} [DecidableEq κ] (snapshots : Snapshots κ)

/-- The sell-up factor of a curve for the first day of an interval, where there is one and it is not zero. -/
noncomputable def findSellUp (lSellUpCurve : Option (Curve ℝ)) (iDCPBegin : DTD) : Except ForecasterFault ℝ :=
  match lSellUpCurve.bind fun curve => curve iDCPBegin with
  | none => .error .missingSellUp
  | some lSellUp => if lSellUp = 0 then .error .zeroSellUp else .ok lSellUp

/-- The loop over the segments of a window, with the body that builds the booking of segment `i`. Its counter is a
`short`: the model is of tables of at most `2^15 - 1` segments, where the counter reaches every one. -/
def addHistoricalBookings (ioHBHolder : List (HistoricalBooking ℝ)) (iSegmentBegin iSegmentEnd : ℕ)
    (booking : ℕ → Except ForecasterFault (HistoricalBooking ℝ)) :
    Except ForecasterFault (List (HistoricalBooking ℝ)) := do
  let lHistoricalBkgs ← (List.range (iSegmentEnd + 1 - iSegmentBegin)).mapM booking
  return ioHBHolder ++ lHistoricalBkgs

/-- The rows of a block of the table, for the classes of segment `i` of a window. -/
def segmentView (block : ℕ → DTD → ℝ) (iSegmentBegin : ℕ) (iDCPEnd : DTD) (i lClassIdx j : ℕ) : ℝ :=
  dtdRangeView snapshots.table.nbOfClasses block iSegmentBegin iDCPEnd
    (i * snapshots.table.nbOfClasses + lClassIdx) j

/-- The Q-equivalent bookings of a segment, with the bookings of each class of the map. -/
noncomputable def qEquivalentBookings (iBCSellUpCurveMap : List (κ × Curve ℝ)) (iDCPBegin : DTD)
    (lNbOfBookings : κ → ℝ) : Except ForecasterFault ℝ :=
  iBCSellUpCurveMap.foldlM (fun lNbOfHistoricalBkgs entry => do
    let lSellUp ← findSellUp (some entry.2) iDCPBegin
    return lNbOfHistoricalBkgs + lNbOfBookings entry.1 / lSellUp) 0

noncomputable def QForecasting.preparePriceOrientedHistoricalBooking (ioHBHolder : List (HistoricalBooking ℝ))
    (iBCSellUpCurveMap : List (κ × Curve ℝ)) (iDCPBegin iDCPEnd : DTD) (iSegmentBegin iSegmentEnd : ℕ) :
    Except ForecasterFault (List (HistoricalBooking ℝ)) :=
  let lDTDs := List.range (nbOfDTDs iDCPBegin iDCPEnd)
  let lBookingView := segmentView snapshots snapshots.table.priceOrientedGrossBooking iSegmentBegin iDCPEnd
  let lAvlView := segmentView snapshots snapshots.table.availability iSegmentBegin iDCPEnd
  addHistoricalBookings ioHBHolder iSegmentBegin iSegmentEnd fun i => do
    let lCensorshipFlag := lDTDs.any fun j => lAvlView i snapshots.lCabinIdx j < 1
    let lNbOfHistoricalBkgs ← qEquivalentBookings iBCSellUpCurveMap iDCPBegin fun lBookingClass =>
      (lDTDs.map fun j => lBookingView i (snapshots.table.getClassIndex lBookingClass) j).sum
    return ⟨lNbOfHistoricalBkgs, lNbOfHistoricalBkgs, lCensorshipFlag⟩

noncomputable def HybridForecasting.prepareProductOrientedHistoricalBooking (iBookingClass : κ)
    (ioHBHolder : List (HistoricalBooking ℝ)) (iDCPBegin iDCPEnd : DTD) (iSegmentBegin iSegmentEnd : ℕ) :
    Except ForecasterFault (List (HistoricalBooking ℝ)) :=
  let lClassIdx := snapshots.table.getClassIndex iBookingClass
  let lDTDs := List.range (nbOfDTDs iDCPBegin iDCPEnd)
  let lBookingView := segmentView snapshots snapshots.table.productOrientedGrossBooking iSegmentBegin iDCPEnd
  let lAvlView := segmentView snapshots snapshots.table.availability iSegmentBegin iDCPEnd
  addHistoricalBookings ioHBHolder iSegmentBegin iSegmentEnd fun i =>
    let lCensorshipFlag := lDTDs.any fun j => lAvlView i lClassIdx j < 1
    let lNbOfHistoricalBkgs := (lDTDs.map fun j => lBookingView i lClassIdx j).sum
    return ⟨lNbOfHistoricalBkgs, lNbOfHistoricalBkgs, lCensorshipFlag⟩

/-- A day counts as censored if no class of the family is open. -/
noncomputable def NewQFF.preparePriceOrientedHistoricalBooking (ioHBHolder : List (HistoricalBooking ℝ))
    (iBCSellUpCurveMap : List (κ × Curve ℝ)) (iDCPBegin iDCPEnd : DTD) (iSegmentBegin iSegmentEnd : ℕ) :
    Except ForecasterFault (List (HistoricalBooking ℝ)) :=
  let lDTDs := List.range (nbOfDTDs iDCPBegin iDCPEnd)
  let lPriceBookingView := segmentView snapshots snapshots.table.priceOrientedGrossBooking iSegmentBegin iDCPEnd
  let lProductBookingView := segmentView snapshots snapshots.table.productOrientedGrossBooking iSegmentBegin iDCPEnd
  let lAvlView := segmentView snapshots snapshots.table.availability iSegmentBegin iDCPEnd
  addHistoricalBookings ioHBHolder iSegmentBegin iSegmentEnd fun i => do
    let lCensorshipFlag := lDTDs.any fun j => !iBCSellUpCurveMap.any fun entry =>
      1 ≤ lAvlView i (snapshots.table.getClassIndex entry.1) j
    let lNbOfHistoricalBkgs ← qEquivalentBookings iBCSellUpCurveMap iDCPBegin fun lBookingClass =>
      let lIdx := snapshots.table.getClassIndex lBookingClass
      (lDTDs.map fun j => lPriceBookingView i lIdx j + lProductBookingView i lIdx j).sum
    return ⟨lNbOfHistoricalBkgs, lNbOfHistoricalBkgs, lCensorshipFlag⟩

/-- The bookings of a day are divided by the sell-up factor of the last open class of the cabin; a day without
an open class does not count. -/
noncomputable def OldQFF.prepareHistoricalBooking (lBCList : List κ) (ioHBHolder : List (HistoricalBooking ℝ))
    (iBCSellUpCurveMap : List (κ × Curve ℝ)) (iDCPBegin iDCPEnd : DTD) (iSegmentBegin iSegmentEnd : ℕ) :
    Except ForecasterFault (List (HistoricalBooking ℝ)) :=
  let lDTDs := List.range (nbOfDTDs iDCPBegin iDCPEnd)
  let lPriceBookingView := segmentView snapshots snapshots.table.priceOrientedGrossBooking iSegmentBegin iDCPEnd
  let lProductBookingView := segmentView snapshots snapshots.table.productOrientedGrossBooking iSegmentBegin iDCPEnd
  let lAvlView := segmentView snapshots snapshots.table.availability iSegmentBegin iDCPEnd
  addHistoricalBookings ioHBHolder iSegmentBegin iSegmentEnd fun i => do
    let lCensorshipFlag := lDTDs.any fun j => lAvlView i snapshots.lCabinIdx j < 1
    let lNbOfHistoricalBkgs ← lDTDs.foldlM (fun lNbOfHistoricalBkgs j => do
      let lNbOfBksOfTheDay := (lBCList.map fun lBC =>
        let lIdx := snapshots.table.getClassIndex lBC
        lPriceBookingView i lIdx j + lProductBookingView i lIdx j).sum
      let isAvailable := fun lBC => decide (1 ≤ lAvlView i (snapshots.table.getClassIndex lBC) j)
      match (lBCList.filter isAvailable).getLast? with
      | none => return lNbOfHistoricalBkgs
      | some lLowestBC =>
        let lSellUp ← findSellUp (iBCSellUpCurveMap.lookup lLowestBC) iDCPBegin
        return lNbOfHistoricalBkgs + lNbOfBksOfTheDay / lSellUp) 0
    return ⟨lNbOfHistoricalBkgs, lNbOfHistoricalBkgs, lCensorshipFlag⟩

end prepare

/-- The segments of a window are rows of a table of `lNbOfSegments`. -/
def SegmentWindow.Within (window : SegmentWindow) (lNbOfSegments : ℕ) : Prop :=
  0 ≤ window.lSegmentBegin ∧ 0 ≤ window.lSegmentEnd ∧ window.lSegmentBegin ≤ window.lSegmentEnd + 1 ∧
    window.lSegmentEnd < lNbOfSegments

instance (window : SegmentWindow) (lNbOfSegments : ℕ) : Decidable (window.Within lNbOfSegments) :=
  inferInstanceAs (Decidable (_ ∧ _))

def Snapshots.prepareWindow {κ : Type*} (snapshots : Snapshots κ)
    (prepare : DTD → DTD → ℕ → ℕ → Except ForecasterFault (List (HistoricalBooking ℝ))) (iDCPBegin iDCPEnd : DTD)
    (window : SegmentWindow) : Except ForecasterFault (List (HistoricalBooking ℝ)) :=
  if window.Within snapshots.boardingDates.length then
    prepare iDCPBegin iDCPEnd window.lSegmentBegin.toNat window.lSegmentEnd.toNat
  else .error .segmentIndex

/-! ## Unconstraining and the parameters of the distribution -/

inductive UnconstrainingMethod where
  | EM
  /-- Any other value of the enumeration. -/
  | other
deriving DecidableEq, Repr

/-- `passes` bounds the passes of expectation-maximisation. -/
noncomputable def Detruncator.unconstrain (passes : ℕ) (iMethod : UnconstrainingMethod)
    (ioHBHolder : List (HistoricalBooking ℝ)) : Except ForecasterFault (List (HistoricalBooking ℝ)) :=
  match iMethod with
  | .EM =>
    match Rmol.unconstrain passes ioHBHolder with
    | some holder => .ok holder
    | none => .error .passes
  | .other => .error .unconstrainingMethod

theorem detruncator_EM {passes : ℕ} {iMethod : UnconstrainingMethod} {holder holder' : List (HistoricalBooking ℝ)}
    (hEM : iMethod = .EM) (h : unconstrain passes holder = some holder') :
    Detruncator.unconstrain passes iMethod holder = .ok holder' := by
  unfold Detruncator.unconstrain
  generalize unconstrain passes holder = result at h ⊢
  subst hEM h
  rfl

noncomputable def uncDemVector (lHBHolder : List (HistoricalBooking ℝ)) : List ℝ :=
  (scanned lHBHolder).map HistoricalBooking.unconstrainedDemand

/-- The mean and the standard deviation of a sample. -/
noncomputable def computeDistributionParameters (iVector : List ℝ) : Except ForecasterFault (ℝ × ℝ) :=
  let lNbOfSamples := iVector.length
  if lNbOfSamples > 1 then
    let ioMean := iVector.sum / (lNbOfSamples : ℝ)
    let ioStdDev := √((iVector.map fun lSample => (lSample - ioMean) * (lSample - ioMean)).sum /
      ((lNbOfSamples : ℝ) - 1))
    .ok (ioMean, if ioStdDev = 0 then 0.1 else ioStdDev)
  else .error .samples

/-- What the forecast of an interval is computed from, besides the curves. -/
structure History (κ : Type*) where
  snapshots : Snapshots κ
  toDTD : ℤ → DTD
  iCurrentDate : Date
  iNbOfDepartedSegments : ℕ
  iUnconstrainingMethod : UnconstrainingMethod
  passes : ℕ

/-- The forecast of an interval from its holder. -/
noncomputable def History.forecastHolder {κ : Type*} (history : History κ)
    (lHBHolder : List (HistoricalBooking ℝ)) : Except ForecasterFault (ℝ × ℝ) := do
  let lHBHolder ← Detruncator.unconstrain history.passes history.iUnconstrainingMethod lHBHolder
  computeDistributionParameters (uncDemVector lHBHolder)

/-- The forecast of an interval from the holder that `prepare` fills for its window. -/
noncomputable def History.forecastInterval {κ : Type*} (history : History κ)
    (prepare : DTD → DTD → ℕ → ℕ → Except ForecasterFault (List (HistoricalBooking ℝ))) (lCurrentDCP lNextDCP : DTD) :
    Except ForecasterFault (ℝ × ℝ) := do
  let window := segmentWindow history.toDTD history.snapshots.boardingDates history.iNbOfDepartedSegments lNextDCP
    history.iCurrentDate
  let lHBHolder ← history.snapshots.prepareWindow prepare lCurrentDCP lNextDCP window
  history.forecastHolder lHBHolder

end Rmol
