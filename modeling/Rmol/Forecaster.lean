import Rmol.OldQFF
/-!
# `Forecaster` (`Forecaster.cpp:82-195`) and the forecasts it calls

| here | there |
| --- | --- |
| `QForecasting.forecastFromHistory` | `QForecasting.cpp:31`, with the historical bookings |
| `NewQFF.forecastFromHistory`       | `NewQFF.cpp:31`, with the historical bookings |
| `forecastProductDemand`            | the DCP loop of `HybridForecasting.cpp:50-118` and `BasedForecasting.cpp:46-115` |
| `HybridForecasting.forecast`       | `HybridForecasting.cpp:32` |
| `BasedForecasting.forecast`        | `BasedForecasting.cpp:31` |
| `Forecaster.setDemandForecastsToZero` | `Forecaster.cpp:167` |
| `Forecaster.forecast`              | `Forecaster.cpp:83` |

`QForecasting.forecastFromHistory` and `NewQFF.forecastFromHistory` refine the forecasts of `QForecasting` and
`NewQFF`, where the forecast of an interval is given.

Every forecaster adds to what the classes, families and policies have. The reset at the start reaches all classes
of the cabin's fare families, the two policy forecasters reset the policies themselves, so nothing of an earlier
forecast is left (`forecast_eq_of_sameInputs`).
-/

namespace Rmol

variable {κ : Type} [DecidableEq κ]

/-! ## The forecasts of a cabin -/

/-- The DCP loop of the Q-forecasters, with the forecast of an interval from its history. -/
noncomputable def forecastIntervalsFromHistory (iDispatchingMap iFAMap : List (κ × Curve ℝ))
    (estimate : DTD → DTD → Except ForecasterFault (ℝ × ℝ)) (lWholeDCPList : List DTD) (iCurrentDTD : DTD)
    (run : ClassStore κ ℝ × FamilyForecast ℝ) : Except ForecasterFault (ClassStore κ ℝ × FamilyForecast ℝ) :=
  (intervals lWholeDCPList).foldlM (fun run interval =>
    if interval.2 < iCurrentDTD then do
      let lForecast ← estimate interval.1 interval.2
      (forecastInterval iDispatchingMap iFAMap (fun _ _ => lForecast) iCurrentDTD run interval).mapError .command
    else return run) run

/-- Demand that is added to the product-oriented attributes of a class. -/
noncomputable def addProductDemand (lMean lStdDev : ℝ) (b : BookingClass ℝ) : BookingClass ℝ :=
  { b with
    productDemMean := b.productDemMean + lMean
    productDemStdDev := √(b.productDemStdDev * b.productDemStdDev + lStdDev * lStdDev) }

/-- The classes of a cabin are forecast one by one, at each interval. -/
noncomputable def forecastProductDemand (lBCList : List κ)
    (estimate : κ → DTD → DTD → Except ForecasterFault (ℝ × ℝ)) (lWholeDCPList : List DTD) (iCurrentDTD : DTD)
    (classes : ClassStore κ ℝ) : Except ForecasterFault (ClassStore κ ℝ) :=
  (intervals lWholeDCPList).foldlM (fun classes interval =>
    if interval.2 < iCurrentDTD then
      lBCList.foldlM (fun classes lBC => do
        let lForecast ← estimate lBC interval.1 interval.2
        return classes.modify lBC (addProductDemand lForecast.1 lForecast.2)) classes
    else return classes) classes

section forecasts
variable (cabin : ForecastCabin κ) (history : History κ) (lWholeDCPList : List DTD) (iCurrentDTD : DTD)

noncomputable def QForecasting.forecastFromHistory (f : Forecasts κ ℝ) : Except ForecasterFault (Forecasts κ ℝ) :=
  match cabin.fareFamilies.getLast? with
  | none => .error (.command .noFareFamily)
  | some lFF => do
    let yield := fun lBC => (f.classes lBC).yield
    let lBCSellUpCurveMap ← (computeSellUpFactorCurves yield lFF.frat5Curve cabin.bookingClasses).mapError .command
    let lBCDispatchingCurveMap ←
      (computeDispatchingFactorCurves yield lFF.frat5Curve cabin.bookingClasses).mapError .command
    let idx := cabin.fareFamilies.length - 1
    let run ← forecastIntervalsFromHistory lBCDispatchingCurveMap lBCDispatchingCurveMap
      (history.forecastInterval
        (QForecasting.preparePriceOrientedHistoricalBooking history.snapshots [] lBCSellUpCurveMap))
      lWholeDCPList iCurrentDTD (f.classes, f.families idx)
    return ⟨run.1, Function.update f.families idx run.2⟩

noncomputable def HybridForecasting.forecast (f : Forecasts κ ℝ) : Except ForecasterFault (Forecasts κ ℝ) := do
  let f ← QForecasting.forecastFromHistory cabin history lWholeDCPList iCurrentDTD f
  let classes ← forecastProductDemand cabin.bookingClasses (fun lBC => history.forecastInterval
    (HybridForecasting.prepareProductOrientedHistoricalBooking history.snapshots lBC [])) lWholeDCPList iCurrentDTD
    f.classes
  return { f with classes }

noncomputable def BasedForecasting.forecast (f : Forecasts κ ℝ) : Except ForecasterFault (Forecasts κ ℝ) := do
  let classes ← forecastProductDemand cabin.bookingClasses (fun lBC => history.forecastInterval
    fun iDCPBegin iDCPEnd iSegmentBegin iSegmentEnd => .ok (prepareHistoricalBooking history.snapshots.table lBC []
      iDCPBegin iDCPEnd iSegmentBegin iSegmentEnd)) lWholeDCPList iCurrentDTD f.classes
  return { f with classes }

noncomputable def NewQFF.forecastFamilyFromHistory (ioFareFamily : FareFamily κ ℝ)
    (run : ClassStore κ ℝ × FamilyForecast ℝ) : Except ForecasterFault (ClassStore κ ℝ × FamilyForecast ℝ) := do
  let yield := fun lBC => (run.1 lBC).yield
  let lBCSellUpCurveMap ←
    (computeSellUpFactorCurves yield ioFareFamily.frat5Curve ioFareFamily.bookingClasses).mapError .command
  let lBCDispatchingCurveMap ←
    (computeDispatchingFactorCurves yield ioFareFamily.frat5Curve ioFareFamily.bookingClasses).mapError .command
  forecastIntervalsFromHistory lBCDispatchingCurveMap lBCSellUpCurveMap
    (history.forecastInterval (NewQFF.preparePriceOrientedHistoricalBooking history.snapshots [] lBCSellUpCurveMap))
    lWholeDCPList iCurrentDTD run

/-- The families from position `i` on. -/
noncomputable def NewQFF.forecastFamiliesFromHistory :
    ℕ → List (FareFamily κ ℝ) → Forecasts κ ℝ → Except ForecasterFault (Forecasts κ ℝ)
  | _, [], f => return f
  | i, lFF :: lFFList, f => do
    let run ← forecastFamilyFromHistory history lWholeDCPList iCurrentDTD lFF (f.classes, f.families i)
    forecastFamiliesFromHistory (i + 1) lFFList ⟨run.1, Function.update f.families i run.2⟩

noncomputable def NewQFF.forecastFromHistory (api : PolicyApi κ) (st : CabinState κ) :
    Except ForecasterFault (CabinState κ) := do
  let f ← forecastFamiliesFromHistory history lWholeDCPList iCurrentDTD 0 cabin.fareFamilies st.forecasts
  return ⟨f, dispatchDemandForecastToPolicies f.classes api st.policies⟩

end forecasts

/-! ## Histories that give a forecast for every interval -/

section refinement
variable {history : History κ} {lWholeDCPList : List DTD} {iCurrentDTD : DTD} {est : DTD → DTD → ℝ × ℝ}

theorem forecastIntervalsFromHistory_eq {D FA : List (κ × Curve ℝ)}
    {estimate : DTD → DTD → Except ForecasterFault (ℝ × ℝ)}
    (hestimate : ∀ p ∈ remaining lWholeDCPList iCurrentDTD, estimate p.1 p.2 = .ok (est p.1 p.2))
    (run : ClassStore κ ℝ × FamilyForecast ℝ) :
    forecastIntervalsFromHistory D FA estimate lWholeDCPList iCurrentDTD run =
      (forecastIntervals D FA est lWholeDCPList iCurrentDTD run).mapError .command := by
  unfold forecastIntervalsFromHistory forecastIntervals
  unfold remaining at hestimate
  generalize intervals lWholeDCPList = ps at hestimate
  induction ps generalizing run with
  | nil => rfl
  | cons p ps ih =>
    have hrest : ∀ q ∈ ps.filter fun interval => interval.2 < iCurrentDTD, estimate q.1 q.2 = .ok (est q.1 q.2) := by
      intro q hq
      rw [List.mem_filter] at hq
      exact hestimate q (List.mem_filter.2 ⟨List.mem_cons_of_mem _ hq.1, hq.2⟩)
    rw [List.foldlM_cons, List.foldlM_cons, mapError_bind]
    by_cases hp : p.2 < iCurrentDTD
    · have hfirst := hestimate p (List.mem_filter.2 ⟨List.mem_cons_self, decide_eq_true hp⟩)
      simp only [if_pos hp, hfirst, ok_bind]
      congr 1
      funext run'
      exact ih run' hrest
    · simp only [forecastInterval, if_neg hp, except_pure, ok_bind]
      exact ih run hrest

/-- **`QForecasting`** from a history is the forecast with what the history gives for the intervals. -/
theorem QForecasting.forecastFromHistory_eq {cabin : ForecastCabin κ} {segmentCabin : SegmentCabin κ ℝ}
    (hclasses : segmentCabin.bookingClasses = cabin.bookingClasses)
    (hfamilies : segmentCabin.fareFamilies = cabin.fareFamilies) {f : Forecasts κ ℝ}
    (hestimate : ∀ lFF su, cabin.fareFamilies.getLast? = some lFF →
      computeSellUpFactorCurves (fun c => (f.classes c).yield) lFF.frat5Curve cabin.bookingClasses = .ok su →
      ∀ p ∈ remaining lWholeDCPList iCurrentDTD, history.forecastInterval
        (preparePriceOrientedHistoricalBooking history.snapshots [] su) p.1 p.2 = .ok (est p.1 p.2)) :
    forecastFromHistory cabin history lWholeDCPList iCurrentDTD f =
      (forecast segmentCabin est lWholeDCPList iCurrentDTD f).mapError .command := by
  unfold forecastFromHistory forecast
  rw [hfamilies, hclasses]
  cases hlast : cabin.fareFamilies.getLast? with
  | none => rfl
  | some lFF =>
    simp only [mapError_bind]
    cases hsu : computeSellUpFactorCurves (fun c => (f.classes c).yield) lFF.frat5Curve cabin.bookingClasses with
    | error e => rfl
    | ok su =>
      simp only [Except.mapError, ok_bind]
      congr 1
      funext disp
      rw [forecastIntervalsFromHistory_eq (hestimate lFF su hlast hsu)]
      rfl

/-- **`NewQFF`**, one fare family. -/
theorem NewQFF.forecastFamilyFromHistory_eq {F : FareFamily κ ℝ} {run : ClassStore κ ℝ × FamilyForecast ℝ}
    (hestimate : ∀ su, computeSellUpFactorCurves (fun c => (run.1 c).yield) F.frat5Curve F.bookingClasses = .ok su →
      ∀ p ∈ remaining lWholeDCPList iCurrentDTD, history.forecastInterval
        (preparePriceOrientedHistoricalBooking history.snapshots [] su) p.1 p.2 = .ok (est p.1 p.2)) :
    forecastFamilyFromHistory history lWholeDCPList iCurrentDTD F run =
      (forecastFamily est lWholeDCPList iCurrentDTD F run).mapError .command := by
  unfold forecastFamilyFromHistory forecastFamily
  simp only [mapError_bind]
  cases hsu : computeSellUpFactorCurves (fun c => (run.1 c).yield) F.frat5Curve F.bookingClasses with
  | error e => rfl
  | ok su =>
    simp only [Except.mapError, ok_bind]
    congr 1
    funext disp
    exact forecastIntervalsFromHistory_eq (hestimate su hsu) run

/-- **Product-oriented demand**: each class gets the forecasts of the intervals that are left. -/
theorem forecastProductDemand_eq {lBCList : List κ} {estimate : κ → DTD → DTD → Except ForecasterFault (ℝ × ℝ)}
    {est : κ → DTD → DTD → ℝ × ℝ} (hnodup : lBCList.Nodup) (hestimate : ∀ lBC ∈ lBCList,
      ∀ p ∈ remaining lWholeDCPList iCurrentDTD, estimate lBC p.1 p.2 = .ok (est lBC p.1 p.2))
    (classes : ClassStore κ ℝ) :
    ∃ out, forecastProductDemand lBCList estimate lWholeDCPList iCurrentDTD classes = .ok out ∧
      ∀ lBC ∈ lBCList, out lBC = (remaining lWholeDCPList iCurrentDTD).foldl
        (fun b p => addProductDemand (est lBC p.1 p.2).1 (est lBC p.1 p.2).2 b) (classes lBC) := by
  unfold forecastProductDemand
  unfold remaining at hestimate ⊢
  generalize intervals lWholeDCPList = ps at hestimate ⊢
  induction ps generalizing classes with
  | nil => exact ⟨classes, rfl, fun _ _ => rfl⟩
  | cons p ps ih =>
    have hrest : ∀ lBC ∈ lBCList, ∀ q ∈ ps.filter fun interval => interval.2 < iCurrentDTD,
        estimate lBC q.1 q.2 = .ok (est lBC q.1 q.2) := by
      intro lBC hlBC q hq
      rw [List.mem_filter] at hq
      exact hestimate lBC hlBC q (List.mem_filter.2 ⟨List.mem_cons_of_mem _ hq.1, hq.2⟩)
    rw [List.foldlM_cons]
    by_cases hp : p.2 < iCurrentDTD
    · have hpass : lBCList.foldlM (fun classes lBC => do
          let lForecast ← estimate lBC p.1 p.2
          return classes.modify lBC (addProductDemand lForecast.1 lForecast.2)) classes =
          .ok (KeyedUpdates.visits (fun lBC => addProductDemand (est lBC p.1 p.2).1 (est lBC p.1 p.2).2)
            lBCList classes) := by
        refine foldlM_eq_ok classes fun lBC hlBC classes => ?_
        rw [hestimate lBC hlBC p (List.mem_filter.2 ⟨List.mem_cons_self, decide_eq_true hp⟩)]
        rfl
      obtain ⟨out, hout, hclasses⟩ := ih (KeyedUpdates.visits
        (fun lBC => addProductDemand (est lBC p.1 p.2).1 (est lBC p.1 p.2).2) lBCList classes) hrest
      refine ⟨out, ?_, fun lBC hlBC => ?_⟩
      · rw [if_pos hp, hpass]
        exact hout
      · have hfilter : (p :: ps).filter (fun interval => interval.2 < iCurrentDTD) =
            p :: ps.filter fun interval => interval.2 < iCurrentDTD := List.filter_cons_of_pos (decide_eq_true hp)
        rw [hclasses lBC hlBC, hfilter, List.foldl_cons]
        congr 1
        exact KeyedUpdates.visits_apply_of_nodup _ hnodup hlBC classes
    · have hfilter : (p :: ps).filter (fun interval => interval.2 < iCurrentDTD) =
          ps.filter fun interval => interval.2 < iCurrentDTD := List.filter_cons_of_neg (by simpa using hp)
      rw [if_neg hp, hfilter]
      exact ih classes hrest

end refinement

/-! ## The choice of the method -/

inductive ForecastingMethod where
  | qForecasting
  | hybridForecasting
  | newQFF
  | oldQFF
  | basedForecasting
  /-- Any other value of the enumeration. -/
  | other
deriving DecidableEq, Repr

/-- What the forecaster takes from StdAir, and how many passes a run gives to unconstraining. -/
structure ForecastEnv (κ : Type) where
  api : PolicyApi κ
  toDTD : ℤ → DTD
  lWholeDCPList : List DTD
  passes : ℕ

namespace Forecaster

def setDemandForecastsToZero (iSegmentCabin : ForecastCabin κ) (f : Forecasts κ ℝ) : Forecasts κ ℝ where
  classes := iSegmentCabin.fareFamilies.foldl (fun classes lFF => lFF.bookingClasses.foldl (fun classes lBC =>
    ClassStore.modify classes lBC BookingClass.withoutDemand) classes) f.classes
  families := fun i => if i < iSegmentCabin.fareFamilies.length then ⟨0, 0⟩ else f.families i

/-- What all methods forecast from. -/
def historyOf (env : ForecastEnv κ) (ioSegmentCabin : ForecastCabin κ) (iEventDate : Date)
    (iUnconstrainingMethod : UnconstrainingMethod) : History κ where
  snapshots := ioSegmentCabin.snapshots
  toDTD := env.toDTD
  iCurrentDate := iEventDate
  iNbOfDepartedSegments := getNbOfDepartedSimilarSegments env.toDTD ioSegmentCabin.snapshots.boardingDates iEventDate
  iUnconstrainingMethod := iUnconstrainingMethod
  passes := env.passes

noncomputable def forecast (env : ForecastEnv κ) (ioSegmentCabin : ForecastCabin κ) (iEventDate : Date)
    (iUnconstrainingMethod : UnconstrainingMethod) (iForecastingMethod : ForecastingMethod) (st : CabinState κ) :
    Except ForecasterFault (Bool × CabinState κ) :=
  let lNbOfDepartedSegments :=
    getNbOfDepartedSimilarSegments env.toDTD ioSegmentCabin.snapshots.boardingDates iEventDate
  if lNbOfDepartedSegments < 2 then .ok (false, st)
  else
    let f := setDemandForecastsToZero ioSegmentCabin st.forecasts
    let lDaysBeforeDeparture := env.toDTD (ioSegmentCabin.boardingDate - iEventDate)
    let history := historyOf env ioSegmentCabin iEventDate iUnconstrainingMethod
    let hybridForecasting := do
      let f ← HybridForecasting.forecast ioSegmentCabin history env.lWholeDCPList lDaysBeforeDeparture f
      return (true, ⟨f, st.policies⟩)
    match iForecastingMethod with
    | .qForecasting => do
      let f ← QForecasting.forecastFromHistory ioSegmentCabin history env.lWholeDCPList lDaysBeforeDeparture f
      return (true, ⟨f, st.policies⟩)
    | .hybridForecasting => hybridForecasting
    | .newQFF =>
      if ioSegmentCabin.fareFamilyStatus = false then hybridForecasting
      else do
        let st ← NewQFF.forecastFromHistory ioSegmentCabin history env.lWholeDCPList lDaysBeforeDeparture env.api
          ⟨f, st.policies⟩
        return (true, st)
    | .oldQFF =>
      if ioSegmentCabin.fareFamilyStatus = false then hybridForecasting
      else do
        let st ← OldQFF.forecast env.api ioSegmentCabin (fun lBCSellUpCurveMap => history.forecastInterval
          (OldQFF.prepareHistoricalBooking history.snapshots ioSegmentCabin.bookingClasses [] lBCSellUpCurveMap))
          env.lWholeDCPList lDaysBeforeDeparture ⟨f, st.policies⟩
        return (true, st)
    | .basedForecasting => do
      let f ← BasedForecasting.forecast ioSegmentCabin history env.lWholeDCPList lDaysBeforeDeparture f
      return (true, ⟨f, st.policies⟩)
    | .other => .error .forecastingMethod

theorem forecast_based {env : ForecastEnv κ} {ioSegmentCabin : ForecastCabin κ} {iEventDate : Date}
    (hdeparted : 2 ≤ getNbOfDepartedSimilarSegments env.toDTD ioSegmentCabin.snapshots.boardingDates iEventDate)
    (iUnconstrainingMethod : UnconstrainingMethod) (st : CabinState κ) :
    forecast env ioSegmentCabin iEventDate iUnconstrainingMethod .basedForecasting st = do
      let f ← BasedForecasting.forecast ioSegmentCabin (historyOf env ioSegmentCabin iEventDate iUnconstrainingMethod)
        env.lWholeDCPList (env.toDTD (ioSegmentCabin.boardingDate - iEventDate))
        (setDemandForecastsToZero ioSegmentCabin st.forecasts)
      return (true, ⟨f, st.policies⟩) := by
  unfold forecast
  rw [if_neg (not_lt.2 hdeparted)]

end Forecaster

end Rmol
