import Rmol.IntervalForecast
import Rmol.NewQFF
import Rmol.QForecasting
/-!
# `OldQFF`: the demand of the policies from one forecast of the cabin (`OldQFF.cpp`)

| here | there |
| --- | --- |
| `OldQFF.transferLoop`                     | the loop over the other classes (`OldQFF.cpp:302-342`) |
| `OldQFF.dispatchDemandForecastToPolicy`   | `:251` |
| `OldQFF.dispatchDemandForecastToPolicies` | `:232` |
| `OldQFF.forecastInterval`                 | one pass of the DCP loop (`:72-131`) |
| `OldQFF.forecast`                         | `:31` |

A policy gets the forecast of the interval times the sell-up factor of its lowest class. All of it is first
entered at the yield of that class; then each class hands on to the next higher one what customers buy up.
What is added at one yield is withdrawn at another, so the map keeps adding up to the demand
(`policies_demandIsSum`).

The yield-demand map is StdAir's: what `addYieldDemand` does to it is an assumption (`AddsToEntry`), and
`mapPolicyApi` is a policy that does it.
-/

namespace Rmol

variable {κ : Type} [DecidableEq κ]

/-- A segment-cabin as the forecasters see it. -/
structure ForecastCabin (κ : Type) where
  bookingClasses : List κ
  fareFamilies : List (FareFamily κ ℝ)
  /-- The disutility curve of the parent fare family of a class. -/
  disutilityCurve : κ → Curve ℝ
  fareFamilyStatus : Bool
  boardingDate : Date
  snapshots : Snapshots κ

/-- What a forecast writes: the attributes of the classes and fare families, and the policies. -/
structure CabinState (κ : Type) where
  forecasts : Forecasts κ ℝ
  policies : List (Policy κ ℝ)

namespace OldQFF

section dispatching
variable (api : PolicyApi κ) (yield : κ → ℝ) (disutilityCurve : κ → Curve ℝ)

/-- From the current class upwards: what is bought up to the next class leaves the current one. -/
noncomputable def transferLoop (iCurrentDCP : DTD) (iMean : ℝ) (iBCSellUpCurveMap : List (κ × Curve ℝ))
    (lSUToLowestClass : ℝ) : κ → List κ → Policy κ ℝ → Except ForecasterFault (Policy κ ℝ)
  | _, [], ioPolicy => .ok ioPolicy
  | lCurrentBC, lNextBC :: lHigherBCs, ioPolicy =>
    match disutilityCurve lCurrentBC iCurrentDCP with
    | none => .error .missingDisutility
    | some lDU =>
      match (iBCSellUpCurveMap.lookup lNextBC).bind fun lSellUpCurveN => lSellUpCurveN iCurrentDCP with
      | none => .error .missingSellUp
      | some lSUToNextClass =>
        if 0 < lSUToNextClass ∧ lSUToNextClass < lSUToLowestClass then
          let lBuyUpFactor := Real.exp ((yield lCurrentBC - yield lNextBC) * lDU)
          let lDemandForNextClass := iMean * lSUToNextClass * lBuyUpFactor
          let ioPolicy := api.addYieldDemand ioPolicy (yield lNextBC) lDemandForNextClass
          let ioPolicy := api.addYieldDemand ioPolicy (yield lCurrentBC) (-lDemandForNextClass)
          transferLoop iCurrentDCP iMean iBCSellUpCurveMap lSUToLowestClass lNextBC lHigherBCs ioPolicy
        else .error .sellUpOrder

noncomputable def dispatchDemandForecastToPolicy (ioPolicy : Policy κ ℝ) (iCurrentDCP : DTD) (iMean iStdDev : ℝ)
    (iBCSellUpCurveMap : List (κ × Curve ℝ)) : Except ForecasterFault (Policy κ ℝ) :=
  match ioPolicy.bookingClasses.reverse with
  | [] => .ok ioPolicy
  | lLowestBC :: lHigherBCs =>
    match (iBCSellUpCurveMap.lookup lLowestBC).bind fun lSellUpCurve => lSellUpCurve iCurrentDCP with
    | none => .error .missingSellUp
    | some lSUToLowestClass =>
      let lAdditinalPolicyDemandMean := iMean * lSUToLowestClass
      let lAdditinalPolicyDemandStdDev := iStdDev * √lSUToLowestClass
      let lPolicy :=
        { ioPolicy with
          demand := ioPolicy.demand + lAdditinalPolicyDemandMean
          stdDev := √(ioPolicy.stdDev * ioPolicy.stdDev +
            lAdditinalPolicyDemandStdDev * lAdditinalPolicyDemandStdDev)
          stdDev_nonneg := Real.sqrt_nonneg _ }
      transferLoop api yield disutilityCurve iCurrentDCP iMean iBCSellUpCurveMap lSUToLowestClass lLowestBC
        lHigherBCs (api.addYieldDemand lPolicy (yield lLowestBC) lAdditinalPolicyDemandMean)

noncomputable def dispatchDemandForecastToPolicies (iPolicyList : List (Policy κ ℝ)) (iCurrentDCP : DTD)
    (iMean iStdDev : ℝ) (iBCSellUpCurveMap : List (κ × Curve ℝ)) : Except ForecasterFault (List (Policy κ ℝ)) :=
  iPolicyList.mapM fun lPolicy =>
    dispatchDemandForecastToPolicy api yield disutilityCurve lPolicy iCurrentDCP iMean iStdDev iBCSellUpCurveMap

noncomputable def forecastInterval (estimate : DTD → DTD → Except ForecasterFault (ℝ × ℝ))
    (lBCSellUpCurveMap : List (κ × Curve ℝ)) (iCurrentDTD : DTD) (run : FamilyForecast ℝ × List (Policy κ ℝ))
    (interval : DTD × DTD) : Except ForecasterFault (FamilyForecast ℝ × List (Policy κ ℝ)) :=
  let lCurrentDCP := interval.1
  let lNextDCP := interval.2
  if lNextDCP < iCurrentDTD then do
    let (lMean, lStdDev) ← estimate lCurrentDCP lNextDCP
    let lPolicyList ← dispatchDemandForecastToPolicies api yield disutilityCurve run.2 lCurrentDCP lMean lStdDev
      lBCSellUpCurveMap
    return (⟨run.1.mean + lMean, √(run.1.stdDev * run.1.stdDev + lStdDev * lStdDev)⟩, lPolicyList)
  else return run

end dispatching

/-- `estimate` is the forecast of an interval, from the sell-up curves of the cabin. -/
noncomputable def forecast (api : PolicyApi κ) (cabin : ForecastCabin κ)
    (estimate : List (κ × Curve ℝ) → DTD → DTD → Except ForecasterFault (ℝ × ℝ)) (lWholeDCPList : List DTD)
    (iCurrentDTD : DTD) (st : CabinState κ) : Except ForecasterFault (CabinState κ) :=
  match cabin.fareFamilies.getLast? with
  | none => .error (.command .noFareFamily)
  | some lFF => do
    let yield := fun lBC => (st.forecasts.classes lBC).yield
    let lBCSellUpCurveMap ← (computeSellUpFactorCurves yield lFF.frat5Curve cabin.bookingClasses).mapError .command
    let lPolicyList := st.policies.map api.resetDemandForecast
    let idx := cabin.fareFamilies.length - 1
    let run ← (intervals lWholeDCPList).foldlM (forecastInterval api yield cabin.disutilityCurve
      (estimate lBCSellUpCurveMap) lBCSellUpCurveMap iCurrentDTD) (st.forecasts.families idx, lPolicyList)
    return ⟨⟨st.forecasts.classes, Function.update st.forecasts.families idx run.1⟩, run.2⟩

end OldQFF

/-! ## The yield-demand map -/

/-- The entry of a yield gets the demand; a yield without an entry gets one. -/
def addToEntry {α : Type*} [Add α] [DecidableEq α] (iYield iDemand : α) : List (α × α) → List (α × α)
  | [] => [(iYield, iDemand)]
  | entry :: map =>
    if entry.1 = iYield then (entry.1, entry.2 + iDemand) :: map else entry :: addToEntry iYield iDemand map

theorem sum_addToEntry {α : Type*} [AddCommMonoid α] [DecidableEq α] (iYield iDemand : α) : ∀ map : List (α × α),
    ((addToEntry iYield iDemand map).map Prod.snd).sum = (map.map Prod.snd).sum + iDemand
  | [] => by simp [addToEntry]
  | entry :: map => by
    unfold addToEntry
    split
    · simp only [List.map_cons, List.sum_cons]
      exact add_right_comm _ _ _
    · simp only [List.map_cons, List.sum_cons, sum_addToEntry iYield iDemand map]
      exact (add_assoc _ _ _).symm

/-- What StdAir's policies do: the reset clears the map, and demand is added to the entry of its yield. -/
structure AddsToEntry (api : PolicyApi κ) : Prop where
  reset_yieldDemandMap : ∀ p, (api.resetDemandForecast p).yieldDemandMap = []
  addYieldDemand_yieldDemandMap : ∀ p y d, (api.addYieldDemand p y d).yieldDemandMap = addToEntry y d p.yieldDemandMap
  addYieldDemand_demand : ∀ p y d, (api.addYieldDemand p y d).demand = p.demand

/-- A policy that keeps its map so. -/
noncomputable def mapPolicyApi (κ : Type) : PolicyApi κ where
  resetDemandForecast := fun p => .withoutDemand p.bookingClasses
  addYieldDemand := fun p y d => { p with yieldDemandMap := addToEntry y d p.yieldDemandMap }
  getTotalRevenue := fun p => (p.yieldDemandMap.map fun entry => entry.1 * entry.2).sum
  reset_bookingClasses := fun _ => rfl
  reset_demand := fun _ => rfl
  reset_stdDev := fun _ => rfl
  addYieldDemand_bookingClasses := fun _ _ _ => rfl

omit [DecidableEq κ] in
theorem mapPolicyApi_addsToEntry : AddsToEntry (mapPolicyApi κ) :=
  ⟨fun _ => rfl, fun _ _ _ => rfl, fun _ _ _ => rfl⟩

/-- The demand of the policy is the sum of its map. -/
def Policy.DemandIsSum (p : Policy κ ℝ) : Prop := p.demand = (p.yieldDemandMap.map Prod.snd).sum

section sums
variable {api : PolicyApi κ} (hapi : AddsToEntry api) {yield : κ → ℝ} {disutilityCurve : κ → Curve ℝ}
  {estimate : DTD → DTD → Except ForecasterFault (ℝ × ℝ)} {iBCSellUpCurveMap : List (κ × Curve ℝ)}
include hapi

omit [DecidableEq κ] in
theorem reset_demandIsSum (p : Policy κ ℝ) : (api.resetDemandForecast p).DemandIsSum := by
  rw [Policy.DemandIsSum, api.reset_demand, hapi.reset_yieldDemandMap, List.map_nil, List.sum_nil]

omit [DecidableEq κ] in
theorem sum_addYieldDemand (p : Policy κ ℝ) (y d : ℝ) :
    ((api.addYieldDemand p y d).yieldDemandMap.map Prod.snd).sum = (p.yieldDemandMap.map Prod.snd).sum + d := by
  rw [hapi.addYieldDemand_yieldDemandMap, sum_addToEntry]

/-- What one class hands on to the next leaves the sum as it is. -/
theorem transferLoop_demandIsSum {iCurrentDCP : DTD} {iMean lSUToLowestClass : ℝ} :
    ∀ (lHigherBCs : List κ) (lCurrentBC : κ) (p p' : Policy κ ℝ), p.DemandIsSum →
      OldQFF.transferLoop api yield disutilityCurve iCurrentDCP iMean iBCSellUpCurveMap lSUToLowestClass lCurrentBC
        lHigherBCs p = .ok p' → p'.DemandIsSum
  | [], _, p, p', hp, h => by
    obtain rfl := Except.ok.inj h
    exact hp
  | lNextBC :: lHigherBCs, lCurrentBC, p, p', hp, h => by
    rw [OldQFF.transferLoop] at h
    split at h
    · cases h
    · split at h
      · cases h
      · split at h
        · refine transferLoop_demandIsSum lHigherBCs lNextBC _ p' ?_ h
          rw [Policy.DemandIsSum] at hp ⊢
          rw [hapi.addYieldDemand_demand, hapi.addYieldDemand_demand, sum_addYieldDemand hapi,
            sum_addYieldDemand hapi, hp]
          ring
        · cases h

/-- **One interval, one policy.** -/
theorem oldQFF_dispatch_demandIsSum {iCurrentDCP : DTD} {iMean iStdDev : ℝ} {p p' : Policy κ ℝ} (hp : p.DemandIsSum)
    (h : OldQFF.dispatchDemandForecastToPolicy api yield disutilityCurve p iCurrentDCP iMean iStdDev
      iBCSellUpCurveMap = .ok p') : p'.DemandIsSum := by
  unfold OldQFF.dispatchDemandForecastToPolicy at h
  split at h
  · obtain rfl := Except.ok.inj h
    exact hp
  · split at h
    · cases h
    · refine transferLoop_demandIsSum hapi _ _ _ _ ?_ h
      rw [Policy.DemandIsSum] at hp ⊢
      rw [hapi.addYieldDemand_demand, sum_addYieldDemand hapi, hp]

theorem oldQFF_forecastInterval_demandIsSum {iCurrentDTD : DTD} {run run' : FamilyForecast ℝ × List (Policy κ ℝ)}
    {interval : DTD × DTD} (hrun : ∀ p ∈ run.2, p.DemandIsSum)
    (h : OldQFF.forecastInterval api yield disutilityCurve estimate iBCSellUpCurveMap iCurrentDTD run interval =
      .ok run') : ∀ p ∈ run'.2, p.DemandIsSum := by
  unfold OldQFF.forecastInterval at h
  simp only at h
  split at h
  · obtain ⟨⟨lMean, lStdDev⟩, -, h⟩ := bind_eq_ok.1 h
    obtain ⟨policies, hpolicies, h⟩ := bind_eq_ok.1 h
    obtain rfl := Except.ok.inj h
    intro p' hp'
    obtain ⟨p, hp, hdispatch⟩ := mem_of_mapM_ok hpolicies hp'
    exact oldQFF_dispatch_demandIsSum hapi (hrun p hp) hdispatch
  · obtain rfl := Except.ok.inj h
    exact hrun

theorem oldQFF_demandIsSum {cabin : ForecastCabin κ}
    {estimate : List (κ × Curve ℝ) → DTD → DTD → Except ForecasterFault (ℝ × ℝ)} {lWholeDCPList : List DTD}
    {iCurrentDTD : DTD} {st out : CabinState κ}
    (h : OldQFF.forecast api cabin estimate lWholeDCPList iCurrentDTD st = .ok out) :
    ∀ p ∈ out.policies, p.DemandIsSum := by
  unfold OldQFF.forecast at h
  split at h
  · cases h
  · obtain ⟨su, -, h⟩ := bind_eq_ok.1 h
    obtain ⟨run, hrun, h⟩ := bind_eq_ok.1 h
    obtain rfl := Except.ok.inj h
    refine foldlM_inv (fun run => ∀ p ∈ run.2, Policy.DemandIsSum p)
      (fun _ _ _ _ hc hstep => oldQFF_forecastInterval_demandIsSum hapi hc hstep) ?_ hrun
    intro p' hp'
    obtain ⟨p, -, rfl⟩ := List.mem_map.1 hp'
    exact reset_demandIsSum hapi p

omit [DecidableEq κ] in
theorem newQFF_demandIsSum (classes : ClassStore κ ℝ) (p : Policy κ ℝ) :
    (NewQFF.dispatchDemandForecastToPolicy classes api p).DemandIsSum := by
  have hmap : ∀ (l : List κ) (q : Policy κ ℝ), ((l.foldl (fun p c =>
      api.addYieldDemand p (classes c).yield (classes c).cumuPriceDemMean) q).yieldDemandMap.map Prod.snd).sum =
        NewQFF.newPolicyDemand classes l (q.yieldDemandMap.map Prod.snd).sum := by
    intro l
    induction l with
    | nil => intro q; rfl
    | cons c l ih =>
      intro q
      rw [List.foldl_cons, ih, sum_addYieldDemand hapi]
      rfl
  unfold NewQFF.dispatchDemandForecastToPolicy
  simp only
  split
  · exact reset_demandIsSum hapi p
  · have hreset : (api.resetDemandForecast p).demand = ((api.resetDemandForecast p).yieldDemandMap.map Prod.snd).sum :=
      reset_demandIsSum hapi p
    rw [Policy.DemandIsSum, hmap, ← hreset]

end sums

/-! ### A policy of two classes, one interval -/

def emptySnapshots : Snapshots ℕ := ⟨⟨3, id, fun _ _ => 0, fun _ _ => 0, fun _ _ => 1⟩, [], 0⟩

def twoClassForecastCabin : ForecastCabin ℕ where
  bookingClasses := [1, 2]
  fareFamilies := [⟨[1, 2], fun _ => some (2 : ℕ)⟩]
  disutilityCurve := fun _ _ => some 1
  fareFamilyStatus := true
  boardingDate := 2
  snapshots := emptySnapshots

/-- A policy that opens both classes. -/
noncomputable def twoClassState : CabinState ℕ := ⟨twoClassForecasts, [.withoutDemand [1, 2]]⟩

end Rmol
