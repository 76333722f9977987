import Rmol.LegBasedOptimisation
import Rmol.Lib.Lockstep
import Rmol.MrtRuns
/-!
# RM events on a flight-date (`RMOL_Service.cpp:629-679`, `PreOptimiser.cpp`, `Optimiser.cpp:84-125`)

| here | there |
| --- | --- |
| `forecastFlightDate`     | `Forecaster::forecast` of a flight-date (`Forecaster.cpp:34`) |
| `adjustYield`            | `FareAdjustment.cpp:22` |
| `preOptimiseSegmentCabin`, `preOptimise` | `PreOptimiser.cpp:62`, `:29` |
| `optimiseLegs`           | `optimise` of a flight-date and of its leg-dates (`Optimiser.cpp:84`, `:106`) |
| `optimiseFlightDate`     | the branch without partnership of `RMOL_Service::optimise` (`:645-680`) |

A forecast resets the demand of all classes, the preparation of the demand overwrites their means and deviations, and
the virtual classes are built anew. So without yield adjustment an event for which every cabin can be forecast forgets
all earlier ones (`optimiseFlightDate_forgets`): two runs of it from what different events have left go in lockstep.
-/

namespace Rmol

open Lockstep

variable {S L κ : Type}

/-! ## The model -/

/-- A segment-cabin; its classes are those of its fare families. -/
structure EventCabin (κ : Type) where
  forecastCabin : ForecastCabin κ
  nodup : (forecastCabin.fareFamilies.flatMap FareFamily.bookingClasses).Nodup
  union : forecastCabin.bookingClasses.Perm (forecastCabin.fareFamilies.flatMap FareFamily.bookingClasses)

def EventCabin.segmentCabin (cabin : EventCabin κ) : SegmentCabin κ ℝ where
  bookingClasses := cabin.forecastCabin.bookingClasses
  fareFamilies := cabin.forecastCabin.fareFamilies
  nodup := cabin.nodup
  union := cabin.union

/-- The segment-cabins and the leg-cabins of a flight-date, segment-date by segment-date and leg-date by leg-date. -/
structure LegFlightDate (S L κ : Type) where
  segmentCabins : List S
  legCabins : List L
  cabin : S → EventCabin κ
  segmentCabinsOf : L → List S

structure FlightDateState (S L κ : Type) where
  cabins : S → CabinState κ
  /-- The yield-based nesting structures. -/
  nodes : S → List (NestingNode κ)
  legCabins : L → LegPlan κ

inductive PreOptimisationMethod where
  | none
  | FA
  | MRT
  /-- Any other value of the enumeration. -/
  | other
deriving DecidableEq, Repr

/-- A RM event, with the snapshots that the segment-cabins have then. -/
structure RMEvent (S κ : Type) where
  date : Date
  snapshots : S → Snapshots κ
  iUnconstrainingMethod : UnconstrainingMethod
  iForecastingMethod : ForecastingMethod
  iPreOptimisationMethod : PreOptimisationMethod
  iOptimisationMethod : OptimisationMethod

structure EventEnv (L κ : Type) where
  forecaster : ForecastEnv κ
  DEFAULT_YIELD_VALUE : ℝ
  getTotalRevenue : Policy κ ℝ → ℝ
  resetYieldBasedNestingStructure : List (NestingNode κ) → List (NestingNode κ)
  leg : L → LegEnv κ

inductive EventFault where
  | forecast (fault : ForecasterFault)
  /-- `*itPolicy` where the segment-cabin has no policy (`MarginalRevenueTransformation.cpp:110`): undefined. -/
  | noPolicy
  | transformation (fault : MrtFault)
  /-- `assert (false)` of the switch on the method (`PreOptimiser.cpp:83`). -/
  | preOptimisationMethod
  | leg (fault : LegFault)

section model
variable [DecidableEq S] [DecidableEq L] [DecidableEq κ] (env : EventEnv L κ) (flight : LegFlightDate S L κ)
  (event : RMEvent S κ)

/-- The segment-cabin at an event. -/
def LegFlightDate.cabinAt (s : S) : ForecastCabin κ :=
  { (flight.cabin s).forecastCabin with snapshots := event.snapshots s }

noncomputable def forecastFlightDate (st : FlightDateState S L κ) : Except EventFault (Bool × FlightDateState S L κ) :=
  flight.segmentCabins.foldlM (fun run s => do
    let (isForecasted, cabinState) ← (Forecaster.forecast env.forecaster (flight.cabinAt event s) event.date
      event.iUnconstrainingMethod event.iForecastingMethod (run.2.cabins s)).mapError .forecast
    return (run.1 && isForecasted, { run.2 with cabins := Function.update run.2.cabins s cabinState })) (true, st)

/-- `FareAdjustment::adjustYield`. -/
def adjustYield : Bool := false

/-- The classes of a segment-cabin after a command. -/
def FlightDateState.withClasses (st : FlightDateState S L κ) (s : S) (classes : ClassStore κ ℝ) :
    FlightDateState S L κ :=
  { st with
    cabins := Function.update st.cabins s
      { st.cabins s with forecasts := { (st.cabins s).forecasts with classes } } }

def FlightDateState.classes (st : FlightDateState S L κ) (s : S) : ClassStore κ ℝ := (st.cabins s).forecasts.classes

noncomputable def preOptimiseSegmentCabin (s : S) (st : FlightDateState S L κ) :
    Except EventFault (Bool × FlightDateState S L κ) :=
  match event.iPreOptimisationMethod with
  | .none => .ok (true,
      st.withClasses s (prepareDemandInput (flight.cabin s).forecastCabin.bookingClasses (st.classes s)))
  | .FA => .ok (adjustYield, st)
  | .MRT =>
    if (flight.cabin s).forecastCabin.fareFamilyStatus = false then .ok (adjustYield, st)
    else
      match buildNestedConvexHull env.getTotalRevenue (flight.cabin s).segmentCabin (st.cabins s).policies with
      | none => .error .noPolicy
      | some lConvexHull => do
        let out ← (adjustYieldAndDemand env.DEFAULT_YIELD_VALUE env.getTotalRevenue (flight.cabin s).segmentCabin
          env.resetYieldBasedNestingStructure lConvexHull (st.nodes s) (st.classes s)).mapError .transformation
        return (out.isSucceeded,
          { st.withClasses s out.classes with nodes := Function.update st.nodes s out.nodes })
  | .other => .error .preOptimisationMethod

noncomputable def preOptimise (st : FlightDateState S L κ) : Except EventFault (Bool × FlightDateState S L κ) :=
  flight.segmentCabins.foldlM (fun run s => do
    let (isPreOptimised, st) ← preOptimiseSegmentCabin env flight event s run.2
    return (run.1 && isPreOptimised, st)) (true, st)

/-- A leg-cabin reads the classes of its first segment-cabin. -/
noncomputable def optimiseLeg (leg : L) (st : FlightDateState S L κ) : Except LegFault (Bool × LegPlan κ) :=
  let lSegmentCabinList := flight.segmentCabinsOf leg
  match lSegmentCabinList with
  | [] => .error (.optimiser .noSegmentCabin)
  | s :: _ => optimiseLegCabinByMethod (env.leg leg) event.iOptimisationMethod (st.classes s)
      (lSegmentCabinList.map fun s => (flight.cabin s).forecastCabin.bookingClasses) (st.legCabins leg)

/-- "If at least one leg cabin is optimised, the optimisation is succeeded." -/
noncomputable def optimiseLegs (st : FlightDateState S L κ) : Except EventFault (Bool × FlightDateState S L κ) :=
  flight.legCabins.foldlM (fun run leg => do
    let (isSucceeded, lLegPlan) ← (optimiseLeg env flight event leg run.2).mapError .leg
    return (run.1 || isSucceeded, { run.2 with legCabins := Function.update run.2.legCabins leg lLegPlan })) (false, st)

noncomputable def optimiseFlightDate (st : FlightDateState S L κ) : Except EventFault (Bool × FlightDateState S L κ) := do
  let (isForecasted, st) ← forecastFlightDate env flight event st
  if isForecasted then
    let (isPreOptimised, st) ← preOptimise env flight event st
    if isPreOptimised then optimiseLegs env flight event st
    else return (false, st)
  else return (false, st)

/-- Events one after another. -/
noncomputable def optimiseEvents (events : List (RMEvent S κ)) (st : FlightDateState S L κ) :
    Except EventFault (FlightDateState S L κ) :=
  events.foldlM (fun st event => (optimiseFlightDate env flight event st).map Prod.snd) st

end model

/-! ## What events leave alone -/

/-- Two states that differ at most in what events without a transformation write. -/
structure SameButDemand (flight : LegFlightDate S L κ) (st st' : FlightDateState S L κ) : Prop where
  inputs : ∀ s, SameInputs (flight.cabin s).forecastCabin (st.cabins s) (st'.cabins s)
  otherCabins : ∀ s, s ∉ flight.segmentCabins → st'.cabins s = st.cabins s
  otherLegs : ∀ leg, leg ∉ flight.legCabins → st'.legCabins leg = st.legCabins leg

section frame
variable {flight : LegFlightDate S L κ} {st st' st'' : FlightDateState S L κ}

theorem SameButDemand.refl (flight : LegFlightDate S L κ) (st : FlightDateState S L κ) : SameButDemand flight st st :=
  ⟨fun _ => .refl _ _, fun _ _ => rfl, fun _ _ => rfl⟩

theorem SameButDemand.symm (h : SameButDemand flight st st') : SameButDemand flight st' st :=
  ⟨fun s => (h.inputs s).symm, fun s hs => (h.otherCabins s hs).symm, fun leg hleg => (h.otherLegs leg hleg).symm⟩

theorem SameButDemand.trans (h : SameButDemand flight st st') (h' : SameButDemand flight st' st'') :
    SameButDemand flight st st'' where
  inputs s := (h.inputs s).trans (h'.inputs s)
  otherCabins s hs := (h'.otherCabins s hs).trans (h.otherCabins s hs)
  otherLegs leg hleg := (h'.otherLegs leg hleg).trans (h.otherLegs leg hleg)

/-- The relation does not read the snapshots. -/
theorem sameInputs_cabinAt {event : RMEvent S κ} {s : S} {cabin cabin' : CabinState κ} :
    SameInputs (flight.cabinAt event s) cabin cabin' ↔ SameInputs (flight.cabin s).forecastCabin cabin cabin' :=
  ⟨fun h => ⟨h.classes, h.otherFamilies, h.policies⟩, fun h => ⟨h.classes, h.otherFamilies, h.policies⟩⟩

variable [DecidableEq S]

/-- A command on one segment-cabin of the flight-date. -/
theorem SameButDemand.update {s : S} (hs : s ∈ flight.segmentCabins) {cabin : CabinState κ}
    (h : SameInputs (flight.cabin s).forecastCabin (st.cabins s) cabin) :
    SameButDemand flight st { st with cabins := Function.update st.cabins s cabin } where
  inputs t := by
    show SameInputs _ (st.cabins t) (Function.update st.cabins s cabin t)
    by_cases ht : t = s
    · subst ht
      rwa [Function.update_self]
    · rw [Function.update_of_ne ht]
      exact .refl _ _
  otherCabins t ht := Function.update_of_ne (by rintro rfl; exact ht hs) _ _
  otherLegs _ _ := rfl

variable [DecidableEq κ] {env : EventEnv L κ} {event : RMEvent S κ}

omit [DecidableEq S] in
theorem prepareDemandInput_frame (cabin : ForecastCabin κ) (classes : ClassStore κ ℝ) :
    ClassFrame cabin.Has classes (prepareDemandInput cabin.bookingClasses classes) where
  attributes c := by
    rw [prepareDemandInput_apply]
    split <;> rfl
  other c hc := by
    rw [prepareDemandInput_apply, if_neg fun hin => hc (.inl hin)]

theorem forecastFlightDate_frame {result : Bool × FlightDateState S L κ}
    (h : forecastFlightDate env flight event st = .ok result) : SameButDemand flight st result.2 := by
  refine foldlM_inv (fun run => SameButDemand flight st run.2) (fun s hs run run' hrun hstep => ?_) (.refl flight st) h
  obtain ⟨⟨isForecasted, cabin⟩, hforecast, hstep⟩ := bind_eq_ok.1 hstep
  obtain rfl := Except.ok.inj hstep
  exact hrun.trans (.update hs (sameInputs_cabinAt.1 (forecast_sameInputs (mapError_eq_ok hforecast))))

theorem preOptimise_frame (hmethod : event.iPreOptimisationMethod ≠ .MRT) {result : Bool × FlightDateState S L κ}
    (h : preOptimise env flight event st = .ok result) : SameButDemand flight st result.2 := by
  refine foldlM_inv (fun run => SameButDemand flight st run.2) (fun s hs run run' hrun hstep => ?_) (.refl flight st) h
  obtain ⟨⟨isPreOptimised, st'⟩, hcabin, hstep⟩ := bind_eq_ok.1 hstep
  obtain rfl := Except.ok.inj hstep
  unfold preOptimiseSegmentCabin at hcabin
  split at hcabin
  · obtain rfl := (Prod.mk.inj (Except.ok.inj hcabin)).2
    exact hrun.trans (.update hs ⟨prepareDemandInput_frame _ _, fun _ _ => rfl, rfl⟩)
  · obtain rfl := (Prod.mk.inj (Except.ok.inj hcabin)).2
    exact hrun
  · exact absurd ‹_› hmethod
  · cases hcabin

variable [DecidableEq L]

omit [DecidableEq S] [DecidableEq κ] in
theorem optimiseLegs_frame {result : Bool × FlightDateState S L κ} (h : optimiseLegs env flight event st = .ok result) :
    result.2.cabins = st.cabins ∧ ∀ leg, leg ∉ flight.legCabins → result.2.legCabins leg = st.legCabins leg := by
  refine foldlM_inv (fun run => run.2.cabins = st.cabins ∧
    ∀ leg, leg ∉ flight.legCabins → run.2.legCabins leg = st.legCabins leg) (fun leg hleg run run' hrun hstep => ?_)
    ⟨rfl, fun _ _ => rfl⟩ h
  obtain ⟨⟨isSucceeded, lLegPlan⟩, -, hstep⟩ := bind_eq_ok.1 hstep
  obtain rfl := Except.ok.inj hstep
  refine ⟨hrun.1, fun other hother => ?_⟩
  exact (Function.update_of_ne (by rintro rfl; exact hother hleg) _ _).trans (hrun.2 other hother)

/-- **An event without a transformation** changes nothing but demand and leg-cabins of the flight-date. -/
theorem optimiseFlightDate_frame (hmethod : event.iPreOptimisationMethod ≠ .MRT) {result : Bool × FlightDateState S L κ}
    (h : optimiseFlightDate env flight event st = .ok result) : SameButDemand flight st result.2 := by
  obtain ⟨⟨isForecasted, st₁⟩, hforecast, h⟩ := bind_eq_ok.1 h
  have hst₁ := forecastFlightDate_frame hforecast
  cases isForecasted with
  | false =>
    obtain rfl := Except.ok.inj h
    exact hst₁
  | true =>
    obtain ⟨⟨isPreOptimised, st₂⟩, hpre, h⟩ := bind_eq_ok.1 h
    have hst₂ := hst₁.trans (preOptimise_frame hmethod hpre)
    cases isPreOptimised with
    | false =>
      obtain rfl := Except.ok.inj h
      exact hst₂
    | true =>
      obtain ⟨hcabins, hlegs⟩ := optimiseLegs_frame h
      refine hst₂.trans ⟨fun s => ?_, fun s _ => congrFun hcabins s, hlegs⟩
      rw [hcabins]
      exact .refl _ _

theorem optimiseEvents_frame {events : List (RMEvent S κ)} (hmethod : ∀ event ∈ events, event.iPreOptimisationMethod ≠ .MRT)
    (h : optimiseEvents env flight events st = .ok st') : SameButDemand flight st st' := by
  refine foldlM_inv (SameButDemand flight st) (fun event hevent st₁ st₂ hst hstep => hst.trans ?_) (.refl flight st) h
  cases hrun : optimiseFlightDate env flight event st₁ with
  | error e =>
    rw [hrun] at hstep
    cases hstep
  | ok result =>
    rw [hrun] at hstep
    obtain rfl := Except.ok.inj hstep
    exact optimiseFlightDate_frame (hmethod event hevent) hrun

end frame

/-! ## What an event succeeds in -/

section flags
variable [DecidableEq κ] {env : EventEnv L κ} {flight : LegFlightDate S L κ} {event : RMEvent S κ}
  {st : FlightDateState S L κ}

/-- All segment-cabins can be forecast at the event. -/
def Departed (env : EventEnv L κ) (flight : LegFlightDate S L κ) (event : RMEvent S κ) : Prop :=
  ∀ s ∈ flight.segmentCabins,
    2 ≤ getNbOfDepartedSimilarSegments env.forecaster.toDTD (event.snapshots s).boardingDates event.date

/-- A forecast succeeds or stops, if there are two departed segments. -/
theorem forecast_isForecasted {env : ForecastEnv κ} {cabin : ForecastCabin κ} {iEventDate : Date}
    {iUnconstrainingMethod : UnconstrainingMethod} {iForecastingMethod : ForecastingMethod} {st : CabinState κ}
    {result : Bool × CabinState κ}
    (h : Forecaster.forecast env cabin iEventDate iUnconstrainingMethod iForecastingMethod st = .ok result) :
    result.1 = true ↔ 2 ≤ getNbOfDepartedSimilarSegments env.toDTD cabin.snapshots.boardingDates iEventDate := by
  have htrue : ∀ {α : Type} {x : Except ForecasterFault α} {g : α → CabinState κ},
      (x >>= fun a => return (true, g a)) = Except.ok result → result.1 = true := by
    intro α x g hx
    obtain ⟨a, -, ha⟩ := bind_eq_ok.1 hx
    obtain rfl := Except.ok.inj ha
    rfl
  unfold Forecaster.forecast at h
  by_cases hfew : getNbOfDepartedSimilarSegments env.toDTD cabin.snapshots.boardingDates iEventDate < 2
  · simp only [if_pos hfew] at h
    obtain rfl := Except.ok.inj h
    exact iff_of_false Bool.false_ne_true (not_le.2 hfew)
  · simp only [if_neg hfew] at h
    refine iff_of_true ?_ (not_lt.1 hfew)
    cases iForecastingMethod with
    | qForecasting | hybridForecasting | basedForecasting => exact htrue h
    | newQFF | oldQFF =>
      simp only at h
      split at h <;> exact htrue h
    | other => cases h

variable [DecidableEq S]

theorem forecastFlightDate_isForecasted {result : Bool × FlightDateState S L κ}
    (h : forecastFlightDate env flight event st = .ok result) : result.1 = true ↔ Departed env flight event := by
  refine (foldlM_forall (fun _ => True) (·.1 = true) (fun s => 2 ≤ getNbOfDepartedSimilarSegments env.forecaster.toDTD
    (event.snapshots s).boardingDates event.date) (fun s run run' _ hstep => ?_) trivial h).trans (and_iff_right rfl)
  obtain ⟨⟨isForecasted, cabinState⟩, hforecast, hstep⟩ := bind_eq_ok.1 hstep
  obtain rfl := Except.ok.inj hstep
  have hflag := forecast_isForecasted (mapError_eq_ok hforecast)
  rw [Bool.and_eq_true]
  exact ⟨trivial, and_congr_right fun _ => hflag⟩

theorem preOptimise_isPreOptimised (hmethod : event.iPreOptimisationMethod = .none) {result : Bool × FlightDateState S L κ}
    (h : preOptimise env flight event st = .ok result) : result.1 = true := by
  refine foldlM_inv (fun run => run.1 = true) (fun s _ run run' hrun hstep => ?_) rfl h
  simp only [preOptimiseSegmentCabin, hmethod, ok_bind] at hstep
  obtain rfl := Except.ok.inj hstep
  simp only [hrun, Bool.and_true]

end flags

/-! ## Two runs of an event -/

/-- What an event returns and leaves, apart from the policies, the nodes and the bid prices. -/
def planOf (result : Bool × FlightDateState S L κ) : Bool × (S → Forecasts κ ℝ) × (L → List (LegClass κ)) :=
  (result.1, fun s => (result.2.cabins s).forecasts, fun leg => (result.2.legCabins leg).virtualClassList)

section lockstep
variable [DecidableEq S] [DecidableEq κ] {env : EventEnv L κ} {flight : LegFlightDate S L κ} {event : RMEvent S κ}
  {st st' : FlightDateState S L κ}

/-- Equal results of a command on the segment-cabins, as far as leg-cabins read them. -/
structure SameForecasts (flight : LegFlightDate S L κ) (r r' : Bool × FlightDateState S L κ) : Prop where
  flag : r.1 = r'.1
  forecasts : ∀ s, (r.2.cabins s).forecasts = (r'.2.cabins s).forecasts
  otherLegs : ∀ leg, leg ∉ flight.legCabins → r'.2.legCabins leg = r.2.legCabins leg

/-- Half-way through the loop: what is still to come differs by inputs only. -/
structure HalfForecast (flight : LegFlightDate S L κ) (rest : List S) (r r' : Bool × FlightDateState S L κ) : Prop where
  sub : ∀ s ∈ rest, s ∈ flight.segmentCabins
  flag : r.1 = r'.1
  same : SameButDemand flight r.2 r'.2
  forecasts : ∀ s, s ∉ rest → (r.2.cabins s).forecasts = (r'.2.cabins s).forecasts

theorem forecastFlightDate_lockstep (hmap : ∀ p, (env.forecaster.api.resetDemandForecast p).yieldDemandMap = [])
    (hdeparted : Departed env flight event) (h : SameButDemand flight st st') :
    InStep (SameForecasts flight) (forecastFlightDate env flight event st) (forecastFlightDate env flight event st') := by
  have hstart : HalfForecast flight flight.segmentCabins (true, st) (true, st') :=
    ⟨fun _ hs => hs, rfl, h, fun s hs => by rw [h.otherCabins s hs]⟩
  refine (InStep.foldlM (HalfForecast flight) (fun s rest r r' hr => ?_) hstart).mono fun r r' hr =>
    ⟨hr.flag, fun s => hr.forecasts s List.not_mem_nil, hr.same.otherLegs⟩
  have hs := hr.sub s List.mem_cons_self
  have hcover : ∀ c ∈ (flight.cabinAt event s).bookingClasses,
      c ∈ (flight.cabinAt event s).fareFamilies.flatMap FareFamily.bookingClasses :=
    fun c hc => (flight.cabin s).union.subset hc
  have hequal := (forecast_eq_of_sameInputs hmap hcover (hdeparted s hs) event.iUnconstrainingMethod
    event.iForecastingMethod (sameInputs_cabinAt.2 (hr.same.inputs s))).1
  have hstep := ((InStep.of_map_eq hequal.symm).also (fun _ => forecast_sameInputs) fun _ => forecast_sameInputs).mapError
    (e := EventFault.forecast)
  refine hstep.bind fun b b' hb => .ok ?_
  obtain ⟨hforecasts, hkeep, hkeep'⟩ := hb
  obtain ⟨hflag, hforecasts⟩ := Prod.mk.inj hforecasts
  refine ⟨fun t ht => hr.sub t (List.mem_cons_of_mem _ ht), ?_, ?_, fun t ht => ?_⟩
  · simp only [hr.flag, hflag]
  · have hleft := SameButDemand.update hs (sameInputs_cabinAt.1 hkeep)
    have hright := SameButDemand.update hs (sameInputs_cabinAt.1 hkeep')
    exact hleft.symm.trans (hr.same.trans hright)
  · show (Function.update r.2.cabins s b.2 t).forecasts = (Function.update r'.2.cabins s b'.2 t).forecasts
    by_cases hts : t = s
    · subst hts
      rw [Function.update_self, Function.update_self, hforecasts]
    · rw [Function.update_of_ne hts, Function.update_of_ne hts]
      exact hr.forecasts t (by simp [hts, ht])

omit [DecidableEq S] [DecidableEq κ] in
theorem SameForecasts.classes {r r' : Bool × FlightDateState S L κ} (h : SameForecasts flight r r') (s : S) :
    r.2.classes s = r'.2.classes s :=
  congrArg Forecasts.classes (h.forecasts s)

theorem preOptimise_lockstep (hmethod : event.iPreOptimisationMethod = .none) {r r' : Bool × FlightDateState S L κ}
    (h : SameForecasts flight r r') :
    InStep (SameForecasts flight) (preOptimise env flight event r.2) (preOptimise env flight event r'.2) := by
  have hstart : SameForecasts flight (true, r.2) (true, r'.2) := ⟨rfl, h.forecasts, h.otherLegs⟩
  refine InStep.foldlM (fun _ => SameForecasts flight) (fun s _ r r' hr => ?_) hstart
  simp only [preOptimiseSegmentCabin, hmethod, ok_bind]
  refine .ok ⟨by simp only [hr.flag], fun t => ?_, hr.otherLegs⟩
  simp only [FlightDateState.withClasses, hr.classes s]
  by_cases hts : t = s
  · subst hts
    rw [Function.update_self, Function.update_self, hr.forecasts t]
  · rw [Function.update_of_ne hts, Function.update_of_ne hts]
    exact hr.forecasts t

/-- What a leg-cabin holds decides neither the result nor its new virtual classes. -/
def SamePlan (b b' : Bool × LegPlan κ) : Prop := b.1 = b'.1 ∧ b.2.virtualClassList = b'.2.virtualClassList

omit [DecidableEq κ] in
theorem optimiseLegCabinByMethod_lockstep {env : LegEnv κ} {iOptimisationMethod : OptimisationMethod}
    {classes : ClassStore κ ℝ} {lSegmentCabinList : List (List κ)} (ioLegCabin ioLegCabin' : LegPlan κ) :
    InStep SamePlan (optimiseLegCabinByMethod env iOptimisationMethod classes lSegmentCabinList ioLegCabin)
      (optimiseLegCabinByMethod env iOptimisationMethod classes lSegmentCabinList ioLegCabin') := by
  refine InStep.bind (InStep.self (R := Eq) fun _ => rfl) ?_
  rintro built _ rfl
  by_cases hbuilt : built.2 = true
  · simp only [hbuilt, if_true]
    cases iOptimisationMethod with
    | legBasedMC => exact InStep.self fun _ => ⟨rfl, rfl⟩
    | legBasedEmsrB =>
      refine InStep.bind (InStep.self (R := Eq) fun _ => rfl) ?_
      rintro lLegClassList _ rfl
      exact .ok ⟨rfl, rfl⟩
    | other => exact .fault _
  · simp only [hbuilt]
    exact .ok ⟨rfl, rfl⟩

variable [DecidableEq L]

/-- Half-way through the leg-cabins: those still to come may hold anything. -/
structure HalfPlanned (rest : List L) (r r' : Bool × FlightDateState S L κ) : Prop where
  flag : r.1 = r'.1
  forecasts : ∀ s, (r.2.cabins s).forecasts = (r'.2.cabins s).forecasts
  plans : ∀ leg, leg ∉ rest → (r.2.legCabins leg).virtualClassList = (r'.2.legCabins leg).virtualClassList

omit [DecidableEq S] [DecidableEq κ] in
theorem optimiseLegs_lockstep {r r' : Bool × FlightDateState S L κ} (h : SameForecasts flight r r') :
    InStep (fun r r' => planOf r = planOf r') (optimiseLegs env flight event r.2) (optimiseLegs env flight event r'.2) := by
  have hstart : HalfPlanned flight.legCabins (false, r.2) (false, r'.2) :=
    ⟨rfl, h.forecasts, fun leg hleg => by rw [h.otherLegs leg hleg]⟩
  refine (InStep.foldlM HalfPlanned (fun leg rest r r' hr => ?_) hstart).mono fun r r' hr => ?_
  · have hleg : InStep SamePlan (optimiseLeg env flight event leg r.2) (optimiseLeg env flight event leg r'.2) := by
      unfold optimiseLeg
      cases flight.segmentCabinsOf leg with
      | nil => exact .fault _
      | cons s lSegmentCabinList =>
        have hclasses : r.2.classes s = r'.2.classes s := congrArg Forecasts.classes (hr.forecasts s)
        simp only [hclasses]
        exact optimiseLegCabinByMethod_lockstep _ _
    refine hleg.mapError.bind fun b b' hb => .ok ⟨by simp only [hr.flag, hb.1], hr.forecasts, fun other hother => ?_⟩
    show (Function.update r.2.legCabins leg b.2 other).virtualClassList =
      (Function.update r'.2.legCabins leg b'.2 other).virtualClassList
    by_cases heq : other = leg
    · subst heq
      rw [Function.update_self, Function.update_self, hb.2]
    · rw [Function.update_of_ne heq, Function.update_of_ne heq]
      exact hr.plans other (by simp [heq, hother])
  · exact Prod.ext hr.flag (Prod.ext (funext hr.forecasts) (funext fun leg => hr.plans leg List.not_mem_nil))

/-- **An event forgets earlier events.** If all segment-cabins can be forecast and yields are not adjusted, then the
forecasts and virtual classes that the event leaves, and whether it succeeds, do not depend on what events without a
transformation have left before. -/
theorem optimiseFlightDate_forgets (hmap : ∀ p, (env.forecaster.api.resetDemandForecast p).yieldDemandMap = [])
    (hdeparted : Departed env flight event) (hmethod : event.iPreOptimisationMethod = .none)
    {earlier earlier' : List (RMEvent S κ)} (hearlier : ∀ e ∈ earlier, e.iPreOptimisationMethod ≠ .MRT)
    (hearlier' : ∀ e ∈ earlier', e.iPreOptimisationMethod ≠ .MRT) {left left' : FlightDateState S L κ}
    (hleft : optimiseEvents env flight earlier st = .ok left) (hleft' : optimiseEvents env flight earlier' st = .ok left') :
    (optimiseFlightDate env flight event left).map planOf = (optimiseFlightDate env flight event left').map planOf := by
  have hsame := (optimiseEvents_frame hearlier hleft).symm.trans (optimiseEvents_frame hearlier' hleft')
  have hforecast := (forecastFlightDate_lockstep hmap hdeparted hsame).also
    (fun _ h => (forecastFlightDate_isForecasted h).2 hdeparted) fun _ h => (forecastFlightDate_isForecasted h).2 hdeparted
  refine InStep.map_eq (hforecast.bind fun r r' hr => ?_)
  obtain ⟨hr, hflag, hflag'⟩ := hr
  simp only [hflag, hflag', if_true]
  have hpre : InStep (SameForecasts flight) (preOptimise env flight event r.2) (preOptimise env flight event r'.2) :=
    preOptimise_lockstep hmethod hr
  refine (hpre.also (fun _ => preOptimise_isPreOptimised hmethod)
    fun _ => preOptimise_isPreOptimised hmethod).bind fun q q' hq => ?_
  obtain ⟨hq, hflag, hflag'⟩ := hq
  simp only [hflag, hflag', if_true]
  exact optimiseLegs_lockstep hq

end lockstep

/-! ### A leg that sold seats

One booking a day in each class of two departed segments, and an interval of two days that is left: each class gets a
mean of 2. -/

/-- A leg with the cabin of `departedCabin`. -/
def oneLegFlight : LegFlightDate Unit Unit ℕ where
  segmentCabins := [()]
  legCabins := [()]
  cabin := fun _ => ⟨departedCabin, by simp [departedCabin, twoClassForecastCabin], .refl _⟩
  segmentCabinsOf := fun _ => [()]

def soldSnapshots : Snapshots ℕ := ⟨⟨3, id, fun _ _ => 1, fun _ _ => 0, fun _ _ => 1⟩, [0, 1], 0⟩

noncomputable def twoDayEnv : EventEnv Unit ℕ where
  forecaster := { departedEnv with lWholeDCPList := [1, 0] }
  DEFAULT_YIELD_VALUE := 0
  getTotalRevenue := (mapPolicyApi ℕ).getTotalRevenue
  resetYieldBasedNestingStructure := id
  leg := fun _ => ⟨1, 1, fun _ => 0, fun _ _ _ => []⟩

def soldEvent (iPreOptimisationMethod : PreOptimisationMethod) : RMEvent Unit ℕ :=
  ⟨2, fun _ => soldSnapshots, .EM, .basedForecasting, iPreOptimisationMethod, .legBasedEmsrB⟩

/-- The classes 1 and 2 have the adjusted yields 2 and 1, and demand that an earlier forecast has left. -/
noncomputable def oneLegState : FlightDateState Unit Unit ℕ where
  cabins := fun _ => ⟨⟨fun c => ⟨0, c, c, (3 - c : ℕ), c, c, 0, 0, 0, 0⟩, fun _ => ⟨0, 0⟩⟩, []⟩
  nodes := fun _ => []
  legCabins := fun _ => ⟨[], []⟩

theorem departed_sold (iPreOptimisationMethod : PreOptimisationMethod) :
    Departed twoDayEnv oneLegFlight (soldEvent iPreOptimisationMethod) := fun _ _ =>
  show 2 ≤ getNbOfDepartedSimilarSegments id [0, 1] 2 by decide

theorem sold_interval (c : ℕ) :
    (⟨soldSnapshots, id, 2, 2, .EM, 1⟩ : History ℕ).forecastInterval (fun iDCPBegin iDCPEnd iSegmentBegin iSegmentEnd =>
      .ok (prepareHistoricalBooking soldSnapshots.table c [] iDCPBegin iDCPEnd iSegmentBegin iSegmentEnd)) 1 0 =
      .ok (2, 0.1) := by
  have hholder : prepareHistoricalBooking soldSnapshots.table c [] 1 0 0 1 = [⟨2, 2, false⟩, ⟨2, 2, false⟩] := by
    have hdays : nbOfDTDs 1 0 = 2 := by decide
    norm_num [prepareHistoricalBooking, historicalBooking, hdays, soldSnapshots, dtdRangeView, List.range_succ]
  have hwindow : segmentWindow id soldSnapshots.boardingDates 2 0 2 = ⟨0, 1⟩ := by decide
  have hwithin : (⟨0, 1⟩ : SegmentWindow).Within soldSnapshots.boardingDates.length := by decide
  have hscanned : scanned [⟨2, 2, false⟩, ⟨2, 2, false⟩] = [⟨2, 2, false⟩, ⟨2, 2, false⟩] := scanned_eq (by norm_num)
  have hunconstrained : unconstrain 1 [⟨2, 2, false⟩, ⟨2, 2, false⟩] = some [⟨2, 2, false⟩, ⟨2, 2, false⟩] := by
    norm_num [unconstrain, emStart, getNbOfUncensoredData, getNbOfUncensoredBookings, getUncensoredStandardDeviation,
      hscanned]
  have hparameters : computeDistributionParameters [2, 2] = .ok (2, 0.1) := by
    norm_num [computeDistributionParameters]
  have hforecast : (⟨soldSnapshots, id, 2, 2, .EM, 1⟩ : History ℕ).forecastHolder [⟨2, 2, false⟩, ⟨2, 2, false⟩] =
      .ok (2, 0.1) := by
    rw [History.forecastHolder, detruncator_EM rfl hunconstrained, ok_bind, uncDemVector, hscanned]
    exact hparameters
  unfold History.forecastInterval
  simp only [hwindow, Snapshots.prepareWindow, if_pos hwithin]
  rw [show (⟨0, 1⟩ : SegmentWindow).lSegmentBegin.toNat = 0 from rfl,
    show (⟨0, 1⟩ : SegmentWindow).lSegmentEnd.toNat = 1 from rfl, hholder, ok_bind]
  exact hforecast

theorem sold_forecast (iPreOptimisationMethod : PreOptimisationMethod) (st : FlightDateState Unit Unit ℕ) :
    ∃ st₁, forecastFlightDate twoDayEnv oneLegFlight (soldEvent iPreOptimisationMethod) st = .ok (true, st₁) ∧
      ∀ c ∈ [1, 2], st₁.classes () c = addProductDemand 2 0.1 (st.classes () c).withoutDemand := by
  let cabin := oneLegFlight.cabinAt (soldEvent iPreOptimisationMethod) ()
  let f := Forecaster.setDemandForecastsToZero cabin (st.cabins ()).forecasts
  have hremaining : remaining [1, 0] 7 = [(1, 0)] := by decide
  let est : ℕ → DTD → DTD → ℝ × ℝ := fun _ _ _ => (2, 0.1)
  have hestimate : ∀ c ∈ [1, 2], ∀ p ∈ remaining [1, 0] 7, (⟨soldSnapshots, id, 2, 2, .EM, 1⟩ : History ℕ).forecastInterval
      (fun iDCPBegin iDCPEnd iSegmentBegin iSegmentEnd => .ok (prepareHistoricalBooking soldSnapshots.table c []
        iDCPBegin iDCPEnd iSegmentBegin iSegmentEnd)) p.1 p.2 = .ok (est c p.1 p.2) := by
    intro c _ p hp
    rw [hremaining, List.mem_singleton] at hp
    rw [hp]
    exact sold_interval c
  obtain ⟨classes, hclasses, hdemand⟩ := forecastProductDemand_eq (by decide) hestimate f.classes
  have hforecast : Forecaster.forecast twoDayEnv.forecaster cabin 2 .EM .basedForecasting (st.cabins ()) =
      .ok (true, ⟨{ f with classes }, (st.cabins ()).policies⟩) := by
    have hdeparted : 2 ≤ getNbOfDepartedSimilarSegments id soldSnapshots.boardingDates 2 := by decide
    have hbased : BasedForecasting.forecast cabin ⟨soldSnapshots, id, 2, 2, .EM, 1⟩ [1, 0] 7 f = .ok { f with classes } :=
      bind_eq_ok.2 ⟨classes, hclasses, rfl⟩
    exact (Forecaster.forecast_based hdeparted .EM _).trans (bind_eq_ok.2 ⟨_, hbased, rfl⟩)
  let cabinState : CabinState ℕ := ⟨{ f with classes }, (st.cabins ()).policies⟩
  refine ⟨{ st with cabins := Function.update st.cabins () cabinState }, ?_, fun c hc => ?_⟩
  · rw [forecastFlightDate, show oneLegFlight.segmentCabins = [()] from rfl, List.foldlM_cons]
    show ((Forecaster.forecast twoDayEnv.forecaster cabin 2 .EM .basedForecasting (st.cabins ())).mapError
      EventFault.forecast >>= _) >>= _ = _
    rw [hforecast]
    rfl
  · have hreset : f.classes c = (st.classes () c).withoutDemand :=
      (setDemandForecastsToZero_class _ c).trans (if_pos hc)
    show (Function.update st.cabins () cabinState ()).forecasts.classes c = _
    rw [Function.update_self]
    show classes c = _
    rw [hdemand c hc, hremaining, hreset]
    rfl

/-- The demand of class 1 that the event with the fare adjustment leaves is another one. -/
theorem optimiseFlightDate_forgets_sold : ∃ left,
    optimiseEvents twoDayEnv oneLegFlight [soldEvent .FA] oneLegState = .ok left ∧
      (left.classes () 1).priceDemMean ≠ (oneLegState.classes () 1).priceDemMean ∧
      (optimiseFlightDate twoDayEnv oneLegFlight (soldEvent .none) left).map planOf =
        (optimiseFlightDate twoDayEnv oneLegFlight (soldEvent .none) oneLegState).map planOf := by
  obtain ⟨left, hforecast, hclasses⟩ := sold_forecast .FA oneLegState
  have hleft : optimiseEvents twoDayEnv oneLegFlight [soldEvent .FA] oneLegState = .ok left := by
    rw [optimiseEvents, List.foldlM_cons, optimiseFlightDate, hforecast]
    rfl
  have hnone : optimiseEvents twoDayEnv oneLegFlight [] oneLegState = .ok oneLegState := rfl
  refine ⟨left, hleft, ?_, optimiseFlightDate_forgets mapPolicyApi_addsToEntry.reset_yieldDemandMap (departed_sold .none)
    rfl (by simp [soldEvent]) (by simp) hleft hnone⟩
  rw [hclasses 1 List.mem_cons_self]
  simp [addProductDemand, BookingClass.withoutDemand, FlightDateState.classes, oneLegState]

end Rmol
