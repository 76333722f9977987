import Rmol.LegBasedEvents
/-!
# The demand of leg-cabins after an event (`RMOL_Service.cpp:645-680`)

`LegBasedEvents` has the model. An event writes demand to the classes in two steps, the forecast and its preparation,
and the leg-cabins read it through the virtual classes. If every segment-cabin can be forecast, the virtual classes are
in step with the classes (`optimiseFlightDate_inStep`): nothing is lost on the way but the classes whose rounded yield is
no level. If one cannot, the others are forecast all the same, and no leg-cabin is optimised: their virtual classes then
stand for demand that the classes no longer have.
-/

namespace Rmol

variable {S L κ : Type}

/-- What the first segment-cabin of a leg-cabin gives for it. -/
def Builds (flight : LegFlightDate S L κ) (st : FlightDateState S L κ) (leg : L) (s : S)
    (built : List (LegVirtualClass κ) × Bool) : Prop :=
  (flight.segmentCabinsOf leg).head? = some s ∧ buildVirtualClassListForLegBasedOptimisation (st.classes s)
    ((flight.segmentCabinsOf leg).map fun s => (flight.cabin s).forecastCabin.bookingClasses) = .ok built

/-- The virtual classes of a leg-cabin are built from what its first segment-cabin holds, and have the demand of its
classes whose rounded yield is a level. -/
structure HoldsDemand (flight : LegFlightDate S L κ) (st : FlightDateState S L κ) (leg : L) (s : S) : Prop where
  built : ∃ isNotEmpty, Builds flight st leg s ((st.legCabins leg).virtualClassList.map (·.toLegVirtualClass), isNotEmpty)
  mean : ((st.legCabins leg).virtualClassList.map (·.mean)).sum =
    (((flight.cabin s).forecastCabin.bookingClasses.filter fun c => (levelOf (st.classes s) c).isSome).map fun c =>
      (st.classes s c).priceDemMean + (st.classes s c).productDemMean).sum
  variance : ((st.legCabins leg).virtualClassList.map (·.stdDev ^ 2)).sum =
    (((flight.cabin s).forecastCabin.bookingClasses.filter fun c => (levelOf (st.classes s) c).isSome).map fun c =>
      (st.classes s c).priceDemStdDev ^ 2 + (st.classes s c).productDemStdDev ^ 2).sum

/-- The means and deviations that the optimisation reads are those of the two parts of the demand. -/
def Prepared (flight : LegFlightDate S L κ) (st : FlightDateState S L κ) (s : S) : Prop :=
  ∀ c ∈ (flight.cabin s).forecastCabin.bookingClasses, prepareClass (st.classes s c) = st.classes s c

section inStep
variable {flight : LegFlightDate S L κ} {st : FlightDateState S L κ} {leg : L} {s : S}

theorem Builds.functional {built built' : List (LegVirtualClass κ) × Bool} {s' : S} (h : Builds flight st leg s built)
    (h' : Builds flight st leg s' built') : built = built' := by
  obtain rfl := Option.some.inj (h.1.symm.trans h'.1)
  exact Except.ok.inj (h.2.symm.trans h'.2)

/-- **The demand of prepared classes** goes to the virtual classes. -/
theorem HoldsDemand.of_builds {isNotEmpty : Bool} (hprepared : Prepared flight st s)
    (h : Builds flight st leg s ((st.legCabins leg).virtualClassList.map (·.toLegVirtualClass), isNotEmpty)) :
    HoldsDemand flight st leg s := by
  obtain ⟨hfirst, hbuild⟩ := h
  obtain ⟨rest, hlist⟩ : ∃ rest, flight.segmentCabinsOf leg = s :: rest := by
    cases hlist : flight.segmentCabinsOf leg with
    | nil => rw [hlist] at hfirst; cases hfirst
    | cons first rest =>
      rw [hlist] at hfirst
      obtain rfl := Option.some.inj hfirst
      exact ⟨rest, rfl⟩
  have hdemand := hbuild
  rw [hlist, List.map_cons] at hdemand
  have hstdDev : ∀ c ∈ (flight.cabin s).forecastCabin.bookingClasses, 0 ≤ (st.classes s c).stdDev := by
    intro c hc
    rw [← hprepared c hc]
    exact Real.sqrt_nonneg _
  obtain ⟨hmean, hvariance⟩ := build_demand hstdDev hdemand
  rw [List.map_map] at hmean hvariance
  refine ⟨⟨isNotEmpty, hfirst, hbuild⟩, hmean.trans ?_, hvariance.trans ?_⟩
  · refine congrArg List.sum (List.map_congr_left fun c hc => ?_)
    rw [← hprepared c (List.mem_of_mem_filter hc)]
    rfl
  · refine congrArg List.sum (List.map_congr_left fun c hc => ?_)
    have hsquares : 0 ≤ (st.classes s c).priceDemStdDev * (st.classes s c).priceDemStdDev +
        (st.classes s c).productDemStdDev * (st.classes s c).productDemStdDev :=
      add_nonneg (mul_self_nonneg _) (mul_self_nonneg _)
    have hstd := congrArg BookingClass.stdDev (hprepared c (List.mem_of_mem_filter hc))
    rw [← hstd, sq (st.classes s c).priceDemStdDev, sq (st.classes s c).productDemStdDev]
    exact Real.sq_sqrt hsquares

variable [DecidableEq κ] {env : EventEnv L κ} {event : RMEvent S κ}

section preOptimise
variable [DecidableEq S]

theorem preOptimise_prepared (hmethod : event.iPreOptimisationMethod = .none) {result : Bool × FlightDateState S L κ}
    (h : preOptimise env flight event st = .ok result) (hs : s ∈ flight.segmentCabins) : Prepared flight result.2 s := by
  refine foldlM_sets (fun s run => Prepared flight run.2 s) (fun s run run' hstep => ?_)
    (fun s run run' hstep t hts hprepared => ?_) (.inl hs) h
  · simp only [preOptimiseSegmentCabin, hmethod, ok_bind] at hstep
    obtain rfl := Except.ok.inj hstep
    intro c hc
    simp only [FlightDateState.classes, FlightDateState.withClasses, Function.update_self, prepareDemandInput_apply,
      if_pos hc]
    rfl
  · simp only [preOptimiseSegmentCabin, hmethod, ok_bind] at hstep
    obtain rfl := Except.ok.inj hstep
    simpa only [Prepared, FlightDateState.classes, FlightDateState.withClasses, Function.update_of_ne hts] using hprepared

end preOptimise

omit [DecidableEq κ] in
theorem optimiseLeg_builds {result : Bool × LegPlan κ} (h : optimiseLeg env flight event leg st = .ok result) :
    ∃ s, Builds flight st leg s (result.2.virtualClassList.map (·.toLegVirtualClass), result.1) := by
  unfold optimiseLeg at h
  unfold Builds
  cases hlist : flight.segmentCabinsOf leg with
  | nil =>
    rw [hlist] at h
    cases h
  | cons s rest =>
    simp only [hlist] at h
    exact ⟨s, rfl, optimiseLegCabinByMethod_classes h⟩

variable [DecidableEq L]

omit [DecidableEq κ] in
theorem optimiseLegs_builds {result : Bool × FlightDateState S L κ} (h : optimiseLegs env flight event st = .ok result)
    (hleg : leg ∈ flight.legCabins) :
    ∃ s isNotEmpty, Builds flight result.2 leg s
      ((result.2.legCabins leg).virtualClassList.map (·.toLegVirtualClass), isNotEmpty) := by
  refine foldlM_sets (fun leg run => ∃ s isNotEmpty, Builds flight run.2 leg s
    ((run.2.legCabins leg).virtualClassList.map (·.toLegVirtualClass), isNotEmpty)) (fun leg run run' hstep => ?_)
    (fun leg run run' hstep other hother hbuilds => ?_) (.inl hleg) h
  · obtain ⟨⟨isSucceeded, lLegPlan⟩, hplan, hstep⟩ := bind_eq_ok.1 hstep
    obtain rfl := Except.ok.inj hstep
    obtain ⟨s, hbuilds⟩ := optimiseLeg_builds (mapError_eq_ok hplan)
    refine ⟨s, isSucceeded, ?_⟩
    simp only [Function.update_self]
    exact hbuilds
  · obtain ⟨⟨isSucceeded, lLegPlan⟩, -, hstep⟩ := bind_eq_ok.1 hstep
    obtain rfl := Except.ok.inj hstep
    obtain ⟨s, isNotEmpty, hbuilds⟩ := hbuilds
    refine ⟨s, isNotEmpty, ?_⟩
    simp only [Function.update_of_ne hother]
    exact hbuilds

omit [DecidableEq κ] in
/-- The optimisation succeeds iff some leg-cabin has a virtual class. -/
theorem optimiseLegs_isSucceeded {result : Bool × FlightDateState S L κ}
    (h : optimiseLegs env flight event st = .ok result) :
    result.1 = true ↔ ∃ leg ∈ flight.legCabins, (result.2.legCabins leg).virtualClassList ≠ [] := by
  have hflag : result.1 = false ↔ ∀ leg ∈ flight.legCabins, ∃ s list, Builds flight st leg s (list, false) := by
    refine (foldlM_forall (fun run => run.2.cabins = st.cabins) (·.1 = false)
      (fun leg => ∃ s list, Builds flight st leg s (list, false)) (fun leg run run' hcabins hstep => ?_) rfl h).trans
      (and_iff_right rfl)
    obtain ⟨⟨isSucceeded, lLegPlan⟩, hplan, hstep⟩ := bind_eq_ok.1 hstep
    obtain rfl := Except.ok.inj hstep
    refine ⟨hcabins, ?_⟩
    rw [Bool.or_eq_false_iff]
    refine and_congr_right fun _ => ?_
    obtain ⟨s, hbuilds⟩ := optimiseLeg_builds (mapError_eq_ok hplan)
    have hst : Builds flight st leg s (lLegPlan.virtualClassList.map (·.toLegVirtualClass), isSucceeded) := by
      unfold Builds FlightDateState.classes at hbuilds ⊢
      rwa [hcabins] at hbuilds
    constructor
    · rintro rfl
      exact ⟨s, _, hst⟩
    · rintro ⟨s', list, hempty⟩
      exact (Prod.mk.inj (hst.functional hempty)).2
  rw [← not_iff_not, Bool.not_eq_true, hflag]
  push Not
  refine forall₂_congr fun leg hleg => ?_
  obtain ⟨s, isNotEmpty, hbuilds⟩ := optimiseLegs_builds h hleg
  have hempty := build_isNotEmpty hbuilds.2
  have hst : Builds flight st leg s ((result.2.legCabins leg).virtualClassList.map (·.toLegVirtualClass), isNotEmpty) := by
    unfold Builds FlightDateState.classes at hbuilds ⊢
    rwa [(optimiseLegs_frame h).1] at hbuilds
  rw [Ne, List.map_eq_nil_iff] at hempty
  constructor
  · rintro ⟨s', list, hfalse⟩
    obtain ⟨-, rfl⟩ := Prod.mk.inj (hst.functional hfalse)
    exact not_not.1 fun hne => Bool.false_ne_true (hempty.2 hne)
  · intro hnil
    cases isNotEmpty with
    | false => exact ⟨s, _, hst⟩
    | true => exact absurd hnil (hempty.1 rfl)

variable [DecidableEq S]

/-- **Demand and virtual classes are in step after an event** that adjusts no yield. If all segment-cabins can be
forecast, the virtual classes of each leg-cabin hold the demand that its first segment-cabin now has, and the event
succeeds iff some leg-cabin has one. Otherwise the leg-cabins keep what they have. -/
theorem optimiseFlightDate_inStep (hmethod : event.iPreOptimisationMethod = .none) {isOptimised : Bool}
    {out : FlightDateState S L κ} (h : optimiseFlightDate env flight event st = .ok (isOptimised, out)) :
    (Departed env flight event →
      (∀ s ∈ flight.segmentCabins, Prepared flight out s) ∧
      (∀ leg ∈ flight.legCabins, ∃ s, (flight.segmentCabinsOf leg).head? = some s ∧
        (s ∈ flight.segmentCabins → HoldsDemand flight out leg s)) ∧
      (isOptimised = true ↔ ∃ leg ∈ flight.legCabins, (out.legCabins leg).virtualClassList ≠ [])) ∧
    (¬ Departed env flight event → isOptimised = false ∧ out.legCabins = st.legCabins) := by
  obtain ⟨⟨isForecasted, st₁⟩, hforecast, h⟩ := bind_eq_ok.1 h
  have hflag := forecastFlightDate_isForecasted hforecast
  cases isForecasted with
  | false =>
    obtain ⟨rfl, rfl⟩ := Prod.mk.inj (Except.ok.inj h)
    refine ⟨fun hdeparted => absurd (hflag.2 hdeparted) Bool.false_ne_true, fun _ => ⟨rfl, ?_⟩⟩
    refine foldlM_inv (fun run => run.2.legCabins = st.legCabins) (fun s _ run run' hrun hstep => ?_) rfl hforecast
    obtain ⟨⟨isForecasted, cabin⟩, -, hstep⟩ := bind_eq_ok.1 hstep
    obtain rfl := Except.ok.inj hstep
    exact hrun
  | true =>
    refine ⟨fun _ => ?_, fun hdeparted => absurd (hflag.1 rfl) hdeparted⟩
    obtain ⟨⟨isPreOptimised, st₂⟩, hpre, h⟩ := bind_eq_ok.1 h
    obtain rfl : isPreOptimised = true := preOptimise_isPreOptimised hmethod hpre
    have hcabins : out.cabins = st₂.cabins := (optimiseLegs_frame h).1
    have hprepared : ∀ s ∈ flight.segmentCabins, Prepared flight out s := by
      intro s hs
      have hs := preOptimise_prepared hmethod hpre hs
      unfold Prepared FlightDateState.classes at hs ⊢
      rwa [hcabins]
    refine ⟨hprepared, fun leg hleg => ?_, optimiseLegs_isSucceeded h⟩
    obtain ⟨s, isNotEmpty, hbuilds⟩ := optimiseLegs_builds h hleg
    exact ⟨s, hbuilds.1, fun hs => .of_builds (hprepared s hs) hbuilds⟩

end inStep

/-! ### The leg that sold seats

The classes 1 and 2 have a mean of 2 each, and become the virtual classes of the yields 2 and 1. -/

/-- A class after an event that forecasts this demand. -/
noncomputable def soldClass (iMean iStdDev : ℝ) (c : ℕ) : BookingClass ℝ :=
  prepareClass (addProductDemand iMean iStdDev (oneLegState.classes () c).withoutDemand)

theorem soldClass_mean (c : ℕ) : (soldClass 2 0.1 c).mean = 2 := by
  norm_num [soldClass, prepareClass, addProductDemand, BookingClass.withoutDemand]

theorem soldClass_stdDev (c : ℕ) : (soldClass 2 0.1 c).stdDev ≠ 0 := by
  refine (prepareClass_stdDev_ne_zero_iff _).2 (.inr ?_)
  simp only [addProductDemand, BookingClass.withoutDemand]
  exact (Real.sqrt_pos.2 (by norm_num)).ne'

theorem levelOf_sold {classes : ClassStore ℕ ℝ} (h : ∀ c ∈ [1, 2], classes c = soldClass 2 0.1 c) {c : ℕ} (hc : c ∈ [1, 2]) :
    levelOf classes c = some ((3 - c : ℕ) : ℤ) := by
  have hyield : (classes c).adjustedYield = ((3 - c : ℕ) : ℝ) := by
    rw [h c hc]
    rfl
  refine levelOf_eq_some.2 ⟨?_, ?_, ?_⟩
  · rw [h c hc, soldClass_mean]
    exact two_pos
  · rw [hyield, roundedYieldLevel_natCast]
    rcases List.mem_pair.1 hc with rfl | rfl <;> norm_num
  · rw [hyield, roundedYieldLevel_natCast]

theorem sold_optimised : ∃ isOptimised out,
    optimiseFlightDate twoDayEnv oneLegFlight (soldEvent .none) oneLegState = .ok (isOptimised, out) ∧
      ∀ c ∈ [1, 2], out.classes () c = soldClass 2 0.1 c := by
  obtain ⟨st₁, hforecast, hdemand⟩ := sold_forecast .none oneLegState
  let st₂ := st₁.withClasses () (prepareDemandInput [1, 2] (st₁.classes ()))
  have hpre : preOptimise twoDayEnv oneLegFlight (soldEvent .none) st₁ = .ok (true, st₂) := rfl
  have hclasses : ∀ c ∈ [1, 2], st₂.classes () c = soldClass 2 0.1 c := by
    intro c hc
    refine (prepareDemandInput_apply _ c).trans ?_
    rw [if_pos hc, hdemand c hc]
    rfl
  have hleg : ∃ result, optimiseLegCabinByMethod (twoDayEnv.leg ()) .legBasedEmsrB (st₂.classes ()) [[1, 2]]
      (st₂.legCabins ()) = .ok result := by
    refine (optimiseLegCabinByMethod_emsrB_ok_iff [] _ fun c hc => ?_).2 ⟨fun c hc _ => ?_, .inr ⟨1, by simp, ?_, ?_⟩⟩
    · rw [hclasses c hc]
      exact Real.sqrt_nonneg _
    · rw [hclasses c hc]
      exact Nat.cast_nonneg _
    · refine ⟨_, levelOf_sold hclasses (by simp), fun d hd level' hlevel' => ?_⟩
      rw [levelOf_sold hclasses hd, Option.some.injEq] at hlevel'
      rw [← hlevel']
      rcases List.mem_pair.1 hd with rfl | rfl <;> norm_num
    · rw [hclasses 1 (by simp)]
      exact soldClass_stdDev 1
  obtain ⟨⟨isSucceeded, lLegPlan⟩, hleg⟩ := hleg
  let out : FlightDateState Unit Unit ℕ := { st₂ with legCabins := Function.update st₂.legCabins () lLegPlan }
  have hlegs : optimiseLegs twoDayEnv oneLegFlight (soldEvent .none) st₂ = .ok (isSucceeded, out) := by
    have hoptimised : optimiseLeg twoDayEnv oneLegFlight (soldEvent .none) () st₂ = .ok (isSucceeded, lLegPlan) := hleg
    rw [optimiseLegs, show oneLegFlight.legCabins = [()] from rfl, List.foldlM_cons, hoptimised]
    simp only [Except.mapError, ok_bind, Bool.false_or, List.foldlM_nil, except_pure, out]
  refine ⟨isSucceeded, out, ?_, hclasses⟩
  rw [optimiseFlightDate, hforecast]
  simp only [ok_bind, if_true, hpre]
  exact hlegs

theorem optimiseFlightDate_inStep_sold : ∃ out,
    optimiseFlightDate twoDayEnv oneLegFlight (soldEvent .none) oneLegState = .ok (true, out) ∧
      Prepared oneLegFlight out () ∧ HoldsDemand oneLegFlight out () () ∧
      ((out.legCabins ()).virtualClassList.map (·.mean)).sum = 4 := by
  obtain ⟨isOptimised, out, hrun, hclasses⟩ := sold_optimised
  obtain ⟨hprepared, hleg, hoptimised⟩ := (optimiseFlightDate_inStep rfl hrun).1 (departed_sold .none)
  obtain ⟨s, -, hdemand⟩ := hleg () (by simp [oneLegFlight])
  have hholds : HoldsDemand oneLegFlight out () () := hdemand (by simp [oneLegFlight])
  have hmean : ∀ c ∈ [1, 2], (out.classes () c).priceDemMean + (out.classes () c).productDemMean = 2 := by
    intro c hc
    rw [hclasses c hc]
    exact soldClass_mean c
  have hsum : ((out.legCabins ()).virtualClassList.map (·.mean)).sum = 4 := by
    have hlevels : [1, 2].filter (fun c => (levelOf (out.classes ()) c).isSome) = [1, 2] :=
      List.filter_eq_self.2 fun c hc => by rw [levelOf_sold hclasses hc]; rfl
    have hclassList : (oneLegFlight.cabin ()).forecastCabin.bookingClasses = [1, 2] := rfl
    rw [hholds.mean, hclassList, hlevels, List.map_congr_left hmean]
    norm_num
  have hne : (out.legCabins ()).virtualClassList ≠ [] := by
    intro hnil
    rw [hnil] at hsum
    norm_num at hsum
  obtain rfl := hoptimised.2 ⟨(), by simp [oneLegFlight], hne⟩
  exact ⟨out, hrun, hprepared () (by simp [oneLegFlight]), hholds, hsum⟩

end Rmol
