import Rmol.Forecaster
/-!
# What a forecast depends on

`SameInputs` relates two states of a cabin that differ in what forecasts write: the forecast attributes of its
classes and fare families, and the demand of its policies. A reset makes the first two equal
(`reset_eq_of_sameInputs`), the policy forecasters reset the policies, and the rest of each forecaster is a
function of what is then equal. A forecast keeps the relation (`forecast_sameInputs`), so any earlier forecasts can
stand between the two states.
-/

namespace Rmol

variable {κ : Type} [DecidableEq κ]

/-- The store has the attributes of `before` that are no forecasts, and the classes outside `P` as they are there. -/
structure ClassFrame (P : κ → Prop) (before after : ClassStore κ ℝ) : Prop where
  attributes : ∀ c, (after c).withoutDemand = (before c).withoutDemand
  other : ∀ c, ¬ P c → after c = before c

/-- The classes of the cabin's class list and of its fare families. -/
def ForecastCabin.Has (cabin : ForecastCabin κ) (c : κ) : Prop :=
  c ∈ cabin.bookingClasses ∨ c ∈ cabin.fareFamilies.flatMap FareFamily.bookingClasses

/-- Two states of a cabin that differ at most in what a forecast of the cabin writes. -/
structure SameInputs (cabin : ForecastCabin κ) (st st' : CabinState κ) : Prop where
  classes : ClassFrame cabin.Has st.forecasts.classes st'.forecasts.classes
  otherFamilies : ∀ i, cabin.fareFamilies.length ≤ i → st'.forecasts.families i = st.forecasts.families i
  policies : st'.policies.map Policy.bookingClasses = st.policies.map Policy.bookingClasses

section equivalence
variable {P : κ → Prop} {before between after : ClassStore κ ℝ} {cabin : ForecastCabin κ} {st st' st'' : CabinState κ}

omit [DecidableEq κ] in
theorem ClassFrame.refl (P : κ → Prop) (before : ClassStore κ ℝ) : ClassFrame P before before :=
  ⟨fun _ => rfl, fun _ _ => rfl⟩

omit [DecidableEq κ] in
theorem ClassFrame.symm (h : ClassFrame P before after) : ClassFrame P after before :=
  ⟨fun c => (h.attributes c).symm, fun c hc => (h.other c hc).symm⟩

omit [DecidableEq κ] in
theorem ClassFrame.trans (h : ClassFrame P before between) (h' : ClassFrame P between after) :
    ClassFrame P before after :=
  ⟨fun c => (h'.attributes c).trans (h.attributes c), fun c hc => (h'.other c hc).trans (h.other c hc)⟩

omit [DecidableEq κ] in
theorem SameInputs.refl (cabin : ForecastCabin κ) (st : CabinState κ) : SameInputs cabin st st :=
  ⟨.refl _ _, fun _ _ => rfl, rfl⟩

omit [DecidableEq κ] in
theorem SameInputs.symm (h : SameInputs cabin st st') : SameInputs cabin st' st :=
  ⟨h.classes.symm, fun i hi => (h.otherFamilies i hi).symm, h.policies.symm⟩

omit [DecidableEq κ] in
theorem SameInputs.trans (h : SameInputs cabin st st') (h' : SameInputs cabin st' st'') : SameInputs cabin st st'' :=
  ⟨h.classes.trans h'.classes, fun i hi => (h'.otherFamilies i hi).trans (h.otherFamilies i hi),
    h'.policies.trans h.policies⟩

end equivalence

/-! ## The reset -/

section reset
variable {cabin : ForecastCabin κ}

@[simp] theorem withoutDemand_withoutDemand (b : BookingClass ℝ) : b.withoutDemand.withoutDemand = b.withoutDemand := rfl

/-- A reset of some classes resets each of them, however often it is listed. -/
theorem foldl_reset (l : List κ) (classes : ClassStore κ ℝ) (c : κ) :
    l.foldl (fun classes lBC => ClassStore.modify classes lBC BookingClass.withoutDemand) classes c =
      if c ∈ l then (classes c).withoutDemand else classes c := by
  by_cases hc : c ∈ l
  · rw [if_pos hc]
    exact KeyedUpdates.visits_apply_of_idempotent (fun b => withoutDemand_withoutDemand b) hc classes
  · rw [if_neg hc]
    exact ClassStore.foldl_modify_of_notMem _ classes hc

theorem setDemandForecastsToZero_class (f : Forecasts κ ℝ) (c : κ) :
    (Forecaster.setDemandForecastsToZero cabin f).classes c =
      if c ∈ cabin.fareFamilies.flatMap FareFamily.bookingClasses then (f.classes c).withoutDemand
      else f.classes c := by
  rw [← foldl_reset, Forecaster.setDemandForecastsToZero, List.foldl_flatMap]

/-- **The reset forgets earlier forecasts**, if it reaches every class of the cabin. -/
theorem reset_eq_of_sameInputs
    (hcover : ∀ c ∈ cabin.bookingClasses, c ∈ cabin.fareFamilies.flatMap FareFamily.bookingClasses)
    {st st' : CabinState κ} (h : SameInputs cabin st st') :
    Forecaster.setDemandForecastsToZero cabin st'.forecasts = Forecaster.setDemandForecastsToZero cabin st.forecasts := by
  have hclasses : (Forecaster.setDemandForecastsToZero cabin st'.forecasts).classes =
      (Forecaster.setDemandForecastsToZero cabin st.forecasts).classes := by
    ext c : 1
    rw [setDemandForecastsToZero_class, setDemandForecastsToZero_class]
    by_cases hc : c ∈ cabin.fareFamilies.flatMap FareFamily.bookingClasses
    · rw [if_pos hc, if_pos hc, h.classes.attributes c]
    · have hout : ¬ cabin.Has c := fun hin => hc (hin.elim (hcover c) id)
      rw [if_neg hc, if_neg hc, h.classes.other c hout]
  have hfamilies : (Forecaster.setDemandForecastsToZero cabin st'.forecasts).families =
      (Forecaster.setDemandForecastsToZero cabin st.forecasts).families := by
    ext i : 1
    by_cases hi : i < cabin.fareFamilies.length
    · simp only [Forecaster.setDemandForecastsToZero, if_pos hi]
    · simp only [Forecaster.setDemandForecastsToZero, if_neg hi, h.otherFamilies i (not_lt.1 hi)]
  cases hF : Forecaster.setDemandForecastsToZero cabin st'.forecasts
  cases hF' : Forecaster.setDemandForecastsToZero cabin st.forecasts
  rw [hF, hF'] at hclasses hfamilies
  exact congrArg₂ Forecasts.mk hclasses hfamilies

omit [DecidableEq κ] in
/-- A policy after its reset is known by its classes. -/
theorem resetDemandForecast_eq {api : PolicyApi κ} (hmap : ∀ p, (api.resetDemandForecast p).yieldDemandMap = [])
    (p : Policy κ ℝ) : api.resetDemandForecast p = .withoutDemand p.bookingClasses := by
  have hclasses := api.reset_bookingClasses p
  have hdemand := api.reset_demand p
  have hstdDev := api.reset_stdDev p
  have hm := hmap p
  cases hp : api.resetDemandForecast p
  rw [hp] at hclasses hdemand hstdDev hm
  subst hclasses hdemand hstdDev hm
  rfl

omit [DecidableEq κ] in
theorem map_resetDemandForecast {api : PolicyApi κ} (hmap : ∀ p, (api.resetDemandForecast p).yieldDemandMap = [])
    (l : List (Policy κ ℝ)) : l.map api.resetDemandForecast = (l.map Policy.bookingClasses).map .withoutDemand := by
  rw [List.map_map]
  exact List.map_congr_left fun p _ => resetDemandForecast_eq hmap p

omit [DecidableEq κ] in
/-- So the policies that `NewQFF` fills do not depend on what they held. -/
theorem dispatchDemandForecastToPolicies_eq {api : PolicyApi κ}
    (hmap : ∀ p, (api.resetDemandForecast p).yieldDemandMap = []) (classes : ClassStore κ ℝ) (l : List (Policy κ ℝ)) :
    NewQFF.dispatchDemandForecastToPolicies classes api l =
      (l.map Policy.bookingClasses).map fun lBCList =>
        NewQFF.dispatchDemandForecastToPolicy classes api (.withoutDemand lBCList) := by
  rw [List.map_map]
  refine List.map_congr_left fun p _ => ?_
  have hreset : api.resetDemandForecast p = api.resetDemandForecast (.withoutDemand p.bookingClasses) := by
    rw [resetDemandForecast_eq hmap p, resetDemandForecast_eq hmap (.withoutDemand p.bookingClasses),
      Policy.withoutDemand_bookingClasses]
  simp only [Function.comp_apply, NewQFF.dispatchDemandForecastToPolicy, hreset]

end reset

/-! ## Two forecasts -/

/-- What a forecast returns and leaves in the classes and fare families. -/
def forecastsOf (result : Except ForecasterFault (Bool × CabinState κ)) : Except ForecasterFault (Bool × Forecasts κ ℝ) :=
  result.map fun r => (r.1, r.2.forecasts)

omit [DecidableEq κ] in
theorem forecastsOf_bind (x : Except ForecasterFault (Forecasts κ ℝ)) (policies policies' : List (Policy κ ℝ)) :
    forecastsOf (x >>= fun f => return (true, ⟨f, policies⟩)) =
      forecastsOf (x >>= fun f => return (true, ⟨f, policies'⟩)) := by
  cases x <;> rfl

section runs
variable {env : ForecastEnv κ} {cabin : ForecastCabin κ} {iEventDate : Date}

/-- **A forecast does not depend on earlier forecasts.** Two states with the same inputs end in the same forecasts
of all classes and fare families, and, by a method that forecasts the policies, in the same policies. -/
theorem forecast_eq_of_sameInputs (hmap : ∀ p, (env.api.resetDemandForecast p).yieldDemandMap = [])
    (hcover : ∀ c ∈ cabin.bookingClasses, c ∈ cabin.fareFamilies.flatMap FareFamily.bookingClasses)
    (hdeparted : 2 ≤ getNbOfDepartedSimilarSegments env.toDTD cabin.snapshots.boardingDates iEventDate)
    (iUnconstrainingMethod : UnconstrainingMethod) (iForecastingMethod : ForecastingMethod) {st st' : CabinState κ}
    (h : SameInputs cabin st st') :
    forecastsOf (Forecaster.forecast env cabin iEventDate iUnconstrainingMethod iForecastingMethod st') =
        forecastsOf (Forecaster.forecast env cabin iEventDate iUnconstrainingMethod iForecastingMethod st) ∧
      (iForecastingMethod = .newQFF ∨ iForecastingMethod = .oldQFF → cabin.fareFamilyStatus = true →
        Forecaster.forecast env cabin iEventDate iUnconstrainingMethod iForecastingMethod st' =
          Forecaster.forecast env cabin iEventDate iUnconstrainingMethod iForecastingMethod st) := by
  have hreset := reset_eq_of_sameInputs hcover h
  have hpolicies : ∀ classes, NewQFF.dispatchDemandForecastToPolicies classes env.api st'.policies =
      NewQFF.dispatchDemandForecastToPolicies classes env.api st.policies := by
    intro classes
    rw [dispatchDemandForecastToPolicies_eq hmap, dispatchDemandForecastToPolicies_eq hmap, h.policies]
  have hresetPolicies : st'.policies.map env.api.resetDemandForecast = st.policies.map env.api.resetDemandForecast := by
    rw [map_resetDemandForecast hmap, map_resetDemandForecast hmap, h.policies]
  have hnewQFF : ∀ history d f, NewQFF.forecastFromHistory cabin history env.lWholeDCPList d env.api ⟨f, st'.policies⟩ =
      NewQFF.forecastFromHistory cabin history env.lWholeDCPList d env.api ⟨f, st.policies⟩ := by
    intro history d f
    simp only [NewQFF.forecastFromHistory, hpolicies]
  have holdQFF : ∀ estimate d f, OldQFF.forecast env.api cabin estimate env.lWholeDCPList d ⟨f, st'.policies⟩ =
      OldQFF.forecast env.api cabin estimate env.lWholeDCPList d ⟨f, st.policies⟩ := by
    intro estimate d f
    simp only [OldQFF.forecast, hresetPolicies]
  unfold Forecaster.forecast
  rw [hreset]
  simp only [if_neg (not_lt.2 hdeparted), hnewQFF, holdQFF]
  refine ⟨?_, ?_⟩
  · cases iForecastingMethod with
    | qForecasting => exact forecastsOf_bind _ _ _
    | hybridForecasting => exact forecastsOf_bind _ _ _
    | newQFF | oldQFF =>
      by_cases hstatus : cabin.fareFamilyStatus = false
      · simp only [if_pos hstatus]
        exact forecastsOf_bind _ _ _
      · simp only [if_neg hstatus]
    | basedForecasting => exact forecastsOf_bind _ _ _
    | other => rfl
  · rintro (rfl | rfl) hstatus <;> simp only [hstatus, Bool.true_eq_false, if_false]

end runs

/-! ## What a forecast changes -/

section frame

variable {P : κ → Prop} {before : ClassStore κ ℝ}

theorem ClassFrame.modify {classes : ClassStore κ ℝ} (h : ClassFrame P before classes) {c : κ} (hc : P c)
    {set : BookingClass ℝ → BookingClass ℝ} (hset : ∀ b, (set b).withoutDemand = b.withoutDemand) :
    ClassFrame P before (classes.modify c set) := by
  constructor
  · intro d
    by_cases hd : d = c
    · subst hd
      rw [ClassStore.modify_self, hset, h.attributes]
    · rw [ClassStore.modify_of_ne _ _ hd, h.attributes]
  · intro d hP
    rw [ClassStore.modify_of_ne _ _ (by rintro rfl; exact hP hc), h.other d hP]

theorem ClassFrame.dispatch {curves : List (κ × Curve ℝ)} (hkeys : ∀ c ∈ curves.map Prod.fst, P c) {k : DemandKind}
    {m s : ℝ} {d : DTD} {classes out : ClassStore κ ℝ} (h : ClassFrame P before classes)
    (hrun : dispatch k curves m s d classes = .ok out) : ClassFrame P before out := by
  refine foldlM_inv (ClassFrame P before) (fun entry he classes classes' hc hstep => ?_) h hrun
  split at hstep
  · cases hstep
  · obtain rfl := Except.ok.inj hstep
    exact hc.modify (hkeys _ (List.mem_map_of_mem he)) fun b => by cases k <;> rfl

theorem ClassFrame.forecastInterval {D FA : List (κ × Curve ℝ)} (hD : ∀ c ∈ D.map Prod.fst, P c)
    (hFA : ∀ c ∈ FA.map Prod.fst, P c) {estimate : DTD → DTD → ℝ × ℝ} {iCurrentDTD : DTD}
    {run run' : ClassStore κ ℝ × FamilyForecast ℝ} {interval : DTD × DTD} (h : ClassFrame P before run.1)
    (hrun : Rmol.forecastInterval D FA estimate iCurrentDTD run interval = .ok run') : ClassFrame P before run'.1 := by
  unfold Rmol.forecastInterval at hrun
  simp only at hrun
  split at hrun
  · obtain ⟨classes, h₁, hrun⟩ := bind_eq_ok.1 hrun
    obtain ⟨classes', h₂, hrun⟩ := bind_eq_ok.1 hrun
    obtain rfl := Except.ok.inj hrun
    exact (h.dispatch hD h₁).dispatch hFA h₂
  · obtain rfl := Except.ok.inj hrun
    exact h

theorem ClassFrame.forecastIntervalsFromHistory {D FA : List (κ × Curve ℝ)} (hD : ∀ c ∈ D.map Prod.fst, P c)
    (hFA : ∀ c ∈ FA.map Prod.fst, P c) {estimate : DTD → DTD → Except ForecasterFault (ℝ × ℝ)}
    {lWholeDCPList : List DTD} {iCurrentDTD : DTD} {run run' : ClassStore κ ℝ × FamilyForecast ℝ}
    (h : ClassFrame P before run.1)
    (hrun : Rmol.forecastIntervalsFromHistory D FA estimate lWholeDCPList iCurrentDTD run = .ok run') :
    ClassFrame P before run'.1 := by
  refine foldlM_inv (fun run => ClassFrame P before run.1) (fun interval _ run run' hc hstep => ?_) h hrun
  split at hstep
  · obtain ⟨lForecast, -, hstep⟩ := bind_eq_ok.1 hstep
    exact hc.forecastInterval hD hFA (mapError_eq_ok hstep)
  · obtain rfl := Except.ok.inj hstep
    exact hc

theorem ClassFrame.forecastProductDemand {lBCList : List κ} (hP : ∀ c ∈ lBCList, P c)
    {estimate : κ → DTD → DTD → Except ForecasterFault (ℝ × ℝ)} {lWholeDCPList : List DTD} {iCurrentDTD : DTD}
    {classes out : ClassStore κ ℝ} (h : ClassFrame P before classes)
    (hrun : Rmol.forecastProductDemand lBCList estimate lWholeDCPList iCurrentDTD classes = .ok out) :
    ClassFrame P before out := by
  refine foldlM_inv (ClassFrame P before) (fun interval _ classes classes' hc hstep => ?_) h hrun
  split at hstep
  · refine foldlM_inv (ClassFrame P before) (fun c hcl classes classes' hc hstep => ?_) hc hstep
    obtain ⟨lForecast, -, hstep⟩ := bind_eq_ok.1 hstep
    obtain rfl := Except.ok.inj hstep
    exact hc.modify (hP c hcl) fun b => rfl
  · obtain rfl := Except.ok.inj hstep
    exact hc

theorem ClassFrame.reset {cabin : ForecastCabin κ} (f : Forecasts κ ℝ) :
    ClassFrame cabin.Has f.classes (Forecaster.setDemandForecastsToZero cabin f).classes := by
  constructor
  · intro c
    rw [setDemandForecastsToZero_class]
    split <;> rfl
  · intro c hc
    rw [setDemandForecastsToZero_class, if_neg fun hin => hc (.inr hin)]

end frame

section cabin
variable {cabin : ForecastCabin κ} {history : History κ} {lWholeDCPList : List DTD} {iCurrentDTD : DTD}

/-- The forecasts of a cabin, apart from its own classes and families. -/
structure ForecastsFrame (cabin : ForecastCabin κ) (before after : Forecasts κ ℝ) : Prop where
  classes : ClassFrame cabin.Has before.classes after.classes
  otherFamilies : ∀ i, cabin.fareFamilies.length ≤ i → after.families i = before.families i

omit [DecidableEq κ] in
theorem update_family {lFF : FareFamily κ ℝ} (hlast : cabin.fareFamilies.getLast? = some lFF)
    (families : ℕ → FamilyForecast ℝ) (v : FamilyForecast ℝ) {i : ℕ} (hi : cabin.fareFamilies.length ≤ i) :
    Function.update families (cabin.fareFamilies.length - 1) v i = families i := by
  have hpos : 0 < cabin.fareFamilies.length := List.length_pos_of_mem (List.mem_of_getLast? hlast)
  exact Function.update_of_ne (by omega) _ _

theorem QForecasting.forecastFromHistory_frame {f out : Forecasts κ ℝ}
    (h : forecastFromHistory cabin history lWholeDCPList iCurrentDTD f = .ok out) : ForecastsFrame cabin f out := by
  unfold forecastFromHistory at h
  split at h
  · cases h
  · rename_i lFF hlast
    obtain ⟨su, -, h⟩ := bind_eq_ok.1 h
    obtain ⟨disp, hdisp, h⟩ := bind_eq_ok.1 h
    obtain ⟨run, hrun, h⟩ := bind_eq_ok.1 h
    obtain rfl := Except.ok.inj h
    have hkeys : ∀ c ∈ disp.map Prod.fst, cabin.Has c := by
      intro c hc
      rw [(dispatchingCurves_spec (mapError_eq_ok hdisp)).1, List.mem_reverse] at hc
      exact .inl hc
    exact ⟨(ClassFrame.refl cabin.Has f.classes).forecastIntervalsFromHistory hkeys hkeys hrun,
      fun i hi => update_family hlast _ _ hi⟩

theorem HybridForecasting.forecast_frame {f out : Forecasts κ ℝ}
    (h : HybridForecasting.forecast cabin history lWholeDCPList iCurrentDTD f = .ok out) : ForecastsFrame cabin f out := by
  obtain ⟨f₁, hq, h⟩ := bind_eq_ok.1 h
  obtain ⟨classes, hclasses, h⟩ := bind_eq_ok.1 h
  obtain rfl := Except.ok.inj h
  have hframe := QForecasting.forecastFromHistory_frame hq
  exact ⟨hframe.classes.forecastProductDemand (fun c hc => .inl hc) hclasses, hframe.otherFamilies⟩

theorem BasedForecasting.forecast_frame {f out : Forecasts κ ℝ}
    (h : BasedForecasting.forecast cabin history lWholeDCPList iCurrentDTD f = .ok out) : ForecastsFrame cabin f out := by
  obtain ⟨classes, hclasses, h⟩ := bind_eq_ok.1 h
  obtain rfl := Except.ok.inj h
  exact ⟨(ClassFrame.refl cabin.Has f.classes).forecastProductDemand (fun c hc => .inl hc) hclasses, fun _ _ => rfl⟩

theorem NewQFF.forecastFamilyFromHistory_frame {P : κ → Prop} {before : ClassStore κ ℝ} {F : FareFamily κ ℝ}
    (hF : ∀ c ∈ F.bookingClasses, P c) {run run' : ClassStore κ ℝ × FamilyForecast ℝ} (hframe : ClassFrame P before run.1)
    (h : forecastFamilyFromHistory history lWholeDCPList iCurrentDTD F run = .ok run') : ClassFrame P before run'.1 := by
  obtain ⟨su, hsu, h⟩ := bind_eq_ok.1 h
  obtain ⟨disp, hdisp, h⟩ := bind_eq_ok.1 h
  refine hframe.forecastIntervalsFromHistory (fun c hc => hF c ?_) (fun c hc => hF c ?_) h
  · rwa [(dispatchingCurves_spec (mapError_eq_ok hdisp)).1, List.mem_reverse] at hc
  · rwa [(sellUpCurves_spec (mapError_eq_ok hsu)).1, List.mem_reverse] at hc

theorem NewQFF.forecastFamiliesFromHistory_frame {P : κ → Prop} {before : ClassStore κ ℝ} :
    ∀ (fs : List (FareFamily κ ℝ)) (i : ℕ) (f out : Forecasts κ ℝ),
      (∀ c ∈ fs.flatMap FareFamily.bookingClasses, P c) → ClassFrame P before f.classes →
      forecastFamiliesFromHistory history lWholeDCPList iCurrentDTD i fs f = .ok out →
      ClassFrame P before out.classes ∧ ∀ j, i + fs.length ≤ j → out.families j = f.families j
  | [], i, f, out, _, hframe, h => by
    obtain rfl := Except.ok.inj h
    exact ⟨hframe, fun _ _ => rfl⟩
  | F :: fs, i, f, out, hP, hframe, h => by
    rw [forecastFamiliesFromHistory, bind_eq_ok] at h
    obtain ⟨run, hrun, h⟩ := h
    have hfirst := forecastFamilyFromHistory_frame
      (fun c hc => hP c (List.mem_flatMap.2 ⟨F, List.mem_cons_self, hc⟩)) hframe hrun
    have hrest := forecastFamiliesFromHistory_frame fs (i + 1) _ out
      (fun c hc => hP c (by rw [List.flatMap_cons]; exact List.mem_append_right _ hc)) hfirst h
    refine ⟨hrest.1, fun j hj => ?_⟩
    rw [List.length_cons] at hj
    rw [hrest.2 j (by omega)]
    exact Function.update_of_ne (by omega) _ _

/-! ### The class lists of the policies -/

section policies
variable {api : PolicyApi κ} {yield : κ → ℝ} {disutilityCurve : κ → Curve ℝ} {su : List (κ × Curve ℝ)}

theorem transferLoop_bookingClasses {iCurrentDCP : DTD} {iMean lSUToLowestClass : ℝ} :
    ∀ (lHigherBCs : List κ) (lCurrentBC : κ) (p p' : Policy κ ℝ),
      OldQFF.transferLoop api yield disutilityCurve iCurrentDCP iMean su lSUToLowestClass lCurrentBC lHigherBCs p =
        .ok p' → p'.bookingClasses = p.bookingClasses
  | [], _, p, p', h => by
    obtain rfl := Except.ok.inj h
    rfl
  | lNextBC :: lHigherBCs, lCurrentBC, p, p', h => by
    rw [OldQFF.transferLoop] at h
    split at h
    · cases h
    · split at h
      · cases h
      · split at h
        · rw [transferLoop_bookingClasses lHigherBCs lNextBC _ p' h, api.addYieldDemand_bookingClasses,
            api.addYieldDemand_bookingClasses]
        · cases h

theorem oldQFF_dispatch_bookingClasses {iCurrentDCP : DTD} {iMean iStdDev : ℝ} {p p' : Policy κ ℝ}
    (h : OldQFF.dispatchDemandForecastToPolicy api yield disutilityCurve p iCurrentDCP iMean iStdDev su = .ok p') :
    p'.bookingClasses = p.bookingClasses := by
  unfold OldQFF.dispatchDemandForecastToPolicy at h
  split at h
  · obtain rfl := Except.ok.inj h
    rfl
  · split at h
    · cases h
    · rw [transferLoop_bookingClasses _ _ _ _ h, api.addYieldDemand_bookingClasses]

theorem oldQFF_forecastInterval_bookingClasses {estimate : DTD → DTD → Except ForecasterFault (ℝ × ℝ)} {iCurrentDTD : DTD}
    {run run' : FamilyForecast ℝ × List (Policy κ ℝ)} {interval : DTD × DTD}
    (h : OldQFF.forecastInterval api yield disutilityCurve estimate su iCurrentDTD run interval = .ok run') :
    run'.2.map Policy.bookingClasses = run.2.map Policy.bookingClasses := by
  unfold OldQFF.forecastInterval at h
  simp only at h
  split at h
  · obtain ⟨⟨lMean, lStdDev⟩, -, h⟩ := bind_eq_ok.1 h
    obtain ⟨policies, hpolicies, h⟩ := bind_eq_ok.1 h
    obtain rfl := Except.ok.inj h
    have hall := (mapM_ok hpolicies).imp fun p p' hp => (oldQFF_dispatch_bookingClasses hp).symm
    exact (List.forall₂_eq_eq_eq ▸ (List.forall₂_map_left_iff.2 (List.forall₂_map_right_iff.2 hall))).symm
  · obtain rfl := Except.ok.inj h
    rfl

theorem OldQFF.forecast_frame {estimate : List (κ × Curve ℝ) → DTD → DTD → Except ForecasterFault (ℝ × ℝ)}
    {st out : CabinState κ} (h : OldQFF.forecast api cabin estimate lWholeDCPList iCurrentDTD st = .ok out) :
    SameInputs cabin st out := by
  unfold OldQFF.forecast at h
  split at h
  · cases h
  · rename_i lFF hlast
    obtain ⟨su, -, h⟩ := bind_eq_ok.1 h
    obtain ⟨run, hrun, h⟩ := bind_eq_ok.1 h
    obtain rfl := Except.ok.inj h
    refine ⟨.refl _ _, fun i hi => update_family hlast _ _ hi, ?_⟩
    refine foldlM_inv (fun run => run.2.map Policy.bookingClasses = st.policies.map Policy.bookingClasses)
      (fun _ _ _ _ hc hstep => (oldQFF_forecastInterval_bookingClasses hstep).trans hc) ?_ hrun
    rw [List.map_map]
    exact List.map_congr_left fun p _ => api.reset_bookingClasses p

theorem NewQFF.forecastFromHistory_frame {st out : CabinState κ}
    (h : NewQFF.forecastFromHistory cabin history lWholeDCPList iCurrentDTD api st = .ok out) :
    SameInputs cabin st out := by
  obtain ⟨f, hf, h⟩ := bind_eq_ok.1 h
  obtain rfl := Except.ok.inj h
  have hframe := NewQFF.forecastFamiliesFromHistory_frame cabin.fareFamilies 0 st.forecasts f
    (fun c hc => .inr hc) (ClassFrame.refl cabin.Has st.forecasts.classes) hf
  refine ⟨hframe.1, fun i hi => hframe.2 i (by omega), ?_⟩
  simp only [NewQFF.dispatchDemandForecastToPolicies, List.map_map]
  exact List.map_congr_left fun p _ => newQFF_policy.1

end policies

/-- **A forecast changes nothing but forecasts.** -/
theorem forecast_sameInputs {env : ForecastEnv κ} {iEventDate : Date} {iUnconstrainingMethod : UnconstrainingMethod}
    {iForecastingMethod : ForecastingMethod} {st : CabinState κ} {result : Bool × CabinState κ}
    (h : Forecaster.forecast env cabin iEventDate iUnconstrainingMethod iForecastingMethod st = .ok result) :
    SameInputs cabin st result.2 := by
  have hreset : SameInputs cabin st ⟨Forecaster.setDemandForecastsToZero cabin st.forecasts, st.policies⟩ := by
    refine ⟨.reset st.forecasts, fun i hi => ?_, rfl⟩
    simp only [Forecaster.setDemandForecastsToZero, if_neg (not_lt.2 hi)]
  have hforecasts : ∀ {f : Forecasts κ ℝ},
      ForecastsFrame cabin (Forecaster.setDemandForecastsToZero cabin st.forecasts) f →
        SameInputs cabin st ⟨f, st.policies⟩ := fun hf => hreset.trans ⟨hf.classes, hf.otherFamilies, rfl⟩
  unfold Forecaster.forecast at h
  simp only at h
  split at h
  · obtain rfl := Except.ok.inj h
    exact .refl cabin st
  · cases iForecastingMethod with
    | qForecasting =>
      obtain ⟨f, hf, h⟩ := bind_eq_ok.1 h
      obtain rfl := Except.ok.inj h
      exact hforecasts (QForecasting.forecastFromHistory_frame hf)
    | hybridForecasting =>
      obtain ⟨f, hf, h⟩ := bind_eq_ok.1 h
      obtain rfl := Except.ok.inj h
      exact hforecasts (HybridForecasting.forecast_frame hf)
    | newQFF =>
      simp only at h
      split at h
      · obtain ⟨f, hf, h⟩ := bind_eq_ok.1 h
        obtain rfl := Except.ok.inj h
        exact hforecasts (HybridForecasting.forecast_frame hf)
      · obtain ⟨st', hst', h⟩ := bind_eq_ok.1 h
        obtain rfl := Except.ok.inj h
        exact hreset.trans (NewQFF.forecastFromHistory_frame hst')
    | oldQFF =>
      simp only at h
      split at h
      · obtain ⟨f, hf, h⟩ := bind_eq_ok.1 h
        obtain rfl := Except.ok.inj h
        exact hforecasts (HybridForecasting.forecast_frame hf)
      · obtain ⟨st', hst', h⟩ := bind_eq_ok.1 h
        obtain rfl := Except.ok.inj h
        exact hreset.trans (OldQFF.forecast_frame hst')
    | basedForecasting =>
      obtain ⟨f, hf, h⟩ := bind_eq_ok.1 h
      obtain rfl := Except.ok.inj h
      exact hforecasts (BasedForecasting.forecast_frame hf)
    | other => cases h

/-- Forecasts of the cabin one after another, each on its event date and by its methods. -/
noncomputable def forecastAll (env : ForecastEnv κ) (cabin : ForecastCabin κ)
    (requests : List (Date × UnconstrainingMethod × ForecastingMethod)) (st : CabinState κ) :
    Except ForecasterFault (CabinState κ) :=
  requests.foldlM (fun st request =>
    (Forecaster.forecast env cabin request.1 request.2.1 request.2.2 st).map Prod.snd) st

theorem forecastAll_sameInputs {env : ForecastEnv κ} {requests : List (Date × UnconstrainingMethod × ForecastingMethod)}
    {st out : CabinState κ} (h : forecastAll env cabin requests st = .ok out) : SameInputs cabin st out := by
  refine foldlM_inv (SameInputs cabin st) (fun request _ st₁ st₂ hst hstep => hst.trans ?_) (.refl cabin st) h
  cases hrun : Forecaster.forecast env cabin request.1 request.2.1 request.2.2 st₁ with
  | error e =>
    rw [hrun] at hstep
    cases hstep
  | ok result =>
    rw [hrun] at hstep
    obtain rfl := Except.ok.inj hstep
    exact forecast_sameInputs hrun

/-- **A forecast does not depend on earlier forecasts**: whatever forecasts two states with the same inputs have been
through, the next one ends in the same forecasts of all classes and fare families, and, if it forecasts the policies,
in the same policies. -/
theorem forecast_forgets_earlier {env : ForecastEnv κ} (hmap : ∀ p, (env.api.resetDemandForecast p).yieldDemandMap = [])
    (hcover : ∀ c ∈ cabin.bookingClasses, c ∈ cabin.fareFamilies.flatMap FareFamily.bookingClasses) {iEventDate : Date}
    (hdeparted : 2 ≤ getNbOfDepartedSimilarSegments env.toDTD cabin.snapshots.boardingDates iEventDate)
    (iUnconstrainingMethod : UnconstrainingMethod) (iForecastingMethod : ForecastingMethod) {st st' : CabinState κ}
    (h : SameInputs cabin st st') {earlier earlier' : List (Date × UnconstrainingMethod × ForecastingMethod)}
    {left left' : CabinState κ} (hleft : forecastAll env cabin earlier st = .ok left)
    (hleft' : forecastAll env cabin earlier' st' = .ok left') :
    forecastsOf (Forecaster.forecast env cabin iEventDate iUnconstrainingMethod iForecastingMethod left') =
        forecastsOf (Forecaster.forecast env cabin iEventDate iUnconstrainingMethod iForecastingMethod left) ∧
      (iForecastingMethod = .newQFF ∨ iForecastingMethod = .oldQFF → cabin.fareFamilyStatus = true →
        Forecaster.forecast env cabin iEventDate iUnconstrainingMethod iForecastingMethod left' =
          Forecaster.forecast env cabin iEventDate iUnconstrainingMethod iForecastingMethod left) :=
  forecast_eq_of_sameInputs hmap hcover hdeparted iUnconstrainingMethod iForecastingMethod
    (((forecastAll_sameInputs hleft).symm.trans h).trans (forecastAll_sameInputs hleft'))

end cabin

/-! ### Two departed segments -/

/-- The cabin of `twoClassForecastCabin` a week before departure, with two departed segments. -/
def departedCabin : ForecastCabin ℕ :=
  { twoClassForecastCabin with
    boardingDate := 9
    snapshots := { emptySnapshots with boardingDates := [0, 1] } }

noncomputable def departedEnv : ForecastEnv ℕ := ⟨mapPolicyApi ℕ, id, [7, 0], 1⟩

/-- `twoClassState` with what a forecast may have left in class 1. -/
noncomputable def forecastState : CabinState ℕ where
  forecasts :=
    { twoClassState.forecasts with
      classes := twoClassState.forecasts.classes.modify 1 (DemandKind.price.set 1 1) }
  policies := twoClassState.policies

theorem forecast_forgets_earlier_departed :
    Forecaster.forecast departedEnv departedCabin 2 .EM .newQFF forecastState =
      Forecaster.forecast departedEnv departedCabin 2 .EM .newQFF twoClassState := by
  have hsame : SameInputs departedCabin twoClassState forecastState :=
    ⟨(ClassFrame.refl departedCabin.Has twoClassState.forecasts.classes).modify
      (.inl (by simp [departedCabin, twoClassForecastCabin])) fun b => rfl, fun i _ => rfl, rfl⟩
  have htooEarly : forecastAll departedEnv departedCabin [(0, .EM, .oldQFF)] twoClassState = .ok twoClassState := rfl
  have hnone : forecastAll departedEnv departedCabin [] forecastState = .ok forecastState := rfl
  exact (forecast_forgets_earlier mapPolicyApi_addsToEntry.reset_yieldDemandMap
    (by simp [departedCabin, twoClassForecastCabin]) (by decide) .EM .newQFF hsame htooEarly hnone).2 (.inl rfl) rfl

end Rmol
