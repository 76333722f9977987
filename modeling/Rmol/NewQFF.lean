import Rmol.Dispatching
/-!
# `NewQFF`: Q-forecasting per fare family, and the demand of the policies (`NewQFF.cpp`)

| here | there |
| --- | --- |
| `NewQFF.forecastFamily`                   | `forecast (FareFamily&, ..)` (`NewQFF.cpp:65`) |
| `NewQFF.forecastFamilies`                 | the loop over the fare families (`:43`) |
| `NewQFF.dispatchDemandForecastToPolicy`   | `:263` |
| `NewQFF.dispatchDemandForecastToPolicies` | `:248` |
| `NewQFF.forecast`                         | `forecast (SegmentCabin&, ..)` (`:31`) |

The functions of `stdair::Policy` that reset the demand of a policy and that keep its yield-demand
map are parameters (`PolicyApi`), with what they say about the other attributes as fields.

`forecastFamilies_spec` says what every class receives: in its own fare family its share by the
sell-up factor. `newQFF_policy` carries this on to the policies.
-/

namespace Rmol

variable {κ : Type*} [DecidableEq κ]

/-- `stdair::Policy`: the reset of a policy and its yield-demand map. -/
structure PolicyApi (κ : Type*) where
  resetDemandForecast : Policy κ ℝ → Policy κ ℝ
  addYieldDemand : Policy κ ℝ → ℝ → ℝ → Policy κ ℝ
  getTotalRevenue : Policy κ ℝ → ℝ
  reset_bookingClasses : ∀ p, (resetDemandForecast p).bookingClasses = p.bookingClasses
  reset_demand : ∀ p, (resetDemandForecast p).demand = 0
  reset_stdDev : ∀ p, (resetDemandForecast p).stdDev = 0
  addYieldDemand_bookingClasses : ∀ p y d, (addYieldDemand p y d).bookingClasses = p.bookingClasses

/-! ## The model -/

namespace NewQFF

/-- `estimate` is what the historical bookings of an interval are unconstrained to. -/
noncomputable def forecastFamily (estimate : DTD → DTD → ℝ × ℝ) (lWholeDCPList : List DTD) (iCurrentDTD : DTD)
    (ioFareFamily : FareFamily κ ℝ) (run : ClassStore κ ℝ × FamilyForecast ℝ) :
    Except ForecastFault (ClassStore κ ℝ × FamilyForecast ℝ) := do
  let yield := fun lBC => (run.1 lBC).yield
  let lBCSellUpCurveMap ← computeSellUpFactorCurves yield ioFareFamily.frat5Curve ioFareFamily.bookingClasses
  let lBCDispatchingCurveMap ←
    computeDispatchingFactorCurves yield ioFareFamily.frat5Curve ioFareFamily.bookingClasses
  forecastIntervals lBCDispatchingCurveMap lBCSellUpCurveMap estimate lWholeDCPList iCurrentDTD run

/-- The families from position `i` on. -/
noncomputable def forecastFamilies (estimate : ℕ → DTD → DTD → ℝ × ℝ) (lWholeDCPList : List DTD)
    (iCurrentDTD : DTD) : ℕ → List (FareFamily κ ℝ) → Forecasts κ ℝ → Except ForecastFault (Forecasts κ ℝ)
  | _, [], f => return f
  | i, lFF :: lFFList, f => do
    let run ← forecastFamily (estimate i) lWholeDCPList iCurrentDTD lFF (f.classes, f.families i)
    forecastFamilies estimate lWholeDCPList iCurrentDTD (i + 1) lFFList
      ⟨run.1, Function.update f.families i run.2⟩

section policy
variable (classes : ClassStore κ ℝ)

def newPolicyDemand (lBCList : List κ) (lPolicyDemand : ℝ) : ℝ :=
  lBCList.foldl (fun lNewPolicyDemand lBC => lNewPolicyDemand + (classes lBC).cumuPriceDemMean) lPolicyDemand

noncomputable def newPolicyStdDev (lBCList : List κ) (lPolicyStdDev : ℝ) : ℝ :=
  lBCList.foldl (fun lNewPolicyStdDev lBC => √(lNewPolicyStdDev * lNewPolicyStdDev +
    (classes lBC).cumuPriceDemStdDev * (classes lBC).cumuPriceDemStdDev)) lPolicyStdDev

omit [DecidableEq κ] in
theorem newPolicyStdDev_nonneg : ∀ (l : List κ) (s : ℝ), 0 ≤ s → 0 ≤ newPolicyStdDev classes l s
  | [], _, h => h
  | _ :: l, _, _ => newPolicyStdDev_nonneg l _ (Real.sqrt_nonneg _)

/-- The policy gets the cumulative price-oriented forecasts of its classes. -/
noncomputable def dispatchDemandForecastToPolicy (api : PolicyApi κ) (ioPolicy : Policy κ ℝ) : Policy κ ℝ :=
  let lPolicy := api.resetDemandForecast ioPolicy
  let lBCList := lPolicy.bookingClasses
  if lBCList = [] then lPolicy
  else
    { lBCList.foldl (fun p lBC =>
        api.addYieldDemand p (classes lBC).yield (classes lBC).cumuPriceDemMean) lPolicy with
      demand := newPolicyDemand classes lBCList lPolicy.demand
      stdDev := newPolicyStdDev classes lBCList lPolicy.stdDev
      stdDev_nonneg := newPolicyStdDev_nonneg classes lBCList _ lPolicy.stdDev_nonneg }

noncomputable def dispatchDemandForecastToPolicies (api : PolicyApi κ) (lPolicyList : List (Policy κ ℝ)) :
    List (Policy κ ℝ) :=
  lPolicyList.map (dispatchDemandForecastToPolicy classes api)

end policy

noncomputable def forecast (api : PolicyApi κ) (cabin : SegmentCabin κ ℝ) (estimate : ℕ → DTD → DTD → ℝ × ℝ)
    (lWholeDCPList : List DTD) (iCurrentDTD : DTD) (f : Forecasts κ ℝ) (lPolicyList : List (Policy κ ℝ)) :
    Except ForecastFault (Forecasts κ ℝ × List (Policy κ ℝ)) := do
  let f ← forecastFamilies estimate lWholeDCPList iCurrentDTD 0 cabin.fareFamilies f
  return (f, dispatchDemandForecastToPolicies f.classes api lPolicyList)

end NewQFF

/-! ## What the classes receive -/

section classes
variable {estimate : ℕ → DTD → DTD → ℝ × ℝ} {lWholeDCPList : List DTD} {iCurrentDTD : DTD}
  {est : DTD → DTD → ℝ × ℝ} {ps : List (DTD × DTD)} {F : FareFamily κ ℝ} {before between after : ClassStore κ ℝ}

/-- The forecasts of two states of a class are the same. -/
def SameDemand (b b' : BookingClass ℝ) : Prop :=
  b'.yield = b.yield ∧ ∀ k : DemandKind, k.mean b' = k.mean b ∧ k.stdDev b' = k.stdDev b

theorem SameDemand.trans {b b' b'' : BookingClass ℝ} (h : SameDemand b b') (h' : SameDemand b' b'') :
    SameDemand b b'' :=
  ⟨h'.1.trans h.1, fun k => ⟨(h'.2 k).1.trans (h.2 k).1, (h'.2 k).2.trans (h.2 k).2⟩⟩

theorem Received.congr {k : DemandKind} {curve : Curve ℝ} {b₀ b b' b₁ : BookingClass ℝ} (h₀ : SameDemand b₀ b)
    (h : Received k est curve ps b b') (h₁ : SameDemand b' b₁) : Received k est curve ps b₀ b₁ :=
  ⟨h.days, by rw [(h₁.2 k).1, h.mean, (h₀.2 k).1], by rw [(h₁.2 k).2, h.variance, (h₀.2 k).2]⟩

/-- The classes of a family have received the forecasts of the family, by its curves. -/
def FamilyReceived (est : DTD → DTD → ℝ × ℝ) (ps : List (DTD × DTD)) (F : FareFamily κ ℝ) (yield : κ → ℝ)
    (before after : ClassStore κ ℝ) : Prop :=
  ∃ disp su, computeDispatchingFactorCurves yield F.frat5Curve F.bookingClasses = .ok disp ∧
    computeSellUpFactorCurves yield F.frat5Curve F.bookingClasses = .ok su ∧
    ∀ k c curve, (c, curve) ∈ curvesOf disp su k → Received k est curve ps (before c) (after c)

theorem FamilyReceived.congr {yield : κ → ℝ} {before' after' : ClassStore κ ℝ}
    (h : FamilyReceived est ps F yield before after)
    (h₀ : ∀ c ∈ F.bookingClasses, SameDemand (before' c) (before c))
    (h₁ : ∀ c ∈ F.bookingClasses, SameDemand (after c) (after' c)) :
    FamilyReceived est ps F yield before' after' := by
  obtain ⟨disp, su, hdisp, hsu, hrec⟩ := h
  have hmem : ∀ k c curve, (c, curve) ∈ curvesOf disp su k → c ∈ F.bookingClasses := by
    intro k c curve hc
    rw [← List.mem_reverse]
    cases k
    · rw [← (dispatchingCurves_spec hdisp).1]; exact List.mem_map_of_mem (f := Prod.fst) hc
    · rw [← (sellUpCurves_spec hsu).1]; exact List.mem_map_of_mem (f := Prod.fst) hc
  exact ⟨disp, su, hdisp, hsu, fun k c curve hc =>
    (hrec k c curve hc).congr (h₀ c (hmem k c curve hc)) (h₁ c (hmem k c curve hc))⟩

theorem NewQFF.forecastFamily_spec {run run' : ClassStore κ ℝ × FamilyForecast ℝ}
    (h : forecastFamily est lWholeDCPList iCurrentDTD F run = .ok run') :
    FamilyReceived est (remaining lWholeDCPList iCurrentDTD) F (fun c => (run.1 c).yield) run.1 run'.1 ∧
      (∀ c, (run'.1 c).yield = (run.1 c).yield) ∧
      ∀ c, c ∉ F.bookingClasses → SameDemand (run.1 c) (run'.1 c) := by
  obtain ⟨su, hsu, h⟩ := bind_eq_ok.1 h
  obtain ⟨disp, hdisp, h⟩ := bind_eq_ok.1 h
  obtain ⟨hdispKeys, hnodup, -⟩ := dispatchingCurves_spec hdisp
  have hsuKeys := (sellUpCurves_spec hsu).1
  have hspec := forecastIntervals_spec (by rwa [hdispKeys, List.nodup_reverse])
    (by rwa [hsuKeys, List.nodup_reverse]) h
  refine ⟨⟨disp, su, hdisp, hsu, hspec.received⟩, hspec.yield, fun c hc => ⟨hspec.yield c, fun k => ?_⟩⟩
  refine hspec.other k c ?_
  cases k
  · rwa [curvesOf, hdispKeys, List.mem_reverse]
  · rwa [curvesOf, hsuKeys, List.mem_reverse]

/-- **The fare families one after another**: the classes of each receive the forecasts of their own
family, no other class changes. -/
theorem NewQFF.forecastFamilies_spec : ∀ (fs : List (FareFamily κ ℝ)) (i : ℕ) (f out : Forecasts κ ℝ),
    (fs.flatMap FareFamily.bookingClasses).Nodup →
    forecastFamilies estimate lWholeDCPList iCurrentDTD i fs f = .ok out →
    (∀ j F, fs[j]? = some F → FamilyReceived (estimate (i + j)) (remaining lWholeDCPList iCurrentDTD) F
      (fun c => (f.classes c).yield) f.classes out.classes) ∧
    (∀ c, (out.classes c).yield = (f.classes c).yield) ∧
    ∀ c, c ∉ fs.flatMap FareFamily.bookingClasses → SameDemand (f.classes c) (out.classes c)
  | [], i, f, out, _, h => by
    obtain rfl := Except.ok.inj h
    exact ⟨by simp, fun _ => rfl, fun _ _ => ⟨rfl, fun _ => ⟨rfl, rfl⟩⟩⟩
  | F₀ :: fs, i, f, out, hn, h => by
    rw [forecastFamilies, bind_eq_ok] at h
    obtain ⟨run, hrun, h⟩ := h
    rw [List.flatMap_cons, List.nodup_append] at hn
    obtain ⟨-, hrest, hdisj⟩ := hn
    obtain ⟨hfirst, hyield, hother⟩ := forecastFamily_spec hrun
    obtain ⟨hfamilies, hyield', hother'⟩ := forecastFamilies_spec fs (i + 1) _ out hrest h
    have hsame : (fun c => (run.1 c).yield) = fun c => (f.classes c).yield := funext hyield
    refine ⟨fun j F hj => ?_, fun c => (hyield' c).trans (hyield c), fun c hc => ?_⟩
    · cases j with
      | zero =>
        obtain rfl : F₀ = F := by simpa using hj
        refine hfirst.congr (fun c _ => ⟨rfl, fun _ => ⟨rfl, rfl⟩⟩) fun c hc => hother' c fun hcr => ?_
        exact hdisj c hc c hcr rfl
      | succ j =>
        have hF : fs[j]? = some F := by simpa using hj
        have hFr := hfamilies j F hF
        rw [hsame, Nat.add_assoc, Nat.add_comm 1 j] at hFr
        refine hFr.congr (fun c hc => hother c fun hc₀ => ?_) fun _ _ => ⟨rfl, fun _ => ⟨rfl, rfl⟩⟩
        exact hdisj c hc₀ c (List.mem_flatMap.2 ⟨F, List.mem_of_getElem? hF, hc⟩) rfl
    · rw [List.flatMap_cons, List.mem_append, not_or] at hc
      exact (hother c hc.1).trans (hother' c hc.2)

/-- A family with classes is forecast without a fault if its FRAT5 curve has every day. -/
theorem NewQFF.forecastFamily_ok (est : DTD → DTD → ℝ × ℝ) (lWholeDCPList : List DTD) (iCurrentDTD : DTD)
    (run : ClassStore κ ℝ × FamilyForecast ℝ) (hne : F.bookingClasses ≠ []) (hn : F.bookingClasses.Nodup)
    (hdays : ∀ d, (F.frat5Curve d).isSome) :
    ∃ run', forecastFamily est lWholeDCPList iCurrentDTD F run = .ok run' := by
  obtain ⟨disp, su, hdisp, hsu⟩ := curves_ok (fun c => (run.1 c).yield) F.frat5Curve hne hn
  obtain ⟨-, -, hdispDays, -⟩ := dispatchingCurves_spec hdisp
  obtain ⟨-, -, hsuDays, -⟩ := sellUpCurves_spec hsu
  obtain ⟨run', hrun⟩ := forecastLoop_ok disp su est iCurrentDTD (intervals lWholeDCPList) run
    fun p _ entry he => (List.mem_append.1 he).elim
      (fun he => by rw [hdispDays entry he]; exact hdays p.1)
      fun he => by rw [hsuDays entry he]; exact hdays p.1
  refine ⟨run', ?_⟩
  simp only [forecastFamily, hsu, hdisp, ok_bind, forecastIntervals, hrun]

/-- The forecast succeeds if every family has classes and every FRAT5 curve has every day. -/
theorem NewQFF.forecastFamilies_ok : ∀ (fs : List (FareFamily κ ℝ)) (i : ℕ) (f : Forecasts κ ℝ),
    (∀ F ∈ fs, F.bookingClasses ≠ [] ∧ F.bookingClasses.Nodup ∧ ∀ d, (F.frat5Curve d).isSome) →
    ∃ out, forecastFamilies estimate lWholeDCPList iCurrentDTD i fs f = .ok out
  | [], _, f, _ => ⟨f, rfl⟩
  | F :: fs, i, f, h => by
    obtain ⟨hne, hn, hdays⟩ := h F List.mem_cons_self
    obtain ⟨run, hrun⟩ := forecastFamily_ok (estimate i) lWholeDCPList iCurrentDTD (f.classes, f.families i)
      hne hn hdays
    obtain ⟨out, hout⟩ := forecastFamilies_ok fs (i + 1) ⟨run.1, Function.update f.families i run.2⟩
      fun F' hF' => h F' (List.mem_cons_of_mem _ hF')
    exact ⟨out, by rw [forecastFamilies, hrun, ok_bind]; exact hout⟩

end classes

/-! ## What the policies get -/

section policies
variable {classes : ClassStore κ ℝ} {api : PolicyApi κ} {p : Policy κ ℝ}

omit [DecidableEq κ] in
theorem newPolicyDemand_eq : ∀ (l : List κ) (d : ℝ),
    NewQFF.newPolicyDemand classes l d = d + (l.map fun c => (classes c).cumuPriceDemMean).sum
  | [], d => by simp [NewQFF.newPolicyDemand]
  | c :: l, d => by
    have := newPolicyDemand_eq l (d + (classes c).cumuPriceDemMean)
    rw [List.map_cons, List.sum_cons, ← add_assoc, ← this]
    rfl

omit [DecidableEq κ] in
theorem newPolicyStdDev_sq : ∀ (l : List κ) (s : ℝ),
    NewQFF.newPolicyStdDev classes l s ^ 2 = s ^ 2 + (l.map fun c => (classes c).cumuPriceDemStdDev ^ 2).sum
  | [], s => by simp [NewQFF.newPolicyStdDev]
  | c :: l, s => by
    have := newPolicyStdDev_sq l √(s * s + (classes c).cumuPriceDemStdDev * (classes c).cumuPriceDemStdDev)
    rw [Real.sq_sqrt (add_nonneg (mul_self_nonneg _) (mul_self_nonneg _))] at this
    rw [List.map_cons, List.sum_cons, ← add_assoc, sq s, sq (classes c).cumuPriceDemStdDev, ← this]
    rfl

omit [DecidableEq κ] in
/-- **A policy after dispatching**: the same classes, their summed cumulative demand and variance. -/
theorem newQFF_policy :
    (NewQFF.dispatchDemandForecastToPolicy classes api p).bookingClasses = p.bookingClasses ∧
    (NewQFF.dispatchDemandForecastToPolicy classes api p).demand =
      (p.bookingClasses.map fun c => (classes c).cumuPriceDemMean).sum ∧
    (NewQFF.dispatchDemandForecastToPolicy classes api p).stdDev ^ 2 =
      (p.bookingClasses.map fun c => (classes c).cumuPriceDemStdDev ^ 2).sum := by
  have hfold : ∀ (l : List κ) (q : Policy κ ℝ), (l.foldl (fun p c =>
      api.addYieldDemand p (classes c).yield (classes c).cumuPriceDemMean) q).bookingClasses = q.bookingClasses := by
    intro l
    induction l with
    | nil => intro q; rfl
    | cons c l ih => intro q; rw [List.foldl_cons, ih, api.addYieldDemand_bookingClasses]
  unfold NewQFF.dispatchDemandForecastToPolicy
  simp only [api.reset_bookingClasses]
  split
  · rename_i hnil
    simp [hnil, api.reset_bookingClasses, api.reset_demand, api.reset_stdDev]
  · refine ⟨by rw [hfold, api.reset_bookingClasses], ?_, ?_⟩
    · rw [newPolicyDemand_eq, api.reset_demand, zero_add]
    · rw [newPolicyStdDev_sq, api.reset_stdDev]; simp

end policies

end Rmol
