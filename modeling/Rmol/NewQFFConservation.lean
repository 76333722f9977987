import Rmol.NewQFF
import Rmol.QForecasting
/-!
# What `NewQFF::forecast` does to one fare family (`NewQFF.cpp:65-158`)

At each interval the family gets the whole forecast, every class its share by the dispatching factor
(the price-oriented attributes) and its share by the sell-up factor (the cumulative ones). The sell-up
factor of the lowest class is one, so its cumulative demand is the forecast of the family: with the
relation between cumulative and plain demand this is the sum over all classes.
-/

namespace Rmol

variable {κ : Type*} [DecidableEq κ]

section family
variable {estimate : DTD → DTD → ℝ × ℝ} {lWholeDCPList : List DTD} {iCurrentDTD : DTD} {F : FareFamily κ ℝ}
  {iDispatchingMap iFAMap : List (κ × Curve ℝ)} {run run' : ClassStore κ ℝ × FamilyForecast ℝ}

/-- What some intervals add to a fare family. -/
structure FamilyAdded (estimate : DTD → DTD → ℝ × ℝ) (ps : List (DTD × DTD)) (f f' : FamilyForecast ℝ) : Prop where
  mean : f'.mean = f.mean + (ps.map fun p => (estimate p.1 p.2).1).sum
  variance : f'.stdDev ^ 2 = f.stdDev ^ 2 + (ps.map fun p => (estimate p.1 p.2).2 ^ 2).sum

theorem FamilyAdded.append {ps qs : List (DTD × DTD)} {f f' f'' : FamilyForecast ℝ}
    (h : FamilyAdded estimate ps f f') (h' : FamilyAdded estimate qs f' f'') :
    FamilyAdded estimate (ps ++ qs) f f'' := by
  refine ⟨?_, ?_⟩
  · rw [h'.mean, h.mean, List.map_append, List.sum_append, add_assoc]
  · rw [h'.variance, h.variance, List.map_append, List.sum_append, add_assoc]

theorem forecastInterval_family {p : DTD × DTD}
    (h : forecastInterval iDispatchingMap iFAMap estimate iCurrentDTD run p = .ok run') :
    FamilyAdded estimate (if p.2 < iCurrentDTD then [p] else []) run.2 run'.2 := by
  simp only [forecastInterval] at h
  by_cases hlt : p.2 < iCurrentDTD
  · rw [if_pos hlt] at h ⊢
    obtain ⟨_, -, h⟩ := bind_eq_ok.1 h
    obtain ⟨_, -, h⟩ := bind_eq_ok.1 h
    obtain rfl := Except.ok.inj h
    refine ⟨by simp, ?_⟩
    rw [Real.sq_sqrt (add_nonneg (mul_self_nonneg _) (mul_self_nonneg _))]
    simp [sq]
  · rw [if_neg hlt] at h ⊢
    obtain rfl := Except.ok.inj h
    exact ⟨by simp, by simp⟩

/-- **The family of a DCP loop** gets the whole forecast of every interval that is not skipped. -/
theorem forecastLoop_family (ps : List (DTD × DTD))
    (h : ps.foldlM (forecastInterval iDispatchingMap iFAMap estimate iCurrentDTD) run = .ok run') :
    FamilyAdded estimate (ps.filter fun p => p.2 < iCurrentDTD) run.2 run'.2 := by
  induction ps generalizing run with
  | nil =>
    obtain rfl := Except.ok.inj h
    exact ⟨by simp, by simp⟩
  | cons p ps ih =>
    rw [List.foldlM_cons, bind_eq_ok] at h
    obtain ⟨run₁, h₁, h₂⟩ := h
    have happ := (forecastInterval_family h₁).append (ih h₂)
    rw [List.filter_cons]
    by_cases hlt : p.2 < iCurrentDTD <;> simpa [hlt] using happ

/-- **A fare family that starts without demand**: after the forecast the price-oriented means of its
classes add up to the mean of the family, their variances to the variance of the family, and the
cumulative demand of each class is the demand at or above it. -/
theorem forecastFamily_conserves
    (hdec : F.bookingClasses.Pairwise fun a b => (run.1 b).yield < (run.1 a).yield)
    (hpos : ∀ c ∈ F.bookingClasses, 0 < (run.1 c).yield) (hfrat : ∀ d f, F.frat5Curve d = some f → 1 < f)
    (hclasses : ∀ c ∈ F.bookingClasses, ∀ k : DemandKind, k.mean (run.1 c) = 0 ∧ k.stdDev (run.1 c) = 0)
    (hfamily : run.2 = ⟨0, 0⟩)
    (h : NewQFF.forecastFamily estimate lWholeDCPList iCurrentDTD F run = .ok run') :
    (F.bookingClasses.map fun c => (run'.1 c).priceDemMean).sum = run'.2.mean ∧
      (F.bookingClasses.map fun c => (run'.1 c).priceDemStdDev ^ 2).sum = run'.2.stdDev ^ 2 ∧
      CumulativeDemand F.bookingClasses run'.1 := by
  obtain ⟨su, hsu, h⟩ := bind_eq_ok.1 h
  obtain ⟨disp, hdisp, h⟩ := bind_eq_ok.1 h
  have hdispKeys := (dispatchingCurves_spec hdisp).1
  obtain ⟨hsuKeys, hnodup, hsuDays, lowest, hlow, hsuCurve⟩ := sellUpCurves_spec hsu
  have hspec := forecastIntervals_spec (by rwa [hdispKeys, List.nodup_reverse])
    (by rwa [hsuKeys, List.nodup_reverse]) h
  have hadded : FamilyAdded estimate (remaining lWholeDCPList iCurrentDTD) run.2 run'.2 := forecastLoop_family _ h
  have hcumu := cumulative_of_sellUp hdisp hsu hfrat hdec hpos hclasses hspec
  -- the sell-up factor of the lowest class is one, so its cumulative demand is the whole forecast
  obtain ⟨higher, hl⟩ := List.getLast?_eq_some_iff.1 hlow
  have hlowest : lowest ∈ F.bookingClasses := List.mem_of_getLast? hlow
  have hqpos := hpos lowest hlowest
  obtain ⟨pre, curve, suf, hsplit, -⟩ := curves_split hsuKeys hl
  have hmem : (lowest, curve) ∈ su := by simp [hsplit]
  have hreceived := hspec.received .cumuPrice lowest curve hmem
  have hone : ∀ p ∈ remaining lWholeDCPList iCurrentDTD, (curve p.1).getD 0 = 1 := by
    intro p hp
    have hday := hreceived.days p hp
    obtain rfl := hsuCurve hqpos lowest curve hmem
    cases hF : F.frat5Curve p.1 with
    | none => simp [overFRAT5, hF] at hday
    | some f => simp [overFRAT5, hF, hqpos]
  obtain ⟨hshareMean, hshareVariance⟩ := hreceived.shares (hclasses lowest hlowest .cumuPrice)
  have hmean : (run'.1 lowest).cumuPriceDemMean = run'.2.mean := by
    rw [hadded.mean, hfamily, zero_add]
    refine hshareMean.trans (congrArg List.sum (List.map_congr_left fun p hp => ?_))
    rw [hone p hp, mul_one]
  have hvariance : (run'.1 lowest).cumuPriceDemStdDev ^ 2 = run'.2.stdDev ^ 2 := by
    rw [hadded.variance, hfamily, zero_pow two_ne_zero, zero_add]
    refine hshareVariance.trans (congrArg List.sum (List.map_congr_left fun p hp => ?_))
    rw [hone p hp, Real.sqrt_one, mul_one]
  obtain ⟨hsumMean, hsumVariance⟩ := hcumu higher lowest [] hl
  refine ⟨?_, ?_, hcumu⟩
  · rw [hl, ← hsumMean, hmean]
  · rw [hl, ← hsumVariance, hvariance]

end family

/-! ### One family of two classes -/

def twoClassFamily : FareFamily ℕ ℝ := ⟨[1, 2], fun _ => some (2 : ℕ)⟩

theorem forecastFamily_conserves_twoClass : ∃ run', NewQFF.forecastFamily (fun _ _ => (1, 1)) [1, 0] 2 twoClassFamily
      ((setDemandForecastsToZero twoClassCabin twoClassForecasts).classes, ⟨0, 0⟩) = .ok run' ∧
    (twoClassFamily.bookingClasses.map fun c => (run'.1 c).priceDemMean).sum = run'.2.mean ∧
      (twoClassFamily.bookingClasses.map fun c => (run'.1 c).priceDemStdDev ^ 2).sum = run'.2.stdDev ^ 2 ∧
      CumulativeDemand twoClassFamily.bookingClasses run'.1 := by
  have hzero : ∀ c ∈ twoClassFamily.bookingClasses, (setDemandForecastsToZero twoClassCabin
      twoClassForecasts).classes c = (twoClassForecasts.classes c).withoutDemand :=
    fun c hc => setDemandForecastsToZero_classes _ hc
  obtain ⟨run', hrun⟩ := NewQFF.forecastFamily_ok (fun _ _ => (1, 1)) [1, 0] 2
    ((setDemandForecastsToZero twoClassCabin twoClassForecasts).classes, ⟨0, 0⟩)
    (show twoClassFamily.bookingClasses ≠ [] by simp [twoClassFamily]) (by simp [twoClassFamily]) fun _ => rfl
  refine ⟨run', hrun, forecastFamily_conserves ?_ ?_ ?_ ?_ rfl hrun⟩
  · have h1 := hzero 1 (by simp [twoClassFamily])
    have h2 := hzero 2 (by simp [twoClassFamily])
    simp only [twoClassFamily, List.pairwise_pair, h1, h2]
    norm_num [BookingClass.withoutDemand, twoClassForecasts]
  · intro c hc
    simp only
    rw [hzero c hc]
    simp only [BookingClass.withoutDemand, twoClassForecasts]
    split <;> norm_num
  · intro d f hf
    obtain rfl : ((2 : ℕ) : ℝ) = f := Option.some.inj hf
    norm_num
  · intro c hc k
    simp only
    rw [hzero c hc]
    cases k <;> exact ⟨rfl, rfl⟩

end Rmol
