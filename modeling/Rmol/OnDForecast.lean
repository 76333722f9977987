import Mathlib.Analysis.SpecialFunctions.Log.Basic
import Rmol.Bom
import Rmol.Lib.Increments
/-!
# The O&D forecast (`RMOL_Service.cpp:878-990`)

| here | there |
| --- | --- |
| `checkYieldOrder`        | the yield order check (`:889-905`) |
| `proportionFactor`       | `min (exp ((y - minWTP) * log (0.5) / (minWTP * (FRAT5 - 1))), 1)` (`:958-962`) |
| `proportionFactorList`   | the loop over the yield rules (`:953-966`) |
| `forecastOnD`            | `:878` |

The yield rules come highest yield first. The proportion factor of a rule is the share of the demand that is
willing to pay its yield, so it rises along the list, and a rule receives what its factor exceeds the factor of the
rule before it by. The demand that is not willing to pay the lowest yield is forecast for no class.

`ι` are the airline-class lists. The arrival pattern of `DEFAULT_DTD_PROB_MAP` and `DEFAULT_DTD_FRAT5COEF_MAP` are
parameters. A forecast is the list of the calls of `setOnDForecast`.
-/

namespace Rmol

open Increments

/-- The assertions of the O&D forecast. -/
inductive OnDForecastFault where
  /-- `assert (lAirlineClassListList.begin() != lAirlineClassListList.end())` (`:887`). -/
  | noAirlineClassList
  /-- `assert (false)` of the yield order check (`:903`). -/
  | yieldOrder
  /-- `assert (false)` of the search for the FRAT5 coefficient (`:942`). -/
  | noFrat5Coef
deriving DecidableEq, Repr

/-- `OnDDate::getTotalForecast` of a cabin. -/
structure TotalForecast where
  minWTP : ℝ
  meanValue : ℝ
  stdDevValue : ℝ

/-- A call of `setOnDForecast`. -/
structure OnDForecastCall (ι : Type) where
  airlineClassList : ι
  meanValue : ℝ
  stdDevValue : ℝ

variable {ι : Type}

section model
variable (getYield : ι → ℝ)

noncomputable def checkYieldOrder : ℝ → List ι → Except OnDForecastFault Unit
  | _, [] => .ok ()
  | lPreviousYield, lAirlineClassList :: lAirlineClassListList =>
    if getYield lAirlineClassList ≤ lPreviousYield then
      checkYieldOrder (getYield lAirlineClassList) lAirlineClassListList
    else .error .yieldOrder

noncomputable def proportionFactor (lMinWTP lFrat5Coef lYield : ℝ) : ℝ :=
  min (Real.exp ((lYield - lMinWTP) * Real.log 0.5 / (lMinWTP * (lFrat5Coef - 1)))) 1

/-- The factors that the loop pushes, from the proportion factor before. -/
noncomputable def proportionFactorList (lMinWTP lFrat5Coef : ℝ) : ℝ → List ι → List ℝ
  | _, [] => []
  | lPreviousProportionFactor, lAirlineClassList :: lAirlineClassListList =>
    let lProportionFactor := proportionFactor lMinWTP lFrat5Coef (getYield lAirlineClassList)
    (lProportionFactor - lPreviousProportionFactor) ::
      proportionFactorList lMinWTP lFrat5Coef lProportionFactor lAirlineClassListList

noncomputable def forecastOnD (getRemainingProportion : ℤ → ℝ) (frat5CoefMap : DTD → Option ℝ)
    (lTotalForecast : TotalForecast) (iDTD : DTD) :
    List ι → Except OnDForecastFault (List (OnDForecastCall ι))
  | [] => .error .noAirlineClassList
  | lFirst :: lAirlineClassListList => do
    checkYieldOrder getYield (getYield lFirst) lAirlineClassListList
    let lRemainingProportion := getRemainingProportion (-iDTD)
    let lRemainingMeanValue := lRemainingProportion * lTotalForecast.meanValue
    let lRemainingStdDevValue := lRemainingProportion * lTotalForecast.stdDevValue
    match frat5CoefMap iDTD with
    | none => .error .noFrat5Coef
    | some lFrat5Coef =>
      let lProportionFactorList :=
        proportionFactorList getYield lTotalForecast.minWTP lFrat5Coef 0 (lFirst :: lAirlineClassListList)
      .ok (((lFirst :: lAirlineClassListList).zip lProportionFactorList).map fun entry =>
        ⟨entry.1, entry.2 * lRemainingMeanValue, entry.2 * lRemainingStdDevValue⟩)

end model

/-! ## The share of the demand that pays a yield -/

section factor
variable {lMinWTP lFrat5Coef y z : ℝ}

theorem log_half_neg : Real.log 0.5 < 0 := Real.log_neg (by norm_num) (by norm_num)

theorem proportionFactor_nonneg : 0 ≤ proportionFactor lMinWTP lFrat5Coef y :=
  le_min (Real.exp_pos _).le zero_le_one

/-- The lower the yield, the more demand is willing to pay it. -/
theorem proportionFactor_anti (hwtp : 0 < lMinWTP) (hfrat5 : 1 < lFrat5Coef) (h : y ≤ z) :
    proportionFactor lMinWTP lFrat5Coef z ≤ proportionFactor lMinWTP lFrat5Coef y := by
  have hscale : 0 < lMinWTP * (lFrat5Coef - 1) := mul_pos hwtp (sub_pos.2 hfrat5)
  have hexponent : (z - lMinWTP) * Real.log 0.5 ≤ (y - lMinWTP) * Real.log 0.5 :=
    mul_le_mul_of_nonpos_right (sub_le_sub_right h lMinWTP) log_half_neg.le
  exact min_le_min_right 1 (Real.exp_le_exp.2 (div_le_div_of_nonneg_right hexponent hscale.le))

/-- All demand pays a yield up to the minimal willingness to pay, and no other yield. -/
theorem proportionFactor_eq_one_iff (hwtp : 0 < lMinWTP) (hfrat5 : 1 < lFrat5Coef) :
    proportionFactor lMinWTP lFrat5Coef y = 1 ↔ y ≤ lMinWTP := by
  have hscale : 0 < lMinWTP * (lFrat5Coef - 1) := mul_pos hwtp (sub_pos.2 hfrat5)
  rw [proportionFactor, min_eq_right_iff, Real.one_le_exp_iff, le_div_iff₀ hscale, zero_mul]
  constructor
  · intro h
    by_contra hlt
    exact absurd h (not_le.2 (mul_neg_of_pos_of_neg (sub_pos.2 (not_le.1 hlt)) log_half_neg))
  · exact fun h => mul_nonneg_of_nonpos_of_nonpos (sub_nonpos.2 h) log_half_neg.le

end factor

/-! ## The split of the demand -/

section split
variable {getYield : ι → ℝ} {lMinWTP lFrat5Coef : ℝ}

theorem checkYieldOrder_ok : ∀ {lPreviousYield : ℝ} {acls : List ι},
    (lPreviousYield :: acls.map getYield).IsChain (· ≥ ·) →
    checkYieldOrder getYield lPreviousYield acls = .ok ()
  | _, [], _ => rfl
  | _, _ :: _, h => by
    rw [List.map_cons, List.isChain_cons_cons] at h
    rw [checkYieldOrder, if_pos h.1]
    exact checkYieldOrder_ok h.2

theorem proportionFactorList_eq_increments (lPrevious : ℝ) (acls : List ι) :
    proportionFactorList getYield lMinWTP lFrat5Coef lPrevious acls =
      increments lPrevious (acls.map fun a => proportionFactor lMinWTP lFrat5Coef (getYield a)) := by
  induction acls generalizing lPrevious with
  | nil => rfl
  | cons a acls ih => rw [proportionFactorList, ih]; rfl

/-- The assertion on the sizes of the two lists (`:971`) holds. -/
theorem length_proportionFactorList (lPrevious : ℝ) (acls : List ι) :
    (proportionFactorList getYield lMinWTP lFrat5Coef lPrevious acls).length = acls.length := by
  simp [proportionFactorList_eq_increments]

/-- Along descending yields no factor is negative. -/
theorem proportionFactorList_nonneg (hwtp : 0 < lMinWTP) (hfrat5 : 1 < lFrat5Coef) {acls : List ι}
    (hyields : (acls.map getYield).IsChain (· ≥ ·)) :
    ∀ f ∈ proportionFactorList getYield lMinWTP lFrat5Coef 0 acls, 0 ≤ f := by
  rw [proportionFactorList_eq_increments, increments_nonneg_iff]
  have hrise : (acls.map fun a => proportionFactor lMinWTP lFrat5Coef (getYield a)).IsChain (· ≤ ·) := by
    rw [List.isChain_map] at hyields ⊢
    exact hyields.imp fun a b hab => proportionFactor_anti hwtp hfrat5 hab
  cases acls with
  | nil => exact List.isChain_singleton _
  | cons a acls => exact List.isChain_cons_cons.2 ⟨proportionFactor_nonneg, hrise⟩

/-- The factors add up to the proportion factor of the last rule. -/
theorem sum_proportionFactorList {acls : List ι} (hne : acls ≠ []) :
    (proportionFactorList getYield lMinWTP lFrat5Coef 0 acls).sum =
      proportionFactor lMinWTP lFrat5Coef (getYield (acls.getLast hne)) := by
  rw [proportionFactorList_eq_increments, sum_increments, sub_zero]
  rw [List.getLast_cons (by simpa using hne), List.getLast_map]

end split

section forecast
variable {getYield : ι → ℝ} {getRemainingProportion : ℤ → ℝ} {frat5CoefMap : DTD → Option ℝ}
  {lTotalForecast : TotalForecast} {iDTD : DTD} {lFrat5Coef : ℝ} {acls : List ι}

/-- The calls of a forecast whose assertions hold. -/
theorem forecastOnD_ok (hne : acls ≠ []) (hyields : (acls.map getYield).IsChain (· ≥ ·))
    (hcoef : frat5CoefMap iDTD = some lFrat5Coef) :
    forecastOnD getYield getRemainingProportion frat5CoefMap lTotalForecast iDTD acls =
      .ok ((acls.zip (proportionFactorList getYield lTotalForecast.minWTP lFrat5Coef 0 acls)).map fun entry =>
        ⟨entry.1, entry.2 * (getRemainingProportion (-iDTD) * lTotalForecast.meanValue),
          entry.2 * (getRemainingProportion (-iDTD) * lTotalForecast.stdDevValue)⟩) := by
  cases acls with
  | nil => exact absurd rfl hne
  | cons a acls =>
    have horder : checkYieldOrder getYield (getYield a) acls = .ok () := checkYieldOrder_ok hyields
    simp only [forecastOnD, horder, ok_bind, hcoef]

/-- The lowest yield of a descending list is the last one. -/
theorem getYield_getLast (hne : acls ≠ []) (hyields : (acls.map getYield).IsChain (· ≥ ·)) {yLow : ℝ}
    (hlow : IsLeast (getYield '' {a | a ∈ acls}) yLow) : getYield (acls.getLast hne) = yLow := by
  refine le_antisymm ?_ (hlow.2 ⟨_, List.getLast_mem hne, rfl⟩)
  obtain ⟨⟨a, ha, rfl⟩, -⟩ := hlow
  rw [List.isChain_map] at hyields
  exact hyields.backwards_induction (fun b => getYield (acls.getLast hne) ≤ getYield b) _
    (fun b c hbc hc => hc.trans hbc) (fun _ => le_rfl) a ha

/-- **The split of the remaining demand** has no negative part, and its parts add up to the share of the demand
that is willing to pay the lowest yield: to all of it iff the lowest yield is not above the minimal willingness
to pay. -/
theorem forecastOnD_split {yLow : ℝ} (hyields : (acls.map getYield).IsChain (· ≥ ·))
    (hlow : IsLeast (getYield '' {a | a ∈ acls}) yLow) (hcoef : frat5CoefMap iDTD = some lFrat5Coef)
    (hwtp : 0 < lTotalForecast.minWTP) (hfrat5 : 1 < lFrat5Coef)
    (hmean : 0 ≤ getRemainingProportion (-iDTD) * lTotalForecast.meanValue) :
    ∃ calls, forecastOnD getYield getRemainingProportion frat5CoefMap lTotalForecast iDTD acls = .ok calls ∧
      calls.map OnDForecastCall.airlineClassList = acls ∧
      (∀ call ∈ calls, 0 ≤ call.meanValue) ∧
      (calls.map OnDForecastCall.meanValue).sum =
        getRemainingProportion (-iDTD) * lTotalForecast.meanValue *
          min 1 (Real.exp ((yLow - lTotalForecast.minWTP) * Real.log 0.5 /
            (lTotalForecast.minWTP * (lFrat5Coef - 1)))) ∧
      ((calls.map OnDForecastCall.meanValue).sum = getRemainingProportion (-iDTD) * lTotalForecast.meanValue ↔
        yLow ≤ lTotalForecast.minWTP ∨ getRemainingProportion (-iDTD) * lTotalForecast.meanValue = 0) := by
  have hne : acls ≠ [] := by
    rintro rfl
    obtain ⟨⟨a, ha, -⟩, -⟩ := hlow
    cases ha
  set lRemainingMeanValue := getRemainingProportion (-iDTD) * lTotalForecast.meanValue
  set factors := proportionFactorList getYield lTotalForecast.minWTP lFrat5Coef 0 acls with hfactors
  have hlength : factors.length = acls.length := length_proportionFactorList 0 acls
  have hnonneg : ∀ f ∈ factors, 0 ≤ f := proportionFactorList_nonneg hwtp hfrat5 hyields
  have hsum : factors.sum = proportionFactor lTotalForecast.minWTP lFrat5Coef yLow := by
    rw [hfactors, sum_proportionFactorList hne, getYield_getLast hne hyields hlow]
  -- the means of the calls are the factors, scaled by the remaining mean
  have hmeans : ((acls.zip factors).map fun entry => entry.2 * lRemainingMeanValue).sum =
      proportionFactor lTotalForecast.minWTP lFrat5Coef yLow * lRemainingMeanValue := by
    have hzip : (acls.zip factors).map (fun entry => entry.2 * lRemainingMeanValue) =
        factors.map (· * lRemainingMeanValue) := by
      conv_rhs => rw [← List.map_snd_zip hlength.le, List.map_map]
      rfl
    rw [hzip, List.sum_map_mul_right, List.map_id', hsum]
  refine ⟨_, forecastOnD_ok hne hyields hcoef, ?_, ?_, ?_, ?_⟩
  · rw [List.map_map]
    exact List.map_fst_zip hlength.ge
  · intro call hcall
    obtain ⟨⟨a, f⟩, hentry, rfl⟩ := List.mem_map.1 hcall
    exact mul_nonneg (hnonneg f (List.of_mem_zip hentry).2) hmean
  · rw [List.map_map, min_comm, mul_comm lRemainingMeanValue]
    exact hmeans
  · rw [List.map_map]
    refine Iff.trans (Eq.congr_left hmeans) ?_
    rw [mul_left_eq_self₀, proportionFactor_eq_one_iff hwtp hfrat5]

/-- Yields on both sides of the minimal willingness to pay. -/
theorem forecastOnD_split_twoYields :
    ∃ calls, forecastOnD id (fun _ => 1) (fun _ => some 2) ⟨2, 8, 1⟩ 1 [3, 1] = .ok calls ∧
      (∀ call ∈ calls, 0 ≤ call.meanValue) ∧ (calls.map OnDForecastCall.meanValue).sum = 8 := by
  have hlow : IsLeast (id '' {a | a ∈ ([3, 1] : List ℝ)}) 1 := by
    constructor
    · simp
    · rintro _ ⟨a, ha, rfl⟩
      rcases List.mem_pair.1 ha with rfl | rfl <;> norm_num
  obtain ⟨calls, hcalls, -, hnonneg, -, hall⟩ := @forecastOnD_split ℝ id (fun _ => 1)
    (fun _ => some 2) ⟨2, 8, 1⟩ 1 2 [3, 1] 1 (by norm_num) hlow rfl (by norm_num) (by norm_num) (by norm_num)
  refine ⟨calls, hcalls, hnonneg, (hall.2 (.inl ?_)).trans ?_⟩ <;> norm_num

end forecast

end Rmol
