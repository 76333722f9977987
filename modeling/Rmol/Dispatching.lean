import Mathlib.Analysis.SpecialFunctions.Log.Basic
import Mathlib.Analysis.Real.Sqrt
import Rmol.Bom
/-!
# Sell-up and dispatching curves (`Utilities.cpp:115-316`) and the forecast of one class list

| here | there |
| --- | --- |
| `sellUpFactor`                   | `e ^ ((y_F/y_Q - 1) * ln (0.5) / (FRAT5 - 1))` (`Utilities.cpp:161`, `:225`) |
| `computeSellUpFactorCurves`      | `Utilities.cpp:116` |
| `computeDispatchingFactorCurves` | `Utilities.cpp:178` |
| `dispatchDemandForecast`         | `Utilities.cpp:252`, on the price-oriented attributes |
| `dispatchDemandForecastForFA`    | `Utilities.cpp:285`, on the cumulative price-oriented attributes |
| `forecastInterval`, `forecastIntervals` | the DCP loop of the Q-forecasters (`QForecasting.cpp:64-125`, `NewQFF.cpp:88-150`) |
| `setDemandForecastsToZero`       | `Forecaster.cpp:168` |

A curve map is the list of its entries in order of insertion; the source iterates over pointers in
address order, but every entry changes its own class only. An insertion fails exactly when the class
list repeats a class.

The forecast of an interval (`estimate`) is what unconstraining gives for it: a mean and a standard
deviation.
-/

namespace Rmol

/-- The assertions of the forecasters. -/
inductive ForecastFault where
  /-- `assert (itFF != lFFList.rend())` (`QForecasting.cpp:44`). -/
  | noFareFamily
  /-- `assert (itCurrentClass != iBCList.rend())` (`Utilities.cpp:133`, `:194`). -/
  | noBookingClass
  /-- `assert (insert == true)` (`Utilities.cpp:143`, `:169`, `:207`, `:237`, `:246`). -/
  | insertion
  /-- No factor for the DCP: the assertions on `find` (`Utilities.cpp:265`, `:298`). -/
  | missingFactor
deriving DecidableEq, Repr

/-- The forecast of a fare family. -/
structure FamilyForecast (α : Type*) where
  mean : α
  stdDev : α

/-- What a forecast writes: the attributes of the classes, and of the fare families by position. -/
structure Forecasts (κ α : Type*) where
  classes : ClassStore κ α
  families : ℕ → FamilyForecast α

/-- The two pairs of attributes that the dispatching functions add demand to. -/
inductive DemandKind where
  | price
  | cumuPrice
deriving DecidableEq, Repr

namespace DemandKind
variable {α : Type*}

def mean : DemandKind → BookingClass α → α
  | price => BookingClass.priceDemMean
  | cumuPrice => BookingClass.cumuPriceDemMean

def stdDev : DemandKind → BookingClass α → α
  | price => BookingClass.priceDemStdDev
  | cumuPrice => BookingClass.cumuPriceDemStdDev

def set (m s : α) : DemandKind → BookingClass α → BookingClass α
  | price, b => { b with priceDemMean := m, priceDemStdDev := s }
  | cumuPrice, b => { b with cumuPriceDemMean := m, cumuPriceDemStdDev := s }

variable (k k' : DemandKind) (m s : α) (b : BookingClass α)

@[simp] theorem mean_set : k.mean (k.set m s b) = m := by cases k <;> rfl
@[simp] theorem stdDev_set : k.stdDev (k.set m s b) = s := by cases k <;> rfl
@[simp] theorem yield_set : (k.set m s b).yield = b.yield := by cases k <;> rfl

theorem mean_set_of_ne (h : k' ≠ k) : k'.mean (k.set m s b) = k'.mean b := by
  cases k <;> cases k' <;> first | rfl | exact absurd rfl h

theorem stdDev_set_of_ne (h : k' ≠ k) : k'.stdDev (k.set m s b) = k'.stdDev b := by
  cases k <;> cases k' <;> first | rfl | exact absurd rfl h

end DemandKind

/-! ## The curves -/

section curves
variable {κ : Type*} [DecidableEq κ]

/-- The probability that a customer of the lowest class buys at the yield of the current one. -/
noncomputable def sellUpFactor (lFRAT5 lCurrentYield lLowestYield : ℝ) : ℝ :=
  let lSellUpCoef := Real.log 0.5 / (lFRAT5 - 1)
  Real.exp ((lCurrentYield / lLowestYield - 1) * lSellUpCoef)

/-- The days of the FRAT5 curve, with a value for each. -/
def overFRAT5 (iFRAT5Curve : Curve ℝ) (value : ℝ → ℝ) : Curve ℝ := fun lDTD => (iFRAT5Curve lDTD).map value

noncomputable def computeSellUpFactorCurves (yield : κ → ℝ) (iFRAT5Curve : Curve ℝ) (iBCList : List κ) :
    Except ForecastFault (List (κ × Curve ℝ)) :=
  match iBCList.reverse with
  | [] => .error .noBookingClass
  | lLowestBC :: lHigherBCs =>
    if iBCList.Nodup then
      .ok ((lLowestBC, overFRAT5 iFRAT5Curve fun _ => 1) :: lHigherBCs.map fun lCurrentBC =>
        (lCurrentBC, overFRAT5 iFRAT5Curve fun lFRAT5 =>
          sellUpFactor lFRAT5 (yield lCurrentBC) (yield lLowestBC)))
    else .error .insertion

/-- The loop upwards over pairs of consecutive classes (`Utilities.cpp:211`): a class gets what is
left of its sell-up factor (`lBasedDispatchingCurve`) by the next higher class. -/
noncomputable def dispatchingLoop (yield : κ → ℝ) (iFRAT5Curve : Curve ℝ) (lLowestYield : ℝ) :
    Curve ℝ → κ → List κ → List (κ × Curve ℝ)
  | lBasedDispatchingCurve, lCurrentBC, [] => [(lCurrentBC, lBasedDispatchingCurve)]
  | lBasedDispatchingCurve, lCurrentBC, lNextBC :: lHigherBCs =>
    let lDispatchingFactor := overFRAT5 iFRAT5Curve fun lFRAT5 =>
      sellUpFactor lFRAT5 (yield lNextBC) lLowestYield
    (lCurrentBC, fun lDTD => do
      let lBasedFactor ← lBasedDispatchingCurve lDTD
      let lFactor ← lDispatchingFactor lDTD
      return lBasedFactor - lFactor) ::
      dispatchingLoop yield iFRAT5Curve lLowestYield lDispatchingFactor lNextBC lHigherBCs

noncomputable def computeDispatchingFactorCurves (yield : κ → ℝ) (iFRAT5Curve : Curve ℝ) (iBCList : List κ) :
    Except ForecastFault (List (κ × Curve ℝ)) :=
  match iBCList.reverse with
  | [] => .error .noBookingClass
  | lLowestBC :: lHigherBCs =>
    if iBCList.Nodup then
      .ok (dispatchingLoop yield iFRAT5Curve (yield lLowestBC) (overFRAT5 iFRAT5Curve fun _ => 1)
        lLowestBC lHigherBCs)
    else .error .insertion

end curves

/-! ## Dispatching the forecast of one interval -/

section dispatching
variable {κ : Type*} [DecidableEq κ]

/-- Demand that is added to a class: means add up, and so do variances. -/
noncomputable def addDemand (k : DemandKind) (iMean iStdDev lFactor : ℝ) (b : BookingClass ℝ) : BookingClass ℝ :=
  let lAdditionalMean := iMean * lFactor
  let lAdditionalStdDev := iStdDev * √lFactor
  k.set (k.mean b + lAdditionalMean)
    √(k.stdDev b * k.stdDev b + lAdditionalStdDev * lAdditionalStdDev) b

noncomputable def dispatch (k : DemandKind) (iCurveMap : List (κ × Curve ℝ)) (iMean iStdDev : ℝ)
    (iCurrentDCP : DTD) (classes : ClassStore κ ℝ) : Except ForecastFault (ClassStore κ ℝ) :=
  iCurveMap.foldlM (fun classes entry =>
    match entry.2 iCurrentDCP with
    | none => .error .missingFactor
    | some lFactor => .ok (classes.modify entry.1 (addDemand k iMean iStdDev lFactor))) classes

noncomputable def dispatchDemandForecast (iBCDispatchingCurveMap : List (κ × Curve ℝ)) (iMean iStdDev : ℝ)
    (iCurrentDCP : DTD) (classes : ClassStore κ ℝ) : Except ForecastFault (ClassStore κ ℝ) :=
  dispatch .price iBCDispatchingCurveMap iMean iStdDev iCurrentDCP classes

noncomputable def dispatchDemandForecastForFA (iBCSellUpCurveMap : List (κ × Curve ℝ)) (iMean iStdDev : ℝ)
    (iCurrentDCP : DTD) (classes : ClassStore κ ℝ) : Except ForecastFault (ClassStore κ ℝ) :=
  dispatch .cumuPrice iBCSellUpCurveMap iMean iStdDev iCurrentDCP classes

/-- One pass of the DCP loop, for a fare family: the interval counts if it ends after today. -/
noncomputable def forecastInterval (iDispatchingMap iFAMap : List (κ × Curve ℝ))
    (estimate : DTD → DTD → ℝ × ℝ) (iCurrentDTD : DTD) (run : ClassStore κ ℝ × FamilyForecast ℝ)
    (interval : DTD × DTD) : Except ForecastFault (ClassStore κ ℝ × FamilyForecast ℝ) :=
  let lCurrentDCP := interval.1
  let lNextDCP := interval.2
  if lNextDCP < iCurrentDTD then do
    let lMean := (estimate lCurrentDCP lNextDCP).1
    let lStdDev := (estimate lCurrentDCP lNextDCP).2
    let classes ← dispatchDemandForecast iDispatchingMap lMean lStdDev lCurrentDCP run.1
    let classes ← dispatchDemandForecastForFA iFAMap lMean lStdDev lCurrentDCP classes
    return (classes,
      ⟨run.2.mean + lMean, √(run.2.stdDev * run.2.stdDev + lStdDev * lStdDev)⟩)
  else return run

/-- Consecutive DCPs. -/
def intervals (lWholeDCPList : List DTD) : List (DTD × DTD) := lWholeDCPList.zip lWholeDCPList.tail

/-- The intervals that the DCP loop does not skip. -/
def remaining (lWholeDCPList : List DTD) (iCurrentDTD : DTD) : List (DTD × DTD) :=
  (intervals lWholeDCPList).filter fun interval => interval.2 < iCurrentDTD

noncomputable def forecastIntervals (iDispatchingMap iFAMap : List (κ × Curve ℝ))
    (estimate : DTD → DTD → ℝ × ℝ) (lWholeDCPList : List DTD) (iCurrentDTD : DTD)
    (run : ClassStore κ ℝ × FamilyForecast ℝ) :
    Except ForecastFault (ClassStore κ ℝ × FamilyForecast ℝ) :=
  (intervals lWholeDCPList).foldlM (forecastInterval iDispatchingMap iFAMap estimate iCurrentDTD) run

/-- Mean and deviation of everything that a forecast adds to. -/
def BookingClass.withoutDemand (b : BookingClass ℝ) : BookingClass ℝ :=
  { b with mean := 0, stdDev := 0, priceDemMean := 0, priceDemStdDev := 0, productDemMean := 0,
           productDemStdDev := 0, cumuPriceDemMean := 0, cumuPriceDemStdDev := 0 }

def setDemandForecastsToZero (cabin : SegmentCabin κ ℝ) (f : Forecasts κ ℝ) : Forecasts κ ℝ where
  classes := cabin.fareFamilies.foldl (fun classes lFF => lFF.bookingClasses.foldl (fun classes lBC =>
    ClassStore.modify classes lBC BookingClass.withoutDemand) classes) f.classes
  families := fun i => if i < cabin.fareFamilies.length then ⟨0, 0⟩ else f.families i

end dispatching

/-! ## What the curves hold -/

section curves
variable {κ : Type*} [DecidableEq κ] {yield : κ → ℝ} {F : Curve ℝ} {l : List κ} {curves : List (κ × Curve ℝ)}

theorem sellUpFactor_pos (f y q : ℝ) : 0 < sellUpFactor f y q := Real.exp_pos _

@[simp] theorem sellUpFactor_self (f : ℝ) {q : ℝ} (hq : 0 < q) : sellUpFactor f q q = 1 := by
  simp [sellUpFactor, div_self hq.ne']

/-- Fewer customers buy up to a higher yield. -/
theorem sellUpFactor_lt {f y y' q : ℝ} (hf : 1 < f) (hq : 0 < q) (h : y < y') :
    sellUpFactor f y' q < sellUpFactor f y q := by
  have hcoef : Real.log 0.5 / (f - 1) < 0 :=
    div_neg_of_neg_of_pos (Real.log_neg (by norm_num) (by norm_num)) (sub_pos.2 hf)
  refine Real.exp_lt_exp.2 (mul_lt_mul_of_neg_right ?_ hcoef)
  have := div_lt_div_of_pos_right h hq
  linarith

/-- The sell-up curves of a class list: one per class, relative to the lowest class. -/
theorem sellUpCurves_spec (h : computeSellUpFactorCurves yield F l = .ok curves) :
    curves.map Prod.fst = l.reverse ∧ l.Nodup ∧
      (∀ entry ∈ curves, ∀ d, (entry.2 d).isSome = (F d).isSome) ∧ ∃ lowest, l.getLast? = some lowest ∧
      (0 < yield lowest → ∀ c curve, (c, curve) ∈ curves →
        curve = overFRAT5 F fun f => sellUpFactor f (yield c) (yield lowest)) := by
  unfold computeSellUpFactorCurves at h
  cases hl : l.reverse with
  | nil => rw [hl] at h; cases h
  | cons lowest higher =>
    rw [hl] at h
    simp only at h
    split at h
    · rename_i hn
      obtain rfl := Except.ok.inj h
      refine ⟨by simp [Function.comp_def], hn, fun entry he d => ?_, lowest, ?_, fun hpos c curve hc => ?_⟩
      · rcases List.mem_cons.1 he with rfl | he
        · simp [overFRAT5]
        · obtain ⟨c, -, rfl⟩ := List.mem_map.1 he
          simp [overFRAT5]
      · rw [List.getLast?_eq_head?_reverse, hl]; rfl
      · rcases List.mem_cons.1 hc with hc | hc
        · obtain ⟨rfl, rfl⟩ := Prod.mk.injEq .. ▸ hc
          simp [hpos]
        · obtain ⟨c', -, hc'⟩ := List.mem_map.1 hc
          obtain ⟨rfl, rfl⟩ := Prod.mk.injEq .. ▸ hc'
          rfl
    · cases h

omit [DecidableEq κ] in
theorem dispatchingLoop_keys (yield : κ → ℝ) (F : Curve ℝ) (q : ℝ) : ∀ (based : Curve ℝ) (c : κ) (higher : List κ),
    (dispatchingLoop yield F q based c higher).map Prod.fst = c :: higher
  | _, _, [] => rfl
  | _, _, n :: higher => by simp [dispatchingLoop, dispatchingLoop_keys yield F q _ n higher]

omit [DecidableEq κ] in
/-- From any entry on, the dispatching loop is the loop that starts there with the sell-up factor of
its class. -/
theorem dispatchingLoop_suffix (q : ℝ) : ∀ (based : Curve ℝ) (c : κ) (higher : List κ)
    (pre suf : List (κ × Curve ℝ)) (d : κ) (curve : Curve ℝ),
    dispatchingLoop yield F q based c higher = pre ++ (d, curve) :: suf →
    (d, curve) :: suf = dispatchingLoop yield F q
      (if pre = [] then based else overFRAT5 F fun f => sellUpFactor f (yield d) q) d (suf.map Prod.fst)
  | based, c, [], [], suf, d, curve, h => by
    simp only [dispatchingLoop, List.nil_append, List.cons.injEq, Prod.mk.injEq] at h
    obtain ⟨⟨rfl, rfl⟩, rfl⟩ := h
    rfl
  | based, c, n :: higher, [], suf, d, curve, h => by
    have hkeys := dispatchingLoop_keys yield F q based c (n :: higher)
    rw [h] at hkeys
    simp only [List.nil_append, List.map_cons, List.cons.injEq] at hkeys
    rw [if_pos rfl, hkeys.1, hkeys.2, h, hkeys.1]
    rfl
  | based, c, [], x :: pre, suf, d, curve, h => by simp [dispatchingLoop] at h
  | based, c, n :: higher, x :: pre, suf, d, curve, h => by
    rw [dispatchingLoop, List.cons_append, List.cons.injEq] at h
    have ih := dispatchingLoop_suffix q _ n higher pre suf d curve h.2
    rw [if_neg (List.cons_ne_nil x pre)]
    by_cases hpre : pre = []
    · subst hpre
      have hkeys := dispatchingLoop_keys yield F q
        (overFRAT5 F fun f => sellUpFactor f (yield n) q) n higher
      rw [h.2] at hkeys
      simp only [List.nil_append, List.map_cons, List.cons.injEq] at hkeys
      rwa [if_pos rfl, ← hkeys.1] at ih
    · rwa [if_neg hpre] at ih

omit [DecidableEq κ] in
/-- The dispatching factors of a day add up to the factor that the loop starts with. -/
theorem dispatchingLoop_sum (q : ℝ) {d : DTD} {f : ℝ} (hF : F d = some f) :
    ∀ (based : Curve ℝ) (c : κ) (higher : List κ) (b : ℝ), based d = some b →
      ((dispatchingLoop yield F q based c higher).map fun entry => (entry.2 d).getD 0).sum = b
  | based, c, [], b, hb => by simp [dispatchingLoop, hb]
  | based, c, n :: higher, b, hb => by
    have hn : overFRAT5 F (fun f => sellUpFactor f (yield n) q) d = some (sellUpFactor f (yield n) q) := by
      simp [overFRAT5, hF]
    have ih := dispatchingLoop_sum q hF _ n higher _ hn
    rw [dispatchingLoop, List.map_cons, List.sum_cons, ih]
    simp [hb, hn]

omit [DecidableEq κ] in
/-- Dispatching curves have the days of the FRAT5 curve. -/
theorem dispatchingLoop_days (q : ℝ) {d : DTD} : ∀ (based : Curve ℝ) (c : κ) (higher : List κ),
    (based d).isSome = (F d).isSome →
    ∀ entry ∈ dispatchingLoop yield F q based c higher, (entry.2 d).isSome = (F d).isSome
  | based, c, [], hb, entry, he => by
    rw [dispatchingLoop, List.mem_singleton] at he
    rw [he, hb]
  | based, c, n :: higher, hb, entry, he => by
    have hn : (overFRAT5 F (fun f => sellUpFactor f (yield n) q) d).isSome = (F d).isSome := by
      simp [overFRAT5]
    rw [dispatchingLoop, List.mem_cons] at he
    rcases he with rfl | he
    · cases hF : F d <;> cases hbd : based d <;> simp_all [overFRAT5]
    · exact dispatchingLoop_days q _ n higher hn entry he

/-- The dispatching curves of a class list: on every day of the FRAT5 curve the factors of a class
and all classes above it add up to its sell-up factor. -/
theorem dispatchingCurves_spec (h : computeDispatchingFactorCurves yield F l = .ok curves) :
    curves.map Prod.fst = l.reverse ∧ l.Nodup ∧
      (∀ entry ∈ curves, ∀ d, (entry.2 d).isSome = (F d).isSome) ∧ ∃ lowest, l.getLast? = some lowest ∧
      (0 < yield lowest → ∀ pre c curve suf, curves = pre ++ (c, curve) :: suf → ∀ d f, F d = some f →
        (((c, curve) :: suf).map fun entry => (entry.2 d).getD 0).sum =
          sellUpFactor f (yield c) (yield lowest)) := by
  unfold computeDispatchingFactorCurves at h
  cases hl : l.reverse with
  | nil => rw [hl] at h; cases h
  | cons lowest higher =>
    rw [hl] at h
    simp only at h
    split at h
    · rename_i hn
      obtain rfl := Except.ok.inj h
      refine ⟨dispatchingLoop_keys _ _ _ _ _ _, hn, fun entry he d => ?_, lowest, ?_,
        fun hpos pre c curve suf hsplit d f hF => ?_⟩
      · exact dispatchingLoop_days _ _ _ _ (by simp [overFRAT5]) entry he
      · rw [List.getLast?_eq_head?_reverse, hl]; rfl
      · have hsuf := dispatchingLoop_suffix _ _ _ _ pre suf c curve hsplit
        rw [hsuf]
        refine dispatchingLoop_sum _ hF _ _ _ _ ?_
        split
        · rename_i hpre
          have hkeys := dispatchingLoop_keys yield F (yield lowest)
            (overFRAT5 F fun _ => 1) lowest higher
          rw [hsplit, hpre] at hkeys
          simp only [List.nil_append, List.map_cons, List.cons.injEq] at hkeys
          simp [overFRAT5, hF, hkeys.1, hpos]
        · simp [overFRAT5, hF]
    · cases h

/-- The curves of a class list without duplicates exist. -/
theorem curves_ok (yield : κ → ℝ) (F : Curve ℝ) (hne : l ≠ []) (hn : l.Nodup) :
    ∃ disp su, computeDispatchingFactorCurves yield F l = .ok disp ∧
      computeSellUpFactorCurves yield F l = .ok su := by
  have hrev : l.reverse ≠ [] := by simpa using hne
  obtain ⟨lowest, higher, hl⟩ := List.exists_cons_of_ne_nil hrev
  simp only [computeDispatchingFactorCurves, computeSellUpFactorCurves, hl, hn, ↓reduceIte]
  exact ⟨_, _, rfl, rfl⟩

end curves

/-! ## What dispatching does to the classes -/

section dispatching
variable {κ : Type*} [DecidableEq κ] {curves curves' : List (κ × Curve ℝ)} {k : DemandKind}
  {classes out : ClassStore κ ℝ} {m s : ℝ} {d : DTD}

/-- Every class of the map gets its share, no other class changes. -/
theorem dispatch_spec : ∀ (curves : List (κ × Curve ℝ)) (classes : ClassStore κ ℝ),
    (curves.map Prod.fst).Nodup → dispatch k curves m s d classes = .ok out →
    (∀ c curve, (c, curve) ∈ curves → ∃ f, curve d = some f ∧ out c = addDemand k m s f (classes c)) ∧
      ∀ c, c ∉ curves.map Prod.fst → out c = classes c
  | [], classes, _, h => by
    obtain rfl := Except.ok.inj h
    simp
  | (c₀, curve₀) :: curves, classes, hn, h => by
    rw [List.map_cons, List.nodup_cons] at hn
    rw [dispatch, List.foldlM_cons, bind_eq_ok] at h
    obtain ⟨classes₁, h₁, h₂⟩ := h
    cases hf : curve₀ d with
    | none => simp [hf] at h₁
    | some f =>
      simp only [hf, Except.ok.injEq] at h₁
      obtain ⟨hin, hout⟩ := dispatch_spec curves classes₁ hn.2 h₂
      subst h₁
      refine ⟨fun c curve hc => ?_, fun c hc => ?_⟩
      · rcases List.mem_cons.1 hc with hc | hc
        · obtain ⟨rfl, rfl⟩ := Prod.mk.injEq .. ▸ hc
          exact ⟨f, hf, by rw [hout c hn.1, ClassStore.modify_self]⟩
        · obtain ⟨g, hg, hcg⟩ := hin c curve hc
          have hne : c ≠ c₀ := fun e => hn.1 (e ▸ List.mem_map.2 ⟨_, hc, rfl⟩)
          exact ⟨g, hg, by rw [hcg, ClassStore.modify_of_ne _ _ hne]⟩
      · rw [List.map_cons, List.mem_cons, not_or] at hc
        rw [hout c hc.2, ClassStore.modify_of_ne _ _ hc.1]

/-- Dispatching succeeds if every curve has the day. -/
theorem dispatch_ok : ∀ (curves : List (κ × Curve ℝ)) (classes : ClassStore κ ℝ),
    (∀ entry ∈ curves, (entry.2 d).isSome) → ∃ out, dispatch k curves m s d classes = .ok out
  | [], classes, _ => ⟨classes, rfl⟩
  | entry :: curves, classes, h => by
    obtain ⟨f, hf⟩ := Option.isSome_iff_exists.1 (h entry List.mem_cons_self)
    obtain ⟨out, hout⟩ := dispatch_ok curves
      (classes.modify entry.1 (addDemand k m s f)) fun e he => h e (List.mem_cons_of_mem _ he)
    refine ⟨out, ?_⟩
    rw [dispatch, List.foldlM_cons]
    simp only [hf, ok_bind]
    exact hout

@[simp] theorem addDemand_yield (f : ℝ) (b : BookingClass ℝ) : (addDemand k m s f b).yield = b.yield := by
  simp [addDemand]

/-- The mean that the factors of a curve give to a class over some intervals. -/
def meanShare (estimate : DTD → DTD → ℝ × ℝ) (curve : Curve ℝ) (ps : List (DTD × DTD)) : ℝ :=
  (ps.map fun p => (estimate p.1 p.2).1 * (curve p.1).getD 0).sum

/-- The variance that the factors of a curve give to a class over some intervals. -/
noncomputable def varianceShare (estimate : DTD → DTD → ℝ × ℝ) (curve : Curve ℝ) (ps : List (DTD × DTD)) : ℝ :=
  (ps.map fun p => ((estimate p.1 p.2).2 * √((curve p.1).getD 0)) ^ 2).sum

/-- What a class has received over some intervals, by its curve. -/
structure Received (k : DemandKind) (estimate : DTD → DTD → ℝ × ℝ) (curve : Curve ℝ)
    (ps : List (DTD × DTD)) (b b' : BookingClass ℝ) : Prop where
  days : ∀ p ∈ ps, (curve p.1).isSome
  mean : k.mean b' = k.mean b + meanShare estimate curve ps
  variance : k.stdDev b' ^ 2 = k.stdDev b ^ 2 + varianceShare estimate curve ps

theorem Received.none (curve : Curve ℝ) (estimate : DTD → DTD → ℝ × ℝ) (b : BookingClass ℝ) :
    Received k estimate curve [] b b :=
  ⟨by simp, by simp [meanShare], by simp [varianceShare]⟩

/-- A class that starts without demand gets its share. -/
theorem Received.shares {curve : Curve ℝ} {estimate : DTD → DTD → ℝ × ℝ} {ps : List (DTD × DTD)}
    {b b' : BookingClass ℝ} (h : Received k estimate curve ps b b') (hzero : k.mean b = 0 ∧ k.stdDev b = 0) :
    k.mean b' = meanShare estimate curve ps ∧ k.stdDev b' ^ 2 = varianceShare estimate curve ps := by
  refine ⟨?_, ?_⟩
  · rw [h.mean, hzero.1, zero_add]
  · rw [h.variance, hzero.2, zero_pow two_ne_zero, zero_add]

theorem Received.append {curve : Curve ℝ} {estimate : DTD → DTD → ℝ × ℝ} {ps qs : List (DTD × DTD)}
    {b b' b'' : BookingClass ℝ} (h : Received k estimate curve ps b b')
    (h' : Received k estimate curve qs b' b'') : Received k estimate curve (ps ++ qs) b b'' := by
  refine ⟨fun p hp => ?_, ?_, ?_⟩
  · exact (List.mem_append.1 hp).elim (h.days p) (h'.days p)
  · rw [h'.mean, h.mean]
    simp only [meanShare, List.map_append, List.sum_append]
    ring
  · rw [h'.variance, h.variance]
    simp only [varianceShare, List.map_append, List.sum_append]
    ring

/-- Dispatching one kind of demand leaves the other kind and the yields as they are. -/
theorem dispatch_other (hn : (curves.map Prod.fst).Nodup) (h : dispatch k curves m s d classes = .ok out)
    {k' : DemandKind} (hk : k' ≠ k) (c : κ) :
    k'.mean (out c) = k'.mean (classes c) ∧ k'.stdDev (out c) = k'.stdDev (classes c) := by
  obtain ⟨hin, hout⟩ := dispatch_spec curves classes hn h
  by_cases hc : c ∈ curves.map Prod.fst
  · obtain ⟨⟨c', curve⟩, hmem, rfl⟩ := List.mem_map.1 hc
    obtain ⟨f, -, hf⟩ := hin c' curve hmem
    rw [hf]
    exact ⟨DemandKind.mean_set_of_ne _ _ _ _ _ hk, DemandKind.stdDev_set_of_ne _ _ _ _ _ hk⟩
  · rw [hout c hc]
    exact ⟨rfl, rfl⟩

theorem dispatch_yield (hn : (curves.map Prod.fst).Nodup) (h : dispatch k curves m s d classes = .ok out)
    (c : κ) : (out c).yield = (classes c).yield := by
  obtain ⟨hin, hout⟩ := dispatch_spec curves classes hn h
  by_cases hc : c ∈ curves.map Prod.fst
  · obtain ⟨⟨c', curve⟩, hmem, rfl⟩ := List.mem_map.1 hc
    obtain ⟨f, -, hf⟩ := hin c' curve hmem
    rw [hf, addDemand_yield]
  · rw [hout c hc]

/-- The map that a kind of demand is dispatched with. -/
def curvesOf (iDispatchingMap iFAMap : List (κ × Curve ℝ)) : DemandKind → List (κ × Curve ℝ)
  | .price => iDispatchingMap
  | .cumuPrice => iFAMap

/-- What a run of the DCP loop over the intervals `ps` leaves: by kind, the classes of the map have
received their share and the other ones are unchanged. -/
structure IntervalsSpec (iDispatchingMap iFAMap : List (κ × Curve ℝ)) (estimate : DTD → DTD → ℝ × ℝ)
    (ps : List (DTD × DTD)) (before after : ClassStore κ ℝ) : Prop where
  received : ∀ k c curve, (c, curve) ∈ curvesOf iDispatchingMap iFAMap k →
    Received k estimate curve ps (before c) (after c)
  other : ∀ k c, c ∉ (curvesOf iDispatchingMap iFAMap k).map Prod.fst →
    k.mean (after c) = k.mean (before c) ∧ k.stdDev (after c) = k.stdDev (before c)
  yield : ∀ c, (after c).yield = (before c).yield

section intervals
variable {iDispatchingMap iFAMap : List (κ × Curve ℝ)} {estimate : DTD → DTD → ℝ × ℝ} {iCurrentDTD : DTD}
  {ps qs : List (DTD × DTD)} {before between after : ClassStore κ ℝ}

omit [DecidableEq κ] in
theorem IntervalsSpec.append (h : IntervalsSpec iDispatchingMap iFAMap estimate ps before between)
    (h' : IntervalsSpec iDispatchingMap iFAMap estimate qs between after) :
    IntervalsSpec iDispatchingMap iFAMap estimate (ps ++ qs) before after := by
  refine ⟨fun k c curve hc => (h.received k c curve hc).append (h'.received k c curve hc),
    fun k c hc => ?_, fun c => (h'.yield c).trans (h.yield c)⟩
  exact ⟨(h'.other k c hc).1.trans (h.other k c hc).1, (h'.other k c hc).2.trans (h.other k c hc).2⟩

/-- **One interval** that is not skipped. -/
theorem dispatch_both_spec (hd : (iDispatchingMap.map Prod.fst).Nodup) (hfa : (iFAMap.map Prod.fst).Nodup)
    {p : DTD × DTD} (h₁ : dispatch .price iDispatchingMap (estimate p.1 p.2).1 (estimate p.1 p.2).2 p.1
      before = .ok between)
    (h₂ : dispatch .cumuPrice iFAMap (estimate p.1 p.2).1 (estimate p.1 p.2).2 p.1 between = .ok after) :
    IntervalsSpec iDispatchingMap iFAMap estimate [p] before after := by
  -- a class that receives demand of one kind, where the other dispatching leaves that kind alone
  have hreceived : ∀ {k : DemandKind} {curve : Curve ℝ} {f : ℝ} {b b' : BookingClass ℝ},
      curve p.1 = some f → k.mean b' = k.mean (addDemand k (estimate p.1 p.2).1 (estimate p.1 p.2).2 f b) →
      k.stdDev b' = k.stdDev (addDemand k (estimate p.1 p.2).1 (estimate p.1 p.2).2 f b) →
      Received k estimate curve [p] b b' := by
    intro k curve f b b' hf hm hs
    refine ⟨by simp [hf], ?_, ?_⟩
    · rw [hm]; simp [addDemand, meanShare, hf]
    · rw [hs]
      simp only [addDemand, DemandKind.stdDev_set, varianceShare, List.map_cons, List.map_nil,
        List.sum_cons, List.sum_nil, add_zero, hf, Option.getD_some]
      rw [Real.sq_sqrt (add_nonneg (mul_self_nonneg _) (mul_self_nonneg _))]
      ring
  obtain ⟨hin₁, hout₁⟩ := dispatch_spec _ _ hd h₁
  obtain ⟨hin₂, hout₂⟩ := dispatch_spec _ _ hfa h₂
  have hkeep₁ := dispatch_other hd h₁ (by decide : DemandKind.cumuPrice ≠ .price)
  have hkeep₂ := dispatch_other hfa h₂ (by decide : DemandKind.price ≠ .cumuPrice)
  refine ⟨fun k c curve hc => ?_, fun k c hc => ?_, fun c => ?_⟩
  · cases k with
    | price =>
      obtain ⟨f, hf, hb⟩ := hin₁ c curve hc
      exact hreceived hf (by rw [(hkeep₂ c).1, hb]) (by rw [(hkeep₂ c).2, hb])
    | cumuPrice =>
      obtain ⟨f, hf, hb⟩ := hin₂ c curve hc
      refine hreceived hf ?_ ?_
      · rw [hb, addDemand, addDemand, DemandKind.mean_set, DemandKind.mean_set, (hkeep₁ c).1]
      · rw [hb, addDemand, addDemand, DemandKind.stdDev_set, DemandKind.stdDev_set, (hkeep₁ c).2]
  · cases k with
    | price => exact ⟨by rw [(hkeep₂ c).1, hout₁ c hc], by rw [(hkeep₂ c).2, hout₁ c hc]⟩
    | cumuPrice => exact ⟨by rw [hout₂ c hc, (hkeep₁ c).1], by rw [hout₂ c hc, (hkeep₁ c).2]⟩
  · rw [dispatch_yield hfa h₂, dispatch_yield hd h₁]

theorem forecastInterval_spec (hd : (iDispatchingMap.map Prod.fst).Nodup) (hfa : (iFAMap.map Prod.fst).Nodup)
    {p : DTD × DTD} {run run' : ClassStore κ ℝ × FamilyForecast ℝ}
    (h : forecastInterval iDispatchingMap iFAMap estimate iCurrentDTD run p = .ok run') :
    IntervalsSpec iDispatchingMap iFAMap estimate (if p.2 < iCurrentDTD then [p] else []) run.1 run'.1 := by
  simp only [forecastInterval] at h
  by_cases hlt : p.2 < iCurrentDTD
  · rw [if_pos hlt] at h ⊢
    obtain ⟨between, h₁, h⟩ := bind_eq_ok.1 h
    obtain ⟨after, h₂, h⟩ := bind_eq_ok.1 h
    obtain rfl := Except.ok.inj h
    exact dispatch_both_spec hd hfa h₁ h₂
  · rw [if_neg hlt] at h ⊢
    obtain rfl := Except.ok.inj h
    exact ⟨fun k c curve _ => .none curve estimate _, fun _ _ _ => ⟨rfl, rfl⟩, fun _ => rfl⟩

/-- **The DCP loop**: every class receives its share of the intervals that are not skipped. -/
theorem forecastLoop_spec (hd : (iDispatchingMap.map Prod.fst).Nodup) (hfa : (iFAMap.map Prod.fst).Nodup) :
    ∀ (ps : List (DTD × DTD)) (run run' : ClassStore κ ℝ × FamilyForecast ℝ),
      ps.foldlM (forecastInterval iDispatchingMap iFAMap estimate iCurrentDTD) run = .ok run' →
      IntervalsSpec iDispatchingMap iFAMap estimate (ps.filter fun p => p.2 < iCurrentDTD) run.1 run'.1
  | [], run, run', h => by
    obtain rfl := Except.ok.inj h
    exact ⟨fun k c curve _ => .none curve estimate _, fun _ _ _ => ⟨rfl, rfl⟩, fun _ => rfl⟩
  | p :: ps, run, run', h => by
    rw [List.foldlM_cons, bind_eq_ok] at h
    obtain ⟨run₁, h₁, h₂⟩ := h
    have hp := forecastInterval_spec hd hfa h₁
    have hps := forecastLoop_spec hd hfa ps run₁ run' h₂
    have happ := hp.append hps
    rw [List.filter_cons]
    by_cases hlt : p.2 < iCurrentDTD <;> simpa [hlt] using happ

theorem forecastIntervals_spec {lWholeDCPList : List DTD} {run run' : ClassStore κ ℝ × FamilyForecast ℝ}
    (hd : (iDispatchingMap.map Prod.fst).Nodup) (hfa : (iFAMap.map Prod.fst).Nodup)
    (h : forecastIntervals iDispatchingMap iFAMap estimate lWholeDCPList iCurrentDTD run = .ok run') :
    IntervalsSpec iDispatchingMap iFAMap estimate (remaining lWholeDCPList iCurrentDTD) run.1 run'.1 :=
  forecastLoop_spec hd hfa _ run run' h

/-- The DCP loop succeeds if every curve has every DCP that starts an interval. -/
theorem forecastLoop_ok (iDispatchingMap iFAMap : List (κ × Curve ℝ)) (estimate : DTD → DTD → ℝ × ℝ)
    (iCurrentDTD : DTD) : ∀ (ps : List (DTD × DTD)) (run : ClassStore κ ℝ × FamilyForecast ℝ),
    (∀ p ∈ ps, ∀ entry ∈ iDispatchingMap ++ iFAMap, (entry.2 p.1).isSome) →
    ∃ run', ps.foldlM (forecastInterval iDispatchingMap iFAMap estimate iCurrentDTD) run = .ok run'
  | [], run, _ => ⟨run, rfl⟩
  | p :: ps, run, h => by
    have hhead := h p List.mem_cons_self
    have hstep : ∃ run₁, forecastInterval iDispatchingMap iFAMap estimate iCurrentDTD run p = .ok run₁ := by
      simp only [forecastInterval]
      by_cases hlt : p.2 < iCurrentDTD
      · rw [if_pos hlt]
        obtain ⟨between, h₁⟩ := dispatch_ok (k := .price) (m := (estimate p.1 p.2).1)
          (s := (estimate p.1 p.2).2) (d := p.1) iDispatchingMap run.1
          fun entry he => hhead entry (List.mem_append_left _ he)
        obtain ⟨after, h₂⟩ := dispatch_ok (k := .cumuPrice) (m := (estimate p.1 p.2).1)
          (s := (estimate p.1 p.2).2) (d := p.1) iFAMap between
          fun entry he => hhead entry (List.mem_append_right _ he)
        rw [dispatchDemandForecast, h₁, ok_bind, dispatchDemandForecastForFA, h₂]
        exact ⟨_, rfl⟩
      · rw [if_neg hlt]
        exact ⟨run, rfl⟩
    obtain ⟨run₁, h₁⟩ := hstep
    obtain ⟨run', h'⟩ := forecastLoop_ok iDispatchingMap iFAMap estimate iCurrentDTD ps run₁
      fun q hq => h q (List.mem_cons_of_mem _ hq)
    exact ⟨run', by rw [List.foldlM_cons, h₁, ok_bind, h']⟩

end intervals

end dispatching

/-! ## Classes without demand -/

section zero
variable {κ : Type*} [DecidableEq κ] {cabin : SegmentCabin κ ℝ} {c : κ}

theorem setDemandForecastsToZero_classes (f : Forecasts κ ℝ) (hc : c ∈ cabin.bookingClasses) :
    (setDemandForecastsToZero cabin f).classes c = (f.classes c).withoutDemand := by
  have hflat : (setDemandForecastsToZero cabin f).classes =
      (cabin.fareFamilies.flatMap FareFamily.bookingClasses).foldl
        (fun s c => ClassStore.modify s c BookingClass.withoutDemand) f.classes := by
    simp only [setDemandForecastsToZero, List.foldl_flatMap]
  rw [hflat]
  exact ClassStore.foldl_modify_of_mem _ _ cabin.nodup (cabin.union.mem_iff.1 hc)

end zero

end Rmol
