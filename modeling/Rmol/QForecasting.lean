import Rmol.Dispatching
/-!
# `QForecasting::forecast` (`QForecasting.cpp:30-128`)

Q-forecasting treats a cabin as one class list with the FRAT5 curve of its lowest fare family. Each
interval is dispatched twice: `dispatchDemandForecast` gives every class its own demand, and
`dispatchDemandForecastForFA` should give it the demand at or above it, that is the sell-up factor
(`NewQFF.cpp:142` passes the sell-up curves). `QForecasting.cpp:115` passes the dispatching curves
again, so the cumulative attributes come out equal to the others.

`cumulative_of_sellUp` is the relation that the sell-up curves give, `forecast_cumulativeDemand_iff`
says when the code has it.
-/

namespace Rmol

variable {κ : Type*} [DecidableEq κ]

namespace QForecasting

/-- `estimate` is what the historical bookings of an interval are unconstrained to; converting them
is all that the sell-up curves are used for. -/
noncomputable def forecast (cabin : SegmentCabin κ ℝ) (estimate : DTD → DTD → ℝ × ℝ) (lWholeDCPList : List DTD)
    (iCurrentDTD : DTD) (f : Forecasts κ ℝ) : Except ForecastFault (Forecasts κ ℝ) :=
  match cabin.fareFamilies.getLast? with
  | none => .error .noFareFamily
  | some lFF => do
    let yield := fun lBC => (f.classes lBC).yield
    let _lBCSellUpCurveMap ← computeSellUpFactorCurves yield lFF.frat5Curve cabin.bookingClasses
    let lBCDispatchingCurveMap ← computeDispatchingFactorCurves yield lFF.frat5Curve cabin.bookingClasses
    let idx := cabin.fareFamilies.length - 1
    -- the second argument is the map for `dispatchDemandForecastForFA` (`:115`)
    let run ← forecastIntervals lBCDispatchingCurveMap lBCDispatchingCurveMap estimate lWholeDCPList
      iCurrentDTD (f.classes, f.families idx)
    return ⟨run.1, Function.update f.families idx run.2⟩

end QForecasting

/-! ## Demand at or above a class -/

/-- The cumulative price-oriented demand of each class of a list (highest first) is the sum of the
price-oriented demand of the class and of all classes above it. -/
def CumulativeDemand (l : List κ) (classes : ClassStore κ ℝ) : Prop :=
  ∀ above c below, l = above ++ c :: below →
    (classes c).cumuPriceDemMean = ((above ++ [c]).map fun b => (classes b).priceDemMean).sum ∧
    (classes c).cumuPriceDemStdDev ^ 2 = ((above ++ [c]).map fun b => (classes b).priceDemStdDev ^ 2).sum

section relation
variable {yield : κ → ℝ} {F : Curve ℝ} {l : List κ} {disp su : List (κ × Curve ℝ)}
  {estimate : DTD → DTD → ℝ × ℝ} {ps : List (DTD × DTD)} {before after : ClassStore κ ℝ}

omit [DecidableEq κ] in
/-- A class list splits at a class as the curves do, from the other end. -/
theorem curves_split {curves : List (κ × Curve ℝ)} (hkeys : curves.map Prod.fst = l.reverse) {above below : List κ}
    {c : κ} (hl : l = above ++ c :: below) : ∃ pre curve suf, curves = pre ++ (c, curve) :: suf ∧
      suf.map Prod.fst = above.reverse := by
  rw [hl, List.reverse_append, List.reverse_cons, List.append_assoc, List.singleton_append] at hkeys
  obtain ⟨pre, rest, rfl, -, hrest⟩ := List.map_eq_append_iff.1 hkeys
  obtain ⟨⟨c', curve⟩, suf, rfl, hc, hsuf⟩ := List.map_eq_cons_iff.1 hrest
  obtain rfl : c' = c := hc
  exact ⟨pre, curve, suf, rfl, hsuf⟩

omit [DecidableEq κ] in
/-- Where the same curves are dispatched twice, cumulative demand is plain demand. -/
theorem cumu_eq_price {curve : Curve ℝ} {c : κ} (h : IntervalsSpec disp disp estimate ps before after)
    (hc : (c, curve) ∈ disp) (hzero : ∀ k : DemandKind, k.mean (before c) = 0 ∧ k.stdDev (before c) = 0)
    (k : DemandKind) : k.mean (after c) = meanShare estimate curve ps ∧
      k.stdDev (after c) ^ 2 = varianceShare estimate curve ps :=
  (h.received k c curve (by cases k <;> exact hc)).shares (hzero k)

/-- A share with positive factors is zero only where the forecasts are. -/
theorem share_eq_zero {curve : Curve ℝ} (hest : ∀ p ∈ ps, 0 ≤ (estimate p.1 p.2).1)
    (hcurve : ∀ p ∈ ps, 0 < (curve p.1).getD 0) (hm : meanShare estimate curve ps = 0)
    (hv : varianceShare estimate curve ps = 0) : ∀ p ∈ ps, estimate p.1 p.2 = (0, 0) := by
  intro p hp
  have hpos := hcurve p hp
  have hmean := List.all_zero_of_le_zero_le_of_sum_eq_zero (l := ps.map fun p : DTD × DTD =>
    (estimate p.1 p.2).1 * (curve p.1).getD 0) (fun x hx => by
      obtain ⟨q, hq, rfl⟩ := List.mem_map.1 hx
      exact mul_nonneg (hest q hq) (hcurve q hq).le) hm (List.mem_map_of_mem hp)
  have hvar := List.all_zero_of_le_zero_le_of_sum_eq_zero (l := ps.map fun p : DTD × DTD =>
    ((estimate p.1 p.2).2 * √((curve p.1).getD 0)) ^ 2) (fun x hx => by
      obtain ⟨q, -, rfl⟩ := List.mem_map.1 hx
      exact sq_nonneg _) hv (List.mem_map_of_mem hp)
  have h₁ : (estimate p.1 p.2).1 = 0 := (mul_eq_zero.1 hmean).resolve_right hpos.ne'
  have h₂ : (estimate p.1 p.2).2 = 0 :=
    (mul_eq_zero.1 (pow_eq_zero_iff two_ne_zero |>.1 hvar)).resolve_right (Real.sqrt_pos.2 hpos).ne'
  exact Prod.ext h₁ h₂

theorem share_of_nothing (curve : Curve ℝ) (hnone : ∀ p ∈ ps, estimate p.1 p.2 = (0, 0)) :
    meanShare estimate curve ps = 0 ∧ varianceShare estimate curve ps = 0 := by
  refine ⟨List.sum_eq_zero fun x hx => ?_, List.sum_eq_zero fun x hx => ?_⟩
  all_goals
    obtain ⟨p, hp, rfl⟩ := List.mem_map.1 hx
    simp [hnone p hp]

omit [DecidableEq κ] in
/-- Classes without any demand have the relation. -/
theorem cumulativeDemand_of_nothing (hzero : ∀ c ∈ l, ∀ k : DemandKind, k.mean (after c) = 0 ∧ k.stdDev (after c) ^ 2 = 0) :
    CumulativeDemand l after := by
  intro above c below hl
  have hmem : ∀ b ∈ above ++ [c], b ∈ l := by
    intro b hb
    rw [hl]
    rcases List.mem_append.1 hb with hb | hb
    · exact List.mem_append_left _ hb
    · exact List.mem_append_right _ (List.mem_singleton.1 hb ▸ List.mem_cons_self)
  have hc := hzero c (hmem c (List.mem_append_right _ List.mem_cons_self)) .cumuPrice
  refine ⟨hc.1.trans (List.sum_eq_zero fun x hx => ?_).symm, hc.2.trans (List.sum_eq_zero fun x hx => ?_).symm⟩
  · obtain ⟨b, hb, rfl⟩ := List.mem_map.1 hx
    exact (hzero b (hmem b hb) .price).1
  · obtain ⟨b, hb, rfl⟩ := List.mem_map.1 hx
    exact (hzero b (hmem b hb) .price).2

/-- The highest class gets its whole sell-up factor, which is positive. -/
theorem highest_factor_pos {top : κ} {rest : List κ}
    (hdisp : computeDispatchingFactorCurves yield F (top :: rest) = .ok disp) (hpos : ∀ c ∈ top :: rest, 0 < yield c) :
    ∃ curve, (top, curve) ∈ disp ∧ ∀ d, (curve d).isSome → 0 < (curve d).getD 0 := by
  obtain ⟨hkeys, -, hdays, lowest, hlow, hsum⟩ := dispatchingCurves_spec hdisp
  obtain ⟨pre, curve, suf, hsplit, hsuf⟩ := curves_split hkeys (List.nil_append (top :: rest)).symm
  obtain rfl : suf = [] := by simpa using hsuf
  have hmem : (top, curve) ∈ disp := by simp [hsplit]
  refine ⟨curve, hmem, fun d hday => ?_⟩
  rw [hdays (top, curve) hmem] at hday
  obtain ⟨f, hf⟩ := Option.isSome_iff_exists.1 hday
  have htop := hsum (hpos lowest (List.mem_of_getLast? hlow)) pre top curve [] hsplit d f hf
  simp only [List.map_cons, List.map_nil, List.sum_cons, List.sum_nil, add_zero] at htop
  rw [htop]
  exact sellUpFactor_pos _ _ _

/-- **Dispatching curves given twice**: the cumulative demand is the demand at or above each class
only for a single class or without any demand. What the highest class gets, the next one does not count. -/
theorem cumulativeDemand_iff (hdisp : computeDispatchingFactorCurves yield F l = .ok disp)
    (hpos : ∀ c ∈ l, 0 < yield c) (hest : ∀ p ∈ ps, 0 ≤ (estimate p.1 p.2).1)
    (hzero : ∀ c ∈ l, ∀ k : DemandKind, k.mean (before c) = 0 ∧ k.stdDev (before c) = 0)
    (h : IntervalsSpec disp disp estimate ps before after) :
    CumulativeDemand l after ↔ l.length ≤ 1 ∨ ∀ p ∈ ps, estimate p.1 p.2 = (0, 0) := by
  obtain ⟨hkeys, -⟩ := dispatchingCurves_spec hdisp
  have hshare : ∀ c ∈ l, ∃ curve, (c, curve) ∈ disp ∧ ∀ k : DemandKind,
      k.mean (after c) = meanShare estimate curve ps ∧
      k.stdDev (after c) ^ 2 = varianceShare estimate curve ps := by
    intro c hc
    obtain ⟨above, below, hl⟩ := List.append_of_mem hc
    obtain ⟨pre, curve, suf, hsplit, -⟩ := curves_split hkeys hl
    have hmem : (c, curve) ∈ disp := by simp [hsplit]
    exact ⟨curve, hmem, cumu_eq_price h hmem (hzero c hc)⟩
  have hsame : ∀ c ∈ l, (after c).cumuPriceDemMean = (after c).priceDemMean ∧
      (after c).cumuPriceDemStdDev ^ 2 = (after c).priceDemStdDev ^ 2 := by
    intro c hc
    obtain ⟨curve, -, hk⟩ := hshare c hc
    exact ⟨(hk .cumuPrice).1.trans (hk .price).1.symm, (hk .cumuPrice).2.trans (hk .price).2.symm⟩
  constructor
  · intro hrel
    rcases l with _ | ⟨top, _ | ⟨second, rest⟩⟩
    · left; simp
    · left; simp
    · right
      -- the relation at the second class says that the highest one received nothing
      obtain ⟨hm, hv⟩ := hrel [top] second rest rfl
      rw [(hsame second (by simp)).1] at hm
      rw [(hsame second (by simp)).2] at hv
      simp only [List.singleton_append, List.map_cons, List.map_nil, List.sum_cons, List.sum_nil, add_zero,
        right_eq_add] at hm hv
      obtain ⟨curve, hmem, hfactor⟩ := highest_factor_pos hdisp hpos
      obtain ⟨hshareM, hshareV⟩ := cumu_eq_price h hmem (hzero top (by simp)) .price
      have hreceived := h.received .price top curve hmem
      exact share_eq_zero hest (fun p hp => hfactor p.1 (hreceived.days p hp)) (hshareM.symm.trans hm)
        (hshareV.symm.trans hv)
  · rintro (hlen | hnone)
    · intro above c below hl
      obtain rfl : above = [] := by
        rw [hl, List.length_append, List.length_cons] at hlen
        exact List.length_eq_zero_iff.1 (by omega)
      simpa using hsame c (by simp [hl])
    · refine cumulativeDemand_of_nothing fun b hb k => ?_
      obtain ⟨curve, -, hk⟩ := hshare b hb
      rw [(hk k).1, (hk k).2]
      exact share_of_nothing curve hnone

omit [DecidableEq κ] in
/-- The shares of some curves add up by day. -/
theorem meanShare_sum (estimate : DTD → DTD → ℝ × ℝ) (ps : List (DTD × DTD)) : ∀ entries : List (κ × Curve ℝ),
    (entries.map fun entry => meanShare estimate entry.2 ps).sum =
      (ps.map fun p => (estimate p.1 p.2).1 * (entries.map fun entry => (entry.2 p.1).getD 0).sum).sum
  | [] => by simp
  | entry :: entries => by
    simp only [List.map_cons, List.sum_cons, meanShare_sum estimate ps entries, mul_add, List.sum_map_add]
    rfl

omit [DecidableEq κ] in
theorem varianceShare_sum (estimate : DTD → DTD → ℝ × ℝ) (ps : List (DTD × DTD)) :
    ∀ entries : List (κ × Curve ℝ), (∀ entry ∈ entries, ∀ p ∈ ps, 0 ≤ (entry.2 p.1).getD 0) →
    (entries.map fun entry => varianceShare estimate entry.2 ps).sum =
      (ps.map fun p => (estimate p.1 p.2).2 ^ 2 * (entries.map fun entry => (entry.2 p.1).getD 0).sum).sum
  | [], _ => by simp
  | entry :: entries, h => by
    have ih := varianceShare_sum estimate ps entries fun e he => h e (List.mem_cons_of_mem _ he)
    simp only [List.map_cons, List.sum_cons, ih, mul_add, List.sum_map_add]
    congr 1
    unfold varianceShare
    refine congrArg List.sum (List.map_congr_left fun p hp => ?_)
    rw [mul_pow, Real.sq_sqrt (h entry List.mem_cons_self p hp)]

/-- A dispatching factor is what the sell-up factor of the next higher class leaves: not negative. -/
theorem dispatchingFactor_nonneg (hdisp : computeDispatchingFactorCurves yield F l = .ok disp)
    (hF : ∀ d f, F d = some f → 1 < f) (hdec : l.Pairwise fun a b => yield b < yield a)
    (hpos : ∀ c ∈ l, 0 < yield c) : ∀ entry ∈ disp, ∀ d, 0 ≤ (entry.2 d).getD 0 := by
  obtain ⟨hkeys, -, hdays, lowest, hlow, hsum⟩ := dispatchingCurves_spec hdisp
  have hqpos := hpos lowest (List.mem_of_getLast? hlow)
  intro ⟨c, curve⟩ he d
  cases hd : F d with
  | none =>
    have hnone := hdays _ he d
    rw [hd, Option.isSome_none, Option.isSome_eq_false_iff, Option.isNone_iff_eq_none] at hnone
    rw [hnone]
    exact le_rfl
  | some f =>
    obtain ⟨pre, suf, hsplit⟩ := List.append_of_mem he
    have hc := hsum hqpos pre c curve suf hsplit d f hd
    rw [List.map_cons, List.sum_cons] at hc
    cases suf with
    | nil => rw [List.map_nil, List.sum_nil, add_zero] at hc; rw [hc]; exact (sellUpFactor_pos _ _ _).le
    | cons next suf =>
      have hnext := hsum hqpos (pre ++ [(c, curve)]) next.1 next.2 suf (by simp [hsplit]) d f hd
      rw [hnext] at hc
      -- the next class of the list has the higher yield
      have hup : (disp.map Prod.fst).Pairwise fun a b => yield a < yield b := by
        rwa [hkeys, List.pairwise_reverse]
      rw [hsplit, List.map_append, List.pairwise_append, List.map_cons, List.pairwise_cons] at hup
      have hlt := sellUpFactor_lt (hF d f hd) hqpos (hup.2.1.1 next.1 (by simp))
      linarith

/-- The curves of a class and of the classes above it add up to the sell-up factor of the class. -/
theorem curves_at_or_above (hdisp : computeDispatchingFactorCurves yield F l = .ok disp) (hpos : ∀ c ∈ l, 0 < yield c)
    {lowest c : κ} (hlow : l.getLast? = some lowest) {above below : List κ} (hl : l = above ++ c :: below) :
    ∃ entries : List (κ × Curve ℝ), (∀ entry ∈ entries, entry ∈ disp ∧ entry.1 ∈ l) ∧
      (entries.map Prod.fst).Perm (above ++ [c]) ∧
      ∀ d f, F d = some f →
        (entries.map fun entry => (entry.2 d).getD 0).sum = sellUpFactor f (yield c) (yield lowest) := by
  obtain ⟨hkeys, -, -, lowest', hlow', hsum⟩ := dispatchingCurves_spec hdisp
  obtain rfl : lowest' = lowest := Option.some.inj (hlow'.symm.trans hlow)
  obtain ⟨pre, curve, suf, hsplit, hsuf⟩ := curves_split hkeys hl
  have hentries : ∀ entry ∈ (c, curve) :: suf, entry ∈ disp := fun entry he => by
    rw [hsplit]; exact List.mem_append_right _ he
  refine ⟨(c, curve) :: suf, fun entry he => ⟨hentries entry he, ?_⟩, ?_, ?_⟩
  · rw [← List.mem_reverse, ← hkeys]
    exact List.mem_map_of_mem (hentries entry he)
  · rw [List.map_cons, hsuf]
    exact ((List.reverse_perm above).cons c).trans (List.perm_append_singleton c above).symm
  · exact hsum (hpos lowest' (List.mem_of_getLast? hlow)) pre c curve suf hsplit

/-- **Sell-up curves for the cumulative attributes** give the relation: the sell-up factor of a class
is the sum of the dispatching factors of the class and of all classes above it. -/
theorem cumulative_of_sellUp (hdisp : computeDispatchingFactorCurves yield F l = .ok disp)
    (hsu : computeSellUpFactorCurves yield F l = .ok su) (hF : ∀ d f, F d = some f → 1 < f)
    (hdec : l.Pairwise fun a b => yield b < yield a) (hpos : ∀ c ∈ l, 0 < yield c)
    (hzero : ∀ c ∈ l, ∀ k : DemandKind, k.mean (before c) = 0 ∧ k.stdDev (before c) = 0)
    (h : IntervalsSpec disp su estimate ps before after) : CumulativeDemand l after := by
  intro above c below hl
  obtain ⟨hsuKeys, -, -, lowest, hlow, hsuCurve⟩ := sellUpCurves_spec hsu
  have hqpos := hpos lowest (List.mem_of_getLast? hlow)
  obtain ⟨entries, hentries, hperm, hsum⟩ := curves_at_or_above hdisp hpos hlow hl
  obtain ⟨pre, suCurve, suf, hsplit, -⟩ := curves_split hsuKeys hl
  have hc := h.received .cumuPrice c suCurve (by simp [curvesOf, hsplit])
  obtain rfl := hsuCurve hqpos c suCurve (by simp [hsplit])
  -- on the days of the intervals the factors of these entries add up to the sell-up factor of `c`
  have hday : ∀ p ∈ ps, (entries.map fun entry => (entry.2 p.1).getD 0).sum =
      ((overFRAT5 F fun f => sellUpFactor f (yield c) (yield lowest)) p.1).getD 0 := by
    intro p hp
    obtain ⟨f, hf⟩ := Option.isSome_iff_exists.1
      (show (F p.1).isSome by simpa [overFRAT5] using hc.days p hp)
    rw [hsum p.1 f hf]
    simp [overFRAT5, hf]
  have hprice : ∀ entry ∈ entries, DemandKind.price.mean (after entry.1) =
      meanShare estimate entry.2 ps ∧ DemandKind.price.stdDev (after entry.1) ^ 2 =
        varianceShare estimate entry.2 ps := by
    intro entry he
    obtain ⟨hmem, hl'⟩ := hentries entry he
    exact (h.received .price entry.1 entry.2 hmem).shares (hzero _ hl' .price)
  obtain ⟨hcumuMean, hcumuVariance⟩ := hc.shares (hzero c (by simp [hl]) .cumuPrice)
  constructor
  · calc (after c).cumuPriceDemMean
      _ = meanShare estimate (overFRAT5 F fun f => sellUpFactor f (yield c) (yield lowest)) ps := hcumuMean
      _ = (entries.map fun entry => meanShare estimate entry.2 ps).sum := by
          rw [meanShare_sum]
          exact congrArg List.sum (List.map_congr_left fun p hp => by rw [hday p hp])
      _ = ((entries.map Prod.fst).map fun b => (after b).priceDemMean).sum := by
          rw [List.map_map]
          exact congrArg List.sum (List.map_congr_left fun e he => (hprice e he).1.symm)
      _ = _ := (hperm.map _).sum_eq
  · calc (after c).cumuPriceDemStdDev ^ 2
      _ = varianceShare estimate (overFRAT5 F fun f => sellUpFactor f (yield c) (yield lowest)) ps := hcumuVariance
      _ = (entries.map fun entry => varianceShare estimate entry.2 ps).sum := by
          rw [varianceShare_sum estimate ps _ fun e he p _ =>
            dispatchingFactor_nonneg hdisp hF hdec hpos e (hentries e he).1 p.1]
          refine congrArg List.sum (List.map_congr_left fun p hp => ?_)
          rw [hday p hp, mul_pow, Real.sq_sqrt]
          cases hFp : F p.1 <;> simp [overFRAT5, hFp, (sellUpFactor_pos _ _ _).le]
      _ = ((entries.map Prod.fst).map fun b => (after b).priceDemStdDev ^ 2).sum := by
          rw [List.map_map]
          exact congrArg List.sum (List.map_congr_left fun e he => (hprice e he).2.symm)
      _ = _ := (hperm.map _).sum_eq

end relation

/-! ## The Q-forecast of a cabin -/

section forecast
variable {cabin : SegmentCabin κ ℝ} {estimate : DTD → DTD → ℝ × ℝ} {lWholeDCPList : List DTD}
  {iCurrentDTD : DTD} {f out : Forecasts κ ℝ}

/-- A forecast that succeeds has dispatched the dispatching curves of the whole class list twice. -/
theorem QForecasting.forecast_spec (h : QForecasting.forecast cabin estimate lWholeDCPList iCurrentDTD f = .ok out) :
    ∃ F disp, computeDispatchingFactorCurves (fun c => (f.classes c).yield) F cabin.bookingClasses = .ok disp ∧
      IntervalsSpec disp disp estimate (remaining lWholeDCPList iCurrentDTD) f.classes out.classes := by
  unfold forecast at h
  split at h
  · cases h
  · obtain ⟨_, -, h⟩ := bind_eq_ok.1 h
    obtain ⟨disp, hdisp, h⟩ := bind_eq_ok.1 h
    obtain ⟨run, hrun, h⟩ := bind_eq_ok.1 h
    obtain rfl := Except.ok.inj h
    obtain ⟨hkeys, hnodup, -⟩ := dispatchingCurves_spec hdisp
    have hn : (disp.map Prod.fst).Nodup := by rwa [hkeys, List.nodup_reverse]
    exact ⟨_, disp, hdisp, forecastIntervals_spec hn hn hrun⟩

/-- **Q-forecasting and cumulative demand**: after a forecast from zero, the cumulative price-oriented
demand of every class is the demand at or above it iff the cabin has a single class or every interval
was forecast to zero. -/
theorem forecast_cumulativeDemand_iff (hyield : ∀ c ∈ cabin.bookingClasses, 0 < (f.classes c).yield)
    (hestimate : ∀ d d', 0 ≤ (estimate d d').1)
    (h : QForecasting.forecast cabin estimate lWholeDCPList iCurrentDTD (setDemandForecastsToZero cabin f) =
      .ok out) :
    CumulativeDemand cabin.bookingClasses out.classes ↔
      cabin.bookingClasses.length ≤ 1 ∨ ∀ p ∈ remaining lWholeDCPList iCurrentDTD, estimate p.1 p.2 = (0, 0) := by
  obtain ⟨F, disp, hdisp, hspec⟩ := QForecasting.forecast_spec h
  refine cumulativeDemand_iff hdisp (fun c hc => ?_) (fun p _ => hestimate p.1 p.2) (fun c hc k => ?_) hspec
  · rw [setDemandForecastsToZero_classes f hc]
    exact hyield c hc
  · rw [setDemandForecastsToZero_classes f hc]
    cases k <;> exact ⟨rfl, rfl⟩

/-- The forecast succeeds on a cabin with a fare family and a class if the FRAT5 curve has every DCP. -/
theorem QForecasting.forecast_ok {lFF : FareFamily κ ℝ} (hlast : cabin.fareFamilies.getLast? = some lFF)
    (hne : cabin.bookingClasses ≠ []) (hdays : ∀ d, (lFF.frat5Curve d).isSome) :
    ∃ out, QForecasting.forecast cabin estimate lWholeDCPList iCurrentDTD f = .ok out := by
  have hnodup : cabin.bookingClasses.Nodup := cabin.union.nodup_iff.2 cabin.nodup
  obtain ⟨disp, su, hdisp, hsu⟩ := curves_ok (fun c => (f.classes c).yield) lFF.frat5Curve hne hnodup
  obtain ⟨-, -, hcurves, -⟩ := dispatchingCurves_spec hdisp
  obtain ⟨run, hrun⟩ := forecastLoop_ok disp disp estimate iCurrentDTD
    (intervals lWholeDCPList) (f.classes, f.families (cabin.fareFamilies.length - 1))
    fun p _ entry he => by rw [hcurves entry (by simpa using he)]; exact hdays p.1
  unfold forecast
  simp only [hlast, hsu, hdisp, ok_bind, forecastIntervals, hrun, except_pure]
  exact ⟨_, rfl⟩

end forecast

/-! ### Two classes, one interval

Yields 2 and 1, FRAT5 2 on every day, one booking forecast for the interval from day 1 to day 0. -/

def twoClassCabin : SegmentCabin ℕ ℝ where
  bookingClasses := [1, 2]
  fareFamilies := [⟨[1, 2], fun _ => some (2 : ℕ)⟩]
  nodup := by decide
  union := by decide

noncomputable def twoClassForecasts : Forecasts ℕ ℝ where
  classes := fun c => ⟨(if c = 1 then 2 else 1 : ℕ), 0, 0, 0, 0, 0, 0, 0, 0, 0⟩
  families := fun _ => ⟨0, 0⟩

theorem twoClass_forecast_ok : ∃ out, QForecasting.forecast twoClassCabin (fun _ _ => (1, 1)) [1, 0] 2
    (setDemandForecastsToZero twoClassCabin twoClassForecasts) = .ok out :=
  QForecasting.forecast_ok rfl (by simp [twoClassCabin]) (by simp)

theorem forecast_not_cumulativeDemand : ∃ out,
    QForecasting.forecast twoClassCabin (fun _ _ => (1, 1)) [1, 0] 2
      (setDemandForecastsToZero twoClassCabin twoClassForecasts) = .ok out ∧
    ¬ CumulativeDemand twoClassCabin.bookingClasses out.classes := by
  obtain ⟨out, hout⟩ := twoClass_forecast_ok
  refine ⟨out, hout, fun hrel => ?_⟩
  obtain ⟨F, disp, hdisp, hspec⟩ := QForecasting.forecast_spec hout
  have hzero : ∀ c ∈ twoClassCabin.bookingClasses, (setDemandForecastsToZero twoClassCabin
      twoClassForecasts).classes c = (twoClassForecasts.classes c).withoutDemand :=
    fun c hc => setDemandForecastsToZero_classes _ hc
  have hiff := cumulativeDemand_iff hdisp (fun c hc => by
      rw [hzero c hc]; simp only [BookingClass.withoutDemand, twoClassForecasts]; split <;> norm_num)
    (fun _ _ => by norm_num) (fun c hc k => by rw [hzero c hc]; cases k <;> exact ⟨rfl, rfl⟩) hspec
  rcases hiff.1 hrel with hlen | hnone
  · simp [twoClassCabin] at hlen
  · have := hnone (1, 0) (by decide)
    simp at this

theorem forecast_cumulativeDemand_iff_twoClass : ∃ out,
    QForecasting.forecast twoClassCabin (fun _ _ => (1, 1)) [1, 0] 2
      (setDemandForecastsToZero twoClassCabin twoClassForecasts) = .ok out ∧
    (CumulativeDemand twoClassCabin.bookingClasses out.classes ↔
      twoClassCabin.bookingClasses.length ≤ 1 ∨ ∀ p ∈ remaining [1, 0] 2, ((1 : ℝ), (1 : ℝ)) = (0, 0)) := by
  obtain ⟨out, hout⟩ := twoClass_forecast_ok
  exact ⟨out, hout, forecast_cumulativeDemand_iff
    (fun c _ => by simp only [twoClassForecasts]; split <;> norm_num) (fun _ _ => by norm_num) hout⟩

end Rmol
