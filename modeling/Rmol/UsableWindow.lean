import Rmol.ForecastRuns
/-!
# Every window is usable

The window of an interval has two segments of the table (`segmentWindow_bounds`), so its views are in the table. Each
of the five holders has a booking for each of these segments, unconstraining keeps their number, and the loop over a
holder of less than `2^15` bookings goes through all of them: the sample that `computeDistributionParameters` asserts
has more than one value. So no forecast ends in a fault of its window: `forecasters_usableWindow`.
-/

namespace Rmol

/-! ## Runs that never fail on a window -/

/-- The faults of a window: its bounds are not those of segments of the table, or it has no two segments. -/
def ForecasterFault.isOfWindow : ForecasterFault → Bool
  | .segmentIndex | .samples => true
  | _ => false

def WindowUsable {β : Type} (x : Except ForecasterFault β) : Prop :=
  ∀ fault, x = .error fault → fault.isOfWindow = false

section suffice
variable {β γ : Type}

theorem WindowUsable.ok (b : β) : WindowUsable (.ok b : Except ForecasterFault β) := by
  rintro fault ⟨⟩

theorem WindowUsable.error {fault : ForecasterFault} (h : fault.isOfWindow = false) :
    WindowUsable (.error fault : Except ForecasterFault β) := by
  rintro fault' ⟨⟩
  exact h

theorem WindowUsable.ne {x : Except ForecasterFault β} (h : WindowUsable x) {fault : ForecasterFault}
    (hfault : fault.isOfWindow = true) : x ≠ .error fault := by
  intro heq
  rw [h fault heq] at hfault
  cases hfault

theorem WindowUsable.bind {x : Except ForecasterFault β} {f : β → Except ForecasterFault γ} (hx : WindowUsable x)
    (hf : ∀ b, x = .ok b → WindowUsable (f b)) : WindowUsable (x >>= f) := by
  cases x with
  | error e => exact .error (hx e rfl)
  | ok b => exact hf b rfl

theorem WindowUsable.command (x : Except ForecastFault β) : WindowUsable (x.mapError .command) := by
  cases x with
  | error fault => exact .error rfl
  | ok b => exact .ok b

theorem WindowUsable.foldlM {f : γ → β → Except ForecasterFault γ} : ∀ {l : List β} (c : γ),
    (∀ b ∈ l, ∀ c, WindowUsable (f c b)) → WindowUsable (l.foldlM f c)
  | [], c, _ => .ok c
  | b :: l, c, hf => by
    rw [List.foldlM_cons]
    exact (hf b List.mem_cons_self c).bind fun c' _ => foldlM c' fun b hb => hf b (List.mem_cons_of_mem _ hb)

theorem WindowUsable.mapM {f : β → Except ForecasterFault γ} : ∀ {l : List β},
    (∀ b ∈ l, WindowUsable (f b)) → WindowUsable (l.mapM f)
  | [], _ => by
    rw [List.mapM_nil]
    exact .ok _
  | b :: l, hf => by
    rw [List.mapM_cons]
    refine (hf b List.mem_cons_self).bind fun c _ => ?_
    exact (mapM fun b hb => hf b (List.mem_cons_of_mem _ hb)).bind fun cs _ => .ok _

end suffice

/-! ## The five holders -/

/-- A way to fill a holder: one booking for each segment of the window, and no fault of a window of its own. -/
structure FillsWindow (prepare : DTD → DTD → ℕ → ℕ → Except ForecasterFault (List (HistoricalBooking ℝ))) : Prop where
  usable : ∀ d d' iSegmentBegin iSegmentEnd, WindowUsable (prepare d d' iSegmentBegin iSegmentEnd)
  length : ∀ d d' iSegmentBegin iSegmentEnd holder, prepare d d' iSegmentBegin iSegmentEnd = .ok holder →
    holder.length = iSegmentEnd + 1 - iSegmentBegin

section holders
variable {κ : Type} [DecidableEq κ] (snapshots : Snapshots κ)

theorem addHistoricalBookings_length {iSegmentBegin iSegmentEnd : ℕ}
    {booking : ℕ → Except ForecasterFault (HistoricalBooking ℝ)} {holder : List (HistoricalBooking ℝ)}
    (h : addHistoricalBookings [] iSegmentBegin iSegmentEnd booking = .ok holder) :
    holder.length = iSegmentEnd + 1 - iSegmentBegin := by
  obtain ⟨bookings, hbookings, h⟩ := bind_eq_ok.1 h
  obtain rfl := Except.ok.inj h
  rw [List.nil_append, ← (mapM_ok hbookings).length_eq, List.length_range]

theorem addHistoricalBookings_usable {iSegmentBegin iSegmentEnd : ℕ}
    {booking : ℕ → Except ForecasterFault (HistoricalBooking ℝ)} (h : ∀ i, WindowUsable (booking i)) :
    WindowUsable (addHistoricalBookings [] iSegmentBegin iSegmentEnd booking) :=
  (WindowUsable.mapM fun i _ => h i).bind fun _ _ => .ok _

theorem findSellUp_usable (lSellUpCurve : Option (Curve ℝ)) (iDCPBegin : DTD) :
    WindowUsable (findSellUp lSellUpCurve iDCPBegin) := by
  unfold findSellUp
  split
  · exact .error rfl
  · split
    · exact .error rfl
    · exact .ok _

omit [DecidableEq κ] in
theorem qEquivalentBookings_usable (su : List (κ × Curve ℝ)) (iDCPBegin : DTD) (lNbOfBookings : κ → ℝ) :
    WindowUsable (qEquivalentBookings su iDCPBegin lNbOfBookings) :=
  .foldlM 0 fun _ _ _ => (findSellUp_usable _ _).bind fun _ _ => .ok _

omit [DecidableEq κ] in
theorem QForecasting.prepare_fillsWindow (su : List (κ × Curve ℝ)) :
    FillsWindow (preparePriceOrientedHistoricalBooking snapshots [] su) where
  usable := fun _ _ _ _ => addHistoricalBookings_usable fun _ =>
    (qEquivalentBookings_usable _ _ _).bind fun _ _ => .ok _
  length := fun _ _ _ _ _ => addHistoricalBookings_length

omit [DecidableEq κ] in
theorem HybridForecasting.prepare_fillsWindow (lBC : κ) :
    FillsWindow (prepareProductOrientedHistoricalBooking snapshots lBC []) where
  usable := fun _ _ _ _ => addHistoricalBookings_usable fun _ => .ok _
  length := fun _ _ _ _ _ => addHistoricalBookings_length

omit [DecidableEq κ] in
theorem NewQFF.prepare_fillsWindow (su : List (κ × Curve ℝ)) :
    FillsWindow (preparePriceOrientedHistoricalBooking snapshots [] su) where
  usable := fun _ _ _ _ => addHistoricalBookings_usable fun _ =>
    (qEquivalentBookings_usable _ _ _).bind fun _ _ => .ok _
  length := fun _ _ _ _ _ => addHistoricalBookings_length

theorem OldQFF.prepare_fillsWindow (lBCList : List κ) (su : List (κ × Curve ℝ)) :
    FillsWindow (prepareHistoricalBooking snapshots lBCList [] su) where
  usable := fun _ _ _ _ => addHistoricalBookings_usable fun _ => by
    refine WindowUsable.bind (.foldlM 0 fun j _ lNbOfHistoricalBkgs => ?_) fun _ _ => .ok _
    simp only
    split
    · exact .ok _
    · exact (findSellUp_usable _ _).bind fun _ _ => .ok _
  length := fun _ _ _ _ _ => addHistoricalBookings_length

omit [DecidableEq κ] in
theorem BasedForecasting.prepare_fillsWindow (lBC : κ) :
    FillsWindow fun iDCPBegin iDCPEnd iSegmentBegin iSegmentEnd => .ok (prepareHistoricalBooking snapshots.table lBC []
      iDCPBegin iDCPEnd iSegmentBegin iSegmentEnd) where
  usable := fun _ _ _ _ => .ok _
  length := fun _ _ _ _ holder h => by
    obtain rfl := Except.ok.inj h
    simp [prepareHistoricalBooking]

end holders

/-! ## Unconstraining -/

theorem emStep_length (st : EMState) : (emStep st).flights.length = st.flights.length := by
  have hexpectation : (expectation st.lDemandMean st.lStdDev st.flights).length = st.flights.length := by
    simp only [expectation, List.length_append, List.length_map, List.length_take, List.length_drop]
    omega
  unfold emStep
  split
  · rfl
  · simp only
    split <;> exact hexpectation

theorem emRun_length (passes : ℕ) (st : EMState) : (emStep^[passes] st).flights.length = st.flights.length := by
  induction passes with
  | zero => rfl
  | succ passes ih => rw [Function.iterate_succ_apply', emStep_length, ih]

theorem unconstrain_length {passes : ℕ} {holder holder' : List (HistoricalBooking ℝ)}
    (h : unconstrain passes holder = some holder') : holder'.length = holder.length := by
  unfold unconstrain at h
  split at h
  · split at h
    · simp only at h
      split at h
      · obtain rfl := Option.some.inj h
        rw [EMState.holder, List.length_map, emRun_length, emStart, List.length_map]
      · cases h
    · obtain rfl := Option.some.inj h
      rfl
  · obtain rfl := Option.some.inj h
    rfl

theorem detruncator_ok {passes : ℕ} {iMethod : UnconstrainingMethod} {holder holder' : List (HistoricalBooking ℝ)}
    (h : Detruncator.unconstrain passes iMethod holder = .ok holder') : unconstrain passes holder = some holder' := by
  unfold Detruncator.unconstrain at h
  generalize unconstrain passes holder = result at h ⊢
  cases iMethod with
  | EM =>
    cases result with
    | some holder'' =>
      obtain rfl := Except.ok.inj h
      rfl
    | none => cases h
  | other => cases h

theorem detruncator_usable (passes : ℕ) (iMethod : UnconstrainingMethod) (holder : List (HistoricalBooking ℝ)) :
    WindowUsable (Detruncator.unconstrain passes iMethod holder) := by
  unfold Detruncator.unconstrain
  generalize unconstrain passes holder = result
  cases iMethod with
  | EM =>
    cases result with
    | some holder' => exact .ok holder'
    | none => exact .error rfl
  | other => exact .error rfl

/-! ## The forecasters -/

section forecasters
variable {κ : Type} [DecidableEq κ] {cabin : ForecastCabin κ} {history : History κ} {lWholeDCPList : List DTD}
  {iCurrentDTD : DTD}

/-- The history of a table that has two departed segments and fits in a `short`. -/
structure History.Suffices (history : History κ) : Prop where
  departed : history.iNbOfDepartedSegments =
    getNbOfDepartedSimilarSegments history.toDTD history.snapshots.boardingDates history.iCurrentDate
  two : 2 ≤ history.iNbOfDepartedSegments
  size : history.snapshots.boardingDates.length ≤ 32767

section window
variable (hhistory : history.Suffices) {lNextDCP : DTD} (hDCP : 0 ≤ lNextDCP)
include hhistory hDCP

omit [DecidableEq κ] in
/-- **The window that the holder is filled for**, whatever fills it. -/
theorem History.forecastInterval_window : ∃ lSegmentBegin lSegmentEnd : ℕ,
    segmentWindow history.toDTD history.snapshots.boardingDates history.iNbOfDepartedSegments lNextDCP
      history.iCurrentDate = ⟨lSegmentBegin, lSegmentEnd⟩ ∧
    lSegmentBegin + 1 ≤ lSegmentEnd ∧ lSegmentEnd < history.snapshots.boardingDates.length ∧
    ∀ prepare lCurrentDCP, history.forecastInterval prepare lCurrentDCP lNextDCP =
      prepare lCurrentDCP lNextDCP lSegmentBegin lSegmentEnd >>= history.forecastHolder := by
  obtain ⟨hbegin, htwo, hend⟩ := segmentWindow_bounds hDCP (hhistory.departed ▸ hhistory.two) rfl
  rw [← hhistory.departed] at hbegin htwo hend
  refine ⟨_, _, SegmentWindow.ext (Int.toNat_of_nonneg hbegin).symm (Int.toNat_of_nonneg (by omega)).symm, by omega,
    by omega, fun prepare lCurrentDCP => ?_⟩
  have hwithin : (segmentWindow history.toDTD history.snapshots.boardingDates history.iNbOfDepartedSegments lNextDCP
      history.iCurrentDate).Within history.snapshots.boardingDates.length := ⟨hbegin, by omega, by omega, hend⟩
  simp only [History.forecastInterval, Snapshots.prepareWindow, if_pos hwithin]

omit [DecidableEq κ] in
/-- **The forecast of an interval** has a window of the table, and a sample of two or more. -/
theorem History.forecastInterval_usable
    {prepare : DTD → DTD → ℕ → ℕ → Except ForecasterFault (List (HistoricalBooking ℝ))} (hprepare : FillsWindow prepare)
    (lCurrentDCP : DTD) : WindowUsable (history.forecastInterval prepare lCurrentDCP lNextDCP) := by
  obtain ⟨lSegmentBegin, lSegmentEnd, -, htwo, hend, hinterval⟩ := history.forecastInterval_window hhistory hDCP
  have hsize := hhistory.size
  rw [hinterval]
  refine (hprepare.usable _ _ _ _).bind fun holder hholder => ?_
  have hlength := hprepare.length _ _ _ _ _ hholder
  refine (detruncator_usable _ _ _).bind fun holder' hholder' => ?_
  have hlength' := unconstrain_length (detruncator_ok hholder')
  have hshort : holder'.length < 2 ^ 15 := by omega
  unfold computeDistributionParameters
  rw [uncDemVector, scanned_eq hshort, List.length_map, if_pos (by omega)]
  exact .ok _

end window

section intervals
variable (hDCP : ∀ d ∈ lWholeDCPList, 0 ≤ d)
include hDCP

theorem interval_nonneg {p : DTD × DTD} (hp : p ∈ intervals lWholeDCPList) : 0 ≤ p.2 :=
  hDCP p.2 (List.mem_of_mem_tail (List.of_mem_zip hp).2)

theorem forecastIntervalsFromHistory_usable {D FA : List (κ × Curve ℝ)}
    {estimate : DTD → DTD → Except ForecasterFault (ℝ × ℝ)}
    (hestimate : ∀ d d', 0 ≤ d' → WindowUsable (estimate d d')) (run : ClassStore κ ℝ × FamilyForecast ℝ) :
    WindowUsable (forecastIntervalsFromHistory D FA estimate lWholeDCPList iCurrentDTD run) := by
  refine WindowUsable.foldlM run fun p hp run => ?_
  split
  · exact (hestimate p.1 p.2 (interval_nonneg hDCP hp)).bind fun _ _ => .command _
  · exact .ok _

theorem forecastProductDemand_usable {lBCList : List κ} {estimate : κ → DTD → DTD → Except ForecasterFault (ℝ × ℝ)}
    (hestimate : ∀ c d d', 0 ≤ d' → WindowUsable (estimate c d d')) (classes : ClassStore κ ℝ) :
    WindowUsable (forecastProductDemand lBCList estimate lWholeDCPList iCurrentDTD classes) := by
  refine WindowUsable.foldlM classes fun p hp classes => ?_
  split
  · exact .foldlM classes fun c _ _ =>
      (hestimate c p.1 p.2 (interval_nonneg hDCP hp)).bind fun _ _ => .ok _
  · exact .ok _

variable (hhistory : history.Suffices)
include hhistory

theorem QForecasting.forecastFromHistory_usable (f : Forecasts κ ℝ) :
    WindowUsable (forecastFromHistory cabin history lWholeDCPList iCurrentDTD f) := by
  unfold forecastFromHistory
  split
  · exact .error rfl
  · refine (WindowUsable.command _).bind fun su _ => (WindowUsable.command _).bind fun disp _ => ?_
    exact (forecastIntervalsFromHistory_usable hDCP (fun d _ hd' =>
      history.forecastInterval_usable hhistory hd' (prepare_fillsWindow _ _) d) _).bind fun _ _ => .ok _

theorem HybridForecasting.forecast_usable (f : Forecasts κ ℝ) :
    WindowUsable (HybridForecasting.forecast cabin history lWholeDCPList iCurrentDTD f) :=
  (QForecasting.forecastFromHistory_usable hDCP hhistory f).bind fun _ _ =>
    (forecastProductDemand_usable hDCP (fun c d _ hd' =>
      history.forecastInterval_usable hhistory hd' (prepare_fillsWindow _ c) d) _).bind fun _ _ => .ok _

theorem BasedForecasting.forecast_usable (f : Forecasts κ ℝ) :
    WindowUsable (BasedForecasting.forecast cabin history lWholeDCPList iCurrentDTD f) :=
  (forecastProductDemand_usable hDCP (fun c d _ hd' =>
    history.forecastInterval_usable hhistory hd' (prepare_fillsWindow _ c) d) _).bind fun _ _ => .ok _

theorem NewQFF.forecastFamiliesFromHistory_usable : ∀ (fs : List (FareFamily κ ℝ)) (i : ℕ) (f : Forecasts κ ℝ),
    WindowUsable (forecastFamiliesFromHistory history lWholeDCPList iCurrentDTD i fs f)
  | [], _, _ => .ok _
  | F :: fs, i, f => by
    rw [forecastFamiliesFromHistory]
    refine WindowUsable.bind ?_ fun run _ => forecastFamiliesFromHistory_usable fs (i + 1) _
    refine (WindowUsable.command _).bind fun su _ => (WindowUsable.command _).bind fun disp _ => ?_
    exact forecastIntervalsFromHistory_usable hDCP (fun d _ hd' =>
      history.forecastInterval_usable hhistory hd' (prepare_fillsWindow _ _) d) _

omit hhistory in
theorem OldQFF.forecast_usable {api : PolicyApi κ}
    {estimate : List (κ × Curve ℝ) → DTD → DTD → Except ForecasterFault (ℝ × ℝ)}
    (hestimate : ∀ su d d', 0 ≤ d' → WindowUsable (estimate su d d')) (st : CabinState κ) :
    WindowUsable (OldQFF.forecast api cabin estimate lWholeDCPList iCurrentDTD st) := by
  have htransfer : ∀ (yield : κ → ℝ) (su : List (κ × Curve ℝ)) (d : DTD) (m s : ℝ) (higher : List κ) (c : κ)
      (p : Policy κ ℝ), WindowUsable (transferLoop api yield cabin.disutilityCurve d m su s c higher p) := by
    intro yield su d m s higher
    induction higher with
    | nil => exact fun _ _ => .ok _
    | cons next higher ih =>
      intro c p
      rw [transferLoop]
      split
      · exact .error rfl
      · split
        · exact .error rfl
        · split
          · exact ih _ _
          · exact .error rfl
  have hdispatch : ∀ (yield : κ → ℝ) (su : List (κ × Curve ℝ)) (d : DTD) (m s : ℝ) (p : Policy κ ℝ),
      WindowUsable (dispatchDemandForecastToPolicy api yield cabin.disutilityCurve p d m s su) := by
    intro yield su d m s p
    unfold dispatchDemandForecastToPolicy
    split
    · exact .ok _
    · split
      · exact .error rfl
      · exact htransfer _ _ _ _ _ _ _ _
  unfold OldQFF.forecast
  split
  · exact .error rfl
  · refine (WindowUsable.command _).bind fun su _ => ?_
    refine WindowUsable.bind (.foldlM _ fun p hp run => ?_) fun _ _ => .ok _
    unfold OldQFF.forecastInterval
    simp only
    split
    · refine (hestimate su p.1 p.2 (interval_nonneg hDCP hp)).bind fun _ _ => ?_
      exact (WindowUsable.mapM fun p _ => hdispatch _ _ _ _ _ _).bind fun _ _ => .ok _
    · exact .ok _

end intervals

/-- **Forecaster**: with two departed segments no method fails on a window. -/
theorem Forecaster.forecast_usable {env : ForecastEnv κ} {iEventDate : Date} (hDCP : ∀ d ∈ env.lWholeDCPList, 0 ≤ d)
    (hsize : cabin.snapshots.boardingDates.length ≤ 32767)
    (hdeparted : 2 ≤ getNbOfDepartedSimilarSegments env.toDTD cabin.snapshots.boardingDates iEventDate)
    (iUnconstrainingMethod : UnconstrainingMethod) (iForecastingMethod : ForecastingMethod) (st : CabinState κ) :
    WindowUsable (forecast env cabin iEventDate iUnconstrainingMethod iForecastingMethod st) := by
  have hhistory : (historyOf env cabin iEventDate iUnconstrainingMethod).Suffices := ⟨rfl, hdeparted, hsize⟩
  unfold forecast
  simp only [if_neg (not_lt.2 hdeparted)]
  cases iForecastingMethod with
  | qForecasting => exact (QForecasting.forecastFromHistory_usable hDCP hhistory _).bind fun _ _ => .ok _
  | hybridForecasting => exact (HybridForecasting.forecast_usable hDCP hhistory _).bind fun _ _ => .ok _
  | newQFF =>
    simp only
    split
    · exact (HybridForecasting.forecast_usable hDCP hhistory _).bind fun _ _ => .ok _
    · refine WindowUsable.bind ?_ fun _ _ => .ok _
      exact (NewQFF.forecastFamiliesFromHistory_usable hDCP hhistory _ _ _).bind fun _ _ => .ok _
  | oldQFF =>
    simp only
    split
    · exact (HybridForecasting.forecast_usable hDCP hhistory _).bind fun _ _ => .ok _
    · refine WindowUsable.bind (OldQFF.forecast_usable hDCP (fun su d _ hd' => ?_) _) fun _ _ => .ok _
      exact History.forecastInterval_usable hhistory hd' (OldQFF.prepare_fillsWindow _ _ _) d
  | basedForecasting => exact (BasedForecasting.forecast_usable hDCP hhistory _).bind fun _ _ => .ok _
  | other => exact .error rfl

/-- **Every forecaster gets a usable window.** For each interval that a forecast considers, the window that the
holder is filled for, whatever fills it, has two segments of the table or more, and in an ordered table they have passed
the day after the interval and the last 52 departed ones are among them. No method ends in a bound below zero or beyond
the table, or in a sample of one. -/
theorem forecasters_usableWindow {env : ForecastEnv κ} {iEventDate : Date} (hDCP : ∀ d ∈ env.lWholeDCPList, 0 ≤ d)
    (hsize : cabin.snapshots.boardingDates.length ≤ 32767)
    (hdeparted : 2 ≤ getNbOfDepartedSimilarSegments env.toDTD cabin.snapshots.boardingDates iEventDate) :
    (∀ interval ∈ remaining env.lWholeDCPList (env.toDTD (cabin.boardingDate - iEventDate)),
      ∃ lSegmentBegin lSegmentEnd : ℕ,
        (∀ iUnconstrainingMethod prepare,
          (Forecaster.historyOf env cabin iEventDate iUnconstrainingMethod).forecastInterval prepare interval.1
              interval.2 =
            prepare interval.1 interval.2 lSegmentBegin lSegmentEnd >>=
              (Forecaster.historyOf env cabin iEventDate iUnconstrainingMethod).forecastHolder) ∧
        lSegmentBegin + 1 ≤ lSegmentEnd ∧ lSegmentEnd < cabin.snapshots.boardingDates.length ∧
        (cabin.snapshots.boardingDates.Pairwise (· ≤ ·) →
          (∀ d ∈ cabin.snapshots.boardingDates, env.toDTD (d - iEventDate) = d - iEventDate) →
          (∀ k ≤ lSegmentEnd, ∃ lBoardingDate, cabin.snapshots.boardingDates[k]? = some lBoardingDate ∧
            hasPassedThisDTD env.toDTD lBoardingDate iEventDate (interval.2 + 1) = true) ∧
          ∀ k ∈ mostRecentlyDeparted 52 env.toDTD cabin.snapshots.boardingDates iEventDate,
            lSegmentBegin ≤ k ∧ k ≤ lSegmentEnd)) ∧
    ∀ iUnconstrainingMethod iForecastingMethod st,
      Forecaster.forecast env cabin iEventDate iUnconstrainingMethod iForecastingMethod st ≠ .error .segmentIndex ∧
      Forecaster.forecast env cabin iEventDate iUnconstrainingMethod iForecastingMethod st ≠ .error .samples := by
  refine ⟨fun interval hinterval => ?_, fun iUnconstrainingMethod iForecastingMethod st => ?_⟩
  · have hend : 0 ≤ interval.2 := interval_nonneg hDCP (List.mem_filter.1 hinterval).1
    have hsuffices : ∀ iUnconstrainingMethod,
        (Forecaster.historyOf env cabin iEventDate iUnconstrainingMethod).Suffices := fun _ => ⟨rfl, hdeparted, hsize⟩
    obtain ⟨lSegmentBegin, lSegmentEnd, hwindow, htwo, hlength, -⟩ :=
      History.forecastInterval_window (hsuffices .EM) hend
    refine ⟨lSegmentBegin, lSegmentEnd, fun iUnconstrainingMethod prepare => ?_, htwo, hlength,
      fun hsorted hfits => ?_⟩
    · obtain ⟨lSegmentBegin', lSegmentEnd', hwindow', -, -, hinterval⟩ :=
        History.forecastInterval_window (hsuffices iUnconstrainingMethod) hend
      obtain ⟨hbegin, hlast⟩ := SegmentWindow.mk.inj (hwindow'.symm.trans hwindow)
      rw [hinterval, Int.ofNat.inj hbegin, Int.ofNat.inj hlast]
    · obtain ⟨hpassed, hrecent⟩ := segmentWindow_sorted hsorted hfits hend hwindow.symm
      exact ⟨fun k hk => hpassed k (Int.ofNat_le.2 hk), fun k hk =>
        ⟨Int.ofNat_le.1 (hrecent k hk).1, Int.ofNat_le.1 (hrecent k hk).2⟩⟩
  · have husable := Forecaster.forecast_usable hDCP hsize hdeparted iUnconstrainingMethod iForecastingMethod st
    exact ⟨husable.ne rfl, husable.ne rfl⟩

end forecasters

/-- A week before departure, with two departed segments: the window of the interval is both of them. -/
theorem forecasters_usableWindow_departed :
    (∀ iUnconstrainingMethod prepare,
      (Forecaster.historyOf departedEnv departedCabin 2 iUnconstrainingMethod).forecastInterval prepare 7 0 =
        prepare 7 0 0 1 >>= (Forecaster.historyOf departedEnv departedCabin 2 iUnconstrainingMethod).forecastHolder) ∧
    (∀ k ∈ mostRecentlyDeparted 52 id [0, 1] 2, 0 ≤ k ∧ k ≤ 1) ∧
    ∀ iUnconstrainingMethod iForecastingMethod st,
      Forecaster.forecast departedEnv departedCabin 2 iUnconstrainingMethod iForecastingMethod st ≠
          .error .segmentIndex ∧
        Forecaster.forecast departedEnv departedCabin 2 iUnconstrainingMethod iForecastingMethod st ≠
          .error .samples := by
  have hDCP : ∀ d ∈ departedEnv.lWholeDCPList, 0 ≤ d := by
    simp [departedEnv]
  obtain ⟨hwindows, hfaults⟩ :=
    @forecasters_usableWindow ℕ _ departedCabin departedEnv 2 hDCP (by decide) (by decide)
  have hinterval : ((7, 0) : DTD × DTD) ∈ remaining departedEnv.lWholeDCPList
      (departedEnv.toDTD (departedCabin.boardingDate - 2)) := by decide
  obtain ⟨lSegmentBegin, lSegmentEnd, hforecast, htwo, hlength, hsorted⟩ := hwindows (7, 0) hinterval
  have htwoSegments : lSegmentEnd < 2 := hlength
  obtain rfl : lSegmentBegin = 0 := by omega
  obtain rfl : lSegmentEnd = 1 := by omega
  exact ⟨hforecast, (hsorted (by decide) fun d _ => rfl).2, hfaults⟩

end Rmol
