import Mathlib.Analysis.Complex.ExponentialBounds
import Mathlib.Analysis.Real.Sqrt
import Rmol.HistoricalBookings
/-!
# Expectation-maximisation (`EMDetruncator.cpp`, `HistoricalBookingHolder.cpp`)

| here | there |
| --- | --- |
| `nbOfFlights`, `scanned`         | `const short lSize = _historicalBookingVector.size()` and the loops below it |
| `getNbOfUncensoredData`          | `HistoricalBookingHolder.cpp:31` |
| `getNbOfUncensoredBookings`      | `:46` |
| `getUncensoredStandardDeviation` | `:67` |
| `getDemandMean`                  | `:95` |
| `getStandardDeviation`           | `:115` |
| `calculateExpectedDemand`        | `:191` |
| `expectationStep`                | the body of the loop over the flights (`EMDetruncator.cpp:55-83`) |
| `emStep`                         | one pass of the `while` loop (`:51-93`) |
| `unconstrain`                    | `EMDetruncator.cpp:19` |

The demands go up from the bookings: `calculateExpectedDemand` replaces the demand of a censored flight
by the mean plus `d2 / d1`, the mean of a truncated normal with an approximation of its tail. That is at
least the bookings because the approximation is below the tail (`mul_tail_le`). The uncensored flights
keep their demand, so two of them with different bookings keep the deviation positive.
-/

namespace Rmol

/-! ## The holder -/

section holder
variable (holder : List (HistoricalBooking ℝ))

/-- `getNbOfFlights` (`:24`): the size of the vector as a `short`. -/
def nbOfFlights : ℤ := Int.bmod holder.length (2 ^ 16)

/-- The bookings that `for (short ite = 0; ite < lSize; ++ite)` goes through. -/
def scanned : List (HistoricalBooking ℝ) := holder.take (nbOfFlights holder).toNat

def getNbOfUncensoredData : ℕ := (scanned holder).countP fun b => b.flag = false

noncomputable def getNbOfUncensoredBookings : ℝ :=
  (((scanned holder).filter fun b => b.flag = false).map HistoricalBooking.numberOfBookings).sum

noncomputable def getUncensoredStandardDeviation (iMeanOfUncensoredBookings : ℝ) (iNbOfUncensoredData : ℕ) : ℝ :=
  √((((scanned holder).filter fun b => b.flag = false).map fun b =>
    (b.numberOfBookings - iMeanOfUncensoredBookings) * (b.numberOfBookings - iMeanOfUncensoredBookings)).sum /
      ((iNbOfUncensoredData : ℝ) - 1))

noncomputable def getDemandMean : ℝ :=
  ((scanned holder).map HistoricalBooking.unconstrainedDemand).sum / (nbOfFlights holder : ℝ)

noncomputable def getStandardDeviation (iDemandMean : ℝ) : ℝ :=
  √(((scanned holder).map fun b =>
    (b.unconstrainedDemand - iDemandMean) * (b.unconstrainedDemand - iDemandMean)).sum /
      ((nbOfFlights holder : ℝ) - 1))

end holder

/-- The expected demand of a flight with at least `lBooking` requests; `iDemand` is what it has. -/
noncomputable def calculateExpectedDemand (iMean iSD lBooking iDemand : ℝ) : ℝ :=
  let e := Real.exp (-(lBooking - iMean) * (lBooking - iMean) * 0.625 / (iSD * iSD))
  let s := √(1 - e)
  let d2 := Real.exp (-(lBooking - iMean) * (lBooking - iMean) * 0.5 / (iSD * iSD)) * iSD /
    √((2 : ℕ) * 3.14159265)
  if lBooking ≥ iMean then
    if e < 0.01 then iDemand
    else if 0.5 * (1 - s) = 0 then iDemand
    else iMean + d2 / (0.5 * (1 - s))
  else if 0.5 * (1 + s) = 0 then iDemand
  else iMean + d2 / (0.5 * (1 + s))

/-! ## The loop -/

/-- A flight and its entry of `toBeUnconstrained`. -/
abbrev Flight := HistoricalBooking ℝ × Bool

/-- The state between two passes. -/
structure EMState where
  flights : List Flight
  lDemandMean : ℝ
  lStdDev : ℝ
  stopUnconstraining : Bool

def EMState.holder (st : EMState) : List (HistoricalBooking ℝ) := st.flights.map Prod.fst

/-- A flight that is still to be unconstrained gets its expected demand, and is done once that is close to
the demand it had. -/
noncomputable def expectationStep (lDemandMean lStdDev : ℝ) : Flight → Flight
  | (b, false) => (b, false)
  | (b, true) =>
    let demand := b.unconstrainedDemand
    let expectedDemand := calculateExpectedDemand lDemandMean lStdDev b.numberOfBookings demand
    ({ b with unconstrainedDemand := expectedDemand }, decide (0.001 ≤ |expectedDemand - demand|))

/-- The flights after the expectation step of one pass. -/
noncomputable def expectation (lDemandMean lStdDev : ℝ) (flights : List Flight) : List Flight :=
  let lNbOfFlights := (nbOfFlights (flights.map Prod.fst)).toNat
  (flights.take lNbOfFlights).map (expectationStep lDemandMean lStdDev) ++ flights.drop lNbOfFlights

/-- One pass, unless the loop has stopped: it goes on while some flight is still to be unconstrained. -/
noncomputable def emStep (st : EMState) : EMState :=
  if st.stopUnconstraining then st
  else
    let flights := expectation st.lDemandMean st.lStdDev st.flights
    let holder := flights.map Prod.fst
    let stopUnconstraining := (flights.take (nbOfFlights holder).toNat).all fun flight => !flight.2
    if stopUnconstraining then ⟨flights, st.lDemandMean, st.lStdDev, true⟩
    else
      let lDemandMean := getDemandMean holder
      ⟨flights, lDemandMean, getStandardDeviation holder lDemandMean, false⟩

/-- Before the first pass (`EMDetruncator.cpp:30-52`). -/
noncomputable def emStart (holder : List (HistoricalBooking ℝ)) : EMState :=
  let lNbOfUncensoredData := getNbOfUncensoredData holder
  let lMeanOfUncensoredBookings := getNbOfUncensoredBookings holder / lNbOfUncensoredData
  ⟨holder.map fun b => (b, b.flag), lMeanOfUncensoredBookings,
    getUncensoredStandardDeviation holder lMeanOfUncensoredBookings lNbOfUncensoredData, false⟩

/-- What `unconstrain` leaves in the holder; `none` where the loop takes more than `passes` passes. -/
noncomputable def unconstrain (passes : ℕ) (holder : List (HistoricalBooking ℝ)) :
    Option (List (HistoricalBooking ℝ)) :=
  if getNbOfUncensoredData holder > 1 then
    if (emStart holder).lStdDev ≠ 0 then
      let st := emStep^[passes] (emStart holder)
      if st.stopUnconstraining then some st.holder else none
    else some holder
  else some holder

/-! ## The tail approximation -/

section tail

/-- With `t = z² / 8` for the quotient of the two exponentials: the bound that the approximation needs. -/
theorem mul_le_two_exp_sub {c : ℝ} (hc : c ≤ 2.5067) {z : ℝ} (hz : 0 ≤ z) :
    z * c ≤ 2 * (2 * Real.exp (z ^ 2 / 8) - Real.exp (-(z ^ 2 / 2))) := by
  have hup : 1 + z ^ 2 / 8 ≤ Real.exp (z ^ 2 / 8) := by
    have := Real.add_one_le_exp (z ^ 2 / 8)
    linarith
  have hdown : Real.exp (-(z ^ 2 / 2)) ≤ 1 / (1 + z ^ 2 / 2) := by
    rw [Real.exp_neg, inv_eq_one_div]
    have := Real.add_one_le_exp (z ^ 2 / 2)
    exact one_div_le_one_div_of_le (by positivity) (by linarith)
  have hmul : z * c ≤ z * 2.5067 := mul_le_mul_of_nonneg_left hc hz
  have hpoly : z * 2.5067 ≤ 4 + z ^ 2 / 2 - 2 * (1 / (1 + z ^ 2 / 2)) := by
    have hpos : 0 < 1 + z ^ 2 / 2 := by positivity
    rw [mul_one_div, le_sub_iff_add_le, ← le_sub_iff_add_le', div_le_iff₀ hpos]
    nlinarith [sq_nonneg (z ^ 2 / 2 - 1.25335 * z + 0.9), sq_nonneg (z - 4)]
  linarith

/-- **The approximated tail**: `z` times it is at most the density at `z`, so the mean of what lies above is
at least the point where the tail starts. -/
theorem mul_tail_le {z : ℝ} (hz : 0 ≤ z) :
    z * (0.5 * (1 - √(1 - Real.exp (-(z ^ 2 * 0.625))))) * √((2 : ℕ) * 3.14159265) ≤ Real.exp (-(z ^ 2 * 0.5)) := by
  have he1 : Real.exp (-(z ^ 2 * 0.625)) ≤ 1 := Real.exp_le_one_iff.2 (by nlinarith [sq_nonneg z])
  have hepos := Real.exp_pos (-(z ^ 2 * 0.625))
  have hdensity : Real.exp (-(z ^ 2 * 0.625)) * Real.exp (z ^ 2 / 8) = Real.exp (-(z ^ 2 * 0.5)) := by
    rw [← Real.exp_add]
    ring_nf
  have hhalf : Real.exp (-(z ^ 2 / 2)) = Real.exp (-(z ^ 2 * 0.5)) := by ring_nf
  have hs0 := Real.sqrt_nonneg (1 - Real.exp (-(z ^ 2 * 0.625)))
  have hsq := Real.sq_sqrt (sub_nonneg.2 he1)
  have hc : √((2 : ℕ) * 3.14159265) ≤ 2.5067 := Real.sqrt_le_iff.2 ⟨by norm_num, by norm_num⟩
  have hbound := mul_le_two_exp_sub hc hz
  rw [hhalf] at hbound
  generalize Real.exp (-(z ^ 2 * 0.625)) = e at *
  generalize Real.exp (-(z ^ 2 * 0.5)) = density at *
  generalize √((2 : ℕ) * 3.14159265) = c at *
  generalize √(1 - e) = s at *
  have hs1 : s ≤ 1 := by nlinarith
  -- `(1 - s) * (1 + s)` is `e`, and `1 + s` is at least `2 - e`
  have htimes : z * (0.5 * (1 - s)) * c * (1 + s) ≤ density * (1 + s) := by
    calc z * (0.5 * (1 - s)) * c * (1 + s)
      _ = 0.5 * e * (z * c) := by linear_combination (-0.5 * z * c) * hsq
      _ ≤ 0.5 * e * (2 * (2 * Real.exp (z ^ 2 / 8) - density)) := mul_le_mul_of_nonneg_left hbound (by positivity)
      _ = (2 - e) * density := by rw [← hdensity]; ring
      _ ≤ density * (1 + s) := by
        rw [mul_comm]
        refine mul_le_mul_of_nonneg_left ?_ ?_
        · nlinarith
        · rw [← hdensity]; positivity
  exact le_of_mul_le_mul_right htimes (by linarith)

end tail

/-- **The expectation step does not lower a demand below the bookings.** -/
theorem le_calculateExpectedDemand (iMean : ℝ) {iSD lBooking iDemand : ℝ} (hSD : 0 < iSD) (h : lBooking ≤ iDemand) :
    lBooking ≤ calculateExpectedDemand iMean iSD lBooking iDemand := by
  have hexponent (k : ℝ) : -(lBooking - iMean) * (lBooking - iMean) * k / (iSD * iSD) =
      -(((lBooking - iMean) / iSD) ^ 2 * k) := by
    field_simp
  have hroot : 0 < √((2 : ℕ) * 3.14159265) := Real.sqrt_pos.2 (by norm_num)
  unfold calculateExpectedDemand
  simp only [hexponent]
  by_cases hmean : lBooking ≥ iMean
  · rw [if_pos hmean]
    have hz : 0 ≤ (lBooking - iMean) / iSD := div_nonneg (sub_nonneg.2 hmean) hSD.le
    have htail := mul_tail_le hz
    split
    · exact h
    · split
      · exact h
      · rename_i hd1
        have hs1 : √(1 - Real.exp (-(((lBooking - iMean) / iSD) ^ 2 * 0.625))) ≤ 1 :=
          Real.sqrt_le_one.2 (by have := Real.exp_pos (-(((lBooking - iMean) / iSD) ^ 2 * 0.625)); linarith)
        have hpos : 0 < 0.5 * (1 - √(1 - Real.exp (-(((lBooking - iMean) / iSD) ^ 2 * 0.625)))) :=
          lt_of_le_of_ne (by nlinarith) (Ne.symm hd1)
        rw [← sub_le_iff_le_add', le_div_iff₀ hpos, le_div_iff₀ hroot]
        calc (lBooking - iMean) * (0.5 * (1 - √(1 - Real.exp (-(((lBooking - iMean) / iSD) ^ 2 * 0.625))))) *
              √((2 : ℕ) * 3.14159265)
          _ = (lBooking - iMean) / iSD * (0.5 * (1 - √(1 - Real.exp (-(((lBooking - iMean) / iSD) ^ 2 * 0.625))))) *
              √((2 : ℕ) * 3.14159265) * iSD := by field_simp
          _ ≤ Real.exp (-(((lBooking - iMean) / iSD) ^ 2 * 0.5)) * iSD := mul_le_mul_of_nonneg_right htail hSD.le
  · rw [if_neg hmean]
    split
    · exact h
    · have hs0 := Real.sqrt_nonneg (1 - Real.exp (-(((lBooking - iMean) / iSD) ^ 2 * 0.625)))
      have hquotient : 0 ≤ Real.exp (-(((lBooking - iMean) / iSD) ^ 2 * 0.5)) * iSD / √((2 : ℕ) * 3.14159265) /
          (0.5 * (1 + √(1 - Real.exp (-(((lBooking - iMean) / iSD) ^ 2 * 0.625))))) := by positivity
      linarith [not_le.1 hmean]

/-! ## What every pass keeps -/

section passes
variable {holder : List (HistoricalBooking ℝ)}

/-- A flight of a run against the booking it started from. -/
structure FlightInv (b : HistoricalBooking ℝ) (flight : Flight) : Prop where
  numberOfBookings : flight.1.numberOfBookings = b.numberOfBookings
  flag : flight.1.flag = b.flag
  uncensored : b.flag = false → flight.1.unconstrainedDemand = b.numberOfBookings ∧ flight.2 = false
  demand : b.numberOfBookings ≤ flight.1.unconstrainedDemand

structure EMInv (holder : List (HistoricalBooking ℝ)) (st : EMState) : Prop where
  flights : List.Forall₂ FlightInv holder st.flights
  stdDev_pos : 0 < st.lStdDev

theorem nbOfFlights_eq (hsize : holder.length < 2 ^ 15) : nbOfFlights holder = holder.length := by
  unfold nbOfFlights
  rw [Int.bmod_def]
  omega

theorem scanned_eq (hsize : holder.length < 2 ^ 15) : scanned holder = holder := by
  rw [scanned, nbOfFlights_eq hsize, Int.toNat_natCast, List.take_length]

theorem one_lt_length {α : Type*} {x y : α} : ∀ {l : List α}, x ∈ l → y ∈ l → x ≠ y → 1 < l.length
  | [], hx, _, _ => by simp at hx
  | [d], hx, hy, hne => by
    rw [List.mem_singleton] at hx hy
    exact absurd (hx.trans hy.symm) hne
  | _ :: _ :: _, _, _, _ => by simp

/-- Two different values among some keep their deviation from any mean positive. -/
theorem stdDev_pos {l : List ℝ} {x y : ℝ} (hx : x ∈ l) (hy : y ∈ l) (hne : x ≠ y) (m : ℝ) :
    0 < √((l.map fun d => (d - m) * (d - m)).sum / ((l.length : ℝ) - 1)) := by
  have hlength := one_lt_length hx hy hne
  have hnonneg : ∀ v ∈ l.map fun d => (d - m) * (d - m), 0 ≤ v := by
    intro v hv
    obtain ⟨d, -, rfl⟩ := List.mem_map.1 hv
    exact mul_self_nonneg _
  have hsum : 0 < (l.map fun d => (d - m) * (d - m)).sum := by
    refine lt_of_le_of_ne (List.sum_nonneg hnonneg) fun hzero => hne ?_
    -- a sum of squares is zero only if both values are the mean
    have hall : ∀ d ∈ l, d = m := by
      intro d hd
      have := List.all_zero_of_le_zero_le_of_sum_eq_zero hnonneg hzero.symm (List.mem_map_of_mem hd)
      exact sub_eq_zero.1 (mul_self_eq_zero.1 this)
    rw [hall x hx, hall y hy]
  have hcast : (1 : ℝ) < l.length := by exact_mod_cast hlength
  exact Real.sqrt_pos.2 (div_pos hsum (by linarith))

theorem FlightInv.expectationStep {b : HistoricalBooking ℝ} {flight : Flight} (h : FlightInv b flight)
    {lDemandMean lStdDev : ℝ} (hpos : 0 < lStdDev) :
    FlightInv b (Rmol.expectationStep lDemandMean lStdDev flight) := by
  obtain ⟨⟨n, u, flag⟩, toBeUnconstrained⟩ := flight
  cases toBeUnconstrained with
  | false => exact h
  | true =>
    refine ⟨h.numberOfBookings, h.flag, fun hflag => ?_, ?_⟩
    · have := (h.uncensored hflag).2
      simp at this
    · have hdemand : n ≤ u := h.numberOfBookings.le.trans h.demand
      have := le_calculateExpectedDemand lDemandMean hpos hdemand
      exact h.numberOfBookings.ge.trans this

theorem emInv_flights_length {holder : List (HistoricalBooking ℝ)} {flights : List Flight}
    (h : List.Forall₂ FlightInv holder flights) : (flights.map Prod.fst).length = holder.length := by
  rw [List.length_map, h.length_eq]

theorem expectation_inv (hsize : holder.length < 2 ^ 15) {flights : List Flight}
    (h : List.Forall₂ FlightInv holder flights) (lDemandMean : ℝ) {lStdDev : ℝ} (hpos : 0 < lStdDev) :
    List.Forall₂ FlightInv holder (expectation lDemandMean lStdDev flights) := by
  have hlength := emInv_flights_length h
  have hall : (nbOfFlights (flights.map Prod.fst)).toNat = flights.length := by
    rw [nbOfFlights_eq (hlength.trans_lt hsize), Int.toNat_natCast, List.length_map]
  unfold expectation
  simp only [hall, List.take_length, List.drop_length, List.append_nil]
  rw [List.forall₂_map_right_iff]
  exact h.imp fun b flight hflight => hflight.expectationStep hpos

/-- Two flights that are not censored, with different bookings. -/
def TwoUncensored (holder : List (HistoricalBooking ℝ)) : Prop :=
  ∃ b ∈ holder, ∃ b' ∈ holder, b.flag = false ∧ b'.flag = false ∧ b.numberOfBookings ≠ b'.numberOfBookings

/-- The demand of a flight that is not censored is among the demands of a run. -/
theorem uncensored_mem {flights : List Flight} (h : List.Forall₂ FlightInv holder flights) {b : HistoricalBooking ℝ}
    (hb : b ∈ holder) (hflag : b.flag = false) :
    b.numberOfBookings ∈ (flights.map Prod.fst).map HistoricalBooking.unconstrainedDemand := by
  obtain ⟨i, hi⟩ := List.mem_iff_getElem?.1 hb
  induction h generalizing i with
  | nil => simp at hb
  | cons hflight _ ih =>
    rcases List.mem_cons.1 hb with rfl | hb
    · rw [← (hflight.uncensored hflag).1]
      simp
    · obtain ⟨j, hj⟩ := List.mem_iff_getElem?.1 hb
      exact List.mem_cons_of_mem _ (ih hb j hj)

/-- **One pass.** -/
theorem emStep_inv (hsize : holder.length < 2 ^ 15) (htwo : TwoUncensored holder) {st : EMState}
    (h : EMInv holder st) : EMInv holder (emStep st) := by
  unfold emStep
  split
  · exact h
  · have hflights := expectation_inv hsize h.flights st.lDemandMean h.stdDev_pos
    simp only
    split
    · exact ⟨hflights, h.stdDev_pos⟩
    · refine ⟨hflights, ?_⟩
      obtain ⟨b, hb, b', hb', hflag, hflag', hne⟩ := htwo
      have hlength := emInv_flights_length hflights
      have hshort : (List.map Prod.fst (expectation st.lDemandMean st.lStdDev st.flights)).length < 2 ^ 15 :=
        hlength.trans_lt hsize
      have hpos := stdDev_pos (uncensored_mem hflights hb hflag) (uncensored_mem hflights hb' hflag') hne
        (getDemandMean (List.map Prod.fst (expectation st.lDemandMean st.lStdDev st.flights)))
      rw [List.map_map, List.length_map] at hpos
      simp only
      rwa [getStandardDeviation, scanned_eq hshort, nbOfFlights_eq hshort, Int.cast_natCast]

theorem emStart_inv (hsize : holder.length < 2 ^ 15) (htwo : TwoUncensored holder)
    (hfresh : ∀ b ∈ holder, b.unconstrainedDemand = b.numberOfBookings) : EMInv holder (emStart holder) := by
  refine ⟨?_, ?_⟩
  · have hflights : List.Forall₂ FlightInv holder (holder.map fun b => (b, b.flag)) := by
      rw [List.forall₂_map_right_iff, List.forall₂_same]
      intro b hb
      exact ⟨rfl, rfl, fun hflag => ⟨hfresh b hb, hflag⟩, (hfresh b hb).ge⟩
    exact hflights
  · obtain ⟨b, hb, b', hb', hflag, hflag', hne⟩ := htwo
    have hmem {b : HistoricalBooking ℝ} (hb : b ∈ holder) (hflag : b.flag = false) : b.numberOfBookings ∈
        (holder.filter fun b => b.flag = false).map HistoricalBooking.numberOfBookings :=
      List.mem_map_of_mem (List.mem_filter.2 ⟨hb, by simpa using hflag⟩)
    have hpos := stdDev_pos (hmem hb hflag) (hmem hb' hflag') hne
      (getNbOfUncensoredBookings holder / getNbOfUncensoredData holder)
    have hcount : (holder.filter fun b => b.flag = false).length = getNbOfUncensoredData holder := by
      rw [getNbOfUncensoredData, scanned_eq hsize, List.countP_eq_length_filter]
    rw [List.map_map, List.length_map, hcount] at hpos
    simp only [emStart]
    rwa [getUncensoredStandardDeviation, scanned_eq hsize]

theorem emRun_inv (hsize : holder.length < 2 ^ 15) (htwo : TwoUncensored holder)
    (hfresh : ∀ b ∈ holder, b.unconstrainedDemand = b.numberOfBookings) (passes : ℕ) :
    EMInv holder (emStep^[passes] (emStart holder)) := by
  induction passes with
  | zero => exact emStart_inv hsize htwo hfresh
  | succ passes ih =>
    rw [Function.iterate_succ_apply']
    exact emStep_inv hsize htwo ih

/-- A flight that is not censored keeps its bookings as its demand, a censored one has at least these. -/
def Unconstrained (b b' : HistoricalBooking ℝ) : Prop :=
  b'.numberOfBookings = b.numberOfBookings ∧ b'.flag = b.flag ∧
    (b.flag = false → b'.unconstrainedDemand = b.numberOfBookings) ∧
    (b.flag = true → b.numberOfBookings ≤ b'.unconstrainedDemand)

/-- **After any number of passes** the bookings and flags are what they were, no demand is below the bookings,
and the deviation that the next pass divides by is positive. -/
theorem unconstrain_passes (hsize : holder.length < 2 ^ 15) (htwo : TwoUncensored holder)
    (hfresh : ∀ b ∈ holder, b.unconstrainedDemand = b.numberOfBookings) (passes : ℕ) :
    List.Forall₂ Unconstrained holder (emStep^[passes] (emStart holder)).holder ∧
      0 < (emStep^[passes] (emStart holder)).lStdDev := by
  obtain ⟨hflights, hpos⟩ := emRun_inv hsize htwo hfresh passes
  refine ⟨?_, hpos⟩
  rw [EMState.holder, List.forall₂_map_right_iff]
  exact hflights.imp fun b flight h =>
    ⟨h.numberOfBookings, h.flag, fun hflag => (h.uncensored hflag).1, fun _ => h.demand⟩

/-- With two such flights `unconstrain` runs the loop. -/
theorem unconstrain_eq (hsize : holder.length < 2 ^ 15) (htwo : TwoUncensored holder)
    (hfresh : ∀ b ∈ holder, b.unconstrainedDemand = b.numberOfBookings) (passes : ℕ) :
    unconstrain passes holder = if (emStep^[passes] (emStart holder)).stopUnconstraining then
      some (emStep^[passes] (emStart holder)).holder else none := by
  have hcount : getNbOfUncensoredData holder > 1 := by
    obtain ⟨b, hb, b', hb', hflag, hflag', hne⟩ := htwo
    rw [getNbOfUncensoredData, scanned_eq hsize, List.countP_eq_length_filter]
    have hmem : b ∈ holder.filter fun b => b.flag = false := List.mem_filter.2 ⟨hb, decide_eq_true hflag⟩
    have hmem' : b' ∈ holder.filter fun b => b.flag = false := List.mem_filter.2 ⟨hb', decide_eq_true hflag'⟩
    exact one_lt_length hmem hmem' fun h => hne (congrArg _ h)
  unfold unconstrain
  rw [if_pos hcount, if_pos (emStart_inv hsize htwo hfresh).stdDev_pos.ne']

end passes

/-- Two flights with 10 and 20 bookings, and a censored one with 15. -/
def threeFlights : List (HistoricalBooking ℝ) :=
  [⟨(10 : ℕ), (10 : ℕ), false⟩, ⟨(20 : ℕ), (20 : ℕ), false⟩, ⟨(15 : ℕ), (15 : ℕ), true⟩]

theorem unconstrain_passes_threeFlights :
    List.Forall₂ Unconstrained threeFlights (emStep^[3] (emStart threeFlights)).holder ∧
      0 < (emStep^[3] (emStart threeFlights)).lStdDev := by
  have htwo : TwoUncensored threeFlights :=
    ⟨_, List.mem_cons_self, _, List.mem_cons_of_mem _ List.mem_cons_self, rfl, rfl, by norm_num⟩
  exact unconstrain_passes (by simp [threeFlights]) htwo (by simp [threeFlights]) 3

end Rmol
