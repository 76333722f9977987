import Mathlib.Algebra.Order.BigOperators.Group.List
import Mathlib.Tactic.Linarith
import Rmol.IntervalForecast
/-!
# Q-equivalent bookings (`OldQFF.cpp:166-227`, `NewQFF.cpp:183-243`)

Bookings made at higher fares are converted into bookings of the lowest class by a sell-up factor, which is at most
one. `NewQFF` divides the bookings of each class by the factor of the class, so what it records is at least what was
booked. `OldQFF` divides the bookings of a day by the factor of the lowest class that is open on the day, and leaves
out the days that end with every class closed, with the bookings that were made on them (`:199`, `:210`).

| here | meaning |
| --- | --- |
| `dayBookings`         | the price- and product-oriented bookings of all classes on a day |
| `lowestOpenClass`     | `lLowestBC_ptr` |
| `closedDaysBookings`  | what `OldQFF` leaves out |
| `conversionGain`      | what the conversion adds on the other days |

`OldQFF` loses bookings exactly where it leaves out more than the conversion adds; whatever the sell-up factors are,
exactly where a closed day has bookings (`prepareHistoricalBooking_losesNone_iff`).
-/

namespace Rmol

variable {κ : Type*} [DecidableEq κ]

/-! ## Loops that add up -/

/-- A loop that adds a term in each step. -/
theorem foldlM_add_ok {β : Type*} {ε : Type} {f : ℝ → β → Except ε ℝ} {term : β → ℝ} :
    ∀ {l : List β} {a : ℝ}, (∀ b ∈ l, ∀ a, f a b = .ok (a + term b)) → l.foldlM f a = .ok (a + (l.map term).sum)
  | [], a, _ => by simp
  | b :: l, a, h => by
    rw [List.forall_mem_cons] at h
    rw [List.foldlM_cons, h.1, ok_bind, foldlM_add_ok h.2, List.map_cons, List.sum_cons, add_assoc]

/-- A loop over a window adds a booking for each segment. -/
theorem addHistoricalBookings_ok {ioHBHolder : List (HistoricalBooking ℝ)} {iSegmentBegin iSegmentEnd : ℕ}
    {booking : ℕ → Except ForecasterFault (HistoricalBooking ℝ)} {P : ℕ → ℝ → Prop}
    (h : ∀ i, ∃ b, booking i = .ok b ∧ P i b.numberOfBookings) :
    ∃ added, addHistoricalBookings ioHBHolder iSegmentBegin iSegmentEnd booking = .ok (ioHBHolder ++ added) ∧
      ∀ i, iSegmentBegin + i ≤ iSegmentEnd → P i (bookingsOf added i) := by
  choose value hvalue hnumber using h
  refine ⟨(List.range (iSegmentEnd + 1 - iSegmentBegin)).map value, ?_, fun i hi => ?_⟩
  · rw [addHistoricalBookings, mapM_eq_ok fun i _ => hvalue i]
    rfl
  · have hrange : (List.range (iSegmentEnd + 1 - iSegmentBegin))[i]? = some i := List.getElem?_range (by omega)
    rw [bookingsOf, List.getElem?_map, hrange]
    exact hnumber i

/-! ## The days of an interval -/

section days
variable (table : SegmentSnapshotTable κ ℝ) (lBCList : List κ) (lSellUp : κ → ℝ) (segment : ℕ)

/-- The days that the loops over `j` read. -/
def daysRead (iDCPBegin iDCPEnd : DTD) : List DTD :=
  (List.range (nbOfDTDs iDCPBegin iDCPEnd)).map fun j : ℕ => iDCPEnd + j

noncomputable def dayBookings (day : DTD) : ℝ := (lBCList.map fun lBC => dailyBookings table lBC segment day).sum

/-- The last class of the list that is open at the end of a day. -/
noncomputable def lowestOpenClass (day : DTD) : Option κ :=
  (lBCList.filter fun lBC => decide (1 ≤ table.availability (segment * table.nbOfClasses + table.getClassIndex lBC)
    day)).getLast?

noncomputable def qEquivalentsOfDay (day : DTD) : ℝ :=
  match lowestOpenClass table lBCList segment day with
  | none => 0
  | some lLowestBC => dayBookings table lBCList segment day / lSellUp lLowestBC

noncomputable def closedDayBookings (day : DTD) : ℝ :=
  if lowestOpenClass table lBCList segment day = none then dayBookings table lBCList segment day else 0

/-- What the conversion adds to the bookings of a day. -/
noncomputable def gainOfDay (day : DTD) : ℝ :=
  match lowestOpenClass table lBCList segment day with
  | none => 0
  | some lLowestBC => dayBookings table lBCList segment day * (1 / lSellUp lLowestBC - 1)

/-- The bookings of the days that end with every class closed. -/
noncomputable def closedDaysBookings (days : List DTD) : ℝ :=
  (days.map (closedDayBookings table lBCList segment)).sum

noncomputable def conversionGain (days : List DTD) : ℝ := (days.map (gainOfDay table lBCList lSellUp segment)).sum

/-- The map has a factor in `(0,1]` for each class and the first day of the interval. -/
def SellUpFactors (iBCSellUpCurveMap : List (κ × Curve ℝ)) (iDCPBegin : DTD) : Prop :=
  ∀ lBC ∈ lBCList, ((iBCSellUpCurveMap.lookup lBC).bind fun curve => curve iDCPBegin) = some (lSellUp lBC) ∧
    0 < lSellUp lBC ∧ lSellUp lBC ≤ 1

/-- No booking of the table is negative. -/
def NonnegBookings : Prop :=
  ∀ row day, 0 ≤ table.priceOrientedGrossBooking row day ∧ 0 ≤ table.productOrientedGrossBooking row day

end days

section lemmas
variable {table : SegmentSnapshotTable κ ℝ} {lBCList : List κ} {lSellUp : κ → ℝ} {segment : ℕ}
  {iBCSellUpCurveMap : List (κ × Curve ℝ)} {iDCPBegin : DTD} {day : DTD}

omit [DecidableEq κ] in
theorem lowestOpenClass_mem {lBC : κ} (h : lowestOpenClass table lBCList segment day = some lBC) : lBC ∈ lBCList :=
  List.mem_of_mem_filter (List.mem_of_getLast? h)

omit [DecidableEq κ] in
theorem dailyBookings_nonneg (h : NonnegBookings table) (lBC : κ) : 0 ≤ dailyBookings table lBC segment day :=
  add_nonneg (h _ _).1 (h _ _).2

omit [DecidableEq κ] in
theorem dayBookings_nonneg (h : NonnegBookings table) : 0 ≤ dayBookings table lBCList segment day :=
  List.sum_nonneg fun x hx => by
    obtain ⟨lBC, -, rfl⟩ := List.mem_map.1 hx
    exact dailyBookings_nonneg h lBC

omit [DecidableEq κ] in
theorem closedDayBookings_nonneg (h : NonnegBookings table) : 0 ≤ closedDayBookings table lBCList segment day := by
  unfold closedDayBookings
  split
  · exact dayBookings_nonneg h
  · exact le_rfl

omit [DecidableEq κ] in
/-- A day is converted into what was booked and what the conversion adds, or is left out. -/
theorem qEquivalentsOfDay_add_closed :
    qEquivalentsOfDay table lBCList lSellUp segment day + closedDayBookings table lBCList segment day =
      dayBookings table lBCList segment day + gainOfDay table lBCList lSellUp segment day := by
  unfold qEquivalentsOfDay closedDayBookings gainOfDay
  cases lowestOpenClass table lBCList segment day with
  | none => simp
  | some lLowestBC =>
    simp only [reduceCtorEq, ↓reduceIte]
    ring

omit [DecidableEq κ] in
theorem sum_qEquivalents_add_closed (table : SegmentSnapshotTable κ ℝ) (lBCList : List κ) (lSellUp : κ → ℝ)
    (segment : ℕ) (days : List DTD) :
    (days.map (qEquivalentsOfDay table lBCList lSellUp segment)).sum + closedDaysBookings table lBCList segment days =
      (days.map (dayBookings table lBCList segment)).sum + conversionGain table lBCList lSellUp segment days := by
  rw [closedDaysBookings, conversionGain, ← List.sum_map_add, ← List.sum_map_add]
  exact congrArg List.sum (List.map_congr_left fun day _ => qEquivalentsOfDay_add_closed)

theorem findSellUp_ok (h : SellUpFactors lBCList lSellUp iBCSellUpCurveMap iDCPBegin) {lBC : κ} (hmem : lBC ∈ lBCList) :
    findSellUp (iBCSellUpCurveMap.lookup lBC) iDCPBegin = .ok (lSellUp lBC) := by
  obtain ⟨hfactor, hpos, -⟩ := h lBC hmem
  simp [findSellUp, hfactor, hpos.ne']

end lemmas

/-! ## `OldQFF` -/

section oldQFF
variable {snapshots : Snapshots κ} {lBCList : List κ} {lSellUp : κ → ℝ} {iBCSellUpCurveMap : List (κ × Curve ℝ)}
  {iDCPBegin iDCPEnd : DTD} {iSegmentBegin : ℕ}

omit [DecidableEq κ] in
/-- The rows of a segment of the window, in the table. -/
theorem segmentView_eq (block : ℕ → DTD → ℝ) (i lClassIdx j : ℕ) :
    segmentView snapshots block iSegmentBegin iDCPEnd i lClassIdx j =
      block ((iSegmentBegin + i) * snapshots.table.nbOfClasses + lClassIdx) (iDCPEnd + j) := by
  rw [segmentView, dtdRangeView]
  congr 1
  ring

/-- One day of the loop of `OldQFF`. -/
theorem OldQFF.day_ok (snapshots : Snapshots κ) (hsu : SellUpFactors lBCList lSellUp iBCSellUpCurveMap iDCPBegin)
    (segment : ℕ) (day : DTD) (lNbOfHistoricalBkgs : ℝ) :
    (match lowestOpenClass snapshots.table lBCList segment day with
      | none => .ok lNbOfHistoricalBkgs
      | some lLowestBC => do
        let lSellUp ← findSellUp (iBCSellUpCurveMap.lookup lLowestBC) iDCPBegin
        return lNbOfHistoricalBkgs + dayBookings snapshots.table lBCList segment day / lSellUp) =
      Except.ok (lNbOfHistoricalBkgs + qEquivalentsOfDay snapshots.table lBCList lSellUp segment day) := by
  unfold qEquivalentsOfDay
  cases hopen : lowestOpenClass snapshots.table lBCList segment day with
  | none => simp
  | some lLowestBC => simp [findSellUp_ok hsu (lowestOpenClass_mem hopen)]

/-- **What `OldQFF` records** for a segment: the Q-equivalents of the days read. -/
theorem OldQFF.prepareHistoricalBooking_ok (snapshots : Snapshots κ) (ioHBHolder : List (HistoricalBooking ℝ))
    (iDCPEnd : DTD) (iSegmentBegin iSegmentEnd : ℕ)
    (hsu : SellUpFactors lBCList lSellUp iBCSellUpCurveMap iDCPBegin) :
    ∃ added, OldQFF.prepareHistoricalBooking snapshots lBCList ioHBHolder iBCSellUpCurveMap iDCPBegin iDCPEnd
        iSegmentBegin iSegmentEnd = .ok (ioHBHolder ++ added) ∧
      ∀ i, iSegmentBegin + i ≤ iSegmentEnd → bookingsOf added i =
        ((daysRead iDCPBegin iDCPEnd).map
          (qEquivalentsOfDay snapshots.table lBCList lSellUp (iSegmentBegin + i))).sum := by
  refine addHistoricalBookings_ok (P := fun i number => number = _) fun i => ?_
  simp only [segmentView_eq]
  have hdays := foldlM_add_ok (l := List.range (nbOfDTDs iDCPBegin iDCPEnd)) (a := 0) fun (j : ℕ) _ a =>
    OldQFF.day_ok snapshots hsu (iSegmentBegin + i) (iDCPEnd + j) a
  refine ⟨_, bind_eq_ok.2 ⟨_, hdays, rfl⟩, ?_⟩
  rw [zero_add, daysRead, List.map_map]
  rfl

omit [DecidableEq κ] in
/-- `OldQFF` records at least what was booked iff the days it leaves out had no more than the conversion adds. -/
theorem OldQFF.sum_dayBookings_le_iff (days : List DTD) (segment : ℕ) :
    (days.map (dayBookings snapshots.table lBCList segment)).sum ≤
        (days.map (qEquivalentsOfDay snapshots.table lBCList lSellUp segment)).sum ↔
      closedDaysBookings snapshots.table lBCList segment days ≤
        conversionGain snapshots.table lBCList lSellUp segment days := by
  have hsum := sum_qEquivalents_add_closed snapshots.table lBCList lSellUp segment days
  constructor
  · intro h
    linarith
  · intro h
    linarith

end oldQFF

/-! ## `NewQFF` -/

section newQFF
variable {snapshots : Snapshots κ} {iBCSellUpCurveMap : List (κ × Curve ℝ)} {iDCPBegin : DTD}

/-- Each curve of the map has a factor in `(0,1]` for the first day of the interval. -/
def SellUpCurvesInRange (iBCSellUpCurveMap : List (κ × Curve ℝ)) (iDCPBegin : DTD) : Prop :=
  ∀ entry ∈ iBCSellUpCurveMap, ∃ lSellUp, entry.2 iDCPBegin = some lSellUp ∧ 0 < lSellUp ∧ lSellUp ≤ 1

omit [DecidableEq κ] in
/-- The Q-equivalents of bookings that are not negative are at least these bookings. -/
theorem le_qEquivalentBookings {lNbOfBookings : κ → ℝ} (hbookings : ∀ lBC, 0 ≤ lNbOfBookings lBC)
    (hsu : SellUpCurvesInRange iBCSellUpCurveMap iDCPBegin) :
    ∃ q, qEquivalentBookings iBCSellUpCurveMap iDCPBegin lNbOfBookings = .ok q ∧
      (iBCSellUpCurveMap.map fun entry => lNbOfBookings entry.1).sum ≤ q := by
  choose! lSellUp hfactor hpos hle using hsu
  have hstep : ∀ entry ∈ iBCSellUpCurveMap, ∀ lNbOfHistoricalBkgs : ℝ, (do
      let lSellUp ← findSellUp (some entry.2) iDCPBegin
      return lNbOfHistoricalBkgs + lNbOfBookings entry.1 / lSellUp) =
        Except.ok (lNbOfHistoricalBkgs + lNbOfBookings entry.1 / lSellUp entry) := fun entry hentry _ => by
    simp [findSellUp, hfactor entry hentry, (hpos entry hentry).ne']
  refine ⟨(iBCSellUpCurveMap.map fun entry => lNbOfBookings entry.1 / lSellUp entry).sum, ?_, ?_⟩
  · rw [qEquivalentBookings]
    exact (foldlM_add_ok hstep).trans (congrArg Except.ok (zero_add _))
  · exact List.sum_le_sum fun entry hentry => le_div_self (hbookings entry.1) (hpos entry hentry) (hle entry hentry)

omit [DecidableEq κ] in
/-- **What `NewQFF` records** for a segment is at least the bookings of the family's classes over the days read. -/
theorem NewQFF.prepare_ok (ioHBHolder : List (HistoricalBooking ℝ)) (iDCPEnd : DTD)
    (iSegmentBegin iSegmentEnd : ℕ) (hbookings : NonnegBookings snapshots.table)
    (hsu : SellUpCurvesInRange iBCSellUpCurveMap iDCPBegin) :
    ∃ added, NewQFF.preparePriceOrientedHistoricalBooking snapshots ioHBHolder iBCSellUpCurveMap iDCPBegin iDCPEnd
        iSegmentBegin iSegmentEnd = .ok (ioHBHolder ++ added) ∧
      ∀ i, iSegmentBegin + i ≤ iSegmentEnd →
        (iBCSellUpCurveMap.map fun entry => ((daysRead iDCPBegin iDCPEnd).map
          (dailyBookings snapshots.table entry.1 (iSegmentBegin + i))).sum).sum ≤ bookingsOf added i := by
  refine addHistoricalBookings_ok (P := fun i number => _ ≤ number) fun i => ?_
  have hnonneg : ∀ lBC, 0 ≤ ((daysRead iDCPBegin iDCPEnd).map
      (dailyBookings snapshots.table lBC (iSegmentBegin + i))).sum := fun lBC =>
    List.sum_nonneg fun x hx => by
      obtain ⟨day, -, rfl⟩ := List.mem_map.1 hx
      exact dailyBookings_nonneg hbookings lBC
  obtain ⟨q, hq, hle⟩ := le_qEquivalentBookings hnonneg hsu
  simp only [segmentView_eq]
  refine ⟨_, bind_eq_ok.2 ⟨q, ?_, rfl⟩, hle⟩
  rw [← hq]
  congr 1
  funext lBC
  rw [daysRead, List.map_map]
  rfl

end newQFF

/-! ## Both -/

section both
variable {table : SegmentSnapshotTable κ ℝ} {lBCList : List κ} {lSellUp : κ → ℝ} {segment : ℕ}

omit [DecidableEq κ] in
theorem gainOfDay_nonneg (hbookings : NonnegBookings table)
    (hsu : ∀ lBC ∈ lBCList, 0 < lSellUp lBC ∧ lSellUp lBC ≤ 1) (day : DTD) :
    0 ≤ gainOfDay table lBCList lSellUp segment day := by
  unfold gainOfDay
  cases hopen : lowestOpenClass table lBCList segment day with
  | none => exact le_rfl
  | some lLowestBC =>
    obtain ⟨hpos, hle⟩ := hsu lLowestBC (lowestOpenClass_mem hopen)
    exact mul_nonneg (dayBookings_nonneg hbookings) (sub_nonneg.2 (one_le_one_div hpos hle))

omit [DecidableEq κ] in
theorem conversionGain_nonneg (hbookings : NonnegBookings table)
    (hsu : ∀ lBC ∈ lBCList, 0 < lSellUp lBC ∧ lSellUp lBC ≤ 1) (days : List DTD) :
    0 ≤ conversionGain table lBCList lSellUp segment days :=
  List.sum_nonneg fun x hx => by
    obtain ⟨day, -, rfl⟩ := List.mem_map.1 hx
    exact gainOfDay_nonneg hbookings hsu day

omit [DecidableEq κ] in
theorem conversionGain_one (days : List DTD) : conversionGain table lBCList (fun _ => 1) segment days = 0 :=
  List.sum_eq_zero fun x hx => by
    obtain ⟨day, -, rfl⟩ := List.mem_map.1 hx
    unfold gainOfDay
    split <;> simp

omit [DecidableEq κ] in
/-- Nothing is left out iff no closed day has bookings. -/
theorem closedDaysBookings_nonpos_iff (hbookings : NonnegBookings table) (days : List DTD) :
    closedDaysBookings table lBCList segment days ≤ 0 ↔
      ∀ day ∈ days, lowestOpenClass table lBCList segment day = none → dayBookings table lBCList segment day = 0 := by
  have hnonneg : ∀ x ∈ days.map (closedDayBookings table lBCList segment), 0 ≤ x := fun x hx => by
    obtain ⟨day, -, rfl⟩ := List.mem_map.1 hx
    exact closedDayBookings_nonneg hbookings
  constructor
  · intro h day hday hclosed
    have hzero := List.all_zero_of_le_zero_le_of_sum_eq_zero hnonneg (le_antisymm h (List.sum_nonneg hnonneg))
      (List.mem_map_of_mem hday)
    rwa [closedDayBookings, if_pos hclosed] at hzero
  · intro h
    refine (List.sum_eq_zero fun x hx => ?_).le
    obtain ⟨day, hday, rfl⟩ := List.mem_map.1 hx
    unfold closedDayBookings
    split
    · rename_i hclosed
      exact h day hday hclosed
    · rfl

/-- The map with the factor one for each class. -/
theorem sellUpFactors_one (lBCList : List κ) (iDCPBegin : DTD) :
    SellUpFactors lBCList (fun _ => 1) (lBCList.map fun lBC => (lBC, fun _ => some 1)) iDCPBegin := by
  intro lBC hmem
  have hlookup : (lBCList.map fun lBC => (lBC, (fun _ => some 1 : Curve ℝ))).lookup lBC = some fun _ => some 1 := by
    induction lBCList with
    | nil => cases hmem
    | cons c l ih =>
      rw [List.map_cons, List.lookup_cons]
      split
      · rfl
      · rename_i hne
        rcases List.mem_cons.1 hmem with rfl | hmem
        · simp at hne
        · exact ih hmem
  exact ⟨by rw [hlookup]; rfl, one_pos, le_rfl⟩

end both

/-- **No booking is lost** by `OldQFF` iff the days that end with every class closed had no more bookings than the
conversion adds on the other days; for all sell-up factors at once, iff none of these days has bookings. `NewQFF`
loses none. -/
theorem prepareHistoricalBooking_losesNone_iff (snapshots : Snapshots κ) (lBCList : List κ) (iDCPBegin iDCPEnd : DTD)
    (ioHBHolder : List (HistoricalBooking ℝ)) {iSegmentBegin iSegmentEnd i : ℕ} (hi : iSegmentBegin + i ≤ iSegmentEnd)
    (hbookings : NonnegBookings snapshots.table) :
    (∀ lSellUp iBCSellUpCurveMap, SellUpFactors lBCList lSellUp iBCSellUpCurveMap iDCPBegin →
      ∃ added, OldQFF.prepareHistoricalBooking snapshots lBCList ioHBHolder iBCSellUpCurveMap iDCPBegin iDCPEnd
          iSegmentBegin iSegmentEnd = .ok (ioHBHolder ++ added) ∧
        (((daysRead iDCPBegin iDCPEnd).map (dayBookings snapshots.table lBCList (iSegmentBegin + i))).sum ≤
            bookingsOf added i ↔
          closedDaysBookings snapshots.table lBCList (iSegmentBegin + i) (daysRead iDCPBegin iDCPEnd) ≤
            conversionGain snapshots.table lBCList lSellUp (iSegmentBegin + i) (daysRead iDCPBegin iDCPEnd))) ∧
    ((∀ lSellUp iBCSellUpCurveMap added, SellUpFactors lBCList lSellUp iBCSellUpCurveMap iDCPBegin →
        OldQFF.prepareHistoricalBooking snapshots lBCList ioHBHolder iBCSellUpCurveMap iDCPBegin iDCPEnd
          iSegmentBegin iSegmentEnd = .ok (ioHBHolder ++ added) →
        ((daysRead iDCPBegin iDCPEnd).map (dayBookings snapshots.table lBCList (iSegmentBegin + i))).sum ≤
          bookingsOf added i) ↔
      ∀ day ∈ daysRead iDCPBegin iDCPEnd, lowestOpenClass snapshots.table lBCList (iSegmentBegin + i) day = none →
        dayBookings snapshots.table lBCList (iSegmentBegin + i) day = 0) ∧
    ∀ iBCSellUpCurveMap, SellUpCurvesInRange iBCSellUpCurveMap iDCPBegin →
      ∃ added, NewQFF.preparePriceOrientedHistoricalBooking snapshots ioHBHolder iBCSellUpCurveMap iDCPBegin iDCPEnd
          iSegmentBegin iSegmentEnd = .ok (ioHBHolder ++ added) ∧
        (iBCSellUpCurveMap.map fun entry => ((daysRead iDCPBegin iDCPEnd).map
          (dailyBookings snapshots.table entry.1 (iSegmentBegin + i))).sum).sum ≤ bookingsOf added i := by
  have hone : ∀ lSellUp iBCSellUpCurveMap, SellUpFactors lBCList lSellUp iBCSellUpCurveMap iDCPBegin →
      ∃ added, OldQFF.prepareHistoricalBooking snapshots lBCList ioHBHolder iBCSellUpCurveMap iDCPBegin iDCPEnd
          iSegmentBegin iSegmentEnd = .ok (ioHBHolder ++ added) ∧
        (((daysRead iDCPBegin iDCPEnd).map (dayBookings snapshots.table lBCList (iSegmentBegin + i))).sum ≤
            bookingsOf added i ↔
          closedDaysBookings snapshots.table lBCList (iSegmentBegin + i) (daysRead iDCPBegin iDCPEnd) ≤
            conversionGain snapshots.table lBCList lSellUp (iSegmentBegin + i) (daysRead iDCPBegin iDCPEnd)) := by
    intro lSellUp iBCSellUpCurveMap hsu
    obtain ⟨added, hrun, hnumber⟩ :=
      OldQFF.prepareHistoricalBooking_ok snapshots ioHBHolder iDCPEnd iSegmentBegin iSegmentEnd hsu
    refine ⟨added, hrun, ?_⟩
    rw [hnumber i hi]
    exact OldQFF.sum_dayBookings_le_iff _ _
  refine ⟨hone, ⟨fun hall => ?_, fun hclosed lSellUp iBCSellUpCurveMap added hsu hrun => ?_⟩, fun map hsu => ?_⟩
  · -- with the factor one everywhere the conversion adds nothing
    obtain ⟨added, hrun, hiff⟩ := hone _ _ (sellUpFactors_one lBCList iDCPBegin)
    have hle := hiff.1 (hall _ _ added (sellUpFactors_one lBCList iDCPBegin) hrun)
    rw [conversionGain_one] at hle
    exact (closedDaysBookings_nonpos_iff hbookings _).1 hle
  · obtain ⟨added', hrun', hiff⟩ := hone _ _ hsu
    obtain rfl : added' = added := List.append_cancel_left (Except.ok.inj (hrun'.symm.trans hrun))
    exact hiff.2 (((closedDaysBookings_nonpos_iff hbookings _).2 hclosed).trans
      (conversionGain_nonneg hbookings (fun lBC hmem => (hsu lBC hmem).2) _))
  · obtain ⟨added, hrun, hle⟩ := NewQFF.prepare_ok ioHBHolder iDCPEnd iSegmentBegin iSegmentEnd hbookings hsu
    exact ⟨added, hrun, hle i hi⟩

/-! ### A class that sells its last seat on the day of departure -/

/-- One booking a day. -/
noncomputable def lastSeatSnapshots : Snapshots Unit where
  table := ⟨1, fun _ => 0, fun _ _ => 1, fun _ _ => 0, fun _ day => if day = 0 then 0 else 1⟩
  boardingDates := []
  lCabinIdx := 0

theorem lastSeat_nonnegBookings : NonnegBookings lastSeatSnapshots.table := fun _ _ => ⟨zero_le_one, le_rfl⟩

theorem lowestOpenClass_lastSeat (day : DTD) :
    lowestOpenClass lastSeatSnapshots.table [()] 0 day = if day = 0 then none else some () := by
  by_cases hday : day = 0 <;> simp [lowestOpenClass, lastSeatSnapshots, hday]

/-- With a factor of 1/2 the booking of the day before counts twice, and makes up for that of the last day. -/
theorem prepareHistoricalBooking_losesNone_iff_half :
    (∃ added, OldQFF.prepareHistoricalBooking lastSeatSnapshots [()] [] [((), fun _ => some (1 / 2))] 1 0 0 0 =
        .ok added ∧
      ((daysRead 1 0).map (dayBookings lastSeatSnapshots.table [()] 0)).sum ≤ bookingsOf added 0) ∧
    ∃ added, NewQFF.preparePriceOrientedHistoricalBooking lastSeatSnapshots [] [((), fun _ => some (1 / 2))] 1 0 0 0 =
        .ok added ∧
      ((daysRead 1 0).map (dailyBookings lastSeatSnapshots.table () 0)).sum ≤ bookingsOf added 0 := by
  have hdays : daysRead 1 0 = [0, 1] := by decide
  have hsu : SellUpFactors [()] (fun _ => 1 / 2) [((), fun _ => some (1 / 2))] 1 := by
    intro lBC _
    exact ⟨rfl, by norm_num, by norm_num⟩
  have hrange : SellUpCurvesInRange [((), fun _ => some (1 / 2))] 1 := by
    intro entry hentry
    rw [List.mem_singleton] at hentry
    exact ⟨1 / 2, by rw [hentry], by norm_num, by norm_num⟩
  obtain ⟨hold, -, hnew⟩ := prepareHistoricalBooking_losesNone_iff lastSeatSnapshots [()] 1 0 []
    (by decide : 0 + 0 ≤ 0) lastSeat_nonnegBookings
  obtain ⟨added, hrun, hiff⟩ := hold _ _ hsu
  obtain ⟨added', hrun', hle⟩ := hnew _ hrange
  refine ⟨⟨added, hrun, hiff.2 ?_⟩, added', hrun', by simpa using hle⟩
  have hbookings : ∀ day, dayBookings lastSeatSnapshots.table [()] 0 day = 1 := fun day => by
    simp [dayBookings, dailyBookings, lastSeatSnapshots]
  have hclosed : closedDaysBookings lastSeatSnapshots.table [()] 0 [0, 1] = 1 := by
    simp [closedDaysBookings, closedDayBookings, lowestOpenClass_lastSeat, hbookings]
  have hgain : conversionGain lastSeatSnapshots.table [()] (fun _ => 1 / 2) 0 [0, 1] = 1 := by
    simp only [conversionGain, List.map_cons, List.map_nil, gainOfDay, lowestOpenClass_lastSeat, hbookings]
    norm_num
  rw [hdays, hclosed, hgain]

theorem oldQFF_losesBooking :
    NonnegBookings lastSeatSnapshots.table ∧
      SellUpFactors [()] (fun _ => 1) [((), fun _ => some 1)] 1 ∧
      ∃ added, OldQFF.prepareHistoricalBooking lastSeatSnapshots [()] [] [((), fun _ => some 1)] 1 0 0 0 = .ok added ∧
        bookingsOf added 0 < ((daysRead 1 0).map (dayBookings lastSeatSnapshots.table [()] 0)).sum := by
  have hdays : daysRead 1 0 = [0, 1] := by decide
  obtain ⟨added, hrun, hnumber⟩ := OldQFF.prepareHistoricalBooking_ok lastSeatSnapshots [] 0 0 0
    (sellUpFactors_one [()] 1)
  refine ⟨lastSeat_nonnegBookings, sellUpFactors_one [()] 1, added, hrun, ?_⟩
  rw [hnumber 0 le_rfl]
  simp only [hdays, qEquivalentsOfDay, lowestOpenClass_lastSeat, List.map_cons, List.map_nil, zero_add]
  norm_num [dayBookings, dailyBookings, lastSeatSnapshots]

end Rmol
