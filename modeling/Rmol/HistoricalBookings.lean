import Mathlib.Algebra.BigOperators.Intervals
import Mathlib.Algebra.Order.Interval.Finset.SuccPred
import Mathlib.Data.Int.Interval
import Mathlib.Data.Int.SuccPred
import Mathlib.Tactic.Linarith
import Rmol.Dispatching
/-!
# Historical bookings of the intervals (`BasedForecasting.cpp:120-171`)

| here | there |
| --- | --- |
| `HistoricalBooking`        | `HistoricalBooking.hpp` |
| `historicalBooking`        | the body of the loop over the segments (`:146-170`) |
| `prepareHistoricalBooking` | `:120` |
| `intervals`                | the DCP loop (`:47-50`) |

The window of an interval goes from the day of its last DCP to the day of its first DCP, both included,
so the day of each DCP between two intervals is in both windows. The usable segments are counted for
`lNextDCP + 1`, as if the window ended there (`:56-62`).

`lNbOfDTDs` is a `short`: of a window of `2^15` days or more the counter leaves days out (`cutOffDays`).
`prepareHistoricalBooking_countedOnce_iff` says when the two errors cancel.
-/

namespace Rmol

/-- StdAir's table: a row for each segment and class, a column for each day-to-departure. -/
structure SegmentSnapshotTable (κ α : Type*) where
  /-- `getClassIndexMap().size()` -/
  nbOfClasses : ℕ
  getClassIndex : κ → ℕ
  priceOrientedGrossBooking : ℕ → DTD → α
  productOrientedGrossBooking : ℕ → DTD → α
  availability : ℕ → DTD → α

structure HistoricalBooking (α : Type*) where
  numberOfBookings : α
  unconstrainedDemand : α
  /-- Censored. -/
  flag : Bool
deriving DecidableEq

variable {κ α : Type*} [Field α] [LinearOrder α]

/-- StdAir's DTD-range view of the rows of the segments from `iSegmentBegin` on: column `j` is the day
`iDTDBegin + j`. -/
def dtdRangeView (lNbOfClasses : ℕ) (block : ℕ → DTD → α) (iSegmentBegin : ℕ) (iDTDBegin : DTD) (row j : ℕ) : α :=
  block (iSegmentBegin * lNbOfClasses + row) (iDTDBegin + j)

/-- The number of passes of `for (short j = 0; j < lNbOfDTDs; ++j)`. -/
def nbOfDTDs (iDCPBegin iDCPEnd : DTD) : ℕ := (Int.bmod (iDCPBegin - iDCPEnd + 1) (2 ^ 16)).toNat

def historicalBooking (lPriceBookingView lProductBookingView lAvlView : ℕ → ℕ → α) (lIdx lNbOfDTDs : ℕ) :
    HistoricalBooking α :=
  let lCensorshipFlag := (List.range lNbOfDTDs).any fun j => lAvlView lIdx j < 1
  let lNbOfHistoricalBkgs :=
    ((List.range lNbOfDTDs).map fun j => lPriceBookingView lIdx j + lProductBookingView lIdx j).sum
  ⟨lNbOfHistoricalBkgs, lNbOfHistoricalBkgs, lCensorshipFlag⟩

/-- `iSegmentBegin` to `iSegmentEnd` is at most what a table holds, so that the counter `short i` reaches it. -/
def prepareHistoricalBooking (iSegmentSnapshotTable : SegmentSnapshotTable κ α) (iBookingClass : κ)
    (ioHBHolder : List (HistoricalBooking α)) (iDCPBegin iDCPEnd : DTD) (iSegmentBegin iSegmentEnd : ℕ) :
    List (HistoricalBooking α) :=
  let lClassIdx := iSegmentSnapshotTable.getClassIndex iBookingClass
  let lNbOfClasses := iSegmentSnapshotTable.nbOfClasses
  let view := fun block => dtdRangeView lNbOfClasses block iSegmentBegin iDCPEnd
  ioHBHolder ++ (List.range (iSegmentEnd + 1 - iSegmentBegin)).map fun i =>
    historicalBooking (view iSegmentSnapshotTable.priceOrientedGrossBooking)
      (view iSegmentSnapshotTable.productOrientedGrossBooking) (view iSegmentSnapshotTable.availability)
      (i * lNbOfClasses + lClassIdx) (nbOfDTDs iDCPBegin iDCPEnd)

/-! ## Daily bookings -/

/-- The bookings of a class on one day of one segment. -/
def dailyBookings (table : SegmentSnapshotTable κ α) (iBookingClass : κ) (segment : ℕ) (day : DTD) : α :=
  table.priceOrientedGrossBooking (segment * table.nbOfClasses + table.getClassIndex iBookingClass) day +
    table.productOrientedGrossBooking (segment * table.nbOfClasses + table.getClassIndex iBookingClass) day

/-- The bookings of the `i`th segment of a holder. -/
def bookingsOf (holder : List (HistoricalBooking α)) (i : ℕ) : α :=
  (holder[i]?.map HistoricalBooking.numberOfBookings).getD 0

/-- The days of a window that the counter leaves out. -/
noncomputable def cutOffDays (interval : ℤ × ℤ) : Finset ℤ :=
  Finset.Icc (interval.2 + nbOfDTDs interval.1 interval.2) interval.1

/-- The bookings of an interval, without its cut-off days. -/
def windowBookings (daily : ℤ → α) (interval : ℤ × ℤ) : α :=
  ∑ j ∈ Finset.range (nbOfDTDs interval.1 interval.2), daily (interval.2 + j)

omit [LinearOrder α] in
theorem bookingsOf_prepareHistoricalBooking [LinearOrder α] (table : SegmentSnapshotTable κ α) (c : κ)
    (interval : DTD × DTD) {iSegmentBegin iSegmentEnd i : ℕ} (hi : iSegmentBegin + i ≤ iSegmentEnd) :
    bookingsOf (prepareHistoricalBooking table c [] interval.1 interval.2 iSegmentBegin iSegmentEnd) i =
      windowBookings (dailyBookings table c (iSegmentBegin + i)) interval := by
  have hrow : iSegmentBegin * table.nbOfClasses + (i * table.nbOfClasses + table.getClassIndex c) =
      (iSegmentBegin + i) * table.nbOfClasses + table.getClassIndex c := by ring
  have hrange : (List.range (iSegmentEnd + 1 - iSegmentBegin))[i]? = some i := List.getElem?_range (by omega)
  simp only [bookingsOf, prepareHistoricalBooking, List.nil_append, List.getElem?_map, hrange, Option.map_some,
    Option.getD_some, historicalBooking, dtdRangeView, hrow]
  rfl

theorem nbOfDTDs_le {b e : ℤ} (h : e ≤ b) : (nbOfDTDs b e : ℤ) ≤ b - e + 1 := by
  have hle : Int.bmod (b - e + 1) (2 ^ 16) ≤ b - e + 1 := by
    rw [Int.bmod_def]
    split <;> omega
  unfold nbOfDTDs
  omega

section sums
variable {α : Type*} [Field α] (f : ℤ → α)

theorem sum_Ico_split {a b c : ℤ} (hab : a ≤ b) (hbc : b ≤ c) :
    ∑ d ∈ Finset.Ico a c, f d = ∑ d ∈ Finset.Ico a b, f d + ∑ d ∈ Finset.Ico b c, f d := by
  rw [← Finset.Ico_union_Ico_eq_Ico hab hbc, Finset.sum_union (Finset.Ico_disjoint_Ico_consecutive a b c)]

theorem sum_range_shift (e : ℤ) (n : ℕ) :
    ∑ j ∈ Finset.range n, f (e + j) = ∑ d ∈ Finset.Ico e (e + n), f d := by
  induction n with
  | zero => simp
  | succ n ih =>
    have hlast : Finset.Ico (e + n) (e + (n + 1 : ℕ)) = {e + (n : ℤ)} := by
      ext d
      simp only [Finset.mem_Ico, Finset.mem_singleton]
      omega
    have hsplit := sum_Ico_split f (by omega : e ≤ e + n) (by omega : e + (n : ℤ) ≤ e + (n + 1 : ℕ))
    rw [Finset.sum_range_succ, ih, hsplit, hlast, Finset.sum_singleton]

/-- A window is made up of what the counter takes and what it leaves out. -/
theorem windowBookings_add_cutOff {b e : ℤ} (h : e ≤ b) :
    windowBookings f (b, e) + ∑ d ∈ cutOffDays (b, e), f d = ∑ d ∈ Finset.Icc e b, f d := by
  have hle := nbOfDTDs_le h
  simp only [windowBookings, cutOffDays]
  rw [sum_range_shift, ← Finset.Ico_add_one_right_eq_Icc, ← Finset.Ico_add_one_right_eq_Icc,
    ← sum_Ico_split f (by omega) (by omega)]

/-- **The windows of all intervals** cover every day once and the days of the DCPs after the first one twice,
the last DCP's day apart. -/
theorem sum_windowBookings {iDCPFirst : ℤ} {lDCPs : List ℤ} (hchain : (iDCPFirst :: lDCPs).IsChain (· > ·)) :
    ((intervals (iDCPFirst :: lDCPs)).map (windowBookings f)).sum +
        ((intervals (iDCPFirst :: lDCPs)).map fun p => ∑ d ∈ cutOffDays p, f d).sum +
        f ((iDCPFirst :: lDCPs).getLast (List.cons_ne_nil _ _)) =
      ∑ d ∈ Finset.Icc ((iDCPFirst :: lDCPs).getLast (List.cons_ne_nil _ _)) iDCPFirst, f d + (lDCPs.map f).sum := by
  induction lDCPs generalizing iDCPFirst with
  | nil => simp [intervals]
  | cons lNextDCP lDCPs ih =>
    have hlast : (lNextDCP :: lDCPs).getLast (List.cons_ne_nil _ _) ≤ lNextDCP := by
      rcases List.mem_cons.1 (List.getLast_mem (List.cons_ne_nil lNextDCP lDCPs)) with h | h
      · exact h.le
      · exact (List.rel_of_pairwise_cons (List.isChain_iff_pairwise.1 hchain).of_cons h).le
    rw [List.isChain_cons_cons] at hchain
    specialize ih hchain.2
    have hwindow := windowBookings_add_cutOff f hchain.1.le
    have hintervals : intervals (iDCPFirst :: lNextDCP :: lDCPs) =
        (iDCPFirst, lNextDCP) :: intervals (lNextDCP :: lDCPs) := rfl
    have hgt : lNextDCP < iDCPFirst := hchain.1
    -- the window and the days of the later intervals meet in the day of the next DCP
    have hday : ∑ d ∈ Finset.Icc lNextDCP iDCPFirst, f d =
        f lNextDCP + ∑ d ∈ Finset.Ico (lNextDCP + 1) (iDCPFirst + 1), f d := by
      rw [← Finset.Ico_add_one_right_eq_Icc, sum_Ico_split f (by omega : lNextDCP ≤ lNextDCP + 1) (by omega),
        Finset.Ico_add_one_right_eq_Icc lNextDCP lNextDCP, Finset.Icc_self, Finset.sum_singleton]
    have hdays : ∑ d ∈ Finset.Icc ((lNextDCP :: lDCPs).getLast (List.cons_ne_nil _ _)) iDCPFirst, f d =
        ∑ d ∈ Finset.Icc ((lNextDCP :: lDCPs).getLast (List.cons_ne_nil _ _)) lNextDCP, f d +
          ∑ d ∈ Finset.Ico (lNextDCP + 1) (iDCPFirst + 1), f d := by
      rw [← Finset.Ico_add_one_right_eq_Icc, ← Finset.Ico_add_one_right_eq_Icc,
        ← sum_Ico_split f (by omega) (by omega)]
    rw [hintervals, List.map_cons, List.sum_cons, List.map_cons, List.sum_cons, List.map_cons, List.sum_cons,
      List.getLast_cons (List.cons_ne_nil _ _), hdays]
    linear_combination ih + hwindow + hday

end sums

/-- **Each day counted once**: the historical bookings of a class over all intervals are its daily bookings
between the last and the first DCP iff its bookings on the days of the DCPs after the first one make up for
those of the last DCP's day and of the cut-off days. -/
theorem prepareHistoricalBooking_countedOnce_iff (table : SegmentSnapshotTable κ α) (iBookingClass : κ)
    (iDCPFirst : ℤ) (lDCPs : List ℤ) (iSegmentBegin i : ℕ) (iSegmentEnd : DTD → ℕ)
    (hchain : (iDCPFirst :: lDCPs).IsChain (· > ·))
    (hi : ∀ interval ∈ intervals (iDCPFirst :: lDCPs), iSegmentBegin + i ≤ iSegmentEnd interval.2) :
    ((intervals (iDCPFirst :: lDCPs)).map fun interval =>
        bookingsOf (prepareHistoricalBooking table iBookingClass [] interval.1 interval.2 iSegmentBegin
          (iSegmentEnd interval.2)) i).sum =
        ∑ day ∈ Finset.Icc ((iDCPFirst :: lDCPs).getLast (List.cons_ne_nil _ _)) iDCPFirst,
          dailyBookings table iBookingClass (iSegmentBegin + i) day ↔
      (lDCPs.map (dailyBookings table iBookingClass (iSegmentBegin + i))).sum =
        ((intervals (iDCPFirst :: lDCPs)).map fun interval =>
          ∑ day ∈ cutOffDays interval, dailyBookings table iBookingClass (iSegmentBegin + i) day).sum +
        dailyBookings table iBookingClass (iSegmentBegin + i)
          ((iDCPFirst :: lDCPs).getLast (List.cons_ne_nil _ _)) := by
  have hwindows : ((intervals (iDCPFirst :: lDCPs)).map fun interval =>
      bookingsOf (prepareHistoricalBooking table iBookingClass [] interval.1 interval.2 iSegmentBegin
        (iSegmentEnd interval.2)) i) =
      (intervals (iDCPFirst :: lDCPs)).map (windowBookings (dailyBookings table iBookingClass (iSegmentBegin + i))) :=
    List.map_congr_left fun interval hmem => bookingsOf_prepareHistoricalBooking table iBookingClass interval
      (hi interval hmem)
  have hsum := sum_windowBookings (dailyBookings table iBookingClass (iSegmentBegin + i)) hchain
  rw [hwindows]
  constructor
  · intro h
    linear_combination h - hsum
  · intro h
    linear_combination hsum + h

/-! ## One booking -/

/-- One segment and one class with a single booking. -/
def oneBookingTable (bookingDay : DTD) : SegmentSnapshotTable Unit ℚ where
  nbOfClasses := 1
  getClassIndex _ := 0
  priceOrientedGrossBooking _ day := if day = bookingDay then 1 else 0
  productOrientedGrossBooking _ _ := 0
  availability _ _ := 10

theorem prepareHistoricalBooking_countedOnce_iff_firstDay :
    ((intervals [2, 1, 0]).map fun interval =>
      bookingsOf (prepareHistoricalBooking (oneBookingTable 2) () [] interval.1 interval.2 0 0) 0).sum =
      ∑ day ∈ Finset.Icc (0 : ℤ) 2, dailyBookings (oneBookingTable 2) () 0 day :=
  (prepareHistoricalBooking_countedOnce_iff (oneBookingTable 2) () 2 [1, 0] 0 0 (fun _ => 0) (by decide)
    fun _ _ => le_rfl).2
    (by decide +kernel)

/-- **The booking of an interior DCP's day** is counted in both intervals. -/
theorem prepareHistoricalBooking_countedTwice :
    [2, 1, 0].IsChain (· > ·) ∧
      ((intervals [2, 1, 0]).map fun interval =>
        bookingsOf (prepareHistoricalBooking (oneBookingTable 1) () [] interval.1 interval.2 0 0) 0).sum = 2 ∧
      ∑ day ∈ Finset.Icc (0 : ℤ) 2, dailyBookings (oneBookingTable 1) () 0 day = 1 := by
  refine ⟨by decide, by decide +kernel, by decide +kernel⟩

end Rmol
