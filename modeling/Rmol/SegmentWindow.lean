import Rmol.HistoricalBookings
import Rmol.Lib.OrderStatistics
/-!
# The historical window (`SegmentSnapshotTableHelper.cpp`, and the same lines of the five forecasters)

| here | there |
| --- | --- |
| `hasPassedThisDTD`                   | `SegmentSnapshotTableHelper.cpp:41` |
| `getNbOfSegmentAlreadyPassedThisDTD` | `:19` |
| `getNbOfDepartedSimilarSegments`     | `Utilities.cpp:104` |
| `segmentWindow`                      | `lSegmentBegin` and `lSegmentEnd` of an interval (`NewQFF.cpp:94-105`) |

The window ends at the last segment that has passed the interval, and starts 52 segments before the end of
the departed ones: the first count is taken for `lNextDCP + 1` days to departure, the second for departure.
A departed segment has passed every interval, so the window holds the last 52 departed segments.

A table is given by the boarding dates of its segment-cabins, by table index. The conversion of a number of
days to StdAir's `DTD_T` is a parameter (`toDTD`). The bounds of a window are integers here, and unsigned in the
source; `segmentWindow_bounds` says that they do not go below zero.
-/

namespace Rmol

/-- A day of the calendar. -/
abbrev Date := ℤ

section counts
variable (toDTD : ℤ → DTD)

def hasPassedThisDTD (lBoardingDate iCurrentDate : Date) (iDTD : DTD) : Bool :=
  iDTD > toDTD (lBoardingDate - iCurrentDate)

def getNbOfSegmentAlreadyPassedThisDTD (boardingDates : List Date) (iDTD : DTD) (iCurrentDate : Date) : ℕ :=
  boardingDates.countP fun lBoardingDate => hasPassedThisDTD toDTD lBoardingDate iCurrentDate iDTD

def getNbOfDepartedSimilarSegments (boardingDates : List Date) (iEventDate : Date) : ℕ :=
  getNbOfSegmentAlreadyPassedThisDTD toDTD boardingDates 0 iEventDate

end counts

@[ext]
structure SegmentWindow where
  lSegmentBegin : ℤ
  lSegmentEnd : ℤ
deriving DecidableEq, Repr

def segmentWindow (toDTD : ℤ → DTD) (boardingDates : List Date) (iNbOfDepartedSegments : ℕ) (lNextDCP : DTD)
    (iCurrentDate : Date) : SegmentWindow where
  lSegmentBegin := if iNbOfDepartedSegments > 52 then iNbOfDepartedSegments - 52 else 0
  lSegmentEnd := getNbOfSegmentAlreadyPassedThisDTD toDTD boardingDates (lNextDCP + 1) iCurrentDate - 1

variable {toDTD : ℤ → DTD} {boardingDates : List Date} {iDTD lNextDCP : DTD} {iCurrentDate : Date}

/-- A segment that has passed a day has passed every earlier one. -/
theorem hasPassedThisDTD_mono {iDTD' : DTD} (h : iDTD ≤ iDTD') {lBoardingDate : Date}
    (hpassed : hasPassedThisDTD toDTD lBoardingDate iCurrentDate iDTD = true) :
    hasPassedThisDTD toDTD lBoardingDate iCurrentDate iDTD' = true := by
  rw [hasPassedThisDTD, decide_eq_true_eq] at hpassed ⊢
  exact hpassed.trans_le h

/-- Every departed segment is usable for an interval that ends before departure. -/
theorem departed_le_usable (toDTD : ℤ → DTD) (boardingDates : List Date) (iCurrentDate : Date)
    (hDCP : 0 ≤ lNextDCP) :
    getNbOfDepartedSimilarSegments toDTD boardingDates iCurrentDate ≤
      getNbOfSegmentAlreadyPassedThisDTD toDTD boardingDates (lNextDCP + 1) iCurrentDate :=
  List.countP_mono_left fun _ _ hpassed => hasPassedThisDTD_mono (by linarith) hpassed

/-- **The window of an interval** has two segments of the table or more. -/
theorem segmentWindow_bounds (hDCP : 0 ≤ lNextDCP)
    (hdeparted : 2 ≤ getNbOfDepartedSimilarSegments toDTD boardingDates iCurrentDate) {window : SegmentWindow}
    (hwindow : window = segmentWindow toDTD boardingDates
      (getNbOfDepartedSimilarSegments toDTD boardingDates iCurrentDate) lNextDCP iCurrentDate) :
    0 ≤ window.lSegmentBegin ∧ window.lSegmentBegin + 1 ≤ window.lSegmentEnd ∧
      window.lSegmentEnd < boardingDates.length := by
  have hle := departed_le_usable toDTD boardingDates iCurrentDate hDCP
  have hlength : getNbOfSegmentAlreadyPassedThisDTD toDTD boardingDates (lNextDCP + 1) iCurrentDate ≤
      boardingDates.length := List.countP_le_length
  subst hwindow
  simp only [segmentWindow]
  split <;> omega

/-! ## Tables in the order of departure -/

section sorted
variable (hsorted : boardingDates.Pairwise (· ≤ ·))
  (hfits : ∀ d ∈ boardingDates, toDTD (d - iCurrentDate) = d - iCurrentDate)
include hsorted hfits

/-- The segments that have passed a day are the first ones of such a table, if `DTD_T` holds the offsets. -/
theorem lt_passed_iff {k : ℕ} (hk : k < boardingDates.length) :
    k < getNbOfSegmentAlreadyPassedThisDTD toDTD boardingDates iDTD iCurrentDate ↔
      hasPassedThisDTD toDTD boardingDates[k] iCurrentDate iDTD = true := by
  have hpassed : ∀ d ∈ boardingDates, hasPassedThisDTD toDTD d iCurrentDate iDTD = decide (d < iDTD + iCurrentDate) := by
    intro d hd
    rw [hasPassedThisDTD, hfits d hd, decide_eq_decide]
    exact sub_lt_iff_lt_add
  have hcount : getNbOfSegmentAlreadyPassedThisDTD toDTD boardingDates iDTD iCurrentDate =
      boardingDates.countP fun d => d < iDTD + iCurrentDate :=
    List.countP_congr fun d hd => by rw [hpassed d hd]
  rw [hcount, OrderStatistics.lt_countP_iff hsorted hk, hpassed _ (List.getElem_mem hk), decide_eq_true_eq]

end sorted

/-- The table indices of the departed segments, in table order. -/
def departedSegments (toDTD : ℤ → DTD) (boardingDates : List Date) (iCurrentDate : Date) : List ℕ :=
  (List.range boardingDates.length).filter fun k =>
    boardingDates[k]?.any fun lBoardingDate => hasPassedThisDTD toDTD lBoardingDate iCurrentDate 0

/-- The last `n` of them, or all. -/
def mostRecentlyDeparted (n : ℕ) (toDTD : ℤ → DTD) (boardingDates : List Date) (iCurrentDate : Date) : List ℕ :=
  (departedSegments toDTD boardingDates iCurrentDate).drop
    ((departedSegments toDTD boardingDates iCurrentDate).length - n)

section sorted
variable (hsorted : boardingDates.Pairwise (· ≤ ·))
  (hfits : ∀ d ∈ boardingDates, toDTD (d - iCurrentDate) = d - iCurrentDate)
include hsorted hfits

theorem departedSegments_eq : departedSegments toDTD boardingDates iCurrentDate =
    List.range (getNbOfDepartedSimilarSegments toDTD boardingDates iCurrentDate) := by
  have hle : getNbOfDepartedSimilarSegments toDTD boardingDates iCurrentDate ≤ boardingDates.length :=
    List.countP_le_length
  have hdeparted : ∀ k ∈ List.range boardingDates.length, boardingDates[k]?.any (fun lBoardingDate =>
      hasPassedThisDTD toDTD lBoardingDate iCurrentDate 0) =
        decide (k < getNbOfDepartedSimilarSegments toDTD boardingDates iCurrentDate) := by
    intro k hk
    rw [List.mem_range] at hk
    rw [List.getElem?_eq_getElem hk, Option.any_some, Bool.eq_iff_iff, decide_eq_true_eq]
    exact (lt_passed_iff hsorted hfits hk).symm
  obtain ⟨r, hr⟩ := Nat.exists_eq_add_of_le hle
  rw [departedSegments, List.filter_congr hdeparted, hr, List.range_add, List.filter_append,
    List.filter_eq_self.2 (by simp), List.filter_eq_nil_iff.2 (by simp), List.append_nil]

/-- **The window in an ordered table**: its segments have passed the day after the end of the interval, and the
52 segments that departed last are among them. -/
theorem segmentWindow_sorted (hDCP : 0 ≤ lNextDCP) {window : SegmentWindow}
    (hwindow : window = segmentWindow toDTD boardingDates
      (getNbOfDepartedSimilarSegments toDTD boardingDates iCurrentDate) lNextDCP iCurrentDate) :
    (∀ k : ℕ, (k : ℤ) ≤ window.lSegmentEnd → ∃ lBoardingDate, boardingDates[k]? = some lBoardingDate ∧
      hasPassedThisDTD toDTD lBoardingDate iCurrentDate (lNextDCP + 1) = true) ∧
    ∀ k ∈ mostRecentlyDeparted 52 toDTD boardingDates iCurrentDate,
      window.lSegmentBegin ≤ k ∧ (k : ℤ) ≤ window.lSegmentEnd := by
  have hlength : getNbOfSegmentAlreadyPassedThisDTD toDTD boardingDates (lNextDCP + 1) iCurrentDate ≤
      boardingDates.length := List.countP_le_length
  have hle := departed_le_usable toDTD boardingDates iCurrentDate hDCP
  subst hwindow
  refine ⟨fun k hk => ?_, fun k hk => ?_⟩
  · simp only [segmentWindow] at hk
    have hlt : k < boardingDates.length := by omega
    exact ⟨boardingDates[k], List.getElem?_eq_getElem hlt, (lt_passed_iff hsorted hfits hlt).1 (by omega)⟩
  · rw [mostRecentlyDeparted, departedSegments_eq hsorted hfits, List.length_range, List.mem_drop_iff_getElem] at hk
    obtain ⟨i, hi, rfl⟩ := hk
    rw [List.length_range] at hi
    simp only [segmentWindow, List.getElem_range]
    split <;> omega

end sorted

end Rmol
