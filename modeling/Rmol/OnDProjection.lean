import Mathlib.Analysis.Real.Sqrt
import Rmol.Lib.KeyedUpdates
import Rmol.SegmentWindow
/-!
# Projection of O&D demand on leg-cabins (`RMOL_Service.cpp`)

| here | there |
| --- | --- |
| `isDue`                                | the search of a days-to-departure in `DEFAULT_DCP_LIST` (`:1277-1281`, `:1889-1895`) |
| `resetDemandInformation`               | `:1260` |
| `totalBidPrice`                        | the first loop over the segments of a path (`:1917-1942`) |
| `operatedDemands`                      | the second one (`:1945-1981`), and the loop of `projectOnDDemandOnLegCabinsUsingYP` (`:1474-1507`) |
| `pathDemandsDYP`, `pathDemandsYP`      | the entry of a cabin-class path in the demand info map (`:1901-1982`, `:1459-1508`) |
| `projectedDemands`                     | the loops over O&D dates and their demand info maps (`:1880-1900`, `:1442-1458`) |
| `projectOnDDemandOnLegCabinsUsingDYP`  | `:1874` |

The projection reads bid prices and writes yield-level demand maps, so it is a list of calls of
`addDemandInformation`, and then these calls. A segment-date is what the service looks up in it: the leg-cabins of
each of its segment-cabins. `L` are leg-cabins, `γ` cabin codes.

`addDemandInformation` is a function of StdAir's leg-cabins and a parameter here. What the service relies on is an
assumption (`AddsDemand`): a call adds to the entry of the rounded yield, the mean and the variance.
-/

namespace Rmol

/-- The assertions of the projection and of the reset. -/
inductive ProjectionFault where
  /-- `assert (!lFlightDateList.empty())` (`:1265`). -/
  | noFlightDate
  /-- `assert (!lOnDDateList.empty())` (`:1879`). -/
  | noOnDDate
  /-- `assert (lCabinClassPairList.size() == lNbOfSegments)` and the one on the segments (`:1908`, `:1914`). -/
  | nbOfSegments
  /-- `assert (lSegmentCabin_ptr != NULL)` (`:1933`, `:1959`). -/
  | segmentCabin
  /-- `assert (!lLegCabinList.empty())` (`:1296`, `:1962`). -/
  | noLegCabin
deriving DecidableEq, Repr

/-- The leg-cabins of the segment-cabins of a segment-date, by cabin code. -/
structure SegmentDate (γ L : Type) where
  legCabins : γ → Option (List L)

/-- A segment-date of an O&D date. -/
structure OnDSegment (γ L : Type) where
  own : SegmentDate γ L
  /-- `getOperatingSegmentDate`: none where the airline operates the segment itself. -/
  getOperatingSegmentDate : Option (SegmentDate γ L)

/-- An entry of the demand info map, with the cabins of its cabin-class pairs. -/
structure PathDemand (γ : Type) where
  cabins : List γ
  yield : ℝ
  mean : ℝ
  stdDev : ℝ

structure OnDDate (γ L : Type) where
  date : Date
  nbOfSegments : ℕ
  segments : List (OnDSegment γ L)
  demandInfoMap : List (PathDemand γ)

structure FlightDate (L : Type) where
  departureDate : Date
  /-- The leg-cabins of its leg-dates. -/
  legDates : List (List L)

structure Inventory (γ L : Type) where
  flightDates : List (FlightDate L)
  onDDates : List (OnDDate γ L)

/-- A mean and a standard deviation per yield level. -/
abbrev YieldLevelDemandMap := ℤ → Option (ℝ × ℝ)

/-- `addDemandInformation`: what a call with a yield, a mean and a standard deviation makes of a map. -/
abbrev AddDemandInformation := YieldLevelDemandMap → ℝ → ℝ → ℝ → YieldLevelDemandMap

/-- A call of `addDemandInformation`. -/
structure DemandCall (L : Type) where
  legCabin : L
  yield : ℝ
  mean : ℝ
  stdDev : ℝ

variable {γ L : Type}

/-- `short (lDateOffset.days())` is in `DEFAULT_DCP_LIST`. -/
def isDue (lDCPList : List DTD) (lDate lDepartureDate : Date) : Bool :=
  Int.bmod (lDepartureDate - lDate) (2 ^ 16) ∈ lDCPList

/-! ## The demands of a path -/

section path
variable (bidPrice : L → ℝ) (lOnDDate : OnDDate γ L) (lDemand : PathDemand γ)

/-- The segments of an O&D date with the cabins of a path. -/
def pathSegments : List (OnDSegment γ L × γ) := lOnDDate.segments.zip lDemand.cabins

/-- One segment of the first loop. -/
noncomputable def addBidPrices (lTotalBidPrice : ℝ) (segment : OnDSegment γ L × γ) : Except ProjectionFault ℝ :=
  -- the operating segment-date holds the bid prices
  let lSegmentDate := segment.1.getOperatingSegmentDate.getD segment.1.own
  match lSegmentDate.legCabins segment.2 with
  | none => .error .segmentCabin
  | some lLegCabinList => .ok (lTotalBidPrice + (lLegCabinList.map bidPrice).sum)

noncomputable def totalBidPrice : Except ProjectionFault ℝ :=
  (pathSegments lOnDDate lDemand).foldlM (addBidPrices bidPrice) 0

/-- One segment of the second loop: only operated legs receive the demand. `lYield` is the yield of a leg-cabin of a
segment. -/
def segmentDemands (lYield : List L → L → ℝ) (segment : OnDSegment γ L × γ) :
    Except ProjectionFault (List (DemandCall L)) :=
  match segment.1.getOperatingSegmentDate with
  | some _ => .ok []
  | none =>
    match segment.1.own.legCabins segment.2 with
    | none => .error .segmentCabin
    | some [] => .error .noLegCabin
    | some lLegCabinList => .ok (lLegCabinList.map fun lLegCabin =>
        ⟨lLegCabin, lYield lLegCabinList lLegCabin, lDemand.mean, lDemand.stdDev⟩)

def operatedDemands (lYield : List L → L → ℝ) : Except ProjectionFault (List (DemandCall L)) := do
  let calls ← (pathSegments lOnDDate lDemand).mapM (segmentDemands lDemand lYield)
  return calls.flatten

/-- Dynamic yield proration: by the share of the leg-cabin in the total bid price. Where that is 0 the yields are 0
here; the doubles of the source are not numbers then, or infinite. -/
noncomputable def pathDemandsDYP : Except ProjectionFault (List (DemandCall L)) :=
  if lDemand.cabins.length = lOnDDate.nbOfSegments ∧ lOnDDate.segments.length = lOnDDate.nbOfSegments then do
    let lTotalBidPrice ← totalBidPrice bidPrice lOnDDate lDemand
    operatedDemands lOnDDate lDemand fun _ lLegCabin => bidPrice lLegCabin / lTotalBidPrice * lDemand.yield
  else .error .nbOfSegments

/-- Static proration: equal shares of the segments, and of the legs of a segment. -/
noncomputable def pathDemandsYP : Except ProjectionFault (List (DemandCall L)) :=
  if lDemand.cabins.length = lOnDDate.nbOfSegments ∧ lOnDDate.segments.length = lOnDDate.nbOfSegments then
    operatedDemands lOnDDate lDemand fun lLegCabinList _ =>
      lDemand.yield / ((lLegCabinList.length * lOnDDate.nbOfSegments : ℕ) : ℝ)
  else .error .nbOfSegments

end path

/-! ### Paths by their data -/

/-- The leg-cabins that hold the bid prices of a segment of a path. -/
def pricedLegCabins (segment : OnDSegment γ L × γ) : List L :=
  ((segment.1.getOperatingSegmentDate.getD segment.1.own).legCabins segment.2).getD []

/-- The leg-cabins of a segment of a path that the airline operates itself. -/
def operatedLegCabins (segment : OnDSegment γ L × γ) : List L :=
  match segment.1.getOperatingSegmentDate with
  | some _ => []
  | none => (segment.1.own.legCabins segment.2).getD []

/-- The bid price of a path. -/
def pathBidPrice (bidPrice : L → ℝ) (lOnDDate : OnDDate γ L) (lDemand : PathDemand γ) : ℝ :=
  ((pathSegments lOnDDate lDemand).map fun segment => ((pricedLegCabins segment).map bidPrice).sum).sum

/-- Its demand on the leg-cabins of the airline, at their shares of the yield. -/
noncomputable def proratedDemands (bidPrice : L → ℝ) (lOnDDate : OnDDate γ L) (lDemand : PathDemand γ) :
    List (DemandCall L) :=
  (pathSegments lOnDDate lDemand).flatMap fun segment => (operatedLegCabins segment).map fun leg =>
    ⟨leg, bidPrice leg / pathBidPrice bidPrice lOnDDate lDemand * lDemand.yield, lDemand.mean, lDemand.stdDev⟩

/-- The demands of all paths of the due O&D dates. -/
noncomputable def dueDemands (bidPrice : L → ℝ) (lDCPList : List DTD) (lDate : Date) (iInventory : Inventory γ L) :
    List (DemandCall L) :=
  (iInventory.onDDates.filter fun lOnDDate => isDue lDCPList lDate lOnDDate.date).flatMap fun lOnDDate =>
    lOnDDate.demandInfoMap.flatMap (proratedDemands bidPrice lOnDDate)

section path
variable {bidPrice : L → ℝ} {lOnDDate : OnDDate γ L} {lDemand : PathDemand γ}

theorem addBidPrices_eq {before after : ℝ} {segment : OnDSegment γ L × γ}
    (h : addBidPrices bidPrice before segment = .ok after) :
    after = before + ((pricedLegCabins segment).map bidPrice).sum := by
  unfold addBidPrices at h
  unfold pricedLegCabins
  simp only at h
  split at h
  · cases h
  · rename_i hlegs
    rw [hlegs]
    exact (Except.ok.inj h).symm

theorem totalBidPrice_eq {total : ℝ} (h : totalBidPrice bidPrice lOnDDate lDemand = .ok total) :
    total = pathBidPrice bidPrice lOnDDate lDemand := by
  have hrun : ∀ (segments : List (OnDSegment γ L × γ)) (before after : ℝ),
      segments.foldlM (addBidPrices bidPrice) before = .ok after →
        after = before + (segments.map fun segment => ((pricedLegCabins segment).map bidPrice).sum).sum := by
    intro segments
    induction segments with
    | nil =>
      intro before after h
      obtain rfl := Except.ok.inj h
      simp
    | cons segment segments ih =>
      intro before after h
      rw [List.foldlM_cons, bind_eq_ok] at h
      obtain ⟨between, h₁, h₂⟩ := h
      rw [ih _ _ h₂, addBidPrices_eq h₁, List.map_cons, List.sum_cons, add_assoc]
  rw [hrun _ _ _ h, zero_add, pathBidPrice]

theorem segmentDemands_eq {lYield : List L → L → ℝ} {segment : OnDSegment γ L × γ} {calls : List (DemandCall L)}
    (h : segmentDemands lDemand lYield segment = .ok calls) :
    calls = (operatedLegCabins segment).map fun leg =>
      ⟨leg, lYield (operatedLegCabins segment) leg, lDemand.mean, lDemand.stdDev⟩ := by
  unfold segmentDemands at h
  unfold operatedLegCabins
  split at h
  · exact (Except.ok.inj h).symm
  · split at h
    · cases h
    · cases h
    · rename_i hlegs
      rw [hlegs]
      exact (Except.ok.inj h).symm

theorem operatedDemands_eq {lYield : List L → L → ℝ} {calls : List (DemandCall L)}
    (h : operatedDemands lOnDDate lDemand lYield = .ok calls) :
    calls = (pathSegments lOnDDate lDemand).flatMap fun segment => (operatedLegCabins segment).map fun leg =>
      ⟨leg, lYield (operatedLegCabins segment) leg, lDemand.mean, lDemand.stdDev⟩ := by
  obtain ⟨lists, hlists, h⟩ := bind_eq_ok.1 h
  obtain rfl := Except.ok.inj h
  exact mapM_flatten hlists fun segment _ calls hcalls => segmentDemands_eq hcalls

theorem pathDemandsDYP_eq {calls : List (DemandCall L)} (h : pathDemandsDYP bidPrice lOnDDate lDemand = .ok calls) :
    calls = proratedDemands bidPrice lOnDDate lDemand := by
  unfold pathDemandsDYP at h
  split at h
  · obtain ⟨total, htotal, h⟩ := bind_eq_ok.1 h
    rw [proratedDemands, ← totalBidPrice_eq htotal]
    exact operatedDemands_eq h
  · cases h

end path

/-! ## The inventory -/

/-- The calls for the due O&D dates of an inventory. -/
def projectedDemands (pathDemands : OnDDate γ L → PathDemand γ → Except ProjectionFault (List (DemandCall L)))
    (lDCPList : List DTD) (lDate : Date) (iInventory : Inventory γ L) :
    Except ProjectionFault (List (DemandCall L)) :=
  match iInventory.onDDates with
  | [] => .error .noOnDDate
  | lOnDDateList => do
    let calls ← (lOnDDateList.filter fun lOnDDate => isDue lDCPList lDate lOnDDate.date).mapM fun lOnDDate => do
      let calls ← lOnDDate.demandInfoMap.mapM (pathDemands lOnDDate)
      return calls.flatten
    return calls.flatten

theorem projectedDemands_eq {bidPrice : L → ℝ} {lDCPList : List DTD} {lDate : Date} {iInventory : Inventory γ L}
    {calls : List (DemandCall L)} (h : projectedDemands (pathDemandsDYP bidPrice) lDCPList lDate iInventory = .ok calls) :
    calls = dueDemands bidPrice lDCPList lDate iInventory := by
  unfold projectedDemands at h
  split at h
  · cases h
  · obtain ⟨lists, hlists, h⟩ := bind_eq_ok.1 h
    obtain rfl := Except.ok.inj h
    refine mapM_flatten hlists fun lOnDDate _ calls hcalls => ?_
    obtain ⟨lists', hlists', hcalls⟩ := bind_eq_ok.1 hcalls
    obtain rfl := Except.ok.inj hcalls
    exact mapM_flatten hlists' fun lDemand _ calls hcalls =>
      pathDemandsDYP_eq hcalls

section maps
variable (addDemandInformation : AddDemandInformation) [DecidableEq L]

def addDemands (calls : List (DemandCall L)) (maps : L → YieldLevelDemandMap) : L → YieldLevelDemandMap :=
  calls.foldl (fun maps call => Function.update maps call.legCabin
    (addDemandInformation (maps call.legCabin) call.yield call.mean call.stdDev)) maps

noncomputable def projectOnDDemandOnLegCabinsUsingDYP (bidPrice : L → ℝ) (lDCPList : List DTD) (lDate : Date)
    (iInventory : Inventory γ L) (maps : L → YieldLevelDemandMap) :
    Except ProjectionFault (L → YieldLevelDemandMap) := do
  let calls ← projectedDemands (pathDemandsDYP bidPrice) lDCPList lDate iInventory
  return addDemands addDemandInformation calls maps

/-- What the calls make of a map, one after the other. -/
def addCalls (map : YieldLevelDemandMap) (calls : List (DemandCall L)) : YieldLevelDemandMap :=
  calls.foldl (fun map call => addDemandInformation map call.yield call.mean call.stdDev) map

/-- The calls for a leg-cabin. -/
def callsOn (calls : List (DemandCall L)) (leg : L) : List (DemandCall L) :=
  calls.filter fun call => call.legCabin = leg

end maps

/-- The leg-cabins of the due flight-dates, leg-date by leg-date. -/
def dueLegDates (lDCPList : List DTD) (lDate : Date) (iInventory : Inventory γ L) : List (List L) :=
  (iInventory.flightDates.filter fun lFlightDate => isDue lDCPList lDate lFlightDate.departureDate).flatMap
    FlightDate.legDates

section reset
variable [DecidableEq L]

/-- The loop over the leg-cabins of a leg-date: `emptyYieldLevelDemandMap`. -/
def emptyLegCabins (lLegCabinList : List L) (maps : L → YieldLevelDemandMap) : L → YieldLevelDemandMap :=
  lLegCabinList.foldl (fun maps lLegCabin => Function.update maps lLegCabin fun _ => none) maps

/-- The loop over leg-dates. -/
def resetLegDates : List (List L) → (L → YieldLevelDemandMap) → Except ProjectionFault (L → YieldLevelDemandMap)
  | [], maps => .ok maps
  | [] :: _, _ => .error .noLegCabin
  | (leg :: legs) :: lLegDateList, maps => resetLegDates lLegDateList (emptyLegCabins (leg :: legs) maps)

def resetDemandInformation (lDCPList : List DTD) (lDate : Date) (iInventory : Inventory γ L)
    (maps : L → YieldLevelDemandMap) : Except ProjectionFault (L → YieldLevelDemandMap) :=
  if iInventory.flightDates.isEmpty then .error .noFlightDate
  else resetLegDates (dueLegDates lDCPList lDate iInventory) maps

end reset

/-! ## What the maps hold -/

/-- An entry with the demand of a call: the means add up, and so do the variances. -/
noncomputable def addToEntryOf : Option (ℝ × ℝ) → ℝ → ℝ → ℝ × ℝ
  | none, iMean, iStdDev => (iMean, iStdDev)
  | some (lMean, lStdDev), iMean, iStdDev => (lMean + iMean, √(lStdDev * lStdDev + iStdDev * iStdDev))

/-- What StdAir's leg-cabins do: demand is added to the entry of the rounded yield, and the others stay. -/
structure AddsDemand (addDemandInformation : AddDemandInformation) (yieldLevel : ℝ → ℤ) : Prop where
  entry : ∀ map iYield iMean iStdDev, addDemandInformation map iYield iMean iStdDev (yieldLevel iYield) =
    some (addToEntryOf (map (yieldLevel iYield)) iMean iStdDev)
  other : ∀ map iYield iMean iStdDev level, level ≠ yieldLevel iYield →
    addDemandInformation map iYield iMean iStdDev level = map level

/-- A leg-cabin that does so. -/
noncomputable def addAtLevel (yieldLevel : ℝ → ℤ) : AddDemandInformation := fun map iYield iMean iStdDev =>
  Function.update map (yieldLevel iYield) (some (addToEntryOf (map (yieldLevel iYield)) iMean iStdDev))

theorem addAtLevel_addsDemand (yieldLevel : ℝ → ℤ) : AddsDemand (addAtLevel yieldLevel) yieldLevel where
  entry _ _ _ _ := Function.update_self ..
  other _ _ _ _ _ hlevel := Function.update_of_ne hlevel ..

theorem AddsDemand.eq {addDemandInformation : AddDemandInformation} {yieldLevel : ℝ → ℤ}
    (h : AddsDemand addDemandInformation yieldLevel) : addDemandInformation = addAtLevel yieldLevel := by
  funext map iYield iMean iStdDev level
  by_cases hlevel : level = yieldLevel iYield
  · subst hlevel
    rw [h.entry, addAtLevel, Function.update_self]
  · rw [h.other _ _ _ _ _ hlevel, addAtLevel, Function.update_of_ne hlevel]

section entries
variable {addDemandInformation : AddDemandInformation} {yieldLevel : ℝ → ℤ} [DecidableEq L]
  {maps : L → YieldLevelDemandMap}

theorem callsOn_append (calls calls' : List (DemandCall L)) (leg : L) :
    callsOn (calls ++ calls') leg = callsOn calls leg ++ callsOn calls' leg := List.filter_append ..

theorem callsOn_eq_nil {calls : List (DemandCall L)} {leg : L} (h : ∀ call ∈ calls, call.legCabin ≠ leg) :
    callsOn calls leg = [] :=
  List.filter_eq_nil_iff.2 fun call hcall => by simp [h call hcall]

/-- **A map changes by the calls for its leg-cabin.** -/
theorem addDemands_leg (calls : List (DemandCall L)) (maps : L → YieldLevelDemandMap) (leg : L) :
    addDemands addDemandInformation calls maps leg = addCalls addDemandInformation (maps leg) (callsOn calls leg) := by
  induction calls generalizing maps with
  | nil => rfl
  | cons call calls ih =>
    rw [addDemands, List.foldl_cons, ← addDemands, ih, callsOn, callsOn, List.filter_cons]
    by_cases hleg : call.legCabin = leg
    · subst hleg
      rw [Function.update_self, if_pos (decide_eq_true rfl)]
      rfl
    · rw [Function.update_of_ne (Ne.symm hleg), if_neg (by simpa using hleg)]

/-- An entry after some calls. -/
noncomputable def addToEntryAll (entry : Option (ℝ × ℝ)) (calls : List (DemandCall L)) : Option (ℝ × ℝ) :=
  calls.foldl (fun entry call => some (addToEntryOf entry call.mean call.stdDev)) entry

/-- The calls for one yield level of one leg-cabin. -/
def callsAt (yieldLevel : ℝ → ℤ) (calls : List (DemandCall L)) (leg : L) (level : ℤ) : List (DemandCall L) :=
  calls.filter fun call => call.legCabin = leg ∧ yieldLevel call.yield = level

omit [DecidableEq L] in
/-- **An entry changes by its own calls.** -/
theorem addCalls_apply (hadd : AddsDemand addDemandInformation yieldLevel) (calls : List (DemandCall L))
    (map : YieldLevelDemandMap) (level : ℤ) : addCalls addDemandInformation map calls level =
      addToEntryAll (map level) (calls.filter fun call => yieldLevel call.yield = level) := by
  induction calls generalizing map with
  | nil => rfl
  | cons call calls ih =>
    rw [addCalls, List.foldl_cons, ← addCalls, ih, List.filter_cons]
    by_cases hlevel : yieldLevel call.yield = level
    · subst hlevel
      rw [hadd.entry, if_pos (decide_eq_true rfl)]
      rfl
    · rw [hadd.other _ _ _ _ _ (Ne.symm hlevel), if_neg (by simpa using hlevel)]

theorem addDemands_apply (hadd : AddsDemand addDemandInformation yieldLevel) (calls : List (DemandCall L))
    (maps : L → YieldLevelDemandMap) (leg : L) (level : ℤ) : addDemands addDemandInformation calls maps leg level =
      addToEntryAll (maps leg level) (callsAt yieldLevel calls leg level) := by
  rw [addDemands_leg, addCalls_apply hadd, callsOn, List.filter_filter, callsAt]
  simp only [Bool.decide_and, Bool.and_comm]

theorem emptyLegCabins_apply (legs : List L) (maps : L → YieldLevelDemandMap) (leg : L) :
    emptyLegCabins legs maps leg = if leg ∈ legs then fun _ => none else maps leg := by
  have hvisits : emptyLegCabins legs maps = KeyedUpdates.visits (fun _ _ _ => none) legs maps := rfl
  rw [hvisits]
  by_cases hleg : leg ∈ legs
  · rw [if_pos hleg, KeyedUpdates.visits_apply_of_idempotent (fun _ => rfl) hleg]
  · rw [if_neg hleg, KeyedUpdates.visits_apply_of_notMem _ hleg]

theorem resetLegDates_apply : ∀ {legDates : List (List L)} {maps out : L → YieldLevelDemandMap},
    resetLegDates legDates maps = .ok out → ∀ leg, out leg = if leg ∈ legDates.flatten then fun _ => none else maps leg
  | [], maps, out, h, leg => by
    obtain rfl := Except.ok.inj h
    simp
  | [] :: _, _, _, h, _ => by cases h
  | (l :: legs) :: legDates, maps, out, h, leg => by
    rw [resetLegDates] at h
    rw [resetLegDates_apply h, emptyLegCabins_apply, List.flatten_cons]
    by_cases hrest : leg ∈ legDates.flatten
    · simp only [hrest, if_true, List.mem_append, or_true]
    · simp only [hrest, if_false, List.mem_append, or_false]

/-- A reset that succeeds does so on all maps. -/
theorem resetLegDates_total : ∀ {legDates : List (List L)} {maps out : L → YieldLevelDemandMap},
    resetLegDates legDates maps = .ok out → ∀ maps', ∃ out', resetLegDates legDates maps' = .ok out'
  | [], _, _, _, maps' => ⟨maps', rfl⟩
  | [] :: _, _, _, h, _ => by cases h
  | (l :: legs) :: legDates, maps, _, h, maps' => by
    rw [resetLegDates] at h ⊢
    exact resetLegDates_total h _

/-- The leg-cabins that a reset reaches are empty, the others as they were. -/
theorem resetDemandInformation_apply {lDCPList : List DTD} {lDate : Date} {iInventory : Inventory γ L}
    {out : L → YieldLevelDemandMap} (h : resetDemandInformation lDCPList lDate iInventory maps = .ok out) (leg : L) :
    out leg = if leg ∈ (dueLegDates lDCPList lDate iInventory).flatten then fun _ => none else maps leg := by
  unfold resetDemandInformation at h
  split at h
  · cases h
  · exact resetLegDates_apply h leg

theorem resetDemandInformation_total {lDCPList : List DTD} {lDate : Date} {iInventory : Inventory γ L}
    {out : L → YieldLevelDemandMap} (h : resetDemandInformation lDCPList lDate iInventory maps = .ok out)
    (maps' : L → YieldLevelDemandMap) :
    ∃ out', resetDemandInformation lDCPList lDate iInventory maps' = .ok out' := by
  unfold resetDemandInformation at h ⊢
  by_cases hempty : iInventory.flightDates.isEmpty = true
  · rw [if_pos hempty] at h
    cases h
  · rw [if_neg hempty] at h ⊢
    exact resetLegDates_total h maps'

end entries

end Rmol
