import Rmol.OnDProjection
/-!
# Resetting and projecting twice (`RMOL_Service.cpp:2042-2043`)

`resetDemandInformation` is declared to re-initialise the projections in all leg-cabins (`RMOL_Service.hpp:239`). It
goes through the flight-dates whose own days to departure are a DCP; the projection goes through the O&D dates whose
days to departure are one. A segment that departs on a later day than its O&D date is projected on without a reset,
and each pass of RM cooperation adds the same demand once more.

`resetAndProject_idempotent_iff` is the exact condition: on the leg-cabins that the reset leaves out the projected
demand must be nil, so that the paths which are due fly with flight-dates which are (`DueTogether`).
-/

namespace Rmol

variable {γ L : Type}

/-! ## One entry -/

section entry

def entryMean (entry : Option (ℝ × ℝ)) : ℝ := (entry.map Prod.fst).getD 0

noncomputable def entryVariance (entry : Option (ℝ × ℝ)) : ℝ := (entry.map fun p => p.2 ^ 2).getD 0

theorem entryMean_addToEntryAll (calls : List (DemandCall L)) (entry : Option (ℝ × ℝ)) :
    entryMean (addToEntryAll entry calls) = entryMean entry + (calls.map DemandCall.mean).sum := by
  induction calls generalizing entry with
  | nil => simp [addToEntryAll]
  | cons call calls ih =>
    rw [addToEntryAll, List.foldl_cons, ← addToEntryAll, ih, List.map_cons, List.sum_cons, ← add_assoc]
    congr 1
    cases entry with
    | none => simp [entryMean, addToEntryOf]
    | some p => rfl

theorem entryVariance_addToEntryAll (calls : List (DemandCall L)) (entry : Option (ℝ × ℝ)) :
    entryVariance (addToEntryAll entry calls) =
      entryVariance entry + (calls.map fun call => call.stdDev ^ 2).sum := by
  induction calls generalizing entry with
  | nil => simp [addToEntryAll]
  | cons call calls ih =>
    rw [addToEntryAll, List.foldl_cons, ← addToEntryAll, ih, List.map_cons, List.sum_cons, ← add_assoc]
    congr 1
    cases entry with
    | none => simp [entryVariance, addToEntryOf]
    | some p =>
      simp only [entryVariance, addToEntryOf, Option.map_some, Option.getD_some]
      rw [Real.sq_sqrt (add_nonneg (mul_self_nonneg _) (mul_self_nonneg _))]
      ring

/-- Demand without deviation leaves a deviation as it is. -/
theorem addToEntryAll_some {s : ℝ} (hs : 0 ≤ s) : ∀ (calls : List (DemandCall L)) (m : ℝ),
    (∀ call ∈ calls, call.stdDev = 0) →
      addToEntryAll (some (m, s)) calls = some (m + (calls.map DemandCall.mean).sum, s)
  | [], m, _ => by simp [addToEntryAll]
  | call :: calls, m, h => by
    have hzero := h call List.mem_cons_self
    have hstep : addToEntryOf (some (m, s)) call.mean call.stdDev = (m + call.mean, s) := by
      simp [addToEntryOf, hzero, Real.sqrt_mul_self hs]
    rw [addToEntryAll, List.foldl_cons, ← addToEntryAll, hstep,
      addToEntryAll_some hs calls _ fun c hc => h c (List.mem_cons_of_mem _ hc), List.map_cons, List.sum_cons, add_assoc]

/-- The calls add nothing. -/
def NoDemand (calls : List (DemandCall L)) : Prop :=
  (calls.map DemandCall.mean).sum = 0 ∧ ∀ call ∈ calls, call.stdDev = 0

/-- **The same calls twice** leave an entry as one time does iff they add nothing. -/
theorem addToEntryAll_twice_iff (calls : List (DemandCall L)) (entry : Option (ℝ × ℝ)) :
    addToEntryAll (addToEntryAll entry calls) calls = addToEntryAll entry calls ↔ NoDemand calls := by
  constructor
  · intro h
    have hmean := congrArg entryMean h
    have hvariance := congrArg entryVariance h
    rw [entryMean_addToEntryAll, add_eq_left] at hmean
    rw [entryVariance_addToEntryAll, add_eq_left] at hvariance
    refine ⟨hmean, fun call hcall => ?_⟩
    have hnonneg : ∀ v ∈ calls.map fun call => call.stdDev ^ 2, 0 ≤ v := by
      intro v hv
      obtain ⟨call, -, rfl⟩ := List.mem_map.1 hv
      exact sq_nonneg _
    exact pow_eq_zero_iff two_ne_zero |>.1
      (List.all_zero_of_le_zero_le_of_sum_eq_zero hnonneg hvariance (List.mem_map_of_mem hcall))
  · rintro ⟨hmean, hstdDev⟩
    cases calls with
    | nil => rfl
    | cons call calls =>
      have hzero := hstdDev call List.mem_cons_self
      have hrest : ∀ c ∈ calls, c.stdDev = 0 := fun c hc => hstdDev c (List.mem_cons_of_mem _ hc)
      -- after the first call the entry is there, with a deviation that is not negative
      have hs : 0 ≤ (addToEntryOf entry call.mean call.stdDev).2 := by
        cases entry with
        | none => exact hzero.ge
        | some p => exact Real.sqrt_nonneg _
      have honce : addToEntryAll entry (call :: calls) = some
          ((addToEntryOf entry call.mean call.stdDev).1 + (calls.map DemandCall.mean).sum,
            (addToEntryOf entry call.mean call.stdDev).2) :=
        addToEntryAll_some hs calls _ hrest
      rw [honce, addToEntryAll_some hs (call :: calls) _ hstdDev, hmean, add_zero]

end entry

/-! ## The pair of commands -/

section twice
variable [DecidableEq L] {addDemandInformation : AddDemandInformation} {yieldLevel : ℝ → ℤ} {bidPrice : L → ℝ}
  {lDCPList : List DTD} {lDate : Date} {iInventory : Inventory γ L} {maps once : L → YieldLevelDemandMap}

/-- What RM cooperation does to an inventory after each optimisation. -/
noncomputable def resetAndProject (addDemandInformation : AddDemandInformation) (bidPrice : L → ℝ)
    (lDCPList : List DTD) (lDate : Date) (iInventory : Inventory γ L) (maps : L → YieldLevelDemandMap) :
    Except ProjectionFault (L → YieldLevelDemandMap) := do
  let maps ← resetDemandInformation lDCPList lDate iInventory maps
  projectOnDDemandOnLegCabinsUsingDYP addDemandInformation bidPrice lDCPList lDate iInventory maps

/-- **One run**: every entry is what the calls make of it, of an empty one on the leg-cabins of the reset. -/
theorem resetAndProject_apply (hadd : AddsDemand addDemandInformation yieldLevel)
    (h : resetAndProject addDemandInformation bidPrice lDCPList lDate iInventory maps = .ok once)
    (leg : L) (level : ℤ) : once leg level = addToEntryAll
      (if leg ∈ (dueLegDates lDCPList lDate iInventory).flatten then none else maps leg level)
      (callsAt yieldLevel (dueDemands bidPrice lDCPList lDate iInventory) leg level) := by
  obtain ⟨reset, hreset, h⟩ := bind_eq_ok.1 h
  obtain ⟨calls, hcalls, h⟩ := bind_eq_ok.1 h
  obtain rfl := Except.ok.inj h
  rw [addDemands_apply hadd, resetDemandInformation_apply hreset, projectedDemands_eq hcalls]
  split <;> rfl

/-- A run that succeeds does so on all maps. -/
theorem resetAndProject_total (h : resetAndProject addDemandInformation bidPrice lDCPList lDate iInventory maps = .ok once)
    (maps' : L → YieldLevelDemandMap) :
    ∃ out, resetAndProject addDemandInformation bidPrice lDCPList lDate iInventory maps' = .ok out := by
  obtain ⟨reset, hreset, h⟩ := bind_eq_ok.1 h
  obtain ⟨calls, hcalls, -⟩ := bind_eq_ok.1 h
  obtain ⟨reset', hreset'⟩ := resetDemandInformation_total hreset maps'
  exact ⟨_, bind_eq_ok.2 ⟨reset', hreset', bind_eq_ok.2 ⟨calls, hcalls, rfl⟩⟩⟩

/-- Two runs in a row leave an entry as one does iff its leg-cabin is reset or no demand is projected on it. -/
theorem resetAndProject_entry_iff {twice : L → YieldLevelDemandMap}
    (hadd : AddsDemand addDemandInformation yieldLevel)
    (h : resetAndProject addDemandInformation bidPrice lDCPList lDate iInventory maps = .ok once)
    (htwice : resetAndProject addDemandInformation bidPrice lDCPList lDate iInventory once = .ok twice)
    (leg : L) (level : ℤ) :
    twice leg level = once leg level ↔ leg ∈ (dueLegDates lDCPList lDate iInventory).flatten ∨
      NoDemand (callsAt yieldLevel (dueDemands bidPrice lDCPList lDate iInventory) leg level) := by
  rw [resetAndProject_apply hadd htwice, resetAndProject_apply hadd h]
  by_cases hleg : leg ∈ (dueLegDates lDCPList lDate iInventory).flatten
  · simp only [hleg, if_true, true_or]
  · simp only [hleg, if_false, false_or]
    exact addToEntryAll_twice_iff _ _

theorem resetAndProject_twice_iff
    (hadd : AddsDemand addDemandInformation yieldLevel)
    (h : resetAndProject addDemandInformation bidPrice lDCPList lDate iInventory maps = .ok once) :
    resetAndProject addDemandInformation bidPrice lDCPList lDate iInventory once = .ok once ↔
      ∀ leg, leg ∉ (dueLegDates lDCPList lDate iInventory).flatten → ∀ level,
        NoDemand (callsAt yieldLevel (dueDemands bidPrice lDCPList lDate iInventory) leg level) := by
  obtain ⟨twice, htwice⟩ := resetAndProject_total h once
  have hentry := resetAndProject_entry_iff hadd h htwice
  rw [htwice, Except.ok.injEq, funext_iff]
  constructor
  · intro hall leg hleg level
    exact ((hentry leg level).1 (congrFun (hall leg) level)).resolve_left hleg
  · intro hall leg
    funext level
    by_cases hleg : leg ∈ (dueLegDates lDCPList lDate iInventory).flatten
    · exact (hentry leg level).2 (.inl hleg)
    · exact (hentry leg level).2 (.inr (hall leg hleg level))

/-- The due paths have demand on leg-cabins of due flight-dates only. -/
def DueTogether (lDCPList : List DTD) (lDate : Date) (iInventory : Inventory γ L) : Prop :=
  ∀ lOnDDate ∈ iInventory.onDDates, isDue lDCPList lDate lOnDDate.date = true →
    ∀ lDemand ∈ lOnDDate.demandInfoMap, ∀ segment ∈ pathSegments lOnDDate lDemand,
      ∀ leg ∈ operatedLegCabins segment, leg ∉ (dueLegDates lDCPList lDate iInventory).flatten →
        lDemand.mean = 0 ∧ lDemand.stdDev = 0

omit [DecidableEq L] in
theorem dueTogether_iff (bidPrice : L → ℝ) : DueTogether lDCPList lDate iInventory ↔
    ∀ call ∈ dueDemands bidPrice lDCPList lDate iInventory,
      call.legCabin ∉ (dueLegDates lDCPList lDate iInventory).flatten → call.mean = 0 ∧ call.stdDev = 0 := by
  unfold DueTogether dueDemands proratedDemands
  constructor
  · intro h call hcall
    simp only [List.mem_flatMap, List.mem_filter, List.mem_map] at hcall
    obtain ⟨lOnDDate, ⟨hmem, hdue⟩, lDemand, hdemand, segment, hsegment, leg, hleg, rfl⟩ := hcall
    exact h lOnDDate hmem hdue lDemand hdemand segment hsegment leg hleg
  · intro h lOnDDate hmem hdue lDemand hdemand segment hsegment leg hleg
    simp only [List.mem_flatMap, List.mem_filter, List.mem_map] at h
    exact h _ ⟨lOnDDate, ⟨hmem, hdue⟩, lDemand, hdemand, segment, hsegment, leg, hleg, rfl⟩

/-- Demand that is not negative adds nothing to any level of a leg-cabin iff it is nil. -/
theorem forall_noDemand_iff {calls : List (DemandCall L)} (hmean : ∀ call ∈ calls, 0 ≤ call.mean) (leg : L) :
    (∀ level, NoDemand (callsAt yieldLevel calls leg level)) ↔
      ∀ call ∈ calls, call.legCabin = leg → call.mean = 0 ∧ call.stdDev = 0 := by
  constructor
  · intro h call hcall hleg
    obtain ⟨hsum, hstdDev⟩ := h (yieldLevel call.yield)
    have hat : call ∈ callsAt yieldLevel calls leg (yieldLevel call.yield) :=
      List.mem_filter.2 ⟨hcall, decide_eq_true ⟨hleg, rfl⟩⟩
    have hnonneg : ∀ v ∈ (callsAt yieldLevel calls leg (yieldLevel call.yield)).map DemandCall.mean, 0 ≤ v := by
      intro v hv
      obtain ⟨c, hc, rfl⟩ := List.mem_map.1 hv
      exact hmean c (List.mem_of_mem_filter hc)
    exact ⟨List.all_zero_of_le_zero_le_of_sum_eq_zero hnonneg hsum (List.mem_map_of_mem hat), hstdDev call hat⟩
  · intro h level
    have hnil : ∀ call ∈ callsAt yieldLevel calls leg level, call.mean = 0 ∧ call.stdDev = 0 := by
      intro call hcall
      obtain ⟨hmem, hat⟩ := List.mem_filter.1 hcall
      exact h call hmem (of_decide_eq_true hat).1
    refine ⟨List.sum_eq_zero fun v hv => ?_, fun call hcall => (hnil call hcall).2⟩
    obtain ⟨call, hcall, rfl⟩ := List.mem_map.1 hv
    exact (hnil call hcall).1

/-- **Resetting and projecting again** leaves every map as it is iff on the leg-cabins of flight-dates that are not
due themselves the projected demand of each yield level adds up to none. Where no mean is negative, that is: the due
paths have demand on leg-cabins of due flight-dates only. -/
theorem resetAndProject_idempotent_iff
    (hadd : AddsDemand addDemandInformation yieldLevel)
    (h : resetAndProject addDemandInformation bidPrice lDCPList lDate iInventory maps = .ok once) :
    (resetAndProject addDemandInformation bidPrice lDCPList lDate iInventory once = .ok once ↔
      ∀ leg, leg ∉ (dueLegDates lDCPList lDate iInventory).flatten → ∀ level,
        NoDemand (callsAt yieldLevel (dueDemands bidPrice lDCPList lDate iInventory) leg level)) ∧
    ((∀ lOnDDate ∈ iInventory.onDDates, ∀ lDemand ∈ lOnDDate.demandInfoMap, 0 ≤ lDemand.mean) →
      (resetAndProject addDemandInformation bidPrice lDCPList lDate iInventory once = .ok once ↔
        DueTogether lDCPList lDate iInventory)) := by
  refine ⟨resetAndProject_twice_iff hadd h, fun hmean => ?_⟩
  have hcalls : ∀ call ∈ dueDemands bidPrice lDCPList lDate iInventory, 0 ≤ call.mean := by
    intro call hcall
    simp only [dueDemands, proratedDemands, List.mem_flatMap, List.mem_filter, List.mem_map] at hcall
    obtain ⟨lOnDDate, ⟨hmem, -⟩, lDemand, hdemand, _, _, _, _, rfl⟩ := hcall
    exact hmean lOnDDate hmem lDemand hdemand
  rw [resetAndProject_twice_iff hadd h, dueTogether_iff bidPrice]
  simp only [forall_noDemand_iff hcalls]
  constructor
  · intro hall call hcall hleg
    exact hall call.legCabin hleg call hcall rfl
  · rintro hall _ hleg call hcall rfl
    exact hall call hcall hleg

end twice

/-! ### A connection the next day, and on the same day

The first segment departs on day 7, which is a DCP, and the second one on day 8, which is none. -/

noncomputable def connectingOnDDate : OnDDate Unit ℕ where
  date := 7
  nbOfSegments := 2
  segments := [⟨⟨fun _ => some [1]⟩, none⟩, ⟨⟨fun _ => some [2]⟩, none⟩]
  demandInfoMap := [⟨[(), ()], 1, 1, 1⟩]

noncomputable def connectingInventory : Inventory Unit ℕ where
  flightDates := [⟨7, [[1]]⟩, ⟨8, [[2]]⟩]
  onDDates := [connectingOnDDate]

theorem connecting_once : ∃ once, resetAndProject (addAtLevel round) (fun _ => 1) [7, 0] 0 connectingInventory
    (fun _ _ => none) = .ok once := by
  have hdue : isDue [7, 0] 0 7 = true := by decide
  have hnotDue : isDue [7, 0] 0 8 = false := by decide
  simp [resetAndProject, resetDemandInformation, dueLegDates, connectingInventory, connectingOnDDate, hdue, hnotDue,
    resetLegDates, projectOnDDemandOnLegCabinsUsingDYP, projectedDemands, pathDemandsDYP, totalBidPrice,
    addBidPrices, operatedDemands, segmentDemands, pathSegments]

/-- The same with both segments on day 7. -/
noncomputable def sameDayInventory : Inventory Unit ℕ where
  flightDates := [⟨7, [[1], [2]]⟩]
  onDDates := [connectingOnDDate]

theorem resetAndProject_idempotent_iff_sameDay : ∃ once,
    resetAndProject (addAtLevel round) (fun _ => 1) [7, 0] 0 sameDayInventory (fun _ _ => none) = .ok once ∧
    DueTogether [7, 0] 0 sameDayInventory ∧
    resetAndProject (addAtLevel round) (fun _ => 1) [7, 0] 0 sameDayInventory once = .ok once := by
  have hdue : isDue [7, 0] 0 7 = true := by decide
  obtain ⟨once, honce⟩ : ∃ once, resetAndProject (addAtLevel round) (fun _ => 1) [7, 0] 0 sameDayInventory
      (fun _ _ => none) = .ok once := by
    simp [resetAndProject, resetDemandInformation, dueLegDates, sameDayInventory, connectingOnDDate, hdue,
      resetLegDates, projectOnDDemandOnLegCabinsUsingDYP, projectedDemands, pathDemandsDYP, totalBidPrice,
      addBidPrices, operatedDemands, segmentDemands, pathSegments]
  have htogether : DueTogether [7, 0] 0 sameDayInventory := by
    simp [DueTogether, sameDayInventory, connectingOnDDate, hdue, pathSegments, operatedLegCabins, dueLegDates]
    rintro segment cabin (rfl | rfl) <;> simp
  have hmean : ∀ lOnDDate ∈ sameDayInventory.onDDates, ∀ lDemand ∈ lOnDDate.demandInfoMap, 0 ≤ lDemand.mean := by
    simp [sameDayInventory, connectingOnDDate]
  exact ⟨once, honce, htogether,
    ((resetAndProject_idempotent_iff (addAtLevel_addsDemand round) honce).2 hmean).2 htogether⟩

theorem resetAndProject_not_idempotent :
    pathBidPrice (fun _ => 1) connectingOnDDate ⟨[(), ()], 1, 1, 1⟩ = 2 ∧
    ∃ once, resetAndProject (addAtLevel round) (fun _ => 1) [7, 0] 0 connectingInventory (fun _ _ => none) = .ok once ∧
      resetAndProject (addAtLevel round) (fun _ => 1) [7, 0] 0 connectingInventory once ≠ .ok once := by
  have hdue : isDue [7, 0] 0 7 = true := by decide
  have hnotDue : isDue [7, 0] 0 8 = false := by decide
  have hprice : pathBidPrice (fun _ => 1) connectingOnDDate ⟨[(), ()], 1, 1, 1⟩ = 2 := by
    norm_num [pathBidPrice, pathSegments, connectingOnDDate, pricedLegCabins]
  obtain ⟨once, honce⟩ := connecting_once
  refine ⟨hprice, once, honce, fun htwice => ?_⟩
  have hentry := (resetAndProject_entry_iff (addAtLevel_addsDemand round) honce htwice 2 (round (1 / 2 : ℝ))).1 rfl
  have hdemands : dueDemands (fun _ => 1) [7, 0] 0 connectingInventory =
      [⟨1, 1 / 2, 1, 1⟩, ⟨2, 1 / 2, 1, 1⟩] := by
    rw [dueDemands, connectingInventory]
    simp [connectingOnDDate, hdue, proratedDemands, pathBidPrice, pathSegments, pricedLegCabins, operatedLegCabins]
    norm_num
  rcases hentry with hreset | hnone
  · simp [dueLegDates, connectingInventory, hdue, hnotDue] at hreset
  · rw [hdemands] at hnone
    have hmean := hnone.1
    simp [callsAt] at hmean

end Rmol
