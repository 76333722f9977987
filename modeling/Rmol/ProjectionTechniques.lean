import Rmol.AdvancedCooperation
import Rmol.Lib.Deposits
/-!
# The projections of all techniques (`RMOL_Service.cpp:1310-1511`, `:1692-1987`)

| here | there |
| --- | --- |
| `aggregatedSegment`, `pathDemandsAggregated` | an entry in `projectAggregatedDemandOnLegCabins` (`:1352-1411`) |
| `pathDemandsDA`                              | an entry in `projectOnDDemandOnLegCabinsUsingDA` (`:1733-1840`) |
| `pathDemandsOf`                              | these and the two of `OnDProjection.lean` |
| `dueCalls`, `projectOnDDemand`               | the loops that the four functions share |

The four functions give the demand of a path to the same leg-cabins and differ in its yield. A leg-cabin therefore
holds the same demand under each of them, at other yield levels (`projectOnDDemand_demand`).

With dynamic proration a leg-cabin gets at least its bid price iff the path pays the total bid price
(`proratedDemands_cover_iff`), so that at the bid prices of advanced RM cooperation the partners accept or refuse an
itinerary alike (`advancedCooperation_acceptsAlike`).

`γ` are the cabin-class pairs of a path: the leg-cabins of a segment-date are found by the cabin, its booking class by
both.
-/

namespace Rmol

open Deposits

variable {γ L : Type}

/-- The functions that project O&D demand. -/
inductive Technique where
  | aggregated
  | YP
  | DA
  | DYP
deriving DecidableEq, Repr

inductive TechniqueFault where
  | projection (fault : ProjectionFault)
  /-- `assert (lBookingClass_ptr != NULL)` (`:1389`). -/
  | noBookingClass
deriving DecidableEq, Repr

/-- What the projections look up: the yields of the booking classes of a segment-date, and bid prices. -/
structure TechniqueEnv (γ L : Type) where
  bookingClassYield : SegmentDate γ L → γ → Option ℝ
  bidPrice : L → ℝ

/-! ## One path -/

section path
variable (env : TechniqueEnv γ L) (lOnDDate : OnDDate γ L) (lDemand : PathDemand γ)

/-- One segment: "the yield of the class is assigned to all types of demand for it". -/
noncomputable def aggregatedSegment (segment : OnDSegment γ L × γ) : Except TechniqueFault (List (DemandCall L)) :=
  match segment.1.getOperatingSegmentDate with
  | some _ => .ok []
  | none =>
    match segment.1.own.legCabins segment.2 with
    | none => .error (.projection .segmentCabin)
    | some lLegCabinList =>
      match env.bookingClassYield segment.1.own segment.2, lLegCabinList with
      | none, _ => .error .noBookingClass
      | some _, [] => .error (.projection .noLegCabin)
      | some lClassYield, lLegCabinList => .ok (lLegCabinList.map fun lLegCabin =>
          ⟨lLegCabin, lClassYield / (lLegCabinList.length : ℝ), lDemand.mean, lDemand.stdDev⟩)

noncomputable def pathDemandsAggregated : Except TechniqueFault (List (DemandCall L)) :=
  if lDemand.cabins.length = lOnDDate.nbOfSegments ∧ lOnDDate.segments.length = lOnDDate.nbOfSegments then do
    let calls ← (pathSegments lOnDDate lDemand).mapM (aggregatedSegment env lDemand)
    return calls.flatten
  else .error (.projection .nbOfSegments)

/-- "It is set to 100 (positive small value), if the computed value is negative": it is so below 100. -/
noncomputable def displacementAdjustedYield (lYield lComplementaryBidPrice : ℝ) : ℝ :=
  max ((100 : ℕ) : ℝ) (lYield - lComplementaryBidPrice)

/-- Displacement adjustment: the yield less the bid prices of the other segments. -/
noncomputable def pathDemandsDA : Except ProjectionFault (List (DemandCall L)) :=
  if lDemand.cabins.length = lOnDDate.nbOfSegments ∧ lOnDDate.segments.length = lOnDDate.nbOfSegments then do
    let lBidPriceList ← (pathSegments lOnDDate lDemand).mapM (addBidPrices env.bidPrice 0)
    let lTotalBidPrice := lBidPriceList.sum
    let calls ← ((pathSegments lOnDDate lDemand).zip lBidPriceList).mapM fun entry =>
      segmentDemands lDemand (fun _ _ => displacementAdjustedYield lDemand.yield (lTotalBidPrice - entry.2)) entry.1
    return calls.flatten
  else .error .nbOfSegments

/-- The calls for a path. -/
noncomputable def pathDemandsOf : Technique → Except TechniqueFault (List (DemandCall L))
  | .aggregated => pathDemandsAggregated env lOnDDate lDemand
  | .YP => (pathDemandsYP lOnDDate lDemand).mapError .projection
  | .DA => (pathDemandsDA env lOnDDate lDemand).mapError .projection
  | .DYP => (pathDemandsDYP env.bidPrice lOnDDate lDemand).mapError .projection

end path

/-! ## An inventory -/

section inventory
variable (env : TechniqueEnv γ L) (technique : Technique) (lDCPList : List DTD) (lDate : Date)

/-- The calls for the due O&D dates. -/
noncomputable def dueCalls (iInventory : Inventory γ L) : Except TechniqueFault (List (DemandCall L)) :=
  match iInventory.onDDates with
  | [] => .error (.projection .noOnDDate)
  | lOnDDateList => do
    let calls ← (lOnDDateList.filter fun lOnDDate => isDue lDCPList lDate lOnDDate.date).mapM fun lOnDDate => do
      let calls ← lOnDDate.demandInfoMap.mapM fun lDemand => pathDemandsOf env lOnDDate lDemand technique
      return calls.flatten
    return calls.flatten

noncomputable def projectOnDDemand [DecidableEq L] (addDemandInformation : AddDemandInformation)
    (iInventory : Inventory γ L) (maps : L → YieldLevelDemandMap) : Except TechniqueFault (L → YieldLevelDemandMap) := do
  let calls ← dueCalls env technique lDCPList lDate iInventory
  return addDemands addDemandInformation calls maps

end inventory

section agrees
variable {env : TechniqueEnv γ L} {lDCPList : List DTD} {lDate : Date} {iInventory : Inventory γ L}

theorem mapM_mapError {ε ε' β δ : Type} (f : ε → ε') (g : β → Except ε δ) (l : List β) :
    (l.mapM fun b => (g b).mapError f) = (l.mapM g).mapError f := by
  induction l with
  | nil => rfl
  | cons b l ih =>
    rw [List.mapM_cons, List.mapM_cons, ih, mapError_bind]
    refine bind_congr fun c => ?_
    rw [mapError_bind]
    rfl

/-- The dynamic projection is the one of RM cooperation. -/
theorem dueCalls_DYP : dueCalls env .DYP lDCPList lDate iInventory =
    (projectedDemands (pathDemandsDYP env.bidPrice) lDCPList lDate iInventory).mapError .projection := by
  unfold dueCalls projectedDemands
  cases iInventory.onDDates with
  | nil => rfl
  | cons first rest =>
    simp only [mapError_bind, ← mapM_mapError]
    rfl

end agrees

/-! ## Where the demand goes -/

section spread
variable {env : TechniqueEnv γ L} {lOnDDate : OnDDate γ L} {lDemand : PathDemand γ} {calls : List (DemandCall L)}

/-- A call without its yield. -/
def DemandCall.demand (call : DemandCall L) : L × ℝ × ℝ := (call.legCabin, call.mean, call.stdDev)

/-- The demand of a path, on every leg-cabin of it that the airline operates. -/
def operatedShares (lOnDDate : OnDDate γ L) (lDemand : PathDemand γ) : List (L × ℝ × ℝ) :=
  (pathSegments lOnDDate lDemand).flatMap fun segment => (operatedLegCabins segment).map fun leg =>
    (leg, lDemand.mean, lDemand.stdDev)

theorem operatedDemands_demand {lYield : List L → L → ℝ} (h : operatedDemands lOnDDate lDemand lYield = .ok calls) :
    calls.map DemandCall.demand = operatedShares lOnDDate lDemand := by
  rw [operatedDemands_eq h, List.map_flatMap, operatedShares]
  exact List.flatMap_congr fun segment _ => by simp [DemandCall.demand]

theorem aggregatedSegment_demand {segment : OnDSegment γ L × γ} (h : aggregatedSegment env lDemand segment = .ok calls) :
    calls.map DemandCall.demand = (operatedLegCabins segment).map fun leg => (leg, lDemand.mean, lDemand.stdDev) := by
  unfold aggregatedSegment at h
  cases hoperating : segment.1.getOperatingSegmentDate with
  | some _ =>
    rw [hoperating] at h
    obtain rfl := Except.ok.inj h
    simp [operatedLegCabins, hoperating]
  | none =>
    simp only [hoperating] at h
    split at h
    · cases h
    · rename_i lLegCabinList hlegs
      split at h
      · cases h
      · cases h
      · obtain rfl := Except.ok.inj h
        simp [operatedLegCabins, hoperating, hlegs, Function.comp_def, DemandCall.demand]

theorem pathDemandsDA_eq (h : pathDemandsDA env lOnDDate lDemand = .ok calls) :
    calls = (pathSegments lOnDDate lDemand).flatMap fun segment => (operatedLegCabins segment).map fun leg =>
      ⟨leg, displacementAdjustedYield lDemand.yield (pathBidPrice env.bidPrice lOnDDate lDemand -
        ((pricedLegCabins segment).map env.bidPrice).sum), lDemand.mean, lDemand.stdDev⟩ := by
  unfold pathDemandsDA at h
  split at h
  · obtain ⟨lBidPriceList, hprices, h⟩ := bind_eq_ok.1 h
    obtain ⟨lists, hlists, h⟩ := bind_eq_ok.1 h
    obtain rfl := Except.ok.inj h
    have hsegments : lBidPriceList =
        (pathSegments lOnDDate lDemand).map fun segment => ((pricedLegCabins segment).map env.bidPrice).sum :=
      (List.map_id _).symm.trans (mapM_map hprices fun segment _ lBidPrice hprice => by
        rw [id, addBidPrices_eq hprice, zero_add])
    have hflat := mapM_flatten hlists fun entry _ calls hcalls => segmentDemands_eq hcalls
    rw [hflat, hsegments, ← List.map_prod_left_eq_zip, List.flatMap_map]
    rfl
  · cases h

/-- All techniques give the demand to the leg-cabins that the airline operates. -/
theorem pathDemandsOf_demand {technique : Technique} (h : pathDemandsOf env lOnDDate lDemand technique = .ok calls) :
    calls.map DemandCall.demand = operatedShares lOnDDate lDemand := by
  cases technique with
  | aggregated =>
    change pathDemandsAggregated env lOnDDate lDemand = .ok calls at h
    unfold pathDemandsAggregated at h
    split at h
    · obtain ⟨lists, hlists, h⟩ := bind_eq_ok.1 h
      obtain rfl := Except.ok.inj h
      rw [List.map_flatten, mapM_map hlists fun segment _ calls hcalls => aggregatedSegment_demand hcalls,
        operatedShares, List.flatMap_def]
    · cases h
  | YP =>
    have hYP : pathDemandsYP lOnDDate lDemand = .ok calls := mapError_eq_ok h
    unfold pathDemandsYP at hYP
    split at hYP
    · exact operatedDemands_demand hYP
    · cases hYP
  | DA =>
    rw [pathDemandsDA_eq (mapError_eq_ok h), List.map_flatMap, operatedShares]
    exact List.flatMap_congr fun segment _ => by simp [DemandCall.demand]
  | DYP =>
    rw [pathDemandsDYP_eq (mapError_eq_ok h), proratedDemands, List.map_flatMap, operatedShares]
    exact List.flatMap_congr fun segment _ => by simp [DemandCall.demand]

end spread

/-! ## Every leg-cabin gets the same demand -/

section demand
variable {env : TechniqueEnv γ L} {technique : Technique} {lDCPList : List DTD} {lDate : Date} {iInventory : Inventory γ L}

/-- The demand of the due paths on the leg-cabins of their airline. -/
def dueShares (lDCPList : List DTD) (lDate : Date) (iInventory : Inventory γ L) : List (L × ℝ × ℝ) :=
  (iInventory.onDDates.filter fun lOnDDate => isDue lDCPList lDate lOnDDate.date).flatMap fun lOnDDate =>
    lOnDDate.demandInfoMap.flatMap (operatedShares lOnDDate)

theorem dueCalls_demand {calls : List (DemandCall L)} (h : dueCalls env technique lDCPList lDate iInventory = .ok calls) :
    calls.map DemandCall.demand = dueShares lDCPList lDate iInventory := by
  unfold dueCalls at h
  split at h
  · cases h
  · obtain ⟨lists, hlists, h⟩ := bind_eq_ok.1 h
    obtain rfl := Except.ok.inj h
    rw [List.map_flatten, dueShares, List.flatMap_def]
    refine congrArg List.flatten (mapM_map hlists fun lOnDDate _ calls hcalls => ?_)
    obtain ⟨lists', hlists', hcalls⟩ := bind_eq_ok.1 hcalls
    obtain rfl := Except.ok.inj hcalls
    rw [List.map_flatten, List.flatMap_def]
    exact congrArg List.flatten (mapM_map hlists' fun lDemand _ calls hcalls => pathDemandsOf_demand hcalls)

/-- A mean and a variance. -/
noncomputable def entryDemand (entry : Option (ℝ × ℝ)) : ℝ × ℝ := (entryMean entry, entryVariance entry)

/-- The demand on all yield levels, as the optimiser reads them. -/
noncomputable def levelsDemand (map : YieldLevelDemandMap) : ℝ × ℝ :=
  ((yieldLevels map).map fun level => (level.mean, level.stdDev ^ 2)).sum

/-- A map has finitely many yield levels. -/
abbrev FiniteLevels (map : YieldLevelDemandMap) : Prop := {level | map level ≠ none}.Finite

theorem support_entryDemand (map : YieldLevelDemandMap) :
    (Function.support fun level => entryDemand (map level)) ⊆ {level | map level ≠ none} := by
  intro level hlevel hnone
  simp [hnone, entryDemand, entryMean, entryVariance] at hlevel

theorem levelsDemand_eq {map : YieldLevelDemandMap} (hfinite : FiniteLevels map) :
    levelsDemand map = total entryDemand map := by
  have hentry : ∀ level ∈ demandLevels map, (((map level).map Prod.fst).getD 0, ((map level).map Prod.snd).getD 0 ^ 2) =
      entryDemand (map level) := by
    intro level _
    cases h : map level <;> simp [entryDemand, entryMean, entryVariance]
  calc levelsDemand map
      = ((demandLevels map).map fun level => entryDemand (map level)).sum := by
        rw [levelsDemand, yieldLevels, List.map_map]
        exact congrArg List.sum (List.map_congr_left hentry)
    _ = ∑ level ∈ hfinite.toFinset, entryDemand (map level) := by
        rw [demandLevels, dif_pos hfinite, ← List.sum_toFinset _ (Finset.sort_nodup _ _), Finset.sort_toFinset]
    _ = total entryDemand map :=
      (finsum_eq_sum_of_support_subset_of_finite _ (support_entryDemand map) hfinite).symm

theorem levelsDemand_empty : levelsDemand (fun _ => none) = 0 := by simp [levelsDemand, yieldLevels, demandLevels]

theorem addToEntryOf_adds : Adds entryDemand (fun entry (demand : ℝ × ℝ) => some (addToEntryOf entry demand.1 demand.2))
    fun demand => (demand.1, demand.2 ^ 2) := by
  rintro entry ⟨mean, stdDev⟩
  cases entry with
  | none => simp [entryDemand, entryMean, entryVariance, addToEntryOf]
  | some held =>
    have hsquare : √(held.2 * held.2 + stdDev * stdDev) ^ 2 = held.2 ^ 2 + stdDev ^ 2 := by
      rw [Real.sq_sqrt (add_nonneg (mul_self_nonneg _) (mul_self_nonneg _)), sq, sq]
    simp [entryDemand, entryMean, entryVariance, addToEntryOf, hsquare]

variable [DecidableEq L] {addDemandInformation : AddDemandInformation} {yieldLevel : ℝ → ℤ}
  {maps out : L → YieldLevelDemandMap}

/-- The calls for a leg-cabin, as deposits at yield levels. -/
def depositsAt (yieldLevel : ℝ → ℤ) (calls : List (DemandCall L)) (leg : L) : List (ℤ × ℝ × ℝ) :=
  (calls.filter fun call => call.legCabin = leg).map fun call => (yieldLevel call.yield, call.mean, call.stdDev)

theorem addDemands_deposits (hadd : AddsDemand addDemandInformation yieldLevel) (calls : List (DemandCall L))
    (leg : L) : addDemands addDemandInformation calls maps leg = (depositsAt yieldLevel calls leg).foldl
      (deposit fun entry (demand : ℝ × ℝ) => some (addToEntryOf entry demand.1 demand.2)) (maps leg) := by
  rw [addDemands_leg, hadd.eq, addCalls, depositsAt, List.foldl_map]
  rfl

/-- The demand of the due paths on a leg-cabin: the means, and the squares of the deviations. -/
def dueDemandOf (lDCPList : List DTD) (lDate : Date) (iInventory : Inventory γ L) (leg : L) : ℝ × ℝ :=
  (((dueShares lDCPList lDate iInventory).filter fun share => share.1 = leg).map fun share =>
    (share.2.1, share.2.2 ^ 2)).sum

/-- Calls add their demand to the one that a leg-cabin holds, and leave it finitely many yield levels. -/
theorem addDemands_demand (hadd : AddsDemand addDemandInformation yieldLevel) {calls : List (DemandCall L)}
    (hcalls : calls.map DemandCall.demand = dueShares lDCPList lDate iInventory) {leg : L}
    (hfinite : FiniteLevels (maps leg)) :
    FiniteLevels (addDemands addDemandInformation calls maps leg) ∧
      levelsDemand (addDemands addDemandInformation calls maps leg) =
        levelsDemand (maps leg) + dueDemandOf lDCPList lDate iInventory leg := by
  have hlevels : FiniteLevels (addDemands addDemandInformation calls maps leg) := by
    refine (hfinite.union ((depositsAt yieldLevel calls leg).map Prod.fst).finite_toSet).subset fun level hlevel => ?_
    by_cases hmem : level ∈ (depositsAt yieldLevel calls leg).map Prod.fst
    · exact .inr hmem
    · refine .inl ?_
      rwa [Set.mem_ofPred_eq, addDemands_deposits hadd, deposits_of_notMem hmem] at hlevel
  refine ⟨hlevels, ?_⟩
  have hheld : FinitelyMany entryDemand (maps leg) := hfinite.subset (support_entryDemand _)
  have hshares : ((depositsAt yieldLevel calls leg).map fun e => (e.2.1, e.2.2 ^ 2)).sum =
      dueDemandOf lDCPList lDate iInventory leg := by
    rw [dueDemandOf, ← hcalls, depositsAt, List.filter_map, List.map_map, List.map_map]
    rfl
  rw [levelsDemand_eq hlevels, levelsDemand_eq hfinite, addDemands_deposits hadd,
    total_deposits addToEntryOf_adds hheld, hshares]

/-- **Every technique gives a leg-cabin the same demand**: the demand of the due paths that its airline operates on it,
added to the demand that it holds. -/
theorem projectOnDDemand_demand (hadd : AddsDemand addDemandInformation yieldLevel)
    (h : projectOnDDemand env technique lDCPList lDate addDemandInformation iInventory maps = .ok out)
    (hfinite : ∀ leg, FiniteLevels (maps leg)) (leg : L) :
    FiniteLevels (out leg) ∧
      levelsDemand (out leg) = levelsDemand (maps leg) + dueDemandOf lDCPList lDate iInventory leg := by
  obtain ⟨calls, hcalls, hout⟩ := bind_eq_ok.1 h
  obtain rfl := Except.ok.inj hout
  exact addDemands_demand hadd (dueCalls_demand hcalls) (hfinite leg)

end demand

noncomputable def connectingEnv : TechniqueEnv Unit ℕ := ⟨fun _ _ => some 1, fun _ => 1⟩

theorem connecting_projected (technique : Technique) : ∃ out,
    projectOnDDemand connectingEnv technique [7, 0] 0 (addAtLevel round) connectingInventory (fun _ _ => none) =
      .ok out := by
  cases technique <;> exact ⟨_, rfl⟩

theorem projectOnDDemand_demand_connecting : ∃ out out',
    projectOnDDemand connectingEnv .aggregated [7, 0] 0 (addAtLevel round) connectingInventory (fun _ _ => none) = .ok out ∧
    projectOnDDemand connectingEnv .DA [7, 0] 0 (addAtLevel round) connectingInventory (fun _ _ => none) = .ok out' ∧
    levelsDemand (out 1) = levelsDemand (out' 1) := by
  have hnone : ∀ leg : ℕ, FiniteLevels ((fun _ _ => none : ℕ → YieldLevelDemandMap) leg) :=
    fun _ => Set.finite_empty.subset fun _ h => h rfl
  obtain ⟨out, hout⟩ := connecting_projected .aggregated
  obtain ⟨out', hout'⟩ := connecting_projected .DA
  refine ⟨out, out', hout, hout', ?_⟩
  have hadd := addAtLevel_addsDemand round
  rw [(projectOnDDemand_demand hadd hout hnone 1).2, (projectOnDDemand_demand hadd hout' hnone 1).2]

/-! ## Which paths pay their bid prices -/

section cover
variable {env : TechniqueEnv γ L} {bidPrice : L → ℝ} {lOnDDate : OnDDate γ L} {lDemand : PathDemand γ}
  {calls : List (DemandCall L)}

theorem share_covers_iff {price total yield : ℝ} (hprice : 0 < price) (htotal : 0 < total) :
    price ≤ price / total * yield ↔ total ≤ yield := by
  rw [div_mul_eq_mul_div, le_div_iff₀ htotal, mul_le_mul_iff_right₀ hprice]

/-- Under dynamic proration. -/
theorem proratedDemands_cover_iff {call : DemandCall L} (hcall : call ∈ proratedDemands bidPrice lOnDDate lDemand)
    (hprice : 0 < bidPrice call.legCabin) (htotal : 0 < pathBidPrice bidPrice lOnDDate lDemand) :
    bidPrice call.legCabin ≤ call.yield ↔ pathBidPrice bidPrice lOnDDate lDemand ≤ lDemand.yield := by
  obtain ⟨segment, -, hleg⟩ := List.mem_flatMap.1 hcall
  obtain ⟨leg, -, rfl⟩ := List.mem_map.1 hleg
  exact share_covers_iff hprice htotal

/-- Under displacement adjustment, for the bid price of the segment: a price up to 100 is always covered. -/
theorem pathDemandsDA_cover_iff (h : pathDemandsDA env lOnDDate lDemand = .ok calls) {call : DemandCall L}
    (hcall : call ∈ calls) : ∃ segment ∈ pathSegments lOnDDate lDemand, call.legCabin ∈ operatedLegCabins segment ∧
      (((pricedLegCabins segment).map env.bidPrice).sum ≤ call.yield ↔
        pathBidPrice env.bidPrice lOnDDate lDemand ≤ lDemand.yield ∨
          ((pricedLegCabins segment).map env.bidPrice).sum ≤ ((100 : ℕ) : ℝ)) := by
  rw [pathDemandsDA_eq h] at hcall
  obtain ⟨segment, hsegment, hin⟩ := List.mem_flatMap.1 hcall
  obtain ⟨leg, hleg, rfl⟩ := List.mem_map.1 hin
  refine ⟨segment, hsegment, hleg, ?_⟩
  rw [displacementAdjustedYield, le_max_iff, or_comm]
  refine or_congr_left ?_
  constructor <;> intro h <;> linarith

end cover

section partners
variable {α κ : Type} [DecidableEq α] [DecidableEq κ] {env : NetEnv α κ} {lDate : Date}
  {inventories : List (NetInventory α κ γ)} {state out : NetState α κ} {airlines : Finset α}
  {itinerary : List (OperatedSegment α γ (LegCabinKey α κ))}

omit [DecidableEq κ] in
/-- The leg-cabins of an itinerary that an airline operates are flown in it. -/
theorem HoldsItinerary.flown {airline : α} {lOnDDate : OnDDate γ (NetLegCabin α κ)} {lDemand : PathDemand γ}
    (h : HoldsItinerary airline itinerary lOnDDate lDemand) {segment : OnDSegment γ (NetLegCabin α κ) × γ}
    (hsegment : segment ∈ pathSegments lOnDDate lDemand) {leg : NetLegCabin α κ} (hleg : leg ∈ operatedLegCabins segment) :
    ∃ flown ∈ itinerary, ∃ key ∈ flown.legCabins, leg = .operated key := by
  obtain ⟨-, -, hall⟩ := h
  generalize pathSegments lOnDDate lDemand = segments at hall hsegment
  induction hall with
  | nil => simp at hsegment
  | @cons flown first _ _ hfirst _ ih =>
    rcases List.mem_cons.1 hsegment with rfl | hlater
    · obtain ⟨hcabin, hholds⟩ := hfirst
      by_cases hown : flown.operator = airline
      · rw [if_pos hown] at hholds
        simp only [operatedLegCabins, hholds.1, hcabin, hholds.2, Option.getD_some] at hleg
        obtain ⟨key, hkey, rfl⟩ := List.mem_map.1 hleg
        exact ⟨flown, List.mem_cons_self, key, hkey, rfl⟩
      · rw [if_neg hown] at hholds
        obtain ⟨operating, hoperating, -⟩ := hholds
        simp [operatedLegCabins, hoperating] at hleg
    · obtain ⟨flown', hflown, hkey⟩ := ih hlater
      exact ⟨flown', List.mem_cons_of_mem _ hflown, hkey⟩

omit [DecidableEq α] [DecidableEq κ] in
theorem itineraryBidPrice_pos {bidPrice : NetLegCabin α κ → ℝ}
    (hpositive : ∀ flown ∈ itinerary, ∀ key ∈ flown.legCabins, 0 < bidPrice (.operated key))
    {flown : OperatedSegment α γ (LegCabinKey α κ)} (hflown : flown ∈ itinerary) {key : LegCabinKey α κ}
    (hkey : key ∈ flown.legCabins) : 0 < itineraryBidPrice bidPrice (itinerary.map flownSegment) := by
  have hflat : itineraryBidPrice bidPrice (itinerary.map flownSegment) =
      (itinerary.flatMap fun flown => flown.legCabins.map fun key => bidPrice (.operated key)).sum := by
    rw [itineraryBidPrice, List.flatMap_def, List.sum_flatten, List.map_map, List.map_map]
    simp [flownSegment, Function.comp_def]
  rw [hflat]
  refine List.sum_pos _ (fun price hprice => ?_) (List.ne_nil_of_mem
    (List.mem_flatMap.2 ⟨flown, hflown, List.mem_map_of_mem hkey⟩))
  obtain ⟨flown', hflown', hprice⟩ := List.mem_flatMap.1 hprice
  obtain ⟨key', hkey', rfl⟩ := List.mem_map.1 hprice
  exact hpositive flown' hflown' key' hkey'

/-- **Partners accept alike**: at the bid prices that advanced RM cooperation ends with, the leg-cabins of all airlines
of an itinerary get at least their bid prices if its yield is the total bid price or more, and less otherwise. -/
theorem advancedCooperation_acceptsAlike {onD : α → OnDDate γ (NetLegCabin α κ)} {demand : α → PathDemand γ} {lYield : ℝ}
    (hupdate : env.UpdatesFromVector)
    (h : optimiseOnDUsingAdvancedRMCooperation env lDate inventories state = .ok (⟨⟩, out))
    (hholds : ∀ airline ∈ airlines, HoldsItinerary airline itinerary (onD airline) (demand airline) ∧
      (demand airline).yield = lYield)
    (hsent : ∀ airline ∈ airlines, ∀ flown ∈ itinerary, flown.operator ≠ airline → ∀ key ∈ flown.legCabins,
      ∃ inventory ∈ inventories, ⟨airline, key⟩ ∈ sentImages env lDate inventory)
    (hpositive : ∀ flown ∈ itinerary, ∀ key ∈ flown.legCabins, 0 < bidPriceOf out (.operated key)) :
    ∀ airline ∈ airlines, ∀ call ∈ proratedDemands (bidPriceOf out) (onD airline) (demand airline),
      bidPriceOf out call.legCabin ≤ call.yield ↔
        itineraryBidPrice (bidPriceOf out) (itinerary.map flownSegment) ≤ lYield := by
  intro airline hairline call hcall
  obtain ⟨hitinerary, hyield⟩ := hholds airline hairline
  have hprices := advancedCooperation_samePrices hupdate h hitinerary (hsent airline hairline)
  have htotal : pathBidPrice (bidPriceOf out) (onD airline) (demand airline) =
      itineraryBidPrice (bidPriceOf out) (itinerary.map flownSegment) :=
    (totalBidPrice_eq (totalBidPrice_ok hprices)).symm
  obtain ⟨segment, hsegment, hin⟩ := List.mem_flatMap.1 hcall
  obtain ⟨leg, hleg, rfl⟩ := List.mem_map.1 hin
  obtain ⟨flown, hflown, key, hkey, rfl⟩ := hitinerary.flown hsegment hleg
  rw [← htotal, ← hyield]
  refine proratedDemands_cover_iff hcall (hpositive flown hflown key hkey) ?_
  rw [htotal]
  exact itineraryBidPrice_pos hpositive hflown hkey

theorem advancedCooperation_acceptsAlike_alliance :
    ∃ out, optimiseOnDUsingAdvancedRMCooperation oneSeatEnv 0 alliance (fun _ => oneLevel) = .ok (⟨⟩, out) ∧
      ∀ airline ∈ ({0, 1} : Finset ℕ), ∀ call ∈ proratedDemands (bidPriceOf out) (allianceOnDDate airline)
        ⟨[(), ()], 1, 1, 0⟩, call.yield < bidPriceOf out call.legCabin := by
  obtain ⟨out, hrun, hprices⟩ := advancedCooperation_alliance
  have hpositive : ∀ flown ∈ allianceItinerary, ∀ key ∈ flown.legCabins, 0 < bidPriceOf out (.operated key) := by
    simp [allianceItinerary, hprices]
  have htotal : itineraryBidPrice (bidPriceOf out) (allianceItinerary.map flownSegment) = 1 + 1 := by
    simp [itineraryBidPrice, allianceItinerary, flownSegment, hprices]
  refine ⟨out, hrun, fun airline hairline call hcall => ?_⟩
  have haccepts := advancedCooperation_acceptsAlike oneSeatEnv_updates hrun alliance_holds alliance_sent hpositive
    airline hairline call hcall
  rw [← not_le, haccepts, htotal]
  norm_num

end partners

end Rmol
