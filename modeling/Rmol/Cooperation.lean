import Rmol.RMNetwork
/-!
# RM cooperation within each airline (`RMOL_Service.cpp:1990-2047`)

"Browse the list of inventories and optimise within each one independently": the passes on an inventory write the
leg-cabins that its airline operates and read, besides these, the images that it holds. So every inventory ends as if
it were the only one, in whatever order they come, and no image changes (`rmCooperation_independent`).

When the passes on an inventory are over, the demand maps of its due leg-cabins hold the demand projected at the bid
prices that it ends with, and nothing of the passes before; fewer than ten passes mean that no due bid price moved by
more than a hundredth in the last one (`cooperate_settles`).
-/

namespace Rmol

open Locality Runs

variable {α κ γ : Type}

/-! ## What the projection reads -/

section reads
variable {L : Type} {bidPrice bidPrice' : L → ℝ} {lOnDDate : OnDDate γ L} {lDemand : PathDemand γ}

/-- The leg-cabins whose bid prices a path reads. -/
def pathLegCabins (lOnDDate : OnDDate γ L) (lDemand : PathDemand γ) : List L :=
  (pathSegments lOnDDate lDemand).flatMap fun segment => pricedLegCabins segment ++ operatedLegCabins segment

/-- A leg-cabin that is operated belongs to a segment-date of the airline. -/
theorem mem_operatedLegCabins {segment : OnDSegment γ L × γ} {leg : L} (h : leg ∈ operatedLegCabins segment) :
    segment.1.getOperatingSegmentDate = none ∧ ∃ legs ∈ segment.1.own.legCabins segment.2, leg ∈ legs := by
  unfold operatedLegCabins at h
  cases hown : segment.1.getOperatingSegmentDate with
  | some operating => simp [hown] at h
  | none =>
    rw [hown] at h
    cases hlegs : segment.1.own.legCabins segment.2 with
    | none => simp [hlegs] at h
    | some legs => exact ⟨rfl, legs, rfl, by simpa [hlegs] using h⟩

/-- A leg-cabin that is priced or operated belongs to the operating segment-date. -/
theorem mem_pathLegCabins {leg : L} (h : leg ∈ pathLegCabins lOnDDate lDemand) :
    ∃ segment ∈ pathSegments lOnDDate lDemand,
      ∃ legs ∈ (segment.1.getOperatingSegmentDate.getD segment.1.own).legCabins segment.2, leg ∈ legs := by
  obtain ⟨segment, hsegment, hleg⟩ := List.mem_flatMap.1 h
  refine ⟨segment, hsegment, ?_⟩
  rcases List.mem_append.1 hleg with hpriced | hoperated
  · unfold pricedLegCabins at hpriced
    cases hlegs : (segment.1.getOperatingSegmentDate.getD segment.1.own).legCabins segment.2 with
    | none => simp [hlegs] at hpriced
    | some legs => exact ⟨legs, rfl, by simpa [hlegs] using hpriced⟩
  · obtain ⟨hown, hlegs⟩ := mem_operatedLegCabins hoperated
    rwa [hown]

theorem addBidPrices_congr {segment : OnDSegment γ L × γ} (h : ∀ leg ∈ pricedLegCabins segment, bidPrice leg = bidPrice' leg)
    (total : ℝ) : addBidPrices bidPrice total segment = addBidPrices bidPrice' total segment := by
  unfold addBidPrices
  unfold pricedLegCabins at h
  cases hlegs : (segment.1.getOperatingSegmentDate.getD segment.1.own).legCabins segment.2 with
  | none => simp only [hlegs]
  | some legs =>
    rw [hlegs, Option.getD_some] at h
    simp only [hlegs, List.map_congr_left h]

theorem segmentDemands_congr {segment : OnDSegment γ L × γ} {lYield lYield' : List L → L → ℝ}
    (h : ∀ leg ∈ operatedLegCabins segment,
      lYield (operatedLegCabins segment) leg = lYield' (operatedLegCabins segment) leg) :
    segmentDemands lDemand lYield segment = segmentDemands lDemand lYield' segment := by
  unfold segmentDemands
  unfold operatedLegCabins at h
  cases hown : segment.1.getOperatingSegmentDate with
  | some operating => rfl
  | none =>
    rw [hown] at h
    cases hlegs : segment.1.own.legCabins segment.2 with
    | none => rfl
    | some legs =>
      rw [hlegs] at h
      cases legs with
      | nil => rfl
      | cons leg legs =>
        refine congrArg Except.ok (List.map_congr_left fun l hl => ?_)
        have hyield : lYield (leg :: legs) l = lYield' (leg :: legs) l := h l hl
        rw [hyield]

theorem pathDemandsDYP_congr (h : ∀ leg ∈ pathLegCabins lOnDDate lDemand, bidPrice leg = bidPrice' leg) :
    pathDemandsDYP bidPrice lOnDDate lDemand = pathDemandsDYP bidPrice' lOnDDate lDemand := by
  have hpriced : ∀ segment ∈ pathSegments lOnDDate lDemand, ∀ leg ∈ pricedLegCabins segment,
      bidPrice leg = bidPrice' leg := fun segment hsegment leg hleg =>
    h leg (List.mem_flatMap.2 ⟨segment, hsegment, List.mem_append_left _ hleg⟩)
  have hoperated : ∀ segment ∈ pathSegments lOnDDate lDemand, ∀ leg ∈ operatedLegCabins segment,
      bidPrice leg = bidPrice' leg := fun segment hsegment leg hleg =>
    h leg (List.mem_flatMap.2 ⟨segment, hsegment, List.mem_append_right _ hleg⟩)
  have htotal : totalBidPrice bidPrice lOnDDate lDemand = totalBidPrice bidPrice' lOnDDate lDemand :=
    foldlM_congr fun segment hsegment total => addBidPrices_congr (hpriced segment hsegment) total
  have hdemands : ∀ total : ℝ,
      operatedDemands lOnDDate lDemand (fun _ leg => bidPrice leg / total * lDemand.yield) =
        operatedDemands lOnDDate lDemand (fun _ leg => bidPrice' leg / total * lDemand.yield) := by
    intro total
    unfold operatedDemands
    rw [mapM_congr (g := segmentDemands lDemand fun _ leg => bidPrice' leg / total * lDemand.yield)
      fun segment hsegment => segmentDemands_congr fun leg hleg => by rw [hoperated segment hsegment leg hleg]]
  unfold pathDemandsDYP
  rw [htotal]
  split
  · exact bind_congr fun total => hdemands total
  · rfl

/-- The calls of a projection only depend on the bid prices of the leg-cabins that it reads. -/
theorem projectedDemands_congr {lDCPList : List DTD} {lDate : Date} {iInventory : Inventory γ L}
    (h : ∀ lOnDDate ∈ iInventory.onDDates, ∀ lDemand ∈ lOnDDate.demandInfoMap,
      ∀ leg ∈ pathLegCabins lOnDDate lDemand, bidPrice leg = bidPrice' leg) :
    projectedDemands (pathDemandsDYP bidPrice) lDCPList lDate iInventory =
      projectedDemands (pathDemandsDYP bidPrice') lDCPList lDate iInventory := by
  unfold projectedDemands
  cases hdates : iInventory.onDDates with
  | nil => rfl
  | cons lFirst lOnDDateList =>
    simp only
    rw [mapM_congr fun lOnDDate hmem => ?_]
    have hin : lOnDDate ∈ iInventory.onDDates := hdates ▸ List.mem_of_mem_filter hmem
    rw [mapM_congr fun lDemand hdemand => pathDemandsDYP_congr (h lOnDDate hin lDemand hdemand)]

/-- A demand goes to a leg-cabin that the airline operates. -/
theorem mem_dueDemands {lDCPList : List DTD} {lDate : Date} {iInventory : Inventory γ L} {call : DemandCall L}
    (h : call ∈ dueDemands bidPrice lDCPList lDate iInventory) :
    ∃ lOnDDate ∈ iInventory.onDDates, ∃ segment ∈ lOnDDate.segments, ∃ cabin,
      ∃ legs ∈ segment.own.legCabins cabin, call.legCabin ∈ legs := by
  simp only [dueDemands, proratedDemands, List.mem_flatMap, List.mem_filter, List.mem_map] at h
  obtain ⟨lOnDDate, ⟨hmem, -⟩, lDemand, -, segment, hsegment, leg, hleg, rfl⟩ := h
  exact ⟨lOnDDate, hmem, segment.1, (List.of_mem_zip hsegment).1, segment.2, (mem_operatedLegCabins hleg).2⟩

end reads

/-! ## The cells of a command -/

section locality
variable [DecidableEq α] [DecidableEq κ] {env : NetEnv α κ} {lDate : Date} {inventory : NetInventory α κ γ}

theorem optimiseNetLegCabin_local (key : LegCabinKey α κ) :
    Local {NetLegCabin.operated key} ∅ (optimiseNetLegCabin env key) where
  frame := by
    intro state lBPVariation out h leg hleg
    obtain ⟨lLC, -, rfl⟩ := optimiseNetLegCabin_ok.1 h
    exact Function.update_of_ne hleg _ _
  determined := by
    intro state state' lBPVariation out hagree h
    have hkey : state (.operated key) = state' (.operated key) := hagree _ (.inl rfl)
    obtain ⟨lLC, hstep, rfl⟩ := optimiseNetLegCabin_ok.1 h
    rw [hkey] at hstep
    refine ⟨_, optimiseNetLegCabin_ok.2 ⟨lLC, hstep, rfl⟩, ?_⟩
    rintro leg rfl
    rw [Function.update_self, Function.update_self, demandMaps, demandMaps, hkey]

theorem optimiseUsingOnDForecast_local (lFlightDate : NetFlightDate α κ) :
    Local (ownCells lFlightDate.airlineCode) ∅ (optimiseUsingOnDForecast env lFlightDate) := by
  refine Local.fold (fun key hkey lMaxBPVariation => ?_) 0
  refine Local.seq ?_ fun lBPVariation => Local.value _
  refine (optimiseNetLegCabin_local key).mono ?_ (Set.empty_subset _)
  rintro leg rfl
  exact ⟨key, rfl, lFlightDate.airline_of_mem_keys hkey⟩

theorem optimiseFlightDates_local (lMaxBPVariation : ℝ) :
    Local (ownCells inventory.airlineCode) ∅ (optimiseFlightDates env lDate lMaxBPVariation inventory) := by
  refine Local.fold (fun lFlightDate hdue lMaxBPVariation => ?_) _
  have hown := inventory.flightDates_own lFlightDate (List.mem_of_mem_filter hdue)
  exact (hown ▸ optimiseUsingOnDForecast_local lFlightDate).seq fun _ => Local.value _

omit [DecidableEq α] [DecidableEq κ] in
/-- A command on the maps is local where it is one on the maps of its cells. -/
theorem onMaps_local {W R : Set (NetLegCabin α κ)} {command : NetState α κ → (NetLegCabin α κ → YieldLevelDemandMap) →
      Except ProjectionFault (NetLegCabin α κ → YieldLevelDemandMap)}
    (hframe : ∀ {state maps out}, command state maps = .ok out → Agree Wᶜ out maps)
    (hdetermined : ∀ {state state' : NetState α κ} {maps maps' out}, Agree (W ∪ R) state state' → Agree W maps maps' →
      command state maps = .ok out → ∃ out', command state' maps' = .ok out' ∧ Agree W out' out) :
    Local W R (onMaps command) where
  frame := by
    intro state u out h leg hleg
    obtain ⟨maps, hmaps, rfl⟩ := onMaps_ok.1 h
    rw [withDemandMaps, hframe hmaps leg hleg, demandMaps]
  determined := by
    intro state state' u out hagree h
    obtain ⟨maps, hmaps, rfl⟩ := onMaps_ok.1 h
    have hW : Agree W (demandMaps state) (demandMaps state') := fun leg hleg => by
      rw [demandMaps, demandMaps, hagree leg (.inl hleg)]
    obtain ⟨maps', hmaps', hout⟩ := hdetermined hagree hW hmaps
    refine ⟨_, onMaps_ok.2 ⟨maps', hmaps', rfl⟩, fun leg hleg => ?_⟩
    rw [withDemandMaps, withDemandMaps, hout leg hleg, hagree leg (.inl hleg)]

omit [DecidableEq α] [DecidableEq κ] in
theorem dueLegDates_own {leg : NetLegCabin α κ}
    (h : leg ∈ (dueLegDates env.lDCPList lDate inventory.toInventory).flatten) :
    leg ∈ ownCells inventory.airlineCode := by
  obtain ⟨lFlightDate, hdue, key, hkey, rfl⟩ := mem_dueLegDates.1 h
  refine ⟨key, rfl, ?_⟩
  rw [lFlightDate.airline_of_mem_keys hkey]
  exact inventory.flightDates_own lFlightDate (List.mem_of_mem_filter hdue)

theorem resetDemandInformationOf_local :
    Local (ownCells inventory.airlineCode) ∅ (resetDemandInformationOf env lDate inventory) := by
  refine onMaps_local (fun hreset leg hleg => ?_) (fun hagree hmaps hreset => ?_)
  · rw [resetDemandInformation_apply hreset, if_neg fun hdue => hleg (dueLegDates_own hdue)]
  · obtain ⟨out', hout'⟩ := resetDemandInformation_total hreset _
    refine ⟨out', hout', fun leg hleg => ?_⟩
    rw [resetDemandInformation_apply hout', resetDemandInformation_apply hreset, hmaps leg hleg]

omit [DecidableEq α] [DecidableEq κ] in
theorem dueDemands_own {bidPrice : NetLegCabin α κ → ℝ} {call : DemandCall (NetLegCabin α κ)}
    (h : call ∈ dueDemands bidPrice env.lDCPList lDate inventory.toInventory) :
    call.legCabin ∈ ownCells inventory.airlineCode := by
  obtain ⟨lOnDDate, hmem, segment, hsegment, cabin, legs, hlegs, hleg⟩ := mem_dueDemands h
  exact inventory.segments_own lOnDDate hmem segment hsegment cabin legs hlegs _ hleg

omit [DecidableEq α] [DecidableEq κ] in
/-- The bid prices that an inventory reads are those of its own leg-cabins and of its images. -/
theorem pathLegCabins_cells (himages : inventory.ReadsItsImages) {lOnDDate : OnDDate γ (NetLegCabin α κ)}
    (hmem : lOnDDate ∈ inventory.onDDates) {lDemand : PathDemand γ} {leg : NetLegCabin α κ}
    (hleg : leg ∈ pathLegCabins lOnDDate lDemand) :
    leg ∈ ownCells inventory.airlineCode ∪ heldImages inventory.airlineCode := by
  obtain ⟨segment, hsegment, legs, hlegs, hin⟩ := mem_pathLegCabins hleg
  have hsegments : segment.1 ∈ lOnDDate.segments := (List.of_mem_zip hsegment).1
  cases hown : segment.1.getOperatingSegmentDate with
  | none =>
    rw [hown] at hlegs
    exact .inl (inventory.segments_own lOnDDate hmem segment.1 hsegments segment.2 legs hlegs leg hin)
  | some operating =>
    rw [hown] at hlegs
    exact himages lOnDDate hmem segment.1 hsegments operating hown segment.2 legs hlegs leg hin

theorem projectUsingDYP_local (himages : inventory.ReadsItsImages) :
    Local (ownCells inventory.airlineCode) (heldImages inventory.airlineCode)
      (projectUsingDYP env lDate inventory) := by
  refine onMaps_local ?frame ?determined
  case frame =>
    intro state maps out hproject leg hleg
    obtain ⟨calls, hcalls, hout⟩ := bind_eq_ok.1 hproject
    obtain rfl := Except.ok.inj hout
    rw [projectedDemands_eq hcalls, addDemands_leg, callsOn_eq_nil]
    · rfl
    · rintro call hcall rfl
      exact hleg (dueDemands_own hcall)
  case determined =>
    intro state state' maps maps' out hagree hmaps hproject
    obtain ⟨calls, hcalls, hout⟩ := bind_eq_ok.1 hproject
    obtain rfl := Except.ok.inj hout
    have hprices : ∀ lOnDDate ∈ inventory.onDDates, ∀ lDemand ∈ lOnDDate.demandInfoMap,
        ∀ leg ∈ pathLegCabins lOnDDate lDemand, bidPriceOf state leg = bidPriceOf state' leg := by
      intro lOnDDate hmem lDemand _ leg hleg
      exact congrArg (·.bidPrices.current) (hagree leg (pathLegCabins_cells himages hmem hleg))
    rw [projectedDemands_congr hprices] at hcalls
    refine ⟨_, bind_eq_ok.2 ⟨calls, hcalls, rfl⟩, fun leg hleg => ?_⟩
    rw [addDemands_leg, addDemands_leg, hmaps leg hleg]

theorem cooperationPass_local (himages : inventory.ReadsItsImages) :
    Local (ownCells inventory.airlineCode) (heldImages inventory.airlineCode)
      (cooperationPass env lDate inventory) := by
  refine Local.seq ((optimiseFlightDates_local 0).mono subset_rfl (Set.empty_subset _)) fun lMaxBPVariation => ?_
  refine Local.seq (resetDemandInformationOf_local.mono subset_rfl (Set.empty_subset _)) fun _ => ?_
  exact (projectUsingDYP_local himages).seq fun _ => Local.value _

theorem cooperate_local (himages : inventory.ReadsItsImages) :
    Local (ownCells inventory.airlineCode) (heldImages inventory.airlineCode) (cooperate env lDate inventory) :=
  (cooperationPass_local himages).loop 10 1

end locality

/-! ## Each airline by itself -/

section independence
variable [DecidableEq α] [DecidableEq κ] {env : NetEnv α κ} {lDate : Date} {inventories : List (NetInventory α κ γ)}

omit [DecidableEq α] [DecidableEq κ] in
theorem notMem_of_mem_ownCells {airline airline' : α} (h : airline ≠ airline') :
    ∀ leg ∈ (ownCells airline : Set (NetLegCabin α κ)), leg ∉ ownCells airline' ∪ heldImages airline' := by
  rintro leg ⟨key, rfl, rfl⟩ (⟨key', hkey, rfl⟩ | ⟨key', hkey, -⟩)
  · exact h (congrArg LegCabinKey.airline (NetLegCabin.operated.inj hkey))
  · cases hkey

theorem cooperate_independent (hcodes : (inventories.map NetInventory.airlineCode).Nodup)
    (himages : ∀ inventory ∈ inventories, inventory.ReadsItsImages) :
    Independent (fun inventory => ownCells inventory.airlineCode) (fun inventory => heldImages inventory.airlineCode)
      (fun inventory => do let _ ← cooperate env lDate inventory) inventories where
  nodup := hcodes.of_map _
  locality inventory hmem := (cooperate_local (himages inventory hmem)).seq fun _ => Local.value _
  apart _ hp _ hq hne := notMem_of_mem_ownCells fun hcode => hne (List.inj_on_of_nodup_map hcodes hp hq hcode)

/-- What the passes leave for an inventory, and its leg-cabins and images determine, holds for every inventory. -/
theorem rmCooperation_each {Q : NetInventory α κ γ → NetState α κ → Prop} {state out : NetState α κ}
    (hcodes : (inventories.map NetInventory.airlineCode).Nodup)
    (himages : ∀ inventory ∈ inventories, inventory.ReadsItsImages)
    (hdone : ∀ inventory v s t, cooperate env lDate inventory s = .ok (v, t) → Q inventory t)
    (hagree : ∀ inventory ∈ inventories, ∀ s t,
      Agree (ownCells inventory.airlineCode ∪ heldImages inventory.airlineCode) t s → Q inventory s → Q inventory t)
    (h : optimiseOnDUsingRMCooperation env lDate inventories state = .ok (⟨⟩, out)) :
    ∀ inventory ∈ inventories, Q inventory out := by
  refine forM_each (fun inventory _ s t hrun => ?_) (fun inventory hmem other hother s t hq hrun => ?_) h
  · obtain ⟨v, after, hcooperate, hend⟩ := bind_ok.1 hrun
    obtain ⟨-, rfl⟩ := pure_ok.1 hend
    exact hdone inventory v s t hcooperate
  · obtain ⟨v, after, hcooperate, hend⟩ := bind_ok.1 hrun
    obtain ⟨-, rfl⟩ := pure_ok.1 hend
    by_cases hcode : inventory.airlineCode = other.airlineCode
    · obtain rfl := List.inj_on_of_nodup_map hcodes hmem hother hcode
      exact hdone inventory v s t hcooperate
    · refine hagree inventory hmem s t ?_ hq
      have hframe := (cooperate_local (himages other hother)).frame hcooperate
      rintro leg (hown | ⟨key, rfl, -⟩)
      · exact hframe leg fun hin => notMem_of_mem_ownCells hcode leg hown (.inl hin)
      · exact hframe _ (by rintro ⟨_, h, -⟩; cases h)

/-- **RM cooperation optimises within each airline independently.** With airline codes that are all different, the
leg-cabins that an airline operates end as if its inventory were the only one, all others and the images stay as they
are, and the order of the inventories does not count. -/
theorem rmCooperation_independent (hcodes : (inventories.map NetInventory.airlineCode).Nodup)
    (himages : ∀ inventory ∈ inventories, inventory.ReadsItsImages) (state out : NetState α κ) :
    (optimiseOnDUsingRMCooperation env lDate inventories state = .ok (⟨⟩, out) ↔
      (∀ inventory ∈ inventories, ∃ lMaxBPVariation alone,
        cooperate env lDate inventory state = .ok (lMaxBPVariation, alone) ∧
          ∀ leg ∈ ownCells inventory.airlineCode, out leg = alone leg) ∧
      ∀ leg, (∀ inventory ∈ inventories, leg ∉ ownCells inventory.airlineCode) → out leg = state leg) ∧
    ∀ inventories', inventories.Perm inventories' →
      (optimiseOnDUsingRMCooperation env lDate inventories' state = .ok (⟨⟩, out) ↔
        optimiseOnDUsingRMCooperation env lDate inventories state = .ok (⟨⟩, out)) := by
  have hind : Independent _ _ (fun inventory => do let _ ← cooperate env lDate inventory) inventories :=
    cooperate_independent hcodes himages
  refine ⟨?_, fun inventories' hperm => (forM_perm hind hperm).symm⟩
  refine (forM_ok_iff hind).trans ⟨?_, ?_⟩
  · rintro ⟨halone, hothers⟩
    refine ⟨fun inventory hmem => ?_, hothers⟩
    obtain ⟨alone, hrun, hagree⟩ := halone inventory hmem
    obtain ⟨lMaxBPVariation, between, hcooperate, hend⟩ := bind_ok.1 hrun
    obtain ⟨-, rfl⟩ := pure_ok.1 hend
    exact ⟨lMaxBPVariation, alone, hcooperate, hagree⟩
  · rintro ⟨halone, hothers⟩
    refine ⟨fun inventory hmem => ?_, hothers⟩
    obtain ⟨lMaxBPVariation, alone, hcooperate, hagree⟩ := halone inventory hmem
    exact ⟨alone, bind_ok.2 ⟨lMaxBPVariation, alone, hcooperate, pure_ok.2 ⟨rfl, rfl⟩⟩, hagree⟩

end independence

/-! ## Where the passes end -/

section settled
variable [DecidableEq α] [DecidableEq κ] {env : NetEnv α κ} {lDate : Date} {inventory : NetInventory α κ γ}
  {state out : NetState α κ} {key : LegCabinKey α κ} {v w : ℝ}

/-- The previous bid price is not zero, and the variation is relative to it. -/
theorem optimiseNetLegCabin_prices (h : optimiseNetLegCabin env key state = .ok (w, out)) :
    (out (.operated key)).bidPrices.previous ≠ 0 ∧
      w = |((out (.operated key)).bidPrices.current - (out (.operated key)).bidPrices.previous) /
        (out (.operated key)).bidPrices.previous| := by
  obtain ⟨lLC, hstep, rfl⟩ := optimiseNetLegCabin_ok.1 h
  obtain ⟨lOut, -, hvariation⟩ := bind_eq_ok.1 hstep
  split at hvariation
  · cases hvariation
  · rename_i hprevious
    obtain ⟨rfl, rfl⟩ := Prod.mk.inj (Except.ok.inj hvariation)
    rw [Function.update_self]
    exact ⟨hprevious, rfl⟩

/-- The price before becomes the previous one, if StdAir's leg-cabins do so. -/
theorem optimiseNetLegCabin_previous (hupdate : ∀ lLC, env.updatePreviousBidPrice lLC = lLC.currentBidPrice)
    (h : optimiseNetLegCabin env key state = .ok (w, out)) :
    (out (.operated key)).bidPrices.previous = bidPriceOf state (.operated key) := by
  obtain ⟨lLC, hstep, rfl⟩ := optimiseNetLegCabin_ok.1 h
  obtain ⟨lOut, hrun, hvariation⟩ := bind_eq_ok.1 hstep
  split at hvariation
  · cases hvariation
  · obtain ⟨rfl, rfl⟩ := Prod.mk.inj (Except.ok.inj hvariation)
    obtain ⟨lPriced, -, -, rfl⟩ := optimisationByMCIntegration_ok_iff.1 hrun
    rw [Function.update_self]
    exact hupdate _

/-- A property of leg-cabins that an optimisation establishes with its variation, and with any larger one. -/
structure Establishes (env : NetEnv α κ) (Q : LegCabinKey α κ → ℝ → NetLegCabinState → Prop) : Prop where
  mono : ∀ {key v w lLC}, Q key v lLC → v ≤ w → Q key w lLC
  done : ∀ {key state w out}, optimiseNetLegCabin env key state = .ok (w, out) → Q key w (out (.operated key))

section establishes
variable {Q : LegCabinKey α κ → ℝ → NetLegCabinState → Prop} {ioFlightDate : NetFlightDate α κ}

theorem Establishes.legCabin_kept (hQ : Establishes env Q) {key' : LegCabinKey α κ}
    (hq : Q key v (state (.operated key))) (h : optimiseNetLegCabin env key' state = .ok (w, out)) :
    Q key (max v w) (out (.operated key)) := by
  by_cases hkey : key = key'
  · subst hkey
    exact hQ.mono (hQ.done h) (le_max_right v w)
  · obtain ⟨lLC, -, rfl⟩ := optimiseNetLegCabin_ok.1 h
    rw [Function.update_of_ne fun h => hkey (NetLegCabin.operated.inj h)]
    exact hQ.mono hq (le_max_left v w)

theorem Establishes.flightDate_done (hQ : Establishes env Q)
    (h : optimiseUsingOnDForecast env ioFlightDate state = .ok (v, out)) :
    ∀ key ∈ ioFlightDate.keys, Q key v (out (.operated key)) := by
  refine foldlM_each (Q := fun key v state => Q key v (state (.operated key))) ?_ ?_ h
  · intro key _ v s w t hstep
    obtain ⟨lBPVariation, s', hkey, hend⟩ := bind_ok.1 hstep
    obtain ⟨rfl, rfl⟩ := pure_ok.1 hend
    exact hQ.mono (hQ.done hkey) (le_max_right v lBPVariation)
  · intro key _ key' _ v s w t hq hstep
    obtain ⟨lBPVariation, s', hkey, hend⟩ := bind_ok.1 hstep
    obtain ⟨rfl, rfl⟩ := pure_ok.1 hend
    exact hQ.legCabin_kept hq hkey

theorem Establishes.flightDate_kept (hQ : Establishes env Q) (hq : Q key v (state (.operated key)))
    (h : optimiseUsingOnDForecast env ioFlightDate state = .ok (w, out)) : Q key (max v w) (out (.operated key)) := by
  refine foldlM_invariant (P := fun w state => Q key (max v w) (state (.operated key))) ?_
    (hQ.mono hq (le_max_left v 0)) h
  intro key' _ w s w' t hq hstep
  obtain ⟨lBPVariation, s', hkey, hend⟩ := bind_ok.1 hstep
  obtain ⟨rfl, rfl⟩ := pure_ok.1 hend
  rw [← max_assoc]
  exact hQ.legCabin_kept hq hkey

theorem Establishes.flightDates_done (hQ : Establishes env Q)
    (h : optimiseFlightDates env lDate v inventory state = .ok (w, out)) :
    ∀ lFlightDate ∈ dueFlightDates env lDate inventory, ∀ key ∈ lFlightDate.keys, Q key w (out (.operated key)) := by
  refine foldlM_each (Q := fun lFlightDate w state => ∀ key ∈ lFlightDate.keys, Q key w (state (.operated key)))
    ?_ ?_ h
  · intro lFlightDate _ v s w t hstep key hkey
    obtain ⟨lBPVariation, s', hflight, hend⟩ := bind_ok.1 hstep
    obtain ⟨rfl, rfl⟩ := pure_ok.1 hend
    exact hQ.mono (hQ.flightDate_done hflight key hkey) (le_max_right v lBPVariation)
  · intro lFlightDate _ lFlightDate' _ v s w t hq hstep key hkey
    obtain ⟨lBPVariation, s', hflight, hend⟩ := bind_ok.1 hstep
    obtain ⟨rfl, rfl⟩ := pure_ok.1 hend
    exact hQ.flightDate_kept (hq key hkey) hflight

theorem Establishes.flightDates_kept (hQ : Establishes env Q) (hq : Q key v (state (.operated key)))
    (h : optimiseFlightDates env lDate v inventory state = .ok (w, out)) : Q key w (out (.operated key)) := by
  refine foldlM_invariant (P := fun w state => Q key w (state (.operated key))) ?_ hq h
  intro lFlightDate _ v s w t hq hstep
  obtain ⟨lBPVariation, s', hflight, hend⟩ := bind_ok.1 hstep
  obtain ⟨rfl, rfl⟩ := pure_ok.1 hend
  exact hQ.flightDate_kept hq hflight

end establishes

/-- The bid price moved by `v` of the previous one at most. -/
def MovedBy (v : ℝ) (prices : BidPrices ℝ) : Prop := |prices.current - prices.previous| ≤ v * |prices.previous|

/-- The variation of a leg-cabin bounds the move of its bid price. -/
theorem establishes_movedBy : Establishes env fun _ v lLC => MovedBy v lLC.bidPrices where
  mono h hvw := h.trans (mul_le_mul_of_nonneg_right hvw (abs_nonneg _))
  done h := by
    obtain ⟨hne, rfl⟩ := optimiseNetLegCabin_prices h
    rw [MovedBy, abs_div, div_mul_cancel₀ _ (abs_pos.2 hne).ne']

omit [DecidableEq α] [DecidableEq κ] in
/-- A command on the maps changes no bid price. -/
theorem onMaps_bidPrices {command : NetState α κ → (NetLegCabin α κ → YieldLevelDemandMap) →
      Except ProjectionFault (NetLegCabin α κ → YieldLevelDemandMap)}
    (h : onMaps command state = .ok (⟨⟩, out)) (leg : NetLegCabin α κ) : (out leg).bidPrices = (state leg).bidPrices := by
  obtain ⟨maps, -, rfl⟩ := onMaps_ok.1 h
  rfl

/-- The demand map of the leg-cabin holds what the projection hands out at the bid prices of the state, and nothing
else. -/
def InSync (env : NetEnv α κ) (lDate : Date) (inventory : NetInventory α κ γ) (state : NetState α κ)
    (key : LegCabinKey α κ) : Prop :=
  demandMaps state (.operated key) = addCalls env.addDemandInformation (fun _ => none)
    (callsOn (dueDemands (bidPriceOf state) env.lDCPList lDate inventory.toInventory) (.operated key))

/-- A reset and a projection, in this order. -/
theorem resetThenProject_inSync {between : NetState α κ}
    (hreset : resetDemandInformationOf env lDate inventory state = .ok (⟨⟩, between))
    (hproject : projectUsingDYP env lDate inventory between = .ok (⟨⟩, out)) :
    ∀ lFlightDate ∈ dueFlightDates env lDate inventory, ∀ key ∈ lFlightDate.keys,
      InSync env lDate inventory out key := by
  intro lFlightDate hdue key hkey
  obtain ⟨emptied, hemptied, rfl⟩ := onMaps_ok.1 hreset
  obtain ⟨maps, hmaps, rfl⟩ := onMaps_ok.1 hproject
  obtain ⟨calls, hcalls, hout⟩ := bind_eq_ok.1 hmaps
  obtain rfl := Except.ok.inj hout
  have hprices : bidPriceOf (withDemandMaps (withDemandMaps state emptied) (addDemands env.addDemandInformation calls
      (demandMaps (withDemandMaps state emptied)))) = bidPriceOf (withDemandMaps state emptied) := rfl
  have hempty : emptied (.operated key) = fun _ => none := by
    rw [resetDemandInformation_apply hemptied, if_pos (mem_dueLegDates.2 ⟨lFlightDate, hdue, key, hkey, rfl⟩)]
  rw [InSync, hprices, ← projectedDemands_eq hcalls]
  refine (addDemands_leg calls _ (.operated key)).trans ?_
  rw [demandMaps, withDemandMaps, hempty]

theorem cooperationPass_settles (h : cooperationPass env lDate inventory state = .ok (v, out)) :
    ∀ lFlightDate ∈ dueFlightDates env lDate inventory, ∀ key ∈ lFlightDate.keys,
      MovedBy v (out (.operated key)).bidPrices ∧ InSync env lDate inventory out key := by
  intro lFlightDate hdue key hkey
  obtain ⟨lMaxBPVariation, optimised, hoptimise, h⟩ := bind_ok.1 h
  obtain ⟨⟨⟩, emptied, hreset, h⟩ := bind_ok.1 h
  obtain ⟨⟨⟩, projected, hproject, hend⟩ := bind_ok.1 h
  obtain ⟨rfl, rfl⟩ := pure_ok.1 hend
  refine ⟨?_, resetThenProject_inSync hreset hproject lFlightDate hdue key hkey⟩
  rw [onMaps_bidPrices hproject, onMaps_bidPrices hreset]
  exact establishes_movedBy.flightDates_done hoptimise lFlightDate hdue key hkey

/-- **Where RM cooperation ends on an inventory.** It makes ten passes at most, and fewer only when the last one moved
the bid price of no due leg-cabin by more than a hundredth. The demand maps of the due leg-cabins hold what the
projection hands out at the final bid prices, and nothing of the passes before. -/
theorem cooperate_settles (h : cooperate env lDate inventory state = .ok (v, out)) :
    (∃ k, 1 ≤ k ∧ k ≤ 10 ∧ (k < 10 → v ≤ 0.01) ∧
      Reaches (Pass (fun lMaxBPVariation => 0.01 < lMaxBPVariation) (cooperationPass env lDate inventory))
        (1, state) k (v, out)) ∧
    ∀ lFlightDate ∈ dueFlightDates env lDate inventory, ∀ key ∈ lFlightDate.keys,
      MovedBy v (out (.operated key)).bidPrices ∧ InSync env lDate inventory out key := by
  have hgo : (0.01 : ℝ) < 1 := by norm_num
  constructor
  · obtain ⟨k, hone, hten, hfew, hrun⟩ := loop_passes hgo (by norm_num) h
    exact ⟨k, hone, hten, fun hk => not_lt.1 (hfew hk), hrun⟩
  · obtain ⟨before, hpass⟩ := loop_last hgo (by norm_num) h
    exact cooperationPass_settles hpass

end settled

/-! ### Two airlines

Each flies one leg of a journey of two segments, markets the other one too and holds an image of its leg-cabin. -/

def flownLegCabin (airline : ℕ) : LegCabinKey ℕ ℕ := ⟨airline, 0, 0, 0⟩

def heldLegCabin (airline operator : ℕ) : ImageKey ℕ ℕ := ⟨airline, flownLegCabin operator⟩

/-- A segment as an airline has it. -/
def allianceSegment (airline operator : ℕ) : OnDSegment Unit (NetLegCabin ℕ ℕ) :=
  if operator = airline then ⟨⟨fun _ => some [.operated (flownLegCabin airline)]⟩, none⟩
  else ⟨⟨fun _ => some []⟩, some ⟨fun _ => some [.image (heldLegCabin airline operator)]⟩⟩

theorem allianceSegment_own (airline operator : ℕ) (cabin : Unit) :
    ∀ legs ∈ (allianceSegment airline operator).own.legCabins cabin, ∀ leg ∈ legs, leg ∈ ownCells airline := by
  unfold allianceSegment
  split <;> simp [ownCells, flownLegCabin]

noncomputable def allianceOnDDate (airline : ℕ) : OnDDate Unit (NetLegCabin ℕ ℕ) where
  date := 0
  nbOfSegments := 2
  segments := [allianceSegment airline 0, allianceSegment airline 1]
  demandInfoMap := [⟨[(), ()], 1, 1, 0⟩]

def allianceFlightDate (airline : ℕ) : NetFlightDate ℕ ℕ :=
  ⟨⟨airline, 0, [⟨[0], [1 - airline]⟩], fun _ => [0]⟩, 0, [0]⟩

noncomputable def allianceInventory (airline : ℕ) : NetInventory ℕ ℕ Unit where
  airlineCode := airline
  flightDates := [allianceFlightDate airline]
  onDDates := [allianceOnDDate airline]
  flightDates_own := by simp [allianceFlightDate]
  segments_own := by simpa [allianceOnDDate] using ⟨allianceSegment_own airline 0, allianceSegment_own airline 1⟩

noncomputable def alliance : List (NetInventory ℕ ℕ Unit) := [allianceInventory 0, allianceInventory 1]

/-- A pool of one seat, whose price is the entry of the bid price vector. -/
noncomputable def oneSeatEnv : NetEnv ℕ ℕ where
  lDCPList := [0]
  bomRoot := twoLegBomRoot
  availabilityPool := fun _ => 1
  addDemandInformation := addAtLevel fun y => ⌊y⌋
  generateNormal := fun _ iMean _ => iMean
  updatePreviousBidPrice := LegCabin.currentBidPrice
  updateCurrentBidPrice := fun pool vector price => vector.getD (⌊pool⌋.toNat - 1) price

/-- One request at the yield level 1, and a bid price of 1. -/
noncomputable def oneLevel : NetLegCabinState := ⟨⟨1, 1⟩, [], fun level => if level = 1 then some (1, 0) else none⟩

theorem allianceInventory_readsItsImages (airline : ℕ) : (allianceInventory airline).ReadsItsImages := by
  have hsegment : ∀ operator, ∀ operating ∈ (allianceSegment airline operator).getOperatingSegmentDate, ∀ cabin,
      ∀ legs ∈ operating.legCabins cabin, ∀ leg ∈ legs, leg ∈ ownCells airline ∪ heldImages airline := by
    intro operator
    unfold allianceSegment
    split <;> simp [heldImages, heldLegCabin]
  intro lOnDDate hmem segment hsegments
  obtain rfl := List.mem_singleton.1 hmem
  have hoperator : segment = allianceSegment airline 0 ∨ segment = allianceSegment airline 1 := by
    simpa [allianceOnDDate] using hsegments
  rcases hoperator with rfl | rfl
  · exact hsegment 0
  · exact hsegment 1

theorem alliance_codes : (alliance.map NetInventory.airlineCode).Nodup := by simp [alliance, allianceInventory]

/-- One level, which every sample meets. -/
noncomputable def oneLevelRound : OptimisationRound ℝ where
  generateNormal := fun _ iMean _ => iMean
  availabilityPool := 1
  lFirstYD := ⟨1, 1, 0⟩
  lLevels := []
  map_sorted := List.pairwise_singleton _ _

theorem oneLevelRound_admissible : oneLevelRound.Admissible where
  one_le_yield := by simp [oneLevelRound]
  one_le_pool := le_refl (1 : ℝ)
  fitsInt := by simp [oneLevelRound, FitsInt, truncate]
  passes := trivial
  fits := trivial

theorem yieldLevels_oneLevel : yieldLevels oneLevel.yieldLevelDemandMap = [⟨1, 1, 0⟩] := by
  have hlevels : demandLevels oneLevel.yieldLevelDemandMap = [1] := demandLevels_single (by simp [oneLevel])
  rw [yieldLevels, hlevels]
  simp [oneLevel]

theorem oneLevelRound_price : oneLevelRound.stages.flooredPrice 1 1 = 1 := by
  have hpriced : oneLevelRound.stages.Priced := le_refl (1 : ℝ)
  refine le_antisymm (hpriced.flooredPrice_le_yield 1) ?_
  exact (Stages.one_le_flooredPrice_iff hpriced trivial le_rfl (by norm_num)).2 False.elim

/-- The bid price stays at 1. -/
theorem optimiseNetLegCabin_oneLevel {state : NetState ℕ ℕ} {key : LegCabinKey ℕ ℕ}
    (hstate : state (.operated key) = oneLevel) :
    ∃ out, optimiseNetLegCabin oneSeatEnv key state = .ok (0, out) ∧ bidPriceOf out (.operated key) = 1 := by
  have hprepare : oneSeatEnv.legCabin key oneLevel = oneLevelRound.prepare (oneSeatEnv.legCabin key oneLevel) := by
    simp only [NetEnv.legCabin, OptimisationRound.prepare, yieldLevels_oneLevel]
    rfl
  have hcurrent : (oneSeatEnv.legCabin key oneLevel).currentBidPrice ≠ 0 := one_ne_zero
  obtain ⟨lLC, lBPVariation, hstep, -, hprice⟩ :=
    optimiseLegCabin_spec (fun _ => rfl) oneLevelRound_admissible hcurrent
  have hseat : ⌊oneLevelRound.availabilityPool⌋.toNat = 1 := by simp [oneLevelRound]
  rw [← hprepare, ← hstate] at hstep
  rw [hseat, oneLevelRound_price] at hprice
  have hrun := optimiseNetLegCabin_ok.2 ⟨lLC, hstep, rfl⟩
  obtain ⟨-, hvariation⟩ := optimiseNetLegCabin_prices hrun
  have hprevious := optimiseNetLegCabin_previous (fun _ => rfl) hrun
  rw [hprevious, bidPriceOf, hstate, Function.update_self, hprice] at hvariation
  obtain rfl : lBPVariation = 0 := by simpa [oneLevel] using hvariation
  refine ⟨_, hrun, ?_⟩
  rw [bidPriceOf, Function.update_self, hprice]

/-- Optimising the flight-date of an airline moves no bid price. -/
theorem optimiseFlightDates_alliance {γ : Type} {inventory : NetInventory ℕ ℕ γ} {state : NetState ℕ ℕ} {airline : ℕ}
    (hflights : inventory.flightDates = [allianceFlightDate airline])
    (hstate : state (.operated (flownLegCabin airline)) = oneLevel) :
    ∃ out, optimiseFlightDates oneSeatEnv 0 0 inventory state = .ok (0, out) ∧
      bidPriceOf out (.operated (flownLegCabin airline)) = 1 ∧
      ∀ leg ≠ .operated (flownLegCabin airline), out leg = state leg := by
  obtain ⟨out, hleg, hprice⟩ := optimiseNetLegCabin_oneLevel hstate
  have hflight : optimiseUsingOnDForecast oneSeatEnv (allianceFlightDate airline) state = .ok (0, out) :=
    foldlM_cons_ok.2 ⟨0, out, bind_ok.2 ⟨0, out, hleg, pure_ok.2 ⟨(max_self 0).symm, rfl⟩⟩, pure_ok.2 ⟨rfl, rfl⟩⟩
  have hdue : dueFlightDates oneSeatEnv 0 inventory = [allianceFlightDate airline] := by
    rw [dueFlightDates, hflights]
    rfl
  have hrun : optimiseFlightDates oneSeatEnv 0 0 inventory state = .ok (0, out) := by
    rw [optimiseFlightDates, hdue]
    exact foldlM_cons_ok.2 ⟨0, out, bind_ok.2 ⟨0, out, hflight, pure_ok.2 ⟨(max_self 0).symm, rfl⟩⟩,
      pure_ok.2 ⟨rfl, rfl⟩⟩
  exact ⟨out, hrun, hprice, (optimiseNetLegCabin_local (flownLegCabin airline)).frame hleg⟩

/-- One pass is enough for either airline. -/
theorem cooperate_alliance {airline : ℕ} (hairline : airline = 0 ∨ airline = 1) :
    ∃ out, cooperate oneSeatEnv 0 (allianceInventory airline) (fun _ => oneLevel) = .ok (0, out) := by
  obtain ⟨optimised, hoptimised, -, -⟩ := @optimiseFlightDates_alliance _ (allianceInventory airline)
    (fun _ => oneLevel) airline rfl rfl
  have hreset : ∃ emptied,
      resetDemandInformationOf oneSeatEnv 0 (allianceInventory airline) optimised = .ok (⟨⟩, emptied) := ⟨_, rfl⟩
  obtain ⟨emptied, hreset⟩ := hreset
  have hproject : ∃ out, projectUsingDYP oneSeatEnv 0 (allianceInventory airline) emptied = .ok (⟨⟩, out) := by
    rcases hairline with rfl | rfl <;> exact ⟨_, rfl⟩
  obtain ⟨out, hproject⟩ := hproject
  have hpass : cooperationPass oneSeatEnv 0 (allianceInventory airline) (fun _ => oneLevel) = .ok (0, out) :=
    bind_ok.2 ⟨0, optimised, hoptimised, bind_ok.2 ⟨⟨⟩, emptied, hreset, bind_ok.2 ⟨⟨⟩, out, hproject,
      pure_ok.2 ⟨rfl, rfl⟩⟩⟩⟩
  refine ⟨out, ?_⟩
  rw [cooperate, loop, if_pos (by norm_num)]
  refine bind_ok.2 ⟨0, out, hpass, ?_⟩
  rw [loop, if_neg (by norm_num)]
  exact pure_ok.2 ⟨rfl, rfl⟩

open Classical in
theorem rmCooperation_independent_alliance :
    ∃ out, optimiseOnDUsingRMCooperation oneSeatEnv 0 alliance (fun _ => oneLevel) = .ok (⟨⟩, out) ∧
      optimiseOnDUsingRMCooperation oneSeatEnv 0 [allianceInventory 1, allianceInventory 0] (fun _ => oneLevel) =
        .ok (⟨⟩, out) := by
  obtain ⟨first, hfirst⟩ := cooperate_alliance (.inl rfl : 0 = 0 ∨ 0 = 1)
  obtain ⟨second, hsecond⟩ := cooperate_alliance (.inr rfl : 1 = 0 ∨ 1 = 1)
  have himages : ∀ inventory ∈ alliance, inventory.ReadsItsImages := by
    simp [alliance, allianceInventory_readsItsImages]
  let out : NetState ℕ ℕ := fun leg =>
    if leg ∈ ownCells 0 then first leg else if leg ∈ ownCells 1 then second leg else oneLevel
  have hind := @rmCooperation_independent ℕ ℕ Unit _ _ oneSeatEnv 0 alliance alliance_codes himages (fun _ => oneLevel) out
  have hrun : optimiseOnDUsingRMCooperation oneSeatEnv 0 alliance (fun _ => oneLevel) = .ok (⟨⟩, out) := by
    refine hind.1.2 ⟨fun inventory hmem => ?_, fun leg hleg => ?_⟩
    · have hcases : inventory = allianceInventory 0 ∨ inventory = allianceInventory 1 := by simpa [alliance] using hmem
      rcases hcases with rfl | rfl
      · exact ⟨0, first, hfirst, fun leg hleg => if_pos hleg⟩
      · refine ⟨0, second, hsecond, fun leg hleg => ?_⟩
        show (if leg ∈ ownCells 0 then first leg else _) = second leg
        have hnot : leg ∉ ownCells 0 := fun hin => notMem_of_mem_ownCells one_ne_zero leg hleg (.inl hin)
        rw [if_neg hnot]
        exact if_pos hleg
    · have hnot : leg ∉ ownCells 0 ∧ leg ∉ ownCells 1 := by simpa [alliance, allianceInventory] using hleg
      show (if leg ∈ ownCells 0 then first leg else _) = oneLevel
      rw [if_neg hnot.1, if_neg hnot.2]
  exact ⟨out, hrun, (hind.2 _ (List.Perm.swap _ _ _)).2 hrun⟩

theorem cooperate_settles_alliance :
    ∃ out, cooperate oneSeatEnv 0 (allianceInventory 0) (fun _ => oneLevel) = .ok (0, out) ∧
      MovedBy 0 (out (.operated (flownLegCabin 0))).bidPrices ∧
      InSync oneSeatEnv 0 (allianceInventory 0) out (flownLegCabin 0) := by
  obtain ⟨out, hrun⟩ := cooperate_alliance (.inl rfl : 0 = 0 ∨ 0 = 1)
  refine ⟨out, hrun, ?_⟩
  exact (cooperate_settles hrun).2 _ List.mem_cons_self (flownLegCabin 0) List.mem_cons_self

end Rmol
