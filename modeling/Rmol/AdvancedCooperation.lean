import Rmol.Cooperation
import Rmol.Proration
/-!
# RM cooperation between partners (`RMOL_Service.cpp:2050-2107`)

"Bid prices are communicated between partners at the end of each iteration": when the passes are over, every image
that a due flight-date is marketed through holds the bid price of the leg-cabin that is flown, and the demand maps of
all due leg-cabins hold what the projections hand out at these prices (`advancedCooperation_agrees`).

The partners that fly an itinerary then weigh its legs alike, and what they hand over of its yield adds up to it
(`advancedCooperation_shares`).
-/

namespace Rmol

open Locality Runs

variable {α κ γ : Type} [DecidableEq α] [DecidableEq κ]

/-! ## The prices that partners hold -/

section prices
variable {updateCurrentBidPrice : LegCabinKey α κ → ℝ → ℝ} {s : PriceState α κ ℝ} {image image' : ImageKey α κ}

/-- An image holds the current bid price of its leg-cabin, which a further update would leave as it is. -/
structure PriceAgreed (updateCurrentBidPrice : LegCabinKey α κ → ℝ → ℝ) (s : PriceState α κ ℝ)
    (image : ImageKey α κ) : Prop where
  same : (s.images image).current = (s.legCabins image.operated).current
  fixed : updateCurrentBidPrice image.operated (s.legCabins image.operated).current =
    (s.legCabins image.operated).current

/-- A bid price that an update leaves as it is stays when it is sent. -/
theorem sendBidPrice_fixed (image' : ImageKey α κ) {key : LegCabinKey α κ}
    (h : updateCurrentBidPrice key (s.legCabins key).current = (s.legCabins key).current) :
    (sendBidPrice updateCurrentBidPrice s image').legCabins key = s.legCabins key := by
  by_cases hkey : key = image'.operated
  · subst hkey
    simp [sendBidPrice, BidPrices.update, h]
  · simp [sendBidPrice, Function.update_of_ne hkey]

theorem foldl_sendBidPrice_fixed {key : LegCabinKey α κ} (images : List (ImageKey α κ))
    (h : updateCurrentBidPrice key (s.legCabins key).current = (s.legCabins key).current) :
    (images.foldl (sendBidPrice updateCurrentBidPrice) s).legCabins key = s.legCabins key := by
  induction images generalizing s with
  | nil => rfl
  | cons image images ih =>
    have hsent := sendBidPrice_fixed image h
    rw [List.foldl_cons, ih (by rw [hsent, h]), hsent]

theorem sendBidPrice_agreed
    (hidem : ∀ leg x, updateCurrentBidPrice leg (updateCurrentBidPrice leg x) = updateCurrentBidPrice leg x) :
    PriceAgreed updateCurrentBidPrice (sendBidPrice updateCurrentBidPrice s image) image where
  same := by simp [sendBidPrice]
  fixed := by simp [sendBidPrice, BidPrices.update, hidem]

/-- Sending a bid price leaves what is agreed. -/
theorem PriceAgreed.send (h : PriceAgreed updateCurrentBidPrice s image) :
    PriceAgreed updateCurrentBidPrice (sendBidPrice updateCurrentBidPrice s image') image := by
  obtain ⟨hsame, hfixed⟩ := h
  have hleg := sendBidPrice_fixed image' hfixed
  refine ⟨?_, by rw [hleg, hfixed]⟩
  rw [hleg]
  by_cases himage : image = image'
  · subst himage
    simpa [sendBidPrice, BidPrices.update] using hfixed
  · simpa [sendBidPrice, Function.update_of_ne himage] using hsame

theorem PriceAgreed.foldl (h : PriceAgreed updateCurrentBidPrice s image) (images : List (ImageKey α κ)) :
    PriceAgreed updateCurrentBidPrice (images.foldl (sendBidPrice updateCurrentBidPrice) s) image := by
  induction images generalizing s with
  | nil => exact h
  | cons image' images ih => exact ih h.send

theorem foldl_sendBidPrice_agreed
    (hidem : ∀ leg x, updateCurrentBidPrice leg (updateCurrentBidPrice leg x) = updateCurrentBidPrice leg x)
    {images : List (ImageKey α κ)} (hmem : image ∈ images) :
    PriceAgreed updateCurrentBidPrice (images.foldl (sendBidPrice updateCurrentBidPrice) s) image := by
  induction images generalizing s with
  | nil => cases hmem
  | cons image' images ih =>
    rcases List.mem_cons.1 hmem with rfl | hmem
    · exact (sendBidPrice_agreed hidem).foldl images
    · exact ih hmem

end prices

section network
variable {env : NetEnv α κ} {lDate : Date} {inventories : List (NetInventory α κ γ)} {inventory : NetInventory α κ γ}
  {state between out : NetState α κ} {image : ImageKey α κ}

/-- `updateCurrentBidPrice` on the leg-cabins of a state. -/
def NetEnv.update (env : NetEnv α κ) (state : NetState α κ) (key : LegCabinKey α κ) : ℝ → ℝ :=
  env.updateCurrentBidPrice (env.availabilityPool key) (state (.operated key)).bidPriceVector

/-- `updateCurrentBidPrice` finds the bid price of the pool in the vector: twice is once, and the last entry of a vector
for the whole pool stays. -/
structure NetEnv.UpdatesFromVector (env : NetEnv α κ) : Prop where
  twice : ∀ pool vector x, env.updateCurrentBidPrice pool vector (env.updateCurrentBidPrice pool vector x) =
    env.updateCurrentBidPrice pool vector x
  last : ∀ pool vector lBP, vector.getLast? = some lBP → vector.length = ⌊pool⌋.toNat →
    env.updateCurrentBidPrice pool vector lBP = lBP

def Agreed (env : NetEnv α κ) (state : NetState α κ) (image : ImageKey α κ) : Prop :=
  PriceAgreed (env.update state) (priceState state) image

theorem updateBidPriceOf_prices {iFlightDate : NetFlightDate α κ}
    (h : updateBidPriceOf env iFlightDate state = .ok (⟨⟩, out)) :
    priceState out = iFlightDate.reachedImages.foldl (sendBidPrice (env.update state)) (priceState state) ∧
      env.update out = env.update state := by
  obtain ⟨prices, hprices, rfl⟩ := updateBidPriceOf_ok.1 h
  exact ⟨updateBidPrice_ok hprices, rfl⟩

theorem updateBidPriceOf_agreed (hupdate : env.UpdatesFromVector) {iFlightDate : NetFlightDate α κ}
    (h : updateBidPriceOf env iFlightDate state = .ok (⟨⟩, out)) :
    ∀ image ∈ iFlightDate.reachedImages, Agreed env out image := by
  intro image himage
  obtain ⟨hprices, hsame⟩ := updateBidPriceOf_prices h
  have hidem : ∀ key x, env.update state key (env.update state key x) = env.update state key x :=
    fun key x => hupdate.twice _ _ x
  rw [Agreed, hprices, hsame]
  exact foldl_sendBidPrice_agreed hidem himage

theorem Agreed.updateBidPriceOf {iFlightDate : NetFlightDate α κ} (hagreed : Agreed env state image)
    (h : updateBidPriceOf env iFlightDate state = .ok (⟨⟩, out)) : Agreed env out image := by
  obtain ⟨hprices, hsame⟩ := updateBidPriceOf_prices h
  rw [Agreed, hprices, hsame]
  exact hagreed.foldl _

/-- The images that the due flight-dates of an inventory are marketed through. -/
def sentImages (env : NetEnv α κ) (lDate : Date) (inventory : NetInventory α κ γ) : List (ImageKey α κ) :=
  (dueFlightDates env lDate inventory).flatMap fun lFlightDate => lFlightDate.reachedImages

theorem updateBidPrices_agreed (hupdate : env.UpdatesFromVector)
    (h : updateBidPrices env lDate inventories state = .ok (⟨⟩, out)) :
    ∀ inventory ∈ inventories, ∀ image ∈ sentImages env lDate inventory, Agreed env out image := by
  refine forM_each (Q := fun inventory state => ∀ image ∈ sentImages env lDate inventory, Agreed env state image)
    ?_ ?_ h
  · intro inventory _ s t hrun image himage
    obtain ⟨lFlightDate, hdue, hreached⟩ := List.mem_flatMap.1 himage
    refine forM_each (Q := fun lFlightDate state => ∀ image ∈ lFlightDate.reachedImages, Agreed env state image)
      ?_ ?_ hrun lFlightDate hdue image hreached
    · intro lFlightDate _ s t hstep
      exact updateBidPriceOf_agreed hupdate hstep
    · intro lFlightDate _ lFlightDate' _ s t hagreed hstep image himage
      exact (hagreed image himage).updateBidPriceOf hstep
  · intro inventory _ inventory' _ s t hagreed hrun image himage
    refine forM_invariant (P := fun state => Agreed env state image) ?_ (hagreed image himage) hrun
    intro lFlightDate _ s t hagreed hstep
    exact hagreed.updateBidPriceOf hstep

/-! ## The bid prices that are sent -/

omit [DecidableEq α] [DecidableEq κ] in
/-- The new bid price is the last entry of a vector for the whole pool. -/
theorem computeBidPrices_vector {draws : YieldLevel ℝ → ℕ → List ℝ} {K : ℕ} {ioLegCabin lLC : LegCabin ℝ}
    (h : computeBidPrices draws K ioLegCabin = .ok lLC) :
    lLC.bidPriceVector.getLast? = some lLC.currentBidPrice ∧
      lLC.bidPriceVector.length = ⌊ioLegCabin.availabilityPool⌋.toNat := by
  cases hmap : ioLegCabin.yieldLevelDemandMap with
  | nil =>
    unfold computeBidPrices at h
    simp only [hmap] at h
    cases h
  | cons lFirstYD lLevels =>
    obtain ⟨hpool, hmax, hpass⟩ := (computeBidPrices_ok_iff hmap).1 ⟨lLC, h⟩
    have hfloor : 1 ≤ ⌊ioLegCabin.availabilityPool⌋ := by rwa [Int.le_floor, Int.cast_one]
    rw [computeBidPrices_spec hmap hfloor hmax hpass] at h
    obtain rfl := Except.ok.inj h
    refine ⟨getLast?_map_seats _ (by omega), ?_⟩
    rw [List.length_map, seats, List.length_range', Nat.add_sub_cancel]

/-- What an update leaves as it is. -/
def NetEnv.Fixed (env : NetEnv α κ) (key : LegCabinKey α κ) (lLC : NetLegCabinState) : Prop :=
  env.updateCurrentBidPrice (env.availabilityPool key) lLC.bidPriceVector lLC.bidPrices.current = lLC.bidPrices.current

/-- The bid price vector has an entry for every seat of the pool, and the bid price is the last one. -/
structure NetEnv.Priced (env : NetEnv α κ) (key : LegCabinKey α κ) (lLC : NetLegCabinState) : Prop where
  last : lLC.bidPriceVector.getLast? = some lLC.bidPrices.current
  seats : lLC.bidPriceVector.length = ⌊env.availabilityPool key⌋.toNat

theorem establishes_priced : Establishes env fun key _ lLC => env.Priced key lLC where
  mono h _ := h
  done h := by
    obtain ⟨lLC, hstep, rfl⟩ := optimiseNetLegCabin_ok.1 h
    obtain ⟨lOut, hrun, hvariation⟩ := bind_eq_ok.1 hstep
    split at hvariation
    · cases hvariation
    · obtain ⟨rfl, -⟩ := Prod.mk.inj (Except.ok.inj hvariation)
      obtain ⟨lPriced, hpriced, -, rfl⟩ := optimisationByMCIntegration_ok_iff.1 hrun
      obtain ⟨hlast, hlength⟩ := computeBidPrices_vector hpriced
      rw [Function.update_self]
      exact ⟨hlast, hlength⟩

omit [DecidableEq α] [DecidableEq κ] in
theorem NetEnv.Priced.fixed (hupdate : env.UpdatesFromVector) {key : LegCabinKey α κ} {lLC : NetLegCabinState}
    (h : env.Priced key lLC) : env.Fixed key lLC :=
  hupdate.last _ _ _ h.last h.seats

/-- What sending bid prices leaves of a leg-cabin. -/
structure SamePricing (before after : NetLegCabinState) : Prop where
  bidPrices : after.bidPrices = before.bidPrices
  bidPriceVector : after.bidPriceVector = before.bidPriceVector

theorem SamePricing.trans {before between after : NetLegCabinState} (h : SamePricing before between)
    (h' : SamePricing between after) : SamePricing before after :=
  ⟨h'.bidPrices.trans h.bidPrices, h'.bidPriceVector.trans h.bidPriceVector⟩

omit [DecidableEq α] [DecidableEq κ] in
theorem NetEnv.Fixed.same {key : LegCabinKey α κ} {before after : NetLegCabinState} (hfixed : env.Fixed key before)
    (h : SamePricing before after) : env.Fixed key after := by
  rw [NetEnv.Fixed, h.bidPrices, h.bidPriceVector]
  exact hfixed

theorem updateBidPriceOf_fixed {iFlightDate : NetFlightDate α κ} {key : LegCabinKey α κ}
    (hfixed : env.Fixed key (state (.operated key))) (h : updateBidPriceOf env iFlightDate state = .ok (⟨⟩, out)) :
    SamePricing (state (.operated key)) (out (.operated key)) := by
  obtain ⟨prices, hprices, rfl⟩ := updateBidPriceOf_ok.1 h
  obtain rfl := updateBidPrice_ok hprices
  exact ⟨foldl_sendBidPrice_fixed iFlightDate.reachedImages hfixed, rfl⟩

theorem updateBidPrices_fixed {key : LegCabinKey α κ} (hfixed : env.Fixed key (state (.operated key)))
    (h : updateBidPrices env lDate inventories state = .ok (⟨⟩, out)) :
    SamePricing (state (.operated key)) (out (.operated key)) := by
  refine forM_invariant (P := fun t => SamePricing (state (.operated key)) (t (.operated key)))
    (fun inventory _ s t hs hrun => ?_) ⟨rfl, rfl⟩ h
  refine forM_invariant (P := fun t => SamePricing (state (.operated key)) (t (.operated key)))
    (fun lFlightDate _ s t hs hstep => ?_) hs hrun
  exact hs.trans (updateBidPriceOf_fixed (hfixed.same hs) hstep)

/-! ## The demand maps of all airlines -/

omit [DecidableEq α] [DecidableEq κ] in
theorem onInventories_ok {command : NetInventory α κ γ → RMOp α κ PUnit}
    (h : onInventories inventories command state = .ok (⟨⟩, out)) : forM inventories command state = .ok (⟨⟩, out) := by
  cases inventories with
  | nil => cases h
  | cons inventory inventories => exact h

/-- A reset of all inventories empties the maps of all due leg-cabins. -/
theorem resetAll_empties (h : resetAll env lDate inventories state = .ok (⟨⟩, out)) :
    ∀ inventory ∈ inventories, ∀ leg ∈ (dueLegDates env.lDCPList lDate inventory.toInventory).flatten,
      demandMaps out leg = fun _ => none := by
  refine forM_each (Q := fun inventory state => ∀ leg ∈ (dueLegDates env.lDCPList lDate
    inventory.toInventory).flatten, demandMaps state leg = fun _ => none) ?_ ?_ (onInventories_ok h)
  · intro inventory _ s t hreset leg hleg
    obtain ⟨maps, hmaps, rfl⟩ := onMaps_ok.1 hreset
    rw [demandMaps, withDemandMaps, resetDemandInformation_apply hmaps, if_pos hleg]
  · intro inventory _ inventory' _ s t hempty hreset leg hleg
    obtain ⟨maps, hmaps, rfl⟩ := onMaps_ok.1 hreset
    rw [demandMaps, withDemandMaps, resetDemandInformation_apply hmaps]
    split
    · rfl
    · exact hempty leg hleg

omit [DecidableEq α] [DecidableEq κ] in
/-- Commands on the maps only write demand maps. -/
theorem forM_onMaps_frame {π : Type} {command : π → NetState α κ → (NetLegCabin α κ → YieldLevelDemandMap) →
      Except ProjectionFault (NetLegCabin α κ → YieldLevelDemandMap)} {l : List π}
    (h : forM l (fun p => onMaps (command p)) state = .ok (⟨⟩, out)) : out = withDemandMaps state (demandMaps out) := by
  refine forM_invariant (P := fun t => t = withDemandMaps state (demandMaps t)) (fun _ _ s t hs hstep => ?_) rfl h
  obtain ⟨maps, -, rfl⟩ := onMaps_ok.1 hstep
  rw [hs]
  rfl

/-- What the projections of all inventories hand out. -/
noncomputable def allDemands (env : NetEnv α κ) (lDate : Date) (inventories : List (NetInventory α κ γ))
    (bidPrice : NetLegCabin α κ → ℝ) : List (DemandCall (NetLegCabin α κ)) :=
  inventories.flatMap fun inventory => dueDemands bidPrice env.lDCPList lDate inventory.toInventory

theorem projectUsingDYP_apply (h : projectUsingDYP env lDate inventory state = .ok (⟨⟩, out))
    (leg : NetLegCabin α κ) : demandMaps out leg = addCalls env.addDemandInformation (demandMaps state leg)
      (callsOn (dueDemands (bidPriceOf state) env.lDCPList lDate inventory.toInventory) leg) := by
  obtain ⟨maps, hmaps, rfl⟩ := onMaps_ok.1 h
  obtain ⟨calls, hcalls, hout⟩ := bind_eq_ok.1 hmaps
  obtain rfl := Except.ok.inj hout
  rw [← projectedDemands_eq hcalls]
  exact addDemands_leg calls _ leg

theorem forM_projectUsingDYP_apply (h : forM inventories (projectUsingDYP env lDate) state = .ok (⟨⟩, out))
    (leg : NetLegCabin α κ) : demandMaps out leg = addCalls env.addDemandInformation (demandMaps state leg)
      (callsOn (allDemands env lDate inventories (bidPriceOf state)) leg) := by
  induction inventories generalizing state with
  | nil =>
    obtain rfl := forM_nil_ok.1 h
    rfl
  | cons inventory inventories ih =>
    obtain ⟨between, hfirst, hrest⟩ := forM_cons_ok.1 h
    have hprices : bidPriceOf between = bidPriceOf state :=
      funext fun leg => congrArg BidPrices.current (onMaps_bidPrices hfirst leg)
    rw [ih hrest, projectUsingDYP_apply hfirst, hprices, allDemands, allDemands, List.flatMap_cons, callsOn_append,
      addCalls, addCalls, addCalls, List.foldl_append]

omit [DecidableEq α] [DecidableEq κ] in
theorem legCabin_ne_of_mem_dueDemands {inventory' : NetInventory α κ γ} {bidPrice : NetLegCabin α κ → ℝ}
    {leg : NetLegCabin α κ} (hne : inventory'.airlineCode ≠ inventory.airlineCode)
    (hleg : leg ∈ ownCells inventory.airlineCode) :
    ∀ call ∈ dueDemands bidPrice env.lDCPList lDate inventory'.toInventory, call.legCabin ≠ leg := by
  rintro call hcall rfl
  exact notMem_of_mem_ownCells hne _ (dueDemands_own hcall) (.inl hleg)

/-- A leg-cabin only receives demand from the airline that operates it. -/
theorem callsOn_allDemands (hcodes : (inventories.map NetInventory.airlineCode).Nodup) (hmem : inventory ∈ inventories)
    {bidPrice : NetLegCabin α κ → ℝ} {leg : NetLegCabin α κ} (hleg : leg ∈ ownCells inventory.airlineCode) :
    callsOn (allDemands env lDate inventories bidPrice) leg =
      callsOn (dueDemands bidPrice env.lDCPList lDate inventory.toInventory) leg := by
  induction inventories with
  | nil => cases hmem
  | cons first inventories ih =>
    rw [List.map_cons, List.nodup_cons] at hcodes
    rw [allDemands, List.flatMap_cons, callsOn_append, ← allDemands]
    rcases List.mem_cons.1 hmem with rfl | hmem
    · have hnil : callsOn (allDemands env lDate inventories bidPrice) leg = [] := by
        refine callsOn_eq_nil fun call hcall => ?_
        obtain ⟨inventory', hmem', hdue⟩ := List.mem_flatMap.1 hcall
        have hne : inventory'.airlineCode ≠ inventory.airlineCode := by
          intro hcode
          exact hcodes.1 (hcode ▸ List.mem_map_of_mem hmem')
        exact legCabin_ne_of_mem_dueDemands hne hleg call hdue
      rw [hnil, List.append_nil]
    · have hne : first.airlineCode ≠ inventory.airlineCode := by
        intro hcode
        exact hcodes.1 (hcode ▸ List.mem_map_of_mem hmem)
      rw [callsOn_eq_nil (legCabin_ne_of_mem_dueDemands hne hleg), List.nil_append, ih hcodes.2 hmem]

/-! ## Where the passes end -/

/-- What an optimisation establishes holds for all due leg-cabins of all airlines. -/
theorem Establishes.network {Q : LegCabinKey α κ → ℝ → NetLegCabinState → Prop} (hQ : Establishes env Q) {v w : ℝ}
    (h : inventories.foldlM (optimiseFlightDates env lDate) v state = .ok (w, out)) :
    ∀ inventory ∈ inventories, ∀ lFlightDate ∈ dueFlightDates env lDate inventory, ∀ key ∈ lFlightDate.keys,
      Q key w (out (.operated key)) := by
  refine foldlM_each (Q := fun inventory w state => ∀ lFlightDate ∈ dueFlightDates env lDate inventory,
    ∀ key ∈ lFlightDate.keys, Q key w (state (.operated key))) ?_ ?_ h
  · intro inventory _ v s w t hrun
    exact hQ.flightDates_done hrun
  · intro inventory _ inventory' _ v s w t hq hrun lFlightDate hdue key hkey
    exact hQ.flightDates_kept (hq lFlightDate hdue key hkey) hrun

/-- The parts of a pass. -/
theorem networkPass_ok {lMaxBPVariation : ℝ}
    (h : networkPass env lDate inventories state = .ok (lMaxBPVariation, out)) :
    ∃ optimised updated emptied,
      inventories.foldlM (optimiseFlightDates env lDate) 0 state = .ok (lMaxBPVariation, optimised) ∧
        updateBidPrices env lDate inventories optimised = .ok (⟨⟩, updated) ∧
        resetAll env lDate inventories updated = .ok (⟨⟩, emptied) ∧
        projectAll env lDate inventories emptied = .ok (⟨⟩, out) := by
  obtain ⟨v, optimised, hoptimise, h⟩ := bind_ok.1 h
  obtain ⟨⟨⟩, updated, hprices, h⟩ := bind_ok.1 h
  obtain ⟨⟨⟩, emptied, hreset, h⟩ := bind_ok.1 h
  obtain ⟨⟨⟩, projected, hproject, hend⟩ := bind_ok.1 h
  obtain ⟨rfl, rfl⟩ := pure_ok.1 hend
  exact ⟨optimised, updated, emptied, hoptimise, hprices, hreset, hproject⟩

/-- A reset and a projection leave all else as it is. -/
theorem resetProject_frame (hreset : resetAll env lDate inventories state = .ok (⟨⟩, between))
    (hproject : projectAll env lDate inventories between = .ok (⟨⟩, out)) : out = withDemandMaps state (demandMaps out) := by
  rw [forM_onMaps_frame (onInventories_ok hproject), forM_onMaps_frame (onInventories_ok hreset)]
  rfl

theorem resetProject_bidPrices (hreset : resetAll env lDate inventories state = .ok (⟨⟩, between))
    (hproject : projectAll env lDate inventories between = .ok (⟨⟩, out)) (leg : NetLegCabin α κ) :
    (out leg).bidPrices = (state leg).bidPrices := by
  rw [resetProject_frame hreset hproject]
  rfl

/-- Sending the bid prices of an optimisation moves none of them. -/
theorem updateBidPrices_due (hupdate : env.UpdatesFromVector) {v w : ℝ}
    (hoptimise : inventories.foldlM (optimiseFlightDates env lDate) v state = .ok (w, between))
    (hprices : updateBidPrices env lDate inventories between = .ok (⟨⟩, out)) :
    ∀ inventory ∈ inventories, ∀ lFlightDate ∈ dueFlightDates env lDate inventory, ∀ key ∈ lFlightDate.keys,
      SamePricing (between (.operated key)) (out (.operated key)) := by
  intro inventory hmem lFlightDate hdue key hkey
  have hpriced := establishes_priced.network hoptimise inventory hmem lFlightDate hdue key hkey
  exact updateBidPrices_fixed (hpriced.fixed hupdate) hprices

theorem networkPass_agrees (hupdate : env.UpdatesFromVector) {lMaxBPVariation : ℝ}
    (h : networkPass env lDate inventories state = .ok (lMaxBPVariation, out)) :
    ∀ inventory ∈ inventories, ∀ image ∈ sentImages env lDate inventory,
      bidPriceOf out (.image image) = bidPriceOf out (.operated image.operated) := by
  obtain ⟨optimised, updated, emptied, -, hprices, hreset, hproject⟩ := networkPass_ok h
  intro inventory hmem image himage
  rw [bidPriceOf, bidPriceOf, resetProject_bidPrices hreset hproject, resetProject_bidPrices hreset hproject]
  exact (updateBidPrices_agreed hupdate hprices inventory hmem image himage).same

theorem networkPass_movedBy (hupdate : env.UpdatesFromVector) {lMaxBPVariation : ℝ}
    (h : networkPass env lDate inventories state = .ok (lMaxBPVariation, out)) :
    ∀ inventory ∈ inventories, ∀ lFlightDate ∈ dueFlightDates env lDate inventory, ∀ key ∈ lFlightDate.keys,
      MovedBy lMaxBPVariation (out (.operated key)).bidPrices := by
  obtain ⟨optimised, updated, emptied, hoptimise, hprices, hreset, hproject⟩ := networkPass_ok h
  intro inventory hmem lFlightDate hdue key hkey
  rw [resetProject_bidPrices hreset hproject,
    (updateBidPrices_due hupdate hoptimise hprices inventory hmem lFlightDate hdue key hkey).bidPrices]
  exact establishes_movedBy.network hoptimise inventory hmem lFlightDate hdue key hkey

theorem networkPass_inSync (hcodes : (inventories.map NetInventory.airlineCode).Nodup) {lMaxBPVariation : ℝ}
    (h : networkPass env lDate inventories state = .ok (lMaxBPVariation, out)) :
    ∀ inventory ∈ inventories, ∀ lFlightDate ∈ dueFlightDates env lDate inventory, ∀ key ∈ lFlightDate.keys,
      InSync env lDate inventory out key := by
  obtain ⟨optimised, updated, emptied, -, -, hreset, hproject⟩ := networkPass_ok h
  intro inventory hmem lFlightDate hdue key hkey
  have hleg : NetLegCabin.operated key ∈ (dueLegDates env.lDCPList lDate inventory.toInventory).flatten :=
    mem_dueLegDates.2 ⟨lFlightDate, hdue, key, hkey, rfl⟩
  have hprices : bidPriceOf out = bidPriceOf emptied := by
    rw [forM_onMaps_frame (onInventories_ok hproject)]
    rfl
  rw [InSync, forM_projectUsingDYP_apply (onInventories_ok hproject), resetAll_empties hreset inventory hmem _ hleg,
    callsOn_allDemands hcodes hmem (dueLegDates_own hleg), hprices]

/-- The passes of the command, and the last one of them. -/
theorem advancedCooperation_passes
    (h : optimiseOnDUsingAdvancedRMCooperation env lDate inventories state = .ok (⟨⟩, out)) :
    ∃ lMaxBPVariation before,
      (∃ k, 1 ≤ k ∧ k ≤ 50 ∧ (k < 50 → lMaxBPVariation ≤ 0.01) ∧
        Reaches (Pass (fun lMaxBPVariation => 0.01 < lMaxBPVariation) (networkPass env lDate inventories))
          (1, state) k (lMaxBPVariation, out)) ∧
      networkPass env lDate inventories before = .ok (lMaxBPVariation, out) := by
  have hgo : (0.01 : ℝ) < 1 := by norm_num
  obtain ⟨lMaxBPVariation, last, hloop, hend⟩ := bind_ok.1 h
  obtain ⟨-, rfl⟩ := pure_ok.1 hend
  obtain ⟨k, hone, hfifty, hfew, hrun⟩ := loop_passes hgo (by norm_num) hloop
  obtain ⟨before, hpass⟩ := loop_last hgo (by norm_num) hloop
  exact ⟨lMaxBPVariation, before, ⟨k, hone, hfifty, fun hk => not_lt.1 (hfew hk), hrun⟩, hpass⟩

/-- **Where advanced RM cooperation ends.** It makes fifty passes at most, and fewer only when the last one moved no
due bid price by more than a hundredth. Every image that a due flight-date is marketed through holds the bid price of
the leg-cabin that is flown, and the demand maps of all due leg-cabins hold what the projection of their airline hands
out at these bid prices. -/
theorem advancedCooperation_agrees (hcodes : (inventories.map NetInventory.airlineCode).Nodup)
    (hupdate : env.UpdatesFromVector)
    (h : optimiseOnDUsingAdvancedRMCooperation env lDate inventories state = .ok (⟨⟩, out)) :
    ∃ lMaxBPVariation,
      (∃ k, 1 ≤ k ∧ k ≤ 50 ∧ (k < 50 → lMaxBPVariation ≤ 0.01) ∧
        Reaches (Pass (fun lMaxBPVariation => 0.01 < lMaxBPVariation) (networkPass env lDate inventories))
          (1, state) k (lMaxBPVariation, out)) ∧
      ∀ inventory ∈ inventories,
        (∀ image ∈ sentImages env lDate inventory,
          bidPriceOf out (.image image) = bidPriceOf out (.operated image.operated)) ∧
        ∀ lFlightDate ∈ dueFlightDates env lDate inventory, ∀ key ∈ lFlightDate.keys,
          MovedBy lMaxBPVariation (out (.operated key)).bidPrices ∧ InSync env lDate inventory out key := by
  obtain ⟨lMaxBPVariation, before, hpasses, hpass⟩ := advancedCooperation_passes h
  refine ⟨lMaxBPVariation, hpasses, fun inventory hmem => ?_⟩
  refine ⟨networkPass_agrees hupdate hpass inventory hmem, fun lFlightDate hdue key hkey => ?_⟩
  exact ⟨networkPass_movedBy hupdate hpass inventory hmem lFlightDate hdue key hkey,
    networkPass_inSync hcodes hpass inventory hmem lFlightDate hdue key hkey⟩

end network

/-! ## What the partners hand over -/

section shares
variable {env : NetEnv α κ} {lDate : Date} {inventories : List (NetInventory α κ γ)} {state out : NetState α κ}
  {airline : α} {airlines : Finset α} {itinerary : List (OperatedSegment α γ (LegCabinKey α κ))}

/-- A segment of an itinerary with the leg-cabins of its operator. -/
def flownSegment (flown : OperatedSegment α γ (LegCabinKey α κ)) : OperatedSegment α γ (NetLegCabin α κ) :=
  ⟨flown.operator, flown.cabin, flown.legCabins.map .operated⟩

/-- A segment of an O&D date of an airline: its own leg-cabins, or the images that it holds of the operator's. -/
def HoldsSegment (airline : α) (flown : OperatedSegment α γ (LegCabinKey α κ))
    (segment : OnDSegment γ (NetLegCabin α κ) × γ) : Prop :=
  segment.2 = flown.cabin ∧
    if flown.operator = airline then
      segment.1.getOperatingSegmentDate = none ∧
        segment.1.own.legCabins flown.cabin = some (flown.legCabins.map .operated)
    else ∃ operating, segment.1.getOperatingSegmentDate = some operating ∧
      operating.legCabins flown.cabin = some (flown.legCabins.map fun key => .image ⟨airline, key⟩)

/-- The entry of an airline's demand info map for an itinerary. -/
structure HoldsItinerary (airline : α) (itinerary : List (OperatedSegment α γ (LegCabinKey α κ)))
    (lOnDDate : OnDDate γ (NetLegCabin α κ)) (lDemand : PathDemand γ) : Prop where
  cabins : lDemand.cabins.length = lOnDDate.nbOfSegments
  nbOfSegments : lOnDDate.segments.length = lOnDDate.nbOfSegments
  segments : List.Forall₂ (HoldsSegment airline) itinerary (pathSegments lOnDDate lDemand)

omit [DecidableEq κ] in
theorem HoldsItinerary.mirrors {lOnDDate : OnDDate γ (NetLegCabin α κ)} {lDemand : PathDemand γ}
    (h : HoldsItinerary airline itinerary lOnDDate lDemand) :
    Mirrors airline (itinerary.map flownSegment) lOnDDate lDemand where
  cabins := h.cabins
  nbOfSegments := h.nbOfSegments
  segments := by
    rw [List.forall₂_map_left_iff]
    refine h.segments.imp fun flown segment hsegment => ⟨hsegment.1, ?_⟩
    by_cases hown : flown.operator = airline
    · have hholds := hsegment.2
      rw [if_pos hown] at hholds
      exact (if_pos hown).mpr hholds
    · have hholds := hsegment.2
      rw [if_neg hown] at hholds
      obtain ⟨operating, hoperating, -⟩ := hholds
      exact (if_neg hown).mpr (hoperating ▸ rfl)

omit [DecidableEq κ] in
/-- Where the images hold the prices of the operators, an airline reads these. -/
theorem HoldsItinerary.samePrices {lOnDDate : OnDDate γ (NetLegCabin α κ)} {lDemand : PathDemand γ}
    {bidPrice : NetLegCabin α κ → ℝ} (h : HoldsItinerary airline itinerary lOnDDate lDemand)
    (hagreed : ∀ flown ∈ itinerary, flown.operator ≠ airline → ∀ key ∈ flown.legCabins,
      bidPrice (.image ⟨airline, key⟩) = bidPrice (.operated key)) :
    SamePrices bidPrice (itinerary.map flownSegment) lOnDDate lDemand := by
  obtain ⟨-, -, hsegments⟩ := h
  rw [SamePrices, List.forall₂_map_left_iff]
  generalize pathSegments lOnDDate lDemand = segments at hsegments ⊢
  induction hsegments with
  | nil => exact .nil
  | @cons flown segment _ _ hsegment _ ih =>
    refine .cons ?_ (ih fun flown hflown => hagreed flown (List.mem_cons_of_mem _ hflown))
    obtain ⟨hcabin, hholds⟩ := hsegment
    by_cases hown : flown.operator = airline
    · rw [if_pos hown] at hholds
      refine ⟨flown.legCabins.map .operated, ?_, rfl⟩
      rw [hholds.1, hcabin]
      exact hholds.2
    · rw [if_neg hown] at hholds
      obtain ⟨operating, hoperating, hlegs⟩ := hholds
      refine ⟨flown.legCabins.map fun key => .image ⟨airline, key⟩, ?_, ?_⟩
      · rw [hoperating, hcabin]
        exact hlegs
      · rw [flownSegment, List.map_map, List.map_map]
        exact List.map_congr_left fun key hkey => hagreed flown List.mem_cons_self hown key hkey

/-- An airline that is sent the bid prices of an itinerary reads those of the operators. -/
theorem advancedCooperation_samePrices {lOnDDate : OnDDate γ (NetLegCabin α κ)} {lDemand : PathDemand γ}
    (hupdate : env.UpdatesFromVector)
    (h : optimiseOnDUsingAdvancedRMCooperation env lDate inventories state = .ok (⟨⟩, out))
    (hholds : HoldsItinerary airline itinerary lOnDDate lDemand)
    (hsent : ∀ flown ∈ itinerary, flown.operator ≠ airline → ∀ key ∈ flown.legCabins,
      ∃ inventory ∈ inventories, ⟨airline, key⟩ ∈ sentImages env lDate inventory) :
    SamePrices (bidPriceOf out) (itinerary.map flownSegment) lOnDDate lDemand := by
  obtain ⟨lMaxBPVariation, before, -, hpass⟩ := advancedCooperation_passes h
  refine hholds.samePrices fun flown hmem hother key hkey => ?_
  obtain ⟨inventory, hinventory, hsent⟩ := hsent flown hmem hother key hkey
  exact networkPass_agrees hupdate hpass inventory hinventory _ hsent

omit [DecidableEq κ] in
/-- **Partners share out a yield** at bid prices that they all read alike. -/
theorem partners_share {bidPrice : NetLegCabin α κ → ℝ} {onD : α → OnDDate γ (NetLegCabin α κ)} {demand : α → PathDemand γ}
    {lYield : ℝ} (hflown : ∀ flown ∈ itinerary, flown.operator ∈ airlines ∧ flown.legCabins ≠ [])
    (hholds : ∀ airline ∈ airlines, HoldsItinerary airline itinerary (onD airline) (demand airline) ∧
      (demand airline).yield = lYield)
    (hprices : ∀ airline ∈ airlines, SamePrices bidPrice (itinerary.map flownSegment) (onD airline) (demand airline))
    (htotal : 0 < itineraryBidPrice bidPrice (itinerary.map flownSegment)) :
    (∀ airline ∈ airlines, pathDemandsDYP bidPrice (onD airline) (demand airline) =
      .ok (proratedDemands bidPrice (onD airline) (demand airline))) ∧
    ∑ airline ∈ airlines, handedOver (proratedDemands bidPrice (onD airline) (demand airline)) = lYield := by
  have hlegs : ∀ flown ∈ itinerary.map (flownSegment (γ := γ)), flown.legCabins ≠ [] := by
    intro _ hmem
    obtain ⟨flown, hin, rfl⟩ := List.mem_map.1 hmem
    simpa [flownSegment] using (hflown flown hin).2
  have hoperators : ∀ flown ∈ itinerary.map (flownSegment (γ := γ)), flown.operator ∈ airlines := by
    intro _ hmem
    obtain ⟨flown, hin, rfl⟩ := List.mem_map.1 hmem
    exact (hflown flown hin).1
  have hrun : ∀ airline ∈ airlines, ∃ calls, pathDemandsDYP bidPrice (onD airline) (demand airline) = .ok calls ∧
      operatedDemands (onD airline) (demand airline) (fun _ leg => bidPrice leg /
        itineraryBidPrice bidPrice (itinerary.map flownSegment) * lYield) = .ok calls := by
    intro airline hairline
    obtain ⟨hmirror, hyield⟩ := hholds airline hairline
    obtain ⟨calls, hcalls⟩ := operatedDemands_ok hmirror.mirrors.segments hlegs fun _ leg => bidPrice leg /
      itineraryBidPrice bidPrice (itinerary.map flownSegment) * lYield
    refine ⟨calls, ?_, hcalls⟩
    rw [pathDemandsDYP, if_pos ⟨hmirror.cabins, hmirror.nbOfSegments⟩, totalBidPrice_ok (hprices airline hairline),
      ok_bind, hyield]
    exact hcalls
  have hprorated : ∀ airline ∈ airlines,
      pathDemandsDYP bidPrice (onD airline) (demand airline) =
        .ok (proratedDemands bidPrice (onD airline) (demand airline)) ∧
      operatedDemands (onD airline) (demand airline) (fun _ leg => bidPrice leg /
        itineraryBidPrice bidPrice (itinerary.map flownSegment) * lYield) =
        .ok (proratedDemands bidPrice (onD airline) (demand airline)) := by
    intro airline hairline
    obtain ⟨calls, hcalls, hoperated⟩ := hrun airline hairline
    rw [← pathDemandsDYP_eq hcalls]
    exact ⟨hcalls, hoperated⟩
  refine ⟨fun airline hairline => (hprorated airline hairline).1, ?_⟩
  rw [handedOver_sum _ hoperators (fun airline hairline => (hholds airline hairline).1.mirrors)
    fun airline hairline => (hprorated airline hairline).2]
  exact bidPriceShares_sum htotal

/-- **Advanced RM cooperation shares out the yield.** For an itinerary whose airlines hold the segments of each other
as images that due flight-dates are marketed through, the projections of the airlines at the final bid prices all
succeed, and the yields that they hand to their leg-cabins add up to the yield of the itinerary, where its total bid
price is positive. -/
theorem advancedCooperation_shares {onD : α → OnDDate γ (NetLegCabin α κ)} {demand : α → PathDemand γ} {lYield : ℝ}
    (hupdate : env.UpdatesFromVector)
    (h : optimiseOnDUsingAdvancedRMCooperation env lDate inventories state = .ok (⟨⟩, out))
    (hflown : ∀ flown ∈ itinerary, flown.operator ∈ airlines ∧ flown.legCabins ≠ [])
    (hholds : ∀ airline ∈ airlines, HoldsItinerary airline itinerary (onD airline) (demand airline) ∧
      (demand airline).yield = lYield)
    (hsent : ∀ airline ∈ airlines, ∀ flown ∈ itinerary, flown.operator ≠ airline → ∀ key ∈ flown.legCabins,
      ∃ inventory ∈ inventories, ⟨airline, key⟩ ∈ sentImages env lDate inventory)
    (htotal : 0 < itineraryBidPrice (bidPriceOf out) (itinerary.map flownSegment)) :
    (∀ airline ∈ airlines, pathDemandsDYP (bidPriceOf out) (onD airline) (demand airline) =
      .ok (proratedDemands (bidPriceOf out) (onD airline) (demand airline))) ∧
    ∑ airline ∈ airlines, handedOver (proratedDemands (bidPriceOf out) (onD airline) (demand airline)) = lYield := by
  -- the prices agree, so that all airlines weigh the legs by the same shares
  have hprices : ∀ airline ∈ airlines,
      SamePrices (bidPriceOf out) (itinerary.map flownSegment) (onD airline) (demand airline) :=
    fun airline hairline => advancedCooperation_samePrices hupdate h (hholds airline hairline).1 (hsent airline hairline)
  exact partners_share hflown hholds hprices htotal

end shares

/-! ### The two airlines -/

theorem oneSeatEnv_updates : oneSeatEnv.UpdatesFromVector where
  twice pool vector x := by
    simp only [oneSeatEnv, List.getD_eq_getElem?_getD]
    cases vector[⌊pool⌋.toNat - 1]? <;> rfl
  last pool vector lBP hlast hlength := by
    simp only [oneSeatEnv, List.getD_eq_getElem?_getD, ← hlength]
    rw [← List.getLast?_eq_getElem?, hlast, Option.getD_some]

/-- One pass on the two airlines moves no bid price. -/
theorem advancedCooperation_twoAirlines {γ : Type} {first second : NetInventory ℕ ℕ γ} {state : NetState ℕ ℕ}
    (hflights : first.flightDates = [allianceFlightDate 0] ∧ second.flightDates = [allianceFlightDate 1])
    (hstate : state (.operated (flownLegCabin 0)) = oneLevel ∧ state (.operated (flownLegCabin 1)) = oneLevel)
    (hsend : ∀ s, ∃ t, updateBidPrices oneSeatEnv 0 [first, second] s = .ok (⟨⟩, t))
    (hreset : ∀ s, ∃ t, resetAll oneSeatEnv 0 [first, second] s = .ok (⟨⟩, t))
    (hproject : ∀ s, ∃ t, projectAll oneSeatEnv 0 [first, second] s = .ok (⟨⟩, t)) :
    ∃ out, optimiseOnDUsingAdvancedRMCooperation oneSeatEnv 0 [first, second] state = .ok (⟨⟩, out) ∧
      ∀ airline, airline = 0 ∨ airline = 1 → bidPriceOf out (.operated (flownLegCabin airline)) = 1 := by
  obtain ⟨between, hfirst, hprice, hothers⟩ := optimiseFlightDates_alliance hflights.1 hstate.1
  have hne : (NetLegCabin.operated (flownLegCabin 1) : NetLegCabin ℕ ℕ) ≠ .operated (flownLegCabin 0) := by decide
  obtain ⟨optimised, hsecond, hprice', hothers'⟩ :=
    optimiseFlightDates_alliance hflights.2 ((hothers _ hne).trans hstate.2)
  have hoptimise : [first, second].foldlM (optimiseFlightDates oneSeatEnv 0) 0 state = .ok (0, optimised) :=
    foldlM_cons_ok.2 ⟨0, between, hfirst, foldlM_cons_ok.2 ⟨0, optimised, hsecond, pure_ok.2 ⟨rfl, rfl⟩⟩⟩
  obtain ⟨updated, hupdate⟩ := hsend optimised
  obtain ⟨emptied, hreset⟩ := hreset updated
  obtain ⟨out, hproject⟩ := hproject emptied
  have hpass : networkPass oneSeatEnv 0 [first, second] state = .ok (0, out) :=
    bind_ok.2 ⟨0, optimised, hoptimise, bind_ok.2 ⟨⟨⟩, updated, hupdate, bind_ok.2 ⟨⟨⟩, emptied, hreset,
      bind_ok.2 ⟨⟨⟩, out, hproject, pure_ok.2 ⟨rfl, rfl⟩⟩⟩⟩⟩
  have hloop : loop (fun lMaxBPVariation => 0.01 < lMaxBPVariation) (networkPass oneSeatEnv 0 [first, second]) 50 1 state =
      .ok (0, out) := by
    rw [loop, if_pos (by norm_num)]
    refine bind_ok.2 ⟨0, out, hpass, ?_⟩
    rw [loop, if_neg (by norm_num)]
    exact pure_ok.2 ⟨rfl, rfl⟩
  refine ⟨out, bind_ok.2 ⟨0, out, hloop, pure_ok.2 ⟨rfl, rfl⟩⟩, fun airline hairline => ?_⟩
  have hkept : bidPriceOf out (.operated (flownLegCabin airline)) =
      bidPriceOf optimised (.operated (flownLegCabin airline)) := by
    have hdue : ∀ inventory ∈ [first, second], inventory.flightDates = [allianceFlightDate airline] →
        (updated (.operated (flownLegCabin airline))).bidPrices =
          (optimised (.operated (flownLegCabin airline))).bidPrices := by
      intro inventory hmem hflight
      have hdue : allianceFlightDate airline ∈ dueFlightDates oneSeatEnv 0 inventory := by
        rw [dueFlightDates, hflight]
        exact List.mem_cons_self
      exact (updateBidPrices_due oneSeatEnv_updates hoptimise hupdate inventory hmem (allianceFlightDate airline) hdue
        (flownLegCabin airline) List.mem_cons_self).bidPrices
    rw [bidPriceOf, bidPriceOf, resetProject_bidPrices hreset hproject]
    rcases hairline with rfl | rfl
    · rw [hdue first (by simp) hflights.1]
    · rw [hdue second (by simp) hflights.2]
  rw [hkept]
  rcases hairline with rfl | rfl
  · rw [bidPriceOf, hothers' _ hne.symm]
    exact hprice
  · exact hprice'

theorem advancedCooperation_alliance :
    ∃ out, optimiseOnDUsingAdvancedRMCooperation oneSeatEnv 0 alliance (fun _ => oneLevel) = .ok (⟨⟩, out) ∧
      ∀ airline, airline = 0 ∨ airline = 1 → bidPriceOf out (.operated (flownLegCabin airline)) = 1 :=
  advancedCooperation_twoAirlines ⟨rfl, rfl⟩ ⟨rfl, rfl⟩ (fun _ => ⟨_, rfl⟩) (fun _ => ⟨_, rfl⟩) fun _ => ⟨_, rfl⟩

theorem heldLegCabin_sent (airline : ℕ) (hairline : airline = 0 ∨ airline = 1) :
    heldLegCabin (1 - airline) airline ∈ sentImages oneSeatEnv 0 (allianceInventory airline) := by
  rcases hairline with rfl | rfl <;> decide

theorem advancedCooperation_agrees_alliance :
    ∃ out, optimiseOnDUsingAdvancedRMCooperation oneSeatEnv 0 alliance (fun _ => oneLevel) = .ok (⟨⟩, out) ∧
      bidPriceOf out (.image (heldLegCabin 1 0)) = bidPriceOf out (.operated (flownLegCabin 0)) ∧
      InSync oneSeatEnv 0 (allianceInventory 0) out (flownLegCabin 0) := by
  obtain ⟨out, hrun, -⟩ := advancedCooperation_alliance
  obtain ⟨lMaxBPVariation, -, hends⟩ := advancedCooperation_agrees alliance_codes oneSeatEnv_updates hrun
  obtain ⟨hagreed, hdue⟩ := hends (allianceInventory 0) List.mem_cons_self
  refine ⟨out, hrun, hagreed _ (heldLegCabin_sent 0 (.inl rfl)), ?_⟩
  exact (hdue (allianceFlightDate 0) List.mem_cons_self (flownLegCabin 0) List.mem_cons_self).2

def allianceItinerary : List (OperatedSegment ℕ Unit (LegCabinKey ℕ ℕ)) :=
  [⟨0, (), [flownLegCabin 0]⟩, ⟨1, (), [flownLegCabin 1]⟩]

theorem alliance_holds : ∀ airline ∈ ({0, 1} : Finset ℕ), HoldsItinerary airline allianceItinerary
    (allianceOnDDate airline) ⟨[(), ()], 1, 1, 0⟩ ∧ (1 : ℝ) = 1 := by
  intro airline hairline
  refine ⟨⟨rfl, rfl, ?_⟩, rfl⟩
  rw [Finset.mem_insert, Finset.mem_singleton] at hairline
  rcases hairline with rfl | rfl <;>
    simp [allianceItinerary, pathSegments, allianceOnDDate, allianceSegment, HoldsSegment, heldLegCabin]

theorem alliance_sent : ∀ airline ∈ ({0, 1} : Finset ℕ), ∀ flown ∈ allianceItinerary, flown.operator ≠ airline →
    ∀ key ∈ flown.legCabins, ∃ inventory ∈ alliance, ⟨airline, key⟩ ∈ sentImages oneSeatEnv 0 inventory := by
  intro airline hairline flown hflown hother key hkey
  rw [Finset.mem_insert, Finset.mem_singleton] at hairline
  have hcases : flown = ⟨0, (), [flownLegCabin 0]⟩ ∨ flown = ⟨1, (), [flownLegCabin 1]⟩ := by
    simpa [allianceItinerary] using hflown
  rcases hcases with rfl | rfl <;> obtain rfl := List.mem_singleton.1 hkey <;> rcases hairline with rfl | rfl
  · exact absurd rfl hother
  · exact ⟨allianceInventory 0, by simp [alliance], heldLegCabin_sent 0 (.inl rfl)⟩
  · exact ⟨allianceInventory 1, by simp [alliance], heldLegCabin_sent 1 (.inr rfl)⟩
  · exact absurd rfl hother

theorem advancedCooperation_shares_alliance :
    ∃ out, optimiseOnDUsingAdvancedRMCooperation oneSeatEnv 0 alliance (fun _ => oneLevel) = .ok (⟨⟩, out) ∧
      ∑ airline ∈ ({0, 1} : Finset ℕ), handedOver (proratedDemands (bidPriceOf out) (allianceOnDDate airline)
        ⟨[(), ()], 1, 1, 0⟩) = 1 := by
  obtain ⟨out, hrun, hprices⟩ := advancedCooperation_alliance
  have hflown : ∀ flown ∈ allianceItinerary, flown.operator ∈ ({0, 1} : Finset ℕ) ∧ flown.legCabins ≠ [] := by
    simp [allianceItinerary]
  have htotal : 0 < itineraryBidPrice (bidPriceOf out) (allianceItinerary.map flownSegment) := by
    norm_num [itineraryBidPrice, allianceItinerary, flownSegment, hprices]
  exact ⟨out, hrun, (advancedCooperation_shares oneSeatEnv_updates hrun hflown alliance_holds alliance_sent htotal).2⟩

end Rmol
