import Rmol.Lib.Records
import Rmol.OnDForecastStore
import Rmol.ProjectionTechniques
/-!
# RM events with partnerships (`RMOL_Service.cpp:629-728`)

| here | there |
| --- | --- |
| `PartnershipTechnique`  | the techniques that have a branch (`:681-719`) |
| `projectUsing`          | the projections of an inventory (`:1310-1511`) |
| `eventCommands`         | what follows the forecast in a branch (`:683-718`) |
| `demandInfoMap`         | `getDemandInfoMap`, in the order of its keys |
| `freshEvent`            | a branch after its test of the date |
| `optimiseWithPartners`  | `RMOL_Service::optimise` with a partnership (`:629`) |

The first event of a date forecasts all due O&D dates, projects their demand on the leg-cabins and optimises these, for
all airlines; another event of the date, or of an earlier one, does nothing. So a run of events ends as the run of its
records (`optimiseEventsWithPartners_eq`), and what the commands of the last record leave holds at its end, whatever the
techniques of the others: the demand maps of the due leg-cabins hold its projection (`eventRun_inSync`).

The O&D dates are found under the names of the forecast, `ω`; their demand info maps are what the forecasts have stored.
-/

namespace Rmol

open Locality Records Runs

variable {α κ π ω γ σ : Type}

/-! ## The model -/

/-- The branch without partnership is that of `LegBasedEvents`. -/
inductive PartnershipTechnique where
  | RAE_DA
  | IBP_DA
  | RAE_YP
  | IBP_YP
  | IBP_YP_U
  | RMC
  | A_RMC
deriving DecidableEq, Repr

structure PartnershipEvent where
  date : Date
  technique : PartnershipTechnique
deriving DecidableEq

inductive EventRunFault where
  | store (fault : StoreFault)
  | command (fault : ServiceFault)

/-- What the forecast and the commands read of the bom tree. -/
structure ServiceEnv (α κ π ω γ σ : Type) extends OnDForecastEnv α π ω γ σ where
  net : NetEnv α κ
  sameDCPList : net.lDCPList = lDCPList
  bookingClassYield : SegmentDate (γ × σ) (NetLegCabin α κ) → γ × σ → Option ℝ
  flightDates : α → List (NetFlightDate α κ)
  nbOfSegments : ω → ℕ
  segments : ω → List (OnDSegment (γ × σ) (NetLegCabin α κ))
  /-- The string that is the key of a path in a demand info map. -/
  pathKey : CabinClassPath γ σ → String
  flightDates_own : ∀ airline, ∀ lFlightDate ∈ flightDates airline, lFlightDate.airlineCode = airline
  segments_own : ∀ lOnDDate, ∀ segment ∈ segments lOnDDate, ∀ cabin, ∀ legs ∈ segment.own.legCabins cabin,
    ∀ leg ∈ legs, leg ∈ ownCells (bom.airlineCode lOnDDate)
  pathKey_injective : Function.Injective pathKey

structure ServiceState (α κ ω γ σ : Type) where
  previousForecastDate : Date
  demands : DemandInfo ω γ σ
  network : NetState α κ

/-- The projection of a branch. -/
def PartnershipTechnique.projection : PartnershipTechnique → Technique
  | .RAE_DA | .IBP_DA => .aggregated
  | .RAE_YP | .IBP_YP | .IBP_YP_U => .YP
  | .RMC | .A_RMC => .DYP

section commands
variable [DecidableEq α] [DecidableEq κ] (env : NetEnv α κ)
  (bookingClassYield : SegmentDate γ (NetLegCabin α κ) → γ → Option ℝ) (lDate : Date)

noncomputable def projectUsing (technique : Technique) (inventory : NetInventory α κ γ) : RMOp α κ PUnit := fun state =>
  match projectOnDDemand ⟨bookingClassYield, bidPriceOf state⟩ technique env.lDCPList lDate env.addDemandInformation
    inventory.toInventory (demandMaps state) with
  | .error (.projection fault) => .error (.projection fault)
  | .error .noBookingClass => .error .noBookingClass
  | .ok maps => .ok (⟨⟩, withDemandMaps state maps)

noncomputable def projectThenOptimise (technique : Technique) (inventories : List (NetInventory α κ γ)) :
    RMOp α κ PUnit := do
  resetAll env lDate inventories
  onInventories inventories (projectUsing env bookingClassYield lDate technique)
  optimiseOnD env lDate inventories

noncomputable def eventCommands (inventories : List (NetInventory α κ γ)) : PartnershipTechnique → RMOp α κ PUnit
  | .RAE_DA | .IBP_DA => projectThenOptimise env bookingClassYield lDate .aggregated inventories
  | .RAE_YP | .IBP_YP | .IBP_YP_U => projectThenOptimise env bookingClassYield lDate .YP inventories
  | .RMC => do
    resetAll env lDate inventories
    updateBidPrices env lDate inventories
    projectAll env lDate inventories
    optimiseOnDUsingRMCooperation env lDate inventories
  | .A_RMC => do
    resetAll env lDate inventories
    updateBidPrices env lDate inventories
    projectAll env lDate inventories
    optimiseOnDUsingAdvancedRMCooperation env lDate inventories

end commands

open Classical in
/-- The paths that an O&D date has demand for. -/
noncomputable def storedPaths (pathKey : CabinClassPath γ σ → String) (demands : CabinClassPath γ σ → Option YieldDemand) :
    List (CabinClassPath γ σ) :=
  if h : {path | demands path ≠ none}.Finite then
    h.toFinset.toList.insertionSort fun path path' => pathKey path ≤ pathKey path'
  else []

/-- An entry of a demand info map as the projections read it. -/
def pathDemand (path : CabinClassPath γ σ) (lYieldDemand : YieldDemand) : PathDemand (γ × σ) :=
  ⟨path, lYieldDemand.yield, lYieldDemand.mean, lYieldDemand.stdDev⟩

noncomputable def demandInfoMap (pathKey : CabinClassPath γ σ → String)
    (demands : CabinClassPath γ σ → Option YieldDemand) : List (PathDemand (γ × σ)) :=
  (storedPaths pathKey demands).filterMap fun path => (demands path).map (pathDemand path)

theorem mem_storedPaths {pathKey : CabinClassPath γ σ → String} {demands : CabinClassPath γ σ → Option YieldDemand}
    (hfinite : {path | demands path ≠ none}.Finite) {path : CabinClassPath γ σ} :
    path ∈ storedPaths pathKey demands ↔ demands path ≠ none := by
  rw [storedPaths, dif_pos hfinite, List.mem_insertionSort, Finset.mem_toList, Set.Finite.mem_toFinset]
  rfl

theorem storedPaths_single {pathKey : CabinClassPath γ σ → String} {demands : CabinClassPath γ σ → Option YieldDemand}
    {path : CabinClassPath γ σ} (h : ∀ path', demands path' ≠ none ↔ path' = path) :
    storedPaths pathKey demands = [path] := by
  have hpaths : {path' | demands path' ≠ none} = {path} := Set.ext h
  have hfinite : {path' | demands path' ≠ none}.Finite := hpaths ▸ Set.finite_singleton path
  rw [storedPaths, dif_pos hfinite, toFinset_eq_singleton h, Finset.toList_singleton]
  rfl

section service
variable (env : ServiceEnv α κ π ω γ σ)

noncomputable def ServiceEnv.onDDate (demands : DemandInfo ω γ σ) (lOnDDate : ω) :
    OnDDate (γ × σ) (NetLegCabin α κ) where
  date := env.bom.date lOnDDate
  nbOfSegments := env.nbOfSegments lOnDDate
  segments := env.segments lOnDDate
  demandInfoMap := demandInfoMap env.pathKey fun path => demands (lOnDDate, path)

noncomputable def ServiceEnv.inventory (demands : DemandInfo ω γ σ)
    (inventory : { inventory // inventory ∈ env.bom.inventories }) : NetInventory α κ (γ × σ) where
  airlineCode := inventory.1.airlineCode
  flightDates := env.flightDates inventory.1.airlineCode
  onDDates := inventory.1.onDDates.map (env.onDDate demands)
  flightDates_own := env.flightDates_own _
  segments_own := by
    rw [List.forall_mem_map]
    intro lOnDDate hmem
    rw [← env.bom.airlineCode_of_mem inventory.1 inventory.2 lOnDDate hmem]
    exact env.segments_own lOnDDate

noncomputable def ServiceEnv.inventories (demands : DemandInfo ω γ σ) : List (NetInventory α κ (γ × σ)) :=
  env.bom.inventories.attach.map (env.inventory demands)

variable [DecidableEq α] [DecidableEq κ] [DecidableEq π] [DecidableEq ω]

noncomputable def freshEvent (st : ServiceState α κ ω γ σ) (event : PartnershipEvent) :
    Except EventRunFault (ServiceState α κ ω γ σ) := do
  let demands ← (forecastOnDAt env.toOnDForecastEnv event.date st.demands).mapError .store
  let (_, network) ← (eventCommands env.net env.bookingClassYield event.date (env.inventories demands) event.technique
    st.network).mapError .command
  return ⟨event.date, demands, network⟩

noncomputable def optimiseWithPartners (st : ServiceState α κ ω γ σ) (event : PartnershipEvent) :
    Except EventRunFault (ServiceState α κ ω γ σ) :=
  if st.previousForecastDate < event.date then freshEvent env st event
  else return st

/-- Events one after another. -/
noncomputable def optimiseEventsWithPartners (events : List PartnershipEvent) (st : ServiceState α κ ω γ σ) :
    Except EventRunFault (ServiceState α κ ω γ σ) :=
  events.foldlM (optimiseWithPartners env) st

end service

/-! ## Runs and their records -/

section records
variable [DecidableEq α] [DecidableEq κ] [DecidableEq π] [DecidableEq ω]
  {env : ServiceEnv α κ π ω γ σ} {st out : ServiceState α κ ω γ σ} {events : List PartnershipEvent}
  {event : PartnershipEvent}

/-- The parts of an event. -/
theorem freshEvent_ok (h : freshEvent env st event = .ok out) : out.previousForecastDate = event.date ∧
    forecastOnDAt env.toOnDForecastEnv event.date st.demands = .ok out.demands ∧
    eventCommands env.net env.bookingClassYield event.date (env.inventories out.demands) event.technique st.network =
      .ok (⟨⟩, out.network) := by
  obtain ⟨demands, hdemands, h⟩ := bind_eq_ok.1 h
  obtain ⟨⟨⟨⟩, network⟩, hnetwork, h⟩ := bind_eq_ok.1 h
  obtain rfl := Except.ok.inj h
  exact ⟨rfl, mapError_eq_ok hdemands, mapError_eq_ok hnetwork⟩

/-- The events of a run that do something. -/
abbrev freshEvents (st : ServiceState α κ ω γ σ) (events : List PartnershipEvent) : List PartnershipEvent :=
  records PartnershipEvent.date st.previousForecastDate events

/-- **A run of events** is that of its records. -/
theorem optimiseEventsWithPartners_eq (events : List PartnershipEvent) (st : ServiceState α κ ω γ σ) :
    optimiseEventsWithPartners env events st = (freshEvents st events).foldlM (freshEvent env) st :=
  foldlM_guarded PartnershipEvent.date ServiceState.previousForecastDate (fun _ _ => rfl)
    (fun _ _ _ h => (freshEvent_ok h).1) events st

/-- It ends with the last one of them. -/
theorem eventRun_last (h : optimiseEventsWithPartners env events st = .ok out)
    (hlast : (freshEvents st events).getLast? = some event) : ∃ before, freshEvent env before event = .ok out := by
  rw [optimiseEventsWithPartners_eq] at h
  obtain ⟨before, -, hevent⟩ := foldlM_getLast? hlast h
  exact ⟨before, hevent⟩

end records

/-! ## What the projections leave -/

section projections
variable [DecidableEq α] [DecidableEq κ] {env : NetEnv α κ}
  {bookingClassYield : SegmentDate γ (NetLegCabin α κ) → γ → Option ℝ} {lDate : Date} {technique : Technique}
  {inventory : NetInventory α κ γ} {inventories : List (NetInventory α κ γ)} {state between out : NetState α κ}

/-- The calls of the projection of an inventory at the bid prices of a state. -/
noncomputable def callsOf (env : NetEnv α κ) (bookingClassYield : SegmentDate γ (NetLegCabin α κ) → γ → Option ℝ)
    (lDate : Date) (technique : Technique) (inventory : NetInventory α κ γ) (state : NetState α κ) :
    Except TechniqueFault (List (DemandCall (NetLegCabin α κ))) :=
  dueCalls ⟨bookingClassYield, bidPriceOf state⟩ technique env.lDCPList lDate inventory.toInventory

/-- The demand map of a leg-cabin holds what the projection hands out at the bid prices of the state, and nothing
else. -/
def HoldsProjection (env : NetEnv α κ) (bookingClassYield : SegmentDate γ (NetLegCabin α κ) → γ → Option ℝ)
    (lDate : Date) (technique : Technique) (inventory : NetInventory α κ γ) (state : NetState α κ)
    (leg : NetLegCabin α κ) : Prop :=
  ∃ calls, callsOf env bookingClassYield lDate technique inventory state = .ok calls ∧
    demandMaps state leg = addCalls env.addDemandInformation (fun _ => none) (callsOn calls leg)

/-- The demand maps of the due leg-cabins hold what the projection of their airline hands out. -/
def AllHold (env : NetEnv α κ) (bookingClassYield : SegmentDate γ (NetLegCabin α κ) → γ → Option ℝ) (lDate : Date)
    (technique : Technique) (inventories : List (NetInventory α κ γ)) (state : NetState α κ) : Prop :=
  ∀ inventory ∈ inventories, ∀ lFlightDate ∈ dueFlightDates env lDate inventory, ∀ key ∈ lFlightDate.keys,
    HoldsProjection env bookingClassYield lDate technique inventory state (.operated key)

theorem projectUsing_ok : projectUsing env bookingClassYield lDate technique inventory state = .ok (⟨⟩, out) ↔
    ∃ calls, callsOf env bookingClassYield lDate technique inventory state = .ok calls ∧
      out = withDemandMaps state (addDemands env.addDemandInformation calls (demandMaps state)) := by
  unfold projectUsing projectOnDDemand callsOf
  cases hcalls : dueCalls ⟨bookingClassYield, bidPriceOf state⟩ technique env.lDCPList lDate inventory.toInventory with
  | error fault =>
    refine iff_of_false ?_ (by simp)
    cases fault <;> intro h <;> cases h
  | ok calls =>
    constructor
    · intro h
      obtain ⟨-, rfl⟩ := Prod.mk.inj (Except.ok.inj h)
      exact ⟨calls, rfl, rfl⟩
    · rintro ⟨calls', h, rfl⟩
      obtain rfl := Except.ok.inj h
      rfl

/-- The dynamic projection is that of RM cooperation. -/
theorem projectUsingDYP_eq (bookingClassYield : SegmentDate γ (NetLegCabin α κ) → γ → Option ℝ) :
    projectUsingDYP env lDate inventory = projectUsing env bookingClassYield lDate .DYP inventory := by
  funext state
  unfold projectUsingDYP onMaps projectUsing projectOnDDemand projectOnDDemandOnLegCabinsUsingDYP
  rw [dueCalls_DYP]
  cases hcalls : projectedDemands (pathDemandsDYP (bidPriceOf state)) env.lDCPList lDate inventory.toInventory with
  | error fault => simp only [hcalls]; rfl
  | ok calls => simp only [hcalls]; rfl

theorem projectAll_eq (bookingClassYield : SegmentDate γ (NetLegCabin α κ) → γ → Option ℝ) :
    projectAll env lDate inventories = onInventories inventories (projectUsing env bookingClassYield lDate .DYP) :=
  congrArg (onInventories inventories) (funext fun _ => projectUsingDYP_eq bookingClassYield)

omit [DecidableEq α] [DecidableEq κ] in
theorem callsOf_congr (h : bidPriceOf between = bidPriceOf state) :
    callsOf env bookingClassYield lDate technique inventory between =
      callsOf env bookingClassYield lDate technique inventory state := by
  rw [callsOf, h]
  rfl

omit [DecidableEq α] [DecidableEq κ] in
/-- A leg-cabin only receives demand from the airline that operates it. -/
theorem callsOf_own {calls : List (DemandCall (NetLegCabin α κ))}
    (h : callsOf env bookingClassYield lDate technique inventory state = .ok calls) :
    ∀ call ∈ calls, call.legCabin ∈ ownCells inventory.airlineCode := by
  intro call hcall
  have hshare : call.demand ∈ dueShares env.lDCPList lDate inventory.toInventory :=
    dueCalls_demand h ▸ List.mem_map_of_mem hcall
  simp only [dueShares, operatedShares, List.mem_flatMap, List.mem_filter, List.mem_map] at hshare
  obtain ⟨lOnDDate, ⟨hmem, -⟩, lDemand, -, segment, hsegment, leg, hleg, hdemand⟩ := hshare
  obtain rfl : leg = call.legCabin := congrArg Prod.fst hdemand
  obtain ⟨-, legs, hlegs, hin⟩ := mem_operatedLegCabins hleg
  exact inventory.segments_own lOnDDate hmem segment.1 (List.of_mem_zip hsegment).1 segment.2 legs hlegs _ hin

/-! ### All inventories -/

/-- A projection only writes demand maps. -/
theorem projectUsing_frame (h : projectUsing env bookingClassYield lDate technique inventory state = .ok (⟨⟩, out)) :
    out = withDemandMaps state (demandMaps out) := by
  obtain ⟨calls, -, rfl⟩ := projectUsing_ok.1 h
  rfl

theorem forM_projectUsing_frame
    (h : forM inventories (projectUsing env bookingClassYield lDate technique) state = .ok (⟨⟩, out)) :
    out = withDemandMaps state (demandMaps out) := by
  refine forM_invariant (P := fun t => t = withDemandMaps state (demandMaps t)) (fun _ _ s t hs hstep => ?_) rfl h
  rw [projectUsing_frame hstep, hs]
  rfl

/-- The projection of another airline leaves a leg-cabin as it is. -/
theorem projectUsing_other (h : projectUsing env bookingClassYield lDate technique inventory state = .ok (⟨⟩, out))
    {airline : α} (hne : airline ≠ inventory.airlineCode) {leg : NetLegCabin α κ} (hleg : leg ∈ ownCells airline) :
    demandMaps out leg = demandMaps state leg := by
  obtain ⟨calls, hcalls, rfl⟩ := projectUsing_ok.1 h
  refine (addDemands_leg calls _ leg).trans ?_
  rw [callsOn_eq_nil]
  · rfl
  · rintro call hcall rfl
    exact notMem_of_mem_ownCells hne _ hleg (.inl (callsOf_own hcalls call hcall))

/-- The projections of all inventories add the calls of each to the leg-cabins of its airline. -/
theorem forM_projectUsing_apply (hcodes : (inventories.map NetInventory.airlineCode).Nodup)
    (h : forM inventories (projectUsing env bookingClassYield lDate technique) state = .ok (⟨⟩, out))
    (hmem : inventory ∈ inventories) {leg : NetLegCabin α κ} (hleg : leg ∈ ownCells inventory.airlineCode) :
    ∃ calls, callsOf env bookingClassYield lDate technique inventory state = .ok calls ∧
      demandMaps out leg = addCalls env.addDemandInformation (demandMaps state leg) (callsOn calls leg) := by
  induction inventories generalizing state with
  | nil => cases hmem
  | cons first inventories ih =>
    obtain ⟨between, hfirst, hrest⟩ := forM_cons_ok.1 h
    rw [List.map_cons, List.nodup_cons] at hcodes
    rcases List.mem_cons.1 hmem with rfl | hmem
    · obtain ⟨calls, hcalls, rfl⟩ := projectUsing_ok.1 hfirst
      refine ⟨calls, hcalls, ?_⟩
      have hkept : demandMaps out leg = addDemands env.addDemandInformation calls (demandMaps state) leg := by
        refine forM_invariant
          (P := fun t => demandMaps t leg = addDemands env.addDemandInformation calls (demandMaps state) leg)
          (fun other hother s t hs hstep => ?_) rfl hrest
        have hne : inventory.airlineCode ≠ other.airlineCode := by
          intro hcode
          exact hcodes.1 (hcode ▸ List.mem_map_of_mem hother)
        exact (projectUsing_other hstep hne hleg).trans hs
      rw [hkept]
      exact addDemands_leg calls _ leg
    · obtain ⟨calls, hcalls, hmap⟩ := ih hcodes.2 hrest hmem
      refine ⟨calls, (callsOf_congr (congrArg bidPriceOf (projectUsing_frame hfirst))).symm.trans hcalls, ?_⟩
      have hne : inventory.airlineCode ≠ first.airlineCode := by
        intro hcode
        exact hcodes.1 (hcode ▸ List.mem_map_of_mem hmem)
      rw [hmap, projectUsing_other hfirst hne hleg]

/-- A reset and a projection of all inventories. -/
theorem resetThenProjectAll_holds (hcodes : (inventories.map NetInventory.airlineCode).Nodup)
    (hreset : resetAll env lDate inventories state = .ok (⟨⟩, between))
    (hproject : onInventories inventories (projectUsing env bookingClassYield lDate technique) between = .ok (⟨⟩, out)) :
    AllHold env bookingClassYield lDate technique inventories out := by
  intro inventory hmem lFlightDate hdue key hkey
  have hleg : NetLegCabin.operated key ∈ (dueLegDates env.lDCPList lDate inventory.toInventory).flatten :=
    mem_dueLegDates.2 ⟨lFlightDate, hdue, key, hkey, rfl⟩
  have hrun := onInventories_ok hproject
  obtain ⟨calls, hcalls, hmap⟩ := forM_projectUsing_apply hcodes hrun hmem (dueLegDates_own hleg)
  refine ⟨calls, (callsOf_congr (congrArg bidPriceOf (forM_projectUsing_frame hrun))).trans hcalls, ?_⟩
  rw [hmap, resetAll_empties hreset inventory hmem _ hleg]

/-! ### The commands -/

theorem optimiseOnD_demandMaps (h : optimiseOnD env lDate inventories state = .ok (⟨⟩, out)) :
    demandMaps out = demandMaps state := by
  refine forM_invariant (P := fun t => demandMaps t = demandMaps state) (fun inventory _ s t hs hrun => ?_) rfl h
  refine forM_invariant (P := fun t => demandMaps t = demandMaps state) (fun lFlightDate _ s t hs hflight => ?_) hs hrun
  obtain ⟨lMaxBPVariation, between, hlegs, hend⟩ := bind_ok.1 hflight
  obtain ⟨-, rfl⟩ := pure_ok.1 hend
  refine foldlM_invariant (P := fun _ t => demandMaps t = demandMaps state) (fun key _ v s w t hs hstep => ?_) hs hlegs
  obtain ⟨lBPVariation, after, hleg, hend⟩ := bind_ok.1 hstep
  obtain ⟨-, rfl⟩ := pure_ok.1 hend
  obtain ⟨lLC, -, rfl⟩ := optimiseNetLegCabin_ok.1 hleg
  rw [← hs]
  funext leg
  by_cases hkey : leg = .operated key
  · subst hkey
    simp only [demandMaps, Function.update_self]
  · simp only [demandMaps, Function.update_of_ne hkey]

/-- Without displacement adjustment and dynamic proration the bid prices do not count. -/
theorem projectThenOptimise_holds (hstatic : technique = .aggregated ∨ technique = .YP)
    (hcodes : (inventories.map NetInventory.airlineCode).Nodup)
    (h : projectThenOptimise env bookingClassYield lDate technique inventories state = .ok (⟨⟩, out)) :
    AllHold env bookingClassYield lDate technique inventories out := by
  obtain ⟨⟨⟩, emptied, hreset, h⟩ := bind_ok.1 h
  obtain ⟨⟨⟩, projected, hproject, hoptimise⟩ := bind_ok.1 h
  intro inventory hmem lFlightDate hdue key hkey
  obtain ⟨calls, hcalls, hmap⟩ := resetThenProjectAll_holds hcodes hreset hproject inventory hmem lFlightDate hdue key hkey
  have hsame : callsOf env bookingClassYield lDate technique inventory out =
      callsOf env bookingClassYield lDate technique inventory projected := by
    rcases hstatic with rfl | rfl <;> rfl
  refine ⟨calls, hsame.trans hcalls, ?_⟩
  rw [optimiseOnD_demandMaps hoptimise, hmap]

theorem networkPass_holds (hcodes : (inventories.map NetInventory.airlineCode).Nodup) {lMaxBPVariation : ℝ}
    (h : networkPass env lDate inventories state = .ok (lMaxBPVariation, out)) :
    AllHold env bookingClassYield lDate .DYP inventories out := by
  obtain ⟨optimised, updated, emptied, -, -, hreset, hproject⟩ := networkPass_ok h
  rw [projectAll_eq bookingClassYield] at hproject
  exact resetThenProjectAll_holds hcodes hreset hproject

theorem cooperate_holds {lMaxBPVariation : ℝ} (h : cooperate env lDate inventory state = .ok (lMaxBPVariation, out)) :
    AllHold env bookingClassYield lDate .DYP [inventory] out := by
  obtain ⟨before, hpass⟩ := loop_last (by norm_num) (by norm_num) h
  obtain ⟨v, optimised, -, h⟩ := bind_ok.1 hpass
  obtain ⟨⟨⟩, emptied, hreset, h⟩ := bind_ok.1 h
  obtain ⟨⟨⟩, projected, hproject, hend⟩ := bind_ok.1 h
  obtain ⟨-, rfl⟩ := pure_ok.1 hend
  rw [projectUsingDYP_eq bookingClassYield] at hproject
  exact resetThenProjectAll_holds (List.nodup_singleton _) (forM_cons_ok.2 ⟨emptied, hreset, forM_nil_ok.2 rfl⟩)
    (forM_cons_ok.2 ⟨out, hproject, forM_nil_ok.2 rfl⟩)

/-- What a demand map holds only depends on the leg-cabins of its airline and the images that this holds. -/
theorem HoldsProjection.agree (himages : inventory.ReadsItsImages)
    (hagree : Agree (ownCells inventory.airlineCode ∪ heldImages inventory.airlineCode) out state)
    {leg : NetLegCabin α κ} (hleg : leg ∈ ownCells inventory.airlineCode)
    (h : HoldsProjection env bookingClassYield lDate .DYP inventory state leg) :
    HoldsProjection env bookingClassYield lDate .DYP inventory out leg := by
  obtain ⟨calls, hcalls, hmap⟩ := h
  refine ⟨calls, ?_, ?_⟩
  · have hprices : projectedDemands (pathDemandsDYP (bidPriceOf out)) env.lDCPList lDate inventory.toInventory =
        projectedDemands (pathDemandsDYP (bidPriceOf state)) env.lDCPList lDate inventory.toInventory :=
      projectedDemands_congr fun lOnDDate hmem lDemand _ leg hread =>
        congrArg (fun lLC => lLC.bidPrices.current) (hagree leg (pathLegCabins_cells himages hmem hread))
    rw [callsOf, dueCalls_DYP] at hcalls ⊢
    rw [hprices]
    exact hcalls
  · rw [← hmap, demandMaps, demandMaps, hagree leg (.inl hleg)]

theorem optimiseOnDUsingRMCooperation_holds (hcodes : (inventories.map NetInventory.airlineCode).Nodup)
    (himages : ∀ inventory ∈ inventories, inventory.ReadsItsImages)
    (h : optimiseOnDUsingRMCooperation env lDate inventories state = .ok (⟨⟩, out)) :
    AllHold env bookingClassYield lDate .DYP inventories out := by
  have heach : ∀ inventory ∈ inventories, AllHold env bookingClassYield lDate .DYP [inventory] out := by
    refine rmCooperation_each hcodes himages (fun inventory v s t hcooperate => cooperate_holds hcooperate) ?_ h
    intro inventory hmem s t hagree hholds inventory' hsingle lFlightDate hdue key hkey
    obtain rfl := List.mem_singleton.1 hsingle
    have hleg := dueLegDates_own (mem_dueLegDates.2 ⟨lFlightDate, hdue, key, hkey, rfl⟩)
    exact (hholds _ hsingle lFlightDate hdue key hkey).agree (himages _ hmem) hagree hleg
  exact fun inventory hmem => heach inventory hmem inventory (List.mem_singleton.2 rfl)

/-- With RM cooperation an event ends with its passes. -/
theorem cooperation_ok {x : RMOp α κ PUnit} (h : (do
      resetAll env lDate inventories
      updateBidPrices env lDate inventories
      projectAll env lDate inventories
      x : RMOp α κ PUnit) state = .ok (⟨⟩, out)) : ∃ projected, x projected = .ok (⟨⟩, out) := by
  obtain ⟨⟨⟩, emptied, -, h⟩ := bind_ok.1 h
  obtain ⟨⟨⟩, updated, -, h⟩ := bind_ok.1 h
  obtain ⟨⟨⟩, projected, -, h⟩ := bind_ok.1 h
  exact ⟨projected, h⟩

/-- The commands of an event leave demand maps that hold the projection of its technique. -/
theorem eventCommands_holds {technique : PartnershipTechnique}
    (hcodes : (inventories.map NetInventory.airlineCode).Nodup)
    (himages : technique = .RMC → ∀ inventory ∈ inventories, inventory.ReadsItsImages)
    (h : eventCommands env bookingClassYield lDate inventories technique state = .ok (⟨⟩, out)) :
    AllHold env bookingClassYield lDate technique.projection inventories out := by
  cases technique with
  | RAE_DA => exact projectThenOptimise_holds (.inl rfl) hcodes h
  | IBP_DA => exact projectThenOptimise_holds (.inl rfl) hcodes h
  | RAE_YP => exact projectThenOptimise_holds (.inr rfl) hcodes h
  | IBP_YP => exact projectThenOptimise_holds (.inr rfl) hcodes h
  | IBP_YP_U => exact projectThenOptimise_holds (.inr rfl) hcodes h
  | RMC =>
    obtain ⟨projected, h⟩ := cooperation_ok h
    exact optimiseOnDUsingRMCooperation_holds hcodes (himages rfl) h
  | A_RMC =>
    obtain ⟨projected, h⟩ := cooperation_ok h
    obtain ⟨lMaxBPVariation, before, -, hpass⟩ := advancedCooperation_passes h
    exact networkPass_holds hcodes hpass

end projections

/-! ## What a run leaves -/

section run
variable [DecidableEq α] [DecidableEq κ] [DecidableEq π] [DecidableEq ω]
  {env : ServiceEnv α κ π ω γ σ} {st out : ServiceState α κ ω γ σ} {events : List PartnershipEvent}
  {event : PartnershipEvent}

omit [DecidableEq α] [DecidableEq κ] [DecidableEq π] [DecidableEq ω] in
theorem ServiceEnv.inventories_codes (demands : DemandInfo ω γ σ) :
    (env.inventories demands).map NetInventory.airlineCode = env.bom.inventories.map ForecastInventory.airlineCode := by
  rw [ServiceEnv.inventories, List.map_map]
  exact List.attach_map_val (f := ForecastInventory.airlineCode)

/-- The segment-dates of O&D dates that have an operating one hold images for it. -/
def ServiceEnv.ReadsItsImages (env : ServiceEnv α κ π ω γ σ) : Prop :=
  ∀ demands, ∀ inventory ∈ env.inventories demands, inventory.ReadsItsImages

/-- The last record leaves demand maps that hold the projection of its technique. -/
theorem eventRun_holds (hcodes : (env.bom.inventories.map ForecastInventory.airlineCode).Nodup)
    (himages : event.technique = .RMC → env.ReadsItsImages)
    (h : optimiseEventsWithPartners env events st = .ok out) (hlast : (freshEvents st events).getLast? = some event) :
    out.previousForecastDate = event.date ∧ AllHold env.net env.bookingClassYield event.date event.technique.projection
      (env.inventories out.demands) out.network := by
  obtain ⟨before, hevent⟩ := eventRun_last h hlast
  obtain ⟨hdate, -, hcommands⟩ := freshEvent_ok hevent
  refine ⟨hdate, eventCommands_holds ?_ (fun htechnique => himages htechnique out.demands) hcommands⟩
  rwa [ServiceEnv.inventories_codes]

/-- An event that comes late or again does nothing. -/
theorem optimiseEventsWithPartners_late {late : List PartnershipEvent}
    (hlate : ∀ event ∈ late, event.date ≤ out.previousForecastDate) :
    optimiseEventsWithPartners env late out = .ok out := by
  rw [optimiseEventsWithPartners_eq, freshEvents, records_eq_nil hlate]
  rfl

/-- **After any run of events** the last record has the latest date, so that events that come late or again change
nothing, and the demand map of every leg-cabin that is due on this date holds what the projection of its technique hands
out of the forecasts, at the bid prices that the run ends with: nothing of the events before, and nothing of another
airline. -/
theorem eventRun_inSync (hcodes : (env.bom.inventories.map ForecastInventory.airlineCode).Nodup)
    (himages : event.technique = .RMC → env.ReadsItsImages)
    (h : optimiseEventsWithPartners env events st = .ok out) (hlast : (freshEvents st events).getLast? = some event) :
    (∀ event' ∈ events, event'.date ≤ event.date) ∧
      (∀ late, (∀ event' ∈ late, event'.date ≤ event.date) → optimiseEventsWithPartners env late out = .ok out) ∧
      ∀ inventory ∈ env.inventories out.demands, ∀ lFlightDate ∈ dueFlightDates env.net event.date inventory,
        ∀ key ∈ lFlightDate.keys, HoldsProjection env.net env.bookingClassYield event.date event.technique.projection
          inventory out.network (.operated key) := by
  obtain ⟨hdate, hholds⟩ := eventRun_holds hcodes himages h hlast
  refine ⟨le_of_getLast?_records hlast, fun late hlate => optimiseEventsWithPartners_late ?_, hholds⟩
  rwa [hdate]

end run

/-! ### Two airlines

They are those of `Cooperation.lean`, with one yield rule for their journey. -/

section partners
variable {L : Type}

def SegmentDate.byClass (lSegmentDate : SegmentDate Unit L) : SegmentDate (Unit × ℕ) L :=
  ⟨fun cabin => lSegmentDate.legCabins cabin.1⟩

def partnersSegment (airline operator : ℕ) : OnDSegment (Unit × ℕ) (NetLegCabin ℕ ℕ) where
  own := (allianceSegment airline operator).own.byClass
  getOperatingSegmentDate := (allianceSegment airline operator).getOperatingSegmentDate.map SegmentDate.byClass

theorem partnersSegment_own (airline : ℕ) :
    ∀ segment ∈ [partnersSegment airline 0, partnersSegment airline 1], ∀ cabin, ∀ legs ∈ segment.own.legCabins cabin,
      ∀ leg ∈ legs, leg ∈ ownCells airline := by
  intro segment hmem cabin
  have hcases : segment = partnersSegment airline 0 ∨ segment = partnersSegment airline 1 := by simpa using hmem
  rcases hcases with rfl | rfl <;> exact allianceSegment_own airline _ cabin.1

theorem partnersFlightDates_own (airline : ℕ) : ∀ lFlightDate ∈ [allianceFlightDate airline],
    lFlightDate.airlineCode = airline := by simp [allianceFlightDate]

def unaryKey (path : CabinClassPath Unit ℕ) : String := String.ofList (List.replicate (Encodable.encode path) '1')

theorem unaryKey_injective : Function.Injective unaryKey := fun path path' h =>
  Encodable.encode_injective (by simpa [unaryKey] using congrArg String.length h)

noncomputable def partnersServiceEnv : ServiceEnv ℕ ℕ Unit ℕ Unit ℕ where
  bom := { twoPartners with date := fun _ => 0 }
  setDemandInformation := setEntry
  lDCPList := [0]
  totalForecastMap lOnDDate := if lOnDDate = 0 then [((), ⟨((2 : ℕ) : ℝ), 1, 0⟩)] else []
  airportPair _ _ := some [⟨fun _ => true, some [fun _ => some [⟨[0, 1], [[0], [0]], ((2 : ℕ) : ℝ)⟩]]⟩]
  getRemainingProportion _ := 1
  frat5CoefMap _ := some ((2 : ℕ) : ℝ)
  net := oneSeatEnv
  sameDCPList := rfl
  bookingClassYield _ _ := none
  flightDates airline := [allianceFlightDate airline]
  nbOfSegments _ := 2
  segments lOnDDate := [partnersSegment lOnDDate 0, partnersSegment lOnDDate 1]
  pathKey := unaryKey
  flightDates_own := partnersFlightDates_own
  segments_own := partnersSegment_own
  pathKey_injective := unaryKey_injective

theorem partnersServiceEnv_codes : (partnersServiceEnv.bom.inventories.map ForecastInventory.airlineCode).Nodup := by
  simp [partnersServiceEnv, twoPartners]

/-- Class 0 on both segments. -/
def partnersPath : CabinClassPath Unit ℕ := [((), 0), ((), 0)]

/-- The forecast of a rule whose yield all demand pays. -/
theorem partnersService_forecast : ∃ demands,
    forecastOnDAt partnersServiceEnv.toOnDForecastEnv 0 (fun _ => none) = .ok demands ∧
      ∀ airline, airline = 0 ∨ airline = 1 → ∀ path,
        demands (airline, path) = if path = partnersPath then some ⟨2, 1, 0⟩ else none := by
  let factor : ℝ := proportionFactor ((2 : ℕ) : ℝ) ((2 : ℕ) : ℝ) ((2 : ℕ) : ℝ) - 0
  let lYieldDemand : YieldDemand := ⟨((2 : ℕ) : ℝ), factor * (1 * 1), factor * (1 * 0)⟩
  have hfactor : factor = 1 := by norm_num [factor, proportionFactor]
  have hdemand : lYieldDemand = ⟨2, 1, 0⟩ := by norm_num [lYieldDemand, hfactor]
  refine ⟨setDemandAt setEntry 1 partnersPath lYieldDemand (setDemandAt setEntry 0 partnersPath lYieldDemand
    fun _ => none), rfl, fun airline hairline path => ?_⟩
  rw [hdemand]
  rcases hairline with rfl | rfl <;> by_cases hpath : path = partnersPath <;>
    simp [setDemandAt, setEntry, hpath]

noncomputable def partnersInventory (airline : ℕ) : NetInventory ℕ ℕ (Unit × ℕ) where
  airlineCode := airline
  flightDates := [allianceFlightDate airline]
  onDDates := [⟨0, 2, [partnersSegment airline 0, partnersSegment airline 1], [⟨partnersPath, ((2 : ℕ) : ℝ), 1, 0⟩]⟩]
  flightDates_own := partnersServiceEnv.flightDates_own airline
  segments_own := List.forall_mem_singleton.2 (partnersSegment_own airline)

noncomputable def partnersInventories : List (NetInventory ℕ ℕ (Unit × ℕ)) := [partnersInventory 0, partnersInventory 1]

theorem partnersService_inventories {demands : DemandInfo ℕ Unit ℕ} (hdemands : ∀ airline, airline = 0 ∨ airline = 1 →
    ∀ path, demands (airline, path) = if path = partnersPath then some ⟨2, 1, 0⟩ else none) :
    partnersServiceEnv.inventories demands = partnersInventories := by
  have hmap : ∀ airline, airline = 0 ∨ airline = 1 →
      demandInfoMap unaryKey (fun path => demands (airline, path)) = [⟨partnersPath, ((2 : ℕ) : ℝ), 1, 0⟩] := by
    intro airline hairline
    have hstored : storedPaths unaryKey (fun path => demands (airline, path)) = [partnersPath] :=
      storedPaths_single fun path => by simp [hdemands airline hairline]
    rw [demandInfoMap, hstored]
    simp [hdemands airline hairline, pathDemand]
  have hinventory : ∀ inventory : { inventory // inventory ∈ partnersServiceEnv.bom.inventories },
      (inventory.1.airlineCode = 0 ∨ inventory.1.airlineCode = 1) →
      inventory.1.onDDates = [inventory.1.airlineCode] →
      partnersServiceEnv.inventory demands inventory = partnersInventory inventory.1.airlineCode := by
    intro inventory hairline honD
    refine NetInventory.ext rfl rfl ?_
    change inventory.1.onDDates.map (partnersServiceEnv.onDDate demands) = _
    rw [honD, List.map_singleton]
    exact congrArg (fun lDemandInfoMap : List (PathDemand (Unit × ℕ)) => [(⟨0, 2, [partnersSegment _ 0,
      partnersSegment _ 1], lDemandInfoMap⟩ : OnDDate (Unit × ℕ) (NetLegCabin ℕ ℕ))]) (hmap _ hairline)
  exact congrArg₂ (fun first second => [first, second]) (hinventory ⟨⟨0, [0]⟩, List.mem_cons_self⟩ (.inl rfl) rfl)
    (hinventory ⟨⟨1, [1]⟩, List.mem_cons_of_mem _ List.mem_cons_self⟩ (.inr rfl) rfl)

theorem partnersInventories_codes : (partnersInventories.map NetInventory.airlineCode).Nodup := by
  simp [partnersInventories, partnersInventory]

/-- The demand of either airline, where all bid prices are 1. -/
theorem dueDemands_partners {bidPrice : NetLegCabin ℕ ℕ → ℝ} {airline : ℕ} (hairline : airline = 0 ∨ airline = 1)
    (hown : bidPrice (.operated (flownLegCabin airline)) = 1)
    (hheld : bidPrice (.image (heldLegCabin airline (1 - airline))) = 1) :
    dueDemands bidPrice oneSeatEnv.lDCPList 0 (partnersInventory airline).toInventory =
      [⟨.operated (flownLegCabin airline), 1, 1, 0⟩] := by
  have htotal : pathBidPrice bidPrice
      ⟨0, 2, [partnersSegment airline 0, partnersSegment airline 1], [⟨partnersPath, ((2 : ℕ) : ℝ), 1, 0⟩]⟩
      ⟨partnersPath, ((2 : ℕ) : ℝ), 1, 0⟩ = 2 := by
    rcases hairline with rfl | rfl <;> norm_num [pathBidPrice, pathSegments, pricedLegCabins, partnersSegment,
      allianceSegment, SegmentDate.byClass, partnersPath, hown] <;> norm_num [hheld]
  have hdue : dueDemands bidPrice oneSeatEnv.lDCPList 0 (partnersInventory airline).toInventory = proratedDemands bidPrice
      ⟨0, 2, [partnersSegment airline 0, partnersSegment airline 1], [⟨partnersPath, ((2 : ℕ) : ℝ), 1, 0⟩]⟩
      ⟨partnersPath, ((2 : ℕ) : ℝ), 1, 0⟩ := by
    simp [dueDemands, partnersInventory, NetInventory.toInventory, isDue, oneSeatEnv]
  rw [hdue, proratedDemands, htotal]
  rcases hairline with rfl | rfl <;> simp [pathSegments, operatedLegCabins, partnersSegment, allianceSegment,
      SegmentDate.byClass, partnersPath, hown]

/-- Before the passes of advanced RM cooperation the leg-cabins are as they were at first. -/
theorem partnersService_commands :
    ∃ out, eventCommands oneSeatEnv (fun _ _ => none) 0 partnersInventories .A_RMC (fun _ => oneLevel) = .ok (⟨⟩, out) ∧
      ∀ airline, airline = 0 ∨ airline = 1 → bidPriceOf out (.operated (flownLegCabin airline)) = 1 := by
  have hproject : ∀ s, ∃ t, projectAll oneSeatEnv 0 partnersInventories s = .ok (⟨⟩, t) := fun _ => ⟨_, rfl⟩
  have hbefore : ∃ emptied updated, resetAll oneSeatEnv 0 partnersInventories (fun _ => oneLevel) = .ok (⟨⟩, emptied) ∧
      updateBidPrices oneSeatEnv 0 partnersInventories emptied = .ok (⟨⟩, updated) ∧
      ∀ airline, airline = 0 ∨ airline = 1 →
        updated (.operated (flownLegCabin airline)) = ⟨⟨1, 1⟩, [], fun _ => none⟩ ∧
        bidPriceOf updated (.image (heldLegCabin airline (1 - airline))) = 1 := by
    refine ⟨_, _, rfl, rfl, ?_⟩
    rintro _ (rfl | rfl)
    · exact ⟨rfl, rfl⟩
    · exact ⟨rfl, rfl⟩
  obtain ⟨emptied, updated, hreset, hsend, hstate⟩ := hbefore
  obtain ⟨projected, hprojected⟩ := hproject updated
  have hlevel : ∀ airline, airline = 0 ∨ airline = 1 → projected (.operated (flownLegCabin airline)) = oneLevel := by
    intro airline hairline
    obtain ⟨hown, hheld⟩ := hstate airline hairline
    have hrun : forM partnersInventories (projectUsing oneSeatEnv (fun _ _ => none) 0 .DYP) updated = .ok (⟨⟩, projected) :=
      onInventories_ok ((congrFun (projectAll_eq _) updated).symm.trans hprojected)
    have hmem : partnersInventory airline ∈ partnersInventories := by
      rcases hairline with rfl | rfl <;> simp [partnersInventories]
    have hmaps : demandMaps projected (.operated (flownLegCabin airline)) = oneLevel.yieldLevelDemandMap := by
      rw [forM_projectUsingDYP_apply (onInventories_ok hprojected),
        callsOn_allDemands partnersInventories_codes hmem ⟨_, rfl, rfl⟩,
        dueDemands_partners hairline (by rw [bidPriceOf, hown]) hheld, demandMaps, hown]
      funext level
      by_cases hlevel : level = 1
      · subst hlevel
        simp [callsOn, addCalls, addAtLevel, addToEntryOf, oneSeatEnv, oneLevel]
      · simp [callsOn, addCalls, addAtLevel, oneSeatEnv, oneLevel, hlevel]
    rw [forM_projectUsing_frame hrun, withDemandMaps, hmaps, hown]
    rfl
  obtain ⟨out, hout, hprices⟩ := advancedCooperation_twoAirlines ⟨rfl, rfl⟩ ⟨hlevel 0 (.inl rfl), hlevel 1 (.inr rfl)⟩
    (fun _ => ⟨_, rfl⟩) (fun _ => ⟨_, rfl⟩) hproject
  exact ⟨out, bind_ok.2 ⟨⟨⟩, emptied, hreset, bind_ok.2 ⟨⟨⟩, updated, hsend, bind_ok.2 ⟨⟨⟩, projected, hprojected, hout⟩⟩⟩,
    hprices⟩

/-- The second event is one of the same date. -/
def partnersEvents : List PartnershipEvent := [⟨0, .A_RMC⟩, ⟨0, .RMC⟩]

noncomputable def partnersStart : ServiceState ℕ ℕ ℕ Unit ℕ := ⟨-1, fun _ => none, fun _ => oneLevel⟩

theorem partnersService_run : ∃ out,
    optimiseEventsWithPartners partnersServiceEnv partnersEvents partnersStart = .ok out ∧
      (∀ airline, airline = 0 ∨ airline = 1 → ∀ path,
        out.demands (airline, path) = if path = partnersPath then some ⟨2, 1, 0⟩ else none) ∧
      ∀ airline, airline = 0 ∨ airline = 1 → bidPriceOf out.network (.operated (flownLegCabin airline)) = 1 := by
  obtain ⟨demands, hforecast, hdemands⟩ := partnersService_forecast
  obtain ⟨network, hcommands, hprices⟩ := partnersService_commands
  rw [← partnersService_inventories hdemands] at hcommands
  refine ⟨⟨0, demands, network⟩, ?_, hdemands, hprices⟩
  have hfresh : freshEvents partnersStart partnersEvents = [⟨0, .A_RMC⟩] := rfl
  rw [optimiseEventsWithPartners_eq, hfresh]
  refine bind_eq_ok.2 ⟨⟨0, demands, network⟩, bind_eq_ok.2 ⟨demands, ?_, bind_eq_ok.2 ⟨(⟨⟩, network), ?_, rfl⟩⟩, rfl⟩
  · exact congrArg (Except.mapError EventRunFault.store) hforecast
  · exact congrArg (Except.mapError EventRunFault.command) hcommands

theorem eventRun_inSync_partners : ∃ out,
    optimiseEventsWithPartners partnersServiceEnv partnersEvents partnersStart = .ok out ∧
      HoldsProjection oneSeatEnv (fun _ _ => none) 0 .DYP (partnersInventory 0) out.network
        (.operated (flownLegCabin 0)) := by
  obtain ⟨out, hrun, hdemands, -⟩ := partnersService_run
  have hlast : (freshEvents partnersStart partnersEvents).getLast? = some ⟨0, .A_RMC⟩ := rfl
  obtain ⟨-, -, hholds⟩ := eventRun_inSync partnersServiceEnv_codes (fun h => by cases h) hrun hlast
  refine ⟨out, hrun, hholds (partnersInventory 0) ?_ (allianceFlightDate 0) List.mem_cons_self (flownLegCabin 0)
    List.mem_cons_self⟩
  rw [partnersService_inventories hdemands]
  exact List.mem_cons_self

end partners

end Rmol
