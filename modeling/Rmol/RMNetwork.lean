import Mathlib.Data.Finset.Sort
import Mathlib.Data.Set.Finite.Basic
import Rmol.BidPriceFloor
import Rmol.BidPriceUpdate
import Rmol.DemandReset
import Rmol.Lib.BoundedLoops
/-!
# The O&D commands of the service on all airlines (`RMOL_Service.cpp:1233-2107`, `Optimiser.cpp:246-284`)

| here | there |
| --- | --- |
| `optimiseUsingOnDForecast`               | `Optimiser.cpp:247` |
| `optimiseOnD`                            | `RMOL_Service.cpp:1514` |
| `resetDemandInformationOf`, `resetAll`   | `:1259`, `:1233` |
| `projectUsingDYP`, `projectAll`          | `:1874`, `:1848` |
| `updateBidPriceOf`, `updateBidPrices`    | `:1611`, `:1563` |
| `cooperationPass`, `networkPass`         | the bodies of the two `while` loops (`:2018-2046`, `:2072-2105`) |
| `optimiseOnDUsingRMCooperation`          | `:1990` |
| `optimiseOnDUsingAdvancedRMCooperation`  | `:2050` |

An airline has an inventory of its own and, below it, images of the inventories of its partners. The leg-cabins of
both are the cells of the state. A command reads O&D dates and flight-dates, which it does not change, and writes the
bid prices, bid price vectors and yield-level demand maps of leg-cabins.

What StdAir does to a leg-cabin is in the parameters of `NetEnv`: `addDemandInformation` changes the yield-level demand
map, `updatePreviousBidPrice` gives the previous bid price, and `updateCurrentBidPrice` reads the availability pool and
the bid price vector.
-/

namespace Rmol

open Locality

variable {α κ γ : Type}

/-! ## Airlines and leg-cabins -/

/-- A leg-cabin of the airline that operates it, or the image of it that a partner holds. -/
inductive NetLegCabin (α κ : Type) where
  | operated (key : LegCabinKey α κ)
  | image (key : ImageKey α κ)
deriving DecidableEq

structure NetLegCabinState where
  bidPrices : BidPrices ℝ
  bidPriceVector : List ℝ
  yieldLevelDemandMap : YieldLevelDemandMap

abbrev NetState (α κ : Type) := NetLegCabin α κ → NetLegCabinState

inductive ServiceFault where
  /-- `assert (!lInventoryList.empty())` (`:1250`, `:1863`). -/
  | noInventory
  | projection (fault : ProjectionFault)
  /-- `assert (lBookingClass_ptr != NULL)` (`:1389`). -/
  | noBookingClass
  | partner (fault : PartnerFault)
  | optimiser (fault : McFault)

/-- A command of the service. -/
abbrev RMOp (α κ β : Type) := Op (NetLegCabin α κ) NetLegCabinState ServiceFault β

structure NetFlightDate (α κ : Type) extends OperatedFlightDate α κ where
  departureDate : Date
  /-- The keys of its leg-dates. -/
  legDates : List κ

/-- The leg-cabins of a leg-date. -/
def NetFlightDate.legCabinsOf (lFlightDate : NetFlightDate α κ) (lLDKeyStr : κ) : List (NetLegCabin α κ) :=
  (lFlightDate.legCabins lLDKeyStr).map fun lLCKeyStr =>
    .operated ⟨lFlightDate.airlineCode, lFlightDate.key, lLDKeyStr, lLCKeyStr⟩

/-- The leg-cabins that an airline operates. -/
def ownCells (airline : α) : Set (NetLegCabin α κ) := {leg | ∃ key, leg = .operated key ∧ key.airline = airline}

/-- The images that an airline holds. -/
def heldImages (airline : α) : Set (NetLegCabin α κ) := {leg | ∃ key, leg = .image key ∧ key.marketer = airline}

/-- What is below an inventory: its flight-dates are flown by its airline, and so are the segments of its O&D dates
that have no operating segment-date. -/
@[ext] structure NetInventory (α κ γ : Type) where
  airlineCode : α
  flightDates : List (NetFlightDate α κ)
  onDDates : List (OnDDate γ (NetLegCabin α κ))
  flightDates_own : ∀ lFlightDate ∈ flightDates, lFlightDate.airlineCode = airlineCode
  segments_own : ∀ lOnDDate ∈ onDDates, ∀ segment ∈ lOnDDate.segments, ∀ cabin,
    ∀ legs ∈ segment.own.legCabins cabin, ∀ leg ∈ legs, leg ∈ ownCells airlineCode

namespace NetInventory
variable (inventory : NetInventory α κ γ)

/-- The inventory as the reset and the projection go through it. -/
def toInventory : Inventory γ (NetLegCabin α κ) where
  flightDates := inventory.flightDates.map fun lFlightDate =>
    ⟨lFlightDate.departureDate, lFlightDate.legDates.map lFlightDate.legCabinsOf⟩
  onDDates := inventory.onDDates

/-- The operating segment-dates of its O&D dates are images that it holds, or segments of its own. -/
def ReadsItsImages : Prop :=
  ∀ lOnDDate ∈ inventory.onDDates, ∀ segment ∈ lOnDDate.segments, ∀ operating ∈ segment.getOperatingSegmentDate,
    ∀ cabin, ∀ legs ∈ operating.legCabins cabin, ∀ leg ∈ legs,
      leg ∈ ownCells inventory.airlineCode ∪ heldImages inventory.airlineCode

end NetInventory

structure NetEnv (α κ : Type) where
  lDCPList : List DTD
  bomRoot : BomRoot α κ
  availabilityPool : LegCabinKey α κ → ℝ
  addDemandInformation : AddDemandInformation
  generateNormal : ℕ → ℝ → ℝ → ℝ
  updatePreviousBidPrice : LegCabin ℝ → ℝ
  updateCurrentBidPrice : ℝ → List ℝ → ℝ → ℝ

/-! ## One leg-cabin -/

open Classical in
/-- The yield levels of a map that has finitely many, from the highest one down. -/
noncomputable def demandLevels (map : YieldLevelDemandMap) : List ℤ :=
  if h : {level | map level ≠ none}.Finite then h.toFinset.sort (· ≥ ·) else []

theorem demandLevels_pairwise (map : YieldLevelDemandMap) : (demandLevels map).Pairwise (· > ·) := by
  unfold demandLevels
  split
  · exact (Finset.sortedGT_sort _).pairwise
  · exact .nil

theorem toFinset_eq_singleton {β : Type} {s : Set β} {b : β} (h : ∀ c, c ∈ s ↔ c = b) (hfinite : s.Finite) :
    hfinite.toFinset = {b} := by
  ext c
  rw [Set.Finite.mem_toFinset, h, Finset.mem_singleton]

theorem demandLevels_single {map : YieldLevelDemandMap} {level : ℤ} (h : ∀ l, map l ≠ none ↔ l = level) :
    demandLevels map = [level] := by
  have hlevels : {l | map l ≠ none} = {level} := Set.ext h
  have hfinite : {l | map l ≠ none}.Finite := hlevels ▸ Set.finite_singleton level
  rw [demandLevels, dif_pos hfinite, toFinset_eq_singleton h, Finset.sort_singleton]

noncomputable def yieldLevels (map : YieldLevelDemandMap) : List (YieldLevel ℝ) :=
  (demandLevels map).map fun (level : ℤ) => ⟨level, ((map level).map Prod.fst).getD 0, ((map level).map Prod.snd).getD 0⟩

theorem yieldLevels_sorted (map : YieldLevelDemandMap) :
    (yieldLevels map).Pairwise fun y z => z.yield < y.yield := by
  rw [yieldLevels, List.pairwise_map]
  exact (demandLevels_pairwise map).imp fun h => Int.cast_lt.2 h

section commands
variable [DecidableEq α] [DecidableEq κ] (env : NetEnv α κ) (lDate : Date)

/-- The leg-cabin as the O&D optimisation reads it; its virtual classes are not read. -/
noncomputable def NetEnv.legCabin (key : LegCabinKey α κ) (state : NetLegCabinState) : LegCabin ℝ where
  availabilityPool := env.availabilityPool key
  virtualClassList := []
  yieldLevelDemandMap := yieldLevels state.yieldLevelDemandMap
  bidPriceVector := state.bidPriceVector
  currentBidPrice := state.bidPrices.current
  previousBidPrice := state.bidPrices.previous
  map_sorted := yieldLevels_sorted _

/-- The body of the loop on leg-cabins (`Optimiser.cpp:268-279`): the variation of the bid price. -/
noncomputable def optimiseNetLegCabin (key : LegCabinKey α κ) : RMOp α κ ℝ := fun state =>
  match optimiseLegCabin env.generateNormal env.updatePreviousBidPrice (env.legCabin key (state (.operated key))) with
  | .error fault => .error (.optimiser fault)
  | .ok (out, lBPVariation) => .ok (lBPVariation, Function.update state (.operated key)
      ⟨⟨out.currentBidPrice, out.previousBidPrice⟩, out.bidPriceVector, (state (.operated key)).yieldLevelDemandMap⟩)

/-! ## Flight-dates -/

/-- The leg-cabins of a flight-date, leg-date by leg-date. -/
def NetFlightDate.keys (lFlightDate : NetFlightDate α κ) : List (LegCabinKey α κ) :=
  lFlightDate.legDates.flatMap fun lLDKeyStr => (lFlightDate.legCabins lLDKeyStr).map fun lLCKeyStr =>
    ⟨lFlightDate.airlineCode, lFlightDate.key, lLDKeyStr, lLCKeyStr⟩

/-- The largest variation of the leg-cabins. -/
noncomputable def optimiseUsingOnDForecast (ioFlightDate : NetFlightDate α κ) : RMOp α κ ℝ :=
  ioFlightDate.keys.foldlM (fun lMaxBPVariation key => do
    let lBPVariation ← optimiseNetLegCabin env key
    return max lMaxBPVariation lBPVariation) 0

/-- The flight-dates of an inventory that are due for an optimisation. -/
def dueFlightDates (inventory : NetInventory α κ γ) : List (NetFlightDate α κ) :=
  inventory.flightDates.filter fun lFlightDate => isDue env.lDCPList lDate lFlightDate.departureDate

noncomputable def optimiseOnD (inventories : List (NetInventory α κ γ)) : RMOp α κ PUnit :=
  forM inventories fun inventory => forM (dueFlightDates env lDate inventory) fun lFlightDate => do
    let _ ← optimiseUsingOnDForecast env lFlightDate

/-- The loop over the flight-dates of an inventory, with the largest variation so far. -/
noncomputable def optimiseFlightDates (lMaxBPVariation : ℝ) (inventory : NetInventory α κ γ) : RMOp α κ ℝ :=
  (dueFlightDates env lDate inventory).foldlM (fun lMaxBPVariation lFlightDate => do
    let lBPVariation ← optimiseUsingOnDForecast env lFlightDate
    return max lMaxBPVariation lBPVariation) lMaxBPVariation

/-! ## Demand maps -/

def bidPriceOf (state : NetState α κ) (leg : NetLegCabin α κ) : ℝ := (state leg).bidPrices.current

def demandMaps (state : NetState α κ) (leg : NetLegCabin α κ) : YieldLevelDemandMap := (state leg).yieldLevelDemandMap

def withDemandMaps (state : NetState α κ) (maps : NetLegCabin α κ → YieldLevelDemandMap) : NetState α κ := fun leg =>
  { state leg with yieldLevelDemandMap := maps leg }

/-- A command on the demand maps of all leg-cabins. -/
def onMaps (command : NetState α κ → (NetLegCabin α κ → YieldLevelDemandMap) →
    Except ProjectionFault (NetLegCabin α κ → YieldLevelDemandMap)) : RMOp α κ PUnit := fun state =>
  match command state (demandMaps state) with
  | .error fault => .error (.projection fault)
  | .ok maps => .ok (⟨⟩, withDemandMaps state maps)

def resetDemandInformationOf (inventory : NetInventory α κ γ) : RMOp α κ PUnit :=
  onMaps fun _ => resetDemandInformation env.lDCPList lDate inventory.toInventory

noncomputable def projectUsingDYP (inventory : NetInventory α κ γ) : RMOp α κ PUnit :=
  onMaps fun state =>
    projectOnDDemandOnLegCabinsUsingDYP env.addDemandInformation (bidPriceOf state) env.lDCPList lDate inventory.toInventory

/-- The loop of a command over all inventories, of which there is one. -/
def onInventories (inventories : List (NetInventory α κ γ)) (command : NetInventory α κ γ → RMOp α κ PUnit) :
    RMOp α κ PUnit :=
  match inventories with
  | [] => fun _ => .error .noInventory
  | inventories => forM inventories command

def resetAll (inventories : List (NetInventory α κ γ)) : RMOp α κ PUnit :=
  onInventories inventories (resetDemandInformationOf env lDate)

noncomputable def projectAll (inventories : List (NetInventory α κ γ)) : RMOp α κ PUnit :=
  onInventories inventories (projectUsingDYP env lDate)

/-! ## Bid prices of partners -/

/-- The bid prices of all leg-cabins, as `updateBidPrice` reads and writes them. -/
def priceState (state : NetState α κ) : PriceState α κ ℝ where
  legCabins key := (state (.operated key)).bidPrices
  images key := (state (.image key)).bidPrices

def PriceState.of (prices : PriceState α κ ℝ) : NetLegCabin α κ → BidPrices ℝ
  | .operated key => prices.legCabins key
  | .image key => prices.images key

def withPrices (state : NetState α κ) (prices : PriceState α κ ℝ) : NetState α κ := fun leg =>
  { state leg with bidPrices := prices.of leg }

def updateBidPriceOf (iFlightDate : NetFlightDate α κ) : RMOp α κ PUnit := fun state =>
  match updateBidPrice
    (fun key => env.updateCurrentBidPrice (env.availabilityPool key) (state (.operated key)).bidPriceVector)
    env.bomRoot iFlightDate.toOperatedFlightDate (priceState state) with
  | .error fault => .error (.partner fault)
  | .ok prices => .ok (⟨⟩, withPrices state prices)

def updateBidPrices (inventories : List (NetInventory α κ γ)) : RMOp α κ PUnit :=
  forM inventories fun inventory => forM (dueFlightDates env lDate inventory) (updateBidPriceOf env)

/-! ## RM cooperation -/

/-- A pass on one inventory. -/
noncomputable def cooperationPass (inventory : NetInventory α κ γ) : RMOp α κ ℝ := do
  let lMaxBPVariation ← optimiseFlightDates env lDate 0 inventory
  resetDemandInformationOf env lDate inventory
  projectUsingDYP env lDate inventory
  return lMaxBPVariation

noncomputable def cooperate (inventory : NetInventory α κ γ) : RMOp α κ ℝ :=
  loop (fun lMaxBPVariation => 0.01 < lMaxBPVariation) (cooperationPass env lDate inventory) 10 1

noncomputable def optimiseOnDUsingRMCooperation (inventories : List (NetInventory α κ γ)) : RMOp α κ PUnit :=
  forM inventories fun inventory => do
    let _ ← cooperate env lDate inventory

/-- A pass on all inventories: the bid prices are sent to the partners before the demand is projected again. -/
noncomputable def networkPass (inventories : List (NetInventory α κ γ)) : RMOp α κ ℝ := do
  let lMaxBPVariation ← inventories.foldlM (optimiseFlightDates env lDate) 0
  updateBidPrices env lDate inventories
  resetAll env lDate inventories
  projectAll env lDate inventories
  return lMaxBPVariation

noncomputable def optimiseOnDUsingAdvancedRMCooperation (inventories : List (NetInventory α κ γ)) :
    RMOp α κ PUnit := do
  let _ ← loop (fun lMaxBPVariation => 0.01 < lMaxBPVariation) (networkPass env lDate inventories) 50 1

end commands

/-! ## What one command does -/

section specs
variable [DecidableEq α] [DecidableEq κ] {env : NetEnv α κ} {lDate : Date} {state out : NetState α κ}

theorem optimiseNetLegCabin_ok {key : LegCabinKey α κ} {lBPVariation : ℝ} :
    optimiseNetLegCabin env key state = .ok (lBPVariation, out) ↔
      ∃ lLC, optimiseLegCabin env.generateNormal env.updatePreviousBidPrice (env.legCabin key (state (.operated key))) =
          .ok (lLC, lBPVariation) ∧
        out = Function.update state (.operated key) ⟨⟨lLC.currentBidPrice, lLC.previousBidPrice⟩, lLC.bidPriceVector,
          demandMaps state (.operated key)⟩ := by
  unfold optimiseNetLegCabin
  cases hstep : optimiseLegCabin env.generateNormal env.updatePreviousBidPrice
      (env.legCabin key (state (.operated key))) with
  | error fault => simp
  | ok step =>
    simp only [Except.ok.injEq, Prod.mk.injEq]
    constructor
    · rintro ⟨rfl, rfl⟩
      exact ⟨step.1, rfl, rfl⟩
    · rintro ⟨lLC, rfl, rfl⟩
      exact ⟨rfl, rfl⟩

omit [DecidableEq α] [DecidableEq κ] in
theorem onMaps_ok {command : NetState α κ → (NetLegCabin α κ → YieldLevelDemandMap) →
    Except ProjectionFault (NetLegCabin α κ → YieldLevelDemandMap)} :
    onMaps command state = .ok (⟨⟩, out) ↔
      ∃ maps, command state (demandMaps state) = .ok maps ∧ out = withDemandMaps state maps := by
  unfold onMaps
  cases hmaps : command state (demandMaps state) with
  | error fault => simp
  | ok maps =>
    simp only [Except.ok.injEq, Prod.mk.injEq, true_and]
    exact ⟨fun h => ⟨maps, rfl, h.symm⟩, fun ⟨_, h, hout⟩ => h ▸ hout.symm⟩

theorem updateBidPriceOf_ok {iFlightDate : NetFlightDate α κ} :
    updateBidPriceOf env iFlightDate state = .ok (⟨⟩, out) ↔
      ∃ prices, updateBidPrice
        (fun key => env.updateCurrentBidPrice (env.availabilityPool key) (state (.operated key)).bidPriceVector)
        env.bomRoot iFlightDate.toOperatedFlightDate (priceState state) = .ok prices ∧
      out = withPrices state prices := by
  unfold updateBidPriceOf
  cases hprices : updateBidPrice
      (fun key => env.updateCurrentBidPrice (env.availabilityPool key) (state (.operated key)).bidPriceVector)
      env.bomRoot iFlightDate.toOperatedFlightDate (priceState state) with
  | error fault => simp
  | ok prices =>
    simp only [Except.ok.injEq, Prod.mk.injEq, true_and]
    exact ⟨fun h => ⟨prices, rfl, h.symm⟩, fun ⟨_, h, hout⟩ => h ▸ hout.symm⟩

omit [DecidableEq α] [DecidableEq κ] in
theorem NetFlightDate.mem_legCabins {lFlightDate : NetFlightDate α κ} {leg : NetLegCabin α κ} :
    leg ∈ (lFlightDate.legDates.map lFlightDate.legCabinsOf).flatten ↔
      ∃ key ∈ lFlightDate.keys, leg = .operated key := by
  simp only [NetFlightDate.keys, NetFlightDate.legCabinsOf, List.mem_flatten, List.mem_flatMap, List.mem_map]
  constructor
  · rintro ⟨_, ⟨lLDKeyStr, hleg, rfl⟩, hcabin⟩
    obtain ⟨lLCKeyStr, hmem, rfl⟩ := List.mem_map.1 hcabin
    exact ⟨_, ⟨lLDKeyStr, hleg, lLCKeyStr, hmem, rfl⟩, rfl⟩
  · rintro ⟨_, ⟨lLDKeyStr, hleg, lLCKeyStr, hmem, rfl⟩, rfl⟩
    exact ⟨_, ⟨lLDKeyStr, hleg, rfl⟩, List.mem_map.2 ⟨lLCKeyStr, hmem, rfl⟩⟩

omit [DecidableEq α] [DecidableEq κ] in
/-- The leg-cabins that a reset empties. -/
theorem mem_dueLegDates {inventory : NetInventory α κ γ} {leg : NetLegCabin α κ} :
    leg ∈ (dueLegDates env.lDCPList lDate inventory.toInventory).flatten ↔
      ∃ lFlightDate ∈ dueFlightDates env lDate inventory, ∃ key ∈ lFlightDate.keys, leg = .operated key := by
  unfold dueLegDates dueFlightDates
  simp only [NetInventory.toInventory, List.filter_map, List.flatMap_map, List.mem_flatten, List.mem_flatMap,
    List.mem_filter, Function.comp]
  constructor
  · rintro ⟨legs, ⟨lFlightDate, hdue, hlegs⟩, hleg⟩
    exact ⟨lFlightDate, hdue, NetFlightDate.mem_legCabins.1 (List.mem_flatten.2 ⟨legs, hlegs, hleg⟩)⟩
  · rintro ⟨lFlightDate, hdue, hkey⟩
    obtain ⟨legs, hlegs, hleg⟩ := List.mem_flatten.1 (NetFlightDate.mem_legCabins.2 hkey)
    exact ⟨legs, ⟨lFlightDate, hdue, hlegs⟩, hleg⟩

omit [DecidableEq α] [DecidableEq κ] in
theorem NetFlightDate.airline_of_mem_keys {lFlightDate : NetFlightDate α κ} {key : LegCabinKey α κ}
    (h : key ∈ lFlightDate.keys) : key.airline = lFlightDate.airlineCode := by
  simp only [NetFlightDate.keys, List.mem_flatMap, List.mem_map] at h
  obtain ⟨_, -, _, -, rfl⟩ := h
  rfl

end specs

end Rmol
