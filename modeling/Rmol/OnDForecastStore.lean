import Rmol.Lib.Writes
import Rmol.OnDForecast
import Rmol.OnDProjection
/-!
# Where the O&D forecast goes (`RMOL_Service.cpp:731-875`, `:978-1230`)

| here | there |
| --- | --- |
| `getYieldFeatures`                     | `:805` |
| `firstClasses`                         | the loop over the class lists of a yield rule (`:1014-1022`) |
| `operatedBy`                           | the loop that compares the airlines of the segments (`:1162-1184`) |
| `findOnDDate`, `storeForecast`         | what the two functions that store a forecast share |
| `setOnDForecastOnSegment`              | the function for one segment (`:1052`) |
| `setOnDForecastOnSegments`             | the function for several segments (`:1116`) |
| `setOnDForecast`                       | `:993` |
| `forecastCalls`, `setOnDForecasts`     | the calls of `setOnDForecast` in `forecastOnD` (`:978-988`) |
| `forecastOnDAt`                        | `forecastOnD` of a RM event (`:731`) |

A yield rule lists airlines, one for each segment of an itinerary, and a string of class codes for each of them. The
forecast of the rule is stored in the inventory of every airline that it lists, at the O&D date whose segments these
airlines operate, under the path of the cabin and the first class of every string.

`setDemandInformation` is a function of StdAir's O&D dates and a parameter here. What the service relies on is an
assumption (`SetsDemand`): there is one entry per path, so that a second forecast under a path takes the place of the
first.

`ω` are O&D dates and `σ` class codes.
-/

namespace Rmol

open Writes

/-- The assertions around the store. -/
inductive StoreFault where
  /-- `assert (!lInventoryList.empty())` (`:752`). -/
  | noInventoryList
  /-- `assert (false)` of the search for the airport pair (`:823`). -/
  | noAirportPair
  /-- `assert (false)` of the search for the PoS-channel (`:849`). -/
  | noPosChannel
  /-- `assert (false)` where an O&D date has no yield features (`:793`). -/
  | noYieldFeatures
  | forecast (fault : OnDForecastFault)
  /-- `assert (!lClassList_StringList.empty())` (`:1012`). -/
  | noClassList
  /-- `assert (lClassList_String.size() > 0)` (`:1018`). -/
  | emptyClassList
  /-- `assert (lAirlineCodeList.size() == lClassCodeList.size())` (`:1025`). -/
  | classesPerAirline
  /-- `assert (!lAirlineCodeList.empty())` (`:1026`). -/
  | noAirline
  /-- `assert (false)` where an airline has no inventory (`:1067`, `:1132`). -/
  | noInventory
  /-- `assert (!lOnDDateList.empty())` (`:1071`, `:1136`). -/
  | noOnDDate
  /-- `assert (false)` where an O&D date has no segment-date (`:1085`, `:1150`). -/
  | noSegmentDate
  /-- `assert (false)` where no O&D date is found (`:1111`, `:1228`). -/
  | notFound
deriving DecidableEq, Repr

/-- A yield rule. -/
structure AirlineClassList (α σ : Type) where
  airlineCodeList : List α
  classCodeList : List (List σ)
  yield : ℝ

structure ForecastInventory (α ω : Type) where
  airlineCode : α
  onDDates : List ω

/-- What the service looks up in the bom tree. An O&D date belongs to the airline of its inventory. -/
structure ForecastBom (α π ω : Type) where
  inventories : List (ForecastInventory α ω)
  date : ω → Date
  origin : ω → π
  destination : ω → π
  airlineCode : ω → α
  /-- The segment-dates, each with the airline of its operating segment-date if it has one. -/
  segmentDates : ω → List (Option α)
  airlineCode_of_mem : ∀ inventory ∈ inventories, ∀ lOnDDate ∈ inventory.onDDates,
    airlineCode lOnDDate = inventory.airlineCode

/-- Cabin-class pairs, one for each segment. -/
abbrev CabinClassPath (γ σ : Type) := List (γ × σ)

structure YieldDemand where
  yield : ℝ
  mean : ℝ
  stdDev : ℝ

/-- The demand info maps of all O&D dates. -/
abbrev DemandInfo (ω γ σ : Type) := ω × CabinClassPath γ σ → Option YieldDemand

/-- `setDemandInformation`: what a call with a path and a demand makes of the demand info map of an O&D date. -/
abbrev SetDemandInformation (γ σ : Type) :=
  (CabinClassPath γ σ → Option YieldDemand) → CabinClassPath γ σ → YieldDemand → CabinClassPath γ σ → Option YieldDemand

variable {α π ω γ σ : Type}

/-! ## One rule -/

section store
variable [DecidableEq α] [DecidableEq π] [DecidableEq ω] (setDemandInformation : SetDemandInformation γ σ)
  (bom : ForecastBom α π ω)

def ForecastBom.getInventory (iAirlineCode : α) : Option (ForecastInventory α ω) :=
  bom.inventories.find? fun inventory => inventory.airlineCode = iAirlineCode

/-- The loop stops before its end at the first segment that another airline operates. -/
def operatedBy (iAirlineCode : α) : List α → List (Option α) → Bool
  | [], _ => true
  | _ :: _, [] => false
  | lForecastAirlineCode :: lAirlineCodeList, lSegmentDate :: lSegmentDateList =>
    if lSegmentDate.getD iAirlineCode = lForecastAirlineCode then operatedBy iAirlineCode lAirlineCodeList lSegmentDateList
    else false

/-- The first O&D date of a list that is the one looked for. -/
def findOnDDate (isOnDDate : ω → Bool) : List ω → Except StoreFault ω
  | [] => .error .notFound
  | lOnDDate :: lOnDDateList =>
    if (bom.segmentDates lOnDDate).isEmpty then .error .noSegmentDate
    else if isOnDDate lOnDDate then .ok lOnDDate
    else findOnDDate isOnDDate lOnDDateList

/-- The O&D date of an airline that is the one looked for. -/
def findInInventory (isOnDDate : ω → Bool) (iAirlineCode : α) : Except StoreFault ω :=
  match bom.getInventory iAirlineCode with
  | none => .error .noInventory
  | some lInventory =>
    if lInventory.onDDates.isEmpty then .error .noOnDDate
    else findOnDDate bom isOnDDate lInventory.onDDates

/-- `setDemandInformation` at an O&D date. -/
def setDemandAt (lOnDDate : ω) (lCabinClassPath : CabinClassPath γ σ) (lYieldDemand : YieldDemand)
    (demands : DemandInfo ω γ σ) : DemandInfo ω γ σ := fun key =>
  if key.1 = lOnDDate then
    setDemandInformation (fun path => demands (lOnDDate, path)) lCabinClassPath lYieldDemand key.2
  else demands key

/-- The same at the O&D date of an airline. -/
def storeForecast (isOnDDate : ω → Bool) (iAirlineCode : α) (lCabinClassPath : CabinClassPath γ σ)
    (lYieldDemand : YieldDemand) (demands : DemandInfo ω γ σ) : Except StoreFault (DemandInfo ω γ σ) := do
  let lOnDDate ← findInInventory bom isOnDDate iAirlineCode
  return setDemandAt setDemandInformation lOnDDate lCabinClassPath lYieldDemand demands

/-- An O&D date between two airports on a date. -/
structure Journey (π : Type) where
  departureDate : Date
  origin : π
  destination : π
deriving DecidableEq

def ForecastBom.journey (lOnDDate : ω) : Journey π := ⟨bom.date lOnDDate, bom.origin lOnDDate, bom.destination lOnDDate⟩

def isOnSegment (iJourney : Journey π) (lOnDDate : ω) : Bool :=
  bom.journey lOnDDate = iJourney ∧ (bom.segmentDates lOnDDate).length = 1

def isOnSegments (iJourney : Journey π) (iAirlineCodeList : List α) (lOnDDate : ω) : Bool :=
  bom.journey lOnDDate = iJourney ∧ (bom.segmentDates lOnDDate).length = iAirlineCodeList.length ∧
    operatedBy (bom.airlineCode lOnDDate) iAirlineCodeList (bom.segmentDates lOnDDate)

def setOnDForecastOnSegment (iJourney : Journey π) (iCabinCode : γ) (iAirlineCode : α) (iClassCode : σ) :
    YieldDemand → DemandInfo ω γ σ → Except StoreFault (DemandInfo ω γ σ) :=
  storeForecast setDemandInformation bom (isOnSegment bom iJourney) iAirlineCode [(iCabinCode, iClassCode)]

def setOnDForecastOnSegments (iJourney : Journey π) (iCabinCode : γ) (iAirlineCodeList : List α)
    (iClassCodeList : List σ) (iAirlineCode : α) :
    YieldDemand → DemandInfo ω γ σ → Except StoreFault (DemandInfo ω γ σ) :=
  storeForecast setDemandInformation bom (isOnSegments bom iJourney iAirlineCodeList) iAirlineCode
    (iClassCodeList.map fun lClassCode => (iCabinCode, lClassCode))

/-- The first class of every string. -/
def firstClasses : List (List σ) → Except StoreFault (List σ)
  | [] => .ok []
  | [] :: _ => .error .emptyClassList
  | (lFirstClass :: _) :: lClassList_StringList => do
    let lClassCodeList ← firstClasses lClassList_StringList
    return lFirstClass :: lClassCodeList

def setOnDForecast (iJourney : Journey π) (iCabinCode : γ) (iAirlineClassList : AirlineClassList α σ)
    (iMeanValue iStdDevValue : ℝ) (demands : DemandInfo ω γ σ) : Except StoreFault (DemandInfo ω γ σ) :=
  if iAirlineClassList.classCodeList.isEmpty then .error .noClassList
  else do
    let lClassCodeList ← firstClasses iAirlineClassList.classCodeList
    if iAirlineClassList.airlineCodeList.length ≠ lClassCodeList.length then .error .classesPerAirline
    else
      let lYieldDemand := ⟨iAirlineClassList.yield, iMeanValue, iStdDevValue⟩
      match iAirlineClassList.airlineCodeList, lClassCodeList with
      | [lAirlineCode], lClassCode :: _ =>
        setOnDForecastOnSegment setDemandInformation bom iJourney iCabinCode lAirlineCode lClassCode lYieldDemand demands
      | [], _ => .error .noAirline
      | lAirlineCodeList, lClassCodeList =>
        lAirlineCodeList.foldlM (fun demands lAirlineCode => setOnDForecastOnSegments setDemandInformation bom iJourney
          iCabinCode lAirlineCodeList lClassCodeList lAirlineCode lYieldDemand demands) demands

/-- The calls of a forecast, in the order of the rules. -/
def setOnDForecasts (iJourney : Journey π) (iCabinCode : γ) (calls : List (OnDForecastCall (AirlineClassList α σ)))
    (demands : DemandInfo ω γ σ) : Except StoreFault (DemandInfo ω γ σ) :=
  calls.foldlM (fun demands call => setOnDForecast setDemandInformation bom iJourney iCabinCode call.airlineClassList
    call.meanValue call.stdDevValue demands) demands

end store

/-- What StdAir's O&D dates do: the entry of the path gets the demand, and the others stay. -/
structure SetsDemand (setDemandInformation : SetDemandInformation γ σ) : Prop where
  entry : ∀ map lCabinClassPath lYieldDemand,
    setDemandInformation map lCabinClassPath lYieldDemand lCabinClassPath = some lYieldDemand
  other : ∀ map lCabinClassPath lYieldDemand path, path ≠ lCabinClassPath →
    setDemandInformation map lCabinClassPath lYieldDemand path = map path

/-- An O&D date that does so. -/
def setEntry [DecidableEq γ] [DecidableEq σ] : SetDemandInformation γ σ := fun map lCabinClassPath lYieldDemand =>
  Function.update map lCabinClassPath (some lYieldDemand)

theorem setEntry_setsDemand [DecidableEq γ] [DecidableEq σ] : SetsDemand (setEntry : SetDemandInformation γ σ) where
  entry _ _ _ := Function.update_self ..
  other _ _ _ _ hpath := Function.update_of_ne hpath ..

theorem SetsDemand.setDemandAt_eq [DecidableEq ω] [DecidableEq γ] [DecidableEq σ]
    {setDemandInformation : SetDemandInformation γ σ} (h : SetsDemand setDemandInformation) (lOnDDate : ω)
    (lCabinClassPath : CabinClassPath γ σ) (lYieldDemand : YieldDemand) (demands : DemandInfo ω γ σ) :
    setDemandAt setDemandInformation lOnDDate lCabinClassPath lYieldDemand demands =
      Function.update demands (lOnDDate, lCabinClassPath) (some lYieldDemand) := by
  funext ⟨onDDate, path⟩
  by_cases honD : onDDate = lOnDDate
  · subst honD
    rw [setDemandAt, if_pos rfl]
    by_cases hpath : path = lCabinClassPath
    · subst hpath
      rw [h.entry, Function.update_self]
    · rw [h.other _ _ _ _ hpath, Function.update_of_ne fun hkey => hpath (Prod.mk.inj hkey).2]
  · rw [setDemandAt, if_neg honD, Function.update_of_ne fun hkey => honD (Prod.mk.inj hkey).1]

/-! ## A RM event -/

/-- Its yield features are found by cabin, in the first time period that has them. -/
structure DatePeriod (α γ σ : Type) where
  isDepartureDateValid : Date → Bool
  posChannel : Option (List (γ → Option (List (AirlineClassList α σ))))

structure OnDForecastEnv (α π ω γ σ : Type) where
  bom : ForecastBom α π ω
  setDemandInformation : SetDemandInformation γ σ
  lDCPList : List DTD
  totalForecastMap : ω → List (γ × TotalForecast)
  airportPair : π → π → Option (List (DatePeriod α γ σ))
  getRemainingProportion : ℤ → ℝ
  frat5CoefMap : DTD → Option ℝ

section event
variable [DecidableEq α] [DecidableEq π] [DecidableEq ω] (env : OnDForecastEnv α π ω γ σ)

/-- The loop over the date periods of an airport pair. -/
def searchDatePeriods (lDepartureDate : Date) (iCabinCode : γ) :
    List (DatePeriod α γ σ) → Except StoreFault (Option (List (AirlineClassList α σ)))
  | [] => .ok none
  | lDatePeriod :: lDatePeriodList =>
    if lDatePeriod.isDepartureDateValid lDepartureDate then
      match lDatePeriod.posChannel with
      | none => .error .noPosChannel
      | some lTimePeriodList =>
        match lTimePeriodList.findSome? fun lTimePeriod => lTimePeriod iCabinCode with
        | some oYieldFeatures => .ok (some oYieldFeatures)
        | none => searchDatePeriods lDepartureDate iCabinCode lDatePeriodList
    else searchDatePeriods lDepartureDate iCabinCode lDatePeriodList

def getYieldFeatures (iOnDDate : ω) (iCabinCode : γ) : Except StoreFault (Option (List (AirlineClassList α σ))) :=
  match env.airportPair (env.bom.origin iOnDDate) (env.bom.destination iOnDDate) with
  | none => .error .noAirportPair
  | some lDatePeriodList => searchDatePeriods (env.bom.date iOnDDate) iCabinCode lDatePeriodList

/-- The calls of `setOnDForecast` for a cabin of an O&D date. -/
noncomputable def forecastCalls (lDate : Date) (iOnDDate : ω) (entry : γ × TotalForecast) :
    Except StoreFault (List (OnDForecastCall (AirlineClassList α σ))) := do
  match ← getYieldFeatures env iOnDDate entry.1 with
  | none => .error .noYieldFeatures
  | some lAirlineClassListList =>
    let lDTD := Int.bmod (env.bom.date iOnDDate - lDate) (2 ^ 16)
    match forecastOnD AirlineClassList.yield env.getRemainingProportion env.frat5CoefMap entry.2 lDTD
      lAirlineClassListList with
    | .error fault => .error (.forecast fault)
    | .ok calls => .ok calls

noncomputable def forecastCabin (lDate : Date) (iOnDDate : ω) (entry : γ × TotalForecast) (demands : DemandInfo ω γ σ) :
    Except StoreFault (DemandInfo ω γ σ) := do
  let calls ← forecastCalls env lDate iOnDDate entry
  setOnDForecasts env.setDemandInformation env.bom (env.bom.journey iOnDDate) entry.1 calls demands

/-- The loop over the inventories, with those O&D dates that are due. -/
noncomputable def forecastOnDAt (lDate : Date) (demands : DemandInfo ω γ σ) :
    Except StoreFault (DemandInfo ω γ σ) :=
  if env.bom.inventories.isEmpty then .error .noInventoryList
  else env.bom.inventories.foldlM (fun demands inventory =>
    (inventory.onDDates.filter fun lOnDDate => isDue env.lDCPList lDate (env.bom.date lOnDDate)).foldlM
      (fun demands lOnDDate => (env.totalForecastMap lOnDDate).foldlM
        (fun demands entry => forecastCabin env lDate lOnDDate entry demands) demands) demands) demands

end event

/-! ## The O&D dates of the partners -/

section targets
variable {bom : ForecastBom α π ω} {iJourney : Journey π} {iAirlineCodeList : List α} {iAirlineCode : α} {lOnDDate : ω}

theorem findOnDDate_ok {isOnDDate : ω → Bool} {lOnDDateList : List ω}
    (h : findOnDDate bom isOnDDate lOnDDateList = .ok lOnDDate) : lOnDDate ∈ lOnDDateList ∧ isOnDDate lOnDDate = true := by
  induction lOnDDateList with
  | nil => cases h
  | cons first rest ih =>
    unfold findOnDDate at h
    split at h
    · cases h
    · split at h
      · rename_i hfirst
        obtain rfl := Except.ok.inj h
        exact ⟨List.mem_cons_self, hfirst⟩
      · obtain ⟨hmem, his⟩ := ih h
        exact ⟨List.mem_cons_of_mem _ hmem, his⟩

/-- The airlines that operate the segments of an O&D date. -/
def ForecastBom.operators (bom : ForecastBom α π ω) (lOnDDate : ω) : List α :=
  (bom.segmentDates lOnDDate).map fun lSegmentDate => lSegmentDate.getD (bom.airlineCode lOnDDate)

variable [DecidableEq α]

theorem operatedBy_iff {lSegmentDateList : List (Option α)} (hlength : lSegmentDateList.length = iAirlineCodeList.length) :
    operatedBy iAirlineCode iAirlineCodeList lSegmentDateList = true ↔
      lSegmentDateList.map (fun lSegmentDate => lSegmentDate.getD iAirlineCode) = iAirlineCodeList := by
  induction iAirlineCodeList generalizing lSegmentDateList with
  | nil => simpa [operatedBy] using hlength
  | cons code codes ih =>
    cases lSegmentDateList with
    | nil => simp at hlength
    | cons lSegmentDate lSegmentDateList =>
      rw [List.length_cons, List.length_cons, Nat.succ_inj] at hlength
      by_cases hcode : lSegmentDate.getD iAirlineCode = code
      · simp [operatedBy, hcode, ih hlength]
      · simp [operatedBy, hcode]

theorem findInInventory_ok {isOnDDate : ω → Bool} (h : findInInventory bom isOnDDate iAirlineCode = .ok lOnDDate) :
    bom.airlineCode lOnDDate = iAirlineCode ∧ isOnDDate lOnDDate = true := by
  unfold findInInventory at h
  split at h
  · cases h
  · rename_i lInventory hinventory
    split at h
    · cases h
    · obtain ⟨hmem, his⟩ := findOnDDate_ok h
      refine ⟨?_, his⟩
      rw [bom.airlineCode_of_mem lInventory (List.mem_of_find?_eq_some hinventory) lOnDDate hmem]
      simpa using List.find?_some hinventory

variable [DecidableEq π]

/-- The O&D date of an airline that a rule for the airlines is stored at. -/
def target (bom : ForecastBom α π ω) (iJourney : Journey π) (iAirlineCodeList : List α) (iAirlineCode : α) :
    Except StoreFault ω :=
  if iAirlineCodeList.length = 1 then findInInventory bom (isOnSegment bom iJourney) iAirlineCode
  else findInInventory bom (isOnSegments bom iJourney iAirlineCodeList) iAirlineCode

structure IsTarget (bom : ForecastBom α π ω) (iJourney : Journey π) (iAirlineCodeList : List α) (iAirlineCode : α)
    (lOnDDate : ω) : Prop where
  airlineCode : bom.airlineCode lOnDDate = iAirlineCode
  journey : bom.journey lOnDDate = iJourney
  length : (bom.segmentDates lOnDDate).length = iAirlineCodeList.length
  operators : iAirlineCodeList.length ≠ 1 → bom.operators lOnDDate = iAirlineCodeList

theorem target_ok (h : target bom iJourney iAirlineCodeList iAirlineCode = .ok lOnDDate) :
    IsTarget bom iJourney iAirlineCodeList iAirlineCode lOnDDate := by
  unfold target at h
  split at h
  · rename_i hone
    obtain ⟨hcode, his⟩ := findInInventory_ok h
    simp only [isOnSegment, Bool.decide_and, Bool.and_eq_true, decide_eq_true_eq] at his
    exact ⟨hcode, his.1, his.2.trans hone.symm, fun hne => absurd hone hne⟩
  · obtain ⟨hcode, his⟩ := findInInventory_ok h
    simp only [isOnSegments, Bool.decide_and, Bool.and_eq_true, decide_eq_true_eq, Bool.decide_eq_true] at his
    exact ⟨hcode, his.1, his.2.1, fun _ => (operatedBy_iff his.2.1).1 his.2.2⟩

omit [DecidableEq α] [DecidableEq π] in
/-- An O&D date is stored at for one list of airlines only. -/
theorem IsTarget.unique {iJourney' : Journey π} {iAirlineCodeList' : List α} {iAirlineCode' : α}
    (h : IsTarget bom iJourney iAirlineCodeList iAirlineCode lOnDDate) (hmem : iAirlineCode ∈ iAirlineCodeList)
    (h' : IsTarget bom iJourney' iAirlineCodeList' iAirlineCode' lOnDDate) (hmem' : iAirlineCode' ∈ iAirlineCodeList') :
    iJourney = iJourney' ∧ iAirlineCodeList = iAirlineCodeList' := by
  have hlength : iAirlineCodeList'.length = iAirlineCodeList.length := h'.length.symm.trans h.length
  refine ⟨h.journey.symm.trans h'.journey, ?_⟩
  by_cases hone : iAirlineCodeList.length = 1
  · obtain ⟨code, rfl⟩ := List.length_eq_one_iff.1 hone
    obtain ⟨code', rfl⟩ := List.length_eq_one_iff.1 (hlength.trans hone)
    rw [List.mem_singleton] at hmem hmem'
    rw [← hmem, ← hmem', ← h.airlineCode, h'.airlineCode]
  · rw [← h.operators hone, ← h'.operators (hlength ▸ hone)]

end targets

/-! ## What is written -/

section plans
variable [DecidableEq α] [DecidableEq π] [DecidableEq ω] [DecidableEq γ] [DecidableEq σ]
  {setDemandInformation : SetDemandInformation γ σ} {bom : ForecastBom α π ω} {iJourney : Journey π} {iCabinCode : γ}
  {iAirlineClassList : AirlineClassList α σ} {iMeanValue iStdDevValue : ℝ}

/-- The path of a list of classes. -/
def cabinClassPath (iCabinCode : γ) (lClassCodeList : List σ) : CabinClassPath γ σ :=
  lClassCodeList.map fun lClassCode => (iCabinCode, lClassCode)

/-- The writes of a rule: at the O&D date of each airline, under the path of the first classes. -/
def rulePlan (bom : ForecastBom α π ω) (iJourney : Journey π) (iCabinCode : γ)
    (iAirlineClassList : AirlineClassList α σ) (lYieldDemand : YieldDemand) :
    Except StoreFault (List ((ω × CabinClassPath γ σ) × Option YieldDemand)) :=
  if iAirlineClassList.classCodeList.isEmpty then .error .noClassList
  else do
    let lClassCodeList ← firstClasses iAirlineClassList.classCodeList
    if iAirlineClassList.airlineCodeList.length ≠ lClassCodeList.length then .error .classesPerAirline
    else if iAirlineClassList.airlineCodeList.isEmpty then .error .noAirline
    else do
      let keys ← iAirlineClassList.airlineCodeList.mapM fun lAirlineCode => do
        let lOnDDate ← target bom iJourney iAirlineClassList.airlineCodeList lAirlineCode
        return (lOnDDate, cabinClassPath iCabinCode lClassCodeList)
      return keys.map fun key => (key, some lYieldDemand)

theorem setOnDForecastOnSegments_plans (hset : SetsDemand setDemandInformation) {lAirlineCodeList : List α}
    (hseveral : lAirlineCodeList.length ≠ 1) (lClassCodeList : List σ) (lYieldDemand : YieldDemand) :
    Plans (fun demands => lAirlineCodeList.foldlM (fun demands lAirlineCode => setOnDForecastOnSegments
        setDemandInformation bom iJourney iCabinCode lAirlineCodeList lClassCodeList lAirlineCode lYieldDemand demands)
        demands)
      (lAirlineCodeList.mapM (fun lAirlineCode => do
        let lOnDDate ← target bom iJourney lAirlineCodeList lAirlineCode
        return (lOnDDate, cabinClassPath iCabinCode lClassCodeList)) >>= fun keys =>
          .ok (keys.map fun key => (key, some lYieldDemand))) := by
  intro demands
  rw [← Plans.put _ (some lYieldDemand) lAirlineCodeList demands]
  refine foldlM_congr fun lAirlineCode _ demands => ?_
  rw [target, if_neg hseveral]
  simp only [setOnDForecastOnSegments, storeForecast, hset.setDemandAt_eq]
  cases findInInventory bom (isOnSegments bom iJourney lAirlineCodeList) lAirlineCode <;> rfl

theorem setOnDForecast_plans (hset : SetsDemand setDemandInformation) :
    Plans (setOnDForecast setDemandInformation bom iJourney iCabinCode iAirlineClassList iMeanValue iStdDevValue)
      (rulePlan bom iJourney iCabinCode iAirlineClassList ⟨iAirlineClassList.yield, iMeanValue, iStdDevValue⟩) := by
  obtain ⟨lAirlineCodeList, lClassList_StringList, lYield⟩ := iAirlineClassList
  unfold setOnDForecast rulePlan
  by_cases hempty : lClassList_StringList.isEmpty = true
  · simp only [hempty, if_true]
    exact Plans.fault _
  · simp only [hempty]
    refine Plans.after fun lClassCodeList _ => ?_
    by_cases hlength : lAirlineCodeList.length = lClassCodeList.length
    · simp only [hlength, ne_eq, not_true_eq_false, if_false]
      match lAirlineCodeList, lClassCodeList, hlength with
      | [], _, _ => exact Plans.fault _
      | [lAirlineCode], [lClassCode], _ =>
        intro demands
        simp only [setOnDForecastOnSegment, storeForecast, hset.setDemandAt_eq, target, List.mapM_cons,
          List.length_singleton, if_true]
        cases findInInventory bom (isOnSegment bom iJourney) lAirlineCode <;> rfl
      | first :: second :: rest, lClassCodeList, _ =>
        exact setOnDForecastOnSegments_plans hset (by simp) lClassCodeList _
    · simp only [ne_eq, hlength, not_false_eq_true, if_true]
      exact Plans.fault _

/-- The writes of a rule that gets through its assertions. -/
structure RuleWrites (bom : ForecastBom α π ω) (iJourney : Journey π) (iCabinCode : γ)
    (iAirlineClassList : AirlineClassList α σ) (lYieldDemand : YieldDemand)
    (l : List ((ω × CabinClassPath γ σ) × Option YieldDemand)) (lClassCodeList : List σ) : Prop where
  classes : firstClasses iAirlineClassList.classCodeList = .ok lClassCodeList
  nonempty : iAirlineClassList.airlineCodeList ≠ []
  targets : ∀ lAirlineCode ∈ iAirlineClassList.airlineCodeList, ∃ lOnDDate,
    target bom iJourney iAirlineClassList.airlineCodeList lAirlineCode = .ok lOnDDate ∧
      ((lOnDDate, cabinClassPath iCabinCode lClassCodeList), some lYieldDemand) ∈ l
  only : ∀ e ∈ l, ∃ lAirlineCode ∈ iAirlineClassList.airlineCodeList, ∃ lOnDDate,
    target bom iJourney iAirlineClassList.airlineCodeList lAirlineCode = .ok lOnDDate ∧
      e = ((lOnDDate, cabinClassPath iCabinCode lClassCodeList), some lYieldDemand)

omit [DecidableEq ω] [DecidableEq γ] [DecidableEq σ] in
theorem rulePlan_ok {lYieldDemand : YieldDemand} {l : List ((ω × CabinClassPath γ σ) × Option YieldDemand)}
    (h : rulePlan bom iJourney iCabinCode iAirlineClassList lYieldDemand = .ok l) :
    ∃ lClassCodeList, RuleWrites bom iJourney iCabinCode iAirlineClassList lYieldDemand l lClassCodeList := by
  unfold rulePlan at h
  split at h
  · cases h
  · obtain ⟨lClassCodeList, hclasses, h⟩ := bind_eq_ok.1 h
    split at h
    · cases h
    split at h
    · cases h
    rename_i hnonempty
    obtain ⟨keys, hkeys, hl⟩ := bind_eq_ok.1 h
    obtain rfl := Except.ok.inj hl
    have hkey : ∀ lAirlineCode ∈ iAirlineClassList.airlineCodeList, ∀ key,
        (do let lOnDDate ← target bom iJourney iAirlineClassList.airlineCodeList lAirlineCode
            return (lOnDDate, cabinClassPath iCabinCode lClassCodeList) : Except StoreFault _) = .ok key →
          ∃ lOnDDate, target bom iJourney iAirlineClassList.airlineCodeList lAirlineCode = .ok lOnDDate ∧
            key = (lOnDDate, cabinClassPath iCabinCode lClassCodeList) := by
      intro lAirlineCode _ key hrun
      obtain ⟨lOnDDate, htarget, hkey⟩ := bind_eq_ok.1 hrun
      exact ⟨lOnDDate, htarget, (Except.ok.inj hkey).symm⟩
    refine ⟨lClassCodeList, hclasses, by simpa using hnonempty, ?_, ?_⟩
    · intro lAirlineCode hcode
      obtain ⟨key, hmem, hrun⟩ := exists_of_mem_mapM_ok hkeys hcode
      obtain ⟨lOnDDate, htarget, rfl⟩ := hkey lAirlineCode hcode key hrun
      exact ⟨lOnDDate, htarget, List.mem_map_of_mem hmem⟩
    · intro e he
      obtain ⟨key, hmem, rfl⟩ := List.mem_map.1 he
      obtain ⟨lAirlineCode, hcode, hrun⟩ := mem_of_mapM_ok hkeys hmem
      obtain ⟨lOnDDate, htarget, rfl⟩ := hkey lAirlineCode hcode key hrun
      exact ⟨lAirlineCode, hcode, lOnDDate, htarget, rfl⟩

/-! ## Partners hold the same demand -/

/-- The O&D dates that the airlines of an itinerary hold for it have the same entries. -/
def PartnersAgree (bom : ForecastBom α π ω) (demands : DemandInfo ω γ σ) : Prop :=
  ∀ (iJourney : Journey π) (lAirlineCodeList : List α), ∀ lAirlineCode ∈ lAirlineCodeList,
    ∀ lPartnerCode ∈ lAirlineCodeList, ∀ lOnDDate lPartnerOnDDate,
      target bom iJourney lAirlineCodeList lAirlineCode = .ok lOnDDate →
      target bom iJourney lAirlineCodeList lPartnerCode = .ok lPartnerOnDDate →
      ∀ path, demands (lOnDDate, path) = demands (lPartnerOnDDate, path)

omit [DecidableEq ω] [DecidableEq γ] [DecidableEq σ] in
/-- A rule that writes an entry of an itinerary does so for all airlines of it. -/
theorem RuleWrites.mirrored {lYieldDemand : YieldDemand} {l : List ((ω × CabinClassPath γ σ) × Option YieldDemand)}
    {lClassCodeList : List σ} (h : RuleWrites bom iJourney iCabinCode iAirlineClassList lYieldDemand l lClassCodeList)
    {iJourney' : Journey π} {lAirlineCodeList : List α} {lAirlineCode lPartnerCode : α}
    (hcode : lAirlineCode ∈ lAirlineCodeList) (hpartner : lPartnerCode ∈ lAirlineCodeList)
    {lOnDDate lPartnerOnDDate : ω} (htarget : target bom iJourney' lAirlineCodeList lAirlineCode = .ok lOnDDate)
    (htarget' : target bom iJourney' lAirlineCodeList lPartnerCode = .ok lPartnerOnDDate) {path : CabinClassPath γ σ}
    (hwritten : ∃ e ∈ l, e.1 = (lOnDDate, path)) : ∃ e ∈ l, e.1 = (lPartnerOnDDate, path) := by
  obtain ⟨e, he, hkey⟩ := hwritten
  obtain ⟨code, hrulecode, lOnDDate', hrule, rfl⟩ := h.only e he
  obtain ⟨rfl, rfl⟩ := Prod.mk.inj hkey
  obtain ⟨rfl, rfl⟩ := (target_ok htarget).unique hcode (target_ok hrule) hrulecode
  obtain ⟨lOnDDate'', hrule', hmem⟩ := h.targets lPartnerCode hpartner
  obtain rfl := Except.ok.inj (htarget'.symm.trans hrule')
  exact ⟨_, hmem, rfl⟩

theorem PartnersAgree.setOnDForecast (hset : SetsDemand setDemandInformation) {demands out : DemandInfo ω γ σ}
    (hagree : PartnersAgree bom demands)
    (h : setOnDForecast setDemandInformation bom iJourney iCabinCode iAirlineClassList iMeanValue iStdDevValue demands =
      .ok out) : PartnersAgree bom out := by
  obtain ⟨l, hplan, rfl⟩ := (setOnDForecast_plans hset).ok h
  obtain ⟨lClassCodeList, hwrites⟩ := rulePlan_ok hplan
  have hvalue : ∀ key, (∃ e ∈ l, e.1 = key) →
      writes l demands key = some ⟨iAirlineClassList.yield, iMeanValue, iStdDevValue⟩ := by
    intro key hkey
    obtain ⟨v, hmem, hv⟩ := writes_apply hkey
    obtain ⟨_, _, _, _, he⟩ := hwrites.only _ hmem
    rw [hv, (Prod.mk.inj he).2]
  intro iJourney' lAirlineCodeList lAirlineCode hcode lPartnerCode hpartner lOnDDate lPartnerOnDDate htarget htarget' path
  by_cases hwritten : ∃ e ∈ l, e.1 = (lOnDDate, path)
  · rw [hvalue _ hwritten, hvalue _ (hwrites.mirrored hcode hpartner htarget htarget' hwritten)]
  · have hpartnerWritten : ¬ ∃ e ∈ l, e.1 = (lPartnerOnDDate, path) := fun hwritten' =>
      hwritten (hwrites.mirrored hpartner hcode htarget' htarget hwritten')
    rw [writes_apply_of_notMem fun e he hk => hwritten ⟨e, he, hk⟩,
      writes_apply_of_notMem fun e he hk => hpartnerWritten ⟨e, he, hk⟩]
    exact hagree iJourney' lAirlineCodeList lAirlineCode hcode lPartnerCode hpartner _ _ htarget htarget' path

/-! ## Forecasts that are lost -/

/-- What a call stores. -/
def yieldDemandOf (call : OnDForecastCall (AirlineClassList α σ)) : YieldDemand :=
  ⟨call.airlineClassList.yield, call.meanValue, call.stdDevValue⟩

/-- All airlines of a rule hold its forecast. -/
def Stored (bom : ForecastBom α π ω) (iJourney : Journey π) (iCabinCode : γ)
    (call : OnDForecastCall (AirlineClassList α σ)) (demands : DemandInfo ω γ σ) : Prop :=
  ∀ lAirlineCode ∈ call.airlineClassList.airlineCodeList, ∀ lOnDDate,
    target bom iJourney call.airlineClassList.airlineCodeList lAirlineCode = .ok lOnDDate →
    ∀ lClassCodeList, firstClasses call.airlineClassList.classCodeList = .ok lClassCodeList →
      demands (lOnDDate, cabinClassPath iCabinCode lClassCodeList) = some (yieldDemandOf call)

/-- Rules for the same airlines whose class lists begin with the same classes. -/
def SamePath (call call' : OnDForecastCall (AirlineClassList α σ)) : Prop :=
  call.airlineClassList.airlineCodeList = call'.airlineClassList.airlineCodeList ∧
    firstClasses call.airlineClassList.classCodeList = firstClasses call'.airlineClassList.classCodeList

omit [DecidableEq ω] [DecidableEq γ] [DecidableEq σ] in
/-- Rules that write one entry have the same path. -/
theorem RuleWrites.samePath {call call' : OnDForecastCall (AirlineClassList α σ)}
    {l l' : List ((ω × CabinClassPath γ σ) × Option YieldDemand)} {lClassCodeList lClassCodeList' : List σ}
    (h : RuleWrites bom iJourney iCabinCode call.airlineClassList (yieldDemandOf call) l lClassCodeList)
    (h' : RuleWrites bom iJourney iCabinCode call'.airlineClassList (yieldDemandOf call') l' lClassCodeList')
    {e e' : (ω × CabinClassPath γ σ) × Option YieldDemand} (he : e ∈ l) (he' : e' ∈ l') (hkey : e.1 = e'.1) :
    SamePath call call' := by
  obtain ⟨code, hcode, lOnDDate, htarget, rfl⟩ := h.only e he
  obtain ⟨code', hcode', lOnDDate', htarget', rfl⟩ := h'.only e' he'
  obtain ⟨rfl, hpath⟩ := Prod.mk.inj hkey
  have hclasses : lClassCodeList = lClassCodeList' :=
    List.map_injective_iff.2 (Prod.mk_right_injective iCabinCode) hpath
  refine ⟨((target_ok htarget).unique hcode (target_ok htarget') hcode').2, ?_⟩
  rw [h.classes, h'.classes, hclasses]

/-- **A forecast is kept** by all its airlines iff any two rules for the same airlines whose class lists begin with the
same classes forecast the same. -/
theorem setOnDForecasts_kept_iff (hset : SetsDemand setDemandInformation)
    {calls : List (OnDForecastCall (AirlineClassList α σ))} {demands out : DemandInfo ω γ σ}
    (h : setOnDForecasts setDemandInformation bom iJourney iCabinCode calls demands = .ok out) :
    (∀ call ∈ calls, Stored bom iJourney iCabinCode call out) ↔
      ∀ call ∈ calls, ∀ call' ∈ calls, SamePath call call' → yieldDemandOf call = yieldDemandOf call' := by
  have hplans : Plans (setOnDForecasts setDemandInformation bom iJourney iCabinCode calls) _ :=
    Plans.each fun call _ => setOnDForecast_plans hset
  obtain ⟨l, hl, rfl⟩ := hplans.ok h
  obtain ⟨ls, hls, hflat⟩ := bind_eq_ok.1 hl
  obtain rfl := Except.ok.inj hflat
  have hrule : ∀ call ∈ calls, ∃ l ∈ ls, ∃ lClassCodeList,
      RuleWrites bom iJourney iCabinCode call.airlineClassList (yieldDemandOf call) l lClassCodeList := by
    intro call hcall
    obtain ⟨l, hmem, hplan⟩ := exists_of_mem_mapM_ok hls hcall
    exact ⟨l, hmem, rulePlan_ok hplan⟩
  have hentry : ∀ e ∈ ls.flatten, ∃ call ∈ calls, ∃ l, e ∈ l ∧ ∃ lClassCodeList,
      RuleWrites bom iJourney iCabinCode call.airlineClassList (yieldDemandOf call) l lClassCodeList := by
    intro e he
    obtain ⟨l, hmem, hin⟩ := List.mem_flatten.1 he
    obtain ⟨call, hcall, hplan⟩ := mem_of_mapM_ok hls hmem
    exact ⟨call, hcall, l, hin, rulePlan_ok hplan⟩
  have hstored : (∀ call ∈ calls, Stored bom iJourney iCabinCode call (writes ls.flatten demands)) ↔
      ∀ e ∈ ls.flatten, writes ls.flatten demands e.1 = e.2 := by
    constructor
    · intro hall e he
      obtain ⟨call, hcall, l, hin, lClassCodeList, hwrites⟩ := hentry e he
      obtain ⟨code, hcode, lOnDDate, htarget, rfl⟩ := hwrites.only e hin
      exact hall call hcall code hcode lOnDDate htarget lClassCodeList hwrites.classes
    · intro hall call hcall code hcode lOnDDate htarget lClassCodeList hclasses
      obtain ⟨l, hmem, lClassCodeList', hwrites⟩ := hrule call hcall
      obtain ⟨lOnDDate', htarget', hin⟩ := hwrites.targets code hcode
      obtain rfl := Except.ok.inj (htarget.symm.trans htarget')
      obtain rfl := Except.ok.inj (hclasses.symm.trans hwrites.classes)
      exact hall _ (List.mem_flatten.2 ⟨l, hmem, hin⟩)
  rw [hstored, kept_iff]
  constructor
  · rintro hsame call hcall call' hcall' ⟨hcodes, hclasses⟩
    obtain ⟨l, hmem, lClassCodeList, hwrites⟩ := hrule call hcall
    obtain ⟨l', hmem', lClassCodeList', hwrites'⟩ := hrule call' hcall'
    obtain ⟨code, hcode⟩ := List.exists_mem_of_ne_nil _ hwrites.nonempty
    obtain ⟨lOnDDate, htarget, hin⟩ := hwrites.targets code hcode
    obtain ⟨lOnDDate', htarget', hin'⟩ := hwrites'.targets code (hcodes ▸ hcode)
    rw [← hcodes] at htarget'
    obtain rfl := Except.ok.inj (htarget.symm.trans htarget')
    obtain rfl := Except.ok.inj (hwrites.classes.symm.trans (hclasses.trans hwrites'.classes))
    exact Option.some.inj (hsame _ (List.mem_flatten.2 ⟨l, hmem, hin⟩) _ (List.mem_flatten.2 ⟨l', hmem', hin'⟩) rfl)
  · intro hsame e he e' he' hkey
    obtain ⟨call, hcall, l, hin, lClassCodeList, hwrites⟩ := hentry e he
    obtain ⟨call', hcall', l', hin', lClassCodeList', hwrites'⟩ := hentry e' he'
    have hequal := hsame call hcall call' hcall' (hwrites.samePath hwrites' hin hin' hkey)
    obtain ⟨_, _, _, _, rfl⟩ := hwrites.only e hin
    obtain ⟨_, _, _, _, rfl⟩ := hwrites'.only e' hin'
    exact congrArg some hequal

end plans

/-! ### An itinerary of two airlines

Each airline flies one of its two segments and sells the other. -/

theorem twoPartners_airlineCode : ∀ inventory ∈ ([⟨0, [0]⟩, ⟨1, [1]⟩] : List (ForecastInventory ℕ ℕ)),
    ∀ lOnDDate ∈ inventory.onDDates, lOnDDate = inventory.airlineCode := by simp

def twoPartners : ForecastBom ℕ Unit ℕ where
  inventories := [⟨0, [0]⟩, ⟨1, [1]⟩]
  date _ := 1
  origin _ := ()
  destination _ := ()
  airlineCode lOnDDate := lOnDDate
  segmentDates lOnDDate := if lOnDDate = 0 then [none, some 1] else [some 0, none]
  airlineCode_of_mem := twoPartners_airlineCode

/-- Class 0 on both segments. -/
def partnersRule (lSecondClasses : List ℕ) : AirlineClassList ℕ ℕ := ⟨[0, 1], [[0], lSecondClasses], 1⟩

/-- A forecast for class 0 on the second segment, and one for these classes. -/
def twoForecasts (lSecondClasses : List ℕ) : List (OnDForecastCall (AirlineClassList ℕ ℕ)) :=
  [⟨partnersRule [0], 1, 0⟩, ⟨partnersRule lSecondClasses, 0, 0⟩]

/-- Class 1 on the second segment has a path of its own. In the list of the classes 0 and 1 it is not the first one, and
the second forecast takes the place of the other. -/
theorem setOnDForecasts_kept_iff_twoForecasts :
    (∃ out : DemandInfo ℕ Unit ℕ,
      setOnDForecasts setEntry twoPartners ⟨1, (), ()⟩ () (twoForecasts [1]) (fun _ => none) = .ok out ∧
      ∀ call ∈ twoForecasts [1], Stored twoPartners ⟨1, (), ()⟩ () call out) ∧
    ∃ out : DemandInfo ℕ Unit ℕ,
      setOnDForecasts setEntry twoPartners ⟨1, (), ()⟩ () (twoForecasts [0, 1]) (fun _ => none) = .ok out ∧
      ¬ ∀ call ∈ twoForecasts [0, 1], Stored twoPartners ⟨1, (), ()⟩ () call out := by
  constructor
  · refine ⟨_, rfl, (setOnDForecasts_kept_iff setEntry_setsDemand rfl).2 ?_⟩
    rintro call hcall call' hcall' ⟨-, hclasses⟩
    rcases List.mem_pair.1 hcall with rfl | rfl <;> rcases List.mem_pair.1 hcall' with rfl | rfl
    · rfl
    · cases hclasses
    · cases hclasses
    · rfl
  · refine ⟨_, rfl, fun hstored => ?_⟩
    have hsame := (setOnDForecasts_kept_iff setEntry_setsDemand rfl).1 hstored ⟨partnersRule [0], 1, 0⟩
      List.mem_cons_self ⟨partnersRule [0, 1], 0, 0⟩ (List.mem_cons_of_mem _ List.mem_cons_self) ⟨rfl, rfl⟩
    simp [yieldDemandOf] at hsame

/-! ## Runs of forecasts -/

section runs
variable [DecidableEq α] [DecidableEq π] [DecidableEq ω] [DecidableEq γ] [DecidableEq σ]
  {env : OnDForecastEnv α π ω γ σ} {lDate : Date} {demands out : DemandInfo ω γ σ}

omit [DecidableEq γ] [DecidableEq σ] in
/-- What a rule keeps is kept by the forecast of a RM event. -/
theorem forecastOnDAt_inv {P : DemandInfo ω γ σ → Prop}
    (hrule : ∀ {iJourney : Journey π} {iCabinCode : γ} {iAirlineClassList : AirlineClassList α σ}
      {iMeanValue iStdDevValue : ℝ} {demands out : DemandInfo ω γ σ}, P demands →
      setOnDForecast env.setDemandInformation env.bom iJourney iCabinCode iAirlineClassList iMeanValue iStdDevValue
        demands = .ok out → P out)
    (hdemands : P demands) (h : forecastOnDAt env lDate demands = .ok out) : P out := by
  unfold forecastOnDAt at h
  split at h
  · cases h
  refine foldlM_inv P (fun inventory _ demands out hdemands hinventory => ?_) hdemands h
  refine foldlM_inv P (fun lOnDDate _ demands out hdemands honD => ?_) hdemands hinventory
  refine foldlM_inv P (fun entry _ demands out hdemands hcabin => ?_) hdemands honD
  obtain ⟨calls, -, hcalls⟩ := bind_eq_ok.1 hcabin
  exact foldlM_inv P (fun call _ demands out hdemands hcall => hrule hdemands hcall) hdemands hcalls

theorem forecastCabin_plans (hset : SetsDemand env.setDemandInformation) (lOnDDate : ω) (entry : γ × TotalForecast) :
    Plans (forecastCabin env lDate lOnDDate entry)
      (forecastCalls env lDate lOnDDate entry >>= fun calls => calls.mapM (fun call =>
        rulePlan env.bom (env.bom.journey lOnDDate) entry.1 call.airlineClassList
          ⟨call.airlineClassList.yield, call.meanValue, call.stdDevValue⟩) >>= fun ls => .ok ls.flatten) :=
  Plans.after fun _ _ => Plans.each fun _ _ => setOnDForecast_plans hset

/-- The forecast of a RM event plans its writes. -/
theorem forecastOnDAt_plans (hset : SetsDemand env.setDemandInformation) : ∃ plan, Plans (forecastOnDAt env lDate) plan := by
  unfold forecastOnDAt
  by_cases hempty : env.bom.inventories.isEmpty = true
  · simp only [hempty, if_true]
    exact ⟨_, Plans.fault _⟩
  · simp only [hempty]
    exact ⟨_, Plans.each fun inventory _ => Plans.each fun lOnDDate _ => Plans.each fun entry _ =>
      forecastCabin_plans hset lOnDDate entry⟩

/-- **Forecasting again** for the same date changes nothing. -/
theorem forecastOnDAt_again (hset : SetsDemand env.setDemandInformation)
    (h : forecastOnDAt env lDate demands = .ok out) : forecastOnDAt env lDate out = .ok out := by
  have hplans : ∃ plan, Plans (forecastOnDAt env lDate) plan := forecastOnDAt_plans hset
  obtain ⟨plan, hplan⟩ := hplans
  exact hplan.again h

/-- **Partners hold the same demand** for the itineraries that they fly together, after any run of RM events on
demand info maps that are empty at first. -/
theorem forecasts_partnersAgree (hset : SetsDemand env.setDemandInformation) (lDates : List Date)
    (h : lDates.foldlM (fun demands lDate => forecastOnDAt env lDate demands) (fun _ => none) = .ok out) :
    PartnersAgree env.bom out := by
  refine foldlM_inv (PartnersAgree env.bom) (fun lDate _ demands out hagree hevent => ?_)
    (fun _ _ _ _ _ _ _ _ _ _ _ => rfl) h
  exact forecastOnDAt_inv (fun hagree hrule => PartnersAgree.setOnDForecast hset hagree hrule) hagree hevent

end runs

/-- One cabin, whose total forecast is at the O&D date of airline 0. -/
def partnersEnv : OnDForecastEnv ℕ Unit ℕ Unit ℕ where
  bom := twoPartners
  setDemandInformation := setEntry
  lDCPList := [1]
  totalForecastMap lOnDDate := if lOnDDate = 0 then [((), ⟨1, 1, 1⟩)] else []
  airportPair _ _ := some [⟨fun _ => true, some [fun _ => some [partnersRule [0]]]⟩]
  getRemainingProportion _ := 1
  frat5CoefMap _ := some ((2 : ℕ) : ℝ)

theorem forecasts_partnersAgree_twoPartners : ∃ out : DemandInfo ℕ Unit ℕ,
    [0, 1].foldlM (fun demands lDate => forecastOnDAt partnersEnv lDate demands) (fun _ => none) = .ok out ∧
    (out (0, [((), 0), ((), 0)])).isSome ∧ out (1, [((), 0), ((), 0)]) = out (0, [((), 0), ((), 0)]) := by
  have hrun : ∃ out : DemandInfo ℕ Unit ℕ, [0, 1].foldlM (fun demands lDate => forecastOnDAt partnersEnv lDate demands)
      (fun _ => none) = .ok out ∧ (out (0, [((), 0), ((), 0)])).isSome := ⟨_, rfl, rfl⟩
  obtain ⟨out, hout, hstored⟩ := hrun
  exact ⟨out, hout, hstored, forecasts_partnersAgree setEntry_setsDemand [0, 1] hout ⟨1, (), ()⟩ [0, 1] 1 (by simp) 0
    (by simp) 1 0 rfl rfl _⟩

end Rmol
