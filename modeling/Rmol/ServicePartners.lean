import Rmol.ServiceRuns
/-!
# What partners hold and hand over after RM events

A run of events keeps the store of forecasts sound: partners have the same entries for the itineraries that they fly
together, and an O&D date has finitely many (`eventRun_sound`). So the entries of an O&D date are those that the
projection goes through (`mem_demandInfoMap`), and what the last record leaves can be read off the store: the demand of
every due leg-cabin (`eventRun_demand`), and with advanced RM cooperation the yields that the partners hand over
(`eventRun_shares`).
-/

namespace Rmol

open Locality Records Writes

variable {α κ π ω γ σ : Type}

/-! ## Sound stores -/

/-- An O&D date has finitely many entries, and those of partners are the same. -/
structure SoundStore [DecidableEq α] [DecidableEq π] (bom : ForecastBom α π ω) (demands : DemandInfo ω γ σ) : Prop where
  agree : PartnersAgree bom demands
  finite : ∀ lOnDDate, {path | demands (lOnDDate, path) ≠ none}.Finite

section sound
variable [DecidableEq α] [DecidableEq π] {bom : ForecastBom α π ω} {demands out : DemandInfo ω γ σ}

theorem soundStore_empty : SoundStore bom (fun _ => none : DemandInfo ω γ σ) where
  agree _ _ _ _ _ _ _ _ _ _ _ := rfl
  finite _ := Set.finite_empty.subset fun _ h => h rfl

variable [DecidableEq ω] [DecidableEq γ] [DecidableEq σ]

/-- A list of writes gives an O&D date finitely many entries more. -/
theorem writes_finite {l : List ((ω × CabinClassPath γ σ) × Option YieldDemand)} {lOnDDate : ω}
    (h : {path | demands (lOnDDate, path) ≠ none}.Finite) :
    {path | writes l demands (lOnDDate, path) ≠ none}.Finite := by
  refine (h.union (l.map fun e => e.1.2).finite_toSet).subset fun path hpath => ?_
  by_cases hwritten : ∃ e ∈ l, e.1 = (lOnDDate, path)
  · obtain ⟨e, he, hkey⟩ := hwritten
    exact .inr (List.mem_map.2 ⟨e, he, congrArg Prod.snd hkey⟩)
  · refine .inl ?_
    rwa [Set.mem_ofPred_eq, writes_apply_of_notMem fun e he hkey => hwritten ⟨e, he, hkey⟩] at hpath

theorem SoundStore.setOnDForecast {setDemandInformation : SetDemandInformation γ σ}
    (hset : SetsDemand setDemandInformation) {iJourney : Journey π} {iCabinCode : γ}
    {iAirlineClassList : AirlineClassList α σ} {iMeanValue iStdDevValue : ℝ} (hsound : SoundStore bom demands)
    (h : setOnDForecast setDemandInformation bom iJourney iCabinCode iAirlineClassList iMeanValue iStdDevValue demands =
      .ok out) : SoundStore bom out where
  agree := PartnersAgree.setOnDForecast hset hsound.agree h
  finite lOnDDate := by
    obtain ⟨l, -, rfl⟩ := (setOnDForecast_plans hset).ok h
    exact writes_finite (hsound.finite lOnDDate)

end sound

section run
variable [DecidableEq α] [DecidableEq κ] [DecidableEq π] [DecidableEq ω] [DecidableEq γ] [DecidableEq σ]
  {env : ServiceEnv α κ π ω γ σ} {st out : ServiceState α κ ω γ σ} {events : List PartnershipEvent}
  {event : PartnershipEvent}

theorem optimiseWithPartners_sound (hset : SetsDemand env.setDemandInformation)
    (hsound : SoundStore env.bom st.demands)
    (h : optimiseWithPartners env st event = .ok out) : SoundStore env.bom out.demands := by
  unfold optimiseWithPartners at h
  split at h
  · obtain ⟨-, hforecast, -⟩ := freshEvent_ok h
    exact forecastOnDAt_inv (fun hsound hrule => SoundStore.setOnDForecast hset hsound hrule) hsound hforecast
  · obtain rfl := Except.ok.inj h
    exact hsound

/-- A run of events keeps a sound store sound. -/
theorem eventRun_sound (hset : SetsDemand env.setDemandInformation) (hsound : SoundStore env.bom st.demands)
    (h : optimiseEventsWithPartners env events st = .ok out) : SoundStore env.bom out.demands :=
  foldlM_inv (fun st : ServiceState α κ ω γ σ => SoundStore env.bom st.demands)
    (fun _ _ _ _ hsound hevent => optimiseWithPartners_sound hset hsound hevent) hsound h

omit [DecidableEq α] [DecidableEq κ] [DecidableEq π] [DecidableEq ω] [DecidableEq γ] [DecidableEq σ] in
/-- The projection goes through the entries of the store. -/
theorem mem_demandInfoMap {demands : DemandInfo ω γ σ} {lOnDDate : ω}
    (hfinite : {path | demands (lOnDDate, path) ≠ none}.Finite) {lDemand : PathDemand (γ × σ)} :
    lDemand ∈ (env.onDDate demands lOnDDate).demandInfoMap ↔
      ∃ path lYieldDemand, demands (lOnDDate, path) = some lYieldDemand ∧ pathDemand path lYieldDemand = lDemand := by
  simp only [ServiceEnv.onDDate, demandInfoMap, List.mem_filterMap, mem_storedPaths hfinite, Option.map_eq_some_iff]
  constructor
  · rintro ⟨path, -, lYieldDemand, hstored, rfl⟩
    exact ⟨path, lYieldDemand, hstored, rfl⟩
  · rintro ⟨path, lYieldDemand, hstored, rfl⟩
    exact ⟨path, by simp [hstored], lYieldDemand, hstored, rfl⟩

/-! ## The demand of the leg-cabins -/

omit [DecidableEq γ] [DecidableEq σ] in
/-- **The demand of a leg-cabin** that is due on the date of the last record is the sum of the forecasts that its
airline holds for the due itineraries over it, whatever the techniques of the run were. -/
theorem eventRun_demand {yieldLevel : ℝ → ℤ} (hadd : AddsDemand env.net.addDemandInformation yieldLevel)
    (hcodes : (env.bom.inventories.map ForecastInventory.airlineCode).Nodup)
    (himages : event.technique = .RMC → env.ReadsItsImages)
    (h : optimiseEventsWithPartners env events st = .ok out) (hlast : (freshEvents st events).getLast? = some event) :
    ∀ inventory ∈ env.inventories out.demands, ∀ lFlightDate ∈ dueFlightDates env.net event.date inventory,
      ∀ key ∈ lFlightDate.keys, FiniteLevels (demandMaps out.network (.operated key)) ∧
        levelsDemand (demandMaps out.network (.operated key)) =
          dueDemandOf env.lDCPList event.date inventory.toInventory (.operated key) := by
  intro inventory hmem lFlightDate hdue key hkey
  obtain ⟨calls, hcalls, hheld⟩ := (eventRun_holds hcodes himages h hlast).2 inventory hmem lFlightDate hdue key hkey
  have hmap : demandMaps out.network (.operated key) =
      addDemands env.net.addDemandInformation calls (fun _ _ => none) (.operated key) :=
    hheld.trans (addDemands_leg calls (fun _ _ => none) _).symm
  have hnone : FiniteLevels fun _ => none := Set.finite_empty.subset fun _ h => h rfl
  rw [hmap, ← env.sameDCPList, ← zero_add (dueDemandOf _ _ _ _), ← levelsDemand_empty]
  exact addDemands_demand hadd (dueCalls_demand hcalls) hnone

end run

theorem eventRun_demand_partners : ∃ out,
    optimiseEventsWithPartners partnersServiceEnv partnersEvents partnersStart = .ok out ∧
      ∀ airline, airline = 0 ∨ airline = 1 →
        levelsDemand (demandMaps out.network (.operated (flownLegCabin airline))) = (1, 0) := by
  obtain ⟨out, hrun, hdemands, -⟩ := partnersService_run
  have hlast : (freshEvents partnersStart partnersEvents).getLast? = some ⟨0, .A_RMC⟩ := rfl
  have hadd : AddsDemand partnersServiceEnv.net.addDemandInformation fun y => ⌊y⌋ := addAtLevel_addsDemand _
  have hall := eventRun_demand hadd partnersServiceEnv_codes (fun h => by cases h) hrun hlast
  rw [partnersService_inventories hdemands] at hall
  refine ⟨out, hrun, fun airline hairline => ?_⟩
  have hmem : partnersInventory airline ∈ partnersInventories := by
    rcases hairline with rfl | rfl <;> simp [partnersInventories]
  obtain ⟨-, hdemand⟩ := hall (partnersInventory airline) hmem (allianceFlightDate airline) List.mem_cons_self
    (flownLegCabin airline) List.mem_cons_self
  rw [hdemand]
  rcases hairline with rfl | rfl <;> simp [dueDemandOf, dueShares, operatedShares, partnersInventory,
    NetInventory.toInventory, isDue, partnersServiceEnv, pathSegments, operatedLegCabins, partnersSegment,
    allianceSegment, SegmentDate.byClass, partnersPath]

/-! ## The yields that partners hand over -/

section shares
variable [DecidableEq α] [DecidableEq κ] [DecidableEq π] [DecidableEq ω] [DecidableEq γ] [DecidableEq σ]
  {env : ServiceEnv α κ π ω γ σ} {st out : ServiceState α κ ω γ σ} {events : List PartnershipEvent}
  {event : PartnershipEvent}

/-- **Partners share out what is stored.** Where the last record is one of advanced RM cooperation, the airlines of an
itinerary hold the same entry for it, their projections at the bid prices that the run ends with all succeed, and the
yields that they hand to their leg-cabins add up to the yield of the entry, where the total bid price is positive. -/
theorem eventRun_shares {iJourney : Journey π} {lAirlineCodeList : List α} {onD : α → ω}
    {itinerary : List (OperatedSegment α (γ × σ) (LegCabinKey α κ))} {path : CabinClassPath γ σ}
    {lYieldDemand : YieldDemand} (hset : SetsDemand env.setDemandInformation)
    (hupdate : env.net.UpdatesFromVector) (hsound : SoundStore env.bom st.demands)
    (h : optimiseEventsWithPartners env events st = .ok out) (hlast : (freshEvents st events).getLast? = some event)
    (htechnique : event.technique = .A_RMC)
    (htarget : ∀ airline ∈ lAirlineCodeList, target env.bom iJourney lAirlineCodeList airline = .ok (onD airline))
    (hstored : ∃ airline ∈ lAirlineCodeList, out.demands (onD airline, path) = some lYieldDemand)
    (hflown : ∀ flown ∈ itinerary, flown.operator ∈ lAirlineCodeList ∧ flown.legCabins ≠ [])
    (hholds : ∀ airline ∈ lAirlineCodeList,
      HoldsItinerary airline itinerary (env.onDDate out.demands (onD airline)) (pathDemand path lYieldDemand))
    (hsent : ∀ airline ∈ lAirlineCodeList, ∀ flown ∈ itinerary, flown.operator ≠ airline → ∀ key ∈ flown.legCabins,
      ∃ inventory ∈ env.inventories out.demands, ⟨airline, key⟩ ∈ sentImages env.net event.date inventory)
    (htotal : 0 < itineraryBidPrice (bidPriceOf out.network) (itinerary.map flownSegment)) :
    (∀ airline ∈ lAirlineCodeList,
      pathDemand path lYieldDemand ∈ (env.onDDate out.demands (onD airline)).demandInfoMap ∧
        pathDemandsDYP (bidPriceOf out.network) (env.onDDate out.demands (onD airline)) (pathDemand path lYieldDemand) =
          .ok (proratedDemands (bidPriceOf out.network) (env.onDDate out.demands (onD airline))
            (pathDemand path lYieldDemand))) ∧
      ∑ airline ∈ lAirlineCodeList.toFinset, handedOver (proratedDemands (bidPriceOf out.network)
        (env.onDDate out.demands (onD airline)) (pathDemand path lYieldDemand)) = lYieldDemand.yield := by
  have hout : SoundStore env.bom out.demands := eventRun_sound hset hsound h
  obtain ⟨before, hevent⟩ := eventRun_last h hlast
  obtain ⟨-, -, hcommands⟩ := freshEvent_ok hevent
  rw [htechnique] at hcommands
  obtain ⟨projected, hcooperate⟩ := cooperation_ok hcommands
  -- partners have the same entry, which the projection of each of them meets
  have hentry : ∀ airline ∈ lAirlineCodeList, out.demands (onD airline, path) = some lYieldDemand := by
    obtain ⟨first, hfirst, hstored⟩ := hstored
    intro airline hairline
    rw [← hstored]
    exact hout.agree iJourney lAirlineCodeList airline hairline first hfirst _ _ (htarget airline hairline)
      (htarget first hfirst) path
  have hmirrors : ∀ airline ∈ lAirlineCodeList.toFinset,
      HoldsItinerary airline itinerary (env.onDDate out.demands (onD airline)) (pathDemand path lYieldDemand) ∧
        (pathDemand path lYieldDemand).yield = lYieldDemand.yield :=
    fun airline hairline => ⟨hholds airline (List.mem_toFinset.1 hairline), rfl⟩
  have hprices : ∀ airline ∈ lAirlineCodeList.toFinset, SamePrices (bidPriceOf out.network) (itinerary.map flownSegment)
      (env.onDDate out.demands (onD airline)) (pathDemand path lYieldDemand) := fun airline hairline =>
    advancedCooperation_samePrices hupdate hcooperate (hmirrors airline hairline).1
      (hsent airline (List.mem_toFinset.1 hairline))
  have hoperators : ∀ flown ∈ itinerary, flown.operator ∈ lAirlineCodeList.toFinset ∧ flown.legCabins ≠ [] :=
    fun flown hmem => ⟨List.mem_toFinset.2 (hflown flown hmem).1, (hflown flown hmem).2⟩
  obtain ⟨hruns, hsum⟩ := partners_share hoperators hmirrors hprices htotal
  refine ⟨fun airline hairline => ⟨?_, hruns airline (List.mem_toFinset.2 hairline)⟩, hsum⟩
  exact (mem_demandInfoMap (hout.finite _)).2 ⟨path, lYieldDemand, hentry airline hairline, rfl⟩

end shares

def partnersItinerary : List (OperatedSegment ℕ (Unit × ℕ) (LegCabinKey ℕ ℕ)) :=
  [⟨0, ((), 0), [flownLegCabin 0]⟩, ⟨1, ((), 0), [flownLegCabin 1]⟩]

theorem partners_hold (demands : DemandInfo ℕ Unit ℕ) (lYieldDemand : YieldDemand) : ∀ airline ∈ [0, 1],
    HoldsItinerary airline partnersItinerary (partnersServiceEnv.onDDate demands airline)
      (pathDemand partnersPath lYieldDemand) := by
  intro airline hairline
  refine ⟨rfl, rfl, ?_⟩
  have hcases : airline = 0 ∨ airline = 1 := by simpa using hairline
  rcases hcases with rfl | rfl <;>
    simp [partnersItinerary, pathSegments, ServiceEnv.onDDate, partnersServiceEnv, partnersSegment, allianceSegment,
      HoldsSegment, heldLegCabin, SegmentDate.byClass, pathDemand, partnersPath]

theorem partners_sent : ∀ airline ∈ [0, 1], ∀ flown ∈ partnersItinerary, flown.operator ≠ airline →
    ∀ key ∈ flown.legCabins, ∃ inventory ∈ partnersInventories, ⟨airline, key⟩ ∈ sentImages oneSeatEnv 0 inventory := by
  intro airline hairline flown hflown hother key hkey
  have hcases : airline = 0 ∨ airline = 1 := by simpa using hairline
  have hflown' : flown = ⟨0, ((), 0), [flownLegCabin 0]⟩ ∨ flown = ⟨1, ((), 0), [flownLegCabin 1]⟩ := by
    simpa [partnersItinerary] using hflown
  rcases hflown' with rfl | rfl <;> obtain rfl := List.mem_singleton.1 hkey <;> rcases hcases with rfl | rfl
  · exact absurd rfl hother
  · exact ⟨partnersInventory 0, by simp [partnersInventories], heldLegCabin_sent 0 (.inl rfl)⟩
  · exact ⟨partnersInventory 1, by simp [partnersInventories], heldLegCabin_sent 1 (.inr rfl)⟩
  · exact absurd rfl hother

theorem eventRun_shares_partners : ∃ out,
    optimiseEventsWithPartners partnersServiceEnv partnersEvents partnersStart = .ok out ∧
      ∑ airline ∈ [0, 1].toFinset, handedOver (proratedDemands (bidPriceOf out.network)
        (partnersServiceEnv.onDDate out.demands airline) (pathDemand partnersPath ⟨2, 1, 0⟩)) = 2 := by
  obtain ⟨out, hrun, hdemands, hprices⟩ := partnersService_run
  have hlast : (freshEvents partnersStart partnersEvents).getLast? = some ⟨0, .A_RMC⟩ := rfl
  have htarget : ∀ airline ∈ [0, 1], target partnersServiceEnv.bom ⟨0, (), ()⟩ [0, 1] airline = .ok airline := by
    intro airline hairline
    have hcases : airline = 0 ∨ airline = 1 := by simpa using hairline
    rcases hcases with rfl | rfl <;> rfl
  have hstored : ∃ airline ∈ [0, 1], out.demands (airline, partnersPath) = some ⟨2, 1, 0⟩ :=
    ⟨0, List.mem_cons_self, by rw [hdemands 0 (.inl rfl), if_pos rfl]⟩
  have hflown : ∀ flown ∈ partnersItinerary, flown.operator ∈ [0, 1] ∧ flown.legCabins ≠ [] := by
    simp [partnersItinerary]
  have hsent := partners_sent
  rw [← partnersService_inventories hdemands] at hsent
  have htotal : 0 < itineraryBidPrice (bidPriceOf out.network) (partnersItinerary.map flownSegment) := by
    norm_num [itineraryBidPrice, partnersItinerary, flownSegment, hprices]
  exact ⟨out, hrun, (eventRun_shares setEntry_setsDemand oneSeatEnv_updates soundStore_empty hrun hlast rfl htarget
    hstored hflown (partners_hold out.demands _) hsent htotal).2⟩

end Rmol
