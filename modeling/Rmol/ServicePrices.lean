import Rmol.ServiceRuns
/-!
# The bid prices after RM events

Every command that ends a branch optimises the due leg-cabins and then writes demand maps only, or sends bid prices that
an update leaves as they are. So a run of events leaves the due leg-cabins of its last record with a bid price vector for
the whole pool, whose last entry is the current bid price (`eventRun_prices`). With advanced RM cooperation the partners
hold this price.
-/

namespace Rmol

open Locality Records

variable {α κ π ω γ σ : Type}

/-! ## The commands -/

section commands
variable [DecidableEq α] [DecidableEq κ] {env : NetEnv α κ}
  {bookingClassYield : SegmentDate γ (NetLegCabin α κ) → γ → Option ℝ} {lDate : Date} {technique : Technique}
  {inventory : NetInventory α κ γ} {inventories : List (NetInventory α κ γ)} {state between out : NetState α κ}

/-- All due leg-cabins are priced. -/
def AllPriced (env : NetEnv α κ) (lDate : Date) (inventories : List (NetInventory α κ γ)) (state : NetState α κ) : Prop :=
  ∀ inventory ∈ inventories, ∀ lFlightDate ∈ dueFlightDates env lDate inventory, ∀ key ∈ lFlightDate.keys,
    env.Priced key (state (.operated key))

/-- What every optimisation of a leg-cabin establishes holds for all due leg-cabins. -/
theorem Establishes.optimiseOnD {Q : LegCabinKey α κ → NetLegCabinState → Prop}
    (hQ : Establishes env fun key _ lLC => Q key lLC) (h : optimiseOnD env lDate inventories state = .ok (⟨⟩, out)) :
    ∀ inventory ∈ inventories, ∀ lFlightDate ∈ dueFlightDates env lDate inventory, ∀ key ∈ lFlightDate.keys,
      Q key (out (.operated key)) := by
  have hkept : ∀ {lFlightDate : NetFlightDate α κ} {key s t},
      (do let _ ← optimiseUsingOnDForecast env lFlightDate : RMOp α κ PUnit) s = .ok (⟨⟩, t) →
        Q key (s (.operated key)) → Q key (t (.operated key)) := by
    intro lFlightDate key s t hrun hq
    obtain ⟨v, after, hflight, hend⟩ := bind_ok.1 hrun
    obtain ⟨-, rfl⟩ := pure_ok.1 hend
    exact hQ.flightDate_kept (v := 0) hq hflight
  refine forM_each (Q := fun inventory state => ∀ lFlightDate ∈ dueFlightDates env lDate inventory,
    ∀ key ∈ lFlightDate.keys, Q key (state (.operated key))) (fun inventory _ s t hrun => ?_)
    (fun inventory _ other _ s t hq hrun lFlightDate hdue key hkey => ?_) h
  · refine forM_each (Q := fun lFlightDate state => ∀ key ∈ lFlightDate.keys, Q key (state (.operated key)))
      (fun lFlightDate _ s t hstep => ?_) (fun lFlightDate _ other _ s t hq hstep key hkey => hkept hstep (hq key hkey)) hrun
    obtain ⟨v, after, hflight, hend⟩ := bind_ok.1 hstep
    obtain ⟨-, rfl⟩ := pure_ok.1 hend
    exact hQ.flightDate_done hflight
  · exact forM_invariant (P := fun state => Q key (state (.operated key))) (fun other _ s t hs hstep => hkept hstep hs)
      (hq lFlightDate hdue key hkey) hrun

omit [DecidableEq α] [DecidableEq κ] in
theorem AllPriced.withDemandMaps (h : AllPriced env lDate inventories state)
    {maps : NetLegCabin α κ → YieldLevelDemandMap} : AllPriced env lDate inventories (withDemandMaps state maps) :=
  fun inventory hmem lFlightDate hdue key hkey =>
    ⟨(h inventory hmem lFlightDate hdue key hkey).last, (h inventory hmem lFlightDate hdue key hkey).seats⟩

theorem networkPass_priced (hupdate : env.UpdatesFromVector) {lMaxBPVariation : ℝ}
    (h : networkPass env lDate inventories state = .ok (lMaxBPVariation, out)) : AllPriced env lDate inventories out := by
  obtain ⟨optimised, updated, emptied, hoptimise, hprices, hreset, hproject⟩ := networkPass_ok h
  rw [resetProject_frame hreset hproject]
  refine AllPriced.withDemandMaps fun inventory hmem lFlightDate hdue key hkey => ?_
  have hpriced := establishes_priced.network hoptimise inventory hmem lFlightDate hdue key hkey
  have hsame := updateBidPrices_due hupdate hoptimise hprices inventory hmem lFlightDate hdue key hkey
  exact ⟨hsame.bidPrices ▸ hsame.bidPriceVector ▸ hpriced.last, hsame.bidPriceVector ▸ hpriced.seats⟩

theorem cooperate_priced {lMaxBPVariation : ℝ} (h : cooperate env lDate inventory state = .ok (lMaxBPVariation, out)) :
    AllPriced env lDate [inventory] out := by
  obtain ⟨before, hpass⟩ := loop_last (by norm_num) (by norm_num) h
  obtain ⟨v, optimised, hoptimise, h⟩ := bind_ok.1 hpass
  obtain ⟨⟨⟩, emptied, hreset, h⟩ := bind_ok.1 h
  obtain ⟨⟨⟩, projected, hproject, hend⟩ := bind_ok.1 h
  obtain ⟨-, rfl⟩ := pure_ok.1 hend
  have hpriced : AllPriced env lDate [inventory] optimised := by
    intro inventory' hsingle
    obtain rfl := List.mem_singleton.1 hsingle
    exact establishes_priced.flightDates_done hoptimise
  obtain ⟨maps, -, rfl⟩ := onMaps_ok.1 hreset
  obtain ⟨maps', -, rfl⟩ := onMaps_ok.1 hproject
  exact hpriced.withDemandMaps.withDemandMaps

theorem optimiseOnDUsingRMCooperation_priced (hcodes : (inventories.map NetInventory.airlineCode).Nodup)
    (himages : ∀ inventory ∈ inventories, inventory.ReadsItsImages)
    (h : optimiseOnDUsingRMCooperation env lDate inventories state = .ok (⟨⟩, out)) :
    AllPriced env lDate inventories out := by
  have heach : ∀ inventory ∈ inventories, AllPriced env lDate [inventory] out := by
    refine rmCooperation_each hcodes himages (fun inventory v s t hcooperate => cooperate_priced hcooperate) ?_ h
    intro inventory hmem s t hagree hpriced inventory' hsingle lFlightDate hdue key hkey
    obtain rfl := List.mem_singleton.1 hsingle
    have hleg := dueLegDates_own (mem_dueLegDates.2 ⟨lFlightDate, hdue, key, hkey, rfl⟩)
    rw [hagree _ (.inl hleg)]
    exact hpriced _ hsingle lFlightDate hdue key hkey
  exact fun inventory hmem => heach inventory hmem inventory (List.mem_singleton.2 rfl)

/-- The commands of an event leave all due leg-cabins priced. -/
theorem eventCommands_priced {technique : PartnershipTechnique} (hcodes : (inventories.map NetInventory.airlineCode).Nodup)
    (himages : technique = .RMC → ∀ inventory ∈ inventories, inventory.ReadsItsImages)
    (hupdate : technique = .A_RMC → env.UpdatesFromVector)
    (h : eventCommands env bookingClassYield lDate inventories technique state = .ok (⟨⟩, out)) :
    AllPriced env lDate inventories out := by
  have hstatic : ∀ {technique : Technique},
      projectThenOptimise env bookingClassYield lDate technique inventories state = .ok (⟨⟩, out) →
        AllPriced env lDate inventories out := by
    intro technique h
    obtain ⟨⟨⟩, emptied, -, h⟩ := bind_ok.1 h
    obtain ⟨⟨⟩, projected, -, hoptimise⟩ := bind_ok.1 h
    exact establishes_priced.optimiseOnD hoptimise
  cases technique with
  | RAE_DA => exact hstatic h
  | IBP_DA => exact hstatic h
  | RAE_YP => exact hstatic h
  | IBP_YP => exact hstatic h
  | IBP_YP_U => exact hstatic h
  | RMC =>
    obtain ⟨projected, h⟩ := cooperation_ok h
    exact optimiseOnDUsingRMCooperation_priced hcodes (himages rfl) h
  | A_RMC =>
    obtain ⟨projected, h⟩ := cooperation_ok h
    obtain ⟨lMaxBPVariation, before, -, hpass⟩ := advancedCooperation_passes h
    exact networkPass_priced (hupdate rfl) hpass

end commands

/-! ## Runs -/

section run
variable [DecidableEq α] [DecidableEq κ] [DecidableEq π] [DecidableEq ω]
  {env : ServiceEnv α κ π ω γ σ} {st out : ServiceState α κ ω γ σ} {events : List PartnershipEvent}
  {event : PartnershipEvent}

/-- **The bid prices after any run of events**: a leg-cabin that is due on the date of the last record has one entry in
its bid price vector for every seat of the pool, and the last one is its current bid price. If the last record is one of
advanced RM cooperation, the images that due flight-dates are marketed through hold the same price. -/
theorem eventRun_prices (hcodes : (env.bom.inventories.map ForecastInventory.airlineCode).Nodup)
    (himages : event.technique = .RMC → env.ReadsItsImages)
    (hupdate : event.technique = .A_RMC → env.net.UpdatesFromVector)
    (h : optimiseEventsWithPartners env events st = .ok out) (hlast : (freshEvents st events).getLast? = some event) :
    ∀ inventory ∈ env.inventories out.demands,
      (∀ lFlightDate ∈ dueFlightDates env.net event.date inventory, ∀ key ∈ lFlightDate.keys,
        env.net.Priced key (out.network (.operated key))) ∧
      (event.technique = .A_RMC → ∀ image ∈ sentImages env.net event.date inventory,
        bidPriceOf out.network (.image image) = bidPriceOf out.network (.operated image.operated)) := by
  obtain ⟨before, hevent⟩ := eventRun_last h hlast
  obtain ⟨-, -, hcommands⟩ := freshEvent_ok hevent
  rw [← ServiceEnv.inventories_codes out.demands] at hcodes
  intro inventory hmem
  refine ⟨eventCommands_priced hcodes (fun htechnique => himages htechnique _) hupdate hcommands inventory hmem, ?_⟩
  intro htechnique
  rw [htechnique] at hcommands
  obtain ⟨projected, hcooperate⟩ := cooperation_ok hcommands
  obtain ⟨lMaxBPVariation, last, -, hpass⟩ := advancedCooperation_passes hcooperate
  exact networkPass_agrees (hupdate htechnique) hpass inventory hmem

end run

theorem eventRun_prices_partners : ∃ out,
    optimiseEventsWithPartners partnersServiceEnv partnersEvents partnersStart = .ok out ∧
      (out.network (.operated (flownLegCabin 0))).bidPriceVector = [1] ∧
      bidPriceOf out.network (.image (heldLegCabin 1 0)) = 1 := by
  obtain ⟨out, hrun, hdemands, hprices⟩ := partnersService_run
  have hlast : (freshEvents partnersStart partnersEvents).getLast? = some ⟨0, .A_RMC⟩ := rfl
  have hall := eventRun_prices partnersServiceEnv_codes (fun h => by cases h) (fun _ => oneSeatEnv_updates) hrun hlast
  rw [partnersService_inventories hdemands] at hall
  obtain ⟨hpriced, hagreed⟩ := hall (partnersInventory 0) List.mem_cons_self
  obtain ⟨hend, hseats⟩ := hpriced (allianceFlightDate 0) List.mem_cons_self (flownLegCabin 0) List.mem_cons_self
  refine ⟨out, hrun, ?_, (hagreed rfl _ (heldLegCabin_sent 0 (.inl rfl))).trans (hprices 0 (.inl rfl))⟩
  have hone : (out.network (.operated (flownLegCabin 0))).bidPriceVector.length = 1 :=
    hseats.trans (by simp [partnersServiceEnv, oneSeatEnv])
  obtain ⟨lBP, hvector⟩ := List.length_eq_one_iff.1 hone
  have hprice : lBP = bidPriceOf out.network (.operated (flownLegCabin 0)) := by
    rw [hvector, List.getLast?_singleton] at hend
    exact Option.some.inj hend
  rw [hvector, hprice, hprices 0 (.inl rfl)]

end Rmol
