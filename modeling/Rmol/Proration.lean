import Mathlib.Algebra.BigOperators.Group.Finset.Piecewise
import Rmol.OnDProjection
/-!
# What proration hands out over all partners

An itinerary is flown by several airlines. Each has an O&D date of its own that mirrors it: the segments that it
operates with its own leg-cabins, the others with the operating partner's. The projection of each inventory gives
the demand to the legs that its airline operates, at their share of the yield; over all inventories the shares make
up the yield (`proration_sum`).

With dynamic proration an airline weighs its legs against bid prices of its partners' leg-cabins, as it holds them;
they are assumed to be the ones that the partners hold.
-/

namespace Rmol

variable {ι γ L : Type} [DecidableEq ι]

/-- A segment of an itinerary with the leg-cabins of the airline that operates it. -/
structure OperatedSegment (ι γ L : Type) where
  operator : ι
  cabin : γ
  legCabins : List L

/-- A segment of the O&D date of an airline against the one that is flown. -/
def MirrorsSegment (airline : ι) (flown : OperatedSegment ι γ L) (segment : OnDSegment γ L × γ) : Prop :=
  segment.2 = flown.cabin ∧
    if flown.operator = airline then
      segment.1.getOperatingSegmentDate = none ∧ segment.1.own.legCabins flown.cabin = some flown.legCabins
    else segment.1.getOperatingSegmentDate.isSome

/-- The entry of an airline's demand info map for an itinerary. -/
structure Mirrors (airline : ι) (itinerary : List (OperatedSegment ι γ L)) (lOnDDate : OnDDate γ L)
    (lDemand : PathDemand γ) : Prop where
  cabins : lDemand.cabins.length = lOnDDate.nbOfSegments
  nbOfSegments : lOnDDate.segments.length = lOnDDate.nbOfSegments
  segments : List.Forall₂ (MirrorsSegment airline) itinerary (pathSegments lOnDDate lDemand)

/-- The leg-cabins of a segment that an airline reads bid prices of have those of the operating leg-cabins. -/
def SamePrice (bidPrice : L → ℝ) (flown : OperatedSegment ι γ L) (segment : OnDSegment γ L × γ) : Prop :=
  ∃ legs, (segment.1.getOperatingSegmentDate.getD segment.1.own).legCabins segment.2 = some legs ∧
    legs.map bidPrice = flown.legCabins.map bidPrice

def SamePrices (bidPrice : L → ℝ) (itinerary : List (OperatedSegment ι γ L)) (lOnDDate : OnDDate γ L)
    (lDemand : PathDemand γ) : Prop :=
  List.Forall₂ (SamePrice bidPrice) itinerary (pathSegments lOnDDate lDemand)

/-- The total bid price of an itinerary. -/
def itineraryBidPrice (bidPrice : L → ℝ) (itinerary : List (OperatedSegment ι γ L)) : ℝ :=
  (itinerary.map fun flown => (flown.legCabins.map bidPrice).sum).sum

/-! ## The runs succeed -/

section runs
variable {bidPrice : L → ℝ} {lOnDDate : OnDDate γ L} {lDemand : PathDemand γ}

omit [DecidableEq ι] in
theorem foldlM_addBidPrices {itinerary : List (OperatedSegment ι γ L)} {segments : List (OnDSegment γ L × γ)}
    (h : List.Forall₂ (SamePrice bidPrice) itinerary segments) (before : ℝ) :
    segments.foldlM (addBidPrices bidPrice) before = .ok (before + itineraryBidPrice bidPrice itinerary) := by
  induction h generalizing before with
  | nil => simp [itineraryBidPrice]
  | cons hsegment _ ih =>
    obtain ⟨legs, hlegs, hprices⟩ := hsegment
    rw [List.foldlM_cons, addBidPrices, hlegs]
    simp only [ok_bind, ih, hprices, itineraryBidPrice, List.map_cons, List.sum_cons, add_assoc]

omit [DecidableEq ι] in
theorem totalBidPrice_ok {itinerary : List (OperatedSegment ι γ L)}
    (h : SamePrices bidPrice itinerary lOnDDate lDemand) :
    totalBidPrice bidPrice lOnDDate lDemand = .ok (itineraryBidPrice bidPrice itinerary) := by
  rw [totalBidPrice, foldlM_addBidPrices h, zero_add]

theorem segmentDemands_ok {airline : ι} {flown : OperatedSegment ι γ L} {segment : OnDSegment γ L × γ}
    (h : MirrorsSegment airline flown segment) (hlegs : flown.legCabins ≠ []) (lYield : List L → L → ℝ) :
    ∃ calls, segmentDemands lDemand lYield segment = .ok calls := by
  obtain ⟨hcabin, hoperator⟩ := h
  unfold segmentDemands
  by_cases hown : flown.operator = airline
  · rw [if_pos hown] at hoperator
    obtain ⟨leg, legs, hcons⟩ := List.exists_cons_of_ne_nil hlegs
    rw [hoperator.1, hcabin, hoperator.2, hcons]
    exact ⟨_, rfl⟩
  · rw [if_neg hown] at hoperator
    obtain ⟨operating, hoperating⟩ := Option.isSome_iff_exists.1 hoperator
    rw [hoperating]
    exact ⟨_, rfl⟩

theorem mapM_segmentDemands_ok {airline : ι} {itinerary : List (OperatedSegment ι γ L)}
    {segments : List (OnDSegment γ L × γ)} (h : List.Forall₂ (MirrorsSegment airline) itinerary segments)
    (hlegs : ∀ flown ∈ itinerary, flown.legCabins ≠ []) (lYield : List L → L → ℝ) :
    ∃ lists, segments.mapM (segmentDemands lDemand lYield) = .ok lists := by
  induction h with
  | nil => exact ⟨[], rfl⟩
  | @cons flown segment _ _ hsegment _ ih =>
    obtain ⟨lists, hlists⟩ := ih fun s hs => hlegs s (List.mem_cons_of_mem _ hs)
    obtain ⟨calls, hcalls⟩ := segmentDemands_ok hsegment (hlegs flown List.mem_cons_self) lYield
    rw [List.mapM_cons, hcalls, hlists]
    exact ⟨_, rfl⟩

theorem operatedDemands_ok {airline : ι} {itinerary : List (OperatedSegment ι γ L)}
    (h : List.Forall₂ (MirrorsSegment airline) itinerary (pathSegments lOnDDate lDemand))
    (hlegs : ∀ flown ∈ itinerary, flown.legCabins ≠ []) (lYield : List L → L → ℝ) :
    ∃ calls, operatedDemands lOnDDate lDemand lYield = .ok calls := by
  obtain ⟨lists, hlists⟩ := mapM_segmentDemands_ok h hlegs lYield
  exact ⟨lists.flatten, by rw [operatedDemands, hlists]; rfl⟩

end runs

/-! ## The sum over the partners -/

section sums
variable {airline : ι} {itinerary : List (OperatedSegment ι γ L)}

/-- The yields of an airline's demands are those of the segments that it operates. -/
theorem operatedYields_sum (w : List L → L → ℝ) {segments : List (OnDSegment γ L × γ)}
    (h : List.Forall₂ (MirrorsSegment airline) itinerary segments) :
    (segments.map fun segment => ((operatedLegCabins segment).map (w (operatedLegCabins segment))).sum).sum =
      (itinerary.map fun flown =>
        if flown.operator = airline then (flown.legCabins.map (w flown.legCabins)).sum else 0).sum := by
  induction h with
  | nil => rfl
  | @cons flown segment _ _ hsegment _ ih =>
    rw [List.map_cons, List.sum_cons, List.map_cons, List.sum_cons, ih]
    congr 1
    obtain ⟨hcabin, hoperator⟩ := hsegment
    by_cases hown : flown.operator = airline
    · rw [if_pos hown] at hoperator ⊢
      have hlegs : operatedLegCabins segment = flown.legCabins := by
        unfold operatedLegCabins
        rw [hoperator.1, hcabin, hoperator.2]
        rfl
      rw [hlegs]
    · rw [if_neg hown] at hoperator ⊢
      obtain ⟨operating, hoperating⟩ := Option.isSome_iff_exists.1 hoperator
      have hlegs : operatedLegCabins segment = [] := by
        unfold operatedLegCabins
        rw [hoperating]
      rw [hlegs, List.map_nil, List.sum_nil]

/-- Each segment counts once, for the airline that operates it. -/
theorem sum_airlines (airlines : Finset ι) (v : OperatedSegment ι γ L → ℝ)
    (hoperators : ∀ flown ∈ itinerary, flown.operator ∈ airlines) :
    ∑ airline ∈ airlines, (itinerary.map fun flown => if flown.operator = airline then v flown else 0).sum =
      (itinerary.map v).sum := by
  induction itinerary with
  | nil => simp
  | cons flown itinerary ih =>
    simp only [List.map_cons, List.sum_cons, Finset.sum_add_distrib,
      ih fun s hs => hoperators s (List.mem_cons_of_mem _ hs)]
    rw [Finset.sum_ite_eq, if_pos (hoperators flown List.mem_cons_self)]

/-- The yields that a list of calls hands over. -/
def handedOver (calls : List (DemandCall L)) : ℝ := (calls.map DemandCall.yield).sum

omit [DecidableEq ι] in
theorem handedOver_flatMap {segments : List (OnDSegment γ L × γ)} (w : List L → L → ℝ) (m s : ℝ) :
    handedOver (segments.flatMap fun segment => (operatedLegCabins segment).map fun leg =>
      ⟨leg, w (operatedLegCabins segment) leg, m, s⟩) =
    (segments.map fun segment => ((operatedLegCabins segment).map (w (operatedLegCabins segment))).sum).sum := by
  unfold handedOver
  induction segments with
  | nil => rfl
  | cons segment segments ih =>
    rw [List.flatMap_cons, List.map_append, List.sum_append, List.map_cons, List.sum_cons, ih, List.map_map]
    rfl

/-- **The demands of all airlines**, where every airline shares the legs of a segment by the same weights. -/
theorem handedOver_sum {airlines : Finset ι} (w : List L → L → ℝ) {onD : ι → OnDDate γ L} {demand : ι → PathDemand γ}
    {calls : ι → List (DemandCall L)} (hoperators : ∀ flown ∈ itinerary, flown.operator ∈ airlines)
    (hmirrors : ∀ airline ∈ airlines, Mirrors airline itinerary (onD airline) (demand airline))
    (hcalls : ∀ airline ∈ airlines, operatedDemands (onD airline) (demand airline) w = .ok (calls airline)) :
    ∑ airline ∈ airlines, handedOver (calls airline) =
      (itinerary.map fun flown => (flown.legCabins.map (w flown.legCabins)).sum).sum := by
  rw [← sum_airlines airlines _ hoperators]
  refine Finset.sum_congr rfl fun airline hairline => ?_
  rw [operatedDemands_eq (hcalls airline hairline), handedOver_flatMap,
    operatedYields_sum w (hmirrors airline hairline).segments]

end sums

/-! ## The two prorations -/

section prorations
variable {airlines : Finset ι} {itinerary : List (OperatedSegment ι γ L)} {onD : ι → OnDDate γ L}
  {demand : ι → PathDemand γ} {lYield : ℝ}

omit [DecidableEq ι] in
/-- The shares of the bid prices make up the yield. -/
theorem bidPriceShares_sum {bidPrice : L → ℝ} (htotal : 0 < itineraryBidPrice bidPrice itinerary) :
    (itinerary.map fun flown => (flown.legCabins.map fun leg =>
      bidPrice leg / itineraryBidPrice bidPrice itinerary * lYield).sum).sum = lYield := by
  have hsegment : ∀ legs : List L, (legs.map fun leg => bidPrice leg / itineraryBidPrice bidPrice itinerary * lYield).sum =
      (legs.map bidPrice).sum * (lYield / itineraryBidPrice bidPrice itinerary) := by
    intro legs
    rw [← List.sum_map_mul_right]
    exact congrArg List.sum (List.map_congr_left fun leg _ => by ring)
  simp only [hsegment]
  rw [List.sum_map_mul_right]
  exact mul_div_cancel₀ _ htotal.ne'

omit [DecidableEq ι] in
/-- Equal shares of the segments, and of the legs of a segment. -/
theorem equalShares_sum (hne : itinerary ≠ []) (hlegs : ∀ flown ∈ itinerary, flown.legCabins ≠ []) :
    (itinerary.map fun flown => (flown.legCabins.map fun _ =>
      lYield / ((flown.legCabins.length * itinerary.length : ℕ) : ℝ)).sum).sum = lYield := by
  have hlength : (itinerary.length : ℝ) ≠ 0 := by
    exact_mod_cast (List.length_pos_iff.2 hne).ne'
  have hsegment : ∀ flown ∈ itinerary, (flown.legCabins.map fun _ =>
      lYield / ((flown.legCabins.length * itinerary.length : ℕ) : ℝ)).sum = lYield / itinerary.length := by
    intro flown hflown
    have hpos : (flown.legCabins.length : ℝ) ≠ 0 := by
      exact_mod_cast (List.length_pos_iff.2 (hlegs flown hflown)).ne'
    rw [List.map_const', List.sum_replicate, nsmul_eq_mul, Nat.cast_mul]
    field_simp
  rw [List.map_congr_left hsegment, List.map_const', List.sum_replicate, nsmul_eq_mul]
  exact mul_div_cancel₀ _ hlength

/-- **Proration shares out the yield.** Over all airlines that operate an itinerary, the yields that dynamic
proration hands to the leg-cabins add up to the yield of the path where the airlines hold the same bid prices, with
a positive total; those of static proration do so whatever the bid prices are. -/
theorem proration_sum (hne : itinerary ≠ [])
    (hflown : ∀ flown ∈ itinerary, flown.operator ∈ airlines ∧ flown.legCabins ≠ [])
    (hmirrors : ∀ airline ∈ airlines, Mirrors airline itinerary (onD airline) (demand airline) ∧
      (demand airline).yield = lYield) :
    (∀ bidPrice : L → ℝ, (∀ airline ∈ airlines, SamePrices bidPrice itinerary (onD airline) (demand airline)) →
      0 < itineraryBidPrice bidPrice itinerary →
      ∃ calls : ι → List (DemandCall L),
        (∀ airline ∈ airlines, pathDemandsDYP bidPrice (onD airline) (demand airline) = .ok (calls airline)) ∧
        ∑ airline ∈ airlines, handedOver (calls airline) = lYield) ∧
    ∃ calls : ι → List (DemandCall L),
      (∀ airline ∈ airlines, pathDemandsYP (onD airline) (demand airline) = .ok (calls airline)) ∧
      ∑ airline ∈ airlines, handedOver (calls airline) = lYield := by
  have hoperators : ∀ flown ∈ itinerary, flown.operator ∈ airlines := fun flown h => (hflown flown h).1
  have hlegs : ∀ flown ∈ itinerary, flown.legCabins ≠ [] := fun flown h => (hflown flown h).2
  have hok : ∀ w : List L → L → ℝ, ∃ calls : ι → List (DemandCall L), ∀ airline ∈ airlines,
      operatedDemands (onD airline) (demand airline) w = .ok (calls airline) := by
    intro w
    have hairline : ∀ airline ∈ airlines, ∃ calls, operatedDemands (onD airline) (demand airline) w = .ok calls :=
      fun airline hin => operatedDemands_ok (hmirrors airline hin).1.segments hlegs w
    choose! calls hcalls using hairline
    exact ⟨calls, hcalls⟩
  refine ⟨fun bidPrice hprices htotal => ?_, ?_⟩
  · obtain ⟨calls, hcalls⟩ := hok fun _ leg => bidPrice leg / itineraryBidPrice bidPrice itinerary * lYield
    refine ⟨calls, fun airline hairline => ?_, ?_⟩
    · obtain ⟨hmirror, hyield⟩ := hmirrors airline hairline
      rw [pathDemandsDYP, if_pos ⟨hmirror.cabins, hmirror.nbOfSegments⟩, totalBidPrice_ok (hprices airline hairline),
        ok_bind, hyield]
      exact hcalls airline hairline
    · rw [handedOver_sum _ hoperators (fun airline h => (hmirrors airline h).1) hcalls]
      exact bidPriceShares_sum htotal
  · obtain ⟨calls, hcalls⟩ := hok fun legs _ => lYield / ((legs.length * itinerary.length : ℕ) : ℝ)
    refine ⟨calls, fun airline hairline => ?_, ?_⟩
    · obtain ⟨hmirror, hyield⟩ := hmirrors airline hairline
      have hlength : itinerary.length = (onD airline).nbOfSegments := by
        rw [hmirror.segments.length_eq, pathSegments, List.length_zip, hmirror.cabins, hmirror.nbOfSegments, min_self]
      rw [pathDemandsYP, if_pos ⟨hmirror.cabins, hmirror.nbOfSegments⟩, hyield, ← hlength]
      exact hcalls airline hairline
    · rw [handedOver_sum _ hoperators (fun airline h => (hmirrors airline h).1) hcalls]
      exact equalShares_sum hne hlegs

end prorations

/-! ### Two partners

The first segment has two legs and is flown by one airline, the second by the other; each holds an image of the
other's leg-cabins (those from 10 on). -/

def codeshareItinerary : List (OperatedSegment Bool Unit ℕ) := [⟨true, (), [1, 2]⟩, ⟨false, (), [3]⟩]

def codeshareOnDDate (airline : Bool) : OnDDate Unit ℕ where
  date := 7
  nbOfSegments := 2
  segments :=
    if airline then [⟨⟨fun _ => some [1, 2]⟩, none⟩, ⟨⟨fun _ => none⟩, some ⟨fun _ => some [13]⟩⟩]
    else [⟨⟨fun _ => none⟩, some ⟨fun _ => some [11, 12]⟩⟩, ⟨⟨fun _ => some [3]⟩, none⟩]
  demandInfoMap := []

noncomputable def codeshareDemand : PathDemand Unit := ⟨[(), ()], ((600 : ℕ) : ℝ), 1, 1⟩

/-- The bid prices of the images are those of the leg-cabins. -/
def codeshareBidPrice (leg : ℕ) : ℝ := ((leg % 10 : ℕ) : ℝ)

theorem proration_sum_codeshare :
    (∃ calls : Bool → List (DemandCall ℕ),
      (∀ airline, pathDemandsDYP codeshareBidPrice (codeshareOnDDate airline) codeshareDemand = .ok (calls airline)) ∧
      handedOver (calls true) + handedOver (calls false) = 600) ∧
    ∃ calls : Bool → List (DemandCall ℕ),
      (∀ airline, pathDemandsYP (codeshareOnDDate airline) codeshareDemand = .ok (calls airline)) ∧
      handedOver (calls true) + handedOver (calls false) = 600 := by
  have hflown : ∀ flown ∈ codeshareItinerary, flown.operator ∈ Finset.univ ∧ flown.legCabins ≠ [] := by
    simp [codeshareItinerary]
  have hmirrors : ∀ airline ∈ (Finset.univ : Finset Bool),
      Mirrors airline codeshareItinerary (codeshareOnDDate airline) codeshareDemand ∧
        codeshareDemand.yield = (600 : ℕ) := by
    intro airline _
    refine ⟨⟨rfl, ?_, ?_⟩, rfl⟩
    · cases airline <;> rfl
    · cases airline <;>
        simp [codeshareItinerary, codeshareOnDDate, codeshareDemand, pathSegments, MirrorsSegment]
  obtain ⟨hdynamic, hstatic⟩ := proration_sum (List.cons_ne_nil _ _) hflown hmirrors
  have hprices : ∀ airline ∈ (Finset.univ : Finset Bool),
      SamePrices codeshareBidPrice codeshareItinerary (codeshareOnDDate airline) codeshareDemand := by
    intro airline _
    cases airline <;>
      simp [SamePrices, SamePrice, codeshareItinerary, codeshareOnDDate, codeshareDemand, pathSegments,
        codeshareBidPrice]
  have htotal : 0 < itineraryBidPrice codeshareBidPrice codeshareItinerary := by
    norm_num [itineraryBidPrice, codeshareItinerary, codeshareBidPrice]
  simp only [Finset.mem_univ, true_imp_iff, Fintype.sum_bool, Nat.cast_ofNat] at hdynamic hstatic hprices
  exact ⟨hdynamic codeshareBidPrice hprices htotal, hstatic⟩

end Rmol
