import Rmol.Bom
import Rmol.Lib.KeyedUpdates
/-!
# Bid prices sent to partners (`RMOL_Service::updateBidPrice`, `RMOL_Service.cpp:1611`)

| here | there |
| --- | --- |
| `LegCabinKey`, `BomRoot`  | the objects that `BomManager::getObjectPtr` finds, by their keys |
| `sendBidPrice`            | the three calls on a leg-cabin and its image (`:1675-1679`) |
| `updateLegDate`           | the loop over leg-cabins (`:1657-1684`) |
| `updateMarketer`          | the look-ups of a partner and the loop over leg-dates (`:1631-1685`) |
| `updateBidPrice`          | `:1611` |

An operating leg-cabin is sent to each partner that markets a segment over its leg, once for every such segment.
The image takes a step each time: at the second one its previous bid price becomes the new one. The price before the
call is kept iff an image is reached once, or had the new price already (`updateBidPrice_oneStep_iff`).
-/

namespace Rmol

open KeyedUpdates

/-- The look-ups of `updateBidPrice` that are asserted. -/
inductive PartnerFault where
  /-- `assert (lMktInv_ptr != NULL)` (`:1643`). -/
  | marketerInventory
  /-- `assert (lOptInv_ptr != NULL)` (`:1647`). -/
  | operatorImage
  /-- `assert (lOptFD_ptr != NULL)` (`:1651`). -/
  | flightDateImage
  /-- `assert (lOptLD_ptr != NULL)` (`:1661`). -/
  | legDateImage
  /-- `assert (lOptLC_ptr != NULL)` (`:1673`). -/
  | legCabinImage
deriving DecidableEq, Repr

structure BidPrices (β : Type) where
  current : β
  previous : β
deriving DecidableEq, Repr

/-- The way to a leg-cabin from the bom root, in the inventory of the operating airline. -/
structure LegCabinKey (α κ : Type) where
  airline : α
  flightDate : κ
  legDate : κ
  legCabin : κ
deriving DecidableEq, Repr

/-- An image is held by a marketer, under the keys of the operating leg-cabin. -/
structure ImageKey (α κ : Type) where
  marketer : α
  operated : LegCabinKey α κ
deriving DecidableEq, Repr

/-- Which partners and images there are. -/
structure BomRoot (α κ : Type) where
  inventory : α → Bool
  /-- The image of an operating airline that a marketer holds. -/
  operatorImage : α → α → Bool
  flightDateImage : α → α → κ → Bool
  legDateImage : α → α → κ → κ → Bool
  legCabinImage : ImageKey α κ → Bool

structure MarketedSegmentDate (α κ : Type) where
  legDates : List κ
  /-- The airlines of the segment-dates that market it. -/
  marketers : List α

structure OperatedFlightDate (α κ : Type) where
  airlineCode : α
  key : κ
  segmentDates : List (MarketedSegmentDate α κ)
  /-- The leg-cabins of a leg-date. -/
  legCabins : κ → List κ

/-- The bid prices that a call reads and writes. -/
structure PriceState (α κ β : Type) where
  legCabins : LegCabinKey α κ → BidPrices β
  images : ImageKey α κ → BidPrices β

variable {α κ β : Type} [DecidableEq α] [DecidableEq κ]

/-! ## The loops -/

section loops
variable (updateCurrentBidPrice : LegCabinKey α κ → β → β) (iBomRoot : BomRoot α κ)
  (iFlightDate : OperatedFlightDate α κ)

def BidPrices.updatePreviousBidPrice (prices : BidPrices β) : BidPrices β := { prices with previous := prices.current }

/-- `updateCurrentBidPrice` on a leg-cabin. -/
def BidPrices.update (leg : LegCabinKey α κ) (prices : BidPrices β) : BidPrices β :=
  { prices with current := updateCurrentBidPrice leg prices.current }

def sendBidPrice (state : PriceState α κ β) (image : ImageKey α κ) : PriceState α κ β :=
  let lLC := (state.legCabins image.operated).update updateCurrentBidPrice image.operated
  let lOptLC := (state.images image).updatePreviousBidPrice
  { legCabins := Function.update state.legCabins image.operated lLC
    images := Function.update state.images image { lOptLC with current := lLC.current } }

def updateLegCabin (state : PriceState α κ β) (image : ImageKey α κ) : Except PartnerFault (PriceState α κ β) :=
  if iBomRoot.legCabinImage image then .ok (sendBidPrice updateCurrentBidPrice state image)
  else .error .legCabinImage

/-- The image of a leg-cabin of a flight-date. -/
def OperatedFlightDate.image (lMktAC : α) (lLDKeyStr lLCKeyStr : κ) : ImageKey α κ :=
  ⟨lMktAC, iFlightDate.airlineCode, iFlightDate.key, lLDKeyStr, lLCKeyStr⟩

def updateLegDate (lMktAC : α) (state : PriceState α κ β) (lLDKeyStr : κ) :
    Except PartnerFault (PriceState α κ β) :=
  if iBomRoot.legDateImage lMktAC iFlightDate.airlineCode iFlightDate.key lLDKeyStr then
    (iFlightDate.legCabins lLDKeyStr).foldlM (fun state lLCKeyStr =>
      updateLegCabin updateCurrentBidPrice iBomRoot state (iFlightDate.image lMktAC lLDKeyStr lLCKeyStr)) state
  else .error .legDateImage

def updateMarketer (lLegDateList : List κ) (state : PriceState α κ β) (lMktAC : α) :
    Except PartnerFault (PriceState α κ β) :=
  if !iBomRoot.inventory lMktAC then .error .marketerInventory
  else if !iBomRoot.operatorImage lMktAC iFlightDate.airlineCode then .error .operatorImage
  else if !iBomRoot.flightDateImage lMktAC iFlightDate.airlineCode iFlightDate.key then .error .flightDateImage
  else lLegDateList.foldlM (updateLegDate updateCurrentBidPrice iBomRoot iFlightDate lMktAC) state

def updateSegmentDate (state : PriceState α κ β) (lSegmentDate : MarketedSegmentDate α κ) :
    Except PartnerFault (PriceState α κ β) :=
  lSegmentDate.marketers.foldlM
    (updateMarketer updateCurrentBidPrice iBomRoot iFlightDate lSegmentDate.legDates) state

def updateBidPrice (state : PriceState α κ β) : Except PartnerFault (PriceState α κ β) :=
  iFlightDate.segmentDates.foldlM (updateSegmentDate updateCurrentBidPrice iBomRoot iFlightDate) state

end loops

/-! ## The images that a call reaches -/

/-- Segment by segment, partner by partner, leg by leg. -/
def OperatedFlightDate.reachedImages (iFlightDate : OperatedFlightDate α κ) : List (ImageKey α κ) :=
  iFlightDate.segmentDates.flatMap fun lSegmentDate => lSegmentDate.marketers.flatMap fun lMktAC =>
    lSegmentDate.legDates.flatMap fun lLDKeyStr => (iFlightDate.legCabins lLDKeyStr).map
      (iFlightDate.image lMktAC lLDKeyStr)

section refinement
variable {updateCurrentBidPrice : LegCabinKey α κ → β → β} {iBomRoot : BomRoot α κ}
  {iFlightDate : OperatedFlightDate α κ} {before after : PriceState α κ β}

theorem updateLegDate_ok {lMktAC : α} {lLDKeyStr : κ}
    (h : updateLegDate updateCurrentBidPrice iBomRoot iFlightDate lMktAC before lLDKeyStr = .ok after) :
    after = ((iFlightDate.legCabins lLDKeyStr).map (iFlightDate.image lMktAC lLDKeyStr)).foldl
      (sendBidPrice updateCurrentBidPrice) before := by
  unfold updateLegDate at h
  split at h
  · rw [List.map_eq_flatMap]
    refine foldlM_flatMap_ok (fun lLCKeyStr _ s t hstep => ?_) h
    unfold updateLegCabin at hstep
    split at hstep
    · exact (Except.ok.inj hstep).symm
    · cases hstep
  · cases h

theorem updateMarketer_ok {lLegDateList : List κ} {lMktAC : α}
    (h : updateMarketer updateCurrentBidPrice iBomRoot iFlightDate lLegDateList before lMktAC = .ok after) :
    after = (lLegDateList.flatMap fun lLDKeyStr => (iFlightDate.legCabins lLDKeyStr).map
      (iFlightDate.image lMktAC lLDKeyStr)).foldl (sendBidPrice updateCurrentBidPrice) before := by
  unfold updateMarketer at h
  split at h
  · cases h
  split at h
  · cases h
  split at h
  · cases h
  exact foldlM_flatMap_ok (fun lLDKeyStr _ s t hstep => updateLegDate_ok hstep) h

/-- **A call is a run over the images that it reaches.** -/
theorem updateBidPrice_ok (h : updateBidPrice updateCurrentBidPrice iBomRoot iFlightDate before = .ok after) :
    after = iFlightDate.reachedImages.foldl (sendBidPrice updateCurrentBidPrice) before :=
  foldlM_flatMap_ok (fun _ _ _ _ hsegment =>
    foldlM_flatMap_ok (fun _ _ _ _ hmarketer => updateMarketer_ok hmarketer) hsegment) h

end refinement

/-! ## What a run leaves -/

section run
variable {updateCurrentBidPrice : LegCabinKey α κ → β → β}

/-- An image takes over the price that its leg-cabin is updated to. -/
def takeBidPrice (price : LegCabinKey α κ → β) (image : ImageKey α κ) (prices : BidPrices β) : BidPrices β :=
  ⟨price image.operated, prices.current⟩

/-- Where updating twice is updating once, the leg-cabins offer the same price at every visit, and an image only
changes by its own visits. -/
theorem foldl_sendBidPrice_images
    (hidem : ∀ leg x, updateCurrentBidPrice leg (updateCurrentBidPrice leg x) = updateCurrentBidPrice leg x)
    {price : LegCabinKey α κ → β} (images : List (ImageKey α κ)) (state : PriceState α κ β)
    (hprice : ∀ leg, updateCurrentBidPrice leg (state.legCabins leg).current = price leg) :
    (images.foldl (sendBidPrice updateCurrentBidPrice) state).images =
      visits (takeBidPrice price) images state.images := by
  induction images generalizing state with
  | nil => rfl
  | cons image images ih =>
    have hstep : (sendBidPrice updateCurrentBidPrice state image).images =
        Function.update state.images image (takeBidPrice price image (state.images image)) := by
      rw [takeBidPrice, ← hprice image.operated]
      rfl
    rw [List.foldl_cons, ih, hstep, visits_cons]
    intro leg
    by_cases hleg : leg = image.operated
    · subst hleg
      simp only [sendBidPrice, Function.update_self, BidPrices.update]
      rw [hidem, hprice]
    · simp only [sendBidPrice, Function.update_of_ne hleg]
      exact hprice leg

theorem foldl_sendBidPrice_legCabins (images : List (ImageKey α κ)) (state : PriceState α κ β) :
    (images.foldl (sendBidPrice updateCurrentBidPrice) state).legCabins =
      visits (BidPrices.update updateCurrentBidPrice) (images.map ImageKey.operated) state.legCabins := by
  induction images generalizing state with
  | nil => rfl
  | cons image images ih => rw [List.foldl_cons, ih, List.map_cons, visits_cons]; rfl

omit [DecidableEq α] [DecidableEq κ] in
/-- The first step keeps the price before; a further one does so iff it was the new one already. -/
theorem iterate_takeBidPrice_iff {price : LegCabinKey α κ → β} {image : ImageKey α κ} {n : ℕ} (hn : 0 < n)
    (prices : BidPrices β) :
    (takeBidPrice price image)^[n] prices = ⟨price image.operated, prices.current⟩ ↔
      n = 1 ∨ prices.current = price image.operated := by
  obtain ⟨n, rfl⟩ := Nat.exists_eq_succ_of_ne_zero (Nat.ne_of_gt hn)
  cases n with
  | zero => simp [takeBidPrice]
  | succ n =>
    have hfixed : takeBidPrice price image ⟨price image.operated, price image.operated⟩ =
        ⟨price image.operated, price image.operated⟩ := rfl
    have htwo : (takeBidPrice price image)^[n + 1 + 1] prices = ⟨price image.operated, price image.operated⟩ := by
      rw [Function.iterate_succ_apply, Function.iterate_succ_apply]
      exact Function.iterate_fixed hfixed n
    rw [htwo]
    constructor
    · intro h
      exact .inr (congrArg BidPrices.previous h).symm
    · rintro (h | h)
      · omega
      · rw [h]

end run

/-! ## One step per image -/

section oneStep
variable {updateCurrentBidPrice : LegCabinKey α κ → β → β} {iBomRoot : BomRoot α κ}
  {iFlightDate : OperatedFlightDate α κ} {before after : PriceState α κ β}

/-- **One step per image.** A call leaves every image that it reaches with the current bid price of the operating
leg-cabin, and with its own current one as the previous, iff each is reached once or had the new price already. -/
theorem updateBidPrice_oneStep_iff
    (hidem : ∀ leg x, updateCurrentBidPrice leg (updateCurrentBidPrice leg x) = updateCurrentBidPrice leg x)
    (h : updateBidPrice updateCurrentBidPrice iBomRoot iFlightDate before = .ok after) :
    (∀ image ∈ iFlightDate.reachedImages,
      after.images image = ⟨(after.legCabins image.operated).current, (before.images image).current⟩) ↔
    ∀ image ∈ iFlightDate.reachedImages, iFlightDate.reachedImages.count image = 1 ∨
      (before.images image).current = updateCurrentBidPrice image.operated (before.legCabins image.operated).current := by
  obtain rfl := updateBidPrice_ok h
  refine forall₂_congr fun image himage => ?_
  have hleg : image.operated ∈ iFlightDate.reachedImages.map ImageKey.operated := List.mem_map_of_mem himage
  have hupdate : ∀ prices : BidPrices β, (prices.update updateCurrentBidPrice image.operated).update
      updateCurrentBidPrice image.operated = prices.update updateCurrentBidPrice image.operated := by
    intro prices
    simp only [BidPrices.update, hidem]
  rw [foldl_sendBidPrice_images hidem _ _ fun _ => rfl, foldl_sendBidPrice_legCabins,
    visits_apply_of_idempotent hupdate hleg, visits_apply]
  exact iterate_takeBidPrice_iff (List.count_pos_iff.2 himage) _

end oneStep

/-! ### A flight of two legs

One partner markets the segment over the first leg and the one over both legs, so that the first leg is sent to it
twice. -/

def twoLegFlightDate : OperatedFlightDate ℕ ℕ where
  airlineCode := 0
  key := 0
  segmentDates := [⟨[1], [7]⟩, ⟨[1, 2], [7]⟩]
  legCabins := fun _ => [0]

def twoLegBomRoot : BomRoot ℕ ℕ where
  inventory := fun _ => true
  operatorImage := fun _ _ => true
  flightDateImage := fun _ _ _ => true
  legDateImage := fun _ _ _ _ => true
  legCabinImage := fun _ => true

/-- The bid prices went up to 2; the images still hold 1. -/
def twoLegPrices : PriceState ℕ ℕ ℕ where
  legCabins := fun _ => ⟨2, 1⟩
  images := fun _ => ⟨1, 0⟩

/-- The image of the first leg, which is sent twice, holds the new price already. -/
def sentPrices : PriceState ℕ ℕ ℕ where
  legCabins := fun _ => ⟨2, 1⟩
  images := fun image => if image.operated.legDate = 1 then ⟨2, 1⟩ else ⟨1, 0⟩

theorem updateBidPrice_oneStep_iff_sent :
    ∃ after, updateBidPrice (fun _ price => price) twoLegBomRoot twoLegFlightDate sentPrices = .ok after ∧
      ∀ image ∈ twoLegFlightDate.reachedImages, after.images image =
        ⟨(after.legCabins image.operated).current, (sentPrices.images image).current⟩ := by
  have hrun : ∃ after, updateBidPrice (fun _ price => price) twoLegBomRoot twoLegFlightDate sentPrices = .ok after :=
    ⟨_, rfl⟩
  obtain ⟨after, hafter⟩ := hrun
  exact ⟨after, hafter, (updateBidPrice_oneStep_iff (fun _ _ => rfl) hafter).2 (by decide)⟩

/-- The image of the first leg ends with 2 as its previous bid price. -/
theorem updateBidPrice_twoSteps :
    ∃ after, updateBidPrice (fun _ price => price) twoLegBomRoot twoLegFlightDate twoLegPrices = .ok after ∧
      ¬ ∀ image ∈ twoLegFlightDate.reachedImages, after.images image =
        ⟨(after.legCabins image.operated).current, (twoLegPrices.images image).current⟩ :=
  ⟨_, rfl, by decide⟩

end Rmol
