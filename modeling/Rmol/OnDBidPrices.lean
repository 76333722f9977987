import Mathlib.Algebra.Order.Floor.Semiring
import Mathlib.Data.Rat.Floor
import Rmol.MCStages
/-!
# The O&D bid prices (`MCOptimiser.cpp:175-301`)

On a run that passes the index assertions the vector has one entry for each seat of the pool and never
goes up (`computeBidPrices_nonincreasing`). Within a class this is the tail of sorted sums. At a class
boundary it rests on the sample index: the tail up to the protection level is worth at least the next
yield (`Stages.Priced.nextYield_le`). A protection level of -1 or less leaves no boundary below it.

`computeBidPrices_completes_iff` says on which leg-cabins the function completes. It misses a pool below
one (`back()` of an empty vector), a level 0 below another level, and levels that are too close for the
number of samples left.
-/

namespace Rmol

open OrderStatistics

variable {α : Type*} [Field α] [LinearOrder α] [FloorRing α]

def odStages (draws : YieldLevel α → ℕ → List α) (K : ℕ) (lFirstYD : YieldLevel α)
    (lLevels : List (YieldLevel α)) : Stages α :=
  stages (draws lFirstYD K) lFirstYD.yield (odClasses draws lLevels)

omit [Field α] [FloorRing α] in
theorem LegCabin.isChain_yield {ioLegCabin : LegCabin α} {lFirstYD : YieldLevel α} {lLevels : List (YieldLevel α)}
    (hmap : ioLegCabin.yieldLevelDemandMap = lFirstYD :: lLevels) :
    (lFirstYD.yield :: lLevels.map (·.yield)).IsChain (· > ·) := by
  have hsorted := ioLegCabin.map_sorted
  rw [hmap] at hsorted
  rw [← List.map_cons (f := fun lYD : YieldLevel α => lYD.yield)]
  exact (List.pairwise_map.2 hsorted).isChain

section runs
variable [IsStrictOrderedRing α] {draws : YieldLevel α → ℕ → List α} {K : ℕ} {ioLegCabin : LegCabin α}
  {lFirstYD : YieldLevel α} {lLevels : List (YieldLevel α)}

omit [Field α] [LinearOrder α] [FloorRing α] [IsStrictOrderedRing α] in
theorem getLast?_map_seats (f : ℕ → α) {n : ℕ} (hn : 1 ≤ n) : ((seats 1 n).map f).getLast? = some (f n) := by
  obtain ⟨m, rfl⟩ : ∃ m, n = m + 1 := ⟨n - 1, by omega⟩
  have hseats : seats 1 (m + 1) = seats 1 m ++ [m + 1] := by
    unfold seats
    rw [show m + 1 + 1 - 1 = m + 1 from rfl, List.range'_concat]
    simp [Nat.add_comm]
  rw [hseats, List.map_append, List.map_singleton, List.getLast?_concat]

/-- **A run** prices every seat of the pool, and the last one is the new bid price. -/
theorem computeBidPrices_spec (hmap : ioLegCabin.yieldLevelDemandMap = lFirstYD :: lLevels)
    (hpool : 1 ≤ ⌊ioLegCabin.availabilityPool⌋) (hmax : ⌊ioLegCabin.availabilityPool⌋ < 2 ^ 32 - 1)
    (hpass : (odStages draws K lFirstYD lLevels).Passes) :
    computeBidPrices draws K ioLegCabin = .ok { ioLegCabin with
      bidPriceVector := (seats 1 ⌊ioLegCabin.availabilityPool⌋.toNat).map
        ((odStages draws K lFirstYD lLevels).flooredPrice 1)
      currentBidPrice := (odStages draws K lFirstYD lLevels).flooredPrice 1 ⌊ioLegCabin.availabilityPool⌋.toNat } := by
  have hbound : ⌊ioLegCabin.availabilityPool⌋.toNat + 1 < 2 ^ 32 := by omega
  have hloop := odLoop_spec draws hbound lFirstYD (draws lFirstYD K) 1 (LegCabin.isChain_yield hmap) hpass
  unfold computeBidPrices
  simp only [hmap, hloop, ok_bind]
  rw [getLast?_map_seats _ (by omega)]
  rfl

/-- A pool without a seat leaves the vector empty. -/
theorem computeBidPrices_of_pool_lt_one (hmap : ioLegCabin.yieldLevelDemandMap = lFirstYD :: lLevels)
    (hpool : ioLegCabin.availabilityPool < 1) (hpass : (odStages draws K lFirstYD lLevels).Passes) :
    computeBidPrices draws K ioLegCabin = .error .emptyBidPriceVector := by
  have hfloor : ⌊ioLegCabin.availabilityPool⌋.toNat = 0 := by
    have hlt : ⌊ioLegCabin.availabilityPool⌋ < 1 := by rwa [Int.floor_lt, Int.cast_one]
    omega
  have hloop := odLoop_spec draws (by omega : 0 + 1 < 2 ^ 32) lFirstYD (draws lFirstYD K) 1
    (LegCabin.isChain_yield hmap) hpass
  unfold computeBidPrices
  simp only [hmap, hfloor, hloop, ok_bind]
  rfl

omit [IsStrictOrderedRing α] in
/-- No run ends when every index is at most the pool. -/
theorem odLoop_endless {bound : ℕ} (hbound : 2 ^ 32 ≤ bound + 1) (lYD : YieldLevel α) (lLevels : List (YieldLevel α))
    (sums : List α) (idx : ℕ) (lBPs : List α) : odLoop draws bound lYD lLevels sums idx ≠ .ok lBPs := by
  induction lLevels generalizing lYD sums idx lBPs with
  | nil =>
    rw [odLoop, if_pos hbound]
    simp
  | cons next lLevels ih =>
    intro hok
    obtain ⟨step, -, hok⟩ := bind_eq_ok.1 hok
    obtain ⟨rest, hrest, -⟩ := bind_eq_ok.1 hok
    exact ih _ _ _ _ hrest

theorem computeBidPrices_ok_iff (hmap : ioLegCabin.yieldLevelDemandMap = lFirstYD :: lLevels) :
    (∃ out, computeBidPrices draws K ioLegCabin = .ok out) ↔
      1 ≤ ioLegCabin.availabilityPool ∧ ⌊ioLegCabin.availabilityPool⌋ < 2 ^ 32 - 1 ∧
        (odStages draws K lFirstYD lLevels).Passes := by
  have hone : 1 ≤ ioLegCabin.availabilityPool ↔ 1 ≤ ⌊ioLegCabin.availabilityPool⌋ := by
    rw [Int.le_floor, Int.cast_one]
  rw [hone]
  constructor
  · rintro ⟨out, hrun⟩
    have hout := hrun
    unfold computeBidPrices at hout
    simp only [hmap] at hout
    obtain ⟨lBPs, hloop, -⟩ := bind_eq_ok.1 hout
    have hmax : ⌊ioLegCabin.availabilityPool⌋ < 2 ^ 32 - 1 := by
      by_contra hcon
      exact odLoop_endless (by omega) _ _ _ _ _ hloop
    have hpass : (odStages draws K lFirstYD lLevels).Passes := by
      by_contra hcon
      have hbound : ⌊ioLegCabin.availabilityPool⌋.toNat + 1 < 2 ^ 32 := by omega
      have herror := odLoop_of_not_passes draws hbound lFirstYD (draws lFirstYD K) 1
        (LegCabin.isChain_yield hmap) hcon
      rw [herror] at hloop
      cases hloop
    refine ⟨?_, hmax, hpass⟩
    by_contra hcon
    have hlow : ioLegCabin.availabilityPool < 1 := by rwa [← hone, not_le] at hcon
    rw [computeBidPrices_of_pool_lt_one hmap hlow hpass] at hrun
    cases hrun
  · rintro ⟨hpool, hmax, hpass⟩
    exact ⟨_, computeBidPrices_spec hmap hpool hmax hpass⟩

omit [IsStrictOrderedRing α] in
/-- The whole function returns what was computed, unless the previous bid price is zero. -/
theorem optimisationByMCIntegration_ok_iff {generateNormal : ℕ → α → α → α} {updatePreviousBidPrice : LegCabin α → α}
    {after : LegCabin α} : optimisationByMCIntegration generateNormal updatePreviousBidPrice ioLegCabin = .ok after ↔
      ∃ out, computeBidPrices (fun lYD => generateDemandVector generateNormal lYD.mean lYD.stdDev)
          DEFAULT_NUMBER_OF_DRAWS_FOR_MC_SIMULATION ioLegCabin = .ok out ∧
        updatePreviousBidPrice { ioLegCabin with bidPriceVector := out.bidPriceVector } ≠ 0 ∧
        after = { out with
          previousBidPrice := updatePreviousBidPrice { ioLegCabin with bidPriceVector := out.bidPriceVector } } := by
  unfold optimisationByMCIntegration
  rw [bind_eq_ok]
  apply exists_congr
  intro out
  apply and_congr_right
  intro _
  by_cases hzero : updatePreviousBidPrice { ioLegCabin with bidPriceVector := out.bidPriceVector } = 0
  · simp [hzero]
  · simp [hzero, eq_comm]

end runs

/-! ## Prices along the seats -/

namespace Stages

/-- Yields of at least one that go down, and a tail up to each protection level that is worth at least the
next yield. -/
def Priced : Stages α → Prop
  | last y _ => 1 ≤ y
  | step y sums lj pj rest =>
    rest.yield < y ∧ sums.Pairwise (· ≤ ·) ∧ lj < sums.length ∧ lj * y ≤ sums.length * (y - rest.yield) ∧
      pj = OrderStatistics.midpoint sums lj ∧ rest.Priced

end Stages

section prices
variable [IsStrictOrderedRing α] {st rest : Stages α} {y p : α} {sums : List α} {lj x x' z : ℕ}

theorem tailPrice_le (hy : 0 ≤ y) : tailPrice y sums x ≤ y := by
  unfold tailPrice
  rcases Nat.eq_zero_or_pos sums.length with hzero | hpos
  · rw [hzero, Nat.cast_zero, div_zero]
    exact hy
  · have hlen : (0 : α) < sums.length := by exact_mod_cast hpos
    have hcount : ((tailCount sums (x : α) : ℕ) : α) ≤ sums.length := by exact_mod_cast tailCount_le_length
    rw [div_le_iff₀ hlen]
    exact mul_le_mul_of_nonneg_left hcount hy

theorem tailPrice_anti (hy : 0 ≤ y) (hx : x ≤ x') : tailPrice y sums x' ≤ tailPrice y sums x := by
  have hcount : tailCount sums (x' : α) ≤ tailCount sums (x : α) := tailCount_anti (by exact_mod_cast hx)
  unfold tailPrice
  gcongr

namespace Stages

omit [FloorRing α] [IsStrictOrderedRing α] in
theorem Priced.one_le_yield (h : st.Priced) : 1 ≤ st.yield := by
  induction st with
  | last y sums => exact h
  | step y sums lj pj rest ih =>
    obtain ⟨hlt, -, -, -, -, hrest⟩ := h
    exact (ih hrest).trans hlt.le

theorem Priced.price_le_yield {covers : α → ℕ → Prop} [∀ p x, Decidable (covers p x)] (h : st.Priced) :
    st.price covers x ≤ st.yield := by
  induction st with
  | last y sums => exact tailPrice_le (zero_le_one.trans h)
  | step y sums lj pj rest ih =>
    have hy : 1 ≤ (step y sums lj pj rest).yield := h.one_le_yield
    obtain ⟨hlt, -, -, -, -, hrest⟩ := h
    rw [price]
    split
    · exact tailPrice_le (zero_le_one.trans hy)
    · exact (ih hrest).trans hlt.le

/-- **At a class boundary** a protected seat is worth at least the next yield. -/
theorem Priced.nextYield_le (h : (step y sums lj p rest).Priced) (hx : protects p x) :
    rest.yield ≤ tailPrice y sums x := by
  have hy : 1 ≤ y := Priced.one_le_yield h
  obtain ⟨hlt, hsorted, hlj, hindex, rfl, -⟩ := h
  have hlen : (0 : α) < sums.length := by exact_mod_cast Nat.zero_lt_of_lt hlj
  have hcount : ((sums.length - lj : ℕ) : α) ≤ tailCount sums (x : α) := by
    exact_mod_cast length_sub_le_tailCount hsorted hlj hx
  rw [Nat.cast_sub hlj.le] at hcount
  rw [tailPrice, le_div_iff₀ hlen]
  calc rest.yield * sums.length
      _ ≤ y * (sums.length - lj) := by linarith
      _ ≤ y * tailCount sums (x : α) := mul_le_mul_of_nonneg_left hcount (zero_le_one.trans hy)

theorem price_anti (h : st.Priced) (hfits : st.Fits) (hx : 1 ≤ x) (hle : x ≤ x') (hmax : x' < 2 ^ 31) :
    st.price wraps x' ≤ st.price wraps x := by
  induction st with
  | last y sums => exact tailPrice_anti (zero_le_one.trans h) hle
  | step y sums lj pj rest ih =>
    have hy : 1 ≤ y := Priced.one_le_yield h
    by_cases hw' : wraps pj x'
    · have hw : wraps pj x := hle.trans hw'
      simp only [price, hw, hw', if_true]
      exact tailPrice_anti (zero_le_one.trans hy) hle
    · by_cases hw : wraps pj x
      · -- the boundary lies between the two seats
        have hprotects : protects pj x := ((wraps_iff hfits.1 hx (by omega)).1 hw).resolve_right fun hneg =>
          hw' ((wraps_iff hfits.1 (by omega) hmax).2 (Or.inr hneg))
        simp only [price, hw, hw', if_true, if_false]
        exact h.2.2.2.2.2.price_le_yield.trans (h.nextYield_le hprotects)
      · simp only [price, hw, hw', if_false]
        exact ih h.2.2.2.2.2 hfits.2

/-- A seat priced above the last class is worth at least one, unless its class prices all seats left. -/
theorem one_le_price_of_covered (h : st.Priced) (hfits : st.Fits) (hx : 1 ≤ x) (hxmax : x < 2 ^ 31)
    (hcov : st.Covered x) (hz : 1 ≤ z) (hzmax : z < 2 ^ 31) (hnot : ¬ st.Covered z) : 1 ≤ st.price wraps x := by
  induction st with
  | last y sums => exact hcov.elim
  | step y sums lj pj rest ih =>
    by_cases hw : wraps pj x
    · have hprotects : protects pj x := ((wraps_iff hfits.1 hx hxmax).1 hw).resolve_right fun hneg =>
        hnot (Or.inl ((wraps_iff hfits.1 hz hzmax).2 (Or.inr hneg)))
      rw [price, if_pos hw]
      exact h.2.2.2.2.2.one_le_yield.trans (h.nextYield_le hprotects)
    · rw [price, if_neg hw]
      exact ih h.2.2.2.2.2 hfits.2 (hcov.resolve_left hw) fun hrest => hnot (Or.inr hrest)

theorem flooredPrice_anti (h : st.Priced) (hfits : st.Fits) (hx : 1 ≤ x) (hle : x ≤ x') (hmax : x' < 2 ^ 31) :
    st.flooredPrice 1 x' ≤ st.flooredPrice 1 x := by
  unfold flooredPrice
  by_cases hmin : ∃ z ∈ seats 1 x, ¬ st.Covered z ∧ st.price wraps z < 1
  · have hmin' : ∃ z ∈ seats 1 x', ¬ st.Covered z ∧ st.price wraps z < 1 := by
      obtain ⟨z, hz, hlow⟩ := hmin
      rw [mem_seats] at hz
      exact ⟨z, mem_seats.2 ⟨hz.1, hz.2.trans hle⟩, hlow⟩
    rw [if_pos hmin, if_pos hmin']
  · rw [if_neg hmin]
    split
    · rename_i hmin'
      obtain ⟨z, hz, hcov, -⟩ := hmin'
      rw [mem_seats] at hz
      by_cases hcovx : st.Covered x
      · exact one_le_price_of_covered h hfits hx (by omega) hcovx hz.1 (by omega) hcov
      · by_contra hcon
        exact hmin ⟨x, mem_seats.2 ⟨hx, le_rfl⟩, hcovx, not_le.1 hcon⟩
    · exact price_anti h hfits hx hle hmax

theorem Priced.flooredPrice_le_yield (h : st.Priced) (idx : ℕ) : st.flooredPrice idx x ≤ st.yield := by
  unfold flooredPrice
  split
  · exact h.one_le_yield
  · exact h.price_le_yield

end Stages

omit [IsStrictOrderedRing α] in
@[simp] theorem yield_stages (sums : List α) (y : α) (below : List (α × (ℕ → List α))) :
    (stages sums y below).yield = y := by
  cases below <;> rfl

/-- The sample index leaves a tail that is worth at least the next yield. -/
theorem sampleIndex_mul_le {K : ℕ} {y' : α} (hy : 0 < y) (hlt : y' < y) :
    sampleIndex K y y' * y ≤ K * (y - y') := by
  have hnonneg : 0 ≤ (K : α) * (y - y') / y := by
    have : 0 ≤ y - y' := by linarith
    positivity
  rw [← le_div_iff₀ hy]
  exact Nat.floor_le hnonneg

theorem stages_priced {below : List (α × (ℕ → List α))} (hchain : (y :: below.map Prod.fst).IsChain (· > ·))
    (hone : ∀ z ∈ y :: below.map Prod.fst, 1 ≤ z) (hpass : (stages sums y below).Passes) :
    (stages sums y below).Priced := by
  induction below generalizing sums y with
  | nil => exact hone y List.mem_cons_self
  | cons head below ih =>
    obtain ⟨y', draw⟩ := head
    rw [List.map_cons, List.isChain_cons_cons] at hchain
    have hrest := ih hchain.2 (fun z hz => hone z (List.mem_cons_of_mem _ hz)) hpass.2
    have hy : 0 < y := zero_lt_one.trans_le (hone y List.mem_cons_self)
    refine ⟨?_, sortedSums_sorted sums, hpass.1.2, ?_, rfl, hrest⟩
    · rw [yield_stages]
      exact hchain.1
    · rw [yield_stages]
      exact sampleIndex_mul_le hy hchain.1

end prices

section nonincreasing
variable [IsStrictOrderedRing α] {draws : YieldLevel α → ℕ → List α} {K : ℕ} {ioLegCabin : LegCabin α}
  {lFirstYD : YieldLevel α} {lLevels : List (YieldLevel α)}

theorem odStages_priced (hmap : ioLegCabin.yieldLevelDemandMap = lFirstYD :: lLevels)
    (hyield : ∀ lYD ∈ lFirstYD :: lLevels, 1 ≤ lYD.yield) (hpass : (odStages draws K lFirstYD lLevels).Passes) :
    (odStages draws K lFirstYD lLevels).Priced := by
  have hfst : (odClasses draws lLevels).map Prod.fst = lLevels.map (·.yield) := by
    simp [odClasses, Function.comp_def]
  refine stages_priced ?_ ?_ hpass
  · rw [hfst]
    exact LegCabin.isChain_yield hmap
  · rw [hfst, ← List.map_cons (f := fun lYD : YieldLevel α => lYD.yield)]
    simpa only [List.forall_mem_map] using hyield

/-- **The O&D bid prices** have one entry for each seat of the pool and never go up, none is above the highest
yield level, and the new bid price is that of the last available seat. -/
theorem computeBidPrices_nonincreasing (hmap : ioLegCabin.yieldLevelDemandMap = lFirstYD :: lLevels)
    (hyield : ∀ lYD ∈ lFirstYD :: lLevels, 1 ≤ lYD.yield) (hpool : 1 ≤ ioLegCabin.availabilityPool)
    (hint : FitsInt ioLegCabin.availabilityPool) (hpass : (odStages draws K lFirstYD lLevels).Passes)
    (hfits : (odStages draws K lFirstYD lLevels).Fits) :
    ∃ out, computeBidPrices draws K ioLegCabin = .ok out ∧
      (out.bidPriceVector.length : ℤ) = ⌊ioLegCabin.availabilityPool⌋ ∧
      out.bidPriceVector.Pairwise (· ≥ ·) ∧
      (∀ lBP ∈ out.bidPriceVector, lBP ≤ lFirstYD.yield) ∧
      out.bidPriceVector[⌊ioLegCabin.availabilityPool⌋.toNat - 1]? = some out.currentBidPrice := by
  have hfloor : 1 ≤ ⌊ioLegCabin.availabilityPool⌋ := by rwa [Int.le_floor, Int.cast_one]
  have hmax : ⌊ioLegCabin.availabilityPool⌋ < 2 ^ 31 := by
    have htrunc : truncate ioLegCabin.availabilityPool = ⌊ioLegCabin.availabilityPool⌋ :=
      if_pos (zero_le_one.trans hpool)
    rw [← htrunc]
    exact hint.2
  have hpriced := odStages_priced hmap hyield hpass
  have htop : (odStages draws K lFirstYD lLevels).yield = lFirstYD.yield := yield_stages _ _ _
  have hlength : ((seats 1 ⌊ioLegCabin.availabilityPool⌋.toNat).map
      ((odStages draws K lFirstYD lLevels).flooredPrice 1)).length = ⌊ioLegCabin.availabilityPool⌋.toNat := by
    simp [seats]
  refine ⟨_, computeBidPrices_spec hmap hfloor (by omega) hpass, ?_, ?_, ?_, ?_⟩
  · rw [hlength]
    omega
  · have hseats : (seats 1 ⌊ioLegCabin.availabilityPool⌋.toNat).Pairwise (· < ·) := List.pairwise_lt_range' ..
    refine List.pairwise_map.2 (hseats.imp_of_mem ?_)
    intro x x' hx hx' hlt
    rw [mem_seats] at hx hx'
    exact Stages.flooredPrice_anti hpriced hfits hx.1 hlt.le (by omega)
  · intro lBP hlBP
    obtain ⟨x, -, rfl⟩ := List.mem_map.1 hlBP
    rw [← htop]
    exact hpriced.flooredPrice_le_yield 1
  · have hlast := getLast?_map_seats ((odStages draws K lFirstYD lLevels).flooredPrice 1)
      (n := ⌊ioLegCabin.availabilityPool⌋.toNat) (by omega)
    rwa [List.getLast?_eq_getElem?, hlength] at hlast

end nonincreasing

/-- Levels 2 and 1. -/
def twoLevelCabin : LegCabin ℚ where
  availabilityPool := 9 / 2
  virtualClassList := []
  yieldLevelDemandMap := [⟨2, 3, 1⟩, ⟨1, 1, 0⟩]
  bidPriceVector := []
  currentBidPrice := 1
  previousBidPrice := 1
  map_sorted := by decide +kernel

/-- A generator with a few fixed draws. -/
def fixedDraws (lYD : YieldLevel ℚ) (k : ℕ) : List ℚ :=
  generateDemandVector (fun i iMean _ => [iMean, 1, 4, 2].getD i iMean) lYD.mean lYD.stdDev k

theorem computeBidPrices_nonincreasing_twoLevel :
    ∃ out, computeBidPrices fixedDraws 4 twoLevelCabin = .ok out ∧
      (out.bidPriceVector.length : ℤ) = ⌊twoLevelCabin.availabilityPool⌋ ∧
      out.bidPriceVector.Pairwise (· ≥ ·) ∧
      (∀ lBP ∈ out.bidPriceVector, lBP ≤ 2) ∧
      out.bidPriceVector[⌊twoLevelCabin.availabilityPool⌋.toNat - 1]? = some out.currentBidPrice :=
  computeBidPrices_nonincreasing (rfl : twoLevelCabin.yieldLevelDemandMap = [⟨2, 3, 1⟩, ⟨1, 1, 0⟩])
    (by decide +kernel) (by decide +kernel) (by decide +kernel) (by decide +kernel) (by decide +kernel)

/-! ## Completing -/

/-- Going down the levels with `K` samples, each next level is positive and far enough below for the samples
that are left. -/
def LevelsOk : ℕ → List α → Prop
  | K, y :: y' :: levels => 0 < y' ∧ y ≤ K * (y - y') ∧ LevelsOk (K - sampleIndex K y y') (y' :: levels)
  | _, _ => True

omit [FloorRing α] in
theorem length_generateDemandVector (generateNormal : ℕ → α → α → α) (iMean iStdDev : α) (K : ℕ) :
    (generateDemandVector generateNormal iMean iStdDev K).length = K := by
  unfold generateDemandVector
  split <;> simp

section completes
variable [IsStrictOrderedRing α] {draws : YieldLevel α → ℕ → List α} {K : ℕ} {ioLegCabin : LegCabin α}
  {lFirstYD : YieldLevel α} {lLevels : List (YieldLevel α)}

/-- **The index assertion** on two levels. -/
theorem sampleIndex_iff {y y' : α} (hlt : y' < y) :
    (sampleIndex K y y' ≥ 1 ∧ sampleIndex K y y' < K) ↔ 0 < y' ∧ y ≤ K * (y - y') := by
  unfold sampleIndex
  have hK : (0 : α) ≤ K := Nat.cast_nonneg K
  rcases le_or_gt y 0 with hy | hy
  · have hquot : (K : α) * (y - y') / y ≤ 0 :=
      div_nonpos_of_nonneg_of_nonpos (mul_nonneg hK (by linarith)) hy
    rw [Nat.floor_of_nonpos hquot]
    constructor
    · rintro ⟨h, -⟩
      omega
    · rintro ⟨h, -⟩
      linarith
  · have hnonneg : 0 ≤ (K : α) * (y - y') / y := div_nonneg (mul_nonneg hK (by linarith)) hy.le
    rw [ge_iff_le, Nat.one_le_floor_iff, Nat.floor_lt hnonneg, le_div_iff₀ hy, one_mul, div_lt_iff₀ hy]
    constructor
    · rintro ⟨hle, hltK⟩
      refine ⟨?_, hle⟩
      by_contra hcon
      nlinarith [not_lt.1 hcon]
    · rintro ⟨hpos, hle⟩
      refine ⟨hle, ?_⟩
      -- there is a sample at all, as the yield is positive
      have hKpos : (0 : α) < K := by
        by_contra hcon
        have hzero : (K : α) = 0 := le_antisymm (not_lt.1 hcon) hK
        rw [hzero, zero_mul] at hle
        linarith
      nlinarith [mul_pos hKpos hpos]

/-- The index assertions, in terms of the yields and the number of samples. -/
theorem stages_passes_iff {below : List (α × (ℕ → List α))} (sums : List α) {y : α}
    (hchain : (y :: below.map Prod.fst).IsChain (· > ·))
    (hdraws : ∀ b ∈ below, ∀ k ≤ sums.length, k ≤ (b.2 k).length) :
    (stages sums y below).Passes ↔ LevelsOk sums.length (y :: below.map Prod.fst) := by
  induction below generalizing sums y with
  | nil => exact Iff.rfl
  | cons head below ih =>
    obtain ⟨y', draw⟩ := head
    rw [List.map_cons, List.isChain_cons_cons] at hchain
    have hindex : stageIndex sums y y' = sampleIndex sums.length y y' := by
      unfold stageIndex
      rw [length_sortedSums]
    have hlength : (stageNext sums y y' draw).length = sums.length - sampleIndex sums.length y y' := by
      have henough := hdraws _ List.mem_cons_self (sums.length - sampleIndex sums.length y y') (Nat.sub_le _ _)
      simp [stageNext, nextSums, length_sortedSums, hindex, henough]
    specialize ih (stageNext sums y y' draw) hchain.2 fun b hb k hk =>
      hdraws b (List.mem_cons_of_mem _ hb) k (hk.trans (length_stageNext sums y y' draw))
    rw [hlength] at ih
    simp only [stages, Stages.Passes, length_sortedSums, hindex, sampleIndex_iff hchain.1, ih, List.map_cons,
      LevelsOk, and_assoc]

theorem odStages_passes_iff (hmap : ioLegCabin.yieldLevelDemandMap = lFirstYD :: lLevels)
    (hdraws : ∀ lYD k, (draws lYD k).length = k) :
    (odStages draws K lFirstYD lLevels).Passes ↔ LevelsOk K (ioLegCabin.yieldLevelDemandMap.map (·.yield)) := by
  have hfst : (odClasses draws lLevels).map Prod.fst = lLevels.map (·.yield) := by
    simp [odClasses, Function.comp_def]
  have hclasses : ∀ b ∈ odClasses draws lLevels, ∀ k ≤ (draws lFirstYD K).length, k ≤ (b.2 k).length := by
    simp only [odClasses, List.forall_mem_map]
    exact fun lYD _ k _ => (hdraws lYD k).ge
  have hchain : (lFirstYD.yield :: (odClasses draws lLevels).map Prod.fst).IsChain (· > ·) := by
    rw [hfst]
    exact LegCabin.isChain_yield hmap
  have hiff := stages_passes_iff (draws lFirstYD K) hchain hclasses
  rw [hdraws, hfst] at hiff
  rw [hmap, List.map_cons]
  exact hiff

/-- **The O&D optimisation completes** iff the pool holds a seat and its seats can be counted, and the levels
are positive and far enough apart. -/
theorem computeBidPrices_completes_iff (hmap : ioLegCabin.yieldLevelDemandMap = lFirstYD :: lLevels)
    (hdraws : ∀ lYD k, (draws lYD k).length = k) :
    (∃ out, computeBidPrices draws K ioLegCabin = .ok out) ↔
      1 ≤ ioLegCabin.availabilityPool ∧ ⌊ioLegCabin.availabilityPool⌋ < 2 ^ 32 - 1 ∧
        LevelsOk K (ioLegCabin.yieldLevelDemandMap.map (·.yield)) := by
  rw [computeBidPrices_ok_iff hmap, odStages_passes_iff hmap hdraws]

end completes

theorem computeBidPrices_completes_iff_twoLevel :
    ∃ out, computeBidPrices fixedDraws 4 twoLevelCabin = .ok out :=
  (computeBidPrices_completes_iff (rfl : twoLevelCabin.yieldLevelDemandMap = [⟨2, 3, 1⟩, ⟨1, 1, 0⟩])
    fun lYD => length_generateDemandVector _ lYD.mean lYD.stdDev).2
    ⟨by decide +kernel, by decide +kernel, by decide +kernel, by decide +kernel, trivial⟩

/-- **A sold-out leg** with a demand of 30 at level 100: there is no entry for `back ()` to read. -/
theorem computeBidPrices_soldOut :
    let soldOutCabin : LegCabin ℚ := ⟨0, [], [⟨100, 30, 0⟩], [], 1, 1, List.pairwise_singleton _ _⟩
    computeBidPrices fixedDraws DEFAULT_NUMBER_OF_DRAWS_FOR_MC_SIMULATION soldOutCabin =
      .error .emptyBidPriceVector :=
  computeBidPrices_of_pool_lt_one rfl (by decide +kernel) trivial

end Rmol
