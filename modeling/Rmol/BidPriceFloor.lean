import Rmol.OnDBidPrices
/-!
# The minimal bid price over a sequence of optimisations (`MCOptimiser.cpp:198-310`, `Optimiser.cpp:258-284`)

| here | there |
| --- | --- |
| `optimiseLegCabin`   | the body of the loop on leg-cabins of `optimiseUsingOnDForecast` (`Optimiser.cpp:270-280`) |
| `OptimisationRound`  | what the inventory and the forecast set before an optimisation |
| `optimisations`      | the leg-cabin through a sequence of rounds |

The minimum of 1.0 is there "to avoid problems of division by zero", but only the loop of the last level
applies it. A level with a protection level of -1 or less prices all seats left in its own loop, and its
price there can be anything down to zero. The next optimisation then divides by that price. Where the last
seat of the pool meets no such level before one that reaches it, no price is below one
(`optimisations_minimum`).
-/

namespace Rmol

open OrderStatistics

variable {α : Type*} [Field α] [LinearOrder α] [FloorRing α]

/-- The optimisation of a leg-cabin, with the variation of its bid price. -/
def optimiseLegCabin (generateNormal : ℕ → α → α → α) (updatePreviousBidPrice : LegCabin α → α)
    (ioLegCabin : LegCabin α) : Except McFault (LegCabin α × α) := do
  let out ← optimisationByMCIntegration generateNormal updatePreviousBidPrice ioLegCabin
  if out.previousBidPrice = 0 then .error .previousBidPrice
  else return (out, |(out.currentBidPrice - out.previousBidPrice) / out.previousBidPrice|)

/-- The yield levels are listed from the highest one down; there is at least one. -/
structure OptimisationRound (α : Type*) [LT α] where
  generateNormal : ℕ → α → α → α
  availabilityPool : α
  lFirstYD : YieldLevel α
  lLevels : List (YieldLevel α)
  map_sorted : (lFirstYD :: lLevels).Pairwise fun y z => z.yield < y.yield

namespace OptimisationRound
variable (round : OptimisationRound α)

/-- The leg-cabin as the round finds it; the bid prices are still the ones of the round before. -/
@[simps] def prepare (ioLegCabin : LegCabin α) : LegCabin α :=
  { ioLegCabin with
    availabilityPool := round.availabilityPool
    yieldLevelDemandMap := round.lFirstYD :: round.lLevels
    map_sorted := round.map_sorted }

/-- The samples of a level. -/
def draws (lYD : YieldLevel α) (K : ℕ) : List α :=
  generateDemandVector round.generateNormal lYD.mean lYD.stdDev K

def stages : Stages α :=
  odStages round.draws DEFAULT_NUMBER_OF_DRAWS_FOR_MC_SIMULATION round.lFirstYD round.lLevels

/-- Positive integer levels, a pool of at least one, and a run that passes its index assertions with
everything in the range of `int`. -/
structure Admissible : Prop where
  one_le_yield : ∀ lYD ∈ round.lFirstYD :: round.lLevels, 1 ≤ lYD.yield
  one_le_pool : 1 ≤ round.availabilityPool
  fitsInt : FitsInt round.availabilityPool
  passes : round.stages.Passes
  fits : round.stages.Fits

end OptimisationRound

/-- The leg-cabin after each round. -/
def optimisations (updatePreviousBidPrice : LegCabin α → α) :
    List (OptimisationRound α) → LegCabin α → Except McFault (List (LegCabin α))
  | [], _ => return []
  | round :: rounds, ioLegCabin => do
    let out ← optimiseLegCabin round.generateNormal updatePreviousBidPrice (round.prepare ioLegCabin)
    let outs ← optimisations updatePreviousBidPrice rounds out.1
    return out.1 :: outs

/-! ## One optimisation -/

section one
variable [IsStrictOrderedRing α] {st : Stages α} {n : ℕ}

/-- A level above the last one that reaches the seat prices it at one or more. -/
theorem Stages.Priced.one_le_price (h : st.Priced) (hfits : st.Fits) (hn : 1 ≤ n) (hmax : n < 2 ^ 31)
    (hunwrapped : st.Unwrapped n) (hcov : st.Covered n) : 1 ≤ st.price wraps n := by
  induction st with
  | last y sums => exact hcov.elim
  | step y sums lj pj rest ih =>
    have hwraps := wraps_iff hfits.1 hn hmax
    by_cases hprotects : protects pj n
    · -- the boundary of the level is worth the next yield
      have hw : wraps pj n := hwraps.2 (.inl hprotects)
      rw [price, if_pos hw]
      exact h.2.2.2.2.2.one_le_yield.trans (h.nextYield_le hprotects)
    · obtain ⟨hpj, hrest⟩ := hunwrapped.resolve_left hprotects
      have hw : ¬ wraps pj n := fun hw => (hwraps.1 hw).elim hprotects hpj.not_ge
      rw [price, if_neg hw]
      exact ih h.2.2.2.2.2 hfits.2 hrest (hcov.resolve_left hw)

/-- The last entry is at least one, unless a level above the last one prices it lower. -/
theorem Stages.one_le_flooredPrice_iff (h : st.Priced) (hfits : st.Fits) (hn : 1 ≤ n) (hmax : n < 2 ^ 31) :
    1 ≤ st.flooredPrice 1 n ↔ (st.Covered n → 1 ≤ st.price wraps n) := by
  unfold flooredPrice
  by_cases hmin : ∃ z ∈ seats 1 n, ¬ st.Covered z ∧ st.price wraps z < 1
  · rw [if_pos hmin]
    obtain ⟨z, hz, hcov, -⟩ := hmin
    rw [mem_seats] at hz
    simp only [le_refl, true_iff]
    intro hcovn
    exact one_le_price_of_covered h hfits hn hmax hcovn hz.1 (by omega) hcov
  · rw [if_neg hmin]
    refine ⟨fun hone _ => hone, fun hone => ?_⟩
    by_contra hlow
    by_cases hcov : st.Covered n
    · exact hlow (hone hcov)
    · exact hmin ⟨n, mem_seats.2 ⟨hn, le_rfl⟩, hcov, not_le.1 hlow⟩

/-- No entry is below one, as the last one is not. -/
theorem Stages.Priced.one_le_entries (h : st.Priced) (hfits : st.Fits) (hn : 1 ≤ n) (hmax : n < 2 ^ 31)
    (hunwrapped : st.Unwrapped n) : ∀ lBP ∈ (seats 1 n).map (st.flooredPrice 1), 1 ≤ lBP := by
  have hlast := (one_le_flooredPrice_iff h hfits hn hmax).2 (h.one_le_price hfits hn hmax hunwrapped)
  rw [List.forall_mem_map]
  intro x hx
  rw [mem_seats] at hx
  exact hlast.trans (flooredPrice_anti h hfits hx.1 hx.2 hmax)

end one

/-! ## A sequence of optimisations -/

section runs
variable [IsStrictOrderedRing α] {round : OptimisationRound α} {updatePreviousBidPrice : LegCabin α → α}

omit [IsStrictOrderedRing α] in
theorem OptimisationRound.Admissible.pool_bounds (h : round.Admissible) :
    1 ≤ ⌊round.availabilityPool⌋ ∧ ⌊round.availabilityPool⌋ < 2 ^ 31 := by
  have htrunc : truncate round.availabilityPool = ⌊round.availabilityPool⌋ :=
    if_pos (zero_le_one.trans h.one_le_pool)
  refine ⟨?_, htrunc ▸ h.fitsInt.2⟩
  rw [Int.le_floor, Int.cast_one]
  exact h.one_le_pool

omit [IsStrictOrderedRing α] in
theorem optimiseLegCabin_ok {generateNormal : ℕ → α → α → α} {ioLegCabin out : LegCabin α}
    (hrun : optimisationByMCIntegration generateNormal updatePreviousBidPrice ioLegCabin = .ok out)
    (hprevious : out.previousBidPrice ≠ 0) :
    ∃ variation, optimiseLegCabin generateNormal updatePreviousBidPrice ioLegCabin = .ok (out, variation) := by
  refine ⟨|(out.currentBidPrice - out.previousBidPrice) / out.previousBidPrice|, ?_⟩
  rw [optimiseLegCabin, hrun, ok_bind, if_neg hprevious]
  rfl

theorem OptimisationRound.Admissible.computeBidPrices_eq (h : round.Admissible) (ioLegCabin : LegCabin α) :
    ∃ out, computeBidPrices round.draws DEFAULT_NUMBER_OF_DRAWS_FOR_MC_SIMULATION (round.prepare ioLegCabin) = .ok out ∧
      out.bidPriceVector = (seats 1 ⌊round.availabilityPool⌋.toNat).map (round.stages.flooredPrice 1) ∧
      out.currentBidPrice = round.stages.flooredPrice 1 ⌊round.availabilityPool⌋.toNat := by
  obtain ⟨hpool, hmax⟩ := h.pool_bounds
  have hspec : computeBidPrices round.draws DEFAULT_NUMBER_OF_DRAWS_FOR_MC_SIMULATION (round.prepare ioLegCabin) =
      .ok _ := computeBidPrices_spec rfl hpool (by rw [round.prepare_availabilityPool]; omega) h.passes
  exact ⟨_, hspec, rfl, rfl⟩

/-- **One round** prices every seat of the pool and sets the last price, if the bid price that it finds is
not zero. -/
theorem optimiseLegCabin_spec (hupdate : ∀ lLC, updatePreviousBidPrice lLC = lLC.currentBidPrice)
    (h : round.Admissible) {ioLegCabin : LegCabin α} (hcurrent : ioLegCabin.currentBidPrice ≠ 0) :
    ∃ out variation, optimiseLegCabin round.generateNormal updatePreviousBidPrice (round.prepare ioLegCabin) =
        .ok (out, variation) ∧
      out.bidPriceVector = (seats 1 ⌊round.availabilityPool⌋.toNat).map (round.stages.flooredPrice 1) ∧
      out.currentBidPrice = round.stages.flooredPrice 1 ⌊round.availabilityPool⌋.toNat := by
  obtain ⟨out, hspec, hvector, hprice⟩ := h.computeBidPrices_eq ioLegCabin
  have hprevious : updatePreviousBidPrice { round.prepare ioLegCabin with bidPriceVector := out.bidPriceVector } ≠ 0 := by
    rw [hupdate]
    exact hcurrent
  have hrun : optimisationByMCIntegration round.generateNormal updatePreviousBidPrice (round.prepare ioLegCabin) =
      .ok _ := optimisationByMCIntegration_ok_iff.2 ⟨out, hspec, hprevious, rfl⟩
  obtain ⟨variation, hstep⟩ := optimiseLegCabin_ok hrun hprevious
  exact ⟨_, variation, hstep, hvector, hprice⟩

/-- A round that finds a bid price of zero stops. -/
theorem optimiseLegCabin_of_zero (hupdate : ∀ lLC, updatePreviousBidPrice lLC = lLC.currentBidPrice)
    (h : round.Admissible) {ioLegCabin : LegCabin α} (hcurrent : ioLegCabin.currentBidPrice = 0) :
    optimiseLegCabin round.generateNormal updatePreviousBidPrice (round.prepare ioLegCabin) =
      .error .previousBidPrice := by
  obtain ⟨out, hspec, -, -⟩ := h.computeBidPrices_eq ioLegCabin
  have hprevious : updatePreviousBidPrice { round.prepare ioLegCabin with bidPriceVector := out.bidPriceVector } = 0 := by
    rw [hupdate]
    exact hcurrent
  have hrun : optimisationByMCIntegration round.generateNormal updatePreviousBidPrice (round.prepare ioLegCabin) =
      .error .previousBidPrice := by
    unfold optimisationByMCIntegration
    unfold OptimisationRound.draws at hspec
    rw [hspec, ok_bind]
    exact if_pos hprevious
  rw [optimiseLegCabin, hrun]
  rfl

/-- **No bid price below the minimum.** Starting from a positive bid price, a sequence of optimisations gets
through all its rounds with no entry and no new bid price below one, if in every round the last seat of the pool meets
no protection level of -1 or less before one that reaches it. -/
theorem optimisations_minimum (hupdate : ∀ lLC, updatePreviousBidPrice lLC = lLC.currentBidPrice)
    {rounds : List (OptimisationRound α)} (hrounds : ∀ round ∈ rounds, round.Admissible)
    (hunwrapped : ∀ round ∈ rounds, round.stages.Unwrapped ⌊round.availabilityPool⌋.toNat) {ioLegCabin : LegCabin α}
    (hcurrent : 0 < ioLegCabin.currentBidPrice) :
    ∃ outs, optimisations updatePreviousBidPrice rounds ioLegCabin = .ok outs ∧
      ∀ out ∈ outs, (∀ lBP ∈ out.bidPriceVector, 1 ≤ lBP) ∧ 1 ≤ out.currentBidPrice := by
  induction rounds generalizing ioLegCabin with
  | nil => exact ⟨[], rfl, by simp⟩
  | cons round rounds ih =>
    rw [List.forall_mem_cons] at hrounds hunwrapped
    obtain ⟨hround, hrest⟩ := hrounds
    obtain ⟨hpool, hmax⟩ := hround.pool_bounds
    have hpriced : round.stages.Priced := odStages_priced
      (show (round.prepare ioLegCabin).yieldLevelDemandMap = _ from rfl) hround.one_le_yield hround.passes
    have hentries := hpriced.one_le_entries hround.fits (n := ⌊round.availabilityPool⌋.toNat)
      (by omega) (by omega) hunwrapped.1
    obtain ⟨out, variation, hstep, hvector, hprice⟩ := optimiseLegCabin_spec hupdate hround hcurrent.ne'
    rw [← hvector] at hentries
    have hlast : 1 ≤ out.currentBidPrice := by
      refine hentries _ ?_
      rw [hvector, hprice]
      exact List.mem_map_of_mem (mem_seats.2 ⟨by omega, le_rfl⟩)
    obtain ⟨tail, htail, htails⟩ := ih hrest hunwrapped.2 (zero_lt_one.trans_le hlast)
    refine ⟨out :: tail, by rw [optimisations, hstep, ok_bind, htail]; rfl, ?_⟩
    rw [List.forall_mem_cons]
    exact ⟨⟨hentries, hlast⟩, htails⟩

end runs

/-! ## Draws that are all the same -/

section equalDraws

omit [Field α] [FloorRing α] in
theorem sortedSums_replicate (n : ℕ) (a : α) : sortedSums (List.replicate n a) = List.replicate n a :=
  List.perm_replicate.1 (List.perm_insertionSort _ _)

omit [FloorRing α] in
theorem midpoint_replicate [IsStrictOrderedRing α] {n k : ℕ} (a : α) (hk : k < n) :
    OrderStatistics.midpoint (List.replicate n a) k = a := by
  unfold OrderStatistics.midpoint
  rw [List.getD_replicate _ (by omega), List.getD_replicate _ hk]
  ring

/-- Levels 2 and 1, both with a deviation of one and every draw three deviations below the mean. -/
def lowRound (mean pool : ℚ) : OptimisationRound ℚ where
  generateNormal _ iMean iStdDev := iMean - 3 * iStdDev
  availabilityPool := pool
  lFirstYD := ⟨2, mean, 1⟩
  lLevels := [⟨1, mean, 1⟩]
  map_sorted := List.pairwise_pair.2 one_lt_two

/-- Its bid price is 1. -/
def openCabin : LegCabin ℚ := { twoLevelCabin with availabilityPool := 0 }

theorem lowRound_draws (mean pool : ℚ) {level : YieldLevel ℚ} (hstdDev : level.stdDev = 1) (K : ℕ) :
    (lowRound mean pool).draws level K = List.replicate K (level.mean - 3) := by
  simp [OptimisationRound.draws, generateDemandVector, lowRound, hstdDev]

theorem odStages_lowRound (mean pool : ℚ) {n : ℕ} (hn : 0 < n) : ∃ sums,
    odStages (lowRound mean pool).draws (2 * n) ⟨2, mean, 1⟩ [⟨1, mean, 1⟩] =
      .step 2 (List.replicate (2 * n) (mean - 3)) n (mean - 3) (.last 1 sums) := by
  have hindex : stageIndex (List.replicate (2 * n) (mean - 3)) 2 1 = n := by
    rw [stageIndex, sortedSums_replicate, List.length_replicate, sampleIndex]
    rw [show ((2 * n : ℕ) : ℚ) * (2 - 1) / 2 = n by push_cast; ring, Nat.floor_natCast]
  refine ⟨stageNext (List.replicate (2 * n) (mean - 3)) 2 1 ((lowRound mean pool).draws ⟨1, mean, 1⟩), ?_⟩
  unfold odStages
  rw [lowRound_draws mean pool rfl]
  simp only [odClasses, List.map_cons, List.map_nil, Rmol.stages, sortedSums_replicate, hindex, stageProtection,
    midpoint_replicate (mean - 3) (by omega : n < 2 * n)]

theorem lowRound_stages (mean pool : ℚ) : ∃ sums,
    (lowRound mean pool).stages = .step 2 (List.replicate (2 * 5000) (mean - 3)) 5000 (mean - 3) (.last 1 sums) := by
  have hK : DEFAULT_NUMBER_OF_DRAWS_FOR_MC_SIMULATION = 2 * 5000 := by
    norm_num [DEFAULT_NUMBER_OF_DRAWS_FOR_MC_SIMULATION]
  rw [OptimisationRound.stages, hK]
  exact odStages_lowRound mean pool (by norm_num)

theorem lowRound_admissible {mean pool : ℚ} (hmean : FitsInt (mean - 3)) (hpool : 1 ≤ pool) (hfits : FitsInt pool) :
    (lowRound mean pool).Admissible := by
  obtain ⟨sums, hstages⟩ := lowRound_stages mean pool
  refine ⟨by simp [lowRound], hpool, hfits, ?_, ?_⟩
  · rw [hstages]
    refine ⟨⟨?_, ?_⟩, trivial⟩
    · norm_num
    · rw [List.length_replicate]
      norm_num
  · rw [hstages]
    exact ⟨hmean, trivial⟩

/-- Two rounds with a mean of 5: no sample is negative, and the first level protects two seats. -/
theorem optimisations_minimum_twoRounds :
    ∃ outs, optimisations LegCabin.currentBidPrice [lowRound 5 2, lowRound 5 4] openCabin = .ok outs ∧
      ∀ out ∈ outs, (∀ lBP ∈ out.bidPriceVector, 1 ≤ lBP) ∧ 1 ≤ out.currentBidPrice := by
  have hdraws : ∀ (pool : ℚ) (level : YieldLevel ℚ), level.mean = 5 → level.stdDev = 1 → ∀ K,
      ∀ d ∈ (lowRound 5 pool).draws level K, 0 ≤ d := by
    intro pool level hmean hstdDev K d hd
    rw [lowRound_draws 5 pool hstdDev, hmean] at hd
    rw [List.eq_of_mem_replicate hd]
    norm_num
  have hunwrapped : ∀ pool : ℚ, ∀ n, (lowRound 5 pool).stages.Unwrapped n := by
    intro pool n
    refine Stages.unwrapped_of_nonneg (hdraws pool _ rfl rfl _) ?_
    simp only [odClasses, lowRound, List.map_cons, List.map_nil, List.forall_mem_singleton]
    exact fun K => hdraws pool ⟨1, 5, 1⟩ rfl rfl K
  refine optimisations_minimum (fun _ => rfl) ?_ ?_ (by decide +kernel)
  · simp only [List.forall_mem_cons, List.not_mem_nil, false_implies, implies_true, and_true]
    exact ⟨lowRound_admissible (by decide +kernel) (by norm_num) (by decide +kernel),
      lowRound_admissible (by decide +kernel) (by norm_num) (by decide +kernel)⟩
  · intro round hround
    simp only [List.mem_cons, List.not_mem_nil, or_false] at hround
    rcases hround with rfl | rfl <;> exact hunwrapped _ _

/-- **Division by a bid price of zero**: with a mean of 1 the first level has the protection level -2 and
prices the only seat, at zero; the second optimisation stops at the previous bid price. -/
theorem optimisations_below_minimum :
    (lowRound 1 1).Admissible ∧ 0 < openCabin.currentBidPrice ∧
      (∃ outs, optimisations LegCabin.currentBidPrice [lowRound 1 1] openCabin = .ok outs ∧
        outs.map (·.bidPriceVector) = [[0]] ∧ outs.map (·.currentBidPrice) = [0]) ∧
      optimisations LegCabin.currentBidPrice [lowRound 1 1, lowRound 1 1] openCabin = .error .previousBidPrice := by
  have hadm : (lowRound 1 1).Admissible :=
    lowRound_admissible (by decide +kernel) le_rfl (by decide +kernel)
  have hzero : (lowRound 1 1).stages.flooredPrice 1 1 = 0 := by
    obtain ⟨sums, hstages⟩ := lowRound_stages 1 1
    rw [hstages]
    have hw : wraps (1 - 3 : ℚ) 1 := by decide +kernel
    have htail : tailCount (List.replicate (2 * 5000) (1 - 3 : ℚ)) ((1 : ℕ) : ℚ) = 0 := by
      rw [tailCount, List.countP_replicate, if_neg (by norm_num)]
    rw [Stages.flooredPrice, if_neg, Stages.price, if_pos hw, tailPrice, htail]
    · norm_num
    · -- the first level covers the seat, so that the minimum is not looked at
      rintro ⟨z, hz, hcov, -⟩
      rw [mem_seats] at hz
      obtain rfl : z = 1 := by omega
      exact hcov (.inl hw)
  obtain ⟨out, variation, hstep, hvector, hprice⟩ := optimiseLegCabin_spec (fun _ => rfl) hadm
    (by decide +kernel : openCabin.currentBidPrice ≠ 0)
  have hpool : ⌊(lowRound 1 1).availabilityPool⌋.toNat = 1 := by decide +kernel
  rw [hpool, hzero] at hprice
  refine ⟨hadm, by decide +kernel, ?_, ?_⟩
  · refine ⟨[out], ?_, ?_, ?_⟩
    · rw [optimisations, hstep]
      rfl
    · rw [hpool] at hvector
      simp [hvector, seats, hzero]
    · simp [hprice]
  · rw [optimisations, hstep, ok_bind, optimisations, optimiseLegCabin_of_zero (fun _ => rfl) hadm hprice]
    rfl

end equalDraws

end Rmol
