import Rmol.LegBidPrices
import Rmol.Lib.Runs
import Rmol.OnDBidPrices
/-!
# The passes of the class loops (`MCOptimiser.cpp:73-131`, `:213-259`)

Both Monte-Carlo integrations go through the classes with a pool of partial sums. `LegPass` and `OdPass` are
one pass of each loop, from the class that is processed to the next one; a pass is made only where the
assertions on the yields, the sample index and the sample size hold. A function that ends well has made these
passes (`optimalOptimisationByMCIntegration_reaches`, `computeBidPrices_reaches`).

`samplePool_proportional`: the pool shrinks in proportion to the yield, up to one sum for each pass. So the index
assertions hold where the levels are `FarApart`, and fail where two of them are `TooClose`; for the first two levels
one is the opposite of the other.
-/

namespace Rmol

open OrderStatistics Runs

/-- The class that is processed, those before and after it, the partial sums and the next seat. -/
structure PassState (α γ : Type*) where
  processed : List γ
  current : γ
  below : List γ
  lPartialSumHolder : List α
  idx : ℕ

variable {α : Type*} [Field α] [LinearOrder α] [FloorRing α]

/-! ## Passes -/

inductive LegPass (lCap : α) (lCapacityIndex : ℕ) : PassState α (VirtualClass α) → PassState α (VirtualClass α) → Prop
  | pass {processed lVCList : List (VirtualClass α)} {lCurrentVC lNextVC : VirtualClass α}
      {lPartialSumHolder : List α} {idx : ℕ} {step : ClassStep α} :
      classStep lCurrentVC.yield lNextVC.yield lCapacityIndex lPartialSumHolder idx = .ok step →
      step.lPartialSumHolder.length ≤ lNextVC.generatedDemandVector.length →
      LegPass lCap lCapacityIndex ⟨processed, lCurrentVC, lNextVC :: lVCList, lPartialSumHolder, idx⟩
        ⟨processed ++ [{ lCurrentVC with cumulatedProtection := step.pj }],
          { lNextVC with cumulatedBookingLimit := lCap - step.pj }, lVCList,
          nextSums step.lPartialSumHolder step.lj lNextVC.generatedDemandVector, step.idx⟩

inductive OdPass (draws : YieldLevel α → ℕ → List α) (lPool : ℕ) :
    PassState α (YieldLevel α) → PassState α (YieldLevel α) → Prop
  | pass {processed lLevels : List (YieldLevel α)} {lCurrentYD lNextYD : YieldLevel α}
      {lPartialSumHolder : List α} {idx : ℕ} {step : ClassStep α} :
      classStep lCurrentYD.yield lNextYD.yield lPool lPartialSumHolder idx = .ok step →
      OdPass draws lPool ⟨processed, lCurrentYD, lNextYD :: lLevels, lPartialSumHolder, idx⟩
        ⟨processed ++ [lCurrentYD], lNextYD, lLevels,
          nextSums step.lPartialSumHolder step.lj (draws lNextYD (step.lPartialSumHolder.length - step.lj)), step.idx⟩

/-- Where the leg-based function enters its loop. -/
def legStart (lCap : α) (lFirstVC : VirtualClass α) (lVCList : List (VirtualClass α)) :
    PassState α (VirtualClass α) :=
  ⟨[], { lFirstVC with cumulatedBookingLimit := lCap }, lVCList, lFirstVC.generatedDemandVector, 1⟩

/-- Where the O&D function enters its loop, with `K` samples. -/
def odStart (draws : YieldLevel α → ℕ → List α) (K : ℕ) (lFirstYD : YieldLevel α) (lLevels : List (YieldLevel α)) :
    PassState α (YieldLevel α) :=
  ⟨[], lFirstYD, lLevels, draws lFirstYD K, 1⟩

/-! ## The loops make these passes -/

theorem legLoop_reaches {lCap : α} {lCapacityIndex : ℕ} {lVCList : List (VirtualClass α)} {lVC : VirtualClass α}
    {sums : List α} {idx : ℕ} {out : List (VirtualClass α) × List α}
    (h : legLoop lCap lCapacityIndex lVC lVCList sums idx = .ok out) (processed : List (VirtualClass α)) :
    ∃ s, Reaches (LegPass lCap lCapacityIndex) ⟨processed, lVC, lVCList, sums, idx⟩ lVCList.length s ∧
      s.below = [] ∧ processed ++ out.1 = s.processed ++ [s.current] := by
  induction lVCList generalizing lVC sums idx out processed with
  | nil =>
    obtain ⟨lBPs, -, hout⟩ := bind_eq_ok.1 h
    obtain rfl := Except.ok.inj hout
    exact ⟨_, .start, rfl, rfl⟩
  | cons next lVCList ih =>
    obtain ⟨step, hstep, h⟩ := bind_eq_ok.1 h
    split_ifs at h with hsize
    obtain ⟨rest, hrest, hout⟩ := bind_eq_ok.1 h
    obtain rfl := Except.ok.inj hout
    obtain ⟨s, hreach, hbelow, hclasses⟩ := ih hrest (processed ++ [{ lVC with cumulatedProtection := step.pj }])
    exact ⟨s, hreach.head (.pass hstep hsize), hbelow, by simpa using hclasses⟩

theorem odLoop_reaches {draws : YieldLevel α → ℕ → List α} {lPool : ℕ} {lLevels : List (YieldLevel α)}
    {lYD : YieldLevel α} {sums : List α} {idx : ℕ} {out : List α}
    (h : odLoop draws lPool lYD lLevels sums idx = .ok out) (processed : List (YieldLevel α)) :
    ∃ s, Reaches (OdPass draws lPool) ⟨processed, lYD, lLevels, sums, idx⟩ lLevels.length s ∧ s.below = [] := by
  induction lLevels generalizing lYD sums idx out processed with
  | nil => exact ⟨_, .start, rfl⟩
  | cons next lLevels ih =>
    obtain ⟨step, hstep, h⟩ := bind_eq_ok.1 h
    obtain ⟨rest, hrest, -⟩ := bind_eq_ok.1 h
    obtain ⟨s, hreach, hbelow⟩ := ih hrest (processed ++ [lYD])
    exact ⟨s, hreach.head (.pass hstep), hbelow⟩

/-- The classes that the leg-based function leaves are those of the state after the last pass. -/
theorem optimalOptimisationByMCIntegration_reaches {ioLegCabin out : LegCabin α} {lFirstVC : VirtualClass α}
    {lVCList : List (VirtualClass α)} (hlist : ioLegCabin.virtualClassList = lFirstVC :: lVCList)
    (h : optimalOptimisationByMCIntegration ioLegCabin = .ok out) :
    ∃ bound s, Reaches (LegPass ioLegCabin.availabilityPool bound)
        (legStart ioLegCabin.availabilityPool lFirstVC lVCList) lVCList.length s ∧
      s.below = [] ∧ out.virtualClassList = s.processed ++ [s.current] := by
  unfold optimalOptimisationByMCIntegration at h
  dsimp only at h
  split_ifs at h
  rw [hlist] at h
  obtain ⟨loop, hloop, hout⟩ := bind_eq_ok.1 h
  obtain rfl := Except.ok.inj hout
  obtain ⟨s, hreach, hbelow, hclasses⟩ := legLoop_reaches hloop []
  exact ⟨_, s, hreach, hbelow, by simpa using hclasses⟩

theorem computeBidPrices_reaches {draws : YieldLevel α → ℕ → List α} {K : ℕ} {ioLegCabin out : LegCabin α}
    {lFirstYD : YieldLevel α} {lLevels : List (YieldLevel α)}
    (hmap : ioLegCabin.yieldLevelDemandMap = lFirstYD :: lLevels) (h : computeBidPrices draws K ioLegCabin = .ok out) :
    ∃ s, Reaches (OdPass draws ⌊ioLegCabin.availabilityPool⌋.toNat) (odStart draws K lFirstYD lLevels)
      lLevels.length s ∧ s.below = [] := by
  unfold computeBidPrices at h
  simp only [hmap] at h
  obtain ⟨lBidPriceVector, hloop, -⟩ := bind_eq_ok.1 h
  exact odLoop_reaches hloop []

/-! ## What a pass does -/

section passes

/-- A pass sorts the sums and takes the index and the protection level of the class from them. -/
theorem classStep_ok {y y' : α} {bound idx : ℕ} {sums : List α} {step : ClassStep α}
    (h : classStep y y' bound sums idx = .ok step) :
    y' < y ∧ (stageIndex sums y y' ≥ 1 ∧ stageIndex sums y y' < sums.length) ∧
      step.lPartialSumHolder = sortedSums sums ∧ step.lj = stageIndex sums y y' ∧ step.pj = stageProtection sums y y' := by
  unfold classStep at h
  dsimp only at h
  split_ifs at h with hyield hindex
  obtain ⟨lBPs, -, hstep⟩ := bind_eq_ok.1 h
  obtain rfl := Except.ok.inj hstep
  rw [List.length_insertionSort] at hindex
  refine ⟨hyield, ?_, rfl, rfl, rfl⟩
  rwa [stageIndex, length_sortedSums]

theorem stageIndex_eq (sums : List α) (y y' : α) : stageIndex sums y y' = sampleIndex sums.length y y' := by
  rw [stageIndex, length_sortedSums]

omit [LinearOrder α] [FloorRing α] in
theorem length_nextSums {l : List α} {lj : ℕ} {lNextDemand : List α} (h : l.length - lj ≤ lNextDemand.length) :
    (nextSums l lj lNextDemand).length = l.length - lj := by
  rw [nextSums, List.length_zipWith, List.length_drop, min_eq_left h]

/-- From `K` sums of a class with the yield `y` to `K'` sums of one with the yield `y'`. -/
structure PoolStep (y : α) (K : ℕ) (y' : α) (K' : ℕ) : Prop where
  yield_lt : y' < y
  one_le_index : 1 ≤ sampleIndex K y y'
  index_lt : sampleIndex K y y' < K
  size : K' = K - sampleIndex K y y'

theorem LegPass.poolStep {lCap : α} {bound : ℕ} {s t : PassState α (VirtualClass α)} (h : LegPass lCap bound s t) :
    PoolStep s.current.yield s.lPartialSumHolder.length t.current.yield t.lPartialSumHolder.length := by
  obtain ⟨hstep, hsize⟩ := h
  obtain ⟨hyield, hindex, hsums, hlj, -⟩ := classStep_ok hstep
  rw [stageIndex_eq] at hindex hlj
  rw [hsums, length_sortedSums] at hsize
  refine ⟨hyield, hindex.1, hindex.2, ?_⟩
  rw [hsums, hlj, length_nextSums, length_sortedSums]
  rw [length_sortedSums]
  omega

theorem OdPass.poolStep {draws : YieldLevel α → ℕ → List α} (hdraws : ∀ lYD k, (draws lYD k).length = k) {bound : ℕ}
    {s t : PassState α (YieldLevel α)} (h : OdPass draws bound s t) :
    PoolStep s.current.yield s.lPartialSumHolder.length t.current.yield t.lPartialSumHolder.length := by
  obtain ⟨hstep⟩ := h
  obtain ⟨hyield, hindex, hsums, hlj, -⟩ := classStep_ok hstep
  rw [stageIndex_eq] at hindex hlj
  refine ⟨hyield, hindex.1, hindex.2, ?_⟩
  rw [hsums, hlj, length_nextSums, length_sortedSums]
  rw [hdraws]

end passes

/-! ## The size of the pool -/

section pool
variable [IsStrictOrderedRing α]

/-- One pass keeps the fraction `y' / y` of the sums, rounded up. -/
theorem sub_sampleIndex_bounds {K : ℕ} {y y' : α} (hy : 0 < y) (hlt : y' < y) (hindex : sampleIndex K y y' < K) :
    K * y' / y ≤ (K - sampleIndex K y y' : ℕ) ∧ ((K - sampleIndex K y y' : ℕ) : α) ≤ K * y' / y + 1 := by
  have hfraction : (K : α) * (y - y') / y = K - K * y' / y := by
    field_simp
  have hnonneg : 0 ≤ (K : α) * (y - y') / y :=
    div_nonneg (mul_nonneg (Nat.cast_nonneg K) (sub_nonneg.2 hlt.le)) hy.le
  have hlow := Nat.floor_le hnonneg
  have hhigh := Nat.lt_floor_add_one ((K : α) * (y - y') / y)
  rw [← sampleIndex, hfraction] at hlow hhigh
  rw [Nat.cast_sub hindex.le]
  constructor <;> linarith

/-- Of the `K` sums of the first class, `Kj` are in proportion to the yield, up to one for each pass. -/
def InProportion (K : ℕ) (y₁ : α) (passes : ℕ) (y : α) (Kj : ℕ) : Prop :=
  K * y / y₁ ≤ Kj ∧ Kj ≤ K * y / y₁ + passes

omit [FloorRing α] [IsStrictOrderedRing α] in
theorem inProportion_start (K : ℕ) {y₁ : α} (hy₁ : 0 < y₁) : InProportion K y₁ 0 y₁ K := by
  unfold InProportion
  rw [mul_div_cancel_right₀ _ hy₁.ne', Nat.cast_zero, add_zero]
  exact ⟨le_rfl, le_rfl⟩

/-- **A pass** keeps the proportion: rounding adds at most one sum, and the surplus from before shrinks with
the yield. -/
theorem InProportion.pass {K Kj Kj' n : ℕ} {y₁ y y' : α} (h : InProportion K y₁ n y Kj) (hstep : PoolStep y Kj y' Kj') :
    InProportion K y₁ (n + 1) y' Kj' := by
  obtain ⟨hlt, hone, hindex, rfl⟩ := hstep
  have hy' : 0 < y' := ((sampleIndex_iff hlt).1 ⟨hone, hindex⟩).1
  have hy : 0 < y := hy'.trans hlt
  have hratio : 0 ≤ y' / y := (div_pos hy' hy).le
  have hratio_le : y' / y ≤ 1 := (div_le_one hy).2 hlt.le
  obtain ⟨hlow, hhigh⟩ := sub_sampleIndex_bounds hy hlt hindex
  have hscale (x : α) : x * y / y₁ * (y' / y) = x * y' / y₁ := by
    field_simp
  constructor
  · calc (K : α) * y' / y₁
        _ = K * y / y₁ * (y' / y) := (hscale _).symm
        _ ≤ Kj * (y' / y) := mul_le_mul_of_nonneg_right h.1 hratio
        _ = Kj * y' / y := (mul_div_assoc _ _ _).symm
        _ ≤ _ := hlow
  · calc ((Kj - sampleIndex Kj y y' : ℕ) : α)
        _ ≤ Kj * y' / y + 1 := hhigh
        _ = Kj * (y' / y) + 1 := by rw [mul_div_assoc]
        _ ≤ (K * y / y₁ + n) * (y' / y) + 1 := by gcongr; exact h.2
        _ = K * y' / y₁ + n * (y' / y) + 1 := by rw [add_mul, hscale]
        _ ≤ K * y' / y₁ + n * 1 + 1 := by gcongr
        _ = K * y' / y₁ + (n + 1 : ℕ) := by push_cast; ring

/-- **The sample pool** of either integration: after `n` passes its size is in proportion to the yield of the
class, from `K * y / y₁` up to `n` more; and a function that ends well has made a pass for each class below the
first one. -/
theorem samplePool_proportional (lCap : α) (lCapacityIndex lPool : ℕ) (generateNormal : ℕ → α → α → α) :
    (∀ (lFirstVC : VirtualClass α) (lVCList : List (VirtualClass α)),
      (∀ (n : ℕ) (s : PassState α (VirtualClass α)), 0 < lFirstVC.yield →
        Reaches (LegPass lCap lCapacityIndex) (legStart lCap lFirstVC lVCList) n s →
        InProportion lFirstVC.generatedDemandVector.length lFirstVC.yield n s.current.yield
          s.lPartialSumHolder.length) ∧
      (∀ ioLegCabin out : LegCabin α, ioLegCabin.virtualClassList = lFirstVC :: lVCList →
        optimalOptimisationByMCIntegration ioLegCabin = .ok out →
        ∃ bound s, Reaches (LegPass ioLegCabin.availabilityPool bound)
          (legStart ioLegCabin.availabilityPool lFirstVC lVCList) lVCList.length s ∧
          s.below = [] ∧ out.virtualClassList = s.processed ++ [s.current])) ∧
    (∀ (lFirstYD : YieldLevel α) (lLevels : List (YieldLevel α)) (K : ℕ),
      (∀ (n : ℕ) (s : PassState α (YieldLevel α)), 0 < lFirstYD.yield →
        Reaches (OdPass (fun lYD => generateDemandVector generateNormal lYD.mean lYD.stdDev) lPool)
          (odStart (fun lYD => generateDemandVector generateNormal lYD.mean lYD.stdDev) K lFirstYD lLevels) n s →
        InProportion K lFirstYD.yield n s.current.yield s.lPartialSumHolder.length) ∧
      (∀ ioLegCabin out : LegCabin α, ioLegCabin.yieldLevelDemandMap = lFirstYD :: lLevels →
        computeBidPrices (fun lYD => generateDemandVector generateNormal lYD.mean lYD.stdDev) K ioLegCabin = .ok out →
        ∃ s, Reaches (OdPass (fun lYD => generateDemandVector generateNormal lYD.mean lYD.stdDev)
            ⌊ioLegCabin.availabilityPool⌋.toNat)
          (odStart (fun lYD => generateDemandVector generateNormal lYD.mean lYD.stdDev) K lFirstYD lLevels)
          lLevels.length s ∧ s.below = [])) := by
  constructor
  · intro lFirstVC lVCList
    refine ⟨?_, fun ioLegCabin out => optimalOptimisationByMCIntegration_reaches⟩
    intro n s hy₁ hreach
    refine hreach.invariant (P := fun n s => InProportion lFirstVC.generatedDemandVector.length lFirstVC.yield n
      s.current.yield s.lPartialSumHolder.length) (inProportion_start _ hy₁) ?_
    intro n s t hs hpass
    exact hs.pass hpass.poolStep
  · intro lFirstYD lLevels K
    refine ⟨?_, fun ioLegCabin out => computeBidPrices_reaches⟩
    intro n s hy₁ hreach
    refine hreach.invariant (P := fun n s => InProportion K lFirstYD.yield n s.current.yield
      s.lPartialSumHolder.length) ?_ ?_
    · simp only [odStart, length_generateDemandVector]
      exact inProportion_start K hy₁
    · intro n s t hs hpass
      exact hs.pass (hpass.poolStep fun lYD k => length_generateDemandVector _ lYD.mean lYD.stdDev k)

/-! ## Levels far apart, and too close -/

/-- Each level is above the next one by the part `1 / K` of the highest level at least. -/
def FarApart (K : ℕ) : List α → Prop
  | [] => True
  | y₁ :: levels => (y₁ :: levels).IsChain fun y y' => y₁ ≤ K * (y - y')

/-- Two levels are closer than that, even with one more sum for each level before them. -/
def TooClose (K : ℕ) : List α → Prop
  | [] => False
  | y₁ :: levels => ∃ (n : ℕ) (y y' : α), (y₁ :: levels)[n]? = some y ∧ (y₁ :: levels)[n + 1]? = some y' ∧
      (K * y / y₁ + n) * (y - y') < y

theorem InProportion.levelsOk {K Kj n : ℕ} {y₁ y : α} {levels : List α} (h : InProportion K y₁ n y Kj) (hy₁ : 0 < y₁)
    (hpos : ∀ z ∈ y :: levels, 0 < z) (hfar : (y :: levels).IsChain fun z z' => y₁ ≤ K * (z - z')) :
    LevelsOk Kj (y :: levels) := by
  induction levels generalizing y Kj n with
  | nil => trivial
  | cons y' levels ih =>
    rw [List.forall_mem_cons] at hpos
    rw [List.isChain_cons_cons] at hfar
    have hy' : 0 < y' := hpos.2 y' List.mem_cons_self
    have hgap : 0 < y - y' := pos_of_mul_pos_right (hy₁.trans_le hfar.1) (Nat.cast_nonneg K)
    have henough : y ≤ Kj * (y - y') := by
      calc y
          _ = y / y₁ * y₁ := (div_mul_cancel₀ y hy₁.ne').symm
          _ ≤ y / y₁ * (K * (y - y')) := mul_le_mul_of_nonneg_left hfar.1 (div_pos hpos.1 hy₁).le
          _ = K * y / y₁ * (y - y') := by ring
          _ ≤ Kj * (y - y') := mul_le_mul_of_nonneg_right h.1 hgap.le
    have hlt : y' < y := sub_pos.1 hgap
    have hindex := (sampleIndex_iff (K := Kj) hlt).2 ⟨hy', henough⟩
    exact ⟨hy', henough, ih (h.pass ⟨hlt, hindex.1, hindex.2, rfl⟩) hpos.2 hfar.2⟩

/-- The samples suffice for levels that are far apart. -/
theorem levelsOk_of_farApart {K : ℕ} {levels : List α} (hpos : ∀ y ∈ levels, 0 < y) (hfar : FarApart K levels) :
    LevelsOk K levels := by
  cases levels with
  | nil => trivial
  | cons y₁ levels =>
    have hy₁ := hpos y₁ List.mem_cons_self
    exact (inProportion_start K hy₁).levelsOk hy₁ hpos hfar

theorem InProportion.gap_le {K Kj n : ℕ} {y₁ y : α} {levels : List α} (h : InProportion K y₁ n y Kj)
    (hchain : (y :: levels).IsChain (· > ·)) (hok : LevelsOk Kj (y :: levels)) {m : ℕ} {z z' : α}
    (hz : (y :: levels)[m]? = some z) (hz' : (y :: levels)[m + 1]? = some z') :
    z ≤ (K * z / y₁ + (n + m : ℕ)) * (z - z') := by
  induction levels generalizing y Kj n m with
  | nil => simp at hz'
  | cons y' levels ih =>
    rw [List.isChain_cons_cons] at hchain
    obtain ⟨hy', henough, hrest⟩ := hok
    cases m with
    | zero =>
      simp only [List.getElem?_cons_zero, List.getElem?_cons_succ, Option.some.injEq] at hz hz'
      subst hz hz'
      exact henough.trans (mul_le_mul_of_nonneg_right h.2 (sub_nonneg.2 hchain.1.le))
    | succ m =>
      rw [List.getElem?_cons_succ] at hz hz'
      have hindex := (sampleIndex_iff hchain.1).2 ⟨hy', henough⟩
      have hle := ih (h.pass ⟨hchain.1, hindex.1, hindex.2, rfl⟩) hchain.2 hrest hz hz'
      rwa [show n + (m + 1) = n + 1 + m by omega]

/-- They do not for levels that are too close. -/
theorem not_levelsOk_of_tooClose {K : ℕ} {levels : List α} (hpos : ∀ y ∈ levels, 0 < y)
    (hchain : levels.IsChain (· > ·)) (hclose : TooClose K levels) : ¬ LevelsOk K levels := by
  intro hok
  cases levels with
  | nil => exact hclose
  | cons y₁ levels =>
    obtain ⟨n, y, y', hy, hy', hlt⟩ := hclose
    have hle := (inProportion_start K (hpos y₁ List.mem_cons_self)).gap_le hchain hok hy hy'
    rw [Nat.zero_add] at hle
    exact hle.not_gt hlt

/-- The O&D optimisation completes on levels that are far apart. -/
theorem computeBidPrices_completes_of_farApart {draws : YieldLevel α → ℕ → List α} {K : ℕ} {ioLegCabin : LegCabin α}
    {lFirstYD : YieldLevel α} {lLevels : List (YieldLevel α)}
    (hmap : ioLegCabin.yieldLevelDemandMap = lFirstYD :: lLevels) (hdraws : ∀ lYD k, (draws lYD k).length = k)
    (hpool : 1 ≤ ioLegCabin.availabilityPool) (hmax : ⌊ioLegCabin.availabilityPool⌋ < 2 ^ 32 - 1)
    (hpos : ∀ y ∈ ioLegCabin.yieldLevelDemandMap.map (·.yield), 0 < y)
    (hfar : FarApart K (ioLegCabin.yieldLevelDemandMap.map (·.yield))) :
    ∃ out, computeBidPrices draws K ioLegCabin = .ok out :=
  (computeBidPrices_ok_iff hmap).2
    ⟨hpool, hmax, (odStages_passes_iff hmap hdraws).2 (levelsOk_of_farApart hpos hfar)⟩

end pool

/-- One pass of each function on yields 2 and 1 with four samples keeps two sums. -/
theorem samplePool_proportional_twoVC :
    (∃ s, Reaches (LegPass (4 : ℚ) 4) (legStart 4 ⟨2, [3, 1, 4, 2], 0, 0⟩ [⟨1, [1, 1, 1, 1], 0, 0⟩]) 1 s ∧
      InProportion 4 (2 : ℚ) 1 s.current.yield s.lPartialSumHolder.length) ∧
    ∃ s, Reaches (OdPass fixedDraws 4) (odStart fixedDraws 4 ⟨2, 3, 1⟩ [⟨1, 1, 0⟩]) 1 s ∧
      InProportion 4 (2 : ℚ) 1 s.current.yield s.lPartialSumHolder.length := by
  obtain ⟨hleg, hod⟩ := samplePool_proportional (4 : ℚ) 4 4 fun i iMean _ => [iMean, 1, 4, 2].getD i iMean
  have hpass : Reaches (LegPass (4 : ℚ) 4) (legStart 4 ⟨2, [3, 1, 4, 2], 0, 0⟩ [⟨1, [1, 1, 1, 1], 0, 0⟩]) 1 _ :=
    .next .start (.pass (classStep_eq 1 (by norm_num) (by norm_num) (by decide +kernel)) (by decide +kernel))
  have hpass' : Reaches (OdPass fixedDraws 4) (odStart fixedDraws 4 ⟨2, 3, 1⟩ [⟨1, 1, 0⟩]) 1 _ :=
    .next .start (.pass (classStep_eq 1 (by norm_num) (by norm_num) (by decide +kernel)))
  exact ⟨⟨_, hpass, (hleg ⟨2, [3, 1, 4, 2], 0, 0⟩ [⟨1, [1, 1, 1, 1], 0, 0⟩]).1 1 _ (by norm_num) hpass⟩,
    _, hpass', (hod ⟨2, 3, 1⟩ [⟨1, 1, 0⟩] 4).1 1 _ (by norm_num) hpass'⟩

end Rmol
