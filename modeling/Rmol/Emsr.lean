import Mathlib.Analysis.Real.Sqrt
import Mathlib.Data.List.Chain
import Rmol.Bom
/-!
# EMSR-a and EMSR-b (`Emsr.cpp`, `EmsrUtils.cpp`)

| here | there |
| --- | --- |
| `Bucket`                        | `stdair::VirtualClassStruct`: the demand that is read, the levels that are set |
| `computeAggregatedVirtualClass` | `EmsrUtils.cpp:18` |
| `computeProtectionLevel`        | `EmsrUtils.cpp:53` |
| `setLevels`                     | the loop over the classes (`Emsr.cpp:38-60`, `:83-104`) |
| `heuristicOptimisationByEmsrA`  | `Emsr.cpp:21` |
| `heuristicOptimisationByEmsrB`  | `Emsr.cpp:64` |

The quantile of the complement of a normal distribution is `lMean + lSD * z lYieldRatio`; `z` is a parameter. The
library throws where the deviation is not positive or the ratio not between 0 and 1.

Both heuristics set the protection of every class but the last, and the limit of a class to the capacity less the
protection of the class above. Nothing keeps a protection from being negative or below the one before: a wide
deviation with a yield ratio near 1 is enough.
-/

namespace Rmol

/-- What stops a run. -/
inductive EmsrFault where
  /-- `assert (itVC != lVirtualClassList.end())` (`Emsr.cpp:33`, `:77`). -/
  | noClass
  /-- `assert (lAggreatedYield != 0)` (`EmsrUtils.cpp:63`). -/
  | zeroYield
  /-- The deviation of `boost::math::normal` is not positive. -/
  | stdDev
  /-- The probability of `boost::math::quantile` is not strictly between 0 and 1. -/
  | yieldRatio
deriving DecidableEq, Repr

/-- A virtual class. -/
structure Bucket where
  mean : ℝ
  stdDev : ℝ
  yield : ℝ
  cumulatedProtection : ℝ
  cumulatedBookingLimit : ℝ

noncomputable def computeAggregatedVirtualClass (ioAggregatedVirtualClass ioCurrentVirtualClass : Bucket) : Bucket :=
  let lNewMean := ioAggregatedVirtualClass.mean + ioCurrentVirtualClass.mean
  let lNewSD := √(ioAggregatedVirtualClass.stdDev * ioAggregatedVirtualClass.stdDev +
    ioCurrentVirtualClass.stdDev * ioCurrentVirtualClass.stdDev)
  let lNewYield := if 0 < lNewMean then
      (ioAggregatedVirtualClass.yield * ioAggregatedVirtualClass.mean +
        ioCurrentVirtualClass.yield * ioCurrentVirtualClass.mean) / lNewMean
    else ioCurrentVirtualClass.yield
  { ioAggregatedVirtualClass with mean := lNewMean, stdDev := lNewSD, yield := lNewYield }

section heuristics
variable (z : ℝ → ℝ)

noncomputable def computeProtectionLevel (ioAggregatedVirtualClass ioNextVirtualClass : Bucket) :
    Except EmsrFault ℝ :=
  let lYieldRatio := ioNextVirtualClass.yield / ioAggregatedVirtualClass.yield
  if ioAggregatedVirtualClass.yield = 0 then .error .zeroYield
  else if ioAggregatedVirtualClass.stdDev ≤ 0 then .error .stdDev
  else if lYieldRatio ≤ 0 ∨ 1 ≤ lYieldRatio then .error .yieldRatio
  else .ok (ioAggregatedVirtualClass.mean + ioAggregatedVirtualClass.stdDev * z lYieldRatio)

/-- The loop of a heuristic, from the current class on. What it knows of the classes above is `above`: `protection`
reads it, and `aggregate` takes the next class in. -/
def setLevels {σ : Type} (protection : σ → Bucket → Except EmsrFault ℝ) (aggregate : σ → Bucket → σ)
    (lCabinCapacity : ℝ) : σ → Bucket → List Bucket → Except EmsrFault (List Bucket)
  | _, lCurrentVC, [] => .ok [lCurrentVC]
  | above, lCurrentVC, lNextVC :: rest => do
    let lProtectionLevel ← protection above lNextVC
    -- can be negative
    let lBookingLimit := lCabinCapacity - lProtectionLevel
    let lower ← setLevels protection aggregate lCabinCapacity (aggregate above lNextVC)
      { lNextVC with cumulatedBookingLimit := lBookingLimit } rest
    return { lCurrentVC with cumulatedProtection := lProtectionLevel } :: lower

noncomputable def addPartialProtection (lNextVC : Bucket) (lProtectionLevel : ℝ) (lHigherVC : Bucket) :
    Except EmsrFault ℝ := do
  let lPartialProtectionLevel ← computeProtectionLevel z lHigherVC lNextVC
  return lProtectionLevel + lPartialProtectionLevel

/-- The loop over the higher classes (`Emsr.cpp:44-50`). -/
noncomputable def partialProtections (lHigherVCs : List Bucket) (lNextVC : Bucket) : Except EmsrFault ℝ :=
  lHigherVCs.foldlM (addPartialProtection z lNextVC) 0

noncomputable def heuristicOptimisationByEmsrA (lCabinCapacity : ℝ) :
    List Bucket → Except EmsrFault (List Bucket)
  | [] => .error .noClass
  | lFirstVC :: rest => setLevels (partialProtections z) (fun lHigherVCs lNextVC => lHigherVCs ++ [lNextVC])
      lCabinCapacity [lFirstVC] { lFirstVC with cumulatedBookingLimit := lCabinCapacity } rest

noncomputable def heuristicOptimisationByEmsrB (lCabinCapacity : ℝ) :
    List Bucket → Except EmsrFault (List Bucket)
  | [] => .error .noClass
  | lFirstVC :: rest => setLevels (computeProtectionLevel z) computeAggregatedVirtualClass
      lCabinCapacity lFirstVC { lFirstVC with cumulatedBookingLimit := lCabinCapacity } rest

end heuristics

/-! ## Class lists -/

/-- Yields that decrease, and proper demand. -/
structure IsClassList (classes : List Bucket) : Prop where
  decreasing : classes.Pairwise fun c d => d.yield < c.yield
  positive : ∀ c ∈ classes, 0 < c.yield ∧ 0 < c.mean ∧ 0 < c.stdDev

section classList
variable {higher rest : List Bucket} {current next : Bucket}

theorem IsClassList.of_append (h : IsClassList (higher ++ rest)) : IsClassList higher :=
  ⟨(List.pairwise_append.1 h.decreasing).1, fun c hc => h.positive c (List.mem_append_left _ hc)⟩

theorem IsClassList.lower (h : IsClassList (higher ++ [next])) {c : Bucket} (hc : c ∈ higher) :
    next.yield < c.yield :=
  (List.pairwise_append.1 h.decreasing).2.2 c hc next List.mem_cons_self

/-- The ratio of a lower yield to a higher one. -/
theorem ratio_mem {c d : Bucket} (hc : 0 < c.yield) (hlt : c.yield < d.yield) : c.yield / d.yield ∈ Set.Ioo 0 1 :=
  ⟨div_pos hc (hc.trans hlt), (div_lt_one (hc.trans hlt)).2 hlt⟩

theorem computeProtectionLevel_ok {z : ℝ → ℝ} {above : Bucket} (hyield : 0 < above.yield)
    (hstdDev : 0 < above.stdDev) (hratio : next.yield / above.yield ∈ Set.Ioo 0 1) :
    computeProtectionLevel z above next = .ok (above.mean + above.stdDev * z (next.yield / above.yield)) := by
  have hnot : ¬ (next.yield / above.yield ≤ 0 ∨ 1 ≤ next.yield / above.yield) := by
    rintro (h | h)
    · exact absurd hratio.1 (not_lt.2 h)
    · exact absurd hratio.2 (not_lt.2 h)
  simp only [computeProtectionLevel, if_neg hyield.ne', if_neg (not_le.2 hstdDev), if_neg hnot]

end classList

/-! ## The levels of a run -/

/-- The protections of the classes that have a next one; `protection` is that of some higher classes together
against the next one. -/
def levels (protection : List Bucket → Bucket → ℝ) : List Bucket → List Bucket → List ℝ
  | _, [] => []
  | higher, next :: rest => protection higher next :: levels protection (higher ++ [next]) rest

/-- **One loop for both heuristics.** Where `above` stands for the classes above, the loop sets the levels. -/
theorem setLevels_ok {σ : Type} {protection : σ → Bucket → Except EmsrFault ℝ} {aggregate : σ → Bucket → σ}
    {StandsFor : σ → List Bucket → Prop} {level : List Bucket → Bucket → ℝ} (C : ℝ)
    (hprotection : ∀ above higher next, higher ≠ [] → IsClassList (higher ++ [next]) → StandsFor above higher →
      protection above next = .ok (level higher next))
    (haggregate : ∀ above higher next, higher ≠ [] → IsClassList (higher ++ [next]) → StandsFor above higher →
      StandsFor (aggregate above next) (higher ++ [next])) :
    ∀ {rest higher : List Bucket} {above : σ} (current : Bucket), higher ≠ [] → StandsFor above higher →
      IsClassList (higher ++ rest) → ∃ out, setLevels protection aggregate C above current rest = .ok out ∧
        out.dropLast.map Bucket.cumulatedProtection = levels level higher rest ∧
        out.map Bucket.cumulatedBookingLimit =
          current.cumulatedBookingLimit :: (levels level higher rest).map (C - ·)
  | [], higher, above, current, _, _, _ => ⟨[current], rfl, rfl, rfl⟩
  | next :: rest, higher, above, current, hne, hstands, hclasses => by
    have hsplit : higher ++ next :: rest = higher ++ [next] ++ rest := by simp
    rw [hsplit] at hclasses
    have hnext := hclasses.of_append
    obtain ⟨lower, hrun, hprotections, hlimits⟩ := setLevels_ok C hprotection haggregate
      { next with cumulatedBookingLimit := C - level higher next } (List.append_ne_nil_of_right_ne_nil _
        (List.cons_ne_nil next [])) (haggregate above higher next hne hnext hstands) hclasses
    refine ⟨{ current with cumulatedProtection := level higher next } :: lower, ?_, ?_, ?_⟩
    · rw [setLevels, hprotection above higher next hne hnext hstands]
      simp only [ok_bind, hrun, except_pure]
    · have hlower : lower ≠ [] := by
        rintro rfl
        cases hlimits
      rw [List.dropLast_cons_of_ne_nil hlower, List.map_cons, hprotections, levels]
    · rw [List.map_cons, hlimits, levels, List.map_cons]

/-! ## Nesting -/

/-- Protections that do not fall (the last class has none) and limits that do not rise. -/
structure NestedLevels (out : List Bucket) : Prop where
  protections : (out.dropLast.map Bucket.cumulatedProtection).IsChain (· ≤ ·)
  limits : (out.map Bucket.cumulatedBookingLimit).IsChain (· ≥ ·)

/-- Where the limits are what the protections leave of the capacity, they are nested iff the protections start from
no less than 0 and do not fall. -/
theorem nestedLevels_iff {out : List Bucket} {protections : List ℝ} {C : ℝ}
    (hprotections : out.dropLast.map Bucket.cumulatedProtection = protections)
    (hlimits : out.map Bucket.cumulatedBookingLimit = C :: protections.map (C - ·)) :
    NestedLevels out ↔ (0 :: protections).IsChain (· ≤ ·) := by
  have hchain : (out.map Bucket.cumulatedBookingLimit).IsChain (· ≥ ·) ↔ (0 :: protections).IsChain (· ≤ ·) := by
    have hcons : C :: protections.map (C - ·) = (0 :: protections).map (C - ·) := by simp
    rw [hlimits, hcons, List.isChain_map]
    exact List.IsChain.iff fun a b => sub_le_sub_iff_left C
  constructor
  · intro h
    exact hchain.1 h.limits
  · intro h
    refine ⟨?_, hchain.2 h⟩
    rw [hprotections]
    exact h.tail

/-- The levels do not fall iff they do not at any class. -/
theorem isChain_levels_iff (level : List Bucket → Bucket → ℝ) : ∀ (rest above : List Bucket) (c : Bucket),
    (level above c :: levels level (above ++ [c]) rest).IsChain (· ≤ ·) ↔
      ∀ higher current next lower, c :: rest = higher ++ current :: next :: lower →
        level (above ++ higher) current ≤ level (above ++ higher ++ [current]) next
  | [], above, c => by
    refine ⟨fun _ higher current next lower h => ?_, fun _ => List.isChain_singleton _⟩
    have := congrArg List.length h
    simp at this
    omega
  | d :: rest, above, c => by
    rw [levels, List.isChain_cons_cons, isChain_levels_iff level rest (above ++ [c]) d]
    constructor
    · rintro ⟨hfirst, hrest⟩ higher current next lower h
      cases higher with
      | nil =>
        obtain ⟨rfl, rfl, -⟩ := by simpa using h
        simpa using hfirst
      | cons a higher =>
        obtain ⟨rfl, hsplit⟩ := List.cons.inj h
        simpa using hrest higher current next lower hsplit
    · intro h
      refine ⟨by simpa using h [] c d rest rfl, fun higher current next lower hsplit => ?_⟩
      have := h (c :: higher) current next lower (by rw [hsplit]; rfl)
      simpa using this

/-! ## EMSR-a -/

section emsrA
variable (z : ℝ → ℝ)

/-- The protection of a class against a lower one, by itself. -/
noncomputable def ownProtection (current next : Bucket) : ℝ :=
  current.mean + current.stdDev * z (next.yield / current.yield)

/-- EMSR-a: the sum over the higher classes. -/
noncomputable def emsrALevel (higher : List Bucket) (next : Bucket) : ℝ :=
  (higher.map fun c => ownProtection z c next).sum

/-- What the higher classes protect more against the next class than against the current one. -/
noncomputable def protectionGain (higher : List Bucket) (current next : Bucket) : ℝ :=
  (higher.map fun c => c.stdDev * (z (next.yield / c.yield) - z (current.yield / c.yield))).sum

variable {z} {higher : List Bucket} {current next : Bucket}

theorem emsrALevel_append :
    emsrALevel z (higher ++ [current]) next =
      emsrALevel z higher current + (ownProtection z current next + protectionGain z higher current next) := by
  have hgain : emsrALevel z higher next = emsrALevel z higher current + protectionGain z higher current next := by
    unfold emsrALevel protectionGain
    rw [← List.sum_map_add]
    refine congrArg List.sum (List.map_congr_left fun c _ => ?_)
    unfold ownProtection
    ring
  have happend : emsrALevel z (higher ++ [current]) next = emsrALevel z higher next + ownProtection z current next := by
    simp [emsrALevel]
  rw [happend, hgain]
  ring

theorem foldlM_addPartialProtection : ∀ {higher : List Bucket} (before : ℝ),
    (∀ c ∈ higher, computeProtectionLevel z c next = .ok (ownProtection z c next)) →
      higher.foldlM (addPartialProtection z next) before = .ok (before + emsrALevel z higher next)
  | [], before, _ => by simp [emsrALevel]
  | c :: higher, before, h => by
    rw [List.foldlM_cons, addPartialProtection, h c List.mem_cons_self]
    simp only [ok_bind, except_pure]
    rw [foldlM_addPartialProtection _ fun d hd => h d (List.mem_cons_of_mem _ hd)]
    simp only [emsrALevel, List.map_cons, List.sum_cons, add_assoc]

theorem partialProtections_ok (h : IsClassList (higher ++ [next])) :
    partialProtections z higher next = .ok (emsrALevel z higher next) := by
  have hnext := h.positive next (List.mem_append_right _ List.mem_cons_self)
  rw [partialProtections, foldlM_addPartialProtection 0 fun c hc => ?_, zero_add]
  obtain ⟨hyield, -, hstdDev⟩ := h.positive c (List.mem_append_left _ hc)
  exact computeProtectionLevel_ok hyield hstdDev (ratio_mem hnext.1 (h.lower hc))

/-- The higher classes protect more against a lower class. -/
theorem protectionGain_nonneg (hz : StrictAntiOn z (Set.Ioo 0 1)) {lower : List Bucket}
    (h : IsClassList (higher ++ current :: next :: lower)) : 0 ≤ protectionGain z higher current next := by
  refine List.sum_nonneg fun v hv => ?_
  obtain ⟨c, hc, rfl⟩ := List.mem_map.1 hv
  have hpairs := List.pairwise_append.1 h.decreasing
  have hcurrent : current.yield < c.yield := hpairs.2.2 c hc current List.mem_cons_self
  have hnext : next.yield < current.yield := (List.pairwise_cons.1 hpairs.2.1).1 next List.mem_cons_self
  obtain ⟨hcPos, -, hstdDev⟩ := h.positive c (List.mem_append_left _ hc)
  have hcurrentPos := (h.positive current (List.mem_append_right _ List.mem_cons_self)).1
  have hnextPos := (h.positive next (List.mem_append_right _ (List.mem_cons_of_mem _ List.mem_cons_self))).1
  have hz' := hz (ratio_mem hnextPos (hnext.trans hcurrent)) (ratio_mem hcurrentPos hcurrent)
    (div_lt_div_of_pos_right hnext hcPos)
  exact mul_nonneg hstdDev.le (sub_nonneg.2 hz'.le)

end emsrA

/-! ## EMSR-b -/

section emsrB

noncomputable def totalMean (higher : List Bucket) : ℝ := (higher.map Bucket.mean).sum
noncomputable def totalVariance (higher : List Bucket) : ℝ := (higher.map fun c => c.stdDev ^ 2).sum
/-- The mean-weighted average of the yields. -/
noncomputable def averageYield (higher : List Bucket) : ℝ :=
  (higher.map fun c => c.yield * c.mean).sum / totalMean higher

/-- EMSR-b: the protection of the higher classes as one. -/
noncomputable def emsrBLevel (z : ℝ → ℝ) (higher : List Bucket) (next : Bucket) : ℝ :=
  totalMean higher + √(totalVariance higher) * z (next.yield / averageYield higher)

/-- The aggregated class of some classes. -/
structure Aggregates (aggregated : Bucket) (higher : List Bucket) : Prop where
  mean : aggregated.mean = totalMean higher
  stdDev : aggregated.stdDev = √(totalVariance higher)
  yield : aggregated.yield = averageYield higher

variable {higher : List Bucket} {next aggregated : Bucket}

theorem totalMean_pos (hne : higher ≠ []) (h : ∀ c ∈ higher, 0 < c.mean) : 0 < totalMean higher := by
  refine List.sum_pos _ (fun v hv => ?_) (by simpa using hne)
  obtain ⟨c, hc, rfl⟩ := List.mem_map.1 hv
  exact h c hc

theorem totalVariance_pos (hne : higher ≠ []) (h : ∀ c ∈ higher, 0 < c.stdDev) : 0 < totalVariance higher := by
  refine List.sum_pos _ (fun v hv => ?_) (by simpa using hne)
  obtain ⟨c, hc, rfl⟩ := List.mem_map.1 hv
  exact pow_pos (h c hc) 2

/-- The average of some yields is above every yield that they are all above. -/
theorem lt_averageYield (hne : higher ≠ []) (hmean : ∀ c ∈ higher, 0 < c.mean) {y : ℝ}
    (h : ∀ c ∈ higher, y < c.yield) : y < averageYield higher := by
  rw [averageYield, lt_div_iff₀ (totalMean_pos hne hmean), totalMean, ← List.sum_map_mul_left]
  refine List.sum_lt_sum_of_ne_nil hne _ _ fun c hc => ?_
  exact mul_lt_mul_of_pos_right (h c hc) (hmean c hc)

theorem Aggregates.single (c : Bucket) (hmean : 0 < c.mean) (hstdDev : 0 < c.stdDev) : Aggregates c [c] where
  mean := by simp [totalMean]
  stdDev := by simp [totalVariance, Real.sqrt_sq hstdDev.le]
  yield := by simp [averageYield, totalMean, hmean.ne']

/-- **The aggregated class** after one more class. -/
theorem Aggregates.step (h : Aggregates aggregated higher) (hne : higher ≠ [])
    (hclasses : IsClassList (higher ++ [next])) :
    Aggregates (computeAggregatedVirtualClass aggregated next) (higher ++ [next]) := by
  have hmean : 0 < totalMean higher :=
    totalMean_pos hne fun c hc => (hclasses.positive c (List.mem_append_left _ hc)).2.1
  have hnext := (hclasses.positive next (List.mem_append_right _ List.mem_cons_self)).2.1
  have hvariance : 0 ≤ totalVariance higher :=
    (totalVariance_pos hne fun c hc => (hclasses.positive c (List.mem_append_left _ hc)).2.2).le
  have htotal : totalMean (higher ++ [next]) = totalMean higher + next.mean := by simp [totalMean]
  have hpos : 0 < totalMean higher + next.mean := add_pos hmean hnext
  refine ⟨?_, ?_, ?_⟩
  · rw [htotal, ← h.mean]
    rfl
  · have hsquare : aggregated.stdDev * aggregated.stdDev = totalVariance higher := by
      rw [h.stdDev, Real.mul_self_sqrt hvariance]
    simp [computeAggregatedVirtualClass, hsquare, totalVariance, sq]
  · have hrevenue : aggregated.yield * aggregated.mean = (higher.map fun c => c.yield * c.mean).sum := by
      rw [h.yield, h.mean, averageYield, div_mul_cancel₀ _ hmean.ne']
    simp only [computeAggregatedVirtualClass, h.mean, if_pos hpos]
    rw [← h.mean, hrevenue, averageYield, htotal, h.mean, List.map_append, List.sum_append]
    simp

theorem aggregated_ok {z : ℝ → ℝ} (hne : higher ≠ []) (hclasses : IsClassList (higher ++ [next]))
    (h : Aggregates aggregated higher) :
    computeProtectionLevel z aggregated next = .ok (emsrBLevel z higher next) := by
  have hpositive : ∀ c ∈ higher, 0 < c.yield ∧ 0 < c.mean ∧ 0 < c.stdDev :=
    fun c hc => hclasses.positive c (List.mem_append_left _ hc)
  have hnext := (hclasses.positive next (List.mem_append_right _ List.mem_cons_self)).1
  have hlt : next.yield < aggregated.yield := by
    rw [h.yield]
    exact lt_averageYield hne (fun c hc => (hpositive c hc).2.1) fun c hc => hclasses.lower hc
  have hstdDev : 0 < aggregated.stdDev := by
    rw [h.stdDev]
    exact Real.sqrt_pos.2 (totalVariance_pos hne fun c hc => (hpositive c hc).2.2)
  rw [computeProtectionLevel_ok (hnext.trans hlt) hstdDev (ratio_mem hnext hlt), h.mean, h.stdDev, h.yield]
  rfl

end emsrB

end Rmol
