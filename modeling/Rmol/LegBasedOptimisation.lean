import Rmol.Emsr
import Rmol.SampleRange
/-!
# Leg-based optimisation (`Optimiser.cpp:27-161`, `DemandInputPreparation.cpp`)

| here | there |
| --- | --- |
| `prepareDemandInput`                  | `DemandInputPreparation.cpp:22` |
| `optimiseByMCIntegration`             | `Optimiser.cpp:29` |
| `optimiseByEmsrB`                     | `heuristicOptimisationByEmsrB` (`:79`) |
| `optimiseLegCabinByMethod`            | `optimise` of a leg-cabin (`:128`) |

The virtual classes have yields that fall strictly and means above zero. So the only thing that stops EMSR-b on them is a
deviation of zero in the first aggregated class: the highest yield level has to hold a class with a deviation, unless
it is the only one (`emsrB_prepared_ok_iff`).
-/

namespace Rmol

open Grouping

variable {κ : Type}

/-! ## The model -/

/-- What the optimisation does with the demand of a class: the price- and the product-oriented part together. -/
noncomputable def prepareClass (b : BookingClass ℝ) : BookingClass ℝ :=
  { b with
    mean := b.priceDemMean + b.productDemMean
    stdDev := √(b.priceDemStdDev * b.priceDemStdDev + b.productDemStdDev * b.productDemStdDev) }

noncomputable def prepareDemandInput [DecidableEq κ] (lBCList : List κ) (classes : ClassStore κ ℝ) : ClassStore κ ℝ :=
  lBCList.foldl (fun classes lBC => ClassStore.modify classes lBC prepareClass) classes

inductive OptimisationMethod where
  | legBasedMC
  | legBasedEmsrB
  /-- Any other value of the enumeration. -/
  | other
deriving DecidableEq, Repr

inductive LegFault where
  | optimiser (fault : OptimiserFault)
  | mc (fault : McFault)
  | emsr (fault : EmsrFault)
  /-- `assert (false)` of the switch on the method (`:153`). -/
  | method
deriving DecidableEq, Repr

/-- A virtual class with its levels. -/
structure LegClass (κ : Type) extends LegVirtualClass κ where
  cumulatedProtection : ℝ
  cumulatedBookingLimit : ℝ

/-- What the optimisation writes to a leg-cabin. -/
structure LegPlan (κ : Type) where
  virtualClassList : List (LegClass κ)
  bidPriceVector : List ℝ

/-- The capacities of a leg-cabin, and what it takes from the libraries: quantiles, and the samples of a virtual class
in the order of the booking classes. -/
structure LegEnv (κ : Type) where
  offeredCapacity : ℝ
  availabilityPool : ℝ
  quantile : ℝ → ℝ
  generatedDemandVector : ClassStore κ ℝ → List κ → LegVirtualClass κ → List ℝ

section model
variable (env : LegEnv κ) (lVirtualClassList : List (LegVirtualClass κ))

/-- The levels start at zero. -/
def LegVirtualClass.toBucket (vc : LegVirtualClass κ) : Bucket := ⟨vc.mean, vc.stdDev, vc.yield, 0, 0⟩

noncomputable def optimiseByEmsrB : Except EmsrFault (List (LegClass κ)) := do
  let lBuckets ← heuristicOptimisationByEmsrB env.quantile env.offeredCapacity (lVirtualClassList.map (·.toBucket))
  return List.zipWith (fun vc bucket => ⟨vc, bucket.cumulatedProtection, bucket.cumulatedBookingLimit⟩)
    lVirtualClassList lBuckets

noncomputable def optimiseByMCIntegration (classes : ClassStore κ ℝ) (lBookingClassList : List κ) :
    Except McFault (LegPlan κ) := do
  let lLegCabin ← optimalOptimisationByMCIntegration
    { availabilityPool := env.availabilityPool
      virtualClassList := lVirtualClassList.map (·.withSamples (env.generatedDemandVector classes lBookingClassList))
      yieldLevelDemandMap := []
      bidPriceVector := []
      currentBidPrice := 0
      previousBidPrice := 0
      map_sorted := .nil }
  return ⟨List.zipWith (fun vc lVC => ⟨vc, lVC.cumulatedProtection, lVC.cumulatedBookingLimit⟩)
    lVirtualClassList lLegCabin.virtualClassList, lLegCabin.bidPriceVector⟩

end model

noncomputable def optimiseLegCabinByMethod (env : LegEnv κ) (iOptimisationMethod : OptimisationMethod)
    (classes : ClassStore κ ℝ) (lSegmentCabinList : List (List κ)) (ioLegCabin : LegPlan κ) :
    Except LegFault (Bool × LegPlan κ) := do
  let (lVirtualClassList, hasVirtualClass) ←
    (buildVirtualClassListForLegBasedOptimisation classes lSegmentCabinList).mapError .optimiser
  if hasVirtualClass then
    match iOptimisationMethod with
    | .legBasedMC =>
      let lLegPlan ← (optimiseByMCIntegration env lVirtualClassList classes (lSegmentCabinList.headD [])).mapError .mc
      return (true, lLegPlan)
    | .legBasedEmsrB =>
      let lLegClassList ← (optimiseByEmsrB env lVirtualClassList).mapError .emsr
      return (true, { ioLegCabin with virtualClassList := lLegClassList })
    | .other => .error .method
  else return (false, { ioLegCabin with virtualClassList := [] })

/-! ## The virtual classes of a plan -/

section plan
variable {env : LegEnv κ} {lVirtualClassList : List (LegVirtualClass κ)}

theorem setLevels_length {σ : Type} {protection : σ → Bucket → Except EmsrFault ℝ} {aggregate : σ → Bucket → σ} {C : ℝ} :
    ∀ {rest : List Bucket} {above : σ} {current : Bucket} {out : List Bucket},
      setLevels protection aggregate C above current rest = .ok out → out.length = rest.length + 1
  | [], _, _, out, h => by
    obtain rfl := Except.ok.inj h
    rfl
  | next :: rest, above, current, out, h => by
    obtain ⟨lProtectionLevel, -, h⟩ := bind_eq_ok.1 h
    obtain ⟨lower, hlower, h⟩ := bind_eq_ok.1 h
    obtain rfl := Except.ok.inj h
    rw [List.length_cons, List.length_cons, setLevels_length hlower]

theorem legLoop_length {lCap : ℝ} {lCapacityIndex : ℕ} :
    ∀ {lVCList : List (VirtualClass ℝ)} {lVC : VirtualClass ℝ} {lPartialSumHolder : List ℝ} {idx : ℕ}
      {out : List (VirtualClass ℝ) × List ℝ},
      legLoop lCap lCapacityIndex lVC lVCList lPartialSumHolder idx = .ok out → out.1.length = lVCList.length + 1
  | [], _, _, _, out, h => by
    obtain ⟨lBPs, -, h⟩ := bind_eq_ok.1 h
    obtain rfl := Except.ok.inj h
    rfl
  | lNextVC :: lVCList, lVC, lPartialSumHolder, idx, out, h => by
    obtain ⟨step, -, h⟩ := bind_eq_ok.1 h
    split at h
    · cases h
    · obtain ⟨rest, hrest, h⟩ := bind_eq_ok.1 h
      obtain rfl := Except.ok.inj h
      rw [List.length_cons, List.length_cons, legLoop_length hrest]

/-- Levels beside their classes leave the classes. -/
theorem map_zipWith_levels {β : Type} {f : LegVirtualClass κ → β → LegClass κ} (hf : ∀ vc b, (f vc b).toLegVirtualClass = vc)
    {l : List β} (hlength : l.length = lVirtualClassList.length) :
    (List.zipWith f lVirtualClassList l).map (·.toLegVirtualClass) = lVirtualClassList := by
  simp only [List.map_zipWith, hf]
  rw [← List.map_uncurry_zip_eq_zipWith]
  exact List.map_fst_zip hlength.ge

theorem optimiseByEmsrB_classes {out : List (LegClass κ)} (h : optimiseByEmsrB env lVirtualClassList = .ok out) :
    out.map (·.toLegVirtualClass) = lVirtualClassList := by
  obtain ⟨lBuckets, hrun, h⟩ := bind_eq_ok.1 h
  obtain rfl := Except.ok.inj h
  refine map_zipWith_levels (fun _ _ => rfl) ?_
  cases lVirtualClassList with
  | nil => cases hrun
  | cons lFirstVC rest =>
    rw [List.map_cons] at hrun
    rw [setLevels_length hrun, List.length_map, List.length_cons]

theorem optimiseByMCIntegration_classes {classes : ClassStore κ ℝ} {lBookingClassList : List κ} {out : LegPlan κ}
    (h : optimiseByMCIntegration env lVirtualClassList classes lBookingClassList = .ok out) :
    out.virtualClassList.map (·.toLegVirtualClass) = lVirtualClassList := by
  obtain ⟨lLegCabin, hrun, h⟩ := bind_eq_ok.1 h
  obtain rfl := Except.ok.inj h
  refine map_zipWith_levels (fun _ _ => rfl) ?_
  unfold optimalOptimisationByMCIntegration at hrun
  cases lVirtualClassList with
  | nil =>
    simp only [List.map_nil] at hrun
    split at hrun <;> cases hrun
  | cons lFirstVC rest =>
    simp only [List.map_cons] at hrun
    split at hrun
    · cases hrun
    · obtain ⟨run, hloop, hrun⟩ := bind_eq_ok.1 hrun
      obtain rfl := Except.ok.inj hrun
      rw [legLoop_length hloop, List.length_map, List.length_cons]

theorem build_isNotEmpty {classes : ClassStore κ ℝ} {lSegmentCabinList : List (List κ)} {isNotEmpty : Bool}
    (h : buildVirtualClassListForLegBasedOptimisation classes lSegmentCabinList = .ok (lVirtualClassList, isNotEmpty)) :
    isNotEmpty = true ↔ lVirtualClassList ≠ [] := by
  cases lSegmentCabinList with
  | nil => cases h
  | cons l rest =>
    obtain ⟨map, -, h⟩ := bind_eq_ok.1 h
    obtain ⟨rfl, rfl⟩ := Prod.mk.inj (Except.ok.inj h)
    rw [Bool.not_eq_true', ← Bool.not_eq_true, List.isEmpty_iff]

/-- **The virtual classes of a plan** are those that are built from the demand, whatever the method. -/
theorem optimiseLegCabinByMethod_classes {iOptimisationMethod : OptimisationMethod} {classes : ClassStore κ ℝ}
    {lSegmentCabinList : List (List κ)} {ioLegCabin : LegPlan κ} {result : Bool × LegPlan κ}
    (h : optimiseLegCabinByMethod env iOptimisationMethod classes lSegmentCabinList ioLegCabin = .ok result) :
    buildVirtualClassListForLegBasedOptimisation classes lSegmentCabinList =
      .ok (result.2.virtualClassList.map (·.toLegVirtualClass), result.1) := by
  obtain ⟨⟨lVirtualClassList, hasVirtualClass⟩, hbuild, h⟩ := bind_eq_ok.1 h
  have hbuild := mapError_eq_ok hbuild
  cases hasVirtualClass with
  | true =>
    simp only [if_true] at h
    cases iOptimisationMethod with
    | legBasedMC =>
      obtain ⟨lLegPlan, hmc, h⟩ := bind_eq_ok.1 h
      obtain rfl := Except.ok.inj h
      rw [hbuild, optimiseByMCIntegration_classes (mapError_eq_ok hmc)]
    | legBasedEmsrB =>
      obtain ⟨lLegClassList, hemsr, h⟩ := bind_eq_ok.1 h
      obtain rfl := Except.ok.inj h
      rw [hbuild, optimiseByEmsrB_classes (mapError_eq_ok hemsr)]
    | other => cases h
  | false =>
    obtain rfl := Except.ok.inj h
    have hempty : lVirtualClassList = [] := not_not.1 fun hne => Bool.false_ne_true ((build_isNotEmpty hbuild).2 hne)
    rw [hbuild, hempty]
    rfl

end plan

/-! ## EMSR-b on falling yields -/

section emsrB
variable {z : ℝ → ℝ} {lCabinCapacity : ℝ}

/-- What the loop keeps of the aggregated class, as long as its deviation is positive. -/
structure AboveAll (above : Bucket) (rest : List Bucket) : Prop where
  mean : 0 < above.mean
  stdDev : 0 < above.stdDev
  falling : rest.Pairwise fun c d => d.yield < c.yield
  below : ∀ c ∈ rest, c.yield < above.yield ∧ 0 < c.yield ∧ 0 < c.mean

/-- The average of two yields above a third one. -/
theorem lt_average {y a b m n : ℝ} (ha : y < a) (hb : y < b) (hm : 0 < m) (hn : 0 < n) :
    y < (a * m + b * n) / (m + n) := by
  rw [lt_div_iff₀ (add_pos hm hn)]
  have ham := mul_lt_mul_of_pos_right ha hm
  have hbn := mul_lt_mul_of_pos_right hb hn
  linarith

theorem AboveAll.aggregate {above next : Bucket} {rest : List Bucket} (h : AboveAll above (next :: rest)) :
    AboveAll (computeAggregatedVirtualClass above next) rest := by
  obtain ⟨hlower, hfalling⟩ := List.pairwise_cons.1 h.falling
  obtain ⟨-, -, hnext⟩ := h.below next List.mem_cons_self
  have hmean : 0 < above.mean + next.mean := add_pos h.mean hnext
  refine ⟨hmean, Real.sqrt_pos.2 ?_, hfalling, fun c hc => ?_⟩
  · exact add_pos_of_pos_of_nonneg (mul_pos h.stdDev h.stdDev) (mul_self_nonneg _)
  · obtain ⟨habove, hpositive⟩ := h.below c (List.mem_cons_of_mem _ hc)
    refine ⟨?_, hpositive⟩
    simp only [computeAggregatedVirtualClass, if_pos hmean]
    exact lt_average habove (hlower c hc) h.mean hnext

theorem AboveAll.protection {above next : Bucket} {rest : List Bucket} (h : AboveAll above (next :: rest)) :
    ∃ lProtectionLevel, computeProtectionLevel z above next = .ok lProtectionLevel := by
  obtain ⟨hlt, hpositive, -⟩ := h.below next List.mem_cons_self
  exact ⟨_, computeProtectionLevel_ok (hpositive.trans hlt) h.stdDev (ratio_mem hpositive hlt)⟩

/-- The loop goes through below such a class. -/
theorem AboveAll.setLevels {rest : List Bucket} : ∀ {above current : Bucket}, AboveAll above rest →
    ∃ out, setLevels (computeProtectionLevel z) computeAggregatedVirtualClass lCabinCapacity above current rest =
      .ok out := by
  induction rest with
  | nil => exact fun _ => ⟨_, rfl⟩
  | cons next rest ih =>
    intro above current h
    obtain ⟨lProtectionLevel, hprotection⟩ :
        ∃ lProtectionLevel, computeProtectionLevel z above next = .ok lProtectionLevel := h.protection
    obtain ⟨lower, hlower⟩ := @ih _ { next with cumulatedBookingLimit := lCabinCapacity - lProtectionLevel } h.aggregate
    refine ⟨{ current with cumulatedProtection := lProtectionLevel } :: lower, ?_⟩
    rw [Rmol.setLevels, hprotection]
    simp only [ok_bind, hlower, except_pure]

/-- **EMSR-b goes through** classes of falling positive yields and with positive means iff there is one of them only or
the first one has a deviation. -/
theorem emsrB_ok_iff {lFirstVC : Bucket} {rest : List Bucket}
    (hfalling : (lFirstVC :: rest).Pairwise fun c d => d.yield < c.yield)
    (hpositive : ∀ c ∈ lFirstVC :: rest, 0 < c.yield ∧ 0 < c.mean) :
    (∃ out, heuristicOptimisationByEmsrB z lCabinCapacity (lFirstVC :: rest) = .ok out) ↔
      rest = [] ∨ 0 < lFirstVC.stdDev := by
  constructor
  · rintro ⟨out, hout⟩
    cases rest with
    | nil => exact .inl rfl
    | cons next rest =>
      right
      by_contra hstdDev
      obtain ⟨lProtectionLevel, hprotection, -⟩ := bind_eq_ok.1 hout
      simp only [computeProtectionLevel, if_pos (not_lt.1 hstdDev)] at hprotection
      split at hprotection <;> cases hprotection
  · rintro (rfl | hstdDev)
    · exact ⟨_, rfl⟩
    · obtain ⟨hlower, hrest⟩ := List.pairwise_cons.1 hfalling
      obtain ⟨-, hmean⟩ := hpositive lFirstVC List.mem_cons_self
      exact AboveAll.setLevels ⟨hmean, hstdDev, hrest, fun c hc =>
        ⟨hlower c hc, hpositive c (List.mem_cons_of_mem _ hc)⟩⟩

end emsrB

/-! ## EMSR-b on booking classes -/

section prepared
variable {classes : ClassStore κ ℝ} {l : List κ}

/-- The virtual classes can be built iff no class with demand has a negative yield. -/
theorem build_ok_iff (rest : List (List κ)) :
    (∃ result, buildVirtualClassListForLegBasedOptimisation classes (l :: rest) = .ok result) ↔
      ∀ c ∈ l, 0 < (classes c).mean → 0 ≤ (classes c).adjustedYield := by
  constructor
  · rintro ⟨result, hresult⟩ c hc hmean
    obtain ⟨map, hmap, -⟩ := bind_eq_ok.1 hresult
    obtain ⟨before, after, hstep⟩ := foldlM_step hmap hc
    by_contra hyield
    simp [addBookingClass, hmean, hyield] at hstep
  · intro hyield
    obtain ⟨levels, list, -, -, hbuild, -⟩ := build_entries rest hyield
    exact ⟨_, hbuild⟩

/-- **The virtual classes** hold the demand of all classes that have a level. -/
theorem build_demand {rest : List (List κ)} (hstdDev : ∀ c ∈ l, 0 ≤ (classes c).stdDev)
    {lVirtualClassList : List (LegVirtualClass κ)} {isNotEmpty : Bool}
    (h : buildVirtualClassListForLegBasedOptimisation classes (l :: rest) = .ok (lVirtualClassList, isNotEmpty)) :
    (lVirtualClassList.map (·.mean)).sum =
        ((l.filter fun c => (levelOf classes c).isSome).map fun c => (classes c).mean).sum ∧
      (lVirtualClassList.map fun vc => vc.stdDev ^ 2).sum =
        ((l.filter fun c => (levelOf classes c).isSome).map fun c => (classes c).stdDev ^ 2).sum := by
  obtain ⟨levels, hlevels, hmem, hbuild⟩ := build_eq rest hstdDev ((build_ok_iff rest).1 ⟨_, h⟩)
  obtain ⟨rfl, -⟩ := Prod.mk.inj (Except.ok.inj (h.symm.trans hbuild))
  have hnodup : levels.Nodup := hlevels.imp fun h => ne_of_gt h
  have hall : ∀ c ∈ l, ∀ level, levelOf classes c = some level → level ∈ levels :=
    fun c hc level hlevel => (hmem level).2 ⟨c, hc, hlevel⟩
  have hsquare : ∀ level, (virtualClassOf classes l level).stdDev ^ 2 =
      ((members (levelOf classes) l level).map fun c => (classes c).stdDev ^ 2).sum := by
    intro level
    refine Real.sq_sqrt (List.sum_nonneg fun v hv => ?_)
    obtain ⟨c, -, rfl⟩ := List.mem_map.1 hv
    exact sq_nonneg _
  rw [← sum_members _ hnodup hall, ← sum_members _ hnodup hall, List.map_map, List.map_map]
  exact ⟨rfl, congrArg List.sum (List.map_congr_left fun level _ => hsquare level)⟩

theorem virtualClassOf_mean_pos {level : ℤ} (hlevel : ∃ c ∈ l, levelOf classes c = some level) :
    0 < (virtualClassOf classes l level).mean := by
  obtain ⟨c, hc, hlevel⟩ := hlevel
  refine List.sum_pos _ (fun mean hmean => ?_) ?_
  · obtain ⟨d, hd, rfl⟩ := List.mem_map.1 hmean
    exact (levelOf_eq_some.1 (mem_members.1 hd).2).1
  · exact List.ne_nil_of_mem (List.mem_map_of_mem (mem_members.2 ⟨hc, hlevel⟩))

theorem virtualClassOf_stdDev_pos_iff {level : ℤ} :
    0 < (virtualClassOf classes l level).stdDev ↔ ∃ c ∈ l, levelOf classes c = some level ∧ (classes c).stdDev ≠ 0 := by
  rw [virtualClassOf, Real.sqrt_pos]
  constructor
  · intro hsum
    by_contra hnone
    push Not at hnone
    have hzero : ∀ v ∈ (members (levelOf classes) l level).map fun c => (classes c).stdDev ^ 2, v = 0 := by
      intro v hv
      obtain ⟨c, hc, rfl⟩ := List.mem_map.1 hv
      obtain ⟨hmem, hlevel⟩ := mem_members.1 hc
      rw [hnone c hmem hlevel, sq, mul_zero]
    rw [List.sum_eq_zero hzero] at hsum
    exact lt_irrefl 0 hsum
  · rintro ⟨c, hc, hlevel, hstdDev⟩
    have hmem : (classes c).stdDev ^ 2 ∈ (members (levelOf classes) l level).map fun c => (classes c).stdDev ^ 2 :=
      List.mem_map_of_mem (mem_members.2 ⟨hc, hlevel⟩)
    refine (sq_pos_of_ne_zero hstdDev).trans_le (List.single_le_sum (fun v hv => ?_) _ hmem)
    obtain ⟨d, -, rfl⟩ := List.mem_map.1 hv
    exact sq_nonneg _

/-- The class is at the highest level that occurs. -/
def AtHighestLevel (classes : ClassStore κ ℝ) (l : List κ) (c : κ) : Prop :=
  ∃ level, levelOf classes c = some level ∧ ∀ d ∈ l, ∀ level', levelOf classes d = some level' → level' ≤ level

/-- All classes with demand are at one level. -/
def OneLevel (classes : ClassStore κ ℝ) (l : List κ) : Prop :=
  ∀ c ∈ l, ∀ d ∈ l, ∀ level level', levelOf classes c = some level → levelOf classes d = some level' → level = level'

theorem emsrB_levels_ok_iff {z : ℝ → ℝ} {lCabinCapacity : ℝ} {first : ℤ} {levels : List ℤ}
    (hlevels : (first :: levels).Pairwise (· > ·))
    (hmem : ∀ level, level ∈ first :: levels ↔ ∃ c ∈ l, levelOf classes c = some level) :
    (∃ out, heuristicOptimisationByEmsrB z lCabinCapacity
        (((first :: levels).map (virtualClassOf classes l)).map (·.toBucket)) = .ok out) ↔
      OneLevel classes l ∨ ∃ c ∈ l, AtHighestLevel classes l c ∧ (classes c).stdDev ≠ 0 := by
  have hfalling : (((first :: levels).map (virtualClassOf classes l)).map (·.toBucket)).Pairwise
      fun c d => d.yield < c.yield := by
    rw [List.map_map, List.pairwise_map]
    exact hlevels.imp fun h => Int.cast_lt.2 h
  have hpositive : ∀ b ∈ ((first :: levels).map (virtualClassOf classes l)).map (·.toBucket), 0 < b.yield ∧ 0 < b.mean := by
    rw [List.map_map, List.forall_mem_map]
    intro level hlevel
    obtain ⟨c, hc, hcl⟩ := (hmem level).1 hlevel
    have hone : 1 ≤ level := by
      obtain ⟨-, hone, rfl⟩ := levelOf_eq_some.1 hcl
      exact hone
    exact ⟨Int.cast_pos.2 (by omega), virtualClassOf_mean_pos ⟨c, hc, hcl⟩⟩
  have hhighest : ∀ level ∈ first :: levels, level ≤ first := by
    intro level hlevel
    rcases List.mem_cons.1 hlevel with rfl | hlower
    · exact le_rfl
    · exact ((List.pairwise_cons.1 hlevels).1 level hlower).le
  rw [List.map_cons, List.map_cons] at hfalling hpositive ⊢
  rw [emsrB_ok_iff hfalling hpositive, List.map_eq_nil_iff, List.map_eq_nil_iff]
  refine or_congr ?_ ?_
  · constructor
    · rintro rfl c hc d hd level level' hcl hdl
      have hfirst := List.mem_singleton.1 ((hmem level).2 ⟨c, hc, hcl⟩)
      rw [hfirst, List.mem_singleton.1 ((hmem level').2 ⟨d, hd, hdl⟩)]
    · intro hone
      by_contra hne
      obtain ⟨second, hsecond⟩ := List.exists_mem_of_ne_nil _ hne
      obtain ⟨c, hc, hcl⟩ := (hmem first).1 List.mem_cons_self
      obtain ⟨d, hd, hdl⟩ := (hmem second).1 (List.mem_cons_of_mem _ hsecond)
      have hgt := (List.pairwise_cons.1 hlevels).1 second hsecond
      exact absurd (hone c hc d hd first second hcl hdl) (ne_of_gt hgt)
  · change 0 < (virtualClassOf classes l first).stdDev ↔ _
    rw [virtualClassOf_stdDev_pos_iff]
    refine exists_congr fun c => and_congr_right fun hc => and_congr_left fun _ => ?_
    constructor
    · exact fun hcl => ⟨first, hcl, fun d hd level hdl => hhighest level ((hmem level).2 ⟨d, hd, hdl⟩)⟩
    · rintro ⟨level, hcl, hmax⟩
      obtain ⟨d, hd, hdl⟩ := (hmem first).1 List.mem_cons_self
      rw [hcl, le_antisymm (hhighest level ((hmem level).2 ⟨c, hc, hcl⟩)) (hmax d hd first hdl)]

/-- EMSR-b on a list of virtual classes that is built. -/
theorem optimiseLegCabinByMethod_emsrB {env : LegEnv κ} {lSegmentCabinList : List (List κ)} {ioLegCabin : LegPlan κ}
    {lVirtualClassList : List (LegVirtualClass κ)} {hasVirtualClass : Bool}
    (hbuild : buildVirtualClassListForLegBasedOptimisation classes lSegmentCabinList =
      .ok (lVirtualClassList, hasVirtualClass)) :
    optimiseLegCabinByMethod env .legBasedEmsrB classes lSegmentCabinList ioLegCabin =
      if hasVirtualClass then (optimiseByEmsrB env lVirtualClassList).mapError .emsr >>= fun lLegClassList =>
        .ok (true, { ioLegCabin with virtualClassList := lLegClassList })
      else .ok (false, { ioLegCabin with virtualClassList := [] }) := by
  rw [optimiseLegCabinByMethod, hbuild]
  rfl

/-- EMSR-b gets through a leg-cabin iff the virtual classes can be built, and there is one of them only or the highest
one has a deviation. -/
theorem optimiseLegCabinByMethod_emsrB_ok_iff {env : LegEnv κ} (rest : List (List κ)) (ioLegCabin : LegPlan κ)
    (hstdDev : ∀ c ∈ l, 0 ≤ (classes c).stdDev) :
    (∃ result, optimiseLegCabinByMethod env .legBasedEmsrB classes (l :: rest) ioLegCabin = .ok result) ↔
      (∀ c ∈ l, 0 < (classes c).mean → 0 ≤ (classes c).adjustedYield) ∧
      (OneLevel classes l ∨ ∃ c ∈ l, AtHighestLevel classes l c ∧ (classes c).stdDev ≠ 0) := by
  by_cases hyield : ∀ c ∈ l, 0 < (classes c).mean → 0 ≤ (classes c).adjustedYield
  · obtain ⟨levels, hlevels, hmem, hbuild⟩ := build_eq rest hstdDev hyield
    rw [optimiseLegCabinByMethod_emsrB hbuild, and_iff_right hyield]
    cases levels with
    | nil =>
      have hnone : OneLevel classes l := fun c hc d hd level level' hcl => by
        simpa using (hmem level).2 ⟨c, hc, hcl⟩
      exact ⟨fun _ => .inl hnone, fun _ => ⟨_, rfl⟩⟩
    | cons first levels =>
      rw [← emsrB_levels_ok_iff hlevels hmem]
      simp only [List.isEmpty_cons, Bool.not_false, if_true]
      constructor
      · rintro ⟨result, hresult⟩
        obtain ⟨lLegClassList, hemsr, -⟩ := bind_eq_ok.1 hresult
        obtain ⟨lBuckets, hbuckets, -⟩ := bind_eq_ok.1 (mapError_eq_ok hemsr)
        exact ⟨lBuckets, hbuckets⟩
      · rintro ⟨lBuckets, hbuckets⟩
        rw [optimiseByEmsrB, hbuckets]
        exact ⟨_, rfl⟩
  · refine iff_of_false ?_ fun h => hyield h.1
    rintro ⟨result, hresult⟩
    obtain ⟨built, hbuilt, -⟩ := bind_eq_ok.1 hresult
    exact hyield ((build_ok_iff rest).1 ⟨built, mapError_eq_ok hbuilt⟩)

variable [DecidableEq κ]

theorem prepareDemandInput_apply (classes : ClassStore κ ℝ) (c : κ) :
    prepareDemandInput l classes c = if c ∈ l then prepareClass (classes c) else classes c := by
  by_cases hc : c ∈ l
  · rw [if_pos hc]
    exact KeyedUpdates.visits_apply_of_idempotent (fun _ => rfl) hc classes
  · rw [if_neg hc]
    exact ClassStore.foldl_modify_of_notMem _ classes hc

theorem prepareClass_stdDev_ne_zero_iff (b : BookingClass ℝ) :
    (prepareClass b).stdDev ≠ 0 ↔ b.priceDemStdDev ≠ 0 ∨ b.productDemStdDev ≠ 0 := by
  rw [prepareClass, Real.sqrt_ne_zero (add_nonneg (mul_self_nonneg _) (mul_self_nonneg _)), ← not_and_or, not_iff_not]
  constructor
  · intro hsum
    have hprice := mul_self_nonneg b.priceDemStdDev
    have hproduct := mul_self_nonneg b.productDemStdDev
    exact ⟨mul_self_eq_zero.1 (by linarith), mul_self_eq_zero.1 (by linarith)⟩
  · rintro ⟨hprice, hproduct⟩
    rw [hprice, hproduct, mul_zero, add_zero]

/-- **EMSR-b gets through a leg-cabin** whose demand has been prepared iff no class with demand has a negative yield,
and all of them are at one yield level or some class of the highest level has a demand with a deviation. -/
theorem emsrB_prepared_ok_iff (env : LegEnv κ) (classes : ClassStore κ ℝ) (l : List κ) (rest : List (List κ))
    (ioLegCabin : LegPlan κ) :
    (∃ result, optimiseLegCabinByMethod env .legBasedEmsrB (prepareDemandInput l classes) (l :: rest) ioLegCabin =
        .ok result) ↔
      (∀ c ∈ l, 0 < (classes c).priceDemMean + (classes c).productDemMean → 0 ≤ (classes c).adjustedYield) ∧
      (OneLevel (prepareDemandInput l classes) l ∨ ∃ c ∈ l, AtHighestLevel (prepareDemandInput l classes) l c ∧
        ((classes c).priceDemStdDev ≠ 0 ∨ (classes c).productDemStdDev ≠ 0)) := by
  have hprepared : ∀ c ∈ l, prepareDemandInput l classes c = prepareClass (classes c) := fun c hc =>
    (prepareDemandInput_apply classes c).trans (if_pos hc)
  have hstdDev : ∀ c ∈ l, 0 ≤ (prepareDemandInput l classes c).stdDev := by
    intro c hc
    rw [hprepared c hc]
    exact Real.sqrt_nonneg _
  have hyields : (∀ c ∈ l, 0 < (classes c).priceDemMean + (classes c).productDemMean → 0 ≤ (classes c).adjustedYield) ↔
      ∀ c ∈ l, 0 < (prepareDemandInput l classes c).mean → 0 ≤ (prepareDemandInput l classes c).adjustedYield :=
    forall₂_congr fun c hc => by rw [hprepared c hc]; rfl
  have hdeviation : (∃ c ∈ l, AtHighestLevel (prepareDemandInput l classes) l c ∧
        ((classes c).priceDemStdDev ≠ 0 ∨ (classes c).productDemStdDev ≠ 0)) ↔
      ∃ c ∈ l, AtHighestLevel (prepareDemandInput l classes) l c ∧ (prepareDemandInput l classes c).stdDev ≠ 0 :=
    exists_congr fun c => and_congr_right fun hc => by rw [hprepared c hc, prepareClass_stdDev_ne_zero_iff]
  rw [hyields, hdeviation]
  exact optimiseLegCabinByMethod_emsrB_ok_iff rest ioLegCabin hstdDev

end prepared

end Rmol
