import Rmol.MCPasses
import Rmol.VirtualClasses
/-!
# The sample range of the leg-based optimisation (`Optimiser.cpp:128-161`, `MCOptimiser.cpp:73-131`)

The virtual classes go into the class loop with `DEFAULT_NUMBER_OF_DRAWS_FOR_MC_SIMULATION` samples each. Their
levels are integers of any size. Where two of them are close to each other, in proportion to the highest level, the
sample index is zero and `assert (lj >= 1 && lj < K)` fails; where all are `FarApart` no assertion fails
(`legBased_sampleRange`).
-/

namespace Rmol

open OrderStatistics Grouping

/-! ## The index assertions of the leg-based function -/

section run
variable {α : Type*} [Field α] [LinearOrder α] [FloorRing α] [IsStrictOrderedRing α] {ioLegCabin : LegCabin α}
  {lFirstVC : VirtualClass α} {lVCList : List (VirtualClass α)} {K : ℕ}

theorem legStages_passes_iff (hyield : (lFirstVC.yield :: lVCList.map (·.yield)).IsChain (· > ·))
    (hsize : ∀ vc ∈ lFirstVC :: lVCList, vc.generatedDemandVector.length = K) :
    (legStages lFirstVC lVCList).Passes ↔ LevelsOk K (lFirstVC.yield :: lVCList.map (·.yield)) := by
  rw [List.forall_mem_cons] at hsize
  have hfst : (legClasses lVCList).map Prod.fst = lVCList.map (·.yield) := by
    simp [legClasses, Function.comp_def]
  have hdraws : ∀ b ∈ legClasses lVCList, ∀ k ≤ lFirstVC.generatedDemandVector.length, k ≤ (b.2 k).length := by
    simp only [legClasses, List.forall_mem_map]
    intro vc hvc k hk
    rwa [hsize.2 vc hvc, ← hsize.1]
  rw [← hfst] at hyield ⊢
  rw [← hsize.1]
  exact stages_passes_iff _ hyield hdraws

/-- A run whose indices are in range ends well, unless the pool is too large or the last sums are searched where they
are not partitioned. -/
theorem optimalOptimisationByMCIntegration_fault (hlist : ioLegCabin.virtualClassList = lFirstVC :: lVCList)
    (hyield : (lFirstVC.yield :: lVCList.map (·.yield)).IsChain (· > ·))
    (hsize : ∀ vc ∈ lVCList, lFirstVC.generatedDemandVector.length ≤ vc.generatedDemandVector.length)
    (hpass : (legStages lFirstVC lVCList).Passes) {fault : McFault}
    (h : optimalOptimisationByMCIntegration ioLegCabin = .error fault) :
    fault = .unpartitionedRange ∨ fault = .signedOverflow := by
  rw [optimalOptimisationByMCIntegration_eq hlist] at h
  split at h
  · rename_i hrange
    have hbound : (truncate ioLegCabin.availabilityPool).toNat + 1 < 2 ^ 32 := by omega
    have hspec := legLoop_spec ioLegCabin.availabilityPool hbound
      { lFirstVC with cumulatedBookingLimit := ioLegCabin.availabilityPool } lFirstVC.generatedDemandVector 1
      hyield hpass hsize
    split at hspec
    · obtain ⟨classes, hok⟩ := hspec
      rw [hok] at h
      cases h
    · rw [hspec] at h
      exact .inl (Except.error.inj h).symm
  · exact .inr (Except.error.inj h).symm

end run

/-! ## The virtual classes of a leg-cabin -/

variable {κ : Type}

/-- A virtual class with the samples that its booking classes give it. -/
def LegVirtualClass.withSamples (generatedDemandVector : LegVirtualClass κ → List ℝ)
    (lVirtualClass : LegVirtualClass κ) : VirtualClass ℝ :=
  ⟨lVirtualClass.yield, generatedDemandVector lVirtualClass, 0, 0⟩

/-- The levels of the booking classes with demand, each once, from the highest one down. -/
noncomputable def descendingLevels (classes : ClassStore κ ℝ) (lBookingClassList : List κ) : List ℤ :=
  (lBookingClassList.filterMap (levelOf classes)).dedup.insertionSort (· ≥ ·)

theorem descendingLevels_eq {classes : ClassStore κ ℝ} {l : List κ} {levels : List ℤ} (hlevels : levels.Pairwise (· > ·))
    (hmem : ∀ level, level ∈ levels ↔ ∃ c ∈ l, levelOf classes c = some level) : descendingLevels classes l = levels := by
  have hsorted : (descendingLevels classes l).Pairwise (· ≥ ·) := List.pairwise_insertionSort _ _
  have hnodup : (descendingLevels classes l).Nodup :=
    (List.perm_insertionSort _ _).nodup_iff.2 (List.nodup_dedup _)
  have hstrict : (descendingLevels classes l).Pairwise (· > ·) :=
    (hsorted.and hnodup).imp fun h => lt_of_le_of_ne h.1 h.2.symm
  refine hstrict.eq_of_mem_iff hlevels ?_
  intro level
  rw [hmem, descendingLevels, List.mem_insertionSort, List.mem_dedup, List.mem_filterMap]

/-- The yields of the virtual classes are the levels of the booking classes, which are positive. -/
theorem build_yields {classes : ClassStore κ ℝ} {l : List κ} (rest : List (List κ))
    (hyield : ∀ c ∈ l, 0 ≤ (classes c).adjustedYield) :
    ∃ lVirtualClassList,
      buildVirtualClassListForLegBasedOptimisation classes (l :: rest) =
        .ok (lVirtualClassList, !lVirtualClassList.isEmpty) ∧
      lVirtualClassList.map (·.yield) = (descendingLevels classes l).map (Int.cast : ℤ → ℝ) ∧
      (lVirtualClassList.map (·.yield)).IsChain (· > ·) ∧ ∀ y ∈ lVirtualClassList.map (·.yield), 0 < y := by
  obtain ⟨levels, list, hlevels, hmem, hbuild, hentries⟩ := build_entries rest fun c hc _ => hyield c hc
  have hyields : list.map (·.yield) = levels.map (Int.cast : ℤ → ℝ) := by
    rw [← List.forall₂_eq_eq_eq, List.forall₂_map_left_iff, List.forall₂_map_right_iff]
    exact hentries.flip.imp fun vc level h => collect_yield h
  refine ⟨list, hbuild, ?_, ?_, ?_⟩
  · rw [descendingLevels_eq hlevels hmem, hyields]
  · rw [hyields]
    apply List.Pairwise.isChain
    rw [List.pairwise_map]
    exact hlevels.imp fun h => by exact_mod_cast h
  · rw [hyields, List.forall_mem_map]
    intro level hlevel
    obtain ⟨c, -, hc⟩ := (hmem level).1 hlevel
    obtain ⟨-, hone, rfl⟩ := levelOf_eq_some.1 hc
    exact_mod_cast hone

section samples
variable {generatedDemandVector : LegVirtualClass κ → List ℝ} {K : ℕ} {lVirtualClassList : List (LegVirtualClass κ)}

/-- The leg-based function on a list of virtual classes, whose levels decide on its index assertions. -/
theorem withSamples_run (hsamples : ∀ vc, (generatedDemandVector vc).length = K)
    (hchain : (lVirtualClassList.map (·.yield)).IsChain (· > ·)) (hne : lVirtualClassList ≠ [])
    {ioLegCabin : LegCabin ℝ}
    (hlist : ioLegCabin.virtualClassList = lVirtualClassList.map (·.withSamples generatedDemandVector)) :
    (LevelsOk K (lVirtualClassList.map (·.yield)) → ∀ fault,
      optimalOptimisationByMCIntegration ioLegCabin = .error fault →
        fault = .unpartitionedRange ∨ fault = .signedOverflow) ∧
    (¬ LevelsOk K (lVirtualClassList.map (·.yield)) →
      truncate ioLegCabin.availabilityPool ≠ -2 ^ 31 ∧ truncate ioLegCabin.availabilityPool < 2 ^ 30 →
      optimalOptimisationByMCIntegration ioLegCabin = .error .sampleIndex) := by
  obtain ⟨vc, vcs, rfl⟩ := List.exists_cons_of_ne_nil hne
  rw [List.map_cons] at hlist
  have hyields : (vc.withSamples generatedDemandVector).yield ::
      (vcs.map (·.withSamples generatedDemandVector)).map (·.yield) = (vc :: vcs).map (·.yield) := by
    simp [LegVirtualClass.withSamples, Function.comp_def]
  have hsize : ∀ lVC ∈ vc.withSamples generatedDemandVector :: vcs.map (·.withSamples generatedDemandVector),
      lVC.generatedDemandVector.length = K := by
    rw [← List.map_cons (f := fun vc : LegVirtualClass κ => vc.withSamples generatedDemandVector), List.forall_mem_map]
    exact fun vc' _ => hsamples vc'
  have hsizes : ∀ lVC ∈ vcs.map (·.withSamples generatedDemandVector),
      (vc.withSamples generatedDemandVector).generatedDemandVector.length ≤ lVC.generatedDemandVector.length := by
    intro lVC hlVC
    rw [hsize _ List.mem_cons_self, hsize lVC (List.mem_cons_of_mem _ hlVC)]
  rw [← hyields] at hchain ⊢
  rw [← legStages_passes_iff hchain hsize]
  constructor
  · intro hpass fault
    exact optimalOptimisationByMCIntegration_fault hlist hchain hsizes hpass
  · intro hpass hrange
    exact (optimalOptimisationByMCIntegration_sampleIndex_iff hlist hchain hsizes hrange).2 hpass

end samples

/-- **The sample range.** On the virtual classes of a leg-cabin whose levels are far apart for
`DEFAULT_NUMBER_OF_DRAWS_FOR_MC_SIMULATION` samples the leg-based function fails no assertion of its class loop. If two
levels are too close, it fails the one on the sample index. In between the samples that are left at each level decide. -/
theorem legBased_sampleRange (classes : ClassStore κ ℝ) {lBookingClassList : List κ} (rest : List (List κ))
    (hyield : ∀ c ∈ lBookingClassList, 0 ≤ (classes c).adjustedYield)
    {generatedDemandVector : LegVirtualClass κ → List ℝ}
    (hsamples : ∀ vc, (generatedDemandVector vc).length = DEFAULT_NUMBER_OF_DRAWS_FOR_MC_SIMULATION) :
    ∃ lVirtualClassList,
      buildVirtualClassListForLegBasedOptimisation classes (lBookingClassList :: rest) =
        .ok (lVirtualClassList, !lVirtualClassList.isEmpty) ∧
      (lVirtualClassList ≠ [] → ∀ ioLegCabin : LegCabin ℝ,
        ioLegCabin.virtualClassList = lVirtualClassList.map (·.withSamples generatedDemandVector) →
        (FarApart DEFAULT_NUMBER_OF_DRAWS_FOR_MC_SIMULATION
            ((descendingLevels classes lBookingClassList).map (Int.cast : ℤ → ℝ)) →
          ∀ fault, optimalOptimisationByMCIntegration ioLegCabin = .error fault →
            fault = .unpartitionedRange ∨ fault = .signedOverflow) ∧
        (truncate ioLegCabin.availabilityPool ≠ -2 ^ 31 ∧ truncate ioLegCabin.availabilityPool < 2 ^ 30 →
          (TooClose DEFAULT_NUMBER_OF_DRAWS_FOR_MC_SIMULATION
              ((descendingLevels classes lBookingClassList).map (Int.cast : ℤ → ℝ)) →
            optimalOptimisationByMCIntegration ioLegCabin = .error .sampleIndex) ∧
          (optimalOptimisationByMCIntegration ioLegCabin = .error .sampleIndex ↔
            ¬ LevelsOk DEFAULT_NUMBER_OF_DRAWS_FOR_MC_SIMULATION
              ((descendingLevels classes lBookingClassList).map (Int.cast : ℤ → ℝ))))) := by
  obtain ⟨list, hbuild, hyields, hchain, hpos⟩ := build_yields rest hyield
  refine ⟨list, hbuild, fun hne ioLegCabin hlist => ?_⟩
  obtain ⟨hok, hfails⟩ := withSamples_run hsamples hchain hne hlist
  rw [← hyields]
  refine ⟨fun hfar => hok (levelsOk_of_farApart hpos hfar), fun hrange => ⟨fun hclose => ?_, ?_⟩⟩
  · exact hfails (not_levelsOk_of_tooClose hpos hchain hclose) hrange
  · refine ⟨fun hfault hlevels => ?_, fun hlevels => hfails hlevels hrange⟩
    rcases hok hlevels _ hfault with h | h <;> cases h

section numbered

/-- As many samples as the optimisation asks for. -/
def equalSamples (_ : LegVirtualClass ℕ) : List ℝ := List.replicate DEFAULT_NUMBER_OF_DRAWS_FOR_MC_SIMULATION 1

theorem length_equalSamples (vc : LegVirtualClass ℕ) :
    (equalSamples vc).length = DEFAULT_NUMBER_OF_DRAWS_FOR_MC_SIMULATION :=
  List.length_replicate

/-- A leg-cabin with nine seats. -/
def nineSeats (lVCList : List (VirtualClass ℝ)) : LegCabin ℝ where
  availabilityPool := (9 : ℕ)
  virtualClassList := lVCList
  yieldLevelDemandMap := []
  bidPriceVector := []
  currentBidPrice := 1
  previousBidPrice := 1
  map_sorted := .nil

/-- Class `c` has the mean `c` and the adjusted yield `c`. -/
noncomputable def numberedClasses : ClassStore ℕ ℝ := fun c => ⟨0, c, 1, c, 0, 0, 0, 0, 0, 0⟩

theorem descendingLevels_numbered {a b : ℕ} (hb : 1 ≤ b) (hab : b < a) :
    descendingLevels numberedClasses [b, a] = [(a : ℤ), (b : ℤ)] := by
  apply descendingLevels_eq
  · simpa using hab
  · have hlevel (c : ℕ) (hc : 1 ≤ c) : levelOf numberedClasses c = some (c : ℤ) := by
      refine levelOf_eq_some.2 ⟨?_, ?_, (roundedYieldLevel_natCast c).symm⟩
      · exact Nat.cast_pos.2 hc
      · rw [show (numberedClasses c).adjustedYield = (c : ℝ) from rfl, roundedYieldLevel_natCast]
        exact_mod_cast hc
    intro level
    simp only [List.mem_cons, List.not_mem_nil, or_false, exists_eq_or_imp, exists_eq_left, hlevel b hb,
      hlevel a (by omega), Option.some.injEq]
    omega

/-- The virtual classes of two booking classes. -/
theorem build_numbered {a b : ℕ} (hb : 1 ≤ b) (hab : b < a) {lVirtualClassList : List (LegVirtualClass ℕ)}
    {isNotEmpty : Bool} (hbuild : buildVirtualClassListForLegBasedOptimisation numberedClasses [[b, a]] =
      .ok (lVirtualClassList, isNotEmpty)) :
    lVirtualClassList.map (·.yield) = [(a : ℝ), (b : ℝ)] ∧ lVirtualClassList ≠ [] := by
  obtain ⟨list, hlist, hyields, -⟩ := @build_yields ℕ numberedClasses [b, a] [] fun c _ => Nat.cast_nonneg c
  rw [hlist, Except.ok.injEq, Prod.mk.injEq] at hbuild
  obtain ⟨rfl, -⟩ := hbuild
  rw [descendingLevels_numbered hb hab] at hyields
  refine ⟨by simpa using hyields, ?_⟩
  rintro rfl
  simp at hyields

theorem tooClose_numbered : TooClose DEFAULT_NUMBER_OF_DRAWS_FOR_MC_SIMULATION [((20001 : ℕ) : ℝ), ((20000 : ℕ) : ℝ)] := by
  refine ⟨0, _, _, rfl, rfl, ?_⟩
  norm_num [DEFAULT_NUMBER_OF_DRAWS_FOR_MC_SIMULATION]

theorem nineSeats_range (lVCList : List (VirtualClass ℝ)) : truncate (nineSeats lVCList).availabilityPool ≠ -2 ^ 31 ∧
    truncate (nineSeats lVCList).availabilityPool < 2 ^ 30 := by
  norm_num [nineSeats, truncate]

/-- The levels 2 and 1 are far apart, the levels 20001 and 20000 too close. -/
theorem legBased_sampleRange_numbered :
    (∃ lVirtualClassList,
      buildVirtualClassListForLegBasedOptimisation numberedClasses [[1, 2]] =
        .ok (lVirtualClassList, !lVirtualClassList.isEmpty) ∧
      ∀ fault, optimalOptimisationByMCIntegration (nineSeats (lVirtualClassList.map (·.withSamples equalSamples))) =
        .error fault → fault = .unpartitionedRange ∨ fault = .signedOverflow) ∧
    ∃ lVirtualClassList,
      buildVirtualClassListForLegBasedOptimisation numberedClasses [[20000, 20001]] =
        .ok (lVirtualClassList, !lVirtualClassList.isEmpty) ∧
      optimalOptimisationByMCIntegration (nineSeats (lVirtualClassList.map (·.withSamples equalSamples))) =
        .error .sampleIndex := by
  have hyield : ∀ l : List ℕ, ∀ c ∈ l, 0 ≤ (numberedClasses c).adjustedYield := fun _ c _ => Nat.cast_nonneg c
  constructor
  · obtain ⟨list, hbuild, hrun⟩ := legBased_sampleRange numberedClasses [] (hyield [1, 2]) length_equalSamples
    refine ⟨list, hbuild, (hrun (build_numbered le_rfl (by norm_num) hbuild).2 _ rfl).1 ?_⟩
    rw [descendingLevels_numbered le_rfl (by norm_num)]
    norm_num [FarApart, DEFAULT_NUMBER_OF_DRAWS_FOR_MC_SIMULATION]
  · obtain ⟨list, hbuild, hrun⟩ := legBased_sampleRange numberedClasses [] (hyield [20000, 20001]) length_equalSamples
    refine ⟨list, hbuild, ((hrun (build_numbered (by norm_num) (by norm_num) hbuild).2 _ rfl).2 (nineSeats_range _)).1 ?_⟩
    rw [descendingLevels_numbered (by norm_num) (by norm_num)]
    exact tooClose_numbered

/-- **Close levels**: 10000 samples do not separate the yields 20001 and 20000. -/
theorem legBased_sampleIndex_outOfRange :
    ∃ lVirtualClassList,
      buildVirtualClassListForLegBasedOptimisation numberedClasses [[20000, 20001]] =
        .ok (lVirtualClassList, !lVirtualClassList.isEmpty) ∧
      optimalOptimisationByMCIntegration (nineSeats (lVirtualClassList.map (·.withSamples equalSamples))) =
        .error .sampleIndex := by
  obtain ⟨list, hbuild, -, hchain, hpos⟩ :=
    @build_yields ℕ numberedClasses [20000, 20001] [] fun c _ => Nat.cast_nonneg c
  obtain ⟨hyields, hne⟩ := build_numbered (by norm_num) (by norm_num) hbuild
  refine ⟨list, hbuild, (withSamples_run length_equalSamples hchain hne rfl).2 ?_ (nineSeats_range _)⟩
  refine not_levelsOk_of_tooClose hpos hchain ?_
  rw [hyields]
  exact tooClose_numbered

end numbered

end Rmol
