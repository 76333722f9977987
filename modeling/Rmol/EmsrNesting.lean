import Rmol.Emsr
/-!
# Nesting of the EMSR levels

The limit of the first class is the capacity, that of each other class what the protection above it leaves. So the
levels are nested iff no class lets the protection fall (`nestedLevels_iff`, `isChain_levels_iff`):

* EMSR-a: the class adds its own protection against the next one, and the higher classes protect more than before.
  Only the first can be negative, where the deviation is wide and the yield ratio above 1/2;
* EMSR-b: the protections of two aggregated classes are compared. Here the class also changes the yield ratio.
-/

namespace Rmol

/-- The quantile of the complement of the standard normal distribution, as far as it matters. -/
structure ComplementQuantile (z : ℝ → ℝ) : Prop where
  anti : StrictAntiOn z (Set.Ioo 0 1)
  half : z (1 / 2) = 0

/-- A condition on every class that has a next one, with the classes above it. -/
def AtEveryClass (classes : List Bucket) (P : List Bucket → Bucket → Bucket → Prop) : Prop :=
  ∀ higher current next lower, classes = higher ++ current :: next :: lower → P higher current next

/-- The limits of a run are what its protections leave of the capacity. -/
def LimitsFollow (C : ℝ) (out : List Bucket) : Prop :=
  out.map Bucket.cumulatedBookingLimit = C :: (out.dropLast.map Bucket.cumulatedProtection).map (C - ·)

variable {z : ℝ → ℝ} {lFirstVC : Bucket} {rest : List Bucket}

/-! ## The runs -/

theorem heuristicOptimisationByEmsrA_ok (z : ℝ → ℝ) (h : IsClassList (lFirstVC :: rest)) (C : ℝ) :
    ∃ out, heuristicOptimisationByEmsrA z C (lFirstVC :: rest) = .ok out ∧
      out.dropLast.map Bucket.cumulatedProtection = levels (emsrALevel z) [lFirstVC] rest ∧
      out.map Bucket.cumulatedBookingLimit = C :: (levels (emsrALevel z) [lFirstVC] rest).map (C - ·) :=
  @setLevels_ok _ (partialProtections z) (fun lHigherVCs lNextVC => lHigherVCs ++ [lNextVC]) (· = ·) (emsrALevel z) C
    (fun above higher next _ hclasses hsame => by rw [hsame, partialProtections_ok hclasses])
    (fun above higher next _ _ hsame => by rw [hsame]) rest [lFirstVC] [lFirstVC]
    { lFirstVC with cumulatedBookingLimit := C } (List.cons_ne_nil _ _) rfl h

theorem heuristicOptimisationByEmsrB_ok (z : ℝ → ℝ) (h : IsClassList (lFirstVC :: rest)) (C : ℝ) :
    ∃ out, heuristicOptimisationByEmsrB z C (lFirstVC :: rest) = .ok out ∧
      out.dropLast.map Bucket.cumulatedProtection = levels (emsrBLevel z) [lFirstVC] rest ∧
      out.map Bucket.cumulatedBookingLimit = C :: (levels (emsrBLevel z) [lFirstVC] rest).map (C - ·) := by
  obtain ⟨-, hmean, hstdDev⟩ := h.positive lFirstVC List.mem_cons_self
  exact @setLevels_ok _ (computeProtectionLevel z) computeAggregatedVirtualClass Aggregates (emsrBLevel z) C
    (fun above higher next hne hclasses haggregates => aggregated_ok hne hclasses haggregates)
    (fun above higher next hne hclasses haggregates => haggregates.step hne hclasses) rest [lFirstVC] lFirstVC
    { lFirstVC with cumulatedBookingLimit := C } (List.cons_ne_nil _ _) (Aggregates.single lFirstVC hmean hstdDev) h

/-- Levels that no classes start at 0 are nested iff they fall at no class. -/
theorem zero_isChain_levels_iff {level : List Bucket → Bucket → ℝ} (hnil : level [] lFirstVC = 0) :
    (0 :: levels level [lFirstVC] rest).IsChain (· ≤ ·) ↔
      AtEveryClass (lFirstVC :: rest) fun higher current next =>
        level higher current ≤ level (higher ++ [current]) next := by
  have h := isChain_levels_iff level rest [] lFirstVC
  rw [hnil] at h
  exact h

/-! ## EMSR-a -/

theorem emsrA_nested_iff (z : ℝ → ℝ) (h : IsClassList (lFirstVC :: rest)) (C : ℝ) :
    ∃ out, heuristicOptimisationByEmsrA z C (lFirstVC :: rest) = .ok out ∧ LimitsFollow C out ∧
      (NestedLevels out ↔ AtEveryClass (lFirstVC :: rest) fun higher current next =>
        0 ≤ ownProtection z current next + protectionGain z higher current next) := by
  obtain ⟨out, hrun, hprotections, hlimits⟩ := heuristicOptimisationByEmsrA_ok z h C
  refine ⟨out, hrun, by rw [LimitsFollow, hprotections, hlimits], ?_⟩
  rw [nestedLevels_iff hprotections hlimits, zero_isChain_levels_iff (by simp [emsrALevel])]
  simp only [AtEveryClass, emsrALevel_append, le_add_iff_nonneg_right]

/-- Classes that protect something by themselves are enough. -/
theorem atEveryClass_of_ownProtection (hz : StrictAntiOn z (Set.Ioo 0 1)) {classes : List Bucket}
    (h : IsClassList classes) (hown : AtEveryClass classes fun _ current next => 0 ≤ ownProtection z current next) :
    AtEveryClass classes fun higher current next =>
      0 ≤ ownProtection z current next + protectionGain z higher current next := by
  rintro higher current next lower rfl
  exact add_nonneg (hown higher current next lower rfl) (protectionGain_nonneg hz h)

/-! ## EMSR-b -/

theorem emsrB_nested_iff (z : ℝ → ℝ) (h : IsClassList (lFirstVC :: rest)) (C : ℝ) :
    ∃ out, heuristicOptimisationByEmsrB z C (lFirstVC :: rest) = .ok out ∧ LimitsFollow C out ∧
      (NestedLevels out ↔ AtEveryClass (lFirstVC :: rest) fun higher current next =>
        emsrBLevel z higher current ≤ emsrBLevel z (higher ++ [current]) next) := by
  obtain ⟨out, hrun, hprotections, hlimits⟩ := heuristicOptimisationByEmsrB_ok z h C
  refine ⟨out, hrun, by rw [LimitsFollow, hprotections, hlimits], ?_⟩
  rw [nestedLevels_iff hprotections hlimits,
    zero_isChain_levels_iff (by simp [emsrBLevel, totalMean, totalVariance])]

/-- The yield of the next class against that of the classes above, as one. -/
noncomputable def aggregatedRatio (higher : List Bucket) (next : Bucket) : ℝ := next.yield / averageYield higher

theorem aggregatedRatio_mem {higher : List Bucket} {next : Bucket} (hne : higher ≠ [])
    (h : IsClassList (higher ++ [next])) : aggregatedRatio higher next ∈ Set.Ioo 0 1 := by
  have hnext := (h.positive next (List.mem_append_right _ List.mem_cons_self)).1
  have hlt : next.yield < averageYield higher :=
    lt_averageYield hne (fun c hc => (h.positive c (List.mem_append_left _ hc)).2.1) fun c hc => h.lower hc
  exact ⟨div_pos hnext (hnext.trans hlt), (div_lt_one (hnext.trans hlt)).2 hlt⟩

/-- Ratios of at most 1/2 that do not rise are enough. -/
theorem atEveryClass_of_aggregatedRatio (hz : ComplementQuantile z) {classes : List Bucket} (h : IsClassList classes)
    (hratio : AtEveryClass classes fun higher current next => aggregatedRatio (higher ++ [current]) next ≤ 1 / 2 ∧
      (higher ≠ [] → aggregatedRatio (higher ++ [current]) next ≤ aggregatedRatio higher current)) :
    AtEveryClass classes fun higher current next =>
      emsrBLevel z higher current ≤ emsrBLevel z (higher ++ [current]) next := by
  rintro higher current next lower rfl
  obtain ⟨hhalf, hfall⟩ := hratio higher current next lower rfl
  have hsplit : higher ++ current :: next :: lower = higher ++ [current] ++ [next] ++ lower := by simp
  rw [hsplit] at h
  have hnext := h.of_append
  have hcurrent := hnext.of_append
  obtain ⟨-, hmean, hstdDev⟩ := hcurrent.positive current (List.mem_append_right _ List.mem_cons_self)
  have hmem := aggregatedRatio_mem (List.append_ne_nil_of_right_ne_nil _ (List.cons_ne_nil _ _)) hnext
  have hz₀ : 0 ≤ z (aggregatedRatio (higher ++ [current]) next) := by
    rw [← hz.half]
    exact hz.anti.antitoneOn hmem (by norm_num) hhalf
  have htotal : totalMean (higher ++ [current]) = totalMean higher + current.mean := by simp [totalMean]
  have hvariance : totalVariance higher ≤ totalVariance (higher ++ [current]) := by
    have : totalVariance (higher ++ [current]) = totalVariance higher + current.stdDev ^ 2 := by simp [totalVariance]
    rw [this]
    exact le_add_of_nonneg_right (sq_nonneg _)
  have hwider : √(totalVariance higher) * z (aggregatedRatio higher current) ≤
      √(totalVariance (higher ++ [current])) * z (aggregatedRatio (higher ++ [current]) next) := by
    by_cases hnil : higher = []
    · subst hnil
      have hzero : √(totalVariance []) = 0 := by simp [totalVariance]
      rw [hzero, zero_mul]
      exact mul_nonneg (Real.sqrt_nonneg _) hz₀
    · calc √(totalVariance higher) * z (aggregatedRatio higher current)
          ≤ √(totalVariance higher) * z (aggregatedRatio (higher ++ [current]) next) :=
            mul_le_mul_of_nonneg_left (hz.anti.antitoneOn hmem (aggregatedRatio_mem hnil hcurrent) (hfall hnil))
              (Real.sqrt_nonneg _)
        _ ≤ _ := mul_le_mul_of_nonneg_right (Real.sqrt_le_sqrt hvariance) hz₀
  unfold emsrBLevel
  rw [htotal]
  unfold aggregatedRatio at hwider
  linarith

/-! ## Both -/

/-- **Nested levels.** Both heuristics run through, and each limit is what the protection above leaves. The levels of
EMSR-a are nested iff at every class its own protection and the gain of the higher classes are together not
negative; so they are where no class has a negative protection of its own. Those of EMSR-b are nested iff no class
lowers the protection of the aggregated class; so they are where the yield ratios are at most 1/2 and do not rise. -/
theorem emsr_nested_iff (hz : ComplementQuantile z) (h : IsClassList (lFirstVC :: rest)) (C : ℝ) :
    (∃ out, heuristicOptimisationByEmsrA z C (lFirstVC :: rest) = .ok out ∧ LimitsFollow C out ∧
      (NestedLevels out ↔ AtEveryClass (lFirstVC :: rest) fun higher current next =>
        0 ≤ ownProtection z current next + protectionGain z higher current next) ∧
      (AtEveryClass (lFirstVC :: rest) (fun _ current next => 0 ≤ ownProtection z current next) →
        NestedLevels out)) ∧
    ∃ out, heuristicOptimisationByEmsrB z C (lFirstVC :: rest) = .ok out ∧ LimitsFollow C out ∧
      (NestedLevels out ↔ AtEveryClass (lFirstVC :: rest) fun higher current next =>
        emsrBLevel z higher current ≤ emsrBLevel z (higher ++ [current]) next) ∧
      (AtEveryClass (lFirstVC :: rest) (fun higher current next =>
          aggregatedRatio (higher ++ [current]) next ≤ 1 / 2 ∧
            (higher ≠ [] → aggregatedRatio (higher ++ [current]) next ≤ aggregatedRatio higher current)) →
        NestedLevels out) := by
  obtain ⟨outA, hrunA, hlimitsA, hiffA⟩ := emsrA_nested_iff z h C
  obtain ⟨outB, hrunB, hlimitsB, hiffB⟩ := emsrB_nested_iff z h C
  exact ⟨⟨outA, hrunA, hlimitsA, hiffA, fun hown => hiffA.2 (atEveryClass_of_ownProtection hz.anti h hown)⟩,
    outB, hrunB, hlimitsB, hiffB, fun hratio => hiffB.2 (atEveryClass_of_aggregatedRatio hz h hratio)⟩

/-- Whatever the quantile is, two classes with a yield ratio of 3/4 are not nested if the deviation of the higher
one is wide enough. -/
theorem exists_not_nestedLevels (hz : ComplementQuantile z) (C : ℝ) :
    ∃ lFirstVC rest, IsClassList (lFirstVC :: rest) ∧
      (∀ out, heuristicOptimisationByEmsrA z C (lFirstVC :: rest) = .ok out → ¬ NestedLevels out) ∧
      ∀ out, heuristicOptimisationByEmsrB z C (lFirstVC :: rest) = .ok out → ¬ NestedLevels out := by
  have hneg : z (3 / 4) < 0 := by
    rw [← hz.half]
    exact hz.anti (by norm_num) (by norm_num) (by norm_num)
  have hpos : 0 < 2 / -z (3 / 4) := div_pos two_pos (neg_pos.2 hneg)
  have hclasses : IsClassList [⟨1, 2 / -z (3 / 4), 4, 0, 0⟩, ⟨1, 1, 3, 0, 0⟩] := by
    constructor
    · norm_num
    · simpa using hpos
  have hprotection : 1 + 2 / -z (3 / 4) * z (3 / 4) = -1 := by
    field_simp [hneg.ne]
    norm_num
  refine ⟨_, _, hclasses, fun out hout hnested => ?_, fun out hout hnested => ?_⟩
  · obtain ⟨out', hrun, hprotections, hlimits⟩ := heuristicOptimisationByEmsrA_ok z hclasses C
    obtain rfl := Except.ok.inj (hout.symm.trans hrun)
    have hchain := (nestedLevels_iff hprotections hlimits).1 hnested
    simp [levels, emsrALevel, ownProtection, hprotection] at hchain
    norm_num at hchain
  · obtain ⟨out', hrun, hprotections, hlimits⟩ := heuristicOptimisationByEmsrB_ok z hclasses C
    obtain rfl := Except.ok.inj (hout.symm.trans hrun)
    have hchain := (nestedLevels_iff hprotections hlimits).1 hnested
    simp [levels, emsrBLevel, totalMean, totalVariance, averageYield, Real.sqrt_sq hpos.le, hprotection] at hchain
    norm_num at hchain

/-! ### Halved yields

Three classes, each with half the yield of the class above; the quantile falls linearly. -/

noncomputable def linearQuantile (r : ℝ) : ℝ := 1 / ((2 : ℕ) : ℝ) - r

theorem linearQuantile_complement : ComplementQuantile linearQuantile where
  anti := fun _ _ _ _ hlt => sub_lt_sub_left hlt _
  half := by norm_num [linearQuantile]

theorem atEveryClass_singleton {P : List Bucket → Bucket → Bucket → Prop} (c : Bucket) : AtEveryClass [c] P := by
  intro higher current next lower h
  have hlength := congrArg List.length h
  simp only [List.length_append, List.length_cons, List.length_nil] at hlength
  omega

theorem atEveryClass_cons_cons {P : List Bucket → Bucket → Bucket → Prop} {c d : Bucket} {l : List Bucket}
    (hfirst : P [] c d) (hrest : AtEveryClass (d :: l) fun higher => P (c :: higher)) : AtEveryClass (c :: d :: l) P := by
  intro higher current next lower h
  cases higher with
  | nil =>
    rw [List.nil_append, List.cons.injEq, List.cons.injEq] at h
    obtain ⟨rfl, rfl, -⟩ := h
    exact hfirst
  | cons c' higher =>
    rw [List.cons_append, List.cons.injEq] at h
    obtain ⟨rfl, h⟩ := h
    exact hrest higher current next lower h

noncomputable def halvedFirst : Bucket := ⟨1, 1, ((8 : ℕ) : ℝ), 0, 0⟩
noncomputable def halvedRest : List Bucket := [⟨1, 1, ((4 : ℕ) : ℝ), 0, 0⟩, ⟨1, 1, ((2 : ℕ) : ℝ), 0, 0⟩]

theorem halved_isClassList : IsClassList (halvedFirst :: halvedRest) := by
  constructor
  · norm_num [halvedFirst, halvedRest]
  · norm_num [halvedFirst, halvedRest]

theorem emsr_nested_iff_halved :
    (∃ out, heuristicOptimisationByEmsrA linearQuantile 100 (halvedFirst :: halvedRest) = .ok out ∧ NestedLevels out) ∧
    ∃ out, heuristicOptimisationByEmsrB linearQuantile 100 (halvedFirst :: halvedRest) = .ok out ∧ NestedLevels out := by
  obtain ⟨⟨outA, hrunA, -, -, hnestedA⟩, outB, hrunB, -, -, hnestedB⟩ :=
    emsr_nested_iff linearQuantile_complement halved_isClassList 100
  refine ⟨⟨outA, hrunA, hnestedA ?_⟩, outB, hrunB, hnestedB ?_⟩
  · refine atEveryClass_cons_cons ?_ (atEveryClass_cons_cons ?_ (atEveryClass_singleton _))
    · norm_num [ownProtection, linearQuantile, halvedFirst]
    · norm_num [ownProtection, linearQuantile]
  · refine atEveryClass_cons_cons ⟨?_, ?_⟩ (atEveryClass_cons_cons ⟨?_, ?_⟩ (atEveryClass_singleton _))
    · norm_num [aggregatedRatio, averageYield, totalMean, halvedFirst]
    · exact fun h => absurd rfl h
    · norm_num [aggregatedRatio, averageYield, totalMean, halvedFirst]
    · norm_num [aggregatedRatio, averageYield, totalMean, halvedFirst]

/-! ### Wide demand

Three classes with close yields and deviations of many times the means. -/

noncomputable def wideFirst : Bucket := ⟨1, ((30 : ℕ) : ℝ), ((20 : ℕ) : ℝ), 0, 0⟩
noncomputable def wideRest : List Bucket :=
  [⟨1, ((40 : ℕ) : ℝ), ((15 : ℕ) : ℝ), 0, 0⟩, ⟨1, 1, ((14 : ℕ) : ℝ), 0, 0⟩]

theorem wide_isClassList : IsClassList (wideFirst :: wideRest) := by
  constructor
  · norm_num [wideFirst, wideRest]
  · norm_num [wideFirst, wideRest]

/-- The protections are negative and fall, the limits rise above the capacity. -/
theorem emsr_not_nested :
    ComplementQuantile linearQuantile ∧ IsClassList (wideFirst :: wideRest) ∧
    (∃ out, heuristicOptimisationByEmsrA linearQuantile 100 (wideFirst :: wideRest) = .ok out ∧
      ¬ (out.dropLast.map Bucket.cumulatedProtection).IsChain (· ≤ ·) ∧
      ¬ (out.map Bucket.cumulatedBookingLimit).IsChain (· ≥ ·)) ∧
    ∃ out, heuristicOptimisationByEmsrB linearQuantile 100 (wideFirst :: wideRest) = .ok out ∧
      ¬ (out.dropLast.map Bucket.cumulatedProtection).IsChain (· ≤ ·) ∧
      ¬ (out.map Bucket.cumulatedBookingLimit).IsChain (· ≥ ·) := by
  have hlevelsA : levels (emsrALevel linearQuantile) [wideFirst] wideRest = [-13 / 2, -64 / 3] := by
    norm_num [levels, emsrALevel, ownProtection, linearQuantile, wideFirst, wideRest]
  have h30 : √(900 : ℝ) = 30 := by
    rw [show (900 : ℝ) = 30 ^ 2 by norm_num]
    exact Real.sqrt_sq (by norm_num)
  have h50 : √(2500 : ℝ) = 50 := by
    rw [show (2500 : ℝ) = 50 ^ 2 by norm_num]
    exact Real.sqrt_sq (by norm_num)
  have hlevelsB : levels (emsrBLevel linearQuantile) [wideFirst] wideRest = [-13 / 2, -13] := by
    norm_num [levels, emsrBLevel, totalMean, totalVariance, averageYield, linearQuantile, wideFirst, wideRest, h30, h50]
  obtain ⟨outA, hrunA, hprotectionsA, hlimitsA⟩ :=
    heuristicOptimisationByEmsrA_ok linearQuantile wide_isClassList 100
  obtain ⟨outB, hrunB, hprotectionsB, hlimitsB⟩ :=
    heuristicOptimisationByEmsrB_ok linearQuantile wide_isClassList 100
  rw [hlevelsA] at hprotectionsA hlimitsA
  rw [hlevelsB] at hprotectionsB hlimitsB
  refine ⟨linearQuantile_complement, wide_isClassList, ⟨outA, hrunA, ?_, ?_⟩, outB, hrunB, ?_, ?_⟩
  · rw [hprotectionsA]
    norm_num
  · rw [hlimitsA]
    norm_num
  · rw [hprotectionsB]
    norm_num
  · rw [hlimitsB]
    norm_num

end Rmol
