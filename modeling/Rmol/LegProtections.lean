import Rmol.MCPasses
/-!
# The cumulated protections of the leg-based function (`MCOptimiser.cpp:55-131`)

A pass sets the cumulated protection of its class to the midpoint around the sample index, and the cumulated
booking limit of the next class to what is left of the capacity. The sums of the next class are those above
the index, plus the samples of that class. With samples of zero and more they stay above the protection; with
negative ones, the protection stays above the earlier ones as long as fewer of them are negative than its
sample index counts (`FewNegative`). The samples come from normal draws, which are not cut off at zero, so
this is a condition on them (`optimalOptimisationByMCIntegration_not_nested`).
-/

namespace Rmol

open OrderStatistics Runs

variable {α : Type*} [Field α] [LinearOrder α] [FloorRing α]

/-- In each class but the last, fewer of the samples that are added to the `K` sums held are negative than its
sample index. -/
def FewNegative : ℕ → VirtualClass α → List (VirtualClass α) → Prop
  | _, _, [] => True
  | K, lVC, lNextVC :: lVCList =>
    (lVC.generatedDemandVector.take K).countP (fun d => d < 0) < sampleIndex K lVC.yield lNextVC.yield ∧
      FewNegative (K - sampleIndex K lVC.yield lNextVC.yield) lNextVC lVCList

/-- The same of the classes below the first one. -/
def FewNegativeBelow (lFirstVC : VirtualClass α) : List (VirtualClass α) → Prop
  | [] => True
  | lNextVC :: lVCList =>
    let K := lFirstVC.generatedDemandVector.length
    FewNegative (K - sampleIndex K lFirstVC.yield lNextVC.yield) lNextVC lVCList

namespace PassState

/-- The cumulated protections that were set, from the highest class down. -/
def protections (s : PassState α (VirtualClass α)) : List α := s.processed.map (·.cumulatedProtection)

/-- The cumulated booking limits that were set; the class that is processed has its own. -/
def bookingLimits (s : PassState α (VirtualClass α)) : List α :=
  (s.processed ++ [s.current]).map (·.cumulatedBookingLimit)

/-- How many of the samples that went into the sums are negative. -/
def negatives (s : PassState α (VirtualClass α)) : ℕ :=
  (s.current.generatedDemandVector.take s.lPartialSumHolder.length).countP fun d => d < 0

end PassState

/-! ## One pass -/

section pass
variable [IsStrictOrderedRing α] {lCap : α} {bound : ℕ} {s t : PassState α (VirtualClass α)} {base : List α}

/-- **A pass** appends the protection `pj` and what it leaves of the capacity. The protection is above each
value that fewer sums than the sample index are below; of the new sums, those below it come from negative
samples. -/
theorem LegPass.levels (h : LegPass lCap bound s t) :
    ∃ pj, t.protections = s.protections ++ [pj] ∧ t.bookingLimits = s.bookingLimits ++ [lCap - pj] ∧
      (∀ x, s.lPartialSumHolder.countP (fun a => a < x) <
          sampleIndex s.lPartialSumHolder.length s.current.yield t.current.yield → x ≤ pj) ∧
      t.lPartialSumHolder.countP (fun a => a < pj) ≤ t.negatives := by
  have hlength := h.poolStep.size
  obtain ⟨hstep, hsize⟩ := h
  rename_i processed lVCList lCurrentVC lNextVC sums idx step
  obtain ⟨-, hindex, hsums, hlj, hpj⟩ := classStep_ok hstep
  have hsorted := sortedSums_sorted sums
  rw [← length_sortedSums sums] at hindex
  refine ⟨step.pj, by simp [PassState.protections], by simp [PassState.bookingLimits], ?_, ?_⟩
  · intro x hx
    rw [hpj, stageProtection]
    apply le_midpoint_of_countP_lt hsorted hindex.2
    rwa [sortedSums, (List.perm_insertionSort _ sums).countP_eq, stageIndex_eq]
  · have habove : ∀ a ∈ (sortedSums sums).drop (stageIndex sums lCurrentVC.yield lNextVC.yield), step.pj ≤ a := by
      intro a ha
      rw [hpj, stageProtection]
      exact midpoint_le_of_mem_drop hsorted hindex.2 ha
    have hle := countP_zipWith_add_le lNextVC.generatedDemandVector habove
    have hdrop : ((sortedSums sums).drop (stageIndex sums lCurrentVC.yield lNextVC.yield)).length =
        sums.length - sampleIndex sums.length lCurrentVC.yield lNextVC.yield := by
      rw [List.length_drop, length_sortedSums, stageIndex_eq]
    rw [hdrop] at hle
    simp only [PassState.negatives, hlength]
    rwa [hsums, hlj]

/-- The protections are nested, after the values of `base`; the sums that are below one of them come from
negative samples. -/
structure NestedUpTo (base : List α) (s : PassState α (VirtualClass α)) : Prop where
  pairwise : (base ++ s.protections).Pairwise (· ≤ ·)
  countP_le : ∀ q ∈ base ++ s.protections, s.lPartialSumHolder.countP (fun a => a < q) ≤ s.negatives

theorem NestedUpTo.pass (hs : NestedUpTo base s) (h : LegPass lCap bound s t)
    (hfew : base ++ s.protections ≠ [] →
      s.negatives < sampleIndex s.lPartialSumHolder.length s.current.yield t.current.yield) :
    NestedUpTo base t := by
  obtain ⟨pj, hprotections, -, habove, hnegatives⟩ := h.levels
  have hle : ∀ q ∈ base ++ s.protections, q ≤ pj := by
    intro q hq
    exact habove q ((hs.countP_le q hq).trans_lt (hfew (List.ne_nil_of_mem hq)))
  constructor
  · rw [hprotections, ← List.append_assoc, List.pairwise_append]
    refine ⟨hs.pairwise, List.pairwise_singleton _ _, ?_⟩
    intro q hq p hp
    rw [List.mem_singleton] at hp
    exact hp ▸ hle q hq
  · intro q hq
    have hqp : q ≤ pj := by
      rw [hprotections, ← List.append_assoc, List.mem_append, List.mem_singleton] at hq
      rcases hq with hq | rfl
      · exact hle q hq
      · exact le_rfl
    refine (List.countP_mono_left ?_).trans hnegatives
    intro a _ ha
    simp only [decide_eq_true_eq] at ha ⊢
    exact ha.trans_le hqp

end pass

/-! ## A run -/

section run
variable [IsStrictOrderedRing α] {lCap : α} {bound n : ℕ} {s t : PassState α (VirtualClass α)}
  {lFirstVC : VirtualClass α} {lVCList : List (VirtualClass α)} {base : List α}

/-- `FewNegative` of the sums held; the class that is processed need not meet it if no level was set before. -/
def PassState.FewNegative (base : List α) (s : PassState α (VirtualClass α)) : Prop :=
  match s.below with
  | [] => True
  | lNextVC :: lVCList =>
    let lj := sampleIndex s.lPartialSumHolder.length s.current.yield lNextVC.yield
    (base ++ s.protections ≠ [] → s.negatives < lj) ∧
      Rmol.FewNegative (s.lPartialSumHolder.length - lj) lNextVC lVCList

omit [IsStrictOrderedRing α] in
theorem FewNegative.passState (h : FewNegative s.lPartialSumHolder.length s.current s.below) :
    s.FewNegative base := by
  obtain ⟨processed, current, below, sums, idx⟩ := s
  cases below with
  | nil => trivial
  | cons next rest => exact ⟨fun _ => h.1, h.2⟩

omit [IsStrictOrderedRing α] in
theorem LegPass.fewNegative (h : LegPass lCap bound s t) (hs : s.FewNegative base) :
    (base ++ s.protections ≠ [] →
        s.negatives < sampleIndex s.lPartialSumHolder.length s.current.yield t.current.yield) ∧
      t.FewNegative base := by
  have hlength := h.poolStep.size
  obtain ⟨hstep, -⟩ := h
  refine ⟨hs.1, FewNegative.passState ?_⟩
  rw [hlength]
  have hrest := hs.2
  rename_i below _ _ _ _ _
  cases below <;> exact hrest

theorem reaches_nested (hstart : NestedUpTo base (legStart lCap lFirstVC lVCList))
    (hfew : (legStart lCap lFirstVC lVCList).FewNegative base)
    (hreach : Reaches (LegPass lCap bound) (legStart lCap lFirstVC lVCList) n s) : NestedUpTo base s := by
  have hboth : NestedUpTo base s ∧ s.FewNegative base := by
    refine hreach.invariant (P := fun _ s => NestedUpTo base s ∧ s.FewNegative base) ⟨hstart, hfew⟩ ?_
    rintro _ s t ⟨hs, hfew⟩ hpass
    obtain ⟨hnow, hnext⟩ := hpass.fewNegative hfew
    exact ⟨hs.pass hpass hnow, hnext⟩
  exact hboth.1

/-- The booking limits are what the protections leave of the capacity, after the whole of it. -/
theorem reaches_bookingLimits (hreach : Reaches (LegPass lCap bound) (legStart lCap lFirstVC lVCList) n s) :
    s.bookingLimits = (0 :: s.protections).map (lCap - ·) := by
  refine hreach.invariant (P := fun _ s => s.bookingLimits = (0 :: s.protections).map (lCap - ·)) ?_ ?_
  · simp [legStart, PassState.bookingLimits, PassState.protections]
  · intro _ s t hs hpass
    obtain ⟨pj, hprotections, hlimits, -, -⟩ := hpass.levels
    rw [hlimits, hs, hprotections]
    simp

omit [FloorRing α] [IsStrictOrderedRing α] in
theorem nestedUpTo_nil_start : NestedUpTo [] (legStart lCap lFirstVC lVCList) :=
  ⟨by simp [PassState.protections, legStart], by simp [PassState.protections, legStart]⟩

omit [FloorRing α] [IsStrictOrderedRing α] in
theorem nestedUpTo_zero_start : NestedUpTo [0] (legStart lCap lFirstVC lVCList) := by
  constructor
  · simp [PassState.protections, legStart]
  · simp [PassState.protections, PassState.negatives, legStart]

theorem reaches_protections (hfew : FewNegativeBelow lFirstVC lVCList)
    (hreach : Reaches (LegPass lCap bound) (legStart lCap lFirstVC lVCList) n s) :
    s.protections.Pairwise (· ≤ ·) := by
  have hstart : (legStart lCap lFirstVC lVCList).FewNegative [] := by
    cases lVCList with
    | nil => trivial
    | cons next rest => exact ⟨fun hne => absurd rfl hne, hfew⟩
  simpa using (reaches_nested nestedUpTo_nil_start hstart hreach).pairwise

theorem reaches_limits (hfew : FewNegative lFirstVC.generatedDemandVector.length lFirstVC lVCList)
    (hreach : Reaches (LegPass lCap bound) (legStart lCap lFirstVC lVCList) n s) :
    s.bookingLimits.Pairwise (· ≥ ·) := by
  have hstart : (legStart lCap lFirstVC lVCList).FewNegative [0] := by
    refine FewNegative.passState ?_
    cases lVCList <;> exact hfew
  have hnested := (reaches_nested nestedUpTo_zero_start hstart hreach).pairwise
  rw [reaches_bookingLimits hreach, List.pairwise_map]
  refine hnested.imp ?_
  intro p q hpq
  exact sub_le_sub_left hpq lCap

/-- **Nested protections.** In each state that the class loop reaches, and in the classes that the function
leaves, the cumulated protections do not go down if few of the samples below the first class are negative;
nor do the booking limits go up, if few of the samples of the first class are negative as well. -/
theorem optimalOptimisationByMCIntegration_nested {ioLegCabin : LegCabin α}
    (hlist : ioLegCabin.virtualClassList = lFirstVC :: lVCList) :
    (∀ bound n s, Reaches (LegPass ioLegCabin.availabilityPool bound)
        (legStart ioLegCabin.availabilityPool lFirstVC lVCList) n s →
      (FewNegativeBelow lFirstVC lVCList → s.protections.Pairwise (· ≤ ·)) ∧
      (FewNegative lFirstVC.generatedDemandVector.length lFirstVC lVCList → s.bookingLimits.Pairwise (· ≥ ·))) ∧
    (∀ out, optimalOptimisationByMCIntegration ioLegCabin = .ok out →
      (FewNegativeBelow lFirstVC lVCList →
        (out.virtualClassList.dropLast.map (·.cumulatedProtection)).Pairwise (· ≤ ·)) ∧
      (FewNegative lFirstVC.generatedDemandVector.length lFirstVC lVCList →
        (out.virtualClassList.map (·.cumulatedBookingLimit)).Pairwise (· ≥ ·))) := by
  constructor
  · intro bound n s hreach
    exact ⟨fun hfew => reaches_protections hfew hreach, fun hfew => reaches_limits hfew hreach⟩
  · intro out hout
    obtain ⟨bound, s, hreach, -, hclasses⟩ := optimalOptimisationByMCIntegration_reaches hlist hout
    rw [hclasses, List.dropLast_concat]
    exact ⟨fun hfew => reaches_protections hfew hreach, fun hfew => reaches_limits hfew hreach⟩

end run

/-! ## Three classes -/

section threeVC

/-- Yields 4, 2 and 1: the sample indices are 2 of four and 1 of two. -/
def threeVCList (first second : List ℚ) : List (VirtualClass ℚ) :=
  [⟨4, first, 0, 0⟩, ⟨2, second, 0, 0⟩, ⟨1, [1, 1, 1, 1], 0, 0⟩]

def threeVCCabin (first second : List ℚ) : LegCabin ℚ :=
  { twoLevelCabin with availabilityPool := 4, virtualClassList := threeVCList first second }

/-- The cumulated protections that are set, and the cumulated booking limits. -/
def levelsOf (lVCList : List (VirtualClass ℚ)) : List ℚ × List ℚ :=
  (lVCList.dropLast.map (·.cumulatedProtection), lVCList.map (·.cumulatedBookingLimit))

theorem optimalOptimisationByMCIntegration_nested_threeVC :
    ∃ out, optimalOptimisationByMCIntegration (threeVCCabin [-1, 2, 3, 4] [0, 1, 0, 0]) = .ok out ∧
      (out.virtualClassList.dropLast.map (·.cumulatedProtection)).Pairwise (· ≤ ·) ∧
      (out.virtualClassList.map (·.cumulatedBookingLimit)).Pairwise (· ≥ ·) := by
  obtain ⟨out, hout⟩ : ∃ out, optimalOptimisationByMCIntegration (threeVCCabin [-1, 2, 3, 4] [0, 1, 0, 0]) = .ok out := by
    have hok : (optimalOptimisationByMCIntegration (threeVCCabin [-1, 2, 3, 4] [0, 1, 0, 0])).toBool = true := by
      decide +kernel
    cases hrun : optimalOptimisationByMCIntegration (threeVCCabin [-1, 2, 3, 4] [0, 1, 0, 0]) with
    | ok out => exact ⟨out, rfl⟩
    | error fault => rw [hrun] at hok; cases hok
  have hnested := (optimalOptimisationByMCIntegration_nested
    (rfl : (threeVCCabin [-1, 2, 3, 4] [0, 1, 0, 0]).virtualClassList = threeVCList [-1, 2, 3, 4] [0, 1, 0, 0])).2 out hout
  exact ⟨out, hout, hnested.1 ⟨by decide +kernel, trivial⟩,
    hnested.2 ⟨by decide +kernel, by decide +kernel, trivial⟩⟩

/-- **One negative sample**, as many as the sample index of the second class: its protection is 2, that of the
first class 5/2. -/
theorem optimalOptimisationByMCIntegration_not_nested :
    ((threeVCList [1, 2, 3, 4] [-4, 1, 0, 0]).map (·.yield)).IsChain (· > ·) ∧
      (∀ vc ∈ threeVCList [1, 2, 3, 4] [-4, 1, 0, 0], 0 < vc.yield ∧ vc.generatedDemandVector.length = 4) ∧
      ∃ out, optimalOptimisationByMCIntegration (threeVCCabin [1, 2, 3, 4] [-4, 1, 0, 0]) = .ok out ∧
        ¬ (out.virtualClassList.dropLast.map (·.cumulatedProtection)).Pairwise (· ≤ ·) ∧
        ¬ (out.virtualClassList.map (·.cumulatedBookingLimit)).Pairwise (· ≥ ·) := by
  refine ⟨by decide +kernel, by decide +kernel, ?_⟩
  have hlevels : (optimalOptimisationByMCIntegration (threeVCCabin [1, 2, 3, 4] [-4, 1, 0, 0])).map
      (fun out => levelsOf out.virtualClassList) = .ok ([5 / 2, 2], [4, 3 / 2, 2]) := by decide +kernel
  cases hrun : optimalOptimisationByMCIntegration (threeVCCabin [1, 2, 3, 4] [-4, 1, 0, 0]) with
  | error fault =>
    rw [hrun] at hlevels
    cases hlevels
  | ok out =>
    rw [hrun] at hlevels
    have hout : levelsOf out.virtualClassList = ([5 / 2, 2], [4, 3 / 2, 2]) := Except.ok.inj hlevels
    rw [levelsOf, Prod.mk.injEq] at hout
    refine ⟨out, rfl, ?_, ?_⟩
    · rw [hout.1]
      decide +kernel
    · rw [hout.2]
      decide +kernel

end threeVC

end Rmol
