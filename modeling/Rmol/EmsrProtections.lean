import Rmol.EmsrBidPrices
import Rmol.Lib.OrderStatistics
/-!
# EMSR protections (`Emsr.cpp:154-173`)

| here | there |
| --- | --- |
| `capacityLoop`                | the search in the bid price vector (`:166`) |
| `bidPriceLevels`              | the loop over the classes (`:157`) |
| `heuristicOptimisationByEmsr` | `Emsr.cpp:108` |

The loop moves `itVC` on in the middle of its body, unless it is at the end, and reads the class that it points to
then. For the last class that is the end of the list: `if (itVC != lVirtualClassList.end())` stands before the
increment, not after it. So the loop leaves the list for every list that it enters
(`heuristicOptimisationByEmsr_levels_iff`). What it has set until then are the levels of the bid price vector.
-/

namespace Rmol

open OrderStatistics

/-! ## The model -/

/-- The leg-cabin after a run. `dereferencesEnd` says that the loop has left the class list; the classes are those that
it had set until then. -/
structure EmsrRun where
  lBidPriceVector : List ℝ
  lVirtualClassList : List Bucket
  dereferencesEnd : Bool

section model
variable (ccdf : ℝ → ℝ → ℝ → ℝ)

/-- The vector has an entry for every index below `lCabinCapacity`, so that `at` does not throw. -/
noncomputable def capacityLoop (lCabinCapacity : ℕ) (lBidPriceVector : List ℝ) (lNextYield : ℝ) (lCapacityIndex : ℕ) : ℕ :=
  if h : lCapacityIndex < lCabinCapacity ∧ lNextYield < lBidPriceVector.getD lCapacityIndex 0 then
    capacityLoop lCabinCapacity lBidPriceVector lNextYield (lCapacityIndex + 1)
  else lCapacityIndex
termination_by lCabinCapacity - lCapacityIndex
decreasing_by exact Nat.sub_succ_lt_self _ _ h.1

/-- The loop from a class on, with the classes below it. -/
noncomputable def bidPriceLevels (lCapacity : ℝ) (lCabinCapacity : ℕ) (lBidPriceVector : List ℝ) :
    ℕ → Bucket → List Bucket → List Bucket × Bool
  | lCapacityIndex, lCurrentVC, lNextVC :: rest =>
    let lNextYield := lNextVC.yield
    let lCapacityIndex := capacityLoop lCabinCapacity lBidPriceVector lNextYield lCapacityIndex
    let lower := bidPriceLevels lCapacity lCabinCapacity lBidPriceVector lCapacityIndex
      { lNextVC with cumulatedBookingLimit := lCapacity - lCapacityIndex } rest
    ({ lCurrentVC with cumulatedProtection := lCapacityIndex } :: lower.1, lower.2)
  -- `itVC` has reached the end and is dereferenced
  | _, lCurrentVC, [] => ([lCurrentVC], true)

noncomputable def heuristicOptimisationByEmsr (lCapacity : ℝ) (lVirtualClassList : List Bucket) :
    Except BidPriceFault EmsrRun := do
  let lCabinCapacity := ⌊lCapacity⌋₊
  let lBidPriceVector ← buildBidPriceVector ccdf lCabinCapacity lVirtualClassList
  match lVirtualClassList with
  | lFirstVC :: lNextVC :: rest =>
    let levels := bidPriceLevels lCapacity lCabinCapacity lBidPriceVector 0 lFirstVC (lNextVC :: rest)
    return ⟨lBidPriceVector, levels.1, levels.2⟩
  | _ => return ⟨lBidPriceVector, lVirtualClassList, false⟩

end model

/-- The number of bid prices above a yield. -/
noncomputable def pricesAbove (lBidPriceVector : List ℝ) (yield : ℝ) : ℕ := lBidPriceVector.countP fun p => yield < p

/-- Every class but the last protects as many seats as there are bid prices above the yield of the next class, which
has what that leaves of the capacity. -/
structure FollowsBidPrices (C : ℝ) (classes : List Bucket) (run : EmsrRun) : Prop where
  protections : run.lVirtualClassList.dropLast.map Bucket.cumulatedProtection =
    classes.tail.map fun c => (pricesAbove run.lBidPriceVector c.yield : ℝ)
  limits : run.lVirtualClassList.tail.map Bucket.cumulatedBookingLimit =
    classes.tail.map fun c => C - (pricesAbove run.lBidPriceVector c.yield : ℝ)

/-! ## The levels -/

section levels
variable {lBidPriceVector : List ℝ} {C : ℕ} {y y' : ℝ}

theorem pricesAbove_anti (h : y ≤ y') : pricesAbove lBidPriceVector y' ≤ pricesAbove lBidPriceVector y := by
  refine List.countP_mono_left fun p _ hp => ?_
  simp only [decide_eq_true_eq] at hp ⊢
  exact h.trans_lt hp

/-- The prices above a yield are the first ones. -/
theorem lt_pricesAbove_iff (hfalling : lBidPriceVector.Pairwise (· ≥ ·)) {i : ℕ} (hi : i < lBidPriceVector.length) :
    i < pricesAbove lBidPriceVector y ↔ y < lBidPriceVector[i] :=
  @lt_countP_iff ℝᵒᵈ _ lBidPriceVector y hfalling i hi

/-- The search ends behind them, if it starts no further on. -/
theorem capacityLoop_eq (hfalling : lBidPriceVector.Pairwise (· ≥ ·)) (hlen : lBidPriceVector.length = C) {i : ℕ}
    (hi : i ≤ pricesAbove lBidPriceVector y) : capacityLoop C lBidPriceVector y i = pricesAbove lBidPriceVector y := by
  have hle : pricesAbove lBidPriceVector y ≤ C := by
    rw [← hlen]
    exact List.countP_le_length
  obtain ⟨n, hn⟩ := Nat.exists_eq_add_of_le hi
  induction n generalizing i with
  | zero =>
    have hstop : ¬ (i < C ∧ y < lBidPriceVector.getD i 0) := by
      rintro ⟨hlt, hprice⟩
      rw [List.getD_eq_getElem _ _ (by omega)] at hprice
      have := (lt_pricesAbove_iff hfalling (by omega)).2 hprice
      omega
    rw [capacityLoop, dif_neg hstop, hn, Nat.add_zero]
  | succ n ih =>
    have hlt : i < lBidPriceVector.length := by omega
    have hgo : i < C ∧ y < lBidPriceVector.getD i 0 := by
      rw [List.getD_eq_getElem _ _ hlt]
      exact ⟨by omega, (lt_pricesAbove_iff hfalling hlt).1 (by omega)⟩
    rw [capacityLoop, dif_pos hgo]
    exact ih (by omega) (by omega)

/-- **The loop** sets the levels of the bid price vector and leaves the list. -/
theorem bidPriceLevels_spec (hfalling : lBidPriceVector.Pairwise (· ≥ ·)) (hlen : lBidPriceVector.length = C)
    (lCapacity : ℝ) : ∀ (rest : List Bucket) (i : ℕ) (current : Bucket),
      rest.Pairwise (fun c d => d.yield < c.yield) → (∀ c ∈ rest, i ≤ pricesAbove lBidPriceVector c.yield) →
      (bidPriceLevels lCapacity C lBidPriceVector i current rest).2 = true ∧
      (bidPriceLevels lCapacity C lBidPriceVector i current rest).1.dropLast.map Bucket.cumulatedProtection =
        rest.map (fun c => (pricesAbove lBidPriceVector c.yield : ℝ)) ∧
      (bidPriceLevels lCapacity C lBidPriceVector i current rest).1.map Bucket.cumulatedBookingLimit =
        current.cumulatedBookingLimit :: rest.map fun c => lCapacity - (pricesAbove lBidPriceVector c.yield : ℝ)
  | [], i, current, _, _ => ⟨rfl, rfl, rfl⟩
  | next :: rest, i, current, hdec, hi => by
    rw [List.pairwise_cons] at hdec
    have hindex := capacityLoop_eq hfalling hlen (hi next List.mem_cons_self)
    obtain ⟨hend, hprotections, hlimits⟩ := bidPriceLevels_spec hfalling hlen lCapacity rest
      (pricesAbove lBidPriceVector next.yield)
      { next with cumulatedBookingLimit := lCapacity - pricesAbove lBidPriceVector next.yield } hdec.2
      fun c hc => pricesAbove_anti (hdec.1 c hc).le
    simp only [bidPriceLevels, hindex]
    refine ⟨hend, ?_, ?_⟩
    · have hne : (bidPriceLevels lCapacity C lBidPriceVector (pricesAbove lBidPriceVector next.yield)
          { next with cumulatedBookingLimit := lCapacity - pricesAbove lBidPriceVector next.yield } rest).1 ≠ [] := by
        intro hnil
        rw [hnil] at hlimits
        cases hlimits
      rw [List.dropLast_cons_of_ne_nil hne, List.map_cons, hprotections, List.map_cons]
    · rw [List.map_cons, hlimits, List.map_cons]

end levels

/-! ## A run -/

section run
variable {ccdf : ℝ → ℝ → ℝ → ℝ} {classes : List Bucket} {C : ℕ}

/-- A run on one class or more sets the levels, and leaves a list of two or more. -/
theorem heuristicOptimisationByEmsr_ok (hdec : classes.Pairwise fun c d => d.yield < c.yield)
    (hstdDev : ∀ c ∈ classes, 0 < c.stdDev) (hne : classes ≠ []) :
    ∃ run, heuristicOptimisationByEmsr ccdf C classes = .ok run ∧
      buildBidPriceVector ccdf C classes = .ok run.lBidPriceVector ∧ FollowsBidPrices C classes run ∧
      (run.dereferencesEnd = false ↔ classes.length = 1) := by
  obtain ⟨lBidPriceVector, hbuild, hfalling, hlen⟩ : ∃ lBidPriceVector,
      buildBidPriceVector ccdf C classes = .ok lBidPriceVector ∧ _ := buildBidPriceVector_falling hstdDev hne
  match classes, hne with
  | [c], _ =>
    refine ⟨⟨lBidPriceVector, [c], false⟩, ?_, hbuild, ⟨rfl, rfl⟩, by simp⟩
    simp only [heuristicOptimisationByEmsr, Nat.floor_natCast, hbuild, ok_bind, except_pure]
  | lFirstVC :: lNextVC :: rest, _ =>
    obtain ⟨hend, hprotections, hlimits⟩ := bidPriceLevels_spec hfalling hlen (C : ℝ) (lNextVC :: rest) 0 lFirstVC
      (List.pairwise_cons.1 hdec).2 fun _ _ => Nat.zero_le _
    refine ⟨⟨lBidPriceVector, (bidPriceLevels C C lBidPriceVector 0 lFirstVC (lNextVC :: rest)).1, true⟩, ?_, hbuild,
      ⟨hprotections, ?_⟩, by simp⟩
    · simp only [heuristicOptimisationByEmsr, Nat.floor_natCast, hbuild, ok_bind, except_pure, hend]
    · rw [List.map_tail, hlimits]
      rfl

/-- Without a class there are no values for the first seat. -/
theorem heuristicOptimisationByEmsr_nil : heuristicOptimisationByEmsr ccdf C [] =
    if C = 0 then .ok ⟨[], [], false⟩ else .error .tooFewValues := by
  have hvalues : emsrValueList ccdf C [] = .ok [] := rfl
  simp only [heuristicOptimisationByEmsr, Nat.floor_natCast, buildBidPriceVector, hvalues, ok_bind,
    List.insertionSort_nil, List.length_nil]
  by_cases hC : C = 0
  · subst hC
    rfl
  · rw [if_pos (Nat.pos_of_ne_zero hC), if_neg hC, error_bind]

/-- **The levels without leaving the list**: a run sets the levels of the bid price vector, for a list of two classes or
more up to the point where it leaves the list. -/
theorem heuristicOptimisationByEmsr_levels_iff (ccdf : ℝ → ℝ → ℝ → ℝ) (C : ℕ)
    (hdec : classes.Pairwise fun c d => d.yield < c.yield) (hstdDev : ∀ c ∈ classes, 0 < c.stdDev) :
    ((∃ run, heuristicOptimisationByEmsr ccdf C classes = .ok run ∧ run.dereferencesEnd = false ∧
        FollowsBidPrices C classes run) ↔ classes.length = 1 ∨ classes = [] ∧ C = 0) ∧
      (classes ≠ [] → ∃ run, heuristicOptimisationByEmsr ccdf C classes = .ok run ∧
        buildBidPriceVector ccdf C classes = .ok run.lBidPriceVector ∧ FollowsBidPrices C classes run) := by
  by_cases hne : classes = []
  · subst hne
    refine ⟨?_, fun h => absurd rfl h⟩
    rw [heuristicOptimisationByEmsr_nil]
    by_cases hC : C = 0
    · rw [if_pos hC]
      exact ⟨fun _ => .inr ⟨rfl, hC⟩, fun _ => ⟨_, rfl, rfl, rfl, rfl⟩⟩
    · rw [if_neg hC]
      refine ⟨?_, ?_⟩
      · rintro ⟨run, hrun, -⟩
        cases hrun
      · rintro (hone | ⟨-, hzero⟩)
        · cases hone
        · exact absurd hzero hC
  · obtain ⟨run, hrun, hbuild, hfollows, hend⟩ := heuristicOptimisationByEmsr_ok (C := C) hdec hstdDev hne
    refine ⟨⟨?_, ?_⟩, fun _ => ⟨run, hrun, hbuild, hfollows⟩⟩
    · rintro ⟨run', hrun', hinside, -⟩
      obtain rfl := Except.ok.inj (hrun.symm.trans hrun')
      exact .inl (hend.1 hinside)
    · rintro (hone | ⟨hnil, -⟩)
      · exact ⟨run, hrun, hend.2 hone, hfollows⟩
      · exact absurd hnil hne

end run

/-! ### Two classes of the yields 2 and 1 -/

section twoYields

def twoYields : List Bucket := [⟨1, 1, (2 : ℕ), 0, 0⟩, ⟨1, 1, (1 : ℕ), 0, 0⟩]

theorem twoYields_decreasing : twoYields.Pairwise fun c d => d.yield < c.yield := by
  norm_num [twoYields]

theorem twoYields_stdDev : ∀ c ∈ twoYields, 0 < c.stdDev := by simp [twoYields]

theorem heuristicOptimisationByEmsr_levels_iff_twoYields :
    ((∃ run, heuristicOptimisationByEmsr normalComplement (3 : ℕ) twoYields = .ok run ∧ run.dereferencesEnd = false ∧
        FollowsBidPrices (3 : ℕ) twoYields run) ↔ twoYields.length = 1 ∨ twoYields = [] ∧ 3 = 0) ∧
      (twoYields ≠ [] → ∃ run, heuristicOptimisationByEmsr normalComplement (3 : ℕ) twoYields = .ok run ∧
        buildBidPriceVector normalComplement 3 twoYields = .ok run.lBidPriceVector ∧
        FollowsBidPrices (3 : ℕ) twoYields run) :=
  heuristicOptimisationByEmsr_levels_iff normalComplement 3 twoYields_decreasing twoYields_stdDev

theorem heuristicOptimisationByEmsr_dereferencesEnd : ∃ run,
    heuristicOptimisationByEmsr normalComplement (3 : ℕ) twoYields = .ok run ∧ run.dereferencesEnd = true := by
  obtain ⟨run, hrun, -, -, hend⟩ : ∃ run, heuristicOptimisationByEmsr normalComplement (3 : ℕ) twoYields = .ok run ∧ _ :=
    heuristicOptimisationByEmsr_ok twoYields_decreasing twoYields_stdDev (List.cons_ne_nil _ _)
  refine ⟨run, hrun, ?_⟩
  cases hleaves : run.dereferencesEnd with
  | true => rfl
  | false => exact absurd (hend.1 hleaves) (by simp [twoYields])

end twoYields

end Rmol
