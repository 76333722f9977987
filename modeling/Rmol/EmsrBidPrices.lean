import Mathlib.Probability.Distributions.Gaussian.Real
import Rmol.Emsr
import Rmol.Lib.Allocation
/-!
# The EMSR bid price vector (`Emsr.cpp:108-152`)

| here | there |
| --- | --- |
| `computeEmsrValue`    | `EmsrUtils.cpp:80` |
| `emsrValueList`       | the values of all classes, seat by seat (`Emsr.cpp:128-135`) |
| `buildBidPriceVector` | sorting them and copying the first ones (`:137-151`) |

`ccdf mean stdDev x` is the complement of the cumulative distribution function of a normal distribution; the library
throws where the deviation is not positive.

The vector holds the highest values. A split of the seats takes the values of a class from its first seat on, so its
sum is the best of all splits where the values of the classes do not rise (`bidPriceVector_optimal`). They do where a
yield is negative: then the vector holds the values of the last seats (`bidPriceVector_not_optimal`).
-/

namespace Rmol

open Allocation

/-- What stops the building of a vector. -/
inductive BidPriceFault where
  /-- The deviation of `boost::math::normal` is not positive. -/
  | stdDev
  /-- `assert (lEmsrValueListSize >= lCabinCapacity)` (`Emsr.cpp:142`). -/
  | tooFewValues
deriving DecidableEq, Repr

/-! ## The model -/

section model
variable (ccdf : ℝ → ℝ → ℝ → ℝ)

noncomputable def computeEmsrValue (iCapacity : ℝ) (ioVirtualClass : Bucket) : Except BidPriceFault ℝ :=
  let lMean := ioVirtualClass.mean
  let lSD := ioVirtualClass.stdDev
  let lYield := ioVirtualClass.yield
  if lSD ≤ 0 then .error .stdDev
  else .ok (lYield * ccdf lMean lSD iCapacity)

noncomputable def emsrValueList (lCabinCapacity : ℕ) (lVirtualClassList : List Bucket) :
    Except BidPriceFault (List ℝ) := do
  let lValues ← lVirtualClassList.mapM fun lCurrentVC =>
    (List.range' 1 lCabinCapacity).mapM fun k : ℕ => computeEmsrValue ccdf k lCurrentVC
  return lValues.flatten

noncomputable def buildBidPriceVector (lCabinCapacity : ℕ) (lVirtualClassList : List Bucket) :
    Except BidPriceFault (List ℝ) := do
  let lEmsrValueList ← emsrValueList ccdf lCabinCapacity lVirtualClassList
  let lEmsrValueList := lEmsrValueList.insertionSort (· ≥ ·)
  if lEmsrValueList.length < lCabinCapacity then .error .tooFewValues
  else return lEmsrValueList.take lCabinCapacity

end model

/-! ## The values of a class -/

/-- The complement of a cumulative distribution function falls and is a probability. -/
structure ComplementCdf (ccdf : ℝ → ℝ → ℝ → ℝ) : Prop where
  anti : ∀ mean stdDev, Antitone (ccdf mean stdDev)
  nonneg : ∀ mean stdDev x, 0 ≤ ccdf mean stdDev x

section values
variable (ccdf : ℝ → ℝ → ℝ → ℝ)

/-- The expected marginal revenue of the `k`-th seat for a class. -/
noncomputable def emsr (c : Bucket) (k : ℕ) : ℝ := c.yield * ccdf c.mean c.stdDev k

/-- The first `C` of them. -/
noncomputable def emsrValues (C : ℕ) (c : Bucket) : List ℝ := (List.range' 1 C).map (emsr ccdf c)

/-- What a split of the seats among the classes earns. -/
noncomputable def splitValue (classes : List Bucket) (split : List ℕ) : ℝ :=
  (List.zipWith (fun c k => (emsrValues ccdf k c).sum) classes split).sum

/-- The splits of all `C` seats. -/
def splitValues (C : ℕ) (classes : List Bucket) : Set ℝ :=
  {v | ∃ split : List ℕ, split.length = classes.length ∧ split.sum = C ∧ v = splitValue ccdf classes split}

variable {ccdf} {c : Bucket} {classes : List Bucket} {C k : ℕ}

@[simp] theorem length_emsrValues : (emsrValues ccdf C c).length = C := by simp [emsrValues]

theorem take_emsrValues (h : k ≤ C) : (emsrValues ccdf C c).take k = emsrValues ccdf k c := by
  rw [emsrValues, ← List.map_take, List.take_range'_of_length_ge h]
  rfl

theorem emsrValues_falling (hccdf : ComplementCdf ccdf) (hc : 0 ≤ c.yield) :
    (emsrValues ccdf C c).Pairwise (· ≥ ·) := by
  rw [emsrValues, List.pairwise_map]
  refine (List.pairwise_lt_range' 1).imp fun hlt => ?_
  exact mul_le_mul_of_nonneg_left (hccdf.anti _ _ (Nat.cast_le.2 hlt.le)) hc

theorem emsrValues_nonneg (hccdf : ComplementCdf ccdf) (hc : 0 ≤ c.yield) : ∀ v ∈ emsrValues ccdf C c, 0 ≤ v := by
  intro v hv
  obtain ⟨k, -, rfl⟩ := List.mem_map.1 hv
  exact mul_nonneg hc (hccdf.nonneg _ _ _)

theorem emsrValues_nonpos (hccdf : ComplementCdf ccdf) (hc : c.yield ≤ 0) : ∀ v ∈ emsrValues ccdf C c, v ≤ 0 := by
  intro v hv
  obtain ⟨k, -, rfl⟩ := List.mem_map.1 hv
  exact mul_nonpos_of_nonpos_of_nonneg hc (hccdf.nonneg _ _ _)

/-- A split takes the values of its seats. -/
theorem sum_taken_emsrValues : ∀ (classes : List Bucket) (split : List ℕ), split.sum ≤ C →
    (taken (classes.map (emsrValues ccdf C)) split).sum = splitValue ccdf classes split
  | [], _, _ => rfl
  | _ :: _, [], _ => rfl
  | c :: classes, k :: split, h => by
    rw [List.sum_cons] at h
    have hrest := sum_taken_emsrValues classes split (by omega)
    rw [taken, List.map_cons, List.zipWith_cons_cons, List.flatten_cons, List.sum_append, take_emsrValues (by omega),
      ← taken, hrest, splitValue, splitValue, List.zipWith_cons_cons, List.sum_cons]

end values

/-! ## The vector -/

section vector
variable {ccdf : ℝ → ℝ → ℝ → ℝ} {classes : List Bucket} {C : ℕ}

theorem computeEmsrValue_ok {c : Bucket} (hc : 0 < c.stdDev) (k : ℕ) :
    computeEmsrValue ccdf k c = .ok (emsr ccdf c k) := by
  simp only [computeEmsrValue, if_neg (not_le.2 hc), emsr]

theorem emsrValueList_ok (hstdDev : ∀ c ∈ classes, 0 < c.stdDev) :
    emsrValueList ccdf C classes = .ok (classes.map (emsrValues ccdf C)).flatten := by
  have hclass : ∀ c ∈ classes, ((List.range' 1 C).mapM fun k : ℕ => computeEmsrValue ccdf k c) =
      .ok (emsrValues ccdf C c) := fun c hc => mapM_eq_ok fun k _ => computeEmsrValue_ok (hstdDev c hc) k
  rw [emsrValueList, mapM_eq_ok hclass]
  rfl

/-- The values of one class are enough for all seats. -/
theorem le_length_merged (hne : classes ≠ []) : C ≤ (merged (classes.map (emsrValues ccdf C))).length := by
  obtain ⟨c, rest, rfl⟩ := List.exists_cons_of_ne_nil hne
  rw [(merged_perm _).length_eq, List.map_cons, List.flatten_cons, List.length_append, length_emsrValues]
  exact Nat.le_add_right _ _

/-- **The vector** is the first values of all classes together. -/
theorem buildBidPriceVector_ok (hstdDev : ∀ c ∈ classes, 0 < c.stdDev) (hne : classes ≠ []) :
    buildBidPriceVector ccdf C classes = .ok ((merged (classes.map (emsrValues ccdf C))).take C) := by
  simp only [buildBidPriceVector, emsrValueList_ok hstdDev, ok_bind]
  exact if_neg (not_lt.2 (le_length_merged hne))

theorem buildBidPriceVector_falling (hstdDev : ∀ c ∈ classes, 0 < c.stdDev) (hne : classes ≠ []) :
    ∃ lBidPriceVector, buildBidPriceVector ccdf C classes = .ok lBidPriceVector ∧
      lBidPriceVector.Pairwise (· ≥ ·) ∧ lBidPriceVector.length = C := by
  refine ⟨_, buildBidPriceVector_ok hstdDev hne, (merged_pairwise _).sublist (List.take_sublist _ _), ?_⟩
  rw [List.length_take, Nat.min_eq_left (le_length_merged hne)]

theorem splitValues_eq : splitValues ccdf C classes = {v | ∃ ks : List ℕ,
    ks.length = (classes.map (emsrValues ccdf C)).length ∧ ks.sum = C ∧
      v = (taken (classes.map (emsrValues ccdf C)) ks).sum} := by
  ext v
  constructor
  · rintro ⟨split, hlen, hsum, rfl⟩
    exact ⟨split, by rw [hlen, List.length_map], hsum, (sum_taken_emsrValues classes split hsum.le).symm⟩
  · rintro ⟨ks, hlen, hsum, rfl⟩
    exact ⟨ks, by rw [hlen, List.length_map], hsum, sum_taken_emsrValues classes ks hsum.le⟩

/-- The values of classes with yields of at least zero do not rise, and are above the others. -/
theorem isGreatest_of_nonneg (hccdf : ComplementCdf ccdf) (hsome : ∃ c ∈ classes, 0 ≤ c.yield) :
    IsGreatest (splitValues ccdf C classes) ((merged (classes.map (emsrValues ccdf C))).take C).sum := by
  classical
  -- the lists of these classes, and those of classes that are never requested
  have hgood : ∀ c : Bucket, 0 ≤ c.yield → (emsrValues ccdf C c).Pairwise (· ≥ ·) ∧ ∀ v ∈ emsrValues ccdf C c, 0 ≤ v :=
    fun c hc => ⟨emsrValues_falling hccdf hc, emsrValues_nonneg hccdf hc⟩
  rw [splitValues_eq]
  refine isGreatest_sum_take (fun l => decide (l.Pairwise (· ≥ ·) ∧ ∀ v ∈ l, 0 ≤ v)) ?_ ?_ ?_ ?_
  · obtain ⟨c, hc, hyield⟩ := hsome
    exact ⟨_, List.mem_map_of_mem hc, decide_eq_true (hgood c hyield)⟩
  · exact fun l _ hl => (of_decide_eq_true hl).1
  · intro l _ hl a ha m hm hbad b hb
    obtain ⟨c, -, rfl⟩ := List.mem_map.1 hm
    have hneg : ¬ 0 ≤ c.yield := fun hc => of_decide_eq_false hbad (hgood c hc)
    exact (emsrValues_nonpos hccdf (not_le.1 hneg).le b hb).trans ((of_decide_eq_true hl).2 a ha)
  · intro l hl
    obtain ⟨c, -, rfl⟩ := List.mem_map.1 hl
    exact length_emsrValues.ge

/-- **The vector is an optimal split** of the seats, if there is a single class or one with a yield of at least zero. -/
theorem bidPriceVector_optimal (hccdf : ComplementCdf ccdf) (hne : classes ≠ []) (hstdDev : ∀ c ∈ classes, 0 < c.stdDev)
    (C : ℕ) : ∃ lBidPriceVector, buildBidPriceVector ccdf C classes = .ok lBidPriceVector ∧
      lBidPriceVector.Pairwise (· ≥ ·) ∧ lBidPriceVector.length = C ∧
      (classes.length = 1 ∨ (∃ c ∈ classes, 0 ≤ c.yield) →
        IsGreatest (splitValues ccdf C classes) lBidPriceVector.sum) := by
  obtain ⟨lBidPriceVector, hbuild, hfalling, hlen⟩ : ∃ lBidPriceVector,
      buildBidPriceVector ccdf C classes = .ok lBidPriceVector ∧ _ := buildBidPriceVector_falling hstdDev hne
  refine ⟨lBidPriceVector, hbuild, hfalling, hlen, ?_⟩
  obtain rfl := Except.ok.inj ((buildBidPriceVector_ok hstdDev hne).symm.trans hbuild)
  rintro (hone | hsome)
  · obtain ⟨c, rfl⟩ := List.length_eq_one_iff.1 hone
    rw [splitValues_eq]
    exact isGreatest_sum_take_single length_emsrValues
  · exact isGreatest_of_nonneg hccdf hsome

end vector

/-! ### The normal distribution -/

section normal

/-- The complement of the cumulative distribution function. -/
noncomputable def normalComplement (mean stdDev x : ℝ) : ℝ :=
  (ProbabilityTheory.gaussianReal mean (Real.nnabs stdDev ^ 2)).real (Set.Ioi x)

theorem normalComplement_complementCdf : ComplementCdf normalComplement where
  anti := fun _ _ _ _ h => MeasureTheory.measureReal_mono (Set.Ioi_subset_Ioi h)
  nonneg := fun _ _ _ => MeasureTheory.measureReal_nonneg

theorem normalComplement_lt {mean stdDev x y : ℝ} (hsd : stdDev ≠ 0) (h : x < y) :
    normalComplement mean stdDev y < normalComplement mean stdDev x := by
  have hvar : Real.nnabs stdDev ^ 2 ≠ 0 := pow_ne_zero 2 (by simpa using hsd)
  have hsplit : Set.Ioi x = Set.Ioc x y ∪ Set.Ioi y := (Set.Ioc_union_Ioi_eq_Ioi h.le).symm
  have hdisj : Disjoint (Set.Ioc x y) (Set.Ioi y) :=
    Set.disjoint_left.2 fun _ hxy hy => absurd hxy.2 (not_le.2 hy)
  have hpos : 0 < (ProbabilityTheory.gaussianReal mean (Real.nnabs stdDev ^ 2)).real (Set.Ioc x y) := by
    refine ENNReal.toReal_pos (fun hzero => ?_) (MeasureTheory.measure_ne_top _ _)
    have hvolume := ProbabilityTheory.gaussianReal_absolutelyContinuous' mean hvar hzero
    rw [Real.volume_Ioc, ENNReal.ofReal_eq_zero] at hvolume
    exact absurd hvolume (not_le.2 (sub_pos.2 h))
  unfold normalComplement
  rw [hsplit, MeasureTheory.measureReal_union hdisj measurableSet_Ioi]
  exact lt_add_of_pos_left _ hpos

/-- Two classes of the yield `y`, mean and deviation 1. -/
def sameClasses (y : ℝ) : List Bucket := [⟨1, 1, y, 0, 0⟩, ⟨1, 1, y, 0, 0⟩]

theorem bidPriceVector_optimal_sameClasses :
    ∃ lBidPriceVector, buildBidPriceVector normalComplement 2 (sameClasses 1) = .ok lBidPriceVector ∧
      lBidPriceVector.Pairwise (· ≥ ·) ∧ lBidPriceVector.length = 2 ∧
      IsGreatest (splitValues normalComplement 2 (sameClasses 1)) lBidPriceVector.sum := by
  have hstdDev : ∀ c ∈ sameClasses 1, 0 < c.stdDev := by simp [sameClasses]
  obtain ⟨bpv, hok, hfalling, hlen, hbest⟩ := bidPriceVector_optimal normalComplement_complementCdf
    (List.cons_ne_nil _ _) hstdDev 2
  exact ⟨bpv, hok, hfalling, hlen, hbest (Or.inr ⟨_, List.mem_cons_self, zero_le_one⟩)⟩

/-- The values of the first two seats. -/
theorem emsrValues_sameClasses : ∀ c ∈ sameClasses (-1),
    emsrValues normalComplement 0 c = [] ∧ emsrValues normalComplement 1 c = [-normalComplement 1 1 1] ∧
      emsrValues normalComplement 2 c = [-normalComplement 1 1 1, -normalComplement 1 1 2] := by
  simp [sameClasses, emsrValues, emsr, List.range'_succ]

/-- With the yield -1 the vector holds the second seat of both classes. -/
theorem bidPriceVector_not_optimal :
    ∃ lBidPriceVector, buildBidPriceVector normalComplement 2 (sameClasses (-1)) = .ok lBidPriceVector ∧
      ¬ IsGreatest (splitValues normalComplement 2 (sameClasses (-1))) lBidPriceVector.sum := by
  have hstdDev : ∀ c ∈ sameClasses (-1), 0 < c.stdDev := by simp [sameClasses]
  have hlt : normalComplement 1 1 2 < normalComplement 1 1 1 := normalComplement_lt one_ne_zero one_lt_two
  refine ⟨_, buildBidPriceVector_ok hstdDev (List.cons_ne_nil _ _), fun hbest => ?_⟩
  obtain ⟨h0, h1, h2⟩ := emsrValues_sameClasses _ List.mem_cons_self
  have hvalues : (sameClasses (-1)).map (emsrValues normalComplement 2) =
      [[-normalComplement 1 1 1, -normalComplement 1 1 2], [-normalComplement 1 1 1, -normalComplement 1 1 2]] :=
    List.map_eq_replicate_iff.2 fun c hc => (emsrValues_sameClasses c hc).2.2
  have hseconds : [-normalComplement 1 1 2, -normalComplement 1 1 2].Subperm
      (merged ((sameClasses (-1)).map (emsrValues normalComplement 2))) := by
    have hsecond : [-normalComplement 1 1 2].Sublist [-normalComplement 1 1 1, -normalComplement 1 1 2] :=
      List.sublist_cons_self _ _
    refine List.Subperm.trans (List.Sublist.subperm ?_) (merged_perm _).symm.subperm
    rw [hvalues]
    exact hsecond.append hsecond
  have hvector := sum_le_sum_take_of_subperm (merged_pairwise _) hseconds
  obtain ⟨split, hlen, hsum, hsplit⟩ := hbest.1
  obtain ⟨i, j, rfl⟩ := List.length_eq_two.1 hlen
  rw [List.length_cons, List.length_singleton, hsplit] at hvector
  have hsum' : i + j = 2 := by simpa using hsum
  -- every split has the first seat of some class
  obtain ⟨rfl, rfl⟩ | ⟨rfl, rfl⟩ | ⟨rfl, rfl⟩ : i = 0 ∧ j = 2 ∨ i = 1 ∧ j = 1 ∨ i = 2 ∧ j = 0 := by omega
  all_goals
    simp only [splitValue, sameClasses, List.zipWith_cons_cons, List.zipWith_nil_left, h0, h1, h2, List.sum_cons,
      List.sum_nil] at hvector
    linarith

end normal

end Rmol
