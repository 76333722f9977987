import Rmol.Emsr
import Rmol.Lib.Runs
/-!
# The aggregated class of EMSR-b (`Emsr.cpp:83-104`, `EmsrUtils.cpp:18-76`)

`LevelPass` is one pass of the loop of either heuristic, from the class whose protection is computed to the next one;
a pass is made only where that protection is computed without a fault. A loop that ends well made these passes
(`setLevels_reaches`), and one that stops has come to a class whose protection it cannot compute
(`setLevels_error`).

EMSR-b keeps the classes above as one class, which each pass overwrites: the mean is added, the deviation is the root
of a sum of squares of roots, the yield is the average of an average and a yield. `QuantileDomain` is what the
quantile needs of it and `Emsr` does not check.
-/

namespace Rmol

open Runs

/-! ## Passes of the loop -/

/-- The class whose protection is next, what the loop knows of the classes above it, and the classes before and below. -/
structure LevelState (σ : Type) where
  processed : List Bucket
  above : σ
  current : Bucket
  below : List Bucket

section passes
variable {σ : Type} (protection : σ → Bucket → Except EmsrFault ℝ) (aggregate : σ → Bucket → σ) (lCabinCapacity : ℝ)

inductive LevelPass : LevelState σ → LevelState σ → Prop
  | pass {processed rest : List Bucket} {above : σ} {lCurrentVC lNextVC : Bucket} {lProtectionLevel : ℝ} :
      protection above lNextVC = .ok lProtectionLevel →
      LevelPass ⟨processed, above, lCurrentVC, lNextVC :: rest⟩
        ⟨processed ++ [{ lCurrentVC with cumulatedProtection := lProtectionLevel }], aggregate above lNextVC,
          { lNextVC with cumulatedBookingLimit := lCabinCapacity - lProtectionLevel }, rest⟩

variable {protection aggregate lCabinCapacity}

/-- A loop that ends well made a pass for each class below. -/
theorem setLevels_reaches : ∀ {rest : List Bucket} {above : σ} {lCurrentVC : Bucket} {out : List Bucket},
    setLevels protection aggregate lCabinCapacity above lCurrentVC rest = .ok out → ∀ processed : List Bucket,
    ∃ s, Reaches (LevelPass protection aggregate lCabinCapacity) ⟨processed, above, lCurrentVC, rest⟩ rest.length s ∧
      s.below = [] ∧ processed ++ out = s.processed ++ [s.current]
  | [], above, lCurrentVC, out, h, processed => by
    obtain rfl := Except.ok.inj h
    exact ⟨_, .start, rfl, rfl⟩
  | lNextVC :: rest, above, lCurrentVC, out, h, processed => by
    obtain ⟨lProtectionLevel, hlevel, h⟩ := bind_eq_ok.1 h
    obtain ⟨lower, hlower, h⟩ := bind_eq_ok.1 h
    obtain rfl := Except.ok.inj h
    obtain ⟨s, hreach, hbelow, hclasses⟩ := setLevels_reaches hlower
      (processed ++ [{ lCurrentVC with cumulatedProtection := lProtectionLevel }])
    exact ⟨s, hreach.head (.pass hlevel), hbelow, by simpa using hclasses⟩

/-- A loop that stops has come to a class whose protection it cannot compute. -/
theorem setLevels_error : ∀ {rest : List Bucket} {above : σ} {lCurrentVC : Bucket} {fault : EmsrFault},
    setLevels protection aggregate lCabinCapacity above lCurrentVC rest = .error fault →
    ∀ processed : List Bucket, ∃ n s lNextVC lower,
      Reaches (LevelPass protection aggregate lCabinCapacity) ⟨processed, above, lCurrentVC, rest⟩ n s ∧
      s.below = lNextVC :: lower ∧ protection s.above lNextVC = .error fault
  | [], above, lCurrentVC, fault, h, processed => by cases h
  | lNextVC :: rest, above, lCurrentVC, fault, h, processed => by
    rw [setLevels] at h
    rcases bind_eq_error.1 h with hlevel | ⟨lProtectionLevel, hlevel, h⟩
    · exact ⟨0, _, lNextVC, rest, .start, rfl, hlevel⟩
    · rcases bind_eq_error.1 h with hlower | ⟨lower, -, hdone⟩
      · obtain ⟨n, s, next, lower, hreach, hbelow, hfault⟩ := setLevels_error hlower
          (processed ++ [{ lCurrentVC with cumulatedProtection := lProtectionLevel }])
        exact ⟨n + 1, s, next, lower, hreach.head (.pass hlevel), hbelow, hfault⟩
      · cases hdone

end passes

/-! ## The average of yields -/

section average
variable {higher : List Bucket} {y : ℝ}

theorem le_averageYield (hne : higher ≠ []) (hmean : ∀ c ∈ higher, 0 < c.mean) (h : ∀ c ∈ higher, y ≤ c.yield) :
    y ≤ averageYield higher := by
  rw [averageYield, le_div_iff₀ (totalMean_pos hne hmean), totalMean, ← List.sum_map_mul_left]
  exact List.sum_le_sum fun c hc => mul_le_mul_of_nonneg_right (h c hc) (hmean c hc).le

theorem averageYield_le (hne : higher ≠ []) (hmean : ∀ c ∈ higher, 0 < c.mean) (h : ∀ c ∈ higher, c.yield ≤ y) :
    averageYield higher ≤ y := by
  rw [averageYield, div_le_iff₀ (totalMean_pos hne hmean), totalMean, ← List.sum_map_mul_left]
  exact List.sum_le_sum fun c hc => mul_le_mul_of_nonneg_right (h c hc) (hmean c hc).le

end average

/-! ## The domain of the quantile -/

/-- The aggregated class of some classes, of which the first has the highest yield and the last the lowest, and a next
class: the demand of the normal distribution and the ratio of its quantile. -/
structure QuantileDomain (aggregated : Bucket) (higher : List Bucket) (next : Bucket) : Prop where
  mean : aggregated.mean = totalMean higher
  variance : aggregated.stdDev ^ 2 = totalVariance higher
  yield : aggregated.yield = averageYield higher
  yield_ge : ∀ lowest ∈ higher.getLast?, lowest.yield ≤ aggregated.yield
  yield_le : ∀ highest ∈ higher.head?, aggregated.yield ≤ highest.yield
  /-- `assert (lAggreatedYield != 0)` (`EmsrUtils.cpp:63`). -/
  yield_ne_zero : aggregated.yield ≠ 0
  stdDev_pos : 0 < aggregated.stdDev
  ratio : next.yield / aggregated.yield ∈ Set.Ioo 0 1

section domain
variable {higher : List Bucket} {next aggregated : Bucket}

/-- The aggregated class of classes above the next one is in the domain. -/
theorem Aggregates.quantileDomain (h : Aggregates aggregated higher) (hne : higher ≠ [])
    (hclasses : IsClassList (higher ++ [next])) : QuantileDomain aggregated higher next := by
  have hpositive : ∀ c ∈ higher, 0 < c.yield ∧ 0 < c.mean ∧ 0 < c.stdDev :=
    fun c hc => hclasses.positive c (List.mem_append_left _ hc)
  have hmean : ∀ c ∈ higher, 0 < c.mean := fun c hc => (hpositive c hc).2.1
  have hnext := (hclasses.positive next (List.mem_append_right _ List.mem_cons_self)).1
  have hvariance : 0 < totalVariance higher := totalVariance_pos hne fun c hc => (hpositive c hc).2.2
  have hlt : next.yield < aggregated.yield := by
    rw [h.yield]
    exact lt_averageYield hne hmean fun c hc => hclasses.lower hc
  have hfalling : higher.Pairwise fun c d => d.yield < c.yield := hclasses.of_append.decreasing
  refine ⟨h.mean, ?_, h.yield, fun lowest hlowest => ?_, fun highest hhighest => ?_, (hnext.trans hlt).ne', ?_,
    ratio_mem hnext hlt⟩
  · rw [h.stdDev, Real.sq_sqrt hvariance.le]
  · rw [h.yield]
    refine le_averageYield hne hmean fun c hc => ?_
    obtain ⟨front, rfl⟩ := List.getLast?_eq_some_iff.1 hlowest
    rcases List.mem_append.1 hc with hc | hc
    · exact ((List.pairwise_append.1 hfalling).2.2 c hc lowest List.mem_cons_self).le
    · rw [List.mem_singleton.1 hc]
  · rw [h.yield]
    refine averageYield_le hne hmean fun c hc => ?_
    obtain ⟨tail, rfl⟩ := List.head?_eq_some_iff.1 hhighest
    rcases List.mem_cons.1 hc with rfl | hc
    · exact le_rfl
    · exact ((List.pairwise_cons.1 hfalling).1 c hc).le
  · rw [h.stdDev]
    exact Real.sqrt_pos.2 hvariance

theorem QuantileDomain.computeProtectionLevel_ok {z : ℝ → ℝ} (h : QuantileDomain aggregated higher next)
    (hnext : 0 < next.yield) : ∃ lProtectionLevel, computeProtectionLevel z aggregated next = .ok lProtectionLevel := by
  have hyield : 0 < aggregated.yield := by
    by_contra hle
    exact absurd h.ratio.1 (not_lt.2 (div_nonpos_of_nonneg_of_nonpos hnext.le (not_lt.1 hle)))
  exact ⟨_, Rmol.computeProtectionLevel_ok hyield h.stdDev_pos h.ratio⟩

end domain

/-! ## Runs of EMSR-b -/

section runs
variable {z : ℝ → ℝ} {lCabinCapacity : ℝ} {lFirstVC : Bucket} {rest : List Bucket}

/-- A pass of EMSR-b. -/
abbrev EmsrBPass (z : ℝ → ℝ) (lCabinCapacity : ℝ) : LevelState Bucket → LevelState Bucket → Prop :=
  LevelPass (computeProtectionLevel z) computeAggregatedVirtualClass lCabinCapacity

/-- Where EMSR-b enters its loop. -/
def emsrBStart (lCabinCapacity : ℝ) (lFirstVC : Bucket) (rest : List Bucket) : LevelState Bucket :=
  ⟨[], lFirstVC, { lFirstVC with cumulatedBookingLimit := lCabinCapacity }, rest⟩

/-- The invariant of the loop after `n` passes over the list: the first `n + 1` classes are aggregated, the others are
untouched. -/
def Aggregated (classes : List Bucket) (n : ℕ) (s : LevelState Bucket) : Prop :=
  Aggregates s.above (classes.take (n + 1)) ∧ s.below = classes.drop (n + 1)

theorem Aggregated.start (h : IsClassList (lFirstVC :: rest)) :
    Aggregated (lFirstVC :: rest) 0 (emsrBStart lCabinCapacity lFirstVC rest) := by
  obtain ⟨-, hmean, hstdDev⟩ := h.positive lFirstVC List.mem_cons_self
  exact ⟨Aggregates.single lFirstVC hmean hstdDev, rfl⟩

/-- Where a next class is left, it follows the aggregated ones in the list. -/
theorem Aggregated.split {classes below : List Bucket} {n : ℕ} {s : LevelState Bucket} {next : Bucket}
    (h : Aggregated classes n s) (hbelow : s.below = next :: below) :
    classes = classes.take (n + 1) ++ [next] ++ below ∧ classes.take (n + 2) = classes.take (n + 1) ++ [next] := by
  have hdrop : classes.drop (n + 1) = next :: below := h.2.symm.trans hbelow
  refine ⟨?_, ?_⟩
  · rw [List.append_assoc, List.singleton_append, ← hdrop, List.take_append_drop]
  · rw [List.take_add_one, ← List.head?_drop, hdrop]
    rfl

/-- **A pass** aggregates one more class. -/
theorem Aggregated.pass {classes : List Bucket} (hclasses : IsClassList classes) {n : ℕ} {s t : LevelState Bucket}
    (h : Aggregated classes n s) (hpass : EmsrBPass z lCabinCapacity s t) : Aggregated classes (n + 1) t := by
  obtain ⟨hlevel⟩ := hpass
  obtain ⟨hsplit, htake⟩ := h.split rfl
  rw [hsplit] at hclasses
  have hne : classes.take (n + 1) ≠ [] := by
    intro hnil
    rcases List.take_eq_nil_iff.1 hnil with hzero | rfl
    · cases hzero
    · simp at hsplit
  refine ⟨?_, ?_⟩
  · rw [htake]
    exact h.1.step hne hclasses.of_append
  · rw [← List.tail_drop, ← h.2]
    rfl

/-- **EMSR-b stays in the domain of the quantile**: wherever its loop comes to a class with a next one, the aggregated
class is that of the classes so far, and the loop goes on to the last class. -/
theorem emsrB_quantileDomain (z : ℝ → ℝ) (lCabinCapacity : ℝ) (h : IsClassList (lFirstVC :: rest)) :
    (∀ n s, Reaches (EmsrBPass z lCabinCapacity) (emsrBStart lCabinCapacity lFirstVC rest) n s →
      s.below = rest.drop n ∧ ∀ next below, s.below = next :: below →
        QuantileDomain s.above ((lFirstVC :: rest).take (n + 1)) next) ∧
    ∃ out s, heuristicOptimisationByEmsrB z lCabinCapacity (lFirstVC :: rest) = .ok out ∧
      Reaches (EmsrBPass z lCabinCapacity) (emsrBStart lCabinCapacity lFirstVC rest) rest.length s ∧
      s.below = [] ∧ out = s.processed ++ [s.current] := by
  have hreached : ∀ n s, Reaches (EmsrBPass z lCabinCapacity) (emsrBStart lCabinCapacity lFirstVC rest) n s →
      Aggregated (lFirstVC :: rest) n s := fun n s hreach =>
    hreach.invariant (P := Aggregated (lFirstVC :: rest)) (Aggregated.start h) fun n s t hs hpass => hs.pass h hpass
  have hdomain : ∀ n s next below, Reaches (EmsrBPass z lCabinCapacity)
      (emsrBStart lCabinCapacity lFirstVC rest) n s → s.below = next :: below →
        QuantileDomain s.above ((lFirstVC :: rest).take (n + 1)) next ∧ 0 < next.yield := by
    intro n s next below hreach hbelow
    have hs := hreached n s hreach
    have hsplit := (hs.split hbelow).1
    rw [hsplit] at h
    exact ⟨hs.1.quantileDomain (by simp) h.of_append,
      (h.positive next (List.mem_append_left _ (List.mem_append_right _ List.mem_cons_self))).1⟩
  refine ⟨fun n s hreach => ⟨(hreached n s hreach).2, fun next below hbelow => (hdomain n s next below hreach hbelow).1⟩,
    ?_⟩
  cases hrun : heuristicOptimisationByEmsrB z lCabinCapacity (lFirstVC :: rest) with
  | ok out =>
    obtain ⟨s, hreach, hbelow, hout⟩ := setLevels_reaches hrun []
    exact ⟨out, s, rfl, hreach, hbelow, hout⟩
  | error fault =>
    -- no class that the loop comes to has a protection that it cannot compute
    obtain ⟨n, s, next, below, hreach, hbelow, hfault⟩ := setLevels_error hrun []
    obtain ⟨hquantile, hnext⟩ := hdomain n s next below hreach hbelow
    obtain ⟨lProtectionLevel, hok⟩ := hquantile.computeProtectionLevel_ok hnext
    cases hok.symm.trans hfault

end runs

/-! ### Three classes -/

def threeBuckets : List Bucket := [⟨1, 1, (3 : ℕ), 0, 0⟩, ⟨1, 1, (2 : ℕ), 0, 0⟩, ⟨1, 1, (1 : ℕ), 0, 0⟩]

theorem threeBuckets_isClassList : IsClassList threeBuckets := by
  constructor
  · norm_num [threeBuckets]
  · norm_num [threeBuckets]

theorem emsrB_quantileDomain_threeBuckets : ∃ s,
    Reaches (EmsrBPass (fun _ => 0) 10) (emsrBStart 10 ⟨1, 1, (3 : ℕ), 0, 0⟩ threeBuckets.tail) 1 s ∧
      QuantileDomain s.above (threeBuckets.take 2) ⟨1, 1, (1 : ℕ), 0, 0⟩ := by
  obtain ⟨hall, -⟩ := emsrB_quantileDomain (fun _ => 0) 10 threeBuckets_isClassList
  obtain ⟨lProtectionLevel, hlevel⟩ := ((hall 0 _ .start).2 _ _ rfl).computeProtectionLevel_ok (by norm_num)
  have hreach : Reaches (EmsrBPass (fun _ => 0) 10) (emsrBStart 10 ⟨1, 1, (3 : ℕ), 0, 0⟩ threeBuckets.tail) 1 _ :=
    .next .start (.pass hlevel)
  exact ⟨_, hreach, (hall 1 _ hreach).2 _ _ rfl⟩

end Rmol
