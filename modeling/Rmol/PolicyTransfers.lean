import Mathlib.Analysis.Complex.ExponentialBounds
import Rmol.Lib.Increments
import Rmol.OldQFF
/-!
# What the classes of a policy hand on (`OldQFF.cpp:294-342`)

`dispatchDemandForecastToPolicy` enters the demand of a policy at its lowest class. Each class then hands on to the
next higher one the mean times the sell-up factor of that class times a buy-up factor, which reads the disutility
curve of the class that hands on. The amount is withdrawn from the class, whose comment says that it is a part of
the demand of the class. The assertions compare the sell-up factor of the next class with that of the lowest one,
which bounds the first amount only: two amounts in a row come from two disutility curves.

`dispatch_yieldDemandMap` is the map in closed form: the entry of a class is what it was handed less what it hands
on. So no entry is negative exactly where the amounts never rise (`dispatch_nonneg_iff`).
-/

namespace Rmol

open Increments

variable {κ : Type}

/-! ## Entries of the map -/

theorem addToEntry_append {y d : ℝ} {entries rest : List (ℝ × ℝ)} (h : y ∉ entries.map Prod.fst) :
    addToEntry y d (entries ++ rest) = entries ++ addToEntry y d rest := by
  induction entries with
  | nil => rfl
  | cons entry entries ih =>
    rw [List.map_cons, List.mem_cons, not_or] at h
    rw [List.cons_append, addToEntry, if_neg (Ne.symm h.1), ih h.2, List.cons_append]

@[simp] theorem addToEntry_nil (y d : ℝ) : addToEntry y d [] = [(y, d)] := rfl

@[simp] theorem addToEntry_cons_self (y d e : ℝ) (rest : List (ℝ × ℝ)) :
    addToEntry y d ((y, e) :: rest) = (y, e + d) :: rest := if_pos rfl

theorem isChain_neg_snoc {l : List ℝ} (h : ∀ d ∈ l, 0 ≤ d) :
    (l.map (- ·) ++ [0]).IsChain (· ≤ ·) ↔ l.IsChain (· ≥ ·) := by
  have hlast : ∀ x ∈ (l.map (- ·)).getLast?, ∀ y ∈ [(0 : ℝ)].head?, x ≤ y := by
    intro x hx y hy
    obtain rfl : 0 = y := by simpa using hy
    obtain ⟨d, hd, rfl⟩ := List.mem_map.1 (List.mem_of_getLast? hx)
    exact neg_nonpos.2 (h d hd)
  rw [List.isChain_append, List.isChain_map, and_iff_left ⟨List.isChain_singleton _, hlast⟩]
  simp only [neg_le_neg_iff, ge_iff_le]

namespace OldQFF

section transfers
variable (yield lDU lSU : κ → ℝ)

/-- The sell-up factor of the next class times the buy-up factor. -/
noncomputable def handOnFactor (lCurrentBC lNextBC : κ) : ℝ :=
  lSU lNextBC * Real.exp ((yield lCurrentBC - yield lNextBC) * lDU lCurrentBC)

/-- What the classes above `lCurrentBC` are handed, lowest first. -/
noncomputable def handedOn (iMean : ℝ) : κ → List κ → List ℝ
  | _, [] => []
  | lCurrentBC, lNextBC :: lHigherBCs =>
    iMean * handOnFactor yield lDU lSU lCurrentBC lNextBC :: handedOn iMean lNextBC lHigherBCs

/-- No class hands on more than it was handed: of three consecutive classes of the policy, listed highest first,
the middle one. -/
def HandsOnNoMore (iBCList : List κ) : Prop :=
  ∀ lHighBC lMiddleBC lLowBC, [lHighBC, lMiddleBC, lLowBC] <:+: iBCList →
    handOnFactor yield lDU lSU lMiddleBC lHighBC ≤ handOnFactor yield lDU lSU lLowBC lMiddleBC

variable {yield lDU lSU} {iMean : ℝ}

/-- The first amount never exceeds the demand of the lowest class. -/
theorem handOnFactor_le {lCurrentBC lNextBC : κ} (hyield : yield lCurrentBC ≤ yield lNextBC)
    (hdu : 0 ≤ lDU lCurrentBC) (hsu : 0 ≤ lSU lNextBC) :
    handOnFactor yield lDU lSU lCurrentBC lNextBC ≤ lSU lNextBC := by
  have hexp : Real.exp ((yield lCurrentBC - yield lNextBC) * lDU lCurrentBC) ≤ 1 :=
    Real.exp_le_one_iff.2 (mul_nonpos_of_nonpos_of_nonneg (sub_nonpos.2 hyield) hdu)
  calc handOnFactor yield lDU lSU lCurrentBC lNextBC ≤ lSU lNextBC * 1 := mul_le_mul_of_nonneg_left hexp hsu
    _ = lSU lNextBC := mul_one _

theorem handedOn_nonneg (hmean : 0 ≤ iMean) : ∀ {lHigherBCs : List κ} {lCurrentBC : κ},
    (∀ c ∈ lHigherBCs, 0 ≤ lSU c) → ∀ d ∈ handedOn yield lDU lSU iMean lCurrentBC lHigherBCs, 0 ≤ d
  | [], _, _, d, hd => by cases hd
  | lNextBC :: lHigherBCs, lCurrentBC, hsu, d, hd => by
    rw [List.forall_mem_cons] at hsu
    rcases List.mem_cons.1 hd with rfl | hd
    · exact mul_nonneg hmean (mul_nonneg hsu.1 (Real.exp_pos _).le)
    · exact handedOn_nonneg hmean hsu.2 d hd

theorem length_handedOn : ∀ (lHigherBCs : List κ) (lCurrentBC : κ),
    (handedOn yield lDU lSU iMean lCurrentBC lHigherBCs).length = lHigherBCs.length
  | [], _ => rfl
  | lNextBC :: lHigherBCs, _ => by simp [handedOn, length_handedOn lHigherBCs lNextBC]

/-- The demand of the lowest class never counts: it is at least what the class hands on. -/
theorem isChain_lowest_iff (hmean : 0 ≤ iMean) {lLowestBC : κ} {lHigherBCs : List κ}
    (hyield : ∀ n ∈ lHigherBCs, yield lLowestBC ≤ yield n) (hdu : 0 ≤ lDU lLowestBC)
    (hsu : ∀ n ∈ lHigherBCs, 0 ≤ lSU n ∧ lSU n ≤ lSU lLowestBC) :
    (iMean * lSU lLowestBC :: handedOn yield lDU lSU iMean lLowestBC lHigherBCs).IsChain (· ≥ ·) ↔
      (handedOn yield lDU lSU iMean lLowestBC lHigherBCs).IsChain (· ≥ ·) := by
  cases lHigherBCs with
  | nil => exact iff_of_true (List.isChain_singleton _) List.isChain_nil
  | cons n l =>
    rw [List.forall_mem_cons] at hyield hsu
    have hle : handOnFactor yield lDU lSU lLowestBC n ≤ lSU lLowestBC :=
      (handOnFactor_le hyield.1 hdu hsu.1.1).trans hsu.1.2
    rw [handedOn, List.isChain_cons_cons]
    exact and_iff_right (mul_le_mul_of_nonneg_left hle hmean)

/-- Three consecutive classes are the lowest three, or they are further up. -/
theorem handsOnNoMore_reverse_cons {lCurrentBC lNextBC lThirdBC : κ} {lHigherBCs : List κ} :
    HandsOnNoMore yield lDU lSU (lCurrentBC :: lNextBC :: lThirdBC :: lHigherBCs).reverse ↔
      handOnFactor yield lDU lSU lNextBC lThirdBC ≤ handOnFactor yield lDU lSU lCurrentBC lNextBC ∧
        HandsOnNoMore yield lDU lSU (lNextBC :: lThirdBC :: lHigherBCs).reverse := by
  have hinfix : ∀ (m n c : κ) (l : List κ), [m, n, c] <:+: l.reverse ↔ [c, n, m] <:+: l := fun m n c l =>
    (List.reverse_infix : [c, n, m].reverse <:+: l.reverse ↔ [c, n, m] <:+: l)
  have hcons : ∀ l : List κ, l <:+: lCurrentBC :: lNextBC :: lThirdBC :: lHigherBCs ↔
      l <+: lCurrentBC :: lNextBC :: lThirdBC :: lHigherBCs ∨ l <:+: lNextBC :: lThirdBC :: lHigherBCs :=
    fun _ => List.infix_cons_iff
  simp only [HandsOnNoMore, hinfix, hcons]
  constructor
  · intro h
    exact ⟨h _ _ _ (.inl ⟨lHigherBCs, rfl⟩), fun m n c hmnc => h m n c (.inr hmnc)⟩
  · rintro ⟨hfirst, hrest⟩ m n c (hmnc | hmnc)
    · simp only [List.cons_prefix_cons, List.nil_prefix, and_true] at hmnc
      obtain ⟨rfl, rfl, rfl⟩ := hmnc
      exact hfirst
    · exact hrest m n c hmnc

theorem handsOnNoMore_of_length_lt {iBCList : List κ} (hlen : iBCList.length < 3) :
    HandsOnNoMore yield lDU lSU iBCList := by
  intro m n c h
  have hle : 3 ≤ iBCList.length := h.length_le
  omega

/-- The amounts never rise iff there is no demand or no class hands on more than it was handed. -/
theorem handedOn_isChain_iff (hmean : 0 ≤ iMean) : ∀ (lHigherBCs : List κ) (lCurrentBC : κ),
    (handedOn yield lDU lSU iMean lCurrentBC lHigherBCs).IsChain (· ≥ ·) ↔
      iMean = 0 ∨ HandsOnNoMore yield lDU lSU (lCurrentBC :: lHigherBCs).reverse
  | [], _ => iff_of_true List.isChain_nil (.inr (handsOnNoMore_of_length_lt (by simp)))
  | [_], _ => iff_of_true (List.isChain_singleton _) (.inr (handsOnNoMore_of_length_lt (by simp)))
  | lNextBC :: lThirdBC :: lHigherBCs, lCurrentBC => by
    have ih := handedOn_isChain_iff hmean (lThirdBC :: lHigherBCs) lNextBC
    rw [handedOn, handedOn, List.isChain_cons_cons]
    rw [handedOn] at ih
    rw [ih, handsOnNoMore_reverse_cons]
    rcases hmean.eq_or_lt with rfl | hpos
    · simp
    · rw [ge_iff_le, mul_le_mul_iff_right₀ hpos]
      simp [hpos.ne']

/-- The entries of a policy with the demand `d` at its lowest class. -/
theorem entries_nonneg_iff {d : ℝ} (hd : 0 ≤ d) {amounts : List ℝ} (hamounts : ∀ a ∈ amounts, 0 ≤ a)
    {yields : List ℝ} (hlen : yields.length = amounts.length + 1) :
    (∀ entry ∈ yields.zip (increments (-d) (amounts.map (- ·) ++ [0])), 0 ≤ entry.2) ↔
      (d :: amounts).IsChain (· ≥ ·) := by
  have hsnd : (yields.zip (increments (-d) (amounts.map (- ·) ++ [0]))).map Prod.snd =
      increments (-d) (amounts.map (- ·) ++ [0]) := List.map_snd_zip (by simp [hlen])
  calc (∀ entry ∈ yields.zip (increments (-d) (amounts.map (- ·) ++ [0])), 0 ≤ entry.2)
      ↔ ∀ x ∈ (yields.zip (increments (-d) (amounts.map (- ·) ++ [0]))).map Prod.snd, 0 ≤ x :=
        List.forall_mem_map.symm
    _ ↔ ((d :: amounts).map (- ·) ++ [0]).IsChain (· ≤ ·) := by
      rw [hsnd, increments_nonneg_iff]
      rfl
    _ ↔ (d :: amounts).IsChain (· ≥ ·) := isChain_neg_snoc (List.forall_mem_cons.2 ⟨hd, hamounts⟩)

end transfers

/-! ## The loop -/

section loop
variable [DecidableEq κ] {api : PolicyApi κ} (hapi : AddsToEntry api) {yield : κ → ℝ}
  {disutilityCurve : κ → Curve ℝ} {iCurrentDCP : DTD} {iMean iStdDev : ℝ} {iBCSellUpCurveMap : List (κ × Curve ℝ)}
  {lDU lSU : κ → ℝ}
include hapi

/-- The loop from a class on whose entry, the last one of the map, holds the demand that was handed to it. -/
theorem transferLoop_ok {lSUToLowestClass : ℝ} :
    ∀ (lHigherBCs : List κ) (lCurrentBC : κ) (entries : List (ℝ × ℝ)) (d : ℝ) (ioPolicy : Policy κ ℝ),
      ioPolicy.yieldDemandMap = entries ++ [(yield lCurrentBC, d)] →
      (entries.map Prod.fst ++ yield lCurrentBC :: lHigherBCs.map yield).Nodup →
      (∀ c ∈ lCurrentBC :: lHigherBCs, disutilityCurve c iCurrentDCP = some (lDU c)) →
      (∀ c ∈ lHigherBCs, ((iBCSellUpCurveMap.lookup c).bind fun lSellUpCurve => lSellUpCurve iCurrentDCP) =
        some (lSU c) ∧ 0 < lSU c ∧ lSU c < lSUToLowestClass) →
      ∃ oPolicy, transferLoop api yield disutilityCurve iCurrentDCP iMean iBCSellUpCurveMap lSUToLowestClass
          lCurrentBC lHigherBCs ioPolicy = .ok oPolicy ∧
        oPolicy.yieldDemandMap = entries ++ ((lCurrentBC :: lHigherBCs).map yield).zip
          (increments (-d) ((handedOn yield lDU lSU iMean lCurrentBC lHigherBCs).map (- ·) ++ [0]))
  | [], lCurrentBC, entries, d, ioPolicy, hmap, _, _, _ => ⟨ioPolicy, rfl, by simp [hmap, handedOn]⟩
  | lNextBC :: lHigherBCs, lCurrentBC, entries, d, ioPolicy, hmap, hnodup, hdu, hsu => by
    rw [List.forall_mem_cons] at hdu hsu
    obtain ⟨⟨hlookup, hpos, hlt⟩, hsu⟩ := hsu
    rw [List.map_cons] at hnodup
    -- the yields of the entries, of the class and of the next one differ
    obtain ⟨-, hyields, hapart⟩ := List.nodup_append.1 hnodup
    have hne : yield lNextBC ≠ yield lCurrentBC := by
      rintro heq
      simp [heq] at hyields
    have hcurrent : yield lCurrentBC ∉ entries.map Prod.fst := fun hmem =>
      hapart _ hmem _ List.mem_cons_self rfl
    have hnext : yield lNextBC ∉ (entries ++ [(yield lCurrentBC, d)]).map Prod.fst := by
      rw [List.map_append, List.mem_append, not_or]
      exact ⟨fun hmem => hapart _ hmem _ (by simp) rfl, by simpa using hne⟩
    set lDemandForNextClass := iMean * lSU lNextBC * Real.exp ((yield lCurrentBC - yield lNextBC) * lDU lCurrentBC)
      with hdemand
    have hmap' : (api.addYieldDemand (api.addYieldDemand ioPolicy (yield lNextBC) lDemandForNextClass)
        (yield lCurrentBC) (-lDemandForNextClass)).yieldDemandMap =
        (entries ++ [(yield lCurrentBC, d + -lDemandForNextClass)]) ++ [(yield lNextBC, lDemandForNextClass)] := by
      rw [hapi.addYieldDemand_yieldDemandMap, hapi.addYieldDemand_yieldDemandMap, hmap]
      rw [← List.append_nil (entries ++ [(yield lCurrentBC, d)]), addToEntry_append hnext, addToEntry_nil]
      rw [List.append_assoc, addToEntry_append hcurrent]
      simp
    obtain ⟨oPolicy, hrun, hout⟩ := transferLoop_ok lHigherBCs lNextBC
      (entries ++ [(yield lCurrentBC, d + -lDemandForNextClass)]) lDemandForNextClass _ hmap'
      (by simpa using hnodup) hdu.2 hsu
    refine ⟨oPolicy, ?_, ?_⟩
    · rw [transferLoop, hdu.1]
      simp only [hlookup, hpos, hlt, and_self, ↓reduceIte]
      exact hrun
    · have hfactor : iMean * handOnFactor yield lDU lSU lCurrentBC lNextBC = lDemandForNextClass := by
        rw [handOnFactor, ← mul_assoc]
      rw [hout, handedOn, hfactor, List.append_assoc]
      simp [sub_eq_add_neg, add_comm]

/-- **The map of a policy**: the entry of a class is what it was handed less what it hands on. -/
theorem dispatch_yieldDemandMap {lLowestBC : κ} {lHigherBCs : List κ} {ioPolicy : Policy κ ℝ}
    (hclasses : ioPolicy.bookingClasses.reverse = lLowestBC :: lHigherBCs) (hmap : ioPolicy.yieldDemandMap = [])
    (hyields : ((lLowestBC :: lHigherBCs).map yield).Nodup)
    (hdu : ∀ c ∈ lLowestBC :: lHigherBCs, disutilityCurve c iCurrentDCP = some (lDU c))
    (hsu : ∀ c ∈ lLowestBC :: lHigherBCs,
      ((iBCSellUpCurveMap.lookup c).bind fun lSellUpCurve => lSellUpCurve iCurrentDCP) = some (lSU c))
    (hfall : ∀ c ∈ lHigherBCs, 0 < lSU c ∧ lSU c < lSU lLowestBC) :
    ∃ oPolicy, dispatchDemandForecastToPolicy api yield disutilityCurve ioPolicy iCurrentDCP iMean iStdDev
        iBCSellUpCurveMap = .ok oPolicy ∧
      oPolicy.yieldDemandMap = ((lLowestBC :: lHigherBCs).map yield).zip
        (increments (-(iMean * lSU lLowestBC))
          ((handedOn yield lDU lSU iMean lLowestBC lHigherBCs).map (- ·) ++ [0])) := by
  have hsuHigher : ∀ c ∈ lHigherBCs, ((iBCSellUpCurveMap.lookup c).bind fun lSellUpCurve =>
      lSellUpCurve iCurrentDCP) = some (lSU c) ∧ 0 < lSU c ∧ lSU c < lSU lLowestBC := fun c hc =>
    ⟨hsu c (List.mem_cons_of_mem _ hc), hfall c hc⟩
  unfold dispatchDemandForecastToPolicy
  simp only [hclasses, hsu lLowestBC List.mem_cons_self]
  refine transferLoop_ok hapi lHigherBCs lLowestBC [] (iMean * lSU lLowestBC) _ ?_ hyields hdu hsuHigher
  rw [hapi.addYieldDemand_yieldDemandMap, hmap]
  rfl

/-- **No entry is negative** iff the mean is zero or no class hands on more than it was handed. -/
theorem dispatch_nonneg_iff {ioPolicy : Policy κ ℝ} (hmap : ioPolicy.yieldDemandMap = [])
    (hyields : (ioPolicy.bookingClasses.map yield).Pairwise (· > ·))
    (hdu : ∀ c ∈ ioPolicy.bookingClasses, disutilityCurve c iCurrentDCP = some (lDU c) ∧ 0 ≤ lDU c)
    (hsu : ∀ c ∈ ioPolicy.bookingClasses,
      ((iBCSellUpCurveMap.lookup c).bind fun lSellUpCurve => lSellUpCurve iCurrentDCP) = some (lSU c) ∧
        0 < lSU c ∧ lSU c ≤ 1)
    (hfall : (ioPolicy.bookingClasses.map lSU).Pairwise (· < ·)) (hmean : 0 ≤ iMean) :
    ∃ oPolicy, dispatchDemandForecastToPolicy api yield disutilityCurve ioPolicy iCurrentDCP iMean iStdDev
        iBCSellUpCurveMap = .ok oPolicy ∧
      ((∀ entry ∈ oPolicy.yieldDemandMap, 0 ≤ entry.2) ↔
        iMean = 0 ∨ HandsOnNoMore yield lDU lSU ioPolicy.bookingClasses) := by
  cases hclasses : ioPolicy.bookingClasses.reverse with
  | nil =>
    have hnil : ioPolicy.bookingClasses = [] := List.reverse_eq_nil_iff.1 hclasses
    exact ⟨ioPolicy, by simp [dispatchDemandForecastToPolicy, hclasses],
      iff_of_true (by simp [hmap]) (.inr (handsOnNoMore_of_length_lt (by simp [hnil])))⟩
  | cons lLowestBC lHigherBCs =>
    have hlist : ioPolicy.bookingClasses = (lLowestBC :: lHigherBCs).reverse := by
      rw [← hclasses, List.reverse_reverse]
    rw [hlist] at hyields hdu hsu hfall ⊢
    simp only [List.mem_reverse] at hdu hsu
    rw [List.map_reverse, List.pairwise_reverse, List.map_cons, List.pairwise_cons] at hyields hfall
    obtain ⟨hlowest, hrise⟩ := hyields
    have hnodup : ((lLowestBC :: lHigherBCs).map yield).Nodup :=
      List.nodup_cons.2 ⟨fun hmem => lt_irrefl _ (hlowest _ hmem), hrise.imp fun h => h.ne⟩
    have hbelow : ∀ c ∈ lHigherBCs, 0 < lSU c ∧ lSU c < lSU lLowestBC := fun c hc =>
      ⟨(hsu c (List.mem_cons_of_mem _ hc)).2.1, hfall.1 _ (List.mem_map_of_mem hc)⟩
    refine (dispatch_yieldDemandMap hapi hclasses hmap hnodup (fun c hc => (hdu c hc).1)
      (fun c hc => (hsu c hc).1) hbelow).imp fun oPolicy h => ⟨h.1, ?_⟩
    have hnonneg : ∀ d ∈ handedOn yield lDU lSU iMean lLowestBC lHigherBCs, 0 ≤ d :=
      handedOn_nonneg hmean fun c hc => (hbelow c hc).1.le
    have hlowestDemand : 0 ≤ iMean * lSU lLowestBC := mul_nonneg hmean (hsu lLowestBC List.mem_cons_self).2.1.le
    rw [h.2, entries_nonneg_iff hlowestDemand hnonneg (by simp [length_handedOn])]
    rw [isChain_lowest_iff hmean (fun n hn => (hlowest _ (List.mem_map_of_mem hn)).le)
      (hdu lLowestBC List.mem_cons_self).2 fun n hn => ⟨(hbelow n hn).1.le, (hbelow n hn).2.le⟩]
    exact handedOn_isChain_iff hmean lHigherBCs lLowestBC

end loop

/-! ### Three classes, each in a fare family of its own -/

/-- The yields 3, 2, 1 of the classes 1, 2, 3. -/
def threeYields (c : ℕ) : ℝ := (4 - c : ℕ)

/-- The sell-up factors 1/4, 1/2, 1. -/
noncomputable def threeSellUps (c : ℕ) : ℝ := (1 / ((2 : ℕ) : ℝ)) ^ (3 - c)

noncomputable def threeSellUpCurves : List (ℕ × Curve ℝ) := [1, 2, 3].map fun c => (c, fun _ => some (threeSellUps c))

/-- The customers of the lowest class mind the next fare family, those of the others mind none. -/
noncomputable def lowestMinds (c : ℕ) : ℝ := if c = 3 then 1 else 0

theorem three_inputs (iCurrentDCP : DTD) :
    ([1, 2, 3].map threeYields).Pairwise (· > ·) ∧
    (∀ c ∈ [1, 2, 3], ((threeSellUpCurves.lookup c).bind fun lSellUpCurve => lSellUpCurve iCurrentDCP) =
      some (threeSellUps c) ∧ 0 < threeSellUps c ∧ threeSellUps c ≤ 1) ∧
    ([1, 2, 3].map threeSellUps).Pairwise (· < ·) := by
  refine ⟨by norm_num [threeYields], ?_, by norm_num [threeSellUps]⟩
  simp only [List.forall_mem_cons, List.not_mem_nil, false_implies, implies_true, and_true]
  refine ⟨⟨rfl, ?_⟩, ⟨rfl, ?_⟩, rfl, ?_⟩ <;> norm_num [threeSellUps]

theorem dispatch_nonneg_iff_noDisutility : ∃ oPolicy, dispatchDemandForecastToPolicy (mapPolicyApi ℕ) threeYields
      (fun _ _ => some 0) (.withoutDemand [1, 2, 3]) 1 1 1 threeSellUpCurves = .ok oPolicy ∧
    ∀ entry ∈ oPolicy.yieldDemandMap, 0 ≤ entry.2 := by
  obtain ⟨hyields, hsu, hfall⟩ := three_inputs 1
  refine (dispatch_nonneg_iff mapPolicyApi_addsToEntry rfl hyields (fun _ _ => ⟨rfl, le_rfl⟩) hsu hfall
    zero_le_one).imp fun oPolicy h => ⟨h.1, h.2.2 (.inr fun m n c hmnc => ?_)⟩
  have heq : [m, n, c] = [1, 2, 3] := hmnc.eq_of_length rfl
  simp only [List.cons.injEq, and_true] at heq
  obtain ⟨rfl, rfl, rfl⟩ := heq
  norm_num [handOnFactor, threeSellUps]

/-- The middle class is handed `exp (-1) / 2` and hands on `1 / 4`. -/
theorem dispatch_negative :
    ([1, 2, 3].map threeYields).Pairwise (· > ·) ∧ (∀ c, 0 ≤ lowestMinds c) ∧
    (∀ c ∈ [1, 2, 3], ((threeSellUpCurves.lookup c).bind fun lSellUpCurve => lSellUpCurve 1) =
      some (threeSellUps c) ∧ 0 < threeSellUps c ∧ threeSellUps c ≤ 1) ∧
    ([1, 2, 3].map threeSellUps).Pairwise (· < ·) ∧
    ∃ oPolicy, dispatchDemandForecastToPolicy (mapPolicyApi ℕ) threeYields (fun c _ => some (lowestMinds c))
        (.withoutDemand [1, 2, 3]) 1 1 1 threeSellUpCurves = .ok oPolicy ∧
      ∃ entry ∈ oPolicy.yieldDemandMap, entry.2 < 0 := by
  obtain ⟨hyields, hsu, hfall⟩ := three_inputs 1
  have hminds : ∀ c, 0 ≤ lowestMinds c := fun c => by
    unfold lowestMinds
    split <;> norm_num
  have hlookup : ∀ c ∈ [3, 2, 1], ((threeSellUpCurves.lookup c).bind fun lSellUpCurve => lSellUpCurve 1) =
      some (threeSellUps c) := fun c hc => (hsu c (List.mem_reverse.1 hc)).1
  obtain ⟨oPolicy, hrun, hmap⟩ : ∃ oPolicy, dispatchDemandForecastToPolicy (mapPolicyApi ℕ) threeYields
        (fun c _ => some (lowestMinds c)) (.withoutDemand [1, 2, 3]) 1 1 1 threeSellUpCurves = .ok oPolicy ∧
      oPolicy.yieldDemandMap = ([3, 2, 1].map threeYields).zip (increments (-(1 * threeSellUps 3))
        ((handedOn threeYields lowestMinds threeSellUps 1 3 [2, 1]).map (- ·) ++ [0])) :=
    dispatch_yieldDemandMap mapPolicyApi_addsToEntry rfl rfl (by norm_num [threeYields]) (fun _ _ => rfl) hlookup
      (by norm_num [threeSellUps])
  refine ⟨hyields, hminds, hsu, hfall, oPolicy, hrun, (2, Real.exp (-1) / 2 - 1 / 4), ?_, ?_⟩
  · rw [hmap]
    norm_num [handedOn, handOnFactor, threeYields, threeSellUps, lowestMinds]
    ring
  · have hexp : Real.exp (-1) < 1 / 2 := Real.exp_neg_one_lt_half
    dsimp only
    linarith

end OldQFF

end Rmol
