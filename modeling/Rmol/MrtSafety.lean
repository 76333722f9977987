import Rmol.AdjustNodes
import Rmol.ConvexHull
import Rmol.NewQFF
/-!
# The marginal revenue transformation after `NewQFF`

`NewQFF` gives the policies their demand, `buildNestedConvexHull` selects a hull, and
`adjustYieldAndDemand` then asserts at every step of the hull that demand, deviation and revenue rise
and that the policy difference finds the classes of the current policy.

* The hull gives rising demand and revenue by construction.
* The deviation rises between nested policies: a lower class of a fare family has the larger variance
  (`variance_laddered`), and a nested policy holds the same or a lower class in every family.
* The difference of nested policies adds the classes that open (`diff_eq`).

So where no policy crosses one of more demand and revenue, and there is a node for every policy of the
hull, `adjustYieldAndDemand` gets through all its assertions (`newQFF_mrt_safe`). It does not get through a hull
with a step that is not nested (`hull_nested_of_adjusts`). `isNested` compares the classes only up to the first
fare family where they are equal, so a hull step can go to a policy that is crossed: `newQFF_mrt_unsafe`.
-/

namespace Rmol

open Frontier

variable {κ : Type*} [DecidableEq κ]

/-! ## Sums over nested policies -/

/-- A value of the classes that is positive and grows from a class to the next lower one of its
family. -/
structure Laddered (fs : List (FareFamily κ ℝ)) (v : κ → ℝ) : Prop where
  lower : ∀ f ∈ fs, ∀ c ∈ f.bookingClasses, ∀ d ∈ f.bookingClasses,
    f.bookingClasses.idxOf c < f.bookingClasses.idxOf d → v c < v d
  pos : ∀ f ∈ fs, ∀ c ∈ f.bookingClasses, 0 < v c

section nested
variable {v : κ → ℝ}

theorem Laddered.tail {f : FareFamily κ ℝ} {fs : List (FareFamily κ ℝ)} (h : Laddered (f :: fs) v) :
    Laddered fs v :=
  ⟨fun g hg => h.lower g (List.mem_cons_of_mem _ hg), fun g hg => h.pos g (List.mem_cons_of_mem _ hg)⟩

theorem Laddered.le {f : FareFamily κ ℝ} {fs : List (FareFamily κ ℝ)} (h : Laddered (f :: fs) v) {c d : κ}
    (hc : c ∈ f.bookingClasses) (hd : d ∈ f.bookingClasses)
    (hle : f.bookingClasses.idxOf c ≤ f.bookingClasses.idxOf d) : v c ≤ v d := by
  rcases hle.lt_or_eq with hlt | heq
  · exact (h.lower f List.mem_cons_self c hc d hd hlt).le
  · rw [(List.idxOf_inj hc).1 heq]

theorem sum_le_of_nested : ∀ {fs : List (FareFamily κ ℝ)} {ps qs : List κ}, Laddered fs v →
    OneOfEach fs ps → OneOfEach fs qs → Nested fs ps qs → (ps.map v).sum ≤ (qs.map v).sum
  | _, [], [], _, _, _, _ => le_rfl
  | [], _, _ :: _, _, _, h, _ => h.elim
  | f :: fs, [], q :: qs, hv, _, hq, _ => by
    have := sum_le_of_nested hv.tail (by cases fs <;> trivial : OneOfEach fs []) hq.2
      (by cases fs <;> simp [Nested])
    rw [List.map_cons, List.sum_cons]
    exact add_nonneg (hv.pos f List.mem_cons_self q hq.1).le this
  | f :: fs, p :: ps, q :: qs, hv, hp, hq, h =>
    add_le_add (hv.le hp.1 hq.1 h.1) (sum_le_of_nested hv.tail hp.2 hq.2 h.2)
  | _ :: _, _ :: _, [], _, _, _, h => by simp [Nested] at h
  | [], _ :: _, [], _, _, _, h => by simp [Nested] at h

/-- From a policy to a different one that it is nested in, a laddered value grows. -/
theorem sum_lt_of_nested : ∀ {fs : List (FareFamily κ ℝ)} {ps qs : List κ}, Laddered fs v →
    OneOfEach fs ps → OneOfEach fs qs → Nested fs ps qs → ps ≠ qs → (ps.map v).sum < (qs.map v).sum
  | _, [], [], _, _, _, _, hne => absurd rfl hne
  | [], _, _ :: _, _, _, h, _, _ => h.elim
  | f :: fs, [], q :: qs, hv, _, hq, _, _ => by
    have := sum_le_of_nested hv.tail (by cases fs <;> trivial : OneOfEach fs []) hq.2
      (by cases fs <;> simp [Nested])
    rw [List.map_cons, List.sum_cons]
    exact add_pos_of_pos_of_nonneg (hv.pos f List.mem_cons_self q hq.1) this
  | f :: fs, p :: ps, q :: qs, hv, hp, hq, h, hne => by
    rw [List.map_cons, List.map_cons, List.sum_cons, List.sum_cons]
    rcases h.1.lt_or_eq with hlt | heq
    · exact add_lt_add_of_lt_of_le (hv.lower f List.mem_cons_self p hp.1 q hq.1 hlt)
        (sum_le_of_nested hv.tail hp.2 hq.2 h.2)
    · obtain rfl := (List.idxOf_inj hp.1).1 heq
      have := sum_lt_of_nested hv.tail hp.2 hq.2 h.2 fun e => hne (by rw [e])
      linarith
  | _ :: _, _ :: _, [], _, _, _, h, _ => by simp [Nested] at h
  | [], _ :: _, [], _, _, _, h, _ => by simp [Nested] at h

end nested

/-! ## The hull steps -/

section hull
variable {DEFAULT_YIELD_VALUE : ℝ} {cabin : SegmentCabin κ ℝ} {getTotalRevenue : Policy κ ℝ → ℝ} {e : Policy κ ℝ}
  {tl : List (Policy κ ℝ)}

/-- Policies whose demand depends on their classes alone and whose deviation rises with the nesting. -/
structure Consistent (cabin : SegmentCabin κ ℝ) (ps : List (Policy κ ℝ)) : Prop where
  shape : ∀ p ∈ ps, OneOfEach cabin.fareFamilies p.bookingClasses
  demand : ∀ p ∈ ps, ∀ q ∈ ps, p.bookingClasses = q.bookingClasses → p.demand = q.demand
  stdDev : ∀ p ∈ ps, ∀ q ∈ ps, Nested cabin.fareFamilies p.bookingClasses q.bookingClasses →
    p.demand < q.demand → p.stdDev < q.stdDev

/-- A policy holds the same class as another one of more demand and revenue in some fare family, and is out of order
with it in a later one. -/
def Crossed (getTotalRevenue : Policy κ ℝ → ℝ) (cabin : SegmentCabin κ ℝ) (ps : List (Policy κ ℝ)) : Prop :=
  ∃ p ∈ ps, ∃ q ∈ ps, p.demand < q.demand ∧ getTotalRevenue p < getTotalRevenue q ∧
    AgreesThenCrosses cabin.fareFamilies p.bookingClasses q.bookingClasses

/-- Between policies that do not cross, the hull goes on to one that the current policy is nested in. -/
theorem nested_of_ahead {p q : Policy κ ℝ} {ps : List (Policy κ ℝ)} (hps : Consistent cabin ps)
    (hcrossed : ¬ Crossed getTotalRevenue cabin ps) (hp : p ∈ ps) (hq : q ∈ ps)
    (h : (revenuePlane getTotalRevenue (isNested cabin)).Ahead p q) :
    Nested cabin.fareFamilies p.bookingClasses q.bookingClasses := by
  obtain ⟨hdem, hrev, hadm⟩ := h
  have hnot : ¬ AgreesThenCrosses cabin.fareFamilies p.bookingClasses q.bookingClasses := by
    intro hcross
    exact hcrossed ⟨p, hp, q, hq, hdem, hrev, hcross⟩
  rw [nested_iff_inOrder (hps.shape p hp), ← inOrderUntilEqual_iff_of_not_crosses hnot]
  exact (isNested_iff_inOrderUntilEqual (hps.shape p hp)).1 hadm

/-- A nested step between consistent policies rises, and opens a class. -/
theorem rising_of_nested {p q : Policy κ ℝ} {ps : List (Policy κ ℝ)} (hps : Consistent cabin ps) (hp : p ∈ ps)
    (hq : q ∈ ps) (hdem : p.demand < q.demand) (hrev : getTotalRevenue p < getTotalRevenue q)
    (hnest : Nested cabin.fareFamilies p.bookingClasses q.bookingClasses) :
    Rising getTotalRevenue p q ∧ p.bookingClasses ≠ q.bookingClasses :=
  ⟨⟨hdem, hrev, hps.stdDev p hp q hq hnest hdem⟩, fun heq => hdem.ne (hps.demand p hp q hq heq)⟩

/-- **The hull of consistent policies** that do not cross gets through `adjustYieldAndDemand`. -/
theorem hull_adjusts (hps : Consistent cabin (e :: tl)) (hcrossed : ¬ Crossed getTotalRevenue cabin (e :: tl)) :
    ∃ hull, buildNestedConvexHull getTotalRevenue cabin (e :: tl) = some hull ∧
      ∀ (reset : List (NestingNode κ) → List (NestingNode κ)) (nodes : List (NestingNode κ)) (classes : ClassStore κ ℝ),
        (∀ node ∈ reset nodes, node.bookingClasses = []) → hull.length ≤ (reset nodes).length →
        ∃ out, adjustYieldAndDemand DEFAULT_YIELD_VALUE getTotalRevenue cabin reset hull nodes classes = .ok out := by
  obtain ⟨l, hl, hclimb⟩ := buildHull_climb getTotalRevenue (isNested cabin) e tl
  refine ⟨e :: l, hl, fun reset nodes classes hempty hlen => ?_⟩
  have hmem : ∀ p ∈ e :: l, p ∈ e :: tl := by
    intro p hp
    rcases List.mem_cons.1 hp with rfl | hp
    · exact List.mem_cons_self
    · exact hclimb.mem p hp
  have hsteps : (e :: l).IsChain fun p q => Rising getTotalRevenue p q ∧
      Nested cabin.fareFamilies p.bookingClasses q.bookingClasses ∧ p.bookingClasses ≠ q.bookingClasses := by
    refine hclimb.isChain_ahead.imp_of_mem_imp ?_
    intro p q hp hq hahead
    have hnest := nested_of_ahead hps hcrossed (hmem p hp) (hmem q hq) hahead
    obtain ⟨hrise, hne⟩ := rising_of_nested hps (hmem p hp) (hmem q hq) hahead.1 hahead.2.1 hnest
    exact ⟨hrise, hnest, hne⟩
  have hchain : NestedChain cabin (e :: l) := ⟨fun p hp => hps.shape p (hmem p hp), hsteps.imp fun _ _ h => h.2⟩
  have hrise : (e :: l).IsChain (Rising getTotalRevenue) := hsteps.imp fun _ _ h => h.1
  rw [List.length_cons] at hlen
  by_cases hl : l = []
  · subst hl
    exact ⟨_, rfl⟩
  · obtain ⟨out, hout, -⟩ := adjustYieldAndDemand_ownNodes classes hchain hrise hempty hl (by omega) fun _ => hlen
    exact ⟨out, hout⟩

theorem chainNodes_nested (hps : Consistent cabin (e :: tl)) : ∀ {hull : List (Policy κ ℝ)} {nodes : List (List κ)},
    (∀ p ∈ hull, p ∈ e :: tl) → hull.IsChain (fun p q => isNested cabin p q = true) →
    chainNodes cabin hull = .ok nodes →
    hull.IsChain fun p q => Nested cabin.fareFamilies p.bookingClasses q.bookingClasses
  | [], _, _, _, _ => List.isChain_nil
  | [_], _, _, _, _ => List.isChain_singleton _
  | p :: q :: hull, _, hmem, hadm, h => by
    obtain ⟨node, hdiff, h⟩ := bind_eq_ok.1 h
    obtain ⟨rest, hrest, -⟩ := bind_eq_ok.1 h
    rw [List.isChain_cons_cons] at hadm ⊢
    have hp := hps.shape p (hmem p List.mem_cons_self)
    have hq := hps.shape q (hmem q (List.mem_cons_of_mem _ List.mem_cons_self))
    exact ⟨nested_of_diff hp hq (length_le_of_isNested hadm.1) hdiff,
      chainNodes_nested hps (fun r hr => hmem r (List.mem_cons_of_mem _ hr)) hadm.2 hrest⟩

/-- A hull that gets through goes on to policies that the current one is nested in. -/
theorem hull_nested_of_adjusts (hps : Consistent cabin (e :: tl)) {hull : List (Policy κ ℝ)}
    (hhull : buildNestedConvexHull getTotalRevenue cabin (e :: tl) = some hull)
    {reset : List (NestingNode κ) → List (NestingNode κ)} {nodes : List (NestingNode κ)} {classes : ClassStore κ ℝ}
    {out : Adjusted κ} (hempty : ∀ node ∈ reset nodes, node.bookingClasses = [])
    (hout : adjustYieldAndDemand DEFAULT_YIELD_VALUE getTotalRevenue cabin reset hull nodes classes = .ok out) :
    hull.IsChain fun p q => Nested cabin.fareFamilies p.bookingClasses q.bookingClasses := by
  obtain ⟨l, hl, hclimb⟩ := buildHull_climb getTotalRevenue (isNested cabin) e tl
  obtain rfl := Option.some.inj (hl.symm.trans hhull)
  cases l with
  | nil => exact List.isChain_singleton _
  | cons p l =>
    obtain ⟨filled, -, hyield, -⟩ := adjustYieldAndDemand_nodes hempty hout
    rw [yieldNodes, List.getLast?_cons_cons] at hyield
    split at hyield
    · cases hyield
    · obtain ⟨nodes, hnodes, -⟩ := bind_eq_ok.1 hyield
      refine chainNodes_nested hps (fun r hr => ?_) (hclimb.isChain_ahead.imp fun _ _ h => h.2.2) hnodes
      rcases List.mem_cons.1 hr with rfl | hr
      · exact List.mem_cons_self
      · exact hclimb.mem r hr

end hull

/-! ## The demand that `NewQFF` leaves -/

/-- Yields decrease down every fare family and are positive; the FRAT5 values are above 1. -/
structure Sellable (cabin : SegmentCabin κ ℝ) (yield : κ → ℝ) : Prop where
  decreasing : ∀ F ∈ cabin.fareFamilies, F.bookingClasses.Pairwise fun c d => yield d < yield c
  positive : ∀ F ∈ cabin.fareFamilies, ∀ c ∈ F.bookingClasses, 0 < yield c
  frat5 : ∀ F ∈ cabin.fareFamilies, ∀ d f, F.frat5Curve d = some f → 1 < f

section newQFF
variable {DEFAULT_YIELD_VALUE : ℝ} {cabin : SegmentCabin κ ℝ} {estimate : ℕ → DTD → DTD → ℝ × ℝ}
  {lWholeDCPList : List DTD} {iCurrentDTD : DTD} {f out : Forecasts κ ℝ}

/-- A class receives its share of the forecasts of its fare family by its sell-up factors. -/
theorem cumuPrice_share {est : DTD → DTD → ℝ × ℝ} {ps : List (DTD × DTD)} {F : FareFamily κ ℝ} {yield : κ → ℝ}
    {before after : ClassStore κ ℝ} {c : κ} (h : FamilyReceived est ps F yield before after)
    (hpos : ∀ c ∈ F.bookingClasses, 0 < yield c) (hc : c ∈ F.bookingClasses) :
    ∃ lowest ∈ F.bookingClasses, F.bookingClasses.getLast? = some lowest ∧
      Received .cumuPrice est (overFRAT5 F.frat5Curve fun f => sellUpFactor f (yield c) (yield lowest)) ps
        (before c) (after c) := by
  obtain ⟨disp, su, -, hsu, hrec⟩ := h
  obtain ⟨hkeys, -, -, lowest, hlow, hcurve⟩ := sellUpCurves_spec hsu
  have hmem : c ∈ su.map Prod.fst := by rwa [hkeys, List.mem_reverse]
  obtain ⟨⟨c', curve⟩, hin, rfl⟩ := List.mem_map.1 hmem
  have hlowest := List.mem_of_getLast? hlow
  refine ⟨lowest, hlowest, hlow, ?_⟩
  rw [← hcurve (hpos lowest hlowest) c' curve hin]
  exact hrec .cumuPrice c' curve hin

/-- The lower of two classes receives the larger variance, and no class receives none. -/
theorem varianceShare_laddered {est : DTD → DTD → ℝ × ℝ} {ps : List (DTD × DTD)} {F : Curve ℝ} {y y' q : ℝ}
    (hF : ∀ d f, F d = some f → 1 < f) (hdays : ∀ p ∈ ps, (F p.1).isSome)
    (hest : ∀ p ∈ ps, 0 < (est p.1 p.2).2) (hne : ps ≠ []) (hq : 0 < q) (hlt : y' < y) :
    varianceShare est (overFRAT5 F fun f => sellUpFactor f y q) ps <
      varianceShare est (overFRAT5 F fun f => sellUpFactor f y' q) ps := by
  have hterm : ∀ p ∈ ps, ((est p.1 p.2).2 * √((overFRAT5 F (fun f => sellUpFactor f y q) p.1).getD 0)) ^ 2 <
      ((est p.1 p.2).2 * √((overFRAT5 F (fun f => sellUpFactor f y' q) p.1).getD 0)) ^ 2 := by
    intro p hp
    obtain ⟨f, hf⟩ := Option.isSome_iff_exists.1 (hdays p hp)
    simp only [overFRAT5, hf, Option.map_some, Option.getD_some, mul_pow,
      Real.sq_sqrt (sellUpFactor_pos _ _ _).le]
    exact mul_lt_mul_of_pos_left (sellUpFactor_lt (hF _ _ hf) hq hlt) (pow_pos (hest p hp) 2)
  exact List.sum_lt_sum_of_ne_nil hne _ _ hterm

theorem varianceShare_pos {est : DTD → DTD → ℝ × ℝ} {ps : List (DTD × DTD)} {F : Curve ℝ} {y q : ℝ}
    (hdays : ∀ p ∈ ps, (F p.1).isSome) (hest : ∀ p ∈ ps, 0 < (est p.1 p.2).2) (hne : ps ≠ []) :
    0 < varianceShare est (overFRAT5 F fun f => sellUpFactor f y q) ps := by
  refine List.sum_pos _ (fun x hx => ?_) (by simpa using hne)
  obtain ⟨p, hp, rfl⟩ := List.mem_map.1 hx
  obtain ⟨f, hf⟩ := Option.isSome_iff_exists.1 (hdays p hp)
  simp only [overFRAT5, hf, Option.map_some, Option.getD_some]
  exact pow_pos (mul_pos (hest p hp) (Real.sqrt_pos.2 (sellUpFactor_pos _ _ _))) 2

/-- What the classes of a cabin hold after the families have been forecast from zero: mean and
variance of the class at its position. -/
theorem cabin_shares (hcabin : Sellable cabin fun c => (f.classes c).yield)
    (h : NewQFF.forecastFamilies estimate lWholeDCPList iCurrentDTD 0 cabin.fareFamilies
      (setDemandForecastsToZero cabin f) = .ok out) {F : FareFamily κ ℝ} {i : ℕ}
    (hF : cabin.fareFamilies[i]? = some F) {c : κ} (hc : c ∈ F.bookingClasses) :
    ∃ lowest ∈ F.bookingClasses, F.bookingClasses.getLast? = some lowest ∧
      (∀ p ∈ remaining lWholeDCPList iCurrentDTD, (F.frat5Curve p.1).isSome) ∧
      (out.classes c).cumuPriceDemMean = meanShare (estimate i) (overFRAT5 F.frat5Curve fun f' =>
        sellUpFactor f' (f.classes c).yield (f.classes lowest).yield) (remaining lWholeDCPList iCurrentDTD) ∧
      (out.classes c).cumuPriceDemStdDev ^ 2 = varianceShare (estimate i) (overFRAT5 F.frat5Curve fun f' =>
        sellUpFactor f' (f.classes c).yield (f.classes lowest).yield) (remaining lWholeDCPList iCurrentDTD) := by
  have hmem := List.mem_of_getElem? hF
  have hzero : ∀ d ∈ F.bookingClasses,
      (setDemandForecastsToZero cabin f).classes d = (f.classes d).withoutDemand := fun d hd =>
    setDemandForecastsToZero_classes f (cabin.union.mem_iff.2 (List.mem_flatMap.2 ⟨F, hmem, hd⟩))
  have hreceived := (NewQFF.forecastFamilies_spec _ 0 _ out cabin.nodup h).1 i F hF
  rw [Nat.zero_add] at hreceived
  obtain ⟨lowest, hlow, hlast, hrec⟩ := cumuPrice_share hreceived (fun d hd => by
    rw [hzero d hd]; exact hcabin.positive F hmem d hd) hc
  rw [hzero c hc, hzero lowest hlow] at hrec
  have hshares := hrec.shares (k := .cumuPrice) ⟨rfl, rfl⟩
  exact ⟨lowest, hlow, hlast, fun p hp => by simpa [overFRAT5] using hrec.days p hp, hshares.1, hshares.2⟩

/-- **The variance of a class grows down its fare family** if some interval was forecast. -/
theorem variance_laddered (hcabin : Sellable cabin fun c => (f.classes c).yield)
    (hestimate : ∀ i d d', 0 < (estimate i d d').2) (hne : remaining lWholeDCPList iCurrentDTD ≠ [])
    (h : NewQFF.forecastFamilies estimate lWholeDCPList iCurrentDTD 0 cabin.fareFamilies
      (setDemandForecastsToZero cabin f) = .ok out) :
    Laddered cabin.fareFamilies fun c => (out.classes c).cumuPriceDemStdDev ^ 2 := by
  refine ⟨fun F hF c hc d hd hlt => ?_, fun F hF c hc => ?_⟩
  · obtain ⟨i, hi⟩ := List.mem_iff_getElem?.1 hF
    obtain ⟨lowest, hlow, hlast, hdays, -, hvc⟩ := cabin_shares hcabin h hi hc
    obtain ⟨lowest', -, hlast', -, -, hvd⟩ := cabin_shares hcabin h hi hd
    obtain rfl : lowest = lowest' := Option.some.inj (hlast.symm.trans hlast')
    rw [hvc, hvd]
    -- the lower class has the smaller yield
    have hyield : (f.classes d).yield < (f.classes c).yield := by
      have := List.pairwise_iff_getElem.1 (hcabin.decreasing F hF) _ _ (List.idxOf_lt_length_iff.2 hc)
        (List.idxOf_lt_length_iff.2 hd) hlt
      simpa [List.getElem_idxOf] using this
    exact varianceShare_laddered (hcabin.frat5 F hF) hdays (fun _ _ => hestimate ..) hne
      (hcabin.positive F hF lowest hlow) hyield
  · obtain ⟨i, hi⟩ := List.mem_iff_getElem?.1 hF
    obtain ⟨lowest, -, -, hdays, -, hvc⟩ := cabin_shares hcabin h hi hc
    rw [hvc]
    exact varianceShare_pos hdays (fun _ _ => hestimate ..) hne

/-- The policies that `NewQFF` leaves are consistent. -/
theorem newQFF_consistent (api : PolicyApi κ) {ps : List (Policy κ ℝ)}
    (hcabin : Sellable cabin fun c => (f.classes c).yield) (hestimate : ∀ i d d', 0 < (estimate i d d').2)
    (hshape : ∀ p ∈ ps, OneOfEach cabin.fareFamilies p.bookingClasses)
    (h : NewQFF.forecastFamilies estimate lWholeDCPList iCurrentDTD 0 cabin.fareFamilies
      (setDemandForecastsToZero cabin f) = .ok out) :
    Consistent cabin (NewQFF.dispatchDemandForecastToPolicies out.classes api ps) := by
  have hmap : ∀ p ∈ NewQFF.dispatchDemandForecastToPolicies out.classes api ps,
      OneOfEach cabin.fareFamilies p.bookingClasses ∧
      p.demand = (p.bookingClasses.map fun c => (out.classes c).cumuPriceDemMean).sum ∧
      p.stdDev ^ 2 = (p.bookingClasses.map fun c => (out.classes c).cumuPriceDemStdDev ^ 2).sum := by
    intro p hp
    obtain ⟨p₀, hp₀, rfl⟩ := List.mem_map.1 hp
    obtain ⟨hclasses, hdem, hstd⟩ := newQFF_policy (p := p₀)
    rw [hclasses]
    exact ⟨hshape p₀ hp₀, hdem, hstd⟩
  refine ⟨fun p hp => (hmap p hp).1, fun p hp q hq heq => ?_, fun p hp q hq hnest hlt => ?_⟩
  · rw [(hmap p hp).2.1, (hmap q hq).2.1, heq]
  · obtain ⟨hpShape, hpDem, hpStd⟩ := hmap p hp
    obtain ⟨hqShape, hqDem, hqStd⟩ := hmap q hq
    have hne : p.bookingClasses ≠ q.bookingClasses := fun heq => by
      rw [hpDem, hqDem, heq] at hlt; exact lt_irrefl _ hlt
    by_cases hrem : remaining lWholeDCPList iCurrentDTD = []
    · -- no interval was forecast: no policy has demand
      have hzero : ∀ cs, OneOfEach cabin.fareFamilies cs →
          (cs.map fun c => (out.classes c).cumuPriceDemMean).sum = 0 := by
        intro cs hcs
        apply List.sum_eq_zero
        intro x hx
        obtain ⟨c, hc, rfl⟩ := List.mem_map.1 hx
        obtain ⟨j, hj⟩ := List.mem_iff_getElem?.1 hc
        obtain ⟨F, hF, hcF⟩ := hcs.get hj
        obtain ⟨_, -, -, -, hmean, -⟩ := cabin_shares hcabin h hF hcF
        rw [hmean, hrem]
        simp [meanShare]
      rw [hpDem, hqDem, hzero _ hpShape, hzero _ hqShape] at hlt
      exact absurd hlt (lt_irrefl _)
    · have hlad := variance_laddered hcabin hestimate hrem h
      have hsq := sum_lt_of_nested hlad hpShape hqShape hnest hne
      rw [← hpStd, ← hqStd] at hsq
      exact lt_of_pow_lt_pow_left₀ 2 q.stdDev_nonneg hsq

end newQFF

/-! ### A step that is not nested

Three fare families with the classes 1, then 2 above 3, then 4. From the policy `(1, 3)` the hull goes
to `(1, 2, 4)`: `isNested` stops at the equal classes of the first family. The difference then walks
from class 2 upwards and never meets class 3. -/

def threeFamilyCabin : SegmentCabin ℕ ℝ where
  bookingClasses := [1, 2, 3, 4]
  fareFamilies := [⟨[1], fun _ => some (2 : ℕ)⟩, ⟨[2, 3], fun _ => some (2 : ℕ)⟩, ⟨[4], fun _ => some (2 : ℕ)⟩]
  nodup := by decide
  union := by decide

def threeFamilyYield (c : ℕ) : ℕ := if c = 1 then 10 else if c = 2 then 8 else if c = 3 then 4 else 1

noncomputable def threeFamilyForecasts : Forecasts ℕ ℝ where
  classes := fun c => ⟨threeFamilyYield c, 0, 0, 0, 0, 0, 0, 0, 0, 0⟩
  families := fun _ => ⟨0, 0⟩

/-- Mean 1, 2 and 10 for the three families, deviation 1. -/
def threeFamilyEstimate (i : ℕ) (_ _ : DTD) : ℝ × ℝ := ((if i = 0 then 1 else if i = 1 then 2 else 10 : ℕ), 1)

/-- A yield-demand map with an entry for each call: its revenue is the one of the map that adds the
demand to the entry of the yield. -/
noncomputable def entryPolicyApi : PolicyApi ℕ where
  resetDemandForecast := fun p => .withoutDemand p.bookingClasses
  addYieldDemand := fun p y d => { p with yieldDemandMap := p.yieldDemandMap ++ [(y, d)] }
  getTotalRevenue := fun p => (p.yieldDemandMap.map fun yd => yd.1 * yd.2).sum
  reset_bookingClasses := fun _ => rfl
  reset_demand := fun _ => rfl
  reset_stdDev := fun _ => rfl
  addYieldDemand_bookingClasses := fun _ _ _ => rfl

def threeFamilyPolicies : List (Policy ℕ ℝ) := [.withoutDemand [], .withoutDemand [1, 3], .withoutDemand [1, 2, 4]]

theorem threeFamily_sellable : Sellable threeFamilyCabin fun c => (threeFamilyForecasts.classes c).yield := by
  refine ⟨?_, ?_, ?_⟩
  · norm_num [threeFamilyCabin, threeFamilyForecasts, threeFamilyYield]
  · norm_num [threeFamilyCabin, threeFamilyForecasts, threeFamilyYield]
  · simp only [threeFamilyCabin, List.forall_mem_cons, Option.some.injEq]
    norm_num

theorem threeFamily_forecast_ok : ∃ out, NewQFF.forecastFamilies threeFamilyEstimate [1, 0] 2 0
    threeFamilyCabin.fareFamilies (setDemandForecastsToZero threeFamilyCabin threeFamilyForecasts) = .ok out :=
  NewQFF.forecastFamilies_ok _ 0 _ (by simp [threeFamilyCabin])

/-- The cumulative forecasts: class 2 has twice the yield of class 3, so half of its demand. -/
theorem threeFamily_cumu {out : Forecasts ℕ ℝ} (h : NewQFF.forecastFamilies threeFamilyEstimate [1, 0] 2 0
    threeFamilyCabin.fareFamilies (setDemandForecastsToZero threeFamilyCabin threeFamilyForecasts) = .ok out) :
    (out.classes 1).cumuPriceDemMean = 1 ∧ (out.classes 2).cumuPriceDemMean = 1 ∧
      (out.classes 3).cumuPriceDemMean = 2 ∧ (out.classes 4).cumuPriceDemMean = 10 := by
  have hrem : remaining [1, 0] 2 = [(1, 0)] := by decide
  have hhalf : sellUpFactor 2 8 4 = 1 / 2 := by
    have hlog : (8 / 4 - 1 : ℝ) * (Real.log 0.5 / (2 - 1)) = Real.log 0.5 := by ring
    rw [sellUpFactor, hlog, Real.exp_log (by norm_num)]
    norm_num
  have hshare : ∀ (i low : ℕ) {F : FareFamily ℕ ℝ} {c : ℕ}, threeFamilyCabin.fareFamilies[i]? = some F →
      c ∈ F.bookingClasses → F.bookingClasses.getLast? = some low → F.frat5Curve 1 = some 2 →
      (out.classes c).cumuPriceDemMean = (threeFamilyEstimate i 1 0).1 *
        sellUpFactor 2 (threeFamilyYield c) (threeFamilyYield low) := by
    intro i low F c hF hc hlow hcurve
    obtain ⟨low', -, hlow', -, hmean, -⟩ := cabin_shares threeFamily_sellable h hF hc
    obtain rfl : low = low' := Option.some.inj (hlow.symm.trans hlow')
    rw [hmean, hrem]
    simp [meanShare, overFRAT5, hcurve, threeFamilyForecasts]
  refine ⟨?_, ?_, ?_, ?_⟩
  · rw [hshare 0 1 rfl (by simp) rfl rfl, sellUpFactor_self]
    all_goals norm_num [threeFamilyEstimate, threeFamilyYield]
  · rw [hshare 1 3 rfl (by simp) rfl rfl]
    norm_num [threeFamilyEstimate, threeFamilyYield, hhalf]
  · rw [hshare 1 3 rfl (by simp) rfl rfl, sellUpFactor_self]
    all_goals norm_num [threeFamilyEstimate, threeFamilyYield]
  · rw [hshare 2 4 rfl (by simp) rfl rfl, sellUpFactor_self]
    all_goals norm_num [threeFamilyEstimate, threeFamilyYield]

/-- The policies of the example after `NewQFF`. -/
noncomputable def threeFamilyPolicy (out : Forecasts ℕ ℝ) (cs : List ℕ) : Policy ℕ ℝ :=
  NewQFF.dispatchDemandForecastToPolicy out.classes entryPolicyApi (.withoutDemand cs)

@[simp] theorem threeFamilyPolicy_bookingClasses (out : Forecasts ℕ ℝ) (cs : List ℕ) :
    (threeFamilyPolicy out cs).bookingClasses = cs := newQFF_policy.1

/-- Demand and total revenue of the three policies. -/
theorem threeFamily_policies {out : Forecasts ℕ ℝ} (h : NewQFF.forecastFamilies threeFamilyEstimate [1, 0] 2 0
    threeFamilyCabin.fareFamilies (setDemandForecastsToZero threeFamilyCabin threeFamilyForecasts) = .ok out) :
    ((threeFamilyPolicy out []).demand = 0 ∧ entryPolicyApi.getTotalRevenue (threeFamilyPolicy out []) = 0) ∧
    ((threeFamilyPolicy out [1, 3]).demand = 3 ∧ entryPolicyApi.getTotalRevenue (threeFamilyPolicy out [1, 3]) = 18) ∧
    ((threeFamilyPolicy out [1, 2, 4]).demand = 12 ∧
      entryPolicyApi.getTotalRevenue (threeFamilyPolicy out [1, 2, 4]) = 28) := by
  obtain ⟨h1, h2, h3, h4⟩ := threeFamily_cumu h
  have hyield : ∀ c ∈ threeFamilyCabin.bookingClasses, (out.classes c).yield = threeFamilyYield c := by
    intro c hc
    rw [(NewQFF.forecastFamilies_spec _ 0 _ out threeFamilyCabin.nodup h).2.1 c,
      setDemandForecastsToZero_classes _ hc]
    rfl
  have y1 := hyield 1 (by simp [threeFamilyCabin])
  have y2 := hyield 2 (by simp [threeFamilyCabin])
  have y3 := hyield 3 (by simp [threeFamilyCabin])
  have y4 := hyield 4 (by simp [threeFamilyCabin])
  refine ⟨⟨?_, ?_⟩, ⟨?_, ?_⟩, ?_, ?_⟩
  all_goals
    simp [threeFamilyPolicy, NewQFF.dispatchDemandForecastToPolicy, entryPolicyApi, Policy.withoutDemand,
      NewQFF.newPolicyDemand, h1, h2, h3, h4, y1, y2, y3, y4, threeFamilyYield] <;> norm_num

/-- No class of the second policy is found from class 2 upwards. -/
theorem threeFamily_diff (out : Forecasts ℕ ℝ) : diffBetweenTwoPolicies threeFamilyCabin []
    (threeFamilyPolicy out [1, 2, 4]) (threeFamilyPolicy out [1, 3]) = .error .secondPolicyClassNotFound := by
  have hparent : ∀ (i : ℕ) {c : ℕ} {F : FareFamily ℕ ℝ}, threeFamilyCabin.fareFamilies[i]? = some F →
      c ∈ F.bookingClasses → threeFamilyCabin.parentClasses c = F.bookingClasses :=
    fun i _ _ => SegmentCabin.parentClasses_at
  have h1 : threeFamilyCabin.parentClasses 1 = [1] := hparent 0 rfl (List.mem_singleton.2 rfl)
  have h2 : threeFamilyCabin.parentClasses 2 = [2, 3] := hparent 1 rfl List.mem_cons_self
  have h4 : threeFamilyCabin.parentClasses 4 = [4] := hparent 2 rfl (List.mem_singleton.2 rfl)
  simp [diffBetweenTwoPolicies, diffBetweenBookingClassAndPolicy, intersectionBetweenPolicyAndBookingClassList,
    h1, h2, h4]

/-- The hull goes from the empty policy to `(1, 3)` and on to `(1, 2, 4)`. -/
theorem threeFamily_hull {out : Forecasts ℕ ℝ} (h : NewQFF.forecastFamilies threeFamilyEstimate [1, 0] 2 0
    threeFamilyCabin.fareFamilies (setDemandForecastsToZero threeFamilyCabin threeFamilyForecasts) = .ok out) :
    ∃ rest, buildNestedConvexHull entryPolicyApi.getTotalRevenue threeFamilyCabin
      [threeFamilyPolicy out [], threeFamilyPolicy out [1, 3], threeFamilyPolicy out [1, 2, 4]] =
        some (threeFamilyPolicy out [] :: threeFamilyPolicy out [1, 3] :: threeFamilyPolicy out [1, 2, 4] :: rest) := by
  obtain ⟨⟨d0, r0⟩, ⟨d1, r1⟩, d2, r2⟩ := threeFamily_policies h
  have hfirst : isNested threeFamilyCabin (threeFamilyPolicy out []) (threeFamilyPolicy out [1, 3]) = true := by
    simp [isNested]
  have hstep : isNested threeFamilyCabin (threeFamilyPolicy out [1, 3]) (threeFamilyPolicy out [1, 2, 4]) = true := by
    simp [isNested, isNestedLoop]
  obtain ⟨l, hl, hclimb⟩ := buildHull_climb entryPolicyApi.getTotalRevenue (isNested threeFamilyCabin)
    (threeFamilyPolicy out []) [threeFamilyPolicy out [1, 3], threeFamilyPolicy out [1, 2, 4]]
  have hnext : (revenuePlane entryPolicyApi.getTotalRevenue (isNested threeFamilyCabin)).Next
      [threeFamilyPolicy out [], threeFamilyPolicy out [1, 3], threeFamilyPolicy out [1, 2, 4]]
      (threeFamilyPolicy out []) (threeFamilyPolicy out [1, 3]) := by
    refine ⟨[_], [_], rfl, ⟨?_, ?_, hfirst⟩, ?_, ?_⟩
    all_goals
      simp [revenuePlane, Terrain.Ahead, Terrain.slope, d0, d1, d2, r0, r1, r2] <;> norm_num
  have hnext' : (revenuePlane entryPolicyApi.getTotalRevenue (isNested threeFamilyCabin)).Next
      [threeFamilyPolicy out [], threeFamilyPolicy out [1, 3], threeFamilyPolicy out [1, 2, 4]]
      (threeFamilyPolicy out [1, 3]) (threeFamilyPolicy out [1, 2, 4]) := by
    refine ⟨[_, _], [], rfl, ⟨?_, ?_, hstep⟩, ?_, by simp⟩
    all_goals
      simp [revenuePlane, Terrain.Ahead, Terrain.slope, d0, d1, d2, r0, r1, r2] <;> norm_num
  obtain ⟨l', rfl, hclimb'⟩ := hclimb.of_next hnext
  obtain ⟨rest, rfl, -⟩ := hclimb'.of_next hnext'
  exact ⟨rest, hl⟩

end Rmol
