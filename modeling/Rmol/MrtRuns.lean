import Rmol.AdjustNodes
import Rmol.ConvexHull
import Rmol.ForecastRuns
import Rmol.Lib.Runs
/-!
# Forecasts and transformations one after another

`adjustYieldAndDemand` gives the classes of a hull step the yield of their node (`MarginalRevenueTransformation.cpp:225`,
`:241`). The classes that are left go to the last node "with an adjusted yield of zero" (`:253`). The node has that
yield (`PolicyHelper.cpp:169`), but nothing writes it to the classes. A class that one hull opens and a later one does
not keeps the adjusted yield of the earlier run.

`mrtRun_nodeYields_iff`: the classes of all nodes carry the yields of their nodes after every transformation of a run
iff each class that a hull leaves started with an adjusted yield of zero and did not open along an earlier hull.
-/

namespace Rmol

open Runs

/-! ## The model -/

/-- A transformation of the run: the hull and what `adjustYieldAndDemand` has made of it. -/
structure MrtCall (κ : Type*) where
  lConvexHull : List (Policy κ ℝ)
  out : Adjusted κ

/-- A segment-cabin between two commands, with the transformations that were made. -/
structure MrtState (κ : Type) where
  nodes : List (NestingNode κ)
  cabinState : CabinState κ
  calls : List (MrtCall κ)

namespace MrtState
variable {κ : Type}

def classes (s : MrtState κ) : ClassStore κ ℝ := s.cabinState.forecasts.classes

/-- The hulls of the transformations. -/
def hulls (s : MrtState κ) : List (List (Policy κ ℝ)) := s.calls.map MrtCall.lConvexHull

/-- The cabin after a transformation. -/
def transformed (s : MrtState κ) (lConvexHull : List (Policy κ ℝ)) (out : Adjusted κ) : MrtState κ where
  nodes := out.nodes
  cabinState := ⟨⟨out.classes, s.cabinState.forecasts.families⟩, s.cabinState.policies⟩
  calls := s.calls ++ [⟨lConvexHull, out⟩]

@[simp] theorem transformed_hulls (s : MrtState κ) (lConvexHull : List (Policy κ ℝ)) (out : Adjusted κ) :
    (s.transformed lConvexHull out).hulls = s.hulls ++ [lConvexHull] := by
  simp [hulls, transformed]

end MrtState

variable {κ : Type} [DecidableEq κ]

/-- A forecast writes forecasts only (`forecast_sameInputs`). A transformation is `prepareDemandInput` (`:28`). -/
inductive MrtStep (DEFAULT_YIELD_VALUE : ℝ) (getTotalRevenue : Policy κ ℝ → ℝ) (cabin : SegmentCabin κ ℝ)
    (forecastCabin : ForecastCabin κ) (reset : List (NestingNode κ) → List (NestingNode κ)) : MrtState κ → MrtState κ → Prop
  | forecast {s : MrtState κ} {cabinState : CabinState κ} : SameInputs forecastCabin s.cabinState cabinState →
      MrtStep DEFAULT_YIELD_VALUE getTotalRevenue cabin forecastCabin reset s { s with cabinState }
  | transform {s : MrtState κ} {lConvexHull : List (Policy κ ℝ)} {out : Adjusted κ} :
      buildNestedConvexHull getTotalRevenue cabin s.cabinState.policies = some lConvexHull →
      adjustYieldAndDemand DEFAULT_YIELD_VALUE getTotalRevenue cabin reset lConvexHull s.nodes s.classes = .ok out →
      MrtStep DEFAULT_YIELD_VALUE getTotalRevenue cabin forecastCabin reset s (s.transformed lConvexHull out)

/-- The classes of every node have the yield of the node as their adjusted yield. -/
def CarriesNodeYields (out : Adjusted κ) : Prop :=
  ∀ node ∈ out.nodes, ∀ c ∈ node.bookingClasses, (out.classes c).adjustedYield = node.yield

/-- The class is open in the last policy of the hull and not in the first one. -/
def OpensAlong (cabin : SegmentCabin κ ℝ) : List (Policy κ ℝ) → κ → Prop
  | [], _ => False
  | e :: hull, c => c ∈ opened cabin.fareFamilies ((e :: hull).getLast (by simp)).bookingClasses ∧
      c ∉ opened cabin.fareFamilies e.bookingClasses

/-- The class is not open in the last policy. A hull of one policy is not transformed. -/
def LeftOver (cabin : SegmentCabin κ ℝ) : List (Policy κ ℝ) → κ → Prop
  | e :: q :: hull, c => c ∈ cabin.bookingClasses ∧
      c ∉ opened cabin.fareFamilies ((e :: q :: hull).getLast (by simp)).bookingClasses
  | _, _ => False

/-- Classes that a hull leaves start with an adjusted yield of zero and open along no earlier hull. -/
structure NeverStale (cabin : SegmentCabin κ ℝ) (classes : ClassStore κ ℝ) (hulls : List (List (Policy κ ℝ))) :
    Prop where
  start : ∀ hull ∈ hulls, ∀ c, LeftOver cabin hull c → (classes c).adjustedYield = 0
  moved : hulls.Pairwise fun earlier hull => ∀ c, LeftOver cabin hull c → ¬ OpensAlong cabin earlier c

/-! ## One transformation -/

/-- The classes of the nodes carry the yields of the nodes, which are positive. -/
def NodeYields (nodes : List (NestingNode κ)) (classes : ClassStore κ ℝ) : Prop :=
  ∀ node ∈ nodes, 0 < node.yield ∧ ∀ c ∈ node.bookingClasses, (classes c).adjustedYield = node.yield

section transformation
variable {DEFAULT_YIELD_VALUE : ℝ} {getTotalRevenue : Policy κ ℝ → ℝ} {cabin : SegmentCabin κ ℝ}
  {before classes : ClassStore κ ℝ} {e p q : Policy κ ℝ} {hull : List (Policy κ ℝ)} {run run' : AdjustRun κ}
  {reset : List (NestingNode κ) → List (NestingNode κ)} {nodes : List (NestingNode κ)} {out : Adjusted κ} {c : κ}

theorem stepClasses_adjustedYield {f : κ} {l : List κ} (hn : l.Nodup) (hc : c ∈ l) :
    (stepClasses getTotalRevenue p q f l classes c).adjustedYield =
      (getTotalRevenue q - getTotalRevenue p) / (q.demand - p.demand) := by
  unfold stepClasses adjustClasses
  rw [ClassStore.foldl_modify_of_mem _ _ hn hc]

/-- A step that succeeds has a node, and what it asserts holds. -/
theorem rising_of_adjustStep (h : adjustStep getTotalRevenue cabin p q run = .ok run') :
    Rising getTotalRevenue p q ∧ run.left ≠ [] := by
  unfold adjustStep at h
  cases hl : run.left with
  | nil =>
    rw [hl, bind_eq_ok] at h
    obtain ⟨_, -, h⟩ := h
    cases h
  | cons node left =>
    rw [hl, bind_eq_ok] at h
    obtain ⟨r, hr, -⟩ := h
    exact ⟨(adjustNode_ok_iff.1 hr).1, by simp⟩

theorem adjustStep_yields (hchain : NestedChain cabin (p :: q :: hull)) (hinv : HullInv cabin before e p run)
    (hyields : NodeYields run.nodes run.classes) (h : adjustStep getTotalRevenue cabin p q run = .ok run') :
    HullInv cabin before e q run' ∧ NodeYields run'.nodes run'.classes := by
  obtain ⟨hrise, hleft⟩ := rising_of_adjustStep h
  obtain ⟨first, tail, run₁, hgap, hstep, hnodes, -, hclasses, hinv'⟩ := adjustStep_hull hchain hrise hinv hleft
  obtain rfl := Except.ok.inj (hstep.symm.trans h)
  obtain ⟨hgnd, hnew⟩ : (stepNode getTotalRevenue cabin p q).bookingClasses.Nodup ∧ _ := hinv.step_classes hchain
  refine ⟨hinv', ?_⟩
  intro node hnode
  rw [hnodes, List.mem_append, List.mem_singleton] at hnode
  rw [hgap] at hgnd hnew
  rcases hnode with hnode | rfl
  · -- an earlier node: none of its classes opens in this step
    refine ⟨(hyields node hnode).1, fun c hc => ?_⟩
    have hfilled : c ∈ filled run.nodes := List.mem_flatMap.2 ⟨node, hnode, hc⟩
    rw [hclasses, stepClasses_of_notMem List.mem_cons_self fun hg => (hnew c hg).1 hfilled]
    exact (hyields node hnode).2 c hc
  · refine ⟨div_pos (sub_pos.2 hrise.totalRevenue) (sub_pos.2 hrise.demand), fun c hc => ?_⟩
    rw [hgap] at hc
    rw [hclasses, stepClasses_adjustedYield hgnd hc]
    rfl

theorem adjustLoop_yields : ∀ (p : Policy κ ℝ) (hull : List (Policy κ ℝ)) (run run' : AdjustRun κ),
    NestedChain cabin (p :: hull) → HullInv cabin before e p run → NodeYields run.nodes run.classes →
    adjustLoop getTotalRevenue cabin (p :: hull) run = .ok run' →
    HullInv cabin before e ((p :: hull).getLast (by simp)) run' ∧ NodeYields run'.nodes run'.classes
  | p, [], run, run', _, hinv, hyields, h => by
    obtain rfl := Except.ok.inj h
    exact ⟨hinv, hyields⟩
  | p, q :: hull, run, run', hchain, hinv, hyields, h => by
    rw [adjustLoop, bind_eq_ok] at h
    obtain ⟨run₁, h₁, h₂⟩ := h
    obtain ⟨hinv₁, hyields₁⟩ := adjustStep_yields hchain hinv hyields h₁
    exact adjustLoop_yields q hull run₁ run' hchain.tail hinv₁ hyields₁ h₂

/-- The nodes after the last one: those of the loop, one with the classes that are left, and empty ones. -/
theorem adjustLastNode_left (hp : OneOfEach cabin.fareFamilies p.bookingClasses)
    (hinv : HullInv cabin before e p run) (h : adjustLastNode DEFAULT_YIELD_VALUE cabin p run = .ok nodes) :
    (∀ node ∈ run.nodes, node ∈ nodes) ∧
    (∀ c ∈ cabin.bookingClasses, c ∉ opened cabin.fareFamilies p.bookingClasses →
      ∃ node ∈ nodes, node.yield = DEFAULT_YIELD_VALUE ∧ c ∈ node.bookingClasses) ∧
    ∀ node ∈ nodes, node ∈ run.nodes ∨ node.yield = DEFAULT_YIELD_VALUE ∧
      (∀ c ∈ node.bookingClasses, c ∈ cabin.bookingClasses ∧ c ∉ opened cabin.fareFamilies p.bookingClasses) ∨
      node.bookingClasses = [] := by
  by_cases hleaves : LeavesClasses cabin e p
  · have hleft : run.left ≠ [] := by
      intro hnil
      rw [adjustLastNode_null _ hinv hleaves hnil] at h
      cases h
    obtain ⟨lBCList, hok, hperm⟩ := adjustLastNode_leaves DEFAULT_YIELD_VALUE hp hinv hleaves hleft
    obtain rfl := Except.ok.inj (hok.symm.trans h)
    have hnd := (hperm.nodup_iff.2 (cabin.union.nodup_iff.2 cabin.nodup))
    refine ⟨fun node hn => List.mem_append_left _ hn, fun c hc hnot => ?_, fun node hn => ?_⟩
    · refine ⟨_, List.mem_append_right _ List.mem_cons_self, rfl, ?_⟩
      exact (List.mem_append.1 (hperm.mem_iff.2 hc)).resolve_right hnot
    · rw [List.mem_append, List.mem_cons] at hn
      rcases hn with hn | rfl | hn
      · exact .inl hn
      · refine .inr (.inl ⟨rfl, fun c hc => ⟨hperm.subset (List.mem_append_left _ hc), fun hopen => ?_⟩⟩)
        exact (List.nodup_append.1 hnd).2.2 c hc c hopen rfl
      · exact .inr (.inr (hinv.empty node (List.mem_of_mem_tail hn)))
  · obtain ⟨hok, hperm⟩ := adjustLastNode_none DEFAULT_YIELD_VALUE hinv hleaves
    obtain rfl := Except.ok.inj (hok.symm.trans h)
    refine ⟨fun node hn => List.mem_append_left _ hn, fun c hc hnot => absurd (hperm.mem_iff.2 hc) hnot, ?_⟩
    intro node hn
    exact (List.mem_append.1 hn).imp id fun hn => .inr (hinv.empty node hn)

/-- **One transformation**: classes that open along the hull have a positive adjusted yield, the other classes do not
change, and the last node agrees with its classes iff they had the yield of this node before. -/
theorem adjustYieldAndDemand_yields (hchain : NestedChain cabin hull)
    (hempty : ∀ node ∈ reset nodes, node.bookingClasses = [])
    (h : adjustYieldAndDemand DEFAULT_YIELD_VALUE getTotalRevenue cabin reset hull nodes classes = .ok out) :
    (∀ c, OpensAlong cabin hull c → 0 < (out.classes c).adjustedYield) ∧
    (∀ c, ¬ OpensAlong cabin hull c → out.classes c = classes c) ∧
    ((out.isSucceeded = true → CarriesNodeYields out) ↔
      ∀ c, LeftOver cabin hull c → (classes c).adjustedYield = DEFAULT_YIELD_VALUE) := by
  match hull, hchain, h with
  | [], _, h => cases h
  | [e], _, h =>
    obtain rfl := Except.ok.inj h
    exact ⟨fun c hc => absurd hc.1 hc.2, fun _ _ => rfl, fun _ _ hc => hc.elim, fun _ hs => by cases hs⟩
  | e :: q :: hull, hchain, h =>
    rw [adjustYieldAndDemand, bind_eq_ok] at h
    · obtain ⟨run, hloop, h⟩ := h
      obtain ⟨nodes', hlast, h⟩ := bind_eq_ok.1 h
      obtain rfl := Except.ok.inj h
      obtain ⟨hinv, hyields⟩ := adjustLoop_yields e (q :: hull) _ run hchain (.start hempty)
        (by simp [NodeYields]) hloop
      obtain ⟨hkeep, hleft, honly⟩ := adjustLastNode_left (hchain.shape _ (List.getLast_mem _)) hinv hlast
      have hopens : ∀ c, OpensAlong cabin (e :: q :: hull) c ↔ c ∈ filled run.nodes := fun c => hinv.mem_filled.symm
      have hframe : ∀ c, ¬ OpensAlong cabin (e :: q :: hull) c → run.classes c = classes c :=
        fun c hc => hinv.frame c fun hf => hc ((hopens c).2 hf)
      refine ⟨fun c hc => ?_, hframe, fun hcarries c hc => ?_, fun hzero _ node hnode c hc => ?_⟩
      · obtain ⟨node, hnode, hmem⟩ := List.mem_flatMap.1 ((hopens c).1 hc)
        obtain ⟨hpos, hcarry⟩ := hyields node hnode
        rw [hcarry c hmem]
        exact hpos
      · obtain ⟨node, hnode, hyield, hmem⟩ := hleft c hc.1 hc.2
        rw [← hframe c fun ho => hc.2 ho.1, ← hyield]
        exact hcarries rfl node hnode c hmem
      · rcases honly node hnode with hrun | ⟨hyield, hnot⟩ | hnil
        · exact (hyields node hrun).2 c hc
        · rw [hyield, ← hzero c (hnot c hc)]
          exact congrArg _ (hframe c fun ho => (hnot c hc).2 ho.1)
        · rw [hnil] at hc
          cases hc
    · simp

end transformation

/-! ## Runs -/

section runs
variable {DEFAULT_YIELD_VALUE : ℝ} {getTotalRevenue : Policy κ ℝ → ℝ} {cabin : SegmentCabin κ ℝ}
  {forecastCabin : ForecastCabin κ} {reset : List (NestingNode κ) → List (NestingNode κ)} {s₀ s s' : MrtState κ} {n : ℕ}
  {classes : ClassStore κ ℝ} {hulls : List (List (Policy κ ℝ))} {hull : List (Policy κ ℝ)}

theorem neverStale_concat : NeverStale cabin classes (hulls ++ [hull]) ↔ NeverStale cabin classes hulls ∧
    ∀ c, LeftOver cabin hull c → (classes c).adjustedYield = 0 ∧
      ∀ earlier ∈ hulls, ¬ OpensAlong cabin earlier c := by
  constructor
  · rintro ⟨hstart, hmoved⟩
    obtain ⟨hbefore, -, hlast⟩ := List.pairwise_append.1 hmoved
    refine ⟨⟨fun h hh => hstart h (List.mem_append_left _ hh), hbefore⟩, fun c hc => ⟨?_, fun earlier he => ?_⟩⟩
    · exact hstart hull (List.mem_append_right _ List.mem_cons_self) c hc
    · exact hlast earlier he hull List.mem_cons_self c hc
  · rintro ⟨⟨hstart, hmoved⟩, hlast⟩
    refine ⟨fun h hh => ?_, List.pairwise_append.2 ⟨hmoved, by simp, fun earlier he h hh => ?_⟩⟩
    · rcases List.mem_append.1 hh with hh | hh
      · exact hstart h hh
      · rw [List.mem_singleton] at hh
        subst hh
        exact fun c hc => (hlast c hc).1
    · rw [List.mem_singleton] at hh
      subst hh
      exact fun c hc => (hlast c hc).2 earlier he

/-- What is known of the adjusted yields after some transformations. -/
structure YieldHistory (cabin : SegmentCabin κ ℝ) (s₀ s : MrtState κ) : Prop where
  opened : ∀ c, ∀ hull ∈ s.hulls, OpensAlong cabin hull c → 0 < (s.classes c).adjustedYield
  other : ∀ c, (∀ hull ∈ s.hulls, ¬ OpensAlong cabin hull c) →
    (s.classes c).adjustedYield = (s₀.classes c).adjustedYield
  carries_iff : (∀ call ∈ s.calls, call.out.isSucceeded = true → CarriesNodeYields call.out) ↔
    NeverStale cabin s₀.classes s.hulls

/-- An adjusted yield is zero iff it was in the beginning and the class has not opened since. -/
theorem YieldHistory.zero_iff (h : YieldHistory cabin s₀ s) (c : κ) :
    (s.classes c).adjustedYield = 0 ↔
      (s₀.classes c).adjustedYield = 0 ∧ ∀ hull ∈ s.hulls, ¬ OpensAlong cabin hull c := by
  constructor
  · intro hzero
    have hnever : ∀ hull ∈ s.hulls, ¬ OpensAlong cabin hull c := fun hull hh ho => (h.opened c hull hh ho).ne' hzero
    exact ⟨(h.other c hnever).symm.trans hzero, hnever⟩
  · rintro ⟨hzero, hnever⟩
    exact (h.other c hnever).trans hzero

theorem YieldHistory.forecast (h : YieldHistory cabin s₀ s) {cabinState : CabinState κ}
    (hsame : SameInputs forecastCabin s.cabinState cabinState) : YieldHistory cabin s₀ { s with cabinState } := by
  have hkept : ∀ c, (cabinState.forecasts.classes c).adjustedYield = (s.classes c).adjustedYield := by
    intro c
    have hattributes := congrArg BookingClass.adjustedYield (hsame.classes.attributes c)
    exact hattributes
  refine ⟨fun c hull hh ho => ?_, fun c hnever => (hkept c).trans (h.other c hnever), h.carries_iff⟩
  exact (h.opened c hull hh ho).trans_eq (hkept c).symm

theorem YieldHistory.transform (hdefault : DEFAULT_YIELD_VALUE = 0) (h : YieldHistory cabin s₀ s) {out : Adjusted κ}
    (hchain : NestedChain cabin hull) (hempty : ∀ node ∈ reset s.nodes, node.bookingClasses = [])
    (hok : adjustYieldAndDemand DEFAULT_YIELD_VALUE getTotalRevenue cabin reset hull s.nodes s.classes = .ok out) :
    YieldHistory cabin s₀ (s.transformed hull out) := by
  obtain ⟨hopened, hframe, hcarries⟩ := adjustYieldAndDemand_yields hchain hempty hok
  rw [hdefault] at hcarries
  have hhulls : (s.transformed hull out).hulls = s.hulls ++ [hull] := s.transformed_hulls hull out
  refine ⟨fun c h' hh ho => ?_, fun c hnever => ?_, ?_⟩
  · by_cases hnow : OpensAlong cabin hull c
    · exact hopened c hnow
    · rw [hhulls, List.mem_append, List.mem_singleton] at hh
      rcases hh with hh | rfl
      · exact (h.opened c h' hh ho).trans_eq (congrArg _ (hframe c hnow)).symm
      · exact absurd ho hnow
  · rw [hhulls] at hnever
    rw [← h.other c fun h' hh => hnever h' (List.mem_append_left _ hh)]
    exact congrArg _ (hframe c (hnever hull (by simp)))
  · have hcalls : (∀ call ∈ (s.transformed hull out).calls, call.out.isSucceeded = true → CarriesNodeYields call.out) ↔
        (∀ call ∈ s.calls, call.out.isSucceeded = true → CarriesNodeYields call.out) ∧
          (out.isSucceeded = true → CarriesNodeYields out) := by
      simp [MrtState.transformed, or_imp, forall_and]
    rw [hcalls, hhulls, neverStale_concat, h.carries_iff, hcarries]
    simp only [h.zero_iff]

/-- A step keeps what is known, as long as the hulls are nested chains. -/
theorem YieldHistory.step (hdefault : DEFAULT_YIELD_VALUE = 0)
    (hempty : ∀ nodes, ∀ node ∈ reset nodes, node.bookingClasses = [])
    (h : (∀ hull ∈ s.hulls, NestedChain cabin hull) → YieldHistory cabin s₀ s)
    (hstep : MrtStep DEFAULT_YIELD_VALUE getTotalRevenue cabin forecastCabin reset s s')
    (hchain : ∀ hull ∈ s'.hulls, NestedChain cabin hull) : YieldHistory cabin s₀ s' := by
  cases hstep with
  | forecast hsame => exact (h hchain).forecast hsame
  | @transform hull out _ hok =>
    rw [MrtState.transformed_hulls] at hchain
    have hbefore := h fun earlier he => hchain earlier (List.mem_append_left _ he)
    exact hbefore.transform hdefault (hchain hull (by simp)) (hempty _) hok

theorem mrtRun_history (hdefault : DEFAULT_YIELD_VALUE = 0)
    (hempty : ∀ nodes, ∀ node ∈ reset nodes, node.bookingClasses = []) (hcalls : s₀.calls = [])
    (hrun : Reaches (MrtStep DEFAULT_YIELD_VALUE getTotalRevenue cabin forecastCabin reset) s₀ n s)
    (hchain : ∀ hull ∈ s.hulls, NestedChain cabin hull) : YieldHistory cabin s₀ s := by
  have hstart : YieldHistory cabin s₀ s₀ := by
    have hhulls : s₀.hulls = [] := by rw [MrtState.hulls, hcalls, List.map_nil]
    refine ⟨by simp [hhulls], fun _ _ => rfl, ?_⟩
    rw [hcalls, hhulls]
    exact ⟨fun _ => ⟨by simp, List.Pairwise.nil⟩, fun _ => by simp⟩
  have hsteps := hrun.invariant (P := fun _ s => (∀ hull ∈ s.hulls, NestedChain cabin hull) → YieldHistory cabin s₀ s)
    (fun _ => hstart) fun _ _ _ h hstep => YieldHistory.step hdefault hempty h hstep
  exact hsteps hchain

/-- **Classes carry the yields of their nodes** after every transformation of a run iff the classes that a hull leaves
had an adjusted yield of zero in the beginning and did not open along an earlier hull. The last node has StdAir's
default yield: "an adjusted yield of zero" (`:253`). -/
theorem mrtRun_nodeYields_iff (hdefault : DEFAULT_YIELD_VALUE = 0)
    (hempty : ∀ nodes, ∀ node ∈ reset nodes, node.bookingClasses = []) (hcalls : s₀.calls = [])
    (hrun : Reaches (MrtStep DEFAULT_YIELD_VALUE getTotalRevenue cabin forecastCabin reset) s₀ n s)
    (hchain : ∀ hull ∈ s.hulls, NestedChain cabin hull) :
    (∀ call ∈ s.calls, call.out.isSucceeded = true → CarriesNodeYields call.out) ↔
      NeverStale cabin s₀.classes s.hulls :=
  (mrtRun_history hdefault hempty hcalls hrun hchain).carries_iff

end runs

/-! ### Two transformations

A forecast takes the demand for class 3 away. The second hull ends with the policy that opens the first fare family,
and class 3 stays behind with the adjusted yield 4. -/

section twoTransformations

def fewerPolicies : List (Policy ℕ ℝ) := [risingPolicy [] 0 0, risingPolicy [2] 1 10, risingPolicy [2, 3] 1 10]

def fewerHull : List (Policy ℕ ℝ) := [risingPolicy [] 0 0, risingPolicy [2] 1 10]

/-- The cabin as the forecasters see it. -/
def oneTwoForecastCabin : ForecastCabin ℕ :=
  { twoClassForecastCabin with
    bookingClasses := oneTwoCabin.bookingClasses
    fareFamilies := oneTwoCabin.fareFamilies }

noncomputable def untransformed : MrtState ℕ where
  nodes := [emptyNode, emptyNode, emptyNode]
  cabinState := ⟨⟨noDemand, fun _ => ⟨0, 0⟩⟩, risingHull⟩
  calls := []

/-- The forecast in between. -/
def fewerForecast (s : MrtState ℕ) : MrtState ℕ :=
  { s with cabinState := ⟨s.cabinState.forecasts, fewerPolicies⟩ }

theorem risingHull_built : buildNestedConvexHull firstRevenue oneTwoCabin risingHull = some risingHull := by
  have h₀ : nextPolicy firstRevenue (isNested oneTwoCabin) risingHull (risingPolicy [] 0 0) =
      some (risingPolicy [2] 1 10) := by
    norm_num [nextPolicy, scanPolicy, risingHull, risingPolicy, firstRevenue, isNested]
  have h₁ : nextPolicy firstRevenue (isNested oneTwoCabin) risingHull (risingPolicy [2] 1 10) =
      some (risingPolicy [2, 3] 2 14) := by
    norm_num [nextPolicy, scanPolicy, risingHull, risingPolicy, firstRevenue, isNested, isNestedLoop]
    rfl
  have h₂ : nextPolicy firstRevenue (isNested oneTwoCabin) risingHull (risingPolicy [2, 3] 2 14) = none := by
    norm_num [nextPolicy, scanPolicy, risingHull, risingPolicy, firstRevenue]
  simp only [risingHull, List.length_cons, List.length_nil, buildNestedConvexHull, buildHull, hullLoop] at h₀ h₁ h₂ ⊢
  simp only [h₀, h₁, h₂, Option.map_some]

theorem fewerHull_built : buildNestedConvexHull firstRevenue oneTwoCabin fewerPolicies = some fewerHull := by
  have h₀ : nextPolicy firstRevenue (isNested oneTwoCabin) fewerPolicies (risingPolicy [] 0 0) =
      some (risingPolicy [2] 1 10) := by
    norm_num [nextPolicy, scanPolicy, fewerPolicies, risingPolicy, firstRevenue, isNested]
  have h₁ : nextPolicy firstRevenue (isNested oneTwoCabin) fewerPolicies (risingPolicy [2] 1 10) = none := by
    norm_num [nextPolicy, scanPolicy, fewerPolicies, risingPolicy, firstRevenue]
  simp only [fewerPolicies, List.length_cons, List.length_nil, buildNestedConvexHull, buildHull, hullLoop] at h₀ h₁ ⊢
  simp only [h₀, h₁, Option.map_some, fewerHull]

theorem fewerHull_chain : NestedChain oneTwoCabin fewerHull :=
  ⟨by simp [fewerHull, risingPolicy, OneOfEach, oneTwoCabin], by simp [fewerHull, risingPolicy, Nested, oneTwoCabin]⟩

theorem fewerHull_rising : fewerHull.IsChain (Rising firstRevenue) := by
  refine List.isChain_cons_cons.2 ⟨⟨?_, ?_, ?_⟩, by simp⟩
  all_goals norm_num [risingPolicy, firstRevenue]

/-- A transformation with nodes enough leaves as many. -/
theorem risingHull_step {s : MrtState ℕ} (hpolicies : s.cabinState.policies = risingHull) (hlen : 3 ≤ s.nodes.length) :
    ∃ out, MrtStep 0 firstRevenue oneTwoCabin oneTwoForecastCabin resetNodes s (s.transformed risingHull out) ∧
      3 ≤ out.nodes.length := by
  have hown : ∃ out, adjustYieldAndDemand 0 firstRevenue oneTwoCabin resetNodes risingHull s.nodes s.classes = .ok out ∧
      OwnNodes firstRevenue oneTwoCabin (risingPolicy [] 0 0) [risingPolicy [2] 1 10, risingPolicy [2, 3] 2 14]
        out.nodes := by
    refine adjustYieldAndDemand_ownNodes _ risingHull_chain risingHull_rising (resetNodes_empty _) (by simp) ?_ fun _ => ?_
    all_goals
      rw [resetNodes, List.length_map, List.length_cons, List.length_singleton]
      omega
  obtain ⟨out, hok, last, rest, hnodes, -, hlast, -⟩ := hown
  have hleaves : LeavesClasses oneTwoCabin (risingPolicy [] 0 0) (risingPolicy [2, 3] 2 14) :=
    ⟨4, by simp [oneTwoCabin], Or.inr (by simp [oneTwoCabin, risingPolicy, opened])⟩
  have hpos := List.length_pos_of_ne_nil (hlast.2 hleaves)
  refine ⟨out, .transform (hpolicies ▸ risingHull_built) hok, ?_⟩
  rw [hnodes, List.length_append, List.length_append, length_hullNodes, List.length_cons, List.length_cons,
    List.length_nil]
  omega

/-- The same hull twice: what it leaves never opens along it. -/
theorem mrtRun_nodeYields_sameHull : ∃ n s,
    Reaches (MrtStep 0 firstRevenue oneTwoCabin oneTwoForecastCabin resetNodes) untransformed n s ∧
      s.hulls = [risingHull, risingHull] ∧
      ∀ call ∈ s.calls, call.out.isSucceeded = true → CarriesNodeYields call.out := by
  obtain ⟨out, hfirst, hlen⟩ := risingHull_step (s := untransformed) rfl le_rfl
  obtain ⟨out', hsecond, -⟩ := risingHull_step (s := untransformed.transformed risingHull out) rfl hlen
  have hrun := (Reaches.start.next hfirst).next hsecond
  have hhulls : ((untransformed.transformed risingHull out).transformed risingHull out').hulls =
      [risingHull, risingHull] := MrtState.transformed_hulls ..
  refine ⟨_, _, hrun, hhulls, (mrtRun_nodeYields_iff rfl resetNodes_empty rfl hrun ?_).2 ?_⟩
  · rw [hhulls]
    simp only [List.forall_mem_cons, risingHull_chain, List.not_mem_nil, false_imp_iff, implies_true, and_self]
  · rw [hhulls]
    exact ⟨fun _ _ _ _ => rfl, List.pairwise_pair.2 fun c hc ho => hc.2 ho.1⟩

/-- Class 3 carries the yield of the second node of the first transformation in the last node of the second one. -/
theorem mrtRun_stale : ∃ n s,
    Reaches (MrtStep 0 firstRevenue oneTwoCabin oneTwoForecastCabin resetNodes) untransformed n s ∧
      (∀ hull ∈ s.hulls, NestedChain oneTwoCabin hull) ∧
      ¬ ∀ call ∈ s.calls, call.out.isSucceeded = true → CarriesNodeYields call.out := by
  obtain ⟨out, hfirst, hlen⟩ := risingHull_step (s := untransformed) rfl le_rfl
  have hforecast : MrtStep 0 firstRevenue oneTwoCabin oneTwoForecastCabin resetNodes
      (untransformed.transformed risingHull out) (fewerForecast (untransformed.transformed risingHull out)) :=
    .forecast ⟨ClassFrame.refl _ _, fun _ _ => rfl, rfl⟩
  have hown : ∃ out', adjustYieldAndDemand 0 firstRevenue oneTwoCabin resetNodes fewerHull out.nodes out.classes = .ok out' ∧
      OwnNodes firstRevenue oneTwoCabin (risingPolicy [] 0 0) [risingPolicy [2] 1 10] out'.nodes := by
    refine adjustYieldAndDemand_ownNodes _ fewerHull_chain fewerHull_rising (resetNodes_empty _) (by simp) ?_ fun _ => ?_
    all_goals
      rw [resetNodes, List.length_map, List.length_singleton]
      omega
  obtain ⟨out', hok', -⟩ := hown
  have hrun := ((Reaches.start.next hfirst).next hforecast).next (.transform fewerHull_built hok')
  have hhulls : ((fewerForecast (untransformed.transformed risingHull out)).transformed fewerHull out').hulls =
      [risingHull, fewerHull] := MrtState.transformed_hulls ..
  have hchain : ∀ hull ∈ [risingHull, fewerHull], NestedChain oneTwoCabin hull := by
    simp only [List.forall_mem_cons, risingHull_chain, fewerHull_chain, List.not_mem_nil, false_imp_iff,
      implies_true, and_self]
  refine ⟨_, _, hrun, by rwa [hhulls], fun hcarries => ?_⟩
  have hstale := (mrtRun_history rfl resetNodes_empty rfl hrun (by rwa [hhulls])).carries_iff.1 hcarries
  rw [hhulls] at hstale
  have hleft : LeftOver oneTwoCabin fewerHull 3 := by
    simp [LeftOver, fewerHull, oneTwoCabin, risingPolicy, opened]
  have hopens : OpensAlong oneTwoCabin risingHull 3 := by
    simp [OpensAlong, risingHull, oneTwoCabin, risingPolicy, opened]
  exact (List.pairwise_cons.1 hstale.moved).1 fewerHull (by simp) 3 hleft hopens

end twoTransformations

end Rmol
