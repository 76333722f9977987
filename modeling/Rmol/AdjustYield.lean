import Mathlib.Analysis.Real.Sqrt
import Rmol.YieldNodes
/-!
# `adjustYieldAndDemand` (`MarginalRevenueTransformation.cpp:156-279`)

| here | there |
| --- | --- |
| `adjustNode`           | one node: difference, adjusted mean, deviation and yield (`:208-243`) |
| `adjustStep`           | the node that `itNode` points to, and `++itNode` (`:183-207`) |
| `adjustLoop`           | the loop over consecutive policies of the hull (`:183`) |
| `adjustLastNode`       | the node of the classes that are left (`:246-275`) |
| `adjustYieldAndDemand` | `:157` |

`itNode` splits the node list into the nodes before it (`nodes`) and the nodes from it on (`left`).
Where no node is left the source appends one; `itNode` stays at the end of the list, so the
increment that follows is undefined (`incrementPastEnd`), and the last node is looked up under a key
that was never entered (`nullLastNode`).

Only the first class of a node receives demand. What the transformation conserves is therefore a
sum over first classes: `Conserved` names the quantities for which a step of the hull puts exactly
its own difference on one class.
-/

namespace Rmol

variable {κ : Type*} [DecidableEq κ]

/-- A nesting node: its yield and the classes added to it. -/
structure NestingNode (κ : Type*) where
  yield : ℝ
  bookingClasses : List κ

/-- The loop state; `nodes` are the nodes before `itNode`, `left` those from it on. -/
structure AdjustRun (κ : Type*) where
  nodes : List (NestingNode κ)
  left : List (NestingNode κ)
  classes : ClassStore κ ℝ
  lBookingClassCounter : ℕ

/-- What `adjustYieldAndDemand` returns, with the node list and the classes that it leaves. -/
structure Adjusted (κ : Type*) where
  isSucceeded : Bool
  nodes : List (NestingNode κ)
  classes : ClassStore κ ℝ

/-! ## The model -/

section model
variable (DEFAULT_YIELD_VALUE : ℝ) (getTotalRevenue : Policy κ ℝ → ℝ) (cabin : SegmentCabin κ ℝ)

/-- The setters on the classes of a node (`:234-243`). -/
def adjustClasses (lFirstClass : κ) (lBCList : List κ) (lAdjustedDemMean lAdjustedDemStdDev lAdjustedYield : ℝ)
    (classes : ClassStore κ ℝ) : ClassStore κ ℝ :=
  lBCList.foldl (fun s c => s.modify c fun b => { b with adjustedYield := lAdjustedYield })
    (classes.modify lFirstClass fun b => { b with mean := lAdjustedDemMean, stdDev := lAdjustedDemStdDev })

noncomputable def adjustNode (lCurrentPolicy lNextPolicy : Policy κ ℝ) (lNode : NestingNode κ)
    (classes : ClassStore κ ℝ) : Except MrtFault (NestingNode κ × ClassStore κ ℝ) := do
  let lBCList ← diffBetweenTwoPolicies cabin lNode.bookingClasses lNextPolicy lCurrentPolicy
  let lAdjustedDemMean := lNextPolicy.demand - lCurrentPolicy.demand
  if ¬ lAdjustedDemMean > 0 then .error .adjustedDemMean
  else
    let lCurrentStdDev := lCurrentPolicy.stdDev
    let lNextStdDev := lNextPolicy.stdDev
    if ¬ lNextStdDev > lCurrentStdDev then .error .nextStdDev
    else
      let lAdjustedDemStdDev := √(lNextStdDev * lNextStdDev - lCurrentStdDev * lCurrentStdDev)
      let lAdjustedYield :=
        (getTotalRevenue lNextPolicy - getTotalRevenue lCurrentPolicy) / lAdjustedDemMean
      if ¬ lAdjustedYield > 0 then .error .adjustedYield
      else
        match lBCList with
        | [] => .error .emptyNode
        | lFirstClass :: _ =>
          return (⟨lAdjustedYield, lBCList⟩,
            adjustClasses lFirstClass lBCList lAdjustedDemMean lAdjustedDemStdDev lAdjustedYield classes)

noncomputable def adjustStep (lCurrentPolicy lNextPolicy : Policy κ ℝ) (run : AdjustRun κ) :
    Except MrtFault (AdjustRun κ) :=
  match run.left with
  | lNode :: left => do
    let (lNode, classes) ← adjustNode getTotalRevenue cabin lCurrentPolicy lNextPolicy lNode run.classes
    return ⟨run.nodes ++ [lNode], left, classes, run.lBookingClassCounter + lNode.bookingClasses.length⟩
  | [] => do
    -- the node created here is adjusted, but `++itNode` follows
    let _ ← adjustNode getTotalRevenue cabin lCurrentPolicy lNextPolicy ⟨0, []⟩ run.classes
    .error .incrementPastEnd

noncomputable def adjustLoop : List (Policy κ ℝ) → AdjustRun κ → Except MrtFault (AdjustRun κ)
  | lCurrentPolicy :: lNextPolicy :: lConvexHull, run => do
    let run ← adjustStep getTotalRevenue cabin lCurrentPolicy lNextPolicy run
    adjustLoop (lNextPolicy :: lConvexHull) run
  | _, run => return run

/-- The node takes the yield that `computeLastNode` gives it (`PolicyHelper.cpp:169`); its classes keep the yields that
they have. -/
def adjustLastNode (lLastPolicy : Policy κ ℝ) (run : AdjustRun κ) : Except MrtFault (List (NestingNode κ)) :=
  if cabin.bookingClasses.length < run.lBookingClassCounter then .error .moreClassesThanCabin
  else if run.lBookingClassCounter < cabin.bookingClasses.length then
    match run.left with
    | lLastNode :: left => do
      let lBCList ← computeLastNode cabin lLastNode.bookingClasses lLastPolicy
      return run.nodes ++ ⟨DEFAULT_YIELD_VALUE, lBCList⟩ :: left
    | [] => .error .nullLastNode
  else return run.nodes ++ run.left

/-- `resetYieldBasedNestingStructure` and `DEFAULT_YIELD_VALUE` are StdAir's: the first empties the nodes of the
yield-based structure. -/
noncomputable def adjustYieldAndDemand
    (resetYieldBasedNestingStructure : List (NestingNode κ) → List (NestingNode κ))
    (lConvexHull : List (Policy κ ℝ)) (nodes : List (NestingNode κ)) (classes : ClassStore κ ℝ) :
    Except MrtFault (Adjusted κ) :=
  match lConvexHull with
  | [] => .error .emptyConvexHull
  | [_] => return ⟨false, nodes, classes⟩
  | lFirstPolicy :: lConvexHull => do
    let run ← adjustLoop getTotalRevenue cabin (lFirstPolicy :: lConvexHull)
      ⟨[], resetYieldBasedNestingStructure nodes, classes, 0⟩
    let nodes ← adjustLastNode DEFAULT_YIELD_VALUE cabin ((lFirstPolicy :: lConvexHull).getLast (by simp)) run
    return ⟨true, nodes, run.classes⟩

end model

/-! ## One node -/

section node
variable {getTotalRevenue : Policy κ ℝ → ℝ} {cabin : SegmentCabin κ ℝ} {p q : Policy κ ℝ}
  {classes : ClassStore κ ℝ} {c f : κ} {l : List κ}

/-- What the source checks of a step besides its classes. -/
structure Rising (getTotalRevenue : Policy κ ℝ → ℝ) (p q : Policy κ ℝ) : Prop where
  demand : p.demand < q.demand
  totalRevenue : getTotalRevenue p < getTotalRevenue q
  stdDev : p.stdDev < q.stdDev

/-- The classes after the step from `p` to `q`, whose node holds `l` with the first class `f`. -/
noncomputable def stepClasses (getTotalRevenue : Policy κ ℝ → ℝ) (p q : Policy κ ℝ) (f : κ) (l : List κ)
    (classes : ClassStore κ ℝ) : ClassStore κ ℝ :=
  adjustClasses f l (q.demand - p.demand) √(q.stdDev * q.stdDev - p.stdDev * p.stdDev)
    ((getTotalRevenue q - getTotalRevenue p) / (q.demand - p.demand)) classes

/-- What the first class of the node becomes in the step from `p` to `q`. -/
noncomputable def stepFirst (getTotalRevenue : Policy κ ℝ → ℝ) (p q : Policy κ ℝ) (b : BookingClass ℝ) :
    BookingClass ℝ :=
  { b with
    mean := q.demand - p.demand
    stdDev := √(q.stdDev * q.stdDev - p.stdDev * p.stdDev)
    adjustedYield := (getTotalRevenue q - getTotalRevenue p) / (q.demand - p.demand) }

/-- Classes that are not in the node keep their attributes. -/
theorem stepClasses_of_notMem (hf : f ∈ l) (hc : c ∉ l) :
    stepClasses getTotalRevenue p q f l classes c = classes c := by
  unfold stepClasses adjustClasses
  rw [ClassStore.foldl_modify_of_notMem _ _ hc, ClassStore.modify_of_ne]
  exact fun h => hc (h ▸ hf)

/-- The first class of the node gets the demand and the yield of the step. -/
theorem stepClasses_first (hn : l.Nodup) (hf : f ∈ l) :
    stepClasses getTotalRevenue p q f l classes f = stepFirst getTotalRevenue p q (classes f) := by
  unfold stepClasses adjustClasses
  rw [ClassStore.foldl_modify_of_mem _ _ hn hf, ClassStore.modify_self]
  rfl

/-- The other classes of the node get no demand. -/
theorem stepClasses_other (hn : l.Nodup) (hc : c ∈ l) (hne : c ≠ f) :
    (stepClasses getTotalRevenue p q f l classes c).mean = (classes c).mean ∧
      (stepClasses getTotalRevenue p q f l classes c).stdDev = (classes c).stdDev := by
  unfold stepClasses adjustClasses
  rw [ClassStore.foldl_modify_of_mem _ _ hn hc, ClassStore.modify_of_ne _ _ hne]
  exact ⟨rfl, rfl⟩

/-- The checks of a step pass iff demand, deviation and revenue rise and the difference is there. -/
theorem adjustNode_ok_iff {r : NestingNode κ × ClassStore κ ℝ} {node : NestingNode κ} :
    adjustNode getTotalRevenue cabin p q node classes = .ok r ↔
      Rising getTotalRevenue p q ∧ ∃ first tail,
        diffBetweenTwoPolicies cabin node.bookingClasses q p = .ok (first :: tail) ∧
        r = (⟨(getTotalRevenue q - getTotalRevenue p) / (q.demand - p.demand), first :: tail⟩,
          stepClasses getTotalRevenue p q first (first :: tail) classes) := by
  unfold adjustNode stepClasses
  cases hd : diffBetweenTwoPolicies cabin node.bookingClasses q p with
  | error e => simp
  | ok lBCList =>
    simp only [ok_bind]
    by_cases hdem : p.demand < q.demand
    · have hpos : 0 < q.demand - p.demand := sub_pos.2 hdem
      by_cases hstd : p.stdDev < q.stdDev
      · by_cases hrev : getTotalRevenue p < getTotalRevenue q
        · have hyield := div_pos (sub_pos.2 hrev) hpos
          have hrise : Rising getTotalRevenue p q := ⟨hdem, hrev, hstd⟩
          cases lBCList with
          | nil => simp [hpos, hstd, hyield]
          | cons first tail => simp [hpos, hstd, hyield, hrise, eq_comm]
        · have hyield : ¬ 0 < (getTotalRevenue q - getTotalRevenue p) / (q.demand - p.demand) :=
            fun h => hrev (sub_pos.1 ((div_pos_iff_of_pos_right hpos).1 h))
          have hrise : ¬ Rising getTotalRevenue p q := fun h => hrev h.totalRevenue
          simp [hpos, hstd, hyield, hrise]
      · have hrise : ¬ Rising getTotalRevenue p q := fun h => hstd h.stdDev
        simp [hpos, hstd, hrise]
    · have hrise : ¬ Rising getTotalRevenue p q := fun h => hdem h.demand
      simp [hdem, hrise]

end node

/-! ## The whole hull -/

/-- A quantity `w` of the classes and a quantity `F` of the policies such that every step of a hull
puts the difference of `F` on the class that receives its demand. -/
structure Conserved (getTotalRevenue : Policy κ ℝ → ℝ) (w : BookingClass ℝ → ℝ) (F : Policy κ ℝ → ℝ) : Prop where
  zero : ∀ b, b.mean = 0 → b.stdDev = 0 → w b = 0
  step : ∀ b p q, Rising getTotalRevenue p q → w (stepFirst getTotalRevenue p q b) = F q - F p

omit [DecidableEq κ] in
theorem conserved_demand (getTotalRevenue : Policy κ ℝ → ℝ) :
    Conserved getTotalRevenue BookingClass.mean Policy.demand :=
  ⟨fun _ h _ => h, fun _ _ _ _ => rfl⟩

omit [DecidableEq κ] in
theorem conserved_revenue (getTotalRevenue : Policy κ ℝ → ℝ) :
    Conserved getTotalRevenue (fun b => b.mean * b.adjustedYield) getTotalRevenue :=
  ⟨fun _ h _ => by simp [h], fun _ _ _ h => mul_div_cancel₀ _ (sub_pos.2 h.demand).ne'⟩

omit [DecidableEq κ] in
theorem conserved_variance (getTotalRevenue : Policy κ ℝ → ℝ) :
    Conserved getTotalRevenue (fun b => b.stdDev ^ 2) (fun p => p.stdDev ^ 2) := by
  refine ⟨fun _ _ h => by simp [h], fun _ p q h => ?_⟩
  have hp := p.stdDev_nonneg
  have hle : p.stdDev * p.stdDev ≤ q.stdDev * q.stdDev :=
    mul_self_le_mul_self hp h.stdDev.le
  simp only [stepFirst, Real.sq_sqrt (sub_nonneg.2 hle), sq]

/-- The classes of some nodes. -/
def filled (nodes : List (NestingNode κ)) : List κ := nodes.flatMap NestingNode.bookingClasses

/-- The sum of a quantity over some classes. -/
def total (w : BookingClass ℝ → ℝ) (classes : ClassStore κ ℝ) (l : List κ) : ℝ :=
  (l.map fun c => w (classes c)).sum

section total
variable {w : BookingClass ℝ → ℝ} {classes classes' : ClassStore κ ℝ} {l l' : List κ}

omit [DecidableEq κ] in
theorem total_perm (h : l.Perm l') : total w classes l = total w classes l' := (h.map _).sum_eq

omit [DecidableEq κ] in
theorem total_append : total w classes (l ++ l') = total w classes l + total w classes l' := by
  simp [total]

omit [DecidableEq κ] in
theorem total_cons {c : κ} : total w classes (c :: l) = w (classes c) + total w classes l := by
  simp [total]

omit [DecidableEq κ] in
theorem total_congr (h : ∀ c ∈ l, classes c = classes' c) : total w classes l = total w classes' l := by
  unfold total
  rw [List.map_congr_left fun c hc => by rw [h c hc]]

omit [DecidableEq κ] in
theorem total_eq_zero (h : ∀ c ∈ l, w (classes c) = 0) : total w classes l = 0 := by
  apply List.sum_eq_zero
  intro x hx
  obtain ⟨c, hc, rfl⟩ := List.mem_map.1 hx
  exact h c hc

end total

/-- In a new node the first class carries the step and the others nothing. -/
theorem total_stepClasses {getTotalRevenue : Policy κ ℝ → ℝ} {w : BookingClass ℝ → ℝ} {F : Policy κ ℝ → ℝ}
    {p q : Policy κ ℝ} {classes : ClassStore κ ℝ} {first : κ} {tail : List κ}
    (hwF : Conserved getTotalRevenue w F) (hrise : Rising getTotalRevenue p q) (hn : (first :: tail).Nodup)
    (hzero : ∀ c ∈ tail, (classes c).mean = 0 ∧ (classes c).stdDev = 0) :
    total w (stepClasses getTotalRevenue p q first (first :: tail) classes) (first :: tail) = F q - F p := by
  have hothers : total w (stepClasses getTotalRevenue p q first (first :: tail) classes) tail = 0 := by
    apply total_eq_zero
    intro c hc
    have hcf : c ≠ first := fun h => (List.nodup_cons.1 hn).1 (h ▸ hc)
    obtain ⟨hm, hs⟩ := stepClasses_other (p := p) (q := q)
      hn (List.mem_cons_of_mem _ hc) hcf
    obtain ⟨hm0, hs0⟩ := hzero c hc
    exact hwF.zero _ (hm.trans hm0) (hs.trans hs0)
  rw [total_cons, hothers, add_zero, stepClasses_first hn List.mem_cons_self, hwF.step _ p q hrise]

/-- After the steps up to the policy `p`: the nodes before `itNode` hold the classes that opened since
the first policy `e`, and no other class has changed. -/
structure HullInv (cabin : SegmentCabin κ ℝ) (before : ClassStore κ ℝ) (e p : Policy κ ℝ) (run : AdjustRun κ) :
    Prop where
  opens : (filled run.nodes ++ opened cabin.fareFamilies e.bookingClasses).Perm
    (opened cabin.fareFamilies p.bookingClasses)
  frame : ∀ c, c ∉ filled run.nodes → run.classes c = before c
  counter : run.lBookingClassCounter = (filled run.nodes).length
  empty : ∀ node ∈ run.left, node.bookingClasses = []

/-- As `HullInv`, and the classes of the nodes carry what `p` has more than `e`. -/
structure AdjustInv (getTotalRevenue : Policy κ ℝ → ℝ) (cabin : SegmentCabin κ ℝ) (before : ClassStore κ ℝ)
    (e p : Policy κ ℝ) (run : AdjustRun κ) : Prop where
  opens : (filled run.nodes ++ opened cabin.fareFamilies e.bookingClasses).Perm
    (opened cabin.fareFamilies p.bookingClasses)
  frame : ∀ c, c ∉ filled run.nodes → run.classes c = before c
  carried : ∀ w F, Conserved getTotalRevenue w F → total w run.classes (filled run.nodes) = F p - F e
  counter : run.lBookingClassCounter = (filled run.nodes).length
  empty : ∀ node ∈ run.left, node.bookingClasses = []

section conservation
variable {DEFAULT_YIELD_VALUE : ℝ} {getTotalRevenue : Policy κ ℝ → ℝ} {cabin : SegmentCabin κ ℝ} {before : ClassStore κ ℝ}
  {e p q : Policy κ ℝ} {hull : List (Policy κ ℝ)} {run : AdjustRun κ}

theorem opened_nodup (cabin : SegmentCabin κ ℝ) (cs : List κ) : (opened cabin.fareFamilies cs).Nodup :=
  (opened_sublist _ _).nodup cabin.nodup

theorem AdjustInv.hullInv (h : AdjustInv getTotalRevenue cabin before e p run) : HullInv cabin before e p run :=
  ⟨h.opens, h.frame, h.counter, h.empty⟩

/-- The node of the step from `p` to `q`. -/
noncomputable def stepNode (getTotalRevenue : Policy κ ℝ → ℝ) (cabin : SegmentCabin κ ℝ) (p q : Policy κ ℝ) :
    NestingNode κ :=
  ⟨(getTotalRevenue q - getTotalRevenue p) / (q.demand - p.demand),
    gap cabin.fareFamilies p.bookingClasses q.bookingClasses⟩

omit [DecidableEq κ] in
theorem filled_concat {nodes : List (NestingNode κ)} {node : NestingNode κ} :
    filled (nodes ++ [node]) = filled nodes ++ node.bookingClasses := by
  simp [filled]

/-- What a step of a nested hull writes into its node and onto the classes. -/
theorem adjustNode_nested (hchain : NestedChain cabin (p :: q :: hull)) (hrise : Rising getTotalRevenue p q)
    {node : NestingNode κ} (hnode : node.bookingClasses = []) (classes : ClassStore κ ℝ) :
    ∃ first tail, (stepNode getTotalRevenue cabin p q).bookingClasses = first :: tail ∧
      adjustNode getTotalRevenue cabin p q node classes =
        .ok (stepNode getTotalRevenue cabin p q,
          stepClasses getTotalRevenue p q first (first :: tail) classes) := by
  obtain ⟨hdiff, hne⟩ := hchain.diff
  obtain ⟨first, tail, hgap⟩ := List.exists_cons_of_ne_nil hne
  refine ⟨first, tail, hgap, adjustNode_ok_iff.2 ⟨hrise, first, tail, ?_, ?_⟩⟩
  · rw [hnode, hdiff, hgap]
  · rw [stepNode, hgap]

/-- The classes of a step are open in its policy and in no node before. -/
theorem HullInv.opens_step (hinv : HullInv cabin before e p run) (hchain : NestedChain cabin (p :: q :: hull)) :
    (filled run.nodes ++ (stepNode getTotalRevenue cabin p q).bookingClasses ++
        opened cabin.fareFamilies e.bookingClasses).Perm (opened cabin.fareFamilies q.bookingClasses) := by
  refine ((List.perm_append_comm.append_right _).trans ?_).trans (gap_append_opened hchain.nested)
  rw [List.append_assoc]
  exact hinv.opens.append_left _

theorem HullInv.step_classes (hinv : HullInv cabin before e p run) (hchain : NestedChain cabin (p :: q :: hull)) :
    (stepNode getTotalRevenue cabin p q).bookingClasses.Nodup ∧
      ∀ c ∈ (stepNode getTotalRevenue cabin p q).bookingClasses, c ∉ filled run.nodes ∧ c ∈ cabin.bookingClasses := by
  have hopens : (filled run.nodes ++ (stepNode getTotalRevenue cabin p q).bookingClasses ++
      opened cabin.fareFamilies e.bookingClasses).Perm _ := hinv.opens_step hchain
  have hnd := (hopens.nodup_iff.2 (opened_nodup cabin _)).of_append_left
  obtain ⟨-, hgnd, hdisj⟩ := List.nodup_append.1 hnd
  refine ⟨hgnd, ?_⟩
  intro c hc
  refine ⟨fun hf => hdisj c hf c hc rfl, cabin.union.mem_iff.2 ((opened_sublist _ _).subset (hopens.subset ?_))⟩
  exact List.mem_append_left _ (List.mem_append_right _ hc)

/-- **One step of the hull** fills the node that `itNode` points to and goes on to the next one. -/
theorem adjustStep_hull (hchain : NestedChain cabin (p :: q :: hull)) (hrise : Rising getTotalRevenue p q)
    (hinv : HullInv cabin before e p run) (hleft : run.left ≠ []) :
    ∃ first tail run', (stepNode getTotalRevenue cabin p q).bookingClasses = first :: tail ∧
      adjustStep getTotalRevenue cabin p q run = .ok run' ∧
      run'.nodes = run.nodes ++ [stepNode getTotalRevenue cabin p q] ∧ run'.left = run.left.tail ∧
      run'.classes = stepClasses getTotalRevenue p q first (first :: tail) run.classes ∧
      HullInv cabin before e q run' := by
  obtain ⟨node, left, hl⟩ := List.exists_cons_of_ne_nil hleft
  obtain ⟨first, tail, hgap, hok⟩ :=
    adjustNode_nested hchain hrise (hinv.empty node (by simp [hl])) run.classes
  have hopens : (filled run.nodes ++ (stepNode getTotalRevenue cabin p q).bookingClasses ++
      opened cabin.fareFamilies e.bookingClasses).Perm _ := hinv.opens_step hchain
  have hstep : adjustStep getTotalRevenue cabin p q run = .ok ⟨run.nodes ++ [stepNode getTotalRevenue cabin p q], left,
      stepClasses getTotalRevenue p q first (first :: tail) run.classes,
      run.lBookingClassCounter + (stepNode getTotalRevenue cabin p q).bookingClasses.length⟩ := by
    simp only [adjustStep, hl, hok, ok_bind, except_pure]
  refine ⟨first, tail, _, hgap, hstep, rfl, by simp [hl], rfl, ?_, ?_, ?_, ?_⟩
  · rw [filled_concat]
    exact hopens
  · intro c hc
    rw [filled_concat, hgap, List.mem_append, not_or] at hc
    rw [← hinv.frame c hc.1]
    exact stepClasses_of_notMem List.mem_cons_self hc.2
  · rw [filled_concat, List.length_append, ← hinv.counter]
  · exact fun n hn => hinv.empty n (by simp [hl, hn])

/-- The step also puts what it adds onto the classes of its node. -/
theorem adjustStep_inv (hzero : ∀ c ∈ cabin.bookingClasses, (before c).mean = 0 ∧ (before c).stdDev = 0)
    (hchain : NestedChain cabin (p :: q :: hull)) (hrise : Rising getTotalRevenue p q)
    (hinv : AdjustInv getTotalRevenue cabin before e p run) (hleft : run.left ≠ []) :
    ∃ run', adjustStep getTotalRevenue cabin p q run = .ok run' ∧
      AdjustInv getTotalRevenue cabin before e q run' ∧ run'.left.length + 1 = run.left.length := by
  obtain ⟨first, tail, run', hgap, hstep, hnodes, hleft', hclasses, hinv'⟩ :=
    adjustStep_hull hchain hrise hinv.hullInv hleft
  obtain ⟨hgnd, hnew⟩ : (stepNode getTotalRevenue cabin p q).bookingClasses.Nodup ∧ _ :=
    hinv.hullInv.step_classes hchain
  rw [hgap] at hgnd hnew
  refine ⟨run', hstep, ⟨hinv'.opens, hinv'.frame, ?_, hinv'.counter, hinv'.empty⟩, ?_⟩
  · intro w F hwF
    rw [hnodes, filled_concat, total_append, hgap, hclasses]
    have hold : total w (stepClasses getTotalRevenue p q first (first :: tail) run.classes)
        (filled run.nodes) = F p - F e := by
      rw [← hinv.carried w F hwF]
      exact total_congr fun c hc => stepClasses_of_notMem List.mem_cons_self fun hg => (hnew c hg).1 hc
    have hstep : total w (stepClasses getTotalRevenue p q first (first :: tail) run.classes)
        (first :: tail) = F q - F p := by
      apply total_stepClasses hwF hrise hgnd
      intro c hc
      obtain ⟨hnot, hcabin⟩ := hnew c (List.mem_cons_of_mem _ hc)
      rw [hinv.frame c hnot]
      exact hzero c hcabin
    rw [hold, hstep]
    ring
  · rw [hleft', List.length_tail]
    have := List.length_pos_of_ne_nil hleft
    omega

/-- The loop goes through the whole hull if there are nodes enough for its steps. -/
theorem adjustLoop_inv (hzero : ∀ c ∈ cabin.bookingClasses, (before c).mean = 0 ∧ (before c).stdDev = 0) :
    ∀ (p : Policy κ ℝ) (hull : List (Policy κ ℝ)) (run : AdjustRun κ), NestedChain cabin (p :: hull) →
      (p :: hull).IsChain (Rising getTotalRevenue) → AdjustInv getTotalRevenue cabin before e p run →
      hull.length ≤ run.left.length →
      ∃ run', adjustLoop getTotalRevenue cabin (p :: hull) run = .ok run' ∧
        AdjustInv getTotalRevenue cabin before e ((p :: hull).getLast (by simp)) run' ∧
        run'.left.length + hull.length = run.left.length
  | p, [], run, _, _, hinv, _ => ⟨run, rfl, hinv, rfl⟩
  | p, q :: hull, run, hchain, hrise, hinv, hlen => by
    rw [List.isChain_cons_cons] at hrise
    rw [List.length_cons] at hlen
    have hleft : run.left ≠ [] := fun h => by simp [h] at hlen
    obtain ⟨run₁, h₁, hinv₁, hlen₁⟩ := adjustStep_inv hzero hchain hrise.1 hinv hleft
    obtain ⟨run₂, h₂, hinv₂, hlen₂⟩ :=
      adjustLoop_inv hzero q hull run₁ hchain.tail hrise.2 hinv₁ (by omega)
    refine ⟨run₂, by simp [adjustLoop, h₁, h₂], hinv₂, ?_⟩
    rw [List.length_cons]
    omega

/-- Where the invariant holds at the last policy and a node is left, the last node succeeds. -/
theorem adjustLastNode_ok (DEFAULT_YIELD_VALUE : ℝ) (hp : OneOfEach cabin.fareFamilies p.bookingClasses)
    (hinv : AdjustInv getTotalRevenue cabin before e p run) (hleft : run.left ≠ []) :
    ∃ nodes, adjustLastNode DEFAULT_YIELD_VALUE cabin p run = .ok nodes := by
  obtain ⟨node, left, hl⟩ := List.exists_cons_of_ne_nil hleft
  obtain ⟨out, hout, -⟩ := lastNode_perm node.bookingClasses hp
  have hle : run.lBookingClassCounter ≤ cabin.bookingClasses.length := by
    rw [hinv.counter, cabin.union.length_eq]
    have h₁ := hinv.opens.length_eq
    have h₂ := (opened_sublist cabin.fareFamilies p.bookingClasses).length_le
    rw [List.length_append] at h₁
    omega
  unfold adjustLastNode
  rw [if_neg (by omega), hl]
  split
  · simp only [hout, ok_bind, except_pure]
    exact ⟨_, rfl⟩
  · exact ⟨_, rfl⟩

/-- Summed over the cabin, only the classes in the nodes count. -/
theorem total_cabin (hzero : ∀ c ∈ cabin.bookingClasses, (before c).mean = 0 ∧ (before c).stdDev = 0)
    {w : BookingClass ℝ → ℝ} {F : Policy κ ℝ → ℝ} (hwF : Conserved getTotalRevenue w F)
    (hp : OneOfEach cabin.fareFamilies p.bookingClasses)
    (hinv : AdjustInv getTotalRevenue cabin before e p run) :
    total w run.classes cabin.bookingClasses = F p - F e := by
  obtain ⟨out, -, hout⟩ := lastNode_perm [] hp
  -- the classes of the cabin: below the last policy, in the nodes, open in the first policy
  have hparts : (filled run.nodes ++ (out ++ opened cabin.fareFamilies e.bookingClasses)).Perm
      cabin.bookingClasses := by
    refine List.Perm.trans ?_ ((hinv.opens.append_left out).trans (hout.trans cabin.union.symm))
    rw [← List.append_assoc, ← List.append_assoc]
    exact List.perm_append_comm.append_right _
  have hnd := (hparts.trans cabin.union).nodup_iff.2 cabin.nodup
  have hdisj := (List.nodup_append.1 hnd).2.2
  rw [← total_perm hparts, total_append, hinv.carried w F hwF, add_eq_left]
  apply total_eq_zero
  intro c hc
  have hnot : c ∉ filled run.nodes := fun hf => hdisj c hf c hc rfl
  obtain ⟨hm, hs⟩ := hzero c (hparts.subset (List.mem_append_right _ hc))
  rw [hinv.frame c hnot]
  exact hwF.zero _ hm hs

/-- **The marginal revenue transformation conserves demand, revenue and variance**: on a nested hull
with rising demand, revenue and deviation, and on classes without demand, the classes carry in the
end what the last policy has more than the first one. -/
theorem adjustYieldAndDemand_conserves {reset : List (NestingNode κ) → List (NestingNode κ)}
    {nodes : List (NestingNode κ)} (hchain : NestedChain cabin (e :: hull))
    (hrise : (e :: hull).IsChain (Rising getTotalRevenue))
    (hempty : ∀ node ∈ reset nodes, node.bookingClasses = [])
    (hnodes : (e :: hull).length ≤ (reset nodes).length)
    (hzero : ∀ c ∈ cabin.bookingClasses, (before c).mean = 0 ∧ (before c).stdDev = 0) :
    let last := (e :: hull).getLast (List.cons_ne_nil e hull)
    ∃ out, adjustYieldAndDemand DEFAULT_YIELD_VALUE getTotalRevenue cabin reset (e :: hull) nodes before = .ok out ∧
      (cabin.bookingClasses.map fun c => (out.classes c).mean).sum = last.demand - e.demand ∧
      (cabin.bookingClasses.map fun c => (out.classes c).mean * (out.classes c).adjustedYield).sum =
        getTotalRevenue last - getTotalRevenue e ∧
      (cabin.bookingClasses.map fun c => (out.classes c).stdDev ^ 2).sum = last.stdDev ^ 2 - e.stdDev ^ 2 := by
  intro last
  have hlast : OneOfEach cabin.fareFamilies last.bookingClasses :=
    hchain.shape _ (List.getLast_mem _)
  have hstart : AdjustInv getTotalRevenue cabin before e e ⟨[], reset nodes, before, 0⟩ :=
    ⟨by simp [filled], fun _ _ => rfl, fun w F _ => by simp [filled, total], rfl, hempty⟩
  rw [List.length_cons] at hnodes
  obtain ⟨run, hrun, hinv, hlen⟩ := adjustLoop_inv hzero e hull _ hchain hrise hstart (by simp; omega)
  have hleft : run.left ≠ [] := fun h => by simp [h] at hlen; omega
  obtain ⟨nodes', hok⟩ := adjustLastNode_ok DEFAULT_YIELD_VALUE hlast hinv hleft
  have hsums : ∀ w F, Conserved getTotalRevenue w F →
      total w run.classes cabin.bookingClasses = F last - F e :=
    fun w F hwF => total_cabin hzero hwF hlast hinv
  have hcarried := And.intro (hsums _ _ (conserved_demand getTotalRevenue))
    (And.intro (hsums _ _ (conserved_revenue getTotalRevenue))
      (hsums _ _ (conserved_variance getTotalRevenue)))
  cases hull with
  | nil =>
    obtain rfl : run = ⟨[], reset nodes, before, 0⟩ := (Except.ok.inj hrun).symm
    exact ⟨_, rfl, hcarried⟩
  | cons q hull =>
    refine ⟨⟨true, nodes', run.classes⟩, ?_, hcarried⟩
    simp only [adjustYieldAndDemand, hrun, ok_bind]
    rw [hok]
    rfl

end conservation

/-! ## The nodes are those of `YieldNodes.lean` -/

section nodes
variable {DEFAULT_YIELD_VALUE : ℝ} {getTotalRevenue : Policy κ ℝ → ℝ} {cabin : SegmentCabin κ ℝ} {p q : Policy κ ℝ}
  {run run' : AdjustRun κ}

theorem adjustStep_node (hempty : ∀ node ∈ run.left, node.bookingClasses = [])
    (h : adjustStep getTotalRevenue cabin p q run = .ok run') :
    ∃ node, diffBetweenTwoPolicies cabin [] q p = .ok node ∧
      run'.nodes.map NestingNode.bookingClasses = run.nodes.map NestingNode.bookingClasses ++ [node] ∧
      run.left.tail = run'.left ∧ run.left ≠ [] ∧
      run'.lBookingClassCounter = run.lBookingClassCounter + node.length := by
  unfold adjustStep at h
  cases hl : run.left with
  | nil =>
    rw [hl, bind_eq_ok] at h
    obtain ⟨_, -, h⟩ := h
    cases h
  | cons node left =>
    rw [hl, bind_eq_ok] at h
    obtain ⟨r, hr, h⟩ := h
    obtain ⟨-, first, tail, hdiff, rfl⟩ := adjustNode_ok_iff.1 hr
    rw [hempty node (by simp [hl])] at hdiff
    obtain rfl := Except.ok.inj h
    exact ⟨first :: tail, hdiff, by simp, rfl, by simp, rfl⟩

theorem adjustLoop_nodes : ∀ (hull : List (Policy κ ℝ)) (run run' : AdjustRun κ),
    (∀ node ∈ run.left, node.bookingClasses = []) → adjustLoop getTotalRevenue cabin hull run = .ok run' →
    ∃ nodes, chainNodes cabin hull = .ok nodes ∧
      run'.nodes.map NestingNode.bookingClasses = run.nodes.map NestingNode.bookingClasses ++ nodes ∧
      (∀ node ∈ run'.left, node.bookingClasses = []) ∧
      run'.lBookingClassCounter = run.lBookingClassCounter + (nodes.map List.length).sum
  | [], run, run', hempty, h | [_], run, run', hempty, h => by
    obtain rfl := Except.ok.inj h
    exact ⟨[], rfl, by simp, hempty, rfl⟩
  | p :: q :: hull, run, run', hempty, h => by
    rw [adjustLoop, bind_eq_ok] at h
    obtain ⟨run₁, h₁, h₂⟩ := h
    obtain ⟨node, hdiff, hnodes, hleft, -, hcount⟩ := adjustStep_node hempty h₁
    have hempty₁ : ∀ n ∈ run₁.left, n.bookingClasses = [] := fun n hn =>
      hempty n (List.mem_of_mem_tail (hleft ▸ hn))
    obtain ⟨nodes, hchain, hnodes', hempty', hcount'⟩ := adjustLoop_nodes (q :: hull) run₁ run' hempty₁ h₂
    refine ⟨node :: nodes, by simp [chainNodes, hdiff, hchain], ?_, hempty', ?_⟩
    · rw [hnodes', hnodes, List.append_assoc, List.singleton_append]
    · rw [hcount', hcount, List.map_cons, List.sum_cons, Nat.add_assoc]

/-- **The node list** after `adjustYieldAndDemand` on empty nodes: `yieldNodes`, then nodes that stay
empty. -/
theorem adjustYieldAndDemand_nodes {reset : List (NestingNode κ) → List (NestingNode κ)}
    {nodes : List (NestingNode κ)} {classes : ClassStore κ ℝ} {hull : List (Policy κ ℝ)} {out : Adjusted κ}
    (hempty : ∀ node ∈ reset nodes, node.bookingClasses = [])
    (h : adjustYieldAndDemand DEFAULT_YIELD_VALUE getTotalRevenue cabin reset (p :: q :: hull) nodes classes = .ok out) :
    ∃ filled rest, yieldNodes cabin (p :: q :: hull) = .ok filled ∧
      out.nodes.map NestingNode.bookingClasses = filled ++ rest ∧ ∀ l ∈ rest, l = [] := by
  rw [adjustYieldAndDemand, bind_eq_ok] at h
  · obtain ⟨run, hrun, h⟩ := h
    obtain ⟨lastNodes, hlastNodes, h⟩ := bind_eq_ok.1 h
    obtain rfl := Except.ok.inj h
    obtain ⟨ns, hchain, hns, hleft, hcount⟩ := adjustLoop_nodes _ _ _ hempty hrun
    rw [List.map_nil, List.nil_append] at hns
    rw [Nat.zero_add] at hcount
    have hget : (p :: q :: hull).getLast? = some ((p :: q :: hull).getLast (by simp)) :=
      List.getLast?_eq_some_getLast _
    simp only [yieldNodes, hget, hchain, ok_bind, ← hcount]
    have hrest : ∀ l ∈ run.left.map NestingNode.bookingClasses, l = [] := by
      simpa using hleft
    unfold adjustLastNode at hlastNodes
    split at hlastNodes
    · cases hlastNodes
    · rename_i hge
      rw [if_neg hge]
      split at hlastNodes
      · rename_i hlt
        rw [if_pos hlt]
        cases hl : run.left with
        | nil => rw [hl] at hlastNodes; cases hlastNodes
        | cons node left =>
          rw [hl] at hlastNodes hrest
          simp only [hleft node (by simp [hl]), bind_eq_ok] at hlastNodes
          obtain ⟨lLastNode, hlast, hok⟩ := hlastNodes
          obtain rfl := Except.ok.inj hok
          refine ⟨ns ++ [lLastNode], left.map NestingNode.bookingClasses, by rw [hlast]; rfl, ?_, ?_⟩
          · simp [hns]
          · exact fun l hl => hrest l (List.mem_cons_of_mem _ hl)
      · rename_i hlt
        rw [if_neg hlt]
        obtain rfl := Except.ok.inj hlastNodes
        exact ⟨ns, run.left.map NestingNode.bookingClasses, rfl, by simp [hns], hrest⟩
  · simp

end nodes

/-! ### A hull of three policies -/

section threePolicies

def oneTwoCabin : SegmentCabin ℕ ℝ where
  bookingClasses := [1, 2, 3, 4]
  fareFamilies := [⟨[1, 2], fun _ => none⟩, ⟨[3, 4], fun _ => none⟩]
  nodup := by decide
  union := by decide

/-- Deviation 0, 1 or 2 with the demand; the revenue is the first entry of the yield-demand map. -/
def risingPolicy (classes : List ℕ) (n revenue : ℕ) : Policy ℕ ℝ :=
  ⟨classes, n, n, [(revenue, 1)], Nat.cast_nonneg n⟩

def risingHull : List (Policy ℕ ℝ) := [risingPolicy [] 0 0, risingPolicy [2] 1 10, risingPolicy [2, 3] 2 14]

noncomputable def firstRevenue (p : Policy ℕ ℝ) : ℝ := (p.yieldDemandMap.map fun yd => yd.1 * yd.2).sum

def emptyNode : NestingNode ℕ := ⟨0, []⟩

noncomputable def noDemand : ClassStore ℕ ℝ := fun _ => ⟨0, 0, 0, 0, 0, 0, 0, 0, 0, 0⟩

theorem risingHull_chain : NestedChain oneTwoCabin risingHull :=
  ⟨by simp [risingHull, risingPolicy, OneOfEach, oneTwoCabin],
    by simp [risingHull, risingPolicy, Nested, oneTwoCabin]⟩

theorem risingHull_rising : risingHull.IsChain (Rising firstRevenue) := by
  refine List.isChain_cons_cons.2 ⟨⟨?_, ?_, ?_⟩, List.isChain_cons_cons.2 ⟨⟨?_, ?_, ?_⟩, by simp⟩⟩
  all_goals norm_num [risingPolicy, firstRevenue]

theorem adjustYieldAndDemand_conserves_threePolicies :
    ∃ out, adjustYieldAndDemand 0 firstRevenue oneTwoCabin (List.map fun n => { n with bookingClasses := [] })
        risingHull [emptyNode, emptyNode, emptyNode] noDemand = .ok out ∧
      ([1, 2, 3, 4].map fun c => (out.classes c).mean).sum = (2 : ℕ) - (0 : ℕ) ∧
      ([1, 2, 3, 4].map fun c => (out.classes c).mean * (out.classes c).adjustedYield).sum =
        firstRevenue (risingPolicy [2, 3] 2 14) - firstRevenue (risingPolicy [] 0 0) ∧
      ([1, 2, 3, 4].map fun c => (out.classes c).stdDev ^ 2).sum = ((2 : ℕ) : ℝ) ^ 2 - ((0 : ℕ) : ℝ) ^ 2 :=
  adjustYieldAndDemand_conserves risingHull_chain risingHull_rising
    (by simp [emptyNode]) (by simp) (by simp [noDemand])

end threePolicies

end Rmol
