import Rmol.AdjustYield
/-!
# Which node a hull step is written to

`itNode` walks over the nodes that the last run has left, and the loop appends a node where it finds none
(`MarginalRevenueTransformation.cpp:190`, "If there isn't any node left, create new one"). The iterator then stays
behind the node that was appended. So `adjustYieldAndDemand` gives every hull step its own node, and the classes that
are left a further one, iff the nodes were there before (`adjustYieldAndDemand_ownNodes_iff`).

* With fewer nodes than hull steps the loop increments `itNode` at the end of the list
  (`adjustYieldAndDemand_pastEnd`).
* With as many nodes as hull steps the last node is appended to the list, and looked up in the map of the structure
  (`adjustYieldAndDemand_nullLastNode`).
-/

namespace Rmol

variable {κ : Type*} [DecidableEq κ]

/-- One node for each step of the hull. -/
noncomputable def hullNodes (getTotalRevenue : Policy κ ℝ → ℝ) (cabin : SegmentCabin κ ℝ) :
    List (Policy κ ℝ) → List (NestingNode κ)
  | p :: q :: hull => stepNode getTotalRevenue cabin p q :: hullNodes getTotalRevenue cabin (q :: hull)
  | _ => []

/-- Some class of the cabin is not among those that open between the policies. -/
def LeavesClasses (cabin : SegmentCabin κ ℝ) (e last : Policy κ ℝ) : Prop :=
  ∃ c ∈ cabin.bookingClasses,
    c ∈ opened cabin.fareFamilies e.bookingClasses ∨ c ∉ opened cabin.fareFamilies last.bookingClasses

/-- The nodes of the hull steps in their order, one more if classes are left, and empty ones. The first two hold every
class of the cabin that the policy `e` does not open. -/
def OwnNodes (getTotalRevenue : Policy κ ℝ → ℝ) (cabin : SegmentCabin κ ℝ) (e : Policy κ ℝ)
    (hull : List (Policy κ ℝ)) (nodes : List (NestingNode κ)) : Prop :=
  ∃ last rest, nodes = hullNodes getTotalRevenue cabin (e :: hull) ++ last ++ rest ∧
    last.length ≤ 1 ∧ (last ≠ [] ↔ LeavesClasses cabin e (hull.getLastD e)) ∧
    (filled (hullNodes getTotalRevenue cabin (e :: hull) ++ last) ++
      opened cabin.fareFamilies e.bookingClasses).Perm cabin.bookingClasses ∧
    ∀ node ∈ rest, node.bookingClasses = []

section hull
variable {getTotalRevenue : Policy κ ℝ → ℝ} {cabin : SegmentCabin κ ℝ} {before : ClassStore κ ℝ}
  {e p q : Policy κ ℝ} {hull : List (Policy κ ℝ)} {run run' : AdjustRun κ}

@[simp] theorem length_hullNodes : ∀ (p : Policy κ ℝ) (hull : List (Policy κ ℝ)),
    (hullNodes getTotalRevenue cabin (p :: hull)).length = hull.length
  | _, [] => rfl
  | _, q :: hull => by simp [hullNodes, length_hullNodes q hull]

/-! ## The loop -/

/-- The nodes before `itNode` hold what has opened since the first policy. -/
theorem HullInv.mem_filled (h : HullInv cabin before e p run) {c : κ} :
    c ∈ filled run.nodes ↔ c ∈ opened cabin.fareFamilies p.bookingClasses ∧
      c ∉ opened cabin.fareFamilies e.bookingClasses := by
  have hnd := h.opens.nodup_iff.2 (opened_nodup cabin _)
  rw [← h.opens.mem_iff, List.mem_append]
  constructor
  · exact fun hc => ⟨Or.inl hc, fun he => (List.nodup_append.1 hnd).2.2 c hc c he rfl⟩
  · rintro ⟨hc | hc, hne⟩
    · exact hc
    · exact absurd hc hne

/-- The counter is below the number of classes iff classes are left. -/
theorem HullInv.counter_lt_iff (h : HullInv cabin before e p run) :
    run.lBookingClassCounter < cabin.bookingClasses.length ↔ LeavesClasses cabin e p := by
  have hnd : (filled run.nodes).Nodup := (h.opens.nodup_iff.2 (opened_nodup cabin _)).of_append_left
  have hsub : filled run.nodes ⊆ cabin.bookingClasses := fun c hc =>
    cabin.union.mem_iff.2 ((opened_sublist _ _).subset (h.mem_filled.1 hc).1)
  have hleaves : LeavesClasses cabin e p ↔ ∃ c ∈ cabin.bookingClasses, c ∉ filled run.nodes := by
    unfold LeavesClasses
    simp only [h.mem_filled, not_and_or, not_not, or_comm]
  rw [hleaves, h.counter]
  constructor
  · intro hlt
    by_contra hall
    push Not at hall
    have hle := (List.subperm_of_subset (cabin.union.nodup_iff.2 cabin.nodup) hall).length_le
    omega
  · rintro ⟨c, hc, hnot⟩
    by_contra hge
    have hperm := (List.subperm_of_subset hnd hsub).perm_of_length_le (not_lt.1 hge)
    exact hnot (hperm.mem_iff.2 hc)

/-- Without a node the step creates one, and increments `itNode` past the end. -/
theorem adjustStep_pastEnd (hchain : NestedChain cabin (p :: q :: hull)) (hrise : Rising getTotalRevenue p q)
    (hleft : run.left = []) : adjustStep getTotalRevenue cabin p q run = .error .incrementPastEnd := by
  have hcreated : (⟨0, []⟩ : NestingNode κ).bookingClasses = [] := rfl
  obtain ⟨first, tail, -, hok⟩ := adjustNode_nested hchain hrise hcreated run.classes
  simp only [adjustStep, hleft, hok, ok_bind]

/-- With a node for each step the loop writes the nodes of the hull. -/
theorem adjustLoop_hull : ∀ (p : Policy κ ℝ) (hull : List (Policy κ ℝ)) (run : AdjustRun κ),
    NestedChain cabin (p :: hull) → (p :: hull).IsChain (Rising getTotalRevenue) →
    HullInv cabin before e p run → hull.length ≤ run.left.length →
    ∃ run', adjustLoop getTotalRevenue cabin (p :: hull) run = .ok run' ∧
      HullInv cabin before e ((p :: hull).getLast (by simp)) run' ∧
      run'.nodes = run.nodes ++ hullNodes getTotalRevenue cabin (p :: hull) ∧
      run'.left = run.left.drop hull.length
  | p, [], run, _, _, hinv, _ => ⟨run, rfl, hinv, by simp [hullNodes], rfl⟩
  | p, q :: hull, run, hchain, hrise, hinv, hlen => by
    rw [List.isChain_cons_cons] at hrise
    rw [List.length_cons] at hlen
    have hleft : run.left ≠ [] := fun h => by simp [h] at hlen
    obtain ⟨_, _, run₁, -, h₁, hnodes₁, hleft₁, -, hinv₁⟩ := adjustStep_hull hchain hrise.1 hinv hleft
    obtain ⟨run₂, h₂, hinv₂, hnodes₂, hleft₂⟩ :=
      adjustLoop_hull q hull run₁ hchain.tail hrise.2 hinv₁ (by rw [hleft₁, List.length_tail]; omega)
    refine ⟨run₂, by simp [adjustLoop, h₁, h₂], hinv₂, ?_, ?_⟩
    · rw [hnodes₂, hnodes₁, hullNodes, List.append_assoc, List.singleton_append]
    · rw [hleft₂, hleft₁, List.length_cons, ← List.drop_one, List.drop_drop, Nat.add_comm]

/-- With fewer nodes than steps it does not return. -/
theorem adjustLoop_pastEnd : ∀ (p : Policy κ ℝ) (hull : List (Policy κ ℝ)) (run : AdjustRun κ),
    NestedChain cabin (p :: hull) → (p :: hull).IsChain (Rising getTotalRevenue) →
    HullInv cabin before e p run → run.left.length < hull.length →
    adjustLoop getTotalRevenue cabin (p :: hull) run = .error .incrementPastEnd
  | p, [], run, _, _, _, hlen => by simp at hlen
  | p, q :: hull, run, hchain, hrise, hinv, hlen => by
    rw [List.isChain_cons_cons] at hrise
    rw [List.length_cons] at hlen
    by_cases hleft : run.left = []
    · simp only [adjustLoop, adjustStep_pastEnd hchain hrise.1 hleft, error_bind]
    · obtain ⟨_, _, run₁, -, h₁, -, hleft₁, -, hinv₁⟩ := adjustStep_hull hchain hrise.1 hinv hleft
      have hpos := List.length_pos_of_ne_nil hleft
      have hrest := adjustLoop_pastEnd q hull run₁ hchain.tail hrise.2 hinv₁
        (by rw [hleft₁, List.length_tail]; omega)
      simp only [adjustLoop, h₁, ok_bind, hrest]

/-! ## The last node -/

/-- Where classes are left and no node, the node that is created is not found. -/
theorem adjustLastNode_null (DEFAULT_YIELD_VALUE : ℝ) (hinv : HullInv cabin before e p run)
    (hleaves : LeavesClasses cabin e p) (hleft : run.left = []) : adjustLastNode DEFAULT_YIELD_VALUE cabin p run = .error .nullLastNode := by
  have hlt := hinv.counter_lt_iff.2 hleaves
  unfold adjustLastNode
  rw [if_neg (by omega), if_pos hlt, hleft]

/-- Where classes are left, the next node takes them. -/
theorem adjustLastNode_leaves (DEFAULT_YIELD_VALUE : ℝ) (hp : OneOfEach cabin.fareFamilies p.bookingClasses)
    (hinv : HullInv cabin before e p run) (hleaves : LeavesClasses cabin e p) (hleft : run.left ≠ []) :
    ∃ lBCList, adjustLastNode DEFAULT_YIELD_VALUE cabin p run =
        .ok (run.nodes ++ ⟨DEFAULT_YIELD_VALUE, lBCList⟩ :: run.left.tail) ∧
      (lBCList ++ opened cabin.fareFamilies p.bookingClasses).Perm cabin.bookingClasses := by
  obtain ⟨node, left, hl⟩ := List.exists_cons_of_ne_nil hleft
  obtain ⟨lBCList, hok, hperm⟩ := lastNode_perm (P := p) [] hp
  have hlt := hinv.counter_lt_iff.2 hleaves
  refine ⟨lBCList, ?_, hperm.trans cabin.union.symm⟩
  unfold adjustLastNode
  rw [if_neg (by omega), if_pos hlt, hl]
  simp only [hinv.empty node (by simp [hl]), hok, ok_bind, except_pure, List.nil_append, List.tail_cons]

/-- Where none is left, the hull has opened every class of the cabin. -/
theorem adjustLastNode_none (DEFAULT_YIELD_VALUE : ℝ) (hinv : HullInv cabin before e p run)
    (hleaves : ¬ LeavesClasses cabin e p) :
    adjustLastNode DEFAULT_YIELD_VALUE cabin p run = .ok (run.nodes ++ run.left) ∧
      (opened cabin.fareFamilies p.bookingClasses).Perm cabin.bookingClasses := by
  have hge := not_lt.1 fun h => hleaves (hinv.counter_lt_iff.1 h)
  have hsub := opened_sublist cabin.fareFamilies p.bookingClasses
  have hcount := hinv.opens.length_eq
  rw [List.length_append, ← hinv.counter] at hcount
  have hunion := cabin.union.length_eq
  have hle := hsub.length_le
  refine ⟨?_, ?_⟩
  · unfold adjustLastNode
    rw [if_neg (by omega), if_neg (by omega)]
    rfl
  · rw [hsub.eq_of_length (by omega)]
    exact cabin.union.symm

end hull

/-! ## `adjustYieldAndDemand` -/

section adjust
variable {DEFAULT_YIELD_VALUE : ℝ} {getTotalRevenue : Policy κ ℝ → ℝ} {cabin : SegmentCabin κ ℝ} {e q : Policy κ ℝ}
  {hull : List (Policy κ ℝ)} {reset : List (NestingNode κ) → List (NestingNode κ)}
  {nodes : List (NestingNode κ)} {classes : ClassStore κ ℝ}

theorem HullInv.start (hempty : ∀ node ∈ reset nodes, node.bookingClasses = []) :
    HullInv cabin classes e e ⟨[], reset nodes, classes, 0⟩ :=
  ⟨by simp [filled], fun _ _ => rfl, rfl, hempty⟩

theorem adjustYieldAndDemand_pastEnd (hchain : NestedChain cabin (e :: hull))
    (hrise : (e :: hull).IsChain (Rising getTotalRevenue)) (hempty : ∀ node ∈ reset nodes, node.bookingClasses = [])
    (hnodes : (reset nodes).length < hull.length) :
    adjustYieldAndDemand DEFAULT_YIELD_VALUE getTotalRevenue cabin reset (e :: hull) nodes classes =
      .error .incrementPastEnd := by
  have hloop := adjustLoop_pastEnd e hull ⟨[], reset nodes, classes, 0⟩ hchain hrise
    (.start hempty) hnodes
  cases hull with
  | nil => simp at hnodes
  | cons q hull => simp only [adjustYieldAndDemand, hloop, error_bind]

theorem adjustYieldAndDemand_nullLastNode (hchain : NestedChain cabin (e :: hull))
    (hrise : (e :: hull).IsChain (Rising getTotalRevenue)) (hempty : ∀ node ∈ reset nodes, node.bookingClasses = [])
    (hne : hull ≠ []) (hnodes : (reset nodes).length = hull.length)
    (hleaves : LeavesClasses cabin e (hull.getLastD e)) :
    adjustYieldAndDemand DEFAULT_YIELD_VALUE getTotalRevenue cabin reset (e :: hull) nodes classes =
      .error .nullLastNode := by
  obtain ⟨run, hloop, hinv, -, hleft⟩ := adjustLoop_hull e hull ⟨[], reset nodes, classes, 0⟩
    hchain hrise (.start hempty) hnodes.ge
  have hnil : run.left = [] := by rw [hleft, ← hnodes, List.drop_length]
  rw [← List.getLast_eq_getLastD (List.cons_ne_nil e hull)] at hleaves
  obtain ⟨q, hull, rfl⟩ := List.exists_cons_of_ne_nil hne
  simp only [adjustYieldAndDemand, hloop, ok_bind, adjustLastNode_null _ hinv hleaves hnil, error_bind]

theorem adjustYieldAndDemand_ownNodes (classes : ClassStore κ ℝ) (hchain : NestedChain cabin (e :: hull))
    (hrise : (e :: hull).IsChain (Rising getTotalRevenue)) (hempty : ∀ node ∈ reset nodes, node.bookingClasses = [])
    (hne : hull ≠ []) (hnodes : hull.length ≤ (reset nodes).length)
    (hlast : LeavesClasses cabin e (hull.getLastD e) → hull.length < (reset nodes).length) :
    ∃ out, adjustYieldAndDemand DEFAULT_YIELD_VALUE getTotalRevenue cabin reset (e :: hull) nodes classes = .ok out ∧
      OwnNodes getTotalRevenue cabin e hull out.nodes := by
  obtain ⟨run, hloop, hinv, hwritten, hleft⟩ := adjustLoop_hull e hull
    ⟨[], reset nodes, classes, 0⟩ hchain hrise (.start hempty) hnodes
  rw [List.nil_append] at hwritten
  have hshape := hchain.shape _ (List.getLast_mem (List.cons_ne_nil e hull))
  have hopens := hinv.opens
  rw [hwritten] at hopens
  unfold OwnNodes
  rw [← List.getLast_eq_getLastD (List.cons_ne_nil e hull)] at hlast ⊢
  obtain ⟨q, hull, rfl⟩ := List.exists_cons_of_ne_nil hne
  by_cases hleaves : LeavesClasses cabin e ((e :: q :: hull).getLast (by simp))
  · have hsome : run.left ≠ [] := by
      rw [hleft]
      exact fun h => absurd (List.drop_eq_nil_iff.1 h) (not_le.2 (hlast hleaves))
    obtain ⟨lBCList, hok, hperm⟩ := adjustLastNode_leaves DEFAULT_YIELD_VALUE hshape hinv hleaves hsome
    refine ⟨⟨true, run.nodes ++ ⟨DEFAULT_YIELD_VALUE, lBCList⟩ :: run.left.tail, run.classes⟩, ?_,
      [⟨DEFAULT_YIELD_VALUE, lBCList⟩], run.left.tail, ?_, le_rfl, ⟨fun _ => hleaves, fun _ => by simp⟩, ?_, ?_⟩
    · simp only [adjustYieldAndDemand, hloop, ok_bind, hok, except_pure]
    · simp [hwritten]
    · rw [filled_concat]
      refine List.Perm.trans ?_ ((hopens.append_left lBCList).trans hperm)
      rw [← List.append_assoc]
      exact List.perm_append_comm.append_right _
    · exact fun node hn => hinv.empty node (List.mem_of_mem_tail hn)
  · obtain ⟨hok, hperm⟩ := adjustLastNode_none DEFAULT_YIELD_VALUE hinv hleaves
    refine ⟨⟨true, run.nodes ++ run.left, run.classes⟩, ?_, [], run.left, by simp [hwritten], by simp,
      ⟨fun h => absurd rfl h, fun h => absurd h hleaves⟩, ?_, hinv.empty⟩
    · simp only [adjustYieldAndDemand, hloop, ok_bind, hok, except_pure]
    · rw [List.append_nil]
      exact hopens.trans hperm

/-- **Every hull step has its own node, and the classes that are left a further one, iff the nodes were there.** -/
theorem adjustYieldAndDemand_ownNodes_iff (hchain : NestedChain cabin (e :: hull))
    (hrise : (e :: hull).IsChain (Rising getTotalRevenue)) (hempty : ∀ node ∈ reset nodes, node.bookingClasses = []) :
    (∃ out, adjustYieldAndDemand DEFAULT_YIELD_VALUE getTotalRevenue cabin reset (e :: hull) nodes classes = .ok out ∧
      (hull ≠ [] → OwnNodes getTotalRevenue cabin e hull out.nodes)) ↔
    (hull ≠ [] → hull.length ≤ (reset nodes).length ∧
      (LeavesClasses cabin e (hull.getLastD e) → hull.length < (reset nodes).length)) := by
  by_cases hne : hull = []
  · subst hne
    exact ⟨fun _ h => absurd rfl h, fun _ => ⟨⟨false, nodes, classes⟩, rfl, fun h => absurd rfl h⟩⟩
  constructor
  · rintro ⟨out, hout, -⟩ -
    have hle : hull.length ≤ (reset nodes).length := by
      by_contra hlt
      rw [adjustYieldAndDemand_pastEnd hchain hrise hempty (not_le.1 hlt)] at hout
      cases hout
    refine ⟨hle, fun hleaves => ?_⟩
    by_contra hge
    rw [adjustYieldAndDemand_nullLastNode hchain hrise hempty hne (le_antisymm (not_lt.1 hge) hle) hleaves] at hout
    cases hout
  · intro h
    obtain ⟨out, hout, hown⟩ := adjustYieldAndDemand_ownNodes classes hchain hrise hempty hne (h hne).1 (h hne).2
    exact ⟨out, hout, fun _ => hown⟩

end adjust

/-! ### The hull of three policies

Its two steps open the classes 2, 1 and 3, and class 4 is left. -/

def resetNodes (nodes : List (NestingNode ℕ)) : List (NestingNode ℕ) := nodes.map fun n => { n with bookingClasses := [] }

theorem resetNodes_empty (nodes : List (NestingNode ℕ)) : ∀ node ∈ resetNodes nodes, node.bookingClasses = [] := by
  intro node hnode
  obtain ⟨n, -, rfl⟩ := List.mem_map.1 hnode
  rfl

/-- Three nodes are enough: the last one takes class 4. -/
theorem adjustYieldAndDemand_ownNodes_threeNodes : ∃ out,
    adjustYieldAndDemand 0 firstRevenue oneTwoCabin resetNodes risingHull [emptyNode, emptyNode, emptyNode] noDemand =
      .ok out ∧
    OwnNodes firstRevenue oneTwoCabin (risingPolicy [] 0 0) risingHull.tail out.nodes := by
  obtain ⟨out, hout, hown⟩ := (adjustYieldAndDemand_ownNodes_iff risingHull_chain risingHull_rising
    (resetNodes_empty [emptyNode, emptyNode, emptyNode])).2 fun _ =>
      ⟨by simp [resetNodes], fun _ => by simp [resetNodes]⟩
  exact ⟨out, hout, hown (by simp)⟩

/-- Without a node the first increment is past the end; with a node for each step the last node is not found. -/
theorem adjustYieldAndDemand_not_ownNodes :
    adjustYieldAndDemand 0 firstRevenue oneTwoCabin resetNodes risingHull [] noDemand = .error .incrementPastEnd ∧
    adjustYieldAndDemand 0 firstRevenue oneTwoCabin resetNodes risingHull [emptyNode, emptyNode] noDemand =
      .error .nullLastNode := by
  have hleaves : LeavesClasses oneTwoCabin (risingPolicy [] 0 0) (risingPolicy [2, 3] 2 14) :=
    ⟨4, by simp [oneTwoCabin], Or.inr (by simp [oneTwoCabin, risingPolicy, opened])⟩
  refine ⟨?_, ?_⟩
  · exact adjustYieldAndDemand_pastEnd risingHull_chain risingHull_rising (resetNodes_empty _) (by simp [resetNodes])
  · exact adjustYieldAndDemand_nullLastNode risingHull_chain risingHull_rising (resetNodes_empty _) (by simp)
      (by simp [resetNodes]) hleaves

end Rmol
