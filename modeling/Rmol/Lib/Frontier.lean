import Mathlib.Algebra.Order.Field.Basic
import Mathlib.Logic.Relation
import Mathlib.Data.List.Chain
import Mathlib.Tactic.Linarith
import Mathlib.Tactic.FieldSimp
import Mathlib.Tactic.Ring
/-!
# Frontiers by steepest ascent

Points of a plane are climbed from a start point: every step goes to a point that lies strictly to
the right and strictly higher, that the relation `admits` allows, and to which the slope is the
steepest one; among equally steep points the first of the list wins. The climb ends where no point
is ahead.

| here | meaning |
| --- | --- |
| `Terrain`          | two coordinates and the relation that allows a step |
| `Next ps a b`      | `b` is the step that the climb over the list `ps` takes from `a` |
| `Climb ps a l`     | the climb from `a` visits `l` and then stops |
| `Concave`          | the slopes of consecutive steps never increase |
| `NoLateGain ps s`  | no step offers a steeper continuation to a point that was not admitted before it |

The slopes can increase in one way only: a point that the step before did not admit becomes
admitted. `climb_concave_iff` turns this into an exact condition; for a transitive `admits` it
always holds (`noLateGain_of_trans`).
-/

namespace Frontier

/-- Points with an abscissa, an ordinate and the relation that allows a step between two of them. -/
structure Terrain (ι α : Type*) where
  x : ι → α
  y : ι → α
  admits : ι → ι → Prop

variable {ι α : Type*} [Field α] [LinearOrder α]

namespace Terrain

variable (T : Terrain ι α)

/-- The step from `a` to `b` goes right, goes up and is admitted. -/
def Ahead (a b : ι) : Prop := T.x a < T.x b ∧ T.y a < T.y b ∧ T.admits a b

def slope (a b : ι) : α := (T.y b - T.y a) / (T.x b - T.x a)

/-- `b` is the first of the steepest points of `ps` that are ahead of `a`. -/
def Next (ps : List ι) (a b : ι) : Prop :=
  ∃ l r, ps = l ++ b :: r ∧ T.Ahead a b ∧
    (∀ c ∈ l, T.Ahead a c → T.slope a c < T.slope a b) ∧
    (∀ c ∈ r, T.Ahead a c → T.slope a c ≤ T.slope a b)

/-- The climb from a point, with the points it visits after it. -/
inductive Climb (ps : List ι) : ι → List ι → Prop
  | stop {a : ι} : (∀ c ∈ ps, ¬ T.Ahead a c) → Climb ps a []
  | step {a b : ι} {l : List ι} : T.Next ps a b → Climb ps b l → Climb ps a (b :: l)

/-- Points that the climb from `s` comes to. -/
def Reach (ps : List ι) (s a : ι) : Prop := Relation.ReflTransGen (T.Next ps) s a

/-- Slopes of consecutive steps never increase. -/
def Concave : List ι → Prop
  | a :: b :: c :: l => T.slope b c ≤ T.slope a b ∧ Concave (b :: c :: l)
  | _ => True

/-- No step `a → b` of the climb from `s` is followed by a steeper way to a point `c` that `a`
does not admit. -/
def NoLateGain (ps : List ι) (s : ι) : Prop :=
  ∀ a b c, T.Reach ps s a → T.Next ps a b → c ∈ ps → T.Ahead b c → ¬ T.admits a c →
    T.slope b c ≤ T.slope a b

variable {T} {ps : List ι} {a b c s : ι} {l : List ι}

/-! ## Slopes -/

section slopes
variable [IsStrictOrderedRing α]

theorem Ahead.slope_pos (h : T.Ahead a b) : 0 < T.slope a b :=
  div_pos (sub_pos.2 h.2.1) (sub_pos.2 h.1)

theorem slope_mul (h : T.x a < T.x b) : T.slope a b * (T.x b - T.x a) = T.y b - T.y a :=
  div_mul_cancel₀ _ (sub_pos.2 h).ne'

/-- The slope over two steps lies between the slopes of the two: if the whole is not steeper than
the first part, the second part is not steeper either. -/
theorem slope_second_le (hab : T.x a < T.x b) (hbc : T.x b < T.x c)
    (h : T.slope a c ≤ T.slope a b) : T.slope b c ≤ T.slope a b := by
  have hac : T.x a < T.x c := hab.trans hbc
  have e1 := slope_mul (T := T) hab
  have e2 := slope_mul (T := T) hbc
  have e3 := slope_mul (T := T) hac
  have hle := mul_le_mul_of_nonneg_right h (sub_pos.2 hac).le
  -- y c - y b = (y c - y a) - (y b - y a) ≤ slope a b * (x c - x b)
  have key : T.slope b c * (T.x c - T.x b) ≤ T.slope a b * (T.x c - T.x b) := by
    rw [e2]
    have split : T.slope a b * (T.x c - T.x a) =
        T.slope a b * (T.x b - T.x a) + T.slope a b * (T.x c - T.x b) := by ring
    rw [e3, split, e1] at hle
    linarith
  exact le_of_mul_le_mul_right key (sub_pos.2 hbc)

end slopes

/-! ## One step -/

theorem Next.mem (h : T.Next ps a b) : b ∈ ps := by
  obtain ⟨l, r, rfl, _⟩ := h
  simp

theorem Next.ahead (h : T.Next ps a b) : T.Ahead a b := by
  obtain ⟨_, _, _, hab, _⟩ := h
  exact hab

/-- No point ahead is steeper than the one the climb takes. -/
theorem Next.steepest (h : T.Next ps a b) (hc : c ∈ ps) (hac : T.Ahead a c) :
    T.slope a c ≤ T.slope a b := by
  obtain ⟨l, r, rfl, _, hl, hr⟩ := h
  rcases List.mem_append.1 hc with hc | hc
  · exact (hl c hc hac).le
  · rcases List.mem_cons.1 hc with rfl | hc
    · exact le_rfl
    · exact hr c hc hac

/-- The climb is deterministic: the first of the steepest points is unique. -/
theorem Next.unique (hb : T.Next ps a b) (hc : T.Next ps a c) : b = c := by
  obtain ⟨l, r, e, hab, hl, hr⟩ := hb
  obtain ⟨l', r', e', hac, hl', hr'⟩ := hc
  rw [e] at e'
  rcases List.append_eq_append_iff.1 e' with ⟨m, rfl, hm⟩ | ⟨m, rfl, hm⟩
  · cases m with
    | nil => simp only [List.nil_append, List.cons.injEq] at hm; exact hm.1
    | cons d m =>
      simp only [List.cons_append, List.cons.injEq] at hm
      obtain ⟨rfl, rfl⟩ := hm
      exact absurd (hl' b (by simp) hab) (not_lt.2 (hr c (by simp) hac))
  · cases m with
    | nil => simp only [List.nil_append, List.cons.injEq] at hm; exact hm.1.symm
    | cons d m =>
      simp only [List.cons_append, List.cons.injEq] at hm
      obtain ⟨rfl, rfl⟩ := hm
      exact absurd (hl c (by simp) hac) (not_lt.2 (hr' b (by simp) hab))

/-- Scanning one more point that is not steeper (or not ahead) keeps the choice. -/
theorem Next.snoc_keep (h : T.Next ps a b) (hc : T.Ahead a c → T.slope a c ≤ T.slope a b) :
    T.Next (ps ++ [c]) a b := by
  obtain ⟨l, r, rfl, hab, hl, hr⟩ := h
  refine ⟨l, r ++ [c], by simp, hab, hl, fun d hd hda => ?_⟩
  rcases List.mem_append.1 hd with hd | hd
  · exact hr d hd hda
  · rw [List.mem_singleton] at hd; subst hd; exact hc hda

/-- Scanning a point that is steeper than everything before it makes it the choice. -/
theorem next_snoc (hac : T.Ahead a c) (h : ∀ d ∈ ps, T.Ahead a d → T.slope a d < T.slope a c) :
    T.Next (ps ++ [c]) a c :=
  ⟨ps, [], rfl, hac, h, by simp⟩

/-- Where some point is ahead, the climb takes a step. -/
theorem exists_next (h : ∃ c ∈ ps, T.Ahead a c) : ∃ b, T.Next ps a b := by
  induction ps using List.reverseRecOn with
  | nil => simp at h
  | append_singleton ps c ih =>
    by_cases hbefore : ∃ d ∈ ps, T.Ahead a d
    · obtain ⟨b, hb⟩ := ih hbefore
      by_cases hc : T.Ahead a c ∧ T.slope a b < T.slope a c
      · exact ⟨c, next_snoc hc.1 fun d hd hda => (hb.steepest hd hda).trans_lt hc.2⟩
      · exact ⟨b, hb.snoc_keep fun hac => not_lt.1 fun hlt => hc ⟨hac, hlt⟩⟩
    · obtain ⟨d, hd, hda⟩ := h
      rcases List.mem_append.1 hd with hd | hd
      · exact absurd ⟨d, hd, hda⟩ hbefore
      · rw [List.mem_singleton] at hd
        subst hd
        exact ⟨d, next_snoc hda fun e he hea => absurd ⟨e, he, hea⟩ hbefore⟩

/-! ## Termination -/

/-- Number of points of the list to the right of `a`: what a climb from `a` can still visit. -/
def height (T : Terrain ι α) (ps : List ι) (a : ι) : ℕ := ps.countP fun c => T.x a < T.x c

theorem Next.height_lt (h : T.Next ps a b) : T.height ps b < T.height ps a := by
  have hab := h.ahead.1
  obtain ⟨l, r, rfl, _⟩ := h
  have sub : ∀ m : List ι, T.height m b ≤ T.height m a := fun m =>
    List.countP_mono_left fun c _ hc => by
      simp only [decide_eq_true_eq] at hc ⊢
      exact hab.trans hc
  have hl := sub l
  have hr := sub r
  simp only [height, List.countP_append, List.countP_cons, lt_irrefl, hab, decide_true,
    decide_false, Bool.false_eq_true, ↓reduceIte] at hl hr ⊢
  omega

/-! ## Whole climbs -/

theorem Climb.mem (h : T.Climb ps a l) : ∀ b ∈ l, b ∈ ps := by
  induction h with
  | stop _ => simp
  | step hn _ ih =>
    intro c hc
    rcases List.mem_cons.1 hc with rfl | hc
    · exact hn.mem
    · exact ih c hc

/-- Every step of a climb goes ahead. -/
theorem Climb.isChain_ahead (h : T.Climb ps a l) : (a :: l).IsChain T.Ahead := by
  induction h with
  | stop _ => exact List.isChain_singleton _
  | step hn _ ih => exact List.isChain_cons_cons.2 ⟨hn.ahead, ih⟩

/-- Every step of a climb is the steepest one, taken at a point that the climb comes to. -/
theorem Climb.isChain_next (h : T.Climb ps a l) (hs : T.Reach ps s a) :
    (a :: l).IsChain fun b c => T.Reach ps s b ∧ T.Next ps b c := by
  induction h with
  | stop _ => exact List.isChain_singleton _
  | step hn _ ih => exact List.isChain_cons_cons.2 ⟨⟨hs, hn⟩, ih (hs.tail hn)⟩

/-- A climb takes the step that there is. -/
theorem Climb.of_next (h : T.Climb ps a l) (hn : T.Next ps a b) : ∃ l', l = b :: l' ∧ T.Climb ps b l' := by
  cases h with
  | stop hstop => exact absurd hn.ahead (hstop _ hn.mem)
  | step hn' hcl =>
    obtain rfl := hn.unique hn'
    exact ⟨_, rfl, hcl⟩

/-- What a climb comes to is what it visits: from every such point the rest of the climb goes on. -/
theorem Climb.of_reach (h : T.Climb ps s l) (hr : T.Reach ps s a) :
    ∃ m l', s :: l = m ++ a :: l' ∧ T.Climb ps a l' := by
  induction hr with
  | refl => exact ⟨[], l, rfl, h⟩
  | tail _ hn ih =>
    obtain ⟨m, l', e, hcl⟩ := ih
    obtain ⟨l'', rfl, hcl'⟩ := hcl.of_next hn
    exact ⟨m ++ [_], l'', by rw [e, List.append_assoc]; rfl, hcl'⟩

theorem Concave.of_append {m : List ι} (h : T.Concave (m ++ l)) : T.Concave l := by
  induction m with
  | nil => exact h
  | cons d m ih =>
    apply ih
    match hml : m ++ l with
    | [] | [_] => simp [Concave]
    | e :: f :: k =>
      rw [List.cons_append, hml] at h
      exact h.2

section concave
variable [IsStrictOrderedRing α]

theorem Climb.concave (h : T.Climb ps a l) (hr : T.Reach ps s a) (hlate : T.NoLateGain ps s) :
    T.Concave (a :: l) := by
  induction h with
  | stop _ => simp [Concave]
  | @step a _ _ hn hcl ih =>
    have ih' := ih (hr.tail hn)
    cases hcl with
    | stop _ => simp [Concave]
    | @step _ c _ hn2 _ =>
      refine ⟨?_, ih'⟩
      by_cases hadm : T.admits a c
      · -- `c` was already ahead of the first point, so the first step was at least as steep
        have hac := hn.ahead.1.trans hn2.ahead.1
        exact slope_second_le hn.ahead.1 hn2.ahead.1
          (hn.steepest hn2.mem ⟨hac, hn.ahead.2.1.trans hn2.ahead.2.1, hadm⟩)
      · exact hlate _ _ c hr hn hn2.mem hn2.ahead hadm

/-- **A climb is concave iff no step opens a steeper way to a point that was not admitted before.** -/
theorem climb_concave_iff (h : T.Climb ps s l) : T.Concave (s :: l) ↔ T.NoLateGain ps s := by
  refine ⟨fun hc a b c hr hn hcp hbc _ => ?_, h.concave .refl⟩
  obtain ⟨m, l', e, hcl⟩ := h.of_reach hr
  rw [e] at hc
  have hc' := hc.of_append
  -- the climb goes on from `a` to `b`, and from `b` by a step at least as steep as the one to `c`
  obtain ⟨l'', rfl, hcl'⟩ := hcl.of_next hn
  cases hcl' with
  | stop hstop => exact absurd hbc (hstop _ hcp)
  | step hn2 _ => exact (hn2.steepest hcp hbc).trans hc'.1

end concave

/-- Where `admits` is transitive on the points of the list there is no late gain. -/
theorem noLateGain_of_trans
    (h : ∀ a b c, T.Reach ps s a → b ∈ ps → c ∈ ps → T.admits a b → T.admits b c → T.admits a c) :
    T.NoLateGain ps s := fun a b c hr hn hc hbc hnot =>
  absurd (h a b c hr hn.mem hc hn.ahead.2.2 hbc.2.2) hnot

/-! ## What a climb leaves below it

Where every step is admitted, and no point over the start is higher than the start, no point is above a step of the
climb that it is not to the left of. -/

section below
variable [IsStrictOrderedRing α]

/-- The line through a step that starts at `a`. -/
def line (T : Terrain ι α) (a b c : ι) : α := T.y a + T.slope a b * (T.x c - T.x a)

theorem line_end (h : T.x a < T.x b) : T.line a b b = T.y b := by
  rw [line, slope_mul h, add_sub_cancel]

theorem Next.le_line_of_right (hadmits : ∀ a b, T.admits a b) (h : T.Next ps a b) (hc : c ∈ ps)
    (hac : T.x a < T.x c) : T.y c ≤ T.line a b c := by
  have hpos : 0 < T.x c - T.x a := sub_pos.2 hac
  rw [line, ← sub_le_iff_le_add']
  rcases le_or_gt (T.y c) (T.y a) with hlow | hhigh
  · exact (sub_nonpos.2 hlow).trans (mul_nonneg h.ahead.slope_pos.le hpos.le)
  · rw [← slope_mul hac]
    exact mul_le_mul_of_nonneg_right (h.steepest hc ⟨hac, hhigh, hadmits a c⟩) hpos.le

/-- No point over a point of the climb is higher. -/
theorem Reach.highest_over (hadmits : ∀ a b, T.admits a b) (hstart : ∀ c ∈ ps, T.x c = T.x s → T.y c ≤ T.y s)
    (hr : T.Reach ps s a) (hc : c ∈ ps) (hx : T.x c = T.x a) : T.y c ≤ T.y a := by
  cases hr with
  | refl => exact hstart c hc hx
  | @tail before _ _ hn =>
    -- the step that comes to `a` passes below no point over `a`
    have hab := hn.ahead.1
    have hle := hn.le_line_of_right hadmits hc (hx ▸ hab)
    rwa [line, hx, ← line, line_end hab] at hle

theorem Reach.le_line (hadmits : ∀ a b, T.admits a b) (hstart : ∀ c ∈ ps, T.x c = T.x s → T.y c ≤ T.y s)
    (hr : T.Reach ps s a) (h : T.Next ps a b) (hc : c ∈ ps) (hac : T.x a ≤ T.x c) : T.y c ≤ T.line a b c := by
  rcases hac.eq_or_lt with heq | hlt
  · have hle := Reach.highest_over hadmits hstart hr hc heq.symm
    rwa [line, heq, sub_self, mul_zero, add_zero]
  · exact h.le_line_of_right hadmits hc hlt

omit [IsStrictOrderedRing α] in
/-- A climb comes to its last point, and stops there. -/
theorem Climb.getLast (h : T.Climb ps a l) (hr : T.Reach ps s a) :
    T.Reach ps s ((a :: l).getLast (List.cons_ne_nil a l)) ∧
      ∀ c ∈ ps, ¬ T.Ahead ((a :: l).getLast (List.cons_ne_nil a l)) c := by
  induction h with
  | stop hstop => exact ⟨hr, hstop⟩
  | step hn _ ih =>
    rw [List.getLast_cons (List.cons_ne_nil _ _)]
    exact ih (hr.tail hn)

/-- No point to the right of the last one is higher. -/
theorem Climb.le_getLast (hadmits : ∀ a b, T.admits a b) (hstart : ∀ c ∈ ps, T.x c = T.x s → T.y c ≤ T.y s)
    (h : T.Climb ps s l) (hc : c ∈ ps) (hx : T.x ((s :: l).getLast (List.cons_ne_nil s l)) ≤ T.x c) :
    T.y c ≤ T.y ((s :: l).getLast (List.cons_ne_nil s l)) := by
  obtain ⟨hr, hstop⟩ := h.getLast .refl
  rcases hx.eq_or_lt with heq | hlt
  · exact Reach.highest_over hadmits hstart hr hc heq.symm
  · by_contra hhigh
    exact hstop c hc ⟨hlt, not_le.1 hhigh, hadmits _ c⟩

/-- **A climb is an upper frontier.** -/
theorem Climb.le_line (hadmits : ∀ a b, T.admits a b) (hstart : ∀ c ∈ ps, T.x c = T.x s → T.y c ≤ T.y s)
    (h : T.Climb ps s l) (hstep : [a, b] <:+: s :: l) (hc : c ∈ ps) (hac : T.x a ≤ T.x c) :
    T.y c ≤ T.line a b c := by
  have hchain := h.isChain_next .refl
  obtain ⟨before, after, hsplit⟩ := hstep
  rw [← hsplit] at hchain
  obtain ⟨hr, hn⟩ := List.isChain_pair.1 (List.isChain_append.1 (List.isChain_append.1 hchain).1).2.1
  exact Reach.le_line hadmits hstart hr hn hc hac

end below

end Terrain

end Frontier
