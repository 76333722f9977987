import Mathlib.Data.List.Nodup
import Mathlib.Data.Set.Basic
/-!
# Operations of parties that leave each other alone

A state has an entry for each cell. An operation changes the state, returns a value and may stop with a fault. It is
`Local` to the cells `W`, which it writes, and the cells `R`, which it reads besides: it changes no other entry, and
states that agree on these cells let it do the same. Sequences, loops and choices of local operations are local.

Operations of several parties, each local to cells of its own and reading no cell of another one, do what each does by
itself (`forM_ok_iff`), in whatever order the parties come (`forM_perm`).
-/

namespace Locality

variable {ι σ ε π β γ : Type}

/-- An operation on a state with entries of type `σ`. -/
abbrev Op (ι σ ε β : Type) := StateT (ι → σ) (Except ε) β

/-! ## Operations -/

section ops
variable {s t u : ι → σ}

theorem bind_ok {x : Op ι σ ε β} {f : β → Op ι σ ε γ} {c : γ} :
    (x >>= f) s = .ok (c, u) ↔ ∃ b t, x s = .ok (b, t) ∧ f b t = .ok (c, u) := by
  change (x s >>= fun p => f p.1 p.2) = .ok (c, u) ↔ _
  cases hx : x s with
  | error e =>
    refine iff_of_false (fun h => by cases h) ?_
    rintro ⟨b, t, h, -⟩
    cases h
  | ok p =>
    constructor
    · intro h
      exact ⟨p.1, p.2, rfl, h⟩
    · rintro ⟨b, t, h, hf⟩
      obtain rfl := Except.ok.inj h
      exact hf

@[simp] theorem pure_ok {b c : β} : (pure b : Op ι σ ε β) s = .ok (c, t) ↔ c = b ∧ t = s := by
  change Except.ok (b, s) = .ok (c, t) ↔ _
  rw [Except.ok.injEq, Prod.mk.injEq, eq_comm, @eq_comm _ s]

theorem forM_cons_ok {x : π → Op ι σ ε PUnit} {p : π} {l : List π} :
    forM (p :: l) x s = .ok (⟨⟩, u) ↔ ∃ t, x p s = .ok (⟨⟩, t) ∧ forM l x t = .ok (⟨⟩, u) := by
  rw [List.forM_cons, bind_ok]
  constructor
  · rintro ⟨⟨⟩, t, hp, hl⟩
    exact ⟨t, hp, hl⟩
  · rintro ⟨t, hp, hl⟩
    exact ⟨⟨⟩, t, hp, hl⟩

theorem forM_nil_ok {x : π → Op ι σ ε PUnit} : forM ([] : List π) x s = .ok (⟨⟩, t) ↔ t = s := by
  rw [List.forM_nil, pure_ok]
  exact and_iff_right rfl

/-- What holds before a loop and is kept by each operation holds after it. -/
theorem forM_invariant {P : (ι → σ) → Prop} {x : π → Op ι σ ε PUnit} {l : List π}
    (hstep : ∀ p ∈ l, ∀ s t, P s → x p s = .ok (⟨⟩, t) → P t) (hs : P s) (h : forM l x s = .ok (⟨⟩, t)) : P t := by
  induction l generalizing s with
  | nil => exact forM_nil_ok.1 h ▸ hs
  | cons p l ih =>
    obtain ⟨s', hp, hl⟩ := forM_cons_ok.1 h
    exact ih (fun q hq => hstep q (List.mem_cons_of_mem _ hq)) (hstep p List.mem_cons_self s s' hs hp) hl

/-- What each operation leaves for its party, and all others keep, holds for every party after a loop. -/
theorem forM_each {Q : π → (ι → σ) → Prop} {x : π → Op ι σ ε PUnit} {l : List π}
    (hdone : ∀ p ∈ l, ∀ s t, x p s = .ok (⟨⟩, t) → Q p t)
    (hkept : ∀ p ∈ l, ∀ q ∈ l, ∀ s t, Q p s → x q s = .ok (⟨⟩, t) → Q p t) (h : forM l x s = .ok (⟨⟩, t)) :
    ∀ p ∈ l, Q p t := by
  induction l generalizing s with
  | nil => simp
  | cons p l ih =>
    obtain ⟨s', hp, hl⟩ := forM_cons_ok.1 h
    refine List.forall_mem_cons.2 ⟨?_, ?_⟩
    · exact forM_invariant (fun q hq => hkept p List.mem_cons_self q (List.mem_cons_of_mem _ hq))
        (hdone p List.mem_cons_self s s' hp) hl
    · exact ih (fun q hq => hdone q (List.mem_cons_of_mem _ hq))
        (fun q hq r hr => hkept q (List.mem_cons_of_mem _ hq) r (List.mem_cons_of_mem _ hr)) hl

theorem foldlM_cons_ok {x : β → π → Op ι σ ε β} {p : π} {l : List π} {b c : β} :
    (p :: l).foldlM x b s = .ok (c, u) ↔ ∃ d t, x b p s = .ok (d, t) ∧ l.foldlM x d t = .ok (c, u) := by
  rw [List.foldlM_cons, bind_ok]

theorem foldlM_invariant {P : β → (ι → σ) → Prop} {x : β → π → Op ι σ ε β} {l : List π} {b c : β}
    (hstep : ∀ p ∈ l, ∀ b s c t, P b s → x b p s = .ok (c, t) → P c t) (hs : P b s)
    (h : l.foldlM x b s = .ok (c, t)) : P c t := by
  induction l generalizing b s with
  | nil =>
    obtain ⟨rfl, rfl⟩ := pure_ok.1 h
    exact hs
  | cons p l ih =>
    obtain ⟨d, s', hp, hl⟩ := foldlM_cons_ok.1 h
    exact ih (fun q hq => hstep q (List.mem_cons_of_mem _ hq)) (hstep p List.mem_cons_self b s d s' hs hp) hl

/-- The rule of `forM_each` for a loop with an accumulator. -/
theorem foldlM_each {Q : π → β → (ι → σ) → Prop} {x : β → π → Op ι σ ε β} {l : List π} {b c : β}
    (hdone : ∀ p ∈ l, ∀ b s c t, x b p s = .ok (c, t) → Q p c t)
    (hkept : ∀ p ∈ l, ∀ q ∈ l, ∀ b s c t, Q p b s → x b q s = .ok (c, t) → Q p c t)
    (h : l.foldlM x b s = .ok (c, t)) : ∀ p ∈ l, Q p c t := by
  induction l generalizing b s with
  | nil => simp
  | cons p l ih =>
    obtain ⟨d, s', hp, hl⟩ := foldlM_cons_ok.1 h
    refine List.forall_mem_cons.2 ⟨?_, ?_⟩
    · exact foldlM_invariant (fun q hq => hkept p List.mem_cons_self q (List.mem_cons_of_mem _ hq))
        (hdone p List.mem_cons_self b s d s' hp) hl
    · exact ih (fun q hq => hdone q (List.mem_cons_of_mem _ hq))
        (fun q hq r hr => hkept q (List.mem_cons_of_mem _ hq) r (List.mem_cons_of_mem _ hr)) hl

end ops

/-! ## Locality -/

/-- The states have the same entries in the cells. -/
def Agree (A : Set ι) (s s' : ι → σ) : Prop := ∀ i ∈ A, s i = s' i

structure Local (W R : Set ι) (x : Op ι σ ε β) : Prop where
  frame : ∀ {s b t}, x s = .ok (b, t) → Agree Wᶜ t s
  determined : ∀ {s s' b t}, Agree (W ∪ R) s s' → x s = .ok (b, t) → ∃ t', x s' = .ok (b, t') ∧ Agree W t' t

section rules
variable {W R : Set ι} {s t : ι → σ}

theorem Agree.symm {A : Set ι} {s s' : ι → σ} (h : Agree A s s') : Agree A s' s := fun i hi => (h i hi).symm

/-- What local operations leave agrees on the same cells. -/
theorem Local.agree {x : Op ι σ ε β} (hx : Local W R x) {s' t' : ι → σ} {b : β} (h : Agree (W ∪ R) s s')
    (hs : x s = .ok (b, t)) (hs' : x s' = .ok (b, t')) (hW : Agree W t' t) : Agree (W ∪ R) t t' := by
  intro i hi
  by_cases hw : i ∈ W
  · exact (hW i hw).symm
  · rw [hx.frame hs i hw, hx.frame hs' i hw]
    exact h i hi

theorem Local.value (b : β) : Local W R (pure b : Op ι σ ε β) where
  frame := by
    rintro s c t h i -
    rw [(pure_ok.1 h).2]
  determined := by
    rintro s s' c t hagree h
    obtain ⟨rfl, rfl⟩ := pure_ok.1 h
    exact ⟨s', pure_ok.2 ⟨rfl, rfl⟩, fun i hi => (hagree i (.inl hi)).symm⟩

theorem Local.seq {x : Op ι σ ε β} {f : β → Op ι σ ε γ} (hx : Local W R x) (hf : ∀ b, Local W R (f b)) :
    Local W R (x >>= f) where
  frame := by
    rintro s c u h i hi
    obtain ⟨b, t, hs, ht⟩ := bind_ok.1 h
    rw [(hf b).frame ht i hi, hx.frame hs i hi]
  determined := by
    rintro s s' c u hagree h
    obtain ⟨b, t, hs, ht⟩ := bind_ok.1 h
    obtain ⟨t', hs', hW⟩ := hx.determined hagree hs
    obtain ⟨u', ht', hWu⟩ := (hf b).determined (hx.agree hagree hs hs' hW) ht
    exact ⟨u', bind_ok.2 ⟨b, t', hs', ht'⟩, hWu⟩

theorem Local.choice {p : Prop} [Decidable p] {x y : Op ι σ ε β} (hx : Local W R x) (hy : Local W R y) :
    Local W R (if p then x else y) := by
  split
  · exact hx
  · exact hy

/-- More cells to write, and more to read. -/
theorem Local.mono {W' R' : Set ι} {x : Op ι σ ε β} (hx : Local W R x) (hW : W ⊆ W') (hR : R ⊆ W' ∪ R') :
    Local W' R' x where
  frame := by
    rintro s b t h i hi
    exact hx.frame h i fun hw => hi (hW hw)
  determined := by
    rintro s s' b t hagree h
    have hread : Agree (W ∪ R) s s' := by
      rintro i (hi | hi)
      · exact hagree i (.inl (hW hi))
      · exact hagree i (hR hi)
    obtain ⟨t', ht', hWt⟩ := hx.determined hread h
    refine ⟨t', ht', fun i hi => ?_⟩
    by_cases hw : i ∈ W
    · exact hWt i hw
    · rw [hx.frame h i hw, hx.frame ht' i hw]
      exact (hagree i (.inl hi)).symm

theorem Local.fold {x : β → π → Op ι σ ε β} {l : List π} (hx : ∀ p ∈ l, ∀ b, Local W R (x b p)) (b : β) :
    Local W R (l.foldlM x b) := by
  induction l generalizing b with
  | nil => exact Local.value _
  | cons p l ih =>
    rw [List.foldlM_cons]
    exact (hx p List.mem_cons_self b).seq fun c => ih (fun q hq => hx q (List.mem_cons_of_mem _ hq)) c

end rules

/-! ## Parties -/

/-- Each party of a list works on its own cells and reads no cell of another one. -/
structure Independent (W R : π → Set ι) (x : π → Op ι σ ε PUnit) (l : List π) : Prop where
  nodup : l.Nodup
  locality : ∀ p ∈ l, Local (W p) (R p) (x p)
  apart : ∀ p ∈ l, ∀ q ∈ l, p ≠ q → ∀ i ∈ W p, i ∉ W q ∪ R q

section parties
variable {W R : π → Set ι} {x : π → Op ι σ ε PUnit} {l : List π} {s t : ι → σ}

theorem Independent.tail {p : π} (h : Independent W R x (p :: l)) : Independent W R x l where
  nodup := h.nodup.of_cons
  locality q hq := h.locality q (List.mem_cons_of_mem _ hq)
  apart q hq r hr := h.apart q (List.mem_cons_of_mem _ hq) r (List.mem_cons_of_mem _ hr)

theorem Independent.head_apart {p q : π} (h : Independent W R x (p :: l)) (hq : q ∈ l) :
    ∀ i ∈ W p, i ∉ W q ∪ R q := by
  refine h.apart p List.mem_cons_self q (List.mem_cons_of_mem _ hq) ?_
  rintro rfl
  exact (List.nodup_cons.1 h.nodup).1 hq

/-- The operation of a party before does not count. -/
theorem Independent.head_agree {p q : π} (h : Independent W R x (p :: l)) (hq : q ∈ l)
    (hp : x p s = .ok (⟨⟩, t)) : Agree (W q ∪ R q) t s := fun i hi =>
  (h.locality p List.mem_cons_self).frame hp i fun hw => h.head_apart hq i hw hi

/-- What the parties leave: each its own cells as it does by itself, all others as they were. -/
structure EachAlone (W : π → Set ι) (x : π → Op ι σ ε PUnit) (l : List π) (s t : ι → σ) : Prop where
  alone : ∀ p ∈ l, ∃ tp, x p s = .ok (⟨⟩, tp) ∧ Agree (W p) t tp
  others : ∀ i, (∀ p ∈ l, i ∉ W p) → t i = s i

/-- **Independent parties** end where each ends by itself. -/
theorem forM_ok_iff (h : Independent W R x l) : forM l x s = .ok (⟨⟩, t) ↔ EachAlone W x l s t := by
  induction l generalizing s with
  | nil =>
    rw [forM_nil_ok]
    constructor
    · rintro rfl
      exact ⟨fun p hp => by simp at hp, fun i _ => rfl⟩
    · intro heach
      funext i
      exact heach.others i fun p hp => by simp at hp
  | cons p l ih =>
    rw [forM_cons_ok]
    constructor
    · rintro ⟨s', hp, hl⟩
      obtain ⟨halone, hothers⟩ := (ih h.tail).1 hl
      refine ⟨fun q hq => ?_, fun i hi => ?_⟩
      · rcases List.mem_cons.1 hq with rfl | hq
        · refine ⟨s', hp, fun i hi => hothers i fun r hr hir => ?_⟩
          exact h.head_apart hr i hi (.inl hir)
        · obtain ⟨tq, htq, hW⟩ := halone q hq
          obtain ⟨tq', htq', hW'⟩ := (h.tail.locality q hq).determined (h.head_agree hq hp) htq
          exact ⟨tq', htq', fun i hi => (hW i hi).trans (hW' i hi).symm⟩
      · rw [hothers i fun q hq => hi q (List.mem_cons_of_mem _ hq)]
        exact (h.locality p List.mem_cons_self).frame hp i (hi p List.mem_cons_self)
    · rintro ⟨halone, hothers⟩
      obtain ⟨s', hp, hWp⟩ := halone p List.mem_cons_self
      refine ⟨s', hp, (ih h.tail).2 ⟨fun q hq => ?_, fun i hi => ?_⟩⟩
      · obtain ⟨tq, htq, hW⟩ := halone q (List.mem_cons_of_mem _ hq)
        obtain ⟨tq', htq', hW'⟩ := (h.tail.locality q hq).determined (h.head_agree hq hp).symm htq
        exact ⟨tq', htq', fun i hi => (hW i hi).trans (hW' i hi).symm⟩
      · by_cases hi' : i ∈ W p
        · exact hWp i hi'
        · rw [(h.locality p List.mem_cons_self).frame hp i hi']
          refine hothers i fun q hq => ?_
          rcases List.mem_cons.1 hq with rfl | hq
          · exact hi'
          · exact hi q hq

theorem Independent.perm {l' : List π} (h : Independent W R x l) (hl : l.Perm l') : Independent W R x l' where
  nodup := hl.nodup_iff.1 h.nodup
  locality p hp := h.locality p (hl.mem_iff.2 hp)
  apart p hp q hq := h.apart p (hl.mem_iff.2 hp) q (hl.mem_iff.2 hq)

/-- **Any order of independent parties** ends in the same state. -/
theorem forM_perm {l' : List π} (h : Independent W R x l) (hl : l.Perm l') :
    forM l x s = .ok (⟨⟩, t) ↔ forM l' x s = .ok (⟨⟩, t) := by
  rw [forM_ok_iff h, forM_ok_iff (h.perm hl)]
  constructor
  · rintro ⟨halone, hothers⟩
    exact ⟨fun p hp => halone p (hl.mem_iff.2 hp), fun i hi => hothers i fun p hp => hi p (hl.mem_iff.1 hp)⟩
  · rintro ⟨halone, hothers⟩
    exact ⟨fun p hp => halone p (hl.mem_iff.1 hp), fun i hi => hothers i fun p hp => hi p (hl.mem_iff.2 hp)⟩

end parties

end Locality
