import Mathlib.Logic.Basic
/-!
# Two runs in lockstep

Two computations that can stop are in step if they stop with the same fault, or both end, in related values. The rules
follow the computation: a sequence (`InStep.bind`), a loop with an invariant on what is left of its list
(`InStep.foldlM`), what each run guarantees by itself (`InStep.also`). At the end, equal views of the two results are an
equation (`InStep.map_eq`).
-/

namespace Lockstep

universe u v w

variable {ε : Type u} {β γ δ η : Type v} {π : Type w}

inductive InStep (R : β → γ → Prop) : Except ε β → Except ε γ → Prop
  | fault (e : ε) : InStep R (.error e) (.error e)
  | ok {b : β} {c : γ} (h : R b c) : InStep R (.ok b) (.ok c)

section rules
variable {R S : β → γ → Prop} {x : Except ε β} {y : Except ε γ}

theorem InStep.mono (h : InStep R x y) (hRS : ∀ b c, R b c → S b c) : InStep S x y := by
  cases h with
  | fault e => exact .fault e
  | ok h => exact .ok (hRS _ _ h)

/-- The runs may use what each of them guarantees. -/
theorem InStep.also {P : β → Prop} {Q : γ → Prop} (h : InStep R x y) (hx : ∀ b, x = .ok b → P b)
    (hy : ∀ c, y = .ok c → Q c) : InStep (fun b c => R b c ∧ P b ∧ Q c) x y := by
  cases h with
  | fault e => exact .fault e
  | ok h => exact .ok ⟨h, hx _ rfl, hy _ rfl⟩

theorem InStep.bind {T : δ → η → Prop} {f : β → Except ε δ} {g : γ → Except ε η} (h : InStep R x y)
    (hfg : ∀ b c, R b c → InStep T (f b) (g c)) : InStep T (x >>= f) (y >>= g) := by
  cases h with
  | fault e => exact .fault e
  | ok h => exact hfg _ _ h

/-- A run keeps in step with itself. -/
theorem InStep.self {R : β → β → Prop} {x : Except ε β} (hR : ∀ b, R b b) : InStep R x x := by
  cases x with
  | error e => exact .fault e
  | ok b => exact .ok (hR b)

theorem InStep.mapError {ε' : Type u} {e : ε → ε'} (h : InStep R x y) : InStep R (x.mapError e) (y.mapError e) := by
  cases h with
  | fault e' => exact .fault (e e')
  | ok h => exact .ok h

/-- Runs with equal views. -/
theorem InStep.map_eq {v : β → δ} {w : γ → δ} (h : InStep (fun b c => v b = w c) x y) : x.map v = y.map w := by
  cases h with
  | fault e => rfl
  | ok h => exact congrArg Except.ok h

theorem InStep.of_map_eq {v : β → δ} {w : γ → δ} (h : x.map v = y.map w) : InStep (fun b c => v b = w c) x y := by
  cases x with
  | error e =>
    cases y with
    | error e' =>
      obtain rfl := Except.error.inj h
      exact .fault e
    | ok c => cases h
  | ok b =>
    cases y with
    | error e' => cases h
    | ok c => exact .ok (Except.ok.inj h)

/-- **A loop keeps in step** by an invariant on what is left of its list. -/
theorem InStep.foldlM {f : β → π → Except ε β} {g : γ → π → Except ε γ} (I : List π → β → γ → Prop)
    (hstep : ∀ p l b c, I (p :: l) b c → InStep (I l) (f b p) (g c p)) :
    ∀ {l : List π} {b : β} {c : γ}, I l b c → InStep (I []) (l.foldlM f b) (l.foldlM g c)
  | [], _, _, h => .ok h
  | p :: l, b, c, h => by
    rw [List.foldlM_cons, List.foldlM_cons]
    exact (hstep p l b c h).bind fun _ _ h => InStep.foldlM I hstep h

end rules

end Lockstep
