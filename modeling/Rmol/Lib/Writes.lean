import Mathlib.Data.List.Basic
import Mathlib.Logic.Function.Basic
/-!
# Commands that write without reading

`writes l f` puts the values of a list at their keys, one after another: the last value of a key stays (`writes_apply`),
so that every value can be read back iff no key has two (`kept_iff`), and writing the list again changes nothing
(`writes_twice`).

A command `Plans` its writes if these do not depend on the state that it changes. Loops and choices of such commands
plan theirs, and a command that plans its writes may be run twice (`Plans.again`).
-/

namespace Writes

variable {κ σ ε π β : Type} [DecidableEq κ]

def writes (l : List (κ × σ)) (f : κ → σ) : κ → σ := l.foldl (fun f e => Function.update f e.1 e.2) f

section writes
variable {l : List (κ × σ)} {f g : κ → σ} {k : κ} {v : σ}

@[simp] theorem writes_nil (f : κ → σ) : writes [] f = f := rfl

@[simp] theorem writes_cons (e : κ × σ) (l : List (κ × σ)) (f : κ → σ) :
    writes (e :: l) f = writes l (Function.update f e.1 e.2) := rfl

theorem writes_append (l l' : List (κ × σ)) (f : κ → σ) : writes (l ++ l') f = writes l' (writes l f) :=
  List.foldl_append

theorem writes_apply_of_notMem (h : ∀ e ∈ l, e.1 ≠ k) : writes l f k = f k := by
  induction l generalizing f with
  | nil => rfl
  | cons e l ih =>
    rw [writes_cons, ih fun e' he' => h e' (List.mem_cons_of_mem _ he'),
      Function.update_of_ne (h e List.mem_cons_self).symm]

/-- **The last value stays**: a key that is written holds one of its values, whatever was there before. -/
theorem writes_apply (h : ∃ e ∈ l, e.1 = k) : ∃ v, (k, v) ∈ l ∧ ∀ f, writes l f k = v := by
  induction l with
  | nil => simp at h
  | cons e l ih =>
    by_cases hlater : ∃ e ∈ l, e.1 = k
    · obtain ⟨v, hmem, hv⟩ := ih hlater
      exact ⟨v, List.mem_cons_of_mem _ hmem, fun f => hv _⟩
    · have hhere : e.1 = k := by
        obtain ⟨e', he', hk⟩ := h
        rcases List.mem_cons.1 he' with rfl | he'
        · exact hk
        · exact absurd ⟨e', he', hk⟩ hlater
      refine ⟨e.2, hhere ▸ List.mem_cons_self, fun f => ?_⟩
      rw [writes_cons, writes_apply_of_notMem fun e' he' hk => hlater ⟨e', he', hk⟩, hhere, Function.update_self]

/-- **All values can be read back** iff no key has two of them. -/
theorem kept_iff : (∀ e ∈ l, writes l f e.1 = e.2) ↔ ∀ e ∈ l, ∀ e' ∈ l, e.1 = e'.1 → e.2 = e'.2 := by
  constructor
  · intro hkept e he e' he' hk
    rw [← hkept e he, hk, hkept e' he']
  · intro hsame e he
    obtain ⟨v, hmem, hv⟩ := writes_apply ⟨e, he, rfl⟩
    rw [hv]
    exact hsame _ hmem e he rfl

theorem writes_twice (l : List (κ × σ)) (f : κ → σ) : writes l (writes l f) = writes l f := by
  funext k
  by_cases h : ∃ e ∈ l, e.1 = k
  · obtain ⟨v, -, hv⟩ := writes_apply h
    rw [hv, hv]
  · exact writes_apply_of_notMem fun e he hk => h ⟨e, he, hk⟩

end writes

/-! ## Plans -/

/-- The command makes the writes of the plan, or stops with its fault. -/
def Plans (x : (κ → σ) → Except ε (κ → σ)) (plan : Except ε (List (κ × σ))) : Prop :=
  ∀ f, x f = plan >>= fun l => .ok (writes l f)

section plans
variable {x : (κ → σ) → Except ε (κ → σ)} {plan : Except ε (List (κ × σ))} {f g : κ → σ}

theorem Plans.fault (e : ε) : Plans (fun _ => .error e) (.error e : Except ε (List (κ × σ))) := fun _ => rfl

/-- A plan may depend on what does not depend on the state. -/
theorem Plans.after {y : Except ε β} {x : β → (κ → σ) → Except ε (κ → σ)} {plan : β → Except ε (List (κ × σ))}
    (h : ∀ b, y = .ok b → Plans (x b) (plan b)) : Plans (fun f => y >>= fun b => x b f) (y >>= plan) := by
  intro f
  cases hy : y with
  | error e => rfl
  | ok b => exact h b hy f

theorem Plans.each {x : π → (κ → σ) → Except ε (κ → σ)} {plan : π → Except ε (List (κ × σ))} {l : List π}
    (h : ∀ p ∈ l, Plans (x p) (plan p)) :
    Plans (fun f => l.foldlM (fun f p => x p f) f) (l.mapM plan >>= fun ls => .ok ls.flatten) := by
  intro f
  induction l generalizing f with
  | nil => rfl
  | cons p l ih =>
    have hrest := ih fun q hq => h q (List.mem_cons_of_mem _ hq)
    change (l.foldlM _ =<< x p f) = _
    rw [List.mapM_cons, h p List.mem_cons_self f]
    cases plan p with
    | error e => rfl
    | ok first =>
      refine (hrest (writes first f)).trans ?_
      cases l.mapM plan with
      | error e => rfl
      | ok rest => exact congrArg Except.ok (writes_append first rest.flatten f).symm

/-- One value at a key for each element of a list. -/
theorem Plans.put (key : π → Except ε κ) (v : σ) (l : List π) :
    Plans (fun f => l.foldlM (fun f p => key p >>= fun k => .ok (Function.update f k v)) f)
      (l.mapM key >>= fun keys => .ok (keys.map fun k => (k, v))) := by
  intro f
  induction l generalizing f with
  | nil => rfl
  | cons p l ih =>
    change ((key p >>= fun k => .ok (Function.update f k v)) >>= fun f => l.foldlM _ f) = _
    rw [List.mapM_cons]
    cases key p with
    | error e => rfl
    | ok k =>
      refine (ih (Function.update f k v)).trans ?_
      cases l.mapM key <;> rfl

theorem Plans.ok (h : Plans x plan) (hx : x f = .ok g) : ∃ l, plan = .ok l ∧ g = writes l f := by
  rw [h f] at hx
  cases hplan : plan with
  | error e =>
    rw [hplan] at hx
    cases hx
  | ok l =>
    rw [hplan] at hx
    exact ⟨l, rfl, (Except.ok.inj hx).symm⟩

/-- **Twice is once** for a command that plans its writes. -/
theorem Plans.again (h : Plans x plan) (hx : x f = .ok g) : x g = .ok g := by
  obtain ⟨l, hplan, rfl⟩ := h.ok hx
  rw [h, hplan]
  exact congrArg Except.ok (writes_twice l f)

end plans

end Writes
