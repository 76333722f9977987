import Rmol.Lib.Locality
import Rmol.Lib.Runs
/-!
# Loops with a bound on their passes

`loop goOn body n b` runs `body` while the value that it returned last meets `goOn`, at most `n` times. It ends with a
run of passes that is either complete or has come to a value that does not meet the condition (`loop_reaches`).
-/

namespace Locality

open Runs

variable {ι σ ε β : Type}

def loop (goOn : β → Prop) [DecidablePred goOn] (body : Op ι σ ε β) : ℕ → β → Op ι σ ε β
  | 0, b => pure b
  | n + 1, b => if goOn b then body >>= loop goOn body n else pure b

section passes
variable {goOn : β → Prop} [DecidablePred goOn] {body : Op ι σ ε β} {n : ℕ} {b c : β} {s t : ι → σ}

/-- A pass of the loop. -/
def Pass (goOn : β → Prop) (body : Op ι σ ε β) (p q : β × (ι → σ)) : Prop := goOn p.1 ∧ body p.2 = .ok q

theorem loop_reaches (h : loop goOn body n b s = .ok (c, t)) :
    ∃ k ≤ n, Reaches (Pass goOn body) (b, s) k (c, t) ∧ (k = n ∨ ¬ goOn c) := by
  induction n generalizing b s with
  | zero =>
    obtain ⟨rfl, rfl⟩ := pure_ok.1 h
    exact ⟨0, le_rfl, .start, .inl rfl⟩
  | succ n ih =>
    rw [loop] at h
    by_cases hgo : goOn b
    · rw [if_pos hgo] at h
      obtain ⟨b', s', hbody, hrest⟩ := bind_ok.1 h
      obtain ⟨k, hk, hrun, hend⟩ := ih hrest
      refine ⟨k + 1, Nat.succ_le_succ hk, hrun.head ⟨hgo, hbody⟩, ?_⟩
      rcases hend with rfl | hstop
      · exact .inl rfl
      · exact .inr hstop
    · rw [if_neg hgo] at h
      obtain ⟨rfl, rfl⟩ := pure_ok.1 h
      exact ⟨0, Nat.zero_le _, .start, .inr hgo⟩

/-- It makes one pass at least, and all that it may unless the last value says otherwise. -/
theorem loop_passes (hgo : goOn b) (hn : 0 < n) (h : loop goOn body n b s = .ok (c, t)) :
    ∃ k, 1 ≤ k ∧ k ≤ n ∧ (k < n → ¬ goOn c) ∧ Reaches (Pass goOn body) (b, s) k (c, t) := by
  obtain ⟨k, hk, hrun, hend⟩ := loop_reaches h
  refine ⟨k, ?_, hk, fun hfew => hend.resolve_left hfew.ne, hrun⟩
  cases hrun with
  | start =>
    rcases hend with rfl | hstop
    · exact absurd hn (lt_irrefl 0)
    · exact absurd hgo hstop
  | next _ _ => exact Nat.succ_le_succ (Nat.zero_le _)

/-- A loop that makes a pass ends with its last one. -/
theorem loop_last (hgo : goOn b) (hn : 0 < n) (h : loop goOn body n b s = .ok (c, t)) :
    ∃ s', body s' = .ok (c, t) := by
  obtain ⟨k, hk, -, -, hrun⟩ := loop_passes hgo hn h
  cases hrun with
  | start => cases hk
  | next _ hlast => exact ⟨_, hlast.2⟩

theorem Local.loop {W R : Set ι} (hbody : Local W R body) (n : ℕ) (b : β) : Local W R (loop goOn body n b) := by
  induction n generalizing b with
  | zero => exact Local.value b
  | succ n ih => exact (hbody.seq ih).choice (Local.value b)

end passes

end Locality
