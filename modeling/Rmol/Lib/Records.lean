import Mathlib.Order.Lattice
/-!
# Runs that only take records

A state remembers the time of the last element that it took, and takes an element only if its time is later. So it takes
the records of the list: those whose time is later than every time before. A guarded run is the plain run of the records
(`foldlM_guarded`), and the time that is left is the latest one (`le_of_getLast?_records`).
-/

namespace Records

universe u v

variable {ε : Type u} {σ : Type v} {π τ : Type} [LinearOrder τ] {time : π → τ}

/-- The elements whose time is later than `last` and than all times before. -/
def records (time : π → τ) : τ → List π → List π
  | _, [] => []
  | last, p :: l => if last < time p then p :: records time (time p) l else records time last l

section list

theorem lt_of_mem_records {p : π} : ∀ {last : τ} {l : List π}, p ∈ records time last l → last < time p
  | _, [], h => by cases h
  | last, q :: l, h => by
    rw [records] at h
    split at h
    · rename_i hq
      rcases List.mem_cons.1 h with rfl | h
      · exact hq
      · exact hq.trans (lt_of_mem_records h)
    · exact lt_of_mem_records h

/-- A time later than the last one has a record. -/
theorem records_ne_nil {q : π} : ∀ {last : τ} {l : List π}, q ∈ l → last < time q → records time last l ≠ []
  | _, [], hq, _ => by cases hq
  | last, r :: l, hq, hlt => by
    rw [records]
    split
    · exact List.cons_ne_nil _ _
    · rename_i hr
      rcases List.mem_cons.1 hq with rfl | hq
      · exact absurd hlt hr
      · exact records_ne_nil hq hlt

/-- Times that are not later have none. -/
theorem records_eq_nil {last : τ} : ∀ {l : List π}, (∀ q ∈ l, time q ≤ last) → records time last l = []
  | [], _ => rfl
  | r :: l, h => by
    rw [records, if_neg (not_lt.2 (h r List.mem_cons_self))]
    exact records_eq_nil fun q hq => h q (List.mem_cons_of_mem _ hq)

/-- **The last record** has the latest time. -/
theorem le_of_getLast?_records {p : π} : ∀ {last : τ} {l : List π}, (records time last l).getLast? = some p →
    ∀ q ∈ l, time q ≤ time p
  | _, [], _, q, hq => by cases hq
  | last, r :: l, h, q, hq => by
    rw [records] at h
    split at h
    · rename_i hr
      cases hrest : records time (time r) l with
      | nil =>
        rw [hrest, List.getLast?_singleton] at h
        obtain rfl := Option.some.inj h
        rcases List.mem_cons.1 hq with rfl | hq
        · exact le_rfl
        · exact not_lt.1 fun hlt => absurd hrest (records_ne_nil hq hlt)
      | cons first rest =>
        rw [hrest, List.getLast?_cons_cons, ← hrest] at h
        rcases List.mem_cons.1 hq with rfl | hq
        · exact (lt_of_mem_records (List.mem_of_getLast? h)).le
        · exact le_of_getLast?_records h q hq
    · rename_i hr
      rcases List.mem_cons.1 hq with rfl | hq
      · exact (not_lt.1 hr).trans (lt_of_mem_records (List.mem_of_getLast? h)).le
      · exact le_of_getLast?_records h q hq

end list

section run
variable {step guarded : σ → π → Except ε σ}

/-- **A guarded run** is the plain run of the records. -/
theorem foldlM_guarded (time : π → τ) (last : σ → τ)
    (hguard : ∀ s p, guarded s p = if last s < time p then step s p else .ok s)
    (hlast : ∀ s p t, step s p = .ok t → last t = time p) :
    ∀ (l : List π) (s : σ), l.foldlM guarded s = (records time (last s) l).foldlM step s
  | [], s => rfl
  | p :: l, s => by
    rw [List.foldlM_cons, hguard, records]
    by_cases hp : last s < time p
    · rw [if_pos hp, if_pos hp, List.foldlM_cons]
      cases hstep : step s p with
      | error e => rfl
      | ok t =>
        rw [← hlast s p t hstep]
        exact foldlM_guarded time last hguard hlast l t
    · rw [if_neg hp, if_neg hp]
      exact foldlM_guarded time last hguard hlast l s

/-- A run ends with its last element. -/
theorem foldlM_getLast? {p : π} : ∀ {l : List π} {s t : σ}, l.getLast? = some p → l.foldlM step s = .ok t →
    ∃ before, l.dropLast.foldlM step s = .ok before ∧ step before p = .ok t
  | [], _, _, hp, _ => by cases hp
  | [q], s, t, hp, h => by
    obtain rfl := Option.some.inj hp
    rw [List.foldlM_cons] at h
    cases hstep : step s q with
    | error e =>
      rw [hstep] at h
      cases h
    | ok u =>
      rw [hstep] at h
      obtain rfl := Except.ok.inj h
      exact ⟨s, rfl, hstep⟩
  | q :: r :: l, s, t, hp, h => by
    rw [List.foldlM_cons] at h
    rw [List.getLast?_cons_cons] at hp
    cases hstep : step s q with
    | error e =>
      rw [hstep] at h
      cases h
    | ok u =>
      rw [hstep] at h
      obtain ⟨before, hbefore, hlast⟩ := foldlM_getLast? hp h
      refine ⟨before, ?_, hlast⟩
      rw [List.dropLast_cons_cons, List.foldlM_cons, hstep]
      exact hbefore

end run

end Records
