import Mathlib.Data.List.Perm.Basic
import Rmol.PolicyHelper
/-!
# What policy differences and the last node hold

The source asks a class for its fare family and searches the families of both policies by class key.
Since no key occurs twice in a cabin, these searches come down to positions: the class that a policy
holds in the `i`-th fare family is its `i`-th class (`intersection_eq`).

Main results: `diff_eq` (the difference of two nested policies), `nested_of_diff` (a difference that
does not fail is one of nested policies) and `lastNode_perm` (the last node holds every class that
is not open).
-/

namespace Rmol

variable {κ α : Type*}

/-- What stands behind position `n` of a list. -/
theorem get_drop_of_cons {β : Type*} {l t : List β} {n : ℕ} {a : β} (h : l.drop n = a :: t) :
    l[n]? = some a ∧ l.drop (n + 1) = t := by
  constructor
  · rw [← Nat.add_zero n, ← List.getElem?_drop, h]; rfl
  · rw [← List.drop_drop, h]; rfl

/-! ## Classes and fare-family positions -/

theorem family_unique : ∀ {fs : List (FareFamily κ α)} {i j : ℕ} {f g : FareFamily κ α} {c : κ},
    (fs.flatMap FareFamily.bookingClasses).Nodup → fs[i]? = some f → fs[j]? = some g →
    c ∈ f.bookingClasses → c ∈ g.bookingClasses → i = j
  | [], _, _, _, _, _, _, hi, _, _, _ => by simp at hi
  | h :: fs, 0, 0, _, _, _, _, _, _, _, _ => rfl
  | h :: fs, 0, j + 1, f, g, c, hn, hi, hj, hf, hg => by
    rw [List.flatMap_cons, List.nodup_append] at hn
    simp only [List.getElem?_cons_zero, Option.some.injEq, List.getElem?_cons_succ] at hi hj
    subst hi
    exact absurd rfl (hn.2.2 c hf c (List.mem_flatMap.2 ⟨g, List.mem_of_getElem? hj, hg⟩))
  | h :: fs, i + 1, 0, f, g, c, hn, hi, hj, hf, hg => by
    rw [List.flatMap_cons, List.nodup_append] at hn
    simp only [List.getElem?_cons_zero, Option.some.injEq, List.getElem?_cons_succ] at hi hj
    subst hj
    exact absurd rfl (hn.2.2 c hg c (List.mem_flatMap.2 ⟨f, List.mem_of_getElem? hi, hf⟩))
  | h :: fs, i + 1, j + 1, f, g, c, hn, hi, hj, hf, hg => by
    rw [List.flatMap_cons, List.nodup_append] at hn
    simp only [List.getElem?_cons_succ] at hi hj
    rw [family_unique hn.2.1 hi hj hf hg]

theorem OneOfEach.get : ∀ {fs : List (FareFamily κ α)} {ps : List κ} {i : ℕ} {c : κ},
    OneOfEach fs ps → ps[i]? = some c → ∃ f, fs[i]? = some f ∧ c ∈ f.bookingClasses
  | _, [], _, _, _, hi => by simp at hi
  | [], _ :: _, _, _, h, _ => h.elim
  | f :: fs, p :: ps, 0, c, h, hi => by
    simp only [List.getElem?_cons_zero, Option.some.injEq] at hi
    subst hi
    exact ⟨f, rfl, h.1⟩
  | f :: fs, p :: ps, i + 1, c, h, hi => by
    simp only [List.getElem?_cons_succ] at hi ⊢
    exact h.2.get hi

theorem SegmentCabin.family_nodup {cabin : SegmentCabin κ α} {i : ℕ} {f : FareFamily κ α}
    (hi : cabin.fareFamilies[i]? = some f) : f.bookingClasses.Nodup :=
  (List.nodup_flatMap.1 cabin.nodup).1 f (List.mem_of_getElem? hi)

/-- A class of the `i`-th family is held by the policy iff it is the `i`-th class of the policy. -/
theorem mem_policy_iff {fs : List (FareFamily κ α)} {ps : List κ} {i : ℕ} {f : FareFamily κ α} {c : κ}
    (hn : (fs.flatMap FareFamily.bookingClasses).Nodup) (hp : OneOfEach fs ps) (hi : fs[i]? = some f)
    (hc : c ∈ f.bookingClasses) : c ∈ ps ↔ ps[i]? = some c := by
  refine ⟨fun h => ?_, List.mem_of_getElem?⟩
  obtain ⟨j, hj⟩ := List.mem_iff_getElem?.1 h
  obtain ⟨g, hg, hcg⟩ := hp.get hj
  rwa [family_unique hn hi hg hc hcg]

theorem SegmentCabin.parentClasses_at [DecidableEq κ] {cabin : SegmentCabin κ α} {i : ℕ} {f : FareFamily κ α} {c : κ}
    (hi : cabin.fareFamilies[i]? = some f) (hc : c ∈ f.bookingClasses) :
    cabin.parentClasses c = f.bookingClasses := by
  obtain ⟨hlt, rfl⟩ := List.getElem?_eq_some_iff.1 hi
  have hsplit : cabin.fareFamilies =
      cabin.fareFamilies.take i ++ cabin.fareFamilies[i] :: cabin.fareFamilies.drop (i + 1) := by
    rw [← List.drop_eq_getElem_cons hlt, List.take_append_drop]
  exact cabin.parentClasses_eq hsplit hc

section diff
variable [DecidableEq κ] [Zero α] [LE α] {cabin : SegmentCabin κ α} {P Q : Policy κ α} {i : ℕ} {f : FareFamily κ α}

/-- `intersectionBetweenPolicyAndBookingClassList` on the `i`-th family finds the `i`-th class. -/
theorem intersection_eq (hP : OneOfEach cabin.fareFamilies P.bookingClasses)
    (hi : cabin.fareFamilies[i]? = some f) :
    intersectionBetweenPolicyAndBookingClassList f.bookingClasses P = P.bookingClasses[i]? := by
  have hmem : ∀ c ∈ f.bookingClasses, c ∈ P.bookingClasses ↔ P.bookingClasses[i]? = some c :=
    fun c hc => mem_policy_iff cabin.nodup hP hi hc
  unfold intersectionBetweenPolicyAndBookingClassList
  cases hget : P.bookingClasses[i]? with
  | none =>
    rw [List.find?_eq_none]
    intro c hc
    have := hmem c hc
    rw [hget] at this
    simpa using this
  | some p =>
    obtain ⟨g, hg, hpg⟩ := hP.get hget
    rw [hi] at hg
    obtain rfl := Option.some.inj hg
    obtain ⟨r, hr⟩ := Ladder.split_at_mem hpg
    rw [hr, List.find?_append]
    have hbefore : (f.bookingClasses.take (f.bookingClasses.idxOf p)).find?
        (fun c => decide (c ∈ P.bookingClasses)) = none := by
      rw [List.find?_eq_none]
      intro c hc hcP
      have hcf := List.mem_of_mem_take hc
      have := (hmem c hcf).1 (by simpa using hcP)
      rw [hget] at this
      obtain rfl := Option.some.inj this
      exact Ladder.notMem_take_idxOf p _ hc
    have hpP : p ∈ P.bookingClasses := List.mem_of_getElem? hget
    simp [hbefore, hpP]

/-- One walk of the difference: it adds the classes of the `i`-th family between the class `p` of
the second policy and the class `q` of the first one, and fails if `p` is the lower one. -/
theorem diff_family {node : List κ} {q : κ} (hP : OneOfEach cabin.fareFamilies P.bookingClasses)
    (hi : cabin.fareFamilies[i]? = some f) (hq : q ∈ f.bookingClasses) :
    diffBetweenBookingClassAndPolicy node f.bookingClasses q P =
      match P.bookingClasses[i]? with
      | none => .ok (node ++ (f.bookingClasses.take (f.bookingClasses.idxOf q + 1)).reverse)
      | some p =>
        if f.bookingClasses.idxOf p ≤ f.bookingClasses.idxOf q then
          .ok (node ++ (Ladder.rungs f.bookingClasses (f.bookingClasses.idxOf p + 1)
            (f.bookingClasses.idxOf q + 1)).reverse)
        else .error .secondPolicyClassNotFound := by
  have hnd := SegmentCabin.family_nodup hi
  have hwalk := Ladder.reverse_dropWhile hnd hq
  have hne : f.bookingClasses ≠ [] := List.ne_nil_of_mem hq
  have htake : (f.bookingClasses.take (f.bookingClasses.idxOf q + 1)).reverse ≠ [] := by
    simp [hne]
  unfold diffBetweenBookingClassAndPolicy
  rw [if_neg hne, hwalk, intersection_eq hP hi]
  simp only [htake, ↓reduceIte]
  cases hget : P.bookingClasses[i]? with
  | none => rfl
  | some p =>
    obtain ⟨g, hg, hp⟩ := hP.get hget
    rw [hi] at hg
    obtain rfl := Option.some.inj hg
    simp only [List.mem_reverse, Ladder.mem_take_iff_idxOf_lt hp, Nat.lt_succ_iff]
    split
    · rename_i hle
      rw [Ladder.reverse_takeWhile hnd hp (Nat.lt_succ_of_le hle)]
    · rfl

/-! ## The difference of two policies -/

/-- The loop over the classes `qs` of the first policy, from the fare family at position `n` on. -/
theorem diffLoop_eq (hP : OneOfEach cabin.fareFamilies P.bookingClasses) :
    ∀ (fs : List (FareFamily κ α)) (qs : List κ) (n : ℕ) (node : List κ),
      cabin.fareFamilies.drop n = fs → OneOfEach fs qs → Nested fs (P.bookingClasses.drop n) qs →
      qs.foldlM (fun node c => diffBetweenBookingClassAndPolicy node (cabin.parentClasses c) c P) node =
        .ok (node ++ gap fs (P.bookingClasses.drop n) qs)
  | [], [], n, node, _, _, _ => by simp [gap]
  | f :: fs, [], n, node, _, _, _ => by cases P.bookingClasses.drop n <;> simp [gap]
  | [], _ :: _, _, _, _, h, _ => h.elim
  | f :: fs, q :: qs, n, node, hdrop, hqs, hnest => by
    obtain ⟨hi, htail⟩ := get_drop_of_cons hdrop
    rw [List.foldlM_cons, SegmentCabin.parentClasses_at hi hqs.1, diff_family hP hi hqs.1]
    cases hps : P.bookingClasses.drop n with
    | nil =>
      have hlen : P.bookingClasses.length ≤ n := List.drop_eq_nil_iff.1 hps
      have htailP : P.bookingClasses.drop (n + 1) = [] := List.drop_eq_nil_iff.2 (by omega)
      rw [List.getElem?_eq_none hlen]
      have hrest := diffLoop_eq hP fs qs (n + 1)
        (node ++ (f.bookingClasses.take (f.bookingClasses.idxOf q + 1)).reverse) htail hqs.2
        (by rw [htailP]; cases fs <;> simp [Nested])
      rw [htailP] at hrest
      simpa [gap, List.append_assoc] using hrest
    | cons p ps =>
      obtain ⟨hget, htailP⟩ := get_drop_of_cons hps
      rw [hps] at hnest
      have hrest := diffLoop_eq hP fs qs (n + 1)
        (node ++ (Ladder.rungs f.bookingClasses (f.bookingClasses.idxOf p + 1)
          (f.bookingClasses.idxOf q + 1)).reverse) htail hqs.2 (by rw [htailP]; exact hnest.2)
      rw [htailP] at hrest
      rw [hget]
      simpa [gap, hnest.1, List.append_assoc] using hrest

/-- **The difference of two nested policies** adds exactly the classes that open between them. -/
theorem diff_eq (node : List κ) (hP : OneOfEach cabin.fareFamilies P.bookingClasses)
    (hQ : OneOfEach cabin.fareFamilies Q.bookingClasses)
    (h : Nested cabin.fareFamilies P.bookingClasses Q.bookingClasses) :
    diffBetweenTwoPolicies cabin node Q P =
      .ok (node ++ gap cabin.fareFamilies P.bookingClasses Q.bookingClasses) := by
  have := diffLoop_eq hP cabin.fareFamilies Q.bookingClasses 0 node rfl hQ (by simpa using h)
  simpa [diffBetweenTwoPolicies] using this

theorem nested_of_diffLoop (hP : OneOfEach cabin.fareFamilies P.bookingClasses) :
    ∀ (fs : List (FareFamily κ α)) (qs : List κ) (n : ℕ) (node out : List κ),
      cabin.fareFamilies.drop n = fs → OneOfEach fs qs → (P.bookingClasses.drop n).length ≤ qs.length →
      qs.foldlM (fun node c => diffBetweenBookingClassAndPolicy node (cabin.parentClasses c) c P) node =
        .ok out → Nested fs (P.bookingClasses.drop n) qs
  | [], [], n, _, _, _, _, hlen, _ => by
    rw [List.length_nil, Nat.le_zero, List.length_eq_zero_iff] at hlen
    simp [hlen, Nested]
  | f :: fs, [], n, _, _, _, _, hlen, _ => by
    rw [List.length_nil, Nat.le_zero, List.length_eq_zero_iff] at hlen
    simp [hlen, Nested]
  | [], _ :: _, _, _, _, _, h, _, _ => h.elim
  | f :: fs, q :: qs, n, node, out, hdrop, hqs, hlen, hok => by
    obtain ⟨hi, htail⟩ := get_drop_of_cons hdrop
    rw [List.foldlM_cons, SegmentCabin.parentClasses_at hi hqs.1, diff_family hP hi hqs.1] at hok
    cases hps : P.bookingClasses.drop n with
    | nil => simp [Nested]
    | cons p ps =>
      obtain ⟨hget, htailP⟩ := get_drop_of_cons hps
      rw [hget] at hok
      simp only at hok
      -- the walk found the class of the second policy, so that class is not the lower one
      split at hok
      · rename_i hle
        refine ⟨hle, ?_⟩
        have := nested_of_diffLoop hP fs qs (n + 1) _ out htail hqs.2
          (by rw [htailP]; rw [hps] at hlen; simpa using hlen) hok
        rwa [htailP] at this
      · cases hok

/-- **A difference that does not fail is one of nested policies** (if the second policy has no more
classes than the first). -/
theorem nested_of_diff {node out : List κ} (hP : OneOfEach cabin.fareFamilies P.bookingClasses)
    (hQ : OneOfEach cabin.fareFamilies Q.bookingClasses)
    (hlen : P.bookingClasses.length ≤ Q.bookingClasses.length)
    (hok : diffBetweenTwoPolicies cabin node Q P = .ok out) :
    Nested cabin.fareFamilies P.bookingClasses Q.bookingClasses := by
  have := nested_of_diffLoop hP cabin.fareFamilies Q.bookingClasses 0 node out rfl hQ
    (by simpa using hlen) hok
  simpa using this

end diff

/-! ## The last node -/

section lastNode
variable [DecidableEq κ] {cabin : SegmentCabin κ α}

/-- The classes below the ones that the policy holds, family by family, from position `n` on. -/
theorem remaining_perm : ∀ (fs : List (FareFamily κ α)) (ps : List κ) (n : ℕ),
    cabin.fareFamilies.drop n = fs → OneOfEach fs ps →
    ((ps.flatMap fun c => (cabin.parentClasses c).reverse.takeWhile fun d => d ≠ c) ++
      opened fs ps).Perm ((fs.take ps.length).flatMap FareFamily.bookingClasses)
  | [], [], _, _, _ | _ :: _, [], _, _, _ => by simp [opened]
  | [], _ :: _, _, _, h => h.elim
  | f :: fs, p :: ps, n, hdrop, hp => by
    obtain ⟨hi, htail⟩ := get_drop_of_cons hdrop
    have ih := remaining_perm fs ps (n + 1) htail hp.2
    have hlt := List.idxOf_lt_length_iff.2 hp.1
    have hwalk := Ladder.reverse_takeWhile (b := f.bookingClasses.length)
      (SegmentCabin.family_nodup hi) hp.1 hlt
    have hsplit := Ladder.take_append_rungs (l := f.bookingClasses) (Nat.succ_le_of_lt hlt)
    rw [List.take_length] at hwalk hsplit
    simp only [List.flatMap_cons, opened, List.length_cons, List.take_succ_cons]
    rw [SegmentCabin.parentClasses_at hi hp.1, hwalk]
    conv_rhs => rw [← hsplit]
    generalize Ladder.rungs f.bookingClasses _ _ = r
    generalize f.bookingClasses.take _ = t
    generalize (ps.flatMap fun c => _) = m at ih ⊢
    calc r.reverse ++ m ++ (t ++ opened fs ps)
        _ = r.reverse ++ (m ++ t ++ opened fs ps) := by simp only [List.append_assoc]
        List.Perm _ (r.reverse ++ (t ++ m ++ opened fs ps)) :=
          (List.perm_append_comm.append_right _).append_left _
        _ = r.reverse ++ t ++ (m ++ opened fs ps) := by simp only [List.append_assoc]
        List.Perm _ (t ++ r ++ _) :=
          (((List.reverse_perm r).append_right t).trans List.perm_append_comm).append ih

/-- **The last node** takes every class of the fare families that the policy does not open. -/
theorem lastNode_perm [Zero α] [LE α] {P : Policy κ α} (node : List κ)
    (hP : OneOfEach cabin.fareFamilies P.bookingClasses) :
    ∃ out, computeLastNode cabin node P = .ok (node ++ out) ∧
      (out ++ opened cabin.fareFamilies P.bookingClasses).Perm
        (cabin.fareFamilies.flatMap FareFamily.bookingClasses) := by
  have hlen := hP.length_le
  simp only [computeLastNode, hlen, ↓reduceIte, List.append_assoc]
  refine ⟨_, rfl, ?_⟩
  have hopen := remaining_perm cabin.fareFamilies P.bookingClasses 0 rfl hP
  have hclosed : ((cabin.fareFamilies.reverse.take
      (cabin.fareFamilies.length - P.bookingClasses.length)).flatMap fun f =>
        f.bookingClasses.reverse).Perm
      ((cabin.fareFamilies.drop P.bookingClasses.length).flatMap FareFamily.bookingClasses) := by
    rw [List.take_reverse, Nat.sub_sub_self hlen]
    exact (List.reverse_perm _).flatMap fun f _ => List.reverse_perm _
  have hrem : (P.bookingClasses.reverse.flatMap fun c =>
      (cabin.parentClasses c).reverse.takeWhile fun d => d ≠ c).Perm
      (P.bookingClasses.flatMap fun c =>
        (cabin.parentClasses c).reverse.takeWhile fun d => d ≠ c) :=
    (List.reverse_perm _).flatMap fun _ _ => List.Perm.refl _
  rw [List.append_assoc]
  have hsum := hclosed.append ((hrem.append_right _).trans hopen)
  refine hsum.trans (List.perm_append_comm.trans ?_)
  rw [← List.flatMap_append, List.take_append_drop]

end lastNode

end Rmol
