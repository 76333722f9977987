import Mathlib.Algebra.Field.Rat
import Mathlib.Algebra.Order.Ring.Unbundled.Rat
import Rmol.PolicyDiff
/-!
# `isNested` and nested policies (`PolicyHelper.cpp:220-282`)

`isNested` accepts every pair of nested policies (`isNested_of_nested`) and no pair whose second
policy has fewer classes (`length_le_of_isNested`). It accepts more than nested policies: the loop
ends at the first fare family in which the two policies hold the same class (`isNestedLoop_iff`), so
the answer is wrong for the pairs that are out of order in a later family (`isNested_exact_iff`).
-/

namespace Rmol

variable {κ α : Type*} [DecidableEq κ] {cabin : SegmentCabin κ α}

/-- The inner loop compares positions in the fare family. -/
theorem notBelow_eq {p q : κ} : ∀ {l : List κ}, p ∈ l → notBelow p q l = decide (l.idxOf p ≤ l.idxOf q)
  | [], h => by simp at h
  | c :: l, h => by
    unfold notBelow
    by_cases hp : p = c
    · subst hp; simp
    · rw [if_neg hp]
      have hpl : p ∈ l := by simpa [hp] using h
      by_cases hq : q = c
      · subst hq
        rw [if_pos rfl, List.idxOf_cons_self, List.idxOf_cons_ne _ (Ne.symm hp)]
        simp
      · rw [if_neg hq, List.idxOf_cons_ne _ (Ne.symm hp), List.idxOf_cons_ne _ (Ne.symm hq),
          notBelow_eq hpl]
        simp

/-- `isNested` never accepts a policy with fewer classes. -/
theorem length_le_of_isNested [Zero α] [LE α] {P Q : Policy κ α} (h : isNested cabin P Q = true) :
    P.bookingClasses.length ≤ Q.bookingClasses.length := by
  unfold isNested at h
  split at h
  · simp_all
  · split at h
    · cases h
    · split at h
      · cases h
      · rename_i hlt; exact Nat.not_lt.1 hlt

theorem Nested.trans : ∀ {fs : List (FareFamily κ α)} {ps qs rs : List κ}, Nested fs ps qs →
    Nested fs qs rs → Nested fs ps rs
  | _, [], _, _, _, _ => by simp [Nested]
  | f :: fs, p :: ps, q :: qs, r :: rs, h, h' => ⟨h.1.trans h'.1, h.2.trans h'.2⟩
  | [], _ :: _, _, _, h, _ => by simp [Nested] at h
  | _ :: _, _ :: _, [], _, h, _ => by simp [Nested] at h
  | _ :: _, _ :: _, _ :: _, [], _, h' => by simp [Nested] at h'

/-! ## When the answer is right -/

/-- In the `i`-th fare family the class of the second policy is the one of the first policy or comes
after it. -/
def InOrder (fs : List (FareFamily κ α)) (ps qs : List κ) (i : ℕ) : Prop :=
  ∀ f p q, fs[i]? = some f → ps[i]? = some p → qs[i]? = some q →
    f.bookingClasses.idxOf p ≤ f.bookingClasses.idxOf q

/-- `Nested`, family by family. -/
theorem nested_iff_inOrder : ∀ {fs : List (FareFamily κ α)} {ps qs : List κ}, OneOfEach fs ps →
    (Nested fs ps qs ↔ ps.length ≤ qs.length ∧ ∀ i < ps.length, InOrder fs ps qs i)
  | _, [], _, _ => by simp [Nested]
  | [], _ :: _, _, h => h.elim
  | _ :: _, _ :: _, [], _ => by simp [Nested]
  | f :: fs, p :: ps, q :: qs, h => by
    simp only [Nested, List.length_cons, Nat.forall_lt_succ_left, Nat.add_le_add_iff_right]
    rw [nested_iff_inOrder h.2]
    simp only [InOrder, List.getElem?_cons_zero, List.getElem?_cons_succ, Option.some.injEq]
    constructor
    · rintro ⟨h0, hlen, hrest⟩
      refine ⟨hlen, ?_, hrest⟩
      rintro _ _ _ rfl rfl rfl
      exact h0
    · rintro ⟨hlen, h0, hrest⟩
      exact ⟨h0 f p q rfl rfl rfl, hlen, hrest⟩

/-- The loop accepts what is in order everywhere, or in order up to a family where the policies hold
the same class. -/
theorem isNestedLoop_iff : ∀ (fs : List (FareFamily κ α)) (ps qs : List κ) (n : ℕ),
    cabin.fareFamilies.drop n = fs → OneOfEach fs ps → ps.length ≤ qs.length →
    (isNestedLoop cabin ps qs = true ↔ (∀ i < ps.length, InOrder fs ps qs i) ∨
      ∃ i < ps.length, ps[i]? = qs[i]? ∧ ∀ k < i, InOrder fs ps qs k)
  | _, [], _, _, _, _, _ => by simp [isNestedLoop]
  | [], _ :: _, _, _, _, h, _ => h.elim
  | _ :: _, _ :: _, [], _, _, _, hlen => by simp at hlen
  | f :: fs, p :: ps, q :: qs, n, hdrop, hp, hlen => by
    obtain ⟨hi, htail⟩ := get_drop_of_cons hdrop
    have ih := isNestedLoop_iff fs ps qs (n + 1) htail hp.2 (by simpa using hlen)
    have hhead : InOrder (f :: fs) (p :: ps) (q :: qs) 0 ↔
        f.bookingClasses.idxOf p ≤ f.bookingClasses.idxOf q := by
      simp [InOrder]
    have htl : ∀ i, InOrder (f :: fs) (p :: ps) (q :: qs) (i + 1) ↔ InOrder fs ps qs i := by
      intro i
      simp [InOrder]
    unfold isNestedLoop
    rw [SegmentCabin.parentClasses_at hi hp.1, notBelow_eq hp.1]
    by_cases hpq : p = q
    · -- the `break`: the first family alone decides
      subst hpq
      simp only [↓reduceIte, true_iff]
      exact .inr ⟨0, by simp, by simp, by simp⟩
    · simp only [hpq, ↓reduceIte, List.length_cons, Nat.forall_lt_succ_left, Nat.exists_lt_succ_left, hhead, htl,
        List.getElem?_cons_zero, List.getElem?_cons_succ, Option.some.injEq, false_and, false_or]
      by_cases h0 : f.bookingClasses.idxOf p ≤ f.bookingClasses.idxOf q
      · simp only [h0, decide_true, ↓reduceIte, true_and, ih]
      · simp [h0]

/-- The policies hold the same class in a fare family, with every family above in order, and are out
of order in a family below it. -/
def AgreesThenCrosses (fs : List (FareFamily κ α)) (ps qs : List κ) : Prop :=
  ps.length ≤ qs.length ∧ ∃ i < ps.length, ps[i]? = qs[i]? ∧ (∀ k < i, InOrder fs ps qs k) ∧
    ∃ j, i < j ∧ j < ps.length ∧ ¬ InOrder fs ps qs j

theorem isNested_iff [Zero α] [LE α] {P Q : Policy κ α} :
    isNested cabin P Q = true ↔ P.bookingClasses.length ≤ Q.bookingClasses.length ∧
      isNestedLoop cabin P.bookingClasses Q.bookingClasses = true := by
  constructor
  · intro h
    refine ⟨length_le_of_isNested h, ?_⟩
    unfold isNested at h
    by_cases hp : P.bookingClasses = []
    · simp [hp, isNestedLoop]
    · rw [if_neg hp] at h
      split_ifs at h
      exact h
  · rintro ⟨hlen, hloop⟩
    unfold isNested
    by_cases hp : P.bookingClasses = []
    · simp [hp]
    · have hq : Q.bookingClasses ≠ [] := by
        intro h0
        rw [h0, List.length_nil, Nat.le_zero, List.length_eq_zero_iff] at hlen
        exact hp hlen
      rw [if_neg hp, if_neg hq, if_neg (by omega)]
      exact hloop

/-- The classes are in order in every fare family, or in every one above a family for which both list the same
class. -/
def InOrderUntilEqual (fs : List (FareFamily κ α)) (ps qs : List κ) : Prop :=
  ps.length ≤ qs.length ∧ ((∀ i < ps.length, InOrder fs ps qs i) ∨
    ∃ i < ps.length, ps[i]? = qs[i]? ∧ ∀ k < i, InOrder fs ps qs k)

theorem isNested_iff_inOrderUntilEqual [Zero α] [LE α] {P Q : Policy κ α}
    (hP : OneOfEach cabin.fareFamilies P.bookingClasses) :
    isNested cabin P Q = true ↔ InOrderUntilEqual cabin.fareFamilies P.bookingClasses Q.bookingClasses := by
  rw [isNested_iff, InOrderUntilEqual]
  apply and_congr_right
  intro hlen
  exact isNestedLoop_iff cabin.fareFamilies _ _ 0 rfl hP hlen

/-- `isNested` accepts every nested pair of policies. -/
theorem isNested_of_nested [Zero α] [LE α] {P Q : Policy κ α} (hP : OneOfEach cabin.fareFamilies P.bookingClasses)
    (h : Nested cabin.fareFamilies P.bookingClasses Q.bookingClasses) : isNested cabin P Q = true := by
  obtain ⟨hlen, hall⟩ := (nested_iff_inOrder hP).1 h
  exact (isNested_iff_inOrderUntilEqual hP).2 ⟨hlen, .inl hall⟩

/-- A policy that crosses another one holds at least two classes and does not go on as the other one. -/
theorem AgreesThenCrosses.two_le {fs : List (FareFamily κ α)} {ps qs : List κ} (h : AgreesThenCrosses fs ps qs) :
    2 ≤ ps.length ∧ ps.length ≤ qs.length ∧ ¬ ps <+: qs := by
  obtain ⟨hlen, i, -, -, -, j, hij, hj, hcross⟩ := h
  refine ⟨by omega, hlen, ?_⟩
  rintro ⟨rest, rfl⟩
  apply hcross
  intro f p q _ hp hq
  rw [List.getElem?_append_left hj, hp, Option.some.injEq] at hq
  rw [hq]

theorem inOrderUntilEqual_iff_of_not_crosses {fs : List (FareFamily κ α)} {ps qs : List κ}
    (h : ¬ AgreesThenCrosses fs ps qs) :
    InOrderUntilEqual fs ps qs ↔ ps.length ≤ qs.length ∧ ∀ i < ps.length, InOrder fs ps qs i := by
  apply and_congr_right
  intro hlen
  refine ⟨?_, .inl⟩
  rintro (hall | ⟨i, hi, hagree, habove⟩)
  · exact hall
  · intro j hj
    -- families above `i` are in order, the one at `i` holds one class twice, those below by `h`
    rcases lt_trichotomy j i with hji | rfl | hij
    · exact habove j hji
    · intro f p q _ hp hq
      rw [hp, hq, Option.some.injEq] at hagree
      rw [hagree]
    · by_contra hcross
      exact h ⟨hlen, i, hi, hagree, habove, j, hij, hj, hcross⟩

/-- **The nesting decision.** `isNested` answers whether the first policy is nested in the second,
unless the two hold the same class in one fare family and are out of order in a later one. -/
theorem isNested_exact_iff [Zero α] [LE α] (cabin : SegmentCabin κ α) (P Q : Policy κ α)
    (hP : OneOfEach cabin.fareFamilies P.bookingClasses) :
    (isNested cabin P Q = true ↔ P.bookingClasses.length ≤ Q.bookingClasses.length ∧
        ∀ i < P.bookingClasses.length, InOrder cabin.fareFamilies P.bookingClasses Q.bookingClasses i) ↔
      ¬ AgreesThenCrosses cabin.fareFamilies P.bookingClasses Q.bookingClasses := by
  rw [isNested_iff_inOrderUntilEqual hP]
  constructor
  · rintro h ⟨hlen, i, hi, hagree, habove, j, -, hj, hcross⟩
    exact hcross ((h.1 ⟨hlen, .inr ⟨i, hi, hagree, habove⟩⟩).2 j hj)
  · exact inOrderUntilEqual_iff_of_not_crosses

section twoFamilies

def twoFamilies : SegmentCabin ℕ ℚ where
  bookingClasses := [1, 2, 3, 4]
  fareFamilies := [⟨[1, 2], fun _ => none⟩, ⟨[3, 4], fun _ => none⟩]
  nodup := by decide
  union := by decide

theorem isNested_exact_iff_twoFamilies :
    (isNested twoFamilies (.withoutDemand [1, 3]) (.withoutDemand [2, 4]) = true ↔ [1, 3].length ≤ [2, 4].length ∧
        ∀ i < [1, 3].length, InOrder twoFamilies.fareFamilies [1, 3] [2, 4] i) ↔
      ¬ AgreesThenCrosses twoFamilies.fareFamilies [1, 3] [2, 4] :=
  isNested_exact_iff twoFamilies (.withoutDemand [1, 3]) (.withoutDemand [2, 4])
    (by simp [OneOfEach, twoFamilies])

/-- Class 1 twice in the first family; in the second one class 4, then the higher class 3. -/
theorem isNested_not_exact :
    OneOfEach twoFamilies.fareFamilies [1, 4] ∧ OneOfEach twoFamilies.fareFamilies [1, 3] ∧
      isNested twoFamilies (.withoutDemand [1, 4]) (.withoutDemand [1, 3]) = true ∧
      ¬ ([1, 4].length ≤ [1, 3].length ∧
        ∀ i < [1, 4].length, InOrder twoFamilies.fareFamilies [1, 4] [1, 3] i) := by
  refine ⟨by simp [OneOfEach, twoFamilies], by simp [OneOfEach, twoFamilies], by decide, ?_⟩
  rintro ⟨-, h⟩
  have h1 := h 1 (by decide) ⟨[3, 4], fun _ => none⟩ 4 3 rfl rfl rfl
  revert h1
  decide

end twoFamilies

end Rmol
