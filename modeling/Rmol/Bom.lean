import Mathlib.Algebra.Order.Field.Basic
import Mathlib.Data.List.Basic
import Mathlib.Logic.Function.Basic
import Rmol.Lib.KeyedUpdates
/-!
# Business objects: classes, fare families, segment-cabins, policies

The part of the StdAir objects that the RMOL commands read and write. A pointer to a booking class
is its key (`κ`, the class code of the source); the attributes that the commands change are looked
up by key, so two lists that hold the same class share them.

| here | there |
| --- | --- |
| `BookingClass`     | the yield and forecast attributes of `stdair::BookingClass` |
| `FareFamily`       | `stdair::FareFamily`: its class list, highest class first, and its FRAT5 curve |
| `SegmentCabin`     | `stdair::SegmentCabin`: its class list and its fare families |
| `Policy`           | `stdair::Policy`: one class per open fare family, demand, deviation, yield-demand map |
| `Curve`            | `FRAT5Curve_T`, `SellUpCurve_T`, `DispatchingCurve_T` (maps from a day to a value) |
| `parentFareFamily` | `BomManager::getParent<FareFamily> (booking class)` |

Doubles are elements of an ordered field `α`; the commands that take roots and exponentials use `ℝ`.
-/

namespace Rmol

/-! ## Runs that can stop -/

section except
universe u v
variable {ε : Type u} {β γ : Type v}

@[simp] theorem ok_bind (b : β) (f : β → Except ε γ) : ((.ok b : Except ε β) >>= f) = f b := rfl

@[simp] theorem error_bind (e : ε) (f : β → Except ε γ) : ((.error e : Except ε β) >>= f) = .error e := rfl

@[simp] theorem except_pure (b : β) : (pure b : Except ε β) = .ok b := rfl

/-- A sequence that ends well did so in both parts. -/
theorem bind_eq_ok {x : Except ε β} {f : β → Except ε γ} {c : γ} :
    (x >>= f) = .ok c ↔ ∃ b, x = .ok b ∧ f b = .ok c := by
  cases x <;> simp

/-- A sequence that stops does so in one of the parts. -/
theorem bind_eq_error {x : Except ε β} {f : β → Except ε γ} {e : ε} :
    (x >>= f) = .error e ↔ x = .error e ∨ ∃ b, x = .ok b ∧ f b = .error e := by
  cases x <;> simp

/-- An invariant of the body of a loop is one of the loop. -/
theorem foldlM_inv {f : γ → β → Except ε γ} (P : γ → Prop) : ∀ {l : List β} {c c' : γ},
    (∀ b ∈ l, ∀ c c', P c → f c b = .ok c' → P c') → P c → l.foldlM f c = .ok c' → P c'
  | [], c, c', _, hc, h => by
    obtain rfl := Except.ok.inj h
    exact hc
  | b :: l, c, c', hf, hc, h => by
    rw [List.foldlM_cons, bind_eq_ok] at h
    obtain ⟨c₁, h₁, h₂⟩ := h
    exact foldlM_inv P (fun b hb => hf b (List.mem_cons_of_mem _ hb)) (hf b List.mem_cons_self c c₁ hc h₁) h₂

/-- A loop that collects a condition on the elements in what it carries. -/
theorem foldlM_forall {f : γ → β → Except ε γ} (I flag : γ → Prop) (P : β → Prop)
    (hf : ∀ b c c', I c → f c b = .ok c' → I c' ∧ (flag c' ↔ flag c ∧ P b)) :
    ∀ {l : List β} {c c' : γ}, I c → l.foldlM f c = .ok c' → (flag c' ↔ flag c ∧ ∀ b ∈ l, P b)
  | [], c, c', _, h => by
    obtain rfl := Except.ok.inj h
    simp
  | b :: l, c, c', hc, h => by
    rw [List.foldlM_cons, bind_eq_ok] at h
    obtain ⟨c₁, h₁, h₂⟩ := h
    obtain ⟨hc₁, hflag⟩ := hf b c c₁ hc h₁
    rw [foldlM_forall I flag P hf hc₁ h₂, hflag, List.forall_mem_cons, and_assoc]

/-- What each step sets and the other steps keep holds at the end. -/
theorem foldlM_sets {f : γ → β → Except ε γ} (Q : β → γ → Prop) (hset : ∀ b c c', f c b = .ok c' → Q b c')
    (hkeep : ∀ b c c', f c b = .ok c' → ∀ b', b' ≠ b → Q b' c → Q b' c') {b : β} :
    ∀ {l : List β} {c c' : γ}, b ∈ l ∨ Q b c → l.foldlM f c = .ok c' → Q b c'
  | [], c, c', hb, h => by
    obtain rfl := Except.ok.inj h
    exact hb.resolve_left List.not_mem_nil
  | b₁ :: l, c, c', hb, h => by
    rw [List.foldlM_cons, bind_eq_ok] at h
    obtain ⟨c₁, h₁, h₂⟩ := h
    refine foldlM_sets Q hset hkeep ?_ h₂
    by_cases hb₁ : b = b₁
    · subst hb₁
      exact .inr (hset b c c₁ h₁)
    · rcases hb with hb | hb
      · exact .inl ((List.mem_cons.1 hb).resolve_left hb₁)
      · exact .inr (hkeep b₁ c c₁ h₁ b hb₁ hb)

/-- A loop that ends well did so at every element. -/
theorem foldlM_step {f : γ → β → Except ε γ} : ∀ {l : List β} {c c' : γ}, l.foldlM f c = .ok c' → ∀ {b : β}, b ∈ l →
    ∃ before after, f before b = .ok after
  | b :: l, c, c', h, b', hb => by
    rw [List.foldlM_cons, bind_eq_ok] at h
    obtain ⟨c₁, h₁, h₂⟩ := h
    rcases List.mem_cons.1 hb with rfl | hb
    · exact ⟨c, c₁, h₁⟩
    · exact foldlM_step h₂ hb

theorem foldlM_eq_ok {f : γ → β → Except ε γ} {g : γ → β → γ} : ∀ {l : List β} (c : γ),
    (∀ b ∈ l, ∀ c, f c b = .ok (g c b)) → l.foldlM f c = .ok (l.foldl g c)
  | [], _, _ => rfl
  | b :: l, c, h => by
    rw [List.foldlM_cons, h b List.mem_cons_self, ok_bind, List.foldl_cons]
    exact foldlM_eq_ok _ fun b hb => h b (List.mem_cons_of_mem _ hb)

/-- The results of a loop that maps a list. -/
theorem mapM_ok {f : β → Except ε γ} : ∀ {l : List β} {r : List γ}, l.mapM f = .ok r →
    List.Forall₂ (fun b c => f b = .ok c) l r
  | [], r, h => by
    rw [List.mapM_nil] at h
    obtain rfl := Except.ok.inj h
    exact .nil
  | b :: l, r, h => by
    rw [List.mapM_cons, bind_eq_ok] at h
    obtain ⟨c, hc, h⟩ := h
    obtain ⟨cs, hcs, h⟩ := bind_eq_ok.1 h
    obtain rfl := Except.ok.inj h
    exact .cons hc (mapM_ok hcs)

theorem mapM_eq_ok {f : β → Except ε γ} {value : β → γ} : ∀ {l : List β}, (∀ b ∈ l, f b = .ok (value b)) →
    l.mapM f = .ok (l.map value)
  | [], _ => rfl
  | b :: l, h => by
    rw [List.mapM_cons, h b List.mem_cons_self, mapM_eq_ok fun c hc => h c (List.mem_cons_of_mem _ hc)]
    rfl

theorem mem_of_mapM_ok {f : β → Except ε γ} {l : List β} {r : List γ} (h : l.mapM f = .ok r) {c : γ} (hc : c ∈ r) :
    ∃ b ∈ l, f b = .ok c := by
  have hall := mapM_ok h
  clear h
  induction hall with
  | nil => simp at hc
  | cons hb _ ih =>
    rcases List.mem_cons.1 hc with rfl | hc
    · exact ⟨_, List.mem_cons_self, hb⟩
    · obtain ⟨b, hbl, hbc⟩ := ih hc
      exact ⟨b, List.mem_cons_of_mem _ hbl, hbc⟩

theorem exists_of_mem_mapM_ok {f : β → Except ε γ} {l : List β} {r : List γ} (h : l.mapM f = .ok r) {b : β} (hb : b ∈ l) :
    ∃ c ∈ r, f b = .ok c := by
  have hall := mapM_ok h
  clear h
  induction hall with
  | nil => simp at hb
  | cons hfirst _ ih =>
    rcases List.mem_cons.1 hb with rfl | hb
    · exact ⟨_, List.mem_cons_self, hfirst⟩
    · obtain ⟨c, hc, hbc⟩ := ih hb
      exact ⟨c, List.mem_cons_of_mem _ hc, hbc⟩

/-- What is known of each result of a loop that maps a list. -/
theorem mapM_map {η : Type v} {f : β → Except ε γ} {g : γ → η} {value : β → η} {l : List β} {r : List γ}
    (h : l.mapM f = .ok r) (hstep : ∀ b ∈ l, ∀ c, f b = .ok c → g c = value b) : r.map g = l.map value := by
  have hall := mapM_ok h
  clear h
  induction hall with
  | nil => rfl
  | cons hb _ ih =>
    rw [List.map_cons, List.map_cons, hstep _ List.mem_cons_self _ hb,
      ih fun b hmem => hstep b (List.mem_cons_of_mem _ hmem)]

/-- A loop that collects lists, where the list of each step is known. -/
theorem mapM_flatten {η : Type v} {f : β → Except ε (List η)} {value : β → List η} {l : List β} {r : List (List η)}
    (h : l.mapM f = .ok r) (hstep : ∀ b ∈ l, ∀ c, f b = .ok c → c = value b) : r.flatten = l.flatMap value := by
  have hall := mapM_ok h
  clear h
  induction hall with
  | nil => rfl
  | cons hb _ ih =>
    rw [List.flatten_cons, List.flatMap_cons, hstep _ List.mem_cons_self _ hb,
      ih fun b hmem => hstep b (List.mem_cons_of_mem _ hmem)]

/-- A loop whose steps are loops over lists is one loop over their concatenation. -/
theorem foldlM_flatMap_ok {η : Type v} {f : γ → β → Except ε γ} {g : γ → η → γ} {value : β → List η} :
    ∀ {l : List β} {c c' : γ}, (∀ b ∈ l, ∀ c c', f c b = .ok c' → c' = (value b).foldl g c) →
      l.foldlM f c = .ok c' → c' = (l.flatMap value).foldl g c
  | [], _, _, _, h => (Except.ok.inj h).symm
  | b :: l, c, c', hf, h => by
    rw [List.foldlM_cons] at h
    obtain ⟨c₁, h₁, h₂⟩ := bind_eq_ok.1 h
    rw [List.flatMap_cons, List.foldl_append, ← hf b List.mem_cons_self c c₁ h₁]
    exact foldlM_flatMap_ok (fun b hb => hf b (List.mem_cons_of_mem _ hb)) h₂

theorem mapM_congr {f g : β → Except ε γ} : ∀ {l : List β}, (∀ b ∈ l, f b = g b) → l.mapM f = l.mapM g
  | [], _ => rfl
  | b :: l, h => by
    rw [List.mapM_cons, List.mapM_cons, h b List.mem_cons_self, mapM_congr fun c hc => h c (List.mem_cons_of_mem _ hc)]

theorem foldlM_congr {f g : γ → β → Except ε γ} : ∀ {l : List β} {c : γ},
    (∀ b ∈ l, ∀ c, f c b = g c b) → l.foldlM f c = l.foldlM g c
  | [], _, _ => rfl
  | b :: l, c, h => by
    rw [List.foldlM_cons, List.foldlM_cons, h b List.mem_cons_self]
    exact bind_congr fun c' => foldlM_congr fun d hd => h d (List.mem_cons_of_mem _ hd)

theorem mapError_bind {ε ε' β γ : Type} (x : Except ε β) (f : β → Except ε γ) (g : ε → ε') :
    (x >>= f).mapError g = x.mapError g >>= fun b => (f b).mapError g := by
  cases x <;> rfl

theorem mapError_eq_ok {ε ε' β : Type} {x : Except ε β} {f : ε → ε'} {b : β} (h : x.mapError f = .ok b) : x = .ok b := by
  cases x with
  | error e => cases h
  | ok b' =>
    obtain rfl := Except.ok.inj h
    rfl

end except

/-! ## Objects -/

/-- Days to departure. -/
abbrev DTD := ℤ

/-- A value per day to departure; `none` where the map has no entry. -/
abbrev Curve (α : Type*) := DTD → Option α

structure BookingClass (α : Type*) where
  yield : α
  mean : α
  stdDev : α
  adjustedYield : α
  priceDemMean : α
  priceDemStdDev : α
  productDemMean : α
  productDemStdDev : α
  cumuPriceDemMean : α
  cumuPriceDemStdDev : α

/-- The attributes of the booking classes, by class key. -/
abbrev ClassStore (κ α : Type*) := κ → BookingClass α

/-- The booking classes of a family are listed from the highest one down. -/
structure FareFamily (κ α : Type*) where
  bookingClasses : List κ
  frat5Curve : Curve α

/-- The classes of a cabin are those of its fare families, and no class key occurs twice. -/
structure SegmentCabin (κ α : Type*) where
  bookingClasses : List κ
  fareFamilies : List (FareFamily κ α)
  nodup : (fareFamilies.flatMap FareFamily.bookingClasses).Nodup
  union : bookingClasses.Perm (fareFamilies.flatMap FareFamily.bookingClasses)

/-- A standard deviation is never negative: `setStdDev` is only called with a square root or zero. -/
structure Policy (κ α : Type*) [Zero α] [LE α] where
  bookingClasses : List κ
  demand : α
  stdDev : α
  yieldDemandMap : List (α × α)
  stdDev_nonneg : 0 ≤ stdDev

/-- A policy before any demand is dispatched to it. -/
@[simps] def Policy.withoutDemand {κ α : Type*} [Zero α] [Preorder α] (bookingClasses : List κ) : Policy κ α :=
  ⟨bookingClasses, 0, 0, [], le_rfl⟩

section
variable {κ α : Type*}

/-- A policy lists one class of each of the first fare families, in fare-family order. -/
def OneOfEach : List (FareFamily κ α) → List κ → Prop
  | _, [] => True
  | f :: fs, c :: cs => c ∈ f.bookingClasses ∧ OneOfEach fs cs
  | [], _ :: _ => False

theorem OneOfEach.length_le : ∀ {fs : List (FareFamily κ α)} {cs : List κ}, OneOfEach fs cs → cs.length ≤ fs.length
  | _, [], _ => by simp
  | f :: fs, c :: cs, h => by have := h.2.length_le; simpa using this
  | [], _ :: _, h => h.elim

variable [DecidableEq κ]

/-- A setter on one class. -/
def ClassStore.modify (classes : ClassStore κ α) (c : κ) (set : BookingClass α → BookingClass α) :
    ClassStore κ α :=
  Function.update classes c (set (classes c))

section store
variable (classes : ClassStore κ α) (set : BookingClass α → BookingClass α) {c d : κ}

@[simp] theorem ClassStore.modify_self : classes.modify c set c = set (classes c) := by
  simp [modify]

theorem ClassStore.modify_of_ne (h : d ≠ c) : classes.modify c set d = classes d := by
  simp [modify, h]

/-- A setter on some classes leaves the others as they are. -/
theorem ClassStore.foldl_modify_of_notMem {l : List κ} (classes : ClassStore κ α) (h : d ∉ l) :
    l.foldl (fun s c => ClassStore.modify s c set) classes d = classes d :=
  KeyedUpdates.visits_apply_of_notMem (fun _ => set) h classes

/-- On a list without duplicates the setter acts once on each class. -/
theorem ClassStore.foldl_modify_of_mem {l : List κ} (classes : ClassStore κ α) (hn : l.Nodup) (h : d ∈ l) :
    l.foldl (fun s c => ClassStore.modify s c set) classes d = set (classes d) :=
  KeyedUpdates.visits_apply_of_nodup (fun _ => set) hn h classes

end store

/-- The next policy opens the same or a lower class in every fare family that the first one opens. -/
def Nested : List (FareFamily κ α) → List κ → List κ → Prop
  | _, [], _ => True
  | f :: fs, p :: ps, q :: qs =>
    f.bookingClasses.idxOf p ≤ f.bookingClasses.idxOf q ∧ Nested fs ps qs
  | _, _, _ => False

namespace SegmentCabin

/-- The fare family that a class belongs to. -/
def parentFareFamily (cabin : SegmentCabin κ α) (c : κ) : Option (FareFamily κ α) :=
  cabin.fareFamilies.find? fun f => c ∈ f.bookingClasses

/-- The booking-class list of the parent fare family of a class. -/
def parentClasses (cabin : SegmentCabin κ α) (c : κ) : List κ :=
  match cabin.parentFareFamily c with
  | some f => f.bookingClasses
  | none => []

end SegmentCabin

/-- In a duplicate-free cabin the parent family of a class is the one family that lists it. -/
theorem find?_family {fs gs : List (FareFamily κ α)} {f : FareFamily κ α} {c : κ}
    (h : ((fs ++ f :: gs).flatMap FareFamily.bookingClasses).Nodup) (hc : c ∈ f.bookingClasses) :
    (fs ++ f :: gs).find? (fun f => c ∈ f.bookingClasses) = some f := by
  induction fs with
  | nil => simp [hc]
  | cons g fs ih =>
    rw [List.cons_append, List.flatMap_cons, List.nodup_append] at h
    have hg : c ∉ g.bookingClasses := fun hcg =>
      h.2.2 c hcg c (List.mem_flatMap.2 ⟨f, by simp, hc⟩) rfl
    rw [List.cons_append, List.find?_cons_of_neg (by simpa using hg)]
    exact ih h.2.1

theorem SegmentCabin.parentFareFamily_eq {cabin : SegmentCabin κ α} {fs gs : List (FareFamily κ α)}
    {f : FareFamily κ α} {c : κ} (h : cabin.fareFamilies = fs ++ f :: gs)
    (hc : c ∈ f.bookingClasses) : cabin.parentFareFamily c = some f := by
  unfold parentFareFamily
  rw [h]
  exact find?_family (h ▸ cabin.nodup) hc

theorem SegmentCabin.parentClasses_eq {cabin : SegmentCabin κ α} {fs gs : List (FareFamily κ α)}
    {f : FareFamily κ α} {c : κ} (h : cabin.fareFamilies = fs ++ f :: gs)
    (hc : c ∈ f.bookingClasses) : cabin.parentClasses c = f.bookingClasses := by
  simp [parentClasses, cabin.parentFareFamily_eq h hc]

end

end Rmol
