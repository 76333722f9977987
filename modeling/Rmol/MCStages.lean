import Mathlib.Data.List.Chain
import Mathlib.Data.Nat.Cast.Order.Ring
import Rmol.MCOptimiser
/-!
# What the Monte-Carlo integration prices a seat with

Both functions of `MCOptimiser.cpp` go through the classes from the highest yield down with a list of
partial sums. `Stages` lists what is held when each class is processed, without seats and prices, and
`Stages.price` reads the price of a seat off it: the yield of the first class that covers the seat
times the tail of its partial sums.

The code covers a seat when the index is at most the converted protection level (`wraps`); by the
formula it should be covered when it is at most the protection level (`protects`). The two differ on
protection levels of -1 or less (`wraps_iff`).

`legLoop_spec` and `odLoop_spec` say what the two loops return.
-/

namespace Rmol

open OrderStatistics

/-- The classes of a run, each with its yield, the partial sums held when it is processed, the sample
index and the protection level. -/
inductive Stages (α : Type*) where
  | last (y : α) (sums : List α)
  | step (y : α) (sums : List α) (lj : ℕ) (pj : α) (rest : Stages α)

variable {α : Type*} [Field α] [LinearOrder α] [FloorRing α]

section stage
variable (sums : List α) (y y' : α)

def sortedSums : List α := sums.insertionSort (· ≤ ·)

/-- The sample index of a class with the next lower yield `y'`. -/
def stageIndex : ℕ := sampleIndex (sortedSums sums).length y y'

def stageProtection : α := OrderStatistics.midpoint (sortedSums sums) (stageIndex sums y y')

/-- The partial sums of the next class, with the demand samples `draw` of that class. -/
def stageNext (draw : ℕ → List α) : List α :=
  nextSums (sortedSums sums) (stageIndex sums y y') (draw ((sortedSums sums).length - stageIndex sums y y'))

end stage

/-- The stages from the partial sums `sums` of a class with the yield `y` on; the classes below it
come with their yields and their demand samples. -/
def stages : List α → α → List (α × (ℕ → List α)) → Stages α
  | sums, y, [] => .last y sums
  | sums, y, (y', draw) :: below =>
    .step y (sortedSums sums) (stageIndex sums y y') (stageProtection sums y y')
      (stages (stageNext sums y y' draw) y' below)

/-- The yield times the fraction of the sums that reach the seat. -/
def tailPrice (y : α) (sums : List α) (x : ℕ) : α := y * (tailCount sums (x : α) : α) / sums.length

/-- A seat is protected by a class if its index is at most the protection level. -/
def protects (p : α) (x : ℕ) : Prop := (x : α) ≤ p

/-- A seat is covered in the code if its index is at most the converted protection level. -/
def wraps (p : α) (x : ℕ) : Prop := x ≤ toUnsignedIndex p

instance (p : α) (x : ℕ) : Decidable (protects p x) := inferInstanceAs (Decidable ((x : α) ≤ p))

instance (p : α) (x : ℕ) : Decidable (wraps p x) := inferInstanceAs (Decidable (x ≤ toUnsignedIndex p))

namespace Stages

/-- The price of a seat: by the first class that covers it, or else by the last one. -/
def price (covers : α → ℕ → Prop) [∀ p x, Decidable (covers p x)] : Stages α → ℕ → α
  | last y sums, x => tailPrice y sums x
  | step y sums _ pj rest, x => if covers pj x then tailPrice y sums x else rest.price covers x

def yield : Stages α → α
  | last y _ => y
  | step y .. => y

/-- The index assertions hold for every class. -/
def Passes : Stages α → Prop
  | last _ _ => True
  | step _ sums lj _ rest => (lj ≥ 1 ∧ lj < sums.length) ∧ rest.Passes

/-- Every protection level is in the range of `int`. -/
def Fits : Stages α → Prop
  | last _ _ => True
  | step _ _ _ pj rest => FitsInt pj ∧ rest.Fits

/-- Some class before the last one covers the seat in the code. -/
def Covered : Stages α → ℕ → Prop
  | last _ _, _ => False
  | step _ _ _ pj rest, x => wraps pj x ∨ rest.Covered x

/-- If the seat comes to the last class, the sums of that class are partitioned there. -/
def LastPartitioned : Stages α → ℕ → Prop
  | last _ sums, x => PartitionedAt sums (x : α)
  | step _ _ _ pj rest, x => wraps pj x ∨ rest.LastPartitioned x

/-- Going down the classes above the last one, the seat meets no protection level of -1 or less before one that
reaches it. -/
def Unwrapped : Stages α → ℕ → Prop
  | last _ _, _ => True
  | step _ _ _ pj rest, x => protects pj x ∨ (-1 < pj ∧ rest.Unwrapped x)

instance decidablePasses : ∀ st : Stages α, Decidable st.Passes
  | last _ _ => isTrue trivial
  | step _ sums lj _ rest =>
    have := decidablePasses rest
    inferInstanceAs (Decidable ((lj ≥ 1 ∧ lj < sums.length) ∧ rest.Passes))

instance decidableFits : ∀ st : Stages α, Decidable st.Fits
  | last _ _ => isTrue trivial
  | step _ _ _ pj rest =>
    have := decidableFits rest
    inferInstanceAs (Decidable (FitsInt pj ∧ rest.Fits))

instance decidableCovered : ∀ (st : Stages α) (x : ℕ), Decidable (st.Covered x)
  | last _ _, _ => isFalse id
  | step _ _ _ pj rest, x =>
    have := decidableCovered rest x
    inferInstanceAs (Decidable (wraps pj x ∨ rest.Covered x))

instance decidableLastPartitioned : ∀ (st : Stages α) (x : ℕ), Decidable (st.LastPartitioned x)
  | last _ sums, x => inferInstanceAs (Decidable (PartitionedAt sums (x : α)))
  | step _ _ _ pj rest, x =>
    have := decidableLastPartitioned rest x
    inferInstanceAs (Decidable (wraps pj x ∨ rest.LastPartitioned x))

instance decidableUnwrapped : ∀ (st : Stages α) (x : ℕ), Decidable (st.Unwrapped x)
  | last _ _, _ => isTrue trivial
  | step _ _ _ pj rest, x =>
    have := decidableUnwrapped rest x
    inferInstanceAs (Decidable (protects pj x ∨ (-1 < pj ∧ rest.Unwrapped x)))

/-- The entry of the O&D function for a seat: the minimum from the first price of the last class below it
on, where the seats from `idx` on are left. -/
def flooredPrice (st : Stages α) (idx x : ℕ) : α :=
  if ∃ z ∈ seats idx x, ¬ st.Covered z ∧ st.price wraps z < 1 then 1 else st.price wraps x

end Stages

/-! ## Conversions -/

section conversions
variable [IsStrictOrderedRing α] {p : α} {x : ℕ}

/-- **The converted protection level** covers a seat that the level protects, and every seat if the
level is -1 or less. -/
theorem wraps_iff (hp : FitsInt p) (hx : 1 ≤ x) (hmax : x < 2 ^ 31) : wraps p x ↔ protects p x ∨ p ≤ -1 := by
  unfold wraps protects toUnsignedIndex
  obtain ⟨hlo, hhi⟩ := hp
  by_cases hnonneg : 0 ≤ p
  · have htrunc : truncate p = ⌊p⌋ := if_pos hnonneg
    rw [htrunc] at hhi ⊢
    have hfloor : 0 ≤ ⌊p⌋ := Int.floor_nonneg.2 hnonneg
    have hle : (x : α) ≤ p ↔ (x : ℤ) ≤ ⌊p⌋ := by rw [Int.le_floor]; norm_cast
    have hneg : ¬ p ≤ -1 := by intro h; linarith
    rw [hle, or_iff_left hneg, Int.emod_eq_of_lt hfloor (by omega)]
    omega
  · have hlt : p < 0 := not_le.1 hnonneg
    have hpos : (1 : α) ≤ x := by exact_mod_cast hx
    have hnot : ¬ (x : α) ≤ p := by intro h; linarith
    rw [or_iff_right hnot]
    have htrunc : truncate p = ⌈p⌉ := if_neg hnonneg
    have hneg : p ≤ -1 ↔ ⌈p⌉ ≤ -1 := by rw [Int.ceil_le]; norm_cast
    have hceil : ⌈p⌉ ≤ 0 := Int.ceil_le.2 (by exact_mod_cast hlt.le)
    rw [hneg, htrunc]
    rw [htrunc] at hlo
    constructor
    · intro hle
      by_contra hcon
      have hzero : ⌈p⌉ = 0 := by omega
      rw [hzero] at hle
      omega
    · intro hle
      -- a negative index wraps to at least 2 ^ 31
      have hmod : ⌈p⌉ % 2 ^ 32 = ⌈p⌉ + 2 ^ 32 := by omega
      rw [hmod]
      omega

/-- A seat that meets no such level first is priced as it should be. -/
theorem Stages.Unwrapped.price_eq {st : Stages α} (h : st.Unwrapped x) (hfits : st.Fits) (hx : 1 ≤ x)
    (hmax : x < 2 ^ 31) : st.price wraps x = st.price protects x := by
  induction st with
  | last y sums => rfl
  | step y sums lj pj rest ih =>
    have hwraps := wraps_iff hfits.1 hx hmax
    by_cases hprotects : protects pj x
    · have hw : wraps pj x := hwraps.2 (Or.inl hprotects)
      simp [price, hprotects, hw]
    · obtain ⟨hpj, hrest⟩ := h.resolve_left hprotects
      have hw : ¬ wraps pj x := fun hw => (hwraps.1 hw).elim hprotects hpj.not_ge
      simpa [price, hprotects, hw] using ih hrest hfits.2

omit [FloorRing α] in
theorem midpoint_nonneg {l : List α} (h : ∀ a ∈ l, 0 ≤ a) (k : ℕ) : 0 ≤ OrderStatistics.midpoint l k := by
  have hget : ∀ i, 0 ≤ l.getD i 0 := by
    intro i
    rw [List.getD_eq_getElem?_getD]
    cases hi : l[i]? with
    | none => exact le_rfl
    | some a => exact h a (List.mem_of_getElem? hi)
  unfold OrderStatistics.midpoint
  have h₁ := hget (k - 1)
  have h₂ := hget k
  positivity

/-- Without negative samples there is no such level. -/
theorem Stages.unwrapped_of_nonneg {below : List (α × (ℕ → List α))} {sums : List α} {y : α}
    (hsums : ∀ a ∈ sums, 0 ≤ a) (hdraws : ∀ b ∈ below, ∀ k, ∀ d ∈ b.2 k, 0 ≤ d) :
    (stages sums y below).Unwrapped x := by
  induction below generalizing sums y with
  | nil => trivial
  | cons head below ih =>
    obtain ⟨y', draw⟩ := head
    have hsorted : ∀ a ∈ sortedSums sums, 0 ≤ a := fun a ha =>
      hsums a ((List.perm_insertionSort _ sums).subset ha)
    have hlevel : 0 ≤ stageProtection sums y y' := midpoint_nonneg hsorted _
    refine .inr ⟨by linarith, ih ?_ fun b hb => hdraws b (List.mem_cons_of_mem _ hb)⟩
    intro a ha
    unfold stageNext nextSums at ha
    rw [← List.map_uncurry_zip_eq_zipWith] at ha
    obtain ⟨⟨s, d⟩, hmem, rfl⟩ := List.mem_map.1 ha
    have hs := hsorted s (List.mem_of_mem_drop (List.of_mem_zip hmem).1)
    have hd := hdraws _ List.mem_cons_self _ d (List.of_mem_zip hmem).2
    exact add_nonneg hs hd

end conversions

/-! ## Prices of a run of seats -/

theorem seats_split (idx w bound : ℕ) :
    seats idx bound = seats idx (min w bound) ++ seats (max idx (min w bound + 1)) bound := by
  unfold seats
  rcases Nat.le_total idx (min w bound + 1) with h | h
  · have hstart : max idx (min w bound + 1) = idx + (min w bound + 1 - idx) := by omega
    rw [hstart, List.range'_append_1]
    congr 1
    omega
  · rw [show min w bound + 1 - idx = 0 by omega, List.range'_zero, List.nil_append, max_eq_left h]

theorem mem_seats {idx bound x : ℕ} : x ∈ seats idx bound ↔ idx ≤ x ∧ x ≤ bound := by
  simp only [seats, List.mem_range'_1]
  omega

/-- The seats that are left after a class with the converted protection level `w`. -/
theorem mem_seats_rest {idx w bound x : ℕ} :
    x ∈ seats (max idx (min w bound + 1)) bound ↔ x ∈ seats idx bound ∧ ¬ x ≤ w := by
  simp only [mem_seats]
  omega

section prices
variable [IsStrictOrderedRing α] {y : α} {l : List α}

/-- The search at the next seat goes on where the one before stopped. -/
theorem priceLoop_eq {lSeats : List ℕ} {pos : ℕ} (hsorted : lSeats.Pairwise (· < ·))
    (hbelow : ∀ x ∈ lSeats, ∀ a ∈ l.take pos, a < (x : α)) :
    priceLoop y l lSeats pos = if ∀ x ∈ lSeats, PartitionedAt l (x : α) then .ok (lSeats.map (tailPrice y l))
      else .error .unpartitionedRange := by
  induction lSeats generalizing pos with
  | nil => simp [priceLoop]
  | cons x lSeats ih =>
    rw [List.pairwise_cons] at hsorted
    have hlb := lowerBound_eq (hbelow x List.mem_cons_self)
    rw [priceLoop, hlb]
    by_cases hp : PartitionedAt l (x : α)
    · rw [if_pos hp]
      have hnext : ∀ z ∈ lSeats, ∀ a ∈ l.take (l.length - tailCount l (x : α)), a < (z : α) := by
        intro z hz a ha
        exact (hp.lt_of_mem_take a ha).trans (by exact_mod_cast hsorted.1 z hz)
      have hcount : l.length - (l.length - tailCount l (x : α)) = tailCount l (x : α) :=
        Nat.sub_sub_self tailCount_le_length
      simp only [ih hsorted.2 hnext, hcount, List.forall_mem_cons, hp, true_and]
      split <;> rfl
    · rw [if_neg hp, if_neg fun hall => hp (hall x List.mem_cons_self)]

theorem priceSeats_eq {idx bound : ℕ} (hbound : bound + 1 < 2 ^ 32) :
    priceSeats y l idx bound =
      if ∀ x ∈ seats idx bound, PartitionedAt l (x : α) then .ok ((seats idx bound).map (tailPrice y l))
      else .error .unpartitionedRange := by
  rw [priceSeats, if_neg (by omega)]
  exact priceLoop_eq (List.pairwise_lt_range' ..) (by simp)

omit [Field α] [FloorRing α] [IsStrictOrderedRing α] in
theorem length_sortedSums (sums : List α) : (sortedSums sums).length = sums.length :=
  List.length_insertionSort _ _

omit [Field α] [FloorRing α] [IsStrictOrderedRing α] in
theorem sortedSums_sorted (sums : List α) : (sortedSums sums).Pairwise (· ≤ ·) :=
  List.pairwise_insertionSort _ _

/-- The loop of the last level latches the minimum. -/
theorem lastPriceLoop_eq (hl : l.Pairwise (· ≤ ·)) (n : ℕ) {idx pos : ℕ} (lMinBPReached : Bool)
    (hbelow : ∀ a ∈ l.take pos, a < (idx : α)) :
    lastPriceLoop y l (List.range' idx n) pos lMinBPReached =
      .ok ((List.range' idx n).map fun x =>
        if lMinBPReached = true ∨ ∃ z ∈ seats idx x, tailPrice y l z < 1 then 1 else tailPrice y l x) := by
  induction n generalizing idx pos lMinBPReached with
  | zero => simp [lastPriceLoop]
  | succ n ih =>
    have hp : PartitionedAt l (idx : α) := partitionedAt_of_sorted hl
    have hcount : l.length - (l.length - tailCount l (idx : α)) = tailCount l (idx : α) :=
      Nat.sub_sub_self tailCount_le_length
    have hnext : ∀ a ∈ l.take (l.length - tailCount l (idx : α)), a < ((idx + 1 : ℕ) : α) := by
      intro a ha
      exact (hp.lt_of_mem_take a ha).trans (by exact_mod_cast Nat.lt_succ_self idx)
    have hlatch : (lMinBPReached || decide (tailPrice y l idx < 1)) = true ↔
        lMinBPReached = true ∨ tailPrice y l idx < 1 := by simp
    rw [List.range'_succ, lastPriceLoop, lowerBound_eq hbelow, if_pos hp]
    simp only [hcount]
    rw [← tailPrice, ih _ hnext]
    simp only [ok_bind, hlatch, List.map_cons]
    congr 2
    · simp [seats]
    · apply List.map_congr_left
      intro x hx
      rw [List.mem_range'_1] at hx
      have hseats : seats idx x = idx :: seats (idx + 1) x := by
        unfold seats
        rw [show x + 1 - idx = x + 1 - (idx + 1) + 1 by omega, List.range'_succ]
      simp only [hseats, List.exists_mem_cons_iff, or_assoc]

omit [FloorRing α] [IsStrictOrderedRing α] in
theorem tailPrice_sortedSums (y : α) (sums : List α) (x : ℕ) :
    tailPrice y (sortedSums sums) x = tailPrice y sums x := by
  unfold tailPrice
  rw [length_sortedSums, sortedSums, tailCount_perm (List.perm_insertionSort _ sums)]

/-- **One pass of the class loop** prices the seats up to the converted protection level. -/
theorem classStep_eq (idx : ℕ) {y' : α} {bound : ℕ} {sums : List α} (hyield : y' < y) (hbound : bound + 1 < 2 ^ 32)
    (hindex : stageIndex sums y y' ≥ 1 ∧ stageIndex sums y y' < (sortedSums sums).length) :
    classStep y y' bound sums idx = .ok ⟨sortedSums sums, stageIndex sums y y', stageProtection sums y y',
      (seats idx (min (toUnsignedIndex (stageProtection sums y y')) bound)).map (tailPrice y (sortedSums sums)),
      max idx (min (toUnsignedIndex (stageProtection sums y y')) bound + 1)⟩ := by
  have hprices : priceSeats y (sortedSums sums) idx (min (toUnsignedIndex (stageProtection sums y y')) bound) =
      .ok ((seats idx (min (toUnsignedIndex (stageProtection sums y y')) bound)).map
        (tailPrice y (sortedSums sums))) := by
    rw [priceSeats_eq (by omega), if_pos fun x _ => partitionedAt_of_sorted (sortedSums_sorted sums)]
  unfold stageProtection stageIndex sortedSums at *
  rw [classStep, if_neg (not_not.2 hyield), if_neg (not_not.2 hindex)]
  simp only [hprices]
  rfl

omit [IsStrictOrderedRing α] in
theorem classStep_of_not_index {y' : α} {bound idx : ℕ} {sums : List α} (hyield : y' < y)
    (hindex : ¬ (stageIndex sums y y' ≥ 1 ∧ stageIndex sums y y' < (sortedSums sums).length)) :
    classStep y y' bound sums idx = .error .sampleIndex := by
  unfold stageIndex sortedSums at hindex
  rw [classStep, if_neg (not_not.2 hyield), if_pos hindex]

end prices

/-! ## The two loops -/

section loops
variable [IsStrictOrderedRing α]

omit [IsStrictOrderedRing α] in
theorem length_stageNext (sums : List α) (y y' : α) (draw : ℕ → List α) :
    (stageNext sums y y' draw).length ≤ sums.length := by
  simp [stageNext, nextSums, length_sortedSums]

omit [IsStrictOrderedRing α] in
/-- The prices of a stage and those of the classes below it make up the prices of all seats. -/
theorem map_price_step (y : α) (sums : List α) (lj : ℕ) (pj : α) (rest : Stages α) (idx bound : ℕ) :
    (seats idx bound).map ((Stages.step y sums lj pj rest).price wraps) =
      (seats idx (min (toUnsignedIndex pj) bound)).map (tailPrice y sums) ++
        (seats (max idx (min (toUnsignedIndex pj) bound + 1)) bound).map (rest.price wraps) := by
  rw [seats_split idx (toUnsignedIndex pj) bound, List.map_append]
  congr 1
  · refine List.map_congr_left fun x hx => if_pos ?_
    rw [mem_seats] at hx
    exact hx.2.trans (min_le_left _ _)
  · exact List.map_congr_left fun x hx => if_neg (mem_seats_rest.1 hx).2

omit [IsStrictOrderedRing α] in
theorem forall_lastPartitioned_step (y : α) (sums : List α) (lj : ℕ) (pj : α) (rest : Stages α) (idx bound : ℕ) :
    (∀ x ∈ seats idx bound, (Stages.step y sums lj pj rest).LastPartitioned x) ↔
      ∀ x ∈ seats (max idx (min (toUnsignedIndex pj) bound + 1)) bound, rest.LastPartitioned x := by
  constructor
  · intro h x hx
    obtain ⟨hx, hw⟩ := mem_seats_rest.1 hx
    exact (h x hx).resolve_left hw
  · intro h x hx
    by_cases hw : wraps pj x
    · exact Or.inl hw
    · exact Or.inr (h x (mem_seats_rest.2 ⟨hx, hw⟩))

/-- The classes of the leg-based function below the current one. -/
def legClasses (lVCList : List (VirtualClass α)) : List (α × (ℕ → List α)) :=
  lVCList.map fun lVC => (lVC.yield, fun _ => lVC.generatedDemandVector)

/-- **The leg-based loop** returns the prices of the stages, unless a seat comes to a last class whose
sums are not partitioned there. -/
theorem legLoop_spec (lCap : α) {bound : ℕ} (hbound : bound + 1 < 2 ^ 32) (lVC : VirtualClass α)
    {lVCList : List (VirtualClass α)} (sums : List α) (idx : ℕ)
    (hyield : (lVC.yield :: lVCList.map (·.yield)).IsChain (· > ·))
    (hpass : (stages sums lVC.yield (legClasses lVCList)).Passes)
    (hsize : ∀ vc ∈ lVCList, sums.length ≤ vc.generatedDemandVector.length) :
    if ∀ x ∈ seats idx bound, (stages sums lVC.yield (legClasses lVCList)).LastPartitioned x then
      ∃ classes, legLoop lCap bound lVC lVCList sums idx =
        .ok (classes, (seats idx bound).map ((stages sums lVC.yield (legClasses lVCList)).price wraps))
    else legLoop lCap bound lVC lVCList sums idx = .error .unpartitionedRange := by
  induction lVCList generalizing lVC sums idx with
  | nil =>
    simp only [legLoop, legClasses, List.map_nil, stages, Stages.LastPartitioned, priceSeats_eq hbound]
    split
    · exact ⟨_, rfl⟩
    · rfl
  | cons next lVCList ih =>
    rw [List.map_cons, List.isChain_cons_cons] at hyield
    have hstages : stages sums lVC.yield (legClasses (next :: lVCList)) =
        .step lVC.yield (sortedSums sums) (stageIndex sums lVC.yield next.yield)
          (stageProtection sums lVC.yield next.yield)
          (stages (stageNext sums lVC.yield next.yield fun _ => next.generatedDemandVector) next.yield
            (legClasses lVCList)) := rfl
    rw [hstages] at hpass ⊢
    have hnextSize := length_stageNext sums lVC.yield next.yield fun _ => next.generatedDemandVector
    have hstep := classStep_eq idx hyield.1 hbound hpass.1
    specialize ih
      { next with cumulatedBookingLimit := lCap - stageProtection sums lVC.yield next.yield }
      (stageNext sums lVC.yield next.yield fun _ => next.generatedDemandVector)
      (max idx (min (toUnsignedIndex (stageProtection sums lVC.yield next.yield)) bound + 1))
      hyield.2 hpass.2 fun vc hvc => hnextSize.trans (hsize vc (List.mem_cons_of_mem _ hvc))
    simp only [legLoop, hstep, ok_bind, forall_lastPartitioned_step, map_price_step]
    rw [if_neg (not_not.2 (by rw [length_sortedSums]; exact hsize next List.mem_cons_self))]
    simp only at ih
    split
    · rename_i hpart
      rw [if_pos hpart] at ih
      obtain ⟨classes, hok⟩ := ih
      simp only [stageNext] at hok ⊢
      rw [hok]
      exact ⟨_, rfl⟩
    · rename_i hpart
      rw [if_neg hpart] at ih
      simp only [stageNext] at ih ⊢
      rw [ih]
      rfl

/-- `Passes` says what it should of the leg-based loop. -/
theorem legLoop_of_not_passes (lCap : α) {bound : ℕ} (hbound : bound + 1 < 2 ^ 32) (lVC : VirtualClass α)
    {lVCList : List (VirtualClass α)} (sums : List α) (idx : ℕ)
    (hyield : (lVC.yield :: lVCList.map (·.yield)).IsChain (· > ·))
    (hpass : ¬ (stages sums lVC.yield (legClasses lVCList)).Passes)
    (hsize : ∀ vc ∈ lVCList, sums.length ≤ vc.generatedDemandVector.length) :
    legLoop lCap bound lVC lVCList sums idx = .error .sampleIndex := by
  induction lVCList generalizing lVC sums idx with
  | nil => exact absurd trivial hpass
  | cons next lVCList ih =>
    rw [List.map_cons, List.isChain_cons_cons] at hyield
    by_cases hindex : stageIndex sums lVC.yield next.yield ≥ 1 ∧
        stageIndex sums lVC.yield next.yield < (sortedSums sums).length
    · have hnextSize := length_stageNext sums lVC.yield next.yield fun _ => next.generatedDemandVector
      specialize ih
        { next with cumulatedBookingLimit := lCap - stageProtection sums lVC.yield next.yield }
        (stageNext sums lVC.yield next.yield fun _ => next.generatedDemandVector)
        (max idx (min (toUnsignedIndex (stageProtection sums lVC.yield next.yield)) bound + 1))
        hyield.2 (fun hrest => hpass ⟨hindex, hrest⟩)
        fun vc hvc => hnextSize.trans (hsize vc (List.mem_cons_of_mem _ hvc))
      simp only [legLoop, classStep_eq idx hyield.1 hbound hindex, ok_bind]
      rw [if_neg (not_not.2 (by rw [length_sortedSums]; exact hsize next List.mem_cons_self))]
      simp only [stageNext] at ih
      rw [ih]
      rfl
    · rw [legLoop, classStep_of_not_index hyield.1 hindex]
      rfl

/-- The levels of the O&D function below the current one. -/
def odClasses (draws : YieldLevel α → ℕ → List α) (lLevels : List (YieldLevel α)) : List (α × (ℕ → List α)) :=
  lLevels.map fun lYD => (lYD.yield, draws lYD)

omit [IsStrictOrderedRing α] in
/-- As `map_price_step`: the latch of the last class is not touched by the seats of the classes above. -/
theorem map_flooredPrice_step (y : α) (sums : List α) (lj : ℕ) (pj : α) (rest : Stages α) (idx bound : ℕ) :
    (seats idx bound).map ((Stages.step y sums lj pj rest).flooredPrice idx) =
      (seats idx (min (toUnsignedIndex pj) bound)).map (tailPrice y sums) ++
        (seats (max idx (min (toUnsignedIndex pj) bound + 1)) bound).map
          (rest.flooredPrice (max idx (min (toUnsignedIndex pj) bound + 1))) := by
  rw [seats_split idx (toUnsignedIndex pj) bound, List.map_append]
  congr 1
  · apply List.map_congr_left
    intro x hx
    have hx : x ≤ toUnsignedIndex pj := (mem_seats.1 hx).2.trans (min_le_left _ _)
    have hnone : ¬ ∃ z ∈ seats idx x, ¬ (Stages.step y sums lj pj rest).Covered z ∧
        (Stages.step y sums lj pj rest).price wraps z < 1 := by
      rintro ⟨z, hz, hcov, -⟩
      exact hcov (Or.inl ((mem_seats.1 hz).2.trans hx))
    rw [Stages.flooredPrice, if_neg hnone]
    exact if_pos hx
  · apply List.map_congr_left
    intro x hx
    obtain ⟨hseat, hw⟩ := mem_seats_rest.1 hx
    have hbound := (mem_seats.1 hseat).2
    have hiff : (∃ z ∈ seats idx x, ¬ (Stages.step y sums lj pj rest).Covered z ∧
          (Stages.step y sums lj pj rest).price wraps z < 1) ↔
        ∃ z ∈ seats (max idx (min (toUnsignedIndex pj) bound + 1)) x,
          ¬ rest.Covered z ∧ rest.price wraps z < 1 := by
      apply exists_congr
      intro z
      by_cases hz : z ≤ toUnsignedIndex pj
      · have hcov : (Stages.step y sums lj pj rest).Covered z := Or.inl hz
        have hout : z ∉ seats (max idx (min (toUnsignedIndex pj) bound + 1)) x := by
          simp only [mem_seats] at hx ⊢; omega
        simp [hcov, hout]
      · have hcov : (Stages.step y sums lj pj rest).Covered z ↔ rest.Covered z := or_iff_right hz
        have hprice : (Stages.step y sums lj pj rest).price wraps z = rest.price wraps z := if_neg hz
        have hmem : z ∈ seats idx x ↔ z ∈ seats (max idx (min (toUnsignedIndex pj) bound + 1)) x := by
          simp only [mem_seats]; omega
        rw [hcov, hprice, hmem]
    have hprice : (Stages.step y sums lj pj rest).price wraps x = rest.price wraps x := if_neg hw
    simp only [Stages.flooredPrice, hiff, hprice]

/-- **The O&D loop** returns the prices of the stages, with the minimum of the last class. -/
theorem odLoop_spec (draws : YieldLevel α → ℕ → List α) {bound : ℕ} (hbound : bound + 1 < 2 ^ 32)
    (lYD : YieldLevel α) {lLevels : List (YieldLevel α)} (sums : List α) (idx : ℕ)
    (hyield : (lYD.yield :: lLevels.map (·.yield)).IsChain (· > ·))
    (hpass : (stages sums lYD.yield (odClasses draws lLevels)).Passes) :
    odLoop draws bound lYD lLevels sums idx =
      .ok ((seats idx bound).map ((stages sums lYD.yield (odClasses draws lLevels)).flooredPrice idx)) := by
  induction lLevels generalizing lYD sums idx with
  | nil =>
    have hnone : ∀ a ∈ (sortedSums sums).take 0, a < (idx : α) := by simp
    have hloop := lastPriceLoop_eq (y := lYD.yield) (sortedSums_sorted sums) (bound + 1 - idx) false hnone
    have hfloor : (stages sums lYD.yield (odClasses draws [])).flooredPrice idx = fun x =>
        if false = true ∨ ∃ z ∈ seats idx x, tailPrice lYD.yield sums z < 1 then 1
        else tailPrice lYD.yield sums x := by
      funext x
      simp [Stages.flooredPrice, odClasses, stages, Stages.Covered, Stages.price]
    simp only [tailPrice_sortedSums] at hloop
    rw [odLoop, if_neg (by omega), hfloor]
    exact hloop
  | cons next lLevels ih =>
    rw [List.map_cons, List.isChain_cons_cons] at hyield
    have hstages : stages sums lYD.yield (odClasses draws (next :: lLevels)) =
        .step lYD.yield (sortedSums sums) (stageIndex sums lYD.yield next.yield)
          (stageProtection sums lYD.yield next.yield)
          (stages (stageNext sums lYD.yield next.yield (draws next)) next.yield (odClasses draws lLevels)) := rfl
    rw [hstages] at hpass ⊢
    have hstep := classStep_eq idx hyield.1 hbound hpass.1
    specialize ih next (stageNext sums lYD.yield next.yield (draws next))
      (max idx (min (toUnsignedIndex (stageProtection sums lYD.yield next.yield)) bound + 1)) hyield.2 hpass.2
    simp only [stageNext] at ih
    simp only [odLoop, hstep, ok_bind, ih, map_flooredPrice_step]
    rfl

/-- `Passes` says what it should of the O&D loop. -/
theorem odLoop_of_not_passes (draws : YieldLevel α → ℕ → List α) {bound : ℕ} (hbound : bound + 1 < 2 ^ 32)
    (lYD : YieldLevel α) {lLevels : List (YieldLevel α)} (sums : List α) (idx : ℕ)
    (hyield : (lYD.yield :: lLevels.map (·.yield)).IsChain (· > ·))
    (hpass : ¬ (stages sums lYD.yield (odClasses draws lLevels)).Passes) :
    odLoop draws bound lYD lLevels sums idx = .error .sampleIndex := by
  induction lLevels generalizing lYD sums idx with
  | nil => exact absurd trivial hpass
  | cons next lLevels ih =>
    rw [List.map_cons, List.isChain_cons_cons] at hyield
    by_cases hindex : stageIndex sums lYD.yield next.yield ≥ 1 ∧
        stageIndex sums lYD.yield next.yield < (sortedSums sums).length
    · specialize ih next (stageNext sums lYD.yield next.yield (draws next))
        (max idx (min (toUnsignedIndex (stageProtection sums lYD.yield next.yield)) bound + 1)) hyield.2
        fun hrest => hpass ⟨hindex, hrest⟩
      simp only [stageNext] at ih
      simp only [odLoop, classStep_eq idx hyield.1 hbound hindex, ok_bind, ih]
      rfl
    · rw [odLoop, classStep_of_not_index hyield.1 hindex]
      rfl

end loops

end Rmol
