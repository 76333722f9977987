import Mathlib.Algebra.BigOperators.Group.List.Basic
import Mathlib.Data.List.Basic
import Mathlib.Data.List.Sort
import Mathlib.Order.Compare
/-!
# Grouping a list in one pass over an ordered map

Each element goes to the entry of its key, or nowhere. The first one of a key opens the entry, each later one
extends it.

| here | meaning |
| --- | --- |
| `groupStep`  | one element into the map |
| `collect`    | the entry that a list of members leaves |
| `members`    | the elements of a key, in list order |

`groups_getElem?` says what the entries are after the pass; `descending_keys` and `forall₂_descending` what they
are listed as from the highest key down; `flatMap_members_perm` that nothing is lost.
-/

namespace Grouping

variable {β γ κ : Type*} [LinearOrder κ]

section step
variable (key : β → Option κ) (start : β → γ) (extend : γ → β → γ)

def groupStep (m : Std.TreeMap κ γ) (b : β) : Std.TreeMap κ γ :=
  match key b with
  | none => m
  | some k =>
    match m[k]? with
    | none => m.insert k (start b)
    | some g => m.insert k (extend g b)

def collect : List β → Option γ
  | [] => none
  | b :: bs => some (bs.foldl extend (start b))

def members (l : List β) (k : κ) : List β := l.filter fun b => key b = some k

variable {key start extend}

theorem groupStep_getElem? (m : Std.TreeMap κ γ) (b : β) (k : κ) :
    (groupStep key start extend m b)[k]? =
      if key b = some k then some ((m[k]?).elim (start b) fun g => extend g b) else m[k]? := by
  unfold groupStep
  cases hkey : key b with
  | none => simp
  | some j =>
    by_cases hjk : j = k
    · subst hjk
      cases hm : m[j]? <;> simp [hm]
    · cases hm : m[j]? <;> simp [hm, Std.TreeMap.getElem?_insert, hjk]

/-- What the pass does to one entry depends on the members of its key alone. -/
theorem foldl_groupStep_getElem? (l : List β) (m : Std.TreeMap κ γ) (k : κ) :
    (l.foldl (groupStep key start extend) m)[k]? =
      (m[k]?).elim (collect start extend (members key l k)) fun g => some ((members key l k).foldl extend g) := by
  induction l generalizing m with
  | nil => cases h : m[k]? <;> simp [members, collect, h]
  | cons b l ih =>
    rw [List.foldl_cons, ih, groupStep_getElem?]
    by_cases hb : key b = some k
    · have hmembers : members key (b :: l) k = b :: members key l k := List.filter_cons_of_pos (by simpa using hb)
      rw [if_pos hb, hmembers]
      cases h : m[k]? <;> simp [collect]
    · have hmembers : members key (b :: l) k = members key l k := List.filter_cons_of_neg (by simpa using hb)
      rw [if_neg hb, hmembers]

/-- **The entries after the pass** from an empty map. -/
theorem groups_getElem? (l : List β) (k : κ) :
    (l.foldl (groupStep key start extend) (∅ : Std.TreeMap κ γ))[k]? = collect start extend (members key l k) := by
  rw [foldl_groupStep_getElem?, Std.TreeMap.getElem?_emptyc]
  rfl

theorem mem_members {l : List β} {k : κ} {b : β} : b ∈ members key l k ↔ b ∈ l ∧ key b = some k := by
  simp [members]

/-- An entry starts with the first element of its key. -/
theorem collect_members_eq_some {l : List β} {k : κ} {g : γ} (h : collect start extend (members key l k) = some g) :
    ∃ b bs, members key l k = b :: bs ∧ b ∈ l ∧ key b = some k ∧ g = bs.foldl extend (start b) := by
  cases hl : members key l k with
  | nil =>
    rw [hl] at h
    cases h
  | cons b bs =>
    rw [hl] at h
    obtain ⟨hb, hkey⟩ := mem_members.1 (hl ▸ List.mem_cons_self : b ∈ members key l k)
    exact ⟨b, bs, rfl, hb, hkey, (Option.some.inj h).symm⟩

theorem exists_collect_members_iff {l : List β} {k : κ} :
    (∃ g, collect start extend (members key l k) = some g) ↔ ∃ b ∈ l, key b = some k := by
  constructor
  · rintro ⟨g, hg⟩
    obtain ⟨b, -, -, hb, hkey, -⟩ := collect_members_eq_some hg
    exact ⟨b, hb, hkey⟩
  · rintro ⟨b, hb⟩
    obtain ⟨b', bs, hl⟩ := List.exists_cons_of_ne_nil (List.ne_nil_of_mem (mem_members.2 hb))
    exact ⟨_, congrArg (collect start extend) hl⟩

/-- **The members** of all keys are the elements that have a key. -/
theorem flatMap_members_perm {ks : List κ} (hks : ks.Nodup) {l : List β}
    (hall : ∀ b ∈ l, ∀ k, key b = some k → k ∈ ks) :
    (ks.flatMap (members key l)).Perm (l.filter fun b => (key b).isSome) := by
  classical
  rw [List.perm_iff_count]
  intro b
  have hcount : ∀ k, (members key l k).count b = if key b = some k then l.count b else 0 := by
    intro k
    by_cases hk : key b = some k
    · rw [if_pos hk]
      exact List.count_filter (by simpa using hk)
    · rw [if_neg hk, List.count_eq_zero]
      exact fun hb => hk (mem_members.1 hb).2
  have hflat : (ks.flatMap (members key l)).count b = (ks.map fun k => if key b = some k then l.count b else 0).sum := by
    rw [List.count_flatMap]
    exact congrArg List.sum (List.map_congr_left fun k _ => hcount k)
  rw [hflat]
  cases hb : key b with
  | none =>
    have hnone : b ∉ l.filter fun b => (key b).isSome := by simp [hb]
    rw [List.count_eq_zero.2 hnone]
    simp
  | some k =>
    have hsome : (l.filter fun b => (key b).isSome).count b = l.count b := List.count_filter (by simp [hb])
    have hother : ∀ k' ≠ k, k' ∈ ks → (if some k = some k' then l.count b else 0) = 0 := by
      intro k' hk' _
      rw [if_neg fun h => hk' (Option.some.inj h).symm]
    rw [hsome, List.sum_map_eq_nsmul_single k _ hother, if_pos rfl, Nat.nsmul_eq_mul]
    by_cases hbl : b ∈ l
    · rw [List.count_eq_one_of_mem hks (hall b hbl k hb), Nat.one_mul]
    · rw [List.count_eq_zero.2 hbl, Nat.mul_zero]

theorem sum_members {M : Type*} [AddCommMonoid M] (f : β → M) {ks : List κ} (hks : ks.Nodup) {l : List β}
    (hall : ∀ b ∈ l, ∀ k, key b = some k → k ∈ ks) :
    (ks.map fun k => ((members key l k).map f).sum).sum = ((l.filter fun b => (key b).isSome).map f).sum := by
  rw [← ((flatMap_members_perm hks hall).map f).sum_eq, List.map_flatMap, List.flatMap_def, List.sum_flatten,
    List.map_map]
  rfl

end step

/-! ## Keys in order -/

theorem descending_keys (m : Std.TreeMap κ γ) : m.keys.reverse.Pairwise (· > ·) := by
  rw [List.pairwise_reverse]
  exact m.ordered_keys.imp fun h => compare_lt_iff_lt.1 h

theorem mem_keys_iff {m : Std.TreeMap κ γ} {k : κ} : k ∈ m.keys ↔ ∃ g, m[k]? = some g := by
  rw [Std.TreeMap.mem_keys, ← Std.TreeMap.isSome_getElem?_iff_mem, Option.isSome_iff_exists]

/-- The entries from the highest key down stand beside their keys. -/
theorem forall₂_descending (m : Std.TreeMap κ γ) :
    List.Forall₂ (fun k g => m[k]? = some g) m.keys.reverse (m.toList.map Prod.snd).reverse := by
  rw [← Std.TreeMap.map_fst_toList_eq_keys, ← List.map_reverse, ← List.map_reverse, List.forall₂_map_left_iff,
    List.forall₂_map_right_iff, List.forall₂_same]
  rintro ⟨k, g⟩ hmem
  exact Std.TreeMap.mem_toList_iff_getElem?_eq_some.1 (List.mem_reverse.1 hmem)

end Grouping
