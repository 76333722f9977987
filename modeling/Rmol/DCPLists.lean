import Mathlib.Data.List.Chain
import Rmol.Bom
/-!
# The past and the remaining data collection points (`Utilities.cpp:58-100`)

| here | there |
| --- | --- |
| `firstReached`          | the `while` loop of `buildRemainingDCPList` (`:64-70`) |
| `buildRemainingDCPList` | `:58` |
| `buildPastDCPList`      | `:83` |

`lWholeDCPList` is StdAir's `DEFAULT_DCP_LIST`, a decreasing list. The search of
`buildRemainingDCPList` stops at the first DCP that is not above the day, and the list goes on after
that DCP: the day stands in for it. Where the day is a DCP itself this is right. Between two DCPs the
next one is lost, so day 4 of the DCPs 5, 3, 1 has the remaining list 4, 1.
-/

namespace Rmol

/-! ## The model -/

/-- The DCPs from the first one on that is not above the day. -/
def firstReached (iDTD : DTD) : List DTD → List DTD
  | [] => []
  | lDCP :: lDCPs => if iDTD ≥ lDCP then lDCP :: lDCPs else firstReached iDTD lDCPs

/-- `none` where the assertion fails: every DCP is above the day. -/
def buildRemainingDCPList (lWholeDCPList : List DTD) (iDTD : DTD) : Option (List DTD) :=
  match firstReached iDTD lWholeDCPList with
  | [] => none
  | _ :: lDCPs => some (iDTD :: lDCPs)

def buildPastDCPList (iDTD : DTD) : List DTD → List DTD
  | [] => []
  | lDCP :: lDCPs => if iDTD ≤ lDCP then lDCP :: buildPastDCPList iDTD lDCPs else []

/-! ## What the loops cut off -/

section cuts
variable {lWholeDCPList : List DTD} {iDTD : DTD}

/-- What goes down from day to day holds of a decreasing list if it holds of the first DCP. -/
theorem forall_mem_of_head {P : DTD → Prop} (hdown : ∀ d e, e < d → P d → P e) {lDCP : DTD} {lDCPs : List DTD}
    (h : (lDCP :: lDCPs).Pairwise (· > ·)) (hhead : P lDCP) : ∀ d ∈ lDCP :: lDCPs, P d := by
  intro d hd
  rcases List.mem_cons.1 hd with rfl | hd
  · exact hhead
  · exact hdown lDCP d ((List.pairwise_cons.1 h).1 d hd) hhead

theorem firstReached_eq_filter : ∀ {lDCPs : List DTD}, lDCPs.Pairwise (· > ·) →
    firstReached iDTD lDCPs = lDCPs.filter (· ≤ iDTD)
  | [], _ => rfl
  | lDCP :: lDCPs, h => by
    unfold firstReached
    split
    · rename_i hle
      -- all DCPs after a reached one are reached
      have hall : ∀ d ∈ lDCP :: lDCPs, d ≤ iDTD := forall_mem_of_head (fun _ _ hlt hd => hlt.le.trans hd) h hle
      exact (List.filter_eq_self.2 fun d hd => decide_eq_true (hall d hd)).symm
    · rename_i hgt
      rw [List.filter_cons_of_neg (by simpa using hgt), firstReached_eq_filter h.of_cons]

/-- The past list of a decreasing DCP list is never wrong. -/
theorem buildPastDCPList_eq_filter : ∀ {lDCPs : List DTD}, lDCPs.Pairwise (· > ·) →
    buildPastDCPList iDTD lDCPs = lDCPs.filter (iDTD ≤ ·)
  | [], _ => rfl
  | lDCP :: lDCPs, h => by
    unfold buildPastDCPList
    split
    · rename_i hle
      rw [List.filter_cons_of_pos (by simpa using hle), buildPastDCPList_eq_filter h.of_cons]
    · rename_i hlt
      -- no DCP after a passed one is still ahead
      have hnone : ∀ d ∈ lDCP :: lDCPs, ¬ iDTD ≤ d :=
        forall_mem_of_head (fun _ _ hlt hd hle => hd (hle.trans hlt.le)) h hlt
      exact (List.filter_eq_nil_iff.2 fun d hd => by simpa using hnone d hd).symm

/-- A day that is not below the last DCP gets a remaining list: the day, and the DCPs that are not
above it but the first of these. -/
theorem buildRemainingDCPList_eq (hdec : lWholeDCPList.Pairwise (· > ·)) (hne : lWholeDCPList ≠ [])
    (hlast : lWholeDCPList.getLast hne ≤ iDTD) :
    buildRemainingDCPList lWholeDCPList iDTD =
      some (iDTD :: (lWholeDCPList.filter (· ≤ iDTD)).tail) := by
  have hmem : lWholeDCPList.getLast hne ∈ lWholeDCPList.filter (· ≤ iDTD) :=
    List.mem_filter.2 ⟨List.getLast_mem hne, decide_eq_true hlast⟩
  unfold buildRemainingDCPList
  rw [firstReached_eq_filter hdec]
  cases hf : lWholeDCPList.filter (· ≤ iDTD) with
  | nil => rw [hf] at hmem; cases hmem
  | cons lDCP lDCPs => rfl

/-- The DCP that the day stands in for is the day itself iff the day is a DCP. -/
theorem tail_filter_le_eq_iff : ∀ {lDCPs : List DTD}, lDCPs.Pairwise (· > ·) →
    (∃ d ∈ lDCPs, d ≤ iDTD) →
    ((lDCPs.filter (· ≤ iDTD)).tail = lDCPs.filter (· < iDTD) ↔ iDTD ∈ lDCPs)
  | [], _, h => by simp at h
  | lDCP :: lDCPs, h, hreached => by
    obtain ⟨habove, htl⟩ := List.pairwise_cons.1 h
    rcases lt_trichotomy lDCP iDTD with hlt | rfl | hgt
    · -- between two DCPs: the lost one is missing
      have hbelow : ∀ d ∈ lDCP :: lDCPs, d < iDTD := forall_mem_of_head (fun _ _ => lt_trans) h hlt
      have hle : (lDCP :: lDCPs).filter (· ≤ iDTD) = lDCP :: lDCPs :=
        List.filter_eq_self.2 fun d hd => decide_eq_true (hbelow d hd).le
      have hltall : (lDCP :: lDCPs).filter (· < iDTD) = lDCP :: lDCPs :=
        List.filter_eq_self.2 fun d hd => decide_eq_true (hbelow d hd)
      rw [hle, hltall, List.tail_cons]
      refine iff_of_false (fun hself => ?_) (fun hmem => lt_irrefl _ (hbelow _ hmem))
      have := congrArg List.length hself
      simp at this
    · -- on a DCP
      have hle : lDCPs.filter (· ≤ lDCP) = lDCPs.filter (· < lDCP) :=
        List.filter_congr fun d hd => by simp [(habove d hd).le, habove d hd]
      simp [hle]
    · -- above the DCPs that are reached
      have hreached' : ∃ d ∈ lDCPs, d ≤ iDTD := by
        obtain ⟨d, hd, hle⟩ := hreached
        rcases List.mem_cons.1 hd with rfl | hd
        · exact absurd hle (not_le.2 hgt)
        · exact ⟨d, hd, hle⟩
      rw [List.filter_cons_of_neg (by simpa using hgt), List.filter_cons_of_neg (by simpa using hgt.le),
        tail_filter_le_eq_iff htl hreached', List.mem_cons]
      exact ⟨.inr, fun hmem => hmem.resolve_left hgt.ne⟩

end cuts

/-! ## Both lists -/

/-- The two lists of a day lose no DCP: the past list holds the DCPs from the day on, the remaining
list the day and the DCPs below it, both decreasing. -/
structure LosesNoDCP (lWholeDCPList : List DTD) (iDTD : DTD) : Prop where
  past : buildPastDCPList iDTD lWholeDCPList = lWholeDCPList.filter (iDTD ≤ ·)
  remaining : buildRemainingDCPList lWholeDCPList iDTD = some (iDTD :: lWholeDCPList.filter (· < iDTD))
  past_decreasing : (buildPastDCPList iDTD lWholeDCPList).Pairwise (· > ·)
  remaining_decreasing :
    ∀ oDCPList ∈ buildRemainingDCPList lWholeDCPList iDTD, oDCPList.Pairwise (· > ·)

/-- **No DCP is lost** iff the day is one. -/
theorem losesNoDCP_iff_mem {lWholeDCPList : List DTD} {iDTD : DTD} (hdec : lWholeDCPList.Pairwise (· > ·))
    (hne : lWholeDCPList ≠ []) (hlast : lWholeDCPList.getLast hne ≤ iDTD) :
    LosesNoDCP lWholeDCPList iDTD ↔ iDTD ∈ lWholeDCPList := by
  have hpast : buildPastDCPList iDTD lWholeDCPList = lWholeDCPList.filter (iDTD ≤ ·) :=
    buildPastDCPList_eq_filter hdec
  have hremaining := buildRemainingDCPList_eq hdec hne hlast
  have hcut : (lWholeDCPList.filter (· ≤ iDTD)).tail = lWholeDCPList.filter (· < iDTD) ↔
      iDTD ∈ lWholeDCPList := tail_filter_le_eq_iff hdec ⟨_, List.getLast_mem hne, hlast⟩
  constructor
  · intro h
    have := hremaining.symm.trans h.remaining
    simp only [Option.some.injEq, List.cons.injEq, true_and] at this
    exact hcut.1 this
  · intro hmem
    rw [hcut.2 hmem] at hremaining
    refine ⟨hpast, hremaining, hpast ▸ hdec.filter _, fun oDCPList hlist => ?_⟩
    obtain rfl : iDTD :: lWholeDCPList.filter (· < iDTD) = oDCPList :=
      Option.some.inj (hremaining.symm.trans hlist)
    refine List.pairwise_cons.2 ⟨fun d hd => ?_, hdec.filter _⟩
    simpa using (List.mem_filter.1 hd).2

theorem losesNoDCP_iff_mem_on_point : LosesNoDCP [5, 3, 1] 3 ↔ (3 : DTD) ∈ [5, 3, 1] :=
  losesNoDCP_iff_mem (by decide) (by decide) (by decide)

theorem remaining_between_points :
    ([5, 3, 1] : List DTD).Pairwise (· > ·) ∧ ([5, 3, 1] : List DTD).getLast (by decide) ≤ 4 ∧
      buildRemainingDCPList [5, 3, 1] 4 = some [4, 1] ∧ ¬ LosesNoDCP [5, 3, 1] 4 :=
  ⟨by decide, by decide, by decide, fun h => absurd h.remaining (by decide)⟩

end Rmol
