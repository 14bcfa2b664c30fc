import Mathlib.Data.Finset.Card
import Mathlib.Order.Fin.Basic
import PgReplica.ConsensusModel.Cluster
import PgReplica.Failover

/-! # The rule that runs and the rule that was checked

The supervisor takes the most advanced of all live candidates, in recovery or
not. The model lets a failover choose the most advanced member of any exact
majority.
-/

namespace PgReplica.ConsensusModel

open PgReplica.Foundation

/-- `1u32 << n`, which overflows from 32 on. -/
def shiftU32 (n : Nat) : Option Nat :=
  if n < 32 then some (2 ^ n) else none

/-- The elements of a `BTreeSet` into which the list is inserted. -/
def btreeSet {α : Type} [LinearOrder α] (inserted : List α) : List α :=
  inserted.toFinset.sort (· ≤ ·)

namespace Cluster

/-- `possible_new_primaries` with its masks in 32 bits; `none` where it panics. -/
def possibleNewPrimariesU32 (c : Cluster) (s : State c.n) : Option (List (Fin c.n)) :=
  let alive := ((List.finRange c.n).filter fun i => s.alive i).length
  if alive < c.majority then some []
  else do
    let bound ← shiftU32 c.n
    return btreeSet ((List.range' 1 (bound - 1)).filterMap (c.electedBy s))

variable {c : Cluster} {s : State c.n}

theorem possibleNewPrimariesU32_eq (hfits : c.n < 32) :
    c.possibleNewPrimariesU32 s = some (c.possibleNewPrimaries s) := by
  rw [possibleNewPrimariesU32, possibleNewPrimaries, shiftU32, if_pos hfits]
  split
  next => rfl
  next => rfl

/-- From 32 nodes on the enumeration panics, unless it is not started. -/
theorem possibleNewPrimariesU32_eq_none (hlarge : 32 ≤ c.n)
    (halive : c.majority ≤ ((List.finRange c.n).filter fun i => s.alive i).length) :
    c.possibleNewPrimariesU32 s = none := by
  rw [possibleNewPrimariesU32, if_neg (not_lt.mpr halive), shiftU32, if_neg (not_lt.mpr hlarge)]
  rfl

/-- The greatest member of a large enough set is the greatest of some exact majority. -/
theorem elected_of_greatest {S : Finset (Fin c.n)} {w : Fin c.n} (halive : ∀ i ∈ S, s.alive i)
    (hmajority : c.majority ≤ S.card) (hw : w ∈ S) (hgreatest : ∀ i ∈ S, (rank s.lsn i w).isLE) :
    c.Elected s w := by
  have hone : ({w} : Finset (Fin c.n)).card ≤ c.majority := by
    rw [Finset.card_singleton]
    exact c.majority_pos
  obtain ⟨T, hwT, hTS, hcard⟩ := Finset.exists_subsuperset_card_eq
    (Finset.singleton_subset_iff.mpr hw) hone hmajority
  exact ⟨T, hcard, fun i hi => halive i (hTS hi), hwT (Finset.mem_singleton_self w),
    fun i hi => hgreatest i (hTS hi)⟩

/-- A node of the model as the supervisor measures it. -/
def candidate (s : State c.n) (ids : Fin c.n → Nat) (inRecovery : Fin c.n → Bool) (i : Fin c.n) :
    Candidate :=
  ⟨ids i, s.lsn i, inRecovery i⟩

variable {ids : Fin c.n → Nat} {inRecovery : Fin c.n → Bool}

/-- Between candidates that are all in recovery or all out of it, both rules agree. -/
theorem isLE_compareCandidates_candidate_iff (hids : StrictMono ids) {i j : Fin c.n}
    (hflags : inRecovery i = inRecovery j) :
    (compareCandidates (candidate s ids inRecovery i) (candidate s ids inRecovery j)).isLE ↔
      (rank s.lsn i j).isLE := by
  rw [isLE_compareCandidates_iff, isLE_rank_iff]
  simp [candidate, hflags, hids.le_iff_le]

/-- The supervisor's choice among the live nodes is as advanced as one that the model
allows, and it is one that the model allows when recovery makes no difference. -/
theorem choosePrimary_possible (inRecovery : Fin c.n → Bool) (hfits : c.n < 32)
    (hids : StrictMono ids) {live : List (Fin c.n)} (hnodup : live.Nodup)
    (halive : ∀ i ∈ live, s.alive i) (hmajority : c.majority ≤ live.length) :
    ∃ winners w, c.possibleNewPrimariesU32 s = some winners ∧ w ∈ live ∧
      choosePrimary (live.map (candidate s ids inRecovery)) = some (ids w) ∧
      (∃ v ∈ winners, v ∈ live ∧ s.lsn w = s.lsn v) ∧
      ((∀ i ∈ live, ∀ j ∈ live, inRecovery i = inRecovery j) → w ∈ winners) := by
  have hne : live ≠ [] := by
    rintro rfl
    exact absurd hmajority (not_le_of_gt c.majority_pos)
  have hcard : c.majority ≤ live.toFinset.card := by
    rwa [List.toFinset_card_of_nodup hnodup]
  have helected : ∀ w ∈ live, (∀ i ∈ live, (rank s.lsn i w).isLE) →
      w ∈ c.possibleNewPrimaries s := by
    intro w hw hgreatest
    refine mem_possibleNewPrimaries.mpr (elected_of_greatest (S := live.toFinset) ?_ hcard ?_ ?_)
    · simpa using halive
    · simpa using hw
    · simpa using hgreatest
  have hmeasured : live.map (candidate s ids inRecovery) ≠ [] := by
    simpa using hne
  obtain ⟨v, hv⟩ := @isSome_maxBy_of_ne_nil _ (rank s.lsn) _ hne
  obtain ⟨best, hbest⟩ := @isSome_maxBy_of_ne_nil _ compareCandidates _ hmeasured
  obtain ⟨w, hw, rfl⟩ := List.mem_map.mp (mem_of_maxBy_eq_some hbest)
  have hchosen : ∀ i ∈ live, (compareCandidates (candidate s ids inRecovery i)
      (candidate s ids inRecovery w)).isLE :=
    fun i hi => isLE_of_maxBy_eq_some hbest (List.mem_map_of_mem hi)
  have hvlive := mem_of_maxBy_eq_some hv
  refine ⟨_, w, possibleNewPrimariesU32_eq hfits, hw, ?_, ⟨v, ?_, hvlive, ?_⟩, fun hflags => ?_⟩
  · rw [choosePrimary, hbest]
    rfl
  · exact helected v hvlive fun i hi => isLE_of_maxBy_eq_some hv hi
  · -- each of the two is at least as far as the other
    have hvw := isLE_compareCandidates_iff.mp (hchosen v hvlive)
    have hwv := isLE_rank_iff.mp (isLE_of_maxBy_eq_some hv hw)
    simp only [candidate] at hvw
    omega
  · refine helected w hw fun i hi => ?_
    exact (isLE_compareCandidates_candidate_iff hids (hflags i hi w hw)).mp (hchosen i hi)

/-- Three nodes in recovery, the last of them two records ahead. -/
theorem choosePrimary_possible_three_nodes :
    let c : Cluster := ⟨3, by decide, 2, 3, 3⟩
    let s : State c.n := { c.initState with lsn := fun i => if i.val = 2 then 2 else 0 }
    ∃ winners w, c.possibleNewPrimariesU32 s = some winners ∧
      choosePrimary ((List.finRange c.n).map
        (candidate s (fun i => i.val + 1) fun _ => true)) = some (w.val + 1) ∧
      w ∈ winners := by
  intro c s
  have hids : StrictMono fun i : Fin c.n => i.val + 1 := fun i j hlt => Nat.succ_lt_succ hlt
  obtain ⟨winners, w, hwinners, -, hchosen, -, hsame⟩ :=
    choosePrimary_possible (c := c) (s := s) (fun _ => true) (by decide) hids
      (List.nodup_finRange 3) (fun _ _ => rfl) (by decide)
  exact ⟨winners, w, hwinners, hchosen, hsame fun _ _ _ _ => rfl⟩

/-- With 32 nodes, all alive, the enumeration has no result. -/
theorem not_possible_of_32_nodes :
    let c : Cluster := ⟨32, by decide, 17, 1, 1⟩
    let live := List.finRange c.n
    (∀ i ∈ live, c.initState.alive i) ∧ c.majority ≤ live.length ∧
      ¬ ∃ winners, c.possibleNewPrimariesU32 c.initState = some winners ∧
        ∃ v ∈ winners, v ∈ live := by
  intro c live
  have hmajority : c.majority ≤ live.length := by
    rw [List.length_finRange]
    decide
  have hnone : c.possibleNewPrimariesU32 c.initState = none :=
    possibleNewPrimariesU32_eq_none le_rfl (by simpa [initState, live] using hmajority)
  refine ⟨fun _ _ => rfl, hmajority, ?_⟩
  rintro ⟨winners, hwinners, -⟩
  cases hnone.symm.trans hwinners

end Cluster

end PgReplica.ConsensusModel
