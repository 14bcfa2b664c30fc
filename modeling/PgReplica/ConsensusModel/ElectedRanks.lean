import Mathlib.Data.Fin.VecNotation
import PgReplica.ConsensusModel.FailoverRule
import PgReplica.Foundation.Counting
import PgReplica.Foundation.Ranking

/-! # The enumeration as a condition on ranks

The loop over majorities finds the alive nodes that have enough other alive nodes
below them, whatever the positions are.
-/

namespace PgReplica.ConsensusModel

open PgReplica.Foundation

namespace Cluster

variable (c : Cluster) (s : State c.n)

/-- The number of alive nodes. -/
def aliveCount : Nat :=
  ((List.finRange c.n).filter fun i => s.alive i).length

/-- The number of other alive nodes with a smaller position, or with the same
position and a larger index. -/
def aliveBelow (w : Fin c.n) : Nat :=
  ((List.finRange c.n).filter fun i =>
    s.alive i && (decide (s.lsn i < s.lsn w) || s.lsn i == s.lsn w && decide (w < i))).length

/-- The set of alive nodes. -/
def aliveSet : Finset (Fin c.n) :=
  Finset.univ.filter fun i => s.alive i = true

variable {c s}

@[simp] theorem mem_aliveSet {i : Fin c.n} : i ∈ c.aliveSet s ↔ s.alive i = true := by
  simp [aliveSet]

theorem aliveCount_eq_card : c.aliveCount s = (c.aliveSet s).card :=
  length_filter_finRange _

theorem rank_eq_lt_iff {n : Nat} {lsn : Fin n → Nat} {i w : Fin n} :
    rank lsn i w = .lt ↔ lsn i < lsn w ∨ lsn i = lsn w ∧ w < i := by
  rw [rank, Ordering.then_eq_lt, Nat.compare_eq_lt, Nat.compare_eq_eq, compare_lt_iff_lt]

theorem aliveBelow_eq_card {w : Fin c.n} :
    c.aliveBelow s w = (lowerMembers (rank s.lsn) (c.aliveSet s) w).card := by
  rw [aliveBelow, length_filter_finRange]
  congr 1
  ext i
  simp [rank_eq_lt_iff]

/-- A node is elected by some majority when it has enough alive nodes below it. -/
theorem elected_iff_aliveBelow {w : Fin c.n} :
    c.Elected s w ↔ s.alive w = true ∧ c.majority - 1 ≤ c.aliveBelow s w := by
  have hcard : c.majority - 1 + 1 = c.majority := Nat.sub_add_cancel c.majority_pos
  rw [aliveBelow_eq_card, ← mem_aliveSet, ← exists_subset_greatest_iff, hcard, Elected]
  refine exists_congr fun S => ?_
  have hsub : S ⊆ c.aliveSet s ↔ ∀ i ∈ S, s.alive i = true := by
    simp [Finset.subset_iff]
  rw [hsub]
  tauto

theorem pairwise_possibleNewPrimaries : (c.possibleNewPrimaries s).Pairwise (· < ·) := by
  simp only [possibleNewPrimaries]
  split
  next => exact List.Pairwise.nil
  next => exact (Finset.sortedLT_sort _).pairwise

theorem length_possibleNewPrimaries :
    (c.possibleNewPrimaries s).length = c.aliveCount s + 1 - c.majority := by
  have hwinners : (c.possibleNewPrimaries s).toFinset = (c.aliveSet s).filter fun w =>
      c.majority - 1 ≤ (lowerMembers (rank s.lsn) (c.aliveSet s) w).card := by
    ext w
    rw [List.mem_toFinset, mem_possibleNewPrimaries, elected_iff_aliveBelow, Finset.mem_filter,
      mem_aliveSet, aliveBelow_eq_card]
  have hnodup : (c.possibleNewPrimaries s).Nodup := pairwise_possibleNewPrimaries.imp ne_of_lt
  have hmajority := c.majority_pos
  rw [← List.toFinset_card_of_nodup hnodup, hwinners, card_filter_le_card_lowerMembers,
    ← aliveCount_eq_card]
  omega

/-- With a majority alive, the most advanced alive node is among the elected ones. -/
theorem exists_greatest_elected (halive : c.majority ≤ c.aliveCount s) :
    ∃ w, c.Elected s w ∧ ∀ i, s.alive i = true →
      s.lsn i < s.lsn w ∨ s.lsn i = s.lsn w ∧ w ≤ i := by
  have hne : ((List.finRange c.n).filter fun i => s.alive i) ≠ [] := by
    have hpos := c.majority_pos
    refine List.ne_nil_of_length_pos ?_
    rw [← aliveCount]
    omega
  obtain ⟨w, hw⟩ := @isSome_maxBy_of_ne_nil _ (rank s.lsn) _ hne
  have hgreatest : ∀ i ∈ c.aliveSet s, (rank s.lsn i w).isLE := by
    intro i hi
    exact isLE_of_maxBy_eq_some hw (by simpa using hi)
  have hmem : w ∈ c.aliveSet s := by
    simpa using mem_of_maxBy_eq_some hw
  refine ⟨w, elected_iff_aliveBelow.mpr ⟨mem_aliveSet.mp hmem, ?_⟩, fun i hi => ?_⟩
  · rw [aliveBelow_eq_card, card_lowerMembers_of_greatest hmem hgreatest, ← aliveCount_eq_card]
    omega
  · exact isLE_rank_iff.mp (hgreatest i (mem_aliveSet.mpr hi))

/-- The enumeration returns, in increasing order, the alive nodes that have at least
all but one of a majority below them. -/
theorem possibleNewPrimaries_by_rank (s : State c.n) (hfits : c.n < 32) :
    ∃ winners, c.possibleNewPrimariesU32 s = some winners ∧ winners.Pairwise (· < ·) ∧
      (∀ w, w ∈ winners ↔ s.alive w = true ∧ c.majority - 1 ≤ c.aliveBelow s w) ∧
      (winners.length : Int) = max 0 ((c.aliveCount s : Int) - c.majority + 1) ∧
      (c.majority ≤ c.aliveCount s → ∃ w ∈ winners, s.alive w = true ∧
        ∀ i, s.alive i = true → s.lsn i < s.lsn w ∨ s.lsn i = s.lsn w ∧ w ≤ i) := by
  refine ⟨_, possibleNewPrimariesU32_eq hfits, pairwise_possibleNewPrimaries, fun w => ?_, ?_,
    fun halive => ?_⟩
  · rw [mem_possibleNewPrimaries, elected_iff_aliveBelow]
  · rw [length_possibleNewPrimaries]
    omega
  · obtain ⟨w, helected, hgreatest⟩ := exists_greatest_elected halive
    exact ⟨w, mem_possibleNewPrimaries.mpr helected, (elected_iff_aliveBelow.mp helected).1,
      hgreatest⟩

/-- Five nodes, one of them crashed: of the four alive ones the two with two others
below them. -/
theorem possibleNewPrimaries_five_nodes :
    let c : Cluster := ⟨5, by decide, 3, 9, 9⟩
    let s : State c.n :=
      { c.initState with lsn := ![4, 7, 4, 9, 2], alive := ![true, true, true, false, true] }
    ∃ winners, c.possibleNewPrimariesU32 s = some winners ∧ winners.length = 2 ∧
      ∀ w, w ∈ winners ↔ w = 0 ∨ w = 1 := by
  intro c s
  obtain ⟨winners, hwinners, -, hmem, hlength, -⟩ :=
    possibleNewPrimaries_by_rank (c := c) s (by decide)
  refine ⟨winners, hwinners, ?_, fun w => ?_⟩
  · have hcount : max 0 ((c.aliveCount s : Int) - c.majority + 1) = 2 := by
      decide
    omega
  · rw [hmem w]
    revert w
    decide

end Cluster

end PgReplica.ConsensusModel
