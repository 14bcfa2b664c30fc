import PgReplica.ConsensusModel.LogRefinement

/-! # When positions stand for log contents

Two failovers separate positions from contents. The first leaves a node behind
with a write of the old primary; the node then confirms an acknowledgement of
the new primary by the length of its log alone; the second failover elects it.
Five nodes are enough for this, and four are not.
-/

namespace PgReplica.ConsensusModel.Cluster

open PgReplica.Foundation

variable {c : Cluster}

/-- The first primary's write on the `copies` lowest nodes. -/
def firstHistory (c : Cluster) (copies : Nat) : LogState c.n where
  base := { c.initState with lsn := fun i => if i.val < copies then 1 else 0 }
  log := fun i => if i.val < copies then [0] else []
  acked := ∅
  fresh := 1

/-- The first primary is dead, node 1 keeps its write, and the nodes from 2 up to
`copies` hold the second primary's write at the same position. -/
def diverged (c : Cluster) (hn : 5 ≤ c.n) (copies : Nat) : LogState c.n where
  base :=
    { lsn := fun i => if i.val < copies then 1 else 0
      alive := Function.update (fun _ => true) ⟨0, c.n_pos⟩ false
      primary := some ⟨2, by omega⟩
      acked := 0
      term := 1 }
  log := fun i => if i.val < 2 then [0] else if i.val < copies then [1] else []
  acked := ∅
  fresh := 2

theorem update_mk_apply {n : Nat} {β : Type} {k : Nat} (hk : k < n) (f : Fin n → β) (y : β)
    (i : Fin n) : Function.update f ⟨k, hk⟩ y i = if i.val = k then y else f i := by
  by_cases heq : i = ⟨k, hk⟩
  · simp [heq]
  · rw [Function.update_of_ne heq, if_neg fun h => heq (Fin.ext h)]

theorem logReachable_firstHistory (hlsn : 1 ≤ c.maxLsn) (hn : 5 ≤ c.n) :
    c.LogReachable (c.firstHistory 2) := by
  have hwrite : c.LogStep c.initLogState .write (c.firstHistory 1) := by
    refine ⟨(c.firstHistory 1).base, step_write_iff.mpr ⟨⟨0, c.n_pos⟩, rfl, rfl, hlsn, ?_⟩, ?_⟩
    · simp only [firstHistory, initLogState, initState, State.mk.injEq, and_true]
      funext i
      rw [update_mk_apply]
      grind
    · simp only [firstHistory, initLogState, initState, LogState.apply, LogState.mk.injEq,
        and_true, true_and]
      funext i
      rw [update_mk_apply]
      grind
  have hreplicate : c.LogStep (c.firstHistory 1) (.replicate ⟨1, by omega⟩)
      (c.firstHistory 2) := by
    refine ⟨(c.firstHistory 2).base, step_replicate_iff.mpr
      ⟨⟨0, c.n_pos⟩, rfl, rfl, ?_, rfl, ?_, ?_⟩, ?_⟩
    · simp
    · simp [firstHistory]
    · simp only [firstHistory, State.mk.injEq, and_true]
      funext i
      simp only [update_mk_apply]
      grind
    · simp only [firstHistory, initState, LogState.apply, LogState.mk.injEq, and_true, true_and]
      funext i
      rw [update_mk_apply]
      grind
  exact (c.logReachable_initLogState.tail hwrite).tail hreplicate

/-- The first failover elects node 2 with an empty log, and node 2 writes. -/
theorem logReachable_diverged (hlsn : 1 ≤ c.maxLsn) (hterm : 1 ≤ c.maxTerm) (hn : 5 ≤ c.n) :
    c.LogReachable (c.diverged hn 3) := by
  let first : Fin c.n := ⟨0, c.n_pos⟩
  let second : Fin c.n := ⟨2, by omega⟩
  let crashed : State c.n :=
    { (c.firstHistory 2).base with alive := Function.update (fun _ => true) first false }
  let failedOver : State c.n := { crashed with primary := some second, term := 1 }
  have hcrash : c.LogStep (c.firstHistory 2) (.crash first) { c.firstHistory 2 with
      base := crashed } := ⟨crashed, step_crash_iff.mpr ⟨rfl, rfl⟩, rfl⟩
  have hfailover : c.LogStep { c.firstHistory 2 with base := crashed } (.failover second)
      { c.firstHistory 2 with base := failedOver } := by
    refine ⟨failedOver, step_failover_iff.mpr ⟨?_, hterm, ⟨window c.n 2 c.majority,
      card_window (by simp only [majority]; omega), ?_, ?_, ?_⟩, rfl⟩, rfl⟩
    · simp [needFailover, crashed, firstHistory, initState, first]
    · intro i hi
      have hne : i ≠ first := by
        rintro rfl
        simp [first] at hi
      simp [crashed, Function.update_of_ne hne]
    · simp [second, c.majority_pos]
    · intro i hi
      rw [mem_window] at hi
      rw [isLE_rank_iff]
      refine Or.inr ⟨?_, Fin.le_def.mpr hi.1⟩
      change (if i.val < 2 then 1 else 0) = if 2 < 2 then 1 else 0
      rw [if_neg hi.1.not_gt, if_neg (lt_irrefl 2)]
  have hwrite : c.LogStep { c.firstHistory 2 with base := failedOver } .write
      (c.diverged hn 3) := by
    refine ⟨(c.diverged hn 3).base, step_write_iff.mpr ⟨second, rfl, ?_, ?_, ?_⟩, ?_⟩
    · simp [failedOver, crashed, second, first]
    · simp only [failedOver, crashed, firstHistory, second]
      exact hlsn
    · simp only [diverged, failedOver, crashed, firstHistory, second, first, initState,
        State.mk.injEq, and_true]
      funext i
      simp only [update_mk_apply]
      grind
    · simp only [diverged, failedOver, firstHistory, second, LogState.apply, LogState.mk.injEq,
        and_true, true_and]
      funext i
      rw [update_mk_apply]
      grind
  exact (((logReachable_firstHistory hlsn hn).tail hcrash).tail hfailover).tail hwrite

/-- The second primary's write reaches further nodes, one at a time. -/
theorem logReachable_diverged_of_le (hlsn : 1 ≤ c.maxLsn) (hterm : 1 ≤ c.maxTerm)
    (hn : 5 ≤ c.n) {copies : Nat} (hlow : 3 ≤ copies) (hle : copies ≤ c.n) :
    c.LogReachable (c.diverged hn copies) := by
  induction copies, hlow using Nat.le_induction with
  | base => exact logReachable_diverged hlsn hterm hn
  | succ copies hlow ih =>
      have hreplicate : c.LogStep (c.diverged hn copies) (.replicate ⟨copies, hle⟩)
          (c.diverged hn (copies + 1)) := by
        refine ⟨(c.diverged hn (copies + 1)).base, step_replicate_iff.mpr
          ⟨⟨2, by omega⟩, rfl, ?_, ?_, ?_, ?_, ?_⟩, ?_⟩
        · simp [diverged]
        · simp only [ne_eq, Fin.mk.injEq]
          omega
        · simp only [diverged, update_mk_apply]
          grind
        · simp only [diverged]
          grind
        · simp only [diverged, State.mk.injEq, and_true]
          funext i
          simp only [update_mk_apply]
          grind
        · simp only [diverged, LogState.apply, LogState.mk.injEq, and_true, true_and]
          funext i
          rw [update_mk_apply]
          grind
      exact (ih (by omega)).tail hreplicate

/-- Node 1 counts for the acknowledgement with a log of the same length, and wins
the next election against the logs that hold the acknowledged write. -/
theorem exists_acked_not_on_primary (hquorum : c.ackQuorum = c.majority) (hlsn : 1 ≤ c.maxLsn)
    (hterm : 2 ≤ c.maxTerm) (hn : 5 ≤ c.n) :
    ∃ s, c.LogReachable s ∧ ¬ s.AckedOnPrimary := by
  have hmajority : 3 ≤ c.majority ∧ c.majority + 2 ≤ c.n := by
    simp only [majority]
    omega
  let left : Fin c.n := ⟨1, by omega⟩
  let second : Fin c.n := ⟨2, by omega⟩
  let shipped : LogState c.n := c.diverged hn (c.majority + 1)
  let acknowledged : LogState c.n :=
    { shipped with base := { shipped.base with acked := 1 }, acked := {1} }
  let crashed : LogState c.n :=
    { acknowledged with base := { acknowledged.base with
        alive := Function.update acknowledged.base.alive second false } }
  let failedOver : LogState c.n :=
    { crashed with base := { crashed.base with primary := some left, term := 2 } }
  have hshipped : c.LogReachable shipped :=
    logReachable_diverged_of_le hlsn (by omega) hn (by omega) (by omega)
  have hposition : shipped.base.lsn second = 1 := by
    simp only [shipped, diverged, second]
    exact if_pos (by omega)
  have hcontents : shipped.log second = [1] := by
    simp only [shipped, diverged, second, lt_irrefl, if_false]
    exact if_pos (by omega)
  have hack : c.LogStep shipped .ack acknowledged := by
    refine ⟨acknowledged.base, step_ack_iff.mpr ⟨second, rfl, ?_, ?_, ?_, ?_, ?_⟩, ?_⟩
    · simp [shipped, diverged, second]
    · omega
    · rw [hposition]
      exact Nat.one_pos
    · -- node 1 is counted although it holds the other write
      rw [hquorum, confirmers, length_filter_finRange]
      calc c.majority = (window c.n 1 c.majority).card := (card_window (by omega)).symm
        _ ≤ _ := by
          refine Finset.card_le_card fun i hi => ?_
          rw [mem_window] at hi
          simp only [shipped, diverged, update_mk_apply, Finset.mem_filter, Finset.mem_univ,
            true_and]
          grind
    · simp only [acknowledged, hposition]
    · have hacked : shipped.acked ∪ (shipped.log second).toFinset = {1} := by
        rw [hcontents]
        rfl
      exact congrArg (LogState.mk _ _ · _) hacked.symm
  have hcrash : c.LogStep acknowledged (.crash second) crashed :=
    ⟨crashed.base, step_crash_iff.mpr ⟨rfl, rfl⟩, rfl⟩
  have hfailover : c.LogStep crashed (.failover left) failedOver := by
    refine ⟨failedOver.base, step_failover_iff.mpr ⟨?_, hterm,
      ⟨insert left (window c.n 3 (c.majority - 1)), ?_, ?_, ?_, ?_⟩, rfl⟩, rfl⟩
    · simp [needFailover, crashed, acknowledged, shipped, diverged, second]
    · -- node 1 and a majority less one of the nodes from 3 up
      rw [Finset.card_insert_of_notMem (by simp [left]), card_window (by omega)]
      omega
    · intro i hi
      simp only [Finset.mem_insert, mem_window, left] at hi
      simp only [crashed, acknowledged, shipped, diverged, second, update_mk_apply]
      grind
    · exact Finset.mem_insert_self _ _
    · intro i hi
      simp only [Finset.mem_insert, mem_window, left] at hi
      rw [isLE_rank_iff]
      simp only [crashed, acknowledged, shipped, diverged, left]
      grind
  refine ⟨failedOver, ((hshipped.tail hack).tail hcrash).tail hfailover, fun hsafe => ?_⟩
  have hwrite := hsafe left rfl 1 (Finset.mem_singleton_self 1)
  simp [failedOver, crashed, acknowledged, shipped, diverged, left] at hwrite

/-- The numeric property speaks for the contents exactly where no node can be
left ahead on an abandoned history and still be counted later: in clusters
without writes, without a second failover, or of at most four nodes. -/
theorem ackedOnPrimary_iff (hquorum : c.ackQuorum = c.n / 2 + 1) :
    (∀ s, c.LogReachable s → s.PositionsAreLengths ∧ s.AckedOnPrimary) ↔
      c.n ≤ 4 ∨ c.maxLsn = 0 ∨ c.maxTerm ≤ 1 := by
  constructor
  · intro hsafe
    by_contra hlarge
    obtain ⟨s, hreach, hloss⟩ :=
      exists_acked_not_on_primary (c := c) hquorum (by omega) (by omega) (by omega)
    exact hloss (hsafe s hreach).2
  · rintro hsmall s hreach
    refine ⟨positionsAreLengths_of_reachable hreach, ?_⟩
    rcases hsmall with hn | hlsn | hterm
    · exact (logInvariant_of_reachable hquorum (Or.inl hn) hreach).ackedOnPrimary
    · exact ackedOnPrimary_of_maxLsn_eq_zero hlsn hreach
    · exact (logInvariant_of_reachable hquorum (Or.inr hterm) hreach).ackedOnPrimary

/-- The three-node cluster that the repository checks. -/
theorem ackedOnPrimary_three_nodes :
    (∀ s, Cluster.LogReachable ⟨3, by decide, 2, 3, 3⟩ s →
        LogState.PositionsAreLengths s ∧ LogState.AckedOnPrimary s) ↔
      3 ≤ 4 ∨ 3 = 0 ∨ 3 ≤ 1 :=
  ackedOnPrimary_iff (c := ⟨3, by decide, 2, 3, 3⟩) rfl

/-- Five nodes, one write a primary and two failovers lose an acknowledged write. -/
theorem exists_acked_loss_five_nodes :
    ¬ ∀ s, Cluster.LogReachable ⟨5, by decide, 3, 1, 2⟩ s →
      LogState.PositionsAreLengths s ∧ LogState.AckedOnPrimary s := by
  intro hsafe
  obtain ⟨s, hreach, hloss⟩ := exists_acked_not_on_primary
    (c := ⟨5, by decide, 3, 1, 2⟩) rfl le_rfl le_rfl le_rfl
  exact hloss (hsafe s hreach).2

end PgReplica.ConsensusModel.Cluster
