import PgReplica.ConsensusModel.LogRefinement

/-! # How many failovers a cluster gets through

The checker also looks for a failover after an acknowledgement, so that its safety
property is not true for want of runs. A crashed node never comes back: every failover
costs its primary, and a majority has to be left.
-/

namespace PgReplica.ConsensusModel.Cluster

open PgReplica.Foundation

variable {c : Cluster} {s t : State c.n}

/-! ## What failovers and acknowledgements need -/

/-- A failover leaves a majority alive, and an acknowledgement has found its confirmers. -/
structure Afforded (c : Cluster) (s : State c.n) : Prop where
  paid : FailoversPaid s
  majority : s.term + c.majority ≤ c.n
  acked : 1 ≤ s.acked → 1 ≤ c.maxLsn ∧ c.ackQuorum ≤ c.n

theorem majority_le (c : Cluster) : c.majority ≤ c.n := by
  have hpos := c.n_pos
  rw [majority]
  omega

theorem afforded_initState : c.Afforded c.initState where
  paid := failoversPaid_initState
  majority := (Nat.zero_add _).trans_le c.majority_le
  acked hacked := by cases hacked

theorem confirmers_le (s : State c.n) (p : Fin c.n) : c.confirmers s p ≤ c.n :=
  (List.length_filter_le _ _).trans_eq (List.length_finRange)

theorem Afforded.step (hafforded : c.Afforded s) {a : Action c.n} (hstep : c.Step s a t)
    (hwithin : c.withinBoundary s) : c.Afforded t := by
  have hpaid := failoversPaid_step hafforded.paid hstep
  cases a with
  | write =>
      obtain ⟨p, -, -, -, rfl⟩ := step_write_iff.mp hstep
      exact ⟨hpaid, hafforded.majority, hafforded.acked⟩
  | replicate i =>
      obtain ⟨p, -, -, -, -, -, rfl⟩ := step_replicate_iff.mp hstep
      exact ⟨hpaid, hafforded.majority, hafforded.acked⟩
  | ack =>
      obtain ⟨p, -, -, hpos, -, hconfirmed, rfl⟩ := step_ack_iff.mp hstep
      exact ⟨hpaid, hafforded.majority, fun _ =>
        ⟨hpos.trans_le (hwithin.2 p), hconfirmed.trans (confirmers_le s p)⟩⟩
  | crash i =>
      obtain ⟨-, rfl⟩ := step_crash_iff.mp hstep
      exact ⟨hpaid, hafforded.majority, hafforded.acked⟩
  | failover w =>
      obtain ⟨hneed, -, helected, rfl⟩ := step_failover_iff.mp hstep
      have hbefore := hafforded.paid
      have hleft := helected.casualties_le
      rw [FailoversPaid, if_pos hneed] at hbefore
      refine ⟨hpaid, ?_, hafforded.acked⟩
      change s.term + 1 + c.majority ≤ c.n
      omega

theorem afforded_of_reachable (hreach : c.Reachable s) : c.Afforded s := by
  obtain ⟨s₀, labels, hinit, hrun⟩ := hreach
  have hboth : c.Reachable s ∧ c.Afforded s := by
    refine hrun.invariant (I := fun s => c.Reachable s ∧ c.Afforded s) ?_ ?_
    · rintro s a t ⟨hreach, hafforded⟩ hstep
      exact ⟨hreach.tail hstep, hafforded.step hstep (withinBoundary_of_reachable hreach)⟩
    · subst hinit
      exact ⟨c.reachable_initState, afforded_initState⟩
  exact hboth.2

/-! ## A run with as many failovers -/

/-- Everyone has the acknowledged write, and the `k` lowest nodes have been primary and
have crashed. -/
def survived (c : Cluster) {k : Nat} (hk : k < c.n) : State c.n where
  lsn := fun _ => 1
  alive := fun i => decide (k ≤ i.val)
  primary := some ⟨k, hk⟩
  acked := 1
  term := k

theorem reachable_survived_zero (hlsn : 1 ≤ c.maxLsn) (hquorum : c.ackQuorum ≤ c.n) :
    c.Reachable (c.survived c.n_pos) := by
  have hpos := c.n_pos
  have hwritten : (c.replicated c.n).lsn = fun _ => 1 := by
    funext i
    exact if_pos i.isLt
  have hack : c.Step (c.replicated c.n) .ack (c.survived c.n_pos) := by
    refine step_ack_iff.mpr ⟨⟨0, c.n_pos⟩, rfl, rfl, ?_, ?_, ?_, ?_⟩
    · rw [hwritten]
      exact Nat.one_pos
    · rw [hwritten]
      exact Nat.one_pos
    · exact hquorum.trans (copies_le_confirmers_replicated le_rfl hpos)
    · rw [hwritten]
      simp [survived, replicated, initState]
  exact (reachable_replicated hlsn hpos le_rfl).tail hack

theorem reachable_survived (hlsn : 1 ≤ c.maxLsn) (hquorum : c.ackQuorum ≤ c.n) {k : Nat}
    (hterm : k ≤ c.maxTerm) (hmajority : k + c.majority ≤ c.n) :
    ∃ hk : k < c.n, c.Reachable (c.survived hk) := by
  have hpos := c.majority_pos
  induction k with
  | zero => exact ⟨c.n_pos, reachable_survived_zero hlsn hquorum⟩
  | succ k ih =>
      obtain ⟨hk, hreach⟩ := ih (by omega) (by omega)
      have hnext : k + 1 < c.n := by omega
      let crashed : State c.n :=
        { c.survived hk with alive := Function.update (c.survived hk).alive ⟨k, hk⟩ false }
      have hcrash : c.Step (c.survived hk) (.crash ⟨k, hk⟩) crashed :=
        step_crash_iff.mpr ⟨by simp [survived], rfl⟩
      have halive : crashed.alive = fun i => decide (k + 1 ≤ i.val) := by
        funext i
        by_cases heq : i = ⟨k, hk⟩
        · simp [crashed, heq]
        · have hne : i.val ≠ k := fun h => heq (Fin.ext h)
          simp only [crashed, survived, Function.update_of_ne heq]
          exact decide_eq_decide.mpr (by omega)
      have helected : c.Elected crashed ⟨k + 1, hnext⟩ := by
        refine ⟨window c.n (k + 1) c.majority, card_window hmajority, ?_, ?_, ?_⟩
        · intro i hi
          rw [halive, decide_eq_true_eq]
          exact (mem_window.mp hi).1
        · exact mem_window.mpr ⟨le_rfl, Nat.lt_add_of_pos_right hpos⟩
        · -- all are at 1, and the winner has the smallest index
          intro i hi
          rw [isLE_rank_iff]
          exact Or.inr ⟨rfl, Fin.le_def.mpr (mem_window.mp hi).1⟩
      have hfailover : c.Step crashed (.failover ⟨k + 1, hnext⟩) (c.survived hnext) := by
        refine step_failover_iff.mpr ⟨?_, hterm, helected, ?_⟩
        · simp [needFailover, crashed, survived]
        · rw [halive]
          rfl
      exact ⟨hnext, (hreach.tail hcrash).tail hfailover⟩

/-- After an acknowledgement `k` failovers are possible exactly when the terms suffice, a
majority is left by `k` crashes, and the write and its quorum are within bounds. -/
theorem failovers_after_ack_iff (c : Cluster) (k : Nat) :
    (∃ s, c.Reachable s ∧ s.term = k ∧ 1 ≤ s.acked) ↔
      k ≤ c.maxTerm ∧ k + (c.n / 2 + 1) ≤ c.n ∧ 1 ≤ c.maxLsn ∧ c.ackQuorum ≤ c.n := by
  constructor
  · rintro ⟨s, hreach, rfl, hacked⟩
    have hafforded := afforded_of_reachable hreach
    exact ⟨(withinBoundary_of_reachable hreach).1, hafforded.majority, hafforded.acked hacked⟩
  · rintro ⟨hterm, hmajority, hlsn, hquorum⟩
    obtain ⟨hk, hreach⟩ := reachable_survived hlsn hquorum hterm hmajority
    exact ⟨_, hreach, rfl, le_rfl⟩

end PgReplica.ConsensusModel.Cluster
