import Mathlib.Data.Finset.Max
import PgReplica.ConsensusModel.Cluster
import PgReplica.Foundation.Counting

/-! # When the durability model loses no acknowledged position

The acknowledgement quorum counts the primary itself, so it is never below one.
No acknowledged position is lost in any run exactly when this quorum and the
failover majority are together larger than the cluster.
-/

namespace PgReplica.ConsensusModel.Cluster

open PgReplica.Foundation

variable {c : Cluster} {s t : State c.n}

/-- The nodes, dead ones included, whose log reaches the acknowledged position. -/
def holders {n : Nat} (s : State n) : Finset (Fin n) :=
  Finset.univ.filter fun i => s.acked ≤ s.lsn i

/-- The number of nodes an acknowledgement is known to be on. -/
def ackCopies (c : Cluster) : Nat :=
  max c.ackQuorum 1

/-- The primary and a full acknowledgement quorum hold the acknowledged position. -/
structure Held (c : Cluster) (s : State c.n) : Prop where
  primary : ∀ p, s.primary = some p → s.acked ≤ s.lsn p
  quorum : s.acked = 0 ∨ c.ackCopies ≤ (holders s).card

theorem Held.noAckedLoss (hheld : c.Held s) : noAckedLoss s := by
  unfold Cluster.noAckedLoss
  cases hprimary : s.primary with
  | none => trivial
  | some p => exact hheld.primary p hprimary

theorem held_initState : c.Held c.initState where
  primary _ _ := Nat.zero_le _
  quorum := Or.inl rfl

theorem ackCopies_le_confirmers {p : Fin c.n} (halive : s.alive p = true)
    (hquorum : c.ackQuorum ≤ c.confirmers s p) : c.ackCopies ≤ c.confirmers s p := by
  apply max_le hquorum
  rw [confirmers, Nat.one_le_iff_ne_zero, Ne, List.length_eq_zero_iff]
  intro hempty
  have hmem : p ∈ (List.finRange c.n).filter fun i => s.alive i && decide (s.lsn p ≤ s.lsn i) := by
    simp [halive]
  rw [hempty] at hmem
  cases hmem

/-- Positions never move backwards, so holders stay holders until the next
acknowledgement. -/
theorem holders_subset_of_lsn_le (hacked : t.acked = s.acked) (hlsn : ∀ i, s.lsn i ≤ t.lsn i) :
    holders s ⊆ holders t := by
  intro i hi
  simp only [holders, Finset.mem_filter, Finset.mem_univ, true_and] at hi ⊢
  exact hacked ▸ hi.trans (hlsn i)

theorem le_update_succ {n : Nat} (lsn : Fin n → Nat) (j i : Fin n) :
    lsn i ≤ Function.update lsn j (lsn j + 1) i := by
  by_cases heq : i = j
  · subst heq
    simp
  · simp [Function.update_of_ne heq]

/-- A majority meets the holders, and its greatest member is at least as far as
the holder in it. -/
theorem acked_le_lsn_of_elected {w : Fin c.n} (hsafe : c.n < c.ackCopies + c.majority)
    (hquorum : s.acked = 0 ∨ c.ackCopies ≤ (holders s).card) (helected : c.Elected s w) :
    s.acked ≤ s.lsn w := by
  rcases hquorum with hzero | hcopies
  · omega
  obtain ⟨S, hcard, -, -, hdom⟩ := helected
  obtain ⟨i, hholder, helector⟩ := exists_mem_of_lt_card
    (show c.n < (holders s).card + S.card by omega)
  have hholds : s.acked ≤ s.lsn i := by simpa [holders] using hholder
  have hrank := isLE_rank_iff.mp (hdom i helector)
  omega

theorem held_step (hsafe : c.n < c.ackCopies + c.majority) {a : Action c.n} (hheld : c.Held s)
    (hstep : c.Step s a t) : c.Held t := by
  cases a with
  | write =>
      obtain ⟨p, hprimary, -, -, rfl⟩ := step_write_iff.mp hstep
      have hlsn := le_update_succ s.lsn p
      refine ⟨fun q hq => (hheld.primary q hq).trans (hlsn q), hheld.quorum.imp_right fun h => ?_⟩
      exact h.trans (Finset.card_le_card (holders_subset_of_lsn_le rfl hlsn))
  | replicate i =>
      obtain ⟨p, hprimary, -, -, -, -, rfl⟩ := step_replicate_iff.mp hstep
      have hlsn := le_update_succ s.lsn i
      refine ⟨fun q hq => (hheld.primary q hq).trans (hlsn q), hheld.quorum.imp_right fun h => ?_⟩
      exact h.trans (Finset.card_le_card (holders_subset_of_lsn_le rfl hlsn))
  | ack =>
      -- the confirmers of the acknowledgement are the new holders
      obtain ⟨p, hprimary, halive, -, -, hquorum, rfl⟩ := step_ack_iff.mp hstep
      refine ⟨fun q hq => ?_, Or.inr ?_⟩
      · obtain rfl := Option.some.inj (hprimary.symm.trans hq)
        exact le_rfl
      · apply (ackCopies_le_confirmers halive hquorum).trans
        rw [confirmers, length_filter_finRange]
        refine Finset.card_le_card fun i hi => ?_
        simp only [Bool.and_eq_true, decide_eq_true_eq, Finset.mem_filter, Finset.mem_univ,
          true_and] at hi
        simpa [holders] using hi.2
  | crash i =>
      -- a dead node still counts as a holder
      obtain ⟨-, rfl⟩ := step_crash_iff.mp hstep
      exact ⟨hheld.primary, hheld.quorum⟩
  | failover w =>
      obtain ⟨-, -, helected, rfl⟩ := step_failover_iff.mp hstep
      refine ⟨fun q hq => ?_, hheld.quorum⟩
      obtain rfl := Option.some.inj hq
      exact acked_le_lsn_of_elected hsafe hheld.quorum helected

/-- With overlapping quorums every reachable state keeps the acknowledged
position on the primary and on a full quorum. -/
theorem held_of_reachable (hsafe : c.n < c.ackCopies + c.majority) (hreach : c.Reachable s) :
    c.Held s :=
  hreach.invariant (fun _ hinit => hinit ▸ held_initState)
    fun _ _ _ hheld hstep => held_step hsafe hheld hstep

/-! ## A losing run for every other choice of parameters -/

/-- The primary's first write, replicated to the `copies` lowest nodes. -/
def replicated (c : Cluster) (copies : Nat) : State c.n :=
  { c.initState with lsn := fun i => if i.val < copies then 1 else 0 }

theorem reachable_replicated (hlsn : 1 ≤ c.maxLsn) {copies : Nat} (hpos : 1 ≤ copies)
    (hle : copies ≤ c.n) : c.Reachable (c.replicated copies) := by
  induction copies, hpos using Nat.le_induction with
  | base =>
      have hwrite : c.Step c.initState .write (c.replicated 1) := by
        refine step_write_iff.mpr ⟨⟨0, c.n_pos⟩, rfl, rfl, hlsn, ?_⟩
        simp only [replicated, initState, State.mk.injEq, and_true]
        funext i
        by_cases heq : i = ⟨0, c.n_pos⟩
        · subst heq
          simp
        · have hne : i.val ≠ 0 := fun h => heq (Fin.ext h)
          simp [Function.update_of_ne heq, hne]
      exact c.reachable_initState.tail hwrite
  | succ copies hpos ih =>
      have hreplicate : c.Step (c.replicated copies) (.replicate ⟨copies, hle⟩)
          (c.replicated (copies + 1)) := by
        refine step_replicate_iff.mpr ⟨⟨0, c.n_pos⟩, rfl, rfl, ?_, rfl, ?_, ?_⟩
        · intro heq
          have := congrArg Fin.val heq
          simp only at this
          omega
        · simp [replicated, show 0 < copies by omega]
        · simp only [replicated, State.mk.injEq, and_true]
          funext i
          by_cases heq : i = ⟨copies, hle⟩
          · subst heq
            simp
          · have hne : i.val ≠ copies := fun h => heq (Fin.ext h)
            simp only [Function.update_of_ne heq]
            congr 1
            exact propext (by omega)
      exact (ih (by omega)).tail hreplicate

theorem copies_le_confirmers_replicated {copies : Nat} (hle : copies ≤ c.n) (hpos : 1 ≤ copies) :
    copies ≤ c.confirmers (c.replicated copies) ⟨0, c.n_pos⟩ := by
  rw [confirmers, length_filter_finRange]
  calc copies = (window c.n 0 copies).card := (card_window (by omega)).symm
    _ ≤ _ := by
      refine Finset.card_le_card fun i hi => ?_
      rw [mem_window] at hi
      simp [replicated, initState, show i.val < copies by omega, show 0 < copies by omega]

/-- The primary crashes right after an acknowledgement that a majority of the
other nodes has not seen, and that majority fails over. -/
theorem exists_loss_of_small_quorums (hlsn : 1 ≤ c.maxLsn) (hterm : 1 ≤ c.maxTerm)
    (hsmall : c.ackCopies + c.majority ≤ c.n) : ∃ s, c.Reachable s ∧ ¬ noAckedLoss s := by
  have hcopies : 1 ≤ c.ackCopies := le_max_right _ _
  have hmajority := c.majority_pos
  let first : Fin c.n := ⟨0, c.n_pos⟩
  let winner : Fin c.n := ⟨c.ackCopies, by omega⟩
  let written := c.replicated c.ackCopies
  let acknowledged : State c.n := { written with acked := written.lsn first }
  let crashed : State c.n :=
    { acknowledged with alive := Function.update written.alive first false }
  let failedOver : State c.n := { crashed with primary := some winner, term := 1 }
  have hfirst : written.lsn first = 1 := by
    simp [written, replicated, first, show 0 < c.ackCopies by omega]
  have hwritten : c.Reachable written := reachable_replicated hlsn hcopies (by omega)
  have hack : c.Step written .ack acknowledged := by
    refine step_ack_iff.mpr ⟨first, rfl, rfl, ?_, ?_, ?_, rfl⟩
    · omega
    · rw [hfirst]
      exact Nat.one_pos
    · have hcopies := copies_le_confirmers_replicated (c := c) (by omega) hcopies
      exact (le_max_left c.ackQuorum 1).trans hcopies
  have hcrash : c.Step acknowledged (.crash first) crashed := step_crash_iff.mpr ⟨rfl, rfl⟩
  have hfailover : c.Step crashed (.failover winner) failedOver := by
    refine step_failover_iff.mpr ⟨?_, hterm, ⟨window c.n c.ackCopies c.majority,
      card_window hsmall, ?_, ?_, ?_⟩, rfl⟩
    · simp [needFailover, crashed, acknowledged, written, replicated, initState, first]
    · intro i hi
      have hne : i ≠ first := by
        rintro rfl
        simp only [mem_window, first] at hi
        omega
      simp [crashed, Function.update_of_ne hne, written, replicated, initState]
    · simp only [mem_window, winner]
      omega
    · -- the candidates are all at 0, and the winner has the smallest index
      intro i hi
      rw [mem_window] at hi
      rw [isLE_rank_iff]
      refine Or.inr ⟨?_, Fin.le_def.mpr hi.1⟩
      simp [crashed, acknowledged, written, winner, replicated,
        show ¬ i.val < c.ackCopies by omega]
  refine ⟨failedOver, ((hwritten.tail hack).tail hcrash).tail hfailover, ?_⟩
  change ¬ written.lsn first ≤ written.lsn winner
  rw [hfirst]
  simp [written, replicated, winner]

/-- The checked property holds in every reachable state exactly when the
acknowledgement quorum and the failover majority must overlap. -/
theorem noAckedLoss_iff_quorums_overlap (hlsn : 1 ≤ c.maxLsn) (hterm : 1 ≤ c.maxTerm) :
    (∀ s, c.Reachable s → noAckedLoss s) ↔ c.n < max c.ackQuorum 1 + (c.n / 2 + 1) := by
  constructor
  · intro hsafe
    by_contra hsmall
    obtain ⟨s, hreach, hloss⟩ := exists_loss_of_small_quorums hlsn hterm (not_lt.mp hsmall)
    exact hloss (hsafe s hreach)
  · intro hoverlap s hreach
    exact (held_of_reachable hoverlap hreach).noAckedLoss

/-- Three nodes with a majority acknowledgement quorum, as the repository checks. -/
theorem noAckedLoss_three_nodes :
    (∀ s, Cluster.Reachable ⟨3, by decide, 2, 3, 3⟩ s → noAckedLoss s) ↔
      3 < max 2 1 + (3 / 2 + 1) :=
  noAckedLoss_iff_quorums_overlap (c := ⟨3, by decide, 2, 3, 3⟩) (by decide) (by decide)

end PgReplica.ConsensusModel.Cluster
