import Mathlib.Data.List.Infix
import PgReplica.ConsensusModel.Durability

/-! # Log contents behind the positions of the durability model

Every position is refined into the log it is the length of. Within the history
of one primary all logs are prefixes of the primary's, and positions stand for
contents. A failover that leaves a node ahead of the new primary ends that: the
node's log belongs to an abandoned history, but its length still confirms
acknowledgements and wins elections.
-/

namespace PgReplica.ConsensusModel

open PgReplica.Foundation

/-- A state of the model together with the writes in each node's log, the
acknowledged writes and the next fresh write. -/
structure LogState (n : Nat) where
  base : State n
  log : Fin n → List Nat
  acked : Finset Nat
  fresh : Nat

namespace LogState

variable {n : Nat}

/-- What an action does to the logs, next to the step `base` it makes in the model. -/
def apply (s : LogState n) (base : State n) : Action n → LogState n
  | .write =>
      match s.base.primary with
      | some p => ⟨base, Function.update s.log p (s.log p ++ [s.fresh]), s.acked, s.fresh + 1⟩
      | none => { s with base }
  | .replicate i =>
      match s.base.primary with
      | some p =>
          { s with
            base
            log := Function.update s.log i (s.log i ++ (s.log p)[s.base.lsn i]?.toList) }
      | none => { s with base }
  | .ack =>
      match s.base.primary with
      | some p => { s with base, acked := s.acked ∪ (s.log p).toFinset }
      | none => { s with base }
  | .crash _ => { s with base }
  | .failover _ => { s with base }

/-- Every position is the length of the log it stands for. -/
def PositionsAreLengths (s : LogState n) : Prop :=
  ∀ i, (s.log i).length = s.base.lsn i

/-- The current primary's log contains every acknowledged write. -/
def AckedOnPrimary (s : LogState n) : Prop :=
  ∀ p, s.base.primary = some p → ∀ write ∈ s.acked, write ∈ s.log p

end LogState

namespace Cluster

variable {c : Cluster} {s t : LogState c.n}

def initLogState (c : Cluster) : LogState c.n :=
  ⟨c.initState, fun _ => [], ∅, 0⟩

def LogStep (c : Cluster) (s : LogState c.n) (a : Action c.n) (t : LogState c.n) : Prop :=
  ∃ base, c.Step s.base a base ∧ t = s.apply base a

def LogReachable (c : Cluster) (s : LogState c.n) : Prop :=
  Foundation.Reachable (· = c.initLogState) c.LogStep s

theorem logReachable_initLogState (c : Cluster) : c.LogReachable c.initLogState :=
  ⟨c.initLogState, [], rfl, .nil _⟩

/-! ## What one refined step does -/

theorem logStep_write {s t : LogState c.n} (hstep : c.LogStep s .write t) :
    ∃ p, s.base.primary = some p ∧ c.Step s.base .write t.base ∧
      t.log = Function.update s.log p (s.log p ++ [s.fresh]) ∧ t.acked = s.acked := by
  obtain ⟨base, hstep, rfl⟩ := hstep
  obtain ⟨p, hprimary, -⟩ := step_write_iff.mp hstep
  refine ⟨p, hprimary, ?_⟩
  simp only [LogState.apply, hprimary, and_self, and_true]
  exact hstep

theorem logStep_replicate {i : Fin c.n} (hstep : c.LogStep s (.replicate i) t) :
    ∃ p, s.base.primary = some p ∧ c.Step s.base (.replicate i) t.base ∧
      t.log = Function.update s.log i (s.log i ++ (s.log p)[s.base.lsn i]?.toList) ∧
      t.acked = s.acked := by
  obtain ⟨base, hstep, rfl⟩ := hstep
  obtain ⟨p, hprimary, -⟩ := step_replicate_iff.mp hstep
  refine ⟨p, hprimary, ?_⟩
  simp only [LogState.apply, hprimary, and_self, and_true]
  exact hstep

theorem logStep_ack (hstep : c.LogStep s .ack t) :
    ∃ p, s.base.primary = some p ∧ c.Step s.base .ack t.base ∧ t.log = s.log ∧
      t.acked = s.acked ∪ (s.log p).toFinset := by
  obtain ⟨base, hstep, rfl⟩ := hstep
  obtain ⟨p, hprimary, -⟩ := step_ack_iff.mp hstep
  refine ⟨p, hprimary, ?_⟩
  simp only [LogState.apply, hprimary, and_self, and_true]
  exact hstep

theorem LogStep.base {a : Action c.n} (hstep : c.LogStep s a t) : c.Step s.base a t.base := by
  obtain ⟨base, hbase, rfl⟩ := hstep
  suffices (s.apply base a).base = base by rwa [this]
  cases a <;> simp only [LogState.apply]
  all_goals
    split <;> rfl

/-- Positions and logs move together in every step of every run. -/
theorem positionsAreLengths_step {a : Action c.n} (hlength : s.PositionsAreLengths)
    (hstep : c.LogStep s a t) : t.PositionsAreLengths := by
  intro j
  cases a with
  | write =>
      obtain ⟨p, hprimary, hbase, hlog, -⟩ := logStep_write hstep
      obtain ⟨p', hprimary', -, -, hnext⟩ := step_write_iff.mp hbase
      obtain rfl := Option.some.inj (hprimary.symm.trans hprimary')
      rw [hlog, hnext]
      by_cases heq : j = p
      · subst heq
        simp [hlength j]
      · simp [Function.update_of_ne heq, hlength j]
  | replicate i =>
      obtain ⟨p, hprimary, hbase, hlog, -⟩ := logStep_replicate hstep
      obtain ⟨p', hprimary', -, -, -, hlsn, hnext⟩ := step_replicate_iff.mp hbase
      obtain rfl := Option.some.inj (hprimary.symm.trans hprimary')
      have hlt : s.base.lsn i < (s.log p).length := (hlength p).symm ▸ hlsn
      rw [hlog, hnext]
      by_cases heq : j = i
      · subst heq
        simp [hlength j, List.getElem?_eq_getElem hlt]
      · simp [Function.update_of_ne heq, hlength j]
  | ack =>
      obtain ⟨p, -, hbase, hlog, -⟩ := logStep_ack hstep
      obtain ⟨p', -, -, -, -, -, hnext⟩ := step_ack_iff.mp hbase
      rw [hlog, hnext]
      exact hlength j
  | crash i =>
      obtain ⟨base, hbase, rfl⟩ := hstep
      obtain ⟨-, rfl⟩ := step_crash_iff.mp hbase
      exact hlength j
  | failover w =>
      obtain ⟨base, hbase, rfl⟩ := hstep
      obtain ⟨-, -, -, rfl⟩ := step_failover_iff.mp hbase
      exact hlength j

theorem positionsAreLengths_of_reachable (hreach : c.LogReachable s) : s.PositionsAreLengths := by
  refine hreach.invariant (I := LogState.PositionsAreLengths) ?_
    fun _ _ _ hlength hstep => positionsAreLengths_step hlength hstep
  rintro _ rfl
  exact fun _ => rfl

/-! ## The invariant up to the first failover -/

/-- A prefix shared by a failover majority of logs that contains every
acknowledged write. -/
def AckedHeld (c : Cluster) (s : LogState c.n) : Prop :=
  ∃ history : List Nat, (∀ write ∈ s.acked, write ∈ history) ∧
    c.majority ≤ (Finset.univ.filter fun i => history <+: s.log i).card

/-- Before the first failover there is one history, the primary's. -/
structure OneHistory (c : Cluster) (s : LogState c.n) : Prop where
  isPrefix : ∀ p, s.base.primary = some p → ∀ i, s.log i <+: s.log p
  hasPrimary : s.base.primary ≠ none
  held : s.acked = ∅ ∨ c.AckedHeld s

/-- What every run keeps as long as at most the first failover has happened. -/
structure LogInvariant (c : Cluster) (s : LogState c.n) : Prop where
  length : s.PositionsAreLengths
  oneHistory : s.base.term = 0 → c.OneHistory s
  ackedOnPrimary : s.AckedOnPrimary

theorem append_next_isPrefix {l m : List Nat} (hpre : l <+: m) :
    l ++ m[l.length]?.toList <+: m := by
  obtain ⟨rest, rfl⟩ := hpre
  cases rest with
  | nil => simp
  | cons x rest => simp

theorem logInvariant_initLogState : c.LogInvariant c.initLogState where
  length _ := rfl
  oneHistory _ := ⟨fun _ _ _ => List.prefix_rfl, Option.some_ne_none _, Or.inl rfl⟩
  ackedOnPrimary _ _ _ hwrite := absurd hwrite (Finset.notMem_empty _)

/-- Extending logs keeps an acknowledged prefix where it is. -/
theorem AckedHeld.of_log_prefix (hheld : c.AckedHeld s) (hacked : t.acked = s.acked)
    (hlog : ∀ i, s.log i <+: t.log i) : c.AckedHeld t := by
  obtain ⟨history, hwrites, hcard⟩ := hheld
  refine ⟨history, fun write hwrite => hwrites write (hacked ▸ hwrite), hcard.trans ?_⟩
  refine Finset.card_le_card fun i hi => ?_
  simp only [Finset.mem_filter, Finset.mem_univ, true_and] at hi ⊢
  exact hi.trans (hlog i)

theorem prefix_update_append {n : Nat} (log : Fin n → List Nat) (j : Fin n) (rest : List Nat)
    (i : Fin n) : log i <+: Function.update log j (log j ++ rest) i := by
  by_cases heq : i = j
  · subst heq
    simp
  · simp [Function.update_of_ne heq]

/-- In one history a majority confirms an acknowledgement with contents, not
only with length. -/
theorem ackedHeld_of_confirmers (hquorum : c.ackQuorum = c.majority) {p : Fin c.n}
    (hlength : s.PositionsAreLengths) (hpre : ∀ i, s.log i <+: s.log p)
    (hconfirm : c.ackQuorum ≤ c.confirmers s.base p) :
    c.majority ≤ (Finset.univ.filter fun i => s.log p <+: s.log i).card := by
  rw [← hquorum]
  apply hconfirm.trans
  rw [confirmers, length_filter_finRange]
  refine Finset.card_le_card fun i hi => ?_
  simp only [Bool.and_eq_true, decide_eq_true_eq, Finset.mem_filter, Finset.mem_univ,
    true_and] at hi ⊢
  have hle : (s.log p).length ≤ (s.log i).length := by
    rw [hlength, hlength]
    exact hi.2
  rw [(hpre i).eq_of_length_le hle]

/-- A node elected out of one history has every acknowledged write: the majority
that elected it contains a holder, and of two prefixes the longer contains the
shorter. -/
theorem OneHistory.acked_on_elected (hone : c.OneHistory s)
    (hlength : s.PositionsAreLengths) {w : Fin c.n}
    (helected : c.Elected s.base w) : ∀ write ∈ s.acked, write ∈ s.log w := by
  rcases hone.held with hempty | ⟨history, hwrites, hcopies⟩
  · intro write hwrite
    rw [hempty] at hwrite
    exact absurd hwrite (Finset.notMem_empty _)
  obtain ⟨S, hcard, -, -, hdom⟩ := helected
  obtain ⟨p, hprimary⟩ := Option.ne_none_iff_exists'.mp hone.hasPrimary
  have hlarge : c.n < (Finset.univ.filter fun i => history <+: s.log i).card + S.card := by
    rw [hcard]
    simp only [majority] at hcopies ⊢
    omega
  obtain ⟨holder, hholds, helector⟩ := exists_mem_of_lt_card hlarge
  simp only [Finset.mem_filter, Finset.mem_univ, true_and] at hholds
  have hle : (s.log holder).length ≤ (s.log w).length := by
    rw [hlength, hlength]
    have hrank := isLE_rank_iff.mp (hdom holder helector)
    omega
  -- both are prefixes of the primary's log
  have hlogs : s.log holder <+: s.log w :=
    List.prefix_of_prefix_length_le (hone.isPrefix p hprimary holder)
      (hone.isPrefix p hprimary w) hle
  exact fun write hwrite => (hholds.trans hlogs).subset (hwrites write hwrite)

/-- Appending to one log keeps the acknowledged writes where they are, when no
node becomes the primary and no term passes. -/
theorem OneHistory.held_of_append (hone : c.OneHistory s) (hacked : t.acked = s.acked)
    (hlog : ∀ i, s.log i <+: t.log i) : t.acked = ∅ ∨ c.AckedHeld t := by
  refine hone.held.imp (fun hempty => hacked.trans hempty) fun hheld => ?_
  exact hheld.of_log_prefix hacked hlog

theorem logInvariant_write (hinv : c.LogInvariant s) (hstep : c.LogStep s .write t) :
    c.LogInvariant t := by
  obtain ⟨p, hprimary, hbase, hlog, hacked⟩ := logStep_write hstep
  obtain ⟨p', hprimary', -, -, hnext⟩ := step_write_iff.mp hbase
  obtain rfl := Option.some.inj (hprimary.symm.trans hprimary')
  have hgrow : ∀ i, s.log i <+: t.log i := fun i => hlog ▸ prefix_update_append s.log p _ i
  have hsame : t.base.primary = s.base.primary := by rw [hnext]
  have hterm : t.base.term = s.base.term := by rw [hnext]
  refine ⟨positionsAreLengths_step hinv.length hstep,
    fun hzero => ⟨fun q hq i => ?_, ?_, ?_⟩, fun q hq write hwrite => ?_⟩
  · obtain rfl := Option.some.inj (hprimary.symm.trans (hsame.symm.trans hq))
    rw [hlog, Function.update_self]
    by_cases heq : i = p
    · rw [heq, Function.update_self]
    · rw [Function.update_of_ne heq]
      exact ((hinv.oneHistory (hterm.symm.trans hzero)).isPrefix p hprimary i).trans
        (List.prefix_append _ _)
  · rw [hsame]
    exact (hinv.oneHistory (hterm.symm.trans hzero)).hasPrimary
  · exact (hinv.oneHistory (hterm.symm.trans hzero)).held_of_append hacked hgrow
  · rw [hacked] at hwrite
    exact (hgrow q).subset (hinv.ackedOnPrimary q (hsame.symm.trans hq) write hwrite)

theorem logInvariant_replicate {i : Fin c.n} (hinv : c.LogInvariant s)
    (hstep : c.LogStep s (.replicate i) t) : c.LogInvariant t := by
  obtain ⟨p, hprimary, hbase, hlog, hacked⟩ := logStep_replicate hstep
  obtain ⟨p', hprimary', -, hne, -, -, hnext⟩ := step_replicate_iff.mp hbase
  obtain rfl := Option.some.inj (hprimary.symm.trans hprimary')
  have hgrow : ∀ j, s.log j <+: t.log j := fun j => hlog ▸ prefix_update_append s.log i _ j
  have hsame : t.base.primary = s.base.primary := by rw [hnext]
  have hterm : t.base.term = s.base.term := by rw [hnext]
  refine ⟨positionsAreLengths_step hinv.length hstep,
    fun hzero => ⟨fun q hq j => ?_, ?_, ?_⟩, fun q hq write hwrite => ?_⟩
  · obtain rfl := Option.some.inj (hprimary.symm.trans (hsame.symm.trans hq))
    have hone := hinv.oneHistory (hterm.symm.trans hzero)
    rw [hlog, Function.update_of_ne hne.symm]
    by_cases heq : j = i
    · rw [heq, Function.update_self, ← hinv.length i]
      exact append_next_isPrefix (hone.isPrefix p hprimary i)
    · rw [Function.update_of_ne heq]
      exact hone.isPrefix p hprimary j
  · rw [hsame]
    exact (hinv.oneHistory (hterm.symm.trans hzero)).hasPrimary
  · exact (hinv.oneHistory (hterm.symm.trans hzero)).held_of_append hacked hgrow
  · rw [hacked] at hwrite
    exact (hgrow q).subset (hinv.ackedOnPrimary q (hsame.symm.trans hq) write hwrite)

theorem logInvariant_ack (hquorum : c.ackQuorum = c.majority) (hinv : c.LogInvariant s)
    (hstep : c.LogStep s .ack t) : c.LogInvariant t := by
  obtain ⟨p, hprimary, hbase, hlog, hacked⟩ := logStep_ack hstep
  obtain ⟨p', hprimary', -, -, -, hconfirm, hnext⟩ := step_ack_iff.mp hbase
  obtain rfl := Option.some.inj (hprimary.symm.trans hprimary')
  have hsame : t.base.primary = s.base.primary := by rw [hnext]
  have hterm : t.base.term = s.base.term := by rw [hnext]
  have hwrites : ∀ write ∈ t.acked, write ∈ s.log p := by
    intro write hwrite
    rw [hacked] at hwrite
    rcases Finset.mem_union.mp hwrite with hold | hnew
    · exact hinv.ackedOnPrimary p hprimary write hold
    · exact List.mem_toFinset.mp hnew
  refine ⟨positionsAreLengths_step hinv.length hstep, fun hzero =>
    ⟨fun q hq i => ?_, ?_, Or.inr ⟨s.log p, hwrites, ?_⟩⟩, fun q hq write hwrite => ?_⟩
  · rw [hlog]
    exact (hinv.oneHistory (hterm.symm.trans hzero)).isPrefix q (hsame.symm.trans hq) i
  · rw [hsame]
    exact (hinv.oneHistory (hterm.symm.trans hzero)).hasPrimary
  · rw [hlog]
    exact ackedHeld_of_confirmers hquorum hinv.length
      ((hinv.oneHistory (hterm.symm.trans hzero)).isPrefix p hprimary) hconfirm
  · obtain rfl := Option.some.inj (hprimary.symm.trans (hsame.symm.trans hq))
    rw [hlog]
    exact hwrites write hwrite

/-- Every step keeps the invariant when failovers only happen in term 0. -/
theorem logInvariant_step (hquorum : c.ackQuorum = c.majority) {a : Action c.n}
    (hinv : c.LogInvariant s) (hfirst : ∀ w, a = .failover w → s.base.term = 0)
    (hstep : c.LogStep s a t) : c.LogInvariant t := by
  cases a with
  | write => exact logInvariant_write hinv hstep
  | replicate i => exact logInvariant_replicate hinv hstep
  | ack => exact logInvariant_ack hquorum hinv hstep
  | crash i =>
      obtain ⟨base, hbase, rfl⟩ := hstep
      obtain ⟨-, rfl⟩ := step_crash_iff.mp hbase
      exact ⟨hinv.length, fun hterm => ⟨(hinv.oneHistory hterm).isPrefix,
        (hinv.oneHistory hterm).hasPrimary, (hinv.oneHistory hterm).held⟩, hinv.ackedOnPrimary⟩
  | failover w =>
      have hterm := hfirst w rfl
      obtain ⟨base, hbase, rfl⟩ := hstep
      obtain ⟨-, -, helected, rfl⟩ := step_failover_iff.mp hbase
      refine ⟨hinv.length, fun hnext => absurd hnext (Nat.succ_ne_zero _), fun q hq => ?_⟩
      obtain rfl := Option.some.inj hq
      exact (hinv.oneHistory hterm).acked_on_elected hinv.length helected

/-! ## Small clusters fail over once -/

/-- The nodes that have crashed; a crashed node never comes back. -/
def casualties {n : Nat} (s : State n) : Finset (Fin n) :=
  Finset.univ.filter fun i => s.alive i = false

theorem mem_casualties {n : Nat} {s : State n} {i : Fin n} :
    i ∈ casualties s ↔ s.alive i = false := by
  simp [casualties]

/-- Every failover has cost one node, and a dead primary one more. -/
def FailoversPaid {n : Nat} (s : State n) : Prop :=
  s.term + (if needFailover s then 1 else 0) ≤ (casualties s).card

theorem failoversPaid_initState : FailoversPaid c.initState := by
  simp [FailoversPaid, needFailover, initState]

theorem casualties_crash {n : Nat} {s : State n} {i : Fin n} (halive : s.alive i = true) :
    (casualties { s with alive := Function.update s.alive i false }).card =
      (casualties s).card + 1 := by
  have hinsert : casualties { s with alive := Function.update s.alive i false } =
      insert i (casualties s) := by
    ext j
    rw [Finset.mem_insert, mem_casualties, mem_casualties]
    by_cases heq : j = i
    · simp [heq]
    · simp [heq]
  rw [hinsert, Finset.card_insert_of_notMem]
  rw [mem_casualties, halive]
  exact Bool.noConfusion

theorem failoversPaid_step {s t : State c.n} {a : Action c.n} (hpaid : FailoversPaid s)
    (hstep : c.Step s a t) : FailoversPaid t := by
  cases a with
  | write =>
      obtain ⟨p, -, -, -, rfl⟩ := step_write_iff.mp hstep
      exact hpaid
  | replicate i =>
      obtain ⟨p, -, -, -, -, -, rfl⟩ := step_replicate_iff.mp hstep
      exact hpaid
  | ack =>
      obtain ⟨p, -, -, -, -, -, rfl⟩ := step_ack_iff.mp hstep
      exact hpaid
  | crash i =>
      -- the new casualty pays for the failover that it may call for
      obtain ⟨halive, rfl⟩ := step_crash_iff.mp hstep
      rw [FailoversPaid, casualties_crash halive]
      have hterm : s.term ≤ (casualties s).card := (Nat.le_add_right _ _).trans hpaid
      change s.term + _ ≤ _
      split <;> omega
  | failover w =>
      obtain ⟨hneed, -, ⟨S, -, halive, hw, -⟩, rfl⟩ := step_failover_iff.mp hstep
      rw [FailoversPaid, if_pos hneed] at hpaid
      rw [FailoversPaid, if_neg (by simp [needFailover, halive w hw])]
      exact hpaid

/-- A majority of live nodes bounds the casualties. -/
theorem Elected.casualties_le {s : State c.n} {w : Fin c.n} (helected : c.Elected s w) :
    (casualties s).card + c.majority ≤ c.n := by
  obtain ⟨S, hcard, halive, -, -⟩ := helected
  have hdisjoint : Disjoint (casualties s) S := by
    rw [Finset.disjoint_left]
    intro i hdead hi
    rw [mem_casualties, halive i hi] at hdead
    cases hdead
  rw [← hcard, ← Finset.card_union_of_disjoint hdisjoint]
  exact (Finset.card_le_univ _).trans_eq (Fintype.card_fin _)

/-- A second failover needs two casualties and a live majority, which four nodes
do not have. -/
theorem term_eq_zero_of_failover (hsmall : c.n ≤ 4 ∨ c.maxTerm ≤ 1) {s t : State c.n}
    {w : Fin c.n} (hpaid : FailoversPaid s) (hstep : c.Step s (.failover w) t) : s.term = 0 := by
  obtain ⟨hneed, hterm, helected, -⟩ := step_failover_iff.mp hstep
  rcases hsmall with hn | hmax
  · have hdead := helected.casualties_le
    rw [FailoversPaid, if_pos hneed] at hpaid
    simp only [majority] at hdead
    omega
  · omega

/-- With one failover at most, every run keeps positions and contents together. -/
theorem logInvariant_of_reachable (hquorum : c.ackQuorum = c.majority)
    (hsmall : c.n ≤ 4 ∨ c.maxTerm ≤ 1) (hreach : c.LogReachable s) : c.LogInvariant s := by
  have hboth : c.LogInvariant s ∧ FailoversPaid s.base := by
    refine hreach.invariant (I := fun s => c.LogInvariant s ∧ FailoversPaid s.base) ?_ ?_
    · rintro _ rfl
      exact ⟨logInvariant_initLogState, failoversPaid_initState⟩
    · rintro s a t ⟨hinv, hpaid⟩ hstep
      refine ⟨logInvariant_step hquorum hinv ?_ hstep, failoversPaid_step hpaid hstep.base⟩
      rintro w rfl
      exact term_eq_zero_of_failover hsmall hpaid hstep.base
  exact hboth.1

/-! ## Without writes nothing is acknowledged -/

/-- No node has a position, and nothing is acknowledged. -/
def Silent {n : Nat} (s : LogState n) : Prop :=
  (∀ i, s.base.lsn i = 0) ∧ s.acked = ∅

theorem silent_step (hlsn : c.maxLsn = 0) {a : Action c.n} (hsilent : Silent s)
    (hstep : c.LogStep s a t) : Silent t := by
  cases a with
  | write =>
      obtain ⟨p, -, -, hlt, -⟩ := step_write_iff.mp hstep.base
      omega
  | replicate i =>
      obtain ⟨p, -, -, -, -, hlt, -⟩ := step_replicate_iff.mp hstep.base
      rw [hsilent.1 p] at hlt
      omega
  | ack =>
      obtain ⟨p, -, -, hpos, -⟩ := step_ack_iff.mp hstep.base
      rw [hsilent.1 p] at hpos
      omega
  | crash i =>
      obtain ⟨base, hbase, rfl⟩ := hstep
      obtain ⟨-, rfl⟩ := step_crash_iff.mp hbase
      exact hsilent
  | failover w =>
      obtain ⟨base, hbase, rfl⟩ := hstep
      obtain ⟨-, -, -, rfl⟩ := step_failover_iff.mp hbase
      exact hsilent

theorem ackedOnPrimary_of_maxLsn_eq_zero (hlsn : c.maxLsn = 0) (hreach : c.LogReachable s) :
    s.AckedOnPrimary := by
  have hsilent : Silent s := by
    refine hreach.invariant (I := Silent) ?_
      fun _ _ _ hsilent hstep => silent_step hlsn hsilent hstep
    rintro _ rfl
    exact ⟨fun _ => rfl, rfl⟩
  intro p _ write hwrite
  rw [hsilent.2] at hwrite
  exact absurd hwrite (Finset.notMem_empty _)

end Cluster

end PgReplica.ConsensusModel
