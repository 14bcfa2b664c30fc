import Mathlib.Data.Finset.Sort
import Mathlib.Data.Fintype.Basic
import Mathlib.Logic.Function.Basic
import PgReplica.Foundation.BitMask
import PgReplica.Foundation.MaxBy
import PgReplica.Foundation.Run

/-! # The durability model: writes, acknowledgements, crashes and failovers

The `Cluster` state machine of `packages/consensus-model`. A node is represented
by the position of its log; a failover may choose the most advanced member of
any majority of the nodes that are alive. The masks, 32 bits wide in the source,
are numbers, so that every set of nodes has one.
-/

namespace PgReplica.ConsensusModel

open PgReplica.Foundation

/-- The parameters of the model. A cluster has at least one node: the initial
state makes node 0 the primary. -/
structure Cluster where
  n : Nat
  n_pos : 0 < n
  ackQuorum : Nat
  maxLsn : Nat
  maxTerm : Nat

structure State (n : Nat) where
  lsn : Fin n → Nat
  alive : Fin n → Bool
  primary : Option (Fin n)
  acked : Nat
  term : Nat

inductive Action (n : Nat) where
  | write
  | replicate (standby : Fin n)
  | ack
  | crash (node : Fin n)
  | failover (winner : Fin n)
deriving DecidableEq

/-- The order in which `possible_new_primaries` ranks the members of a majority:
by position, and between equal positions the smaller index is the greater. -/
def rank {n : Nat} (lsn : Fin n → Nat) (a b : Fin n) : Ordering :=
  (compare (lsn a) (lsn b)).then (compare b a)

namespace Cluster

def majority (c : Cluster) : Nat :=
  c.n / 2 + 1

/-- One turn of the loop over masks: `none` where the source continues with the
next mask. A majority is never empty, so the maximum exists. -/
def electedBy (c : Cluster) (s : State c.n) (mask : Nat) : Option (Fin c.n) :=
  let members := maskMembers c.n mask
  if members.length ≠ c.majority ∨ members.any fun i => !s.alive i then none
  else maxBy (rank s.lsn) members

def possibleNewPrimaries (c : Cluster) (s : State c.n) : List (Fin c.n) :=
  let alive := ((List.finRange c.n).filter fun i => s.alive i).length
  if alive < c.majority then []
  else
    let winners := ((List.range' 1 (2 ^ c.n - 1)).filterMap (c.electedBy s)).toFinset
    winners.sort (· ≤ ·)

def initState (c : Cluster) : State c.n where
  lsn := fun _ => 0
  alive := fun _ => true
  primary := some ⟨0, c.n_pos⟩
  acked := 0
  term := 0

/-- The alive nodes whose position is at least the primary's. -/
def confirmers (c : Cluster) (s : State c.n) (p : Fin c.n) : Nat :=
  ((List.finRange c.n).filter fun i => s.alive i && decide (s.lsn p ≤ s.lsn i)).length

def needFailover {n : Nat} (s : State n) : Bool :=
  match s.primary with
  | none => true
  | some p => !s.alive p

def actions (c : Cluster) (s : State c.n) : List (Action c.n) :=
  (match s.primary with
    | some p =>
        if s.alive p then
          (if s.lsn p < c.maxLsn then [.write] else []) ++
          (if 0 < s.lsn p ∧ s.acked < s.lsn p ∧ c.ackQuorum ≤ c.confirmers s p then [.ack]
            else []) ++
          ((List.finRange c.n).filter fun standby =>
            decide (standby ≠ p) && s.alive standby &&
              decide (s.lsn standby < s.lsn p)).map .replicate
        else []
    | none => []) ++
  ((List.finRange c.n).filter fun i => s.alive i).map .crash ++
  (if needFailover s ∧ s.term < c.maxTerm then (c.possibleNewPrimaries s).map .failover else [])

def nextState {n : Nat} (s : State n) : Action n → Option (State n)
  | .write => do
      let p ← s.primary
      return { s with lsn := Function.update s.lsn p (s.lsn p + 1) }
  | .replicate i => do
      let p ← s.primary
      if s.lsn i < s.lsn p then
        return { s with lsn := Function.update s.lsn i (s.lsn i + 1) }
      else return s
  | .ack => do
      let p ← s.primary
      return { s with acked := s.lsn p }
  | .crash i => some { s with alive := Function.update s.alive i false }
  | .failover w => some { s with primary := some w, term := s.term + 1 }

def withinBoundary (c : Cluster) (s : State c.n) : Prop :=
  s.term ≤ c.maxTerm ∧ ∀ i, s.lsn i ≤ c.maxLsn

/-- The property the checker evaluates in every state it visits. -/
def noAckedLoss {n : Nat} (s : State n) : Prop :=
  match s.primary with
  | some p => s.acked ≤ s.lsn p
  | none => True

/-- One enabled action. -/
def Step (c : Cluster) (s : State c.n) (a : Action c.n) (t : State c.n) : Prop :=
  a ∈ c.actions s ∧ nextState s a = some t

/-- The states that a sequence of enabled actions leads to. -/
def Reachable (c : Cluster) (s : State c.n) : Prop :=
  Foundation.Reachable (· = c.initState) c.Step s

theorem reachable_initState (c : Cluster) : c.Reachable c.initState :=
  ⟨c.initState, [], rfl, .nil _⟩

end Cluster

/-! ## The order on nodes -/

section Rank

variable {n : Nat} {lsn : Fin n → Nat}

theorem isLE_rank_iff {a b : Fin n} :
    (rank lsn a b).isLE ↔ lsn a < lsn b ∨ lsn a = lsn b ∧ b ≤ a := by
  rw [rank, Ordering.isLE_then_iff_or]
  rcases lt_trichotomy (lsn a) (lsn b) with hlt | heq | hgt
  · simp [Nat.compare_eq_lt.mpr hlt, hlt]
  · simp [heq, Ordering.isLE_iff_ne_gt, compare_le_iff_le]
  · simp [Nat.compare_eq_gt.mpr hgt, hgt.not_gt, hgt.ne']

instance : Std.TransCmp (rank lsn) where
  eq_swap {a b} := by
    rw [rank, rank, Ordering.swap_then, ← Std.OrientedCmp.eq_swap, ← Std.OrientedCmp.eq_swap]
  isLE_trans {a b c} hab hbc := by
    rw [isLE_rank_iff] at *
    omega

instance : Std.LawfulEqCmp (rank lsn) where
  compare_self {a} := by simp [rank]
  eq_of_compare {a b} heq := by
    have hab : (rank lsn a b).isLE := by rw [heq]; rfl
    have hba : (rank lsn b a).isLE := by
      rw [@Std.OrientedCmp.eq_swap _ (rank lsn), heq]
      rfl
    rw [isLE_rank_iff] at hab hba
    omega

end Rank

namespace Cluster

variable {c : Cluster} {s t : State c.n}

/-! ## The nodes a failover may choose -/

/-- `w` is the greatest member of some majority of alive nodes. -/
def Elected (c : Cluster) (s : State c.n) (w : Fin c.n) : Prop :=
  ∃ S : Finset (Fin c.n), S.card = c.majority ∧ (∀ i ∈ S, s.alive i = true) ∧ w ∈ S ∧
    ∀ i ∈ S, (rank s.lsn i w).isLE

theorem majority_pos (c : Cluster) : 0 < c.majority := Nat.succ_pos _

theorem electedBy_maskOf {S : Finset (Fin c.n)} (hcard : S.card = c.majority)
    (halive : ∀ i ∈ S, s.alive i = true) :
    c.electedBy s (maskOf S) = maxBy (rank s.lsn) (maskMembers c.n (maskOf S)) := by
  rw [electedBy, if_neg]
  rintro (hlength | hany)
  · exact hlength ((length_maskMembers_maskOf S).trans hcard)
  · obtain ⟨i, hi, hdead⟩ := List.any_eq_true.mp hany
    simp [halive i (mem_maskMembers_maskOf.mp hi)] at hdead

theorem elected_of_electedBy {mask : Nat} {w : Fin c.n} (hmask : c.electedBy s mask = some w) :
    c.Elected s w := by
  simp only [electedBy] at hmask
  split at hmask
  next => cases hmask
  next hkeep =>
    simp only [not_or, not_not, Bool.not_eq_true, List.any_eq_false] at hkeep
    refine ⟨(maskMembers c.n mask).toFinset, ?_, ?_, ?_, ?_⟩
    · rw [List.toFinset_card_of_nodup (nodup_maskMembers mask), hkeep.1]
    · intro i hi
      simpa using hkeep.2 i (List.mem_toFinset.mp hi)
    · exact List.mem_toFinset.mpr (mem_of_maxBy_eq_some hmask)
    · intro i hi
      exact isLE_of_maxBy_eq_some hmask (List.mem_toFinset.mp hi)

/-- The guard on the number of alive nodes is implied by the election itself. -/
theorem Elected.majority_le_alive {w : Fin c.n} (helected : c.Elected s w) :
    c.majority ≤ ((List.finRange c.n).filter fun i => s.alive i).length := by
  obtain ⟨S, hcard, halive, -, -⟩ := helected
  rw [← hcard, ← List.toFinset_card_of_nodup ((List.nodup_finRange c.n).filter _)]
  refine Finset.card_le_card fun i hi => ?_
  simp [halive i hi]

theorem mem_possibleNewPrimaries {w : Fin c.n} :
    w ∈ c.possibleNewPrimaries s ↔ c.Elected s w := by
  constructor
  · intro hmem
    simp only [possibleNewPrimaries] at hmem
    split at hmem
    next => cases hmem
    next =>
      simp only [Finset.mem_sort, List.mem_toFinset, List.mem_filterMap] at hmem
      obtain ⟨mask, -, hmask⟩ := hmem
      exact elected_of_electedBy hmask
  · intro helected
    have hguard := helected.majority_le_alive
    obtain ⟨S, hcard, halive, hw, hdom⟩ := helected
    unfold possibleNewPrimaries
    rw [if_neg (by omega)]
    simp only [Finset.mem_sort, List.mem_toFinset, List.mem_filterMap]
    refine ⟨maskOf S, ?_, ?_⟩
    · have hpos := maskOf_pos ⟨w, hw⟩
      have hlt := maskOf_lt S
      rw [List.mem_range'_1]
      omega
    · rw [electedBy_maskOf hcard halive]
      exact maxBy_eq_some_of_forall_isLE (mem_maskMembers_maskOf.mpr hw)
        fun i hi => hdom i (mem_maskMembers_maskOf.mp hi)

/-! ## What one step does -/

theorem step_write_iff : c.Step s .write t ↔
    ∃ p, s.primary = some p ∧ s.alive p = true ∧ s.lsn p < c.maxLsn ∧
      t = { s with lsn := Function.update s.lsn p (s.lsn p + 1) } := by
  cases hprimary : s.primary with
  | none => simp [Step, actions, nextState, hprimary]
  | some p =>
      by_cases halive : s.alive p = true <;> by_cases hlsn : s.lsn p < c.maxLsn <;>
        simp [Step, actions, nextState, hprimary, halive, hlsn, @eq_comm _ t]

theorem step_replicate_iff {i : Fin c.n} : c.Step s (.replicate i) t ↔
    ∃ p, s.primary = some p ∧ s.alive p = true ∧ i ≠ p ∧ s.alive i = true ∧ s.lsn i < s.lsn p ∧
      t = { s with lsn := Function.update s.lsn i (s.lsn i + 1) } := by
  cases hprimary : s.primary with
  | none => simp [Step, actions, nextState, hprimary]
  | some p =>
      by_cases halive : s.alive p = true <;> by_cases hlsn : s.lsn i < s.lsn p <;>
        simp [Step, actions, nextState, hprimary, halive, hlsn, @eq_comm _ t, and_assoc]

theorem step_ack_iff : c.Step s .ack t ↔
    ∃ p, s.primary = some p ∧ s.alive p = true ∧ 0 < s.lsn p ∧ s.acked < s.lsn p ∧
      c.ackQuorum ≤ c.confirmers s p ∧ t = { s with acked := s.lsn p } := by
  cases hprimary : s.primary with
  | none => simp [Step, actions, nextState, hprimary]
  | some p =>
      by_cases halive : s.alive p = true <;>
        simp [Step, actions, nextState, hprimary, halive, @eq_comm _ t, and_assoc]

theorem step_crash_iff {i : Fin c.n} : c.Step s (.crash i) t ↔
    s.alive i = true ∧ t = { s with alive := Function.update s.alive i false } := by
  cases hprimary : s.primary with
  | none => simp [Step, actions, nextState, hprimary, @eq_comm _ t]
  | some p =>
      by_cases halive : s.alive p = true <;>
        simp [Step, actions, nextState, hprimary, halive, @eq_comm _ t]

theorem step_failover_iff {w : Fin c.n} : c.Step s (.failover w) t ↔
    needFailover s = true ∧ s.term < c.maxTerm ∧ c.Elected s w ∧
      t = { s with primary := some w, term := s.term + 1 } := by
  cases hprimary : s.primary with
  | none =>
      simp [Step, actions, nextState, hprimary, mem_possibleNewPrimaries, @eq_comm _ t,
        and_assoc]
  | some p =>
      by_cases halive : s.alive p = true <;>
        simp [Step, actions, nextState, hprimary, halive, mem_possibleNewPrimaries,
          @eq_comm _ t, and_assoc]

/-- The boundary prunes nothing: every action stays within it. -/
theorem withinBoundary_of_reachable (hreach : c.Reachable s) : c.withinBoundary s := by
  apply hreach.invariant (I := c.withinBoundary)
  · rintro _ rfl
    exact ⟨Nat.zero_le _, fun _ => Nat.zero_le _⟩
  · rintro s a t ⟨hterm, hlsn⟩ hstep
    cases a with
    | write =>
        obtain ⟨p, -, -, hlt, rfl⟩ := step_write_iff.mp hstep
        refine ⟨hterm, fun i => ?_⟩
        by_cases heq : i = p
        · simp only [heq, Function.update_self]
          exact hlt
        · simpa [Function.update_of_ne heq] using hlsn i
    | replicate j =>
        obtain ⟨p, -, -, -, -, hlt, rfl⟩ := step_replicate_iff.mp hstep
        refine ⟨hterm, fun i => ?_⟩
        by_cases heq : i = j
        · have hle := hlsn p
          simp only [heq, Function.update_self]
          omega
        · simpa [Function.update_of_ne heq] using hlsn i
    | ack =>
        obtain ⟨p, -, -, -, -, -, rfl⟩ := step_ack_iff.mp hstep
        exact ⟨hterm, hlsn⟩
    | crash i =>
        obtain ⟨-, rfl⟩ := step_crash_iff.mp hstep
        exact ⟨hterm, hlsn⟩
    | failover w =>
        obtain ⟨-, hlt, -, rfl⟩ := step_failover_iff.mp hstep
        exact ⟨hlt, hlsn⟩

end Cluster

end PgReplica.ConsensusModel
