import Mathlib.Data.Finset.Lattice.Fold
import Mathlib.Data.Fintype.Basic
import Mathlib.Order.Lattice.Nat
import PgReplica.Foundation.BitMask
import PgReplica.Foundation.Run

/-! # The leadership model: elections, commits, crashes and recoveries

The `Leadership` state machine of `packages/consensus-model`. An election reaches
its voters only, so that a leader that did not vote stays writable at its old
term. The fencing guard lets a leader commit only while a majority is still at
its term. As in the durability model, a mask of voters stands for any set of them.
-/

namespace PgReplica.ConsensusModel

open PgReplica.Foundation

/-- The parameters of the model, with at least one node. -/
structure Leadership where
  n : Nat
  n_pos : 0 < n
  maxTerm : Nat
  fencing : Bool

structure LState (n : Nat) where
  curTerm : Fin n → Nat
  writable : Fin n → Bool
  alive : Fin n → Bool
  maxCommittedTerm : Nat
  committedLeader : Option (Fin n)
  splitBrain : Bool

inductive LAction (n : Nat) where
  | elect (winner : Fin n) (voters : Nat)
  | commit (w : Fin n)
  | crash (i : Fin n)
  | recover (i : Fin n)
deriving DecidableEq

/-- The greatest term any node is at. -/
def LState.maxCurTerm {n : Nat} (s : LState n) : Nat :=
  Finset.univ.sup s.curTerm

namespace Leadership

def majority (l : Leadership) : Nat :=
  l.n / 2 + 1

def initState (l : Leadership) : LState l.n where
  curTerm := fun _ => 1
  writable := Function.update (fun _ => false) ⟨0, l.n_pos⟩ true
  alive := fun _ => true
  maxCommittedTerm := 0
  committedLeader := none
  splitBrain := false

/-- The elections that the loop over voter masks enables. -/
def elections (l : Leadership) (s : LState l.n) : List (LAction l.n) :=
  if s.maxCurTerm < l.maxTerm then
    (List.range' 1 (2 ^ l.n - 1)).flatMap fun mask =>
      let members := maskMembers l.n mask
      if members.length ≠ l.majority ∨ members.any fun i => !s.alive i then []
      else members.map fun winner => .elect winner mask
  else []

def actions (l : Leadership) (s : LState l.n) : List (LAction l.n) :=
  l.elections s ++
  ((List.finRange l.n).filter fun w => s.alive w && s.writable w).map .commit ++
  (List.finRange l.n).map fun i => if s.alive i then .crash i else .recover i

/-- The alive nodes that are still at term `t`. -/
def quorumAtTerm (l : Leadership) (s : LState l.n) (t : Nat) : Nat :=
  ((List.finRange l.n).filter fun i => s.alive i && s.curTerm i == t).length

/-- How a commit by `w` at term `t` enters the record of earlier commits. -/
def recordCommit {n : Nat} (s : LState n) (w : Fin n) (t : Nat) : LState n :=
  if t < s.maxCommittedTerm then { s with splitBrain := true }
  else if t = s.maxCommittedTerm then
    { s with
      splitBrain :=
        match s.committedLeader with
        | some prev => if prev ≠ w then true else s.splitBrain
        | none => s.splitBrain
      committedLeader := some w }
  else { s with maxCommittedTerm := t, committedLeader := some w }

def nextState (l : Leadership) (s : LState l.n) : LAction l.n → Option (LState l.n)
  | .elect winner voters =>
      let newTerm := s.maxCurTerm + 1
      some { s with
        curTerm := fun i => if i ∈ maskMembers l.n voters then newTerm else s.curTerm i
        writable := fun i =>
          if i ∈ maskMembers l.n voters then decide (i = winner) else s.writable i }
  | .commit w =>
      let t := s.curTerm w
      let allowed := if l.fencing then decide (l.majority ≤ l.quorumAtTerm s t) else true
      if !allowed then none else some (recordCommit s w t)
  | .crash i => some { s with alive := Function.update s.alive i false }
  | .recover i => some { s with alive := Function.update s.alive i true }

def withinBoundary (l : Leadership) (s : LState l.n) : Prop :=
  ∀ i, s.curTerm i ≤ l.maxTerm

/-- One enabled action. -/
def Step (l : Leadership) (s : LState l.n) (a : LAction l.n) (t : LState l.n) : Prop :=
  a ∈ l.actions s ∧ l.nextState s a = some t

def Reachable (l : Leadership) (s : LState l.n) : Prop :=
  Foundation.Reachable (· = l.initState) l.Step s

theorem reachable_initState (l : Leadership) : l.Reachable l.initState :=
  ⟨l.initState, [], rfl, .nil _⟩

variable {l : Leadership} {s t : LState l.n}

/-! ## What one step does -/

theorem curTerm_le_maxCurTerm (s : LState l.n) (i : Fin l.n) : s.curTerm i ≤ s.maxCurTerm :=
  Finset.le_sup (Finset.mem_univ i)

theorem maxCurTerm_le {bound : Nat} (hbound : ∀ i, s.curTerm i ≤ bound) : s.maxCurTerm ≤ bound :=
  Finset.sup_le fun i _ => hbound i

/-- The voters of an election are a majority of alive nodes that contains the winner. -/
structure ElectedBy (l : Leadership) (s : LState l.n) (winner : Fin l.n) (voters : Nat) :
    Prop where
  mask : 1 ≤ voters ∧ voters < 2 ^ l.n
  term : s.maxCurTerm < l.maxTerm
  majority : (maskMembers l.n voters).length = l.majority
  alive : ∀ i ∈ maskMembers l.n voters, s.alive i = true
  winner : winner ∈ maskMembers l.n voters

theorem mem_elections {a : LAction l.n} : a ∈ l.elections s ↔
    ∃ winner voters, a = .elect winner voters ∧ l.ElectedBy s winner voters := by
  constructor
  · intro hmem
    simp only [elections] at hmem
    split at hmem
    next hterm =>
      obtain ⟨mask, hmask, hmem⟩ := List.mem_flatMap.mp hmem
      split at hmem
      next => cases hmem
      next hkeep =>
        obtain ⟨i, hi, rfl⟩ := List.mem_map.mp hmem
        simp only [not_or, not_not, Bool.not_eq_true, List.any_eq_false, Bool.not_eq_false']
          at hkeep
        have hpow := Nat.one_le_two_pow (n := l.n)
        rw [List.mem_range'_1] at hmask
        exact ⟨i, mask, rfl, ⟨hmask.1, by omega⟩, hterm, hkeep.1, hkeep.2, hi⟩
    next => cases hmem
  · rintro ⟨winner, voters, rfl, hmask, hterm, hmajority, halive, hwinner⟩
    rw [elections, if_pos hterm]
    refine List.mem_flatMap.mpr ⟨voters, ?_, ?_⟩
    · rw [List.mem_range'_1]
      omega
    · rw [if_neg]
      · exact List.mem_map.mpr ⟨winner, hwinner, rfl⟩
      · rintro (hlength | hany)
        · exact hlength hmajority
        · obtain ⟨i, hi, hdead⟩ := List.any_eq_true.mp hany
          simp [halive i hi] at hdead

theorem mem_actions {a : LAction l.n} : a ∈ l.actions s ↔
    match a with
    | .elect winner voters => l.ElectedBy s winner voters
    | .commit w => s.alive w = true ∧ s.writable w = true
    | .crash i => s.alive i = true
    | .recover i => s.alive i = false := by
  simp only [actions, List.mem_append, mem_elections, List.mem_map, List.mem_filter,
    List.mem_finRange, true_and, Bool.and_eq_true]
  cases a with
  | elect winner voters => simp [ite_eq_iff]
  | commit w => simp [ite_eq_iff]
  | crash i =>
      constructor
      · rintro ((⟨_, _, heq, -⟩ | ⟨_, -, heq⟩) | ⟨j, hj⟩)
        · cases heq
        · cases heq
        · split at hj <;> cases hj
          assumption
      · exact fun halive => Or.inr ⟨i, if_pos halive⟩
  | recover i =>
      constructor
      · rintro ((⟨_, _, heq, -⟩ | ⟨_, -, heq⟩) | ⟨j, hj⟩)
        · cases heq
        · cases heq
        · split at hj <;> cases hj
          exact Bool.eq_false_of_not_eq_true ‹_›
      · exact fun hdead => Or.inr ⟨i, by simp [hdead]⟩

theorem step_elect_iff {winner : Fin l.n} {voters : Nat} :
    l.Step s (.elect winner voters) t ↔ l.ElectedBy s winner voters ∧
      t = { s with
        curTerm := fun i =>
          if i ∈ maskMembers l.n voters then s.maxCurTerm + 1 else s.curTerm i
        writable := fun i =>
          if i ∈ maskMembers l.n voters then decide (i = winner) else s.writable i } := by
  simp only [Step, mem_actions, nextState, Option.some.injEq, @eq_comm _ t]

theorem step_commit_iff {w : Fin l.n} :
    l.Step s (.commit w) t ↔ s.alive w = true ∧ s.writable w = true ∧
      (l.fencing = true → l.majority ≤ l.quorumAtTerm s (s.curTerm w)) ∧
      t = recordCommit s w (s.curTerm w) := by
  rw [Step, mem_actions, nextState]
  by_cases hfencing : l.fencing = true <;>
    by_cases hquorum : l.majority ≤ l.quorumAtTerm s (s.curTerm w) <;>
      simp [hfencing, hquorum, @eq_comm _ t, and_assoc]

theorem step_crash_iff {i : Fin l.n} : l.Step s (.crash i) t ↔
    s.alive i = true ∧ t = { s with alive := Function.update s.alive i false } := by
  rw [Step, mem_actions, nextState, Option.some.injEq, @eq_comm _ t]

theorem step_recover_iff {i : Fin l.n} : l.Step s (.recover i) t ↔
    s.alive i = false ∧ t = { s with alive := Function.update s.alive i true } := by
  rw [Step, mem_actions, nextState, Option.some.injEq, @eq_comm _ t]

/-- The boundary prunes nothing: an election stays below it. -/
theorem withinBoundary_of_reachable (hterm : 1 ≤ l.maxTerm) (hreach : l.Reachable s) :
    l.withinBoundary s := by
  apply hreach.invariant (I := l.withinBoundary)
  · rintro _ rfl
    exact fun _ => hterm
  · intro s a t hwithin hstep
    cases a with
    | elect winner voters =>
        obtain ⟨⟨-, hlt, -, -, -⟩, rfl⟩ := step_elect_iff.mp hstep
        intro i
        change (if _ then _ else _) ≤ _
        split
        · exact hlt
        · exact hwithin i
    | commit w =>
        obtain ⟨-, -, -, rfl⟩ := step_commit_iff.mp hstep
        unfold recordCommit
        split
        · exact hwithin
        · split <;> exact hwithin
    | crash i =>
        obtain ⟨-, rfl⟩ := step_crash_iff.mp hstep
        exact hwithin
    | recover i =>
        obtain ⟨-, rfl⟩ := step_recover_iff.mp hstep
        exact hwithin

end Leadership

end PgReplica.ConsensusModel
