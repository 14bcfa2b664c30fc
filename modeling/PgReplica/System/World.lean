import Mathlib.Data.Fintype.Card
import Mathlib.Logic.Function.Basic
import PgReplica.Foundation.Counting
import PgReplica.Foundation.Run
import PgReplica.Supervisor.Gossip

/-! # Supervisors, their Postgres servers and one Raft log

The nodes of a cluster run the supervisor loop; what they propose waits until
Raft commits it, in any order or never, and every node applies the committed log
in order at its own pace. Each node's Postgres has a position in one unbroken
WAL timeline. A tick is one step here; the module `Probing` takes it apart.
-/

namespace PgReplica

open Foundation

/-- The settings that the nodes of a cluster share. -/
structure ClusterConfig where
  voters : List Nat
  pgMembers : List Peer
  synchronous : Bool
  rejoinScript : String
  passfile : String
  zero_not_voter : 0 ∉ voters
  voters_nodup : voters.Nodup
  members_nodup : (pgMembers.map Peer.id).Nodup
  voters_subset_members : voters ⊆ pgMembers.map Peer.id

namespace ClusterConfig

variable (c : ClusterConfig)

abbrev Voter : Type :=
  { id : Nat // id ∈ c.voters }

/-- The configuration of one node. -/
def config (i : c.Voter) : Config where
  nodeId := i
  voters := c.voters
  pgMembers := c.pgMembers
  synchronous := c.synchronous
  rejoinScript := c.rejoinScript
  passfile := c.passfile
  nodeId_ne_zero := fun hzero => c.zero_not_voter (hzero ▸ i.2)
  voters_nodup := c.voters_nodup
  members_nodup := c.members_nodup
  nodeId_mem_voters := i.2
  nodeId_mem_members := c.voters_subset_members i.2

/-- All nodes, in the order of the configuration. -/
def nodes : List c.Voter :=
  c.voters.attach

def majority : Nat :=
  c.voters.length / 2 + 1

def syncQuorum : Nat :=
  c.majority - 1

@[simp] theorem config_majority (i : c.Voter) : (c.config i).majority = c.majority := rfl

theorem mem_nodes (i : c.Voter) : i ∈ c.nodes :=
  List.mem_attach _ _

theorem nodup_nodes : c.nodes.Nodup :=
  List.nodup_attach.mpr c.voters_nodup

theorem length_nodes : c.nodes.length = c.voters.length :=
  List.length_attach

theorem length_nodes_lt : c.nodes.length < 2 * c.majority := by
  rw [length_nodes, majority]
  omega

end ClusterConfig

/-! ## State -/

/-- A node: its supervisor with the persisted settings, and its Postgres. -/
structure Member where
  node : Node
  inRecovery : Bool
  promoteRequested : Bool
  wal : Nat

/-- A proposed decision and the decision its leader held. -/
structure Entry where
  decision : Decision
  base : Option Decision
deriving DecidableEq

structure World (c : ClusterConfig) where
  members : c.Voter → Member
  /-- How many entries of the log a node has applied. -/
  applied : c.Voter → Nat
  log : List Entry
  pending : List Entry
  /-- The positions whose commits have been acknowledged to a client. -/
  acked : List Nat

inductive Event (c : ClusterConfig) where
  | tick (i : c.Voter) (inp : TickInput)
  | commit (k : Nat)
  | apply (i : c.Voter)
  | leaveRecovery (i : c.Voter)
  | restart (i : c.Voter) (now : Nat)
  | write (i : c.Voter)
  | ship (source target : c.Voter)
  | ack (i : c.Voter) (position : Nat)

def Event.SqlSucceeds {c : ClusterConfig} : Event c → Prop
  | .tick _ inp => inp.SqlSucceeds
  | _ => True

instance {c : ClusterConfig} : ∀ e : Event c, Decidable e.SqlSucceeds
  | .tick _ inp => inferInstanceAs (Decidable inp.SqlSucceeds)
  | .commit _ | .apply _ | .leaveRecovery _ | .restart _ _ | .write _ | .ship _ _ | .ack _ _ =>
      isTrue trivial

namespace World

variable {c : ClusterConfig} (w : World c)

/-- `SharedDecision::current` on a node. -/
def sharedDecision (i : c.Voter) : Option Decision :=
  ((w.log.take (w.applied i)).getLast?).map Entry.decision

/-- What a tick is given by its own node: the applied decision, the recovery state
of its Postgres, and gossip of voters. -/
@[mk_iff] structure Admits (i : c.Voter) (inp : TickInput) : Prop where
  currentDecision : inp.currentDecision = w.sharedDecision i
  inRecovery : inp.inRecovery = (w.members i).inRecovery
  fromVoters : ∀ m ∈ inp.received, m.sender ∈ c.voters

instance (i : c.Voter) (inp : TickInput) : Decidable (w.Admits i inp) :=
  decidable_of_iff _ (admits_iff w i inp).symm

/-- The supervisor of a node as the leader block of a tick sees it. -/
def prepared (i : c.Voter) (inp : TickInput) : Supervisor :=
  (w.members i).node.sup.prepare (c.config i) inp

def report (i : c.Voter) (inp : TickInput) : TickReport :=
  (w.members i).node.report (c.config i) inp

/-- What the tick hands to Raft. -/
def proposed (i : c.Voter) (inp : TickInput) : List Entry :=
  ((w.report i inp).proposal.map fun d => ⟨d, (w.prepared i inp).decided⟩).toList

def setMember (i : c.Voter) (m : Member) : World c :=
  { w with members := Function.update w.members i m }

/-- The node after a tick. -/
def tickedMember (i : c.Voter) (inp : TickInput) : Member :=
  { w.members i with
    node := (w.members i).node.tick (c.config i) inp
    promoteRequested := (w.members i).promoteRequested ||
      (w.report i inp).promote.any SqlOutcome.tookEffect }

def tick (i : c.Voter) (inp : TickInput) : World c :=
  { w.setMember i (w.tickedMember i inp) with pending := w.pending ++ w.proposed i inp }

/-- The node after its supervisor has been started again. -/
def restartedMember (i : c.Voter) (now : Nat) : Member :=
  { w.members i with
    node := ⟨Supervisor.start (w.sharedDecision i) now, (w.members i).node.settings⟩ }

/-- The standbys that hold a position, of those that `sync_target` names. -/
def holdingStandbys (i : c.Voter) (position : Nat) : List c.Voter :=
  c.nodes.filter fun j =>
    decide (j ≠ i) && (w.members j).inRecovery && decide (position ≤ (w.members j).wal)

/-- What an event leads to, and `none` where it cannot happen. A commit takes any
pending proposal; only a node out of recovery writes, ships and acknowledges. -/
def after : Event c → Option (World c)
  | .tick i inp => if w.Admits i inp then some (w.tick i inp) else none
  | .commit k => do
      -- also a proposal whose wait has expired, or one of an earlier leader
      let entry ← w.pending[k]?
      return { w with log := w.log ++ [entry], pending := w.pending.eraseIdx k }
  | .apply i =>
      if w.applied i < w.log.length then
        some { w with applied := Function.update w.applied i (w.applied i + 1) }
      else none
  | .leaveRecovery i =>
      if (w.members i).inRecovery = true ∧ (w.members i).promoteRequested = true then
        some (w.setMember i
          { w.members i with inRecovery := false, promoteRequested := false })
      else none
  | .restart i now => some (w.setMember i (w.restartedMember i now))
  | .write i =>
      if (w.members i).inRecovery = false ∧ (w.members i).node.settings.readOnly = false then
        some (w.setMember i { w.members i with wal := (w.members i).wal + 1 })
      else none
  | .ship source target =>
      if (w.members source).inRecovery = false ∧ (w.members target).inRecovery = true ∧
          (w.members target).wal < (w.members source).wal then
        some (w.setMember target { w.members target with wal := (w.members target).wal + 1 })
      else none
  | .ack i position =>
      -- a fence does not stop a commit that waits for its standbys
      if (w.members i).inRecovery = false ∧ position ≤ (w.members i).wal ∧
          c.syncQuorum ≤ (w.holdingStandbys i position).length then
        some { w with acked := position :: w.acked }
      else none

def Step (w : World c) (e : Event c) (w' : World c) : Prop :=
  w.after e = some w'

/-- Freshly started supervisors with nothing decided. What their servers hold, and
which of them are in recovery, is arbitrary. -/
structure Initial (w : World c) : Prop where
  started : ∀ i, ∃ now, (w.members i).node.sup = Supervisor.start none now
  promoteRequested : ∀ i, (w.members i).promoteRequested = false
  applied : ∀ i, w.applied i = 0
  log : w.log = []
  pending : w.pending = []
  acked : w.acked = []

def Reachable (w : World c) : Prop :=
  Foundation.Reachable Initial Step w

variable {w} {w' : World c}

@[simp] theorem setMember_members_self (i : c.Voter) (m : Member) :
    (w.setMember i m).members i = m := by
  simp [setMember]

theorem setMember_members_of_ne {i j : c.Voter} (hne : j ≠ i) (m : Member) :
    (w.setMember i m).members j = w.members j := by
  simp [setMember, Function.update_of_ne hne]

/-! ## What one step does -/

theorem step_tick_iff {i : c.Voter} {inp : TickInput} :
    Step w (.tick i inp) w' ↔ w.Admits i inp ∧ w' = w.tick i inp := by
  simp [Step, after, @eq_comm _ w']

theorem step_commit_iff {k : Nat} : Step w (.commit k) w' ↔ ∃ entry, w.pending[k]? = some entry ∧
    w' = { w with log := w.log ++ [entry], pending := w.pending.eraseIdx k } := by
  simp only [Step, after, Option.bind_eq_bind, Option.bind_eq_some_iff, Option.pure_def,
    Option.some.injEq, @eq_comm _ w']

theorem step_apply_iff {i : c.Voter} : Step w (.apply i) w' ↔ w.applied i < w.log.length ∧
    w' = { w with applied := Function.update w.applied i (w.applied i + 1) } := by
  simp [Step, after, @eq_comm _ w']

theorem step_leaveRecovery_iff {i : c.Voter} : Step w (.leaveRecovery i) w' ↔
    ((w.members i).inRecovery = true ∧ (w.members i).promoteRequested = true) ∧
      w' = w.setMember i
        { w.members i with inRecovery := false, promoteRequested := false } := by
  simp only [Step, after, Option.ite_none_right_eq_some, Option.some.injEq, @eq_comm _ w']

theorem step_restart_iff {i : c.Voter} {now : Nat} : Step w (.restart i now) w' ↔
    w' = w.setMember i (w.restartedMember i now) := by
  simp only [Step, after, Option.some.injEq, @eq_comm _ w']

theorem step_write_iff {i : c.Voter} : Step w (.write i) w' ↔
    ((w.members i).inRecovery = false ∧ (w.members i).node.settings.readOnly = false) ∧
      w' = w.setMember i { w.members i with wal := (w.members i).wal + 1 } := by
  simp only [Step, after, Option.ite_none_right_eq_some, Option.some.injEq, @eq_comm _ w']

theorem step_ship_iff {source target : c.Voter} : Step w (.ship source target) w' ↔
    ((w.members source).inRecovery = false ∧ (w.members target).inRecovery = true ∧
      (w.members target).wal < (w.members source).wal) ∧
      w' = w.setMember target { w.members target with wal := (w.members target).wal + 1 } := by
  simp only [Step, after, Option.ite_none_right_eq_some, Option.some.injEq, @eq_comm _ w']

theorem step_ack_iff {i : c.Voter} {position : Nat} : Step w (.ack i position) w' ↔
    ((w.members i).inRecovery = false ∧ position ≤ (w.members i).wal ∧
      c.syncQuorum ≤ (w.holdingStandbys i position).length) ∧
      w' = { w with acked := position :: w.acked } := by
  simp only [Step, after, Option.ite_none_right_eq_some, Option.some.injEq, @eq_comm _ w']

/-- What an event does to one node. -/
inductive MemberStep (w : World c) (e : Event c) (i : c.Voter) (m : Member) : Prop
  | ticked (inp : TickInput) (hevent : e = .tick i inp) (hadmits : w.Admits i inp)
      (hmember : m = w.tickedMember i inp)
  | restarted (now : Nat) (hevent : e = .restart i now) (hmember : m = w.restartedMember i now)
  | left (hrecovery : (w.members i).inRecovery = true)
      (hrequested : (w.members i).promoteRequested = true)
      (hmember : m = { w.members i with inRecovery := false, promoteRequested := false })
      (htick : ∀ inp, e ≠ .tick i inp) (hrestart : ∀ now, e ≠ .restart i now)
  | kept (hnode : m.node = (w.members i).node)
      (hrecovery : m.inRecovery = (w.members i).inRecovery)
      (hrequested : m.promoteRequested = (w.members i).promoteRequested)
      (hwal : (w.members i).wal ≤ m.wal)
      (htick : ∀ inp, e ≠ .tick i inp) (hrestart : ∀ now, e ≠ .restart i now)

/-- An event that concerns another node. -/
theorem MemberStep.of_eq {e : Event c} {i : c.Voter} (htick : ∀ inp, e ≠ .tick i inp)
    (hrestart : ∀ now, e ≠ .restart i now) : MemberStep w e i (w.members i) :=
  .kept rfl rfl rfl le_rfl htick hrestart

theorem memberStep_of_step {e : Event c} (hstep : Step w e w') (j : c.Voter) :
    MemberStep w e j (w'.members j) := by
  cases e with
  | tick i inp =>
      obtain ⟨hadmits, rfl⟩ := step_tick_iff.mp hstep
      change MemberStep w _ j ((w.setMember i _).members j)
      by_cases heq : j = i
      · subst heq
        rw [setMember_members_self]
        exact .ticked inp rfl hadmits rfl
      · rw [setMember_members_of_ne heq]
        exact .of_eq (fun _ h => by cases h; exact heq rfl) (by simp)
  | restart i now =>
      obtain rfl := step_restart_iff.mp hstep
      by_cases heq : j = i
      · subst heq
        rw [setMember_members_self]
        exact .restarted now rfl rfl
      · rw [setMember_members_of_ne heq]
        exact .of_eq (by simp) fun _ h => by cases h; exact heq rfl
  | leaveRecovery i =>
      obtain ⟨⟨hrecovery, hrequested⟩, rfl⟩ := step_leaveRecovery_iff.mp hstep
      by_cases heq : j = i
      · subst heq
        rw [setMember_members_self]
        exact .left hrecovery hrequested rfl (by simp) (by simp)
      · rw [setMember_members_of_ne heq]
        exact .of_eq (by simp) (by simp)
  | write i =>
      obtain ⟨-, rfl⟩ := step_write_iff.mp hstep
      by_cases heq : j = i
      · subst heq
        rw [setMember_members_self]
        exact .kept rfl rfl rfl (Nat.le_succ _) (by simp) (by simp)
      · rw [setMember_members_of_ne heq]
        exact .of_eq (by simp) (by simp)
  | ship source target =>
      obtain ⟨-, rfl⟩ := step_ship_iff.mp hstep
      by_cases heq : j = target
      · subst heq
        rw [setMember_members_self]
        exact .kept rfl rfl rfl (Nat.le_succ _) (by simp) (by simp)
      · rw [setMember_members_of_ne heq]
        exact .of_eq (by simp) (by simp)
  | commit k =>
      obtain ⟨entry, -, rfl⟩ := step_commit_iff.mp hstep
      exact .of_eq (by simp) (by simp)
  | apply i =>
      obtain ⟨-, rfl⟩ := step_apply_iff.mp hstep
      exact .of_eq (by simp) (by simp)
  | ack i position =>
      obtain ⟨-, rfl⟩ := step_ack_iff.mp hstep
      exact .of_eq (by simp) (by simp)

/-- What an event does to the log, to what is pending, and to how far each node has
applied the log. -/
inductive LogStep (w : World c) (e : Event c) (w' : World c) : Prop
  | proposed (i : c.Voter) (inp : TickInput) (hevent : e = .tick i inp)
      (hadmits : w.Admits i inp) (hlog : w'.log = w.log) (happlied : w'.applied = w.applied)
      (hpending : w'.pending = w.pending ++ w.proposed i inp)
  | committed (k : Nat) (entry : Entry) (hentry : w.pending[k]? = some entry)
      (hlog : w'.log = w.log ++ [entry]) (happlied : w'.applied = w.applied)
      (hpending : w'.pending = w.pending.eraseIdx k)
  | applied (i : c.Voter) (hlt : w.applied i < w.log.length) (hlog : w'.log = w.log)
      (happlied : w'.applied = Function.update w.applied i (w.applied i + 1))
      (hpending : w'.pending = w.pending)
  | kept (hlog : w'.log = w.log) (happlied : w'.applied = w.applied)
      (hpending : w'.pending = w.pending)

theorem logStep_of_step {e : Event c} (hstep : Step w e w') : LogStep w e w' := by
  cases e with
  | tick i inp =>
      obtain ⟨hadmits, rfl⟩ := step_tick_iff.mp hstep
      exact .proposed i inp rfl hadmits rfl rfl rfl
  | commit k =>
      obtain ⟨entry, hentry, rfl⟩ := step_commit_iff.mp hstep
      exact .committed k entry hentry rfl rfl rfl
  | apply i =>
      obtain ⟨hlt, rfl⟩ := step_apply_iff.mp hstep
      exact .applied i hlt rfl rfl rfl
  | leaveRecovery i =>
      obtain ⟨-, rfl⟩ := step_leaveRecovery_iff.mp hstep
      exact .kept rfl rfl rfl
  | restart i now =>
      obtain rfl := step_restart_iff.mp hstep
      exact .kept rfl rfl rfl
  | write i =>
      obtain ⟨-, rfl⟩ := step_write_iff.mp hstep
      exact .kept rfl rfl rfl
  | ship source target =>
      obtain ⟨-, rfl⟩ := step_ship_iff.mp hstep
      exact .kept rfl rfl rfl
  | ack i position =>
      obtain ⟨-, rfl⟩ := step_ack_iff.mp hstep
      exact .kept rfl rfl rfl

/-! ## The applied decision -/

/-- No node has applied more than the log. -/
def AppliedLe (w : World c) : Prop :=
  ∀ i, w.applied i ≤ w.log.length

theorem Initial.appliedLe (hinit : w.Initial) : w.AppliedLe := by
  intro i
  rw [hinit.applied i]
  exact Nat.zero_le _

theorem AppliedLe.step {e : Event c} (happliedLe : w.AppliedLe) (hstep : Step w e w') :
    w'.AppliedLe := by
  intro j
  have hj := happliedLe j
  cases logStep_of_step hstep with
  | proposed i inp hevent hadmits hlog happlied => rwa [hlog, happlied]
  | committed k entry hentry hlog happlied =>
      rw [hlog, happlied, List.length_append]
      omega
  | applied i hlt hlog happlied =>
      rw [hlog, happlied]
      by_cases heq : j = i
      · subst heq
        rw [Function.update_self]
        omega
      · rwa [Function.update_of_ne heq]
  | kept hlog happlied => rwa [hlog, happlied]

/-- A node's decision after an event is the one it had, or the entry it has applied. -/
theorem sharedDecision_of_step {e : Event c} (happliedLe : w.AppliedLe) (hstep : Step w e w')
    (j : c.Voter) : w'.sharedDecision j = w.sharedDecision j ∨
      ∃ entry ∈ w.log.drop (w.applied j), w'.sharedDecision j = some entry.decision := by
  rw [sharedDecision, sharedDecision]
  cases logStep_of_step hstep with
  | proposed i inp hevent hadmits hlog happlied => exact Or.inl (by rw [hlog, happlied])
  | committed k entry hentry hlog happlied =>
      exact Or.inl (by rw [hlog, happlied, List.take_append_of_le_length (happliedLe j)])
  | applied i hlt hlog happlied =>
      rw [hlog, happlied]
      by_cases heq : j = i
      · subst heq
        refine Or.inr ⟨w.log[w.applied j], ?_, ?_⟩
        · rw [List.drop_eq_getElem_cons hlt]
          exact List.mem_cons_self
        · rw [Function.update_self, List.take_add_one, List.getElem?_eq_getElem hlt,
            Option.toList_some, List.getLast?_concat, Option.map_some]
      · exact Or.inl (by rw [Function.update_of_ne heq])
  | kept hlog happlied => exact Or.inl (by rw [hlog, happlied])

/-- What a node has not applied after an event was unapplied before or pending. -/
theorem mem_unapplied_of_step {e : Event c} (happliedLe : w.AppliedLe) (hstep : Step w e w')
    {j : c.Voter} {entry : Entry} (hmem : entry ∈ w'.log.drop (w'.applied j)) :
    entry ∈ w.log.drop (w.applied j) ∨ entry ∈ w.pending := by
  cases logStep_of_step hstep with
  | proposed i inp hevent hadmits hlog happlied => exact Or.inl (by rwa [hlog, happlied] at hmem)
  | committed k committed hentry hlog happlied =>
      rw [hlog, happlied, List.drop_append_of_le_length (happliedLe j)] at hmem
      rcases List.mem_append.mp hmem with hold | hnew
      · exact Or.inl hold
      · rw [List.mem_singleton.mp hnew]
        exact Or.inr (List.mem_of_getElem? hentry)
  | applied i hlt hlog happlied =>
      rw [hlog, happlied] at hmem
      by_cases heq : j = i
      · subst heq
        rw [Function.update_self] at hmem
        exact Or.inl ((List.drop_sublist_drop_left _ (Nat.le_succ _)).subset hmem)
      · rw [Function.update_of_ne heq] at hmem
        exact Or.inl hmem
  | kept hlog happlied => exact Or.inl (by rwa [hlog, happlied] at hmem)

/-- What is pending after an event was pending before or proposed by this tick. -/
theorem mem_pending_of_step {e : Event c} (hstep : Step w e w') {entry : Entry}
    (hmem : entry ∈ w'.pending) : entry ∈ w.pending ∨
      ∃ i inp, e = .tick i inp ∧ w.Admits i inp ∧ entry ∈ w.proposed i inp := by
  cases logStep_of_step hstep with
  | proposed i inp hevent hadmits hlog happlied hpending =>
      rw [hpending] at hmem
      exact (List.mem_append.mp hmem).imp_right fun hnew => ⟨i, inp, hevent, hadmits, hnew⟩
  | committed k committed hentry hlog happlied hpending =>
      rw [hpending] at hmem
      exact Or.inl ((List.eraseIdx_sublist _ _).subset hmem)
  | applied i hlt hlog happlied hpending => exact Or.inl (by rwa [hpending] at hmem)
  | kept hlog happlied hpending => exact Or.inl (by rwa [hpending] at hmem)

/-! ## The decision of a tick -/

/-- The decision that a tick acts under was held or is the one it has read. -/
theorem prepared_decided_eq_held_or (i : c.Voter) (inp : TickInput) :
    (w.prepared i inp).decided = (w.members i).node.sup.decided ∨
      (w.prepared i inp).decided = inp.currentDecision := by
  change (if _ then _ else _) = _ ∨ (if _ then _ else _) = _
  split
  · exact Or.inr rfl
  · exact Or.inl rfl

/-- The decision that a tick acts under was held or is the applied one. -/
theorem prepared_decided_eq_or {i : c.Voter} {inp : TickInput} (hadmits : w.Admits i inp) :
    (w.prepared i inp).decided = (w.members i).node.sup.decided ∨
      (w.prepared i inp).decided = w.sharedDecision i := by
  rw [← hadmits.currentDecision]
  exact prepared_decided_eq_held_or i inp

/-- What a node holds after an event it held before or had applied. -/
theorem decided_of_step {e : Event c} (hstep : Step w e w') (j : c.Voter) :
    (w'.members j).node.sup.decided = (w.members j).node.sup.decided ∨
      (w'.members j).node.sup.decided = w.sharedDecision j := by
  cases memberStep_of_step hstep j with
  | ticked inp hevent hadmits hmember =>
      rw [hmember, tickedMember, Node.tick_decided]
      exact prepared_decided_eq_or hadmits
  | restarted now hevent hmember =>
      rw [hmember]
      exact Or.inr rfl
  | left hrecovery hrequested hmember =>
      rw [hmember]
      exact Or.inl rfl
  | kept hnode => exact Or.inl (by rw [hnode])

/-! ## Concrete runs -/

theorem exists_reachable_of_any {events : List (Event c)} {p : World c → Bool}
    (hinit : w.Initial) (heval : (events.foldlM after w).any p = true) :
    ∃ w', w'.Reachable ∧ p w' = true := by
  obtain ⟨w', hfold, hend⟩ := (Option.any_eq_true _ _).mp heval
  exact ⟨w', ⟨w, events, hinit, Run.of_foldlM hfold⟩, hend⟩

/-- Freshly started nodes of which only `primary` is out of recovery. -/
def fresh (c : ClusterConfig) (primary : c.Voter) : World c where
  members i := ⟨⟨Supervisor.start none 0, ⟨false, "", ""⟩⟩, decide (i ≠ primary), false, 0⟩
  applied _ := 0
  log := []
  pending := []
  acked := []

theorem initial_fresh (primary : c.Voter) : (fresh c primary).Initial :=
  ⟨fun _ => ⟨0, rfl⟩, fun _ => rfl, fun _ => rfl, rfl, rfl, rfl⟩

end World

/-- Nodes 1 to 5 with quorum sync on. -/
def fiveNodes : ClusterConfig where
  voters := [1, 2, 3, 4, 5]
  pgMembers := [⟨1, "node1:5432"⟩, ⟨2, "node2:5432"⟩, ⟨3, "node3:5432"⟩, ⟨4, "node4:5432"⟩,
    ⟨5, "node5:5432"⟩]
  synchronous := true
  rejoinScript := ""
  passfile := ""
  zero_not_voter := by decide
  voters_nodup := by decide
  members_nodup := by decide
  voters_subset_members := by decide

/-- Node `id` of the five. -/
def five (id : Nat) : fiveNodes.Voter :=
  if hid : id ∈ fiveNodes.voters then ⟨id, hid⟩ else ⟨1, by decide⟩

/-- The cluster of `Config.threeNodes`. -/
def threeNodes : ClusterConfig where
  voters := [1, 2, 3]
  pgMembers := [⟨1, "node1:5432"⟩, ⟨2, "node2:5432"⟩, ⟨3, "node3:5432"⟩]
  synchronous := true
  rejoinScript := ""
  passfile := ""
  zero_not_voter := by decide
  voters_nodup := (Config.threeNodes 1 List.mem_cons_self).voters_nodup
  members_nodup := (Config.threeNodes 1 List.mem_cons_self).members_nodup
  voters_subset_members := by decide

/-- Node `id` of the three. -/
def three (id : Nat) : threeNodes.Voter :=
  if hid : id ∈ threeNodes.voters then ⟨id, hid⟩ else ⟨1, by decide⟩

/-- Every probe of the tick answers with the positions of `wal`. -/
def TickInput.probing (inp : TickInput) (i : Nat) (wal : Nat → Nat) : TickInput :=
  { inp with walLsn := wal i, peerWalLsn := fun id => some (wal id) }

end PgReplica
