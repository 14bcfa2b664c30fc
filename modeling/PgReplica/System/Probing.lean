import PgReplica.Supervisor.Leader
import PgReplica.System.World

/-! # Ticks that take their time

A leader measures each live node at a moment of its own and proposes at the end, with
what it read at the beginning. In between the other nodes go on. Here a tick begins,
its probes are answered, and it ends, in separate steps; a tick of `World` is the
case that nothing happens in between.

From its proposal on a tick is one step. What others do between the proposal and the
commands behind it, they can as well do after them, and what the node itself writes
then it can write before.
-/

namespace PgReplica

open Foundation

/-- A tick that has read the applied decision and whether its server is in recovery,
and what its probes have answered so far. -/
structure BegunTick (c : ClusterConfig) where
  currentDecision : Option Decision
  inRecovery : Bool
  answers : c.Voter → Option Nat

/-- What a tick of node `i` takes for the answer of a node. -/
def TickInput.told {c : ClusterConfig} (inp : TickInput) (i target : c.Voter) : Option Nat :=
  if target = i then some inp.walLsn else inp.peerWalLsn target

namespace BegunTick

variable {c : ClusterConfig}

def measure (t : BegunTick c) (target : c.Voter) (position : Nat) : BegunTick c :=
  { t with answers := Function.update t.answers target (some position) }

/-- The tick goes on with what it has read. -/
@[mk_iff] structure Admits (t : BegunTick c) (inp : TickInput) : Prop where
  currentDecision : inp.currentDecision = t.currentDecision
  inRecovery : inp.inRecovery = t.inRecovery
  fromVoters : ∀ m ∈ inp.received, m.sender ∈ c.voters

instance (t : BegunTick c) (inp : TickInput) : Decidable (t.Admits inp) :=
  decidable_of_iff _ (admits_iff t inp).symm

end BegunTick

structure ProbingWorld (c : ClusterConfig) where
  world : World c
  begun : c.Voter → Option (BegunTick c)

inductive ProbingEvent (c : ClusterConfig) where
  | beginTick (i : c.Voter)
  | probe (i target : c.Voter)
  | endTick (i : c.Voter) (inp : TickInput)
  | between (e : Event c)

def ProbingEvent.SqlSucceeds {c : ClusterConfig} : ProbingEvent c → Prop
  | .endTick _ inp => inp.SqlSucceeds
  | _ => True

instance {c : ClusterConfig} : ∀ e : ProbingEvent c, Decidable e.SqlSucceeds
  | .endTick _ inp => inferInstanceAs (Decidable inp.SqlSucceeds)
  | .beginTick _ | .probe _ _ | .between _ => isTrue trivial

def Event.isTick {c : ClusterConfig} : Event c → Bool
  | .tick .. => true
  | _ => false

namespace ProbingWorld

variable {c : ClusterConfig} (pw : ProbingWorld c)

/-- No tick is under way. -/
def idle (w : World c) : ProbingWorld c :=
  ⟨w, fun _ => none⟩

def setBegun (i : c.Voter) (t : Option (BegunTick c)) : ProbingWorld c :=
  { pw with begun := Function.update pw.begun i t }

/-- What a tick that begins now reads. -/
def reads (i : c.Voter) : BegunTick c where
  currentDecision := pw.world.sharedDecision i
  inRecovery := (pw.world.members i).inRecovery
  answers := fun _ => none

/-- A restart of its supervisor ends a tick. -/
def begunAfter : Event c → c.Voter → Option (BegunTick c)
  | .restart i _ => Function.update pw.begun i none
  | _ => pw.begun

/-- A tick measures each node at most once. -/
def after : ProbingEvent c → Option (ProbingWorld c)
  | .beginTick i =>
      if (pw.begun i).isNone then some (pw.setBegun i (some (pw.reads i))) else none
  | .probe i target => do
      let t ← pw.begun i
      if (t.answers target).isNone then
        some (pw.setBegun i (some (t.measure target (pw.world.members target).wal)))
      else none
  | .endTick i inp => do
      let t ← pw.begun i
      if t.Admits inp then some { pw.setBegun i none with world := pw.world.tick i inp } else none
  | .between e =>
      if e.isTick then none else (pw.world.after e).map fun w => ⟨w, pw.begunAfter e⟩

def Step (pw : ProbingWorld c) (e : ProbingEvent c) (pw' : ProbingWorld c) : Prop :=
  pw.after e = some pw'

/-- No tick is under way in a cluster that starts. -/
def Initial (pw : ProbingWorld c) : Prop :=
  pw.world.Initial ∧ ∀ i, pw.begun i = none

/-- Every probe that a tick made was answered, and the tick goes by the answers. Gossip
that reports a node out of recovery is true. A node never re-enters recovery. -/
@[mk_iff] structure Truthful (t : BegunTick c) (i : c.Voter) (inp : TickInput) : Prop where
  answered : (pw.world.prepared i inp).measuresLive (c.config i) inp = true →
    ∀ j : c.Voter, ↑j ∈ ((pw.world.prepared i inp).live (c.config i) inp.leaderNow).map
      Candidate.id → (t.answers j).isSome = true ∧ inp.told i j = t.answers j
  inRecovery : ∀ m ∈ inp.received, ∀ gossip ∈ decodeGossip m.payload,
    gossip.inRecovery = false →
      ∀ j : c.Voter, j = m.sender → (pw.world.members j).inRecovery = false

instance (t : BegunTick c) (i : c.Voter) (inp : TickInput) : Decidable (pw.Truthful t i inp) :=
  decidable_of_iff _ (truthful_iff pw t i inp).symm

def TruthfulStep : ProbingEvent c → Prop
  | .endTick i inp => ∀ t ∈ pw.begun i, pw.Truthful t i inp
  | _ => True

instance : ∀ e, Decidable (pw.TruthfulStep e)
  | .endTick i inp => inferInstanceAs (Decidable (∀ t ∈ pw.begun i, pw.Truthful t i inp))
  | .beginTick _ | .probe _ _ | .between _ => isTrue trivial

variable {pw} {pw' : ProbingWorld c}

/-! ## What one step does -/

theorem step_beginTick_iff {i : c.Voter} : Step pw (.beginTick i) pw' ↔
    pw.begun i = none ∧ pw' = pw.setBegun i (some (pw.reads i)) := by
  simp [Step, after, Option.ite_none_right_eq_some, @eq_comm _ pw']

theorem step_probe_iff {i target : c.Voter} : Step pw (.probe i target) pw' ↔
    ∃ t, pw.begun i = some t ∧ t.answers target = none ∧
      pw' = pw.setBegun i (some (t.measure target (pw.world.members target).wal)) := by
  simp [Step, after, Option.bind_eq_some_iff, Option.ite_none_right_eq_some, @eq_comm _ pw']

theorem step_endTick_iff {i : c.Voter} {inp : TickInput} : Step pw (.endTick i inp) pw' ↔
    ∃ t, pw.begun i = some t ∧ t.Admits inp ∧
      pw' = { pw.setBegun i none with world := pw.world.tick i inp } := by
  simp [Step, after, Option.bind_eq_some_iff, Option.ite_none_right_eq_some, @eq_comm _ pw']

theorem step_between_iff {e : Event c} : Step pw (.between e) pw' ↔
    e.isTick = false ∧ ∃ w, World.Step pw.world e w ∧ pw' = ⟨w, pw.begunAfter e⟩ := by
  simp [Step, World.Step, after, Option.ite_none_left_eq_some, @eq_comm _ pw']

theorem begun_of_setBegun {i j : c.Voter} {t : Option (BegunTick c)} {t' : BegunTick c}
    (hbegun : (pw.setBegun i t).begun j = some t') :
    j = i ∧ t = some t' ∨ pw.begun j = some t' := by
  change Function.update pw.begun i t j = some t' at hbegun
  by_cases heq : j = i
  · rw [heq, Function.update_self] at hbegun
    exact Or.inl ⟨heq, hbegun⟩
  · rw [Function.update_of_ne heq] at hbegun
    exact Or.inr hbegun

theorem begun_of_begunAfter {e : Event c} {i : c.Voter} {t : BegunTick c}
    (hbegun : pw.begunAfter e i = some t) : pw.begun i = some t := by
  cases e with
  | restart j now =>
      change (pw.setBegun j none).begun i = some t at hbegun
      rcases begun_of_setBegun hbegun with ⟨-, hself⟩ | hother
      · cases hself
      · exact hother
  | tick | commit | apply | leaveRecovery | write | ship | ack => exact hbegun

/-! ## Ticks that nothing interrupts -/

/-- A tick of the world measures everybody before anything else happens. -/
def uninterrupted : Event c → List (ProbingEvent c)
  | .tick i inp => .beginTick i :: c.nodes.map (.probe i) ++ [.endTick i inp]
  | e => [.between e]

theorem setBegun_self {i : c.Voter} {t : BegunTick c} (hbegun : pw.begun i = some t) :
    pw.setBegun i (some t) = pw := by
  rw [setBegun, ← hbegun, Function.update_eq_self]

@[simp] theorem setBegun_setBegun (i : c.Voter) (t t' : Option (BegunTick c)) :
    (pw.setBegun i t).setBegun i t' = pw.setBegun i t' := by
  simp [setBegun]

@[simp] theorem setBegun_begun_self (i : c.Voter) (t : Option (BegunTick c)) :
    (pw.setBegun i t).begun i = t := by
  simp [setBegun]

/-- Probes of nodes that the tick has not measured yet. -/
theorem exists_run_of_probes {i : c.Voter} {targets : List c.Voter} (hnodup : targets.Nodup)
    {t : BegunTick c} (hbegun : pw.begun i = some t) (hnew : ∀ j ∈ targets, t.answers j = none) :
    ∃ t', Run Step pw (targets.map (.probe i)) (pw.setBegun i (some t')) ∧
      t'.currentDecision = t.currentDecision ∧ t'.inRecovery = t.inRecovery := by
  induction targets generalizing pw t with
  | nil => exact ⟨t, Run.nil_iff.mpr (setBegun_self hbegun).symm, rfl, rfl⟩
  | cons target rest ih =>
      obtain ⟨hnot, hrest⟩ := List.nodup_cons.mp hnodup
      let measured := t.measure target (pw.world.members target).wal
      have hstep : Step pw (.probe i target) (pw.setBegun i (some measured)) :=
        step_probe_iff.mpr ⟨t, hbegun, hnew target List.mem_cons_self, rfl⟩
      have hothers : ∀ j ∈ rest, measured.answers j = none := by
        intro j hj
        change Function.update t.answers target _ j = none
        rw [Function.update_of_ne (ne_of_mem_of_not_mem hj hnot)]
        exact hnew j (List.mem_cons_of_mem target hj)
      have hmeasured : (pw.setBegun i (some measured)).begun i = some measured :=
        setBegun_begun_self i _
      obtain ⟨t', hrun, hdecision, hrecovery⟩ := ih hrest hmeasured hothers
      rw [setBegun_setBegun] at hrun
      exact ⟨t', .cons hstep hrun, hdecision, hrecovery⟩

theorem run_of_step {w w' : World c} {e : Event c} (hstep : World.Step w e w') :
    Run Step (idle w) (uninterrupted e) (idle w') := by
  cases e with
  | tick i inp =>
      obtain ⟨hadmits, rfl⟩ := World.step_tick_iff.mp hstep
      let begun := (idle w).setBegun i (some ((idle w).reads i))
      have hbegin : Step (idle w) (.beginTick i) begun := step_beginTick_iff.mpr ⟨rfl, rfl⟩
      have hreads : begun.begun i = some ((idle w).reads i) := setBegun_begun_self i _
      obtain ⟨t, hprobes, hdecision, hrecovery⟩ :=
        exists_run_of_probes c.nodup_nodes hreads fun _ _ => rfl
      rw [setBegun_setBegun] at hprobes
      have hend : Step ((idle w).setBegun i (some t)) (.endTick i inp) (idle (w.tick i inp)) := by
        refine step_endTick_iff.mpr ⟨t, setBegun_begun_self i _, ⟨?_, ?_, hadmits.fromVoters⟩, ?_⟩
        · exact hadmits.currentDecision.trans hdecision.symm
        · exact hadmits.inRecovery.trans hrecovery.symm
        · simp [idle, setBegun]
      exact .cons hbegin (hprobes.append (.single hend))
  | restart i now =>
      refine .single (step_between_iff.mpr ⟨rfl, w', hstep, ?_⟩)
      simp [idle, begunAfter]
  | commit | apply | leaveRecovery | write | ship | ack =>
      exact .single (step_between_iff.mpr ⟨rfl, w', hstep, rfl⟩)

/-- Every run of the world is one in which no tick is interrupted. -/
theorem run_of_world {w w' : World c} {events : List (Event c)}
    (hrun : Run World.Step w events w') :
    Run Step (idle w) (events.flatMap uninterrupted) (idle w') := by
  induction hrun with
  | nil w => exact .nil _
  | cons hstep _ ih => exact (run_of_step hstep).append ih

end ProbingWorld

end PgReplica
