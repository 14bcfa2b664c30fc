import Mathlib.Algebra.Order.BigOperators.Group.List
import PgReplica.Supervisor.Pacing
import PgReplica.System.DecisionLog

/-! # What a majority can decide

The nodes of a majority hear each other, their commands succeed and no one is started
again. Whatever has happened before, they can come to a new decision that names one of
them, if something was decided earlier or one of them is out of recovery.
-/

namespace PgReplica

open Foundation

/-- What a node that has applied all of the log follows. -/
def lastDecision (log : List Entry) : Option Decision :=
  log.getLast?.map Entry.decision

namespace World

variable {c : ClusterConfig} (w : World c) (Q : List c.Voter)

/-! ## Undisturbed survivors -/

def gossipOf (now : Nat) (j : c.Voter) : Received :=
  let m := w.members j
  ⟨j, encodeGossip m.wal m.inRecovery m.node.sup.reconfirmPending m.node.sup.decidedSeq, now, now⟩

/-- A tick at one instant. The node hears the others of `Q` and reaches them with its
probes, and every command succeeds. -/
def survivorInput (i : c.Voter) (now : Nat) (leads : Bool) : TickInput :=
  { TickInput.plain now ((Q.filter fun j => decide (j ≠ i)).map (w.gossipOf now))
      (w.sharedDecision i) with
    inRecovery := (w.members i).inRecovery
    localWalLsn := (w.members i).wal
    isLeader := leads
    walLsn := (w.members i).wal
    peerWalLsn := fun id =>
      (Q.find? fun j : c.Voter => decide (j.val = id)).map fun j => (w.members j).wal }

/-- Only nodes of `Q` take part, and no time goes back. -/
def Undisturbed : Event c → Prop
  | .tick i inp => i ∈ Q ∧ ∃ now leads, (w.members i).node.sup.lastLoop ≤ now ∧
      inp = w.survivorInput Q i now leads
  | .commit _ => True
  | .apply i | .leaveRecovery i => i ∈ Q
  | .restart _ _ | .write _ | .ship _ _ | .ack _ _ => False

/-- An event of the survivors. -/
def SurvivorStep (w : World c) (e : Event c) (w' : World c) : Prop :=
  Step w e w' ∧ w.Undisturbed Q e

/-- The survivors can come from one state to the other. -/
def Leads (w w' : World c) : Prop :=
  ∃ labels, Run (SurvivorStep Q) w labels w'

variable {w Q} {w' w'' : World c} {i j : c.Voter}

theorem Leads.refl (w : World c) : Leads Q w w :=
  ⟨[], .nil w⟩

theorem Leads.trans (hfirst : Leads Q w w') (hsecond : Leads Q w' w'') : Leads Q w w'' := by
  obtain ⟨first, hfirst⟩ := hfirst
  obtain ⟨second, hsecond⟩ := hsecond
  exact ⟨first ++ second, hfirst.append hsecond⟩

theorem Leads.step {e : Event c} (hstep : Step w e w') (hundisturbed : w.Undisturbed Q e) :
    Leads Q w w' :=
  ⟨[e], .single ⟨hstep, hundisturbed⟩⟩

theorem tick_members_self (i : c.Voter) (inp : TickInput) :
    (w.tick i inp).members i = w.tickedMember i inp :=
  setMember_members_self ..

theorem tick_members_of_ne {j : c.Voter} (hne : j ≠ i) (inp : TickInput) :
    (w.tick i inp).members j = w.members j :=
  setMember_members_of_ne hne _

/-! ## Waiting -/

/-- What a tick without leadership leaves as it is. -/
structure Waited (w w' : World c) (i : c.Voter) : Prop where
  log : w'.log = w.log
  applied : w'.applied = w.applied
  pending : w'.pending = w.pending
  members : ∀ j, j ≠ i → w'.members j = w.members j
  inRecovery : (w'.members i).inRecovery = (w.members i).inRecovery

theorem Waited.sharedDecision (hwaited : Waited w w' i) (j : c.Voter) :
    w'.sharedDecision j = w.sharedDecision j := by
  rw [World.sharedDecision, World.sharedDecision, hwaited.log, hwaited.applied]

theorem Waited.trans (hfirst : Waited w w' i) (hsecond : Waited w' w'' i) : Waited w w'' i where
  log := hsecond.log.trans hfirst.log
  applied := hsecond.applied.trans hfirst.applied
  pending := hsecond.pending.trans hfirst.pending
  members := fun j hne => (hsecond.members j hne).trans (hfirst.members j hne)
  inRecovery := hsecond.inRecovery.trans hfirst.inRecovery

/-- The node follows what it has applied. -/
def Follows (w : World c) (i : c.Voter) : Prop :=
  (w.members i).node.sup.decisionChanged (w.sharedDecision i) = false

theorem decisionChanged_eq_false_iff {s : Supervisor} {current : Option Decision} :
    s.decisionChanged current = false ↔ ∀ d, current = some d → s.decided = some d := by
  cases current with
  | none => simp [Supervisor.decisionChanged]
  | some d => simp [Supervisor.decisionChanged]

theorem inRecovery_of_decodeGossip {lsn seq : Nat} {inRecovery reconfirm : Bool} {gossip : Gossip}
    (hdecode : decodeGossip (encodeGossip lsn inRecovery reconfirm seq) = some gossip) :
    gossip.inRecovery = inRecovery := by
  rw [decodeGossip, if_neg (by rw [length_encodeGossip]; omega)] at hdecode
  obtain rfl := Option.some.inj hdecode
  have hrecovery : (encodeGossip lsn inRecovery reconfirm seq).getD 8 0 = boolByte inRecovery := by
    simp [encodeGossip, List.getD_eq_getElem?_getD]
  rw [hrecovery, boolByte_ne_zero]

section Proposal

variable {s : Supervisor} {cfg : Config} {inp : TickInput} (hleader : inp.isLeader = true)
  (hmajority : cfg.majority ≤ (s.live cfg inp.leaderNow).length)
  (hflight : s.inFlight (s.decidedSeq + 1) = false)

end Proposal

section Election

variable (now : Nat) (leads : Bool) (hi : i ∈ Q)
  (hstale : ∀ id entry, (w.members i).node.sup.peers.peersLsn.lookup id = some entry →
    entry.seen + deadTimeout ≤ now)
  (hown : ((w.members i).node.sup.ticks + 1) % gossipEvery = 0)

end Election

/-- Right after an election: a new entry, which no node has applied, names a survivor. -/
structure Elected (Q : List c.Voter) (log : List Entry) (w : World c) (j : c.Voter) : Prop where
  mem : j ∈ Q
  grown : ∃ e, w.log = log ++ [e] ∧ e.decision.primary = (j : Nat) ∧
    e.decision.seq = ((lastDecision log).map Decision.seq).getD 0 + 1
  applied : ∀ i, w.applied i ≤ log.length
  held : ∀ i, Known log (w.members i).node.sup.decided

end World

end PgReplica
