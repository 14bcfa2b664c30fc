import PgReplica.System.Consistency

/-! # Gossip on one clock

The nodes of a world with one clock in milliseconds. A broadcast is on its way to
each of the other nodes until it reaches the receiver's channel, and the next tick
of the receiver drains the channel. A tick happens at one instant.
-/

namespace PgReplica

open Foundation

/-- A gossip message from one node to another. -/
structure Mail (c : ClusterConfig) where
  source : c.Voter
  target : c.Voter
  payload : List UInt8
  sentAt : Nat

/-- A drained message is stamped when it is drained. -/
def Mail.drainedAt {c : ClusterConfig} (mail : Mail c) (now : Nat) : Received :=
  ⟨mail.source, mail.payload, now, now⟩

/-- All clock readings of a tick agree. -/
@[mk_iff] structure TickInput.AtInstant (inp : TickInput) (now : Nat) : Prop where
  loopNow : inp.loopNow = now
  storedAt : inp.storedAt = now
  leaderNow : inp.leaderNow = now
  contactNow : inp.contactNow = now
  sinceNow : inp.sinceNow = now
  windowNow : inp.windowNow = now

instance (inp : TickInput) (now : Nat) : Decidable (inp.AtInstant now) :=
  decidable_of_iff _ (TickInput.atInstant_iff inp now).symm

structure Network (c : ClusterConfig) where
  world : World c
  clock : Nat
  inFlight : List (Mail c)
  inbox : c.Voter → List (Mail c)

inductive Action (c : ClusterConfig) where
  | deliver (k : Nat)
  | node (e : Event c)

/-- The action starts a supervisor again. -/
def Action.restarts {c : ClusterConfig} : Action c → Bool
  | .node (.restart _ _) => true
  | _ => false

structure TimedAction (c : ClusterConfig) where
  time : Nat
  action : Action c

namespace Network

variable {c : ClusterConfig} (n : Network c)

def member (i : c.Voter) : Member :=
  n.world.members i

def sup (i : c.Voter) : Supervisor :=
  (n.member i).node.sup

/-- A tick happens at one instant, drains the channel, and its commands succeed. -/
def Punctual (now : Nat) : Event c → Prop
  | .tick i inp => inp.AtInstant now ∧ inp.SqlSucceeds ∧
      inp.received = (n.inbox i).map (·.drainedAt now)
  | .restart _ start => start = now
  | _ => True

/-- What a tick sends to the other nodes. -/
def broadcasts (now : Nat) : Event c → List (Mail c)
  | .tick i inp => (n.world.report i inp).broadcast.toList.flatMap fun payload =>
      (c.nodes.filter fun j => decide (j ≠ i)).map fun j => ⟨i, j, payload, now⟩
  | _ => []

/-- The channels after an event. A tick drains its own, and a restart loses it. -/
def channels : Event c → c.Voter → List (Mail c)
  | .tick i _ => Function.update n.inbox i []
  | .restart i _ => Function.update n.inbox i []
  | _ => n.inbox

def delivered (now k : Nat) (mail : Mail c) : Network c :=
  { n with
    clock := now
    inFlight := n.inFlight.eraseIdx k
    inbox := Function.update n.inbox mail.target (n.inbox mail.target ++ [mail]) }

def acted (now : Nat) (e : Event c) (world : World c) : Network c where
  world := world
  clock := now
  inFlight := n.inFlight ++ n.broadcasts now e
  inbox := n.channels e

instance (now : Nat) : ∀ e, Decidable (n.Punctual now e)
  | .tick i inp => inferInstanceAs (Decidable (inp.AtInstant now ∧ inp.SqlSucceeds ∧
      inp.received = (n.inbox i).map (·.drainedAt now)))
  | .restart _ start => inferInstanceAs (Decidable (start = now))
  | .commit _ | .apply _ | .leaveRecovery _ | .write _ | .ship _ _ | .ack _ _ => isTrue trivial

/-- Mail that is never delivered is lost. -/
def after (a : TimedAction c) : Option (Network c) :=
  match a.action with
  | .deliver k => (n.inFlight[k]?).map (n.delivered a.time k)
  | .node e =>
      if n.Punctual a.time e then (n.world.after e).map (n.acted a.time e) else none

/-- The message that an action delivers. -/
def arriving : Action c → Option (Mail c)
  | .deliver k => n.inFlight[k]?
  | .node _ => none

/-- Time does not go back. -/
structure Step (n : Network c) (a : TimedAction c) (n' : Network c) : Prop where
  after : n.after a = some n'
  clock_le : n.clock ≤ a.time

/-- No supervisor's next tick is more than `G` after its last one. -/
abbrev InCadence (n : Network c) (G : Nat) (a : TimedAction c) : Prop :=
  ∀ i, a.time ≤ (n.sup i).lastLoop + G

/-- Supervisors right after their start, and no gossip yet. -/
structure Initial (n : Network c) : Prop where
  world : n.world.Initial
  lastLoop_le : ∀ i, (n.sup i).lastLoop ≤ n.clock
  inFlight : n.inFlight = []
  inbox : ∀ i, n.inbox i = []

/-- Freshly started nodes of which only `primary` is out of recovery. -/
def fresh (c : ClusterConfig) (primary : c.Voter) : Network c :=
  ⟨World.fresh c primary, 0, [], fun _ => []⟩

theorem initial_fresh (primary : c.Voter) : (fresh c primary).Initial :=
  ⟨World.initial_fresh primary, fun _ => le_rfl, rfl, fun _ => rfl⟩

variable {n} {n' : Network c} {a : TimedAction c}

/-- The two ways in which a network moves. -/
inductive ActionStep (n : Network c) (now : Nat) : Action c → Network c → Prop
  | delivered {k : Nat} {mail : Mail c} (hmail : n.inFlight[k]? = some mail) :
      ActionStep n now (.deliver k) (n.delivered now k mail)
  | acted {e : Event c} {world : World c} (hpunctual : n.Punctual now e)
      (hworld : World.Step n.world e world) : ActionStep n now (.node e) (n.acted now e world)

theorem actionStep_of_step (hstep : Step n a n') : ActionStep n a.time a.action n' := by
  have hafter := hstep.after
  unfold after at hafter
  split at hafter
  next k haction =>
    obtain ⟨mail, hmail, rfl⟩ := Option.map_eq_some_iff.mp hafter
    rw [haction]
    exact .delivered hmail
  next e haction =>
    split at hafter
    next hpunctual =>
      obtain ⟨world, hworld, rfl⟩ := Option.map_eq_some_iff.mp hafter
      rw [haction]
      exact .acted hpunctual hworld
    next => cases hafter

/-- What an action does to one node and its channel. -/
inductive NodeStep (n : Network c) (a : TimedAction c) (i : c.Voter) (n' : Network c) : Prop
  | ticked (inp : TickInput) (haction : a.action = .node (.tick i inp))
      (hadmits : n.world.Admits i inp) (hinstant : inp.AtInstant a.time)
      (hsql : inp.SqlSucceeds) (hreceived : inp.received = (n.inbox i).map (·.drainedAt a.time))
      (hmember : n'.member i = n.world.tickedMember i inp) (hinbox : n'.inbox i = [])
  | restarted (haction : a.action = .node (.restart i a.time))
      (hmember : n'.member i = n.world.restartedMember i a.time)
  | left (hrecovery : (n.member i).inRecovery = true)
      (hrequested : (n.member i).promoteRequested = true)
      (hmember : n'.member i =
        { n.member i with inRecovery := false, promoteRequested := false })
      (hinbox : n'.inbox i = n.inbox i)
  | received (k : Nat) (mail : Mail c) (haction : a.action = .deliver k)
      (hmail : n.inFlight[k]? = some mail) (htarget : mail.target = i)
      (hmember : n'.member i = n.member i) (hinbox : n'.inbox i = n.inbox i ++ [mail])
  | kept (hnode : (n'.member i).node = (n.member i).node)
      (hrecovery : (n'.member i).inRecovery = (n.member i).inRecovery)
      (hinbox : n'.inbox i = n.inbox i)

theorem channels_of_ne {e : Event c} {i : c.Voter} (htick : ∀ inp, e ≠ .tick i inp)
    (hrestart : ∀ now, e ≠ .restart i now) : n.channels e i = n.inbox i := by
  cases e with
  | tick j inp => exact Function.update_of_ne (fun heq => htick inp (by rw [heq])) _ _
  | restart j now => exact Function.update_of_ne (fun heq => hrestart now (by rw [heq])) _ _
  | _ => rfl

theorem nodeStep_of_step (hstep : Step n a n') (i : c.Voter) : NodeStep n a i n' := by
  obtain ⟨time, action⟩ := a
  cases actionStep_of_step hstep with
  | @delivered k mail hmail =>
      by_cases htarget : mail.target = i
      · subst htarget
        exact .received k mail rfl hmail rfl rfl (Function.update_self _ _ _)
      · exact .kept rfl rfl (Function.update_of_ne (Ne.symm htarget) _ _)
  | @acted e world hpunctual hworld =>
      cases World.memberStep_of_step hworld i with
      | ticked inp hevent hadmits hmember =>
          subst hevent
          obtain ⟨hinstant, hsql, hreceived⟩ := hpunctual
          exact .ticked inp rfl hadmits hinstant hsql hreceived hmember (Function.update_self _ _ _)
      | restarted now hevent hmember =>
          subst hevent
          obtain rfl : now = time := hpunctual
          exact .restarted rfl hmember
      | left hrecovery hrequested hmember htick hrestart =>
          exact .left hrecovery hrequested hmember (channels_of_ne htick hrestart)
      | kept hnode hrecovery hrequested hwal htick hrestart =>
          exact .kept hnode hrecovery (channels_of_ne htick hrestart)

theorem clock_of_step (hstep : Step n a n') : n'.clock = a.time := by
  obtain ⟨time, action⟩ := a
  cases actionStep_of_step hstep <;> rfl

/-- The world stays as it is, or takes one of its steps. -/
theorem world_of_step (hstep : Step n a n') : n'.world = n.world ∨
    ∃ e, a.action = .node e ∧ n.Punctual a.time e ∧ World.Step n.world e n'.world := by
  obtain ⟨time, action⟩ := a
  cases actionStep_of_step hstep with
  | delivered hmail => exact Or.inl rfl
  | @acted e world hpunctual hworld => exact Or.inr ⟨e, rfl, hpunctual, hworld⟩

theorem sqlSucceeds_of_punctual {now : Nat} {e : Event c} (hpunctual : n.Punctual now e) :
    e.SqlSucceeds := by
  cases e with
  | tick i inp => exact hpunctual.2.1
  | _ => trivial

theorem consistent_of_step (hstep : Step n a n') {i : c.Voter}
    (hconsistent : (n.member i).Consistent i) : (n'.member i).Consistent i := by
  rcases world_of_step hstep with heq | ⟨e, -, hpunctual, hworld⟩
  · rwa [member, heq]
  · exact World.consistent_of_step hworld (sqlSucceeds_of_punctual hpunctual) hconsistent

theorem appliedLe_of_step (hstep : Step n a n') (happliedLe : n.world.AppliedLe) :
    n'.world.AppliedLe := by
  rcases world_of_step hstep with heq | ⟨e, -, -, hworld⟩
  · rwa [heq]
  · exact happliedLe.step hworld

end Network

end PgReplica
