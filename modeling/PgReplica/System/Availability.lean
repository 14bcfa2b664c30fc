import PgReplica.System.Election

/-! # What a majority can open

Whatever has happened, a majority whose nodes hear each other and whose commands succeed
comes to a new decision and opens a primary, without a restart and without the others. It
takes an earlier decision, or one of its nodes out of recovery.
-/

namespace PgReplica

open Foundation

namespace Supervisor

variable {s : Supervisor} {cfg : Config} {inp : TickInput} {d : Decision}

/-- The supervisor follows a decision for its own node, and no reconfirmation is asked. -/
structure Named (s : Supervisor) (cfg : Config) (d : Decision) : Prop where
  decided : s.decided = some d
  primary : d.primary = cfg.nodeId
  reconfirmPending : s.reconfirmPending = false

theorem Named.rawAuth (hnamed : s.Named cfg d) (hquorum : s.quorumOk cfg inp.contactNow = true) :
    s.rawAuth cfg inp = true := by
  simp [Supervisor.rawAuth, hnamed.decided, hnamed.primary, hquorum, hnamed.reconfirmPending]

theorem Named.decidedPrimary (hnamed : s.Named cfg d) : s.decidedPrimary = cfg.nodeId := by
  rw [decidedPrimary_of_decided hnamed.decided, hnamed.primary]

theorem Named.lead (hnamed : s.Named cfg d)
    (hkeeps : s.decisionChanged inp.currentDecision = false)
    (hstalled : s.stalled inp.loopNow = false) : (s.lead cfg inp).Named cfg d where
  decided := by
    rw [lead_decided, if_neg (by simp [hkeeps])]
    exact hnamed.decided
  primary := hnamed.primary
  reconfirmPending := by
    change (if s.decisionChanged inp.currentDecision then false
      else if s.stalled inp.loopNow then true else s.reconfirmPending) = false
    rw [if_neg (by simp [hkeeps]), if_neg (by simp [hstalled])]
    exact hnamed.reconfirmPending

end Supervisor

namespace World

variable {c : ClusterConfig} {w w' : World c} {Q : List c.Voter} {i j : c.Voter}

/-! ## The opening -/

/-- The node follows the decision it has applied, which names it. -/
structure Appointed (w : World c) (j : c.Voter) (d : Decision) : Prop where
  shared : w.sharedDecision j = some d
  named : (w.members j).node.sup.Named (c.config j) d

variable {d : Decision}

/-- The supervisor of a node as the branches of a tick see it. -/
def led (w : World c) (i : c.Voter) (inp : TickInput) : Supervisor :=
  (w.members i).node.sup.lead (c.config i) inp

/-- Without a pause in between an appointed node goes on as it was. -/
theorem Appointed.led (happointed : w.Appointed j d) {now : Nat}
    (hnow : now ≤ (w.members j).node.sup.lastLoop + stallThreshold) :
    (w.led j (w.survivorInput Q j now false)).Named (c.config j) d ∧
      (w.led j (w.survivorInput Q j now false)).appliedReadOnly =
        (w.members j).node.sup.appliedReadOnly ∧
      (w.led j (w.survivorInput Q j now false)).authorizedSince =
        (w.members j).node.sup.authorizedSince := by
  have hkeeps : (w.members j).node.sup.decisionChanged (w.sharedDecision j) = false := by
    rw [decisionChanged_eq_false_iff, happointed.shared]
    exact fun _ heq => happointed.named.decided.trans heq
  have hrunning : ¬ (w.members j).node.sup.stalled now = true := by
    rw [Supervisor.stalled, decide_eq_true_eq]
    omega
  exact ⟨happointed.named.lead hkeeps (Bool.not_eq_true _ ▸ hrunning), if_neg hrunning,
    if_neg hrunning⟩

section Opening

variable (hnodup : Q.Nodup) (hmajority : c.majority ≤ Q.length)

end Opening

/-- A standby that knows of no decision and of no node out of recovery. -/
structure Dormant (m : Member) : Prop where
  inRecovery : m.inRecovery = true
  promoteRequested : m.promoteRequested = false
  decided : m.node.sup.decided = none
  seen : ∀ id entry, m.node.sup.peers.peersLsn.lookup id = some entry → entry.inRecovery = true

/-- Nothing is decided or proposed, and all of `Q` are such standbys. -/
structure AllDormant (Q : List c.Voter) (w : World c) : Prop where
  log : w.log = []
  pending : w.pending = []
  members : ∀ i ∈ Q, Dormant (w.members i)

section Dormant

variable (hdormant : w.AllDormant Q) (hi : i ∈ Q) (now : Nat) (leads : Bool)

include hdormant hi in
theorem AllDormant.decided_led : (w.led i (w.survivorInput Q i now leads)).decided = none := by
  have hshared : w.sharedDecision i = none := by simp [sharedDecision, hdormant.log]
  refine (if_neg ?_).trans (hdormant.members i hi).decided
  change ¬ (w.members i).node.sup.decisionChanged (w.sharedDecision i) = true
  simp [hshared, Supervisor.decisionChanged]

include hdormant hi in
theorem AllDormant.seen_prepared : ∀ id entry,
    (w.prepared i (w.survivorInput Q i now leads)).peers.peersLsn.lookup id = some entry →
      entry.inRecovery = true := by
  refine Supervisor.prepare_peersLsn_invariant (I := fun _ entry => entry.inRecovery = true)
    (hdormant.members i hi).seen ?_ (hdormant.members i hi).inRecovery
  intro m hm gossip hdecode
  obtain ⟨j, hj, rfl⟩ := List.mem_map.mp hm
  exact (inRecovery_of_decodeGossip hdecode).trans
    (hdormant.members j (List.mem_filter.mp hj).1).inRecovery

include hdormant hi in
theorem AllDormant.proposal_eq_none :
    (w.report i (w.survivorInput Q i now leads)).proposal = none := by
  let inp := w.survivorInput Q i now leads
  have hundecided : (w.prepared i inp).decided = none := hdormant.decided_led hi now leads
  have hstandbys : ((w.prepared i inp).live (c.config i) now).filter
      (fun member => !member.inRecovery) = [] := by
    rw [List.filter_eq_nil_iff]
    intro member hmember
    obtain ⟨seen, hlookup, -⟩ := Supervisor.mem_live.mp hmember
    have hrecovery : member.inRecovery = true := hdormant.seen_prepared hi now leads _ _ hlookup
    simp [hrecovery]
  have hcandidate : (w.prepared i inp).proposalCandidate (c.config i) inp = none := by
    rw [Supervisor.proposalCandidate_eq, if_pos (by simp [hundecided])]
    exact congrArg (fun writable => (writable.map Candidate.id).min?) hstandbys
  change (w.prepared i inp).proposal (c.config i) inp = none
  rw [Supervisor.proposal_eq, hcandidate]
  split <;> rfl

include hdormant hi in
theorem AllDormant.tickedMember :
    Dormant (w.tickedMember i (w.survivorInput Q i now leads)) where
  inRecovery := (hdormant.members i hi).inRecovery
  promoteRequested := by
    have hdecided := hdormant.decided_led hi now leads
    have hpromotes :
        (w.led i (w.survivorInput Q i now leads)).promotes (c.config i) = false := by
      simp [Supervisor.promotes, Supervisor.decidedPrimary, hdecided,
        (c.config i).nodeId_ne_zero.symm]
    have hreport : (w.report i (w.survivorInput Q i now leads)).promote = none :=
      if_neg (by simp [show ((w.members i).node.sup.lead _ _).promotes _ = false from hpromotes])
    simp [World.tickedMember, hreport, (hdormant.members i hi).promoteRequested]
  decided := by
    rw [World.tickedMember, Node.tick_decided]
    exact hdormant.decided_led hi now leads
  seen := by
    rw [World.tickedMember, Node.tick_peers]
    exact hdormant.seen_prepared hi now leads

end Dormant

theorem AllDormant.step {e : Event c} (hdormant : w.AllDormant Q) (hstep : SurvivorStep Q w e w') :
    w'.AllDormant Q := by
  obtain ⟨hstep, hundisturbed⟩ := hstep
  cases e with
  | tick i inp =>
      obtain ⟨hi, now, leads, -, rfl⟩ := hundisturbed
      obtain ⟨-, rfl⟩ := step_tick_iff.mp hstep
      refine ⟨hdormant.log, ?_, fun j hj => ?_⟩
      · change w.pending ++ w.proposed i _ = []
        rw [proposed, hdormant.proposal_eq_none hi, hdormant.pending]
        rfl
      · by_cases heq : j = i
        · rw [heq, tick_members_self]
          exact hdormant.tickedMember hi now leads
        · rw [tick_members_of_ne heq]
          exact hdormant.members j hj
  | commit k =>
      obtain ⟨entry, hentry, -⟩ := step_commit_iff.mp hstep
      simp [hdormant.pending] at hentry
  | apply i =>
      obtain ⟨hlt, -⟩ := step_apply_iff.mp hstep
      simp [hdormant.log] at hlt
  | leaveRecovery i =>
      obtain ⟨⟨-, hrequested⟩, -⟩ := step_leaveRecovery_iff.mp hstep
      rw [(hdormant.members i hundisturbed).promoteRequested] at hrequested
      cases hrequested
  | restart i now => exact hundisturbed.elim
  | write i => exact hundisturbed.elim
  | ship source target => exact hundisturbed.elim
  | ack i position => exact hundisturbed.elim

/-- Freshly started standbys without a node out of recovery decide nothing. -/
theorem standbys_decide_nothing (hinit : w.Initial)
    (hrecovery : ∀ j ∈ Q, (w.members j).inRecovery = true) (hleads : Leads Q w w') :
    w'.log = [] ∧ ∀ j ∈ Q, (w'.members j).inRecovery = true := by
  obtain ⟨labels, hrun⟩ := hleads
  have hstart : w.AllDormant Q := by
    refine ⟨hinit.log, hinit.pending, fun j hj => ?_⟩
    obtain ⟨now, hsup⟩ := hinit.started j
    exact
      { inRecovery := hrecovery j hj
        promoteRequested := hinit.promoteRequested j
        decided := by rw [hsup]; rfl
        seen := fun id entry hlookup => by
          rw [hsup] at hlookup
          cases hlookup }
  have hdormant := hrun.invariant (I := AllDormant Q)
    (fun _ _ _ hdormant hstep => hdormant.step hstep) hstart
  exact ⟨hdormant.log, fun j hj => (hdormant.members j hj).inRecovery⟩

end World

end PgReplica
