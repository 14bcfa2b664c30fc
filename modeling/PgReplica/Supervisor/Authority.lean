import PgReplica.Foundation.Run
import PgReplica.Supervisor.Gossip

/-! # What authority says about the other voters

A primary is authorized while it hears a majority. The leadership model lets a
leader commit only while a majority is still at its term; here that is a majority
that has reported no decision later than the one the primary acts under.
-/

namespace PgReplica

open Foundation

/-- The sender's latest message carries a sequence number not above `seq`. -/
def reportsNoLater (history : List Received) (seq sender : Nat) : Bool :=
  ((latestFrom history sender).bind fun m => decodeGossip m.payload).any fun gossip =>
    decide (gossip.seq ≤ seq)

/-- A node together with every message it has drained since its start. -/
structure HearingNode where
  node : Node
  history : List Received

namespace HearingNode

variable (cfg : Config) (h : HearingNode) (inp : TickInput)

def tick : HearingNode where
  node := h.node.tick cfg inp
  history := h.history ++ inp.received

/-- The supervisor and the messages that the tick's authority check looks at. -/
def checked : Supervisor :=
  h.node.sup.lead cfg inp

/-- The peers heard within the lease that report no decision later than `d`. -/
def agreeingPeers (d : Decision) : List Nat :=
  ((h.checked cfg inp).heardWithinLease cfg inp.contactNow).filter
    (reportsNoLater (h.tick cfg inp).history d.seq)

/-- The voters among the node itself and its agreeing peers. -/
def agreeingVoters (d : Decision) : List Nat :=
  cfg.voters.filter fun voter =>
    voter == cfg.nodeId || (h.agreeingPeers cfg inp d).contains voter

/-- An authorized tick acts under a decision to which a majority reports no later one. -/
def AuthorityAgreed : Prop :=
  ∀ d, (h.checked cfg inp).decided = some d → (h.node.report cfg inp).authorized = some true →
    cfg.majority ≤ (h.agreeingVoters cfg inp d).length

/-- The last message of every other node that was heard within the lease carries a
sequence number not above that of the held decision. -/
def NoneLaterHeard : Prop :=
  ∀ d ∈ (h.checked cfg inp).decided, ∀ m ∈ h.history ++ inp.received,
    latestFrom (h.history ++ inp.received) m.sender = some m → m.sender ≠ cfg.nodeId →
      inp.contactNow - m.heardAt < quorumLease →
        (decodeGossip m.payload).any (fun gossip => decide (gossip.seq ≤ d.seq)) = true

instance : Decidable (h.NoneLaterHeard cfg inp) :=
  inferInstanceAs (Decidable (∀ d ∈ (h.checked cfg inp).decided, _))

/-- The table of times tells when the last message of each sender was drained, and only
voters have sent any. -/
structure Remembers (h : HearingNode) : Prop where
  lastHeard : ∀ id, h.node.sup.peers.lastHeard.lookup id =
    (latestFrom h.history id).map Received.heardAt
  fromVoters : ∀ m ∈ h.history, m.sender ∈ cfg.voters

variable {cfg h inp}

/-! ## The table of times -/

theorem remembers_of_started {node : Node} (hstart : node.Started) :
    Remembers cfg ⟨node, []⟩ := by
  obtain ⟨current, now, hsup⟩ := hstart
  refine ⟨fun id => ?_, by simp⟩
  rw [hsup]
  rfl

theorem Remembers.lastHeard_checked (hremembers : h.Remembers cfg) (id : Nat) :
    (h.checked cfg inp).peers.lastHeard.lookup id =
      (latestFrom (h.history ++ inp.received) id).map Received.heardAt := by
  change (h.node.sup.peers.drain inp.received).lastHeard.lookup id = _
  rw [PeerTable.lookup_lastHeard_drain, hremembers.lastHeard, latestFrom_append, Option.map_or]

theorem Remembers.fromVoters_received (hremembers : h.Remembers cfg)
    (hvoters : inp.FromVoters cfg) : ∀ m ∈ h.history ++ inp.received, m.sender ∈ cfg.voters := by
  intro m hm
  rcases List.mem_append.mp hm with hold | hnew
  · exact hremembers.fromVoters m hold
  · exact hvoters m hnew

theorem Remembers.tick (hremembers : h.Remembers cfg) (hvoters : inp.FromVoters cfg) :
    (h.tick cfg inp).Remembers cfg := by
  refine ⟨fun id => ?_, hremembers.fromVoters_received hvoters⟩
  rw [HearingNode.tick, Node.tick_peers]
  exact hremembers.lastHeard_checked id

/-- A peer is heard within the lease when its last message was drained within it. -/
theorem Remembers.exists_latest (hremembers : h.Remembers cfg) {id : Nat}
    (hheard : id ∈ (h.checked cfg inp).heardWithinLease cfg inp.contactNow) :
    id ≠ cfg.nodeId ∧ ∃ m, latestFrom (h.history ++ inp.received) id = some m ∧
      inp.contactNow - m.heardAt < quorumLease := by
  obtain ⟨hne, stamp, hlookup, hlease⟩ := Supervisor.mem_heardWithinLease.mp hheard
  rw [hremembers.lastHeard_checked] at hlookup
  obtain ⟨m, hlatest, rfl⟩ := Option.map_eq_some_iff.mp hlookup
  exact ⟨hne, m, hlatest, hlease⟩

/-! ## The quorum -/

/-- The node and its agreeing peers are that many different voters. -/
theorem length_agreeingPeers_lt (hremembers : h.Remembers cfg) (hvoters : inp.FromVoters cfg)
    (d : Decision) :
    1 + (h.agreeingPeers cfg inp d).length ≤ (h.agreeingVoters cfg inp d).length := by
  have hnodup : (cfg.nodeId :: h.agreeingPeers cfg inp d).Nodup := by
    refine List.nodup_cons.mpr ⟨fun hself => ?_, ?_⟩
    · exact (Supervisor.mem_heardWithinLease.mp (List.mem_filter.mp hself).1).1 rfl
    · exact (Supervisor.nodup_heardWithinLease _ _ _).filter _
  have hsub : cfg.nodeId :: h.agreeingPeers cfg inp d ⊆ h.agreeingVoters cfg inp d := by
    intro id hid
    rcases List.mem_cons.mp hid with rfl | hpeer
    · simp [agreeingVoters, cfg.nodeId_mem_voters]
    · -- gossip comes from voters only
      obtain ⟨-, m, hlatest, -⟩ := hremembers.exists_latest (List.mem_filter.mp hpeer).1
      obtain ⟨hmem, rfl⟩ := mem_of_latestFrom hlatest
      simp [agreeingVoters, hremembers.fromVoters_received hvoters m hmem, hpeer]
  have hlength := (List.subperm_of_subset hnodup hsub).length_le
  rw [List.length_cons] at hlength
  omega

/-- If none of the peers heard has reported a later decision, all of them agree. -/
theorem agreeingPeers_of_noneLaterHeard (hremembers : h.Remembers cfg)
    (hnone : h.NoneLaterHeard cfg inp) {d : Decision}
    (hdecided : (h.checked cfg inp).decided = some d) :
    h.agreeingPeers cfg inp d = (h.checked cfg inp).heardWithinLease cfg inp.contactNow := by
  refine List.filter_eq_self.mpr fun id hid => ?_
  obtain ⟨hne, m, hlatest, hlease⟩ := hremembers.exists_latest hid
  obtain ⟨hmem, rfl⟩ := mem_of_latestFrom hlatest
  have hreports := hnone d hdecided m hmem hlatest hne hlease
  change Option.any _ ((latestFrom (h.history ++ inp.received) m.sender).bind _) = true
  rwa [hlatest, Option.bind_some]

theorem authorityAgreed_of_noneLaterHeard (hremembers : h.Remembers cfg)
    (hvoters : inp.FromVoters cfg) (hnone : h.NoneLaterHeard cfg inp) :
    h.AuthorityAgreed cfg inp := by
  intro d hdecided hauth
  obtain ⟨-, hauth⟩ := Node.report_authorized_eq_some_iff.mp hauth
  have hraw := Supervisor.rawAuth_of_authorized hauth
  obtain ⟨-, hok, -⟩ := Supervisor.rawAuth_of_decided hdecided hraw
  have hagree := agreeingPeers_of_noneLaterHeard hremembers hnone hdecided
  calc cfg.majority
      ≤ 1 + ((h.checked cfg inp).heardWithinLease cfg inp.contactNow).length :=
        Supervisor.quorumOk_eq_true_iff.mp hok
    _ = 1 + (h.agreeingPeers cfg inp d).length := by rw [hagree]
    _ ≤ _ := length_agreeingPeers_lt hremembers hvoters d

/-- In a run in which no node heard within the lease has reported a decision later than
the held one, every authorized tick has a majority at its decision. -/
theorem authorityAgreed_of_run {node : Node} {inputs : List TickInput} (hstart : node.Started)
    (hsteps : EachStep (tick cfg) (fun h inp => inp.FromVoters cfg ∧ h.NoneLaterHeard cfg inp)
      ⟨node, []⟩ inputs) : EachStep (tick cfg) (AuthorityAgreed cfg) ⟨node, []⟩ inputs := by
  refine hsteps.of_invariant (I := Remembers cfg) ?_ ?_ (remembers_of_started hstart)
  · exact fun h inp hremembers hstep => hremembers.tick hstep.1
  · exact fun h inp hremembers hstep =>
      authorityAgreed_of_noneLaterHeard hremembers hstep.1 hstep.2

/-- The primary waits out the confirm window on gossip that carries `seq`. -/
def confirmOn (seq : Nat) : List TickInput :=
  [.plain 100 (heardBoth 100 1) (some ⟨1, 1⟩), .plain 900 (heardBoth 900 1) (some ⟨1, 1⟩),
    .plain 1600 (heardBoth 1600 seq) (some ⟨1, 1⟩)]

instance (cfg : Config) (inp : TickInput) : Decidable (inp.FromVoters cfg) :=
  inferInstanceAs (Decidable (∀ m ∈ inp.received, m.sender ∈ cfg.voters))

/-- The run in which the peers confirm the first decision. -/
theorem authorityAgreed_confirmOn :
    let cfg := Config.threeNodes 1 (by decide)
    EachStep (tick cfg) (AuthorityAgreed cfg) ⟨.firstPrimary ⟨false, "", ""⟩, []⟩ (confirmOn 1) ∧
      ((confirmOn 1).foldl (tick cfg) ⟨.firstPrimary ⟨false, "", ""⟩, []⟩).node.settings.readOnly =
        false :=
  ⟨authorityAgreed_of_run (Node.firstPrimary_started _) (by decide), by decide⟩

/-- Both peers report decision 2 before the primary's own Raft applies it: the
primary is authorized under decision 1 with no voter but itself behind it. -/
theorem not_authorityAgreed_of_late_apply :
    ¬ ∀ (cfg : Config) (node : Node) (inputs : List TickInput), node.Started →
      (∀ inp ∈ inputs, inp.FromVoters cfg) →
        EachStep (tick cfg) (AuthorityAgreed cfg) ⟨node, []⟩ inputs := by
  intro hagreed
  have hsteps := hagreed (.threeNodes 1 (by decide)) (.firstPrimary ⟨false, "", ""⟩) (confirmOn 2)
    (Node.firstPrimary_started _) (by
      simp [confirmOn, TickInput.FromVoters, TickInput.plain, heardBoth, Received.gossip,
        Config.threeNodes])
  obtain ⟨-, -, hlast, -⟩ := hsteps
  have hmajority := hlast ⟨1, 1⟩ (by decide) (by decide)
  revert hmajority
  decide

end HearingNode

end PgReplica
