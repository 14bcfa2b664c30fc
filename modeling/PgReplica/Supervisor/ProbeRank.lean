import PgReplica.Supervisor.OrderFree

/-! # What the probes say about the standbys

Each candidate for a lost primary is measured again just before the choice. A standby
whose WAL receiver has not started reports no position, which counts as 0, and so does a
query of the leader's own server that fails; a peer that does not answer is taken at the
position it last gossiped. How far such a standby really is the leader cannot tell.
-/

namespace PgReplica

open Foundation

/-- How a probe ends: with the position that `pg_last_wal_receive_lsn` reports, with its
null, or with an error or a timeout. -/
inductive ProbeOutcome where
  | received (position : Nat)
  | notReceiving
  | unanswered
deriving DecidableEq

namespace ProbeOutcome

/-- `COALESCE(pg_last_wal_receive_lsn(), '0/0')`. -/
def answer : ProbeOutcome → Option Nat
  | received position => some position
  | notReceiving => some 0
  | unanswered => none

/-- The position that the outcome makes known. -/
def position : ProbeOutcome → Option Nat
  | received position => some position
  | notReceiving | unanswered => none

theorem eq_received_of_position {outcome : ProbeOutcome} {p : Nat}
    (hposition : outcome.position = some p) : outcome = .received p := by
  cases outcome with
  | received position => rw [Option.some.inj hposition]
  | notReceiving => cases hposition
  | unanswered => cases hposition

end ProbeOutcome

/-- The nodes that the leader block looks at. -/
abbrev Node.liveNodes (node : Node) (cfg : Config) (inp : TickInput) : List Candidate :=
  (node.sup.prepare cfg inp).live cfg inp.leaderNow

/-- How the probe of each node ends. -/
structure ProbeView where
  outcome : Nat → ProbeOutcome

namespace ProbeView

variable (v : ProbeView) (cfg : Config)

/-- The position that a live node is ranked at. -/
def measured (member : Candidate) : Nat :=
  (v.outcome member.id).answer.getD (if member.id = cfg.nodeId then 0 else member.lsn)

/-- A live node as `choose_primary` sees it. -/
def ranked (member : Candidate) : Candidate :=
  { member with lsn := v.measured cfg member }

/-- The tick's probes end so. A peer without an address is not probed. -/
structure Probed (live : List Candidate) (inp : TickInput) : Prop where
  own : inp.walLsn = (v.outcome cfg.nodeId).answer.getD 0
  peers : ∀ member ∈ live, member.id ≠ cfg.nodeId → (cfg.findMember member.id).isSome = true →
    inp.peerWalLsn member.id = (v.outcome member.id).answer
  notAddressed : ∀ member ∈ live, member.id ≠ cfg.nodeId →
    (cfg.findMember member.id).isSome = false → v.outcome member.id = .unanswered

/-- The live nodes may hold these positions: a standby that answers holds what it has
received, and no node holds less than it gossiped. A node out of recovery may hold more
than it received before. -/
structure Admits (live : List Candidate) (held : Nat → Nat) : Prop where
  received : ∀ member ∈ live, ∀ position, v.outcome member.id = .received position →
    position ≤ held member.id
  standby : ∀ member ∈ live, member.inRecovery = true →
    ∀ position, v.outcome member.id = .received position → held member.id = position
  gossiped : ∀ member ∈ live, member.lsn ≤ held member.id

variable {v cfg} {live : List Candidate} {inp : TickInput} {held : Nat → Nat}

theorem probe_eq_ranked (hprobed : v.Probed cfg live inp) {member : Candidate}
    (hlive : member ∈ live) : Supervisor.probe cfg inp member = v.ranked cfg member := by
  rw [Supervisor.probe, ranked, measured]
  congr 1
  by_cases hself : member.id = cfg.nodeId
  · rw [if_pos hself, if_pos hself, hprobed.own, hself]
  · rw [if_neg hself, if_neg hself]
    cases haddressed : (cfg.findMember member.id).isSome with
    | true =>
        rw [hprobed.peers member hlive hself haddressed]
        rfl
    | false =>
        rw [hprobed.notAddressed member hlive hself haddressed]
        rfl

/-- No node is ranked above what it holds. -/
theorem measured_le_held (hadmits : v.Admits live held) {member : Candidate}
    (hlive : member ∈ live) : v.measured cfg member ≤ held member.id := by
  rw [measured]
  cases houtcome : v.outcome member.id with
  | received position => exact hadmits.received member hlive position houtcome
  | notReceiving => exact Nat.zero_le _
  | unanswered =>
      change (if _ then 0 else member.lsn) ≤ _
      split
      next => exact Nat.zero_le _
      next => exact hadmits.gossiped member hlive

/-- A standby that answers from a running WAL receiver is ranked at what it holds. -/
theorem measured_of_received (hadmits : v.Admits live held) {member : Candidate}
    (hlive : member ∈ live) (hstandby : member.inRecovery = true) {position : Nat}
    (hreceived : v.outcome member.id = .received position) :
    v.measured cfg member = held member.id := by
  rw [measured, hreceived, hadmits.standby member hlive hstandby position hreceived]
  rfl

/-- Where the leader is not told how far a standby is, it may be further than any node. -/
theorem admits_update (hadmits : v.Admits live held) {id position : Nat}
    (hunknown : (v.outcome id).position = none) (hle : held id ≤ position) :
    v.Admits live (Function.update held id position) := by
  have hother : ∀ member : Candidate, ∀ p, v.outcome member.id = .received p →
      Function.update held id position member.id = held member.id := by
    intro member p hreceived
    refine Function.update_of_ne (fun heq => ?_) _ _
    rw [← heq, hreceived] at hunknown
    cases hunknown
  refine ⟨fun member hmember p hreceived => ?_, fun member hmember hstandby p hreceived => ?_,
    fun member hmember => ?_⟩
  · rw [hother member p hreceived]
    exact hadmits.received member hmember p hreceived
  · rw [hother member p hreceived]
    exact hadmits.standby member hmember hstandby p hreceived
  · by_cases heq : member.id = id
    · rw [heq, Function.update_self]
      exact (heq ▸ hadmits.gossiped member hmember).trans hle
    · rw [Function.update_of_ne heq]
      exact hadmits.gossiped member hmember

/-! ## A tick that replaces a lost primary -/

variable (v) in
/-- A leader tick replaces the primary of `current`, which is not live. -/
structure ReplacesLost (cfg : Config) (node : Node) (inp : TickInput) (current d : Decision) :
    Prop where
  proposes : (node.report cfg inp).proposal = some d
  decided : (node.sup.prepare cfg inp).decided = some current
  lost : (node.sup.prepare cfg inp).primaryAlive cfg inp.leaderNow = false
  probed : v.Probed cfg (node.liveNodes cfg inp) inp

variable {node : Node} {current d : Decision}

/-- The proposed node is live, and no live node is ranked above it. -/
theorem ReplacesLost.exists_chosen (htick : v.ReplacesLost cfg node inp current d) :
    ∃ best ∈ node.liveNodes cfg inp, best.id = d.primary ∧
      ∀ member ∈ node.liveNodes cfg inp,
        (compareCandidates (v.ranked cfg member) (v.ranked cfg best)).isLE := by
  obtain ⟨best, hbest, hid, hahead⟩ :=
    Supervisor.exists_chosen_of_lost htick.proposes htick.decided htick.lost
  refine ⟨best, hbest, hid, fun member hmember => ?_⟩
  rw [← probe_eq_ranked htick.probed hmember, ← probe_eq_ranked htick.probed hbest]
  exact hahead member hmember

/-- A standby that holds the most is not passed over when it is ranked at what it holds. -/
theorem ReplacesLost.holds_of_accurate (htick : v.ReplacesLost cfg node inp current d)
    (hadmits : v.Admits (node.liveNodes cfg inp) held) {most : Candidate}
    (hmost : most ∈ node.liveNodes cfg inp) (haccurate : v.measured cfg most = held most.id) :
    held most.id ≤ held d.primary := by
  obtain ⟨best, hbest, hid, hdominates⟩ := htick.exists_chosen
  calc held most.id = (v.ranked cfg most).lsn := haccurate.symm
    _ ≤ (v.ranked cfg best).lsn := lsn_le_of_isLE (hdominates most hmost)
    _ ≤ held d.primary := hid ▸ measured_le_held hadmits hbest

/-- Whatever the live nodes hold that agrees with what the leader was told, the proposed
node holds as much as every live standby, exactly when each standby whose probe does not
return a position is ranked ahead of all other live nodes without it. -/
theorem proposed_holds_iff (htick : v.ReplacesLost cfg node inp current d)
    (hadmits : v.Admits (node.liveNodes cfg inp) held) :
    (∀ held, v.Admits (node.liveNodes cfg inp) held →
      ∀ standby ∈ node.liveNodes cfg inp, standby.inRecovery = true →
        held standby.id ≤ held d.primary) ↔
      ∀ unknown ∈ node.liveNodes cfg inp, unknown.inRecovery = true →
        (v.outcome unknown.id).position = none →
          ∀ other ∈ node.liveNodes cfg inp, other.id ≠ unknown.id →
            (v.ranked cfg unknown).Ahead (v.ranked cfg other) := by
  obtain ⟨best, hbest, hid, hdominates⟩ := htick.exists_chosen
  constructor
  · intro hholds unknown hunknown hstandby hposition other hother hne
    obtain rfl : unknown = best := by
      have hnodup := Supervisor.nodup_live_ids (node.sup.prepare cfg inp) cfg inp.leaderNow
      refine List.inj_on_of_nodup_map hnodup hunknown hbest ?_
      by_contra hpassed
      -- it may hold more than the chosen node
      have hadmits' := admits_update hadmits hposition
        (show held unknown.id ≤ held unknown.id + held best.id + 1 by omega)
      have hle := hholds _ hadmits' unknown hunknown hstandby
      rw [Function.update_self, ← hid, Function.update_of_ne (Ne.symm hpassed)] at hle
      omega
    exact ahead_of_isLE (hdominates other hother) hne
  · intro hahead held hadmits standby hlive hstandby
    cases hposition : (v.outcome standby.id).position with
    | some position =>
        have hreceived := ProbeOutcome.eq_received_of_position hposition
        exact htick.holds_of_accurate hadmits hlive
          (measured_of_received hadmits hlive hstandby hreceived)
    | none =>
        -- it is the chosen one
        by_cases hsame : best.id = standby.id
        · rw [← hid, hsame]
        · exact absurd (hdominates standby hlive)
            (not_isLE_of_ahead (hahead standby hlive hstandby hposition best hbest hsame))

/-! ## Two surviving standbys -/

/-- Node 2 leads Raft and node 3 survives with it. -/
def survivor : Node :=
  ⟨{ Supervisor.start (some ⟨1, 1⟩) 0 with ticks := 4 }, ⟨true, "", ""⟩⟩

/-- The probe of node 2 tells that it has received 100, and that of node 3 ends with
`outcome`. -/
def survivorView (outcome : ProbeOutcome) : ProbeView where
  outcome id := if id = 3 then outcome else .received 100

/-- Node 3 has gossiped 200. -/
def survivorTick (outcome : ProbeOutcome) : TickInput :=
  { (TickInput.plain 500 [.gossip 3 500 200 true 1] (some ⟨1, 1⟩)).leading.standby with
    localWalLsn := 100
    walLsn := 100
    peerWalLsn := fun id => if id = 3 then outcome.answer else none }

def survivorHolds (id : Nat) : Nat :=
  if id = 3 then 200 else 100

theorem liveNodes_survivor (outcome : ProbeOutcome) :
    survivor.liveNodes (Config.threeNodes 2 (by decide)) (survivorTick outcome) =
      [⟨2, 100, true⟩, ⟨3, 200, true⟩] := by
  -- the probes play no part
  change survivor.liveNodes (Config.threeNodes 2 (by decide)) (survivorTick .unanswered) = _
  decide

theorem probed_survivor (outcome : ProbeOutcome) :
    (survivorView outcome).Probed (Config.threeNodes 2 (by decide))
      [⟨2, 100, true⟩, ⟨3, 200, true⟩] (survivorTick outcome) := by
  refine ⟨rfl, by simp [survivorTick, survivorView, Config.threeNodes], ?_⟩
  simp [Config.threeNodes, Config.findMember]

theorem admits_survivor {outcome : ProbeOutcome} (hunknown : outcome.position = none) :
    (survivorView outcome).Admits [⟨2, 100, true⟩, ⟨3, 200, true⟩] survivorHolds := by
  have hnot : ∀ p, outcome ≠ .received p := by
    rintro p rfl
    cases hunknown
  refine ⟨?_, ?_, ?_⟩ <;> simp [survivorView, survivorHolds, hnot]

/-- The probe of node 3 times out: its gossip is above what node 2 has received, and it is
proposed. -/
theorem most_advanced_proposed :
    (survivorView .unanswered).ReplacesLost (Config.threeNodes 2 (by decide)) survivor
        (survivorTick .unanswered) ⟨1, 1⟩ ⟨2, 3⟩ ∧
      ∀ held, (survivorView .unanswered).Admits (survivor.liveNodes
          (Config.threeNodes 2 (by decide)) (survivorTick .unanswered)) held →
        ∀ standby ∈ survivor.liveNodes (Config.threeNodes 2 (by decide))
            (survivorTick .unanswered), standby.inRecovery = true →
          held standby.id ≤ held 3 := by
  have htick : (survivorView .unanswered).ReplacesLost (Config.threeNodes 2 (by decide)) survivor
      (survivorTick .unanswered) ⟨1, 1⟩ ⟨2, 3⟩ :=
    ⟨by decide, rfl, by decide, probed_survivor _⟩
  refine ⟨htick, (proposed_holds_iff htick (admits_survivor rfl)).mpr ?_⟩
  rw [liveNodes_survivor]
  simp [survivorView, ProbeOutcome.position, ranked, measured, Candidate.Ahead,
    ProbeOutcome.answer, Config.threeNodes]

/-- The receiver of node 3 has not started: it counts as position 0, and node 2 is proposed
with half of what node 3 holds. -/
theorem less_advanced_proposed :
    ¬ ∀ (v : ProbeView) (cfg : Config) (node : Node) (inp : TickInput) (current d : Decision)
        (held : Nat → Nat), v.ReplacesLost cfg node inp current d →
      v.Admits (node.liveNodes cfg inp) held →
        ∀ standby ∈ node.liveNodes cfg inp, standby.inRecovery = true →
          held standby.id ≤ held d.primary := by
  intro hholds
  have htick : (survivorView .notReceiving).ReplacesLost (Config.threeNodes 2 (by decide))
      survivor (survivorTick .notReceiving) ⟨1, 1⟩ ⟨2, 2⟩ :=
    ⟨by decide, rfl, by decide, probed_survivor _⟩
  have hle := hholds _ _ _ _ _ _ _ htick (admits_survivor rfl) ⟨3, 200, true⟩
    (by rw [liveNodes_survivor]; decide) rfl
  revert hle
  decide

end ProbeView

end PgReplica
