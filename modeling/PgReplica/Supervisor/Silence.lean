import PgReplica.Foundation.Run
import PgReplica.Supervisor.Leader

/-! # Silence and absence

A leader takes a primary for lost when it has no recent entry for it. An entry that is
missing may mean that the leader itself has just started.
-/

namespace PgReplica

open Foundation

/-- A node, when its process started, the last reading of its clock, and every message
that the process has drained. -/
structure SilenceWatch where
  node : Node
  started : Nat
  clock : Nat
  history : List Received

inductive SilenceEvent where
  | tick (inp : TickInput)
  | restart (current : Option Decision) (now : Nat)

namespace SilenceWatch

/-- A process that has just started. -/
def fresh (settings : Settings) (current : Option Decision) (now : Nat) : SilenceWatch :=
  ⟨⟨.start current now, settings⟩, now, now, []⟩

variable (cfg : Config) (w : SilenceWatch)

def after : SilenceEvent → SilenceWatch
  | .tick inp => ⟨w.node.tick cfg inp, w.started, inp.leaderNow, w.history ++ inp.received⟩
  | .restart current now => fresh w.node.settings current now

/-- The state in which the tick comes to the leader block. -/
def prepared (inp : TickInput) : Supervisor :=
  w.node.sup.prepare cfg inp

/-- The clock does not run backwards, and a decision names a node. -/
def Regular : SilenceEvent → Prop
  | .tick inp =>
      (w.clock :: (inp.received.map Received.storedAt ++ [inp.storedAt, inp.leaderNow])).Pairwise
        (· ≤ ·) ∧ ∀ d ∈ inp.currentDecision, d.primary ≠ 0
  | .restart current _ => ∀ d ∈ current, d.primary ≠ 0

/-- The node runs for `dead_timeout` and has heard no gossip of `id` for that long. -/
structure KnownSilent (inp : TickInput) (id : Nat) : Prop where
  running : w.started + deadTimeout ≤ inp.leaderNow
  silent : ∀ m ∈ w.history ++ inp.received, m.sender = id →
    ∀ gossip, decodeGossip m.payload = some gossip → m.storedAt + deadTimeout ≤ inp.leaderNow

/-- A tick that proposes to replace the decided primary replaces another node that it knows
to be silent. -/
def ReplacesSilent : SilenceEvent → Prop
  | .tick inp => ∀ current ∈ (w.prepared cfg inp).decided,
      ∀ d ∈ (w.node.report cfg inp).proposal, d.primary ≠ current.primary →
        current.primary ≠ cfg.nodeId ∧ w.KnownSilent inp current.primary
  | .restart .. => True

/-- A leader that may propose, with no entry for the decided primary, is another node and
runs for `dead_timeout`. -/
def AbsentLong : SilenceEvent → Prop
  | .tick inp => ∀ current ∈ (w.prepared cfg inp).decided,
      inp.isLeader = true → cfg.majority ≤ ((w.prepared cfg inp).live cfg inp.leaderNow).length →
        (w.prepared cfg inp).inFlight ((w.prepared cfg inp).decidedSeq + 1) = false →
          (w.prepared cfg inp).peers.peersLsn.lookup current.primary = none →
            current.primary ≠ cfg.nodeId ∧ w.started + deadTimeout ≤ inp.leaderNow
  | .restart .. => True

instance : (event : SilenceEvent) → Decidable (w.Regular event)
  | .tick _ => inferInstanceAs (Decidable (_ ∧ _))
  | .restart .. => inferInstanceAs (Decidable (∀ _ ∈ _, _))

instance : (event : SilenceEvent) → Decidable (w.AbsentLong cfg event)
  | .tick _ => inferInstanceAs (Decidable (∀ _ ∈ _, _ → _ → _ → _ → _))
  | .restart .. => .isTrue trivial

/-- What the table of positions says about the messages that were drained. -/
structure Heard (p : PeerTable) (started : Nat) (history : List Received) : Prop where
  since : ∀ id entry, p.peersLsn.lookup id = some entry → started ≤ entry.seen
  seen : ∀ m ∈ history, ∀ gossip, decodeGossip m.payload = some gossip →
    p.Seen m.sender m.storedAt

structure Tracked : Prop where
  heard : Heard w.node.sup.peers w.started w.history
  started_le : w.started ≤ w.clock
  history_le : ∀ m ∈ w.history, m.storedAt ≤ w.clock
  names : ∀ d, w.node.sup.decided = some d → d.primary ≠ 0

variable {cfg w} {inp : TickInput}

/-- The readings of a tick, taken apart. -/
theorem regular_readings (hregular : w.Regular (.tick inp)) :
    (∀ m ∈ inp.received, w.clock ≤ m.storedAt ∧ m.storedAt ≤ inp.storedAt) ∧
      inp.received.Pairwise (fun first second => first.storedAt ≤ second.storedAt) ∧
      w.clock ≤ inp.storedAt ∧ inp.storedAt ≤ inp.leaderNow := by
  obtain ⟨hclock, hrest⟩ := List.pairwise_cons.mp hregular.1
  obtain ⟨hstamps, hlast, hbefore⟩ := List.pairwise_append.mp hrest
  refine ⟨fun m hm => ?_, List.pairwise_map.mp hstamps, hclock _ (by simp), by simpa using hlast⟩
  have hmem : m.storedAt ∈ inp.received.map Received.storedAt := List.mem_map_of_mem hm
  exact ⟨hclock _ (List.mem_append_left _ hmem), hbefore _ hmem _ (by simp)⟩

theorem Tracked.prepared_heard (htracked : w.Tracked) (hregular : w.Regular (.tick inp)) :
    Heard (w.prepared cfg inp).peers w.started (w.history ++ inp.received) := by
  obtain ⟨hreceived, hsorted, hown, -⟩ := regular_readings hregular
  have hstarted := htracked.started_le
  constructor
  · refine Supervisor.prepare_peersLsn_invariant htracked.heard.since ?_ (hstarted.trans hown)
    exact fun m hm _ _ => hstarted.trans (hreceived m hm).1
  · intro m hm gossip hdecode
    rcases List.mem_append.mp hm with hold | hnew
    · have hle := htracked.history_le m hold
      exact Supervisor.prepare_seen (fun m' hm' => hle.trans (hreceived m' hm').1) (hle.trans hown)
        (Or.inl (htracked.heard.seen m hold gossip hdecode))
    · exact Supervisor.prepare_seen_of_drain (hreceived m hnew).2
        (PeerTable.seen_drain_of_sorted hsorted hnew hdecode)

theorem Tracked.prepared_names (htracked : w.Tracked) (hregular : w.Regular (.tick inp))
    {d : Decision} (hdecided : (w.prepared cfg inp).decided = some d) : d.primary ≠ 0 := by
  change (w.node.sup.lead cfg inp).decided = some d at hdecided
  rw [Supervisor.lead_decided] at hdecided
  split at hdecided
  next => exact hregular.2 d hdecided
  next => exact htracked.names d hdecided

theorem tracked_fresh {settings : Settings} {current : Option Decision} {now : Nat}
    (hcurrent : ∀ d ∈ current, d.primary ≠ 0) : (fresh settings current now).Tracked := by
  refine ⟨⟨fun id entry hlookup => ?_, by simp [fresh]⟩, le_rfl, by simp [fresh], hcurrent⟩
  cases hlookup

theorem Tracked.after (htracked : w.Tracked) {event : SilenceEvent} (hregular : w.Regular event) :
    (w.after cfg event).Tracked := by
  cases event with
  | restart current now => exact tracked_fresh hregular
  | tick inp =>
      obtain ⟨hreceived, -, hown, hleader⟩ := regular_readings hregular
      have hclock : w.clock ≤ inp.leaderNow := hown.trans hleader
      refine ⟨?_, htracked.started_le.trans hclock, fun m hm => ?_, fun d hdecided => ?_⟩
      · change Heard (w.node.tick cfg inp).sup.peers _ _
        rw [Node.tick_peers]
        exact htracked.prepared_heard hregular
      · rcases List.mem_append.mp hm with hold | hnew
        · exact (htracked.history_le m hold).trans hclock
        · exact (hreceived m hnew).2.trans hleader
      · change (w.node.tick cfg inp).sup.decided = some d at hdecided
        rw [Node.tick_decided] at hdecided
        exact htracked.prepared_names hregular hdecided

/-- With an entry for a primary that is not alive, the primary is another node that has
been silent since the entry was stored. -/
theorem knownSilent_of_entry {id : Nat} {entry : PeerEntry}
    (hheard : Heard (w.prepared cfg inp).peers w.started (w.history ++ inp.received))
    (hlookup : (w.prepared cfg inp).peers.peersLsn.lookup id = some entry)
    (hlost : ∀ member ∈ (w.prepared cfg inp).live cfg inp.leaderNow, member.id ≠ id) :
    id ≠ cfg.nodeId ∧ w.KnownSilent inp id := by
  have hold : ¬ (id = cfg.nodeId ∨ inp.leaderNow - entry.seen < deadTimeout) := by
    intro hlive
    exact hlost ⟨id, entry.lsn, entry.inRecovery⟩
      (Supervisor.mem_live.mpr ⟨entry.seen, hlookup, hlive⟩) rfl
  have hpos : 0 < deadTimeout := by decide
  have hseen : entry.seen + deadTimeout ≤ inp.leaderNow := by omega
  refine ⟨fun hself => hold (Or.inl hself), ⟨?_, ?_⟩⟩
  · have hstarted := hheard.since id entry hlookup
    omega
  · rintro m hm rfl gossip hdecode
    obtain ⟨entry', hlookup', hle⟩ := hheard.seen m hm gossip hdecode
    obtain rfl := Option.some.inj (hlookup.symm.trans hlookup')
    omega

/-- Without an entry no gossip of the primary has been drained. -/
theorem knownSilent_of_absent {id : Nat}
    (hheard : Heard (w.prepared cfg inp).peers w.started (w.history ++ inp.received))
    (hlookup : (w.prepared cfg inp).peers.peersLsn.lookup id = none)
    (hrunning : w.started + deadTimeout ≤ inp.leaderNow) : w.KnownSilent inp id := by
  refine ⟨hrunning, ?_⟩
  rintro m hm rfl gossip hdecode
  obtain ⟨entry, hlookup', -⟩ := hheard.seen m hm gossip hdecode
  cases hlookup.symm.trans hlookup'

theorem primaryAlive_eq_false_iff {current : Decision} (hprimary : current.primary ≠ 0)
    (hdecided : (w.prepared cfg inp).decided = some current) :
    (w.prepared cfg inp).primaryAlive cfg inp.leaderNow = false ↔
      ∀ member ∈ (w.prepared cfg inp).live cfg inp.leaderNow, member.id ≠ current.primary := by
  simp [Supervisor.primaryAlive, Supervisor.decidedPrimary_of_decided hdecided, hprimary]

/-- A leader that may propose and has no entry for the primary proposes another node. -/
theorem exists_proposal_of_absent {current : Decision} (hprimary : current.primary ≠ 0)
    (hdecided : (w.prepared cfg inp).decided = some current) (hleader : inp.isLeader = true)
    (hmajority : cfg.majority ≤ ((w.prepared cfg inp).live cfg inp.leaderNow).length)
    (hflight : (w.prepared cfg inp).inFlight ((w.prepared cfg inp).decidedSeq + 1) = false)
    (habsent : (w.prepared cfg inp).peers.peersLsn.lookup current.primary = none) :
    ∃ d ∈ (w.node.report cfg inp).proposal, d.primary ≠ current.primary := by
  have hothers : ∀ member ∈ (w.prepared cfg inp).live cfg inp.leaderNow,
      member.id ≠ current.primary := by
    intro member hmember heq
    obtain ⟨seen, hlookup, -⟩ := Supervisor.mem_live.mp hmember
    rw [heq, habsent] at hlookup
    cases hlookup
  obtain ⟨d, hproposal, member, hmember, hid⟩ := Supervisor.exists_proposal_of_lost hleader
    hmajority hflight (Option.isSome_of_mem hdecided)
    ((primaryAlive_eq_false_iff hprimary hdecided).mpr hothers)
  exact ⟨d, hproposal, hid ▸ hothers member hmember⟩

/-- A primary that is replaced is not alive. -/
theorem primaryAlive_of_replaced {current d : Decision}
    (hdecided : (w.prepared cfg inp).decided = some current)
    (hproposal : d ∈ (w.node.report cfg inp).proposal) (hne : d.primary ≠ current.primary) :
    (w.prepared cfg inp).primaryAlive cfg inp.leaderNow = false := by
  by_contra halive
  rw [Bool.not_eq_false] at halive
  exact hne (Supervisor.proposal_primary_of_alive hdecided halive hproposal)

/-- A regular tick replaces only a silent primary exactly when it does not lead too early
without an entry for it. -/
theorem Tracked.replacesSilent_iff (htracked : w.Tracked) {event : SilenceEvent}
    (hregular : w.Regular event) : w.ReplacesSilent cfg event ↔ w.AbsentLong cfg event := by
  cases event with
  | restart current now => exact Iff.rfl
  | tick inp =>
      have hheard : Heard (w.prepared cfg inp).peers w.started (w.history ++ inp.received) :=
        htracked.prepared_heard hregular
      simp only [ReplacesSilent, AbsentLong]
      refine forall_congr' fun current => forall_congr' fun hdecided => ?_
      have hprimary := htracked.prepared_names hregular hdecided
      constructor
      · intro hreplaces hleader hmajority hflight habsent
        obtain ⟨d, hproposal, hne⟩ :=
          exists_proposal_of_absent hprimary hdecided hleader hmajority hflight habsent
        have hreplaced := hreplaces d hproposal hne
        exact ⟨hreplaced.1, hreplaced.2.running⟩
      · intro hlong d hproposal hne
        have hlost := primaryAlive_of_replaced hdecided hproposal hne
        obtain ⟨hleader, hmajority, -⟩ := Supervisor.proposal_eq_some hproposal
        have hflight := Supervisor.not_inFlight_of_proposal hproposal
        cases hlookup : (w.prepared cfg inp).peers.peersLsn.lookup current.primary with
        | none =>
            obtain ⟨hother, hrunning⟩ := hlong hleader hmajority hflight hlookup
            exact ⟨hother, knownSilent_of_absent hheard hlookup hrunning⟩
        | some entry =>
            exact knownSilent_of_entry hheard hlookup
              ((primaryAlive_eq_false_iff hprimary hdecided).mp hlost)

/-- In a run across restarts a leader replaces only primaries it knows to be silent exactly
when it never leads without an entry for the primary before it has run for `dead_timeout`,
and never without one for itself. -/
theorem replacesSilent_iff_of_run {settings : Settings} {current : Option Decision} {now : Nat}
    {events : List SilenceEvent} (hcurrent : ∀ d ∈ current, d.primary ≠ 0)
    (hregular : EachStep (after cfg) Regular (fresh settings current now) events) :
    EachStep (after cfg) (ReplacesSilent cfg) (fresh settings current now) events ↔
      EachStep (after cfg) (AbsentLong cfg) (fresh settings current now) events := by
  refine EachStep.congr_of_invariant (I := Tracked) ?_ ?_ (tracked_fresh hcurrent) hregular
  · exact fun w event htracked hstep => htracked.after hstep
  · exact fun w event htracked hstep => htracked.replacesSilent_iff hstep

/-- Node 2 hears the primary once, and leads from its fifth tick on. -/
def primaryLost : List SilenceEvent :=
  [.tick (.plain 100 [.gossip 1 100 0 false 1, .gossip 3 100 0 true 1] (some ⟨1, 1⟩)),
    .tick (.plain 700 [] (some ⟨1, 1⟩)), .tick (.plain 1300 [] (some ⟨1, 1⟩)),
    .tick (.plain 1900 [] (some ⟨1, 1⟩)),
    .tick (TickInput.plain 2600 [.gossip 3 2600 0 true 1] (some ⟨1, 1⟩)).leading]

/-- After 2500 ms of silence it proposes itself. -/
theorem replacesSilent_primaryLost :
    EachStep (after (.threeNodes 2 (by decide))) (ReplacesSilent (.threeNodes 2 (by decide)))
      (fresh ⟨true, "", ""⟩ (some ⟨1, 1⟩) 0) primaryLost :=
  (replacesSilent_iff_of_run (by decide) (by decide)).mpr (by decide)

/-- The decided primary restarts as the leader, hears the others before it has an entry of
its own, and replaces itself. -/
theorem not_replacesSilent_of_absent :
    ¬ ∀ (cfg : Config) (settings : Settings) (current : Option Decision) (now : Nat)
      (events : List SilenceEvent), (∀ d ∈ current, d.primary ≠ 0) →
        EachStep (after cfg) Regular (fresh settings current now) events →
          EachStep (after cfg) (ReplacesSilent cfg) (fresh settings current now) events := by
  intro hreplaces
  have hsteps := hreplaces (.threeNodes 1 (by decide)) ⟨false, "", ""⟩ (some ⟨1, 1⟩) 0
    [.tick (TickInput.plain 100 (heardBoth 100 1) (some ⟨1, 1⟩)).leading] (by decide) (by decide)
  obtain ⟨hself, -⟩ := hsteps.1 ⟨1, 1⟩ rfl ⟨2, 2⟩ (by decide) (by decide)
  exact hself rfl

end SilenceWatch

end PgReplica
