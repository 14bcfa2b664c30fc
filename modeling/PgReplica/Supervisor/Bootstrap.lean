import PgReplica.Foundation.Run
import PgReplica.Supervisor.Gossip

/-! # Authority without a decision

Before the first decision a node that hears a majority may write, unless the marker
file or a peer tells of a cluster that has decided before. The file can be looked for
only after `SHOW data_directory` has succeeded; until then the node takes it to be absent.
-/

namespace PgReplica

open Foundation

/-- No message of the history carries the sequence number of a decision. -/
def reportsNone (history : List Received) : Bool :=
  history.all fun m => (decodeGossip m.payload).all fun gossip => gossip.seq == 0

theorem reportsNone_eq_true_iff {history : List Received} : reportsNone history = true ↔
    ∀ m ∈ history, ∀ gossip, decodeGossip m.payload = some gossip → gossip.seq = 0 := by
  simp [reportsNone, Option.all_eq_true]

namespace PeerTable

/-- Every sequence number that was reported is covered by its sender's entry, and every
positive entry was reported. -/
structure CoversSeqs (p : PeerTable) (history : List Received) : Prop where
  covered : ∀ m ∈ history, ∀ gossip, decodeGossip m.payload = some gossip →
    gossip.seq ≤ (p.peersSeq.lookup m.sender).getD 0
  reported : ∀ id seq, p.peersSeq.lookup id = some seq →
    seq = 0 ∨ ∃ m ∈ history, ∃ gossip, decodeGossip m.payload = some gossip ∧ gossip.seq = seq

variable {p : PeerTable} {history : List Received}

theorem hear_peersSeq_of_some {m : Received} {gossip : Gossip}
    (hdecode : decodeGossip m.payload = some gossip) : (p.hear m).peersSeq =
      p.peersSeq.insert m.sender (max ((p.peersSeq.lookup m.sender).getD 0) gossip.seq) := by
  simp [hear, hdecode]

theorem hear_peersSeq_of_none {m : Received} (hdecode : decodeGossip m.payload = none) :
    (p.hear m).peersSeq = p.peersSeq := by
  simp [hear, hdecode]

/-- A number that was reported has been reported after one more message. -/
theorem reported_append {seq : Nat} (m : Received) (hreported : seq = 0 ∨ ∃ m ∈ history,
    ∃ gossip, decodeGossip m.payload = some gossip ∧ gossip.seq = seq) :
    seq = 0 ∨ ∃ m' ∈ history ++ [m], ∃ gossip,
      decodeGossip m'.payload = some gossip ∧ gossip.seq = seq := by
  refine hreported.imp_right ?_
  rintro ⟨m', hm', hreport⟩
  exact ⟨m', List.mem_append_left _ hm', hreport⟩

theorem CoversSeqs.hear_of_none (hcovers : p.CoversSeqs history) {m : Received}
    (hdecode : decodeGossip m.payload = none) : (p.hear m).CoversSeqs (history ++ [m]) := by
  refine ⟨fun m' hm' gossip hgossip => ?_, fun id seq hlookup => ?_⟩
  · rw [hear_peersSeq_of_none hdecode]
    rcases List.mem_append.mp hm' with hold | hnew
    · exact hcovers.covered m' hold gossip hgossip
    · rw [List.mem_singleton.mp hnew, hdecode] at hgossip
      cases hgossip
  · rw [hear_peersSeq_of_none hdecode] at hlookup
    exact reported_append m (hcovers.reported id seq hlookup)

/-- What is stored for a sender covers what was known and what it says. -/
theorem CoversSeqs.covered_hear (hcovers : p.CoversSeqs history) {m m' : Received}
    {heard gossip : Gossip} (hdecode : decodeGossip m.payload = some heard)
    (hm' : m' ∈ history ++ [m]) (hgossip : decodeGossip m'.payload = some gossip) :
    gossip.seq ≤ ((p.hear m).peersSeq.lookup m'.sender).getD 0 := by
  rw [hear_peersSeq_of_some hdecode, Table.lookup_insert]
  rcases List.mem_append.mp hm' with hold | hnew
  · have hle := hcovers.covered m' hold gossip hgossip
    split
    next heq =>
      rw [heq] at hle
      exact hle.trans (le_max_left ..)
    next => exact hle
  · obtain rfl := List.mem_singleton.mp hnew
    obtain rfl := Option.some.inj (hdecode.symm.trans hgossip)
    rw [if_pos rfl]
    exact le_max_right ..

theorem CoversSeqs.reported_hear (hcovers : p.CoversSeqs history) {m : Received} {heard : Gossip}
    (hdecode : decodeGossip m.payload = some heard) {id seq : Nat}
    (hlookup : (p.hear m).peersSeq.lookup id = some seq) :
    seq = 0 ∨ ∃ m' ∈ history ++ [m], ∃ gossip,
      decodeGossip m'.payload = some gossip ∧ gossip.seq = seq := by
  rw [hear_peersSeq_of_some hdecode, Table.lookup_insert] at hlookup
  split at hlookup
  next =>
    obtain rfl := Option.some.inj hlookup
    -- the maximum is what was known or what the message says
    rcases Nat.le_total heard.seq ((p.peersSeq.lookup m.sender).getD 0) with hle | hle
    · rw [Nat.max_eq_left hle]
      cases hknown : p.peersSeq.lookup m.sender with
      | none => exact Or.inl rfl
      | some known => exact reported_append m (hcovers.reported m.sender known hknown)
    · rw [Nat.max_eq_right hle]
      exact Or.inr ⟨m, by simp, heard, hdecode, rfl⟩
  next => exact reported_append m (hcovers.reported id seq hlookup)

theorem CoversSeqs.hear (hcovers : p.CoversSeqs history) (m : Received) :
    (p.hear m).CoversSeqs (history ++ [m]) := by
  cases hdecode : decodeGossip m.payload with
  | none => exact hcovers.hear_of_none hdecode
  | some heard =>
      constructor
      · intro m' hm' gossip hgossip
        exact hcovers.covered_hear hdecode hm' hgossip
      · intro id seq hlookup
        exact hcovers.reported_hear hdecode hlookup

theorem CoversSeqs.drain (hcovers : p.CoversSeqs history) (received : List Received) :
    (p.drain received).CoversSeqs (history ++ received) := by
  induction received generalizing p history with
  | nil => simpa using hcovers
  | cons m rest ih =>
      rw [drain_cons, List.append_cons]
      exact ih (hcovers.hear m)

end PeerTable

namespace Supervisor

variable {s : Supervisor} {cfg : Config} {inp : TickInput} {history : List Received}

theorem clusterSeq_eq_zero_iff :
    s.clusterSeq = 0 ↔ ∀ id seq, s.peers.peersSeq.lookup id = some seq → seq = 0 := by
  have hmem : ∀ seq, seq ∈ s.peers.peersSeq.entries.map Prod.snd ↔
      ∃ id, s.peers.peersSeq.lookup id = some seq := by
    simp [Table.mem_entries_iff]
  rw [clusterSeq]
  cases hmax : (s.peers.peersSeq.entries.map Prod.snd).max? with
  | none =>
      refine iff_of_true rfl fun id seq hlookup => ?_
      have hseq := (hmem seq).mpr ⟨id, hlookup⟩
      rw [List.max?_eq_none_iff.mp hmax] at hseq
      cases hseq
  | some greatest =>
      obtain ⟨hgreatest, hle⟩ := List.max?_eq_some_iff.mp hmax
      constructor
      · intro hzero id seq hlookup
        have hseq := hle seq ((hmem seq).mpr ⟨id, hlookup⟩)
        rw [Option.getD_some] at hzero
        omega
      · intro hall
        obtain ⟨id, hlookup⟩ := (hmem greatest).mp hgreatest
        exact hall id greatest hlookup

/-- The greatest number in the table is 0 exactly when no message has reported a decision. -/
theorem clusterSeq_eq_zero_iff_reportsNone (hcovers : s.peers.CoversSeqs history) :
    s.clusterSeq = 0 ↔ reportsNone history = true := by
  rw [clusterSeq_eq_zero_iff, reportsNone_eq_true_iff]
  constructor
  · intro hzero m hm gossip hdecode
    have hle := hcovers.covered m hm gossip hdecode
    cases hlookup : s.peers.peersSeq.lookup m.sender with
    | none => simpa [hlookup] using hle
    | some seq =>
        rw [hlookup, hzero m.sender seq hlookup] at hle
        simpa using hle
  · intro hnone id seq hlookup
    rcases hcovers.reported id seq hlookup with hzero | ⟨m, hm, gossip, hdecode, rfl⟩
    · exact hzero
    · exact hnone m hm gossip hdecode

/-- Authority without a decision, read off the tables. -/
theorem authorized_eq_of_undecided (hdecided : s.decided = none) : s.authorized cfg inp =
    (s.quorumOk cfg inp.contactNow && s.clusterSeq == 0 && !s.clusterMarker) := by
  rw [authorized_of_undecided hdecided, rawAuth, hdecided]

/-! ## The marker file -/

/-- The state in which a tick turns to the marker file. -/
def beforeMarker (s : Supervisor) (cfg : Config) (inp : TickInput) : Supervisor :=
  (((s.stallCheck inp.loopNow).drainGossip inp.received).adoptDecision
    inp.currentDecision).countTick cfg inp

/-- The tick writes the file. -/
def writesMarker (s : Supervisor) (inp : TickInput) : Bool :=
  !(if (s.learnedDirectory inp).isSome then inp.markerExists else s.clusterMarker) &&
    s.decided.isSome && ((s.learnedDirectory inp).or s.datadir).isSome

theorem checkMarker_clusterMarker : (s.checkMarker inp).clusterMarker =
    if s.writesMarker inp then inp.markerWritten
    else if (s.learnedDirectory inp).isSome then inp.markerExists else s.clusterMarker := rfl

theorem writesMarker_of_undecided (hdecided : s.decided = none) : s.writesMarker inp = false := by
  simp [writesMarker, hdecided]

theorem lead_clusterMarker : (s.lead cfg inp).clusterMarker =
    ((s.beforeMarker cfg inp).checkMarker inp).clusterMarker := rfl

theorem lead_datadir : (s.lead cfg inp).datadir =
    ((s.beforeMarker cfg inp).learnedDirectory inp).or s.datadir := rfl

/-- A decision is never given up. -/
theorem decided_of_lead_undecided (hdecided : (s.lead cfg inp).decided = none) :
    s.decided = none := by
  rw [lead_decided] at hdecided
  split at hdecided
  next hchanged =>
    rw [hdecided] at hchanged
    cases hchanged
  next => exact hdecided

end Supervisor

/-- A node, the marker file in its data directory, and every message that the running
process has drained. -/
structure BootstrapWatch where
  node : Node
  marker : Bool
  history : List Received

/-- A tick, with what a write that fails leaves of the file, or a restart of the process,
with whatever Raft and the data directory hold by then. -/
inductive BootstrapEvent where
  | tick (inp : TickInput) (left : Bool)
  | restart (current : Option Decision) (now : Nat) (marker : Bool)

namespace BootstrapWatch

variable (cfg : Config) (w : BootstrapWatch)

/-- The tick finds the file that is there. -/
def look (inp : TickInput) : TickInput :=
  { inp with markerExists := w.marker }

/-- The supervisor when the tick computes its authority. -/
def checked (inp : TickInput) : Supervisor :=
  w.node.sup.lead cfg (w.look inp)

def after : BootstrapEvent → BootstrapWatch
  | .tick inp left =>
      { node := w.node.tick cfg (w.look inp)
        marker :=
          if (w.node.sup.beforeMarker cfg (w.look inp)).writesMarker (w.look inp) then
            inp.markerWritten || left
          else w.marker
        history := w.history ++ inp.received }
  | .restart current now marker => ⟨⟨.start current now, w.node.settings⟩, marker, []⟩

/-- Authority without a decision is taken only where there is no marker file, and no
message that was heard reports a decision. -/
def BootstrapsAlone : BootstrapEvent → Prop
  | .tick inp left =>
      (w.node.report cfg (w.look inp)).authorized = some true → (w.checked cfg inp).decided = none →
        (w.after cfg (.tick inp left)).marker = false ∧
          reportsNone (w.after cfg (.tick inp left)).history = true
  | .restart .. => True

/-- A node out of recovery that hears a majority and no decision, neither its own nor
another's, knows its data directory if the marker file is there. -/
def KnowsDirectory : BootstrapEvent → Prop
  | .tick inp _ =>
      inp.inRecovery = false → (w.checked cfg inp).decided = none →
        (w.checked cfg inp).quorumOk cfg inp.contactNow = true →
          reportsNone (w.history ++ inp.received) = true → w.marker = true →
            (w.checked cfg inp).datadir.isSome = true
  | .restart .. => True

instance : (event : BootstrapEvent) → Decidable (w.BootstrapsAlone cfg event)
  | .tick _ _ => inferInstanceAs (Decidable (_ → _))
  | .restart .. => .isTrue trivial

instance : (event : BootstrapEvent) → Decidable (w.KnowsDirectory cfg event)
  | .tick _ _ => inferInstanceAs (Decidable (_ → _))
  | .restart .. => .isTrue trivial

/-- What the caches of a node without a decision stand for. -/
structure Cached : Prop where
  covers : w.node.sup.peers.CoversSeqs w.history
  marker : w.node.sup.decided = none →
    w.node.sup.clusterMarker = (w.marker && w.node.sup.datadir.isSome)

variable {cfg w} {inp : TickInput}

theorem Cached.checked_covers (hcached : w.Cached) :
    (w.checked cfg inp).peers.CoversSeqs (w.history ++ inp.received) :=
  ⟨(hcached.covers.drain inp.received).covered, (hcached.covers.drain inp.received).reported⟩

/-- Without a decision the node knows of the file exactly when it knows the directory. -/
theorem Cached.checked_marker (hcached : w.Cached) (hdecided : (w.checked cfg inp).decided = none) :
    (w.checked cfg inp).clusterMarker = (w.marker && (w.checked cfg inp).datadir.isSome) := by
  have hheld := hcached.marker (Supervisor.decided_of_lead_undecided hdecided)
  have hnone : (w.node.sup.beforeMarker cfg (w.look inp)).decided = none := hdecided
  rw [checked, Supervisor.lead_clusterMarker, Supervisor.checkMarker_clusterMarker,
    Supervisor.writesMarker_of_undecided hnone, Supervisor.lead_datadir]
  cases (w.node.sup.beforeMarker cfg (w.look inp)).learnedDirectory (w.look inp) with
  | none => exact hheld
  | some dir => exact (Bool.and_true w.marker).symm

theorem after_marker_of_undecided {left : Bool} (hdecided : (w.checked cfg inp).decided = none) :
    (w.after cfg (.tick inp left)).marker = w.marker := by
  have hnone : (w.node.sup.beforeMarker cfg (w.look inp)).decided = none := hdecided
  rw [after, Supervisor.writesMarker_of_undecided hnone]
  rfl

theorem Cached.after (hcached : w.Cached) (event : BootstrapEvent) :
    (w.after cfg event).Cached := by
  cases event with
  | restart current now marker =>
      refine ⟨⟨by simp [BootstrapWatch.after], ?_⟩, fun _ => ?_⟩
      · intro id seq hlookup
        cases hlookup
      · exact (Bool.and_false marker).symm
  | tick inp left =>
      have hfields : (w.node.tick cfg (w.look inp)).sup.clusterMarker =
            (w.checked cfg inp).clusterMarker ∧
          (w.node.tick cfg (w.look inp)).sup.datadir = (w.checked cfg inp).datadir := by
        rw [Node.tick]
        cases (w.look inp).inRecovery <;> exact ⟨rfl, rfl⟩
      refine ⟨?_, fun hdecided => ?_⟩
      · change (w.node.tick cfg (w.look inp)).sup.peers.CoversSeqs _
        rw [Node.tick_peers]
        have hcovers : (w.checked cfg inp).peers.CoversSeqs (w.history ++ inp.received) :=
          hcached.checked_covers
        exact hcovers
      · change (w.node.tick cfg (w.look inp)).sup.decided = none at hdecided
        rw [Node.tick_decided] at hdecided
        rw [after_marker_of_undecided hdecided]
        change (w.node.tick cfg (w.look inp)).sup.clusterMarker =
          (w.marker && (w.node.tick cfg (w.look inp)).sup.datadir.isSome)
        rw [hfields.1, hfields.2]
        exact hcached.checked_marker hdecided

/-- What authority without a decision rests on. -/
theorem Cached.authorized_iff (hcached : w.Cached) (hdecided : (w.checked cfg inp).decided = none) :
    (w.checked cfg inp).authorized cfg (w.look inp) = true ↔
      (w.checked cfg inp).quorumOk cfg inp.contactNow = true ∧
        reportsNone (w.history ++ inp.received) = true ∧
        ¬ (w.marker = true ∧ (w.checked cfg inp).datadir.isSome = true) := by
  rw [Supervisor.authorized_eq_of_undecided hdecided, hcached.checked_marker hdecided,
    ← Supervisor.clusterSeq_eq_zero_iff_reportsNone hcached.checked_covers, Bool.and_eq_true,
    Bool.and_eq_true, and_assoc, beq_iff_eq, Bool.not_eq_true', ← Bool.not_eq_true,
    Bool.and_eq_true]
  rfl

/-- A tick takes authority in an existing cluster exactly when the file is there and the
directory is not known. -/
theorem Cached.bootstrapsAlone_iff (hcached : w.Cached) (event : BootstrapEvent) :
    w.BootstrapsAlone cfg event ↔ w.KnowsDirectory cfg event := by
  cases event with
  | restart current now marker => exact Iff.rfl
  | tick inp left =>
      simp only [BootstrapsAlone, KnowsDirectory, Node.report_authorized_eq_some_iff]
      constructor
      · intro halone hrecovery hdecided hquorum hnone hmarker
        by_contra hunknown
        have hauth := (hcached.authorized_iff hdecided).mpr
          ⟨hquorum, hnone, fun hknown => hunknown hknown.2⟩
        have habsent := (halone ⟨hrecovery, hauth⟩ hdecided).1
        rw [after_marker_of_undecided hdecided, hmarker] at habsent
        cases habsent
      · rintro hknows ⟨hrecovery, hauth⟩ hdecided
        obtain ⟨hquorum, hnone, hclear⟩ := (hcached.authorized_iff hdecided).mp hauth
        refine ⟨?_, hnone⟩
        rw [after_marker_of_undecided hdecided, ← Bool.not_eq_true]
        exact fun hmarker => hclear ⟨hmarker, hknows hrecovery hdecided hquorum hnone hmarker⟩

/-- In a run across restarts, authority is never taken inside an existing cluster exactly
when every node that could take it knows its data directory or has no marker file. -/
theorem bootstrapsAlone_iff_of_run {node : Node} {marker : Bool} {events : List BootstrapEvent}
    (hstart : node.Started) :
    EachStep (after cfg) (BootstrapsAlone cfg) ⟨node, marker, []⟩ events ↔
      EachStep (after cfg) (KnowsDirectory cfg) ⟨node, marker, []⟩ events := by
  refine EachStep.iff_of_invariant (I := Cached) ?_ ?_ ⟨⟨by simp, ?_⟩, fun _ => ?_⟩
  · exact fun w event hcached _ => hcached.after event
  · exact fun w event hcached => hcached.bootstrapsAlone_iff event
  · obtain ⟨current, now, hsup⟩ := hstart
    intro id seq hlookup
    rw [hsup] at hlookup
    cases hlookup
  · obtain ⟨current, now, hsup⟩ := hstart
    rw [hsup]
    exact (Bool.and_false marker).symm

/-- Node 1 has lost its Raft directory. It hears both peers, which report no decision, and
learns its data directory or not. -/
def lostRaft (dir : Option String) : List BootstrapEvent :=
  [.restart none 0 true,
    .tick { TickInput.plain 100 (heardBoth 100 0) none with dataDirectory := dir } false]

/-- The file keeps a node that finds it from taking authority. -/
theorem bootstrapsAlone_of_known :
    EachStep (after (.threeNodes 1 (by decide))) (BootstrapsAlone (.threeNodes 1 (by decide)))
      ⟨.firstPrimary ⟨false, "", ""⟩, true, []⟩ (lostRaft (some "/data")) := by
  refine (bootstrapsAlone_iff_of_run (Node.firstPrimary_started _)).mpr ?_
  decide

/-- `SHOW data_directory` fails, and the node becomes writable in an existing cluster. -/
theorem not_bootstrapsAlone_of_unknown :
    ¬ ∀ (cfg : Config) (node : Node) (marker : Bool) (events : List BootstrapEvent), node.Started →
      EachStep (after cfg) (BootstrapsAlone cfg) ⟨node, marker, []⟩ events := by
  intro halone
  have hsteps := halone (.threeNodes 1 (by decide)) (.firstPrimary ⟨false, "", ""⟩) true
    (lostRaft none) (Node.firstPrimary_started _)
  revert hsteps
  decide

end BootstrapWatch

end PgReplica
