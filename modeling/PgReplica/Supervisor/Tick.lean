import PgReplica.Supervisor.State

/-! # One tick of the supervisor loop

The body of the loop in `pg_replica_supervisor_main`, cut into the phases that
follow each other in the source: stall check, gossip, decision, broadcast,
cluster marker, leader block, and one branch for a node in recovery and one for
a node out of it. A field that a phase leaves alone is untouched by definition.
-/

namespace PgReplica

open Foundation

namespace PeerTable

/-- One drained message. Hearing from a peer does not depend on its payload. -/
def hear (p : PeerTable) (m : Received) : PeerTable :=
  let heard := p.lastHeard.insert m.sender m.heardAt
  match decodeGossip m.payload with
  | none => { p with lastHeard := heard }
  | some gossip =>
      { peersLsn := p.peersLsn.insert m.sender ⟨gossip.lsn, gossip.inRecovery, m.storedAt⟩
        lastHeard := heard
        peersReconfirm := p.peersReconfirm.insert m.sender gossip.reconfirm
        peersSeq :=
          p.peersSeq.insert m.sender (max ((p.peersSeq.lookup m.sender).getD 0) gossip.seq) }

def drain (p : PeerTable) (received : List Received) : PeerTable :=
  received.foldl hear p

end PeerTable

namespace Supervisor

/-! ## Before the leader block -/

def stalled (s : Supervisor) (loopNow : Nat) : Bool :=
  decide (stallThreshold < loopNow - s.lastLoop)

def stallCheck (s : Supervisor) (loopNow : Nat) : Supervisor :=
  { s with
    appliedReadOnly := if s.stalled loopNow then none else s.appliedReadOnly
    authorizedSince := if s.stalled loopNow then none else s.authorizedSince
    reconfirmPending := if s.stalled loopNow then true else s.reconfirmPending
    lastLoop := loopNow }

def drainGossip (s : Supervisor) (received : List Received) : Supervisor :=
  { s with peers := s.peers.drain received }

/-- The applied decision differs from the held one. -/
def decisionChanged (s : Supervisor) (current : Option Decision) : Bool :=
  match current with
  | none => false
  | some decision => decide (s.decided ≠ some decision)

def adoptDecision (s : Supervisor) (current : Option Decision) : Supervisor :=
  let changed := s.decisionChanged current
  { s with
    decided := if changed then current else s.decided
    promoted := if changed then false else s.promoted
    rejoining := if changed then false else s.rejoining
    appliedPrimary := if changed then 0 else s.appliedPrimary
    slotsEnsured := if changed then false else s.slotsEnsured
    reconfirmPending := if changed then false else s.reconfirmPending
    lastProposed := if changed then (0, 0) else s.lastProposed }

/-- `ticks += 1`, and on every fifth tick the node's own entry. -/
def countTick (s : Supervisor) (cfg : Config) (inp : TickInput) : Supervisor :=
  let ticks := s.ticks + 1
  { s with
    ticks
    peers :=
      { s.peers with
        peersLsn :=
          if ticks % gossipEvery = 0 then
            s.peers.peersLsn.insert cfg.nodeId ⟨inp.localWalLsn, inp.inRecovery, inp.storedAt⟩
          else s.peers.peersLsn } }

/-- The payload that goes out with the node's own entry. -/
def broadcast (s : Supervisor) (inp : TickInput) : Option (List UInt8) :=
  if s.ticks % gossipEvery = 0 then
    some (encodeGossip inp.localWalLsn inp.inRecovery s.reconfirmPending s.decidedSeq)
  else none

/-- The directory that a tick which asks for it learns: a non-empty answer. -/
def learnedDirectory (s : Supervisor) (inp : TickInput) : Option String :=
  if s.datadir.isNone ∧ s.ticks % 20 = 1 then inp.dataDirectory.filter fun dir => !dir.isEmpty
  else none

def checkMarker (s : Supervisor) (inp : TickInput) : Supervisor :=
  let learned := s.learnedDirectory inp
  let datadir := learned.or s.datadir
  let found := if learned.isSome then inp.markerExists else s.clusterMarker
  { s with
    datadir
    clusterMarker :=
      if !found && s.decided.isSome && datadir.isSome then inp.markerWritten else found }

/-- Everything up to the leader block. -/
def prepare (s : Supervisor) (cfg : Config) (inp : TickInput) : Supervisor :=
  ((((s.stallCheck inp.loopNow).drainGossip inp.received).adoptDecision
    inp.currentDecision).countTick cfg inp).checkMarker inp

/-! ## The leader block -/

/-- The node itself and the peers heard from within `dead_timeout`. -/
def live (s : Supervisor) (cfg : Config) (now : Nat) : List Candidate :=
  (s.peers.peersLsn.entries.filter fun e =>
    e.1 == cfg.nodeId || decide (now - e.2.seen < deadTimeout)).map fun e =>
      ⟨e.1, e.2.lsn, e.2.inRecovery⟩

def primaryAlive (s : Supervisor) (cfg : Config) (now : Nat) : Bool :=
  s.decidedPrimary != 0 && (s.live cfg now).any fun candidate => candidate.id == s.decidedPrimary

def needsReconfirm (s : Supervisor) (cfg : Config) (now : Nat) : Bool :=
  s.reconfirmPending ||
    (s.live cfg now).any fun member => (s.peers.peersReconfirm.lookup member.id).getD false

/-- A candidate with its position measured again. -/
def probe (cfg : Config) (inp : TickInput) (candidate : Candidate) : Candidate :=
  { candidate with
    lsn :=
      if candidate.id = cfg.nodeId then inp.walLsn
      else if (cfg.findMember candidate.id).isSome then
        -- an unanswered probe falls back to the gossiped position
        (inp.peerWalLsn candidate.id).getD candidate.lsn
      else candidate.lsn }

/-- Without a decision the smallest node out of recovery, instead of a lost
primary the most advanced node, and a live primary again when a node asks for it.
The positions in `fresh` are the measured ones, in any order. -/
def candidateFrom (s : Supervisor) (cfg : Config) (inp : TickInput) (fresh : List Candidate) :
    Option Nat :=
  let live := s.live cfg inp.leaderNow
  if s.decided.isNone then
    -- the recovery state is the gossiped one
    ((live.filter fun member => !member.inRecovery).map Candidate.id).min?
  else if !s.primaryAlive cfg inp.leaderNow then choosePrimary fresh
  else if s.needsReconfirm cfg inp.leaderNow then some s.decidedPrimary
  else none

def inFlight (s : Supervisor) (seq : Nat) : Bool :=
  s.lastProposed.1 == seq && decide (s.ticks - s.lastProposedTick < proposalRetry)

def proposalFrom (s : Supervisor) (cfg : Config) (inp : TickInput) (fresh : List Candidate) :
    Option Decision :=
  if inp.isLeader ∧ cfg.majority ≤ (s.live cfg inp.leaderNow).length ∧
      ¬ s.inFlight (s.decidedSeq + 1) then
    (s.candidateFrom cfg inp fresh).map fun candidate => ⟨s.decidedSeq + 1, candidate⟩
  else none

/-- The answers of the probes, in the order of their threads. -/
def measured (s : Supervisor) (cfg : Config) (inp : TickInput) : List Candidate :=
  (s.live cfg inp.leaderNow).map (probe cfg inp)

def proposalCandidate (s : Supervisor) (cfg : Config) (inp : TickInput) : Option Nat :=
  s.candidateFrom cfg inp (s.measured cfg inp)

def proposal (s : Supervisor) (cfg : Config) (inp : TickInput) : Option Decision :=
  s.proposalFrom cfg inp (s.measured cfg inp)

theorem proposalCandidate_eq (s : Supervisor) (cfg : Config) (inp : TickInput) :
    s.proposalCandidate cfg inp =
      if s.decided.isNone then
        (((s.live cfg inp.leaderNow).filter fun member => !member.inRecovery).map
          Candidate.id).min?
      else if !s.primaryAlive cfg inp.leaderNow then choosePrimary (s.measured cfg inp)
      else if s.needsReconfirm cfg inp.leaderNow then some s.decidedPrimary
      else none := rfl

theorem proposal_eq (s : Supervisor) (cfg : Config) (inp : TickInput) : s.proposal cfg inp =
    if inp.isLeader ∧ cfg.majority ≤ (s.live cfg inp.leaderNow).length ∧
        ¬ s.inFlight (s.decidedSeq + 1) then
      (s.proposalCandidate cfg inp).map fun candidate => ⟨s.decidedSeq + 1, candidate⟩
    else none := rfl

def recordProposal (s : Supervisor) (proposal : Option Decision) : Supervisor :=
  { s with
    lastProposed := (proposal.map fun d => (d.seq, d.primary)).getD s.lastProposed
    lastProposedTick := if proposal.isSome then s.ticks else s.lastProposedTick }

/-- Everything up to the two branches. -/
def lead (s : Supervisor) (cfg : Config) (inp : TickInput) : Supervisor :=
  (s.prepare cfg inp).recordProposal ((s.prepare cfg inp).proposal cfg inp)

/-- The peers heard from within `quorum_lease`. -/
def heardWithinLease (s : Supervisor) (cfg : Config) (contactNow : Nat) : List Nat :=
  (s.peers.lastHeard.entries.filter fun e =>
    e.1 != cfg.nodeId && decide (contactNow - e.2 < quorumLease)).map Prod.fst

def quorumOk (s : Supervisor) (cfg : Config) (contactNow : Nat) : Bool :=
  decide (cfg.majority ≤ 1 + (s.heardWithinLease cfg contactNow).length)

/-! ## Commands

A tick issues its commands one after the other. None of them looks at what became of the
ones before it. -/

end Supervisor

/-- A command to the node's own Postgres, and how it ends. -/
inductive Command where
  | readOnly (on : Bool) (outcome : SettingOutcome)
  | syncNames (names : String) (outcome : SettingOutcome)
  | primaryConninfo (conninfo : String) (outcome : SettingOutcome)
  | promote (outcome : SqlOutcome)
deriving DecidableEq

/-- What is persisted after a command. -/
def Settings.perform (settings : Settings) : Command → Settings
  | .readOnly on outcome =>
      { settings with readOnly := if outcome.tookEffect then on else settings.readOnly }
  | .syncNames names outcome =>
      { settings with syncNames := if outcome.tookEffect then names else settings.syncNames }
  | .primaryConninfo conninfo outcome =>
      { settings with
        primaryConninfo := if outcome.tookEffect then conninfo else settings.primaryConninfo }
  | .promote _ => settings

namespace Supervisor

/-! ## In recovery -/

section Recovery

variable (s : Supervisor) (cfg : Config) (inp : TickInput)

def clearsSync : Bool :=
  s.appliedSync != some ""

/-- A promotion that has not ended recovery counts as not issued after a while. -/
def promotionPending : Bool :=
  s.promoted && !decide (promoteRetry ≤ s.ticks - s.promoteTick)

def promotes : Bool :=
  s.decidedPrimary == cfg.nodeId && !s.promotionPending

def repoints : Bool :=
  s.decidedPrimary != cfg.nodeId && s.decidedPrimary != 0 &&
    s.appliedPrimary != s.decidedPrimary && (cfg.findMember s.decidedPrimary).isSome

def recover : Supervisor :=
  { s with
    appliedReadOnly := none
    authorizedSince := none
    appliedSync := if s.clearsSync && inp.clearSync.isOk then some "" else s.appliedSync
    promoted :=
      if s.promotes cfg then inp.promote.isOk
      else if s.decidedPrimary == cfg.nodeId then s.promotionPending else s.promoted
    promoteTick := if s.promotes cfg && inp.promote.isOk then s.ticks else s.promoteTick
    appliedPrimary :=
      if s.repoints cfg && inp.repoint.isOk then s.decidedPrimary else s.appliedPrimary }

/-- The results of the fence that precedes `pg_promote` are not looked at. -/
def recoverCommands : List Command :=
  (if s.clearsSync then [.syncNames "" inp.clearSync] else []) ++
    if s.promotes cfg then [.readOnly true inp.promoteFence, .promote inp.promote]
    else if s.repoints cfg then [.primaryConninfo cfg.standbyConninfo inp.repoint]
    else []

def recoverSettings (settings : Settings) : Settings :=
  (s.recoverCommands cfg inp).foldl Settings.perform settings

end Recovery

/-! ## Out of recovery -/

section Primary

variable (s : Supervisor) (cfg : Config) (inp : TickInput)

def clusterSeq : Nat :=
  ((s.peers.peersSeq.entries.map Prod.snd).max?).getD 0

def rawAuth : Bool :=
  match s.decided with
  | none => s.quorumOk cfg inp.contactNow && s.clusterSeq == 0 && !s.clusterMarker
  | some decision =>
      -- unlike above, the peers' sequence numbers play no part
      decision.primary == cfg.nodeId && s.quorumOk cfg inp.contactNow && !s.reconfirmPending

/-- Authority that need not wait for the confirm window. -/
def opensAtOnce : Bool :=
  s.decided.isNone || s.appliedReadOnly == some false

def nextAuthorizedSince : Option Nat :=
  if !s.rawAuth cfg inp then none
  else if s.opensAtOnce then some inp.sinceNow
  else some (s.authorizedSince.getD inp.sinceNow)

def authorized : Bool :=
  if !s.rawAuth cfg inp then false
  else if s.opensAtOnce then true
  else decide (confirmWindow ≤ inp.windowNow - s.authorizedSince.getD inp.sinceNow)

/-- `none` leaves `synchronous_standby_names` alone: a primary that is losing its
authority must not complete a waiting commit locally. -/
def wantSync : Option String :=
  if !cfg.synchronous then some ""
  else if s.authorized cfg inp && s.decided.isSome then some cfg.syncTarget
  else none

def fences : Bool :=
  !s.authorized cfg inp && s.appliedReadOnly != some true

def syncs : Bool :=
  match s.wantSync cfg inp with
  | none => false
  | some wanted => s.appliedSync != some wanted

def unfences : Bool :=
  s.authorized cfg inp && s.appliedReadOnly != some false

def rejoinDatadir : String :=
  s.datadir.getD (inp.rejoinDirectory.getD "")

def rejoin : Option RejoinCall :=
  if !s.authorized cfg inp && s.decidedPrimary != 0 && s.decidedPrimary != cfg.nodeId &&
      !s.rejoining && !cfg.rejoinScript.isEmpty then
    match cfg.findMember s.decidedPrimary with
    | none => none
    | some member =>
        let (primaryHost, primaryPort) := splitHostPort member.addr
        if (s.rejoinDatadir inp).isEmpty then none
        else some ⟨s.rejoinDatadir inp, primaryHost, primaryPort, cfg.standbyConninfo⟩
  else none

def serve : Supervisor :=
  { s with
    slotsEnsured := s.slotsEnsured || s.decidedPrimary == cfg.nodeId
    authorizedSince := s.nextAuthorizedSince cfg inp
    appliedReadOnly :=
      if s.fences cfg inp && inp.fence.isOk then some true
      else if s.unfences cfg inp && inp.unfence.isOk then some false
      else s.appliedReadOnly
    appliedSync :=
      if s.syncs cfg inp && inp.sync.isOk then s.wantSync cfg inp else s.appliedSync
    rejoining := s.rejoining || (s.rejoin cfg inp).isSome }

/-- Fence first, then configure sync, and unfence last. -/
def serveCommands : List Command :=
  (if s.fences cfg inp then [.readOnly true inp.fence] else []) ++
    (if s.syncs cfg inp then
      (s.wantSync cfg inp).toList.map fun wanted => .syncNames wanted inp.sync
    else []) ++
    if s.unfences cfg inp then [.readOnly false inp.unfence] else []

def serveSettings (settings : Settings) : Settings :=
  (s.serveCommands cfg inp).foldl Settings.perform settings

end Primary

end Supervisor

/-! ## The tick -/

namespace Node

variable (node : Node) (cfg : Config) (inp : TickInput)

def tick : Node :=
  let s := node.sup.lead cfg inp
  if inp.inRecovery then ⟨s.recover cfg inp, s.recoverSettings cfg inp node.settings⟩
  else ⟨s.serve cfg inp, s.serveSettings cfg inp node.settings⟩

/-- The commands of the tick, in the order in which they are issued. -/
def commands : List Command :=
  let s := node.sup.lead cfg inp
  if inp.inRecovery then s.recoverCommands cfg inp else s.serveCommands cfg inp

def report : TickReport :=
  let prepared := node.sup.prepare cfg inp
  let s := node.sup.lead cfg inp
  let primary := !inp.inRecovery
  { broadcast := prepared.broadcast inp
    proposal := prepared.proposal cfg inp
    promote := if inp.inRecovery && s.promotes cfg then some inp.promote else none
    authorized := if primary then some (s.authorized cfg inp) else none
    fence := if primary && s.fences cfg inp then some inp.fence else none
    sync := if primary && s.syncs cfg inp then some inp.sync else none
    unfence := if primary && s.unfences cfg inp then some inp.unfence else none
    rejoin := if primary then s.rejoin cfg inp else none }

end Node

/-! ## What reaches the branches -/

namespace Supervisor

variable {s : Supervisor} {cfg : Config} {inp : TickInput}

@[simp] theorem lead_decided : (s.lead cfg inp).decided =
    if s.decisionChanged inp.currentDecision then inp.currentDecision else s.decided := rfl

@[simp] theorem lead_appliedReadOnly : (s.lead cfg inp).appliedReadOnly =
    if s.stalled inp.loopNow then none else s.appliedReadOnly := rfl

@[simp] theorem lead_authorizedSince : (s.lead cfg inp).authorizedSince =
    if s.stalled inp.loopNow then none else s.authorizedSince := rfl

/-- A stall forgets, and nothing else before the branches changes the cache. -/
theorem appliedReadOnly_of_lead {readOnly : Bool}
    (hcache : (s.lead cfg inp).appliedReadOnly = some readOnly) :
    s.appliedReadOnly = some readOnly := by
  rw [lead_appliedReadOnly] at hcache
  split at hcache
  next => cases hcache
  next => exact hcache

theorem authorizedSince_of_lead {since : Nat}
    (hsince : (s.lead cfg inp).authorizedSince = some since) : s.authorizedSince = some since := by
  rw [lead_authorizedSince] at hsince
  split at hsince
  next => cases hsince
  next => exact hsince

/-- What is still known has not been forgotten in a stall. -/
theorem not_stalled_of_authorizedSince {since : Nat}
    (hsince : (s.lead cfg inp).authorizedSince = some since) : s.stalled inp.loopNow = false := by
  rw [lead_authorizedSince] at hsince
  split at hsince
  next => cases hsince
  next hstalled => simpa using hstalled

/-- After the adoption the held decision is the applied one, when there is one. -/
theorem lead_decided_of_current {decision : Decision}
    (hcurrent : inp.currentDecision = some decision) :
    (s.lead cfg inp).decided = some decision := by
  rw [lead_decided, hcurrent, decisionChanged]
  split
  next => rfl
  next hsame => simpa using hsame

theorem rawAuth_of_authorized (hauth : s.authorized cfg inp = true) :
    s.rawAuth cfg inp = true := by
  by_contra hraw
  rw [Bool.not_eq_true] at hraw
  simp [authorized, hraw] at hauth

/-- What authority under a decision rests on. -/
theorem rawAuth_of_decided {decision : Decision} (hdecided : s.decided = some decision)
    (hraw : s.rawAuth cfg inp = true) :
    decision.primary = cfg.nodeId ∧ s.quorumOk cfg inp.contactNow = true ∧
      s.reconfirmPending = false := by
  simpa [rawAuth, hdecided, and_assoc] using hraw

theorem quorumOk_of_rawAuth (hraw : s.rawAuth cfg inp = true) :
    s.quorumOk cfg inp.contactNow = true := by
  cases hdecided : s.decided with
  | none =>
      simp only [rawAuth, hdecided, Bool.and_eq_true] at hraw
      exact hraw.1.1
  | some d => exact (rawAuth_of_decided hdecided hraw).2.1

/-- Without a decision nothing is waited for. -/
theorem authorized_of_undecided (hdecided : s.decided = none) :
    s.authorized cfg inp = s.rawAuth cfg inp := by
  rw [authorized, opensAtOnce, hdecided]
  cases s.rawAuth cfg inp <;> rfl

/-- Authority under a decision: the node is open already or has waited. -/
theorem authorized_cases (hauth : s.authorized cfg inp = true) :
    s.decided = none ∨ s.appliedReadOnly = some false ∨
      confirmWindow ≤ inp.windowNow - s.authorizedSince.getD inp.sinceNow := by
  simp only [authorized, rawAuth_of_authorized hauth, Bool.not_true, Bool.false_eq_true,
    if_false] at hauth
  split at hauth
  next hopens =>
    rcases Bool.or_eq_true_iff.mp hopens with hnone | hopen
    · exact Or.inl (Option.isNone_iff_eq_none.mp hnone)
    · exact Or.inr (Or.inl (beq_iff_eq.mp hopen))
  next => exact Or.inr (Or.inr (of_decide_eq_true hauth))

theorem rawAuth_of_nextAuthorizedSince {since : Nat}
    (hsince : s.nextAuthorizedSince cfg inp = some since) : s.rawAuth cfg inp = true := by
  by_contra hraw
  rw [Bool.not_eq_true] at hraw
  simp [nextAuthorizedSince, hraw] at hsince

/-- Waiting for authority starts now or has started before. -/
theorem nextAuthorizedSince_eq_some {since : Nat}
    (hsince : s.nextAuthorizedSince cfg inp = some since) :
    since = inp.sinceNow ∨ s.authorizedSince = some since := by
  simp only [nextAuthorizedSince, rawAuth_of_nextAuthorizedSince hsince, Bool.not_true,
    Bool.false_eq_true, if_false] at hsince
  split at hsince
  next => exact Or.inl (Option.some.inj hsince).symm
  next =>
    cases hold : s.authorizedSince with
    | none =>
        rw [hold] at hsince
        exact Or.inl (Option.some.inj hsince).symm
    | some start =>
        rw [hold] at hsince
        exact Or.inr hsince

@[simp] theorem fences_eq_true_iff : s.fences cfg inp = true ↔
    s.authorized cfg inp = false ∧ s.appliedReadOnly ≠ some true := by
  simp [fences]

@[simp] theorem unfences_eq_true_iff : s.unfences cfg inp = true ↔
    s.authorized cfg inp = true ∧ s.appliedReadOnly ≠ some false := by
  simp [unfences]

theorem not_promotes_of_repoints (hrepoints : s.repoints cfg = true) : s.promotes cfg = false := by
  simp only [repoints, Bool.and_eq_true, bne_iff_ne, ne_eq] at hrepoints
  simp [promotes, hrepoints.1.1.1]

/-- What the commands of a tick in recovery leave persisted. -/
theorem recoverSettings_eq (settings : Settings) : s.recoverSettings cfg inp settings =
    { readOnly := if s.promotes cfg && inp.promoteFence.tookEffect then true else settings.readOnly
      syncNames := if s.clearsSync && inp.clearSync.tookEffect then "" else settings.syncNames
      primaryConninfo :=
        if s.repoints cfg && inp.repoint.tookEffect then cfg.standbyConninfo
        else settings.primaryConninfo } := by
  rw [recoverSettings, recoverCommands]
  cases hrepoints : s.repoints cfg with
  | true =>
      have hpromotes := not_promotes_of_repoints hrepoints
      cases hclears : s.clearsSync <;> simp [hpromotes, Settings.perform]
  | false =>
      cases hclears : s.clearsSync <;> cases hpromotes : s.promotes cfg <;>
        simp [Settings.perform]

/-- What the commands of a tick out of recovery leave persisted. -/
theorem serveSettings_eq (settings : Settings) : s.serveSettings cfg inp settings =
    { settings with
      readOnly :=
        if s.fences cfg inp && inp.fence.tookEffect then true
        else if s.unfences cfg inp && inp.unfence.tookEffect then false
        else settings.readOnly
      syncNames :=
        if s.syncs cfg inp && inp.sync.tookEffect then (s.wantSync cfg inp).getD settings.syncNames
        else settings.syncNames } := by
  have hnotBoth : s.fences cfg inp = true → s.unfences cfg inp = false := by
    intro hfences
    simp [unfences, (fences_eq_true_iff.mp hfences).1]
  rw [serveSettings, serveCommands]
  cases hfences : s.fences cfg inp with
  | true =>
      cases hsyncs : s.syncs cfg inp <;> cases hwant : s.wantSync cfg inp <;>
        simp [hnotBoth hfences, Settings.perform]
  | false =>
      cases hsyncs : s.syncs cfg inp <;> cases hwant : s.wantSync cfg inp <;>
        cases hunfences : s.unfences cfg inp <;> simp [Settings.perform]

end Supervisor

/-! ## The two branches of a tick -/

namespace Node

variable {node : Node} {cfg : Config} {inp : TickInput}

theorem tick_of_recovery (hrecovery : inp.inRecovery = true) : node.tick cfg inp =
    ⟨(node.sup.lead cfg inp).recover cfg inp,
      (node.sup.lead cfg inp).recoverSettings cfg inp node.settings⟩ := by
  rw [tick, if_pos hrecovery]

theorem tick_of_primary (hrecovery : inp.inRecovery = false) : node.tick cfg inp =
    ⟨(node.sup.lead cfg inp).serve cfg inp,
      (node.sup.lead cfg inp).serveSettings cfg inp node.settings⟩ := by
  rw [tick, if_neg (by simp [hrecovery])]

theorem commands_of_recovery (hrecovery : inp.inRecovery = true) :
    node.commands cfg inp = (node.sup.lead cfg inp).recoverCommands cfg inp :=
  if_pos hrecovery

theorem commands_of_primary (hrecovery : inp.inRecovery = false) :
    node.commands cfg inp = (node.sup.lead cfg inp).serveCommands cfg inp :=
  if_neg (by simp [hrecovery])

/-- A tick persists what its commands do. -/
theorem tick_settings : (node.tick cfg inp).settings =
    (node.commands cfg inp).foldl Settings.perform node.settings := by
  cases hrecovery : inp.inRecovery with
  | true =>
      rw [tick_of_recovery hrecovery, commands_of_recovery hrecovery]
      rfl
  | false =>
      rw [tick_of_primary hrecovery, commands_of_primary hrecovery]
      rfl

/-- What both branches leave as the leader block found it. -/
@[simp] theorem tick_peers : (node.tick cfg inp).sup.peers = (node.sup.prepare cfg inp).peers := by
  rw [tick]
  cases inp.inRecovery <;> rfl

@[simp] theorem tick_decided :
    (node.tick cfg inp).sup.decided = (node.sup.prepare cfg inp).decided := by
  rw [tick]
  cases inp.inRecovery <;> rfl

@[simp] theorem tick_ticks : (node.tick cfg inp).sup.ticks = node.sup.ticks + 1 := by
  rw [tick]
  cases inp.inRecovery <;> rfl

@[simp] theorem tick_lastLoop : (node.tick cfg inp).sup.lastLoop = inp.loopNow := by
  rw [tick]
  cases inp.inRecovery <;> rfl

theorem report_authorized_eq_some_iff {authorized : Bool} :
    (node.report cfg inp).authorized = some authorized ↔
      inp.inRecovery = false ∧ (node.sup.lead cfg inp).authorized cfg inp = authorized := by
  cases hrecovery : inp.inRecovery <;> simp [report, hrecovery]

end Node

end PgReplica
