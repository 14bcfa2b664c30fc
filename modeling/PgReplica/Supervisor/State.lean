import Mathlib.Tactic.MkIffOfInductiveProp
import PgReplica.Failover
import PgReplica.Foundation.Table
import PgReplica.Supervisor.Config

/-! # The state of a supervisor and what a tick reads

The local variables of the supervisor loop, the settings it writes into its
Postgres, and one record for everything that a tick learns from outside: clock
readings, gossip, the applied decision, Raft leadership, and the outcome of each
SQL command it may issue. Times are milliseconds.
-/

namespace PgReplica

open Foundation

/-! ## Constants of the loop -/

def gossipEvery : Nat := 5
def deadTimeout : Nat := 2500
def confirmWindow : Nat := 1500
def quorumLease : Nat := 1200
def stallThreshold : Nat := 1500

/-- Ticks after which an unanswered proposal is repeated. -/
def proposalRetry : Nat := 20

/-- Ticks after which an ineffective `pg_promote` is repeated. -/
def promoteRetry : Nat := 100

/-! ## State -/

/-- The last position a node was known at. -/
structure PeerEntry where
  lsn : Nat
  inRecovery : Bool
  seen : Nat

/-- What gossip has told about the other nodes. -/
structure PeerTable where
  peersLsn : Table Nat PeerEntry
  lastHeard : Table Nat Nat
  peersReconfirm : Table Nat Bool
  peersSeq : Table Nat Nat

structure Supervisor where
  peers : PeerTable
  reconfirmPending : Bool
  decided : Option Decision
  lastProposed : Nat × Nat
  lastProposedTick : Nat
  promoted : Bool
  promoteTick : Nat
  rejoining : Bool
  appliedPrimary : Nat
  slotsEnsured : Bool
  appliedReadOnly : Option Bool
  appliedSync : Option String
  authorizedSince : Option Nat
  datadir : Option String
  clusterMarker : Bool
  ticks : Nat
  lastLoop : Nat

/-- What `ALTER SYSTEM` has persisted. -/
structure Settings where
  readOnly : Bool
  syncNames : String
  primaryConninfo : String
deriving DecidableEq

structure Node where
  sup : Supervisor
  settings : Settings

/-- The state before the first tick. -/
def Supervisor.start (current : Option Decision) (now : Nat) : Supervisor where
  peers := ⟨Table.empty, Table.empty, Table.empty, Table.empty⟩
  reconfirmPending := false
  decided := current
  lastProposed := (0, 0)
  lastProposedTick := 0
  promoted := false
  promoteTick := 0
  rejoining := false
  appliedPrimary := 0
  slotsEnsured := false
  appliedReadOnly := none
  appliedSync := none
  authorizedSince := none
  datadir := none
  clusterMarker := false
  ticks := 0
  lastLoop := now

namespace Supervisor

def decidedSeq (s : Supervisor) : Nat :=
  (s.decided.map Decision.seq).getD 0

/-- The primary of the held decision, and 0 without one. No node has the id 0. -/
def decidedPrimary (s : Supervisor) : Nat :=
  (s.decided.map Decision.primary).getD 0

@[simp] theorem decidedPrimary_of_decided {s : Supervisor} {d : Decision}
    (hdecided : s.decided = some d) : s.decidedPrimary = d.primary := by
  simp [decidedPrimary, hdecided]

theorem exists_decided_of_decidedPrimary_eq {s : Supervisor} {id : Nat} (hid : id ≠ 0)
    (hprimary : s.decidedPrimary = id) : ∃ d, s.decided = some d ∧ d.primary = id := by
  cases hdecided : s.decided with
  | none =>
      simp only [decidedPrimary, hdecided, Option.map_none, Option.getD_none] at hprimary
      exact absurd hprimary.symm hid
  | some d => exact ⟨d, rfl, by simpa [decidedPrimary, hdecided] using hprimary⟩

end Supervisor

/-! ## What a tick reads -/

/-- How a command ended. It may take effect and still be reported as failed or
timed out. -/
inductive SqlOutcome where
  | ok
  | failed
  | failedAfterEffect
deriving DecidableEq

namespace SqlOutcome

def isOk : SqlOutcome → Bool
  | ok => true
  | failed | failedAfterEffect => false

def tookEffect : SqlOutcome → Bool
  | ok | failedAfterEffect => true
  | failed => false

theorem tookEffect_of_isOk {outcome : SqlOutcome} (hok : outcome.isOk = true) :
    outcome.tookEffect = true := by
  cases outcome
  · rfl
  · cases hok
  · cases hok

end SqlOutcome

/-- `apply_setting`: an `ALTER SYSTEM` and, if it is reported as successful, a
`pg_reload_conf`. -/
structure SettingOutcome where
  alter : SqlOutcome
  reload : SqlOutcome
deriving DecidableEq

namespace SettingOutcome

/-- What `apply_setting` returns. -/
def isOk (outcome : SettingOutcome) : Bool :=
  outcome.alter.isOk && outcome.reload.isOk

/-- Whether the setting was persisted. -/
def tookEffect (outcome : SettingOutcome) : Bool :=
  outcome.alter.tookEffect

theorem tookEffect_of_isOk {outcome : SettingOutcome} (hok : outcome.isOk = true) :
    outcome.tookEffect = true :=
  SqlOutcome.tookEffect_of_isOk (Bool.and_eq_true_iff.mp hok).1

end SettingOutcome

/-- A gossip message as the tick drains it. -/
structure Received where
  sender : Nat
  payload : List UInt8
  heardAt : Nat
  storedAt : Nat
deriving DecidableEq

/-- A peer's broadcast, drained at one instant. -/
def Received.gossip (sender now lsn : Nat) (inRecovery : Bool) (seq : Nat) : Received :=
  ⟨sender, encodeGossip lsn inRecovery false seq, now, now⟩

structure TickInput where
  loopNow : Nat
  received : List Received
  currentDecision : Option Decision
  inRecovery : Bool
  localWalLsn : Nat
  storedAt : Nat
  dataDirectory : Option String
  markerExists : Bool
  markerWritten : Bool
  isLeader : Bool
  leaderNow : Nat
  walLsn : Nat
  peerWalLsn : Nat → Option Nat
  contactNow : Nat
  clearSync : SettingOutcome
  promoteFence : SettingOutcome
  promote : SqlOutcome
  repoint : SettingOutcome
  sinceNow : Nat
  windowNow : Nat
  fence : SettingOutcome
  sync : SettingOutcome
  unfence : SettingOutcome
  rejoinDirectory : Option String

namespace SettingOutcome

def success : SettingOutcome :=
  ⟨.ok, .ok⟩

/-- The setting is persisted, but the reload is reported as failed. -/
def unreported : SettingOutcome :=
  ⟨.ok, .failed⟩

def failure : SettingOutcome :=
  ⟨.failed, .failed⟩

end SettingOutcome

/-- A tick out of recovery at one instant, with every command succeeding and no
one asking the node to lead. -/
def TickInput.plain (now : Nat) (received : List Received) (current : Option Decision) :
    TickInput where
  loopNow := now
  received := received
  currentDecision := current
  inRecovery := false
  localWalLsn := 0
  storedAt := now
  dataDirectory := none
  markerExists := false
  markerWritten := false
  isLeader := false
  leaderNow := now
  walLsn := 0
  peerWalLsn := fun _ => none
  contactNow := now
  clearSync := .success
  promoteFence := .success
  promote := .ok
  repoint := .success
  sinceNow := now
  windowNow := now
  fence := .success
  sync := .success
  unfence := .success
  rejoinDirectory := none

namespace TickInput

/-- Every command of the tick succeeds. -/
@[mk_iff] structure SqlSucceeds (inp : TickInput) : Prop where
  clearSync : inp.clearSync = .success
  promoteFence : inp.promoteFence = .success
  promote : inp.promote = .ok
  repoint : inp.repoint = .success
  fence : inp.fence = .success
  sync : inp.sync = .success
  unfence : inp.unfence = .success

instance (inp : TickInput) : Decidable inp.SqlSucceeds :=
  decidable_of_iff _ (sqlSucceeds_iff inp).symm

/-- The same tick in recovery. -/
def standby (inp : TickInput) : TickInput :=
  { inp with inRecovery := true }

/-- The same tick on the Raft leader. -/
def leading (inp : TickInput) : TickInput :=
  { inp with isLeader := true }

end TickInput

/-- A supervisor before its first tick; what it finds persisted is arbitrary. -/
def Node.Started (node : Node) : Prop :=
  ∃ current now, node.sup = Supervisor.start current now

/-- Node 1, decided as the primary, right after its start. -/
def Node.firstPrimary (settings : Settings) : Node :=
  ⟨Supervisor.start (some ⟨1, 1⟩) 0, settings⟩

theorem Node.firstPrimary_started (settings : Settings) : (firstPrimary settings).Started :=
  ⟨_, _, rfl⟩

/-- Nodes 2 and 3 are heard and report a decision. -/
def heardBoth (now seq : Nat) : List Received :=
  [.gossip 2 now 0 true seq, .gossip 3 now 0 true seq]

/-- Standbys are heard at an undecided cluster's positions. -/
def heard (now : Nat) (ids : List Nat) : List Received :=
  ids.map fun id => .gossip id now 0 true 0

/-- The arguments of a `rejoin.sh` run. -/
structure RejoinCall where
  datadir : String
  primaryHost : String
  primaryPort : String
  standbyConninfo : String
deriving DecidableEq

/-- What a tick did: a setting or a promotion it issued comes with its outcome,
and `authorized` is present out of recovery. -/
structure TickReport where
  broadcast : Option (List UInt8)
  proposal : Option Decision
  promote : Option SqlOutcome
  authorized : Option Bool
  fence : Option SettingOutcome
  sync : Option SettingOutcome
  unfence : Option SettingOutcome
  rejoin : Option RejoinCall

end PgReplica
