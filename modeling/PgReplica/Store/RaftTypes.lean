import Mathlib.Tactic.DeriveEncodable
import PgReplica.Failover
import PgReplica.Foundation.Codec

/-! # The data of openraft that the store keeps

The store looks at the index and the order of log ids and at the kind of an
entry. Votes and memberships pass through it as they are.
-/

namespace PgReplica.Raft

structure LeaderId where
  term : Nat
  nodeId : Nat
deriving DecidableEq, Encodable

structure LogId where
  leaderId : LeaderId
  index : Nat
deriving DecidableEq, Encodable

structure Vote where
  leaderId : LeaderId
  committed : Bool
deriving DecidableEq, Encodable

/-- The voters of each configuration, and the address of each node. -/
structure Membership where
  configs : List (List Nat)
  nodes : List (Nat × String)
deriving DecidableEq, Encodable

/-- A membership with the id of the entry it came with. -/
structure StoredMembership where
  logId : Option LogId
  membership : Membership
deriving DecidableEq, Encodable

deriving instance Encodable for Decision

inductive EntryPayload where
  | blank
  | normal (decision : Decision)
  | membership (membership : Membership)
deriving DecidableEq, Encodable

structure Entry where
  logId : LogId
  payload : EntryPayload
deriving DecidableEq, Encodable

structure SnapshotMeta where
  lastLogId : Option LogId
  lastMembership : StoredMembership
  snapshotId : String
deriving DecidableEq

/-- `StoredMembership::default`. -/
def StoredMembership.empty : StoredMembership :=
  ⟨none, ⟨[], []⟩⟩

end PgReplica.Raft
