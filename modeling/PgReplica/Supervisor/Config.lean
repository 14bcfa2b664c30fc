import Mathlib.Data.List.Nodup

/-! # Configuration of a supervisor

What a supervisor computes from its settings before its loop starts. A value of
`Config` has passed the checks that precede the start of Raft.
-/

namespace PgReplica

structure Peer where
  id : Nat
  addr : String
deriving DecidableEq

/-- `apply::split_host_port`: cut at the last colon. -/
def splitHostPort (addr : String) : String × String :=
  let (port, rest) := addr.toList.reverse.span (· != ':')
  match rest with
  | _ :: host => (String.ofList host.reverse, String.ofList port.reverse)
  | [] => (addr, "5432")

structure Config where
  nodeId : Nat
  voters : List Nat
  pgMembers : List Peer
  synchronous : Bool
  rejoinScript : String
  passfile : String
  nodeId_ne_zero : nodeId ≠ 0
  voters_nodup : voters.Nodup
  members_nodup : (pgMembers.map Peer.id).Nodup
  nodeId_mem_voters : nodeId ∈ voters
  nodeId_mem_members : nodeId ∈ pgMembers.map Peer.id

namespace Config

variable (cfg : Config)

def majority : Nat :=
  cfg.voters.length / 2 + 1

def syncQuorum : Nat :=
  cfg.majority - 1

/-- The standbys that `sync_target` names. -/
def syncStandbys : List Nat :=
  cfg.voters.filter fun voter => voter != cfg.nodeId

/-- The value of `synchronous_standby_names` on an authorized primary. -/
def syncTarget : String :=
  if 1 ≤ cfg.syncQuorum then
    "ANY " ++ toString cfg.syncQuorum ++ " (" ++
      ", ".intercalate (cfg.syncStandbys.map fun voter => "node" ++ toString voter) ++ ")"
  else ""

def findMember (id : Nat) : Option Peer :=
  cfg.pgMembers.find? fun member => member.id == id

def standbyConninfo : String :=
  let others := (cfg.pgMembers.filter fun member => member.id != cfg.nodeId).map fun member =>
    splitHostPort member.addr
  let passfileKw := if cfg.passfile.isEmpty then "" else " passfile=" ++ cfg.passfile
  "host=" ++ ",".intercalate (others.map Prod.fst) ++
    " port=" ++ ",".intercalate (others.map Prod.snd) ++ " user=replicator" ++ passfileKw ++
    " target_session_attrs=read-write application_name=node" ++ toString cfg.nodeId

theorem findMember_isSome_iff {id : Nat} :
    (cfg.findMember id).isSome = true ↔ id ∈ cfg.pgMembers.map Peer.id := by
  simp [findMember, List.find?_isSome]

/-- Node `id` of a cluster of three, with quorum sync on. -/
def threeNodes (id : Nat) (hid : id ∈ [1, 2, 3]) : Config where
  nodeId := id
  voters := [1, 2, 3]
  pgMembers := [⟨1, "node1:5432"⟩, ⟨2, "node2:5432"⟩, ⟨3, "node3:5432"⟩]
  synchronous := true
  rejoinScript := ""
  passfile := ""
  nodeId_ne_zero := by
    rintro rfl
    simp at hid
  voters_nodup := by decide
  members_nodup := by decide
  nodeId_mem_voters := hid
  nodeId_mem_members := hid

end Config

end PgReplica
