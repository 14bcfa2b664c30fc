import PgReplica.Supervisor.Tick

/-! # What draining gossip does to the peer table

The table after a drain, read back through the last message of each sender.
-/

namespace PgReplica

open Foundation

/-- The last message of a sender. -/
def latestFrom (received : List Received) (sender : Nat) : Option Received :=
  (received.filter fun m => m.sender == sender).getLast?

@[simp] theorem latestFrom_nil (sender : Nat) : latestFrom [] sender = none := rfl

theorem latestFrom_append (first second : List Received) (sender : Nat) :
    latestFrom (first ++ second) sender =
      (latestFrom second sender).or (latestFrom first sender) := by
  rw [latestFrom, List.filter_append, List.getLast?_append, latestFrom, latestFrom]

theorem latestFrom_cons (m : Received) (rest : List Received) (sender : Nat) :
    latestFrom (m :: rest) sender =
      (latestFrom rest sender).or (if m.sender = sender then some m else none) := by
  rw [← List.singleton_append, latestFrom_append]
  congr 1
  by_cases heq : m.sender = sender <;> simp [latestFrom, heq]

theorem mem_of_latestFrom {received : List Received} {sender : Nat} {m : Received}
    (hlatest : latestFrom received sender = some m) : m ∈ received ∧ m.sender = sender := by
  have hmem := List.mem_of_mem_getLast? (Option.mem_def.mpr hlatest)
  simpa using List.mem_filter.mp hmem

namespace PeerTable

variable {p : PeerTable} {received : List Received}

@[simp] theorem drain_nil : p.drain [] = p := rfl

@[simp] theorem drain_cons (m : Received) (rest : List Received) :
    p.drain (m :: rest) = (p.hear m).drain rest := rfl

/-- Hearing does not depend on the payload. -/
@[simp] theorem hear_lastHeard (m : Received) :
    (p.hear m).lastHeard = p.lastHeard.insert m.sender m.heardAt := by
  unfold hear
  cases decodeGossip m.payload <;> rfl

/-- What every message keeps, a drain keeps. -/
theorem drain_invariant {I : PeerTable → Prop} (hkeep : ∀ p, ∀ m ∈ received, I p → I (p.hear m))
    (hstart : I p) : I (p.drain received) := by
  induction received generalizing p with
  | nil => exact hstart
  | cons m rest ih =>
      refine ih (fun p m' hm' => hkeep p m' (List.mem_cons_of_mem m hm')) ?_
      exact hkeep p m List.mem_cons_self hstart

theorem lookup_lastHeard_drain (received : List Received) (sender : Nat) :
    (p.drain received).lastHeard.lookup sender =
      ((latestFrom received sender).map Received.heardAt).or (p.lastHeard.lookup sender) := by
  induction received generalizing p with
  | nil => simp
  | cons m rest ih =>
      -- a later message of the sender overwrites this one
      rw [drain_cons, ih, hear_lastHeard, Table.lookup_insert, latestFrom_cons]
      by_cases heq : m.sender = sender
      · cases latestFrom rest sender <;> simp [heq]
      · cases latestFrom rest sender <;> simp [heq, Ne.symm heq]

end PeerTable

/-- The server drops gossip whose sender is not a voter. -/
def TickInput.FromVoters (cfg : Config) (inp : TickInput) : Prop :=
  ∀ m ∈ inp.received, m.sender ∈ cfg.voters

namespace Supervisor

variable {s : Supervisor} {cfg : Config} {inp : TickInput}

theorem nodup_heardWithinLease (s : Supervisor) (cfg : Config) (contactNow : Nat) :
    (s.heardWithinLease cfg contactNow).Nodup :=
  s.peers.lastHeard.nodup_filter_keys _

theorem mem_heardWithinLease {contactNow id : Nat} :
    id ∈ s.heardWithinLease cfg contactNow ↔ id ≠ cfg.nodeId ∧
      ∃ stamp, s.peers.lastHeard.lookup id = some stamp ∧ contactNow - stamp < quorumLease := by
  simp only [heardWithinLease, List.mem_map, List.mem_filter, Bool.and_eq_true, bne_iff_ne,
    decide_eq_true_eq, Prod.exists, exists_and_right, exists_eq_right, Table.mem_entries_iff]
  constructor
  · rintro ⟨stamp, hlookup, hne, hlease⟩
    exact ⟨hne, stamp, hlookup, hlease⟩
  · rintro ⟨hne, stamp, hlookup, hlease⟩
    exact ⟨stamp, hlookup, hne, hlease⟩

theorem quorumOk_eq_true_iff {contactNow : Nat} : s.quorumOk cfg contactNow = true ↔
    cfg.majority ≤ 1 + (s.heardWithinLease cfg contactNow).length := by
  simp [quorumOk]

end Supervisor

end PgReplica
