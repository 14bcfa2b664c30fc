import PgReplica.Store.RaftTypes

/-! # The Raft state machine in memory

The applied state of `StateMachine`, what a batch of entries does to it, and the
snapshots that are built from it and installed over it.
-/

namespace PgReplica

open Foundation Raft

structure SmState where
  lastApplied : Option LogId
  lastMembership : StoredMembership
  decision : Option Decision
deriving DecidableEq, Encodable

structure StoredSnapshot where
  info : SnapshotMeta
  data : List UInt8
deriving DecidableEq

/-- A call that changes the applied state. -/
inductive SmOp where
  | apply (entries : List Entry)
  | install (info : SnapshotMeta) (data : List UInt8)
deriving DecidableEq

namespace SmState

/-- `SmState::default`. -/
def empty : SmState :=
  ⟨none, .empty, none⟩

/-- One turn of the loop in `apply`. -/
def applyEntry (s : SmState) (entry : Entry) : SmState :=
  let s := { s with lastApplied := some entry.logId }
  match entry.payload with
  | .blank => s
  | .normal value => { s with decision := some value }
  | .membership membership => { s with lastMembership := ⟨some entry.logId, membership⟩ }

def applyEntries (s : SmState) (entries : List Entry) : SmState :=
  entries.foldl applyEntry s

/-- The memory section of a call. Data that cannot be read changes nothing. -/
def run (codec : Codec SmState) (s : SmState) : SmOp → SmState
  | .apply entries => s.applyEntries entries
  | .install _ data =>
      match codec.decode data with
      | .ok state => state
      | .error _ => s

def runAll (codec : Codec SmState) (s : SmState) (ops : List SmOp) : SmState :=
  ops.foldl (run codec) s

end SmState

/-- The flag `changed` of `apply`: the batch carries a decision. -/
def carriesDecision (entries : List Entry) : Bool :=
  entries.any fun entry =>
    match entry.payload with
    | .normal _ => true
    | .blank | .membership _ => false

theorem SmState.decision_applyEntry (s : SmState) {entry : Entry}
    (hnone : carriesDecision [entry] = false) : (s.applyEntry entry).decision = s.decision := by
  unfold applyEntry
  cases hpayload : entry.payload with
  | normal value => simp [carriesDecision, hpayload] at hnone
  | blank | membership membership => rfl

/-- A batch without a decision leaves the decision alone. -/
theorem SmState.decision_applyEntries {s : SmState} {entries : List Entry}
    (hnone : carriesDecision entries = false) :
    (s.applyEntries entries).decision = s.decision := by
  induction entries generalizing s with
  | nil => rfl
  | cons entry rest ih =>
      simp only [carriesDecision, List.any_cons, Bool.or_eq_false_iff] at hnone
      rw [applyEntries, List.foldl_cons, ← applyEntries, ih hnone.2]
      exact s.decision_applyEntry (by simpa [carriesDecision] using hnone.1)

/-! ## Snapshots -/

/-- `build_snapshot` between its lock-protected sections. -/
inductive Build where
  | read (data : List UInt8) (lastApplied : Option LogId) (lastMembership : StoredMembership)
  | numbered (snapshot : StoredSnapshot)

/-- The id of a snapshot; `display` prints a leader id. -/
def snapshotId (display : LeaderId → String) (lastApplied : Option LogId) (idx : Nat) : String :=
  match lastApplied with
  | some logId =>
      display logId.leaderId ++ "-" ++ toString logId.index ++ "-" ++ toString idx
  | none => "--" ++ toString idx

/-- The snapshot of a state. -/
def SmState.snapshot (codec : Codec SmState) (display : LeaderId → String) (s : SmState)
    (idx : Nat) : StoredSnapshot :=
  ⟨⟨s.lastApplied, s.lastMembership, snapshotId display s.lastApplied idx⟩, codec.encode s⟩

end PgReplica
