import PgReplica.Store.RaftTypes

/-! # The Raft log in memory

`LogStoreState` and what the operations of `LogStore` do to it before they
persist it.
-/

namespace PgReplica

open Raft

/-- The log is an ordered map from indexes. -/
structure LogStoreState where
  vote : Option Vote
  lastPurged : Option LogId
  committed : Option LogId
  log : Std.ExtTreeMap Nat Entry
deriving Encodable

/-- The operations that change the log store. -/
inductive LogOp where
  | saveVote (vote : Vote)
  | saveCommitted (committed : Option LogId)
  | append (entries : List Entry)
  | truncate (logId : LogId)
  | purge (logId : LogId)
deriving DecidableEq

namespace LogStoreState

/-- `LogStoreState::default`. -/
def empty : LogStoreState :=
  ⟨none, none, none, ∅⟩

/-- Remove the given keys one after the other. -/
def removeKeys (log : Std.ExtTreeMap Nat Entry) (keys : List Nat) : Std.ExtTreeMap Nat Entry :=
  keys.foldl (fun log key => log.erase key) log

def insertEntries (log : Std.ExtTreeMap Nat Entry) (entries : List Entry) :
    Std.ExtTreeMap Nat Entry :=
  entries.foldl (fun log entry => log.insert entry.logId.index entry) log

/-- The memory section of an operation. -/
def run (s : LogStoreState) : LogOp → LogStoreState
  | .saveVote vote => { s with vote := some vote }
  | .saveCommitted committed => { s with committed }
  | .append entries => { s with log := insertEntries s.log entries }
  | .truncate logId =>
      { s with log := removeKeys s.log (s.log.keys.filter fun key => decide (logId.index ≤ key)) }
  | .purge logId =>
      { s with
        lastPurged := some logId
        log := removeKeys s.log (s.log.keys.filter fun key => decide (key ≤ logId.index)) }

def runAll (s : LogStoreState) (ops : List LogOp) : LogStoreState :=
  ops.foldl run s

/-! ## The entry at one index -/

variable {log : Std.ExtTreeMap Nat Entry} {index : Nat}

theorem getElem?_removeKeys (keys : List Nat) :
    (removeKeys log keys)[index]? = if index ∈ keys then none else log[index]? := by
  induction keys generalizing log with
  | nil => simp [removeKeys]
  | cons key rest ih =>
      rw [removeKeys, List.foldl_cons, ← removeKeys, ih]
      by_cases hrest : index ∈ rest
      · simp [hrest]
      · by_cases hkey : index = key
        · simp [hkey]
        · simp [hrest, hkey, Std.ExtTreeMap.getElem?_erase, Ne.symm hkey]

theorem getElem?_insertEntries_of_ne {entries : List Entry}
    (hne : ∀ entry ∈ entries, entry.logId.index ≠ index) :
    (insertEntries log entries)[index]? = log[index]? := by
  induction entries generalizing log with
  | nil => rfl
  | cons entry rest ih =>
      obtain ⟨hentry, hrest⟩ := List.forall_mem_cons.mp hne
      rw [insertEntries, List.foldl_cons, ← insertEntries, ih hrest]
      simp [Std.ExtTreeMap.getElem?_insert, hentry]

/-- The last entry of an append with an index is the one that is stored there. -/
theorem getElem?_insertEntries {before after : List Entry} {entry : Entry}
    (hlast : ∀ other ∈ after, other.logId.index ≠ entry.logId.index) :
    (insertEntries log (before ++ entry :: after))[entry.logId.index]? = some entry := by
  rw [insertEntries, List.foldl_append, List.foldl_cons, ← insertEntries,
    ← insertEntries, getElem?_insertEntries_of_ne hlast, Std.ExtTreeMap.getElem?_insert_self]

end LogStoreState

/-- The operation may replace or remove the entry at an index. -/
def LogOp.Overrides (index : Nat) : LogOp → Prop
  | .saveVote _ | .saveCommitted _ => False
  | .append entries => ∃ entry ∈ entries, entry.logId.index = index
  | .truncate logId => logId.index ≤ index
  | .purge logId => index ≤ logId.index

namespace LogStoreState

theorem getElem?_run_of_not_overrides {s : LogStoreState} {op : LogOp} {index : Nat}
    (hkeeps : ¬ op.Overrides index) : (s.run op).log[index]? = s.log[index]? := by
  cases op with
  | saveVote | saveCommitted => rfl
  | append entries =>
      exact getElem?_insertEntries_of_ne fun entry hentry heq => hkeeps ⟨entry, hentry, heq⟩
  | truncate logId =>
      rw [run, getElem?_removeKeys, if_neg]
      exact fun hmem => hkeeps (by simpa [LogOp.Overrides] using (List.mem_filter.mp hmem).2)
  | purge logId =>
      rw [run, getElem?_removeKeys, if_neg]
      exact fun hmem => hkeeps (by simpa [LogOp.Overrides] using (List.mem_filter.mp hmem).2)

theorem getElem?_runAll_of_not_overrides {s : LogStoreState} {ops : List LogOp} {index : Nat}
    (hkeeps : ∀ op ∈ ops, ¬ op.Overrides index) :
    (s.runAll ops).log[index]? = s.log[index]? := by
  induction ops generalizing s with
  | nil => rfl
  | cons op rest ih =>
      obtain ⟨hop, hrest⟩ := List.forall_mem_cons.mp hkeeps
      rw [runAll, List.foldl_cons, ← runAll, ih hrest, getElem?_run_of_not_overrides hop]

theorem runAll_append (s : LogStoreState) (first second : List LogOp) :
    s.runAll (first ++ second) = (s.runAll first).runAll second :=
  List.foldl_append

/-- An appended entry is still in the log unless a later operation is about its index. -/
theorem getElem?_runAll_of_append {s : LogStoreState} {earlier later : List LogOp}
    {before after : List Entry} {entry : Entry}
    (hlast : ∀ other ∈ after, other.logId.index ≠ entry.logId.index) :
    (s.runAll (earlier ++ .append (before ++ entry :: after) :: later)).log[entry.logId.index]? =
        some entry ∨
      ∃ op ∈ later, op.Overrides entry.logId.index := by
  by_cases hover : ∃ op ∈ later, op.Overrides entry.logId.index
  · exact Or.inr hover
  · left
    rw [runAll_append, ← List.singleton_append, runAll_append, getElem?_runAll_of_not_overrides]
    · exact getElem?_insertEntries hlast
    · exact fun op hop hop' => hover ⟨op, hop, hop'⟩

end LogStoreState

end PgReplica
