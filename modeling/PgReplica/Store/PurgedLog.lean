import Mathlib.Data.List.Sort
import PgReplica.Foundation.Run
import PgReplica.Store.LogStore

/-! # The log store as a purged, contiguous log

What the reads of `LogStore` return after any sequence of operations that keeps
openraft's contract, told by that sequence alone.
-/

namespace PgReplica

open Foundation Raft

/-! ## Ranges of indexes -/

/-- `std::ops::Bound`. -/
inductive IndexBound where
  | included (index : Nat)
  | excluded (index : Nat)
  | unbounded
deriving DecidableEq

/-- A value of `RangeBounds<u64>`. -/
structure IndexRange where
  lower : IndexBound
  upper : IndexBound
deriving DecidableEq

namespace IndexRange

def halfOpen (lower upper : Nat) : IndexRange :=
  ⟨.included lower, .excluded upper⟩

def closed (lower upper : Nat) : IndexRange :=
  ⟨.included lower, .included upper⟩

def contains (range : IndexRange) (index : Nat) : Bool :=
  (match range.lower with
    | .included lower => decide (lower ≤ index)
    | .excluded lower => decide (lower < index)
    | .unbounded => true) &&
  match range.upper with
  | .included upper => decide (index ≤ upper)
  | .excluded upper => decide (index < upper)
  | .unbounded => true

/-- The ranges that `BTreeMap::range` does not accept. -/
def panics (range : IndexRange) : Bool :=
  match range.lower, range.upper with
  | .unbounded, _ | _, .unbounded => false
  | .excluded lower, .excluded upper => decide (upper ≤ lower)
  | .included lower, .included upper | .included lower, .excluded upper
  | .excluded lower, .included upper => decide (upper < lower)

end IndexRange

/-! ## The reads -/

/-- What `get_log_state` returns. -/
structure LogState where
  lastPurgedLogId : Option LogId
  lastLogId : Option LogId
deriving DecidableEq

namespace LogStoreState

variable (s : LogStoreState)

/-- The entries in the order of their keys, as iterators over the map meet them. -/
def entries : List Entry :=
  s.log.toList.map Prod.snd

def getLogState : LogState :=
  let last := s.entries.getLast?.map Entry.logId
  { lastPurgedLogId := s.lastPurged
    lastLogId := last.or s.lastPurged }

/-- `none` where the range panics. -/
def tryGetLogEntries (range : IndexRange) : Option (List Entry) :=
  if range.panics then none
  else some ((s.log.toList.filter fun e => range.contains e.1).map Prod.snd)

/-- The index that follows an id, and 0 without one. -/
def indexAfter (logId : Option LogId) : Nat :=
  (logId.map fun id => id.index + 1).getD 0

/-- The index that follows the last stored one or, in an empty log, the last purged one. -/
def nextIndex : Nat :=
  ((s.log.keys.getLast?.or (s.lastPurged.map LogId.index)).map (· + 1)).getD 0

end LogStoreState

namespace LogOp

/-- What openraft promises about its calls. A purge may go beyond the last entry. -/
def Allowed (s : LogStoreState) : LogOp → Prop
  | saveVote _ | saveCommitted _ => True
  | append entries =>
      entries.map (fun entry => entry.logId.index) = List.range' s.nextIndex entries.length
  | truncate logId => ∀ purged ∈ s.lastPurged, purged.index < logId.index
  | purge logId => ∀ purged ∈ s.lastPurged, purged.index ≤ logId.index

instance (s : LogStoreState) : (op : LogOp) → Decidable (op.Allowed s)
  | saveVote _ | saveCommitted _ => .isTrue trivial
  | append _ => inferInstanceAs (Decidable (_ = _))
  | truncate _ | purge _ => inferInstanceAs (Decidable (∀ _ ∈ _, _))

def purged : LogOp → Option LogId
  | purge logId => some logId
  | saveVote _ | saveCommitted _ | append _ | truncate _ => none

/-- The id of the last purge among the operations. -/
def lastPurge (ops : List LogOp) : Option LogId :=
  (ops.filterMap purged).getLast?

/-- The entry is the last that was appended at its index, and has been neither truncated
nor purged since. -/
def Retained (ops : List LogOp) (entry : Entry) : Prop :=
  ∃ earlier before after later, ops = earlier ++ .append (before ++ entry :: after) :: later ∧
    (∀ other ∈ after, other.logId.index ≠ entry.logId.index) ∧
    ∀ op ∈ later, ¬ op.Overrides entry.logId.index

/-- The answer holds, by increasing index, what the operations have left in the range. -/
def Answered (ops : List LogOp) (range : IndexRange) (answer : Option (List Entry)) : Prop :=
  ∃ entries, answer = some entries ∧
    entries.Pairwise (fun first second => first.logId.index < second.logId.index) ∧
    ∀ entry, entry ∈ entries ↔ range.contains entry.logId.index = true ∧ Retained ops entry

end LogOp

/-! ## The entries that are left -/

/-- The last member of a list with a property. -/
theorem exists_last_of_exists {α : Type} {p : α → Prop} {l : List α} (hexists : ∃ x ∈ l, p x) :
    ∃ before x after, l = before ++ x :: after ∧ p x ∧ ∀ y ∈ after, ¬ p y := by
  induction l with
  | nil =>
      obtain ⟨x, hx, -⟩ := hexists
      cases hx
  | cons x rest ih =>
      by_cases hrest : ∃ y ∈ rest, p y
      · obtain ⟨before, y, after, rfl, hy, hafter⟩ := ih hrest
        exact ⟨x :: before, y, after, rfl, hy, hafter⟩
      · obtain ⟨y, hy, hpy⟩ := hexists
        rcases List.mem_cons.mp hy with rfl | hmem
        · exact ⟨[], y, rest, rfl, hpy, fun z hz hpz => hrest ⟨z, hz, hpz⟩⟩
        · exact absurd ⟨y, hmem, hpy⟩ hrest

namespace LogStoreState

variable {s : LogStoreState} {index : Nat}

/-- Where an entry that is stored after an operation comes from. -/
theorem origin_of_getElem?_run {op : LogOp} {entry : Entry}
    (hstored : (s.run op).log[index]? = some entry) :
    (¬ op.Overrides index ∧ s.log[index]? = some entry) ∨
      entry.logId.index = index ∧ ∃ before after, op = .append (before ++ entry :: after) ∧
        ∀ other ∈ after, other.logId.index ≠ entry.logId.index := by
  by_cases hover : op.Overrides index
  · right
    cases op with
    | saveVote | saveCommitted => cases hover
    | append entries =>
        obtain ⟨before, last, after, rfl, rfl, hafter⟩ := exists_last_of_exists hover
        rw [run, getElem?_insertEntries hafter] at hstored
        obtain rfl := Option.some.inj hstored
        exact ⟨rfl, before, after, rfl, hafter⟩
    | truncate logId | purge logId =>
        rw [run, getElem?_removeKeys] at hstored
        split at hstored
        next => cases hstored
        next hkept =>
          refine absurd (List.mem_filter.mpr ⟨?_, by simpa [LogOp.Overrides] using hover⟩) hkept
          rw [Std.ExtTreeMap.mem_keys, Std.ExtTreeMap.mem_iff_isSome_getElem?, hstored]
          rfl
  · rw [getElem?_run_of_not_overrides hover] at hstored
    exact Or.inl ⟨hover, hstored⟩

/-- The stored entries are those that the operations have left. -/
theorem getElem?_runAll_empty_iff {ops : List LogOp} {entry : Entry} :
    (empty.runAll ops).log[index]? = some entry ↔
      entry.logId.index = index ∧ LogOp.Retained ops entry := by
  constructor
  · intro hstored
    induction ops using List.reverseRecOn with
    | nil => simp [runAll, empty] at hstored
    | append_singleton ops op ih =>
        rw [runAll_append] at hstored
        rcases origin_of_getElem?_run hstored with ⟨hkeeps, hold⟩ | ⟨rfl, before, after, rfl, hlast⟩
        · obtain ⟨rfl, earlier, before, after, later, rfl, hlast, hlater⟩ := ih hold
          refine ⟨rfl, earlier, before, after, later ++ [op], by simp, hlast, fun op' hop' => ?_⟩
          rcases List.mem_append.mp hop' with hmem | hmem
          · exact hlater op' hmem
          · rwa [List.mem_singleton.mp hmem]
        · exact ⟨rfl, ops, before, after, [], rfl, hlast, by simp⟩
  · rintro ⟨rfl, earlier, before, after, later, rfl, hlast, hlater⟩
    refine (getElem?_runAll_of_append hlast).resolve_right ?_
    rintro ⟨op, hop, hover⟩
    exact hlater op hop hover

/-- Every entry is stored under its own index. -/
def Keyed (s : LogStoreState) : Prop :=
  ∀ (index : Nat) (entry : Entry), s.log[index]? = some entry → entry.logId.index = index

theorem keyed_runAll_empty (ops : List LogOp) : (empty.runAll ops).Keyed :=
  fun _ _ hstored => (getElem?_runAll_empty_iff.mp hstored).1

/-! ## The stored indexes -/

theorem mem_insertEntries {log : Std.ExtTreeMap Nat Entry} {entries : List Entry} :
    index ∈ insertEntries log entries ↔
      index ∈ log ∨ index ∈ entries.map fun entry => entry.logId.index := by
  induction entries generalizing log with
  | nil => simp [insertEntries]
  | cons entry rest ih =>
      rw [insertEntries, List.foldl_cons, ← insertEntries, ih, Std.ExtTreeMap.mem_insert,
        List.map_cons, List.mem_cons, compare_eq_iff_eq, @eq_comm _ index]
      tauto

theorem mem_removeKeys {log : Std.ExtTreeMap Nat Entry} {keys : List Nat} :
    index ∈ removeKeys log keys ↔ index ∈ log ∧ index ∉ keys := by
  rw [Std.ExtTreeMap.mem_iff_isSome_getElem?, getElem?_removeKeys,
    Std.ExtTreeMap.mem_iff_isSome_getElem?]
  split
  next hmem => simp [hmem]
  next hmem => simp [hmem]

/-- The stored indexes are those after the last purged one and below `next`. -/
structure Contiguous (s : LogStoreState) (next : Nat) : Prop where
  le : indexAfter s.lastPurged ≤ next
  stored : ∀ index, index ∈ s.log ↔ indexAfter s.lastPurged ≤ index ∧ index < next

variable {next : Nat}

theorem Contiguous.keys_eq (hcontiguous : s.Contiguous next) :
    s.log.keys = List.range' (indexAfter s.lastPurged) (next - indexAfter s.lastPurged) := by
  have hsorted : s.log.keys.Pairwise (· < ·) :=
    s.log.ordered_keys.imp compare_lt_iff_lt.mp
  refine hsorted.eq_of_mem_iff List.pairwise_lt_range' fun index => ?_
  have hle := hcontiguous.le
  rw [Std.ExtTreeMap.mem_keys, hcontiguous.stored, List.mem_range'_1]
  omega

/-- The next index to be appended is the first one that is not stored. -/
theorem Contiguous.nextIndex_eq (hcontiguous : s.Contiguous next) : s.nextIndex = next := by
  have hle := hcontiguous.le
  rw [nextIndex, hcontiguous.keys_eq, List.getLast?_range']
  split
  next hempty =>
    have hnext : next = indexAfter s.lastPurged := by omega
    rw [hnext, indexAfter, Option.none_or, Option.map_map]
    rfl
  next hstored =>
    simp only [Option.some_or, Option.map_some, Option.getD_some]
    omega

theorem contiguous_empty : empty.Contiguous 0 := by
  refine ⟨le_rfl, fun index => ?_⟩
  simp [empty]

/-- An operation that keeps the contract leaves the log contiguous. -/
theorem Contiguous.run (hcontiguous : s.Contiguous next) {op : LogOp} (hallowed : op.Allowed s) :
    ∃ next', (s.run op).Contiguous next' := by
  obtain ⟨hle, hstored⟩ := hcontiguous
  cases op with
  | saveVote | saveCommitted => exact ⟨next, hle, hstored⟩
  | append entries =>
      have hnext := Contiguous.nextIndex_eq ⟨hle, hstored⟩
      refine ⟨next + entries.length, Nat.le_add_right_of_le hle, fun index => ?_⟩
      change index ∈ insertEntries s.log entries ↔ indexAfter s.lastPurged ≤ index ∧ _
      rw [mem_insertEntries, hallowed, hnext, List.mem_range'_1, hstored]
      omega
  | truncate logId =>
      have habove : indexAfter s.lastPurged ≤ logId.index := by
        cases hpurged : s.lastPurged with
        | none => exact Nat.zero_le _
        | some purged => exact hallowed purged hpurged
      refine ⟨min next logId.index, le_min hle habove, fun index => ?_⟩
      change index ∈ removeKeys s.log _ ↔ indexAfter s.lastPurged ≤ index ∧ _
      rw [mem_removeKeys, hstored, List.mem_filter, Std.ExtTreeMap.mem_keys, hstored]
      simp only [decide_eq_true_eq]
      omega
  | purge logId =>
      have habove : indexAfter s.lastPurged ≤ logId.index + 1 := by
        cases hpurged : s.lastPurged with
        | none => exact Nat.zero_le _
        | some purged => exact Nat.succ_le_succ (hallowed purged hpurged)
      refine ⟨max next (logId.index + 1), le_max_right _ _, fun index => ?_⟩
      change index ∈ removeKeys s.log _ ↔ logId.index + 1 ≤ index ∧ _
      rw [mem_removeKeys, hstored, List.mem_filter, Std.ExtTreeMap.mem_keys, hstored]
      simp only [decide_eq_true_eq]
      omega

theorem exists_contiguous_runAll {ops : List LogOp}
    (hcontract : EachStep LogStoreState.run (fun s op => op.Allowed s) empty ops) :
    ∃ next, (empty.runAll ops).Contiguous next := by
  refine hcontract.foldl_invariant (I := fun s => ∃ next, s.Contiguous next) ?_
    ⟨0, contiguous_empty⟩
  rintro s op ⟨next, hcontiguous⟩ hallowed
  exact hcontiguous.run hallowed

/-! ## What the reads return -/

theorem Keyed.map_index_entries (hkeyed : s.Keyed) :
    (s.entries.map fun entry => entry.logId.index) = s.log.keys := by
  rw [entries, List.map_map, ← Std.ExtTreeMap.map_fst_toList_eq_keys]
  refine List.map_congr_left fun e he => ?_
  exact hkeyed e.1 e.2 (Std.ExtTreeMap.mem_toList_iff_getElem?_eq_some.mp he)

theorem Keyed.pairwise_entries (hkeyed : s.Keyed) :
    s.entries.Pairwise fun first second => first.logId.index < second.logId.index := by
  rw [← List.pairwise_map (f := fun entry : Entry => entry.logId.index), hkeyed.map_index_entries]
  exact s.log.ordered_keys.imp compare_lt_iff_lt.mp

/-- The id that `get_log_state` reports last is the one that the next append follows. -/
theorem Keyed.indexAfter_lastLogId (hkeyed : s.Keyed) :
    indexAfter s.getLogState.lastLogId = s.nextIndex := by
  rw [nextIndex, ← hkeyed.map_index_entries, List.getLast?_map, getLogState]
  cases s.entries.getLast? with
  | none =>
      rw [Option.map_none, Option.map_none, Option.none_or, Option.none_or, Option.map_map]
      rfl
  | some last => rfl

/-- The keys and the indexes of a query's answer agree. -/
theorem Keyed.tryGetLogEntries_eq (hkeyed : s.Keyed) {range : IndexRange}
    (haccepted : range.panics = false) : s.tryGetLogEntries range =
      some (s.entries.filter fun entry => range.contains entry.logId.index) := by
  rw [tryGetLogEntries, if_neg (by simp [haccepted]), entries, List.filter_map]
  congr 2
  refine List.filter_congr fun e he => ?_
  have hindex := hkeyed e.1 e.2 (Std.ExtTreeMap.mem_toList_iff_getElem?_eq_some.mp he)
  rw [Function.comp_apply, hindex]

variable {ops : List LogOp}

theorem mem_entries_runAll_empty {entry : Entry} :
    entry ∈ (empty.runAll ops).entries ↔ LogOp.Retained ops entry := by
  simp only [entries, List.mem_map, Prod.exists, exists_eq_right,
    Std.ExtTreeMap.mem_toList_iff_getElem?_eq_some, getElem?_runAll_empty_iff, exists_eq_left']

theorem lastPurged_runAll_empty (ops : List LogOp) :
    (empty.runAll ops).lastPurged = LogOp.lastPurge ops := by
  induction ops using List.reverseRecOn with
  | nil => rfl
  | append_singleton ops op ih =>
      rw [LogOp.lastPurge] at ih ⊢
      rw [runAll_append, List.filterMap_append, List.getLast?_append, ← ih]
      cases op <;> rfl

/-- The last entry that the operations have left is the one with the greatest index. -/
theorem lastLogId_runAll_empty (ops : List LogOp) :
    (∃ entry, LogOp.Retained ops entry ∧
        (∀ other, LogOp.Retained ops other → other.logId.index ≤ entry.logId.index) ∧
        (empty.runAll ops).getLogState.lastLogId = some entry.logId) ∨
      (∀ entry, ¬ LogOp.Retained ops entry) ∧
        (empty.runAll ops).getLogState.lastLogId = LogOp.lastPurge ops := by
  rw [getLogState, lastPurged_runAll_empty]
  cases hlast : (empty.runAll ops).entries.getLast? with
  | none =>
      right
      refine ⟨fun entry hretained => ?_, rfl⟩
      have hmem := mem_entries_runAll_empty.mpr hretained
      rw [List.getLast?_eq_none_iff.mp hlast] at hmem
      cases hmem
  | some last =>
      left
      have hmem : last ∈ (empty.runAll ops).entries := List.mem_of_getLast? hlast
      refine ⟨last, mem_entries_runAll_empty.mp hmem, fun other hother => ?_, rfl⟩
      obtain ⟨init, hinit⟩ := List.getLast?_eq_some_iff.mp hlast
      have hsorted := (keyed_runAll_empty ops).pairwise_entries
      have hotherMem := mem_entries_runAll_empty.mpr hother
      rw [hinit] at hsorted hotherMem
      rcases List.mem_append.mp hotherMem with hbefore | hsame
      · exact ((List.pairwise_append.mp hsorted).2.2 other hbefore last (by simp)).le
      · rw [List.mem_singleton.mp hsame]

theorem answered_of_accepted {range : IndexRange} (haccepted : range.panics = false) :
    LogOp.Answered ops range ((empty.runAll ops).tryGetLogEntries range) := by
  refine ⟨_, (keyed_runAll_empty ops).tryGetLogEntries_eq haccepted, ?_, fun entry => ?_⟩
  · exact (keyed_runAll_empty ops).pairwise_entries.filter _
  · rw [List.mem_filter, mem_entries_runAll_empty, and_comm]

/-- After operations that keep the contract the stored indexes are those between the two
ids of `get_log_state`, and every read is told by the operations. -/
theorem purged_log_of_run {ops : List LogOp}
    (hcontract : EachStep LogStoreState.run (fun s op => op.Allowed s) empty ops) :
    let s := empty.runAll ops
    (∀ index, index ∈ s.log ↔ indexAfter s.getLogState.lastPurgedLogId ≤ index ∧
        index < indexAfter s.getLogState.lastLogId) ∧
      s.getLogState.lastPurgedLogId = LogOp.lastPurge ops ∧
      ((∃ entry, LogOp.Retained ops entry ∧
          (∀ other, LogOp.Retained ops other → other.logId.index ≤ entry.logId.index) ∧
          s.getLogState.lastLogId = some entry.logId) ∨
        (∀ entry, ¬ LogOp.Retained ops entry) ∧
          s.getLogState.lastLogId = LogOp.lastPurge ops) ∧
      ∀ lower upper, lower ≤ upper →
        LogOp.Answered ops (.halfOpen lower upper)
            (s.tryGetLogEntries (.halfOpen lower upper)) ∧
          LogOp.Answered ops (.closed lower upper) (s.tryGetLogEntries (.closed lower upper)) := by
  intro s
  obtain ⟨next, hcontiguous⟩ := exists_contiguous_runAll hcontract
  refine ⟨fun index => ?_, lastPurged_runAll_empty ops, lastLogId_runAll_empty ops,
    fun lower upper hle => ⟨?_, ?_⟩⟩
  · rw [(keyed_runAll_empty ops).indexAfter_lastLogId, hcontiguous.nextIndex_eq]
    exact hcontiguous.stored index
  · exact answered_of_accepted (by simpa [IndexRange.halfOpen, IndexRange.panics] using hle)
  · exact answered_of_accepted (by simpa [IndexRange.closed, IndexRange.panics] using hle)

/-- A blank entry of a term. -/
def blankEntry (term index : Nat) : Entry :=
  ⟨⟨⟨term, 1⟩, index⟩, .blank⟩

/-- A tail is replaced, and a snapshot is installed beyond the end. -/
def replacedThenPurged : List LogOp :=
  [.append [blankEntry 1 0, blankEntry 1 1, blankEntry 1 2], .truncate ⟨⟨1, 1⟩, 1⟩,
    .append [blankEntry 2 1], .purge ⟨⟨1, 1⟩, 0⟩, .purge ⟨⟨3, 1⟩, 5⟩, .append [blankEntry 3 6]]

theorem purged_log_replacedThenPurged :
    (∀ index, index ∈ (empty.runAll replacedThenPurged).log ↔ 6 ≤ index ∧ index < 7) ∧
      LogOp.Answered replacedThenPurged (.closed 0 9) (some [blankEntry 3 6]) := by
  have hcontract : EachStep LogStoreState.run (fun s op => op.Allowed s) empty
      replacedThenPurged := by
    decide
  obtain ⟨hstored, -, -, hreads⟩ := purged_log_of_run hcontract
  have hfirst : indexAfter (empty.runAll replacedThenPurged).getLogState.lastPurgedLogId = 6 := by
    decide
  have hnext : indexAfter (empty.runAll replacedThenPurged).getLogState.lastLogId = 7 := by
    decide
  have hanswer : (empty.runAll replacedThenPurged).tryGetLogEntries (.closed 0 9) =
      some [blankEntry 3 6] := by
    decide
  refine ⟨fun index => ?_, ?_⟩
  · rw [hstored, hfirst, hnext]
  · rw [← hanswer]
    exact (hreads 0 9 (by decide)).2

end LogStoreState

end PgReplica
