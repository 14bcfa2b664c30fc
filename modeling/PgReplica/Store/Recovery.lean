import Mathlib.Logic.Encodable.Basic
import PgReplica.Store.DecisionDurability

/-! # Opening after a crash

What `open` finds in the files that a crash leaves, compared with what callers
were told before.
-/

namespace PgReplica

open Foundation Raft

namespace Session

variable {serde : Serde} {dir : StoreDir} {opened : Store} {s : Session}

/-- Whatever a crash leaves, `open` reads the results of the first operations and
calls, none of those that the invariants hold back missing. -/
theorem openStore_crash (hreach : ReachableFrom serde dir opened s) (survivor : Nat)
    (junk : Nat → List UInt8) : ∃ store k m,
      openStore serde dir (s.store.disk.crash survivor junk) = .ok store ∧
      (s.logConfirmed ≤ k ∧ (∀ position ∈ s.signalled, position < k) ∧ k ≤ s.logOps.length ∧
        store.log.state = opened.log.state.runAll (s.logOps.take k)) ∧
      (s.smConfirmed ≤ m ∧ s.smVisible ≤ m ∧ m ≤ s.smOps.length ∧
        store.machine.sm = opened.machine.sm.runAll serde.sm (s.smOps.take m)) := by
  obtain ⟨hwriting, hlog⟩ := logDurable_of_reachable hreach
  obtain ⟨-, hsm⟩ := smDurable_of_reachable hreach
  obtain ⟨kept, hconfirmed, hsignalled, -, hlogTracks⟩ := hlog.held
  obtain ⟨kept', hconfirmed', hvisible, -, hsmTracks⟩ := hsm.held
  obtain ⟨k, hk, hlength, hlogState⟩ := hlogTracks.load_crash hwriting.isSealed survivor junk
  obtain ⟨m, hm, hlength', hsmState⟩ := hsmTracks.load_crash hwriting.isSealed survivor junk
  refine ⟨_, k, m, openStore_eq_ok_iff.mpr ⟨_, _, hlogState, hsmState, rfl⟩, ?_, ?_⟩
  · exact ⟨hconfirmed.trans hk, fun position hold => (hsignalled position hold).trans_le hk,
      hlength, rfl⟩
  · exact ⟨hconfirmed'.trans hm, hvisible.trans hm, hlength', rfl⟩

/-- A store that opens after a crash is an opened store again, so what holds of sessions
holds of all those that crashes separate. -/
theorem opened_of_crash {store : Store} {survivor : Nat} {junk : Nat → List UInt8}
    (hopen : openStore serde dir (s.store.disk.crash survivor junk) = .ok store) :
    Opened serde dir store (start store) :=
  ⟨rfl, _, s.store.disk.settled_crash survivor junk, hopen⟩

/-- The log that `open` finds after a crash. A signalled append is still in it, entry by
entry, unless a later operation was about the same index. -/
theorem log_recovered_of_crash (hreach : ReachableFrom serde dir opened s) (survivor : Nat)
    (junk : Nat → List UInt8) : ∃ store k,
      openStore serde dir (s.store.disk.crash survivor junk) = .ok store ∧
      s.logConfirmed ≤ k ∧ k ≤ s.logOps.length ∧
      store.log.state = opened.log.state.runAll (s.logOps.take k) ∧
      ∀ position ∈ s.signalled, ∃ entries, s.logOps[position]? = some (.append entries) ∧
        position < k ∧ ∀ before entry after, entries = before ++ entry :: after →
          (∀ other ∈ after, other.logId.index ≠ entry.logId.index) →
          store.log.state.log[entry.logId.index]? = some entry ∨
            ∃ op ∈ (s.logOps.take k).drop (position + 1), op.Overrides entry.logId.index := by
  obtain ⟨store, k, m, hopen, ⟨hconfirmed, hsignalled, hlength, hstate⟩, -⟩ :=
    openStore_crash hreach survivor junk
  refine ⟨store, k, hopen, hconfirmed, hlength, hstate, fun position hposition => ?_⟩
  obtain ⟨-, hdurable⟩ := logDurable_of_reachable hreach
  obtain ⟨entries, hentries⟩ := hdurable.signals position hposition
  have hlt := hsignalled position hposition
  refine ⟨entries, hentries, hlt, ?_⟩
  rintro before entry after rfl hlast
  -- the prefix of the history that is left, cut at the append
  have hcut : s.logOps.take k = (s.logOps.take k).take position ++
      .append (before ++ entry :: after) :: (s.logOps.take k).drop (position + 1) := by
    have hget : (s.logOps.take k)[position]? = some (.append (before ++ entry :: after)) := by
      rwa [List.getElem?_take_of_lt hlt]
    obtain ⟨hbound, hget⟩ := List.getElem?_eq_some_iff.mp hget
    rw [← hget, List.getElem_cons_drop, List.take_append_drop]
  rw [hstate]
  conv in (LogStoreState.runAll _ (s.logOps.take k)) => rw [hcut]
  exact LogStoreState.getElem?_runAll_of_append hlast

/-- Between two calls that returned `Ok`, memory, file and shared copy agree, and a crash
loses no call that returned or whose decision could be seen. -/
theorem decision_recovered_of_crash (hreach : ReachableFrom serde dir opened s) :
    (s.store.machine.call = none → s.smFailed = false →
      s.store.machine.shared = s.store.machine.sm.decision ∧
        loaded serde.sm .empty (s.store.disk.read (.final .sm)) = some s.store.machine.sm) ∧
    ∀ survivor junk, ∃ store k,
      openStore serde dir (s.store.disk.crash survivor junk) = .ok store ∧
      s.smConfirmed ≤ k ∧ s.smVisible ≤ k ∧ k ≤ s.smOps.length ∧
      store.machine.sm = opened.machine.sm.runAll serde.sm (s.smOps.take k) ∧
      s.store.machine.shared =
        (opened.machine.sm.runAll serde.sm (s.smOps.take s.smVisible)).decision := by
  obtain ⟨-, hdurable⟩ := smDurable_of_reachable hreach
  constructor
  · intro hcall hfailed
    constructor
    · simpa [StateMachine.nextShared, hcall] using hdurable.shared hfailed
    · obtain ⟨kept, -, -, hall, latest, hkept, hlatest, hread, -⟩ := hdurable.held
      obtain rfl := hall ⟨hfailed, by rw [StateMachine.working, hcall]⟩
      obtain rfl := hlatest.antisymm hkept
      rw [hread, hdurable.state, valueAfter_length, SmState.runAll]
  · intro survivor junk
    obtain ⟨store, -, k, hopen, -, hconfirmed, hvisible, hlength, hstate⟩ :=
      openStore_crash hreach survivor junk
    exact ⟨store, k, hopen, hconfirmed, hvisible, hlength, hstate, hdurable.visible⟩

/-! ## A first start -/

/-- Every state is written as the digits of its number. -/
def numbered : Serde where
  log := .ofEncodable
  sm := .ofEncodable
  displayLeader leader := toString leader.term ++ "-" ++ toString leader.nodeId

/-- The disk of a first start: the directory is empty. -/
def blankDisk : StoreDisk :=
  ⟨fun _ => [], fun _ => true, fun _ => none, [], 0, by simp, by simp⟩

/-- What `open` makes of it. -/
def blankStore : Store :=
  ⟨blankDisk, ⟨.empty, none⟩, ⟨.empty, none, 0, none, none, none⟩⟩

def raftDir : StoreDir :=
  ⟨"/var/lib/raft", 1, by decide⟩

theorem opened_blankStore : Opened numbered raftDir blankStore (start blankStore) :=
  ⟨rfl, blankDisk, ⟨rfl, fun _ => rfl⟩, rfl⟩

/-- Events that can be evaluated lead to a session. -/
theorem exists_reachable {events : List StoreEvent} {p : Session → Bool}
    (heval : (events.foldlM (after numbered raftDir) (start blankStore)).any p = true) :
    ∃ s, ReachableFrom numbered raftDir blankStore s ∧ p s = true := by
  obtain ⟨s, hfold, hend⟩ := (Option.any_eq_true _ _).mp heval
  exact ⟨s, ⟨_, events, opened_blankStore, Run.of_foldlM hfold⟩, hend⟩

/-- The calls of a write that succeeds. -/
def writeOk (syscall : CallOutcome → StoreEvent) : List StoreEvent :=
  List.replicate 6 (syscall .ok)

def firstEntry : Entry :=
  ⟨⟨⟨1, 1⟩, 1⟩, .normal ⟨1, 1⟩⟩

/-- An append that returns, and a vote whose write is renamed and not yet synced. -/
def appendThenVote : List StoreEvent :=
  [.log (.append [firstEntry]), .logPersist true] ++ writeOk .logSyscall ++ [.signal, .logReturn] ++
    [.log (.saveVote ⟨⟨2, 1⟩, false⟩), .logPersist true] ++ List.replicate 4 (.logSyscall .ok)

/-- The entry survives, with the vote or without it. -/
theorem log_recovered_after_append : ∃ s, ReachableFrom numbered raftDir blankStore s ∧
    s.logConfirmed = 1 ∧ s.signalled = [0] ∧
    ∀ survivor junk, ∃ store,
      openStore numbered raftDir (s.store.disk.crash survivor junk) = .ok store ∧
        store.log.state.log[1]? = some firstEntry := by
  have heval : ((appendThenVote.foldlM (after numbered raftDir) (start blankStore)).any fun s =>
      s.logConfirmed == 1 && s.signalled == [0] &&
        s.logOps == [.append [firstEntry], .saveVote ⟨⟨2, 1⟩, false⟩]) = true := by rfl
  obtain ⟨s, hreach, hend⟩ := exists_reachable heval
  obtain ⟨⟨hconfirmed, hsignalled⟩, hops⟩ : (s.logConfirmed = 1 ∧ s.signalled = [0]) ∧
      s.logOps = [.append [firstEntry], .saveVote ⟨⟨2, 1⟩, false⟩] := by
    simpa only [Bool.and_eq_true, beq_iff_eq] using hend
  refine ⟨s, hreach, hconfirmed, hsignalled, fun survivor junk => ?_⟩
  obtain ⟨store, k, hopen, -, -, -, hentries⟩ := log_recovered_of_crash hreach survivor junk
  obtain ⟨entries, hget, -, hkept⟩ := hentries 0 (by simp [hsignalled])
  rw [hops] at hget
  cases hget
  refine ⟨store, hopen, (hkept [] firstEntry [] rfl (by simp)).resolve_right ?_⟩
  -- a vote is about no index
  rintro ⟨op, hop, hover⟩
  rw [hops, List.drop_take] at hop
  obtain rfl := List.mem_singleton.mp (List.mem_of_mem_take hop)
  exact hover

def secondEntry : Entry :=
  ⟨⟨⟨1, 1⟩, 2⟩, .normal ⟨2, 2⟩⟩

/-- A decision that has been applied, and a second one whose write is renamed and not yet
synced. -/
def applyThenApply : List StoreEvent :=
  [.apply [firstEntry], .smPersist true] ++ writeOk .smSyscall ++ [.publish, .smReturn] ++
    [.apply [secondEntry], .smPersist true] ++ List.replicate 4 (.smSyscall .ok)

/-- The first one is seen; it or the second one survives. -/
theorem decision_recovered_after_apply : ∃ s, ReachableFrom numbered raftDir blankStore s ∧
    s.store.machine.shared = some ⟨1, 1⟩ ∧
    ∀ survivor junk, ∃ store,
      openStore numbered raftDir (s.store.disk.crash survivor junk) = .ok store ∧
        (store.machine.sm.decision = some ⟨1, 1⟩ ∨ store.machine.sm.decision = some ⟨2, 2⟩) := by
  have heval : ((applyThenApply.foldlM (after numbered raftDir) (start blankStore)).any fun s =>
      s.smVisible == 1 && s.store.machine.call.isSome &&
        s.smOps == [.apply [firstEntry], .apply [secondEntry]]) = true := by rfl
  obtain ⟨s, hreach, hend⟩ := exists_reachable heval
  obtain ⟨⟨hvisible, -⟩, hops⟩ : (s.smVisible = 1 ∧ s.store.machine.call.isSome = true) ∧
      s.smOps = [.apply [firstEntry], .apply [secondEntry]] := by
    simpa only [Bool.and_eq_true, beq_iff_eq] using hend
  have hvalue : (blankStore.machine.sm.runAll numbered.sm (s.smOps.take 1)).decision =
      some ⟨1, 1⟩ := by
    rw [hops]
    rfl
  obtain ⟨-, hcrash⟩ := decision_recovered_of_crash hreach
  refine ⟨s, hreach, ?_, fun survivor junk => ?_⟩
  · obtain ⟨-, -, -, -, -, -, -, hshared⟩ := hcrash 0 fun _ => []
    rw [hshared, hvisible, hvalue]
  · obtain ⟨store, m, hopen, -, hm, hlength, hstate, -⟩ := hcrash survivor junk
    refine ⟨store, hopen, ?_⟩
    have hcount : s.smOps.length = 2 := by
      rw [hops]
      rfl
    obtain rfl | rfl : m = 1 ∨ m = 2 := by omega
    · exact Or.inl (by rw [hstate, hvalue])
    · refine Or.inr ?_
      rw [hstate, hops]
      rfl

end Session

end PgReplica
