import PgReplica.Foundation.JointFiles
import PgReplica.Store.Lifetimes
import PgReplica.Store.PurgedLog

/-! # What a restarted node applies again

After a restart openraft applies the committed entries above the applied state from
the log. None of them is missing there if every purge stops at what the state file
holds. To stop at what the memory holds is not enough.
-/

namespace PgReplica

open Foundation Raft LogStoreState

/-- Entries continue the applied state without a gap, and an installed state is not behind
the one it replaces. -/
def SmOp.Consecutive (codec : Codec SmState) (s : SmState) : SmOp → Prop
  | .apply entries =>
      entries.map (fun entry => entry.logId.index) =
        List.range' (indexAfter s.lastApplied) entries.length
  | .install _ data =>
      ∀ sm, codec.decode data = .ok sm → indexAfter s.lastApplied ≤ indexAfter sm.lastApplied

theorem SmState.indexAfter_applyEntries {s : SmState} {entries : List Entry}
    (hentries : entries.map (fun entry => entry.logId.index) =
      List.range' (indexAfter s.lastApplied) entries.length) :
    indexAfter (s.applyEntries entries).lastApplied =
      indexAfter s.lastApplied + entries.length := by
  induction entries generalizing s with
  | nil => rfl
  | cons entry rest ih =>
      obtain ⟨hfirst, hrest⟩ := List.cons.inj hentries
      have hnext : indexAfter (s.applyEntry entry).lastApplied = indexAfter s.lastApplied + 1 := by
        have happlied : (s.applyEntry entry).lastApplied = some entry.logId := by
          unfold SmState.applyEntry
          cases entry.payload <;> rfl
        rw [happlied, ← hfirst]
        rfl
      rw [SmState.applyEntries, List.foldl_cons, ← SmState.applyEntries, ih (by rwa [hnext]), hnext,
        List.length_cons]
      omega

theorem SmOp.Consecutive.le_run {codec : Codec SmState} {s : SmState} {op : SmOp}
    (hconsecutive : op.Consecutive codec s) :
    indexAfter s.lastApplied ≤ indexAfter (s.run codec op).lastApplied := by
  cases op with
  | apply entries =>
      rw [SmState.run, SmState.indexAfter_applyEntries hconsecutive]
      exact Nat.le_add_right _ _
  | install info data =>
      rw [SmState.run]
      cases hdecode : codec.decode data with
      | error => exact le_rfl
      | ok sm => exact hconsecutive sm hdecode

namespace Store

/-- The state file, read now, has applied the entry. -/
def AppliedInFile (serde : Serde) (s : Store) (id : LogId) : Prop :=
  ∀ sm, loaded serde.sm .empty (s.disk.read (.final .sm)) = some sm →
    id.index < indexAfter sm.lastApplied

/-- The memory has applied the entry. -/
def AppliedInMemory (s : Store) (id : LogId) : Prop :=
  id.index < indexAfter s.machine.sm.lastApplied

/-- The contract of openraft's calls, with a limit on purges. -/
def Contract (serde : Serde) (limit : Store → LogId → Prop) (s : Store) : LifeEvent → Prop
  | .call (.log op) => op.Allowed s.log.state ∧ ∀ id, op.purged = some id → limit s id
  | .call (.apply entries) => SmOp.Consecutive serde.sm s.machine.sm (.apply entries)
  | .call (.install info data) => SmOp.Consecutive serde.sm s.machine.sm (.install info data)
  | .call _ | .kill | .powerLoss _ _ => True

variable (serde : Serde) (dir : StoreDir)

def ContractStep (limit : Store → LogId → Prop) (s : Store) (e : LifeEvent) (s' : Store) : Prop :=
  s.Outlives serde dir e s' ∧ s.Contract serde limit e

/-- The state file has applied whatever the log file has purged. -/
def Covered (files : StoreFile → Option (List UInt8)) : Prop :=
  ∀ logState smState, loaded serde.log .empty (files .log) = some logState →
    loaded serde.sm .empty (files .sm) = some smState →
    indexAfter logState.lastPurged ≤ indexAfter smState.lastApplied

/-- No crash leaves files between which entries are missing, and the log in memory has
purged no more than the state file has applied. -/
structure Covers (s : Store) : Prop where
  always : s.disk.Always (Covered serde)
  held : ∃ sm, loaded serde.sm .empty (s.disk.files .sm) = some sm ∧
    indexAfter s.log.state.lastPurged ≤ indexAfter sm.lastApplied ∧
    indexAfter sm.lastApplied ≤ indexAfter s.machine.sm.lastApplied

variable {serde dir} {s s' : Store}

/-- A start from files between which nothing is missing. -/
theorem covers_of_open {d : StoreDisk} (halways : d.Always (Covered serde))
    (hopen : (openStore serde dir d).toOption = some s) : s.Covers serde := by
  obtain ⟨logState, smState, hlog, hsm, rfl⟩ := open_of_toOption hopen
  exact ⟨halways, smState, hsm, halways.files logState smState hlog hsm, le_rfl⟩

theorem covers_of_fresh (hfresh : s.Fresh serde dir) : s.Covers serde := by
  obtain ⟨d, hsettled, hempty, hopen⟩ := hfresh
  refine covers_of_open (hsettled.always fun logState smState hlog hsm => ?_) (by rw [hopen]; rfl)
  rw [show d.files .log = none from hempty .log, loaded] at hlog
  obtain rfl := Option.some.inj hlog
  exact Nat.zero_le _

/-- A step that touches no file and purges nothing. -/
theorem Covers.of_memory (hcovers : s.Covers serde) (hdisk : s'.disk = s.disk)
    (hlog : s'.log.state.lastPurged = s.log.state.lastPurged)
    (hsm : indexAfter s.machine.sm.lastApplied ≤ indexAfter s'.machine.sm.lastApplied) :
    s'.Covers serde := by
  obtain ⟨halways, sm, hload, hpurged, hmemory⟩ := hcovers
  exact ⟨by rwa [hdisk], sm, by rwa [hdisk], by rwa [hlog], hmemory.trans hsm⟩

/-- A call of the log's writer. -/
theorem Covers.of_logSyscall (hcovers : s.Covers serde) {disk : StoreDisk}
    (hfiles : Disk.FilesKept s.disk disk ∨
      Disk.FileReplaced .log (serde.log.encode s.log.state) s.disk disk)
    (hdisk : s'.disk = disk) (hlog : s'.log.state = s.log.state)
    (hmachine : s'.machine = s.machine) : s'.Covers serde := by
  obtain ⟨halways, sm, hload, hpurged, hmemory⟩ := hcovers
  refine ⟨?_, sm, ?_, by rwa [hlog], by rwa [hmachine]⟩
  · rw [hdisk]
    rcases hfiles with hkept | hreplaced
    · exact hkept.always halways
    · refine hreplaced.always halways fun logState smState hlogState hsmState => ?_
      rw [Function.update_self, loaded_encode] at hlogState
      rw [Function.update_of_ne (by decide), hload] at hsmState
      obtain rfl := Option.some.inj hlogState
      obtain rfl := Option.some.inj hsmState
      exact hpurged
  · rw [hdisk]
    rcases hfiles with hkept | hreplaced
    · rwa [hkept.files]
    · rwa [hreplaced.files, Function.update_of_ne (by decide)]

/-- A call of the state machine's writer. -/
theorem Covers.of_smSyscall (hcovers : s.Covers serde) {disk : StoreDisk}
    (hfiles : Disk.FilesKept s.disk disk ∨
      Disk.FileReplaced .sm (serde.sm.encode s.machine.sm) s.disk disk)
    (hdisk : s'.disk = disk) (hlog : s'.log = s.log)
    (hsm : s'.machine.sm = s.machine.sm) : s'.Covers serde := by
  obtain ⟨halways, sm, hload, hpurged, hmemory⟩ := hcovers
  rcases hfiles with hkept | hreplaced
  · exact ⟨by rw [hdisk]; exact hkept.always halways, sm, by rwa [hdisk, hkept.files],
      by rwa [hlog], by rwa [hsm]⟩
  · refine ⟨?_, s.machine.sm, ?_, by rw [hlog]; exact hpurged.trans hmemory, by rw [hsm]⟩
    · rw [hdisk]
      refine hreplaced.always halways fun logState smState hlogState hsmState => ?_
      rw [Function.update_of_ne (by decide)] at hlogState
      rw [Function.update_self, loaded_encode] at hsmState
      obtain rfl := Option.some.inj hsmState
      exact (halways.files logState sm hlogState hload).trans hmemory
    · rw [hdisk, hreplaced.files, Function.update_self, loaded_encode]

theorem Covers.step (hcovers : s.Covers serde) (hwriting : s.Writing serde) {e : LifeEvent}
    (hstep : s.ContractStep serde dir (AppliedInFile serde) e s') : s'.Covers serde := by
  obtain ⟨houtlives, hcontract⟩ := hstep
  cases e with
  | call e =>
      cases stepCase_of_step houtlives with
      | log op hcall =>
          obtain ⟨-, hlimit⟩ := hcontract
          cases op with
          | purge logId =>
              obtain ⟨halways, sm, hload, hpurged, hmemory⟩ := hcovers
              exact ⟨halways, sm, hload, hlimit logId rfl sm hload, hmemory⟩
          | saveVote | saveCommitted | append | truncate =>
              exact hcovers.of_memory rfl rfl le_rfl
      | logSyscall op pending outcome disk rest hcall hnext =>
          obtain ⟨call, todo, hpending, rfl, -⟩ := PendingWrite.next_eq_some hnext
          have hstage := hwriting.stage .log ⟨call :: todo, pending.fd⟩
            (by rw [← hpending, Store.pending, hcall])
          exact hcovers.of_logSyscall (hstage.files_run hwriting.isSealed outcome) rfl rfl rfl
      | smSyscall publishes pending outcome disk rest hcall hnext =>
          obtain ⟨call, todo, hpending, rfl, -⟩ := PendingWrite.next_eq_some hnext
          have hstage := hwriting.stage .sm ⟨call :: todo, pending.fd⟩
            (by rw [← hpending, Store.pending, hcall])
          exact hcovers.of_smSyscall (hstage.files_run hwriting.isSealed outcome) rfl rfl rfl
      | apply entries hcall =>
          have hconsecutive : SmOp.Consecutive serde.sm s.machine.sm (.apply entries) := hcontract
          exact hcovers.of_memory rfl rfl hconsecutive.le_run
      | install info data sm hcall hdecode =>
          exact hcovers.of_memory rfl rfl (hcontract sm hdecode)
      | logPersist | logRefused | signal | logReturn | installRefused | storeInstalled | smPersist
      | smRefused | publish | smReturn | readState | numberSnapshot | storeBuilt =>
          exact hcovers.of_memory rfl rfl le_rfl
  | kill => exact covers_of_open hcovers.always houtlives
  | powerLoss survivor junk =>
      exact covers_of_open (hcovers.always.crash hwriting.isSealed survivor junk) houtlives

/-- As long as every purge stops at what the state file holds, no death of the process and
no loss of power leaves a gap: the log holds every entry above the applied state. -/
theorem unapplied_stored_of_run
    (hreach : Reachable (Fresh serde dir) (ContractStep serde dir (AppliedInFile serde)) s) :
    indexAfter s.log.state.getLogState.lastPurgedLogId ≤ indexAfter s.machine.sm.lastApplied ∧
      ∀ index, indexAfter s.machine.sm.lastApplied ≤ index →
        index < indexAfter s.log.state.getLogState.lastLogId →
        ∃ entry, s.log.state.log[index]? = some entry ∧ entry.logId.index = index := by
  have hcovers : s.Writing serde ∧ s.Covers serde := by
    apply hreach.invariant (I := fun s => s.Writing serde ∧ s.Covers serde)
    · exact fun s hfresh => ⟨(follows_of_fresh hfresh).1, covers_of_fresh hfresh⟩
    · exact fun s e s' ⟨hwriting, hcovers⟩ hstep =>
        ⟨hwriting.outlive hstep.1, hcovers.step hwriting hstep⟩
  obtain ⟨-, sm, -, hpurged, hmemory⟩ := hcovers.2
  -- the log in memory is what operations within the contract lead to
  obtain ⟨s₀, labels, hfresh, hrun⟩ := hreach
  obtain ⟨hlog₀, -⟩ := related_of_fresh hfresh (fun s op => op.Allowed s) (fun _ _ => True)
  obtain ⟨_, h, -, hlog, -⟩ := hlog₀.run (fun s op hcontract => hcontract.1) hrun
  have hstate : s.log.state = LogStoreState.empty.runAll h.ops := hlog.follows.value_eq
  obtain ⟨next, hcontiguous⟩ := exists_contiguous_runAll hlog.regular
  have hkeyed := keyed_runAll_empty h.ops
  rw [← hstate] at hcontiguous hkeyed
  refine ⟨hpurged.trans hmemory, fun index happlied hlast => ?_⟩
  rw [hkeyed.indexAfter_lastLogId, hcontiguous.nextIndex_eq] at hlast
  have hmem := (hcontiguous.stored index).mpr ⟨(hpurged.trans hmemory).trans happlied, hlast⟩
  rw [Std.ExtTreeMap.mem_iff_isSome_getElem?] at hmem
  obtain ⟨entry, hentry⟩ := Option.isSome_iff_exists.mp hmem
  exact ⟨entry, hentry, hkeyed index entry hentry⟩

/-! ## Purges after an apply and during one -/

variable {limit : Store → LogId → Prop}

theorem contract_of_quiet (s : Store) (e : StoreEvent) (hquiet : e.issuesCall = false) :
    s.Contract serde limit (.call e) := by
  cases e <;> trivial

/-- The steps of a call on the log after it has been issued. -/
def finishLogCall (returns : List StoreEvent) : List StoreEvent :=
  [.logPersist true] ++ Session.writeOk .logSyscall ++ returns

def finishSmCall : List StoreEvent :=
  [.smPersist true] ++ Session.writeOk .smSyscall ++ [.publish, .smReturn]

variable (serde) in
/-- The store after steps that can be taken. -/
def evaluated (s : Store) (events : List StoreEvent) : Store :=
  (events.foldlM (after serde Session.raftDir) s).getD s

variable (serde) in
/-- Two entries have been appended. -/
def twoEntries : Store :=
  Session.blankStore.evaluated serde
    (.log (.append [blankEntry 1 0, blankEntry 1 1]) :: finishLogCall [.signal, .logReturn])

theorem run_twoEntries : Run (ContractStep serde Session.raftDir limit)
    Session.blankStore ((.call (.log (.append [blankEntry 1 0, blankEntry 1 1]))) ::
      (finishLogCall [.signal, .logReturn]).map .call) (twoEntries serde) :=
  .cons ⟨rfl, by decide, nofun⟩ (run_of_quiet contract_of_quiet (by decide) rfl)

variable (serde) in
/-- The first entry has been applied. -/
def firstApplied : Store :=
  (twoEntries serde).evaluated serde (.apply [blankEntry 1 0] :: finishSmCall)

theorem run_firstApplied : Run (ContractStep serde Session.raftDir limit)
    (twoEntries serde) (.call (.apply [blankEntry 1 0]) :: finishSmCall.map .call)
    (firstApplied serde) :=
  .cons ⟨rfl, rfl⟩ (run_of_quiet contract_of_quiet (by decide) rfl)

theorem read_firstApplied : (firstApplied serde).disk.read (.final .sm) =
    some (serde.sm.encode (firstApplied serde).machine.sm) :=
  rfl

variable (serde) in
/-- Then it has been purged. -/
def firstPurged : Store :=
  (firstApplied serde).evaluated serde
    (.log (.purge ⟨⟨1, 1⟩, 0⟩) :: finishLogCall [.logReturn])

theorem run_firstPurged : Run (ContractStep serde Session.raftDir (AppliedInFile serde))
    (firstApplied serde) (.call (.log (.purge ⟨⟨1, 1⟩, 0⟩)) ::
      (finishLogCall [.logReturn]).map .call) (firstPurged serde) := by
  refine .cons ⟨rfl, nofun, ?_⟩ (run_of_quiet contract_of_quiet (by decide) rfl)
  rintro id ⟨⟩ sm hload
  rw [read_firstApplied, loaded_encode] at hload
  obtain rfl := Option.some.inj hload
  exact Nat.zero_lt_one

theorem read_firstPurged : (firstPurged serde).disk.read (.final .log) =
      some (serde.log.encode (firstPurged serde).log.state) ∧
    (firstPurged serde).disk.read (.final .sm) =
      some (serde.sm.encode (firstPurged serde).machine.sm) :=
  ⟨rfl, rfl⟩

/-- After a death of the process the second entry is in the log. -/
theorem unapplied_stored_of_run_firstPurged : ∃ s,
    Reachable (Fresh Session.numbered Session.raftDir)
      (ContractStep Session.numbered Session.raftDir (AppliedInFile Session.numbered)) s ∧
    s.machine.sm.lastApplied = some ⟨⟨1, 1⟩, 0⟩ ∧ s.log.call = none ∧
    ∃ entry, s.log.state.log[1]? = some entry ∧ entry.logId.index = 1 := by
  obtain ⟨hlog, hsm⟩ := @read_firstPurged Session.numbered
  have hkill : (firstPurged Session.numbered).Outlives Session.numbered Session.raftDir .kill _ :=
    toOption_of_loaded (by rw [hlog, loaded_encode]) (by rw [hsm, loaded_encode])
  have hreach : Reachable (Fresh Session.numbered Session.raftDir)
      (ContractStep Session.numbered Session.raftDir (AppliedInFile Session.numbered)) _ :=
    ⟨_, _, fresh_blankStore, (run_twoEntries.append run_firstApplied).append
      (run_firstPurged.append (.single ⟨hkill, trivial⟩))⟩
  obtain ⟨-, hstored⟩ := unapplied_stored_of_run hreach
  exact ⟨_, hreach, rfl, rfl, hstored 1 (by decide) (by decide)⟩

variable (serde) in
/-- An entry has been applied in memory, and it has been purged before the state file was
written. -/
def purgedUnderApply : Store :=
  (twoEntries serde).evaluated serde (.apply [blankEntry 1 0] ::
    .log (.purge ⟨⟨1, 1⟩, 0⟩) :: finishLogCall [.logReturn])

theorem run_purgedUnderApply : Run (ContractStep serde Session.raftDir AppliedInMemory)
    (twoEntries serde) (.call (.apply [blankEntry 1 0]) :: .call (.log (.purge ⟨⟨1, 1⟩, 0⟩)) ::
      (finishLogCall [.logReturn]).map .call) (purgedUnderApply serde) := by
  refine .cons ⟨rfl, rfl⟩ (.cons ⟨rfl, nofun, ?_⟩
    (run_of_quiet contract_of_quiet (by decide) rfl))
  rintro id ⟨⟩
  exact Nat.zero_lt_one

theorem read_purgedUnderApply : (purgedUnderApply serde).disk.read (.final .log) =
      some (serde.log.encode (purgedUnderApply serde).log.state) ∧
    (purgedUnderApply serde).disk.read (.final .sm) = none :=
  ⟨rfl, rfl⟩

/-- With the memory as the limit a death of the process can leave an entry that is neither
applied nor in the log. -/
theorem gap_of_purge_under_apply : ∃ s,
    Reachable (Fresh Session.numbered Session.raftDir)
      (ContractStep Session.numbered Session.raftDir AppliedInMemory) s ∧
    s.machine.sm.lastApplied = none ∧ s.log.state.lastPurged = some ⟨⟨1, 1⟩, 0⟩ ∧
    s.log.state.log[0]? = none := by
  obtain ⟨hlog, hsm⟩ := @read_purgedUnderApply Session.numbered
  have hkill :
      (purgedUnderApply Session.numbered).Outlives Session.numbered Session.raftDir .kill _ :=
    toOption_of_loaded (by rw [hlog, loaded_encode]) (by rw [hsm]; rfl)
  exact ⟨_, ⟨_, _, fresh_blankStore,
    run_twoEntries.append (run_purgedUnderApply.append (.single ⟨hkill, trivial⟩))⟩, rfl, rfl,
    by decide⟩

end Store

end PgReplica
