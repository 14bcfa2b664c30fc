import PgReplica.Store.SnapshotOrder

/-! # Snapshots instead of a prefix of the log

A state machine that installs a snapshot and goes on from there agrees with one
that has applied every entry. The calls run here one after the other, and every
write succeeds.
-/

namespace PgReplica

open Foundation Raft

/-- What follows the memory section of a call. -/
def persistEvents : List StoreEvent :=
  [.smPersist true] ++ Session.writeOk .smSyscall ++ [.publish, .smReturn]

/-- The steps of one call. -/
def SmOp.events : SmOp → List StoreEvent
  | .apply entries => .apply entries :: persistEvents
  | .install info data => .install info data :: .storeInstalled :: persistEvents

namespace Session

variable (serde : Serde) (dir : StoreDir)

def runEvents (s : Session) (events : List StoreEvent) : Option Session :=
  events.foldlM (after serde dir) s

/-- One call after the other. -/
def calls (s : Session) (ops : List SmOp) : Option Session :=
  s.runEvents serde dir (ops.flatMap SmOp.events)

/-- `build_snapshot`. -/
def buildSnapshot (s : Session) : Option Session :=
  s.runEvents serde dir [.readState, .numberSnapshot, .storeBuilt]

variable {serde dir} {s s' : Session}

theorem runEvents_append {first second : List StoreEvent} {t : Session}
    (hfirst : s.runEvents serde dir first = some t)
    (hsecond : t.runEvents serde dir second = some s') :
    s.runEvents serde dir (first ++ second) = some s' := by
  rw [runEvents, List.foldlM_append, Option.bind_eq_bind, Option.bind_eq_some_iff]
  exact ⟨t, hfirst, hsecond⟩

theorem runEvents_cons {e : StoreEvent} {rest : List StoreEvent} {t : Session}
    (hstep : s.Step serde dir e t) (hrest : t.runEvents serde dir rest = some s') :
    s.runEvents serde dir (e :: rest) = some s' := by
  rw [runEvents, List.foldlM_cons, Option.bind_eq_bind, Option.bind_eq_some_iff]
  exact ⟨t, hstep, hrest⟩

theorem writing_of_runEvents (hwriting : s.store.Writing serde) {events : List StoreEvent}
    (hrun : s.runEvents serde dir events = some s') : s'.store.Writing serde :=
  (Run.of_foldlM hrun).invariant (fun _ _ _ hs hstep => writing_of_step hs hstep) hwriting

/-- Between two calls: nothing has failed, and the shared copy is up to date. -/
structure Idle (serde : Serde) (s : Session) : Prop where
  writing : s.store.Writing serde
  call : s.store.machine.call = none
  build : s.store.machine.build = none
  failed : s.smFailed = false
  shared : s.store.machine.shared = s.store.machine.sm.decision

theorem idle_of_opened {opened : Store} (hopened : Opened serde dir opened s) : s.Idle serde := by
  have hwriting := writing_of_opened hopened
  obtain ⟨rfl, d, -, hopen⟩ := hopened
  obtain ⟨logState, smState, -, -, rfl⟩ := openStore_eq_ok_iff.mp hopen
  exact ⟨hwriting, rfl, rfl, rfl, rfl⟩

/-! ## One call -/

/-- The session with another disk and at another stage of its call. -/
def atStage (s : Session) (disk : StoreDisk) (call : Option SmCall) : Session :=
  { s with store := { s.store with disk, machine := { s.store.machine with call } } }

/-- The system calls of a write that are left, all successful. -/
theorem exists_syscalls {todo : List (Syscall (FileName StoreFile))} {fd : Option Nat}
    {publishes : Option (Option Decision)}
    (hcall : s.store.machine.call = some ⟨.write ⟨todo, fd⟩, publishes⟩)
    (hfailed : s.smFailed = false) : ∃ disk fd',
      s.runEvents serde dir (List.replicate todo.length (.smSyscall .ok)) =
        some (s.atStage disk (some ⟨.write ⟨[], fd'⟩, publishes⟩)) := by
  induction todo generalizing s fd with
  | nil =>
      refine ⟨s.store.disk, fd, ?_⟩
      rw [← hcall]
      rfl
  | cons call rest ih =>
      let t := s.atStage (call.run s.store.disk fd .ok)
        (some ⟨.write ⟨rest, call.nextFd s.store.disk fd⟩, publishes⟩)
      have hstep : s.Step serde dir (.smSyscall .ok) t := by
        simp [Step, after, Store.after, StoreEvent.issuesSmCall, hcall, PendingWrite.next, recorded,
          Store.setSmCall, hfailed, t, atStage]
      obtain ⟨disk, fd', hrest⟩ := @ih t _ rfl hfailed
      exact ⟨disk, fd', runEvents_cons hstep hrest⟩

/-- What a call leaves when its file part is done. -/
def persisted (s : Session) (disk : StoreDisk) (publishes : Option (Option Decision)) : Session :=
  { s with
    store :=
      { s.store with
        disk
        machine :=
          { s.store.machine with
            shared := publishes.getD s.store.machine.shared
            call := none } }
    smVisible := if publishes.isSome then s.smOps.length else s.smVisible
    smConfirmed := s.smOps.length }

/-- The file part of a call. -/
theorem exists_persist (hwriting : s.store.Writing serde) {publishes : Option (Option Decision)}
    (hcall : s.store.machine.call = some ⟨.persist, publishes⟩) (hfailed : s.smFailed = false) :
    ∃ disk, disk.read (.final .sm) = some (serde.sm.encode s.store.machine.sm) ∧
      s.runEvents serde dir persistEvents = some (s.persisted disk publishes) := by
  let bytes := serde.sm.encode s.store.machine.sm
  let t := s.atStage s.store.disk (some ⟨.write (.start (atomicWrite dir .sm bytes)), publishes⟩)
  have hstart : s.Step serde dir (.smPersist true) t := by
    simp [Step, after, Store.after, StoreEvent.issuesSmCall, hcall, recorded, hfailed, t, atStage,
      Store.setSmCall, bytes]
  obtain ⟨disk, fd, hsyscalls⟩ := @exists_syscalls serde dir t _ none publishes rfl hfailed
  rw [atomicWrite_eq] at hsyscalls
  have hwrite : s.runEvents serde dir (.smPersist true :: writeOk .smSyscall) =
      some (t.atStage disk (some ⟨.write ⟨[], fd⟩, publishes⟩)) :=
    runEvents_cons hstart hsyscalls
  -- the last system call has returned
  have hdone := (writing_of_runEvents hwriting hwrite).stage .sm ⟨[], fd⟩ rfl
  have hread : disk.read (.final .sm) = some bytes := by
    cases hdone with
    | done _ hread => exact hread
  refine ⟨disk, hread, runEvents_append hwrite ?_⟩
  refine runEvents_cons (t := { t.atStage disk (some ⟨.published, publishes⟩) with
    store.machine.shared := publishes.getD s.store.machine.shared
    smVisible := if publishes.isSome then s.smOps.length else s.smVisible })
    ?_ (runEvents_cons ?_ rfl)
  · simp [Step, after, Store.after, StoreEvent.issuesSmCall, recorded, t, atStage]
  · simp [Step, after, Store.after, StoreEvent.issuesSmCall, recorded, t, atStage, persisted,
      Store.setSmCall]

/-- A call leaves an idle session, with its state in the file. -/
structure Leaves (serde : Serde) (dir : StoreDir) (s : Session) (op : SmOp) (state : SmState)
    (snapshot : Option StoredSnapshot) (s' : Session) : Prop where
  run : s.calls serde dir [op] = some s'
  idle : s'.Idle serde
  sm_eq : s'.store.machine.sm = state
  snapshot_eq : s'.store.machine.snapshot = snapshot
  file : s'.store.disk.read (.final .sm) = some (serde.sm.encode state)

theorem exists_leaves_apply (dir : StoreDir) (hidle : s.Idle serde) (entries : List Entry) :
    ∃ s', s.Leaves serde dir (.apply entries) (s.store.machine.sm.applyEntries entries)
      s.store.machine.snapshot s' := by
  let sm := s.store.machine.sm.applyEntries entries
  let publishes := if carriesDecision entries then some sm.decision else none
  let t : Session :=
    { s with
      store.machine.sm := sm
      store.machine.call := some ⟨.persist, publishes⟩
      smOps := s.smOps ++ [.apply entries] }
  have hissue : s.Step serde dir (.apply entries) t := by
    simp [Step, after, Store.after, recorded, hidle.call, hidle.failed, t, sm, publishes]
  have hwriting : t.store.Writing serde := writing_of_step hidle.writing hissue
  obtain ⟨disk, hread, hpersist⟩ := @exists_persist serde dir t hwriting _ rfl hidle.failed
  have hrun : s.calls serde dir [.apply entries] = some (t.persisted disk publishes) :=
    runEvents_cons hissue hpersist
  refine ⟨t.persisted disk publishes, hrun, ⟨writing_of_runEvents hidle.writing hrun, rfl,
    hidle.build, hidle.failed, ?_⟩, rfl, rfl, hread⟩
  change publishes.getD s.store.machine.shared = sm.decision
  cases hcarries : carriesDecision entries with
  | true => simp [publishes, hcarries]
  | false =>
      simp only [publishes, hcarries, Bool.false_eq_true, if_false, Option.getD_none, sm]
      rw [SmState.decision_applyEntries hcarries, hidle.shared]

theorem exists_leaves_install (dir : StoreDir) (hidle : s.Idle serde) (info : SnapshotMeta)
    {data : List UInt8} {sm : SmState} (hdecode : serde.sm.decode data = .ok sm) :
    ∃ s', s.Leaves serde dir (.install info data) sm (some ⟨info, data⟩) s' := by
  let t : Session :=
    { s with
      store.machine.sm := sm
      store.machine.call := some ⟨.storeSnapshot ⟨info, data⟩, some sm.decision⟩
      smOps := s.smOps ++ [.install info data] }
  let u : Session :=
    { t with
      store.machine.snapshot := some ⟨info, data⟩
      store.machine.call := some ⟨.persist, some sm.decision⟩ }
  have hissue : s.Step serde dir (.install info data) t := by
    simp [Step, after, Store.after, recorded, hidle.call, hidle.failed, hdecode, t, Except.toOption]
  have hstore : t.Step serde dir .storeInstalled u := by
    simp [Step, after, Store.after, recorded, StoreEvent.issuesSmCall, t, u]
  have hwriting : u.store.Writing serde :=
    writing_of_step (writing_of_step hidle.writing hissue) hstore
  obtain ⟨disk, hread, hpersist⟩ := @exists_persist serde dir u hwriting _ rfl hidle.failed
  have hrun : s.calls serde dir [.install info data] = some (u.persisted disk (some sm.decision)) :=
    runEvents_cons hissue (runEvents_cons hstore hpersist)
  exact ⟨_, hrun, ⟨writing_of_runEvents hidle.writing hrun, rfl, hidle.build, hidle.failed, rfl⟩,
    rfl, rfl, hread⟩

/-! ## Many calls -/

theorem calls_append {first second : List SmOp} {t : Session}
    (hfirst : s.calls serde dir first = some t) (hsecond : t.calls serde dir second = some s') :
    s.calls serde dir (first ++ second) = some s' := by
  rw [calls, List.flatMap_append]
  exact runEvents_append hfirst hsecond

/-- Batches are applied one after the other; how the entries are divided does not matter. -/
theorem exists_calls_apply (dir : StoreDir) (hidle : s.Idle serde)
    (batches : List (List Entry)) :
    ∃ s', s.calls serde dir (batches.map .apply) = some s' ∧ s'.Idle serde ∧
      s'.store.machine.sm = s.store.machine.sm.applyEntries batches.flatten ∧
      s'.store.machine.snapshot = s.store.machine.snapshot ∧
      (s'.store.disk.read (.final .sm) = some (serde.sm.encode s'.store.machine.sm) ∨
        batches = [] ∧ s' = s) := by
  induction batches generalizing s with
  | nil => exact ⟨s, rfl, hidle, rfl, rfl, Or.inr ⟨rfl, rfl⟩⟩
  | cons entries rest ih =>
      obtain ⟨t, hcall⟩ := exists_leaves_apply dir hidle entries
      obtain ⟨s', hrest, hidle', hsm, hsnapshot, hfile⟩ := ih hcall.idle
      refine ⟨s', calls_append hcall.run hrest, hidle', ?_, hsnapshot.trans hcall.snapshot_eq,
        Or.inl ?_⟩
      · rw [hsm, hcall.sm_eq, List.flatten_cons, SmState.applyEntries, SmState.applyEntries,
          SmState.applyEntries, List.foldl_append]
      · rcases hfile with hread | ⟨-, rfl⟩
        · exact hread
        · rw [hcall.file, hcall.sm_eq]

/-- What the file stands for, written or not yet written. -/
theorem loaded_of_calls {opened : Store} (hopened : Opened serde dir opened s)
    {ops : List SmOp} (hrun : s.calls serde dir ops = some s') (hidle : s'.Idle serde) :
    loaded serde.sm .empty (s'.store.disk.read (.final .sm)) = some s'.store.machine.sm := by
  have hreach : ReachableFrom serde dir opened s' := ⟨s, _, hopened, Run.of_foldlM hrun⟩
  exact ((decision_recovered_of_crash hreach).1 hidle.call hidle.failed).2

theorem exists_buildSnapshot (dir : StoreDir) (hidle : s.Idle serde) : ∃ s' idx,
    s.buildSnapshot serde dir = some s' ∧
      s'.store.machine.getCurrentSnapshot =
        some (s.store.machine.sm.snapshot serde.sm serde.displayLeader idx) := by
  let idx := s.store.machine.snapshotIdx + 1
  let snapshot := s.store.machine.sm.snapshot serde.sm serde.displayLeader idx
  let built : Session :=
    { s with
      store.machine.snapshotIdx := idx
      store.machine.snapshot := some snapshot
      store.machine.build := none }
  refine ⟨built, idx, ?_, rfl⟩
  simp [buildSnapshot, runEvents, after, Store.after, recorded, StoreEvent.issuesSmCall,
    hidle.build, built, snapshot, idx, SmState.snapshot]

/-- `applied_state`. -/
def appliedState (s : Session) : Option LogId × StoredMembership :=
  (s.store.machine.sm.lastApplied, s.store.machine.sm.lastMembership)

variable {dirA dirB dirC : StoreDir} {openedA openedB openedC : Store} {a b c : Session}

/-- `a` applies the first entries and builds a snapshot. `b`, whatever it has applied
before, installs the snapshot and applies the rest. `c` applies all entries: it ends as `b`
does, except that it writes no file when it is not called at all. -/
theorem replay_after_install (ha : Opened serde dirA openedA a) (hb : Opened serde dirB openedB b)
    (hc : Opened serde dirC openedC c) (hac : openedA.machine.sm = openedC.machine.sm)
    {first second : List Entry} {batchesA batchesB batches batchesC : List (List Entry)}
    (hfirst : batchesA.flatten = first) (hsecond : batches.flatten = second)
    (hall : batchesC.flatten = first ++ second) :
    ∃ applied built info data installed final replayed,
      a.calls serde dirA (batchesA.map .apply) = some applied ∧
      applied.buildSnapshot serde dirA = some built ∧
      built.store.machine.getCurrentSnapshot = some ⟨info, data⟩ ∧
      b.calls serde dirB (batchesB.map .apply ++ [.install info data]) = some installed ∧
      installed.appliedState = (info.lastLogId, info.lastMembership) ∧
      installed.store.machine.getCurrentSnapshot = some ⟨info, data⟩ ∧
      installed.calls serde dirB (batches.map .apply) = some final ∧
      c.calls serde dirC (batchesC.map .apply) = some replayed ∧
      final.store.machine.sm = replayed.store.machine.sm ∧
      final.store.machine.shared = replayed.store.machine.shared ∧
      (batchesC ≠ [] → final.store.disk.read (.final .sm) = replayed.store.disk.read (.final .sm)) ∧
      loaded serde.sm .empty (final.store.disk.read (.final .sm)) =
        loaded serde.sm .empty (replayed.store.disk.read (.final .sm)) := by
  have hopenedA : a.store.machine.sm = openedA.machine.sm := by rw [ha.1]; rfl
  have hopenedC : c.store.machine.sm = openedC.machine.sm := by rw [hc.1]; rfl
  obtain ⟨applied, hrunA, hidleA, hsmA, -⟩ :=
    exists_calls_apply dirA (idle_of_opened ha) batchesA
  obtain ⟨built, idx, hbuild, hsnapshot⟩ := exists_buildSnapshot dirA hidleA
  obtain ⟨early, hrunB, hidleB, -⟩ :=
    exists_calls_apply dirB (idle_of_opened hb) batchesB
  obtain ⟨installed, hinstall⟩ := exists_leaves_install dirB hidleB
    (applied.store.machine.sm.snapshot serde.sm serde.displayLeader idx).info
    (serde.sm.decode_encode applied.store.machine.sm)
  obtain ⟨final, hrunFinal, hidleFinal, hsmFinal, -, hfileFinal⟩ :=
    exists_calls_apply dirB hinstall.idle batches
  obtain ⟨replayed, hrunC, hidleC, hsmC, -, hfileC⟩ :=
    exists_calls_apply dirC (idle_of_opened hc) batchesC
  have hrunInstall := calls_append hrunB hinstall.run
  have hsm : final.store.machine.sm = replayed.store.machine.sm := by
    rw [hsmFinal, hinstall.sm_eq, hsmA, hfirst, hsecond, hsmC, hall, hopenedA, hopenedC, hac,
      SmState.applyEntries, SmState.applyEntries, SmState.applyEntries, List.foldl_append]
  have hfile : final.store.disk.read (.final .sm) =
      some (serde.sm.encode final.store.machine.sm) := by
    rcases hfileFinal with hread | ⟨-, rfl⟩
    · exact hread
    · rw [hinstall.file, hinstall.sm_eq]
  refine ⟨applied, built, _, _, installed, final, replayed, hrunA, hbuild, hsnapshot, hrunInstall,
    ?_, hinstall.snapshot_eq, hrunFinal, hrunC, hsm, ?_, ?_, ?_⟩
  · rw [appliedState, hinstall.sm_eq]
  · rw [hidleFinal.shared, hidleC.shared, hsm]
  · intro hcalled
    rcases hfileC with hread | ⟨hnone, -⟩
    · rw [hfile, hread, hsm]
    · exact absurd hnone hcalled
  · rw [loaded_of_calls hc hrunC hidleC,
      loaded_of_calls hb (calls_append hrunInstall hrunFinal) hidleFinal, hsm]

/-- A blank node takes over two entries by a snapshot of the first and a replay of the
second, like one that applies both at once. -/
theorem replay_two_entries : ∃ info data installed final replayed,
    (start blankStore).calls numbered raftDir [.install info data] = some installed ∧
      installed.calls numbered raftDir [.apply [secondEntry]] = some final ∧
      (start blankStore).calls numbered raftDir [.apply [firstEntry, secondEntry]] =
        some replayed ∧
      final.store.machine.sm = replayed.store.machine.sm ∧
      final.store.machine.shared = replayed.store.machine.shared ∧
      final.store.disk.read (.final .sm) = replayed.store.disk.read (.final .sm) := by
  let batchesC := [[firstEntry, secondEntry]]
  have hall : batchesC.flatten = [[firstEntry]].flatten ++ [[secondEntry]].flatten := rfl
  obtain ⟨-, -, info, data, installed, final, replayed, -, -, -, hinstall, -, -, hfinal, hreplayed,
      hsm, hshared, hfile, -⟩ :=
    @replay_after_install numbered raftDir raftDir raftDir _ _ _ _ _ _ opened_blankStore
      opened_blankStore opened_blankStore rfl _ _ [[firstEntry]] [] [[secondEntry]] _ rfl rfl hall
  exact ⟨info, data, installed, final, replayed, hinstall, hfinal, hreplayed, hsm, hshared,
    hfile (by simp [batchesC])⟩

/-- With no entries at all, only the node that installs a snapshot has a file. -/
theorem install_of_nothing_writes : ∃ built info data installed,
    (start blankStore).buildSnapshot numbered raftDir = some built ∧
      built.store.machine.getCurrentSnapshot = some ⟨info, data⟩ ∧
      (start blankStore).calls numbered raftDir [.install info data] = some installed ∧
      (start blankStore).calls numbered raftDir [] = some (start blankStore) ∧
      installed.store.disk.read (.final .sm) ≠
        (start blankStore).store.disk.read (.final .sm) := by
  have hidle := idle_of_opened opened_blankStore
  obtain ⟨built, idx, hbuild, hsnapshot⟩ := exists_buildSnapshot raftDir hidle
  obtain ⟨installed, hinstall⟩ := exists_leaves_install raftDir hidle
    (SmState.empty.snapshot numbered.sm numbered.displayLeader idx).info
    (numbered.sm.decode_encode SmState.empty)
  refine ⟨built, _, _, installed, hbuild, hsnapshot, hinstall.run, rfl, ?_⟩
  rw [hinstall.file]
  rintro ⟨⟩

end Session

end PgReplica
