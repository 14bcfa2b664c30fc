import Mathlib.Data.List.Chain
import Mathlib.Data.Prod.Lex
import Mathlib.Order.WithBot
import PgReplica.Foundation.Run
import PgReplica.Store.Recovery

/-! # The order of stored snapshots

`build_snapshot` reads the state and stores the snapshot under different locks.
An install in between leaves a newer snapshot, and the build replaces it by the
older one that it has read.
-/

namespace PgReplica

open Foundation Raft

/-! ## The order of log ids -/

/-- Log ids are compared by term, then by node, then by index. -/
def Raft.LogId.key (id : LogId) : Nat ×ₗ (Nat ×ₗ Nat) :=
  toLex (id.leaderId.term, toLex (id.leaderId.nodeId, id.index))

/-- `None` comes before every log id. -/
def Raft.LogId.rank : Option LogId → WithBot (Nat ×ₗ (Nat ×ₗ Nat))
  | none => ⊥
  | some id => id.key

namespace SmState

/-- How far the state has come. -/
def rank (s : SmState) : WithBot (Nat ×ₗ (Nat ×ₗ Nat)) :=
  LogId.rank s.lastApplied

theorem rank_applyEntry (s : SmState) (entry : Entry) :
    (s.applyEntry entry).rank = LogId.rank (some entry.logId) := by
  unfold rank applyEntry
  cases entry.payload <;> rfl

/-- Entries with increasing log ids move the state forward, up to the last of them. -/
theorem rank_applyEntries {s : SmState} {entries : List Entry}
    {passed : WithBot (Nat ×ₗ (Nat ×ₗ Nat))} (hle : s.rank ≤ passed)
    (hids : (passed :: entries.map fun entry => LogId.rank (some entry.logId)).IsChain (· < ·)) :
    s.rank ≤ (s.applyEntries entries).rank ∧ (s.applyEntries entries).rank ≤
      (entries.getLast?.map fun entry => LogId.rank (some entry.logId)).getD passed := by
  induction entries generalizing s passed with
  | nil => exact ⟨le_rfl, hle⟩
  | cons entry rest ih =>
      obtain ⟨hlt, hrest⟩ := List.isChain_cons_cons.mp hids
      obtain ⟨hgrows, hlast⟩ := ih (s.rank_applyEntry entry).le hrest
      rw [s.rank_applyEntry] at hgrows
      refine ⟨hle.trans (hlt.le.trans hgrows), ?_⟩
      rw [List.getLast?_cons, Option.map_some, Option.getD_some]
      rwa [Option.getD_map] at hlast

end SmState

namespace StateMachine

/-- `get_current_snapshot`. -/
def getCurrentSnapshot (m : StateMachine) : Option StoredSnapshot :=
  m.snapshot

/-- How far the snapshot that `get_current_snapshot` returns has come. -/
def snapshotRank (m : StateMachine) : WithBot (Nat ×ₗ (Nat ×ₗ Nat)) :=
  LogId.rank (m.getCurrentSnapshot.bind fun snapshot => snapshot.info.lastLogId)

/-- How far the snapshot under construction has come. -/
def buildRank (m : StateMachine) : Option (WithBot (Nat ×ₗ (Nat ×ₗ Nat))) :=
  m.build.map fun
    | .read _ lastApplied _ => LogId.rank lastApplied
    | .numbered snapshot => LogId.rank snapshot.info.lastLogId

end StateMachine

/-! ## Runs with increasing log ids -/

/-- What installs have done since the build under way has read the state. -/
inductive Overtaking where
  | undisturbed
  | replaced
  | overtaken
deriving DecidableEq

def Overtaking.after (since : Overtaking) : StoreEvent → Overtaking
  | .readState => .undisturbed
  | .install _ _ =>
      match since with
      | .undisturbed | .replaced => .replaced
      | .overtaken => .overtaken
  | .storeInstalled =>
      match since with
      | .undisturbed => .undisturbed
      | .replaced | .overtaken => .overtaken
  | _ => since

/-- A store whose installs are watched: what they have done to the build under way,
the last log id that was passed, the install under way or last one to end, and the last
one that returned. -/
structure Watched where
  store : Store
  since : Overtaking
  passed : WithBot (Nat ×ₗ (Nat ×ₗ Nat))
  installing : Option (WithBot (Nat ×ₗ (Nat ×ₗ Nat)))
  installed : WithBot (Nat ×ₗ (Nat ×ₗ Nat))

namespace Watched

variable (serde : Serde) (dir : StoreDir)

/-- The log ids of the entries increase from the last one that was passed. -/
def Follows (w : Watched) (entries : List Entry) : Prop :=
  (w.passed :: entries.map fun entry => LogId.rank (some entry.logId)).IsChain (· < ·)

/-- The log ids that a step passes come after all earlier ones, and the data of a
snapshot has the log id that its metadata names. -/
def Increasing (w : Watched) : StoreEvent → Prop
  | .apply entries => w.Follows entries
  | .install info data =>
      w.passed < LogId.rank info.lastLogId ∧
        ∀ sm, serde.sm.decode data = .ok sm → sm.lastApplied = info.lastLogId
  | _ => True

def recorded (w : Watched) (e : StoreEvent) (store : Store) : Watched :=
  let w := { w with store, since := w.since.after e }
  match e with
  | .apply entries =>
      let last := entries.getLast?.map fun entry => LogId.rank (some entry.logId)
      { w with passed := last.getD w.passed, installing := none }
  | .install info _ =>
      let rank := LogId.rank info.lastLogId
      { w with passed := rank, installing := some rank }
  | .smReturn => { w with installed := w.installing.getD w.installed }
  | _ => w

def after (w : Watched) (e : StoreEvent) : Option Watched :=
  (w.store.after serde dir e).map (w.recorded e)

/-- One step of a run whose log ids increase. -/
def Step (w : Watched) (e : StoreEvent) (w' : Watched) : Prop :=
  w.after serde dir e = some w' ∧ w.Increasing serde e

/-- A store right after `open`. -/
def start (store : Store) : Watched :=
  ⟨store, .undisturbed, store.machine.sm.rank, none, ⊥⟩

/-! ## What holds in every run -/

variable {serde dir} {w w' : Watched} {e : StoreEvent}

/-- The log id of the snapshot that an install is about to store. -/
def pendingRank (w : Watched) : Option (WithBot (Nat ×ₗ (Nat ×ₗ Nat))) :=
  match w.store.machine.call with
  | some ⟨.storeSnapshot snapshot, _⟩ => some (LogId.rank snapshot.info.lastLogId)
  | _ => none

/-- A build that has read the state at `rank`, and the snapshots stored or about to be
stored meanwhile. -/
def SinceRead (w : Watched) (rank : WithBot (Nat ×ₗ (Nat ×ₗ Nat))) : Prop :=
  match w.since with
  | .undisturbed => w.store.machine.snapshotRank ≤ rank ∧ ∀ r, w.pendingRank = some r → r ≤ rank
  | .replaced => w.store.machine.snapshotRank ≤ rank ∧ ∀ r, w.pendingRank = some r → rank < r
  | .overtaken => rank < w.store.machine.snapshotRank ∧ ∀ r, w.pendingRank = some r → rank < r

/-- No snapshot is ahead of the state, and the state is not ahead of what was passed. -/
structure Ordered (w : Watched) : Prop where
  applied : w.store.machine.sm.rank ≤ w.passed
  stored : w.store.machine.snapshotRank ≤ w.store.machine.sm.rank
  pending : ∀ r, w.pendingRank = some r → r = w.store.machine.sm.rank ∧ w.installing = some r
  built : ∀ rank, w.store.machine.buildRank = some rank →
    rank ≤ w.store.machine.sm.rank ∧ w.SinceRead rank

/-- The snapshot of every install that has stored it is not ahead of the stored one. -/
structure Covered (w : Watched) : Prop where
  returned : w.installed ≤ w.store.machine.snapshotRank
  running : w.store.machine.call.isSome → w.pendingRank = none →
    ∀ r, w.installing = some r → r ≤ w.store.machine.snapshotRank

theorem SinceRead.of_same {rank : WithBot (Nat ×ₗ (Nat ×ₗ Nat))} (hread : w.SinceRead rank)
    (hsnapshot : w'.store.machine.snapshotRank = w.store.machine.snapshotRank)
    (hsince : w'.since = w.since)
    (hpending : ∀ r, w'.pendingRank = some r → w.pendingRank = some r) : w'.SinceRead rank := by
  unfold SinceRead at hread ⊢
  rw [hsince, hsnapshot]
  cases hstage : w.since <;> rw [hstage] at hread <;>
    exact ⟨hread.1, fun r hr => hread.2 r (hpending r hr)⟩

/-- A step that touches neither the state nor a snapshot. -/
theorem Ordered.of_same (hordered : w.Ordered) (hsm : w'.store.machine.sm = w.store.machine.sm)
    (hsnapshot : w'.store.machine.snapshot = w.store.machine.snapshot)
    (hbuild : w'.store.machine.buildRank = w.store.machine.buildRank)
    (hsince : w'.since = w.since) (hpassed : w'.passed = w.passed)
    (hinstalling : w'.installing = w.installing)
    (hpending : ∀ r, w'.pendingRank = some r → w.pendingRank = some r) : w'.Ordered := by
  have hrank : w'.store.machine.snapshotRank = w.store.machine.snapshotRank := by
    rw [StateMachine.snapshotRank, StateMachine.getCurrentSnapshot, hsnapshot]
    rfl
  refine ⟨?_, ?_, ?_, ?_⟩
  · rw [hsm, hpassed]
    exact hordered.applied
  · rw [hsm, hrank]
    exact hordered.stored
  · intro r hr
    rw [hsm, hinstalling]
    exact hordered.pending r (hpending r hr)
  · intro rank hread
    obtain ⟨hle, hsinceRead⟩ := hordered.built rank (hbuild ▸ hread)
    exact ⟨hsm ▸ hle, hsinceRead.of_same hrank hsince hpending⟩

/-- The state has been replaced, or the data could not be read. -/
theorem SinceRead.of_install {rank : WithBot (Nat ×ₗ (Nat ×ₗ Nat))} (hread : w.SinceRead rank)
    (info : SnapshotMeta) (data : List UInt8)
    (hsnapshot : w'.store.machine.snapshotRank = w.store.machine.snapshotRank)
    (hsince : w'.since = w.since.after (.install info data))
    (hpending : ∀ r, w'.pendingRank = some r → rank < r) : w'.SinceRead rank := by
  unfold SinceRead at hread ⊢
  rw [hsince, hsnapshot]
  cases hstage : w.since <;> rw [hstage] at hread <;> exact ⟨hread.1, hpending⟩

/-- The snapshot that was about to be stored has been stored. -/
theorem SinceRead.of_storeInstalled {rank : WithBot (Nat ×ₗ (Nat ×ₗ Nat))}
    (hread : w.SinceRead rank) (hstored : w.pendingRank = some w'.store.machine.snapshotRank)
    (hsince : w'.since = w.since.after .storeInstalled) (hpending : w'.pendingRank = none) :
    w'.SinceRead rank := by
  have hnone : ∀ r, w'.pendingRank ≠ some r := by
    rw [hpending]
    rintro _ ⟨⟩
  unfold SinceRead at hread ⊢
  rw [hsince]
  cases hstage : w.since <;> rw [hstage] at hread <;>
    exact ⟨hread.2 _ hstored, fun r hr => absurd hr (hnone r)⟩

theorem store_step (hstep : w.Step serde dir e w') : ∃ store, w.store.Step serde dir e store ∧
    w' = w.recorded e store ∧ w.Increasing serde e := by
  obtain ⟨store, hstore, rfl⟩ := Option.map_eq_some_iff.mp hstep.1
  exact ⟨store, hstore, rfl, hstep.2⟩

theorem Ordered.step (hordered : w.Ordered) (hstep : w.Step serde dir e w') : w'.Ordered := by
  obtain ⟨store, hstore, rfl, hids⟩ := store_step hstep
  cases Store.stepCase_of_step hstore with
  | apply entries hcall =>
      obtain ⟨hgrows, hlast⟩ := SmState.rank_applyEntries hordered.applied hids
      refine ⟨hlast, hordered.stored.trans hgrows, ?_, ?_⟩
      · rintro _ ⟨⟩
      · intro rank hbuild
        obtain ⟨hle, hread⟩ := hordered.built rank hbuild
        refine ⟨hle.trans hgrows, hread.of_same rfl rfl ?_⟩
        rintro _ ⟨⟩
  | installRefused info data error hcall hdecode =>
      have hnone : ∀ r, (w.recorded (.install info data) w.store).pendingRank ≠ some r := by
        intro r
        simp [pendingRank, recorded, hcall]
      refine ⟨hordered.applied.trans hids.1.le, hordered.stored, ?_, ?_⟩
      · exact fun r hr => absurd hr (hnone r)
      · intro rank hbuild
        obtain ⟨hle, hread⟩ := hordered.built rank hbuild
        exact ⟨hle, hread.of_install info data rfl rfl fun r hr => absurd hr (hnone r)⟩
  | install info data sm hcall hdecode =>
      have hrank : sm.rank = LogId.rank info.lastLogId := by
        rw [SmState.rank, hids.2 sm hdecode]
      have hlt : w.store.machine.sm.rank < sm.rank := by
        rw [hrank]
        exact hordered.applied.trans_lt hids.1
      refine ⟨hrank.le, hordered.stored.trans hlt.le, ?_, ?_⟩
      · rintro _ ⟨⟩
        exact ⟨hrank.symm, rfl⟩
      · intro rank hbuild
        obtain ⟨hle, hread⟩ := hordered.built rank hbuild
        refine ⟨hle.trans hlt.le, hread.of_install info data rfl rfl ?_⟩
        rintro _ ⟨⟩
        exact hrank ▸ hle.trans_lt hlt
  | storeInstalled snapshot publishes hcall =>
      have hpending : w.pendingRank = some (LogId.rank snapshot.info.lastLogId) := by
        rw [pendingRank, hcall]
      obtain ⟨hstate, -⟩ := hordered.pending _ hpending
      refine ⟨hordered.applied, hstate.le, ?_, ?_⟩
      · rintro _ ⟨⟩
      · intro rank hbuild
        obtain ⟨hle, hread⟩ := hordered.built rank hbuild
        exact ⟨hle, hread.of_storeInstalled hpending rfl rfl⟩
  | readState hbuild =>
      refine ⟨hordered.applied, hordered.stored, hordered.pending, ?_⟩
      rintro _ ⟨⟩
      exact ⟨le_rfl, hordered.stored, fun r hr => (hordered.pending r hr).1.le⟩
  | storeBuilt snapshot hbuild =>
      obtain ⟨hle, -⟩ := hordered.built _ (by rw [StateMachine.buildRank, hbuild]; rfl)
      refine ⟨hordered.applied, hle, hordered.pending, ?_⟩
      rintro _ ⟨⟩
  | numberSnapshot data lastApplied lastMembership hbuild =>
      refine hordered.of_same rfl rfl ?_ rfl rfl rfl fun r hr => hr
      simp [recorded, StateMachine.buildRank, hbuild]
  | smReturn publishes hcall =>
      refine hordered.of_same rfl rfl rfl rfl rfl rfl ?_
      rintro _ ⟨⟩
  | smPersist publishes hcall | publish publishes fd hcall | smRefused publishes hcall =>
      refine hordered.of_same rfl rfl rfl rfl rfl rfl ?_
      rintro _ ⟨⟩
  | smSyscall publishes pending outcome disk rest hcall hnext =>
      refine hordered.of_same rfl rfl rfl rfl rfl rfl ?_
      intro r hr
      cases rest <;> cases hr
  | log | logPersist | logRefused | logSyscall | signal | logReturn =>
      exact hordered.of_same rfl rfl rfl rfl rfl rfl fun r hr => hr

/-- Only a build that has been overtaken stores an older snapshot. -/
theorem snapshotRank_le_iff (hordered : w.Ordered) (hstep : w.Step serde dir e w') :
    w.store.machine.snapshotRank ≤ w'.store.machine.snapshotRank ↔
      (e = .storeBuilt → w.since ≠ .overtaken) := by
  obtain ⟨store, hstore, rfl, -⟩ := store_step hstep
  cases Store.stepCase_of_step hstore with
  | storeInstalled snapshot publishes hcall =>
      obtain ⟨hstate, -⟩ := hordered.pending (LogId.rank snapshot.info.lastLogId) (by
        rw [pendingRank, hcall])
      refine iff_of_true (hordered.stored.trans hstate.ge) ?_
      rintro ⟨⟩
  | storeBuilt snapshot hbuild =>
      obtain ⟨-, hread⟩ := hordered.built _ (by rw [StateMachine.buildRank, hbuild]; rfl)
      unfold SinceRead at hread
      cases hstage : w.since with
      | undisturbed | replaced =>
          rw [hstage] at hread
          exact iff_of_true hread.1 fun _ h => nomatch h
      | overtaken =>
          rw [hstage] at hread
          exact iff_of_false (not_le_of_gt hread.1) fun h => h rfl rfl
  | apply | installRefused | install | numberSnapshot | smReturn | smPersist | publish | smRefused
  | smSyscall | log | logPersist | logRefused | logSyscall | signal | logReturn | readState =>
      refine iff_of_true le_rfl ?_
      rintro ⟨⟩

/-- A step that leaves the stored snapshot and the install under way alone. -/
theorem Covered.of_same (hcovered : w.Covered)
    (hsnapshot : w.store.machine.snapshotRank ≤ w'.store.machine.snapshotRank)
    (hinstalled : w'.installed = w.installed) (hinstalling : w'.installing = w.installing)
    (hcall : w'.store.machine.call.isSome → w'.pendingRank = none →
      w.store.machine.call.isSome ∧ w.pendingRank = none) : w'.Covered := by
  refine ⟨hinstalled ▸ hcovered.returned.trans hsnapshot, fun hsome hnone r hr => ?_⟩
  obtain ⟨hsome', hnone'⟩ := hcall hsome hnone
  exact (hcovered.running hsome' hnone' r (hinstalling ▸ hr)).trans hsnapshot

theorem Covered.step (hcovered : w.Covered) (hordered : w.Ordered)
    (hstep : w.Step serde dir e w')
    (hgrows : w.store.machine.snapshotRank ≤ w'.store.machine.snapshotRank) : w'.Covered := by
  obtain ⟨store, hstore, rfl, -⟩ := store_step hstep
  cases Store.stepCase_of_step hstore with
  | apply entries hcall =>
      refine ⟨hcovered.returned, ?_⟩
      rintro - - _ ⟨⟩
  | installRefused info data error hcall hdecode =>
      refine ⟨hcovered.returned, fun hsome => ?_⟩
      simp [recorded, hcall] at hsome
  | install info data sm hcall hdecode =>
      refine ⟨hcovered.returned, ?_⟩
      rintro - ⟨⟩
  | storeInstalled snapshot publishes hcall =>
      obtain ⟨-, hinstalling⟩ := hordered.pending (LogId.rank snapshot.info.lastLogId) (by
        rw [pendingRank, hcall])
      refine ⟨hcovered.returned.trans hgrows, fun _ _ r hr => ?_⟩
      obtain rfl := Option.some.inj (hinstalling.symm.trans hr)
      exact le_rfl
  | smReturn publishes hcall =>
      have hrunning := hcovered.running (by rw [hcall]; rfl) (by rw [pendingRank, hcall])
      refine ⟨?_, ?_⟩
      · change w.installing.getD w.installed ≤ w.store.machine.snapshotRank
        cases hinstalling : w.installing with
        | none => exact hcovered.returned
        | some r => exact hrunning r hinstalling
      · rintro ⟨⟩
  | smPersist publishes hcall | publish publishes fd hcall =>
      refine hcovered.of_same hgrows rfl rfl fun _ _ => ?_
      simp [hcall, pendingRank]
  | smRefused publishes hcall =>
      refine hcovered.of_same hgrows rfl rfl ?_
      rintro ⟨⟩
  | smSyscall publishes pending outcome disk rest hcall hnext =>
      refine hcovered.of_same hgrows rfl rfl fun _ _ => ?_
      simp [hcall, pendingRank]
  | log | logPersist | logRefused | logSyscall | signal | logReturn | readState | numberSnapshot
  | storeBuilt => exact hcovered.of_same hgrows rfl rfl fun hsome hnone => ⟨hsome, hnone⟩

/-- The stored snapshot never goes back in a run exactly when no build stores its own after
an install that has both replaced the state and stored its snapshot since the build read. -/
theorem snapshot_never_lowered_iff {d : StoreDisk} {opened : Store}
    (hopen : openStore serde dir d = .ok opened) {events : List StoreEvent} :
    Run (fun w e w' => Step serde dir w e w' ∧
        (w.store.machine.snapshotRank ≤ w'.store.machine.snapshotRank ∧
          w'.installed ≤ w'.store.machine.snapshotRank)) (start opened) events w' ↔
      Run (fun w e w' => Step serde dir w e w' ∧ (e = .storeBuilt → w.since ≠ .overtaken))
        (start opened) events w' := by
  have hstart : (start opened).Ordered ∧ (start opened).Covered := by
    obtain ⟨logState, smState, -, -, rfl⟩ := Session.openStore_eq_ok_iff.mp hopen
    refine ⟨⟨le_rfl, bot_le, ?_, ?_⟩, ⟨le_rfl, ?_⟩⟩
    · rintro _ ⟨⟩
    · rintro _ ⟨⟩
    · rintro ⟨⟩
  refine Run.and_iff_and (I := fun w => w.Ordered ∧ w.Covered) ?_ ?_ hstart
  · rintro w e w' ⟨hordered, hcovered⟩ hstep hcondition
    have hgrows := (snapshotRank_le_iff hordered hstep).mpr hcondition
    exact ⟨hordered.step hstep, hcovered.step hordered hstep hgrows⟩
  · rintro w e w' ⟨hordered, hcovered⟩ hstep
    refine ⟨fun h => (snapshotRank_le_iff hordered hstep).mp h.1, fun hcondition => ?_⟩
    have hgrows := (snapshotRank_le_iff hordered hstep).mpr hcondition
    exact ⟨hgrows, (hcovered.step hordered hstep hgrows).returned⟩

/-! ## An install during a build -/

/-- Steps that pass no log ids. -/
theorem run_of_quiet {events : List StoreEvent} (hquiet : ∀ e ∈ events, e.issuesSmCall = false)
    (heval : events.foldlM (after serde dir) w = some w') : Run (Step serde dir) w events w' := by
  induction events generalizing w with
  | nil =>
      obtain rfl := Option.some.inj heval
      exact .nil w
  | cons e rest ih =>
      obtain ⟨he, hrest⟩ := List.forall_mem_cons.mp hquiet
      rw [List.foldlM_cons] at heval
      obtain ⟨u, hafter, htail⟩ := Option.bind_eq_some_iff.mp heval
      refine .cons ⟨hafter, ?_⟩ (ih hrest htail)
      cases e <;> trivial

def secondState : SmState :=
  ⟨some ⟨⟨1, 1⟩, 2⟩, .empty, some ⟨2, 2⟩⟩

/-- The snapshot of another node that has applied one entry more. -/
def secondSnapshot : StoredSnapshot :=
  secondState.snapshot Session.numbered.sm Session.numbered.displayLeader 1

/-- The node has applied one entry, and a build has read and numbered its state. -/
def buildFirst : List StoreEvent :=
  [.smPersist true] ++ Session.writeOk .smSyscall ++
    [.publish, .smReturn, .readState, .numberSnapshot]

/-- The rest of the install. -/
def finishInstall : List StoreEvent :=
  [.storeInstalled, .smPersist true] ++ Session.writeOk .smSyscall ++ [.publish, .smReturn]

/-- The state right before an install. -/
def beforeInstall : Watched :=
  let applied := (start Session.blankStore).after Session.numbered Session.raftDir
    (.apply [Session.firstEntry])
  ((applied.bind fun w =>
    buildFirst.foldlM (after Session.numbered Session.raftDir) w).getD (start Session.blankStore))

theorem run_beforeInstall : Run (Step Session.numbered Session.raftDir) (start Session.blankStore)
    (.apply [Session.firstEntry] :: buildFirst) beforeInstall := by
  refine .cons ⟨rfl, ?_⟩ (run_of_quiet ?_ rfl)
  · refine List.isChain_cons_cons.mpr ⟨WithBot.bot_lt_coe _, .singleton _⟩
  · decide

/-- The snapshot has replaced the state. -/
def replaced : Watched :=
  beforeInstall.recorded (.install secondSnapshot.info secondSnapshot.data)
    { beforeInstall.store with
      machine :=
        { beforeInstall.store.machine with
          sm := secondState
          call := some ⟨.storeSnapshot secondSnapshot, some secondState.decision⟩ } }

theorem step_install : beforeInstall.Step Session.numbered Session.raftDir
    (.install secondSnapshot.info secondSnapshot.data) replaced := by
  have hdecode : Session.numbered.sm.decode secondSnapshot.data = .ok secondState :=
    Session.numbered.sm.decode_encode secondState
  have hcall : beforeInstall.store.machine.call = none := rfl
  have hpassed : beforeInstall.passed = LogId.rank (some ⟨⟨1, 1⟩, 1⟩) := rfl
  refine ⟨by simp [after, Store.after, hcall, hdecode, replaced], ?_, fun sm hsm => ?_⟩
  · rw [hpassed]
    exact WithBot.coe_lt_coe.mpr (by decide)
  · rw [hdecode] at hsm
    obtain rfl := Except.ok.inj hsm
    rfl

/-- A condition on the builds that end holds along events that end none. -/
theorem run_of_no_build {events : List StoreEvent} (hnone : ∀ e ∈ events, e ≠ .storeBuilt)
    (hrun : Run (Step serde dir) w events w') :
    Run (fun w e w' => Step serde dir w e w' ∧ (e = .storeBuilt → w.since ≠ .overtaken))
      w events w' := by
  induction hrun with
  | nil w => exact .nil w
  | cons hstep _ ih =>
      obtain ⟨he, hrest⟩ := List.forall_mem_cons.mp hnone
      exact .cons ⟨hstep, fun heq => absurd heq he⟩ (ih hrest)

/-- The build ends between the install's new state and its snapshot. -/
theorem snapshot_not_lowered_by_build : ∃ w, Run (fun w e w' => Step Session.numbered
      Session.raftDir w e w' ∧ (w.store.machine.snapshotRank ≤ w'.store.machine.snapshotRank ∧
        w'.installed ≤ w'.store.machine.snapshotRank))
    (start Session.blankStore)
    ((.apply [Session.firstEntry] :: buildFirst) ++
      .install secondSnapshot.info secondSnapshot.data :: .storeBuilt :: finishInstall) w := by
  have hbuild : ∃ w, Run (fun w e w' => Step Session.numbered Session.raftDir w e w' ∧
        (e = .storeBuilt → w.since ≠ .overtaken)) (start Session.blankStore)
      ((.apply [Session.firstEntry] :: buildFirst) ++
        .install secondSnapshot.info secondSnapshot.data :: .storeBuilt :: finishInstall) w := by
    refine ⟨_, (run_of_no_build (by simp [buildFirst, Session.writeOk]) run_beforeInstall).append
      (.cons ⟨step_install, fun heq => by cases heq⟩ (.cons ⟨⟨rfl, trivial⟩, fun _ => ?_⟩
        (run_of_no_build (by simp [finishInstall, Session.writeOk])
          (run_of_quiet (by decide) rfl))))⟩
    decide
  obtain ⟨w, hrun⟩ := hbuild
  have hopen : openStore Session.numbered Session.raftDir Session.blankDisk =
      .ok Session.blankStore := rfl
  exact ⟨w, (snapshot_never_lowered_iff hopen).mpr hrun⟩

/-- The install has returned, and the build is about to store what it has read. -/
def beforeStoreBuilt : Watched :=
  (finishInstall.foldlM (after Session.numbered Session.raftDir) replaced).getD replaced

/-- The build stores the first snapshot over the second one, which was installed. -/
theorem lowered_by_overtaken_build : ∃ w, Run (Step Session.numbered Session.raftDir)
      (start Session.blankStore)
      ((.apply [Session.firstEntry] :: buildFirst) ++
        .install secondSnapshot.info secondSnapshot.data :: finishInstall) beforeStoreBuilt ∧
    beforeStoreBuilt.Step Session.numbered Session.raftDir .storeBuilt w ∧
    ¬ beforeStoreBuilt.store.machine.snapshotRank ≤ w.store.machine.snapshotRank ∧
    ¬ w.installed ≤ w.store.machine.snapshotRank := by
  refine ⟨_, run_beforeInstall.append (.cons step_install (run_of_quiet (by decide) rfl)),
    ⟨rfl, trivial⟩, ?_⟩
  have hlower : LogId.rank (some ⟨⟨1, 1⟩, 1⟩) < LogId.rank (some ⟨⟨1, 1⟩, 2⟩) :=
    WithBot.coe_lt_coe.mpr (by decide)
  exact ⟨not_le_of_gt hlower, not_le_of_gt hlower⟩

end Watched

end PgReplica
