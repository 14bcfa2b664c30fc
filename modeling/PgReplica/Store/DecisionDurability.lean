import PgReplica.Store.LogDurability

/-! # Crashes of the state machine

A decision is on disk before `SharedDecision` shows it. `apply` and
`install_snapshot` change the memory first, then the file, then the shared copy.
-/

namespace PgReplica

open Foundation Raft

namespace StateMachine

/-- What `SharedDecision` holds once the call under way has published. -/
def nextShared (m : StateMachine) : Option Decision :=
  match m.call with
  | none | some ⟨.published, _⟩ => m.shared
  | some ⟨.storeSnapshot _, publishes⟩ | some ⟨.persist, publishes⟩
  | some ⟨.write _, publishes⟩ => publishes.getD m.shared

/-- A call has changed the memory and has not published. -/
def working (m : StateMachine) : Bool :=
  match m.call with
  | none | some ⟨.published, _⟩ => false
  | some ⟨.storeSnapshot _, _⟩ | some ⟨.persist, _⟩ | some ⟨.write _, _⟩ => true

end StateMachine

namespace Session

variable {serde : Serde} {dir : StoreDir} {opened : SmState} {s s' : Session}

/-- The state file follows the calls, the first `kept` included. -/
abbrev SmTracks (serde : Serde) (opened : SmState) (s : Session) (kept : Nat) : Prop :=
  Tracks (loaded serde.sm .empty) (SmState.run serde.sm) opened s.smOps kept s.store.disk .sm

/-- Every call has written its changes. -/
def AllWritten (s : Session) : Prop :=
  s.smFailed = false ∧ s.store.machine.working = false

/-- The memory is the result of all calls, the shared copy that of the calls up to the
last one that has published, and the file follows them. -/
structure SmDurable (serde : Serde) (opened : SmState) (s : Session) : Prop where
  state : s.store.machine.sm = opened.runAll serde.sm s.smOps
  failed : s.smFailed = true → s.store.machine.call = none
  shared : s.smFailed = false → s.store.machine.nextShared = s.store.machine.sm.decision
  visible : s.store.machine.shared =
    (valueAfter (SmState.run serde.sm) opened s.smOps s.smVisible).decision
  held : ∃ kept, s.smConfirmed ≤ kept ∧ s.smVisible ≤ kept ∧
    (AllWritten s → kept = s.smOps.length) ∧ SmTracks serde opened s kept

theorem SmDurable.loaded_image (hdurable : SmDurable serde opened s) :
    loaded serde.sm .empty (some (s.store.image serde .sm)) =
      some (s.smOps.foldl (SmState.run serde.sm) opened) := by
  rw [Store.image, hdurable.state, loaded_encode]
  rfl

/-- A call under way means that no call has failed. -/
theorem SmDurable.not_failed_of_call (hdurable : SmDurable serde opened s) {call : SmCall}
    (hcall : s.store.machine.call = some call) : s.smFailed = false := by
  by_contra hfailed
  rw [Bool.not_eq_false] at hfailed
  rw [hdurable.failed hfailed] at hcall
  cases hcall

/-- After the last system call of a write every change is in the file. -/
theorem SmDurable.tracks_of_done (hdurable : SmDurable serde opened s)
    (hwriting : s.store.Writing serde) {fd : Option Nat} {publishes : Option (Option Decision)}
    (hcall : s.store.machine.call = some ⟨.write ⟨[], fd⟩, publishes⟩) :
    SmTracks serde opened s s.smOps.length := by
  have hstage := hwriting.stage .sm ⟨[], fd⟩ (by rw [Store.pending, hcall])
  exact Tracks.of_done hstage hdurable.loaded_image

/-- The step issues no call, publishes nothing and returns from no call. -/
structure SameCalls (s s' : Session) : Prop where
  sm : s'.store.machine.sm = s.store.machine.sm
  shared : s'.store.machine.shared = s.store.machine.shared
  ops : s'.smOps = s.smOps
  confirmed : s'.smConfirmed = s.smConfirmed
  visible : s'.smVisible = s.smVisible

theorem SmDurable.of_sameCalls (hdurable : SmDurable serde opened s) (hsame : SameCalls s s')
    (hfailed : s'.smFailed = true → s'.store.machine.call = none)
    (hshared : s'.smFailed = false → s'.store.machine.nextShared = s'.store.machine.sm.decision)
    (hwritten : AllWritten s' → AllWritten s)
    (htracks : ∀ kept, SmTracks serde opened s kept → SmTracks serde opened s' kept) :
    SmDurable serde opened s' := by
  obtain ⟨kept, hle, hseen, hall, hkept⟩ := hdurable.held
  refine ⟨by rw [hsame.sm, hsame.ops, hdurable.state], hfailed, hshared,
    by rw [hsame.shared, hsame.ops, hsame.visible, hdurable.visible], kept,
    hsame.confirmed ▸ hle, hsame.visible ▸ hseen, ?_, htracks kept hkept⟩
  intro hnow
  rw [hsame.ops]
  exact hall (hwritten hnow)

/-- A step of the log, or of a snapshot under construction. -/
theorem SmDurable.of_same (hdurable : SmDurable serde opened s) (hsame : SameCalls s s')
    (hcall : s'.store.machine.call = s.store.machine.call) (hfailed : s'.smFailed = s.smFailed)
    (htracks : ∀ kept, SmTracks serde opened s kept → SmTracks serde opened s' kept) :
    SmDurable serde opened s' := by
  refine hdurable.of_sameCalls hsame ?_ ?_ ?_ htracks
  · rw [hfailed, hcall]
    exact hdurable.failed
  · rw [hfailed, StateMachine.nextShared, hcall, hsame.shared, hsame.sm]
    exact hdurable.shared
  · rw [AllWritten, hfailed, StateMachine.working, hcall]
    exact id

/-- A step within a call, before it has published. -/
theorem SmDurable.of_working (hdurable : SmDurable serde opened s) (hsame : SameCalls s s')
    (hnext : s'.store.machine.nextShared = s.store.machine.nextShared)
    (hwas : s.smFailed = false) (hworks : ¬ AllWritten s')
    (hfailed : s'.smFailed = true → s'.store.machine.call = none)
    (htracks : ∀ kept, SmTracks serde opened s kept → SmTracks serde opened s' kept) :
    SmDurable serde opened s' := by
  refine hdurable.of_sameCalls hsame hfailed ?_ (fun hall => absurd hall hworks) htracks
  intro _
  rw [hnext, hsame.sm]
  exact hdurable.shared hwas

/-- A call has failed, which ends it. -/
theorem SmDurable.of_failed (hdurable : SmDurable serde opened s) (hsame : SameCalls s s')
    (hfailed : s'.smFailed = true) (hcall : s'.store.machine.call = none)
    (htracks : ∀ kept, SmTracks serde opened s kept → SmTracks serde opened s' kept) :
    SmDurable serde opened s' := by
  refine hdurable.of_sameCalls hsame (fun _ => hcall) ?_ ?_ htracks
  · intro hnot
    rw [hfailed] at hnot
    cases hnot
  · rintro ⟨hnot, -⟩
    rw [hfailed] at hnot
    cases hnot

/-- A call has been issued and has changed the memory. -/
theorem SmDurable.of_issued (hdurable : SmDurable serde opened s) {op : SmOp}
    (hsm : s'.store.machine.sm = s.store.machine.sm.run serde.sm op)
    (hops : s'.smOps = s.smOps ++ [op]) (hdisk : s'.store.disk = s.store.disk)
    (hsame : s'.store.machine.shared = s.store.machine.shared)
    (hconfirmed : s'.smConfirmed = s.smConfirmed) (hvisible : s'.smVisible = s.smVisible)
    (hworks : ¬ AllWritten s') (hfailed : s'.smFailed = true → s'.store.machine.call = none)
    (hshared : s'.smFailed = false → s'.store.machine.nextShared = s'.store.machine.sm.decision) :
    SmDurable serde opened s' := by
  obtain ⟨kept, hle, hseen, -, hkept⟩ := hdurable.held
  refine ⟨?_, hfailed, hshared, ?_, kept, hconfirmed ▸ hle, hvisible ▸ hseen,
    fun hall => absurd hall hworks, ?_⟩
  · rw [hsm, hops, hdurable.state, SmState.runAll, SmState.runAll, List.foldl_append]
    rfl
  · rw [hsame, hops, hvisible, valueAfter_snoc (hseen.trans hkept.kept_le_length),
      hdurable.visible]
  · rw [SmTracks, hops, hdisk]
    exact hkept.snoc op

theorem SmDurable.step (hdurable : SmDurable serde opened s) (hwriting : s.store.Writing serde)
    {e : StoreEvent} (hstep : s.Step serde dir e s') : SmDurable serde opened s' := by
  obtain ⟨store, hstore, rfl, hallowed⟩ := store_step hstep
  have htracks : ∀ kept, SmTracks serde opened s kept →
      Tracks (loaded serde.sm .empty) (SmState.run serde.sm) opened s.smOps kept store.disk .sm :=
    fun kept => Store.tracks_of_step hwriting hstore hdurable.loaded_image
  cases Store.stepCase_of_step hstore with
  | apply entries hcall =>
      have hshared := hdurable.shared (hallowed rfl)
      refine @of_issued _ _ _ _ hdurable (.apply entries) rfl rfl rfl rfl rfl rfl ?_ ?_ ?_
      · rintro ⟨-, ⟨⟩⟩
      · intro hfailed
        rw [show s.smFailed = true from hfailed] at hallowed
        cases hallowed rfl
      · intro _
        simp only [recorded, StateMachine.nextShared]
        cases hcarries : carriesDecision entries with
        | true => rfl
        | false =>
            simp only [StateMachine.nextShared, hcall] at hshared
            simp [SmState.decision_applyEntries hcarries, hshared]
  | installRefused info data error hcall hdecode =>
      have hrun : s.store.machine.sm = s.store.machine.sm.run serde.sm (.install info data) := by
        simp [SmState.run, hdecode]
      have hrefused : (serde.sm.decode data).toOption.isNone = true := by
        rw [hdecode]
        rfl
      refine hdurable.of_issued hrun rfl rfl rfl rfl rfl ?_ (fun _ => hcall) ?_
      · rintro ⟨hfailed, -⟩
        rw [recorded, hrefused] at hfailed
        cases hfailed
      · intro hfailed
        rw [recorded, hrefused] at hfailed
        cases hfailed
  | install info data sm hcall hdecode =>
      have hrun : sm = s.store.machine.sm.run serde.sm (.install info data) := by
        simp [SmState.run, hdecode]
      refine hdurable.of_issued hrun rfl rfl rfl rfl rfl ?_ ?_ (fun _ => rfl)
      · rintro ⟨-, ⟨⟩⟩
      · intro hfailed
        rw [recorded, hdecode] at hfailed
        cases hfailed
  | storeInstalled snapshot publishes hcall =>
      have hrunning := hdurable.not_failed_of_call hcall
      refine hdurable.of_working ⟨rfl, rfl, rfl, rfl, rfl⟩ ?_ hrunning ?_ ?_ htracks
      · simp [StateMachine.nextShared, hcall, recorded]
      · rintro ⟨-, ⟨⟩⟩
      · intro hfailed
        rw [recorded, hrunning] at hfailed
        cases hfailed
  | smPersist publishes hcall =>
      have hrunning := hdurable.not_failed_of_call hcall
      refine hdurable.of_working ⟨rfl, rfl, rfl, rfl, rfl⟩ ?_ hrunning ?_ ?_ htracks
      · simp [StateMachine.nextShared, hcall, recorded, Store.setSmCall]
      · rintro ⟨-, ⟨⟩⟩
      · rintro ⟨⟩
  | smRefused publishes hcall =>
      exact hdurable.of_failed ⟨rfl, rfl, rfl, rfl, rfl⟩ rfl rfl htracks
  | smSyscall publishes pending outcome disk rest hcall hnext =>
      have hrunning := hdurable.not_failed_of_call hcall
      obtain ⟨call, todo, -, -, hrest⟩ := PendingWrite.next_eq_some hnext
      cases rest with
      | some w =>
          obtain ⟨rfl, rfl⟩ := hrest w rfl
          refine hdurable.of_working ⟨rfl, rfl, rfl, rfl, rfl⟩ ?_ hrunning ?_ ?_ htracks
          · simp [StateMachine.nextShared, hcall, recorded, Store.setSmCall]
          · rintro ⟨-, ⟨⟩⟩
          · rintro ⟨⟩
      | none =>
          have hfailed : decide (outcome ≠ .ok) = true :=
            decide_eq_true (PendingWrite.failed_of_next hnext)
          exact hdurable.of_failed ⟨rfl, rfl, rfl, rfl, rfl⟩ hfailed rfl htracks
  | publish publishes fd hcall =>
      have hrunning := hdurable.not_failed_of_call hcall
      have hall := hdurable.tracks_of_done hwriting hcall
      obtain ⟨kept, hle, hseen, -, hkept⟩ := hdurable.held
      have hlength := hkept.kept_le_length
      have hshared := hdurable.shared hrunning
      simp only [StateMachine.nextShared, hcall] at hshared
      refine ⟨hdurable.state, ?_, fun _ => hshared, ?_, s.smOps.length, hle.trans hlength, ?_,
        fun _ => rfl, htracks _ hall⟩
      · intro hfailed
        rw [recorded, hrunning] at hfailed
        cases hfailed
      · cases publishes with
        | none => simpa [recorded, hcall] using hdurable.visible
        | some decision =>
            simp only [Option.getD_some] at hshared
            simp [recorded, hcall, hshared, hdurable.state, SmState.runAll]
      · simp only [recorded]
        split
        next => exact le_rfl
        next => exact hseen.trans hlength
  | smReturn publishes hcall =>
      have hrunning := hdurable.not_failed_of_call hcall
      have hwritten : AllWritten s := by
        refine ⟨hrunning, ?_⟩
        rw [StateMachine.working, hcall]
      obtain ⟨kept, hle, hseen, hall, hkept⟩ := hdurable.held
      obtain rfl := hall hwritten
      have hshared := hdurable.shared hrunning
      simp only [StateMachine.nextShared, hcall] at hshared
      exact ⟨hdurable.state, fun _ => rfl, fun _ => hshared, hdurable.visible, _, le_rfl, hseen,
        fun _ => rfl, htracks _ hkept⟩
  | log | logPersist | logRefused | logSyscall | signal | logReturn | readState | numberSnapshot
  | storeBuilt => exact hdurable.of_same ⟨rfl, rfl, rfl, rfl, rfl⟩ rfl rfl htracks

theorem smDurable_of_opened {store : Store} (hopened : Opened serde dir store s) :
    SmDurable serde store.machine.sm s := by
  obtain ⟨rfl, d, hsettled, hopen⟩ := hopened
  obtain ⟨logState, smState, -, hsm, rfl⟩ := openStore_eq_ok_iff.mp hopen
  exact ⟨rfl, fun _ => rfl, fun _ => rfl, rfl, 0, le_rfl, le_rfl, fun _ => rfl,
    Tracks.of_settled hsettled hsm⟩

theorem smDurable_of_reachable {store : Store} (hreach : ReachableFrom serde dir store s) :
    s.store.Writing serde ∧ SmDurable serde store.machine.sm s := by
  apply hreach.invariant
    (I := fun s => s.store.Writing serde ∧ SmDurable serde store.machine.sm s)
  · exact fun s hopened => ⟨writing_of_opened hopened, smDurable_of_opened hopened⟩
  · exact fun s e s' hs hstep => ⟨writing_of_step hs.1 hstep, hs.2.step hs.1 hstep⟩

end Session

end PgReplica
