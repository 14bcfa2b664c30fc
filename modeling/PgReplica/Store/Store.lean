import PgReplica.Foundation.DurableHistory
import PgReplica.Foundation.Run
import PgReplica.Store.LogStore
import PgReplica.Store.StateMachine

/-! # The log store and the state machine on one directory

Both components of `store.rs` with the files they share a directory for. A call
is cut into its lock-protected sections and the system calls of `atomic_write`;
a snapshot may be built while other calls run.
-/

namespace PgReplica

open Foundation Raft

inductive StoreFile where
  | log
  | sm
deriving DecidableEq

/-- A Raft directory that has passed the supervisor's checks, and the node. -/
structure StoreDir where
  path : String
  nodeId : Nat
  path_ne_empty : path ≠ ""

/-- What the store takes from `serde_json` and openraft. -/
structure Serde where
  log : Codec LogStoreState
  sm : Codec SmState
  displayLeader : LeaderId → String

abbrev StoreDisk : Type :=
  Disk (FileName StoreFile)

/-! ## Reading and writing files -/

/-- `Path::join` with a file name. -/
def joinPath (dir name : String) : String :=
  if dir.endsWith "/" then dir ++ name else dir ++ "/" ++ name

/-- The path of a file, and with the extension `tmp` the path of its twin. -/
def StoreDir.pathOf (dir : StoreDir) (name : FileName StoreFile) : String :=
  let stem (file : StoreFile) :=
    match file with
    | .log => "raft_log_" ++ toString dir.nodeId
    | .sm => "raft_sm_" ++ toString dir.nodeId
  match name with
  | .final file => joinPath dir.path (stem file ++ ".json")
  | .tmp file => joinPath dir.path (stem file ++ ".tmp")

/-- The calls of `atomic_write`. A file without a named parent leaves its
directory unsynced. -/
def atomicWrite (dir : StoreDir) (file : StoreFile) (bytes : List UInt8) :
    List (Syscall (FileName StoreFile)) :=
  [.create (.tmp file), .writeAll bytes, .syncFile, .rename (.tmp file) (.final file)] ++
    if dir.path.isEmpty then [] else [.openDir, .syncDir]

theorem atomicWrite_eq (dir : StoreDir) (file : StoreFile) (bytes : List UInt8) :
    atomicWrite dir file bytes = replaceFile file bytes := by
  simp [atomicWrite, replaceFile, String.isEmpty_iff, dir.path_ne_empty]

/-- Why `std::fs::read` fails. -/
inductive ReadError where
  | notFound
  | other (message : String)

/-- Every file that exists can be read. -/
def readFile (d : StoreDisk) (name : FileName StoreFile) : Except ReadError (List UInt8) :=
  match d.read name with
  | some bytes => .ok bytes
  | none => .error .notFound

section Load

variable {σ : Type} (codec : Codec σ) (fallback : σ)

/-- An error is the text of the panic that stops the start. -/
def load (path : String) : Except ReadError (List UInt8) → Except String σ
  | .ok bytes =>
      match codec.decode bytes with
      | .ok state => .ok state
      | .error e =>
          .error ("pg_replica: durable raft state at " ++ path ++
            " is present but unreadable (" ++ e ++ "); refusing to start with empty state")
  | .error .notFound => .ok fallback
  | .error (.other e) =>
      .error ("pg_replica: cannot read raft state at " ++ path ++ " (" ++ e ++
        "); refusing to start")

/-- The state that a file content stands for. -/
def loaded : Option (List UInt8) → Option σ
  | some bytes => (codec.decode bytes).toOption
  | none => some fallback

variable {codec fallback}

theorem loaded_encode (s : σ) : loaded codec fallback (some (codec.encode s)) = some s := by
  rw [loaded, codec.decode_encode]
  rfl

theorem load_eq_ok_iff {path : String} {d : StoreDisk} {name : FileName StoreFile} {s : σ} :
    load codec fallback path (readFile d name) = .ok s ↔
      loaded codec fallback (d.read name) = some s := by
  unfold readFile
  cases d.read name with
  | none => simp [load, loaded]
  | some bytes =>
      cases hdecode : codec.decode bytes <;> simp [load, loaded, hdecode, Except.toOption]

end Load

/-! ## The running store -/

/-- `atomic_write` under way: the calls that are left, and the open file. -/
structure PendingWrite where
  todo : List (Syscall (FileName StoreFile))
  fd : Option Nat

namespace PendingWrite

def start (todo : List (Syscall (FileName StoreFile))) : PendingWrite :=
  ⟨todo, none⟩

/-- The next call. The first one that fails ends the write. -/
def next (w : PendingWrite) (d : StoreDisk) (outcome : CallOutcome) :
    Option (StoreDisk × Option PendingWrite) :=
  match w.todo with
  | [] => none
  | call :: rest =>
      some (call.run d w.fd outcome,
        if outcome = .ok then some ⟨rest, call.nextFd d w.fd⟩ else none)

theorem next_eq_some {w : PendingWrite} {d d' : StoreDisk} {outcome : CallOutcome}
    {rest : Option PendingWrite} (hnext : w.next d outcome = some (d', rest)) :
    ∃ call todo, w = ⟨call :: todo, w.fd⟩ ∧ d' = call.run d w.fd outcome ∧
      ∀ pending, rest = some pending → outcome = .ok ∧ pending = ⟨todo, call.nextFd d w.fd⟩ := by
  obtain ⟨todo, fd⟩ := w
  cases todo with
  | nil => cases hnext
  | cons call todo =>
      obtain ⟨rfl, rfl⟩ := Prod.mk.inj (Option.some.inj hnext)
      refine ⟨call, todo, rfl, rfl, fun pending hrest => ?_⟩
      split at hrest
      next hok => exact ⟨hok, (Option.some.inj hrest).symm⟩
      next => cases hrest

theorem failed_of_next {w : PendingWrite} {d d' : StoreDisk} {outcome : CallOutcome}
    (hnext : w.next d outcome = some (d', none)) : outcome ≠ .ok := by
  obtain ⟨todo, fd⟩ := w
  cases todo with
  | nil => cases hnext
  | cons call todo =>
      rintro rfl
      cases hnext

end PendingWrite

inductive LogPhase where
  | persist
  | write (pending : PendingWrite)
  | signalled

/-- An operation that has changed the log in memory and has not returned. -/
structure LogCall where
  op : LogOp
  phase : LogPhase

structure LogStore where
  state : LogStoreState
  call : Option LogCall

inductive SmPhase where
  | storeSnapshot (snapshot : StoredSnapshot)
  | persist
  | write (pending : PendingWrite)
  | published

/-- `publishes` is the decision that `SharedDecision::set` will be given, if it is
called. -/
structure SmCall where
  phase : SmPhase
  publishes : Option (Option Decision)

structure StateMachine where
  sm : SmState
  snapshot : Option StoredSnapshot
  snapshotIdx : Nat
  shared : Option Decision
  call : Option SmCall
  build : Option Build

structure Store where
  disk : StoreDisk
  log : LogStore
  machine : StateMachine

/-- `store::open`. -/
def openStore (serde : Serde) (dir : StoreDir) (d : StoreDisk) : Except String Store := do
  let logState ← load serde.log .empty (dir.pathOf (.final .log)) (readFile d (.final .log))
  let smState ← load serde.sm .empty (dir.pathOf (.final .sm)) (readFile d (.final .sm))
  let machine : StateMachine := ⟨smState, none, 0, smState.decision, none, none⟩
  return ⟨d, ⟨logState, none⟩, machine⟩

/-- The steps of the store. `serialized` is false where `serde_json` refuses to write. -/
inductive StoreEvent where
  | log (op : LogOp)
  | logPersist (serialized : Bool)
  | logSyscall (outcome : CallOutcome)
  | signal
  | logReturn
  | apply (entries : List Entry)
  | install (info : SnapshotMeta) (data : List UInt8)
  | storeInstalled
  | smPersist (serialized : Bool)
  | smSyscall (outcome : CallOutcome)
  | publish
  | smReturn
  | readState
  | numberSnapshot
  | storeBuilt

namespace Store

variable (serde : Serde) (dir : StoreDir) (s : Store)

def setLogCall (call : Option LogCall) : Store :=
  { s with log := { s.log with call } }

def setSmCall (call : Option SmCall) : Store :=
  { s with machine := { s.machine with call } }

/-- The store after a step, and `none` where the step cannot come next. A call that
fails ends at once and leaves the memory as it changed it. -/
def after : StoreEvent → Option Store
  | .log op =>
      if s.log.call.isNone then some { s with log := ⟨s.log.state.run op, some ⟨op, .persist⟩⟩ }
      else none
  | .logPersist serialized =>
      match s.log.call with
      | some ⟨op, .persist⟩ =>
          let bytes := serde.log.encode s.log.state
          some (s.setLogCall
            (if serialized then some ⟨op, .write (.start (atomicWrite dir .log bytes))⟩ else none))
      | _ => none
  | .logSyscall outcome =>
      match s.log.call with
      | some ⟨op, .write pending⟩ =>
          (pending.next s.disk outcome).map fun (disk, rest) =>
            { s.setLogCall (rest.map fun pending => ⟨op, .write pending⟩) with disk }
      | _ => none
  | .signal =>
      match s.log.call with
      | some ⟨.append entries, .write ⟨[], _⟩⟩ =>
          some (s.setLogCall (some ⟨.append entries, .signalled⟩))
      | _ => none
  | .logReturn =>
      match s.log.call with
      | some ⟨.append _, .signalled⟩ => some (s.setLogCall none)
      | some ⟨.append _, _⟩ => none
      | some ⟨_, .write ⟨[], _⟩⟩ => some (s.setLogCall none)
      | _ => none
  | .apply entries =>
      if s.machine.call.isNone then
        let sm := s.machine.sm.applyEntries entries
        let publishes := if carriesDecision entries then some sm.decision else none
        some { s with machine := { s.machine with sm, call := some ⟨.persist, publishes⟩ } }
      else none
  | .install info data =>
      if s.machine.call.isNone then
        match serde.sm.decode data with
        | .error _ => some s
        | .ok sm =>
            let call : SmCall := ⟨.storeSnapshot ⟨info, data⟩, some sm.decision⟩
            some { s with machine := { s.machine with sm, call := some call } }
      else none
  | .storeInstalled =>
      match s.machine.call with
      | some ⟨.storeSnapshot snapshot, publishes⟩ =>
          some { s with
            machine :=
              { s.machine with snapshot := some snapshot, call := some ⟨.persist, publishes⟩ } }
      | _ => none
  | .smPersist serialized =>
      match s.machine.call with
      | some ⟨.persist, publishes⟩ =>
          let bytes := serde.sm.encode s.machine.sm
          some (s.setSmCall
            (if serialized then some ⟨.write (.start (atomicWrite dir .sm bytes)), publishes⟩
            else none))
      | _ => none
  | .smSyscall outcome =>
      match s.machine.call with
      | some ⟨.write pending, publishes⟩ =>
          (pending.next s.disk outcome).map fun (disk, rest) =>
            { s.setSmCall (rest.map fun pending => ⟨.write pending, publishes⟩) with disk }
      | _ => none
  | .publish =>
      match s.machine.call with
      | some ⟨.write ⟨[], _⟩, publishes⟩ =>
          some { s with
            machine :=
              { s.machine with
                shared := publishes.getD s.machine.shared
                call := some ⟨.published, publishes⟩ } }
      | _ => none
  | .smReturn =>
      match s.machine.call with
      | some ⟨.published, _⟩ => some (s.setSmCall none)
      | _ => none
  | .readState =>
      if s.machine.build.isNone then
        let sm := s.machine.sm
        let build := Build.read (serde.sm.encode sm) sm.lastApplied sm.lastMembership
        some { s with machine := { s.machine with build := some build } }
      else none
  | .numberSnapshot =>
      match s.machine.build with
      | some (.read data lastApplied lastMembership) =>
          let idx := s.machine.snapshotIdx + 1
          let info : SnapshotMeta :=
            ⟨lastApplied, lastMembership, snapshotId serde.displayLeader lastApplied idx⟩
          some { s with
            machine :=
              { s.machine with snapshotIdx := idx, build := some (.numbered ⟨info, data⟩) } }
      | _ => none
  | .storeBuilt =>
      match s.machine.build with
      | some (.numbered snapshot) =>
          some { s with
            machine := { s.machine with snapshot := some snapshot, build := none } }
      | _ => none

def Step (s : Store) (e : StoreEvent) (s' : Store) : Prop :=
  s.after serde dir e = some s'

/-! ## What one step does -/

/-- The steps, each with the stage of its call. -/
inductive StepCase (s : Store) : StoreEvent → Store → Prop
  | log (op : LogOp) (hcall : s.log.call = none) :
      StepCase s (.log op) { s with log := ⟨s.log.state.run op, some ⟨op, .persist⟩⟩ }
  | logPersist (op : LogOp) (hcall : s.log.call = some ⟨op, .persist⟩) :
      StepCase s (.logPersist true) (s.setLogCall
        (some ⟨op, .write (.start (atomicWrite dir .log (serde.log.encode s.log.state)))⟩))
  | logRefused (op : LogOp) (hcall : s.log.call = some ⟨op, .persist⟩) :
      StepCase s (.logPersist false) (s.setLogCall none)
  | logSyscall (op : LogOp) (pending : PendingWrite) (outcome : CallOutcome) (disk : StoreDisk)
      (rest : Option PendingWrite) (hcall : s.log.call = some ⟨op, .write pending⟩)
      (hnext : pending.next s.disk outcome = some (disk, rest)) :
      StepCase s (.logSyscall outcome)
        { s.setLogCall (rest.map fun pending => ⟨op, .write pending⟩) with disk }
  | signal (entries : List Entry) (fd : Option Nat)
      (hcall : s.log.call = some ⟨.append entries, .write ⟨[], fd⟩⟩) :
      StepCase s .signal (s.setLogCall (some ⟨.append entries, .signalled⟩))
  | logReturn (op : LogOp) (phase : LogPhase) (hcall : s.log.call = some ⟨op, phase⟩)
      (hphase : phase = .signalled ∨ ∃ fd, phase = .write ⟨[], fd⟩) :
      StepCase s .logReturn (s.setLogCall none)
  | apply (entries : List Entry) (hcall : s.machine.call = none) :
      StepCase s (.apply entries) { s with
        machine :=
          { s.machine with
            sm := s.machine.sm.applyEntries entries
            call := some ⟨.persist, if carriesDecision entries then
              some (s.machine.sm.applyEntries entries).decision else none⟩ } }
  | installRefused (info : SnapshotMeta) (data : List UInt8) (e : String)
      (hcall : s.machine.call = none) (hdecode : serde.sm.decode data = .error e) :
      StepCase s (.install info data) s
  | install (info : SnapshotMeta) (data : List UInt8) (sm : SmState)
      (hcall : s.machine.call = none) (hdecode : serde.sm.decode data = .ok sm) :
      StepCase s (.install info data) { s with
        machine :=
          { s.machine with
            sm, call := some ⟨.storeSnapshot ⟨info, data⟩, some sm.decision⟩ } }
  | storeInstalled (snapshot : StoredSnapshot) (publishes : Option (Option Decision))
      (hcall : s.machine.call = some ⟨.storeSnapshot snapshot, publishes⟩) :
      StepCase s .storeInstalled { s with
        machine :=
          { s.machine with snapshot := some snapshot, call := some ⟨.persist, publishes⟩ } }
  | smPersist (publishes : Option (Option Decision))
      (hcall : s.machine.call = some ⟨.persist, publishes⟩) :
      StepCase s (.smPersist true) (s.setSmCall
        (some ⟨.write (.start (atomicWrite dir .sm (serde.sm.encode s.machine.sm))), publishes⟩))
  | smRefused (publishes : Option (Option Decision))
      (hcall : s.machine.call = some ⟨.persist, publishes⟩) :
      StepCase s (.smPersist false) (s.setSmCall none)
  | smSyscall (publishes : Option (Option Decision)) (pending : PendingWrite)
      (outcome : CallOutcome) (disk : StoreDisk) (rest : Option PendingWrite)
      (hcall : s.machine.call = some ⟨.write pending, publishes⟩)
      (hnext : pending.next s.disk outcome = some (disk, rest)) :
      StepCase s (.smSyscall outcome)
        { s.setSmCall (rest.map fun pending => ⟨.write pending, publishes⟩) with disk }
  | publish (publishes : Option (Option Decision)) (fd : Option Nat)
      (hcall : s.machine.call = some ⟨.write ⟨[], fd⟩, publishes⟩) :
      StepCase s .publish { s with
        machine :=
          { s.machine with
            shared := publishes.getD s.machine.shared
            call := some ⟨.published, publishes⟩ } }
  | smReturn (publishes : Option (Option Decision))
      (hcall : s.machine.call = some ⟨.published, publishes⟩) :
      StepCase s .smReturn (s.setSmCall none)
  | readState (hbuild : s.machine.build = none) :
      StepCase s .readState { s with
        machine :=
          { s.machine with
            build := some (.read (serde.sm.encode s.machine.sm) s.machine.sm.lastApplied
              s.machine.sm.lastMembership) } }
  | numberSnapshot (data : List UInt8) (lastApplied : Option LogId)
      (lastMembership : StoredMembership)
      (hbuild : s.machine.build = some (.read data lastApplied lastMembership)) :
      StepCase s .numberSnapshot { s with
        machine :=
          { s.machine with
            snapshotIdx := s.machine.snapshotIdx + 1
            build := some (.numbered ⟨⟨lastApplied, lastMembership,
              snapshotId serde.displayLeader lastApplied (s.machine.snapshotIdx + 1)⟩, data⟩) } }
  | storeBuilt (snapshot : StoredSnapshot)
      (hbuild : s.machine.build = some (.numbered snapshot)) :
      StepCase s .storeBuilt { s with
        machine := { s.machine with snapshot := some snapshot, build := none } }

variable {serde dir} {s s' : Store}

theorem stepCase_of_step {e : StoreEvent} (hstep : s.Step serde dir e s') :
    s.StepCase serde dir e s' := by
  unfold Step after at hstep
  cases e with
  | log op =>
      obtain ⟨hcall, hsome⟩ := Option.ite_none_right_eq_some.mp hstep
      obtain rfl := Option.some.inj hsome
      exact .log op (Option.isNone_iff_eq_none.mp hcall)
  | logPersist serialized =>
      dsimp only at hstep
      split at hstep
      next op hcall =>
        obtain rfl := Option.some.inj hstep
        cases serialized with
        | true => exact .logPersist op hcall
        | false => exact .logRefused op hcall
      next => cases hstep
  | logSyscall outcome =>
      dsimp only at hstep
      split at hstep
      next op pending hcall =>
        obtain ⟨⟨disk, rest⟩, hnext, rfl⟩ := Option.map_eq_some_iff.mp hstep
        exact .logSyscall op pending outcome disk rest hcall hnext
      next => cases hstep
  | signal =>
      dsimp only at hstep
      split at hstep
      next entries fd hcall =>
        obtain rfl := Option.some.inj hstep
        exact .signal entries fd hcall
      next => cases hstep
  | logReturn =>
      dsimp only at hstep
      split at hstep
      next entries hcall =>
        obtain rfl := Option.some.inj hstep
        exact .logReturn _ _ hcall (Or.inl rfl)
      next => cases hstep
      next op fd _ hcall =>
        obtain rfl := Option.some.inj hstep
        exact .logReturn _ _ hcall (Or.inr ⟨fd, rfl⟩)
      next => cases hstep
  | apply entries =>
      obtain ⟨hcall, hsome⟩ := Option.ite_none_right_eq_some.mp hstep
      obtain rfl := Option.some.inj hsome
      exact .apply entries (Option.isNone_iff_eq_none.mp hcall)
  | install info data =>
      dsimp only at hstep
      split at hstep
      next hcall =>
        split at hstep
        next e hdecode =>
          obtain rfl := Option.some.inj hstep
          exact .installRefused info data e (Option.isNone_iff_eq_none.mp hcall) hdecode
        next sm hdecode =>
          obtain rfl := Option.some.inj hstep
          exact .install info data sm (Option.isNone_iff_eq_none.mp hcall) hdecode
      next => cases hstep
  | storeInstalled =>
      dsimp only at hstep
      split at hstep
      next snapshot publishes hcall =>
        obtain rfl := Option.some.inj hstep
        exact .storeInstalled snapshot publishes hcall
      next => cases hstep
  | smPersist serialized =>
      dsimp only at hstep
      split at hstep
      next publishes hcall =>
        obtain rfl := Option.some.inj hstep
        cases serialized with
        | true => exact .smPersist publishes hcall
        | false => exact .smRefused publishes hcall
      next => cases hstep
  | smSyscall outcome =>
      dsimp only at hstep
      split at hstep
      next pending publishes hcall =>
        obtain ⟨⟨disk, rest⟩, hnext, rfl⟩ := Option.map_eq_some_iff.mp hstep
        exact .smSyscall publishes pending outcome disk rest hcall hnext
      next => cases hstep
  | publish =>
      dsimp only at hstep
      split at hstep
      next fd publishes hcall =>
        obtain rfl := Option.some.inj hstep
        exact .publish publishes fd hcall
      next => cases hstep
  | smReturn =>
      dsimp only at hstep
      split at hstep
      next publishes hcall =>
        obtain rfl := Option.some.inj hstep
        exact .smReturn publishes hcall
      next => cases hstep
  | readState =>
      obtain ⟨hbuild, hsome⟩ := Option.ite_none_right_eq_some.mp hstep
      obtain rfl := Option.some.inj hsome
      exact .readState (Option.isNone_iff_eq_none.mp hbuild)
  | numberSnapshot =>
      dsimp only at hstep
      split at hstep
      next data lastApplied lastMembership hbuild =>
        obtain rfl := Option.some.inj hstep
        exact .numberSnapshot data lastApplied lastMembership hbuild
      next => cases hstep
  | storeBuilt =>
      dsimp only at hstep
      split at hstep
      next snapshot hbuild =>
        obtain rfl := Option.some.inj hstep
        exact .storeBuilt snapshot hbuild
      next => cases hstep

/-! ## Writes under way -/

variable (serde) in
/-- What a component would write now. -/
def image (s : Store) : StoreFile → List UInt8
  | .log => serde.log.encode s.log.state
  | .sm => serde.sm.encode s.machine.sm

/-- The write that a component has under way. -/
def pending (s : Store) : StoreFile → Option PendingWrite
  | .log =>
      match s.log.call with
      | some ⟨_, .write pending⟩ => some pending
      | _ => none
  | .sm =>
      match s.machine.call with
      | some ⟨.write pending, _⟩ => some pending
      | _ => none

variable (serde dir) in
/-- What a step does to the files: nothing, or one call of a write under way. -/
inductive WriteStep (s s' : Store) : Prop
  | idle (hdisk : s'.disk = s.disk)
      (hpending : ∀ file pending, s'.pending file = some pending →
        s.pending file = some pending ∧ s'.image serde file = s.image serde file ∨
          pending = .start (atomicWrite dir file (s'.image serde file)))
  | call (file : StoreFile) (call : Syscall (FileName StoreFile))
      (rest : List (Syscall (FileName StoreFile))) (fd : Option Nat) (outcome : CallOutcome)
      (hcall : s.pending file = some ⟨call :: rest, fd⟩)
      (hdisk : s'.disk = call.run s.disk fd outcome)
      (hnext : ∀ pending, s'.pending file = some pending →
        outcome = .ok ∧ pending = ⟨rest, call.nextFd s.disk fd⟩)
      (hother : ∀ other, other ≠ file → s'.pending other = s.pending other)
      (himage : ∀ other, s'.image serde other = s.image serde other)

/-- A step of the log outside its writes. -/
theorem WriteStep.of_log (hdisk : s'.disk = s.disk) (hmachine : s'.machine = s.machine)
    (hpending : s'.pending .log = none) : s.WriteStep serde dir s' := by
  refine .idle hdisk fun file pending hfile => ?_
  cases file with
  | log =>
      rw [hpending] at hfile
      cases hfile
  | sm => simpa [Store.pending, image, hmachine] using Or.inl hfile

/-- A step of the state machine outside its writes. -/
theorem WriteStep.of_machine (hdisk : s'.disk = s.disk) (hlog : s'.log = s.log)
    (hpending : s'.pending .sm = none) : s.WriteStep serde dir s' := by
  refine .idle hdisk fun file pending hfile => ?_
  cases file with
  | log => simpa [Store.pending, image, hlog] using Or.inl hfile
  | sm =>
      rw [hpending] at hfile
      cases hfile

/-- A step of a snapshot under construction. -/
theorem WriteStep.of_build (hdisk : s'.disk = s.disk) (hlog : s'.log = s.log)
    (hsm : s'.machine.sm = s.machine.sm) (hcall : s'.machine.call = s.machine.call) :
    s.WriteStep serde dir s' := by
  refine .idle hdisk fun file pending hfile => ?_
  cases file with
  | log => simpa [Store.pending, image, hlog] using Or.inl hfile
  | sm => simpa [Store.pending, image, hsm, hcall] using Or.inl hfile

theorem writeStep_of_step {e : StoreEvent} (hstep : s.Step serde dir e s') :
    s.WriteStep serde dir s' := by
  cases stepCase_of_step hstep with
  | log op hcall => exact .of_log rfl rfl rfl
  | logPersist op hcall =>
      refine .idle rfl fun file pending hpending => ?_
      cases file with
      | log => exact Or.inr (Option.some.inj hpending).symm
      | sm => exact Or.inl ⟨hpending, rfl⟩
  | logRefused op hcall => exact .of_log rfl rfl rfl
  | logSyscall op pending outcome disk rest hcall hnext =>
      obtain ⟨call, todo, hpending, rfl, hrest⟩ := PendingWrite.next_eq_some hnext
      refine .call .log call todo pending.fd outcome ?_ rfl ?_ ?_ ?_
      · rw [← hpending, Store.pending, hcall]
      · intro pending' hpending'
        cases rest with
        | none => cases hpending'
        | some w => exact hrest _ hpending'
      · intro other hother
        cases other with
        | log => exact absurd rfl hother
        | sm => rfl
      · intro other
        cases other <;> rfl
  | signal entries fd hcall => exact .of_log rfl rfl rfl
  | logReturn op phase hcall hphase => exact .of_log rfl rfl rfl
  | apply entries hcall => exact .of_machine rfl rfl rfl
  | installRefused info data e hcall => exact .of_build rfl rfl rfl rfl
  | install info data sm hcall hdecode => exact .of_machine rfl rfl rfl
  | storeInstalled snapshot publishes hcall => exact .of_machine rfl rfl rfl
  | smPersist publishes hcall =>
      refine .idle rfl fun file pending hpending => ?_
      cases file with
      | log => exact Or.inl ⟨hpending, rfl⟩
      | sm => exact Or.inr (Option.some.inj hpending).symm
  | smRefused publishes hcall => exact .of_machine rfl rfl rfl
  | smSyscall publishes pending outcome disk rest hcall hnext =>
      obtain ⟨call, todo, hpending, rfl, hrest⟩ := PendingWrite.next_eq_some hnext
      refine .call .sm call todo pending.fd outcome ?_ rfl ?_ ?_ ?_
      · rw [← hpending, Store.pending, hcall]
      · intro pending' hpending'
        cases rest with
        | none => cases hpending'
        | some w => exact hrest _ hpending'
      · intro other hother
        cases other with
        | log => rfl
        | sm => exact absurd rfl hother
      · intro other
        cases other <;> rfl
  | publish publishes fd hcall => exact .of_machine rfl rfl rfl
  | smReturn publishes hcall => exact .of_machine rfl rfl rfl
  | readState hbuild => exact .of_build rfl rfl rfl rfl
  | numberSnapshot data lastApplied lastMembership hbuild => exact .of_build rfl rfl rfl rfl
  | storeBuilt snapshot hbuild => exact .of_build rfl rfl rfl rfl

/-! ## The files under every step -/

/-- No crash can damage a file, and every write under way is at the stage that its
remaining calls need. -/
structure Writing (serde : Serde) (s : Store) : Prop where
  isSealed : s.disk.Sealed
  stage : ∀ file pending, s.pending file = some pending →
    WriteStage s.disk file (s.image serde file) pending.todo pending.fd

theorem Writing.step (hwriting : s.Writing serde) {e : StoreEvent}
    (hstep : s.Step serde dir e s') : s'.Writing serde := by
  cases writeStep_of_step hstep with
  | idle hdisk hpending =>
      refine ⟨hdisk ▸ hwriting.isSealed, fun file pending hfile => ?_⟩
      rw [hdisk]
      rcases hpending file pending hfile with ⟨hold, himage⟩ | rfl
      · rw [himage]
        exact hwriting.stage file pending hold
      · rw [atomicWrite_eq]
        exact .create none
  | call file call rest fd outcome hcall hdisk hnext hother himage =>
      have hstage := hwriting.stage file _ hcall
      obtain ⟨hframe, -, hgoes⟩ := hstage.run hwriting.isSealed outcome
      refine ⟨hdisk ▸ hframe.isSealed, fun other pending hpending => ?_⟩
      rw [hdisk, himage]
      by_cases heq : other = file
      · subst heq
        obtain ⟨hok, rfl⟩ := hnext pending hpending
        exact hgoes hok
      · rw [hother other heq] at hpending
        exact (hwriting.stage other pending hpending).frame heq hframe

/-- A file keeps following the history of its component. -/
theorem tracks_of_step {σ α : Type} {read : Option (List UInt8) → Option σ} {run : σ → α → σ}
    {start : σ} {ops : List α} {kept : Nat} {file : StoreFile} (hwriting : s.Writing serde)
    {e : StoreEvent} (hstep : s.Step serde dir e s')
    (himage : read (some (s.image serde file)) = some (ops.foldl run start))
    (htracks : Tracks read run start ops kept s.disk file) :
    Tracks read run start ops kept s'.disk file := by
  cases writeStep_of_step hstep with
  | idle hdisk => rwa [hdisk]
  | call other call rest fd outcome hcall hdisk =>
      have hstage := hwriting.stage other _ hcall
      rw [hdisk]
      by_cases heq : file = other
      · subst heq
        exact htracks.of_run hwriting.isSealed hstage himage outcome
      · obtain ⟨hframe, -, -⟩ := hstage.run hwriting.isSealed outcome
        exact htracks.of_kept ⟨hframe.read file heq, hframe.images file heq⟩

end Store

end PgReplica
