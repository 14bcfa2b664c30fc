import PgReplica.Store.Store

/-! # The life of an opened store

From `open` to the crash that ends it: the calls that have been issued, those
that have returned, and what callers have been told in between.
-/

namespace PgReplica

open Foundation Raft

/-- A store with what has happened on it. The first `logConfirmed` operations on
the log are those up to the last one that returned `Ok`; `signalled` are the
positions of the appends that have called `log_io_completed`. On the state machine
the first `smVisible` calls are those up to the last one that published. -/
structure Session where
  store : Store
  logOps : List LogOp
  logConfirmed : Nat
  signalled : List Nat
  smOps : List SmOp
  smConfirmed : Nat
  smVisible : Nat
  smFailed : Bool

/-- The step issues a call on the state machine. -/
def StoreEvent.issuesSmCall : StoreEvent → Bool
  | .apply _ | .install _ _ => true
  | .log _ | .logPersist _ | .logSyscall _ | .signal | .logReturn | .storeInstalled | .smPersist _
  | .smSyscall _ | .publish | .smReturn | .readState | .numberSnapshot | .storeBuilt => false

namespace Session

variable (serde : Serde) (dir : StoreDir) (s : Session)

/-- A session right after `open`. -/
def start (store : Store) : Session :=
  ⟨store, [], 0, [], [], 0, 0, false⟩

/-- The session after a step that led to `store`. -/
def recorded (e : StoreEvent) (store : Store) : Session :=
  match e with
  | .log op => { s with store, logOps := s.logOps ++ [op] }
  | .signal => { s with store, signalled := (s.logOps.length - 1) :: s.signalled }
  | .logReturn => { s with store, logConfirmed := s.logOps.length }
  | .apply entries => { s with store, smOps := s.smOps ++ [.apply entries] }
  | .install info data =>
      { s with
        store
        smOps := s.smOps ++ [.install info data]
        smFailed := (serde.sm.decode data).toOption.isNone }
  | .smPersist serialized => { s with store, smFailed := !serialized }
  | .smSyscall outcome => { s with store, smFailed := decide (outcome ≠ .ok) }
  | .publish =>
      let publishes := s.store.machine.call.any fun call => call.publishes.isSome
      { s with store, smVisible := if publishes then s.smOps.length else s.smVisible }
  | .smReturn => { s with store, smConfirmed := s.smOps.length }
  | .logPersist _ | .logSyscall _ | .storeInstalled | .readState | .numberSnapshot | .storeBuilt =>
      { s with store }

/-- One step. After an error the state machine is not called again. -/
def after (e : StoreEvent) : Option Session :=
  if s.smFailed && e.issuesSmCall then none
  else (s.store.after serde dir e).map (s.recorded serde e)

def Step (s : Session) (e : StoreEvent) (s' : Session) : Prop :=
  s.after serde dir e = some s'

/-- `open` has returned `store`. The directory is as a crash or a first start finds
it: nothing in it is waiting to be written back. -/
def Opened (serde : Serde) (dir : StoreDir) (store : Store) (s : Session) : Prop :=
  s = start store ∧ ∃ d, d.Settled ∧ openStore serde dir d = .ok store

/-- What runs of an opened store lead to. -/
def ReachableFrom (serde : Serde) (dir : StoreDir) (store : Store) (s : Session) : Prop :=
  Foundation.Reachable (Opened serde dir store) (Step serde dir) s

variable {serde dir} {s s' : Session} {opened : Store}

theorem store_step {e : StoreEvent} (hstep : s.Step serde dir e s') :
    ∃ store, s.store.Step serde dir e store ∧ s' = s.recorded serde e store ∧
      (e.issuesSmCall = true → s.smFailed = false) := by
  unfold Step after at hstep
  split at hstep
  next => cases hstep
  next hallowed =>
    obtain ⟨store, hstore, rfl⟩ := Option.map_eq_some_iff.mp hstep
    exact ⟨store, hstore, rfl, fun hissues => by simpa [hissues] using hallowed⟩

@[simp] theorem recorded_store (e : StoreEvent) (store : Store) :
    (s.recorded serde e store).store = store := by
  cases e <;> rfl

/-- What `open` has read. -/
theorem openStore_eq_ok_iff {d : StoreDisk} {store : Store} :
    openStore serde dir d = .ok store ↔ ∃ logState smState,
      loaded serde.log .empty (d.read (.final .log)) = some logState ∧
        loaded serde.sm .empty (d.read (.final .sm)) = some smState ∧
        store = ⟨d, ⟨logState, none⟩, ⟨smState, none, 0, smState.decision, none, none⟩⟩ := by
  have hload : openStore serde dir d = .ok store ↔ ∃ logState smState,
      load serde.log .empty (dir.pathOf (.final .log)) (readFile d (.final .log)) = .ok logState ∧
        load serde.sm .empty (dir.pathOf (.final .sm)) (readFile d (.final .sm)) = .ok smState ∧
        store = ⟨d, ⟨logState, none⟩, ⟨smState, none, 0, smState.decision, none, none⟩⟩ := by
    unfold openStore
    cases load serde.log .empty (dir.pathOf (.final .log)) (readFile d (.final .log)) with
    | error e => simp [bind, Except.bind]
    | ok logState =>
        cases load serde.sm .empty (dir.pathOf (.final .sm)) (readFile d (.final .sm)) with
        | error e => simp [bind, Except.bind]
        | ok smState => simp [bind, Except.bind, pure, Except.pure, eq_comm]
  simpa only [load_eq_ok_iff] using hload

theorem writing_of_step (hwriting : s.store.Writing serde) {e : StoreEvent}
    (hstep : s.Step serde dir e s') : s'.store.Writing serde := by
  obtain ⟨store, hstore, rfl, -⟩ := store_step hstep
  rw [recorded_store]
  exact hwriting.step hstore

theorem writing_of_opened (hopened : Opened serde dir opened s) : s.store.Writing serde := by
  obtain ⟨rfl, d, hsettled, hopen⟩ := hopened
  obtain ⟨logState, smState, -, -, rfl⟩ := openStore_eq_ok_iff.mp hopen
  refine ⟨hsettled.isSealed, fun file pending hpending => ?_⟩
  cases file <;> cases hpending

end Session

end PgReplica
