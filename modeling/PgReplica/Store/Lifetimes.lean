import PgReplica.Store.SnapshotOrder

/-! # The store over many starts

The process dies and is started again, or the machine under it goes down, any
number of times. Log and state machine each follow a history of their calls in
which a restart undoes only calls that had not returned.
-/

namespace PgReplica

open Foundation Raft

/-- What happens to the store of a node. When the process has died, or the machine
under it has gone down, `open` starts again from the files. -/
inductive LifeEvent where
  | call (e : StoreEvent)
  | kill
  | powerLoss (survivor : Nat) (junk : Nat → List UInt8)

/-- The step issues a call. -/
def StoreEvent.issuesCall : StoreEvent → Bool
  | .log _ => true
  | e => e.issuesSmCall

namespace LifeEvent

/-- What the event is for the log. -/
def logMark : LifeEvent → Option (Mark LogOp)
  | .call (.log op) => some (.issued op)
  | .call .signal | .call .logReturn => some .confirmed
  | .kill | .powerLoss _ _ => some .restarted
  | .call _ => none

/-- What the event is for the state machine. -/
def smMark : LifeEvent → Option (Mark SmOp)
  | .call (.apply entries) => some (.issued (.apply entries))
  | .call (.install info data) => some (.issued (.install info data))
  | .call .publish | .call .smReturn => some .confirmed
  | .kill | .powerLoss _ _ => some .restarted
  | .call _ => none

/-- The event that issues an operation on the log. -/
theorem eq_of_logMark {e : LifeEvent} {op : LogOp} (hmark : e.logMark = some (.issued op)) :
    e = .call (.log op) := by
  cases e with
  | call e =>
      cases e with
      | log op' =>
          obtain rfl := Mark.issued.inj (Option.some.inj hmark)
          rfl
      | _ => cases hmark
  | kill | powerLoss => cases hmark

/-- The event that issues a call on the state machine. -/
def ofSmOp : SmOp → LifeEvent
  | .apply entries => .call (.apply entries)
  | .install info data => .call (.install info data)

theorem eq_of_smMark {e : LifeEvent} {op : SmOp} (hmark : e.smMark = some (.issued op)) :
    e = ofSmOp op := by
  cases e with
  | call e =>
      cases e with
      | apply | install =>
          obtain rfl := Mark.issued.inj (Option.some.inj hmark)
          rfl
      | _ => cases hmark
  | kill | powerLoss => cases hmark

end LifeEvent

namespace Store

variable (serde : Serde) (dir : StoreDir) (s : Store)

/-- The store after an event. A process that dies leaves what it has written in the
page cache, a machine that goes down leaves what is on the medium. -/
def outlive : LifeEvent → Option Store
  | .call e => s.after serde dir e
  | .kill => (openStore serde dir s.disk).toOption
  | .powerLoss survivor junk => (openStore serde dir (s.disk.crash survivor junk)).toOption

def Outlives (s : Store) (e : LifeEvent) (s' : Store) : Prop :=
  s.outlive serde dir e = some s'

/-- The first start of a node, on an empty directory. -/
def Fresh (s : Store) : Prop :=
  ∃ d, d.Settled ∧ (∀ file, d.read (.final file) = none) ∧ openStore serde dir d = .ok s

/-- The log in memory and its file follow a history. With `log_io_completed` called the
file has everything. -/
abbrev LogFollows (s : Store) (h : History LogOp) : Prop :=
  Follows (loaded serde.log .empty) LogStoreState.run .empty h
    (∃ op, s.log.call = some ⟨op, .signalled⟩) s.log.state s.disk .log

/-- The applied state and its file follow a history. Once published the file has
everything. -/
abbrev SmFollows (s : Store) (h : History SmOp) : Prop :=
  Follows (loaded serde.sm .empty) (SmState.run serde.sm) .empty h
    (∃ publishes, s.machine.call = some ⟨.published, publishes⟩) s.machine.sm s.disk .sm

variable {serde dir} {s s' : Store}

/-! ## Starts -/

theorem open_of_toOption {d : StoreDisk} (hopen : (openStore serde dir d).toOption = some s) :
    ∃ logState smState, loaded serde.log .empty (d.read (.final .log)) = some logState ∧
      loaded serde.sm .empty (d.read (.final .sm)) = some smState ∧
      s = ⟨d, ⟨logState, none⟩, ⟨smState, none, 0, smState.decision, none, none⟩⟩ := by
  cases hresult : openStore serde dir d with
  | error message =>
      rw [hresult] at hopen
      cases hopen
  | ok store =>
      rw [hresult] at hopen
      obtain rfl := Option.some.inj hopen
      exact Session.openStore_eq_ok_iff.mp hresult

/-- A start from two files that can be read. -/
theorem toOption_of_loaded {d : StoreDisk} {logState : LogStoreState} {smState : SmState}
    (hlog : loaded serde.log .empty (d.read (.final .log)) = some logState)
    (hsm : loaded serde.sm .empty (d.read (.final .sm)) = some smState) :
    (openStore serde dir d).toOption =
      some ⟨d, ⟨logState, none⟩, ⟨smState, none, 0, smState.decision, none, none⟩⟩ := by
  rw [Session.openStore_eq_ok_iff.mpr ⟨logState, smState, hlog, hsm, rfl⟩]
  rfl

theorem follows_of_fresh (hfresh : s.Fresh serde dir) :
    s.Writing serde ∧ s.LogFollows serde .nil ∧ s.SmFollows serde .nil := by
  obtain ⟨d, hsettled, hempty, hopen⟩ := hfresh
  obtain ⟨logState, smState, hlog, hsm, rfl⟩ := Session.openStore_eq_ok_iff.mp hopen
  have hlogEmpty : logState = .empty := by
    rw [hempty, loaded] at hlog
    exact (Option.some.inj hlog).symm
  have hsmEmpty : smState = .empty := by
    rw [hempty, loaded] at hsm
    exact (Option.some.inj hsm).symm
  subst hlogEmpty hsmEmpty
  refine ⟨⟨hsettled.isSealed, fun file pending hpending => ?_⟩, .of_settled hsettled hlog,
    .of_settled hsettled hsm⟩
  cases file <;> cases hpending

/-! ## One event -/

theorem Writing.outlive (hwriting : s.Writing serde) {e : LifeEvent}
    (hstep : s.Outlives serde dir e s') : s'.Writing serde := by
  cases e with
  | call e => exact hwriting.step hstep
  | kill =>
      obtain ⟨logState, smState, -, -, rfl⟩ := open_of_toOption hstep
      refine ⟨hwriting.isSealed, fun file pending hpending => ?_⟩
      cases file <;> cases hpending
  | powerLoss survivor junk =>
      obtain ⟨logState, smState, -, -, rfl⟩ := open_of_toOption hstep
      refine ⟨(s.disk.settled_crash survivor junk).isSealed, fun file pending hpending => ?_⟩
      cases file <;> cases hpending

theorem LogFollows.loaded_image {h : History LogOp} (hfollows : s.LogFollows serde h) :
    loaded serde.log .empty (some (s.image serde .log)) =
      some (h.ops.foldl LogStoreState.run .empty) := by
  rw [image, hfollows.value_eq, loaded_encode]

theorem SmFollows.loaded_image {h : History SmOp} (hfollows : s.SmFollows serde h) :
    loaded serde.sm .empty (some (s.image serde .sm)) =
      some (h.ops.foldl (SmState.run serde.sm) .empty) := by
  rw [image, hfollows.value_eq, loaded_encode]

/-- The history of the log goes on by the one event that is marked. -/
theorem logFollows_of_step {h : History LogOp} (hwriting : s.Writing serde)
    (hfollows : s.LogFollows serde h) {e : LifeEvent} (hstep : s.Outlives serde dir e s') :
    ∃ events h', Run History.Step h events h' ∧ s'.LogFollows serde h' ∧
      events.map HistoryEvent.mark = e.logMark.toList := by
  cases e with
  | call e =>
      have htracks := fun kept => @tracks_of_step serde dir s s' _ _ (loaded serde.log .empty) _ _
        _ kept _ hwriting _ hstep hfollows.loaded_image
      have hdone : ∀ op fd, s.log.call = some ⟨op, .write ⟨[], fd⟩⟩ →
          Tracks (loaded serde.log .empty) LogStoreState.run .empty h.ops h.ops.length s.disk
            .log := by
        intro op fd hcall
        exact .of_done (hwriting.stage .log ⟨[], fd⟩ (by rw [Store.pending, hcall]))
          hfollows.loaded_image
      cases stepCase_of_step hstep with
      | log op hcall =>
          refine ⟨[.issue op], _, .single (.issue h op), hfollows.issue op ?_, rfl⟩
          rintro ⟨op', ⟨⟩⟩
      | signal entries fd hcall =>
          exact ⟨[.confirm], _, .single (.confirm h), hfollows.confirm (hdone _ fd hcall), rfl⟩
      | logReturn op phase hcall hphase =>
          refine ⟨[.confirm], _, .single (.confirm h), hfollows.confirm ?_, rfl⟩
          rcases hphase with rfl | ⟨fd, rfl⟩
          · exact hfollows.tracks_of_written ⟨op, hcall⟩
          · exact hdone op fd hcall
      | logPersist | logRefused =>
          refine ⟨[], h, .nil h, hfollows.of_tracks ?_ htracks, rfl⟩
          rintro ⟨op', ⟨⟩⟩
      | logSyscall op pending outcome disk rest hcall hnext =>
          refine ⟨[], h, .nil h, hfollows.of_tracks ?_ htracks, rfl⟩
          rintro ⟨op', hsignalled⟩
          obtain ⟨w, -, ⟨⟩⟩ := Option.map_eq_some_iff.mp hsignalled
      | apply | installRefused | install | storeInstalled | smPersist | smRefused | smSyscall
      | publish | smReturn | readState | numberSnapshot | storeBuilt =>
          exact ⟨[], h, .nil h, hfollows.of_tracks id htracks, rfl⟩
  | kill =>
      obtain ⟨logState, smState, hlog, -, rfl⟩ := open_of_toOption hstep
      have hnone : ¬ ∃ op, none = some (⟨op, .signalled⟩ : LogCall) := by
        rintro ⟨op, ⟨⟩⟩
      obtain ⟨kept, h', value, hhistory, hload, hnow⟩ := hfollows.of_read hnone
      obtain rfl := Option.some.inj (hlog.symm.trans hload)
      exact ⟨[.restart kept], h', .single hhistory, hnow, rfl⟩
  | powerLoss survivor junk =>
      obtain ⟨logState, smState, hlog, -, rfl⟩ := open_of_toOption hstep
      obtain ⟨kept, h', value, hhistory, hload, hnow⟩ :=
        hfollows.of_crash hwriting.isSealed survivor junk
      obtain rfl := Option.some.inj (hlog.symm.trans hload)
      exact ⟨[.restart kept], h', .single hhistory, hnow, rfl⟩

/-- The history of the state machine goes on by the one event that is marked. -/
theorem smFollows_of_step {h : History SmOp} (hwriting : s.Writing serde)
    (hfollows : s.SmFollows serde h) {e : LifeEvent} (hstep : s.Outlives serde dir e s') :
    ∃ events h', Run History.Step h events h' ∧ s'.SmFollows serde h' ∧
      events.map HistoryEvent.mark = e.smMark.toList := by
  cases e with
  | call e =>
      have htracks := fun kept => @tracks_of_step serde dir s s' _ _ (loaded serde.sm .empty) _ _
        _ kept _ hwriting _ hstep hfollows.loaded_image
      cases stepCase_of_step hstep with
      | apply entries hcall =>
          refine ⟨[.issue (.apply entries)], _, .single (.issue h _), hfollows.issue _ ?_, rfl⟩
          rintro ⟨publishes, ⟨⟩⟩
      | installRefused info data e hcall hdecode =>
          have hrun : s.machine.sm = s.machine.sm.run serde.sm (.install info data) := by
            simp [SmState.run, hdecode]
          refine ⟨[.issue (.install info data)], _, .single (.issue h _), ?_, rfl⟩
          rw [SmFollows, hrun]
          refine hfollows.issue _ ?_
          rintro ⟨publishes, hpublished⟩
          rw [hcall] at hpublished
          cases hpublished
      | install info data sm hcall hdecode =>
          have hrun : sm = s.machine.sm.run serde.sm (.install info data) := by
            simp [SmState.run, hdecode]
          refine ⟨[.issue (.install info data)], _, .single (.issue h _), ?_, rfl⟩
          rw [hrun]
          refine hfollows.issue _ ?_
          rintro ⟨publishes, ⟨⟩⟩
      | publish publishes fd hcall =>
          have hstage := hwriting.stage .sm ⟨[], fd⟩ (by rw [Store.pending, hcall])
          exact ⟨[.confirm], _, .single (.confirm h),
            hfollows.confirm (.of_done hstage hfollows.loaded_image), rfl⟩
      | smReturn publishes hcall =>
          exact ⟨[.confirm], _, .single (.confirm h),
            hfollows.confirm (hfollows.tracks_of_written ⟨publishes, hcall⟩), rfl⟩
      | storeInstalled | smPersist | smRefused =>
          refine ⟨[], h, .nil h, hfollows.of_tracks ?_ htracks, rfl⟩
          rintro ⟨publishes, ⟨⟩⟩
      | smSyscall publishes pending outcome disk rest hcall hnext =>
          refine ⟨[], h, .nil h, hfollows.of_tracks ?_ htracks, rfl⟩
          rintro ⟨publishes', hpublished⟩
          obtain ⟨w, -, ⟨⟩⟩ := Option.map_eq_some_iff.mp hpublished
      | log | logPersist | logRefused | logSyscall | signal | logReturn | readState
      | numberSnapshot | storeBuilt =>
          exact ⟨[], h, .nil h, hfollows.of_tracks id htracks, rfl⟩
  | kill =>
      obtain ⟨logState, smState, -, hsm, rfl⟩ := open_of_toOption hstep
      have hnone : ¬ ∃ publishes, none = some (⟨.published, publishes⟩ : SmCall) := by
        rintro ⟨publishes, ⟨⟩⟩
      obtain ⟨kept, h', value, hhistory, hload, hnow⟩ := hfollows.of_read hnone
      obtain rfl := Option.some.inj (hsm.symm.trans hload)
      exact ⟨[.restart kept], h', .single hhistory, hnow, rfl⟩
  | powerLoss survivor junk =>
      obtain ⟨logState, smState, -, hsm, rfl⟩ := open_of_toOption hstep
      obtain ⟨kept, h', value, hhistory, hload, hnow⟩ :=
        hfollows.of_crash hwriting.isSealed survivor junk
      obtain rfl := Option.some.inj (hsm.symm.trans hload)
      exact ⟨[.restart kept], h', .single hhistory, hnow, rfl⟩

/-! ## Every run -/

variable (serde) in
/-- The log follows a history of operations that were regular when they were issued. -/
structure LogRelated (C : LogStoreState → LogOp → Prop) (s : Store) (h : History LogOp) :
    Prop where
  writing : s.Writing serde
  follows : s.LogFollows serde h
  regular : EachStep LogStoreState.run C .empty h.ops

variable (serde) in
structure SmRelated (C : SmState → SmOp → Prop) (s : Store) (h : History SmOp) : Prop where
  writing : s.Writing serde
  follows : s.SmFollows serde h
  regular : EachStep (SmState.run serde.sm) C .empty h.ops

variable {P : Store → LifeEvent → Prop}

/-- The history of the log along a run whose operations are regular. -/
theorem LogRelated.run {C : LogStoreState → LogOp → Prop}
    (hregular : ∀ s op, P s (.call (.log op)) → C s.log.state op) {h : History LogOp}
    {labels : List LifeEvent} (hrelated : s.LogRelated serde C h)
    (hrun : Run (fun s e s' => s.Outlives serde dir e s' ∧ P s e) s labels s') :
    ∃ events h', Run History.Step h events h' ∧ s'.LogRelated serde C h' ∧
      events.map HistoryEvent.mark = labels.filterMap LifeEvent.logMark := by
  simp only [← List.filterMap_eq_map']
  refine Run.simulation _ LifeEvent.logMark _ ?_ hrelated hrun
  rintro s e s' h ⟨hwriting, hfollows, hops⟩ ⟨hstep, hpromised⟩
  obtain ⟨events, h', hhistory, hnow, hmarks⟩ := logFollows_of_step hwriting hfollows hstep
  refine ⟨events, h', hhistory, ⟨hwriting.outlive hstep, hnow, ?_⟩, ?_⟩
  · refine History.regular_of_marked hops hhistory hmarks fun op hop => ?_
    obtain rfl := LifeEvent.eq_of_logMark hop
    rw [← hfollows.value_eq]
    exact hregular s op hpromised
  · rw [← hmarks, List.filterMap_eq_map']

/-- The history of the state machine along a run whose calls are regular. -/
theorem SmRelated.run {C : SmState → SmOp → Prop}
    (hregular : ∀ s op, P s (.ofSmOp op) → C s.machine.sm op) {h : History SmOp}
    {labels : List LifeEvent} (hrelated : s.SmRelated serde C h)
    (hrun : Run (fun s e s' => s.Outlives serde dir e s' ∧ P s e) s labels s') :
    ∃ events h', Run History.Step h events h' ∧ s'.SmRelated serde C h' ∧
      events.map HistoryEvent.mark = labels.filterMap LifeEvent.smMark := by
  simp only [← List.filterMap_eq_map']
  refine Run.simulation _ LifeEvent.smMark _ ?_ hrelated hrun
  rintro s e s' h ⟨hwriting, hfollows, hops⟩ ⟨hstep, hpromised⟩
  obtain ⟨events, h', hhistory, hnow, hmarks⟩ := smFollows_of_step hwriting hfollows hstep
  refine ⟨events, h', hhistory, ⟨hwriting.outlive hstep, hnow, ?_⟩, ?_⟩
  · refine History.regular_of_marked hops hhistory hmarks fun op hop => ?_
    obtain rfl := LifeEvent.eq_of_smMark hop
    rw [← hfollows.value_eq]
    exact hregular s op hpromised
  · rw [← hmarks, List.filterMap_eq_map']

theorem related_of_fresh (hfresh : s.Fresh serde dir) (C : LogStoreState → LogOp → Prop)
    (C' : SmState → SmOp → Prop) : s.LogRelated serde C .nil ∧ s.SmRelated serde C' .nil := by
  obtain ⟨hwriting, hlog, hsm⟩ := follows_of_fresh hfresh
  exact ⟨⟨hwriting, hlog, trivial⟩, ⟨hwriting, hsm, trivial⟩⟩

/-- Whatever has happened, the files can be read: no start is refused. -/
theorem opens {h : History LogOp} {h' : History SmOp} (hwriting : s.Writing serde)
    (hlog : s.LogFollows serde h) (hsm : s.SmFollows serde h') :
    (∃ s', s.Outlives serde dir .kill s') ∧
      ∀ survivor junk, ∃ s', s.Outlives serde dir (.powerLoss survivor junk) s' := by
  obtain ⟨_, -, -, hlogTracks⟩ := hlog.held
  obtain ⟨_, -, -, hsmTracks⟩ := hsm.held
  constructor
  · obtain ⟨_, -, -, hlogRead, -⟩ := hlogTracks
    obtain ⟨_, -, -, hsmRead, -⟩ := hsmTracks
    exact ⟨_, toOption_of_loaded hlogRead hsmRead⟩
  · intro survivor junk
    obtain ⟨_, -, -, hlogRead⟩ := hlogTracks.load_crash hwriting.isSealed survivor junk
    obtain ⟨_, -, -, hsmRead⟩ := hsmTracks.load_crash hwriting.isSealed survivor junk
    exact ⟨_, toOption_of_loaded hlogRead hsmRead⟩

/-- A run from a first start over any number of deaths of the process and losses of
power. Log and state machine are each what a history of their calls leads to, in which a
restart undoes only calls that had not returned, and the next start is not refused. -/
theorem histories_of_run {labels : List LifeEvent} (hfresh : s.Fresh serde dir)
    (hrun : Run (Outlives serde dir) s labels s') :
    (∃ events h, Run History.Step .nil events h ∧
        events.map HistoryEvent.mark = labels.filterMap LifeEvent.logMark ∧
        s'.log.state = LogStoreState.empty.runAll h.ops) ∧
      (∃ events h, Run History.Step .nil events h ∧
        events.map HistoryEvent.mark = labels.filterMap LifeEvent.smMark ∧
        s'.machine.sm = SmState.empty.runAll serde.sm h.ops) ∧
      (∃ s'', s'.Outlives serde dir .kill s'') ∧
      ∀ survivor junk, ∃ s'', s'.Outlives serde dir (.powerLoss survivor junk) s'' := by
  have hrun' : Run (fun s e s' => s.Outlives serde dir e s' ∧ True) s labels s' :=
    hrun.imp fun s e s' hstep => ⟨hstep, trivial⟩
  obtain ⟨hlog₀, hsm₀⟩ := related_of_fresh hfresh (fun _ _ => True) (fun _ _ => True)
  obtain ⟨events, h, hhistory, hlog, hmarks⟩ := hlog₀.run (fun _ _ _ => trivial) hrun'
  obtain ⟨events', h', hhistory', hsm, hmarks'⟩ := hsm₀.run (fun _ _ _ => trivial) hrun'
  exact ⟨⟨events, h, hhistory, hmarks, hlog.follows.value_eq⟩,
    ⟨events', h', hhistory', hmarks', hsm.follows.value_eq⟩,
    opens hlog.writing hlog.follows hsm.follows⟩

end Store

/-! ## Calls that have been answered -/

/-- Votes are compared by term, then by node, then by whether a quorum has granted them. -/
def Raft.Vote.rank : Option Vote → WithBot (Nat ×ₗ (Nat ×ₗ Bool))
  | none => ⊥
  | some vote => (toLex (vote.leaderId.term, toLex (vote.leaderId.nodeId, vote.committed)) :
      Nat ×ₗ (Nat ×ₗ Bool))

/-- A saved vote is not below the one it replaces. -/
def LogOp.Raises (s : LogStoreState) : LogOp → Prop
  | .saveVote vote => Vote.rank s.vote ≤ Vote.rank (some vote)
  | .saveCommitted _ | .append _ | .truncate _ | .purge _ => True

/-- Entries come after what has been applied, with increasing log ids, and an installed
state is not behind the one it replaces. -/
def SmOp.Raises (codec : Codec SmState) (s : SmState) : SmOp → Prop
  | .apply entries =>
      (s.rank :: entries.map fun entry => LogId.rank (some entry.logId)).IsChain (· < ·)
  | .install _ data => ∀ sm, codec.decode data = .ok sm → s.rank ≤ sm.rank

theorem LogOp.Raises.le_run {s : LogStoreState} {op : LogOp} (hraises : op.Raises s) :
    Vote.rank s.vote ≤ Vote.rank (s.run op).vote := by
  cases op with
  | saveVote => exact hraises
  | saveCommitted | append | truncate | purge => exact le_rfl

theorem SmOp.Raises.le_run {codec : Codec SmState} {s : SmState} {op : SmOp}
    (hraises : op.Raises codec s) : s.rank ≤ (s.run codec op).rank := by
  cases op with
  | apply entries => exact (SmState.rank_applyEntries le_rfl hraises).1
  | install info data =>
      rw [SmState.run]
      cases hdecode : codec.decode data with
      | error => exact le_rfl
      | ok sm => exact hraises sm hdecode

/-- What openraft promises about its calls, whatever has happened before. -/
def LifeEvent.Promised (serde : Serde) (s : Store) : LifeEvent → Prop
  | .call (.log op) => op.Raises s.log.state
  | .call (.apply entries) => SmOp.Raises serde.sm s.machine.sm (.apply entries)
  | .call (.install info data) => SmOp.Raises serde.sm s.machine.sm (.install info data)
  | .call _ | .kill | .powerLoss _ _ => True

namespace Store

variable {serde : Serde} {dir : StoreDir} {s₀ s s' s'' : Store}

variable (serde dir) in
def PromisedStep (s : Store) (e : LifeEvent) (s' : Store) : Prop :=
  s.Outlives serde dir e s' ∧ e.Promised serde s

/-- The history behind an answered operation on the log, and how it goes on. -/
theorem logHistory_of_answered {labels : List LifeEvent}
    (hreach : Reachable (Fresh serde dir) (PromisedStep serde dir) s) {e : LifeEvent}
    (hstep : s.PromisedStep serde dir e s') (hrun : Run (PromisedStep serde dir) s' labels s'')
    (hmark : e.logMark = some .confirmed) : ∃ h h' events, Run History.Step h events h' ∧
      h.safe = h.ops ∧ events.map HistoryEvent.mark = labels.filterMap LifeEvent.logMark ∧
      s'.LogRelated serde (fun s op => op.Raises s) h ∧
      s''.LogRelated serde (fun s op => op.Raises s) h' := by
  obtain ⟨s₀, earlier, hfresh, hearlier⟩ := hreach
  obtain ⟨hlog₀, -⟩ := related_of_fresh hfresh (fun s op => op.Raises s) (fun _ _ => True)
  have hissued : ∀ s op, LifeEvent.Promised serde s (.call (.log op)) → op.Raises s.log.state :=
    fun _ _ hpromised => hpromised
  obtain ⟨_, h, -, hlog, -⟩ := hlog₀.run hissued hearlier
  obtain ⟨_, h', hhistory, hlog', hmarks⟩ := hlog.run hissued (.single hstep)
  obtain ⟨events, h'', hlater, hlog'', hmarks'⟩ := hlog'.run hissued hrun
  rw [List.filterMap_cons_some hmark] at hmarks
  exact ⟨h', h'', events, hlater, History.safe_of_confirmed hhistory hmarks, hmarks', hlog', hlog''⟩

theorem smHistory_of_answered {labels : List LifeEvent}
    (hreach : Reachable (Fresh serde dir) (PromisedStep serde dir) s) {e : LifeEvent}
    (hstep : s.PromisedStep serde dir e s') (hrun : Run (PromisedStep serde dir) s' labels s'')
    (hmark : e.smMark = some .confirmed) : ∃ h h' events, Run History.Step h events h' ∧
      h.safe = h.ops ∧ s'.SmRelated serde (fun s op => op.Raises serde.sm s) h ∧
      s''.SmRelated serde (fun s op => op.Raises serde.sm s) h' := by
  obtain ⟨s₀, earlier, hfresh, hearlier⟩ := hreach
  obtain ⟨-, hsm₀⟩ := related_of_fresh hfresh (fun _ _ => True)
    (fun s op => op.Raises serde.sm s)
  have hissued : ∀ s op, LifeEvent.Promised serde s (.ofSmOp op) →
      op.Raises serde.sm s.machine.sm := by
    intro s op hpromised
    cases op with
    | apply | install => exact hpromised
  obtain ⟨_, h, -, hsm, -⟩ := hsm₀.run hissued hearlier
  obtain ⟨_, h', hhistory, hsm', hmarks⟩ := hsm.run hissued (.single hstep)
  obtain ⟨events, h'', hlater, hsm'', -⟩ := hsm'.run hissued hrun
  rw [List.filterMap_cons_some hmark] at hmarks
  exact ⟨h', h'', events, hlater, History.safe_of_confirmed hhistory hmarks, hsm', hsm''⟩

/-- Whatever dies and goes down afterwards: once a vote has been saved no lower one is read
again, once an append has been answered its entries stay until a later operation is about
their indexes, and once an `apply` or `install_snapshot` has been answered no earlier state
is read again. -/
theorem answered_of_run {labels : List LifeEvent}
    (hreach : Reachable (Fresh serde dir) (PromisedStep serde dir) s) {e : LifeEvent}
    (hstep : s.PromisedStep serde dir e s') (hrun : Run (PromisedStep serde dir) s' labels s'') :
    (e.logMark = some .confirmed →
        Vote.rank s'.log.state.vote ≤ Vote.rank s''.log.state.vote ∧
          ∀ (index : Nat) (entry : Entry), s'.log.state.log[index]? = some entry →
            (∀ op, .call (.log op) ∈ labels → ¬ op.Overrides index) →
            s''.log.state.log[index]? = some entry) ∧
      (e.smMark = some .confirmed → s'.machine.sm.rank ≤ s''.machine.sm.rank) := by
  constructor
  · intro hmark
    obtain ⟨h, h', events, hlater, hsafe, hmarks, hlog, hlog'⟩ :=
      logHistory_of_answered hreach hstep hrun hmark
    constructor
    · rw [hlog.follows.value_eq, hlog'.follows.value_eq, ← hsafe]
      exact History.le_of_run (f := fun s => Vote.rank s.vote) (fun _ _ hraises => hraises.le_run)
        hlog'.regular hlater
    · intro index entry hstored hkeeps
      obtain ⟨later, hops, hissued⟩ := History.issued_of_run h.ops [] hlater (by rw [hsafe])
        (List.append_nil _).symm
      have hvalue : s''.log.state = s'.log.state.runAll later := by
        rw [hlog'.follows.value_eq, hlog.follows.value_eq, hops, List.foldl_append]
        rfl
      rw [hvalue, LogStoreState.getElem?_runAll_of_not_overrides, hstored]
      intro op hop
      refine hkeeps op ?_
      have hmem := (hissued op hop).resolve_left (List.not_mem_nil)
      have hmark := List.mem_map_of_mem (f := HistoryEvent.mark) hmem
      rw [hmarks] at hmark
      obtain ⟨e', he', hissues⟩ := List.mem_filterMap.mp hmark
      exact LifeEvent.eq_of_logMark hissues ▸ he'
  · intro hmark
    obtain ⟨h, h', events, hlater, hsafe, hsm, hsm'⟩ :=
      smHistory_of_answered hreach hstep hrun hmark
    rw [hsm.follows.value_eq, hsm'.follows.value_eq, ← hsafe]
    exact History.le_of_run (fun _ _ hraises => hraises.le_run) hsm'.regular hlater

/-! ## A start after a death and a loss of power -/

variable {P : Store → LifeEvent → Prop}

/-- Steps about which nothing needs to be promised. -/
theorem run_of_quiet (hP : ∀ s e, e.issuesCall = false → P s (.call e)) {events : List StoreEvent}
    (hquiet : ∀ e ∈ events, e.issuesCall = false)
    (heval : events.foldlM (after serde dir) s = some s') :
    Run (fun s e s' => s.Outlives serde dir e s' ∧ P s e) s (events.map .call) s' := by
  induction events generalizing s with
  | nil =>
      obtain rfl := Option.some.inj heval
      exact .nil s
  | cons e rest ih =>
      obtain ⟨he, hrest⟩ := List.forall_mem_cons.mp hquiet
      rw [List.foldlM_cons] at heval
      obtain ⟨u, hafter, htail⟩ := Option.bind_eq_some_iff.mp heval
      exact .cons ⟨hafter, hP s e he⟩ (ih hrest htail)

/-- Restarts can follow every run. -/
theorem exists_restarts (hkill : ∀ s, P s .kill)
    (hpowerLoss : ∀ s survivor junk, P s (.powerLoss survivor junk)) {labels : List LifeEvent}
    (hfresh : s.Fresh serde dir)
    (hrun : Run (fun s e s' => s.Outlives serde dir e s' ∧ P s e) s labels s') (survivor : Nat)
    (junk : Nat → List UInt8) :
    ∃ s'', Run (fun s e s' => s.Outlives serde dir e s' ∧ P s e) s'
      [.kill, .powerLoss survivor junk] s'' := by
  obtain ⟨hlog₀, hsm₀⟩ := related_of_fresh hfresh (fun _ _ => True) (fun _ _ => True)
  have hopens : ∀ {labels t}, Run (fun s e s' => s.Outlives serde dir e s' ∧ P s e) s labels t →
      (∃ t', t.Outlives serde dir .kill t') ∧
        ∀ survivor junk, ∃ t', t.Outlives serde dir (.powerLoss survivor junk) t' := by
    intro labels t hrun
    obtain ⟨_, _, -, hlog, -⟩ := hlog₀.run (fun _ _ _ => trivial) hrun
    obtain ⟨_, _, -, hsm, -⟩ := hsm₀.run (fun _ _ _ => trivial) hrun
    exact opens hlog.writing hlog.follows hsm.follows
  obtain ⟨t, ht⟩ := (hopens hrun).1
  have hkilled : Run (fun s e s' => s.Outlives serde dir e s' ∧ P s e) s' [.kill] t :=
    .single ⟨ht, hkill s'⟩
  obtain ⟨s'', hlost⟩ := (hopens (hrun.append hkilled)).2 survivor junk
  exact ⟨s'', hkilled.append (.single ⟨hlost, hpowerLoss t survivor junk⟩)⟩

theorem fresh_blankStore : Session.blankStore.Fresh serde Session.raftDir :=
  ⟨Session.blankDisk, ⟨rfl, fun _ => rfl⟩, fun _ => rfl, rfl⟩

theorem promised_of_quiet (s : Store) (e : StoreEvent) (hquiet : e.issuesCall = false) :
    LifeEvent.Promised serde s (.call e) := by
  cases e <;> trivial

/-- The rest of an append, up to its return. -/
def signalAppend : List StoreEvent :=
  [.logPersist true] ++ Session.writeOk .logSyscall ++ [.signal]

def beforeReturn : Store :=
  (Session.blankStore.after Session.numbered Session.raftDir (.log (.append [Session.firstEntry]))
    |>.bind fun s => signalAppend.foldlM (after Session.numbered Session.raftDir) s).getD
    Session.blankStore

theorem run_beforeReturn : Run (PromisedStep Session.numbered Session.raftDir)
    Session.blankStore (.call (.log (.append [Session.firstEntry])) :: signalAppend.map .call)
    beforeReturn :=
  .cons ⟨rfl, trivial⟩ (run_of_quiet promised_of_quiet (by decide) rfl)

/-- The process dies before the append returns, and then the power is lost. -/
theorem histories_of_run_signalled : ∃ s, ∃ events h,
    Run (Outlives Session.numbered Session.raftDir) Session.blankStore
      (.call (.log (.append [Session.firstEntry])) :: signalAppend.map .call ++
        [.kill, .powerLoss 0 fun _ => []]) s ∧
    Run History.Step .nil events h ∧
    events.map HistoryEvent.mark =
      [.issued (.append [Session.firstEntry]), .confirmed, .restarted, .restarted] ∧
    s.log.state = LogStoreState.empty.runAll h.ops := by
  obtain ⟨s, hrestarts⟩ := exists_restarts (fun _ => trivial) (fun _ _ _ => trivial)
    fresh_blankStore run_beforeReturn 0 fun _ => []
  have hrun := (run_beforeReturn.append hrestarts).imp fun _ _ _ hstep => hstep.1
  obtain ⟨⟨events, h, hhistory, hmarks, hstate⟩, -⟩ := histories_of_run fresh_blankStore hrun
  exact ⟨s, events, h, hrun, hhistory, hmarks, hstate⟩

/-- The entry is still there. -/
theorem answered_of_run_returned : ∃ s' s'',
    Reachable (Fresh Session.numbered Session.raftDir)
      (PromisedStep Session.numbered Session.raftDir) beforeReturn ∧
    beforeReturn.PromisedStep Session.numbered Session.raftDir (.call .logReturn) s' ∧
    Run (PromisedStep Session.numbered Session.raftDir) s' [.kill, .powerLoss 0 fun _ => []] s'' ∧
    s''.log.state.log[1]? = some Session.firstEntry := by
  have hreach : Reachable (Fresh Session.numbered Session.raftDir)
      (PromisedStep Session.numbered Session.raftDir) beforeReturn :=
    ⟨_, _, fresh_blankStore, run_beforeReturn⟩
  have hstep : beforeReturn.PromisedStep Session.numbered Session.raftDir (.call .logReturn)
      (beforeReturn.setLogCall none) := ⟨rfl, trivial⟩
  obtain ⟨s'', hrun⟩ := exists_restarts (fun _ => trivial) (fun _ _ _ => trivial)
    fresh_blankStore (run_beforeReturn.append (.single hstep)) 0 fun _ => []
  obtain ⟨hlog, -⟩ := answered_of_run hreach hstep hrun
  refine ⟨_, s'', hreach, hstep, hrun, (hlog rfl).2 1 Session.firstEntry rfl ?_⟩
  simp

end Store

end PgReplica
