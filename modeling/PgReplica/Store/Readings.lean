import PgReplica.Store.Replicas

/-! # Reading the published decision again and again

The supervisor reads what the state machine has published, before and after the node
has died. The decisions it reads come in the order of the log. There is one exception:
a node that dies while its state file is being written may publish what it finds in the
file, and a loss of power may take that back.
-/

namespace PgReplica

open Foundation Raft LogStoreState

namespace Store

variable (serde : Serde) {dir : StoreDir} {s s' : Store}

/-- The state in the file has applied the first `k` entries. -/
def Past (k : Nat) (files : StoreFile → Option (List UInt8)) : Prop :=
  ∀ sm, loaded serde.sm .empty (files .sm) = some sm → k ≤ indexAfter sm.lastApplied

variable {serde} {k n : Nat}

theorem Past.mono (hpast : Past serde n files) (hle : k ≤ n) : Past serde k files :=
  fun sm hload => hle.trans (hpast sm hload)

/-- What a call does to the files together: at most one of them is replaced by what its
writer writes. -/
theorem files_of_step (hwriting : s.Writing serde) {e : StoreEvent}
    (hstep : s.Outlives serde dir (.call e) s') :
    Disk.FilesKept s.disk s'.disk ∨
      Disk.FileReplaced .log (serde.log.encode s.log.state) s.disk s'.disk ∨
      Disk.FileReplaced .sm (serde.sm.encode s.machine.sm) s.disk s'.disk := by
  cases stepCase_of_step hstep with
  | logSyscall op pending outcome disk rest hcall hnext =>
      obtain ⟨call, todo, hpending, rfl, -⟩ := PendingWrite.next_eq_some hnext
      have hstage := hwriting.stage .log ⟨call :: todo, pending.fd⟩
        (by rw [← hpending, Store.pending, hcall])
      exact (hstage.files_run hwriting.isSealed outcome).imp_right Or.inl
  | smSyscall publishes pending outcome disk rest hcall hnext =>
      obtain ⟨call, todo, hpending, rfl, -⟩ := PendingWrite.next_eq_some hnext
      have hstage := hwriting.stage .sm ⟨call :: todo, pending.fd⟩
        (by rw [← hpending, Store.pending, hcall])
      exact (hstage.files_run hwriting.isSealed outcome).imp_right Or.inr
  | log | logPersist | logRefused | signal | logReturn | apply | installRefused | install
  | storeInstalled | smPersist | smRefused | publish | smReturn | readState | numberSnapshot
  | storeBuilt => exact Or.inl (.refl _)

/-- The files keep up with the log position as long as the memory is past it. -/
theorem past_of_step (hwriting : s.Writing serde) {e : StoreEvent}
    (hstep : s.Outlives serde dir (.call e) s') (hmemory : k ≤ indexAfter s.machine.sm.lastApplied)
    (hpast : Past serde k s.disk.files) : Past serde k s'.disk.files := by
  rcases files_of_step hwriting hstep with hkept | hlog | hsm
  · rwa [hkept.files]
  · intro sm hload
    rw [hlog.files, Function.update_of_ne (by decide)] at hload
    exact hpast sm hload
  · intro sm hload
    rw [hsm.files, Function.update_self, loaded_encode] at hload
    exact Option.some.inj hload ▸ hmemory

theorem always_past_of_step (hwriting : s.Writing serde) {e : StoreEvent}
    (hstep : s.Outlives serde dir (.call e) s') (hmemory : k ≤ indexAfter s.machine.sm.lastApplied)
    (halways : s.disk.Always (Past serde k)) : s'.disk.Always (Past serde k) := by
  rcases files_of_step hwriting hstep with hkept | hlog | hsm
  · exact hkept.always halways
  · refine hlog.always halways fun sm hload => ?_
    rw [Function.update_of_ne (by decide)] at hload
    exact halways.files sm hload
  · refine hsm.always halways fun sm hload => ?_
    rw [Function.update_self, loaded_encode] at hload
    exact Option.some.inj hload ▸ hmemory

/-- At `publish` the state file is written and synced. -/
theorem always_past_of_publish (hwriting : s.Writing serde)
    (hstep : s.Outlives serde dir (.call .publish) s')
    (hmemory : k ≤ indexAfter s.machine.sm.lastApplied) : s'.disk.Always (Past serde k) := by
  cases @stepCase_of_step serde dir s s' .publish hstep with
  | publish publishes fd hcall =>
      have hstage := hwriting.stage .sm ⟨[], fd⟩ (by rw [Store.pending, hcall])
      cases hstage with
      | done _ hread himages =>
          intro view hview sm hload
          have himage : s.disk.filesUnder view .sm = some (s.image serde .sm) :=
            List.mem_singleton.mp (himages (List.mem_map_of_mem hview))
          have hloaded : loaded serde.sm .empty (some (s.image serde .sm)) = some sm := by
            rw [← himage]
            exact hload
          rw [image, loaded_encode] at hloaded
          exact Option.some.inj hloaded ▸ hmemory

end Store

/-! ## One node -/

/-- Whether the state file that a node has read might be lost, after an event. -/
def LifeEvent.exposes : LifeEvent → Bool → Bool
  | .kill, _ => true
  | .powerLoss _ _, _ | .call .publish, _ => false
  | .call _, exposed => exposed

/-- The published decision is the one among the first `k` entries, and what a restart finds
is not behind it. After a loss of power this is certain when the node is not exposed. -/
structure Store.Published (serde : Serde) (L : CommittedLog) (s : Store) (exposed : Bool)
    (k : Nat) : Prop where
  replays : s.Replays serde L
  machine : ∃ n, s.machine.Replays serde L n k
  past : Past serde k s.disk.files
  always : exposed = false → s.disk.Always (Past serde k)

namespace Store.Published

variable {serde : Serde} {dir : StoreDir} {L : CommittedLog} {s s' : Store} {exposed : Bool}
  {k : Nat}

theorem writing (hpublished : s.Published serde L exposed k) : s.Writing serde := by
  obtain ⟨h, hrelated⟩ := hpublished.replays.related
  exact hrelated.writing

theorem of_fresh (hfresh : s.Fresh serde dir) : s.Published serde L false 0 where
  replays := .of_fresh hfresh
  machine := ⟨0, .of_fresh hfresh⟩
  past := fun _ _ => Nat.zero_le _
  always := fun _ _ _ _ _ => Nat.zero_le _

/-- A start from files that are past the published decision. -/
theorem of_open {d : StoreDisk} (hreplays : s'.Replays serde L)
    (hopen : (openStore serde dir d).toOption = some s') (hpast : Past serde k d.files) :
    ∃ k', k ≤ k' ∧ s'.disk = d ∧ Past serde k' d.files ∧ ∃ n, s'.machine.Replays serde L n k' := by
  obtain ⟨n, j, hmachine⟩ := hreplays.machine
  obtain ⟨logState, smState, -, hsm, rfl⟩ := open_of_toOption hopen
  have hsmState : smState = L.replay n := hmachine.sm_eq
  subst hsmState
  have hle := hpast (L.replay n) hsm
  rw [L.indexAfter_replay] at hle
  refine ⟨n, hle, rfl, fun sm hload => ?_, n, .of_open rfl⟩
  obtain rfl := Option.some.inj (hload.symm.trans hsm)
  rw [L.indexAfter_replay]

theorem step (hpublished : s.Published serde L exposed k) {e : LifeEvent}
    (hstep : s.Outlives serde dir e s')
    (hsupplied : ∀ op, e = .ofSmOp op → op.Supplied serde L s.machine.sm)
    (hpower : ∀ survivor junk, e = .powerLoss survivor junk → exposed = false) :
    ∃ k', k ≤ k' ∧ s'.Published serde L (e.exposes exposed) k' := by
  have hreplays := hpublished.replays.step hstep hsupplied
  have hwriting := hpublished.writing
  cases e with
  | call e =>
      obtain ⟨n, hmachine⟩ := hpublished.machine
      have hmemory : k ≤ indexAfter s.machine.sm.lastApplied := by
        rw [hmachine.sm_eq, L.indexAfter_replay]
        exact hmachine.shared_le
      obtain ⟨n', k', hmachine', -, hle, hmoves⟩ := hmachine.of_step hstep hsupplied
      by_cases hpublish : e = .publish
      · -- the file has been synced, so nothing can be behind
        subst hpublish
        have hmemory' : k' ≤ indexAfter s.machine.sm.lastApplied := by
          rcases hmoves with ⟨-, rfl⟩ | rfl
          · rw [hmachine.sm_eq, L.indexAfter_replay]
            exact hmachine'.shared_le
          · exact hmemory
        have halways := always_past_of_publish hwriting hstep hmemory'
        exact ⟨k', hle, hreplays, ⟨n', hmachine'⟩, halways.files, fun _ => halways⟩
      · obtain rfl := hmoves.resolve_left fun hmoved => hpublish hmoved.1
        refine ⟨k', le_rfl, hreplays, ⟨n', hmachine'⟩,
          past_of_step hwriting hstep hmemory hpublished.past, fun hsafe => ?_⟩
        have hexposed : (LifeEvent.call e).exposes exposed = exposed := by
          cases e <;> first | rfl | exact absurd rfl hpublish
        exact always_past_of_step hwriting hstep hmemory (hpublished.always (hexposed ▸ hsafe))
  | kill =>
      obtain ⟨k', hle, hdisk, hpast, hmachine⟩ := of_open hreplays hstep hpublished.past
      exact ⟨k', hle, hreplays, hmachine, by rwa [hdisk], fun hsafe => by cases hsafe⟩
  | powerLoss survivor junk =>
      have halways := hpublished.always (hpower survivor junk rfl)
      have hcrashed := halways.crash hwriting.isSealed survivor junk
      obtain ⟨k', hle, hdisk, hpast, hmachine⟩ := of_open hreplays hstep hcrashed.files
      refine ⟨k', hle, hreplays, hmachine, by rwa [hdisk], fun _ => ?_⟩
      rw [hdisk]
      exact (s.disk.settled_crash survivor junk).always hpast

end Store.Published

/-! ## Reading one node of a cluster -/

/-- A cluster, and what the supervisor of one node has read. -/
structure Reader (ι : Type) where
  replicas : Replicas ι
  exposed : Bool
  readings : List (Option Decision)

inductive ReaderEvent (ι : Type) where
  | run (e : ReplicaEvent ι)
  | read

namespace Reader

variable {ι : Type} [DecidableEq ι] (serde : Serde) (dir : ι → StoreDir) (L : CommittedLog) (i : ι)

def exposedAfter (exposed : Bool) : ReplicaEvent ι → Bool
  | .node j e => if j = i then e.exposes exposed else exposed
  | .send _ => exposed

/-- Power is not lost after a death of the process until a call has been published. -/
def Spared (exposed : Bool) (e : LifeEvent) : Prop :=
  ∀ survivor junk, e = .powerLoss survivor junk → exposed = false

/-- The node's own events are limited by `P`. -/
def Step (P : Bool → LifeEvent → Prop) (r : Reader ι) (e : ReaderEvent ι) (r' : Reader ι) : Prop :=
  match e with
  | .run e => (∀ e', e = .node i e' → P r.exposed e') ∧
      ∃ c, r.replicas.Step serde dir L e c ∧
        r' = ⟨c, exposedAfter i r.exposed e, r.readings⟩
  | .read =>
      r' = { r with readings := r.readings ++ [(r.replicas.stores i).machine.shared] }

def Started (r : Reader ι) : Prop :=
  r.replicas.Started serde dir ∧ r.exposed = false ∧ r.readings = []

/-- What has been read was published in the order of the log. -/
structure InOrder (r : Reader ι) : Prop where
  replayed : r.replicas.Replayed serde L
  read : ∃ (k : Nat) (positions : List Nat), (r.replicas.stores i).Published serde L r.exposed k ∧
    positions.Pairwise (· ≤ ·) ∧ (∀ p ∈ positions, p ≤ k) ∧
    r.readings = positions.map L.decisionAt

variable {serde dir L i} {r r' : Reader ι}

theorem InOrder.step (hordered : r.InOrder serde L i) {e : ReaderEvent ι}
    (hstep : r.Step serde dir L i Spared e r') : r'.InOrder serde L i := by
  obtain ⟨hreplayed, k, positions, hpublished, hsorted, hle, hreadings⟩ := hordered
  cases e with
  | run e =>
      obtain ⟨hspared, c, hreplicas, rfl⟩ := hstep
      refine ⟨hreplayed.step hreplicas, ?_⟩
      by_cases hself : ∃ e', e = .node i e'
      · obtain ⟨e', rfl⟩ := hself
        obtain ⟨s', houtlives, hdelivered, rfl⟩ := hreplicas
        obtain ⟨k', hk, hpublished'⟩ := hpublished.step houtlives (hreplayed.supplied hdelivered)
          (hspared e' rfl)
        refine ⟨k', positions, ?_, hsorted, fun p hp => (hle p hp).trans hk, hreadings⟩
        simpa [exposedAfter] using hpublished'
      · -- nothing happens to the node
        have hstore :
            c.stores i = r.replicas.stores i ∧ exposedAfter i r.exposed e = r.exposed := by
          cases e with
          | node j e' =>
              have hne : j ≠ i := fun heq => hself ⟨e', by rw [heq]⟩
              obtain ⟨s', -, -, rfl⟩ := hreplicas
              exact ⟨Function.update_of_ne hne.symm _ _, if_neg hne⟩
          | send j =>
              obtain ⟨snapshot, -, rfl⟩ := hreplicas
              exact ⟨rfl, rfl⟩
        refine ⟨k, positions, ?_, hsorted, hle, hreadings⟩
        rwa [hstore.1, hstore.2]
  | read =>
      obtain rfl := hstep
      obtain ⟨n, hmachine⟩ := hpublished.machine
      refine ⟨hreplayed, k, positions ++ [k], hpublished, ?_, ?_, ?_⟩
      · exact List.pairwise_append.mpr ⟨hsorted, List.pairwise_singleton _ _, fun p hp q hq =>
          List.mem_singleton.mp hq ▸ hle p hp⟩
      · intro p hp
        rcases List.mem_append.mp hp with hold | hnew
        · exact hle p hold
        · exact (List.mem_singleton.mp hnew).le
      · rw [hreadings, hmachine.shared, List.map_append, List.map_singleton]

/-- Whatever happens to the cluster and to the node itself, the decisions read from it
are those of the log at positions in order. -/
theorem readings_in_order_of_run
    (hreach : Reachable (Started serde dir) (Step serde dir L i Spared) r) :
    ∃ positions : List Nat, positions.Pairwise (· ≤ ·) ∧
      r.readings = positions.map L.decisionAt := by
  have hordered : r.InOrder serde L i := by
    apply hreach.invariant (I := InOrder serde L i)
    · rintro r ⟨hstarted, hexposed, hreadings⟩
      refine ⟨.of_started hstarted, 0, [], ?_, List.Pairwise.nil, (fun p hp => by cases hp),
        hreadings⟩
      rw [hexposed]
      exact .of_fresh (hstarted.1 i)
    · exact fun r e r' hordered hstep => hordered.step hstep
  obtain ⟨-, k, positions, -, hsorted, -, hreadings⟩ := hordered
  exact ⟨positions, hsorted, hreadings⟩

/-! ## A loss of power after the decision is published, and one too early -/

/-- The only node of a cluster. -/
def alone (s : Store) (exposed : Bool) (readings : List (Option Decision)) : Reader Unit :=
  ⟨⟨fun _ => s, []⟩, exposed, readings⟩

variable {dir : StoreDir} {P : Bool → LifeEvent → Prop} {s s' : Store} {exposed : Bool}
  {readings : List (Option Decision)}

theorem step_alone {e : LifeEvent} (houtlives : s.Outlives serde dir e s')
    (hdelivered : Replicas.Delivered serde L [] s e) (hP : P exposed e) :
    (alone s exposed readings).Step serde (fun _ => dir) L () P (.run (.node () e))
      (alone s' (e.exposes exposed) readings) := by
  refine ⟨?_, _, ⟨s', houtlives, hdelivered, rfl⟩, ?_⟩
  · rintro _ ⟨⟩
    exact hP
  · have hstores : (fun _ : Unit => s') = Function.update (fun _ => s) () s' :=
      funext fun _ => (Function.update_self () s' fun _ => s).symm
    rw [alone, hstores]
    rfl

theorem run_alone {labels : List LifeEvent}
    (hrun : Run (fun s e s' => s.Outlives serde dir e s' ∧ Replicas.Delivered serde L [] s e)
      s labels s') (hP : ∀ e ∈ labels, ∀ x, P x e) :
    Run (Step serde (fun _ => dir) L () P) (alone s exposed readings)
      (labels.map fun e => .run (.node () e))
      (alone s' (labels.foldl (fun x e => e.exposes x) exposed) readings) := by
  induction hrun generalizing exposed with
  | nil => exact .nil _
  | cons hstep htail ih =>
      obtain ⟨hPe, hPrest⟩ := List.forall_mem_cons.mp hP
      exact .cons (step_alone hstep.1 hstep.2 (hPe exposed)) (ih hPrest)

/-- A restart calls nothing. -/
theorem delivered_restart {e : LifeEvent} (hcall : ∀ e', e ≠ .call e') :
    Replicas.Delivered serde L [] s e := by
  intro op heq
  cases op <;> exact absurd heq (hcall _)

/-- A start that finds the state in the file, and no log. -/
def startedFrom (d : StoreDisk) (sm : SmState) : Store :=
  ⟨d, ⟨.empty, none⟩, ⟨sm, none, 0, sm.decision, none, none⟩⟩

variable (serde) in
/-- The state machine has decided, and its call has returned. -/
def decided : Store :=
  Replicas.decidedUpTo serde Store.finishSmCall

/-- The decision is read before a loss of power and after it. -/
theorem readings_in_order_of_run_decided : ∃ (r : Reader Unit) (positions : List Nat),
    Reachable (Started Session.numbered fun _ => Session.raftDir)
      (Step Session.numbered (fun _ => Session.raftDir) Replicas.oneDecision () Spared) r ∧
    r.readings = [some ⟨1, 2⟩, some ⟨1, 2⟩] ∧ positions.Pairwise (· ≤ ·) ∧
    r.readings = positions.map Replicas.oneDecision.decisionAt := by
  let lost := startedFrom ((decided Session.numbered).disk.crash 0 fun _ => [])
    (decided Session.numbered).machine.sm
  have hdecided : Run (Step Session.numbered (fun _ => Session.raftDir) Replicas.oneDecision ()
      Spared) (alone Session.blankStore false []) _ (alone (decided Session.numbered) false []) :=
    run_alone (Replicas.run_decidedUpTo (by decide) rfl) (by simp [Spared])
  have hlost : (decided Session.numbered).Outlives Session.numbered Session.raftDir
      (.powerLoss 0 fun _ => []) lost :=
    Store.toOption_of_loaded rfl (loaded_encode _)
  have hrun : Run (Step Session.numbered (fun _ => Session.raftDir) Replicas.oneDecision ()
      Spared) (alone (decided Session.numbered) false [])
      [.read, .run (.node () (.powerLoss 0 fun _ => [])), .read]
      (alone lost false [some ⟨1, 2⟩, some ⟨1, 2⟩]) :=
    .cons rfl (.cons (step_alone hlost (delivered_restart fun _ h => by cases h)
      fun _ _ _ => rfl) (.single rfl))
  have hreach : Reachable (Started Session.numbered fun _ => Session.raftDir)
      (Step Session.numbered (fun _ => Session.raftDir) Replicas.oneDecision () Spared)
      (alone lost false [some ⟨1, 2⟩, some ⟨1, 2⟩]) :=
    ⟨_, _, ⟨⟨fun _ => Store.fresh_blankStore, rfl⟩, rfl, rfl⟩, hdecided.append hrun⟩
  obtain ⟨positions, hsorted, hreadings⟩ := readings_in_order_of_run hreach
  exact ⟨_, positions, hreach, rfl, hsorted, hreadings⟩

theorem decisionAt_oneDecision (n : Nat) :
    Replicas.oneDecision.decisionAt (n + 1) = some ⟨1, 2⟩ := by
  induction n with
  | zero => rfl
  | succ n ih => rw [CommittedLog.decisionAt_succ, ih]; rfl

variable (serde) in
/-- The decision is in the file, and its directory is not synced. -/
def decidedUnsynced : Store :=
  Replicas.decidedUpTo serde (.smPersist true :: List.replicate 4 (.smSyscall .ok))

variable (serde) in
def restartedUnsynced : Store :=
  startedFrom (decidedUnsynced serde).disk (decidedUnsynced serde).machine.sm

/-- A node that dies between the rename and the publication reads a decision that a loss of
power takes back. -/
theorem readings_out_of_order_of_powerLoss : ∃ r : Reader Unit,
    Reachable (Started Session.numbered fun _ => Session.raftDir)
      (Step Session.numbered (fun _ => Session.raftDir) Replicas.oneDecision ()
        fun _ _ => True) r ∧
    r.readings = [some ⟨1, 2⟩, none] ∧
    ¬ ∃ positions : List Nat, positions.Pairwise (· ≤ ·) ∧
      r.readings = positions.map Replicas.oneDecision.decisionAt := by
  let d := (restartedUnsynced Session.numbered).disk.crash 1 fun _ => []
  have hunsynced : Run (Step Session.numbered (fun _ => Session.raftDir) Replicas.oneDecision ()
      fun _ _ => True) (alone Session.blankStore false []) _
      (alone (decidedUnsynced Session.numbered) false []) :=
    run_alone (Replicas.run_decidedUpTo (by decide) rfl) fun _ _ _ => trivial
  have hkilled : (decidedUnsynced Session.numbered).Outlives Session.numbered Session.raftDir .kill
      (restartedUnsynced Session.numbered) :=
    Store.toOption_of_loaded rfl (loaded_encode _)
  have hopen : (openStore Session.numbered Session.raftDir d).toOption =
      some (startedFrom d .empty) :=
    Store.toOption_of_loaded rfl rfl
  have hlost : (restartedUnsynced Session.numbered).Outlives Session.numbered Session.raftDir
      (.powerLoss 1 fun _ => []) (startedFrom d .empty) := hopen
  have hrun : Run (Step Session.numbered (fun _ => Session.raftDir) Replicas.oneDecision ()
      fun _ _ => True) (alone (decidedUnsynced Session.numbered) false [])
      [.run (.node () .kill), .read, .run (.node () (.powerLoss 1 fun _ => [])), .read]
      (alone (startedFrom d .empty) false [some ⟨1, 2⟩, none]) :=
    .cons (step_alone hkilled (delivered_restart fun _ h => by cases h) trivial) (.cons rfl
      (.cons (step_alone hlost (delivered_restart fun _ h => by cases h) trivial) (.single rfl)))
  refine ⟨_, ⟨_, _, ⟨⟨fun _ => Store.fresh_blankStore, rfl⟩, rfl, rfl⟩, hunsynced.append hrun⟩,
    rfl, ?_⟩
  rintro ⟨positions, hsorted, hreadings⟩
  -- a decision at the first position, and none at the second
  obtain ⟨p, rest, rfl, hp, hrest⟩ := List.map_eq_cons_iff.mp hreadings.symm
  obtain ⟨q, rest, rfl, hq, -⟩ := List.map_eq_cons_iff.mp hrest
  have hle : p ≤ q := List.rel_of_pairwise_cons hsorted List.mem_cons_self
  cases q with
  | zero =>
      obtain rfl := Nat.le_zero.mp hle
      cases hp
  | succ q =>
      rw [decisionAt_oneDecision] at hq
      cases hq

end Reader

end PgReplica
