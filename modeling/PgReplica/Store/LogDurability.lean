import PgReplica.Store.Session

/-! # Crashes of the log store

Whatever fails and wherever the crash comes, the log that `open` finds is the
result of the first operations that were issued, and none of those that returned
or were signalled is missing.
-/

namespace PgReplica

open Foundation Raft

namespace Session

variable {serde : Serde} {dir : StoreDir} {opened : LogStoreState} {s s' : Session}

/-- The log file follows the operations, the first `kept` included. -/
abbrev LogTracks (serde : Serde) (opened : LogStoreState) (s : Session) (kept : Nat) : Prop :=
  Tracks (loaded serde.log .empty) LogStoreState.run opened s.logOps kept s.store.disk .log

/-- The memory is the result of all operations, and the file follows them. -/
structure LogDurable (serde : Serde) (opened : LogStoreState) (s : Session) : Prop where
  state : s.store.log.state = opened.runAll s.logOps
  issued : ∀ call, s.store.log.call = some call → s.logOps.getLast? = some call.op
  signals : ∀ position ∈ s.signalled, ∃ entries, s.logOps[position]? = some (.append entries)
  held : ∃ kept, s.logConfirmed ≤ kept ∧ (∀ position ∈ s.signalled, position < kept) ∧
    (∀ op, s.store.log.call = some ⟨op, .signalled⟩ → kept = s.logOps.length) ∧
    LogTracks serde opened s kept

/-- What a write of the log in memory would leave. -/
theorem LogDurable.loaded_image (hdurable : LogDurable serde opened s) :
    loaded serde.log .empty (some (s.store.image serde .log)) =
      some (s.logOps.foldl LogStoreState.run opened) := by
  rw [Store.image, hdurable.state, loaded_encode]
  rfl

/-- After the last system call of a write every operation is in the file. -/
theorem LogDurable.tracks_of_done (hdurable : LogDurable serde opened s)
    (hwriting : s.store.Writing serde) {op : LogOp} {fd : Option Nat}
    (hcall : s.store.log.call = some ⟨op, .write ⟨[], fd⟩⟩) :
    LogTracks serde opened s s.logOps.length := by
  have hstage := hwriting.stage .log ⟨[], fd⟩ (by rw [Store.pending, hcall])
  exact Tracks.of_done hstage hdurable.loaded_image

/-- A step that issues, signals and returns nothing. -/
theorem LogDurable.of_same (hdurable : LogDurable serde opened s)
    (hstate : s'.store.log.state = s.store.log.state) (hops : s'.logOps = s.logOps)
    (hconfirmed : s'.logConfirmed = s.logConfirmed) (hsignalled : s'.signalled = s.signalled)
    (hcall : ∀ call', s'.store.log.call = some call' → ∃ call, s.store.log.call = some call ∧
      call.op = call'.op ∧ (call'.phase = .signalled → call.phase = .signalled))
    (htracks : ∀ kept, LogTracks serde opened s kept → LogTracks serde opened s' kept) :
    LogDurable serde opened s' := by
  obtain ⟨kept, hle, hheld, hlast, hkept⟩ := hdurable.held
  refine ⟨by rw [hstate, hops, hdurable.state], ?_, ?_, kept, hconfirmed ▸ hle,
    hsignalled ▸ hheld, ?_, htracks kept hkept⟩
  · intro call' hcall'
    obtain ⟨call, hold, hop, -⟩ := hcall call' hcall'
    rw [hops, ← hop]
    exact hdurable.issued call hold
  · rw [hsignalled, hops]
    exact hdurable.signals
  · intro op hop
    obtain ⟨⟨op', phase⟩, hold, -, hphase⟩ := hcall _ hop
    obtain rfl := hphase rfl
    rw [hops]
    exact hlast op' hold

theorem LogDurable.step (hdurable : LogDurable serde opened s) (hwriting : s.store.Writing serde)
    {e : StoreEvent} (hstep : s.Step serde dir e s') : LogDurable serde opened s' := by
  obtain ⟨store, hstore, rfl, -⟩ := store_step hstep
  have htracks : ∀ kept, LogTracks serde opened s kept →
      Tracks (loaded serde.log .empty) LogStoreState.run opened s.logOps kept store.disk .log :=
    fun kept => Store.tracks_of_step hwriting hstore hdurable.loaded_image
  cases Store.stepCase_of_step hstore with
  | log op hcall =>
      obtain ⟨kept, hle, hheld, -, hkept⟩ := hdurable.held
      refine ⟨?_, ?_, ?_, kept, hle, hheld, ?_, (htracks kept hkept).snoc op⟩
      · simp [recorded, LogStoreState.runAll, hdurable.state]
      · rintro _ ⟨⟩
        simp [recorded]
      · intro position hposition
        obtain ⟨entries, hentries⟩ := hdurable.signals position hposition
        obtain ⟨hlt, -⟩ := List.getElem?_eq_some_iff.mp hentries
        exact ⟨entries, (List.getElem?_append_left hlt).trans hentries⟩
      · rintro _ ⟨⟩
  | signal entries fd hcall =>
      have hlast := hdurable.issued _ hcall
      have hpos : 0 < s.logOps.length :=
        List.length_pos_of_mem (List.mem_of_getLast? hlast)
      obtain ⟨kept, hle, hheld, -, hkept⟩ := hdurable.held
      have hlength := hkept.kept_le_length
      refine ⟨hdurable.state, ?_, ?_, s.logOps.length, hle.trans hlength, ?_, fun _ _ => rfl,
        htracks _ (hdurable.tracks_of_done hwriting hcall)⟩
      · rintro _ ⟨⟩
        exact hlast
      · intro position hposition
        rcases List.mem_cons.mp hposition with rfl | hold
        · exact ⟨entries, List.getLast?_eq_getElem? ▸ hlast⟩
        · exact hdurable.signals position hold
      · intro position hposition
        rcases List.mem_cons.mp hposition with rfl | hold
        · exact Nat.sub_one_lt_of_lt hpos
        · exact (hheld position hold).trans_le hlength
  | logReturn op phase hcall hphase =>
      obtain ⟨kept, hle, hheld, hsignalled, hkept⟩ := hdurable.held
      have hlength := hkept.kept_le_length
      have hall : LogTracks serde opened s s.logOps.length := by
        rcases hphase with rfl | ⟨fd, rfl⟩
        · exact hsignalled op hcall ▸ hkept
        · exact hdurable.tracks_of_done hwriting hcall
      refine ⟨hdurable.state, ?_, hdurable.signals, s.logOps.length, le_rfl, ?_, ?_,
        htracks _ hall⟩
      · rintro _ ⟨⟩
      · exact fun position hold => (hheld position hold).trans_le hlength
      · rintro _ ⟨⟩
  | logPersist op hcall =>
      refine hdurable.of_same rfl rfl rfl rfl ?_ htracks
      rintro _ ⟨⟩
      exact ⟨_, hcall, rfl, fun h => by cases h⟩
  | logRefused op hcall =>
      refine hdurable.of_same rfl rfl rfl rfl ?_ htracks
      rintro _ ⟨⟩
  | logSyscall op pending outcome disk rest hcall hnext =>
      refine hdurable.of_same rfl rfl rfl rfl ?_ htracks
      intro call' hcall'
      obtain ⟨w, -, rfl⟩ := Option.map_eq_some_iff.mp hcall'
      exact ⟨_, hcall, rfl, fun h => by cases h⟩
  | apply | installRefused | install | storeInstalled | smPersist | smRefused | smSyscall | publish
  | smReturn | readState | numberSnapshot | storeBuilt =>
      exact hdurable.of_same rfl rfl rfl rfl (fun call hcall => ⟨call, hcall, rfl, id⟩) htracks

theorem logDurable_of_opened {store : Store} (hopened : Opened serde dir store s) :
    LogDurable serde store.log.state s := by
  obtain ⟨rfl, d, hsettled, hopen⟩ := hopened
  obtain ⟨logState, smState, hlog, -, rfl⟩ := openStore_eq_ok_iff.mp hopen
  refine ⟨rfl, ?_, ?_, 0, le_rfl, ?_, ?_, Tracks.of_settled hsettled hlog⟩
  · rintro _ ⟨⟩
  · rintro _ ⟨⟩
  · rintro _ ⟨⟩
  · rintro _ ⟨⟩

theorem logDurable_of_reachable {store : Store} (hreach : ReachableFrom serde dir store s) :
    s.store.Writing serde ∧ LogDurable serde store.log.state s := by
  apply hreach.invariant (I := fun s => s.store.Writing serde ∧ LogDurable serde store.log.state s)
  · exact fun s hopened => ⟨writing_of_opened hopened, logDurable_of_opened hopened⟩
  · exact fun s e s' hs hstep => ⟨writing_of_step hs.1 hstep, hs.2.step hs.1 hstep⟩

end Session

end PgReplica
