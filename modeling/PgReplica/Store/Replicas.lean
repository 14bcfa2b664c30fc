import PgReplica.Foundation.Text
import PgReplica.Store.Reapplication

/-! # The state machines of a cluster

Raft hands every node the same committed entries, to each in its own batches, with
snapshots in place of entries, and again after a restart. Every node then stands where
some number of the first entries lead, and so does every snapshot.
-/

namespace PgReplica

open Foundation Raft LogStoreState

/-- The decision that an entry carries. -/
def Raft.Entry.carried (entry : Entry) : Option Decision :=
  match entry.payload with
  | .normal value => some value
  | .blank | .membership _ => none

theorem SmState.decision_applyEntry_eq (s : SmState) (entry : Entry) :
    (s.applyEntry entry).decision = entry.carried.or s.decision := by
  unfold applyEntry Entry.carried
  cases entry.payload <;> rfl

theorem SmState.decision_applyEntries_eq (s : SmState) (entries : List Entry) :
    (s.applyEntries entries).decision =
      ((entries.filterMap Entry.carried).getLast?).or s.decision := by
  induction entries using List.reverseRecOn with
  | nil => rfl
  | append_singleton entries entry ih =>
      have happly : s.applyEntries (entries ++ [entry]) =
          (s.applyEntries entries).applyEntry entry := by
        rw [applyEntries, List.foldl_append]
        rfl
      rw [happly, decision_applyEntry_eq, ih, List.filterMap_append, List.getLast?_append,
        Option.or_assoc]
      cases hcarried : entry.carried <;> simp [hcarried]

/-! ## The committed log -/

/-- The entries that Raft commits, by index: there is one for each, and it does not change. -/
structure CommittedLog where
  entry : Nat → Entry
  index_eq : ∀ n, (entry n).logId.index = n

namespace CommittedLog

variable (L : CommittedLog)

/-- The first `n` entries. -/
def take (n : Nat) : List Entry :=
  (List.range n).map L.entry

/-- The state that the first `n` entries lead to. -/
def replay (n : Nat) : SmState :=
  SmState.empty.applyEntries (L.take n)

/-- The last decision among the first `n` entries. -/
def decisionAt (n : Nat) : Option Decision :=
  ((L.take n).filterMap Entry.carried).getLast?

theorem decision_replay (n : Nat) : (L.replay n).decision = L.decisionAt n := by
  rw [replay, SmState.decision_applyEntries_eq, decisionAt]
  exact Option.or_none

theorem decisionAt_succ (n : Nat) :
    L.decisionAt (n + 1) = (L.entry n).carried.or (L.decisionAt n) := by
  rw [decisionAt, take, List.range_succ, List.map_append, List.filterMap_append,
    List.getLast?_append]
  cases hcarried : (L.entry n).carried <;> simp [hcarried, decisionAt, take]

theorem map_index_take (n : Nat) :
    (L.take n).map (fun entry => entry.logId.index) = List.range n := by
  simp [take, L.index_eq, Function.comp_def]

@[simp] theorem indexAfter_replay (n : Nat) : indexAfter (L.replay n).lastApplied = n := by
  have hentries : (L.take n).map (fun entry => entry.logId.index) =
      List.range' (indexAfter SmState.empty.lastApplied) (L.take n).length := by
    rw [map_index_take, List.range_eq_range', take, List.length_map, List.length_range]
    rfl
  rw [replay, SmState.indexAfter_applyEntries hentries, take, List.length_map, List.length_range]
  exact Nat.zero_add n

/-- The next entries lead on. -/
theorem applyEntries_replay {n : Nat} {entries : List Entry}
    (hindexes : entries.map (fun entry => entry.logId.index) = List.range' n entries.length)
    (hcommitted : ∀ entry ∈ entries, entry = L.entry entry.logId.index) :
    (L.replay n).applyEntries entries = L.replay (n + entries.length) := by
  have hentries : entries = (List.range' n entries.length).map L.entry := by
    rw [← hindexes, List.map_map]
    exact (List.map_id entries).symm.trans (List.map_congr_left hcommitted)
  have htake : L.take (n + entries.length) = L.take n ++ entries := by
    have hrange := List.range'_append_1 (s := 0) (m := n) (n := entries.length)
    rw [Nat.zero_add] at hrange
    rw [take, take, List.range_eq_range', List.range_eq_range', ← hrange, List.map_append,
      ← hentries]
  rw [replay, replay, htake, SmState.applyEntries, SmState.applyEntries, SmState.applyEntries,
    List.foldl_append]

end CommittedLog

/-! ## Snapshots of the committed log -/

namespace CommittedLog

variable (serde : Serde) (L : CommittedLog)

/-- A snapshot of what some number of the first entries lead to. -/
def Genuine (snapshot : StoredSnapshot) : Prop :=
  ∃ n idx, snapshot = (L.replay n).snapshot serde.sm serde.displayLeader idx

def GenuineBuild : Build → Prop
  | .read data lastApplied lastMembership =>
      ∃ n, data = serde.sm.encode (L.replay n) ∧ lastApplied = (L.replay n).lastApplied ∧
        lastMembership = (L.replay n).lastMembership
  | .numbered snapshot => L.Genuine serde snapshot

variable {serde L}

/-- The digits of the index in a snapshot's id. -/
def indexDigits : Option LogId → List Char
  | some logId => Nat.toDigits 10 logId.index
  | none => []

theorem toList_snapshotId (display : LeaderId → String) (lastApplied : Option LogId) (idx : Nat) :
    ∃ leader, (snapshotId display lastApplied idx).toList =
      (leader ++ '-' :: indexDigits lastApplied) ++ '-' :: Nat.toDigits 10 idx := by
  cases lastApplied with
  | none => exact ⟨[], by simp [snapshotId, indexDigits]⟩
  | some logId => exact ⟨(display logId.leaderId).toList, by simp [snapshotId, indexDigits]⟩

theorem separator_not_mem_toDigits (n : Nat) : '-' ∉ Nat.toDigits 10 n := by
  intro hmem
  have hdigit := Nat.isDigit_of_mem_toDigits (by decide) (by decide) hmem
  revert hdigit
  decide

theorem toDigits_injective : Function.Injective (Nat.toDigits 10) := by
  intro a b hdigits
  simpa using congrArg (Nat.ofDigitChars 10 · 0) hdigits

theorem separator_not_mem_indexDigits (lastApplied : Option LogId) :
    '-' ∉ indexDigits lastApplied := by
  cases lastApplied with
  | none => exact List.not_mem_nil
  | some logId => exact separator_not_mem_toDigits logId.index

/-- A number has at least one digit. -/
theorem indexAfter_of_indexDigits {lastApplied lastApplied' : Option LogId}
    (heq : indexDigits lastApplied = indexDigits lastApplied') :
    indexAfter lastApplied = indexAfter lastApplied' := by
  cases lastApplied with
  | none =>
      cases lastApplied' with
      | none => rfl
      | some logId' => exact absurd heq.symm Nat.toDigits_ne_nil
  | some logId =>
      cases lastApplied' with
      | none => exact absurd heq Nat.toDigits_ne_nil
      | some logId' => exact congrArg (· + 1) (toDigits_injective heq)

/-- The id of a snapshot tells how far it has come and its number. -/
theorem snapshotId_inj {display : LeaderId → String} {lastApplied lastApplied' : Option LogId}
    {idx idx' : Nat}
    (heq : snapshotId display lastApplied idx = snapshotId display lastApplied' idx') :
    indexAfter lastApplied = indexAfter lastApplied' ∧ idx = idx' := by
  obtain ⟨leader, hid⟩ := toList_snapshotId display lastApplied idx
  obtain ⟨leader', hid'⟩ := toList_snapshotId display lastApplied' idx'
  rw [heq, hid'] at hid
  obtain ⟨hfront, hidx⟩ := append_separator_inj (separator_not_mem_toDigits idx')
    (separator_not_mem_toDigits idx) hid
  obtain ⟨-, hindex⟩ := append_separator_inj (separator_not_mem_indexDigits lastApplied')
    (separator_not_mem_indexDigits lastApplied) hfront
  exact ⟨(indexAfter_of_indexDigits hindex).symm, (toDigits_injective hidx).symm⟩

theorem Genuine.eq_of_snapshotId {snapshot snapshot' : StoredSnapshot}
    (hgenuine : L.Genuine serde snapshot) (hgenuine' : L.Genuine serde snapshot')
    (hid : snapshot.info.snapshotId = snapshot'.info.snapshotId) : snapshot = snapshot' := by
  obtain ⟨n, idx, rfl⟩ := hgenuine
  obtain ⟨n', idx', rfl⟩ := hgenuine'
  obtain ⟨hindex, rfl⟩ := snapshotId_inj hid
  rw [indexAfter_replay, indexAfter_replay] at hindex
  rw [hindex]

end CommittedLog

/-! ## One node -/

/-- The calls continue the applied state with committed entries and snapshots of them. -/
def SmOp.Supplied (serde : Serde) (L : CommittedLog) (s : SmState) (op : SmOp) : Prop :=
  op.Consecutive serde.sm s ∧
    match op with
    | .apply entries => ∀ entry ∈ entries, entry = L.entry entry.logId.index
    | .install info data => L.Genuine serde ⟨info, data⟩

namespace SmOp.Supplied

variable {serde : Serde} {L : CommittedLog} {n : Nat} {op : SmOp}

theorem exists_replay_run (hsupplied : op.Supplied serde L (L.replay n)) :
    ∃ k, n ≤ k ∧ (L.replay n).run serde.sm op = L.replay k := by
  obtain ⟨hconsecutive, hcommitted⟩ := hsupplied
  cases op with
  | apply entries =>
      rw [SmOp.Consecutive, CommittedLog.indexAfter_replay] at hconsecutive
      exact ⟨_, Nat.le_add_right _ _, L.applyEntries_replay hconsecutive hcommitted⟩
  | install info data =>
      obtain ⟨k, idx, hsnapshot⟩ := hcommitted
      obtain ⟨-, rfl⟩ := StoredSnapshot.mk.inj hsnapshot
      have hdecode := serde.sm.decode_encode (L.replay k)
      have hle := hconsecutive _ hdecode
      rw [CommittedLog.indexAfter_replay, CommittedLog.indexAfter_replay] at hle
      exact ⟨k, hle, by rw [SmState.run, hdecode]⟩

end SmOp.Supplied

/-- A state machine that stands at the first `n` entries and has published the decision
among the first `k`. -/
structure StateMachine.Replays (serde : Serde) (L : CommittedLog) (m : StateMachine)
    (n k : Nat) : Prop where
  sm_eq : m.sm = L.replay n
  snapshot : ∀ snapshot, m.snapshot = some snapshot → L.Genuine serde snapshot
  build : ∀ build, m.build = some build → L.GenuineBuild serde build
  received : ∀ call, m.call = some call →
    ∀ snapshot, call.phase = .storeSnapshot snapshot → L.Genuine serde snapshot
  publishes : ∀ call, m.call = some call →
    ∀ decision, call.publishes = some decision → decision = L.decisionAt n
  shared : m.shared = L.decisionAt k
  shared_le : k ≤ n

namespace StateMachine.Replays

variable {serde : Serde} {dir : StoreDir} {L : CommittedLog} {s s' : Store} {n k : Nat}

/-- A start. -/
theorem of_open {sm : SmState} (hsm : sm = L.replay n) :
    Replays serde L ⟨sm, none, 0, sm.decision, none, none⟩ n n where
  sm_eq := hsm
  snapshot := nofun
  build := nofun
  received := nofun
  publishes := nofun
  shared := by rw [hsm, L.decision_replay]
  shared_le := le_rfl

theorem of_fresh (hfresh : s.Fresh serde dir) : s.machine.Replays serde L 0 0 := by
  have hvalue : s.machine.sm = .empty := (Store.follows_of_fresh hfresh).2.2.value_eq
  obtain ⟨d, -, -, hopen⟩ := hfresh
  obtain ⟨logState, smState, -, -, rfl⟩ := Session.openStore_eq_ok_iff.mp hopen
  exact .of_open hvalue

/-- A call goes on to another stage. -/
theorem of_call {m m' : StateMachine} (hreplays : m.Replays serde L n k) (hsm : m'.sm = m.sm)
    (hsnapshot : m'.snapshot = m.snapshot) (hbuild : m'.build = m.build)
    (hshared : m'.shared = m.shared) (hcall : ∀ call, m'.call = some call →
      (∀ snapshot, call.phase ≠ .storeSnapshot snapshot) ∧
        ∃ call', m.call = some call' ∧ call'.publishes = call.publishes) :
    m'.Replays serde L n k where
  sm_eq := hsm.trans hreplays.sm_eq
  snapshot := hsnapshot ▸ hreplays.snapshot
  build := hbuild ▸ hreplays.build
  received call heq snapshot hphase := absurd hphase ((hcall call heq).1 snapshot)
  publishes call heq decision hpublishes := by
    obtain ⟨call', heq', hsame⟩ := (hcall call heq).2
    exact hreplays.publishes call' heq' decision (hsame.trans hpublishes)
  shared := hshared ▸ hreplays.shared
  shared_le := hreplays.shared_le

/-- A call moves on along the log; only `publish` moves the published decision on. -/
theorem of_step (hreplays : s.machine.Replays serde L n k) {e : StoreEvent}
    (hstep : s.Outlives serde dir (.call e) s')
    (hsupplied : ∀ op, .call e = LifeEvent.ofSmOp op → op.Supplied serde L s.machine.sm) :
    ∃ n' k', s'.machine.Replays serde L n' k' ∧ n ≤ n' ∧ k ≤ k' ∧
      (e = .publish ∧ n' = n ∨ k' = k) := by
  have hle := hreplays.shared_le
  cases Store.stepCase_of_step hstep with
  | log | logPersist | logRefused | logSyscall | signal | logReturn | installRefused =>
      exact ⟨n, k, hreplays, le_rfl, le_rfl, Or.inr rfl⟩
  | apply entries hcall =>
      have hop := hsupplied (.apply entries) rfl
      rw [hreplays.sm_eq] at hop
      obtain ⟨n', hn, hrun⟩ := hop.exists_replay_run
      rw [SmState.run, ← hreplays.sm_eq] at hrun
      refine ⟨n', k, ⟨hrun, hreplays.snapshot, hreplays.build, ?_, ?_, hreplays.shared,
        hle.trans hn⟩, hn, le_rfl, Or.inr rfl⟩
      · rintro call ⟨⟩ snapshot ⟨⟩
      · rintro call ⟨⟩ decision hpublishes
        obtain ⟨-, hdecision⟩ := Option.ite_none_right_eq_some.mp hpublishes
        rw [← Option.some.inj hdecision, hrun, L.decision_replay]
  | install info data sm hcall hdecode =>
      have hop := hsupplied (.install info data) rfl
      have hgenuine := hop.2
      rw [hreplays.sm_eq] at hop
      obtain ⟨n', hn, hrun⟩ := hop.exists_replay_run
      have hsm : sm = L.replay n' := by rwa [SmState.run, hdecode] at hrun
      refine ⟨n', k, ⟨hsm, hreplays.snapshot, hreplays.build, ?_, ?_, hreplays.shared,
        hle.trans hn⟩, hn, le_rfl, Or.inr rfl⟩
      · rintro call ⟨⟩ snapshot ⟨⟩
        exact hgenuine
      · rintro call ⟨⟩ decision ⟨⟩
        rw [hsm, L.decision_replay]
  | storeInstalled snapshot publishes hcall =>
      refine ⟨n, k, ⟨hreplays.sm_eq, ?_, hreplays.build, ?_, ?_, hreplays.shared, hle⟩, le_rfl,
        le_rfl, Or.inr rfl⟩
      · rintro _ ⟨⟩
        exact hreplays.received _ hcall snapshot rfl
      · rintro call ⟨⟩ snapshot' ⟨⟩
      · rintro call ⟨⟩ decision hpublishes
        exact hreplays.publishes _ hcall decision hpublishes
  | smPersist publishes hcall =>
      refine ⟨n, k, hreplays.of_call rfl rfl rfl rfl ?_, le_rfl, le_rfl, Or.inr rfl⟩
      rintro call ⟨⟩
      exact ⟨(fun _ hphase => by cases hphase), _, hcall, rfl⟩
  | smRefused publishes hcall =>
      refine ⟨n, k, hreplays.of_call rfl rfl rfl rfl ?_, le_rfl, le_rfl, Or.inr rfl⟩
      rintro call ⟨⟩
  | smSyscall publishes pending outcome disk rest hcall hnext =>
      refine ⟨n, k, hreplays.of_call rfl rfl rfl rfl ?_, le_rfl, le_rfl, Or.inr rfl⟩
      intro call heq
      obtain ⟨w, -, rfl⟩ := Option.map_eq_some_iff.mp heq
      exact ⟨(fun _ hphase => by cases hphase), _, hcall, rfl⟩
  | publish publishes fd hcall =>
      cases publishes with
      | none =>
          refine ⟨n, k, hreplays.of_call rfl rfl rfl rfl ?_, le_rfl, le_rfl, Or.inr rfl⟩
          rintro call ⟨⟩
          exact ⟨(fun _ hphase => by cases hphase), _, hcall, rfl⟩
      | some decision =>
          refine ⟨n, n, ⟨hreplays.sm_eq, hreplays.snapshot, hreplays.build, ?_, ?_,
            hreplays.publishes _ hcall decision rfl, le_rfl⟩, le_rfl, hle, Or.inl ⟨rfl, rfl⟩⟩
          · rintro call ⟨⟩ snapshot ⟨⟩
          · rintro call ⟨⟩ decision' hpublishes
            exact hreplays.publishes _ hcall decision' hpublishes
  | smReturn publishes hcall =>
      refine ⟨n, k, hreplays.of_call rfl rfl rfl rfl ?_, le_rfl, le_rfl, Or.inr rfl⟩
      rintro call ⟨⟩
  | readState hbuild =>
      refine ⟨n, k, { hreplays with build := ?_ }, le_rfl, le_rfl, Or.inr rfl⟩
      rintro build ⟨⟩
      exact ⟨n, by rw [hreplays.sm_eq], by rw [hreplays.sm_eq], by rw [hreplays.sm_eq]⟩
  | numberSnapshot data lastApplied lastMembership hbuild =>
      refine ⟨n, k, { hreplays with build := ?_ }, le_rfl, le_rfl, Or.inr rfl⟩
      rintro build ⟨⟩
      obtain ⟨j, rfl, rfl, rfl⟩ := hreplays.build _ hbuild
      exact ⟨j, _, rfl⟩
  | storeBuilt snapshot hbuild =>
      refine ⟨n, k, { hreplays with snapshot := ?_, build := ?_ }, le_rfl, le_rfl, Or.inr rfl⟩
      · rintro _ ⟨⟩
        exact hreplays.build _ hbuild
      · rintro build ⟨⟩

end StateMachine.Replays

/-- A node's store, whatever has happened to it. -/
structure Store.Replays (serde : Serde) (L : CommittedLog) (s : Store) : Prop where
  machine : ∃ n k, s.machine.Replays serde L n k
  related : ∃ h, s.SmRelated serde
    (fun s op => ∀ n, s = L.replay n → ∃ k, s.run serde.sm op = L.replay k) h

namespace Store.Replays

variable {serde : Serde} {dir : StoreDir} {L : CommittedLog} {s s' : Store}

theorem of_fresh (hfresh : s.Fresh serde dir) : s.Replays serde L :=
  ⟨⟨0, 0, .of_fresh hfresh⟩, .nil, (related_of_fresh hfresh (fun _ _ => True) _).2⟩

theorem step (hreplays : s.Replays serde L) {e : LifeEvent} (hstep : s.Outlives serde dir e s')
    (hsupplied : ∀ op, e = .ofSmOp op → op.Supplied serde L s.machine.sm) :
    s'.Replays serde L := by
  obtain ⟨⟨n, k, hmachine⟩, h, hrelated⟩ := hreplays
  have hregular : ∀ op, e = .ofSmOp op → ∀ n, s.machine.sm = L.replay n →
      ∃ k, s.machine.sm.run serde.sm op = L.replay k := by
    rintro op heq n hsm
    have hop := hsupplied op heq
    rw [hsm] at hop ⊢
    obtain ⟨k, -, hrun⟩ := hop.exists_replay_run
    exact ⟨k, hrun⟩
  obtain ⟨_, h', -, hrelated', -⟩ := hrelated.run
    (P := fun s e => ∀ op, e = .ofSmOp op → ∀ n, s.machine.sm = L.replay n →
      ∃ k, s.machine.sm.run serde.sm op = L.replay k)
    (fun s op hkept => hkept op rfl) (.single ⟨hstep, hregular⟩)
  refine ⟨?_, h', hrelated'⟩
  -- whatever the file has kept was issued, so a start finds replayed entries in it
  have hvalue : ∃ k, s'.machine.sm = L.replay k := by
    rw [hrelated'.follows.value_eq]
    refine hrelated'.regular.foldl_invariant (I := fun sm => ∃ k, sm = L.replay k) ?_ ⟨0, rfl⟩
    rintro sm op ⟨k, rfl⟩ hkeeps
    exact hkeeps k rfl
  cases e with
  | call e =>
      obtain ⟨n', k', hmachine', -⟩ := hmachine.of_step hstep hsupplied
      exact ⟨n', k', hmachine'⟩
  | kill | powerLoss =>
      obtain ⟨n', hn⟩ := hvalue
      obtain ⟨logState, smState, -, -, rfl⟩ := open_of_toOption hstep
      exact ⟨n', n', .of_open hn⟩

end Store.Replays

/-! ## The cluster -/

/-- The stores of the nodes, and the snapshots that have been sent. -/
structure Replicas (ι : Type) where
  stores : ι → Store
  sent : List StoredSnapshot

inductive ReplicaEvent (ι : Type) where
  | node (i : ι) (e : LifeEvent)
  | send (i : ι)

namespace Replicas

variable {ι : Type} [DecidableEq ι] (serde : Serde) (dir : ι → StoreDir) (L : CommittedLog)

/-- openraft's calls on one node. A snapshot that has been sent may arrive late, again and
again, or never. -/
def Delivered (sent : List StoredSnapshot) (s : Store) (e : LifeEvent) : Prop :=
  ∀ op, e = .ofSmOp op → op.Consecutive serde.sm s.machine.sm ∧
    match op with
    | .apply entries => ∀ entry ∈ entries, entry = L.entry entry.logId.index
    | .install info data => ⟨info, data⟩ ∈ sent

def Started (c : Replicas ι) : Prop :=
  (∀ i, (c.stores i).Fresh serde (dir i)) ∧ c.sent = []

def Step (c : Replicas ι) (e : ReplicaEvent ι) (c' : Replicas ι) : Prop :=
  match e with
  | .node i e => ∃ s', (c.stores i).Outlives serde (dir i) e s' ∧
      Delivered serde L c.sent (c.stores i) e ∧
      c' = { c with stores := Function.update c.stores i s' }
  | .send i => ∃ snapshot, (c.stores i).machine.getCurrentSnapshot = some snapshot ∧
      c' = { c with sent := snapshot :: c.sent }

/-- A snapshot that a node would send or that has been sent. -/
def Holds (c : Replicas ι) (snapshot : StoredSnapshot) : Prop :=
  snapshot ∈ c.sent ∨ ∃ i, (c.stores i).machine.getCurrentSnapshot = some snapshot

/-- Nodes and messages are where the committed log leads. -/
structure Replayed (c : Replicas ι) : Prop where
  stores : ∀ i, (c.stores i).Replays serde L
  sent : ∀ snapshot ∈ c.sent, L.Genuine serde snapshot

variable {serde dir L} {c c' : Replicas ι}

omit [DecidableEq ι] in
theorem Replayed.of_started (hstarted : c.Started serde dir) : c.Replayed serde L := by
  obtain ⟨hfresh, hsent⟩ := hstarted
  exact ⟨fun i => .of_fresh (hfresh i), fun snapshot hmem => by simp [hsent] at hmem⟩

omit [DecidableEq ι] in
theorem Replayed.genuine (hreplayed : c.Replayed serde L) {snapshot : StoredSnapshot}
    (hholds : c.Holds snapshot) : L.Genuine serde snapshot := by
  rcases hholds with hsent | ⟨i, hcurrent⟩
  · exact hreplayed.sent snapshot hsent
  · obtain ⟨n, k, hmachine⟩ := (hreplayed.stores i).machine
    exact hmachine.snapshot snapshot hcurrent

omit [DecidableEq ι] in
theorem Replayed.supplied (hreplayed : c.Replayed serde L) {s : Store} {e : LifeEvent}
    (hdelivered : Delivered serde L c.sent s e) :
    ∀ op, e = .ofSmOp op → op.Supplied serde L s.machine.sm := by
  intro op hop
  obtain ⟨hconsecutive, hfrom⟩ := hdelivered op hop
  refine ⟨hconsecutive, ?_⟩
  cases op with
  | apply entries => exact hfrom
  | install info data => exact hreplayed.sent _ hfrom

theorem Replayed.step (hreplayed : c.Replayed serde L) {e : ReplicaEvent ι}
    (hstep : c.Step serde dir L e c') : c'.Replayed serde L := by
  cases e with
  | node i e =>
      obtain ⟨s', houtlives, hdelivered, rfl⟩ := hstep
      refine ⟨fun j => ?_, hreplayed.sent⟩
      by_cases heq : j = i
      · subst heq
        simp only [Function.update_self]
        exact (hreplayed.stores j).step houtlives (hreplayed.supplied hdelivered)
      · simp only [Function.update_of_ne heq]
        exact hreplayed.stores j
  | send i =>
      obtain ⟨snapshot, hcurrent, rfl⟩ := hstep
      refine ⟨hreplayed.stores, fun snapshot' hmem => ?_⟩
      rcases List.mem_cons.mp hmem with rfl | hold
      · exact hreplayed.genuine (Or.inr ⟨i, hcurrent⟩)
      · exact hreplayed.sent snapshot' hold

/-- However entries are batched, snapshots sent and nodes restarted: a node's state is what
the first entries of the committed log lead to, up to the one it has applied last; it has
published the last decision among some of them; and two snapshots with one id are equal. -/
theorem replayed_of_run (hreach : Reachable (Started serde dir) (Step serde dir L) c) :
    (∀ i, (c.stores i).machine.sm =
        L.replay (indexAfter (c.stores i).machine.sm.lastApplied) ∧
      ∃ n ≤ indexAfter (c.stores i).machine.sm.lastApplied,
        (c.stores i).machine.shared = L.decisionAt n) ∧
      ∀ snapshot snapshot', c.Holds snapshot → c.Holds snapshot' →
        snapshot.info.snapshotId = snapshot'.info.snapshotId → snapshot = snapshot' := by
  have hreplayed : c.Replayed serde L := by
    apply hreach.invariant (I := Replayed serde L)
    · exact fun c hstarted => .of_started hstarted
    · exact fun c e c' hreplayed hstep => hreplayed.step hstep
  constructor
  · intro i
    obtain ⟨n, k, hmachine⟩ := (hreplayed.stores i).machine
    have hindex : indexAfter (c.stores i).machine.sm.lastApplied = n := by
      rw [hmachine.sm_eq, L.indexAfter_replay]
    rw [hindex]
    exact ⟨hmachine.sm_eq, k, hmachine.shared_le, hmachine.shared⟩
  · intro snapshot snapshot' hholds hholds' hid
    exact (hreplayed.genuine hholds).eq_of_snapshotId (hreplayed.genuine hholds') hid

/-! ## A snapshot built before a restart and one built after it -/

/-- The steps of one node. -/
theorem run_node {i : ι} {s s' : Store} {stores : ι → Store} {sent : List StoredSnapshot}
    {labels : List LifeEvent}
    (hrun : Run (fun s e s' => s.Outlives serde (dir i) e s' ∧ Delivered serde L sent s e)
      s labels s') (hstart : stores i = s) :
    Run (Step serde dir L) ⟨stores, sent⟩ (labels.map (.node i))
      ⟨Function.update stores i s', sent⟩ := by
  induction hrun generalizing stores with
  | nil =>
      rw [← hstart, Function.update_eq_self]
      exact .nil _
  | @cons s t u e rest hstep htail ih =>
      subst hstart
      have hrest := @ih (Function.update stores i t) (Function.update_self ..)
      rw [Function.update_idem] at hrest
      exact .cons ⟨t, hstep.1, hstep.2, rfl⟩ hrest

theorem delivered_of_quiet {sent : List StoredSnapshot} (s : Store) (e : StoreEvent)
    (hquiet : e.issuesCall = false) : Delivered serde L sent s (.call e) := by
  intro op heq
  cases op <;> cases heq <;> cases hquiet

/-- A decision, and blank entries after it. -/
def oneDecision : CommittedLog where
  entry n := ⟨⟨⟨1, 1⟩, n⟩, if n = 0 then .normal ⟨1, 2⟩ else .blank⟩
  index_eq _ := rfl

variable (serde) in
/-- The decision has been applied, up to the events given. -/
def decidedUpTo (events : List StoreEvent) : Store :=
  Session.blankStore.evaluated serde (.apply [oneDecision.entry 0] :: events)

theorem run_decidedUpTo {events : List StoreEvent}
    (hquiet : ∀ e ∈ events, e.issuesCall = false)
    (heval : (events.foldlM (Store.after serde Session.raftDir)
      (Session.blankStore.evaluated serde [.apply [oneDecision.entry 0]])) =
        some (decidedUpTo serde events)) :
    Run (fun s e s' => s.Outlives serde Session.raftDir e s' ∧
      Delivered serde oneDecision [] s e) Session.blankStore
      (.call (.apply [oneDecision.entry 0]) :: events.map .call)
      (decidedUpTo serde events) := by
  refine .cons ⟨rfl, fun op heq => ?_⟩
    (Store.run_of_quiet delivered_of_quiet hquiet heval)
  cases op <;> cases heq
  exact ⟨rfl, by simp [oneDecision]⟩

def buildEvents : List StoreEvent :=
  [.readState, .numberSnapshot, .storeBuilt]

variable (serde) in
/-- The decision has been applied, and a snapshot built. -/
def firstBuilt : Store :=
  decidedUpTo serde (Store.finishSmCall ++ buildEvents)

variable (serde) in
/-- The node has died and started again. -/
def restarted : Store :=
  ⟨(firstBuilt serde).disk, ⟨.empty, none⟩, ⟨(firstBuilt serde).machine.sm, none, 0,
    (firstBuilt serde).machine.sm.decision, none, none⟩⟩

variable (serde) in
/-- Another snapshot has been built. -/
def builtAgain : Store :=
  (restarted serde).evaluated serde buildEvents

theorem run_firstBuilt : Run (fun s e s' => s.Outlives serde Session.raftDir e s' ∧
      Delivered serde oneDecision [] s e) Session.blankStore
    (.call (.apply [oneDecision.entry 0]) :: (Store.finishSmCall ++ buildEvents).map .call)
    (firstBuilt serde) :=
  run_decidedUpTo (by decide) rfl

theorem run_builtAgain {sent : List StoredSnapshot} :
    Run (fun s e s' => s.Outlives serde Session.raftDir e s' ∧
      Delivered serde oneDecision sent s e) (firstBuilt serde)
    (.kill :: buildEvents.map .call) (builtAgain serde) := by
  have hkill : (firstBuilt serde).Outlives serde Session.raftDir .kill (restarted serde) :=
    Store.toOption_of_loaded rfl (loaded_encode _)
  refine .cons ⟨hkill, fun op heq => ?_⟩ (Store.run_of_quiet delivered_of_quiet (by decide) rfl)
  cases op <;> cases heq

variable (serde) in
/-- The snapshot of the first build. -/
def firstSnapshot : StoredSnapshot :=
  (firstBuilt serde).machine.sm.snapshot serde.sm serde.displayLeader 1

variable (serde) in
/-- It has replaced the state of a blank node. -/
def installing : Store :=
  { Session.blankStore with
    machine :=
      { Session.blankStore.machine with
        sm := (firstBuilt serde).machine.sm
        call := some ⟨.storeSnapshot (firstSnapshot serde),
          some (firstBuilt serde).machine.sm.decision⟩ } }

variable (serde) in
/-- The install has returned. -/
def snapshotInstalled : Store :=
  (installing serde).evaluated serde (.storeInstalled :: Store.finishSmCall)

theorem run_snapshotInstalled {sent : List StoredSnapshot} (hsent : firstSnapshot serde ∈ sent) :
    Run (fun s e s' => s.Outlives serde Session.raftDir e s' ∧
      Delivered serde oneDecision sent s e) Session.blankStore
    (.call (.install (firstSnapshot serde).info (firstSnapshot serde).data) ::
      (.storeInstalled :: Store.finishSmCall).map .call) (snapshotInstalled serde) := by
  have hdecode : serde.sm.decode (firstSnapshot serde).data = .ok (firstBuilt serde).machine.sm :=
    serde.sm.decode_encode _
  have hinstall : Session.blankStore.Outlives serde Session.raftDir
      (.call (.install (firstSnapshot serde).info (firstSnapshot serde).data))
      (installing serde) := by
    have hcall : Session.blankStore.machine.call = none := rfl
    simp [Store.Outlives, Store.outlive, Store.after, hcall, hdecode, installing]
  refine .cons ⟨hinstall, fun op heq => ?_⟩ (Store.run_of_quiet delivered_of_quiet (by decide) rfl)
  cases op <;> cases heq
  exact ⟨fun sm _ => Nat.zero_le _, hsent⟩

/-- A node builds a snapshot and sends it; another one installs it; the first one starts
again, numbers its snapshots from one, and builds another. -/
theorem replayed_of_run_builtAgain : ∃ (c : Replicas Bool) (first second : StoredSnapshot),
    Reachable (Started Session.numbered fun _ => Session.raftDir)
      (Step Session.numbered (fun _ => Session.raftDir) oneDecision) c ∧
    (c.stores true).machine.getCurrentSnapshot = some first ∧
    (c.stores false).machine.getCurrentSnapshot = some second ∧
    first.info.snapshotId = second.info.snapshotId ∧ first = second ∧
    ∀ i, (c.stores i).machine.sm =
      oneDecision.replay (indexAfter (c.stores i).machine.sm.lastApplied) := by
  let serde := Session.numbered
  let second := (builtAgain serde).machine.sm.snapshot serde.sm serde.displayLeader 1
  let built : Bool → Store :=
    Function.update (fun _ => Session.blankStore) false (firstBuilt serde)
  let installed : Bool → Store := Function.update built true (snapshotInstalled serde)
  let again : Bool → Store := Function.update installed false (builtAgain serde)
  have hbuilt : Run (Step serde (fun _ => Session.raftDir) oneDecision)
      ⟨fun _ => Session.blankStore, []⟩ _ ⟨built, []⟩ :=
    run_node run_firstBuilt rfl
  have hsend : Step serde (fun _ => Session.raftDir) oneDecision ⟨built, []⟩ (.send false)
      ⟨built, [firstSnapshot serde]⟩ :=
    ⟨firstSnapshot serde, by simp only [built, Function.update_self]; rfl, rfl⟩
  have hinstalled : Run (Step serde (fun _ => Session.raftDir) oneDecision)
      ⟨built, [firstSnapshot serde]⟩ _ ⟨installed, [firstSnapshot serde]⟩ :=
    run_node (run_snapshotInstalled List.mem_cons_self) (Function.update_of_ne (by decide) ..)
  have hagain : Run (Step serde (fun _ => Session.raftDir) oneDecision)
      ⟨installed, [firstSnapshot serde]⟩ _ ⟨again, [firstSnapshot serde]⟩ :=
    run_node run_builtAgain ((Function.update_of_ne (by decide) ..).trans
      (Function.update_self ..))
  have hreach : Reachable (Started serde fun _ => Session.raftDir)
      (Step serde (fun _ => Session.raftDir) oneDecision) ⟨again, [firstSnapshot serde]⟩ :=
    ⟨_, _, ⟨fun _ => Store.fresh_blankStore, rfl⟩,
      hbuilt.append (.cons hsend (hinstalled.append hagain))⟩
  have hfirst : (again true).machine.getCurrentSnapshot = some (firstSnapshot serde) := by
    simp only [again, installed, Function.update_self,
      Function.update_of_ne (show true ≠ false by decide)]
    rfl
  have hsecond : (again false).machine.getCurrentSnapshot = some second := by
    simp only [again, Function.update_self]
    rfl
  obtain ⟨hstates, hequal⟩ := replayed_of_run hreach
  exact ⟨_, _, second, hreach, hfirst, hsecond, rfl,
    hequal _ second (Or.inr ⟨true, hfirst⟩) (Or.inr ⟨false, hsecond⟩) rfl, fun i => (hstates i).1⟩

end Replicas

end PgReplica
