import PgReplica.System.World

/-! # Sequence numbers along the decision log

A leader numbers its proposal after the decision it holds. It may hold an old
one, and a proposal may commit long after it was made; `apply` stores whatever
arrives. The numbers grow along the log exactly when every committed proposal was
made on top of the entry that precedes it.
-/

namespace PgReplica

open Foundation

/-- The entry's number follows the number of the decision it was computed from. -/
def Entry.Computed (e : Entry) : Prop :=
  e.decision.seq = (e.base.map Decision.seq).getD 0 + 1

/-- A held decision, if there is one, was committed. -/
def Known (log : List Entry) (held : Option Decision) : Prop :=
  ∀ d, held = some d → ∃ e ∈ log, e.decision = d

/-- Every entry was computed from nothing or from an entry before it. -/
inductive Grounded : List Entry → Prop
  | nil : Grounded []
  | snoc {log : List Entry} {e : Entry} (hlog : Grounded log) (hcomputed : e.Computed)
      (hbase : Known log e.base) : Grounded (log ++ [e])

/-- The numbers strictly increase along the log. -/
def SeqIncreasing (log : List Entry) : Prop :=
  log.Pairwise fun e e' => e.decision.seq < e'.decision.seq

/-- Every entry was computed from the decision right before it. -/
def Chained (log : List Entry) : Prop :=
  ∀ k e, log[k]? = some e → e.base = ((log.take k).getLast?).map Entry.decision

theorem Known.mono {log log' : List Entry} {held : Option Decision} (hsub : log ⊆ log')
    (hknown : Known log held) : Known log' held := by
  intro d hheld
  obtain ⟨e, he, hdecision⟩ := hknown d hheld
  exact ⟨e, hsub he, hdecision⟩

theorem known_none (log : List Entry) : Known log none := by
  rintro d ⟨⟩

theorem Entry.Computed.one_le {e : Entry} (hcomputed : e.Computed) : 1 ≤ e.decision.seq := by
  rw [Entry.Computed] at hcomputed
  omega

theorem chained_append_singleton {log : List Entry} {e : Entry} :
    Chained (log ++ [e]) ↔ Chained log ∧ e.base = (log.getLast?).map Entry.decision := by
  constructor
  · intro hchained
    refine ⟨fun k e' hk => ?_, ?_⟩
    · have hlt := (List.getElem?_eq_some_iff.mp hk).1
      have hbase := hchained k e' (by rw [List.getElem?_append_left hlt, hk])
      rwa [List.take_append_of_le_length hlt.le] at hbase
    · have hbase := hchained log.length e (by simp)
      rwa [List.take_left] at hbase
  · rintro ⟨hchained, hbase⟩ k e' hk
    by_cases hlt : k < log.length
    · rw [List.getElem?_append_left hlt] at hk
      rw [List.take_append_of_le_length hlt.le]
      exact hchained k e' hk
    · have hlength : k = log.length := by
        have := (List.getElem?_eq_some_iff.mp hk).1
        rw [List.length_append, List.length_singleton] at this
        omega
      subst hlength
      have heq : e = e' := by simpa using hk
      rw [List.take_left, ← heq, hbase]

theorem seqIncreasing_append_singleton {log : List Entry} {e : Entry} :
    SeqIncreasing (log ++ [e]) ↔
      SeqIncreasing log ∧ ∀ e' ∈ log, e'.decision.seq < e.decision.seq := by
  simp [SeqIncreasing, List.pairwise_append]

/-- On top of an increasing log, an entry is greater than all of it exactly when
it was computed from the last one. -/
theorem forall_seq_lt_iff {log : List Entry} {e : Entry} (hlog : Grounded log)
    (hcomputed : e.Computed) (hbase : Known log e.base) (hincreasing : SeqIncreasing log) :
    (∀ e' ∈ log, e'.decision.seq < e.decision.seq) ↔
      e.base = (log.getLast?).map Entry.decision := by
  rw [Entry.Computed] at hcomputed
  cases hlog with
  | nil =>
      cases hheld : e.base with
      | none => simp
      | some d => exact absurd (hbase d hheld) (by simp)
  | @snoc init last hinit hlast hlastBase =>
      have hbefore := (seqIncreasing_append_singleton.mp hincreasing).2
      rw [List.getLast?_concat, Option.map_some]
      constructor
      · intro hgreater
        have hlastLt := hgreater last (by simp)
        have hpos := hlast.one_le
        cases hheld : e.base with
        | none =>
            rw [hheld, Option.map_none, Option.getD_none] at hcomputed
            omega
        | some d =>
            obtain ⟨e', he', rfl⟩ := hbase d hheld
            rw [hheld, Option.map_some, Option.getD_some] at hcomputed
            rcases List.mem_append.mp he' with hold | hnew
            · -- an earlier base makes a number that the last entry already has
              have := hbefore e' hold
              omega
            · rw [List.mem_singleton.mp hnew]
      · intro hheld e' he'
        rw [hheld, Option.map_some, Option.getD_some] at hcomputed
        rcases List.mem_append.mp he' with hold | hnew
        · have := hbefore e' hold
          omega
        · rw [List.mem_singleton.mp hnew]
          omega

theorem Grounded.increasing_iff {log : List Entry} (hlog : Grounded log) :
    SeqIncreasing log ↔ Chained log := by
  induction hlog with
  | nil => exact iff_of_true List.Pairwise.nil fun k e hk => by simp at hk
  | snoc hlog hcomputed hbase ih =>
      rw [seqIncreasing_append_singleton, chained_append_singleton, ih]
      refine and_congr_right fun hchained => ?_
      exact forall_seq_lt_iff hlog hcomputed hbase (ih.mpr hchained)

namespace World

variable {c : ClusterConfig} {w w' : World c}

/-! ## The log of a run -/

/-- What nodes hold and what waits to be committed is known to the log. -/
structure LogInvariant (w : World c) : Prop where
  log : Grounded w.log
  held : ∀ i, Known w.log (w.members i).node.sup.decided
  pending : ∀ e ∈ w.pending, e.Computed ∧ Known w.log e.base

theorem known_sharedDecision (w : World c) (i : c.Voter) : Known w.log (w.sharedDecision i) := by
  intro d hshared
  obtain ⟨e, he, rfl⟩ := Option.map_eq_some_iff.mp hshared
  exact ⟨e, List.take_subset _ _ (List.mem_of_mem_getLast? (Option.mem_def.mpr he)), rfl⟩

theorem known_prepared_decided (hinv : w.LogInvariant) {i : c.Voter} {inp : TickInput}
    (hadmits : w.Admits i inp) : Known w.log (w.prepared i inp).decided := by
  rcases prepared_decided_eq_or hadmits with heq | heq
  · exact heq ▸ hinv.held i
  · exact heq ▸ w.known_sharedDecision i

/-- A proposal carries the decision its leader held and the number after it. -/
theorem computed_of_mem_proposed {i : c.Voter} {inp : TickInput} {e : Entry}
    (he : e ∈ w.proposed i inp) : e.base = (w.prepared i inp).decided ∧ e.Computed := by
  simp only [proposed, Option.mem_toList, Option.map_eq_some_iff] at he
  obtain ⟨d, hproposal, rfl⟩ := he
  refine ⟨rfl, ?_⟩
  change (w.prepared i inp).proposal (c.config i) inp = some d at hproposal
  rw [Supervisor.proposal_eq] at hproposal
  split at hproposal
  next =>
    obtain ⟨candidate, -, rfl⟩ := Option.map_eq_some_iff.mp hproposal
    rfl
  next => cases hproposal

theorem log_subset_of_step {e : Event c} (hstep : Step w e w') : w.log ⊆ w'.log := by
  cases logStep_of_step hstep with
  | proposed i inp hevent hadmits hlog => exact hlog ▸ List.Subset.refl _
  | committed k entry hentry hlog => exact hlog ▸ List.subset_append_left _ _
  | applied i hlt hlog => exact hlog ▸ List.Subset.refl _
  | kept hlog => exact hlog ▸ List.Subset.refl _

theorem grounded_of_step (hinv : w.LogInvariant) {e : Event c} (hstep : Step w e w') :
    Grounded w'.log := by
  cases logStep_of_step hstep with
  | proposed i inp hevent hadmits hlog => exact hlog ▸ hinv.log
  | committed k entry hentry hlog =>
      obtain ⟨hcomputed, hbase⟩ := hinv.pending entry (List.mem_of_getElem? hentry)
      exact hlog ▸ hinv.log.snoc hcomputed hbase
  | applied i hlt hlog => exact hlog ▸ hinv.log
  | kept hlog => exact hlog ▸ hinv.log

theorem logInvariant_step {e : Event c} (hinv : w.LogInvariant) (hstep : Step w e w') :
    w'.LogInvariant := by
  have hsub := log_subset_of_step hstep
  refine ⟨grounded_of_step hinv hstep, fun j => ?_, fun entry hmem => ?_⟩
  · rcases decided_of_step hstep j with heq | heq
    · exact heq ▸ (hinv.held j).mono hsub
    · exact heq ▸ (w.known_sharedDecision j).mono hsub
  · -- a new proposal is numbered after what its leader held
    rcases mem_pending_of_step hstep hmem with hold | ⟨i, inp, -, hadmits, hnew⟩
    · exact ⟨(hinv.pending entry hold).1, (hinv.pending entry hold).2.mono hsub⟩
    · obtain ⟨hbase, hcomputed⟩ := computed_of_mem_proposed hnew
      exact ⟨hcomputed, hbase ▸ (known_prepared_decided hinv hadmits).mono hsub⟩

theorem logInvariant_of_reachable (hreach : w.Reachable) : w.LogInvariant := by
  refine hreach.invariant (I := LogInvariant) ?_
    fun _ _ _ hinv hstep => logInvariant_step hinv hstep
  intro w hinit
  refine ⟨hinit.log ▸ .nil, fun i => ?_, fun e he => ?_⟩
  · obtain ⟨now, hsup⟩ := hinit.started i
    rw [hsup]
    exact known_none _
  · rw [hinit.pending] at he
    cases he

/-- The numbers strictly increase along the log of a run exactly when every
committed proposal was made by a leader that held the log's last decision. -/
theorem seqIncreasing_iff_chained (hreach : w.Reachable) : SeqIncreasing w.log ↔ Chained w.log :=
  (logInvariant_of_reachable hreach).log.increasing_iff

/-- Node 5 leads and proposes the undecided cluster's only node out of recovery. -/
def firstDecision : List (Event fiveNodes) :=
  [.tick (five 5) (.leading (.standby (.plain 100
      (.gossip 1 100 0 false 0 :: heard 100 [2, 3]) none))),
    .commit 0, .apply (five 5), .apply (five 4)]

/-- Node 5 replaces the lost primary by node 2. -/
def lostPrimaryReplaced : Event fiveNodes :=
  .tick (five 5) (.leading (.standby (.plain 2700 (heard 2700 [2, 3, 4]) (some ⟨1, 1⟩))))

/-- The log of a failover. -/
theorem seqIncreasing_iff_chained_failover : ∃ w : World fiveNodes,
    w.log.map Entry.decision = [⟨1, 1⟩, ⟨2, 2⟩] ∧ Chained w.log := by
  obtain ⟨w, hreach, hlog⟩ := @exists_reachable_of_any _ _
    (firstDecision ++ [lostPrimaryReplaced, .commit 0])
    (fun w => decide (w.log.map Entry.decision = [⟨1, 1⟩, ⟨2, 2⟩])) (initial_fresh (five 1))
    (by decide +kernel)
  refine ⟨w, of_decide_eq_true hlog, (seqIncreasing_iff_chained hreach).mp ?_⟩
  refine (List.pairwise_map (f := Entry.decision) (R := (·.seq < ·.seq))).mp ?_
  rw [of_decide_eq_true hlog]
  decide

/-- Before that decision commits, node 4 leads and replaces the primary by node 3. -/
def twoLeaders : List (Event fiveNodes) :=
  [lostPrimaryReplaced,
    .tick (five 4) (.leading (.standby (.plain 2800
      (.gossip 3 2800 10 true 1 :: heard 2800 [2, 5]) (some ⟨1, 1⟩)))),
    .commit 0, .commit 0]

/-- Two leaders make one number mean two primaries. -/
theorem not_seqIncreasing_of_two_leaders :
    ¬ ∀ (c : ClusterConfig) (w : World c), w.Reachable → SeqIncreasing w.log := by
  intro hincreasing
  obtain ⟨w, hreach, hlog⟩ := @exists_reachable_of_any _ _ (firstDecision ++ twoLeaders)
    (fun w => decide (w.log.map Entry.decision = [⟨1, 1⟩, ⟨2, 2⟩, ⟨2, 3⟩]))
    (initial_fresh (five 1)) (by decide +kernel)
  have hseqs := (List.pairwise_map (f := Entry.decision) (R := (·.seq < ·.seq))).mpr
    (hincreasing fiveNodes w hreach)
  rw [of_decide_eq_true hlog] at hseqs
  revert hseqs
  decide

end World

end PgReplica
