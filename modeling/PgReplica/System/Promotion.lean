import PgReplica.System.Probing

/-! # Acknowledged positions and the nodes that are promoted

An acknowledged position is on a majority, a leader measures a majority, and the
most advanced node it finds is at least as far as the node in both. This covers
what was acknowledged before the first probe. From then on the old primary may
acknowledge further positions through standbys that were measured already, or
through others once the choice is made; nothing in the code ties those to the
chosen node.
-/

namespace PgReplica

open Foundation

namespace World

variable {c : ClusterConfig} {w w' : World c}

/-- The node may still be promoted: a decision that names it is waiting to be
committed, applied or acted upon, or its promotion is under way. -/
@[mk_iff] inductive Outstanding (w : World c) (j : c.Voter) : Prop
  | pending (e : Entry) (hmem : e ∈ w.pending) (hnames : e.decision.primary = j)
  | committed (e : Entry) (hmem : e ∈ w.log.drop (w.applied j)) (hnames : e.decision.primary = j)
  | applied (hnames : Names (w.sharedDecision j) j)
  | held (hnames : Names (w.members j).node.sup.decided j)
  | requested (hrequested : (w.members j).promoteRequested = true)

instance (w : World c) (j : c.Voter) : Decidable (w.Outstanding j) :=
  decidable_of_iff _ (outstanding_iff w j).symm

/-- The nodes that hold a position. -/
def holders (w : World c) (position : Nat) : List c.Voter :=
  c.nodes.filter fun j => decide (position ≤ (w.members j).wal)

/-- What a supervisor believes about recovery states is true where it says that a
node is out of recovery. -/
def TracksVoters (w : World c) (s : Supervisor) : Prop :=
  ∀ id entry, s.peers.peersLsn.lookup id = some entry →
    ∃ j : c.Voter, j = id ∧ (entry.inRecovery = false → (w.members j).inRecovery = false)

/-- Two majorities meet. -/
theorem exists_mem_of_majorities {holders : List c.Voter} {ids : List Nat}
    (hholdersNodup : holders.Nodup) (hholders : c.majority ≤ holders.length)
    (hnodup : ids.Nodup) (hvoters : ids ⊆ c.voters) (hmajority : c.majority ≤ ids.length) :
    ∃ j ∈ holders, ↑j ∈ ids := by
  have hvaluesNodup : (holders.map Subtype.val).Nodup :=
    (List.nodup_map_iff Subtype.val_injective).mpr hholdersNodup
  have hvalues : holders.map Subtype.val ⊆ c.voters := by
    intro id hid
    obtain ⟨j, -, rfl⟩ := List.mem_map.mp hid
    exact j.2
  have hlarge : c.voters.length < ids.length + (holders.map Subtype.val).length := by
    rw [List.length_map]
    have := c.length_nodes_lt
    rw [c.length_nodes] at this
    omega
  obtain ⟨id, hid, hholder⟩ := exists_mem_of_length_lt hnodup hvaluesNodup hvoters hvalues hlarge
  obtain ⟨j, hj, rfl⟩ := List.mem_map.mp hholder
  exact ⟨j, hj, hid⟩

/-! ## Steps of the world -/

/-- Positions only grow, and no node re-enters recovery. -/
structure Advances (w w' : World c) : Prop where
  wal : ∀ j, (w.members j).wal ≤ (w'.members j).wal
  inRecovery : ∀ j, (w'.members j).inRecovery = true → (w.members j).inRecovery = true

theorem advances_step {e : Event c} (hstep : Step w e w') : w.Advances w' := by
  have hmember := memberStep_of_step hstep
  constructor
  · intro j
    cases hmember j with
    | ticked inp hevent hadmits hmember => rw [hmember, tickedMember]
    | restarted now hevent hmember => rw [hmember, restartedMember]
    | left hrecovery hrequested hmember => rw [hmember]
    | kept hnode hrecovery hrequested hwal => exact hwal
  · intro j hrecovery'
    cases hmember j with
    | ticked inp hevent hadmits hmember => rwa [hmember] at hrecovery'
    | restarted now hevent hmember => rwa [hmember] at hrecovery'
    | left hrecovery => exact hrecovery
    | kept hnode hrecovery => rwa [hrecovery] at hrecovery'

@[simp] theorem tick_wal (i j : c.Voter) (inp : TickInput) :
    ((w.tick i inp).members j).wal = (w.members j).wal := by
  change ((w.setMember i _).members j).wal = _
  by_cases heq : j = i
  · subst heq
    rw [setMember_members_self, tickedMember]
  · rw [setMember_members_of_ne heq]

@[simp] theorem tick_inRecovery (i j : c.Voter) (inp : TickInput) :
    ((w.tick i inp).members j).inRecovery = (w.members j).inRecovery := by
  change ((w.setMember i _).members j).inRecovery = _
  by_cases heq : j = i
  · subst heq
    rw [setMember_members_self, tickedMember]
  · rw [setMember_members_of_ne heq]

theorem advances_tick (i : c.Voter) (inp : TickInput) : w.Advances (w.tick i inp) :=
  ⟨fun j => (tick_wal i j inp).ge, fun j hrecovery => by rwa [tick_inRecovery] at hrecovery⟩

theorem TracksVoters.mono {s : Supervisor} (htracks : w.TracksVoters s)
    (hadvances : w.Advances w') : w'.TracksVoters s := by
  intro id entry hlookup
  obtain ⟨j, hj, hrecovery⟩ := htracks id entry hlookup
  refine ⟨j, hj, fun hentry => Bool.eq_false_of_not_eq_true fun hin => ?_⟩
  have hout := hadvances.inRecovery j hin
  rw [hrecovery hentry] at hout
  cases hout

theorem holders_length_mono (hadvances : w.Advances w') (a : Nat) :
    (w.holders a).length ≤ (w'.holders a).length := by
  refine (List.subperm_of_subset (c.nodup_nodes.filter _) fun j hj => ?_).length_le
  obtain ⟨hmem, hholds⟩ := List.mem_filter.mp hj
  refine List.mem_filter.mpr ⟨hmem, ?_⟩
  exact decide_eq_true ((of_decide_eq_true hholds).trans (hadvances.wal j))

/-! ## Who may still be promoted after a step -/

/-- `pg_promote` is issued only by a node that its decision names. -/
theorem names_of_promote {i : c.Voter} {inp : TickInput}
    (hpromote : (w.report i inp).promote.any SqlOutcome.tookEffect = true) :
    Names (w.prepared i inp).decided i := by
  have hpromotes : ((w.members i).node.sup.lead (c.config i) inp).promotes
      (c.config i) = true := by
    by_contra hno
    simp [World.report, Node.report, hno] at hpromote
  have hself := (Bool.and_eq_true_iff.mp hpromotes).1
  exact Supervisor.exists_decided_of_decidedPrimary_eq (c.config i).nodeId_ne_zero
    (beq_iff_eq.mp hself)

/-- A decision that a tick acts under was held before or is the one it has read. -/
theorem outstanding_or_of_prepared {i : c.Voter} {inp : TickInput}
    (hnames : Names (w.prepared i inp).decided i) :
    w.Outstanding i ∨ Names inp.currentDecision i := by
  rcases prepared_decided_eq_held_or i inp with heq | heq
  · exact Or.inl (.held (heq ▸ hnames))
  · exact Or.inr (heq ▸ hnames)

/-- Only a proposal of the tick and the decision it has read make a node that could not
be promoted one that can. -/
theorem outstanding_of_tick {i j : c.Voter} {inp : TickInput}
    (houtstanding : (w.tick i inp).Outstanding j) : w.Outstanding j ∨
      (j = i ∧ Names inp.currentDecision i) ∨
        ∃ entry ∈ w.proposed i inp, entry.decision.primary = j := by
  have hmember : j = i ∧ (w.tick i inp).members j = w.tickedMember i inp ∨
      (w.tick i inp).members j = w.members j := by
    by_cases heq : j = i
    · subst heq
      exact Or.inl ⟨rfl, setMember_members_self _ _⟩
    · exact Or.inr (setMember_members_of_ne heq _)
  cases houtstanding with
  | pending entry hmem hnames =>
      rcases List.mem_append.mp hmem with hold | hnew
      · exact Or.inl (.pending entry hold hnames)
      · exact Or.inr (Or.inr ⟨entry, hnew, hnames⟩)
  | committed entry hmem hnames => exact Or.inl (.committed entry hmem hnames)
  | applied hnames => exact Or.inl (.applied hnames)
  | held hnames =>
      rcases hmember with ⟨rfl, hmember⟩ | hmember
      · rw [hmember, tickedMember, Node.tick_decided] at hnames
        exact (outstanding_or_of_prepared hnames).imp_right fun hread => Or.inl ⟨rfl, hread⟩
      · exact Or.inl (.held (hmember ▸ hnames))
  | requested hrequested =>
      rcases hmember with ⟨rfl, hmember⟩ | hmember
      · rw [hmember] at hrequested
        rcases Bool.or_eq_true_iff.mp hrequested with hold | hnew
        · exact Or.inl (.requested hold)
        · exact (outstanding_or_of_prepared (names_of_promote hnew)).imp_right
            fun hread => Or.inl ⟨rfl, hread⟩
      · exact Or.inl (.requested (hmember ▸ hrequested))

theorem requested_of_step {e : Event c} (hevent : e.isTick = false) {j : c.Voter}
    (hstep : Step w e w') (hrequested' : (w'.members j).promoteRequested = true) :
    (w.members j).promoteRequested = true := by
  cases memberStep_of_step hstep j with
  | ticked inp htick =>
      rw [htick] at hevent
      cases hevent
  | restarted now _ hmember => rwa [hmember] at hrequested'
  | left hrecovery hrequested hmember =>
      rw [hmember] at hrequested'
      cases hrequested'
  | kept hnode hrecovery hrequested => rwa [hrequested] at hrequested'

theorem outstanding_of_step {e : Event c} (hevent : e.isTick = false) {j : c.Voter}
    (happliedLe : w.AppliedLe) (hstep : Step w e w') (houtstanding : w'.Outstanding j) :
    w.Outstanding j := by
  cases houtstanding with
  | pending entry hmem hnames =>
      rcases mem_pending_of_step hstep hmem with hold | ⟨i, inp, htick, -⟩
      · exact .pending entry hold hnames
      · rw [htick] at hevent
        cases hevent
  | committed entry hmem hnames =>
      rcases mem_unapplied_of_step happliedLe hstep hmem with hold | hpending
      · exact .committed entry hold hnames
      · exact .pending entry hpending hnames
  | applied hnames =>
      rcases sharedDecision_of_step happliedLe hstep j with heq | ⟨entry, hmem, heq⟩
      · exact .applied (heq ▸ hnames)
      · obtain ⟨d, hd, hprimary⟩ := heq ▸ hnames
        exact .committed entry hmem (Option.some.inj hd ▸ hprimary)
  | held hnames =>
      rcases decided_of_step hstep j with heq | heq
      · exact .held (heq ▸ hnames)
      · exact .applied (heq ▸ hnames)
  | requested hrequested => exact .requested (requested_of_step hevent hstep hrequested)

/-! ## Acknowledgements -/

/-- The acknowledging primary and the standbys that let it acknowledge are a majority. -/
theorem majority_le_holders {i : c.Voter} {position : Nat}
    (hwal : position ≤ (w.members i).wal)
    (hquorum : c.syncQuorum ≤ (w.holdingStandbys i position).length) :
    c.majority ≤ (w.holders position).length := by
  have hnodup : (i :: w.holdingStandbys i position).Nodup := by
    refine List.nodup_cons.mpr ⟨fun hself => ?_, c.nodup_nodes.filter _⟩
    simpa using (List.mem_filter.mp hself).2
  have hsub : i :: w.holdingStandbys i position ⊆ w.holders position := by
    intro j hj
    refine List.mem_filter.mpr ⟨c.mem_nodes j, ?_⟩
    rcases List.mem_cons.mp hj with rfl | hstandby
    · exact decide_eq_true hwal
    · exact (Bool.and_eq_true_iff.mp (List.mem_filter.mp hstandby).2).2
  have hlength := (List.subperm_of_subset hnodup hsub).length_le
  rw [List.length_cons] at hlength
  rw [ClusterConfig.syncQuorum] at hquorum
  omega

/-- An acknowledged position of the next state was acknowledged before or is the
position of this step. -/
theorem mem_acked_of_step {e : Event c} (hstep : Step w e w') {a : Nat} (ha : a ∈ w'.acked) :
    a ∈ w.acked ∨ ∃ i, e = .ack i a := by
  cases e with
  | ack i position =>
      obtain ⟨-, rfl⟩ := step_ack_iff.mp hstep
      rcases List.mem_cons.mp ha with rfl | hold
      · exact Or.inr ⟨i, rfl⟩
      · exact Or.inl hold
  | tick i inp =>
      obtain ⟨-, rfl⟩ := step_tick_iff.mp hstep
      exact Or.inl ha
  | commit k =>
      obtain ⟨entry, -, rfl⟩ := step_commit_iff.mp hstep
      exact Or.inl ha
  | apply i =>
      obtain ⟨-, rfl⟩ := step_apply_iff.mp hstep
      exact Or.inl ha
  | leaveRecovery i =>
      obtain ⟨-, rfl⟩ := step_leaveRecovery_iff.mp hstep
      exact Or.inl ha
  | restart i now =>
      obtain rfl := step_restart_iff.mp hstep
      exact Or.inl ha
  | write i =>
      obtain ⟨-, rfl⟩ := step_write_iff.mp hstep
      exact Or.inl ha
  | ship source target =>
      obtain ⟨-, rfl⟩ := step_ship_iff.mp hstep
      exact Or.inl ha

end World

namespace ProbingWorld

variable {c : ClusterConfig} {pw pw' : ProbingWorld c}

/-! ## What the runs must observe -/

/-- As in the world; the decision may also have been read by a tick that is under way. -/
def Outstanding (pw : ProbingWorld c) (j : c.Voter) : Prop :=
  pw.world.Outstanding j ∨ ∃ t ∈ pw.begun j, Names t.currentDecision j

instance (pw : ProbingWorld c) (j : c.Voter) : Decidable (pw.Outstanding j) :=
  inferInstanceAs (Decidable (_ ∨ ∃ t ∈ pw.begun j, Names t.currentDecision j))

/-- The nodes that hold a position and that the tick has not measured below it. -/
def notMeasuredBelow (w : World c) (t : BegunTick c) (position : Nat) : List c.Voter :=
  (w.holders position).filter fun j => (t.answers j).all fun answer => decide (position ≤ answer)

/-- Every standby that may still be promoted holds the position, and no tick under way
has measured so many nodes below it that it could choose one without it. -/
abbrev Covered (pw : ProbingWorld c) (position : Nat) : Prop :=
  (∀ j, (pw.world.members j).inRecovery = true → pw.Outstanding j →
    position ≤ (pw.world.members j).wal) ∧
    ∀ i, ∀ t ∈ pw.begun i, c.majority ≤ (notMeasuredBelow pw.world t position).length

/-- A leader that proposes its live primary again, while that one is still in recovery,
proposes a node that holds every acknowledged position. -/
abbrev ConfirmsHolder (w : World c) (i : c.Voter) (inp : TickInput) : Prop :=
  ∀ e ∈ w.proposed i inp, (w.prepared i inp).primaryAlive (c.config i) inp.leaderNow = true →
    ∀ j : c.Voter, e.decision.primary = j → (w.members j).inRecovery = true →
      ∀ a ∈ w.acked, a ≤ (w.members j).wal

/-- Neither an acknowledgement nor a confirmation passes by a standby that may be promoted. -/
def CoversOutstanding (pw : ProbingWorld c) : ProbingEvent c → Prop
  | .between (.ack _ position) => pw.Covered position
  | .endTick i inp => ConfirmsHolder pw.world i inp
  | _ => True

instance (pw : ProbingWorld c) : ∀ e, Decidable (pw.CoversOutstanding e)
  | .endTick i inp => inferInstanceAs (Decidable (ConfirmsHolder pw.world i inp))
  | .between (.ack _ position) => inferInstanceAs (Decidable (pw.Covered position))
  | .beginTick _ | .probe _ _ => isTrue trivial
  | .between (.tick ..) | .between (.commit _) | .between (.apply _)
  | .between (.leaveRecovery _) | .between (.restart ..) | .between (.write _)
  | .between (.ship ..) => isTrue trivial

/-- A truthful step whose acknowledgement or confirmation reaches every node that may
still be promoted. -/
structure CoveredStep (pw : ProbingWorld c) (e : ProbingEvent c) (pw' : ProbingWorld c) :
    Prop where
  step : Step pw e pw'
  truthful : pw.TruthfulStep e
  covers : pw.CoversOutstanding e

/-! ## The invariant -/

/-- What a tick has read still bounds what is there, and a majority of the holders of an
acknowledged position has not been measured below it. -/
structure Sound (w : World c) (i : c.Voter) (t : BegunTick c) : Prop where
  inRecovery : t.inRecovery = false → (w.members i).inRecovery = false
  answers : ∀ j p, t.answers j = some p → p ≤ (w.members j).wal
  copies : ∀ a ∈ w.acked, c.majority ≤ (notMeasuredBelow w t a).length

structure PromotionInvariant (pw : ProbingWorld c) : Prop where
  appliedLe : pw.world.AppliedLe
  tracks : ∀ i, pw.world.TracksVoters (pw.world.members i).node.sup
  copies : ∀ a ∈ pw.world.acked, c.majority ≤ (pw.world.holders a).length
  begun : ∀ i t, pw.begun i = some t → Sound pw.world i t
  outstanding : ∀ j, (pw.world.members j).inRecovery = true → pw.Outstanding j →
    ∀ a ∈ pw.world.acked, a ≤ (pw.world.members j).wal

theorem promotionInvariant_initial (hinit : pw.Initial) : pw.PromotionInvariant where
  appliedLe := hinit.1.appliedLe
  tracks i := by
    obtain ⟨now, hsup⟩ := hinit.1.started i
    rw [hsup]
    intro id entry hlookup
    simp [Supervisor.start] at hlookup
  copies := by simp [hinit.1.acked]
  begun i t hbegun := by simp [hinit.2 i] at hbegun
  outstanding := by simp [hinit.1.acked]

theorem nodup_notMeasuredBelow (w : World c) (t : BegunTick c) (a : Nat) :
    (notMeasuredBelow w t a).Nodup :=
  (c.nodup_nodes.filter _).filter _

theorem mem_notMeasuredBelow {w : World c} {t : BegunTick c} {a : Nat} {j : c.Voter} :
    j ∈ notMeasuredBelow w t a ↔
      a ≤ (w.members j).wal ∧ ∀ p, t.answers j = some p → a ≤ p := by
  simp [notMeasuredBelow, World.holders, c.mem_nodes, Option.all_eq_true, and_comm]

/-- Later answers do not exclude a node that holds the position. -/
theorem notMeasuredBelow_length_mono {w w' : World c} {t t' : BegunTick c} {a : Nat}
    (hkeeps : ∀ j, a ≤ (w.members j).wal → (∀ p, t.answers j = some p → a ≤ p) →
      a ≤ (w'.members j).wal ∧ ∀ p, t'.answers j = some p → a ≤ p) :
    (notMeasuredBelow w t a).length ≤ (notMeasuredBelow w' t' a).length := by
  refine (List.subperm_of_subset (nodup_notMeasuredBelow w t a) fun j hj => ?_).length_le
  obtain ⟨hholds, hanswers⟩ := mem_notMeasuredBelow.mp hj
  exact mem_notMeasuredBelow.mpr (hkeeps j hholds hanswers)

/-! ## Steps of a tick -/

theorem sound_reads (hinv : pw.PromotionInvariant) (i : c.Voter) :
    Sound pw.world i (pw.reads i) where
  inRecovery hrecovery := hrecovery
  answers := by simp [reads]
  copies a ha := by
    have hall : notMeasuredBelow pw.world (pw.reads i) a = pw.world.holders a := by
      simp [notMeasuredBelow, reads]
    rw [hall]
    exact hinv.copies a ha

theorem Sound.measure {w : World c} {i : c.Voter} {t : BegunTick c} (hsound : Sound w i t)
    (target : c.Voter) : Sound w i (t.measure target (w.members target).wal) where
  inRecovery := hsound.inRecovery
  answers j p hanswer := by
    change Function.update t.answers target _ j = some p at hanswer
    by_cases heq : j = target
    · rw [heq, Function.update_self] at hanswer
      rw [heq, ← Option.some.inj hanswer]
    · rw [Function.update_of_ne heq] at hanswer
      exact hsound.answers j p hanswer
  copies a ha := by
    refine (hsound.copies a ha).trans (notMeasuredBelow_length_mono fun j hholds hbelow => ?_)
    refine ⟨hholds, fun p hanswer => ?_⟩
    change Function.update t.answers target _ j = some p at hanswer
    by_cases heq : j = target
    · -- it is measured at what it holds
      rw [heq, Function.update_self] at hanswer
      rw [← Option.some.inj hanswer, ← heq]
      exact hholds
    · rw [Function.update_of_ne heq] at hanswer
      exact hbelow p hanswer

theorem Sound.mono {w w' : World c} {i : c.Voter} {t : BegunTick c} (hsound : Sound w i t)
    (hadvances : w.Advances w') (hacked : ∀ a ∈ w'.acked, a ∈ w.acked ∨
      c.majority ≤ (notMeasuredBelow w t a).length) : Sound w' i t where
  inRecovery hrecovery := by
    refine Bool.eq_false_iff.mpr fun hin => ?_
    have hout := hsound.inRecovery hrecovery
    rw [hadvances.inRecovery i hin] at hout
    cases hout
  answers j p hanswer := (hsound.answers j p hanswer).trans (hadvances.wal j)
  copies a ha := by
    have hmono : (notMeasuredBelow w t a).length ≤ (notMeasuredBelow w' t a).length :=
      notMeasuredBelow_length_mono fun j hholds hbelow =>
        ⟨hholds.trans (hadvances.wal j), hbelow⟩
    rcases hacked a ha with hold | hnew
    · exact (hsound.copies a hold).trans hmono
    · exact hnew.trans hmono

/-! ## The leader's choice -/

theorem tracksVoters_prepared (hinv : pw.PromotionInvariant) {i : c.Voter} {inp : TickInput}
    {t : BegunTick c} (hbegun : pw.begun i = some t) (hadmits : t.Admits inp)
    (htruthful : pw.Truthful t i inp) : pw.world.TracksVoters (pw.world.prepared i inp) := by
  apply Supervisor.prepare_peersLsn_invariant (hinv.tracks i)
  · intro m hm gossip hdecode
    exact ⟨⟨m.sender, hadmits.fromVoters m hm⟩, rfl,
      fun hrecovery => htruthful.inRecovery m hm gossip hdecode hrecovery _ rfl⟩
  · refine ⟨i, rfl, fun hrecovery => (hinv.begun i t hbegun).inRecovery ?_⟩
    rw [← hadmits.inRecovery]
    exact hrecovery

/-- A candidate is ranked at what its probe has answered. -/
theorem probe_lsn_eq_answer {i j : c.Voter} {inp : TickInput} {candidate : Candidate} {p : Nat}
    (hid : ↑j = candidate.id) (htold : inp.told i j = some p) :
    (Supervisor.probe (c.config i) inp candidate).lsn = p := by
  rw [TickInput.told] at htold
  split at htold
  next hself =>
    rw [Supervisor.probe_lsn_of_self (hid.symm.trans (congrArg Subtype.val hself))]
    exact Option.some.inj htold
  next hpeer =>
    apply Supervisor.probe_lsn_of_peer
    · exact fun hself => hpeer (Subtype.ext (hid.trans hself))
    · rw [← hid]
      exact c.voters_subset_members j.2
    · rwa [← hid]

/-- A node proposed instead of a lost primary holds every acknowledged position. -/
theorem acked_le_of_failover (hinv : pw.PromotionInvariant) {i j : c.Voter} {inp : TickInput}
    {t : BegunTick c} (hbegun : pw.begun i = some t) (hadmits : t.Admits inp)
    (htruthful : pw.Truthful t i inp)
    (hmeasures : (pw.world.prepared i inp).measuresLive (c.config i) inp = true)
    (hmajority : c.majority ≤
      ((pw.world.prepared i inp).live (c.config i) inp.leaderNow).length)
    (hchosen : choosePrimary (((pw.world.prepared i inp).live (c.config i) inp.leaderNow).map
      (Supervisor.probe (c.config i) inp)) = some ↑j) :
    ∀ a ∈ pw.world.acked, a ≤ (pw.world.members j).wal := by
  intro a ha
  have hsound := hinv.begun i t hbegun
  have hanswer : ∀ member ∈ (pw.world.prepared i inp).live (c.config i) inp.leaderNow,
      ∃ k : c.Voter, ↑k = member.id ∧ ∃ p, t.answers k = some p ∧
        (Supervisor.probe (c.config i) inp member).lsn = p := by
    intro member hmember
    obtain ⟨seen, hlookup, -⟩ := Supervisor.mem_live.mp hmember
    obtain ⟨k, hk, -⟩ := tracksVoters_prepared hinv hbegun hadmits htruthful _ _ hlookup
    obtain ⟨hsome, htold⟩ := htruthful.answered hmeasures k (hk ▸ List.mem_map_of_mem hmember)
    obtain ⟨p, hp⟩ := Option.isSome_iff_exists.mp hsome
    exact ⟨k, hk, p, hp, probe_lsn_eq_answer hk (htold.trans hp)⟩
  -- one of the measured nodes holds the position and was not measured below it
  obtain ⟨holder, hholder, hmeasured⟩ := World.exists_mem_of_majorities
    (nodup_notMeasuredBelow pw.world t a) (hsound.copies a ha)
    (Supervisor.nodup_live_ids (pw.world.prepared i inp) (c.config i) inp.leaderNow)
    (fun id hid => by
      obtain ⟨member, hmember, rfl⟩ := List.mem_map.mp hid
      obtain ⟨k, hk, -⟩ := hanswer member hmember
      exact hk ▸ k.2)
    (by rwa [List.length_map])
  obtain ⟨member, hlive, hid⟩ := List.mem_map.mp hmeasured
  obtain ⟨k, hk, p, hp, hlsn⟩ := hanswer member hlive
  obtain rfl : k = holder := Subtype.ext (hk.trans hid)
  -- the chosen node is measured no lower
  obtain ⟨best, hbest, hbestId, hahead⟩ := exists_of_choosePrimary hchosen
  obtain ⟨chosen, hchosenLive, rfl⟩ := List.mem_map.mp hbest
  obtain ⟨k', hk', p', hp', hlsn'⟩ := hanswer chosen hchosenLive
  obtain rfl : k' = j := Subtype.ext (hk'.trans hbestId)
  calc a ≤ p := (mem_notMeasuredBelow.mp hholder).2 p hp
    _ = (Supervisor.probe (c.config i) inp member).lsn := hlsn.symm
    _ ≤ (Supervisor.probe (c.config i) inp chosen).lsn := hahead _ (List.mem_map_of_mem hlive)
    _ = p' := hlsn'
    _ ≤ (pw.world.members k').wal := hsound.answers k' p' hp'

/-- Every standby that a tick proposes holds every acknowledged position. -/
theorem acked_le_of_proposed (hinv : pw.PromotionInvariant) {i j : c.Voter} {inp : TickInput}
    {t : BegunTick c} (hbegun : pw.begun i = some t) (hadmits : t.Admits inp)
    (htruthful : pw.Truthful t i inp) (hcovers : ConfirmsHolder pw.world i inp) {e : Entry}
    (he : e ∈ pw.world.proposed i inp) (hnames : e.decision.primary = j)
    (hrecovery : (pw.world.members j).inRecovery = true) :
    ∀ a ∈ pw.world.acked, a ≤ (pw.world.members j).wal := by
  have hmem := he
  simp only [World.proposed, Option.mem_toList, Option.map_eq_some_iff] at he
  obtain ⟨d, hproposal, rfl⟩ := he
  obtain ⟨hleader, hmajority, hby⟩ := Supervisor.proposal_eq_some hproposal
  rw [show d.primary = j from hnames] at hby
  cases hby with
  | bootstrap _ member hlive hmember hid =>
      -- the proposed node is out of recovery
      obtain ⟨seen, hlookup, -⟩ := Supervisor.mem_live.mp hlive
      obtain ⟨k, hk, htrue⟩ := tracksVoters_prepared hinv hbegun hadmits htruthful _ _ hlookup
      obtain rfl : k = j := Subtype.ext (hk.trans hid)
      rw [htrue hmember] at hrecovery
      cases hrecovery
  | failover hdecided hlost hchosen =>
      have hmeasures : (pw.world.prepared i inp).measuresLive (c.config i) inp = true := by
        have hsome : (pw.world.prepared i inp).decided.isSome = true := hdecided
        have hgone : (pw.world.prepared i inp).primaryAlive (c.config i) inp.leaderNow = false :=
          hlost
        rw [Supervisor.measuresLive, hleader, hsome, hgone]
        rfl
      exact acked_le_of_failover hinv hbegun hadmits htruthful hmeasures hmajority hchosen
  | ratify halive hasked hheld => exact hcovers _ hmem halive j hnames hrecovery

/-! ## Runs -/

theorem tracks_endTick (hinv : pw.PromotionInvariant) {i : c.Voter} {inp : TickInput}
    {t : BegunTick c} (hbegun : pw.begun i = some t) (hadmits : t.Admits inp)
    (htruthful : pw.Truthful t i inp) (j : c.Voter) :
    (pw.world.tick i inp).TracksVoters ((pw.world.tick i inp).members j).node.sup := by
  refine World.TracksVoters.mono ?_ (World.advances_tick i inp)
  change pw.world.TracksVoters ((pw.world.setMember i _).members j).node.sup
  by_cases heq : j = i
  · subst heq
    rw [World.setMember_members_self, World.TracksVoters, World.tickedMember, Node.tick_peers]
    exact tracksVoters_prepared hinv hbegun hadmits htruthful
  · rw [World.setMember_members_of_ne heq]
    exact hinv.tracks j

theorem tracks_between (hinv : pw.PromotionInvariant) {e : Event c} (hevent : e.isTick = false)
    {w : World c} (hstep : World.Step pw.world e w) (j : c.Voter) :
    w.TracksVoters (w.members j).node.sup := by
  refine World.TracksVoters.mono ?_ (World.advances_step hstep)
  cases World.memberStep_of_step hstep j with
  | ticked inp htick =>
      rw [htick] at hevent
      cases hevent
  | restarted now _ hmember =>
      rw [hmember]
      intro id entry hlookup
      simp [World.restartedMember, Supervisor.start] at hlookup
  | left hrecovery hrequested hmember =>
      rw [hmember]
      exact hinv.tracks j
  | kept hnode =>
      rw [hnode]
      exact hinv.tracks j

/-- A tick begins or goes on, with answers that are sound. -/
theorem promotionInvariant_setBegun (hinv : pw.PromotionInvariant) {i : c.Voter}
    {t : BegunTick c} (hsound : Sound pw.world i t)
    (hread : Names t.currentDecision i → pw.Outstanding i) :
    (pw.setBegun i (some t)).PromotionInvariant where
  appliedLe := hinv.appliedLe
  tracks := hinv.tracks
  copies := hinv.copies
  begun j t' hbegun := by
    rcases begun_of_setBegun hbegun with ⟨rfl, hself⟩ | hother
    · exact Option.some.inj hself ▸ hsound
    · exact hinv.begun j t' hother
  outstanding j hrecovery houtstanding := by
    refine hinv.outstanding j hrecovery ?_
    rcases houtstanding with hworld | ⟨t', hbegun, hnames⟩
    · exact Or.inl hworld
    · rcases begun_of_setBegun hbegun with ⟨rfl, hself⟩ | hother
      · rw [← Option.some.inj hself] at hnames
        exact hread hnames
      · exact Or.inr ⟨t', hother, hnames⟩

theorem promotionInvariant_endTick (hinv : pw.PromotionInvariant) {i : c.Voter}
    {inp : TickInput} {t : BegunTick c} (hbegun : pw.begun i = some t) (hadmits : t.Admits inp)
    (htruthful : pw.Truthful t i inp) (hcovers : ConfirmsHolder pw.world i inp) :
    ({ pw.setBegun i none with world := pw.world.tick i inp } :
      ProbingWorld c).PromotionInvariant := by
  have hadvances := World.advances_tick (w := pw.world) i inp
  have hothers : ∀ j t', (pw.setBegun i none).begun j = some t' → pw.begun j = some t' := by
    intro j t' hbegun'
    rcases begun_of_setBegun hbegun' with ⟨-, hself⟩ | hother
    · cases hself
    · exact hother
  refine ⟨hinv.appliedLe, tracks_endTick hinv hbegun hadmits htruthful, fun a ha => ?_,
    fun j t' hbegun' => ?_, fun j hrecovery houtstanding a ha => ?_⟩
  · exact (hinv.copies a ha).trans (World.holders_length_mono hadvances a)
  · exact (hinv.begun j t' (hothers j t' hbegun')).mono hadvances fun a ha => Or.inl ha
  · have hin : (pw.world.members j).inRecovery = true := hadvances.inRecovery j hrecovery
    refine le_trans ?_ (hadvances.wal j)
    rcases houtstanding with hworld | ⟨t', hbegun', hnames⟩
    · rcases World.outstanding_of_tick hworld with hbefore | ⟨rfl, hread⟩ | ⟨entry, hentry, hnames⟩
      · exact hinv.outstanding j hin (Or.inl hbefore) a ha
      · rw [hadmits.currentDecision] at hread
        exact hinv.outstanding j hin (Or.inr ⟨t, hbegun, hread⟩) a ha
      · -- it was proposed just now: the leader has measured a majority
        exact acked_le_of_proposed hinv hbegun hadmits htruthful hcovers hentry hnames hin a ha
    · exact hinv.outstanding j hin (Or.inr ⟨t', hothers j t' hbegun', hnames⟩) a ha

theorem promotionInvariant_between (hinv : pw.PromotionInvariant) {e : Event c}
    (hevent : e.isTick = false) {w : World c} (hstep : World.Step pw.world e w)
    (hcovers : pw.CoversOutstanding (.between e)) :
    (⟨w, pw.begunAfter e⟩ : ProbingWorld c).PromotionInvariant := by
  have hadvances := World.advances_step hstep
  have hnew : ∀ a ∈ w.acked, a ∈ pw.world.acked ∨ pw.Covered a := by
    intro a ha
    rcases World.mem_acked_of_step hstep ha with hold | ⟨i, rfl⟩
    · exact Or.inl hold
    · exact Or.inr hcovers
  refine ⟨hinv.appliedLe.step hstep, tracks_between hinv hevent hstep, fun a ha => ?_,
    fun i t hbegun => ?_, fun j hrecovery houtstanding a ha => ?_⟩
  · refine le_trans ?_ (World.holders_length_mono hadvances a)
    rcases World.mem_acked_of_step hstep ha with hold | ⟨i, rfl⟩
    · exact hinv.copies a hold
    · obtain ⟨⟨-, hwal, hquorum⟩, -⟩ := World.step_ack_iff.mp hstep
      exact World.majority_le_holders hwal hquorum
  · have hbefore := begun_of_begunAfter hbegun
    refine (hinv.begun i t hbefore).mono hadvances fun a ha => ?_
    exact (hnew a ha).imp_right fun hcovered => hcovered.2 i t hbefore
  · have hin := hadvances.inRecovery j hrecovery
    have hbefore : pw.Outstanding j := by
      rcases houtstanding with hworld | ⟨t, hbegun, hnames⟩
      · exact Or.inl (World.outstanding_of_step hevent hinv.appliedLe hstep hworld)
      · exact Or.inr ⟨t, begun_of_begunAfter hbegun, hnames⟩
    refine le_trans ?_ (hadvances.wal j)
    rcases hnew a ha with hold | hcovered
    · exact hinv.outstanding j hin hbefore a hold
    · exact hcovered.1 j hin hbefore

theorem promotionInvariant_step {e : ProbingEvent c} (hinv : pw.PromotionInvariant)
    (hstep : CoveredStep pw e pw') : pw'.PromotionInvariant := by
  obtain ⟨hstep, htruthful, hcovers⟩ := hstep
  cases e with
  | beginTick i =>
      obtain ⟨-, rfl⟩ := step_beginTick_iff.mp hstep
      -- the decision that the tick reads is the applied one
      exact promotionInvariant_setBegun hinv (sound_reads hinv i) fun hread =>
        Or.inl (.applied hread)
  | probe i target =>
      obtain ⟨t, hbegun, -, rfl⟩ := step_probe_iff.mp hstep
      exact promotionInvariant_setBegun hinv ((hinv.begun i t hbegun).measure target)
        fun hread => Or.inr ⟨t, hbegun, hread⟩
  | endTick i inp =>
      obtain ⟨t, hbegun, hadmits, rfl⟩ := step_endTick_iff.mp hstep
      exact promotionInvariant_endTick hinv hbegun hadmits (htruthful t hbegun) hcovers
  | between e =>
      obtain ⟨hevent, w, hworld, rfl⟩ := step_between_iff.mp hstep
      exact promotionInvariant_between hinv hevent hworld hcovers

/-- In a run whose acknowledgements reach every standby that may still be promoted or
chosen, every node that is promoted holds everything acknowledged before. -/
theorem acked_le_of_leaveRecovery {pw₀ : ProbingWorld c} {events : List (ProbingEvent c)}
    (hinit : pw₀.Initial) (hrun : Run CoveredStep pw₀ events pw) {j : c.Voter}
    (hpromoted : Step pw (.between (.leaveRecovery j)) pw') :
    ∀ a ∈ pw.world.acked, a ≤ (pw'.world.members j).wal := by
  intro a ha
  have hinv : pw.PromotionInvariant := by
    refine Run.invariant (I := PromotionInvariant) ?_ hrun (promotionInvariant_initial hinit)
    exact fun _ _ _ hinv hstep => promotionInvariant_step hinv hstep
  obtain ⟨-, w, hworld, rfl⟩ := step_between_iff.mp hpromoted
  obtain ⟨⟨hrecovery, hrequested⟩, -⟩ := World.step_leaveRecovery_iff.mp hworld
  calc a ≤ (pw.world.members j).wal :=
        hinv.outstanding j hrecovery (Or.inl (.requested hrequested)) a ha
    _ ≤ (w.members j).wal := (World.advances_step hworld).wal j

/-- Node 1 is confirmed as the primary and hears nodes 2, 3 and 4. -/
def primaryConfirmed : List (Event fiveNodes) :=
  [.tick (five 1) (.probing (.plain 100 (heard 100 [2, 3, 4]) none) 1 fun _ => 0),
    .tick (five 5) (.probing (.leading (.standby (.plain 100
      (.gossip 1 100 0 false 0 :: heard 100 [2, 3]) none))) 5 fun _ => 0),
    .commit 0, .apply (five 1), .apply (five 2), .apply (five 3), .apply (five 5),
    .tick (five 1) (.probing (.plain 900 (heard 900 [2, 3, 4]) (some ⟨1, 1⟩)) 1 fun _ => 0),
    .tick (five 1) (.probing (.plain 1800 (heard 1800 [2, 3, 4]) (some ⟨1, 1⟩)) 1 fun _ => 0)]

/-- Node 1 writes, and acknowledges what nodes 3 and 4 hold. -/
def commitThroughStandbys : List (ProbingEvent fiveNodes) :=
  [.between (.write (five 1)), .between (.ship (five 1) (five 3)),
    .between (.ship (five 1) (five 4)), .between (.ack (five 1) 1)]

/-- Nodes 1, 3 and 4 are one position ahead. -/
def afterCommit (id : Nat) : Nat :=
  if id = 1 ∨ id = 3 ∨ id = 4 then 1 else 0

/-- The leader, which has lost node 1 and hears nodes 2, 3 and 4, proposes by these
answers. -/
def leaderProposes (wal : Nat → Nat) : ProbingEvent fiveNodes :=
  .endTick (five 5) (.probing (.leading (.standby
    (.plain 2700 (heard 2700 [2, 3, 4]) (some ⟨1, 1⟩)))) 5 wal)

/-- The chosen node applies the decision that names it and promotes itself. -/
def chosenPromotes (chosen : Nat) : List (ProbingEvent fiveNodes) :=
  [.commit 0, .apply (five chosen), .tick (five chosen)
    (.probing (.standby (.plain 2800 [] (some ⟨2, chosen⟩))) chosen afterCommit)].flatMap
      uninterrupted

/-- The run in which the leader has measured only node 2 when the position is
acknowledged. -/
theorem acked_le_measured_after_ack : ∃ pw pw' : ProbingWorld fiveNodes,
    Step pw (.between (.leaveRecovery (five 3))) pw' ∧ pw.world.acked = [1] ∧
      ∀ a ∈ pw.world.acked, a ≤ (pw'.world.members (five 3)).wal := by
  obtain ⟨pw, hrun, hend⟩ := @Run.exists_of_guarded _ _ after
    (fun pw e => pw.TruthfulStep e ∧ pw.CoversOutstanding e) _
    (idle (World.fresh fiveNodes (five 1)))
    (primaryConfirmed.flatMap uninterrupted ++ [.beginTick (five 5), .probe (five 5) (five 2)] ++
      commitThroughStandbys ++ [.probe (five 5) (five 3), .probe (five 5) (five 4),
        leaderProposes afterCommit] ++ chosenPromotes 3)
    (fun pw => decide ((pw.world.members (five 3)).inRecovery = true ∧
      (pw.world.members (five 3)).promoteRequested = true ∧ pw.world.acked = [1]))
    (by decide +kernel)
  obtain ⟨hrecovery, hrequested, hacked⟩ := of_decide_eq_true hend
  have hpromoted := step_between_iff.mpr ⟨rfl, _,
    World.step_leaveRecovery_iff.mpr ⟨⟨hrecovery, hrequested⟩, rfl⟩, rfl⟩
  refine ⟨pw, _, hpromoted, hacked, ?_⟩
  exact acked_le_of_leaveRecovery ⟨World.initial_fresh _, fun _ => rfl⟩
    (hrun.imp fun _ _ _ ⟨hstep, htruthful, hcovers⟩ => ⟨hstep, htruthful, hcovers⟩) hpromoted

/-- When the leader has measured them all, node 2 is chosen and promoted without the
position that node 1 acknowledges through nodes 3 and 4 before the proposal. -/
theorem not_acked_le_measured_before_ack :
    ¬ ∀ (c : ClusterConfig) (pw₀ pw pw' : ProbingWorld c) (events : List (ProbingEvent c))
      (j : c.Voter), c.synchronous = true → pw₀.Initial →
        Run (fun pw e pw' => Step pw e pw' ∧ pw.TruthfulStep e ∧ e.SqlSucceeds) pw₀ events pw →
          Step pw (.between (.leaveRecovery j)) pw' →
            ∀ a ∈ pw.world.acked, a ≤ (pw'.world.members j).wal := by
  intro hacked
  obtain ⟨pw, hrun, hend⟩ := @Run.exists_of_guarded _ _ after
    (fun pw e => pw.TruthfulStep e ∧ e.SqlSucceeds) _ (idle (World.fresh fiveNodes (five 1)))
    (primaryConfirmed.flatMap uninterrupted ++ [.beginTick (five 5), .probe (five 5) (five 2),
      .probe (five 5) (five 3), .probe (five 5) (five 4)] ++ commitThroughStandbys ++
        [leaderProposes fun _ => 0] ++ chosenPromotes 2)
    (fun pw => decide ((pw.world.members (five 2)).inRecovery = true ∧
      (pw.world.members (five 2)).promoteRequested = true ∧ pw.world.acked = [1] ∧
        (pw.world.members (five 2)).wal = 0)) (by decide +kernel)
  obtain ⟨hrecovery, hrequested, hack, hwal⟩ := of_decide_eq_true hend
  have hpromoted := step_between_iff.mpr ⟨rfl, _,
    World.step_leaveRecovery_iff.mpr ⟨⟨hrecovery, hrequested⟩, rfl⟩, rfl⟩
  have hle := hacked fiveNodes _ pw _ _ (five 2) rfl ⟨World.initial_fresh _, fun _ => rfl⟩ hrun
    hpromoted 1 (by simp [hack])
  rw [World.setMember_members_self] at hle
  simp [hwal] at hle

end ProbingWorld

end PgReplica
