import PgReplica.Timed.Contact

/-! # An isolated primary is fenced before its successor opens

From the isolation on, the primary hears nobody. It is fenced when its lease runs
out. The others have heard it shortly before: for the rest of `dead_timeout` they
propose nobody else, and the node they then choose waits out the confirm window.
-/

namespace PgReplica

open Foundation

/-! ## Decisions that name one node -/

namespace World

variable {c : ClusterConfig} {w w' : World c} {P : c.Voter}

/-- Every node has applied a decision that names `P`, and every decision that a
supervisor holds, that is committed and not applied everywhere, or that is pending
names `P` as well. -/
@[mk_iff] structure Settled (w : World c) (P : c.Voter) : Prop where
  applied : ∀ i, Names (w.sharedDecision i) P
  held : ∀ i, ∀ d ∈ (w.members i).node.sup.decided, d.primary = P
  committed : ∀ i, ∀ e ∈ w.log.drop (w.applied i), e.decision.primary = P
  pending : ∀ e ∈ w.pending, e.decision.primary = P

instance (w : World c) (P : c.Voter) : Decidable (w.Settled P) :=
  decidable_of_iff _ (settled_iff w P).symm

/-- A cluster stays settled while only `P` is proposed. -/
theorem Settled.step (hsettled : w.Settled P) (happliedLe : w.AppliedLe) {e : Event c}
    (hstep : Step w e w') (hproposes : ∀ i inp, e = .tick i inp → w.Admits i inp →
      ∀ entry ∈ w.proposed i inp, entry.decision.primary = P) : w'.Settled P := by
  refine ⟨fun j => ?_, fun j d hd => ?_, fun j entry hmem => ?_, fun entry hmem => ?_⟩
  · rcases sharedDecision_of_step happliedLe hstep j with heq | ⟨entry, hmem, heq⟩
    · exact heq ▸ hsettled.applied j
    · exact heq ▸ ⟨_, rfl, hsettled.committed j entry hmem⟩
  · rcases decided_of_step hstep j with heq | heq
    · exact hsettled.held j d (heq ▸ hd)
    · obtain ⟨d', hd', hprimary⟩ := hsettled.applied j
      rw [heq, hd'] at hd
      exact Option.some.inj hd ▸ hprimary
  · rcases mem_unapplied_of_step happliedLe hstep hmem with hold | hpending
    · exact hsettled.committed j entry hold
    · exact hsettled.pending entry hpending
  · rcases mem_pending_of_step hstep hmem with hold | ⟨i, inp, hevent, hadmits, hnew⟩
    · exact hsettled.pending entry hold
    · exact hproposes i inp hevent hadmits entry hnew

/-- A tick acts under its node's applied decision, once there is one. -/
theorem prepared_decided {i : c.Voter} {inp : TickInput} (hadmits : w.Admits i inp)
    {d : Decision} (happlied : w.sharedDecision i = some d) :
    (w.prepared i inp).decided = some d :=
  @Supervisor.lead_decided_of_current _ (c.config i) _ _ (hadmits.currentDecision.trans happlied)

theorem primary_ne_zero (P : c.Voter) : (P : Nat) ≠ 0 :=
  fun hzero => c.zero_not_voter (hzero ▸ P.2)

/-- A leader that sees `P` proposes nobody else. -/
theorem proposed_of_seen (hsettled : w.Settled P) {i : c.Voter} {inp : TickInput}
    (hadmits : w.Admits i inp) {since : Nat} (hseen : (w.prepared i inp).peers.Seen P since)
    (hrecent : inp.leaderNow < since + deadTimeout) :
    ∀ entry ∈ w.proposed i inp, entry.decision.primary = P := by
  intro entry hentry
  simp only [proposed, Option.mem_toList, Option.map_eq_some_iff] at hentry
  obtain ⟨decision, hproposal, rfl⟩ := hentry
  obtain ⟨d, hd, hprimary⟩ := hsettled.applied i
  have hdecided := prepared_decided hadmits hd
  have halive : (w.prepared i inp).primaryAlive (c.config i) inp.leaderNow = true := by
    refine Supervisor.primaryAlive_of_seen hdecided ?_ (hprimary.symm ▸ hseen) hrecent
    exact hprimary.symm ▸ primary_ne_zero P
  exact (Supervisor.proposal_primary_of_alive hdecided halive hproposal).trans hprimary

end World

/-! ## The moment of isolation -/

namespace Network

variable {c : ClusterConfig} {n n' : Network c} {a : TimedAction c} {G S D T deadline : Nat}
  {P : c.Voter}

/-- The state at `T`: every supervisor is ticking, all decisions name `P`, every
other node is in recovery or fenced, and gossip is at most `D` late. -/
@[mk_iff] structure SettledAt (n : Network c) (P : c.Voter) (G D T : Nat) : Prop where
  clock_le : n.clock ≤ T
  cadence : ∀ i, T ≤ (n.sup i).lastLoop + G
  ticked : ∀ i, 1 ≤ (n.sup i).ticks
  settled : n.world.Settled P
  others : ∀ j, j ≠ P →
    (n.member j).inRecovery = true ∨ (n.sup j).appliedReadOnly = some true
  arrived : ∀ mail ∈ n.inFlight, T < mail.sentAt + D

instance (n : Network c) (P : c.Voter) (G D T : Nat) : Decidable (n.SettledAt P G D T) :=
  decidable_of_iff _ (settledAt_iff n P G D T).symm

/-- From `T` on no gossip reaches `P` or comes from it, and every supervisor keeps
ticking without a restart. -/
@[mk_iff] structure Isolates (n : Network c) (P : c.Voter) (G T : Nat) (a : TimedAction c) :
    Prop where
  from_le : T ≤ a.time
  cadence : n.InCadence G a
  restarts : a.action.restarts = false
  cut : ∀ mail ∈ n.arriving a.action, mail.source ≠ P ∧ mail.target ≠ P

instance (n : Network c) (P : c.Voter) (G T : Nat) (a : TimedAction c) :
    Decidable (n.Isolates P G T a) :=
  decidable_of_iff _ (isolates_iff n P G T a).symm

/-- What holds during the isolation. Before `deadline` no other node is proposed. -/
structure Isolated (n : Network c) (P : c.Voter) (G T deadline : Nat) : Prop where
  consistent : ∀ i, (n.member i).Consistent i
  appliedLe : n.world.AppliedLe
  decided : ∀ i, ∃ d, n.world.sharedDecision i = some d
  settled : n.clock < deadline → n.world.Settled P
  heard : T < deadline → ∀ L, n.Heard P L (deadline - deadTimeout)
  recent : n.clock ≤ (n.sup P).lastLoop + G
  /-- The channel of `P` is empty from its first tick on. -/
  drained : n.inbox P = [] ∨ (n.sup P).lastLoop ≤ T
  stamps : ∀ id stamp, (n.sup P).peers.lastHeard.lookup id = some stamp → stamp ≤ T + G
  lease : (n.member P).Open → (n.sup P).lastLoop < T + G + quorumLease
  waiting : ∀ j, j ≠ P → ∀ since, (n.sup j).authorizedSince = some since → deadline ≤ since
  opened : ∀ j, j ≠ P → (n.member j).Open → deadline + confirmWindow ≤ n.clock

/-! ## The start -/

theorem SettledAt.waiting (hsettledAt : n.SettledAt P G D T)
    (hconsistent : ∀ i, (n.member i).Consistent i) {j : c.Voter} (hne : j ≠ P) :
    (n.sup j).authorizedSince = none := by
  rcases hsettledAt.others j hne with hrecovery | hfenced
  · exact ((hconsistent j).standby hrecovery).2
  · cases hsince : (n.sup j).authorizedSince with
    | none => rfl
    | some since =>
        rcases (hconsistent j).waiting since hsince with ⟨d, hd, hprimary⟩ | ⟨-, hopen⟩
        · have hnames := hsettledAt.settled.held j d hd
          exact absurd (Subtype.ext (hprimary.symm.trans hnames)) hne
        · rw [show (n.member j).node.sup.appliedReadOnly = some true from hfenced] at hopen
          cases hopen

theorem SettledAt.not_open (hsettledAt : n.SettledAt P G D T)
    (hconsistent : ∀ i, (n.member i).Consistent i) {j : c.Voter} (hne : j ≠ P) :
    ¬ (n.member j).Open := by
  rintro ⟨hout, hreadOnly⟩
  rcases hsettledAt.others j hne with hrecovery | hfenced
  · rw [hrecovery] at hout
    cases hout
  · rw [(hconsistent j).cached true hfenced] at hreadOnly
    cases hreadOnly

theorem SettledAt.isolated (hsettledAt : n.SettledAt P G D T)
    (hconsistent : ∀ i, (n.member i).Consistent i) (happliedLe : n.world.AppliedLe)
    (hclocked : n.Clocked)
    (hheard : T < deadline → ∀ L, n.Heard P L (deadline - deadTimeout)) :
    n.Isolated P G T deadline where
  consistent := hconsistent
  appliedLe := happliedLe
  decided i := (hsettledAt.settled.applied i).imp fun _ => And.left
  settled _ := hsettledAt.settled
  heard := hheard
  recent := hsettledAt.clock_le.trans (hsettledAt.cadence P)
  drained := Or.inr ((hclocked.lastLoop P).trans hsettledAt.clock_le)
  stamps id stamp hlookup := by
    have := hclocked.lastHeard P id stamp hlookup
    have := hsettledAt.clock_le
    omega
  lease _ := by
    have := hclocked.lastLoop P
    have := hsettledAt.clock_le
    have : 0 < quorumLease := by decide
    omega
  waiting j hne since hsince := by
    rw [hsettledAt.waiting hconsistent hne] at hsince
    cases hsince
  opened j hne hopen := absurd hopen (hsettledAt.not_open hconsistent hne)

/-! ## One step -/

theorem decided_of_step (hinv : n.Isolated P G T deadline) (hstep : Step n a n')
    (i : c.Voter) : ∃ d, n'.world.sharedDecision i = some d := by
  rcases world_of_step hstep with heq | ⟨e, -, -, hworld⟩
  · rw [heq]
    exact hinv.decided i
  · rcases World.sharedDecision_of_step hinv.appliedLe hworld i with heq | ⟨entry, -, heq⟩
    · rw [heq]
      exact hinv.decided i
    · exact ⟨_, heq⟩

theorem settled_of_step (hinv : n.Isolated P G T deadline) (hdeadline : deadline ≤ T + deadTimeout)
    (hstep : Step n a n') (hisolates : n.Isolates P G T a) (hearly : n'.clock < deadline) :
    n'.world.Settled P := by
  rw [clock_of_step hstep] at hearly
  have hfrom := hisolates.from_le
  have hsettled := hinv.settled (hstep.clock_le.trans_lt hearly)
  rcases world_of_step hstep with heq | ⟨e, haction, hpunctual, hworld⟩
  · rwa [heq]
  · refine hsettled.step hinv.appliedLe hworld fun L inp hevent hadmits => ?_
    subst hevent
    obtain ⟨hinstant, -, hreceived⟩ := hpunctual
    -- every leader still sees `P`
    have hseen := prepared_seen (hinv.heard (by omega) L) hinstant (by omega) hreceived
    apply World.proposed_of_seen hsettled hadmits hseen
    rw [hinstant.leaderNow]
    omega

theorem drained_of_step (hinv : n.Isolated P G T deadline) (hstep : Step n a n')
    (hisolates : n.Isolates P G T a) : n'.inbox P = [] ∨ (n'.sup P).lastLoop ≤ T := by
  cases nodeStep_of_step hstep P with
  | ticked inp haction hadmits hinstant hsql hreceived hmember hinbox => exact Or.inl hinbox
  | restarted haction =>
      have hno := hisolates.restarts
      rw [haction] at hno
      cases hno
  | left hrecovery hrequested hmember hinbox =>
      rw [hinbox, sup, hmember]
      exact hinv.drained
  | received k mail haction hmail htarget =>
      exact absurd htarget (hisolates.cut mail (haction ▸ hmail)).2
  | kept hnode hrecovery hinbox =>
      rw [hinbox, sup, hnode]
      exact hinv.drained

/-- What an action does to a node while no supervisor is restarted. -/
inductive RunningStep (n : Network c) (a : TimedAction c) (i : c.Voter) (m : Member) : Prop
  | ticked (inp : TickInput) (hadmits : n.world.Admits i inp) (hinstant : inp.AtInstant a.time)
      (hsql : inp.SqlSucceeds) (hreceived : inp.received = (n.inbox i).map (·.drainedAt a.time))
      (hmember : m = n.world.tickedMember i inp)
  | left (hrequested : (n.member i).promoteRequested = true)
      (hmember : m = { n.member i with inRecovery := false, promoteRequested := false })
  | kept (hnode : m.node = (n.member i).node) (hrecovery : m.inRecovery = (n.member i).inRecovery)

theorem runningStep_of_step (hstep : Step n a n') (hisolates : n.Isolates P G T a)
    (i : c.Voter) : RunningStep n a i (n'.member i) := by
  cases nodeStep_of_step hstep i with
  | ticked inp haction hadmits hinstant hsql hreceived hmember =>
      exact .ticked inp hadmits hinstant hsql hreceived hmember
  | restarted haction =>
      have hno := hisolates.restarts
      rw [haction] at hno
      cases hno
  | left hrecovery hrequested hmember => exact .left hrequested hmember
  | received k mail haction hmail htarget hmember => exact .kept (by rw [hmember]) (by rw [hmember])
  | kept hnode hrecovery => exact .kept hnode hrecovery

/-! ### The primary -/

theorem recent_of_step (hstep : Step n a n') (hisolates : n.Isolates P G T a) :
    n'.clock ≤ (n'.sup P).lastLoop + G := by
  rw [clock_of_step hstep, sup]
  have hcadence := hisolates.cadence P
  cases runningStep_of_step hstep hisolates P with
  | ticked inp hadmits hinstant hsql hreceived hmember =>
      rw [hmember, World.tickedMember, Node.tick_lastLoop, hinstant.loopNow]
      omega
  | left hrequested hmember => rwa [hmember]
  | kept hnode => rwa [hnode]

theorem stamps_of_step (hinv : n.Isolated P G T deadline) (hstep : Step n a n')
    (hisolates : n.Isolates P G T a) {id stamp : Nat}
    (hlookup : (n'.sup P).peers.lastHeard.lookup id = some stamp) : stamp ≤ T + G := by
  rw [sup] at hlookup
  cases runningStep_of_step hstep hisolates P with
  | ticked inp hadmits hinstant hsql hreceived hmember =>
      rw [hmember] at hlookup
      rcases stamp_of_tick hreceived hlookup with ⟨hinbox, rfl⟩ | hold
      · -- mail is drained only by the first tick since `T`
        have hlast := hinv.drained.resolve_left hinbox
        have hcadence := hisolates.cadence P
        omega
      · exact hinv.stamps id stamp hold
  | left hrequested hmember =>
      rw [hmember] at hlookup
      exact hinv.stamps id stamp hlookup
  | kept hnode =>
      rw [hnode] at hlookup
      exact hinv.stamps id stamp hlookup

/-- Authority needs a peer heard within the lease. -/
theorem exists_heard_of_authorized (hthree : 3 ≤ c.voters.length) {i : c.Voter} {inp : TickInput}
    (hauth : ((n.sup i).lead (c.config i) inp).authorized (c.config i) inp = true) :
    ∃ id stamp, (n.world.tickedMember i inp).node.sup.peers.lastHeard.lookup id = some stamp ∧
      inp.contactNow - stamp < quorumLease := by
  have hquorum := Supervisor.quorumOk_of_rawAuth (Supervisor.rawAuth_of_authorized hauth)
  rw [Supervisor.quorumOk_eq_true_iff, ClusterConfig.config_majority,
    ClusterConfig.majority] at hquorum
  obtain ⟨id, hid⟩ := List.exists_mem_of_length_pos
    (show 0 < (((n.sup i).lead (c.config i) inp).heardWithinLease (c.config i)
      inp.contactNow).length by omega)
  obtain ⟨-, stamp, hlookup, hrecent⟩ := Supervisor.mem_heardWithinLease.mp hid
  exact ⟨id, stamp, by rwa [World.tickedMember, Node.tick_peers], hrecent⟩

theorem lease_of_step (hthree : 3 ≤ c.voters.length) (hinv : n.Isolated P G T deadline)
    (hstep : Step n a n') (hisolates : n.Isolates P G T a) (hopen : (n'.member P).Open) :
    (n'.sup P).lastLoop < T + G + quorumLease := by
  cases runningStep_of_step hstep hisolates P with
  | ticked inp hadmits hinstant hsql hreceived hmember =>
      have hauth := World.authorized_of_open hsql hadmits (hinv.consistent P) (hmember ▸ hopen)
      obtain ⟨id, stamp, hlookup, hrecent⟩ := exists_heard_of_authorized hthree hauth
      have hstamp := stamps_of_step hinv hstep hisolates
        (by rw [sup, hmember]; exact hlookup)
      rw [sup, hmember, World.tickedMember, Node.tick_lastLoop, hinstant.loopNow]
      rw [hinstant.contactNow] at hrecent
      omega
  | left hrequested hmember =>
      -- a node leaves recovery behind its fence
      rw [hmember] at hopen
      have hfenced := ((hinv.consistent P).requested hrequested).2
      rw [hopen.2] at hfenced
      cases hfenced
  | kept hnode hrecovery =>
      rw [Member.Open, hnode, hrecovery] at hopen
      rw [sup, hnode]
      exact hinv.lease hopen

/-! ### The other nodes -/

/-- Another node that is authorized was open before or has waited. -/
theorem opened_of_authorized (hinv : n.Isolated P G T deadline) (hclock : n.clock ≤ a.time)
    {j : c.Voter} (hne : j ≠ P) {inp : TickInput} (hadmits : n.world.Admits j inp)
    (hinstant : inp.AtInstant a.time) (hout : (n.member j).inRecovery = false)
    (hauth : ((n.sup j).lead (c.config j) inp).authorized (c.config j) inp = true) :
    deadline + confirmWindow ≤ a.time := by
  obtain ⟨d, hd⟩ := hinv.decided j
  rcases Supervisor.authorized_cases hauth with hnone | hopen | hwaited
  · have hheld : ((n.sup j).lead (c.config j) inp).decided = some d :=
      World.prepared_decided hadmits hd
    rw [hheld] at hnone
    cases hnone
  · have hreadOnly := World.lead_cached (hinv.consistent j) hopen
    exact (hinv.opened j hne ⟨hout, hreadOnly⟩).trans hclock
  · -- a wait that starts now cannot have lasted, and an older one started late
    rw [hinstant.windowNow, hinstant.sinceNow] at hwaited
    have hpos : 0 < confirmWindow := by decide
    cases hsince : ((n.sup j).lead (c.config j) inp).authorizedSince with
    | none =>
        rw [hsince, Option.getD_none] at hwaited
        omega
    | some since =>
        rw [hsince, Option.getD_some] at hwaited
        have := hinv.waiting j hne since (Supervisor.authorizedSince_of_lead hsince)
        omega

theorem opened_of_step (hinv : n.Isolated P G T deadline) (hstep : Step n a n')
    (hisolates : n.Isolates P G T a) {j : c.Voter} (hne : j ≠ P) (hopen : (n'.member j).Open) :
    deadline + confirmWindow ≤ n'.clock := by
  rw [clock_of_step hstep]
  cases runningStep_of_step hstep hisolates j with
  | ticked inp hadmits hinstant hsql hreceived hmember =>
      rw [hmember] at hopen
      have hauth := World.authorized_of_open hsql hadmits (hinv.consistent j) hopen
      exact opened_of_authorized hinv hstep.clock_le hne hadmits hinstant hopen.1 hauth
  | left hrequested hmember =>
      rw [hmember] at hopen
      have hfenced := ((hinv.consistent j).requested hrequested).2
      rw [hopen.2] at hfenced
      cases hfenced
  | kept hnode hrecovery =>
      rw [Member.Open, hnode, hrecovery] at hopen
      exact (hinv.opened j hne hopen).trans hstep.clock_le

/-- Another node starts to wait for authority only when a decision names it. -/
theorem deadline_le_of_rawAuth (hinv : n.Isolated P G T deadline) {j : c.Voter} (hne : j ≠ P)
    {inp : TickInput} (hadmits : n.world.Admits j inp) (hclock : n.clock ≤ a.time)
    (hraw : ((n.sup j).lead (c.config j) inp).rawAuth (c.config j) inp = true) :
    deadline ≤ a.time := by
  by_contra hearly
  obtain ⟨d, hd, hprimary⟩ := (hinv.settled (by omega)).applied j
  have hself := (Supervisor.rawAuth_of_decided (World.prepared_decided hadmits hd) hraw).1
  exact hne (Subtype.ext (hself.symm.trans hprimary))

theorem waiting_of_step (hinv : n.Isolated P G T deadline) (hstep : Step n a n')
    (hisolates : n.Isolates P G T a) {j : c.Voter} (hne : j ≠ P) {since : Nat}
    (hsince : (n'.sup j).authorizedSince = some since) : deadline ≤ since := by
  rw [sup] at hsince
  cases runningStep_of_step hstep hisolates j with
  | ticked inp hadmits hinstant hsql hreceived hmember =>
      rw [hmember] at hsince
      cases hrecovery : inp.inRecovery with
      | true =>
          rw [World.tickedMember, Node.tick_of_recovery hrecovery] at hsince
          cases hsince
      | false =>
          rw [World.tickedMember, Node.tick_of_primary hrecovery] at hsince
          have hraw := Supervisor.rawAuth_of_nextAuthorizedSince hsince
          have hlate := deadline_le_of_rawAuth hinv hne hadmits hstep.clock_le hraw
          rcases Supervisor.nextAuthorizedSince_eq_some hsince with rfl | hold
          · rwa [hinstant.sinceNow]
          · exact hinv.waiting j hne since (Supervisor.authorizedSince_of_lead hold)
  | left hrequested hmember =>
      rw [hmember] at hsince
      exact hinv.waiting j hne since hsince
  | kept hnode =>
      rw [hnode] at hsince
      exact hinv.waiting j hne since hsince

/-! ## Runs -/

theorem isolated_of_step (hthree : 3 ≤ c.voters.length) (hdeadline : deadline ≤ T + deadTimeout)
    (hinv : n.Isolated P G T deadline) (hstep : Step n a n') (hisolates : n.Isolates P G T a) :
    n'.Isolated P G T deadline where
  consistent i := consistent_of_step hstep (hinv.consistent i)
  appliedLe := appliedLe_of_step hstep hinv.appliedLe
  decided := decided_of_step hinv hstep
  settled := settled_of_step hinv hdeadline hstep hisolates
  heard hlate L := by
    have hfrom := hisolates.from_le
    exact heard_of_step (hinv.heard hlate L) hstep hisolates.restarts (by omega)
  recent := recent_of_step hstep hisolates
  drained := drained_of_step hinv hstep hisolates
  stamps _ _ := stamps_of_step hinv hstep hisolates
  lease := lease_of_step hthree hinv hstep hisolates
  waiting _ hne _ := waiting_of_step hinv hstep hisolates hne
  opened _ hne := opened_of_step hinv hstep hisolates hne

/-- What both runs start from. -/
structure Sound (n : Network c) : Prop where
  consistent : ∀ i, (n.member i).Consistent i
  appliedLe : n.world.AppliedLe
  clocked : n.Clocked

theorem sound_of_run {n₀ : Network c} {actions : List (TimedAction c)} (hinit : n₀.Initial)
    (hrun : Run (fun n a n' => Step n a n' ∧ n.Ticking G S a) n₀ actions n) : n.Sound := by
  refine Run.invariant (I := Sound) ?_ hrun
    ⟨hinit.world.consistent, hinit.world.appliedLe, hinit.clocked⟩
  rintro n a n' ⟨hconsistent, happliedLe, hclocked⟩ ⟨hstep, -⟩
  exact ⟨fun i => consistent_of_step hstep (hconsistent i), appliedLe_of_step hstep happliedLe,
    clocked_of_step hclocked hstep⟩

theorem isolated_of_run {actions : List (TimedAction c)} (hthree : 3 ≤ c.voters.length)
    (hdeadline : deadline ≤ T + deadTimeout) (hstart : n.Isolated P G T deadline)
    (hrun : Run (fun n a n' => Step n a n' ∧ n.Isolates P G T a) n actions n') :
    n'.Isolated P G T deadline := by
  refine Run.invariant (I := (Isolated · P G T deadline)) ?_ hrun hstart
  exact fun _ _ _ hinv hstep => isolated_of_step hthree hdeadline hinv hstep.1 hstep.2

/-- An open primary's last tick is recent, and an open successor's choice is old. -/
theorem deadline_lt_of_both_open (hinv : n.Isolated P G T deadline) {j : c.Voter} (hne : j ≠ P)
    (hprimary : (n.member P).Open) (hsuccessor : (n.member j).Open) :
    deadline + confirmWindow < T + 2 * G + quorumLease := by
  have hlease := hinv.lease hprimary
  have hrecent := hinv.recent
  have hopened := hinv.opened j hne hsuccessor
  omega

/-- If `7G + D < 2800`, an isolated primary and another node are never both open. -/
theorem not_both_open {n₀ nT : Network c} {before isolated : List (TimedAction c)}
    (hthree : 3 ≤ c.voters.length) (hbound : 7 * G + D < 2800) (hT : S + (5 * G + D) = T)
    (hinit : n₀.Initial)
    (hbefore : Run (fun n a n' => Step n a n' ∧ n.Ticking G S a) n₀ before nT)
    (hsettledAt : nT.SettledAt P G D T)
    (hisolated : Run (fun n a n' => Step n a n' ∧ n.Isolates P G T a) nT isolated n)
    {j : c.Voter} (hne : j ≠ P) : ¬ ((n.member P).Open ∧ (n.member j).Open) := by
  rintro ⟨hprimary, hsuccessor⟩
  obtain ⟨hconsistent, happliedLe, hclocked⟩ := sound_of_run hinit hbefore
  have hboth : ∀ deadline, deadline ≤ T + deadTimeout →
      (T < deadline → ∀ L, nT.Heard P L (deadline - deadTimeout)) →
        deadline + confirmWindow < T + 2 * G + quorumLease := by
    intro deadline hdeadline hheard
    have hstart := hsettledAt.isolated hconsistent happliedLe hclocked hheard
    have hinv := isolated_of_run hthree hdeadline hstart hisolated
    exact deadline_lt_of_both_open hinv hne hprimary hsuccessor
  simp only [deadTimeout, confirmWindow, quorumLease] at hboth
  rcases Nat.eq_zero_or_pos G with rfl | hpos
  · -- no time passes, and a successor has to wait out the confirm window
    have := hboth T (by omega) (by omega)
    omega
  · -- every node has heard a message that `P` sent at `S` or later
    have := hboth (S + 2500) (by omega) fun _ L => by
      obtain ⟨sentAt, hfrom, hheard⟩ := heard_of_run hpos hT hinit hbefore
        (hsettledAt.ticked P) (hsettledAt.cadence P) hsettledAt.arrived L
      exact hheard.mono (by omega)
    omega

/-- One round of ticks of three nodes, of which node 2 leads. -/
def ticksAt (now : Nat) (received : Nat → List Received) (current : Option Decision) :
    List (TimedAction threeNodes) :=
  [⟨now, .node (.tick (three 1) (.plain now (received 1) current))⟩,
    ⟨now, .node (.tick (three 2) (.leading (.standby (.plain now (received 2) current))))⟩,
    ⟨now, .node (.tick (three 3) (.standby (.plain now (received 3) current)))⟩]

/-- The first broadcasts of the other nodes. -/
def firstBroadcasts (now id : Nat) : List Received :=
  ([1, 2, 3].filter (· ≠ id)).map fun j => .gossip j now 0 (decide (j ≠ 1)) 0

/-- Node 1 is decided as the primary. -/
def primaryDecided : List (TimedAction threeNodes) :=
  [300, 600, 900, 1200, 1500].flatMap (ticksAt · (fun _ => []) none) ++
    List.replicate 6 ⟨1600, .deliver 0⟩ ++ ticksAt 1800 (firstBroadcasts 1800) none ++
    [⟨1850, .node (.commit 0)⟩, ⟨1850, .node (.apply (three 1))⟩,
      ⟨1850, .node (.apply (three 2))⟩, ⟨1850, .node (.apply (three 3))⟩]

/-- One more round of ticks without gossip leaves node 1 open. -/
def staysOpen (n : Network threeNodes) : Bool :=
  ((ticksAt 2000 (fun _ => []) (some ⟨1, 1⟩)).foldlM (fun n a =>
    if n.clock ≤ a.time ∧ n.Isolates (three 1) 300 1900 a then n.after a else none) n).any
      fun n : Network threeNodes => decide (1900 ≤ n.clock ∧ (n.member (three 1)).Open)

/-- A run in which ticks are 300 ms apart and node 1 is isolated at 1900 ms. -/
theorem not_both_open_threeNodes : ∃ n : Network threeNodes, 1900 ≤ n.clock ∧
    (n.member (three 1)).Open ∧
      ¬ ((n.member (three 1)).Open ∧ (n.member (three 2)).Open) := by
  obtain ⟨nT, hbefore, hmiddle⟩ := @Run.exists_of_guarded _ _ after
    (fun n a => n.clock ≤ a.time ∧ n.Ticking 300 300 a) _ (fresh threeNodes (three 1))
    primaryDecided (fun nT => decide (nT.SettledAt (three 1) 300 100 1900) && nT.staysOpen)
    (by decide +kernel)
  obtain ⟨hsettledAt, hend⟩ := Bool.and_eq_true_iff.mp hmiddle
  obtain ⟨n, hisolated, hopen⟩ := Run.exists_of_guarded hend
  obtain ⟨hclock, hprimary⟩ := of_decide_eq_true hopen
  refine ⟨n, hclock, hprimary, ?_⟩
  exact not_both_open (by decide) (by decide) (S := 300) rfl (initial_fresh _)
    (hbefore.imp fun _ _ _ ⟨hafter, hclock, hticking⟩ => ⟨⟨hafter, hclock⟩, hticking⟩)
    (of_decide_eq_true hsettledAt)
    (hisolated.imp fun _ _ _ ⟨hafter, hclock, hisolates⟩ => ⟨⟨hafter, hclock⟩, hisolates⟩)
    (by decide)

end Network

end PgReplica
