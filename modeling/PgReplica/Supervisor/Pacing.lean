import PgReplica.Foundation.Cooldown
import PgReplica.Supervisor.Leader

/-! # How often a node repeats itself

While the decision stays, a leader that has proposed waits twenty ticks before it
proposes again, and a standby whose `pg_promote` was accepted waits a hundred before it
asks again. A promotion that failed is asked for at every tick.
-/

namespace PgReplica

open Foundation

namespace Node

variable (cfg : Config)

/-- The applied decision is the held one, or there is none. -/
def KeepsDecision (node : Node) (inp : TickInput) : Prop :=
  node.sup.decisionChanged inp.currentDecision = false

instance (node : Node) (inp : TickInput) : Decidable (node.KeepsDecision inp) :=
  inferInstanceAs (Decidable (_ = _))

def proposes (node : Node) (inp : TickInput) : Bool :=
  (node.report cfg inp).proposal.isSome

/-- `pg_promote` was asked for and accepted. -/
def promotesOk (node : Node) (inp : TickInput) : Bool :=
  (node.report cfg inp).promote == some .ok

/-- The ticks recorded last are not later than now. -/
structure Recorded (node : Node) : Prop where
  proposed : node.sup.lastProposedTick ≤ node.sup.ticks
  promoted : node.sup.promoteTick ≤ node.sup.ticks

/-- The ticks before a leader may propose again. -/
def proposalWait (node : Node) : Nat :=
  if node.sup.lastProposed.1 = node.sup.decidedSeq + 1 then
    proposalRetry - (node.sup.ticks + 1 - node.sup.lastProposedTick)
  else 0

/-- The ticks before a standby may ask for its promotion again. -/
def promoteWait (node : Node) : Nat :=
  if node.sup.promoted then promoteRetry - (node.sup.ticks + 1 - node.sup.promoteTick) else 0

variable {cfg} {node : Node} {inp : TickInput}

/-! ## What a tick records -/

theorem decided_prepare_of_keeps (hkeeps : node.KeepsDecision inp) :
    (node.sup.prepare cfg inp).decided = node.sup.decided := by
  change (if node.sup.decisionChanged inp.currentDecision = true then _ else _) = _
  rw [if_neg (by simp [show _ = false from hkeeps])]
  rfl

theorem lastProposed_prepare_of_keeps (hkeeps : node.KeepsDecision inp) :
    (node.sup.prepare cfg inp).lastProposed = node.sup.lastProposed := by
  change (if node.sup.decisionChanged inp.currentDecision = true then _ else _) = _
  rw [if_neg (by simp [show _ = false from hkeeps])]
  rfl

theorem promoted_lead_of_keeps (hkeeps : node.KeepsDecision inp) :
    (node.sup.lead cfg inp).promoted = node.sup.promoted := by
  change (if node.sup.decisionChanged inp.currentDecision = true then _ else _) = _
  rw [if_neg (by simp [show _ = false from hkeeps])]
  rfl

theorem decidedSeq_tick (hkeeps : node.KeepsDecision inp) :
    (node.tick cfg inp).sup.decidedSeq = node.sup.decidedSeq := by
  rw [Supervisor.decidedSeq, tick_decided, decided_prepare_of_keeps hkeeps]
  rfl

theorem lastProposed_tick (hkeeps : node.KeepsDecision inp) :
    (node.tick cfg inp).sup.lastProposed =
      ((node.report cfg inp).proposal.map fun d => (d.seq, d.primary)).getD
        node.sup.lastProposed := by
  have hlead : (node.tick cfg inp).sup.lastProposed =
      (node.sup.lead cfg inp).lastProposed := by
    rw [tick]
    cases inp.inRecovery <;> rfl
  rw [hlead, ← lastProposed_prepare_of_keeps hkeeps]
  rfl

theorem lastProposedTick_tick : (node.tick cfg inp).sup.lastProposedTick =
    if node.proposes cfg inp then node.sup.ticks + 1 else node.sup.lastProposedTick := by
  rw [tick]
  cases inp.inRecovery <;> rfl

theorem seq_of_proposal {d : Decision} (hkeeps : node.KeepsDecision inp)
    (hproposal : (node.report cfg inp).proposal = some d) : d.seq = node.sup.decidedSeq + 1 := by
  have hseq : d.seq = (node.sup.prepare cfg inp).decidedSeq + 1 := by
    simp only [report, Supervisor.proposal_eq, Option.ite_none_right_eq_some,
      Option.map_eq_some_iff] at hproposal
    obtain ⟨-, candidate, -, rfl⟩ := hproposal
    rfl
  rwa [Supervisor.decidedSeq, decided_prepare_of_keeps hkeeps] at hseq

/-- A proposal is in flight as long as its wait lasts. -/
theorem inFlight_iff (hkeeps : node.KeepsDecision inp) :
    (node.sup.prepare cfg inp).inFlight ((node.sup.prepare cfg inp).decidedSeq + 1) = true ↔
      node.proposalWait ≠ 0 := by
  have hseq : (node.sup.prepare cfg inp).decidedSeq = node.sup.decidedSeq := by
    rw [Supervisor.decidedSeq, decided_prepare_of_keeps hkeeps]
    rfl
  have hticks : (node.sup.prepare cfg inp).ticks = node.sup.ticks + 1 := rfl
  have hlast : (node.sup.prepare cfg inp).lastProposedTick = node.sup.lastProposedTick := rfl
  rw [Supervisor.inFlight, hseq, lastProposed_prepare_of_keeps hkeeps, hticks, hlast,
    proposalWait, Bool.and_eq_true, beq_iff_eq, decide_eq_true_eq]
  split
  next heq => rw [heq]; simp; omega
  next hne => simp [hne]

/-- A promotion counts as issued as long as its wait lasts. -/
theorem promotionPending_iff (hkeeps : node.KeepsDecision inp) :
    (node.sup.lead cfg inp).promotionPending = true ↔ node.promoteWait ≠ 0 := by
  have hticks : (node.sup.lead cfg inp).ticks = node.sup.ticks + 1 := rfl
  have hpromoteTick : (node.sup.lead cfg inp).promoteTick = node.sup.promoteTick := rfl
  rw [Supervisor.promotionPending, promoted_lead_of_keeps hkeeps, hticks, hpromoteTick,
    promoteWait]
  cases node.sup.promoted with
  | false => simp
  | true =>
      simp
      omega

theorem promotesOk_of_primary (hrecovery : inp.inRecovery = false) :
    node.promotesOk cfg inp = false := by
  simp [promotesOk, report, hrecovery]

theorem promotesOk_of_recovery (hrecovery : inp.inRecovery = true) :
    node.promotesOk cfg inp = ((node.sup.lead cfg inp).promotes cfg && inp.promote.isOk) := by
  rw [promotesOk, report]
  cases (node.sup.lead cfg inp).promotes cfg <;> cases inp.promote <;>
    simp [hrecovery, SqlOutcome.isOk]

theorem promoteTick_tick : (node.tick cfg inp).sup.promoteTick =
    if node.promotesOk cfg inp then node.sup.ticks + 1 else node.sup.promoteTick := by
  cases hrecovery : inp.inRecovery with
  | false =>
      rw [tick_of_primary hrecovery, promotesOk_of_primary hrecovery]
      rfl
  | true =>
      rw [tick_of_recovery hrecovery, promotesOk_of_recovery hrecovery]
      rfl

theorem promoted_tick_of_ok (hok : node.promotesOk cfg inp = true) :
    (node.tick cfg inp).sup.promoted = true := by
  cases hrecovery : inp.inRecovery with
  | false =>
      rw [promotesOk_of_primary hrecovery] at hok
      cases hok
  | true =>
      rw [promotesOk_of_recovery hrecovery, Bool.and_eq_true] at hok
      rw [tick_of_recovery hrecovery]
      exact (if_pos hok.1).trans hok.2

/-- Without an accepted promotion a tick at most forgets one whose wait is over. -/
theorem promoted_tick (hkeeps : node.KeepsDecision inp)
    (hnone : node.promotesOk cfg inp = false) : (node.tick cfg inp).sup.promoted =
      node.sup.promoted ∨ node.promoteWait = 0 ∧ (node.tick cfg inp).sup.promoted = false := by
  cases hrecovery : inp.inRecovery with
  | false =>
      rw [tick_of_primary hrecovery]
      exact Or.inl (@promoted_lead_of_keeps cfg node inp hkeeps)
  | true =>
      rw [promotesOk_of_recovery hrecovery] at hnone
      have hpending := @promotionPending_iff cfg node inp hkeeps
      rw [tick_of_recovery hrecovery]
      simp only [Supervisor.recover]
      split
      next hpromotes =>
        -- the request has failed
        rw [hpromotes, Bool.true_and] at hnone
        refine Or.inr ⟨?_, hnone⟩
        simp only [Supervisor.promotes, Bool.and_eq_true, Bool.not_eq_true'] at hpromotes
        by_contra hwait
        rw [hpending.mpr hwait] at hpromotes
        cases hpromotes.2
      next hwaits =>
        split
        next hnamed =>
          have htrue : (node.sup.lead cfg inp).promotionPending = true := by
            simpa [Supervisor.promotes, hnamed] using hwaits
          rw [htrue]
          rw [Supervisor.promotionPending, promoted_lead_of_keeps hkeeps] at htrue
          exact Or.inl (Bool.and_eq_true_iff.mp htrue).1.symm
        next => exact Or.inl (promoted_lead_of_keeps hkeeps)

theorem Recorded.tick (hrecorded : node.Recorded) : (node.tick cfg inp).Recorded := by
  obtain ⟨hproposed, hpromoted⟩ := hrecorded
  constructor
  · rw [lastProposedTick_tick, tick_ticks]
    split <;> omega
  · rw [promoteTick_tick, tick_ticks]
    split <;> omega

theorem Started.recorded (hstarted : node.Started) : node.Recorded := by
  obtain ⟨current, now, hsup⟩ := hstarted
  constructor <;> rw [hsup] <;> exact le_rfl

/-! ## The two cooldowns -/

variable (cfg) in
theorem proposal_cooldown : Cooldown (tick · cfg) Recorded KeepsDecision (proposes cfg)
    proposalRetry proposalWait where
  keeps node inp hrecorded _ := hrecorded.tick
  left_lt node hrecorded := by
    have hle := hrecorded.proposed
    have hpos : 0 < proposalRetry := by decide
    rw [proposalWait]
    split <;> omega
  ready node inp _ hkeeps hproposes := by
    obtain ⟨d, hproposal⟩ := Option.isSome_iff_exists.mp hproposes
    have hfree := Supervisor.not_inFlight_of_proposal hproposal
    by_contra hwait
    rw [(inFlight_iff hkeeps).mpr hwait] at hfree
    cases hfree
  restarts node inp _ hkeeps hproposes := by
    obtain ⟨d, hproposal⟩ := Option.isSome_iff_exists.mp hproposes
    have htick : (node.tick cfg inp).sup.lastProposedTick = node.sup.ticks + 1 := by
      rw [lastProposedTick_tick, if_pos hproposes]
    have hpos : 0 < proposalRetry := by decide
    rw [proposalWait, lastProposed_tick hkeeps, hproposal, decidedSeq_tick hkeeps, tick_ticks,
      htick, Option.map_some, Option.getD_some, if_pos (seq_of_proposal hkeeps hproposal)]
    omega
  falls node inp hrecorded hkeeps hnone := by
    have hproposal : (node.report cfg inp).proposal = none := by
      simpa [proposes] using hnone
    have htick : (node.tick cfg inp).sup.lastProposedTick = node.sup.lastProposedTick := by
      rw [lastProposedTick_tick, hnone]
      rfl
    have hle := hrecorded.proposed
    rw [proposalWait, lastProposed_tick hkeeps, hproposal, decidedSeq_tick hkeeps, tick_ticks,
      htick, Option.map_none, Option.getD_none, proposalWait]
    split <;> omega

variable (cfg) in
theorem promote_cooldown : Cooldown (tick · cfg) Recorded KeepsDecision (promotesOk cfg)
    promoteRetry promoteWait where
  keeps node inp hrecorded _ := hrecorded.tick
  left_lt node hrecorded := by
    have hle := hrecorded.promoted
    have hpos : 0 < promoteRetry := by decide
    rw [promoteWait]
    split <;> omega
  ready node inp _ hkeeps hok := by
    cases hrecovery : inp.inRecovery with
    | false =>
        rw [promotesOk_of_primary hrecovery] at hok
        cases hok
    | true =>
        rw [promotesOk_of_recovery hrecovery, Supervisor.promotes] at hok
        by_contra hwait
        rw [(promotionPending_iff hkeeps).mpr hwait] at hok
        simp at hok
  restarts node inp _ hkeeps hok := by
    have htick : (node.tick cfg inp).sup.promoteTick = node.sup.ticks + 1 := by
      rw [promoteTick_tick, if_pos hok]
    have hpos : 0 < promoteRetry := by decide
    rw [promoteWait, promoted_tick_of_ok hok, if_pos rfl, tick_ticks, htick]
    omega
  falls node inp hrecorded hkeeps hnone := by
    have hle := hrecorded.promoted
    rcases promoted_tick hkeeps hnone with hkept | ⟨hwait, hforgotten⟩
    · have htick : (node.tick cfg inp).sup.promoteTick = node.sup.promoteTick := by
        rw [promoteTick_tick, hnone]
        rfl
      rw [promoteWait, hkept, tick_ticks, htick, promoteWait]
      split <;> omega
    · rw [promoteWait, hforgotten, hwait]
      rfl

/-! ## Every run -/

variable (cfg) in
/-- A leader with a majority among the live nodes and somebody to propose. -/
def WantsProposal (node : Node) (inp : TickInput) : Prop :=
  inp.isLeader = true ∧
    cfg.majority ≤ ((node.sup.prepare cfg inp).live cfg inp.leaderNow).length ∧
    ((node.sup.prepare cfg inp).proposalCandidate cfg inp).isSome = true

variable (cfg) in
/-- The decided primary, still in recovery, when `pg_promote` is accepted. -/
def WantsPromotion (node : Node) (inp : TickInput) : Prop :=
  inp.inRecovery = true ∧ (node.sup.lead cfg inp).decidedPrimary = cfg.nodeId ∧ inp.promote = .ok

instance (node : Node) (inp : TickInput) : Decidable (node.WantsProposal cfg inp) :=
  inferInstanceAs (Decidable (_ ∧ _ ∧ _))

instance (node : Node) (inp : TickInput) : Decidable (node.WantsPromotion cfg inp) :=
  inferInstanceAs (Decidable (_ ∧ _ ∧ _))

theorem proposes_of_wants (hkeeps : node.KeepsDecision inp) (hwants : node.WantsProposal cfg inp)
    (hwait : node.proposalWait = 0) : node.proposes cfg inp = true := by
  obtain ⟨hleader, hmajority, hcandidate⟩ := hwants
  have hfree : ¬ (node.sup.prepare cfg inp).inFlight
      ((node.sup.prepare cfg inp).decidedSeq + 1) = true := by
    rw [inFlight_iff hkeeps]
    exact not_not.mpr hwait
  rw [proposes, report, Supervisor.proposal_eq, if_pos ⟨hleader, hmajority, hfree⟩,
    Option.isSome_map]
  exact hcandidate

theorem promotesOk_of_wants (hkeeps : node.KeepsDecision inp)
    (hwants : node.WantsPromotion cfg inp) (hwait : node.promoteWait = 0) :
    node.promotesOk cfg inp = true := by
  obtain ⟨hrecovery, hnamed, hpromote⟩ := hwants
  have hfree : (node.sup.lead cfg inp).promotionPending = false := by
    rw [← Bool.not_eq_true, promotionPending_iff hkeeps]
    exact not_not.mpr hwait
  rw [promotesOk_of_recovery hrecovery, Supervisor.promotes, hnamed, hfree, hpromote]
  simp [SqlOutcome.isOk]

/-- A request that failed is repeated by the next tick in recovery. -/
theorem promote_of_failed {failed next : TickInput}
    (hrequested : (node.report cfg failed).promote.isSome = true)
    (hfailed : failed.promote.isOk = false)
    (hkeeps : (node.tick cfg failed).KeepsDecision next) (hrecovery' : next.inRecovery = true) :
    ((node.tick cfg failed).report cfg next).promote = some next.promote := by
  have hasked : failed.inRecovery = true ∧ (node.sup.lead cfg failed).promotes cfg = true := by
    simpa [report] using hrequested
  obtain ⟨hrecovery, hpromotes⟩ := hasked
  have hnamed : ((node.tick cfg failed).sup.lead cfg next).decidedPrimary = cfg.nodeId := by
    have hsame : ((node.tick cfg failed).sup.lead cfg next).decided =
        (node.sup.lead cfg failed).decided := by
      calc ((node.tick cfg failed).sup.prepare cfg next).decided
          = (node.tick cfg failed).sup.decided := decided_prepare_of_keeps hkeeps
        _ = (node.sup.prepare cfg failed).decided := tick_decided
    rw [Supervisor.decidedPrimary, hsame]
    exact beq_iff_eq.mp (Bool.and_eq_true_iff.mp hpromotes).1
  have hforgotten : ((node.tick cfg failed).sup.lead cfg next).promoted = false := by
    rw [promoted_lead_of_keeps hkeeps, tick_of_recovery hrecovery]
    exact (if_pos hpromotes).trans hfailed
  simp [report, hrecovery', Supervisor.promotes, Supervisor.promotionPending, hnamed, hforgotten]

theorem Recorded.foldl (hrecorded : node.Recorded) (inputs : List TickInput) :
    (inputs.foldl (Node.tick · cfg) node).Recorded := by
  induction inputs generalizing node with
  | nil => exact hrecorded
  | cons inp rest ih => exact ih hrecorded.tick

/-- While the decision stays, no more than one proposal is made in twenty ticks, and no
fewer as long as the node wants to make one. -/
theorem proposals_paced_of_run {start : Node} (hstarted : start.Started)
    (earlier inputs : List TickInput)
    (hkeeps : EachStep (tick · cfg) KeepsDecision (earlier.foldl (tick · cfg) start) inputs) :
    let node := earlier.foldl (tick · cfg) start
    let proposals := issued (tick · cfg) (proposes cfg) node inputs
    proposalRetry * proposals < inputs.length + proposalRetry ∧
      (EachStep (tick · cfg) (WantsProposal cfg) node inputs →
        inputs.length < proposalRetry * proposals + proposalRetry) := by
  have hrecorded := @Recorded.foldl cfg _ hstarted.recorded earlier
  have hupper := (proposal_cooldown cfg).issued_le hrecorded hkeeps
  refine ⟨by omega, fun hwants => ?_⟩
  have hprompt := (hkeeps.and hwants).imp fun node inp ⟨hkeeps, hwants⟩ =>
    proposes_of_wants hkeeps hwants
  have hlower := (proposal_cooldown cfg).le_issued hrecorded hkeeps hprompt
  have hleft := (proposal_cooldown cfg).left_lt _ hrecorded
  omega

/-- Node 3 is heard, the decided primary is not. -/
def primaryLost (now : Nat) : TickInput :=
  .leading (.plain now [.gossip 3 now 0 true 1] (some ⟨1, 2⟩))

/-- Node 1 comes out with two proposals in forty ticks. -/
theorem proposals_paced_of_run_lost :
    let cfg := Config.threeNodes 1 (by decide)
    let start : Node := ⟨.start (some ⟨1, 2⟩) 0, ⟨true, "", ""⟩⟩
    let earlier := (List.range 5).map fun n => primaryLost (100 * n)
    let inputs := (List.range 40).map fun n => primaryLost (100 * (n + 5))
    issued (tick · cfg) (proposes cfg) (earlier.foldl (tick · cfg) start) inputs = 2 := by
  intro cfg start earlier inputs
  have hkeeps : EachStep (tick · cfg) KeepsDecision (earlier.foldl (tick · cfg) start) inputs := by
    decide +kernel
  have hwants : EachStep (tick · cfg) (WantsProposal cfg) (earlier.foldl (tick · cfg) start)
      inputs := by
    decide +kernel
  have hlength : inputs.length = 40 := rfl
  obtain ⟨hupper, hlower⟩ := proposals_paced_of_run ⟨_, _, rfl⟩ earlier inputs hkeeps
  have := hlower hwants
  simp only [proposalRetry, hlength] at *
  omega

/-- While the decision stays, `pg_promote` is not accepted more than once in a hundred
ticks, and not less often as long as the decided primary stays in recovery. After a
failure it is asked for again at once. -/
theorem promotions_paced_of_run {start : Node} (hstarted : start.Started)
    (earlier inputs : List TickInput)
    (hkeeps : EachStep (tick · cfg) KeepsDecision (earlier.foldl (tick · cfg) start) inputs) :
    let node := earlier.foldl (tick · cfg) start
    let promotions := issued (tick · cfg) (promotesOk cfg) node inputs
    promoteRetry * promotions < inputs.length + promoteRetry ∧
      (EachStep (tick · cfg) (WantsPromotion cfg) node inputs →
        inputs.length < promoteRetry * promotions + promoteRetry) ∧
      ∀ failed next : TickInput, (node.report cfg failed).promote.isSome = true →
        failed.promote.isOk = false → (node.tick cfg failed).KeepsDecision next →
          next.inRecovery = true →
            ((node.tick cfg failed).report cfg next).promote = some next.promote := by
  have hrecorded := @Recorded.foldl cfg _ hstarted.recorded earlier
  have hupper := (promote_cooldown cfg).issued_le hrecorded hkeeps
  refine ⟨by omega, fun hwants => ?_, fun _ _ => promote_of_failed⟩
  have hprompt := (hkeeps.and hwants).imp fun node inp ⟨hkeeps, hwants⟩ =>
    promotesOk_of_wants hkeeps hwants
  have hlower := (promote_cooldown cfg).le_issued hrecorded hkeeps hprompt
  have hleft := (promote_cooldown cfg).left_lt _ hrecorded
  omega

/-- Node 1 stays in recovery for two hundred ticks and is promoted twice. A first request
that fails is repeated. -/
theorem promotions_paced_of_run_stuck :
    let cfg := Config.threeNodes 1 (by decide)
    let start : Node := ⟨.start (some ⟨1, 1⟩) 0, ⟨true, "", ""⟩⟩
    let inputs := (List.range 200).map fun n => .standby (.plain (100 * n) [] (some ⟨1, 1⟩))
    let failed := { (TickInput.plain 0 [] (some ⟨1, 1⟩)).standby with promote := .failed }
    issued (tick · cfg) (promotesOk cfg) start inputs = 2 ∧
      ((start.tick cfg failed).report cfg (.standby (.plain 100 [] none))).promote = some .ok := by
  intro cfg start inputs failed
  have hkeeps : EachStep (tick · cfg) KeepsDecision start inputs := by
    decide +kernel
  have hwants : EachStep (tick · cfg) (WantsPromotion cfg) start inputs := by
    decide +kernel
  have hlength : inputs.length = 200 := rfl
  obtain ⟨hupper, hlower, hrepeats⟩ :=
    @promotions_paced_of_run cfg start ⟨_, _, rfl⟩ [] inputs hkeeps
  refine ⟨?_, hrepeats failed _ (by decide) rfl (by decide) rfl⟩
  have := hlower hwants
  simp only [promoteRetry, hlength, List.foldl_nil] at *
  omega

end Node

end PgReplica
