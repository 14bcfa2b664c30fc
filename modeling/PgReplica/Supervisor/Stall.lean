import PgReplica.Foundation.Run
import PgReplica.Supervisor.Tick

/-! # Authority after a stall

A tick that comes too late asks for a reconfirmation: a decision newer than what
Raft had applied by then. The same tick then looks at the applied decision, and
takes one that arrived during the stall for the answer.
-/

namespace PgReplica

open Foundation

/-- A tick, and what `SharedDecision` holds when it looks at the clock. -/
structure CheckedTick where
  shared : Option Decision
  tick : TickInput

/-- A node, and what `SharedDecision` held at each stall that no newer decision has
answered since. -/
structure StallWatch where
  node : Node
  unanswered : List (Option Decision)

namespace StallWatch

variable (cfg : Config) (w : StallWatch) (x : CheckedTick)

/-- The stalls to be answered when the tick looks at the applied decision. -/
def asked : List (Option Decision) :=
  if w.node.sup.stalled x.tick.loopNow then x.shared :: w.unanswered else w.unanswered

/-- The tick adopts a decision. -/
def adopts : Bool :=
  w.node.sup.decisionChanged x.tick.currentDecision

/-- An adopted decision answers the stalls at which it was not there yet. -/
def tick : StallWatch where
  node := w.node.tick cfg x.tick
  unanswered :=
    if w.adopts x then (w.asked x).filter fun shared => shared == x.tick.currentDecision
    else w.asked x

/-- An authorized tick leaves no stall unanswered. -/
def AuthorityReconfirmed : Prop :=
  (w.node.report cfg x.tick).authorized = some true → (w.tick cfg x).unanswered = []

/-- A decision that the tick adopts was not there yet at any of the stalls to be answered. -/
def AdoptsNewer : Prop :=
  w.adopts x = true → x.tick.currentDecision ∉ w.asked x

variable {cfg w x}

theorem lead_reconfirmPending : (w.node.sup.lead cfg x.tick).reconfirmPending =
    if w.adopts x then false
    else if w.node.sup.stalled x.tick.loopNow then true else w.node.sup.reconfirmPending := rfl

theorem tick_reconfirmPending : (w.node.tick cfg x.tick).sup.reconfirmPending =
    (w.node.sup.lead cfg x.tick).reconfirmPending := by
  rw [Node.tick]
  cases x.tick.inRecovery <;> rfl

/-- A node with a decision never loses it. -/
theorem lead_decided_isSome (cfg : Config) (x : CheckedTick)
    (hdecided : w.node.sup.decided.isSome) : (w.node.sup.lead cfg x.tick).decided.isSome := by
  rw [Supervisor.lead_decided]
  split
  next hchanged =>
    cases hcurrent : x.tick.currentDecision with
    | none =>
        rw [hcurrent] at hchanged
        cases hchanged
    | some d => rfl
  next => exact hdecided

/-- While a stall is unanswered the node asks for reconfirmation. -/
structure Asking (w : StallWatch) : Prop where
  decided : w.node.sup.decided.isSome
  pending : w.unanswered ≠ [] → w.node.sup.reconfirmPending = true

/-- After the adoption of a newer decision, or of none, the node asks exactly as it should. -/
theorem Asking.lead_pending (hasking : w.Asking) (hnewer : w.AdoptsNewer x)
    (hopen : (w.tick cfg x).unanswered ≠ []) :
    (w.node.sup.lead cfg x.tick).reconfirmPending = true := by
  rw [lead_reconfirmPending]
  cases hadopts : w.adopts x with
  | true =>
      refine absurd ?_ hopen
      rw [tick, if_pos hadopts, List.filter_eq_nil_iff]
      intro shared hshared heq
      exact hnewer hadopts (beq_iff_eq.mp heq ▸ hshared)
  | false =>
      simp only [tick, hadopts, Bool.false_eq_true, if_false, asked] at hopen ⊢
      split at hopen
      next hstalled => rw [if_pos hstalled]
      next hstalled => rw [if_neg hstalled, hasking.pending hopen]

theorem Asking.tick (hasking : w.Asking) (hnewer : w.AdoptsNewer x) : (w.tick cfg x).Asking where
  decided := by
    change (w.node.tick cfg x.tick).sup.decided.isSome
    rw [Node.tick_decided]
    exact lead_decided_isSome cfg x hasking.decided
  pending := by
    intro hopen
    change (w.node.tick cfg x.tick).sup.reconfirmPending = true
    rw [tick_reconfirmPending]
    exact hasking.lead_pending hnewer hopen

theorem Asking.authorityReconfirmed (hasking : w.Asking) (hnewer : w.AdoptsNewer x) :
    w.AuthorityReconfirmed cfg x := by
  intro hauth
  by_contra hopen
  obtain ⟨-, hauth⟩ := Node.report_authorized_eq_some_iff.mp hauth
  obtain ⟨d, hdecided⟩ := Option.isSome_iff_exists.mp (lead_decided_isSome cfg x hasking.decided)
  obtain ⟨-, -, hpending⟩ :=
    Supervisor.rawAuth_of_decided hdecided (Supervisor.rawAuth_of_authorized hauth)
  rw [hasking.lead_pending hnewer hopen] at hpending
  cases hpending

/-- In a run in which every decision that is adopted is newer than the stalls it answers,
no tick is authorized before the last stall is answered. -/
theorem authorityReconfirmed_of_run {node : Node} {inputs : List CheckedTick}
    (hdecided : node.sup.decided.isSome)
    (hsteps : EachStep (tick cfg) AdoptsNewer ⟨node, []⟩ inputs) :
    EachStep (tick cfg) (AuthorityReconfirmed cfg) ⟨node, []⟩ inputs := by
  refine hsteps.of_invariant (I := Asking) ?_ ?_ ⟨hdecided, fun h => absurd rfl h⟩
  · exact fun w x hasking hnewer => hasking.tick hnewer
  · exact fun w x hasking hnewer => hasking.authorityReconfirmed hnewer

/-- Node 1 stalls after its first tick. By the next one `shared` has been published, and it
adopts `current`; both peers report that. -/
def stallThenConfirm (shared current : Option Decision) : List CheckedTick :=
  [⟨some ⟨1, 1⟩, .plain 100 (heardBoth 100 1) (some ⟨1, 1⟩)⟩,
    ⟨shared, .plain 5000 (heardBoth 5000 2) current⟩,
    ⟨current, .plain 5800 (heardBoth 5800 2) current⟩,
    ⟨current, .plain 6600 (heardBoth 6600 2) current⟩]

/-- The decision comes between the stall check and the adoption. -/
theorem authorityReconfirmed_of_newer :
    EachStep (tick (.threeNodes 1 (by decide)))
      (AuthorityReconfirmed (.threeNodes 1 (by decide))) ⟨.firstPrimary ⟨false, "", ""⟩, []⟩
      (stallThenConfirm (some ⟨1, 1⟩) (some ⟨2, 1⟩)) := by
  refine authorityReconfirmed_of_run rfl ⟨?_, ?_, ?_, ?_, trivial⟩
  all_goals
    unfold AdoptsNewer
    decide

/-- The decision came during the stall: it counts as its own reconfirmation. -/
theorem not_authorityReconfirmed_of_older :
    ¬ ∀ (cfg : Config) (node : Node) (inputs : List CheckedTick), node.sup.decided.isSome →
      EachStep (tick cfg) (AuthorityReconfirmed cfg) ⟨node, []⟩ inputs := by
  intro hreconfirmed
  obtain ⟨-, -, -, hlast, -⟩ := hreconfirmed (.threeNodes 1 (by decide))
    (.firstPrimary ⟨false, "", ""⟩) (stallThenConfirm (some ⟨2, 1⟩) (some ⟨2, 1⟩)) rfl
  have hanswered := hlast (by decide)
  revert hanswered
  decide

end StallWatch

end PgReplica
