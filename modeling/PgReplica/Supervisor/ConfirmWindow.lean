import Mathlib.Data.List.Chain
import PgReplica.Foundation.Run
import PgReplica.Supervisor.Tick

/-! # The confirm window

`authorized_since` says how long authority has been confirmed without a break.
What it stands for is a property of the ticks that were run, not of the state.
-/

namespace PgReplica

open Foundation

/-- A tick of a run: the node it found and what it read. -/
structure PastTick where
  node : Node
  input : TickInput

namespace PastTick

/-- The tick was out of recovery and found `raw_auth` true. -/
def Confirms (cfg : Config) (x : PastTick) : Prop :=
  x.input.inRecovery = false ∧ (x.node.sup.lead cfg x.input).rawAuth cfg x.input = true

/-- The second of two ticks comes at most `stall_threshold` after the first. -/
def Follows (x y : PastTick) : Prop :=
  y.input.loopNow ≤ x.input.loopNow + stallThreshold

end PastTick

/-- From a tick that read its clock at `since` on, every tick confirms and none comes late. -/
def ConfirmedSince (cfg : Config) (past : List PastTick) (since : Nat) : Prop :=
  ∃ before first rest, past = before ++ first :: rest ∧ first.input.sinceNow = since ∧
    (∀ x ∈ first :: rest, x.Confirms cfg) ∧ (first :: rest).IsChain PastTick.Follows

section Window

variable {cfg : Config} {past : List PastTick} {x : PastTick}

theorem confirmedSince_of_last (hconfirms : x.Confirms cfg) :
    ConfirmedSince cfg (past ++ [x]) x.input.sinceNow :=
  ⟨past, x, [], rfl, rfl, by simpa using hconfirms, List.isChain_singleton x⟩

/-- A tick that confirms and is not late continues the window. -/
theorem ConfirmedSince.append {since : Nat} (hconfirmed : ConfirmedSince cfg past since)
    (hconfirms : x.Confirms cfg) (hfollows : ∀ last ∈ past.getLast?, last.Follows x) :
    ConfirmedSince cfg (past ++ [x]) since := by
  obtain ⟨before, first, rest, rfl, hsince, hall, hchain⟩ := hconfirmed
  refine ⟨before, first, rest ++ [x], by simp, hsince, fun y hy => ?_, ?_⟩
  · rw [← List.cons_append] at hy
    rcases List.mem_append.mp hy with hmem | hmem
    · exact hall y hmem
    · rwa [List.mem_singleton.mp hmem]
  · rw [← List.cons_append]
    refine hchain.append (List.isChain_singleton x) fun last hlast y hy => ?_
    obtain rfl : x = y := by simpa using hy
    refine hfollows last ?_
    rw [List.getLast?_append, Option.mem_def.mp hlast]
    rfl

end Window

/-- A node together with the ticks it has run since its start. -/
structure ConfirmWatch where
  node : Node
  past : List PastTick

namespace ConfirmWatch

variable (cfg : Config) (w : ConfirmWatch) (inp : TickInput)

def tick : ConfirmWatch where
  node := w.node.tick cfg inp
  past := w.past ++ [⟨w.node, inp⟩]

/-- A tick that is authorized under a decision on a node not known to be writable ends a
window of at least `confirm_window`. -/
def AuthorityConfirmed : Prop :=
  (w.node.report cfg inp).authorized = some true →
    (w.node.sup.lead cfg inp).decided.isSome = true →
      (w.node.sup.lead cfg inp).appliedReadOnly ≠ some false →
        ∃ since, since + confirmWindow ≤ inp.windowNow ∧
          ConfirmedSince cfg (w.tick cfg inp).past since

/-- What `authorized_since` and `last_loop` say about the ticks that were run. -/
structure Recorded : Prop where
  lastLoop : ∀ x ∈ w.past.getLast?, x.input.loopNow = w.node.sup.lastLoop
  since : ∀ since, w.node.sup.authorizedSince = some since → ConfirmedSince cfg w.past since

variable {cfg w inp}

/-- The tick's own `authorized_since`, once it is known that `raw_auth` is true. -/
theorem Recorded.confirmedSince (hrecorded : w.Recorded cfg) (hrecovery : inp.inRecovery = false)
    {since : Nat} (hsince : (w.node.sup.lead cfg inp).nextAuthorizedSince cfg inp = some since) :
    ConfirmedSince cfg (w.tick cfg inp).past since := by
  have hconfirms : (⟨w.node, inp⟩ : PastTick).Confirms cfg :=
    ⟨hrecovery, Supervisor.rawAuth_of_nextAuthorizedSince hsince⟩
  rcases Supervisor.nextAuthorizedSince_eq_some hsince with rfl | hheld
  · exact confirmedSince_of_last hconfirms
  · refine (hrecorded.since since (Supervisor.authorizedSince_of_lead hheld)).append hconfirms ?_
    intro last hlast
    have hgap : ¬ stallThreshold < inp.loopNow - w.node.sup.lastLoop := by
      simpa [Supervisor.stalled] using Supervisor.not_stalled_of_authorizedSince hheld
    rw [← hrecorded.lastLoop last hlast] at hgap
    change inp.loopNow ≤ last.input.loopNow + stallThreshold
    omega

theorem Recorded.tick (hrecorded : w.Recorded cfg) : (w.tick cfg inp).Recorded cfg where
  lastLoop := by
    intro x hx
    obtain rfl : ⟨w.node, inp⟩ = x := by simpa [ConfirmWatch.tick] using hx
    exact Node.tick_lastLoop.symm
  since := by
    intro since hsince
    change (w.node.tick cfg inp).sup.authorizedSince = some since at hsince
    cases hrecovery : inp.inRecovery with
    | true =>
        rw [Node.tick_of_recovery hrecovery] at hsince
        cases hsince
    | false =>
        rw [Node.tick_of_primary hrecovery] at hsince
        exact hrecorded.confirmedSince hrecovery hsince

theorem Recorded.authorityConfirmed (hrecorded : w.Recorded cfg) :
    w.AuthorityConfirmed cfg inp := by
  intro hauth hdecided hcache
  obtain ⟨hrecovery, hauth⟩ := Node.report_authorized_eq_some_iff.mp hauth
  have hraw := Supervisor.rawAuth_of_authorized hauth
  have hopens : (w.node.sup.lead cfg inp).opensAtOnce = false := by
    rw [Supervisor.opensAtOnce, Bool.or_eq_false_iff]
    exact ⟨Option.isNone_eq_false_iff.mpr hdecided, by simpa using hcache⟩
  have hwindow : confirmWindow ≤ inp.windowNow -
      (w.node.sup.lead cfg inp).authorizedSince.getD inp.sinceNow := by
    rw [Supervisor.authorized, hraw, hopens] at hauth
    simpa only [Bool.not_true, Bool.false_eq_true, if_false, decide_eq_true_eq] using hauth
  refine ⟨(w.node.sup.lead cfg inp).authorizedSince.getD inp.sinceNow, ?_,
    hrecorded.confirmedSince hrecovery ?_⟩
  · have hpos : 0 < confirmWindow := by decide
    omega
  · simp [Supervisor.nextAuthorizedSince, hraw, hopens]

/-- In every run a node that is not known to be writable is authorized under a decision
only at the end of a confirm window. -/
theorem authorityConfirmed_of_run {node : Node} {inputs : List TickInput}
    (hstart : node.Started) : EachStep (tick cfg) (AuthorityConfirmed cfg) ⟨node, []⟩ inputs := by
  refine EachStep.of_preserved (I := Recorded cfg) ?_ ?_ ⟨by simp, ?_⟩
  · exact fun w inp hrecorded => hrecorded.tick
  · exact fun w inp hrecorded => hrecorded.authorityConfirmed
  · obtain ⟨current, now, hsup⟩ := hstart
    intro since hsince
    rw [hsup] at hsince
    cases hsince

/-- The primary restarts, hears both peers and is authorized 1500 ms after its first tick. -/
theorem authorityConfirmed_restarted :
    let cfg := Config.threeNodes 1 (by decide)
    let inputs := [TickInput.plain 100 (heardBoth 100 1) (some ⟨1, 1⟩),
      .plain 900 (heardBoth 900 1) (some ⟨1, 1⟩), .plain 1600 (heardBoth 1600 1) (some ⟨1, 1⟩)]
    EachStep (tick cfg) (AuthorityConfirmed cfg) ⟨.firstPrimary ⟨false, "", ""⟩, []⟩ inputs ∧
      EachStep (tick cfg) (fun w inp =>
        (w.node.report cfg inp).authorized = some (decide (inp.loopNow = 1600)))
        ⟨.firstPrimary ⟨false, "", ""⟩, []⟩ inputs :=
  ⟨authorityConfirmed_of_run (Node.firstPrimary_started _), by decide⟩

end ConfirmWatch

end PgReplica
