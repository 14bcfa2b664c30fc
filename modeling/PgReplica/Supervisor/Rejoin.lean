import PgReplica.Foundation.Run
import PgReplica.Supervisor.Tick

/-! # One rejoin for each deposition

The flag `rejoining` keeps the script from being started twice. A decision that only
ratifies the primary again clears it like one that names another primary.
-/

namespace PgReplica

open Foundation

/-- The primary is another node of which the configuration knows how to rejoin it. -/
@[mk_iff] structure Config.Deposes (cfg : Config) (primary : Nat) : Prop where
  ne_zero : primary ≠ 0
  ne_self : primary ≠ cfg.nodeId
  script : cfg.rejoinScript.isEmpty = false
  member : (cfg.findMember primary).isSome = true

namespace Supervisor

variable {s : Supervisor} {cfg : Config} {inp : TickInput}

@[simp] theorem lead_rejoining : (s.lead cfg inp).rejoining =
    if s.decisionChanged inp.currentDecision then false else s.rejoining := rfl

/-- A node is not authorized under a decision that names another one. -/
theorem authorized_of_other (hzero : s.decidedPrimary ≠ 0) (hself : s.decidedPrimary ≠ cfg.nodeId) :
    s.authorized cfg inp = false := by
  by_contra hauth
  rw [Bool.not_eq_false] at hauth
  obtain ⟨d, hdecided, hprimary⟩ := exists_decided_of_decidedPrimary_eq hzero rfl
  obtain ⟨hnode, -⟩ := rawAuth_of_decided hdecided (rawAuth_of_authorized hauth)
  exact hself (hprimary ▸ hnode)

/-- When the script is started. -/
theorem rejoin_isSome_iff : (s.rejoin cfg inp).isSome = true ↔ cfg.Deposes s.decidedPrimary ∧
    s.rejoining = false ∧ (s.rejoinDatadir inp).isEmpty = false := by
  by_cases hzero : s.decidedPrimary = 0
  · simp [rejoin, hzero, Config.deposes_iff]
  by_cases hself : s.decidedPrimary = cfg.nodeId
  · simp [rejoin, hself, Config.deposes_iff]
  cases hmember : cfg.findMember s.decidedPrimary with
  | none => simp [rejoin, hmember, Config.deposes_iff]
  | some member =>
      simp only [rejoin, authorized_of_other hzero hself, hmember, Config.deposes_iff]
      cases hrejoining : s.rejoining <;> cases hscript : cfg.rejoinScript.isEmpty <;>
        cases hdir : (s.rejoinDatadir inp).isEmpty <;> simp [hzero, hself]

end Supervisor

/-- A tick out of recovery. -/
abbrev PrimaryTick := { inp : TickInput // inp.inRecovery = false }

/-- A node, how often it has started the script since the decided primary last changed,
and whether a decision for the same primary has been adopted since it did. -/
structure RejoinWatch where
  node : Node
  spawned : Nat
  ratified : Bool

namespace RejoinWatch

variable (cfg : Config) (w : RejoinWatch) (x : PrimaryTick)

/-- The tick takes another primary. -/
def changes : Bool :=
  (w.node.sup.lead cfg x.1).decidedPrimary != w.node.sup.decidedPrimary

def spawnedBefore : Nat :=
  if w.changes cfg x then 0 else w.spawned

def ratifiedBefore : Bool :=
  !w.changes cfg x && (w.ratified || w.node.sup.decisionChanged x.1.currentDecision)

def spawns : Bool :=
  (w.node.report cfg x.1).rejoin.isSome

def tick : RejoinWatch where
  node := w.node.tick cfg x.1
  spawned := w.spawnedBefore cfg x + (w.spawns cfg x).toNat
  ratified := !w.spawns cfg x && w.ratifiedBefore cfg x

/-- After the tick the script has been started at most once against the decided primary. -/
def AtMostOnce : Prop :=
  (w.tick cfg x).spawned ≤ 1

/-- Against a primary that was ratified again after the script was started, the tick does
not know the data directory. -/
def RatifiedUnknown : Prop :=
  1 ≤ w.spawnedBefore cfg x → w.ratifiedBefore cfg x = true →
    ((w.node.sup.lead cfg x.1).rejoinDatadir x.1).isEmpty = true

instance : Decidable (w.AtMostOnce cfg x) :=
  inferInstanceAs (Decidable (_ ≤ _))

instance : Decidable (w.RatifiedUnknown cfg x) :=
  inferInstanceAs (Decidable (_ → _))

/-- What the flag says about the scripts that were started. -/
structure Counted : Prop where
  le : w.spawned ≤ 1
  rejoining : w.node.sup.rejoining = true ↔ w.spawned = 1 ∧ w.ratified = false
  deposed : w.spawned = 1 → cfg.Deposes w.node.sup.decidedPrimary

variable {cfg w x}

theorem spawns_iff : w.spawns cfg x = true ↔
    cfg.Deposes (w.node.sup.lead cfg x.1).decidedPrimary ∧
      (w.node.sup.lead cfg x.1).rejoining = false ∧
      ((w.node.sup.lead cfg x.1).rejoinDatadir x.1).isEmpty = false := by
  rw [← Supervisor.rejoin_isSome_iff, spawns, Node.report, x.2]
  rfl

/-- Only the adoption of a decision changes the primary. -/
theorem decisionChanged_of_changes (hchanges : w.changes cfg x = true) :
    w.node.sup.decisionChanged x.1.currentDecision = true := by
  by_contra hsame
  rw [Bool.not_eq_true] at hsame
  simp [changes, Supervisor.decidedPrimary, hsame] at hchanges

/-- The same relations when the tick looks at the flag. -/
theorem Counted.lead_rejoining_iff (hcounted : w.Counted cfg) :
    (w.node.sup.lead cfg x.1).rejoining = true ↔
      w.spawnedBefore cfg x = 1 ∧ w.ratifiedBefore cfg x = false := by
  rw [Supervisor.lead_rejoining, spawnedBefore, ratifiedBefore]
  cases hchanges : w.changes cfg x with
  | true => simp [decisionChanged_of_changes hchanges]
  | false =>
      cases hadopts : w.node.sup.decisionChanged x.1.currentDecision with
      | true => simp
      | false => simpa using hcounted.rejoining

theorem Counted.lead_deposed (hcounted : w.Counted cfg) (hspawned : w.spawnedBefore cfg x = 1) :
    cfg.Deposes (w.node.sup.lead cfg x.1).decidedPrimary := by
  unfold spawnedBefore at hspawned
  split at hspawned
  next => cases hspawned
  next hsame =>
    have heq : (w.node.sup.lead cfg x.1).decidedPrimary = w.node.sup.decidedPrimary := by
      simpa [changes] using hsame
    rw [heq]
    exact hcounted.deposed hspawned

theorem Counted.spawnedBefore_le (hcounted : w.Counted cfg) : w.spawnedBefore cfg x ≤ 1 := by
  unfold spawnedBefore
  split
  next => exact Nat.zero_le 1
  next => exact hcounted.le

/-- A tick starts the script a second time exactly when the primary was ratified again and
the data directory is known. -/
theorem Counted.atMostOnce_iff (hcounted : w.Counted cfg) :
    w.AtMostOnce cfg x ↔ w.RatifiedUnknown cfg x := by
  have hle := hcounted.spawnedBefore_le (x := x)
  rw [AtMostOnce, tick, RatifiedUnknown]
  by_cases hspawned : w.spawnedBefore cfg x = 1
  · have hagain : w.spawns cfg x = true ↔ w.ratifiedBefore cfg x = true ∧
        ((w.node.sup.lead cfg x.1).rejoinDatadir x.1).isEmpty = false := by
      rw [spawns_iff, ← Bool.not_eq_true, hcounted.lead_rejoining_iff]
      simp [hcounted.lead_deposed hspawned, hspawned]
    cases hspawns : w.spawns cfg x <;> simp_all
  · have hzero : w.spawnedBefore cfg x = 0 := by omega
    cases hspawns : w.spawns cfg x <;> simp [hzero]

theorem Counted.tick (hcounted : w.Counted cfg) (honce : w.AtMostOnce cfg x) :
    (w.tick cfg x).Counted cfg := by
  have hrejoining : (w.node.tick cfg x.1).sup.rejoining =
      ((w.node.sup.lead cfg x.1).rejoining || w.spawns cfg x) := by
    rw [Node.tick_of_primary x.2, spawns, Node.report, x.2]
    rfl
  have hprimary : (w.node.tick cfg x.1).sup.decidedPrimary =
      (w.node.sup.lead cfg x.1).decidedPrimary := by
    rw [Node.tick_of_primary x.2]
    rfl
  refine ⟨honce, ?_, fun hspawned => ?_⟩
  · change (w.node.tick cfg x.1).sup.rejoining = true ↔ _
    rw [hrejoining]
    cases hspawns : w.spawns cfg x with
    | true =>
        have hle : w.spawnedBefore cfg x + 1 ≤ 1 := by
          simpa [AtMostOnce, RejoinWatch.tick, hspawns] using honce
        have hone : w.spawnedBefore cfg x + 1 = 1 := by omega
        simp [RejoinWatch.tick, hspawns, hone]
    | false => simpa [RejoinWatch.tick, hspawns] using hcounted.lead_rejoining_iff
  · change cfg.Deposes (w.node.tick cfg x.1).sup.decidedPrimary
    rw [hprimary]
    cases hspawns : w.spawns cfg x with
    | true => exact (spawns_iff.mp hspawns).1
    | false =>
        refine hcounted.lead_deposed ?_
        simpa [RejoinWatch.tick, hspawns] using hspawned

/-- A node starts the script at most once between two changes of the primary exactly when it
never knows the data directory after the primary was ratified again. -/
theorem atMostOnce_iff_of_run {node : Node} {inputs : List PrimaryTick} (hstart : node.Started) :
    EachStep (tick cfg) (AtMostOnce cfg) ⟨node, 0, false⟩ inputs ↔
      EachStep (tick cfg) (RatifiedUnknown cfg) ⟨node, 0, false⟩ inputs := by
  refine EachStep.iff_of_invariant (I := Counted cfg) ?_ ?_ ⟨Nat.zero_le 1, ?_, by simp⟩
  · exact fun w x hcounted hunknown => hcounted.tick (hcounted.atMostOnce_iff.mpr hunknown)
  · exact fun w x hcounted => hcounted.atMostOnce_iff
  · obtain ⟨current, now, hsup⟩ := hstart
    rw [hsup]
    simp [Supervisor.start]

/-- One of three nodes, which can rejoin. -/
def rejoining (id : Nat) (hid : id ∈ [1, 2, 3]) : Config :=
  { Config.threeNodes id hid with rejoinScript := "/rejoin.sh" }

/-- Node 1 was the primary; it learns of the given decisions, one a tick. -/
def deposedBy (decisions : List Decision) : List PrimaryTick :=
  decisions.map fun d =>
    ⟨{ TickInput.plain 100 [] (some d) with dataDirectory := some "/data" }, rfl⟩

/-- Deposed twice, by node 2 and by node 3, it starts the script twice. -/
theorem atMostOnce_two_primaries :
    EachStep (tick (rejoining 1 (by decide))) (AtMostOnce (rejoining 1 (by decide)))
      ⟨.firstPrimary ⟨false, "", ""⟩, 0, false⟩ (deposedBy [⟨2, 2⟩, ⟨2, 2⟩, ⟨3, 3⟩]) := by
  refine (atMostOnce_iff_of_run (Node.firstPrimary_started _)).mpr ?_
  decide

/-- Node 2 is ratified while the script runs, and the script is started again. -/
theorem not_atMostOnce_of_ratified :
    ¬ ∀ (cfg : Config) (node : Node) (inputs : List PrimaryTick), node.Started →
      EachStep (tick cfg) (AtMostOnce cfg) ⟨node, 0, false⟩ inputs := by
  intro honce
  have hsteps := honce (rejoining 1 (by decide)) (.firstPrimary ⟨false, "", ""⟩)
    (deposedBy [⟨2, 2⟩, ⟨3, 2⟩]) (Node.firstPrimary_started _)
  revert hsteps
  decide

end RejoinWatch

end PgReplica
