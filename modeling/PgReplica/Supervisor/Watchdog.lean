import PgReplica.Foundation.Run
import PgReplica.Supervisor.Tick

/-! # The deadman watchdog

`watchdog.sh` runs beside the supervisor and knows it by its heartbeat file only. On a
Postgres out of recovery whose heartbeat is stale it sets
`default_transaction_read_only`, behind the back of the supervisor's cache. The
supervisor starts it with itself and again from time to time, and a second one finds
the lock taken. One clock, in milliseconds, stands for the monotonic clock of the
supervisor, the system time of its heartbeats and the `date` of the script, and a tick
and a command of the watchdog come one after the other.
-/

namespace PgReplica

open Foundation

/-- `STALE_MS`. -/
def staleAfter : Nat := 2000

/-- Polls without an answer after which the watchdog exits. -/
def missLimit : Nat := 20

/-- The command that the watchdog runs next. -/
inductive WatchdogStage where
  | sleeping
  | primary
  | dated (now : Nat)
  | stale
  | fencing
  | reloading
  | exited
deriving DecidableEq

/-- A node with its Postgres and its watchdog. `loaded` is the setting that new
transactions get, and `since` the time at which the watchdog came to its stage. -/
structure GuardedNode where
  node : Node
  inRecovery : Bool
  loaded : Bool
  heartbeat : Option Nat
  stage : WatchdogStage
  misses : Nat
  since : Nat
  clock : Nat

/-- A tick comes with the heartbeat that it writes, if it can; it and a start of the
supervisor come with whether the script can be spawned. An answer of `psql` is empty where
the server cannot be reached. -/
inductive GuardEvent where
  | tick (inp : TickInput) (beat : Option Nat) (spawns : Bool)
  | poll (answer : Option Bool)
  | date
  | cat
  | showReadOnly (answer : Option Bool)
  | alter (outcome : SqlOutcome)
  | reload (outcome : SqlOutcome)
  | leaveRecovery
  | restart (current : Option Decision) (inRecovery spawns : Bool)

structure TimedGuard where
  time : Nat
  event : GuardEvent

/-- Whether `apply_setting` has made the server read its configuration. -/
def SettingOutcome.reloads (outcome : SettingOutcome) : Bool :=
  outcome.alter.isOk && outcome.reload.tookEffect

namespace Supervisor

variable (s : Supervisor) (cfg : Config) (inp : TickInput)

/-- What the commands of a tick in recovery leave loaded. The fence before `pg_promote`
reloads whether or not its `ALTER SYSTEM` was reported as successful. -/
def recoverLoaded (settings : Settings) (loaded : Bool) : Bool :=
  let cleared := if s.clearsSync && inp.clearSync.reloads then settings.readOnly else loaded
  if s.promotes cfg then
    if inp.promoteFence.reload.tookEffect then
      inp.promoteFence.alter.tookEffect || settings.readOnly
    else cleared
  else if s.repoints cfg && inp.repoint.reloads then settings.readOnly
  else cleared

/-- What the commands of a tick out of recovery leave loaded: fence, sync, unfence. -/
def serveLoaded (settings : Settings) (loaded : Bool) : Bool :=
  let persisted := (s.fences cfg inp && inp.fence.tookEffect) || settings.readOnly
  let fenced := if s.fences cfg inp && inp.fence.reloads then persisted else loaded
  let synced := if s.syncs cfg inp && inp.sync.reloads then persisted else fenced
  if s.unfences cfg inp && inp.unfence.reloads then false else synced

end Supervisor

namespace GuardedNode

variable (cfg : Config) (s : GuardedNode)

/-- The watchdog's next command at `now`. -/
def goTo (now : Nat) (stage : WatchdogStage) : GuardedNode :=
  { s with stage, since := now, clock := now }

/-- `spawn_watchdog`. Only after the watchdog has exited is the lock free. -/
def spawnWatchdog (now : Nat) (spawns : Bool) : GuardedNode :=
  if spawns ∧ s.stage = .exited then { s.goTo now .sleeping with misses := 0 } else s

/-- The watchdog is spawned on every fiftieth tick. -/
def respawns (spawns : Bool) : Bool :=
  s.node.sup.ticks % 50 == 49 && spawns

/-- A tick, which no command of the watchdog interrupts. -/
def ticked (now : Nat) (inp : TickInput) (beat : Option Nat) (spawns : Bool) : GuardedNode :=
  let lead := s.node.sup.lead cfg inp
  { s.spawnWatchdog now (s.respawns spawns) with
    node := s.node.tick cfg inp
    loaded :=
      if inp.inRecovery then lead.recoverLoaded cfg inp s.node.settings s.loaded
      else lead.serveLoaded cfg inp s.node.settings s.loaded
    heartbeat := beat.or s.heartbeat
    clock := now }

/-- A node whose server has been started again: the configuration is read, and a
watchdog that runs runs on. -/
def restarted (now : Nat) (current : Option Decision) (inRecovery spawns : Bool) : GuardedNode :=
  { s.spawnWatchdog now spawns with
    node := ⟨Supervisor.start current now, s.node.settings⟩
    inRecovery
    loaded := s.node.settings.readOnly
    clock := now }

/-- What an event leads to, and `none` where it cannot happen. Answers are true. -/
def after (a : TimedGuard) : Option GuardedNode :=
  match a.event with
  | .tick inp beat spawns =>
      if inp.inRecovery = s.inRecovery ∧ s.clock ≤ inp.loopNow ∧ inp.loopNow ≤ a.time ∧
          ∀ b ∈ beat, inp.loopNow ≤ b ∧ b ≤ a.time then
        some (s.ticked cfg a.time inp beat spawns)
      else none
  | .poll answer =>
      match s.stage, answer with
      | .sleeping, none =>
          let misses := s.misses + 1
          let stage := if missLimit ≤ misses then .exited else .sleeping
          some { s.goTo a.time stage with misses }
      | .sleeping, some inRecovery =>
          if inRecovery = s.inRecovery then
            some { s.goTo a.time (if inRecovery then .sleeping else .primary) with misses := 0 }
          else none
      | _, _ => none
  | .date =>
      match s.stage with
      | .primary => some (s.goTo a.time (.dated a.time))
      | _ => none
  | .cat =>
      match s.stage with
      | .dated now =>
          -- a missing or empty file counts as a heartbeat at 0
          some (s.goTo a.time
            (if s.heartbeat.getD 0 + staleAfter ≤ now then .stale else .sleeping))
      | _ => none
  | .showReadOnly answer =>
      match s.stage, answer with
      | .stale, none => some (s.goTo a.time .fencing)
      | .stale, some readOnly =>
          if readOnly = s.loaded then
            some (s.goTo a.time (if readOnly then .sleeping else .fencing))
          else none
      | _, _ => none
  | .alter outcome =>
      match s.stage with
      | .fencing =>
          let readOnly := outcome.tookEffect || s.node.settings.readOnly
          let settings := { s.node.settings with readOnly }
          some { s.goTo a.time .reloading with node := ⟨s.node.sup, settings⟩ }
      | _ => none
  | .reload outcome =>
      match s.stage with
      | .reloading =>
          let loaded := if outcome.tookEffect then s.node.settings.readOnly else s.loaded
          some { s.goTo a.time .sleeping with loaded }
      | _ => none
  | .leaveRecovery =>
      if s.inRecovery = true then some { s with inRecovery := false, clock := a.time } else none
  | .restart current inRecovery spawns =>
      some (s.restarted a.time current inRecovery spawns)

/-- Time does not go back. -/
structure Step (s : GuardedNode) (a : TimedGuard) (s' : GuardedNode) : Prop where
  after : s.after cfg a = some s'
  clock_le : s.clock ≤ a.time

/-- The moves of a guarded node. -/
inductive Moves (s : GuardedNode) (now : Nat) : GuardEvent → GuardedNode → Prop
  | tick {inp : TickInput} {beat : Option Nat} {spawns : Bool} (hrecovery : inp.inRecovery = s.inRecovery)
      (hfrom : s.clock ≤ inp.loopNow) (huntil : inp.loopNow ≤ now)
      (hbeat : ∀ b ∈ beat, inp.loopNow ≤ b ∧ b ≤ now) :
      Moves s now (.tick inp beat spawns) (s.ticked cfg now inp beat spawns)
  | missed (hstage : s.stage = .sleeping) {stage : WatchdogStage}
      (hnext : stage = .exited ∨ stage = .sleeping) :
      Moves s now (.poll none) { s.goTo now stage with misses := s.misses + 1 }
  | polled (hstage : s.stage = .sleeping) :
      Moves s now (.poll (some s.inRecovery))
        { s.goTo now (if s.inRecovery then .sleeping else .primary) with misses := 0 }
  | dated (hstage : s.stage = .primary) : Moves s now .date (s.goTo now (.dated now))
  | fresh {dated : Nat} (hstage : s.stage = .dated dated)
      (hfresh : ¬ s.heartbeat.getD 0 + staleAfter ≤ dated) :
      Moves s now .cat (s.goTo now .sleeping)
  | stale {dated : Nat} (hstage : s.stage = .dated dated)
      (hstale : s.heartbeat.getD 0 + staleAfter ≤ dated) : Moves s now .cat (s.goTo now .stale)
  | fenced (hstage : s.stage = .stale) (hloaded : s.loaded = true) :
      Moves s now (.showReadOnly (some true)) (s.goTo now .sleeping)
  | open {answer : Option Bool} (hstage : s.stage = .stale)
      (hanswer : answer = none ∨ (answer = some false ∧ s.loaded = false)) :
      Moves s now (.showReadOnly answer) (s.goTo now .fencing)
  | alter {outcome : SqlOutcome} (hstage : s.stage = .fencing) :
      Moves s now (.alter outcome)
        { s.goTo now .reloading with
          node := ⟨s.node.sup, { s.node.settings with
            readOnly := outcome.tookEffect || s.node.settings.readOnly }⟩ }
  | reload {outcome : SqlOutcome} (hstage : s.stage = .reloading) :
      Moves s now (.reload outcome)
        { s.goTo now .sleeping with
          loaded := if outcome.tookEffect then s.node.settings.readOnly else s.loaded }
  | leaveRecovery (hrecovery : s.inRecovery = true) :
      Moves s now .leaveRecovery { s with inRecovery := false, clock := now }
  | restart {current : Option Decision} {inRecovery spawns : Bool} :
      Moves s now (.restart current inRecovery spawns)
        (s.restarted now current inRecovery spawns)

theorem spawnWatchdog_stage (now : Nat) (spawns : Bool) :
    (s.spawnWatchdog now spawns).stage = s.stage ∨
      (s.spawnWatchdog now spawns).stage = .sleeping := by
  rw [spawnWatchdog]
  split
  · exact .inr rfl
  · exact .inl rfl

variable {cfg s} {s' : GuardedNode} {a : TimedGuard}

theorem moves_of_step (hstep : Step cfg s a s') : Moves cfg s a.time a.event s' := by
  obtain ⟨time, event⟩ := a
  have hafter := hstep.after
  cases event with
  | tick inp beat spawns =>
      obtain ⟨⟨hrecovery, hfrom, huntil, hbeat⟩, hsome⟩ := Option.ite_none_right_eq_some.mp hafter
      cases hsome
      exact .tick hrecovery hfrom huntil hbeat
  | poll answer =>
      simp only [after] at hafter
      split at hafter
      next hstage =>
        cases hafter
        refine .missed hstage ?_
        split
        · exact .inl rfl
        · exact .inr rfl
      next hstage =>
        obtain ⟨rfl, hsome⟩ := Option.ite_none_right_eq_some.mp hafter
        cases hsome
        exact .polled hstage
      next => cases hafter
  | date =>
      simp only [after] at hafter
      split at hafter
      next hstage =>
        cases hafter
        exact .dated hstage
      next => cases hafter
  | cat =>
      simp only [after] at hafter
      split at hafter
      next hstage =>
        cases hafter
        split
        next hstale => exact .stale hstage hstale
        next hfresh => exact .fresh hstage hfresh
      next => cases hafter
  | showReadOnly answer =>
      simp only [after] at hafter
      split at hafter
      next hstage =>
        cases hafter
        exact .open hstage (.inl rfl)
      next hstage =>
        obtain ⟨rfl, hsome⟩ := Option.ite_none_right_eq_some.mp hafter
        cases hsome
        cases hloaded : s.loaded with
        | true => exact .fenced hstage hloaded
        | false => exact .open hstage (.inr ⟨rfl, hloaded⟩)
      next => cases hafter
  | alter outcome =>
      simp only [after] at hafter
      split at hafter
      next hstage =>
        cases hafter
        exact .alter hstage
      next => cases hafter
  | reload outcome =>
      simp only [after] at hafter
      split at hafter
      next hstage =>
        cases hafter
        exact .reload hstage
      next => cases hafter
  | leaveRecovery =>
      obtain ⟨hrecovery, hsome⟩ := Option.ite_none_right_eq_some.mp hafter
      cases hsome
      exact .leaveRecovery hrecovery
  | restart current inRecovery spawns =>
      cases hafter
      exact .restart

/-! ## A supervisor that hangs -/

/-- The watchdog moves and gets through to the server. -/
def Answered : GuardEvent → Prop
  | .poll answer => answer.isSome
  | .alter outcome | .reload outcome => outcome.tookEffect = true
  | .date | .cat | .showReadOnly _ => True
  | .tick .. | .leaveRecovery | .restart .. => False

instance : ∀ e, Decidable (Answered e)
  | .poll answer => inferInstanceAs (Decidable (answer.isSome = true))
  | .alter outcome | .reload outcome => inferInstanceAs (Decidable (outcome.tookEffect = true))
  | .date | .cat | .showReadOnly _ => isTrue trivial
  | .tick .. | .leaveRecovery | .restart .. => isFalse id

/-- Only the watchdog moves, and no command of it takes longer than `wait`. -/
@[mk_iff] structure Hangs (wait : Nat) (s : GuardedNode) (a : TimedGuard) : Prop where
  answered : Answered a.event
  prompt : a.time ≤ s.since + wait

instance (wait : Nat) (s : GuardedNode) (a : TimedGuard) : Decidable (Hangs wait s a) :=
  decidable_of_iff _ (hangs_iff wait s a).symm

/-- New transactions are read-only, and the watchdog does not change that. -/
structure Shut (s : GuardedNode) : Prop where
  loaded : s.loaded = true
  reloading : s.stage = .reloading → s.node.settings.readOnly = true

/-- How far the watchdog has come since `bound`, from when on it finds the heartbeat
stale. -/
def Approaches (bound wait : Nat) (s : GuardedNode) : Prop :=
  match s.stage with
  | .sleeping => s.since ≤ bound + wait
  | .primary => s.since ≤ bound + 2 * wait
  | .dated now => s.since ≤ bound ∨ (s.since = now ∧ s.since ≤ bound + 3 * wait)
  | .stale => s.since ≤ bound + 4 * wait
  | .fencing => s.since ≤ bound + 5 * wait
  | .reloading => s.since ≤ bound ∨
      (s.node.settings.readOnly = true ∧ s.since ≤ bound + 6 * wait)
  | .exited => False

theorem Shut.step (hshut : Shut s) (hstep : Step cfg s a s') (hanswered : Answered a.event) :
    Shut s' := by
  have hmoves := moves_of_step hstep
  generalize a.event = event at hmoves hanswered
  cases hmoves with
  | tick | leaveRecovery | restart => exact hanswered.elim
  | missed => cases hanswered
  | polled hstage =>
      refine ⟨hshut.loaded, fun hreloading => ?_⟩
      cases hrecovery : s.inRecovery <;> simp [goTo, hrecovery] at hreloading
  | dated | fresh | stale | fenced => exact ⟨hshut.loaded, by rintro ⟨⟩⟩
  | «open» => exact ⟨hshut.loaded, by rintro ⟨⟩⟩
  | alter hstage => exact ⟨hshut.loaded, fun _ => by simp [show _ = true from hanswered]⟩
  | @reload outcome hstage =>
      refine ⟨?_, by rintro ⟨⟩⟩
      have htook : outcome.tookEffect = true := hanswered
      simp only [htook, if_true]
      exact hshut.reloading hstage

/-- One command takes the watchdog one step closer. -/
theorem Approaches.step {bound wait : Nat} (happroaches : Approaches bound wait s)
    (hrecovery : s.inRecovery = false) (hheartbeat : s.heartbeat.getD 0 + staleAfter ≤ bound)
    (hstep : Step cfg s a s') (hhangs : Hangs wait s a) :
    Shut s' ∨ Approaches bound wait s' := by
  obtain ⟨hanswered, hprompt⟩ := hhangs
  have hmoves := moves_of_step hstep
  generalize a.event = event at hmoves hanswered
  generalize a.time = now at hmoves hprompt
  unfold Approaches at happroaches
  cases hmoves with
  | tick | leaveRecovery | restart => exact hanswered.elim
  | missed => cases hanswered
  | polled hstage =>
      rw [hstage] at happroaches
      refine .inr ?_
      simp only [hrecovery, Bool.false_eq_true, if_false, Approaches, goTo]
      omega
  | dated hstage =>
      rw [hstage] at happroaches
      refine .inr (.inr ⟨rfl, ?_⟩)
      change now ≤ _
      omega
  | fresh hstage hfresh =>
      rw [hstage] at happroaches
      refine .inr ?_
      change now ≤ _
      omega
  | stale hstage hstale =>
      rw [hstage] at happroaches
      refine .inr ?_
      change now ≤ _
      omega
  | fenced hstage hloaded => exact .inl ⟨hloaded, by rintro ⟨⟩⟩
  | «open» hstage hanswer =>
      rw [hstage] at happroaches
      refine .inr ?_
      change now ≤ _
      omega
  | @alter outcome hstage =>
      rw [hstage] at happroaches
      have htook : outcome.tookEffect = true := hanswered
      refine .inr (.inr ⟨by simp [htook], ?_⟩)
      change now ≤ _
      omega
  | @reload outcome hstage =>
      rw [hstage] at happroaches
      have htook : outcome.tookEffect = true := hanswered
      rcases happroaches with hearly | ⟨hreadOnly, -⟩
      · refine .inr ?_
        change now ≤ _
        omega
      · refine .inl ⟨?_, by rintro ⟨⟩⟩
        simp only [htook, if_true, hreadOnly]

/-- The watchdog runs on a server out of recovery whose supervisor has been silent since
before `bound`. -/
structure Nears (bound wait : Nat) (s : GuardedNode) : Prop where
  inRecovery : s.inRecovery = false
  heartbeat : s.heartbeat.getD 0 + staleAfter ≤ bound
  approaches : Shut s ∨ Approaches bound wait s

theorem Nears.step {bound wait : Nat} (hnears : Nears bound wait s) (hstep : Step cfg s a s')
    (hhangs : Hangs wait s a) : Nears bound wait s' := by
  have happroaches : Shut s' ∨ Approaches bound wait s' := by
    rcases hnears.approaches with hshut | happroaches
    · exact .inl (hshut.step hstep hhangs.answered)
    · exact happroaches.step hnears.inRecovery hnears.heartbeat hstep hhangs
  have hanswered := hhangs.answered
  have hmoves := moves_of_step hstep
  generalize a.event = event at hmoves hanswered
  cases hmoves with
  | tick | leaveRecovery | restart => exact hanswered.elim
  | _ => exact ⟨hnears.inRecovery, hnears.heartbeat, happroaches⟩

/-- Node 1 is open and wrote its last heartbeat at 1000 ms. -/
def hung : GuardedNode where
  node := .firstPrimary ⟨false, "", ""⟩
  inRecovery := false
  loaded := false
  heartbeat := some 1000
  stage := .sleeping
  misses := 0
  since := 1000
  clock := 1000

/-- A fence over a cache that says writable persists the setting and is reported as
failed: the cache keeps saying writable. -/
@[mk_iff] structure HalfAppliedFence (cfg : Config) (node : Node) (inp : TickInput) : Prop where
  outOfRecovery : inp.inRecovery = false
  fences : (node.sup.lead cfg inp).fences cfg inp = true
  cache : (node.sup.lead cfg inp).appliedReadOnly = some false
  tookEffect : inp.fence.tookEffect = true
  reported : inp.fence.isOk = false

instance (cfg : Config) (node : Node) (inp : TickInput) :
    Decidable (HalfAppliedFence cfg node inp) :=
  decidable_of_iff _ (halfAppliedFence_iff cfg node inp).symm

/-- A tick writes its heartbeat, does not come between the watchdog's look at the
heartbeat and its fence, and applies no fence by half. -/
def Careful (cfg : Config) (s : GuardedNode) (a : TimedGuard) : Prop :=
  match a.event with
  | .tick inp beat _ =>
      beat.isSome ∧ s.stage ≠ .stale ∧ s.stage ≠ .fencing ∧ ¬ HalfAppliedFence cfg s.node inp
  | _ => True

instance (cfg : Config) (s : GuardedNode) : ∀ a, Decidable (Careful cfg s a)
  | ⟨_, .tick inp beat _⟩ => inferInstanceAs (Decidable (beat.isSome ∧ s.stage ≠ .stale ∧
      s.stage ≠ .fencing ∧ ¬ HalfAppliedFence cfg s.node inp))
  | ⟨_, .poll _⟩ | ⟨_, .date⟩ | ⟨_, .cat⟩ | ⟨_, .showReadOnly _⟩ | ⟨_, .alter _⟩ | ⟨_, .reload _⟩
  | ⟨_, .leaveRecovery⟩ | ⟨_, .restart ..⟩ => isTrue trivial

/-- What a cache that says writable tells about the heartbeat, and about a setting that
belies it. -/
structure Trusted (s : GuardedNode) : Prop where
  dated_le : ∀ now, s.stage = .dated now → now ≤ s.clock
  heartbeat : s.node.sup.appliedReadOnly = some false →
    s.node.sup.lastLoop ≤ s.heartbeat.getD 0
  suspected : s.stage = .stale ∨ s.stage = .fencing → s.node.sup.appliedReadOnly = some false →
    s.node.sup.lastLoop + staleAfter ≤ s.clock
  belied : s.node.sup.appliedReadOnly = some false → s.node.settings.readOnly = true →
    s.node.sup.lastLoop + stallThreshold < s.clock

/-- The supervisor does not take a fenced node for a writable one. -/
theorem Trusted.readOnly_eq_false (htrusted : Trusted s) {inp : TickInput}
    (hfrom : s.clock ≤ inp.loopNow)
    (hcache : (s.node.sup.lead cfg inp).appliedReadOnly = some false) :
    s.node.settings.readOnly = false := by
  have hold := Supervisor.appliedReadOnly_of_lead hcache
  have hprompt : s.node.sup.stalled inp.loopNow = false := by
    by_contra hstalled
    rw [Supervisor.lead_appliedReadOnly, if_pos (by simpa using hstalled)] at hcache
    cases hcache
  by_contra hreadOnly
  have hlate := htrusted.belied hold (by simpa using hreadOnly)
  simp only [Supervisor.stalled, decide_eq_false_iff_not] at hprompt
  omega

/-- A tick that leaves the cache saying writable leaves the node writable. -/
theorem readOnly_of_ticked (htrusted : Trusted s) {now : Nat} {inp : TickInput}
    {beat : Option Nat} {spawns : Bool} (hfrom : s.clock ≤ inp.loopNow)
    (hhonest : ¬ HalfAppliedFence cfg s.node inp)
    (hcache : (s.ticked cfg now inp beat spawns).node.sup.appliedReadOnly = some false) :
    (s.ticked cfg now inp beat spawns).node.settings.readOnly = false := by
  change (s.node.tick cfg inp).sup.appliedReadOnly = some false at hcache
  change (s.node.tick cfg inp).settings.readOnly = false
  cases hrecovery : inp.inRecovery with
  | true =>
      rw [Node.tick_of_recovery hrecovery] at hcache
      cases hcache
  | false =>
      rw [Node.tick_of_primary hrecovery] at hcache ⊢
      simp only [Supervisor.serve, Supervisor.serveSettings_eq] at hcache ⊢
      split at hcache
      next => cases hcache
      next hfence =>
        split at hcache
        next hunfence =>
          rw [Bool.and_eq_true] at hunfence
          obtain ⟨hauth, -⟩ := Supervisor.unfences_eq_true_iff.mp hunfence.1
          have hnoFence : (s.node.sup.lead cfg inp).fences cfg inp = false := by
            simp [Supervisor.fences, hauth]
          simp [hnoFence, hunfence.1, SettingOutcome.tookEffect_of_isOk hunfence.2]
        next =>
          -- the cache was not written, so only a half-applied fence could belie it
          have hopen := htrusted.readOnly_eq_false hfrom hcache
          rw [hopen, ite_self, if_neg]
          intro htook
          rw [Bool.and_eq_true] at htook
          refine hhonest ⟨hrecovery, htook.1, hcache, htook.2, ?_⟩
          simpa [htook.1] using hfence

/-- A command of the watchdog that finds nothing new keeps what is known. -/
theorem Trusted.later {t : GuardedNode} (htrusted : Trusted s) (hnode : t.node = s.node)
    (hheartbeat : t.heartbeat = s.heartbeat) (hclock : s.clock ≤ t.clock)
    (hdated : ∀ now, t.stage = .dated now → now ≤ t.clock)
    (hsuspected : t.stage = .stale ∨ t.stage = .fencing → s.stage = .stale ∨ s.stage = .fencing) :
    Trusted t := by
  refine ⟨hdated, ?_, fun hstage hcache => ?_, ?_⟩
  · rw [hnode, hheartbeat]
    exact htrusted.heartbeat
  · rw [hnode] at hcache ⊢
    exact (htrusted.suspected (hsuspected hstage) hcache).trans hclock
  · rw [hnode]
    exact fun hcache hreadOnly => (htrusted.belied hcache hreadOnly).trans_le hclock

theorem trusted_of_step (htrusted : Trusted s) (hstep : Step cfg s a s')
    (hcareful : Careful cfg s a) : Trusted s' := by
  have hclock := hstep.clock_le
  obtain ⟨time, event⟩ := a
  cases moves_of_step hstep with
  | @tick inp beat spawns hrecovery hfrom huntil hbeat =>
      obtain ⟨hbeats, hstale, hfencing, hhonest⟩ := hcareful
      have hopen : (s.ticked cfg time inp beat spawns).node.sup.appliedReadOnly = some false →
          (s.ticked cfg time inp beat spawns).node.settings.readOnly = false :=
        readOnly_of_ticked htrusted hfrom hhonest
      have hlastLoop : (s.ticked cfg time inp beat spawns).node.sup.lastLoop = inp.loopNow :=
        Node.tick_lastLoop
      have hstage : (s.ticked cfg time inp beat spawns).stage = s.stage ∨
          (s.ticked cfg time inp beat spawns).stage = .sleeping :=
        spawnWatchdog_stage ..
      refine ⟨fun now hdated => ?_, fun _ => ?_, fun hsuspected => ?_,
        fun hcache hreadOnly => ?_⟩
      · rcases hstage with hkept | hsleeping
        · exact (htrusted.dated_le now (hkept.symm.trans hdated)).trans hclock
        · cases hsleeping.symm.trans hdated
      · cases beat with
        | none => cases hbeats
        | some b =>
            rw [hlastLoop]
            exact (hbeat b rfl).1
      · rcases hstage with hkept | hsleeping
        · rw [hkept] at hsuspected
          exact (hsuspected.elim hstale hfencing).elim
        · rw [hsleeping] at hsuspected
          rcases hsuspected with ⟨⟨⟩⟩ | ⟨⟨⟩⟩
      · rw [hopen hcache] at hreadOnly
        cases hreadOnly
  | missed hstage hnext =>
      refine htrusted.later rfl rfl hclock ?_ ?_
      · rintro now hdated
        rcases hnext with rfl | rfl <;> cases hdated
      · rintro (hstale | hfencing)
        · rcases hnext with rfl | rfl <;> cases hstale
        · rcases hnext with rfl | rfl <;> cases hfencing
  | polled hstage =>
      refine htrusted.later rfl rfl hclock ?_ ?_
      · intro now hdated
        cases hrecovery : s.inRecovery <;> simp [goTo, hrecovery] at hdated
      · intro hsuspected
        cases hrecovery : s.inRecovery <;> simp [goTo, hrecovery] at hsuspected
  | dated hstage =>
      refine htrusted.later rfl rfl hclock ?_ (by rintro (⟨⟨⟩⟩ | ⟨⟨⟩⟩))
      rintro now ⟨⟩
      exact le_rfl
  | fresh | fenced =>
      exact htrusted.later rfl rfl hclock (by rintro _ ⟨⟩) (by rintro (⟨⟨⟩⟩ | ⟨⟨⟩⟩))
  | @stale dated hstage hstale =>
      refine ⟨by rintro _ ⟨⟩, htrusted.heartbeat, fun _ hcache => ?_, fun hcache hreadOnly =>
        (htrusted.belied hcache hreadOnly).trans_le hclock⟩
      have hbeat := htrusted.heartbeat hcache
      have hdated := htrusted.dated_le dated hstage
      change s.node.sup.lastLoop + staleAfter ≤ time
      change s.clock ≤ time at hclock
      omega
  | «open» hstage =>
      exact htrusted.later rfl rfl hclock (by rintro _ ⟨⟩) fun _ => .inl hstage
  | alter hstage =>
      refine ⟨by rintro _ ⟨⟩, htrusted.heartbeat, by rintro (⟨⟨⟩⟩ | ⟨⟨⟩⟩), fun hcache _ => ?_⟩
      have hsilent := htrusted.suspected (.inr hstage) hcache
      change s.node.sup.lastLoop + stallThreshold < time
      change s.clock ≤ time at hclock
      simp only [staleAfter, stallThreshold] at hsilent ⊢
      omega
  | reload hstage =>
      exact htrusted.later rfl rfl hclock (by rintro _ ⟨⟩) (by rintro (⟨⟨⟩⟩ | ⟨⟨⟩⟩))
  | leaveRecovery =>
      exact htrusted.later rfl rfl hclock
        (fun now hdated => (htrusted.dated_le now hdated).trans hclock) id
  | @restart current inRecovery spawns =>
      refine ⟨fun now hdated => ?_, ?_, ?_, ?_⟩
      · rcases spawnWatchdog_stage s time spawns with hkept | hsleeping
        · exact (htrusted.dated_le now (hkept.symm.trans hdated)).trans hclock
        · cases hsleeping.symm.trans hdated
      · rintro ⟨⟩
      · rintro _ ⟨⟩
      · rintro ⟨⟩

/-- A cache that says writable hides no fence of the watchdog: in a run without a tick
between the watchdog's look and its fence, a tick that takes its node for writable runs
on a writable node. -/
theorem writable_of_cache {events : List TimedGuard} (hstart : s.node.Started)
    (hstage : s.stage = .sleeping)
    (hrun : Run (fun s a s' => Step cfg s a s' ∧ Careful cfg s a) s events s') {inp : TickInput}
    (hfrom : s'.clock ≤ inp.loopNow)
    (hcache : (s'.node.sup.lead cfg inp).appliedReadOnly = some false) :
    s'.node.settings.readOnly = false := by
  have htrusted : Trusted s := by
    obtain ⟨current, now, hsup⟩ := hstart
    have hunknown : s.node.sup.appliedReadOnly ≠ some false := by
      rw [hsup]
      rintro ⟨⟩
    refine ⟨fun now hdated => ?_, fun hcache => absurd hcache hunknown,
      fun _ hcache => absurd hcache hunknown, fun hcache => absurd hcache hunknown⟩
    rw [hstage] at hdated
    cases hdated
  have htrusted' := hrun.invariant (I := Trusted)
    (fun _ _ _ htrusted hstep => trusted_of_step htrusted hstep.1 hstep.2) htrusted
  exact htrusted'.readOnly_eq_false hfrom hcache

/-- The same node before the first tick of its supervisor. -/
def starting : GuardedNode :=
  { hung with heartbeat := none, since := 0, clock := 0 }

/-- A tick of node 1, which hears both peers and writes its heartbeat. -/
def beatingTick (now seq : Nat) : TimedGuard :=
  ⟨now, .tick (.plain now (heardBoth now seq) (some ⟨seq, 1⟩)) (some now) true⟩

/-- Node 1 opens, hangs, is fenced by the watchdog, and opens again under a newer
decision. -/
def fencedAndBack : List TimedGuard :=
  [100, 900, 1600].map (beatingTick · 1) ++
    [⟨4000, .poll (some false)⟩, ⟨4000, .date⟩, ⟨4000, .cat⟩, ⟨4100, .showReadOnly (some false)⟩,
      ⟨4200, .alter .ok⟩, ⟨4300, .reload .ok⟩] ++
    [5000, 5800, 6600].map (beatingTick · 2)

theorem writable_of_cache_fencedAndBack : ∃ s : GuardedNode,
    s.node.sup.appliedReadOnly = some false ∧ s.node.settings.readOnly = false := by
  obtain ⟨s, hrun, hend⟩ := @Run.exists_of_guarded _ _ (after (.threeNodes 1 (by decide)))
    (fun s a => s.clock ≤ a.time ∧ Careful (.threeNodes 1 (by decide)) s a) _
    starting fencedAndBack
    (fun s => decide (s.node.sup.appliedReadOnly = some false ∧ s.clock ≤ 6700 ∧
      (s.node.sup.lead (.threeNodes 1 (by decide))
        (.plain 6700 [] (some ⟨2, 1⟩))).appliedReadOnly = some false)) (by decide +kernel)
  obtain ⟨hcache, hclock, hlead⟩ := of_decide_eq_true hend
  refine ⟨s, hcache, @writable_of_cache (.threeNodes 1 (by decide)) starting s fencedAndBack
    (Node.firstPrimary_started _) rfl ?_ (.plain 6700 [] (some ⟨2, 1⟩)) hclock hlead⟩
  exact hrun.imp fun _ _ _ ⟨hafter, hclock, hcareful⟩ => ⟨⟨hafter, hclock⟩, hcareful⟩

end GuardedNode

end PgReplica
