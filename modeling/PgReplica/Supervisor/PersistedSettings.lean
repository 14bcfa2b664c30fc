import PgReplica.Foundation.Run
import PgReplica.Supervisor.Tick

/-! # Persisted settings along the ticks of a supervisor

A supervisor skips a command when its cache says that the setting is in place.
The cache follows the reported outcome of a command, and the persisted setting
its effect. Each section states a promise of the loop, the steps that break it,
and that the promise holds in every run without such a step.
-/

namespace PgReplica

open Foundation

namespace Node

variable {cfg : Config} {node : Node} {inp : TickInput}

/-! ## The fence cache -/

/-- A tick without authority leaves the node read-only, unless the fence it
issued was reported as failed. -/
def ClosedWithoutAuthority (cfg : Config) (node : Node) (inp : TickInput) : Prop :=
  (node.report cfg inp).authorized = some false →
    (∀ outcome, (node.report cfg inp).fence = some outcome → outcome.isOk = true) →
      (node.tick cfg inp).settings.readOnly = true

/-- An unfence over a cache that says fenced persists the setting and is reported
as failed: the cache keeps saying fenced. -/
structure HalfAppliedUnfence (cfg : Config) (node : Node) (inp : TickInput) : Prop where
  outOfRecovery : inp.inRecovery = false
  authorized : (node.sup.lead cfg inp).authorized cfg inp = true
  cache : (node.sup.lead cfg inp).appliedReadOnly = some true
  tookEffect : inp.unfence.tookEffect = true
  reported : inp.unfence.isOk = false

theorem not_halfAppliedUnfence (hok : inp.unfence.isOk = true) :
    ¬ node.HalfAppliedUnfence cfg inp := by
  intro hhalf
  rw [hhalf.reported] at hok
  cases hok

/-- A cache that says fenced is right. -/
def FenceCacheSound (node : Node) : Prop :=
  node.sup.appliedReadOnly = some true → node.settings.readOnly = true

theorem fenceCacheSound_tick (hsound : node.FenceCacheSound)
    (hhonest : ¬ node.HalfAppliedUnfence cfg inp) : (node.tick cfg inp).FenceCacheSound := by
  cases hrecovery : inp.inRecovery with
  | true =>
      rw [tick_of_recovery hrecovery]
      rintro ⟨⟩
  | false =>
      rw [tick_of_primary hrecovery]
      intro hcache
      simp only [Supervisor.serve, Supervisor.serveSettings_eq] at hcache ⊢
      split at hcache
      next hfence =>
        rw [Bool.and_eq_true] at hfence
        rw [if_pos]
        simp [hfence.1, SettingOutcome.tookEffect_of_isOk hfence.2]
      next hfence =>
        split at hcache
        next => cases hcache
        next hunfence =>
          -- the cache was not written, so only a half-applied unfence could belie it
          have hreadOnly := hsound (Supervisor.appliedReadOnly_of_lead hcache)
          split
          next => rfl
          next =>
            split
            next htook =>
              rw [Bool.and_eq_true] at htook
              refine absurd ⟨hrecovery, ?_, hcache, htook.2, ?_⟩ hhonest
              · exact (Supervisor.unfences_eq_true_iff.mp htook.1).1
              · simpa [htook.1] using hunfence
            next => exact hreadOnly

theorem closedWithoutAuthority_of_sound (hsound : node.FenceCacheSound) :
    node.ClosedWithoutAuthority cfg inp := by
  intro hauth hfence
  obtain ⟨hrecovery, hauth⟩ := report_authorized_eq_some_iff.mp hauth
  rw [tick_of_primary hrecovery]
  simp only [Supervisor.serveSettings_eq]
  cases hissued : (node.sup.lead cfg inp).fences cfg inp with
  | true =>
      have hok := hfence inp.fence (by simp [report, hrecovery, hissued])
      simp [SettingOutcome.tookEffect_of_isOk hok]
  | false =>
      have hcache : (node.sup.lead cfg inp).appliedReadOnly = some true := by
        by_contra hopen
        rw [Supervisor.fences_eq_true_iff.mpr ⟨hauth, hopen⟩] at hissued
        cases hissued
      have hreadOnly := hsound (Supervisor.appliedReadOnly_of_lead hcache)
      simp [Supervisor.unfences, hauth, hreadOnly]

/-- The fence cache hides no open node in a run in which no unfence is applied
by half over it. -/
theorem closedWithoutAuthority_of_run {inputs : List TickInput} (hstart : node.Started)
    (hhonest : EachStep (tick · cfg ·) (¬ HalfAppliedUnfence cfg · ·) node inputs) :
    EachStep (tick · cfg ·) (ClosedWithoutAuthority cfg) node inputs := by
  apply hhonest.of_invariant (I := FenceCacheSound)
  · exact fun _ _ hsound hstep => fenceCacheSound_tick hsound hstep
  · exact fun _ _ hsound _ => closedWithoutAuthority_of_sound hsound
  · obtain ⟨current, now, hsup⟩ := hstart
    intro hcache
    rw [hsup] at hcache
    cases hcache

/-- The primary waits out the confirm window behind its fence and opens with
`outcome`; then it loses contact. -/
def openThenLoseContact (outcome : SettingOutcome) : List TickInput :=
  [.plain 100 (heardBoth 100 1) (some ⟨1, 1⟩), .plain 900 (heardBoth 900 1) (some ⟨1, 1⟩),
    { TickInput.plain 1600 (heardBoth 1600 1) (some ⟨1, 1⟩) with unfence := outcome },
    .plain 2900 [] (some ⟨1, 1⟩)]

/-- The run in which the unfence succeeds. -/
theorem closedWithoutAuthority_openThenLoseContact :
    EachStep (tick · (.threeNodes 1 (by decide)) ·)
      (ClosedWithoutAuthority (.threeNodes 1 (by decide))) (firstPrimary ⟨false, "", ""⟩)
      (openThenLoseContact .success) :=
  closedWithoutAuthority_of_run (firstPrimary_started _)
    ⟨not_halfAppliedUnfence rfl, not_halfAppliedUnfence rfl, not_halfAppliedUnfence rfl,
      not_halfAppliedUnfence rfl, trivial⟩

/-- When only the reload of the unfence fails, the next loss of contact leaves
the node open: the cache still says fenced, and no fence is issued. -/
theorem not_closedWithoutAuthority_of_unreported :
    ¬ ∀ (cfg : Config) (node : Node) (inputs : List TickInput), node.Started →
      EachStep (tick · cfg ·) (ClosedWithoutAuthority cfg) node inputs := by
  intro hclosed
  have hsteps := hclosed (.threeNodes 1 (by decide)) (firstPrimary ⟨false, "", ""⟩)
    (openThenLoseContact .unreported) (firstPrimary_started _)
  obtain ⟨-, -, -, hlast, -⟩ := hsteps
  have hreadOnly := hlast (by decide) fun outcome houtcome => by
    cases houtcome
  revert hreadOnly
  decide

/-! ## Quorum sync on an open primary -/

/-- Persisted settings, and whether the node was set read-write under a decision and
has since been neither fenced nor in recovery. -/
structure OpenSettings where
  settings : Settings
  opened : Bool

namespace OpenSettings

def perform (decided : Bool) (o : OpenSettings) (command : Command) : OpenSettings where
  settings := o.settings.perform command
  opened :=
    match command with
    | .readOnly on outcome => if outcome.tookEffect then !on && (decided || o.opened) else o.opened
    | .syncNames .. | .primaryConninfo .. | .promote .. => o.opened

/-- While the node is open under a decision, quorum sync is persisted. -/
def Synced (cfg : Config) (o : OpenSettings) : Prop :=
  o.opened = true → o.settings.syncNames = cfg.syncTarget

/-- A command keeps an open node in sync unless it opens the node over another value or
writes one. -/
theorem synced_perform {decided : Bool} {o : OpenSettings} {command : Command}
    (hsynced : o.Synced cfg)
    (hopens : ∀ outcome, command = .readOnly false outcome → outcome.tookEffect = true →
      decided = true → o.settings.syncNames = cfg.syncTarget)
    (hnames : ∀ names outcome, command = .syncNames names outcome → names = cfg.syncTarget) :
    (o.perform decided command).Synced cfg := by
  cases command with
  | readOnly on outcome =>
      intro hopened
      change (if outcome.tookEffect = true then !on && (decided || o.opened) else o.opened) = true
        at hopened
      split at hopened
      next htook =>
        obtain ⟨hon, hopened⟩ := Bool.and_eq_true_iff.mp hopened
        obtain rfl : on = false := by simpa using hon
        rcases Bool.or_eq_true_iff.mp hopened with hdecided | hopened
        · exact hopens outcome rfl htook hdecided
        · exact hsynced hopened
      next => exact hsynced hopened
  | syncNames names outcome =>
      intro hopened
      change (if outcome.tookEffect = true then names else o.settings.syncNames) = _
      split
      next => exact hnames names outcome rfl
      next => exact hsynced hopened
  | primaryConninfo conninfo outcome => exact hsynced
  | promote outcome => exact hsynced

theorem syncNames_perform {decided : Bool} {o : OpenSettings} {outcome : SettingOutcome}
    (hnames : o.settings.syncNames = cfg.syncTarget) :
    (o.perform decided (.syncNames cfg.syncTarget outcome)).settings.syncNames =
      cfg.syncTarget := by
  change (if outcome.tookEffect = true then cfg.syncTarget else o.settings.syncNames) = _
  rw [hnames, ite_self]

theorem foldl_perform_settings (decided : Bool) (o : OpenSettings) (commands : List Command) :
    (commands.foldl (perform decided) o).settings =
      commands.foldl Settings.perform o.settings := by
  induction commands generalizing o with
  | nil => rfl
  | cons command rest ih => exact ih _

end OpenSettings

structure OpenWindow where
  node : Node
  opened : Bool

namespace OpenWindow

/-- What is in place when the tick issues its first command. -/
def found (w : OpenWindow) (inp : TickInput) : OpenSettings where
  settings := w.node.settings
  opened := w.opened && !inp.inRecovery

/-- A command of the tick, which holds its decision from the adoption on. -/
def perform (cfg : Config) (w : OpenWindow) (inp : TickInput) :
    OpenSettings → Command → OpenSettings :=
  OpenSettings.perform (w.node.sup.lead cfg inp).decided.isSome

def tick (cfg : Config) (w : OpenWindow) (inp : TickInput) : OpenWindow where
  node := w.node.tick cfg inp
  opened := ((w.node.commands cfg inp).foldl (w.perform cfg inp) (w.found inp)).opened

/-- Quorum sync is in place on the open node when the tick begins and after each of
its commands. -/
def SyncedThroughout (cfg : Config) (w : OpenWindow) (inp : TickInput) : Prop :=
  Throughout (w.perform cfg inp) (OpenSettings.Synced cfg) (w.found inp)
    (w.node.commands cfg inp)

/-- The sync command of a tick under a decision fails while another value is in place,
and the tick sets the node read-write. -/
structure FailedSync (cfg : Config) (w : OpenWindow) (inp : TickInput) : Prop where
  outOfRecovery : inp.inRecovery = false
  decided : (w.node.sup.lead cfg inp).decided.isSome = true
  syncs : (w.node.sup.lead cfg inp).syncs cfg inp = true
  failed : inp.sync.tookEffect = false
  other : w.node.settings.syncNames ≠ cfg.syncTarget
  unfences : (w.node.sup.lead cfg inp).unfences cfg inp = true
  tookEffect : inp.unfence.tookEffect = true

/-- A tick in recovery clears the setting over a cache that says it is in place, and
the clear is reported as failed: the cache keeps saying so. -/
structure HalfAppliedClear (cfg : Config) (w : OpenWindow) (inp : TickInput) : Prop where
  inRecovery : inp.inRecovery = true
  clears : (w.node.sup.lead cfg inp).clearsSync = true
  cache : w.node.sup.appliedSync = some cfg.syncTarget
  tookEffect : inp.clearSync.tookEffect = true
  reported : inp.clearSync.isOk = false

/-- A cache that says that quorum sync is in place is right, and so is an open node. -/
structure SyncInvariant (cfg : Config) (w : OpenWindow) : Prop where
  cache : w.node.sup.appliedSync = some cfg.syncTarget →
    w.node.settings.syncNames = cfg.syncTarget
  synced : w.opened = true → w.node.settings.syncNames = cfg.syncTarget

variable {w : OpenWindow}

/-- With `pg_replica.synchronous` on, only `sync_target` is ever written out of recovery. -/
theorem wantSync_of_syncs (hsynchronous : cfg.synchronous = true) {s : Supervisor}
    (hsyncs : s.syncs cfg inp = true) : s.wantSync cfg inp = some cfg.syncTarget := by
  unfold Supervisor.syncs at hsyncs
  split at hsyncs
  next => cases hsyncs
  next wanted hwant =>
    simp only [Supervisor.wantSync, hsynchronous, Bool.not_true, Bool.false_eq_true,
      if_false] at hwant ⊢
    split at hwant
    next hdecided => rw [if_pos hdecided]
    next => cases hwant

/-- A tick that opens a node under a decision skips the sync command only over a cache
that says it is in place. -/
theorem cache_of_not_syncs (hsynchronous : cfg.synchronous = true) {s : Supervisor}
    (hdecided : s.decided.isSome = true) (hunfences : s.unfences cfg inp = true)
    (hsyncs : s.syncs cfg inp = false) : s.appliedSync = some cfg.syncTarget := by
  have hauth := (Supervisor.unfences_eq_true_iff.mp hunfences).1
  simpa [Supervisor.syncs, Supervisor.wantSync, hsynchronous, hauth, hdecided] using hsyncs

theorem serveCommands_eq (hsynchronous : cfg.synchronous = true) (s : Supervisor) :
    s.serveCommands cfg inp =
      (if s.fences cfg inp then [.readOnly true inp.fence] else []) ++
        (if s.syncs cfg inp then [.syncNames cfg.syncTarget inp.sync] else []) ++
        if s.unfences cfg inp then [.readOnly false inp.unfence] else [] := by
  rw [Supervisor.serveCommands]
  cases hsyncs : s.syncs cfg inp with
  | false => rfl
  | true =>
      rw [wantSync_of_syncs hsynchronous hsyncs]
      rfl

theorem names_of_mem_serveCommands (hsynchronous : cfg.synchronous = true) {s : Supervisor}
    {names : String} {outcome : SettingOutcome}
    (hmem : .syncNames names outcome ∈ s.serveCommands cfg inp) : names = cfg.syncTarget := by
  rw [serveCommands_eq hsynchronous] at hmem
  simp only [List.mem_append, List.mem_ite_nil_right, List.mem_singleton, reduceCtorEq,
    Command.syncNames.injEq, and_false, false_or, or_false] at hmem
  exact hmem.2.1

theorem unfences_of_mem_serveCommands (hsynchronous : cfg.synchronous = true) {s : Supervisor}
    {outcome : SettingOutcome} (hmem : .readOnly false outcome ∈ s.serveCommands cfg inp) :
    s.unfences cfg inp = true ∧ outcome = inp.unfence := by
  rw [serveCommands_eq hsynchronous] at hmem
  simpa [List.mem_append, List.mem_ite_nil_right] using hmem

/-! ### A tick in recovery -/

theorem syncedThroughout_of_recovery (hrecovery : inp.inRecovery = true) :
    w.SyncedThroughout cfg inp := by
  have hclosed : Throughout (w.perform cfg inp) (fun o => o.opened = false) (w.found inp)
      (w.node.commands cfg inp) := by
    apply throughout_of_preserved
    · -- none of the commands sets the node read-write
      intro o command hcommand hclosed
      rw [commands_of_recovery hrecovery, Supervisor.recoverCommands] at hcommand
      change (OpenSettings.perform _ o command).opened = false
      cases command with
      | readOnly on outcome =>
          obtain rfl : on = true := by
            revert hcommand
            cases (w.node.sup.lead cfg inp).clearsSync <;>
              cases (w.node.sup.lead cfg inp).promotes cfg <;>
              cases (w.node.sup.lead cfg inp).repoints cfg <;> simp +contextual
          simp [OpenSettings.perform, hclosed]
      | syncNames names outcome => exact hclosed
      | primaryConninfo conninfo outcome => exact hclosed
      | promote outcome => exact hclosed
    · simp [found, hrecovery]
  exact hclosed.imp fun o hclosed hopened => by simp [hclosed] at hopened

theorem cache_tick_of_recovery (hrecovery : inp.inRecovery = true) (hinv : w.SyncInvariant cfg)
    (hhonest : ¬ w.HalfAppliedClear cfg inp)
    (hcache : (w.tick cfg inp).node.sup.appliedSync = some cfg.syncTarget) :
    (w.tick cfg inp).node.settings.syncNames = cfg.syncTarget := by
  simp only [tick, tick_of_recovery hrecovery, Supervisor.recover,
    Supervisor.recoverSettings_eq] at hcache ⊢
  split at hcache
  next hclear =>
    obtain ⟨hclears, hok⟩ := Bool.and_eq_true_iff.mp hclear
    rw [if_pos (by simp [hclears, SettingOutcome.tookEffect_of_isOk hok])]
    exact Option.some.inj hcache
  next hclear =>
    split
    next htook =>
      obtain ⟨hclears, htook⟩ := Bool.and_eq_true_iff.mp htook
      exact absurd ⟨hrecovery, hclears, hcache, htook, by simpa [hclears] using hclear⟩ hhonest
    next => exact hinv.cache hcache

/-! ### A tick out of recovery -/

theorem syncedThroughout_of_primary (hsynchronous : cfg.synchronous = true)
    (hrecovery : inp.inRecovery = false) (hinv : w.SyncInvariant cfg)
    (hfailed : ¬ w.FailedSync cfg inp) : w.SyncedThroughout cfg inp := by
  have hstart : (w.found inp).Synced cfg := by
    intro hopened
    exact hinv.synced (Bool.and_eq_true_iff.mp hopened).1
  rw [SyncedThroughout, commands_of_primary hrecovery]
  by_cases hopens : (w.node.sup.lead cfg inp).unfences cfg inp = true ∧
      inp.unfence.tookEffect = true ∧ (w.node.sup.lead cfg inp).decided.isSome = true
  · obtain ⟨hunfences, htook, hdecided⟩ := hopens
    by_cases hother : w.node.settings.syncNames = cfg.syncTarget
    · -- no command of the tick writes another value
      have hkeeps : Throughout (w.perform cfg inp) (fun o => o.settings.syncNames = cfg.syncTarget)
          (w.found inp) ((w.node.sup.lead cfg inp).serveCommands cfg inp) := by
        refine throughout_of_preserved (fun o command hcommand hnames => ?_) hother
        cases command with
        | syncNames names outcome =>
            obtain rfl := names_of_mem_serveCommands hsynchronous hcommand
            exact OpenSettings.syncNames_perform hnames
        | readOnly on outcome => exact hnames
        | primaryConninfo conninfo outcome => exact hnames
        | promote outcome => exact hnames
      have himp : ∀ o : OpenSettings, o.settings.syncNames = cfg.syncTarget → o.Synced cfg :=
        fun _ hnames _ => hnames
      exact hkeeps.imp himp
    · have hfences : (w.node.sup.lead cfg inp).fences cfg inp = false := by
        simp [Supervisor.fences, (Supervisor.unfences_eq_true_iff.mp hunfences).1]
      have hsyncs : (w.node.sup.lead cfg inp).syncs cfg inp = true := by
        by_contra hskips
        rw [Bool.not_eq_true] at hskips
        have hcache := cache_of_not_syncs hsynchronous (s := w.node.sup.lead cfg inp) hdecided
          hunfences hskips
        exact hother (hinv.cache hcache)
      have heffect : inp.sync.tookEffect = true := by
        by_contra hno
        rw [Bool.not_eq_true] at hno
        exact hfailed ⟨hrecovery, hdecided, hsyncs, hno, hother, hunfences, htook⟩
      -- the sync command before the unfence has put the value in place
      rw [serveCommands_eq hsynchronous, hfences, hsyncs, hunfences]
      have hnames : (w.perform cfg inp (w.found inp)
          (.syncNames cfg.syncTarget inp.sync)).settings.syncNames = cfg.syncTarget :=
        if_pos heffect
      exact ⟨hstart, fun _ => hnames, fun _ => hnames⟩
  · refine throughout_of_preserved (fun o command hcommand hsynced => ?_) hstart
    refine OpenSettings.synced_perform hsynced ?_ ?_
    · rintro outcome rfl htook hdecided
      obtain ⟨hunfences, rfl⟩ := unfences_of_mem_serveCommands hsynchronous hcommand
      exact absurd ⟨hunfences, htook, hdecided⟩ hopens
    · rintro names outcome rfl
      exact names_of_mem_serveCommands hsynchronous hcommand

theorem cache_tick_of_primary (hsynchronous : cfg.synchronous = true)
    (hrecovery : inp.inRecovery = false) (hinv : w.SyncInvariant cfg)
    (hcache : (w.tick cfg inp).node.sup.appliedSync = some cfg.syncTarget) :
    (w.tick cfg inp).node.settings.syncNames = cfg.syncTarget := by
  simp only [tick, tick_of_primary hrecovery, Supervisor.serve,
    Supervisor.serveSettings_eq] at hcache ⊢
  split
  next htook =>
    rw [wantSync_of_syncs hsynchronous (Bool.and_eq_true_iff.mp htook).1, Option.getD_some]
  next htook =>
    split at hcache
    next hok =>
      obtain ⟨hsyncs, hok⟩ := Bool.and_eq_true_iff.mp hok
      simp [hsyncs, SettingOutcome.tookEffect_of_isOk hok] at htook
    next => exact hinv.cache hcache

/-! ### Runs -/

theorem syncedThroughout_of_invariant (hsynchronous : cfg.synchronous = true)
    (hinv : w.SyncInvariant cfg) (hfailed : ¬ w.FailedSync cfg inp) :
    w.SyncedThroughout cfg inp := by
  cases hrecovery : inp.inRecovery with
  | true => exact syncedThroughout_of_recovery hrecovery
  | false => exact syncedThroughout_of_primary hsynchronous hrecovery hinv hfailed

theorem syncInvariant_tick (hsynchronous : cfg.synchronous = true) (hinv : w.SyncInvariant cfg)
    (hfailed : ¬ w.FailedSync cfg inp) (hhonest : ¬ w.HalfAppliedClear cfg inp) :
    (w.tick cfg inp).SyncInvariant cfg where
  cache := by
    cases hrecovery : inp.inRecovery with
    | true => exact cache_tick_of_recovery hrecovery hinv hhonest
    | false => exact cache_tick_of_primary hsynchronous hrecovery hinv
  synced := by
    intro hopened
    have hend := (syncedThroughout_of_invariant hsynchronous hinv hfailed).foldl hopened
    rwa [perform, OpenSettings.foldl_perform_settings, found, ← tick_settings] at hend

/-- While a primary is open under a decision, quorum sync is in place, between the
commands of a tick as well: unless a sync command fails before an unfence, or a clear in
recovery is applied by half. -/
theorem syncedThroughout_of_run (hsynchronous : cfg.synchronous = true)
    {inputs : List TickInput} (hstart : node.Started)
    (hregular : EachStep (tick cfg)
      (fun w inp => ¬ w.FailedSync cfg inp ∧ ¬ w.HalfAppliedClear cfg inp) ⟨node, false⟩ inputs) :
    EachStep (tick cfg) (SyncedThroughout cfg) ⟨node, false⟩ inputs := by
  refine hregular.of_invariant (I := SyncInvariant cfg) ?_ ?_ ?_
  · exact fun w inp hinv hstep => syncInvariant_tick hsynchronous hinv hstep.1 hstep.2
  · exact fun w inp hinv hstep => syncedThroughout_of_invariant hsynchronous hinv hstep.1
  · obtain ⟨current, now, hsup⟩ := hstart
    refine ⟨fun hcache => ?_, nofun⟩
    simp [hsup, Supervisor.start] at hcache

theorem not_failedSync (hok : inp.sync.tookEffect = true) : ¬ w.FailedSync cfg inp := by
  intro hfailed
  rw [hfailed.failed] at hok
  cases hok

theorem not_halfAppliedClear (hok : inp.clearSync.isOk = true) :
    ¬ w.HalfAppliedClear cfg inp := by
  intro hhalf
  rw [hhalf.reported] at hok
  cases hok

/-- The primary opens, and stays in sync through its fence. -/
theorem syncedThroughout_openThenLoseContact :
    let cfg := Config.threeNodes 1 (by decide)
    EachStep (tick cfg) (SyncedThroughout cfg) ⟨firstPrimary ⟨false, "", ""⟩, false⟩
        (openThenLoseContact .success) ∧
      (((openThenLoseContact .success).take 3).foldl (tick cfg)
        ⟨firstPrimary ⟨false, "", ""⟩, false⟩).opened = true :=
  ⟨syncedThroughout_of_run rfl (firstPrimary_started _)
    ⟨⟨not_failedSync rfl, not_halfAppliedClear rfl⟩,
      ⟨not_failedSync rfl, not_halfAppliedClear rfl⟩,
      ⟨not_failedSync rfl, not_halfAppliedClear rfl⟩,
      ⟨not_failedSync rfl, not_halfAppliedClear rfl⟩, trivial⟩,
    by decide⟩

/-- When the sync command fails, the unfence behind it still runs. -/
theorem not_syncedThroughout_of_failed_sync :
    ¬ ∀ (cfg : Config) (node : Node) (inputs : List TickInput), cfg.synchronous = true →
      cfg.syncTarget ≠ "" → node.Started →
        EachStep (tick cfg) (SyncedThroughout cfg) ⟨node, false⟩ inputs := by
  intro hsynced
  have hrun := hsynced (.threeNodes 1 (by decide)) (firstPrimary ⟨false, "", ""⟩)
    [.plain 100 (heardBoth 100 1) (some ⟨1, 1⟩), .plain 900 (heardBoth 900 1) (some ⟨1, 1⟩),
      { TickInput.plain 1600 (heardBoth 1600 1) (some ⟨1, 1⟩) with sync := .failure }]
    rfl (by decide) (firstPrimary_started _)
  obtain ⟨-, -, hopen, -⟩ := hrun
  have hnames := hopen.foldl (by decide)
  revert hnames
  decide

/-- The primary opens, clears its setting in recovery with the reload failing, and opens
again. -/
def openAfterHalfAppliedClear : List TickInput :=
  [.plain 100 (heardBoth 100 1) (some ⟨1, 1⟩), .plain 900 (heardBoth 900 1) (some ⟨1, 1⟩),
    .plain 1600 (heardBoth 1600 1) (some ⟨1, 1⟩),
    { (TickInput.plain 2400 (heardBoth 2400 1) (some ⟨1, 1⟩)).standby with
      clearSync := .unreported },
    .plain 3200 (heardBoth 3200 1) (some ⟨1, 1⟩), .plain 4000 (heardBoth 4000 1) (some ⟨1, 1⟩),
    .plain 4800 (heardBoth 4800 1) (some ⟨1, 1⟩)]

/-- The cache of the sync command may belie a cleared setting too, and no command fails
when the node is opened over it. -/
theorem not_syncedThroughout_of_halfAppliedClear :
    ¬ EachStep (tick (.threeNodes 1 (by decide))) (SyncedThroughout (.threeNodes 1 (by decide)))
      ⟨firstPrimary ⟨false, "", ""⟩, false⟩ openAfterHalfAppliedClear := by
  rintro ⟨-, -, -, -, -, -, hopen, -⟩
  have hnames := hopen.foldl (by decide)
  revert hnames
  decide

end OpenWindow

/-! ## The fence before a promotion -/

/-- The tick reports a successful `pg_promote`. -/
@[mk_iff] structure Promotes (cfg : Config) (node : Node) (inp : TickInput) : Prop where
  inRecovery : inp.inRecovery = true
  promotes : (node.sup.lead cfg inp).promotes cfg = true
  isOk : inp.promote.isOk = true

instance : Decidable (Promotes cfg node inp) :=
  decidable_of_iff _ (promotes_iff cfg node inp).symm

/-- A node together with whether it was promoted and has since had no tick out of
recovery with authority. -/
structure PromotionWindow where
  node : Node
  awaitsAuthority : Bool

def PromotionWindow.tick (cfg : Config) (w : PromotionWindow) (inp : TickInput) :
    PromotionWindow where
  node := w.node.tick cfg inp
  awaitsAuthority :=
    if inp.inRecovery then decide (Promotes cfg w.node inp) || w.awaitsAuthority
    else w.awaitsAuthority && !(w.node.sup.lead cfg inp).authorized cfg inp

/-- A promoted node is read-only until it is authorized. -/
def PromotionWindow.Fenced (w : PromotionWindow) : Prop :=
  w.awaitsAuthority = true → w.node.settings.readOnly = true

theorem PromotionWindow.fenced_tick_iff (w : PromotionWindow) (inp : TickInput)
    (hfenced : w.Fenced) : (w.tick cfg inp).Fenced ↔
      (Promotes cfg w.node inp →
        w.node.settings.readOnly = true ∨ inp.promoteFence.tookEffect = true) := by
  cases hrecovery : inp.inRecovery with
  | true =>
      have hreadOnly : (w.tick cfg inp).node.settings.readOnly =
          if (w.node.sup.lead cfg inp).promotes cfg && inp.promoteFence.tookEffect then true
          else w.node.settings.readOnly := by
        rw [PromotionWindow.tick, tick_of_recovery hrecovery]
        simp only [Supervisor.recoverSettings_eq]
      rw [Fenced, hreadOnly]
      by_cases hpromotes : Promotes cfg w.node inp
      · simp only [PromotionWindow.tick, hrecovery, if_true, hpromotes, decide_true,
          Bool.true_or, true_implies, hpromotes.promotes, Bool.true_and, Bool.if_true_left,
          Bool.or_eq_true, or_comm]
        simp
      · refine iff_of_true (fun hawaits => ?_) fun h => absurd h hpromotes
        simp only [PromotionWindow.tick, hrecovery, if_true, hpromotes, decide_false,
          Bool.false_or] at hawaits
        rw [hfenced hawaits, ite_self]
  | false =>
      refine iff_of_true (fun hawaits => ?_) fun hpromotes => ?_
      · simp only [PromotionWindow.tick, hrecovery, Bool.false_eq_true, if_false,
          Bool.and_eq_true, Bool.not_eq_true'] at hawaits
        rw [PromotionWindow.tick, tick_of_primary hrecovery]
        simp [Supervisor.serveSettings_eq, Supervisor.unfences, hawaits.2, hfenced hawaits.1]
      · rw [hpromotes.inRecovery] at hrecovery
        cases hrecovery

/-- A promoted node stays fenced until it is authorized exactly when at every
successful `pg_promote` the node was already fenced or the fence before it took
effect. -/
theorem fenced_throughout_iff (cfg : Config) (node : Node) (inputs : List TickInput) :
    Throughout (PromotionWindow.tick cfg) PromotionWindow.Fenced ⟨node, false⟩ inputs ↔
      EachStep (PromotionWindow.tick cfg) (fun w inp => Promotes cfg w.node inp →
        w.node.settings.readOnly = true ∨ inp.promoteFence.tookEffect = true)
        ⟨node, false⟩ inputs :=
  throughout_iff_eachStep (fun w inp hfenced => w.fenced_tick_iff inp hfenced)
    fun hawaits => nomatch hawaits

/-- A standby that rejoined with the setting off is promoted although its fence failed. -/
theorem not_fenced_of_failed_fence :
    ¬ ∀ (cfg : Config) (node : Node) (inputs : List TickInput), node.Started →
      Throughout (PromotionWindow.tick cfg) PromotionWindow.Fenced ⟨node, false⟩ inputs := by
  intro hfenced
  have hrun := hfenced (.threeNodes 2 (by decide)) ⟨.start (some ⟨1, 1⟩) 0, ⟨false, "", ""⟩⟩
    [{ TickInput.plain 100 [] (some ⟨2, 2⟩) with inRecovery := true, promoteFence := .failure }]
    ⟨_, _, rfl⟩
  have hreadOnly := hrun.2 (by decide)
  revert hreadOnly
  decide

end Node

end PgReplica
