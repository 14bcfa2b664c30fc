import PgReplica.System.World

/-! # What a node's caches say while every command succeeds

The supervisor remembers what it last wrote. As long as no command fails, the
memory is right: a fenced node is fenced, a standby has nothing cached, a node
that is being promoted is fenced, and only a node that its decision names waits
for authority.
-/

namespace PgReplica

open Foundation

namespace Supervisor

variable {s : Supervisor} {cfg : Config} {inp : TickInput}

/-- A tick out of recovery fences the node or opens it. -/
theorem serve_appliedReadOnly_of_success (hsql : inp.SqlSucceeds) :
    (s.serve cfg inp).appliedReadOnly = some (!s.authorized cfg inp) := by
  have hfence : inp.fence.isOk = true := by rw [hsql.fence]; rfl
  have hunfence : inp.unfence.isOk = true := by rw [hsql.unfence]; rfl
  simp only [serve, fences, unfences, hfence, hunfence, Bool.and_true]
  cases s.authorized cfg inp with
  | true => by_cases hcache : s.appliedReadOnly = some false <;> simp [hcache]
  | false => by_cases hcache : s.appliedReadOnly = some true <;> simp [hcache]

theorem serveSettings_readOnly_of_success (hsql : inp.SqlSucceeds) {settings : Settings}
    (hcached : ∀ b, s.appliedReadOnly = some b → settings.readOnly = b) :
    (s.serveSettings cfg inp settings).readOnly = !s.authorized cfg inp := by
  have hfence : inp.fence.tookEffect = true := by rw [hsql.fence]; rfl
  have hunfence : inp.unfence.tookEffect = true := by rw [hsql.unfence]; rfl
  simp only [serveSettings_eq, fences, unfences, hfence, hunfence, Bool.and_true]
  cases s.authorized cfg inp with
  | true => by_cases hcache : s.appliedReadOnly = some false <;> simp [hcache, hcached]
  | false => by_cases hcache : s.appliedReadOnly = some true <;> simp [hcache, hcached]

end Supervisor

/-! ## Consistent nodes -/

/-- What a node's supervisor remembers is so. -/
structure Member.Consistent (m : Member) (id : Nat) : Prop where
  cached : ∀ b, m.node.sup.appliedReadOnly = some b → m.node.settings.readOnly = b
  standby : m.inRecovery = true →
    m.node.sup.appliedReadOnly = none ∧ m.node.sup.authorizedSince = none
  requested : m.promoteRequested = true → m.inRecovery = true ∧ m.node.settings.readOnly = true
  waiting : ∀ since, m.node.sup.authorizedSince = some since →
    Names m.node.sup.decided id ∨
      m.node.sup.decided = none ∧ m.node.sup.appliedReadOnly = some false

/-- Out of recovery and not read-only. -/
def Member.Open (m : Member) : Prop :=
  m.inRecovery = false ∧ m.node.settings.readOnly = false

instance (m : Member) : Decidable m.Open :=
  inferInstanceAs (Decidable (_ ∧ _))

namespace World

variable {c : ClusterConfig} {w w' : World c}

theorem lead_cached {i : c.Voter} (hconsistent : (w.members i).Consistent i) {inp : TickInput}
    {b : Bool} (hcache : ((w.members i).node.sup.lead (c.config i) inp).appliedReadOnly = some b) :
    (w.members i).node.settings.readOnly = b :=
  hconsistent.cached b (Supervisor.appliedReadOnly_of_lead hcache)

/-- A standby's tick. -/
theorem consistent_of_recovery {i : c.Voter} {inp : TickInput} (hsql : inp.SqlSucceeds)
    (hadmits : w.Admits i inp) (hconsistent : (w.members i).Consistent i)
    (hrecovery : inp.inRecovery = true) : (w.tickedMember i inp).Consistent i := by
  have hnode : (w.tickedMember i inp).node = _ := Node.tick_of_recovery hrecovery
  refine ⟨fun b hcache => ?_, fun _ => ?_, fun hrequested => ⟨?_, ?_⟩, fun since hsince => ?_⟩
  · rw [hnode] at hcache
    cases hcache
  · rw [hnode]
    exact ⟨rfl, rfl⟩
  · exact hadmits.inRecovery.symm.trans hrecovery
  · rw [hnode]
    have hfence : inp.promoteFence.tookEffect = true := by rw [hsql.promoteFence]; rfl
    simp only [Supervisor.recoverSettings_eq, hfence, Bool.and_true]
    split
    next => rfl
    next hidle =>
      -- nothing was issued, so the promotion was under way before
      rcases Bool.or_eq_true_iff.mp hrequested with hold | hnew
      · exact (hconsistent.requested hold).2
      · simp [World.report, Node.report, hidle] at hnew
  · rw [hnode] at hsince
    cases hsince

/-- The tick of a node out of recovery. -/
theorem consistent_of_primary {i : c.Voter} {inp : TickInput} (hsql : inp.SqlSucceeds)
    (hadmits : w.Admits i inp) (hconsistent : (w.members i).Consistent i)
    (hrecovery : inp.inRecovery = false) : (w.tickedMember i inp).Consistent i := by
  have hnode : (w.tickedMember i inp).node = _ := Node.tick_of_primary hrecovery
  have hout : (w.members i).inRecovery = false := hadmits.inRecovery.symm.trans hrecovery
  refine ⟨fun b hcache => ?_, fun hin => ?_, fun hrequested => ?_, fun since hsince => ?_⟩
  · rw [hnode] at hcache ⊢
    rw [Supervisor.serve_appliedReadOnly_of_success hsql] at hcache
    rw [Supervisor.serveSettings_readOnly_of_success hsql fun b => lead_cached hconsistent]
    exact Option.some.inj hcache
  · rw [show (w.tickedMember i inp).inRecovery = false from hout] at hin
    cases hin
  · rcases Bool.or_eq_true_iff.mp hrequested with hold | hnew
    · rw [(hconsistent.requested hold).1] at hout
      cases hout
    · simp [World.report, Node.report, hrecovery] at hnew
  · rw [hnode] at hsince ⊢
    have hraw := Supervisor.rawAuth_of_nextAuthorizedSince hsince
    change Names ((w.members i).node.sup.lead (c.config i) inp).decided i ∨ _
    cases hdecided : ((w.members i).node.sup.lead (c.config i) inp).decided with
    | some d =>
        exact Or.inl ⟨d, rfl, (Supervisor.rawAuth_of_decided hdecided hraw).1⟩
    | none =>
        -- without a decision the tick has opened the node
        have hauth := (Supervisor.authorized_of_undecided hdecided).trans hraw
        refine Or.inr ⟨hdecided, ?_⟩
        rw [Supervisor.serve_appliedReadOnly_of_success hsql, hauth]
        rfl

theorem consistent_of_step {e : Event c} (hstep : Step w e w') (hsql : e.SqlSucceeds)
    {i : c.Voter} (hconsistent : (w.members i).Consistent i) : (w'.members i).Consistent i := by
  cases memberStep_of_step hstep i with
  | ticked inp hevent hadmits hmember =>
      subst hevent
      rw [hmember]
      cases hrecovery : inp.inRecovery with
      | true => exact consistent_of_recovery hsql hadmits hconsistent hrecovery
      | false => exact consistent_of_primary hsql hadmits hconsistent hrecovery
  | restarted now hevent hmember =>
      rw [hmember]
      refine ⟨fun b hcache => ?_, fun _ => ⟨rfl, rfl⟩, hconsistent.requested,
        fun since hsince => ?_⟩
      · cases hcache
      · cases hsince
  | left hrecovery hrequested hmember =>
      rw [hmember]
      refine ⟨hconsistent.cached, fun hin => ?_, fun hpromote => ?_, hconsistent.waiting⟩
      · cases hin
      · cases hpromote
  | kept hnode hrecovery hrequested =>
      obtain ⟨hcached, hstandby, hrequest, hwaiting⟩ := hconsistent
      rw [← hnode] at hcached hstandby hrequest hwaiting
      rw [← hrecovery] at hstandby hrequest
      rw [← hrequested] at hrequest
      exact ⟨hcached, hstandby, hrequest, hwaiting⟩

theorem Initial.consistent (hinit : w.Initial) (i : c.Voter) : (w.members i).Consistent i := by
  obtain ⟨now, hsup⟩ := hinit.started i
  refine ⟨fun b hcache => ?_, fun _ => ?_, fun hrequested => ?_, fun since hsince => ?_⟩
  · rw [hsup] at hcache
    cases hcache
  · rw [hsup]
    exact ⟨rfl, rfl⟩
  · rw [hinit.promoteRequested i] at hrequested
    cases hrequested
  · rw [hsup] at hsince
    cases hsince

/-- A node that has just ticked out of recovery is open only with authority. -/
theorem authorized_of_open {i : c.Voter} {inp : TickInput} (hsql : inp.SqlSucceeds)
    (hadmits : w.Admits i inp) (hconsistent : (w.members i).Consistent i)
    (hopen : (w.tickedMember i inp).Open) :
    ((w.members i).node.sup.lead (c.config i) inp).authorized (c.config i) inp = true := by
  have hrecovery : inp.inRecovery = false := hadmits.inRecovery.trans hopen.1
  have hnode : (w.tickedMember i inp).node = _ := Node.tick_of_primary hrecovery
  have hreadOnly := hopen.2
  rw [hnode, Supervisor.serveSettings_readOnly_of_success hsql fun b => lead_cached hconsistent]
    at hreadOnly
  simpa using hreadOnly

end World

end PgReplica
