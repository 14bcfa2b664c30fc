import PgReplica.Supervisor.Leader
import PgReplica.Timed.Network

/-! # Every node hears from a node that keeps ticking

A supervisor that has been ticking for five intervals has broadcast once. The
broadcast is in flight, in a channel or drained, and it stays so as long as no
receiver is restarted.
-/

namespace PgReplica

open Foundation

namespace Network

variable {c : ClusterConfig} {n n' : Network c} {a : TimedAction c} {G S D T : Nat}
  {P L : c.Voter}

/-- A supervisor is started only before `S`, has ticked by then, and from then on
its ticks are at most `G` apart. -/
@[mk_iff] structure Ticking (n : Network c) (G S : Nat) (a : TimedAction c) : Prop where
  started : a.action.restarts = true → a.time < S
  ticked : S < a.time → ∀ i, 1 ≤ (n.sup i).ticks
  cadence : S < a.time → n.InCadence G a

instance (n : Network c) (G S : Nat) (a : TimedAction c) : Decidable (n.Ticking G S a) :=
  decidable_of_iff _ (ticking_iff n G S a).symm

/-! ## Clock readings -/

/-- No supervisor has a stamp from the future. -/
structure Clocked (n : Network c) : Prop where
  lastLoop : ∀ i, (n.sup i).lastLoop ≤ n.clock
  lastHeard : ∀ i id stamp, (n.sup i).peers.lastHeard.lookup id = some stamp → stamp ≤ n.clock

theorem Initial.clocked (hinit : n.Initial) : n.Clocked := by
  refine ⟨hinit.lastLoop_le, fun i id stamp hlookup => ?_⟩
  obtain ⟨now, hsup⟩ := hinit.world.started i
  rw [sup, member, hsup] at hlookup
  simp [Supervisor.start] at hlookup

/-- What is drained at `now` is stamped `now`. -/
theorem stamp_of_tick {inp : TickInput} {i : c.Voter} {now id stamp : Nat}
    (hreceived : inp.received = (n.inbox i).map (·.drainedAt now))
    (hlookup : (n.world.tickedMember i inp).node.sup.peers.lastHeard.lookup id = some stamp) :
    (n.inbox i ≠ [] ∧ stamp = now) ∨
      (n.sup i).peers.lastHeard.lookup id = some stamp := by
  rw [World.tickedMember, Node.tick_peers] at hlookup
  change ((n.sup i).peers.drain inp.received).lastHeard.lookup id = some stamp at hlookup
  rw [PeerTable.lookup_lastHeard_drain] at hlookup
  cases hlatest : latestFrom inp.received id with
  | none =>
      rw [hlatest] at hlookup
      exact Or.inr hlookup
  | some m =>
      rw [hlatest] at hlookup
      obtain ⟨hmem, -⟩ := mem_of_latestFrom hlatest
      rw [hreceived] at hmem
      obtain ⟨mail, hmail, rfl⟩ := List.mem_map.mp hmem
      exact Or.inl ⟨List.ne_nil_of_mem hmail, (Option.some.inj hlookup).symm⟩

theorem clocked_of_step (hclocked : n.Clocked) (hstep : Step n a n') : n'.Clocked := by
  have hclock := clock_of_step hstep
  have hle := hstep.clock_le
  constructor
  · intro i
    rw [hclock]
    have hold := hclocked.lastLoop i
    cases nodeStep_of_step hstep i with
    | ticked inp haction hadmits hinstant hsql hreceived hmember =>
        rw [sup, hmember, World.tickedMember, Node.tick_lastLoop, hinstant.loopNow]
    | restarted haction hmember =>
        rw [sup, hmember]
        exact le_rfl
    | left hrecovery hrequested hmember =>
        rw [sup, hmember]
        exact hold.trans hle
    | received k mail haction hmail htarget hmember =>
        rw [sup, hmember]
        exact hold.trans hle
    | kept hnode =>
        rw [sup, hnode]
        exact hold.trans hle
  · intro i id stamp hlookup
    rw [hclock]
    cases nodeStep_of_step hstep i with
    | ticked inp haction hadmits hinstant hsql hreceived hmember =>
        rw [sup, hmember] at hlookup
        rcases stamp_of_tick hreceived hlookup with ⟨-, rfl⟩ | hold
        · exact le_rfl
        · exact (hclocked.lastHeard i id stamp hold).trans hle
    | restarted haction hmember =>
        rw [sup, hmember] at hlookup
        simp [World.restartedMember, Supervisor.start] at hlookup
    | left hrecovery hrequested hmember =>
        rw [sup, hmember] at hlookup
        exact (hclocked.lastHeard i id stamp hlookup).trans hle
    | received k mail haction hmail htarget hmember =>
        rw [sup, hmember] at hlookup
        exact (hclocked.lastHeard i id stamp hlookup).trans hle
    | kept hnode =>
        rw [sup, hnode] at hlookup
        exact (hclocked.lastHeard i id stamp hlookup).trans hle

/-! ## Being heard -/

def Mail.WellFormed (mail : Mail c) : Prop :=
  ∃ gossip, decodeGossip mail.payload = some gossip

/-- A message of `P` waits in the channel of `L`, or `L` has an entry for `P` that was
stored at `since` or later. -/
def Heard (n : Network c) (P L : c.Voter) (since : Nat) : Prop :=
  (∃ mail ∈ n.inbox L, mail.source = P ∧ Mail.WellFormed mail) ∨
    (n.sup L).peers.Seen P since

/-- `L` hears a message that `P` sent at `sentAt`, or the message is in flight. -/
def Reached (n : Network c) (P L : c.Voter) (sentAt : Nat) : Prop :=
  (∃ mail ∈ n.inFlight, mail.source = P ∧ mail.target = L ∧ mail.sentAt = sentAt ∧
    Mail.WellFormed mail) ∨ n.Heard P L sentAt

theorem Heard.mono {since since' : Nat} (hheard : n.Heard P L since) (hle : since' ≤ since) :
    n.Heard P L since' :=
  hheard.imp_right fun ⟨entry, hlookup, hsince⟩ => ⟨entry, hlookup, hle.trans hsince⟩

/-- The leader block of a tick of `L` sees `P`. -/
theorem prepared_seen {since now : Nat} (hheard : n.Heard P L since) {inp : TickInput}
    (hinstant : inp.AtInstant now) (hsince : since ≤ now)
    (hreceived : inp.received = (n.inbox L).map (·.drainedAt now)) :
    (n.world.prepared L inp).peers.Seen P since := by
  refine Supervisor.prepare_seen (fun m hm => ?_) (hinstant.storedAt ▸ hsince) ?_
  · rw [hreceived] at hm
    obtain ⟨mail, -, rfl⟩ := List.mem_map.mp hm
    exact hsince
  · rcases hheard with ⟨mail, hmail, rfl, hdecode⟩ | hseen
    · refine Or.inr ⟨mail.drainedAt now, ?_, rfl, hdecode⟩
      rw [hreceived]
      exact List.mem_map_of_mem hmail
    · exact Or.inl hseen

theorem heard_of_step {since : Nat} (hheard : n.Heard P L since) (hstep : Step n a n')
    (hstarted : a.action.restarts = false) (hsince : since ≤ a.time) :
    n'.Heard P L since := by
  cases nodeStep_of_step hstep L with
  | ticked inp haction hadmits hinstant hsql hreceived hmember =>
      apply Or.inr
      rw [sup, hmember, World.tickedMember, Node.tick_peers]
      exact prepared_seen hheard hinstant hsince hreceived
  | restarted haction =>
      rw [haction] at hstarted
      cases hstarted
  | left hrecovery hrequested hmember hinbox =>
      rwa [Heard, hinbox, sup, hmember]
  | received k mail haction hmail htarget hmember hinbox =>
      rw [Heard, hinbox, sup, hmember]
      exact hheard.imp_left (Exists.imp fun _ => And.imp_left (List.mem_append_left _))
  | kept hnode hrecovery hinbox => rwa [Heard, hinbox, sup, hnode]

theorem reached_of_step {sentAt : Nat} (hreached : n.Reached P L sentAt) (hstep : Step n a n')
    (hstarted : a.action.restarts = false) (hsent : sentAt ≤ a.time) :
    n'.Reached P L sentAt := by
  rcases hreached with ⟨mail, hmem, hsource, htarget, hsentAt, hdecode⟩ | hheard
  · have haction := actionStep_of_step hstep
    generalize a.action = action at haction
    cases haction with
    | @delivered k arrived hmail =>
        obtain ⟨index, hindex⟩ := List.mem_iff_getElem?.mp hmem
        by_cases heq : index = k
        · -- the message arrives now
          subst heq
          obtain rfl : mail = arrived := Option.some.inj (hindex.symm.trans hmail)
          refine Or.inr (Or.inl ⟨mail, ?_, hsource, hdecode⟩)
          subst htarget
          change mail ∈ Function.update n.inbox mail.target _ mail.target
          rw [Function.update_self]
          exact List.mem_append_right _ List.mem_cons_self
        · refine Or.inl ⟨mail, ?_, hsource, htarget, hsentAt, hdecode⟩
          exact List.mem_eraseIdx_iff_getElem?.mpr ⟨index, heq, hindex⟩
    | acted hpunctual hworld =>
        refine Or.inl ⟨mail, ?_, hsource, htarget, hsentAt, hdecode⟩
        exact List.mem_append_left _ hmem
  · exact Or.inr (heard_of_step hheard hstep hstarted hsent)

/-! ## The first broadcast after `S` -/

/-- Every fifth tick broadcasts a well-formed message. -/
theorem exists_broadcast {inp : TickInput}
    (hbroadcast : ((n.sup P).ticks + 1) % gossipEvery = 0) :
    ∃ payload, (n.world.report P inp).broadcast = some payload ∧
      ∃ gossip, decodeGossip payload = some gossip :=
  ⟨_, if_pos hbroadcast, exists_decodeGossip_encodeGossip ..⟩

/-- A tick that broadcasts reaches every node. -/
theorem reached_of_broadcast {inp : TickInput} (hstep : Step n a n')
    (haction : a.action = .node (.tick P inp)) (hinstant : inp.AtInstant a.time)
    (hmember : n'.member P = n.world.tickedMember P inp)
    (hbroadcast : ((n.sup P).ticks + 1) % gossipEvery = 0) (L : c.Voter) :
    n'.Reached P L a.time := by
  by_cases heq : L = P
  · subst heq
    refine Or.inr (Or.inr ?_)
    rw [sup, hmember, World.tickedMember, Node.tick_peers, ← hinstant.storedAt]
    exact Supervisor.prepare_seen_self hbroadcast
  · have hacted := actionStep_of_step hstep
    rw [haction] at hacted
    cases hacted with
    | acted hpunctual hworld =>
        obtain ⟨payload, hpayload, hdecode⟩ := exists_broadcast hbroadcast
        refine Or.inl ⟨⟨P, L, payload, a.time⟩, List.mem_append_right _ ?_, rfl, rfl, rfl,
          hdecode⟩
        rw [broadcasts, hpayload, Option.toList_some, List.flatMap_singleton]
        exact List.mem_map.mpr ⟨L, by simpa using ⟨c.mem_nodes L, heq⟩, rfl⟩

/-- `P` has not yet broadcast at `S` or later, and will do so in time. -/
def AwaitsBroadcast (n : Network c) (P : c.Voter) (G S : Nat) : Prop :=
  (n.sup P).ticks = 0 ∨
    (n.sup P).lastLoop < S + (n.sup P).ticks % gossipEvery * G

/-- A broadcast of `P` at `S` or later, due by `T`, has reached every node. -/
def InContact (n : Network c) (P : c.Voter) (S D T : Nat) : Prop :=
  ∃ sentAt, S ≤ sentAt ∧ sentAt + D ≤ T ∧ sentAt ≤ n.clock ∧ ∀ L, n.Reached P L sentAt

theorem inContact_of_step (hcontact : n.InContact P S D T) (hstep : Step n a n')
    (hticking : n.Ticking G S a) : n'.InContact P S D T := by
  obtain ⟨sentAt, hfrom, hdue, hclock, hreached⟩ := hcontact
  have hsent : sentAt ≤ a.time := hclock.trans hstep.clock_le
  have hstarted : a.action.restarts = false := by
    by_contra hrestarts
    have := hticking.started (by simpa using hrestarts)
    omega
  refine ⟨sentAt, hfrom, hdue, clock_of_step hstep ▸ hsent, fun L => ?_⟩
  exact reached_of_step (hreached L) hstep hstarted hsent

/-- A tick brings the next broadcast one tick closer or is a broadcast. -/
theorem contact_of_tick {inp : TickInput} (hpos : 0 < G) (hT : S + (5 * G + D) = T)
    (hawaits : n.AwaitsBroadcast P G S) (hstep : Step n a n') (hticking : n.Ticking G S a)
    (haction : a.action = .node (.tick P inp)) (hinstant : inp.AtInstant a.time)
    (hmember : n'.member P = n.world.tickedMember P inp) :
    n'.AwaitsBroadcast P G S ∨ n'.InContact P S D T := by
  have hticks : (n'.sup P).ticks = (n.sup P).ticks + 1 := by
    rw [sup, hmember, World.tickedMember, Node.tick_ticks]
    rfl
  have hlast : (n'.sup P).lastLoop = a.time := by
    rw [sup, hmember, World.tickedMember, Node.tick_lastLoop, hinstant.loopNow]
  have hlt : a.time < S + ((n.sup P).ticks % gossipEvery + 1) * G := by
    rw [Nat.add_mul, Nat.one_mul]
    rcases Nat.lt_or_ge S a.time with hafter | hby
    · -- the first tick was due by `S`
      have hticked := hticking.ticked hafter P
      have hcadence := hticking.cadence hafter P
      rcases hawaits with hzero | hbefore
      · omega
      · omega
    · omega
  by_cases hbroadcast : ((n.sup P).ticks + 1) % gossipEvery = 0
  · have hmod : (n.sup P).ticks % gossipEvery + 1 = 5 := by
      simp only [gossipEvery] at hbroadcast ⊢
      omega
    rw [hmod] at hlt
    by_cases hearly : a.time < S
    · -- a broadcast before `S` may be lost in a restart, so the count starts again
      refine Or.inl (Or.inr ?_)
      rw [hticks, hlast, hbroadcast]
      omega
    · refine Or.inr ⟨a.time, by omega, by omega, (clock_of_step hstep).ge, ?_⟩
      exact reached_of_broadcast hstep haction hinstant hmember hbroadcast
  · refine Or.inl (Or.inr ?_)
    have hmod : ((n.sup P).ticks + 1) % gossipEvery = (n.sup P).ticks % gossipEvery + 1 := by
      simp only [gossipEvery] at hbroadcast ⊢
      omega
    rwa [hticks, hlast, hmod]

theorem contact_of_step (hpos : 0 < G) (hT : S + (5 * G + D) = T)
    (hcontact : n.AwaitsBroadcast P G S ∨ n.InContact P S D T) (hstep : Step n a n')
    (hticking : n.Ticking G S a) : n'.AwaitsBroadcast P G S ∨ n'.InContact P S D T := by
  rcases hcontact with hawaits | hcontact
  · cases nodeStep_of_step hstep P with
    | ticked inp haction hadmits hinstant hsql hreceived hmember =>
        exact contact_of_tick hpos hT hawaits hstep hticking haction hinstant hmember
    | restarted haction hmember =>
        refine Or.inl (Or.inl ?_)
        rw [sup, hmember]
        rfl
    | left hrecovery hrequested hmember =>
        apply Or.inl
        rwa [AwaitsBroadcast, sup, hmember]
    | received k mail haction hmail htarget hmember =>
        apply Or.inl
        rwa [AwaitsBroadcast, sup, hmember]
    | kept hnode =>
        apply Or.inl
        rwa [AwaitsBroadcast, sup, hnode]
  · exact Or.inr (inContact_of_step hcontact hstep hticking)

theorem Initial.awaitsBroadcast (hinit : n.Initial) : n.AwaitsBroadcast P G S := by
  obtain ⟨now, hsup⟩ := hinit.world.started P
  apply Or.inl
  rw [sup, member, hsup]
  rfl

/-- Once every message that is due has arrived, every node hears a message that `P`
sent at `S` or later. -/
theorem heard_of_run {n₀ : Network c} {actions : List (TimedAction c)} (hpos : 0 < G)
    (hT : S + (5 * G + D) = T) (hinit : n₀.Initial)
    (hrun : Run (fun n a n' => Step n a n' ∧ n.Ticking G S a) n₀ actions n)
    (hticked : 1 ≤ (n.sup P).ticks) (hcadence : T ≤ (n.sup P).lastLoop + G)
    (harrived : ∀ mail ∈ n.inFlight, T < mail.sentAt + D) (L : c.Voter) :
    ∃ sentAt, S ≤ sentAt ∧ n.Heard P L sentAt := by
  have hcontact : n.AwaitsBroadcast P G S ∨ n.InContact P S D T := by
    refine Run.invariant (I := fun n => n.AwaitsBroadcast P G S ∨ n.InContact P S D T) ?_ hrun
      (Or.inl hinit.awaitsBroadcast)
    exact fun _ _ _ hcontact hstep => contact_of_step hpos hT hcontact hstep.1 hstep.2
  rcases hcontact with (hzero | hbefore) | ⟨sentAt, hfrom, hdue, -, hreached⟩
  · omega
  · have hmod : (n.sup P).ticks % gossipEvery * G ≤ 4 * G :=
      Nat.mul_le_mul_right _ (Nat.le_of_lt_succ (Nat.mod_lt _ (by decide)))
    omega
  · refine ⟨sentAt, hfrom, ?_⟩
    rcases hreached L with ⟨mail, hmem, -, -, hsentAt, -⟩ | hheard
    · have := harrived mail hmem
      omega
    · exact hheard

end Network

end PgReplica
