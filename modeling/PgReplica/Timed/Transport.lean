import Mathlib.Data.List.Perm.Subperm
import PgReplica.Rpc.GossipDelivery
import PgReplica.Timed.Network

/-! # Gossip links carry the mail

Every node has a link to each of the other nodes, and one channel for what its
handlers forward. What the links do between two ticks, with all their queues, failed
connects and partial writes, is mail in flight that arrives or never does.
-/

namespace PgReplica

open Foundation

variable {Req Res : Rpc → Type} {c : ClusterConfig}

structure Transport (c : ClusterConfig) where
  world : World c
  clock : Nat
  link : c.Voter → c.Voter → GossipLink
  inbox : c.Voter → List (Nat × List UInt8)

inductive TransportAction (c : ClusterConfig) where
  | link (source target : c.Voter) (e : LinkEvent)
  | node (e : Event c)

structure TimedTransport (c : ClusterConfig) where
  time : Nat
  action : TransportAction c

/-- The event is one of the link's own. -/
def LinkEvent.internal : LinkEvent → Bool
  | .broadcast _ _ | .senderRestarts | .receiverRestarts => false
  | _ => true

/-- A drained entry is stamped when it is drained. -/
def drainedEntry (now : Nat) (entry : Nat × List UInt8) : Received :=
  ⟨entry.1, entry.2, now, now⟩

namespace Transport

variable (env : c.Voter → ConnEnv Req Res) (t : Transport c)

/-- As in the network, with the channel's own entries. -/
def Punctual (now : Nat) : Event c → Prop
  | .tick i inp => inp.AtInstant now ∧ inp.SqlSucceeds ∧
      inp.received = (t.inbox i).map (drainedEntry now)
  | .restart _ start => start = now
  | _ => True

instance (now : Nat) : ∀ e, Decidable (t.Punctual now e)
  | .tick i inp => inferInstanceAs (Decidable (inp.AtInstant now ∧ inp.SqlSucceeds ∧
      inp.received = (t.inbox i).map (drainedEntry now)))
  | .restart _ start => inferInstanceAs (Decidable (start = now))
  | .commit _ | .apply _ | .leaveRecovery _ | .write _ | .ship _ _ | .ack _ _ => isTrue trivial

/-- The links after an event of a node. A broadcast is put into every link of its
node, and a restart is one of a sender and of a receiver. -/
def links : Event c → c.Voter → c.Voter → GossipLink
  | .tick i inp => fun source target =>
      if source = i ∧ target ≠ i then
        match (t.world.report i inp).broadcast with
        | some payload => (t.link source target).enqueue source payload
        | none => t.link source target
      else t.link source target
  | .restart i _ => fun source target =>
      if source = i then (t.link source target).restartSender
      else if target = i then (t.link source target).restartReceiver
      else t.link source target
  | _ => t.link

/-- The channels after an event. A tick drains its own, and a restart loses it. -/
def channels : Event c → c.Voter → List (Nat × List UInt8)
  | .tick i _ => Function.update t.inbox i []
  | .restart i _ => Function.update t.inbox i []
  | _ => t.inbox

def acted (now : Nat) (e : Event c) (world : World c) : Transport c where
  world := world
  clock := now
  link := t.links e
  inbox := t.channels e

/-- A link after one of its own events, with what its handlers forward. -/
def moved (now : Nat) (source target : c.Voter) (e : LinkEvent) (k : GossipLink) :
    Transport c :=
  { t with
    clock := now
    link := Function.update t.link source (Function.update (t.link source) target k)
    inbox := Function.update t.inbox target
      (t.inbox target ++ ((t.link source target).emitted (env target) e).map Prod.snd) }

def after (a : TimedTransport c) : Option (Transport c) :=
  match a.action with
  | .link source target e =>
      if source ≠ target ∧ e.internal = true then
        ((t.link source target).after (env target) source e).map
          (t.moved env a.time source target e)
      else none
  | .node e =>
      if t.Punctual a.time e then (t.world.after e).map (t.acted a.time e) else none

/-- Time does not go back. -/
structure Step (t : Transport c) (a : TimedTransport c) (t' : Transport c) : Prop where
  after : t.after env a = some t'
  clock_le : t.clock ≤ a.time

/-- Supervisors right after their start, and links that have carried nothing. -/
structure Initial (t : Transport c) : Prop where
  world : t.world.Initial
  lastLoop_le : ∀ i, (t.world.members i).node.sup.lastLoop ≤ t.clock
  link : ∀ source target, t.link source target = .start
  inbox : ∀ i, t.inbox i = []

/-- Freshly started nodes of which only `primary` is out of recovery. -/
def fresh (c : ClusterConfig) (primary : c.Voter) : Transport c :=
  ⟨World.fresh c primary, 0, fun _ _ => .start, fun _ => []⟩

theorem initial_fresh (primary : c.Voter) : (fresh c primary).Initial :=
  ⟨World.initial_fresh primary, fun _ => le_rfl, fun _ _ => rfl, fun _ => rfl⟩

variable {env t} {t' : Transport c} {a : TimedTransport c}

/-- The two ways in which a transport moves. -/
inductive ActionStep (env : c.Voter → ConnEnv Req Res) (t : Transport c) (now : Nat) :
    TransportAction c → Transport c → Prop
  | moved {source target : c.Voter} {e : LinkEvent} {k : GossipLink} (hne : source ≠ target)
      (hinternal : e.internal = true)
      (hlink : GossipLink.Step (env target) source (t.link source target) e k) :
      ActionStep env t now (.link source target e) (t.moved env now source target e k)
  | acted {e : Event c} {world : World c} (hpunctual : t.Punctual now e)
      (hworld : World.Step t.world e world) : ActionStep env t now (.node e) (t.acted now e world)

theorem actionStep_of_step (hstep : Step env t a t') :
    ActionStep env t a.time a.action t' := by
  have hafter := hstep.after
  unfold after at hafter
  split at hafter
  next source target e haction =>
    obtain ⟨⟨hne, hinternal⟩, hsome⟩ := Option.ite_none_right_eq_some.mp hafter
    obtain ⟨k, hlink, rfl⟩ := Option.map_eq_some_iff.mp hsome
    rw [haction]
    exact .moved hne hinternal hlink
  next e haction =>
    obtain ⟨hpunctual, hsome⟩ := Option.ite_none_right_eq_some.mp hafter
    obtain ⟨world, hworld, rfl⟩ := Option.map_eq_some_iff.mp hsome
    rw [haction]
    exact .acted hpunctual hworld

end Transport

/-! ## Mail of one pair of nodes -/

/-- What the receiver's handler forwards of a message. -/
def Mail.entry (mail : Mail c) : Nat × List UInt8 :=
  (mail.source, mail.payload)

namespace Network

variable {n n' : Network c} {i j : c.Voter}

/-- The messages in flight from one node to another. -/
def mailFrom (n : Network c) (i j : c.Voter) : List (Mail c) :=
  n.inFlight.filter fun mail => decide (mail.source = i ∧ mail.target = j)

/-- The node event of an action. The rest of the system does not see a delivery. -/
def visible (a : TimedAction c) : Option (Nat × Event c) :=
  match a.action with
  | .deliver _ => none
  | .node e => some (a.time, e)

/-- Messages of one pair with the given entries have arrived. -/
structure Delivers (n : Network c) (now : Nat) (i j : c.Voter)
    (entries : List (Nat × List UInt8)) (n' : Network c) : Prop where
  world : n'.world = n.world
  clock_le : n'.clock ≤ now
  inbox : ∀ k, (n'.inbox k).map Mail.entry =
    Function.update (fun k => (n.inbox k).map Mail.entry) j
      ((n.inbox j).map Mail.entry ++ entries) k
  mail : ∀ a b, ((n.mailFrom a b).map Mail.entry).Perm
    ((if a = i ∧ b = j then entries else []) ++ (n'.mailFrom a b).map Mail.entry)

theorem exists_delivers_cons {now : Nat} {entry : Nat × List UInt8} (hclock : n.clock ≤ now)
    (hmem : entry ∈ (n.mailFrom i j).map Mail.entry) :
    ∃ k n', Step n ⟨now, .deliver k⟩ n' ∧ n.Delivers now i j [entry] n' := by
  obtain ⟨mail, hmail, rfl⟩ := List.mem_map.mp hmem
  obtain ⟨hflight, hpair⟩ := List.mem_filter.mp hmail
  obtain ⟨rfl, rfl⟩ := of_decide_eq_true hpair
  obtain ⟨k, hlt, hk⟩ := List.getElem_of_mem hflight
  have hget : n.inFlight[k]? = some mail := by rw [List.getElem?_eq_getElem hlt, hk]
  refine ⟨k, n.delivered now k mail, ⟨?_, hclock⟩, rfl, le_rfl, fun target => ?_, fun a b => ?_⟩
  · change (n.inFlight[k]?).map (n.delivered now k) = _
    rw [hget]
    rfl
  · change (Function.update n.inbox mail.target (n.inbox mail.target ++ [mail]) target).map
      Mail.entry = _
    by_cases htarget : target = mail.target
    · subst htarget
      rw [Function.update_self, Function.update_self, List.map_append]
      rfl
    · rw [Function.update_of_ne htarget, Function.update_of_ne htarget]
  · have hperm : n.inFlight.Perm (mail :: n.inFlight.eraseIdx k) := by
      have hsplit := List.getElem_cons_eraseIdx_perm hlt
      rw [hk] at hsplit
      exact hsplit.symm
    have hfilter := (hperm.filter fun m => decide (m.source = a ∧ m.target = b)).map Mail.entry
    rw [List.filter_cons] at hfilter
    by_cases hsame : a = mail.source ∧ b = mail.target
    · obtain ⟨rfl, rfl⟩ := hsame
      simpa [mailFrom, delivered] using hfilter
    · have hother : ¬ (mail.source = a ∧ mail.target = b) :=
        fun heq => hsame ⟨heq.1.symm, heq.2.symm⟩
      rw [if_neg (by simpa using hother)] at hfilter
      rw [if_neg hsame]
      exact hfilter

/-- Entries that are all in flight arrive one by one. -/
theorem exists_delivers {now : Nat} {entries : List (Nat × List UInt8)} (hclock : n.clock ≤ now)
    (hsub : entries.Subperm ((n.mailFrom i j).map Mail.entry)) :
    ∃ labels n', Run Step n labels n' ∧ labels.filterMap visible = [] ∧
      n.Delivers now i j entries n' := by
  induction entries generalizing n with
  | nil =>
      refine ⟨[], n, .nil n, rfl, rfl, hclock, fun k => ?_, fun a b => ?_⟩
      · rw [List.append_nil, Function.update_eq_self]
      · rw [ite_self, List.nil_append]
  | cons entry rest ih =>
      obtain ⟨k, middle, hstep, hfirst⟩ :=
        exists_delivers_cons hclock (hsub.subset List.mem_cons_self)
      have hmail := hfirst.mail i j
      rw [if_pos ⟨rfl, rfl⟩, List.singleton_append] at hmail
      have hrest : rest.Subperm ((middle.mailFrom i j).map Mail.entry) :=
        (List.subperm_cons entry).mp (hsub.trans hmail.subperm)
      obtain ⟨labels, n', hrun, hhidden, hdelivers⟩ := ih hfirst.clock_le hrest
      refine ⟨_, n', .cons hstep hrun, hhidden, hdelivers.world.trans hfirst.world,
        hdelivers.clock_le, fun target => ?_, fun a b => ?_⟩
      · rw [hdelivers.inbox target]
        by_cases htarget : target = j
        · subst htarget
          rw [Function.update_self, Function.update_self, hfirst.inbox, Function.update_self,
            List.append_assoc]
          rfl
        · rw [Function.update_of_ne htarget, Function.update_of_ne htarget, hfirst.inbox,
            Function.update_of_ne htarget]
      · have hhead := hfirst.mail a b
        have htail := hdelivers.mail a b
        by_cases hsame : a = i ∧ b = j
        · rw [if_pos hsame] at hhead htail ⊢
          exact hhead.trans (htail.cons entry)
        · rw [if_neg hsame] at hhead htail ⊢
          exact hhead.trans htail

end Network

namespace Transport

variable {env : c.Voter → ConnEnv Req Res} {t t' : Transport c} {n : Network c}
  {a : TimedTransport c} {i j : c.Voter} {e : Event c}

/-! ## What an event of a node puts into the links -/

theorem length_of_broadcast {w : World c} {inp : TickInput} {payload : List UInt8}
    (hpayload : (w.report i inp).broadcast = some payload) : payload.length = 18 := by
  change ((w.members i).node.sup.prepare (c.config i) inp).broadcast inp = some payload at hpayload
  rw [Supervisor.broadcast] at hpayload
  obtain ⟨-, hencoded⟩ := Option.ite_none_right_eq_some.mp hpayload
  rw [← Option.some.inj hencoded, length_encodeGossip]

/-- An event of a node leaves a link as it is or is an event of the link. -/
theorem links_eq_or_step (env : ConnEnv Req Res) (t : Transport c) (e : Event c) :
    t.links e i j = t.link i j ∨
      ∃ le, GossipLink.Step env i (t.link i j) le (t.links e i j) := by
  cases e with
  | tick k inp =>
      by_cases hsource : i = k ∧ j ≠ k
      · cases hpayload : (t.world.report k inp).broadcast with
        | none => exact .inl (by simp only [links, if_pos hsource, hpayload])
        | some payload =>
            have hlength := length_of_broadcast hpayload
            have hfits : 9 + payload.length ≤ maxFrame := by
              rw [hlength]
              decide
            exact .inr ⟨.broadcast payload hfits,
              congrArg some (by simp only [links, if_pos hsource, hpayload])⟩
      · exact .inl (if_neg hsource)
  | restart k now =>
      by_cases hsource : i = k
      · exact .inr ⟨.senderRestarts, congrArg some (if_pos hsource).symm⟩
      · by_cases htarget : j = k
        · exact .inr ⟨.receiverRestarts,
            congrArg some ((if_neg hsource).trans (if_pos htarget)).symm⟩
        · exact .inl ((if_neg hsource).trans (if_neg htarget))
  | _ => exact .inl rfl

theorem forwarded_links (t : Transport c) (e : Event c) :
    (t.links e i j).forwarded = (t.link i j).forwarded := by
  cases e with
  | tick k inp =>
      simp only [links]
      split
      · split <;> rfl
      · rfl
  | restart k now =>
      simp only [links]
      split
      · rfl
      · split <;> rfl
  | _ => rfl

/-- A node mails each of the others once. -/
theorem filter_nodes_eq (hne : j ≠ i) :
    (c.nodes.filter fun k => decide (k ≠ i)).filter (fun k => decide (k = j)) = [j] := by
  rw [List.filter_filter]
  have hsame : c.nodes.filter (fun k => decide (k = j) && decide (k ≠ i)) =
      c.nodes.filter (fun k => decide (k = j)) := by
    refine List.filter_congr fun k _ => ?_
    by_cases hk : k = j
    · simp [hk, hne]
    · simp [hk]
  rw [hsame, List.filter_eq, List.count_eq_one_of_mem c.nodup_nodes (c.mem_nodes j)]
  rfl

/-- What an event adds to a link is what it mails between the two nodes. -/
theorem broadcasts_links (hids : ∀ id ∈ c.voters, id < 2 ^ 64) (hne : i ≠ j)
    (hworld : n.world = t.world) (now : Nat) :
    (t.links e i j).broadcasts.filterMap (gossipOf c.voters) =
      (t.link i j).broadcasts.filterMap (gossipOf c.voters) ++
        ((n.broadcasts now e).filter fun mail =>
          decide (mail.source = i ∧ mail.target = j)).map Mail.entry := by
  cases e with
  | tick k inp =>
      have hsent : n.broadcasts now (.tick k inp) =
          (t.world.report k inp).broadcast.toList.flatMap fun payload =>
            (c.nodes.filter fun b => decide (b ≠ k)).map fun b => ⟨k, b, payload, now⟩ := by
        rw [Network.broadcasts, hworld]
      rw [hsent]
      cases hpayload : (t.world.report k inp).broadcast with
      | none =>
          have hkept : t.links (.tick k inp) i j = t.link i j := by
            simp only [links, hpayload, ite_self]
          rw [hkept]
          exact (List.append_nil _).symm
      | some payload =>
          rw [Option.toList_some, List.flatMap_singleton, List.filter_map, List.map_map]
          by_cases hsource : i = k
          · subst hsource
            have hsame : (fun mail : Mail c => decide (mail.source = i ∧ mail.target = j)) ∘
                (fun b => (⟨i, b, payload, now⟩ : Mail c)) = fun b => decide (b = j) := by
              funext b
              simp
            have hlink : t.links (.tick i inp) i j = (t.link i j).enqueue i payload := by
              simp only [links, hpayload]
              exact if_pos ⟨trivial, Ne.symm hne⟩
            rw [hsame, filter_nodes_eq (Ne.symm hne), hlink, GossipLink.broadcasts_enqueue,
              List.filterMap_append, List.filterMap_cons,
              gossipOf_broadcast (hids i i.2) i.2, List.filterMap_nil]
            rfl
          · have hother : (fun mail : Mail c => decide (mail.source = i ∧ mail.target = j)) ∘
                (fun b => (⟨k, b, payload, now⟩ : Mail c)) = fun _ => false := by
              funext b
              simp [Ne.symm hsource]
            have hlink : t.links (.tick k inp) i j = t.link i j :=
              if_neg fun heq => hsource heq.1
            rw [hother, hlink, List.filter_false]
            exact (List.append_nil _).symm
  | restart k now =>
      have hkept : (t.links (.restart k now) i j).broadcasts = (t.link i j).broadcasts := by
        simp only [links]
        split
        · rfl
        · split <;> rfl
      rw [hkept]
      exact (List.append_nil _).symm
  | _ => exact (List.append_nil _).symm

/-! ## The simulation -/

/-- What is visible of an action of the transport. -/
def visible (a : TimedTransport c) : Option (Nat × Event c) :=
  match a.action with
  | .link _ _ _ => none
  | .node e => some (a.time, e)

/-- The network has the same nodes and the same channels. In flight from one node to
another is what was broadcast and has not been forwarded, whether or not it still can be. -/
structure Carried (env : c.Voter → ConnEnv Req Res) (t : Transport c) (n : Network c) :
    Prop where
  world : n.world = t.world
  clock_le : n.clock ≤ t.clock
  inbox : ∀ k, (n.inbox k).map Mail.entry = t.inbox k
  tasked : ∀ i j : c.Voter, GossipLink.Tasked i (t.link i j)
  delivered : ∀ i j : c.Voter, GossipLink.Delivered (env j) i (t.link i j)
  mail : ∀ i j, i ≠ j → ((t.link i j).broadcasts.filterMap (gossipOf c.voters)).Perm
    ((n.mailFrom i j).map Mail.entry ++ (t.link i j).forwarded.map Prod.snd)

theorem broadcasts_of_internal {voters : ConnEnv Req Res} {sender : Nat} {s s' : GossipLink}
    {le : LinkEvent} (hinternal : le.internal = true)
    (hstep : GossipLink.Step voters sender s le s') : s'.broadcasts = s.broadcasts := by
  cases GossipLink.moves_of_step hstep with
  | broadcast => cases hinternal
  | _ => rfl

theorem link_moved (env : c.Voter → ConnEnv Req Res) (t : Transport c) (now : Nat)
    (source target : c.Voter) (le : LinkEvent) (k : GossipLink) :
    (t.moved env now source target le k).link i j =
      if i = source ∧ j = target then k else t.link i j := by
  change Function.update t.link source (Function.update (t.link source) target k) i j = _
  by_cases hsource : i = source
  · subst hsource
    rw [Function.update_self]
    by_cases htarget : j = target
    · subst htarget
      rw [Function.update_self, if_pos ⟨rfl, rfl⟩]
    · rw [Function.update_of_ne htarget, if_neg fun heq => htarget heq.2]
  · rw [Function.update_of_ne hsource, if_neg fun heq => hsource heq.1]

/-- What a link forwards is delivered as mail. -/
theorem exists_run_of_moved (hvoters : ∀ k, (env k).voters = c.voters) {now : Nat}
    (hcarried : Carried env t n) (hclock : t.clock ≤ now) {source target : c.Voter}
    {le : LinkEvent} {k : GossipLink} (hne : source ≠ target) (hinternal : le.internal = true)
    (hlink : GossipLink.Step (env target) source (t.link source target) le k) :
    ∃ labels n', Run Network.Step n labels n' ∧
      Carried env (t.moved env now source target le k) n' ∧
        labels.filterMap Network.visible = [] := by
  have htasked := GossipLink.tasked_of_step (hcarried.tasked source target) hlink
  have hdelivered := GossipLink.delivered_of_step (hcarried.tasked source target)
    (hcarried.delivered source target) hlink
  have hbroadcasts := broadcasts_of_internal hinternal hlink
  have hforwarded := GossipLink.forwarded_of_step hlink
  have hmail := hcarried.mail source target hne
  -- what is forwarded now has not been forwarded before
  have hsub : (((t.link source target).emitted (env target) le).map Prod.snd).Subperm
      ((n.mailFrom source target).map Mail.entry) := by
    have hall := hdelivered.subperm htasked
    rw [hvoters, hbroadcasts, hforwarded, List.map_append] at hall
    exact (List.subperm_append_left _).mp
      ((hall.trans hmail.subperm).trans List.perm_append_comm.subperm)
  obtain ⟨labels, n', hrun, hhidden, hdelivers⟩ :=
    Network.exists_delivers (hcarried.clock_le.trans hclock) hsub
  refine ⟨labels, n', hrun, ⟨hdelivers.world.trans hcarried.world, hdelivers.clock_le,
    fun other => ?_, fun i j => ?_, fun i j => ?_, fun i j hpair => ?_⟩, hhidden⟩
  · rw [hdelivers.inbox other]
    change _ = Function.update t.inbox target _ other
    by_cases htarget : other = target
    · subst htarget
      rw [Function.update_self, Function.update_self, hcarried.inbox]
    · rw [Function.update_of_ne htarget, Function.update_of_ne htarget, hcarried.inbox]
  · rw [link_moved]
    split
    next hsame =>
      obtain ⟨rfl, rfl⟩ := hsame
      exact htasked
    next => exact hcarried.tasked i j
  · rw [link_moved]
    split
    next hsame =>
      obtain ⟨rfl, rfl⟩ := hsame
      exact hdelivered
    next => exact hcarried.delivered i j
  · rw [link_moved]
    have hsplit := hdelivers.mail i j
    by_cases hsame : i = source ∧ j = target
    · obtain ⟨rfl, rfl⟩ := hsame
      rw [if_pos ⟨rfl, rfl⟩, hbroadcasts, hforwarded, List.map_append]
      rw [if_pos ⟨rfl, rfl⟩] at hsplit
      refine hmail.trans ((hsplit.append_right _).trans ?_)
      refine (List.perm_append_comm.append_right _).trans ?_
      rw [List.append_assoc]
      exact List.perm_append_comm.append_left _
    · rw [if_neg hsame]
      rw [if_neg hsame, List.nil_append] at hsplit
      exact (hcarried.mail i j hpair).trans (hsplit.append_right _)

theorem punctual_of_carried (hcarried : Carried env t n) {now : Nat}
    (hpunctual : t.Punctual now e) : n.Punctual now e := by
  cases e with
  | tick i inp =>
      obtain ⟨hinstant, hsql, hreceived⟩ := hpunctual
      refine ⟨hinstant, hsql, ?_⟩
      rw [hreceived, ← hcarried.inbox, List.map_map]
      rfl
  | restart i start => exact hpunctual
  | _ => trivial

theorem inbox_channels (hcarried : Carried env t n) (k : c.Voter) :
    (n.channels e k).map Mail.entry = t.channels e k := by
  cases e with
  | tick i _ | restart i _ =>
      change (Function.update n.inbox i [] k).map Mail.entry = Function.update t.inbox i [] k
      by_cases hk : k = i
      · subst hk
        rw [Function.update_self, Function.update_self]
        rfl
      · rw [Function.update_of_ne hk, Function.update_of_ne hk, hcarried.inbox]
  | _ => exact hcarried.inbox k

/-- An event of a node is the same event in the network. -/
theorem carried_of_acted (hids : ∀ id ∈ c.voters, id < 2 ^ 64) {now : Nat}
    (hcarried : Carried env t n) (world : World c) :
    Carried env (t.acted now e world) (n.acted now e world) := by
  refine ⟨rfl, le_rfl, inbox_channels hcarried, fun i j => ?_, fun i j => ?_,
    fun i j hne => ?_⟩
  · change GossipLink.Tasked i (t.links e i j)
    rcases links_eq_or_step (env j) t e with hkept | ⟨le, hlink⟩
    · rw [hkept]
      exact hcarried.tasked i j
    · exact GossipLink.tasked_of_step (hcarried.tasked i j) hlink
  · change GossipLink.Delivered (env j) i (t.links e i j)
    rcases links_eq_or_step (env j) t e with hkept | ⟨le, hlink⟩
    · rw [hkept]
      exact hcarried.delivered i j
    · exact GossipLink.delivered_of_step (hcarried.tasked i j) (hcarried.delivered i j) hlink
  · change ((t.links e i j).broadcasts.filterMap _).Perm
      (((n.inFlight ++ n.broadcasts now e).filter _).map Mail.entry ++
        (t.links e i j).forwarded.map Prod.snd)
    rw [broadcasts_links hids hne hcarried.world now, forwarded_links, List.filter_append,
      List.map_append, List.append_assoc]
    refine ((hcarried.mail i j hne).append_right _).trans ?_
    rw [List.append_assoc]
    exact List.perm_append_comm.append_left _

theorem carried_of_step (hids : ∀ id ∈ c.voters, id < 2 ^ 64)
    (hvoters : ∀ k, (env k).voters = c.voters) (hcarried : Carried env t n)
    (hstep : Step env t a t') :
    ∃ labels n', Run Network.Step n labels n' ∧ Carried env t' n' ∧
      labels.filterMap Network.visible = (visible a).toList := by
  obtain ⟨now, action⟩ := a
  have hclock : t.clock ≤ now := hstep.clock_le
  cases actionStep_of_step hstep with
  | moved hne hinternal hlink =>
      exact exists_run_of_moved hvoters hcarried hclock hne hinternal hlink
  | @acted e world hpunctual hworld =>
      have hafter : n.after ⟨now, .node e⟩ = some (n.acted now e world) := by
        change (if n.Punctual now e then (n.world.after e).map (n.acted now e) else none) = _
        rw [if_pos (punctual_of_carried hcarried hpunctual), hcarried.world, hworld]
        rfl
      exact ⟨[⟨now, .node e⟩], _, .single ⟨hafter, hcarried.clock_le.trans hclock⟩,
        carried_of_acted hids hcarried world, rfl⟩

/-- Whatever the links do, the nodes cannot tell them from a network that delivers each
broadcast at most once, in any order: every run is one of the network with the same
events of the nodes at the same times, and it leaves the nodes and their channels alike. -/
theorem network_of_transport (hids : ∀ id ∈ c.voters, id < 2 ^ 64)
    (hvoters : ∀ k, (env k).voters = c.voters) {start : Transport c}
    {labels : List (TimedTransport c)} (hinit : start.Initial)
    (hrun : Run (Step env) start labels t) :
    ∃ first labels' n, Network.Initial first ∧ first.world = start.world ∧
      Run Network.Step first labels' n ∧
      labels'.filterMap Network.visible = labels.filterMap visible ∧
      n.world = t.world ∧ ∀ k, (n.inbox k).map Mail.entry = t.inbox k := by
  let first : Network c := ⟨start.world, start.clock, [], fun _ => []⟩
  have hfirst : first.Initial := ⟨hinit.world, hinit.lastLoop_le, rfl, fun _ => rfl⟩
  have hcarried : Carried env start first := by
    refine ⟨rfl, le_rfl, fun k => (hinit.inbox k).symm, fun i j => ?_, fun i j => ?_,
      fun i j _ => ?_⟩
    · rw [hinit.link]
      exact GossipLink.tasked_start
    · rw [hinit.link]
      exact GossipLink.delivered_start
    · rw [hinit.link]
      rfl
  obtain ⟨labels', n, hrun', hend, hvisible⟩ :=
    Run.simulation (Carried env) visible Network.visible
      (fun _ _ _ _ hn hstep => carried_of_step hids hvoters hn hstep) hcarried hrun
  exact ⟨first, labels', n, hfirst, rfl, hrun', hvisible, hend.world, hend.inbox⟩

/-- Node 1 ticks five times and broadcasts, and node 2 reads the broadcast in two
pieces. -/
def firstBroadcastRead : List (TimedTransport threeNodes) :=
  [100, 200, 300, 400, 500].map (fun now => ⟨now, .node (.tick (three 1) (.plain now [] none))⟩) ++
    [.recv, .empty, .connect, .accept 20, .accept 11, .written, .read 0 4, .read 0 27].map fun le =>
      ⟨600, .link (three 1) (three 2) le⟩

theorem network_of_transport_threeNodes : ∃ t : Transport threeNodes,
    t.world.log = [] ∧ (t.link (three 1) (three 2)).begun.length = 1 ∧
      ∃ first labels' n, Network.Initial first ∧ Run Network.Step first labels' n ∧
        n.world = t.world ∧ ∀ k, (n.inbox k).map Mail.entry = t.inbox k := by
  obtain ⟨t, hrun, hend⟩ := @Run.exists_of_guarded _ _ (after fun _ => threeVoters)
    (fun t a => t.clock ≤ a.time) _ (fresh threeNodes (three 1)) firstBroadcastRead
    (fun t => decide (t.world.log = [] ∧ (t.link (three 1) (three 2)).begun.length = 1))
    (by decide +kernel)
  obtain ⟨hlog, hbegun⟩ := of_decide_eq_true hend
  obtain ⟨first, labels', n, hinit, -, hrun', -, hworld, hinbox⟩ :=
    @network_of_transport _ _ threeNodes (fun _ => threeVoters) t (by decide) (fun _ => rfl) _ _
      (initial_fresh (three 1)) (hrun.imp fun _ _ _ ⟨hafter, hclock⟩ => ⟨hafter, hclock⟩)
  exact ⟨t, hlog, hbegun, first, labels', n, hinit, hrun', hworld, hinbox⟩

end Transport

end PgReplica
