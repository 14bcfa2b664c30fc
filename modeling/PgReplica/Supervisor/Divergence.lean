import PgReplica.Foundation.Counting
import PgReplica.Supervisor.Leader

/-! # Deposed nodes among the candidates

A node that was deposed while out of recovery keeps records that the history of
its successor does not have. The leader compares bare positions, its own and
those of its peers measured in different ways, so such a node may win.
-/

namespace PgReplica

open Foundation

/-- The logs of all nodes at a tick. `deposed` nodes are still out of recovery, and
`lastReceived` is what `pg_last_wal_receive_lsn` says on them, 0 where it is null. -/
structure WalView (ρ : Type) where
  wal : Nat → List ρ
  deposed : Nat → Bool
  lastReceived : Nat → Nat

namespace WalView

variable {ρ : Type} (v : WalView ρ)

/-- The position that a node in recovery has received, and out of recovery the last one. -/
def receiveLsn (id : Nat) : Nat :=
  if v.deposed id then v.lastReceived id else (v.wal id).length

/-- `wal_lsn`: out of recovery the position up to which the node itself has written. -/
def walLsn (id : Nat) (inRecovery : Bool) : Nat :=
  if inRecovery then v.receiveLsn id else (v.wal id).length

/-- A live node as the leader of the configuration measures it. -/
def candidate (cfg : Config) (id : Nat) : Candidate where
  id := id
  lsn := if id = cfg.nodeId then v.walLsn id (!v.deposed id) else v.receiveLsn id
  inRecovery := !v.deposed id

/-- The tick reads the logs: every probe is answered, and nodes report their recovery. -/
structure Measured (cfg : Config) (live : List Candidate) (inp : TickInput) : Prop where
  recovery : inp.inRecovery = !v.deposed cfg.nodeId
  own : inp.walLsn = v.walLsn cfg.nodeId inp.inRecovery
  peers : ∀ member ∈ live, member.id ≠ cfg.nodeId →
    member.id ∈ cfg.pgMembers.map Peer.id ∧
      inp.peerWalLsn member.id = some (v.receiveLsn member.id)
  reported : ∀ member ∈ live, member.inRecovery = !v.deposed member.id

/-- The records up to the last one that the primary and enough standbys acknowledged. -/
structure Acknowledged (cfg : Config) (primary : Nat) (acked : List ρ) : Prop where
  onPrimary : acked <+: v.wal primary
  onStandbys : ∃ standbys : List Nat, standbys.Nodup ∧ cfg.majority - 1 ≤ standbys.length ∧
    ∀ id ∈ standbys, id ∈ cfg.voters ∧ id ≠ primary ∧ v.deposed id = false ∧ acked <+: v.wal id

variable {v} {cfg : Config} {live : List Candidate} {inp : TickInput}

theorem probe_eq_candidate (hmeasured : v.Measured cfg live inp) {member : Candidate}
    (hlive : member ∈ live) : Supervisor.probe cfg inp member = v.candidate cfg member.id := by
  have hflag := hmeasured.reported member hlive
  obtain ⟨id, lsn, inRecovery⟩ := member
  by_cases hself : id = cfg.nodeId
  · simp only [Supervisor.probe, candidate, if_pos hself, hmeasured.own, hmeasured.recovery]
    simp_all
  · obtain ⟨hmember, hprobe⟩ := hmeasured.peers _ hlive hself
    have hlsn := Supervisor.probe_lsn_of_peer hself hmember hprobe
    simp_all [Supervisor.probe, candidate]

/-- A standby is measured at the end of its log. -/
theorem candidate_lsn_of_standby {id : Nat} (hstandby : v.deposed id = false) :
    (v.candidate cfg id).lsn = (v.wal id).length := by
  simp [candidate, walLsn, receiveLsn, hstandby]

/-- Some live standby holds everything that was acknowledged. -/
theorem exists_live_acknowledging {primary : Nat} {acked : List ρ}
    (hacked : v.Acknowledged cfg primary acked) (hprimary : primary ∈ cfg.voters)
    (hnodup : (live.map Candidate.id).Nodup)
    (hlive : ∀ member ∈ live, member.id ∈ cfg.voters ∧ member.id ≠ primary)
    (hguard : cfg.majority ≤ live.length) :
    ∃ member ∈ live, v.deposed member.id = false ∧ acked <+: v.wal member.id := by
  obtain ⟨standbys, hstandbysNodup, hquorum, hstandbys⟩ := hacked.onStandbys
  have hmeet : ∃ id ∈ standbys, id ∈ live.map Candidate.id := by
    refine exists_mem_of_length_lt (l := cfg.voters.erase primary) hstandbysNodup hnodup ?_ ?_ ?_
    · intro id hid
      obtain ⟨hvoter, hne, -⟩ := hstandbys id hid
      exact (List.mem_erase_of_ne hne).mpr hvoter
    · intro id hid
      obtain ⟨member, hmember, rfl⟩ := List.mem_map.mp hid
      obtain ⟨hvoter, hne⟩ := hlive member hmember
      exact (List.mem_erase_of_ne hne).mpr hvoter
    · rw [List.length_erase_of_mem hprimary, List.length_map]
      rw [Config.majority] at hquorum hguard
      omega
  obtain ⟨id, hid, hmem⟩ := hmeet
  obtain ⟨member, hmember, rfl⟩ := List.mem_map.mp hmem
  obtain ⟨-, -, hstandby, hholds⟩ := hstandbys _ hid
  exact ⟨member, hmember, hstandby, hholds⟩

/-- A standby that is chosen is at least as far as every live standby. -/
theorem holds_of_chosen_standby {history acked : List ρ} {best member : Candidate}
    (hfollows : v.wal best.id <+: history) (hacked : acked <+: history)
    (hbest : v.deposed best.id = false) (hstandby : v.deposed member.id = false)
    (hholds : acked <+: v.wal member.id)
    (hle : (compareCandidates (v.candidate cfg member.id) (v.candidate cfg best.id)).isLE) :
    acked <+: v.wal best.id := by
  have hlsn : (v.wal member.id).length ≤ (v.wal best.id).length := by
    have horder := isLE_compareCandidates_iff.mp hle
    rw [candidate_lsn_of_standby hbest, candidate_lsn_of_standby hstandby] at horder
    omega
  exact List.prefix_of_prefix_length_le hacked hfollows (hholds.length_le.trans hlsn)

/-! ## A tick that replaces a lost primary -/

variable (v) in
/-- A leader tick replaces the primary of `current`, which is not among the live nodes. The
live standbys follow the log of that primary. -/
structure ReplacesPrimary (cfg : Config) (node : Node) (inp : TickInput) (current d : Decision)
    (acked : List ρ) : Prop where
  proposes : (node.report cfg inp).proposal = some d
  decided : (node.sup.prepare cfg inp).decided = some current
  primary_mem : current.primary ∈ cfg.voters
  voters : ∀ member ∈ (node.sup.prepare cfg inp).live cfg inp.leaderNow,
    member.id ∈ cfg.voters ∧ member.id ≠ current.primary
  measured : v.Measured cfg ((node.sup.prepare cfg inp).live cfg inp.leaderNow) inp
  follows : ∀ member ∈ (node.sup.prepare cfg inp).live cfg inp.leaderNow,
    v.deposed member.id = false → v.wal member.id <+: v.wal current.primary
  acknowledged : v.Acknowledged cfg current.primary acked

variable {node : Node} {current d : Decision} {acked : List ρ}

/-- The proposed node is live, and no live node ranks above it. -/
theorem ReplacesPrimary.exists_chosen (htick : v.ReplacesPrimary cfg node inp current d acked) :
    ∃ best ∈ (node.sup.prepare cfg inp).live cfg inp.leaderNow, best.id = d.primary ∧
      ∀ member ∈ (node.sup.prepare cfg inp).live cfg inp.leaderNow,
        (compareCandidates (v.candidate cfg member.id) (v.candidate cfg best.id)).isLE := by
  have hlost : (node.sup.prepare cfg inp).primaryAlive cfg inp.leaderNow = false := by
    rw [Supervisor.primaryAlive, Supervisor.decidedPrimary_of_decided htick.decided,
      Bool.and_eq_false_iff, List.any_eq_false]
    exact Or.inr fun member hmember heq => (htick.voters member hmember).2 (beq_iff_eq.mp heq)
  obtain ⟨best, hbest, hid, hahead⟩ :=
    Supervisor.exists_chosen_of_lost htick.proposes htick.decided hlost
  refine ⟨best, hbest, hid, fun member hmember => ?_⟩
  rw [← probe_eq_candidate htick.measured hmember, ← probe_eq_candidate htick.measured hbest]
  exact hahead member hmember

/-- The proposed node has every acknowledged record exactly when each live deposed node
that lacks one ranks below some live node that has them all. -/
theorem acked_on_proposed_iff (htick : v.ReplacesPrimary cfg node inp current d acked) :
    acked <+: v.wal d.primary ↔
      ∀ member ∈ (node.sup.prepare cfg inp).live cfg inp.leaderNow,
        v.deposed member.id = true → ¬ acked <+: v.wal member.id →
        ∃ other ∈ (node.sup.prepare cfg inp).live cfg inp.leaderNow, acked <+: v.wal other.id ∧
          compareCandidates (v.candidate cfg member.id) (v.candidate cfg other.id) = .lt := by
  obtain ⟨best, hbest, hid, hdominates⟩ := htick.exists_chosen
  rw [← hid]
  constructor
  · intro hholds member hmember _ hlacks
    refine ⟨best, hbest, hholds, compareCandidates_eq_lt (hdominates member hmember) ?_⟩
    intro heq
    exact hlacks ((show member.id = best.id from heq) ▸ hholds)
  · intro hcondition
    cases hdeposed : v.deposed best.id with
    | true =>
        by_contra hlacks
        obtain ⟨other, hother, -, hlt⟩ := hcondition best hbest hdeposed hlacks
        have hle := hdominates other hother
        rw [@Std.OrientedCmp.eq_swap _ compareCandidates, hlt] at hle
        cases hle
    | false =>
        obtain ⟨member, hmember, hstandby, hholds⟩ := exists_live_acknowledging
          htick.acknowledged htick.primary_mem (Supervisor.nodup_live_ids _ _ _) htick.voters
          (Supervisor.proposal_eq_some htick.proposes).2.1
        exact holds_of_chosen_standby (htick.follows best hbest hdeposed)
          htick.acknowledged.onPrimary hdeposed hstandby hholds (hdominates member hmember)

/-! ## A deposed leader -/

/-- Node 1 has come back and leads Raft, deposed by the decision for node 2. -/
def returned : Node :=
  ⟨{ Supervisor.start (some ⟨2, 2⟩) 0 with ticks := 4 }, ⟨true, "", ""⟩⟩

/-- It hears node 3 and not node 2, and has `own` records itself. -/
def returnedTick (own : Nat) : TickInput :=
  { (TickInput.plain 500 [.gossip 3 500 3 true 2] (some ⟨2, 2⟩)).leading with
    localWalLsn := own
    walLsn := own
    peerWalLsn := fun id => if id = 3 then some 3 else none }

/-- Nodes 2 and 3 have the same three records, and node 1 its own ones. -/
def forkedView (own : List Nat) : WalView Nat where
  wal id := if id = 1 then own else [10, 11, 12]
  deposed id := id == 1
  lastReceived _ := 0

theorem replacesPrimary_returned {own : List Nat} {d : Decision}
    (hproposes : (returned.report (Config.threeNodes 1 (by decide))
      (returnedTick own.length)).proposal = some d)
    (hlive : (returned.sup.prepare (Config.threeNodes 1 (by decide))
      (returnedTick own.length)).live (Config.threeNodes 1 (by decide)) 500 =
        [⟨1, own.length, false⟩, ⟨3, 3, true⟩]) :
    (forkedView own).ReplacesPrimary (Config.threeNodes 1 (by decide)) returned
      (returnedTick own.length) ⟨2, 2⟩ d [10, 11, 12] where
  proposes := hproposes
  decided := rfl
  primary_mem := by decide
  voters := by
    rw [show (returnedTick own.length).leaderNow = 500 from rfl, hlive]
    simp [Config.threeNodes]
  measured := by
    rw [show (returnedTick own.length).leaderNow = 500 from rfl, hlive]
    refine ⟨rfl, rfl, ?_, ?_⟩
    · simp [returnedTick, forkedView, receiveLsn, Config.threeNodes]
    · simp [forkedView]
  follows := by
    rw [show (returnedTick own.length).leaderNow = 500 from rfl, hlive]
    simp [forkedView]
  acknowledged := by
    refine ⟨List.prefix_rfl, [3], by decide, by decide, ?_⟩
    simp [forkedView, Config.threeNodes]

/-- With one record too many node 1 proposes itself, and an acknowledged record is lost. -/
theorem acked_lost_by_returned :
    (forkedView [10, 11, 20, 21]).ReplacesPrimary (Config.threeNodes 1 (by decide)) returned
        (returnedTick 4) ⟨2, 2⟩ ⟨3, 1⟩ [10, 11, 12] ∧
      ¬ [10, 11, 12] <+: (forkedView [10, 11, 20, 21]).wal 1 :=
  ⟨replacesPrimary_returned (by decide) (by decide), by decide⟩

/-- With less than the standby has, it proposes the standby. -/
theorem acked_kept_by_returned :
    (forkedView [10, 20]).ReplacesPrimary (Config.threeNodes 1 (by decide)) returned
        (returnedTick 2) ⟨2, 2⟩ ⟨3, 3⟩ [10, 11, 12] ∧
      [10, 11, 12] <+: (forkedView [10, 20]).wal 3 := by
  have hlive : (returned.sup.prepare (Config.threeNodes 1 (by decide)) (returnedTick 2)).live
      (Config.threeNodes 1 (by decide)) 500 = [⟨1, 2, false⟩, ⟨3, 3, true⟩] := by
    decide
  have htick := @replacesPrimary_returned [10, 20] ⟨3, 3⟩ (by decide) hlive
  refine ⟨htick, (acked_on_proposed_iff htick).mpr fun member hmember hdeposed _ => ?_⟩
  change member ∈ (returned.sup.prepare _ (returnedTick 2)).live _ 500 at hmember
  rw [hlive] at hmember
  rcases List.mem_cons.mp hmember with rfl | hstandby
  · refine ⟨⟨3, 3, true⟩, ?_, by decide, by decide⟩
    change _ ∈ (returned.sup.prepare _ (returnedTick 2)).live _ 500
    rw [hlive]
    exact List.mem_cons_of_mem _ List.mem_cons_self
  · rw [List.mem_singleton.mp hstandby] at hdeposed
    cases hdeposed

end WalView

end PgReplica
