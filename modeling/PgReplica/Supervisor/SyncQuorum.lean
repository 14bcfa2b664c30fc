import PgReplica.Failover
import PgReplica.Foundation.Counting
import PgReplica.Supervisor.Config

/-! # The quorum that acknowledges and the quorum that elects

A primary that holds its `sync_target` waits for some of the other voters, and a
leader measures a majority of the voters. The two sets meet, so what the one has
acknowledged is known to the other.
-/

namespace PgReplica

open Foundation

/-- The name under which a standby connects. -/
def nodeName (id : Nat) : String :=
  "node" ++ toString id

theorem nodeName_injective : Function.Injective nodeName := by
  intro a b heq
  have hdigits : Nat.toDigits 10 a = Nat.toDigits 10 b := by
    simpa [nodeName, String.ext_iff] using heq
  simpa using congrArg (Nat.ofDigitChars 10 · 0) hdigits

/-! ## `synchronous_standby_names` -/

/-- A commit waits for `quorum` of the named standbys. -/
structure SyncRule where
  quorum : Nat
  names : List String

namespace SyncRule

/-- The text of a rule. Without a rule no standby is waited for. -/
def text : Option SyncRule → String
  | some rule => "ANY " ++ toString rule.quorum ++ " (" ++ ", ".intercalate rule.names ++ ")"
  | none => ""

/-- The standbys that have confirmed are enough. -/
def Satisfied (rule : Option SyncRule) (standbys : List Nat) : Prop :=
  ∀ r, rule = some r →
    r.quorum ≤ (r.names.filter fun name => (standbys.map nodeName).contains name).length

end SyncRule

namespace Config

variable (cfg : Config)

def syncRule : Option SyncRule :=
  if 1 ≤ cfg.syncQuorum then some ⟨cfg.syncQuorum, cfg.syncStandbys.map nodeName⟩ else none

/-- `sync_target` is the text of the rule. -/
theorem syncTarget_eq_text : cfg.syncTarget = SyncRule.text cfg.syncRule := by
  unfold syncTarget syncRule
  split
  next => rfl
  next => rfl

/-- The primary and the voters among the standbys that have confirmed. -/
def acknowledging (standbys : List Nat) : List Nat :=
  cfg.nodeId :: cfg.syncStandbys.filter fun voter => standbys.contains voter

variable {cfg} {standbys : List Nat}

theorem nodup_acknowledging : (cfg.acknowledging standbys).Nodup := by
  refine List.nodup_cons.mpr ⟨fun hmem => ?_, (cfg.voters_nodup.filter _).filter _⟩
  simp [syncStandbys] at hmem

theorem acknowledging_subset_voters : cfg.acknowledging standbys ⊆ cfg.voters := by
  refine List.cons_subset.mpr ⟨cfg.nodeId_mem_voters, fun voter hvoter => ?_⟩
  exact (List.mem_filter.mp (List.mem_filter.mp hvoter).1).1

/-- Those that acknowledge are a majority. -/
theorem majority_le_acknowledging (hsync : SyncRule.Satisfied cfg.syncRule standbys) :
    cfg.majority ≤ (cfg.acknowledging standbys).length := by
  rw [acknowledging, List.length_cons]
  by_cases hquorum : 1 ≤ cfg.syncQuorum
  · have hrule := hsync _ (if_pos hquorum)
    have hnames : (cfg.syncStandbys.map nodeName).filter
        (fun name => (standbys.map nodeName).contains name) =
        (cfg.syncStandbys.filter fun voter => standbys.contains voter).map nodeName := by
      rw [List.filter_map]
      congr 1
      refine List.filter_congr fun voter _ => ?_
      simp [nodeName_injective.eq_iff]
    rw [hnames, List.length_map] at hrule
    exact Nat.le_add_of_sub_le hrule
  · rw [syncQuorum] at hquorum
    omega

/-- Whoever acknowledged and whoever is measured have a node in common, and the node that
is chosen is at least as far as what was acknowledged. -/
theorem quorums_agree {leader : Config} (hvoters : leader.voters = cfg.voters)
    (hsync : SyncRule.Satisfied cfg.syncRule standbys) {live : List Candidate}
    (hnodup : (live.map Candidate.id).Nodup) (hlive : ∀ c ∈ live, c.id ∈ leader.voters)
    (hguard : leader.majority ≤ live.length) :
    cfg.syncTarget = SyncRule.text cfg.syncRule ∧
    (∃ c ∈ live, c.id = cfg.nodeId ∨ c.id ∈ standbys) ∧
    ∀ (position : Nat → Nat) (a : Nat), (∀ c ∈ live, c.lsn = position c.id) →
      (∀ id, id = cfg.nodeId ∨ id ∈ standbys → a ≤ position id) →
      ∃ id, choosePrimary live = some id ∧ id ∈ live.map Candidate.id ∧ a ≤ position id := by
  have hmeet : ∃ id ∈ cfg.acknowledging standbys, id ∈ live.map Candidate.id := by
    refine exists_mem_of_length_lt nodup_acknowledging hnodup acknowledging_subset_voters ?_ ?_
    · intro id hid
      obtain ⟨c, hc, rfl⟩ := List.mem_map.mp hid
      exact hvoters ▸ hlive c hc
    · have hmajority := majority_le_acknowledging hsync
      rw [majority] at hmajority hguard
      rw [hvoters] at hguard
      rw [List.length_map]
      omega
  obtain ⟨id, hacked, hmeasured⟩ := hmeet
  obtain ⟨shared, hshared, rfl⟩ := List.mem_map.mp hmeasured
  have hholds : shared.id = cfg.nodeId ∨ shared.id ∈ standbys := by
    rcases List.mem_cons.mp hacked with heq | hstandby
    · exact Or.inl heq
    · exact Or.inr (by simpa using (List.mem_filter.mp hstandby).2)
  refine ⟨cfg.syncTarget_eq_text, ⟨shared, hshared, hholds⟩, fun position a htrue hfar => ?_⟩
  obtain ⟨best, -, hchosen⟩ := exists_choosePrimary (List.ne_nil_of_mem hshared)
  obtain ⟨chosen, hmem, heq, hdominates⟩ := exists_of_choosePrimary hchosen
  refine ⟨best.id, hchosen, heq ▸ List.mem_map_of_mem hmem, ?_⟩
  calc a ≤ position shared.id := hfar _ hholds
    _ = shared.lsn := (htrue shared hshared).symm
    _ ≤ chosen.lsn := hdominates shared hshared
    _ = position best.id := by rw [htrue chosen hmem, heq]

/-- The primary 1 of three has an acknowledgement of node 2, and node 3 leads without it. -/
theorem quorums_agree_three_nodes :
    choosePrimary [⟨3, 4, true⟩, ⟨2, 7, true⟩] = some 2 ∧
      ∃ id, choosePrimary [⟨3, 4, true⟩, ⟨2, 7, true⟩] = some id ∧ 7 ≤ if id = 3 then 4 else 7 := by
  have hsync : SyncRule.Satisfied (threeNodes 1 (by decide)).syncRule [2] := by
    rintro _ ⟨⟩
    decide
  obtain ⟨-, -, hchosen⟩ := @quorums_agree (threeNodes 1 (by decide)) [2] (threeNodes 3 (by decide))
    rfl hsync [⟨3, 4, true⟩, ⟨2, 7, true⟩] (by decide) (by decide) (by decide)
  obtain ⟨id, hid, -, hfar⟩ := hchosen (fun id => if id = 3 then 4 else 7) 7 (by decide) (by
    rintro id (rfl | hstandby)
    · exact (if_neg (by decide)).ge
    · rw [List.mem_singleton.mp hstandby]
      decide)
  exact ⟨by decide, id, hid, hfar⟩

end Config

end PgReplica
