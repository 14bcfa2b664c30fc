import PgReplica.Supervisor.Leader

/-! # Maps and threads in the leader block

The position table is a hash map, and the positions measured again come back from
threads. What a leader proposes depends on neither order.
-/

namespace PgReplica

open Foundation

/-- By the larger position, then out of recovery, then the smaller id. -/
def Candidate.Ahead (a b : Candidate) : Prop :=
  b.lsn < a.lsn ∨ b.lsn = a.lsn ∧
    (a.inRecovery = false ∧ b.inRecovery = true ∨ a.inRecovery = b.inRecovery ∧ a.id < b.id)

theorem ahead_of_isLE {best other : Candidate} (hle : (compareCandidates other best).isLE)
    (hne : other.id ≠ best.id) : best.Ahead other := by
  rw [isLE_compareCandidates_iff] at hle
  rw [Candidate.Ahead]
  cases hother : other.inRecovery <;> cases hbest : best.inRecovery <;>
    simp [hother, hbest] at hle ⊢ <;> omega

theorem not_isLE_of_ahead {best other : Candidate} (hahead : best.Ahead other) :
    ¬ (compareCandidates best other).isLE := by
  rw [isLE_compareCandidates_iff]
  rw [Candidate.Ahead] at hahead
  cases hother : other.inRecovery <;> cases hbest : best.inRecovery <;>
    simp [hother, hbest] at hahead ⊢ <;> omega

theorem choosePrimary_perm {first second : List Candidate} (hperm : first.Perm second) :
    choosePrimary first = choosePrimary second := by
  ext id
  rw [choosePrimary_eq_some_iff, choosePrimary_eq_some_iff]
  simp only [hperm.mem_iff]

namespace Supervisor

/-- The same state with another value of the hash map of positions. -/
def withPeersLsn (s : Supervisor) (t : Table Nat PeerEntry) : Supervisor :=
  { s with peers := { s.peers with peersLsn := t } }

variable {s : Supervisor} {cfg : Config} {inp : TickInput} {t : Table Nat PeerEntry}
  {fresh fresh' : List Candidate}

/-! ## Every part of the choice -/

theorem live_perm (hentries : t.entries.Perm s.peers.peersLsn.entries) (now : Nat) :
    ((s.withPeersLsn t).live cfg now).Perm (s.live cfg now) :=
  (hentries.filter _).map _

theorem primaryAlive_withPeersLsn (hentries : t.entries.Perm s.peers.peersLsn.entries) (now : Nat) :
    (s.withPeersLsn t).primaryAlive cfg now = s.primaryAlive cfg now := by
  rw [primaryAlive, (live_perm hentries now).any_eq]
  rfl

theorem needsReconfirm_withPeersLsn (hentries : t.entries.Perm s.peers.peersLsn.entries)
    (now : Nat) : (s.withPeersLsn t).needsReconfirm cfg now = s.needsReconfirm cfg now := by
  rw [needsReconfirm, (live_perm hentries now).any_eq]
  rfl

/-- The smallest id of the live nodes out of recovery. -/
theorem min?_live_eq_some_iff {live : List Candidate} {id : Nat} :
    ((live.filter fun member => !member.inRecovery).map Candidate.id).min? = some id ↔
      (∃ member ∈ live, member.inRecovery = false ∧ member.id = id) ∧
        ∀ member ∈ live, member.inRecovery = false → id ≤ member.id := by
  have hmem : ∀ candidate, candidate ∈ (live.filter fun member => !member.inRecovery).map
      Candidate.id ↔ ∃ member ∈ live, member.inRecovery = false ∧ member.id = candidate := by
    simp [and_assoc]
  rw [List.min?_eq_some_iff, hmem]
  refine and_congr_right fun _ => ⟨fun hleast member hlive hrecovery => ?_, fun hleast => ?_⟩
  · exact hleast _ ((hmem _).mpr ⟨member, hlive, hrecovery, rfl⟩)
  · intro candidate hcandidate
    obtain ⟨member, hlive, hrecovery, rfl⟩ := (hmem candidate).mp hcandidate
    exact hleast member hlive hrecovery

theorem min?_live_perm {first second : List Candidate} (hperm : first.Perm second) :
    ((first.filter fun member => !member.inRecovery).map Candidate.id).min? =
      ((second.filter fun member => !member.inRecovery).map Candidate.id).min? := by
  ext id
  rw [min?_live_eq_some_iff, min?_live_eq_some_iff]
  simp only [hperm.mem_iff]

theorem candidateFrom_withPeersLsn (hentries : t.entries.Perm s.peers.peersLsn.entries)
    (hfresh : fresh.Perm fresh') :
    (s.withPeersLsn t).candidateFrom cfg inp fresh = s.candidateFrom cfg inp fresh' := by
  simp only [candidateFrom]
  rw [min?_live_perm (live_perm hentries inp.leaderNow), choosePrimary_perm hfresh,
    primaryAlive_withPeersLsn hentries, needsReconfirm_withPeersLsn hentries]
  rfl

theorem proposalFrom_withPeersLsn (hentries : t.entries.Perm s.peers.peersLsn.entries)
    (hfresh : fresh.Perm fresh') :
    (s.withPeersLsn t).proposalFrom cfg inp fresh = s.proposalFrom cfg inp fresh' := by
  rw [proposalFrom, candidateFrom_withPeersLsn hentries hfresh,
    (live_perm hentries inp.leaderNow).length_eq]
  rfl

/-! ## The choice -/

theorem candidateFrom_of_proposalFrom {d : Decision}
    (hproposal : s.proposalFrom cfg inp fresh = some d) :
    s.candidateFrom cfg inp fresh = some d.primary := by
  unfold proposalFrom at hproposal
  split at hproposal
  next =>
    obtain ⟨candidate, hcandidate, rfl⟩ := Option.map_eq_some_iff.mp hproposal
    exact hcandidate
  next => cases hproposal

/-- Instead of a lost primary the only node that is ahead of all the others is proposed. -/
theorem exists_ahead_of_proposalFrom {d : Decision}
    (hfresh : fresh.Perm ((s.live cfg inp.leaderNow).map (probe cfg inp)))
    (hproposal : s.proposalFrom cfg inp fresh = some d) (hdecided : s.decided.isSome = true)
    (hlost : s.primaryAlive cfg inp.leaderNow = false) :
    ∃ best ∈ fresh, best.id = d.primary ∧ ∀ other ∈ fresh, other ≠ best → best.Ahead other := by
  have hchosen := candidateFrom_of_proposalFrom hproposal
  simp only [candidateFrom, Option.isNone_eq_false_iff.mpr hdecided, hlost] at hchosen
  obtain ⟨best, hbest, hid, hdominates⟩ := choosePrimary_eq_some_iff.mp hchosen
  have hnodup : (fresh.map Candidate.id).Nodup := by
    rw [(hfresh.map Candidate.id).nodup_iff, List.map_map]
    exact s.nodup_live_ids cfg inp.leaderNow
  refine ⟨best, hbest, hid, fun other hother hne => ahead_of_isLE (hdominates other hother) ?_⟩
  exact fun hsame => hne (List.inj_on_of_nodup_map hnodup hother hbest hsame)

/-- Without a decision the smallest live node out of recovery is proposed. -/
theorem exists_least_of_proposalFrom {d : Decision}
    (hproposal : s.proposalFrom cfg inp fresh = some d) (hdecided : s.decided = none) :
    ∃ member ∈ s.live cfg inp.leaderNow, member.id = d.primary ∧ member.inRecovery = false ∧
      ∀ other ∈ s.live cfg inp.leaderNow, other.inRecovery = false → member.id ≤ other.id := by
  have hchosen := candidateFrom_of_proposalFrom hproposal
  simp only [candidateFrom, hdecided, Option.isNone_none, if_true] at hchosen
  obtain ⟨⟨member, hlive, hrecovery, hid⟩, hleast⟩ := min?_live_eq_some_iff.mp hchosen
  refine ⟨member, hlive, hid, hrecovery, fun other hother hrecovery' => ?_⟩
  rw [hid]
  exact hleast other hother hrecovery'

/-- Whatever the order of the map and of the probe results, a leader tick proposes the same
decision or none: instead of a lost primary the node ahead of all others, and without a
decision the smallest live node out of recovery. -/
theorem proposal_order_free (hentries : t.entries.Perm s.peers.peersLsn.entries)
    (hfresh : fresh.Perm ((s.live cfg inp.leaderNow).map (probe cfg inp)))
    (hfresh' : fresh'.Perm (((s.withPeersLsn t).live cfg inp.leaderNow).map (probe cfg inp))) :
    s.proposalFrom cfg inp fresh = (s.withPeersLsn t).proposalFrom cfg inp fresh' ∧
      ∀ d, s.proposalFrom cfg inp fresh = some d →
        (s.decided.isSome = true → s.primaryAlive cfg inp.leaderNow = false →
          ∃ best ∈ fresh, best.id = d.primary ∧
            ∀ other ∈ fresh, other ≠ best → best.Ahead other) ∧
        (s.decided = none → ∃ member ∈ s.live cfg inp.leaderNow,
          member.id = d.primary ∧ member.inRecovery = false ∧
            ∀ other ∈ s.live cfg inp.leaderNow,
              other.inRecovery = false → member.id ≤ other.id) := by
  refine ⟨?_, fun d hproposal => ⟨?_, ?_⟩⟩
  · have hsame : fresh'.Perm fresh :=
      (hfresh'.trans ((live_perm hentries inp.leaderNow).map _)).trans hfresh.symm
    exact (proposalFrom_withPeersLsn hentries hsame).symm
  · exact exists_ahead_of_proposalFrom hfresh hproposal
  · exact exists_least_of_proposalFrom hproposal

/-- Two standbys, in either order of the map. -/
def twoStandbys (first second : Nat) : Table Nat PeerEntry :=
  (Table.empty.insert first ⟨7, true, 400⟩).insert second ⟨7, true, 400⟩

/-- Standbys 2 and 3 tie at every position, and the smaller id replaces the lost primary. -/
theorem proposal_order_free_two_standbys :
    let cfg := Config.threeNodes 2 (by decide)
    let s := (start (some ⟨1, 1⟩) 0).withPeersLsn (twoStandbys 2 3)
    let inp := { (TickInput.plain 500 [] (some ⟨1, 1⟩)).leading with walLsn := 7 }
    (s.proposalFrom cfg inp [⟨3, 7, true⟩, ⟨2, 7, true⟩] =
        (s.withPeersLsn (twoStandbys 3 2)).proposalFrom cfg inp [⟨2, 7, true⟩, ⟨3, 7, true⟩]) ∧
      s.proposalFrom cfg inp [⟨3, 7, true⟩, ⟨2, 7, true⟩] = some ⟨2, 2⟩ := by
  intro cfg s inp
  have hentries : (twoStandbys 3 2).entries.Perm s.peers.peersLsn.entries := List.Perm.swap ..
  exact ⟨(proposal_order_free hentries (by decide) (by decide)).1, by decide⟩

end Supervisor

end PgReplica
