import PgReplica.Supervisor.Gossip

/-! # What a leader proposes

The three branches of the leader block, and the entries of the position table
that they look at.
-/

namespace PgReplica

open Foundation

namespace PeerTable

variable {p : PeerTable}

theorem hear_peersLsn_of_none {m : Received} (hdecode : decodeGossip m.payload = none) :
    (p.hear m).peersLsn = p.peersLsn := by
  simp [hear, hdecode]

theorem hear_peersLsn_of_some {m : Received} {gossip : Gossip}
    (hdecode : decodeGossip m.payload = some gossip) : (p.hear m).peersLsn =
      p.peersLsn.insert m.sender ⟨gossip.lsn, gossip.inRecovery, m.storedAt⟩ := by
  simp [hear, hdecode]

/-- A node's entry was stored at `since` or later. -/
def Seen (p : PeerTable) (id since : Nat) : Prop :=
  ∃ entry, p.peersLsn.lookup id = some entry ∧ since ≤ entry.seen

variable {id since : Nat}

theorem Seen.hear (hseen : p.Seen id since) {m : Received} (hstored : since ≤ m.storedAt) :
    (p.hear m).Seen id since := by
  obtain ⟨entry, hlookup, hsince⟩ := hseen
  cases hdecode : decodeGossip m.payload with
  | none => exact ⟨entry, by rwa [hear_peersLsn_of_none hdecode], hsince⟩
  | some gossip =>
      rw [Seen, hear_peersLsn_of_some hdecode]
      by_cases heq : id = m.sender
      · exact ⟨_, by rw [heq, Table.lookup_insert_self], hstored⟩
      · exact ⟨entry, by rwa [Table.lookup_insert_of_ne heq], hsince⟩

theorem seen_hear {m : Received} {gossip : Gossip} (hdecode : decodeGossip m.payload = some gossip)
    (hstored : since ≤ m.storedAt) : (p.hear m).Seen m.sender since := by
  rw [Seen, hear_peersLsn_of_some hdecode]
  exact ⟨_, Table.lookup_insert_self .., hstored⟩

/-- A node that was seen, or whose gossip is drained, has been seen after the drain. -/
theorem seen_drain {received : List Received} (hstored : ∀ m ∈ received, since ≤ m.storedAt)
    (hseen : p.Seen id since ∨
      ∃ m ∈ received, m.sender = id ∧ ∃ gossip, decodeGossip m.payload = some gossip) :
    (p.drain received).Seen id since := by
  induction received generalizing p with
  | nil => simpa using hseen
  | cons m rest ih =>
      have hm := hstored m List.mem_cons_self
      refine ih (fun m' hm' => hstored m' (List.mem_cons_of_mem m hm')) ?_
      rcases hseen with hold | ⟨m', hm', hsender, gossip, hdecode⟩
      · exact Or.inl (hold.hear hm)
      · rcases List.mem_cons.mp hm' with rfl | hrest
        · exact Or.inl (hsender ▸ seen_hear hdecode hm)
        · exact Or.inr ⟨m', hrest, hsender, gossip, hdecode⟩

/-- After messages that were stored in order every sender has been seen at each of its own. -/
theorem seen_drain_of_sorted {received : List Received}
    (hsorted : received.Pairwise fun first second => first.storedAt ≤ second.storedAt)
    {m : Received} (hm : m ∈ received) {gossip : Gossip}
    (hdecode : decodeGossip m.payload = some gossip) :
    (p.drain received).Seen m.sender m.storedAt := by
  induction received generalizing p with
  | nil => cases hm
  | cons first rest ih =>
      obtain ⟨hfirst, hrest⟩ := List.pairwise_cons.mp hsorted
      rcases List.mem_cons.mp hm with rfl | hmem
      · rw [drain_cons]
        exact seen_drain hfirst (Or.inl (seen_hear hdecode le_rfl))
      · exact ih hrest hmem

end PeerTable

namespace Supervisor

variable {s : Supervisor} {cfg : Config} {inp : TickInput}

/-! ## The position table at the leader block -/

theorem prepare_peersLsn : (s.prepare cfg inp).peers.peersLsn =
    if (s.ticks + 1) % gossipEvery = 0 then
      (s.peers.drain inp.received).peersLsn.insert cfg.nodeId
        ⟨inp.localWalLsn, inp.inRecovery, inp.storedAt⟩
    else (s.peers.drain inp.received).peersLsn := rfl

/-- What holds of the old entries, of the drained ones and of the node's own holds
of the entries the leader looks at. -/
theorem prepare_peersLsn_invariant {I : Nat → PeerEntry → Prop}
    (hold : ∀ id entry, s.peers.peersLsn.lookup id = some entry → I id entry)
    (hdrained : ∀ m ∈ inp.received, ∀ gossip, decodeGossip m.payload = some gossip →
      I m.sender ⟨gossip.lsn, gossip.inRecovery, m.storedAt⟩)
    (hown : I cfg.nodeId ⟨inp.localWalLsn, inp.inRecovery, inp.storedAt⟩) :
    ∀ id entry, (s.prepare cfg inp).peers.peersLsn.lookup id = some entry → I id entry := by
  have hdrain : ∀ id entry,
      (s.peers.drain inp.received).peersLsn.lookup id = some entry → I id entry := by
    refine PeerTable.drain_invariant
      (I := fun p => ∀ id entry, p.peersLsn.lookup id = some entry → I id entry) ?_ hold
    intro p m hm hp id entry hlookup
    cases hdecode : decodeGossip m.payload with
    | none =>
        rw [PeerTable.hear_peersLsn_of_none hdecode] at hlookup
        exact hp id entry hlookup
    | some gossip =>
        rw [PeerTable.hear_peersLsn_of_some hdecode, Table.lookup_insert] at hlookup
        split at hlookup
        next heq =>
          rw [heq, ← Option.some.inj hlookup]
          exact hdrained m hm gossip hdecode
        next => exact hp id entry hlookup
  intro id entry hlookup
  rw [prepare_peersLsn] at hlookup
  split at hlookup
  next =>
    rw [Table.lookup_insert] at hlookup
    split at hlookup
    next heq =>
      rw [heq, ← Option.some.inj hlookup]
      exact hown
    next => exact hdrain id entry hlookup
  next => exact hdrain id entry hlookup

/-- Seen after the drain is seen by the leader block. -/
theorem prepare_seen_of_drain {id since : Nat} (hown : since ≤ inp.storedAt)
    (hseen : (s.peers.drain inp.received).Seen id since) :
    (s.prepare cfg inp).peers.Seen id since := by
  obtain ⟨entry, hlookup, hsince⟩ := hseen
  rw [PeerTable.Seen, prepare_peersLsn]
  split
  next =>
    by_cases heq : id = cfg.nodeId
    · exact ⟨_, by rw [heq, Table.lookup_insert_self], hown⟩
    · exact ⟨entry, by rwa [Table.lookup_insert_of_ne heq], hsince⟩
  next => exact ⟨entry, hlookup, hsince⟩

/-- Seen before the tick or heard in it is seen by its leader block. -/
theorem prepare_seen {id since : Nat} (hstored : ∀ m ∈ inp.received, since ≤ m.storedAt)
    (hown : since ≤ inp.storedAt) (hseen : s.peers.Seen id since ∨
      ∃ m ∈ inp.received, m.sender = id ∧ ∃ gossip, decodeGossip m.payload = some gossip) :
    (s.prepare cfg inp).peers.Seen id since :=
  prepare_seen_of_drain hown (PeerTable.seen_drain hstored hseen)

/-- A tick that broadcasts stores the node's own entry. -/
theorem prepare_seen_self (hbroadcast : (s.ticks + 1) % gossipEvery = 0) :
    (s.prepare cfg inp).peers.Seen cfg.nodeId inp.storedAt := by
  rw [PeerTable.Seen, prepare_peersLsn, if_pos hbroadcast]
  exact ⟨_, Table.lookup_insert_self .., le_rfl⟩

theorem mem_live {now : Nat} {member : Candidate} : member ∈ s.live cfg now ↔
    ∃ seen, s.peers.peersLsn.lookup member.id = some ⟨member.lsn, member.inRecovery, seen⟩ ∧
      (member.id = cfg.nodeId ∨ now - seen < deadTimeout) := by
  simp only [live, List.mem_map, List.mem_filter, Bool.or_eq_true, beq_iff_eq,
    decide_eq_true_eq, Prod.exists, Table.mem_entries_iff]
  constructor
  · rintro ⟨id, ⟨lsn, inRecovery, seen⟩, ⟨hlookup, hlive⟩, rfl⟩
    exact ⟨seen, hlookup, hlive⟩
  · rintro ⟨seen, hlookup, hlive⟩
    exact ⟨member.id, _, ⟨hlookup, hlive⟩, rfl⟩

/-- A primary that was seen within `dead_timeout` is alive. -/
theorem primaryAlive_of_seen {now since : Nat} {d : Decision} (hdecided : s.decided = some d)
    (hprimary : d.primary ≠ 0) (hseen : s.peers.Seen d.primary since)
    (hrecent : now < since + deadTimeout) : s.primaryAlive cfg now = true := by
  obtain ⟨entry, hlookup, hsince⟩ := hseen
  have hpos : 0 < deadTimeout := by decide
  have hlive : ⟨d.primary, entry.lsn, entry.inRecovery⟩ ∈ s.live cfg now :=
    mem_live.mpr ⟨entry.seen, hlookup, Or.inr (by omega)⟩
  simp only [primaryAlive, decidedPrimary_of_decided hdecided, Bool.and_eq_true, bne_iff_ne,
    List.any_eq_true, beq_iff_eq]
  exact ⟨hprimary, _, hlive, rfl⟩

theorem nodup_live_ids (s : Supervisor) (cfg : Config) (now : Nat) :
    ((s.live cfg now).map Candidate.id).Nodup := by
  rw [live, List.map_map]
  exact s.peers.peersLsn.nodup_filter_keys _

/-- Only a leader that has lost the decided primary measures the live nodes. -/
def measuresLive (s : Supervisor) (cfg : Config) (inp : TickInput) : Bool :=
  inp.isLeader && s.decided.isSome && !s.primaryAlive cfg inp.leaderNow

/-! ## The three branches -/

/-- Where a proposal comes from. -/
inductive ProposedBy (s : Supervisor) (cfg : Config) (inp : TickInput) (primary : Nat) : Prop
  | bootstrap (hdecided : s.decided = none) (member : Candidate)
      (hlive : member ∈ s.live cfg inp.leaderNow) (hrecovery : member.inRecovery = false)
      (hid : member.id = primary)
  | failover (hdecided : s.decided.isSome = true)
      (hlost : s.primaryAlive cfg inp.leaderNow = false)
      (hchosen : choosePrimary ((s.live cfg inp.leaderNow).map (probe cfg inp)) = some primary)
  | ratify (halive : s.primaryAlive cfg inp.leaderNow = true)
      (hasked : s.needsReconfirm cfg inp.leaderNow = true) (hheld : s.decidedPrimary = primary)

theorem proposedBy_of_candidate {primary : Nat}
    (hcandidate : s.proposalCandidate cfg inp = some primary) : s.ProposedBy cfg inp primary := by
  rw [proposalCandidate_eq] at hcandidate
  split at hcandidate
  next hnone =>
    have hmem := List.min?_mem hcandidate
    obtain ⟨member, hmember, hid⟩ := List.mem_map.mp hmem
    obtain ⟨hlive, hrecovery⟩ := List.mem_filter.mp hmember
    exact .bootstrap (Option.isNone_iff_eq_none.mp hnone) member hlive (by simpa using hrecovery)
      hid
  next hsome =>
    split at hcandidate
    next hlost =>
      have hdecided := Option.isNone_eq_false_iff.mp ((Bool.not_eq_true _).mp hsome)
      exact .failover hdecided (by simpa using hlost) hcandidate
    next halive =>
      split at hcandidate
      next hasked =>
        exact .ratify (by simpa using halive) hasked (Option.some.inj hcandidate)
      next => cases hcandidate

theorem proposal_eq_some {d : Decision} (hproposal : s.proposal cfg inp = some d) :
    inp.isLeader = true ∧ cfg.majority ≤ (s.live cfg inp.leaderNow).length ∧
      s.ProposedBy cfg inp d.primary := by
  rw [proposal_eq] at hproposal
  split at hproposal
  next hguard =>
    obtain ⟨candidate, hcandidate, rfl⟩ := Option.map_eq_some_iff.mp hproposal
    exact ⟨hguard.1, hguard.2.1, proposedBy_of_candidate hcandidate⟩
  next => cases hproposal

/-- A leader with a majority among the live nodes and nothing in flight, whose primary is
lost, proposes a live node. -/
theorem exists_proposal_of_lost (hleader : inp.isLeader = true)
    (hmajority : cfg.majority ≤ (s.live cfg inp.leaderNow).length)
    (hflight : s.inFlight (s.decidedSeq + 1) = false) (hdecided : s.decided.isSome = true)
    (hlost : s.primaryAlive cfg inp.leaderNow = false) :
    ∃ d, s.proposal cfg inp = some d ∧
      ∃ member ∈ s.live cfg inp.leaderNow, member.id = d.primary := by
  have hne : (s.live cfg inp.leaderNow).map (probe cfg inp) ≠ [] := by
    have hpos : 0 < cfg.majority := Nat.succ_pos _
    intro hnil
    rw [List.map_eq_nil_iff.mp hnil, List.length_nil] at hmajority
    omega
  obtain ⟨best, hbest, hchosen⟩ := exists_choosePrimary hne
  obtain ⟨member, hmember, rfl⟩ := List.mem_map.mp hbest
  have hcandidate : s.proposalCandidate cfg inp = some member.id := by
    simp [proposalCandidate_eq, measured, Option.isNone_eq_false_iff.mpr hdecided, hlost, hchosen,
      probe]
  refine ⟨⟨s.decidedSeq + 1, member.id⟩, ?_, member, hmember, rfl⟩
  rw [proposal_eq, if_pos ⟨hleader, hmajority, by simp [hflight]⟩, hcandidate]
  rfl

/-- Instead of a lost primary a live node is proposed that no live node is ranked above. -/
theorem exists_chosen_of_lost {current d : Decision} (hproposal : s.proposal cfg inp = some d)
    (hdecided : s.decided = some current) (hlost : s.primaryAlive cfg inp.leaderNow = false) :
    ∃ best ∈ s.live cfg inp.leaderNow, best.id = d.primary ∧
      ∀ member ∈ s.live cfg inp.leaderNow,
        (compareCandidates (probe cfg inp member) (probe cfg inp best)).isLE := by
  cases (proposal_eq_some hproposal).2.2 with
  | bootstrap hnone => cases hnone.symm.trans hdecided
  | ratify halive => cases hlost.symm.trans halive
  | failover _ _ hchosen =>
      obtain ⟨best, hbest, hid, hahead⟩ := exists_dominating_of_choosePrimary hchosen
      obtain ⟨member, hmember, rfl⟩ := List.mem_map.mp hbest
      exact ⟨member, hmember, hid, fun other hother => hahead _ (List.mem_map_of_mem hother)⟩

theorem not_inFlight_of_proposal {d : Decision} (hproposal : s.proposal cfg inp = some d) :
    s.inFlight (s.decidedSeq + 1) = false := by
  rw [proposal_eq] at hproposal
  split at hproposal
  next hguard => simpa using hguard.2.2
  next => cases hproposal

/-- While its primary is alive a leader proposes nobody else. -/
theorem proposal_primary_of_alive {d decision : Decision} (hdecided : s.decided = some d)
    (halive : s.primaryAlive cfg inp.leaderNow = true)
    (hproposal : s.proposal cfg inp = some decision) : decision.primary = d.primary := by
  cases (proposal_eq_some hproposal).2.2 with
  | bootstrap hnone =>
      rw [hnone] at hdecided
      cases hdecided
  | failover _ hlost =>
      rw [hlost] at halive
      cases halive
  | ratify _ _ hheld => rw [← hheld, decidedPrimary_of_decided hdecided]

theorem probe_lsn_of_self {candidate : Candidate} (hid : candidate.id = cfg.nodeId) :
    (probe cfg inp candidate).lsn = inp.walLsn :=
  if_pos hid

theorem probe_lsn_of_peer {candidate : Candidate} {lsn : Nat} (hid : candidate.id ≠ cfg.nodeId)
    (hmember : candidate.id ∈ cfg.pgMembers.map Peer.id)
    (hprobe : inp.peerWalLsn candidate.id = some lsn) : (probe cfg inp candidate).lsn = lsn := by
  simp [probe, hid, cfg.findMember_isSome_iff.mpr hmember, hprobe]

end Supervisor

end PgReplica
