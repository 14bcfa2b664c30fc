import PgReplica.ConsensusModel.LeadershipSafety

/-! # How many stale leaders a cluster can have

The checker looks for a writable leader of an old term, the situation that fencing is
there for. Every stale leader was left out by all later elections, and has a term of its
own.
-/

namespace PgReplica.ConsensusModel.Leadership

open PgReplica.Foundation

variable {l : Leadership} {s t : LState l.n}

/-- The alive nodes that are writable at an old term. -/
def staleLeaders {n : Nat} (s : LState n) : Finset (Fin n) :=
  Finset.univ.filter fun i =>
    s.alive i = true ∧ s.writable i = true ∧ s.curTerm i < s.maxCurTerm

theorem mem_staleLeaders {n : Nat} {s : LState n} {i : Fin n} : i ∈ staleLeaders s ↔
    s.alive i = true ∧ s.writable i = true ∧ s.curTerm i < s.maxCurTerm := by
  simp [staleLeaders]

/-! ## No more than elections leave out -/

/-- Every term after the first has been taken by a majority. -/
structure Settled (l : Leadership) (s : LState l.n) : Prop where
  started : ∀ i, 1 ≤ s.curTerm i
  elected : s.maxCurTerm ≤ 1 ∨
    s.maxCurTerm ≤ l.maxTerm ∧ l.majority ≤ (reached s s.maxCurTerm).card

theorem curTerm_of_voter {winner i : Fin l.n} {voters : Nat}
    (hstep : l.Step s (.elect winner voters) t) (hvotes : i ∈ maskMembers l.n voters) :
    t.curTerm i = s.maxCurTerm + 1 := by
  obtain ⟨-, rfl⟩ := step_elect_iff.mp hstep
  exact if_pos hvotes

theorem maxCurTerm_step_of_elect {winner : Fin l.n} {voters : Nat}
    (hstep : l.Step s (.elect winner voters) t) : t.maxCurTerm = s.maxCurTerm + 1 := by
  have helected := (step_elect_iff.mp hstep).1
  refine le_antisymm (maxCurTerm_le fun i => ?_) ?_
  · obtain ⟨-, rfl⟩ := step_elect_iff.mp hstep
    change (if _ then _ else _) ≤ _
    split
    · exact le_rfl
    · exact (curTerm_le_maxCurTerm s i).trans (Nat.le_succ _)
  · rw [← curTerm_of_voter hstep helected.winner]
    exact curTerm_le_maxCurTerm t winner

theorem Settled.step (hsettled : l.Settled s) {a : LAction l.n} (hstep : l.Step s a t) :
    l.Settled t := by
  refine ⟨fun i => (hsettled.started i).trans (curTerm_le_step hstep i), ?_⟩
  by_cases helect : ∃ winner voters, a = .elect winner voters
  · obtain ⟨winner, voters, rfl⟩ := helect
    have helected := (step_elect_iff.mp hstep).1
    rw [maxCurTerm_step_of_elect hstep]
    refine Or.inr ⟨helected.term, ?_⟩
    rw [← helected.majority, ← List.toFinset_card_of_nodup (nodup_maskMembers voters)]
    refine Finset.card_le_card fun i hi => mem_reached.mpr ?_
    exact (curTerm_of_voter hstep (List.mem_toFinset.mp hi)).ge
  · rw [maxCurTerm_step_of_not_elect hstep helect]
    refine hsettled.elected.imp_right fun ⟨hterm, hmajority⟩ => ⟨hterm, hmajority.trans ?_⟩
    exact Finset.card_le_card (reached_subset_of_run (.single hstep))

theorem settled_of_reachable (hreach : l.Reachable s) : l.Settled s := by
  refine hreach.invariant (I := l.Settled) ?_ fun _ _ _ hsettled hstep => hsettled.step hstep
  rintro _ rfl
  exact ⟨fun _ => le_rfl, Or.inl (maxCurTerm_le fun _ => le_rfl)⟩

/-- Stale leaders are outside the latest majority, and each has a term of its own. -/
theorem card_staleLeaders_le (hreach : l.Reachable s) (hstale : (staleLeaders s).Nonempty) :
    (staleLeaders s).card + l.majority ≤ l.n ∧ (staleLeaders s).card < l.maxTerm := by
  have hsettled := settled_of_reachable hreach
  have hunique := writableUnique_of_reachable hreach
  obtain ⟨i, hi⟩ := hstale
  have hlater : 1 < s.maxCurTerm :=
    (hsettled.started i).trans_lt (mem_staleLeaders.mp hi).2.2
  obtain ⟨hterm, hmajority⟩ := hsettled.elected.resolve_left (by omega)
  constructor
  · have hdisjoint : Disjoint (staleLeaders s) (reached s s.maxCurTerm) := by
      rw [Finset.disjoint_left]
      intro j hj hreached
      exact absurd (mem_reached.mp hreached) (mem_staleLeaders.mp hj).2.2.not_ge
    refine (Nat.add_le_add_left hmajority _).trans ?_
    rw [← Finset.card_union_of_disjoint hdisjoint]
    exact (Finset.card_le_univ _).trans_eq (Fintype.card_fin _)
  · have hterms : (staleLeaders s).card ≤ (Finset.Ico 1 s.maxCurTerm).card := by
      refine Finset.card_le_card_of_injOn s.curTerm (fun j hj => ?_) fun j hj k hk heq => ?_
      · have hold := (mem_staleLeaders.mp hj).2.2
        exact Finset.mem_coe.mpr (Finset.mem_Ico.mpr ⟨hsettled.started j, hold⟩)
      · exact hunique j k (mem_staleLeaders.mp hj).2.1 (mem_staleLeaders.mp hk).2.1 heq
    rw [Nat.card_Ico] at hterms
    omega

/-! ## As many as elections can leave out -/

/-- Node 0 has led at the first term, and each of the next `k` nodes has been elected
without the nodes before it. -/
def succession (l : Leadership) (k : Nat) : LState l.n where
  curTerm := fun i => if i.val < k + l.majority then min i.val k + 1 else 1
  writable := fun i => decide (i.val ≤ k)
  alive := fun _ => true
  maxCommittedTerm := 0
  committedLeader := none
  splitBrain := false

theorem succession_zero (l : Leadership) : l.succession 0 = l.initState := by
  simp only [succession, initState, LState.mk.injEq, and_true]
  constructor
  · funext i
    simp
  · funext i
    by_cases heq : i = ⟨0, l.n_pos⟩
    · simp [heq]
    · have hne : i.val ≠ 0 := fun h => heq (Fin.ext h)
      simp [Function.update_of_ne heq, hne]

theorem maxCurTerm_succession {k : Nat} (hmajority : k + l.majority ≤ l.n) :
    (l.succession k).maxCurTerm = k + 1 := by
  have hpos : 1 ≤ l.majority := Nat.succ_pos _
  refine le_antisymm (maxCurTerm_le fun i => ?_) ?_
  · simp only [succession]
    split <;> omega
  · have hlast : (l.succession k).curTerm ⟨k, by omega⟩ = k + 1 := by
      simp only [succession]
      rw [if_pos (by omega), min_self]
    rw [← hlast]
    exact curTerm_le_maxCurTerm _ _

theorem reachable_succession {k : Nat} (hmajority : k + l.majority ≤ l.n)
    (hterm : k = 0 ∨ k < l.maxTerm) : l.Reachable (l.succession k) := by
  have hpos : 1 ≤ l.majority := Nat.succ_pos _
  induction k with
  | zero =>
      rw [succession_zero]
      exact l.reachable_initState
  | succ k ih =>
      let winner : Fin l.n := ⟨k + 1, by omega⟩
      let voters := maskOf (window l.n (k + 1) l.majority)
      have hwinner : winner ∈ window l.n (k + 1) l.majority := by
        simp only [mem_window, winner]
        omega
      have hmax : (l.succession k).maxCurTerm = k + 1 := maxCurTerm_succession (by omega)
      have helect : l.Step (l.succession k) (.elect winner voters) (l.succession (k + 1)) := by
        refine step_elect_iff.mpr
          ⟨⟨⟨maskOf_pos ⟨winner, hwinner⟩, maskOf_lt _⟩, ?_, ?_, fun _ _ => rfl, ?_⟩, ?_⟩
        · omega
        · rw [length_maskMembers_maskOf, card_window (by omega)]
        · exact mem_maskMembers_maskOf.mpr hwinner
        · simp only [hmax, voters, mem_maskMembers_maskOf, mem_window]
          simp only [succession, LState.mk.injEq, and_true]
          constructor
          · funext i
            split_ifs <;> omega
          · funext i
            split
            · simp only [winner, Fin.ext_iff]
              exact decide_eq_decide.mpr (by omega)
            · exact decide_eq_decide.mpr (by omega)
      exact (ih (by omega) (by omega)).tail helect

theorem le_card_staleLeaders_succession {k : Nat} (hmajority : k + l.majority ≤ l.n) :
    k ≤ (staleLeaders (l.succession k)).card := by
  calc k = (window l.n 0 k).card := (card_window (by omega)).symm
    _ ≤ _ := by
      refine Finset.card_le_card fun i hi => mem_staleLeaders.mpr ⟨rfl, ?_, ?_⟩
      · rw [mem_window] at hi
        exact decide_eq_true (by omega)
      · rw [mem_window] at hi
        rw [maxCurTerm_succession hmajority]
        simp only [succession]
        rw [if_pos (by omega)]
        omega

/-- With fencing or without it, `k` stale leaders can be writable at the same time exactly
when an election can leave out `k` nodes and there are as many later terms. -/
theorem staleLeaders_iff (l : Leadership) (k : Nat) :
    (∃ s, l.Reachable s ∧ k ≤ (staleLeaders s).card) ↔
      k = 0 ∨ k + (l.n / 2 + 1) ≤ l.n ∧ k < l.maxTerm := by
  constructor
  · rintro ⟨s, hreach, hcard⟩
    by_cases hzero : k = 0
    · exact Or.inl hzero
    · have hstale := card_staleLeaders_le hreach (Finset.card_pos.mp (by omega))
      rw [majority] at hstale
      exact Or.inr ⟨by omega, by omega⟩
  · rintro (rfl | ⟨hmajority, hterm⟩)
    · exact ⟨_, l.reachable_initState, Nat.zero_le _⟩
    · exact ⟨_, reachable_succession hmajority (Or.inr hterm),
        le_card_staleLeaders_succession hmajority⟩

end PgReplica.ConsensusModel.Leadership
