import PgReplica.ConsensusModel.Leadership
import PgReplica.Foundation.Counting

/-! # Fencing and split brain in the leadership model

With fencing on, commits happen in the order of their terms and a term has one
committing leader. Without it a conflicting commit needs exactly a leader that
an election can leave out, and a second term.
-/

namespace PgReplica.ConsensusModel.Leadership

open PgReplica.Foundation

variable {l : Leadership} {s t : LState l.n}

/-! ## One writable node a term -/

/-- No term has two writable nodes. -/
def WritableUnique {n : Nat} (s : LState n) : Prop :=
  ∀ i j, s.writable i = true → s.writable j = true → s.curTerm i = s.curTerm j → i = j

@[simp] theorem recordCommit_writable {n : Nat} (s : LState n) (w : Fin n) (term : Nat) :
    (recordCommit s w term).writable = s.writable := by
  unfold recordCommit
  split
  · rfl
  · split <;> rfl

@[simp] theorem recordCommit_curTerm {n : Nat} (s : LState n) (w : Fin n) (term : Nat) :
    (recordCommit s w term).curTerm = s.curTerm := by
  unfold recordCommit
  split
  · rfl
  · split <;> rfl

/-- Terms only grow. -/
theorem curTerm_le_step {a : LAction l.n} (hstep : l.Step s a t) (i : Fin l.n) :
    s.curTerm i ≤ t.curTerm i := by
  cases a with
  | elect winner voters =>
      obtain ⟨-, rfl⟩ := step_elect_iff.mp hstep
      change _ ≤ if _ then _ else _
      split
      · exact (curTerm_le_maxCurTerm s i).trans (Nat.le_succ _)
      · exact le_rfl
  | commit w =>
      obtain ⟨-, -, -, rfl⟩ := step_commit_iff.mp hstep
      rw [recordCommit_curTerm]
  | crash j =>
      obtain ⟨-, rfl⟩ := step_crash_iff.mp hstep
      exact le_rfl
  | recover j =>
      obtain ⟨-, rfl⟩ := step_recover_iff.mp hstep
      exact le_rfl

theorem maxCurTerm_le_step {a : LAction l.n} (hstep : l.Step s a t) :
    s.maxCurTerm ≤ t.maxCurTerm :=
  maxCurTerm_le fun i => (curTerm_le_step hstep i).trans (curTerm_le_maxCurTerm t i)

/-- A node that is writable at a term that existed before the step was already
writable at it: an election makes its winner writable at a new term only. -/
theorem writable_of_step {a : LAction l.n} (hstep : l.Step s a t) {i : Fin l.n}
    (hwritable : t.writable i = true) (hterm : t.curTerm i ≤ s.maxCurTerm) :
    s.writable i = true ∧ s.curTerm i = t.curTerm i := by
  cases a with
  | elect winner voters =>
      obtain ⟨-, rfl⟩ := step_elect_iff.mp hstep
      by_cases hvoter : i ∈ maskMembers l.n voters
      · simp only [if_pos hvoter] at hterm
        omega
      · simpa only [if_neg hvoter, and_true] using hwritable
  | commit w =>
      obtain ⟨-, -, -, rfl⟩ := step_commit_iff.mp hstep
      rw [recordCommit_writable] at hwritable
      exact ⟨hwritable, by rw [recordCommit_curTerm]⟩
  | crash j =>
      obtain ⟨-, rfl⟩ := step_crash_iff.mp hstep
      exact ⟨hwritable, rfl⟩
  | recover j =>
      obtain ⟨-, rfl⟩ := step_recover_iff.mp hstep
      exact ⟨hwritable, rfl⟩

/-- A node that is writable above every earlier term won the election. -/
theorem eq_winner_of_step {winner : Fin l.n} {voters : Nat}
    (hstep : l.Step s (.elect winner voters) t) {i : Fin l.n} (hwritable : t.writable i = true)
    (hterm : s.maxCurTerm < t.curTerm i) : i = winner := by
  obtain ⟨-, rfl⟩ := step_elect_iff.mp hstep
  by_cases hvoter : i ∈ maskMembers l.n voters
  · simpa only [if_pos hvoter, decide_eq_true_eq] using hwritable
  · simp only [if_neg hvoter] at hterm
    exact absurd (curTerm_le_maxCurTerm s i) (not_le.mpr hterm)

/-- Only elections create a term. -/
theorem maxCurTerm_step_of_not_elect {a : LAction l.n} (hstep : l.Step s a t)
    (helect : ¬ ∃ winner voters, a = .elect winner voters) : t.maxCurTerm = s.maxCurTerm := by
  cases a with
  | elect winner voters => exact absurd ⟨winner, voters, rfl⟩ helect
  | commit w =>
      obtain ⟨-, -, -, rfl⟩ := step_commit_iff.mp hstep
      rw [LState.maxCurTerm, recordCommit_curTerm, LState.maxCurTerm]
  | crash j =>
      obtain ⟨-, rfl⟩ := step_crash_iff.mp hstep
      rfl
  | recover j =>
      obtain ⟨-, rfl⟩ := step_recover_iff.mp hstep
      rfl

theorem writableUnique_step {a : LAction l.n} (hunique : WritableUnique s)
    (hstep : l.Step s a t) : WritableUnique t := by
  intro i j hi hj hterm
  by_cases hold : t.curTerm i ≤ s.maxCurTerm
  · -- an old term: both were writable at it before the step
    have hwasI := writable_of_step hstep hi hold
    have hwasJ := writable_of_step hstep hj (hterm ▸ hold)
    exact hunique i j hwasI.1 hwasJ.1 (by omega)
  · by_cases helect : ∃ winner voters, a = .elect winner voters
    · obtain ⟨winner, voters, rfl⟩ := helect
      rw [eq_winner_of_step hstep hi (by omega), eq_winner_of_step hstep hj (by omega)]
    · have hmax := maxCurTerm_step_of_not_elect hstep helect
      exact absurd (hmax ▸ curTerm_le_maxCurTerm t i) hold

theorem writableUnique_of_reachable (hreach : l.Reachable s) : WritableUnique s := by
  refine hreach.invariant (I := WritableUnique) ?_
    fun _ _ _ hunique hstep => writableUnique_step hunique hstep
  rintro _ rfl i j hi hj -
  have hzero : ∀ k : Fin l.n, l.initState.writable k = true → k = ⟨0, l.n_pos⟩ := by
    intro k hk
    by_contra hne
    simp [initState, Function.update_of_ne hne] at hk
  rw [hzero i hi, hzero j hj]

/-! ## Two commits of one run -/

/-- The nodes that have reached `term`. -/
def reached {n : Nat} (s : LState n) (term : Nat) : Finset (Fin n) :=
  Finset.univ.filter fun i => term ≤ s.curTerm i

theorem mem_reached {n : Nat} {s : LState n} {term : Nat} {i : Fin n} :
    i ∈ reached s term ↔ term ≤ s.curTerm i := by
  simp [reached]

/-- The fencing guard: a committing leader's term has been reached by a majority. -/
theorem majority_le_reached (hfencing : l.fencing = true) {w : Fin l.n}
    (hcommit : l.Step s (.commit w) t) :
    l.majority ≤ (reached s (s.curTerm w)).card := by
  obtain ⟨-, -, hquorum, -⟩ := step_commit_iff.mp hcommit
  apply (hquorum hfencing).trans
  rw [quorumAtTerm, length_filter_finRange]
  refine Finset.card_le_card fun i hi => ?_
  simp only [Bool.and_eq_true, beq_iff_eq, Finset.mem_filter, Finset.mem_univ, true_and] at hi
  exact mem_reached.mpr hi.2.ge

/-- A majority that has reached a term leaves no quorum at a lower one. -/
theorem le_of_majority_reached (hfencing : l.fencing = true) {w : Fin l.n} {term : Nat}
    (hreached : l.majority ≤ (reached s term).card) (hcommit : l.Step s (.commit w) t) :
    term ≤ s.curTerm w := by
  obtain ⟨-, -, hquorum, -⟩ := step_commit_iff.mp hcommit
  have hquorum := hquorum hfencing
  rw [quorumAtTerm, length_filter_finRange] at hquorum
  have hlarge : l.n < (reached s term).card +
      (Finset.univ.filter fun i => (s.alive i && s.curTerm i == s.curTerm w) = true).card := by
    simp only [majority] at hreached hquorum
    omega
  obtain ⟨i, hi, hvotes⟩ := exists_mem_of_lt_card hlarge
  simp only [Finset.mem_filter, Finset.mem_univ, true_and, Bool.and_eq_true,
    beq_iff_eq] at hvotes
  rw [mem_reached] at hi
  omega

theorem reached_subset_of_run {labels : List (LAction l.n)} {term : Nat}
    (hrun : Run l.Step s labels t) : reached s term ⊆ reached t term := by
  intro i hi
  rw [mem_reached] at hi ⊢
  exact hi.trans (hrun.le_of_step_le (f := fun s => s.curTerm i)
    fun _ _ _ hstep => curTerm_le_step hstep i)

/-- What held of a writable node at an existing term held before the whole run. -/
theorem writable_of_run {labels : List (LAction l.n)} (hrun : Run l.Step s labels t)
    {i : Fin l.n} (hwritable : t.writable i = true) (hterm : t.curTerm i ≤ s.maxCurTerm) :
    s.writable i = true ∧ s.curTerm i = t.curTerm i := by
  induction hrun with
  | nil => exact ⟨hwritable, rfl⟩
  | cons hstep htail ih =>
      have hmiddle := ih hwritable (hterm.trans (maxCurTerm_le_step hstep))
      have hstart := writable_of_step hstep hmiddle.1 (hmiddle.2.trans_le hterm)
      exact ⟨hstart.1, hstart.2.trans hmiddle.2⟩

/-- Of any two commits of one run, the later is at no lower term, and at the same
term it is by the same node. -/
def CommitsAgree (l : Leadership) : Prop :=
  ∀ before middle s t u v w₁ w₂, Run l.Step l.initState before s → l.Step s (.commit w₁) t →
    Run l.Step t middle u → l.Step u (.commit w₂) v →
      s.curTerm w₁ ≤ u.curTerm w₂ ∧ (s.curTerm w₁ = u.curTerm w₂ → w₁ = w₂)

theorem commitsAgree_of_fencing (hfencing : l.fencing = true) : l.CommitsAgree := by
  intro before middle s t u v w₁ w₂ hbefore hfirst hmiddle hsecond
  have hreach : l.Reachable s := ⟨l.initState, before, rfl, hbefore⟩
  have hrun : Run l.Step s (.commit w₁ :: middle) u := .cons hfirst hmiddle
  have hquorum : l.majority ≤ (reached u (s.curTerm w₁)).card :=
    (majority_le_reached hfencing hfirst).trans (Finset.card_le_card (reached_subset_of_run hrun))
  refine ⟨le_of_majority_reached hfencing hquorum hsecond, fun hterm => ?_⟩
  obtain ⟨-, hwritable₁, -, -⟩ := step_commit_iff.mp hfirst
  obtain ⟨-, hwritable₂, -, -⟩ := step_commit_iff.mp hsecond
  have hwas := writable_of_run hrun hwritable₂ (hterm ▸ curTerm_le_maxCurTerm s w₁)
  exact writableUnique_of_reachable hreach w₁ w₂ hwritable₁ hwas.1 (hterm.trans hwas.2.symm)

/-! ## The record of commits -/

/-- The flag, the greatest committed term and its leader summarise the commits so far. -/
structure Recorded (l : Leadership) (s : LState l.n) : Prop where
  flag : s.splitBrain = false
  exists_term : s.maxCommittedTerm ≤ s.maxCurTerm
  majority : s.maxCommittedTerm = 0 ∨ l.majority ≤ (reached s s.maxCommittedTerm).card
  leader : ∀ w, s.committedLeader = some w →
    ∀ i, s.writable i = true → s.curTerm i = s.maxCommittedTerm → i = w

/-- A step that leaves the record alone keeps it a summary. -/
theorem Recorded.of_step (hrecorded : l.Recorded s) {a : LAction l.n} (hstep : l.Step s a t)
    (hflag : t.splitBrain = s.splitBrain) (hmax : t.maxCommittedTerm = s.maxCommittedTerm)
    (hleader : t.committedLeader = s.committedLeader) : l.Recorded t := by
  refine ⟨hflag.trans hrecorded.flag, ?_, ?_, fun w hw i hi hterm => ?_⟩
  · exact hmax ▸ hrecorded.exists_term.trans (maxCurTerm_le_step hstep)
  · rw [hmax]
    refine hrecorded.majority.imp_right fun hmajority => hmajority.trans ?_
    exact Finset.card_le_card (reached_subset_of_run (Run.single hstep))
  · rw [hmax] at hterm
    have hwas := writable_of_step hstep hi (hterm ▸ hrecorded.exists_term)
    exact hrecorded.leader w (hleader ▸ hw) i hwas.1 (hwas.2.trans hterm)

theorem recordCommit_of_le {n : Nat} {s : LState n} {w : Fin n} {term : Nat}
    (hle : s.maxCommittedTerm ≤ term)
    (hleader : term = s.maxCommittedTerm → ∀ prev, s.committedLeader = some prev → prev = w) :
    recordCommit s w term = { s with maxCommittedTerm := term, committedLeader := some w } := by
  rw [recordCommit, if_neg (not_lt.mpr hle)]
  split
  next heq =>
    subst heq
    cases hprev : s.committedLeader with
    | none => simp
    | some prev => simp [hleader rfl prev hprev]
  next => rfl

theorem recorded_step (hfencing : l.fencing = true) (hunique : WritableUnique s)
    (hrecorded : l.Recorded s) {a : LAction l.n} (hstep : l.Step s a t) : l.Recorded t := by
  cases a with
  | elect winner voters =>
      obtain ⟨-, rfl⟩ := step_elect_iff.mp hstep
      exact hrecorded.of_step hstep rfl rfl rfl
  | commit w =>
      have hquorum := majority_le_reached hfencing hstep
      -- a majority at the recorded term leaves no quorum below it
      have hle : s.maxCommittedTerm ≤ s.curTerm w := by
        rcases hrecorded.majority with hzero | hmajority
        · omega
        · exact le_of_majority_reached hfencing hmajority hstep
      obtain ⟨-, hwritable, -, rfl⟩ := step_commit_iff.mp hstep
      rw [recordCommit_of_le hle fun heq prev hprev =>
        (hrecorded.leader prev hprev w hwritable heq).symm]
      refine ⟨hrecorded.flag, curTerm_le_maxCurTerm s w, Or.inr hquorum, ?_⟩
      rintro _ ⟨⟩ i hi hterm
      exact hunique i w hi hwritable hterm
  | crash i =>
      obtain ⟨-, rfl⟩ := step_crash_iff.mp hstep
      exact hrecorded.of_step hstep rfl rfl rfl
  | recover i =>
      obtain ⟨-, rfl⟩ := step_recover_iff.mp hstep
      exact hrecorded.of_step hstep rfl rfl rfl

/-- With fencing on, the flag is never set. -/
theorem splitBrain_eq_false_of_fencing (hfencing : l.fencing = true) (hreach : l.Reachable s) :
    s.splitBrain = false := by
  have hboth : WritableUnique s ∧ l.Recorded s := by
    refine hreach.invariant (I := fun s => WritableUnique s ∧ l.Recorded s) ?_ ?_
    · rintro _ rfl
      refine ⟨writableUnique_of_reachable l.reachable_initState, rfl, Nat.zero_le _, Or.inl rfl, ?_⟩
      rintro w ⟨⟩
    · rintro s a t ⟨hunique, hrecorded⟩ hstep
      exact ⟨writableUnique_step hunique hstep, recorded_step hfencing hunique hrecorded hstep⟩
  exact hboth.2.flag

/-! ## Without fencing -/

/-- All nodes are at one term with one writable node, and it made all commits of
the term. -/
structure Unanimous {n : Nat} (s : LState n) (leader : Fin n) (term : Nat) : Prop where
  curTerm : ∀ i, s.curTerm i = term
  writable : ∀ i, s.writable i = true → i = leader
  committed : s.maxCommittedTerm ≤ term
  leader : s.maxCommittedTerm = term → s.committedLeader = some leader
  flag : s.splitBrain = false

/-- Two nodes vote together, and in one term nobody votes. -/
theorem mem_voters_of_small (hsmall : l.n ≤ 2) {winner : Fin l.n} {voters : Nat}
    (helected : l.ElectedBy s winner voters) (i : Fin l.n) : i ∈ maskMembers l.n voters := by
  have hcard : (maskMembers l.n voters).toFinset.card = Fintype.card (Fin l.n) := by
    rw [List.toFinset_card_of_nodup (nodup_maskMembers voters), helected.majority, majority,
      Fintype.card_fin]
    have hpos := l.n_pos
    omega
  rw [← List.mem_toFinset, Finset.eq_univ_of_card _ hcard]
  exact Finset.mem_univ i

theorem unanimous_step (hsmall : l.n ≤ 2 ∨ l.maxTerm ≤ 1) {leader : Fin l.n} {term : Nat}
    (hpos : 1 ≤ term) (hunanimous : Unanimous s leader term) {a : LAction l.n}
    (hstep : l.Step s a t) : ∃ leader' term', 1 ≤ term' ∧ Unanimous t leader' term' := by
  cases a with
  | elect winner voters =>
      obtain ⟨helected, rfl⟩ := step_elect_iff.mp hstep
      have hterm : term ≤ s.maxCurTerm :=
        (hunanimous.curTerm winner).symm.trans_le (curTerm_le_maxCurTerm s winner)
      rcases hsmall with hn | hmax
      · have hall := mem_voters_of_small hn helected
        have hcommitted := hunanimous.committed
        refine ⟨winner, s.maxCurTerm + 1, Nat.succ_pos _, ?_, ?_, ?_, ?_, hunanimous.flag⟩
        · exact fun i => if_pos (hall i)
        · intro i hi
          simpa only [if_pos (hall i), decide_eq_true_eq] using hi
        · exact (hcommitted.trans hterm).trans (Nat.le_succ _)
        · intro heq
          change s.maxCommittedTerm = _ at heq
          omega
      · -- the only term is taken
        have hlt := helected.term
        omega
  | commit w =>
      obtain ⟨-, hwritable, -, rfl⟩ := step_commit_iff.mp hstep
      obtain rfl := hunanimous.writable w hwritable
      rw [hunanimous.curTerm, recordCommit_of_le hunanimous.committed]
      · exact ⟨w, term, hpos, hunanimous.curTerm, hunanimous.writable, le_rfl, fun _ => rfl,
          hunanimous.flag⟩
      · intro heq prev hprev
        exact Option.some.inj (hprev.symm.trans (hunanimous.leader heq.symm))
  | crash i =>
      obtain ⟨-, rfl⟩ := step_crash_iff.mp hstep
      exact ⟨leader, term, hpos, hunanimous.1, hunanimous.2, hunanimous.3, hunanimous.4,
        hunanimous.5⟩
  | recover i =>
      obtain ⟨-, rfl⟩ := step_recover_iff.mp hstep
      exact ⟨leader, term, hpos, hunanimous.1, hunanimous.2, hunanimous.3, hunanimous.4,
        hunanimous.5⟩

theorem splitBrain_eq_false_of_small (hsmall : l.n ≤ 2 ∨ l.maxTerm ≤ 1)
    (hreach : l.Reachable s) : s.splitBrain = false := by
  have hunanimous : ∃ leader term, 1 ≤ term ∧ Unanimous s leader term := by
    refine hreach.invariant (I := fun s => ∃ leader term, 1 ≤ term ∧ Unanimous s leader term) ?_ ?_
    · rintro _ rfl
      refine ⟨⟨0, l.n_pos⟩, 1, le_rfl, fun _ => rfl, ?_, Nat.zero_le _, ?_, rfl⟩
      · intro i hi
        by_contra hne
        simp [initState, Function.update_of_ne hne] at hi
      · intro heq
        cases heq
    · rintro s a t ⟨leader, term, hpos, hunanimous⟩ hstep
      exact unanimous_step hsmall hpos hunanimous hstep
  obtain ⟨leader, term, -, hunanimous⟩ := hunanimous
  exact hunanimous.flag

/-- Node 0 does not vote when node 1 is elected, and both commit. -/
theorem exists_splitBrain (hfencing : l.fencing = false) (hn : 3 ≤ l.n) (hterm : 2 ≤ l.maxTerm) :
    ∃ s, l.Reachable s ∧ s.splitBrain = true := by
  let old : Fin l.n := ⟨0, l.n_pos⟩
  let winner : Fin l.n := ⟨1, by omega⟩
  let voters := maskOf (window l.n 1 l.majority)
  have hvoters : (window l.n 1 l.majority).card = l.majority :=
    card_window (by simp only [majority]; omega)
  have hmajority : 1 ≤ l.majority := Nat.succ_pos _
  have hwinner : winner ∈ window l.n 1 l.majority := by
    simp only [mem_window, winner]
    omega
  have hold : old ∉ window l.n 1 l.majority := by simp [old]
  have hmax : l.initState.maxCurTerm = 1 := by
    refine le_antisymm (maxCurTerm_le fun _ => le_rfl) ?_
    exact curTerm_le_maxCurTerm l.initState old
  let elected : LState l.n :=
    { l.initState with
      curTerm := fun i =>
        if i ∈ maskMembers l.n voters then l.initState.maxCurTerm + 1 else l.initState.curTerm i
      writable := fun i =>
        if i ∈ maskMembers l.n voters then decide (i = winner) else l.initState.writable i }
  have hwinnerTerm : elected.curTerm winner = 2 := by
    simp [elected, voters, hwinner, hmax]
  have holdTerm : elected.curTerm old = 1 := by
    simp [elected, voters, hold, initState]
  have helect : l.Step l.initState (.elect winner voters) elected := by
    refine step_elect_iff.mpr ⟨⟨⟨maskOf_pos ⟨winner, hwinner⟩, maskOf_lt _⟩, ?_, ?_, ?_, ?_⟩, rfl⟩
    · rw [hmax]
      exact hterm
    · rw [length_maskMembers_maskOf, hvoters]
    · exact fun _ _ => rfl
    · exact mem_maskMembers_maskOf.mpr hwinner
  have hcommit : l.Step elected (.commit winner)
      { elected with maxCommittedTerm := 2, committedLeader := some winner } := by
    refine step_commit_iff.mpr ⟨rfl, ?_, ?_, ?_⟩
    · simp [elected, voters, hwinner]
    · simp [hfencing]
    · rw [hwinnerTerm]
      exact (recordCommit_of_le (Nat.zero_le _) fun heq => by cases heq).symm
  have hconflict : l.Step { elected with maxCommittedTerm := 2, committedLeader := some winner }
      (.commit old) { elected with
        maxCommittedTerm := 2, committedLeader := some winner, splitBrain := true } := by
    refine step_commit_iff.mpr ⟨rfl, ?_, ?_, ?_⟩
    · simp [elected, voters, hold, initState, old]
    · simp [hfencing]
    · change _ = recordCommit _ old (elected.curTerm old)
      rw [holdTerm, recordCommit, if_pos (by decide : 1 < 2)]
  exact ⟨_, ((l.reachable_initState.tail helect).tail hcommit).tail hconflict, rfl⟩

/-- The model is safe exactly when it should be: with fencing commits agree and
the flag is never set, and without it the flag can be set in every cluster where
an election can leave the old leader out. -/
theorem safe_iff_fenced (l : Leadership) :
    (CommitsAgree { l with fencing := true } ∧
      ¬ ∃ s, Reachable { l with fencing := true } s ∧ s.splitBrain = true) ∧
    ((∃ s, Reachable { l with fencing := false } s ∧ s.splitBrain = true) ↔
      3 ≤ l.n ∧ 2 ≤ l.maxTerm) := by
  refine ⟨⟨commitsAgree_of_fencing rfl, ?_⟩, ?_, ?_⟩
  · rintro ⟨s, hreach, hflag⟩
    rw [splitBrain_eq_false_of_fencing rfl hreach] at hflag
    cases hflag
  · rintro ⟨s, hreach, hflag⟩
    by_contra hsmall
    rw [splitBrain_eq_false_of_small (by change l.n ≤ 2 ∨ l.maxTerm ≤ 1; omega) hreach] at hflag
    cases hflag
  · rintro ⟨hn, hterm⟩
    exact exists_splitBrain rfl hn hterm

end PgReplica.ConsensusModel.Leadership
