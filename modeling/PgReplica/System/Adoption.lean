import PgReplica.System.DecisionLog

/-! # The decisions that a node follows

A node looks at the applied decision once a tick, and may miss some. Those it does
take up, across restarts of its supervisor, are committed and come in the order of the
log: no node goes back, and no two nodes disagree on which of two came first.
-/

namespace PgReplica

open Foundation

/-- A world, and the decisions that each node has taken up so far. -/
structure Chronicle (c : ClusterConfig) where
  world : World c
  adopted : c.Voter → List Decision

/-- What a change of the held decision adds. -/
def taken (before after : Option Decision) : List Decision :=
  if after = before then [] else after.toList

namespace Chronicle

variable {c : ClusterConfig} {h h' : Chronicle c}

def held (h : Chronicle c) (i : c.Voter) : Option Decision :=
  (h.world.members i).node.sup.decided

/-- The next world, with what its nodes have taken up. -/
def observe (h : Chronicle c) (w : World c) : Chronicle c :=
  ⟨w, fun i => h.adopted i ++ taken (h.held i) (w.members i).node.sup.decided⟩

def after (h : Chronicle c) (e : Event c) : Option (Chronicle c) :=
  (h.world.after e).map h.observe

def Step (h : Chronicle c) (e : Event c) (h' : Chronicle c) : Prop :=
  h.after e = some h'

def Initial (h : Chronicle c) : Prop :=
  h.world.Initial ∧ ∀ i, h.adopted i = []

/-- The log up to an entry that a node has applied accounts for what it holds and for
what it has taken up. -/
structure AccountedUpTo (h : Chronicle c) (i : c.Voter) (k : Nat) : Prop where
  le_applied : k ≤ h.world.applied i
  held_eq : h.held i = ((h.world.log.take k).getLast?).map Entry.decision
  sublist : (h.adopted i).Sublist ((h.world.log.take k).map Entry.decision)
  getLast?_eq : (h.adopted i).getLast? = h.held i

theorem world_of_step {e : Event c} (hstep : h.Step e h') : World.Step h.world e h'.world ∧
    ∀ i, h'.adopted i = h.adopted i ++ taken (h.held i) (h'.held i) := by
  obtain ⟨w, hworld, rfl⟩ := Option.map_eq_some_iff.mp hstep
  exact ⟨hworld, fun _ => rfl⟩

theorem applied_le_of_step {w w' : World c} {e : Event c} (hstep : World.Step w e w')
    (i : c.Voter) : w.applied i ≤ w'.applied i := by
  cases World.logStep_of_step hstep with
  | proposed j inp hevent hadmits hlog happlied => rw [happlied]
  | committed k entry hentry hlog happlied => rw [happlied]
  | applied j hlt hlog happlied =>
      rw [happlied]
      by_cases heq : i = j
      · subst heq
        rw [Function.update_self]
        exact Nat.le_succ _
      · rw [Function.update_of_ne heq]
  | kept hlog happlied => rw [happlied]

/-- What has been committed stays in its place. -/
theorem take_log_of_step {w w' : World c} {e : Event c} (hstep : World.Step w e w') {k : Nat}
    (hle : k ≤ w.log.length) : w'.log.take k = w.log.take k := by
  cases World.logStep_of_step hstep with
  | proposed j inp hevent hadmits hlog => rw [hlog]
  | committed j entry hentry hlog => rw [hlog, List.take_append_of_le_length hle]
  | applied j hlt hlog => rw [hlog]
  | kept hlog => rw [hlog]

/-- Between two points of the log the decision of the later one is found after the
earlier one. -/
theorem exists_last_between {log : List Entry} {k n : Nat} (hlt : k < n) (hle : n ≤ log.length) :
    ∃ d, ((log.take n).getLast?).map Entry.decision = some d ∧
      ((log.take k).map Entry.decision ++ [d]).Sublist ((log.take n).map Entry.decision) := by
  obtain ⟨m, rfl⟩ := Nat.exists_eq_succ_of_ne_zero (Nat.ne_zero_of_lt hlt)
  have htake : log.take (m + 1) = log.take m ++ [log[m]] := by
    rw [List.take_add_one, List.getElem?_eq_getElem hle, Option.toList_some]
  refine ⟨log[m].decision, ?_, ?_⟩
  · rw [htake, List.getLast?_concat, Option.map_some]
  · rw [htake, List.map_append]
    have hbefore := List.take_sublist_take_left (l := log) (Nat.le_of_lt_succ hlt)
    exact (hbefore.map _).append (List.Sublist.refl _)

theorem AccountedUpTo.step {i : c.Voter} {k : Nat} (happliedLe : h.world.AppliedLe)
    (haccounted : h.AccountedUpTo i k) {e : Event c} (hstep : h.Step e h') :
    ∃ k, h'.AccountedUpTo i k := by
  obtain ⟨hworld, hadopted⟩ := world_of_step hstep
  obtain ⟨hle, hheld, hsublist, hlast⟩ := haccounted
  have happlied := applied_le_of_step hworld i
  by_cases hsame : h'.held i = h.held i
  · have htake := take_log_of_step hworld (hle.trans (happliedLe i))
    have hnothing : h'.adopted i = h.adopted i := by
      rw [hadopted, taken, if_pos hsame, List.append_nil]
    exact ⟨k, hle.trans happlied, by rw [hsame, hheld, htake], by rwa [hnothing, htake],
      by rw [hnothing, hsame, hlast]⟩
  · -- the node has taken up the decision it has applied
    have hshared : h'.held i = h.world.sharedDecision i :=
      (World.decided_of_step hworld i).resolve_left hsame
    have hlt : k < h.world.applied i := by
      refine lt_of_le_of_ne hle fun heq => hsame ?_
      rw [hshared, World.sharedDecision, hheld, heq]
    obtain ⟨d, hd, hlonger⟩ := exists_last_between hlt (happliedLe i)
    have hnew : h'.held i = some d := by rw [hshared, World.sharedDecision, hd]
    have htaken : h'.adopted i = h.adopted i ++ [d] := by
      rw [hadopted, taken, if_neg hsame, hnew, Option.toList_some]
    have htake := take_log_of_step hworld (happliedLe i)
    refine ⟨h.world.applied i, happlied, ?_, ?_, ?_⟩
    · rw [htake, hd, hnew]
    · rw [htaken, htake]
      exact (hsublist.append (List.Sublist.refl _)).trans hlonger
    · rw [htaken, hnew, List.getLast?_concat]

/-- What a node has taken up is a subsequence of the committed decisions, and it follows
the last one. -/
theorem adopted_sublist_of_run (hreach : Reachable Initial Step h) (i : c.Voter) :
    (h.adopted i).Sublist (h.world.log.map Entry.decision) ∧
      (h.world.members i).node.sup.decided = (h.adopted i).getLast? := by
  have haccounted : h.world.AppliedLe ∧ ∀ i, ∃ k, h.AccountedUpTo i k := by
    apply hreach.invariant (I := fun h => h.world.AppliedLe ∧ ∀ i, ∃ k, h.AccountedUpTo i k)
    · rintro h ⟨hinit, hadopted⟩
      refine ⟨hinit.appliedLe, fun i => ⟨0, Nat.zero_le _, ?_, ?_, ?_⟩⟩
      · obtain ⟨now, hsup⟩ := hinit.started i
        rw [held, hsup]
        rfl
      · rw [hadopted]
        exact List.nil_sublist _
      · obtain ⟨now, hsup⟩ := hinit.started i
        rw [hadopted, held, hsup]
        rfl
    · rintro h e h' ⟨happliedLe, haccounted⟩ hstep
      refine ⟨happliedLe.step (world_of_step hstep).1, fun i => ?_⟩
      obtain ⟨k, hk⟩ := haccounted i
      exact hk.step happliedLe hstep
  obtain ⟨k, -, -, hsublist, hlast⟩ := haccounted.2 i
  refine ⟨hsublist.trans ?_, hlast.symm⟩
  exact (List.take_sublist k _).map _

/-- Node 4 applies two more entries before its supervisor looks again. -/
def catchUp : List (Event fiveNodes) :=
  [.apply (five 4), .apply (five 4), .tick (five 4) (.standby (.plain 2900 [] (some ⟨2, 3⟩)))]

/-- A node misses a decision in between. -/
theorem adopted_sublist_of_run_catchUp : ∃ h : Chronicle fiveNodes,
    Reachable Initial Step h ∧ h.adopted (five 4) = [⟨1, 1⟩, ⟨2, 3⟩] ∧
      h.world.log.map Entry.decision = [⟨1, 1⟩, ⟨2, 2⟩, ⟨2, 3⟩] ∧
      (h.adopted (five 4)).Sublist (h.world.log.map Entry.decision) := by
  have heval : ((World.firstDecision ++ World.twoLeaders ++ catchUp).foldlM after
      ⟨.fresh fiveNodes (five 1), fun _ => []⟩).any (fun h =>
        decide (h.adopted (five 4) = [⟨1, 1⟩, ⟨2, 3⟩] ∧
          h.world.log.map Entry.decision = [⟨1, 1⟩, ⟨2, 2⟩, ⟨2, 3⟩])) = true := by
    decide +kernel
  obtain ⟨h, hfold, hend⟩ := (Option.any_eq_true _ _).mp heval
  obtain ⟨hadopted, hlog⟩ := of_decide_eq_true hend
  have hreach : Reachable Initial Step h :=
    ⟨_, _, ⟨World.initial_fresh (five 1), fun _ => rfl⟩, Run.of_foldlM hfold⟩
  exact ⟨h, hreach, hadopted, hlog, (adopted_sublist_of_run hreach (five 4)).1⟩

end Chronicle

end PgReplica
