import Mathlib.Order.Lattice.Nat
import PgReplica.Foundation.ReplaceFile
import PgReplica.Foundation.Run

/-! # Files that follow a history of operations

A program changes a value by operations and writes the value to a file now and
then. The file follows the history when it holds the value after some of the
first operations, also after a crash, and when none of the operations that the
program relies on is missing. When the program starts again, from what it reads
or from what a crash has left, the history goes on after a cut.
-/

namespace PgReplica.Foundation

universe u v w

/-- The value after the first `k` operations. -/
def valueAfter {σ : Type v} {α : Type w} (run : σ → α → σ) (start : σ) (ops : List α) (k : Nat) :
    σ :=
  (ops.take k).foldl run start

section Value

variable {σ : Type v} {α : Type w} {run : σ → α → σ} {start : σ} {ops : List α}

@[simp] theorem valueAfter_length : valueAfter run start ops ops.length = ops.foldl run start := by
  rw [valueAfter, List.take_length]

/-- Later operations do not change earlier values. -/
theorem valueAfter_snoc {op : α} {k : Nat} (hk : k ≤ ops.length) :
    valueAfter run start (ops ++ [op]) k = valueAfter run start ops k := by
  rw [valueAfter, List.take_append_of_le_length hk, valueAfter]

end Value

section Tracks

variable {φ : Type u} {σ : Type v} {α : Type w} {load : Option (List UInt8) → Option σ}
  {run : σ → α → σ} {start : σ} {ops : List α} {kept : Nat} {d d' : Disk (FileName φ)} {f : φ}
  {bytes : List UInt8}

/-- Now or after a crash, the file holds the value after some of the operations
and at least after the first `kept`. What it holds now is the latest of these. -/
def Tracks (load : Option (List UInt8) → Option σ) (run : σ → α → σ) (start : σ) (ops : List α)
    (kept : Nat) (d : Disk (FileName φ)) (f : φ) : Prop :=
  ∃ latest, kept ≤ latest ∧ latest ≤ ops.length ∧
    load (d.read (.final f)) = some (valueAfter run start ops latest) ∧
    ∀ image ∈ d.images (.final f), ∃ k, kept ≤ k ∧ k ≤ latest ∧
      load image = some (valueAfter run start ops k)

theorem Tracks.kept_le_length (htracks : Tracks load run start ops kept d f) :
    kept ≤ ops.length := by
  obtain ⟨latest, hkept, hle, -, -⟩ := htracks
  exact hkept.trans hle

/-- A file that has one content, now and after a crash. -/
theorem Tracks.of_images (himages : ∀ image ∈ d.images (.final f), image = d.read (.final f))
    (hload : load (d.read (.final f)) = some (ops.foldl run start)) :
    Tracks load run start ops ops.length d f := by
  refine ⟨ops.length, le_rfl, le_rfl, by rwa [valueAfter_length], fun image himage => ?_⟩
  rw [himages image himage]
  exact ⟨ops.length, le_rfl, le_rfl, by rwa [valueAfter_length]⟩

theorem Tracks.of_settled (hsettled : d.Settled) (hload : load (d.read (.final f)) = some start) :
    Tracks load run start [] 0 d f := by
  have himages : ∀ image ∈ d.images (.final f), image = d.read (.final f) := by
    rw [hsettled.images]
    exact fun image himage => List.mem_singleton.mp himage
  exact Tracks.of_images himages hload

/-- An operation that has not reached the file. -/
theorem Tracks.snoc (htracks : Tracks load run start ops kept d f) (op : α) :
    Tracks load run start (ops ++ [op]) kept d f := by
  obtain ⟨latest, hkept, hle, hread, himages⟩ := htracks
  refine ⟨latest, hkept, by rw [List.length_append]; omega, by rwa [valueAfter_snoc hle], ?_⟩
  intro image himage
  obtain ⟨k, hk, hlatest, hload⟩ := himages image himage
  exact ⟨k, hk, hlatest, by rwa [valueAfter_snoc (hlatest.trans hle)]⟩

theorem Tracks.of_kept (htracks : Tracks load run start ops kept d f)
    (hsame : Disk.Kept (.final f) d d') : Tracks load run start ops kept d' f := by
  obtain ⟨latest, hkept, hle, hread, himages⟩ := htracks
  exact ⟨latest, hkept, hle, by rwa [hsame.read],
    fun image himage => himages image (hsame.images himage)⟩

/-- The file is replaced by the value after all operations. -/
theorem Tracks.of_replaced (htracks : Tracks load run start ops kept d f)
    (hload : load (some bytes) = some (ops.foldl run start))
    (hnew : Disk.Replaced (.final f) bytes d d') : Tracks load run start ops kept d' f := by
  obtain ⟨latest, hkept, hle, -, himages⟩ := htracks
  have hall : load (some bytes) = some (valueAfter run start ops ops.length) := by
    rwa [valueAfter_length]
  refine ⟨ops.length, hkept.trans hle, le_rfl, by rwa [hnew.read], fun image himage => ?_⟩
  rcases List.mem_cons.mp (hnew.images himage) with rfl | hold
  · exact ⟨ops.length, hkept.trans hle, le_rfl, hall⟩
  · obtain ⟨k, hk, hlatest, hload⟩ := himages image hold
    exact ⟨k, hk, hlatest.trans hle, hload⟩

/-- What a crash leaves in the file. -/
theorem Tracks.load_crash (htracks : Tracks load run start ops kept d f) (hsealed : d.Sealed)
    (survivor : Nat) (junk : Nat → List UInt8) : ∃ k, kept ≤ k ∧ k ≤ ops.length ∧
      load ((d.crash survivor junk).read (.final f)) = some (valueAfter run start ops k) := by
  obtain ⟨latest, -, hle, -, himages⟩ := htracks
  obtain ⟨k, hk, hlatest, hload⟩ :=
    himages _ (Disk.read_crash_mem_images hsealed survivor junk f)
  exact ⟨k, hk, hlatest.trans hle, hload⟩

/-- The file follows the part of the history that it holds. -/
theorem Tracks.take (htracks : Tracks load run start ops kept d f) : ∃ latest,
    kept ≤ latest ∧ latest ≤ ops.length ∧
      load (d.read (.final f)) = some (valueAfter run start ops latest) ∧
      Tracks load run start (ops.take latest) kept d f := by
  obtain ⟨latest, hkept, hle, hread, himages⟩ := htracks
  have hvalue : ∀ k, k ≤ latest →
      valueAfter run start (ops.take latest) k = valueAfter run start ops k := by
    intro k hk
    rw [valueAfter, valueAfter, List.take_take, min_eq_left hk]
  refine ⟨latest, hkept, hle, hread, latest, hkept, by simpa using hle, ?_, ?_⟩
  · rwa [hvalue latest le_rfl]
  · intro image himage
    obtain ⟨k, hk, hlatest, hload⟩ := himages image himage
    exact ⟨k, hk, hlatest, by rwa [hvalue k hlatest]⟩

variable {fd : Option Nat}

/-- When the last call of a replacement has returned, nothing is missing from the file. -/
theorem Tracks.of_done (hstage : WriteStage d f bytes [] fd)
    (hload : load (some bytes) = some (ops.foldl run start)) :
    Tracks load run start ops ops.length d f := by
  cases hstage with
  | done _ hread himages =>
      refine Tracks.of_images (fun image himage => ?_) (by rwa [hread])
      rw [hread]
      exact List.mem_singleton.mp (himages himage)

variable [DecidableEq φ]

/-- One call of the file's writer, with any outcome. -/
theorem Tracks.of_run {call : Syscall (FileName φ)} {rest : List (Syscall (FileName φ))}
    (htracks : Tracks load run start ops kept d f) (hsealed : d.Sealed)
    (hstage : WriteStage d f bytes (call :: rest) fd)
    (hload : load (some bytes) = some (ops.foldl run start)) (outcome : CallOutcome) :
    Tracks load run start ops kept (call.run d fd outcome) f := by
  obtain ⟨-, hsame | hnew, -⟩ := hstage.run hsealed outcome
  · exact htracks.of_kept hsame
  · exact htracks.of_replaced hload hnew

end Tracks

/-! ## Histories with restarts -/

/-- The operations behind a value. No restart undoes the first `durable`. -/
structure History (α : Type w) where
  ops : List α
  durable : Nat
  durable_le : durable ≤ ops.length

/-- A restart keeps the first `kept` operations. -/
inductive HistoryEvent (α : Type w) where
  | issue (op : α)
  | confirm
  | restart (kept : Nat)

/-- What can be seen of an event: not how much a restart has undone. -/
inductive Mark (α : Type w) where
  | issued (op : α)
  | confirmed
  | restarted

def HistoryEvent.mark {α : Type w} : HistoryEvent α → Mark α
  | .issue op => .issued op
  | .confirm => .confirmed
  | .restart _ => .restarted

namespace History

variable {σ : Type v} {α : Type w} {run : σ → α → σ} {start : σ} {h h' : History α}

/-- The start of a history. -/
def nil : History α :=
  ⟨[], 0, le_rfl⟩

def issue (h : History α) (op : α) : History α :=
  ⟨h.ops ++ [op], h.durable, by simpa using Nat.le_succ_of_le h.durable_le⟩

def confirm (h : History α) : History α :=
  ⟨h.ops, h.ops.length, le_rfl⟩

@[simp] theorem issue_ops (h : History α) (op : α) : (h.issue op).ops = h.ops ++ [op] :=
  rfl

inductive Step : History α → HistoryEvent α → History α → Prop
  | issue (h : History α) (op : α) : Step h (.issue op) (h.issue op)
  | confirm (h : History α) : Step h .confirm h.confirm
  | restart (h h' : History α) (kept : Nat) (hheld : h.durable ≤ kept)
      (hops : h'.ops = h.ops.take kept) (hdurable : h'.durable = h.durable) :
      Step h (.restart kept) h'

/-- The operations that no restart can undo. -/
def safe (h : History α) : List α :=
  h.ops.take h.durable

theorem safe_prefix_of_step {e : HistoryEvent α} (hstep : h.Step e h') : h.safe <+: h'.safe := by
  cases hstep with
  | issue op =>
      rw [safe, safe, issue, List.take_append_of_le_length h.durable_le]
  | confirm =>
      rw [safe, safe, confirm, List.take_length]
      exact List.take_prefix _ _
  | restart _ kept hheld hops hdurable =>
      rw [safe, safe, hops, hdurable, List.take_take, min_eq_left hheld]

/-- What has been safe once is part of every later history. -/
theorem safe_prefix_of_run {events : List (HistoryEvent α)} (hrun : Run Step h events h') :
    h.safe <+: h'.safe := by
  induction hrun with
  | nil => exact List.prefix_rfl
  | cons hstep _ ih => exact (safe_prefix_of_step hstep).trans ih

/-- A restart leaves regular operations, and so does an issue of a regular one. -/
theorem regular_of_step {C : σ → α → Prop} (hregular : EachStep run C start h.ops)
    {e : HistoryEvent α} (hstep : h.Step e h')
    (hissued : ∀ op, e = .issue op → C (h.ops.foldl run start) op) :
    EachStep run C start h'.ops := by
  cases hstep with
  | issue op => exact EachStep.append_iff.mpr ⟨hregular, hissued op rfl, trivial⟩
  | confirm => exact hregular
  | restart _ kept hheld hops hdurable =>
      rw [← List.take_append_drop kept h.ops] at hregular
      rw [hops]
      exact (EachStep.append_iff.mp hregular).1

/-- The same with the event, if there is one, known by its mark. -/
theorem regular_of_marked {C : σ → α → Prop} (hregular : EachStep run C start h.ops)
    {events : List (HistoryEvent α)} (hrun : Run Step h events h') {mark : Option (Mark α)}
    (hmarks : events.map HistoryEvent.mark = mark.toList)
    (hissued : ∀ op, mark = some (.issued op) → C (h.ops.foldl run start) op) :
    EachStep run C start h'.ops := by
  cases hrun with
  | nil => exact hregular
  | @cons _ middle _ e rest hstep htail =>
      cases mark with
      | none => cases hmarks
      | some mark =>
          obtain ⟨hmark, hrest⟩ := List.cons.inj hmarks
          obtain rfl := List.map_eq_nil_iff.mp hrest
          obtain rfl := Run.nil_iff.mp htail
          refine regular_of_step hregular hstep fun op hop => hissued op ?_
          rw [← hmark, hop]
          rfl

/-- After a confirmation everything is safe. -/
theorem safe_of_confirmed {events : List (HistoryEvent α)} (hrun : Run Step h events h')
    (hmarks : events.map HistoryEvent.mark = [.confirmed]) : h'.safe = h'.ops := by
  obtain ⟨e, rfl, hmark⟩ := List.map_eq_singleton_iff.mp hmarks
  obtain ⟨middle, hstep, htail⟩ := Run.cons_iff.mp hrun
  obtain rfl := Run.nil_iff.mp htail
  cases hstep with
  | confirm => exact List.take_length
  | issue | restart => cases hmark

/-- Operations that raise a measure of the value are never undone below what was safe. -/
theorem le_of_run {ι : Type*} [Preorder ι] {f : σ → ι} {C : σ → α → Prop}
    (hmono : ∀ s op, C s op → f s ≤ f (run s op)) (hregular : EachStep run C start h'.ops)
    {events : List (HistoryEvent α)} (hrun : Run Step h events h') :
    f (h.safe.foldl run start) ≤ f (h'.ops.foldl run start) := by
  obtain ⟨later, hlater⟩ := (safe_prefix_of_run hrun).trans (List.take_prefix _ _)
  rw [← hlater] at hregular ⊢
  rw [List.foldl_append]
  exact (EachStep.append_iff.mp hregular).2.le_foldl hmono

/-- What has come after a safe beginning was there before or has been issued since. -/
theorem issued_of_run (first later : List α) {events : List (HistoryEvent α)}
    (hrun : Run Step h events h') (hsafe : first <+: h.safe) (hops : h.ops = first ++ later) :
    ∃ later', h'.ops = first ++ later' ∧ ∀ op ∈ later', op ∈ later ∨ .issue op ∈ events := by
  induction hrun generalizing later with
  | nil => exact ⟨later, hops, fun op hop => Or.inl hop⟩
  | @cons h middle h' e rest hstep _ ih =>
      have hsafe' := hsafe.trans (safe_prefix_of_step hstep)
      obtain ⟨next, hnext, hissued⟩ : ∃ next, middle.ops = first ++ next ∧
          ∀ op ∈ next, op ∈ later ∨ e = .issue op := by
        cases hstep with
        | issue op =>
            refine ⟨later ++ [op], by rw [issue_ops, hops, List.append_assoc], fun op' hop => ?_⟩
            rcases List.mem_append.mp hop with hold | hnew
            · exact Or.inl hold
            · exact Or.inr (by rw [List.mem_singleton.mp hnew])
        | confirm => exact ⟨later, hops, fun op hop => Or.inl hop⟩
        | restart _ kept hheld htaken hdurable =>
            have hle : first.length ≤ kept :=
              hsafe.length_le.trans (by simpa [safe] using Or.inl hheld)
            refine ⟨later.take (kept - first.length), ?_, fun op hop =>
              Or.inl (List.mem_of_mem_take hop)⟩
            rw [htaken, hops, List.take_append, List.take_of_length_le hle]
      obtain ⟨later', hlater, hsince⟩ := ih next hsafe' hnext
      refine ⟨later', hlater, fun op hop => ?_⟩
      rcases hsince op hop with hbefore | hafter
      · rcases hissued op hbefore with hold | rfl
        · exact Or.inl hold
        · exact Or.inr List.mem_cons_self
      · exact Or.inr (List.mem_cons_of_mem _ hafter)

end History

section Follows

variable {φ : Type u} {σ : Type v} {α : Type w} {load : Option (List UInt8) → Option σ}
  {run : σ → α → σ} {start : σ} {h : History α} {written written' : Prop} {value : σ}
  {d d' : Disk (FileName φ)} {f : φ}

/-- A value in memory and its file follow a history: the memory holds the value after all
operations, and the file has no durable one missing, and none at all once `written`. -/
structure Follows (load : Option (List UInt8) → Option σ) (run : σ → α → σ) (start : σ)
    (h : History α) (written : Prop) (value : σ) (d : Disk (FileName φ)) (f : φ) : Prop where
  value_eq : value = h.ops.foldl run start
  held : ∃ kept, h.durable ≤ kept ∧ (written → kept = h.ops.length) ∧
    Tracks load run start h.ops kept d f

theorem Follows.of_settled (hsettled : d.Settled) (hload : load (d.read (.final f)) = some start) :
    Follows load run start History.nil written start d f :=
  ⟨rfl, 0, le_rfl, fun _ => rfl, Tracks.of_settled hsettled hload⟩

/-- An operation on the memory alone. -/
theorem Follows.issue (hfollows : Follows load run start h written value d f) (op : α)
    (hunwritten : ¬ written') :
    Follows load run start (h.issue op) written' (run value op) d f := by
  obtain ⟨hvalue, kept, hle, -, hkept⟩ := hfollows
  refine ⟨?_, kept, hle, fun hwritten => absurd hwritten hunwritten, hkept.snoc op⟩
  rw [hvalue, History.issue, List.foldl_append]
  rfl

/-- A step of the file's writer, or of anything else. -/
theorem Follows.of_tracks (hfollows : Follows load run start h written value d f)
    (hwritten : written' → written)
    (htracks : ∀ kept, Tracks load run start h.ops kept d f →
      Tracks load run start h.ops kept d' f) :
    Follows load run start h written' value d' f := by
  obtain ⟨hvalue, kept, hle, hall, hkept⟩ := hfollows
  exact ⟨hvalue, kept, hle, fun hnow => hall (hwritten hnow), htracks kept hkept⟩

/-- With every operation in the file all of them are safe. -/
theorem Follows.confirm (hfollows : Follows load run start h written value d f)
    (hall : Tracks load run start h.ops h.ops.length d f) :
    Follows load run start h.confirm written' value d f :=
  ⟨hfollows.value_eq, h.ops.length, le_rfl, fun _ => rfl, hall⟩

theorem Follows.tracks_of_written (hfollows : Follows load run start h written value d f)
    (hwritten : written) : Tracks load run start h.ops h.ops.length d f := by
  obtain ⟨-, kept, -, hall, hkept⟩ := hfollows
  rwa [hall hwritten] at hkept

/-- The program dies and reads its file again. -/
theorem Follows.of_read (hfollows : Follows load run start h written value d f)
    (hunwritten : ¬ written') : ∃ kept h' value', h.Step (.restart kept) h' ∧
      load (d.read (.final f)) = some value' ∧
      Follows load run start h' written' value' d f := by
  obtain ⟨-, kept, hle, -, hkept⟩ := hfollows
  obtain ⟨latest, hlatest, hlength, hload, htracks⟩ := hkept.take
  have hdurable : h.durable ≤ latest := hle.trans hlatest
  refine ⟨latest, ⟨h.ops.take latest, h.durable, by simpa using ⟨hdurable, h.durable_le⟩⟩, _,
    .restart _ _ latest hdurable rfl rfl, hload, rfl, kept, hle,
    fun hwritten => absurd hwritten hunwritten, htracks⟩

/-- The machine goes down, and the program reads what is left of its file. -/
theorem Follows.of_crash (hfollows : Follows load run start h written value d f)
    (hsealed : d.Sealed) (survivor : Nat) (junk : Nat → List UInt8) :
    ∃ kept h' value', h.Step (.restart kept) h' ∧
      load ((d.crash survivor junk).read (.final f)) = some value' ∧
      Follows load run start h' written' value' (d.crash survivor junk) f := by
  obtain ⟨-, kept, hle, -, hkept⟩ := hfollows
  obtain ⟨k, hk, hlength, hload⟩ := hkept.load_crash hsealed survivor junk
  have hdurable : h.durable ≤ k := hle.trans hk
  refine ⟨k, ⟨h.ops.take k, h.durable, by simpa using ⟨hdurable, h.durable_le⟩⟩, _,
    .restart _ _ k hdurable rfl rfl, hload, rfl, (h.ops.take k).length,
    by simpa using ⟨hdurable, h.durable_le⟩, fun _ => rfl, ?_⟩
  have himages : ∀ image ∈ (d.crash survivor junk).images (.final f),
      image = (d.crash survivor junk).read (.final f) := by
    rw [(d.settled_crash survivor junk).images]
    exact fun image himage => List.mem_singleton.mp himage
  exact Tracks.of_images himages hload

end Follows

end PgReplica.Foundation
