import Mathlib.Data.List.Forall2
import PgReplica.Foundation.ReplaceFile
import PgReplica.Foundation.Run

/-! # Files that are published by renaming

The writer fills the twin of a file and renames it over the file, and syncs nothing. A
client opens the file and reads it piece by piece meanwhile. While the power stays on it
gets whole contents, each no older than the one before.
-/

namespace PgReplica.Foundation

universe u

/-- The calls that publish a content. -/
def publishFile {φ : Type u} (f : φ) (bytes : List UInt8) : List (Syscall (FileName φ)) :=
  [.create (.tmp f), .writeAll bytes, .rename (.tmp f) (.final f)]

namespace Disk

variable {φ : Type u} {d d' : Disk (FileName φ)} {f g : φ} {inode : Nat}

/-- An inode that no writer opens any more. -/
structure Closed (d : Disk (FileName φ)) (inode : Nat) : Prop where
  lt_fresh : inode < d.fresh
  apart : ∀ f, d.current (.tmp f) ≠ some inode

theorem closed_of_final (hfinal : d.current (.final f) = some inode) : d.Closed inode where
  lt_fresh := d.lt_fresh _ d.current_mem_views _ _ hfinal
  apart := by
    intro g htwin
    cases d.inj _ d.current_mem_views _ _ _ htwin hfinal

/-- What a call of the writer of `f` leaves alone. -/
structure Untouched (f : φ) (d d' : Disk (FileName φ)) : Prop where
  closed : ∀ inode, d.Closed inode → d'.Closed inode ∧ d'.content inode = d.content inode
  final : ∀ g, g ≠ f → d'.current (.final g) = d.current (.final g)
  twin : ∀ g, g ≠ f → ∀ inode, d.current (.tmp g) = some inode →
    d'.current (.tmp g) = some inode ∧ d'.content inode = d.content inode

theorem Untouched.refl (f : φ) (d : Disk (FileName φ)) : Untouched f d d :=
  ⟨fun _ hclosed => ⟨hclosed, rfl⟩, fun _ _ => rfl, fun _ _ _ htwin => ⟨htwin, rfl⟩⟩

/-- A file under the same inode reads the same. -/
theorem Untouched.read_of_final (huntouched : Untouched f d d')
    (hfinal : d'.current (.final g) = d.current (.final g)) :
    d'.read (.final g) = d.read (.final g) := by
  rw [read, read, hfinal]
  exact Option.map_congr fun inode hinode =>
    (huntouched.closed inode (closed_of_final (Option.mem_def.mp hinode))).2

theorem untouched_setContent (htwin : d.current (.tmp f) = some inode) (bytes : List UInt8) :
    Untouched f d (d.setContent inode bytes) where
  closed := by
    intro other hclosed
    have hne : other ≠ inode := by
      rintro rfl
      exact hclosed.apart f htwin
    exact ⟨⟨hclosed.lt_fresh, hclosed.apart⟩, by simp [setContent, Function.update_of_ne hne]⟩
  final := fun _ _ => rfl
  twin := by
    intro g hne other hother
    have hapart : other ≠ inode := by
      rintro rfl
      exact hne (FileName.tmp.inj (d.inj _ d.current_mem_views _ _ _ hother htwin))
    exact ⟨hother, by simp [setContent, Function.update_of_ne hapart]⟩

variable [DecidableEq φ]

theorem untouched_addFile (d : Disk (FileName φ)) (f : φ) :
    Untouched f d (d.addFile (.tmp f)) where
  closed := by
    intro other hclosed
    refine ⟨⟨Nat.lt_succ_of_lt hclosed.lt_fresh, fun g htwin => ?_⟩, ?_⟩
    · rcases d.current_of_withFresh htwin with ⟨-, rfl⟩ | ⟨-, hold⟩
      · exact absurd hclosed.lt_fresh (Nat.lt_irrefl _)
      · exact hclosed.apart g hold
    · simp [addFile, Function.update_of_ne (Nat.ne_of_lt hclosed.lt_fresh)]
  final := fun g _ => by simp [addFile, withFresh]
  twin := by
    intro g hne other hother
    have hlt := d.lt_fresh _ d.current_mem_views _ _ hother
    simp [addFile, withFresh, Function.update_of_ne (Nat.ne_of_lt hlt), hne, hother]

theorem untouched_create (d : Disk (FileName φ)) (f : φ) :
    Untouched f d (d.create (.tmp f)) ∧
      (d.create (.tmp f)).current (.final f) = d.current (.final f) := by
  unfold create
  split
  next inode htwin => exact ⟨untouched_setContent htwin [], rfl⟩
  next => exact ⟨untouched_addFile d f, by simp [addFile, withFresh]⟩

theorem untouched_rename (htwin : d.current (.tmp f) = some inode) :
    Untouched f d (d.rename (.tmp f) (.final f)) := by
  rw [rename, if_neg (by simp [htwin])]
  refine ⟨fun other hclosed => ⟨⟨hclosed.lt_fresh, fun g htwin' => ?_⟩, rfl⟩,
    fun g hne => (movedName_final htwin g).trans (if_neg hne), fun g hne other hother =>
      ⟨((movedName_tmp d f g).trans (if_neg hne)).trans hother, rfl⟩⟩
  replace htwin' := (movedName_tmp d f g).symm.trans htwin'
  split at htwin'
  next => cases htwin'
  next => exact hclosed.apart g htwin'

end Disk

/-! ## The stages of a publication -/

section Writer

variable {φ : Type u} {d d' : Disk (FileName φ)} {f g : φ} {bytes : List UInt8}
  {call : Syscall (FileName φ)} {rest : List (Syscall (FileName φ))} {fd : Option Nat}

/-- What the calls of `publishFile` that are left can rely on. -/
inductive PublishStage (d : Disk (FileName φ)) (f : φ) (bytes : List UInt8) :
    List (Syscall (FileName φ)) → Option Nat → Prop
  | create (fd : Option Nat) : PublishStage d f bytes (publishFile f bytes) fd
  | write (inode : Nat) (htwin : d.current (.tmp f) = some inode)
      (hcontent : d.content inode = []) :
      PublishStage d f bytes [.writeAll bytes, .rename (.tmp f) (.final f)] (some inode)
  | rename (inode : Nat) (htwin : d.current (.tmp f) = some inode)
      (hcontent : d.content inode = bytes) :
      PublishStage d f bytes [.rename (.tmp f) (.final f)] (some inode)
  | done (fd : Option Nat) (hread : d.read (.final f) = some bytes) :
      PublishStage d f bytes [] fd

/-- A writer is not disturbed by the calls of another one. -/
theorem PublishStage.untouched {todo : List (Syscall (FileName φ))}
    (hstage : PublishStage d f bytes todo fd) (hne : f ≠ g)
    (huntouched : Disk.Untouched g d d') : PublishStage d' f bytes todo fd := by
  cases hstage with
  | create => exact .create fd
  | write inode htwin hcontent =>
      obtain ⟨htwin', hcontent'⟩ := huntouched.twin f hne inode htwin
      exact .write inode htwin' (hcontent'.trans hcontent)
  | rename inode htwin hcontent =>
      obtain ⟨htwin', hcontent'⟩ := huntouched.twin f hne inode htwin
      exact .rename inode htwin' (hcontent'.trans hcontent)
  | done _ hread =>
      exact .done _ ((huntouched.read_of_final (huntouched.final f hne)).trans hread)

variable [DecidableEq φ]

/-- A call that has its effect. The rename is the only one that shows. -/
theorem PublishStage.effect (hstage : PublishStage d f bytes (call :: rest) fd) :
    Disk.Untouched f d (call.effect d fd) ∧
      ((call.effect d fd).current (.final f) = d.current (.final f) ∨
        (call.effect d fd).read (.final f) = some bytes) ∧
      PublishStage (call.effect d fd) f bytes rest (call.nextFd d fd) := by
  cases hstage with
  | create =>
      obtain ⟨huntouched, hfinal⟩ := Disk.untouched_create d f
      obtain ⟨htwin, hcontent⟩ := d.create_twin f
      exact ⟨huntouched, Or.inl hfinal, .write _ htwin hcontent⟩
  | write inode htwin hcontent =>
      refine ⟨Disk.untouched_setContent htwin _, Or.inl rfl, .rename inode htwin ?_⟩
      simp [Syscall.effect, Disk.append, Disk.setContent, hcontent]
  | rename inode htwin hcontent =>
      have hread := (Disk.replaced_rename htwin).read
      rw [hcontent] at hread
      exact ⟨Disk.untouched_rename htwin, Or.inr hread, .done _ hread⟩

/-- A call with any outcome. Only after `ok` does the writer go on. -/
theorem PublishStage.run (hstage : PublishStage d f bytes (call :: rest) fd)
    (outcome : CallOutcome) :
    Disk.Untouched f d (call.run d fd outcome) ∧
      ((call.run d fd outcome).current (.final f) = d.current (.final f) ∨
        (call.run d fd outcome).read (.final f) = some bytes) ∧
      (outcome = .ok →
        PublishStage (call.run d fd outcome) f bytes rest (call.nextFd d fd)) := by
  obtain ⟨huntouched, hfile, hnext⟩ := hstage.effect
  cases outcome with
  | ok => exact ⟨huntouched, hfile, fun _ => hnext⟩
  | failedAfterEffect => exact ⟨huntouched, hfile, fun h => nomatch h⟩
  | failed => exact ⟨.refl f d, Or.inl rfl, fun h => nomatch h⟩
  | short written =>
      cases hstage with
      | write inode htwin _ =>
          exact ⟨Disk.untouched_setContent htwin _, Or.inl rfl, fun h => nomatch h⟩
      | create | rename => exact ⟨.refl f d, Or.inl rfl, fun h => nomatch h⟩

end Writer

/-! ## Writers and a client -/

/-- A publication. It is done when no calls are left. -/
structure Publishing (φ : Type u) where
  bytes : List UInt8
  todo : List (Syscall (FileName φ))
  fd : Option Nat

/-- A file that a client has open, and what it has read so far. -/
structure OpenFile where
  inode : Nat
  got : List UInt8

/-- `history` has what each file held at first and whatever was to be published in it
since. `readings` are those that a client has finished, all of one file and one after the
other. Of a reading that fails nothing is left. -/
structure PublicFiles (φ : Type u) where
  disk : Disk (FileName φ)
  calls : φ → Option (Publishing φ)
  history : φ → List (Option (List UInt8))
  opened : Option OpenFile
  readings : List (Option (List UInt8))

inductive PublishEvent (φ : Type u) where
  | publish (f : φ) (bytes : List UInt8)
  | call (f : φ) (outcome : CallOutcome)
  | die
  | openFile
  | readPiece (max : Nat)
  | abandon

namespace PublicFiles

variable {φ : Type u} [DecidableEq φ]

/-- The files after a step, and `none` where the step cannot come next. A read that gets
nothing is the last one. -/
def after (f : φ) (s : PublicFiles φ) : PublishEvent φ → Option (PublicFiles φ)
  | .publish g bytes =>
      some { s with
        calls := Function.update s.calls g (some ⟨bytes, publishFile g bytes, none⟩)
        history := Function.update s.history g (s.history g ++ [some bytes]) }
  | .call g outcome =>
      match s.calls g with
      | some ⟨bytes, call :: rest, fd⟩ =>
          some { s with
            disk := call.run s.disk fd outcome
            calls := Function.update s.calls g
              (if outcome = .ok then some ⟨bytes, rest, call.nextFd s.disk fd⟩ else none) }
      | some ⟨_, [], _⟩ | none => none
  | .die => some { s with calls := fun _ => none }
  | .openFile =>
      match s.opened, s.disk.current (.final f) with
      | some _, _ => none
      | none, some inode => some { s with opened := some ⟨inode, []⟩ }
      | none, none => some { s with readings := s.readings ++ [none] }
  | .readPiece max =>
      match s.opened with
      | none => none
      | some ⟨inode, got⟩ =>
          let left := (s.disk.content inode).drop got.length
          some (if left.isEmpty then { s with opened := none, readings := s.readings ++ [some got] }
            else { s with opened := some ⟨inode, got ++ left.take (max + 1)⟩ })
  | .abandon => some { s with opened := none }

/-- The file as it is before anything is published. -/
structure Started (s : PublicFiles φ) : Prop where
  calls : ∀ f, s.calls f = none
  history : ∀ f, s.history f = [s.disk.read (.final f)]
  opened : s.opened = none
  readings : s.readings = []

end PublicFiles

/-! ## What the client gets -/

section Client

variable {φ : Type u} {d d' : Disk (FileName φ)} {f : φ}
  {history history' : List (Option (List UInt8))} {n : Nat}

/-- What a client has open is a whole content, and it has read the beginning. -/
structure OpenFile.Reading (file : OpenFile) (d : Disk (FileName φ))
    (history : List (Option (List UInt8))) (n : Nat) : Prop where
  closed : d.Closed file.inode
  place : history[n]? = some (some (d.content file.inode))
  got : file.got <+: d.content file.inode

/-- The places of what a client has read, has open and would open next are in order. -/
structure ReadsInOrder (d : Disk (FileName φ)) (f : φ) (history : List (Option (List UInt8)))
    (opened : Option OpenFile) (readings : List (Option (List UInt8))) : Prop where
  places : ∃ (n : Nat) (places : List Nat), history[n]? = some (d.read (.final f)) ∧
    places.Pairwise (· ≤ ·) ∧
    List.Forall₂ (fun p reading => history[p]? = some reading) places readings ∧
    (∀ p ∈ places, p ≤ n) ∧
    ∀ file, opened = some file → ∃ m ≤ n, (∀ p ∈ places, p ≤ m) ∧ file.Reading d history m

theorem getElem?_of_prefix {α : Type*} {l l' : List α} {n : Nat} {a : α} (hbegins : l <+: l')
    (hget : l[n]? = some a) : l'[n]? = some a := by
  obtain ⟨later, rfl⟩ := hbegins
  obtain ⟨hlt, -⟩ := List.getElem?_eq_some_iff.mp hget
  rwa [List.getElem?_append_left hlt]

/-- A step of the writers. What the client has open is closed to them, and a file changes
to its last content only. -/
theorem ReadsInOrder.write {opened : Option OpenFile} {readings : List (Option (List UInt8))}
    (horder : ReadsInOrder d f history opened readings) (hgrow : history <+: history')
    (hclosed : ∀ inode, d.Closed inode → d'.Closed inode ∧ d'.content inode = d.content inode)
    (hread : d'.read (.final f) = d.read (.final f) ∨
      history'.getLast? = some (d'.read (.final f))) :
    ReadsInOrder d' f history' opened readings := by
  obtain ⟨n, places, hplace, hsorted, hplaces, hle, hreading⟩ := horder
  have hplace' := getElem?_of_prefix hgrow hplace
  obtain ⟨n', hn, hread'⟩ : ∃ n', n ≤ n' ∧ history'[n']? = some (d'.read (.final f)) := by
    rcases hread with hsame | hlast
    · exact ⟨n, Nat.le_refl n, hsame ▸ hplace'⟩
    · obtain ⟨hlt, -⟩ := List.getElem?_eq_some_iff.mp hplace'
      exact ⟨history'.length - 1, by omega, by rwa [← List.getLast?_eq_getElem?]⟩
  refine ⟨n', places, hread', hsorted, hplaces.imp fun _ _ => getElem?_of_prefix hgrow,
    fun p hp => Nat.le_trans (hle p hp) hn, fun file hfile => ?_⟩
  obtain ⟨m, hm, hpm, hopen⟩ := hreading file hfile
  obtain ⟨hclosed', hcontent⟩ := hclosed _ hopen.closed
  refine ⟨m, Nat.le_trans hm hn, hpm, hclosed', ?_, ?_⟩
  · rw [hcontent]
    exact getElem?_of_prefix hgrow hopen.place
  · rw [hcontent]
    exact hopen.got

/-- The client finishes a reading. -/
theorem ReadsInOrder.finish {opened : Option OpenFile} {readings : List (Option (List UInt8))}
    (horder : ReadsInOrder d f history opened readings) {reading : Option (List UInt8)}
    (hreading : ∀ (n : Nat) (places : List Nat), history[n]? = some (d.read (.final f)) →
      (∀ p ∈ places, p ≤ n) →
      (∀ file, opened = some file → ∃ m ≤ n, (∀ p ∈ places, p ≤ m) ∧ file.Reading d history m) →
      ∃ m ≤ n, (∀ p ∈ places, p ≤ m) ∧ history[m]? = some reading) :
    ReadsInOrder d f history none (readings ++ [reading]) := by
  obtain ⟨n, places, hplace, hsorted, hplaces, hle, hopened⟩ := horder
  obtain ⟨m, hm, hpm, hnew⟩ := hreading n places hplace hle hopened
  refine ⟨n, places ++ [m], hplace, ?_, ?_, ?_, fun file hfile => by cases hfile⟩
  · exact List.pairwise_append.mpr ⟨hsorted, List.pairwise_singleton _ _, fun p hp q hq =>
      List.mem_singleton.mp hq ▸ hpm p hp⟩
  · exact List.rel_append hplaces (.cons hnew .nil)
  · intro p hp
    rcases List.mem_append.mp hp with hold | hnew
    · exact hle p hold
    · exact List.mem_singleton.mp hnew ▸ hm

end Client

namespace PublicFiles

variable {φ : Type u} [DecidableEq φ] {s s' : PublicFiles φ} {f : φ}

/-- Every writer is in one of its stages, with the last content of its file's history, and
the client's readings are in order. -/
structure InOrder (s : PublicFiles φ) (f : φ) : Prop where
  stage : ∀ g call, s.calls g = some call → PublishStage s.disk g call.bytes call.todo call.fd ∧
    (s.history g).getLast? = some (some call.bytes)
  reads : ReadsInOrder s.disk f (s.history f) s.opened s.readings

omit [DecidableEq φ] in
theorem InOrder.of_started (hstarted : s.Started) (f : φ) : s.InOrder f where
  stage := by
    intro g call hcall
    rw [hstarted.calls g] at hcall
    cases hcall
  reads := by
    rw [hstarted.history f, hstarted.opened, hstarted.readings]
    exact ⟨0, [], rfl, .nil, .nil, (fun p hp => by cases hp), fun file hfile => by cases hfile⟩

theorem InOrder.publish (hordered : s.InOrder f) {g : φ} {bytes : List UInt8}
    (hstep : s.after f (.publish g bytes) = some s') : s'.InOrder f := by
  obtain rfl := Option.some.inj hstep
  refine ⟨fun h call hcall => ?_, hordered.reads.write ?_ (fun _ hclosed => ⟨hclosed, rfl⟩)
    (Or.inl rfl)⟩
  · by_cases heq : h = g
    · subst heq
      simp only [Function.update_self, Option.some.injEq] at hcall
      subst hcall
      exact ⟨.create none, by simp⟩
    · simp only [Function.update_of_ne heq] at hcall ⊢
      exact hordered.stage h call hcall
  · by_cases heq : f = g
    · simp only [heq, Function.update_self]
      exact List.prefix_append _ _
    · simp only [Function.update_of_ne heq]
      exact List.prefix_refl _

theorem InOrder.call (hordered : s.InOrder f) {g : φ} {outcome : CallOutcome}
    (hstep : s.after f (.call g outcome) = some s') : s'.InOrder f := by
  rw [after] at hstep
  split at hstep
  next bytes call rest fd hcalls =>
    obtain rfl := Option.some.inj hstep
    obtain ⟨hstage, hlast⟩ := hordered.stage g _ hcalls
    obtain ⟨huntouched, hfile, hnext⟩ := hstage.run outcome
    refine ⟨fun h next hcall => ?_, hordered.reads.write (List.prefix_refl _)
      huntouched.closed ?_⟩
    · by_cases heq : h = g
      · subst heq
        simp only [Function.update_self] at hcall
        split at hcall
        next hok =>
          obtain rfl := Option.some.inj hcall
          exact ⟨hnext hok, hlast⟩
        next => cases hcall
      · simp only [Function.update_of_ne heq] at hcall
        obtain ⟨hother, hotherLast⟩ := hordered.stage h next hcall
        exact ⟨hother.untouched heq huntouched, hotherLast⟩
    · by_cases heq : f = g
      · subst heq
        rcases hfile with hsame | hread
        · exact Or.inl (huntouched.read_of_final hsame)
        · exact Or.inr (by rw [hread]; exact hlast)
      · exact Or.inl (huntouched.read_of_final (huntouched.final f heq))
  next => cases hstep
  next => cases hstep

theorem InOrder.openFile (hordered : s.InOrder f)
    (hstep : s.after f .openFile = some s') : s'.InOrder f := by
  rw [after] at hstep
  split at hstep
  next => cases hstep
  next inode hopened hfinal =>
    obtain rfl := Option.some.inj hstep
    obtain ⟨n, places, hplace, hsorted, hplaces, hle, -⟩ := hordered.reads
    refine ⟨hordered.stage, n, places, hplace, hsorted, hplaces, hle, ?_⟩
    rintro _ ⟨⟩
    refine ⟨n, Nat.le_refl n, hle, Disk.closed_of_final hfinal, ?_, List.nil_prefix⟩
    rwa [Disk.read, hfinal] at hplace
  next hopened hfinal =>
    obtain rfl := Option.some.inj hstep
    have hfinish : ReadsInOrder s.disk f (s.history f) none (s.readings ++ [none]) := by
      refine hordered.reads.finish fun n places hplace hle _ => ⟨n, Nat.le_refl n, hle, ?_⟩
      rwa [Disk.read, hfinal] at hplace
    exact ⟨hordered.stage, hopened ▸ hfinish⟩

theorem InOrder.readPiece (hordered : s.InOrder f) {max : Nat}
    (hstep : s.after f (.readPiece max) = some s') : s'.InOrder f := by
  rw [after] at hstep
  split at hstep
  next => cases hstep
  next inode got hopened =>
    obtain rfl := Option.some.inj hstep
    split
    next hend =>
      refine ⟨hordered.stage, hordered.reads.finish fun n places _ _ hopen => ?_⟩
      obtain ⟨m, hm, hpm, hreading⟩ := hopen _ hopened
      -- nothing is left, so all has been read
      have hlength := List.drop_eq_nil_iff.mp (List.isEmpty_iff.mp hend)
      have hwhole : got = s.disk.content inode := hreading.got.eq_of_length_le hlength
      exact ⟨m, hm, hpm, hwhole ▸ hreading.place⟩
    next =>
      obtain ⟨n, places, hplace, hsorted, hplaces, hle, hopen⟩ := hordered.reads
      refine ⟨hordered.stage, n, places, hplace, hsorted, hplaces, hle, ?_⟩
      rintro _ ⟨⟩
      obtain ⟨m, hm, hpm, hreading⟩ := hopen _ hopened
      refine ⟨m, hm, hpm, hreading.closed, hreading.place, ?_⟩
      obtain ⟨left, hleft⟩ := hreading.got
      simp only at hleft ⊢
      rw [← hleft, List.drop_left]
      exact List.prefix_append_right_inj _ |>.mpr (List.take_prefix _ _)

theorem InOrder.step (hordered : s.InOrder f) {e : PublishEvent φ}
    (hstep : s.after f e = some s') : s'.InOrder f := by
  cases e with
  | publish g bytes => exact hordered.publish hstep
  | call g outcome => exact hordered.call hstep
  | die =>
      obtain rfl := Option.some.inj hstep
      exact ⟨fun g call hcall => (by cases hcall), hordered.reads⟩
  | openFile => exact hordered.openFile hstep
  | readPiece max => exact hordered.readPiece hstep
  | abandon =>
      obtain rfl := Option.some.inj hstep
      obtain ⟨n, places, hplace, hsorted, hplaces, hle, -⟩ := hordered.reads
      exact ⟨hordered.stage, n, places, hplace, hsorted, hplaces, hle,
        fun file hfile => by cases hfile⟩

/-- A step that publishes nothing new. -/
theorem frame_of_after {e : PublishEvent φ} (hquiet : ∀ g bytes, e ≠ .publish g bytes)
    (hstep : s.after f e = some s') : s'.history = s.history ∧
      ∀ g call', s'.calls g = some call' → ∃ call, s.calls g = some call ∧
        call.bytes = call'.bytes := by
  cases e with
  | publish g bytes => exact absurd rfl (hquiet g bytes)
  | call g outcome =>
      rw [after] at hstep
      split at hstep
      next bytes call rest fd hcalls =>
        obtain rfl := Option.some.inj hstep
        refine ⟨rfl, fun h call' hcall' => ?_⟩
        by_cases heq : h = g
        · subst heq
          simp only [Function.update_self] at hcall'
          split at hcall'
          next =>
            obtain rfl := Option.some.inj hcall'
            exact ⟨_, hcalls, rfl⟩
          next => cases hcall'
        · simp only [Function.update_of_ne heq] at hcall'
          exact ⟨call', hcall', rfl⟩
      next => cases hstep
      next => cases hstep
  | die =>
      obtain rfl := Option.some.inj hstep
      exact ⟨rfl, fun g call hcall => by cases hcall⟩
  | openFile =>
      rw [after] at hstep
      split at hstep
      next => cases hstep
      next =>
        obtain rfl := Option.some.inj hstep
        exact ⟨rfl, fun g call hcall => ⟨call, hcall, rfl⟩⟩
      next =>
        obtain rfl := Option.some.inj hstep
        exact ⟨rfl, fun g call hcall => ⟨call, hcall, rfl⟩⟩
  | readPiece max =>
      rw [after] at hstep
      split at hstep
      next => cases hstep
      next =>
        obtain rfl := Option.some.inj hstep
        split <;> exact ⟨rfl, fun g call hcall => ⟨call, hcall, rfl⟩⟩
  | abandon =>
      obtain rfl := Option.some.inj hstep
      exact ⟨rfl, fun g call hcall => ⟨call, hcall, rfl⟩⟩

omit [DecidableEq φ] in
/-- After its last call a writer has left its content in the file. -/
theorem InOrder.read_of_done (hordered : s.InOrder f) {g : φ} {call : Publishing φ}
    (hcall : s.calls g = some call) (hdone : call.todo = []) :
    s.disk.read (.final g) = some call.bytes := by
  have hstage := (hordered.stage g call hcall).1
  rw [hdone] at hstage
  cases hstage with
  | done _ hread => exact hread

end PublicFiles

end PgReplica.Foundation
