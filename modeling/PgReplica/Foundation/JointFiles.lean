import PgReplica.Foundation.ReplaceFile

/-! # The files of a directory together

A crash falls back to a whole directory, so the files it leaves are the ones that
were there together at one time. What a call of one writer does to all files at
once.
-/

namespace PgReplica.Foundation

universe u

namespace Disk

variable {φ : Type u} {d d' : Disk (FileName φ)} {f : φ} {inode : Nat}
  {P : (φ → Option (List UInt8)) → Prop}

/-- What the files hold under a directory. -/
def filesUnder (d : Disk (FileName φ)) (dir : Directory (FileName φ)) :
    φ → Option (List UInt8) :=
  fun f => (dir (.final f)).map d.content

/-- What the files hold now. -/
def files (d : Disk (FileName φ)) : φ → Option (List UInt8) :=
  fun f => d.read (.final f)

/-- The files have a property together, now and after any crash. -/
def Always (P : (φ → Option (List UInt8)) → Prop) (d : Disk (FileName φ)) : Prop :=
  ∀ dir ∈ d.views, P (d.filesUnder dir)

theorem Always.files (halways : Always P d) : P d.files :=
  halways _ d.current_mem_views

/-- On a disk that can lose nothing now is always. -/
theorem Settled.always (hsettled : d.Settled) (hfiles : P d.files) : Always P d := by
  intro dir hdir
  rw [views, hsettled.older, List.mem_singleton] at hdir
  exact hdir ▸ hfiles

/-- The files are as before, and under every directory that a crash may leave they are as
under one of the earlier ones. -/
structure FilesKept (d d' : Disk (FileName φ)) : Prop where
  files : d'.files = d.files
  views : ∀ dir' ∈ d'.views, ∃ dir ∈ d.views, d'.filesUnder dir' = d.filesUnder dir

theorem FilesKept.refl (d : Disk (FileName φ)) : FilesKept d d :=
  ⟨rfl, fun dir hdir => ⟨dir, hdir, rfl⟩⟩

theorem FilesKept.always (hkept : FilesKept d d') (halways : Always P d) : Always P d' := by
  intro dir' hdir'
  obtain ⟨dir, hdir, hsame⟩ := hkept.views dir' hdir'
  rw [hsame]
  exact halways dir hdir

/-- Directories that agree on the files, over contents that are untouched. -/
theorem FilesKept.of_views (hcurrent : ∀ g, d'.current (.final g) = d.current (.final g))
    (hviews : ∀ dir' ∈ d'.views, ∃ dir ∈ d.views, ∀ g, dir' (.final g) = dir (.final g))
    (hcontent : ∀ dir ∈ d.views, ∀ g inode, dir (.final g) = some inode →
      d'.content inode = d.content inode) : FilesKept d d' := by
  have hunder : ∀ dir' dir, dir ∈ d.views → (∀ g, dir' (.final g) = dir (.final g)) →
      d'.filesUnder dir' = d.filesUnder dir := by
    intro dir' dir hdir hsame
    funext g
    rw [filesUnder, filesUnder, hsame]
    exact Option.map_congr fun inode hinode => hcontent dir hdir g inode (Option.mem_def.mp hinode)
  refine ⟨hunder _ _ d.current_mem_views hcurrent, fun dir' hdir' => ?_⟩
  obtain ⟨dir, hdir, hsame⟩ := hviews dir' hdir'
  exact ⟨dir, hdir, hunder dir' dir hdir hsame⟩

theorem filesKept_setContent (hsealed : d.Sealed) (htwin : d.current (.tmp f) = some inode)
    (bytes : List UInt8) : FilesKept d (d.setContent inode bytes) := by
  refine FilesKept.of_views (fun _ => rfl) (fun dir hdir => ⟨dir, hdir, fun _ => rfl⟩) ?_
  intro dir hdir g other hother
  have hne : other ≠ inode := by
    rintro rfl
    exact hsealed.apart f _ htwin dir hdir g hother
  simp [setContent, Function.update_of_ne hne]

theorem filesKept_syncDir (d : Disk (FileName φ)) : FilesKept d d.syncDir := by
  refine ⟨rfl, fun dir hdir => ⟨d.current, d.current_mem_views, ?_⟩⟩
  rw [List.mem_singleton.mp hdir]
  rfl

/-- What a crash leaves is what was there together under one directory. -/
theorem files_crash (hsealed : d.Sealed) (survivor : Nat) (junk : Nat → List UInt8) :
    (d.crash survivor junk).files = d.filesUnder (d.survivor survivor) := by
  funext g
  refine Option.map_congr fun inode hinode => ?_
  have hsynced := hsealed.synced _ (d.survivor_mem_views survivor) g inode
    (Option.mem_def.mp hinode)
  simp [crash, hsynced]

theorem Always.crash (halways : Always P d) (hsealed : d.Sealed) (survivor : Nat)
    (junk : Nat → List UInt8) : Always P (d.crash survivor junk) := by
  refine (d.settled_crash survivor junk).always ?_
  rw [files_crash hsealed survivor junk]
  exact halways _ (d.survivor_mem_views survivor)

variable [DecidableEq φ]

/-- One file has a new content beside what the others hold now. -/
structure FileReplaced (f : φ) (bytes : List UInt8) (d d' : Disk (FileName φ)) : Prop where
  files : d'.files = Function.update d.files f (some bytes)
  views : ∀ dir' ∈ d'.views, d'.filesUnder dir' = d'.files ∨
    ∃ dir ∈ d.views, d'.filesUnder dir' = d.filesUnder dir

theorem FileReplaced.always {bytes : List UInt8} (hreplaced : FileReplaced f bytes d d')
    (halways : Always P d) (hnow : P (Function.update d.files f (some bytes))) :
    Always P d' := by
  intro dir' hdir'
  rcases hreplaced.views dir' hdir' with hsame | ⟨dir, hdir, hsame⟩
  · rwa [hsame, hreplaced.files]
  · rw [hsame]
    exact halways dir hdir

theorem filesKept_create (hsealed : d.Sealed) (f : φ) : FilesKept d (d.create (.tmp f)) := by
  unfold create
  split
  next inode htwin => exact filesKept_setContent hsealed htwin []
  next =>
    refine FilesKept.of_views (fun g => by simp [addFile, withFresh]) (fun dir hdir => ?_) ?_
    · rcases List.mem_cons.mp hdir with rfl | hold
      · exact ⟨d.current, d.current_mem_views, fun g => by simp [addFile, withFresh]⟩
      · exact ⟨dir, hold, fun _ => rfl⟩
    · intro dir hdir g inode hinode
      have hlt := d.lt_fresh dir hdir _ _ hinode
      simp [addFile, Function.update_of_ne (Nat.ne_of_lt hlt)]

theorem fileReplaced_rename (htwin : d.current (.tmp f) = some inode) :
    FileReplaced f (d.content inode) d (d.rename (.tmp f) (.final f)) := by
  rw [rename, if_neg (by simp [htwin])]
  constructor
  · funext g
    change (d.movedName (.tmp f) (.final f) (.final g)).map d.content = _
    rw [movedName_final htwin]
    by_cases heq : g = f
    · simp [heq]
    · rw [if_neg heq, Function.update_of_ne heq]
      rfl
  · intro dir hdir
    rcases List.mem_cons.mp hdir with rfl | hold
    · exact Or.inl rfl
    · exact Or.inr ⟨dir, hold, rfl⟩

end Disk

variable {φ : Type u} [DecidableEq φ] {d : Disk (FileName φ)} {f : φ} {bytes : List UInt8}
  {call : Syscall (FileName φ)} {rest : List (Syscall (FileName φ))} {fd : Option Nat}

/-- A call of the writer of one file, with any outcome: the rename is the only one that
shows, and it shows one file replaced beside the current others. -/
theorem WriteStage.files_run (hsealed : d.Sealed) (hstage : WriteStage d f bytes (call :: rest) fd)
    (outcome : CallOutcome) :
    Disk.FilesKept d (call.run d fd outcome) ∨
      Disk.FileReplaced f bytes d (call.run d fd outcome) := by
  have heffect : Disk.FilesKept d (call.effect d fd) ∨
      Disk.FileReplaced f bytes d (call.effect d fd) := by
    cases hstage with
    | create => exact Or.inl (Disk.filesKept_create hsealed f)
    | write inode htwin => exact Or.inl (Disk.filesKept_setContent hsealed htwin _)
    | sync inode => exact Or.inl ⟨rfl, fun dir hdir => ⟨dir, hdir, rfl⟩⟩
    | rename inode htwin hcontent =>
        rw [← hcontent]
        exact Or.inr (Disk.fileReplaced_rename htwin)
    | openDir => exact Or.inl (.refl d)
    | syncDir => exact Or.inl d.filesKept_syncDir
  cases outcome with
  | ok | failedAfterEffect => exact heffect
  | failed => exact Or.inl (.refl d)
  | short written =>
      cases hstage with
      | write inode htwin => exact Or.inl (Disk.filesKept_setContent hsealed htwin _)
      | create | sync | rename | openDir | syncDir => exact Or.inl (.refl d)

end PgReplica.Foundation
