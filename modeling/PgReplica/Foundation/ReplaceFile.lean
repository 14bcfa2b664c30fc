import PgReplica.Foundation.Disk

/-! # Replacing a file through a temporary twin

Every file has a second name for its next content. A writer creates the twin,
writes and syncs it, renames it over the file and syncs the directory. Any of
these calls may fail, with or without its effect, and other writers may work in
the same directory between them. The rules below say what one call does to the
files, read now or after a crash, and what it leaves to the other writers.
-/

namespace PgReplica.Foundation

universe u

/-- A file and its temporary twin. -/
inductive FileName (φ : Type u) where
  | tmp (f : φ)
  | final (f : φ)
deriving DecidableEq

/-! ## System calls -/

/-- The calls of a writer. The file calls go to the file it opened last. -/
inductive Syscall (ν : Type u) where
  | create (name : ν)
  | writeAll (bytes : List UInt8)
  | syncFile
  | rename (src dst : ν)
  | openDir
  | syncDir
deriving DecidableEq

/-- How a call ends. A call that is reported as failed may have had its effect,
and a write may have been cut short. -/
inductive CallOutcome where
  | ok
  | failed
  | failedAfterEffect
  | short (written : Nat)
deriving DecidableEq

namespace Syscall

variable {ν : Type u} [DecidableEq ν]

/-- What a call does to the disk. -/
def effect (call : Syscall ν) (d : Disk ν) (fd : Option Nat) : Disk ν :=
  match call with
  | create name => d.create name
  | writeAll bytes => (fd.map fun inode => d.append inode bytes).getD d
  | syncFile => (fd.map d.syncFile).getD d
  | rename src dst => d.rename src dst
  | openDir => d
  | syncDir => d.syncDir

/-- The disk after a call with its outcome. -/
def run (call : Syscall ν) (d : Disk ν) (fd : Option Nat) : CallOutcome → Disk ν
  | .ok | .failedAfterEffect => call.effect d fd
  | .failed => d
  | .short written =>
      match call with
      | writeAll bytes => (writeAll (bytes.take written)).effect d fd
      | _ => d

/-- The file that is open after the call. -/
def nextFd (call : Syscall ν) (d : Disk ν) (fd : Option Nat) : Option Nat :=
  match call with
  | create name => some (d.opened name)
  | _ => fd

end Syscall

/-- The calls that replace the content of a file. -/
def replaceFile {φ : Type u} (f : φ) (bytes : List UInt8) : List (Syscall (FileName φ)) :=
  [.create (.tmp f), .writeAll bytes, .syncFile, .rename (.tmp f) (.final f), .openDir, .syncDir]

namespace Disk

variable {φ : Type u} {d d' : Disk (FileName φ)} {f g : φ} {inode : Nat}

/-- Every file is synced under each directory that a crash may leave, and no twin
shares its inode with one of them. -/
structure Sealed (d : Disk (FileName φ)) : Prop where
  synced : ∀ dir ∈ d.views, ∀ f inode, dir (.final f) = some inode → d.synced inode = true
  apart : ∀ f inode, d.current (.tmp f) = some inode → ∀ dir ∈ d.views, ∀ g,
    dir (.final g) ≠ some inode

/-- What a call of the writer of `f` does not change. -/
structure Frame (f : φ) (d d' : Disk (FileName φ)) : Prop where
  isSealed : d'.Sealed
  read : ∀ g, g ≠ f → d'.read (.final g) = d.read (.final g)
  images : ∀ g, g ≠ f → d'.images (.final g) ⊆ d.images (.final g)
  twin : ∀ g, g ≠ f → ∀ inode, d.current (.tmp g) = some inode →
    d'.current (.tmp g) = some inode ∧ d'.content inode = d.content inode ∧
      (d.synced inode = true → d'.synced inode = true)

/-- The file reads as before, and no new content can appear in it after a crash. -/
structure Kept (name : FileName φ) (d d' : Disk (FileName φ)) : Prop where
  read : d'.read name = d.read name
  images : d'.images name ⊆ d.images name

/-- The file has a new content, and a crash may bring an earlier one back. -/
structure Replaced (name : FileName φ) (bytes : List UInt8) (d d' : Disk (FileName φ)) :
    Prop where
  read : d'.read name = some bytes
  images : d'.images name ⊆ some bytes :: d.images name

theorem Kept.refl (name : FileName φ) (d : Disk (FileName φ)) : Kept name d d :=
  ⟨rfl, List.Subset.refl _⟩

theorem Frame.refl (hsealed : d.Sealed) : Frame f d d :=
  ⟨hsealed, fun _ _ => rfl, fun _ _ => List.Subset.refl _, fun _ _ _ h => ⟨h, rfl, id⟩⟩

/-- Where no directory in force has an inode of changed content, nothing is seen. -/
private theorem map_content_congr {dir : Directory (FileName φ)} {name : FileName φ}
    (hsame : ∀ inode, dir name = some inode → d'.content inode = d.content inode) :
    (dir name).map d'.content = (dir name).map d.content :=
  Option.map_congr fun inode hinode => hsame inode (Option.mem_def.mp hinode)

/-- Files keep their readings when the directories in force for them are old ones
and their contents are untouched. -/
private theorem Kept.of_views {name : FileName φ}
    (hcurrent : d'.current name = d.current name)
    (hviews : ∀ dir ∈ d'.views, ∃ old ∈ d.views, dir name = old name)
    (hcontent : ∀ dir ∈ d.views, ∀ inode, dir name = some inode →
      d'.content inode = d.content inode) : Kept name d d' where
  read := by
    rw [Disk.read, Disk.read, hcurrent]
    exact map_content_congr (hcontent _ d.current_mem_views)
  images := by
    intro image himage
    obtain ⟨dir, hdir, rfl⟩ := List.mem_map.mp himage
    obtain ⟨old, hold, hsame⟩ := hviews dir hdir
    rw [hsame, map_content_congr (hcontent old hold)]
    exact List.mem_map.mpr ⟨old, hold, rfl⟩

/-! ## Changing the twin -/

/-- The content of the twin may change: nothing else is seen. -/
theorem kept_setContent (hsealed : d.Sealed) (htwin : d.current (.tmp f) = some inode)
    (bytes : List UInt8) (g : φ) : Kept (.final g) d (d.setContent inode bytes) := by
  refine Kept.of_views rfl (fun dir hdir => ⟨dir, hdir, rfl⟩) ?_
  intro dir hdir other hother
  have hne : other ≠ inode := by
    rintro rfl
    exact hsealed.apart f _ htwin dir hdir g hother
  simp [setContent, Function.update_of_ne hne]

theorem frame_setContent (hsealed : d.Sealed) (htwin : d.current (.tmp f) = some inode)
    (bytes : List UInt8) : Frame f d (d.setContent inode bytes) where
  isSealed := by
    refine ⟨fun dir hdir g other hother => ?_, hsealed.apart⟩
    have hne : other ≠ inode := by
      rintro rfl
      exact hsealed.apart f _ htwin dir hdir g hother
    simpa [setContent, Function.update_of_ne hne] using hsealed.synced dir hdir g other hother
  read := fun g _ => (kept_setContent hsealed htwin bytes g).read
  images := fun g _ => (kept_setContent hsealed htwin bytes g).images
  twin := by
    intro g hne other hother
    have hapart : other ≠ inode := by
      rintro rfl
      have hname := d.inj _ List.mem_cons_self _ _ _ hother htwin
      exact hne (FileName.tmp.inj hname)
    simp [setContent, Function.update_of_ne hapart, hother]

theorem frame_syncFile (hsealed : d.Sealed) (f : φ) (inode : Nat) :
    Frame f d (d.syncFile inode) where
  isSealed := by
    refine ⟨fun dir hdir g other hother => ?_, hsealed.apart⟩
    have hsynced := hsealed.synced dir hdir g other hother
    by_cases heq : other = inode
    · simp [syncFile, heq]
    · simpa [syncFile, Function.update_of_ne heq] using hsynced
  read := fun _ _ => rfl
  images := fun _ _ => List.Subset.refl _
  twin := by
    intro g _ other hother
    refine ⟨hother, rfl, fun hsynced => ?_⟩
    by_cases heq : other = inode
    · simp [syncFile, heq]
    · simpa [syncFile, Function.update_of_ne heq] using hsynced

/-! ## Syncing the directory, and crashes -/

theorem kept_syncDir (d : Disk (FileName φ)) (name : FileName φ) : Kept name d d.syncDir where
  read := rfl
  images := by
    intro image himage
    rw [images, views, syncDir, List.map_singleton, List.mem_singleton] at himage
    rw [himage]
    exact d.read_mem_images name

theorem frame_syncDir (hsealed : d.Sealed) (f : φ) : Frame f d d.syncDir where
  isSealed := by
    constructor
    · intro dir hdir
      rw [List.mem_singleton.mp hdir]
      exact hsealed.synced _ d.current_mem_views
    · intro g inode htwin dir hdir
      rw [List.mem_singleton.mp hdir]
      exact hsealed.apart g inode htwin _ d.current_mem_views
  read := fun _ _ => rfl
  images := fun g _ => (kept_syncDir d (.final g)).images
  twin := fun _ _ _ htwin => ⟨htwin, rfl, id⟩

/-- After the sync only the current content is left. -/
theorem images_syncDir (d : Disk (FileName φ)) (name : FileName φ) :
    d.syncDir.images name = [d.read name] := rfl

theorem Settled.isSealed (hsettled : d.Settled) : d.Sealed where
  synced := fun _ _ _ inode _ => hsettled.synced inode
  apart := by
    intro f inode htwin dir hdir g hfinal
    rw [views, hsettled.older, List.mem_singleton] at hdir
    rw [hdir] at hfinal
    cases d.inj _ List.mem_cons_self _ _ _ htwin hfinal

theorem Settled.images (hsettled : d.Settled) (name : FileName φ) :
    d.images name = [d.read name] := by
  rw [Disk.images, views, hsettled.older]
  rfl

/-- A crash leaves one of the contents that the file could read as. -/
theorem read_crash_mem_images (hsealed : d.Sealed) (k : Nat) (junk : Nat → List UInt8) (f : φ) :
    (d.crash k junk).read (.final f) ∈ d.images (.final f) := by
  refine List.mem_map.mpr ⟨d.survivor k, d.survivor_mem_views k, ?_⟩
  symm
  refine map_content_congr (d := d) fun inode hinode => ?_
  simp [crash, hsealed.synced _ (d.survivor_mem_views k) f inode hinode]

/-! ## Creating the twin and renaming it -/

variable [DecidableEq φ]

theorem kept_addFile (d : Disk (FileName φ)) (f g : φ) :
    Kept (.final g) d (d.addFile (.tmp f)) := by
  refine Kept.of_views ?_ ?_ ?_
  · simp [addFile, withFresh]
  · intro dir hdir
    rcases List.mem_cons.mp hdir with rfl | hold
    · exact ⟨d.current, d.current_mem_views, by simp [addFile, withFresh]⟩
    · exact ⟨dir, hold, rfl⟩
  · intro dir hdir inode hinode
    have hlt := d.lt_fresh dir hdir _ _ hinode
    simp [addFile, Function.update_of_ne (Nat.ne_of_lt hlt)]

theorem frame_addFile (hsealed : d.Sealed) (f : φ) : Frame f d (d.addFile (.tmp f)) where
  isSealed := by
    constructor
    · intro dir hdir g inode hinode
      have hold : ∃ old ∈ d.views, old (.final g) = some inode := by
        rcases List.mem_cons.mp hdir with rfl | hold
        · exact ⟨d.current, d.current_mem_views, by simpa [addFile, withFresh] using hinode⟩
        · exact ⟨dir, hold, hinode⟩
      obtain ⟨old, hmem, hlookup⟩ := hold
      have hlt := d.lt_fresh old hmem _ _ hlookup
      have hsynced := hsealed.synced old hmem g inode hlookup
      simpa [addFile, Function.update_of_ne (Nat.ne_of_lt hlt)] using hsynced
    · intro g inode htwin dir hdir h hfinal
      have hold : ∃ old ∈ d.views, old (.final h) = some inode := by
        rcases List.mem_cons.mp hdir with rfl | hold
        · exact ⟨d.current, d.current_mem_views, by simpa [addFile, withFresh] using hfinal⟩
        · exact ⟨dir, hold, hfinal⟩
      obtain ⟨old, hmem, hlookup⟩ := hold
      rcases d.current_of_withFresh htwin with ⟨-, rfl⟩ | ⟨-, hcurrent⟩
      · exact absurd (d.lt_fresh old hmem _ _ hlookup) (Nat.lt_irrefl _)
      · exact hsealed.apart g inode hcurrent old hmem h hlookup
  read := fun g _ => (kept_addFile d f g).read
  images := fun g _ => (kept_addFile d f g).images
  twin := by
    intro g hne inode htwin
    have hlt := d.lt_fresh _ d.current_mem_views _ _ htwin
    simp [addFile, withFresh, Function.update_of_ne (Nat.ne_of_lt hlt), hne, htwin]

theorem kept_create (hsealed : d.Sealed) (f g : φ) :
    Kept (.final g) d (d.create (.tmp f)) := by
  unfold create
  split
  next inode htwin => exact kept_setContent hsealed htwin [] g
  next => exact kept_addFile d f g

theorem frame_create (hsealed : d.Sealed) (f : φ) : Frame f d (d.create (.tmp f)) := by
  unfold create
  split
  next inode htwin => exact frame_setContent hsealed htwin []
  next => exact frame_addFile hsealed f

/-- The file that `create` opens is the twin, empty. -/
theorem create_twin (d : Disk (FileName φ)) (f : φ) :
    (d.create (.tmp f)).current (.tmp f) = some (d.opened (.tmp f)) ∧
      (d.create (.tmp f)).content (d.opened (.tmp f)) = [] := by
  unfold create opened
  split
  next inode htwin => simp [setContent, htwin]
  next hnone => simp [addFile, withFresh, hnone]

theorem movedName_final (htwin : d.current (.tmp f) = some inode) (g : φ) :
    d.movedName (.tmp f) (.final f) (.final g) =
      if g = f then some inode else d.current (.final g) := by
  by_cases heq : g = f <;> simp [movedName, heq, htwin]

theorem movedName_tmp (d : Disk (FileName φ)) (f g : φ) :
    d.movedName (.tmp f) (.final f) (.tmp g) = if g = f then none else d.current (.tmp g) := by
  by_cases heq : g = f <;> simp [movedName, heq]

/-- Another file reads the same through the new directory. -/
theorem kept_rename (htwin : d.current (.tmp f) = some inode) (hne : g ≠ f) :
    Kept (.final g) d (d.rename (.tmp f) (.final f)) := by
  rw [rename, if_neg (by simp [htwin])]
  refine Kept.of_views ?_ ?_ (fun _ _ _ _ => rfl)
  · exact (movedName_final htwin g).trans (if_neg hne)
  · intro dir hdir
    rcases List.mem_cons.mp hdir with rfl | hold
    · exact ⟨d.current, d.current_mem_views, (movedName_final htwin g).trans (if_neg hne)⟩
    · exact ⟨dir, hold, rfl⟩

theorem frame_rename (hsealed : d.Sealed) (htwin : d.current (.tmp f) = some inode)
    (hsynced : d.synced inode = true) : Frame f d (d.rename (.tmp f) (.final f)) where
  isSealed := by
    rw [rename, if_neg (by simp [htwin])]
    constructor
    · intro dir hdir g other hother
      rcases List.mem_cons.mp hdir with rfl | hold
      · replace hother := (movedName_final htwin g).symm.trans hother
        split at hother
        next => rwa [← Option.some.inj hother]
        next => exact hsealed.synced _ d.current_mem_views g other hother
      · exact hsealed.synced dir hold g other hother
    · intro g other hother dir hdir h hfinal
      replace hother := (movedName_tmp d f g).symm.trans hother
      split at hother
      next => cases hother
      next hne =>
        rcases List.mem_cons.mp hdir with rfl | hold
        · replace hfinal := (movedName_final htwin h).symm.trans hfinal
          split at hfinal
          next =>
            -- the twin of another file is another inode
            obtain rfl := Option.some.inj hfinal
            exact hne (FileName.tmp.inj (d.inj _ List.mem_cons_self _ _ _ hother htwin))
          next => exact hsealed.apart g other hother _ d.current_mem_views h hfinal
        · exact hsealed.apart g other hother dir hold h hfinal
  read := fun _ hne => (kept_rename htwin hne).read
  images := fun _ hne => (kept_rename htwin hne).images
  twin := by
    intro g hne other hother
    rw [rename, if_neg (by simp [htwin])]
    exact ⟨((movedName_tmp d f g).trans (if_neg hne)).trans hother, rfl, id⟩

theorem replaced_rename (htwin : d.current (.tmp f) = some inode) :
    Replaced (.final f) (d.content inode) d (d.rename (.tmp f) (.final f)) := by
  have hfinal := (movedName_final htwin f).trans (if_pos rfl)
  rw [rename, if_neg (by simp [htwin])]
  constructor
  · change (d.movedName (.tmp f) (.final f) (.final f)).map d.content = _
    rw [hfinal]
    rfl
  · change (d.movedName (.tmp f) (.final f) (.final f)).map d.content :: d.images (.final f) ⊆ _
    rw [hfinal]
    exact List.Subset.refl _

end Disk

/-! ## The stages of a writer -/

section Writer

variable {φ : Type u} {d d' : Disk (FileName φ)} {f g : φ}
  {bytes : List UInt8} {call : Syscall (FileName φ)} {rest : List (Syscall (FileName φ))}
  {fd : Option Nat}

/-- What the calls of `replaceFile` that are left can rely on. -/
inductive WriteStage (d : Disk (FileName φ)) (f : φ) (bytes : List UInt8) :
    List (Syscall (FileName φ)) → Option Nat → Prop
  | create (fd : Option Nat) : WriteStage d f bytes (replaceFile f bytes) fd
  | write (inode : Nat) (htwin : d.current (.tmp f) = some inode)
      (hcontent : d.content inode = []) :
      WriteStage d f bytes
        [.writeAll bytes, .syncFile, .rename (.tmp f) (.final f), .openDir, .syncDir] (some inode)
  | sync (inode : Nat) (htwin : d.current (.tmp f) = some inode)
      (hcontent : d.content inode = bytes) :
      WriteStage d f bytes
        [.syncFile, .rename (.tmp f) (.final f), .openDir, .syncDir] (some inode)
  | rename (inode : Nat) (htwin : d.current (.tmp f) = some inode)
      (hcontent : d.content inode = bytes) (hsynced : d.synced inode = true) :
      WriteStage d f bytes [.rename (.tmp f) (.final f), .openDir, .syncDir] (some inode)
  | openDir (fd : Option Nat) (hread : d.read (.final f) = some bytes) :
      WriteStage d f bytes [.openDir, .syncDir] fd
  | syncDir (fd : Option Nat) (hread : d.read (.final f) = some bytes) :
      WriteStage d f bytes [.syncDir] fd
  | done (fd : Option Nat) (hread : d.read (.final f) = some bytes)
      (himages : d.images (.final f) ⊆ [some bytes]) : WriteStage d f bytes [] fd

/-- A writer is not disturbed by the calls of another one. -/
theorem WriteStage.frame {todo : List (Syscall (FileName φ))}
    (hstage : WriteStage d f bytes todo fd) (hne : f ≠ g) (hframe : Disk.Frame g d d') :
    WriteStage d' f bytes todo fd := by
  cases hstage with
  | create => exact .create fd
  | write inode htwin hcontent =>
      obtain ⟨htwin', hcontent', -⟩ := hframe.twin f hne inode htwin
      exact .write inode htwin' (hcontent'.trans hcontent)
  | sync inode htwin hcontent =>
      obtain ⟨htwin', hcontent', -⟩ := hframe.twin f hne inode htwin
      exact .sync inode htwin' (hcontent'.trans hcontent)
  | rename inode htwin hcontent hsynced =>
      obtain ⟨htwin', hcontent', hsynced'⟩ := hframe.twin f hne inode htwin
      exact .rename inode htwin' (hcontent'.trans hcontent) (hsynced' hsynced)
  | openDir _ hread => exact .openDir _ ((hframe.read f hne).trans hread)
  | syncDir _ hread => exact .syncDir _ ((hframe.read f hne).trans hread)
  | done _ hread himages =>
      exact .done _ ((hframe.read f hne).trans hread)
        (List.Subset.trans (hframe.images f hne) himages)

variable [DecidableEq φ]

/-- A call that has its effect changes nothing for the others, keeps the file or
replaces it, and leads to the next stage. -/
theorem WriteStage.effect (hsealed : d.Sealed) (hstage : WriteStage d f bytes (call :: rest) fd) :
    Disk.Frame f d (call.effect d fd) ∧
      (Disk.Kept (.final f) d (call.effect d fd) ∨
        Disk.Replaced (.final f) bytes d (call.effect d fd)) ∧
      WriteStage (call.effect d fd) f bytes rest (call.nextFd d fd) := by
  cases hstage with
  | create =>
      obtain ⟨htwin, hcontent⟩ := d.create_twin f
      exact ⟨Disk.frame_create hsealed f, Or.inl (Disk.kept_create hsealed f f),
        .write _ htwin hcontent⟩
  | write inode htwin hcontent =>
      refine ⟨Disk.frame_setContent hsealed htwin _,
        Or.inl (Disk.kept_setContent hsealed htwin _ f), .sync inode htwin ?_⟩
      simp [Syscall.effect, Disk.append, Disk.setContent, hcontent]
  | sync inode htwin hcontent =>
      refine ⟨Disk.frame_syncFile hsealed f inode, Or.inl ⟨rfl, List.Subset.refl _⟩,
        .rename inode htwin hcontent ?_⟩
      simp [Syscall.effect, Disk.syncFile]
  | rename inode htwin hcontent hsynced =>
      have hreplaced := Disk.replaced_rename htwin
      rw [hcontent] at hreplaced
      exact ⟨Disk.frame_rename hsealed htwin hsynced, Or.inr hreplaced, .openDir _ hreplaced.read⟩
  | openDir _ hread => exact ⟨.refl hsealed, Or.inl (.refl _ d), .syncDir _ hread⟩
  | syncDir _ hread =>
      refine ⟨Disk.frame_syncDir hsealed f, Or.inl (d.kept_syncDir _), .done _ hread ?_⟩
      change d.syncDir.images (.final f) ⊆ _
      rw [d.images_syncDir, hread]
      exact List.Subset.refl _

/-- A call with any outcome. Only after `ok` does the writer go on. -/
theorem WriteStage.run (hsealed : d.Sealed) (hstage : WriteStage d f bytes (call :: rest) fd)
    (outcome : CallOutcome) :
    Disk.Frame f d (call.run d fd outcome) ∧
      (Disk.Kept (.final f) d (call.run d fd outcome) ∨
        Disk.Replaced (.final f) bytes d (call.run d fd outcome)) ∧
      (outcome = .ok → WriteStage (call.run d fd outcome) f bytes rest (call.nextFd d fd)) := by
  obtain ⟨hframe, hfile, hnext⟩ := hstage.effect hsealed
  cases outcome with
  | ok => exact ⟨hframe, hfile, fun _ => hnext⟩
  | failedAfterEffect => exact ⟨hframe, hfile, fun h => nomatch h⟩
  | failed => exact ⟨.refl hsealed, Or.inl (.refl _ d), fun h => nomatch h⟩
  | short written =>
      cases hstage with
      | write inode htwin _ =>
          exact ⟨Disk.frame_setContent hsealed htwin _,
            Or.inl (Disk.kept_setContent hsealed htwin _ f), fun h => nomatch h⟩
      | create | sync | rename | openDir | syncDir =>
          exact ⟨.refl hsealed, Or.inl (.refl _ d), fun h => nomatch h⟩

end Writer

end PgReplica.Foundation
