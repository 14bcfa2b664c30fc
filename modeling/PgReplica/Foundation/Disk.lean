import Mathlib.Data.List.Basic
import Mathlib.Logic.Function.Basic

/-! # Files that a crash can undo

One directory over numbered inodes. A write is lost or garbled by a crash until
its inode is synced, and a change of the directory is lost or kept until the
directory is synced. A crash falls back to any directory since its last sync,
always to a whole one: a rename is atomic.
-/

namespace PgReplica.Foundation

universe u

/-- The inode that each name refers to. -/
abbrev Directory (ν : Type u) : Type u := ν → Option Nat

/-- `content` and `current` are what reads see. `older` are the directories that
a crash may fall back to besides the current one. -/
structure Disk (ν : Type u) where
  content : Nat → List UInt8
  synced : Nat → Bool
  current : Directory ν
  older : List (Directory ν)
  fresh : Nat
  lt_fresh : ∀ dir ∈ current :: older, ∀ name inode, dir name = some inode → inode < fresh
  inj : ∀ dir ∈ current :: older, ∀ a b inode, dir a = some inode → dir b = some inode → a = b

namespace Disk

variable {ν : Type u} (d : Disk ν)

/-- Every directory that may be in force after a crash. -/
def views : List (Directory ν) :=
  d.current :: d.older

theorem current_mem_views : d.current ∈ d.views :=
  List.mem_cons_self

def read (name : ν) : Option (List UInt8) :=
  (d.current name).map d.content

/-- What a name may read as after a crash, when its inodes are synced. -/
def images (name : ν) : List (Option (List UInt8)) :=
  d.views.map fun dir => (dir name).map d.content

theorem read_mem_images (name : ν) : d.read name ∈ d.images name :=
  List.mem_cons_self

/-- Nothing on the disk can be lost. -/
structure Settled : Prop where
  older : d.older = []
  synced : ∀ inode, d.synced inode = true

/-! ## Operations -/

/-- Replace the content of an inode; it is not synced then. -/
def setContent (inode : Nat) (bytes : List UInt8) : Disk ν :=
  { d with
    content := Function.update d.content inode bytes
    synced := Function.update d.synced inode false }

/-- `write_all` at the end of a file. -/
def append (inode : Nat) (bytes : List UInt8) : Disk ν :=
  d.setContent inode (d.content inode ++ bytes)

/-- `sync_all` on a file. -/
def syncFile (inode : Nat) : Disk ν :=
  { d with synced := Function.update d.synced inode true }

/-- `sync_all` on the directory. -/
def syncDir : Disk ν :=
  { d with
    older := []
    lt_fresh := fun dir hdir => d.lt_fresh dir (List.mem_cons.mpr (Or.inl (by simpa using hdir)))
    inj := fun dir hdir => d.inj dir (List.mem_cons.mpr (Or.inl (by simpa using hdir))) }

/-- The directory that a crash leaves: one of those since the last sync. -/
def survivor (k : Nat) : Directory ν :=
  d.views.getD k d.current

theorem survivor_mem_views (k : Nat) : d.survivor k ∈ d.views := by
  rw [survivor, List.getD_eq_getElem?_getD]
  cases hlookup : d.views[k]? with
  | none => exact d.current_mem_views
  | some dir => exact List.mem_of_getElem? hlookup

/-- A crash. Inodes that are not synced hold anything afterwards; whatever is
there now is on the medium. -/
def crash (k : Nat) (junk : Nat → List UInt8) : Disk ν where
  content := fun inode => if d.synced inode then d.content inode else junk inode
  synced := fun _ => true
  current := d.survivor k
  older := []
  fresh := d.fresh
  lt_fresh := fun dir hdir => by
    rw [List.mem_singleton.mp hdir]
    exact d.lt_fresh _ (d.survivor_mem_views k)
  inj := fun dir hdir => by
    rw [List.mem_singleton.mp hdir]
    exact d.inj _ (d.survivor_mem_views k)

theorem settled_crash (k : Nat) (junk : Nat → List UInt8) : (d.crash k junk).Settled :=
  ⟨rfl, fun _ => rfl⟩

variable [DecidableEq ν]

/-- The directory with one name removed and its inode under another name. -/
def movedName (src dst : ν) : Directory ν := fun name =>
  if name = dst then d.current src else if name = src then none else d.current name

theorem exists_of_movedName {src dst name : ν} {inode : Nat}
    (hmoved : d.movedName src dst name = some inode) : ∃ old, d.current old = some inode ∧
      (name = dst ∧ old = src ∨ name ≠ dst ∧ name ≠ src ∧ old = name) := by
  unfold movedName at hmoved
  split at hmoved
  next hdst => exact ⟨src, hmoved, Or.inl ⟨hdst, rfl⟩⟩
  next hdst =>
    split at hmoved
    next => cases hmoved
    next hsrc => exact ⟨name, hmoved, Or.inr ⟨hdst, hsrc, rfl⟩⟩

/-- The directory entry moved; a crash may still bring the old one back. -/
def move (src dst : ν) : Disk ν :=
  { d with
    current := d.movedName src dst
    older := d.views
    lt_fresh := by
      intro dir hdir name inode hlookup
      rcases List.mem_cons.mp hdir with rfl | hold
      · obtain ⟨old, hold, -⟩ := d.exists_of_movedName hlookup
        exact d.lt_fresh _ List.mem_cons_self old inode hold
      · exact d.lt_fresh dir hold name inode hlookup
    inj := by
      intro dir hdir a b inode ha hb
      rcases List.mem_cons.mp hdir with rfl | hold
      · obtain ⟨oldA, holdA, hcaseA⟩ := d.exists_of_movedName ha
        obtain ⟨oldB, holdB, hcaseB⟩ := d.exists_of_movedName hb
        have hsame := d.inj _ List.mem_cons_self oldA oldB inode holdA holdB
        rcases hcaseA with ⟨rfl, rfl⟩ | ⟨-, hsrcA, rfl⟩
        · rcases hcaseB with ⟨rfl, -⟩ | ⟨-, hsrcB, rfl⟩
          · rfl
          · exact absurd hsame.symm hsrcB
        · rcases hcaseB with ⟨-, rfl⟩ | ⟨-, -, rfl⟩
          · exact absurd hsame hsrcA
          · exact hsame
      · exact d.inj dir hold a b inode ha hb }

/-- `rename`: the file that had the new name is gone. -/
def rename (src dst : ν) : Disk ν :=
  if (d.current src).isNone then d else d.move src dst

/-- The directory with an unused inode under a name. -/
def withFresh (name : ν) : Directory ν :=
  Function.update d.current name (some d.fresh)

theorem current_of_withFresh {name other : ν} {inode : Nat}
    (hlookup : d.withFresh name other = some inode) :
    other = name ∧ inode = d.fresh ∨ other ≠ name ∧ d.current other = some inode := by
  unfold withFresh at hlookup
  by_cases heq : other = name
  · rw [heq, Function.update_self] at hlookup
    exact Or.inl ⟨heq, (Option.some.inj hlookup).symm⟩
  · rw [Function.update_of_ne heq] at hlookup
    exact Or.inr ⟨heq, hlookup⟩

/-- A new empty file under an unused name. -/
def addFile (name : ν) : Disk ν where
  content := Function.update d.content d.fresh []
  synced := Function.update d.synced d.fresh false
  current := d.withFresh name
  older := d.views
  fresh := d.fresh + 1
  lt_fresh := by
    intro dir hdir other inode hlookup
    rcases List.mem_cons.mp hdir with rfl | hold
    · rcases d.current_of_withFresh hlookup with ⟨-, rfl⟩ | ⟨-, hcurrent⟩
      · omega
      · have hlt := d.lt_fresh _ List.mem_cons_self other inode hcurrent
        omega
    · have hlt := d.lt_fresh dir hold other inode hlookup
      omega
  inj := by
    intro dir hdir a b inode ha hb
    rcases List.mem_cons.mp hdir with rfl | hold
    · rcases d.current_of_withFresh ha with ⟨rfl, rfl⟩ | ⟨-, hcurrentA⟩
      · rcases d.current_of_withFresh hb with ⟨rfl, -⟩ | ⟨-, hcurrentB⟩
        · rfl
        · have hlt := d.lt_fresh _ List.mem_cons_self b _ hcurrentB
          omega
      · rcases d.current_of_withFresh hb with ⟨-, rfl⟩ | ⟨-, hcurrentB⟩
        · have hlt := d.lt_fresh _ List.mem_cons_self a _ hcurrentA
          omega
        · exact d.inj _ List.mem_cons_self a b inode hcurrentA hcurrentB
    · exact d.inj dir hold a b inode ha hb

/-- `File::create`: an existing file is truncated in place. -/
def create (name : ν) : Disk ν :=
  match d.current name with
  | some inode => d.setContent inode []
  | none => d.addFile name

/-- The inode that `create` opens. -/
def opened (name : ν) : Nat :=
  (d.current name).getD d.fresh

end Disk

end PgReplica.Foundation
