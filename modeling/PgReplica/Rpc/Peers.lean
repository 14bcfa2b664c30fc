import PgReplica.Foundation.Text
import PgReplica.Supervisor.Config

/-! # Reading a peer list

`parse_peers` drops what it cannot read without a word. Which entries it keeps is
told here by a grammar.
-/

namespace PgReplica

open Foundation

/-- What stands between the commas. -/
def peerEntries (spec : String) : List (List Char) :=
  spec.toList.splitOn ','

/-- The closure over entries in `parse_peers`. -/
def parsePeer (entry : List Char) : Option Peer :=
  let entry := trim entry
  if entry.isEmpty then none
  else do
    let (idPart, addrPart) ← splitOnce '@' entry
    let id ← parseUnsigned 64 (trim idPart)
    return ⟨id, String.ofList (trim addrPart)⟩

def parsePeers (spec : String) : List Peer :=
  (peerEntries spec).filterMap parsePeer

/-- The entries that are not blank. -/
def writtenEntries (spec : String) : List (List Char) :=
  (peerEntries spec).filter fun entry => !(trim entry).isEmpty

/-- `id@addr`, with a 64-bit number for the id and white space around both. -/
def WellFormedEntry (entry : List Char) : Prop :=
  ∃ idPart addrPart, trim entry = idPart ++ '@' :: addrPart ∧ '@' ∉ idPart ∧
    IsUnsigned 64 (trim idPart)

theorem parsePeer_isSome_iff {entry : List Char} :
    (parsePeer entry).isSome = true ↔ WellFormedEntry entry := by
  simp only [parsePeer, WellFormedEntry]
  split
  next hblank =>
    rw [List.isEmpty_iff.mp hblank]
    simp
  next =>
    cases hsplit : splitOnce '@' (trim entry) with
    | none =>
        simp only [Option.bind_eq_bind, Option.bind_none, Option.isSome_none, Bool.false_eq_true,
          false_iff]
        rintro ⟨idPart, addrPart, htext, hnot, -⟩
        rw [splitOnce_eq_some_iff.mpr ⟨htext, hnot⟩] at hsplit
        cases hsplit
    | some parts =>
        obtain ⟨htext, hnot⟩ := splitOnce_eq_some_iff.mp hsplit
        have hid : ((do
            let id ← parseUnsigned 64 (trim parts.1)
            return (⟨id, String.ofList (trim parts.2)⟩ : Peer)) : Option Peer).isSome = true ↔
            IsUnsigned 64 (trim parts.1) := by
          rw [← parseUnsigned_isSome_iff]
          cases parseUnsigned 64 (trim parts.1) <;> rfl
        refine hid.trans ⟨fun hunsigned => ⟨_, _, htext, hnot, hunsigned⟩, ?_⟩
        rintro ⟨idPart, addrPart, htext', hnot', hunsigned⟩
        -- the first separator cuts the entry in one way only
        rw [splitOnce_eq_some_iff.mpr ⟨htext', hnot'⟩] at hsplit
        obtain rfl := Option.some.inj hsplit
        exact hunsigned

theorem parsePeer_of_blank {entry : List Char} (hblank : (trim entry).isEmpty = true) :
    parsePeer entry = none :=
  if_pos hblank

theorem parsePeers_eq_written (spec : String) :
    parsePeers spec = (writtenEntries spec).filterMap parsePeer := by
  rw [parsePeers, writtenEntries]
  induction peerEntries spec with
  | nil => rfl
  | cons entry rest ih =>
      rw [List.filter_cons]
      split
      next => rw [List.filterMap_cons, List.filterMap_cons, ih]
      next hblank =>
        rw [List.filterMap_cons_none (parsePeer_of_blank (by simpa using hblank)), ih]

/-- Every entry that is written is read exactly when all of them are well formed. -/
theorem map_parsePeer_eq_iff {spec : String} :
    ((writtenEntries spec).map fun entry => (parsePeer entry).map Peer.id) =
        ((parsePeers spec).map Peer.id).map some ↔
      ∀ entry ∈ writtenEntries spec, WellFormedEntry entry := by
  rw [parsePeers_eq_written]
  simp only [← parsePeer_isSome_iff]
  constructor
  · intro hread entry hentry
    have hmem : (parsePeer entry).map Peer.id ∈ (((writtenEntries spec).filterMap parsePeer).map
        Peer.id).map some := by
      rw [← hread]
      exact List.mem_map_of_mem hentry
    obtain ⟨id, -, hid⟩ := List.mem_map.mp hmem
    have hsome : ((parsePeer entry).map Peer.id).isSome = true := by
      rw [← hid]
      rfl
    simpa using hsome
  · intro hread
    generalize writtenEntries spec = written at hread ⊢
    induction written with
    | nil => rfl
    | cons entry rest ih =>
        obtain ⟨hentry, hrest⟩ := List.forall_mem_cons.mp hread
        obtain ⟨peer, hpeer⟩ := Option.isSome_iff_exists.mp hentry
        rw [List.map_cons, List.filterMap_cons_some hpeer, ih hrest, hpeer]
        rfl

end PgReplica
