import Mathlib.Algebra.Group.Nat.Defs
import Mathlib.Tactic.Tauto
import PgReplica.Foundation.MaxBy

/-! # Gossip payloads, decisions and the choice of a primary

The contents of `failover.rs`. Identifiers, positions and sequence numbers are
natural numbers; only the wire format truncates them to 64 bits.
-/

namespace PgReplica

open Foundation

structure Gossip where
  lsn : Nat
  inRecovery : Bool
  reconfirm : Bool
  seq : Nat
deriving DecidableEq

structure Decision where
  seq : Nat
  primary : Nat
deriving DecidableEq

/-- A held decision names the node. -/
def Names (held : Option Decision) (id : Nat) : Prop :=
  ∃ d, held = some d ∧ d.primary = id

instance (held : Option Decision) (id : Nat) : Decidable (Names held id) :=
  decidable_of_iff (∃ d ∈ held, d.primary = id) Iff.rfl

/-- A node as the leader sees it: its position and whether it is in recovery. -/
structure Candidate where
  id : Nat
  lsn : Nat
  inRecovery : Bool
deriving DecidableEq

/-! ## The wire format -/

/-- `u64::to_be_bytes`. -/
def toBeBytes (x : Nat) : List UInt8 :=
  (List.range 8).map fun k => UInt8.ofNat (x / 256 ^ (7 - k))

/-- `u64::from_be_bytes`. -/
def fromBeBytes (bytes : List UInt8) : Nat :=
  bytes.foldl (fun acc byte => acc * 256 + byte.toNat) 0

def boolByte (b : Bool) : UInt8 :=
  if b then 1 else 0

def encodeGossip (lsn : Nat) (inRecovery reconfirm : Bool) (seq : Nat) : List UInt8 :=
  toBeBytes lsn ++ [boolByte inRecovery] ++ [boolByte reconfirm] ++ toBeBytes seq

/-- Payloads of older nodes end after the recovery byte: they ask for no
reconfirmation and carry no decision. -/
def decodeGossip (bytes : List UInt8) : Option Gossip :=
  if bytes.length < 9 then none
  else
    let seq := if 18 ≤ bytes.length then fromBeBytes ((bytes.drop 10).take 8) else 0
    some
      { lsn := fromBeBytes (bytes.take 8)
        inRecovery := bytes.getD 8 0 != 0
        reconfirm := bytes.getD 9 0 != 0
        seq }

/-- Big-endian bytes are read back, up to what their number cuts off. -/
theorem fromBeBytes_map_range (width x : Nat) :
    fromBeBytes ((List.range width).map fun k => UInt8.ofNat (x / 256 ^ (width - 1 - k))) =
      x % 256 ^ width := by
  induction width generalizing x with
  | zero => simp [fromBeBytes, Nat.mod_one]
  | succ width ih =>
      -- all bytes but the last are those of `x / 256`
      have hinit : (List.range width).map (fun k => UInt8.ofNat (x / 256 ^ (width - k))) =
          (List.range width).map fun k => UInt8.ofNat (x / 256 / 256 ^ (width - 1 - k)) := by
        refine List.map_congr_left fun k hk => ?_
        have hlt : k < width := List.mem_range.mp hk
        rw [Nat.div_div_eq_div_mul, ← Nat.pow_succ', Nat.sub_right_comm,
          Nat.succ_eq_add_one, Nat.sub_add_cancel (Nat.sub_pos_of_lt hlt)]
      have hlast : fromBeBytes ((List.range width).map
          (fun k => UInt8.ofNat (x / 256 ^ (width - k))) ++ [UInt8.ofNat x]) =
          x / 256 % 256 ^ width * 256 + x % 256 := by
        rw [hinit, fromBeBytes, List.foldl_append, ← fromBeBytes, ih]
        simp
      rw [List.range_succ, List.map_append, Nat.add_sub_cancel]
      simp only [List.map_cons, List.map_nil, Nat.sub_self, Nat.pow_zero, Nat.div_one]
      rw [hlast, Nat.pow_succ', Nat.mod_mul, Nat.mul_comm, Nat.add_comm]

theorem fromBeBytes_toBeBytes {x : Nat} (hx : x < 2 ^ 64) : fromBeBytes (toBeBytes x) = x :=
  (fromBeBytes_map_range 8 x).trans (Nat.mod_eq_of_lt hx)

@[simp] theorem length_toBeBytes (x : Nat) : (toBeBytes x).length = 8 := by
  simp [toBeBytes]

@[simp] theorem boolByte_ne_zero (b : Bool) : (boolByte b != 0) = b := by
  cases b <;> rfl

theorem length_encodeGossip (lsn : Nat) (inRecovery reconfirm : Bool) (seq : Nat) :
    (encodeGossip lsn inRecovery reconfirm seq).length = 18 := by
  simp [encodeGossip]

/-- A broadcast is never dropped as malformed. -/
theorem exists_decodeGossip_encodeGossip (lsn : Nat) (inRecovery reconfirm : Bool) (seq : Nat) :
    ∃ gossip, decodeGossip (encodeGossip lsn inRecovery reconfirm seq) = some gossip := by
  rw [decodeGossip, if_neg (by rw [length_encodeGossip]; omega)]
  exact ⟨_, rfl⟩

/-- What a node broadcasts is what its peers read. -/
theorem decodeGossip_encodeGossip {lsn seq : Nat} {inRecovery reconfirm : Bool}
    (hlsn : lsn < 2 ^ 64) (hseq : seq < 2 ^ 64) :
    decodeGossip (encodeGossip lsn inRecovery reconfirm seq) =
      some ⟨lsn, inRecovery, reconfirm, seq⟩ := by
  have hlength := length_encodeGossip lsn inRecovery reconfirm seq
  have hlsnBytes : (encodeGossip lsn inRecovery reconfirm seq).take 8 = toBeBytes lsn := by
    simp [encodeGossip]
  have hseqBytes : ((encodeGossip lsn inRecovery reconfirm seq).drop 10).take 8 =
      toBeBytes seq := by
    rw [List.take_of_length_le (by simp [hlength])]
    simp [encodeGossip, List.drop_append]
  have hrecovery : (encodeGossip lsn inRecovery reconfirm seq).getD 8 0 = boolByte inRecovery := by
    simp [encodeGossip, List.getD_eq_getElem?_getD]
  have hreconfirm : (encodeGossip lsn inRecovery reconfirm seq).getD 9 0 = boolByte reconfirm := by
    simp [encodeGossip, List.getD_eq_getElem?_getD]
  rw [decodeGossip, if_neg (by omega), hlength]
  simp only [hlsnBytes, hseqBytes, hrecovery, hreconfirm, boolByte_ne_zero,
    fromBeBytes_toBeBytes hlsn, fromBeBytes_toBeBytes hseq]
  rfl

/-! ## The choice of a primary -/

/-- By position, then out of recovery before in recovery, then the smaller id. -/
def compareCandidates (a b : Candidate) : Ordering :=
  ((compare a.lsn b.lsn).then (compare (!a.inRecovery).toNat (!b.inRecovery).toNat)).then
    (compare b.id a.id)

def choosePrimary (candidates : List Candidate) : Option Nat :=
  (maxBy compareCandidates candidates).map Candidate.id

theorem isLE_compareCandidates_iff {a b : Candidate} :
    (compareCandidates a b).isLE ↔ a.lsn < b.lsn ∨ a.lsn = b.lsn ∧
      ((!a.inRecovery).toNat < (!b.inRecovery).toNat ∨
        (!a.inRecovery).toNat = (!b.inRecovery).toNat ∧ b.id ≤ a.id) := by
  rw [compareCandidates, Ordering.isLE_then_iff_or, Ordering.then_eq_lt, Ordering.then_eq_eq]
  simp only [Nat.compare_eq_lt, Nat.compare_eq_eq, Nat.isLE_compare]
  tauto

instance : Std.TransCmp compareCandidates where
  eq_swap {a b} := by
    simp only [compareCandidates, Ordering.swap_then, ← Std.OrientedCmp.eq_swap]
  isLE_trans {a b c} hab hbc := by
    rw [isLE_compareCandidates_iff] at *
    omega

/-- Different nodes are never tied. -/
theorem compareCandidates_eq_lt {a b : Candidate} (hle : (compareCandidates a b).isLE)
    (hne : a.id ≠ b.id) : compareCandidates a b = .lt := by
  rw [Ordering.isLE_iff_eq_lt_or_eq_eq] at hle
  refine hle.resolve_right fun heq => hne ?_
  simp only [compareCandidates, Ordering.then_eq_eq, Nat.compare_eq_eq] at heq
  exact heq.2.symm

/-- Two candidates that are not behind each other are one node. -/
theorem id_eq_of_isLE {a b : Candidate} (hab : (compareCandidates a b).isLE)
    (hba : (compareCandidates b a).isLE) : a.id = b.id := by
  rw [isLE_compareCandidates_iff] at hab hba
  omega

/-- From some candidates one is chosen. -/
theorem exists_choosePrimary {candidates : List Candidate} (hne : candidates ≠ []) :
    ∃ best ∈ candidates, choosePrimary candidates = some best.id := by
  obtain ⟨best, hbest⟩ := @isSome_maxBy_of_ne_nil _ compareCandidates _ hne
  refine ⟨best, mem_of_maxBy_eq_some hbest, ?_⟩
  rw [choosePrimary, hbest]
  rfl

/-- The chosen node is one of the candidates, and no candidate is ahead of it. -/
theorem exists_dominating_of_choosePrimary {candidates : List Candidate} {id : Nat}
    (hchosen : choosePrimary candidates = some id) : ∃ best ∈ candidates, best.id = id ∧
      ∀ other ∈ candidates, (compareCandidates other best).isLE := by
  obtain ⟨best, hbest, rfl⟩ := Option.map_eq_some_iff.mp hchosen
  exact ⟨best, mem_of_maxBy_eq_some hbest, rfl, fun _ hother =>
    isLE_of_maxBy_eq_some hbest hother⟩

/-- Which node is chosen does not depend on the order of the candidates. -/
theorem choosePrimary_eq_some_iff {candidates : List Candidate} {id : Nat} :
    choosePrimary candidates = some id ↔ ∃ best ∈ candidates, best.id = id ∧
      ∀ other ∈ candidates, (compareCandidates other best).isLE := by
  refine ⟨exists_dominating_of_choosePrimary, ?_⟩
  rintro ⟨best, hbest, rfl, hdominates⟩
  obtain ⟨_, -, hchosen⟩ := exists_choosePrimary (List.ne_nil_of_mem hbest)
  obtain ⟨chosen, hmem, hid, hahead⟩ := exists_dominating_of_choosePrimary hchosen
  rw [hchosen, ← hid, id_eq_of_isLE (hahead best hbest) (hdominates chosen hmem)]

theorem lsn_le_of_isLE {a b : Candidate} (hle : (compareCandidates a b).isLE) : a.lsn ≤ b.lsn := by
  have hahead := isLE_compareCandidates_iff.mp hle
  omega

/-- No candidate has a larger position than the chosen one. -/
theorem exists_of_choosePrimary {candidates : List Candidate} {id : Nat}
    (hchosen : choosePrimary candidates = some id) :
    ∃ best ∈ candidates, best.id = id ∧ ∀ other ∈ candidates, other.lsn ≤ best.lsn := by
  obtain ⟨best, hbest, hid, hahead⟩ := exists_dominating_of_choosePrimary hchosen
  exact ⟨best, hbest, hid, fun other hother => lsn_le_of_isLE (hahead other hother)⟩

end PgReplica
