import Mathlib.Data.Fintype.Card
import Mathlib.Data.Nat.Bitwise

/-! # Bit masks as sets of indices

A mask below `2 ^ n` names a set of indices below `n`. Every set of indices is
named by a mask in that range, so a loop over masks is a loop over sets.
-/

namespace PgReplica.Foundation

/-- The indices below `n` whose bit is set in the mask, in increasing order. -/
def maskMembers (n mask : Nat) : List (Fin n) :=
  (List.finRange n).filter fun i => (mask >>> i.val) &&& 1 == 1

variable {n : Nat}

theorem mem_maskMembers {mask : Nat} {i : Fin n} :
    i ∈ maskMembers n mask ↔ mask.testBit i.val = true := by
  simp only [maskMembers, List.mem_filter, List.mem_finRange, true_and, beq_iff_eq,
    Nat.and_one_is_mod, Nat.shiftRight_eq_div_pow, Nat.testBit_eq_decide_div_mod_eq,
    decide_eq_true_eq]

theorem nodup_maskMembers (mask : Nat) : (maskMembers n mask).Nodup :=
  (List.nodup_finRange n).filter _

/-- The mask whose set bits are the members of a set. -/
def maskOf (S : Finset (Fin n)) : Nat :=
  Nat.ofBits fun i : Fin n => decide (i ∈ S)

@[simp] theorem mem_maskMembers_maskOf {S : Finset (Fin n)} {i : Fin n} :
    i ∈ maskMembers n (maskOf S) ↔ i ∈ S := by
  simp [mem_maskMembers, maskOf]

theorem maskOf_lt (S : Finset (Fin n)) : maskOf S < 2 ^ n :=
  Nat.ofBits_lt_two_pow _

theorem maskOf_pos {S : Finset (Fin n)} (hne : S.Nonempty) : 1 ≤ maskOf S := by
  obtain ⟨i, hi⟩ := hne
  by_contra hzero
  have hmask : maskOf S = 0 := by omega
  have hmem : i ∈ maskMembers n (maskOf S) := mem_maskMembers_maskOf.mpr hi
  rw [hmask, mem_maskMembers, Nat.zero_testBit] at hmem
  cases hmem

theorem length_maskMembers_maskOf (S : Finset (Fin n)) :
    (maskMembers n (maskOf S)).length = S.card := by
  have hset : (maskMembers n (maskOf S)).toFinset = S := by
    ext i
    simp
  rw [← hset, List.toFinset_card_of_nodup (nodup_maskMembers _), hset]

end PgReplica.Foundation
