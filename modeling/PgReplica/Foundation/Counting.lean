import Mathlib.Data.Finset.Card
import Mathlib.Data.Fintype.Card
import Mathlib.Order.Interval.Finset.Nat

/-! # Counting the members of a finite group

Sizes of the subsets that a filter over a duplicate-free enumeration selects,
and the intersection of two such subsets that are together too large to be
disjoint.
-/

namespace PgReplica.Foundation

universe u

variable {α : Type u} [DecidableEq α]

/-- Filtering a duplicate-free enumeration counts a set. -/
theorem length_filter_eq_card {l : List α} (hnodup : l.Nodup) (p : α → Bool) :
    (l.filter p).length = (l.toFinset.filter (p · = true)).card := by
  rw [← List.toFinset_filter, List.toFinset_card_of_nodup (hnodup.filter p)]

/-- Two selections from one group that are together larger than the group
share a member. -/
theorem exists_mem_of_length_lt {l first second : List α} (hfirst : first.Nodup)
    (hsecond : second.Nodup) (hfirstSub : first ⊆ l) (hsecondSub : second ⊆ l)
    (hlarge : l.length < first.length + second.length) : ∃ x ∈ first, x ∈ second := by
  have hinter : (first.toFinset ∩ second.toFinset).Nonempty := by
    apply Finset.inter_nonempty_of_card_lt_card_add_card (s := l.toFinset)
    · exact fun x hx => List.mem_toFinset.mpr (hfirstSub (List.mem_toFinset.mp hx))
    · exact fun x hx => List.mem_toFinset.mpr (hsecondSub (List.mem_toFinset.mp hx))
    · rw [List.toFinset_card_of_nodup hfirst, List.toFinset_card_of_nodup hsecond]
      exact (List.toFinset_card_le l).trans_lt hlarge
  obtain ⟨x, hx⟩ := hinter
  rw [Finset.mem_inter, List.mem_toFinset, List.mem_toFinset] at hx
  exact ⟨x, hx.1, hx.2⟩

variable {n : Nat}

/-- Two sets of indices that are together larger than the group share one. -/
theorem exists_mem_of_lt_card {S T : Finset (Fin n)} (hlarge : n < S.card + T.card) :
    ∃ i ∈ S, i ∈ T := by
  have hinter : (S ∩ T).Nonempty := by
    apply Finset.inter_nonempty_of_card_lt_card_add_card (Finset.subset_univ S)
      (Finset.subset_univ T)
    rwa [Finset.card_univ, Fintype.card_fin]
  obtain ⟨i, hi⟩ := hinter
  exact ⟨i, Finset.mem_inter.mp hi⟩

theorem length_filter_finRange (p : Fin n → Bool) :
    ((List.finRange n).filter p).length = (Finset.univ.filter (p · = true)).card := by
  rw [length_filter_eq_card (List.nodup_finRange n), List.toFinset_finRange]

/-- The indices from `start` on, `len` of them. -/
def window (n start len : Nat) : Finset (Fin n) :=
  Finset.univ.filter fun i => start ≤ i.val ∧ i.val < start + len

@[simp] theorem mem_window {start len : Nat} {i : Fin n} :
    i ∈ window n start len ↔ start ≤ i.val ∧ i.val < start + len := by
  simp [window]

theorem card_window {start len : Nat} (hfits : start + len ≤ n) :
    (window n start len).card = len := by
  have hvalues : (window n start len).map Fin.valEmbedding = Finset.Ico start (start + len) := by
    ext x
    simp only [Finset.mem_map, mem_window, Fin.valEmbedding_apply, Finset.mem_Ico]
    constructor
    · rintro ⟨i, hi, rfl⟩
      exact hi
    · rintro hx
      exact ⟨⟨x, by omega⟩, hx, rfl⟩
  rw [← Finset.card_map Fin.valEmbedding, hvalues, Nat.card_Ico]
  omega

end PgReplica.Foundation
