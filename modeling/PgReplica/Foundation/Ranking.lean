import Mathlib.Data.Finset.Card
import Mathlib.Data.Finset.Image
import Mathlib.Order.Interval.Finset.Nat

/-! # Ranks in a finite set

How many members of a finite set are below a given one, under a comparison that
ties only equal elements. The ranks of a set of size `n` are `0, …, n - 1`, each
taken once.
-/

namespace PgReplica.Foundation

universe u

variable {α : Type u} (cmp : α → α → Ordering)

/-- The members of `A` below `w`. -/
def lowerMembers (A : Finset α) (w : α) : Finset α :=
  A.filter fun i => cmp i w = .lt

variable {cmp} {A : Finset α}

@[simp] theorem mem_lowerMembers {w i : α} : i ∈ lowerMembers cmp A w ↔ i ∈ A ∧ cmp i w = .lt := by
  simp [lowerMembers]

theorem lowerMembers_subset (w : α) : lowerMembers cmp A w ⊆ A :=
  Finset.filter_subset _ _

/-- Below or equal to is at most. -/
theorem isLE_iff_lt_or_eq [Std.LawfulEqCmp cmp] {i w : α} :
    (cmp i w).isLE ↔ cmp i w = .lt ∨ i = w := by
  rw [Ordering.isLE_iff_eq_lt_or_eq_eq, Std.LawfulEqCmp.compare_eq_iff_eq]

variable [Std.TransCmp cmp]

theorem cmp_self_ne_lt (w : α) : cmp w w ≠ .lt := by
  rw [@Std.ReflCmp.compare_self _ cmp]
  simp

theorem lowerMembers_ssubset {v w : α} (hlt : cmp v w = .lt) (hv : v ∈ A) :
    lowerMembers cmp A v ⊂ lowerMembers cmp A w := by
  refine Finset.ssubset_iff_subset_ne.mpr ⟨fun i hi => ?_, fun heq => ?_⟩
  · obtain ⟨hmem, hbelow⟩ := mem_lowerMembers.mp hi
    exact mem_lowerMembers.mpr ⟨hmem, Std.TransCmp.lt_trans hbelow hlt⟩
  · have hmem : v ∈ lowerMembers cmp A v := by
      rw [heq]
      exact mem_lowerMembers.mpr ⟨hv, hlt⟩
    exact cmp_self_ne_lt v (mem_lowerMembers.mp hmem).2

theorem card_lowerMembers_lt {w : α} (hw : w ∈ A) : (lowerMembers cmp A w).card < A.card := by
  refine Finset.card_lt_card (Finset.ssubset_iff_subset_ne.mpr ⟨lowerMembers_subset w, ?_⟩)
  intro heq
  rw [← heq] at hw
  exact cmp_self_ne_lt w (mem_lowerMembers.mp hw).2

variable [Std.LawfulEqCmp cmp]

/-- Different members have different ranks. -/
theorem eq_of_card_lowerMembers_eq {v w : α} (hv : v ∈ A) (hw : w ∈ A)
    (hcard : (lowerMembers cmp A v).card = (lowerMembers cmp A w).card) : v = w := by
  cases hcmp : cmp v w with
  | lt => exact absurd hcard (Finset.card_lt_card (lowerMembers_ssubset hcmp hv)).ne
  | eq => exact Std.LawfulEqCmp.eq_of_compare hcmp
  | gt =>
      have hlt : cmp w v = .lt := Std.OrientedCmp.lt_of_gt hcmp
      exact absurd hcard.symm (Finset.card_lt_card (lowerMembers_ssubset hlt hw)).ne

/-- Every rank below the size of the set is taken. -/
theorem image_card_lowerMembers :
    A.image (fun w => (lowerMembers cmp A w).card) = Finset.range A.card := by
  refine Finset.eq_of_subset_of_card_le (fun rank hrank => ?_) ?_
  · obtain ⟨w, hw, rfl⟩ := Finset.mem_image.mp hrank
    exact Finset.mem_range.mpr (card_lowerMembers_lt hw)
  · rw [Finset.card_range, Finset.card_image_of_injOn]
    exact fun v hv w hw heq => eq_of_card_lowerMembers_eq hv hw heq

/-- All members but the `k` least have at least `k` others below them. -/
theorem card_filter_le_card_lowerMembers (A : Finset α) (k : Nat) :
    (A.filter fun w => k ≤ (lowerMembers cmp A w).card).card = A.card - k := by
  have hinj : Set.InjOn (fun w => (lowerMembers cmp A w).card)
      (A.filter fun w => k ≤ (lowerMembers cmp A w).card) := by
    intro v hv w hw heq
    exact eq_of_card_lowerMembers_eq (Finset.mem_filter.mp hv).1 (Finset.mem_filter.mp hw).1 heq
  -- their ranks are the numbers from `k` up to the size of the set
  have hranks : (A.filter fun w => k ≤ (lowerMembers cmp A w).card).image
      (fun w => (lowerMembers cmp A w).card) = Finset.Ico k A.card := by
    ext rank
    have htaken : rank < A.card ↔ ∃ w ∈ A, (lowerMembers cmp A w).card = rank := by
      rw [← Finset.mem_range, ← @image_card_lowerMembers _ cmp A, Finset.mem_image]
    simp only [Finset.mem_image, Finset.mem_filter, Finset.mem_Ico, htaken]
    constructor
    · rintro ⟨w, ⟨hw, hk⟩, rfl⟩
      exact ⟨hk, w, hw, rfl⟩
    · rintro ⟨hk, w, hw, rfl⟩
      exact ⟨w, ⟨hw, hk⟩, rfl⟩
  rw [← Finset.card_image_of_injOn hinj, hranks, Nat.card_Ico]

variable [DecidableEq α]

/-- The greatest member has all the others below it. -/
theorem card_lowerMembers_of_greatest {w : α} (hw : w ∈ A)
    (hgreatest : ∀ i ∈ A, (cmp i w).isLE) : (lowerMembers cmp A w).card = A.card - 1 := by
  have hothers : lowerMembers cmp A w = A.erase w := by
    ext i
    rw [mem_lowerMembers, Finset.mem_erase]
    constructor
    · rintro ⟨hi, hlt⟩
      exact ⟨fun heq => cmp_self_ne_lt w (heq ▸ hlt), hi⟩
    · rintro ⟨hne, hi⟩
      exact ⟨hi, (isLE_iff_lt_or_eq.mp (hgreatest i hi)).resolve_right hne⟩
  rw [hothers, Finset.card_erase_of_mem hw]

/-- An element is the greatest of some `k + 1` members exactly when it is a member
with `k` others below it. -/
theorem exists_subset_greatest_iff {w : α} {k : Nat} :
    (∃ S ⊆ A, S.card = k + 1 ∧ w ∈ S ∧ ∀ i ∈ S, (cmp i w).isLE) ↔
      w ∈ A ∧ k ≤ (lowerMembers cmp A w).card := by
  constructor
  · rintro ⟨S, hsub, hcard, hw, hgreatest⟩
    have hle : (lowerMembers cmp S w).card ≤ (lowerMembers cmp A w).card := by
      refine Finset.card_le_card fun i hi => ?_
      obtain ⟨hmem, hlt⟩ := mem_lowerMembers.mp hi
      exact mem_lowerMembers.mpr ⟨hsub hmem, hlt⟩
    rw [card_lowerMembers_of_greatest hw hgreatest] at hle
    exact ⟨hsub hw, by omega⟩
  · rintro ⟨hw, hk⟩
    obtain ⟨T, hT, hcard⟩ := Finset.exists_subset_card_eq hk
    have hnot : w ∉ T := fun hmem => cmp_self_ne_lt w (mem_lowerMembers.mp (hT hmem)).2
    refine ⟨insert w T, ?_, ?_, Finset.mem_insert_self w T, ?_⟩
    · exact Finset.insert_subset hw fun i hi => (mem_lowerMembers.mp (hT hi)).1
    · rw [Finset.card_insert_of_notMem hnot, hcard]
    · intro i hi
      rw [isLE_iff_lt_or_eq]
      rcases Finset.mem_insert.mp hi with heq | hmem
      · exact Or.inr heq
      · exact Or.inl (mem_lowerMembers.mp (hT hmem)).2

end PgReplica.Foundation
