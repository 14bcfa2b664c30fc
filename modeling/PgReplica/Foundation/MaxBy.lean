import Mathlib.Data.List.Basic
import Mathlib.Order.Basic

/-! # The last maximum of a list under a comparison -/

namespace PgReplica.Foundation

universe u

variable {α : Type u}

/-- The last of the greatest elements of a list, found by one left-to-right
pass that keeps the current best unless it is not greater than the next. -/
def maxBy (cmp : α → α → Ordering) : List α → Option α
  | [] => none
  | first :: rest =>
      some (rest.foldl (fun best x => if cmp best x = .gt then best else x) first)

variable {cmp : α → α → Ordering}

theorem isSome_maxBy_of_ne_nil {l : List α} (hne : l ≠ []) : ∃ a, maxBy cmp l = some a := by
  cases l with
  | nil => exact absurd rfl hne
  | cons first rest => exact ⟨_, rfl⟩

private theorem foldl_best_mem (l : List α) (best : α) :
    l.foldl (fun best x => if cmp best x = .gt then best else x) best ∈ best :: l := by
  induction l generalizing best with
  | nil => simp
  | cons x rest ih =>
      rw [List.foldl_cons]
      split
      · rcases List.mem_cons.mp (ih best) with heq | hmem
        · rw [heq]
          exact List.mem_cons_self
        · exact List.mem_cons_of_mem _ (List.mem_cons_of_mem _ hmem)
      · exact List.mem_cons_of_mem _ (ih x)

theorem mem_of_maxBy_eq_some {l : List α} {a : α} (hmax : maxBy cmp l = some a) : a ∈ l := by
  cases l with
  | nil => cases hmax
  | cons first rest =>
      obtain rfl := Option.some.inj hmax
      exact foldl_best_mem rest first

variable [Std.TransCmp cmp]

private theorem isLE_foldl_best (l : List α) (best : α) {x : α} (hmem : x ∈ best :: l) :
    (cmp x (l.foldl (fun best x => if cmp best x = .gt then best else x) best)).isLE := by
  induction l generalizing best x with
  | nil =>
      obtain rfl := List.mem_singleton.mp hmem
      exact Std.ReflCmp.isLE_rfl
  | cons y rest ih =>
      rw [List.foldl_cons]
      -- `y` is passed over or takes the place of `best`, which it then dominates
      by_cases hgt : cmp best y = .gt
      · rw [if_pos hgt]
        rcases List.mem_cons.mp hmem with rfl | hrest
        · exact ih x List.mem_cons_self
        rcases List.mem_cons.mp hrest with rfl | hrest
        · have hle : (cmp x best).isLE := by
            rw [@Std.OrientedCmp.eq_swap _ cmp, hgt]
            rfl
          exact Std.TransCmp.isLE_trans hle (ih best List.mem_cons_self)
        · exact ih best (List.mem_cons_of_mem _ hrest)
      · rw [if_neg hgt]
        rcases List.mem_cons.mp hmem with rfl | hrest
        · have hle : (cmp x y).isLE := by
            rwa [Ordering.isLE_iff_ne_gt]
          exact Std.TransCmp.isLE_trans hle (ih y List.mem_cons_self)
        · exact ih y hrest

/-- No element of the list is greater than the selected one. -/
theorem isLE_of_maxBy_eq_some {l : List α} {a : α} (hmax : maxBy cmp l = some a) {x : α}
    (hmem : x ∈ l) : (cmp x a).isLE := by
  cases l with
  | nil => cases hmem
  | cons first rest =>
      obtain rfl := Option.some.inj hmax
      exact isLE_foldl_best rest first hmem

/-- When the comparison only ties equal elements, an element that dominates the
list is the one selected. -/
theorem maxBy_eq_some_of_forall_isLE [Std.LawfulEqCmp cmp] {l : List α} {a : α} (hmem : a ∈ l)
    (hdom : ∀ x ∈ l, (cmp x a).isLE) : maxBy cmp l = some a := by
  obtain ⟨b, hb⟩ := @isSome_maxBy_of_ne_nil _ cmp _ (List.ne_nil_of_mem hmem)
  have hab : (cmp a b).isLE := isLE_of_maxBy_eq_some hb hmem
  have hba : (cmp b a).isLE := hdom b (mem_of_maxBy_eq_some hb)
  rw [hb, Std.LawfulEqCmp.eq_of_compare (Std.OrientedCmp.isLE_antisymm hba hab)]

end PgReplica.Foundation
