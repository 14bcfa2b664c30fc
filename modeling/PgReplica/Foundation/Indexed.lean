import Mathlib.Data.List.Basic
import Mathlib.Data.List.Induction

/-! # Lists that are written by index, and lists merged from several sources

What is found at a position after one position has been written, and a list whose
entries come from numbered sources, taken apart by source.
-/

namespace PgReplica.Foundation

universe u v

variable {α : Type u} {β : Type v}

/-! ## Writing one position -/

theorem modify_append_singleton (init : List α) (k : α) (f : α → α) :
    (init ++ [k]).modify init.length f = init ++ [f k] := by
  induction init with
  | nil => rfl
  | cons a init ih => rw [List.cons_append, List.length_cons, List.modify_succ_cons, ih]; rfl

theorem exists_eq_append_of_last {l : List α} {i : Nat}
    (hlast : i + 1 = l.length) :
    ∃ init k, l = init ++ [k] ∧ i = init.length := by
  have hne : l ≠ [] := List.ne_nil_of_length_pos (by omega)
  refine ⟨_, _, (List.dropLast_concat_getLast hne).symm, ?_⟩
  rw [List.length_dropLast]
  omega

theorem getElem?_set_cases {l : List α} {i j : Nat} {a b : α}
    (hget : (l.set i a)[j]? = some b) : (i = j ∧ b = a) ∨ (i ≠ j ∧ l[j]? = some b) := by
  by_cases heq : i = j
  · subst heq
    have hlt : i < l.length := by
      rw [← List.length_set (a := a)]
      exact (List.getElem?_eq_some_iff.mp hget).1
    rw [List.getElem?_set_self hlt] at hget
    exact .inl ⟨rfl, (Option.some.inj hget).symm⟩
  · rw [List.getElem?_set_ne heq] at hget
    exact .inr ⟨heq, hget⟩

theorem getElem?_modify_cases {l : List α} {i j : Nat} {f : α → α} {b : α}
    (hget : (l.modify i f)[j]? = some b) :
    (∃ a, i = j ∧ l[j]? = some a ∧ b = f a) ∨ (i ≠ j ∧ l[j]? = some b) := by
  by_cases heq : i = j
  · subst heq
    rw [List.getElem?_modify_eq] at hget
    obtain ⟨a, ha, hb⟩ := Option.map_eq_some_iff.mp hget
    exact .inl ⟨a, rfl, ha, hb.symm⟩
  · rw [List.getElem?_modify_ne f l heq] at hget
    exact .inr ⟨heq, hget⟩

theorem getElem?_concat_cases {l : List α} {j : Nat} {a b : α}
    (hget : (l ++ [a])[j]? = some b) : l[j]? = some b ∨ (j = l.length ∧ b = a) := by
  by_cases hlt : j < l.length
  · rw [List.getElem?_append_left hlt] at hget
    exact .inl hget
  · have hj : j = l.length := by
      have hbound := (List.getElem?_eq_some_iff.mp hget).1
      rw [List.length_append, List.length_singleton] at hbound
      omega
    subst hj
    rw [List.getElem?_concat_length] at hget
    exact .inr ⟨rfl, (Option.some.inj hget).symm⟩

/-! ## Merging -/

/-- A merged list is its sources' parts, one source after the other. -/
theorem perm_flatMap_filter {source : α → Nat} {l : List α} {n : Nat}
    (hlt : ∀ a ∈ l, source a < n) :
    l.Perm ((List.range n).flatMap fun i => l.filter (source · == i)) := by
  induction n generalizing l with
  | zero =>
      have hnil : l = [] :=
        List.eq_nil_iff_forall_not_mem.mpr fun a ha => Nat.not_lt_zero _ (hlt a ha)
      rw [hnil]
      rfl
  | succ n ih =>
      have hsplit := List.filter_append_perm (fun a => decide (source a < n)) l
      have hlast : l.filter (fun a => !decide (source a < n)) = l.filter (source · == n) := by
        refine List.filter_congr fun a ha => ?_
        have hbound := hlt a ha
        rw [Bool.eq_iff_iff]
        simp only [Bool.not_eq_true', decide_eq_false_iff_not, beq_iff_eq]
        omega
      have hinit := ih (l := l.filter fun a => decide (source a < n)) fun a ha => by
        simpa using (List.mem_filter.mp ha).2
      have hsame : ((List.range n).flatMap fun i =>
          (l.filter fun a => decide (source a < n)).filter (source · == i)) =
            (List.range n).flatMap fun i => l.filter (source · == i) := by
        refine List.flatMap_congr fun i hi => ?_
        rw [List.filter_filter]
        refine List.filter_congr fun a _ => ?_
        have hi' := List.mem_range.mp hi
        by_cases heq : source a = i
        · simp [heq, hi']
        · simp [heq]
      rw [List.range_succ, List.flatMap_append, List.flatMap_singleton, ← hlast, ← hsame]
      exact hsplit.symm.trans (hinit.append_right _)

/-- Parts of the entries of a list, taken by position. -/
theorem flatMap_range_sublist {l : List α} {part : Nat → List β} {whole : α → List β}
    (hpart : ∀ i a, l[i]? = some a → (part i).Sublist (whole a)) :
    ((List.range l.length).flatMap part).Sublist (l.flatMap whole) := by
  induction l using List.reverseRecOn with
  | nil => exact List.Sublist.refl _
  | append_singleton init a ih =>
      rw [List.length_append, List.length_singleton, List.range_succ, List.flatMap_append,
        List.flatMap_append, List.flatMap_singleton, List.flatMap_singleton]
      refine (ih fun i b hb => hpart i b ?_).append (hpart _ a List.getElem?_concat_length)
      rwa [List.getElem?_append_left (List.getElem?_eq_some_iff.mp hb).1]

end PgReplica.Foundation
