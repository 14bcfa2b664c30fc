import Mathlib.Data.List.AList

/-! # Tables with one entry per key

The non-dependent case of association lists without duplicate keys, with the
operations of a hash map: insert, look up, and iterate over the entries.
-/

namespace PgReplica.Foundation

universe u v

/-- A finite map from `κ` to `ν`. -/
structure Table (κ : Type u) (ν : Type v) where
  toAList : AList fun _ : κ => ν

namespace Table

variable {κ : Type u} {ν : Type v}

def empty : Table κ ν :=
  ⟨∅⟩

/-- The entries, in the order an iteration meets them. -/
def entries (t : Table κ ν) : List (κ × ν) :=
  t.toAList.entries.map fun e => (e.1, e.2)

theorem nodup_keys (t : Table κ ν) : (t.entries.map Prod.fst).Nodup := by
  rw [entries, List.map_map]
  exact t.toAList.keys_nodup

/-- The keys that a test on entries selects are distinct. -/
theorem nodup_filter_keys (t : Table κ ν) (p : κ × ν → Bool) :
    ((t.entries.filter p).map Prod.fst).Nodup :=
  t.nodup_keys.sublist (List.filter_sublist.map Prod.fst)

variable [DecidableEq κ]

/-- Set the value of a key, replacing an earlier one. -/
def insert (t : Table κ ν) (k : κ) (value : ν) : Table κ ν :=
  ⟨AList.insert (β := fun _ => ν) k value t.toAList⟩

def lookup (t : Table κ ν) (k : κ) : Option ν :=
  AList.lookup (β := fun _ => ν) k t.toAList

@[simp] theorem lookup_empty (k : κ) : (empty : Table κ ν).lookup k = none := rfl

@[simp] theorem lookup_insert_self (t : Table κ ν) (k : κ) (value : ν) :
    (t.insert k value).lookup k = some value :=
  AList.lookup_insert t.toAList

theorem lookup_insert_of_ne {j k : κ} (hne : j ≠ k) (t : Table κ ν) (value : ν) :
    (t.insert k value).lookup j = t.lookup j :=
  AList.lookup_insert_ne hne

theorem lookup_insert (t : Table κ ν) (j k : κ) (value : ν) :
    (t.insert k value).lookup j = if j = k then some value else t.lookup j := by
  split
  next heq =>
    rw [heq]
    exact t.lookup_insert_self k value
  next hne => exact lookup_insert_of_ne hne t value

theorem mem_entries_iff {t : Table κ ν} {k : κ} {value : ν} :
    (k, value) ∈ t.entries ↔ t.lookup k = some value := by
  have hlookup : t.lookup k = some value ↔ Sigma.mk k value ∈ t.toAList.entries :=
    AList.mem_lookup_iff (β := fun _ => ν)
  rw [hlookup, entries, List.mem_map]
  constructor
  · rintro ⟨⟨k', value'⟩, hmem, heq⟩
    obtain ⟨rfl, rfl⟩ := Prod.mk.inj heq
    exact hmem
  · exact fun hmem => ⟨⟨k, value⟩, hmem, rfl⟩

end Table

end PgReplica.Foundation
