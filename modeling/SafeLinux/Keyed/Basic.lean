import Mathlib.Data.List.Nodup
import Mathlib.Logic.Function.Basic

/-!
# Tables of keyed entries

A table is a list of entries, each with a key and a value. It stands for the partial map that takes
a key to the value of the first entry that has it. When no two entries have the same key, adding
and removing an entry updates the map at its key.
-/

namespace Keyed

variable {ι κ α : Type*} [DecidableEq κ] {entries entries' : List ι} {key key' : ι → κ}
  {value value' : ι → α} {e : ι} {k : κ} {v : α}

/-- The map a table stands for. -/
def toMap (entries : List ι) (key : ι → κ) (value : ι → α) (k : κ) : Option α :=
  (entries.find? fun e => key e = k).map value

@[simp] theorem toMap_nil : toMap [] key value k = none := rfl

/-- A new entry at the front gives its key its value. -/
theorem toMap_cons :
    toMap (e :: entries) key value =
      Function.update (toMap entries key value) (key e) (some (value e)) := by
  funext k
  by_cases hk : key e = k
  · subst hk
    simp [toMap]
  · rw [Function.update_of_ne (Ne.symm hk)]
    simp [toMap, hk]

theorem toMap_eq_none : toMap entries key value k = none ↔ ∀ e ∈ entries, key e ≠ k := by
  simp [toMap]

/-- A key has a value only if some entry has both. -/
theorem exists_of_toMap (h : toMap entries key value k = some v) :
    ∃ e ∈ entries, key e = k ∧ value e = v := by
  obtain ⟨e, hfind, hv⟩ := Option.map_eq_some_iff.mp h
  exact ⟨e, List.mem_of_find?_eq_some hfind, by simpa using List.find?_some hfind, hv⟩

/-- Entries with the same keys and values stand for the same map. -/
theorem toMap_congr (hkey : ∀ e ∈ entries, key' e = key e)
    (hvalue : ∀ e ∈ entries, value' e = value e) :
    toMap entries key' value' = toMap entries key value := by
  induction entries with
  | nil => rfl
  | cons e entries ih =>
      obtain ⟨hkey, hkeys⟩ := List.forall_mem_cons.mp hkey
      obtain ⟨hvalue, hvalues⟩ := List.forall_mem_cons.mp hvalue
      rw [toMap_cons, toMap_cons, ih hkeys hvalues, hkey, hvalue]

section Distinct

variable (h : (entries.map key).Nodup)
include h

/-- The key of an entry has the value of the entry. -/
theorem toMap_key (he : e ∈ entries) : toMap entries key value (key e) = some (value e) := by
  induction entries with
  | nil => exact absurd he List.not_mem_nil
  | cons e' entries ih =>
      rw [List.map_cons, List.nodup_cons] at h
      rw [toMap_cons]
      rcases List.mem_cons.mp he with rfl | he
      · rw [Function.update_self]
      · have hne : key e ≠ key e' := fun heq => h.1 (heq ▸ List.mem_map_of_mem he)
        rw [Function.update_of_ne hne]
        exact ih h.2 he

/-- Removing an entry removes its key. -/
theorem toMap_erase [DecidableEq ι] (he : e ∈ entries) :
    toMap (entries.erase e) key value =
      Function.update (toMap entries key value) (key e) none := by
  induction entries with
  | nil => exact absurd he List.not_mem_nil
  | cons e' entries ih =>
      rw [List.map_cons, List.nodup_cons] at h
      by_cases heq : e' = e
      · subst heq
        rw [List.erase_cons_head, toMap_cons, Function.update_idem]
        have hnone : toMap entries key value (key e') = none :=
          toMap_eq_none.mpr fun e he hkey => h.1 (hkey ▸ List.mem_map_of_mem he)
        rw [← hnone, Function.update_eq_self]
      · have hrest : e ∈ entries := (List.mem_cons.mp he).resolve_left (Ne.symm heq)
        have hne : key e ≠ key e' := fun hkey => h.1 (hkey ▸ List.mem_map_of_mem hrest)
        rw [List.erase_cons_tail (by simpa using heq), toMap_cons, toMap_cons, ih h.2 hrest,
          Function.update_comm hne]

/-- A part of a table stands for a part of its map. -/
theorem toMap_of_subset (hsub : entries' ⊆ entries) :
    toMap entries' key value k = toMap entries key value k ∨ toMap entries' key value k = none := by
  cases hv : toMap entries' key value k with
  | none => exact .inr rfl
  | some v =>
      obtain ⟨e, he, rfl, rfl⟩ := exists_of_toMap hv
      exact .inl (toMap_key h (hsub he)).symm

end Distinct

end Keyed
