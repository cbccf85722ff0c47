import Mathlib.Algebra.BigOperators.Group.List.Basic
import Mathlib.Data.List.Perm.Basic
import Mathlib.Algebra.Order.Ring.Int

/-!
# Registries that count

A registry is a list of entries, each of which names an object and counts how often it is in use.
The tally of an object is the sum of the counts of the entries that name it. While no two entries
name the same object, the tally is the count of the one entry that does; the lemmas say how it
follows when an entry is added, removed or counts differently.
-/

namespace Registries

variable {ι α : Type*} [DecidableEq α] {entries entries' : List ι} {name name' : ι → α}
  {count count' : ι → Nat} {e : ι} {a : α}

/-- How often an object is in use. -/
def tally (entries : List ι) (name : ι → α) (count : ι → Nat) (a : α) : Nat :=
  (entries.map fun e => if name e = a then count e else 0).sum

@[simp] theorem tally_nil : tally [] name count a = 0 := rfl

theorem tally_cons :
    tally (e :: entries) name count a =
      (if name e = a then count e else 0) + tally entries name count a :=
  List.sum_cons

/-- The order of the entries does not matter. -/
theorem tally_perm (h : entries.Perm entries') :
    tally entries name count a = tally entries' name count a :=
  (h.map _).sum_eq

theorem tally_congr (hname : ∀ e ∈ entries, name' e = name e)
    (hcount : ∀ e ∈ entries, count' e = count e) :
    tally entries name' count' a = tally entries name count a := by
  unfold tally
  congr 1
  refine List.map_congr_left fun e he => ?_
  rw [hname e he, hcount e he]

/-- An object that no entry names is not in use. -/
theorem tally_of_notMem (h : a ∉ entries.map name) : tally entries name count a = 0 := by
  induction entries with
  | nil => rfl
  | cons e entries ih =>
      rw [List.map_cons, List.mem_cons, not_or] at h
      rw [tally_cons, ih h.2, if_neg (Ne.symm h.1)]

/-- The tally of an object is the count of the entry that names it. -/
theorem tally_of_mem (hnodup : (entries.map name).Nodup) (he : e ∈ entries) :
    tally entries name count (name e) = count e := by
  induction entries with
  | nil => cases he
  | cons e' entries ih =>
      rw [List.map_cons, List.nodup_cons] at hnodup
      rw [tally_cons]
      rcases List.mem_cons.mp he with rfl | he
      · rw [if_pos rfl, tally_of_notMem hnodup.1, add_zero]
      · have hne : name e' ≠ name e := fun heq =>
          hnodup.1 (heq ▸ List.mem_map_of_mem he)
        rw [if_neg hne, ih hnodup.2 he, zero_add]

/-- When one entry counts differently, the tally of its object changes with it. -/
theorem tally_recount (hnodup : (entries.map name).Nodup) (he : e ∈ entries)
    (hname : ∀ e ∈ entries, name' e = name e)
    (hcount : ∀ e' ∈ entries, e' ≠ e → count' e' = count e') :
    tally entries name' count' a =
      if name e = a then count' e else tally entries name count a := by
  by_cases ha : name e = a
  · subst ha
    have hnames : entries.map name' = entries.map name := List.map_congr_left hname
    rw [if_pos rfl, ← hname e he]
    exact tally_of_mem (hnames ▸ hnodup) he
  · rw [if_neg ha]
    unfold tally
    congr 1
    refine List.map_congr_left fun e' he' => ?_
    rw [hname e' he']
    by_cases heq : e' = e
    · rw [heq, if_neg ha, if_neg ha]
    · rw [hcount e' he' heq]

/-- Entries that do not count can be removed. -/
theorem tally_filter {p : ι → Bool} (h : ∀ e ∈ entries, p e = false → count e = 0) :
    tally (entries.filter p) name count a = tally entries name count a := by
  induction entries with
  | nil => rfl
  | cons e entries ih =>
      have hrest := ih fun e he => h e (List.mem_cons_of_mem _ he)
      cases hp : p e with
      | true => rw [List.filter_cons_of_pos hp, tally_cons, tally_cons, hrest]
      | false =>
          have hzero := h e List.mem_cons_self hp
          rw [List.filter_cons_of_neg (by simp [hp]), tally_cons, hrest, hzero, ite_self, zero_add]

/-- When the entry of an object is removed, the object is not in use any more. -/
theorem tally_erase {p : ι → Bool} (hnodup : (entries.map name).Nodup) (he : e ∈ entries)
    (hp : ∀ e' ∈ entries, p e' = true ↔ e' ≠ e) :
    tally (entries.filter p) name count a =
      if name e = a then 0 else tally entries name count a := by
  classical
  have hcount : ∀ e' ∈ entries, e' ≠ e → (if e' = e then 0 else count e') = count e' :=
    fun e' _ hne => if_neg hne
  calc tally (entries.filter p) name count a
      = tally (entries.filter p) name (fun e' => if e' = e then 0 else count e') a := by
        refine tally_congr (fun _ _ => rfl) fun e' he' => ?_
        obtain ⟨hmem, hp'⟩ := List.mem_filter.mp he'
        exact (hcount e' hmem ((hp e' hmem).mp hp')).symm
    _ = tally entries name (fun e' => if e' = e then 0 else count e') a := by
        refine tally_filter fun e' he' hp' => if_pos ?_
        by_contra hne
        simp [(hp e' he').mpr hne] at hp'
    _ = if name e = a then 0 else tally entries name count a := by
        rw [tally_recount hnodup he (fun _ _ => rfl) hcount, if_pos rfl]

end Registries
