import Mathlib.Data.List.Basic
import Mathlib.Data.Set.Lattice
import Mathlib.Order.Interval.Set.Basic
import Mathlib.Order.CompletePartialOrder

/-!
# Tilings

A list of live objects, each occupying some cells, tiles a set of marked cells when no two of them
occupy a common cell and the marked cells are those that are occupied. The lemmas say how a tiling
survives when an object is placed on free cells or taken away.
-/

namespace Tilings

variable {ρ β : Type*} {cells : ρ → Set β} {live : List ρ} {marked : Set β} {r : ρ}

/-- The live objects occupy pairwise disjoint cells, which together are the marked ones. -/
structure Tiles (cells : ρ → Set β) (live : List ρ) (marked : Set β) : Prop where
  disjoint : live.Pairwise fun r r' => Disjoint (cells r) (cells r')
  union : marked = ⋃ r ∈ live, cells r

theorem Tiles.mem_iff (h : Tiles cells live marked) {x : β} :
    x ∈ marked ↔ ∃ r ∈ live, x ∈ cells r := by
  rw [h.union]
  simp

theorem Tiles.cells_subset (h : Tiles cells live marked) (hr : r ∈ live) : cells r ⊆ marked :=
  fun _ hx => h.mem_iff.mpr ⟨r, hr, hx⟩

theorem tiles_nil : Tiles cells [] ∅ := ⟨List.Pairwise.nil, by simp⟩

/-- An object that occupies free cells can be placed. -/
theorem Tiles.cons (h : Tiles cells live marked) (hfree : Disjoint (cells r) marked) :
    Tiles cells (r :: live) (cells r ∪ marked) := by
  refine ⟨List.pairwise_cons.mpr ⟨?_, h.disjoint⟩, ?_⟩
  · intro r' hr'
    exact hfree.mono_right (h.cells_subset hr')
  · rw [h.union]
    simp

/-- The order of the objects does not matter. -/
theorem Tiles.perm {live' : List ρ} (h : Tiles cells live marked) (hperm : live.Perm live') :
    Tiles cells live' marked := by
  refine ⟨(hperm.pairwise_iff fun hdisjoint => hdisjoint.symm).mp h.disjoint, ?_⟩
  ext x
  rw [h.mem_iff]
  simp [hperm.mem_iff]

/-- The first object can be taken away. -/
theorem Tiles.tail (h : Tiles cells (r :: live) marked) : Tiles cells live (marked \ cells r) := by
  obtain ⟨hfirst, hrest⟩ := List.pairwise_cons.mp h.disjoint
  refine ⟨hrest, ?_⟩
  ext x
  rw [Set.mem_sdiff, h.mem_iff]
  simp only [List.mem_cons, exists_eq_or_imp, Set.mem_iUnion, exists_prop]
  constructor
  · rintro ⟨hx | hx, hnot⟩
    · exact absurd hx hnot
    · exact hx
  · rintro ⟨r', hr', hx⟩
    refine ⟨.inr ⟨r', hr', hx⟩, fun hxr => ?_⟩
    exact Set.disjoint_left.mp (hfirst r' hr') hxr hx

/-- Any object can be taken away. -/
theorem Tiles.erase [DecidableEq ρ] (h : Tiles cells live marked) (hr : r ∈ live) :
    Tiles cells (live.erase r) (marked \ cells r) :=
  (h.perm (List.perm_cons_erase hr)).tail

/-- The objects may be looked at by what they occupy cells with. -/
theorem tiles_map {σ : Type*} {f : σ → ρ} {live : List σ} :
    Tiles cells (live.map f) marked ↔ Tiles (fun o => cells (f o)) live marked := by
  have hunion : ⋃ r ∈ live.map f, cells r = ⋃ o ∈ live, cells (f o) := by
    ext x
    simp
  constructor
  · intro h
    have hdisjoint := h.disjoint
    rw [List.pairwise_map] at hdisjoint
    exact ⟨hdisjoint, h.union.trans hunion⟩
  · intro h
    refine ⟨?_, h.union.trans hunion.symm⟩
    rw [List.pairwise_map]
    exact h.disjoint

end Tilings
