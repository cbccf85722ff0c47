import Mathlib.Algebra.BigOperators.Group.Finset.Basic
import Mathlib.Algebra.GroupWithZero.Nat
import Mathlib.Algebra.Order.BigOperators.Group.Finset
import Mathlib.Algebra.Order.Group.Multiset

/-!
# Ledgers

A family of tables whose entries each need some resources. A stock of resources covers the tables
when, for every finite choice of tables, all their entries together need no more than there is; so
each entry has what it needs for itself. The lemmas say how covering survives when an entry is
added or removed.
-/

namespace Ledgers

variable {ι κ ρ : Type*} {table : ι → List κ} {needs needs' : κ → Multiset ρ}
  {held held' : Multiset ρ} {C : Finset ι} {c : ι} {k : κ}

/-- What the entries of some tables need together. -/
def demand (table : ι → List κ) (needs : κ → Multiset ρ) (C : Finset ι) : Multiset ρ :=
  ∑ c ∈ C, ((table c).map needs).sum

/-- The stock covers the demand of all tables. -/
def Covers (table : ι → List κ) (needs : κ → Multiset ρ) (held : Multiset ρ) : Prop :=
  ∀ C : Finset ι, demand table needs C ≤ held

theorem demand_mono {C' : Finset ι} (h : C ⊆ C') : demand table needs C ≤ demand table needs C' :=
  Finset.sum_le_sum_of_subset h

theorem demand_congr (h : ∀ c, ∀ k ∈ table c, needs k = needs' k) :
    demand table needs C = demand table needs' C := by
  refine Finset.sum_congr rfl fun c _ => ?_
  rw [List.map_congr_left (h c)]

theorem needs_le_demand (hc : c ∈ C) (hk : k ∈ table c) : needs k ≤ demand table needs C := by
  have hsum : needs k ≤ ((table c).map needs).sum :=
    List.single_le_sum (fun _ _ => Multiset.zero_le _) _ (List.mem_map_of_mem hk)
  have htotal : ((table c).map needs).sum ≤ demand table needs C :=
    Finset.single_le_sum (fun _ _ => Multiset.zero_le _) hc
  exact hsum.trans htotal

theorem mem_demand {r : ρ} (h : r ∈ demand table needs C) :
    ∃ c ∈ C, ∃ k ∈ table c, r ∈ needs k := by
  obtain ⟨c, hc, hr⟩ := Multiset.mem_sum.mp h
  refine ⟨c, hc, ?_⟩
  generalize table c = l at hr ⊢
  induction l with
  | nil => simp at hr
  | cons k l ih =>
      rw [List.map_cons, List.sum_cons, Multiset.mem_add] at hr
      rcases hr with hr | hr
      · exact ⟨k, List.mem_cons_self, hr⟩
      · obtain ⟨k', hk', hr'⟩ := ih hr
        exact ⟨k', List.mem_cons_of_mem _ hk', hr'⟩

section Update

variable [DecidableEq ι]

/-- Changing one table changes its part of the demand. -/
theorem demand_update {l : List κ} (hc : c ∈ C) :
    demand (Function.update table c l) needs C + ((table c).map needs).sum =
      demand table needs C + (l.map needs).sum := by
  have hrest : ∀ c' ∈ C.erase c, ((Function.update table c l c').map needs).sum =
      ((table c').map needs).sum := by
    intro c' hc'
    rw [Function.update_of_ne (Finset.ne_of_mem_erase hc')]
  simp only [demand, ← Finset.add_sum_erase C _ hc, Finset.sum_congr rfl hrest,
    Function.update_self]
  ac_rfl

/-- Changing a table outside of a choice changes nothing for the choice. -/
theorem demand_update_of_notMem {l : List κ} (hc : c ∉ C) :
    demand (Function.update table c l) needs C = demand table needs C := by
  refine Finset.sum_congr rfl fun c' hc' => ?_
  rw [Function.update_of_ne (ne_of_mem_of_not_mem hc' hc)]

end Update

namespace Covers

/-- Empty tables need nothing. -/
theorem empty (h : ∀ c, table c = []) : Covers table needs held := by
  intro C
  simp [demand, h]

theorem mono (h : Covers table needs held) (hle : held ≤ held') : Covers table needs held' :=
  fun C => (h C).trans hle

theorem congr (h : Covers table needs held) (hneeds : ∀ c, ∀ k ∈ table c, needs k = needs' k) :
    Covers table needs' held := by
  intro C
  rw [← demand_congr hneeds]
  exact h C

/-- A single entry has what it needs. -/
theorem needs_le (h : Covers table needs held) (hk : k ∈ table c) : needs k ≤ held :=
  (needs_le_demand (Finset.mem_singleton_self c) hk).trans (h {c})

theorem mem {r : ρ} (h : Covers table needs held) (hk : k ∈ table c) (hr : r ∈ needs k) :
    r ∈ held :=
  Multiset.mem_of_le (h.needs_le hk) hr

/-- A single table has what its entries need. -/
theorem table_le (h : Covers table needs held) (c : ι) : ((table c).map needs).sum ≤ held := by
  simpa [demand] using h {c}

/-- The stock may lose what no entry needs. -/
theorem erase [DecidableEq ρ] {r : ρ} (h : Covers table needs held)
    (hr : ∀ c, ∀ k ∈ table c, r ∉ needs k) : Covers table needs (held.erase r) := by
  intro C
  have hnot : r ∉ demand table needs C := by
    intro hmem
    obtain ⟨c, _, k, hk, hr'⟩ := mem_demand hmem
    exact hr c k hk hr'
  rw [← Multiset.erase_of_notMem hnot]
  exact Multiset.erase_le_erase r (h C)

variable [DecidableEq ι]

/-- An entry is added together with what it needs. -/
theorem cons (h : Covers table needs held) (c : ι) (k : κ) :
    Covers (Function.update table c (k :: table c)) needs (needs k + held) := by
  intro C
  by_cases hc : c ∈ C
  · have hsum : _ = demand table needs C + ((k :: table c).map needs).sum := demand_update hc
    rw [List.map_cons, List.sum_cons, ← add_assoc] at hsum
    rw [add_right_cancel hsum, add_comm]
    exact add_le_add le_rfl (h C)
  · rw [demand_update_of_notMem hc]
    exact (h C).trans (Multiset.le_add_left _ _)

/-- An entry is removed, and what it needed may go. -/
theorem remove [DecidableEq κ] [DecidableEq ρ] (h : Covers table needs held) (hk : k ∈ table c) :
    Covers (Function.update table c ((table c).erase k)) needs (held - needs k) := by
  intro C
  have hc : c ∈ insert c C := Finset.mem_insert_self c C
  have hsum : _ = demand table needs (insert c C) + (((table c).erase k).map needs).sum :=
    demand_update hc
  have htable : ((table c).map needs).sum = needs k + (((table c).erase k).map needs).sum :=
    (((List.perm_cons_erase hk).map needs).sum_eq).trans List.sum_cons
  rw [htable, ← add_assoc] at hsum
  refine (demand_mono (Finset.subset_insert c C)).trans (le_tsub_of_add_le_right ?_)
  rw [add_right_cancel hsum]
  exact h _

variable {c' : ι} {k' : κ} {r : ρ}

/-- Two entries in different places have what they need together. -/
theorem two_le [DecidableEq κ] [DecidableEq ρ] (h : Covers table needs held) (hk : k ∈ table c)
    (hk' : k' ∈ Function.update table c ((table c).erase k) c') :
    needs k + needs k' ≤ held := by
  have hle : needs k' ≤ held - needs k := (h.remove hk).needs_le hk'
  calc needs k + needs k' ≤ needs k + (held - needs k) := add_le_add le_rfl hle
    _ = held := add_tsub_cancel_of_le (h.needs_le hk)

/-- What is there only once is not needed in two places. -/
theorem needed_once [DecidableEq κ] [DecidableEq ρ] (h : Covers table needs held)
    (honce : held.count r ≤ 1) (hk : k ∈ table c) (hr : r ∈ needs k) (hr' : r ∈ needs k') :
    k' ∉ Function.update table c ((table c).erase k) c' := by
  intro hk'
  have hcount := Multiset.count_le_of_le r (h.two_le hk hk')
  rw [Multiset.count_add] at hcount
  have hpos := Multiset.count_pos.mpr hr
  have hpos' := Multiset.count_pos.mpr hr'
  omega

/-- Two entries that need the same thing, of which there is one, are the same entry. -/
theorem eq_of_needed [DecidableEq κ] [DecidableEq ρ] (h : Covers table needs held)
    (honce : held.count r ≤ 1) (hk : k ∈ table c) (hk' : k' ∈ table c') (hr : r ∈ needs k)
    (hr' : r ∈ needs k') : c' = c ∧ k' = k := by
  have hnot : k' ∉ Function.update table c ((table c).erase k) c' := h.needed_once honce hk hr hr'
  by_cases hc : c' = c
  · subst hc
    rw [Function.update_self] at hnot
    refine ⟨rfl, ?_⟩
    by_contra hne
    exact hnot ((List.mem_erase_of_ne hne).mpr hk')
  · rw [Function.update_of_ne hc] at hnot
    exact absurd hk' hnot

/-- A table whose entries each need something there is only one of has no entry twice. -/
theorem nodup [DecidableEq κ] [DecidableEq ρ] (h : Covers table needs held)
    (honce : ∀ k ∈ table c, ∃ r ∈ needs k, held.count r ≤ 1) : (table c).Nodup := by
  rw [List.nodup_iff_count_le_one]
  intro k
  by_contra hcount
  have hk : k ∈ table c := List.count_pos_iff.mp (by omega)
  obtain ⟨r, hr, hlone⟩ := honce k hk
  have hnot : k ∉ Function.update table c ((table c).erase k) c := h.needed_once hlone hk hr hr
  refine hnot ?_
  rw [Function.update_self, ← List.count_pos_iff, List.count_erase_self]
  omega

end Covers

/-- How much of one thing the entries of some tables need. -/
theorem count_demand [DecidableEq ρ] {r : ρ} :
    (demand table needs C).count r = ∑ c ∈ C, ((table c).map fun k => (needs k).count r).sum := by
  have htable : ∀ l : List κ, ((l.map needs).sum).count r =
      (l.map fun k => (needs k).count r).sum := by
    intro l
    induction l with
    | nil => rfl
    | cons k l ih =>
        rw [List.map_cons, List.sum_cons, Multiset.count_add, ih, List.map_cons, List.sum_cons]
  rw [demand, Multiset.count_sum']
  exact Finset.sum_congr rfl fun c _ => htable (table c)

end Ledgers
