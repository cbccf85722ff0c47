import Mathlib.Data.List.Basic
import Mathlib.Data.Set.Lattice
import Mathlib.Order.CompletePartialOrder

/-!
# Handing ranges over

Every place has an owner. A range of places can be given from one owner to another when the whole
range belongs to the first. Giving several ranges in turn may stop at one that shares a place with
an earlier one: `passes_iff` says when all of them can be given, `Passes.back` that they can then
be given back, and `giveAll_back` that this restores the owners.
-/

namespace Handovers

variable {L O : Type*} {owner : L → O} {old new : O} {r : Set L} {rs : List (Set L)} {l : L}

/-- The whole range belongs to `o`. -/
def Held (owner : L → O) (o : O) (r : Set L) : Prop := ∀ l ∈ r, owner l = o

open Classical in
/-- The owners after a range has been given to `new`. -/
noncomputable def give (new : O) (owner : L → O) (r : Set L) : L → O :=
  fun l => if l ∈ r then new else owner l

/-- The owners after some ranges have been given to `new`. -/
noncomputable def giveAll (new : O) (owner : L → O) (rs : List (Set L)) : L → O :=
  rs.foldl (give new) owner

/-- The ranges can be given in turn from `old` to `new`. -/
def Passes (old new : O) : (L → O) → List (Set L) → Prop
  | _, [] => True
  | owner, r :: rs => Held owner old r ∧ Passes old new (give new owner r) rs

theorem give_of_mem (h : l ∈ r) : give new owner r l = new := if_pos h

theorem give_of_notMem (h : l ∉ r) : give new owner r l = owner l := if_neg h

/-- A range stays with its owner when another one that it shares no place with is given away. -/
theorem Held.kept {r' : Set L} (h : Held owner old r') (hdisjoint : Disjoint r r') :
    Held (give new owner r) old r' := by
  intro l hl
  rw [give_of_notMem (Set.disjoint_right.mp hdisjoint hl), h l hl]

theorem give_held (h : Held owner new r) : give new owner r = owner := by
  funext l
  by_cases hl : l ∈ r
  · rw [give_of_mem hl, h l hl]
  · exact give_of_notMem hl

theorem giveAll_of_notMem (h : ∀ r ∈ rs, l ∉ r) : giveAll new owner rs l = owner l := by
  induction rs generalizing owner with
  | nil => rfl
  | cons r rs ih =>
      obtain ⟨hr, hrs⟩ := List.forall_mem_cons.mp h
      exact (ih hrs).trans (give_of_notMem hr)

theorem giveAll_of_mem (hr : r ∈ rs) (hl : l ∈ r) : giveAll new owner rs l = new := by
  induction rs generalizing owner r with
  | nil => exact absurd hr List.not_mem_nil
  | cons first rs ih =>
      -- The last range that has the place decides.
      by_cases hlater : ∃ r ∈ rs, l ∈ r
      · obtain ⟨r, hr, hl⟩ := hlater
        exact ih hr hl
      · have hnot : ∀ r ∈ rs, l ∉ r := fun r hr hl => hlater ⟨r, hr, hl⟩
        obtain rfl : r = first := (List.mem_cons.mp hr).resolve_right fun hr => hnot r hr hl
        exact (giveAll_of_notMem hnot).trans (give_of_mem hl)

/-- Giving ranges to `new` changes nothing if and only if they belong to it already. -/
theorem giveAll_eq_self_iff : giveAll new owner rs = owner ↔ ∀ r ∈ rs, Held owner new r := by
  constructor
  · intro h r hr l hl
    rw [← congrFun h l]
    exact giveAll_of_mem hr hl
  · intro h
    funext l
    by_cases hl : ∃ r ∈ rs, l ∈ r
    · obtain ⟨r, hr, hmem⟩ := hl
      rw [giveAll_of_mem hr hmem, h r hr l hmem]
    · push Not at hl
      exact giveAll_of_notMem hl

/-! ## When all ranges can be given -/

/-- What still belongs to the old owner has not been given away. -/
theorem Held.of_give {r' : Set L} (hne : old ≠ new) (h : Held (give new owner r) old r') :
    Held owner old r' ∧ Disjoint r r' := by
  have hnot : ∀ l ∈ r', l ∉ r := by
    intro l hl hgiven
    have hold := h l hl
    rw [give_of_mem hgiven] at hold
    exact hne hold.symm
  refine ⟨fun l hl => ?_, Set.disjoint_right.mpr hnot⟩
  rw [← h l hl, give_of_notMem (hnot l hl)]

theorem Passes.held (hne : old ≠ new) (h : Passes old new owner rs) :
    ∀ r ∈ rs, Held owner old r := by
  induction rs generalizing owner with
  | nil => exact fun r hr => absurd hr List.not_mem_nil
  | cons r rs ih =>
      exact List.forall_mem_cons.mpr ⟨h.1, fun r' hr' => ((ih h.2 r' hr').of_give hne).1⟩

theorem Passes.disjoint (hne : old ≠ new) (h : Passes old new owner rs) :
    rs.Pairwise Disjoint := by
  induction rs generalizing owner with
  | nil => exact .nil
  | cons r rs ih =>
      exact .cons (fun r' hr' => ((h.2.held hne r' hr').of_give hne).2) (ih h.2)

theorem passes_self (h : ∀ r ∈ rs, Held owner old r) : Passes old old owner rs := by
  induction rs with
  | nil => trivial
  | cons r rs ih =>
      obtain ⟨hr, hrs⟩ := List.forall_mem_cons.mp h
      refine ⟨hr, ?_⟩
      rw [give_held hr]
      exact ih hrs

theorem passes_of_disjoint (h : ∀ r ∈ rs, Held owner old r) (hdisjoint : rs.Pairwise Disjoint) :
    Passes old new owner rs := by
  induction rs generalizing owner with
  | nil => trivial
  | cons r rs ih =>
      obtain ⟨hr, hrs⟩ := List.forall_mem_cons.mp h
      obtain ⟨hfirst, hrest⟩ := List.pairwise_cons.mp hdisjoint
      exact ⟨hr, ih (fun r' hr' => (hrs r' hr').kept (hfirst r' hr')) hrest⟩

/-- Ranges of one owner can all be given to another one when no two of them share a place, or when
the two owners are the same. -/
theorem passes_iff (h : ∀ r ∈ rs, Held owner old r) :
    Passes old new owner rs ↔ old = new ∨ rs.Pairwise Disjoint := by
  constructor
  · intro hpasses
    by_cases heq : old = new
    · exact .inl heq
    · exact .inr (hpasses.disjoint heq)
  · rintro (rfl | hdisjoint)
    · exact passes_self h
    · exact passes_of_disjoint h hdisjoint

/-! ## Giving back -/

theorem giveAll_held : ∀ r ∈ rs, Held (giveAll new owner rs) new r :=
  fun _ hr _ hl => giveAll_of_mem hr hl

/-- What could be given can be given back. -/
theorem Passes.back (h : ∀ r ∈ rs, Held owner old r) (hpasses : Passes old new owner rs) :
    Passes new old (giveAll new owner rs) rs :=
  (passes_iff giveAll_held).mpr (((passes_iff h).mp hpasses).imp_left Eq.symm)

/-- Giving back restores the owners. -/
theorem giveAll_back (h : ∀ r ∈ rs, Held owner old r) :
    giveAll old (giveAll new owner rs) rs = owner := by
  funext l
  by_cases hl : ∃ r ∈ rs, l ∈ r
  · obtain ⟨r, hr, hl⟩ := hl
    rw [giveAll_of_mem hr hl, h r hr l hl]
  · have hnot : ∀ r ∈ rs, l ∉ r := fun r hr hmem => hl ⟨r, hr, hmem⟩
    rw [giveAll_of_notMem hnot, giveAll_of_notMem hnot]

end Handovers
