import Mathlib.Order.Interval.Set.Basic
import Mathlib.Order.Disjoint
import Mathlib.Data.List.Perm.Basic
import Mathlib.Data.Set.Lattice
import Mathlib.Order.CompletePartialOrder

/-!
# Sorted lists of disjoint spans

A `Span` is a non-empty half-open interval of a linear order. `place` and `insertAll` keep a list
of spans ascending and refuse a span that overlaps one already there; `insertAll_isSome_iff` says
when they succeed and `insertAll_spec` what they return.
-/

namespace Spans

variable {α : Type*} [LinearOrder α]

/-- A non-empty interval `[lo, hi)`. -/
@[ext] structure Span (α : Type*) [LinearOrder α] where
  lo : α
  hi : α
  lo_lt_hi : lo < hi

namespace Span

/-- The points of a span. -/
def points (s : Span α) : Set α := Set.Ico s.lo s.hi

instance : Membership α (Span α) := ⟨fun s x => x ∈ s.points⟩

instance (s : Span α) (x : α) : Decidable (x ∈ s) :=
  inferInstanceAs (Decidable (s.lo ≤ x ∧ x < s.hi))

theorem mem_iff {s : Span α} {x : α} : x ∈ s ↔ s.lo ≤ x ∧ x < s.hi := Iff.rfl

theorem lo_mem (s : Span α) : s.lo ∈ s := ⟨le_refl _, s.lo_lt_hi⟩

/-- The span ends before the other one starts. -/
def Before (s t : Span α) : Prop := s.hi ≤ t.lo

/-- The spans have a point in common. -/
def Overlaps (s t : Span α) : Prop := s.lo < t.hi ∧ t.lo < s.hi

instance (s t : Span α) : Decidable (s.Overlaps t) :=
  inferInstanceAs (Decidable (_ ∧ _))

theorem Overlaps.symm {s t : Span α} (h : s.Overlaps t) : t.Overlaps s := ⟨h.2, h.1⟩

theorem not_overlaps_iff {s t : Span α} : ¬ s.Overlaps t ↔ t.Before s ∨ s.Before t := by
  simp only [Overlaps, Before, not_and_or, not_lt]

theorem Before.not_overlaps {s t : Span α} (h : s.Before t) : ¬ s.Overlaps t :=
  not_overlaps_iff.mpr (.inr h)

theorem Before.lo_lt {s t : Span α} (h : s.Before t) : s.lo < t.lo :=
  lt_of_lt_of_le s.lo_lt_hi h

theorem Before.trans {s t u : Span α} (h : s.Before t) (h' : t.Before u) : s.Before u :=
  le_trans (le_trans h (le_of_lt t.lo_lt_hi)) h'

/-- Spans overlap exactly if they share a point. -/
theorem not_overlaps_iff_disjoint {s t : Span α} :
    ¬ s.Overlaps t ↔ Disjoint s.points t.points := by
  rw [Set.disjoint_left]
  constructor
  · intro h x hs ht
    exact h ⟨lt_of_le_of_lt hs.1 ht.2, lt_of_le_of_lt ht.1 hs.2⟩
  · intro h hoverlaps
    rcases le_total s.lo t.lo with hle | hle
    · exact h (show t.lo ∈ s.points from ⟨hle, hoverlaps.2⟩) t.lo_mem
    · exact h s.lo_mem (show s.lo ∈ t.points from ⟨hle, hoverlaps.1⟩)

end Span

/-- The spans follow each other without overlapping. -/
def Ascending (l : List (Span α)) : Prop := l.Pairwise Span.Before

/-- No two spans of the list overlap. -/
def Apart (l : List (Span α)) : Prop := l.Pairwise fun s t => ¬ s.Overlaps t

theorem Ascending.apart {l : List (Span α)} (h : Ascending l) : Apart l :=
  h.imp fun hbefore => hbefore.not_overlaps

theorem Apart.perm {l l' : List (Span α)} (h : Apart l) (hperm : l.Perm l') : Apart l' :=
  (hperm.pairwise_iff fun hs hoverlaps => hs hoverlaps.symm).mp h

/-- An ascending list is determined by its members. -/
theorem Ascending.eq_of_perm {l l' : List (Span α)} (h : Ascending l) (h' : Ascending l')
    (hperm : l.Perm l') : l = l' :=
  hperm.eq_of_pairwise
    (fun _ _ _ _ hst hts => absurd (hst.lo_lt.trans hts.lo_lt) (lt_irrefl _)) h h'

/-- A point of an ascending list lies in exactly one of its spans. -/
theorem Ascending.countP_mem {l : List (Span α)} (h : Ascending l) (x : α) :
    l.countP (fun s => decide (x ∈ s)) = if ∃ s ∈ l, x ∈ s then 1 else 0 := by
  induction l with
  | nil => simp
  | cons s l ih =>
      obtain ⟨hs, hl⟩ := List.pairwise_cons.mp h
      rw [List.countP_cons, ih hl]
      by_cases hx : x ∈ s
      · have hrest : ¬ ∃ t ∈ l, x ∈ t := by
          rintro ⟨t, ht, hxt⟩
          exact absurd (lt_of_lt_of_le hx.2 (le_trans (hs t ht) hxt.1)) (lt_irrefl _)
        simp [hx, hrest]
      · simp [hx]

/-- Look for the place of a span in an ascending list: the spans before it and after it, or `none`
when it overlaps one of those passed. -/
def place (s : Span α) : List (Span α) → Option (List (Span α) × List (Span α))
  | [] => some ([], [])
  | t :: rest =>
      if s.Overlaps t then none
      else if s.lo < t.lo then some ([], t :: rest)
      else (place s rest).map fun (before, after) => (t :: before, after)

theorem place_cons_eq_some {s t : Span α} {rest : List (Span α)}
    {found : List (Span α) × List (Span α)} (h : place s (t :: rest) = some found) :
    (s.Before t ∧ found = ([], t :: rest)) ∨
      (t.Before s ∧ ∃ before after, place s rest = some (before, after) ∧
        found = (t :: before, after)) := by
  rw [place] at h
  split at h
  case isTrue => cases h
  case isFalse hoverlaps =>
    rcases Span.not_overlaps_iff.mp hoverlaps with hbefore | hbefore
    · rw [if_neg (not_lt_of_gt hbefore.lo_lt), Option.map_eq_some_iff] at h
      obtain ⟨⟨before, after⟩, hplace, rfl⟩ := h
      exact .inr ⟨hbefore, before, after, hplace, rfl⟩
    · rw [if_pos hbefore.lo_lt] at h
      cases h
      exact .inl ⟨hbefore, rfl⟩

/-- A place splits the list around the span. -/
theorem place_spec {s : Span α} {l before after : List (Span α)} (hl : Ascending l)
    (h : place s l = some (before, after)) :
    before ++ after = l ∧ (∀ t ∈ before, t.Before s) ∧ ∀ t ∈ after, s.Before t := by
  induction l generalizing before after with
  | nil =>
      cases h
      simp
  | cons t rest ih =>
      obtain ⟨ht, hrest⟩ := List.pairwise_cons.mp hl
      rcases place_cons_eq_some h with ⟨hbefore, hfound⟩ | ⟨hbefore, b, a, hplace, hfound⟩
      · cases hfound
        refine ⟨rfl, by simp, ?_⟩
        intro u hu
        rcases List.mem_cons.mp hu with rfl | hu
        · exact hbefore
        · exact hbefore.trans (ht u hu)
      · cases hfound
        obtain ⟨happend, hb, ha⟩ := ih hrest hplace
        refine ⟨by rw [List.cons_append, happend], ?_, ha⟩
        intro u hu
        rcases List.mem_cons.mp hu with rfl | hu
        · exact hbefore
        · exact hb u hu

/-- A span finds a place exactly if it overlaps no span of the list: those not passed start after
the one at which the search stops. -/
theorem place_isSome_iff {s : Span α} {l : List (Span α)} (hl : Ascending l) :
    (place s l).isSome ↔ ∀ t ∈ l, ¬ s.Overlaps t := by
  constructor
  · intro h
    obtain ⟨⟨before, after⟩, hplace⟩ := Option.isSome_iff_exists.mp h
    obtain ⟨happend, hb, ha⟩ := place_spec hl hplace
    intro t ht
    rw [← happend, List.mem_append] at ht
    rcases ht with ht | ht
    · exact fun hoverlaps => (hb t ht).not_overlaps hoverlaps.symm
    · exact (ha t ht).not_overlaps
  · intro h
    induction l with
    | nil => rfl
    | cons t rest ih =>
        rw [place, if_neg (h t (by simp))]
        split
        · rfl
        · rw [Option.isSome_map]
          exact ih (List.pairwise_cons.mp hl).2 fun u hu => h u (by simp [hu])

/-- Putting a span at its place keeps the list ascending. -/
theorem Ascending.insert {s : Span α} {l before after : List (Span α)} (hl : Ascending l)
    (h : place s l = some (before, after)) : Ascending (before ++ s :: after) := by
  obtain ⟨rfl, hb, ha⟩ := place_spec hl h
  obtain ⟨hbefore, hafter, hcross⟩ := List.pairwise_append.mp hl
  refine List.pairwise_append.mpr ⟨hbefore, List.pairwise_cons.mpr ⟨ha, hafter⟩, ?_⟩
  intro t ht u hu
  rcases List.mem_cons.mp hu with rfl | hu
  · exact hb t ht
  · exact hcross t ht u hu

/-- Insert spans one after the other; `none` when one overlaps a span already there. -/
def insertAll : List (Span α) → List (Span α) → Option (List (Span α))
  | [], l => some l
  | s :: rest, l =>
      match place s l with
      | none => none
      | some (before, after) => insertAll rest (before ++ s :: after)

/-- What is returned is ascending and consists of the old spans and the new ones. -/
theorem insertAll_spec {new l l' : List (Span α)} (hl : Ascending l)
    (h : insertAll new l = some l') : Ascending l' ∧ l'.Perm (new ++ l) := by
  induction new generalizing l with
  | nil =>
      cases h
      exact ⟨hl, .refl _⟩
  | cons s rest ih =>
      rw [insertAll] at h
      split at h
      · cases h
      · rename_i before after hplace
        obtain ⟨hascending, hperm⟩ := ih (hl.insert hplace) h
        obtain ⟨rfl, -, -⟩ := place_spec hl hplace
        refine ⟨hascending, hperm.trans ?_⟩
        exact (List.Perm.append_left rest List.perm_middle).trans List.perm_middle

/-- Spans can be inserted exactly if no two of them and the old ones overlap. -/
theorem insertAll_isSome_iff {new l : List (Span α)} (hl : Ascending l) :
    (insertAll new l).isSome ↔ Apart (new ++ l) := by
  induction new generalizing l with
  | nil => simpa [insertAll] using hl.apart
  | cons s rest ih =>
      have hcons : Apart (s :: rest ++ l) ↔
          (∀ t ∈ l, ¬ s.Overlaps t) ∧ Apart (rest ++ s :: l) := by
        have hmiddle : Apart (s :: (rest ++ l)) ↔ Apart (rest ++ s :: l) :=
          ⟨fun h => h.perm List.perm_middle.symm, fun h => h.perm List.perm_middle⟩
        rw [List.cons_append, ← hmiddle]
        refine ⟨fun h => ⟨?_, h⟩, fun h => h.2⟩
        intro t ht
        exact (List.pairwise_cons.mp h).1 t (List.mem_append.mpr (.inr ht))
      rw [hcons, ← place_isSome_iff hl, insertAll]
      split
      · rename_i hplace
        simp [hplace]
      · rename_i before after hplace
        obtain ⟨rfl, -, -⟩ := place_spec hl hplace
        rw [ih (hl.insert hplace), hplace]
        have hperm : (rest ++ (before ++ s :: after)).Perm (rest ++ s :: (before ++ after)) :=
          List.Perm.append_left rest List.perm_middle
        simpa using ⟨fun h : Apart _ => h.perm hperm, fun h : Apart _ => h.perm hperm.symm⟩

end Spans
