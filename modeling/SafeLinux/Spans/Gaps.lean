import SafeLinux.Spans.Basic

/-!
# The gaps of an ascending list of spans

`gaps bot top l` lists what the spans of `l` leave free between `bot` and `top`. `mem_gaps` says
that it misses nothing and adds nothing, `gaps_ascending` that the gaps do not overlap, and
`gaps_eq_between` computes it in three parts: the head, the gaps between neighbours and the tail.
-/

namespace Spans

variable {α : Type*} [LinearOrder α]

/-- The span from `lo` to `hi`, if there is one. -/
def gap (lo hi : α) : List (Span α) :=
  if h : lo < hi then [⟨lo, hi, h⟩] else []

/-- What the spans of a list leave free between `bot` and `top`. -/
def gaps (bot top : α) : List (Span α) → List (Span α)
  | [] => gap bot top
  | s :: rest => gap bot s.lo ++ gaps s.hi top rest

/-- What lies between `prev` and the spans of a list, and between these. -/
def between (prev : Span α) : List (Span α) → List (Span α)
  | [] => []
  | s :: rest => gap prev.hi s.lo ++ between s rest

theorem mem_gap {lo hi x : α} : (∃ g ∈ gap lo hi, x ∈ g) ↔ lo ≤ x ∧ x < hi := by
  unfold gap
  split
  · simp [Span.mem_iff]
  · rename_i h
    simp only [List.not_mem_nil, false_and, exists_false, false_iff, not_and, not_lt]
    exact fun hlo => le_trans (not_lt.mp h) hlo

theorem lo_of_mem_gap {lo hi : α} {g : Span α} (h : g ∈ gap lo hi) : g.lo = lo ∧ g.hi = hi := by
  unfold gap at h
  split at h
  · obtain rfl := List.mem_singleton.mp h
    exact ⟨rfl, rfl⟩
  · cases h

theorem gap_ascending (lo hi : α) : Ascending (gap lo hi) := by
  unfold gap
  split
  · exact List.pairwise_singleton _ _
  · exact List.Pairwise.nil

/-- A gap starts at or after the lower end. -/
theorem le_lo_of_mem_gaps {bot top : α} {l : List (Span α)} (hl : Ascending l)
    (hbot : ∀ s ∈ l, bot ≤ s.lo) {g : Span α} (h : g ∈ gaps bot top l) : bot ≤ g.lo := by
  induction l generalizing bot with
  | nil => exact le_of_eq (lo_of_mem_gap h).1.symm
  | cons s rest ih =>
      rcases List.mem_append.mp h with h | h
      · exact le_of_eq (lo_of_mem_gap h).1.symm
      · obtain ⟨hs, hrest⟩ := List.pairwise_cons.mp hl
        have hbotlo : bot ≤ s.lo := hbot s (by simp)
        exact le_trans (le_trans hbotlo (le_of_lt s.lo_lt_hi)) (ih hrest hs h)

/-- The gaps do not overlap. -/
theorem gaps_ascending {bot top : α} {l : List (Span α)} (hl : Ascending l)
    (hbot : ∀ s ∈ l, bot ≤ s.lo) : Ascending (gaps bot top l) := by
  induction l generalizing bot with
  | nil => exact gap_ascending bot top
  | cons s rest ih =>
      obtain ⟨hs, hrest⟩ := List.pairwise_cons.mp hl
      refine List.pairwise_append.mpr ⟨gap_ascending _ _, ih hrest hs, ?_⟩
      intro g hg g' hg'
      have hlo : s.hi ≤ g'.lo := le_lo_of_mem_gaps hrest hs hg'
      exact le_trans (le_of_eq (lo_of_mem_gap hg).2) (le_trans (le_of_lt s.lo_lt_hi) hlo)

/-- A point lies in a gap exactly if it lies between the ends and in no span. -/
theorem mem_gaps {bot top x : α} {l : List (Span α)} (hl : Ascending l)
    (hbot : ∀ s ∈ l, bot ≤ s.lo) (htop : ∀ s ∈ l, s.hi ≤ top) :
    (∃ g ∈ gaps bot top l, x ∈ g) ↔ bot ≤ x ∧ x < top ∧ ∀ s ∈ l, x ∉ s := by
  induction l generalizing bot with
  | nil => simp [gaps, mem_gap]
  | cons s rest ih =>
      obtain ⟨hs, hrest⟩ := List.pairwise_cons.mp hl
      have hih := ih hrest hs fun t ht => htop t (by simp [ht])
      have hbotlo : bot ≤ s.lo := hbot s (by simp)
      have hhitop : s.hi ≤ top := htop s (by simp)
      have hsplit : (∃ g ∈ gaps bot top (s :: rest), x ∈ g) ↔
          (∃ g ∈ gap bot s.lo, x ∈ g) ∨ ∃ g ∈ gaps s.hi top rest, x ∈ g := by
        simp [gaps, or_and_right, exists_or]
      rw [hsplit, mem_gap, hih]
      constructor
      · rintro (⟨hx, hlo⟩ | ⟨hx, hx', hnot⟩)
        · refine ⟨hx, lt_of_lt_of_le hlo (le_trans (le_of_lt s.lo_lt_hi) hhitop), ?_⟩
          intro t ht hmem
          rcases List.mem_cons.mp ht with rfl | ht
          · exact absurd hmem.1 (not_le_of_gt hlo)
          · exact absurd (lt_of_lt_of_le hlo (le_of_lt s.lo_lt_hi))
              (not_lt_of_ge (le_trans (hs t ht) hmem.1))
        · refine ⟨le_trans (le_trans hbotlo (le_of_lt s.lo_lt_hi)) hx, hx', ?_⟩
          intro t ht hmem
          rcases List.mem_cons.mp ht with rfl | ht
          · exact absurd hmem.2 (not_lt_of_ge hx)
          · exact hnot t ht hmem
      · rintro ⟨hx, hx', hnot⟩
        rcases lt_or_ge x s.lo with hlo | hlo
        · exact .inl ⟨hx, hlo⟩
        · have hhi : s.hi ≤ x := not_lt.mp fun hlt => hnot s (by simp) ⟨hlo, hlt⟩
          exact .inr ⟨hhi, hx', fun t ht => hnot t (by simp [ht])⟩

/-- What holds of both ends and of the ends of every span holds of the ends of every gap. -/
theorem ends_of_mem_gaps {P : α → Prop} {bot top : α} {l : List (Span α)} (hbot : P bot)
    (htop : P top) (hl : ∀ s ∈ l, P s.lo ∧ P s.hi) {g : Span α} (h : g ∈ gaps bot top l) :
    P g.lo ∧ P g.hi := by
  induction l generalizing bot with
  | nil =>
      obtain ⟨hlo, hhi⟩ := lo_of_mem_gap h
      exact ⟨hlo ▸ hbot, hhi ▸ htop⟩
  | cons s rest ih =>
      obtain ⟨hslo, hshi⟩ := hl s (by simp)
      rcases List.mem_append.mp h with h | h
      · obtain ⟨hlo, hhi⟩ := lo_of_mem_gap h
        exact ⟨hlo ▸ hbot, hhi ▸ hslo⟩
      · exact ih hshi (fun t ht => hl t (by simp [ht])) h

/-- The gaps of a non-empty list, in three parts. -/
theorem gaps_eq_between (bot top : α) (s : Span α) (rest : List (Span α)) :
    gaps bot top (s :: rest) =
      gap bot s.lo ++ (between s rest ++ gap (rest.getLastD s).hi top) := by
  induction rest generalizing bot s with
  | nil => rfl
  | cons t rest ih =>
      have hih := ih s.hi t
      rw [gaps, hih, between, List.getLastD_cons, List.append_assoc]

/-- The last span of an ascending list ends last. -/
theorem Ascending.hi_le_getLastD {s : Span α} {rest : List (Span α)} (h : Ascending (s :: rest))
    {t : Span α} (ht : t ∈ s :: rest) : t.hi ≤ (rest.getLastD s).hi := by
  induction rest generalizing s t with
  | nil => exact le_of_eq (by rw [List.mem_singleton.mp ht]; rfl)
  | cons u rest ih =>
      obtain ⟨hs, hrest⟩ := List.pairwise_cons.mp h
      rw [List.getLastD_cons]
      rcases List.mem_cons.mp ht with rfl | ht
      · exact le_trans (le_trans (hs u (by simp)) (le_of_lt u.lo_lt_hi)) (ih hrest (by simp))
      · exact ih hrest ht

end Spans
