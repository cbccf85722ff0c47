import SafeLinux.IovaMap.Pool

/-!
# The reserved regions are what the pool leaves free

`invert_regions` computes the gaps of the ascending pool regions in the three parts of
`Spans.gaps_eq_between`. Its test for the last part leaves out a gap of one address: a pool that
ends one short of the address space gets no region for the last address.
-/

namespace SafeLinux.IovaMap

open Effects Spans

/-- The end of the address space. -/
abbrev addressEnd : ℕ := 2 ^ 64

/-- The last gap as `invert_regions` computes it, from the end of the last region. -/
def tailGap (stop : ℕ) : List (Span ℕ) :=
  if stop < addressEnd - 1 then gap stop addressEnd else []

/-- The result of a part of `invert_regions` on regions that denote the given spans. -/
def Inverted (spans : List (Span ℕ)) : Post ResvCall (Multiset ℕ)
    (Except Int (List IommuResvRegion)) := fun _ result _ =>
  ∃ regions, result = some (.ok regions) ∧ Denote regions spans

@[simp] theorem Inverted_after (spans : List (Span ℕ)) (past : List (Event ResvCall)) :
    (Inverted spans).after past = Inverted spans := rfl

theorem invertTail_refines {prev : IommuResvRegion} {s : Span ℕ} {inverted : List IommuResvRegion}
    {spans : List (Span ℕ)} {live : Multiset ℕ} (hs : Spells prev.start prev.length s)
    (hinverted : Denote inverted spans) :
    wp (resvKernel false) .any (invertTail prev inverted) (Inverted (spans ++ tailGap s.hi))
      live := by
  have hlt := s.lo_lt_hi
  have hlo := hs.lo
  have hhi := hs.hi
  have hle := hs.hi_le
  have htest : (-(prev.start + prev.length) ≠ 0 ∧ U64_MAX - prev.start > prev.length) ↔
      s.hi < addressEnd - 1 := by
    have hmax : U64_MAX = 18446744073709551615#64 := rfl
    rw [hmax, addressEnd]
    bv_omega
  unfold invertTail tailGap
  dsimp only
  by_cases hend : s.hi < addressEnd - 1
  · rw [if_pos (htest.mpr hend), if_pos hend]
    have hlt : s.hi < addressEnd := by omega
    have htail : Spells (prev.start + prev.length) (-(prev.start + prev.length))
        ⟨s.hi, addressEnd, hlt⟩ := by
      refine ⟨?_, ?_, le_refl _⟩
      · show s.hi = _
        bv_omega
      · show addressEnd = _
        rw [addressEnd]
        bv_omega
    refine wp_alloc htail ?_
    intro trace new live' hnew
    simp only [wp_pure, Post.after_apply, gap, dif_pos hlt]
    exact ⟨_, rfl, List.rel_append hinverted (.cons hnew .nil)⟩
  · rw [if_neg fun h => hend (htest.mp h), if_neg hend]
    simpa [Inverted] using hinverted

theorem invertHead_refines {first prev : IommuResvRegion} {s s' : Span ℕ}
    {inverted : List IommuResvRegion} {spans : List (Span ℕ)} {live : Multiset ℕ}
    (hs : Spells first.start first.length s) (hs' : Spells prev.start prev.length s')
    (hinverted : Denote inverted spans) :
    wp (resvKernel false) .any (invertHead first prev inverted)
      (Inverted (gap 0 s.lo ++ (spans ++ tailGap s'.hi))) live := by
  have hlo := hs.lo
  have htest : first.start ≠ 0 ↔ 0 < s.lo := by
    rw [hlo]
    bv_omega
  unfold invertHead
  by_cases hzero : 0 < s.lo
  · rw [if_pos (htest.mpr hzero), gap, dif_pos hzero]
    have hhead : Spells 0 first.start ⟨0, s.lo, hzero⟩ :=
      ⟨rfl, by simp [hlo], by have := first.start.isLt; show s.lo ≤ _; omega⟩
    refine wp_alloc hhead ?_
    intro trace new live' hnew
    exact invertTail_refines hs' (.cons hnew hinverted)
  · rw [if_neg fun h => hzero (htest.mp h), gap, dif_neg hzero]
    exact invertTail_refines hs' hinverted

theorem invertGaps_refines {first prev : IommuResvRegion} {s₀ s : Span ℕ}
    {rest inverted : List IommuResvRegion} {spans gapsSoFar : List (Span ℕ)} {live : Multiset ℕ}
    (hfirst : Spells first.start first.length s₀) (hprev : Spells prev.start prev.length s)
    (hrest : Denote rest spans) (hascending : Ascending (s :: spans))
    (hinverted : Denote inverted gapsSoFar) :
    wp (resvKernel false) .any (invertGaps first prev rest inverted)
      (Inverted (gap 0 s₀.lo ++ (gapsSoFar ++ between s spans ++ tailGap (spans.getLastD s).hi)))
      live := by
  induction hrest generalizing prev s inverted gapsSoFar live with
  | nil => simpa [invertGaps, between] using invertHead_refines hfirst hprev hinverted
  | @cons curr t rest spans hcurr hrest ih =>
      obtain ⟨hbefore, htail⟩ := List.pairwise_cons.mp hascending
      have hst : s.hi ≤ t.lo := hbefore t (by simp)
      have hlo := hprev.lo
      have hhi := hprev.hi
      have hlo' := hcurr.lo
      have htest : curr.start - (prev.start + prev.length) = 0 ↔ ¬ s.hi < t.lo := by
        bv_omega
      unfold invertGaps
      dsimp only
      by_cases hgap : s.hi < t.lo
      · rw [if_neg fun h => htest.mp h hgap]
        have hspan : Spells (prev.start + prev.length) (curr.start - (prev.start + prev.length))
            ⟨s.hi, t.lo, hgap⟩ := by
          have hlt := curr.start.isLt
          refine ⟨?_, ?_, ?_⟩
          · show s.hi = _
            bv_omega
          · show t.lo = _
            bv_omega
          · show t.lo ≤ _
            omega
        refine wp_alloc hspan ?_
        intro trace new live' hnew
        simpa only [Inverted_after, between, gap, dif_pos hgap, List.getLastD_cons,
          List.append_assoc, List.cons_append, List.nil_append] using
          ih hcurr htail (List.rel_append hinverted (.cons hnew .nil))
      · rw [if_pos (htest.mpr hgap)]
        simpa only [between, gap, dif_neg hgap, List.getLastD_cons, List.nil_append] using
          ih hcurr htail hinverted

/-- With allocations succeeding, `invert_regions` computes the gaps of the regions, but for the
last one. -/
theorem invertRegions_refines {region : IommuResvRegion} {s : Span ℕ}
    {regions : List IommuResvRegion} {spans : List (Span ℕ)} {live : Multiset ℕ}
    (h : Denote (region :: regions) (s :: spans)) (hascending : Ascending (s :: spans)) :
    wp (resvKernel false) .any (invertRegions (region :: regions))
      (Inverted (gap 0 s.lo ++ (between s spans ++ tailGap (spans.getLastD s).hi))) live := by
  cases h with
  | cons hs hrest =>
      exact invertGaps_refines hs hs hrest hascending .nil

/-- Where the reserved regions end: one short of the address space if the pool ends there. -/
def reservedEnd (stop : ℕ) : ℕ :=
  if stop = addressEnd - 1 then addressEnd - 1 else addressEnd

theorem tailGap_eq (stop : ℕ) : tailGap stop = gap stop (reservedEnd stop) := by
  unfold tailGap reservedEnd gap
  by_cases hshort : stop = addressEnd - 1
  · simp [hshort]
  · by_cases hlt : stop < addressEnd - 1
    · simp [hshort, hlt]
    · rw [if_neg hlt, if_neg hshort, dif_neg (by omega)]

/-- `iommu_put_resv_regions` frees the regions and changes nothing else. -/
theorem wp_iommuPutResvRegions {regions : List IommuResvRegion} {mayFail : Bool}
    {Q : Post ResvCall (Multiset ℕ) Unit} {live : Multiset ℕ}
    (h : ∀ trace live', Q trace (some ()) live') :
    wp (resvKernel mayFail) .any (iommuPutResvRegions regions) Q live := by
  induction regions generalizing Q live with
  | nil => simpa [iommuPutResvRegions] using h [] live
  | cons region rest ih =>
      simp only [iommuPutResvRegions, wp_bind, wp_perform]
      refine ⟨trivial, fun hempty => (hempty.false ()).elim, ?_⟩
      intro _ live' _
      exact ih fun trace live'' => h _ live''

/-- With allocations succeeding, the regions reserved for a pool are the gaps of its spans. -/
theorem qcomIommuGenerateResvRegions_refines {dev : OfDevice} {entries : List (U64 × U64)}
    {spans : List (Span ℕ)} {s : Span ℕ} {rest : List (Span ℕ)} {live : Multiset ℕ}
    (hpool : PoolProperty dev entries)
    (hspans : List.Forall₂ (fun e s => Spells e.1 e.2 s) entries spans)
    (hinsert : insertAll spans [] = some (s :: rest)) :
    wp (resvKernel false) .any (qcomIommuGenerateResvRegions dev [])
      (fun _ result _ => ∃ regions, result = some regions ∧
        Denote regions (gaps 0 (reservedEnd (rest.getLastD s).hi) (s :: rest))) live := by
  obtain ⟨hascending, hperm⟩ := insertAll_spec List.Pairwise.nil hinsert
  simp only [qcomIommuGenerateResvRegions, wp_bind]
  refine wp_mono (qcomIommuGenerateDmaRegions_refines hpool hspans) ?_
  intro _ _ live₁ hresult
  rw [hinsert] at hresult
  obtain ⟨regions, rfl, hdenote⟩ := hresult
  obtain ⟨region, regions, hregion, hregions, rfl⟩ := List.forall₂_cons_right_iff.mp hdenote
  simp only [Post.andThen_some, Guard.any_after, if_neg (not_not.mpr rfl), wp_bind]
  refine wp_mono (invertRegions_refines hdenote hascending) ?_
  rintro _ _ live₂ ⟨inverted, rfl, hinverted⟩
  simp only [Post.andThen_some, Guard.any_after, wp_bind]
  refine wp_iommuPutResvRegions ?_
  intro _ live₃
  simp only [Post.andThen_some, wp_pure, Post.after_apply, List.append_nil]
  refine ⟨inverted, rfl, ?_⟩
  rw [gaps_eq_between, ← tailGap_eq]
  exact hinverted

/-! ## When the rest of the address space is reserved -/

/-- Whether an address lies in a region. -/
def IommuResvRegion.covers (region : IommuResvRegion) (a : ℕ) : Bool :=
  region.start.toNat ≤ a && a < region.start.toNat + region.length.toNat

/-- The regions are ascending, disjoint and proper, each address outside the pool lies in exactly
one of them and each address of the pool in none. -/
structure ReservesRest (entries : List (U64 × U64)) (regions : List IommuResvRegion) : Prop where
  ascending : regions.Pairwise fun r r' => r.start < r'.start
  disjoint : regions.Pairwise fun r r' =>
    Disjoint (addresses r.start r.length) (addresses r'.start r'.length)
  fit : ∀ r ∈ regions, Fits r.start r.length
  outside : ∀ a < addressEnd, (∀ e ∈ entries, a ∉ addresses e.1 e.2) →
    regions.countP (·.covers a) = 1
  inside : ∀ e ∈ entries, ∀ a ∈ addresses e.1 e.2, regions.countP (·.covers a) = 0

theorem Denote.countP_covers {regions : List IommuResvRegion} {spans : List (Span ℕ)}
    (h : Denote regions spans) (a : ℕ) :
    regions.countP (·.covers a) = spans.countP fun s => decide (a ∈ s) := by
  induction h with
  | nil => rfl
  | @cons region s regions spans hs _ ih =>
      have hcovers : region.covers a = decide (a ∈ s) := by
        rw [Bool.eq_iff_iff]
        simp [IommuResvRegion.covers, Span.mem_iff, hs.lo, hs.hi]
      simp only [List.countP_cons, ih, hcovers]

/-- An address lies in an entry exactly if it lies in a span. -/
theorem mem_entries_iff {entries : List (U64 × U64)} {spans : List (Span ℕ)}
    (h : List.Forall₂ (fun e s => Spells e.1 e.2 s) entries spans) (a : ℕ) :
    (∃ e ∈ entries, a ∈ addresses e.1 e.2) ↔ ∃ s ∈ spans, a ∈ s := by
  induction h with
  | nil => simp
  | cons hs _ ih => simp only [List.exists_mem_cons_iff, ih, hs.addresses_eq]; rfl

/-- Regions that denote all gaps of the pool reserve the rest of the address space. -/
theorem reservesRest_of_gaps {entries : List (U64 × U64)} {spans l : List (Span ℕ)}
    {regions : List IommuResvRegion}
    (hspans : List.Forall₂ (fun e s => Spells e.1 e.2 s) entries spans) (hperm : l.Perm spans)
    (hl : Ascending l) (hle : ∀ s ∈ l, s.hi ≤ addressEnd)
    (h : Denote regions (gaps 0 addressEnd l)) : ReservesRest entries regions := by
  have hgaps : Ascending (gaps 0 addressEnd l) := gaps_ascending hl fun _ _ => Nat.zero_le _
  have hmem : ∀ a, (∃ g ∈ gaps 0 addressEnd l, a ∈ g) ↔
      a < addressEnd ∧ ¬ ∃ e ∈ entries, a ∈ addresses e.1 e.2 := by
    intro a
    rw [mem_gaps hl (fun _ _ => Nat.zero_le _) hle, mem_entries_iff hspans]
    simp [hperm.mem_iff]
  refine ⟨h.pairwise_start hgaps, ?_, ?_, ?_, ?_⟩
  · refine pairwise_of_forall₂ ?_ h hgaps
    intro r r' s s' hs hs' hbefore
    rw [hs.addresses_eq, hs'.addresses_eq, ← Span.not_overlaps_iff_disjoint]
    exact hbefore.not_overlaps
  · intro r hr
    obtain ⟨s, -, hs⟩ := exists_of_mem_right h.flip hr
    exact Spells.fits hs
  · intro a ha hnot
    rw [h.countP_covers, hgaps.countP_mem, if_pos ((hmem a).mpr ⟨ha, by simpa using hnot⟩)]
  · intro e he a ha
    rw [h.countP_covers, hgaps.countP_mem, if_neg fun hgap => ((hmem a).mp hgap).2 ⟨e, he, ha⟩]

/-- Regions that end one short of the address space miss its last address. -/
theorem not_reservesRest_of_short {entries : List (U64 × U64)} {spans l : List (Span ℕ)}
    {regions : List IommuResvRegion}
    (hspans : List.Forall₂ (fun e s => Spells e.1 e.2 s) entries spans) (hperm : l.Perm spans)
    (hl : Ascending l) (hle : ∀ s ∈ l, s.hi ≤ addressEnd - 1)
    (h : Denote regions (gaps 0 (addressEnd - 1) l)) : ¬ ReservesRest entries regions := by
  intro hrest
  have hlast : ∀ e ∈ entries, addressEnd - 1 ∉ addresses e.1 e.2 := by
    intro e he ha
    obtain ⟨s, hs, hmem⟩ := (mem_entries_iff hspans _).mp ⟨e, he, ha⟩
    exact absurd hmem.2 (not_lt_of_ge (hle s (hperm.mem_iff.mpr hs)))
  have hcount := hrest.outside (addressEnd - 1) (by decide) hlast
  rw [h.countP_covers, (gaps_ascending hl fun _ _ => Nat.zero_le _).countP_mem,
    if_neg] at hcount
  · cases hcount
  · rw [mem_gaps hl (fun _ _ => Nat.zero_le _) hle]
    exact fun hmem => absurd hmem.2.1 (lt_irrefl _)

/-- No entry ends one short of the address space, or another one holds the last address. -/
def LastAddressClear (entries : List (U64 × U64)) : Prop :=
  (∃ e ∈ entries, e.1.toNat + e.2.toNat = addressEnd) ∨
    ∀ e ∈ entries, e.1.toNat + e.2.toNat ≠ addressEnd - 1

theorem lastAddressClear_iff {entries : List (U64 × U64)} {spans : List (Span ℕ)} {s : Span ℕ}
    {rest : List (Span ℕ)} (hspans : List.Forall₂ (fun e s => Spells e.1 e.2 s) entries spans)
    (hperm : (s :: rest).Perm spans) (hl : Ascending (s :: rest)) :
    LastAddressClear entries ↔ (rest.getLastD s).hi ≠ addressEnd - 1 := by
  have hends : ∀ n, (∃ e ∈ entries, e.1.toNat + e.2.toNat = n) ↔ ∃ t ∈ s :: rest, t.hi = n := by
    intro n
    simp only [hperm.mem_iff]
    clear hperm
    induction hspans with
    | nil => simp
    | cons hs _ ih => simp only [List.exists_mem_cons_iff, ih, hs.hi]
  have hlast : rest.getLastD s ∈ s :: rest := List.getLastD_mem_cons
  have hmax : ∀ t ∈ s :: rest, t.hi ≤ (rest.getLastD s).hi := fun t ht => hl.hi_le_getLastD ht
  have hle : (rest.getLastD s).hi ≤ addressEnd := by
    obtain ⟨e, -, he⟩ := exists_of_mem_right hspans (hperm.mem_iff.mp hlast)
    exact he.hi_le
  rw [LastAddressClear, hends]
  have hall : (∀ e ∈ entries, e.1.toNat + e.2.toNat ≠ addressEnd - 1) ↔
      ¬ ∃ e ∈ entries, e.1.toNat + e.2.toNat = addressEnd - 1 := by simp
  rw [hall, hends]
  constructor
  · rintro (⟨t, ht, hhi⟩ | hnone) hshort
    · have hcontra := hmax t ht
      rw [hhi, hshort] at hcontra
      exact absurd hcontra (by decide)
    · exact hnone ⟨_, hlast, hshort⟩
  · intro hne
    rcases Nat.lt_or_ge (rest.getLastD s).hi (addressEnd - 1) with hlt | hge
    · refine .inr ?_
      rintro ⟨t, ht, hhi⟩
      exact absurd (hmax t ht) (by rw [hhi]; exact not_le_of_gt hlt)
    · exact .inl ⟨_, hlast, by omega⟩

/-- The gaps of the pool end at the end of the address space or one short of it. -/
theorem exists_gaps {entries : List (U64 × U64)} {live : Multiset ℕ} {dev : OfDevice}
    {spans : List (Span ℕ)} (hpool : PoolProperty dev entries) (hne : entries ≠ [])
    (hspans : List.Forall₂ (fun e s => Spells e.1 e.2 s) entries spans)
    (hdisjoint : EntriesDisjoint entries) :
    ∃ s rest, (s :: rest).Perm spans ∧ Ascending (s :: rest) ∧
      wp (resvKernel false) .any (qcomIommuGenerateResvRegions dev [])
        (fun _ result _ => ∃ regions, result = some regions ∧
          Denote regions (gaps 0 (reservedEnd (rest.getLastD s).hi) (s :: rest))) live := by
  have hsome : (insertAll spans []).isSome := by
    rw [insertAll_isSome_iff List.Pairwise.nil, List.append_nil]
    exact (entriesDisjoint_iff hspans).mp hdisjoint
  obtain ⟨l, hinsert⟩ := Option.isSome_iff_exists.mp hsome
  obtain ⟨hascending, hperm⟩ := insertAll_spec List.Pairwise.nil hinsert
  rw [List.append_nil] at hperm
  cases l with
  | nil =>
      rw [List.nil_perm.mp hperm] at hspans
      cases hspans
      exact absurd rfl hne
  | cons s rest =>
      exact ⟨s, rest, hperm, hascending,
        qcomIommuGenerateResvRegions_refines hpool hspans hinsert⟩

/-- The reserved regions are the rest of the address space exactly if the end of the pool is not
one short of the end of the address space. -/
theorem generate_resv_regions_reserves_rest_iff {dev : OfDevice} {entries : List (U64 × U64)}
    {live last : Multiset ℕ} {trace : List (Event ResvCall)}
    {result : Option (List IommuResvRegion)} (hpool : PoolProperty dev entries)
    (hne : entries ≠ []) (hfit : EntriesFit entries) (hdisjoint : EntriesDisjoint entries)
    (hexec : Exec (resvKernel false) (qcomIommuGenerateResvRegions dev []) live trace result last) :
    ∃ regions, result = some regions ∧
      (ReservesRest entries regions ↔ LastAddressClear entries) := by
  obtain ⟨spans, hspans⟩ := hfit.spans
  obtain ⟨s, rest, hperm, hascending, hwp⟩ := exists_gaps hpool hne hspans hdisjoint
  obtain ⟨regions, rfl, hdenote⟩ := wp_exec hwp hexec
  refine ⟨regions, rfl, ?_⟩
  rw [lastAddressClear_iff hspans hperm hascending]
  have hle : ∀ t ∈ s :: rest, t.hi ≤ addressEnd := by
    intro t ht
    obtain ⟨e, -, he⟩ := exists_of_mem_right hspans (hperm.mem_iff.mp ht)
    exact he.hi_le
  by_cases hshort : (rest.getLastD s).hi = addressEnd - 1
  · rw [reservedEnd, if_pos hshort] at hdenote
    have hle' : ∀ t ∈ s :: rest, t.hi ≤ addressEnd - 1 := fun t ht =>
      hshort ▸ hascending.hi_le_getLastD ht
    exact iff_of_false (not_reservesRest_of_short hspans hperm hascending hle' hdenote)
      (not_not.mpr hshort)
  · rw [reservedEnd, if_neg hshort] at hdenote
    exact iff_of_true (reservesRest_of_gaps hspans hperm hascending hle hdenote) hshort

/-- A pool that starts above `0` and reaches the end of the address space. -/
theorem generate_resv_regions_reserves_low :
    ∃ trace regions last, Exec (resvKernel false)
      (qcomIommuGenerateResvRegions (poolDevice [(4096, -4096)]) []) 0 trace (some regions) last ∧
      ReservesRest [(4096, -4096)] regions := by
  obtain ⟨trace, result, last, hexec⟩ := Semantics.Responsive.exec
    (resvKernel_responsive false) (qcomIommuGenerateResvRegions (poolDevice [(4096, -4096)]) []) 0
  have hfit : EntriesFit [(4096, -4096)] := by simp [EntriesFit, Fits]
  have hclear : LastAddressClear [(4096, -4096)] := by simp [LastAddressClear, addressEnd]
  obtain ⟨regions, rfl, hiff⟩ := generate_resv_regions_reserves_rest_iff (poolDevice_pool _)
    (by simp) hfit (List.pairwise_singleton _ _) hexec
  exact ⟨trace, regions, last, hexec, hiff.mpr hclear⟩

/-- The pool that holds all addresses but the last one: nothing is reserved. -/
theorem generate_resv_regions_misses_last :
    ∃ trace regions last, Exec (resvKernel false)
      (qcomIommuGenerateResvRegions (poolDevice [(0, -1)]) []) 0 trace (some regions) last ∧
      EntriesFit [(0, -1)] ∧ EntriesDisjoint [(0, -1)] ∧ ¬ ReservesRest [(0, -1)] regions := by
  obtain ⟨trace, result, last, hexec⟩ := Semantics.Responsive.exec
    (resvKernel_responsive false) (qcomIommuGenerateResvRegions (poolDevice [(0, -1)]) []) 0
  have hfit : EntriesFit [(0, -1)] := by simp [EntriesFit, Fits]
  have hdisjoint : EntriesDisjoint [(0, -1)] := List.pairwise_singleton _ _
  have hspans : List.Forall₂ (fun e s => Spells e.1 e.2 s) [((0 : U64), (-1 : U64))]
      [⟨0, addressEnd - 1, by decide⟩] := .cons ⟨rfl, rfl, by decide⟩ .nil
  obtain ⟨regions, rfl, hdenote⟩ :=
    wp_exec (qcomIommuGenerateResvRegions_refines (poolDevice_pool _) hspans rfl) hexec
  refine ⟨trace, regions, last, hexec, hfit, hdisjoint, ?_⟩
  exact not_reservesRest_of_short hspans (List.Perm.refl _) (List.pairwise_singleton _ _)
    (by simp) hdenote

end SafeLinux.IovaMap
