import SafeLinux.IovaMap.Walk

/-!
# Who frees the regions

The regions allocated for a property are owned by the list of the pool, by the inverted list and at
last by the caller. `Reserves` lists the ways in which `qcom_iommu_generate_resv_regions` can end,
with what it has allocated and released by then; `outsidePool` is what `invert_regions` computes
from the starts and lengths of the pool.
-/

namespace SafeLinux.IovaMap

open Effects

/-! ## The starts and lengths outside the pool -/

/-- The part of the address space after the last entry, as `invert_regions` computes it. -/
def outsideTail (prev : U64 × U64) : List (U64 × U64) :=
  if -(prev.1 + prev.2) ≠ 0 ∧ U64_MAX - prev.1 > prev.2
  then [(prev.1 + prev.2, -(prev.1 + prev.2))] else []

/-- The part before the first entry. -/
def outsideHead (first : U64 × U64) : List (U64 × U64) :=
  if first.1 ≠ 0 then [(0, first.1)] else []

/-- The part between an entry and the next. -/
def outsideGap (prev curr : U64 × U64) : List (U64 × U64) :=
  if curr.1 - (prev.1 + prev.2) = 0 then []
  else [(prev.1 + prev.2, curr.1 - (prev.1 + prev.2))]

/-- The parts between the entries after `prev`. -/
def outsideGaps (prev : U64 × U64) : List (U64 × U64) → List (U64 × U64)
  | [] => []
  | curr :: rest => outsideGap prev curr ++ outsideGaps curr rest

/-- All parts outside the pool. -/
def outsidePool : List (U64 × U64) → List (U64 × U64)
  | [] => []
  | first :: rest =>
      outsideHead first ++ (outsideGaps first rest ++ outsideTail (rest.getLastD first))

/-- An address that lies behind the start of `prev` and in no entry lies in one of the parts behind
`prev`, unless it is the last of the address space. -/
theorem outside_covers_from {prev : U64 × U64} {rest : List (U64 × U64)} {a : U64}
    (hstart : prev.1 ≤ a) (hlast : a.toNat < 2 ^ 64 - 1) (hzero : (0, 0) ∉ prev :: rest)
    (hclear : ∀ e ∈ prev :: rest, a.toNat ∉ addresses e.1 e.2) :
    ∃ x ∈ outsideGaps prev rest ++ outsideTail (rest.getLastD prev),
      x.1 ≤ a ∧ a ≤ x.1 + x.2 - 1 := by
  induction rest generalizing prev with
  | nil =>
      have hend : prev.1.toNat + prev.2.toNat ≤ a.toNat := by
        have hout := hclear prev (by simp)
        simp only [addresses, Set.mem_Ico, not_and, not_lt] at hout
        exact hout hstart
      have hne : prev.1.toNat + prev.2.toNat ≠ 0 := by
        intro hnull
        refine hzero (List.mem_singleton.mpr ?_)
        refine (Prod.ext (BitVec.eq_of_toNat_eq ?_) (BitVec.eq_of_toNat_eq ?_)).symm
        · exact (Nat.add_eq_zero_iff.mp hnull).1
        · exact (Nat.add_eq_zero_iff.mp hnull).2
      have htest : -(prev.1 + prev.2) ≠ 0 ∧ U64_MAX - prev.1 > prev.2 := by
        have hmax : U64_MAX = 18446744073709551615#64 := rfl
        rw [hmax]
        bv_omega
      refine ⟨(prev.1 + prev.2, -(prev.1 + prev.2)), ?_, ?_, ?_⟩
      · show _ ∈ outsideTail prev
        rw [outsideTail, if_pos htest]
        exact List.mem_singleton_self _
      · show prev.1 + prev.2 ≤ a
        bv_omega
      · show a ≤ prev.1 + prev.2 + -(prev.1 + prev.2) - 1
        bv_omega
  | cons curr rest ih =>
      obtain ⟨hclear₀, hclear₁⟩ := List.forall_mem_cons.mp hclear
      rw [outsideGaps, List.getLastD_cons, List.append_assoc]
      by_cases hcurr : curr.1 ≤ a
      · obtain ⟨x, hx, hcovers⟩ :=
          ih hcurr (fun hmem => hzero (List.mem_cons_of_mem _ hmem)) hclear₁
        exact ⟨x, List.mem_append_right _ hx, hcovers⟩
      · have hend : prev.1.toNat + prev.2.toNat ≤ a.toNat := by
          simp only [addresses, Set.mem_Ico, not_and, not_lt] at hclear₀
          exact hclear₀ hstart
        have hgap : ¬ curr.1 - (prev.1 + prev.2) = 0 := by
          bv_omega
        refine ⟨(prev.1 + prev.2, curr.1 - (prev.1 + prev.2)), ?_, ?_, ?_⟩
        · refine List.mem_append_left _ ?_
          rw [outsideGap, if_neg hgap]
          exact List.mem_singleton_self _
        · show prev.1 + prev.2 ≤ a
          bv_omega
        · show a ≤ prev.1 + prev.2 + (curr.1 - (prev.1 + prev.2)) - 1
          bv_omega

/-- An address in no entry lies in one of the parts outside the pool, unless it is the last of the
address space; the entries may be of any kind but for the one that has no address at 0. -/
theorem outsidePool_covers {l : List (U64 × U64)} {a : U64} (hne : l ≠ [])
    (hlast : a.toNat < 2 ^ 64 - 1) (hzero : (0, 0) ∉ l)
    (hclear : ∀ e ∈ l, a.toNat ∉ addresses e.1 e.2) :
    ∃ x ∈ outsidePool l, x.1 ≤ a ∧ a ≤ x.1 + x.2 - 1 := by
  cases l with
  | nil => exact absurd rfl hne
  | cons first rest =>
      by_cases hfirst : first.1 ≤ a
      · obtain ⟨x, hx, hcovers⟩ := outside_covers_from hfirst hlast hzero hclear
        exact ⟨x, List.mem_append_right _ hx, hcovers⟩
      · have hstart : first.1 ≠ 0 := by
          bv_omega
        refine ⟨(0, first.1), List.mem_append_left _ ?_, Nat.zero_le _, ?_⟩
        · rw [outsideHead, if_pos hstart]
          exact List.mem_singleton_self _
        · show a ≤ 0 + first.1 - 1
          bv_omega

/-! ## The inversion -/

/-- A part of `invert_regions` that is given the inverted list `acc`: it releases all of it after a
failed allocation and completes it otherwise. -/
inductive InvertsFrom (acc : List IommuResvRegion) (expected : List (U64 × U64)) :
    Post ResvCall (Multiset ℕ) (Except Int (List IommuResvRegion))
  | failed {trace : List (Event ResvCall)} {ret : Int} {live : Multiset ℕ} : AllocFails trace →
      (freed trace).Perm (allocated trace ++ acc) →
      InvertsFrom acc expected trace (some (.error ret)) live
  | done {trace : List (Event ResvCall)} {inverted : List IommuResvRegion} {live : Multiset ℕ} :
      ¬ AllocFails trace → freed trace = [] → inverted.Perm (allocated trace ++ acc) →
      inverted.map IommuResvRegion.extent = expected →
      InvertsFrom acc expected trace (some (.ok inverted)) live

variable {mayFail : Bool} {live : Multiset ℕ} {acc acc' regions : List IommuResvRegion}
  {expected : List (U64 × U64)} {first prev : IommuResvRegion} {start length : U64} {ret : Int}

/-- The part goes on with a region more in the list. -/
theorem InvertsFrom.alloc {new : IommuResvRegion} {trace : List (Event ResvCall)}
    {result : Option (Except Int (List IommuResvRegion))}
    (h : InvertsFrom acc' expected trace result live) (hacc : acc'.Perm (new :: acc)) :
    InvertsFrom acc expected (⟨.iommuAllocResvRegion start length, some new⟩ :: trace) result
      live := by
  have hmove : (allocated trace ++ acc').Perm
      (allocated (⟨.iommuAllocResvRegion start length, some new⟩ :: trace) ++ acc) := by
    rw [allocated_alloc]
    exact (hacc.append_left _).trans List.perm_middle
  cases h with
  | failed hfails hfreed => exact .failed (by simpa using hfails) (hfreed.trans hmove)
  | done hfails hfreed hinverted hexpected =>
      exact .done (by simpa using hfails) hfreed (hinverted.trans hmove) hexpected

/-- `iommu_put_resv_regions` releases the regions. -/
theorem iommuPutResvRegions_frees :
    wp (resvKernel mayFail) .any (iommuPutResvRegions regions) (fun trace result _ =>
      result = some () ∧ freed trace = regions ∧ allocated trace = [] ∧ ¬ AllocFails trace)
      live := by
  induction regions generalizing live with
  | nil => exact wp_pure.mpr ⟨rfl, rfl, rfl, not_allocFails_nil⟩
  | cons region rest ih =>
      refine wp_step fun _ live' _ => wp_mono ih ?_
      rintro trace _ _ ⟨rfl, hfreed, hallocated, hfails⟩
      refine ⟨rfl, ?_, ?_, ?_⟩
      · simp [hfreed]
      · simp [hallocated]
      · simpa using hfails

/-- `out_err` releases the inverted list. -/
theorem invertOutErr_frees :
    wp (resvKernel mayFail) .any (invertOutErr ret acc) (fun trace result _ =>
      result = some (.error ret) ∧ freed trace = acc ∧ allocated trace = []) live := by
  induction acc generalizing live with
  | nil => exact wp_pure.mpr ⟨rfl, rfl, rfl⟩
  | cons region rest ih =>
      refine wp_step fun _ live' _ => wp_mono ih ?_
      rintro trace _ _ ⟨rfl, hfreed, hallocated⟩
      refine ⟨rfl, ?_, ?_⟩
      · simp [hfreed]
      · simp [hallocated]

/-- The rule for an allocation of `invert_regions`. -/
theorem wp_invertAlloc
    {rest : IommuResvRegion → ResvProg (Except Int (List IommuResvRegion))}
    (hrest : ∀ new live', new.extent = (start, length) → ∃ acc', acc'.Perm (new :: acc) ∧
      wp (resvKernel mayFail) .any (rest new) (InvertsFrom acc' expected) live') :
    wp (resvKernel mayFail) .any (do
      let some new ← Program.perform (.iommuAllocResvRegion start length)
        | invertOutErr (-ENOMEM) acc
      rest new) (InvertsFrom acc expected) live := by
  refine wp_allocRegion ?_ fun new live' hnew => ?_
  · refine wp_mono invertOutErr_frees ?_
    rintro trace _ _ ⟨rfl, hfreed, hallocated⟩
    exact .failed (by simp) (by simp [hfreed, hallocated])
  · obtain ⟨acc', hacc, hwp⟩ := hrest new live' hnew
    exact wp_mono hwp fun trace result _ h => h.alloc hacc

theorem invertTail_inverts :
    wp (resvKernel mayFail) .any (invertTail prev acc)
      (InvertsFrom acc (acc.map IommuResvRegion.extent ++ outsideTail prev.extent)) live := by
  unfold invertTail outsideTail IommuResvRegion.extent
  dsimp only
  split
  · refine wp_invertAlloc fun new live' hnew => ⟨acc ++ [new], List.perm_append_singleton _ _, ?_⟩
    refine wp_pure.mpr (.done not_allocFails_nil rfl (.refl _) ?_)
    rw [List.map_append, List.map_singleton, ← hnew]
    rfl
  · exact wp_pure.mpr (.done not_allocFails_nil rfl (.refl _) (List.append_nil _).symm)

theorem invertHead_inverts :
    wp (resvKernel mayFail) .any (invertHead first prev acc)
      (InvertsFrom acc (outsideHead first.extent ++
        (acc.map IommuResvRegion.extent ++ outsideTail prev.extent))) live := by
  unfold invertHead outsideHead
  split
  · rename_i hstart
    rw [if_pos (show first.extent.1 ≠ 0 from hstart)]
    refine wp_invertAlloc fun new live' hnew => ⟨new :: acc, .refl _, ?_⟩
    have hhead : new.extent = (0, first.extent.1) := hnew
    rw [← hhead]
    exact invertTail_inverts
  · rename_i hstart
    rw [if_neg (show ¬ first.extent.1 ≠ 0 from hstart)]
    exact invertTail_inverts

theorem invertGaps_inverts :
    wp (resvKernel mayFail) .any (invertGaps first prev regions acc)
      (InvertsFrom acc (outsideHead first.extent ++ (acc.map IommuResvRegion.extent ++
        (outsideGaps prev.extent (regions.map IommuResvRegion.extent) ++
          outsideTail ((regions.map IommuResvRegion.extent).getLastD prev.extent))))) live := by
  induction regions generalizing prev acc live with
  | nil => exact invertHead_inverts
  | cons curr rest ih =>
      rw [List.map_cons, outsideGaps, List.getLastD_cons, List.append_assoc]
      unfold invertGaps outsideGap
      dsimp only
      split
      · rename_i hsize
        rw [if_pos (show curr.extent.1 - (prev.extent.1 + prev.extent.2) = 0 from hsize)]
        exact ih
      · rename_i hsize
        rw [if_neg (show ¬ curr.extent.1 - (prev.extent.1 + prev.extent.2) = 0 from hsize)]
        refine wp_invertAlloc fun new live' hnew =>
          ⟨acc ++ [new], List.perm_append_singleton _ _, ?_⟩
        have hgap : new.extent =
            (prev.extent.1 + prev.extent.2, curr.extent.1 - (prev.extent.1 + prev.extent.2)) := hnew
        have hrest := @ih live' (acc ++ [new]) curr
        rw [List.map_append, List.map_singleton, hgap, List.append_assoc] at hrest
        exact hrest

/-- What `invert_regions` does with a list: an empty one is refused before anything is allocated. -/
theorem invertRegions_inverts (hne : regions ≠ []) :
    wp (resvKernel mayFail) .any (invertRegions regions)
      (InvertsFrom [] (outsidePool (regions.map IommuResvRegion.extent))) live := by
  cases regions with
  | nil => exact absurd rfl hne
  | cons first rest => exact invertGaps_inverts

/-! ## The regions for the caller -/

variable {dev : OfDevice} {head : List IommuResvRegion}

/-- The ways in which `qcom_iommu_generate_resv_regions` can end. -/
inductive Reserves (dev : OfDevice) (head : List IommuResvRegion) :
    Post ResvCall (Multiset ℕ) (List IommuResvRegion)
  /-- The property is not of whole entries. -/
  | malformed {live : Multiset ℕ} : ¬ PoolWellFormed dev → Reserves dev head [] (some head) live
  /-- The walk has failed; the regions it has made stay allocated. -/
  | unwalked {trace : List (Event ResvCall)} {live : Multiset ℕ} : freed trace = [] →
      (allocated trace).length < (poolEntries dev).length →
      (AllocFails trace ∨ insertEntries (poolEntries dev) [] = none) →
      Reserves dev head trace (some head) live
  /-- The inversion has failed; all regions are released. -/
  | uninverted {trace : List (Event ResvCall)} {l : List (U64 × U64)} {live : Multiset ℕ} :
      insertEntries (poolEntries dev) [] = some l → (AllocFails trace ∨ poolEntries dev = []) →
      (poolEntries dev).length ≤ (allocated trace).length →
      (freed trace).Perm (allocated trace) → Reserves dev head trace (some head) live
  /-- The inverted list goes to the caller. -/
  | done {trace : List (Event ResvCall)} {l : List (U64 × U64)}
      {regions : List IommuResvRegion} {live : Multiset ℕ} : PoolWellFormed dev →
      insertEntries (poolEntries dev) [] = some l → poolEntries dev ≠ [] → ¬ AllocFails trace →
      regions.map IommuResvRegion.extent = outsidePool l →
      (poolEntries dev).length ≤ (allocated trace).length →
      (allocated trace).Perm (freed trace ++ regions) →
      Reserves dev head trace (some (regions ++ head)) live

/-- The walk has listed all entries. -/
theorem generateResv_of_walked {trace : List (Event ResvCall)} (hwell : PoolWellFormed dev)
    (h : Walked (poolEntries dev) [] trace 0 regions) :
    wp (resvKernel mayFail) .any (do
      let inverted ← invertRegions regions
      iommuPutResvRegions regions
      match inverted with
      | .error _ => return head
      | .ok resvRegions => return resvRegions ++ head)
      ((Reserves dev head).after trace) live := by
  obtain ⟨hfails, hlength⟩ := h.succeeded rfl
  have howned : regions.Perm (allocated trace) := by simpa using h.owned
  have hinserted : insertEntries (poolEntries dev) [] =
      some (regions.map IommuResvRegion.extent) := h.inserted rfl
  by_cases hne : regions = []
  · subst hne
    have hempty : poolEntries dev = [] := by
      rw [← List.length_eq_zero_iff, ← hlength, howned.length_eq.symm]
      rfl
    have hnone : allocated trace = [] := howned.symm.eq_nil
    refine wp_pure.mpr ?_
    exact .uninverted hinserted (.inr hempty) (by simp [hempty]) (by simp [h.kept, hnone])
  · have hpool : poolEntries dev ≠ [] := by
      intro hempty
      rw [hempty] at hlength
      have hnil : allocated trace = [] := List.length_eq_zero_iff.mp hlength
      exact hne (hnil ▸ howned).eq_nil
    rw [wp_bind]
    refine wp_mono (invertRegions_inverts hne) ?_
    intro trace₁ result live₁ hinverts
    cases hinverts with
    | failed hfails₁ hfreed₁ =>
        rw [Post.andThen_some, wp_bind]
        refine wp_mono iommuPutResvRegions_frees ?_
        rintro trace₂ _ live₂ ⟨rfl, hfreed₂, hallocated₂, -⟩
        refine wp_pure.mpr ?_
        refine .uninverted hinserted (.inl (by simp [hfails₁])) (by simp [hlength]) ?_
        simp only [freed_append, allocated_append, h.kept, hfreed₂, hallocated₂, List.append_nil,
          List.nil_append] at hfreed₁ ⊢
        exact (hfreed₁.append howned).trans List.perm_append_comm
    | @done _ inverted _ hfails₁ hfreed₁ hinverted hextent =>
        rw [Post.andThen_some, wp_bind]
        refine wp_mono iommuPutResvRegions_frees ?_
        rintro trace₂ _ live₂ ⟨rfl, hfreed₂, hallocated₂, hfails₂⟩
        refine wp_pure.mpr ?_
        refine .done hwell hinserted hpool (by simp [hfails, hfails₁, hfails₂]) hextent
          (by simp [hlength]) ?_
        simp only [freed_append, allocated_append, h.kept, hfreed₁, hfreed₂, hallocated₂,
          List.append_nil, List.nil_append] at hinverted ⊢
        exact howned.symm.append hinverted.symm

theorem qcomIommuGenerateResvRegions_reserves :
    wp (resvKernel mayFail) .any (qcomIommuGenerateResvRegions dev head) (Reserves dev head)
      live := by
  unfold qcomIommuGenerateResvRegions
  rw [wp_bind]
  refine wp_mono qcomIommuGenerateDmaRegions_generates ?_
  intro trace result live₁ hgenerates
  cases hgenerates with
  | refused hmalformed hret =>
      rw [Post.andThen_some]
      dsimp only
      rw [if_pos hret]
      exact wp_pure.mpr (.malformed hmalformed)
  | @walked _ ret regions _ hwell hwalked =>
      rw [Post.andThen_some]
      dsimp only
      split
      · rename_i hret
        obtain ⟨hlength, hwhy⟩ := hwalked.failed hret
        refine wp_pure.mpr ?_
        simp only [Post.after_apply, List.append_nil]
        exact .unwalked hwalked.kept hlength hwhy
      · rename_i hret
        obtain rfl : ret = 0 := not_not.mp hret
        exact generateResv_of_walked hwell hwalked

end SafeLinux.IovaMap
