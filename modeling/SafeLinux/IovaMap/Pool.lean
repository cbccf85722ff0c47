import SafeLinux.IovaMap.Region
import SafeLinux.Spans.Gaps
import Mathlib.Data.List.Forall2
import Mathlib.Order.Lattice.Nat

/-!
# The regions of the pool are its entries in ascending order

A region, or a pair of a start and a length, spells a `Span` of addresses. The search of
`insert_range` refines `Spans.place` on the spans spelled, and the walk over the property
`Spans.insertAll`, from which the result of `qcom_iommu_generate_dma_regions` follows.
-/

namespace SafeLinux.IovaMap

open Effects Spans

/-- The start and the length of a span that ends within the address space. -/
structure Spells (start length : U64) (s : Span ℕ) : Prop where
  lo : s.lo = start.toNat
  hi : s.hi = start.toNat + length.toNat
  hi_le : s.hi ≤ 2 ^ 64

/-- The regions of a list spell the spans of another. -/
def Denote (regions : List IommuResvRegion) (spans : List (Span ℕ)) : Prop :=
  List.Forall₂ (fun region s => Spells region.start region.length s) regions spans

/-- A start and a length that describe a part of the address space. -/
def Fits (start length : U64) : Prop :=
  1 ≤ length.toNat ∧ start.toNat + length.toNat ≤ 2 ^ 64

theorem Fits.spells {start length : U64} (h : Fits start length) :
    ∃ s : Span ℕ, Spells start length s :=
  ⟨⟨start.toNat, start.toNat + length.toNat, Nat.lt_add_of_pos_right h.1⟩, rfl, rfl, h.2⟩

theorem Spells.fits {start length : U64} {s : Span ℕ} (h : Spells start length s) :
    Fits start length := by
  have hlt := s.lo_lt_hi
  have hlo := h.lo
  have hhi := h.hi
  have hle := h.hi_le
  exact ⟨by omega, by omega⟩

/-- The last address of a span, as the driver computes it. -/
theorem Spells.last {start length : U64} {s : Span ℕ} (h : Spells start length s) :
    (start + length - 1).toNat = s.hi - 1 := by
  have hlt := s.lo_lt_hi
  have hlo := h.lo
  have hhi := h.hi
  have hle := h.hi_le
  bv_omega

theorem Spells.length_eq {start length : U64} : start + length - 1 - start + 1 = length := by
  bv_omega

/-- `check_overlap` compares the first and last addresses of two spans. -/
theorem checkOverlap_eq {region : IommuResvRegion} {start length : U64} {s t : Span ℕ}
    (hs : Spells start length s) (ht : Spells region.start region.length t) :
    checkOverlap region start (start + length - 1) = decide (s.Overlaps t) := by
  have hslast := hs.last
  have htlast := ht.last
  have hslt := s.lo_lt_hi
  have htlt := t.lo_lt_hi
  have hslo := hs.lo
  have htlo := ht.lo
  rw [Bool.eq_iff_iff]
  simp only [checkOverlap, ge_iff_le, BitVec.le_def, Bool.and_eq_true, decide_eq_true_eq,
    hslast, htlast, ← hslo, ← htlo]
  unfold Span.Overlaps
  omega

/-- The results of the search of `insert_range` and of `place` correspond. -/
def Splits : Option (List IommuResvRegion × List IommuResvRegion) →
    Option (List (Span ℕ) × List (Span ℕ)) → Prop
  | none, none => True
  | some (before, after), some (before', after') => Denote before before' ∧ Denote after after'
  | _, _ => False

theorem insertScan_refines {start length : U64} {s : Span ℕ} (hs : Spells start length s)
    {regions : List IommuResvRegion} {spans : List (Span ℕ)} (h : Denote regions spans) :
    Splits (insertScan start (start + length - 1) regions) (place s spans) := by
  induction h with
  | nil => exact ⟨.nil, .nil⟩
  | @cons region t regions spans ht hrest ih =>
      simp only [insertScan, place, checkOverlap_eq hs ht, decide_eq_true_eq]
      have hlt : start < region.start ↔ s.lo < t.lo := by
        rw [BitVec.lt_def, hs.lo, ht.lo]
      by_cases hoverlaps : s.Overlaps t
      · simp [hoverlaps, Splits]
      · by_cases hbefore : s.lo < t.lo
        · simp only [hoverlaps, hlt, hbefore, if_true, if_false]
          exact ⟨.nil, .cons ht hrest⟩
        · simp only [hoverlaps, hlt, hbefore, if_false]
          generalize insertScan start (start + length - 1) regions = found at ih ⊢
          generalize place s spans = found' at ih ⊢
          cases found with
          | none =>
              cases found' with
              | none => trivial
              | some _ => exact ih.elim
          | some _ =>
              cases found' with
              | none => exact ih.elim
              | some _ => exact ⟨.cons ht ih.1, ih.2⟩

/-! ## The walk over the property -/

/-- The positions in a property at which the walk calls its callback. -/
def positions (step : Nat) : List U32 → List (List U32)
  | [] => []
  | cell :: p => (cell :: p) :: positions step (p.drop (step - 1))
  termination_by p => p.length

/-- The start and the size at a position. -/
def poolEntry (naddr nsize : Nat) (p : List U32) : U64 × U64 :=
  (ofReadNumber p naddr, ofReadNumber (p.drop naddr) nsize)

/-- The device has a property `qcom,iommu-dma-addr-pool` of whole entries, which decodes to the
given sequence of starts and sizes. -/
structure PoolProperty (dev : OfDevice) (entries : List (U64 × U64)) where
  np : DeviceNode
  value : List (BitVec 8)
  parsed : qcomIommuGroupParsePhandle dev = some np
  found : np.properties "qcom,iommu-dma-addr-pool" = some value
  naddr_ne_zero : np.nAddrCells ≠ 0
  nsize_ne_zero : np.nSizeCells ≠ 0
  whole : (be32Cells value).length % (np.nAddrCells + np.nSizeCells) = 0
  decodes : (positions (np.nAddrCells + np.nSizeCells) (be32Cells value)).map
    (poolEntry np.nAddrCells np.nSizeCells) = entries

/-- The bytes of a cell, the most significant first. -/
def be32Bytes (c : U32) : List (BitVec 8) :=
  [c.extractLsb' 24 8, c.extractLsb' 16 8, c.extractLsb' 8 8, c.extractLsb' 0 8]

/-- The two cells of a 64-bit number, the most significant first. -/
def numberCells (x : U64) : List U32 := [x.extractLsb' 32 32, x.extractLsb' 0 32]

theorem be32Cells_bytes (cells : List U32) : be32Cells (cells.flatMap be32Bytes) = cells := by
  induction cells with
  | nil => rfl
  | cons c rest ih =>
      have hc : (c.extractLsb' 24 8 ++ c.extractLsb' 16 8 ++
          (c.extractLsb' 8 8 ++ c.extractLsb' 0 8) : BitVec 32) = c := by
        apply BitVec.eq_of_getLsbD_eq
        intro i hi
        simp only [BitVec.getLsbD_append, BitVec.getLsbD_extractLsb']
        grind
      simp [be32Bytes, be32Cells, ih, hc]

theorem ofReadNumber_numberCells (x : U64) (rest : List U32) :
    ofReadNumber (numberCells x ++ rest) 2 = x := by
  simp only [ofReadNumber, numberCells, List.cons_append, List.take_succ_cons, List.nil_append,
    List.take_zero, List.foldl_cons, List.foldl_nil]
  apply BitVec.eq_of_getLsbD_eq
  intro i hi
  simp [BitVec.getLsbD_extractLsb']
  grind

/-- The cells that spell a sequence of entries, two for each number. -/
def poolCells (entries : List (U64 × U64)) : List U32 :=
  entries.flatMap fun e => numberCells e.1 ++ numberCells e.2

theorem length_poolCells (entries : List (U64 × U64)) :
    (poolCells entries).length = 4 * entries.length := by
  induction entries with
  | nil => rfl
  | cons e rest ih =>
      simp only [poolCells, List.flatMap_cons, List.length_append] at ih ⊢
      rw [ih]
      simp only [numberCells, List.length_cons, List.length_nil]
      omega

theorem positions_poolCells (entries : List (U64 × U64)) :
    (positions 4 (poolCells entries)).map (poolEntry 2 2) = entries := by
  induction entries with
  | nil => simp [poolCells, positions]
  | cons e rest ih =>
      have hfirst : poolEntry 2 2 (poolCells (e :: rest)) = e := by
        rw [poolEntry, poolCells, List.flatMap_cons, List.append_assoc, ofReadNumber_numberCells]
        have hdrop (tail : List U32) : (numberCells e.1 ++ tail).drop 2 = tail := rfl
        rw [hdrop, ofReadNumber_numberCells]
      have hcells : positions 4 (poolCells (e :: rest)) =
          poolCells (e :: rest) :: positions 4 (poolCells rest) := by
        simp only [poolCells, List.flatMap_cons, numberCells, List.cons_append]
        rw [positions]
        rfl
      rw [hcells, List.map_cons, hfirst, ih]

/-- A node whose pool has the given entries. -/
def poolNode (entries : List (U64 × U64)) : DeviceNode where
  nAddrCells := 2
  nSizeCells := 2
  properties name :=
    if name = "qcom,iommu-dma-addr-pool" then some ((poolCells entries).flatMap be32Bytes)
    else none

/-- The device whose pool has the given entries. -/
def poolDevice (entries : List (U64 × U64)) : OfDevice where
  ofNode := some (poolNode entries)
  iommuGroup := none

/-- Every sequence of entries is the pool of a device. -/
def poolDevice_pool (entries : List (U64 × U64)) : PoolProperty (poolDevice entries) entries where
  np := poolNode entries
  value := (poolCells entries).flatMap be32Bytes
  parsed := rfl
  found := by simp [poolNode]
  naddr_ne_zero := Nat.succ_ne_zero 1
  nsize_ne_zero := Nat.succ_ne_zero 1
  whole := by
    rw [be32Cells_bytes, length_poolCells]
    exact Nat.mul_mod_right 4 _
  decodes := by
    rw [be32Cells_bytes]
    exact positions_poolCells entries

/-- The loop of `insert_range` calls, with the result of each on spans. -/
def Inserted (spans : Option (List (Span ℕ))) : Post ResvCall (Multiset ℕ)
    (Int × List IommuResvRegion) := fun _ result _ =>
  match spans with
  | none => ∃ head, result = some (-EINVAL, head)
  | some l => ∃ head, result = some (0, head) ∧ Denote head l

/-- With allocations succeeding, an allocation returns a region for the span asked for. -/
theorem wp_alloc {α : Type} {start length : U64} {s : Span ℕ} {live : Multiset ℕ}
    {rest : Option IommuResvRegion → ResvProg α} {Q : Post ResvCall (Multiset ℕ) α}
    (hs : Spells start length s)
    (hrest : ∀ trace new live', Spells new.start new.length s →
      wp (resvKernel false) .any (rest (some new)) (Q.after trace) live') :
    wp (resvKernel false) .any (Program.perform (.iommuAllocResvRegion start length) >>= rest) Q
      live := by
  simp only [wp_bind, wp_perform]
  refine ⟨trivial, fun hempty => (hempty.false none).elim, ?_⟩
  intro answer live' hstep
  cases answer with
  | none => simp [resvKernel, resvStep] at hstep
  | some new =>
      obtain ⟨⟨-, hstart, hlength⟩, -⟩ := by simpa [resvKernel, resvStep] using hstep
      exact hrest _ new live' (by rwa [hstart, hlength])

/-- With allocations succeeding, one call of `insert_range` inserts one span. -/
theorem insertRange_refines {p : List U32} {naddr nsize : Nat} {s : Span ℕ}
    {head : List IommuResvRegion} {spans : List (Span ℕ)} {live : Multiset ℕ}
    (hs : Spells (poolEntry naddr nsize p).1 (poolEntry naddr nsize p).2 s)
    (hhead : Denote head spans) :
    wp (resvKernel false) .any (insertRange p naddr nsize head)
      (Inserted ((place s spans).map fun (before, after) => before ++ s :: after)) live := by
  have hscan := insertScan_refines hs hhead
  simp only [poolEntry] at hs hscan
  unfold insertRange
  dsimp only
  generalize insertScan _ _ head = found at hscan ⊢
  generalize place s spans = found' at hscan ⊢
  match found, found', hscan with
  | none, none, _ => simp [Inserted]
  | some (before, after), some (before', after'), hscan =>
      rw [Spells.length_eq]
      refine wp_alloc hs ?_
      intro trace new live' hnew
      have hdenote : Denote (before ++ new :: after) (before' ++ s :: after') :=
        List.rel_append hscan.1 (.cons hnew hscan.2)
      simpa [Inserted] using hdenote

/-- With allocations succeeding, the walk inserts the spans of all entries. -/
theorem walkEntries_refines {naddr nsize : Nat} {p : List U32} {new spans : List (Span ℕ)}
    {head : List IommuResvRegion} {live : Multiset ℕ}
    (hnew : List.Forall₂ (fun e s => Spells (poolEntry naddr nsize e).1
      (poolEntry naddr nsize e).2 s) (positions (naddr + nsize) p) new)
    (hhead : Denote head spans) :
    wp (resvKernel false) .any (walkEntries insertRange naddr nsize p head)
      (Inserted (insertAll new spans)) live := by
  induction p using positions.induct (naddr + nsize) generalizing head new spans live with
  | case1 =>
      rw [positions] at hnew
      cases hnew
      simp [walkEntries, insertAll, Inserted, hhead]
  | case2 cell p ih =>
      rw [positions] at hnew
      cases hnew with
      | @cons _ s _ rest hs hrest =>
          rw [walkEntries, wp_bind, insertAll]
          refine wp_mono (insertRange_refines hs hhead) ?_
          intro trace result live' hresult
          cases hplace : place s spans with
          | none =>
              obtain ⟨head', rfl⟩ := by simpa [Inserted, hplace] using hresult
              simp [Inserted, EINVAL]
          | some found =>
              obtain ⟨head', rfl, hhead'⟩ := by simpa [Inserted, hplace] using hresult
              rw [Post.andThen_some]
              exact wp_mono (ih hrest hhead') fun _ _ _ hinserted => hinserted

/-- With allocations succeeding, the regions of the pool are the spans of its entries inserted one
after the other. -/
theorem qcomIommuGenerateDmaRegions_refines {dev : OfDevice} {entries : List (U64 × U64)}
    {spans : List (Span ℕ)} {live : Multiset ℕ} (hpool : PoolProperty dev entries)
    (hspans : List.Forall₂ (fun e s => Spells e.1 e.2 s) entries spans) :
    wp (resvKernel false) .any (qcomIommuGenerateDmaRegions dev [])
      (Inserted (insertAll spans [])) live := by
  have hcounts : ¬ (hpool.np.nAddrCells = 0 ∨ hpool.np.nSizeCells = 0 ∨
      (be32Cells hpool.value).length % (hpool.np.nAddrCells + hpool.np.nSizeCells) ≠ 0) := by
    simp [hpool.naddr_ne_zero, hpool.nsize_ne_zero, hpool.whole]
  rw [← hpool.decodes, List.forall₂_map_left_iff] at hspans
  simp only [qcomIommuGenerateDmaRegions, ofPropertyWalkEachEntry, hpool.parsed, hpool.found,
    if_neg hcounts]
  exact walkEntries_refines hspans .nil

/-! ## Acceptance and order -/

/-- The addresses of a start and a length. -/
def addresses (start length : U64) : Set ℕ :=
  Set.Ico start.toNat (start.toNat + length.toNat)

/-- The start and the length of a region. -/
def IommuResvRegion.extent (region : IommuResvRegion) : U64 × U64 :=
  (region.start, region.length)

/-- The entries describe parts of the address space. -/
def EntriesFit (entries : List (U64 × U64)) : Prop :=
  ∀ e ∈ entries, Fits e.1 e.2

/-- No two entries have an address in common. -/
def EntriesDisjoint (entries : List (U64 × U64)) : Prop :=
  entries.Pairwise fun e e' => Disjoint (addresses e.1 e.2) (addresses e'.1 e'.2)

/-- The start and the length that spell a span. -/
def extentOf (s : Span ℕ) : U64 × U64 :=
  (BitVec.ofNat 64 s.lo, BitVec.ofNat 64 (s.hi - s.lo))

theorem Spells.eq_extentOf {start length : U64} {s : Span ℕ} (h : Spells start length s) :
    (start, length) = extentOf s := by
  have hlo := h.lo
  have hhi := h.hi
  rw [extentOf, hlo, hhi, Nat.add_sub_cancel_left, BitVec.ofNat_toNat, BitVec.ofNat_toNat]
  simp

theorem Spells.addresses_eq {start length : U64} {s : Span ℕ} (h : Spells start length s) :
    addresses start length = s.points := by
  rw [addresses, Span.points, h.lo, h.hi]

theorem EntriesFit.spans {entries : List (U64 × U64)} (h : EntriesFit entries) :
    ∃ spans : List (Span ℕ), List.Forall₂ (fun e s => Spells e.1 e.2 s) entries spans := by
  induction entries with
  | nil => exact ⟨[], .nil⟩
  | cons e rest ih =>
      obtain ⟨s, hs⟩ := Fits.spells (h e (by simp))
      obtain ⟨spans, hspans⟩ := ih fun e' he' => h e' (by simp [he'])
      exact ⟨s :: spans, .cons hs hspans⟩

theorem map_extentOf {entries : List (U64 × U64)} {spans : List (Span ℕ)}
    (h : List.Forall₂ (fun e s => Spells e.1 e.2 s) entries spans) :
    spans.map extentOf = entries := by
  induction h with
  | nil => rfl
  | cons hs _ ih => rw [List.map_cons, ih, ← hs.eq_extentOf]

/-- The extents of regions are those of the spans they denote. -/
theorem Denote.map_extent {regions : List IommuResvRegion} {spans : List (Span ℕ)}
    (h : Denote regions spans) : regions.map IommuResvRegion.extent = spans.map extentOf := by
  induction h with
  | nil => rfl
  | cons hs _ ih => rw [List.map_cons, List.map_cons, ih, ← hs.eq_extentOf]; rfl

/-- Each member of the second of two related lists is related to one of the first. -/
theorem exists_of_mem_right {α β : Type*} {R : α → β → Prop} {l : List α} {l' : List β}
    (h : List.Forall₂ R l l') {b : β} (hb : b ∈ l') : ∃ a ∈ l, R a b := by
  obtain ⟨i, hi, rfl⟩ := List.getElem_of_mem hb
  exact ⟨_, List.getElem_mem (h.length_eq.symm ▸ hi), h.get _ hi⟩

/-- A relation between the members of a list carries over to a list related to it. -/
theorem pairwise_of_forall₂ {α β : Type*} {R : α → β → Prop} {P : α → α → Prop} {Q : β → β → Prop}
    (himp : ∀ {a b a' b'}, R a a' → R b b' → Q a' b' → P a b) {l : List α} {l' : List β}
    (h : List.Forall₂ R l l') (hl' : l'.Pairwise Q) : l.Pairwise P := by
  induction h with
  | nil => exact .nil
  | @cons a a' l l' ha hrest ih =>
      obtain ⟨ha', hl'⟩ := List.pairwise_cons.mp hl'
      refine List.pairwise_cons.mpr ⟨?_, ih hl'⟩
      intro b hb
      obtain ⟨b', hb', hbb'⟩ := exists_of_mem_right hrest.flip hb
      exact himp ha hbb' (ha' b' hb')

/-- Regions that denote ascending spans start in ascending order. -/
theorem Denote.pairwise_start {regions : List IommuResvRegion} {spans : List (Span ℕ)}
    (h : Denote regions spans) (hascending : Ascending spans) :
    regions.Pairwise fun r r' => r.start < r'.start := by
  refine pairwise_of_forall₂ ?_ h hascending
  intro r r' s s' hs hs' hbefore
  rw [BitVec.lt_def, ← hs.lo, ← hs'.lo]
  exact hbefore.lo_lt

/-- Entries are disjoint exactly if their spans are. -/
theorem entriesDisjoint_iff {entries : List (U64 × U64)} {spans : List (Span ℕ)}
    (h : List.Forall₂ (fun e s => Spells e.1 e.2 s) entries spans) :
    EntriesDisjoint entries ↔ Apart spans := by
  constructor
  · refine pairwise_of_forall₂ ?_ h.flip
    intro s s' e e' hs hs' hdisjoint
    rwa [Span.not_overlaps_iff_disjoint, ← hs.addresses_eq, ← hs'.addresses_eq]
  · refine pairwise_of_forall₂ ?_ h
    intro e e' s s' hs hs' hapart
    rwa [hs.addresses_eq, hs'.addresses_eq, ← Span.not_overlaps_iff_disjoint]

/-- What `qcom_iommu_generate_dma_regions` has to return for the entries of a pool: `0` exactly if
they are disjoint, and then the entries in ascending order. -/
structure PoolRegions (entries : List (U64 × U64)) (ret : Int) (regions : List IommuResvRegion) :
    Prop where
  accepts : ret = 0 ↔ EntriesDisjoint entries
  perm : ret = 0 → (regions.map IommuResvRegion.extent).Perm entries
  ascending : ret = 0 → regions.Pairwise fun r r' => r.start < r'.start

theorem poolRegions_of_inserted {entries : List (U64 × U64)} {spans : List (Span ℕ)}
    (hspans : List.Forall₂ (fun e s => Spells e.1 e.2 s) entries spans)
    {trace : List (Event ResvCall)} {result : Option (Int × List IommuResvRegion)}
    {live : Multiset ℕ} (h : Inserted (insertAll spans []) trace result live) :
    ∃ ret regions, result = some (ret, regions) ∧ PoolRegions entries ret regions := by
  have hempty : Ascending ([] : List (Span ℕ)) := List.Pairwise.nil
  have hdisjoint : (insertAll spans []).isSome ↔ EntriesDisjoint entries := by
    rw [insertAll_isSome_iff hempty, List.append_nil, entriesDisjoint_iff hspans]
  cases hinsert : insertAll spans [] with
  | none =>
      rw [hinsert] at h hdisjoint
      obtain ⟨regions, rfl⟩ := h
      have hnot : ¬ EntriesDisjoint entries := by simpa using hdisjoint
      exact ⟨_, _, rfl, by simp [EINVAL, hnot], by simp [EINVAL], by simp [EINVAL]⟩
  | some l =>
      rw [hinsert] at h hdisjoint
      obtain ⟨regions, rfl, hdenote⟩ := h
      obtain ⟨hascending, hperm⟩ := insertAll_spec hempty hinsert
      refine ⟨_, _, rfl, by simpa using hdisjoint, ?_, fun _ => hdenote.pairwise_start hascending⟩
      intro _
      rw [hdenote.map_extent, ← map_extentOf hspans]
      rw [List.append_nil] at hperm
      exact hperm.map _

/-- An ascending list of regions is determined by their extents. -/
theorem PoolRegions.extent_eq {entries entries' : List (U64 × U64)} {ret ret' : Int}
    {regions regions' : List IommuResvRegion} (h : PoolRegions entries ret regions)
    (h' : PoolRegions entries' ret' regions') (hperm : entries.Perm entries') (hret : ret = 0)
    (hret' : ret' = 0) :
    regions.map IommuResvRegion.extent = regions'.map IommuResvRegion.extent := by
  have hperm' := (h.perm hret).trans (hperm.trans (h'.perm hret').symm)
  have hascending : (regions.map IommuResvRegion.extent).Pairwise fun e e' => e.1 < e'.1 :=
    List.pairwise_map.mpr (h.ascending hret)
  refine hperm'.eq_of_pairwise ?_ hascending (List.pairwise_map.mpr (h'.ascending hret'))
  intro e e' _ _ hlt hlt'
  exact absurd (BitVec.lt_trans hlt hlt') (BitVec.lt_irrefl _)

/-- Whatever the order of its entries, the pool of a device is accepted exactly if no two entries
overlap; the regions are then its entries, each once, in ascending order. -/
theorem generate_dma_regions_sorts {dev dev' : OfDevice} {entries entries' : List (U64 × U64)}
    {live live' last last' : Multiset ℕ} {trace trace' : List (Event ResvCall)}
    {result result' : Option (Int × List IommuResvRegion)}
    (hpool : PoolProperty dev entries) (hpool' : PoolProperty dev' entries')
    (hfit : EntriesFit entries) (hperm : entries.Perm entries')
    (hexec : Exec (resvKernel false) (qcomIommuGenerateDmaRegions dev []) live trace result last)
    (hexec' : Exec (resvKernel false) (qcomIommuGenerateDmaRegions dev' []) live' trace' result'
      last') :
    ∃ ret regions ret' regions', result = some (ret, regions) ∧ result' = some (ret', regions') ∧
      PoolRegions entries ret regions ∧ (ret = 0 ↔ ret' = 0) ∧
      (ret = 0 → regions.map IommuResvRegion.extent = regions'.map IommuResvRegion.extent) := by
  have hfit' : EntriesFit entries' := fun e he => hfit e (hperm.mem_iff.mpr he)
  obtain ⟨spans, hspans⟩ := hfit.spans
  obtain ⟨spans', hspans'⟩ := hfit'.spans
  obtain ⟨ret, regions, rfl, hregions⟩ := poolRegions_of_inserted hspans
    (wp_exec (qcomIommuGenerateDmaRegions_refines hpool hspans) hexec)
  obtain ⟨ret', regions', rfl, hregions'⟩ := poolRegions_of_inserted hspans'
    (wp_exec (qcomIommuGenerateDmaRegions_refines hpool' hspans') hexec')
  have hdisjoint : EntriesDisjoint entries ↔ EntriesDisjoint entries' :=
    hperm.pairwise_iff fun hd => hd.symm
  have hret : ret = 0 ↔ ret' = 0 := by rw [hregions.accepts, hregions'.accepts, hdisjoint]
  exact ⟨ret, regions, ret', regions', rfl, rfl, hregions, hret,
    fun h => hregions.extent_eq hregions' hperm h (hret.mp h)⟩

/-- Two entries that touch are accepted in both orders. -/
theorem generate_dma_regions_sorts_touching :
    ∃ trace trace' regions regions' last last',
      Exec (resvKernel false) (qcomIommuGenerateDmaRegions (poolDevice [(16, 16), (0, 16)]) []) 0
        trace (some (0, regions)) last ∧
      Exec (resvKernel false) (qcomIommuGenerateDmaRegions (poolDevice [(0, 16), (16, 16)]) []) 0
        trace' (some (0, regions')) last' ∧
      regions.map IommuResvRegion.extent = regions'.map IommuResvRegion.extent := by
  obtain ⟨trace, result, last, hexec⟩ := Semantics.Responsive.exec
    (resvKernel_responsive false)
    (qcomIommuGenerateDmaRegions (poolDevice [(16, 16), (0, 16)]) []) 0
  obtain ⟨trace', result', last', hexec'⟩ := Semantics.Responsive.exec
    (resvKernel_responsive false)
    (qcomIommuGenerateDmaRegions (poolDevice [(0, 16), (16, 16)]) []) 0
  have hfit : EntriesFit [(16, 16), (0, 16)] := by simp [EntriesFit, Fits]
  have hdisjoint : EntriesDisjoint [(16, 16), (0, 16)] := by
    refine List.pairwise_pair.mpr (Set.disjoint_left.mpr ?_)
    intro a ha ha'
    simp [addresses] at ha ha'
    omega
  obtain ⟨ret, regions, ret', regions', rfl, rfl, hregions, hret, hextent⟩ :=
    generate_dma_regions_sorts (poolDevice_pool _) (poolDevice_pool _) hfit (List.Perm.swap _ _ _)
      hexec hexec'
  obtain rfl := hregions.accepts.mpr hdisjoint
  obtain rfl := hret.mp rfl
  exact ⟨trace, trace', regions, regions', last, last', hexec, hexec', hextent rfl⟩

end SafeLinux.IovaMap
