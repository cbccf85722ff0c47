import SafeLinux.Kiumd.Answers
import SafeLinux.Kiumd.Device
import SafeLinux.Kiumd.Footprint
import SafeLinux.Tilings.Basic

/-!
# The ranges of the KGSL windows

`get_map_offset` hands out page ranges of a window and `clear_map_iova` takes them back. `AllocRun`
is any sequence of such calls with the ranges that are live after it; the bitmap of a window is
tiled by its live ranges.
-/

namespace SafeLinux.Kiumd

open Effects

/-- What `get_map_offset` was asked for and the offset it returned. -/
structure KgslRange where
  ptselect : Int
  size : U64
  offset : U64
  deriving DecidableEq

namespace KgslRange

/-- The number of whole pages asked for. -/
def nrPages (r : KgslRange) : Nat := (r.size >>> PAGE_SHIFT).toNat

/-- The first page of the range in its window. -/
def firstPage (r : KgslRange) : Nat := (r.offset >>> PAGE_SHIFT).toNat

/-- The pages of the range in its window. -/
def pages (r : KgslRange) : Set Nat := Set.Ico r.firstPage (r.firstPage + r.nrPages)

/-- The IOVA at which `set_map_iova` puts the range. -/
def iova (r : KgslRange) : U64 := mapIova r.offset r.ptselect

/-- The range is aligned to pages and lies in a window. -/
structure InWindow (r : KgslRange) : Prop where
  kgsl : IsKgsl r.ptselect
  aligned : r.offset.toNat = r.firstPage * 2 ^ PAGE_SHIFT
  le_window : r.firstPage + r.nrPages ≤ KGSL_PT_MEM_PAGES

end KgslRange

/-- The pages whose bit is set. -/
def KgslMaps.marked (k : KgslMaps) (m : KgslMap) : Set Nat := { i | k.bits m i = true }

variable {w w' : World} {size : U64} {ptselect : Int}

/-! ## Bits -/

theorem KgslMaps.fill_bits_of_ne {k : KgslMaps} {m m' : KgslMap} {start nr : Nat} {value : Bool}
    (h : m' ≠ m) : (k.fill m start nr value).bits m' = k.bits m' := by
  simp [KgslMaps.fill, h]

@[simp] theorem KgslMaps.setLastOffset_bits {k : KgslMaps} {m : KgslMap} {offset : U64} :
    (k.setLastOffset m offset).bits = k.bits := rfl

@[simp] theorem KgslMaps.setLastOffset_marked {k : KgslMaps} {m m' : KgslMap} {offset : U64} :
    (k.setLastOffset m offset).marked m' = k.marked m' := rfl

theorem KgslMaps.fill_marked_of_ne {k : KgslMaps} {m m' : KgslMap} {start nr : Nat} {value : Bool}
    (h : m' ≠ m) : (k.fill m start nr value).marked m' = k.marked m' := by
  rw [KgslMaps.marked, fill_bits_of_ne h]
  rfl

/-- Setting bits marks their pages. -/
theorem KgslMaps.marked_set {k : KgslMaps} {m : KgslMap} {start nr : Nat} :
    (k.fill m start nr true).marked m = Set.Ico start (start + nr) ∪ k.marked m := by
  ext i
  simp only [KgslMaps.marked, KgslMaps.fill, Function.update_self, fillBits, Set.mem_ofPred_eq,
    Set.mem_union, Set.mem_Ico]
  split <;> simp_all

/-- Clearing bits unmarks their pages. -/
theorem KgslMaps.marked_clear {k : KgslMaps} {m : KgslMap} {start nr : Nat} :
    (k.fill m start nr false).marked m = k.marked m \ Set.Ico start (start + nr) := by
  ext i
  simp only [KgslMaps.marked, KgslMaps.fill, Function.update_self, fillBits, Set.mem_ofPred_eq,
    Set.mem_sdiff, Set.mem_Ico]
  split <;> simp_all

/-- None of the pages of a zero area is marked. -/
theorem ZeroArea.disjoint {k : KgslMaps} {m : KgslMap} {start nr : Nat}
    (h : ZeroArea (k.bits m) KGSL_PT_MEM_PAGES nr start) :
    Disjoint (Set.Ico start (start + nr)) (k.marked m) := by
  rw [Set.disjoint_left]
  rintro i ⟨hstart, hend⟩ hmarked
  have hzero := h.2 (i - start) (by omega)
  rw [Nat.add_sub_cancel' hstart] at hzero
  exact absurd hmarked (by simp [KgslMaps.marked, hzero])

/-- A search that returns a position inside the map has found a zero area. -/
theorem NextZeroArea.zeroArea {bits : Nat → Bool} {start nr result : Nat}
    (h : NextZeroArea bits KGSL_PT_MEM_PAGES start nr result) (hnr : nr ≠ 0)
    (hresult : result ≤ KGSL_PT_MEM_PAGES) : ZeroArea bits KGSL_PT_MEM_PAGES nr result := by
  rcases h.2 hnr with ⟨_, hzero, _⟩ | ⟨hbeyond, _⟩
  · exact hzero
  · omega

/-- A search from the beginning that returns a position beyond the last page has found no zero
area. -/
theorem NextZeroArea.none_of_le {bits : Nat → Bool} {nr result : Nat}
    (h : NextZeroArea bits KGSL_PT_MEM_PAGES 0 nr result) (hnr : nr ≠ 0)
    (hresult : KGSL_PT_MEM_PAGES ≤ result) (start : Nat) :
    ¬ ZeroArea bits KGSL_PT_MEM_PAGES nr start := by
  intro hzero
  have hstart : start < KGSL_PT_MEM_PAGES := by
    have := hzero.1
    omega
  rcases h.2 hnr with ⟨_, hfound, _⟩ | ⟨_, hnone⟩
  · have := hfound.1
    omega
  · exact hnone start hstart (Nat.zero_le start) hzero

/-! ## One call -/

/-- Sizes for which the number of pages fits an `unsigned int`. -/
theorem pagesOf_toNat (h : (size >>> PAGE_SHIFT).toNat < 2 ^ 32) :
    (pagesOf size).toNat = (size >>> PAGE_SHIFT).toNat := by
  rw [pagesOf, BitVec.toNat_setWidth, Nat.mod_eq_of_lt h]

/-- `get_map_offset` has reserved the pages from `bit` on, or has changed no bit. -/
inductive Reserves (w : World) (m : KgslMap) (nr : Nat) (ret : Int) (w' : World) : Prop where
  | failed : ret < 0 → w'.kgsl.bits = w.kgsl.bits → Reserves w m nr ret w'
  | taken (bit : Nat) : ZeroArea (w.kgsl.bits m) KGSL_PT_MEM_PAGES nr bit →
      ret = (bit * 2 ^ PAGE_SHIFT : Nat) → w'.kgsl.bits = (w.kgsl.fill m bit nr true).bits →
      Reserves w m nr ret w'

/-- What `get_map_offset` does for `nr` pages: the map has no room for them and nothing is changed,
or it takes an area that was clear. -/
inductive Offers (w : World) (m : KgslMap) (nr : Nat) : Option Int → World → Prop where
  | full : (∀ start, ¬ ZeroArea (w.kgsl.bits m) KGSL_PT_MEM_PAGES nr start) →
      Offers w m nr (some (-ENOSPC)) w
  | taken (bit : Nat) (last : U64) : ZeroArea (w.kgsl.bits m) KGSL_PT_MEM_PAGES nr bit →
      last.toNat < KGSL_PT_MEM_PAGES →
      Offers w m nr (some (bit * 2 ^ PAGE_SHIFT : Nat))
        { w with kgsl := (w.kgsl.fill m bit nr true).setLastOffset m last }

theorem takeMapArea_offers {m : KgslMap} {bit : U64}
    (hpages : (size >>> PAGE_SHIFT).toNat < 2 ^ 32)
    (hzero : ZeroArea (w.kgsl.bits m) KGSL_PT_MEM_PAGES (size >>> PAGE_SHIFT).toNat bit.toNat) :
    wp kernel .any (takeMapArea m bit size)
      (fun _ result w' => Offers w m (size >>> PAGE_SHIFT).toNat result w') w := by
  have hbit : bit.toNat ≤ KGSL_PT_MEM_PAGES := le_trans (Nat.le_add_right _ _) hzero.1
  simp only [KGSL_PT_MEM_PAGES] at hbit
  unfold takeMapArea
  rw [wp_perform_bind]
  refine ⟨trivial, fun hempty => hempty.elim (), ?_⟩
  intro _ w₁ hset
  cases hset
  rw [Guard.any_after, wp_perform_bind]
  refine ⟨trivial, fun hempty => hempty.elim (), ?_⟩
  intro _ w₂ hlast
  cases hlast
  rw [Guard.any_after, wp_pure]
  have hoffset : (bit <<< PAGE_SHIFT).toInt = (bit.toNat * 2 ^ PAGE_SHIFT : Nat) := by
    have hshift : (bit <<< PAGE_SHIFT).toNat = bit.toNat * 2 ^ PAGE_SHIFT := by
      rw [BitVec.toNat_shiftLeft, Nat.shiftLeft_eq, Nat.mod_eq_of_lt]
      simp only [PAGE_SHIFT]
      omega
    rw [BitVec.toInt_eq_toNat_of_lt, hshift]
    rw [hshift]
    simp only [PAGE_SHIFT]
    omega
  have hlast : ((bit + size >>> PAGE_SHIFT) % BitVec.ofNat 64 KGSL_PT_MEM_PAGES).toNat <
      KGSL_PT_MEM_PAGES := by
    rw [BitVec.toNat_umod]
    exact Nat.mod_lt _ (by decide)
  have htaken := Offers.taken bit.toNat _ hzero hlast
  rw [← hoffset] at htaken
  simp only [Post.after_apply]
  rw [pagesOf_toNat hpages, BitVec.toNat_setWidth, Nat.mod_eq_of_lt (by omega)]
  exact htaken

/-- `get_map_offset`, for at least one page and fewer than `2 ^ 32`. -/
theorem getMapOffset_offers (hkgsl : IsKgsl ptselect)
    (hpos : 1 ≤ (size >>> PAGE_SHIFT).toNat) (hpages : (size >>> PAGE_SHIFT).toNat < 2 ^ 32) :
    wp kernel .any (getMapOffset size ptselect)
      (fun _ result w' =>
        Offers w (kgslMap ptselect) (size >>> PAGE_SHIFT).toNat result w') w := by
  have hsize : ¬ (size = 0 ∨ size >>> PAGE_SHIFT = 0) := by
    rintro (rfl | hzero)
    · simp at hpos
    · simp [hzero] at hpos
  have hsearch : ∀ {start result : U64},
      NextZeroArea (w.kgsl.bits (kgslMap ptselect)) KGSL_PT_MEM_PAGES start.toNat
        (pagesOf size).toNat result.toNat → result.toNat ≤ KGSL_PT_MEM_PAGES →
      ZeroArea (w.kgsl.bits (kgslMap ptselect)) KGSL_PT_MEM_PAGES
        (size >>> PAGE_SHIFT).toNat result.toNat := by
    intro start result hnext hresult
    rw [pagesOf_toNat hpages] at hnext
    exact hnext.zeroArea (by omega) hresult
  unfold getMapOffset
  rw [if_neg (not_not.mpr hkgsl), if_neg hsize, wp_perform_bind]
  refine ⟨trivial, fun hempty => hempty.elim (0 : U64), ?_⟩
  intro last w₁ hlast
  simp only [kernel, kernelStep] at hlast
  split at hlast
  case isFalse => cases hlast
  cases hlast
  rw [Guard.any_after, wp_perform_bind]
  refine ⟨trivial, fun hempty => hempty.elim (0 : U64), ?_⟩
  intro bit w₂ hfirst
  simp only [kernel, kernelStep] at hfirst
  split at hfirst
  case isFalse => cases hfirst
  rename_i hnext
  cases hfirst
  rw [Guard.any_after]
  split
  · rename_i hfits
    -- the sum does not wrap, because a search returns at most the map and the pages looked for
    have hbound : bit.toNat ≤ KGSL_PT_MEM_PAGES + (size >>> PAGE_SHIFT).toNat := by
      have := hnext.1
      rwa [pagesOf_toNat hpages] at this
    have hsum : (bit + size >>> PAGE_SHIFT).toNat = bit.toNat + (size >>> PAGE_SHIFT).toNat := by
      rw [BitVec.toNat_add, Nat.mod_eq_of_lt]
      simp only [KGSL_PT_MEM_PAGES] at hbound
      omega
    rw [hsum] at hfits
    exact takeMapArea_offers hpages (hsearch hnext (by omega))
  · rw [wp_perform_bind]
    refine ⟨trivial, fun hempty => hempty.elim (0 : U64), ?_⟩
    intro bit' w₃ hsecond
    simp only [kernel, kernelStep] at hsecond
    split at hsecond
    case isFalse => cases hsecond
    rename_i hnext'
    cases hsecond
    rw [Guard.any_after]
    split
    · rename_i hbeyond
      -- the second search starts at 0, so that it misses no area
      rw [pagesOf_toNat hpages] at hnext'
      exact wp_pure.mpr (.full (hnext'.none_of_le (by omega) hbeyond))
    · rename_i hinside
      exact takeMapArea_offers hpages (hsearch hnext' (by omega))

theorem Offers.reserves {m : KgslMap} {nr : Nat} {ret : Int}
    (h : Offers w m nr (some ret) w') : Reserves w m nr ret w' := by
  cases h with
  | full _ => exact .failed (by decide) rfl
  | taken bit last hzero _ => exact .taken bit hzero rfl rfl

/-- `get_map_offset` reserves an area, or changes no bit. -/
theorem getMapOffset_reserves (hkgsl : IsKgsl ptselect)
    (hpos : 1 ≤ (size >>> PAGE_SHIFT).toNat) (hpages : (size >>> PAGE_SHIFT).toNat < 2 ^ 32) :
    wp kernel .any (getMapOffset size ptselect)
      (fun _ result w' => ∀ ret, result = some ret →
        Reserves w (kgslMap ptselect) (size >>> PAGE_SHIFT).toNat ret w') w :=
  wp_mono (getMapOffset_offers hkgsl hpos hpages) fun _ _ _ hoffers _ hret =>
    (hret ▸ hoffers).reserves

/-- `get_map_offset` fails with `-ENOSPC` exactly when the map has no room for the pages, and then
changes nothing. Otherwise it returns the offset of an area that lies in the map and was clear,
sets its bits and no others, and leaves the search position inside the map. -/
theorem get_map_offset_complete (hkgsl : IsKgsl ptselect)
    (hpos : 1 ≤ (size >>> PAGE_SHIFT).toNat) (hpages : (size >>> PAGE_SHIFT).toNat < 2 ^ 32) :
    (∃ trace ret w', Exec kernel (getMapOffset size ptselect) w trace (some ret) w') ∧
    ∀ trace result w', Exec kernel (getMapOffset size ptselect) w trace result w' →
      (result = some (-ENOSPC) ↔ ¬ ∃ start, ZeroArea (w.kgsl.bits (kgslMap ptselect))
        KGSL_PT_MEM_PAGES (size >>> PAGE_SHIFT).toNat start) ∧
      (result = some (-ENOSPC) → w' = w) ∧
      (result ≠ some (-ENOSPC) → ∃ bit, ZeroArea (w.kgsl.bits (kgslMap ptselect))
          KGSL_PT_MEM_PAGES (size >>> PAGE_SHIFT).toNat bit ∧
        result = some (bit * 2 ^ PAGE_SHIFT : Nat) ∧
        (∀ m i, w'.kgsl.bits m i = true ↔ w.kgsl.bits m i = true ∨
          m = kgslMap ptselect ∧ bit ≤ i ∧ i < bit + (size >>> PAGE_SHIFT).toNat) ∧
        (w'.kgsl.lastOffset (kgslMap ptselect)).toNat < KGSL_PT_MEM_PAGES ∧
        w' = { w with kgsl := w'.kgsl }) := by
  constructor
  · obtain ⟨trace, result, w', hexec⟩ := kernel_responsive.exec (getMapOffset size ptselect) w
    have hoffers := wp_exec (getMapOffset_offers hkgsl hpos hpages) hexec
    cases hoffers with
    | full _ => exact ⟨trace, _, _, hexec⟩
    | taken bit last _ _ => exact ⟨trace, _, _, hexec⟩
  · intro trace result w' hexec
    have hoffers := wp_exec (getMapOffset_offers hkgsl hpos hpages) hexec
    cases hoffers with
    | full hnone =>
        refine ⟨⟨fun _ => not_exists.mpr hnone, fun _ => rfl⟩, fun _ => rfl, fun hne => ?_⟩
        exact absurd rfl hne
    | taken bit last hzero hlast =>
        have hsome : (some (bit * 2 ^ PAGE_SHIFT : Nat) : Option Int) ≠ some (-ENOSPC) := by
          intro heq
          have hneg : ((bit * 2 ^ PAGE_SHIFT : Nat) : Int) = -ENOSPC := Option.some.inj heq
          simp only [ENOSPC] at hneg
          omega
        refine ⟨⟨fun heq => absurd heq hsome, fun hnone => absurd ⟨bit, hzero⟩ hnone⟩,
          fun heq => absurd heq hsome, fun _ => ⟨bit, hzero, rfl, fun m i => ?_, ?_, rfl⟩⟩
        · by_cases hm : m = kgslMap ptselect
          · subst hm
            have hmarked : i ∈ (w.kgsl.fill (kgslMap ptselect) bit
                (size >>> PAGE_SHIFT).toNat true).marked (kgslMap ptselect) ↔
                i ∈ Set.Ico bit (bit + (size >>> PAGE_SHIFT).toNat) ∨
                  i ∈ w.kgsl.marked (kgslMap ptselect) := by
              rw [KgslMaps.marked_set]
              exact Iff.rfl
            simpa [KgslMaps.marked, or_comm] using hmarked
          · rw [KgslMaps.setLastOffset_bits, KgslMaps.fill_bits_of_ne hm]
            simp [hm]
        · simpa [KgslMaps.setLastOffset] using hlast

/-- One page of the global window, from empty bitmaps. -/
theorem get_map_offset_complete_page :
    (1 ≤ (0x1000#64 >>> PAGE_SHIFT).toNat ∧ (0x1000#64 >>> PAGE_SHIFT).toNat < 2 ^ 32) ∧
    ∃ trace ret w',
      Exec kernel (getMapOffset 0x1000#64 KGSL_GLOBAL_PT) .initial trace (some ret) w' ∧
      (ret = -ENOSPC ↔ ¬ ∃ start, ZeroArea (World.initial.kgsl.bits .global) KGSL_PT_MEM_PAGES
        (0x1000#64 >>> PAGE_SHIFT).toNat start) := by
  have hpos : 1 ≤ (0x1000#64 >>> PAGE_SHIFT).toNat := by decide
  have hpages : (0x1000#64 >>> PAGE_SHIFT).toNat < 2 ^ 32 := by decide
  have hcomplete := get_map_offset_complete (w := .initial) (.inl rfl : IsKgsl KGSL_GLOBAL_PT) hpos
    hpages
  obtain ⟨⟨trace, ret, w', hexec⟩, hall⟩ := hcomplete
  refine ⟨⟨hpos, hpages⟩, trace, ret, w', hexec, ?_⟩
  simpa [kgslMap] using (hall trace (some ret) w' hexec).1

/-- `clear_map_iova` inverts both encodings of an offset. -/
theorem KgslRange.InWindow.iovaBit {r : KgslRange} (h : r.InWindow) :
    iovaBit r.iova r.ptselect = r.offset >>> PAGE_SHIFT := by
  have hoffset : r.offset.toNat < 2 ^ 39 := by
    have haligned := h.aligned
    have hwindow := h.le_window
    simp only [PAGE_SHIFT, KGSL_PT_MEM_PAGES] at haligned hwindow
    omega
  rcases h.kgsl with hglobal | hperprocess
  · have hmask : (KGSL_GLOBAL_PT_BASE_IOVA + r.offset) &&& ~~~ KGSL_GLOBAL_PT_BASE_IOVA =
        r.offset := by
      have hcomplement : (~~~ KGSL_GLOBAL_PT_BASE_IOVA).toNat = 2 ^ 39 - 1 := by decide
      have hbase : KGSL_GLOBAL_PT_BASE_IOVA.toNat = 2 ^ 64 - 2 ^ 39 := by decide
      apply BitVec.eq_of_toNat_eq
      rw [BitVec.toNat_and, hcomplement, Nat.and_two_pow_sub_one_eq_mod, BitVec.toNat_add, hbase]
      omega
    rw [KgslRange.iova, mapIova, if_pos hglobal, Kiumd.iovaBit, if_pos hglobal, hmask]
  · have hne : r.ptselect ≠ KGSL_GLOBAL_PT := by
      rw [hperprocess]
      decide
    have hsub : KGSL_PER_PROCESS_PT_BASE_IOVA + r.offset - KGSL_PER_PROCESS_PT_BASE_IOVA =
        r.offset := by
      rw [BitVec.add_comm, BitVec.add_sub_cancel]
    rw [KgslRange.iova, mapIova, if_neg hne, Kiumd.iovaBit, if_neg hne, hsub]

/-- Releasing a range of a window clears exactly its pages. -/
theorem clearMapIova_clears {r : KgslRange} (h : r.InWindow) (hpages : r.nrPages < 2 ^ 32) :
    wp kernel .any (clearMapIova r.iova r.size r.ptselect)
      (fun _ _ w' =>
        w'.kgsl = w.kgsl.fill (kgslMap r.ptselect) r.firstPage r.nrPages false) w := by
  have hfirst : r.firstPage < 2 ^ 32 := by
    have hwindow := h.le_window
    simp only [KGSL_PT_MEM_PAGES] at hwindow
    omega
  have hstart : ((r.offset >>> PAGE_SHIFT).setWidth 32).toNat = r.firstPage := by
    rw [BitVec.toNat_setWidth]
    exact Nat.mod_eq_of_lt hfirst
  unfold clearMapIova
  rw [if_pos h.kgsl, wp_perform, h.iovaBit]
  refine ⟨trivial, fun hempty => hempty.elim (), ?_⟩
  intro _ w₁ hclear
  cases hclear
  rw [hstart, pagesOf_toNat hpages]
  rfl

/-! ## The other bitmap -/

/-- The bitmap a call changes. -/
def KCall.fills : {β : Type} → KCall β → Option KgslMap
  | _, .bitmapSet m _ _ | _, .bitmapClear m _ _ => some m
  | _, _ => none

/-- A call that does not change a bitmap leaves it alone. -/
theorem bits_step {β : Type} {request : KCall β} {answer : β} {m : KgslMap}
    (hstep : kernelStep request w answer = some w') (h : request.fills ≠ some m) :
    w'.kgsl.bits m = w.kgsl.bits m := by
  by_cases hwrites : Field.kgsl ∈ request.writes
  swap
  · have hkgsl : w'.kgsl = w.kgsl := step_agrees hstep hwrites
    rw [hkgsl]
  cases request with
  | setLastOffset m' offset =>
      cases hstep
      rfl
  | bitmapSet m' start nr | bitmapClear m' start nr =>
      cases hstep
      exact KgslMaps.fill_bits_of_ne fun heq => h (congrArg some heq.symm)
  | _ => simp [KCall.writes] at hwrites

/-- The calls that change at most one of the bitmaps. -/
def FillsOnly (m : KgslMap) : (β : Type) → KCall β → Prop :=
  fun _ request => ∀ m' ∈ request.fills, m' = m

/-- A program that changes at most the bitmap `m` leaves the other one alone. -/
theorem wp_fillsOnly {α : Type} {p : KProg α} {m m' : KgslMap} (h : p.Only (FillsOnly m))
    (hne : m' ≠ m) : wp kernel .any p (fun _ _ w' => w'.kgsl.bits m' = w.kgsl.bits m') w := by
  have honly := wp_only (S := kernel) (I := fun s => s.kgsl.bits m' = w.kgsl.bits m')
    (s := w) ?_ h rfl
  · exact wp_weaken honly (fun _ _ _ _ _ => trivial) fun _ _ _ hpost => hpost.2
  · intro β request answer s s' hfills hstep hs
    rw [bits_step hstep fun hother => hne (hfills m' hother), hs]

theorem takeMapArea_fillsOnly {m : KgslMap} {bit : U64} :
    (takeMapArea m bit size).Only (FillsOnly m) := by
  unfold takeMapArea
  refine .then (fun m' hm' => ?_) fun _ => .then (fun m' hm' => ?_) fun _ => .pure _
  · exact (Option.some.inj hm').symm
  · cases hm'

theorem getMapOffset_fillsOnly :
    (getMapOffset size ptselect).Only (FillsOnly (kgslMap ptselect)) := by
  unfold getMapOffset
  split
  · exact .pure _
  split
  · exact .pure _
  refine .then (fun m' hm' => by cases hm') fun _ => .then (fun m' hm' => by cases hm') fun _ => ?_
  split
  · exact takeMapArea_fillsOnly
  refine .then (fun m' hm' => by cases hm') fun _ => ?_
  split
  · exact .pure _
  · exact takeMapArea_fillsOnly

theorem clearMapIova_fillsOnly {iova : U64} :
    (clearMapIova iova size ptselect).Only (FillsOnly (kgslMap ptselect)) := by
  unfold clearMapIova
  split
  · exact .perform fun m' hm' => (Option.some.inj hm').symm
  · exact .pure _

/-! ## Runs of the allocator -/

/-- `AllocRun live w`: calls of `get_map_offset` and `clear_map_iova` have led from the empty
bitmaps to `w`; `live` are the ranges returned and not yet released. -/
inductive AllocRun : List KgslRange → World → Prop where
  | start {w : World} : w.kgsl = default → AllocRun [] w
  | reserve {live : List KgslRange} {w w' : World} {size : U64} {ptselect ret : Int}
      {trace : List (Event KCall)} :
      AllocRun live w → IsKgsl ptselect →
      1 ≤ (size >>> PAGE_SHIFT).toNat → (size >>> PAGE_SHIFT).toNat < 2 ^ 32 →
      Exec kernel (getMapOffset size ptselect) w trace (some ret) w' →
      AllocRun (if ret < 0 then live else ⟨ptselect, size, BitVec.ofInt 64 ret⟩ :: live) w'
  | release {live : List KgslRange} {w w' : World} {r : KgslRange}
      {trace : List (Event KCall)} {result : Option Unit} :
      AllocRun live w → r ∈ live →
      Exec kernel (clearMapIova r.iova r.size r.ptselect) w trace result w' →
      AllocRun (live.erase r) w'

/-- The ranges of a window. -/
def rangesOf (m : KgslMap) (live : List KgslRange) : List KgslRange :=
  live.filter fun r => kgslMap r.ptselect = m

/-- The bitmap of each window is tiled by the live ranges of the window. -/
structure AllocInv (live : List KgslRange) (w : World) : Prop where
  inWindow : ∀ r ∈ live, r.InWindow ∧ r.nrPages < 2 ^ 32
  tiles : ∀ m, Tilings.Tiles KgslRange.pages (rangesOf m live) (w.kgsl.marked m)

theorem AllocInv.start (h : w.kgsl = default) : AllocInv [] w := by
  refine ⟨nofun, fun m => ?_⟩
  have hmarked : w.kgsl.marked m = ∅ := by
    rw [h]
    ext i
    simp [KgslMaps.marked, default]
  rw [hmarked]
  exact Tilings.tiles_nil

/-- The range of a successful call. -/
theorem inWindow_of_bit {bit nr : Nat} (hkgsl : IsKgsl ptselect)
    (hnr : (size >>> PAGE_SHIFT).toNat = nr) (hle : bit + nr ≤ KGSL_PT_MEM_PAGES) :
    KgslRange.InWindow ⟨ptselect, size, BitVec.ofInt 64 (bit * 2 ^ PAGE_SHIFT : Nat)⟩ ∧
      KgslRange.firstPage ⟨ptselect, size, BitVec.ofInt 64 (bit * 2 ^ PAGE_SHIFT : Nat)⟩ = bit := by
  have hoffset : (BitVec.ofInt 64 (bit * 2 ^ PAGE_SHIFT : Nat)).toNat = bit * 2 ^ PAGE_SHIFT := by
    rw [BitVec.ofInt_natCast, BitVec.toNat_ofNat, Nat.mod_eq_of_lt]
    simp only [KGSL_PT_MEM_PAGES, PAGE_SHIFT] at hle ⊢
    omega
  have hfirst : (BitVec.ofInt 64 (bit * 2 ^ PAGE_SHIFT : Nat) >>> PAGE_SHIFT).toNat = bit := by
    rw [BitVec.toNat_ushiftRight, hoffset, Nat.shiftRight_eq_div_pow]
    exact Nat.mul_div_cancel bit (by decide)
  refine ⟨⟨hkgsl, ?_, ?_⟩, hfirst⟩
  · rw [KgslRange.firstPage, hfirst, hoffset]
  · rw [KgslRange.firstPage, hfirst, KgslRange.nrPages, hnr]
    exact hle

theorem AllocInv.reserve {live : List KgslRange} {ret : Int} (h : AllocInv live w)
    (hkgsl : IsKgsl ptselect) (hpages : (size >>> PAGE_SHIFT).toNat < 2 ^ 32)
    (hreserves : Reserves w (kgslMap ptselect) (size >>> PAGE_SHIFT).toNat ret w') :
    AllocInv (if ret < 0 then live else ⟨ptselect, size, BitVec.ofInt 64 ret⟩ :: live) w' := by
  cases hreserves with
  | failed hneg hbits =>
      rw [if_pos hneg]
      refine ⟨h.inWindow, fun m => ?_⟩
      have hmarked : w'.kgsl.marked m = w.kgsl.marked m := by rw [KgslMaps.marked, hbits]; rfl
      rw [hmarked]
      exact h.tiles m
  | taken bit hzero hret hbits =>
      obtain ⟨hwindow, hfirst⟩ := inWindow_of_bit hkgsl rfl (by have := hzero.1; omega)
      rw [if_neg (by omega), hret]
      refine ⟨?_, fun m => ?_⟩
      · rintro r (_ | ⟨_, hr⟩)
        · exact ⟨hwindow, hpages⟩
        · exact h.inWindow r hr
      have hmarked : w'.kgsl.marked m = (w.kgsl.fill (kgslMap ptselect) bit
          (size >>> PAGE_SHIFT).toNat true).marked m := by rw [KgslMaps.marked, hbits]; rfl
      rw [hmarked, rangesOf, List.filter_cons]
      by_cases hm : kgslMap ptselect = m
      · subst hm
        rw [if_pos (by simp), KgslMaps.marked_set]
        have hcons := (h.tiles (kgslMap ptselect)).cons (r := ⟨ptselect, size,
          BitVec.ofInt 64 (bit * 2 ^ PAGE_SHIFT : Nat)⟩)
        rw [KgslRange.pages, hfirst] at hcons
        exact hcons hzero.disjoint
      · rw [if_neg (by simpa using hm), KgslMaps.fill_marked_of_ne (Ne.symm hm)]
        exact h.tiles m

theorem AllocInv.release {live : List KgslRange} {r : KgslRange} (h : AllocInv live w)
    (hr : r ∈ live)
    (hclear : w'.kgsl = w.kgsl.fill (kgslMap r.ptselect) r.firstPage r.nrPages false) :
    AllocInv (live.erase r) w' := by
  refine ⟨fun r' hr' => h.inWindow r' (List.mem_of_mem_erase hr'), fun m => ?_⟩
  rw [rangesOf, ← List.erase_filter, ← rangesOf, hclear]
  by_cases hm : kgslMap r.ptselect = m
  · subst hm
    rw [KgslMaps.marked_clear]
    exact (h.tiles _).erase (List.mem_filter.mpr ⟨hr, by simp⟩)
  · have hnot : r ∉ rangesOf m live := fun hmem => hm (by simpa using (List.mem_filter.mp hmem).2)
    rw [KgslMaps.fill_marked_of_ne (Ne.symm hm), List.erase_of_not_mem hnot]
    exact h.tiles m

/-- Every call keeps the windows tiled. -/
theorem AllocRun.inv {live : List KgslRange} (h : AllocRun live w) : AllocInv live w := by
  induction h with
  | start hkgsl => exact .start hkgsl
  | reserve _ hkgsl hpos hpages hexec ih =>
      exact ih.reserve hkgsl hpages (wp_exec (getMapOffset_reserves hkgsl hpos hpages) hexec _ rfl)
  | release _ hr hexec ih =>
      obtain ⟨hwindow, hpages⟩ := ih.inWindow _ hr
      exact ih.release hr (wp_exec (clearMapIova_clears hwindow hpages) hexec)

theorem kgslMap_inj {ptselect' : Int} (h : IsKgsl ptselect) (h' : IsKgsl ptselect') :
    kgslMap ptselect = kgslMap ptselect' ↔ ptselect = ptselect' := by
  rcases h with rfl | rfl <;> rcases h' with rfl | rfl <;> decide

/-- After any run the live ranges of each `ptselect` are pairwise disjoint, lie inside the window
and are together what is marked in its bitmap; and no call on one `ptselect` changes the bitmap of
the other one. -/
theorem alloc_run_tiles_windows {live : List KgslRange} (h : AllocRun live w) :
    (∀ ptselect, IsKgsl ptselect →
      (live.filter (·.ptselect = ptselect)).Pairwise (fun r r' => Disjoint r.pages r'.pages) ∧
      (∀ r ∈ live.filter (·.ptselect = ptselect),
        r.offset.toNat = r.firstPage * 2 ^ PAGE_SHIFT ∧ r.pages ⊆ Set.Iio KGSL_PT_MEM_PAGES) ∧
      w.kgsl.marked (kgslMap ptselect) = ⋃ r ∈ live.filter (·.ptselect = ptselect), r.pages) ∧
    ∀ ptselect other, IsKgsl ptselect → IsKgsl other → other ≠ ptselect → ∀ size iova,
      (∀ trace result w', Exec kernel (getMapOffset size ptselect) w trace result w' →
        w'.kgsl.marked (kgslMap other) = w.kgsl.marked (kgslMap other)) ∧
      ∀ trace result w', Exec kernel (clearMapIova iova size ptselect) w trace result w' →
        w'.kgsl.marked (kgslMap other) = w.kgsl.marked (kgslMap other) := by
  have hinv := h.inv
  refine ⟨?_, ?_⟩
  · intro ptselect hkgsl
    have hranges : rangesOf (kgslMap ptselect) live = live.filter (·.ptselect = ptselect) := by
      refine List.filter_congr fun r hr => ?_
      exact decide_eq_decide.mpr (kgslMap_inj (hinv.inWindow r hr).1.kgsl hkgsl)
    have htiles := hinv.tiles (kgslMap ptselect)
    rw [hranges] at htiles
    refine ⟨htiles.disjoint, ?_, htiles.union⟩
    intro r hr
    obtain ⟨hwindow, _⟩ := hinv.inWindow r (List.mem_filter.mp hr).1
    exact ⟨hwindow.aligned, fun i hi => lt_of_lt_of_le hi.2 hwindow.le_window⟩
  · intro ptselect other hkgsl hother hne size iova
    have hmaps : kgslMap other ≠ kgslMap ptselect :=
      fun heq => hne ((kgslMap_inj hother hkgsl).mp heq)
    refine ⟨?_, ?_⟩
    · intro trace result w' hexec
      have hbits := wp_exec (wp_fillsOnly getMapOffset_fillsOnly hmaps) hexec
      rw [KgslMaps.marked, hbits]
      rfl
    · intro trace result w' hexec
      have hbits := wp_exec (wp_fillsOnly clearMapIova_fillsOnly hmaps) hexec
      rw [KgslMaps.marked, hbits]
      rfl

/-- A run that leaves two pages of the global window live. -/
theorem alloc_run_tiles_windows_two_pages : ∃ r w, AllocRun [r] w ∧ r.pages = {0, 1} ∧
    w.kgsl.marked .global = ⋃ r' ∈ [r].filter (·.ptselect = KGSL_GLOBAL_PT), r'.pages := by
  have hcheck : (getMapOffset 0x2000#64 KGSL_GLOBAL_PT).check kernel
      (Answers.plain fun _ _ => false).choose .initial (fun _ ret _ => decide (ret = 0)) =
        true := by
    decide +kernel
  obtain ⟨trace, ret, w, hexec, htest⟩ := Program.check_exec hcheck
  obtain rfl : ret = 0 := of_decide_eq_true htest
  have hrun : AllocRun [⟨KGSL_GLOBAL_PT, 0x2000#64, 0#64⟩] w :=
    .reserve (.start rfl) (.inl rfl) (by decide) (by decide) hexec
  refine ⟨_, w, hrun, ?_, ((alloc_run_tiles_windows hrun).1 KGSL_GLOBAL_PT (.inl rfl)).2.2⟩
  ext i
  have hnr : KgslRange.nrPages ⟨KGSL_GLOBAL_PT, 0x2000#64, 0#64⟩ = 2 := by decide
  have hfirst : KgslRange.firstPage ⟨KGSL_GLOBAL_PT, 0x2000#64, 0#64⟩ = 0 := by decide
  rw [KgslRange.pages, hnr, hfirst, Set.mem_Ico, Set.mem_insert_iff, Set.mem_singleton_iff]
  omega

end SafeLinux.Kiumd
