import SafeLinux.IovaMap.Ownership
import SafeLinux.Kiumd.CustomIova

/-!
# Failures of the reservation

`qcom_iommu_generate_resv_regions` returns nothing, so `kiumd_dmabuf_custom_iova_init` goes on and
returns 0 when the generation has failed. `InitShape` lists the ways in which the call can end when
allocations may fail; from it follow exactly when a result of 0 means that all is reserved, and when
all regions allocated on the way are released.
-/

namespace SafeLinux.Kiumd

open Effects IovaMap
open Effects.Program (perform)

/-! ## Allocations that may fail -/

/-- As `iovaInitStep`, but a region allocation may fail. -/
def iovaFailStep (env : IovaInitEnv) :
    {β : Type} → IovaInitCall β → World × Multiset ℕ → β → Option (World × Multiset ℕ)
  | _, .resv request, (w, live), answer => (resvStep true request live answer).map (w, ·)
  | _, request, s, answer => iovaInitStep env request s answer

/-- The environment in which allocations may fail. -/
def iovaFailKernel (env : IovaInitEnv) : Semantics IovaInitCall (World × Multiset ℕ) :=
  ⟨iovaFailStep env⟩

/-- The call of `iommu_iova_map.c` behind a call. -/
def resvEvent : Event IovaInitCall → Option (Event ResvCall)
  | ⟨.resv request, answer⟩ => some ⟨request, answer⟩
  | _ => none

/-- The calls of `iommu_iova_map.c` among some calls. -/
def resvEvents (trace : List (Event IovaInitCall)) : List (Event ResvCall) :=
  trace.filterMap resvEvent

variable {env : IovaInitEnv} {s s' : World × Multiset ℕ} {dev : Device} {kiusr : KiumdUser}
  {trace trace' : List (Event IovaInitCall)} {own : List (Event ResvCall)}

@[simp] theorem resvEvents_nil : resvEvents [] = [] := rfl

@[simp] theorem resvEvents_append :
    resvEvents (trace ++ trace') = resvEvents trace ++ resvEvents trace' :=
  List.filterMap_append

@[simp] theorem resvEvents_kernel {β : Type} {request : KCall β} {answer : β} :
    resvEvents (⟨.kernel request, answer⟩ :: trace) = resvEvents trace := rfl

@[simp] theorem resvEvents_iova {β : Type} {request : IovaCall β} {answer : β} :
    resvEvents (⟨.iova request, answer⟩ :: trace) = resvEvents trace := rfl

@[simp] theorem reservedRanges_kernel {β : Type} {request : KCall β} {answer : β} :
    reservedRanges (⟨.kernel request, answer⟩ :: trace) = reservedRanges trace := rfl

@[simp] theorem reservedRanges_dmaSetMaxSegSize {size : U32} {answer : Int} :
    reservedRanges (⟨.iova (.dmaSetMaxSegSize dev size), answer⟩ :: trace) =
      reservedRanges trace := rfl

@[simp] theorem reservedRanges_nil : reservedRanges [] = [] := rfl

@[simp] theorem resvEvents_lift : resvEvents (own.map (Event.lift .resv)) = own := by
  rw [resvEvents, List.filterMap_map]
  exact List.filterMap_some

@[simp] theorem reservedRanges_lift :
    reservedRanges (own.map (Event.lift .resv)) = [] := by
  rw [reservedRanges, List.filterMap_map]
  exact List.filterMap_eq_nil_iff.mpr fun _ _ => rfl

/-- Calls of neither `iommu_iova_map.c` nor `reserve_iova`. -/
def IsOther (trace : List (Event IovaInitCall)) : Prop :=
  resvEvents trace = [] ∧ reservedRanges trace = []

/-! ## The ways in which the call can end -/

/-- The descriptor has been found to refer to a file of the device. -/
def FindsDevice (fd : Int) (dev : Device) (trace : List (Event IovaInitCall)) : Prop :=
  ∃ file v, ⟨.kernel (.fget fd), some file⟩ ∈ trace ∧ file.privateData = some (some v) ∧
    v.dev = some dev

/-- A call that is refused, and one that reserves the regions generated. -/
inductive InitShape (env : IovaInitEnv) (kiusr : KiumdUser) :
    Post IovaInitCall (World × Multiset ℕ) Int
  | refused {trace : List (Event IovaInitCall)} {ret : Int} {s : World × Multiset ℕ} :
      ret ≠ 0 → IsOther trace → InitShape env kiusr trace (some ret) s
  | oops {trace : List (Event IovaInitCall)} {s : World × Multiset ℕ} :
      InitShape env kiusr trace none s
  | served {dev : Device} {trace : List (Event IovaInitCall)} {regions : List IommuResvRegion}
      {live : Multiset ℕ} {s : World × Multiset ℕ} : FindsDevice kiusr.vfioFd dev trace →
      Reserves (env.ofDevice dev) [] (resvEvents trace) (some regions) live →
      reservedRanges trace = regions.map (pfnRange (env.shift dev.domain)) →
      InitShape env kiusr trace (some 0) s

/-- The loop passes the range of each region to `reserve_iova`. -/
theorem reserveRegions_shape {domain : Domain} {cookie : Bool} {regions : List IommuResvRegion} :
    wp (iovaFailKernel env) .any (reserveRegions domain cookie regions)
      (fun trace result _ => resvEvents trace = [] ∧ (result = some () →
        reservedRanges trace = regions.map (pfnRange (env.shift domain)))) s := by
  induction regions generalizing s with
  | nil => exact wp_pure.mpr ⟨rfl, fun _ => rfl⟩
  | cons region rest ih =>
      unfold reserveRegions
      split
      · exact wp_perform_bind.mpr ⟨trivial, fun _ => ⟨rfl, fun h => by cases h⟩, fun answer => answer.elim⟩
      refine Effects.wp_step fun shift s₁ hshift => ?_
      simp only [iovaFailKernel, iovaFailStep, iovaInitStep] at hshift
      split at hshift <;> cases hshift
      rename_i hshift
      subst hshift
      refine Effects.wp_step fun shift s₂ hshift => ?_
      simp only [iovaFailKernel, iovaFailStep, iovaInitStep] at hshift
      split at hshift <;> cases hshift
      rename_i hshift
      subst hshift
      refine Effects.wp_step fun _ s₃ _ => wp_mono ih ?_
      rintro trace result _ ⟨hevents, hranges⟩
      refine ⟨hevents, fun hresult => ?_⟩
      rw [List.map_cons, ← hranges hresult]
      rfl

/-- The part of `kiumd_dmabuf_custom_iova_init` from the device on. -/
theorem customIovaReserve_shape {file : File} {past : List (Event IovaInitCall)}
    (hpast : IsOther past) (hfinds : FindsDevice kiusr.vfioFd dev past) :
    wp (iovaFailKernel env) .any (customIovaReserve env file dev)
      ((InitShape env kiusr).after past) s := by
  obtain ⟨hevents, hranges⟩ := hpast
  unfold customIovaReserve
  refine Effects.wp_step fun _ s₁ _ => Effects.wp_step fun domain s₂ hdomain => ?_
  cases domain with
  | none =>
      refine Effects.wp_step fun _ s₃ _ => wp_pure.mpr ?_
      exact .refused (by decide) ⟨by simp [hevents], by simp [hranges]⟩
  | some domain =>
      have hdomain : domain = dev.domain := by
        simp only [iovaFailKernel, iovaFailStep, iovaInitStep, kernelStep] at hdomain
        split at hdomain
        · assumption
        · cases hdomain
      subst hdomain
      refine Effects.wp_step fun cookie s₃ _ => ?_
      have hgenerate := @wp_lift _ _ _ _ _ _ (iovaFailKernel env)
        (fun request => IovaInitCall.resv request) Prod.snd _ _ s₃ ?_
        (@qcomIommuGenerateResvRegions_reserves true s₃.2 (env.ofDevice dev) [])
      · rw [wp_bind]
        refine wp_mono hgenerate ?_
        rintro _ result s₄ ⟨own, rfl, hreserves⟩
        cases result with
        | none => exact .oops
        | some regions =>
            rw [Post.andThen_some, wp_bind]
            refine wp_mono reserveRegions_shape ?_
            rintro trace result s₅ ⟨htrace, hreserved⟩
            cases result with
            | none => exact .oops
            | some value =>
                refine Effects.wp_step fun _ s₆ _ => wp_pure.mpr ?_
                refine @InitShape.served env kiusr dev _ regions s₄.2 _ ?_ ?_ ?_
                · obtain ⟨file, v, hfile, hv⟩ := hfinds
                  exact ⟨file, v, List.mem_append_left _ hfile, hv⟩
                · simpa [hevents, htrace] using hreserves
                · simpa [hranges] using hreserved rfl
      · rintro β request answer ⟨w, live⟩ ⟨w', live'⟩ hstep
        obtain ⟨live'', hlive, heq⟩ := Option.map_eq_some_iff.mp hstep
        cases heq
        exact hlive

theorem kiumdDmabufCustomIovaInit_shape :
    wp (iovaFailKernel env) .any (kiumdDmabufCustomIovaInit env kiusr) (InitShape env kiusr) s := by
  unfold kiumdDmabufCustomIovaInit
  refine Effects.wp_step fun copied s₁ _ => ?_
  split
  · exact wp_pure.mpr (.refused (by decide) ⟨rfl, rfl⟩)
  split
  · exact wp_pure.mpr (.refused (by decide) ⟨rfl, rfl⟩)
  refine Effects.wp_step fun file s₂ _ => ?_
  rw [Post.after_after]
  cases file with
  | none => exact wp_pure.mpr (.refused (by decide) ⟨rfl, rfl⟩)
  | some file =>
  cases hprivate : file.privateData with
  | none =>
      simp only [hprivate]
      exact wp_perform_bind.mpr ⟨trivial, fun _ => .oops, fun answer => answer.elim⟩
  | some device =>
  cases device with
  | none =>
      simp only [hprivate]
      exact Effects.wp_step fun _ s₃ _ => wp_pure.mpr (.refused (by decide) ⟨rfl, rfl⟩)
  | some vfioDev =>
  cases hvfio : vfioDev.dev with
  | none =>
      simp only [hprivate, hvfio]
      exact wp_perform_bind.mpr ⟨trivial, fun _ => .oops, fun answer => answer.elim⟩
  | some dev =>
      simp only [hprivate, hvfio]
      refine customIovaReserve_shape ⟨rfl, rfl⟩ ⟨file, vfioDev, ?_, hprivate, hvfio⟩
      simp

/-- A call that returns for a file of the device has done nothing about regions or has used those
of that device. -/
theorem initShape_cases {ret : Int}
    (hexec : Exec (iovaFailKernel env) (kiumdDmabufCustomIovaInit env kiusr) s trace (some ret) s')
    (hdev : NamesDevice kiusr.vfioFd dev trace) :
    (ret ≠ 0 ∧ IsOther trace) ∨ ∃ regions live, ret = 0 ∧
      Reserves (env.ofDevice dev) [] (resvEvents trace) (some regions) live ∧
      reservedRanges trace = regions.map (pfnRange (env.shift dev.domain)) := by
  have hshape := wp_exec kiumdDmabufCustomIovaInit_shape hexec
  cases hshape with
  | refused hret hother => exact .inl ⟨hret, hother⟩
  | @served found _ regions live _ hfinds hreserves hranges =>
      obtain ⟨file, v, hfile, hv, hvdev⟩ := hfinds
      obtain ⟨v', hv', hdev'⟩ := hdev file hfile
      obtain rfl : v = v' := by
        rw [hv] at hv'
        cases hv'
        rfl
      obtain rfl : found = dev := Option.some.inj (hvdev.symm.trans hdev')
      exact .inr ⟨regions, live, rfl, hreserves, hranges⟩

/-! ## When a result of 0 means that all is reserved -/

/-- Each page frame that no entry touches lies in one of the ranges. -/
def ReservesUntouched (shift : Nat) (entries ranges : List (U64 × U64)) : Prop :=
  ∀ p < 2 ^ 64 / 2 ^ shift, (∀ e ∈ entries, ¬ CoversPfn shift e p) →
    ∃ range ∈ ranges, inRange p range = true

/-- Each page frame is touched by an entry. -/
def TouchesAll (shift : Nat) (entries : List (U64 × U64)) : Prop :=
  ∀ p < 2 ^ 64 / 2 ^ shift, ∃ e ∈ entries, CoversPfn shift e p

/-- The regions can be generated: the property is of whole entries, at least one, `insert_range`
takes all of them, no allocation fails, and the pool is not the one entry of no addresses at 0. -/
structure GeneratesAll (dev : OfDevice) (trace : List (Event ResvCall)) : Prop where
  wellFormed : PoolWellFormed dev
  nonempty : poolEntries dev ≠ []
  accepted : (insertEntries (poolEntries dev) []).isSome
  allocates : ¬ AllocFails trace
  proper : poolEntries dev ≠ [(0, 0)]

/-- The regions outside any pool taken by `insert_range` contain each page frame of at least two
addresses that no entry touches. -/
theorem reservesUntouched_of_outside {shift : Nat} {entries l : List (U64 × U64)}
    {regions : List IommuResvRegion} (hshift : 1 ≤ shift)
    (hinsert : insertEntries entries [] = some l) (hne : entries ≠ []) (hzero : entries ≠ [(0, 0)])
    (hregions : regions.map IommuResvRegion.extent = outsidePool l) :
    ReservesUntouched shift entries (regions.map (pfnRange shift)) := by
  intro p hp huntouched
  have hperm := insertEntries_perm hinsert
  rw [List.append_nil] at hperm
  have hgranule : 2 ≤ 2 ^ shift := Nat.pow_le_pow_right (by decide : 0 < 2) hshift
  have hbound : p * 2 ^ shift + 2 ^ shift ≤ 2 ^ 64 := by
    calc p * 2 ^ shift + 2 ^ shift = (p + 1) * 2 ^ shift := (Nat.succ_mul p _).symm
      _ ≤ 2 ^ 64 / 2 ^ shift * 2 ^ shift := Nat.mul_le_mul_right _ hp
      _ ≤ 2 ^ 64 := Nat.div_mul_le_self _ _
  have haddress : (BitVec.ofNat 64 (p * 2 ^ shift)).toNat = p * 2 ^ shift := by
    rw [BitVec.toNat_ofNat]
    exact Nat.mod_eq_of_lt (by omega)
  have hl : l ≠ [] := by
    rintro rfl
    exact hne hperm.symm.eq_nil
  have hl₀ : (0, 0) ∉ l := by
    intro hmem
    have halone := insertEntries_zero hinsert (fun h => absurd h List.not_mem_nil) hmem
    rw [halone] at hperm
    exact hzero (List.perm_singleton.mp hperm.symm)
  have hclear : ∀ e ∈ l, (BitVec.ofNat 64 (p * 2 ^ shift)).toNat ∉ addresses e.1 e.2 := by
    intro e he hmem
    rw [haddress] at hmem
    exact huntouched e (hperm.mem_iff.mp he) (coversPfn_of_mem hmem)
  obtain ⟨x, hx, hfrom, hto⟩ := outsidePool_covers hl (by omega) hl₀ hclear
  rw [← hregions] at hx
  obtain ⟨region, hregion, rfl⟩ := List.mem_map.mp hx
  refine ⟨_, List.mem_map_of_mem hregion, ?_⟩
  have hpos : 0 < 2 ^ shift := Nat.two_pow_pos shift
  rw [BitVec.le_def, haddress] at hfrom hto
  simp only [inRange, pfnRange, iovaPfn, BitVec.toNat_ushiftRight, Nat.shiftRight_eq_div_pow,
    Bool.and_eq_true, decide_eq_true_eq]
  refine ⟨?_, (Nat.le_div_iff_mul_le hpos).mpr hto⟩
  calc region.start.toNat / 2 ^ shift ≤ p * 2 ^ shift / 2 ^ shift := Nat.div_le_div_right hfrom
    _ = p := Nat.mul_div_cancel p hpos

/-- Regions are handed to the caller only when they can be generated. -/
theorem generatesAll_of_mem {ofDev : OfDevice} {regions : List IommuResvRegion} {live : Multiset ℕ}
    {region : IommuResvRegion} (h : Reserves ofDev [] own (some regions) live)
    (hregion : region ∈ regions) : GeneratesAll ofDev own := by
  generalize hresult : some regions = result at h
  cases h with
  | malformed | unwalked | uninverted =>
      cases hresult
      exact absurd hregion List.not_mem_nil
  | @done _ l regions' _ hwell hinsert hne hfails hextent =>
      rw [List.append_nil, Option.some.injEq] at hresult
      subst hresult
      refine ⟨hwell, hne, by rw [hinsert]; rfl, hfails, fun hzero => ?_⟩
      rw [hzero] at hinsert
      obtain rfl : l = [(0, 0)] := by
        have hperm := insertEntries_perm hinsert
        exact List.perm_singleton.mp hperm
      rw [show outsidePool [(0, 0)] = [] by decide, List.map_eq_nil_iff] at hextent
      rw [hextent] at hregion
      cases hregion

/-- When the regions can be generated, the caller gets what lies outside the pool. -/
theorem outside_of_generatesAll {ofDev : OfDevice} {regions : List IommuResvRegion}
    {live : Multiset ℕ} (h : Reserves ofDev [] own (some regions) live)
    (hgenerates : GeneratesAll ofDev own) : ∃ l, insertEntries (poolEntries ofDev) [] = some l ∧
      regions.map IommuResvRegion.extent = outsidePool l := by
  generalize hresult : some regions = result at h
  cases h with
  | malformed hmalformed => exact absurd hgenerates.wellFormed hmalformed
  | unwalked _ _ hwhy =>
      refine (hwhy.elim hgenerates.allocates fun hnone => ?_).elim
      have haccepted := hgenerates.accepted
      rw [hnone] at haccepted
      cases haccepted
  | uninverted _ hwhy => exact (hwhy.elim hgenerates.allocates hgenerates.nonempty).elim
  | @done _ l regions' _ _ hinsert _ _ hextent =>
      rw [List.append_nil, Option.some.injEq] at hresult
      subst hresult
      exact ⟨l, hinsert, hextent⟩

/-- For every device and property, whichever allocations fail: a call that returns 0 has reserved
each page frame that no entry touches if and only if the regions could be generated or there is no
such page frame. -/
theorem custom_iova_init_fails_closed_iff
    (hexec : Exec (iovaFailKernel env) (kiumdDmabufCustomIovaInit env kiusr) s trace (some 0) s')
    (hdev : NamesDevice kiusr.vfioFd dev trace) (hshift : 1 ≤ env.shift dev.domain) :
    ReservesUntouched (env.shift dev.domain) (poolEntries (env.ofDevice dev))
        (reservedRanges trace) ↔
      GeneratesAll (env.ofDevice dev) (resvEvents trace) ∨
        TouchesAll (env.shift dev.domain) (poolEntries (env.ofDevice dev)) := by
  obtain ⟨hret, -⟩ | ⟨regions, live, -, hreserves, hranges⟩ := initShape_cases hexec hdev
  · exact absurd rfl hret
  rw [hranges]
  constructor
  · intro hall
    by_cases htouches : TouchesAll (env.shift dev.domain) (poolEntries (env.ofDevice dev))
    · exact .inr htouches
    refine .inl ?_
    simp only [TouchesAll, not_forall, not_exists, not_and] at htouches
    obtain ⟨p, hp, huntouched⟩ := htouches
    obtain ⟨range, hrange, -⟩ := hall p hp huntouched
    obtain ⟨region, hregion, -⟩ := List.mem_map.mp hrange
    exact generatesAll_of_mem hreserves hregion
  · rintro (hgenerates | htouches)
    · obtain ⟨l, hinsert, hextent⟩ := outside_of_generatesAll hreserves hgenerates
      exact reservesUntouched_of_outside hshift hinsert hgenerates.nonempty hgenerates.proper
        hextent
    · intro p hp huntouched
      obtain ⟨e, he, htouched⟩ := htouches p hp
      exact absurd htouched (huntouched e he)

/-- Answers for `kiumd_dmabuf_custom_iova_init`: the pool of every device has the given entries. -/
def poolEnv (entries : List (U64 × U64)) : IovaInitEnv :=
  ⟨fun _ => poolDevice entries, fun _ => PAGE_SHIFT⟩

/-- The page frames around the two pages are reserved, as no allocation fails. -/
theorem custom_iova_init_fails_closed_iff_two_pages : ∃ trace s',
    Exec (iovaFailKernel (poolEnv twoPages)) (kiumdDmabufCustomIovaInit (poolEnv twoPages)
      plainUser) (.initial, 0) trace (some 0) s' ∧
    ReservesUntouched PAGE_SHIFT twoPages (reservedRanges trace) := by
  have hcheck : (kiumdDmabufCustomIovaInit (poolEnv twoPages) plainUser).check
      (iovaFailKernel (poolEnv twoPages))
      (iovaInitChoose (Answers.plain fun _ _ => false) (poolEnv twoPages)) (.initial, 0)
      (fun trace ret _ => decide (ret = 0) && trace.all findsPlainDevice &&
        decide (¬ AllocFails (resvEvents trace))) = true := by
    decide +kernel
  obtain ⟨trace, ret, s, hexec, htest⟩ := Program.check_exec hcheck
  simp only [Bool.and_eq_true, decide_eq_true_eq, List.all_eq_true] at htest
  obtain ⟨⟨rfl, hfiles⟩, hallocates⟩ := htest
  have hnames : NamesDevice plainUser.vfioFd ⟨0, 0⟩ trace := by
    intro file hfile
    exact ⟨_, of_decide_eq_true (hfiles _ hfile), rfl⟩
  have hentries : poolEntries (poolDevice twoPages) = twoPages := by
    decide +kernel
  have hgenerates : GeneratesAll (poolDevice twoPages) (resvEvents trace) := by
    refine ⟨⟨_, _, rfl, rfl, by decide, by decide, by decide +kernel⟩, ?_, ?_, hallocates, ?_⟩ <;>
      rw [hentries] <;> decide
  have hreserves := (custom_iova_init_fails_closed_iff hexec hnames (by decide)).mpr
    (.inl hgenerates)
  refine ⟨trace, s, hexec, ?_⟩
  rw [← hentries]
  exact hreserves

/-- The same page twice: nothing is reserved, and the call returns 0. -/
theorem not_custom_iova_init_fails_closed : ¬ ∀ env kiusr s trace s' dev,
    Exec (iovaFailKernel env) (kiumdDmabufCustomIovaInit env kiusr) s trace (some 0) s' →
      NamesDevice kiusr.vfioFd dev trace → ReservesUntouched (env.shift dev.domain)
        (poolEntries (env.ofDevice dev)) (reservedRanges trace) := by
  intro hall
  have hcheck : (kiumdDmabufCustomIovaInit (poolEnv [(0, 0x1000), (0, 0x1000)]) plainUser).check
      (iovaFailKernel (poolEnv [(0, 0x1000), (0, 0x1000)]))
      (iovaInitChoose (Answers.plain fun _ _ => false) (poolEnv [(0, 0x1000), (0, 0x1000)]))
      (.initial, 0) (fun trace ret _ => decide (ret = 0) && trace.all findsPlainDevice &&
        decide (reservedRanges trace = [])) = true := by
    decide +kernel
  obtain ⟨trace, ret, s, hexec, htest⟩ := Program.check_exec hcheck
  simp only [Bool.and_eq_true, decide_eq_true_eq, List.all_eq_true] at htest
  obtain ⟨⟨rfl, hfiles⟩, hranges⟩ := htest
  have hnames : NamesDevice plainUser.vfioFd ⟨0, 0⟩ trace := by
    intro file hfile
    exact ⟨_, of_decide_eq_true (hfiles _ hfile), rfl⟩
  have hentries : poolEntries (poolDevice [(0, 0x1000), (0, 0x1000)]) =
      [(0, 0x1000), (0, 0x1000)] := by
    decide +kernel
  have huntouched : ∀ e ∈ poolEntries (poolDevice [(0, 0x1000), (0, 0x1000)]),
      ¬ CoversPfn PAGE_SHIFT e 1 := by
    rw [hentries]
    rintro e he ⟨a, ha, hpage⟩
    obtain rfl : e = (0, 0x1000) := by simpa using he
    simp [addresses, PAGE_SHIFT] at ha hpage
    omega
  obtain ⟨range, hrange, -⟩ := hall _ _ _ _ _ _ hexec hnames 1 (by decide) huntouched
  rw [hranges] at hrange
  cases hrange

/-! ## When all regions are released -/

/-- Each region that the calls allocate is released exactly once. -/
def FreesAll (trace : List (Event ResvCall)) : Prop :=
  (freed trace).Perm (allocated trace)

/-- No allocation succeeds, or all entries are inserted and then an allocation of the inversion
fails or the pool leaves nothing to reserve. -/
def LeavesNone (dev : OfDevice) (trace : List (Event ResvCall)) : Prop :=
  allocated trace = [] ∨ ∃ l, insertEntries (poolEntries dev) [] = some l ∧
    (poolEntries dev).length ≤ (allocated trace).length ∧
    (AllocFails trace ∨ outsidePool l = [])

/-- The generation fails: the property is malformed or empty, an entry is refused or an allocation
fails. -/
def GenerationFails (dev : OfDevice) (trace : List (Event ResvCall)) : Prop :=
  ¬ PoolWellFormed dev ∨ poolEntries dev = [] ∨ insertEntries (poolEntries dev) [] = none ∨
    AllocFails trace

/-- A generation releases all regions just if it leaves none. -/
theorem freesAll_iff_of_reserves {ofDev : OfDevice} {head regions : List IommuResvRegion}
    {live : Multiset ℕ} (h : Reserves ofDev head own (some regions) live) :
    FreesAll own ↔ LeavesNone ofDev own := by
  cases h with
  | malformed => exact iff_of_true (.refl _) (.inl rfl)
  | unwalked hfreed hlength =>
      rw [FreesAll, LeavesNone, hfreed, List.nil_perm]
      refine ⟨.inl, ?_⟩
      rintro (hnone | ⟨l, -, hle, -⟩)
      · exact hnone
      · exact absurd hle (not_le_of_gt hlength)
  | uninverted hinsert hwhy hlength hfreed =>
      refine iff_of_true hfreed ?_
      rcases hwhy with hfails | hempty
      · exact .inr ⟨_, hinsert, hlength, .inl hfails⟩
      · rw [hempty] at hinsert
        cases hinsert
        exact .inr ⟨[], by rw [hempty]; rfl, hlength, .inr rfl⟩
  | @done _ l regions' _ hwell hinsert hne hfails hextent hlength howned =>
      have hleft : FreesAll own ↔ regions' = [] := by
        constructor
        · intro hfrees
          have hcount := (hfrees.trans howned).length_eq
          rw [List.length_append] at hcount
          exact List.length_eq_zero_iff.mp (by omega)
        · rintro rfl
          rw [List.append_nil] at howned
          exact howned.symm
      have hnothing : regions' = [] ↔ outsidePool l = [] := by
        rw [← hextent, List.map_eq_nil_iff]
      rw [hleft, hnothing]
      constructor
      · intro hnone
        exact .inr ⟨l, hinsert, hlength, .inr hnone⟩
      · rintro (hnone | ⟨l', hinsert', -, hwhy⟩)
        · have hzero : (poolEntries ofDev).length = 0 := by simpa [hnone] using hlength
          exact absurd (List.length_eq_zero_iff.mp hzero) hne
        · rw [hinsert] at hinsert'
          cases hinsert'
          exact hwhy.resolve_left hfails

/-- A generation that fails returns the list it was given. -/
theorem head_of_generationFails {ofDev : OfDevice} {head regions : List IommuResvRegion}
    {live : Multiset ℕ} (h : Reserves ofDev head own (some regions) live)
    (hfails : GenerationFails ofDev own) : regions = head := by
  cases h with
  | malformed | unwalked | uninverted => rfl
  | done hwell hinsert hne hallocates =>
      rcases hfails with hmalformed | hempty | hnone | hfails
      · exact absurd hwell hmalformed
      · exact absurd hempty hne
      · rw [hinsert] at hnone
        cases hnone
      · exact absurd hfails hallocates

/-- Every generation that fails leaves the list it was given as it was; and a call that returns has
released each region that it has allocated exactly once if and only if no allocation has
succeeded, or all entries were inserted and then an allocation failed or nothing was to be
reserved. -/
theorem custom_iova_init_frees_iff {trace : List (Event IovaInitCall)} {ret : Int}
    {s' : World × Multiset ℕ}
    (hexec : Exec (iovaFailKernel env) (kiumdDmabufCustomIovaInit env kiusr) s trace (some ret) s')
    (hdev : NamesDevice kiusr.vfioFd dev trace) :
    (∀ ofDev head live own regions last,
      Exec (resvKernel true) (qcomIommuGenerateResvRegions ofDev head) live own (some regions)
        last → GenerationFails ofDev own → regions = head) ∧
    (FreesAll (resvEvents trace) ↔ LeavesNone (env.ofDevice dev) (resvEvents trace)) := by
  refine ⟨?_, ?_⟩
  · intro ofDev head live own regions last hown hfails
    exact head_of_generationFails (wp_exec qcomIommuGenerateResvRegions_reserves hown) hfails
  · obtain ⟨-, hevents, -⟩ | ⟨regions, live, -, hreserves, -⟩ := initShape_cases hexec hdev
    · rw [hevents]
      exact iff_of_true (.refl _) (.inl rfl)
    · exact freesAll_iff_of_reserves hreserves

/-- The whole address space but its last byte is in the pool: nothing is to be reserved, and the
region of the pool is released. -/
theorem custom_iova_init_frees_iff_whole : ∃ trace s',
    Exec (iovaFailKernel (poolEnv [(0, U64_MAX)])) (kiumdDmabufCustomIovaInit
      (poolEnv [(0, U64_MAX)]) plainUser) (.initial, 0) trace (some 0) s' ∧
    (allocated (resvEvents trace)).length = 1 ∧ FreesAll (resvEvents trace) := by
  have hcheck : (kiumdDmabufCustomIovaInit (poolEnv [(0, U64_MAX)]) plainUser).check
      (iovaFailKernel (poolEnv [(0, U64_MAX)]))
      (iovaInitChoose (Answers.plain fun _ _ => false) (poolEnv [(0, U64_MAX)])) (.initial, 0)
      (fun trace ret _ => decide (ret = 0) && trace.all findsPlainDevice &&
        decide ((allocated (resvEvents trace)).length = 1)) = true := by
    decide +kernel
  obtain ⟨trace, ret, s, hexec, htest⟩ := Program.check_exec hcheck
  simp only [Bool.and_eq_true, decide_eq_true_eq, List.all_eq_true] at htest
  obtain ⟨⟨rfl, hfiles⟩, hone⟩ := htest
  have hnames : NamesDevice plainUser.vfioFd ⟨0, 0⟩ trace := by
    intro file hfile
    exact ⟨_, of_decide_eq_true (hfiles _ hfile), rfl⟩
  have hinsert : insertEntries (poolEntries (poolDevice [(0, U64_MAX)])) [] =
      some [(0, U64_MAX)] := by
    decide +kernel
  have hlength : (poolEntries (poolDevice [(0, U64_MAX)])).length = 1 := by
    decide +kernel
  refine ⟨trace, s, hexec, hone, ?_⟩
  refine (custom_iova_init_frees_iff hexec hnames).2.mpr (.inr ⟨_, hinsert, ?_, ?_⟩)
  · exact (hlength.trans hone.symm).le
  · exact .inr (by decide +kernel)

/-- The regions reserved for two pages are never released. -/
theorem not_custom_iova_init_frees : ¬ ∀ env kiusr s trace ret s',
    Exec (iovaFailKernel env) (kiumdDmabufCustomIovaInit env kiusr) s trace (some ret) s' →
      FreesAll (resvEvents trace) := by
  intro hall
  have hcheck : (kiumdDmabufCustomIovaInit (poolEnv twoPages) plainUser).check
      (iovaFailKernel (poolEnv twoPages))
      (iovaInitChoose (Answers.plain fun _ _ => false) (poolEnv twoPages)) (.initial, 0)
      (fun trace _ _ => decide ((freed (resvEvents trace)).length = 2) &&
        decide ((allocated (resvEvents trace)).length = 5)) = true := by
    decide +kernel
  obtain ⟨trace, ret, s, hexec, htest⟩ := Program.check_exec hcheck
  simp only [Bool.and_eq_true, decide_eq_true_eq] at htest
  have hcount := (hall _ _ _ _ _ _ hexec).length_eq
  rw [htest.1, htest.2] at hcount
  cases hcount

end SafeLinux.Kiumd
