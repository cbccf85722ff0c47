import SafeLinux.Effects.Lift
import SafeLinux.IovaMap.Invert
import SafeLinux.Kiumd.Answers

/-!
# Reserving what lies outside the pool of a device

`kiumd_dmabuf_custom_iova_init` turns the regions of `qcom_iommu_generate_resv_regions` into ranges
of page frame numbers and passes these to `reserve_iova`. When the pool is aligned to pages, the
ranges are the page frames that no pool entry covers.
-/

namespace SafeLinux.Kiumd

open Effects IovaMap Spans
open Effects.Program (perform)

/-! ## The function -/

/-- The calls that only `kiumd_dmabuf_custom_iova_init` makes. -/
inductive IovaCall : Type → Type where
  | dmaSetMaxSegSize (dev : Device) (size : U32) : IovaCall Int
  /-- The shift that `iova_pfn` reads from the IOVA domain of a cookie. -/
  | iovaShift (domain : Domain) : IovaCall Nat
  | reserveIova (domain : Domain) (lo hi : U64) : IovaCall Bool

/-- The calls of `kiumd_dmabuf_custom_iova_init`, by the type of their answer. -/
inductive IovaInitCall (β : Type) : Type where
  | kernel (request : KCall β)
  | resv (request : ResvCall β)
  | iova (request : IovaCall β)

/-- A program that makes these calls. -/
abbrev IovaInitProg := Program IovaInitCall

/-- What the function finds of the devices: their devicetree nodes and the shifts of their IOVA
domains. -/
structure IovaInitEnv where
  ofDevice : Device → OfDevice
  shift : Domain → Nat

/-- The calls of the driver and those of `iommu_iova_map.c` act on states of their own; no region
allocation fails. -/
def iovaInitStep (env : IovaInitEnv) :
    {β : Type} → IovaInitCall β → World × Multiset ℕ → β → Option (World × Multiset ℕ)
  | _, .kernel request, (w, live), answer => (kernelStep request w answer).map (·, live)
  | _, .resv request, (w, live), answer => (resvStep false request live answer).map (w, ·)
  | _, .iova (.dmaSetMaxSegSize _ _), s, _ => some s
  | _, .iova (.iovaShift domain), s, shift => if shift = env.shift domain then some s else none
  | _, .iova (.reserveIova _ _ _), s, _ => some s

/-- The environment of `kiumd_dmabuf_custom_iova_init`. -/
def iovaInitKernel (env : IovaInitEnv) : Semantics IovaInitCall (World × Multiset ℕ) :=
  ⟨iovaInitStep env⟩

/-- `iova_pfn`, for an IOVA domain whose granule is a power of two. -/
def iovaPfn (shift : Nat) (iova : U64) : U64 := iova >>> shift

/-- The loop of `kiumd_dmabuf_custom_iova_init`; `cookie` says whether `domain->iova_cookie`, which
is not checked, is a cookie. -/
def reserveRegions (domain : Domain) (cookie : Bool) : List IommuResvRegion → IovaInitProg Unit
  | [] => return ()
  | region :: rest => do
      if ¬ cookie then
        perform (.kernel .oops) >>= Empty.elim
      else
        let lo := iovaPfn (← perform (.iova (.iovaShift domain))) region.start
        let hi := iovaPfn (← perform (.iova (.iovaShift domain))) (region.start + region.length - 1)
        let _ ← perform (.iova (.reserveIova domain lo hi))
        reserveRegions domain cookie rest

/-- The part of `kiumd_dmabuf_custom_iova_init` from the device on. -/
def customIovaReserve (env : IovaInitEnv) (file : File) (dev : Device) : IovaInitProg Int := do
  let _ ← perform (.iova (.dmaSetMaxSegSize dev (BitVec.allOnes 32)))
  let some domain ← perform (.kernel (.iommuGetDmaDomain dev)) | do
    perform (.kernel (.fput file))
    return -EINVAL
  let cookie ← perform (.kernel (.iovaCookie domain))
  let resrvd ← (qcomIommuGenerateResvRegions (env.ofDevice dev) []).lift .resv
  reserveRegions domain cookie resrvd
  perform (.kernel (.fput file))
  return 0

/-- `kiumd_dmabuf_custom_iova_init`. -/
def kiumdDmabufCustomIovaInit (env : IovaInitEnv) (kiusr : KiumdUser) : IovaInitProg Int := do
  if ¬ (← perform (.kernel (.copyFromUser (.user kiusr)))) then
    return -EFAULT
  if kiusr.vfioFd < 0 then
    return -EBADF
  let some file ← perform (.kernel (.fget kiusr.vfioFd)) | return -EBADF
  let some device := file.privateData | perform (.kernel .oops) >>= Empty.elim
  let some vfioDev := device | do
    perform (.kernel (.fput file))
    return -EINVAL
  let some dev := vfioDev.dev | perform (.kernel .oops) >>= Empty.elim
  customIovaReserve env file dev

/-! ## Regions as page frames -/

/-- The range of page frames that is reserved for a region. -/
def pfnRange (shift : Nat) (region : IommuResvRegion) : U64 × U64 :=
  (iovaPfn shift region.start, iovaPfn shift (region.start + region.length - 1))

/-- Whether a page frame lies in a range. -/
def inRange (p : ℕ) (range : U64 × U64) : Bool :=
  range.1.toNat ≤ p && p ≤ range.2.toNat

/-- Some address of an entry lies in the page frame. -/
def CoversPfn (shift : Nat) (e : U64 × U64) (p : ℕ) : Prop :=
  ∃ a ∈ addresses e.1 e.2, a / 2 ^ shift = p

/-- The entries start and end on page boundaries. -/
def EntriesAligned (shift : Nat) (entries : List (U64 × U64)) : Prop :=
  ∀ e ∈ entries, 2 ^ shift ∣ e.1.toNat ∧ 2 ^ shift ∣ e.2.toNat

/-- The ranges are proper, each page frame that no entry covers lies in exactly one of them, and no
other page frame lies in any. -/
structure ReservesPfns (shift : Nat) (entries : List (U64 × U64)) (ranges : List (U64 × U64)) :
    Prop where
  proper : ∀ range ∈ ranges, range.1 ≤ range.2
  outside : ∀ p < 2 ^ 64 / 2 ^ shift, (∀ e ∈ entries, ¬ CoversPfn shift e p) →
    ranges.countP (inRange p) = 1
  inside : ∀ p, (2 ^ 64 / 2 ^ shift ≤ p ∨ ∃ e ∈ entries, CoversPfn shift e p) →
    ranges.countP (inRange p) = 0

variable {shift : Nat} {region : IommuResvRegion} {entries : List (U64 × U64)}

/-- A page frame lies in the range of an aligned region exactly if its first address lies in the
region. -/
theorem inRange_pfnRange (hfits : Fits region.start region.length)
    (hstart : 2 ^ shift ∣ region.start.toNat) (p : ℕ) :
    inRange p (pfnRange shift region) = region.covers (p * 2 ^ shift) := by
  obtain ⟨hpos, hend⟩ := hfits
  obtain ⟨first, hfirst⟩ := hstart
  have hgranule : 0 < 2 ^ shift := Nat.two_pow_pos shift
  have hlast : (region.start + region.length - 1).toNat =
      region.start.toNat + region.length.toNat - 1 := by
    bv_omega
  have hlo : region.start.toNat / 2 ^ shift ≤ p ↔ region.start.toNat ≤ p * 2 ^ shift := by
    rw [hfirst, Nat.mul_div_cancel_left first hgranule, Nat.mul_comm p]
    exact (Nat.mul_le_mul_left_iff hgranule).symm
  have hhi : p ≤ (region.start.toNat + region.length.toNat - 1) / 2 ^ shift ↔
      p * 2 ^ shift < region.start.toNat + region.length.toNat := by
    rw [Nat.le_div_iff_mul_le hgranule]
    omega
  rw [Bool.eq_iff_iff]
  simp only [inRange, pfnRange, iovaPfn, IommuResvRegion.covers, BitVec.toNat_ushiftRight,
    Nat.shiftRight_eq_div_pow, hlast, Bool.and_eq_true, decide_eq_true_eq, hlo, hhi]

theorem pfnRange_proper (hfits : Fits region.start region.length) :
    (pfnRange shift region).1 ≤ (pfnRange shift region).2 := by
  obtain ⟨hpos, hend⟩ := hfits
  have hlast : region.start.toNat ≤ (region.start + region.length - 1).toNat := by
    bv_omega
  rw [BitVec.le_def]
  simp only [pfnRange, iovaPfn, BitVec.toNat_ushiftRight, Nat.shiftRight_eq_div_pow]
  exact Nat.div_le_div_right hlast

/-- An aligned entry holds the first address of every page frame it covers. -/
theorem CoversPfn.mem {e : U64 × U64} {p : ℕ} (h : CoversPfn shift e p)
    (hstart : 2 ^ shift ∣ e.1.toNat) : p * 2 ^ shift ∈ addresses e.1 e.2 := by
  obtain ⟨a, ⟨hlo, hhi⟩, rfl⟩ := h
  obtain ⟨first, hfirst⟩ := hstart
  refine ⟨?_, lt_of_le_of_lt (Nat.div_mul_le_self a _) hhi⟩
  rw [hfirst, Nat.mul_comm] at hlo ⊢
  exact Nat.mul_le_mul_right _ ((Nat.le_div_iff_mul_le (Nat.two_pow_pos shift)).mpr hlo)

theorem coversPfn_of_mem {e : U64 × U64} {p : ℕ} (h : p * 2 ^ shift ∈ addresses e.1 e.2) :
    CoversPfn shift e p :=
  ⟨p * 2 ^ shift, h, Nat.mul_div_cancel p (Nat.two_pow_pos shift)⟩

/-- Aligned regions that reserve the rest of the address space reserve the page frames that no
entry covers. -/
theorem reservesPfns_of_reservesRest {regions : List IommuResvRegion}
    (hrest : ReservesRest entries regions) (hshift : shift ≤ 64)
    (hentries : EntriesAligned shift entries)
    (hregions : ∀ region ∈ regions, 2 ^ shift ∣ region.start.toNat) :
    ReservesPfns shift entries (regions.map (pfnRange shift)) := by
  have hcount : ∀ p, (regions.map (pfnRange shift)).countP (inRange p) =
      regions.countP (·.covers (p * 2 ^ shift)) := by
    intro p
    rw [List.countP_map]
    refine List.countP_congr fun region hregion => ?_
    rw [Function.comp_apply, inRange_pfnRange (hrest.fit region hregion) (hregions region hregion)]
  have hpfn : ∀ p, p < 2 ^ 64 / 2 ^ shift ↔ p * 2 ^ shift < 2 ^ 64 := by
    intro p
    obtain ⟨frames, hframes⟩ := pow_dvd_pow 2 hshift
    rw [hframes, Nat.mul_div_cancel_left _ (Nat.two_pow_pos shift), Nat.mul_comm p]
    exact (Nat.mul_lt_mul_left (Nat.two_pow_pos shift)).symm
  refine ⟨?_, ?_, ?_⟩
  · intro range hrange
    obtain ⟨region, hregion, rfl⟩ := List.mem_map.mp hrange
    exact pfnRange_proper (hrest.fit region hregion)
  · intro p hp huncovered
    rw [hcount]
    refine hrest.outside _ ?_ fun e he hmem => huncovered e he (coversPfn_of_mem hmem)
    exact (hpfn p).mp hp
  · intro p hp
    rw [hcount]
    rcases hp with hbeyond | ⟨e, he, hcovers⟩
    · rw [List.countP_eq_zero]
      intro region hregion hcovers
      have hend := (hrest.fit region hregion).2
      have hlt : p * 2 ^ shift < 2 ^ 64 := by
        simp only [IommuResvRegion.covers, Bool.and_eq_true, decide_eq_true_eq] at hcovers
        exact lt_of_lt_of_le hcovers.2 hend
      exact absurd ((hpfn p).mpr hlt) (not_lt_of_ge hbeyond)
    · exact hrest.inside e he _ (hcovers.mem (hentries e he).1)

/-! ## What is reserved -/

/-- The range passed by a call of `reserve_iova`. -/
def reservedRange : Event IovaInitCall → Option (U64 × U64)
  | ⟨.iova (.reserveIova _ lo hi), _⟩ => some (lo, hi)
  | _ => none

/-- The ranges passed to `reserve_iova`. -/
def reservedRanges (trace : List (Event IovaInitCall)) : List (U64 × U64) :=
  trace.filterMap reservedRange

@[simp] theorem reservedRanges_append {trace trace' : List (Event IovaInitCall)} :
    reservedRanges (trace ++ trace') = reservedRanges trace ++ reservedRanges trace' :=
  List.filterMap_append

/-- The descriptor refers to a file of the device. -/
def NamesDevice (fd : Int) (dev : Device) (trace : List (Event IovaInitCall)) : Prop :=
  ∀ file, ⟨.kernel (.fget fd), some file⟩ ∈ trace →
    ∃ vfioDev, file.privateData = some (some vfioDev) ∧ vfioDev.dev = some dev

variable {env : IovaInitEnv} {s : World × Multiset ℕ} {dev : Device}

theorem reserveRegions_reserves {domain : Domain} {cookie : Bool}
    {regions : List IommuResvRegion} :
    wp (iovaInitKernel env) .any (reserveRegions domain cookie regions)
      (fun trace result _ => result = some () →
        reservedRanges trace = regions.map (pfnRange (env.shift domain))) s := by
  induction regions generalizing s with
  | nil => simp [reserveRegions, reservedRanges]
  | cons region rest ih =>
      unfold reserveRegions
      split
      · rw [wp_perform_bind]
        exact ⟨trivial, fun _ => nofun, fun answer => answer.elim⟩
      rw [wp_perform_bind]
      refine ⟨trivial, fun hempty => hempty.elim 0, ?_⟩
      intro shift s₁ hshift
      simp only [iovaInitKernel, iovaInitStep] at hshift
      split at hshift <;> cases hshift
      rename_i hshift
      subst hshift
      rw [Guard.any_after, wp_perform_bind]
      refine ⟨trivial, fun hempty => hempty.elim 0, ?_⟩
      intro shift s₂ hshift
      simp only [iovaInitKernel, iovaInitStep] at hshift
      split at hshift <;> cases hshift
      rename_i hshift
      subst hshift
      rw [Guard.any_after, wp_perform_bind]
      refine ⟨trivial, fun hempty => hempty.elim true, ?_⟩
      intro _ s₃ hreserve
      cases hreserve
      refine wp_mono ih ?_
      intro trace result _ hrest hresult
      rw [List.map_cons, ← hrest hresult]
      rfl

/-- The granule to which a non-empty pool is aligned is smaller than the address space. -/
theorem EntriesAligned.shift_lt (haligned : EntriesAligned shift entries) (hne : entries ≠ [])
    (hfit : EntriesFit entries) : shift < 64 := by
  obtain ⟨e, he⟩ := List.exists_mem_of_ne_nil entries hne
  have hle : 2 ^ shift ≤ e.2.toNat := Nat.le_of_dvd (hfit e he).1 (haligned e he).2
  exact (Nat.pow_lt_pow_iff_right (by decide : 1 < 2)).mp (lt_of_le_of_lt hle e.2.isLt)

/-- The regions generated for an aligned pool. -/
theorem generate_aligned {live : Multiset ℕ} (hpool : PoolProperty (env.ofDevice dev) entries)
    (hne : entries ≠ []) (hfit : EntriesFit entries) (hdisjoint : EntriesDisjoint entries)
    (hshift : 1 ≤ shift) (haligned : EntriesAligned shift entries) :
    wp (resvKernel false) .any (qcomIommuGenerateResvRegions (env.ofDevice dev) [])
      (fun _ result _ => ∃ regions, result = some regions ∧ ReservesRest entries regions ∧
        ∀ region ∈ regions, 2 ^ shift ∣ region.start.toNat) live := by
  obtain ⟨spans, hspans⟩ := hfit.spans
  obtain ⟨first, rest, hperm, hascending, hwp⟩ := exists_gaps hpool hne hspans hdisjoint
  have hends : ∀ t ∈ first :: rest, 2 ^ shift ∣ t.lo ∧ 2 ^ shift ∣ t.hi ∧ t.hi ≤ addressEnd := by
    intro t ht
    obtain ⟨e, he, hspells⟩ := exists_of_mem_right hspans (hperm.mem_iff.mp ht)
    obtain ⟨hstart, hsize⟩ := haligned e he
    refine ⟨?_, ?_, hspells.hi_le⟩
    · rwa [hspells.lo]
    · rw [hspells.hi]
      exact Nat.dvd_add hstart hsize
  have htop : 2 ^ shift ∣ addressEnd := pow_dvd_pow 2 (haligned.shift_lt hne hfit).le
  -- an aligned pool does not end one short of the address space
  have hlast : (rest.getLastD first).hi ≠ addressEnd - 1 := by
    intro hshort
    have hdvd := (hends _ List.getLastD_mem_cons).2.1
    rw [hshort] at hdvd
    have htwo : 2 ∣ addressEnd - 1 := (dvd_pow_self 2 (by omega)).trans hdvd
    exact absurd htwo (by decide)
  refine wp_mono hwp ?_
  rintro _ _ _ ⟨regions, rfl, hdenote⟩
  rw [reservedEnd, if_neg hlast] at hdenote
  refine ⟨regions, rfl, ?_, ?_⟩
  · exact reservesRest_of_gaps hspans hperm hascending (fun t ht => (hends t ht).2.2) hdenote
  · intro region hregion
    obtain ⟨g, hg, hspells⟩ := exists_of_mem_right hdenote.flip hregion
    have hlo := (ends_of_mem_gaps (Nat.dvd_zero (2 ^ shift)) htop
      (fun t ht => ⟨(hends t ht).1, (hends t ht).2.1⟩) hg).1
    rwa [Spells.lo hspells] at hlo

/-- The part of `kiumd_dmabuf_custom_iova_init` from the device on reserves the page frames outside
the pool. -/
theorem customIovaReserve_reserves {file : File} (hpool : PoolProperty (env.ofDevice dev) entries)
    (hne : entries ≠ []) (hfit : EntriesFit entries) (hdisjoint : EntriesDisjoint entries)
    (hshift : 1 ≤ env.shift dev.domain)
    (haligned : EntriesAligned (env.shift dev.domain) entries) :
    wp (iovaInitKernel env) .any (customIovaReserve env file dev)
      (fun trace result _ => result = some 0 →
        ReservesPfns (env.shift dev.domain) entries (reservedRanges trace)) s := by
  unfold customIovaReserve
  rw [wp_perform_bind]
  refine ⟨trivial, fun hempty => hempty.elim 0, ?_⟩
  intro _ s₁ _
  rw [Guard.any_after, wp_perform_bind]
  refine ⟨trivial, fun hempty => hempty.elim none, ?_⟩
  intro domain s₂ hdomain
  cases domain with
  | none =>
      rw [Guard.any_after, wp_perform_bind]
      refine ⟨trivial, fun hempty => hempty.elim (), ?_⟩
      intro _ s₃ _
      rw [Guard.any_after, wp_pure]
      exact fun h => by cases h
  | some domain =>
      have hdomain : domain = dev.domain := by
        simp only [iovaInitKernel, iovaInitStep, kernelStep] at hdomain
        split at hdomain
        · assumption
        · cases hdomain
      subst hdomain
      dsimp only
      rw [Guard.any_after, wp_perform_bind]
      refine ⟨trivial, fun hempty => hempty.elim true, ?_⟩
      intro cookie s₃ _
      have hgenerate := @wp_lift _ _ _ _ _ _ (iovaInitKernel env)
        (fun request => IovaInitCall.resv request) Prod.snd _ _ s₃ ?_
        (generate_aligned hpool hne hfit hdisjoint hshift haligned)
      · rw [Guard.any_after, wp_bind]
        refine wp_mono hgenerate ?_
        rintro _ _ s₄ ⟨own, rfl, regions, rfl, hrest, hregions⟩
        rw [Post.andThen_some, Guard.any_after, wp_bind]
        refine wp_mono reserveRegions_reserves ?_
        intro trace result s₅ hranges
        cases result with
        | none => exact fun h => by cases h
        | some value =>
            rw [Post.andThen_some, Guard.any_after, wp_perform_bind]
            refine ⟨trivial, fun hempty => hempty.elim (), ?_⟩
            intro _ s₆ _
            rw [Guard.any_after, wp_pure]
            intro _
            have hown : reservedRanges (own.map (Event.lift .resv)) = [] := by
              rw [reservedRanges, List.filterMap_map]
              exact List.filterMap_eq_nil_iff.mpr fun _ _ => rfl
            have hpfns : ReservesPfns (env.shift dev.domain) entries
                (regions.map (pfnRange (env.shift dev.domain))) :=
              reservesPfns_of_reservesRest hrest (haligned.shift_lt hne hfit).le haligned hregions
            rw [← hranges rfl] at hpfns
            simp only [reservedRanges_append, hown]
            convert hpfns
            exact List.append_nil _
      · rintro β request answer ⟨w, live⟩ ⟨w', live'⟩ hstep
        simp only [iovaInitKernel, iovaInitStep] at hstep
        obtain ⟨live'', hlive, heq⟩ := Option.map_eq_some_iff.mp hstep
        cases heq
        exact hlive

/-- For every device whose pool is a non-empty sequence of non-empty, disjoint entries aligned to
pages of more than one byte, `kiumd_dmabuf_custom_iova_init` reserves exactly the page frames that
no entry covers, each once. -/
theorem custom_iova_init_reserves_rest {kiusr : KiumdUser} {s' : World × Multiset ℕ}
    {trace : List (Event IovaInitCall)}
    (hexec : Exec (iovaInitKernel env) (kiumdDmabufCustomIovaInit env kiusr) s trace (some 0) s')
    (hdev : NamesDevice kiusr.vfioFd dev trace) (hpool : PoolProperty (env.ofDevice dev) entries)
    (hne : entries ≠ []) (hfit : EntriesFit entries) (hdisjoint : EntriesDisjoint entries)
    (hshift : 1 ≤ env.shift dev.domain)
    (haligned : EntriesAligned (env.shift dev.domain) entries) :
    ReservesPfns (env.shift dev.domain) entries (reservedRanges trace) := by
  have hwp : wp (iovaInitKernel env) .any (kiumdDmabufCustomIovaInit env kiusr)
      (fun trace result _ => result = some 0 → NamesDevice kiusr.vfioFd dev trace →
        ReservesPfns (env.shift dev.domain) entries (reservedRanges trace)) s := by
    unfold kiumdDmabufCustomIovaInit
    rw [wp_perform_bind]
    refine ⟨trivial, fun hempty => hempty.elim true, ?_⟩
    intro copied s₁ _
    rw [Guard.any_after]
    split
    · rw [wp_pure]
      exact nofun
    split
    · rw [wp_pure]
      exact nofun
    rw [wp_perform_bind]
    refine ⟨trivial, fun hempty => hempty.elim none, ?_⟩
    intro file s₂ _
    rw [Guard.any_after]
    cases file with
    | none =>
        rw [wp_pure]
        exact nofun
    | some file =>
        cases hprivate : file.privateData with
        | none =>
            simp only [hprivate]
            rw [wp_perform_bind]
            exact ⟨trivial, fun _ => nofun, fun answer => answer.elim⟩
        | some device =>
        cases device with
        | none =>
            simp only [hprivate]
            rw [wp_perform_bind]
            refine ⟨trivial, fun hempty => hempty.elim (), ?_⟩
            intro _ s₃ _
            rw [Guard.any_after, wp_pure]
            exact nofun
        | some vfioDev =>
        cases hvfio : vfioDev.dev with
        | none =>
            simp only [hprivate, hvfio]
            rw [wp_perform_bind]
            exact ⟨trivial, fun _ => nofun, fun answer => answer.elim⟩
        | some found =>
            simp only [hprivate, hvfio]
            by_cases hsame : found = dev
            · subst hsame
              exact wp_mono (customIovaReserve_reserves hpool hne hfit hdisjoint hshift haligned)
                fun trace result s₃ hreserves hresult _ => hreserves hresult
            · refine wp_always fun trace result s₃ _ hnames => absurd ?_ hsame
              obtain ⟨v, hv, hvdev⟩ := hnames file (by simp)
              rw [hprivate] at hv
              cases hv
              rw [hvfio] at hvdev
              exact Option.some.inj hvdev
  exact wp_exec hwp hexec rfl hdev

/-- The answers to the calls of `kiumd_dmabuf_custom_iova_init`, so that it can be executed. -/
def iovaInitChoose (k : Answers) (env : IovaInitEnv) : Chooser IovaInitCall (World × Multiset ℕ)
  | _, .kernel request, s => k.choose _ request s.1
  | _, .resv (.iommuAllocResvRegion start length), s =>
      some (some ⟨Multiset.card s.2, start, length⟩)
  | _, .resv (.kfree _), _ => some ()
  | _, .iova (.dmaSetMaxSegSize _ _), _ => some 0
  | _, .iova (.iovaShift domain), _ => some (env.shift domain)
  | _, .iova (.reserveIova _ _ _), _ => some true

/-- A device with two pages in its pool, the higher one first. -/
def twoPages : List (U64 × U64) := [(0x8000#64, 0x1000#64), (0x2000#64, 0x1000#64)]

/-- An environment in which every device has this pool. -/
def twoPagesEnv : IovaInitEnv := ⟨fun _ => poolDevice twoPages, fun _ => PAGE_SHIFT⟩

/-- Whether a file found is one of the device `0`. -/
def findsPlainDevice : Event IovaInitCall → Bool
  | ⟨.kernel (.fget _), answer⟩ =>
      answer.all fun file => file.privateData = some (some ⟨0, some ⟨0, 0⟩⟩)
  | _ => true

/-- The page frames below, between and above the two pages are reserved. -/
theorem custom_iova_init_reserves_rest_two_pages : ∃ trace,
    reservedRanges trace = [(0#64, 1#64), (3#64, 7#64), (9#64, 0xFFFFFFFFFFFFF#64)] ∧
    ReservesPfns PAGE_SHIFT twoPages (reservedRanges trace) := by
  have hcheck : (kiumdDmabufCustomIovaInit twoPagesEnv plainUser).check
      (iovaInitKernel twoPagesEnv)
      (iovaInitChoose (Answers.plain fun _ _ => false) twoPagesEnv) (.initial, 0)
      (fun trace ret _ => decide (ret = 0) && trace.all findsPlainDevice &&
        decide (reservedRanges trace =
          [(0#64, 1#64), (3#64, 7#64), (9#64, 0xFFFFFFFFFFFFF#64)])) = true := by
    decide +kernel
  obtain ⟨trace, ret, s, hexec, htest⟩ := Program.check_exec hcheck
  simp only [Bool.and_eq_true, decide_eq_true_eq, List.all_eq_true] at htest
  obtain ⟨⟨rfl, hfiles⟩, hranges⟩ := htest
  have hnames : NamesDevice plainUser.vfioFd ⟨0, 0⟩ trace := by
    intro file hfile
    have hprivate := of_decide_eq_true (hfiles _ hfile)
    exact ⟨_, hprivate, rfl⟩
  have hfit : EntriesFit twoPages := by simp [EntriesFit, twoPages, Fits]
  have hdisjoint : EntriesDisjoint twoPages := by
    refine .cons ?_ (List.pairwise_singleton _ _)
    simp [addresses, Set.disjoint_left]
    omega
  have haligned : EntriesAligned PAGE_SHIFT twoPages := by
    simp [EntriesAligned, twoPages, PAGE_SHIFT]
  exact ⟨trace, hranges, custom_iova_init_reserves_rest hexec hnames (poolDevice_pool _) (by decide)
    hfit hdisjoint (by decide) haligned⟩

end SafeLinux.Kiumd
