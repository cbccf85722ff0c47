import SafeLinux.Kiumd.MmioOverlap

/-!
# Requests keep fixed mappings apart

KIUMD_SMMU_MMIO_MAP and KIUMD_SMMU_MMIO_UNMAP run safely beside each other (`map_safe`,
`unmap_safe`): what each thread knows of the shared state between two of its calls is `At`,
`Placing` or `Recorded`, and every call keeps the invariant. So in every interleaving that stays
within the checks of the driver no two fixed mappings overlap.
-/

namespace SafeLinux.Kiumd

open Effects
open Effects.Program (perform)

variable {c t : Nat} {s : MmioSharing} {w : World} {x : MmioProgress}

/-! ## The calls of a request -/

theorem At.after (h : At c t x s) {e : Event KCall} (hinv : MmioInv c (s.after t e w)) :
    At c t (x.after s.world e) (s.after t e w) := by
  refine ⟨hinv, ?_⟩
  dsimp only [MmioSharing.after]
  rw [Function.update_self, h.2]

/-- A thread that leaves the cookies and the entries of the table stays within its guarantee. -/
theorem mmioGuarantee_entries {e : Event KCall} (h : MmioInv c s) (hinv : MmioInv c (s.after t e w))
    (hmutex : mutexAfter s.mutex t e = s.mutex) (hcookies : w.cookies = s.world.cookies)
    (hsmaps : ∀ p ∈ s.world.table c, w.smaps p = s.world.smaps p) :
    MmioGuarantee c t s (s.after t e w) := by
  refine mmioGuarantee_after hinv (fun u _ dom hdom => ?_) fun u _ p hp => ?_
  · rw [hmutex, hcookies]
    exact ⟨hdom, rfl⟩
  · rw [hsmaps p ((h.threads u).taken p hp)]

theorem mmioSafe_kzallocSmap {rest : Option Nat → KProg Int} (h : At c t x s)
    (hnone : ∀ s, At c t x s → MmioSafe c t (rest none) s)
    (hsome : ∀ p s, At c t { x with fresh := some p } s → MmioSafe c t (rest (some p)) s) :
    MmioSafe c t (perform .kzallocSmap >>= rest) s := by
  refine mmioSafe_call known_at h fun s answer w hs _ hstep _ => ?_
  cases answer with
  | none =>
      cases hstep
      rw [after_same rfl rfl rfl]
      exact ⟨fun u _ => .refl c u s, hnone s hs⟩
  | some p =>
      simp only [kernelStep] at hstep
      split at hstep <;> cases hstep
      rename_i hheld
      have hinv := hs.1.kzallocSmap (t := t) hheld
      refine ⟨mmioGuarantee_entries hs.1 hinv rfl rfl fun q hq => ?_, hsome p _ (hs.after hinv)⟩
      refine Function.update_of_ne (ne_of_mem_of_not_mem hq ?_) _ _
      exact fun hp => hheld (hs.1.table.smap p hp)

theorem mmioSafe_kfreeSmap {p : Nat} {rest : Unit → KProg Int} (h : At c t x s)
    (hp : x.fresh = some p)
    (hrest : ∀ s, At c t { x with fresh := none } s → MmioSafe c t (rest ()) s) :
    MmioSafe c t (perform (.kfreeSmap p) >>= rest) s := by
  refine mmioSafe_call known_at h fun s answer w hs _ hstep _ => ?_
  cases hstep
  have hinv := hs.1.kfreeSmap (hs.2 ▸ hp)
  exact ⟨mmioGuarantee_entries hs.1 hinv rfl rfl fun _ _ => rfl, hrest _ (hs.after hinv)⟩

theorem mmioSafe_kzallocMmioCtx {rest : Option Nat → KProg Int} (h : At c t x s)
    (hnone : ∀ s, At c t x s → MmioSafe c t (rest none) s)
    (hsome : ∀ m s, At c t { x with freshCtx := some m } s → MmioSafe c t (rest (some m)) s) :
    MmioSafe c t (perform .kzallocMmioCtx >>= rest) s := by
  refine mmioSafe_call known_at h fun s answer w hs _ hstep _ => ?_
  cases answer with
  | none =>
      cases hstep
      rw [after_same rfl rfl rfl]
      exact ⟨fun u _ => .refl c u s, hnone s hs⟩
  | some m =>
      simp only [kernelStep] at hstep
      split at hstep <;> cases hstep
      rename_i hheld
      have hinv := hs.1.kzallocMmioCtx (t := t) hheld
      exact ⟨mmioGuarantee_entries hs.1 hinv rfl rfl fun _ _ => rfl, hsome m _ (hs.after hinv)⟩

theorem mmioSafe_kfreeMmioCtx {m : Nat} {rest : Unit → KProg Int} (h : At c t x s)
    (hm : x.freshCtx = some m)
    (hrest : ∀ s, At c t { x with freshCtx := none } s → MmioSafe c t (rest ()) s) :
    MmioSafe c t (perform (.kfreeMmioCtx m) >>= rest) s := by
  refine mmioSafe_call known_at h fun s answer w hs _ hstep _ => ?_
  cases hstep
  have hinv := hs.1.kfreeMmioCtx (hs.2 ▸ hm)
  exact ⟨mmioGuarantee_entries hs.1 hinv rfl rfl fun _ _ => rfl, hrest _ (hs.after hinv)⟩

theorem mmioSafe_smmuScanMmio {fixed : Bool} {iova : U64} {rest : Bool → KProg Int}
    (h : At c t x s)
    (hfixed : ∀ r, x.job.bind MmioJob.range = some r → fixed = true ∧ r.iova = iova)
    (hbusy : ∀ s, At c t x s → MmioSafe c t (rest true) s)
    (hfree : ∀ s, At c t { x with claim := x.job.bind MmioJob.range } s →
      MmioSafe c t (rest false) s) :
    MmioSafe c t (perform (.smmuScanMmio c fixed iova) >>= rest) s := by
  refine mmioSafe_call known_at h fun s answer w hs _ hstep hchecks => ?_
  have hsame : w = s.world := by
    simp only [kernelStep] at hstep
    split at hstep <;> cases hstep
    rfl
  subst hsame
  cases answer with
  | true =>
      rw [after_same rfl rfl rfl]
      exact ⟨fun u _ => .refl c u s, hbusy s hs⟩
  | false =>
      have hinv := hs.1.smmuScanMmio (hs.2 ▸ hfixed) hstep hchecks
      exact ⟨mmioGuarantee_entries hs.1 hinv rfl rfl fun _ _ => rfl, hfree _ (hs.after hinv)⟩

theorem mmioSafe_smmuFindMmio {id : U32} {rest : Option Nat → KProg Int} (h : At c t x s)
    (hnone : ∀ s, At c t x s → MmioSafe c t (rest none) s)
    (hsome : ∀ p s, At c t { x with taken := some p } s → MmioSafe c t (rest (some p)) s) :
    MmioSafe c t (perform (.smmuFindMmio c id) >>= rest) s := by
  refine mmioSafe_call known_at h fun s answer w hs _ hstep hchecks => ?_
  have hsame : w = s.world := by
    simp only [kernelStep] at hstep
    split at hstep <;> cases hstep
    rfl
  subst hsame
  cases answer with
  | none =>
      rw [after_same rfl rfl rfl]
      exact ⟨fun u _ => .refl c u s, hnone s hs⟩
  | some p =>
      have hinv := hs.1.smmuFindMmio hstep hchecks
      exact ⟨mmioGuarantee_entries hs.1 hinv rfl rfl fun _ _ => rfl, hsome p _ (hs.after hinv)⟩

theorem mmioSafe_smmuAddMmio {p m : Nat} {mmio : KiumdSmmuMmioCtx} {rest : U32 → KProg Int}
    (h : At c t x s) (hp : x.fresh = some p) (hm : x.freshCtx = some m)
    (hclaim : x.job.any MmioJob.isFixed = true → x.claim = some mmio)
    (hrest : ∀ id s, Recorded c t
      { x with claim := none, fresh := none, freshCtx := none, taken := some p } p m s →
        MmioSafe c t (rest id) s) :
    MmioSafe c t (perform (.smmuAddMmio c p m mmio) >>= rest) s := by
  refine mmioSafe_call known_at h fun s id w hs _ hstep _ => ?_
  obtain ⟨hinv₀, rfl⟩ := hs
  have hinv := hinv₀.smmuAddMmio hp hm hclaim hstep
  have hadds := smmuAddMmio_records hstep
  have hnew := (hinv₀.threads t).allocated hp hm
  have hcookies : w.cookies = s.world.cookies := by
    simp only [kernelStep] at hstep
    split at hstep <;> cases hstep
    rfl
  refine ⟨mmioGuarantee_entries hinv₀ hinv rfl hcookies fun q => hadds.smaps_old hnew,
    hrest id _ ⟨At.after ⟨hinv₀, rfl⟩ hinv, rfl, hadds.context⟩⟩

theorem mmioSafe_hashDel {p m : Nat} {rest : Unit → KProg Int} (h : Recorded c t x p m s)
    (hrest : ∀ s, At c t { x with fresh := some p, freshCtx := some m, taken := none } s →
      MmioSafe c t (rest ()) s) :
    MmioSafe c t (perform (.hashDel c p) >>= rest) s := by
  refine mmioSafe_call known_recorded h fun s answer w hs _ hstep _ => ?_
  obtain ⟨hat, htaken, hcontext⟩ := hs
  cases hstep
  have hinv := hat.1.hashDel (hat.2 ▸ htaken)
  have hafter : x.after s.world ⟨.hashDel c p, answer⟩ =
      { x with fresh := some p, freshCtx := some m, taken := none } := by
    dsimp only [MmioProgress.after]
    rw [hcontext]
  exact ⟨mmioGuarantee_entries hat.1 hinv rfl rfl fun _ _ => rfl,
    hrest _ (hafter ▸ hat.after hinv)⟩

theorem mmioSafe_smmuDelMmio {p : Nat} {rest : Unit → KProg Int} (h : At c t x s)
    (hp : x.taken = some p)
    (hrest : ∀ s, At c t { x with taken := none } s → MmioSafe c t (rest ()) s) :
    MmioSafe c t (perform (.smmuDelMmio c p) >>= rest) s := by
  refine mmioSafe_call known_at h fun s answer w hs _ hstep _ => ?_
  have hinv := hs.1.smmuDelMmio (hs.2 ▸ hp) hstep
  have hsame : w.cookies = s.world.cookies ∧ w.smaps = s.world.smaps := by
    simp only [kernelStep] at hstep
    split at hstep <;> cases hstep <;> exact ⟨rfl, rfl⟩
  exact ⟨mmioGuarantee_entries hs.1 hinv rfl hsame.1 fun _ _ => by rw [hsame.2],
    hrest _ (hs.after hinv)⟩

/-! ## The cookie -/

theorem MmioInv.setDmaCookie {dom : Domain} {type : IommuDmaCookieType} {iova : U64}
    (h : MmioInv c s) : MmioInv c (s.after t ⟨.setDmaCookie dom type iova, ()⟩
      { s.world with cookies := Function.update s.world.cookies dom ⟨type, iova⟩ }) := by
  have hkeeps : LeavesEntries c s.world
      { s.world with cookies := Function.update s.world.cookies dom ⟨type, iova⟩ } :=
    ⟨List.Sublist.refl _, fun _ _ => rfl, rfl, fun _ _ => id, fun _ _ _ _ => id⟩
  have hkept : ∀ y, ThreadSound c s.world s.fixed y → ThreadSound c _ s.fixed y := fun y hy =>
    hy.keeps hkeeps (fun _ _ => id) (fun _ _ => id) hy.taken
  exact h.update (h.table.keeps hkeeps) (hkept _ (h.threads t))
    fun u _ hthread hseparate => ⟨hkept _ hthread, hseparate⟩

/-- The rule for setting a fixed IOVA under the mutex of the cookie. -/
theorem mmioSafe_place {dom : Domain} {iova : U64} {rest : Unit → KProg Int} (h : At c t x s)
    (hrest : ∀ s, Placing c t x dom iova s → MmioSafe c t (rest ()) s) :
    MmioSafe c t (perform (.setDmaCookie dom .msi iova) >>= rest) s := by
  refine mmioSafe_call known_at h fun s answer w hs hanswers hstep _ => ?_
  cases hstep
  have hinv := @MmioInv.setDmaCookie _ t _ dom .msi iova hs.1
  have hfree : s.mutex dom = none := Option.isNone_iff_eq_none.mp hanswers
  refine ⟨mmioGuarantee_after hinv (fun u _ dom' hdom' => ?_) fun _ _ _ _ => rfl, ?_⟩
  · have hne : dom' ≠ dom := by
      rintro rfl
      rw [hfree] at hdom'
      cases hdom'
    rw [mutexAfter, Function.update_of_ne hne]
    exact ⟨hdom', Function.update_of_ne hne _ _⟩
  · exact hrest _ ⟨hs.after hinv, Function.update_self .., Function.update_self ..⟩

/-- The rule for clearing the cookie and giving its mutex back. -/
theorem mmioSafe_unplace {dom : Domain} {iova : U64} {rest : Unit → KProg Int}
    (h : Placing c t x dom iova s)
    (hrest : ∀ s, At c t x s → MmioSafe c t (rest ()) s) :
    MmioSafe c t (perform (.setDmaCookie dom .iova 0) >>= rest) s := by
  refine mmioSafe_call known_placing h fun s answer w hs _ hstep _ => ?_
  obtain ⟨hat, hmutex, -⟩ := hs
  cases hstep
  have hinv := @MmioInv.setDmaCookie _ t _ dom .iova 0 hat.1
  refine ⟨mmioGuarantee_after hinv (fun u hu dom' hdom' => ?_) fun _ _ _ _ => rfl, ?_⟩
  · have hne : dom' ≠ dom := by
      rintro rfl
      exact hu (Option.some.inj (hdom'.symm.trans hmutex))
    rw [mutexAfter, Function.update_of_ne hne]
    exact ⟨hdom', Function.update_of_ne hne _ _⟩
  · exact hrest _ (hat.after hinv)

/-- A mapping made under the mutex of the cookie is at its IOVA. -/
theorem mmioSafe_mapFixed {dev : Device} {addr size iova : U64} {rest : U64 → KProg Int}
    (h : Placing c t x dev.domain iova s)
    (hrest : ∀ s, Placing c t x dev.domain iova s → MmioSafe c t (rest iova) s) :
    MmioSafe c t (perform (.dmaMapResource dev addr size) >>= rest) s := by
  refine mmioSafe_quiet .dmaMapResource known_placing h fun s answer w hs hanswers _ hw => ?_
  have hiova : answer = iova := by
    simpa [mmioAnswers, hs.2.2] using hanswers
  rw [hiova]
  exact hrest _ hw

/-! ## The requests -/

section

variable {ret₀ : Int} {kiusr : KiumdSmmuMmioMap} {file : File} {region : U64 × U64}

theorem kiumdGetVfioDevice_safe {fd : Int} {rest : Option VfioDevice → KProg Int}
    (h : At c t x s) (hjob : x.job = some (.map ret₀ kiusr file region))
    (hrest : ∀ vfioDev s, At c t x s → (∀ d, vfioDev = some d → file.privateData = some (some d)) →
      MmioSafe c t (rest vfioDev) s) :
    MmioSafe c t (kiumdGetVfioDevice fd >>= rest) s := by
  unfold kiumdGetVfioDevice
  split
  · exact hrest none s h nofun
  refine mmioSafe_quiet .fget known_at h fun s₁ found w hs hanswers _ h => ?_
  cases found with
  | none => exact hrest none _ h nofun
  | some f =>
  have hfile : f = file := by
    simpa [mmioAnswers, hs.2, hjob] using hanswers
  subst hfile
  unfold vfioDeviceOf
  refine mmioSafe_quiet .vfioFileIsValid known_at h fun _ valid _ _ _ _ h => ?_
  cases valid with
  | false => exact mmioSafe_quiet .fput known_at h fun _ _ _ _ _ _ h => hrest none _ h nofun
  | true =>
  cases hdata : f.privateData with
  | none => exact mmioSafe_quiet .fput known_at h fun _ _ _ _ _ _ h => hrest none _ h nofun
  | some vfioDev =>
      exact mmioSafe_quiet .fput known_at h fun _ _ _ _ _ _ h =>
        hrest vfioDev _ h fun d hd => hdata.trans (congrArg some hd)

theorem kiumdGetDmaCookie_safe {vfioDev : VfioDevice} {rest : Option Domain → KProg Int}
    (h : At c t x s)
    (hrest : ∀ domain s, At c t x s →
      (∀ dom dev, domain = some dom → vfioDev.dev = some dev → dom = dev.domain) →
        MmioSafe c t (rest domain) s) :
    MmioSafe c t (kiumdGetDmaCookie (some vfioDev) >>= rest) s := by
  unfold kiumdGetDmaCookie
  dsimp only
  cases hdev : vfioDev.dev with
  | none => exact hrest none _ h nofun
  | some dev =>
  refine mmioSafe_quiet .iommuGetDmaDomain known_at h fun _ domain w _ _ hstep h => ?_
  cases domain with
  | none => exact hrest none _ h nofun
  | some dom =>
  simp only [kernelStep] at hstep
  split at hstep <;> cases hstep
  rename_i hdom
  refine mmioSafe_quiet .iovaCookie known_at h fun _ cookie _ _ _ _ h => ?_
  cases cookie with
  | false => exact hrest none _ h nofun
  | true =>
      refine hrest (some dom) _ h fun dom' dev' hdom' hdev' => ?_
      obtain rfl := Option.some.inj hdom'
      obtain rfl := Option.some.inj (hdev.symm.trans hdev')
      exact hdom

/-- The label `smap_free`. -/
theorem mmioSmapFree_safe {p : Nat} {context : Option Nat} {ret : Int} (h : At c t x s)
    (hp : x.fresh = some p) (hcontext : ∀ m, context = some m → x.freshCtx = some m) :
    MmioSafe c t (mmioSmapFree p context ret) s := by
  unfold mmioSmapFree
  cases context with
  | none => exact mmioSafe_kfreeSmap h hp fun _ h => h.1
  | some m =>
      exact mmioSafe_kfreeMmioCtx h (hcontext m rfl) fun _ h =>
        mmioSafe_kfreeSmap h hp fun _ h => h.1

/-- The label `reg_free`. -/
theorem mmioRegFree_safe {p regName : Nat} {context : Option Nat} {ret : Int} (h : At c t x s)
    (hp : x.fresh = some p) (hcontext : ∀ m, context = some m → x.freshCtx = some m) :
    MmioSafe c t (mmioRegFree p regName context ret) s :=
  mmioSafe_quiet .kfree known_at h fun _ _ _ _ _ _ h => mmioSmapFree_safe h hp hcontext

theorem mmioPublish_safe {p m regName : Nat} {dev : Device} {dmaAddr size : U64} (h : At c t x s)
    (hp : x.fresh = some p) (hm : x.freshCtx = some m)
    (hclaim : x.job.any MmioJob.isFixed = true → x.claim = some ⟨dev, dmaAddr, size⟩) :
    MmioSafe c t (mmioPublish kiusr c p m regName dev dmaAddr size) s := by
  refine mmioSafe_smmuAddMmio h hp hm hclaim fun id s₁ h => ?_
  refine mmioSafe_quiet .copyToUser known_recorded h fun _ copied _ _ _ _ h => ?_
  split
  · refine mmioSafe_quiet .dmaUnmapResource known_recorded h fun _ _ _ _ _ _ h => ?_
    refine mmioSafe_hashDel h fun s₂ h => mmioRegFree_safe h rfl fun m' hm' => ?_
    rw [← hm']
  · exact mmioSafe_quiet .kfree known_recorded h fun _ _ _ _ _ _ h => h.1.1

theorem mmioMapResource_safe {p m regName : Nat} {dev : Device} {dom : Domain} {addr size : U64}
    (h : At c t x s) (hp : x.fresh = some p) (hm : x.freshCtx = some m)
    (hjob : x.job = some (.map ret₀ kiusr file region)) (hdom : dom = dev.domain)
    (hclaim : kiusr.fixedIova ≠ 0 → x.claim = some ⟨dev, kiusr.iova, size⟩) :
    MmioSafe c t (mmioMapResource kiusr c p m regName dev dom addr size) s := by
  subst hdom
  have hisFixed : x.job.any MmioJob.isFixed = decide (kiusr.fixedIova ≠ 0) := by
    rw [hjob]
    rfl
  unfold mmioMapResource
  split
  · rename_i hfixed
    refine mmioSafe_place h fun s₁ h => mmioSafe_mapFixed h fun s₂ h =>
      mmioSafe_unplace h fun s₃ h => ?_
    dsimp only
    by_cases hfailed : kiusr.iova = DMA_MAPPING_ERROR ∨ (0 : Int) ≠ 0
    · rw [if_pos hfailed]
      exact mmioRegFree_safe h hp nofun
    · rw [if_neg hfailed]
      exact mmioPublish_safe h hp hm fun _ => hclaim hfixed
  · rename_i hfixed
    refine mmioSafe_quiet .dmaMapResource known_at h fun _ dmaAddr _ _ _ _ h => ?_
    split
    · exact mmioRegFree_safe h hp nofun
    · refine mmioPublish_safe h hp hm fun hisFixed' => ?_
      rw [hisFixed, decide_eq_true_eq] at hisFixed'
      exact absurd hisFixed' hfixed

/-- KIUMD_SMMU_MMIO_MAP runs safely. -/
theorem map_safe
    (h : At c t { job := some (.map ret₀ kiusr file region) } s) :
    MmioSafe c t (kiumdMmioSmmuMap ret₀ kiusr (some (some c))) s := by
  refine mmioSafe_quiet .copyFromUser known_at h fun _ copied _ _ _ _ h => ?_
  split
  · exact h.1
  refine kiumdGetVfioDevice_safe h rfl fun found s₁ h hdata => ?_
  cases found with
  | none => exact h.1
  | some vfioDev =>
  refine kiumdGetDmaCookie_safe h fun domain s₂ h hdomain => ?_
  cases domain with
  | none => exact h.1
  | some dom =>
  have hrange : (MmioJob.map ret₀ kiusr file region).range =
      if kiusr.fixedIova ≠ 0 then
        vfioDev.dev.map fun dev => ⟨dev, kiusr.iova, region.2 - region.1 + 1⟩
      else none := by
    simp [MmioJob.range, File.device, hdata vfioDev rfl]
  refine mmioSafe_smmuScanMmio h ?_ (fun _ h => h.1) fun s₃ h => ?_
  · intro r hr
    rw [Option.bind_some, hrange] at hr
    split at hr
    · rename_i hfixed
      obtain ⟨dev, -, rfl⟩ := Option.map_eq_some_iff.mp hr
      exact ⟨decide_eq_true hfixed, rfl⟩
    · cases hr
  rw [Option.bind_some, hrange] at h
  refine mmioSafe_kzallocSmap h (fun _ h => h.1) fun p s₄ h => ?_
  refine mmioSafe_kzallocMmioCtx h (fun _ h => mmioSafe_kfreeSmap h rfl fun _ h => h.1)
    fun m s₅ h => ?_
  refine mmioSafe_quiet .strndupUser known_at h fun _ regName _ _ _ _ h => ?_
  cases regName with
  | none => exact mmioSmapFree_safe h rfl fun _ h => by cases h
  | some regName =>
  dsimp only
  cases hdev : vfioDev.dev with
  | none => exact mmioSafe_call known_at h fun _ (impossible : Empty) _ _ _ _ _ => impossible.elim
  | some dev =>
  refine mmioSafe_quiet .devIsPlatform known_at h fun _ platform _ _ _ _ h => ?_
  split
  · exact mmioRegFree_safe h rfl fun _ h => by cases h
  refine mmioSafe_quiet .platformGetResourceByname known_at h fun _ found _ hs hanswers _ h => ?_
  cases found with
  | none => exact mmioRegFree_safe h rfl fun _ h => by cases h
  | some found =>
  have hregion : found = region := by
    simpa [mmioAnswers, hs.2] using hanswers
  subst hregion
  refine mmioMapResource_safe h rfl rfl rfl (hdomain dom dev rfl hdev) fun hfixed => ?_
  dsimp only
  rw [if_pos hfixed, hdev, Option.map_some]

/-- KIUMD_SMMU_MMIO_UNMAP runs safely. -/
theorem unmap_safe {job : Option MmioJob} (h : At c t { job := job } s) :
    MmioSafe c t (kiumdMmioSmmuUnmap kiusr (some (some c))) s := by
  refine mmioSafe_quiet .copyFromUser known_at h fun _ copied _ _ _ _ h => ?_
  split
  · exact h.1
  split
  · exact h.1
  refine mmioSafe_smmuFindMmio h (fun _ h => h.1) fun p s₁ h => ?_
  refine mmioSafe_quiet .readSmap known_at h fun _ smap _ _ _ _ h => ?_
  split
  · refine mmioSafe_quiet .readMmioCtx known_at h fun _ mmio _ _ _ _ h => ?_
    refine mmioSafe_quiet .dmaUnmapResource known_at h fun _ _ _ _ _ _ h => ?_
    exact mmioSafe_smmuDelMmio h rfl fun _ h => h.1
  · exact h.1

end

/-! ## Runs -/

/-- A thread that starts or has returned has nothing to do with the others. -/
theorem MmioInv.reset {job : Option MmioJob} (h : MmioInv c s) :
    MmioInv c { s with progress := Function.update s.progress t { job := job } } :=
  h.update h.table threadSound_start fun _ _ hthread _ => ⟨hthread, separate_start⟩

theorem mmioGuarantee_reset {job : Option MmioJob} (h : MmioInv c s) :
    MmioGuarantee c t s { s with progress := Function.update s.progress t { job := job } } :=
  fun _ hu => ⟨fun _ => h.reset, Function.update_of_ne hu _ _, fun _ hdom => ⟨hdom, rfl⟩,
    fun _ _ => rfl⟩

/-- The threads keep to their relies and guarantees. -/
theorem mmioSystem_contract : (mmioSystem c).Contract (StaysWithinChecks c) (fun _ => MmioInv c)
    (WithinChecks c) (MmioRely c) (MmioGuarantee c) (fun _ _ _ => MmioInv c) where
  admits _ _ _ hok := hok
  refl := MmioRely.refl c
  trans _ _ _ _ h h' := h.trans h'
  others _ u _ _ hu hguarantee := hguarantee u hu
  idle _ _ _ hrely h := hrely.inv h
  post _ _ _ _ _ hrely h := hrely.inv h
  start := by
    rintro P t job s h rfl
    refine ⟨mmioGuarantee_reset h, ?_⟩
    have hat : At c t { job := some job }
        { P.shared with progress := Function.update P.shared.progress t { job := some job } } :=
      ⟨h.reset, Function.update_self ..⟩
    cases job with
    | map ret₀ kiusr file region => exact map_safe hat
    | unmap kiusr => exact unmap_safe hat
  finish _ _ _ _ h := ⟨mmioGuarantee_reset h, h.reset⟩

variable {P : Pool Nat MmioJob KCall MmioSharing Int} {s₀ : MmioSharing}

theorem MmioSharing.Initial.inv (h : s₀.Initial c) : MmioInv c s₀ := by
  have hempty : ∀ p, p ∉ s₀.world.table c := by
    intro p hp
    rw [show s₀.world.table c = [] from h.empty] at hp
    cases hp
  refine ⟨⟨?_, fun p hp => absurd hp (hempty p), fun p hp => absurd hp (hempty p),
    fun p hp => absurd hp (hempty p), fun p hp => absurd hp (hempty p)⟩,
    fun t => ?_, fun t u _ => ?_⟩
  · rw [show s₀.world.table c = [] from h.empty]
    exact List.nodup_nil
  · rw [h.idle]
    exact threadSound_start
  · rw [h.idle]
    exact separate_start

/-- In every interleaving of KIUMD_SMMU_MMIO_MAP and KIUMD_SMMU_MMIO_UNMAP that stays within the
checks of the driver, the fixed mappings of one device are disjoint. -/
theorem mmio_fixed_disjoint (hstart : s₀.Initial c)
    (hreach : (mmioSystem c).Reach (StaysWithinChecks c) (.quiet s₀) P) :
    FixedDisjoint c P.shared := by
  have hinv : MmioInv c P.shared := hreach.kept mmioSystem_contract
    (fun t => ⟨rfl, hstart.inv⟩)
    (fun t s s' hguarantee => (hguarantee (t + 1) (Nat.succ_ne_self t)).inv) hstart.inv
  exact hinv.table.disjoint

/-- The file of a platform device. -/
def platformFile : File := ⟨0, some (some ⟨0, some ⟨0, 0⟩⟩)⟩

/-- A request for a fixed IOVA. -/
def fixedRequest (iova : U64) : KiumdSmmuMmioMap where
  fixedIova := 1
  vfioFd := 3
  id := 0
  iova := iova
  regLen := 0
  regName := 0

/-- A request to map a register region of `0x2000` bytes. -/
def fixedJob (iova : U64) : MmioJob := .map 0 (fixedRequest iova) platformFile (0x10000, 0x11FFF)

/-- A new context. -/
def newSharing : MmioSharing where
  world := .initial
  mutex _ := none
  fixed _ := false
  progress _ := {}

theorem newSharing_initial : newSharing.Initial 0 := ⟨rfl, fun _ => rfl, fun _ => rfl⟩

/-- A mapping is made at the IOVA of the cookie. -/
def mmioChoose : Chooser KCall MmioSharing := fun β request s =>
  match request with
  | .dmaMapResource dev _ _ => some (s.world.cookies dev.domain).msiIova
  | request => { Answers.plain fun _ _ => false with region := (0x10000, 0x11FFF) }.choose β request
      s.world

/-- The state in which thread `0` starts a request. -/
def MmioSharing.begin (s : MmioSharing) (job : MmioJob) : MmioSharing :=
  { s with progress := Function.update s.progress 0 { job := some job } }

/-- The state in which it has returned. -/
def MmioSharing.done (s : MmioSharing) : MmioSharing :=
  { s with progress := Function.update s.progress 0 {} }

/-- Whether thread `0` can serve two requests one after the other, with calls that meet a test, and
what holds after. -/
def servesTwo (test : MmioSharing → Event KCall → Bool) (job job' : MmioJob)
    (facts : MmioSharing → Bool) : Bool :=
  (mmioProgram 0 job).check ((⟨mmioStep 0⟩ : Semantics KCall MmioSharing).guarded test) mmioChoose
    (newSharing.begin job) fun _ _ s =>
      (mmioProgram 0 job').check ((⟨mmioStep 0⟩ : Semantics KCall MmioSharing).guarded test)
        mmioChoose (s.done.begin job') fun _ _ s => facts s.done

theorem servesTwo_reach
    {ok : Pool Nat MmioJob KCall MmioSharing Int → Move Nat MmioJob KCall → Prop}
    {test : MmioSharing → Event KCall → Bool} {job job' : MmioJob} {facts : MmioSharing → Bool}
    (hstart : ∀ P i, ok P (.start 0 i))
    (hcalls : ∀ P e, (mmioSystem 0).Reach ok (.quiet newSharing) P →
      (∀ u, u ≠ 0 → P.running u = none) → test P.shared e = true → ok P (.call 0 e))
    (hserves : servesTwo test job job' facts = true) :
    ∃ P, (mmioSystem 0).Reach ok (.quiet newSharing) P ∧ facts P.shared = true := by
  obtain ⟨trace, value, s, hexec, hsecond⟩ := Program.check_exec hserves
  obtain ⟨trace', value', s', hexec', hfacts⟩ := Program.check_exec hsecond
  obtain ⟨P, hreach, hrunning, hshared⟩ := System.Reach.here.exec_guarded (i := job) (t := 0)
    rfl rfl (hstart _ _) (fun P e hP hothers _ => hcalls P e hP hothers) hexec
  have hidle : ∀ u, P.running u = none := fun u => by rw [hrunning]; rfl
  obtain ⟨P', hreach', -, hshared'⟩ := hreach.exec_guarded (i := job') (t := 0) (hidle 0)
    (show s.done.begin job' = _ by rw [hshared]; rfl) (hstart _ _)
    (fun P' e hP' hothers _ => hcalls P' e hP' fun u hu => (hothers u hu).trans (hidle u)) hexec'
  exact ⟨P', hreach', by rw [hshared']; exact hfacts⟩

/-- A thread that serves no request has no claim. -/
theorem idle_progress (hstart : s₀.Initial c)
    {ok : Pool Nat MmioJob KCall MmioSharing Int → Move Nat MmioJob KCall → Prop}
    (hreach : (mmioSystem c).Reach ok (.quiet s₀) P) :
    ∀ u, P.running u = none → P.shared.progress u = {} := by
  refine hreach.invariant (fun P => ∀ u, P.running u = none → P.shared.progress u = {})
    (fun u _ => hstart.idle u) ?_
  intro P m P' hidle hmove _ u hu
  -- a step of another thread leaves what the request has come to, and a return clears it
  have hresume : ∀ (t : Nat) (job : MmioJob) (p : KProg Int) (s : MmioSharing),
      (u ≠ t → s.progress u = P.shared.progress u) →
      ((mmioSystem c).resume P.running t job p s).running u = none →
      ((mmioSystem c).resume P.running t job p s).shared.progress u = {} := by
    intro t job p s hsame hu
    by_cases hut : u = t
    · subst hut
      cases p with
      | ret value => exact Function.update_self ..
      | call request next =>
          rw [System.resume_running_call] at hu
          cases hu
    · rw [System.resume_running_of_ne hut] at hu
      have hprogress : s.progress u = {} := (hsame hut).trans (hidle u hu)
      cases p with
      | ret value => exact (Function.update_of_ne hut _ _).trans hprogress
      | call request next => exact hprogress
  cases hmove with
  | start hrunning hs =>
      obtain rfl := hs
      exact hresume _ _ _ _ (fun hut => Function.update_of_ne hut _ _) hu
  | call hrunning hcall =>
      obtain ⟨-, w, -, rfl⟩ := mmioStep_cases hcall
      exact hresume _ _ _ _ (fun hut => Function.update_of_ne hut _ _) hu

/-- Whether a scan is for a range that begins where the entries of the table end, or before. -/
def scansApart (s : MmioSharing) : Event KCall → Bool
  | ⟨.smmuScanMmio _ _ _, _⟩ => (s.table 0).all fun p =>
      ((s.progress 0).job.bind MmioJob.range).all fun r =>
        (s.world.mmio p).iova.toNat + (s.world.mmio p).size.toNat ≤ r.iova.toNat
  | ⟨.smmuFindMmio _ _, _⟩ => false
  | _ => true

/-- A request alone stays within the checks when the range it scans for lies apart. -/
theorem withinChecks_of_scansApart {e : Event KCall} (hclaim : ∀ u ≠ 0, (s.progress u).claim = none)
    (h : scansApart s e = true) : WithinChecks 0 0 s e := by
  obtain ⟨request, answer⟩ := e
  cases request with
  | smmuFindMmio c id => cases h
  | smmuScanMmio c fixed iova =>
      intro r hr
      refine ⟨?_, fun u hu r' hr' => ?_⟩
      · rintro ⟨p, hp, -, -, a, ha, ha'⟩
        simp only [scansApart, List.all_eq_true, hr, Option.all_some, decide_eq_true_eq] at h
        have hapart := h p hp
        have hbefore := ha.2
        have hafter := ha'.1
        omega
      · rw [hclaim u hu] at hr'
        cases hr'
  | _ => trivial

/-- Two fixed mappings side by side. -/
theorem mmio_fixed_disjoint_beside : ∃ P,
    (mmioSystem 0).Reach (StaysWithinChecks 0) (.quiet newSharing) P ∧ P.shared.table 0 = [3, 1] ∧
    P.shared.fixed 3 = true ∧ P.shared.fixed 1 = true ∧ FixedDisjoint 0 P.shared := by
  have hserves : servesTwo scansApart (fixedJob 0x8000) (fixedJob 0xA000)
      (fun s => decide (s.table 0 = [3, 1] ∧ s.fixed 3 = true ∧ s.fixed 1 = true)) = true := by
    decide +kernel
  have hcalls : ∀ P e, (mmioSystem 0).Reach (StaysWithinChecks 0) (.quiet newSharing) P →
      (∀ u, u ≠ 0 → P.running u = none) → scansApart P.shared e = true →
        StaysWithinChecks 0 P (.call 0 e) := fun P e hP hothers htest =>
    withinChecks_of_scansApart
      (fun u hu => by rw [idle_progress newSharing_initial hP u (hothers u hu)]) htest
  obtain ⟨P, hreach, hfacts⟩ := servesTwo_reach (fun _ _ => trivial) hcalls hserves
  obtain ⟨htable, hfixed, hfixed'⟩ := of_decide_eq_true hfacts
  exact ⟨P, hreach, htable, hfixed, hfixed', mmio_fixed_disjoint newSharing_initial hreach⟩

/-- A request for a fixed IOVA inside the mapping of another is not turned away. -/
theorem not_mmio_fixed_disjoint : ¬ ∀ c s₀ P, MmioSharing.Initial c s₀ →
    (mmioSystem c).Reach Move.any (.quiet s₀) P → FixedDisjoint c P.shared := by
  intro hall
  have hserves : servesTwo (fun _ _ => true) (fixedJob 0x8000) (fixedJob 0x9000)
      (fun s => decide (s.table 0 = [3, 1] ∧ s.fixed 3 = true ∧ s.fixed 1 = true ∧
        s.world.mmio 3 = ⟨⟨0, 0⟩, 0x9000, 0x2000⟩ ∧
        s.world.mmio 1 = ⟨⟨0, 0⟩, 0x8000, 0x2000⟩)) = true := by
    decide +kernel
  have hcalls : ∀ P e, (mmioSystem 0).Reach Move.any (.quiet newSharing) P →
      (∀ u, u ≠ 0 → P.running u = none) → true = true → Move.any P (.call 0 e) :=
    fun _ _ _ _ _ => trivial
  obtain ⟨P, hreach, hfacts⟩ := servesTwo_reach (fun _ _ => trivial) hcalls hserves
  obtain ⟨htable, hfixed, hfixed', hmmio, hmmio'⟩ := of_decide_eq_true hfacts
  have hdisjoint := hall 0 newSharing P newSharing_initial hreach 3 (by simp [htable]) 1
    (by simp [htable]) (by decide) hfixed hfixed'
  rw [hmmio, hmmio'] at hdisjoint
  exact hdisjoint ⟨rfl, 0x9000, ⟨by decide, by decide⟩, ⟨by decide, by decide⟩⟩

end SafeLinux.Kiumd
