import SafeLinux.Kiumd.Frame
import SafeLinux.Kiumd.Mmio

/-!
# What the MMIO ioctls can do to a table

`kiumdMmioSmmuMap_adds` and `kiumdMmioSmmuUnmap_removes` list the outcomes of the two ioctls. Their
error exits undo what was done, so an entry of the table always has its mapping.
-/

namespace SafeLinux.Kiumd

open Effects
open Effects.Program (perform)

/-- The mapping of an MMIO entry. -/
def mmioNeeds (mmio : KiumdSmmuMmioCtx) : Resource :=
  .resource mmio.dev mmio.iova mmio.size

/-- The outcomes of MMIO_MAP in the context `c`. -/
inductive AddMmioOutcome (b : World) (c : Nat) (w : World) : Prop where
  | refused (frame : Frame b w 0)
  | retracted (frame : Frame (b.skipId c) w 0)
  | published (p m : Nat) (mmio : KiumdSmmuMmioCtx) (fresh : .smap p ∉ b.held)
      (freshMmio : .mmioCtx m ∉ b.held)
      (frame : Frame (b.publishMmio c p m mmio) w (mmioNeeds mmio ::ₘ 0))

/-- The outcomes of MMIO_UNMAP in the context `c`. -/
inductive RemoveMmioOutcome (b : World) (c : Nat) (w : World) : Prop where
  | kept (frame : Frame b w 0)
  | removed (p m : Nat) (hp : p ∈ (b.ctxs c).smmuTable) (hcontext : (b.smaps p).context = some m)
      (frame : Frame (((b.release (mmioNeeds (b.mmioCtxs m))).release (.mmioCtx m)).delete c p) w 0)

def AddsMmio (b : World) (c : Nat) : Post KCall World Int := fun _ _ w => AddMmioOutcome b c w

def RemovesMmio (b : World) (c : Nat) : Post KCall World Int := fun _ _ w =>
  RemoveMmioOutcome b c w

instance (b : World) (c : Nat) : (AddsMmio b c).Stable := ⟨fun _ _ _ _ h => h⟩

instance (b : World) (c : Nat) : (RemovesMmio b c).Stable := ⟨fun _ _ _ _ h => h⟩

variable {b w : World} {c p m regName : Nat} {x : Multiset Resource} {kiusr : KiumdSmmuMmioMap}
  {dev : Device} {ret : Int}

/-! ## MMIO_MAP -/

theorem mmioSmapFree_refused (h : Frame b w x) (hp : .smap p ∈ x) :
    wp kernel .any (mmioSmapFree p none ret) (AddsMmio b c) w := by
  obtain ⟨x', rfl⟩ := Multiset.exists_cons_of_mem hp
  refine wp_give h rfl ?_
  intro w₁ h₁
  exact wp_pure.mpr (.refused (h₁.weaken (Multiset.zero_le _)))

theorem mmioRegFree_refused (h : Frame b w (.heap regName ::ₘ x)) (hp : .smap p ∈ x) :
    wp kernel .any (mmioRegFree p regName none ret) (AddsMmio b c) w := by
  refine wp_give h rfl ?_
  intro w₁ h₁
  exact mmioSmapFree_refused h₁ hp

/-- Publishing an entry and taking it back only counts an id. -/
theorem retracted_frame {mmio : KiumdSmmuMmioCtx} (fresh : .smap p ∉ b.held)
    (freshMmio : .mmioCtx m ∉ b.held) :
    Frame (b.skipId c)
      ((((b.publishMmio c p m mmio).unlink c p).release (.mmioCtx m)).release (.smap p)) 0 where
  ctxs := by
    funext i
    by_cases hi : i = c
    · subst hi
      simp [World.skipId, World.publishMmio, World.publish, World.unlink, World.setCtx]
    · simp [World.skipId, World.publishMmio, World.publish, World.unlink, World.setCtx, hi]
  smaps q hq := by
    have hne : q ≠ p := by
      rintro rfl
      exact fresh hq
    simp [World.skipId, World.publishMmio, World.publish, World.unlink, hne]
  mmioCtxs n hn := by
    have hne : n ≠ m := by
      rintro rfl
      exact freshMmio hn
    simp [World.skipId, World.publishMmio, World.unlink, hne]
  held := by simp [World.skipId, World.publishMmio, World.unlink]

/-- When the reply cannot be copied, the entry and its mapping are taken back. -/
theorem mmioPublish_adds {dmaAddr size : U64} (fresh : .smap p ∉ b.held)
    (freshMmio : .mmioCtx m ∉ b.held)
    (h : Frame b w
      (.mmioCtx m ::ₘ .smap p ::ₘ .resource dev dmaAddr size ::ₘ .heap regName ::ₘ 0)) :
    wp kernel .any (mmioPublish kiusr c p m regName dev dmaAddr size) (AddsMmio b c) w := by
  unfold mmioPublish
  refine wp_smmuAddMmio h ?_
  intro id w₁ h₁
  refine wp_quiet h₁ rfl ?_
  intro copied w₂ _ h₂
  split
  · refine wp_give h₂ rfl ?_
    intro w₃ h₃
    refine wp_hashDel h₃ ?_
    intro w₄ h₄
    refine wp_give h₄ rfl ?_
    intro w₅ h₅
    refine wp_surrender h₅ rfl (by simp) ?_
    intro w₆ h₆
    refine wp_surrender h₆ rfl (by simp) ?_
    intro w₇ h₇
    exact wp_pure.mpr (.retracted ((retracted_frame fresh freshMmio).trans h₇))
  · refine wp_give h₂.swap rfl ?_
    intro w₃ h₃
    exact wp_pure.mpr (.published p m ⟨dev, dmaAddr, size⟩ fresh freshMmio h₃)

theorem mmioMapResource_adds {domain : Domain} {addr size : U64} (fresh : .smap p ∉ b.held)
    (freshMmio : .mmioCtx m ∉ b.held)
    (h : Frame b w (.heap regName ::ₘ .mmioCtx m ::ₘ .smap p ::ₘ 0)) :
    wp kernel .any (mmioMapResource kiusr c p m regName dev domain addr size) (AddsMmio b c) w := by
  have hpublish {w' : World} {iova : U64}
      (h' : Frame b w'
      (.resource dev iova size ::ₘ .heap regName ::ₘ .mmioCtx m ::ₘ .smap p ::ₘ 0)) :
      wp kernel .any (mmioPublish kiusr c p m regName dev iova size) (AddsMmio b c) w' := by
    refine mmioPublish_adds fresh freshMmio (h'.weaken (le_of_eq ?_))
    simp only [← Multiset.singleton_add]
    ac_rfl
  unfold mmioMapResource
  split
  · refine wp_keeps (kiumdSetDmaCookie_keeps h) ?_
    intro ret w₁ h₁
    split
    · exact mmioRegFree_refused h₁ (by simp)
    refine wp_dmaMapResource h₁ ?_ ?_
    · refine wp_keeps (kiumdSetDmaCookie_keeps h₁) ?_
      intro retval w₂ h₂
      rw [if_pos (.inl rfl)]
      exact mmioRegFree_refused h₂ (by simp)
    · intro iova w₂ hiova h₂
      refine wp_keeps (kiumdSetDmaCookie_keeps h₂) ?_
      intro retval w₃ h₃
      split
      · exact mmioRegFree_refused h₃.drop (by simp)
      · exact hpublish h₃
  · refine wp_dmaMapResource h ?_ ?_
    · rw [if_pos rfl]
      exact mmioRegFree_refused h (by simp)
    · intro iova w₁ hiova h₁
      rw [if_neg hiova]
      exact hpublish h₁

/-- `kiumd_mmio_smmu_map` adds at most one entry, and with it its mapping. -/
theorem kiumdMmioSmmuMap_adds {ret₀ : Int} :
    wp kernel .any (kiumdMmioSmmuMap ret₀ kiusr (some (some c))) (AddsMmio w c) w := by
  have h := Frame.refl w
  refine wp_quiet h rfl ?_
  intro copied w₁ _ h₁
  split
  · exact wp_pure.mpr (.refused h₁)
  refine wp_keeps (kiumdGetVfioDevice_keeps h₁) ?_
  intro device w₂ h₂
  cases device with
  | none => exact wp_pure.mpr (.refused h₂)
  | some vfioDev =>
  refine wp_keeps (kiumdGetDmaCookie_keeps h₂) ?_
  intro cookie w₃ h₃
  cases cookie with
  | none => exact wp_pure.mpr (.refused h₃)
  | some domain =>
  refine wp_quiet h₃ rfl ?_
  intro busy w₄ _ h₄
  split
  · exact wp_pure.mpr (.refused h₄)
  refine wp_kzallocSmap h₄ (wp_pure.mpr (.refused h₄)) ?_
  intro p w₅ fresh h₅
  refine wp_kzallocMmioCtx h₅ ?_ ?_
  · refine wp_give h₅ rfl ?_
    intro w₆ h₆
    exact wp_pure.mpr (.refused h₆)
  intro m w₆ freshMmio h₆
  refine wp_strndupUser h₆ (mmioSmapFree_refused h₆ (by simp)) ?_
  intro regName w₇ h₇
  dsimp only
  split
  · refine wp_quiet h₇ rfl ?_
    intro platform w₈ _ h₈
    split
    · exact mmioRegFree_refused h₈ (by simp)
    refine wp_quiet h₈ rfl ?_
    intro region w₉ _ h₉
    split
    · exact mmioMapResource_adds fresh freshMmio h₉
    · exact mmioRegFree_refused h₉ (by simp)
  · exact wp_oops (.refused (h₇.weaken (Multiset.zero_le _)))

/-! ## MMIO_UNMAP -/

/-- What the lookup by id finds is an MMIO entry of the table. -/
theorem findMmio_mem {w' : World} {id : U32}
    (h : kernelStep (.smmuFindMmio c id) w (some p) = some w') :
    p ∈ (w.ctxs c).smmuTable ∧ ∃ m, (w.smaps p).context = some m := by
  simp only [kernelStep] at h
  split at h
  · rename_i hfound
    have hsome := List.find?_some hfound.symm
    simp only [Bool.and_eq_true, Option.isSome_iff_exists] at hsome
    exact ⟨List.mem_of_find?_eq_some hfound.symm, hsome.2⟩
  · cases h

/-- `kiumd_mmio_smmu_unmap` deletes an entry with its mapping or leaves all as it is. -/
theorem kiumdMmioSmmuUnmap_removes (hlive : ∀ p ∈ (w.ctxs c).smmuTable, .smap p ∈ w.held)
    (hmmio : ∀ p ∈ (w.ctxs c).smmuTable, ∀ m, (w.smaps p).context = some m → .mmioCtx m ∈ w.held) :
    wp kernel .any (kiumdMmioSmmuUnmap kiusr (some (some c))) (RemovesMmio w c) w := by
  have h := Frame.refl w
  refine wp_quiet h rfl ?_
  intro copied w₁ _ h₁
  split
  · exact wp_pure.mpr (.kept h₁)
  split
  · exact wp_pure.mpr (.kept h₁)
  refine wp_quiet h₁ rfl ?_
  intro found w₂ hstep h₂
  cases found with
  | none => exact wp_pure.mpr (.kept h₂)
  | some p =>
      obtain ⟨hp, m, hm⟩ := findMmio_mem hstep
      rw [h₁.ctxs] at hp
      have hlivep := hlive p hp
      rw [h₁.smaps p hlivep] at hm
      have hlivem := hmmio p hp m hm
      refine wp_readSmap h₂ hlivep ?_
      rw [hm]
      refine wp_readMmioCtx h₂ hlivem ?_
      refine wp_surrender h₂ rfl (by simp) ?_
      intro w₃ h₃
      refine wp_smmuDelMmio h₃ (Multiset.mem_erase_of_ne (by simp) |>.mpr hlivep) hm (by simp)
        (by simp) ?_
      intro w₄ h₄
      exact wp_pure.mpr (.removed p m hp hm h₄)

end SafeLinux.Kiumd
