import SafeLinux.Kiumd.BufferShapes
import SafeLinux.Kiumd.Mmio

/-!
# The actions of MMIO_MAP and MMIO_UNMAP

Every execution of `kiumd_mmio_smmu_map` and `kiumd_mmio_smmu_unmap`, whatever the kernel answers,
shows one of the sequences of actions listed here.
-/

namespace SafeLinux.Kiumd

open Effects
open Effects.Program (perform)

/-- The actions on the cookie before a mapping at a fixed IOVA. -/
def fixCookie (u : KiumdSmmuMmioMap) (dom : Domain) : List Act :=
  if u.fixedIova ≠ 0 then [.cookie dom .msi u.iova] else []

/-- The actions on the cookie after it. -/
def freeCookie (u : KiumdSmmuMmioMap) (dom : Domain) : List Act :=
  if u.fixedIova ≠ 0 then [.cookie dom .iova 0] else []

/-- The actions of MMIO_MAP from the mapping on. -/
inductive ResourceShape (u : KiumdSmmuMmioMap) (c p m : Nat) (dev : Device) (dom : Domain)
    (addr size : U64) : Shape Act Int where
  /-- The region could not be mapped. -/
  | refused {ret : Int} : ret ≠ 0 →
      ResourceShape u c p m dev dom addr size (fixCookie u dom ++ (freeCookie u dom ++ [.free p]))
        (some ret)
  /-- The reply could not be copied. -/
  | retracted {iova : U64} {id : U32} {ret : Int} : ret ≠ 0 →
      ResourceShape u c p m dev dom addr size
        (fixCookie u dom ++ .mapResource dev addr size iova :: (freeCookie u dom ++
          [.addMmio c p m ⟨dev, iova, size⟩ id,
            .reply (.mmio { u with id := id, iova := iova, regLen := size }) false,
            .unmapResource dev iova size, .unlink c p, .free p])) (some ret)
  | done {iova : U64} {id : U32} :
      ResourceShape u c p m dev dom addr size
        (fixCookie u dom ++ .mapResource dev addr size iova :: (freeCookie u dom ++
          [.addMmio c p m ⟨dev, iova, size⟩ id,
            .reply (.mmio { u with id := id, iova := iova, regLen := size }) true])) (some 0)

/-- The actions of MMIO_MAP. -/
inductive MmioMapShape (u : KiumdSmmuMmioMap) (c : Nat) (ret₀ : Int) : Shape Act Int where
  /-- Something failed before the region was mapped. -/
  | early {acts : List Act} {result : Option Int} : result ≠ some 0 →
      (∀ act ∈ acts, act.isOpening ∨ ∃ p, act = .free p) → MmioMapShape u c ret₀ acts result
  | notPlatform {file : File} {p : Nat} {dev : Device} :
      MmioMapShape u c ret₀ [.file u.vfioFd file, .alloc p, .notPlatform dev, .free p] (some ret₀)
  | mapped {file : File} {v : VfioDevice} {dev : Device} {p m : Nat} {addr size : U64}
      {acts : List Act} {result : Option Int} : file.privateData = some (some v) →
      v.dev = some dev → ResourceShape u c p m dev dev.domain addr size acts result →
      MmioMapShape u c ret₀ (.file u.vfioFd file :: .alloc p :: acts) result

variable {u : KiumdSmmuMmioMap} {c p m regName : Nat} {dev : Device} {dom : Domain}
  {addr size : U64} {ret ret₀ : Int} {R : Shape Act Int}

theorem mmioSmapFree_shows (h : R [.free p] (some ret)) :
    Shows (mmioSmapFree p none ret) R :=
  shows_act _ (fun _ => rfl) fun _ _ => shows_pure h

theorem mmioRegFree_shows (h : R [.free p] (some ret)) :
    Shows (mmioRegFree p regName none ret) R :=
  shows_idle (fun _ => rfl) fun _ _ => mmioSmapFree_shows h

theorem mmioPublish_shows {iova : U64}
    (hretracted : ∀ id ret, ret ≠ 0 → R [.addMmio c p m ⟨dev, iova, size⟩ id,
      .reply (.mmio { u with id := id, iova := iova, regLen := size }) false,
      .unmapResource dev iova size, .unlink c p, .free p] (some ret))
    (hdone : ∀ id, R [.addMmio c p m ⟨dev, iova, size⟩ id,
      .reply (.mmio { u with id := id, iova := iova, regLen := size }) true] (some 0)) :
    Shows (mmioPublish u c p m regName dev iova size) R := by
  unfold mmioPublish
  refine shows_act _ (fun _ => rfl) fun id _ => shows_act _ (fun _ => rfl) fun copied _ => ?_
  cases copied with
  | false =>
      refine shows_act _ (fun _ => rfl) fun _ _ => shows_act _ (fun _ => rfl) fun _ _ =>
        shows_idle (fun _ => rfl) fun _ _ => shows_idle (fun _ => rfl) fun _ _ =>
          shows_act _ (fun _ => rfl) fun _ _ => shows_pure ?_
      exact hretracted id _ (by decide)
  | true => exact shows_idle (fun _ => rfl) fun _ _ => shows_pure (hdone id)

theorem kiumdSetDmaCookie_shows {type : IommuDmaCookieType} {iova : U64} :
    Shows (kiumdSetDmaCookie (some dom) type iova) fun acts result =>
      acts = [.cookie dom type iova] ∧ result = some 0 := by
  unfold kiumdSetDmaCookie
  exact shows_act _ (fun _ => rfl) fun _ _ => shows_pure ⟨rfl, rfl⟩

theorem mmioMapResource_shows :
    Shows (mmioMapResource u c p m regName dev dom addr size)
      (ResourceShape u c p m dev dom addr size) := by
  have hrefused := @ResourceShape.refused u c p m dev dom addr size (-ENOMEM) (by decide)
  have hretracted := @ResourceShape.retracted u c p m dev dom addr size
  have hdone := @ResourceShape.done u c p m dev dom addr size
  unfold mmioMapResource
  split
  · rename_i hfixed
    simp only [fixCookie, freeCookie, if_pos hfixed] at hrefused hretracted hdone
    refine shows_bind kiumdSetDmaCookie_shows ?_ fun acts h => by cases h.2
    rintro _ _ ⟨rfl, ⟨⟩⟩
    rw [if_neg (not_not.mpr rfl)]
    refine shows_call fun iova _ => ?_
    refine shows_bind kiumdSetDmaCookie_shows ?_ fun acts h => by cases h.2
    rintro _ _ ⟨rfl, ⟨⟩⟩
    by_cases hiova : iova = DMA_MAPPING_ERROR
    · subst hiova
      rw [if_pos (.inl rfl), if_pos rfl]
      exact mmioRegFree_shows hrefused
    · have hview : driver.view (.dmaMapResource dev addr size) iova =
          some (.mapResource dev addr size iova) := if_neg hiova
      have hnot : ¬ (iova = DMA_MAPPING_ERROR ∨ (0 : Int) ≠ 0) := by simpa using hiova
      rw [if_neg hnot, hview]
      exact mmioPublish_shows (fun id ret hret => hretracted hret) fun id => hdone
  · rename_i hfixed
    simp only [fixCookie, freeCookie, if_neg hfixed] at hrefused hretracted hdone
    refine shows_call fun iova _ => ?_
    by_cases hiova : iova = DMA_MAPPING_ERROR
    · subst hiova
      rw [if_pos rfl]
      exact mmioRegFree_shows hrefused
    · have hview : driver.view (.dmaMapResource dev addr size) iova =
          some (.mapResource dev addr size iova) := if_neg hiova
      rw [if_neg hiova, hview]
      exact mmioPublish_shows (fun id ret hret => hretracted hret) fun id => hdone

/-- What `kiumd_mmio_smmu_map` can do. -/
theorem kiumdMmioSmmuMap_shows :
    Shows (kiumdMmioSmmuMap ret₀ u (some (some c))) (MmioMapShape u c ret₀) := by
  unfold kiumdMmioSmmuMap
  refine shows_idle (fun _ => rfl) fun copied _ => ?_
  split
  · exact shows_pure (.early (by decide) (by simp))
  refine shows_bind kiumdGetVfioDevice_shows ?_ fun acts h => by cases h
  intro acts found hfound
  cases hfound with
  | missing hopening =>
      refine shows_pure (.early (by decide) ?_)
      rw [List.append_nil]
      exact fun act hact => .inl (hopening act hact)
  | @found file v hprivate =>
  have hfile : ∀ act ∈ [Act.file u.vfioFd file], act.isOpening ∨ ∃ p, act = .free p := by
    simp [Act.isOpening]
  refine shows_bind kiumdGetDmaCookie_shows ?_ ?_
  · rintro _ domain ⟨rfl, _, ⟨rfl⟩, hdomain⟩
    cases domain with
    | none => exact shows_pure (.early (by decide) hfile)
    | some dom =>
    obtain ⟨dev, hdev, rfl⟩ := hdomain dom rfl
    refine shows_idle (fun _ => rfl) fun busy _ => ?_
    split
    · exact shows_pure (.early (by decide) hfile)
    refine shows_call fun p _ => ?_
    cases p with
    | none => exact shows_pure (.early (by decide) hfile)
    | some p =>
    have hfreed : ∀ act ∈ [Act.file u.vfioFd file, .alloc p, .free p],
        act.isOpening ∨ ∃ p, act = .free p := by
      simp [Act.isOpening]
    refine shows_idle (fun m => by cases m <;> rfl) fun m _ => ?_
    cases m with
    | none =>
        exact shows_act _ (fun _ => rfl) fun _ _ => shows_pure (.early (by decide) hfreed)
    | some m =>
    refine shows_idle (fun name => by cases name <;> rfl) fun regName _ => ?_
    cases regName with
    | none => exact mmioSmapFree_shows (.early (by decide) hfreed)
    | some regName =>
    simp only [hdev]
    refine shows_call fun platform _ => ?_
    cases platform with
    | false => exact mmioRegFree_shows .notPlatform
    | true =>
    refine shows_idle (fun _ => rfl) fun region _ => ?_
    cases region with
    | none => exact mmioRegFree_shows (.early (by decide) hfreed)
    | some region =>
        exact mmioMapResource_shows.mono fun _ _ h => .mapped hprivate hdev h
  · rintro _ ⟨_, _, ⟨⟩, _⟩

/-- The actions of MMIO_UNMAP. -/
inductive MmioUnmapShape (u : KiumdSmmuMmioMap) (c : Nat) : Shape Act Int where
  /-- There was no entry to unmap. -/
  | early {acts : List Act} {result : Option Int} : result ≠ some 0 →
      (∀ act ∈ acts, (∃ found, act = .findMmio c u.id found) ∨ ∃ p data, act = .read p data) →
      MmioUnmapShape u c acts result
  | done {p m : Nat} {data : SmmuMapData} {mmio : KiumdSmmuMmioCtx} : 0 ≤ u.id.toInt →
      data.context = some m →
      MmioUnmapShape u c [.findMmio c u.id (some p), .read p data, .readMmio m mmio,
        .unmapResource mmio.dev mmio.iova mmio.size, .deleteMmio c p] (some 0)

/-- What `kiumd_mmio_smmu_unmap` can do. -/
theorem kiumdMmioSmmuUnmap_shows :
    Shows (kiumdMmioSmmuUnmap u (some (some c))) (MmioUnmapShape u c) := by
  unfold kiumdMmioSmmuUnmap
  refine shows_idle (fun _ => rfl) fun copied _ => ?_
  split
  · exact shows_pure (.early (by decide) (by simp))
  split
  · exact shows_pure (.early (by decide) (by simp))
  rename_i hid
  refine shows_act _ (fun _ => rfl) fun found _ => ?_
  cases found with
  | none => exact shows_pure (.early (by decide) (by simp))
  | some p =>
  refine shows_act _ (fun _ => rfl) fun data _ => ?_
  cases hcontext : data.context with
  | none => exact shows_pure (.early (by decide) (by simp))
  | some m =>
      refine shows_act _ (fun _ => rfl) fun mmio _ => shows_act _ (fun _ => rfl) fun _ _ =>
        shows_act _ (fun _ => rfl) fun _ _ => shows_pure ?_
      exact .done (not_lt.mp hid) hcontext

end SafeLinux.Kiumd
