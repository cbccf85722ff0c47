import SafeLinux.Kiumd.Device

/-!
# Mapping and unmapping an MMIO region

`kiumd_mmio_smmu_map` and `kiumd_mmio_smmu_unmap`.
-/

namespace SafeLinux.Kiumd

open Effects
open Effects.Program (perform)

/-- `kfree(smap->context)`, which does nothing for `NULL`. -/
def kfreeContext : Option Nat → KProg Unit
  | none => return ()
  | some m => perform (.kfreeMmioCtx m)

/-- The label `smap_free` of `kiumd_mmio_smmu_map`; `context` is `smap->context`. -/
def mmioSmapFree (smap : Nat) (context : Option Nat) (ret : Int) : KProg Int := do
  kfreeContext context
  perform (.kfreeSmap smap)
  return ret

/-- The label `reg_free`. -/
def mmioRegFree (smap regName : Nat) (context : Option Nat) (ret : Int) : KProg Int := do
  perform (.kfree regName)
  mmioSmapFree smap context ret

/-- The end of `kiumd_mmio_smmu_map`: record the mapping and report it. -/
def mmioPublish (kiusr : KiumdSmmuMmioMap) (ctx smap mmioCtx regName : Nat) (dev : Device)
    (dmaAddr size : U64) : KProg Int := do
  let id ← perform (.smmuAddMmio ctx smap mmioCtx ⟨dev, dmaAddr, size⟩)
  if ¬ (← perform (.copyToUser
      (.mmio { kiusr with id := id, iova := dmaAddr, regLen := size }))) then
    perform (.dmaUnmapResource dev dmaAddr size)
    perform (.hashDel ctx smap)
    mmioRegFree smap regName (some mmioCtx) (-EFAULT)
  else
    perform (.kfree regName)
    return 0

/-- The part of `kiumd_mmio_smmu_map` that maps the region of a platform device. A fixed IOVA is
set in the cookie before the mapping and cleared after it, all under the cookie's mutex. -/
def mmioMapResource (kiusr : KiumdSmmuMmioMap) (ctx smap mmioCtx regName : Nat) (dev : Device)
    (domain : Domain) (addr size : U64) : KProg Int := do
  if kiusr.fixedIova ≠ 0 then
    let ret ← kiumdSetDmaCookie (some domain) .msi kiusr.iova
    if ret ≠ 0 then
      mmioRegFree smap regName none ret
    else
      let dmaAddr ← perform (.dmaMapResource dev addr size)
      let retval ← kiumdSetDmaCookie (some domain) .iova 0
      if dmaAddr = DMA_MAPPING_ERROR ∨ retval ≠ 0 then
        mmioRegFree smap regName none (if dmaAddr = DMA_MAPPING_ERROR then -ENOMEM else 0)
      else
        mmioPublish kiusr ctx smap mmioCtx regName dev dmaAddr size
  else
    let dmaAddr ← perform (.dmaMapResource dev addr size)
    if dmaAddr = DMA_MAPPING_ERROR then
      mmioRegFree smap regName none (-ENOMEM)
    else
      mmioPublish kiusr ctx smap mmioCtx regName dev dmaAddr size

/-- `kiumd_mmio_smmu_map`; `ret₀` is the indeterminate first value of `ret`, which the exit for a
device that is not a platform device returns. -/
def kiumdMmioSmmuMap (ret₀ : Int) (kiusr : KiumdSmmuMmioMap) (fp : Option (Option Nat)) :
    KProg Int := do
  let some privateData := fp | return -EINVAL
  let some ctx := privateData | return -EINVAL
  if ¬ (← perform (.copyFromUser (.mmio kiusr))) then
    return -EFAULT
  let some vfioDev ← kiumdGetVfioDevice kiusr.vfioFd | return -EINVAL
  let some domain ← kiumdGetDmaCookie (some vfioDev) | return -EINVAL
  if ← perform (.smmuScanMmio ctx (kiusr.fixedIova ≠ 0) kiusr.iova) then
    return -EINVAL
  let some smap ← perform .kzallocSmap | return -ENOMEM
  let some mmioCtx ← perform .kzallocMmioCtx | do
    perform (.kfreeSmap smap)
    return -ENOMEM
  -- on the exits before the entry is published `smap->context` is still `NULL`
  let some regName ← perform (.strndupUser kiusr.regName) | mmioSmapFree smap none (-EINVAL)
  let some dev := vfioDev.dev | perform .oops >>= Empty.elim
  if ¬ (← perform (.devIsPlatform dev)) then
    mmioRegFree smap regName none ret₀
  else
    let some (first, last) ← perform (.platformGetResourceByname dev regName)
      | mmioRegFree smap regName none (-EINVAL)
    mmioMapResource kiusr ctx smap mmioCtx regName dev domain first (last - first + 1)

/-- `kiumd_mmio_smmu_unmap`. -/
def kiumdMmioSmmuUnmap (kiusr : KiumdSmmuMmioMap) (fp : Option (Option Nat)) : KProg Int := do
  let some privateData := fp | return -EINVAL
  let some ctx := privateData | return -EINVAL
  if ¬ (← perform (.copyFromUser (.mmio kiusr))) then
    return -EFAULT
  if kiusr.id.toInt < 0 then
    return -EFAULT
  let some smap ← perform (.smmuFindMmio ctx kiusr.id) | return -ENOENT
  let some mmioCtx := (← perform (.readSmap smap)).context | return -EINVAL
  let mmio ← perform (.readMmioCtx mmioCtx)
  perform (.dmaUnmapResource mmio.dev mmio.iova mmio.size)
  perform (.smmuDelMmio ctx smap)
  return 0

end SafeLinux.Kiumd
