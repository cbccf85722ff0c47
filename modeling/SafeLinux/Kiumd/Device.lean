import SafeLinux.Kiumd.Kernel

/-!
# Devices, domains and DMA cookies

The helpers of `kiumd.c` that go from a VFIO file descriptor to the device, its IOMMU domain and
the domain's DMA cookie, and the KGSL bitmaps that hand out fixed IOVAs.
-/

namespace SafeLinux.Kiumd

open Effects
open Effects.Program (perform)

/-- The part of `kiumd_get_vfio_device` that takes the device from a file. -/
def vfioDeviceOf (file : File) : KProg (Option VfioDevice) := do
  if ¬ (← perform (.vfioFileIsValid file)) then
    perform (.fput file)
    return none
  let some vfioDev := file.privateData | do
    perform (.fput file)
    return none
  perform (.fput file)
  return vfioDev

/-- `kiumd_get_vfio_device`. -/
def kiumdGetVfioDevice (fd : Int) : KProg (Option VfioDevice) := do
  if fd < 0 then
    return none
  let some file ← perform (.fget fd) | return none
  vfioDeviceOf file

/-- `kiumd_get_dma_cookie`; the cookie is named by its domain. -/
def kiumdGetDmaCookie (vfioDev : Option VfioDevice) : KProg (Option Domain) := do
  let some vfioDev := vfioDev | return none
  let some dev := vfioDev.dev | return none
  let some domain ← perform (.iommuGetDmaDomain dev) | return none
  if ¬ (← perform (.iovaCookie domain)) then
    return none
  return some domain

/-- `kiumd_set_dma_cookie`, and `kiumd_set_dma_cookie_unlocked`, which takes the cookie's mutex
around it. -/
def kiumdSetDmaCookie (cookie : Option Domain) (type : IommuDmaCookieType) (iova : U64) :
    KProg Int := do
  let some domain := cookie | return -EINVAL
  perform (.setDmaCookie domain type iova)
  return 0

/-- `kiumd_get_iommu_domain`. -/
def kiumdGetIommuDomain (vfioFd : Int) : KProg (Option Domain) := do
  let some vfioDev ← kiumdGetVfioDevice vfioFd | return none
  let some dev := vfioDev.dev | perform .oops >>= Empty.elim
  perform (.iommuGetDmaDomain dev)

/-- The bitmap `get_map_offset` and `clear_map_iova` choose for a `ptselect`. -/
def kgslMap (ptselect : Int) : KgslMap :=
  if ptselect = KGSL_GLOBAL_PT then .global else .perprocess

/-- Whether a `ptselect` selects one of the two KGSL bitmaps. -/
def IsKgsl (ptselect : Int) : Prop :=
  ptselect = KGSL_GLOBAL_PT ∨ ptselect = KGSL_PER_PROCESS_PT

instance (ptselect : Int) : Decidable (IsKgsl ptselect) :=
  inferInstanceAs (Decidable (_ ∨ _))

/-- A number of pages as `bitmap_set` and its siblings take it, an `unsigned int`. -/
def pagesOf (size : U64) : U32 := (size >>> PAGE_SHIFT).setWidth 32

/-- The end of `get_map_offset`: take the pages from `bit` on. -/
def takeMapArea (m : KgslMap) (bit size : U64) : KProg Int := do
  perform (.bitmapSet m (bit.setWidth 32) (pagesOf size))
  perform (.setLastOffset m ((bit + size >>> PAGE_SHIFT) % BitVec.ofNat 64 KGSL_PT_MEM_PAGES))
  return (bit <<< PAGE_SHIFT).toInt

/-- `get_map_offset`. -/
def getMapOffset (size : U64) (ptselect : Int) : KProg Int := do
  if ¬ IsKgsl ptselect then
    return -EINVAL
  if size = 0 ∨ size >>> PAGE_SHIFT = 0 then
    return -EINVAL
  let m := kgslMap ptselect
  let last ← perform (.lastOffset m)
  let bit ← perform (.bitmapFindNextZeroArea m last (pagesOf size))
  if (bit + size >>> PAGE_SHIFT).toNat < KGSL_PT_MEM_PAGES then
    takeMapArea m bit size
  else
    let bit ← perform (.bitmapFindNextZeroArea m 0 (pagesOf size))
    if KGSL_PT_MEM_PAGES ≤ bit.toNat then
      return -ENOSPC
    takeMapArea m bit size

/-- The bitmap position `clear_map_iova` computes from an IOVA. -/
def iovaBit (iova : U64) (ptselect : Int) : U64 :=
  if ptselect = KGSL_GLOBAL_PT then (iova &&& ~~~ KGSL_GLOBAL_PT_BASE_IOVA) >>> PAGE_SHIFT
  else (iova - KGSL_PER_PROCESS_PT_BASE_IOVA) >>> PAGE_SHIFT

/-- `clear_map_iova`. -/
def clearMapIova (iova size : U64) (ptselect : Int) : KProg Unit := do
  if IsKgsl ptselect then
    perform (.bitmapClear (kgslMap ptselect) ((iovaBit iova ptselect).setWidth 32) (pagesOf size))

/-- The IOVA `set_map_iova` computes from an offset; it is indeterminate in the source for a
`ptselect` that no caller passes. -/
def mapIova (offset : U64) (ptselect : Int) : U64 :=
  if ptselect = KGSL_GLOBAL_PT then KGSL_GLOBAL_PT_BASE_IOVA + offset
  else KGSL_PER_PROCESS_PT_BASE_IOVA + offset

/-- `set_map_iova`. -/
def setMapIova (offset : U64) (vfioDev : VfioDevice) (ptselect : Int) : KProg Int := do
  let some domain ← kiumdGetDmaCookie (some vfioDev) | return -EINVAL
  kiumdSetDmaCookie (some domain) .msi (mapIova offset ptselect)

end SafeLinux.Kiumd
