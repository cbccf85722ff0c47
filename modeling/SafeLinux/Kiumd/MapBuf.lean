import SafeLinux.Kiumd.Device

/-!
# Mapping and unmapping a DMA buffer

`kiumd_dmabuf_vfio_map` and `kiumd_dmabuf_vfio_unmap`. The file pointer an ioctl is called with is
`none` for `NULL` and otherwise the `private_data` of the file, again `none` for `NULL`.
-/

namespace SafeLinux.Kiumd

open Effects
open Effects.Program (perform)

/-- The label `fail_fput` of `kiumd_dmabuf_vfio_map`. -/
def mapFailFput (file : File) (ret : Int) : KProg Int := do
  perform (.fput file)
  return ret

/-- The label `fail_put`. -/
def mapFailPut (file : File) (dmabuf : DmaBuf) (ret : Int) : KProg Int := do
  perform (.dmaBufPut dmabuf)
  mapFailFput file ret

/-- The label `fail_detach`. -/
def mapFailDetach (file : File) (dmabuf : DmaBuf) (attach : Attachment) (ret : Int) :
    KProg Int := do
  perform (.dmaBufDetach dmabuf attach)
  mapFailPut file dmabuf ret

/-- The `dma_addr` that `kiumd_dmabuf_vfio_map` reports. -/
def mapDmaAddr (kiusr : KiumdUser) (sgt : SgTable) : KProg U64 :=
  if kiusr.isIovaZero = FIXED_IOVA_AT_ZERO then pure 0 else perform (.sgDmaAddress sgt)

/-- The end of `kiumd_dmabuf_vfio_map`: report the mapping to the user. -/
def mapReply (kiusr : KiumdUser) (file : File) (dmabuf : DmaBuf) (attach : Attachment)
    (sgt : SgTable) (dir : Int) : KProg Int := do
  if ¬ (← perform (.copyToUser (.user kiusr))) then
    perform (.dmaBufUnmapAttachment attach sgt dir)
    mapFailDetach file dmabuf attach (-EFAULT)
  else
    perform (.fput file)
    return 0

/-- The part of `kiumd_dmabuf_vfio_map` that records the mapping in the context. -/
def mapPublish (fp : Option (Option Nat)) (kiusr : KiumdUser) (file : File)
    (vfioDev : VfioDevice) (dmabuf : DmaBuf) (attach : Attachment) (sgt : SgTable) (dir : Int) :
    KProg Int := do
  let some privateData := fp | mapFailFput file (-EINVAL)
  let some ctx := privateData | mapFailFput file (-EINVAL)
  let some smap ← perform .kzallocSmap | mapFailFput file (-ENOMEM)
  let id ← perform (.smmuAdd ctx smap
    { dmabufattach := some attach, sgtPtr := some sgt, dmabufPtr := some dmabuf, dmaDir := dir,
      ptselect := kiusr.ptselect, isIovaZero := kiusr.isIovaZero, vfioDev := some vfioDev })
  let dmaAddr ← mapDmaAddr kiusr sgt
  mapReply { kiusr with id := id, dmaAddr := dmaAddr } file dmabuf attach sgt dir

/-- `kiumd_mangle_sg_table` under `CONFIG_DMABUF_DEBUG`. -/
def mangleForDebug (sgt : SgTable) : KProg Unit := do
  if ← perform .configDmabufDebug then
    perform (.mangleSgTable sgt)

/-- The part of `kiumd_dmabuf_vfio_map` that maps an attached buffer. -/
def mapAttached (fp : Option (Option Nat)) (kiusr : KiumdUser) (file : File)
    (vfioDev : VfioDevice) (dev : Device) (dmabuf : DmaBuf) (attach : Attachment) :
    KProg Int := do
  if kiusr.dmaDirection < DMA_BIDIRECTIONAL ∨ kiusr.dmaDirection > DMA_NONE then
    mapFailDetach file dmabuf attach (-EINVAL)
  else
    let dir := if kiusr.dmaDirection = DMA_TO_DEVICE then kiusr.dmaDirection else DMA_BIDIRECTIONAL
    if kiusr.dmaAttr = DMA_ATTR_PRIVILEGED ∧ kiusr.isIovaZero ≠ FIXED_IOVA_AT_ZERO then
      let some heapAttachment := attach.priv | mapFailDetach file dmabuf attach (-EINVAL)
      let some sgt := heapAttachment | mapFailDetach file dmabuf attach (-EINVAL)
      let ret ← perform (.dmaMapSgtable dev sgt dir
        (DMA_ATTR_PRIVILEGED + DMA_ATTR_SKIP_CPU_SYNC))
      if ret ≠ 0 then
        mapFailDetach file dmabuf attach ret
      else
        mapPublish fp kiusr file vfioDev dmabuf attach sgt dir
    else
      if attach.dmabuf.isErrOrNull then
        return -EINVAL
      let mapped ← perform (.dmaBufMapAttachment attach dir)
      let .ptr sgt := mapped | mapFailDetach file dmabuf attach (mapped.errOr (-EINVAL))
      if kiusr.isIovaZero = FIXED_IOVA_AT_ZERO then
        let prot := if kiusr.dmaAttr = DMA_ATTR_PRIVILEGED
          then IOMMU_CACHE + IOMMU_READ + IOMMU_WRITE + IOMMU_PRIV
          else IOMMU_CACHE + IOMMU_READ + IOMMU_WRITE
        let some iommuDom ← perform (.iommuGetDmaDomain dev) | mapFailFput file (-EINVAL)
        mangleForDebug sgt
        let size := BitVec.ofInt 64 (← perform (.iommuMapSg iommuDom 0 sgt prot))
        -- `size` is unsigned, so the test `size < 0` never holds
        if size < 0#64 then
          perform (.dmaBufUnmapAttachment attach sgt dir)
          mapFailDetach file dmabuf attach (-EFAULT)
        else
          mapPublish fp kiusr file vfioDev dmabuf attach sgt dir
      else
        mapPublish fp kiusr file vfioDev dmabuf attach sgt dir

/-- The part of `kiumd_dmabuf_vfio_map` from the device check to the attachment. -/
def mapAttach (fp : Option (Option Nat)) (kiusr : KiumdUser) (file : File)
    (vfioDev : VfioDevice) (dmabuf : DmaBuf) : KProg Int := do
  let some dev := vfioDev.dev | mapFailPut file dmabuf (-ENODEV)
  match ← perform (.dmaBufAttach dmabuf dev) with
  | .error ret => mapFailPut file dmabuf ret
  | .ok attach => mapAttached fp kiusr file vfioDev dev dmabuf attach

/-- `kiumd_dmabuf_vfio_map`. -/
def kiumdDmabufVfioMap (kiusr : KiumdUser) (fp : Option (Option Nat)) : KProg Int := do
  let some privateData := fp | return -EINVAL
  let some _ := privateData | return -EINVAL
  -- this first `smap` is overwritten below and never freed
  let some _ ← perform .kzallocSmap | return -ENOMEM
  if ¬ (← perform (.copyFromUser (.user kiusr))) then
    return -EFAULT
  if kiusr.vfioFd < 0 then
    return -EBADF
  let some file ← perform (.fget kiusr.vfioFd) | return -EBADF
  let some device := file.privateData | perform .oops >>= Empty.elim
  let some vfioDev := device | mapFailFput file (-EINVAL)
  let buffer ← perform (.dmaBufGet kiusr.dmaBufFd)
  let .ptr dmabuf := buffer | do
    -- the message names the device
    let some _ := vfioDev.dev | perform .oops >>= Empty.elim
    mapFailFput file (buffer.errOr (-EINVAL))
  if IsKgsl kiusr.ptselect then
    let offset ← getMapOffset dmabuf.size kiusr.ptselect
    if offset < 0 then
      mapFailPut file dmabuf offset
    else
      let ret ← setMapIova (BitVec.ofInt 64 offset) vfioDev kiusr.ptselect
      if ret < 0 then
        mapFailPut file dmabuf ret
      else
        mapAttach fp kiusr file vfioDev dmabuf
  else
    mapAttach fp kiusr file vfioDev dmabuf

/-- The end of `kiumd_dmabuf_vfio_unmap`: flush the IOTLB of a KGSL mapping, delete the entry and
release the buffer. -/
def unmapFinish (ctx : Nat) (kiusr : KiumdUser) (smap : Nat) (dmabuf : DmaBuf)
    (attach : Attachment) : KProg Int := do
  if IsKgsl kiusr.ptselect ∨ kiusr.ptselect = KGSL_DEFAULT_PT then
    let some iommuDom ← kiumdGetIommuDomain kiusr.vfioFd | return -EINVAL
    perform (.iommuFlushIotlbAll iommuDom)
    perform (.smmuDel ctx smap)
    perform (.dmaBufDetach dmabuf attach)
    perform (.dmaBufPut dmabuf)
    return 0
  else
    perform (.smmuDel ctx smap)
    perform (.dmaBufDetach dmabuf attach)
    perform (.dmaBufPut dmabuf)
    return 0

/-- The unmapping of a privileged buffer in `kiumd_dmabuf_vfio_unmap`, once the file is found. -/
def unmapPrivileged (ctx : Nat) (kiusr : KiumdUser) (smap : Nat) (dmabuf : DmaBuf)
    (attach : Attachment) (dir : Int) (file : File) : KProg Int := do
  let some device := file.privateData | perform .oops >>= Empty.elim
  let some vfioDev := device | mapFailFput file (-EINVAL)
  let some heapAttachment := attach.priv | mapFailFput file (-EINVAL)
  let some sgtable := heapAttachment | mapFailFput file (-EINVAL)
  let some dev := vfioDev.dev | perform .oops >>= Empty.elim
  perform (.dmaUnmapSgtable dev sgtable dir DMA_ATTR_PRIVILEGED)
  perform (.fput file)
  unmapFinish ctx kiusr smap dmabuf attach

/-- The unmapping of the fixed IOVA in `kiumd_dmabuf_vfio_unmap`. -/
def unmapIovaZero (ctx : Nat) (kiusr : KiumdUser) (smap : Nat) (dmabuf : DmaBuf)
    (attach : Attachment) : KProg Int := do
  let some iommuDom ← kiumdGetIommuDomain kiusr.vfioFd | return -EINVAL
  let size ← perform (.iommuUnmap iommuDom 0 dmabuf.size)
  if size ≠ dmabuf.size then
    return -EINVAL
  unmapFinish ctx kiusr smap dmabuf attach

/-- The release work of `kiumd_dmabuf_vfio_unmap` on the entry found. -/
def unmapRelease (ctx : Nat) (kiusr : KiumdUser) (smap : Nat) : KProg Int := do
  let some dmabuf := (← perform (.readSmap smap)).dmabufPtr | return -EINVAL
  let some attach := (← perform (.readSmap smap)).dmabufattach | return -EINVAL
  clearMapIova kiusr.dmaAddr dmabuf.size kiusr.ptselect
  let dir := if kiusr.dmaDirection = 1 then kiusr.dmaDirection else 0
  if kiusr.dmaAttr = DMA_ATTR_PRIVILEGED ∧ kiusr.isIovaZero ≠ FIXED_IOVA_AT_ZERO then
    let some file ← perform (.fget kiusr.vfioFd) | return -EINVAL
    unmapPrivileged ctx kiusr smap dmabuf attach dir file
  else
    let some sgt := (← perform (.readSmap smap)).sgtPtr | return -EINVAL
    perform (.dmaBufUnmapAttachment attach sgt dir)
    if kiusr.isIovaZero = FIXED_IOVA_AT_ZERO then
      unmapIovaZero ctx kiusr smap dmabuf attach
    else
      unmapFinish ctx kiusr smap dmabuf attach

/-- `kiumd_dmabuf_vfio_unmap`. -/
def kiumdDmabufVfioUnmap (kiusr : KiumdUser) (fp : Option (Option Nat)) : KProg Int := do
  let some privateData := fp | return -EINVAL
  let some ctx := privateData | return -EINVAL
  if ¬ (← perform (.copyFromUser (.user kiusr))) then
    return -EFAULT
  if kiusr.id.toInt < 0 then
    return -EFAULT
  let some smap ← perform (.smmuFind ctx kiusr.id) | return -ENOENT
  unmapRelease ctx kiusr smap

end SafeLinux.Kiumd
