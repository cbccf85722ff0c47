import SafeLinux.Kiumd.MapBuf

/-!
# Secure mappings

`kiumd_dmabuf_vfio_secure_map` and `kiumd_dmabuf_vfio_secure_unmap`, which hand the memory of a
buffer and the page-table page of the device to other virtual machines and take them back.
-/

namespace SafeLinux.Kiumd

open Effects
open Effects.Program (perform)

/-- `BIT(vmid)`; a shift by 64 or more takes its distance modulo 64 on arm64. -/
def vmidBit (vmid : Int) : U64 := 1#64 <<< (vmid.toNat % 64)

/-- The bit mask of a list of virtual machines. -/
def vmidMask (vmids : List Int) : U64 := vmids.foldl (fun mask v => mask ||| vmidBit v) 0

/-- The destination of every take-back: HLOS alone, with all rights. -/
def hlosAlone : List QcomScmVmperm := [⟨QCOM_SCM_VMID_HLOS, QCOM_SCM_PERM_RWX⟩]

/-- `kiumd_io_pgtable_hyp_assign_page`. -/
def kiumdIoPgtableHypAssignPage (vmids : List Int) (page : U64) : KProg Int := do
  let some dst ← perform .kmallocArray | return -ENOMEM
  let ret ← perform (.qcomScmAssignMem (.pgd page) (vmidBit QCOM_SCM_VMID_HLOS)
    (⟨QCOM_SCM_VMID_HLOS, QCOM_SCM_PERM_RW⟩ ::
      vmids.map fun vmid => ⟨vmid, QCOM_SCM_PERM_READ⟩))
  perform (.kfree dst)
  return ret

/-- `kiumd_io_pgtable_hyp_unassign_page`. -/
def kiumdIoPgtableHypUnassignPage (vmids : List Int) (page : U64) : KProg Int :=
  perform (.qcomScmAssignMem (.pgd page) (vmidBit QCOM_SCM_VMID_HLOS ||| vmidMask vmids) hlosAlone)

/-- The loop of `kiumd_hyp_assign_sg` and `kiumd_hyp_unassign_sg` over a scatterlist; it stops at
the first entry that cannot be assigned. -/
def hypAssignEntries (src : U64) (dst : List QcomScmVmperm) : List SgEntry → KProg Int
  | [] => return 0
  | sg :: rest => do
      let ret ← perform (.qcomScmAssignMem (.sg sg) src dst)
      if ret ≠ 0 then
        return ret
      hypAssignEntries src dst rest

/-- `kiumd_hyp_unassign_sg`; the page flags it clears are read nowhere. -/
def kiumdHypUnassignSg (sgt : KPtr SgTable) (sourceVmList : List Int) : KProg Int := do
  if sourceVmList.length ≤ 0 then
    return -EINVAL
  match sgt with
  | .null => return -EINVAL
  | .err _ => perform .oops >>= Empty.elim
  | .ptr table =>
      if table.sgl.isEmpty then
        return -EINVAL
      hypAssignEntries (vmidMask sourceVmList) hlosAlone table.sgl

/-- `kiumd_hyp_assign_sg`. -/
def kiumdHypAssignSg (sgt : SgTable) (destVmList destPerms : List Int) : KProg Int := do
  if destVmList.length ≤ 0 then
    return -EINVAL
  if sgt.sgl.isEmpty then
    return -EINVAL
  let some dst ← perform .kmallocArray | return -ENOMEM
  let ret ← hypAssignEntries (vmidBit QCOM_SCM_VMID_HLOS)
    (destVmList.zipWith QcomScmVmperm.mk destPerms) sgt.sgl
  perform (.kfree dst)
  return ret

/-- The lists `kiumd_acl_to_vmid_perms_list` allocates and fills. -/
structure AclLists where
  vmidsPtr : Nat
  permsPtr : Nat
  vmids : List Int
  perms : List Int

/-- The test `kiumd_acl_to_vmid_perms_list` makes on every entry. -/
def aclEntryOk (entry : KiumdAclEntry) : Bool :=
  ¬ (entry.vmid.toInt < 0 ∨ entry.perms.toInt < 0 ∨ entry.vmid.toInt > KIUMD_MAX_VMID ∨
    entry.perms.toInt > KIUMD_MAX_PERMS)

/-- The loop of `kiumd_acl_to_vmid_perms_list` over the entries from `index` on. -/
def aclEntries (list : Nat) : (count index : Nat) → KProg (Except Int (List Int × List Int))
  | 0, _ => return .ok ([], [])
  | count + 1, index => do
      match ← perform (.copyStructFromUser list index) with
      | .error ret => return .error ret
      | .ok entry =>
          if ¬ aclEntryOk entry then
            return .error (-EINVAL)
          match ← aclEntries list count (index + 1) with
          | .error ret => return .error ret
          | .ok (vmids, perms) =>
              return .ok (entry.vmid.toInt :: vmids, entry.perms.toInt :: perms)

/-- `kiumd_acl_to_vmid_perms_list`. -/
def kiumdAclToVmidPermsList (parcel : KiumdMemParcel) : KProg (Except Int AclLists) := do
  if parcel.nrAclEntries = 0 ∨ parcel.aclList = 0 then
    return .error (-EINVAL)
  if parcel.nrAclEntries.toNat > MAX_KIUMD_ACL_ENTRIES then
    return .error (-EINVAL)
  let some vmidsPtr ← perform .kmallocArray | return .error (-ENOMEM)
  let some permsPtr ← perform .kmallocArray | do
    perform (.kfree vmidsPtr)
    return .error (-ENOMEM)
  match ← aclEntries parcel.aclList parcel.nrAclEntries.toNat 0 with
  | .error ret =>
      perform (.kfree permsPtr)
      perform (.kfree vmidsPtr)
      return .error ret
  | .ok (vmids, perms) => return .ok ⟨vmidsPtr, permsPtr, vmids, perms⟩

/-- `kiumd_get_pgd`. -/
def kiumdGetPgd (dev : Device) : KProg (Except Int U64) := do
  let some domain ← perform (.iommuGetDmaDomain dev) | return .error (-EINVAL)
  let some ttbr ← perform (.pgtblTtbr domain) | return .error (-EINVAL)
  return .ok ttbr

/-- The label `close_file` of the secure ioctls. -/
def secureCloseFile (file : File) (ret : Int) : KProg Int := do
  perform (.fput file)
  return ret

/-- The label `free_mem`. -/
def secureFreeMem (file : File) (acl : AclLists) (ret : Int) : KProg Int := do
  perform (.kfree acl.vmidsPtr)
  perform (.kfree acl.permsPtr)
  secureCloseFile file ret

/-- The label `detach`. -/
def secureDetach (file : File) (acl : AclLists) (dmabuf : DmaBuf) (attach : Attachment)
    (ret : Int) : KProg Int := do
  perform (.dmaBufDetach dmabuf attach)
  perform (.dmaBufPut dmabuf)
  secureFreeMem file acl ret

/-- The label `hyp_unassign_table`. -/
def secureUnassignTable (file : File) (acl : AclLists) (dmabuf : DmaBuf) (attach : Attachment)
    (pgd : U64) (ret : Int) : KProg Int := do
  let _ ← kiumdIoPgtableHypUnassignPage acl.vmids pgd
  secureDetach file acl dmabuf attach ret

/-- The label `hyp_unassign_sg`. -/
def secureUnassignSg (file : File) (acl : AclLists) (dmabuf : DmaBuf) (attach : Attachment)
    (pgd : U64) (sgt : KPtr SgTable) (ret : Int) : KProg Int := do
  let _ ← kiumdHypUnassignSg sgt acl.vmids
  secureUnassignTable file acl dmabuf attach pgd ret

/-- The end of `kiumd_dmabuf_vfio_secure_map`: report the mapping to the user. -/
def secureMapReply (kiusr : KiumdUser) (file : File) (acl : AclLists) (dmabuf : DmaBuf)
    (attach : Attachment) (pgd : U64) (sgt : SgTable) : KProg Int := do
  if ¬ (← perform (.copyToUser (.user kiusr))) then
    perform (.dmaBufUnmapAttachment attach sgt DMA_BIDIRECTIONAL)
    secureUnassignSg file acl dmabuf attach pgd (.ptr sgt) (-EFAULT)
  else
    perform (.kfree acl.vmidsPtr)
    perform (.kfree acl.permsPtr)
    perform (.fput file)
    return 0

/-- The part of `kiumd_dmabuf_vfio_secure_map` that records the mapping in the context. -/
def secureMapPublish (kiusr : KiumdUser) (fp : Option (Option Nat)) (file : File)
    (acl : AclLists) (dmabuf : DmaBuf) (attach : Attachment) (pgd : U64)
    (sgt : Option SgTable) : KProg Int := do
  let some privateData := fp | secureCloseFile file (-EINVAL)
  let some ctx := privateData | secureCloseFile file (-EINVAL)
  let some smap ← perform .kzallocSmap | secureCloseFile file (-ENOMEM)
  let id ← perform (.smmuAdd ctx smap
    { dmabufattach := some attach, sgtPtr := sgt, dmabufPtr := some dmabuf })
  let some sgt := sgt | perform .oops >>= Empty.elim
  let dmaAddr ← perform (.sgDmaAddress sgt)
  secureMapReply { kiusr with id := id, dmaAddr := dmaAddr } file acl dmabuf attach pgd sgt

/-- The part of `kiumd_dmabuf_vfio_secure_map` that hands the memory over and maps it. -/
def secureMapAttached (kiusr : KiumdUser) (fp : Option (Option Nat)) (file : File)
    (acl : AclLists) (dmabuf : DmaBuf) (attach : Attachment) (pgd : U64) : KProg Int := do
  let some heapAttachment := attach.priv | secureDetach file acl dmabuf attach (-EINVAL)
  let some table := heapAttachment | secureDetach file acl dmabuf attach (-EINVAL)
  if table.sgl.isEmpty then
    secureDetach file acl dmabuf attach (-EINVAL)
  else
    let ret ← kiumdIoPgtableHypAssignPage acl.vmids pgd
    if ret < 0 then
      secureDetach file acl dmabuf attach ret
    else
      let ret ← kiumdHypAssignSg table acl.vmids acl.perms
      if ret < 0 then
        secureUnassignTable file acl dmabuf attach pgd ret
      else
        match ← perform (.dmaBufMapAttachment attach
            (if kiusr.dmaDirection = 1 then kiusr.dmaDirection else 0)) with
        | .err ret => secureUnassignSg file acl dmabuf attach pgd (.err ret) ret
        | .null => secureMapPublish kiusr fp file acl dmabuf attach pgd none
        | .ptr sgt => secureMapPublish kiusr fp file acl dmabuf attach pgd (some sgt)

/-- `kiumd_dmabuf_vfio_secure_map`. -/
def kiumdDmabufVfioSecureMap (kiusr : KiumdUser) (fp : Option (Option Nat)) : KProg Int := do
  if ¬ (← perform (.copyFromUser (.user kiusr))) then
    return -EFAULT
  if kiusr.vfioFd < 0 then
    return -EBADF
  let some file ← perform (.fget kiusr.vfioFd) | return -EBADF
  let some device := file.privateData | perform .oops >>= Empty.elim
  let some vfioDev := device | secureCloseFile file (-EINVAL)
  let some dev := vfioDev.dev | secureCloseFile file (-EINVAL)
  match ← kiumdGetPgd dev with
  | .error ret => secureCloseFile file ret
  | .ok pgd =>
      let buffer ← perform (.dmaBufGet kiusr.dmaBufFd)
      let .ptr dmabuf := buffer | secureCloseFile file (buffer.errOr (-EINVAL))
      match ← kiumdAclToVmidPermsList kiusr.memParcel with
      | .error ret => secureCloseFile file ret
      | .ok acl =>
          match ← perform (.dmaBufAttach dmabuf dev) with
          | .error ret => secureFreeMem file acl ret
          | .ok attach => secureMapAttached kiusr fp file acl dmabuf attach pgd

/-- The part of `kiumd_dmabuf_vfio_secure_unmap` that takes the memory back and releases it. -/
def secureTakeBack (ctx : Nat) (file : File) (acl : AclLists) (pgd : U64) (smap : Nat)
    (attach : Attachment) (sgt : SgTable) : KProg Int := do
  let ret ← kiumdHypUnassignSg (.ptr sgt) acl.vmids
  if ret < 0 then
    secureFreeMem file acl ret
  else
    let ret ← kiumdIoPgtableHypUnassignPage acl.vmids pgd
    if ret < 0 then
      secureFreeMem file acl (-EINVAL)
    else
      let some dmabuf := (← perform (.readSmap smap)).dmabufPtr | secureFreeMem file acl (-EINVAL)
      perform (.dmaBufDetach dmabuf attach)
      perform (.dmaBufPut dmabuf)
      perform (.smmuDel ctx smap)
      secureFreeMem file acl ret

/-- The release work of `kiumd_dmabuf_vfio_secure_unmap` on the entry found. -/
def secureUnmapRelease (ctx : Nat) (file : File) (acl : AclLists) (pgd : U64) (smap : Nat) :
    KProg Int := do
  let some attach := (← perform (.readSmap smap)).dmabufattach | secureFreeMem file acl (-EINVAL)
  let some sgt := (← perform (.readSmap smap)).sgtPtr | secureFreeMem file acl (-EINVAL)
  perform (.dmaBufUnmapAttachment attach sgt DMA_BIDIRECTIONAL)
  secureTakeBack ctx file acl pgd smap attach sgt

/-- `kiumd_dmabuf_vfio_secure_unmap`. -/
def kiumdDmabufVfioSecureUnmap (kiusr : KiumdUser) (fp : Option (Option Nat)) : KProg Int := do
  let some privateData := fp | return -EINVAL
  let some ctx := privateData | return -EINVAL
  if ¬ (← perform (.copyFromUser (.user kiusr))) then
    return -EFAULT
  if kiusr.id.toInt < 0 then
    return -EFAULT
  let some smap ← perform (.smmuFind ctx kiusr.id) | return -ENOENT
  if kiusr.vfioFd < 0 then
    return -EBADF
  let some file ← perform (.fget kiusr.vfioFd) | return -EBADF
  let some device := file.privateData | perform .oops >>= Empty.elim
  let some vfioDev := device | secureCloseFile file (-EINVAL)
  let some dev := vfioDev.dev | secureCloseFile file (-EINVAL)
  match ← kiumdGetPgd dev with
  | .error ret => secureCloseFile file ret
  | .ok pgd =>
      match ← kiumdAclToVmidPermsList kiusr.memParcel with
      | .error ret => secureCloseFile file ret
      | .ok acl => secureUnmapRelease ctx file acl pgd smap

end SafeLinux.Kiumd
