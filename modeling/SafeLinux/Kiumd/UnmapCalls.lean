import SafeLinux.Kiumd.Footprint
import SafeLinux.Kiumd.Mmio
import SafeLinux.Kiumd.Secure

/-!
# The calls of the unmap ioctls

`KCall.unmaps` lists the calls that UNMAP_BUF, SECURE_UNMAP and MMIO_UNMAP make: they look up an
entry and read it, release what it records and delete it. None of them creates or rewrites an entry,
maps a buffer or inverts page links.
-/

namespace SafeLinux.Kiumd

open Effects
open Effects.Program (perform)

/-- The calls an unmap ioctl makes. -/
def KCall.unmaps : {β : Type} → KCall β → Bool
  | _, .oops | _, .copyFromUser _ | _, .copyStructFromUser _ _ | _, .kmallocArray | _, .kfree _
  | _, .readSmap _ | _, .readMmioCtx _ | _, .smmuFind _ _ | _, .smmuFindMmio _ _
  | _, .smmuDel _ _ | _, .smmuDelMmio _ _ | _, .fget _ | _, .fput _ | _, .vfioFileIsValid _
  | _, .iommuGetDmaDomain _ | _, .pgtblTtbr _ | _, .iommuUnmap _ _ _ | _, .iommuFlushIotlbAll _
  | _, .dmaBufPut _ | _, .dmaBufDetach _ _ | _, .dmaBufUnmapAttachment _ _ _
  | _, .dmaUnmapSgtable _ _ _ _ | _, .dmaUnmapResource _ _ _ | _, .bitmapClear _ _ _
  | _, .qcomScmAssignMem _ _ _ => true
  | _, _ => false

def UnmapCall : (β : Type) → KCall β → Prop := fun _ request => request.unmaps = true

variable {β : Type} {request : KCall β} {answer : β} {w w' : World}

/-- The unmap ioctls rewrite no entry. -/
theorem UnmapCall.smaps (h : UnmapCall β request)
    (hstep : kernelStep request w answer = some w') : w'.smaps = w.smaps := by
  have hsmaps : w.Agrees w' .smaps := by
    refine step_agrees hstep fun hwrites => ?_
    cases request <;> first | (cases h; done) | simp [KCall.writes] at hwrites
  exact hsmaps

section Programs

variable {file : File} {d : DmaBuf} {a : Attachment} {t : SgTable} {u : KiumdUser} {ret dir : Int}
  {fp : Option (Option Nat)} {c p : Nat} {acl : AclLists} {page src : U64}
  {dst : List QcomScmVmperm} {sgl : List SgEntry} {vmids : List Int}

theorem mapFailFput_unmaps : (mapFailFput file ret).Only UnmapCall :=
  .then rfl fun _ => .pure _

theorem kiumdGetVfioDevice_unmaps {fd : Int} : (kiumdGetVfioDevice fd).Only UnmapCall := by
  unfold kiumdGetVfioDevice
  split
  · exact .pure _
  refine .then rfl fun file => ?_
  split
  · refine .then rfl fun valid => ?_
    split
    · exact .then rfl fun _ => .pure _
    · split <;> exact .then rfl fun _ => .pure _
  · exact .pure _

theorem kiumdGetIommuDomain_unmaps {fd : Int} : (kiumdGetIommuDomain fd).Only UnmapCall := by
  refine kiumdGetVfioDevice_unmaps.bind fun v => ?_
  split
  · split
    · exact .perform rfl
    · exact .then rfl fun answer => answer.elim
  · exact .pure _

/-! ## UNMAP_BUF -/

theorem unmapFinish_unmaps : (unmapFinish c u p d a).Only UnmapCall := by
  have hdelete : ∀ {ret : Int}, (do
      perform (.smmuDel c p)
      perform (.dmaBufDetach d a)
      perform (.dmaBufPut d)
      return ret : KProg Int).Only UnmapCall :=
    .then rfl fun _ => .then rfl fun _ => .then rfl fun _ => .pure _
  unfold unmapFinish
  split
  · refine kiumdGetIommuDomain_unmaps.bind fun domain => ?_
    split
    · exact .then rfl fun _ => hdelete
    · exact .pure _
  · exact hdelete

theorem unmapPrivileged_unmaps : (unmapPrivileged c u p d a dir file).Only UnmapCall := by
  have hoops : (perform .oops >>= Empty.elim : KProg Int).Only UnmapCall :=
    .then rfl fun answer => answer.elim
  unfold unmapPrivileged
  split
  · split
    · split
      · split
        · split
          · exact .then rfl fun _ => .then rfl fun _ => unmapFinish_unmaps
          · exact hoops
        · exact mapFailFput_unmaps
      · exact mapFailFput_unmaps
    · exact mapFailFput_unmaps
  · exact hoops

theorem unmapRelease_unmaps : (unmapRelease c u p).Only UnmapCall := by
  have hzero : ∀ {d : DmaBuf} {a : Attachment}, (unmapIovaZero c u p d a).Only UnmapCall := by
    intro d a
    refine kiumdGetIommuDomain_unmaps.bind fun domain => ?_
    split
    · refine .then rfl fun size => ?_
      split
      · exact .pure _
      · exact unmapFinish_unmaps
    · exact .pure _
  have hclear : ∀ {iova size : U64} {ptselect : Int},
      (clearMapIova iova size ptselect).Only UnmapCall := by
    intro iova size ptselect
    unfold clearMapIova
    split
    · exact .perform rfl
    · exact .pure _
  unfold unmapRelease
  refine .then rfl fun data => ?_
  split
  · refine .then rfl fun data' => ?_
    split
    · refine hclear.bind fun _ => ?_
      dsimp only
      split
      · refine .then rfl fun file => ?_
        split
        · exact unmapPrivileged_unmaps
        · exact .pure _
      · refine .then rfl fun data'' => ?_
        split
        · refine .then rfl fun _ => ?_
          split
          · exact hzero
          · exact unmapFinish_unmaps
        · exact .pure _
    · exact .pure _
  · exact .pure _

theorem kiumdDmabufVfioUnmap_unmaps : (kiumdDmabufVfioUnmap u fp).Only UnmapCall := by
  unfold kiumdDmabufVfioUnmap
  split
  · split
    · refine .then rfl fun copied => ?_
      split
      · exact .pure _
      split
      · exact .pure _
      refine .then rfl fun found => ?_
      split
      · exact unmapRelease_unmaps
      · exact .pure _
    · exact .pure _
  · exact .pure _

/-! ## SECURE_UNMAP -/

theorem hypAssignEntries_unmaps : (hypAssignEntries src dst sgl).Only UnmapCall := by
  induction sgl with
  | nil => exact .pure _
  | cons sg rest ih =>
      refine .then rfl fun ret => ?_
      split
      · exact .pure _
      · exact ih

theorem kiumdHypUnassignSg_unmaps : (kiumdHypUnassignSg (.ptr t) vmids).Only UnmapCall := by
  unfold kiumdHypUnassignSg
  split
  · exact .pure _
  · dsimp only
    split
    · exact .pure _
    · exact hypAssignEntries_unmaps

theorem aclEntries_unmaps {list count index : Nat} :
    (aclEntries list count index).Only UnmapCall := by
  induction count generalizing index with
  | zero => exact .pure _
  | succ count ih =>
      refine .then rfl fun entry => ?_
      cases entry with
      | error ret => exact .pure _
      | ok entry =>
          dsimp only
          split
          · exact .pure _
          · refine ih.bind fun lists => ?_
            cases lists <;> exact .pure _

theorem kiumdAclToVmidPermsList_unmaps {parcel : KiumdMemParcel} :
    (kiumdAclToVmidPermsList parcel).Only UnmapCall := by
  unfold kiumdAclToVmidPermsList
  split
  · exact .pure _
  split
  · exact .pure _
  refine .then rfl fun vmidsPtr => ?_
  split
  swap
  · exact .pure _
  refine .then rfl fun permsPtr => ?_
  split
  swap
  · exact .then rfl fun _ => .pure _
  refine aclEntries_unmaps.bind fun lists => ?_
  cases lists with
  | error ret => exact .then rfl fun _ => .then rfl fun _ => .pure _
  | ok lists => exact .pure _

theorem kiumdGetPgd_unmaps {dev : Device} : (kiumdGetPgd dev).Only UnmapCall := by
  refine .then rfl fun domain => ?_
  split
  · refine .then rfl fun ttbr => ?_
    split <;> exact .pure _
  · exact .pure _

theorem secureCloseFile_unmaps : (secureCloseFile file ret).Only UnmapCall :=
  .then rfl fun _ => .pure _

theorem secureFreeMem_unmaps : (secureFreeMem file acl ret).Only UnmapCall :=
  .then rfl fun _ => .then rfl fun _ => secureCloseFile_unmaps

theorem secureTakeBack_unmaps : (secureTakeBack c file acl page p a t).Only UnmapCall := by
  refine kiumdHypUnassignSg_unmaps.bind fun ret => ?_
  split
  · exact secureFreeMem_unmaps
  refine .then rfl fun ret => ?_
  split
  · exact secureFreeMem_unmaps
  refine .then rfl fun data => ?_
  split
  · exact .then rfl fun _ => .then rfl fun _ => .then rfl fun _ => secureFreeMem_unmaps
  · exact secureFreeMem_unmaps

theorem secureUnmapRelease_unmaps : (secureUnmapRelease c file acl page p).Only UnmapCall := by
  refine .then rfl fun data => ?_
  split
  · refine .then rfl fun data' => ?_
    split
    · exact .then rfl fun _ => secureTakeBack_unmaps
    · exact secureFreeMem_unmaps
  · exact secureFreeMem_unmaps

theorem kiumdDmabufVfioSecureUnmap_unmaps :
    (kiumdDmabufVfioSecureUnmap u fp).Only UnmapCall := by
  unfold kiumdDmabufVfioSecureUnmap
  split
  swap
  · exact .pure _
  split
  swap
  · exact .pure _
  refine .then rfl fun copied => ?_
  split
  · exact .pure _
  split
  · exact .pure _
  refine .then rfl fun found => ?_
  split
  swap
  · exact .pure _
  split
  · exact .pure _
  refine .then rfl fun file => ?_
  split
  swap
  · exact .pure _
  split
  swap
  · exact .then rfl fun answer => answer.elim
  split
  swap
  · exact secureCloseFile_unmaps
  split
  swap
  · exact secureCloseFile_unmaps
  refine kiumdGetPgd_unmaps.bind fun page => ?_
  split
  · exact secureCloseFile_unmaps
  refine kiumdAclToVmidPermsList_unmaps.bind fun acl => ?_
  split
  · exact secureCloseFile_unmaps
  · exact secureUnmapRelease_unmaps

/-! ## MMIO_UNMAP -/

theorem kiumdMmioSmmuUnmap_unmaps {m : KiumdSmmuMmioMap} :
    (kiumdMmioSmmuUnmap m fp).Only UnmapCall := by
  unfold kiumdMmioSmmuUnmap
  split
  swap
  · exact .pure _
  split
  swap
  · exact .pure _
  refine .then rfl fun copied => ?_
  split
  · exact .pure _
  split
  · exact .pure _
  refine .then rfl fun found => ?_
  split
  swap
  · exact .pure _
  refine .then rfl fun data => ?_
  split
  · exact .then rfl fun _ => .then rfl fun _ => .then rfl fun _ => .pure _
  · exact .pure _

end Programs

end SafeLinux.Kiumd
