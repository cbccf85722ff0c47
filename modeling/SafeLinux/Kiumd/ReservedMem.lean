import SafeLinux.Kiumd.Device

/-!
# Reserved memory of a device

`kiumd_vfio_ctx_init`, which reads the reserved memory regions of a device into a context, and
`kiumd_mmap`, which maps one of them to user space.
-/

namespace SafeLinux.Kiumd

open Effects
open Effects.Program (perform)

/-- The loop of `kiumd_vfio_ctx_init` over the regions from `index` on. The result is the status
and the `mem_info` array of the ioctl. -/
def ctxInitRegions (dev : Device) (area : Nat) :
    (count index : Nat) → List KiumdMemInfo → KProg (Except Int (List KiumdMemInfo))
  | 0, _, memInfo => return .ok memInfo
  | count + 1, index, memInfo => do
      match ← perform (.ofParsePhandle dev index) with
      | none => ctxInitRegions dev area count (index + 1) memInfo
      | some node =>
          match ← perform (.ofAddressToResource node index) with
          | none =>
              perform (.ofNodePut node)
              perform (.kfreeResMem area)
              return .error (-EINVAL)
          | some (first, last) =>
              perform (.ofNodePut node)
              let size := last - first + 1
              perform (.writeResMem area index ⟨size, first⟩)
              perform (.writeMemInfo index ⟨0, size.setWidth 32⟩)
              ctxInitRegions dev area count (index + 1)
                (memInfo.set index ⟨0, size.setWidth 32⟩)

/-- `kiumd_vfio_ctx_init`. -/
def kiumdVfioCtxInit (kiusr : KiumdDevMemInfo) (fp : Option (Option Nat)) : KProg Int := do
  let some privateData := fp | return -EINVAL
  let some ctx := privateData | return -EINVAL
  if ¬ (← perform (.copyFromUser (.memInfo kiusr))) then
    return -EINVAL
  let some vfioDev ← kiumdGetVfioDevice kiusr.vfioFd | return -EINVAL
  let some dev := vfioDev.dev | return -EINVAL
  if ¬ (← perform (.devOfNode dev)) then
    return -EINVAL
  let count ← perform (.ofPropertyCountElems dev)
  perform (.setNumReservedRegions ctx count)
  if count ≤ 0 then
    return -EINVAL
  let resMemArea ← perform (.kcallocResMem (count.toNat + 1))
  perform (.setResMemArea ctx resMemArea)
  let some area := resMemArea | return -EINVAL
  match ← ctxInitRegions dev area count.toNat 0 kiusr.memInfo with
  | .error ret => return ret
  | .ok memInfo =>
      if ¬ (← perform (.copyToUser (.memInfo
          { kiusr with numRegions := BitVec.ofInt 32 count, memInfo := memInfo }))) then
        perform (.kfreeResMem area)
        return -EFAULT
      return 0

/-- `struct vm_area_struct`, the fields `kiumd_mmap` reads. -/
structure VmAreaStruct where
  vmStart : U64
  vmEnd : U64
  vmPgoff : U64
  deriving DecidableEq, Inhabited

/-- `kiumd_mmap`; `index₀` is the indeterminate first value of `index`, with which the alignment
test reads the array before the variable is set. -/
def kiumdMmap (index₀ : U64) (vma : VmAreaStruct) (fp : Option (Option Nat)) : KProg Int := do
  let some privateData := fp | return -EINVAL
  let some ctx := privateData | return -EINVAL
  let kictx ← perform (.readCtx ctx)
  let some area := kictx.resMemArea | return -EINVAL
  if vma.vmEnd < vma.vmStart then
    return -EINVAL
  -- the `int` is converted to `unsigned long`
  if BitVec.ofInt 64 kictx.numReservedRegions ≤ vma.vmPgoff then
    return -EINVAL
  let entry ← perform (.readResMem area index₀)
  if entry.base &&& 0xfff#64 ≠ 0 then
    return -EINVAL
  let reqLen := vma.vmEnd - vma.vmStart
  let index := vma.vmPgoff
  let entry ← perform (.readResMem area index)
  perform (.remapPfnRange vma.vmStart (entry.base >>> PAGE_SHIFT) reqLen)

end SafeLinux.Kiumd
