import SafeLinux.Kiumd.Device

/-!
# Closing a context

`kiumd_close`, which releases what is left in a context's hash table and xarray.
-/

namespace SafeLinux.Kiumd

open Effects
open Effects.Program (perform)

/-- The first part of the loop body of `kiumd_close`: an MMIO mapping. -/
def closeMmio (data : SmmuMapData) : KProg Unit := do
  if let some m := data.context then
    let mmio ← perform (.readMmioCtx m)
    perform (.dmaUnmapResource mmio.dev mmio.iova mmio.size)
    perform (.kfreeMmioCtx m)

/-- The end of the loop body. -/
def closeDelete (ctx smap : Nat) : KProg Unit := do
  perform (.hashDel ctx smap)
  perform (.kfreeSmap smap)

/-- Detach a buffer that is attached. -/
def closeAttachment (data : SmmuMapData) (dmabuf : DmaBuf) : KProg Unit := do
  if let some attach := data.dmabufattach then
    perform (.dmaBufDetach dmabuf attach)

/-- The end of the part for a buffer: detach it and drop its reference. -/
def closeDetach (ctx smap : Nat) (data : SmmuMapData) (dmabuf : DmaBuf) : KProg Unit := do
  closeAttachment data dmabuf
  perform (.dmaBufPut dmabuf)
  closeDelete ctx smap

/-- Unmap a buffer that is mapped. -/
def closeMapping (data : SmmuMapData) : KProg Unit := do
  if let (some attach, some sgt) := (data.dmabufattach, data.sgtPtr) then
    perform (.dmaBufUnmapAttachment attach sgt data.dmaDir)

/-- The unmapping of a buffer that is not in a KGSL page table. -/
def closeUnmap (ctx smap : Nat) (data : SmmuMapData) (dmabuf : DmaBuf) (iommuDom : Domain) :
    KProg Unit := do
  closeMapping data
  if data.isIovaZero = FIXED_IOVA_AT_ZERO then
    -- the result is stored in an `int`
    let ret := (← perform (.iommuUnmap iommuDom 0 dmabuf.size)).setWidth 32
    if ret.signExtend 64 ≠ dmabuf.size then
      return ()
    closeDetach ctx smap data dmabuf
  else
    closeDetach ctx smap data dmabuf

/-- The loop body of `kiumd_close`; a `continue` leaves the entry in the table. -/
def closeEntry (ctx smap : Nat) : KProg Unit := do
  let data ← perform (.readSmap smap)
  closeMmio data
  let some dmabuf := data.dmabufPtr | closeDelete ctx smap
  let some vfioDev := data.vfioDev | perform .oops >>= Empty.elim
  let some dev := vfioDev.dev | perform .oops >>= Empty.elim
  let some iommuDom ← perform (.iommuGetDmaDomain dev) | return ()
  if IsKgsl data.ptselect ∨ data.ptselect = KGSL_DEFAULT_PT then
    return ()
  closeUnmap ctx smap data dmabuf iommuDom

/-- The loop of `kiumd_close` over the hash table. -/
def closeEntries (ctx : Nat) : List Nat → KProg Unit
  | [] => return ()
  | smap :: rest => do
      closeEntry ctx smap
      closeEntries ctx rest

/-- Drop `count` references. -/
def putTimes (dmabuf : DmaBuf) : Nat → KProg Unit
  | 0 => return ()
  | count + 1 => do
      perform (.dmaBufPut dmabuf)
      putTimes dmabuf count

/-- Drop the references a handle counts. -/
def putHandle (handle : DmaBufHandle) : KProg Unit := do
  if let .ptr dmabuf := handle.dmabuf then
    putTimes dmabuf handle.handleRefcount.toNat

/-- The loop of `kiumd_close` over the xarray. -/
def closeHandles : List (Nat × Nat) → KProg Unit
  | [] => return ()
  | (_, p) :: rest => do
      let handle ← perform (.readHandle p)
      putHandle handle
      perform (.kfreeHandle p)
      closeHandles rest

/-- Free the array of reserved regions. -/
def closeResMem (resMemArea : Option Nat) : KProg Unit := do
  if let some p := resMemArea then
    perform (.kfreeResMem p)

/-- Release the handles that are left. -/
def closeXarray (ctx : Nat) (kiumdXa : List (Nat × Nat)) : KProg Unit := do
  if ¬ kiumdXa.isEmpty then
    closeHandles kiumdXa
    perform (.xaDestroy ctx)

/-- The end of `kiumd_close`: release what the context has besides its hash table, and free it. -/
def closeRest (ctx : Nat) : KProg Int := do
  let kictx ← perform (.readCtx ctx)
  closeResMem kictx.resMemArea
  closeXarray ctx kictx.kiumdXa
  perform (.kfreeCtx ctx)
  return 0

/-- `kiumd_close`. -/
def kiumdClose (privateData : Option Nat) : KProg Int := do
  let some ctx := privateData | return -EINVAL
  let entries ← perform (.hashEntries ctx)
  closeEntries ctx entries
  closeRest ctx

end SafeLinux.Kiumd
