import SafeLinux.Effects.Run
import SafeLinux.Linux.Types

/-!
# The DMA-buffer operations of the heaps

`qcom_sg_ops.c`: attaching to a buffer, mapping and unmapping an attachment, and the
synchronisation for access by the CPU. `SgCall` lists what the operations ask of the kernel and
their accesses to the buffer and its attachments; messages are left out. `SgState` has the
attachments of all buffers and, which the driver does not keep, the DMA mappings of their tables.

The pages of the tables are left out: a duplicated table has the pages of the buffer's table. An
access to an attachment that is detached, and so freed, has no meaning here.
-/

namespace SafeLinux.SgOps

open Effects
open Effects.Program (perform)

/-- `struct dma_heap_attachment`, with the buffer in whose list it is. -/
structure DmaHeapAttachment where
  buffer : Nat
  id : Nat
  mapped : Bool
  deriving DecidableEq

/-- The buffers with their attachments, the latest first, and the DMA mappings. -/
structure SgState where
  attachments : List DmaHeapAttachment
  /-- How many DMA mappings the table of an attachment has. -/
  live : Nat → Nat
  vmapCnt : Nat → Int
  vaddr : Nat → Option U64

/-- No buffer has an attachment; some may be mapped in the kernel. -/
def SgState.unattached (vmapCnt : Nat → Int) (vaddr : Nat → Option U64) : SgState :=
  ⟨[], fun _ => 0, vmapCnt, vaddr⟩

/-- The ids of the attachments that are not detached. -/
def SgState.ids (s : SgState) : List Nat := s.attachments.map DmaHeapAttachment.id

/-- An attachment, by its id. -/
def SgState.find (s : SgState) (a : Nat) : Option DmaHeapAttachment :=
  s.attachments.find? (·.id == a)

/-- The state in which the field `mapped` of an attachment is written. -/
def SgState.setMapped (s : SgState) (a : Nat) (value : Bool) : SgState :=
  { s with attachments :=
      s.attachments.map fun x => if x.id = a then { x with mapped := value } else x }

/-- The state in which the number of DMA mappings of a table is changed. -/
def SgState.setLive (s : SgState) (a n : Nat) : SgState :=
  { s with live := fun x => if x = a then n else s.live x }

/-! ## Calls -/

/-- What the operations ask of the kernel, with the buffer or the attachment it is about. -/
inductive SgCall : Type → Type where
  /-- `kzalloc`; whether it succeeds. -/
  | kzalloc : SgCall Bool
  | kfree : SgCall Unit
  | sgAllocTable : SgCall Int
  | sgFreeTable : SgCall Unit
  | mutexLock (buffer : Nat) : SgCall Unit
  | mutexUnlock (buffer : Nat) : SgCall Unit
  /-- `list_add` of an attachment just made. -/
  | listAdd (x : DmaHeapAttachment) : SgCall Unit
  | listDel (a : Nat) : SgCall Unit
  /-- The attachments in the list of a buffer. -/
  | readAttachments (buffer : Nat) : SgCall (List Nat)
  | readMapped (a : Nat) : SgCall Bool
  | writeMapped (a : Nat) (value : Bool) : SgCall Unit
  /-- `dma_map_sgtable` of the attachment's table: its return value. -/
  | dmaMapSgtable (a : Nat) (direction attrs : Int) : SgCall Int
  | dmaUnmapSgtable (a : Nat) (direction attrs : Int) : SgCall Unit
  | dmaSyncSgtableForCpu (a : Nat) (direction : Int) : SgCall Unit
  | dmaSyncSgtableForDevice (a : Nat) (direction : Int) : SgCall Unit
  | readVmapCnt (buffer : Nat) : SgCall Int
  | writeVmapCnt (buffer : Nat) (value : Int) : SgCall Unit
  | readVaddr (buffer : Nat) : SgCall (Option U64)
  | writeVaddr (buffer : Nat) (value : Option U64) : SgCall Unit
  | invalidateKernelVmapRange (vaddr : Option U64) : SgCall Unit
  | flushKernelVmapRange (vaddr : Option U64) : SgCall Unit
  /-- `vmalloc` of the array of pages; whether it succeeds. -/
  | vmalloc : SgCall Bool
  | vfree : SgCall Unit
  /-- `vmap` of the pages of a buffer. -/
  | vmap (buffer : Nat) : SgCall (Option U64)
  | vunmap (vaddr : Option U64) : SgCall Unit

/-- What the calls do. -/
def sg : Semantics SgCall SgState where
  step := fun request s answer =>
    match request with
    | .kzalloc | .kfree | .sgAllocTable | .sgFreeTable | .mutexLock _ | .mutexUnlock _
    | .dmaSyncSgtableForCpu _ _ | .dmaSyncSgtableForDevice _ _ | .invalidateKernelVmapRange _
    | .flushKernelVmapRange _ | .vmalloc | .vfree | .vmap _ | .vunmap _ => some s
    | .listAdd x =>
        -- The table of a new attachment has no mapping.
        if x.id ∈ s.ids then none
        else some ({ s with attachments := x :: s.attachments }.setLive x.id 0)
    | .listDel a =>
        if a ∈ s.ids then
          some { s with attachments := s.attachments.filter (·.id != a) }
        else none
    | .readAttachments buffer =>
        if answer = (s.attachments.filter (·.buffer == buffer)).map DmaHeapAttachment.id then some s
        else none
    | .readMapped a =>
        if (s.find a).map DmaHeapAttachment.mapped = some answer then some s else none
    | .writeMapped a value => if a ∈ s.ids then some (s.setMapped a value) else none
    | .dmaMapSgtable a _ _ => if answer = 0 then some (s.setLive a (s.live a + 1)) else some s
    | .dmaUnmapSgtable a _ _ => some (s.setLive a (s.live a - 1))
    | .readVmapCnt buffer => if answer = s.vmapCnt buffer then some s else none
    | .writeVmapCnt buffer value =>
        some { s with vmapCnt := fun b => if b = buffer then value else s.vmapCnt b }
    | .readVaddr buffer => if answer = s.vaddr buffer then some s else none
    | .writeVaddr buffer value =>
        some { s with vaddr := fun b => if b = buffer then value else s.vaddr b }

/-- Programs of the operations. -/
abbrev SgProg (α : Type) := Program SgCall α

/-! ## Attachments -/

/-- `dup_sg_table`; whether it succeeds. -/
def dupSgTable : SgProg Bool := do
  if ¬ (← perform .kzalloc) then
    return false
  let ret ← perform .sgAllocTable
  if ret ≠ 0 then
    perform .kfree
    return false
  return true

/-- `qcom_sg_attach`, of an attachment with an id. -/
def qcomSgAttach (buffer a : Nat) : SgProg Int := do
  if ¬ (← perform .kzalloc) then
    return -ENOMEM
  if ¬ (← dupSgTable) then
    perform .kfree
    return -ENOMEM
  perform (.mutexLock buffer)
  perform (.listAdd ⟨buffer, a, false⟩)
  perform (.mutexUnlock buffer)
  return 0

/-- `qcom_sg_detach` -/
def qcomSgDetach (buffer a : Nat) : SgProg Unit := do
  perform (.mutexLock buffer)
  perform (.listDel a)
  perform (.mutexUnlock buffer)
  perform .sgFreeTable
  perform .kfree
  perform .kfree

/-- `qcom_sg_map_dma_buf`: the table of the attachment, or an error. -/
def qcomSgMapDmaBuf (buffer a : Nat) (direction : Int) : SgProg (Except Int Nat) := do
  perform (.mutexLock buffer)
  let ret ← if ¬ (← perform (.readMapped a)) then
      perform (.dmaMapSgtable a direction 0)
    else pure (-EBUSY)
  if ret ≠ 0 then
    perform (.mutexUnlock buffer)
    return .error ret
  perform (.writeMapped a true)
  perform (.mutexUnlock buffer)
  return .ok a

/-- `qcom_sg_unmap_dma_buf` -/
def qcomSgUnmapDmaBuf (buffer a : Nat) (direction : Int) : SgProg Unit := do
  perform (.mutexLock buffer)
  perform (.writeMapped a false)
  perform (.dmaUnmapSgtable a direction 0)
  perform (.mutexUnlock buffer)

/-! ## Access by the CPU -/

/-- The loop over the attachments of a buffer that synchronises those that are mapped. -/
def syncMapped (sync : Nat → SgCall Unit) : List Nat → SgProg Unit
  | [] => return
  | a :: rest => do
      if ¬ (← perform (.readMapped a)) then
        syncMapped sync rest
      else
        perform (sync a)
        syncMapped sync rest

/-- The access by the CPU to a buffer: `flush` is called with the address of the kernel mapping, if
there is one, and `sync` with each attachment that is mapped. -/
def cpuAccess (flush : Option U64 → SgCall Unit) (sync : Nat → SgCall Unit) (buffer : Nat) :
    SgProg Int := do
  perform (.mutexLock buffer)
  if (← perform (.readVmapCnt buffer)) ≠ 0 then
    let vaddr ← perform (.readVaddr buffer)
    perform (flush vaddr)
  let attachments ← perform (.readAttachments buffer)
  syncMapped sync attachments
  perform (.mutexUnlock buffer)
  return 0

/-- `qcom_sg_dma_buf_begin_cpu_access` -/
def qcomSgDmaBufBeginCpuAccess (buffer : Nat) (direction : Int) : SgProg Int :=
  cpuAccess .invalidateKernelVmapRange (fun a => .dmaSyncSgtableForCpu a direction) buffer

/-- `qcom_sg_dma_buf_end_cpu_access` -/
def qcomSgDmaBufEndCpuAccess (buffer : Nat) (direction : Int) : SgProg Int :=
  cpuAccess .flushKernelVmapRange (fun a => .dmaSyncSgtableForDevice a direction) buffer

/-! ## Kernel mappings -/

/-- `qcom_sg_do_vmap`: the address, or an error. -/
def qcomSgDoVmap (buffer : Nat) : SgProg (Except Int U64) := do
  if ¬ (← perform .vmalloc) then
    return .error (-ENOMEM)
  let vaddr ← perform (.vmap buffer)
  perform .vfree
  match vaddr with
  | none => return .error (-ENOMEM)
  | some vaddr => return .ok vaddr

/-- `qcom_sg_vmap`: its return value, and the address that it stores. -/
def qcomSgVmap (buffer : Nat) : SgProg (Int × Option U64) := do
  perform (.mutexLock buffer)
  let vmapCnt ← perform (.readVmapCnt buffer)
  if vmapCnt ≠ 0 then
    perform (.writeVmapCnt buffer (vmapCnt + 1))
    let vaddr ← perform (.readVaddr buffer)
    perform (.mutexUnlock buffer)
    return (0, vaddr)
  match ← qcomSgDoVmap buffer with
  | .error ret =>
      perform (.mutexUnlock buffer)
      return (ret, none)
  | .ok vaddr =>
      perform (.writeVaddr buffer (some vaddr))
      perform (.writeVmapCnt buffer (vmapCnt + 1))
      perform (.mutexUnlock buffer)
      return (0, some vaddr)

/-- `qcom_sg_vunmap` -/
def qcomSgVunmap (buffer : Nat) : SgProg Unit := do
  perform (.mutexLock buffer)
  let vmapCnt := (← perform (.readVmapCnt buffer)) - 1
  perform (.writeVmapCnt buffer vmapCnt)
  if vmapCnt = 0 then
    let vaddr ← perform (.readVaddr buffer)
    perform (.vunmap vaddr)
    perform (.writeVaddr buffer none)
  perform (.mutexUnlock buffer)

end SafeLinux.SgOps
