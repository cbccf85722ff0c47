import SafeLinux.Effects.Actions
import SafeLinux.Effects.Lift
import SafeLinux.Effects.Run
import SafeLinux.Heaps.Driver

/-!
# The DMA heaps of the device tree

`qcom_dt_parser.c` and `qcom_dma_heap.c`: reading the heaps from the children of a device-tree node
and creating them. `DtCall` lists what the two ask of the kernel; a device is named by its node.
The heaps are created by calls of `HeapCall`. Of the messages those are kept that say whether a heap
was created.
-/

namespace SafeLinux.DmaHeap

open Effects
open Effects.Program (perform)
open Heaps (HeapCall HeapProg)

def HEAP_TYPE_CARVEOUT : U32 := 1
def HEAP_TYPE_CMA : U32 := 2

def OF_BAD_ADDR : U64 := -1

/-- `struct platform_heap` -/
structure PlatformHeap where
  type : U32
  name : Option String
  base : U64
  size : U64
  dev : Option Nat
  isNomap : Bool
  token : U32
  maxAlign : U32
  deriving DecidableEq

/-- An element of the array that `kcalloc` returns. -/
def PlatformHeap.zero : PlatformHeap := ⟨0, none, 0, 0, none, false, 0, 0⟩

/-- The part of the device tree that is read: the available children of the node of the heaps, and
the nodes that `memory-region` properties refer to. -/
structure DeviceTree where
  children : List Nat
  nodup : children.Nodup
  memoryRegion : Nat → Option Nat

/-! ## Calls -/

/-- What the parser and the probe ask of the kernel. -/
inductive DtCall : Type → Type where
  /-- `kzalloc` of the platform data; whether it succeeds. -/
  | kzallocPdata : DtCall Bool
  | kcallocHeaps (nr : Nat) : DtCall Bool
  | kfreeHeaps : DtCall Unit
  | kfreePdata : DtCall Unit
  /-- The step of `for_each_available_child_of_node` from one child to the next: the reference to
  the first is dropped and one to the second is taken. -/
  | nextAvailableChild (prev next : Option Nat) : DtCall Unit
  /-- `of_platform_device_create`; whether it succeeds. -/
  | ofPlatformDeviceCreate (node : Nat) : DtCall Bool
  | ofDmaConfigure (node : Nat) : DtCall Unit
  | ofPropertyReadString (node : Nat) (propname : String) : DtCall (Except Int String)
  | ofPropertyReadU32 (node : Nat) (propname : String) : DtCall (Except Int U32)
  | ofPropertyReadBool (node : Nat) (propname : String) : DtCall Bool
  /-- `of_parse_phandle`, which takes a reference to the node that it returns. -/
  | ofParsePhandle (node : Option Nat) (propname : String) : DtCall (Option Nat)
  | ofNodePut (node : Option Nat) : DtCall Unit
  /-- `of_reserved_mem_lookup`: whether the region has `ops`, if there is one. -/
  | ofReservedMemLookup (memNode : Nat) : DtCall (Option Bool)
  | ofReservedMemDeviceInitByIdx (dev : Option Nat) : DtCall Int
  | ofReservedMemDeviceRelease (dev : Option Nat) : DtCall Unit
  /-- `of_get_address`: the size, if there is an address. -/
  | ofGetAddress (memNode : Nat) : DtCall (Option U64)
  | ofTranslateAddress (memNode : Nat) : DtCall U64
  /-- `pr_err` of "Failed to create". -/
  | prFailed (heap : PlatformHeap) (ret : Int) : DtCall Unit
  /-- `pr_info` of "Created". -/
  | prCreated (heap : PlatformHeap) : DtCall Unit

/-- Programs of the parser and the probe. -/
abbrev DtProg (α : Type) := Program DtCall α

/-! ## The parser -/

/-- Reading a property that may be missing: what it would be read into is then left as it is. -/
def readOptionalU32 (node : Nat) (propname : String) (old : U32) : DtProg (Except Int U32) := do
  match ← perform (.ofPropertyReadU32 node propname) with
  | .ok value => return .ok value
  | .error ret =>
      if ret ≠ -EINVAL then
        return .error ret
      return .ok old

/-- `populate_heap` -/
def populateHeap (node : Nat) (heap : PlatformHeap) : DtProg (Except Int PlatformHeap) := do
  match ← perform (.ofPropertyReadString node "qcom,dma-heap-name") with
  | .error ret => return .error ret
  | .ok name =>
  match ← perform (.ofPropertyReadU32 node "qcom,dma-heap-type") with
  | .error ret => return .error ret
  | .ok type =>
  match ← readOptionalU32 node "qcom,token" heap.token with
  | .error ret => return .error ret
  | .ok token =>
  match ← readOptionalU32 node "qcom,max-align" heap.maxAlign with
  | .error ret => return .error ret
  | .ok maxAlign =>
  return .ok { heap with name := some name, type := type, token := token, maxAlign := maxAlign }

/-- `free_pdata` -/
def freePdata : DtProg Unit := do
  perform .kfreeHeaps
  perform .kfreePdata

/-- The part of `heap_dt_init` that sets the base and the size, with the value of `ret` after it. -/
def setRegion (memNode : Nat) (heap : PlatformHeap) : DtProg (PlatformHeap × Int) := do
  match ← perform (.ofGetAddress memNode) with
  | none => return (heap, 0)
  | some size =>
      let base ← perform (.ofTranslateAddress memNode)
      if base ≠ OF_BAD_ADDR then
        return ({ heap with base := base, size := size }, 0)
      else
        perform (.ofReservedMemDeviceRelease heap.dev)
        return (heap, -EINVAL)

/-- The end of `heap_dt_init`, once a region with `ops` is initialised. -/
def heapDtAddress (memNode : Nat) (heap : PlatformHeap) : DtProg (Except Int PlatformHeap) := do
  let (heap, ret) ← setRegion memNode heap
  let isNomap ← perform (.ofPropertyReadBool memNode "no-map")
  if ret ≠ 0 then
    return .error ret
  return .ok { heap with isNomap := isNomap }

/-- `heap_dt_init` -/
def heapDtInit (memNode : Nat) (heap : PlatformHeap) : DtProg (Except Int PlatformHeap) := do
  match ← perform (.ofReservedMemLookup memNode) with
  | none => return .error (-EINVAL)
  | some ops =>
      if ops then
        let ret ← perform (.ofReservedMemDeviceInitByIdx heap.dev)
        if ret ≠ 0 then
          return .error ret
        heapDtAddress memNode heap
      else
        heapDtAddress memNode heap

/-- `release_reserved_memory_regions`, of the first heaps, the last of them first. -/
def releaseReservedMemoryRegions : List PlatformHeap → DtProg Unit
  | [] => return
  | heap :: rest => do
      let memNode ← perform (.ofParsePhandle heap.dev "memory-region")
      if memNode.isSome then
        perform (.ofReservedMemDeviceRelease heap.dev)
        perform (.ofNodePut memNode)
        releaseReservedMemoryRegions rest
      else
        perform (.ofNodePut memNode)
        releaseReservedMemoryRegions rest

/-- The label `free_heaps` of `parse_heap_dt`. -/
def freeHeaps (node : Nat) (heaps : List PlatformHeap) (ret : Int) :
    DtProg (Except Int (List PlatformHeap)) := do
  perform (.ofNodePut (some node))
  releaseReservedMemoryRegions heaps
  freePdata
  return .error ret

/-- The second loop of `parse_heap_dt`, with the child it comes from and the heaps so far, the
last of them first. -/
def parseLoop (prev : Option Nat) (heaps : List PlatformHeap) :
    List Nat → DtProg (Except Int (List PlatformHeap))
  | [] => do
      perform (.nextAvailableChild prev none)
      return .ok heaps.reverse
  | node :: rest => do
      perform (.nextAvailableChild prev (some node))
      if ¬ (← perform (.ofPlatformDeviceCreate node)) then
        freeHeaps node heaps (-EINVAL)
      else
        perform (.ofDmaConfigure node)
        match ← populateHeap node { PlatformHeap.zero with dev := some node } with
        | .error ret => freeHeaps node heaps ret
        | .ok heap =>
            match ← perform (.ofParsePhandle (some node) "memory-region") with
            | none => parseLoop (some node) (heap :: heaps) rest
            | some memNode =>
                match ← heapDtInit memNode heap with
                | .error ret => freeHeaps node heaps ret
                | .ok heap =>
                    perform (.ofNodePut (some memNode))
                    parseLoop (some node) (heap :: heaps) rest

/-- The first loop of `parse_heap_dt`: the number of children. -/
def countChildren (prev : Option Nat) (nr : Nat) : List Nat → DtProg Nat
  | [] => do
      perform (.nextAvailableChild prev none)
      return nr
  | node :: rest => do
      perform (.nextAvailableChild prev (some node))
      countChildren (some node) (nr + 1) rest

/-- `parse_heap_dt`: the heaps of the platform data, or an error. -/
def parseHeapDt (tree : DeviceTree) : DtProg (Except Int (List PlatformHeap)) := do
  if ¬ (← perform .kzallocPdata) then
    return .error (-ENOMEM)
  let nr ← countChildren none 0 tree.children
  if nr = 0 then
    return .ok []
  if ¬ (← perform (.kcallocHeaps nr)) then
    perform .kfreePdata
    return .error (-ENOMEM)
  parseLoop none [] tree.children

/-! ## The probe -/

/-- `qcom_carveout_heap_create` -/
def qcomCarveoutHeapCreate (heapData : PlatformHeap) : HeapProg Int := do
  if ¬ (← perform .kzalloc) then
    return -ENOMEM
  let ret ← Heaps.carveoutInitHeapMemory heapData.base heapData.size
  if ret ≠ 0 then
    perform .kfree
    return ret
  let ret ← perform .dmaHeapAdd
  if ret ≠ 0 then
    perform .genPoolDestroy
    perform .kfree
    return ret
  return 0

/-- A region in the physical address space is created as the carveout heap of it is. -/
theorem qcomCarveoutHeapCreate_fits {heapData : PlatformHeap}
    (hfits : heapData.base.toNat + heapData.size.toNat ≤ 2 ^ 64) :
    qcomCarveoutHeapCreate heapData =
      Heaps.qcomCarveoutHeapCreate ⟨heapData.base, heapData.size, heapData.isNomap, hfits⟩ :=
  rfl

/-- `__add_cma_heap`, less what it writes to the heap it allocates. -/
def addCmaHeap : HeapProg Int := do
  if ¬ (← perform .kzalloc) then
    return -ENOMEM
  let ret ← perform .dmaHeapAdd
  if ret ≠ 0 then
    perform .kfree
    return ret
  return 0

/-- `qcom_add_cma_heap` -/
def qcomAddCmaHeap (_heapData : PlatformHeap) : HeapProg Int := addCmaHeap

/-- The `switch` of `qcom_dma_heap_probe`, with the value of `ret` before it and after it. -/
def createHeap (heapData : PlatformHeap) (ret : Int) : HeapProg Int :=
  if heapData.type = HEAP_TYPE_CARVEOUT then qcomCarveoutHeapCreate heapData
  else if heapData.type = HEAP_TYPE_CMA then qcomAddCmaHeap heapData
  else return ret

/-- What the probe asks of the kernel, through the parser and the heaps too. -/
abbrev ProbeCall : Type → Type := Either DtCall HeapCall

/-- Programs of the probe. -/
abbrev ProbeProg (α : Type) := Program ProbeCall α

/-- The loop of `qcom_dma_heap_probe`, with the present value of `ret`. -/
def probeLoop (ret : Int) : List PlatformHeap → ProbeProg Int
  | [] => return ret
  | heapData :: rest => do
      let ret ← (createHeap heapData ret).lift .inr
      if ret ≠ 0 then
        perform (.inl (.prFailed heapData ret))
        probeLoop ret rest
      else
        perform (.inl (.prCreated heapData))
        probeLoop ret rest

/-- What `qcom_dma_heap_probe` does with the heaps it has read. -/
def probeHeaps (heaps : List PlatformHeap) : ProbeProg Int := do
  let ret ← probeLoop 0 heaps
  freePdata.lift .inl
  return ret

/-- `qcom_dma_heap_probe` -/
def qcomDmaHeapProbe (tree : DeviceTree) : ProbeProg Int := do
  match ← (parseHeapDt tree).lift .inl with
  | .error err => return err
  | .ok heaps => probeHeaps heaps

/-! ## Effects -/

/-- What a call does to the state the parser works on, or to the memory of a device. -/
inductive DtAct where
  | allocPdata
  | allocHeaps
  | freeHeaps
  | freePdata
  | child (prev next : Option Nat)
  | created (node : Nat)
  | get (node : Nat)
  | put (node : Nat)
  | init (dev : Option Nat)
  | release (dev : Option Nat)
  deriving DecidableEq

/-- What a call with its answer does. -/
def DtAct.view : {β : Type} → DtCall β → β → Option DtAct
  | _, .kzallocPdata, allocated => if allocated = true then some .allocPdata else none
  | _, .kcallocHeaps _, allocated => if allocated = true then some .allocHeaps else none
  | _, .kfreeHeaps, _ => some .freeHeaps
  | _, .kfreePdata, _ => some .freePdata
  | _, .nextAvailableChild prev following, _ => some (.child prev following)
  | _, .ofPlatformDeviceCreate node, done => if done = true then some (.created node) else none
  | _, .ofParsePhandle _ _, memNode => memNode.map .get
  | _, .ofNodePut node, _ => node.map .put
  | _, .ofReservedMemDeviceInitByIdx dev, ret => if ret = 0 then some (.init dev) else none
  | _, .ofReservedMemDeviceRelease dev, _ => some (.release dev)
  | _, _, _ => none

/-- The platform devices of the children, the references to device-tree nodes and the allocations
of the platform data and the array of heaps, these two counted. -/
structure DtState where
  devices : List Nat
  refs : Nat → Int
  pdata : Int
  heaps : Int

namespace DtState

/-- The state with the number of references to a node changed. -/
def addRefs (s : DtState) (node : Option Nat) (n : Int) : DtState :=
  { s with refs := fun x => if node = some x then s.refs x + n else s.refs x }

/-- The effect of a call. -/
def apply (s : DtState) : DtAct → DtState
  | .allocPdata => { s with pdata := s.pdata + 1 }
  | .allocHeaps => { s with heaps := s.heaps + 1 }
  | .freeHeaps => { s with heaps := s.heaps - 1 }
  | .freePdata => { s with pdata := s.pdata - 1 }
  | .child prev next => (s.addRefs prev (-1)).addRefs next 1
  | .created node => { s with devices := node :: s.devices }
  | .get node => s.addRefs (some node) 1
  | .put node => s.addRefs (some node) (-1)
  | .init _ | .release _ => s

end DtState

/-- The answers that fit the device tree. -/
def DeviceTree.fits (tree : DeviceTree) : {β : Type} → DtCall β → β → Bool
  | _, .ofParsePhandle node _, memNode => memNode == node.bind tree.memoryRegion
  | _, _, _ => true

/-- What the calls do, with a device tree. -/
def dtKernel (tree : DeviceTree) : Semantics DtCall DtState where
  step := fun request s answer =>
    if tree.fits request answer then some (((DtAct.view request answer).map s.apply).getD s)
    else none

/-- The observer of these effects. -/
def dtObserver (tree : DeviceTree) : Observer DtCall DtAct :=
  ⟨fun request answer => tree.fits request answer = true, DtAct.view⟩

end SafeLinux.DmaHeap
