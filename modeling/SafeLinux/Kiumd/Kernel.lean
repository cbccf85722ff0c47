import SafeLinux.Effects.Wp
import SafeLinux.Kiumd.Types
import Mathlib.Data.Multiset.AddSub
import Mathlib.Data.Multiset.Filter
import Mathlib.Logic.Function.Basic

/-!
# The kernel around the kiumd driver

`KCall` lists what the driver asks of the rest of the kernel and of its own shared memory, one
constructor a kernel function or a critical section under `smmu_lock`. `World` is the state these
calls act on, and `kernel` says which answers are possible and what each does.

Every object, reference or mapping the driver has acquired and not given back is one element of
`World.held`; acquiring adds it and releasing erases it. A call may fail whenever its kernel
function may.
-/

namespace SafeLinux.Kiumd

open Effects

/-- Something acquired by the driver that has to be given back. -/
inductive Resource where
  | file (f : File)
  | dmabuf (d : DmaBuf)
  | attachment (a : Attachment)
  | mapping (dev : Device) (t : SgTable)
  | resource (dev : Device) (iova size : U64)
  | smap (p : Nat)
  | mmioCtx (p : Nat)
  | resMem (p : Nat)
  | handle (p : Nat)
  | heap (p : Nat)
  | node (n : Nat)
  | ctx (c : Nat)
  deriving DecidableEq

/-- The id of an attachment. -/
def Resource.attachmentId : Resource → Option Nat
  | .attachment a => some a.id
  | _ => none

/-- A user structure copied in or out by an ioctl. -/
inductive UserStruct where
  | user (u : KiumdUser)
  | mmio (m : KiumdSmmuMmioMap)
  | memInfo (i : KiumdDevMemInfo)
  | smmu (s : KiumdSmmuUser)
  deriving DecidableEq, Inhabited

/-- A physical range whose owners are changed: the memory of a scatterlist entry, or the page of a
page-table directory. -/
inductive MemRange where
  | sg (e : SgEntry)
  | pgd (ttbr : U64)
  deriving DecidableEq, Inhabited

/-- A place of physical memory that has owners. Page-table pages come from the page allocator and
are never part of a DMA buffer. -/
inductive Loc where
  | phys (addr : Nat)
  | pgd (ttbr : U64)
  deriving DecidableEq, Inhabited

/-- Whether a place lies in a range. -/
def MemRange.contains : MemRange → Loc → Bool
  | .sg e, .phys addr => e.phys ≤ addr && addr < e.phys + e.length
  | .pgd ttbr, .pgd ttbr' => ttbr == ttbr'
  | _, _ => false

/-- The calls of the driver, by the type of their answer. -/
inductive KCall : Type → Type where
  /-- A dereference of an invalid pointer; the thread is killed. -/
  | oops : KCall Empty
  /-- Whether the kernel is built with `CONFIG_DMABUF_DEBUG`. -/
  | configDmabufDebug : KCall Bool
  -- user memory
  | copyFromUser (arg : UserStruct) : KCall Bool
  | copyToUser (arg : UserStruct) : KCall Bool
  | copyStructFromUser (list index : Nat) : KCall (Except Int KiumdAclEntry)
  | strndupUser (name : Nat) : KCall (Option Nat)
  -- heap
  | kmallocArray : KCall (Option Nat)
  | kfree (p : Nat) : KCall Unit
  | kzallocSmap : KCall (Option Nat)
  | kfreeSmap (p : Nat) : KCall Unit
  | readSmap (p : Nat) : KCall SmmuMapData
  | kzallocMmioCtx : KCall (Option Nat)
  | kfreeMmioCtx (p : Nat) : KCall Unit
  | readMmioCtx (p : Nat) : KCall KiumdSmmuMmioCtx
  -- files and devices
  | fget (fd : Int) : KCall (Option File)
  | fput (f : File) : KCall Unit
  | vfioFileIsValid (f : File) : KCall Bool
  | iommuGetDmaDomain (dev : Device) : KCall (Option Domain)
  | iovaCookie (dom : Domain) : KCall Bool
  | setDmaCookie (dom : Domain) (type : IommuDmaCookieType) (iova : U64) : KCall Unit
  | pgtblTtbr (dom : Domain) : KCall (Option U64)
  | devIsPlatform (dev : Device) : KCall Bool
  | platformGetResourceByname (dev : Device) (name : Nat) : KCall (Option (U64 × U64))
  -- dma-buf
  | dmaBufGet (fd : Int) : KCall (KPtr DmaBuf)
  | dmaBufPut (d : DmaBuf) : KCall Unit
  | dmaBufAttach (d : DmaBuf) (dev : Device) : KCall (Except Int Attachment)
  | dmaBufDetach (d : DmaBuf) (a : Attachment) : KCall Unit
  | dmaBufMapAttachment (a : Attachment) (dir : Int) : KCall (KPtr SgTable)
  | dmaBufUnmapAttachment (a : Attachment) (t : SgTable) (dir : Int) : KCall Unit
  -- DMA and IOMMU
  | dmaMapSgtable (dev : Device) (t : SgTable) (dir attrs : Int) : KCall Int
  | dmaUnmapSgtable (dev : Device) (t : SgTable) (dir attrs : Int) : KCall Unit
  | sgDmaAddress (t : SgTable) : KCall U64
  | mangleSgTable (t : SgTable) : KCall Unit
  | iommuMapSg (dom : Domain) (iova : U64) (t : SgTable) (prot : Int) : KCall Int
  | iommuUnmap (dom : Domain) (iova size : U64) : KCall U64
  | iommuFlushIotlbAll (dom : Domain) : KCall Unit
  | dmaMapResource (dev : Device) (addr size : U64) : KCall U64
  | dmaUnmapResource (dev : Device) (iova size : U64) : KCall Unit
  -- secure world
  | qcomScmAssignMem (range : MemRange) (src : U64) (dst : List QcomScmVmperm) : KCall Int
  -- critical sections under `smmu_lock`
  | smmuFind (c : Nat) (id : U32) : KCall (Option Nat)
  | smmuFindMmio (c : Nat) (id : U32) : KCall (Option Nat)
  | smmuScanMmio (c : Nat) (fixed : Bool) (iova : U64) : KCall Bool
  | smmuAdd (c p : Nat) (data : SmmuMapData) : KCall U32
  | smmuAddMmio (c p m : Nat) (mmio : KiumdSmmuMmioCtx) : KCall U32
  | smmuDel (c p : Nat) : KCall Unit
  | smmuDelMmio (c p : Nat) : KCall Unit
  | hashDel (c p : Nat) : KCall Unit
  | hashEntries (c : Nat) : KCall (List Nat)
  -- KGSL bitmaps
  | lastOffset (m : KgslMap) : KCall U64
  | setLastOffset (m : KgslMap) (offset : U64) : KCall Unit
  | bitmapFindNextZeroArea (m : KgslMap) (start : U64) (nr : U32) : KCall U64
  | bitmapSet (m : KgslMap) (start nr : U32) : KCall Unit
  | bitmapClear (m : KgslMap) (start nr : U32) : KCall Unit
  -- context and reserved memory
  | readCtx (c : Nat) : KCall KiumdCtx
  | kfreeCtx (c : Nat) : KCall Unit
  | devOfNode (dev : Device) : KCall Bool
  | ofPropertyCountElems (dev : Device) : KCall Int
  | ofParsePhandle (dev : Device) (index : Nat) : KCall (Option Nat)
  | ofNodePut (node : Nat) : KCall Unit
  | ofAddressToResource (node index : Nat) : KCall (Option (U64 × U64))
  | setNumReservedRegions (c : Nat) (n : Int) : KCall Unit
  | kcallocResMem (n : Nat) : KCall (Option Nat)
  | setResMemArea (c : Nat) (p : Option Nat) : KCall Unit
  | writeMemInfo (index : Nat) (info : KiumdMemInfo) : KCall Unit
  | writeResMem (p index : Nat) (area : KiumdReservedMemArea) : KCall Unit
  | readResMem (p : Nat) (index : U64) : KCall KiumdReservedMemArea
  | kfreeResMem (p : Nat) : KCall Unit
  | remapPfnRange (start pfn size : U64) : KCall Int
  -- xarray of buffer handles
  | readHandle (p : Nat) : KCall DmaBufHandle
  | kfreeHandle (p : Nat) : KCall Unit
  | xaDestroy (c : Nat) : KCall Unit

/-- A program of the driver. -/
abbrev KProg := Program KCall

/-- The state the calls act on. -/
structure World where
  dmabufDebug : Bool
  ctxs : Nat → KiumdCtx
  smaps : Nat → SmmuMapData
  mmioCtxs : Nat → KiumdSmmuMmioCtx
  resMems : Nat → List KiumdReservedMemArea
  handles : Nat → DmaBufHandle
  held : Multiset Resource
  kgsl : KgslMaps
  cookies : Domain → KiumdIommuDmaCookie
  owner : Loc → Finset Int

namespace World

/-- Take a resource. -/
def hold (w : World) (r : Resource) : World := { w with held := r ::ₘ w.held }

/-- Give a resource back. -/
def release (w : World) (r : Resource) : World := { w with held := w.held.erase r }

/-- The ids of the attachments that are not detached. -/
def attachmentIds (w : World) : Multiset Nat := w.held.filterMap Resource.attachmentId

/-- Replace the context `c`. -/
def setCtx (w : World) (c : Nat) (f : KiumdCtx → KiumdCtx) : World :=
  { w with ctxs := Function.update w.ctxs c (f (w.ctxs c)) }

end World

/-- Set the bits `[start, start + nr)` to `value`. -/
def fillBits (bits : Nat → Bool) (start nr : Nat) (value : Bool) : Nat → Bool :=
  fun i => if start ≤ i ∧ i < start + nr then value else bits i

/-- Set or clear bits of one of the KGSL bitmaps. -/
def KgslMaps.fill (k : KgslMaps) (m : KgslMap) (start nr : Nat) (value : Bool) : KgslMaps :=
  { k with bits := Function.update k.bits m (fillBits (k.bits m) start nr value) }

/-- Write one of the static search positions. -/
def KgslMaps.setLastOffset (k : KgslMaps) (m : KgslMap) (offset : U64) : KgslMaps :=
  { k with lastOffset := Function.update k.lastOffset m offset }

/-- The area of `nr` bits from `start` on is clear and ends within the map. -/
def ZeroArea (bits : Nat → Bool) (size nr start : Nat) : Prop :=
  start + nr ≤ size ∧ ∀ i < nr, bits (start + i) = false

instance (bits : Nat → Bool) (size nr start : Nat) : Decidable (ZeroArea bits size nr start) :=
  inferInstanceAs (Decidable (_ ∧ _))

/-- What `bitmap_find_next_zero_area` returns: the first clear area at or after `start`, or a
position beyond the map when there is none, which is the end of the area it tried last. An area of
no bits is found anywhere. -/
def NextZeroArea (bits : Nat → Bool) (size start nr result : Nat) : Prop :=
  result ≤ size + nr ∧
    (nr ≠ 0 →
      (start ≤ result ∧ ZeroArea bits size nr result ∧
        ∀ s < result, start ≤ s → ¬ ZeroArea bits size nr s) ∨
      (size < result ∧ ∀ s < size, start ≤ s → ¬ ZeroArea bits size nr s))

instance (bits : Nat → Bool) (size start nr result : Nat) :
    Decidable (NextZeroArea bits size start nr result) :=
  inferInstanceAs (Decidable (_ ∧ _))

/-- The index of an entry in a context's hash table; `hash_for_each_possible` visits the entries
of one bucket, which all entries with the same id share, the latest first. -/
def World.find (w : World) (c : Nat) (test : SmmuMapData → Bool) : Option Nat :=
  (w.ctxs c).smmuTable.find? fun p => test (w.smaps p)

/-- An attachment the exporter may make for a buffer and a device. -/
def Attachment.Fits (a : Attachment) (d : DmaBuf) (dev : Device) : Prop :=
  a.dmabuf = .ptr d ∧ a.dev = dev ∧ a.sgl = d.sg ∧
    (a.priv = none ∨ a.priv = some none ∨ a.priv = some (some a.table))

instance (a : Attachment) (d : DmaBuf) (dev : Device) : Decidable (a.Fits d dev) :=
  inferInstanceAs (Decidable (_ ∧ _))

/-- The answers the kernel can give to a call, and the state after each. -/
def kernelStep : {β : Type} → KCall β → World → β → Option World
  | _, .oops, _, _ => none
  | _, .configDmabufDebug, w, debug => if debug = w.dmabufDebug then some w else none
  | _, .copyFromUser _, w, _ => some w
  | _, .copyToUser _, w, _ => some w
  | _, .copyStructFromUser _ _, w, .error e => if e < 0 then some w else none
  | _, .copyStructFromUser _ _, w, .ok _ => some w
  | _, .strndupUser _, w, none => some w
  | _, .strndupUser _, w, some p =>
      if .heap p ∈ w.held then none else some (w.hold (.heap p))
  | _, .kmallocArray, w, none => some w
  | _, .kmallocArray, w, some p =>
      if .heap p ∈ w.held then none else some (w.hold (.heap p))
  | _, .kfree p, w, _ => some (w.release (.heap p))
  | _, .kzallocSmap, w, none => some w
  | _, .kzallocSmap, w, some p =>
      if .smap p ∈ w.held then none
      else some { w.hold (.smap p) with smaps := Function.update w.smaps p {} }
  | _, .kfreeSmap p, w, _ => some (w.release (.smap p))
  | _, .readSmap p, w, data =>
      -- freed memory may hold anything
      if .smap p ∈ w.held → data = w.smaps p then some w else none
  | _, .kzallocMmioCtx, w, none => some w
  | _, .kzallocMmioCtx, w, some p =>
      if .mmioCtx p ∈ w.held then none else some (w.hold (.mmioCtx p))
  | _, .kfreeMmioCtx p, w, _ => some (w.release (.mmioCtx p))
  | _, .readMmioCtx p, w, data =>
      if .mmioCtx p ∈ w.held → data = w.mmioCtxs p then some w else none
  | _, .fget _, w, none => some w
  | _, .fget _, w, some f => some (w.hold (.file f))
  | _, .fput f, w, _ => some (w.release (.file f))
  | _, .vfioFileIsValid _, w, _ => some w
  | _, .iommuGetDmaDomain _, w, none => some w
  | _, .iommuGetDmaDomain dev, w, some dom => if dom = dev.domain then some w else none
  | _, .iovaCookie _, w, _ => some w
  | _, .setDmaCookie dom type iova, w, _ =>
      some { w with cookies := Function.update w.cookies dom ⟨type, iova⟩ }
  | _, .pgtblTtbr _, w, _ => some w
  | _, .devIsPlatform _, w, _ => some w
  | _, .platformGetResourceByname _ _, w, _ => some w
  | _, .dmaBufGet _, w, .ptr d => some (w.hold (.dmabuf d))
  | _, .dmaBufGet _, w, .err e => if e < 0 then some w else none
  | _, .dmaBufGet _, w, .null => some w
  | _, .dmaBufPut d, w, _ => some (w.release (.dmabuf d))
  | _, .dmaBufAttach d dev, w, .ok a =>
      if a.Fits d dev ∧ a.id ∉ w.attachmentIds then some (w.hold (.attachment a)) else none
  | _, .dmaBufAttach _ _, w, .error e => if e < 0 then some w else none
  | _, .dmaBufDetach _ a, w, _ => some (w.release (.attachment a))
  | _, .dmaBufMapAttachment a _, w, .ptr t =>
      if t = a.table then some (w.hold (.mapping a.dev t)) else none
  | _, .dmaBufMapAttachment _ _, w, .err e => if e < 0 then some w else none
  | _, .dmaBufMapAttachment _ _, _, .null => none
  | _, .dmaBufUnmapAttachment a t _, w, _ => some (w.release (.mapping a.dev t))
  | _, .dmaMapSgtable dev t _ _, w, ret =>
      if ret = 0 then some (w.hold (.mapping dev t)) else if ret < 0 then some w else none
  | _, .dmaUnmapSgtable dev t _ _, w, _ => some (w.release (.mapping dev t))
  | _, .sgDmaAddress _, w, _ => some w
  | _, .mangleSgTable _, w, _ => some w
  | _, .iommuMapSg _ _ _ _, w, _ => some w
  | _, .iommuUnmap _ _ _, w, _ => some w
  | _, .iommuFlushIotlbAll _, w, _ => some w
  | _, .dmaMapResource dev _ size, w, iova =>
      if iova = DMA_MAPPING_ERROR then some w else some (w.hold (.resource dev iova size))
  | _, .dmaUnmapResource dev iova size, w, _ => some (w.release (.resource dev iova size))
  | _, .qcomScmAssignMem range _ dst, w, ret =>
      if ret = 0 then
        some { w with owner := fun l =>
          if range.contains l then (dst.map (·.vmid)).toFinset else w.owner l }
      else if ret < 0 then some w else none
  | _, .smmuFind c id, w, found => if found = w.find c (·.id == id) then some w else none
  | _, .smmuFindMmio c id, w, found =>
      if found = w.find c (fun s => s.id == id && s.context.isSome) then some w else none
  | _, .smmuScanMmio c fixed iova, w, busy =>
      if busy = (fixed && (w.ctxs c).smmuTable.any fun p =>
          (w.smaps p).context.any fun m => (w.mmioCtxs m).iova == iova)
      then some w else none
  | _, .smmuAdd c p data, w, id =>
      if id = (w.ctxs c).id then
        some { w.setCtx c (fun k => { k with id := k.id + 1, smmuTable := p :: k.smmuTable }) with
          smaps := Function.update w.smaps p { data with id := id } }
      else none
  | _, .smmuAddMmio c p m mmio, w, id =>
      if id = (w.ctxs c).id then
        some { w.setCtx c (fun k => { k with id := k.id + 1, smmuTable := p :: k.smmuTable }) with
          smaps := Function.update w.smaps p { id := id, context := some m }
          mmioCtxs := Function.update w.mmioCtxs m mmio }
      else none
  | _, .smmuDel c p, w, _ =>
      some ((w.setCtx c fun k => { k with smmuTable := k.smmuTable.erase p }).release (.smap p))
  | _, .smmuDelMmio c p, w, _ =>
      let w' := w.setCtx c fun k => { k with smmuTable := k.smmuTable.erase p }
      match (w.smaps p).context with
      | some m => some ((w'.release (.mmioCtx m)).release (.smap p))
      | none => some (w'.release (.smap p))
  | _, .hashDel c p, w, _ =>
      some (w.setCtx c fun k => { k with smmuTable := k.smmuTable.erase p })
  | _, .hashEntries c, w, entries =>
      -- `hash_for_each` visits the entries bucket by bucket
      if entries.Perm (w.ctxs c).smmuTable then some w else none
  | _, .lastOffset m, w, offset => if offset = w.kgsl.lastOffset m then some w else none
  | _, .setLastOffset m offset, w, _ =>
      some { w with kgsl := w.kgsl.setLastOffset m offset }
  | _, .bitmapFindNextZeroArea m start nr, w, result =>
      if NextZeroArea (w.kgsl.bits m) KGSL_PT_MEM_PAGES start.toNat nr.toNat result.toNat
      then some w else none
  | _, .bitmapSet m start nr, w, _ =>
      some { w with kgsl := w.kgsl.fill m start.toNat nr.toNat true }
  | _, .bitmapClear m start nr, w, _ =>
      some { w with kgsl := w.kgsl.fill m start.toNat nr.toNat false }
  | _, .readCtx c, w, ctx => if ctx = w.ctxs c then some w else none
  | _, .kfreeCtx c, w, _ => some (w.release (.ctx c))
  | _, .devOfNode _, w, _ => some w
  | _, .ofPropertyCountElems _, w, _ => some w
  | _, .ofParsePhandle _ _, w, none => some w
  | _, .ofParsePhandle _ _, w, some node => some (w.hold (.node node))
  | _, .ofNodePut node, w, _ => some (w.release (.node node))
  | _, .ofAddressToResource _ _, w, _ => some w
  | _, .setNumReservedRegions c n, w, _ =>
      some (w.setCtx c fun k => { k with numReservedRegions := n })
  | _, .kcallocResMem _, w, none => some w
  | _, .kcallocResMem n, w, some p =>
      if .resMem p ∈ w.held then none
      else some { w.hold (.resMem p) with
        resMems := Function.update w.resMems p (List.replicate n {}) }
  | _, .setResMemArea c p, w, _ => some (w.setCtx c fun k => { k with resMemArea := p })
  | _, .writeMemInfo _ _, w, _ => some w
  | _, .writeResMem p index area, w, _ =>
      some { w with resMems := Function.update w.resMems p ((w.resMems p).set index area) }
  | _, .readResMem p index, w, area =>
      if .resMem p ∈ w.held → ∀ a, (w.resMems p)[index.toNat]? = some a → area = a
      then some w else none
  | _, .kfreeResMem p, w, _ => some (w.release (.resMem p))
  | _, .remapPfnRange _ _ _, w, _ => some w
  | _, .readHandle p, w, h =>
      if .handle p ∈ w.held → h = w.handles p then some w else none
  | _, .kfreeHandle p, w, _ => some (w.release (.handle p))
  | _, .xaDestroy c, w, _ => some (w.setCtx c fun k => { k with kiumdXa := [] })

/-- The kernel as the environment of the driver. -/
def kernel : Semantics KCall World := ⟨kernelStep⟩

end SafeLinux.Kiumd
