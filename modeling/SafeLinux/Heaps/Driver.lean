import SafeLinux.Effects.Program
import SafeLinux.Linux.Types
import Mathlib.Data.Nat.Log

/-!
# The carveout heap and the CMA heap

`qcom_carveout_heap.c` and `qcom_cma_heap.c`: creation of a carveout heap, allocation and release
of its buffers, and allocation and release of CMA buffers. `HeapCall` lists what they ask of the
kernel, one constructor a kernel function, together with what the user of a buffer does to it;
`heap` says which answers are possible and what each does to `State`: physical memory byte by byte,
the chunk of the pool, the ranges the pool has handed out and the exported buffers.

The pool is an allocator that never hands out a range that overlaps one it has handed out and not
got back. Messages are left out, and so is the reader lock around the pool.
-/

namespace SafeLinux.Heaps

open Effects
open Effects.Program (perform)

def PAGE_SHIFT : Nat := 12
def PAGE_SIZE : Nat := 4096

/-- `PAGE_ALIGN` of an `unsigned long` or an `unsigned int`. -/
def pageAlign {w : Nat} (x : BitVec w) : BitVec w := (x + 0xFFF) &&& ~~~0xFFF

/-- The number of pages that hold a number of bytes. -/
def pagesFor (len : U64) : Nat := (len.toNat + 0xFFF) / PAGE_SIZE

/-! ## Buffers and memory -/

/-- An exported buffer: its first page and `buffer->len`. -/
structure Buffer where
  page : Nat
  len : U64
  deriving DecidableEq

/-- The bytes of the pages of a buffer. -/
def Buffer.Contains (b : Buffer) (a : Nat) : Prop :=
  b.page * PAGE_SIZE ≤ a ∧ a < (b.page + pagesFor b.len) * PAGE_SIZE

instance (b : Buffer) (a : Nat) : Decidable (b.Contains a) := inferInstanceAs (Decidable (_ ∧ _))

/-- Physical memory. -/
abbrev Memory := Nat → UInt8

/-- Memory with the bytes from `lo` up to `hi` zeroed. -/
def Memory.clear (m : Memory) (lo hi : Nat) : Memory :=
  fun a => if lo ≤ a ∧ a < hi then 0 else m a

/-- Memory with pages zeroed one after the other. -/
def Memory.clearPages (m : Memory) (pages : List Nat) : Memory :=
  pages.foldl (fun m page => m.clear (page * PAGE_SIZE) ((page + 1) * PAGE_SIZE)) m

/-- A range handed out by the pool. -/
structure Range where
  addr : U64
  size : U64
  deriving DecidableEq

/-- Two ranges of the pool, in whole pages, do not overlap. -/
def Range.Apart (r r' : Range) : Prop :=
  r.addr.toNat + pagesFor r.size * PAGE_SIZE ≤ r'.addr.toNat ∨
    r'.addr.toNat + pagesFor r'.size * PAGE_SIZE ≤ r.addr.toNat

instance (r r' : Range) : Decidable (r.Apart r') := inferInstanceAs (Decidable (_ ∨ _))

/-- What the heaps and their users act on. -/
structure State where
  mem : Memory
  /-- The chunk of the pool, if there is one: its start and its size. -/
  chunk : Option Range
  /-- The ranges handed out by the pool and not freed. -/
  handed : List Range
  /-- The exported buffers that are not released. -/
  live : List Buffer

/-- A range lies in a chunk, at a whole number of pages from its start. -/
def Range.InChunk (r chunk : Range) : Prop :=
  chunk.addr.toNat ≤ r.addr.toNat ∧ (r.addr.toNat - chunk.addr.toNat) % PAGE_SIZE = 0 ∧
    (r.addr.toNat - chunk.addr.toNat) / PAGE_SIZE + pagesFor r.size ≤
      chunk.size.toNat / PAGE_SIZE

instance (r chunk : Range) : Decidable (r.InChunk chunk) :=
  inferInstanceAs (Decidable (_ ∧ _ ∧ _))

/-- The page protections a buffer is mapped with. -/
inductive Pgprot where
  | pageKernel
  | writecombine
  deriving DecidableEq

/-! ## Calls -/

/-- What the heaps ask of the kernel, and what is done to buffers. -/
inductive HeapCall : Type → Type where
  /-- `kzalloc`; whether it succeeds. -/
  | kzalloc : HeapCall Bool
  | kfree : HeapCall Unit
  /-- `sg_alloc_table` of one entry: its return value. -/
  | sgAllocTable : HeapCall Int
  | sgFreeTable : HeapCall Unit
  /-- `gen_pool_create(PAGE_SHIFT, -1)`; whether it succeeds. -/
  | genPoolCreate : HeapCall Bool
  /-- `gen_pool_add`: its return value. -/
  | genPoolAdd (addr size : U64) : HeapCall Int
  /-- `gen_pool_alloc`; 0 when it fails. -/
  | genPoolAlloc (size : U64) : HeapCall U64
  | genPoolFree (addr size : U64) : HeapCall Unit
  | genPoolDestroy : HeapCall Unit
  /-- `dma_heap_add`: 0 or the error of its error pointer. -/
  | dmaHeapAdd : HeapCall Int
  /-- `dma_buf_export`: 0 or the error of its error pointer. -/
  | dmaBufExport (b : Buffer) : HeapCall Int
  /-- `vmap`; whether it succeeds. -/
  | vmap (pages : List Nat) (prot : Pgprot) : HeapCall Bool
  /-- `memset` to 0 of the pages mapped by `vmap` or `kmap_local_page`. -/
  | memsetPages (pages : List Nat) : HeapCall Unit
  | vunmap : HeapCall Unit
  /-- `cma_alloc`: the first page, if it succeeds. -/
  | cmaAlloc (nrPages align : Nat) : HeapCall (Option Nat)
  | cmaRelease (page nrPages : Nat) : HeapCall Unit
  | pageHighMem (page : Nat) : HeapCall Bool
  | kmapLocalPage (page : Nat) : HeapCall Unit
  | kunmapLocal (page : Nat) : HeapCall Unit
  /-- `fatal_signal_pending(current)` -/
  | fatalSignalPending : HeapCall Bool
  /-- `memset(page_address(page), 0, size)` -/
  | memsetLinear (page : Nat) (size : U64) : HeapCall Unit
  /-- The user of a buffer writes a byte of it. -/
  | userWrite (b : Buffer) (a : Nat) (value : UInt8) : HeapCall Unit
  /-- The last reference to a buffer is dropped. -/
  | drop (b : Buffer) : HeapCall Unit

/-- The kernel and the users of the heaps. -/
def heap : Semantics HeapCall State where
  step := fun request s answer =>
    match request with
    | .kzalloc | .kfree | .sgAllocTable | .sgFreeTable | .genPoolCreate | .dmaHeapAdd
    | .vmap _ _ | .vunmap | .cmaRelease _ _ | .pageHighMem _ | .kmapLocalPage _ | .kunmapLocal _
    | .fatalSignalPending => some s
    | .genPoolAdd addr size =>
        if answer = 0 then some { s with chunk := some ⟨addr, size⟩ } else some s
    | .genPoolAlloc size =>
        if answer = 0 then some s
        else match s.chunk with
          | none => none
          | some chunk =>
              if size ≠ 0 ∧ (Range.mk answer size).InChunk chunk ∧
                  ∀ r ∈ s.handed, (Range.mk answer size).Apart r then
                some { s with handed := ⟨answer, size⟩ :: s.handed }
              else none
    | .genPoolFree addr size => some { s with handed := s.handed.erase ⟨addr, size⟩ }
    | .genPoolDestroy => some { s with chunk := none }
    | .dmaBufExport b => if answer = 0 then some { s with live := b :: s.live } else some s
    | .memsetPages pages => some { s with mem := s.mem.clearPages pages }
    | .cmaAlloc nrPages _ => if nrPages = 0 ∧ answer.isSome then none else some s
    | .memsetLinear page size =>
        some { s with mem := s.mem.clear (page * PAGE_SIZE) (page * PAGE_SIZE + size.toNat) }
    | .userWrite b a value =>
        if b ∈ s.live ∧ b.Contains a then
          some { s with mem := fun a' => if a' = a then value else s.mem a' }
        else none
    | .drop b => if b ∈ s.live then some { s with live := s.live.erase b } else none

/-- Programs of the heaps. -/
abbrev HeapProg (α : Type) := Program HeapCall α

/-! ## The carveout heap -/

/-- `struct platform_heap` -/
structure PlatformHeap where
  base : U64
  size : U64
  isNomap : Bool
  /-- The region is part of the physical address space. -/
  fits : base.toNat + size.toNat ≤ 2 ^ 64

/-- `CARVEOUT_ALLOCATE_FAIL` -/
def CARVEOUT_ALLOCATE_FAIL : U64 := -1

/-- `PFN_DOWN` -/
def pfnDown (addr : U64) : Nat := (addr >>> PAGE_SHIFT).toNat

/-- `page_to_phys` -/
def pageToPhys (page : Nat) : U64 := BitVec.ofNat 64 page <<< PAGE_SHIFT

/-- `carveout_allocate`, of a heap that has a pool. -/
def carveoutAllocate (size : U64) : HeapProg U64 := do
  let offset ← perform (.genPoolAlloc size)
  if offset = 0 then
    return CARVEOUT_ALLOCATE_FAIL
  return offset

/-- `carveout_free`, of a heap that has a pool. -/
def carveoutFree (addr size : U64) : HeapProg Unit := do
  if addr = CARVEOUT_ALLOCATE_FAIL then
    return
  perform (.genPoolFree addr size)

/-- `__carveout_heap_allocate`: the buffer of the `dma_buf`, or an error. -/
def carveoutHeapAllocate (len : U64) : HeapProg (Except Int Buffer) := do
  if ¬ (← perform .kzalloc) then
    return .error (-ENOMEM)
  let ret ← perform .sgAllocTable
  if ret ≠ 0 then
    perform .kfree
    return .error ret
  let paddr ← carveoutAllocate len
  if paddr = CARVEOUT_ALLOCATE_FAIL then
    perform .sgFreeTable
    perform .kfree
    return .error (-ENOMEM)
  let buffer : Buffer := ⟨pfnDown paddr, len⟩
  let ret ← perform (.dmaBufExport buffer)
  if ret ≠ 0 then
    carveoutFree paddr len
    perform .sgFreeTable
    perform .kfree
    return .error ret
  return .ok buffer

/-- `carveout_heap_clear_pages` -/
def carveoutHeapClearPages (pages : List Nat) (prot : Pgprot) : HeapProg Int := do
  if ¬ (← perform (.vmap pages prot)) then
    return -ENOMEM
  perform (.memsetPages pages)
  perform .vunmap
  return 0

/-- The loop of `carveout_heap_sglist_zero` over the pages of the list; `pages` is what the array
of 32 pages holds. -/
def sglistZeroLoop (prot : Pgprot) : List Nat → List Nat → HeapProg Int
  | [], pages =>
      if pages ≠ [] then carveoutHeapClearPages pages prot
      else return 0
  | page :: rest, pages => do
      let pages := pages ++ [page]
      if pages.length = 32 then
        let ret ← carveoutHeapClearPages pages prot
        if ret ≠ 0 then
          return ret
        sglistZeroLoop prot rest []
      else
        sglistZeroLoop prot rest pages

/-- `sg_page_count` of an entry with offset 0. -/
def sgPageCount (length : U32) : Nat := (pageAlign length >>> PAGE_SHIFT).toNat

/-- `carveout_pages_zero`: the size becomes the `unsigned int` length of a scatterlist entry. -/
def carveoutPagesZero (page : Nat) (size : U64) (prot : Pgprot) : HeapProg Int :=
  sglistZeroLoop prot (List.range' page (sgPageCount (size.setWidth 32))) []

/-- `carveout_heap_free` -/
def carveoutHeapFree (isNomap : Bool) (buffer : Buffer) : HeapProg Unit := do
  let paddr := pageToPhys buffer.page
  if ¬ isNomap then
    let _ ← carveoutPagesZero buffer.page buffer.len .pageKernel
  else
    let _ ← carveoutPagesZero buffer.page buffer.len .writecombine
  carveoutFree paddr buffer.len
  perform .sgFreeTable
  perform .kfree

/-- `carveout_init_heap_memory` -/
def carveoutInitHeapMemory (base size : U64) : HeapProg Int := do
  let ret ← carveoutPagesZero (pfnDown base) size .writecombine
  if ret ≠ 0 then
    return ret
  if ¬ (← perform .genPoolCreate) then
    return -ENOMEM
  let _ ← perform (.genPoolAdd base size)
  return 0

/-- `qcom_carveout_heap_create` -/
def qcomCarveoutHeapCreate (heapData : PlatformHeap) : HeapProg Int := do
  if ¬ (← perform .kzalloc) then
    return -ENOMEM
  let ret ← carveoutInitHeapMemory heapData.base heapData.size
  if ret ≠ 0 then
    perform .kfree
    return ret
  let ret ← perform .dmaHeapAdd
  if ret ≠ 0 then
    perform .genPoolDestroy
    perform .kfree
    return ret
  return 0

/-! ## The CMA heap -/

/-- `get_order` -/
def getOrder (size : U64) : Nat := if size = 0 then 52 else Nat.clog 2 (pagesFor size)

/-- The loop of `cma_heap_allocate` over high memory; whether a fatal signal ended it. -/
def clearHighmem : Nat → Nat → HeapProg Bool
  | _, 0 => return false
  | page, n + 1 => do
      perform (.kmapLocalPage page)
      perform (.memsetPages [page])
      perform (.kunmapLocal page)
      if ← perform .fatalSignalPending then
        return true
      clearHighmem (page + 1) n

/-- `cma_heap_allocate`: the buffer of the `dma_buf`, or an error. -/
def cmaHeapAllocate (maxAlign : Nat) (len : U64) : HeapProg (Except Int Buffer) := do
  let size := pageAlign len
  let nrPages := (size >>> PAGE_SHIFT).toNat
  let align := min (getOrder size) maxAlign
  if ¬ (← perform .kzalloc) then
    return .error (-ENOMEM)
  let some cmaPages ← perform (.cmaAlloc nrPages align) | do
    perform .kfree
    return .error (-ENOMEM)
  let killed ← if ← perform (.pageHighMem cmaPages) then
      clearHighmem cmaPages nrPages
    else do
      perform (.memsetLinear cmaPages size)
      pure false
  if killed then
    perform (.cmaRelease cmaPages nrPages)
    perform .kfree
    return .error (-ENOMEM)
  let ret ← perform .sgAllocTable
  if ret ≠ 0 then
    perform (.cmaRelease cmaPages nrPages)
    perform .kfree
    return .error ret
  let buffer : Buffer := ⟨cmaPages, size⟩
  let ret ← perform (.dmaBufExport buffer)
  if ret ≠ 0 then
    perform .sgFreeTable
    perform (.cmaRelease cmaPages nrPages)
    perform .kfree
    return .error ret
  return .ok buffer

/-- `cma_heap_free` -/
def cmaHeapFree (buffer : Buffer) : HeapProg Unit := do
  perform (.cmaRelease buffer.page (buffer.len >>> PAGE_SHIFT).toNat)
  perform .sgFreeTable
  perform .kfree

/-! ## Operations on a heap -/

/-- What the users of a heap do. -/
inductive HeapOp where
  | allocate (len : U64)
  | write (b : Buffer) (a : Nat) (value : UInt8)
  | release (b : Buffer)

/-- The program of an operation on a carveout heap. -/
def carveoutOp (isNomap : Bool) : HeapOp → HeapProg Unit
  | .allocate len => do
      let _ ← carveoutHeapAllocate len
  | .write b a value => perform (.userWrite b a value)
  | .release b => do
      perform (.drop b)
      carveoutHeapFree isNomap b

/-- The program of an operation on a CMA heap. -/
def cmaOp (maxAlign : Nat) : HeapOp → HeapProg Unit
  | .allocate len => do
      let _ ← cmaHeapAllocate maxAlign len
  | .write b a value => perform (.userWrite b a value)
  | .release b => do
      perform (.drop b)
      cmaHeapFree b

end SafeLinux.Heaps
