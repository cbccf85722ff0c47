import SafeLinux.Heaps.Batches
import SafeLinux.SgOps.Driver
import SafeLinux.SgOps.Mmap

/-!
# The array of page pointers

`qcom_sg_do_vmap` with the array it allocates: the array has a pointer for each page of the length
of the buffer, and the loop goes over the pages of the table. Without its stores the function is
that of the driver (`qcomSgDoVmapPages_erase`).

The length of the table's entry is an `unsigned int`. From 4 GiB on the table of a buffer has fewer
pages than the buffer: the loop never leaves the array, but leaves some of it undefined
(`mapsBuffer_iff`).
-/

namespace SafeLinux.SgOps

open Effects
open Effects.Program (perform)
open Heaps (Buffer)

/-- Programs of the operations that write an array of page pointers. -/
abbrev PagesProg (α : Type) := Program (Either SgCall (ArrayCall Nat)) α

/-- `sg_table` of a buffer, as both heaps set it up: one entry, whose page and length `sg_set_page`
writes. -/
def sgTable (b : Buffer) : SgTable where
  entries := [⟨b.page, b.len.setWidth 32⟩]
  nents_lt := by
    show 1 < 2 ^ 32
    decide

/-- The pages that `for_each_sgtable_page` goes through. -/
def sgtablePages (table : SgTable) : List Nat :=
  table.entries.flatMap fun sg => List.range' sg.pfn (Heaps.sgPageCount sg.length)

/-- `npages` of `qcom_sg_do_vmap`, an `int`: the length of the array. -/
def npages (len : U64) : Int := ((Heaps.pageAlign len / PAGE_SIZE).setWidth 32).toInt

/-- The loop of `qcom_sg_do_vmap`; `tmp` counts from the start of the array. -/
def vmapLoop : List Nat → Nat → PagesProg Unit
  | [], _ => return
  | page :: rest, tmp => do
      -- The warning that `tmp` is past the end of the array does not end the loop.
      store tmp page
      vmapLoop rest (tmp + 1)

/-- `qcom_sg_do_vmap` of a buffer with a table. -/
def qcomSgDoVmapPages (buffer : Nat) (table : SgTable) : PagesProg (Except Int U64) := do
  if ¬ (← perform (.inl .vmalloc)) then
    return .error (-ENOMEM)
  vmapLoop (sgtablePages table) 0
  let vaddr ← perform (.inl (.vmap buffer))
  perform (.inl .vfree)
  match vaddr with
  | none => return .error (-ENOMEM)
  | some vaddr => return .ok vaddr

theorem vmapLoop_erase (pages : List Nat) (tmp : Nat) :
    (vmapLoop pages tmp).erase ArrayCall.reply = pure () := by
  induction pages generalizing tmp with
  | nil => rfl
  | cons page rest ih =>
      unfold vmapLoop
      rw [store_bind_erase]
      exact ih (tmp + 1)

/-- Without its stores this is the function of the driver. -/
theorem qcomSgDoVmapPages_erase (buffer : Nat) (table : SgTable) :
    (qcomSgDoVmapPages buffer table).erase ArrayCall.reply = qcomSgDoVmap buffer := by
  unfold qcomSgDoVmapPages qcomSgDoVmap
  show Program.call _ _ = Program.call _ _
  refine congrArg (Program.call _) (funext fun made => ?_)
  cases made with
  | false => rfl
  | true =>
      show (vmapLoop (sgtablePages table) 0 >>= _).erase ArrayCall.reply = _
      rw [erase_bind, vmapLoop_erase]
      show Program.call _ _ = Program.call _ _
      refine congrArg (Program.call _) (funext fun vaddr => ?_)
      cases vaddr <;> rfl

/-! ## What the array is to hold -/

/-- The array could be allocated. -/
def arrayMade : Event (Either SgCall (ArrayCall Nat)) → Bool
  | ⟨.inl .vmalloc, made⟩ => made
  | _ => false

/-- The element that a call stores. -/
def storedIndex : Event (Either SgCall (ArrayCall Nat)) → Option Nat
  | ⟨.inr (.store i _), _⟩ => some i
  | _ => none

/-- The elements stored, one entry for each time. -/
def storedAt (trace : List (Event (Either SgCall (ArrayCall Nat)))) : List Nat :=
  trace.filterMap storedIndex

/-- A range that a mapping may have of a buffer of some pages: whole pages, from a page of the
buffer on, and no more than it has. -/
structure VmArea.Inside (vma : VmArea) (pages : Nat) : Prop where
  start_aligned : vma.vmStart.toNat % 4096 = 0
  end_aligned : vma.vmEnd.toNat % 4096 = 0
  start_lt : vma.vmStart < vma.vmEnd
  fits : vma.vmPgoff.toNat + vma.pages ≤ pages

/-- The pages that a mapping into user space gives out are those of the array: each page given out,
and, if every chunk can be remapped, the page for each address of the range. -/
structure SamePages (vma : VmArea) (cells : Nat → Option Nat) (trace : List (Event VmCall))
    (made : List (U64 × Nat)) : Prop where
  each : ∀ entry ∈ made, ∃ i < vma.pages, entry.1 = vma.page i ∧
    cells (vma.vmPgoff.toNat + i) = some entry.2
  all : (∀ e ∈ trace, remapFails e = false) → ∀ i < vma.pages, ∃ page, (vma.page i, page) ∈ made

/-- The loop has stored a pointer for each page of the length, inside the array; the `i`-th is the
`i`-th page of the buffer, and mappings into user space give out the same pages. -/
structure MapsBuffer (b : Buffer) (trace : List (Event (Either SgCall (ArrayCall Nat))))
    (cells : Nat → Option Nat) : Prop where
  exact : (storedAt trace).length = (Heaps.pageAlign b.len / PAGE_SIZE).toNat
  inside : ∀ i ∈ storedAt trace, (i : Int) < npages b.len
  pointer : ∀ i : Nat, (i : Int) < npages b.len → cells i = some (b.page + i)
  agrees : ∀ vma : VmArea, vma.Inside (Heaps.pageAlign b.len / PAGE_SIZE).toNat →
    ∀ trace result made, Exec addressSpace (qcomSgMmap (sgTable b) vma) [] trace result made →
      SamePages vma cells trace made

/-- One of the heaps has built a buffer for a length. -/
inductive Built (len : U64) (b : Buffer) : Prop where
  | carveout {s s' : Heaps.State} {trace : List (Event Heaps.HeapCall)} :
      Exec Heaps.heap (Heaps.carveoutHeapAllocate len) s trace (some (.ok b)) s' → Built len b
  | cma {maxAlign : Nat} {s s' : Heaps.State} {trace : List (Event Heaps.HeapCall)} :
      Exec Heaps.heap (Heaps.cmaHeapAllocate maxAlign len) s trace (some (.ok b)) s' → Built len b

variable {len : U64} {b : Buffer} {table : SgTable} {vma : VmArea} {s s' : SgState}
  {cells cells' : Nat → Option Nat}

/-! ## The loop -/

/-- The array after pages have been stored from an element on. -/
def filled (pages : List Nat) (tmp : Nat) (cells : Nat → Option Nat) : Nat → Option Nat :=
  fun i => if tmp ≤ i ∧ i < tmp + pages.length then pages[i - tmp]? else cells i

theorem filled_cons (page : Nat) (rest : List Nat) (tmp : Nat) :
    filled rest (tmp + 1) (Function.update cells tmp (some page)) =
      filled (page :: rest) tmp cells := by
  funext i
  unfold filled
  rw [List.length_cons]
  rcases Nat.lt_trichotomy i tmp with hlt | rfl | hgt
  · rw [if_neg (by omega), if_neg (by omega), Function.update_of_ne (by omega)]
  · rw [if_neg (by omega), if_pos (by omega), Function.update_self, Nat.sub_self]
    rfl
  · have hsucc : i - tmp = (i - (tmp + 1)) + 1 := by omega
    rw [Function.update_of_ne (by omega), hsucc, List.getElem?_cons_succ]
    by_cases hin : i < tmp + (rest.length + 1)
    · rw [if_pos (by omega), if_pos (by omega)]
    · rw [if_neg (by omega), if_neg (by omega)]

/-- The loop stores the pages one behind the other. -/
theorem vmapLoop_spec (pages : List Nat) (tmp : Nat) (s : SgState) (cells : Nat → Option Nat) :
    wp (sg.prod arrayMemory) .any (vmapLoop pages tmp) (fun trace result u => result = some () ∧
      storedAt trace = List.range' tmp pages.length ∧ u = (s, filled pages tmp cells))
      (s, cells) := by
  induction pages generalizing tmp cells with
  | nil =>
      refine wp_pure.mpr ⟨rfl, rfl, ?_⟩
      have hnone : filled [] tmp cells = cells := by
        funext i
        exact if_neg (by rw [List.length_nil]; omega)
      rw [hnone]
  | cons page rest ih =>
      unfold vmapLoop store
      refine wp_right fun _ cells₁ hcells => ?_
      obtain rfl := Option.some.inj hcells
      refine wp_mono (ih (tmp + 1) (Function.update cells tmp (some page))) ?_
      intro trace result u ⟨hresult, hstored, hu⟩
      rw [filled_cons] at hu
      refine ⟨hresult, ?_, hu⟩
      show tmp :: storedAt trace = List.range' tmp (rest.length + 1)
      rw [hstored, List.range'_succ]

/-- If the array can be allocated, the pages of the table are stored from its start on. -/
theorem qcomSgDoVmapPages_spec (buffer : Nat) (table : SgTable) (s : SgState)
    (cells : Nat → Option Nat) :
    wp (sg.prod arrayMemory) .any (qcomSgDoVmapPages buffer table) (fun trace _ u =>
      trace.any arrayMade = true → storedAt trace = List.range (sgtablePages table).length ∧
        u.2 = filled (sgtablePages table) 0 cells) (s, cells) := by
  unfold qcomSgDoVmapPages
  refine wp_left fun made s₁ _ => ?_
  cases made with
  | false => exact wp_pure.mpr nofun
  | true =>
      refine wp_bind.mpr (wp_mono (vmapLoop_spec (sgtablePages table) 0 s₁ cells) ?_)
      rintro trace result u ⟨rfl, hstored, rfl⟩
      refine wp_left fun vaddr s₂ _ => wp_left fun _ s₃ _ => ?_
      have hdone : ∀ after : List (Event (Either SgCall (ArrayCall Nat))), storedAt after = [] →
          storedAt (⟨.inl .vmalloc, true⟩ :: (trace ++ after)) =
            List.range (sgtablePages table).length := by
        intro after hafter
        show storedAt (trace ++ after) = _
        unfold storedAt at *
        rw [List.filterMap_append, hafter, List.append_nil, hstored, List.range_eq_range']
      cases vaddr with
      | none => exact wp_pure.mpr fun _ => ⟨hdone _ rfl, rfl⟩
      | some vaddr => exact wp_pure.mpr fun _ => ⟨hdone _ rfl, rfl⟩

/-! ## Lengths -/

/-- Whole pages are aligned. -/
theorem pageAlign_pages (hpages : len.toNat % 4096 = 0) : Heaps.pageAlign len = len := by
  have hlen := len.isLt
  have hsum : (len + 0xFFF).toNat = len.toNat + 0xFFF := by
    rw [BitVec.toNat_add]
    show (len.toNat + 0xFFF) % 2 ^ 64 = len.toNat + 0xFFF
    omega
  apply BitVec.eq_of_toNat_eq
  rw [Heaps.pageAlign_toNat, Heaps.pageAlign_shift, Heaps.toNat_shift_page, hsum]
  unfold Heaps.PAGE_SIZE
  omega

theorem toNat_div_page (x : U64) : (x / PAGE_SIZE).toNat = x.toNat / 4096 := BitVec.toNat_udiv

/-- Below 2^43 bytes the number of pages is an `int`. -/
theorem npages_eq (hpages : len.toNat % 4096 = 0) (hlt : len.toNat < 2 ^ 43) :
    npages len = (len.toNat / 4096 : Nat) := by
  have hnat : ((len / PAGE_SIZE).setWidth 32).toNat = len.toNat / 4096 := by
    rw [BitVec.toNat_setWidth, toNat_div_page]
    omega
  unfold npages
  rw [pageAlign_pages hpages, BitVec.toInt_eq_toNat_of_lt (by omega), hnat]

/-- The length of a table's entry is the rest of the buffer's length beyond a number of 4 GiB. -/
theorem sgtablePages_sgTable (hpages : b.len.toNat % 4096 = 0) :
    sgtablePages (sgTable b) = List.range' b.page (b.len.toNat % 2 ^ 32 / 4096) := by
  have hrest : (BitVec.ofNat 64 (b.len.toNat % 2 ^ 32)).toNat = b.len.toNat % 2 ^ 32 := by
    rw [BitVec.toNat_ofNat]
    omega
  have hwidth : b.len.setWidth 32 = (BitVec.ofNat 64 (b.len.toNat % 2 ^ 32)).setWidth 32 := by
    apply BitVec.eq_of_toNat_eq
    rw [BitVec.toNat_setWidth, BitVec.toNat_setWidth, hrest, Nat.mod_mod]
  have hcount : Heaps.sgPageCount (b.len.setWidth 32) = b.len.toNat % 2 ^ 32 / 4096 := by
    rw [hwidth, Heaps.sgPageCount_pages (by unfold Heaps.PAGE_SIZE; omega) (by omega), hrest]
    rfl
  show List.range' b.page (Heaps.sgPageCount (b.len.setWidth 32)) ++ [] = _
  rw [hcount, List.append_nil]

/-- The two walks of the table go over the same pages. -/
theorem pagesOf_sgTable (hpages : b.len.toNat % 4096 = 0) :
    pagesOf (sgTable b).entries = sgtablePages (sgTable b) := by
  rw [sgtablePages_sgTable hpages]
  show List.range' b.page ((b.len.setWidth 32).toNat / 4096) ++ [] = _
  rw [BitVec.toNat_setWidth, List.append_nil]

/-! ## The buffers of the heaps -/

/-- If a buffer was made, it has a length. -/
def HasLen (len : U64) (result : Except Int Buffer) : Prop := ∀ b, result = .ok b → b.len = len

theorem carveoutHeapAllocate_len (len : U64) :
    (Heaps.carveoutHeapAllocate len).Returns (HasLen len) := by
  unfold Heaps.carveoutHeapAllocate
  refine .bind fun allocated => ?_
  split
  · exact .pure nofun
  refine .bind fun ret => ?_
  split
  · exact .bind fun _ => .pure nofun
  refine .bind fun paddr => ?_
  split
  · exact .bind fun _ => .bind fun _ => .pure nofun
  refine .bind fun ret => ?_
  split
  · exact .bind fun _ => .bind fun _ => .bind fun _ => .pure nofun
  · refine .pure fun b hb => ?_
    cases hb
    rfl

theorem cmaHeapAllocate_len (maxAlign : Nat) (len : U64) :
    (Heaps.cmaHeapAllocate maxAlign len).Returns (HasLen (Heaps.pageAlign len)) := by
  unfold Heaps.cmaHeapAllocate
  dsimp only
  refine .bind fun allocated => ?_
  split
  · exact .pure nofun
  refine .bind fun cmaPages => ?_
  cases cmaPages with
  | none => exact .bind fun _ => .pure nofun
  | some page =>
  have hexport : ∀ killed : Bool, (do
      if killed then
        perform (.cmaRelease page (Heaps.pageAlign len >>> Heaps.PAGE_SHIFT).toNat)
        perform .kfree
        return .error (-ENOMEM)
      let ret ← perform .sgAllocTable
      if ret ≠ 0 then
        perform (.cmaRelease page (Heaps.pageAlign len >>> Heaps.PAGE_SHIFT).toNat)
        perform .kfree
        return .error ret
      let ret ← perform (.dmaBufExport ⟨page, Heaps.pageAlign len⟩)
      if ret ≠ 0 then
        perform .sgFreeTable
        perform (.cmaRelease page (Heaps.pageAlign len >>> Heaps.PAGE_SHIFT).toNat)
        perform .kfree
        return .error ret
      return .ok ⟨page, Heaps.pageAlign len⟩ : Heaps.HeapProg (Except Int Buffer)).Returns
        (HasLen (Heaps.pageAlign len)) := by
    intro killed
    split
    · exact .bind fun _ => .bind fun _ => .pure nofun
    refine .bind fun ret => ?_
    split
    · exact .bind fun _ => .bind fun _ => .pure nofun
    refine .bind fun ret => ?_
    split
    · exact .bind fun _ => .bind fun _ => .bind fun _ => .pure nofun
    · refine .pure fun b hb => ?_
      cases hb
      rfl
  refine .bind fun high => ?_
  split
  · exact .bind hexport
  · exact .bind fun _ => hexport false

/-- Both heaps build a buffer of the length that is asked for. -/
theorem Built.len_eq (h : Built len b) (hpages : len.toNat % 4096 = 0) : b.len = len := by
  cases h with
  | carveout hexec => exact (carveoutHeapAllocate_len len).exec hexec b rfl
  | cma hexec =>
      have hlen := (cmaHeapAllocate_len _ len).exec hexec b rfl
      rwa [pageAlign_pages hpages] at hlen

/-! ## The array and the mappings into user space -/

/-- An array of the pages of a table agrees with every mapping of the table. -/
theorem SgTable.Admits.samePages {trace : List (Event VmCall)} {result : Option Int}
    {made : List (U64 × Nat)} (h : table.Admits vma)
    (hcells : ∀ i, ∀ page, (pagesOf table.entries)[i]? = some page → cells i = some page)
    (hexec : Exec addressSpace (qcomSgMmap table vma) [] trace result made) :
    SamePages vma cells trace made := by
  obtain ⟨_, entries, rfl, hsub, _⟩ := wp_exec (qcomSgMmap_spec h) hexec
  refine ⟨fun entry hentry => ?_, fun hall i hi => ?_⟩
  · have hplaced : entry ∈ table.placed vma := hsub.subset hentry
    obtain ⟨i, hi⟩ := List.mem_iff_getElem?.mp hplaced
    have hlt : i < vma.pages := by
      rw [← h.length_placed]
      exact (List.getElem?_eq_some_iff.mp hi).1
    rw [getElem?_placed hlt] at hi
    obtain ⟨page, hpage, rfl⟩ := Option.map_eq_some_iff.mp hi
    exact ⟨i, hlt, rfl, hcells _ page hpage⟩
  · obtain ⟨page, _, hmem⟩ := h.mapsPages.page i hi
    rw [h.placed_eq hexec hall]
    exact ⟨page, hmem⟩

/-- Below 4 GiB a mapping that the buffer admits is one that its table admits. -/
theorem VmArea.Inside.admits (h : vma.Inside (b.len.toNat / 4096))
    (hpages : b.len.toNat % 4096 = 0) (hlt : b.len.toNat < 2 ^ 32) : (sgTable b).Admits vma := by
  refine ⟨?_, h.start_aligned, h.end_aligned, h.start_lt, ?_⟩
  · intro sg hsg
    obtain rfl := List.mem_singleton.mp hsg
    show (b.len.setWidth 32).toNat % 4096 = 0
    rw [BitVec.toNat_setWidth]
    omega
  · rw [pagesOf_sgTable hpages, sgtablePages_sgTable hpages, List.length_range',
      Nat.mod_eq_of_lt hlt]
    exact h.fits

variable {buffer : Nat} {trace : List (Event (Either SgCall (ArrayCall Nat)))}
  {result : Option (Except Int U64)}

/-- How many pages the length of a buffer has. -/
theorem pages_of_len (hpages : b.len.toNat % 4096 = 0) :
    (Heaps.pageAlign b.len / PAGE_SIZE).toNat = b.len.toNat / 4096 := by
  rw [pageAlign_pages hpages, toNat_div_page]

/-- As many pointers are stored as the table's entry has pages. -/
theorem storedAt_sgTable (hpages : b.len.toNat % 4096 = 0)
    (hexec : Exec (sg.prod arrayMemory) (qcomSgDoVmapPages buffer (sgTable b)) (s, cells) trace
      result (s', cells')) (hmade : trace.any arrayMade = true) :
    storedAt trace = List.range (b.len.toNat % 2 ^ 32 / 4096) := by
  obtain ⟨hstored, _⟩ := wp_exec (qcomSgDoVmapPages_spec buffer (sgTable b) s cells) hexec hmade
  rw [hstored, sgtablePages_sgTable hpages, List.length_range']

/-- No store is behind the end of the array, whatever the length. -/
theorem storedAt_inside (hpages : b.len.toNat % 4096 = 0) (hlt : b.len.toNat < 2 ^ 43)
    (hexec : Exec (sg.prod arrayMemory) (qcomSgDoVmapPages buffer (sgTable b)) (s, cells) trace
      result (s', cells')) (hmade : trace.any arrayMade = true) :
    ∀ i ∈ storedAt trace, (i : Int) < npages b.len := by
  intro i hi
  rw [storedAt_sgTable hpages hexec hmade] at hi
  have := List.mem_range.mp hi
  rw [npages_eq hpages hlt]
  omega

/-- If a pointer is stored for each page, the buffer is shorter than 4 GiB. -/
theorem MapsBuffer.short (h : MapsBuffer b trace cells') (hpages : b.len.toNat % 4096 = 0)
    (hexec : Exec (sg.prod arrayMemory) (qcomSgDoVmapPages buffer (sgTable b)) (s, cells) trace
      result (s', cells')) (hmade : trace.any arrayMade = true) : b.len.toNat < 2 ^ 32 := by
  have hexact := h.exact
  rw [storedAt_sgTable hpages hexec hmade, List.length_range, pages_of_len hpages] at hexact
  omega

/-- For a buffer that one of the heaps has built, the array is filled as it is meant to be if and
only if the buffer is shorter than 4 GiB. -/
theorem mapsBuffer_iff (hpages : len.toNat % 4096 = 0) (hlt : len.toNat < 2 ^ 43)
    (hbuilt : Built len b)
    (hexec : Exec (sg.prod arrayMemory) (qcomSgDoVmapPages buffer (sgTable b)) (s, cells) trace
      result (s', cells')) (hmade : trace.any arrayMade = true) :
    MapsBuffer b trace cells' ↔ len.toNat < 2 ^ 32 := by
  obtain rfl := hbuilt.len_eq hpages
  refine ⟨fun hmaps => hmaps.short hpages hexec hmade, fun hshort => ?_⟩
  obtain ⟨_, hcells⟩ := wp_exec (qcomSgDoVmapPages_spec buffer (sgTable b) s cells) hexec hmade
  -- Below 4 GiB both walks of the table go over all pages of the buffer.
  have hwalk : sgtablePages (sgTable b) = List.range' b.page (b.len.toNat / 4096) := by
    rw [sgtablePages_sgTable hpages, Nat.mod_eq_of_lt hshort]
  have hpointer : ∀ i < b.len.toNat / 4096, cells' i = some (b.page + i) := by
    intro i hi
    have hfilled : cells' i = filled (sgtablePages (sgTable b)) 0 cells i := congrFun hcells i
    have hin : 0 ≤ i ∧ i < 0 + (List.range' b.page (b.len.toNat / 4096)).length := by
      rw [List.length_range']
      omega
    rw [hfilled, hwalk, filled, if_pos hin, Nat.sub_zero, List.getElem?_range' hi, Nat.one_mul]
  refine ⟨?_, storedAt_inside hpages hlt hexec hmade, ?_, ?_⟩
  · rw [storedAt_sgTable hpages hexec hmade, List.length_range, pages_of_len hpages,
      Nat.mod_eq_of_lt hshort]
  · intro i hi
    rw [npages_eq hpages hlt] at hi
    exact hpointer i (by omega)
  · intro vma hinside trace result made hmmap
    rw [pages_of_len hpages] at hinside
    refine (hinside.admits hpages hshort).samePages ?_ hmmap
    intro i page hpage
    rw [pagesOf_sgTable hpages, hwalk] at hpage
    obtain ⟨hi, rfl⟩ := List.getElem?_eq_some_iff.mp hpage
    rw [List.length_range'] at hi
    rw [hpointer i hi, List.getElem_range', Nat.one_mul]

/-- The pool of a carveout heap has a chunk of 8 GiB. -/
def eightGib : Heaps.State := ⟨fun _ => 0, some ⟨0x80000000, 0x200000000⟩, [], []⟩

/-- Every call of an allocation from that pool succeeds, and the buffer is at its start. -/
def granting : Chooser Heaps.HeapCall Heaps.State := fun _ request _ =>
  match request with
  | .kzalloc => some true
  | .sgAllocTable | .dmaBufExport _ => some 0
  | .genPoolAlloc _ => some 0x80000000
  | _ => none

/-- Every call of `qcom_sg_do_vmap` succeeds. -/
def vmapping : Chooser (Either SgCall (ArrayCall Nat)) (SgState × (Nat → Option Nat)) :=
  fun _ request _ =>
    match request with
    | .inl .vmalloc => some true
    | .inl (.vmap _) => some (some 0xFFFF800000000000)
    | .inl .vfree | .inr (.store _ _) => some ()
    | _ => none

/-- A heap has built a buffer, and it is mapped in the kernel, with an array that holds nothing at
first. -/
def VmapOf (b : Buffer) : Prop :=
  Built b.len b ∧ ∃ trace result s' cells', Exec (sg.prod arrayMemory)
    (qcomSgDoVmapPages 0 (sgTable b)) (.unattached (fun _ => 0) (fun _ => none), fun _ => none)
      trace result (s', cells') ∧ trace.any arrayMade = true

/-- A buffer at the start of the pool, if it can be built and mapped. -/
theorem vmapOf_start (len : U64)
    (hbuild : (Heaps.carveoutHeapAllocate len).check Heaps.heap granting eightGib
      (fun _ result _ => result.toOption = some ⟨0x80000, len⟩) = true)
    (hmap : (qcomSgDoVmapPages 0 (sgTable ⟨0x80000, len⟩)).check (sg.prod arrayMemory) vmapping
      (.unattached (fun _ => 0) (fun _ => none), fun _ => none)
      (fun trace _ _ => trace.any arrayMade) = true) : VmapOf ⟨0x80000, len⟩ := by
  obtain ⟨trace, built, s', hexec, hresult⟩ := Program.check_exec hbuild
  obtain ⟨trace', result, u, hexec', hmade⟩ := Program.check_exec hmap
  cases built with
  | error err => cases hresult
  | ok b =>
      obtain rfl : b = ⟨0x80000, len⟩ := Option.some.inj (of_decide_eq_true hresult)
      exact ⟨.carveout hexec, trace', _, u.1, u.2, hexec', hmade⟩

/-- The array for a buffer of one page. -/
theorem mapsBuffer_iff_onePage : ∃ (trace : List (Event (Either SgCall (ArrayCall Nat))))
    (cells' : Nat → Option Nat), MapsBuffer ⟨0x80000, 0x1000⟩ trace cells' := by
  obtain ⟨hbuilt, trace, result, s', cells', hexec, hmade⟩ :=
    vmapOf_start 0x1000 (by decide +kernel) (by decide +kernel)
  exact ⟨trace, cells', (mapsBuffer_iff (by decide) (by decide) hbuilt hexec hmade).mpr
    (by decide)⟩

/-- For a buffer of 4 GiB the array is left undefined. -/
theorem not_mapsBuffer : ¬ ∀ (len : U64) (b : Buffer) (buffer : Nat) (s s' : SgState)
    (cells cells' : Nat → Option Nat) (trace : List (Event (Either SgCall (ArrayCall Nat))))
    (result : Option (Except Int U64)), 0 < len.toNat → len.toNat % 4096 = 0 →
      len.toNat < 2 ^ 43 → Built len b →
      Exec (sg.prod arrayMemory) (qcomSgDoVmapPages buffer (sgTable b)) (s, cells) trace result
        (s', cells') → trace.any arrayMade = true → MapsBuffer b trace cells' := by
  intro h
  obtain ⟨hbuilt, trace, result, s', cells', hexec, hmade⟩ :=
    vmapOf_start 0x100000000 (by decide +kernel) (by decide +kernel)
  have hmaps := h _ _ _ _ _ _ _ _ _ (by decide) (by decide) (by decide) hbuilt hexec hmade
  have hshort := hmaps.short (by decide) hexec hmade
  exact absurd hshort (by decide)

end SafeLinux.SgOps
