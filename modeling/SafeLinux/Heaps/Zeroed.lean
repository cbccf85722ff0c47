import SafeLinux.Effects.Run
import SafeLinux.Heaps.Clearing

/-!
# Buffers are handed out zeroed

A CMA buffer is cleared when it is allocated. A carveout buffer is not: the invariant `Clean` says
that every page of the pool outside the exported buffers holds only zero bytes. Creation of the heap
establishes it, and a release keeps it when it clears the buffer, which it may fail to do.
-/

namespace SafeLinux.Heaps

open Effects
open Effects.Program (perform)

/-! ## CMA buffers -/

/-- A buffer that holds only zero bytes. -/
def Buffer.Zero (b : Buffer) (s : State) : Prop := ∀ a, b.Contains a → s.mem a = 0

theorem Buffer.zero_of_pages {b : Buffer} {s : State}
    (h : ∀ page, b.HasPage page → s.ZeroPage page) :
    b.Zero s :=
  fun a ha => h _ ((b.contains_iff a).mp ha) a rfl

theorem Buffer.Zero.page {b : Buffer} {s : State} (h : b.Zero s) {page : Nat}
    (hpage : b.HasPage page) : s.ZeroPage page := by
  rintro a rfl
  exact h a ((b.contains_iff a).mpr hpage)

/-- A buffer whose pages were cleared. -/
theorem Buffer.zero_cleared {page n : Nat} {len : U64} {s : State} {done : List Nat}
    (hn : pagesFor len = n) (hdone : ∀ p ∈ List.range' page n, p ∈ done) :
    (Buffer.mk page len).Zero (s.cleared done) := by
  refine Buffer.zero_of_pages fun p hp => State.zeroPage_cleared (hdone p ?_)
  rw [List.mem_range'_1, ← hn]
  exact hp

/-- The end of `cma_heap_allocate`, once the memory is cleared, changes no memory. -/
theorem cmaExport_spec (cmaPages nrPages : Nat) (buffer : Buffer) (s : State)
    (hzero : buffer.Zero s) :
    wp heap .any (do
        let ret ← perform .sgAllocTable
        if ret ≠ 0 then
          perform (.cmaRelease cmaPages nrPages)
          perform .kfree
          return .error ret
        let ret ← perform (.dmaBufExport buffer)
        if ret ≠ 0 then
          perform .sgFreeTable
          perform (.cmaRelease cmaPages nrPages)
          perform .kfree
          return .error ret
        return .ok buffer : HeapProg (Except Int Buffer))
      (fun _ result s' => ∀ b, result = some (.ok b) → b.Zero s') s := by
  refine wp_idle (fun _ => rfl) fun ret => ?_
  by_cases hret : ret ≠ 0
  · rw [if_pos hret]
    refine wp_idle (fun _ => rfl) fun _ => wp_idle (fun _ => rfl) fun _ => wp_pure.mpr ?_
    intro b h
    cases h
  · rw [if_neg hret]
    refine wp_step fun exported s₁ hexport => ?_
    have hmem : s₁.mem = s.mem := by
      simp only [heap] at hexport
      split at hexport <;> cases hexport <;> rfl
    by_cases hexported : exported ≠ 0
    · rw [if_pos hexported]
      refine wp_idle (fun _ => rfl) fun _ => wp_idle (fun _ => rfl) fun _ =>
        wp_idle (fun _ => rfl) fun _ => wp_pure.mpr ?_
      intro b h
      cases h
    · rw [if_neg hexported]
      refine wp_pure.mpr ?_
      intro b h
      cases h
      intro a ha
      rw [hmem]
      exact hzero a ha

/-- A CMA buffer holds only zero bytes when it is handed out, whatever memory held before. -/
theorem cmaHeapAllocate_spec (maxAlign : Nat) (len : U64) (s : State) :
    wp heap .any (cmaHeapAllocate maxAlign len)
      (fun _ result s' => ∀ b, result = some (.ok b) → b.Zero s') s := by
  unfold cmaHeapAllocate
  dsimp only
  refine wp_idle (fun _ => rfl) fun allocated => ?_
  cases allocated with
  | false =>
      refine wp_pure.mpr ?_
      intro b h
      cases h
  | true =>
      refine wp_step fun cmaPages s₁ hcma => ?_
      obtain rfl : s = s₁ := by
        simp only [heap] at hcma
        split at hcma
        · cases hcma
        · exact Option.some.inj hcma
      cases cmaPages with
      | none =>
          refine wp_idle (fun _ => rfl) fun _ => wp_pure.mpr ?_
          intro b h
          cases h
      | some cmaPages =>
          refine wp_idle (fun _ => rfl) fun high => ?_
          cases high with
          | true =>
              refine wp_bind.mpr (wp_mono (clearHighmem_spec cmaPages _ s) ?_)
              rintro trace _ s₂ ⟨killed, done, rfl, rfl, hall⟩
              rw [Post.andThen_some]
              cases killed with
              | true =>
                  refine wp_idle (fun _ => rfl) fun _ => wp_idle (fun _ => rfl) fun _ =>
                    wp_pure.mpr ?_
                  intro b h
                  cases h
              | false =>
                  exact cmaExport_spec _ _ _ _
                    (Buffer.zero_cleared (pagesFor_pageAlign len) (hall rfl))
          | false =>
              refine wp_step fun _ s₂ hset => ?_
              obtain rfl : s.cleared _ = s₂ :=
                (clear_pageAlign s cmaPages len).symm.trans (Option.some.inj hset)
              exact cmaExport_spec _ _ _ _
                (Buffer.zero_cleared (pagesFor_pageAlign len) fun _ h => h)

/-! ## The pool -/

/-- A page of the pool's chunk. -/
def Range.HasPage (chunk : Range) (page : Nat) : Prop :=
  pfnDown chunk.addr ≤ page ∧ page < pfnDown chunk.addr + chunk.size.toNat / PAGE_SIZE

/-- The buffer a range is exported as. -/
def Range.buffer (r : Range) : Buffer := ⟨pfnDown r.addr, r.size⟩

/-- Two buffers without a common page. -/
def Buffer.Apart (b b' : Buffer) : Prop := ∀ page, b.HasPage page → ¬ b'.HasPage page

theorem Buffer.Apart.symm {b b' : Buffer} (h : b.Apart b') : b'.Apart b :=
  fun page hb' hb => h page hb hb'

theorem Range.Apart.buffer {r r' : Range} (h : r.Apart r') : r.buffer.Apart r'.buffer := by
  intro page hr hr'
  simp only [Buffer.HasPage, Range.buffer, pfnDown_eq, PAGE_SIZE] at hr hr'
  unfold Range.Apart PAGE_SIZE at h
  omega

/-- A range of the pool is exported as a buffer of the pool. -/
theorem Range.InChunk.hasPage {r chunk : Range} (h : r.InChunk chunk) {page : Nat}
    (hpage : r.buffer.HasPage page) : chunk.HasPage page := by
  simp only [Buffer.HasPage, Range.buffer, pfnDown_eq, PAGE_SIZE] at hpage
  simp only [Range.InChunk, PAGE_SIZE] at h
  simp only [Range.HasPage, pfnDown_eq, PAGE_SIZE]
  omega

/-- A buffer with some bytes has its first page. -/
theorem Buffer.hasPage_first {b : Buffer} (h : b.len ≠ 0) : b.HasPage b.page := by
  have hlen : b.len.toNat ≠ 0 := fun h0 => h (BitVec.eq_of_toNat_eq (by simpa using h0))
  unfold Buffer.HasPage pagesFor PAGE_SIZE
  omega

/-- The address of a page of the pool leads back to the page. -/
theorem pfnDown_pageToPhys (addr : U64) : pfnDown (pageToPhys (pfnDown addr)) = pfnDown addr := by
  have hlt := addr.isLt
  rw [pfnDown_eq, pageToPhys, BitVec.toNat_shiftLeft, BitVec.toNat_ofNat, pfnDown_eq]
  simp only [PAGE_SHIFT, PAGE_SIZE, Nat.shiftLeft_eq]
  omega

/-! ## The invariant -/

/-- Each exported buffer is a range handed out by the pool, these do not overlap, and every page of
the pool outside the exported buffers holds only zero bytes. -/
structure Clean (s : State) : Prop where
  backed : ∀ b ∈ s.live, ∃ r ∈ s.handed, r.buffer = b
  nonempty : ∀ r ∈ s.handed, r.size ≠ 0
  apart : s.handed.Pairwise Range.Apart
  distinct : s.live.Pairwise Buffer.Apart
  zero : ∀ chunk, s.chunk = some chunk → ∀ page, chunk.HasPage page →
    (∀ b ∈ s.live, ¬ b.HasPage page) → s.ZeroPage page

variable {s : State}

/-- The pool hands out a range. -/
theorem Clean.hand (h : Clean s) {r : Range} (hsize : r.size ≠ 0)
    (hapart : ∀ r' ∈ s.handed, r.Apart r') : Clean { s with handed := r :: s.handed } where
  backed := fun b hb => by
    obtain ⟨r', hr', hbuffer⟩ := h.backed b hb
    exact ⟨r', List.mem_cons_of_mem _ hr', hbuffer⟩
  nonempty := List.forall_mem_cons.mpr ⟨hsize, h.nonempty⟩
  apart := List.pairwise_cons.mpr ⟨hapart, h.apart⟩
  distinct := h.distinct
  zero := h.zero

/-- A range just handed out is no part of an exported buffer. -/
theorem Clean.hand_apart (h : Clean s) {r : Range} (hapart : ∀ r' ∈ s.handed, r.Apart r') :
    ∀ b ∈ s.live, r.buffer.Apart b := by
  intro b hb
  obtain ⟨r', hr', rfl⟩ := h.backed b hb
  exact (hapart r' hr').buffer

/-- A range just handed out holds only zero bytes. -/
theorem Clean.hand_zero (h : Clean s) {r chunk : Range} (hchunk : s.chunk = some chunk)
    (hr : r.InChunk chunk) (hapart : ∀ r' ∈ s.handed, r.Apart r') : r.buffer.Zero s :=
  Buffer.zero_of_pages fun page hpage => h.zero chunk hchunk page (hr.hasPage hpage)
    fun b hb => h.hand_apart hapart b hb page hpage

/-- A range just handed out is exported. -/
theorem Clean.export (h : Clean s) {r : Range} (hsize : r.size ≠ 0)
    (hapart : ∀ r' ∈ s.handed, r.Apart r') :
    Clean { s with handed := r :: s.handed, live := r.buffer :: s.live } where
  backed := fun b hb => by
    rcases List.mem_cons.mp hb with rfl | hb
    · exact ⟨r, List.mem_cons_self, rfl⟩
    · exact (h.hand hsize hapart).backed b hb
  nonempty := (h.hand hsize hapart).nonempty
  apart := (h.hand hsize hapart).apart
  distinct := List.pairwise_cons.mpr ⟨h.hand_apart hapart, h.distinct⟩
  zero := fun chunk hchunk page hpage hlive => h.zero chunk hchunk page hpage
    fun b hb => hlive b (List.mem_cons_of_mem _ hb)

/-- The user of an exported buffer writes to it. -/
theorem Clean.write (h : Clean s) {b : Buffer} (hb : b ∈ s.live) {mem : Memory}
    (hmem : ∀ a, ¬ b.Contains a → mem a = s.mem a) : Clean { s with mem } where
  backed := h.backed
  nonempty := h.nonempty
  apart := h.apart
  distinct := h.distinct
  zero := by
    rintro chunk hchunk page hpage hlive a rfl
    have hnot : ¬ b.Contains a := fun ha => hlive b hb ((b.contains_iff a).mp ha)
    exact (hmem a hnot).trans (h.zero chunk hchunk _ hpage hlive a rfl)

/-- Distinct buffers of the list stay apart from the one that is taken out of it. -/
theorem Clean.apart_erase (h : Clean s) {b : Buffer} (hb : b ∈ s.live) :
    ∀ b' ∈ s.live.erase b, b.Apart b' := by
  have hperm := List.perm_cons_erase hb
  have hpairwise := (hperm.pairwise_iff fun hab => Buffer.Apart.symm hab).mp h.distinct
  exact (List.pairwise_cons.mp hpairwise).1

/-- An exported buffer is released, cleared and given back to the pool. -/
theorem Clean.release (h : Clean s) {b : Buffer} (hb : b ∈ s.live) {done : List Nat}
    (hzero : b.Zero (s.cleared done)) :
    Clean { s with
      mem := (s.cleared done).mem, live := s.live.erase b,
      handed := s.handed.erase ⟨pageToPhys b.page, b.len⟩ } where
  backed := by
    intro b' hb'
    obtain ⟨r, hr, rfl⟩ := h.backed b' (List.mem_of_mem_erase hb')
    refine ⟨r, (List.mem_erase_of_ne ?_).mpr hr, rfl⟩
    rintro rfl
    -- The range given back is the one of `b`, and no other buffer starts at its page.
    obtain ⟨r, hr', hbuffer⟩ := h.backed b hb
    have hpage : pfnDown (pageToPhys b.page) = b.page := by
      rw [← hbuffer]
      exact pfnDown_pageToPhys r.addr
    have hlen : b.len ≠ 0 := by
      rw [← hbuffer]
      exact h.nonempty r hr'
    refine h.apart_erase hb _ hb' b.page (Buffer.hasPage_first hlen) ?_
    have hsame : (Range.mk (pageToPhys b.page) b.len).buffer = b := by
      simp only [Range.buffer, hpage]
    rw [hsame]
    exact Buffer.hasPage_first hlen
  nonempty := fun r hr => h.nonempty r (List.mem_of_mem_erase hr)
  apart := h.apart.sublist List.erase_sublist
  distinct := h.distinct.sublist List.erase_sublist
  zero := by
    intro chunk hchunk page hpage hlive
    by_cases hin : b.HasPage page
    · exact hzero.page hin
    · refine State.ZeroPage.cleared (h.zero chunk hchunk page hpage fun b' hb' => ?_) done
      by_cases heq : b' = b
      · rw [heq]
        exact hin
      · exact hlive b' ((List.mem_erase_of_ne heq).mpr hb')

/-! ## The operations -/

/-- What `gen_pool_alloc` does to the pool. -/
theorem genPoolAlloc_cases {size answer : U64} {s' : State}
    (h : heap.step (.genPoolAlloc size) s answer = some s') :
    (answer = 0 ∧ s' = s) ∨ (answer ≠ 0 ∧ size ≠ 0 ∧ (∃ chunk, s.chunk = some chunk ∧
      (Range.mk answer size).InChunk chunk) ∧
      (∀ r ∈ s.handed, (Range.mk answer size).Apart r) ∧
      s' = { s with handed := ⟨answer, size⟩ :: s.handed }) := by
  simp only [heap] at h
  split at h
  · rename_i hzero
    exact .inl ⟨hzero, (Option.some.inj h).symm⟩
  · rename_i hzero
    split at h
    · cases h
    · rename_i chunk hchunk
      split at h
      · rename_i hok
        exact .inr ⟨hzero, hok.1, ⟨chunk, hchunk, hok.2.1⟩, hok.2.2, (Option.some.inj h).symm⟩
      · cases h

/-- `carveout_allocate` fails, or hands out a free range of the pool. -/
theorem carveoutAllocate_spec (len : U64) (h : Clean s) :
    wp heap .any (carveoutAllocate len)
      (fun _ result s' => (result = some CARVEOUT_ALLOCATE_FAIL ∧ Clean s') ∨
        ∃ paddr, paddr ≠ CARVEOUT_ALLOCATE_FAIL ∧ result = some paddr ∧ len ≠ 0 ∧
          (∃ chunk, s.chunk = some chunk ∧ (Range.mk paddr len).InChunk chunk) ∧
          (∀ r ∈ s.handed, (Range.mk paddr len).Apart r) ∧
          s' = { s with handed := ⟨paddr, len⟩ :: s.handed }) s := by
  unfold carveoutAllocate
  refine wp_step fun offset s₁ hpool => ?_
  obtain ⟨hzero, rfl⟩ | ⟨hoffset, hlen, hchunk, hapart, rfl⟩ := genPoolAlloc_cases hpool
  · rw [if_pos hzero]
    exact wp_pure.mpr (.inl ⟨rfl, h⟩)
  · rw [if_neg hoffset]
    by_cases haddr : offset = CARVEOUT_ALLOCATE_FAIL
    · exact wp_pure.mpr (.inl ⟨congrArg some haddr, h.hand hlen hapart⟩)
    · exact wp_pure.mpr (.inr ⟨offset, haddr, rfl, hlen, hchunk, hapart, rfl⟩)

/-- A carveout buffer holds only zero bytes when it is handed out of a clean pool. -/
theorem carveoutHeapAllocate_spec (len : U64) (h : Clean s) :
    wp heap .any (carveoutHeapAllocate len)
      (fun _ result s' => Clean s' ∧ ∀ b, result = some (.ok b) → b.Zero s') s := by
  have hfail : ∀ (ret : Int) (s' : State), Clean s' →
      Clean s' ∧ ∀ b, some (.error ret : Except Int Buffer) = some (.ok b) → b.Zero s' :=
    fun _ _ hs' => ⟨hs', fun _ hb => nomatch hb⟩
  unfold carveoutHeapAllocate
  refine wp_idle (fun _ => rfl) fun allocated => ?_
  cases allocated with
  | false => exact wp_pure.mpr (hfail _ _ h)
  | true =>
      refine wp_idle (fun _ => rfl) fun ret => ?_
      by_cases hret : ret ≠ 0
      · rw [if_pos hret]
        exact wp_idle (fun _ => rfl) fun _ => wp_pure.mpr (hfail _ _ h)
      · rw [if_neg hret]
        refine wp_bind.mpr (wp_mono (carveoutAllocate_spec len h) ?_)
        rintro trace _ s₁
          (⟨rfl, hs₁⟩ | ⟨paddr, haddr, rfl, hlen, ⟨chunk, hchunk, hin⟩, hapart, rfl⟩)
        · rw [Post.andThen_some, if_pos rfl]
          exact wp_idle (fun _ => rfl) fun _ => wp_idle (fun _ => rfl) fun _ =>
            wp_pure.mpr (hfail _ _ hs₁)
        · rw [Post.andThen_some, if_neg haddr]
          refine wp_step fun exported s₂ hexport => ?_
          simp only [heap] at hexport
          by_cases hexported : exported ≠ 0
          · rw [if_neg hexported] at hexport
            cases hexport
            rw [if_pos hexported, carveoutFree, if_neg haddr]
            refine wp_step fun _ s₃ hfree => ?_
            obtain rfl : s = s₃ := by
              simpa [heap] using hfree
            exact wp_idle (fun _ => rfl) fun _ => wp_idle (fun _ => rfl) fun _ =>
              wp_pure.mpr (hfail _ _ h)
          · rw [if_pos (not_not.mp hexported)] at hexport
            cases hexport
            rw [if_neg hexported]
            have hzero : (Range.mk paddr len).buffer.Zero s := h.hand_zero hchunk hin hapart
            refine wp_pure.mpr ⟨h.export (r := ⟨paddr, len⟩) hlen hapart, fun b hb => ?_⟩
            obtain rfl : (Range.mk paddr len).buffer = b := Except.ok.inj (Option.some.inj hb)
            exact hzero

/-- What a release has to do for its buffer: it is cleared whole, or it held only zero bytes. -/
def ReleaseClears (b : Buffer) (s : State) (trace : List (Event HeapCall)) : Prop :=
  (b.len.toNat ≤ 0xFFFFF000 ∧ VmapsSucceed trace) ∨ b.Zero s

/-- The pages `carveout_pages_zero` leaves of a buffer it clears. -/
theorem ClearedSome.zero {b : Buffer} {trace : List (Event HeapCall)} {result : Option Int}
    {s' : State} (h : ClearedSome (List.range' b.page (sgPageCount (b.len.setWidth 32))) s trace
      result s') (hclears : ReleaseClears b s trace) :
    ∃ done, s' = s.cleared done ∧ b.Zero (s.cleared done) := by
  obtain ⟨value, done, rfl, rfl, _, hall, hsucceed⟩ := h
  refine ⟨done, rfl, ?_⟩
  rcases hclears with ⟨hlen, hvmaps⟩ | hzero
  · refine Buffer.zero_cleared rfl ?_
    rw [← sgPageCount_eq hlen]
    exact hall (hsucceed hvmaps)
  · exact Buffer.zero_of_pages fun page hpage => (hzero.page hpage).cleared done

/-- No page has the address that stands for a failed allocation. -/
theorem pageToPhys_ne_fail (page : Nat) : pageToPhys page ≠ CARVEOUT_ALLOCATE_FAIL := by
  intro h
  have hnat := congrArg BitVec.toNat h
  rw [pageToPhys, BitVec.toNat_shiftLeft, BitVec.toNat_ofNat] at hnat
  have hfail : CARVEOUT_ALLOCATE_FAIL.toNat = 2 ^ 64 - 1 := rfl
  simp only [PAGE_SHIFT, Nat.shiftLeft_eq] at hnat
  omega

/-- The end of `carveout_heap_free`, once the memory is cleared, changes only the pool. -/
theorem carveoutGiveBack_spec (b : Buffer) (s : State) :
    wp heap .any (do
        carveoutFree (pageToPhys b.page) b.len
        perform .sgFreeTable
        perform .kfree : HeapProg Unit)
      (fun _ _ s' => s' = { s with handed := s.handed.erase ⟨pageToPhys b.page, b.len⟩ }) s := by
  unfold carveoutFree
  rw [if_neg (pageToPhys_ne_fail b.page)]
  refine wp_step fun _ s₁ hpool => ?_
  obtain rfl := Option.some.inj hpool
  exact wp_idle (fun _ => rfl) fun _ => wp_idle (fun _ => rfl) fun _ => wp_pure.mpr rfl

/-- `carveout_heap_free` clears what it can of the buffer and gives it back. -/
theorem carveoutHeapFree_spec (isNomap : Bool) (b : Buffer) (s : State) :
    wp heap .any (carveoutHeapFree isNomap b)
      (fun trace _ s' => ∃ trace₁ trace₂ result s₁, trace = trace₁ ++ trace₂ ∧
        ClearedSome (List.range' b.page (sgPageCount (b.len.setWidth 32))) s trace₁ result s₁ ∧
        s' = { s₁ with handed := s₁.handed.erase ⟨pageToPhys b.page, b.len⟩ }) s := by
  have hclear : ∀ prot, wp heap .any (do
        let _ ← carveoutPagesZero b.page b.len prot
        carveoutFree (pageToPhys b.page) b.len
        perform .sgFreeTable
        perform .kfree : HeapProg Unit)
      (fun trace _ s' => ∃ trace₁ trace₂ result s₁, trace = trace₁ ++ trace₂ ∧
        ClearedSome (List.range' b.page (sgPageCount (b.len.setWidth 32))) s trace₁ result s₁ ∧
        s' = { s₁ with handed := s₁.handed.erase ⟨pageToPhys b.page, b.len⟩ }) s := by
    intro prot
    refine wp_bind.mpr (wp_mono (carveoutPagesZero_spec b.page b.len prot s) ?_)
    intro trace result s₁ hcleared
    obtain ⟨value, done, rfl, rfl, _⟩ := id hcleared
    rw [Post.andThen_some]
    refine wp_mono (carveoutGiveBack_spec b _) ?_
    rintro trace' _ _ rfl
    exact ⟨trace, trace', _, _, rfl, hcleared, rfl⟩
  unfold carveoutHeapFree
  cases isNomap with
  | false => exact hclear .pageKernel
  | true => exact hclear .writecombine

/-- A release that clears its buffer keeps the pool clean. -/
theorem carveoutRelease_spec (isNomap : Bool) (b : Buffer) (h : Clean s) :
    wp heap .any (carveoutOp isNomap (.release b))
      (fun trace _ s' => ReleaseClears b s trace → Clean s') s := by
  unfold carveoutOp
  refine wp_step fun _ s₁ hdrop => ?_
  have hb : b ∈ s.live ∧ s₁ = { s with live := s.live.erase b } := by
    simp only [heap] at hdrop
    split at hdrop
    · rename_i hb
      exact ⟨hb, (Option.some.inj hdrop).symm⟩
    · cases hdrop
  obtain ⟨hb, rfl⟩ := hb
  refine wp_mono (carveoutHeapFree_spec isNomap b _) ?_
  rintro _ _ _ ⟨trace₁, trace₂, result, s₂, rfl, hcleared, rfl⟩ hrelease
  have hclears : ReleaseClears b { s with live := s.live.erase b } trace₁ := by
    refine hrelease.imp (fun hvmaps => ⟨hvmaps.1, ?_⟩) fun hzero => hzero
    have hrest : VmapsSucceed (trace₁ ++ trace₂) := fun pages prot hmem =>
      hvmaps.2 pages prot (List.mem_cons_of_mem _ hmem)
    exact hrest.of_append.1
  obtain ⟨done, rfl, hzero⟩ := hcleared.zero hclears
  exact h.release hb hzero

/-! ## Runs -/

/-- The state before a carveout heap is created: nothing of its pool exists. -/
def State.unmanaged (mem : Memory) : State := ⟨mem, none, [], []⟩

/-- What creation has to do for the region: it is cleared whole, or it held only zero bytes. -/
def RegionClears (heapData : PlatformHeap) (mem : Memory) : Prop :=
  heapData.size.toNat ≤ 0xFFFFF000 ∨
    ∀ page, (Range.mk heapData.base heapData.size).HasPage page →
      (State.unmanaged mem).ZeroPage page

/-- The pages of a region that `carveout_pages_zero` clears. -/
theorem Range.hasPage_cleared {base size : U64} (hsize : size.toNat ≤ 0xFFFFF000) {page : Nat}
    (h : (Range.mk base size).HasPage page) :
    page ∈ List.range' (pfnDown base) (sgPageCount (size.setWidth 32)) := by
  rw [sgPageCount_eq hsize, List.mem_range'_1]
  unfold Range.HasPage at h
  simp only [pagesFor, PAGE_SIZE] at h ⊢
  omega

/-- A pool that has handed out nothing is clean when its region holds only zero bytes. -/
theorem Clean.fresh {mem : Memory} {region : Range}
    (hzero : ∀ page, region.HasPage page → (State.unmanaged mem).ZeroPage page)
    {chunk : Option Range} (hchunk : ∀ r, chunk = some r → r = region) :
    Clean ⟨mem, chunk, [], []⟩ where
  backed := fun _ hb => nomatch hb
  nonempty := fun _ hr => nomatch hr
  apart := .nil
  distinct := .nil
  zero := by
    intro r hr page hpage _
    rw [hchunk r hr] at hpage
    exact hzero page hpage

/-- `carveout_init_heap_memory` that succeeds leaves a clean pool. -/
theorem carveoutInitHeapMemory_spec (heapData : PlatformHeap) (mem : Memory)
    (hregion : RegionClears heapData mem) :
    wp heap .any (carveoutInitHeapMemory heapData.base heapData.size)
      (fun _ result s' => ∃ ret, result = some ret ∧ (ret = 0 → Clean s')) (.unmanaged mem) := by
  unfold carveoutInitHeapMemory
  refine wp_bind.mpr (wp_mono (carveoutPagesZero_spec (pfnDown heapData.base) heapData.size
    .writecombine (.unmanaged mem)) ?_)
  rintro trace _ _ ⟨ret, done, rfl, rfl, _, hall, _⟩
  rw [Post.andThen_some]
  by_cases hret : ret ≠ 0
  · rw [if_pos hret]
    exact wp_pure.mpr ⟨ret, rfl, fun h => absurd h hret⟩
  · rw [if_neg hret]
    have hzero : ∀ page, (Range.mk heapData.base heapData.size).HasPage page →
        (State.unmanaged (mem.clearPages done)).ZeroPage page := by
      intro page hpage
      rcases hregion with hsize | hmem
      · exact State.zeroPage_cleared (s := .unmanaged mem)
          (hall (not_not.mp hret) page (Range.hasPage_cleared hsize hpage))
      · exact (hmem page hpage).cleared done
    refine wp_idle (fun _ => rfl) fun created => ?_
    cases created with
    | false => exact wp_pure.mpr ⟨_, rfl, fun h => absurd h (by decide)⟩
    | true =>
        refine wp_step fun added s₁ hadd => wp_pure.mpr ⟨0, rfl, fun _ => ?_⟩
        simp only [heap] at hadd
        split at hadd
        · obtain rfl := Option.some.inj hadd
          exact Clean.fresh hzero fun r hr => (Option.some.inj hr).symm
        · obtain rfl := Option.some.inj hadd
          exact Clean.fresh hzero fun r hr => by cases hr

/-- Creation that succeeds leaves a clean pool. -/
theorem qcomCarveoutHeapCreate_spec (heapData : PlatformHeap) (mem : Memory)
    (hregion : RegionClears heapData mem) :
    wp heap .any (qcomCarveoutHeapCreate heapData)
      (fun _ result s' => result = some 0 → Clean s') (.unmanaged mem) := by
  have hfail : ∀ (ret : Int) (s' : State), ret ≠ 0 → some ret = some 0 → Clean s' :=
    fun _ _ hret h => absurd (Option.some.inj h) hret
  unfold qcomCarveoutHeapCreate
  refine wp_idle (fun _ => rfl) fun allocated => ?_
  cases allocated with
  | false => exact wp_pure.mpr (hfail _ _ (by decide))
  | true =>
      refine wp_bind.mpr (wp_mono (carveoutInitHeapMemory_spec heapData mem hregion) ?_)
      rintro trace _ s₁ ⟨ret, rfl, hclean⟩
      rw [Post.andThen_some]
      by_cases hret : ret ≠ 0
      · rw [if_pos hret]
        exact wp_idle (fun _ => rfl) fun _ => wp_pure.mpr (hfail _ _ hret)
      · rw [if_neg hret]
        refine wp_idle (fun _ => rfl) fun added => ?_
        by_cases hadded : added ≠ 0
        · rw [if_pos hadded]
          refine wp_step fun _ s₂ hdestroy => ?_
          exact wp_idle (fun _ => rfl) fun _ => wp_pure.mpr (hfail _ _ hadded)
        · rw [if_neg hadded]
          exact wp_pure.mpr fun _ => hclean (not_not.mp hret)

/-- The user of a buffer writes to it and to nothing else. -/
theorem carveoutWrite_spec (isNomap : Bool) (b : Buffer) (a : Nat) (value : UInt8) (h : Clean s) :
    wp heap .any (carveoutOp isNomap (.write b a value)) (fun _ _ s' => Clean s') s := by
  unfold carveoutOp
  refine wp_perform.mpr ⟨trivial, fun hempty => (hempty.false ()).elim, ?_⟩
  intro _ s₁ hwrite
  simp only [heap] at hwrite
  split at hwrite
  · rename_i hb
    obtain rfl := Option.some.inj hwrite
    refine h.write hb.1 fun a' ha' => if_neg ?_
    rintro rfl
    exact ha' hb.2
  · cases hwrite

/-- The condition of a run in which every released buffer is cleared. -/
def ClearsReleased : Admission HeapOp HeapCall State := fun _ op s trace =>
  match op with
  | .allocate _ | .write _ _ _ => True
  | .release b => ReleaseClears b s trace

/-- Every operation that clears what it releases keeps the pool clean. -/
theorem carveoutOp_spec (isNomap : Bool) (op : HeapOp) (h : Clean s) (history) :
    wp heap .any (carveoutOp isNomap op)
      (fun trace _ s' => ClearsReleased history op s trace → Clean s') s := by
  cases op with
  | allocate len =>
      refine wp_bind.mpr (wp_mono (carveoutHeapAllocate_spec len h) ?_)
      intro trace result s' hpost
      cases result with
      | none => exact fun _ => hpost.1
      | some result => exact wp_pure.mpr fun _ => hpost.1
  | write b a value => exact wp_mono (carveoutWrite_spec isNomap b a value h) fun _ _ _ hs _ => hs
  | release b => exact carveoutRelease_spec isNomap b h

/-- Every buffer that a carveout heap hands out in a run under `ok`, or that a CMA heap hands out in
any run, holds only zero bytes. -/
def HandedOutZero (heapData : PlatformHeap) (mem : Memory) (maxAlign : Nat)
    (ok : Admission HeapOp HeapCall State) : Prop :=
  (∀ created s₀ history s len trace b s',
    Exec heap (qcomCarveoutHeapCreate heapData) (.unmanaged mem) created (some 0) s₀ →
    Run heap (carveoutOp heapData.isNomap) ok s₀ history s →
    Exec heap (carveoutHeapAllocate len) s trace (some (.ok b)) s' → b.Zero s') ∧
  (∀ history s len trace b s',
    Run heap (cmaOp maxAlign) .any (.unmanaged mem) history s →
    Exec heap (cmaHeapAllocate maxAlign len) s trace (some (.ok b)) s' → b.Zero s')

/-- A heap that clears its region and every buffer it gets back hands out only zero bytes. -/
theorem handedOutZero_clearsReleased (heapData : PlatformHeap) (mem : Memory) (maxAlign : Nat)
    (hregion : RegionClears heapData mem) :
    HandedOutZero heapData mem maxAlign ClearsReleased := by
  constructor
  · intro created s₀ history s len trace b s' hcreate hrun hallocate
    have hstart : Clean s₀ := wp_exec (qcomCarveoutHeapCreate_spec heapData mem hregion) hcreate rfl
    have hclean : Clean s := hrun.invariant (fun _ s => Clean s) hstart
      fun history op s hs => carveoutOp_spec heapData.isNomap op hs history
    exact (wp_exec (carveoutHeapAllocate_spec len hclean) hallocate).2 b rfl
  · intro history s len trace b s' _ hallocate
    exact wp_exec (cmaHeapAllocate_spec maxAlign len s) hallocate b rfl

/-- A heap of one page. -/
def onePageHeap : PlatformHeap := ⟨0x80000000, 0x1000, false, by decide⟩

/-- The page of `onePageHeap`, as a buffer. -/
def onePage : Buffer := ⟨0x80000, 0x1000⟩

/-- Answers with which every call succeeds, `vmap` apart. -/
def grant (vmaps : Bool) : Chooser HeapCall State := fun _ request _ =>
  match request with
  | .kzalloc | .genPoolCreate => some true
  | .vmap _ _ => some vmaps
  | .pageHighMem _ | .fatalSignalPending => some false
  | .sgAllocTable | .genPoolAdd _ _ | .dmaHeapAdd | .dmaBufExport _ => some (0 : Int)
  | .genPoolAlloc _ => some 0x80000000
  | .cmaAlloc _ _ => some (some 0)
  | .kfree | .sgFreeTable | .genPoolFree _ _ | .genPoolDestroy | .memsetPages _ | .vunmap
  | .cmaRelease _ _ | .kmapLocalPage _ | .kunmapLocal _ | .memsetLinear _ _ | .userWrite _ _ _
  | .drop _ => some ()

/-- Whether a call is a `vmap` that failed. -/
def vmapFailed : Event HeapCall → Bool
  | ⟨.vmap _ _, answer⟩ => !answer
  | ⟨_, _⟩ => false

theorem vmapsSucceed_of_all {trace : List (Event HeapCall)}
    (h : trace.all (fun e => !vmapFailed e) = true) : VmapsSucceed trace := by
  intro pages prot hmem
  have hfailed := List.all_eq_true.mp h _ hmem
  exact absurd hfailed (by simp [vmapFailed])

/-- A buffer is written and released, `vmap` succeeds, and the next one is zeroed; so is a CMA
buffer. -/
theorem handedOutZero_clearsReleased_onePage :
    (∃ created s₀ history s trace s', history.length = 3 ∧
      Exec heap (qcomCarveoutHeapCreate onePageHeap) (.unmanaged fun _ => 1) created (some 0) s₀ ∧
      Run heap (carveoutOp false) ClearsReleased s₀ history s ∧
      Exec heap (carveoutHeapAllocate 0x1000) s trace (some (.ok onePage)) s' ∧ onePage.Zero s') ∧
    ∃ trace s', Exec heap (cmaHeapAllocate 8 1) (.unmanaged fun _ => 1) trace
      (some (.ok ⟨0, 0x1000⟩)) s' ∧ Buffer.Zero ⟨0, 0x1000⟩ s' := by
  have hcheck : (qcomCarveoutHeapCreate onePageHeap).check heap (grant true) (.unmanaged fun _ => 1)
      (fun _ ret s => decide (ret = 0) &&
        (carveoutOp false (.allocate 0x1000)).check heap (grant true) s fun _ _ s =>
        (carveoutOp false (.write onePage 0x80000000 1)).check heap (grant true) s fun _ _ s =>
        (carveoutOp false (.release onePage)).check heap (grant true) s fun trace _ s =>
          trace.all (fun e => !vmapFailed e) &&
        (carveoutHeapAllocate 0x1000).check heap (grant true) s fun _ result _ =>
          match result with
          | .ok b => decide (b = onePage)
          | .error _ => false) = true := by decide +kernel
  have hcma : (cmaHeapAllocate 8 1).check heap (grant true) (.unmanaged fun _ => 1)
      (fun _ result _ => match result with
        | .ok b => decide (b = ⟨0, 0x1000⟩)
        | .error _ => false) = true := by decide +kernel
  have hzero := handedOutZero_clearsReleased onePageHeap (fun _ => 1) 8 (.inl (by decide))
  constructor
  · obtain ⟨created, ret, s₀, hcreate, hcheck⟩ := Program.check_exec hcheck
    obtain ⟨hret, hcheck⟩ := Bool.and_eq_true_iff.mp hcheck
    obtain rfl : ret = 0 := of_decide_eq_true hret
    obtain ⟨_, _, s₁, hallocate, hcheck⟩ := Program.check_exec hcheck
    obtain ⟨_, _, s₂, hwrite, hcheck⟩ := Program.check_exec hcheck
    obtain ⟨_, _, s₃, hrelease, hcheck⟩ := Program.check_exec hcheck
    obtain ⟨hvmaps, hcheck⟩ := Bool.and_eq_true_iff.mp hcheck
    obtain ⟨_, result, s₄, hagain, hcheck⟩ := Program.check_exec hcheck
    cases result with
    | error ret => cases hcheck
    | ok b =>
        obtain rfl : b = onePage := of_decide_eq_true hcheck
        have hrun : Run heap (carveoutOp false) ClearsReleased s₀ _ s₃ :=
          ((Run.start.request hallocate trivial).request hwrite trivial).request hrelease
            (.inl ⟨by decide, vmapsSucceed_of_all hvmaps⟩)
        exact ⟨_, _, _, _, _, _, rfl, hcreate, hrun, hagain,
          hzero.1 _ _ _ _ _ _ _ _ hcreate hrun hagain⟩
  · obtain ⟨_, result, s, hallocate, hcheck⟩ := Program.check_exec hcma
    cases result with
    | error ret => cases hcheck
    | ok b =>
        obtain rfl : b = ⟨0, 0x1000⟩ := of_decide_eq_true hcheck
        exact ⟨_, _, hallocate, hzero.2 _ _ _ _ _ _ .start hallocate⟩

/-- A buffer is written and released while `vmap` fails; the next one shows what was written. -/
theorem not_handedOutZero_vmapFails : ¬ HandedOutZero onePageHeap (fun _ => 0) 8 .any := by
  have hcheck : (qcomCarveoutHeapCreate onePageHeap).check heap (grant true) (.unmanaged fun _ => 0)
      (fun _ ret s => decide (ret = 0) &&
        (carveoutOp false (.allocate 0x1000)).check heap (grant true) s fun _ _ s =>
        (carveoutOp false (.write onePage 0x80000000 1)).check heap (grant true) s fun _ _ s =>
        (carveoutOp false (.release onePage)).check heap (grant false) s fun _ _ s =>
        (carveoutHeapAllocate 0x1000).check heap (grant true) s fun _ result s =>
          match result with
          | .ok b => decide (b = onePage) && decide (s.mem 0x80000000 = 1)
          | .error _ => false) = true := by decide +kernel
  obtain ⟨created, ret, s₀, hcreate, hcheck⟩ := Program.check_exec hcheck
  obtain ⟨hret, hcheck⟩ := Bool.and_eq_true_iff.mp hcheck
  obtain rfl : ret = 0 := of_decide_eq_true hret
  obtain ⟨_, _, s₁, hallocate, hcheck⟩ := Program.check_exec hcheck
  obtain ⟨_, _, s₂, hwrite, hcheck⟩ := Program.check_exec hcheck
  obtain ⟨_, _, s₃, hrelease, hcheck⟩ := Program.check_exec hcheck
  obtain ⟨_, result, s₄, hagain, hcheck⟩ := Program.check_exec hcheck
  cases result with
  | error ret => cases hcheck
  | ok b =>
      obtain ⟨hb, hmem⟩ := Bool.and_eq_true_iff.mp hcheck
      obtain rfl : b = onePage := of_decide_eq_true hb
      intro h
      have hrun : Run heap (carveoutOp onePageHeap.isNomap) .any s₀ _ s₃ :=
        ((Run.start.request hallocate trivial).request hwrite trivial).request hrelease trivial
      have hzero := h.1 _ _ _ _ _ _ _ _ hcreate hrun hagain 0x80000000 (by decide)
      rw [of_decide_eq_true hmem] at hzero
      exact absurd hzero (by decide)

end SafeLinux.Heaps
