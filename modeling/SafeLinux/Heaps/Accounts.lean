import SafeLinux.Heaps.Zeroed
import Mathlib.Logic.Function.Basic

/-!
# What an allocation takes and gives back

An allocation from a heap takes an object, an sg table and a range of the pool or of the CMA area,
each heap in its own order. `accounts` keeps the books: how often each range is taken and not given
back, and how many tables and objects there are. An allocation that fails leaves the books as they
were, and the free callback of a buffer gives back what its allocation took
(`heap_allocations_settled`).
-/

namespace SafeLinux.Heaps

open Effects
open Effects.Program (perform)

/-! ## The books -/

/-- A range of the pool of a carveout heap, or of pages of a CMA area. -/
inductive Area where
  | pool (r : Range)
  | cma (page nrPages : Nat)
  deriving DecidableEq

/-- What has been taken and not given back. -/
@[ext] structure HeapAccount where
  areas : Area → Int
  tables : Int
  objects : Int

namespace HeapAccount

variable (s : HeapAccount) (area : Area)

/-- A range is taken. -/
def takeArea : HeapAccount :=
  { s with areas := Function.update s.areas area (s.areas area + 1) }

/-- A range is given back. -/
def giveArea : HeapAccount :=
  { s with areas := Function.update s.areas area (s.areas area - 1) }

def newTable : HeapAccount := { s with tables := s.tables + 1 }
def freeTable : HeapAccount := { s with tables := s.tables - 1 }
def newObject : HeapAccount := { s with objects := s.objects + 1 }
def freeObject : HeapAccount := { s with objects := s.objects - 1 }

/-- What a buffer takes. -/
def take : HeapAccount := (s.newObject.newTable).takeArea area

/-- What the end of a buffer gives back. -/
def give : HeapAccount := ((s.giveArea area).freeTable).freeObject

@[simp] theorem giveArea_takeArea : (s.takeArea area).giveArea area = s := by
  simp [takeArea, giveArea]

@[simp] theorem freeTable_newTable : s.newTable.freeTable = s := by
  simp [newTable, freeTable]

@[simp] theorem freeObject_newObject : s.newObject.freeObject = s := by
  simp [newObject, freeObject]

theorem give_take : (s.take area).give area = s := by
  simp [take, give]

end HeapAccount

/-- What the calls do to the books. The pool hands out whole pages of its chunk. -/
def accounts (chunk : Range) : Semantics HeapCall HeapAccount where
  step := fun request s answer =>
    match request with
    | .kzalloc => if answer = true then some s.newObject else some s
    | .kfree => some s.freeObject
    | .sgAllocTable => if answer = 0 then some s.newTable else some s
    | .sgFreeTable => some s.freeTable
    | .genPoolAlloc size =>
        if answer = 0 then some s
        else if size ≠ 0 ∧ (Range.mk answer size).InChunk chunk then
          some (s.takeArea (.pool ⟨answer, size⟩))
        else none
    | .genPoolFree addr size => some (s.giveArea (.pool ⟨addr, size⟩))
    | .cmaAlloc nrPages _ =>
        match answer with
        | none => some s
        | some page => some (s.takeArea (.cma page nrPages))
    | .cmaRelease page nrPages => some (s.giveArea (.cma page nrPages))
    | _ => some s

/-- The range that an event takes. -/
def takenArea : Event HeapCall → Option Area
  | ⟨.genPoolAlloc size, addr⟩ => if addr = 0 then none else some (.pool ⟨addr, size⟩)
  | ⟨.cmaAlloc nrPages _, some page⟩ => some (.cma page nrPages)
  | _ => none

/-- The range that an event gives back. -/
def givenArea : Event HeapCall → Option Area
  | ⟨.genPoolFree addr size, _⟩ => some (.pool ⟨addr, size⟩)
  | ⟨.cmaRelease page nrPages, _⟩ => some (.cma page nrPages)
  | _ => none

/-- The pool starts at a page that is not page 0. -/
structure Range.PoolBase (chunk : Range) : Prop where
  aligned : chunk.addr.toNat % PAGE_SIZE = 0
  nonzero : chunk.addr ≠ 0

/-- An allocation that fails leaves the books as they were; one that succeeds takes a range, and
the free callback of its buffer gives back this range, once, whatever happened in between. -/
structure Settles (S : Semantics HeapCall HeapAccount) (allocate : HeapProg (Except Int Buffer))
    (free : Buffer → HeapProg Unit) (s : HeapAccount) : Prop where
  failed : ∀ trace err s', Exec S allocate s trace (some (.error err)) s' → s' = s
  freed : ∀ trace buffer s', Exec S allocate s trace (some (.ok buffer)) s' → ∃ area,
    s' = s.take area ∧ trace.filterMap takenArea = [area] ∧ trace.filterMap givenArea = [] ∧
    ∀ t trace' t', Exec S (free buffer) t trace' (some ()) t' →
      t' = t.give area ∧ trace'.filterMap givenArea = [area] ∧ trace'.filterMap takenArea = []

variable {chunk : Range} {s s' : HeapAccount} {α β : Type}

/-! ## Calls -/

/-- The rule for a call that does not concern the books. -/
theorem accounts_idle [Nonempty β] {request : HeapCall β} {rest : β → HeapProg α}
    {Q : Post HeapCall HeapAccount α}
    (hidle : ∀ answer, (accounts chunk).step request s answer = some s)
    (hnext : ∀ answer, wp (accounts chunk) .any (rest answer) (Q.after [⟨request, answer⟩]) s) :
    wp (accounts chunk) .any (perform request >>= rest) Q s := by
  refine wp_step fun answer s' hstep => ?_
  rw [hidle answer] at hstep
  cases hstep
  exact hnext answer

/-- The rule for a call with one effect. -/
theorem accounts_do {request : HeapCall Unit} {rest : Unit → HeapProg α}
    {Q : Post HeapCall HeapAccount α} (hstep : (accounts chunk).step request s () = some s')
    (hnext : wp (accounts chunk) .any (rest ()) (Q.after [⟨request, ()⟩]) s') :
    wp (accounts chunk) .any (perform request >>= rest) Q s := by
  refine wp_step fun answer s'' hstep' => ?_
  rw [hstep] at hstep'
  cases hstep'
  exact hnext

/-- The calls that do not concern the books. -/
def OffBooks (β : Type) (request : HeapCall β) : Prop := ∀ answer : β,
  (∀ chunk s, (accounts chunk).step request s answer = some s) ∧
  takenArea ⟨request, answer⟩ = none ∧ givenArea ⟨request, answer⟩ = none

/-- The rule for a part of a program that does not concern the books. -/
theorem accounts_only {p : HeapProg β} {rest : β → HeapProg α} {Q : Post HeapCall HeapAccount α}
    (hp : p.Only OffBooks)
    (hnone : ∀ trace, trace.filterMap takenArea = [] → trace.filterMap givenArea = [] →
      Q trace none s)
    (hnext : ∀ trace value, trace.filterMap takenArea = [] → trace.filterMap givenArea = [] →
      wp (accounts chunk) .any (rest value) (Q.after trace) s) :
    wp (accounts chunk) .any (p >>= rest) Q s := by
  have hviews : ∀ trace : List (Event HeapCall), Among OffBooks trace →
      trace.filterMap takenArea = [] ∧ trace.filterMap givenArea = [] := by
    intro trace htrace
    constructor
    · exact List.filterMap_eq_nil_iff.mpr fun e he => (htrace e he e.answer).2.1
    · exact List.filterMap_eq_nil_iff.mpr fun e he => (htrace e he e.answer).2.2
  refine wp_only_then (I := fun t => t = s) ?_ (fun _ _ _ _ _ _ _ => trivial) hp rfl ?_ ?_
  · intro β request answer t t' hkind hstep ht
    rw [(hkind answer).1] at hstep
    cases hstep
    exact ht
  · intro trace t htrace ht
    subst ht
    exact hnone trace (hviews trace htrace).1 (hviews trace htrace).2
  · intro trace value t htrace ht
    subst ht
    exact hnext trace value (hviews trace htrace).1 (hviews trace htrace).2

theorem carveoutHeapClearPages_offBooks (pages : List Nat) (prot : Pgprot) :
    (carveoutHeapClearPages pages prot).Only OffBooks := by
  refine .then (fun _ => ⟨fun _ _ => rfl, rfl, rfl⟩) fun mapped => ?_
  split
  · exact .pure _
  · exact .then (fun _ => ⟨fun _ _ => rfl, rfl, rfl⟩) fun _ =>
      .then (fun _ => ⟨fun _ _ => rfl, rfl, rfl⟩) fun _ => .pure _

theorem sglistZeroLoop_offBooks (prot : Pgprot) (rest pages : List Nat) :
    (sglistZeroLoop prot rest pages).Only OffBooks := by
  induction rest generalizing pages with
  | nil =>
      unfold sglistZeroLoop
      split
      · exact carveoutHeapClearPages_offBooks _ _
      · exact .pure _
  | cons page rest ih =>
      unfold sglistZeroLoop
      dsimp only
      split
      · refine .bind (carveoutHeapClearPages_offBooks _ _) fun ret => ?_
        split
        · exact .pure _
        · exact ih _
      · exact ih _

theorem clearHighmem_offBooks (page n : Nat) : (clearHighmem page n).Only OffBooks := by
  induction n generalizing page with
  | zero => exact .pure _
  | succ n ih =>
      refine .then (fun _ => ⟨fun _ _ => rfl, rfl, rfl⟩) fun _ =>
        .then (fun _ => ⟨fun _ _ => rfl, rfl, rfl⟩) fun _ =>
        .then (fun _ => ⟨fun _ _ => rfl, rfl, rfl⟩) fun _ =>
        .then (fun _ => ⟨fun _ _ => rfl, rfl, rfl⟩) fun killed => ?_
      split
      · exact .pure _
      · exact ih _

/-! ## The heaps -/

/-- How an allocation can end: the books are as they were, or a range is taken that belongs to the
buffer. -/
def AllocEnds (s : HeapAccount) (area : Buffer → Area) :
    Post HeapCall HeapAccount (Except Int Buffer) := fun trace result s' =>
  match result with
  | some (.ok buffer) => s' = s.take (area buffer) ∧
      trace.filterMap takenArea = [area buffer] ∧ trace.filterMap givenArea = []
  | some (.error _) => s' = s
  | none => True

/-- How a free callback ends: the range is given back. -/
def FreeEnds (s : HeapAccount) (area : Area) : Post HeapCall HeapAccount Unit :=
  fun trace result s' => result = some () → s' = s.give area ∧
    trace.filterMap givenArea = [area] ∧ trace.filterMap takenArea = []

/-- An allocation and a free callback that agree on the range of a buffer. -/
theorem settles_of_ends {allocate : HeapProg (Except Int Buffer)} {free : Buffer → HeapProg Unit}
    {area : Buffer → Area}
    (hallocate : wp (accounts chunk) .any allocate (AllocEnds s area) s)
    (hfree : ∀ buffer t, wp (accounts chunk) .any (free buffer) (FreeEnds t (area buffer)) t) :
    Settles (accounts chunk) allocate free s where
  failed _ _ _ hexec := wp_exec hallocate hexec
  freed := by
    intro trace buffer s' hexec
    obtain ⟨hs', htaken, hgiven⟩ := wp_exec hallocate hexec
    exact ⟨area buffer, hs', htaken, hgiven, fun t _ _ hexec' => wp_exec (hfree buffer t) hexec' rfl⟩

/-- The range of a buffer of a carveout heap. -/
def poolArea (buffer : Buffer) : Area := .pool ⟨pageToPhys buffer.page, buffer.len⟩

/-- The range of a buffer of a CMA heap. -/
def cmaArea (buffer : Buffer) : Area := .cma buffer.page (buffer.len >>> PAGE_SHIFT).toNat

/-- A range of the pool starts at a page, whose number leads back to it. -/
theorem pageToPhys_pfnDown {addr size : U64} (hpool : chunk.PoolBase)
    (h : (Range.mk addr size).InChunk chunk) : pageToPhys (pfnDown addr) = addr := by
  have haligned := hpool.aligned
  have hle : chunk.addr.toNat ≤ addr.toNat := h.1
  have hoffset : (addr.toNat - chunk.addr.toNat) % PAGE_SIZE = 0 := h.2.1
  have hlt := addr.isLt
  apply BitVec.eq_of_toNat_eq
  rw [pageToPhys, BitVec.toNat_shiftLeft, BitVec.toNat_ofNat, pfnDown_eq]
  simp only [PAGE_SHIFT, PAGE_SIZE, Nat.shiftLeft_eq] at haligned hoffset ⊢
  omega

/-- No range of the pool has the address that stands for a failed allocation. -/
theorem inChunk_ne_fail {addr size : U64} (hpool : chunk.PoolBase)
    (h : (Range.mk addr size).InChunk chunk) : addr ≠ CARVEOUT_ALLOCATE_FAIL := by
  rw [← pageToPhys_pfnDown hpool h]
  exact pageToPhys_ne_fail _

/-- What `carveout_allocate` does to the books. -/
inductive PoolAlloc (chunk : Range) (s : HeapAccount) (size : U64) :
    List Area → List Area → Option U64 → HeapAccount → Prop where
  | failed : PoolAlloc chunk s size [] [] (some CARVEOUT_ALLOCATE_FAIL) s
  | taken {addr : U64} (h : (Range.mk addr size).InChunk chunk) :
      PoolAlloc chunk s size [.pool ⟨addr, size⟩] [] (some addr) (s.takeArea (.pool ⟨addr, size⟩))

theorem carveoutAllocate_ends (size : U64) :
    wp (accounts chunk) .any (carveoutAllocate size) (fun trace result s' =>
      PoolAlloc chunk s size (trace.filterMap takenArea) (trace.filterMap givenArea) result s')
      s := by
  refine wp_step fun addr s₁ hs₁ => ?_
  simp only [accounts] at hs₁
  split
  · rename_i hzero
    rw [if_pos hzero] at hs₁
    cases hs₁
    refine wp_pure.mpr ?_
    have htaken : takenArea ⟨.genPoolAlloc size, addr⟩ = none := if_pos hzero
    simp only [Post.after_apply, List.append_nil, List.filterMap_cons, htaken]
    exact .failed
  · rename_i hne
    rw [if_neg hne] at hs₁
    split at hs₁
    · rename_i hrange
      cases hs₁
      refine wp_pure.mpr ?_
      have htaken : takenArea ⟨.genPoolAlloc size, addr⟩ = some (.pool ⟨addr, size⟩) := if_neg hne
      simp only [Post.after_apply, List.append_nil, List.filterMap_cons, htaken]
      exact .taken hrange.2
    · cases hs₁

theorem carveoutHeapAllocate_ends (hpool : chunk.PoolBase) (len : U64) :
    wp (accounts chunk) .any (carveoutHeapAllocate len) (AllocEnds s poolArea) s := by
  refine wp_step fun allocated s₁ hs₁ => ?_
  cases allocated with
  | false =>
      cases hs₁
      exact wp_pure.mpr rfl
  | true =>
  cases hs₁
  refine wp_step fun ret s₂ hs₂ => ?_
  simp only [accounts] at hs₂
  split
  · rename_i hret
    rw [if_neg hret] at hs₂
    cases hs₂
    exact accounts_do rfl (wp_pure.mpr s.freeObject_newObject)
  · rename_i hret
    rw [not_not] at hret
    rw [if_pos hret] at hs₂
    cases hs₂
    rw [wp_bind]
    refine wp_mono (carveoutAllocate_ends len) ?_
    intro trace paddr s₃ hpaddr
    generalize htaken : trace.filterMap takenArea = taken at hpaddr
    generalize hgiven : trace.filterMap givenArea = given at hpaddr
    cases hpaddr with
    | failed =>
        refine accounts_do rfl (accounts_do rfl (wp_pure.mpr ?_))
        show s.newObject.newTable.freeTable.freeObject = s
        simp
    | @taken addr hrange =>
        have hphys : pageToPhys (pfnDown addr) = addr := pageToPhys_pfnDown hpool hrange
        have hne : addr ≠ CARVEOUT_ALLOCATE_FAIL := inChunk_ne_fail hpool hrange
        show wp (accounts chunk) .any (if addr = CARVEOUT_ALLOCATE_FAIL then _ else _) _ _
        rw [if_neg hne]
        refine accounts_idle (fun _ => rfl) fun ret => ?_
        split
        · -- the buffer cannot be exported
          rw [carveoutFree, if_neg hne]
          refine accounts_do rfl (accounts_do rfl (accounts_do rfl (wp_pure.mpr ?_)))
          show ((s.take (.pool ⟨addr, len⟩)).give (.pool ⟨addr, len⟩)) = s
          exact HeapAccount.give_take s _
        · refine wp_pure.mpr ?_
          have harea : poolArea ⟨pfnDown addr, len⟩ = .pool ⟨addr, len⟩ := by
            rw [poolArea, hphys]
          simp only [AllocEnds, Post.after_apply, List.append_nil, List.filterMap_append, htaken,
            hgiven, harea]
          exact ⟨rfl, rfl, rfl⟩

theorem carveoutHeapFree_ends (isNomap : Bool) (buffer : Buffer) :
    wp (accounts chunk) .any (carveoutHeapFree isNomap buffer) (FreeEnds s (poolArea buffer)) s := by
  have hgive (trace : List (Event HeapCall)) (htaken : trace.filterMap takenArea = [])
      (hgiven : trace.filterMap givenArea = []) :
      wp (accounts chunk) .any (do
          carveoutFree (pageToPhys buffer.page) buffer.len
          perform .sgFreeTable
          perform .kfree : HeapProg Unit)
        ((FreeEnds s (poolArea buffer)).after trace) s := by
    rw [carveoutFree, if_neg (pageToPhys_ne_fail _)]
    refine accounts_do rfl (accounts_do rfl (accounts_do rfl (wp_pure.mpr ?_)))
    simp only [FreeEnds, Post.after_apply, List.append_nil, List.filterMap_append, htaken, hgiven]
    exact fun _ => ⟨rfl, rfl, rfl⟩
  unfold carveoutHeapFree
  split
  · exact accounts_only (sglistZeroLoop_offBooks _ _ _) (fun _ _ _ h => by cases h)
      fun trace _ htaken hgiven => hgive trace htaken hgiven
  · exact accounts_only (sglistZeroLoop_offBooks _ _ _) (fun _ _ _ h => by cases h)
      fun trace _ htaken hgiven => hgive trace htaken hgiven

theorem cmaHeapFree_ends (buffer : Buffer) :
    wp (accounts chunk) .any (cmaHeapFree buffer) (FreeEnds s (cmaArea buffer)) s := by
  refine accounts_do rfl (accounts_do rfl (accounts_do rfl (wp_pure.mpr fun _ => ?_)))
  exact ⟨rfl, rfl, rfl⟩

/-- The end of `cma_heap_allocate`, once the range is taken and cleared. -/
theorem cmaExport_ends {past : List (Event HeapCall)} (page : Nat) (size : U64)
    (htaken : past.filterMap takenArea = [.cma page (size >>> PAGE_SHIFT).toNat])
    (hgiven : past.filterMap givenArea = []) :
    wp (accounts chunk) .any (do
        let ret ← perform .sgAllocTable
        if ret ≠ 0 then
          perform (.cmaRelease page (size >>> PAGE_SHIFT).toNat)
          perform .kfree
          return .error ret
        let ret ← perform (.dmaBufExport ⟨page, size⟩)
        if ret ≠ 0 then
          perform .sgFreeTable
          perform (.cmaRelease page (size >>> PAGE_SHIFT).toNat)
          perform .kfree
          return .error ret
        return .ok ⟨page, size⟩ : HeapProg (Except Int Buffer))
      ((AllocEnds s cmaArea).after past)
      (s.newObject.takeArea (.cma page (size >>> PAGE_SHIFT).toNat)) := by
  refine wp_step fun ret s₁ hs₁ => ?_
  simp only [accounts] at hs₁
  split
  · rename_i hret
    rw [if_neg hret] at hs₁
    cases hs₁
    refine accounts_do rfl (accounts_do rfl (wp_pure.mpr ?_))
    show ((s.newObject.takeArea _).giveArea _).freeObject = s
    simp
  · rename_i hret
    rw [not_not] at hret
    rw [if_pos hret] at hs₁
    cases hs₁
    refine accounts_idle (fun _ => rfl) fun ret => ?_
    split
    · refine accounts_do rfl (accounts_do rfl (accounts_do rfl (wp_pure.mpr ?_)))
      show ((s.newObject.takeArea _).newTable.freeTable.giveArea _).freeObject = s
      simp
    · refine wp_pure.mpr ?_
      simp only [AllocEnds, Post.after_apply, List.append_nil, List.filterMap_append, htaken,
        hgiven]
      exact ⟨rfl, rfl, rfl⟩

theorem cmaHeapAllocate_ends (maxAlign : Nat) (len : U64) :
    wp (accounts chunk) .any (cmaHeapAllocate maxAlign len) (AllocEnds s cmaArea) s := by
  unfold cmaHeapAllocate
  dsimp only
  refine wp_step fun allocated s₁ hs₁ => ?_
  cases allocated with
  | false =>
      cases hs₁
      exact wp_pure.mpr rfl
  | true =>
  cases hs₁
  refine wp_step fun cmaPages s₂ hs₂ => ?_
  cases cmaPages with
  | none =>
      cases hs₂
      exact accounts_do rfl (wp_pure.mpr s.freeObject_newObject)
  | some page =>
  cases hs₂
  refine accounts_idle (fun _ => rfl) fun high => ?_
  cases high with
  | true =>
      refine accounts_only (clearHighmem_offBooks _ _) (fun _ _ _ => trivial) ?_
      · intro trace killed htaken hgiven
        cases killed with
        | true =>
            refine accounts_do rfl (accounts_do rfl (wp_pure.mpr ?_))
            show ((s.newObject.takeArea _).giveArea _).freeObject = s
            simp
        | false =>
            simp only [Post.after_after, Bool.false_eq_true, if_false]
            refine cmaExport_ends page (pageAlign len) ?_ ?_
            · simp only [List.filterMap_append, htaken]
              rfl
            · simp only [List.filterMap_append, hgiven]
              rfl
  | false =>
      refine accounts_idle (fun _ => rfl) fun _ => ?_
      simp only [Post.after_after]
      exact cmaExport_ends page (pageAlign len) rfl rfl

/-- In both heaps an allocation that fails, at whatever step, leaves everything as it was, and the
free callback of a buffer gives back the range that its allocation took, once. -/
theorem heap_allocations_settled (hpool : chunk.PoolBase) (len : U64) (isNomap : Bool)
    (maxAlign : Nat) (s : HeapAccount) :
    Settles (accounts chunk) (carveoutHeapAllocate len) (carveoutHeapFree isNomap) s ∧
    Settles (accounts chunk) (cmaHeapAllocate maxAlign len) cmaHeapFree s :=
  ⟨settles_of_ends (carveoutHeapAllocate_ends hpool len) fun buffer _ =>
      carveoutHeapFree_ends isNomap buffer,
    settles_of_ends (cmaHeapAllocate_ends maxAlign len) fun buffer _ => cmaHeapFree_ends buffer⟩

/-- A chunk of one page. -/
def onePageChunk : Range := ⟨0x80000000, 0x1000⟩

/-- The only page of a pool is handed out and given back. -/
theorem heap_allocations_settled_onePage : ∃ trace s,
    Exec (accounts onePageChunk) (carveoutHeapAllocate 0x1000) ⟨fun _ => 0, 0, 0⟩ trace
      (some (.ok onePage)) s ∧
    s = HeapAccount.take ⟨fun _ => 0, 0, 0⟩ (.pool onePageChunk) ∧
    ∀ trace' t, Exec (accounts onePageChunk) (carveoutHeapFree false onePage) s trace' (some ()) t →
      t = ⟨fun _ => 0, 0, 0⟩ := by
  have hpool : onePageChunk.PoolBase := ⟨by decide, by decide⟩
  have hcheck : (carveoutHeapAllocate 0x1000).check (accounts onePageChunk)
      (fun β request _ => grant true β request (.unmanaged fun _ => 0)) ⟨fun _ => 0, 0, 0⟩
      (fun trace result _ => result.toOption = some onePage &&
        trace.filterMap takenArea = [.pool onePageChunk]) = true := by
    decide +kernel
  obtain ⟨trace, result, s, hexec, htest⟩ := Program.check_exec hcheck
  simp only [Bool.and_eq_true, decide_eq_true_eq] at htest
  obtain ⟨hresult, htaken⟩ := htest
  cases result with
  | error err => cases hresult
  | ok buffer =>
      cases hresult
      have hsettles := (heap_allocations_settled hpool 0x1000 false 8 ⟨fun _ => 0, 0, 0⟩).1
      obtain ⟨area, hs, harea, _, hfree⟩ := hsettles.freed trace onePage s hexec
      rw [htaken] at harea
      cases harea
      refine ⟨trace, s, hexec, hs, fun trace' t hexec' => ?_⟩
      rw [(hfree s trace' t hexec').1, hs, HeapAccount.give_take]

end SafeLinux.Heaps
