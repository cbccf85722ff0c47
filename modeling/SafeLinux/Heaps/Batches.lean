import SafeLinux.Effects.Arrays
import SafeLinux.Heaps.Clearing

/-!
# Clearing in batches of 32 pages

`carveout_heap_sglist_zero` with its array of 32 pages and the index `p` into it. All its stores are
inside the array; without the stores it is the loop of the driver (`sglistZeroLoopIndexed_erase`).
`InBatches` says what the loop does to a list of pages: it clears batches of 32 in their order, up
to the first that cannot be mapped. For whole pages below 4 GiB the list is the range of the buffer.
-/

namespace SafeLinux.Heaps

open Effects
open Effects.Program (perform)

/-- Programs of the heaps that write an array of pages. -/
abbrev ArrayProg (α : Type) := Program (Either HeapCall (ArrayCall Nat)) α

/-- A part that does not write the array. -/
abbrev plain {α : Type} (p : HeapProg α) : ArrayProg α := p.lift .inl

/-- The loop of `carveout_heap_sglist_zero`, with the array and the index. -/
def sglistZeroLoopIndexed (prot : Pgprot) : List Nat → Vector Nat 32 → Nat → ArrayProg Int
  | [], pages, p =>
      if p ≠ 0 then plain (carveoutHeapClearPages (pages.toList.take p) prot)
      else return 0
  | page :: rest, pages, p => do
      store p page
      let pages := pages.setIfInBounds p page
      let p := p + 1
      if p = 32 then
        let ret ← plain (carveoutHeapClearPages (pages.toList.take p) prot)
        if ret ≠ 0 then
          return ret
        sglistZeroLoopIndexed prot rest pages 0
      else
        sglistZeroLoopIndexed prot rest pages p

/-- `carveout_pages_zero`; what the array holds at first is undefined. -/
def carveoutPagesZeroIndexed (page : Nat) (size : U64) (prot : Pgprot) (pages : Vector Nat 32) :
    ArrayProg Int :=
  sglistZeroLoopIndexed prot (List.range' page (sgPageCount (size.setWidth 32))) pages 0

/-! ## The array -/

/-- The first elements of the array after the next one is written. -/
theorem take_setIfInBounds {pages : Vector Nat 32} {p : Nat} (page : Nat) (hp : p < 32) :
    (pages.setIfInBounds p page).toList.take (p + 1) = pages.toList.take p ++ [page] := by
  have hlength : p < (pages.toList.set p page).length := by
    rw [List.length_set, Vector.length_toList]
    exact hp
  rw [Vector.toList_setIfInBounds, List.take_succ_eq_append_getElem hlength,
    List.take_set_of_le le_rfl, List.getElem_set_self]

/-- Without its stores this is the loop of the driver. -/
theorem sglistZeroLoopIndexed_erase (prot : Pgprot) (rest : List Nat) (pages : Vector Nat 32)
    {p : Nat} (hp : p < 32) :
    (sglistZeroLoopIndexed prot rest pages p).erase ArrayCall.reply =
      sglistZeroLoop prot rest (pages.toList.take p) := by
  induction rest generalizing pages p with
  | nil =>
      unfold sglistZeroLoopIndexed sglistZeroLoop
      by_cases hzero : p = 0
      · subst hzero
        rfl
      · have hnonempty : pages.toList.take p ≠ [] := by
          intro hempty
          have hlength := congrArg List.length hempty
          rw [List.length_take, Vector.length_toList, List.length_nil] at hlength
          omega
        rw [if_pos hzero, if_pos hnonempty]
        exact erase_lift
  | cons page rest ih =>
      have hfull : (pages.toList.take p ++ [page]).length = 32 ↔ p + 1 = 32 := by
        rw [List.length_append, List.length_take, Vector.length_toList, List.length_singleton]
        omega
      unfold sglistZeroLoopIndexed sglistZeroLoop
      rw [store_bind_erase]
      show Program.erase ArrayCall.reply (if p + 1 = 32 then _ else _) =
        if (pages.toList.take p ++ [page]).length = 32 then _ else _
      by_cases hend : p + 1 = 32
      · rw [if_pos hend, if_pos (hfull.mpr hend), erase_bind, erase_lift,
          take_setIfInBounds page hp]
        refine congrArg (_ >>= ·) (funext fun ret => ?_)
        by_cases hret : ret ≠ 0
        · rw [if_pos hret, if_pos hret]
          rfl
        · rw [if_neg hret, if_neg hret]
          exact ih _ (by omega)
      · rw [if_neg hend, if_neg (mt hfull.mp hend), ih _ (by omega), take_setIfInBounds page hp]

/-- All stores of the loop are inside the array. -/
theorem sglistZeroLoopIndexed_stores (prot : Pgprot) (rest : List Nat) (pages : Vector Nat 32)
    {p : Nat} (hp : p < 32) :
    (sglistZeroLoopIndexed prot rest pages p).Only (StoresBelow 32) := by
  induction rest generalizing pages p with
  | nil =>
      unfold sglistZeroLoopIndexed
      split
      · exact only_lift _
      · exact .pure 0
  | cons page rest ih =>
      unfold sglistZeroLoopIndexed
      refine .then hp fun _ => ?_
      dsimp only
      split
      · refine (only_lift _).bind fun ret => ?_
        split
        · exact .pure ret
        · exact ih _ (by omega)
      · exact ih _ (by omega)

/-! ## The batches -/

/-- The pages that a call clears. -/
def clearedBy : Event HeapCall → List Nat
  | ⟨.memsetPages pages, _⟩ => pages
  | _ => []

/-- The pages that a trace clears, one entry for each time. -/
def clearedPages (trace : List (Event HeapCall)) : List Nat := trace.flatMap clearedBy

/-- The batch that a call could not map. -/
def failedBatch : Event HeapCall → Option (List Nat)
  | ⟨.vmap pages _, false⟩ => some pages
  | _ => none

/-- The calls clear a list of pages in batches of 32: all of them, each once, if every batch can be
mapped, and otherwise the batches before the first that cannot. -/
structure InBatches (pages : List Nat) (s : State) (trace : List (Event HeapCall))
    (result : Option Int) (s' : State) : Prop where
  memory : s' = s.cleared (clearedPages trace)
  succeeds : VmapsSucceed trace → result = some 0 ∧ clearedPages trace = pages
  fails : ∀ batch ∈ trace.filterMap failedBatch, result = some (-ENOMEM) ∧
    ∃ k, 32 * k < pages.length ∧ batch = (pages.drop (32 * k)).take 32 ∧
      clearedPages trace = pages.take (32 * k)

/-- One batch is cleared, or cannot be mapped. -/
theorem carveoutHeapClearPages_cases (pages : List Nat) (prot : Pgprot) (s : State) :
    wp heap .any (carveoutHeapClearPages pages prot) (fun trace result s' =>
      trace = [⟨.vmap pages prot, false⟩] ∧ result = some (-ENOMEM) ∧ s' = s ∨
      trace = [⟨.vmap pages prot, true⟩, ⟨.memsetPages pages, ()⟩, ⟨.vunmap, ()⟩] ∧
        result = some 0 ∧ s' = s.cleared pages) s := by
  unfold carveoutHeapClearPages
  refine wp_idle (fun _ => rfl) fun mapped => ?_
  cases mapped with
  | false => exact wp_pure.mpr (.inl ⟨rfl, rfl, rfl⟩)
  | true =>
      refine wp_step fun _ s₁ hset => ?_
      obtain rfl := Option.some.inj hset
      exact wp_idle (fun _ => rfl) fun _ => wp_pure.mpr (.inr ⟨rfl, rfl, rfl⟩)

/-- The first batch cannot be mapped. -/
theorem inBatches_failed {batch pages : List Nat} (hbatch : batch ≠ [])
    (hfirst : batch = pages.take 32) (prot : Pgprot) (s : State) :
    InBatches pages s [⟨.vmap batch prot, false⟩] (some (-ENOMEM)) s := by
  refine ⟨rfl, fun h => absurd List.mem_cons_self (h batch prot), ?_⟩
  intro failed hfailed
  obtain rfl : failed = batch := List.mem_singleton.mp hfailed
  have hpages : pages ≠ [] := by
    rintro rfl
    exact hbatch hfirst
  exact ⟨rfl, 0, List.length_pos_iff.mpr hpages, hfirst, rfl⟩

/-- The last batch, which may be short. -/
theorem inBatches_last {pages : List Nat} (hpages : pages ≠ []) (hshort : pages.length ≤ 32)
    (prot : Pgprot) (s : State) :
    wp heap .any (carveoutHeapClearPages pages prot) (InBatches pages s) s := by
  refine wp_mono (carveoutHeapClearPages_cases pages prot s) ?_
  rintro trace result s' (⟨rfl, rfl, rfl⟩ | ⟨rfl, rfl, rfl⟩)
  · exact inBatches_failed hpages (List.take_of_length_le hshort).symm prot s'
  · have hcleared : clearedPages [⟨.vmap pages prot, true⟩, ⟨.memsetPages pages, ()⟩,
        ⟨.vunmap, ()⟩] = pages := List.append_nil pages
    exact ⟨by rw [hcleared], fun _ => ⟨rfl, hcleared⟩, nofun⟩

/-- After a full batch the loop goes on with the pages that follow. -/
theorem InBatches.cons {batch pages : List Nat} {prot : Pgprot} {s s' : State}
    {trace : List (Event HeapCall)} {result : Option Int} (hbatch : batch.length = 32)
    (h : InBatches pages (s.cleared batch) trace result s') :
    InBatches (batch ++ pages) s ([⟨.vmap batch prot, true⟩, ⟨.memsetPages batch, ()⟩,
      ⟨.vunmap, ()⟩] ++ trace) result s' := by
  have hcleared : clearedPages ([⟨.vmap batch prot, true⟩, ⟨.memsetPages batch, ()⟩,
      ⟨.vunmap, ()⟩] ++ trace) = batch ++ clearedPages trace := rfl
  refine ⟨?_, ?_, ?_⟩
  · rw [hcleared, State.cleared_append]
    exact h.memory
  · intro hsucceed
    obtain ⟨hresult, hall⟩ := h.succeeds hsucceed.of_append.2
    exact ⟨hresult, by rw [hcleared, hall]⟩
  · intro failed hfailed
    obtain ⟨hresult, k, hk, hbatch', hbefore⟩ := h.fails failed hfailed
    -- The batch is one further on, counted from the start of the longer list.
    have hindex : 32 * (k + 1) = batch.length + 32 * k := by omega
    refine ⟨hresult, k + 1, ?_, ?_, ?_⟩
    · rw [List.length_append]
      omega
    · rw [hindex, List.drop_length_add_append]
      exact hbatch'
    · rw [hindex, List.take_length_add_append, hcleared, hbefore]

/-- The loop clears the pages in the array and those still to come in batches. -/
theorem sglistZeroLoop_inBatches (prot : Pgprot) (rest : List Nat) {pages : List Nat}
    (hpages : pages.length < 32) (s : State) :
    wp heap .any (sglistZeroLoop prot rest pages) (InBatches (pages ++ rest) s) s := by
  induction rest generalizing pages s with
  | nil =>
      unfold sglistZeroLoop
      rw [List.append_nil]
      split
      · exact inBatches_last ‹_› (by omega) prot s
      · rename_i hempty
        obtain rfl : pages = [] := not_not.mp hempty
        exact wp_pure.mpr ⟨rfl, fun _ => ⟨rfl, rfl⟩, fun _ h => (List.not_mem_nil h).elim⟩
  | cons page rest ih =>
      have hlength : (pages ++ [page]).length = pages.length + 1 := by simp
      have hpages' : pages ++ page :: rest = (pages ++ [page]) ++ rest := by simp
      unfold sglistZeroLoop
      rw [hpages']
      dsimp only
      split
      · rename_i hfull
        refine wp_bind.mpr (wp_mono (carveoutHeapClearPages_cases (pages ++ [page]) prot s) ?_)
        rintro trace result s' (⟨rfl, rfl, rfl⟩ | ⟨rfl, rfl, rfl⟩)
        · refine wp_pure.mpr (inBatches_failed (by simp) ?_ prot s')
          rw [← hfull]
          exact List.take_left.symm
        · refine wp_mono (ih (by simp) (s.cleared (pages ++ [page]))) ?_
          intro trace result s' hrest
          exact hrest.cons hfull
      · exact ih (by omega) s

/-- A whole number of pages below 4 GiB is what `sg_page_count` finds. -/
theorem sgPageCount_pages {size : U64} (hpages : size.toNat % PAGE_SIZE = 0)
    (hsize : size.toNat < 2 ^ 32) : sgPageCount (size.setWidth 32) = size.toNat / PAGE_SIZE := by
  unfold PAGE_SIZE at *
  rw [sgPageCount_eq (by omega), pagesFor]
  unfold PAGE_SIZE
  omega

/-- For whole pages below 4 GiB, `carveout_pages_zero` writes only inside its array, and clears the
pages of the buffer in batches: each once, up to the first batch that cannot be mapped. -/
theorem carveoutPagesZero_inBatches (page : Nat) {size : U64} (prot : Pgprot)
    (pages : Vector Nat 32) (s : State) (cells : Nat → Option Nat)
    (hpages : size.toNat % PAGE_SIZE = 0) (hsize : size.toNat < 2 ^ 32) :
    wp (heap.prod arrayMemory) (.storesBelow 32) (carveoutPagesZeroIndexed page size prot pages)
      (fun trace result s' => InBatches (List.range' page (size.toNat / PAGE_SIZE)) s
        (trace.filterMap Event.left) result s'.1) (s, cells) := by
  refine wp_stores (sglistZeroLoopIndexed_stores prot _ pages (by decide)) ?_
  rw [carveoutPagesZeroIndexed, sglistZeroLoopIndexed_erase prot _ pages (by decide),
    sgPageCount_pages hpages hsize, List.take_zero]
  exact sglistZeroLoop_inBatches prot _ (by decide) s

/-- A buffer of 33 pages is cleared in two batches. -/
theorem carveoutPagesZero_inBatches_two :
    wp (heap.prod arrayMemory) (.storesBelow 32)
      (carveoutPagesZeroIndexed 5 135168 .pageKernel (.replicate 32 0))
      (fun trace result s' => InBatches (List.range' 5 33) ⟨fun _ => 1, none, [], []⟩
        (trace.filterMap Event.left) result s'.1) (⟨fun _ => 1, none, [], []⟩, fun _ => none) :=
  carveoutPagesZero_inBatches 5 .pageKernel _ _ _ (by decide) (by decide)

end SafeLinux.Heaps
