import SafeLinux.Effects.Wp
import SafeLinux.Heaps.Driver
import Mathlib.Tactic.IntervalCases

/-!
# Clearing memory

What the clearing code of the two heaps does to memory: `carveout_pages_zero` and the two branches
of `cma_heap_allocate`. Pages are cleared whole; a byte is zero afterwards if its page was cleared
and is unchanged otherwise.
-/

namespace SafeLinux.Heaps

open Effects
open Effects.Program (perform)

/-! ## Memory -/

theorem Memory.clear_page_apply (m : Memory) (page a : Nat) :
    m.clear (page * PAGE_SIZE) ((page + 1) * PAGE_SIZE) a =
      if a / PAGE_SIZE = page then 0 else m a := by
  unfold Memory.clear PAGE_SIZE
  have hiff : (page * 4096 ≤ a ∧ a < (page + 1) * 4096) ↔ a / 4096 = page := by omega
  simp only [hiff]

/-- A byte after pages were cleared. -/
theorem Memory.clearPages_apply (m : Memory) (pages : List Nat) (a : Nat) :
    m.clearPages pages a = if a / PAGE_SIZE ∈ pages then 0 else m a := by
  unfold Memory.clearPages
  induction pages generalizing m with
  | nil => simp
  | cons page pages ih =>
      rw [List.foldl_cons, ih, Memory.clear_page_apply]
      by_cases hrest : a / PAGE_SIZE ∈ pages
      · simp [hrest]
      · simp [hrest]

theorem Memory.clearPages_append (m : Memory) (pages pages' : List Nat) :
    m.clearPages (pages ++ pages') = (m.clearPages pages).clearPages pages' :=
  List.foldl_append

/-- The state with pages cleared. -/
def State.cleared (s : State) (pages : List Nat) : State :=
  { s with mem := s.mem.clearPages pages }

@[simp] theorem State.cleared_nil (s : State) : s.cleared [] = s := rfl

theorem State.cleared_append (s : State) (pages pages' : List Nat) :
    s.cleared (pages ++ pages') = (s.cleared pages).cleared pages' := by
  simp only [State.cleared, Memory.clearPages_append]

@[simp] theorem State.cleared_live (s : State) (pages : List Nat) :
    (s.cleared pages).live = s.live := rfl

@[simp] theorem State.cleared_handed (s : State) (pages : List Nat) :
    (s.cleared pages).handed = s.handed := rfl

@[simp] theorem State.cleared_chunk (s : State) (pages : List Nat) :
    (s.cleared pages).chunk = s.chunk := rfl

theorem State.cleared_mem (s : State) (pages : List Nat) (a : Nat) :
    (s.cleared pages).mem a = if a / PAGE_SIZE ∈ pages then 0 else s.mem a :=
  s.mem.clearPages_apply pages a

/-- A page that holds only zero bytes. -/
def State.ZeroPage (s : State) (page : Nat) : Prop := ∀ a, a / PAGE_SIZE = page → s.mem a = 0

theorem State.ZeroPage.cleared {s : State} {page : Nat} (h : s.ZeroPage page) (pages : List Nat) :
    (s.cleared pages).ZeroPage page := by
  intro a ha
  rw [State.cleared_mem, h a ha]
  split <;> rfl

theorem State.zeroPage_cleared {s : State} {page : Nat} {pages : List Nat} (h : page ∈ pages) :
    (s.cleared pages).ZeroPage page := by
  intro a ha
  rw [State.cleared_mem, ha, if_pos h]

/-! ## Pages and addresses -/

theorem pfnDown_eq (addr : U64) : pfnDown addr = addr.toNat / PAGE_SIZE := by
  simp [pfnDown, PAGE_SHIFT, PAGE_SIZE, BitVec.toNat_ushiftRight, Nat.shiftRight_eq_div_pow]

/-- The pages of a buffer. -/
def Buffer.HasPage (b : Buffer) (page : Nat) : Prop :=
  b.page ≤ page ∧ page < b.page + pagesFor b.len

theorem Buffer.contains_iff (b : Buffer) (a : Nat) :
    b.Contains a ↔ b.HasPage (a / PAGE_SIZE) := by
  unfold Buffer.Contains Buffer.HasPage PAGE_SIZE
  omega

/-- Shifting out the bits of a page makes alignment unnecessary. -/
theorem pageAlign_shift {w : Nat} (x : BitVec w) :
    pageAlign x >>> PAGE_SHIFT = (x + 0xFFF) >>> PAGE_SHIFT := by
  refine BitVec.eq_of_getLsbD_eq fun i hi => ?_
  have hhigh : (0xFFF : BitVec w).getLsbD (PAGE_SHIFT + i) = false := by
    have hlt : 0xFFF < 2 ^ (PAGE_SHIFT + i) :=
      Nat.lt_of_lt_of_le (by decide : 0xFFF < 2 ^ 12) (Nat.pow_le_pow_right (by decide)
        (by unfold PAGE_SHIFT; omega))
    rw [show (0xFFF : BitVec w) = BitVec.ofNat w 0xFFF from rfl, BitVec.getLsbD_ofNat,
      Nat.testBit_lt_two_pow hlt, Bool.and_false]
  simp only [pageAlign, BitVec.getLsbD_ushiftRight, BitVec.getLsbD_and, BitVec.getLsbD_not, hhigh,
    Bool.not_false, Bool.and_true]
  by_cases hw : PAGE_SHIFT + i < w
  · simp [hw]
  · simp [hw, BitVec.getLsbD_of_ge _ _ (Nat.not_lt.mp hw)]

theorem toNat_shift_page {w : Nat} (x : BitVec w) :
    (x >>> PAGE_SHIFT).toNat = x.toNat / PAGE_SIZE := by
  rw [BitVec.toNat_ushiftRight, Nat.shiftRight_eq_div_pow]
  rfl

/-- The pages of a scatterlist entry hold its bytes, as long as rounding up does not overflow. -/
theorem sgPageCount_eq {len : U64} (h : len.toNat ≤ 0xFFFFF000) :
    sgPageCount (len.setWidth 32) = pagesFor len := by
  have hlen : (len.setWidth 32 : U32).toNat = len.toNat := by
    rw [BitVec.toNat_setWidth, Nat.mod_eq_of_lt (by omega)]
  have hsum : (len.setWidth 32 + 0xFFF : U32).toNat = len.toNat + 0xFFF := by
    rw [BitVec.toNat_add, hlen]
    exact Nat.mod_eq_of_lt (by simp; omega)
  rw [sgPageCount, pageAlign_shift, toNat_shift_page, hsum, pagesFor]

/-- The rule for a call that leaves the state alone, whatever its answer. -/
theorem wp_idle {α β : Type} [Nonempty β] {request : HeapCall β} {rest : β → HeapProg α}
    {Q : Post HeapCall State α} {s : State}
    (hstep : ∀ answer, heap.step request s answer = some s)
    (hnext : ∀ answer, wp heap .any (rest answer) (Q.after [⟨request, answer⟩]) s) :
    wp heap .any (perform request >>= rest) Q s := by
  refine wp_step fun answer s' h => ?_
  obtain rfl := Option.some.inj ((hstep answer).symm.trans h)
  exact hnext answer

/-! ## Clearing through `vmap` -/

/-- Every `vmap` of a trace succeeds. -/
def VmapsSucceed (trace : List (Event HeapCall)) : Prop :=
  ∀ pages prot, (⟨.vmap pages prot, false⟩ : Event HeapCall) ∉ trace

theorem VmapsSucceed.of_append {trace trace' : List (Event HeapCall)}
    (h : VmapsSucceed (trace ++ trace')) : VmapsSucceed trace ∧ VmapsSucceed trace' :=
  ⟨fun pages prot hmem => h pages prot (List.mem_append_left _ hmem),
    fun pages prot hmem => h pages prot (List.mem_append_right _ hmem)⟩

/-- What clearing a list of pages leaves: some of them are cleared, and all of them if no `vmap`
fails, which the return value 0 reports. -/
def ClearedSome (pages : List Nat) (s : State) (trace : List (Event HeapCall))
    (result : Option Int) (s' : State) : Prop :=
  ∃ value done, result = some value ∧ s' = s.cleared done ∧ (∀ page ∈ done, page ∈ pages) ∧
    (value = 0 → ∀ page ∈ pages, page ∈ done) ∧ (VmapsSucceed trace → value = 0)

theorem carveoutHeapClearPages_spec (pages : List Nat) (prot : Pgprot) (s : State) :
    wp heap .any (carveoutHeapClearPages pages prot)
      (fun trace result s' => ClearedSome pages s trace result s') s := by
  unfold carveoutHeapClearPages
  refine wp_idle (fun _ => rfl) fun mapped => ?_
  cases mapped with
  | false =>
      refine wp_pure.mpr ⟨_, [], rfl, rfl, by simp, ?_, ?_⟩
      · intro h
        exact absurd h (by decide)
      · intro h
        exact absurd List.mem_cons_self (h pages prot)
  | true =>
      refine wp_step ?_
      intro _ s₂ hset
      obtain rfl : s.cleared pages = s₂ := by simpa [heap, State.cleared] using hset
      refine wp_idle (fun _ => rfl) fun _ => ?_
      exact wp_pure.mpr ⟨0, pages, rfl, rfl, fun _ h => h, fun _ _ h => h, fun _ => rfl⟩

/-- The loop clears the pages already in the array and those still to come. -/
theorem sglistZeroLoop_spec (prot : Pgprot) (rest pages : List Nat) (s : State) :
    wp heap .any (sglistZeroLoop prot rest pages)
      (fun trace result s' => ClearedSome (pages ++ rest) s trace result s') s := by
  induction rest generalizing pages s with
  | nil =>
      unfold sglistZeroLoop
      rw [List.append_nil]
      by_cases hpages : pages ≠ []
      · rw [if_pos hpages]
        exact carveoutHeapClearPages_spec pages prot s
      · rw [if_neg hpages]
        obtain rfl : pages = [] := not_not.mp hpages
        exact wp_pure.mpr ⟨0, [], rfl, rfl, by simp, fun _ _ h => h, fun _ => rfl⟩
  | cons page rest ih =>
      unfold sglistZeroLoop
      have hpages : pages ++ page :: rest = (pages ++ [page]) ++ rest := by simp
      rw [hpages]
      dsimp only
      split
      · refine wp_bind.mpr (wp_mono (carveoutHeapClearPages_spec (pages ++ [page]) prot s) ?_)
        rintro trace _ s₁ ⟨value, done, rfl, rfl, hdone, hall, hsucceed⟩
        rw [Post.andThen_some]
        by_cases hvalue : value ≠ 0
        · rw [if_pos hvalue]
          refine wp_pure.mpr ⟨value, done, rfl, rfl, ?_, fun h => absurd h hvalue, ?_⟩
          · exact fun page hpage => List.mem_append_left _ (hdone page hpage)
          · intro h
            exact absurd (hsucceed h.of_append.1) hvalue
        · rw [if_neg hvalue]
          refine wp_mono (ih [] (s.cleared done)) ?_
          rintro trace' _ s₂ ⟨value', done', rfl, rfl, hdone', hall', hsucceed'⟩
          rw [List.nil_append] at hdone' hall'
          refine ⟨value', done ++ done', rfl, (s.cleared_append done done').symm, ?_, ?_, ?_⟩
          · intro page hpage
            rcases List.mem_append.mp hpage with hpage | hpage
            · exact List.mem_append_left _ (hdone page hpage)
            · exact List.mem_append_right _ (hdone' page hpage)
          · intro hzero page hpage
            rcases List.mem_append.mp hpage with hpage | hpage
            · exact List.mem_append_left _ (hall (not_not.mp hvalue) page hpage)
            · exact List.mem_append_right _ (hall' hzero page hpage)
          · intro h
            exact hsucceed' h.of_append.2
      · exact ih (pages ++ [page]) s

/-- What `carveout_pages_zero` leaves. -/
theorem carveoutPagesZero_spec (page : Nat) (size : U64) (prot : Pgprot) (s : State) :
    wp heap .any (carveoutPagesZero page size prot)
      (fun trace result s' => ClearedSome (List.range' page (sgPageCount (size.setWidth 32))) s
        trace result s') s :=
  sglistZeroLoop_spec prot _ [] s

/-! ## Clearing of CMA buffers -/

/-- A loop that no signal ends clears all its pages. -/
theorem clearHighmem_spec (page n : Nat) (s : State) :
    wp heap .any (clearHighmem page n)
      (fun _ result s' => ∃ killed done, result = some killed ∧ s' = s.cleared done ∧
        (killed = false → ∀ p ∈ List.range' page n, p ∈ done)) s := by
  induction n generalizing page s with
  | zero => exact wp_pure.mpr ⟨false, [], rfl, rfl, by simp⟩
  | succ n ih =>
      unfold clearHighmem
      refine wp_idle (fun _ => rfl) fun _ => ?_
      refine wp_step ?_
      intro _ s₂ hset
      obtain rfl : s.cleared [page] = s₂ := by simpa [heap, State.cleared] using hset
      refine wp_idle (fun _ => rfl) fun _ => ?_
      refine wp_idle (fun _ => rfl) fun killed => ?_
      cases killed with
      | true => exact wp_pure.mpr ⟨true, [page], rfl, rfl, fun h => absurd h (by decide)⟩
      | false =>
          refine wp_mono (ih (page + 1) (s.cleared [page])) ?_
          rintro trace _ s₅ ⟨killed, done, rfl, rfl, hall⟩
          refine ⟨killed, [page] ++ done, rfl, (s.cleared_append [page] done).symm, ?_⟩
          intro hkilled p hp
          rw [List.range'_succ, List.mem_cons] at hp
          rcases hp with rfl | hp
          · exact List.mem_append_left _ List.mem_cons_self
          · exact List.mem_append_right _ (hall hkilled p hp)

theorem pageAlign_mod (x : U64) : (pageAlign x).toNat % PAGE_SIZE = 0 := by
  change (pageAlign x).toNat % 2 ^ 12 = 0
  refine Nat.eq_of_testBit_eq fun i => ?_
  rw [Nat.testBit_mod_two_pow, Nat.zero_testBit, BitVec.testBit_toNat]
  by_cases hi : i < 12
  · have hlow : (~~~0xFFF : U64).getLsbD i = false := by
      interval_cases i <;> rfl
    rw [pageAlign, BitVec.getLsbD_and, hlow, Bool.and_false, Bool.and_false]
  · simp [hi]

/-- An aligned size is a whole number of pages. -/
theorem pageAlign_toNat (x : U64) :
    (pageAlign x).toNat = (pageAlign x >>> PAGE_SHIFT).toNat * PAGE_SIZE := by
  rw [toNat_shift_page]
  have := pageAlign_mod x
  unfold PAGE_SIZE at *
  omega

theorem pagesFor_pageAlign (x : U64) :
    pagesFor (pageAlign x) = (pageAlign x >>> PAGE_SHIFT).toNat := by
  rw [pagesFor, pageAlign_toNat]
  unfold PAGE_SIZE
  omega

/-- Clearing an aligned size from a page on clears its pages. -/
theorem clear_pageAlign (s : State) (page : Nat) (x : U64) :
    { s with mem := s.mem.clear (page * PAGE_SIZE) (page * PAGE_SIZE + (pageAlign x).toNat) } =
      s.cleared (List.range' page (pageAlign x >>> PAGE_SHIFT).toNat) := by
  unfold State.cleared
  congr 1
  funext a
  rw [Memory.clearPages_apply, Memory.clear, pageAlign_toNat]
  have hiff : (page * PAGE_SIZE ≤ a ∧
      a < page * PAGE_SIZE + (pageAlign x >>> PAGE_SHIFT).toNat * PAGE_SIZE) ↔
      a / PAGE_SIZE ∈ List.range' page (pageAlign x >>> PAGE_SHIFT).toNat := by
    rw [List.mem_range'_1]
    unfold PAGE_SIZE
    omega
  simp only [hiff]

end SafeLinux.Heaps
