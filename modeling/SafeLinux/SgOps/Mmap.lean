import SafeLinux.Effects.Run
import SafeLinux.Linux.Types
import Mathlib.Data.List.Nodup

/-!
# Mapping a buffer into user space

`qcom_sg_mmap` goes through the table of a buffer, skips the pages before the offset of the
mapping and remaps one chunk of pages after the other until the range is used up. Every page of
the range then has its page of the buffer (`qcomSgMmap_maps`), if every chunk can be remapped. The
result does not tell when one could not (`qcomSgMmap_reports_iff`).

A page is its frame number, and an entry of the table starts at the begin of a page.
-/

namespace SafeLinux.SgOps

open Effects
open Effects.Program (perform)

def PAGE_SIZE : U64 := 0x1000

/-- An entry of an sg table, by the frame of its first page. -/
structure SgEntry where
  pfn : Nat
  length : U32
  deriving DecidableEq

/-- `struct sg_table`, whose `nents` is an `unsigned int`. -/
structure SgTable where
  entries : List SgEntry
  nents_lt : entries.length < 2 ^ 32

/-- `struct vm_area_struct` -/
structure VmArea where
  vmStart : U64
  vmEnd : U64
  vmPgoff : U64

/-- What the mapping asks of the kernel. -/
inductive VmCall : Type → Type where
  | remapPfnRange (addr : U64) (pfn : Nat) (len : U64) : VmCall Int

/-- The loop of `qcom_sg_mmap`; the value of `remap_pfn_range` goes into `ret`, which is not
read. -/
def mmapLoop (vma : VmArea) : List SgEntry → U64 → U64 → Program VmCall Int
  | [], _, _ => return 0
  | sg :: rest, offset, addr => do
      let remainder := vma.vmEnd - addr
      let length := sg.length.setWidth 64
      if offset ≥ length then
        mmapLoop vma rest (offset - length) addr
      else
        let (pfn, len) :=
          if offset ≠ 0 then (sg.pfn + (offset / PAGE_SIZE).toNat, length - offset)
          else (sg.pfn, length)
        let len := if len < remainder then len else remainder
        let _ret ← perform (.remapPfnRange addr pfn len)
        let addr := addr + len
        if addr ≥ vma.vmEnd then
          return 0
        mmapLoop vma rest 0 addr

/-- `qcom_sg_mmap` -/
def qcomSgMmap (table : SgTable) (vma : VmArea) : Program VmCall Int :=
  mmapLoop vma table.entries (vma.vmPgoff * PAGE_SIZE) vma.vmStart

/-! ## Page tables -/

/-- The entries of the page tables that give pages to the range from `addr` on, in order. -/
def placeFrom (addr : U64) : List Nat → List (U64 × Nat)
  | [] => []
  | page :: pages => (addr, page) :: placeFrom (addr + PAGE_SIZE) pages

/-- The entries that have been made in the page tables of a range. `remap_pfn_range` makes those of
the whole chunk, or returns an error and makes none. -/
def addressSpace : Semantics VmCall (List (U64 × Nat)) where
  step := fun request s answer =>
    match request with
    | .remapPfnRange addr pfn len =>
        if answer = 0 then
          some (s ++ placeFrom addr (List.range' pfn (len / PAGE_SIZE).toNat))
        else if answer < 0 then some s
        else none

/-- A chunk could not be remapped. -/
def remapFails : Event VmCall → Bool
  | ⟨.remapPfnRange _ _ _, ret⟩ => decide (ret < 0)

/-- The page tables of a range of which every chunk can be remapped. -/
def remappable : Semantics VmCall (List (U64 × Nat)) :=
  addressSpace.guarded fun _ e => !remapFails e

/-! ## Pages -/

/-- The pages of entries, in order. -/
def pagesOf (entries : List SgEntry) : List Nat :=
  entries.flatMap fun sg => List.range' sg.pfn (sg.length.toNat / 4096)

/-- The lengths of the entries are page multiples. -/
def Paged (entries : List SgEntry) : Prop := ∀ sg ∈ entries, sg.length.toNat % 4096 = 0

instance (entries : List SgEntry) : Decidable (Paged entries) := List.decidableBAll _ _

/-- The number of pages of a range. -/
def VmArea.pages (vma : VmArea) : Nat := (vma.vmEnd.toNat - vma.vmStart.toNat) / 4096

/-- The address of a page of a range. -/
def VmArea.page (vma : VmArea) (i : Nat) : U64 := vma.vmStart + BitVec.ofNat 64 (4096 * i)

/-- The range is made of pages, and the buffer has so many from its offset on. -/
structure SgTable.Admits (table : SgTable) (vma : VmArea) : Prop where
  paged : Paged table.entries
  start_aligned : vma.vmStart.toNat % 4096 = 0
  end_aligned : vma.vmEnd.toNat % 4096 = 0
  start_lt : vma.vmStart < vma.vmEnd
  fits : vma.vmPgoff.toNat + vma.pages ≤ (pagesOf table.entries).length

variable {vma : VmArea} {table : SgTable} {sg : SgEntry} {rest : List SgEntry}
  {offset addr len : U64} {s s' : List (U64 × Nat)} {trace : List (Event VmCall)}
  {result : Option Int} {pages pages' : List Nat}

@[simp] theorem pagesOf_cons : pagesOf (sg :: rest) =
    List.range' sg.pfn (sg.length.toNat / 4096) ++ pagesOf rest :=
  List.flatMap_cons

theorem placeFrom_append : placeFrom addr (pages ++ pages') =
    placeFrom addr pages ++ placeFrom (addr + PAGE_SIZE * BitVec.ofNat 64 pages.length) pages' := by
  induction pages generalizing addr with
  | nil => simp [placeFrom]
  | cons page pages ih =>
      have hnext : addr + PAGE_SIZE * BitVec.ofNat 64 (pages.length + 1) =
          addr + PAGE_SIZE + PAGE_SIZE * BitVec.ofNat 64 pages.length := by
        rw [BitVec.ofNat_add, BitVec.mul_add, BitVec.mul_one, BitVec.add_comm (PAGE_SIZE * _),
          BitVec.add_assoc]
      rw [List.cons_append, placeFrom, ih, List.length_cons, hnext]
      rfl

theorem getElem?_placeFrom (i : Nat) : (placeFrom addr pages)[i]? =
    pages[i]?.map fun page => (addr + BitVec.ofNat 64 (4096 * i), page) := by
  induction pages generalizing addr i with
  | nil => rfl
  | cons page pages ih =>
      cases i with
      | zero => simp [placeFrom]
      | succ i =>
          have hnext : addr + PAGE_SIZE + BitVec.ofNat 64 (4096 * i) =
              addr + BitVec.ofNat 64 (4096 * (i + 1)) := by
            rw [BitVec.add_assoc, Nat.mul_add, Nat.add_comm, BitVec.ofNat_add]
            rfl
          simp only [placeFrom, List.getElem?_cons_succ, ih, hnext]

/-- What is left of the pages after those of the first entry have been skipped. -/
theorem drop_pagesOf_skip {o : Nat} (h : sg.length.toNat / 4096 ≤ o) :
    (pagesOf (sg :: rest)).drop o = (pagesOf rest).drop (o - sg.length.toNat / 4096) := by
  rw [pagesOf_cons, List.drop_append, List.length_range',
    List.drop_of_length_le (by rw [List.length_range']; exact h), List.nil_append]

/-- The pages of the first entry from `o` on come first. -/
theorem drop_pagesOf_enter {o : Nat} (h : o ≤ sg.length.toNat / 4096) :
    (pagesOf (sg :: rest)).drop o =
      List.range' (sg.pfn + o) (sg.length.toNat / 4096 - o) ++ pagesOf rest := by
  rw [pagesOf_cons, List.drop_append_of_le_length (by rw [List.length_range']; exact h)]
  simp

/-! ## The loop -/

/-- What is left to do in the loop: `m` pages, from page `o` of the rest of the entries on. -/
structure MmapAt (vma : VmArea) (rest : List SgEntry) (offset addr : U64) (o m : Nat) : Prop where
  paged : Paged rest
  offset_eq : offset.toNat = 4096 * o
  addr_eq : addr.toNat + 4096 * m = vma.vmEnd.toNat
  pos : 0 < m
  fits : o + m ≤ (pagesOf rest).length

namespace MmapAt

variable {o m : Nat}

theorem length_eq (h : MmapAt vma (sg :: rest) offset addr o m) :
    (sg.length.setWidth 64).toNat = 4096 * (sg.length.toNat / 4096) := by
  have hpaged : sg.length.toNat % 4096 = 0 := h.paged sg List.mem_cons_self
  rw [BitVec.toNat_setWidth, Nat.mod_eq_of_lt (by omega)]
  omega

/-- An entry before the offset is skipped. -/
theorem skip (h : MmapAt vma (sg :: rest) offset addr o m)
    (hskip : offset ≥ sg.length.setWidth 64) :
    sg.length.toNat / 4096 ≤ o ∧
    MmapAt vma rest (offset - sg.length.setWidth 64) addr (o - sg.length.toNat / 4096) m := by
  have hlength := h.length_eq
  have hoffset := h.offset_eq
  have hle : (sg.length.setWidth 64).toNat ≤ offset.toNat := hskip
  have hfits := h.fits
  rw [pagesOf_cons, List.length_append, List.length_range'] at hfits
  refine ⟨by omega, fun e he => h.paged e (List.mem_cons_of_mem _ he), ?_, h.addr_eq, h.pos, ?_⟩
  · rw [BitVec.toNat_sub_of_le hskip]
    omega
  · omega

/-- The first page of a chunk and its length, in an entry that is entered. -/
theorem enter (h : MmapAt vma (sg :: rest) offset addr o m)
    (henter : ¬ offset ≥ sg.length.setWidth 64) :
    (if offset ≠ 0 then (sg.pfn + (offset / PAGE_SIZE).toNat, sg.length.setWidth 64 - offset)
      else (sg.pfn, sg.length.setWidth 64)) = (sg.pfn + o, sg.length.setWidth 64 - offset) := by
  have hoffset := h.offset_eq
  split
  · rw [BitVec.toNat_udiv, hoffset]
    show (sg.pfn + 4096 * o / 4096, _) = _
    rw [Nat.mul_div_cancel_left _ (by decide)]
  · rename_i hzero
    rw [not_not] at hzero
    subst hzero
    have ho : o = 0 := by
      have : (0 : U64).toNat = 0 := rfl
      omega
    rw [ho, Nat.add_zero]
    exact congrArg _ (BitVec.sub_zero _).symm

/-- A chunk has the pages to the end of the entry or of the range. -/
theorem chunk (h : MmapAt vma (sg :: rest) offset addr o m)
    (henter : ¬ offset ≥ sg.length.setWidth 64)
    (hlen : len = if sg.length.setWidth 64 - offset < vma.vmEnd - addr
      then sg.length.setWidth 64 - offset else vma.vmEnd - addr) :
    len.toNat = 4096 * min (sg.length.toNat / 4096 - o) m := by
  have hlength := h.length_eq
  have hoffset := h.offset_eq
  have haddr := h.addr_eq
  have hlt : offset.toNat < (sg.length.setWidth 64).toNat := Nat.lt_of_not_le henter
  have hleft : (sg.length.setWidth 64 - offset).toNat = 4096 * (sg.length.toNat / 4096 - o) := by
    rw [BitVec.toNat_sub_of_le (Nat.le_of_lt hlt)]
    omega
  have hremainder : (vma.vmEnd - addr).toNat = 4096 * m := by
    have hle : addr ≤ vma.vmEnd := by
      show addr.toNat ≤ vma.vmEnd.toNat
      omega
    rw [BitVec.toNat_sub_of_le hle]
    omega
  rw [hlen]
  split
  · rename_i hless
    have : (sg.length.setWidth 64 - offset).toNat < (vma.vmEnd - addr).toNat := hless
    omega
  · rename_i hless
    have : ¬ (sg.length.setWidth 64 - offset).toNat < (vma.vmEnd - addr).toNat := hless
    omega

/-- After a chunk that ends before the range does, the next entry is entered at its begin. -/
theorem next (h : MmapAt vma (sg :: rest) offset addr o m)
    (hlen : len.toNat = 4096 * (sg.length.toNat / 4096 - o)) (hle : sg.length.toNat / 4096 - o < m)
    (ho : o ≤ sg.length.toNat / 4096) :
    MmapAt vma rest 0 (addr + len) 0 (m - (sg.length.toNat / 4096 - o)) := by
  have haddr := h.addr_eq
  have hend := vma.vmEnd.isLt
  have hfits := h.fits
  rw [pagesOf_cons, List.length_append, List.length_range'] at hfits
  refine ⟨fun e he => h.paged e (List.mem_cons_of_mem _ he), rfl, ?_, by omega, by omega⟩
  rw [BitVec.toNat_add, Nat.mod_eq_of_lt (by omega)]
  omega

end MmapAt

theorem addr_add_toNat {o m c : Nat} (h : MmapAt vma (sg :: rest) offset addr o m)
    (hlen : len.toNat = 4096 * c) (hle : c ≤ m) :
    (addr + len).toNat = addr.toNat + 4096 * c := by
  have haddr := h.addr_eq
  have hend := vma.vmEnd.isLt
  rw [BitVec.toNat_add, Nat.mod_eq_of_lt (by omega), hlen]

/-- The calls of a trace have made entries for pages: no others, and those for all of the pages if
every chunk could be remapped. -/
def Places (addr : U64) (pages : List Nat) (trace : List (Event VmCall))
    (s s' : List (U64 × Nat)) : Prop :=
  ∃ made, s' = s ++ made ∧ made.Sublist (placeFrom addr pages) ∧
    ((∀ e ∈ trace, remapFails e = false) → made = placeFrom addr pages)

/-- What a chunk of `c` pages leaves. -/
theorem remap_step {pfn c : Nat} {ret : Int} (hlen : len.toNat = 4096 * c)
    (hstep : addressSpace.step (.remapPfnRange addr pfn len) s ret = some s') :
    Places addr (List.range' pfn c) [⟨.remapPfnRange addr pfn len, ret⟩] s s' := by
  have hpages : (len / PAGE_SIZE).toNat = c := by
    rw [BitVec.toNat_udiv, hlen]
    exact Nat.mul_div_cancel_left c (by decide)
  simp only [addressSpace] at hstep
  split at hstep
  · cases hstep
    rw [hpages]
    exact ⟨_, rfl, .refl _, fun _ => rfl⟩
  · obtain ⟨hnegative, heq⟩ := Option.ite_none_right_eq_some.mp hstep
    cases heq
    refine ⟨[], (List.append_nil _).symm, List.nil_sublist _, fun hall => ?_⟩
    have hret := hall _ List.mem_cons_self
    exact absurd hnegative (of_decide_eq_false hret)

/-- The entries of a chunk and of what follows it. -/
theorem Places.append {addr' : U64} {chunk rest : List Nat} {trace trace' : List (Event VmCall)}
    {s₁ s₂ s₃ : List (U64 × Nat)} (h : Places addr chunk trace s₁ s₂)
    (hrest : Places addr' rest trace' s₂ s₃)
    (haddr : addr + PAGE_SIZE * BitVec.ofNat 64 chunk.length = addr') :
    Places addr (chunk ++ rest) (trace ++ trace') s₁ s₃ := by
  obtain ⟨made, rfl, hsub, hall⟩ := h
  obtain ⟨made', rfl, hsub', hall'⟩ := hrest
  refine ⟨made ++ made', List.append_assoc s₁ made made', ?_, ?_⟩
  · rw [placeFrom_append, haddr]
    exact hsub.append hsub'
  · intro hnone
    rw [placeFrom_append, haddr, hall fun e he => hnone e (List.mem_append_left _ he),
      hall' fun e he => hnone e (List.mem_append_right _ he)]

/-- The loop returns 0, and makes the entries of all pages if every chunk can be remapped. -/
theorem mmapLoop_spec {o m : Nat} (h : MmapAt vma rest offset addr o m) :
    wp addressSpace .any (mmapLoop vma rest offset addr) (fun trace result s' =>
      result = some 0 ∧ Places addr (((pagesOf rest).drop o).take m) trace s s') s := by
  induction rest generalizing offset addr o m s with
  | nil =>
      have hfits : o + m ≤ 0 := h.fits
      have hpos := h.pos
      omega
  | cons sg rest ih =>
      rw [mmapLoop]
      split
      · rename_i hskip
        obtain ⟨ho, hnext⟩ := h.skip hskip
        rw [drop_pagesOf_skip ho]
        exact ih hnext
      · rename_i henter
        simp only [h.enter henter]
        generalize hlen : (if sg.length.setWidth 64 - offset < vma.vmEnd - addr
          then sg.length.setWidth 64 - offset else vma.vmEnd - addr) = len
        have hchunk := h.chunk henter hlen.symm
        have ho : o ≤ sg.length.toNat / 4096 := by
          have hlength := h.length_eq
          have hoffset := h.offset_eq
          have : offset.toNat < (sg.length.setWidth 64).toNat := Nat.lt_of_not_le henter
          omega
        have haddr := h.addr_eq
        have haddr' := addr_add_toNat h hchunk (Nat.min_le_right _ _)
        rw [drop_pagesOf_enter ho]
        refine wp_step fun ret s' hstep => ?_
        have hmade := remap_step hchunk hstep
        split
        · -- the chunk reaches the end of the range
          rename_i hdone
          have hge : vma.vmEnd.toNat ≤ (addr + len).toNat := hdone
          have hm : m ≤ sg.length.toNat / 4096 - o := by omega
          refine wp_pure.mpr ⟨rfl, ?_⟩
          rw [List.take_append_of_le_length (by rw [List.length_range']; exact hm),
            List.take_range'_of_length_ge hm]
          rw [Nat.min_eq_right hm] at hmade
          exact hmade
        · rename_i hmore
          have hlt : (addr + len).toNat < vma.vmEnd.toNat := Nat.lt_of_not_le hmore
          have hm : sg.length.toNat / 4096 - o < m := by omega
          rw [Nat.min_eq_left (Nat.le_of_lt hm)] at hchunk hmade
          refine wp_mono (ih (h.next hchunk hm ho)) ?_
          rintro trace result s'' ⟨hresult, hrest⟩
          refine ⟨hresult, ?_⟩
          have hnext : addr + PAGE_SIZE *
              BitVec.ofNat 64 (List.range' (sg.pfn + o) (sg.length.toNat / 4096 - o)).length =
              addr + len := by
            rw [List.length_range']
            congr 1
            apply BitVec.eq_of_toNat_eq
            rw [hchunk, BitVec.toNat_mul, BitVec.toNat_ofNat]
            show 4096 * _ % _ = _
            omega
          have hwhole : (List.range' (sg.pfn + o) (sg.length.toNat / 4096 - o)).length ≤ m := by
            rw [List.length_range']
            exact Nat.le_of_lt hm
          rw [List.drop_zero] at hrest
          rw [List.take_append, List.take_of_length_le hwhole, List.length_range']
          exact hmade.append hrest hnext

/-! ## The whole range -/

theorem SgTable.pagesOf_lt : 4096 * (pagesOf table.entries).length < 2 ^ 64 := by
  have hle (entries : List SgEntry) :
      4096 * (pagesOf entries).length ≤ entries.length * 2 ^ 32 := by
    induction entries with
    | nil => exact Nat.le_refl 0
    | cons sg rest ih =>
        have hsg := sg.length.isLt
        rw [pagesOf_cons, List.length_append, List.length_range', List.length_cons]
        omega
  have := hle table.entries
  have := table.nents_lt
  omega

/-- What the loop starts with. -/
theorem SgTable.Admits.start (h : table.Admits vma) : MmapAt vma table.entries
    (vma.vmPgoff * PAGE_SIZE) vma.vmStart vma.vmPgoff.toNat vma.pages := by
  have hlt : vma.vmStart.toNat < vma.vmEnd.toNat := h.start_lt
  have hstart := h.start_aligned
  have hend := h.end_aligned
  have hfits := h.fits
  have hbound := table.pagesOf_lt
  refine ⟨h.paged, ?_, ?_, ?_, hfits⟩
  · rw [BitVec.toNat_mul]
    show vma.vmPgoff.toNat * 4096 % _ = _
    omega
  · rw [VmArea.pages]
    omega
  · rw [VmArea.pages]
    omega

/-- The entries for a range that has all its pages. -/
def SgTable.placed (table : SgTable) (vma : VmArea) : List (U64 × Nat) :=
  placeFrom vma.vmStart (((pagesOf table.entries).drop vma.vmPgoff.toNat).take vma.pages)

theorem getElem?_placed {i : Nat} (hi : i < vma.pages) : (table.placed vma)[i]? =
    (pagesOf table.entries)[vma.vmPgoff.toNat + i]?.map fun page => (vma.page i, page) := by
  rw [SgTable.placed, getElem?_placeFrom, List.getElem?_take_of_lt hi, List.getElem?_drop]
  rfl

theorem length_placeFrom : (placeFrom addr pages).length = pages.length := by
  induction pages generalizing addr with
  | nil => rfl
  | cons page pages ih => rw [placeFrom, List.length_cons, ih, List.length_cons]

theorem SgTable.Admits.length_placed (h : table.Admits vma) :
    (table.placed vma).length = vma.pages := by
  have hfits := h.fits
  rw [SgTable.placed, length_placeFrom, List.length_take, List.length_drop]
  omega

/-- The addresses of the entries are those of the pages of the range, in order. -/
theorem SgTable.Admits.map_fst_placed (h : table.Admits vma) :
    (table.placed vma).map Prod.fst = (List.range vma.pages).map vma.page := by
  apply List.ext_getElem?
  intro i
  rw [List.getElem?_map, List.getElem?_map]
  by_cases hi : i < vma.pages
  · have hfits := h.fits
    have hlt : vma.vmPgoff.toNat + i < (pagesOf table.entries).length := by omega
    rw [getElem?_placed hi, List.getElem?_range hi, List.getElem?_eq_getElem hlt]
    rfl
  · have hle : vma.pages ≤ i := Nat.le_of_not_lt hi
    rw [List.getElem?_eq_none (by rw [h.length_placed]; exact hle),
      List.getElem?_eq_none (by rw [List.length_range]; exact hle)]
    rfl

theorem VmArea.page_toNat {i : Nat} (hi : i < vma.pages) :
    (vma.page i).toNat = vma.vmStart.toNat + 4096 * i := by
  have hend := vma.vmEnd.isLt
  rw [VmArea.pages] at hi
  rw [VmArea.page, BitVec.toNat_add, BitVec.toNat_ofNat]
  omega

theorem VmArea.nodup_pages : ((List.range vma.pages).map vma.page).Nodup := by
  refine List.Nodup.map_on ?_ List.nodup_range
  intro i hi j hj heq
  have hi := vma.page_toNat (List.mem_range.mp hi)
  have hj := vma.page_toNat (List.mem_range.mp hj)
  rw [heq] at hi
  omega

theorem qcomSgMmap_spec (h : table.Admits vma) :
    wp addressSpace .any (qcomSgMmap table vma) (fun trace result s' => result = some 0 ∧
      Places vma.vmStart (((pagesOf table.entries).drop vma.vmPgoff.toNat).take vma.pages) trace
        s s') s :=
  mmapLoop_spec h.start

/-- In an empty range all entries are made if every chunk can be remapped. -/
theorem SgTable.Admits.placed_eq (h : table.Admits vma)
    (hexec : Exec addressSpace (qcomSgMmap table vma) [] trace result s)
    (hall : ∀ e ∈ trace, remapFails e = false) : s = table.placed vma := by
  obtain ⟨_, made, rfl, _, hmade⟩ := wp_exec (qcomSgMmap_spec h) hexec
  exact hmade hall

/-- Every page of the range has its page of the buffer, and has it once, and nothing else is
mapped. -/
structure MapsPages (table : SgTable) (vma : VmArea) (made : List (U64 × Nat)) : Prop where
  page : ∀ i < vma.pages, ∃ page, (pagesOf table.entries)[vma.vmPgoff.toNat + i]? = some page ∧
    (vma.page i, page) ∈ made
  once : ∀ i < vma.pages, (made.map Prod.fst).count (vma.page i) = 1
  inside : ∀ entry ∈ made, ∃ i < vma.pages, entry.1 = vma.page i

theorem SgTable.Admits.mapsPages (h : table.Admits vma) :
    MapsPages table vma (table.placed vma) := by
  have hfst := h.map_fst_placed
  have hfits := h.fits
  refine ⟨fun i hi => ?_, fun i hi => ?_, fun entry hentry => ?_⟩
  · have hlt : vma.vmPgoff.toNat + i < (pagesOf table.entries).length := by omega
    refine ⟨_, List.getElem?_eq_getElem hlt, List.mem_of_getElem? (i := i) ?_⟩
    rw [getElem?_placed hi, List.getElem?_eq_getElem hlt]
    rfl
  · rw [hfst]
    refine List.count_eq_one_of_mem VmArea.nodup_pages ?_
    exact List.mem_map_of_mem (List.mem_range.mpr hi)
  · have hmem : entry.1 ∈ (table.placed vma).map Prod.fst := List.mem_map_of_mem hentry
    rw [hfst] at hmem
    obtain ⟨i, hi, heq⟩ := List.mem_map.mp hmem
    exact ⟨i, List.mem_range.mp hi, heq.symm⟩

theorem remappable_responsive : remappable.Responsive := by
  intro β _ request s
  cases request with
  | remapPfnRange addr pfn len => exact ⟨(0 : Int), _, rfl⟩

/-- If every chunk can be remapped, then the call returns and has mapped every page of the range to
its page of the buffer, once, and nothing else. -/
theorem qcomSgMmap_maps (h : table.Admits vma) :
    (∃ trace result made, Exec remappable (qcomSgMmap table vma) [] trace result made) ∧
    ∀ trace result made, Exec remappable (qcomSgMmap table vma) [] trace result made →
      result = some 0 ∧ MapsPages table vma made := by
  refine ⟨remappable_responsive.exec _ _, ?_⟩
  intro trace result made hexec
  obtain ⟨hexec, hall⟩ := hexec.of_guarded
  obtain ⟨hresult, _⟩ := wp_exec (qcomSgMmap_spec h) hexec
  rw [h.placed_eq hexec fun e he => by simpa using hall e he]
  exact ⟨hresult, h.mapsPages⟩

/-- A buffer of one page and one of two pages. -/
def threePages : SgTable := ⟨[⟨8, 0x1000⟩, ⟨32, 0x2000⟩], by decide⟩

/-- A range for the last two pages. -/
def lastTwo : VmArea := ⟨0x10000, 0x12000, 1⟩

theorem admits_lastTwo : threePages.Admits lastTwo := ⟨by decide, rfl, rfl, by decide, by decide⟩

/-- Answers of the kernel by which the chunks at some addresses cannot be remapped. -/
def failingAt (fails : U64 → Bool) : Chooser VmCall (List (U64 × Nat)) := fun _ request _ =>
  match request with
  | .remapPfnRange addr _ _ => some (if fails addr then -ENOMEM else 0)

/-- The range for the last two pages has them. -/
theorem qcomSgMmap_maps_lastTwo : ∃ trace,
    Exec remappable (qcomSgMmap threePages lastTwo) [] trace (some 0)
      [(0x10000, 32), (0x11000, 33)] ∧
    MapsPages threePages lastTwo [(0x10000, 32), (0x11000, 33)] := by
  have hcheck : (qcomSgMmap threePages lastTwo).check remappable (failingAt fun _ => false) []
      (fun _ ret made => ret = 0 && made = [(0x10000, 32), (0x11000, 33)]) = true := by
    decide +kernel
  obtain ⟨trace, ret, made, hexec, htest⟩ := Program.check_exec hcheck
  simp only [Bool.and_eq_true, decide_eq_true_eq] at htest
  obtain ⟨rfl, rfl⟩ := htest
  exact ⟨trace, hexec, ((qcomSgMmap_maps admits_lastTwo).2 trace _ _ hexec).2⟩

/-! ## Failures -/

/-- The result tells whether a chunk could not be remapped, and is 0 only if no page of the range
is left without a page. -/
structure MmapReports (vma : VmArea) (trace : List (Event VmCall)) (result : Option Int)
    (made : List (U64 × Nat)) : Prop where
  negative : (∃ e ∈ trace, remapFails e = true) → ∃ ret < 0, result = some ret
  complete : result = some 0 → ∀ i < vma.pages, ∃ page, (vma.page i, page) ∈ made

/-- The result tells so exactly if no chunk fails. -/
theorem qcomSgMmap_reports_iff (h : table.Admits vma)
    (hexec : Exec addressSpace (qcomSgMmap table vma) [] trace result s) :
    MmapReports vma trace result s ↔ ∀ e ∈ trace, remapFails e = false := by
  obtain ⟨hresult, _⟩ := wp_exec (qcomSgMmap_spec h) hexec
  constructor
  · intro hreports e he
    by_contra hfails
    obtain ⟨ret, hret, heq⟩ := hreports.negative ⟨e, he, by simpa using hfails⟩
    rw [hresult] at heq
    cases heq
    omega
  · intro hall
    refine ⟨fun ⟨e, he, hfails⟩ => ?_, fun _ i hi => ?_⟩
    · rw [hall e he] at hfails
      cases hfails
    · have hplaced : s = table.placed vma := h.placed_eq hexec hall
      obtain ⟨page, _, hmem⟩ := h.mapsPages.page i hi
      exact ⟨page, by rw [hplaced]; exact hmem⟩

/-- A range of which every chunk is remapped. -/
theorem qcomSgMmap_reports_iff_lastTwo : ∃ trace made,
    Exec addressSpace (qcomSgMmap threePages lastTwo) [] trace (some 0) made ∧
    MmapReports lastTwo trace (some 0) made := by
  have hcheck : (qcomSgMmap threePages lastTwo).check addressSpace (failingAt fun _ => false) []
      (fun trace ret _ => ret = 0 && trace.all (!remapFails ·)) = true := by
    decide +kernel
  obtain ⟨trace, ret, made, hexec, htest⟩ := Program.check_exec hcheck
  simp only [Bool.and_eq_true, decide_eq_true_eq] at htest
  obtain ⟨rfl, hall⟩ := htest
  refine ⟨trace, made, hexec, (qcomSgMmap_reports_iff admits_lastTwo hexec).mpr fun e he => ?_⟩
  simpa using List.all_eq_true.mp hall e he

/-- A range for all three pages. -/
def allThree : VmArea := ⟨0x10000, 0x13000, 0⟩

theorem admits_allThree : threePages.Admits allThree := ⟨by decide, rfl, rfl, by decide, by decide⟩

/-- The first chunk cannot be remapped and the second can, and the call returns 0. -/
theorem not_qcomSgMmap_reports : ¬ ∀ (table : SgTable) (vma : VmArea), table.Admits vma →
    ∀ trace result made, Exec addressSpace (qcomSgMmap table vma) [] trace result made →
      MmapReports vma trace result made := by
  intro h
  have hcheck : (qcomSgMmap threePages allThree).check addressSpace
      (failingAt (· == 0x10000)) []
      (fun trace ret made => ret = 0 && trace.any remapFails &&
        made = [(0x11000, 32), (0x12000, 33)]) = true := by
    decide +kernel
  obtain ⟨trace, ret, made, hexec, htest⟩ := Program.check_exec hcheck
  simp only [Bool.and_eq_true, decide_eq_true_eq] at htest
  obtain ⟨⟨rfl, hany⟩, _⟩ := htest
  have hreports := h threePages allThree admits_allThree trace _ made hexec
  obtain ⟨ret, hret, heq⟩ := hreports.negative (List.any_eq_true.mp hany)
  cases heq
  omega

end SafeLinux.SgOps
