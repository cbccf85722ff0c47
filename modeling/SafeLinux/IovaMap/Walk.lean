import SafeLinux.IovaMap.Invert
import SafeLinux.Effects.Run

/-!
# The walk over any property

The entries of a property need not describe parts of the address space, and an allocation may fail.
`insertEntries` is what the calls of `insert_range` do to the starts and lengths of a list;
`Walked` says of a walk what it has allocated, and that its result is that list when it returns 0.
The regions are then ascending and disjoint parts of the address space just where each entry is
such a part.
-/

namespace SafeLinux.IovaMap

open Effects Spans

/-! ## Allocations and releases -/

/-- The region that a call allocates. -/
def allocatedBy : Event ResvCall → Option IommuResvRegion
  | ⟨.iommuAllocResvRegion _ _, answer⟩ => answer
  | _ => none

/-- The region that a call releases. -/
def freedBy : Event ResvCall → Option IommuResvRegion
  | ⟨.kfree region, _⟩ => some region
  | _ => none

/-- The call is an allocation that fails. -/
def failsAlloc : Event ResvCall → Bool
  | ⟨.iommuAllocResvRegion _ _, answer⟩ => answer.isNone
  | _ => false

/-- The regions that some calls allocate. -/
def allocated (trace : List (Event ResvCall)) : List IommuResvRegion :=
  trace.filterMap allocatedBy

/-- The regions that some calls release. -/
def freed (trace : List (Event ResvCall)) : List IommuResvRegion :=
  trace.filterMap freedBy

/-- Some allocation fails. -/
def AllocFails (trace : List (Event ResvCall)) : Prop :=
  ∃ e ∈ trace, failsAlloc e = true

instance (trace : List (Event ResvCall)) : Decidable (AllocFails trace) :=
  inferInstanceAs (Decidable (∃ e ∈ trace, _))

section Traces

variable {trace trace' : List (Event ResvCall)} {start length : U64} {region : IommuResvRegion}
  {answer : Option IommuResvRegion} {u : Unit}

@[simp] theorem allocated_nil : allocated [] = [] := rfl
@[simp] theorem freed_nil : freed [] = [] := rfl

@[simp] theorem allocated_append :
    allocated (trace ++ trace') = allocated trace ++ allocated trace' := List.filterMap_append

@[simp] theorem freed_append : freed (trace ++ trace') = freed trace ++ freed trace' :=
  List.filterMap_append

@[simp] theorem allocated_alloc :
    allocated (⟨.iommuAllocResvRegion start length, answer⟩ :: trace) =
      answer.toList ++ allocated trace := by
  cases answer <;> rfl

@[simp] theorem allocated_kfree :
    allocated (⟨.kfree region, u⟩ :: trace) = allocated trace := rfl

@[simp] theorem freed_alloc :
    freed (⟨.iommuAllocResvRegion start length, answer⟩ :: trace) = freed trace := rfl

@[simp] theorem freed_kfree :
    freed (⟨.kfree region, u⟩ :: trace) = region :: freed trace := rfl

@[simp] theorem not_allocFails_nil : ¬ AllocFails [] := by simp [AllocFails]

@[simp] theorem allocFails_append :
    AllocFails (trace ++ trace') ↔ AllocFails trace ∨ AllocFails trace' := by
  simp only [AllocFails, List.mem_append]
  exact ⟨fun ⟨e, he, hfails⟩ => he.elim (fun he => .inl ⟨e, he, hfails⟩)
      fun he => .inr ⟨e, he, hfails⟩,
    fun h => h.elim (fun ⟨e, he, hfails⟩ => ⟨e, .inl he, hfails⟩)
      fun ⟨e, he, hfails⟩ => ⟨e, .inr he, hfails⟩⟩

@[simp] theorem allocFails_alloc :
    AllocFails (⟨.iommuAllocResvRegion start length, answer⟩ :: trace) ↔
      answer = none ∨ AllocFails trace := by
  simp only [AllocFails, List.exists_mem_cons_iff, failsAlloc, Option.isNone_iff_eq_none]

@[simp] theorem allocFails_kfree :
    AllocFails (⟨.kfree region, u⟩ :: trace) ↔ AllocFails trace := by
  simp [AllocFails, failsAlloc]

end Traces

/-- The rule for an allocation that may fail. -/
theorem wp_allocRegion {α : Type} {mayFail : Bool} {start length : U64} {live : Multiset ℕ}
    {rest : Option IommuResvRegion → ResvProg α} {Q : Post ResvCall (Multiset ℕ) α}
    (hnone : wp (resvKernel mayFail) .any (rest none)
      (Q.after [⟨.iommuAllocResvRegion start length, none⟩]) live)
    (hsome : ∀ new live', new.extent = (start, length) →
      wp (resvKernel mayFail) .any (rest (some new))
        (Q.after [⟨.iommuAllocResvRegion start length, some new⟩]) live') :
    wp (resvKernel mayFail) .any (Program.perform (.iommuAllocResvRegion start length) >>= rest) Q
      live := by
  refine wp_step fun answer live' hstep => ?_
  cases answer with
  | none =>
      simp only [resvKernel, resvStep] at hstep
      split at hstep <;> cases hstep
      exact hnone
  | some new =>
      simp only [resvKernel, resvStep] at hstep
      split at hstep <;> cases hstep
      rename_i hnew
      exact hsome new _ (by rw [IommuResvRegion.extent, hnew.2.1, hnew.2.2])

/-! ## Inserting entries -/

/-- A region of the given start and length. -/
def plainRegion (e : U64 × U64) : IommuResvRegion := ⟨0, e.1, e.2⟩

@[simp] theorem plainRegion_extent (e : U64 × U64) : (plainRegion e).extent = e := rfl

/-- The starts and lengths of a list after `insert_range` has inserted an entry, or `none` when it
has refused the entry for an overlap. -/
def insertEntry (e : U64 × U64) (l : List (U64 × U64)) : Option (List (U64 × U64)) :=
  (insertScan e.1 (e.1 + e.2 - 1) (l.map plainRegion)).map fun (before, after) =>
    (before ++ plainRegion e :: after).map IommuResvRegion.extent

/-- The starts and lengths of a list after `insert_range` has inserted some entries in turn. -/
def insertEntries : List (U64 × U64) → List (U64 × U64) → Option (List (U64 × U64))
  | [], l => some l
  | e :: rest, l => (insertEntry e l).bind (insertEntries rest)

variable {start last : U64} {e : U64 × U64} {l l' entries : List (U64 × U64)}
  {regions before after : List IommuResvRegion}

/-- The search depends on the starts and lengths only. -/
theorem insertScan_map {f : IommuResvRegion → IommuResvRegion}
    (hf : ∀ region, (f region).extent = region.extent) :
    insertScan start last (regions.map f) =
      (insertScan start last regions).map (Prod.map (List.map f) (List.map f)) := by
  induction regions with
  | nil => rfl
  | cons region rest ih =>
      have hstart : (f region).start = region.start := congrArg Prod.fst (hf region)
      have hlength : (f region).length = region.length := congrArg Prod.snd (hf region)
      have hoverlap : checkOverlap (f region) start last = checkOverlap region start last := by
        rw [checkOverlap, hstart, hlength, checkOverlap]
      simp only [List.map_cons, insertScan, hoverlap, hstart]
      split
      · rfl
      split
      · rfl
      · rw [ih]
        cases insertScan start last rest <;> rfl

/-- The search splits the list behind regions that do not start later and before one that does,
none of which overlaps. -/
theorem insertScan_spec (h : insertScan start last regions = some (before, after)) :
    before ++ after = regions ∧ (∀ r ∈ before, r.start ≤ start) ∧
      (∀ r ∈ after.head?, start < r.start) ∧
      ∀ r ∈ regions.head?, checkOverlap r start last = false := by
  induction regions generalizing before after with
  | nil =>
      cases h
      simp
  | cons region rest ih =>
      rw [insertScan] at h
      split at h
      · cases h
      rename_i hoverlap
      have hfirst : ∀ r ∈ (region :: rest).head?, checkOverlap r start last = false := by
        rintro r ⟨⟩
        exact Bool.not_eq_true _ ▸ hoverlap
      split at h
      · rename_i hlt
        cases h
        refine ⟨rfl, by simp, ?_, hfirst⟩
        rintro r ⟨⟩
        exact hlt
      · rename_i hle
        obtain ⟨⟨before', after'⟩, hscan, heq⟩ := Option.map_eq_some_iff.mp h
        cases heq
        obtain ⟨rfl, hbefore, hafter, -⟩ := ih hscan
        refine ⟨rfl, List.forall_mem_cons.mpr ⟨?_, hbefore⟩, hafter, hfirst⟩
        exact BitVec.not_lt.mp hle

theorem insertEntry_eq_some (h : insertEntry e l = some l') :
    ∃ l₁ l₂, l = l₁ ++ l₂ ∧ l' = l₁ ++ e :: l₂ ∧ (∀ x ∈ l₁, x.1 ≤ e.1) ∧
      (∀ x ∈ l₂.head?, e.1 < x.1) ∧
      ∀ x ∈ l.head?, checkOverlap (plainRegion x) e.1 (e.1 + e.2 - 1) = false := by
  obtain ⟨⟨before, after⟩, hscan, rfl⟩ := Option.map_eq_some_iff.mp h
  obtain ⟨hsplit, hbefore, hafter, hfirst⟩ := insertScan_spec hscan
  refine ⟨before.map IommuResvRegion.extent, after.map IommuResvRegion.extent, ?_, ?_, ?_, ?_, ?_⟩
  · rw [← List.map_append, hsplit, List.map_map]
    exact (List.map_id l).symm
  · simp
  · intro x hx
    obtain ⟨r, hr, rfl⟩ := List.mem_map.mp hx
    exact hbefore r hr
  · intro x hx
    rw [List.head?_map] at hx
    obtain ⟨r, hr, rfl⟩ := Option.map_eq_some_iff.mp hx
    exact hafter r hr
  · intro x hx
    exact hfirst _ (by rw [List.head?_map, Option.mem_def.mp hx]; rfl)

/-- Inserting entries adds them. -/
theorem insertEntries_perm (h : insertEntries entries l = some l') :
    l'.Perm (entries ++ l) := by
  induction entries generalizing l with
  | nil =>
      cases h
      exact .refl _
  | cons e rest ih =>
      obtain ⟨middle, hinsert, hrest⟩ := Option.bind_eq_some_iff.mp h
      obtain ⟨l₁, l₂, rfl, rfl, -⟩ := insertEntry_eq_some hinsert
      calc l'.Perm (rest ++ (l₁ ++ e :: l₂)) := ih hrest
        _ |>.Perm (rest ++ e :: (l₁ ++ l₂)) := List.perm_middle.append_left rest
        _ |>.Perm (e :: rest ++ (l₁ ++ l₂)) := List.perm_middle

/-- An entry of no addresses at 0 overlaps every region. -/
theorem checkOverlap_zero_entry (region : IommuResvRegion) :
    checkOverlap region 0 (0 + 0 - 1) = true := by
  have hlast : region.start ≤ (0 + 0 - 1 : U64) := Nat.le_of_lt_succ region.start.isLt
  have hstart : (0 : U64) ≤ region.start + region.length - 1 := Nat.zero_le _
  exact Bool.and_eq_true_iff.mpr ⟨decide_eq_true hlast, decide_eq_true hstart⟩

/-- Every entry overlaps a region of no addresses at 0. -/
theorem checkOverlap_zero_region : checkOverlap (plainRegion (0, 0)) start last = true := by
  have hstart : start ≤ (0 + 0 - 1 : U64) := Nat.le_of_lt_succ start.isLt
  have hlast : (0 : U64) ≤ last := Nat.zero_le _
  exact Bool.and_eq_true_iff.mpr ⟨decide_eq_true hlast, decide_eq_true hstart⟩

/-- An entry of no addresses at 0 stands alone in the list. -/
theorem insertEntries_zero (h : insertEntries entries l = some l')
    (hl : (0, 0) ∈ l → l = [(0, 0)]) (hzero : (0, 0) ∈ l') : l' = [(0, 0)] := by
  induction entries generalizing l with
  | nil =>
      cases h
      exact hl hzero
  | cons e rest ih =>
      obtain ⟨middle, hinsert, hrest⟩ := Option.bind_eq_some_iff.mp h
      refine ih hrest fun hmem => ?_
      obtain ⟨l₁, l₂, rfl, rfl, -, -, hfirst⟩ := insertEntry_eq_some hinsert
      by_cases he : e = (0, 0)
      · subst he
        have hnil : l₁ ++ l₂ = [] := by
          rw [← List.head?_eq_none_iff, Option.eq_none_iff_forall_not_mem]
          intro x hx
          exact Bool.noConfusion ((checkOverlap_zero_entry _).symm.trans (hfirst x hx))
        obtain ⟨rfl, rfl⟩ := List.append_eq_nil_iff.mp hnil
        rfl
      · have hmem' : (0, 0) ∈ l₁ ++ l₂ := by
          rw [List.mem_append, List.mem_cons] at hmem
          exact List.mem_append.mpr (hmem.imp_right fun h => h.resolve_left (Ne.symm he))
        have hoverlap := hfirst (0, 0) (by rw [hl hmem']; rfl)
        exact Bool.noConfusion (checkOverlap_zero_region.symm.trans hoverlap)

/-! ## What the walk does -/

/-- A walk over the entries: it releases nothing, the list grows by what it allocates, and it
returns 0 just if it has inserted all entries. -/
structure Walked (entries : List (U64 × U64)) (head : List IommuResvRegion)
    (trace : List (Event ResvCall)) (ret : Int) (regions : List IommuResvRegion) : Prop where
  kept : freed trace = []
  owned : regions.Perm (allocated trace ++ head)
  inserted : ret = 0 → insertEntries entries (head.map IommuResvRegion.extent) =
    some (regions.map IommuResvRegion.extent)
  succeeded : ret = 0 → ¬ AllocFails trace ∧ (allocated trace).length = entries.length
  failed : ret ≠ 0 → (allocated trace).length < entries.length ∧
    (AllocFails trace ∨ insertEntries entries (head.map IommuResvRegion.extent) = none)

/-- The result of code that returns what a walk over the entries returns. -/
def Walks (entries : List (U64 × U64)) (head : List IommuResvRegion) :
    Post ResvCall (Multiset ℕ) (Int × List IommuResvRegion) := fun trace result _ =>
  ∃ ret regions, result = some (ret, regions) ∧ Walked entries head trace ret regions

variable {head : List IommuResvRegion} {mayFail : Bool} {live : Multiset ℕ}

/-- The search on the list and on its starts and lengths. -/
theorem insertEntry_extent (e : U64 × U64) :
    insertEntry e (head.map IommuResvRegion.extent) =
      (insertScan e.1 (e.1 + e.2 - 1) head).map fun (before, after) =>
        before.map IommuResvRegion.extent ++ e :: after.map IommuResvRegion.extent := by
  have hplain : (head.map IommuResvRegion.extent).map plainRegion =
      head.map fun r => plainRegion r.extent := List.map_map
  have hscan := @insertScan_map e.1 (e.1 + e.2 - 1) head (fun r => plainRegion r.extent)
    fun _ => rfl
  rw [insertEntry, hplain, hscan]
  cases insertScan e.1 (e.1 + e.2 - 1) head with
  | none => rfl
  | some found => simp [Prod.map, Function.comp_def]

/-- What a call of `insert_range` for one entry can do. -/
inductive InsertsOne (e : U64 × U64) (head : List IommuResvRegion) :
    Post ResvCall (Multiset ℕ) (Int × List IommuResvRegion)
  | refused {live : Multiset ℕ} : insertEntry e (head.map IommuResvRegion.extent) = none →
      InsertsOne e head [] (some (-EINVAL, head)) live
  | failed {start length : U64} {live : Multiset ℕ} :
      InsertsOne e head [⟨.iommuAllocResvRegion start length, none⟩] (some (-ENOMEM, head)) live
  | done {before after : List IommuResvRegion} {new : IommuResvRegion} {start length : U64}
      {live : Multiset ℕ} : before ++ after = head →
      insertEntry e (head.map IommuResvRegion.extent) =
        some ((before ++ new :: after).map IommuResvRegion.extent) →
      InsertsOne e head [⟨.iommuAllocResvRegion start length, some new⟩]
        (some (0, before ++ new :: after)) live

theorem insertRange_inserts {p : List U32} {naddr nsize : Nat} :
    wp (resvKernel mayFail) .any (insertRange p naddr nsize head)
      (InsertsOne (poolEntry naddr nsize p) head) live := by
  have hentry := @insertEntry_extent head (poolEntry naddr nsize p)
  simp only [poolEntry] at hentry ⊢
  unfold insertRange
  dsimp only
  cases hscan : insertScan (ofReadNumber p naddr)
      (ofReadNumber p naddr + ofReadNumber (p.drop naddr) nsize - 1) head with
  | none =>
      rw [hscan] at hentry
      exact wp_pure.mpr (.refused hentry)
  | some found =>
      obtain ⟨before, after⟩ := found
      rw [hscan] at hentry
      obtain ⟨hsplit, -⟩ := insertScan_spec hscan
      rw [Spells.length_eq]
      refine wp_allocRegion (wp_pure.mpr .failed) fun new live' hnew => wp_pure.mpr ?_
      refine .done hsplit ?_
      rw [hentry, List.map_append, List.map_cons, hnew]
      rfl

/-- A walk goes on after an entry is inserted. -/
theorem Walked.cons {new : IommuResvRegion} {trace : List (Event ResvCall)} {ret : Int}
    (h : Walked entries (before ++ new :: after) trace ret regions)
    (hsplit : before ++ after = head)
    (hinsert : insertEntry e (head.map IommuResvRegion.extent) =
      some ((before ++ new :: after).map IommuResvRegion.extent)) {start length : U64} :
    Walked (e :: entries) head (⟨.iommuAllocResvRegion start length, some new⟩ :: trace) ret
      regions where
  kept := h.kept
  owned := by
    rw [allocated_alloc, ← hsplit]
    calc regions.Perm (allocated trace ++ (before ++ new :: after)) := h.owned
      _ |>.Perm (allocated trace ++ new :: (before ++ after)) := List.perm_middle.append_left _
      _ |>.Perm (new :: allocated trace ++ (before ++ after)) := List.perm_middle
  inserted hret := by
    rw [insertEntries, hinsert]
    exact h.inserted hret
  succeeded hret := by
    obtain ⟨hfails, hlength⟩ := h.succeeded hret
    exact ⟨by simpa using hfails, by simp [hlength]⟩
  failed hret := by
    obtain ⟨hlength, hwhy⟩ := h.failed hret
    refine ⟨by simpa using hlength, hwhy.imp (by simp) fun hnone => ?_⟩
    rw [insertEntries, hinsert]
    exact hnone

/-- Each walk is a call of `insert_range` and a walk over the rest. -/
theorem walkEntries_walks {naddr nsize : Nat} {p : List U32} :
    wp (resvKernel mayFail) .any (walkEntries insertRange naddr nsize p head)
      (Walks ((positions (naddr + nsize) p).map (poolEntry naddr nsize)) head) live := by
  induction p using positions.induct (naddr + nsize) generalizing head live with
  | case1 =>
      rw [positions, walkEntries, wp_pure]
      exact ⟨0, head, rfl, rfl, by simp, fun _ => rfl, fun _ => by simp, fun h => absurd rfl h⟩
  | case2 cell p ih =>
      rw [positions, List.map_cons, walkEntries, wp_bind]
      refine wp_mono insertRange_inserts ?_
      rintro _ _ live' (hnone | _ | ⟨hsplit, hinsert⟩)
      · refine wp_pure.mpr ⟨-EINVAL, head, rfl, rfl, by simp, fun h => absurd h (by decide),
          fun h => absurd h (by decide), fun _ => ⟨?_, .inr ?_⟩⟩
        · simp
        · rw [insertEntries, hnone]
          rfl
      · refine wp_pure.mpr ⟨-ENOMEM, head, rfl, rfl, by simp, fun h => absurd h (by decide),
          fun h => absurd h (by decide), fun _ => ⟨?_, .inl ?_⟩⟩
        · simp
        · simp
      · refine wp_mono ih ?_
        rintro trace _ _ ⟨ret, regions, rfl, hwalked⟩
        exact ⟨ret, regions, rfl, hwalked.cons hsplit hinsert⟩

/-! ## The entries of a device -/

/-- The entries of the pool of a device, without the cells that make no whole entry; they are the
entries of the node that the walk takes its numbers of cells from. -/
def poolEntries (dev : OfDevice) : List (U64 × U64) :=
  match qcomIommuGroupParsePhandle dev with
  | none => []
  | some np =>
      match np.properties "qcom,iommu-dma-addr-pool" with
      | none => []
      | some value =>
          let cells := be32Cells value
          let step := np.nAddrCells + np.nSizeCells
          (positions step (cells.take (cells.length / step * step))).map
            (poolEntry np.nAddrCells np.nSizeCells)

/-- The device has a property of whole entries. -/
def PoolWellFormed (dev : OfDevice) : Prop :=
  ∃ np value, qcomIommuGroupParsePhandle dev = some np ∧
    np.properties "qcom,iommu-dma-addr-pool" = some value ∧ np.nAddrCells ≠ 0 ∧
    np.nSizeCells ≠ 0 ∧ (be32Cells value).length % (np.nAddrCells + np.nSizeCells) = 0

/-- What `qcom_iommu_generate_dma_regions` does: it refuses a property that is not of whole
entries, and walks over the entries otherwise. -/
inductive Generates (dev : OfDevice) : Post ResvCall (Multiset ℕ) (Int × List IommuResvRegion)
  | refused {ret : Int} {live : Multiset ℕ} : ¬ PoolWellFormed dev → ret ≠ 0 →
      Generates dev [] (some (ret, [])) live
  | walked {trace : List (Event ResvCall)} {ret : Int} {regions : List IommuResvRegion}
      {live : Multiset ℕ} : PoolWellFormed dev → Walked (poolEntries dev) [] trace ret regions →
      Generates dev trace (some (ret, regions)) live

theorem qcomIommuGenerateDmaRegions_generates {dev : OfDevice} :
    wp (resvKernel mayFail) .any (qcomIommuGenerateDmaRegions dev []) (Generates dev) live := by
  unfold qcomIommuGenerateDmaRegions ofPropertyWalkEachEntry
  cases hparsed : qcomIommuGroupParsePhandle dev with
  | none =>
      have hnot : ¬ PoolWellFormed dev := by
        rintro ⟨np, -, hnp, -⟩
        rw [hparsed] at hnp
        cases hnp
      exact wp_pure.mpr (.refused hnot (by decide))
  | some np =>
  dsimp only
  cases hfound : np.properties "qcom,iommu-dma-addr-pool" with
  | none =>
      have hnot : ¬ PoolWellFormed dev := by
        rintro ⟨np', value, hnp, hvalue, -⟩
        rw [hparsed] at hnp
        cases hnp
        rw [hfound] at hvalue
        cases hvalue
      exact wp_pure.mpr (.refused hnot (by decide))
  | some value =>
  have hwell : PoolWellFormed dev ↔ ¬ (np.nAddrCells = 0 ∨ np.nSizeCells = 0 ∨
      (be32Cells value).length % (np.nAddrCells + np.nSizeCells) ≠ 0) := by
    simp only [PoolWellFormed, hparsed, Option.some.injEq, exists_eq_left', not_or, not_not,
      exists_and_left, hfound]
  dsimp only
  split
  · rename_i hmalformed
    exact wp_pure.mpr (.refused (fun h => hwell.mp h hmalformed) (by decide))
  · rename_i hwhole
    have hentries : poolEntries dev =
        (positions (np.nAddrCells + np.nSizeCells) (be32Cells value)).map
          (poolEntry np.nAddrCells np.nSizeCells) := by
      have hmod := not_not.mp (not_or.mp (not_or.mp hwhole).2).2
      have hall := Nat.div_mul_cancel (Nat.dvd_of_mod_eq_zero hmod)
      simp only [poolEntries, hparsed, hfound, hall, List.take_length]
    refine wp_mono walkEntries_walks ?_
    rintro trace _ live' ⟨ret, regions, rfl, hwalked⟩
    rw [← hentries] at hwalked
    exact .walked (hwell.mpr hwhole) hwalked

/-! ## When the regions are proper -/

/-- The regions are non-empty parts of the address space, ascending and disjoint. -/
structure ProperRegions (regions : List IommuResvRegion) : Prop where
  fit : ∀ r ∈ regions, 1 ≤ r.length.toNat ∧ r.start.toNat + r.length.toNat ≤ 2 ^ 64
  ascending : regions.Pairwise fun r r' => r.start < r'.start
  disjoint : regions.Pairwise fun r r' =>
    Disjoint (addresses r.start r.length) (addresses r'.start r'.length)

/-- The starts and lengths spell ascending spans. -/
def SpellAscending (l : List (U64 × U64)) : Prop :=
  ∃ spans : List (Span ℕ), List.Forall₂ (fun e s => Spells e.1 e.2 s) l spans ∧ Ascending spans

theorem insertEntry_spells (h : insertEntry e l = some l') (he : Fits e.1 e.2)
    (hl : SpellAscending l) : SpellAscending l' := by
  obtain ⟨spans, hspans, hascending⟩ := hl
  obtain ⟨s, hs⟩ := he.spells
  have hdenote : Denote (l.map plainRegion) spans := List.forall₂_map_left_iff.mpr hspans
  have hscan := insertScan_refines hs hdenote
  obtain ⟨⟨before, after⟩, hfound, rfl⟩ := Option.map_eq_some_iff.mp h
  rw [hfound] at hscan
  cases hplace : place s spans with
  | none =>
      rw [hplace] at hscan
      cases hscan
  | some found =>
      rw [hplace] at hscan
      refine ⟨found.1 ++ s :: found.2, ?_, hascending.insert hplace⟩
      rw [List.forall₂_map_left_iff]
      exact List.rel_append hscan.1 (.cons hs hscan.2)

theorem insertEntries_spells (h : insertEntries entries l = some l') (hfit : EntriesFit entries)
    (hl : SpellAscending l) : SpellAscending l' := by
  induction entries generalizing l with
  | nil =>
      cases h
      exact hl
  | cons e rest ih =>
      obtain ⟨middle, hinsert, hrest⟩ := Option.bind_eq_some_iff.mp h
      obtain ⟨he, hfit⟩ := List.forall_mem_cons.mp hfit
      exact ih hrest hfit (insertEntry_spells hinsert he hl)

theorem properRegions_of_spells (h : SpellAscending (regions.map IommuResvRegion.extent)) :
    ProperRegions regions := by
  obtain ⟨spans, hspans, hascending⟩ := h
  have hdenote : Denote regions spans := List.forall₂_map_left_iff.mp hspans
  refine ⟨?_, hdenote.pairwise_start hascending, ?_⟩
  · intro r hr
    obtain ⟨s, -, hs⟩ := exists_of_mem_right hdenote.flip hr
    exact Spells.fits hs
  · refine pairwise_of_forall₂ ?_ hdenote hascending
    intro r r' s s' hs hs' hbefore
    rw [hs.addresses_eq, hs'.addresses_eq, ← Span.not_overlaps_iff_disjoint]
    exact hbefore.not_overlaps

/-- Whatever the property and whichever allocations fail, a list of regions generated with the
result 0 is proper if and only if each entry is a non-empty part of the address space. -/
theorem generate_dma_regions_proper_iff {dev : OfDevice} {live last : Multiset ℕ}
    {trace : List (Event ResvCall)} {regions : List IommuResvRegion}
    (hexec : Exec (resvKernel true) (qcomIommuGenerateDmaRegions dev []) live trace
      (some (0, regions)) last) :
    ProperRegions regions ↔ EntriesFit (poolEntries dev) := by
  have hgenerates := wp_exec qcomIommuGenerateDmaRegions_generates hexec
  have hinsert : insertEntries (poolEntries dev) [] =
      some (regions.map IommuResvRegion.extent) := by
    cases hgenerates with
    | refused _ hret => exact absurd rfl hret
    | walked _ hwalked => exact hwalked.inserted rfl
  constructor
  · intro hproper e he
    have hperm := insertEntries_perm hinsert
    rw [List.append_nil] at hperm
    obtain ⟨r, hr, rfl⟩ := List.mem_map.mp (hperm.mem_iff.mpr he)
    exact hproper.fit r hr
  · intro hfit
    exact properRegions_of_spells (insertEntries_spells hinsert hfit ⟨[], .nil, .nil⟩)

/-- Answers of an allocator that never fails. -/
def resvChoose : Chooser ResvCall (Multiset ℕ)
  | _, .iommuAllocResvRegion start length, live =>
      some (some ⟨Multiset.card live, start, length⟩)
  | _, .kfree _, _ => some ()

/-- Two entries that touch become proper regions. -/
theorem generate_dma_regions_proper_iff_touching : ∃ trace regions last,
    Exec (resvKernel true) (qcomIommuGenerateDmaRegions (poolDevice [(16, 16), (0, 16)]) []) 0
      trace (some (0, regions)) last ∧ ProperRegions regions := by
  have hcheck : (qcomIommuGenerateDmaRegions (poolDevice [(16, 16), (0, 16)]) []).check
      (resvKernel true) resvChoose 0 (fun _ result _ => decide (result.1 = 0)) = true := by
    decide +kernel
  obtain ⟨trace, ⟨ret, regions⟩, last, hexec, htest⟩ := Program.check_exec hcheck
  obtain rfl : ret = 0 := of_decide_eq_true htest
  have hentries : poolEntries (poolDevice [(16, 16), (0, 16)]) = [(16, 16), (0, 16)] := by
    decide +kernel
  refine ⟨trace, regions, last, hexec, (generate_dma_regions_proper_iff hexec).mpr ?_⟩
  rw [hentries]
  simp [EntriesFit, Fits]

/-- An entry of size 0 becomes a region of no addresses. -/
theorem not_generate_dma_regions_proper : ¬ ∀ dev live trace regions last,
    Exec (resvKernel true) (qcomIommuGenerateDmaRegions dev []) live trace (some (0, regions))
      last → ProperRegions regions := by
  intro hall
  have hcheck : (qcomIommuGenerateDmaRegions (poolDevice [(16, 0)]) []).check
      (resvKernel true) resvChoose 0 (fun _ result _ => decide (result.1 = 0) &&
        decide (∃ r ∈ result.2, r.length = 0)) = true := by
    decide +kernel
  obtain ⟨trace, ⟨ret, regions⟩, last, hexec, htest⟩ := Program.check_exec hcheck
  simp only [Bool.and_eq_true, decide_eq_true_eq] at htest
  obtain ⟨rfl, r, hr, hzero⟩ := htest
  have hfit := ((hall _ _ _ _ _ hexec).fit r hr).1
  rw [hzero] at hfit
  exact absurd hfit (by decide)

end SafeLinux.IovaMap
