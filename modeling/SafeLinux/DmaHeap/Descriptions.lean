import SafeLinux.DmaHeap.Probe
import SafeLinux.Effects.Reading

/-!
# The heaps that a device tree describes

`Describes` says what a child of the node of the heaps means: which of its properties must be there,
which may be missing and are then 0, and what its memory region adds. `parse_heap_dt` reads exactly
the heaps described, one for each available child and in their order, unless memory, a device or the
initialisation of a region is refused (`parseHeapDt_describes`); and the probe reports on exactly
these (`qcomDmaHeapProbe_reports`).
-/

namespace SafeLinux.DmaHeap

open Effects
open Effects.Program (perform)
open Heaps (HeapCall HeapProg)

/-! ## Contents of a device tree -/

/-- What the parser can read in a device tree. -/
structure Contents extends DeviceTree where
  string : Nat → String → Except Int String
  u32 : Nat → String → Except Int U32
  bool : Nat → String → Bool
  /-- Whether a reserved-memory region has `ops`, if there is one. -/
  reservedMem : Nat → Option Bool
  /-- The size in the first address of a node, if it has one. -/
  addressSize : Nat → Option U64
  translated : Nat → U64

/-- The answers that the contents give. -/
def Contents.Gives (tree : Contents) : {β : Type} → DtCall β → β → Prop
  | _, .ofPropertyReadString node propname, value => value = tree.string node propname
  | _, .ofPropertyReadU32 node propname, value => value = tree.u32 node propname
  | _, .ofPropertyReadBool node propname, value => value = tree.bool node propname
  | _, .ofParsePhandle node _, memNode => memNode = node.bind tree.memoryRegion
  | _, .ofReservedMemLookup memNode, ops => ops = tree.reservedMem memNode
  | _, .ofGetAddress memNode, size => size = tree.addressSize memNode
  | _, .ofTranslateAddress memNode, base => base = tree.translated memNode
  | _, _, _ => True

instance (tree : Contents) {β : Type} (request : DtCall β) (answer : β) :
    Decidable (tree.Gives request answer) :=
  match β, request, answer with
  | _, .ofPropertyReadString _ _, _ => inferInstanceAs (Decidable (_ = _))
  | _, .ofPropertyReadU32 _ _, _ => inferInstanceAs (Decidable (_ = _))
  | _, .ofPropertyReadBool _ _, _ => inferInstanceAs (Decidable (_ = _))
  | _, .ofParsePhandle _ _, _ => inferInstanceAs (Decidable (_ = _))
  | _, .ofReservedMemLookup _, _ => inferInstanceAs (Decidable (_ = _))
  | _, .ofGetAddress _, _ => inferInstanceAs (Decidable (_ = _))
  | _, .ofTranslateAddress _, _ => inferInstanceAs (Decidable (_ = _))
  | _, .kzallocPdata, _ | _, .kcallocHeaps _, _ | _, .kfreeHeaps, _ | _, .kfreePdata, _
  | _, .nextAvailableChild _ _, _ | _, .ofPlatformDeviceCreate _, _ | _, .ofDmaConfigure _, _
  | _, .ofNodePut _, _ | _, .ofReservedMemDeviceInitByIdx _, _
  | _, .ofReservedMemDeviceRelease _, _ | _, .prFailed _ _, _ | _, .prCreated _, _ =>
      .isTrue trivial

/-- The calls that are refused. -/
def refusal : {β : Type} → DtCall β → β → Option Unit
  | _, .kzallocPdata, allocated => if allocated = true then none else some ()
  | _, .kcallocHeaps _, allocated => if allocated = true then none else some ()
  | _, .ofPlatformDeviceCreate _, done => if done = true then none else some ()
  | _, .ofReservedMemDeviceInitByIdx _, ret => if ret = 0 then none else some ()
  | _, _, _ => none

/-- The observer of refusals. -/
def refusals (tree : Contents) : Observer DtCall Unit := ⟨tree.Gives, refusal⟩

/-! ## Descriptions -/

/-- The value of a property that may be missing. -/
inductive Contents.Optional (tree : Contents) (node : Nat) (propname : String) : U32 → Prop where
  | given {value : U32} : tree.u32 node propname = .ok value → tree.Optional node propname value
  | missing : tree.u32 node propname = .error (-EINVAL) → tree.Optional node propname 0

/-- The base and the size of a memory region, and whether it is not mapped. -/
inductive Contents.Region (tree : Contents) : Option Nat → U64 → U64 → Bool → Prop where
  | none : tree.Region none 0 0 false
  | unaddressed {memNode : Nat} : tree.reservedMem memNode ≠ .none →
      tree.addressSize memNode = .none →
      tree.Region (some memNode) 0 0 (tree.bool memNode "no-map")
  | addressed {memNode : Nat} {size : U64} : tree.reservedMem memNode ≠ .none →
      tree.addressSize memNode = some size → tree.translated memNode ≠ OF_BAD_ADDR →
      tree.Region (some memNode) (tree.translated memNode) size (tree.bool memNode "no-map")

/-- The heap that a child describes. -/
structure Describes (tree : Contents) (node : Nat) (heap : PlatformHeap) : Prop where
  dev : heap.dev = some node
  name : ∃ name, tree.string node "qcom,dma-heap-name" = .ok name ∧ heap.name = some name
  type : tree.u32 node "qcom,dma-heap-type" = .ok heap.type
  token : tree.Optional node "qcom,token" heap.token
  maxAlign : tree.Optional node "qcom,max-align" heap.maxAlign
  region : tree.Region (tree.memoryRegion node) heap.base heap.size heap.isNomap

variable {tree : Contents} {node memNode : Nat} {prev : Option Nat} {heap : PlatformHeap}
  {heaps : List PlatformHeap} {nodes : List Nat}

/-! ## The parts of the parser -/

theorem Contents.Optional.unique {propname : String} {value value' : U32}
    (h : tree.Optional node propname value) (h' : tree.Optional node propname value') :
    value' = value := by
  cases h <;> cases h' <;> simp_all

theorem readOptionalU32_reads {propname : String} :
    (readOptionalU32 node propname 0).Shows (refusals tree)
      (Reads (tree.Optional node propname)) := by
  refine shows_idle (fun _ => rfl) fun value hgives => ?_
  have hvalue : value = tree.u32 node propname := hgives
  cases value with
  | ok value =>
      have hgiven : tree.Optional node propname value := .given hvalue.symm
      exact reads_ok hgiven fun _ h => hgiven.unique h
  | error err =>
      by_cases herr : err ≠ -EINVAL
      · refine Program.Shows.reads_nothing ?_ fun value h => ?_
        · show Program.Shows _ (if err ≠ -EINVAL then _ else _) _
          rw [if_pos herr]
          exact shows_error err
        · cases h with
          | given h => cases hvalue.trans h
          | missing h => exact herr (Except.error.inj (hvalue.trans h))
      · show Program.Shows _ (if err ≠ -EINVAL then _ else _) _
        rw [if_neg herr]
        have hmissing : tree.Optional node propname 0 := .missing (by
          rw [← hvalue, not_not.mp herr])
        exact reads_ok hmissing fun _ h => hmissing.unique h

/-- What `populate_heap` makes of a heap. -/
inductive Populates (tree : Contents) (node : Nat) (heap : PlatformHeap) : PlatformHeap → Prop where
  | intro {name : String} {type token maxAlign : U32} :
      tree.string node "qcom,dma-heap-name" = .ok name →
      tree.u32 node "qcom,dma-heap-type" = .ok type →
      tree.Optional node "qcom,token" token → tree.Optional node "qcom,max-align" maxAlign →
      Populates tree node heap
        { heap with name := some name, type := type, token := token, maxAlign := maxAlign }

theorem populateHeap_reads (htoken : heap.token = 0) (hmaxAlign : heap.maxAlign = 0) :
    (populateHeap node heap).Shows (refusals tree) (Reads (Populates tree node heap)) := by
  refine shows_idle (fun _ => rfl) fun name hgives => ?_
  have hname : name = tree.string node "qcom,dma-heap-name" := hgives
  cases name with
  | error err =>
      refine (shows_error err).reads_nothing fun heap' h => ?_
      cases h with
      | intro h => cases hname.trans h
  | ok name =>
  refine shows_idle (fun _ => rfl) fun type hgives => ?_
  have htype : type = tree.u32 node "qcom,dma-heap-type" := hgives
  cases type with
  | error err =>
      refine (shows_error err).reads_nothing fun heap' h => ?_
      cases h with
      | intro _ h => cases htype.trans h
  | ok type =>
  rw [htoken, hmaxAlign]
  refine Program.Shows.reads_congr
    (D := fun heap' => ∃ token, tree.Optional node "qcom,token" token ∧
      ∃ maxAlign, tree.Optional node "qcom,max-align" maxAlign ∧ heap' =
        { heap with name := some name, type := type, token := token, maxAlign := maxAlign })
    ?_ fun heap' => ⟨?_, ?_⟩
  · refine reads_bind readOptionalU32_reads shows_error fun token _ => ?_
    refine reads_bind readOptionalU32_reads shows_error fun maxAlign _ => ?_
    exact reads_ok rfl fun _ h => h
  · rintro ⟨token, htoken, maxAlign, hmaxAlign, rfl⟩
    exact .intro hname.symm htype.symm htoken hmaxAlign
  · intro h
    cases h with
    | intro hname' htype' htoken hmaxAlign =>
        cases hname.trans hname'
        cases htype.trans htype'
        exact ⟨_, htoken, _, hmaxAlign, rfl⟩

/-- What `heap_dt_init` makes of a heap. -/
inductive Initialises (tree : Contents) (memNode : Nat) (heap : PlatformHeap) :
    PlatformHeap → Prop where
  | intro {base size : U64} {isNomap : Bool} : tree.Region (some memNode) base size isNomap →
      Initialises tree memNode heap { heap with base := base, size := size, isNomap := isNomap }

/-- The end of `heap_dt_init`, for a region that there is and a heap without an address. -/
theorem heapDtAddress_reads (hmem : tree.reservedMem memNode ≠ none) (hbase : heap.base = 0)
    (hsize : heap.size = 0) :
    (heapDtAddress memNode heap).Shows (refusals tree) (Reads (Initialises tree memNode heap)) := by
  have hnone : ∀ size, tree.addressSize memNode = some size →
      tree.translated memNode = OF_BAD_ADDR → ∀ heap', ¬ Initialises tree memNode heap heap' := by
    intro size haddr hbad heap' h
    cases h with
    | intro hregion =>
        cases hregion with
        | unaddressed _ h => cases haddr.symm.trans h
        | addressed _ _ h => exact h hbad
  refine shows_idle (fun _ => rfl) fun size hgives => ?_
  have haddr : size = tree.addressSize memNode := hgives
  cases size with
  | none =>
      refine shows_idle (fun _ => rfl) fun isNomap hgives => ?_
      obtain rfl : isNomap = tree.bool memNode "no-map" := hgives
      have hregion := Contents.Region.unaddressed hmem haddr.symm
      have hheap : { heap with isNomap := tree.bool memNode "no-map" } =
          { heap with base := 0, size := 0, isNomap := tree.bool memNode "no-map" } := by
        simp [hbase, hsize]
      refine reads_ok (hheap ▸ .intro hregion) fun heap' h => ?_
      cases h with
      | intro h =>
          cases h with
          | unaddressed => exact hheap.symm
          | addressed _ h => cases haddr.trans h
  | some size =>
      refine shows_idle (fun _ => rfl) fun base hgives => ?_
      obtain rfl : base = tree.translated memNode := hgives
      by_cases hbad : tree.translated memNode ≠ OF_BAD_ADDR
      · show Program.Shows _ ((if tree.translated memNode ≠ OF_BAD_ADDR then _ else _) >>= _) _
        rw [if_pos hbad]
        refine shows_idle (fun _ => rfl) fun isNomap hgives => ?_
        obtain rfl : isNomap = tree.bool memNode "no-map" := hgives
        refine reads_ok (.intro (.addressed hmem haddr.symm hbad)) fun heap' h => ?_
        cases h with
        | intro h =>
            cases h with
            | unaddressed _ h => cases haddr.trans h
            | addressed _ h =>
                cases haddr.trans h
                rfl
      · refine Program.Shows.reads_nothing ?_ (hnone size haddr.symm (not_not.mp hbad))
        show Program.Shows _ ((if tree.translated memNode ≠ OF_BAD_ADDR then _ else _) >>= _) _
        rw [if_neg hbad]
        exact shows_idle (fun _ => rfl) fun _ _ => shows_idle (fun _ => rfl) fun _ _ =>
          shows_error _

theorem heapDtInit_reads (hbase : heap.base = 0) (hsize : heap.size = 0) :
    (heapDtInit memNode heap).Shows (refusals tree) (Reads (Initialises tree memNode heap)) := by
  refine shows_idle (fun _ => rfl) fun ops hgives => ?_
  have hops : ops = tree.reservedMem memNode := hgives
  cases ops with
  | none =>
      refine (shows_error _).reads_nothing fun heap' h => ?_
      cases h with
      | intro h =>
          cases h with
          | unaddressed h | addressed h => exact h hops.symm
  | some ops =>
      have hmem : tree.reservedMem memNode ≠ none := by
        rw [← hops]
        exact Option.some_ne_none ops
      cases ops with
      | false => exact heapDtAddress_reads hmem hbase hsize
      | true =>
          refine shows_call fun ret _ => ?_
          by_cases hret : ret = 0
          · subst hret
            exact heapDtAddress_reads hmem hbase hsize
          · have hrefused : (refusals tree).view (.ofReservedMemDeviceInitByIdx heap.dev) ret =
              some () := if_neg hret
            rw [hrefused]
            show Program.Shows _ (if ret ≠ 0 then _ else _) _
            rw [if_pos hret]
            exact (shows_error ret).reads_refused ()

/-- A heap is described by a child when populating it and initialising its region, if there is one,
make this heap. -/
theorem describes_iff : Describes tree node heap ↔
    ∃ heap', Populates tree node { PlatformHeap.zero with dev := some node } heap' ∧
      (tree.memoryRegion node).elim (heap = heap') fun memNode =>
        Initialises tree memNode heap' heap := by
  constructor
  · intro h
    obtain ⟨type, name, base, size, dev, isNomap, token, maxAlign⟩ := heap
    obtain ⟨hdev, ⟨name, hname, hname'⟩, htype, htoken, hmaxAlign, hregion⟩ := h
    cases hdev
    cases hname'
    refine ⟨_, .intro hname htype htoken hmaxAlign, ?_⟩
    simp only at hregion
    cases hmem : tree.memoryRegion node with
    | none =>
        rw [hmem] at hregion
        cases hregion
        rfl
    | some memNode =>
        rw [hmem] at hregion
        exact .intro hregion
  · rintro ⟨heap', hpopulates, hregion⟩
    cases hpopulates with
    | intro hname htype htoken hmaxAlign =>
        cases hmem : tree.memoryRegion node with
        | none =>
            rw [hmem] at hregion
            obtain rfl : heap = _ := hregion
            refine ⟨rfl, ⟨_, hname, rfl⟩, htype, htoken, hmaxAlign, ?_⟩
            rw [hmem]
            exact .none
        | some memNode =>
            rw [hmem] at hregion
            cases hregion with
            | intro hregion =>
                refine ⟨rfl, ⟨_, hname, rfl⟩, htype, htoken, hmaxAlign, ?_⟩
                rw [hmem]
                exact hregion

/-! ## The parser -/

theorem releaseReservedMemoryRegions_returns :
    (releaseReservedMemoryRegions heaps).Shows (refusals tree) fun _ result =>
      result = some () := by
  induction heaps with
  | nil => exact shows_pure rfl
  | cons heap rest ih =>
      refine shows_call fun memNode _ => ?_
      cases memNode with
      | none => exact shows_call fun _ _ => ih
      | some memNode => exact shows_call fun _ _ => shows_call fun _ _ => ih

theorem freeHeaps_fails {ret : Int} :
    (freeHeaps node heaps ret).Shows (refusals tree) Fails := by
  refine shows_call fun _ _ => ?_
  refine shows_bind releaseReservedMemoryRegions_returns (fun _ _ _ => ?_) fun _ h => by cases h
  exact shows_call fun _ _ => shows_call fun _ _ => shows_error ret

/-- The loop reads the heaps of the children that are left. -/
theorem parseLoop_reads : (parseLoop prev heaps nodes).Shows (refusals tree)
    (Reads fun read => ∃ later, List.Forall₂ (Describes tree) nodes later ∧
      read = heaps.reverse ++ later) := by
  induction nodes generalizing prev heaps with
  | nil =>
      refine shows_idle (fun _ => rfl) fun _ _ => reads_ok ⟨[], .nil, by simp⟩ ?_
      rintro read ⟨later, hlater, rfl⟩
      cases hlater
      simp
  | cons node nodes ih =>
      refine shows_idle (fun _ => rfl) fun _ _ => ?_
      refine shows_call fun created _ => ?_
      cases created with
      | false => exact freeHeaps_fails.reads_refused ()
      | true =>
      refine shows_idle (fun _ => rfl) fun _ _ => ?_
      -- The child's heap, then the heaps of the later children.
      refine Program.Shows.reads_congr (D := fun read => ∃ heap',
        Populates tree node { PlatformHeap.zero with dev := some node } heap' ∧
          ∃ heap, (tree.memoryRegion node).elim (heap = heap') (fun memNode =>
              Initialises tree memNode heap' heap) ∧
            ∃ later, List.Forall₂ (Describes tree) nodes later ∧
              read = (heap :: heaps).reverse ++ later) ?_ fun read => ⟨?_, ?_⟩
      · refine reads_bind (populateHeap_reads rfl rfl) (fun _ => freeHeaps_fails)
          fun heap' hpopulates => ?_
        refine shows_idle (fun _ => rfl) fun memNode hgives => ?_
        have hmem : memNode = tree.memoryRegion node := hgives
        rw [← hmem]
        cases memNode with
        | none =>
            refine ih.reads_congr fun read => ⟨fun h => ⟨heap', rfl, h⟩, ?_⟩
            rintro ⟨heap, rfl, h⟩
            exact h
        | some memNode =>
            have hzero : heap'.base = 0 ∧ heap'.size = 0 := by
              cases hpopulates
              exact ⟨rfl, rfl⟩
            refine reads_bind (heapDtInit_reads hzero.1 hzero.2) (fun _ => freeHeaps_fails)
              fun heap _ => ?_
            exact shows_idle (fun _ => rfl) fun _ _ => ih
      · rintro ⟨heap', hpopulates, heap, hregion, later, hlater, rfl⟩
        exact ⟨heap :: later, .cons (describes_iff.mpr ⟨heap', hpopulates, hregion⟩) hlater,
          by simp⟩
      · rintro ⟨later, hlater, rfl⟩
        cases hlater with
        | cons hheap hlater =>
            obtain ⟨heap', hpopulates, hregion⟩ := describes_iff.mp hheap
            exact ⟨heap', hpopulates, _, hregion, _, hlater, by simp⟩

theorem countChildren_counts {nr : Nat} :
    (countChildren prev nr nodes).Shows (refusals tree) fun acts result =>
      acts = [] ∧ result = some (nr + nodes.length) := by
  induction nodes generalizing prev nr with
  | nil => exact shows_idle (fun _ => rfl) fun _ _ => shows_pure ⟨rfl, rfl⟩
  | cons node nodes ih =>
      refine shows_idle (fun _ => rfl) fun _ _ => ih.mono ?_
      rintro acts result ⟨hacts, rfl⟩
      exact ⟨hacts, congrArg some (by simp only [List.length_cons]; omega)⟩

/-- `parse_heap_dt` reads the heaps that the children describe. -/
theorem parseHeapDt_describes : (parseHeapDt tree.toDeviceTree).Shows (refusals tree)
    (Reads (List.Forall₂ (Describes tree) tree.children)) := by
  refine shows_call fun allocated _ => ?_
  cases allocated with
  | false => exact (shows_error _).reads_refused ()
  | true =>
  refine shows_bind countChildren_counts ?_ fun _ h => by cases h.2
  rintro acts nr ⟨rfl, hnr⟩
  obtain rfl : nr = 0 + tree.children.length := Option.some.inj hnr
  by_cases hnone : 0 + tree.children.length = 0
  · rw [if_pos hnone]
    have hchildren : tree.children = [] := List.length_eq_zero_iff.mp (by omega)
    rw [hchildren]
    exact reads_ok .nil fun heaps h => by cases h; rfl
  · rw [if_neg hnone]
    refine shows_call fun allocated _ => ?_
    cases allocated with
    | false =>
        exact Program.Shows.reads_refused
          (p := perform DtCall.kfreePdata >>= fun _ => pure (.error (-ENOMEM)))
          (shows_call fun _ _ => shows_error _) ()
    | true =>
        refine Program.Shows.reads_congr parseLoop_reads fun heaps => ⟨?_, fun h => ?_⟩
        · rintro ⟨later, hlater, rfl⟩
          exact hlater
        · exact ⟨heaps, h, rfl⟩

/-! ## The probe -/

/-- The calls that report on no heap. -/
def Silent : (β : Type) → DtCall β → Prop
  | _, .prFailed _ _ | _, .prCreated _ => False
  | _, _ => True

theorem readOptionalU32_silent {propname : String} {old : U32} :
    (readOptionalU32 node propname old).Only Silent := by
  refine .then trivial fun value => ?_
  split
  · exact .pure _
  · split <;> exact .pure _

theorem populateHeap_silent : (populateHeap node heap).Only Silent := by
  refine .then trivial fun name => ?_
  split
  · exact .pure _
  refine .then trivial fun type => ?_
  split
  · exact .pure _
  refine .bind readOptionalU32_silent fun token => ?_
  split
  · exact .pure _
  refine .bind readOptionalU32_silent fun maxAlign => ?_
  split <;> exact .pure _

theorem heapDtAddress_silent : (heapDtAddress memNode heap).Only Silent := by
  refine .bind (.then trivial fun size => ?_) fun _ => .then trivial fun _ => ?_
  · split
    · exact .pure _
    · refine .then trivial fun base => ?_
      split
      · exact .pure _
      · exact .then trivial fun _ => .pure _
  · split <;> exact .pure _

theorem heapDtInit_silent : (heapDtInit memNode heap).Only Silent := by
  refine .then trivial fun ops => ?_
  split
  · exact .pure _
  · split
    · refine .then trivial fun ret => ?_
      split
      · exact .pure _
      · exact heapDtAddress_silent
    · exact heapDtAddress_silent

theorem releaseReservedMemoryRegions_silent :
    (releaseReservedMemoryRegions heaps).Only Silent := by
  induction heaps with
  | nil => exact .pure _
  | cons heap rest ih =>
      refine .then trivial fun memNode => ?_
      split
      · exact .then trivial fun _ => .then trivial fun _ => ih
      · exact .then trivial fun _ => ih

theorem freePdata_silent : freePdata.Only Silent := .then trivial fun _ => .perform trivial

theorem freeHeaps_silent {ret : Int} : (freeHeaps node heaps ret).Only Silent :=
  .then trivial fun _ => .bind releaseReservedMemoryRegions_silent fun _ =>
    .bind freePdata_silent fun _ => .pure _

theorem parseLoop_silent : (parseLoop prev heaps nodes).Only Silent := by
  induction nodes generalizing prev heaps with
  | nil => exact .then trivial fun _ => .pure _
  | cons node nodes ih =>
      refine .then trivial fun _ => .then trivial fun created => ?_
      split
      · exact freeHeaps_silent
      refine .then trivial fun _ => .bind populateHeap_silent fun populated => ?_
      split
      · exact freeHeaps_silent
      refine .then trivial fun memNode => ?_
      split
      · exact ih
      refine .bind heapDtInit_silent fun initialised => ?_
      split
      · exact freeHeaps_silent
      · exact .then trivial fun _ => ih

theorem countChildren_silent {nr : Nat} : (countChildren prev nr nodes).Only Silent := by
  induction nodes generalizing prev nr with
  | nil => exact .then trivial fun _ => .pure _
  | cons node nodes ih => exact .then trivial fun _ => ih

theorem parseHeapDt_silent : (parseHeapDt tree.toDeviceTree).Only Silent := by
  refine .then trivial fun allocated => ?_
  split
  · exact .pure _
  refine .bind countChildren_silent fun nr => ?_
  split
  · exact .pure _
  refine .then trivial fun allocated => ?_
  split
  · exact .then trivial fun _ => .pure _
  · exact parseLoop_silent

/-- The heap that a call reports on. -/
def reported : Event ProbeCall → Option PlatformHeap
  | ⟨.inl (.prFailed heap _), _⟩ => some heap
  | ⟨.inl (.prCreated heap), _⟩ => some heap
  | _ => none

/-- The answers of a run of the probe that the contents of the tree decide. -/
def Contents.Decides (tree : Contents) : Event ProbeCall → Prop
  | ⟨.inl request, answer⟩ => tree.Gives request answer
  | _ => True

/-- `Contents.Decides`, decided. -/
def Contents.decides (tree : Contents) : Event ProbeCall → Bool
  | ⟨.inl request, answer⟩ => decide (tree.Gives request answer)
  | _ => true

theorem Contents.decides_iff (tree : Contents) {e : Event ProbeCall} :
    tree.decides e = true ↔ tree.Decides e := by
  obtain ⟨request, answer⟩ := e
  cases request with
  | inl request => exact decide_eq_true_iff
  | inr request => exact iff_of_true rfl trivial

/-- The calls of a run of the probe that the parser is refused. -/
def refusedCall : Event ProbeCall → Option Unit
  | ⟨.inl request, answer⟩ => refusal request answer
  | _ => none

variable {trace : List (Event ProbeCall)} {ret : Int}

/-- A part that reports on no heap. -/
theorem reported_silent {α : Type} {p : DtProg α} {own : List (Event DtCall)} {result : Option α}
    (hp : p.Only Silent) (h : Runs p own result) :
    (own.map (Event.lift .inl)).filterMap reported = [] := by
  have hsilent : Among Silent own := wp_exec (wp_among hp) h
  rw [List.filterMap_map, List.filterMap_eq_nil_iff]
  rintro ⟨request, answer⟩ he
  have hcall := hsilent _ he
  cases request <;> first | rfl | exact absurd hcall id

/-- Creating a heap reports on none. -/
theorem reported_create (own : List (Event HeapCall)) :
    (own.map (Event.lift .inr) : List (Event ProbeCall)).filterMap reported = [] := by
  rw [List.filterMap_map, List.filterMap_eq_nil_iff]
  exact fun _ _ => rfl

/-- The loop of the probe reports on each heap once, in their order. -/
theorem reported_probeLoop {final : Int} (h : Runs (probeLoop ret heaps) trace (some final)) :
    trace.filterMap reported = heaps := by
  induction heaps generalizing ret trace with
  | nil =>
      cases h
      rfl
  | cons heap heaps ih =>
      obtain ⟨ret', first, second, rfl, hfirst, hsecond⟩ := Runs.bind_some_inv h
      obtain ⟨own, rfl, _⟩ := Runs.lift_inv hfirst
      rw [List.filterMap_append, reported_create, List.nil_append]
      split at hsecond
      · obtain ⟨_, trace', rfl, hrest⟩ := Runs.call_inv hsecond
        exact congrArg (List.cons heap) (ih hrest)
      · obtain ⟨_, trace', rfl, hrest⟩ := Runs.call_inv hsecond
        exact congrArg (List.cons heap) (ih hrest)

/-- A heap for each child, where each describes one. -/
theorem exists_described (h : ∀ node ∈ nodes, ∃ heap, Describes tree node heap) :
    ∃ heaps, List.Forall₂ (Describes tree) nodes heaps := by
  induction nodes with
  | nil => exact ⟨[], .nil⟩
  | cons node nodes ih =>
      obtain ⟨⟨heap, hheap⟩, hlater⟩ := List.forall_mem_cons.mp h
      obtain ⟨heaps, hheaps⟩ := ih hlater
      exact ⟨heap :: heaps, .cons hheap hheaps⟩

/-- In every run of the probe on a device tree, whatever the outcome of the allocations, of the
creation of devices and heaps and of the initialisation of regions: the heaps on which the probe
reports, in the order of its reports, are those that the available children describe, one for each
child; or it reports on none, and then a call of the parser was refused or there is a child that
describes no heap. -/
theorem qcomDmaHeapProbe_reports
    (h : Runs (qcomDmaHeapProbe tree.toDeviceTree) trace (some ret))
    (hdecides : ∀ e ∈ trace, tree.Decides e) :
    List.Forall₂ (Describes tree) tree.children (trace.filterMap reported) ∨
      trace.filterMap reported = [] ∧
        (trace.filterMap refusedCall ≠ [] ∨
          ∃ node ∈ tree.children, ∀ heap, ¬ Describes tree node heap) := by
  obtain ⟨read, first, second, rfl, hfirst, hsecond⟩ := Runs.bind_some_inv h
  obtain ⟨parse, rfl, hparse⟩ := Runs.lift_inv hfirst
  have hgives : ∀ e ∈ parse, tree.Gives e.call e.answer := fun e he =>
    hdecides _ (List.mem_append_left _ (List.mem_map_of_mem he))
  have hreads := parseHeapDt_describes.exec_of_possible hgives hparse
  rw [List.filterMap_append, reported_silent parseHeapDt_silent hparse, List.nil_append]
  cases read with
  | ok heaps =>
      left
      obtain ⟨final, loop, freed, rfl, hloop, hfree⟩ := Runs.bind_some_inv hsecond
      obtain ⟨_, free, rest, rfl, hfree, hreturn⟩ := Runs.bind_some_inv hfree
      obtain ⟨own, rfl, hown⟩ := Runs.lift_inv hfree
      cases hreturn
      rw [List.filterMap_append, reported_probeLoop hloop, List.append_nil,
        reported_silent freePdata_silent hown, List.append_nil]
      exact hreads.sound heaps rfl
  | error err =>
      right
      cases hsecond
      refine ⟨rfl, ?_⟩
      by_contra hnone
      obtain ⟨hrefused, hall⟩ := not_or.mp hnone
      obtain ⟨heaps, hheaps⟩ := exists_described fun node hnode => not_forall_not.mp fun hno =>
        hall ⟨node, hnode, hno⟩
      rw [List.append_nil, not_not, List.filterMap_map] at hrefused
      cases hreads.complete hrefused heaps hheaps

/-- The answers that the contents of a tree give, and no refusal. -/
def Contents.grant (tree : Contents) : Chooser DtCall Unit
  | _, .kzallocPdata, _ | _, .kcallocHeaps _, _ | _, .ofPlatformDeviceCreate _, _ => some true
  | _, .ofPropertyReadString node propname, _ => some (tree.string node propname)
  | _, .ofPropertyReadU32 node propname, _ => some (tree.u32 node propname)
  | _, .ofPropertyReadBool node propname, _ => some (tree.bool node propname)
  | _, .ofParsePhandle node _, _ => some (node.bind tree.memoryRegion)
  | _, .ofReservedMemLookup memNode, _ => some (tree.reservedMem memNode)
  | _, .ofReservedMemDeviceInitByIdx _, _ => some 0
  | _, .ofGetAddress memNode, _ => some (tree.addressSize memNode)
  | _, .ofTranslateAddress memNode, _ => some (tree.translated memNode)
  | _, .kfreeHeaps, _ | _, .kfreePdata, _ | _, .nextAvailableChild _ _, _
  | _, .ofDmaConfigure _, _ | _, .ofNodePut _, _ | _, .ofReservedMemDeviceRelease _, _
  | _, .prFailed _ _, _ | _, .prCreated _, _ => some ()

def Contents.probeGrant (tree : Contents) : Chooser ProbeCall Unit
  | _, .inl request, s => tree.grant _ request s
  | _, .inr request, s => withoutPool _ request s

/-- Two CMA heaps; the second has a region of a page and a token. -/
def twoHeaps : Contents where
  children := [1, 2]
  nodup := twoChildren.nodup
  memoryRegion node := if node = 2 then some 3 else none
  string _ _ := .ok "heap"
  u32 node propname :=
    if propname = "qcom,dma-heap-type" then .ok HEAP_TYPE_CMA
    else if node = 2 ∧ propname = "qcom,token" then .ok 5
    else .error (-EINVAL)
  bool _ _ := true
  reservedMem _ := some true
  addressSize _ := some 0x1000
  translated _ := 0x80000000

/-- The two heaps are read as the tree describes them. -/
theorem qcomDmaHeapProbe_reports_two : ∃ trace,
    Runs (qcomDmaHeapProbe twoHeaps.toDeviceTree) trace (some 0) ∧
    trace.filterMap reported =
      [⟨HEAP_TYPE_CMA, some "heap", 0, 0, some 1, false, 0, 0⟩,
        ⟨HEAP_TYPE_CMA, some "heap", 0x80000000, 0x1000, some 2, true, 5, 0⟩] ∧
    List.Forall₂ (Describes twoHeaps) [1, 2] (trace.filterMap reported) := by
  have hcheck : (qcomDmaHeapProbe twoHeaps.toDeviceTree).check .free
      twoHeaps.probeGrant ()
      (fun trace ret _ => decide (ret = 0) && decide (trace.filterMap reported =
        [⟨HEAP_TYPE_CMA, some "heap", 0, 0, some 1, false, 0, 0⟩,
          ⟨HEAP_TYPE_CMA, some "heap", 0x80000000, 0x1000, some 2, true, 5, 0⟩]) &&
        trace.all fun e => twoHeaps.decides e) = true := by
    decide +kernel
  obtain ⟨trace, ret, _, hrun, htest⟩ := Program.check_exec hcheck
  simp only [Bool.and_eq_true, decide_eq_true_eq, List.all_eq_true] at htest
  obtain ⟨⟨rfl, hreported⟩, hdecides⟩ := htest
  refine ⟨trace, hrun, hreported, ?_⟩
  refine (qcomDmaHeapProbe_reports hrun fun e he =>
    twoHeaps.decides_iff.mp (hdecides e he)).resolve_right fun hnone => ?_
  rw [hreported] at hnone
  cases hnone.1

end SafeLinux.DmaHeap
