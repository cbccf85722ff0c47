import SafeLinux.DmaHeap.Driver
import Mathlib.Data.List.Induction

/-!
# What the probe says about the heaps

`qcom_dma_heap_probe` keeps one result through its loop, and an unknown heap type leaves it as it
was. `Outcome` is what a run has done about a heap; `carry` is the result along the loop. The report
of each heap and the value returned are true in the lists of `Orderly`, and in no others
(`qcomDmaHeapProbe_truthful_iff`).
-/

namespace SafeLinux.DmaHeap

open Effects
open Heaps (HeapCall HeapProg)

variable {ret : Int} {heap : PlatformHeap} {heaps : List PlatformHeap}
  {own : List (Event HeapCall)} {trace : List (Event ProbeCall)}

/-! ## The creation of a heap -/

/-- The types the probe knows. -/
def PlatformHeap.known (heap : PlatformHeap) : Bool :=
  heap.type == HEAP_TYPE_CARVEOUT || heap.type == HEAP_TYPE_CMA

/-- The observer of what `dma_heap_add` returns. -/
def heapAdds : Observer HeapCall Int where
  possible := fun _ _ => True
  view := fun request answer =>
    match request with
    | .dmaHeapAdd => some answer
    | _ => none

/-- A heap is created if it was added. -/
def heapAdded (own : List (Event HeapCall)) : Bool := decide (0 ∈ heapAdds.actions own)

theorem heapAdds_admits : heapAdds.Admits (@Semantics.free HeapCall) :=
  fun _ _ _ _ _ => trivial

theorem carveoutHeapClearPages_shows {pages : List Nat} {prot : Heaps.Pgprot} :
    (Heaps.carveoutHeapClearPages pages prot).Shows heapAdds fun adds _ => adds = [] := by
  refine shows_idle (fun _ => rfl) fun mapped _ => ?_
  split
  · exact shows_pure rfl
  · exact shows_idle (fun _ => rfl) fun _ _ => shows_idle (fun _ => rfl) fun _ _ => shows_pure rfl

theorem sglistZeroLoop_shows {prot : Heaps.Pgprot} {rest pages : List Nat} :
    (Heaps.sglistZeroLoop prot rest pages).Shows heapAdds fun adds _ => adds = [] := by
  induction rest generalizing pages with
  | nil =>
      unfold Heaps.sglistZeroLoop
      split
      · exact carveoutHeapClearPages_shows
      · exact shows_pure rfl
  | cons page rest ih =>
      unfold Heaps.sglistZeroLoop
      dsimp only
      split
      · refine shows_bind carveoutHeapClearPages_shows ?_ fun _ h => h
        intro adds cleared hadds
        subst hadds
        split
        · exact shows_pure rfl
        · exact ih
      · exact ih

/-- Initialising the memory of a heap does not add it. -/
theorem carveoutInitHeapMemory_shows {base size : U64} :
    (Heaps.carveoutInitHeapMemory base size).Shows heapAdds fun adds _ => adds = [] := by
  refine shows_bind sglistZeroLoop_shows ?_ fun _ h => h
  intro adds cleared hadds
  subst hadds
  split
  · exact shows_pure rfl
  · refine shows_idle (fun _ => rfl) fun created _ => ?_
    split
    · exact shows_pure rfl
    · exact shows_idle (fun _ => rfl) fun _ _ => shows_pure rfl

/-- The value returned is 0 if the heap was added, and only then. -/
def TellsAdded (adds : List Int) (result : Option Int) : Prop :=
  ∀ ret, result = some ret → (ret = 0 ↔ 0 ∈ adds)

theorem tellsAdded_fails (hret : ret ≠ 0) : TellsAdded [] (some ret) := by
  rintro _ ⟨⟩
  exact iff_of_false hret List.not_mem_nil

theorem tellsAdded_answer : TellsAdded [ret] (some ret) := by
  rintro _ ⟨⟩
  rw [List.mem_singleton]
  exact eq_comm

theorem qcomCarveoutHeapCreate_shows :
    (qcomCarveoutHeapCreate heap).Shows heapAdds TellsAdded := by
  refine shows_idle (fun _ => rfl) fun allocated _ => ?_
  split
  · exact shows_pure (tellsAdded_fails (by decide))
  refine shows_bind carveoutInitHeapMemory_shows ?_ fun _ _ => nofun
  intro adds ret hadds
  subst hadds
  split
  · rename_i hret
    exact shows_idle (fun _ => rfl) fun _ _ => shows_pure (tellsAdded_fails hret)
  · refine shows_act id (fun _ => rfl) fun added _ => ?_
    split
    · exact shows_idle (fun _ => rfl) fun _ _ => shows_idle (fun _ => rfl) fun _ _ =>
        shows_pure tellsAdded_answer
    · rename_i hadded
      obtain rfl := not_not.mp hadded
      exact shows_pure tellsAdded_answer

theorem addCmaHeap_shows : addCmaHeap.Shows heapAdds TellsAdded := by
  refine shows_idle (fun _ => rfl) fun allocated _ => ?_
  split
  · exact shows_pure (tellsAdded_fails (by decide))
  refine shows_act id (fun _ => rfl) fun added _ => ?_
  split
  · exact shows_idle (fun _ => rfl) fun _ _ => shows_pure tellsAdded_answer
  · rename_i hadded
    obtain rfl := not_not.mp hadded
    exact shows_pure tellsAdded_answer

/-- The `switch` of the probe: a heap of a known type is created, and the value of `ret` tells
whether it was; otherwise nothing is done and `ret` stays. -/
theorem createHeap_cases {ret' : Int} (h : Runs (createHeap heap ret) own (some ret')) :
    if heap.known then (ret' = 0 ↔ heapAdded own = true) else own = [] ∧ ret' = ret := by
  have htells (hshown : TellsAdded (heapAdds.actions own) (some ret')) :
      ret' = 0 ↔ heapAdded own = true := by
    rw [heapAdded, decide_eq_true_iff]
    exact hshown ret' rfl
  unfold createHeap at h
  split at h
  · rename_i htype
    rw [PlatformHeap.known, htype, if_pos (by decide)]
    exact htells (qcomCarveoutHeapCreate_shows.exec heapAdds_admits h)
  · split at h
    · rename_i htype
      rw [PlatformHeap.known, htype, if_pos (by decide)]
      exact htells (addCmaHeap_shows.exec heapAdds_admits h)
    · rename_i hcarveout hcma
      have hknown : heap.known = false := by simp [PlatformHeap.known, hcarveout, hcma]
      rw [hknown]
      cases h
      exact ⟨rfl, rfl⟩

/-! ## The heaps in a run -/

/-- What a run has done about a heap: whether it was created, and whether it was said to be. -/
structure Outcome where
  heap : PlatformHeap
  created : Bool
  reported : Bool

/-- The calls of a creation at the start of a trace, and the rest of it. -/
def creation : List (Event ProbeCall) → List (Event HeapCall) × List (Event ProbeCall)
  | ⟨.inr request, answer⟩ :: trace =>
      (⟨request, answer⟩ :: (creation trace).1, (creation trace).2)
  | trace => ([], trace)

/-- Whether an event says that a heap was created. -/
def reportsCreated (heap : PlatformHeap) : Event ProbeCall → Bool
  | ⟨.inl (.prCreated heap'), _⟩ => heap' == heap
  | _ => false

/-- What a run has done about each heap, read off its calls after the heaps were parsed. -/
def outcomes : List PlatformHeap → List (Event ProbeCall) → List Outcome
  | [], _ => []
  | heap :: heaps, trace =>
      let (own, rest) := creation trace
      ⟨heap, heapAdded own, rest.head?.any (reportsCreated heap)⟩ :: outcomes heaps rest.tail

theorem creation_append {request : DtCall Unit} :
    creation (own.map (Event.lift .inr) ++ ⟨.inl request, ()⟩ :: trace) =
      (own, ⟨.inl request, ()⟩ :: trace) := by
  induction own with
  | nil => rfl
  | cons e own ih =>
      have hown := congrArg Prod.fst ih
      have hrest := congrArg Prod.snd ih
      exact Prod.ext (congrArg (List.cons e) hown) hrest

/-- Whether `ret` is 0 after a heap. -/
def Outcome.carry (ok : Bool) (o : Outcome) : Bool := if o.heap.known then o.created else ok

/-- Whether `ret` is 0 after some heaps. -/
def carry (ok : Bool) (outs : List Outcome) : Bool := outs.foldl Outcome.carry ok

/-- A heap is reported as created if `ret` is 0 after it, and one of unknown type is not created. -/
def Follows : Bool → List Outcome → Prop
  | _, [] => True
  | ok, o :: outs =>
      (o.reported = o.carry ok ∧ (o.heap.known = false → o.created = false)) ∧
        Follows (o.carry ok) outs

theorem probeLoop_follows {final : Int} {after : List (Event ProbeCall)}
    (h : Runs (probeLoop ret heaps) trace (some final)) :
    Follows (ret == 0) (outcomes heaps (trace ++ after)) ∧
      (final == 0) = carry (ret == 0) (outcomes heaps (trace ++ after)) := by
  induction heaps generalizing ret trace with
  | nil =>
      cases h
      exact ⟨trivial, rfl⟩
  | cons heap heaps ih =>
      obtain ⟨ret', first, second, rfl, hfirst, hsecond⟩ := Runs.bind_some_inv h
      obtain ⟨own, rfl, hown⟩ := Runs.lift_inv hfirst
      have hcreate := createHeap_cases hown
      -- in both branches the heap is reported as created if `ret` is 0
      have hreport : ∃ request trace', second = ⟨.inl request, ()⟩ :: trace' ∧
          reportsCreated heap ⟨.inl request, ()⟩ = (ret' == 0) ∧
          Runs (probeLoop ret' heaps) trace' (some final) := by
        split at hsecond
        · rename_i hret
          obtain ⟨_, trace', rfl, hrest⟩ := Runs.call_inv hsecond
          exact ⟨_, trace', rfl, by simp [reportsCreated, hret], hrest⟩
        · rename_i hret
          obtain ⟨_, trace', rfl, hrest⟩ := Runs.call_inv hsecond
          exact ⟨_, trace', rfl, by simp [reportsCreated, not_not.mp hret], hrest⟩
      obtain ⟨request, trace', rfl, hreports, hrest⟩ := hreport
      have houts : outcomes (heap :: heaps)
          (own.map (Event.lift .inr) ++ ⟨.inl request, ()⟩ :: trace' ++ after) =
          ⟨heap, heapAdded own, ret' == 0⟩ :: outcomes heaps (trace' ++ after) := by
        rw [List.append_assoc, List.cons_append, outcomes, creation_append, ← hreports]
        rfl
      have hcarry : Outcome.carry (ret == 0) ⟨heap, heapAdded own, ret' == 0⟩ = (ret' == 0) := by
        show (if heap.known then heapAdded own else ret == 0) = (ret' == 0)
        split at hcreate
        · rename_i hknown
          rw [if_pos hknown, Bool.eq_iff_iff, beq_iff_eq]
          exact hcreate.symm
        · rename_i hknown
          rw [if_neg hknown, hcreate.2]
      have hunknown : heap.known = false → heapAdded own = false := by
        intro hknown
        rw [hknown] at hcreate
        rw [hcreate.1]
        rfl
      obtain ⟨hfollows, hfinal⟩ := ih hrest
      rw [houts, Follows, carry, List.foldl_cons, hcarry]
      exact ⟨⟨⟨rfl, hunknown⟩, hfollows⟩, hfinal⟩

/-! ## When the probe tells the truth -/

/-- The value returned is 0 if every heap was created, and only then, and those are reported as
created that were. -/
structure Truthful (outs : List Outcome) (ret : Int) : Prop where
  returned : ret = 0 ↔ ∀ o ∈ outs, o.created = true
  reported : ∀ o ∈ outs, o.reported = true ↔ o.created = true

/-- The last heap of known type could not be created. -/
def LastFailed (outs : List Outcome) : Prop :=
  ∃ o, (outs.filter fun o => o.heap.known).getLast? = some o ∧ o.created = false

/-- A heap of unknown type comes after one of known type that could not be created, with none of
known type between them; and the last heap of known type could not be created, unless all heaps
were. -/
structure Orderly (outs : List Outcome) : Prop where
  unknown : ∀ before o after, outs = before ++ o :: after → o.heap.known = false → LastFailed before
  failed : (∃ o ∈ outs, o.created = false) → LastFailed outs

variable {outs before after : List Outcome} {o : Outcome} {ok : Bool}

theorem carry_append : carry ok (before ++ [o]) = o.carry (carry ok before) := by
  rw [carry, List.foldl_append]
  rfl

/-- After some heaps `ret` is not 0 if the last of them of known type could not be created. -/
theorem carry_false_iff : carry true outs = false ↔ LastFailed outs := by
  induction outs using List.reverseRecOn with
  | nil => simp [carry, LastFailed]
  | append_singleton before o ih =>
      rw [carry_append, Outcome.carry]
      by_cases hknown : o.heap.known = true
      · simp [LastFailed, List.filter_append, hknown]
      · rw [if_neg hknown, ih]
        simp [LastFailed, List.filter_append, hknown]

theorem LastFailed.exists (h : LastFailed outs) : ∃ o ∈ outs, o.created = false := by
  obtain ⟨o, hlast, hfailed⟩ := h
  have hmem := List.mem_of_getLast? hlast
  exact ⟨o, (List.mem_filter.mp hmem).1, hfailed⟩

theorem Follows.split (h : Follows ok (before ++ o :: after)) :
    o.reported = o.carry (carry ok before) ∧ (o.heap.known = false → o.created = false) := by
  induction before generalizing ok with
  | nil => exact h.1
  | cons first before ih => exact ih h.2

/-- A list whose reports follow `ret` tells the truth exactly if it is orderly. -/
theorem Follows.truthful_iff (h : Follows true outs) (hret : (ret == 0) = carry true outs) :
    Truthful outs ret ↔ Orderly outs := by
  have hzero : ret = 0 ↔ carry true outs = true := by rw [← hret, beq_iff_eq]
  constructor
  · intro htruth
    refine ⟨fun before o after houts hknown => ?_, fun hfailed => ?_⟩
    · subst houts
      obtain ⟨hreported, hcreated⟩ := h.split
      have hsilent : o.reported = false := by
        rw [← Bool.not_eq_true, htruth.reported o (by simp), hcreated hknown]
        exact Bool.false_ne_true
      rw [← carry_false_iff, ← hsilent, hreported, Outcome.carry, hknown]
      rfl
    · rw [← carry_false_iff, ← Bool.not_eq_true, ← hzero, htruth.returned]
      obtain ⟨o, hmem, hcreated⟩ := hfailed
      intro hall
      rw [hall o hmem] at hcreated
      cases hcreated
  · intro horder
    refine ⟨?_, fun o hmem => ?_⟩
    · rw [hzero, ← Bool.not_eq_false, carry_false_iff]
      constructor
      · intro hlast o hmem
        by_contra hcreated
        exact hlast (horder.failed ⟨o, hmem, Bool.not_eq_true _ ▸ hcreated⟩)
      · intro hall hlast
        obtain ⟨o, hmem, hcreated⟩ := hlast.exists
        rw [hall o hmem] at hcreated
        cases hcreated
    · obtain ⟨before, after, houts⟩ := List.append_of_mem hmem
      subst houts
      obtain ⟨hreported, hcreated⟩ := h.split
      rw [hreported, Outcome.carry]
      cases hknown : o.heap.known with
      | true => rfl
      | false =>
          have hcarry := carry_false_iff.mpr (horder.unknown before o after rfl hknown)
          rw [if_neg Bool.false_ne_true, hcarry, hcreated hknown]

/-- Of the heaps that it has read, the probe tells the truth exactly if they are orderly. -/
theorem qcomDmaHeapProbe_truthful_iff {tree : DeviceTree} {parse : List (Event DtCall)}
    (hparse : Runs (parseHeapDt tree) parse (some (.ok heaps)))
    (hrun : Runs (qcomDmaHeapProbe tree) (parse.map (Event.lift .inl) ++ trace) (some ret)) :
    Truthful (outcomes heaps trace) ret ↔ Orderly (outcomes heaps trace) := by
  have hheaps := Runs.bind_append hparse.lift hrun
  obtain ⟨final, loop, freed, rfl, hloop, hfree⟩ := Runs.bind_some_inv hheaps
  obtain ⟨_, _, _, rfl, _, hreturn⟩ := Runs.bind_some_inv hfree
  cases hreturn
  obtain ⟨hfollows, hret⟩ := probeLoop_follows hloop
  exact hfollows.truthful_iff hret

/-- Answers with which the children are read as heaps of given types, without memory regions. -/
def readAnswers (type : Nat → U32) : Chooser DtCall Unit
  | _, .kzallocPdata, _ => some true
  | _, .kcallocHeaps _, _ => some true
  | _, .ofPlatformDeviceCreate _, _ => some true
  | _, .ofPropertyReadString _ _, _ => some (.ok "heap")
  | _, .ofPropertyReadU32 node propname, _ =>
      some (if propname = "qcom,dma-heap-type" then .ok (type node) else .error (-EINVAL))
  | _, .ofPropertyReadBool _ _, _ => some false
  | _, .ofParsePhandle _ _, _ => some none
  | _, .ofReservedMemLookup _, _ => some none
  | _, .ofReservedMemDeviceInitByIdx _, _ => some 0
  | _, .ofGetAddress _, _ => some none
  | _, .ofTranslateAddress _, _ => some 0
  | _, .kfreeHeaps, _ | _, .kfreePdata, _ | _, .nextAvailableChild _ _, _
  | _, .ofDmaConfigure _, _ | _, .ofNodePut _, _ | _, .ofReservedMemDeviceRelease _, _
  | _, .prFailed _ _, _ | _, .prCreated _, _ => some ()

/-- Answers with which a CMA heap can be created, and a carveout heap gets no pool. -/
def withoutPool : Chooser HeapCall Unit
  | _, .kzalloc, _ => some true
  | _, .kfree, _ => some ()
  | _, .genPoolCreate, _ => some false
  | _, .dmaHeapAdd, _ => some (0 : Int)
  | _, _, _ => none

def probeAnswers (type : Nat → U32) : Chooser ProbeCall Unit
  | _, .inl request, s => readAnswers type _ request s
  | _, .inr request, s => withoutPool _ request s

/-- A tree with two children. -/
def twoChildren : DeviceTree := ⟨[1, 2], by decide, fun _ => none⟩

/-- The heap that is read from a child. -/
def readHeap (type : Nat → U32) (node : Nat) : PlatformHeap :=
  ⟨type node, some "heap", 0, 0, some node, false, 0, 0⟩

theorem parseHeapDt_twoChildren (type : Nat → U32)
    (hcheck : (parseHeapDt twoChildren).check .free (readAnswers type) () (fun _ result _ =>
      result.toOption = some [readHeap type 1, readHeap type 2]) = true) :
    ∃ parse, Runs (parseHeapDt twoChildren) parse
      (some (.ok [readHeap type 1, readHeap type 2])) := by
  obtain ⟨parse, result, _, hparse, hresult⟩ := Program.check_exec hcheck
  cases result with
  | error err => cases of_decide_eq_true hresult
  | ok heaps =>
      cases of_decide_eq_true hresult
      exact ⟨parse, hparse⟩

def bothCma (_node : Nat) : U32 := HEAP_TYPE_CMA

/-- Two CMA heaps are created, and it is said that they are. -/
theorem qcomDmaHeapProbe_truthful_iff_cma :
    ∃ (parse : List (Event DtCall)) (trace : List (Event ProbeCall)),
      Runs (qcomDmaHeapProbe twoChildren) (parse.map (Event.lift .inl) ++ trace) (some 0) ∧
      Truthful (outcomes [readHeap bothCma 1, readHeap bothCma 2] trace) 0 := by
  obtain ⟨parse, hparse⟩ := parseHeapDt_twoChildren bothCma (by decide +kernel)
  have hcheck : (probeHeaps [readHeap bothCma 1, readHeap bothCma 2]).check .free
      (probeAnswers bothCma) () (fun trace ret _ => decide (ret = 0) &&
        (outcomes [readHeap bothCma 1, readHeap bothCma 2] trace).all fun o =>
          o.heap.known && o.created) = true := by
    decide +kernel
  obtain ⟨trace, ret, _, hheaps, htest⟩ := Program.check_exec hcheck
  simp only [Bool.and_eq_true, decide_eq_true_eq, List.all_eq_true] at htest
  obtain ⟨rfl, hall⟩ := htest
  have hrun : Runs (qcomDmaHeapProbe twoChildren) (parse.map (Event.lift .inl) ++ trace)
      (some 0) := Runs.bind hparse.lift hheaps
  refine ⟨parse, trace, hrun, (qcomDmaHeapProbe_truthful_iff hparse hrun).mpr ⟨?_, ?_⟩⟩
  · intro before o after houts hknown
    have hmem := (hall o (by simp [houts])).1
    rw [hknown] at hmem
    cases hmem
  · rintro ⟨o, hmem, hcreated⟩
    have hcreated' := (hall o hmem).2
    rw [hcreated] at hcreated'
    cases hcreated'

/-- The types of a carveout heap and a CMA heap after it. -/
def secondIsCma (node : Nat) : U32 := if node = 2 then HEAP_TYPE_CMA else HEAP_TYPE_CARVEOUT

/-- A carveout heap is not created, a CMA heap after it is, and the probe returns 0. -/
theorem not_qcomDmaHeapProbe_truthful : ¬ ∀ tree parse heaps trace ret,
    Runs (parseHeapDt tree) parse (some (.ok heaps)) →
    Runs (qcomDmaHeapProbe tree) (parse.map (Event.lift .inl) ++ trace) (some ret) →
    Truthful (outcomes heaps trace) ret := by
  intro hall
  obtain ⟨parse, hparse⟩ := parseHeapDt_twoChildren secondIsCma (by decide +kernel)
  have hcheck : (probeHeaps [readHeap secondIsCma 1, readHeap secondIsCma 2]).check .free
      (probeAnswers secondIsCma) () (fun trace ret _ => decide (ret = 0) &&
        (outcomes [readHeap secondIsCma 1, readHeap secondIsCma 2] trace).any fun o =>
          !o.created) = true := by
    decide +kernel
  obtain ⟨trace, ret, _, hheaps, htest⟩ := Program.check_exec hcheck
  simp only [Bool.and_eq_true, decide_eq_true_eq, List.any_eq_true] at htest
  obtain ⟨rfl, o, hmem, hfailed⟩ := htest
  have htruth := hall twoChildren parse _ trace 0 hparse (Runs.bind hparse.lift hheaps)
  rw [htruth.returned.mp rfl o hmem] at hfailed
  cases hfailed

end SafeLinux.DmaHeap
