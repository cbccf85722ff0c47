import SafeLinux.DmaHeap.Driver
import Mathlib.Algebra.BigOperators.Group.List.Basic
import Mathlib.Data.List.Nodup

/-!
# What is left after the heaps could not be read

`parse_heap_dt` fails at one of the children of its node, after others have been read. `LoopFails`
lists what the loop has then done: the reserved-memory regions, the references and the memory it
gives back, the platform devices it does not (`parseHeapDt_undone_iff`).
-/

namespace SafeLinux.DmaHeap

open Effects
open Effects.Program (perform)

variable {tree : DeviceTree} {s s' : DtState} {node memNode : Nat} {prev : Option Nat}
  {heap : PlatformHeap} {heaps rest : List PlatformHeap} {nodes : List Nat}
  {acts acts' : List DtAct} {trace : List (Event DtCall)}

/-! ## What the parts do -/

theorem readOptionalU32_shows {propname : String} {old : U32} :
    (readOptionalU32 node propname old).Shows (dtObserver tree) fun acts _ => acts = [] := by
  refine shows_idle (fun _ => rfl) fun value _ => ?_
  split
  · exact shows_pure rfl
  · split
    · exact shows_pure rfl
    · exact shows_pure rfl

/-- Reading the properties of a child has no effect, and keeps the device of the heap. -/
theorem populateHeap_shows : (populateHeap node heap).Shows (dtObserver tree) fun acts result =>
    acts = [] ∧ ∀ heap', result = some (.ok heap') → heap'.dev = heap.dev := by
  have hfails (err : Int) : (pure (.error err) : DtProg (Except Int PlatformHeap)).Shows
      (dtObserver tree) fun acts result =>
        acts = [] ∧ ∀ heap', result = some (.ok heap') → heap'.dev = heap.dev :=
    shows_pure ⟨rfl, nofun⟩
  refine shows_idle (fun _ => rfl) fun name _ => ?_
  split
  · exact hfails _
  refine shows_idle (fun _ => rfl) fun type _ => ?_
  split
  · exact hfails _
  refine shows_bind readOptionalU32_shows ?_ fun _ h => ⟨h, nofun⟩
  intro acts token hacts
  subst hacts
  split
  · exact hfails _
  refine shows_bind readOptionalU32_shows ?_ fun _ h => ⟨h, nofun⟩
  intro acts maxAlign hacts
  subst hacts
  split
  · exact hfails _
  · refine shows_pure ⟨rfl, ?_⟩
    intro heap' h
    cases h
    rfl

/-- What `heap_dt_init` does for a device. -/
inductive HeapInit (heap : PlatformHeap) :
    List DtAct → Option (Except Int PlatformHeap) → Prop where
  /-- A region with `ops` that is initialised, or one without. -/
  | done {heap' : PlatformHeap} (inits : Bool) (hdev : heap'.dev = heap.dev) :
      HeapInit heap (if inits then [.init heap.dev] else []) (some (.ok heap'))
  | fails {err : Int} : HeapInit heap [] (some (.error err))
  /-- The address cannot be translated. -/
  | badAddr {err : Int} (inits : Bool) :
      HeapInit heap ((if inits then [.init heap.dev] else []) ++ [.release heap.dev])
        (some (.error err))

/-- What setting the base and the size does: nothing, or it releases the region again. -/
inductive RegionSet (heap : PlatformHeap) : List DtAct → Option (PlatformHeap × Int) → Prop where
  | done {heap' : PlatformHeap} (hdev : heap'.dev = heap.dev) : RegionSet heap [] (some (heap', 0))
  | badAddr : RegionSet heap [.release heap.dev] (some (heap, -EINVAL))

theorem setRegion_shows : (setRegion memNode heap).Shows (dtObserver tree) (RegionSet heap) := by
  refine shows_idle (fun _ => rfl) fun size _ => ?_
  split
  · exact shows_pure (.done rfl)
  · refine shows_idle (fun _ => rfl) fun base _ => ?_
    split
    · exact shows_pure (.done rfl)
    · exact shows_act (fun _ => .release heap.dev) (fun _ => rfl) fun _ _ => shows_pure .badAddr

theorem heapDtAddress_shows (inits : Bool) :
    (heapDtAddress memNode heap).Shows (dtObserver tree) fun acts result =>
      HeapInit heap ((if inits then [.init heap.dev] else []) ++ acts) result := by
  refine shows_bind setRegion_shows ?_ fun _ h => nomatch h
  intro acts value h
  cases h with
  | done hdev =>
      refine shows_idle (fun _ => rfl) fun isNomap _ => shows_pure ?_
      rw [List.append_nil, List.append_nil]
      exact .done inits hdev
  | badAddr => exact shows_idle (fun _ => rfl) fun isNomap _ => shows_pure (.badAddr inits)

theorem heapDtInit_shows :
    (heapDtInit memNode heap).Shows (dtObserver tree) (HeapInit heap) := by
  refine shows_idle (fun _ => rfl) fun ops _ => ?_
  split
  · exact shows_pure .fails
  · split
    · refine shows_call fun ret _ => ?_
      split
      · rename_i hret
        rw [show (dtObserver tree).view (.ofReservedMemDeviceInitByIdx heap.dev) ret = none from
          if_neg hret]
        exact shows_pure .fails
      · rename_i hret
        rw [show (dtObserver tree).view (.ofReservedMemDeviceInitByIdx heap.dev) ret =
          some (.init heap.dev) from if_pos (not_not.mp hret)]
        exact heapDtAddress_shows true
    · exact heapDtAddress_shows false

/-- What is done to release the region of a heap. -/
def releaseActs (tree : DeviceTree) (heap : PlatformHeap) : List DtAct :=
  match heap.dev.bind tree.memoryRegion with
  | none => []
  | some memNode => [.get memNode, .release heap.dev, .put memNode]

theorem releaseReservedMemoryRegions_shows :
    (releaseReservedMemoryRegions heaps).Shows (dtObserver tree) fun acts result =>
      acts = heaps.flatMap (releaseActs tree) ∧ result = some () := by
  induction heaps with
  | nil => exact shows_pure ⟨rfl, rfl⟩
  | cons heap rest ih =>
      refine shows_call fun memNode hfits => ?_
      have hmem : memNode = heap.dev.bind tree.memoryRegion := eq_of_beq hfits
      rw [List.flatMap_cons, releaseActs, ← hmem]
      cases memNode with
      | none =>
          refine shows_call fun _ _ => ih.mono ?_
          rintro acts _ ⟨rfl, hresult⟩
          exact ⟨rfl, hresult⟩
      | some memNode =>
          refine shows_call fun _ _ => shows_call fun _ _ => ih.mono ?_
          rintro acts _ ⟨rfl, hresult⟩
          exact ⟨rfl, hresult⟩

/-- What is done at the label `free_heaps`. -/
def freeActs (tree : DeviceTree) (node : Nat) (heaps : List PlatformHeap) : List DtAct :=
  .put node :: (heaps.flatMap (releaseActs tree) ++ [.freeHeaps, .freePdata])

theorem freePdata_shows : freePdata.Shows (dtObserver tree) fun acts result =>
    acts = [.freeHeaps, .freePdata] ∧ result = some () :=
  shows_call fun _ _ => shows_perform fun _ _ => ⟨rfl, rfl⟩

theorem freeHeaps_shows {ret : Int} :
    (freeHeaps node heaps ret).Shows (dtObserver tree) fun acts _ =>
      acts = freeActs tree node heaps := by
  refine shows_act (fun _ => .put node) (fun _ => rfl) fun _ _ => ?_
  refine shows_bind releaseReservedMemoryRegions_shows ?_ fun _ h => nomatch h.2
  rintro acts _ ⟨rfl, _⟩
  refine shows_bind freePdata_shows ?_ fun _ h => nomatch h.2
  rintro acts _ ⟨rfl, _⟩
  exact shows_pure (by simp [freeActs])

/-! ## The loop -/

/-- What a child has done that is read completely. -/
inductive ChildActs (tree : DeviceTree) (prev : Option Nat) (node : Nat) : List DtAct → Prop where
  | plain (hmem : tree.memoryRegion node = none) :
      ChildActs tree prev node [.child prev (some node), .created node]
  | region {memNode : Nat} (inits : Bool) (hmem : tree.memoryRegion node = some memNode) :
      ChildActs tree prev node ([.child prev (some node), .created node, .get memNode] ++
        (if inits then [.init (some node)] else []) ++ [.put memNode])

/-- What the loop has done when it fails. -/
inductive LoopFails (tree : DeviceTree) :
    Option Nat → List PlatformHeap → List Nat → List DtAct → Prop where
  /-- No platform device can be created for the child. -/
  | device {prev : Option Nat} {heaps : List PlatformHeap} {node : Nat} {nodes : List Nat} :
      LoopFails tree prev heaps (node :: nodes)
        (.child prev (some node) :: freeActs tree node heaps)
  /-- The properties of the child cannot be read. -/
  | properties {prev : Option Nat} {heaps : List PlatformHeap} {node : Nat} {nodes : List Nat} :
      LoopFails tree prev heaps (node :: nodes)
        ([.child prev (some node), .created node] ++ freeActs tree node heaps)
  /-- The region of the child cannot be initialised, or its address not be translated. -/
  | region {prev : Option Nat} {heaps : List PlatformHeap} {node memNode : Nat} {nodes : List Nat}
      {heap : PlatformHeap} {acts : List DtAct} {err : Int} (hdev : heap.dev = some node)
      (hmem : tree.memoryRegion node = some memNode) (hinit : HeapInit heap acts (some (.error err))) :
      LoopFails tree prev heaps (node :: nodes)
        ([.child prev (some node), .created node, .get memNode] ++ acts ++
          freeActs tree node heaps)
  /-- A later child fails. -/
  | later {prev : Option Nat} {heaps : List PlatformHeap} {node : Nat} {nodes : List Nat}
      {heap : PlatformHeap} {acts acts' : List DtAct} (hdev : heap.dev = some node)
      (hacts : ChildActs tree prev node acts)
      (hrest : LoopFails tree (some node) (heap :: heaps) nodes acts') :
      LoopFails tree prev heaps (node :: nodes) (acts ++ acts')

theorem parseLoop_shows : (parseLoop prev heaps nodes).Shows (dtObserver tree) fun acts result =>
    ∀ err, result = some (.error err) → LoopFails tree prev heaps nodes acts := by
  induction nodes generalizing prev heaps with
  | nil => exact shows_call fun _ _ => shows_pure nofun
  | cons node nodes ih =>
      refine shows_act (fun _ => .child prev (some node)) (fun _ => rfl) fun _ _ => ?_
      refine shows_call fun created _ => ?_
      cases created with
      | false =>
          refine freeHeaps_shows.mono ?_
          rintro acts _ rfl err _
          exact .device
      | true =>
      refine shows_idle (fun _ => rfl) fun _ _ => ?_
      refine shows_bind populateHeap_shows ?_ ?_
      · rintro acts populated ⟨rfl, hpopulated⟩
        cases populated with
        | error ret =>
            refine freeHeaps_shows.mono ?_
            rintro acts _ rfl err _
            exact .properties
        | ok heap =>
        have hdev : heap.dev = some node := hpopulated heap rfl
        refine shows_call fun memNode hfits => ?_
        have hmem : memNode = tree.memoryRegion node := eq_of_beq hfits
        cases memNode with
        | none =>
            refine ih.mono ?_
            intro acts result h err herr
            exact .later hdev (.plain hmem.symm) (h err herr)
        | some memNode =>
            refine shows_bind heapDtInit_shows ?_ ?_
            · intro acts initialised hinit
              cases initialised with
              | error ret =>
                  refine freeHeaps_shows.mono ?_
                  rintro acts' _ rfl err _
                  have hfails : LoopFails tree prev heaps (node :: nodes)
                      ([.child prev (some node), .created node, .get memNode] ++ acts ++
                        freeActs tree node heaps) := .region hdev hmem.symm hinit
                  rw [List.append_assoc] at hfails
                  exact hfails
              | ok heap' =>
                  cases hinit with
                  | done inits hdev' =>
                  refine shows_act (fun _ => .put memNode) (fun _ => rfl) fun _ _ => ih.mono ?_
                  intro acts' result h err herr
                  have hlater : LoopFails tree prev heaps (node :: nodes) (_ ++ acts') :=
                    .later (hdev'.trans hdev) (.region inits hmem.symm) (h err herr)
                  rw [List.append_assoc, List.append_assoc] at hlater
                  rw [hdev]
                  exact hlater
            · intro acts _ err herr
              cases herr
      · rintro acts _ err herr
        cases herr

/-! ## The regions -/

/-- The heaps are those of the children `done`. -/
def HeapsOf (heaps : List PlatformHeap) (done : List Nat) : Prop :=
  heaps.map PlatformHeap.dev = done.map some

variable {done : List Nat} {dev : Option Nat}

theorem count_releaseActs : (releaseActs tree heap).count (.release dev) =
    if heap.dev = dev ∧ (dev.bind tree.memoryRegion).isSome then 1 else 0 := by
  unfold releaseActs
  by_cases hdev : heap.dev = dev
  · subst hdev
    cases heap.dev.bind tree.memoryRegion <;> simp
  · cases heap.dev.bind tree.memoryRegion <;> simp [hdev]

/-- The region of each heap is released once, if it has one. -/
theorem count_release (hof : HeapsOf heaps done) (hnodup : done.Nodup) :
    (heaps.flatMap (releaseActs tree)).count (.release (some node)) =
      if node ∈ done ∧ (tree.memoryRegion node).isSome then 1 else 0 := by
  induction heaps generalizing done with
  | nil =>
      have hdone : done = [] := List.map_eq_nil_iff.mp (Eq.symm hof)
      simp [hdone]
  | cons heap heaps ih =>
      cases done with
      | nil => simp [HeapsOf] at hof
      | cons first done =>
          obtain ⟨hdev, hof⟩ := List.cons_eq_cons.mp hof
          obtain ⟨hfirst, hnodup⟩ := List.nodup_cons.mp hnodup
          rw [List.flatMap_cons, List.count_append, ih hof hnodup, count_releaseActs, hdev]
          by_cases hnode : first = node
          · subst hnode
            simp [hfirst]
          · have hne : node ≠ first := fun h => hnode h.symm
            simp [hnode, hne]

theorem init_freeActs : .init dev ∉ freeActs tree node heaps := by
  have hrelease : .init dev ∉ heaps.flatMap (releaseActs tree) := by
    intro h
    obtain ⟨heap, _, h⟩ := List.mem_flatMap.mp h
    unfold releaseActs at h
    split at h <;> simp at h
  simp [freeActs, hrelease]

theorem count_freeActs :
    (freeActs tree node heaps).count (.release dev) =
      (heaps.flatMap (releaseActs tree)).count (.release dev) := by
  simp [freeActs]

/-- What the loop does about the regions when it fails: those of the heaps so far are released once,
and so is each that it has initialised. -/
structure RegionsReleased (tree : DeviceTree) (done nodes : List Nat) (acts : List DtAct) :
    Prop where
  old : ∀ node ∈ done, acts.count (.release (some node)) =
    if (tree.memoryRegion node).isSome then 1 else 0
  new : ∀ dev, .init dev ∈ acts → (∃ node ∈ nodes, dev = some node) ∧ acts.count (.release dev) = 1

/-- What the label `free_heaps` does about the regions. -/
theorem regions_freeActs (tree : DeviceTree) (node : Nat) (hof : HeapsOf heaps done)
    (hnodup : done.Nodup) :
    ∀ n ∈ done, (freeActs tree node heaps).count (.release (some n)) =
      if (tree.memoryRegion n).isSome then 1 else 0 := by
  intro n hn
  rw [count_freeActs, count_release hof hnodup]
  simp [hn]

theorem LoopFails.regions (h : LoopFails tree prev heaps nodes acts) (hof : HeapsOf heaps done)
    (hnodup : (done ++ nodes).Nodup) : RegionsReleased tree done nodes acts := by
  induction h generalizing done with
  | @device prev heaps node nodes =>
      have hfree := regions_freeActs tree node hof (List.nodup_append.mp hnodup).1
      refine ⟨fun n hn => ?_, fun dev hinit => ?_⟩
      · rw [← List.singleton_append, List.count_append, hfree n hn]
        simp
      · rcases List.mem_cons.mp hinit with hinit | hinit
        · cases hinit
        · exact absurd hinit init_freeActs
  | @properties prev heaps node nodes =>
      have hfree := regions_freeActs tree node hof (List.nodup_append.mp hnodup).1
      refine ⟨fun n hn => ?_, fun dev hinit => ?_⟩
      · rw [List.count_append, hfree n hn]
        simp
      · rcases List.mem_append.mp hinit with hinit | hinit
        · simp at hinit
        · exact absurd hinit init_freeActs
  | @region prev heaps node memNode nodes heap acts err hdev hmem hinit =>
      have hdone := (List.nodup_append.mp hnodup).1
      have hnode : node ∉ done := fun hin =>
        (List.nodup_append.mp hnodup).2.2 node hin node List.mem_cons_self rfl
      have hothers : ∀ n ∈ done, acts.count (.release (some n)) = 0 := by
        intro n hn
        have hne : node ≠ n := fun h => hnode (h ▸ hn)
        cases hinit with
        | fails => rfl
        | badAddr inits => cases inits <;> simp [hdev, hne]
      refine ⟨fun n hn => ?_, fun dev hinits => ?_⟩
      · rw [List.count_append, List.count_append, hothers n hn,
          regions_freeActs tree node hof hdone n hn]
        simp
      · have hacts : .init dev ∈ acts := by
          rcases List.mem_append.mp hinits with hinits | hinits
          · simpa using hinits
          · exact absurd hinits init_freeActs
        cases hinit with
        | fails => simp at hacts
        | badAddr inits =>
            -- the region is initialised and released again, and is none of those so far
            have hown : dev = some node ∧ inits = true := by cases inits <;> simp_all
            obtain ⟨rfl, rfl⟩ := hown
            refine ⟨⟨node, List.mem_cons_self, rfl⟩, ?_⟩
            rw [List.count_append, List.count_append, count_freeActs, count_release hof hdone]
            simp [hdev, hnode]
  | @later prev heaps node nodes heap acts acts' hdev hacts hrest ih =>
      have hof' : HeapsOf (heap :: heaps) (node :: done) := by
        rw [HeapsOf, List.map_cons, List.map_cons, hdev, hof]
      have hrest := ih hof' (List.nodup_middle.mp hnodup)
      have hnorelease (dev : Option Nat) : acts.count (.release dev) = 0 := by
        cases hacts with
        | plain => simp
        | region inits _ => cases inits <;> simp
      refine ⟨fun n hn => ?_, fun dev hinit => ?_⟩
      · rw [List.count_append, hnorelease, Nat.zero_add]
        exact hrest.old n (List.mem_cons_of_mem _ hn)
      · rw [List.count_append, hnorelease, Nat.zero_add]
        rcases List.mem_append.mp hinit with hinit | hinit
        · -- the region of this child, which is released with those of the heaps so far
          cases hacts with
          | plain => simp at hinit
          | region inits hmem =>
              have hdev : dev = some node := by cases inits <;> simp_all
              subst hdev
              refine ⟨⟨node, List.mem_cons_self, rfl⟩, ?_⟩
              rw [hrest.old node List.mem_cons_self, hmem]
              rfl
        · obtain ⟨⟨n, hn, hdev⟩, hcount⟩ := hrest.new dev hinit
          exact ⟨⟨n, List.mem_cons_of_mem _ hn, hdev⟩, hcount⟩

/-! ## The whole function -/

/-- The steps of a loop over children. -/
def childActs : Option Nat → List Nat → List DtAct
  | prev, [] => [.child prev none]
  | prev, node :: nodes => .child prev (some node) :: childActs (some node) nodes

theorem countChildren_shows {nr : Nat} : (countChildren prev nr nodes).Shows (dtObserver tree)
    fun acts result => acts = childActs prev nodes ∧ result = some (nr + nodes.length) := by
  induction nodes generalizing prev nr with
  | nil => exact shows_call fun _ _ => shows_pure ⟨rfl, rfl⟩
  | cons node nodes ih =>
      refine shows_call fun _ _ => ih.mono ?_
      rintro acts _ ⟨rfl, rfl⟩
      refine ⟨rfl, ?_⟩
      rw [List.length_cons]
      congr 1
      omega

/-- What `parse_heap_dt` has done when it fails. -/
inductive ParseFails (tree : DeviceTree) : List DtAct → Prop where
  | noPdata : ParseFails tree []
  | noHeaps : ParseFails tree (.allocPdata :: (childActs none tree.children ++ [.freePdata]))
  | child {acts : List DtAct} (hloop : LoopFails tree none [] tree.children acts) :
      ParseFails tree (.allocPdata :: (childActs none tree.children ++ .allocHeaps :: acts))

theorem parseHeapDt_shows : (parseHeapDt tree).Shows (dtObserver tree) fun acts result =>
    ∀ err, result = some (.error err) → ParseFails tree acts := by
  refine shows_call fun allocated _ => ?_
  cases allocated with
  | false => exact shows_pure fun _ _ => .noPdata
  | true =>
  refine shows_bind countChildren_shows ?_ fun _ h => nomatch h.2
  rintro acts nr ⟨rfl, _⟩
  split
  · exact shows_pure nofun
  refine shows_call fun allocated _ => ?_
  cases allocated with
  | false => exact shows_act (fun _ => .freePdata) (fun _ => rfl) fun _ _ =>
      shows_pure fun _ _ => .noHeaps
  | true =>
      refine parseLoop_shows.mono ?_
      intro acts result hfails err herr
      exact .child (hfails err herr)

/-! ## References and memory -/

/-- 1 for the node. -/
def one (node : Option Nat) (n : Nat) : Int := if node = some n then 1 else 0

namespace DtAct

/-- The references to a node that an act takes, or gives back if negative. -/
def refsDelta (n : Nat) : DtAct → Int
  | .child prev following => one following n - one prev n
  | .get node => one (some node) n
  | .put node => -one (some node) n
  | _ => 0

/-- The platform data that an act allocates, or frees. -/
def pdataDelta : DtAct → Int
  | .allocPdata => 1
  | .freePdata => -1
  | _ => 0

/-- The array that an act allocates, or frees. -/
def heapsDelta : DtAct → Int
  | .allocHeaps => 1
  | .freeHeaps => -1
  | _ => 0

end DtAct

/-- What some acts add up to. -/
def net (delta : DtAct → Int) (acts : List DtAct) : Int := (acts.map delta).sum

variable {delta : DtAct → Int}

@[simp] theorem net_nil : net delta [] = 0 := rfl

@[simp] theorem net_cons {act : DtAct} : net delta (act :: acts) = delta act + net delta acts := by
  rw [net, List.map_cons, List.sum_cons, net]

@[simp] theorem net_append : net delta (acts ++ acts') = net delta acts + net delta acts' := by
  rw [net, List.map_append, List.sum_append, net, net]

/-- Releasing regions takes and gives back the same. -/
theorem net_release (h : ∀ memNode dev,
      net delta [.get memNode, .release dev, .put memNode] = 0) :
    net delta (heaps.flatMap (releaseActs tree)) = 0 := by
  induction heaps with
  | nil => rfl
  | cons heap heaps ih =>
      rw [List.flatMap_cons, net_append, ih, add_zero, releaseActs]
      split
      · rfl
      · exact h _ _

theorem net_refs_release {n : Nat} :
    net (DtAct.refsDelta n) (heaps.flatMap (releaseActs tree)) = 0 :=
  net_release fun memNode dev => by simp [DtAct.refsDelta]

theorem net_pdata_release : net DtAct.pdataDelta (heaps.flatMap (releaseActs tree)) = 0 :=
  net_release fun _ _ => rfl

theorem net_heaps_release : net DtAct.heapsDelta (heaps.flatMap (releaseActs tree)) = 0 :=
  net_release fun _ _ => rfl

/-- The state after some acts. -/
def DtState.after (s : DtState) (acts : List DtAct) : DtState := acts.foldl DtState.apply s

/-- What every act adds to a number, they add up to. -/
theorem DtState.after_net {f : DtState → Int} (hstep : ∀ s act, f (s.apply act) = f s + delta act) :
    f (s.after acts) = f s + net delta acts := by
  induction acts generalizing s with
  | nil => exact (add_zero _).symm
  | cons act acts ih =>
      show f ((s.apply act).after acts) = _
      rw [ih, hstep, net_cons, add_assoc]

theorem DtState.after_refs (n : Nat) :
    (s.after acts).refs n = s.refs n + net (DtAct.refsDelta n) acts := by
  refine DtState.after_net (f := fun s => s.refs n) fun s act => ?_
  cases act <;> simp [DtState.apply, DtState.addRefs, DtAct.refsDelta, one] <;> split_ifs <;> omega

theorem DtState.after_pdata : (s.after acts).pdata = s.pdata + net DtAct.pdataDelta acts := by
  refine DtState.after_net fun s act => ?_
  cases act <;> simp [DtState.apply, DtState.addRefs, DtAct.pdataDelta, Int.sub_eq_add_neg]

theorem DtState.after_heaps : (s.after acts).heaps = s.heaps + net DtAct.heapsDelta acts := by
  refine DtState.after_net fun s act => ?_
  cases act <;> simp [DtState.apply, DtState.addRefs, DtAct.heapsDelta, Int.sub_eq_add_neg]

/-- A platform device that is created stays. -/
theorem DtState.after_devices (h : .created node ∈ acts ∨ node ∈ s.devices) :
    node ∈ (s.after acts).devices := by
  induction acts generalizing s with
  | nil => exact h.resolve_left List.not_mem_nil
  | cons act acts ih =>
      refine ih (h.elim (fun hmem => ?_) fun hmem => .inr ?_)
      · rcases List.mem_cons.mp hmem with rfl | hmem
        · exact .inr List.mem_cons_self
        · exact .inl hmem
      · cases act <;> simp [DtState.apply, DtState.addRefs, hmem]

theorem dtKernel_after (h : Steps (dtKernel tree) s trace s') :
    s' = s.after ((dtObserver tree).actions trace) := by
  induction h with
  | nil s => rfl
  | @cons β request answer s s₁ s' trace hstep _ ih =>
      simp only [dtKernel] at hstep
      split at hstep
      · cases hstep
        rw [ih, Observer.actions_cons]
        show _ = s.after ((DtAct.view request answer).toList ++ _)
        cases DtAct.view request answer <;> rfl
      · cases hstep

theorem dtObserver_admits : (dtObserver tree).Admits (dtKernel tree) := by
  intro β request answer s s' hstep
  simp only [dtKernel] at hstep
  split at hstep
  · assumption
  · cases hstep

theorem net_childActs {n : Nat} :
    net (DtAct.refsDelta n) (childActs prev nodes) = -one prev n := by
  induction nodes generalizing prev with
  | nil => simp [childActs, DtAct.refsDelta, one]
  | cons node nodes ih =>
      rw [childActs, net_cons, ih, DtAct.refsDelta]
      omega

theorem net_refs_freeActs {n : Nat} :
    net (DtAct.refsDelta n) (freeActs tree node heaps) = -one (some node) n := by
  simp [freeActs, net_refs_release, DtAct.refsDelta]

theorem net_pdata_freeActs : net DtAct.pdataDelta (freeActs tree node heaps) = -1 := by
  simp [freeActs, net_pdata_release, DtAct.pdataDelta]

theorem net_heaps_freeActs : net DtAct.heapsDelta (freeActs tree node heaps) = -1 := by
  simp [freeActs, net_heaps_release, DtAct.heapsDelta]

/-- Initialising a region takes no references and no memory. -/
theorem HeapInit.net_eq {result : Option (Except Int PlatformHeap)}
    (h : HeapInit heap acts result) (hinit : ∀ dev, delta (.init dev) = 0)
    (hrelease : ∀ dev, delta (.release dev) = 0) : net delta acts = 0 := by
  cases h with
  | done inits => cases inits <;> simp [hinit]
  | fails => rfl
  | badAddr inits => cases inits <;> simp [hinit, hrelease]

/-- What the loop leaves when it fails: at most one reference, and none if there was no child. -/
theorem LoopFails.refs (h : LoopFails tree prev heaps nodes acts) : ∃ leaked : Option Nat,
    (∀ n, net (DtAct.refsDelta n) acts = one leaked n - one prev n) ∧
    (leaked ≠ none → ∃ node, .created node ∈ acts) := by
  induction h with
  | device =>
      refine ⟨none, fun n => ?_, fun h => absurd rfl h⟩
      rw [net_cons, net_refs_freeActs, DtAct.refsDelta]
      simp [one]
      omega
  | properties =>
      refine ⟨none, fun n => ?_, fun h => absurd rfl h⟩
      rw [net_append, net_refs_freeActs]
      simp [one, DtAct.refsDelta]
      omega
  | @region prev heaps node memNode nodes heap acts err hdev hmem hinit =>
      refine ⟨some memNode, fun n => ?_, fun _ => ⟨node, by simp⟩⟩
      have hnet : net (DtAct.refsDelta n) acts = 0 :=
        hinit.net_eq (fun _ => rfl) (fun _ => rfl)
      rw [net_append, net_append, hnet, net_refs_freeActs]
      simp [DtAct.refsDelta]
      omega
  | @later prev heaps node nodes heap acts acts' hdev hacts hrest ih =>
      obtain ⟨leaked, hnet, hcreated⟩ := ih
      refine ⟨leaked, fun n => ?_, fun h => ?_⟩
      · have hchild : net (DtAct.refsDelta n) acts = one (some node) n - one prev n := by
          cases hacts with
          | plain => simp [DtAct.refsDelta]
          | region inits _ => cases inits <;> simp [DtAct.refsDelta]
        rw [net_append, hchild, hnet]
        omega
      · obtain ⟨node', hmem⟩ := hcreated h
        exact ⟨node', List.mem_append_right _ hmem⟩

/-- The loop frees what was allocated. -/
theorem LoopFails.memory (h : LoopFails tree prev heaps nodes acts) :
    net DtAct.pdataDelta acts = -1 ∧ net DtAct.heapsDelta acts = -1 := by
  induction h with
  | device => exact ⟨by simp [net_pdata_freeActs, DtAct.pdataDelta],
      by simp [net_heaps_freeActs, DtAct.heapsDelta]⟩
  | properties => exact ⟨by simp [net_pdata_freeActs, DtAct.pdataDelta],
      by simp [net_heaps_freeActs, DtAct.heapsDelta]⟩
  | region _ _ hinit =>
      constructor
      · rw [net_append, net_append, hinit.net_eq (fun _ => rfl) (fun _ => rfl), net_pdata_freeActs]
        rfl
      · rw [net_append, net_append, hinit.net_eq (fun _ => rfl) (fun _ => rfl), net_heaps_freeActs]
        rfl
  | later _ hacts _ ih =>
      constructor
      · rw [net_append, ih.1]
        cases hacts with
        | plain => rfl
        | region inits _ => cases inits <;> rfl
      · rw [net_append, ih.2]
        cases hacts with
        | plain => rfl
        | region inits _ => cases inits <;> rfl

theorem mem_childActs {act : DtAct} (h : act ∈ childActs prev nodes) :
    ∃ first following, act = .child first following := by
  induction nodes generalizing prev with
  | nil => exact ⟨prev, none, List.mem_singleton.mp h⟩
  | cons node nodes ih =>
      rcases List.mem_cons.mp h with rfl | h
      · exact ⟨prev, some node, rfl⟩
      · exact ih h

theorem not_mem_childActs {act : DtAct} (h : ∀ first following, act ≠ .child first following) :
    act ∉ childActs prev nodes := by
  intro hmem
  obtain ⟨first, following, hact⟩ := mem_childActs hmem
  exact h first following hact

theorem net_childActs_memory :
    net DtAct.pdataDelta (childActs prev nodes) = 0 ∧
    net DtAct.heapsDelta (childActs prev nodes) = 0 := by
  induction nodes generalizing prev with
  | nil => exact ⟨rfl, rfl⟩
  | cons node nodes ih =>
      obtain ⟨hpdata, hheaps⟩ := @ih (some node)
      exact ⟨by rw [childActs, net_cons, hpdata]; rfl, by rw [childActs, net_cons, hheaps]; rfl⟩

/-! ## What is undone -/

/-- Every region that was initialised has been released once. -/
theorem ParseFails.regions (h : ParseFails tree acts) {dev : Option Nat} (hinit : .init dev ∈ acts) :
    acts.count (.release dev) = 1 := by
  have hchild : .init dev ∉ childActs none tree.children := not_mem_childActs nofun
  cases h with
  | noPdata => cases hinit
  | noHeaps => simp [hchild] at hinit
  | child hloop =>
      have hregions : RegionsReleased tree [] tree.children _ := hloop.regions rfl tree.nodup
      have hcount : (childActs none tree.children).count (.release dev) = 0 :=
        List.count_eq_zero.mpr (not_mem_childActs nofun)
      have hloopInit := hregions.new dev (by simpa [hchild] using hinit)
      simpa [hcount] using hloopInit.2

/-- At most one reference is left, and none if no platform device was created. -/
theorem ParseFails.refs (h : ParseFails tree acts) : ∃ leaked : Option Nat,
    (∀ n, net (DtAct.refsDelta n) acts = one leaked n) ∧
    (leaked ≠ none → ∃ node, .created node ∈ acts) := by
  cases h with
  | noPdata => exact ⟨none, fun n => rfl, fun h => absurd rfl h⟩
  | noHeaps =>
      refine ⟨none, fun n => ?_, fun h => absurd rfl h⟩
      simp [net_childActs, DtAct.refsDelta, one]
  | child hloop =>
      obtain ⟨leaked, hnet, hcreated⟩ := hloop.refs
      refine ⟨leaked, fun n => ?_, fun h => ?_⟩
      · simp [net_childActs, hnet, DtAct.refsDelta, one]
      · obtain ⟨node, hmem⟩ := hcreated h
        exact ⟨node, by simp [hmem]⟩

/-- All memory is freed. -/
theorem ParseFails.memory (h : ParseFails tree acts) :
    net DtAct.pdataDelta acts = 0 ∧ net DtAct.heapsDelta acts = 0 := by
  obtain ⟨hpdata, hheaps⟩ := @net_childActs_memory none tree.children
  cases h with
  | noPdata => exact ⟨rfl, rfl⟩
  | noHeaps => exact ⟨by simp [hpdata, DtAct.pdataDelta], by simp [hheaps, DtAct.heapsDelta]⟩
  | child hloop =>
      exact ⟨by simp [hpdata, hloop.memory.1, DtAct.pdataDelta],
        by simp [hheaps, hloop.memory.2, DtAct.heapsDelta]⟩

/-- What a failed parse has undone: every region that was initialised is released once, every
reference is dropped, every platform device is removed and all memory is freed. -/
structure ParseUndone (s : DtState) (acts : List DtAct) (s' : DtState) : Prop where
  regions : ∀ dev, .init dev ∈ acts → acts.count (.release dev) = 1
  refs : s'.refs = s.refs
  devices : ∀ node, .created node ∈ acts → node ∉ s'.devices
  pdata : s'.pdata = s.pdata
  heaps : s'.heaps = s.heaps

/-- A failed parse has undone all exactly if it has created no platform device. -/
theorem parseHeapDt_undone_iff {err : Int}
    (hexec : Exec (dtKernel tree) (parseHeapDt tree) s trace (some (.error err)) s') :
    ParseUndone s ((dtObserver tree).actions trace) s' ↔
      ∀ node, .created node ∉ (dtObserver tree).actions trace := by
  have hfails := parseHeapDt_shows.exec dtObserver_admits hexec err rfl
  have hafter := dtKernel_after hexec.steps
  generalize (dtObserver tree).actions trace = acts at hfails hafter
  subst hafter
  constructor
  · intro hundone node hcreated
    exact hundone.devices node hcreated (DtState.after_devices (.inl hcreated))
  · intro hnone
    obtain ⟨leaked, hnet, hleaked⟩ := hfails.refs
    have hdropped : leaked = none := by
      by_contra h
      obtain ⟨node, hcreated⟩ := hleaked h
      exact hnone node hcreated
    obtain ⟨hpdata, hheaps⟩ := hfails.memory
    refine ⟨fun dev => hfails.regions, ?_, fun node h => absurd h (hnone node), ?_, ?_⟩
    · funext n
      rw [DtState.after_refs, hnet, hdropped]
      exact add_zero _
    · rw [DtState.after_pdata, hpdata, add_zero]
    · rw [DtState.after_heaps, hheaps, add_zero]

/-- Answers to the calls, of a tree: which children get a platform device is given, no property can
be read and no memory region is found. -/
def dtAnswers (tree : DeviceTree) (creates : Nat → Bool) : Chooser DtCall DtState
  | _, .kzallocPdata, _ => some true
  | _, .kcallocHeaps _, _ => some true
  | _, .ofPlatformDeviceCreate node, _ => some (creates node)
  | _, .ofPropertyReadString _ _, _ => some (.error (-EINVAL))
  | _, .ofPropertyReadU32 _ _, _ => some (.error (-EINVAL))
  | _, .ofPropertyReadBool _ _, _ => some false
  | _, .ofParsePhandle node _, _ => some (node.bind tree.memoryRegion)
  | _, .ofReservedMemLookup _, _ => some none
  | _, .ofReservedMemDeviceInitByIdx _, _ => some 0
  | _, .ofGetAddress _, _ => some none
  | _, .ofTranslateAddress _, _ => some 0
  | _, .kfreeHeaps, _ | _, .kfreePdata, _ | _, .nextAvailableChild _ _, _
  | _, .ofDmaConfigure _, _ | _, .ofNodePut _, _ | _, .ofReservedMemDeviceRelease _, _
  | _, .prFailed _ _, _ | _, .prCreated _, _ => some ()

/-- A tree with one child, without a memory region. -/
def oneChild : DeviceTree := ⟨[1], by decide, fun _ => none⟩

/-- The state before the probe. -/
def DtState.start : DtState := ⟨[], fun _ => 0, 0, 0⟩

/-- All is undone if already the only platform device cannot be created. -/
theorem parseHeapDt_undone_iff_no_device : ∃ trace err s',
    Exec (dtKernel oneChild) (parseHeapDt oneChild) .start trace (some (.error err)) s' ∧
    ParseUndone .start ((dtObserver oneChild).actions trace) s' := by
  have hcheck : (parseHeapDt oneChild).check (dtKernel oneChild)
      (dtAnswers oneChild fun _ => false) .start (fun trace result _ =>
        result.toOption.isNone && decide ((dtObserver oneChild).actions trace =
          [.allocPdata, .child none (some 1), .child (some 1) none, .allocHeaps,
            .child none (some 1), .put 1, .freeHeaps, .freePdata])) = true := by
    decide +kernel
  obtain ⟨trace, result, s', hexec, htest⟩ := Program.check_exec hcheck
  simp only [Bool.and_eq_true, decide_eq_true_eq] at htest
  obtain ⟨hfails, hacts⟩ := htest
  cases result with
  | ok heaps => cases hfails
  | error err =>
      refine ⟨trace, err, s', hexec, (parseHeapDt_undone_iff hexec).mpr ?_⟩
      simp [hacts]

/-- The platform device of a child stays when its properties cannot be read. -/
theorem not_parseHeapDt_undone : ¬ ∀ tree s trace err s',
    Exec (dtKernel tree) (parseHeapDt tree) s trace (some (.error err)) s' →
    ParseUndone s ((dtObserver tree).actions trace) s' := by
  intro hall
  have hcheck : (parseHeapDt oneChild).check (dtKernel oneChild)
      (dtAnswers oneChild fun _ => true) .start (fun trace result s' =>
        result.toOption.isNone &&
        decide (.created 1 ∈ (dtObserver oneChild).actions trace ∧ 1 ∈ s'.devices)) = true := by
    decide +kernel
  obtain ⟨trace, result, s', hexec, htest⟩ := Program.check_exec hcheck
  simp only [Bool.and_eq_true, decide_eq_true_eq] at htest
  obtain ⟨hfails, hcreated, hdevice⟩ := htest
  cases result with
  | ok heaps => cases hfails
  | error err => exact (hall oneChild .start trace err s' hexec).devices 1 hcreated hdevice

end SafeLinux.DmaHeap
