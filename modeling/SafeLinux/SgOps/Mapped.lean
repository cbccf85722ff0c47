import SafeLinux.Effects.Threads
import SafeLinux.Kiumd.Answers
import SafeLinux.Kiumd.MapBuf
import SafeLinux.SgOps.Driver
import Mathlib.Data.List.Nodup

/-!
# The flag `mapped` and the DMA mappings

An attachment has a table of its own and a flag that says whether the table is mapped.
`dmaBufSystem` is the system of the operations on attachments: any number of requests to map and
unmap buffers through kiumd, and of other importers, in any interleaving. An operation of the
exporter holds the buffer's lock and is one step.

`SgState.Tracks` is what the exporter expects of the flags, and `SgState.SyncsLive` is what the
access by the CPU then does. A privileged request of kiumd maps the table of an attachment directly
and leaves the flag, unlike all others, which go through the exporter.
-/

namespace SafeLinux.SgOps

open Effects
open Effects.Program (perform)
open Kiumd (KCall World)

/-! ## What the flags say -/

/-- The flag of an attachment is set exactly when its table is mapped, and no table is mapped
twice. -/
structure SgState.Tracks (s : SgState) : Prop where
  mapped_iff : ∀ x ∈ s.attachments, x.mapped = true ↔ 0 < s.live x.id
  once : ∀ x ∈ s.attachments, s.live x.id ≤ 1

/-- The attachments of a buffer with a mapped table, in the order of the list. -/
def SgState.mappedOf (s : SgState) (buffer : Nat) : List Nat :=
  ((s.attachments.filter (·.buffer == buffer)).map DmaHeapAttachment.id).filter (0 < s.live ·)

/-- The attachment that an event synchronises for the CPU. -/
def syncedForCpu : Event SgCall → Option Nat
  | ⟨.dmaSyncSgtableForCpu a _, _⟩ => some a
  | _ => none

/-- The attachment that an event synchronises for its device. -/
def syncedForDevice : Event SgCall → Option Nat
  | ⟨.dmaSyncSgtableForDevice a _, _⟩ => some a
  | _ => none

/-- An operation on a buffer that returns, and synchronises the attachments of the buffer with a
mapped table, and no others. -/
structure SgState.Syncs (s : SgState) (p : SgProg Int) (seen : Event SgCall → Option Nat)
    (buffer : Nat) : Prop where
  returns : ∃ trace, Exec sg p s trace (some 0) s
  exact : ∀ trace ret s', Exec sg p s trace ret s' → trace.filterMap seen = s.mappedOf buffer

/-- Begin and end of an access by the CPU synchronise the attachments with a mapped table. -/
structure SgState.SyncsLive (s : SgState) : Prop where
  begins : ∀ buffer direction,
    s.Syncs (qcomSgDmaBufBeginCpuAccess buffer direction) syncedForCpu buffer
  ends : ∀ buffer direction,
    s.Syncs (qcomSgDmaBufEndCpuAccess buffer direction) syncedForDevice buffer

/-! ## The system -/

/-- The answers of the kernel to an operation of the exporter in which `dma_map_sgtable` returns
`ret`, and no allocation fails. -/
def answering (ret : Int) : Chooser SgCall SgState := fun _ request s =>
  match request with
  | .kzalloc | .vmalloc => some true
  | .sgAllocTable => some 0
  | .kfree | .sgFreeTable | .mutexLock _ | .mutexUnlock _ | .listAdd _ | .listDel _
  | .writeMapped _ _ | .dmaUnmapSgtable _ _ _ | .dmaSyncSgtableForCpu _ _
  | .dmaSyncSgtableForDevice _ _ | .writeVmapCnt _ _ | .writeVaddr _ _
  | .invalidateKernelVmapRange _ | .flushKernelVmapRange _ | .vfree | .vunmap _ => some ()
  | .readAttachments buffer =>
      some ((s.attachments.filter (·.buffer == buffer)).map DmaHeapAttachment.id)
  | .readMapped a => (s.find a).map DmaHeapAttachment.mapped
  | .dmaMapSgtable _ _ _ => some ret
  | .readVmapCnt buffer => some (s.vmapCnt buffer)
  | .readVaddr buffer => some (s.vaddr buffer)
  | .vmap _ => some none

/-- The state after an operation of the exporter that returns an accepted value. -/
def served {α : Type} (ret : Int) (p : SgProg α) (s : SgState) (accept : α → Bool) :
    Option SgState :=
  match p.follow sg (answering ret) s with
  | some (_, some value, s') => if accept value then some s' else none
  | _ => none

/-- The buffer of an attachment. -/
def bufferOf (a : Kiumd.Attachment) : Nat :=
  match a.dmabuf with
  | .ptr d => d.id
  | _ => 0

/-- Whether `qcom_sg_map_dma_buf` returned the table. -/
def returnsTable (t : Kiumd.SgTable) : Except Int Nat → Bool
  | .ok a => a == t.attachment
  | .error _ => false

/-- Whether `qcom_sg_map_dma_buf` returned the error. -/
def returnsError (e : Int) : Except Int Nat → Bool
  | .ok _ => false
  | .error ret => ret == e

/-- What the calls of an importer do to the attachments. The calls of the DMA-buffer core reach the
operations of the exporter; an attachment that is refused leaves nothing. The calls of the DMA API
act on the table that they are given. -/
def exporterStep {β : Type} (request : KCall β) (s : SgState) (answer : β) : Option SgState :=
  match request with
  | .dmaBufAttach d _ =>
      match answer with
      | .ok a =>
          if a.priv = some (some a.table) then served 0 (qcomSgAttach d.id a.id) s (· == 0)
          else none
      | .error _ => some s
  | .dmaBufDetach d a => served 0 (qcomSgDetach d.id a.id) s fun _ => true
  | .dmaBufMapAttachment a dir =>
      match answer with
      | .ptr t => served 0 (qcomSgMapDmaBuf (bufferOf a) a.id dir) s (returnsTable t)
      | .err e => served e (qcomSgMapDmaBuf (bufferOf a) a.id dir) s (returnsError e)
      | .null => none
  | .dmaBufUnmapAttachment a _ dir =>
      served 0 (qcomSgUnmapDmaBuf (bufferOf a) a.id dir) s fun _ => true
  | .dmaMapSgtable _ t dir attrs => sg.step (.dmaMapSgtable t.attachment dir attrs) s answer
  | .dmaUnmapSgtable _ t dir attrs => sg.step (.dmaUnmapSgtable t.attachment dir attrs) s ()
  | _ => some s

/-- Who operates on the buffers: a request of kiumd, or another importer. -/
inductive Party where
  | kiumd (n : Nat)
  | importer (n : Nat)
  deriving DecidableEq

/-- What a party does. -/
inductive DmaBufJob where
  | mapBuf (kiusr : Kiumd.KiumdUser) (fp : Option (Option Nat))
  | unmapBuf (kiusr : Kiumd.KiumdUser) (fp : Option (Option Nat))
  | attach (d : Kiumd.DmaBuf) (dev : Kiumd.Device)
  | detach (d : Kiumd.DmaBuf) (a : Kiumd.Attachment)
  | map (a : Kiumd.Attachment) (dir : Int)
  | unmap (a : Kiumd.Attachment) (t : Kiumd.SgTable) (dir : Int)

/-- The program of a job. -/
def DmaBufJob.program : DmaBufJob → Kiumd.KProg Int
  | .mapBuf kiusr fp => Kiumd.kiumdDmabufVfioMap kiusr fp
  | .unmapBuf kiusr fp => Kiumd.kiumdDmabufVfioUnmap kiusr fp
  | .attach d dev => do
      let _ ← perform (.dmaBufAttach d dev)
      return 0
  | .detach d a => do
      perform (.dmaBufDetach d a)
      return 0
  | .map a dir => do
      let _ ← perform (.dmaBufMapAttachment a dir)
      return 0
  | .unmap a t dir => do
      perform (.dmaBufUnmapAttachment a t dir)
      return 0

/-- Whether a party does a job. -/
def Party.does : Party → DmaBufJob → Bool
  | .kiumd _, .mapBuf _ _ | .kiumd _, .unmapBuf _ _ => true
  | .importer _, .attach _ _ | .importer _, .detach _ _ | .importer _, .map _ _
  | .importer _, .unmap _ _ _ => true
  | _, _ => false

/-- What the calls of a party do: those of kiumd act on its own state as well. -/
def Party.semantics : Party → Semantics KCall (World × SgState)
  | .kiumd _ => ⟨fun request s answer =>
      (Kiumd.kernelStep request s.1 answer).bind fun w =>
        (exporterStep request s.2 answer).map fun t => (w, t)⟩
  | .importer _ => ⟨fun request s answer => (exporterStep request s.2 answer).map fun t => (s.1, t)⟩

/-- The operations on the attachments of the buffers. -/
def dmaBufSystem : System Party DmaBufJob KCall (World × SgState) Int where
  semantics := Party.semantics
  program := DmaBufJob.program
  start := fun P t i s => t.does i = true ∧ s = P.shared
  finish := fun _ _ _ s => s

/-- The pools of the system. -/
abbrev DmaBufPool := Pool Party DmaBufJob KCall (World × SgState) Int

/-- The steps of the system. -/
abbrev DmaBufMove := Move Party DmaBufJob KCall

/-- A call that does not map a table directly, nor unmaps one that is mapped. -/
def Spares (s : SgState) : Event KCall → Prop
  | ⟨.dmaMapSgtable _ _ _ _, ret⟩ => ret ≠ 0
  | ⟨.dmaUnmapSgtable _ t _ _, _⟩ => s.live t.attachment = 0
  | _ => True

/-- The condition that tables are mapped and unmapped through the exporter: no direct mapping
succeeds, and no table that is mapped is unmapped directly. -/
def ThroughExporter (P : DmaBufPool) : DmaBufMove → Prop
  | .call _ e => Spares P.shared.2 e
  | .start _ _ => True

/-! ## The exporter keeps the flags -/

/-- What the exporter keeps: the attachments have different ids, and the table of an attachment has
one mapping when the flag is set, and none otherwise. -/
structure SgState.Consistent (s : SgState) : Prop where
  nodup : s.ids.Nodup
  live : ∀ x ∈ s.attachments, s.live x.id = if x.mapped then 1 else 0

variable {s s' : SgState} {a : Nat}

theorem SgState.mem_ids : a ∈ s.ids ↔ ∃ x ∈ s.attachments, x.id = a := List.mem_map

theorem SgState.find_mem {x : DmaHeapAttachment} (h : s.find a = some x) :
    x ∈ s.attachments ∧ x.id = a :=
  ⟨List.mem_of_find?_eq_some h, by simpa using List.find?_some h⟩

/-- A consistent state meets what the exporter expects. -/
theorem SgState.Consistent.tracks (h : s.Consistent) : s.Tracks := by
  constructor
  · intro x hx
    rw [h.live x hx]
    cases x.mapped <;> decide
  · intro x hx
    rw [h.live x hx]
    cases x.mapped <;> decide

theorem SgState.ids_setMapped {value : Bool} : (s.setMapped a value).ids = s.ids := by
  unfold SgState.ids SgState.setMapped
  rw [List.map_map]
  refine List.map_congr_left fun x _ => ?_
  show (if x.id = a then { x with mapped := value } else x).id = x.id
  split <;> rfl

theorem SgState.setLive_same (s : SgState) {n : Nat} (h : s.live a = n) : s.setLive a n = s := by
  have hlive : (fun x => if x = a then n else s.live x) = s.live := by
    funext x
    split
    · rename_i hx
      rw [hx, h]
    · rfl
  unfold SgState.setLive
  rw [hlive]

/-- The flag and the number of mappings of one table are changed together. -/
theorem SgState.Consistent.set (h : s.Consistent) (a : Nat) (value : Bool) :
    ((s.setMapped a value).setLive a (if value then 1 else 0)).Consistent := by
  refine ⟨?_, fun x hx => ?_⟩
  · show (s.setMapped a value).ids.Nodup
    rw [SgState.ids_setMapped]
    exact h.nodup
  · obtain ⟨y, hy, rfl⟩ := List.mem_map.mp hx
    by_cases hid : y.id = a
    · simp [SgState.setLive, hid]
    · have hlive := h.live y hy
      simpa [SgState.setLive, SgState.setMapped, hid] using hlive

/-- An attachment whose flag has a value that fits its mappings. -/
theorem SgState.Consistent.live_of_find (h : s.Consistent) {value : Bool}
    (hfind : (s.find a).map DmaHeapAttachment.mapped = some value) :
    s.live a = if value then 1 else 0 := by
  obtain ⟨x, hx, rfl⟩ := Option.map_eq_some_iff.mp hfind
  obtain ⟨hmem, rfl⟩ := SgState.find_mem hx
  exact h.live x hmem

/-- An attachment that is not mapped is added. -/
theorem SgState.Consistent.add (h : s.Consistent) (buffer : Nat) (ha : a ∉ s.ids) :
    ({ s with attachments := ⟨buffer, a, false⟩ :: s.attachments }.setLive a 0).Consistent := by
  refine ⟨List.nodup_cons.mpr ⟨ha, h.nodup⟩, fun x hx => ?_⟩
  rcases List.mem_cons.mp hx with rfl | hx
  · simp [SgState.setLive]
  · have hne : x.id ≠ a := fun hid => ha (SgState.mem_ids.mpr ⟨x, hx, hid⟩)
    simpa [SgState.setLive, hne] using h.live x hx

/-- An attachment is removed. -/
theorem SgState.Consistent.remove (h : s.Consistent) (a : Nat) :
    { s with attachments := s.attachments.filter (·.id != a) }.Consistent :=
  ⟨h.nodup.sublist (List.filter_sublist.map _),
    fun x hx => h.live x (List.mem_of_mem_filter hx)⟩

/-- The postcondition that the state is consistent. -/
def KeepsFlags {α : Type} : Post SgCall SgState α := fun _ _ s => s.Consistent

instance {α : Type} : (KeepsFlags : Post SgCall SgState α).Stable := ⟨fun _ _ _ _ h => h⟩

/-- The rule for a call, and what follows it, that leaves the state. -/
theorem keepsFlags_step {α β : Type} [Nonempty β] {request : SgCall β} {rest : β → SgProg α}
    (hnext : ∀ answer s', sg.step request s answer = some s' →
      wp sg .any (rest answer) KeepsFlags s') :
    wp sg .any (perform request >>= rest) KeepsFlags s :=
  wp_step fun answer s' hstep => wp_after (hnext answer s' hstep)

/-- The rule for a call, and what follows it, that has no effect here. -/
theorem keepsFlags_idle {α β : Type} [Nonempty β] {request : SgCall β} {rest : β → SgProg α}
    (hidle : ∀ answer, sg.step request s answer = some s)
    (hnext : ∀ answer, wp sg .any (rest answer) KeepsFlags s) :
    wp sg .any (perform request >>= rest) KeepsFlags s := by
  refine keepsFlags_step fun answer s' hstep => ?_
  rw [hidle answer] at hstep
  cases hstep
  exact hnext answer

theorem keepsFlags_pure {α : Type} {value : α} (h : s.Consistent) :
    wp sg .any (pure value : SgProg α) KeepsFlags s :=
  wp_pure.mpr h

theorem dupSgTable_keepsFlags (h : s.Consistent) : wp sg .any dupSgTable KeepsFlags s := by
  refine keepsFlags_idle (fun _ => rfl) fun allocated => ?_
  split
  · exact keepsFlags_pure h
  · refine keepsFlags_idle (fun _ => rfl) fun ret => ?_
    split
    · exact keepsFlags_idle (fun _ => rfl) fun _ => keepsFlags_pure h
    · exact keepsFlags_pure h

theorem qcomSgAttach_keepsFlags (h : s.Consistent) (buffer a : Nat) :
    wp sg .any (qcomSgAttach buffer a) KeepsFlags s := by
  refine keepsFlags_idle (fun _ => rfl) fun allocated => ?_
  split
  · exact keepsFlags_pure h
  · refine wp_then (dupSgTable_keepsFlags h) (fun _ duplicated s' hs' => ?_) fun _ _ hs' => hs'
    split
    · exact keepsFlags_idle (fun _ => rfl) fun _ => keepsFlags_pure hs'
    · refine keepsFlags_idle (fun _ => rfl) fun _ => keepsFlags_step fun _ s'' hadd => ?_
      have hstep : (if a ∈ s'.ids then none
        else some ({ s' with attachments := ⟨buffer, a, false⟩ :: s'.attachments }.setLive a 0)) =
          some s'' := hadd
      split at hstep
      · cases hstep
      · rename_i hfresh
        cases hstep
        exact keepsFlags_idle (fun _ => rfl) fun _ => keepsFlags_pure (hs'.add buffer hfresh)

theorem qcomSgDetach_keepsFlags (h : s.Consistent) (buffer a : Nat) :
    wp sg .any (qcomSgDetach buffer a) KeepsFlags s := by
  refine keepsFlags_idle (fun _ => rfl) fun _ => keepsFlags_step fun _ s' hdel => ?_
  have hstep : (if a ∈ s.ids then
      some { s with attachments := s.attachments.filter (·.id != a) } else none) = some s' := hdel
  split at hstep
  · cases hstep
    refine keepsFlags_idle (fun _ => rfl) fun _ => keepsFlags_idle (fun _ => rfl) fun _ => ?_
    exact keepsFlags_idle (fun _ => rfl) fun _ => keepsFlags_idle (fun _ => rfl) fun _ =>
      keepsFlags_pure (h.remove a)
  · cases hstep

/-- Mapping maps the table of an attachment whose flag is clear, and then sets the flag. -/
theorem qcomSgMapDmaBuf_keepsFlags (h : s.Consistent) (buffer a : Nat) (direction : Int) :
    wp sg .any (qcomSgMapDmaBuf buffer a direction) KeepsFlags s := by
  -- The end of the operation, from a state in which the flag may have to be set.
  have hend : ∀ (ret : Int) (s' : SgState),
      (ret ≠ 0 → s'.Consistent) → (ret = 0 → s' = s.setLive a 1) →
      wp sg .any (do
        if ret ≠ 0 then
          perform (.mutexUnlock buffer)
          return Except.error ret
        perform (.writeMapped a true)
        perform (.mutexUnlock buffer)
        return .ok a : SgProg (Except Int Nat)) KeepsFlags s' := by
    intro ret s' herror hmapped
    by_cases hret : ret = 0
    · rw [if_neg (not_not_intro hret)]
      cases hmapped hret
      refine keepsFlags_step fun _ s'' hwrite => ?_
      have hstep : (if a ∈ (s.setLive a 1).ids then some ((s.setLive a 1).setMapped a true)
        else none) = some s'' := hwrite
      split at hstep
      · cases hstep
        exact keepsFlags_idle (fun _ => rfl) fun _ => keepsFlags_pure (h.set a true)
      · cases hstep
    · rw [if_pos hret]
      exact keepsFlags_idle (fun _ => rfl) fun _ => keepsFlags_pure (herror hret)
  refine keepsFlags_idle (fun _ => rfl) fun _ => keepsFlags_step fun mapped s' hread => ?_
  have hstep : (if (s.find a).map DmaHeapAttachment.mapped = some mapped then some s else none) =
    some s' := hread
  split at hstep
  · rename_i hfind
    cases hstep
    have hlive := h.live_of_find hfind
    cases mapped with
    | true =>
        refine hend (-EBUSY) s (fun _ => h) fun hret => ?_
        cases hret
    | false =>
        refine keepsFlags_step fun ret s' hmap => ?_
        have hstep : (if ret = 0 then some (s.setLive a (s.live a + 1)) else some s) = some s' :=
          hmap
        split at hstep
        · rename_i hret
          cases hstep
          refine hend ret _ (fun hne => absurd hret hne) fun _ => ?_
          rw [hlive]
          rfl
        · rename_i hret
          cases hstep
          exact hend ret s (fun _ => h) fun hret' => absurd hret' hret
  · cases hstep

/-- Unmapping clears the flag of an attachment and leaves its table with no mapping. -/
theorem qcomSgUnmapDmaBuf_keepsFlags (h : s.Consistent) (buffer a : Nat) (direction : Int) :
    wp sg .any (qcomSgUnmapDmaBuf buffer a direction) KeepsFlags s := by
  refine keepsFlags_idle (fun _ => rfl) fun _ => keepsFlags_step fun _ s' hwrite => ?_
  have hstep : (if a ∈ s.ids then some (s.setMapped a false) else none) = some s' := hwrite
  split at hstep
  · rename_i hmem
    cases hstep
    refine keepsFlags_step fun _ s' hunmap => ?_
    obtain ⟨x, hx, rfl⟩ := SgState.mem_ids.mp hmem
    have hlive : s.live x.id - 1 = 0 := by
      have := h.tracks.once x hx
      omega
    have hs' : (s.setMapped x.id false).setLive x.id (s.live x.id - 1) = s' :=
      Option.some.inj hunmap
    rw [hlive] at hs'
    subst hs'
    exact keepsFlags_idle (fun _ => rfl) fun _ => keepsFlags_pure (h.set x.id false)
  · cases hstep

/-- An operation that is served keeps the flags when all its executions do. -/
theorem served_consistent {α : Type} {ret : Int} {p : SgProg α} {accept : α → Bool}
    (hp : wp sg .any p KeepsFlags s) (h : served ret p s accept = some s') : s'.Consistent := by
  unfold served at h
  split at h
  · rename_i trace value s'' hfollow
    split at h
    · cases h
      exact wp_exec hp (Program.follow_exec hfollow)
    · cases h
  · cases h

/-- A call keeps the flags, unless it maps or unmaps a table directly. -/
theorem exporterStep_consistent {β : Type} {request : KCall β} {answer : β} (h : s.Consistent)
    (hspares : Spares s ⟨request, answer⟩) (hstep : exporterStep request s answer = some s') :
    s'.Consistent := by
  cases request
  case dmaBufAttach d dev =>
    cases answer with
    | ok a =>
        by_cases htable : a.priv = some (some a.table)
        · have hserved : served 0 (qcomSgAttach d.id a.id) s (· == 0) = some s' := by
            rw [← hstep]
            exact (if_pos htable).symm
          exact served_consistent (qcomSgAttach_keepsFlags h _ _) hserved
        · have hnone : exporterStep (.dmaBufAttach d dev) s (.ok a) = none := if_neg htable
          rw [hnone] at hstep
          cases hstep
    | error e =>
        cases hstep
        exact h
  case dmaBufDetach d a => exact served_consistent (qcomSgDetach_keepsFlags h _ _) hstep
  case dmaBufMapAttachment a dir =>
    cases answer with
    | ptr t => exact served_consistent (qcomSgMapDmaBuf_keepsFlags h _ _ _) hstep
    | err e => exact served_consistent (qcomSgMapDmaBuf_keepsFlags h _ _ _) hstep
    | null => cases hstep
  case dmaBufUnmapAttachment a t dir =>
    exact served_consistent (qcomSgUnmapDmaBuf_keepsFlags h _ _ _) hstep
  case dmaMapSgtable dev t dir attrs =>
    have hfails : exporterStep (.dmaMapSgtable dev t dir attrs) s answer = some s :=
      if_neg hspares
    rw [hfails] at hstep
    cases hstep
    exact h
  case dmaUnmapSgtable dev t dir attrs =>
    have hlive : s.live t.attachment = 0 := hspares
    have hs' : s.setLive t.attachment (s.live t.attachment - 1) = s' := Option.some.inj hstep
    rw [hlive, s.setLive_same hlive] at hs'
    rw [← hs']
    exact h
  all_goals
    cases hstep
    exact h

/-- The state of a pool after a step. -/
theorem dmaBuf_resume_shared {running : Party → Option (DmaBufJob × Kiumd.KProg Int)} {t : Party}
    {i : DmaBufJob} {p : Kiumd.KProg Int} {s : World × SgState} :
    (dmaBufSystem.resume running t i p s).shared = s := by
  cases p <;> rfl

/-- Of the attachments, a call of a party does what the exporter does. -/
theorem Party.exporterStep_of_step {t : Party} {β : Type} {request : KCall β} {answer : β}
    {s s' : World × SgState} (h : (t.semantics).step request s answer = some s') :
    exporterStep request s.2 answer = some s'.2 := by
  cases t with
  | kiumd n =>
      obtain ⟨w, _, hexporter⟩ := Option.bind_eq_some_iff.mp h
      obtain ⟨u, hu, rfl⟩ := Option.map_eq_some_iff.mp hexporter
      exact hu
  | importer n =>
      obtain ⟨u, hu, rfl⟩ := Option.map_eq_some_iff.mp h
      exact hu

/-- Every step that goes through the exporter keeps the flags. -/
theorem consistent_reach {w : World} {vmapCnt : Nat → Int} {vaddr : Nat → Option U64}
    {P : DmaBufPool}
    (h : dmaBufSystem.Reach ThroughExporter (.quiet (w, .unattached vmapCnt vaddr)) P) :
    P.shared.2.Consistent := by
  refine h.invariant (fun P => P.shared.2.Consistent) ⟨List.nodup_nil, fun _ hx => nomatch hx⟩ ?_
  intro P m P' hP hstep hok
  cases hstep with
  | start _ hstart =>
      rw [dmaBuf_resume_shared, hstart.2]
      exact hP
  | call _ hcall =>
      rw [dmaBuf_resume_shared]
      exact exporterStep_consistent hP hok (Party.exporterStep_of_step hcall)

/-! ## Access by the CPU -/

/-- Whether a call synchronises an attachment. -/
def synchronises {β : Type} : SgCall β → Bool
  | .dmaSyncSgtableForCpu _ _ | .dmaSyncSgtableForDevice _ _ => true
  | _ => false

/-- The calls of an access by the CPU, of which `seen` sees those that synchronise. -/
structure Sees (flush : Option U64 → SgCall Unit) (sync : Nat → SgCall Unit)
    (seen : Event SgCall → Option Nat) : Prop where
  flush_step : ∀ vaddr s, sg.step (flush vaddr) s () = some s
  flush_quiet : ∀ vaddr, synchronises (flush vaddr) = false
  sync_step : ∀ a s, sg.step (sync a) s () = some s
  sync_seen : ∀ a, seen ⟨sync a, ()⟩ = some a
  quiet : ∀ (β : Type) (request : SgCall β) (answer : β),
    synchronises request = false → seen ⟨request, answer⟩ = none

section

variable {flush : Option U64 → SgCall Unit} {sync : Nat → SgCall Unit}
  {seen : Event SgCall → Option Nat} {buffer : Nat}

/-- The loop synchronises the attachments of the list whose table is mapped, in the order of the
list. -/
theorem syncMapped_spec (hsees : Sees flush sync seen) (h : s.Consistent)
    (attachments : List Nat) :
    wp sg .any (syncMapped sync attachments) (fun trace _ s' => s' = s ∧
      trace.filterMap seen = attachments.filter (0 < s.live ·)) s := by
  induction attachments with
  | nil => exact wp_pure.mpr ⟨rfl, rfl⟩
  | cons a rest ih =>
      refine wp_step fun mapped s' hstep => ?_
      have hread : (if (s.find a).map DmaHeapAttachment.mapped = some mapped then some s
        else none) = some s' := hstep
      have hquiet := hsees.quiet _ (.readMapped a) mapped rfl
      split at hread
      · rename_i hfind
        cases hread
        have hlive := h.live_of_find hfind
        cases mapped with
        | false =>
            refine wp_mono ih ?_
            rintro trace result s' ⟨rfl, htrace⟩
            exact ⟨rfl, by simp [hquiet, hlive, htrace]⟩
        | true =>
            refine wp_step fun _ s' hstep => ?_
            cases (hsees.sync_step a s).symm.trans hstep
            refine wp_mono ih ?_
            rintro trace result s' ⟨rfl, htrace⟩
            exact ⟨rfl, by simp [hquiet, hsees.sync_seen, hlive, htrace]⟩
      · cases hread

/-- The loop comes to the end of a list of attachments. -/
theorem syncMapped_returns (hsees : Sees flush sync seen) {attachments : List Nat}
    (hmem : ∀ a ∈ attachments, a ∈ s.ids) :
    ∃ trace, Exec sg (syncMapped sync attachments) s trace (some ()) s := by
  induction attachments with
  | nil => exact ⟨[], .ret () s⟩
  | cons a rest ih =>
      obtain ⟨trace, hrest⟩ := ih fun b hb => hmem b (List.mem_cons_of_mem a hb)
      have hsome : (s.find a).isSome := by
        obtain ⟨x, hx, hid⟩ := SgState.mem_ids.mp (hmem a List.mem_cons_self)
        exact List.find?_isSome.mpr ⟨x, hx, by simpa using hid⟩
      obtain ⟨x, hfind⟩ := Option.isSome_iff_exists.mp hsome
      have hread : sg.step (.readMapped a) s x.mapped = some s := if_pos (by rw [hfind]; rfl)
      cases hmapped : x.mapped with
      | false =>
          rw [hmapped] at hread
          exact ⟨_, .call hread hrest⟩
      | true =>
          rw [hmapped] at hread
          exact ⟨_, .call hread (.call (hsees.sync_step a s) hrest)⟩

/-- The attachments in the list of a buffer are not detached. -/
theorem SgState.mem_ids_of_buffer
    (h : a ∈ (s.attachments.filter (·.buffer == buffer)).map DmaHeapAttachment.id) : a ∈ s.ids := by
  obtain ⟨x, hx, rfl⟩ := List.mem_map.mp h
  exact List.mem_map.mpr ⟨x, List.mem_of_mem_filter hx, rfl⟩

/-- An access by the CPU, once the kernel mapping is flushed. -/
def accessAttachments (sync : Nat → SgCall Unit) (buffer : Nat) : SgProg Int := do
  let attachments ← perform (.readAttachments buffer)
  syncMapped sync attachments
  perform (.mutexUnlock buffer)
  return 0

theorem cpuAccess_eq : cpuAccess flush sync buffer = (do
    perform (.mutexLock buffer)
    let vmapCnt ← perform (.readVmapCnt buffer)
    if vmapCnt ≠ 0 then
      let vaddr ← perform (.readVaddr buffer)
      perform (flush vaddr)
      accessAttachments sync buffer
    else accessAttachments sync buffer : SgProg Int) := rfl

/-- The rule for a call, and what follows it, that has no effect and is not seen. -/
theorem SgState.Syncs.step {β : Type} {request : SgCall β} {rest : β → SgProg Int} (answer : β)
    (hstep : sg.step request s answer = some s)
    (hquiet : ∀ answer, seen ⟨request, answer⟩ = none)
    (honly : ∀ answer s', sg.step request s answer = some s' →
      s' = s ∧ s.Syncs (rest answer) seen buffer) :
    s.Syncs (perform request >>= rest) seen buffer := by
  constructor
  · obtain ⟨trace, hrest⟩ := (honly answer s hstep).2.returns
    exact ⟨_, .call hstep hrest⟩
  · intro trace ret s' hexec
    cases hexec with
    | halt => exact isEmptyElim answer
    | @call _ _ _ _ _ _ answer' _ _ hcall hrest =>
        obtain ⟨rfl, hsyncs⟩ := honly answer' _ hcall
        rw [List.filterMap_cons_none (hquiet answer')]
        exact hsyncs.exact _ _ _ hrest

theorem accessAttachments_syncs (hsees : Sees flush sync seen) (h : s.Consistent) :
    s.Syncs (accessAttachments sync buffer) seen buffer := by
  refine .step _ (if_pos rfl) (fun answer => hsees.quiet _ _ answer rfl) ?_
  intro attachments s' hlist
  have hread : (if attachments = (s.attachments.filter (·.buffer == buffer)).map
    DmaHeapAttachment.id then some s else none) = some s' := hlist
  split at hread
  · rename_i hattachments
    cases hread
    subst hattachments
    refine ⟨rfl, ?_, ?_⟩
    · obtain ⟨trace, hloop⟩ := syncMapped_returns (s := s) hsees fun _ => SgState.mem_ids_of_buffer
      have hunlock : sg.step (.mutexUnlock buffer) s () = some s := rfl
      exact ⟨_, hloop.bind (.call hunlock (.ret 0 s))⟩
    · have hquiet := hsees.quiet _ (.mutexUnlock buffer) () rfl
      have hwp : wp sg .any (do
          syncMapped sync ((s.attachments.filter (·.buffer == buffer)).map DmaHeapAttachment.id)
          perform (.mutexUnlock buffer)
          return 0)
          (fun trace (_ : Option Int) _ => trace.filterMap seen = s.mappedOf buffer) s := by
        rw [wp_bind]
        refine wp_mono (syncMapped_spec hsees h _) ?_
        rintro trace result s' ⟨rfl, htrace⟩
        cases result with
        | none => exact htrace
        | some _ =>
            refine wp_step fun _ s'' _ => wp_pure.mpr ?_
            rw [Post.after_apply, Post.after_apply, List.append_nil, List.filterMap_append, htrace]
            simp [hquiet, SgState.mappedOf]
      exact fun trace ret s' hexec => wp_exec hwp hexec
  · cases hread

/-- An access by the CPU synchronises the attachments of the buffer with a mapped table. -/
theorem cpuAccess_syncs (hsees : Sees flush sync seen) (h : s.Consistent) :
    s.Syncs (cpuAccess flush sync buffer) seen buffer := by
  rw [cpuAccess_eq]
  refine .step () rfl (fun answer => hsees.quiet _ _ answer rfl) fun _ s' hlock => ?_
  cases hlock
  refine ⟨rfl, .step _ (if_pos rfl) (fun answer => hsees.quiet _ _ answer rfl) ?_⟩
  intro vmapCnt s' hcnt
  have hread : (if vmapCnt = s.vmapCnt buffer then some s else none) = some s' := hcnt
  split at hread
  · cases hread
    refine ⟨rfl, ?_⟩
    split
    · refine .step _ (if_pos rfl) (fun answer => hsees.quiet _ _ answer rfl) ?_
      intro vaddr s' hvaddr
      have hread : (if vaddr = s.vaddr buffer then some s else none) = some s' := hvaddr
      split at hread
      · cases hread
        refine ⟨rfl, .step () (hsees.flush_step _ s)
          (fun answer => hsees.quiet _ _ answer (hsees.flush_quiet _)) fun _ s' hflush => ?_⟩
        cases (hsees.flush_step _ s).symm.trans hflush
        exact ⟨rfl, accessAttachments_syncs hsees h⟩
      · cases hread
    · exact accessAttachments_syncs hsees h
  · cases hread

end

/-- In a consistent state an access by the CPU synchronises the attachments with a mapped table. -/
theorem SgState.Consistent.syncsLive (h : s.Consistent) : s.SyncsLive := by
  refine ⟨fun buffer direction => cpuAccess_syncs ?_ h, fun buffer direction =>
    cpuAccess_syncs ?_ h⟩
  · refine ⟨fun _ _ => rfl, fun _ => rfl, fun _ _ => rfl, fun _ => rfl, ?_⟩
    intro β request answer hquiet
    cases request <;> first | rfl | cases hquiet
  · refine ⟨fun _ _ => rfl, fun _ => rfl, fun _ _ => rfl, fun _ => rfl, ?_⟩
    intro β request answer hquiet
    cases request <;> first | rfl | cases hquiet

/-! ## Runs -/

/-- In every interleaving in which tables are mapped and unmapped through the exporter, the flags
say which tables are mapped, no table is mapped twice, and an access by the CPU synchronises what is
mapped. -/
theorem tracks_throughExporter {w : World} {vmapCnt : Nat → Int} {vaddr : Nat → Option U64}
    {P : DmaBufPool}
    (h : dmaBufSystem.Reach ThroughExporter (.quiet (w, .unattached vmapCnt vaddr)) P) :
    P.shared.2.Tracks ∧ P.shared.2.SyncsLive :=
  ⟨(consistent_reach h).tracks, (consistent_reach h).syncsLive⟩

/-- The answers to the requests of kiumd when no call fails. -/
def plainAnswers : Chooser KCall (World × SgState) := fun β request s =>
  (Kiumd.Answers.plain fun _ _ => false).choose β request s.1

/-- Whether an event maps or unmaps a table directly. -/
def direct : Event KCall → Bool
  | ⟨.dmaMapSgtable _ _ _ _, _⟩ | ⟨.dmaUnmapSgtable _ _ _ _, _⟩ => true
  | _ => false

theorem spares_of_not_direct {e : Event KCall} (h : direct e = false) : Spares s e := by
  obtain ⟨request, answer⟩ := e
  cases request
  case dmaMapSgtable => cases h
  case dmaUnmapSgtable => cases h
  all_goals trivial

/-- No buffer has an attachment, and kiumd was not used. -/
def unused : World × SgState := (World.initial, .unattached (fun _ => 0) fun _ => none)

/-- A run in which a request of kiumd maps a buffer. -/
theorem tracks_throughExporter_mapBuf : ∃ P : DmaBufPool,
    dmaBufSystem.Reach ThroughExporter (.quiet unused) P ∧
    (P.shared.2.attachments.any fun x => x.mapped) = true ∧
    P.shared.2.Tracks ∧ P.shared.2.SyncsLive := by
  have hcheck : (dmaBufSystem.program (.mapBuf Kiumd.plainUser (some (some 0)))).check
      (dmaBufSystem.semantics (.kiumd 0)) plainAnswers unused
      (fun trace _ s => trace.all (fun e => !direct e) && s.2.attachments.any fun x => x.mapped) =
        true := by
    decide +kernel
  obtain ⟨trace, value, s', hexec, htest⟩ := Program.check_exec hcheck
  rw [Bool.and_eq_true, List.all_eq_true] at htest
  have hfresh : dmaBufSystem.Reach ThroughExporter (.quiet unused) (.quiet unused) := .here
  obtain ⟨P, hP, -, hshared⟩ := hfresh.exec rfl ⟨rfl, rfl⟩ trivial
    (fun P e he => spares_of_not_direct (by simpa using htest.1 e he)) hexec
  have hs : P.shared = s' := hshared
  exact ⟨P, hP, by rw [hs]; exact htest.2, tracks_throughExporter hP⟩

/-- A privileged request of kiumd leaves a table mapped and its flag clear. -/
theorem not_tracks_privilegedMapBuf : ¬ ∀ P : DmaBufPool,
    dmaBufSystem.Reach Move.any (.quiet unused) P → P.shared.2.Tracks ∧ P.shared.2.SyncsLive := by
  have hcheck : (dmaBufSystem.program (.mapBuf
        { Kiumd.plainUser with dmaAttr := Kiumd.DMA_ATTR_PRIVILEGED } (some (some 0)))).check
      (dmaBufSystem.semantics (.kiumd 0)) plainAnswers unused
      (fun _ _ s => s.2.attachments.any fun x => !x.mapped && decide (0 < s.2.live x.id)) =
        true := by
    decide +kernel
  obtain ⟨trace, value, s', hexec, htest⟩ := Program.check_exec hcheck
  have hfresh : dmaBufSystem.Reach Move.any (.quiet unused) (.quiet unused) := .here
  obtain ⟨P, hP, -, hshared⟩ := hfresh.exec rfl ⟨rfl, rfl⟩ trivial (fun _ _ _ => trivial) hexec
  have hs : P.shared = s' := hshared
  obtain ⟨x, hx, hbad⟩ := List.any_eq_true.mp htest
  rw [Bool.and_eq_true, decide_eq_true_eq, ← hs] at hbad
  rw [← hs] at hx
  intro h
  rw [((h P hP).1.mapped_iff x hx).mpr hbad.2] at hbad
  cases hbad.1

end SafeLinux.SgOps
