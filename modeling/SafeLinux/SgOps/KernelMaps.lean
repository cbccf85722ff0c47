import SafeLinux.SgOps.Driver
import Mathlib.Logic.Function.Basic

/-!
# The kernel mapping of a buffer

`qcom_sg_vmap` makes a kernel mapping of a buffer for the first of its users and counts the users;
`qcom_sg_vunmap` destroys it with the last. `mapsKernel` adds the live kernel mappings to the state
of the exporter. In every sequence of calls that unmaps no more than was mapped, the count and the
address agree with the mapping there is (`vmap_run_cached`).
-/

namespace SafeLinux.SgOps

open Effects
open Effects.Program (perform)

/-! ## Mappings -/

/-- The state of the exporter, and which addresses are kernel mappings. -/
structure KernelMaps where
  sg : SgState
  live : U64 → Bool

/-- What the calls do: `vmap` makes a mapping at an unused address, `vunmap` destroys one, and the
count is an `int`. -/
def mapsKernel : Semantics SgCall KernelMaps where
  step := fun request s answer =>
    match request with
    | .vmap _ =>
        match answer with
        | none => some s
        | some vaddr =>
            if vaddr ≠ 0 ∧ ¬ s.live vaddr then
              some { s with live := Function.update s.live vaddr true }
            else none
    | .vunmap vaddr =>
        match vaddr with
        | none => some s
        | some vaddr => some { s with live := Function.update s.live vaddr false }
    | .writeVmapCnt buffer value =>
        (sg.step (.writeVmapCnt buffer (value.bmod (2 ^ 32))) s.sg answer).map fun sg =>
          { s with sg := sg }
    | request => (sg.step request s.sg answer).map fun sg => { s with sg := sg }

/-- A mapping that is made or destroyed. -/
inductive MapAct where
  | made (vaddr : U64)
  | destroyed (vaddr : Option U64)
  deriving DecidableEq

/-- Which calls make or destroy a mapping. -/
def MapAct.view : Event SgCall → Option MapAct
  | ⟨.vmap _, some vaddr⟩ => some (.made vaddr)
  | ⟨.vunmap vaddr, _⟩ => some (.destroyed vaddr)
  | _ => none

/-- The mappings made and destroyed, in order. -/
def mapActs (trace : List (Event SgCall)) : List MapAct := trace.filterMap MapAct.view

namespace KernelMaps

/-- The state with another count. -/
def setCount (s : KernelMaps) (buffer : Nat) (n : Int) : KernelMaps :=
  { s with sg := { s.sg with
    vmapCnt := fun b => if b = buffer then n.bmod (2 ^ 32) else s.sg.vmapCnt b } }

/-- The state with another address. -/
def setVaddr (s : KernelMaps) (buffer : Nat) (vaddr : Option U64) : KernelMaps :=
  { s with sg := { s.sg with vaddr := fun b => if b = buffer then vaddr else s.sg.vaddr b } }

/-- The state with a mapping more or less. -/
def setLive (s : KernelMaps) (vaddr : U64) (live : Bool) : KernelMaps :=
  { s with live := Function.update s.live vaddr live }

end KernelMaps

variable {b : Nat} {s s' : KernelMaps} {trace : List (Event SgCall)} {α β : Type}

/-! ## One call -/

/-- What `qcom_sg_vmap` can do: its mappings, what it returns and where it leads. -/
inductive VmapOutcome (b : Nat) (s : KernelMaps) :
    List MapAct → Option (Int × Option U64) → KernelMaps → Prop where
  | again (hcount : s.sg.vmapCnt b ≠ 0) :
      VmapOutcome b s [] (some (0, s.sg.vaddr b)) (s.setCount b (s.sg.vmapCnt b + 1))
  | failed (hcount : s.sg.vmapCnt b = 0) : VmapOutcome b s [] (some (-ENOMEM, none)) s
  | first {vaddr : U64} (hcount : s.sg.vmapCnt b = 0) (hvaddr : vaddr ≠ 0) :
      VmapOutcome b s [.made vaddr] (some (0, some vaddr))
        (((s.setLive vaddr true).setVaddr b (some vaddr)).setCount b (s.sg.vmapCnt b + 1))

/-- What `qcom_sg_vunmap` can do. -/
inductive VunmapOutcome (b : Nat) (s : KernelMaps) : List MapAct → KernelMaps → Prop where
  | kept (hcount : s.sg.vmapCnt b - 1 ≠ 0) :
      VunmapOutcome b s [] (s.setCount b (s.sg.vmapCnt b - 1))
  | last {vaddr : U64} (hcount : s.sg.vmapCnt b - 1 = 0) (hvaddr : s.sg.vaddr b = some vaddr) :
      VunmapOutcome b s [.destroyed (some vaddr)]
        (((s.setCount b (s.sg.vmapCnt b - 1)).setLive vaddr false).setVaddr b none)
  | none (hcount : s.sg.vmapCnt b - 1 = 0) (hvaddr : s.sg.vaddr b = none) :
      VunmapOutcome b s [.destroyed none]
        ((s.setCount b (s.sg.vmapCnt b - 1)).setVaddr b none)

/-- The rule for a call that leaves the state. -/
theorem maps_idle [Nonempty β] {request : SgCall β} {rest : β → SgProg α}
    {Q : Post SgCall KernelMaps α} (hidle : ∀ answer, mapsKernel.step request s answer = some s)
    (hnext : ∀ answer, wp mapsKernel .any (rest answer) (Q.after [⟨request, answer⟩]) s) :
    wp mapsKernel .any (perform request >>= rest) Q s := by
  refine wp_step fun answer s' hstep => ?_
  rw [hidle answer] at hstep
  cases hstep
  exact hnext answer

/-- The rule for a call with one effect. -/
theorem maps_do {request : SgCall Unit} {rest : Unit → SgProg α} {Q : Post SgCall KernelMaps α}
    (hstep : mapsKernel.step request s () = some s')
    (hnext : wp mapsKernel .any (rest ()) (Q.after [⟨request, ()⟩]) s') :
    wp mapsKernel .any (perform request >>= rest) Q s := by
  refine wp_step fun answer s'' hstep' => ?_
  rw [hstep] at hstep'
  cases hstep'
  exact hnext

/-- The rule for reading. -/
theorem maps_read [Nonempty β] {request : SgCall β} {rest : β → SgProg α}
    {Q : Post SgCall KernelMaps α} (value : β)
    (hread : ∀ answer s', mapsKernel.step request s answer = some s' → answer = value ∧ s' = s)
    (hnext : wp mapsKernel .any (rest value) (Q.after [⟨request, value⟩]) s) :
    wp mapsKernel .any (perform request >>= rest) Q s := by
  refine wp_step fun answer s' hstep => ?_
  obtain ⟨rfl, rfl⟩ := hread answer s' hstep
  exact hnext

theorem readVmapCnt_maps {answer : Int}
    (h : mapsKernel.step (.readVmapCnt b) s answer = some s') :
    answer = s.sg.vmapCnt b ∧ s' = s := by
  obtain ⟨t, ht, rfl⟩ := Option.map_eq_some_iff.mp h
  simp only [sg] at ht
  split at ht
  · cases ht
    exact ⟨‹_›, rfl⟩
  · cases ht

theorem readVaddr_maps {answer : Option U64}
    (h : mapsKernel.step (.readVaddr b) s answer = some s') :
    answer = s.sg.vaddr b ∧ s' = s := by
  obtain ⟨t, ht, rfl⟩ := Option.map_eq_some_iff.mp h
  simp only [sg] at ht
  split at ht
  · cases ht
    exact ⟨‹_›, rfl⟩
  · cases ht

@[simp] theorem mapActs_append {trace' : List (Event SgCall)} :
    mapActs (trace ++ trace') = mapActs trace ++ mapActs trace' :=
  List.filterMap_append

/-- What `qcom_sg_do_vmap` can do. -/
inductive DoVmapOutcome (s : KernelMaps) :
    List MapAct → Option (Except Int U64) → KernelMaps → Prop where
  | failed : DoVmapOutcome s [] (some (.error (-ENOMEM))) s
  | made {vaddr : U64} (hvaddr : vaddr ≠ 0) :
      DoVmapOutcome s [.made vaddr] (some (.ok vaddr)) (s.setLive vaddr true)

theorem qcomSgDoVmap_outcome : wp mapsKernel .any (qcomSgDoVmap b)
    (fun trace result s' => DoVmapOutcome s (mapActs trace) result s') s := by
  refine maps_idle (fun _ => rfl) fun allocated => ?_
  split
  · exact wp_pure.mpr .failed
  · refine wp_step fun vaddr s' hstep => ?_
    cases vaddr with
    | none =>
        cases hstep
        exact maps_idle (fun _ => rfl) fun _ => wp_pure.mpr .failed
    | some vaddr =>
        simp only [mapsKernel] at hstep
        split at hstep
        · rename_i hfresh
          cases hstep
          exact maps_idle (fun _ => rfl) fun _ => wp_pure.mpr (.made hfresh.1)
        · cases hstep

theorem qcomSgVmap_outcome : wp mapsKernel .any (qcomSgVmap b)
    (fun trace result s' => VmapOutcome b s (mapActs trace) result s') s := by
  refine maps_idle (fun _ => rfl) fun _ => ?_
  refine maps_read (s.sg.vmapCnt b) (fun _ _ => readVmapCnt_maps) ?_
  split
  · rename_i hcount
    refine maps_do rfl ?_
    refine maps_read (s.sg.vaddr b) (fun _ _ => readVaddr_maps) ?_
    exact maps_idle (fun _ => rfl) fun _ => wp_pure.mpr (.again hcount)
  · rename_i hcount
    rw [not_not] at hcount
    rw [wp_bind]
    refine wp_mono qcomSgDoVmap_outcome ?_
    intro trace result s' h
    generalize hacts : mapActs trace = acts at h
    cases h with
    | failed =>
        refine maps_idle (fun _ => rfl) fun _ => wp_pure.mpr ?_
        simp only [Post.after_apply, mapActs_append, hacts]
        exact .failed hcount
    | made hvaddr =>
        refine maps_do rfl (maps_do rfl (maps_idle (fun _ => rfl) fun _ => wp_pure.mpr ?_))
        simp only [Post.after_apply, mapActs_append, hacts]
        exact .first hcount hvaddr

theorem qcomSgVunmap_outcome : wp mapsKernel .any (qcomSgVunmap b)
    (fun trace _ s' => VunmapOutcome b s (mapActs trace) s') s := by
  refine maps_idle (fun _ => rfl) fun _ => ?_
  refine maps_read (s.sg.vmapCnt b) (fun _ _ => readVmapCnt_maps) (maps_do rfl ?_)
  split
  · rename_i hcount
    refine maps_read (s.sg.vaddr b) (fun _ _ h => readVaddr_maps h) ?_
    cases hvaddr : s.sg.vaddr b with
    | none =>
        refine maps_do rfl (maps_do rfl (maps_idle (fun _ => rfl) fun _ => wp_pure.mpr ?_))
        exact .none hcount hvaddr
    | some vaddr =>
        refine maps_do rfl (maps_do rfl (maps_idle (fun _ => rfl) fun _ => wp_pure.mpr ?_))
        exact .last hcount hvaddr
  · rename_i hcount
    exact maps_idle (fun _ => rfl) fun _ => wp_pure.mpr (.kept hcount)

/-! ## Sequences of calls -/

/-- A call that has returned. -/
inductive VmapDone where
  | vmap (ret : Int) (map : Option U64)
  | vunmap
  deriving DecidableEq

/-- Whether the call is a `qcom_sg_vmap` that succeeded. -/
def VmapDone.succeeded : VmapDone → Bool
  | .vmap ret _ => ret == 0
  | .vunmap => false

/-- The successful `vmap`s minus the `vunmap`s. -/
def outstanding (done : List VmapDone) : Int :=
  (done.countP VmapDone.succeeded : Int) - (done.count .vunmap : Int)

/-- `VmapRun b s₀ done trace s`: the calls `done` on the buffer `b`, the latest first, lead from
`s₀` to `s`. -/
inductive VmapRun (b : Nat) (s₀ : KernelMaps) :
    List VmapDone → List (Event SgCall) → KernelMaps → Prop where
  | start : VmapRun b s₀ [] [] s₀
  | vmap {done : List VmapDone} {trace trace' : List (Event SgCall)} {s s' : KernelMaps} {ret : Int}
      {map : Option U64} (hrun : VmapRun b s₀ done trace s)
      (hexec : Exec mapsKernel (qcomSgVmap b) s trace' (some (ret, map)) s') :
      VmapRun b s₀ (.vmap ret map :: done) (trace ++ trace') s'
  | vunmap {done : List VmapDone} {trace trace' : List (Event SgCall)} {s s' : KernelMaps}
      (hrun : VmapRun b s₀ done trace s)
      (hexec : Exec mapsKernel (qcomSgVunmap b) s trace' (some ()) s') :
      VmapRun b s₀ (.vunmap :: done) (trace ++ trace') s'

/-- At no point there are more `vunmap`s than successful `vmap`s, or 2³¹ `vmap`s outstanding. -/
def Balanced (done : List VmapDone) : Prop :=
  ∀ past, past <:+ done → 0 ≤ outstanding past ∧ outstanding past < 2 ^ 31

/-- Each mapping that was made has been destroyed, once and before the next was made; only the last
one may be left, and is the present one. -/
def DestroyedOnce (acts : List MapAct) (present : Option U64) : Prop :=
  ∃ vaddrs : List U64,
    acts = (vaddrs.flatMap fun vaddr => [.made vaddr, .destroyed (some vaddr)]) ++
      present.toList.map .made

/-- What holds of the count, the address and the mappings after the calls `done`. -/
structure VmapCached (b : Nat) (done : List VmapDone) (acts : List MapAct) (s : KernelMaps) :
    Prop where
  count : s.sg.vmapCnt b = outstanding done
  live_iff : (∃ vaddr, s.sg.vaddr b = some vaddr ∧ vaddr ≠ 0 ∧ s.live vaddr = true) ↔
    0 < s.sg.vmapCnt b
  null_iff : s.sg.vaddr b = none ↔ ¬ 0 < s.sg.vmapCnt b
  once : DestroyedOnce acts (s.sg.vaddr b)

theorem outstanding_vmap {ret : Int} {map : Option U64} {done : List VmapDone} :
    outstanding (.vmap ret map :: done) = outstanding done + if ret = 0 then 1 else 0 := by
  unfold outstanding
  have hne : VmapDone.vmap ret map ≠ .vunmap := nofun
  by_cases hret : ret = 0
  · rw [List.countP_cons_of_pos (by simpa [VmapDone.succeeded] using hret),
      List.count_cons_of_ne hne, if_pos hret]
    omega
  · rw [List.countP_cons_of_neg (by simpa [VmapDone.succeeded] using hret),
      List.count_cons_of_ne hne, if_neg hret]
    omega

theorem outstanding_vunmap {done : List VmapDone} :
    outstanding (.vunmap :: done) = outstanding done - 1 := by
  unfold outstanding
  rw [List.countP_cons_of_neg (by decide), List.count_cons_self]
  omega

theorem Balanced.tail {call : VmapDone} {done : List VmapDone} (h : Balanced (call :: done)) :
    Balanced done :=
  fun past hpast => h past (hpast.trans (List.suffix_cons _ _))

theorem DestroyedOnce.made {acts : List MapAct} {vaddr : U64} (h : DestroyedOnce acts none) :
    DestroyedOnce (acts ++ [.made vaddr]) (some vaddr) := by
  obtain ⟨vaddrs, rfl⟩ := h
  exact ⟨vaddrs, by simp⟩

theorem DestroyedOnce.destroyed {acts : List MapAct} {vaddr : U64}
    (h : DestroyedOnce acts (some vaddr)) :
    DestroyedOnce (acts ++ [.destroyed (some vaddr)]) none := by
  obtain ⟨vaddrs, rfl⟩ := h
  exact ⟨vaddrs ++ [vaddr], by simp⟩

/-- The address is that of a live mapping. -/
def Designates (b : Nat) (s : KernelMaps) : Prop :=
  ∃ vaddr, s.sg.vaddr b = some vaddr ∧ vaddr ≠ 0 ∧ s.live vaddr = true

/-- What the calls keep: without users there is no address, and with users a mapping. -/
structure VmapInv (b : Nat) (done : List VmapDone) (acts : List MapAct) (s : KernelMaps) :
    Prop where
  count : s.sg.vmapCnt b = outstanding done
  unused : outstanding done = 0 → s.sg.vaddr b = none
  used : 0 < outstanding done → Designates b s
  once : DestroyedOnce acts (s.sg.vaddr b)

variable {done : List VmapDone} {acts acts' : List MapAct} {n : Int}

@[simp] theorem setCount_vmapCnt : (s.setCount b n).sg.vmapCnt b = n.bmod (2 ^ 32) := if_pos rfl

@[simp] theorem setVaddr_vaddr {vaddr : Option U64} : (s.setVaddr b vaddr).sg.vaddr b = vaddr :=
  if_pos rfl

/-- A count that fits in an `int` is stored as it is. -/
theorem bmod_count (h : 0 ≤ n) (h' : n < 2 ^ 31) : n.bmod (2 ^ 32) = n :=
  Int.bmod_eq_of_le (by omega) (by omega)

theorem VmapInv.vmap {ret : Int} {map : Option U64} (h : VmapInv b done acts s)
    (hbalanced : Balanced (.vmap ret map :: done))
    (hcall : VmapOutcome b s acts' (some (ret, map)) s') :
    VmapInv b (.vmap ret map :: done) (acts ++ acts') s' := by
  have hcount := h.count
  have hnonneg := (hbalanced.tail done List.suffix_rfl).1
  have hnext := (hbalanced _ List.suffix_rfl).2
  rw [outstanding_vmap] at hnext
  cases hcall with
  | again hne =>
      rw [if_pos rfl] at hnext
      have hout : outstanding (.vmap 0 (s.sg.vaddr b) :: done) = outstanding done + 1 := by
        rw [outstanding_vmap, if_pos rfl]
      refine ⟨?_, fun hzero => ?_, fun _ => ?_, ?_⟩
      · rw [setCount_vmapCnt, hcount, hout, bmod_count (by omega) (by omega)]
      · omega
      · exact h.used (by omega)
      · rw [List.append_nil]
        exact h.once
  | failed hzero =>
      have hout : outstanding (.vmap (-ENOMEM) none :: done) = outstanding done := by
        rw [outstanding_vmap, if_neg (by decide), Int.add_zero]
      rw [List.append_nil]
      exact ⟨hcount.trans hout.symm, fun _ => h.unused (by omega),
        fun _ => h.used (by omega), h.once⟩
  | @first vaddr hzero hvaddr =>
      rw [if_pos rfl] at hnext
      have hout : outstanding (.vmap 0 (some vaddr) :: done) = outstanding done + 1 := by
        rw [outstanding_vmap, if_pos rfl]
      have honce := h.once
      rw [h.unused (hcount.symm.trans hzero)] at honce
      refine ⟨?_, fun hzero => ?_, fun _ => ⟨vaddr, setVaddr_vaddr, hvaddr, ?_⟩, ?_⟩
      · rw [setCount_vmapCnt, hcount, hout, bmod_count (by omega) (by omega)]
      · omega
      · exact Function.update_self _ _ _
      · have hpresent : ((((s.setLive vaddr true).setVaddr b (some vaddr)).setCount b
            (s.sg.vmapCnt b + 1)).sg.vaddr b) = some vaddr := setVaddr_vaddr
        rw [hpresent]
        exact honce.made

theorem VmapInv.vunmap (h : VmapInv b done acts s) (hbalanced : Balanced (.vunmap :: done))
    (hcall : VunmapOutcome b s acts' s') : VmapInv b (.vunmap :: done) (acts ++ acts') s' := by
  have hcount := h.count
  have hprev := (hbalanced.tail done List.suffix_rfl).2
  have hnext := (hbalanced _ List.suffix_rfl).1
  have hout : outstanding (.vunmap :: done) = outstanding done - 1 := outstanding_vunmap
  rw [hout] at hnext
  have hstored : (s.sg.vmapCnt b - 1).bmod (2 ^ 32) = outstanding (.vunmap :: done) := by
    rw [hcount, hout, bmod_count (by omega) (by omega)]
  cases hcall with
  | kept hne =>
      refine ⟨setCount_vmapCnt.trans hstored, fun hzero => ?_, fun _ => ?_, ?_⟩
      · omega
      · exact h.used (by omega)
      · rw [List.append_nil]
        exact h.once
  | @last vaddr hlast hvaddr =>
      have honce := h.once
      rw [hvaddr] at honce
      refine ⟨setCount_vmapCnt.trans hstored, fun _ => setVaddr_vaddr, fun hpos => ?_, ?_⟩
      · omega
      · have hpresent : ((((s.setCount b (s.sg.vmapCnt b - 1)).setLive vaddr false).setVaddr b
            none).sg.vaddr b) = none := setVaddr_vaddr
        rw [hpresent]
        exact honce.destroyed
  | none hlast hvaddr =>
      obtain ⟨vaddr, hsome, _⟩ := h.used (by omega)
      rw [hvaddr] at hsome
      cases hsome

/-- The invariant holds after every sequence of calls. -/
theorem VmapRun.inv {s₀ : KernelMaps} (h : VmapRun b s₀ done trace s)
    (hcount : s₀.sg.vmapCnt b = 0) (hvaddr : s₀.sg.vaddr b = none) (hbalanced : Balanced done) :
    VmapInv b done (mapActs trace) s := by
  induction h with
  | start => exact ⟨hcount, fun _ => hvaddr, nofun, [], by rw [hvaddr]; rfl⟩
  | vmap _ hexec ih =>
      rw [mapActs_append]
      exact (ih hbalanced.tail).vmap hbalanced (wp_exec qcomSgVmap_outcome hexec)
  | vunmap _ hexec ih =>
      rw [mapActs_append]
      exact (ih hbalanced.tail).vunmap hbalanced (wp_exec qcomSgVunmap_outcome hexec)

theorem VmapInv.cached (h : VmapInv b done acts s) (hbalanced : Balanced done) :
    VmapCached b done acts s := by
  have hcount := h.count
  have hnonneg := (hbalanced done List.suffix_rfl).1
  have hunused : s.sg.vaddr b = none → ¬ Designates b s := by
    intro hnone ⟨vaddr, hsome, _⟩
    rw [hnone] at hsome
    cases hsome
  refine ⟨hcount, ⟨fun hlive => ?_, fun hpos => h.used (by omega)⟩,
    ⟨fun hnone => ?_, fun hzero => h.unused (by omega)⟩, h.once⟩
  · by_contra hzero
    exact hunused (h.unused (by omega)) hlive
  · intro hpos
    exact hunused hnone (h.used (by omega))

/-- In every sequence of calls that is balanced, from a buffer that is not mapped, the count is the
number of users and the address that of a live mapping as long as there are any; each mapping is
destroyed once. A `vmap` that finds the buffer mapped returns its address, and a `vmap` that fails
changes nothing. -/
theorem vmap_run_cached {s₀ : KernelMaps} (hcount : s₀.sg.vmapCnt b = 0)
    (hvaddr : s₀.sg.vaddr b = none) (hrun : VmapRun b s₀ done trace s)
    (hbalanced : Balanced done) :
    VmapCached b done (mapActs trace) s ∧
    ∀ trace' ret map s', Exec mapsKernel (qcomSgVmap b) s trace' (some (ret, map)) s' →
      (0 < s.sg.vmapCnt b → ret = 0 ∧ map = s.sg.vaddr b ∧ s'.sg.vaddr b = s.sg.vaddr b) ∧
      (ret ≠ 0 → s' = s) := by
  refine ⟨(hrun.inv hcount hvaddr hbalanced).cached hbalanced, ?_⟩
  intro trace' ret map s' hexec
  have hcall := wp_exec qcomSgVmap_outcome hexec
  generalize mapActs trace' = acts' at hcall
  cases hcall with
  | again _ => exact ⟨fun _ => ⟨rfl, rfl, rfl⟩, fun hne => absurd rfl hne⟩
  | failed hzero => exact ⟨fun hpos => by omega, fun _ => rfl⟩
  | first hzero _ => exact ⟨fun hpos => by omega, fun hne => absurd rfl hne⟩

/-- A buffer that is not mapped. -/
def unmapped : KernelMaps := ⟨.unattached (fun _ => 0) (fun _ => none), fun _ => false⟩

/-- Answers by which every allocation succeeds and the next mapping is at `vaddr`. -/
def mappingAt (vaddr : U64) : Chooser SgCall KernelMaps := fun _ request s =>
  match request with
  | .kzalloc | .vmalloc => some true
  | .sgAllocTable | .dmaMapSgtable _ _ _ => some 0
  | .kfree | .sgFreeTable | .mutexLock _ | .mutexUnlock _ | .listAdd _ | .listDel _
  | .writeMapped _ _ | .dmaUnmapSgtable _ _ _ | .dmaSyncSgtableForCpu _ _
  | .dmaSyncSgtableForDevice _ _ | .writeVmapCnt _ _ | .writeVaddr _ _
  | .invalidateKernelVmapRange _ | .flushKernelVmapRange _ | .vfree | .vunmap _ => some ()
  | .readAttachments _ => some []
  | .readMapped _ => some false
  | .readVmapCnt buffer => some (s.sg.vmapCnt buffer)
  | .readVaddr buffer => some (s.sg.vaddr buffer)
  | .vmap _ => some (some vaddr)

/-- The first user of a buffer. -/
theorem vmap_run_cached_first : ∃ trace s,
    VmapRun 0 unmapped [.vmap 0 (some 0x8000)] trace s ∧ s.sg.vaddr 0 = some 0x8000 ∧
    VmapCached 0 [.vmap 0 (some 0x8000)] (mapActs trace) s := by
  have hcheck : (qcomSgVmap 0).check mapsKernel (mappingAt 0x8000) unmapped
      (fun _ done s => done = (0, some 0x8000) && s.sg.vaddr 0 = some 0x8000) = true := by
    decide +kernel
  obtain ⟨trace, done, s, hexec, htest⟩ := Program.check_exec hcheck
  simp only [Bool.and_eq_true, decide_eq_true_eq] at htest
  obtain ⟨rfl, hvaddr⟩ := htest
  have hrun : VmapRun 0 unmapped [.vmap 0 (some 0x8000)] ([] ++ trace) s := .vmap .start hexec
  have hbalanced : Balanced [.vmap 0 (some 0x8000)] := by
    intro past hpast
    rcases List.suffix_cons_iff.mp hpast with rfl | hpast
    · decide
    · rw [List.suffix_nil.mp hpast]
      decide
  exact ⟨_, s, hrun, hvaddr, (vmap_run_cached rfl rfl hrun hbalanced).1⟩

end SafeLinux.SgOps
