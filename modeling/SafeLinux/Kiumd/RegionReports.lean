import SafeLinux.Kiumd.RegionArrays

/-!
# The reserved regions a context reports

A device-tree node with a `memory-region` property refers to nodes of one `reg` entry each.
`kiumd_vfio_ctx_init` asks the node of the `i`-th phandle for its `i`-th entry, and cuts the size of
a region to 32 bits. So it reports the regions of a device as they are, and succeeds when it should,
if there is one region below 4 GiB, or if there are several of which it need not report any
(`ctx_init_correct_iff`).
-/

namespace SafeLinux.Kiumd

open Effects
open Effects.Program (perform)

variable {b w w' : World} {c : Nat} {trace past : List (Event KCall)} {dev : Device}
  {kiusr : KiumdDevMemInfo}

/-! ## The device tree -/

/-- The `memory-region` property of a device: the nodes its phandles refer to, and the first and the
last address in the one `reg` entry of each node. -/
structure RegionTree where
  nodes : List Nat
  reg : Nat → U64 × U64

namespace RegionTree

/-- The number of phandles. -/
def count (tree : RegionTree) : Nat := tree.nodes.length

/-- The base of the region of a node. -/
def base (tree : RegionTree) (node : Nat) : U64 := (tree.reg node).1

/-- `resource_size` of the region of a node. -/
def size (tree : RegionTree) (node : Nat) : U64 := (tree.reg node).2 - (tree.reg node).1 + 1

/-- Whether the device tree answers a call so. -/
def answers (tree : RegionTree) : {β : Type} → KCall β → β → Bool
  | _, .ofPropertyCountElems _, count => count = (tree.count : Int)
  | _, .ofParsePhandle _ index, node => node = tree.nodes[index]?
  | _, .ofAddressToResource node index, region =>
      region = if index = 0 then some (tree.reg node) else none
  | _, _, _ => true

/-- The calls of a trace are answered from the device tree. -/
def Answers (tree : RegionTree) (trace : List (Event KCall)) : Prop :=
  ∀ e ∈ trace, tree.answers e.call e.answer = true

/-- All regions are below 4 GiB in size. -/
def Small (tree : RegionTree) : Prop := ∀ node ∈ tree.nodes, (tree.size node).toNat < 2 ^ 32

instance (tree : RegionTree) : Decidable tree.Small :=
  inferInstanceAs (Decidable (∀ node ∈ tree.nodes, (tree.size node).toNat < 2 ^ 32))

end RegionTree

/-! ## What is to be reported -/

/-- The index at which a call writes an array of reserved regions. -/
def KCall.areaWritten : {β : Type} → KCall β → Option Nat
  | _, .writeResMem _ index _ => some index
  | _, _ => none

/-- The reply that a call copies to user space. -/
def KCall.reports : {β : Type} → KCall β → Option KiumdDevMemInfo
  | _, .copyToUser (.memInfo reply) => some reply
  | _, _ => none

/-- Whether an allocation or a copy has failed. -/
def KCall.lacks : {β : Type} → KCall β → β → Bool
  | _, .kcallocResMem _, area => area.isNone
  | _, .copyFromUser _, copied => !copied
  | _, .copyToUser _, copied => !copied
  | _, _, _ => false

/-- Every index written is within its array. -/
def WritesWithin (tree : RegionTree) (trace : List (Event KCall)) : Prop :=
  ∀ e ∈ trace, e.call.overruns = false ∧ ∀ index ∈ e.call.areaWritten, index < tree.count + 1

/-- The regions of the device tree are reported to user space and recorded in the context. -/
structure ReportsRegions (tree : RegionTree) (c : Nat) (trace : List (Event KCall)) (w : World) :
    Prop where
  within : WritesWithin tree trace
  reply : ∃ e ∈ trace, ∃ reply : KiumdDevMemInfo, e.call.reports = some reply ∧
    reply.numRegions.toNat = tree.count ∧ ∀ (i node : Nat), tree.nodes[i]? = some node →
      ∃ info : KiumdMemInfo, reply.memInfo[i]? = some info ∧
        info.size.toNat = (tree.size node).toNat
  recorded : ∃ p, (w.ctxs c).resMemArea = some p ∧ .resMem p ∈ w.held ∧
    ∀ (i node : Nat), tree.nodes[i]? = some node →
      (w.resMems p)[i]? = some ⟨tree.size node, tree.base node⟩

/-- The device tree has been read and every allocation and copy has succeeded. -/
structure Undisturbed (tree : RegionTree) (trace : List (Event KCall)) : Prop where
  read : ∃ e ∈ trace, e.call.countRead e.answer = some (tree.count : Int)
  served : ∀ e ∈ trace, e.call.lacks e.answer = false

/-- `kiumd_vfio_ctx_init` reports the regions whenever it succeeds, and it succeeds for at most
`KIUMD_MAX_RESERVED_MEM_AREAS` regions below 4 GiB unless an allocation or a copy fails. -/
structure InitCorrect (tree : RegionTree) : Prop where
  reports : ∀ c kiusr w trace w', kiusr.memInfo.length = KIUMD_MAX_RESERVED_MEM_AREAS →
    Exec kernel (kiumdVfioCtxInit kiusr (some (some c))) w trace (some 0) w' → tree.Answers trace →
      ReportsRegions tree c trace w'
  succeeds : tree.count ≤ KIUMD_MAX_RESERVED_MEM_AREAS → tree.Small →
    ∀ c kiusr w trace result w', kiusr.memInfo.length = KIUMD_MAX_RESERVED_MEM_AREAS →
      Exec kernel (kiumdVfioCtxInit kiusr (some (some c))) w trace result w' →
      tree.Answers trace → Undisturbed tree trace → result = some 0

/-! ## Calls before the device tree is read -/

/-- The calls that neither concern the arrays nor read the number of regions. -/
def Reading : (β : Type) → KCall β → Prop := fun β request =>
  Aloof β request ∧ request.overruns = false ∧ request.areaWritten = none ∧
    ∀ answer, request.countRead answer = none

theorem vfioDeviceOf_reading (file : File) : (vfioDeviceOf file).Only Reading := by
  refine .then ⟨⟨rfl, rfl, rfl⟩, rfl, rfl, fun _ => rfl⟩ fun valid => ?_
  split
  · exact .then ⟨⟨rfl, rfl, rfl⟩, rfl, rfl, fun _ => rfl⟩ fun _ => .pure _
  split
  · exact .then ⟨⟨rfl, rfl, rfl⟩, rfl, rfl, fun _ => rfl⟩ fun _ => .pure _
  · exact .then ⟨⟨rfl, rfl, rfl⟩, rfl, rfl, fun _ => rfl⟩ fun _ => .pure _

theorem kiumdGetVfioDevice_reading (fd : Int) : (kiumdGetVfioDevice fd).Only Reading := by
  unfold kiumdGetVfioDevice
  split
  · exact .pure _
  refine .then ⟨⟨rfl, rfl, rfl⟩, rfl, rfl, fun _ => rfl⟩ fun file => ?_
  split
  · exact vfioDeviceOf_reading _
  · exact .pure _

theorem WritesWithin.of_reading {tree : RegionTree} (h : Among Reading trace) :
    WritesWithin tree trace := by
  intro e he
  obtain ⟨_, hoverruns, harea, _⟩ := h e he
  refine ⟨hoverruns, fun index hindex => ?_⟩
  rw [harea] at hindex
  cases hindex

theorem not_undisturbed_reading {tree : RegionTree} (h : Among Reading trace) :
    ¬ Undisturbed tree trace := by
  rintro ⟨⟨e, he, hread⟩, -⟩
  rw [(h e he).2.2.2] at hread
  cases hread

/-! ## Answers from the device tree -/

section

variable {α β : Type} {tree : RegionTree} {R : Post KCall World α}

/-- The condition holds if the device tree has answered the calls. -/
def Answered (tree : RegionTree) (R : Post KCall World α) : Post KCall World α :=
  fun trace result w => tree.Answers trace → R trace result w

/-- The rule for a call that the device tree may answer. -/
theorem wp_answered [Nonempty β] {request : KCall β} {rest : β → KProg α}
    (hnext : ∀ answer w', kernelStep request w answer = some w' →
      tree.answers request answer = true →
        wp kernel .any (rest answer) (Answered tree (R.after [⟨request, answer⟩])) w') :
    wp kernel .any (perform request >>= rest) (Answered tree R) w := by
  refine wp_step fun answer w' hstep => ?_
  by_cases hanswer : tree.answers request answer = true
  · refine wp_mono (hnext answer w' hstep hanswer) ?_
    intro trace result w'' h hanswers
    exact h fun e he => hanswers e (List.mem_append_right _ he)
  · exact wp_always fun trace _ _ hanswers => absurd (hanswers _ List.mem_cons_self) hanswer

/-- The calls before the device tree is read do not matter to the condition. -/
def ReadingStable (R : Post KCall World α) : Prop :=
  ∀ past trace result w, Among Reading past → R trace result w → R (past ++ trace) result w

/-- The rule for code that only makes calls before the device tree is read. -/
theorem wp_reading {p : KProg β} {rest : β → KProg α} (hR : ReadingStable R)
    (hp : p.Only Reading) (hnone : ∀ w', R [] none w')
    (hnext : ∀ value w', wp kernel .any (rest value) (Answered tree R) w') :
    wp kernel .any (p >>= rest) (Answered tree R) w := by
  refine wp_only_then (I := fun _ => True) (fun _ _ _ _ _ _ _ => trivial)
    (fun _ _ _ _ _ _ _ => trivial) hp trivial ?_ ?_
  · intro trace w' htrace _ _
    have h := hR trace [] none w' htrace (hnone w')
    rwa [List.append_nil] at h
  · intro past value w' hpast _
    refine wp_mono (hnext value w') ?_
    intro trace result w'' h hanswers
    exact hR past trace result w'' hpast
      (h fun e he => hanswers e (List.mem_append_right _ he))

/-- The rule for the part of `kiumd_vfio_ctx_init` before the device tree is read. -/
theorem wp_kiumdVfioCtxInit {R : Post KCall World Int} (hR : ReadingStable R)
    (hnone : ∀ w', R [] none w') (hrefused : ∀ w', R [] (some (-EINVAL)) w')
    (hnext : ∀ dev w', wp kernel .any (do
        let count ← perform (.ofPropertyCountElems dev)
        perform (.setNumReservedRegions c count)
        if count ≤ 0 then
          return -EINVAL
        let resMemArea ← perform (.kcallocResMem (count.toNat + 1))
        perform (.setResMemArea c resMemArea)
        let some area := resMemArea | return -EINVAL
        match ← ctxInitRegions dev area count.toNat 0 kiusr.memInfo with
        | .error ret => return ret
        | .ok memInfo =>
            if ¬ (← perform (.copyToUser (.memInfo
                { kiusr with numRegions := BitVec.ofInt 32 count, memInfo := memInfo }))) then
              perform (.kfreeResMem area)
              return -EFAULT
            return 0) (Answered tree R) w') :
    wp kernel .any (kiumdVfioCtxInit kiusr (some (some c))) (Answered tree R) w := by
  have hrefuse : ∀ w', wp kernel .any (pure (-EINVAL) : KProg Int) (Answered tree R) w' :=
    fun w' => wp_pure.mpr fun _ => hrefused w'
  refine wp_reading hR (.perform ⟨⟨rfl, rfl, rfl⟩, rfl, rfl, fun _ => rfl⟩) hnone ?_
  intro copied w₁
  split
  · exact hrefuse w₁
  refine wp_reading hR (kiumdGetVfioDevice_reading _) hnone ?_
  intro vfioDev w₂
  split
  swap
  · exact hrefuse w₂
  split
  swap
  · exact hrefuse w₂
  refine wp_reading hR (.perform ⟨⟨rfl, rfl, rfl⟩, rfl, rfl, fun _ => rfl⟩) hnone ?_
  intro node w₃
  split
  · exact hrefuse w₃
  · exact hnext _ w₃

end

/-! ## Several regions -/

section

variable {tree : RegionTree} {p : Nat}

/-- The loop over the regions fails at every index but the first. -/
theorem ctxInitRegions_fails {count index : Nat} {memInfo : List KiumdMemInfo}
    (hindex : 0 < index) (hlt : index < tree.count) :
    wp kernel .any (ctxInitRegions dev p (count + 1) index memInfo)
      (Answered tree fun _ result _ => result = some (.error (-EINVAL))) w := by
  refine wp_answered fun node w₁ _ hnode => ?_
  obtain rfl : node = tree.nodes[index]? := of_decide_eq_true hnode
  rw [List.getElem?_eq_getElem hlt]
  refine wp_answered fun region w₂ _ hregion => ?_
  obtain rfl : region = none := by simpa [RegionTree.answers, hindex.ne'] using hregion
  exact wp_answered fun _ w₃ _ _ => wp_answered fun _ w₄ _ _ => wp_pure.mpr fun _ => rfl

/-- The loop over several regions fails. -/
theorem ctxInitRegions_fails_several {memInfo : List KiumdMemInfo} (h : 2 ≤ tree.count) :
    wp kernel .any (ctxInitRegions dev p tree.count 0 memInfo)
      (Answered tree fun _ result _ => result = some (.error (-EINVAL))) w := by
  obtain ⟨rest, hrest⟩ : ∃ rest, tree.count = rest + 1 + 1 := ⟨tree.count - 2, by omega⟩
  rw [hrest]
  refine wp_answered fun node w₁ _ hnode => ?_
  cases node with
  | none =>
      exact ctxInitRegions_fails (by omega) (by omega)
  | some node =>
      refine wp_answered fun region w₂ _ _ => ?_
      cases region with
      | none =>
          exact wp_answered fun _ w₃ _ _ => wp_answered fun _ w₄ _ _ => wp_pure.mpr fun _ => rfl
      | some region =>
          refine wp_answered fun _ w₃ _ _ => wp_answered fun _ w₄ _ _ => ?_
          exact wp_answered fun _ w₅ _ _ => ctxInitRegions_fails (by omega) (by omega)

/-- With several regions `kiumd_vfio_ctx_init` never succeeds. -/
theorem ctx_init_several (h : 2 ≤ tree.count) :
    wp kernel .any (kiumdVfioCtxInit kiusr (some (some c)))
      (Answered tree fun _ result _ => result ≠ some 0) w := by
  have hrefused : (some (-EINVAL) : Option Int) ≠ some 0 := by decide
  refine wp_kiumdVfioCtxInit (fun _ _ _ _ _ hR => hR) (fun _ => nofun) (fun _ => hrefused) ?_
  intro dev w₁
  refine wp_answered fun count w₂ _ hcount => ?_
  obtain rfl : count = (tree.count : Int) := of_decide_eq_true hcount
  refine wp_answered fun _ w₃ _ _ => ?_
  rw [if_neg (by omega)]
  refine wp_answered fun area w₄ _ _ => wp_answered fun _ w₅ _ _ => ?_
  cases area with
  | none => exact wp_pure.mpr fun _ => hrefused
  | some area =>
      rw [wp_bind]
      refine wp_mono (ctxInitRegions_fails_several h) ?_
      intro trace result w₆ hfails
      cases result with
      | none => exact fun _ => nofun
      | some result =>
          by_cases hanswers : tree.Answers trace
          · cases hfails hanswers
            exact wp_pure.mpr fun _ => hrefused
          · refine wp_always fun trace' _ _ hall => absurd ?_ hanswers
            exact fun e he => hall e (List.mem_append_left _ he)

end

/-! ## One region -/

/-- `kiumd_vfio_ctx_init` reports the regions if it succeeds, and does so unless disturbed. -/
def Reports (tree : RegionTree) (c : Nat) : Post KCall World Int := fun trace result w =>
  (result = some 0 → ReportsRegions tree c trace w) ∧ (Undisturbed tree trace → result = some 0)

section

variable {tree : RegionTree} {p node : Nat}

theorem reports_readingStable : ReadingStable (Reports tree c) := by
  rintro past trace result w hpast ⟨hreports, hsucceeds⟩
  refine ⟨fun hzero => ?_, fun hundisturbed => hsucceeds ⟨?_, ?_⟩⟩
  · obtain ⟨hwithin, ⟨e, he, hreply⟩, hrecorded⟩ := hreports hzero
    refine ⟨fun e he => ?_, ⟨e, List.mem_append_right _ he, hreply⟩, hrecorded⟩
    rcases List.mem_append.mp he with he | he
    · exact WritesWithin.of_reading hpast e he
    · exact hwithin e he
  · obtain ⟨e, he, hread⟩ := hundisturbed.read
    rcases List.mem_append.mp he with he | he
    · rw [(hpast e he).2.2.2] at hread
      cases hread
    · exact ⟨e, he, hread⟩
  · exact fun e he => hundisturbed.served e (List.mem_append_right _ he)

/-- A call that returns an error reports nothing; it must have been disturbed. -/
theorem reports_error {err : Int} (herr : err ≠ 0) (h : ¬ Undisturbed tree trace) :
    Reports tree c trace (some err) w :=
  ⟨fun hzero => absurd (Option.some.inj hzero) herr, fun hundisturbed => absurd hundisturbed h⟩

/-- A failed allocation or copy disturbs. -/
theorem not_undisturbed_of_lacks {e : Event KCall} (he : e ∈ trace)
    (hlacks : e.call.lacks e.answer = true) : ¬ Undisturbed tree trace := by
  intro hundisturbed
  rw [hundisturbed.served e he] at hlacks
  cases hlacks

/-- With one region below 4 GiB. -/
theorem ctx_init_one {reg : Nat → U64 × U64}
    (hsmall : (RegionTree.size ⟨[node], reg⟩ node).toNat < 2 ^ 32)
    (hlength : kiusr.memInfo.length = KIUMD_MAX_RESERVED_MEM_AREAS) :
    wp kernel .any (kiumdVfioCtxInit kiusr (some (some c)))
      (Answered ⟨[node], reg⟩ (Reports ⟨[node], reg⟩ c)) w := by
  refine wp_kiumdVfioCtxInit reports_readingStable ?_ ?_ ?_
  · exact fun _ => ⟨nofun, fun h => absurd h (not_undisturbed_reading .nil)⟩
  · exact fun _ => reports_error (by decide) (not_undisturbed_reading .nil)
  intro dev w₁
  refine wp_answered fun count w₂ hstep hcount => ?_
  cases hstep
  obtain rfl : count = 1 := of_decide_eq_true hcount
  refine wp_answered fun _ w₃ hstep _ => ?_
  cases hstep
  refine wp_answered fun area w₄ hstep _ => ?_
  cases area with
  | none =>
      refine wp_answered fun _ w₅ _ _ => wp_pure.mpr fun _ => ?_
      exact reports_error (by decide)
        (not_undisturbed_of_lacks (e := ⟨.kcallocResMem 2, none⟩) (by simp) rfl)
  | some p =>
  simp only [kernelStep] at hstep
  split at hstep <;> cases hstep
  refine wp_answered fun _ w₅ hstep _ => ?_
  cases hstep
  refine wp_answered fun found w₆ hstep hfound => ?_
  obtain rfl : found = some node := of_decide_eq_true hfound
  cases hstep
  refine wp_answered fun region w₇ hstep hregion => ?_
  obtain rfl : region = some (reg node) := of_decide_eq_true hregion
  cases hstep
  refine wp_answered fun _ w₈ hstep _ => ?_
  cases hstep
  refine wp_answered fun _ w₉ hstep _ => ?_
  cases hstep
  refine wp_answered fun _ w₁₀ hstep _ => ?_
  cases hstep
  refine wp_answered fun copied w₁₁ hstep _ => ?_
  cases hstep
  let reply : KiumdDevMemInfo := { kiusr with
    numRegions := BitVec.ofInt 32 1
    memInfo := kiusr.memInfo.set 0 ⟨0, ((reg node).2 - (reg node).1 + 1).setWidth 32⟩ }
  cases copied with
  | false =>
      refine wp_answered fun _ w₁₂ _ _ => wp_pure.mpr fun _ => reports_error (by decide) ?_
      exact not_undisturbed_of_lacks (e := ⟨.copyToUser (.memInfo reply), false⟩)
        (by simp [reply]) rfl
  | true =>
      refine wp_pure.mpr fun _ => ⟨fun _ => ⟨?_, ?_, ?_⟩, fun _ => rfl⟩
      · simp [WritesWithin, KCall.overruns, KCall.areaWritten, RegionTree.count,
          KIUMD_MAX_RESERVED_MEM_AREAS]
      · refine ⟨⟨.copyToUser (.memInfo reply), true⟩, by simp [reply], reply, rfl, rfl, ?_⟩
        rintro (_ | i) node' hnode'
        · cases hnode'
          have hlt : 0 < kiusr.memInfo.length := by rw [hlength]; decide
          refine ⟨_, List.getElem?_set_self hlt, ?_⟩
          exact (BitVec.toNat_setWidth _ _).trans (Nat.mod_eq_of_lt hsmall)
        · simp at hnode'
      · refine ⟨p, ?_, ?_, ?_⟩
        · simp [World.setCtx, World.hold, World.release]
        · simp [World.setCtx, World.hold, World.release]
        · rintro (_ | i) node' hnode'
          · cases hnode'
            simp [World.setCtx, World.hold, World.release, RegionTree.size, RegionTree.base]
          · simp at hnode'

end

/-! ## Executions -/

/-- A device. -/
def oneDevice : Device := ⟨0, 0⟩

/-- An open file of the device. -/
def oneFile : File := ⟨0, some (some ⟨0, some oneDevice⟩)⟩

/-- The calls of `kiumd_vfio_ctx_init` up to the loop over the regions. -/
def initCalls (count : Nat) : List (Event KCall) :=
  [⟨.copyFromUser (.memInfo plainMemInfo), true⟩, ⟨.fget 3, some oneFile⟩,
    ⟨.vfioFileIsValid oneFile, true⟩, ⟨.fput oneFile, ()⟩, ⟨.devOfNode oneDevice, true⟩,
    ⟨.ofPropertyCountElems oneDevice, (count : Int)⟩, ⟨.setNumReservedRegions 0 count, ()⟩,
    ⟨.kcallocResMem (count + 1), some 0⟩, ⟨.setResMemArea 0 (some 0), ()⟩]

/-- An execution up to the loop, from executions of the loop and of what follows it. -/
theorem init_exec {count : Nat} (hcount : 0 < count) {trace trace' : List (Event KCall)}
    {found : Except Int (List KiumdMemInfo)} {ret : Int}
    (hloop : ∀ w, ∃ w', Exec kernel
      (ctxInitRegions oneDevice 0 count 0 plainMemInfo.memInfo) w trace (some found) w')
    (hrest : ∀ w, ∃ w', Exec kernel (match found with
      | .error ret => (return ret : KProg Int)
      | .ok memInfo => do
          if ¬ (← perform (.copyToUser (.memInfo
              { plainMemInfo with numRegions := BitVec.ofInt 32 count, memInfo := memInfo }))) then
            perform (.kfreeResMem 0)
            return -EFAULT
          return 0) w trace' (some ret) w') :
    ∃ w', Exec kernel (kiumdVfioCtxInit plainMemInfo (some (some 0))) .initial
      (initCalls count ++ (trace ++ trace')) (some ret) w' := by
  let w₀ : World := ((World.initial.hold (.file oneFile)).release (.file oneFile)).setCtx 0
    fun k => { k with numReservedRegions := count }
  have hfresh : .resMem 0 ∉ w₀.held := by
    simp [w₀, World.hold, World.release, World.setCtx, World.initial]
  let w₁ : World := { w₀.hold (.resMem 0) with
    resMems := Function.update w₀.resMems 0 (List.replicate (count + 1) {}) }
  obtain ⟨w₂, hloop⟩ := hloop (w₁.setCtx 0 fun k => { k with resMemArea := some 0 })
  obtain ⟨w₃, hrest⟩ := hrest w₂
  refine ⟨w₃, .call rfl (.call rfl (.call rfl (.call rfl (.call rfl (.call rfl ?_)))))⟩
  refine .call rfl ?_
  rw [if_neg (by omega)]
  refine .call (show (if _ ∈ _ then none else _) = some w₁ from if_neg hfresh) (.call rfl ?_)
  exact hloop.bind hrest

section

variable {node node' : Nat} {rest : List Nat} {reg : Nat → U64 × U64}

/-- The calls of the loop for the region of a node, up to the next index. -/
def firstRegionCalls (reg : Nat → U64 × U64) (node : Nat) : List (Event KCall) :=
  [⟨.ofParsePhandle oneDevice 0, some node⟩, ⟨.ofAddressToResource node 0, some (reg node)⟩,
    ⟨.ofNodePut node, ()⟩,
    ⟨.writeResMem 0 0 ⟨(reg node).2 - (reg node).1 + 1, (reg node).1⟩, ()⟩,
    ⟨.writeMemInfo 0 ⟨0, ((reg node).2 - (reg node).1 + 1).setWidth 32⟩, ()⟩]

/-- The calls of the loop for the second region, which has no second `reg` entry. -/
def secondRegionCalls (node : Nat) : List (Event KCall) :=
  [⟨.ofParsePhandle oneDevice 1, some node⟩, ⟨.ofAddressToResource node 1, none⟩,
    ⟨.ofNodePut node, ()⟩, ⟨.kfreeResMem 0, ()⟩]

theorem answers_initCalls : RegionTree.Answers ⟨node :: rest, reg⟩
    (initCalls (node :: rest).length) := by
  simp [RegionTree.Answers, initCalls, RegionTree.answers, RegionTree.count]

theorem answers_firstRegionCalls : RegionTree.Answers ⟨node :: rest, reg⟩
    (firstRegionCalls reg node) := by
  simp [RegionTree.Answers, firstRegionCalls, RegionTree.answers]

theorem RegionTree.Answers.append {tree : RegionTree} (hpast : tree.Answers past)
    (h : tree.Answers trace) : tree.Answers (past ++ trace) :=
  List.forall_mem_append.mpr ⟨hpast, h⟩

/-- With several regions the call fails though nothing disturbs it. -/
theorem ctx_init_several_fails : ∃ trace w',
    Exec kernel (kiumdVfioCtxInit plainMemInfo (some (some 0))) .initial trace (some (-EINVAL)) w' ∧
      RegionTree.Answers ⟨node :: node' :: rest, reg⟩ trace ∧
      Undisturbed ⟨node :: node' :: rest, reg⟩ trace := by
  have hloop : ∀ w, ∃ w', Exec kernel
      (ctxInitRegions oneDevice 0 (node :: node' :: rest).length 0 plainMemInfo.memInfo) w
      (firstRegionCalls reg node ++ secondRegionCalls node') (some (.error (-EINVAL))) w' := by
    intro w
    exact ⟨_, .call rfl (.call rfl (.call rfl (.call rfl (.call rfl (.call rfl (.call rfl
      (.call rfl (.call rfl (.ret _ _)))))))))⟩
  obtain ⟨w', hexec⟩ := init_exec (Nat.succ_pos _) hloop fun w => ⟨w, .ret _ _⟩
  rw [List.append_nil] at hexec
  have hcount : (⟨.ofPropertyCountElems oneDevice, ((node :: node' :: rest).length : Int)⟩ :
      Event KCall) ∈ initCalls (node :: node' :: rest).length := by simp [initCalls]
  refine ⟨_, w', hexec, ?_, ⟨_, List.mem_append_left _ hcount, rfl⟩, ?_⟩
  · refine answers_initCalls.append (answers_firstRegionCalls.append ?_)
    simp [RegionTree.Answers, secondRegionCalls, RegionTree.answers]
  · simp [initCalls, firstRegionCalls, secondRegionCalls, KCall.lacks]

/-- The size of one region of 4 GiB or more is cut. -/
theorem ctx_init_one_cuts (hlarge : ¬ (RegionTree.size ⟨[node], reg⟩ node).toNat < 2 ^ 32) :
    ∃ trace w',
      Exec kernel (kiumdVfioCtxInit plainMemInfo (some (some 0))) .initial trace (some 0) w' ∧
        RegionTree.Answers ⟨[node], reg⟩ trace ∧ ¬ ReportsRegions ⟨[node], reg⟩ 0 trace w' := by
  let size : U32 := ((reg node).2 - (reg node).1 + 1).setWidth 32
  have hloop : ∀ w, ∃ w', Exec kernel
      (ctxInitRegions oneDevice 0 [node].length 0 plainMemInfo.memInfo) w
      (firstRegionCalls reg node) (some (.ok (plainMemInfo.memInfo.set 0 ⟨0, size⟩))) w' := by
    intro w
    exact ⟨_, .call rfl (.call rfl (.call rfl (.call rfl (.call rfl (.ret _ _)))))⟩
  obtain ⟨w', hexec⟩ := init_exec (Nat.succ_pos _) hloop fun w =>
    ⟨w, .call (show kernel.step (.copyToUser _) w true = some w from rfl) (.ret _ _)⟩
  refine ⟨_, w', hexec, ?_, ?_⟩
  · refine answers_initCalls.append (answers_firstRegionCalls.append ?_)
    simp [RegionTree.Answers, RegionTree.answers]
  · intro hreports
    obtain ⟨e, he, reply, hreply, -, hinfo⟩ := hreports.reply
    obtain ⟨info, hget, hsize⟩ := hinfo 0 node rfl
    have hmem : reply.memInfo = plainMemInfo.memInfo.set 0 ⟨0, size⟩ := by
      simp only [initCalls, firstRegionCalls, List.cons_append, List.nil_append, List.mem_cons,
        List.not_mem_nil, or_false] at he
      rcases he with rfl | rfl | rfl | rfl | rfl | rfl | rfl | rfl | rfl | rfl | rfl | rfl | rfl |
        rfl | rfl <;> cases hreply
      rfl
    rw [hmem] at hget
    cases hget
    have hlt : size.toNat < 2 ^ 32 := size.isLt
    exact hlarge (hsize ▸ hlt)

end

/-- For every device tree with at least one phandle, `kiumd_vfio_ctx_init` reports the regions as
they are and succeeds when it should, if and only if there is one region below 4 GiB, or there are
several and they need not be reported: more than `KIUMD_MAX_RESERVED_MEM_AREAS`, or one that is not
below 4 GiB. -/
theorem ctx_init_correct_iff (tree : RegionTree) (hnodes : tree.nodes ≠ []) :
    InitCorrect tree ↔ (tree.count = 1 ∧ tree.Small) ∨
      (2 ≤ tree.count ∧ (KIUMD_MAX_RESERVED_MEM_AREAS < tree.count ∨ ¬ tree.Small)) := by
  obtain ⟨nodes, reg⟩ := tree
  match nodes with
  | [] => exact absurd rfl hnodes
  | [node] =>
      have hsmall : RegionTree.Small ⟨[node], reg⟩ ↔
          (RegionTree.size ⟨[node], reg⟩ node).toNat < 2 ^ 32 := by simp [RegionTree.Small]
      constructor
      · intro hcorrect
        refine .inl ⟨rfl, hsmall.mpr ?_⟩
        by_contra hlarge
        obtain ⟨trace, w', hexec, hanswers, hnot⟩ := ctx_init_one_cuts hlarge
        exact hnot (hcorrect.reports 0 _ _ _ _ rfl hexec hanswers)
      · rintro (⟨-, hlow⟩ | ⟨htwo, -⟩)
        · have hone := hsmall.mp hlow
          refine ⟨?_, ?_⟩
          · intro c kiusr w trace w' hlength hexec hanswers
            exact (wp_exec (ctx_init_one hone hlength) hexec hanswers).1 rfl
          · intro _ _ c kiusr w trace result w' hlength hexec hanswers hundisturbed
            exact (wp_exec (ctx_init_one hone hlength) hexec hanswers).2 hundisturbed
        · exact absurd htwo (by simp [RegionTree.count])
  | node :: node' :: rest =>
      have htwo : 2 ≤ RegionTree.count ⟨node :: node' :: rest, reg⟩ := by simp [RegionTree.count]
      constructor
      · intro hcorrect
        refine .inr ⟨htwo, ?_⟩
        by_contra hnot
        rw [not_or, not_not] at hnot
        obtain ⟨trace, w', hexec, hanswers, hundisturbed⟩ :=
          @ctx_init_several_fails node node' rest reg
        have hzero := hcorrect.succeeds (not_lt.mp hnot.1) hnot.2 0 _ _ _ _ _ rfl hexec hanswers
          hundisturbed
        exact absurd hzero (by decide)
      · rintro (⟨hone, -⟩ | ⟨-, hneed⟩)
        · rw [hone] at htwo
          exact absurd htwo (by decide)
        · refine ⟨?_, ?_⟩
          · intro c kiusr w trace w' _ hexec hanswers
            exact absurd rfl (wp_exec (ctx_init_several htwo) hexec hanswers)
          · intro hmax hlow
            rcases hneed with hmany | hlarge
            · exact absurd hmax (not_le.mpr hmany)
            · exact absurd hlow hlarge

/-- One region of a page. -/
theorem ctx_init_correct_iff_page : InitCorrect ⟨[0], fun _ => (0x8000, 0x8fff)⟩ :=
  (ctx_init_correct_iff _ (by decide)).mpr (.inl ⟨rfl, by decide⟩)

/-- Two regions of a page. -/
theorem not_ctx_init_correct : ¬ ∀ tree : RegionTree, tree.nodes ≠ [] → InitCorrect tree := by
  intro h
  obtain ⟨trace, w', hexec, hanswers, hundisturbed⟩ :=
    @ctx_init_several_fails 0 1 [] fun _ => (0x8000, 0x8fff)
  have hzero := (h _ (by decide)).succeeds (by decide) (by decide) 0 _ _ _ _ _ rfl hexec hanswers
    hundisturbed
  exact absurd hzero (by decide)

end SafeLinux.Kiumd
