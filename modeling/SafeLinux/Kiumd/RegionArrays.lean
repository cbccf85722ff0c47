import SafeLinux.Kiumd.Close
import SafeLinux.Kiumd.Holdings
import SafeLinux.Kiumd.Ioctl
import SafeLinux.Kiumd.ReservedMem

/-!
# The array of reserved regions

`kiumd_vfio_ctx_init` stores an array and a count in the context, and `kiumd_close` frees the array.
`InitOutcome` lists what one call of `kiumd_vfio_ctx_init` can do. A run of such calls owns its
array and counts no more regions than the array has, as long as no call replaces an array and none
fails after it has allocated one (`ctx_init_run_owns_arrays`); in such a run `kiumd_mmap` maps parts
of a counted region only (`mmap_stays_in_region`).
-/

namespace SafeLinux.Kiumd

open Effects
open Effects.Program (perform)

variable {b w w' : World} {c p : Nat} {trace past : List (Event KCall)} {count : Int}

/-! ## Events -/

/-- The array a call frees. -/
def KCall.arrayFreed : {β : Type} → KCall β → Option Nat
  | _, .kfreeResMem p => some p
  | _, _ => none

/-- The array a call allocates. -/
def KCall.arrayTaken : {β : Type} → KCall β → β → Option Nat
  | _, .kcallocResMem _, p => p
  | _, _, _ => none

/-- A call that asks for an array. -/
def KCall.asksArray : {β : Type} → KCall β → Bool
  | _, .kcallocResMem _ => true
  | _, _ => false

/-- The number of regions a call has read from the device tree. -/
def KCall.countRead : {β : Type} → KCall β → β → Option Int
  | _, .ofPropertyCountElems _, count => some count
  | _, _, _ => none

/-- The answers after which `kiumd_vfio_ctx_init` frees the array. -/
def KCall.regionFails : {β : Type} → KCall β → β → Bool
  | _, .ofAddressToResource _ _, region => region.isNone
  | _, .copyToUser _, copied => !copied
  | _, _, _ => false

/-- The page frames a call maps to user space: the first address, the first frame and the
length. -/
def KCall.remaps : {β : Type} → KCall β → Option (U64 × U64 × U64)
  | _, .remapPfnRange start pfn len => some (start, pfn, len)
  | _, _ => none

/-- The arrays some calls have allocated. -/
def arraysTaken (trace : List (Event KCall)) : Multiset Nat :=
  trace.filterMap fun e => e.call.arrayTaken e.answer

/-- The arrays some calls have freed. -/
def arraysFreed (trace : List (Event KCall)) : Multiset Nat :=
  trace.filterMap fun e => e.call.arrayFreed

theorem arraysTaken_append (past trace : List (Event KCall)) :
    arraysTaken (past ++ trace) = arraysTaken past + arraysTaken trace := by
  simp [arraysTaken, List.filterMap_append]

theorem arraysFreed_append (past trace : List (Event KCall)) :
    arraysFreed (past ++ trace) = arraysFreed past + arraysFreed trace := by
  simp [arraysFreed, List.filterMap_append]

/-! ## Calls that do not concern the arrays -/

/-- The calls that change no context and neither allocate, write nor free an array of regions. -/
def Aloof : (β : Type) → KCall β → Prop := fun β request =>
  Within [.held] β request ∧ request.arrayFreed = none ∧ request.asksArray = false

/-- The contexts and the arrays of `b` are still there. -/
structure SameRegions (b w : World) : Prop where
  ctxs : w.ctxs = b.ctxs
  resMems : w.resMems = b.resMems
  held : ∀ p, .resMem p ∈ b.held → .resMem p ∈ w.held

theorem SameRegions.refl (w : World) : SameRegions w w := ⟨rfl, rfl, fun _ h => h⟩

theorem aloof_step {β : Type} (request : KCall β) (answer : β) (w w' : World)
    (haloof : Aloof β request) (hstep : kernel.step request w answer = some w')
    (h : SameRegions b w) : SameRegions b w' := by
  have hctxs : w.Agrees w' .ctxs := within_agrees haloof.1 hstep (by simp)
  have hresMems : w.Agrees w' .resMems := within_agrees haloof.1 hstep (by simp)
  refine ⟨Eq.trans hctxs h.ctxs, Eq.trans hresMems h.resMems, ?_⟩
  intro p hp
  refine held_mem_step hstep ?_ nofun nofun (h.held p hp)
  intro hgiven
  cases request with
  | kfreeResMem q => cases haloof.2.1
  | _ => cases hgiven

theorem arraysTaken_aloof (h : Among Aloof trace) : arraysTaken trace = 0 := by
  have hnil : trace.filterMap (fun e => e.call.arrayTaken e.answer) = [] := by
    refine List.filterMap_eq_nil_iff.mpr fun e he => ?_
    obtain ⟨call, answer⟩ := e
    have hasks := (h _ he).2.2
    cases call with
    | kcallocResMem n => cases hasks
    | _ => rfl
  rw [arraysTaken, hnil]
  rfl

theorem arraysFreed_aloof (h : Among Aloof trace) : arraysFreed trace = 0 := by
  have hnil : trace.filterMap (fun e => e.call.arrayFreed) = [] :=
    List.filterMap_eq_nil_iff.mpr fun e he => (h e he).2.1
  rw [arraysFreed, hnil]
  rfl

theorem vfioDeviceOf_aloof (file : File) : (vfioDeviceOf file).Only Aloof := by
  refine .then ⟨rfl, rfl, rfl⟩ fun valid => ?_
  split
  · exact .then ⟨rfl, rfl, rfl⟩ fun _ => .pure _
  split
  · exact .then ⟨rfl, rfl, rfl⟩ fun _ => .pure _
  · exact .then ⟨rfl, rfl, rfl⟩ fun _ => .pure _

theorem kiumdGetVfioDevice_aloof (fd : Int) : (kiumdGetVfioDevice fd).Only Aloof := by
  unfold kiumdGetVfioDevice
  split
  · exact .pure _
  refine .then ⟨rfl, rfl, rfl⟩ fun file => ?_
  split
  · exact vfioDeviceOf_aloof _
  · exact .pure _

/-! ## One call of `kiumd_vfio_ctx_init` -/

/-- The calls allocate and free no array. -/
structure Still (trace : List (Event KCall)) : Prop where
  taken : arraysTaken trace = 0
  freed : arraysFreed trace = 0

/-- A step has failed after the allocation of the array. -/
def RegionFailed (trace : List (Event KCall)) : Prop :=
  ∃ e ∈ trace, e.call.regionFails e.answer = true

/-- The context `c` with a count and an array of reserved regions. -/
def World.withRegions (w : World) (c : Nat) (count : Int) (area : Option Nat) : World :=
  w.setCtx c fun k => { k with numReservedRegions := count, resMemArea := area }

/-- The array `p` is allocated and has `n` entries, and the contexts are `ctxs`. -/
structure ArrayAt (ctxs : Nat → KiumdCtx) (p n : Nat) (w : World) : Prop where
  ctxs : w.ctxs = ctxs
  held : .resMem p ∈ w.held
  length : (w.resMems p).length = n

/-- What `kiumd_vfio_ctx_init` can do once it has read the number of regions. -/
inductive CountedOutcome (b : World) (c : Nat) (count : Int) (trace : List (Event KCall))
    (w : World) : Prop where
  | uncounted (hcount : count ≤ 0)
      (same : SameRegions (b.withRegions c count (b.ctxs c).resMemArea) w) (still : Still trace)
  | unallocated (hasked : ∃ e ∈ trace, e.call.asksArray = true)
      (same : SameRegions (b.withRegions c count none) w) (still : Still trace)
  | allocated (p : Nat) (hcount : 0 < count) (hasked : ∃ e ∈ trace, e.call.asksArray = true)
      (array : ArrayAt (b.withRegions c count (some p)).ctxs p (count.toNat + 1) w)
      (taken : arraysTaken trace = {p}) (freed : arraysFreed trace = 0)
  | failed (h : RegionFailed trace)

/-- What one call of `kiumd_vfio_ctx_init` on the context `c` can do. -/
inductive InitOutcome (b : World) (c : Nat) (trace : List (Event KCall)) (w : World) : Prop where
  | refused (same : SameRegions b w) (still : Still trace)
  | counted (count : Int) (hread : ∃ e ∈ trace, e.call.countRead e.answer = some count)
      (outcome : CountedOutcome b c count trace w)

theorem Still.nil : Still [] := ⟨rfl, rfl⟩

theorem Still.append (hpast : Still past) (h : Still trace) : Still (past ++ trace) :=
  ⟨by rw [arraysTaken_append, hpast.taken, h.taken, add_zero],
    by rw [arraysFreed_append, hpast.freed, h.freed, add_zero]⟩

theorem Still.of_aloof (h : Among Aloof trace) : Still trace :=
  ⟨arraysTaken_aloof h, arraysFreed_aloof h⟩

/-- A call that neither asks for nor frees an array. -/
theorem Still.singleton {β : Type} {request : KCall β} {answer : β}
    (hfreed : request.arrayFreed = none) (hasks : request.asksArray = false) :
    Still [⟨request, answer⟩] := by
  refine ⟨?_, ?_⟩
  · cases request with
    | kcallocResMem n => cases hasks
    | _ => rfl
  · simp [arraysFreed, hfreed]

theorem RegionFailed.prepend (h : RegionFailed trace) (past : List (Event KCall)) :
    RegionFailed (past ++ trace) := by
  obtain ⟨e, he, hfails⟩ := h
  exact ⟨e, List.mem_append_right _ he, hfails⟩

theorem CountedOutcome.prepend (h : CountedOutcome b c count trace w) (hpast : Still past) :
    CountedOutcome b c count (past ++ trace) w := by
  cases h with
  | uncounted hcount same still => exact .uncounted hcount same (hpast.append still)
  | unallocated hasked same still =>
      obtain ⟨e, he, hasks⟩ := hasked
      exact .unallocated ⟨e, List.mem_append_right _ he, hasks⟩ same (hpast.append still)
  | allocated p hcount hasked array taken freed =>
      obtain ⟨e, he, hasks⟩ := hasked
      refine .allocated p hcount ⟨e, List.mem_append_right _ he, hasks⟩ array ?_ ?_
      · rw [arraysTaken_append, hpast.taken, taken, zero_add]
      · rw [arraysFreed_append, hpast.freed, freed, zero_add]
  | failed h => exact .failed (h.prepend past)

theorem InitOutcome.prepend (h : InitOutcome b c trace w) (hpast : Still past) :
    InitOutcome b c (past ++ trace) w := by
  cases h with
  | refused same still => exact .refused same (hpast.append still)
  | counted count hread outcome =>
      obtain ⟨e, he, hcount⟩ := hread
      exact .counted count ⟨e, List.mem_append_right _ he, hcount⟩ (outcome.prepend hpast)

/-- A postcondition that calls which allocate and free no array cannot make false. -/
def StableStill {α : Type} (Q : Post KCall World α) : Prop :=
  ∀ past trace result w, Still past → Q trace result w → Q (past ++ trace) result w

/-- The rule for a call that allocates and frees no array. -/
theorem wp_still {α β : Type} [Nonempty β] {Q : Post KCall World α} {request : KCall β}
    {rest : β → KProg α} (hQ : StableStill Q) (hfreed : request.arrayFreed = none)
    (hasks : request.asksArray = false)
    (hnext : ∀ answer w', kernelStep request w answer = some w' →
      wp kernel .any (rest answer) Q w') :
    wp kernel .any (perform request >>= rest) Q w := by
  refine wp_step ?_
  intro answer w' hstep
  exact wp_mono (hnext answer w' hstep) fun trace result w'' h =>
    hQ _ trace result w'' (.singleton hfreed hasks) h

/-- The postcondition of `kiumd_vfio_ctx_init`. -/
def Inits (b : World) (c : Nat) : Post KCall World Int := fun trace _ w => InitOutcome b c trace w

/-- The rule for a part of `kiumd_vfio_ctx_init` that does not concern the arrays. -/
theorem wp_aloof {β : Type} {p : KProg β} {rest : β → KProg Int} (hp : p.Only Aloof)
    (h : SameRegions b w)
    (hnext : ∀ value w', SameRegions b w' → wp kernel .any (rest value) (Inits b c) w') :
    wp kernel .any (p >>= rest) (Inits b c) w := by
  refine wp_only_then aloof_step (fun _ _ _ _ _ _ _ => trivial) hp h ?_ ?_
  · intro trace w' htrace h'
    exact .refused h' (.of_aloof htrace)
  · intro trace value w' htrace h'
    exact wp_mono (hnext value w' h') fun _ _ _ houtcome => houtcome.prepend (.of_aloof htrace)

/-- What follows the allocation of an array either fails or leaves the array in place. -/
def Fills {α : Type} (ctxs : Nat → KiumdCtx) (p n : Nat) (good : α → Prop) : Post KCall World α :=
  fun trace result w => RegionFailed trace ∨
    (Still trace ∧ ArrayAt ctxs p n w ∧ ∃ value, result = some value ∧ good value)

theorem Fills.stable {α : Type} {ctxs : Nat → KiumdCtx} {n : Nat} {good : α → Prop} :
    StableStill (Fills ctxs p n good) := by
  rintro past trace result w hpast (hfailed | ⟨hstill, hrest⟩)
  · exact .inl (hfailed.prepend past)
  · exact .inr ⟨hpast.append hstill, hrest⟩

/-- The loop over the regions keeps the array unless it fails. -/
theorem ctxInitRegions_fills {ctxs : Nat → KiumdCtx} {dev : Device} {n count index : Nat}
    {memInfo : List KiumdMemInfo} (h : ArrayAt ctxs p n w) :
    wp kernel .any (ctxInitRegions dev p count index memInfo)
      (Fills ctxs p n fun result => ∃ memInfo', result = .ok memInfo') w := by
  induction count generalizing index memInfo w with
  | zero => exact wp_pure.mpr (.inr ⟨.nil, h, _, rfl, _, rfl⟩)
  | succ count ih =>
      refine wp_still Fills.stable rfl rfl ?_
      intro node w₁ hstep
      cases node with
      | none =>
          cases hstep
          exact ih h
      | some node =>
          cases hstep
          have h₁ : ArrayAt ctxs p n (w.hold (.node node)) :=
            ⟨h.ctxs, Multiset.mem_cons_of_mem h.held, h.length⟩
          refine wp_step ?_
          intro region w₂ hstep
          cases hstep
          cases region with
          | none =>
              -- the array is freed, but the context still points to it
              exact wp_always fun trace _ _ => .inl ⟨_, List.mem_cons_self, rfl⟩
          | some region =>
              refine wp_mono ?_ fun trace result w' hfills =>
                Fills.stable _ trace result w' (.singleton rfl rfl) hfills
              refine wp_still Fills.stable rfl rfl ?_
              rintro ⟨⟩ w₃ hstep
              cases hstep
              have h₃ : ArrayAt ctxs p n ((w.hold (.node node)).release (.node node)) :=
                ⟨h₁.ctxs, (Multiset.mem_erase_of_ne (by simp)).mpr h₁.held, h₁.length⟩
              refine wp_still Fills.stable rfl rfl ?_
              rintro ⟨⟩ w₄ hstep
              cases hstep
              refine wp_still Fills.stable rfl rfl ?_
              rintro ⟨⟩ w₅ hstep
              cases hstep
              exact ih ⟨h₃.ctxs, h₃.held, by simpa using h₃.length⟩

/-- The end of `kiumd_vfio_ctx_init`, from the loop on. -/
theorem ctxInit_fills {ctxs : Nat → KiumdCtx} {dev : Device} {n index : Nat}
    {memInfo : List KiumdMemInfo} {reply : List KiumdMemInfo → UserStruct}
    (h : ArrayAt ctxs p n w) :
    wp kernel .any (do
      match ← ctxInitRegions dev p index 0 memInfo with
      | .error ret => return ret
      | .ok memInfo =>
          if ¬ (← perform (.copyToUser (reply memInfo))) then
            perform (.kfreeResMem p)
            return -EFAULT
          return 0)
      (Fills ctxs p n fun _ : Int => True) w := by
  rw [wp_bind]
  refine wp_mono (ctxInitRegions_fills h) ?_
  rintro past result w₁ (hfailed | ⟨hstill, h₁, _, rfl, memInfo', rfl⟩)
  · have hfails : ∀ trace : List (Event KCall), RegionFailed (past ++ trace) := by
      intro trace
      obtain ⟨e, he, hfails⟩ := hfailed
      exact ⟨e, List.mem_append_left _ he, hfails⟩
    cases result with
    | none => exact .inl hfailed
    | some value => exact wp_always fun trace _ _ => .inl (hfails trace)
  · refine wp_mono ?_ fun trace result w' hfills =>
      Fills.stable past trace result w' hstill hfills
    refine wp_step ?_
    intro copied w₂ hstep
    cases hstep
    cases copied with
    | false => exact wp_always fun trace _ _ => .inl ⟨_, List.mem_cons_self, rfl⟩
    | true => exact wp_pure.mpr (.inr ⟨.singleton rfl rfl, h₁, 0, rfl, trivial⟩)

/-- A new array is stored in the context. -/
theorem SameRegions.store {n : Nat} {area : Option Nat}
    (h : SameRegions (b.withRegions c count area) w) :
    ArrayAt (b.withRegions c count (some p)).ctxs p n
      ({ w.hold (.resMem p) with
        resMems := Function.update w.resMems p (List.replicate n {}) }.setCtx c
          fun k => { k with resMemArea := some p }) := by
  refine ⟨?_, Multiset.mem_cons_self _ _, by simp [World.setCtx]⟩
  simp [World.withRegions, World.setCtx, h.ctxs, World.hold]

theorem kiumdVfioCtxInit_inits {kiusr : KiumdDevMemInfo} :
    wp kernel .any (kiumdVfioCtxInit kiusr (some (some c))) (Inits w c) w := by
  have h := SameRegions.refl w
  refine wp_aloof (.perform ⟨rfl, rfl, rfl⟩) h ?_
  intro copied w₁ h₁
  split
  · exact wp_pure.mpr (.refused h₁ .nil)
  refine wp_aloof (kiumdGetVfioDevice_aloof _) h₁ ?_
  intro vfioDev w₂ h₂
  split
  swap
  · exact wp_pure.mpr (.refused h₂ .nil)
  split
  swap
  · exact wp_pure.mpr (.refused h₂ .nil)
  rename_i dev _
  refine wp_aloof (.perform ⟨rfl, rfl, rfl⟩) h₂ ?_
  intro node w₃ h₃
  split
  · exact wp_pure.mpr (.refused h₃ .nil)
  refine wp_step ?_
  intro count w₄ hstep
  cases hstep
  have hpost : ∀ trace (result : Option Int) w', CountedOutcome w c count trace w' →
      ((Inits w c).after [⟨.ofPropertyCountElems dev, count⟩]) trace result w' := by
    intro trace _ w' houtcome
    exact .counted count ⟨_, List.mem_cons_self, rfl⟩ (houtcome.prepend (.singleton rfl rfl))
  refine wp_mono ?_ hpost
  refine wp_step ?_
  rintro ⟨⟩ w₅ hstep
  cases hstep
  refine wp_mono ?_ fun trace _ w' houtcome =>
    CountedOutcome.prepend houtcome (Still.singleton rfl rfl)
  have h₅ : SameRegions (w.withRegions c count (w.ctxs c).resMemArea)
      (w₃.setCtx c fun k => { k with numReservedRegions := count }) := by
    refine ⟨?_, h₃.resMems, h₃.held⟩
    simp [World.withRegions, World.setCtx, h₃.ctxs]
  split
  · rename_i hcount
    exact wp_pure.mpr (.uncounted hcount h₅ .nil)
  rename_i hcount
  refine wp_step ?_
  intro area w₆ hstep
  cases area with
  | none =>
      cases hstep
      refine wp_step ?_
      rintro ⟨⟩ w₇ hstep
      cases hstep
      refine wp_pure.mpr (.unallocated ⟨_, List.mem_cons_self, rfl⟩ ?_ ⟨rfl, rfl⟩)
      refine ⟨?_, h₅.resMems, h₅.held⟩
      simp [World.withRegions, World.setCtx, h₃.ctxs]
  | some p =>
      simp only [kernelStep] at hstep
      split at hstep <;> cases hstep
      refine wp_step ?_
      rintro ⟨⟩ w₇ hstep
      cases hstep
      refine wp_mono (ctxInit_fills h₅.store) ?_
      rintro trace _ w' (hfailed | ⟨hstill, harray, -⟩)
      · exact .failed ((hfailed.prepend _).prepend _)
      · refine .allocated p (by omega) ⟨_, List.mem_cons_self, rfl⟩ harray ?_ ?_
        · simp only [arraysTaken_append, hstill.taken]
          rfl
        · simp only [arraysFreed_append, hstill.freed]
          rfl

/-! ## Runs -/

/-- An ioctl `KIUMD_VFIO_CTX_INIT` on the context `c`. -/
def ctxInitIoctl (c : Nat) (kiusr : KiumdDevMemInfo) : KProg Int :=
  kiumdVfioCtxInit kiusr (some (some c))

/-- All calls of the requests served so far. -/
def allCalls {ι : Type} (history : History ι KCall) : List (Event KCall) :=
  history.flatMap Prod.snd

/-- The pointer to the array is `NULL`, or the array is allocated and has more entries than regions
are counted. -/
def ArrayLive (w : World) (c : Nat) : Prop :=
  ∀ p, (w.ctxs c).resMemArea = some p →
    .resMem p ∈ w.held ∧ (w.ctxs c).numReservedRegions.toNat < (w.resMems p).length

/-- The array the context has to free. -/
def World.ownedArrays (w : World) (c : Nat) : Multiset Nat :=
  (w.ctxs c).resMemArea.elim 0 fun p => {p}

/-- A write past the end of the array `mem_info` of the ioctl. -/
def KCall.overruns : {β : Type} → KCall β → Bool
  | _, .writeMemInfo index _ => KIUMD_MAX_RESERVED_MEM_AREAS ≤ index
  | _, _ => false

/-- Nothing fails after an array has been allocated, and `mem_info` is not overrun. -/
def InitSound (trace : List (Event KCall)) : Prop :=
  ¬ RegionFailed trace ∧ ∀ e ∈ trace, e.call.overruns = false

/-- The call is sound and asks for an array only if the context has none. -/
def InitOnce (c : Nat) : Admission KiumdDevMemInfo KCall World := fun _ _ w trace =>
  InitSound trace ∧ ((∃ e ∈ trace, e.call.asksArray = true) → (w.ctxs c).resMemArea = none)

section

variable {area : Option Nat}

theorem withRegions_ctxs (b : World) (c : Nat) (count : Int) (area : Option Nat) :
    (b.withRegions c count area).ctxs c =
      { b.ctxs c with numReservedRegions := count, resMemArea := area } := by
  simp [World.withRegions]

theorem SameRegions.arrayLive (h : SameRegions (b.withRegions c count area) w)
    (harea : ∀ p, area = some p → .resMem p ∈ b.held ∧ count.toNat < (b.resMems p).length) :
    ArrayLive w c := by
  intro p hp
  rw [h.ctxs, withRegions_ctxs] at hp ⊢
  rw [h.resMems]
  exact ⟨h.held p (harea p hp).1, (harea p hp).2⟩

/-- What one call that does not fail late does to the array of the context. -/
theorem InitOutcome.arrayLive (h : InitOutcome b c trace w) (hlive : ArrayLive b c)
    (hfailed : ¬ RegionFailed trace) : ArrayLive w c := by
  cases h with
  | refused same _ =>
      intro p hp
      rw [same.ctxs] at hp ⊢
      rw [same.resMems]
      exact ⟨same.held p (hlive p hp).1, (hlive p hp).2⟩
  | counted count _ outcome =>
  cases outcome with
  | uncounted hcount same _ =>
      refine same.arrayLive fun p hp => ⟨(hlive p hp).1, ?_⟩
      have := (hlive p hp).2
      omega
  | unallocated _ same _ => exact same.arrayLive nofun
  | allocated p hcount _ array _ _ =>
      intro q hq
      rw [array.ctxs, withRegions_ctxs] at hq ⊢
      cases hq
      refine ⟨array.held, ?_⟩
      rw [array.length]
      exact Nat.lt_succ_self _
  | failed h => exact absurd h hfailed

/-- A call that does not replace an array accounts for what it allocates. -/
theorem InitOutcome.ownedArrays (h : InitOutcome b c trace w) (hfailed : ¬ RegionFailed trace)
    (honce : (∃ e ∈ trace, e.call.asksArray = true) → (b.ctxs c).resMemArea = none) :
    w.ownedArrays c + arraysFreed trace = b.ownedArrays c + arraysTaken trace := by
  have hcontext : ∀ count area, (b.withRegions c count area).ownedArrays c =
      area.elim 0 fun p => {p} := by
    intro count area
    rw [World.ownedArrays, withRegions_ctxs]
  cases h with
  | refused same still => rw [World.ownedArrays, same.ctxs, still.taken, still.freed]; rfl
  | counted count _ outcome =>
  cases outcome with
  | uncounted _ same still =>
      rw [World.ownedArrays, same.ctxs, withRegions_ctxs, still.taken, still.freed]
      rfl
  | unallocated hasked same still =>
      rw [World.ownedArrays, same.ctxs, withRegions_ctxs, still.taken, still.freed,
        World.ownedArrays, honce hasked]
  | allocated p _ hasked array taken freed =>
      rw [World.ownedArrays, array.ctxs, withRegions_ctxs, taken, freed, World.ownedArrays,
        honce hasked]
      rfl
  | failed h => exact absurd h hfailed

/-- No call changes the table or the handles of the context. -/
theorem InitOutcome.contents (h : InitOutcome b c trace w) (hfailed : ¬ RegionFailed trace) :
    (w.ctxs c).smmuTable = (b.ctxs c).smmuTable ∧ (w.ctxs c).kiumdXa = (b.ctxs c).kiumdXa := by
  cases h with
  | refused same _ => rw [same.ctxs]; exact ⟨rfl, rfl⟩
  | counted count _ outcome =>
  cases outcome with
  | uncounted _ same _ => rw [same.ctxs, withRegions_ctxs]; exact ⟨rfl, rfl⟩
  | unallocated _ same _ => rw [same.ctxs, withRegions_ctxs]; exact ⟨rfl, rfl⟩
  | allocated p _ _ array _ _ => rw [array.ctxs, withRegions_ctxs]; exact ⟨rfl, rfl⟩
  | failed h => exact absurd h hfailed

end

variable {w₀ : World} {history : History KiumdDevMemInfo KCall}

/-- Closing a context without entries and handles frees its array. -/
theorem kiumdClose_frees (htable : (w.ctxs c).smmuTable = []) (hxa : (w.ctxs c).kiumdXa = []) :
    wp kernel .any (kiumdClose (some c)) (fun trace result _ => result = some 0 ∧
      arraysTaken trace = 0 ∧ arraysFreed trace = w.ownedArrays c) w := by
  refine wp_step ?_
  intro entries w₁ hstep
  simp only [kernelStep, htable] at hstep
  split at hstep <;> cases hstep
  rename_i hperm
  obtain rfl := hperm.eq_nil
  refine wp_step ?_
  intro kictx w₂ hstep
  simp only [kernelStep] at hstep
  split at hstep <;> cases hstep
  rename_i hkictx
  subst hkictx
  have hxarray : closeXarray c (w.ctxs c).kiumdXa = pure () := by
    rw [hxa]
    rfl
  rw [hxarray]
  cases harea : (w.ctxs c).resMemArea with
  | none =>
      refine wp_step ?_
      rintro ⟨⟩ w₃ _
      refine wp_pure.mpr ⟨rfl, rfl, ?_⟩
      rw [World.ownedArrays, harea]
      rfl
  | some p =>
      refine wp_step ?_
      rintro ⟨⟩ w₃ _
      refine wp_step ?_
      rintro ⟨⟩ w₄ _
      refine wp_pure.mpr ⟨rfl, rfl, ?_⟩
      rw [World.ownedArrays, harea]
      rfl

/-- What holds in every state of a run of calls that replace no array and do not fail late. -/
structure OwnsArrays (c : Nat) (calls : List (Event KCall)) (w : World) : Prop where
  live : ArrayLive w c
  table : (w.ctxs c).smmuTable = []
  xa : (w.ctxs c).kiumdXa = []
  balance : w.ownedArrays c + arraysFreed calls = arraysTaken calls

theorem World.Fresh.resMemArea (h : w₀.Fresh) (c : Nat) : (w₀.ctxs c).resMemArea = none :=
  congrArg Prod.fst (h.rest_nil c)

theorem run_ownsArrays (hstart : w₀.Fresh)
    (hrun : Run kernel (ctxInitIoctl c) (InitOnce c) w₀ history w) :
    OwnsArrays c (allCalls history) w := by
  refine hrun.invariant (fun history w => OwnsArrays c (allCalls history) w) ?_ ?_
  · refine ⟨?_, hstart.table_nil c, congrArg Prod.snd (hstart.rest_nil c), ?_⟩
    · intro p hp
      rw [hstart.resMemArea c] at hp
      cases hp
    · rw [World.ownedArrays, hstart.resMemArea c]
      rfl
  · intro history kiusr w hinv
    refine wp_mono kiumdVfioCtxInit_inits ?_
    rintro trace _ w' houtcome ⟨⟨hfailed, _⟩, honce⟩
    obtain ⟨htable, hxa⟩ := houtcome.contents hfailed
    refine ⟨houtcome.arrayLive hinv.live hfailed, htable.trans hinv.table, hxa.trans hinv.xa, ?_⟩
    have hcalls : allCalls ((kiusr, trace) :: history) = trace ++ allCalls history := rfl
    rw [hcalls, arraysTaken_append, arraysFreed_append, ← add_assoc,
      houtcome.ownedArrays hfailed honce, add_right_comm, hinv.balance, add_comm]

/-- In a run of `KIUMD_VFIO_CTX_INIT` calls that replace no array and do not fail once they have
allocated one, the pointer is always `NULL` or names a live array that is large enough; and once
the context is closed every array has been freed exactly once. -/
theorem ctx_init_run_owns_arrays (hstart : w₀.Fresh)
    (hrun : Run kernel (ctxInitIoctl c) (InitOnce c) w₀ history w) :
    ArrayLive w c ∧ wp kernel .any (kiumdClose (some c)) (fun trace result _ => result = some 0 ∧
      arraysFreed (allCalls history ++ trace) = arraysTaken (allCalls history ++ trace)) w := by
  have hinv := run_ownsArrays hstart hrun
  refine ⟨hinv.live, wp_mono (kiumdClose_frees hinv.table hinv.xa) ?_⟩
  rintro trace result _ ⟨hresult, htaken, hfreed⟩
  refine ⟨hresult, ?_⟩
  rw [arraysTaken_append, arraysFreed_append, htaken, hfreed, add_zero, add_comm, hinv.balance]

/-- A request to initialise a context. -/
def plainMemInfo : KiumdDevMemInfo := ⟨3, 0, List.replicate KIUMD_MAX_RESERVED_MEM_AREAS ⟨0, 0⟩⟩

/-- A run that allocates an array. -/
theorem ctx_init_run_owns_arrays_once : ∃ (history : History KiumdDevMemInfo KCall) (w : World),
    (w.ctxs 0).resMemArea ≠ none ∧
    (ArrayLive w 0 ∧ wp kernel .any (kiumdClose (some 0)) (fun trace result _ => result = some 0 ∧
      arraysFreed (allCalls history ++ trace) = arraysTaken (allCalls history ++ trace)) w) := by
  have hcheck : (ctxInitIoctl 0 plainMemInfo).check kernel
      (Answers.plain fun _ _ => false).choose .initial
      (fun trace _ w => trace.all (fun e => !e.call.regionFails e.answer && !e.call.overruns) &&
        decide ((w.ctxs 0).resMemArea ≠ none)) = true := by
    decide +kernel
  obtain ⟨trace, value, w, hexec, htest⟩ := Program.check_exec hcheck
  rw [Bool.and_eq_true, decide_eq_true_eq, List.all_eq_true] at htest
  have honce : InitOnce 0 [] plainMemInfo .initial trace := by
    refine ⟨⟨?_, ?_⟩, fun _ => rfl⟩
    · rintro ⟨e, he, hfails⟩
      simpa [hfails] using htest.1 e he
    · intro e he
      have := htest.1 e he
      simp only [Bool.and_eq_true, Bool.not_eq_true'] at this
      exact this.2
  exact ⟨_, w, htest.2, ctx_init_run_owns_arrays fresh_initial
    (.request .start hexec honce)⟩

/-- A call that cannot copy its reply frees the array and leaves the context pointing to it. -/
theorem ctx_init_leaves_dangling_array : ∃ w₀ history w, World.Fresh w₀ ∧
    Run kernel (ctxInitIoctl 0) .any w₀ history w ∧ ¬ ArrayLive w 0 := by
  have hcheck : (ctxInitIoctl 0 plainMemInfo).check kernel
      (Answers.plain KCall.isCopyToUser).choose .initial
      (fun _ _ w => (w.ctxs 0).resMemArea.any fun p => decide (.resMem p ∉ w.held)) = true := by
    decide +kernel
  obtain ⟨trace, value, w, hexec, htest⟩ := Program.check_exec hcheck
  refine ⟨.initial, _, w, fresh_initial, .request .start hexec trivial, ?_⟩
  intro hlive
  cases harea : (w.ctxs 0).resMemArea with
  | none =>
      rw [harea] at htest
      cases htest
  | some p =>
      rw [harea] at htest
      exact absurd (hlive p harea).1 (of_decide_eq_true htest)

/-! ## Mapping a region -/

/-- The call is sound and reads a negative number of regions only while the context has no array. -/
def CountsRegions (c : Nat) : Admission KiumdDevMemInfo KCall World := fun _ _ w trace =>
  InitSound trace ∧ ∀ count < 0, (∃ e ∈ trace, e.call.countRead e.answer = some count) →
    (w.ctxs c).resMemArea = none

/-- A context with an array counts no negative number of regions. -/
def CountNonneg (w : World) (c : Nat) : Prop :=
  (w.ctxs c).resMemArea.isSome → 0 ≤ (w.ctxs c).numReservedRegions

/-- The pages from `pfn` on, `len` bytes long, lie in the region `index` that the context counts. -/
def MapsRegion (w : World) (c : Nat) (index pfn len : U64) : Prop :=
  ∃ p area, (w.ctxs c).resMemArea = some p ∧ .resMem p ∈ w.held ∧
    (index.toNat : Int) < (w.ctxs c).numReservedRegions ∧
    (w.resMems p)[index.toNat]? = some area ∧
    area.base.toNat ≤ pfn.toNat * 4096 ∧
    pfn.toNat * 4096 + len.toNat ≤ area.base.toNat + area.size.toNat

/-- The region a mapping asks for starts at a page and is long enough. -/
def FitsRegion (w : World) (c : Nat) (vma : VmAreaStruct) : Prop :=
  ∀ p area, (w.ctxs c).resMemArea = some p → (w.resMems p)[vma.vmPgoff.toNat]? = some area →
    area.base &&& 0xfff#64 = 0 ∧ vma.vmEnd - vma.vmStart ≤ area.size

theorem InitOutcome.countNonneg (h : InitOutcome b c trace w) (hcount : CountNonneg b c)
    (hfailed : ¬ RegionFailed trace)
    (hread : ∀ count < 0, (∃ e ∈ trace, e.call.countRead e.answer = some count) →
      (b.ctxs c).resMemArea = none) : CountNonneg w c := by
  unfold CountNonneg
  cases h with
  | refused same _ =>
      rw [same.ctxs]
      exact hcount
  | counted count hevent outcome =>
  cases outcome with
  | uncounted _ same _ =>
      rw [same.ctxs, withRegions_ctxs]
      intro hsome
      by_contra hneg
      have hnone := hread count (by simpa using hneg) hevent
      simp [hnone] at hsome
  | unallocated _ same _ =>
      rw [same.ctxs, withRegions_ctxs]
      intro hsome
      cases hsome
  | allocated p hpos _ array _ _ =>
      rw [array.ctxs, withRegions_ctxs]
      exact fun _ => le_of_lt hpos
  | failed h => exact absurd h hfailed

theorem run_countNonneg (hstart : w₀.Fresh)
    (hrun : Run kernel (ctxInitIoctl c) (CountsRegions c) w₀ history w) :
    ArrayLive w c ∧ CountNonneg w c := by
  refine hrun.invariant (fun _ w => ArrayLive w c ∧ CountNonneg w c) ?_ ?_
  · have hnone := hstart.resMemArea c
    refine ⟨fun p hp => ?_, fun hsome => ?_⟩
    · rw [hnone] at hp
      cases hp
    · rw [hnone] at hsome
      cases hsome
  · rintro history kiusr w ⟨hlive, hcount⟩
    refine wp_mono kiumdVfioCtxInit_inits ?_
    rintro trace _ w' houtcome ⟨⟨hfailed, _⟩, hread⟩
    exact ⟨houtcome.arrayLive hlive hfailed, houtcome.countNonneg hcount hfailed hread⟩

/-- A page-aligned address is that of its page. -/
theorem toNat_shiftRight_page {base : U64} (h : base &&& 0xfff#64 = 0) :
    (base >>> PAGE_SHIFT).toNat * 4096 = base.toNat := by
  have hmod : base.toNat % 2 ^ 12 = 0 := by
    have hand : (base &&& 0xfff#64).toNat = 0 := by rw [h]; rfl
    rw [BitVec.toNat_and] at hand
    rw [← Nat.and_two_pow_sub_one_eq_mod]
    exact hand
  rw [BitVec.toNat_ushiftRight, PAGE_SHIFT, Nat.shiftRight_eq_div_pow]
  omega

/-- `kiumd_mmap` on a context with a live array and a count that is not negative. -/
theorem kiumdMmap_maps {index₀ : U64} {vma : VmAreaStruct} (hlive : ArrayLive w c)
    (hcount : CountNonneg w c) (hfits : FitsRegion w c vma) :
    wp kernel (fun _ _ request _ => ∀ start pfn len,
        request.remaps = some (start, pfn, len) → MapsRegion w c vma.vmPgoff pfn len)
      (kiumdMmap index₀ vma (some (some c))) (fun _ _ _ => True) w := by
  refine wp_perform_bind.mpr ⟨fun _ _ _ h => (by cases h), fun _ => trivial, ?_⟩
  intro kictx w₁ hstep
  simp only [kernel, kernelStep] at hstep
  split at hstep <;> cases hstep
  rename_i hkictx
  subst hkictx
  split
  swap
  · exact wp_pure.mpr trivial
  rename_i p harea
  split
  · exact wp_pure.mpr trivial
  split
  · exact wp_pure.mpr trivial
  rename_i hindex
  refine wp_perform_bind.mpr ⟨fun _ _ _ h => (by cases h), fun _ => trivial, ?_⟩
  -- the entry at the indeterminate index decides nothing but whether the mapping is refused
  intro entry₀ w₂ hstep
  simp only [kernel, kernelStep] at hstep
  split at hstep <;> cases hstep
  split
  · exact wp_pure.mpr trivial
  refine wp_perform_bind.mpr ⟨fun _ _ _ h => (by cases h), fun _ => trivial, ?_⟩
  intro entry w₃ hstep
  simp only [kernel, kernelStep] at hstep
  split at hstep <;> cases hstep
  rename_i hread
  refine wp_perform.mpr ⟨?_, fun _ => trivial, fun _ _ _ => trivial⟩
  intro start pfn len hremaps
  cases hremaps
  obtain ⟨hheld, hlength⟩ := hlive p harea
  have hnonneg : 0 ≤ (w.ctxs c).numReservedRegions := hcount (by rw [harea]; rfl)
  have hlt : vma.vmPgoff.toNat < (w.ctxs c).numReservedRegions.toNat := by
    have hofInt : vma.vmPgoff.toNat < (BitVec.ofInt 64 (w.ctxs c).numReservedRegions).toNat :=
      BitVec.lt_def.mp (BitVec.not_le.mp hindex)
    rw [BitVec.toNat_ofInt] at hofInt
    omega
  obtain ⟨area, hentry⟩ : ∃ area, (w.resMems p)[vma.vmPgoff.toNat]? = some area :=
    ⟨_, List.getElem?_eq_getElem (by omega)⟩
  obtain rfl := hread hheld area hentry
  obtain ⟨hbase, hsize⟩ := hfits p entry harea hentry
  have hpage := toNat_shiftRight_page hbase
  refine ⟨p, entry, harea, hheld, by omega, hentry, le_of_eq hpage.symm, ?_⟩
  have : (vma.vmEnd - vma.vmStart).toNat ≤ entry.size.toNat := hsize
  omega

/-- After a run of `KIUMD_VFIO_CTX_INIT` calls that do not fail once they have allocated an array
and read a negative count only while there is no array, a mapping that fits its region lies in the
region that `vm_pgoff` names. -/
theorem mmap_stays_in_region {index₀ : U64} {vma : VmAreaStruct} {start pfn len : U64}
    (hstart : w₀.Fresh) (hrun : Run kernel (ctxInitIoctl c) (CountsRegions c) w₀ history w)
    (hfits : FitsRegion w c vma)
    (hpending : Pending kernel (kiumdMmap index₀ vma (some (some c))) w trace
      (.remapPfnRange start pfn len) w') : MapsRegion w c vma.vmPgoff pfn len := by
  obtain ⟨hlive, hcount⟩ := run_countNonneg hstart hrun
  exact wp_pending (kiumdMmap_maps hlive hcount hfits) hpending start pfn len rfl

/-- Whether a call maps a frame of a given number for a given length. -/
def remapsFrame (pfn len : U64) (e : Event KCall) : Bool :=
  e.call.remaps.any fun (_, pfn', len') => pfn' == pfn && len' == len

/-- A call that maps page frames is the last one that was pending. -/
theorem pending_of_remapsFrame {prog : KProg Int} {result : Option Int} {pfn len : U64}
    (hexec : Exec kernel prog w trace result w') (hmem : trace.any (remapsFrame pfn len) = true) :
    ∃ past start w', Pending kernel prog w past (.remapPfnRange start pfn len) w' := by
  obtain ⟨⟨call, answer⟩, he, hremaps⟩ := List.any_eq_true.mp hmem
  obtain ⟨before, after, rfl⟩ := List.append_of_mem he
  obtain ⟨w₁, hpending⟩ := hexec.pending
  cases call with
  | remapPfnRange start pfn' len' =>
      obtain ⟨rfl, rfl⟩ : pfn' = pfn ∧ len' = len := by
        simpa [remapsFrame, KCall.remaps] using hremaps
      exact ⟨before, start, w₁, hpending⟩
  | _ => cases hremaps

/-- Whether the first region of the context 0 is that of a device with one page of memory. -/
def hasPlainRegion (w : World) : Bool :=
  (w.ctxs 0).resMemArea.any fun p => (w.resMems p)[0]? == some ⟨0x1000, 0x8000⟩

theorem hasPlainRegion_entry {area : KiumdReservedMemArea} (h : hasPlainRegion w = true)
    (hp : (w.ctxs 0).resMemArea = some p) (harea : (w.resMems p)[(0 : U64).toNat]? = some area) :
    area = ⟨0x1000, 0x8000⟩ := by
  rw [hasPlainRegion, hp] at h
  have hentry : (w.resMems p)[(0 : U64).toNat]? = some ⟨0x1000, 0x8000⟩ := by simpa using h
  exact Option.some.inj (harea.symm.trans hentry)

/-- A run after which a page is mapped. -/
theorem mmap_stays_in_region_page :
    ∃ (w : World) (len : U64), len ≠ 0 ∧ MapsRegion w 0 0 8 len := by
  have hcheck : (ctxInitIoctl 0 plainMemInfo).check kernel
      (Answers.plain fun _ _ => false).choose .initial
      (fun trace _ w => trace.all (fun e => !e.call.regionFails e.answer && !e.call.overruns &&
          (e.call.countRead e.answer).all fun count => decide (0 ≤ count)) &&
        hasPlainRegion w &&
        (kiumdMmap 0 ⟨0, 0x1000, 0⟩ (some (some 0))).check kernel
          (Answers.plain fun _ _ => false).choose w
          (fun trace _ _ => trace.any (remapsFrame 8 0x1000))) = true := by
    decide +kernel
  obtain ⟨trace, value, w, hexec, htest⟩ := Program.check_exec hcheck
  rw [Bool.and_eq_true, Bool.and_eq_true, List.all_eq_true] at htest
  obtain ⟨⟨htrace, hregion⟩, hmap⟩ := htest
  obtain ⟨trace', value', w', hexec', hmem⟩ := Program.check_exec hmap
  obtain ⟨past, start, w'', hpending⟩ := pending_of_remapsFrame hexec' hmem
  have hcounts : CountsRegions 0 [] plainMemInfo .initial trace := by
    refine ⟨⟨?_, ?_⟩, fun _ _ _ => rfl⟩
    · rintro ⟨e, he, hfails⟩
      simpa [hfails] using htrace e he
    · intro e he
      have := htrace e he
      simp only [Bool.and_eq_true, Bool.not_eq_true'] at this
      exact this.1.2
  refine ⟨w, 0x1000, by decide, mmap_stays_in_region fresh_initial (.request .start hexec hcounts)
    ?_ hpending⟩
  intro p area hp harea
  obtain rfl := hasPlainRegion_entry hregion hp harea
  decide

/-- After an ordinary call for a region of one page, `kiumd_mmap` maps sixteen pages. -/
theorem mmap_leaves_region : ∃ w₀ history w past start w', World.Fresh w₀ ∧
    Run kernel (ctxInitIoctl 0) .any w₀ history w ∧
    Pending kernel (kiumdMmap 0 ⟨0, 0x10000, 0⟩ (some (some 0))) w past
      (.remapPfnRange start 8 0x10000) w' ∧ ¬ MapsRegion w 0 0 8 0x10000 := by
  have hcheck : (ctxInitIoctl 0 plainMemInfo).check kernel
      (Answers.plain fun _ _ => false).choose .initial
      (fun _ _ w => hasPlainRegion w &&
        (kiumdMmap 0 ⟨0, 0x10000, 0⟩ (some (some 0))).check kernel
          (Answers.plain fun _ _ => false).choose w
          (fun trace _ _ => trace.any (remapsFrame 8 0x10000))) = true := by
    decide +kernel
  obtain ⟨trace, value, w, hexec, htest⟩ := Program.check_exec hcheck
  rw [Bool.and_eq_true] at htest
  obtain ⟨trace', value', w', hexec', hmem⟩ := Program.check_exec htest.2
  obtain ⟨past, start, w'', hpending⟩ := pending_of_remapsFrame hexec' hmem
  refine ⟨.initial, _, w, past, start, w'', fresh_initial, .request .start hexec trivial,
    hpending, ?_⟩
  rintro ⟨p, area, hp, -, -, harea, -, hend⟩
  obtain rfl := hasPlainRegion_entry htest.1 hp harea
  revert hend
  decide

end SafeLinux.Kiumd
