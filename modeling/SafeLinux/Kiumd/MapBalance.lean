import SafeLinux.Kiumd.BufferShapes
import SafeLinux.Kiumd.Origins
import SafeLinux.Kiumd.Answers
import Mathlib.Data.Multiset.Count

/-!
# What MAP_BUF acquires and gives back

`MapBalanced` says of a call of `kiumd_dmabuf_vfio_map` that a failure leaves every resource as it
was and that a success adds exactly what the new mapping is made of. The function allocates an
entry before it reads the request and a second one before it publishes, and keeps only the second
pointer: `Gains` counts the entries an execution allocates, and the balance holds just where the
first allocation yields nothing.
-/

namespace SafeLinux.Kiumd

open Effects
open Effects.Program (perform)

/-! ## The balance -/

/-- Every resource is as before: what is held, the bits of the KGSL bitmaps, the tables with their
entries, and the mappings at IOVA zero. -/
structure MapUndone (w : World) (as : List Act) (w' : World) : Prop where
  held : w'.held = w.held
  bits : w'.kgsl.bits = w.kgsl.bits
  tables : ∀ c, (w'.ctxs c).smmuTable = (w.ctxs c).smmuTable
  entries : ∀ p, .smap p ∈ w.held → w'.smaps p = w.smaps p
  zero : zeroMapsOf as = zeroUnmapsOf as

/-- A clear range of one bitmap has been set. -/
def TakesRange (m : KgslMap) (k k' : KgslMaps) : Prop :=
  ∃ start nr, ZeroArea (k.bits m) KGSL_PT_MEM_PAGES nr start ∧
    k'.bits = (k.fill m start nr true).bits

/-- A reference, an attachment, a mapping and an entry have been added, with the range of the
bitmap and the mapping at IOVA zero that the request asks for. -/
structure MapAdded (u : KiumdUser) (c : Nat) (w : World) (as : List Act) (w' : World) : Prop where
  held : ∃ d a p, .smap p ∉ w.held ∧
    w'.held = .dmabuf d ::ₘ .attachment a ::ₘ .mapping a.dev a.table ::ₘ .smap p ::ₘ w.held ∧
    (w'.ctxs c).smmuTable = p :: (w.ctxs c).smmuTable ∧ (w'.smaps p).dmabufPtr = some d ∧
    (w'.smaps p).dmabufattach = some a
  tables : ∀ c' ≠ c, (w'.ctxs c').smmuTable = (w.ctxs c').smmuTable
  entries : ∀ p, .smap p ∈ w.held → w'.smaps p = w.smaps p
  bits : if IsKgsl u.ptselect then TakesRange (kgslMap u.ptselect) w.kgsl w'.kgsl
    else w'.kgsl.bits = w.kgsl.bits
  zero : (zeroMapsOf as).length = (zeroUnmapsOf as).length +
    if u.isIovaZero = FIXED_IOVA_AT_ZERO then 1 else 0

/-- A call for the file `fp` that fails has changed nothing, and one that succeeds has added the
mapping to the context of the file. -/
structure MapBalanced (u : KiumdUser) (fp : Option (Option Nat)) (w : World) (as : List Act)
    (ret : Int) (w' : World) : Prop where
  failure : ret < 0 → MapUndone w as w'
  success : ret = 0 → ∃ c, fp = some (some c) ∧ MapAdded u c w as w'

/-! ## The entries an execution allocates -/

/-- An allocation of an entry. -/
def Act.isAlloc : Act → Bool
  | .alloc _ => true
  | _ => false

/-- A release of an entry. -/
def Act.freesEntry : Act → Bool
  | .free _ | .delete _ _ | .deleteMmio _ _ => true
  | _ => false

/-- No entry is released; at least `failure` entries are allocated on a failure and at least
`success` on a success. -/
structure Gains (failure success : Nat) (as : List Act) (result : Option Int) : Prop where
  keeps : ∀ act ∈ as, act.freesEntry = false
  nonpos : ∀ ret ∈ result, ret ≤ 0
  failed : failure ≤ as.countP Act.isAlloc
  succeeded : result = some 0 → success ≤ as.countP Act.isAlloc

namespace Gains

variable {failure success : Nat} {as : List Act} {result : Option Int} {act : Act}

theorem refused {ret : Int} (hret : ret < 0) : Gains 0 success [] (some ret) where
  keeps := by simp
  nonpos := by
    rintro _ ⟨⟩
    exact hret.le
  failed := Nat.zero_le _
  succeeded h := absurd (Option.some.inj h) hret.ne

theorem halted : Gains 0 success [] none :=
  ⟨by simp, nofun, Nat.zero_le _, nofun⟩

theorem done : Gains 0 0 [] (some 0) where
  keeps := by simp
  nonpos := by
    rintro _ ⟨⟩
    exact le_rfl
  failed := le_rfl
  succeeded _ := le_rfl

theorem mono {failure' success' : Nat} (h : Gains failure success as result)
    (hfailure : failure' ≤ failure) (hsuccess : success' ≤ success) :
    Gains failure' success' as result :=
  { h with
    failed := hfailure.trans h.failed
    succeeded := fun hresult => hsuccess.trans (h.succeeded hresult) }

theorem cons (h : Gains failure success as result) (hact : act.freesEntry = false) :
    Gains failure success (act :: as) result where
  keeps := List.forall_mem_cons.mpr ⟨hact, h.keeps⟩
  nonpos := h.nonpos
  failed := h.failed.trans (by simp [List.countP_cons])
  succeeded hresult := (h.succeeded hresult).trans (by simp [List.countP_cons])

theorem alloc {p : Nat} (h : Gains failure success as result) :
    Gains (failure + 1) (success + 1) (.alloc p :: as) result where
  keeps := List.forall_mem_cons.mpr ⟨rfl, h.keeps⟩
  nonpos := h.nonpos
  failed := by
    rw [List.countP_cons_of_pos (l := as) (show Act.isAlloc (.alloc p) from rfl)]
    exact Nat.succ_le_succ h.failed
  succeeded hresult := by
    rw [List.countP_cons_of_pos (l := as) (show Act.isAlloc (.alloc p) from rfl)]
    exact Nat.succ_le_succ (h.succeeded hresult)

end Gains

variable {u : KiumdUser} {c : Nat} {v : VfioDevice} {d : DmaBuf} {a : Attachment} {file : File}
  {ret : Int} {failure success : Nat} {α β : Type} {request : KCall β} {rest : β → KProg Int}

/-- The rule for a call that allocates and releases no entry. -/
theorem gains_call [Nonempty β]
    (hidle : ∀ answer, ∀ act ∈ request.act answer, act.freesEntry = false)
    (hnext : ∀ answer, request.possible answer → Shows (rest answer) (Gains failure success)) :
    Shows (perform request >>= rest) (Gains failure success) := by
  refine shows_call fun answer hanswer => (hnext answer hanswer).mono fun acts result h => ?_
  cases hact : driver.view request answer with
  | none => exact h
  | some act => exact h.cons (hidle answer act hact)

/-- The code returns and releases no entry. -/
def KeepsEntries : Shape Act α := fun acts result =>
  result.isSome ∧ ∀ act ∈ acts, act.freesEntry = false

/-- The rule for code that releases no entry. -/
theorem gains_bind {p : KProg β} (h : Shows p KeepsEntries)
    (hnext : ∀ value, Shows (rest value) (Gains failure success)) :
    Shows (p >>= rest) (Gains failure success) := by
  refine shows_bind h ?_ fun acts hnone => by cases hnone.1
  intro acts value hkeeps
  refine (hnext value).mono fun acts' result hrest => ?_
  induction acts with
  | nil => exact hrest
  | cons act acts ih =>
      obtain ⟨hact, hacts⟩ := List.forall_mem_cons.mp hkeeps.2
      exact (ih ⟨hkeeps.1, hacts⟩).cons hact

theorem mapFailFput_gains (hret : ret < 0) : Shows (mapFailFput file ret) (Gains 0 success) :=
  mapFailFput_shows (.refused hret)

theorem mapFailPut_gains (hret : ret < 0) : Shows (mapFailPut file d ret) (Gains 0 success) :=
  gains_call (by rintro ⟨⟩ _ ⟨⟩; rfl) fun _ _ => mapFailFput_gains hret

theorem mapFailDetach_gains (hret : ret < 0) :
    Shows (mapFailDetach file d a ret) (Gains 0 success) :=
  gains_call (by rintro ⟨⟩ _ ⟨⟩; rfl) fun _ _ => mapFailPut_gains hret

theorem mapDmaAddr_keepsEntries {t : SgTable} : Shows (mapDmaAddr u t) KeepsEntries := by
  refine mapDmaAddr_shows.mono ?_
  rintro _ _ ⟨addr, rfl, hzero | hmapped⟩
  · exact ⟨rfl, by simp⟩
  · exact ⟨rfl, by simp [Act.freesEntry]⟩

theorem mangleForDebug_keepsEntries {t : SgTable} : Shows (mangleForDebug t) KeepsEntries := by
  refine mangleForDebug_shows.mono ?_
  rintro _ _ ⟨rfl, rfl⟩
  exact ⟨rfl, by simp⟩

theorem getMapOffset_keepsEntries {size : U64} {ptselect : Int} :
    Shows (getMapOffset size ptselect) KeepsEntries := by
  have hsearch : ∀ {act : Act}, act.isSearch → act.freesEntry = false := by
    intro act hact
    cases act <;> first | rfl | cases hact
  refine getMapOffset_shows.mono ?_
  rintro _ _ (⟨_, hsearches⟩ | ⟨hsearches, _, _⟩)
  · exact ⟨rfl, fun act hact => hsearch (hsearches act hact)⟩
  · refine ⟨rfl, List.forall_mem_append.mpr ⟨fun act hact => hsearch (hsearches act hact), ?_⟩⟩
    simp [reserveActs, Act.freesEntry]

theorem setMapIova_keepsEntries {offset : U64} {ptselect : Int} :
    Shows (setMapIova offset v ptselect) KeepsEntries := by
  refine setMapIova_shows.mono ?_
  rintro _ _ (_ | _)
  · exact ⟨rfl, by simp⟩
  · exact ⟨rfl, by simp [Act.freesEntry]⟩

theorem mapReply_gains {t : SgTable} {dir : Int} :
    Shows (mapReply u file d a t dir) (Gains 0 0) := by
  unfold mapReply
  refine gains_call (by rintro _ _ ⟨⟩; rfl) fun copied _ => ?_
  cases copied with
  | false =>
      refine gains_call (by rintro _ _ ⟨⟩; rfl) fun _ _ => ?_
      exact mapFailDetach_gains (by decide)
  | true => exact gains_call (by rintro _ _ ⟨⟩) fun _ _ => shows_pure .done

/-- A mapping is published with an entry allocated for it. -/
theorem mapPublish_gains {fp : Option (Option Nat)} {t : SgTable} {dir : Int} :
    Shows (mapPublish fp u file v d a t dir) (Gains 0 1) := by
  unfold mapPublish
  rcases fp with _ | _ | c
  · exact mapFailFput_gains (by decide)
  · exact mapFailFput_gains (by decide)
  refine shows_call fun p _ => ?_
  cases p with
  | none => exact mapFailFput_gains (by decide)
  | some p =>
      have hrest : ∀ id, Shows (mapDmaAddr u t >>= fun dmaAddr =>
          mapReply { u with id := id, dmaAddr := dmaAddr } file d a t dir) (Gains 0 0) :=
        fun id => gains_bind mapDmaAddr_keepsEntries fun _ => mapReply_gains
      refine Program.Shows.mono (gains_call (by rintro _ _ ⟨⟩; rfl) fun id _ => hrest id) ?_
      intro acts result h
      exact h.alloc.mono (Nat.zero_le _) le_rfl

theorem mapAttached_gains {fp : Option (Option Nat)} {dev : Device} :
    Shows (mapAttached fp u file v dev d a) (Gains 0 1) := by
  unfold mapAttached
  split
  · exact mapFailDetach_gains (by decide)
  dsimp only
  split
  · rcases a.priv with _ | _ | sgt
    · exact mapFailDetach_gains (by decide)
    · exact mapFailDetach_gains (by decide)
    refine gains_call ?_ fun ret hret => ?_
    · intro answer act hact
      simp only [KCall.act] at hact
      split at hact <;> cases hact
      rfl
    split
    · rename_i hne
      exact mapFailDetach_gains (lt_of_le_of_ne hret hne)
    · exact mapPublish_gains
  split
  · exact shows_pure (.refused (by decide))
  refine gains_call (by rintro (_ | _ | _) _ ⟨⟩; rfl) fun mapped hmapped => ?_
  cases mapped with
  | null => exact mapFailDetach_gains (by decide)
  | err e => exact mapFailDetach_gains hmapped
  | ptr sgt =>
      dsimp only
      split
      · refine gains_call (by rintro (_ | _) _ ⟨⟩) fun domain _ => ?_
        cases domain with
        | none => exact mapFailFput_gains (by decide)
        | some domain =>
            refine gains_bind mangleForDebug_keepsEntries fun _ => ?_
            refine gains_call (by rintro _ _ ⟨⟩; rfl) fun size _ => ?_
            rw [if_neg BitVec.not_lt_zero]
            exact mapPublish_gains
      · exact mapPublish_gains

theorem mapAttach_gains {fp : Option (Option Nat)} :
    Shows (mapAttach fp u file v d) (Gains 0 1) := by
  unfold mapAttach
  cases v.dev with
  | none => exact mapFailPut_gains (by decide)
  | some dev =>
      refine gains_call (by rintro (_ | _) _ ⟨⟩; rfl) fun attached hattached => ?_
      cases attached with
      | error e => exact mapFailPut_gains hattached
      | ok a => exact mapAttached_gains

/-! ## The whole function -/

/-- The first allocation of an execution yields no entry: the request is refused before it, or it
fails. -/
def FirstAllocFails (trace : List (Event KCall)) : Prop :=
  ∀ e ∈ trace.head?, e.call.act e.answer = none

instance (trace : List (Event KCall)) : Decidable (FirstAllocFails trace) :=
  inferInstanceAs (Decidable (∀ e ∈ trace.head?, _))

/-- Either the first allocation fails, or the entry it yields is never released. -/
theorem kiumdDmabufVfioMap_gains :
    Shows (kiumdDmabufVfioMap u (some (some c))) fun acts result =>
      (acts = [] ∧ result = some (-ENOMEM)) ∨ Gains 1 2 acts result := by
  unfold kiumdDmabufVfioMap
  refine shows_call fun scratch _ => ?_
  cases scratch with
  | none => exact shows_pure (.inl ⟨rfl, rfl⟩)
  | some scratch =>
  suffices h : Shows _ (Gains 0 1) from h.mono fun _ _ hgains => .inr hgains.alloc
  refine gains_call (by rintro _ _ ⟨⟩) fun copied _ => ?_
  split
  · exact shows_pure (.refused (by decide))
  split
  · exact shows_pure (.refused (by decide))
  refine gains_call (by rintro (_ | _) _ ⟨⟩; rfl) fun file _ => ?_
  cases file with
  | none => exact shows_pure (.refused (by decide))
  | some file =>
  dsimp only
  split
  · split
    · refine gains_call (by rintro (_ | _ | _) _ ⟨⟩; rfl) fun buffer hbuffer => ?_
      cases buffer with
      | null =>
          dsimp only
          split
          · exact mapFailFput_gains (by decide)
          · exact shows_halt .halted
      | err e =>
          dsimp only
          split
          · exact mapFailFput_gains hbuffer
          · exact shows_halt .halted
      | ptr d =>
          dsimp only
          split
          · refine gains_bind getMapOffset_keepsEntries fun offset => ?_
            split
            · exact mapFailPut_gains ‹_›
            refine gains_bind setMapIova_keepsEntries fun ret => ?_
            split
            · exact mapFailPut_gains ‹_›
            · exact mapAttach_gains
          · exact mapAttach_gains
    · exact mapFailFput_gains (by decide)
  · exact shows_halt .halted

/-! ## The entries the driver holds -/

/-- An entry on the heap. -/
def Resource.isSmap : Resource → Bool
  | .smap _ => true
  | _ => false

/-- The number of entries on the heap. -/
def World.entryCount (w : World) : Nat := w.held.countP fun r => r.isSmap

theorem entryCount_hold {w w' : World} {r : Resource} (hr : r.isSmap = false)
    (hheld : w'.held = r ::ₘ w.held) : w'.entryCount = w.entryCount := by
  rw [World.entryCount, hheld, Multiset.countP_cons_of_neg, World.entryCount]
  simp [hr]

theorem entryCount_erase {w w' : World} {r : Resource} (hr : r.isSmap = false)
    (hheld : w'.held = w.held.erase r) : w'.entryCount = w.entryCount := by
  by_cases hmem : r ∈ w.held
  · refine (entryCount_hold hr ?_).symm
    rw [hheld, Multiset.cons_erase hmem]
  · rw [World.entryCount, hheld, Multiset.erase_of_notMem hmem, World.entryCount]

variable {w w' : World} {answer : β}

/-- The action of a call that acquires an entry is its allocation. -/
theorem countP_isAlloc : (request.act answer).toList.countP Act.isAlloc =
    if (request.taken answer).any Resource.isSmap then 1 else 0 := by
  cases request with
  | dmaMapSgtable | dmaMapResource =>
      simp only [KCall.act, KCall.taken]
      split <;> rfl
  | _ => first | rfl | (cases answer <;> rfl)

/-- A call adds the entry it allocates. -/
theorem entryCount_step (hstep : kernelStep request w answer = some w')
    (hkeeps : ∀ act ∈ request.act answer, act.freesEntry = false) :
    w'.entryCount = w.entryCount + (request.act answer).toList.countP Act.isAlloc := by
  rw [countP_isAlloc]
  cases held_cases hstep with
  | same htaken _ hheld => rw [htaken, World.entryCount, hheld]; rfl
  | @taken r htaken _ hheld =>
      rw [htaken, World.entryCount, hheld, Multiset.countP_cons]
      rfl
  | @given r hgiven htaken hheld =>
      have hr : r.isSmap = false := by
        cases request <;> cases hgiven <;> first | rfl | cases hkeeps _ rfl
      rw [htaken]
      exact entryCount_erase hr hheld
  | deleted hdeletes _ =>
      cases request <;> cases hdeletes <;> cases hkeeps _ rfl

/-- A trace that releases no entry adds those it allocates. -/
theorem entryCount_steps {trace : List (Event KCall)} (h : Steps kernel w trace w')
    (hkeeps : ∀ act ∈ acts trace, act.freesEntry = false) :
    w'.entryCount = w.entryCount + (acts trace).countP Act.isAlloc := by
  induction h with
  | nil => rfl
  | @cons β request answer s s' s'' trace hstep _ ih =>
      rw [acts_cons] at hkeeps ⊢
      obtain ⟨hhead, htail⟩ := List.forall_mem_append.mp hkeeps
      rw [ih htail, List.countP_append, ← Nat.add_assoc]
      congr 1
      exact entryCount_step hstep fun act hact => hhead act (Option.mem_toList.mpr hact)

/-! ## When the balance holds -/

variable {fp : Option (Option Nat)} {trace : List (Event KCall)}

/-- A call whose first allocation yields nothing is refused and changes nothing. -/
theorem refused_of_firstAllocFails
    (hexec : Exec kernel (kiumdDmabufVfioMap u fp) w trace (some ret) w')
    (hfails : FirstAllocFails trace) : ret < 0 ∧ acts trace = [] ∧ w' = w := by
  rcases fp with _ | _ | c
  · cases hexec
    exact ⟨by decide, rfl, rfl⟩
  · cases hexec
    exact ⟨by decide, rfl, rfl⟩
  · cases hexec with
    | call hstep hrest =>
        rename_i answer
        cases answer with
        | none =>
            cases hstep
            cases hrest
            exact ⟨by decide, rfl, rfl⟩
        | some p => cases hfails _ rfl

/-- A call whose first allocation yields an entry belongs to a context. -/
theorem gains_of_firstAlloc
    (hexec : Exec kernel (kiumdDmabufVfioMap u fp) w trace (some ret) w')
    (hfirst : ¬ FirstAllocFails trace) : Gains 1 2 (acts trace) (some ret) := by
  rcases fp with _ | _ | c
  · cases hexec
    exact absurd (fun _ he => nomatch he) hfirst
  · cases hexec
    exact absurd (fun _ he => nomatch he) hfirst
  · refine (kiumdDmabufVfioMap_gains.exec driver_admits hexec).resolve_left ?_
    rintro ⟨hnone, -⟩
    refine hfirst fun e he => List.filterMap_eq_nil_iff.mp hnone e ?_
    exact List.mem_of_mem_head? he

/-- A balanced call has not made the first allocation: the entry is still on the heap. -/
theorem firstAllocFails_of_balanced
    (hexec : Exec kernel (kiumdDmabufVfioMap u fp) w trace (some ret) w')
    (hbalanced : MapBalanced u fp w (acts trace) ret w') : FirstAllocFails trace := by
  by_contra hfirst
  have hgains := gains_of_firstAlloc hexec hfirst
  have hcount := entryCount_steps hexec.steps hgains.keeps
  rcases (hgains.nonpos ret rfl).lt_or_eq with hneg | rfl
  · have hsame : w'.entryCount = w.entryCount := by
      rw [World.entryCount, (hbalanced.failure hneg).held, World.entryCount]
    have hone := hgains.failed
    omega
  · obtain ⟨_, _, hadded⟩ := hbalanced.success rfl
    obtain ⟨d, a, p, -, hheld, -⟩ := hadded.held
    have hmore : w'.entryCount = w.entryCount + 1 := by
      simp only [World.entryCount, hheld, Multiset.countP_cons]
      rfl
    have htwo := hgains.succeeded rfl
    omega

/-- A returning call of `kiumd_dmabuf_vfio_map` is balanced if and only if its first allocation
yields nothing. -/
theorem map_balanced_iff (u : KiumdUser) (fp : Option (Option Nat)) (w w' : World)
    (trace : List (Event KCall)) (ret : Int)
    (hexec : Exec kernel (kiumdDmabufVfioMap u fp) w trace (some ret) w') :
    MapBalanced u fp w (acts trace) ret w' ↔ FirstAllocFails trace := by
  refine ⟨firstAllocFails_of_balanced hexec, fun hfails => ?_⟩
  obtain ⟨hneg, has, rfl⟩ := refused_of_firstAllocFails hexec hfails
  rw [has]
  exact ⟨fun _ => ⟨rfl, rfl, fun _ => rfl, fun _ _ => rfl, rfl⟩,
    fun hzero => absurd hzero hneg.ne⟩

/-- A successful request, and one refused for want of memory. -/
theorem map_balanced_iff_plain :
    (∃ trace w', Exec kernel (kiumdDmabufVfioMap plainUser (some (some 0))) .initial trace
      (some 0) w' ∧
      (MapBalanced plainUser (some (some 0)) .initial (acts trace) 0 w' ↔
        FirstAllocFails trace)) ∧
    ∃ trace w', Exec kernel (kiumdDmabufVfioMap plainUser (some (some 0))) .initial trace
      (some (-ENOMEM)) w' ∧ MapBalanced plainUser (some (some 0)) .initial (acts trace)
        (-ENOMEM) w' := by
  refine ⟨?_, ?_⟩
  · have hcheck : (kiumdDmabufVfioMap plainUser (some (some 0))).check kernel
        (Answers.plain fun _ _ => false).choose .initial
        (fun _ result _ => decide (result = 0)) = true := by
      decide +kernel
    obtain ⟨trace, ret, w', hexec, htest⟩ := Program.check_exec hcheck
    obtain rfl := of_decide_eq_true htest
    exact ⟨trace, w', hexec, map_balanced_iff _ _ _ _ _ _ hexec⟩
  · have hexec : Exec kernel (kiumdDmabufVfioMap plainUser (some (some 0))) .initial
        [⟨.kzallocSmap, none⟩] (some (-ENOMEM)) .initial := .call rfl (.ret _ _)
    exact ⟨_, _, hexec, (map_balanced_iff _ _ _ _ _ _ hexec).mpr (by decide)⟩

/-- A successful request leaves the entry allocated first on the heap. -/
theorem not_map_balanced : ¬ ∀ u fp w trace ret w',
    Exec kernel (kiumdDmabufVfioMap u fp) w trace (some ret) w' →
      MapBalanced u fp w (acts trace) ret w' := by
  intro hall
  have hcheck : (kiumdDmabufVfioMap plainUser (some (some 0))).check kernel
      (Answers.plain fun _ _ => false).choose .initial
      (fun trace _ _ => !decide (FirstAllocFails trace)) = true := by
    decide +kernel
  obtain ⟨trace, ret, w', hexec, htest⟩ := Program.check_exec hcheck
  rw [Bool.not_eq_true', decide_eq_false_iff_not] at htest
  exact htest (firstAllocFails_of_balanced hexec (hall _ _ _ _ _ _ hexec))

end SafeLinux.Kiumd
