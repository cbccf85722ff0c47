import SafeLinux.Kiumd.CloseReversal
import SafeLinux.Kiumd.ConcurrentMaps
import SafeLinux.Kiumd.ConcurrentUnmaps
import SafeLinux.Kiumd.KgslRanges
import SafeLinux.Kiumd.Services

/-!
# Leases of the KGSL windows

A MAP_BUF for a KGSL window leases pages of it, and the lease is bound to the entry that the request
publishes. UNMAP_BUF ends the lease of the pages its arguments name; an entry that is deleted
otherwise, or a request that fails after the reservation, leaves a lease without an entry. In every
run of services of any number of files whose requests to unmap name the pages of the entry they
find, the bitmap of each window is tiled by the leases (`service_run_leases_tile`).
-/

namespace SafeLinux.Kiumd

open Effects

/-- A range of pages of a window. -/
structure PageRange where
  window : KgslMap
  first : Nat
  nr : Nat
  deriving DecidableEq

/-- The pages of a range. -/
def PageRange.pages (r : PageRange) : Set Nat := Set.Ico r.first (r.first + r.nr)

/-- The IOVA at which `set_map_iova` puts a range. -/
def PageRange.iova (r : PageRange) (ptselect : Int) : U64 :=
  mapIova (BitVec.ofInt 64 (r.first * 2 ^ PAGE_SHIFT : Nat)) ptselect

/-- The pages that a MAP_BUF has reserved, and the entry for them, by its context. -/
structure Lease where
  range : PageRange
  entry : Option (Nat × Nat)
  deriving DecidableEq

/-- A lease loses the entry that is deleted. -/
def Lease.orphan (k : Nat × Nat) (l : Lease) : Lease :=
  if l.entry = some k then { l with entry := none } else l

/-- The latest lease gets the entry that is published. -/
def bindFirst (k : Nat × Nat) : List Lease → List Lease
  | l :: L => { l with entry := some k } :: L
  | [] => []

/-- The leases after an action. -/
def Act.leases (L : List Lease) : Act → List Lease
  | .set m start nr => ⟨⟨m, start.toNat, nr.toNat⟩, none⟩ :: L
  | .clear m start nr => L.eraseP (·.range = ⟨m, start.toNat, nr.toNat⟩)
  | .add c p data _ => if IsKgsl data.ptselect then bindFirst (c, p) L else L
  | .delete c p | .deleteMmio c p | .unlink c p => L.map (Lease.orphan (c, p))
  | _ => L

/-- The leases after some actions. -/
def leasesAfter (as : List Act) (L : List Lease) : List Lease := as.foldl Act.leases L

/-- The leases after the services of a history. -/
def leases : History Service KCall → List Lease
  | [] => []
  | (_, trace) :: history => leasesAfter (acts trace) (leases history)

/-- The ranges after an action. -/
def Act.ranges (R : List PageRange) : Act → List PageRange
  | .set m start nr => ⟨m, start.toNat, nr.toNat⟩ :: R
  | .clear m start nr => R.erase ⟨m, start.toNat, nr.toNat⟩
  | _ => R

/-- A request to unmap pages of a window names a lease of the entry it finds, by the window and the
IOVA. -/
def NamesOwnLease : Admission Service KCall World := fun history s _ trace =>
  ∀ c u p, s = .ioctl ⟨c, .unmapBuf u⟩ → IsKgsl u.ptselect → .find c u.id (some p) ∈ acts trace →
    ∃ l ∈ leases history, l.entry = some (c, p) ∧ l.range.window = kgslMap u.ptselect ∧
      u.dmaAddr = l.range.iova u.ptselect

variable {as bs : List Act} {act : Act} {L : List Lease} {l : Lease} {c p : Nat}
  {w w' : World} {trace : List (Event KCall)}

@[simp] theorem leasesAfter_nil : leasesAfter [] L = L := rfl

@[simp] theorem leasesAfter_cons :
    leasesAfter (act :: as) L = leasesAfter as (act.leases L) := rfl

@[simp] theorem leasesAfter_append :
    leasesAfter (as ++ bs) L = leasesAfter bs (leasesAfter as L) :=
  List.foldl_append

@[simp] theorem Lease.orphan_range {k : Nat × Nat} : (l.orphan k).range = l.range := by
  unfold orphan
  split <;> rfl

/-! ## Ranges -/

theorem bindFirst_ranges {k : Nat × Nat} :
    (bindFirst k L).map Lease.range = L.map Lease.range := by
  cases L <;> rfl

/-- An action changes the ranges that are leased by its effect on the bitmaps. -/
theorem Act.leases_ranges :
    (act.leases L).map Lease.range = act.ranges (L.map Lease.range) := by
  have herase : ∀ r : PageRange,
      (L.eraseP (·.range = r)).map Lease.range = (L.map Lease.range).erase r := by
    intro r
    induction L with
    | nil => rfl
    | cons l L ih =>
        rw [List.map_cons, List.erase_cons, List.eraseP_cons]
        by_cases hl : l.range = r
        · simp [hl]
        · simp [hl, ih]
  have horphan : ∀ k : Nat × Nat,
      (L.map (Lease.orphan k)).map Lease.range = L.map Lease.range := by
    intro k
    rw [List.map_map]
    exact List.map_congr_left fun l _ => Lease.orphan_range
  cases act with
  | clear m start nr => exact herase _
  | add c p data id =>
      simp only [Act.leases, Act.ranges]
      split
      · exact bindFirst_ranges
      · rfl
  | delete c p | deleteMmio c p | unlink c p => exact horphan _
  | _ => rfl

/-! ## Entries -/

/-- The action binds the latest lease to an entry. -/
def Act.binds : Act → Bool
  | .add _ _ data _ => decide (IsKgsl data.ptselect)
  | _ => false

/-- The entry keeps its lease under an action that deletes another one. -/
theorem Lease.entry_orphan {k k' : Nat × Nat} (h : (l.orphan k).entry = some k') :
    l.entry = some k' ∧ k ≠ k' := by
  unfold orphan at h
  split at h
  · cases h
  · rename_i hne
    refine ⟨h, fun heq => hne ?_⟩
    rw [h, heq]

/-- Without a new entry, a lease with an entry was there before, and its entry is not deleted. -/
theorem entry_of_act (hbinds : act.binds = false) (hl : l ∈ act.leases L)
    (hentry : l.entry = some (c, p)) :
    (∃ l₀ ∈ L, l₀.entry = some (c, p) ∧ l₀.range = l.range) ∧ ¬ Deletes c p [act] := by
  have hkept : act.isDelete = false → l ∈ L →
      (∃ l₀ ∈ L, l₀.entry = some (c, p) ∧ l₀.range = l.range) ∧ ¬ Deletes c p [act] :=
    fun hdelete hmem => ⟨⟨l, hmem, hentry, rfl⟩,
      not_deletes (List.forall_mem_singleton.mpr hdelete)⟩
  have horphan : ∀ k, l ∈ L.map (Lease.orphan k) →
      (∃ l₀ ∈ L, l₀.entry = some (c, p) ∧ l₀.range = l.range) ∧ k ≠ (c, p) := by
    intro k hmem
    obtain ⟨l₀, hl₀, rfl⟩ := List.mem_map.mp hmem
    obtain ⟨hentry₀, hne⟩ := Lease.entry_orphan hentry
    exact ⟨⟨l₀, hl₀, hentry₀, Lease.orphan_range.symm⟩, hne⟩
  cases act with
  | set m start nr =>
      rcases List.mem_cons.mp hl with rfl | hmem
      · cases hentry
      · exact hkept rfl hmem
  | clear m start nr => exact hkept rfl (List.mem_of_mem_eraseP hl)
  | add c' p' data id =>
      have hspared : ¬ IsKgsl data.ptselect := of_decide_eq_false hbinds
      simp only [Act.leases, if_neg hspared] at hl
      exact hkept rfl hl
  | delete c' p' | deleteMmio c' p' | unlink c' p' =>
      obtain ⟨hold, hne⟩ := horphan _ hl
      refine ⟨hold, fun hdeletes => hne ?_⟩
      simpa [Deletes, eq_comm] using hdeletes
  | _ => exact hkept rfl hl

/-- The entries with a lease after an action that binds none. -/
theorem Act.leases_entries (hbinds : act.binds = false) :
    ((act.leases L).filterMap Lease.entry).Sublist (L.filterMap Lease.entry) := by
  have horphan : ∀ k, ((L.map (Lease.orphan k)).filterMap Lease.entry).Sublist
      (L.filterMap Lease.entry) := by
    intro k
    induction L with
    | nil => exact .slnil
    | cons l L ih =>
        rw [List.map_cons]
        unfold Lease.orphan
        split
        · rename_i hentry
          rw [List.filterMap_cons_none rfl, List.filterMap_cons_some hentry]
          exact ih.cons _
        · cases hentry : l.entry with
          | none => rwa [List.filterMap_cons_none hentry, List.filterMap_cons_none hentry]
          | some k' =>
              rw [List.filterMap_cons_some hentry, List.filterMap_cons_some hentry]
              exact ih.cons_cons k'
  cases act with
  | set m start nr => exact .refl _
  | clear m start nr => exact List.eraseP_sublist.filterMap _
  | add c' p' data id =>
      have hspared : ¬ IsKgsl data.ptselect := of_decide_eq_false hbinds
      simp only [Act.leases, if_neg hspared]
      exact .refl _
  | delete c' p' | deleteMmio c' p' | unlink c' p' => exact horphan _
  | _ => exact .refl _

/-- None of the actions binds a lease. -/
def BindsNone (as : List Act) : Prop := ∀ act ∈ as, act.binds = false

/-- Without a new entry, a lease with an entry was there before, and its entry is not deleted. -/
theorem entry_of_acts (hbinds : BindsNone as) (hl : l ∈ leasesAfter as L)
    (hentry : l.entry = some (c, p)) :
    (∃ l₀ ∈ L, l₀.entry = some (c, p) ∧ l₀.range = l.range) ∧ ¬ Deletes c p as := by
  induction as generalizing L with
  | nil => exact ⟨⟨l, hl, hentry, rfl⟩, not_deletes (by simp)⟩
  | cons act as ih =>
      obtain ⟨hfirst, hrest⟩ := List.forall_mem_cons.mp hbinds
      obtain ⟨⟨l₁, hl₁, hentry₁, hrange₁⟩, hkept⟩ := ih hrest hl
      obtain ⟨⟨l₀, hl₀, hentry₀, hrange₀⟩, hkept₀⟩ := entry_of_act hfirst hl₁ hentry₁
      refine ⟨⟨l₀, hl₀, hentry₀, hrange₀.trans hrange₁⟩, fun hdeletes => ?_⟩
      have happend : Deletes c p ([act] ++ as) := hdeletes
      exact (deletes_append.mp happend).elim hkept₀ hkept

theorem leasesAfter_entries (hbinds : BindsNone as) :
    ((leasesAfter as L).filterMap Lease.entry).Sublist (L.filterMap Lease.entry) := by
  induction as generalizing L with
  | nil => exact .refl _
  | cons act as ih =>
      obtain ⟨hfirst, hrest⟩ := List.forall_mem_cons.mp hbinds
      exact (ih hrest).trans (Act.leases_entries hfirst)

/-! ## The bitmaps and the tables -/

/-- None of the actions changes a bitmap. -/
def FillsNone (as : List Act) : Prop := ∀ act ∈ as, act.sets = none ∧ act.clears = false

variable {β : Type} {request : KCall β} {answer : β} {m : KgslMap}

/-- What is marked stays as long as no bits are set or cleared. -/
theorem marked_steps (h : Steps kernel w trace w') (hacts : FillsNone (acts trace)) :
    w'.kgsl.marked = w.kgsl.marked := by
  refine @Steps.keep _ _ kernel _ _ _ (fun s => s.kgsl.marked = w.kgsl.marked) h ?_ rfl
  intro e he s s' hstep hs
  have hfills : ∀ act ∈ e.call.act e.answer, act.sets = none ∧ act.clears = false :=
    fun act hact => hacts act (List.mem_filterMap.mpr ⟨e, he, hact⟩)
  have hsame : s'.kgsl.marked = s.kgsl.marked := by
    funext m
    refine marked_step hstep (fun act hact => ?_) fun act hact => (hfills act hact).2
    rw [(hfills act hact).1]
    exact nofun
  exact hsame.trans hs

/-- Clearing bits unmarks their pages. -/
theorem marked_clear_step {start nr : U32} (hstep : kernelStep request w answer = some w')
    (hact : request.act answer = some (.clear m start nr)) :
    w'.kgsl = w.kgsl.fill m start.toNat nr.toNat false := by
  cases event_of_act hact rfl
  cases hstep
  rfl

/-- An entry stays in its table until it is deleted. -/
theorem table_kept_step (hstep : kernelStep request w answer = some w') (hp : p ∈ w.table c)
    (hkept : ∀ act ∈ request.act answer, ¬ Deletes c p [act]) : p ∈ w'.table c := by
  have hset : ∀ (c' : Nat) (f : KiumdCtx → KiumdCtx),
      (c' = c → p ∈ (f (w.ctxs c)).smmuTable) → p ∈ (w.setCtx c' f).table c := by
    intro c' f hf
    by_cases hc : c' = c
    · subst hc
      show p ∈ ((w.setCtx c' f).ctxs c').smmuTable
      rw [World.setCtx_ctxs_self]
      exact hf rfl
    · have hother : (w.setCtx c' f).ctxs c = w.ctxs c := Function.update_of_ne (Ne.symm hc) _ _
      rwa [World.table, hother]
  have herase : ∀ c' p' : Nat, ¬ Deletes c p [Act.unlink c' p'] →
      p ∈ (w.setCtx c' fun k => { k with smmuTable := k.smmuTable.erase p' }).table c := by
    intro c' p' hnot
    refine hset c' _ fun hc => ?_
    have hne : p ≠ p' := by
      rintro rfl
      subst hc
      exact hnot (.inr (.inr List.mem_cons_self))
    exact (List.mem_erase_of_ne hne).mpr hp
  by_cases hwrites : Field.ctxs ∈ request.writes
  swap
  · have hctxs : w'.ctxs = w.ctxs := step_agrees hstep hwrites
    rwa [World.table, hctxs]
  cases request with
  | smmuAdd c' p' data | smmuAddMmio c' p' m mmio =>
      simp only [kernelStep] at hstep
      split at hstep <;> cases hstep
      exact hset c' (fun k => { k with id := k.id + 1, smmuTable := p' :: k.smmuTable })
        fun _ => List.mem_cons_of_mem _ hp
  | smmuDelMmio c' p' =>
      have hmem := herase c' p' fun hdeletes =>
        hkept _ rfl (by simpa [Deletes] using hdeletes)
      simp only [kernelStep] at hstep
      split at hstep <;> cases hstep <;> exact hmem
  | smmuDel c' p' =>
      have hmem := herase c' p' fun hdeletes =>
        hkept _ rfl (by simpa [Deletes] using hdeletes)
      cases hstep
      exact hmem
  | hashDel c' p' =>
      cases hstep
      exact herase _ _ (hkept _ rfl)
  | setNumReservedRegions | setResMemArea | xaDestroy =>
      cases hstep
      exact hset _ _ fun _ => hp
  | _ => simp [KCall.writes] at hwrites

theorem table_kept_steps (h : Steps kernel w trace w') (hp : p ∈ w.table c)
    (hkept : ¬ Deletes c p (acts trace)) : p ∈ w'.table c := by
  induction h with
  | nil => exact hp
  | @cons _ request answer _ _ _ trace hstep _ ih =>
      rw [acts_cons, deletes_append, not_or] at hkept
      refine ih (table_kept_step hstep hp fun act hact => ?_) hkept.2
      have hfirst : (request.act answer).toList = [act] := by
        rw [Option.mem_def.mp hact]
        rfl
      rw [hfirst] at hkept
      exact hkept.1

/-- An entry that is added stays unless it is deleted. -/
theorem added_mem_steps {before after : List Act} {data : SmmuMapData} {id : U32}
    (h : Steps kernel w trace w') (hacts : acts trace = before ++ .add c p data id :: after)
    (hkept : ¬ Deletes c p after) : p ∈ w'.table c := by
  obtain ⟨first, e, rest, rfl, -, hview, hrest⟩ := Observer.exists_event hacts
  obtain ⟨w₁, -, hsteps₂⟩ := steps_append_iff.mp h
  obtain ⟨w₂, hstep, hsteps₃⟩ := steps_cons_iff.mp hsteps₂
  have hdraws : (Act.add c p data id).draws c = some (p, id) := if_pos rfl
  have hadded : p ∈ w₂.table c := by
    rw [World.table, (draws_step hview hdraws hstep).2]
    exact List.mem_cons_self
  subst hrest
  exact table_kept_steps hsteps₃ hadded hkept

/-- An entry that is added has its data unless one is written. -/
theorem added_data_steps {before after : List Act} {data : SmmuMapData} {id : U32}
    (h : Steps kernel w trace w') (hacts : acts trace = before ++ .add c p data id :: after)
    (hspares : SparesEntries after) : w'.smaps p = { data with id := id } := by
  obtain ⟨first, e, rest, rfl, -, hview, hrest⟩ := Observer.exists_event hacts
  obtain ⟨w₁, -, hsteps₂⟩ := steps_append_iff.mp h
  obtain ⟨w₂, hstep, hsteps₃⟩ := steps_cons_iff.mp hsteps₂
  subst hrest
  rw [smaps_steps hsteps₃ hspares.not_writes]
  cases describes_step hstep hview (if_pos rfl) with
  | buffer hdata => exact hdata

/-- Actions that change no bitmap leave the ranges. -/
theorem FillsNone.ranges (h : FillsNone as) :
    (leasesAfter as L).map Lease.range = L.map Lease.range := by
  induction as generalizing L with
  | nil => rfl
  | cons act as ih =>
      obtain ⟨⟨hsets, hclears⟩, hrest⟩ := List.forall_mem_cons.mp h
      rw [leasesAfter_cons, ih hrest, Act.leases_ranges]
      cases act with
      | set => cases hsets
      | clear => cases hclears
      | _ => rfl

/-! ## Requests that reserve and release nothing -/

/-- The action changes no bitmap and publishes no entry for a KGSL window. -/
def Act.sparesLeases : Act → Bool
  | .set _ _ _ | .clear _ _ _ => false
  | .add _ _ data _ => decide (¬ IsKgsl data.ptselect)
  | _ => true

/-- No action changes the leases but by deleting entries. -/
def Unleased (as : List Act) : Prop := ∀ act ∈ as, act.sparesLeases = true

@[simp] theorem unleased_nil : Unleased [] := fun _ hact => absurd hact List.not_mem_nil

@[simp] theorem unleased_cons : Unleased (act :: as) ↔ act.sparesLeases = true ∧ Unleased as :=
  List.forall_mem_cons

@[simp] theorem unleased_append : Unleased (as ++ bs) ↔ Unleased as ∧ Unleased bs :=
  List.forall_mem_append

namespace Unleased

theorem bindsNone (h : Unleased as) : BindsNone as := by
  intro act hact
  have hspared := h act hact
  cases act with
  | add c p data id =>
      simpa [Act.sparesLeases, Act.binds] using hspared
  | _ => rfl

theorem fillsNone (h : Unleased as) : FillsNone as := by
  intro act hact
  have hspared := h act hact
  cases act with
  | set | clear => cases hspared
  | _ => exact ⟨rfl, rfl⟩

end Unleased

/-- The action changes no bitmap and no owner, and publishes no entry for a buffer. -/
def Act.isCalm : Act → Bool
  | .set _ _ _ | .clear _ _ _ | .add _ _ _ _ | .assign _ _ _ _ => false
  | _ => true

/-- All actions are calm. -/
def Calm (as : List Act) : Prop := ∀ act ∈ as, act.isCalm = true

@[simp] theorem calm_nil : Calm [] := fun _ hact => absurd hact List.not_mem_nil

@[simp] theorem calm_cons : Calm (act :: as) ↔ act.isCalm = true ∧ Calm as :=
  List.forall_mem_cons

@[simp] theorem calm_append : Calm (as ++ bs) ↔ Calm as ∧ Calm bs := List.forall_mem_append

theorem Calm.unleased (h : Calm as) : Unleased as := by
  intro act hact
  have hcalm := h act hact
  cases act <;> first | rfl | cases hcalm

theorem calm_of_isOpening (h : ∀ act ∈ as, act.isOpening) : Calm as := by
  intro act hact
  have hopening := h act hact
  cases act <;> first | rfl | cases hopening

theorem calm_of_isLooking (h : ∀ act ∈ as, act.isLooking) : Calm as := by
  intro act hact
  have hlooking := h act hact
  cases act <;> first | rfl | cases hlooking

theorem calm_of_isSearch (h : ∀ act ∈ as, act.isSearch) : Calm as := by
  intro act hact
  have hsearch := h act hact
  cases act <;> first | rfl | cases hsearch

theorem calm_of_isRest (h : ∀ act ∈ as, act.isRest) : Calm as := by
  intro act hact
  have hrest := h act hact
  cases act <;> first | rfl | cases hrest

section Shapes

variable {u : KiumdUser} {v : VfioDevice} {d : DmaBuf} {a : Attachment} {result : Option Int}
  {vmids perms : List Int} {page : U64}

theorem PageShape.unleased (h : PageShape vmids page as result) : Unleased as := by
  cases h <;> simp [Act.sparesLeases]

theorem AssignShape.unleased {src : U64} {dst : List QcomScmVmperm} {t : SgTable}
    (h : AssignShape src dst t as result) : Unleased as := by
  intro act hact
  have hassign := h.isSgAssign act hact
  cases act <;> first | rfl | cases hassign

theorem aclActs_calm {list index : Nat} {entries : List KiumdAclEntry} :
    Calm (aclActs list index entries) :=
  calm_of_isLooking fun act hact => Act.isLooking_of_isAcl (aclActs_isAcl act hact)

theorem openActs_calm {file : File} : Calm (openActs u p file d) := by
  simp [openActs, Act.isCalm]

theorem MapsBuffer.calm (h : MapsBuffer u a as) : Calm as := by
  cases h <;> simp [Act.isCalm]

theorem AddressShape.calm {t : SgTable} {addr : U64} (h : AddressShape u t as addr) :
    Calm as := by
  cases h <;> simp [Act.isCalm]

/-- An entry of SECURE_MAP is not one for a KGSL window. -/
theorem secureEntry_spared {id : U32} : (Act.add c p (secureEntry d a) id).sparesLeases = true := by
  have hspared : ¬ IsKgsl (secureEntry d a).ptselect := by
    simp [secureEntry, IsKgsl, KGSL_GLOBAL_PT, KGSL_PER_PROCESS_PT]
  simp [Act.sparesLeases, hspared]

theorem SecureMapShape.unleased (h : SecureMapShape u c as result) : Unleased as := by
  cases h with
  | early _ hlooking => exact (calm_of_isLooking hlooking).unleased
  | attached _ _ _ _ _ _ hattached =>
      simp only [unleased_cons, unleased_append, Act.sparesLeases, true_and]
      refine ⟨aclActs_calm.unleased, ?_⟩
      cases hattached with
      | refused _ hhanded =>
          refine unleased_append.mpr ⟨?_, by simp [Act.sparesLeases]⟩
          rcases hhanded with rfl | hhanded
          · exact unleased_nil
          · exact hhanded.unleased
      | unassigned hhanded _ hgiven =>
          refine unleased_append.mpr ⟨hhanded.unleased, unleased_append.mpr ⟨hgiven.unleased, ?_⟩⟩
          simp [unassignTableActs, unassignPage, Act.sparesLeases]
      | unmapped hhanded hgiven => exact unleased_append.mpr ⟨hhanded.unleased, hgiven.unleased⟩
      | mapped hhanded hgiven hpublish =>
          refine unleased_append.mpr ⟨hhanded.unleased, unleased_append.mpr ⟨hgiven.unleased, ?_⟩⟩
          refine unleased_cons.mpr ⟨rfl, ?_⟩
          cases hpublish with
          | unpublished _ => exact unleased_nil
          | stale _ hback =>
              simp only [unleased_cons, unleased_append, secureEntry_spared, true_and]
              exact ⟨rfl, rfl, rfl, rfl, hback.unleased,
                by simp [unassignTableActs, unassignPage, Act.sparesLeases]⟩
          | done =>
              simp only [unleased_cons, secureEntry_spared, true_and]
              exact ⟨rfl, rfl, rfl, unleased_nil⟩

theorem SecureUnmapShape.unleased (h : SecureUnmapShape u c as result) : Unleased as := by
  cases h with
  | early _ hlooking => exact (calm_of_isLooking hlooking).unleased
  | found _ _ _ _ _ _ _ _ hback =>
      simp only [unleased_cons, unleased_append, Act.sparesLeases, true_and]
      refine ⟨aclActs_calm.unleased, ?_⟩
      cases hback with
      | kept _ hback => exact hback.unleased
      | half _ hback _ hrest =>
          refine unleased_append.mpr ⟨hback.unleased, unleased_cons.mpr ⟨rfl, ?_⟩⟩
          rcases hrest with rfl | ⟨data, _, rfl⟩ <;> simp [Act.sparesLeases]
      | done hback _ =>
          exact unleased_append.mpr ⟨hback.unleased, by simp [unassignPage, Act.sparesLeases]⟩

end Shapes

section Mmio

variable {u : KiumdSmmuMmioMap} {ret₀ : Int} {result : Option Int}

theorem fixCookie_calm {dom : Domain} : Calm (fixCookie u dom) := by
  unfold fixCookie
  split <;> simp [Act.isCalm]

theorem freeCookie_calm {dom : Domain} : Calm (freeCookie u dom) := by
  unfold freeCookie
  split <;> simp [Act.isCalm]

theorem MmioMapShape.calm (h : MmioMapShape u c ret₀ as result) : Calm as := by
  cases h with
  | early _ hearly =>
      intro act hact
      rcases hearly act hact with hopening | ⟨p, rfl⟩
      · cases act <;> first | rfl | cases hopening
      · rfl
  | notPlatform => simp [Act.isCalm]
  | mapped _ _ hresource =>
      refine calm_cons.mpr ⟨rfl, calm_cons.mpr ⟨rfl, ?_⟩⟩
      cases hresource with
      | refused _ | retracted _ | done => simp [fixCookie_calm, freeCookie_calm, Act.isCalm]

theorem MmioUnmapShape.calm (h : MmioUnmapShape u c as result) : Calm as := by
  cases h with
  | early _ hearly =>
      intro act hact
      rcases hearly act hact with ⟨found, rfl⟩ | ⟨p, data, rfl⟩ <;> rfl
  | done _ _ => simp [Act.isCalm]

end Mmio

/-! ## Requests that reserve or release pages -/

/-- What MAP_BUF does after its reservation: it publishes no entry, or one for its buffer. -/
inductive Publishes (u : KiumdUser) (c : Nat) (d : DmaBuf) : List Act → Prop where
  | nothing {as : List Act} : Unleased as → Publishes u c d as
  | entry {before after : List Act} {p : Nat} {data : SmmuMapData} {id : U32} : Unleased before →
      data.ptselect = u.ptselect → data.dmabufPtr = some d → Unleased after →
      SparesEntries after → (∀ act ∈ after, act.isDelete = false) →
      Publishes u c d (before ++ .add c p data id :: after)

/-- MAP_BUF reserves nothing, or pages for its buffer. -/
inductive MapLeases (u : KiumdUser) (c : Nat) : List Act → Prop where
  | unleased {as : List Act} : Unleased as → MapLeases u c as
  | reserved {before rest : List Act} {d : DmaBuf} {start bit : U64} : IsKgsl u.ptselect →
      Unleased before → AcceptsBit d.size bit → Publishes u c d rest →
      MapLeases u c (before ++ (reserveActs (kgslMap u.ptselect) d.size start bit ++ rest))

section Buffers

variable {u : KiumdUser} {v : VfioDevice} {d : DmaBuf} {a : Attachment} {result : Option Int}

theorem Publishes.prepend (h : Publishes u c d bs) (has : Unleased as) :
    Publishes u c d (as ++ bs) := by
  cases h with
  | nothing hspared => exact .nothing (unleased_append.mpr ⟨has, hspared⟩)
  | entry hbefore hptselect hdmabuf hafter hspares hkept =>
      rw [← List.append_assoc]
      exact .entry (unleased_append.mpr ⟨has, hbefore⟩) hptselect hdmabuf hafter hspares hkept

theorem PublishShape.publishes (h : PublishShape u c v d a as result) : Publishes u c d as := by
  have hentry : ∀ {p : Nat} {id : U32} {addrs rest : List Act} {addr : U64},
      AddressShape u a.table addrs addr → Unleased rest → SparesEntries rest →
      (∀ act ∈ rest, act.isDelete = false) →
      Publishes u c d (.alloc p :: .add c p (mapEntry u v d a) id :: (addrs ++ rest)) := by
    intro p id addrs rest addr haddr hrest hspares hkept
    have hkept' : ∀ act ∈ addrs ++ rest, act.isDelete = false := by
      refine List.forall_mem_append.mpr ⟨?_, hkept⟩
      cases haddr <;> simp [Act.isDelete]
    have hall : Publishes u c d ([.alloc p] ++ .add c p (mapEntry u v d a) id :: (addrs ++ rest)) :=
      .entry (by simp [Act.sparesLeases]) rfl rfl (unleased_append.mpr ⟨haddr.calm.unleased, hrest⟩)
        (sparesEntries_append.mpr ⟨haddr.sparesEntries, hspares⟩) hkept'
    exact hall
  cases h with
  | unpublished _ => exact .nothing unleased_nil
  | stale _ haddr | done haddr =>
      exact hentry haddr (by simp [Act.sparesLeases]) (by simp [Act.sparesEntries])
        (by simp [Act.isDelete])

theorem AttachShape.publishes (h : AttachShape u c v d as result) : Publishes u c d as := by
  cases h with
  | refused _ => exact .nothing (by simp [Act.sparesLeases])
  | @attached a as _ _ _ hattached =>
      have hattach : Unleased [Act.attach d a] := by simp [Act.sparesLeases]
      suffices hrest : Publishes u c d as from hrest.prepend hattach
      cases hattached with
      | detached _ | undomained _ _ => exact .nothing (by simp [Act.sparesLeases])
      | mapped hmaps hpublish => exact hpublish.publishes.prepend hmaps.calm.unleased

/-- An entry that is not for a KGSL window gets no lease. -/
theorem Publishes.unleased (h : Publishes u c d as) (hptselect : ¬ IsKgsl u.ptselect) :
    Unleased as := by
  cases h with
  | nothing hspared => exact hspared
  | @entry _ _ p data id hbefore hsame _ hafter _ _ =>
      refine unleased_append.mpr ⟨hbefore, unleased_cons.mpr ⟨?_, hafter⟩⟩
      have hdata : ¬ IsKgsl data.ptselect := by rwa [hsame]
      simp [Act.sparesLeases, hdata]

theorem MapShape.leases (h : MapShape u c as result) : MapLeases u c as := by
  have hshape : ∀ {p : Nat} {file : File} {d : DmaBuf} {offset rest : List Act} {ret : Int},
      IsKgsl u.ptselect → OffsetShape d.size u.ptselect offset (some ret) →
      (ret < 0 → Unleased rest) → Publishes u c d rest →
      MapLeases u c (openActs u p file d ++ (offset ++ rest)) := by
    intro p file d offset rest ret hkgsl hoffset hspared hpublishes
    cases hoffset with
    | refused hret hsearches =>
        have hoffset := (calm_of_isSearch hsearches).unleased
        exact .unleased (unleased_append.mpr
          ⟨openActs_calm.unleased, unleased_append.mpr ⟨hoffset, hspared hret⟩⟩)
    | taken hsearches _ hbit =>
        rw [List.append_assoc, ← List.append_assoc]
        refine .reserved hkgsl (unleased_append.mpr ⟨openActs_calm.unleased, ?_⟩) hbit hpublishes
        exact (calm_of_isSearch hsearches).unleased
  have hput : ∀ d, Unleased [Act.put d] := fun d => by simp [Act.sparesLeases]
  cases h with
  | early _ hopening => exact .unleased (calm_of_isOpening hopening).unleased
  | unreserved _ _ hkgsl hoffset | uncookied _ _ _ hkgsl hoffset =>
      exact hshape hkgsl hoffset (fun _ => hput _) (.nothing (hput _))
  | @reserved p file v d offset acts dev reserved _ hreserved _ hkgsl hoffset _ hattach =>
      have hcookie : Unleased [Act.cookie dev.domain .msi
          (mapIova (BitVec.ofInt 64 reserved) u.ptselect)] := by simp [Act.sparesLeases]
      have hpublishes := hattach.publishes.prepend hcookie
      exact hshape hkgsl hoffset (fun hneg => absurd hneg (not_lt.mpr hreserved)) hpublishes
  | plain _ hkgsl hattach =>
      exact .unleased (unleased_append.mpr
        ⟨openActs_calm.unleased, hattach.publishes.unleased hkgsl⟩)

/-- UNMAP_BUF releases nothing, or the pages of its arguments for the buffer of the entry found. -/
inductive UnmapLeases (u : KiumdUser) (c : Nat) : List Act → Prop where
  | unleased {as : List Act} : Unleased as → UnmapLeases u c as
  | cleared {p : Nat} {data data' : SmmuMapData} {d : DmaBuf} {rest : List Act} :
      IsKgsl u.ptselect → data.dmabufPtr = some d → Unleased rest →
      UnmapLeases u c ([.find c u.id (some p), .read p data, .read p data'] ++
        .clear (kgslMap u.ptselect) ((iovaBit u.dmaAddr u.ptselect).setWidth 32) (pagesOf d.size) ::
          rest)

theorem FinishShape.calm (h : FinishShape u c p d a as result) : Calm as := by
  cases h with
  | undomained _ hopening => exact calm_of_isOpening hopening
  | done hopening =>
      exact calm_append.mpr ⟨calm_of_isOpening hopening, by simp [deleteActs, Act.isCalm]⟩

theorem UnmappedShape.calm (h : UnmappedShape u c p d a as result) : Calm as := by
  cases h with
  | failed _ hfailed =>
      intro act hact
      rcases hfailed act hact with hopening | ⟨data, rfl⟩
      · cases act <;> first | rfl | cases hopening
      · rfl
  | privileged _ _ _ _ hfinish | attached _ _ _ hfinish | zero _ _ _ _ hfinish =>
      simpa [Act.isCalm] using hfinish.calm
  | zeroFailed _ _ _ hfailed =>
      refine calm_cons.mpr ⟨rfl, calm_cons.mpr ⟨rfl, ?_⟩⟩
      intro act hact
      rcases hfailed act hact with hopening | ⟨dom, size, _, rfl⟩
      · cases act <;> first | rfl | cases hopening
      · rfl

theorem UnmapShape.leases (h : UnmapShape u c as result) : UnmapLeases u c as := by
  cases h with
  | early _ hearly =>
      refine .unleased fun act hact => ?_
      rw [hearly act hact]
      rfl
  | found _ hrelease =>
      cases hrelease with
      | empty _ hreads =>
          refine .unleased (unleased_cons.mpr ⟨rfl, fun act hact => ?_⟩)
          obtain ⟨data, rfl⟩ := hreads act hact
          rfl
      | buffer hdmabuf _ hunmapped =>
          unfold clearActs
          split
          · exact .cleared ‹_› hdmabuf hunmapped.calm.unleased
          · exact .unleased (by simpa [Act.sparesLeases] using hunmapped.calm.unleased)

end Buffers

/-! ## The ranges tile the bitmaps -/

/-- The ranges that are leased tile the bitmap of each window. -/
structure RangesTile (R : List PageRange) (w : World) : Prop where
  tiles : ∀ m, Tilings.Tiles PageRange.pages (R.filter (·.window = m)) (w.kgsl.marked m)
  inside : ∀ r ∈ R, r.first + r.nr ≤ KGSL_PT_MEM_PAGES

namespace RangesTile

variable {R : List PageRange} {r : PageRange}

theorem keep (h : RangesTile R w) (hmarked : w'.kgsl.marked = w.kgsl.marked) :
    RangesTile R w' where
  tiles m := by
    rw [hmarked]
    exact h.tiles m
  inside := h.inside

/-- A range of pages that were not marked can be added. -/
theorem set (h : RangesTile R w) (hfree : Disjoint r.pages (w.kgsl.marked r.window))
    (hinside : r.first + r.nr ≤ KGSL_PT_MEM_PAGES)
    (hself : w'.kgsl.marked r.window = r.pages ∪ w.kgsl.marked r.window)
    (hother : ∀ m ≠ r.window, w'.kgsl.marked m = w.kgsl.marked m) : RangesTile (r :: R) w' := by
  refine ⟨fun m => ?_, List.forall_mem_cons.mpr ⟨hinside, h.inside⟩⟩
  by_cases hm : r.window = m
  · subst hm
    rw [List.filter_cons, if_pos (by simp), hself]
    exact (h.tiles r.window).cons hfree
  · rw [List.filter_cons_of_neg (by simpa using hm), hother m (Ne.symm hm)]
    exact h.tiles m

/-- A range can be taken away with its pages. -/
theorem clear (h : RangesTile R w) (hr : r ∈ R)
    (hclear : w'.kgsl.marked = (w.kgsl.fill r.window r.first r.nr false).marked) :
    RangesTile (R.erase r) w' := by
  refine ⟨fun m => ?_, fun r' hr' => h.inside r' (List.mem_of_mem_erase hr')⟩
  rw [← List.erase_filter, hclear]
  by_cases hm : r.window = m
  · subst hm
    rw [KgslMaps.marked_clear]
    exact (h.tiles r.window).erase (List.mem_filter.mpr ⟨hr, decide_eq_true rfl⟩)
  · have hnot : r ∉ R.filter (·.window = m) := fun hmem =>
      hm (of_decide_eq_true (List.mem_filter.mp hmem).2)
    rw [KgslMaps.fill_marked_of_ne (Ne.symm hm), List.erase_of_not_mem hnot]
    exact h.tiles m

end RangesTile

/-- The pages that a search has found are reserved: they were not marked, and then they are. -/
theorem reserve_steps {before after : List Act} {size start bit : U64}
    (hsteps : Steps kernel w trace w')
    (hacts : acts trace = before ++ (reserveActs m size start bit ++ after))
    (hbefore : FillsNone before) (hafter : FillsNone after) :
    (∃ w₁ : World, w₁.kgsl.marked = w.kgsl.marked ∧ NextZeroArea (w₁.kgsl.bits m) KGSL_PT_MEM_PAGES
      start.toNat (pagesOf size).toNat bit.toNat) ∧
    w'.kgsl.marked m = Set.Ico (bit.setWidth 32).toNat ((bit.setWidth 32).toNat +
      (pagesOf size).toNat) ∪ w.kgsl.marked m ∧
    ∀ m' ≠ m, w'.kgsl.marked m' = w.kgsl.marked m' := by
  have hsearch : acts trace = before ++ .search m start (pagesOf size) bit ::
      (.set m (bit.setWidth 32) (pagesOf size) ::
        .setLast m ((bit + size >>> PAGE_SHIFT) % BitVec.ofNat 64 KGSL_PT_MEM_PAGES) :: after) :=
    hacts
  have hset : acts trace = (before ++ [.search m start (pagesOf size) bit]) ++
      .set m (bit.setWidth 32) (pagesOf size) ::
        .setLast m ((bit + size >>> PAGE_SHIFT) % BitVec.ofNat 64 KGSL_PT_MEM_PAGES) :: after := by
    rw [hsearch, List.append_assoc]
    rfl
  have hearly : FillsNone (before ++ [.search m start (pagesOf size) bit]) :=
    List.forall_mem_append.mpr ⟨hbefore, List.forall_mem_singleton.mpr ⟨rfl, rfl⟩⟩
  constructor
  · obtain ⟨first, e, rest, rfl, hfirst, hview, -⟩ := Observer.exists_event hsearch
    obtain ⟨w₁, hsteps₁, hsteps₂⟩ := steps_append_iff.mp hsteps
    obtain ⟨w₂, hstep, -⟩ := steps_cons_iff.mp hsteps₂
    exact ⟨w₁, marked_steps hsteps₁ (by rwa [acts, hfirst]), search_step hstep hview⟩
  · obtain ⟨first, e, rest, rfl, hfirst, hview, hrest⟩ := Observer.exists_event hset
    obtain ⟨w₁, hsteps₁, hsteps₂⟩ := steps_append_iff.mp hsteps
    obtain ⟨w₂, hstep, hsteps₃⟩ := steps_cons_iff.mp hsteps₂
    have hview' : e.call.act e.answer = some (.set m (bit.setWidth 32) (pagesOf size)) := hview
    have hmarked₁ : w₁.kgsl.marked = w.kgsl.marked := marked_steps hsteps₁ (by rwa [acts, hfirst])
    have hmarked₂ : w'.kgsl.marked = w₂.kgsl.marked := by
      refine marked_steps hsteps₃ ?_
      rw [acts, hrest]
      exact List.forall_mem_cons.mpr ⟨⟨rfl, rfl⟩, hafter⟩
    rw [hmarked₂, ← hmarked₁]
    refine ⟨marked_set_step hstep hview', fun m' hm' => ?_⟩
    refine marked_step hstep ?_ ?_
    · rw [hview']
      rintro act ⟨⟩ heq
      exact hm' (Option.some.inj heq).symm
    · rw [hview']
      rintro act ⟨⟩
      rfl

/-- The pages that a request reserves were free, lie in the window and are then marked. -/
theorem reserve_range {r : PageRange} {before after : List Act} {size start bit : U64}
    (hsteps : Steps kernel w trace w')
    (hacts : acts trace = before ++ (reserveActs m size start bit ++ after))
    (hbefore : FillsNone before) (hafter : FillsNone after) (hbit : AcceptsBit size bit)
    (hr : r = ⟨m, (bit.setWidth 32).toNat, (pagesOf size).toNat⟩) :
    Disjoint r.pages (w.kgsl.marked r.window) ∧ r.first + r.nr ≤ KGSL_PT_MEM_PAGES ∧
      w'.kgsl.marked r.window = r.pages ∪ w.kgsl.marked r.window ∧
      ∀ m' ≠ r.window, w'.kgsl.marked m' = w.kgsl.marked m' := by
  subst hr
  obtain ⟨⟨w₁, hmarked₁, hnext⟩, hself, hother⟩ := reserve_steps hsteps hacts hbefore hafter
  have hlt : bit.toNat < KGSL_PT_MEM_PAGES := by
    refine hbit.lt ?_
    have hbound := hnext.1
    omega
  have hstart : (bit.setWidth 32).toNat = bit.toNat := by
    rw [BitVec.toNat_setWidth, Nat.mod_eq_of_lt]
    simp only [KGSL_PT_MEM_PAGES] at hlt
    omega
  refine ⟨?_, ?_, hself, hother⟩
  all_goals
    by_cases hnr : (pagesOf size).toNat = 0
  · -- sizes of which no whole page is left in 32 bits reserve nothing
    rw [PageRange.pages, hnr]
    simp
  · show Disjoint (Set.Ico _ _) (w.kgsl.marked m)
    rw [hstart, ← hmarked₁]
    exact (hnext.zeroArea hnr hlt.le).disjoint
  · show (bit.setWidth 32).toNat + (pagesOf size).toNat ≤ KGSL_PT_MEM_PAGES
    omega
  · show (bit.setWidth 32).toNat + (pagesOf size).toNat ≤ KGSL_PT_MEM_PAGES
    rw [hstart]
    exact (hnext.zeroArea hnr hlt.le).1

/-- MAP_BUF leases the range that it reserves. -/
theorem RangesTile.reserve {R : List PageRange} {before after : List Act} {size start bit : U64}
    (h : RangesTile R w) (hsteps : Steps kernel w trace w')
    (hacts : acts trace = before ++ (reserveActs m size start bit ++ after))
    (hbefore : FillsNone before) (hafter : FillsNone after) (hbit : AcceptsBit size bit) :
    RangesTile (⟨m, (bit.setWidth 32).toNat, (pagesOf size).toNat⟩ :: R) w' := by
  obtain ⟨hfree, hinside, hself, hother⟩ := reserve_range hsteps hacts hbefore hafter hbit rfl
  exact h.set hfree hinside hself hother

/-- Actions that only clear one range. -/
theorem clear_steps {before after : List Act} {start nr : U32} (hsteps : Steps kernel w trace w')
    (hacts : acts trace = before ++ .clear m start nr :: after) (hbefore : FillsNone before)
    (hafter : FillsNone after) :
    w'.kgsl.marked = (w.kgsl.fill m start.toNat nr.toNat false).marked := by
  obtain ⟨first, e, rest, rfl, hfirst, hview, hrest⟩ := Observer.exists_event hacts
  obtain ⟨w₁, hsteps₁, hsteps₂⟩ := steps_append_iff.mp hsteps
  obtain ⟨w₂, hstep, hsteps₃⟩ := steps_cons_iff.mp hsteps₂
  have hmarked₁ : w₁.kgsl.marked = w.kgsl.marked := marked_steps hsteps₁ (by rwa [acts, hfirst])
  rw [marked_steps hsteps₃ (by rwa [acts, hrest]), marked_clear_step hstep hview]
  funext m'
  by_cases hm : m' = m
  · subst hm
    rw [KgslMaps.marked_clear, KgslMaps.marked_clear, hmarked₁]
  · rw [KgslMaps.fill_marked_of_ne hm, KgslMaps.fill_marked_of_ne hm, hmarked₁]

/-! ## The entries with a lease -/

/-- The range is leased for an entry: it is in its table, for the window, and for a buffer with as
many pages. -/
structure LeasedTo (w : World) (r : PageRange) (c p : Nat) : Prop where
  mem : p ∈ w.table c
  window : r.window = kgslMap (w.smaps p).ptselect
  nr : ∃ d, (w.smaps p).dmabufPtr = some d ∧ r.nr = (pagesOf d.size).toNat

/-- The leases with an entry are leased to it, and no entry has two. -/
structure EntriesLeased (L : List Lease) (w : World) : Prop where
  leased : ∀ l ∈ L, ∀ c p, l.entry = some (c, p) → LeasedTo w l.range c p
  nodup : (L.filterMap Lease.entry).Nodup

theorem LeasedTo.keep {r : PageRange} (h : LeasedTo w r c p) (hmem : p ∈ w'.table c)
    (hsame : w'.smaps p = w.smaps p) : LeasedTo w' r c p where
  mem := hmem
  window := by
    rw [hsame]
    exact h.window
  nr := by
    rw [hsame]
    exact h.nr

/-- The entries that were in a table before and still are have the same data. -/
def TablesSame (w w' : World) : Prop :=
  ∀ c, ∀ p ∈ w.table c, p ∈ w'.table c → w'.smaps p = w.smaps p

namespace EntriesLeased

/-- A request that binds no lease. -/
theorem keep (h : EntriesLeased L w) (hsteps : Steps kernel w trace w') (hsame : TablesSame w w')
    (hbinds : BindsNone (acts trace)) : EntriesLeased (leasesAfter (acts trace) L) w' := by
  refine ⟨fun l hl c p hentry => ?_, h.nodup.sublist (leasesAfter_entries hbinds)⟩
  obtain ⟨⟨l₀, hl₀, hentry₀, hrange⟩, hkept⟩ := entry_of_acts hbinds hl hentry
  have hleased := h.leased l₀ hl₀ c p hentry₀
  rw [hrange] at hleased
  have hmem := table_kept_steps hsteps hleased.mem hkept
  exact hleased.keep hmem (hsame c p hleased.mem hmem)

/-- A request that publishes an entry for the latest lease. -/
theorem bind {before after : List Act} {data : SmmuMapData} {id : U32} {r : PageRange}
    {L₁ : List Lease} (h : EntriesLeased L w) (hsteps : Steps kernel w trace w')
    (hsame : TablesSame w w') (hacts : acts trace = before ++ .add c p data id :: after)
    (hkgsl : IsKgsl data.ptselect) (hbefore : BindsNone before)
    (hfirst : leasesAfter before L = ⟨r, none⟩ :: L₁) (hafter : BindsNone after)
    (hspares : SparesEntries after) (hkept : ∀ act ∈ after, act.isDelete = false)
    (hfresh : p ∉ w.table c) (hwindow : r.window = kgslMap data.ptselect)
    (hnr : ∃ d, data.dmabufPtr = some d ∧ r.nr = (pagesOf d.size).toNat) :
    EntriesLeased (leasesAfter (acts trace) L) w' := by
  have hmem := added_mem_steps hsteps hacts (not_deletes hkept)
  have hdata := added_data_steps hsteps hacts hspares
  -- the leases with an entry when the new one is added
  have hold : ∀ l ∈ L₁, ∀ c' p', l.entry = some (c', p') →
      LeasedTo w l.range c' p' ∧ ¬ Deletes c' p' before := by
    intro l hl c' p' hentry
    have hl' : l ∈ leasesAfter before L := by
      rw [hfirst]
      exact List.mem_cons_of_mem _ hl
    obtain ⟨⟨l₀, hl₀, hentry₀, hrange⟩, hnot⟩ := entry_of_acts hbefore hl' hentry
    exact ⟨hrange ▸ h.leased l₀ hl₀ c' p' hentry₀, hnot⟩
  have hleases : leasesAfter (acts trace) L = leasesAfter after (⟨r, some (c, p)⟩ :: L₁) := by
    rw [hacts, leasesAfter_append, hfirst, leasesAfter_cons]
    simp only [Act.leases, if_pos hkgsl]
    rfl
  rw [hleases]
  constructor
  · intro l hl c' p' hentry
    obtain ⟨⟨l₀, hl₀, hentry₀, hrange⟩, -⟩ := entry_of_acts hafter hl hentry
    rw [← hrange]
    rcases List.mem_cons.mp hl₀ with rfl | hl₀
    · cases hentry₀
      refine ⟨hmem, ?_, ?_⟩
      · rw [hdata]
        exact hwindow
      · rw [hdata]
        exact hnr
    · obtain ⟨hleased, hnot⟩ := hold l₀ hl₀ c' p' hentry₀
      have hmem' : p' ∈ w'.table c' := by
        refine table_kept_steps hsteps hleased.mem ?_
        rw [hacts, deletes_append, not_or]
        refine ⟨hnot, not_deletes (List.forall_mem_cons.mpr ⟨rfl, hkept⟩)⟩
      exact hleased.keep hmem' (hsame c' p' hleased.mem hmem')
  · refine List.Nodup.sublist (leasesAfter_entries hafter) ?_
    rw [List.filterMap_cons_some (f := Lease.entry) rfl]
    refine List.nodup_cons.mpr ⟨fun hentry => ?_, ?_⟩
    · obtain ⟨l, hl, hentry⟩ := List.mem_filterMap.mp hentry
      exact hfresh (hold l hl c p hentry).1.mem
    · have hbound : (L₁.filterMap Lease.entry).Sublist (L.filterMap Lease.entry) := by
        have hsublist := leasesAfter_entries (L := L) hbefore
        rwa [hfirst, List.filterMap_cons_none (f := Lease.entry) rfl] at hsublist
      exact h.nodup.sublist hbound

end EntriesLeased

/-! ## Services -/

/-- The bitmaps are tiled by the leases, and the leases with an entry are leased to it. -/
structure LeasesTile (L : List Lease) (w : World) : Prop where
  ranges : RangesTile (L.map Lease.range) w
  entries : EntriesLeased L w

/-- A request that neither reserves nor releases pages. -/
theorem LeasesTile.unleased (h : LeasesTile L w) (hsteps : Steps kernel w trace w')
    (hsame : TablesSame w w') (hspared : Unleased (acts trace)) :
    LeasesTile (leasesAfter (acts trace) L) w' where
  ranges := by
    rw [hspared.fillsNone.ranges]
    exact h.ranges.keep (marked_steps hsteps hspared.fillsNone)
  entries := h.entries.keep hsteps hsame hspared.bindsNone

/-- A lease without an entry stays as it is. -/
theorem leasesAfter_unbound {r : PageRange} (h : Unleased as) :
    leasesAfter as (⟨r, none⟩ :: L) = ⟨r, none⟩ :: leasesAfter as L := by
  induction as generalizing L with
  | nil => rfl
  | cons act as ih =>
      obtain ⟨hfirst, hrest⟩ := unleased_cons.mp h
      have hact : act.leases (⟨r, none⟩ :: L) = ⟨r, none⟩ :: act.leases L := by
        cases act with
        | set | clear => cases hfirst
        | add c p data id =>
            have hnot : ¬ IsKgsl data.ptselect := by simpa [Act.sparesLeases] using hfirst
            simp only [Act.leases, if_neg hnot]
        | _ => rfl
      rw [leasesAfter_cons, hact, ih hrest, leasesAfter_cons]

theorem reserveActs_leases {size start bit : U64} :
    leasesAfter (reserveActs m size start bit) L =
      ⟨⟨m, (bit.setWidth 32).toNat, (pagesOf size).toNat⟩, none⟩ :: L :=
  rfl

/-- MAP_BUF leases the range that it reserves, and for the entry that it publishes. -/
theorem LeasesTile.map {u : KiumdUser} (h : LeasesTile L w) (hsteps : Steps kernel w trace w')
    (hsame : TablesSame w w') (hfresh : ∀ p, AddsEntry c p (acts trace) → p ∉ w.table c)
    (hleases : MapLeases u c (acts trace)) : LeasesTile (leasesAfter (acts trace) L) w' := by
  generalize hacts : acts trace = as at hleases
  cases hleases with
  | unleased hspared =>
      subst hacts
      exact h.unleased hsteps hsame hspared
  | @reserved before rest d start bit hkgsl hbefore hbit hpublishes =>
      have hreserve : BindsNone (reserveActs (kgslMap u.ptselect) d.size start bit) := by
        simp [BindsNone, reserveActs, Act.binds]
      have hranges : FillsNone rest →
          RangesTile ((leasesAfter (acts trace) L).map Lease.range) w' := by
        intro hrest
        have hleased : (leasesAfter (acts trace) L).map Lease.range =
            ⟨kgslMap u.ptselect, (bit.setWidth 32).toNat, (pagesOf d.size).toNat⟩ ::
              L.map Lease.range := by
          rw [hacts, leasesAfter_append, leasesAfter_append, hrest.ranges, reserveActs_leases,
            List.map_cons, hbefore.fillsNone.ranges]
        rw [hleased]
        exact h.ranges.reserve hsteps hacts hbefore.fillsNone hrest hbit
      cases hpublishes with
      | nothing hspared =>
          rw [← hacts]
          refine ⟨hranges hspared.fillsNone, h.entries.keep hsteps hsame ?_⟩
          rw [hacts]
          exact List.forall_mem_append.mpr ⟨hbefore.bindsNone,
            List.forall_mem_append.mpr ⟨hreserve, hspared.bindsNone⟩⟩
      | @entry between after p data id hbetween hptselect hdmabuf hafter hspares hkept =>
          have hadd : acts trace = (before ++ (reserveActs (kgslMap u.ptselect) d.size start bit ++
              between)) ++ .add c p data id :: after := by
            rw [hacts]
            simp only [List.append_assoc]
          have hfirst : leasesAfter (before ++ (reserveActs (kgslMap u.ptselect) d.size start bit ++
              between)) L = ⟨⟨kgslMap u.ptselect, (bit.setWidth 32).toNat, (pagesOf d.size).toNat⟩,
                none⟩ :: leasesAfter between (leasesAfter before L) := by
            rw [leasesAfter_append, leasesAfter_append, reserveActs_leases,
              leasesAfter_unbound hbetween]
          have hdraws : AddsEntry c p (acts trace) := by
            refine ⟨.add c p data id, ?_, id, if_pos rfl⟩
            rw [hadd]
            exact List.mem_append_right _ List.mem_cons_self
          rw [← hacts]
          refine ⟨hranges ?_, h.entries.bind hsteps hsame hadd (by rwa [hptselect]) ?_ hfirst
            hafter.bindsNone hspares hkept (hfresh p hdraws) (by rw [hptselect])
            ⟨d, hdmabuf, rfl⟩⟩
          · exact List.forall_mem_append.mpr ⟨hbetween.fillsNone,
              List.forall_mem_cons.mpr ⟨⟨rfl, rfl⟩, hafter.fillsNone⟩⟩
          · exact List.forall_mem_append.mpr ⟨hbefore.bindsNone,
              List.forall_mem_append.mpr ⟨hreserve, hbetween.bindsNone⟩⟩

/-- `clear_map_iova` finds the first page of a range by its IOVA. -/
theorem iovaBit_iova {r : PageRange} {ptselect : Int} (hkgsl : IsKgsl ptselect)
    (hinside : r.first ≤ KGSL_PT_MEM_PAGES) :
    ((iovaBit (r.iova ptselect) ptselect).setWidth 32).toNat = r.first := by
  have hempty : ((0 : U64) >>> PAGE_SHIFT).toNat = 0 := rfl
  obtain ⟨hwindow, hfirst⟩ := inWindow_of_bit hkgsl hempty hinside
  have hbit : iovaBit (r.iova ptselect) ptselect =
      BitVec.ofInt 64 (r.first * 2 ^ PAGE_SHIFT : Nat) >>> PAGE_SHIFT := hwindow.iovaBit
  have hlt : r.first < 2 ^ 32 := by
    simp only [KGSL_PT_MEM_PAGES] at hinside
    omega
  have hfirst' : (BitVec.ofInt 64 (r.first * 2 ^ PAGE_SHIFT : Nat) >>> PAGE_SHIFT).toNat =
      r.first := hfirst
  rw [hbit, BitVec.toNat_setWidth, hfirst', Nat.mod_eq_of_lt hlt]

/-- UNMAP_BUF ends the lease that its arguments name. -/
theorem LeasesTile.unmap {u : KiumdUser} (h : LeasesTile L w) (hsteps : Steps kernel w trace w')
    (hsame : TablesSame w w') (hlive : ∀ p ∈ w.table c, .smap p ∈ w.held)
    (hnames : IsKgsl u.ptselect → ∀ p, .find c u.id (some p) ∈ acts trace →
      ∃ l ∈ L, l.entry = some (c, p) ∧ l.range.window = kgslMap u.ptselect ∧
        u.dmaAddr = l.range.iova u.ptselect)
    (hleases : UnmapLeases u c (acts trace)) : LeasesTile (leasesAfter (acts trace) L) w' := by
  generalize hacts : acts trace = as at hleases
  cases hleases with
  | unleased hspared =>
      subst hacts
      exact h.unleased hsteps hsame hspared
  | @cleared p data data' d rest hkgsl hdmabuf hspared =>
      obtain ⟨l, hl, hentry, hwindow, haddr⟩ := hnames hkgsl p (by rw [hacts]; simp)
      have hleased := h.entries.leased l hl c p hentry
      have hlooks : Unleased [Act.find c u.id (some p), .read p data, .read p data'] := by
        simp [Act.sparesLeases]
      -- the entry is read as it is, so that its buffer has the pages of the lease
      have hdata : data = w.smaps p := by
        have hsplit : acts trace = [.find c u.id (some p)] ++ .read p data :: .read p data' ::
            .clear (kgslMap u.ptselect) ((iovaBit u.dmaAddr u.ptselect).setWidth 32)
              (pagesOf d.size) :: rest := hacts
        refine read_held_steps hsteps hsplit ?_
          (hlive p hleased.mem)
        simp [Act.sparesEntries]
      have hrange : l.range = ⟨kgslMap u.ptselect,
          ((iovaBit u.dmaAddr u.ptselect).setWidth 32).toNat, (pagesOf d.size).toNat⟩ := by
        obtain ⟨d', hdmabuf', hnr⟩ := hleased.nr
        rw [← hdata, hdmabuf] at hdmabuf'
        obtain rfl := Option.some.inj hdmabuf'
        have hinside := h.ranges.inside _ (List.mem_map_of_mem hl)
        rw [haddr, iovaBit_iova hkgsl (by omega), ← hwindow, ← hnr]
      have hranges : (leasesAfter (acts trace) L).map Lease.range =
          (L.map Lease.range).erase l.range := by
        rw [hacts, leasesAfter_append, leasesAfter_cons, hspared.fillsNone.ranges,
          Act.leases_ranges, hlooks.fillsNone.ranges, hrange]
        rfl
      rw [← hacts]
      refine ⟨?_, h.entries.keep hsteps hsame ?_⟩
      · rw [hranges]
        refine h.ranges.clear (List.mem_map_of_mem hl) ?_
        rw [hrange]
        exact clear_steps hsteps hacts hlooks.fillsNone hspared.fillsNone
      · rw [hacts]
        exact List.forall_mem_append.mpr ⟨hlooks.bindsNone,
          List.forall_mem_cons.mpr ⟨rfl, hspared.bindsNone⟩⟩

/-! ## Runs -/

theorem kiumdIovaCtrl_calm {copied : Option KiumdIova} :
    Shows (kiumdIovaCtrl copied) fun as _ => Calm as := by
  unfold kiumdIovaCtrl
  cases copied with
  | none => exact shows_pure calm_nil
  | some iovausr =>
      refine shows_bind kiumdGetVfioDevice_shows ?_ fun acts h => by cases h
      intro acts found hfound
      cases hfound with
      | missing hopening =>
          refine shows_pure ?_
          rw [List.append_nil]
          exact calm_of_isOpening hopening
      | @found file v _ =>
          refine shows_bind kiumdGetDmaCookie_shows ?_ ?_
          · rintro _ cookie ⟨rfl, _, ⟨rfl⟩, _⟩
            cases cookie with
            | none => exact shows_pure (by simp [Act.isCalm])
            | some dom =>
                refine kiumdSetDmaCookie_shows.mono ?_
                rintro as result ⟨rfl, -⟩
                simp [Act.isCalm]
          · rintro acts ⟨_, _, ⟨⟩, _⟩

theorem ClosesEntry.calm (h : ClosesEntry w c p as) : Calm as := by
  cases h <;> simp [Act.isCalm]

theorem EntryByEntry.calm {entries : List Nat} (h : EntryByEntry (ClosesEntry w c) entries as) :
    Calm as :=
  h.forall_mem fun _ _ hentry => hentry.calm

theorem kiumdClose_calm (h : Backed noNeeds w 0) :
    wp kernel .any (kiumdClose (some c)) (fun trace _ _ => Calm (acts trace)) w := by
  refine wp_mono (kiumdClose_does h) ?_
  rintro trace _ _ ⟨entries, loop, rest, hacts, -, hloop, hrest⟩
  rw [hacts]
  exact calm_cons.mpr ⟨rfl, calm_append.mpr ⟨hloop.calm, calm_of_isRest hrest⟩⟩

theorem not_deletes_iff : ¬ Deletes c p as ↔ ∀ act ∈ as, ¬ Deletes c p [act] := by
  simp only [Deletes, List.mem_singleton]
  constructor
  · rintro h act hact (rfl | rfl | rfl)
    exacts [h (.inl hact), h (.inr (.inl hact)), h (.inr (.inr hact))]
  · rintro h (hact | hact | hact)
    exacts [h _ hact (.inl rfl), h _ hact (.inr (.inl rfl)), h _ hact (.inr (.inr rfl))]

/-- Closing a file keeps an entry that no round of its loop deletes. -/
theorem kiumdClose_table_mem {c' : Nat} (hb : Backed noNeeds w 0) (hp : p ∈ w.table c)
    (hround : ∀ q as, ClosesEntry w c' q as → ¬ Deletes c p as) :
    wp kernel .any (kiumdClose (some c')) (fun _ _ w' => p ∈ w'.table c) w := by
  refine ⟨fun _ _ _ _ _ => trivial, fun trace result w' hexec => ?_⟩
  obtain ⟨entries, loop, rest, hacts, -, hloop, hrest⟩ := wp_exec (kiumdClose_does hb) hexec
  refine table_kept_steps hexec.steps hp ?_
  rw [hacts]
  refine not_deletes_iff.mpr (List.forall_mem_cons.mpr ⟨by simp [Deletes], ?_⟩)
  refine List.forall_mem_append.mpr ⟨?_, fun act hact => not_deletes ?_⟩
  · exact hloop.forall_mem fun q as hcloses => not_deletes_iff.mp (hround q as hcloses)
  · have hisRest := hrest act hact
    cases act <;> first | (cases hisRest; done) | simp [Act.isDelete]

/-- A service does not change the data of an entry that stays. -/
theorem kiumdService_tablesSame (s : Service) (h : Backed noNeeds w 0) :
    wp kernel .any (kiumdService s) (fun _ _ w' => TablesSame w w') w := by
  refine ⟨fun _ _ _ _ _ => trivial, fun trace result w' hexec c p hp hp' => ?_⟩
  cases s with
  | ioctl i =>
      have hkept := kiumdIoctl_entriesKept h hexec c p hp'
      exact (hkept.resolve_right (not_not.mpr (h.smap_mem hp))).2.smap
  | iovaMapCtrl copied =>
      exact (wp_exec kiumdIovaCtrl_keeps hexec).2.smaps p (h.smap_mem hp)
  | close c => exact congrFun (wp_exec (kiumdClose_keeps h) hexec).2.smaps p

/-- Every service keeps the bitmaps tiled, if it names its own lease. -/
theorem kiumdService_leases {history : History Service KCall} (s : Service)
    (hb : Backed noNeeds w 0) (h : LeasesTile (leases history) w) :
    wp kernel .any (kiumdService s) (fun trace _ w' => NamesOwnLease history s w trace →
      LeasesTile (leases ((s, trace) :: history)) w') w := by
  refine ⟨fun _ _ _ _ _ => trivial, fun trace result w' hexec hnames => ?_⟩
  have hsame := wp_exec (kiumdService_tablesSame s hb) hexec
  show LeasesTile (leasesAfter (acts trace) (leases history)) w'
  cases s with
  | ioctl i =>
      have hshape : IoctlShape i (acts trace) result :=
        (kiumdIoctl_shows i).exec driver_admits hexec
      obtain ⟨c, request⟩ := i
      cases request with
      | mapBuf u =>
          refine h.map hexec.steps hsame (fun p hadds hp => ?_) (MapShape.leases hshape)
          exact (hshape.addsOnce.describes hexec.steps c p hadds).2.1 (hb.smap_mem hp)
      | unmapBuf u =>
          refine h.unmap hexec.steps hsame (fun p hp => hb.smap_mem hp) ?_
            (UnmapShape.leases hshape)
          exact fun hkgsl p hfind => hnames c u p rfl hkgsl hfind
      | secureMap u => exact h.unleased hexec.steps hsame (SecureMapShape.unleased hshape)
      | secureUnmap u => exact h.unleased hexec.steps hsame (SecureUnmapShape.unleased hshape)
      | mmioMap ret₀ u => exact h.unleased hexec.steps hsame (MmioMapShape.calm hshape).unleased
      | mmioUnmap u => exact h.unleased hexec.steps hsame (MmioUnmapShape.calm hshape).unleased
  | iovaMapCtrl copied =>
      exact h.unleased hexec.steps hsame (kiumdIovaCtrl_calm.exec driver_admits hexec).unleased
  | close c => exact h.unleased hexec.steps hsame (wp_exec (kiumdClose_calm hb) hexec).unleased

variable {w₀ : World} {history : History Service KCall}

theorem leasesTile_start (hempty : ∀ m, w₀.kgsl.marked m = ∅) : LeasesTile [] w₀ where
  ranges := by
    refine ⟨fun m => ?_, fun r hr => absurd hr List.not_mem_nil⟩
    rw [hempty m]
    exact Tilings.tiles_nil
  entries := ⟨fun l hl => absurd hl List.not_mem_nil, List.nodup_nil⟩

theorem service_run_leases (hstart : w₀.Fresh) (hempty : ∀ m, w₀.kgsl.marked m = ∅)
    (h : Run kernel kiumdService NamesOwnLease w₀ history w) : LeasesTile (leases history) w := by
  have hinv : Backed noNeeds w 0 ∧ LeasesTile (leases history) w := by
    refine h.invariant (fun history w => Backed noNeeds w 0 ∧ LeasesTile (leases history) w)
      ⟨hstart.backed, leasesTile_start hempty⟩ ?_
    rintro history s w ⟨hb, hleases⟩
    refine wp_mono (wp_and (kiumdService_keeps s hb) (kiumdService_leases s hb hleases)) ?_
    exact fun _ _ _ hpost hnames => ⟨hpost.1, hpost.2 hnames⟩
  exact hinv.2

/-- In every run of services, whatever fails and whichever threads are killed, whose requests to
unmap pages of a window name the lease of the entry they find: the leases of each window have
pairwise disjoint pages, which lie in the window and are together those marked in its bitmap. A
lease with an entry is for its buffer and its window, and no entry has two leases. -/
theorem service_run_leases_tile (hstart : w₀.Fresh) (hempty : ∀ m, w₀.kgsl.marked m = ∅)
    (h : Run kernel kiumdService NamesOwnLease w₀ history w) :
    (∀ m, Tilings.Tiles (fun l : Lease => l.range.pages)
      ((leases history).filter (·.range.window = m)) (w.kgsl.marked m)) ∧
    (∀ l ∈ leases history, l.range.pages ⊆ Set.Iio KGSL_PT_MEM_PAGES) ∧
    EntriesLeased (leases history) w := by
  have hleases := service_run_leases hstart hempty h
  refine ⟨fun m => ?_, fun l hl i hi => ?_, hleases.entries⟩
  · rw [← Tilings.tiles_map]
    have htiles := hleases.ranges.tiles m
    rwa [List.filter_map] at htiles
  · exact lt_of_lt_of_le hi.2 (hleases.ranges.inside _ (List.mem_map_of_mem hl))

/-- The pages of the first window, as `globalUser` has mapped them. -/
def unmapGlobalUser : KiumdUser := { globalUser with dmaAddr := KGSL_GLOBAL_PT_BASE_IOVA }

/-- A buffer is mapped into the global window and unmapped, by which its lease ends. -/
theorem service_run_leases_tile_global : ∃ history w,
    Run kernel kiumdService NamesOwnLease .initial history w ∧
      history.map (·.1) = [.ioctl ⟨0, .unmapBuf unmapGlobalUser⟩, .ioctl ⟨0, .mapBuf globalUser⟩] ∧
      leases history = [] ∧ EntriesLeased (leases history) w := by
  have hcheck : (kiumdService (.ioctl ⟨0, .mapBuf globalUser⟩)).check kernel
      (Answers.plain fun _ _ => false).choose .initial
      (fun trace _ w => decide (leasesAfter (acts trace) [] = [⟨⟨.global, 0, 1⟩, some (0, 3)⟩]) &&
        (kiumdService (.ioctl ⟨0, .unmapBuf unmapGlobalUser⟩)).check kernel
          (Answers.plain fun _ _ => false).choose w (fun trace' _ _ =>
            decide (∀ act ∈ acts trace', ∀ p ∈ act.finds 0 0, p = 3) &&
            decide (leasesAfter (acts trace') [⟨⟨.global, 0, 1⟩, some (0, 3)⟩] = []))) = true := by
    decide +kernel
  obtain ⟨trace, value, w, hexec, htest⟩ := Program.check_exec hcheck
  rw [Bool.and_eq_true, decide_eq_true_eq] at htest
  obtain ⟨hmapped, hsecond⟩ := htest
  obtain ⟨trace', value', w', hexec', htest'⟩ := Program.check_exec hsecond
  rw [Bool.and_eq_true, decide_eq_true_eq, decide_eq_true_eq] at htest'
  obtain ⟨hfound, hunmapped⟩ := htest'
  have hfirst : NamesOwnLease [] (.ioctl ⟨0, .mapBuf globalUser⟩) .initial trace := by
    intro c u p heq
    cases heq
  have hleases : leases [(.ioctl ⟨0, .mapBuf globalUser⟩, trace)] =
      [⟨⟨.global, 0, 1⟩, some (0, 3)⟩] := hmapped
  have hsecond : NamesOwnLease [(.ioctl ⟨0, .mapBuf globalUser⟩, trace)]
      (.ioctl ⟨0, .unmapBuf unmapGlobalUser⟩) w trace' := by
    intro c u p heq hkgsl hfind
    cases heq
    obtain rfl : p = 3 := hfound _ hfind p find_finds
    rw [hleases]
    exact ⟨_, List.mem_singleton.mpr rfl, rfl, rfl, by decide⟩
  have hrun := Run.request (.request .start hexec hfirst) hexec' hsecond
  refine ⟨_, w', hrun, rfl, ?_, (service_run_leases_tile fresh_initial ?_ hrun).2.2⟩
  · show leasesAfter (acts trace') (leases [(.ioctl ⟨0, .mapBuf globalUser⟩, trace)]) = []
    rw [hleases]
    exact hunmapped
  · intro m
    ext i
    simp [KgslMaps.marked, World.initial, default]

end SafeLinux.Kiumd
