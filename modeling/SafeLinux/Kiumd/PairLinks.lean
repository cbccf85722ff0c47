import SafeLinux.Kiumd.PageLinks
import Mathlib.Data.List.TakeWhile

/-!
# Page links over pairs of MAP_BUF and UNMAP_BUF

MAP_BUF leaves the table of an ordinary mapping inverted, as the dma-buf core has handed it over,
and UNMAP_BUF returns it. At IOVA zero MAP_BUF inverts the table back and never again, so that the
core inverts the original links when UNMAP_BUF returns the table. In every run of pairs whose
UNMAP_BUF fits what MAP_BUF has left, all page links are seen in their original form
(`pairs_see_original`).
-/

namespace SafeLinux.Kiumd

open Effects
open Effects.Program (perform)

/-! ## Attachments come and go -/

/-- The action detaches a buffer. -/
def Act.detaches : Act → Bool
  | .detach _ _ => true
  | _ => false

/-- The action attaches a buffer. -/
def Act.isAttach : Act → Bool
  | .attach _ _ => true
  | _ => false

section Attachments

variable {β : Type} {request : KCall β} {answer : β} {w w' : World} {d : DmaBuf}
  {a a' : Attachment} {trace : List (Event KCall)} {before after : List Act}

/-- Only its detachment gives an attachment back. -/
theorem attachment_mem_step (hstep : kernelStep request w answer = some w')
    (hact : ∀ d, request.act answer ≠ some (.detach d a)) (h : .attachment a ∈ w.held) :
    .attachment a ∈ w'.held := by
  refine held_mem_step hstep (fun hgiven => ?_) (fun _ => nofun) (fun _ => nofun) h
  cases request with
  | dmaBufDetach d a' =>
      cases hgiven
      exact hact d rfl
  | _ => cases hgiven

/-- Only an attachment adds an id. -/
theorem attachmentIds_step (hstep : kernelStep request w answer = some w')
    (hact : ∀ act ∈ request.act answer, act.isAttach = false) :
    w'.attachmentIds ≤ w.attachmentIds := by
  cases held_cases hstep with
  | same _ _ hheld => rw [World.attachmentIds, hheld, World.attachmentIds]
  | @taken r htaken _ hheld =>
      have hid : r.attachmentId = none := by
        cases r with
        | attachment a =>
            obtain ⟨d, dev, heq⟩ := taken_attachment htaken
            cases heq
            exact absurd (hact _ rfl) (by simp [Act.isAttach])
        | _ => rfl
      rw [World.attachmentIds, hheld, Multiset.filterMap_cons_none _ _ hid, ← World.attachmentIds]
  | given _ _ hheld =>
      rw [World.attachmentIds, hheld]
      exact Multiset.filterMap_le_filterMap _ (Multiset.erase_le _ _)
  | deleted _ hheld =>
      refine Multiset.filterMap_le_filterMap _ ?_
      rcases hheld with hheld | ⟨m, hheld⟩
      · rw [hheld]
        exact Multiset.erase_le _ _
      · rw [hheld]
        exact (Multiset.erase_le _ _).trans (Multiset.erase_le _ _)

/-- A new attachment has an id of its own. -/
theorem attach_step (hstep : kernelStep request w answer = some w')
    (hact : request.act answer = some (.attach d a)) :
    a.id ∉ w.attachmentIds ∧ .attachment a ∈ w'.held := by
  cases request with
  | dmaBufAttach =>
      cases answer <;> cases hact
      simp only [kernelStep] at hstep
      split at hstep <;> cases hstep
      rename_i hfits
      exact ⟨hfits.2, Multiset.mem_cons_self _ _⟩
  | copyStructFromUser | fget | pgtblTtbr | dmaBufGet | dmaBufMapAttachment | kzallocSmap
  | devIsPlatform => cases answer <;> cases hact
  | dmaMapSgtable | dmaMapResource =>
      simp only [KCall.act] at hact
      split at hact <;> cases hact
  | _ => cases hact

/-- A detachment takes the only attachment of its id away. -/
theorem detach_step (hstep : kernelStep request w answer = some w')
    (hact : request.act answer = some (.detach d a)) (hids : w.attachmentIds.Nodup)
    (ha : .attachment a ∈ w.held) : a.id ∉ w'.attachmentIds := by
  have hrelease : w' = w.release (.attachment a) := by
    cases event_of_act hact rfl
    exact given_step rfl hstep
  obtain ⟨rest, hrest⟩ := Multiset.exists_cons_of_mem ha
  have hheld : (w.release (.attachment a)).held = rest := by
    rw [World.release, hrest, Multiset.erase_cons_head]
  have hid : Resource.attachmentId (.attachment a) = some a.id := rfl
  rw [World.attachmentIds, hrest, Multiset.filterMap_cons_some _ _ _ hid] at hids
  rw [hrelease, World.attachmentIds, hheld]
  exact (Multiset.nodup_cons.mp hids).1

theorem attachment_mem_steps (h : Steps kernel w trace w')
    (hacts : ∀ act ∈ acts trace, act.detaches = false) (ha : .attachment a ∈ w.held) :
    .attachment a ∈ w'.held := by
  refine @Steps.keep _ _ kernel _ _ _ (fun s => .attachment a ∈ s.held) h ?_ ha
  intro e he s s' hstep hs
  refine attachment_mem_step hstep (fun d hact => ?_) hs
  exact absurd (hacts _ (List.mem_filterMap.mpr ⟨e, he, hact⟩)) (by simp [Act.detaches])

theorem attachmentIds_steps (h : Steps kernel w trace w')
    (hacts : ∀ act ∈ acts trace, act.isAttach = false) : w'.attachmentIds ≤ w.attachmentIds := by
  refine @Steps.keep _ _ kernel _ _ _ (fun s => s.attachmentIds ≤ w.attachmentIds) h ?_ le_rfl
  intro e he s s' hstep hs
  refine (attachmentIds_step hstep fun act hact => ?_).trans hs
  exact hacts act (List.mem_filterMap.mpr ⟨e, he, hact⟩)

theorem id_mem_attachmentIds (h : .attachment a ∈ w.held) : a.id ∈ w.attachmentIds :=
  (Multiset.mem_filterMap _ _).mpr ⟨_, h, rfl⟩

/-- A new attachment has another id than those there were before. -/
theorem attach_fresh (h : Steps kernel w trace w')
    (hacts : acts trace = before ++ .attach d a :: after)
    (hbefore : ∀ act ∈ before, act.detaches = false) (ha : .attachment a' ∈ w.held) :
    a'.id ≠ a.id := by
  obtain ⟨first, ⟨request, answer⟩, rest, rfl, hfirst, hview, _⟩ := Observer.exists_event hacts
  obtain ⟨w₁, hsteps₁, hsteps₂⟩ := steps_append_iff.mp h
  obtain ⟨w₂, hstep, _⟩ := steps_cons_iff.mp hsteps₂
  subst hfirst
  have hmem := id_mem_attachmentIds (attachment_mem_steps hsteps₁ hbefore ha)
  intro heq
  exact (attach_step hstep hview).1 (heq ▸ hmem)

/-- After a detachment its id is gone. -/
theorem detach_gone (h : Steps kernel w trace w')
    (hacts : acts trace = before ++ .detach d a :: after)
    (hbefore : ∀ act ∈ before, act.detaches = false)
    (hafter : ∀ act ∈ after, act.isAttach = false) (hids : w.attachmentIds.Nodup)
    (ha : .attachment a ∈ w.held) : a.id ∉ w'.attachmentIds := by
  obtain ⟨first, ⟨request, answer⟩, rest, rfl, hfirst, hview, hrest⟩ :=
    Observer.exists_event hacts
  obtain ⟨w₁, hsteps₁, hsteps₂⟩ := steps_append_iff.mp h
  obtain ⟨w₂, hstep, hsteps₃⟩ := steps_cons_iff.mp hsteps₂
  subst hfirst hrest
  have hmem := attachment_mem_steps hsteps₁ hbefore ha
  have hnodup : w₁.attachmentIds.Nodup := by
    refine @Steps.keep _ _ kernel _ _ _ (fun s => s.attachmentIds.Nodup) hsteps₁ ?_ hids
    intro e _ s s' hstep hs
    exact attachmentIds_nodup_step hstep hs
  exact Multiset.notMem_mono (Multiset.subset_of_le (attachmentIds_steps hsteps₃ hafter))
    (detach_step hstep hview hnodup hmem)

end Attachments

/-! ## UNMAP_BUF completes -/

section Completes

variable {c p : Nat} {u : KiumdUser} {d : DmaBuf} {a : Attachment} {w : World}

/-- The entry is deleted, or a lookup has failed. -/
def DeletesOr (c : Nat) (u : KiumdUser) : Post KCall World Int := fun trace _ _ =>
  (∃ p, .delete c p ∈ acts trace) ∨ LookupFailed u trace

instance : (DeletesOr c u).Stable where
  prepend past trace _ _ h := by
    rcases h with ⟨p, hmem⟩ | hfailed
    · refine .inl ⟨p, ?_⟩
      rw [acts_append]
      exact List.mem_append_right _ hmem
    · exact .inr (hfailed.mono fun e he => List.mem_append_right _ he)

theorem delete_deletesOr {rest : Unit → KProg Int} :
    wp kernel .any (perform (.smmuDel c p) >>= rest) (DeletesOr c u) w :=
  wp_step fun _ _ _ => wp_always fun _ _ _ => .inl ⟨p, List.mem_cons_self⟩

theorem unmapFinish_deletesOr :
    wp kernel .any (unmapFinish c u p d a) (DeletesOr c u) w := by
  unfold unmapFinish
  split
  · rename_i hkgsl
    rw [wp_bind]
    refine wp_mono (kiumdGetIommuDomain_spec (Frame.refl w) (.inr hkgsl)) ?_
    rintro trace result w₁ ⟨_, ⟨dom, rfl⟩ | ⟨rfl | rfl, hfailed⟩⟩
    · exact wp_after (wp_step fun _ _ _ => wp_after delete_deletesOr)
    · exact .inr hfailed
    · exact wp_pure.mpr (.inr (hfailed.mono fun e he => List.mem_append_left _ he))
  · exact delete_deletesOr

theorem unmapIovaZero_deletesOr (hzero : u.isIovaZero = FIXED_IOVA_AT_ZERO) :
    wp kernel .any (unmapIovaZero c u p d a) (DeletesOr c u) w := by
  unfold unmapIovaZero
  rw [wp_bind]
  refine wp_mono (kiumdGetIommuDomain_spec (Frame.refl w) (.inl hzero)) ?_
  rintro trace result w₁ ⟨_, ⟨dom, rfl⟩ | ⟨rfl | rfl, hfailed⟩⟩
  · refine wp_after (wp_step fun size w₂ _ => ?_)
    split
    · rename_i hsize
      exact wp_pure.mpr (.inr (.of_mem List.mem_cons_self (bne_iff_ne.mpr hsize)))
    · exact wp_after unmapFinish_deletesOr
  · exact .inr hfailed
  · exact wp_pure.mpr (.inr (hfailed.mono fun e he => List.mem_append_left _ he))

/-- The buffer is not unmapped, or the entry is deleted, or a lookup has failed too late. -/
def Completes (c : Nat) (u : KiumdUser) : Post KCall World Int := fun trace _ _ =>
  afterUnmap trace = [] ∨ (∃ p, .delete c p ∈ acts trace) ∨ LookupFailed u (afterUnmap trace)

variable {β : Type} {request : KCall β} {answer : β} {trace : List (Event KCall)}

theorem afterUnmap_unmap (h : request.isDmaUnmap = true) :
    afterUnmap (⟨request, answer⟩ :: trace) = ⟨request, answer⟩ :: trace := by
  rw [afterUnmap, List.dropWhile_cons_of_neg (by simpa using h)]

theorem afterUnmap_other (h : request.isDmaUnmap = false) :
    afterUnmap (⟨request, answer⟩ :: trace) = afterUnmap trace := by
  rw [afterUnmap, List.dropWhile_cons_of_pos (by simpa using h), ← afterUnmap]

/-- The rule for a call before the buffer is unmapped. -/
theorem completes_call [Nonempty β] {rest : β → KProg Int} (h : request.isDmaUnmap = false)
    (hrest : ∀ answer w', wp kernel .any (rest answer) (Completes c u) w') :
    wp kernel .any (perform request >>= rest) (Completes c u) w := by
  refine wp_step fun answer w' _ => wp_mono (hrest answer w') ?_
  intro trace _ _ hcompletes
  show afterUnmap (⟨request, answer⟩ :: trace) = [] ∨
    (∃ p, .delete c p ∈ acts (⟨request, answer⟩ :: trace)) ∨
      LookupFailed u (afterUnmap (⟨request, answer⟩ :: trace))
  rw [afterUnmap_other h, acts_cons]
  refine hcompletes.imp_right (Or.imp_left ?_)
  rintro ⟨p, hmem⟩
  exact ⟨p, List.mem_append_right _ hmem⟩

/-- The rule for the unmapping of the buffer. -/
theorem completes_unmap [Nonempty β] {rest : β → KProg Int} (h : request.isDmaUnmap = true)
    (hrest : ∀ answer w', wp kernel .any (rest answer) (DeletesOr c u) w') :
    wp kernel .any (perform request >>= rest) (Completes c u) w := by
  refine wp_step fun answer w' _ => wp_mono (hrest answer w') ?_
  intro trace _ _ hdeletes
  show afterUnmap (⟨request, answer⟩ :: trace) = [] ∨
    (∃ p, .delete c p ∈ acts (⟨request, answer⟩ :: trace)) ∨
      LookupFailed u (afterUnmap (⟨request, answer⟩ :: trace))
  rw [afterUnmap_unmap h, acts_cons]
  rcases hdeletes with ⟨p, hmem⟩ | hfailed
  · exact .inr (.inl ⟨p, List.mem_append_right _ hmem⟩)
  · exact .inr (.inr (hfailed.mono fun e he => List.mem_cons_of_mem _ he))

theorem completes_pure {ret : Int} : wp kernel .any (pure ret) (Completes c u) w :=
  wp_pure.mpr (.inl rfl)

theorem completes_oops : wp kernel .any (perform .oops >>= Empty.elim) (Completes c u) w :=
  wp_oops (.inl rfl)

theorem completes_fput {file : File} {ret : Int} :
    wp kernel .any (mapFailFput file ret) (Completes c u) w :=
  completes_call rfl fun _ _ => completes_pure

theorem unmapPrivileged_completes {dir : Int} {file : File} :
    wp kernel .any (unmapPrivileged c u p d a dir file) (Completes c u) w := by
  unfold unmapPrivileged
  split
  · split
    · split
      · split
        · split
          · refine completes_unmap rfl fun _ _ => wp_step fun _ _ _ => ?_
            exact wp_after unmapFinish_deletesOr
          · exact completes_oops
        · exact completes_fput
      · exact completes_fput
    · exact completes_fput
  · exact completes_oops

/-- The part of UNMAP_BUF for the buffer of an entry. -/
theorem unmapBuffer_completes {d : DmaBuf} {a : Attachment} {dir : Int} : wp kernel .any (do
    if u.dmaAttr = DMA_ATTR_PRIVILEGED ∧ u.isIovaZero ≠ FIXED_IOVA_AT_ZERO then
      let some file ← perform (.fget u.vfioFd) | return -EINVAL
      unmapPrivileged c u p d a dir file
    else
      let some sgt := (← perform (.readSmap p)).sgtPtr | return -EINVAL
      perform (.dmaBufUnmapAttachment a sgt dir)
      if u.isIovaZero = FIXED_IOVA_AT_ZERO then
        unmapIovaZero c u p d a
      else
        unmapFinish c u p d a) (Completes c u) w := by
  split
  · refine completes_call rfl fun file w₁ => ?_
    split
    · exact unmapPrivileged_completes
    · exact completes_pure
  · refine completes_call rfl fun data w₁ => ?_
    split
    · refine completes_unmap rfl fun _ w₂ => ?_
      split
      · rename_i hzero
        exact unmapIovaZero_deletesOr hzero
      · exact unmapFinish_deletesOr
    · exact completes_pure

theorem unmapRelease_completes : wp kernel .any (unmapRelease c u p) (Completes c u) w := by
  unfold unmapRelease
  refine completes_call rfl fun data w₁ => ?_
  split
  · refine completes_call rfl fun data' w₂ => ?_
    split
    · by_cases hkgsl : IsKgsl u.ptselect
      · simp only [clearMapIova, if_pos hkgsl]
        exact completes_call rfl fun _ _ => unmapBuffer_completes
      · simp only [clearMapIova, if_neg hkgsl]
        exact unmapBuffer_completes
    · exact completes_pure
  · exact completes_pure

/-- UNMAP_BUF deletes the entry of a buffer that it has unmapped unless a lookup fails too late. -/
theorem kiumdDmabufVfioUnmap_completes :
    wp kernel .any (kiumdDmabufVfioUnmap u (some (some c))) (Completes c u) w := by
  unfold kiumdDmabufVfioUnmap
  refine completes_call rfl fun copied w₁ => ?_
  split
  · exact completes_pure
  split
  · exact completes_pure
  refine completes_call rfl fun found w₂ => ?_
  split
  · exact unmapRelease_completes
  · exact completes_pure

end Completes

/-! ## What MAP_BUF does to page links -/

/-- The request leaves the table of the buffer to the driver as the core has handed it over. -/
def KiumdUser.LeavesMangled (u : KiumdUser) : Prop :=
  ¬ u.Privileged ∧ u.isIovaZero ≠ FIXED_IOVA_AT_ZERO

instance (u : KiumdUser) : Decidable u.LeavesMangled := inferInstanceAs (Decidable (_ ∧ _))

/-- What MAP_BUF does to the page links of a table once the exporter has made it. -/
def OnTable (debug : Bool) (u : KiumdUser) (a : Attachment) (las : List LinkAct) : Prop :=
  las = [.detach a] ∨ las = [.handOver a.table] ∨
    ∃ maps, MapsBuffer u a maps ∧ las = linksOf debug maps

/-- What a MAP_BUF whose reply is copied does to page links: nothing, or it works on the table of
the attachment it has made, which is that of the entry it adds. -/
inductive MapLinks (debug : Bool) (u : KiumdUser) (as : List Act) : Prop where
  | untouched : linksOf debug as = [] → AddsNone as → MapLinks debug u as
  | touched {d : DmaBuf} {a : Attachment} {before after : List Act} {las : List LinkAct} :
      as = before ++ .attach d a :: after → (∀ act ∈ before, act.detaches = false) →
      linksOf debug as = .attach a :: las → OnTable debug u a las →
      (∀ act ∈ as, act.adds = true → (∃ c v p id, act = .add c p (mapEntry u v d a) id) ∧
        ∃ maps, MapsBuffer u a maps ∧ las = linksOf debug maps) → MapLinks debug u as

section Map

variable {debug : Bool} {orig links : PageLinks} {u : KiumdUser} {c p : Nat} {d : DmaBuf}
  {a : Attachment} {v : VfioDevice} {as : List Act} {las : List LinkAct} {result : Option Int}
  {trace : List (Event KCall)}

theorem reply_copyFailed {arg : UserStruct} (h : .reply arg false ∈ acts trace) :
    CopyFailed trace := by
  obtain ⟨⟨request, answer⟩, he, hact⟩ := List.mem_filterMap.mp h
  cases event_of_act hact rfl
  exact ⟨_, he, rfl⟩

/-- Actions that do nothing to page links and detach nothing. -/
def Act.isUnlinked : Act → Bool
  | .attach _ _ | .detach _ _ => false
  | act => act.isInert

theorem linksOf_unlinked (h : ∀ act ∈ as, act.isUnlinked = true) : linksOf debug as = [] := by
  refine List.flatMap_eq_nil_iff.mpr fun act hact => ?_
  have hunlinked := h act hact
  cases act <;> first | rfl | cases hunlinked

theorem unlinked_of_opening (h : ∀ act ∈ as, act.isOpening) :
    ∀ act ∈ as, act.isUnlinked = true := fun act hact => by
  have hopening := h act hact
  cases act <;> first | rfl | cases hopening

theorem OffsetShape.unlinked {size : U64} {ptselect : Int}
    (h : OffsetShape size ptselect as result) : ∀ act ∈ as, act.isUnlinked = true := by
  have hsearches : ∀ {searches : List Act}, (∀ act ∈ searches, act.isSearch) →
      ∀ act ∈ searches, act.isUnlinked = true := by
    intro searches hall act hact
    have hsearch := hall act hact
    cases act <;> first | rfl | cases hsearch
  cases h with
  | refused _ hall => exact hsearches hall
  | taken hall _ _ =>
      refine List.forall_mem_append.mpr ⟨hsearches hall, ?_⟩
      simp [reserveActs, Act.isUnlinked, Act.isInert]

theorem AddressShape.unlinked {t : SgTable} {addr : U64} (h : AddressShape u t as addr) :
    ∀ act ∈ as, act.isUnlinked = true := by
  cases h <;> simp [Act.isUnlinked, Act.isInert]

/-- What is done before the buffer is attached changes nothing. -/
theorem MapLinks.prepend {first : List Act} (h : MapLinks debug u as)
    (hfirst : ∀ act ∈ first, act.isUnlinked = true) (hadds : AddsNone first) :
    MapLinks debug u (first ++ as) := by
  have hlinks : linksOf debug (first ++ as) = linksOf debug as := by
    rw [linksOf_append, linksOf_unlinked hfirst, List.nil_append]
  have hdetaches : ∀ act ∈ first, act.detaches = false := fun act hact => by
    have hunlinked := hfirst act hact
    cases act <;> first | rfl | cases hunlinked
  cases h with
  | untouched hnone hadds' =>
      exact .untouched (hlinks.trans hnone) (List.forall_mem_append.mpr ⟨hadds, hadds'⟩)
  | @touched d a before after las has hbefore hlas htable hentry =>
      have has' : first ++ as = (first ++ before) ++ .attach d a :: after := by
        rw [has, List.append_assoc]
      refine .touched has' (List.forall_mem_append.mpr ⟨hdetaches, hbefore⟩) (hlinks.trans hlas)
        htable fun act hact hadd => hentry act ?_ hadd
      exact (List.mem_append.mp hact).resolve_left (hadds.not_mem hadd)

theorem AttachShape.mapLinks (h : AttachShape u c v d as result)
    (hcopied : ∀ arg, .reply arg false ∉ as) : MapLinks debug u as := by
  cases h with
  | refused _ => exact .untouched rfl (by simp [AddsNone, Act.adds])
  | @attached a rest _ _ _ hattached =>
  have hnone : ∀ {las : List LinkAct}, linksOf debug rest = las → AddsNone rest →
      OnTable debug u a las → MapLinks debug u (.attach d a :: rest) := by
    intro las hlas hadds htable
    refine .touched (List.nil_append _).symm (by simp) (congrArg (LinkAct.attach a :: ·) hlas)
      htable fun act hact hadd => ?_
    rcases List.mem_cons.mp hact with rfl | hmem
    · cases hadd
    · exact absurd hmem (hadds.not_mem hadd)
  cases hattached with
  | detached _ => exact hnone rfl (by simp [AddsNone, Act.adds]) (.inl rfl)
  | undomained _ _ => exact hnone rfl (by simp [AddsNone, Act.adds]) (.inr (.inl rfl))
  | @mapped maps acts' _ hmaps hpublish =>
  have htable : OnTable debug u a (linksOf debug maps) := .inr (.inr ⟨maps, hmaps, rfl⟩)
  cases hpublish with
  | unpublished _ =>
      refine hnone (by rw [List.append_nil]) ?_ htable
      rw [List.append_nil]
      exact hmaps.sparesEntries.addsNone
  | @stale addrs p id addr ret _ _ =>
      refine absurd ?_ (hcopied (.user { u with id := id, dmaAddr := addr }))
      simp
  | @done addrs p id addr haddr =>
      have hlast : ∀ act ∈ .alloc p :: .add c p (mapEntry u v d a) id :: addrs ++
          [.reply (.user { u with id := id, dmaAddr := addr }) true], act.isUnlinked = true := by
        refine List.forall_mem_cons.mpr ⟨rfl, List.forall_mem_cons.mpr ⟨rfl, ?_⟩⟩
        exact List.forall_mem_append.mpr ⟨haddr.unlinked, by simp [Act.isUnlinked, Act.isInert]⟩
      refine .touched (List.nil_append _).symm (by simp) ?_ htable fun act hact hadd => ?_
      · rw [linksOf_cons, linksOf_append, linksOf_unlinked hlast, List.append_nil]
        rfl
      · refine ⟨⟨c, v, p, id, ?_⟩, maps, hmaps, rfl⟩
        rcases List.mem_cons.mp hact with rfl | hmem
        · cases hadd
        have hmem := (List.mem_append.mp hmem).resolve_left
          (hmaps.sparesEntries.addsNone.not_mem hadd)
        rcases List.mem_cons.mp hmem with rfl | hmem
        · cases hadd
        rcases List.mem_cons.mp hmem with rfl | hmem
        · rfl
        · refine absurd hmem (AddsNone.not_mem ?_ hadd)
          exact List.forall_mem_append.mpr
            ⟨haddr.sparesEntries.addsNone, by simp [Act.adds]⟩

theorem openActs_unlinked {file : File} : ∀ act ∈ openActs u p file d, act.isUnlinked = true := by
  simp [openActs, Act.isUnlinked, Act.isInert]

theorem openActs_addsNone {file : File} : AddsNone (openActs u p file d) := by
  simp [AddsNone, openActs, Act.adds]

theorem MapShape.mapLinks (h : MapShape u c as result)
    (hcopied : ∀ arg, .reply arg false ∉ as) : MapLinks debug u as := by
  have hput : ∀ {d : DmaBuf}, MapLinks debug u [.put d] :=
    .untouched rfl (by simp [AddsNone, Act.adds])
  cases h with
  | early _ hopening =>
      exact .untouched (linksOf_unlinked (unlinked_of_opening hopening))
        (addsNone_of_isOpening hopening)
  | unreserved _ _ _ hoffset =>
      exact (hput.prepend hoffset.unlinked hoffset.sparesEntries.addsNone).prepend
        openActs_unlinked openActs_addsNone
  | uncookied _ _ _ _ hoffset =>
      exact (hput.prepend hoffset.unlinked hoffset.sparesEntries.addsNone).prepend
        openActs_unlinked openActs_addsNone
  | @reserved _ _ v d _ acts' dev reserved _ _ _ _ hoffset _ hattach =>
      have hlinks : MapLinks debug u acts' := hattach.mapLinks fun arg hmem => hcopied arg
        (List.mem_append_right _ (List.mem_append_right _ (List.mem_cons_of_mem _ hmem)))
      have hcookie : MapLinks debug u ([.cookie dev.domain .msi
          (mapIova (BitVec.ofInt 64 reserved) u.ptselect)] ++ acts') :=
        hlinks.prepend (by simp [Act.isUnlinked, Act.isInert]) (by simp [AddsNone, Act.adds])
      exact (hcookie.prepend hoffset.unlinked hoffset.sparesEntries.addsNone).prepend
        openActs_unlinked openActs_addsNone
  | plain _ _ hattach =>
      have hlinks : MapLinks debug u _ := hattach.mapLinks fun arg hmem => hcopied arg
        (List.mem_append_right _ hmem)
      exact hlinks.prepend openActs_unlinked openActs_addsNone

/-! ## The links a mapping leaves -/

/-- What a mapping leaves of the page links of its table. -/
theorem MapsBuffer.leavesLinks {maps : List Act} (h : MapsBuffer u a maps)
    (hlinks : links a.table = orig a.table) :
    SeesAll debug orig links (linksOf debug maps) ∧
      linksAfter debug orig links (linksOf debug maps) a.table =
        coreMangle (debug && decide u.LeavesMangled) (orig a.table) := by
  cases h with
  | privileged hprivileged _ =>
      have hleaves : ¬ u.LeavesMangled := fun hleaves => hleaves.1 hprivileged
      simp [linksOf, Act.linkActs, SeesAll, hleaves, hlinks, coreMangle]
  | attached hplain hiova =>
      have hleaves : u.LeavesMangled := ⟨hplain, hiova⟩
      simp [linksOf, Act.linkActs, SeesAll, LinkAct.Sees, LinkAct.apply, hleaves, hlinks]
  | zero result hiova =>
      have hleaves : ¬ u.LeavesMangled := fun hleaves => hleaves.2 hiova
      cases debug <;>
        simp [linksOf, Act.linkActs, SeesAll, LinkAct.Sees, LinkAct.apply, hleaves, hlinks,
          coreMangle, mangle_mangle]

theorem OnTable.sees (h : OnTable debug u a las) (hlinks : links a.table = orig a.table) :
    SeesAll debug orig links las := by
  rcases h with rfl | rfl | ⟨maps, hmaps, rfl⟩
  · exact ⟨hlinks, trivial⟩
  · exact ⟨trivial, trivial⟩
  · exact (hmaps.leavesLinks hlinks).1

/-- The tables of other attachments are left alone. -/
theorem OnTable.other (h : OnTable debug u a las) {t : SgTable} (ht : t ≠ a.table) :
    linksAfter debug orig links las t = links t := by
  rcases h with rfl | rfl | ⟨maps, hmaps, rfl⟩
  · rfl
  · simp [LinkAct.apply, ht]
  · cases hmaps with
    | privileged _ _ => rfl
    | attached _ _ => simp [linksOf, Act.linkActs, LinkAct.apply, ht]
    | zero result _ =>
        cases debug <;> simp [linksOf, Act.linkActs, LinkAct.apply, ht]

end Map

/-! ## What UNMAP_BUF does to page links -/

/-- What UNMAP_BUF does to page links: nothing, or it returns the table of the entry found, unless
the request is privileged, and detaches its attachment, or it returns a table and keeps the
entry. -/
inductive UnmapLinks (debug : Bool) (u : KiumdUser) (c : Nat) (w : World) (as : List Act) :
    Prop where
  | untouched : linksOf debug as = [] → UnmapLinks debug u c w as
  | released {p : Nat} {d : DmaBuf} {a : Attachment} {before after : List Act}
      {las : List LinkAct} : p ∈ w.table c → Finds c p as →
      (w.smaps p).dmabufattach = some a → as = before ++ .detach d a :: after →
      (∀ act ∈ before, act.detaches = false) → (∀ act ∈ after, act.isAttach = false) →
      linksOf debug as = las ++ [.detach a] →
      ((u.Privileged ∧ las = []) ∨
        (¬ u.Privileged ∧ ∃ t, (w.smaps p).sgtPtr = some t ∧ las = [.takeBack t])) →
      UnmapLinks debug u c w as
  | kept {a : Attachment} {t : SgTable} {dir : Int} : .unmapAttachment a t dir ∈ as →
      (∀ p, .delete c p ∉ as) → UnmapLinks debug u c w as

section Unmap

variable {debug : Bool} {orig links : PageLinks} {u : KiumdUser} {c p : Nat} {d : DmaBuf}
  {a : Attachment} {as bs : List Act} {result : Option Int} {w w' : World}
  {trace : List (Event KCall)}

theorem unlinked_detaches (h : ∀ act ∈ as, act.isUnlinked = true) :
    ∀ act ∈ as, act.detaches = false := fun act hact => by
  have hunlinked := h act hact
  cases act <;> first | rfl | cases hunlinked

/-- The end of UNMAP_BUF detaches the buffer and deletes the entry, or does neither. -/
theorem FinishShape.unmapLinks (h : FinishShape u c p d a as result) :
    ((∀ act ∈ as, act.isUnlinked = true) ∧ ∀ p, .delete c p ∉ as) ∨
      ∃ before, as = before ++ .detach d a :: [.put d] ∧
        ∀ act ∈ before, act.isUnlinked = true := by
  cases h with
  | undomained _ hopening =>
      refine .inl ⟨unlinked_of_opening hopening, fun p hmem => ?_⟩
      cases hopening _ hmem
  | @done opening hopening =>
      refine .inr ⟨opening ++ [.delete c p], ?_, ?_⟩
      · rw [deleteActs, List.append_assoc]
        rfl
      · refine List.forall_mem_append.mpr ⟨unlinked_of_opening hopening, ?_⟩
        simp [Act.isUnlinked, Act.isInert]

/-- A release without the end of UNMAP_BUF or followed by it. -/
theorem UnmapLinks.of_finish {first : List Act} {las : List LinkAct} (hp : p ∈ w.table c)
    (hfinds : Finds c p (first ++ as)) (ha : (w.smaps p).dmabufattach = some a)
    (hfirst : ∀ act ∈ first, act.detaches = false) (hlas : linksOf debug first = las)
    (hkeeps : ∀ p, .delete c p ∉ first)
    (hunmap : las ≠ [] → ∃ a t dir, .unmapAttachment a t dir ∈ first)
    (hkind : (u.Privileged ∧ las = []) ∨
      (¬ u.Privileged ∧ ∃ t, (w.smaps p).sgtPtr = some t ∧ las = [.takeBack t]))
    (h : FinishShape u c p d a as result) : UnmapLinks debug u c w (first ++ as) := by
  rcases h.unmapLinks with ⟨hunlinked, hkept⟩ | ⟨before, rfl, hbefore⟩
  · by_cases hnone : las = []
    · refine .untouched ?_
      rw [linksOf_append, linksOf_unlinked hunlinked, hlas, hnone]
      rfl
    · obtain ⟨a, t, dir, hmem⟩ := hunmap hnone
      refine .kept (List.mem_append_left _ hmem) fun p hdelete => ?_
      rcases List.mem_append.mp hdelete with hdelete | hdelete
      · exact hkeeps p hdelete
      · exact hkept p hdelete
  · have has : first ++ (before ++ .detach d a :: [.put d]) =
        (first ++ before) ++ .detach d a :: [.put d] := (List.append_assoc _ _ _).symm
    refine .released hp hfinds ha has
      (List.forall_mem_append.mpr ⟨hfirst, unlinked_detaches hbefore⟩) (by simp [Act.isAttach]) ?_
      hkind
    rw [linksOf_append, linksOf_append, linksOf_unlinked hbefore, hlas]
    rfl

/-- The actions of UNMAP_BUF up to what it does with the buffer of the entry found. -/
def lookupActs (u : KiumdUser) (c p : Nat) (w : World) (d : DmaBuf) : List Act :=
  .find c u.id (some p) :: .read p (w.smaps p) :: .read p (w.smaps p) ::
    clearActs u.dmaAddr d.size u.ptselect

theorem lookupActs_unlinked : ∀ act ∈ lookupActs u c p w d, act.isUnlinked = true := by
  have hclear : ∀ act ∈ clearActs u.dmaAddr d.size u.ptselect, act.isUnlinked = true := by
    unfold clearActs
    split <;> simp [Act.isUnlinked, Act.isInert]
  refine List.forall_mem_cons.mpr ⟨rfl, List.forall_mem_cons.mpr ⟨rfl, ?_⟩⟩
  exact List.forall_mem_cons.mpr ⟨rfl, hclear⟩

theorem lookupActs_spares : SparesEntries (lookupActs u c p w d) := by
  refine List.forall_mem_cons.mpr ⟨rfl, List.forall_mem_cons.mpr ⟨rfl, ?_⟩⟩
  exact List.forall_mem_cons.mpr ⟨rfl, clearActs_sparesEntries⟩

theorem lookupActs_keeps : ∀ q, .delete c q ∉ lookupActs u c p w d := fun q hmem => by
  cases lookupActs_spares _ hmem

theorem UnmapShape.unmapLinks (h : UnmapShape u c as result) (hsteps : Steps kernel w trace w')
    (hacts : acts trace = as) (hlive : ∀ p ∈ w.table c, .smap p ∈ w.held) :
    UnmapLinks debug u c w as := by
  cases h with
  | early _ hearly =>
      refine .untouched (linksOf_unlinked fun act hact => ?_)
      rw [hearly act hact]
      rfl
  | @found p rest _ _ hrelease =>
  have hfound : acts trace = [] ++ .find c u.id (some p) :: rest := hacts
  have hmem : p ∈ w.table c := (find_steps hsteps hfound sparesEntries_nil (.inl rfl)).1
  have hp : .smap p ∈ w.held := hlive p hmem
  have hread : ∀ (before after : List Act) {data : SmmuMapData},
      .find c u.id (some p) :: rest = before ++ .read p data :: after → SparesEntries before →
      data = w.smaps p := fun before after data heq hbefore =>
    read_held_steps hsteps (hacts.trans heq) hbefore hp
  cases hrelease with
  | empty _ hreads =>
      refine .untouched (linksOf_unlinked (List.forall_mem_cons.mpr ⟨rfl, fun act hact => ?_⟩))
      obtain ⟨data, rfl⟩ := hreads act hact
      rfl
  | @buffer data data' d a acts' _ hd ha hunmapped =>
  obtain rfl : data = w.smaps p :=
    hread [.find c u.id (some p)] _ rfl (by simp [Act.sparesEntries])
  obtain rfl : data' = w.smaps p :=
    hread [.find c u.id (some p), .read p (w.smaps p)] _ rfl (by simp [Act.sparesEntries])
  have has : .find c u.id (some p) :: (.read p (w.smaps p) :: .read p (w.smaps p) ::
      clearActs u.dmaAddr d.size u.ptselect ++ acts') = lookupActs u c p w d ++ acts' := rfl
  rw [has] at hread ⊢
  have hsgt : ∀ {data : SmmuMapData} {t : SgTable} {rest : List Act},
      acts' = .read p data :: rest → data.sgtPtr = some t → (w.smaps p).sgtPtr = some t := by
    rintro data t rest rfl hsgt
    obtain rfl : data = w.smaps p := hread _ rest rfl lookupActs_spares
    exact hsgt
  have hlookup : linksOf debug (lookupActs u c p w d) = [] := linksOf_unlinked lookupActs_unlinked
  -- the end of the request after its lookups and the release of the mapping
  have hfinish : ∀ {middle acts'' : List Act} {las : List LinkAct} {result : Option Int},
      (∀ act ∈ middle, act.detaches = false) → linksOf debug middle = las →
      (∀ q, .delete c q ∉ middle) →
      (las ≠ [] → ∃ a t dir, .unmapAttachment a t dir ∈ middle) →
      ((u.Privileged ∧ las = []) ∨
        (¬ u.Privileged ∧ ∃ t, (w.smaps p).sgtPtr = some t ∧ las = [.takeBack t])) →
      FinishShape u c p d a acts'' result →
      UnmapLinks debug u c w (lookupActs u c p w d ++ (middle ++ acts'')) := by
    intro middle acts'' las result hmiddle hlas hkeeps hunmap hkind hshape
    rw [← List.append_assoc]
    refine .of_finish hmem ⟨u.id, .inl (by simp [lookupActs])⟩ ha
      (List.forall_mem_append.mpr ⟨unlinked_detaches lookupActs_unlinked, hmiddle⟩)
      (by rw [linksOf_append, hlookup, hlas, List.nil_append]) (fun q hdelete => ?_) ?_ hkind hshape
    · rcases List.mem_append.mp hdelete with hdelete | hdelete
      · exact lookupActs_keeps q hdelete
      · exact hkeeps q hdelete
    · intro hne
      obtain ⟨a, t, dir, hmem⟩ := hunmap hne
      exact ⟨a, t, dir, List.mem_append_right _ hmem⟩
  cases hunmapped with
  | failed _ hfailed =>
      refine .untouched (linksOf_unlinked (List.forall_mem_append.mpr
        ⟨lookupActs_unlinked, fun act hact => ?_⟩))
      rcases hfailed act hact with hopening | ⟨data, rfl⟩
      · cases act <;> first | rfl | cases hopening
      · rfl
  | @privileged file v dev t acts'' _ hprivileged _ _ _ hshape =>
      have hall : UnmapLinks debug u c w (lookupActs u c p w d ++ ([.file u.vfioFd file,
          .unmapSgtable dev t u.unmapDir DMA_ATTR_PRIVILEGED] ++ acts'')) :=
        hfinish (by simp [Act.detaches]) rfl (by simp) (fun hne => absurd rfl hne)
          (.inl ⟨hprivileged, rfl⟩) hshape
      exact hall
  | @attached data t acts'' _ hplain hiova hdata hshape =>
      have hall : UnmapLinks debug u c w (lookupActs u c p w d ++ ([.read p data,
          .unmapAttachment a t u.unmapDir] ++ acts'')) :=
        hfinish (by simp [Act.detaches]) rfl (by simp) (fun _ => ⟨a, t, u.unmapDir, by simp⟩)
          (.inr ⟨hplain, t, hsgt rfl hdata, rfl⟩) hshape
      exact hall
  | @zeroFailed data t acts'' _ hiova hdata _ hfailed =>
      refine .kept (List.mem_append_right _ (List.mem_cons_of_mem _ List.mem_cons_self))
        fun q hdelete => ?_
      rcases List.mem_append.mp hdelete with hdelete | hdelete
      · exact lookupActs_keeps q hdelete
      simp only [List.mem_cons, reduceCtorEq, false_or] at hdelete
      rcases hfailed _ hdelete with hopening | ⟨dom, size, _, heq⟩
      · cases hopening
      · cases heq
  | @zero data t file v dev acts'' _ hiova hdata _ _ hshape =>
      have hall : UnmapLinks debug u c w (lookupActs u c p w d ++ ([.read p data,
          .unmapAttachment a t u.unmapDir, .file u.vfioFd file,
          .unmap dev.domain 0 d.size d.size] ++ acts'')) :=
        hfinish (by simp [Act.detaches]) rfl (by simp) (fun _ => ⟨a, t, u.unmapDir, by simp⟩)
          (.inr ⟨fun hprivileged => hprivileged.2 hiova, t, hsgt rfl hdata, rfl⟩) hshape
      exact hall

end Unmap

/-! ## Runs -/

/-- The condition on a request of a run of MAP_BUF and UNMAP_BUF pairs in a kernel of this
configuration: MAP_BUF can copy its reply, no lookup of UNMAP_BUF fails after it has unmapped the
buffer, and in a debug build it is privileged exactly when the MAP_BUF that has created the entry
has not left the table inverted. -/
def PairsFit (debug : Bool) : Admission Ioctl KCall World := fun history i _ trace =>
  match i.request with
  | .mapBuf _ => ¬ CopyFailed trace
  | .unmapBuf u => ¬ UnmapLate u trace ∧ ∀ p j as, Finds i.ctx p (acts trace) →
      CreatedBy i.ctx p history j as →
      ∃ u₁, j.request = .mapBuf u₁ ∧ (debug = true → (u₁.LeavesMangled ↔ ¬ u.Privileged))
  | _ => False

/-- The table of an entry is as the MAP_BUF that has created the entry has left it. -/
def TablesLeft (debug : Bool) (orig : PageLinks) (history : History Ioctl KCall) (w : World)
    (links : PageLinks) : Prop :=
  ∀ c, ∀ p ∈ w.table c, ∀ j as u a, CreatedBy c p history j as → j.request = .mapBuf u →
    (w.smaps p).dmabufattach = some a →
    links a.table = coreMangle (debug && decide u.LeavesMangled) (orig a.table)

section Runs

variable {debug : Bool} {orig links : PageLinks} {u : KiumdUser} {c p : Nat} {d : DmaBuf}
  {a : Attachment} {as : List Act} {i : Ioctl} {result : Option Int} {w w' : World}
  {trace : List (Event KCall)} {history : History Ioctl KCall}

theorem PairsFit.settled (h : PairsFit debug history i w trace) :
    Ioctl.Settled history i w trace := by
  obtain ⟨c, request⟩ := i
  cases request with
  | mapBuf => exact h
  | unmapBuf => exact h.1
  | _ => exact h.elim

/-- The attachment of an entry is held. -/
theorem Backed.attachment_mem (h : Backed bufferNeeds w 0) (hp : p ∈ w.table c)
    (ha : (w.smaps p).dmabufattach = some a) :
    .attachment a ∈ w.held ∧ ((w.smaps p).sgtPtr = some a.table) := by
  cases h.shaped c p hp with
  | mmio m _ _ hattach =>
      rw [hattach] at ha
      cases ha
  | buffer d a' hbuffer =>
      obtain rfl : a' = a := Option.some.inj (hbuffer.attach.symm.trans ha)
      refine ⟨Multiset.mem_of_le (h.needs_le hp) ?_, hbuffer.sgt⟩
      simp [hbuffer.entryNeeds_eq, bufferNeeds]

/-- An entry of the table after a request was added by it or was there before, unchanged. -/
theorem entry_old_or_added (hb : Backed noNeeds w 0)
    (hexec : Exec kernel (kiumdIoctl i) w trace result w') (hp : p ∈ w'.table c) :
    AddsEntry c p (acts trace) ∨
      (¬ AddsEntry c p (acts trace) ∧ p ∈ w.table c ∧ w'.smaps p = w.smaps p) := by
  by_cases hnew : AddsEntry c p (acts trace)
  · exact .inl hnew
  · have hmem : p ∈ w.table c := (mem_table_steps hexec.steps hp).resolve_right hnew
    obtain ⟨_, hsame⟩ := (kiumdIoctl_entriesKept hb hexec c p hp).resolve_right
      (not_not.mpr (hb.smap_mem hmem))
    exact .inr ⟨hnew, hmem, hsame.smap⟩

/-- An entry that a request has not added was created by an earlier one. -/
theorem CreatedBy.earlier {j : Ioctl} (h : CreatedBy c p ((i, trace) :: history) j as)
    (hnew : ¬ AddsEntry c p (acts trace)) : CreatedBy c p history j as := by
  cases h with
  | last hadds => exact absurd hadds hnew
  | before _ hcreated => exact hcreated

/-- The tables of old entries that a request leaves alone stay as they were left. -/
theorem TablesLeft.old {links' : PageLinks} (h : TablesLeft debug orig history w links)
    (hb : Backed noNeeds w 0) (hexec : Exec kernel (kiumdIoctl i) w trace result w')
    (hnew : ∀ c p, p ∈ w'.table c → AddsEntry c p (acts trace) → ∀ u a,
      i.request = .mapBuf u → (w'.smaps p).dmabufattach = some a →
      links' a.table = coreMangle (debug && decide u.LeavesMangled) (orig a.table))
    (hold : ∀ c p a, p ∈ w.table c → p ∈ w'.table c → ¬ AddsEntry c p (acts trace) →
      (w.smaps p).dmabufattach = some a → links' a.table = links a.table) :
    TablesLeft debug orig ((i, trace) :: history) w' links' := by
  intro c p hp j as u a hcreated hj ha
  rcases entry_old_or_added hb hexec hp with hadds | ⟨hnone, hmem, hsame⟩
  · cases hcreated with
    | last _ => exact hnew c p hp hadds u a hj ha
    | before hnone _ => exact absurd hadds hnone
  · rw [hsame] at ha
    rw [hold c p a hmem hp hnone ha]
    exact h c p hmem j as u a (hcreated.earlier hnone) hj ha

/-- A MAP_BUF sees the original links and leaves the tables of all entries as it should. -/
theorem map_links (h : TablesLeft debug orig history w links) (hb : Backed noNeeds w 0)
    (hbacked : Backed bufferNeeds w 0) (hi : i.request = .mapBuf u)
    (hexec : Exec kernel (kiumdIoctl i) w trace result w') (hcopied : ¬ CopyFailed trace) :
    SeesAll debug orig links (linksOf debug (acts trace)) ∧
      TablesLeft debug orig ((i, trace) :: history) w'
        (linksAfter debug orig links (linksOf debug (acts trace))) := by
  have hshape := (kiumdIoctl_shows i).exec driver_admits hexec
  have hdescribes := hshape.addsOnce.describes hexec.steps
  rw [IoctlShape, hi] at hshape
  have hlinks : MapLinks debug u (acts trace) :=
    MapShape.mapLinks hshape fun arg hmem => hcopied (reply_copyFailed hmem)
  cases hlinks with
  | untouched hnone hadds =>
      rw [hnone]
      refine ⟨trivial, h.old hb hexec (fun c p _ hnew => ?_) fun _ _ _ _ _ _ _ => rfl⟩
      obtain ⟨act, hact, id, hdraws⟩ := hnew
      exact absurd hact (hadds.not_mem (Act.adds_of_draws hdraws))
  | @touched d a before after las has hbefore hlas htable hentry =>
      rw [hlas]
      have hnew : (LinkAct.attach a).apply debug orig links a.table = orig a.table := by
        simp [LinkAct.apply]
      refine ⟨⟨trivial, htable.sees hnew⟩, h.old hb hexec ?_ ?_⟩
      · intro c p _ hadds u' a' hi' ha'
        obtain ⟨_, _, act, hact, hdescribes'⟩ := hdescribes c p hadds
        obtain ⟨⟨c', v, p', id, rfl⟩, maps, hmaps, rfl⟩ := hentry act hact hdescribes'.adds
        obtain rfl : u = u' := by
          rw [hi] at hi'
          cases hi'
          rfl
        cases hdescribes' with
        | buffer hdata =>
            rw [hdata] at ha'
            obtain rfl : a = a' := Option.some.inj ha'
            exact (hmaps.leavesLinks hnew).2
      · intro c p a' hp _ _ ha'
        have hheld := (hbacked.attachment_mem hp ha').1
        have hne : a'.table ≠ a.table := fun heq =>
          attach_fresh hexec.steps has hbefore hheld (congrArg SgTable.attachment heq)
        rw [linksAfter_cons, htable.other hne]
        simp [LinkAct.apply, hne]

theorem afterUnmap_ne_nil {t : SgTable} {dir : Int}
    (h : .unmapAttachment a t dir ∈ acts trace) : afterUnmap trace ≠ [] := by
  obtain ⟨⟨request, answer⟩, he, hact⟩ := List.mem_filterMap.mp h
  cases event_of_act hact rfl
  intro hnil
  have hall := List.dropWhile_eq_nil_iff.mp hnil _ he
  simp [KCall.isDmaUnmap] at hall

/-- An UNMAP_BUF that fits the entry it finds sees the original links, and leaves the tables of the
other entries alone. -/
theorem unmap_links (h : TablesLeft debug orig history w links) (hb : Backed noNeeds w 0)
    (hbacked : Backed bufferNeeds w 0) (hbacked' : Backed bufferNeeds w' 0)
    (hids : w.attachmentIds.Nodup) (htraced : Traced history w) (hi : i.request = .unmapBuf u)
    (hexec : Exec kernel (kiumdIoctl i) w trace result w')
    (hfits : PairsFit debug history i w trace) :
    SeesAll debug orig links (linksOf debug (acts trace)) ∧
      TablesLeft debug orig ((i, trace) :: history) w'
        (linksAfter debug orig links (linksOf debug (acts trace))) := by
  have hshape := (kiumdIoctl_shows i).exec driver_admits hexec
  rw [IoctlShape, hi] at hshape
  rw [PairsFit, hi] at hfits
  have hnone : ∀ {c p : Nat}, ¬ AddsEntry c p (acts trace) := by
    rintro c p ⟨act, hact, id, hdraws⟩
    exact absurd hact ((UnmapShape.addsNone hshape).not_mem (Act.adds_of_draws hdraws))
  have hlinks : UnmapLinks debug u i.ctx w (acts trace) :=
    UnmapShape.unmapLinks hshape hexec.steps rfl fun p hp => hb.smap_mem hp
  cases hlinks with
  | untouched hempty =>
      rw [hempty]
      exact ⟨trivial, h.old hb hexec (fun c p _ hnew => absurd hnew hnone)
        fun _ _ _ _ _ _ _ => rfl⟩
  | kept hunmap hkept =>
      rw [kiumdIoctl, hi] at hexec
      rcases wp_exec kiumdDmabufVfioUnmap_completes hexec with hnever | ⟨p, hdelete⟩ | hfailed
      · exact absurd hnever (afterUnmap_ne_nil hunmap)
      · exact absurd hdelete (hkept p)
      · exact absurd ⟨afterUnmap_ne_nil hunmap, hfailed⟩ hfits.1
  | @released p d a before after las hp hfinds ha has hbefore hafter hlas hkind =>
      obtain ⟨hheld, htable⟩ := hbacked.attachment_mem hp ha
      obtain ⟨j, as, hcreated, hcreation⟩ := htraced i.ctx p hp
      obtain ⟨u₁, hj, hfit⟩ := hfits.2 p j as hfinds hcreated
      have hleft := h i.ctx p hp j as u₁ a hcreated hj ha
      have hgone := detach_gone hexec.steps has hbefore hafter hids hheld
      rw [hlas]
      have hlas' : SeesAll debug orig links (las ++ [.detach a]) ∧ ∀ t, t ≠ a.table →
          linksAfter debug orig links (las ++ [.detach a]) t = links t := by
        rcases hkind with ⟨hprivileged, rfl⟩ | ⟨hplain, t, ht, rfl⟩
        · have hsame : links a.table = orig a.table := by
            cases debug with
            | false => exact hleft
            | true =>
                have hnot : ¬ u₁.LeavesMangled := fun hleaves => (hfit rfl).mp hleaves hprivileged
                simpa [hnot, coreMangle] using hleft
          exact ⟨⟨hsame, trivial⟩, fun _ _ => rfl⟩
        · obtain rfl : t = a.table := Option.some.inj (ht.symm.trans htable)
          have hback : coreMangle debug (links a.table) = orig a.table := by
            cases debug with
            | false => exact hleft
            | true =>
                have hleaves : u₁.LeavesMangled := (hfit rfl).mpr hplain
                rw [hleft]
                simp [hleaves]
          refine ⟨⟨hback, ?_, trivial⟩, fun t ht => ?_⟩
          · simp [LinkAct.Sees, LinkAct.apply, hback]
          · simp [LinkAct.apply, ht]
      refine ⟨hlas'.1, h.old hb hexec (fun c p _ hnew => absurd hnew hnone) ?_⟩
      intro c' p' a' _ hp' hnot ha'
      refine hlas'.2 a'.table fun heq => ?_
      have hold : (w'.smaps p').dmabufattach = some a' := by
        obtain ⟨_, _, hsame⟩ := (entry_old_or_added hb hexec hp').resolve_left hnot
        rw [hsame]
        exact ha'
      have hid := id_mem_attachmentIds (hbacked'.attachment_mem hp' hold).1
      rw [show a'.id = a.id from congrArg SgTable.attachment heq] at hid
      exact hgone hid

theorem dmabufDebug_steps (h : Steps kernel w trace w') : w'.dmabufDebug = w.dmabufDebug := by
  refine @Steps.keep _ _ kernel _ _ _ (fun s => s.dmabufDebug = w.dmabufDebug) h ?_ rfl
  intro e _ s s' hstep hs
  exact (dmabufDebug_step hstep).trans hs

/-- The invariant of a run of pairs. -/
theorem pairs_links {w₀ : World} (hstart : w₀.Fresh)
    (h : Run kernel kiumdIoctl (PairsFit w₀.dmabufDebug) w₀ history w) :
    w.dmabufDebug = w₀.dmabufDebug ∧ SeesOriginal w₀.dmabufDebug orig history ∧
      TablesLeft w₀.dmabufDebug orig history w
        (linksAfter w₀.dmabufDebug orig orig (linkActs (historyCalls history))) := by
  induction h with
  | start =>
      refine ⟨rfl, trivial, fun c p hp => ?_⟩
      rw [hstart.table_nil c] at hp
      exact absurd hp List.not_mem_nil
  | @request history w w' i trace result hrun hexec hfits ih =>
      obtain ⟨hdebug, hsees, hleft⟩ := ih
      have hb := run_keeps hstart hrun
      have hsettled := hrun.mono fun _ _ _ _ hfit => PairsFit.settled hfit
      obtain ⟨hbacked, hids⟩ := run_backed hstart hsettled
      obtain ⟨hbacked', -⟩ := run_backed hstart (.request hsettled hexec hfits.settled)
      have hstep : linkActs trace = linksOf w₀.dmabufDebug (acts trace) ∧
          SeesAll w₀.dmabufDebug orig
            (linksAfter w₀.dmabufDebug orig orig (linkActs (historyCalls history)))
            (linksOf w₀.dmabufDebug (acts trace)) ∧
          TablesLeft w₀.dmabufDebug orig ((i, trace) :: history) w'
            (linksAfter w₀.dmabufDebug orig
              (linksAfter w₀.dmabufDebug orig orig (linkActs (historyCalls history)))
              (linksOf w₀.dmabufDebug (acts trace))) := by
        cases hi : i.request with
        | mapBuf u =>
            have hmap := hexec
            rw [kiumdIoctl, hi] at hmap
            have hcopied : ¬ CopyFailed trace := by
              rw [PairsFit, hi] at hfits
              exact hfits
            exact ⟨wp_exec (kiumdDmabufVfioMap_readsLinks w hdebug) hmap,
              map_links hleft hb hbacked hi hexec hcopied⟩
        | unmapBuf u =>
            have hunmap := hexec
            rw [kiumdIoctl, hi] at hunmap
            exact ⟨wp_exec (readsLinks_only kiumdDmabufVfioUnmap_unmangled w hdebug) hunmap,
              unmap_links hleft hb hbacked hbacked' hids (run_traced hstart hrun) hi hexec hfits⟩
        | _ =>
            rw [PairsFit, hi] at hfits
            exact hfits.elim
      obtain ⟨hreads, hsees', hleft'⟩ := hstep
      refine ⟨(dmabufDebug_steps hexec.steps).trans hdebug, ?_, ?_⟩
      · rw [SeesOriginal, historyCalls, linkActs_append, seesAll_append, hreads]
        exact ⟨hsees, hsees'⟩
      · rw [historyCalls, linkActs_append, linksAfter_append, hreads]
        exact hleft'

end Runs

/-- In a run of MAP_BUF and UNMAP_BUF pairs in which each UNMAP_BUF fits what MAP_BUF has left,
`iommu_map_sg` and the exporters always find the original page links. -/
theorem pairs_see_original (orig : PageLinks) {w₀ w : World} {history : History Ioctl KCall}
    (hstart : w₀.Fresh) (h : Run kernel kiumdIoctl (PairsFit w₀.dmabufDebug) w₀ history w) :
    SeesOriginal w₀.dmabufDebug orig history :=
  (pairs_links hstart h).2.1

/-- The page links of a table as the addresses of its entries. -/
def plainLinks : PageLinks := fun t => t.sgl.map fun e => .ofNat 64 e.phys

/-- The initial state of a debug build. -/
def World.initialDebug : World := { World.initial with dmabufDebug := true }

theorem fresh_initialDebug : World.initialDebug.Fresh := ⟨fun _ => rfl, fun _ => rfl, by decide⟩

/-- A pair in a debug build. -/
theorem pairs_see_original_plain : ∃ history w,
    Run kernel kiumdIoctl (PairsFit true) .initialDebug history w ∧
      history.map (·.1) = [⟨0, .unmapBuf plainUser⟩, ⟨0, .mapBuf plainUser⟩] ∧
      SeesOriginal true plainLinks history := by
  have hcheck : (kiumdIoctl ⟨0, .mapBuf plainUser⟩).check kernel
      (Answers.plain fun _ _ => false).choose .initialDebug
      (fun trace _ w => decide (¬ CopyFailed trace) &&
        (kiumdIoctl ⟨0, .unmapBuf plainUser⟩).check kernel
          (Answers.plain fun _ _ => false).choose w
          (fun trace' _ _ => decide (∀ e ∈ trace', e.call.lookupFails e.answer = false))) =
        true := by
    decide +kernel
  obtain ⟨trace, value, w, hexec, htest⟩ := Program.check_exec hcheck
  rw [Bool.and_eq_true, decide_eq_true_eq] at htest
  obtain ⟨hcopied, hsecond⟩ := htest
  obtain ⟨trace', value', w', hexec', hlookups⟩ := Program.check_exec hsecond
  have hlookups := of_decide_eq_true hlookups
  have hfits : PairsFit true [(⟨0, .mapBuf plainUser⟩, trace)] ⟨0, .unmapBuf plainUser⟩ w
      trace' := by
    refine ⟨?_, fun p j as _ hcreated => ⟨plainUser, ?_, fun _ => by decide⟩⟩
    · rintro ⟨-, ⟨hnegative, -⟩ | ⟨e, he, hfails⟩⟩
      · exact absurd hnegative (by decide)
      · rw [hlookups e ((List.dropWhile_sublist _).mem he)] at hfails
        cases hfails
    · cases hcreated with
      | last _ => rfl
      | before _ hbefore => cases hbefore
  have hrun : Run kernel kiumdIoctl (PairsFit World.initialDebug.dmabufDebug) .initialDebug _ w' :=
    .request (.request .start hexec hcopied) hexec' hfits
  exact ⟨_, w', hrun, rfl, pairs_see_original plainLinks fresh_initialDebug hrun⟩

/-- A request to map a buffer at IOVA zero. -/
def zeroUser : KiumdUser := { plainUser with isIovaZero := FIXED_IOVA_AT_ZERO }

/-- Only MAP_BUF and UNMAP_BUF are requested. -/
def Pairs : Admission Ioctl KCall World := fun _ i _ _ =>
  (∃ u, i.request = .mapBuf u) ∨ ∃ u, i.request = .unmapBuf u

/-- The exporter of a buffer that was mapped at IOVA zero gets inverted page links back. -/
theorem not_pairs_see_original : ¬ ∀ (orig : PageLinks) (w₀ w : World)
    (history : History Ioctl KCall), w₀.Fresh → Run kernel kiumdIoctl Pairs w₀ history w →
      SeesOriginal w₀.dmabufDebug orig history := by
  intro h
  have hcheck : (kiumdIoctl ⟨0, .mapBuf zeroUser⟩).check kernel
      (Answers.plain fun _ _ => false).choose .initialDebug
      (fun trace _ w => (kiumdIoctl ⟨0, .unmapBuf zeroUser⟩).check kernel
        (Answers.plain fun _ _ => false).choose w
        (fun trace' _ _ => decide (¬ SeesOriginal true plainLinks
          [(⟨0, .unmapBuf zeroUser⟩, trace'), (⟨0, .mapBuf zeroUser⟩, trace)]))) = true := by
    decide +kernel
  obtain ⟨trace, value, w, hexec, hsecond⟩ := Program.check_exec hcheck
  obtain ⟨trace', value', w', hexec', htest⟩ := Program.check_exec hsecond
  exact of_decide_eq_true htest (h plainLinks _ w' _ fresh_initialDebug
    (.request (.request .start hexec (.inl ⟨_, rfl⟩)) hexec' (.inr ⟨_, rfl⟩)))

end SafeLinux.Kiumd
