import SafeLinux.Kiumd.Backing
import SafeLinux.Kiumd.BufferParts
import SafeLinux.Kiumd.Creators

/-!
# Failed requests to unmap

UNMAP_BUF and SECURE_UNMAP give the parts of a mapping back one after the other and may fail at
each of them, with the entry still in the table. `failed_unmap_leaves_alone_iff` says which
failures leave everything as it was.
-/

namespace SafeLinux.Kiumd

open Effects
open Effects.Program (perform)

/-! ## What a request leaves alone -/

/-- The action gives back some part of a mapping: the range of a KGSL bitmap, a mapping, the
mapping at IOVA zero, the memory of the buffer or of the page table, the attachment, the reference
or the entry. -/
def Act.givesBack : Act → Bool
  | .put _ | .clear _ _ _ | .detach _ _ | .unmapAttachment _ _ _ | .unmapSgtable _ _ _ _
  | .unmap _ _ _ _ | .unmapResource _ _ _ | .assign _ _ _ _ | .free _ | .delete _ _
  | .deleteMmio _ _ | .unlink _ _ => true
  | _ => false

/-- Nothing has been given back, and the references, attachments, mappings, bitmaps, owners, tables
and entries are as before. -/
structure LeftAlone (w : World) (as : List Act) (w' : World) : Prop where
  kept : ∀ act ∈ as, act.givesBack = false
  held : ∀ r : Resource, r.isBufferPart = true → w'.held.count r = w.held.count r
  kgsl : w'.kgsl = w.kgsl
  owner : w'.owner = w.owner
  tables : w'.ctxs = w.ctxs
  entries : w'.smaps = w.smaps

/-- An action that looks something up. -/
def Act.isLookup : Act → Bool
  | .file _ _ | .pgd _ _ | .acl _ _ _ | .find _ _ _ | .read _ _ => true
  | _ => false

variable {β : Type} {w w' : World} {request : KCall β} {answer : β} {trace : List (Event KCall)}
  {r : Resource} {act : Act}

/-- All actions of the calls look something up. -/
def Looks (trace : List (Event KCall)) : Prop := ∀ act ∈ acts trace, act.isLookup = true

/-- Requests that only look things up leave everything alone. -/
theorem Looks.leftAlone (hlooks : Looks trace) (h : Steps kernel w trace w') :
    LeftAlone w (acts trace) w' := by
  have hlookup : ∀ {act : Act}, act.isLookup = true →
      act.givesBack = false ∧ act.writes = [] ∧ act.writesEntry = false ∧
        act.takesPart = none ∧ act.givesPart = none := by
    intro act hact
    cases act <;> first | exact ⟨rfl, rfl, rfl, rfl, rfl⟩ | cases hact
  have hleaves : ∀ f, Leaves f (acts trace) := by
    intro f act hact
    rw [(hlookup (hlooks act hact)).2.1]
    exact List.not_mem_nil
  exact {
    kept := fun act hact => (hlookup (hlooks act hact)).1
    held := fun r hr => (count_steps hr h).trans
      (countAfter_idle fun act hact => (hlookup (hlooks act hact)).2.2.2)
    kgsl := @steps_agrees _ _ .kgsl _ rfl h (hleaves _)
    owner := @steps_agrees _ _ .owner _ rfl h (hleaves _)
    tables := @steps_agrees _ _ .ctxs _ rfl h (hleaves _)
    entries := smaps_steps h fun act hact => (hlookup (hlooks act hact)).2.2.1 }

/-! ## UNMAP_BUF -/

/-- Whether a call has copied a request of the user. -/
def KCall.copyIn : {β : Type} → KCall β → β → Option Bool
  | _, .copyFromUser _, copied => some copied
  | _, _, _ => none

/-- Whether the request has been copied. -/
def copiedIn (trace : List (Event KCall)) : Option Bool :=
  trace.findSome? fun e => e.call.copyIn e.answer

/-- The file a call has looked up. -/
def KCall.fileOf : {β : Type} → KCall β → β → Option (Option File)
  | _, .fget _, file => some file
  | _, _, _ => none

/-- The first file a request has looked up. -/
def firstFile (trace : List (Event KCall)) : Option (Option File) :=
  trace.findSome? fun e => e.call.fileOf e.answer

/-- There is no file, or it names no device. -/
def NoDevice (file : Option File) : Prop := ∀ f, file = some f → f.privateData = some none

/-- UNMAP_BUF refuses to unmap a privileged buffer that is in no KGSL bitmap: the exporter keeps no
table for its attachment, or the request names no device. -/
structure PrivilegedRefused (u : KiumdUser) (a : Attachment) (trace : List (Event KCall)) :
    Prop where
  privileged : u.dmaAttr = DMA_ATTR_PRIVILEGED ∧ u.isIovaZero ≠ FIXED_IOVA_AT_ZERO
  notKgsl : ¬ IsKgsl u.ptselect
  refused : a.priv.join = none ∨ ∃ file, firstFile trace = some file ∧ NoDevice file

/-- UNMAP_BUF fails before it gives anything back: the request cannot be copied or its id is
negative, it names no entry of a buffer, or one of a privileged buffer that is refused. -/
def UnmapRefused (u : KiumdUser) (c : Nat) (w : World) (trace : List (Event KCall)) : Prop :=
  u.id.toInt < 0 ∨ copiedIn trace = some false ∨
    ∀ p, w.find c (fun data => data.id == u.id) = some p →
      ∀ a, (w.smaps p).dmabufattach = some a → PrivilegedRefused u a trace

/-- A failure that meets `refused` only looks things up, and every other one gives something
back. -/
def Settles (refused : List (Event KCall) → Prop) : Post KCall World Int :=
  fun trace result _ => ∀ ret, result = some ret → ret < 0 →
    (Looks trace ∧ refused trace) ∨ ((∃ act ∈ acts trace, act.givesBack = true) ∧ ¬ refused trace)

@[simp] theorem looks_nil : Looks [] := fun _ hact => absurd hact List.not_mem_nil

@[simp] theorem looks_cons : Looks (⟨request, answer⟩ :: trace) ↔
    (∀ act ∈ request.act answer, act.isLookup = true) ∧ Looks trace := by
  simp only [Looks, acts_cons, List.forall_mem_append, Option.mem_toList, Option.mem_def]

variable {refused : List (Event KCall) → Prop} {past : List (Event KCall)} {p : KProg Int}

/-- What has been refused before anything was given back. -/
theorem settles_refused (hlooks : Looks trace) (h : refused trace) {result : Option Int} :
    Settles refused trace result w := fun _ _ _ => .inl ⟨hlooks, h⟩

/-- Once something has been given back it does not matter what follows. -/
theorem settles_given {e : Event KCall} {act : Act} (he : e ∈ past)
    (hact : e.call.act e.answer = some act) (hgives : act.givesBack = true)
    (hnot : ∀ trace, ¬ refused (past ++ trace)) :
    wp kernel .any p ((Settles refused).after past) w := by
  refine wp_always fun trace result w' ret _ _ => .inr ⟨⟨act, ?_, hgives⟩, hnot trace⟩
  exact List.mem_filterMap.mpr ⟨e, List.mem_append_left _ he, hact⟩

section Unmap

variable {u : KiumdUser} {c smap : Nat} {b : World} {d : DmaBuf} {a : Attachment}

/-- The entry the request names is one of a buffer. -/
structure Names (b : World) (c : Nat) (u : KiumdUser) (smap : Nat) (d : DmaBuf) (a : Attachment) :
    Prop where
  id : ¬ u.id.toInt < 0
  found : b.find c (fun data => data.id == u.id) = some smap
  live : .smap smap ∈ b.held
  buffer : IsBuffer (b.smaps smap) d a

/-- The calls up to the first that gives something back or fails. -/
def unmapLookups (u : KiumdUser) (c smap : Nat) (data : SmmuMapData) : List (Event KCall) :=
  [⟨.copyFromUser (.user u), true⟩, ⟨.smmuFind c u.id, some smap⟩, ⟨.readSmap smap, data⟩,
    ⟨.readSmap smap, data⟩]

theorem Names.not_unmapRefused (h : Names b c u smap d a)
    (hnot : ¬ PrivilegedRefused u a (unmapLookups u c smap (b.smaps smap) ++ trace)) :
    ¬ UnmapRefused u c b (unmapLookups u c smap (b.smaps smap) ++ trace) := by
  rintro (hid | hcopied | hprivileged)
  · exact h.id hid
  · cases hcopied
  · exact hnot (hprivileged smap h.found a h.buffer.attach)

theorem Names.unmapRefused (h : Names b c u smap d a)
    (hrefused : PrivilegedRefused u a (unmapLookups u c smap (b.smaps smap) ++ trace)) :
    UnmapRefused u c b (unmapLookups u c smap (b.smaps smap) ++ trace) := by
  refine .inr (.inr fun p hp a' ha' => ?_)
  obtain rfl : smap = p := Option.some.inj (h.found.symm.trans hp)
  obtain rfl : a = a' := Option.some.inj (h.buffer.attach.symm.trans ha')
  exact hrefused

theorem unmapLookups_looks {data : SmmuMapData} (h : Looks trace) :
    Looks (unmapLookups u c smap data ++ trace) := by
  simpa [unmapLookups, KCall.act, Act.isLookup] using h

/-- Reading the entry gives its data. -/
theorem readSmap_live {data : SmmuMapData} (hp : .smap smap ∈ w.held)
    (hstep : kernelStep (.readSmap smap) w data = some w') : data = w.smaps smap ∧ w' = w := by
  simp only [kernelStep] at hstep
  split at hstep
  · rename_i hdata
    cases hstep
    exact ⟨hdata hp, rfl⟩
  · cases hstep

/-- Looking an entry up gives the one with the id. -/
theorem smmuFind_step {id : U32} {found : Option Nat}
    (hstep : kernelStep (.smmuFind c id) w found = some w') :
    found = w.find c (fun data => data.id == id) ∧ w' = w := by
  simp only [kernelStep] at hstep
  split at hstep
  · rename_i hfound
    cases hstep
    exact ⟨hfound, rfl⟩
  · cases hstep

/-- The privileged unmapping of a buffer that is in no KGSL bitmap. -/
theorem unmapPrivileged_settles (h : Names b c u smap d a)
    (hprivileged : u.dmaAttr = DMA_ATTR_PRIVILEGED ∧ u.isIovaZero ≠ FIXED_IOVA_AT_ZERO)
    (hkgsl : ¬ IsKgsl u.ptselect) {dir : Int} {file : File} :
    wp kernel .any (unmapPrivileged c u smap d a dir file)
      ((Settles (UnmapRefused u c b)).after
        (unmapLookups u c smap (b.smaps smap) ++ [⟨.fget u.vfioFd, some file⟩])) w := by
  have hexit {ret : Int} {w : World} (hrefused : a.priv.join = none ∨ NoDevice (some file)) :
      wp kernel .any (mapFailFput file ret) ((Settles (UnmapRefused u c b)).after
        (unmapLookups u c smap (b.smaps smap) ++ [⟨.fget u.vfioFd, some file⟩])) w := by
    refine wp_step fun _ w₁ _ => wp_pure.mpr ?_
    simp only [Post.after_apply, List.append_assoc, List.cons_append, List.nil_append]
    refine settles_refused (unmapLookups_looks ?_) (h.unmapRefused ⟨hprivileged, hkgsl, ?_⟩)
    · simp [KCall.act, Act.isLookup]
    · exact hrefused.imp_right fun hnone => ⟨some file, rfl, hnone⟩
  unfold unmapPrivileged
  cases hprivate : file.privateData with
  | none => exact wp_oops fun _ hresult => by cases hresult
  | some device =>
  cases device with
  | none =>
      refine hexit (.inr ?_)
      rintro _ ⟨⟩
      exact hprivate
  | some v =>
  cases hpriv : a.priv with
  | none => exact hexit (.inl (by simp [hpriv]))
  | some heapAttachment =>
  cases heapAttachment with
  | none => exact hexit (.inl (by simp [hpriv]))
  | some table =>
  cases hdev : v.dev with
  | none =>
      simp only [hdev]
      exact wp_oops fun _ hresult => by cases hresult
  | some dev =>
      simp only [hdev]
      refine wp_step fun _ w₁ _ => ?_
      rw [Post.after_after, List.append_assoc]
      refine settles_given
        (List.mem_append_right _ (List.mem_append_right _ (List.mem_singleton_self _))) rfl rfl
        fun trace => ?_
      rw [List.append_assoc]
      refine h.not_unmapRefused fun hrefused => ?_
      rcases hrefused.refused with hnone | ⟨file', hfirst, hnone⟩
      · rw [hpriv] at hnone
        cases hnone
      · obtain rfl : some file = file' := Option.some.inj hfirst
        rw [hnone file rfl] at hprivate
        cases hprivate

/-- What UNMAP_BUF does with the entry of a buffer. -/
theorem unmapRelease_settles (h : Names b c u smap d a) :
    wp kernel .any (unmapRelease c u smap)
      ((Settles (UnmapRefused u c b)).after
        [⟨.copyFromUser (.user u), true⟩, ⟨.smmuFind c u.id, some smap⟩]) b := by
  unfold unmapRelease
  refine wp_step fun data w₁ hstep => ?_
  obtain ⟨rfl, rfl⟩ := readSmap_live h.live hstep
  rw [h.buffer.dmabuf]
  refine wp_step fun data w₂ hstep₂ => ?_
  obtain ⟨rfl, rfl⟩ := readSmap_live h.live hstep₂
  rw [h.buffer.attach]
  have hpast : (((Settles (UnmapRefused u c w₂)).after
      [⟨.copyFromUser (.user u), true⟩, ⟨.smmuFind c u.id, some smap⟩]).after
        [⟨.readSmap smap, w₂.smaps smap⟩]).after [⟨.readSmap smap, w₂.smaps smap⟩] =
      (Settles (UnmapRefused u c w₂)).after (unmapLookups u c smap (w₂.smaps smap)) := by
    simp only [Post.after_after, List.cons_append, List.nil_append, unmapLookups]
  rw [hpast]
  by_cases hkgsl : IsKgsl u.ptselect
  · -- The range of the bitmap is cleared before anything else can fail.
    unfold clearMapIova
    rw [if_pos hkgsl]
    refine wp_step fun _ w₃ _ => ?_
    rw [Post.after_after]
    refine settles_given (List.mem_append_right _ (List.mem_singleton_self _)) rfl rfl
      fun trace => ?_
    rw [List.append_assoc]
    exact h.not_unmapRefused fun hrefused => hrefused.notKgsl hkgsl
  unfold clearMapIova
  rw [if_neg hkgsl]
  dsimp only
  split
  · rename_i hprivileged
    refine wp_step fun file w₃ hstep₃ => ?_
    rw [Post.after_after]
    cases file with
    | some file => exact unmapPrivileged_settles h hprivileged hkgsl
    | none =>
        refine wp_pure.mpr ?_
        simp only [Post.after_apply, List.append_assoc, List.cons_append, List.nil_append]
        refine settles_refused (w := w₃) (unmapLookups_looks ?_) (h.unmapRefused ?_)
        · simp [KCall.act]
        · exact ⟨hprivileged, hkgsl, .inr ⟨none, rfl, fun _ h => by cases h⟩⟩
  · rename_i hprivileged
    refine wp_step fun data w₃ hstep₃ => ?_
    obtain ⟨rfl, rfl⟩ := readSmap_live h.live hstep₃
    rw [h.buffer.sgt]
    refine wp_step fun _ w₄ _ => ?_
    rw [Post.after_after, Post.after_after]
    refine settles_given
      (List.mem_append_right _ (List.mem_append_right _ (List.mem_singleton_self _))) rfl rfl
      fun trace => ?_
    simp only [List.append_assoc]
    exact h.not_unmapRefused fun hrefused => hprivileged hrefused.privileged

theorem kiumdDmabufVfioUnmap_settles (hlive : ∀ p ∈ w.table c, .smap p ∈ w.held)
    (hshaped : ∀ p ∈ w.table c, Shaped (w.smaps p)) :
    wp kernel .any (kiumdDmabufVfioUnmap u (some (some c))) (Settles (UnmapRefused u c w)) w := by
  refine wp_step fun copied w₁ hstep => ?_
  cases hstep
  split
  · rename_i hcopied
    obtain rfl : copied = false := by simpa using hcopied
    refine wp_pure.mpr (settles_refused ?_ (.inr (.inl rfl)))
    simp [KCall.act]
  rename_i hcopied
  obtain rfl : copied = true := by simpa using hcopied
  split
  · rename_i hid
    refine wp_pure.mpr (settles_refused ?_ (.inl hid))
    simp [KCall.act]
  rename_i hid
  refine wp_step fun found w₂ hstep₂ => ?_
  obtain ⟨hfound, rfl⟩ := smmuFind_step hstep₂
  rw [Post.after_after]
  cases found with
  | none =>
      refine wp_pure.mpr (settles_refused ?_ (.inr (.inr ?_)))
      · simp [KCall.act, Act.isLookup]
      · intro p hp
        rw [← hfound] at hp
        cases hp
  | some smap =>
  have hmem : smap ∈ w₂.table c := find_mem hstep₂
  cases hshaped smap hmem with
  | buffer d a hbuffer => exact unmapRelease_settles ⟨hid, hfound.symm, hlive smap hmem, hbuffer⟩
  | mmio m _ hdmabuf hattach =>
      unfold unmapRelease
      refine wp_step fun data w₃ hstep₃ => ?_
      obtain ⟨rfl, rfl⟩ := readSmap_live (hlive smap hmem) hstep₃
      rw [hdmabuf]
      refine wp_pure.mpr (settles_refused (w := w₃) ?_ (.inr (.inr ?_)))
      · simp [KCall.act, Act.isLookup]
      · intro p hp a ha
        obtain rfl : smap = p := Option.some.inj (hfound.trans hp)
        rw [hattach] at ha
        cases ha

end Unmap

/-! ## SECURE_UNMAP -/

/-- Answers on which a secure request ends: the request or its list cannot be copied, an entry of
the list is not acceptable, there is no memory for the list, or the request names no device with a
domain and a page table. -/
def KCall.refuses : {β : Type} → KCall β → β → Bool
  | _, .copyFromUser _, copied => !copied
  | _, .fget _, file => (file.bind File.device).isNone
  | _, .iommuGetDmaDomain _, domain => domain.isNone
  | _, .pgtblTtbr _, page => page.isNone
  | _, .kmallocArray, p => p.isNone
  | _, .copyStructFromUser _ _, .error _ => true
  | _, .copyStructFromUser _ _, .ok entry => !aclEntryOk entry
  | _, _, _ => false

/-- A call was answered so that a secure request ends. -/
def Refuses (trace : List (Event KCall)) : Prop := ∃ e ∈ trace, e.call.refuses e.answer = true

/-- The access control list is missing or too long. -/
def BadParcel (parcel : KiumdMemParcel) : Prop :=
  (parcel.nrAclEntries = 0 ∨ parcel.aclList = 0) ∨
    parcel.nrAclEntries.toNat > MAX_KIUMD_ACL_ENTRIES

/-- The request cannot be served in this state: its id or its descriptor is negative, it names no
entry of a buffer, or its list is missing or too long. -/
def Unready (u : KiumdUser) (c : Nat) (w : World) : Prop :=
  u.id.toInt < 0 ∨ u.vfioFd < 0 ∨ BadParcel u.memParcel ∨
    ∀ p, w.find c (fun data => data.id == u.id) = some p → (w.smaps p).dmabufattach = none

/-- SECURE_UNMAP fails before it gives anything back. -/
def SecureRefused (u : KiumdUser) (c : Nat) (w : World) (trace : List (Event KCall)) : Prop :=
  Unready u c w ∨ Refuses trace

@[simp] theorem refuses_nil : ¬ Refuses [] := by simp [Refuses]

@[simp] theorem refuses_cons :
    Refuses (⟨request, answer⟩ :: trace) ↔ request.refuses answer = true ∨ Refuses trace := by
  simp [Refuses]

@[simp] theorem refuses_append :
    Refuses (past ++ trace) ↔ Refuses past ∨ Refuses trace := by
  simp only [Refuses, List.mem_append, or_and_right, exists_or]

@[simp] theorem looks_append : Looks (past ++ trace) ↔ Looks past ∧ Looks trace := by
  simp only [Looks, acts_append, List.forall_mem_append]

section Secure

variable {u : KiumdUser} {c smap : Nat} {b : World} {x : Multiset Resource} {unready bad : Prop}
  {α γ : Type} {file : File} {acl : AclLists} {ret : Int}

/-- A failure for a reason known before or on an answer only looks things up; every other one gives
something back. -/
abbrev SettlesSecure (unready : Prop) : Post KCall World Int :=
  Settles fun trace => unready ∨ Refuses trace

/-- Lookups that are answered well do not matter. -/
theorem settles_pass (hlooks : Looks past) (hnot : ¬ Refuses past)
    (h : wp kernel .any p (SettlesSecure unready) w) :
    wp kernel .any p ((SettlesSecure unready).after past) w := by
  refine wp_mono h fun trace result w' hsettles ret hresult hneg => ?_
  rcases hsettles ret hresult hneg with ⟨hlooks', hrefused⟩ | ⟨⟨act, hact, hgives⟩, hnot'⟩
  · exact .inl ⟨looks_append.mpr ⟨hlooks, hlooks'⟩,
      hrefused.imp_right fun hrefuses => refuses_append.mpr (.inr hrefuses)⟩
  · refine .inr ⟨⟨act, ?_, hgives⟩, ?_⟩
    · rw [acts_append]
      exact List.mem_append_right _ hact
    · rintro (hready | hrefuses)
      · exact hnot' (.inl hready)
      · exact hnot' (.inr ((refuses_append.mp hrefuses).resolve_left hnot))

/-- After a refusal only lookups follow. -/
theorem settles_exit (hlooks : Looks past) (hrefused : unready ∨ Refuses past)
    (h : wp kernel .any p (fun trace _ _ => Looks trace) w) :
    wp kernel .any p ((SettlesSecure unready).after past) w := by
  refine wp_mono h fun trace result w' hlooks' _ _ _ => .inl ⟨?_, ?_⟩
  · exact looks_append.mpr ⟨hlooks, hlooks'⟩
  · exact hrefused.imp_right fun hrefuses => refuses_append.mpr (.inl hrefuses)

/-- A part of the request that refuses it exactly when `bad` holds or a call is answered so. -/
def Checks (bad : Prop) : Post KCall World (Except Int α) := fun trace result _ =>
  Looks trace ∧ ((∃ ret, result = some (.error ret) ∧ (bad ∨ Refuses trace)) ∨
    ∃ value, result = some (.ok value) ∧ ¬ bad ∧ ¬ Refuses trace)

/-- The rule for such a part. -/
theorem settles_checks {q : KProg (Except Int α)} {rest : Except Int α → KProg Int}
    {R : Post KCall World (Except Int α)} (hchecks : wp kernel .any q (Checks bad) w)
    (hq : wp kernel .any q R w) (hbad : bad → unready)
    (herror : ∀ ret w', wp kernel .any (rest (.error ret)) (fun trace _ _ => Looks trace) w')
    (hok : ∀ trace value w', R trace (some (.ok value)) w' → ¬ bad →
      wp kernel .any (rest (.ok value)) (SettlesSecure unready) w') :
    wp kernel .any (q >>= rest) (SettlesSecure unready) w := by
  rw [wp_bind]
  refine wp_mono (wp_and hchecks hq) ?_
  rintro trace result w' ⟨⟨hlooks, ⟨ret, rfl, hrefused⟩ | ⟨value, rfl, hgood, hnot⟩⟩, hR⟩
  · exact settles_exit hlooks (hrefused.imp_left hbad) (herror ret w')
  · exact settles_pass hlooks hnot (hok trace value w' hR hgood)

/-- A lookup that is answered well does not matter. -/
theorem checks_pass {q : KProg (Except Int α)}
    (hlooks : ∀ act ∈ request.act answer, act.isLookup = true)
    (hnot : request.refuses answer = false) (h : wp kernel .any q (Checks bad) w) :
    wp kernel .any q ((Checks bad).after [⟨request, answer⟩]) w := by
  refine wp_mono h ?_
  rintro trace result w' ⟨hlooks', hresult⟩
  refine ⟨looks_cons.mpr ⟨hlooks, hlooks'⟩, ?_⟩
  simpa [hnot] using hresult

/-- After a refusal the part returns an error. -/
theorem checks_error {q : KProg (Except Int α)}
    (hlooks : ∀ act ∈ request.act answer, act.isLookup = true)
    (hrefuses : request.refuses answer = true)
    (h : wp kernel .any q (fun trace result _ => Looks trace ∧ ∃ ret, result = some (.error ret))
      w) :
    wp kernel .any q ((Checks bad).after [⟨request, answer⟩]) w := by
  refine wp_mono h ?_
  rintro trace result w' ⟨hlooks', ret, rfl⟩
  exact ⟨looks_cons.mpr ⟨hlooks, hlooks'⟩,
    .inl ⟨ret, rfl, .inr (refuses_cons.mpr (.inl hrefuses))⟩⟩

theorem kiumdGetPgd_checks {dev : Device} : wp kernel .any (kiumdGetPgd dev) (Checks False) w := by
  unfold kiumdGetPgd
  refine wp_step fun domain w₁ _ => ?_
  cases domain with
  | none => exact checks_error (by simp [KCall.act]) rfl (wp_pure.mpr ⟨looks_nil, _, rfl⟩)
  | some domain =>
      refine checks_pass (by simp [KCall.act]) rfl (wp_step fun page w₂ _ => ?_)
      cases page with
      | none => exact checks_error (by simp [KCall.act]) rfl (wp_pure.mpr ⟨looks_nil, _, rfl⟩)
      | some page =>
          refine checks_pass (by simp [KCall.act, Act.isLookup]) rfl (wp_pure.mpr ?_)
          exact ⟨looks_nil, .inr ⟨page, rfl, id, refuses_nil⟩⟩

theorem aclEntries_checks {list count index : Nat} :
    wp kernel .any (aclEntries list count index) (Checks False) w := by
  induction count generalizing index w with
  | zero => exact wp_pure.mpr ⟨looks_nil, .inr ⟨_, rfl, id, refuses_nil⟩⟩
  | succ count ih =>
      unfold aclEntries
      refine wp_step fun entry w₁ _ => ?_
      cases entry with
      | error e => exact checks_error (by simp [KCall.act]) rfl (wp_pure.mpr ⟨looks_nil, _, rfl⟩)
      | ok entry =>
          dsimp only
          split
          · rename_i hbad
            refine checks_error (by simp [KCall.act, Act.isLookup]) ?_
              (wp_pure.mpr ⟨looks_nil, _, rfl⟩)
            simpa [KCall.refuses] using hbad
          · rename_i hok
            refine checks_pass (by simp [KCall.act, Act.isLookup])
              (by simpa [KCall.refuses] using hok) ?_
            rw [wp_bind]
            refine wp_mono ih ?_
            rintro trace _ w₂ ⟨hlooks, ⟨ret, rfl, hrefused⟩ | ⟨lists, rfl, hgood⟩⟩
            · exact wp_pure.mpr ⟨by simpa using hlooks, .inl ⟨ret, rfl, by simpa using hrefused⟩⟩
            · exact wp_pure.mpr ⟨by simpa using hlooks, .inr ⟨_, rfl, by simpa using hgood⟩⟩

theorem kiumdAclToVmidPermsList_checks {parcel : KiumdMemParcel} :
    wp kernel .any (kiumdAclToVmidPermsList parcel) (Checks (BadParcel parcel)) w := by
  unfold kiumdAclToVmidPermsList
  split
  · rename_i hbad
    exact wp_pure.mpr ⟨looks_nil, .inl ⟨_, rfl, .inl (.inl hbad)⟩⟩
  rename_i hlist
  split
  · rename_i hlong
    exact wp_pure.mpr ⟨looks_nil, .inl ⟨_, rfl, .inl (.inr hlong)⟩⟩
  rename_i hlength
  have hgood : ¬ BadParcel parcel := not_or.mpr ⟨hlist, hlength⟩
  refine wp_step fun vmidsPtr w₁ _ => ?_
  cases vmidsPtr with
  | none => exact checks_error (by simp [KCall.act]) rfl (wp_pure.mpr ⟨looks_nil, _, rfl⟩)
  | some vmidsPtr =>
  refine checks_pass (by simp [KCall.act]) rfl (wp_step fun permsPtr w₂ _ => ?_)
  cases permsPtr with
  | none =>
      refine checks_error (by simp [KCall.act]) rfl (wp_step fun _ w₃ _ => wp_pure.mpr ?_)
      exact ⟨by simp [KCall.act], _, rfl⟩
  | some permsPtr =>
  refine checks_pass (by simp [KCall.act]) rfl ?_
  rw [wp_bind]
  refine wp_mono aclEntries_checks ?_
  rintro trace _ w₃ ⟨hlooks, ⟨ret, rfl, hrefused⟩ | ⟨lists, rfl, -, hnot⟩⟩
  · refine wp_step fun _ w₄ _ => wp_step fun _ w₅ _ => wp_pure.mpr ?_
    have hrefuses : Refuses trace := hrefused.resolve_left id
    exact ⟨by simpa [KCall.act] using hlooks,
      .inl ⟨ret, rfl, .inr (by simp [hrefuses])⟩⟩
  · exact wp_pure.mpr ⟨by simpa using hlooks, .inr ⟨_, rfl, hgood, by simpa using hnot⟩⟩

/-! ### The request -/

theorem secureCloseFile_looks :
    wp kernel .any (secureCloseFile file ret) (fun trace _ _ => Looks trace) w :=
  wp_step fun _ _ _ => wp_pure.mpr (by simp [KCall.act])

theorem secureFreeMem_looks :
    wp kernel .any (secureFreeMem file acl ret) (fun trace _ _ => Looks trace) w := by
  refine wp_step fun _ w₁ _ => wp_step fun _ w₂ _ => wp_mono secureCloseFile_looks ?_
  intro trace _ _ hlooks
  simpa [KCall.act] using hlooks

/-- The calls that are never answered so that the request ends. -/
def Unrefusing : (β : Type) → KCall β → Prop := fun _ request =>
  ∀ answer, request.refuses answer = false

theorem hypAssignEntries_unrefusing {src : U64} {dst : List QcomScmVmperm} {sgl : List SgEntry} :
    (hypAssignEntries src dst sgl).Only Unrefusing := by
  induction sgl with
  | nil => exact .pure _
  | cons sg rest ih =>
      refine .then (fun _ => rfl) fun ret => ?_
      split
      · exact .pure _
      · exact ih

theorem secureFreeMem_unrefusing : (secureFreeMem file acl ret).Only Unrefusing :=
  .then (fun _ => rfl) fun _ => .then (fun _ => rfl) fun _ => .then (fun _ => rfl) fun _ => .pure _

theorem secureTakeBack_unrefusing {page : U64} {a : Attachment} {t : SgTable} :
    (secureTakeBack c file acl page smap a t).Only Unrefusing := by
  have hsg : (kiumdHypUnassignSg (.ptr t) acl.vmids).Only Unrefusing := by
    unfold kiumdHypUnassignSg
    split
    · exact .pure _
    · dsimp only
      split
      · exact .pure _
      · exact hypAssignEntries_unrefusing
  refine hsg.bind fun ret => ?_
  split
  · exact secureFreeMem_unrefusing
  refine .then (fun _ => rfl) fun ret => ?_
  split
  · exact secureFreeMem_unrefusing
  refine .then (fun _ => rfl) fun data => ?_
  split
  · exact .then (fun _ => rfl) fun _ => .then (fun _ => rfl) fun _ => .then (fun _ => rfl) fun _ =>
      secureFreeMem_unrefusing
  · exact secureFreeMem_unrefusing

theorem Program.Only.unrefusing {q : KProg α} (h : q.Only Unrefusing) :
    wp kernel .any q (fun trace _ _ => ¬ Refuses trace) w := by
  refine wp_mono (wp_among h) ?_
  rintro trace _ _ hamong ⟨e, he, hrefuses⟩
  rw [hamong e he e.answer] at hrefuses
  cases hrefuses

/-- Reading an entry that was live before. -/
theorem Frame.readSmap {data : SmmuMapData} (h : Frame b w x) (hp : .smap smap ∈ b.held)
    (hstep : kernelStep (.readSmap smap) w data = some w') :
    data = b.smaps smap ∧ Frame b w' x := by
  obtain ⟨rfl, rfl⟩ := readSmap_live (h.mem hp) hstep
  exact ⟨h.smaps smap hp, h⟩

theorem secureUnmapRelease_settles {page : U64} (h : Frame b w x) (hp : .smap smap ∈ b.held)
    (hshaped : Shaped (b.smaps smap))
    (hready : ∀ a, (b.smaps smap).dmabufattach = some a → ¬ unready)
    (hnone : (b.smaps smap).dmabufattach = none → unready) :
    wp kernel .any (secureUnmapRelease c file acl page smap) (SettlesSecure unready) w := by
  unfold secureUnmapRelease
  refine wp_step fun data w₁ hstep => ?_
  obtain ⟨rfl, h₁⟩ := h.readSmap hp hstep
  have hlook : ∀ data, ∀ act ∈ KCall.act (.readSmap smap) data, act.isLookup = true := by
    simp [KCall.act, Act.isLookup]
  cases hshaped with
  | mmio m _ _ hattach =>
      rw [hattach]
      refine settles_exit ?_ (.inl (hnone hattach)) secureFreeMem_looks
      simpa using hlook _
  | buffer d a hbuffer =>
  rw [hbuffer.attach]
  refine settles_pass (by simpa using hlook _) (by simp [KCall.refuses]) ?_
  refine wp_step fun data w₂ hstep₂ => ?_
  obtain ⟨rfl, h₂⟩ := h₁.readSmap hp hstep₂
  rw [hbuffer.sgt]
  refine settles_pass (by simpa using hlook _) (by simp [KCall.refuses]) ?_
  refine wp_step fun _ w₃ _ => ?_
  refine wp_mono (Program.Only.unrefusing secureTakeBack_unrefusing) ?_
  refine fun trace result w' hnot _ _ _ => .inr ⟨⟨_, List.mem_cons_self, rfl⟩, ?_⟩
  rintro (hunready | hrefuses)
  · exact hready a hbuffer.attach hunready
  · exact hnot ((refuses_cons.mp hrefuses).resolve_left (by simp [KCall.refuses]))

theorem kiumdDmabufVfioSecureUnmap_settles (hlive : ∀ p ∈ w.table c, .smap p ∈ w.held)
    (hshaped : ∀ p ∈ w.table c, Shaped (w.smaps p)) :
    wp kernel .any (kiumdDmabufVfioSecureUnmap u (some (some c)))
      (Settles (SecureRefused u c w)) w := by
  have hidle : ∀ {δ : Type} {request : KCall δ} {answer : δ},
      request.act answer = none → Looks [⟨request, answer⟩] := by
    intro δ request answer hact
    simp [hact]
  refine wp_step fun copied w₁ hstep => ?_
  cases hstep
  split
  · rename_i hcopied
    obtain rfl : copied = false := by simpa using hcopied
    exact settles_exit (hidle rfl) (.inr (by simp [KCall.refuses])) (wp_pure.mpr looks_nil)
  rename_i hcopied
  obtain rfl : copied = true := by simpa using hcopied
  refine settles_pass (hidle rfl) (by simp [KCall.refuses]) ?_
  split
  · rename_i hid
    exact wp_pure.mpr (settles_refused looks_nil (.inl (.inl hid)))
  rename_i hid
  refine wp_step fun found w₂ hstep₂ => ?_
  obtain ⟨hfound, rfl⟩ := smmuFind_step hstep₂
  have hlook : Looks [⟨.smmuFind c u.id, found⟩] := by simp [KCall.act, Act.isLookup]
  cases found with
  | none =>
      have hnone : Unready u c w₂ := .inr (.inr (.inr fun p hp => by rw [← hfound] at hp; cases hp))
      exact settles_exit hlook (.inl hnone) (wp_pure.mpr looks_nil)
  | some smap =>
  refine settles_pass hlook (by simp [KCall.refuses]) ?_
  have hmem : smap ∈ w₂.table c := find_mem hstep₂
  dsimp only
  split
  · rename_i hfd
    exact wp_pure.mpr (settles_refused looks_nil (.inl (.inr (.inl hfd))))
  rename_i hfd
  refine wp_step fun file w₃ hstep₃ => ?_
  cases file with
  | none => exact settles_exit (hidle rfl) (.inr (by simp [KCall.refuses])) (wp_pure.mpr looks_nil)
  | some file =>
  cases hstep₃
  have h₃ : Frame w₂ (w₂.hold (.file file)) (.file file ::ₘ 0) :=
    (Frame.refl w₂).hold rfl rfl rfl rfl
  have hfile : Looks [⟨.fget u.vfioFd, some file⟩] := by simp [KCall.act, Act.isLookup]
  have hclose (hdevice : file.device = none) : wp kernel .any (secureCloseFile file (-EINVAL))
      ((SettlesSecure (Unready u c w₂)).after [⟨.fget u.vfioFd, some file⟩])
      (w₂.hold (.file file)) :=
    settles_exit hfile (.inr (by simp [KCall.refuses, hdevice])) secureCloseFile_looks
  cases hprivate : file.privateData with
  | none =>
      simp only [hprivate]
      exact wp_oops fun _ hresult => by cases hresult
  | some device =>
  cases device with
  | none =>
      simp only [hprivate]
      exact hclose (by simp [File.device, hprivate])
  | some v =>
  cases hdev : v.dev with
  | none =>
      simp only [hprivate, hdev]
      exact hclose (by simp [File.device, hprivate, hdev])
  | some dev =>
  simp only [hprivate, hdev]
  have hdevice : file.device = some dev := by simp [File.device, hprivate, hdev]
  refine settles_pass hfile (by simp [KCall.refuses, hdevice]) ?_
  refine settles_checks kiumdGetPgd_checks (kiumdGetPgd_keeps h₃) False.elim
    (fun _ _ => secureCloseFile_looks) fun _ page w₄ hkeeps _ => ?_
  obtain ⟨-, h₄⟩ := hkeeps
  refine settles_checks kiumdAclToVmidPermsList_checks (kiumdAclToVmidPermsList_spec h₄)
    (fun hbad => .inr (.inr (.inl hbad))) (fun _ _ => secureCloseFile_looks)
    fun _ acl w₅ hread hlist => ?_
  rcases hread with ⟨ret, hret, -⟩ | ⟨acl', hacl, -, h₅⟩
  · cases hret
  cases hacl
  refine secureUnmapRelease_settles h₅ (hlive smap hmem) (hshaped smap hmem) ?_ ?_
  · rintro a ha (hneg | hneg | hbad | hnone)
    · exact hid hneg
    · exact hfd hneg
    · exact hlist hbad
    · rw [hnone smap hfound.symm] at ha
      cases ha
  · intro hnone
    refine .inr (.inr (.inr fun p hp => ?_))
    obtain rfl : smap = p := Option.some.inj (hfound.trans hp)
    exact hnone

end Secure

/-! ## Runs -/

/-- A request to unmap a buffer. -/
def Request.unmaps : Request → Bool
  | .unmapBuf _ | .secureUnmap _ => true
  | _ => false

/-- A request to unmap fails before it gives anything back. -/
def RefusedEarly (i : Ioctl) (w : World) (trace : List (Event KCall)) : Prop :=
  match i.request with
  | .unmapBuf u => UnmapRefused u i.ctx w trace
  | .secureUnmap u => SecureRefused u i.ctx w trace
  | _ => False

/-- In every state a run reaches, a request to unmap that fails leaves everything alone exactly when
it is refused before it gives anything back. -/
theorem failed_unmap_leaves_alone_iff {w₀ : World} {history : History Ioctl KCall} {i : Ioctl}
    {ret : Int} (hstart : w₀.Fresh) (hrun : Run kernel kiumdIoctl .any w₀ history w)
    (hunmaps : i.request.unmaps = true)
    (hexec : Exec kernel (kiumdIoctl i) w trace (some ret) w') (hneg : ret < 0) :
    LeftAlone w (acts trace) w' ↔ RefusedEarly i w trace := by
  have hbacked := run_keeps hstart hrun
  have hlive : ∀ p ∈ w.table i.ctx, .smap p ∈ w.held := fun p hp => hbacked.smap_mem hp
  have hsettles : Settles (RefusedEarly i w) trace (some ret) w' := by
    obtain ⟨c, request⟩ := i
    cases request with
    | unmapBuf u =>
        exact wp_exec (kiumdDmabufVfioUnmap_settles hlive (hbacked.shaped c)) hexec
    | secureUnmap u =>
        exact wp_exec (kiumdDmabufVfioSecureUnmap_settles hlive (hbacked.shaped c)) hexec
    | _ => cases hunmaps
  rcases hsettles ret rfl hneg with ⟨hlooks, hrefused⟩ | ⟨⟨act, hact, hgives⟩, hnot⟩
  · exact iff_of_true (hlooks.leftAlone hexec.steps) hrefused
  · refine iff_of_false (fun halone => ?_) hnot
    rw [halone.kept act hact] at hgives
    cases hgives

/-- The calls that look up a file. -/
def KCall.isFget (β : Type) : KCall β → Bool
  | .fget _ => true
  | _ => false

/-- A privileged buffer stays mapped when the request to unmap it names no file. -/
theorem failed_unmap_leaves_alone_iff_privileged : ∃ history w i trace ret w',
    Run kernel kiumdIoctl .any World.initial history w ∧ w.table 0 ≠ [] ∧
    Exec kernel (kiumdIoctl i) w trace (some ret) w' ∧ ret < 0 ∧ LeftAlone w (acts trace) w' := by
  have hcheck : (kiumdIoctl ⟨0, .mapBuf privilegedUser⟩).check kernel
      (Answers.plain fun _ _ => false).choose .initial
      (fun _ _ w => decide (w.table 0 ≠ []) &&
        (kiumdIoctl ⟨0, .unmapBuf privilegedUser⟩).check kernel
          (Answers.plain KCall.isFget).choose w
          (fun trace ret _ => decide (ret < 0) && decide (firstFile trace = some none))) =
        true := by
    decide +kernel
  obtain ⟨trace, value, w, hexec, htest⟩ := Program.check_exec hcheck
  rw [Bool.and_eq_true, decide_eq_true_eq] at htest
  obtain ⟨htable, hunmap⟩ := htest
  obtain ⟨trace', ret, w', hexec', htest'⟩ := Program.check_exec hunmap
  simp only [Bool.and_eq_true, decide_eq_true_eq] at htest'
  obtain ⟨hneg, hfile⟩ := htest'
  have hrun : Run kernel kiumdIoctl .any World.initial [(⟨0, .mapBuf privilegedUser⟩, trace)] w :=
    .request .start hexec trivial
  refine ⟨_, w, ⟨0, .unmapBuf privilegedUser⟩, trace', ret, w', hrun, htable, hexec', hneg, ?_⟩
  refine (failed_unmap_leaves_alone_iff fresh_initial hrun rfl hexec' hneg).mpr ?_
  exact .inr (.inr fun p _ a _ => ⟨by decide, by decide, .inr ⟨none, hfile, nofun⟩⟩)

theorem LeftAlone.parts {as : List Act} (h : LeftAlone w as w') :
    w'.held.filter (fun r => r.isBufferPart) = w.held.filter (fun r => r.isBufferPart) := by
  ext r
  rw [Multiset.count_filter, Multiset.count_filter]
  split
  · rename_i hr
    exact h.held r hr
  · rfl

/-- A request to map or unmap a buffer in the default page table. -/
def defaultUser : KiumdUser := { plainUser with ptselect := KGSL_DEFAULT_PT }

/-- A request to unmap that cannot look up the domain for the flush has released the mapping. -/
theorem not_failed_unmap_leaves_alone : ¬ ∀ w₀ history w i trace ret w', World.Fresh w₀ →
    Run kernel kiumdIoctl .any w₀ history w → i.request.unmaps = true →
    Exec kernel (kiumdIoctl i) w trace (some ret) w' → ret < 0 → LeftAlone w (acts trace) w' := by
  intro hall
  have hcheck : (kiumdIoctl ⟨0, .mapBuf defaultUser⟩).check kernel
      (Answers.plain fun _ _ => false).choose .initial
      (fun _ _ w => (kiumdIoctl ⟨0, .unmapBuf defaultUser⟩).check kernel
        (Answers.plain KCall.isFget).choose w
        (fun _ ret w' => decide (ret < 0) &&
          decide (w'.held.filter (fun r => r.isBufferPart) ≠
            w.held.filter (fun r => r.isBufferPart)))) = true := by
    decide +kernel
  obtain ⟨trace, value, w, hexec, hunmap⟩ := Program.check_exec hcheck
  obtain ⟨trace', ret, w', hexec', htest⟩ := Program.check_exec hunmap
  simp only [Bool.and_eq_true, decide_eq_true_eq] at htest
  obtain ⟨hneg, hparts⟩ := htest
  have halone := hall _ _ _ _ _ _ _ fresh_initial (.request .start hexec trivial) rfl hexec' hneg
  exact hparts halone.parts

end SafeLinux.Kiumd
