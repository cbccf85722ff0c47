import SafeLinux.Kiumd.MapOutcome

/-!
# What UNMAP_BUF can do to a table

`RemoveOutcome` lists the ways in which an ioctl that removes a buffer may leave the tables: the
entry untouched, the entry deleted with its buffer released, or the entry left in the table after
its mapping has been released. The last happens exactly when something fails after the mapping has
been released. `kiumdDmabufVfioUnmap_removes` says that there are no others.
-/

namespace SafeLinux.Kiumd

open Effects
open Effects.Program (perform)

/-- A call that releases a DMA mapping of a buffer. -/
def KCall.isDmaUnmap : {β : Type} → KCall β → Bool
  | _, .dmaBufUnmapAttachment _ _ _ => true
  | _, .dmaUnmapSgtable _ _ _ _ => true
  | _, _ => false

/-- The calls made from the first release of a DMA mapping on. -/
def afterUnmap (trace : List (Event KCall)) : List (Event KCall) :=
  trace.dropWhile fun e => !e.call.isDmaUnmap

theorem mem_afterUnmap_append {past trace : List (Event KCall)} {e : Event KCall}
    (h : e ∈ afterUnmap trace) : e ∈ afterUnmap (past ++ trace) := by
  induction past with
  | nil => exact h
  | cons first past ih =>
      rw [afterUnmap, List.cons_append, List.dropWhile_cons]
      split
      · exact ih
      · exact List.mem_cons_of_mem _ (List.mem_append_right _ ((List.dropWhile_sublist _).mem h))

/-- The entry `p` records the buffer `d`, its attachment `a` and the mapping that an unmapping of
kind `dev`, `t` releases. -/
structure Unmaps (data : SmmuMapData) (d : DmaBuf) (a : Attachment) (dev : Device) (t : SgTable) :
    Prop where
  dmabuf : data.dmabufPtr = some d
  attach : data.dmabufattach = some a
  table : (data.sgtPtr = some t ∧ dev = a.dev) ∨ a.priv = some (some t)

/-- The state after an entry has been deleted and its buffer released. -/
def World.remove (b : World) (c p : Nat) (d : DmaBuf) (a : Attachment) (dev : Device)
    (t : SgTable) : World :=
  (((b.release (.mapping dev t)).delete c p).release (.attachment a)).release (.dmabuf d)

/-- The outcomes of an ioctl that removes a buffer from the table of the context `c`; `late` says
what has failed when the entry is left behind without its mapping. -/
inductive RemoveOutcome (b : World) (c : Nat) (late : List (Event KCall) → Prop)
    (trace : List (Event KCall)) (w : World) : Prop where
  | kept (frame : Frame b w 0)
  | half (p : Nat) (d : DmaBuf) (a : Attachment) (dev : Device) (t : SgTable)
      (hp : p ∈ (b.ctxs c).smmuTable) (hunmaps : Unmaps (b.smaps p) d a dev t)
      (hlate : late trace) (frame : Frame (b.release (.mapping dev t)) w 0)
  | removed (p : Nat) (d : DmaBuf) (a : Attachment) (dev : Device) (t : SgTable)
      (hp : p ∈ (b.ctxs c).smmuTable) (hunmaps : Unmaps (b.smaps p) d a dev t)
      (frame : Frame (b.remove c p d a dev t) w 0)

/-- The postcondition of an ioctl that removes a buffer. -/
def Removes (b : World) (c : Nat) (late : List (Event KCall) → Prop) :
    Post KCall World Int :=
  fun trace _ w => RemoveOutcome b c late trace w

theorem Removes.stable {b : World} {c : Nat} {late : List (Event KCall) → Prop}
    (hlate : ∀ past trace, late trace → late (past ++ trace)) : (Removes b c late).Stable where
  prepend past trace _ w h := by
    cases h with
    | kept frame => exact .kept frame
    | half p d a dev t hp hunmaps hl frame =>
        exact .half p d a dev t hp hunmaps (hlate past trace hl) frame
    | removed p d a dev t hp hunmaps frame => exact .removed p d a dev t hp hunmaps frame

/-! ## The failures of UNMAP_BUF after the release of the mapping -/

/-- The device of a file, if there is one. -/
def File.device (f : File) : Option Device := do (← f.privateData.join).dev

/-- The answers with which the lookup of a device's domain, or the unmapping of a fixed IOVA,
fails. -/
def KCall.lookupFails : {β : Type} → KCall β → β → Bool
  | _, .fget _, file => (file.bind File.device).isNone
  | _, .vfioFileIsValid _, valid => !valid
  | _, .iommuGetDmaDomain _, dom => dom.isNone
  | _, .iommuUnmap _ _ size, unmapped => unmapped != size
  | _, _, _ => false

/-- The request makes UNMAP_BUF look up the device's domain after the mapping has been released. -/
def NeedsDomain (kiusr : KiumdUser) : Prop :=
  kiusr.isIovaZero = FIXED_IOVA_AT_ZERO ∨ IsKgsl kiusr.ptselect ∨
    kiusr.ptselect = KGSL_DEFAULT_PT

/-- A lookup or an unmapping has failed, or the lookup was doomed by a negative descriptor. -/
def LookupFailed (kiusr : KiumdUser) (trace : List (Event KCall)) : Prop :=
  (kiusr.vfioFd < 0 ∧ NeedsDomain kiusr) ∨ ∃ e ∈ trace, e.call.lookupFails e.answer = true

/-- UNMAP_BUF failed after it had released the mapping. -/
def UnmapLate (kiusr : KiumdUser) (trace : List (Event KCall)) : Prop :=
  afterUnmap trace ≠ [] ∧ LookupFailed kiusr (afterUnmap trace)

theorem LookupFailed.mono {kiusr : KiumdUser} {trace trace' : List (Event KCall)}
    (h : LookupFailed kiusr trace) (hsub : ∀ e ∈ trace, e ∈ trace') :
    LookupFailed kiusr trace' := by
  rcases h with h | ⟨e, he, hfails⟩
  · exact .inl h
  · exact .inr ⟨e, hsub e he, hfails⟩

theorem UnmapLate.prepend {kiusr : KiumdUser} (past : List (Event KCall))
    {trace : List (Event KCall)} (h : UnmapLate kiusr trace) : UnmapLate kiusr (past ++ trace) := by
  refine ⟨?_, h.2.mono fun e he => mem_afterUnmap_append he⟩
  obtain ⟨e, he⟩ := List.exists_mem_of_ne_nil _ h.1
  exact List.ne_nil_of_mem (mem_afterUnmap_append he)

instance (b : World) (c : Nat) (kiusr : KiumdUser) :
    (Removes b c (UnmapLate kiusr)).Stable :=
  Removes.stable fun past _ h => h.prepend past

variable {b w : World} {c p : Nat} {x : Multiset Resource} {kiusr : KiumdUser} {d : DmaBuf}
  {a : Attachment}

/-- What the lookup by id finds is in the table. -/
theorem find_mem {w' : World} {id : U32} (h : kernelStep (.smmuFind c id) w (some p) = some w') :
    p ∈ (w.ctxs c).smmuTable := by
  simp only [kernelStep] at h
  split at h
  · rename_i hfound
    exact List.mem_of_find?_eq_some hfound.symm
  · cases h

/-! ## After the mapping has been released -/

/-- The rest of UNMAP_BUF either deletes the entry and releases its buffer or leaves everything
because a lookup has failed. -/
def Finishes (b : World) (c p : Nat) (kiusr : KiumdUser) (d : DmaBuf) (a : Attachment) :
    Post KCall World Int := fun trace _ w =>
  Frame (((b.delete c p).release (.attachment a)).release (.dmabuf d)) w 0 ∨
    (Frame b w 0 ∧ LookupFailed kiusr trace)

instance : (Finishes b c p kiusr d a).Stable where
  prepend past trace _ w h := by
    rcases h with h | ⟨h, hfailed⟩
    · exact .inl h
    · exact .inr ⟨h, hfailed.mono fun e he => List.mem_append_right _ he⟩

/-- A device with an IOMMU may have been found; otherwise a lookup has failed. -/
def DeviceOr (b : World) (x : Multiset Resource) (kiusr : KiumdUser) :
    Post KCall World (Option VfioDevice) := fun trace result w =>
  Frame b w x ∧ ∃ v, result = some v ∧
    ((∃ device dev, v = some device ∧ device.dev = some dev) ∨ LookupFailed kiusr trace)

instance : (DeviceOr b x kiusr).Stable where
  prepend past trace _ w h := by
    obtain ⟨hframe, v, rfl, hfound | hfailed⟩ := h
    · exact ⟨hframe, v, rfl, .inl hfound⟩
    · exact ⟨hframe, v, rfl, .inr (hfailed.mono fun e he => List.mem_append_right _ he)⟩

/-- A domain has been found; otherwise a lookup has failed. -/
def DomainOr (b : World) (x : Multiset Resource) (kiusr : KiumdUser) :
    Post KCall World (Option Domain) := fun trace result w =>
  Frame b w x ∧ ((∃ dom, result = some (some dom)) ∨
    ((result = none ∨ result = some none) ∧ LookupFailed kiusr trace))

instance : (DomainOr b x kiusr).Stable where
  prepend past trace _ w h := by
    obtain ⟨hframe, hfound | ⟨hnone, hfailed⟩⟩ := h
    · exact ⟨hframe, .inl hfound⟩
    · exact ⟨hframe, .inr ⟨hnone, hfailed.mono fun e he => List.mem_append_right _ he⟩⟩

theorem LookupFailed.of_mem {trace : List (Event KCall)} {e : Event KCall} (he : e ∈ trace)
    (hfails : e.call.lookupFails e.answer = true) : LookupFailed kiusr trace :=
  .inr ⟨e, he, hfails⟩

/-- A valid file with a device yields it; a file that is not valid is a failed lookup. -/
theorem vfioDeviceOf_found {file : File} {v : VfioDevice} {dev : Device}
    (h : Frame b w (.file file ::ₘ x)) (hpriv : file.privateData = some (some v))
    (hdev : v.dev = some dev) :
    wp kernel .any (vfioDeviceOf file) (DeviceOr b x kiusr) w := by
  unfold vfioDeviceOf
  refine wp_step ?_
  intro valid w₁ hstep
  have h₁ := h.quiet_step rfl hstep
  cases valid with
  | false =>
      refine wp_step ?_
      intro _ w₂ hstep₂
      cases hstep₂
      exact wp_pure.mpr ⟨h₁.give, none, rfl, .inr (.of_mem List.mem_cons_self rfl)⟩
  | true =>
      rw [hpriv]
      refine wp_after (wp_give h₁ rfl ?_)
      intro w₂ h₂
      exact wp_pure.mpr ⟨h₂, some v, rfl, .inl ⟨v, dev, rfl, hdev⟩⟩

theorem kiumdGetVfioDevice_spec (h : Frame b w x) (hneeds : NeedsDomain kiusr) :
    wp kernel .any (kiumdGetVfioDevice kiusr.vfioFd) (DeviceOr b x kiusr) w := by
  unfold kiumdGetVfioDevice
  split
  · rename_i hfd
    exact wp_pure.mpr ⟨h, none, rfl, .inr (.inl ⟨hfd, hneeds⟩)⟩
  refine wp_step ?_
  intro file w₁ hstep
  cases file with
  | none =>
      cases hstep
      exact wp_pure.mpr ⟨h, none, rfl, .inr (.of_mem (List.mem_singleton_self _) rfl)⟩
  | some file =>
      cases hstep
      have h₁ : Frame b (w.hold (.file file)) (.file file ::ₘ x) := h.hold rfl rfl rfl rfl
      cases hdevice : file.device with
      | some dev =>
        simp only [File.device, Option.bind_eq_bind, Option.bind_eq_some_iff,
          Option.join_eq_some_iff] at hdevice
        obtain ⟨v, hpriv, hdev⟩ := hdevice
        exact wp_after (vfioDeviceOf_found h₁ hpriv hdev)
      | none =>
        have hfails : KCall.lookupFails (.fget kiusr.vfioFd) (some file) = true := by
          simp [KCall.lookupFails, hdevice]
        refine wp_mono (vfioDeviceOf_keeps h₁) ?_
        rintro trace result w' ⟨hsome, h'⟩
        obtain ⟨v, rfl⟩ := Option.isSome_iff_exists.mp hsome
        exact ⟨h', v, rfl, .inr (.of_mem List.mem_cons_self hfails)⟩

theorem kiumdGetIommuDomain_spec (h : Frame b w x) (hneeds : NeedsDomain kiusr) :
    wp kernel .any (kiumdGetIommuDomain kiusr.vfioFd) (DomainOr b x kiusr) w := by
  unfold kiumdGetIommuDomain
  rw [wp_bind]
  refine wp_mono (kiumdGetVfioDevice_spec h hneeds) ?_
  rintro trace _ w₁ ⟨h₁, v, rfl, hfound⟩
  rw [Post.andThen_some]
  cases v with
  | none =>
      have hfailed : LookupFailed kiusr trace := by simpa using hfound
      exact wp_pure.mpr ⟨h₁, .inr ⟨.inr rfl, hfailed.mono fun e he => by simpa using he⟩⟩
  | some device =>
      cases hdev : device.dev with
      | none =>
          have hfailed : LookupFailed kiusr trace := by simpa [hdev] using hfound
          simp only [hdev]
          exact wp_oops ⟨h₁, .inr ⟨.inl rfl, hfailed.mono fun e he => by simpa using he⟩⟩
      | some dev =>
          simp only [hdev]
          refine wp_after ?_
          rw [wp_perform]
          refine ⟨trivial, fun hempty => (hempty.false none).elim, ?_⟩
          intro domain w₂ hstep
          have h₂ := h₁.quiet_step rfl hstep
          cases domain with
          | none => exact ⟨h₂, .inr ⟨.inr rfl, .of_mem (List.mem_singleton_self _) rfl⟩⟩
          | some domain => exact ⟨h₂, .inl ⟨domain, rfl⟩⟩

/-- The rule for a lookup of the domain after the mapping has been released. -/
theorem wp_domain {rest : Option Domain → KProg Int} (h : Frame b w 0)
    (hneeds : NeedsDomain kiusr) (hnone : rest none = pure (-EINVAL))
    (hsome : ∀ dom w', Frame b w' 0 →
      wp kernel .any (rest (some dom)) (Finishes b c p kiusr d a) w') :
    wp kernel .any (kiumdGetIommuDomain kiusr.vfioFd >>= rest) (Finishes b c p kiusr d a) w := by
  rw [wp_bind]
  refine wp_mono (kiumdGetIommuDomain_spec h hneeds) ?_
  rintro trace result w₁ ⟨h₁, ⟨dom, rfl⟩ | ⟨rfl | rfl, hfailed⟩⟩
  · exact wp_after (hsome dom w₁ h₁)
  · exact .inr ⟨h₁, hfailed⟩
  · rw [Post.andThen_some, hnone]
    exact wp_pure.mpr (.inr ⟨h₁, hfailed.mono fun e he => by simpa using he⟩)

/-- Deleting the entry, detaching the buffer and dropping its reference finish the request. -/
theorem delete_finishes (h : Frame b w 0) :
    wp kernel .any (do
      perform (.smmuDel c p)
      perform (.dmaBufDetach d a)
      perform (.dmaBufPut d)
      return 0) (Finishes b c p kiusr d a) w := by
  refine wp_smmuDel h (by simp) ?_
  intro w₁ h₁
  refine wp_surrender h₁ rfl (by simp) ?_
  intro w₂ h₂
  refine wp_surrender h₂ rfl (by simp) ?_
  intro w₃ h₃
  exact wp_pure.mpr (.inl h₃)

theorem unmapFinish_finishes (h : Frame b w 0) :
    wp kernel .any (unmapFinish c kiusr p d a) (Finishes b c p kiusr d a) w := by
  unfold unmapFinish
  split
  · rename_i hkgsl
    refine wp_domain h (.inr hkgsl) rfl ?_
    intro dom w₁ h₁
    refine wp_quiet h₁ rfl ?_
    intro _ w₂ _ h₂
    exact delete_finishes h₂
  · exact delete_finishes h

/-! ## The whole request -/

/-- What follows the release of the mapping completes one of the outcomes. -/
theorem removes_of_finishes {dev : Device} {t : SgTable} {request : KCall Unit}
    {rest : KProg Int} (hp : p ∈ (b.ctxs c).smmuTable)
    (hunmaps : Unmaps (b.smaps p) d a dev t) (hrequest : request.isDmaUnmap = true)
    (h : wp kernel .any rest (Finishes (b.release (.mapping dev t)) c p kiusr d a) w) :
    wp kernel .any rest
      ((Removes b c (UnmapLate kiusr)).after [⟨request, ()⟩]) w := by
  refine wp_mono h ?_
  rintro trace _ w' (h' | ⟨h', hfailed⟩)
  · exact .removed p d a dev t hp hunmaps h'
  · have hafter : afterUnmap (⟨request, ()⟩ :: trace) = ⟨request, ()⟩ :: trace := by
      rw [afterUnmap, List.dropWhile_cons_of_neg (by simpa using hrequest)]
    refine .half p d a dev t hp hunmaps ?_ h'
    rw [UnmapLate, List.singleton_append, hafter]
    exact ⟨by simp, hfailed.mono fun e he => List.mem_cons_of_mem _ he⟩

theorem clearMapIova_keeps {iova size : U64} {ptselect : Int} (h : Frame b w x) :
    wp kernel .any (clearMapIova iova size ptselect) (Keeps b x) w := by
  unfold clearMapIova
  split
  · exact wp_perform_quiet h rfl fun _ _ _ _ h' => ⟨rfl, h'⟩
  · exact wp_pure.mpr ⟨rfl, h⟩

/-- The privileged unmapping, from the lookup of the file on. -/
theorem unmapPrivileged_removes {file : File} (hp : p ∈ (b.ctxs c).smmuTable)
    (hdmabuf : (b.smaps p).dmabufPtr = some d) (hattach : (b.smaps p).dmabufattach = some a)
    {dir : Int} (h : Frame b w (.file file ::ₘ 0)) :
    wp kernel .any (unmapPrivileged c kiusr p d a dir file)
      (Removes b c (UnmapLate kiusr)) w := by
  have hexit : wp kernel .any (mapFailFput file (-EINVAL))
      (Removes b c (UnmapLate kiusr)) w :=
    mapFailFput_spec h fun _ _ h' => .kept h'
  unfold unmapPrivileged
  cases file.privateData with
  | none => exact wp_oops (.kept h.drop)
  | some device =>
  cases device with
  | none => exact hexit
  | some vfioDev =>
  cases hpriv : a.priv with
  | none => exact hexit
  | some heapAttachment =>
  cases heapAttachment with
  | none => exact hexit
  | some sgtable =>
  cases hdev : vfioDev.dev with
  | none =>
      simp only [hdev]
      exact wp_oops (.kept h.drop)
  | some dev =>
      simp only [hdev]
      refine wp_step ?_
      rintro ⟨⟩ w₁ hstep
      cases hstep
      have hunmaps : Unmaps (b.smaps p) d a dev sgtable := ⟨hdmabuf, hattach, .inr hpriv⟩
      refine removes_of_finishes hp hunmaps rfl ?_
      have h₁ : Frame _ _ _ := h.surrender (show Resource.mapping dev sgtable ∉ _ by simp)
      refine wp_give h₁ rfl ?_
      intro w₂ h₂
      exact unmapFinish_finishes h₂

/-- Releasing a buffer mapped at a fixed IOVA: the unmapping there has to succeed. -/
theorem unmapIovaZero_finishes (hzero : kiusr.isIovaZero = FIXED_IOVA_AT_ZERO) (h : Frame b w 0) :
    wp kernel .any (unmapIovaZero c kiusr p d a) (Finishes b c p kiusr d a) w := by
  unfold unmapIovaZero
  refine wp_domain h (.inl hzero) rfl ?_
  intro dom w₁ h₁
  refine wp_step ?_
  intro size w₂ hstep
  have h₂ := h₁.quiet_step rfl hstep
  split
  · rename_i hsize
    exact wp_pure.mpr (.inr ⟨h₂, .of_mem (List.mem_cons_self) (bne_iff_ne.mpr hsize)⟩)
  · exact wp_after (unmapFinish_finishes h₂)

theorem unmapRelease_removes (hp : p ∈ (b.ctxs c).smmuTable) (hlive : .smap p ∈ b.held)
    (h : Frame b w 0) :
    wp kernel .any (unmapRelease c kiusr p) (Removes b c (UnmapLate kiusr)) w := by
  unfold unmapRelease
  refine wp_readSmap h hlive ?_
  cases hdmabuf : (b.smaps p).dmabufPtr with
  | none => exact wp_pure.mpr (.kept h)
  | some d =>
  refine wp_readSmap h hlive ?_
  cases hattach : (b.smaps p).dmabufattach with
  | none => exact wp_pure.mpr (.kept h)
  | some a =>
  refine wp_keeps (clearMapIova_keeps h) ?_
  intro _ w₁ h₁
  dsimp only
  split
  · refine wp_fget h₁ (wp_pure.mpr (.kept h₁)) ?_
    intro file w₂ h₂
    exact unmapPrivileged_removes hp hdmabuf hattach h₂
  · refine wp_readSmap h₁ hlive ?_
    cases hsgt : (b.smaps p).sgtPtr with
    | none => exact wp_pure.mpr (.kept h₁)
    | some t =>
        refine wp_step ?_
        rintro ⟨⟩ w₂ hstep
        cases hstep
        refine removes_of_finishes hp ⟨hdmabuf, hattach, .inl ⟨hsgt, rfl⟩⟩ rfl ?_
        have h₂ : Frame _ _ _ := h₁.surrender (show Resource.mapping a.dev t ∉ _ by simp)
        split
        · rename_i hzero
          exact unmapIovaZero_finishes hzero h₂
        · exact unmapFinish_finishes h₂

/-- `kiumd_dmabuf_vfio_unmap` deletes an entry with its buffer, or leaves all as it is, or leaves
the entry without its mapping because a lookup has failed too late. -/
theorem kiumdDmabufVfioUnmap_removes
    (hlive : ∀ p ∈ (w.ctxs c).smmuTable, .smap p ∈ w.held) :
    wp kernel .any (kiumdDmabufVfioUnmap kiusr (some (some c)))
      (Removes w c (UnmapLate kiusr)) w := by
  have h := Frame.refl w
  refine wp_quiet h rfl ?_
  intro copied w₁ _ h₁
  split
  · exact wp_pure.mpr (.kept h₁)
  split
  · exact wp_pure.mpr (.kept h₁)
  refine wp_quiet h₁ rfl ?_
  intro found w₂ hstep h₂
  cases found with
  | none => exact wp_pure.mpr (.kept h₂)
  | some p =>
      have hp : p ∈ (w.ctxs c).smmuTable := by
        rw [← h₁.ctxs]
        exact find_mem hstep
      exact unmapRelease_removes hp (hlive p hp) h₂

end SafeLinux.Kiumd
