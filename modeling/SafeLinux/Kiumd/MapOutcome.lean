import SafeLinux.Kiumd.Frame
import SafeLinux.Kiumd.MapBuf

/-!
# What MAP_BUF can do to a table

`AddOutcome` lists the ways in which an ioctl that adds a buffer may leave the tables: nothing
added, an entry added together with what it needs, or an entry added whose buffer has been
released again because the reply could not be copied to the user. `kiumdDmabufVfioMap_adds` says
that there are no others.
-/

namespace SafeLinux.Kiumd

open Effects
open Effects.Program (perform)

/-- The entry of an attached and mapped buffer. -/
structure IsBuffer (data : SmmuMapData) (d : DmaBuf) (a : Attachment) : Prop where
  dmabuf : data.dmabufPtr = some d
  attach : data.dmabufattach = some a
  sgt : data.sgtPtr = some a.table
  context : data.context = none
  fits : a.Fits d a.dev
  device : ∀ v, data.vfioDev = some v → v.dev = some a.dev

/-- The entry of a table is that of a buffer or of an MMIO mapping. -/
inductive Shaped (data : SmmuMapData) : Prop where
  | buffer (d : DmaBuf) (a : Attachment) (h : IsBuffer data d a)
  | mmio (m : Nat) (context : data.context = some m) (dmabuf : data.dmabufPtr = none)
      (attach : data.dmabufattach = none)

/-- The answer with which the reply of an ioctl is not copied to the user. -/
def KCall.copyFails : {β : Type} → KCall β → β → Bool
  | _, .copyToUser _, copied => !copied
  | _, _, _ => false

/-- The reply of an ioctl could not be copied to the user. -/
def CopyFailed (trace : List (Event KCall)) : Prop :=
  ∃ e ∈ trace, e.call.copyFails e.answer = true

instance (trace : List (Event KCall)) : Decidable (CopyFailed trace) :=
  inferInstanceAs (Decidable (∃ e ∈ trace, _))

/-- What a published buffer entry needs besides its own memory. -/
def bufferNeeds (d : DmaBuf) (a : Attachment) : Multiset Resource :=
  .mapping a.dev a.table ::ₘ .attachment a ::ₘ .dmabuf d ::ₘ 0

/-- The outcomes of an ioctl that adds a buffer of a kind to the table of the context `c`. -/
inductive AddOutcome (b : World) (c : Nat) (kind : SmmuMapData → Attachment → Prop)
    (trace : List (Event KCall)) (w : World) : Prop where
  | refused (frame : Frame b w 0)
  | published (p : Nat) (d : DmaBuf) (a : Attachment) (data : SmmuMapData)
      (fresh : .smap p ∉ b.held) (buffer : IsBuffer data d a) (hkind : kind data a)
      (frame : Frame (b.publish c p data) w (bufferNeeds d a))
  | stale (p : Nat) (d : DmaBuf) (a : Attachment) (data : SmmuMapData)
      (fresh : .smap p ∉ b.held) (buffer : IsBuffer data d a) (hkind : kind data a)
      (failed : CopyFailed trace) (frame : Frame (b.publish c p data) w 0)

/-- The postcondition of an ioctl that adds a buffer. -/
def Adds (b : World) (c : Nat) (kind : SmmuMapData → Attachment → Prop) : Post KCall World Int :=
  fun trace _ w => AddOutcome b c kind trace w

instance Adds.stable (b : World) (c : Nat) (kind : SmmuMapData → Attachment → Prop) :
    (Adds b c kind).Stable where
  prepend past trace _ w h := by
    cases h with
    | refused frame => exact .refused frame
    | published p d a data fresh buffer hkind frame =>
        exact .published p d a data fresh buffer hkind frame
    | stale p d a data fresh buffer hkind failed frame =>
        obtain ⟨e, he, hfails⟩ := failed
        exact .stale p d a data fresh buffer hkind
          ⟨e, List.mem_append_right _ he, hfails⟩ frame

/-- The entries `kiumd_dmabuf_vfio_map` publishes. -/
structure MapKind (kiusr : KiumdUser) (data : SmmuMapData) (a : Attachment) : Prop where
  vfioDev : ∃ v : VfioDevice, data.vfioDev = some v ∧ v.dev = some a.dev
  ptselect : data.ptselect = kiusr.ptselect
  isIovaZero : data.isIovaZero = kiusr.isIovaZero

variable {b w : World} {c : Nat} {x : Multiset Resource} {kiusr : KiumdUser}

theorem refused_of_frame {kind : SmmuMapData → Attachment → Prop} {trace : List (Event KCall)}
    (h : Frame b w x) : AddOutcome b c kind trace w :=
  .refused (h.weaken (Multiset.zero_le x))

/-! ## The error exits -/

section

variable {file : File} {dmabuf : DmaBuf} {attach : Attachment} {ret : Int}
  {Q : Post KCall World Int} [Q.Stable]

theorem mapFailFput_spec (h : Frame b w (.file file ::ₘ x))
    (hQ : ∀ trace w', Frame b w' x → Q trace (some ret) w') :
    wp kernel .any (mapFailFput file ret) Q w := by
  refine wp_give h rfl ?_
  intro w' h'
  exact wp_pure.mpr (hQ _ _ h')

theorem mapFailPut_spec (h : Frame b w (.dmabuf dmabuf ::ₘ .file file ::ₘ x))
    (hQ : ∀ trace w', Frame b w' x → Q trace (some ret) w') :
    wp kernel .any (mapFailPut file dmabuf ret) Q w := by
  refine wp_give h rfl ?_
  intro w' h'
  exact mapFailFput_spec h' hQ

theorem mapFailDetach_spec
    (h : Frame b w (.attachment attach ::ₘ .dmabuf dmabuf ::ₘ .file file ::ₘ x))
    (hQ : ∀ trace w', Frame b w' x → Q trace (some ret) w') :
    wp kernel .any (mapFailDetach file dmabuf attach ret) Q w := by
  refine wp_give h rfl ?_
  intro w' h'
  exact mapFailPut_spec h' hQ

end

/-! ## The stages of the ioctl -/

/-- What `kiumd_dmabuf_vfio_map` holds between the mapping and the publication. -/
abbrev mappedHeld (file : File) (d : DmaBuf) (a : Attachment) : Multiset Resource :=
  .mapping a.dev a.table ::ₘ .attachment a ::ₘ .dmabuf d ::ₘ .file file ::ₘ 0

theorem mapDmaAddr_spec {sgt : SgTable} (h : Frame b w x) :
    wp kernel .any (mapDmaAddr kiusr sgt) (Keeps b x) w := by
  unfold mapDmaAddr
  split
  · exact wp_pure.mpr ⟨rfl, h⟩
  · exact wp_perform_quiet h rfl fun _ _ _ _ h' => ⟨rfl, h'⟩

theorem mangleForDebug_spec {sgt : SgTable} (h : Frame b w x) :
    wp kernel .any (mangleForDebug sgt) (Keeps b x) w := by
  unfold mangleForDebug
  refine wp_step ?_
  intro debug w₁ hstep
  have h₁ := h.quiet_step rfl hstep
  split
  · exact wp_perform_quiet h₁ rfl fun _ _ _ _ h' => ⟨rfl, h'⟩
  · exact wp_pure.mpr ⟨rfl, h₁⟩

theorem mapFailFput_adds {file : File} {ret : Int} {kind : SmmuMapData → Attachment → Prop}
    (h : Frame b w x) (hx : .file file ∈ x) :
    wp kernel .any (mapFailFput file ret) (Adds b c kind) w := by
  obtain ⟨x', rfl⟩ := Multiset.exists_cons_of_mem hx
  exact mapFailFput_spec h fun _ _ h' => refused_of_frame h'

/-- After a failed copy the entry stays in the table while its buffer is released. -/
theorem mapReply_adds {kiusr' : KiumdUser} {file : File} {d : DmaBuf} {a : Attachment} {dir : Int}
    {p : Nat} {data : SmmuMapData} {kind : SmmuMapData → Attachment → Prop}
    (hp : .smap p ∉ b.held) (hbuffer : IsBuffer data d a) (hkind : kind data a)
    (h : Frame (b.publish c p data) w (mappedHeld file d a)) :
    wp kernel .any (mapReply kiusr' file d a a.table dir) (Adds b c kind) w := by
  unfold mapReply
  refine wp_step ?_
  intro copied w₁ hstep
  have h₁ := h.quiet_step rfl hstep
  cases copied with
  | false =>
      have hexit : wp kernel .any
          (do perform (.dmaBufUnmapAttachment a a.table dir); mapFailDetach file d a (-EFAULT))
          (Keeps (b.publish c p data) 0) w₁ := by
        refine wp_give h₁ rfl ?_
        intro w₂ h₂
        exact mapFailDetach_spec h₂ fun _ _ h' => ⟨rfl, h'⟩
      refine wp_mono hexit ?_
      intro trace _ w' h'
      exact .stale p d a data hp hbuffer hkind ⟨_, List.mem_cons_self, rfl⟩ h'.2
  | true =>
      have hfile : mappedHeld file d a = .file file ::ₘ bufferNeeds d a := by
        simp only [mappedHeld, bufferNeeds, ← Multiset.cons_swap (Resource.file file)]
      rw [hfile] at h₁
      refine wp_after (wp_give h₁ rfl ?_)
      intro w₂ h₂
      exact wp_pure.mpr (.published p d a data hp hbuffer hkind h₂)

theorem mapPublish_adds {file : File} {vfioDev : VfioDevice} {d : DmaBuf} {a : Attachment}
    {dir : Int} (h : Frame b w (mappedHeld file d a)) (ha : a.Fits d a.dev)
    (hdev : vfioDev.dev = some a.dev) :
    wp kernel .any (mapPublish (some (some c)) kiusr file vfioDev d a a.table dir)
      (Adds b c (MapKind kiusr)) w := by
  unfold mapPublish
  refine wp_kzallocSmap h ?_ ?_
  · exact mapFailFput_adds h (by simp)
  · intro p w₁ hp h₁
    refine wp_smmuAdd h₁ ?_
    intro id w₂ h₂
    refine wp_keeps (mapDmaAddr_spec h₂) ?_
    intro dmaAddr w₃ h₃
    have hdevice : ∀ v, some vfioDev = some v → v.dev = some a.dev := by
      rintro v ⟨⟩
      exact hdev
    exact mapReply_adds hp ⟨rfl, rfl, rfl, rfl, ha, hdevice⟩ ⟨⟨vfioDev, rfl, hdev⟩, rfl, rfl⟩ h₃

/-- What is held while the buffer is attached but not mapped. -/
abbrev attachedHeld (file : File) (d : DmaBuf) (a : Attachment) : Multiset Resource :=
  .attachment a ::ₘ .dmabuf d ::ₘ .file file ::ₘ 0

theorem mapFailDetach_adds {file : File} {d : DmaBuf} {a : Attachment} {ret : Int}
    {kind : SmmuMapData → Attachment → Prop} (h : Frame b w (attachedHeld file d a)) :
    wp kernel .any (mapFailDetach file d a ret) (Adds b c kind) w :=
  mapFailDetach_spec h fun _ _ h' => .refused h'

theorem mapAttached_adds {file : File} {vfioDev : VfioDevice} {dev : Device} {d : DmaBuf}
    {a : Attachment} (h : Frame b w (attachedHeld file d a)) (ha : a.Fits d dev)
    (hdev : vfioDev.dev = some dev) :
    wp kernel .any (mapAttached (some (some c)) kiusr file vfioDev dev d a)
      (Adds b c (MapKind kiusr)) w := by
  obtain rfl : a.dev = dev := ha.2.1
  unfold mapAttached
  split
  · exact mapFailDetach_adds h
  dsimp only
  split
  · -- a privileged buffer is mapped through the table its exporter keeps
    cases hpriv : a.priv with
    | none => exact mapFailDetach_adds h
    | some heapAttachment =>
        cases heapAttachment with
        | none => exact mapFailDetach_adds h
        | some sgt =>
            obtain rfl : sgt = a.table := by
              simpa [hpriv] using ha.2.2.2
            refine wp_dmaMapSgtable h ?_ ?_
            · intro ret hret
              rw [if_pos hret]
              exact mapFailDetach_adds h
            · intro w₁ h₁
              exact mapPublish_adds h₁ ha hdev
  split
  · exact wp_pure.mpr (refused_of_frame h)
  refine wp_dmaBufMapAttachment h ?_ ?_
  · intro e
    exact mapFailDetach_adds h
  intro w₁ h₁
  dsimp only
  split
  · refine wp_quiet h₁ rfl ?_
    intro domain w₂ _ h₂
    cases domain with
    | none => exact mapFailFput_adds h₂ (by simp)
    | some domain =>
        refine wp_keeps (mangleForDebug_spec h₂) ?_
        intro _ w₃ h₃
        refine wp_quiet h₃ rfl ?_
        intro mapped w₄ _ h₄
        rw [if_neg (BitVec.not_lt_zero)]
        exact mapPublish_adds h₄ ha hdev
  · exact mapPublish_adds h₁ ha hdev

theorem mapAttach_adds {file : File} {vfioDev : VfioDevice} {d : DmaBuf}
    (h : Frame b w (.dmabuf d ::ₘ .file file ::ₘ 0)) :
    wp kernel .any (mapAttach (some (some c)) kiusr file vfioDev d)
      (Adds b c (MapKind kiusr)) w := by
  unfold mapAttach
  cases hdev : vfioDev.dev with
  | none => exact mapFailPut_spec h fun _ _ h' => .refused h'
  | some dev =>
      refine wp_dmaBufAttach h ?_ ?_
      · intro e
        exact mapFailPut_spec h fun _ _ h' => .refused h'
      · intro a w₁ ha h₁
        exact mapAttached_adds h₁ ha hdev

/-! ## The reservation of an IOVA -/

theorem takeMapArea_keeps {m : KgslMap} {bit size : U64} (h : Frame b w x) :
    wp kernel .any (takeMapArea m bit size) (Keeps b x) w := by
  refine wp_quiet h rfl ?_
  intro _ w₁ _ h₁
  refine wp_quiet h₁ rfl ?_
  intro _ w₂ _ h₂
  exact wp_pure.mpr ⟨rfl, h₂⟩

theorem getMapOffset_keeps {size : U64} {ptselect : Int} (h : Frame b w x) :
    wp kernel .any (getMapOffset size ptselect) (Keeps b x) w := by
  unfold getMapOffset
  split
  · exact wp_pure.mpr ⟨rfl, h⟩
  split
  · exact wp_pure.mpr ⟨rfl, h⟩
  refine wp_quiet h rfl ?_
  intro last w₁ _ h₁
  refine wp_quiet h₁ rfl ?_
  intro bit w₂ _ h₂
  split
  · exact takeMapArea_keeps h₂
  refine wp_quiet h₂ rfl ?_
  intro bit w₃ _ h₃
  split
  · exact wp_pure.mpr ⟨rfl, h₃⟩
  · exact takeMapArea_keeps h₃

theorem setMapIova_keeps {offset : U64} {vfioDev : VfioDevice} {ptselect : Int}
    (h : Frame b w x) : wp kernel .any (setMapIova offset vfioDev ptselect) (Keeps b x) w := by
  refine wp_keeps (kiumdGetDmaCookie_keeps h) ?_
  intro cookie w₁ h₁
  split
  · exact kiumdSetDmaCookie_keeps h₁
  · exact wp_pure.mpr ⟨rfl, h₁⟩

/-- `kiumd_dmabuf_vfio_map` adds at most one entry, and with it what the entry needs unless the
reply could not be copied. -/
theorem kiumdDmabufVfioMap_adds :
    wp kernel .any (kiumdDmabufVfioMap kiusr (some (some c))) (Adds w c (MapKind kiusr)) w := by
  have h := Frame.refl w
  refine wp_kzallocSmap h (wp_pure.mpr (.refused h)) ?_
  intro p w₁ _ h₁
  replace h₁ := h₁.drop
  refine wp_quiet h₁ rfl ?_
  intro copied w₂ _ h₂
  split
  · exact wp_pure.mpr (.refused h₂)
  split
  · exact wp_pure.mpr (.refused h₂)
  refine wp_fget h₂ (wp_pure.mpr (.refused h₂)) ?_
  intro file w₃ h₃
  dsimp only
  split
  · rename_i device _
    split
    · rename_i vfioDev
      refine wp_dmaBufGet h₃ ?_ ?_
      · intro buffer hbuffer
        cases buffer with
        | ptr d => exact absurd rfl (hbuffer d)
        | null | err e =>
            dsimp only
            split
            · exact mapFailFput_adds h₃ (by simp)
            · exact wp_oops (refused_of_frame h₃)
      · intro d w₄ h₄
        dsimp only
        split
        · refine wp_keeps (getMapOffset_keeps h₄) ?_
          intro offset w₅ h₅
          split
          · exact mapFailPut_spec h₅ fun _ _ h' => .refused h'
          refine wp_keeps (setMapIova_keeps h₅) ?_
          intro ret w₆ h₆
          split
          · exact mapFailPut_spec h₆ fun _ _ h' => .refused h'
          · exact mapAttach_adds h₆
        · exact mapAttach_adds h₄
    · exact mapFailFput_spec h₃ fun _ _ h' => .refused h'
  · refine wp_oops (refused_of_frame h₃)

end SafeLinux.Kiumd
