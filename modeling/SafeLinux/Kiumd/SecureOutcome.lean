import SafeLinux.Kiumd.UnmapOutcome
import SafeLinux.Kiumd.Secure

/-!
# What the secure ioctls can do to a table

SECURE_MAP adds a buffer as MAP_BUF does, and SECURE_UNMAP removes one as UNMAP_BUF does: it leaves
an entry without its mapping when the memory cannot be taken back from the other virtual machines.
-/

namespace SafeLinux.Kiumd

open Effects
open Effects.Program (perform)

variable {b w : World} {c p : Nat} {x : Multiset Resource} {kiusr : KiumdUser} {d : DmaBuf}
  {a : Attachment} {file : File} {acl : AclLists} {pgd : U64} {ret : Int}

/-! ## Assigning memory -/

theorem kiumdIoPgtableHypAssignPage_keeps {vmids : List Int} {page : U64} (h : Frame b w x) :
    wp kernel .any (kiumdIoPgtableHypAssignPage vmids page) (Keeps b x) w := by
  refine wp_kmallocArray h (wp_pure.mpr ⟨rfl, h⟩) ?_
  intro dst w₁ h₁
  refine wp_quiet h₁ rfl ?_
  intro ret w₂ _ h₂
  refine wp_give h₂ rfl ?_
  intro w₃ h₃
  exact wp_pure.mpr ⟨rfl, h₃⟩

theorem kiumdIoPgtableHypUnassignPage_keeps {vmids : List Int} {page : U64} (h : Frame b w x) :
    wp kernel .any (kiumdIoPgtableHypUnassignPage vmids page) (Keeps b x) w :=
  wp_perform_quiet h rfl fun _ _ _ _ h' => ⟨rfl, h'⟩

theorem hypAssignEntries_keeps {src : U64} {dst : List QcomScmVmperm} {sgl : List SgEntry}
    (h : Frame b w x) : wp kernel .any (hypAssignEntries src dst sgl) (Keeps b x) w := by
  induction sgl generalizing w with
  | nil => exact wp_pure.mpr ⟨rfl, h⟩
  | cons sg rest ih =>
      refine wp_quiet h rfl ?_
      intro ret w₁ _ h₁
      split
      · exact wp_pure.mpr ⟨rfl, h₁⟩
      · exact ih h₁

theorem kiumdHypUnassignSg_keeps {table : SgTable} {vmids : List Int} (h : Frame b w x) :
    wp kernel .any (kiumdHypUnassignSg (.ptr table) vmids) (Keeps b x) w := by
  unfold kiumdHypUnassignSg
  split
  · exact wp_pure.mpr ⟨rfl, h⟩
  dsimp only
  split
  · exact wp_pure.mpr ⟨rfl, h⟩
  · exact hypAssignEntries_keeps h

theorem kiumdHypAssignSg_keeps {table : SgTable} {vmids perms : List Int} (h : Frame b w x) :
    wp kernel .any (kiumdHypAssignSg table vmids perms) (Keeps b x) w := by
  unfold kiumdHypAssignSg
  split
  · exact wp_pure.mpr ⟨rfl, h⟩
  split
  · exact wp_pure.mpr ⟨rfl, h⟩
  refine wp_kmallocArray h (wp_pure.mpr ⟨rfl, h⟩) ?_
  intro dst w₁ h₁
  refine wp_keeps (hypAssignEntries_keeps h₁) ?_
  intro ret w₂ h₂
  refine wp_give h₂ rfl ?_
  intro w₃ h₃
  exact wp_pure.mpr ⟨rfl, h₃⟩

/-! ## The access control list and the page table -/

/-- A list of as many virtual machines as the access control list has entries. -/
def AclRead (count : Nat) : Except Int (List Int × List Int) → Prop
  | .error _ => True
  | .ok (vmids, perms) => vmids.length = count ∧ perms.length = count

theorem aclEntries_yields {list count index : Nat} (h : Frame b w x) :
    wp kernel .any (aclEntries list count index) (Yields b x (AclRead count)) w := by
  induction count generalizing w index with
  | zero => exact wp_pure.mpr ⟨_, rfl, ⟨rfl, rfl⟩, h⟩
  | succ count ih =>
      refine wp_quiet h rfl ?_
      intro entry w₁ _ h₁
      cases entry with
      | error ret => exact wp_pure.mpr ⟨_, rfl, trivial, h₁⟩
      | ok entry =>
      dsimp only
      split
      · exact wp_pure.mpr ⟨_, rfl, trivial, h₁⟩
      refine wp_yields (ih h₁) ?_
      intro lists w₂ hlists h₂
      cases lists with
      | error ret => exact wp_pure.mpr ⟨_, rfl, trivial, h₂⟩
      | ok lists =>
          obtain ⟨hvmids, hperms⟩ := hlists
          exact wp_pure.mpr ⟨_, rfl, ⟨by simp [hvmids], by simp [hperms]⟩, h₂⟩

/-- What the lists of an access control list hold. -/
abbrev aclHeld (acl : AclLists) (x : Multiset Resource) : Multiset Resource :=
  .heap acl.vmidsPtr ::ₘ .heap acl.permsPtr ::ₘ x

/-- The lists are not empty and equally long. -/
structure AclLists.Good (acl : AclLists) : Prop where
  vmids_pos : 0 < acl.vmids.length
  perms_length : acl.perms.length = acl.vmids.length

/-- The lists have been read and are held, or nothing is. -/
def AclOr (b : World) (x : Multiset Resource) : Post KCall World (Except Int AclLists) :=
  fun _ result w => (∃ ret, result = some (.error ret) ∧ Frame b w x) ∨
    ∃ acl, result = some (.ok acl) ∧ acl.Good ∧ Frame b w (aclHeld acl x)

instance : (AclOr b x).Stable := ⟨fun _ _ _ _ h => h⟩

theorem kiumdAclToVmidPermsList_spec {parcel : KiumdMemParcel} (h : Frame b w x) :
    wp kernel .any (kiumdAclToVmidPermsList parcel) (AclOr b x) w := by
  unfold kiumdAclToVmidPermsList
  split
  · exact wp_pure.mpr (.inl ⟨_, rfl, h⟩)
  rename_i hparcel
  split
  · exact wp_pure.mpr (.inl ⟨_, rfl, h⟩)
  refine wp_kmallocArray h (wp_pure.mpr (.inl ⟨_, rfl, h⟩)) ?_
  intro vmidsPtr w₁ h₁
  refine wp_kmallocArray h₁ ?_ ?_
  · refine wp_give h₁ rfl ?_
    intro w₂ h₂
    exact wp_pure.mpr (.inl ⟨_, rfl, h₂⟩)
  intro permsPtr w₂ h₂
  refine wp_yields (aclEntries_yields h₂) ?_
  intro lists w₃ hlists h₃
  cases lists with
  | error ret =>
      refine wp_give h₃ rfl ?_
      intro w₄ h₄
      refine wp_give h₄ rfl ?_
      intro w₅ h₅
      exact wp_pure.mpr (.inl ⟨_, rfl, h₅⟩)
  | ok lists =>
      obtain ⟨hvmids, hperms⟩ := hlists
      have hpos : 0 < parcel.nrAclEntries.toNat := by
        have hne : parcel.nrAclEntries ≠ 0 := fun hzero => hparcel (.inl hzero)
        bv_omega
      exact wp_pure.mpr (.inr ⟨_, rfl, ⟨by simpa [hvmids] using hpos, by rw [hperms, hvmids]⟩,
        h₃.swap⟩)

/-- The rule for reading an access control list. -/
theorem wp_acl {α : Type} {Q : Post KCall World α} [Q.Stable] {parcel : KiumdMemParcel}
    {rest : Except Int AclLists → KProg α} (h : Frame b w x)
    (herror : ∀ ret w', Frame b w' x → wp kernel .any (rest (.error ret)) Q w')
    (hok : ∀ acl w', acl.Good → Frame b w' (aclHeld acl x) →
      wp kernel .any (rest (.ok acl)) Q w') :
    wp kernel .any (kiumdAclToVmidPermsList parcel >>= rest) Q w := by
  refine wp_then (kiumdAclToVmidPermsList_spec h) ?_ ?_
  · rintro _ _ w' (⟨ret, hret, h'⟩ | ⟨acl, hacl, hgood, h'⟩)
    · cases hret
      exact herror ret w' h'
    · cases hacl
      exact hok acl w' hgood h'
  · rintro _ w' (⟨ret, hret, _⟩ | ⟨acl, hacl, _, _⟩)
    · cases hret
    · cases hacl

theorem kiumdGetPgd_keeps {dev : Device} (h : Frame b w x) :
    wp kernel .any (kiumdGetPgd dev) (Keeps b x) w := by
  refine wp_quiet h rfl ?_
  intro domain w₁ _ h₁
  split
  · refine wp_quiet h₁ rfl ?_
    intro ttbr w₂ _ h₂
    split <;> exact wp_pure.mpr ⟨rfl, h₂⟩
  · exact wp_pure.mpr ⟨rfl, h₁⟩

/-! ## The error exits -/

section

variable {Q : Post KCall World Int} [Q.Stable]

theorem secureCloseFile_spec (h : Frame b w (.file file ::ₘ x))
    (hQ : ∀ trace w', Frame b w' x → Q trace (some ret) w') :
    wp kernel .any (secureCloseFile file ret) Q w := by
  refine wp_give h rfl ?_
  intro w' h'
  exact wp_pure.mpr (hQ _ _ h')

theorem secureFreeMem_spec (h : Frame b w (aclHeld acl (.file file ::ₘ x)))
    (hQ : ∀ trace w', Frame b w' x → Q trace (some ret) w') :
    wp kernel .any (secureFreeMem file acl ret) Q w := by
  refine wp_give h rfl ?_
  intro w₁ h₁
  refine wp_give h₁ rfl ?_
  intro w₂ h₂
  exact secureCloseFile_spec h₂ hQ

/-- What SECURE_MAP holds while the buffer is attached. -/
abbrev secureHeld (file : File) (acl : AclLists) (d : DmaBuf) (a : Attachment)
    (x : Multiset Resource) : Multiset Resource :=
  .attachment a ::ₘ .dmabuf d ::ₘ aclHeld acl (.file file ::ₘ x)

theorem secureDetach_spec (h : Frame b w (secureHeld file acl d a x))
    (hQ : ∀ trace w', Frame b w' x → Q trace (some ret) w') :
    wp kernel .any (secureDetach file acl d a ret) Q w := by
  refine wp_give h rfl ?_
  intro w₁ h₁
  refine wp_give h₁ rfl ?_
  intro w₂ h₂
  exact secureFreeMem_spec h₂ hQ

theorem secureUnassignTable_spec (h : Frame b w (secureHeld file acl d a x))
    (hQ : ∀ trace w', Frame b w' x → Q trace (some ret) w') :
    wp kernel .any (secureUnassignTable file acl d a pgd ret) Q w := by
  refine wp_keeps (kiumdIoPgtableHypUnassignPage_keeps h) ?_
  intro _ w₁ h₁
  exact secureDetach_spec h₁ hQ

theorem secureUnassignSg_spec {table : SgTable} (h : Frame b w (secureHeld file acl d a x))
    (hQ : ∀ trace w', Frame b w' x → Q trace (some ret) w') :
    wp kernel .any (secureUnassignSg file acl d a pgd (.ptr table) ret) Q w := by
  refine wp_keeps (kiumdHypUnassignSg_keeps h) ?_
  intro _ w₁ h₁
  exact secureUnassignTable_spec h₁ hQ

end

/-! ## SECURE_MAP -/

/-- The entries `kiumd_dmabuf_vfio_secure_map` publishes: they name no device. -/
structure SecureKind (data : SmmuMapData) : Prop where
  vfioDev : data.vfioDev = none
  ptselect : data.ptselect = 0
  isIovaZero : data.isIovaZero = 0

/-- The postcondition of SECURE_MAP. -/
abbrev AddsSecure (b : World) (c : Nat) : Post KCall World Int :=
  Adds b c fun data _ => SecureKind data

theorem secureCloseFile_adds (h : Frame b w x) (hx : .file file ∈ x) :
    wp kernel .any (secureCloseFile file ret) (AddsSecure b c) w := by
  obtain ⟨x', rfl⟩ := Multiset.exists_cons_of_mem hx
  exact secureCloseFile_spec h fun _ _ h' => refused_of_frame h'

/-- After a failed copy the entry stays in the table while its buffer is released. -/
theorem secureMapReply_adds {kiusr' : KiumdUser} {data : SmmuMapData} (hp : .smap p ∉ b.held)
    (hbuffer : IsBuffer data d a) (hkind : SecureKind data)
    (h : Frame (b.publish c p data) w
      (.mapping a.dev a.table ::ₘ secureHeld file acl d a 0)) :
    wp kernel .any (secureMapReply kiusr' file acl d a pgd a.table) (AddsSecure b c) w := by
  unfold secureMapReply
  refine wp_step ?_
  intro copied w₁ hstep
  have h₁ := h.quiet_step rfl hstep
  cases copied with
  | false =>
      have hexit : wp kernel .any
          (do perform (.dmaBufUnmapAttachment a a.table DMA_BIDIRECTIONAL)
              secureUnassignSg file acl d a pgd (.ptr a.table) (-EFAULT))
          (Keeps (b.publish c p data) 0) w₁ := by
        refine wp_give h₁ rfl ?_
        intro w₂ h₂
        exact secureUnassignSg_spec h₂ fun _ _ h' => ⟨rfl, h'⟩
      refine wp_mono hexit ?_
      intro trace _ w' h'
      exact .stale p d a data hp hbuffer hkind ⟨_, List.mem_cons_self, rfl⟩ h'.2
  | true =>
      have horder : (.mapping a.dev a.table ::ₘ secureHeld file acl d a 0 : Multiset Resource) =
          aclHeld acl (.file file ::ₘ bufferNeeds d a) := by
        simp only [secureHeld, aclHeld, bufferNeeds, ← Multiset.singleton_add]
        ac_rfl
      rw [horder] at h₁
      refine wp_after (wp_give h₁ rfl ?_)
      intro w₂ h₂
      refine wp_give h₂ rfl ?_
      intro w₃ h₃
      refine wp_give h₃ rfl ?_
      intro w₄ h₄
      exact wp_pure.mpr (.published p d a data hp hbuffer hkind h₄)

theorem secureMapPublish_adds (ha : a.Fits d a.dev)
    (h : Frame b w (.mapping a.dev a.table ::ₘ secureHeld file acl d a 0)) :
    wp kernel .any (secureMapPublish kiusr (some (some c)) file acl d a pgd (some a.table))
      (AddsSecure b c) w := by
  unfold secureMapPublish
  refine wp_kzallocSmap h ?_ ?_
  · exact secureCloseFile_adds h (by simp)
  · intro p w₁ hp h₁
    refine wp_smmuAdd h₁ ?_
    intro id w₂ h₂
    refine wp_quiet h₂ rfl ?_
    intro dmaAddr w₃ _ h₃
    refine secureMapReply_adds hp ⟨rfl, rfl, rfl, rfl, ha, ?_⟩ ⟨rfl, rfl, rfl⟩ h₃
    intro v hv
    cases hv

theorem secureMapAttached_adds (ha : a.Fits d a.dev)
    (h : Frame b w (secureHeld file acl d a 0)) :
    wp kernel .any (secureMapAttached kiusr (some (some c)) file acl d a pgd)
      (AddsSecure b c) w := by
  have hdetach {w' : World} {ret : Int} (h' : Frame b w' (secureHeld file acl d a 0)) :
      wp kernel .any (secureDetach file acl d a ret) (AddsSecure b c) w' :=
    secureDetach_spec h' fun _ _ h'' => .refused h''
  unfold secureMapAttached
  split
  · split
    · split
      · exact hdetach h
      refine wp_keeps (kiumdIoPgtableHypAssignPage_keeps h) ?_
      intro ret w₁ h₁
      split
      · exact hdetach h₁
      refine wp_keeps (kiumdHypAssignSg_keeps h₁) ?_
      intro ret w₂ h₂
      split
      · exact secureUnassignTable_spec h₂ fun _ _ h' => .refused h'
      refine wp_dmaBufMapAttachment h₂ ?_ ?_
      · intro e
        dsimp only
        unfold secureUnassignSg kiumdHypUnassignSg
        split
        · exact secureUnassignTable_spec h₂ fun _ _ h' => .refused h'
        · -- the error pointer is dereferenced
          exact wp_oops (refused_of_frame h₂)
      · intro w₃ h₃
        exact secureMapPublish_adds ha h₃
    · exact hdetach h
  · exact hdetach h

/-- `kiumd_dmabuf_vfio_secure_map` adds at most one entry, and with it what the entry needs unless
the reply could not be copied. -/
theorem kiumdDmabufVfioSecureMap_adds :
    wp kernel .any (kiumdDmabufVfioSecureMap kiusr (some (some c))) (AddsSecure w c) w := by
  have h := Frame.refl w
  refine wp_quiet h rfl ?_
  intro copied w₁ _ h₁
  split
  · exact wp_pure.mpr (.refused h₁)
  split
  · exact wp_pure.mpr (.refused h₁)
  refine wp_fget h₁ (wp_pure.mpr (.refused h₁)) ?_
  intro file w₂ h₂
  dsimp only
  split
  swap
  · exact wp_oops (refused_of_frame h₂)
  split
  swap
  · exact secureCloseFile_adds h₂ (by simp)
  split
  swap
  · exact secureCloseFile_adds h₂ (by simp)
  refine wp_keeps (kiumdGetPgd_keeps h₂) ?_
  intro pgd w₃ h₃
  split
  · exact secureCloseFile_adds h₃ (by simp)
  refine wp_dmaBufGet h₃ ?_ ?_
  · intro buffer hbuffer
    cases buffer with
    | ptr d => exact absurd rfl (hbuffer d)
    | null | err e => exact secureCloseFile_adds h₃ (by simp)
  intro d w₄ h₄
  refine wp_acl h₄ ?_ ?_
  · intro ret w₅ h₅
    exact secureCloseFile_adds h₅ (by simp)
  intro acl w₅ _ h₅
  refine wp_dmaBufAttach h₅ ?_ ?_
  · intro e
    have horder : aclHeld acl (.dmabuf d ::ₘ .file file ::ₘ 0) =
        aclHeld acl (.file file ::ₘ .dmabuf d ::ₘ 0) := by
      simp only [aclHeld, ← Multiset.singleton_add]
      ac_rfl
    rw [horder] at h₅
    exact secureFreeMem_spec h₅ fun _ _ h' => refused_of_frame h'
  · intro a w₆ ha h₆
    obtain rfl := ha.2.1
    have horder : (.attachment a ::ₘ aclHeld acl (.dmabuf d ::ₘ .file file ::ₘ 0) :
        Multiset Resource) = secureHeld file acl d a 0 := by
      simp only [secureHeld, aclHeld, ← Multiset.singleton_add]
      ac_rfl
    rw [horder] at h₆
    exact secureMapAttached_adds ha h₆

/-! ## SECURE_UNMAP -/

/-- The answers with which memory is not assigned. -/
def KCall.scmFails : {β : Type} → KCall β → β → Bool
  | _, .qcomScmAssignMem _ _ _, ret => ret < 0
  | _, _, _ => false

/-- Some memory has not been assigned. -/
def ScmFailed (trace : List (Event KCall)) : Prop :=
  ∃ e ∈ trace, e.call.scmFails e.answer = true

theorem ScmFailed.mono {trace trace' : List (Event KCall)} (h : ScmFailed trace)
    (hsub : ∀ e ∈ trace, e ∈ trace') : ScmFailed trace' := by
  obtain ⟨e, he, hfails⟩ := h
  exact ⟨e, hsub e he, hfails⟩

/-- A call that releases the mapping of a table without memory. -/
def KCall.unmapsEmpty : {β : Type} → KCall β → Bool
  | _, .dmaBufUnmapAttachment _ t _ => t.sgl.isEmpty
  | _, _ => false

/-- SECURE_UNMAP failed after it had released the mapping: some memory could not be taken back, or
there was none. -/
def SecureLate (trace : List (Event KCall)) : Prop :=
  ScmFailed (afterUnmap trace) ∨ ∃ e ∈ trace, e.call.unmapsEmpty = true

/-- The postcondition of SECURE_UNMAP. -/
abbrev RemovesSecure (b : World) (c : Nat) : Post KCall World Int := Removes b c SecureLate

instance : (RemovesSecure b c).Stable := by
  refine Removes.stable ?_
  rintro past trace (⟨e, he, hfails⟩ | ⟨e, he, hempty⟩)
  · exact .inl ⟨e, mem_afterUnmap_append he, hfails⟩
  · exact .inr ⟨e, List.mem_append_right _ he, hempty⟩

/-- Memory has been taken back; otherwise an assignment has failed or there was none. -/
def TakenOr (b : World) (x : Multiset Resource) (sgl : List SgEntry) : Post KCall World Int :=
  fun trace result w => Frame b w x ∧
    ∃ ret, result = some ret ∧ (ret < 0 → ScmFailed trace ∨ sgl = [])

theorem qcomScmAssignMem_spec {range : MemRange} {src : U64} {dst : List QcomScmVmperm}
    (sgl : List SgEntry) (h : Frame b w x) :
    wp kernel .any (perform (.qcomScmAssignMem range src dst)) (TakenOr b x sgl) w := by
  rw [wp_perform]
  refine ⟨trivial, fun hempty => (hempty.false (0 : Int)).elim, ?_⟩
  intro ret w' hstep
  have hstep' : kernelStep (.qcomScmAssignMem range src dst) w ret = some w' := hstep
  exact ⟨h.quiet_step rfl hstep', ret, rfl,
    fun hret => .inl ⟨_, List.mem_singleton_self _, decide_eq_true hret⟩⟩

theorem hypAssignEntries_taken {src : U64} {dst : List QcomScmVmperm} {sgl sgl' : List SgEntry}
    (h : Frame b w x) :
    wp kernel .any (hypAssignEntries src dst sgl) (TakenOr b x sgl') w := by
  induction sgl generalizing w with
  | nil => exact wp_pure.mpr ⟨h, 0, rfl, fun hlt => absurd hlt (lt_irrefl 0)⟩
  | cons sg rest ih =>
      refine wp_step ?_
      intro ret w₁ hstep
      have h₁ := h.quiet_step rfl hstep
      split
      · refine wp_pure.mpr ⟨h₁, ret, rfl, ?_⟩
        exact fun hret => .inl ⟨_, List.mem_cons_self, decide_eq_true hret⟩
      · refine wp_mono (ih h₁) ?_
        rintro trace _ w' ⟨h', ret', rfl, hfailed⟩
        refine ⟨h', ret', rfl, fun hret => (hfailed hret).imp_left fun hscm => ?_⟩
        exact hscm.mono fun e he => List.mem_append_right _ he

theorem kiumdHypUnassignSg_taken {t : SgTable} {vmids : List Int} (hpos : 0 < vmids.length)
    (h : Frame b w x) :
    wp kernel .any (kiumdHypUnassignSg (.ptr t) vmids) (TakenOr b x t.sgl) w := by
  unfold kiumdHypUnassignSg
  rw [if_neg (by omega)]
  dsimp only
  split
  · rename_i hempty
    exact wp_pure.mpr ⟨h, _, rfl, fun _ => .inr (List.isEmpty_iff.mp hempty)⟩
  · exact hypAssignEntries_taken h

/-- The rest of SECURE_UNMAP either deletes the entry and releases its buffer or leaves everything
because some memory could not be taken back. -/
def FinishesSecure (b : World) (c p : Nat) (d : DmaBuf) (a : Attachment) (t : SgTable) :
    Post KCall World Int := fun trace _ w =>
  Frame (((b.release (.attachment a)).release (.dmabuf d)).delete c p) w 0 ∨
    (Frame b w 0 ∧ (ScmFailed trace ∨ t.sgl = []))

instance {t : SgTable} : (FinishesSecure b c p d a t).Stable where
  prepend past trace _ w h := by
    rcases h with h | ⟨h, hfailed⟩
    · exact .inl h
    · exact .inr ⟨h, hfailed.imp_left fun hscm => hscm.mono fun e he =>
        List.mem_append_right _ he⟩

/-- A failed assignment ends SECURE_UNMAP with the entry in place. -/
theorem secureFreeMem_unfinished {t : SgTable} {past : List (Event KCall)}
    (h : Frame b w (aclHeld acl (.file file ::ₘ 0))) (hfailed : ScmFailed past ∨ t.sgl = []) :
    wp kernel .any (secureFreeMem file acl ret) ((FinishesSecure b c p d a t).after past) w := by
  have hexit : wp kernel .any (secureFreeMem file acl ret) (Keeps b 0) w :=
    secureFreeMem_spec h fun _ _ h' => ⟨rfl, h'⟩
  refine wp_mono hexit ?_
  rintro trace _ w' ⟨-, h'⟩
  exact .inr ⟨h', hfailed.imp_left fun hscm => hscm.mono fun e he =>
    List.mem_append_left _ he⟩

theorem secureTakeBack_finishes {t : SgTable} (hgood : acl.Good)
    (hdmabuf : (b.smaps p).dmabufPtr = some d) (hlive : .smap p ∈ b.held)
    (h : Frame b w (aclHeld acl (.file file ::ₘ 0))) :
    wp kernel .any (secureTakeBack c file acl pgd p a t) (FinishesSecure b c p d a t) w := by
  unfold secureTakeBack
  rw [wp_bind]
  refine wp_mono (kiumdHypUnassignSg_taken hgood.vmids_pos h) ?_
  rintro trace _ w₁ ⟨h₁, ret, rfl, hfailed⟩
  rw [Post.andThen_some]
  split
  · rename_i hret
    exact secureFreeMem_unfinished h₁ (hfailed hret)
  refine wp_after ?_
  rw [wp_bind]
  refine wp_mono (qcomScmAssignMem_spec t.sgl h₁) ?_
  rintro trace _ w₂ ⟨h₂, ret, rfl, hfailed⟩
  rw [Post.andThen_some]
  split
  · rename_i hret
    exact secureFreeMem_unfinished h₂ (hfailed hret)
  refine wp_after (wp_readSmap h₂ hlive ?_)
  rw [hdmabuf]
  refine wp_surrender h₂ rfl (by simp) ?_
  intro w₃ h₃
  refine wp_surrender h₃ rfl (by simp) ?_
  intro w₄ h₄
  refine wp_smmuDel h₄ (by simp) ?_
  intro w₅ h₅
  exact secureFreeMem_spec h₅ fun _ _ h' => .inl h'

/-- Detaching the buffer before the entry is deleted leads to the same state. -/
theorem remove_eq {dev : Device} {t : SgTable} :
    b.remove c p d a dev t =
      (((b.release (.mapping dev t)).release (.attachment a)).release (.dmabuf d)).delete c p := by
  simp only [World.remove, World.delete, World.unlink, World.release, World.setCtx]
  simp only [Multiset.erase_comm _ (Resource.smap p)]

theorem secureUnmapRelease_removes (hgood : acl.Good) (hp : p ∈ (b.ctxs c).smmuTable)
    (hshaped : Shaped (b.smaps p)) (hlive : .smap p ∈ b.held)
    (h : Frame b w (aclHeld acl (.file file ::ₘ 0))) :
    wp kernel .any (secureUnmapRelease c file acl pgd p) (RemovesSecure b c) w := by
  have hexit {ret : Int} : wp kernel .any (secureFreeMem file acl ret) (RemovesSecure b c) w :=
    secureFreeMem_spec h fun _ _ h' => .kept h'
  unfold secureUnmapRelease
  refine wp_readSmap h hlive ?_
  cases hshaped with
  | mmio m _ _ hattach =>
      rw [hattach]
      exact hexit
  | buffer d a hbuffer =>
      rw [hbuffer.attach]
      refine wp_readSmap h hlive ?_
      rw [hbuffer.sgt]
      refine wp_step ?_
      rintro ⟨⟩ w₁ hstep
      cases hstep
      have h₁ : Frame _ _ _ := h.surrender (show Resource.mapping a.dev a.table ∉ _ by simp)
      have hlive₁ : .smap p ∈ (b.release (.mapping a.dev a.table)).held :=
        (Multiset.mem_erase_of_ne (by simp)).mpr hlive
      have hfinish : wp kernel .any (secureTakeBack c file acl pgd p a a.table)
          (FinishesSecure (b.release (.mapping a.dev a.table)) c p d a a.table) _ :=
        secureTakeBack_finishes hgood hbuffer.dmabuf hlive₁ h₁
      refine wp_mono hfinish ?_
      have hunmaps : Unmaps (b.smaps p) d a a.dev a.table :=
        ⟨hbuffer.dmabuf, hbuffer.attach, .inl ⟨hbuffer.sgt, rfl⟩⟩
      rintro trace _ w' (h' | ⟨h', hfailed⟩)
      · refine .removed p d a a.dev a.table hp hunmaps ?_
        rwa [remove_eq]
      · have hafter {e : Event KCall} (he : e.call.isDmaUnmap = true) :
            afterUnmap ([e] ++ trace) = e :: trace := by
          rw [List.singleton_append, afterUnmap, List.dropWhile_cons_of_neg (by simpa using he)]
        refine .half p d a a.dev a.table hp hunmaps ?_ h'
        rcases hfailed with hscm | hempty
        · left
          rw [hafter rfl]
          exact hscm.mono fun e he => List.mem_cons_of_mem _ he
        · exact .inr ⟨_, List.mem_cons_self, List.isEmpty_iff.mpr hempty⟩

/-- `kiumd_dmabuf_vfio_secure_unmap` deletes an entry with its buffer, or leaves all as it is, or
leaves the entry without its mapping because some memory could not be taken back. -/
theorem kiumdDmabufVfioSecureUnmap_removes
    (hlive : ∀ p ∈ (w.ctxs c).smmuTable, .smap p ∈ w.held)
    (hshaped : ∀ p ∈ (w.ctxs c).smmuTable, Shaped (w.smaps p)) :
    wp kernel .any (kiumdDmabufVfioSecureUnmap kiusr (some (some c))) (RemovesSecure w c) w := by
  have h := Frame.refl w
  refine wp_quiet h rfl ?_
  intro copied w₁ _ h₁
  split
  · exact wp_pure.mpr (.kept h₁)
  split
  · exact wp_pure.mpr (.kept h₁)
  refine wp_quiet h₁ rfl ?_
  intro found w₂ hstep h₂
  cases found with
  | none => exact wp_pure.mpr (.kept h₂)
  | some p =>
  have hp : p ∈ (w.ctxs c).smmuTable := by
    rw [← h₁.ctxs]
    exact find_mem hstep
  dsimp only
  split
  · exact wp_pure.mpr (.kept h₂)
  refine wp_fget h₂ (wp_pure.mpr (.kept h₂)) ?_
  intro file w₃ h₃
  have hclose {w' : World} {ret : Int} (h' : Frame w w' (.file file ::ₘ 0)) :
      wp kernel .any (secureCloseFile file ret) (RemovesSecure w c) w' :=
    secureCloseFile_spec h' fun _ _ h'' => .kept h''
  dsimp only
  split
  swap
  · exact wp_oops (.kept h₃.drop)
  split
  swap
  · exact hclose h₃
  split
  swap
  · exact hclose h₃
  refine wp_keeps (kiumdGetPgd_keeps h₃) ?_
  intro pgd w₄ h₄
  split
  · exact hclose h₄
  refine wp_acl h₄ ?_ ?_
  · intro ret w₅ h₅
    exact hclose h₅
  intro acl w₅ hgood h₅
  exact secureUnmapRelease_removes hgood hp (hshaped p hp) (hlive p hp) h₅

end SafeLinux.Kiumd
