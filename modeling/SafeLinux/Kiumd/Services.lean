import SafeLinux.Kiumd.Close
import SafeLinux.Kiumd.Creators

/-!
# Requests and closes of any number of files

An open file of the driver serves the requests on mappings, KIUMD_IOVA_MAP_CTRL and, last, its
close. Services of different files may follow each other in any order, and a close may leave entries
behind or kill its thread. Every service leaves the entries of the tables their memory and their
MMIO mappings (`kiumdService_keeps`), so that no two entries ever share memory
(`service_run_entries_apart`), and it changes no other file's context (`service_run_others_kept`).
-/

namespace SafeLinux.Kiumd

open Effects Ledgers
open Effects.Program (perform)

/-! ## The services -/

def KGSL_SMMU_GLOBALPT_FIXED_ADDR_SET : U32 := 0
def KGSL_SMMU_GLOBALPT_FIXED_ADDR_CLEAR : U32 := 1

/-- `struct kiumd_iova`. -/
structure KiumdIova where
  vfioFd : Int
  iovaFlag : U32
  iova : U64
  deriving DecidableEq, Inhabited

/-- `kiumd_iova_ctrl`, by what `copy_from_user` has copied. -/
def kiumdIovaCtrl (copied : Option KiumdIova) : KProg Int := do
  let some iovausr := copied | return -EFAULT
  let cookieType : IommuDmaCookieType :=
    if iovausr.iovaFlag = KGSL_SMMU_GLOBALPT_FIXED_ADDR_CLEAR then .iova else .msi
  let iovaUsr := if iovausr.iovaFlag = KGSL_SMMU_GLOBALPT_FIXED_ADDR_SET then iovausr.iova else 0
  let some vfioDev ← kiumdGetVfioDevice iovausr.vfioFd | return -EINVAL
  let some cookie ← kiumdGetDmaCookie (some vfioDev) | return -EINVAL
  kiumdSetDmaCookie (some cookie) cookieType iovaUsr

/-- What an open file may be asked for; a context stands for the file it belongs to. -/
inductive Service where
  | ioctl (i : Ioctl)
  | iovaMapCtrl (copied : Option KiumdIova)
  | close (c : Nat)
  deriving DecidableEq, Inhabited

/-- The context a service works on. -/
def Service.ctx : Service → Option Nat
  | .ioctl i => some i.ctx
  | .iovaMapCtrl _ => none
  | .close c => some c

/-- `kiumd_ioctl` and `kiumd_close` for these services. -/
def kiumdService : Service → KProg Int
  | .ioctl i => kiumdIoctl i
  | .iovaMapCtrl copied => kiumdIovaCtrl copied
  | .close c => kiumdClose (some c)

/-! ## One entry of a closed context -/

variable {w w' w'' : World} {c p : Nat} {d : DmaBuf} {a : Attachment} {r : Resource}

/-- Closing the context `c` has taken entries out of its table and changed no entry. -/
structure ClosedFrom (w : World) (c : Nat) (w' : World) : Prop where
  others : ∀ c' ≠ c, w'.ctxs c' = w.ctxs c'
  smaps : w'.smaps = w.smaps
  mmioCtxs : w'.mmioCtxs = w.mmioCtxs

theorem ClosedFrom.refl (w : World) (c : Nat) : ClosedFrom w c w := ⟨fun _ _ => rfl, rfl, rfl⟩

theorem ClosedFrom.trans (h : ClosedFrom w c w') (h' : ClosedFrom w' c w'') :
    ClosedFrom w c w'' where
  others c' hc := (h'.others c' hc).trans (h.others c' hc)
  smaps := h'.smaps.trans h.smaps
  mmioCtxs := h'.mmioCtxs.trans h.mmioCtxs

theorem ClosedFrom.release (h : ClosedFrom w c w') (r : Resource) :
    ClosedFrom w c (w'.release r) :=
  ⟨h.others, h.smaps, h.mmioCtxs⟩

theorem ClosedFrom.unlink (h : ClosedFrom w c w') (p : Nat) : ClosedFrom w c (w'.unlink c p) where
  others c' hc := by
    refine Eq.trans ?_ (h.others c' hc)
    simp [World.unlink, World.setCtx, hc]
  smaps := h.smaps
  mmioCtxs := h.mmioCtxs

/-- What one round of the loop of `kiumd_close` leaves: a backed state in which the entry is still
in the table or has been taken out. -/
structure RoundDone (w : World) (c p : Nat) (w' : World) : Prop extends ClosedFrom w c w' where
  backed : Backed noNeeds w' 0
  table : w'.table c = w.table c ∨ w'.table c = (w.table c).erase p

theorem RoundDone.skipped (h : Backed noNeeds w 0) : RoundDone w c p w :=
  { ClosedFrom.refl w c with backed := h, table := .inl rfl }

/-- The entry of a buffer is taken out after what it names has been released. -/
theorem RoundDone.buffer (h : Backed noNeeds w 0) (hp : p ∈ w.table c)
    (hbuffer : IsBuffer (w.smaps p) d a) {dev : Device} {t : SgTable} :
    RoundDone w c p ((((w.release (.mapping dev t)).release (.attachment a)).release
      (.dmabuf d)).delete c p) := by
  have h₁ : Backed noNeeds (w.release (.mapping dev t)) 0 :=
    h.release fun _ _ _ => mapping_notMem_noNeeds
  have h₂ : Backed noNeeds ((w.release (.mapping dev t)).release (.attachment a)) 0 :=
    h₁.release fun _ _ _ => attachment_notMem_noNeeds
  have h₃ := h₂.release (r := .dmabuf d) fun _ _ _ => dmabuf_notMem_noNeeds
  have hneeds : w.entryNeeds noNeeds p = .smap p ::ₘ noNeeds d a := hbuffer.entryNeeds_eq
  have hclosed : ClosedFrom w c (((w.release (.mapping dev t)).release (.attachment a)).release
      (.dmabuf d)) := (((ClosedFrom.refl w c).release _).release _).release _
  refine { (hclosed.unlink p).release (.smap p) with backed := ?_, table := .inr ?_ }
  · refine h₃.drop hp (World.table_unlink _ c p) rfl rfl (World.rest_unlink _ c p) (le_of_eq ?_)
    show _ - w.entryNeeds noNeeds p = _
    rw [hneeds]
    simp only [noNeeds, Multiset.sub_cons, Multiset.sub_zero]
    rfl
  · exact (congrFun (World.table_unlink _ c p) c).trans (Function.update_self _ _ _)

/-- The entry of an MMIO mapping is taken out with the mapping. -/
theorem RoundDone.mmio {m : Nat} (h : Backed noNeeds w 0) (hp : p ∈ w.table c)
    (hcontext : (w.smaps p).context = some m) :
    RoundDone w c p (((w.release (mmioNeeds (w.mmioCtxs m))).release (.mmioCtx m)).delete c p) := by
  have hclosed : ClosedFrom w c ((w.release (mmioNeeds (w.mmioCtxs m))).release (.mmioCtx m)) :=
    ((ClosedFrom.refl w c).release _).release _
  refine { (hclosed.unlink p).release (.smap p) with
    backed := h.removeMmio hp hcontext
    table := .inr ?_ }
  exact (congrFun (World.table_unlink _ c p) c).trans (Function.update_self _ _ _)

/-- The mapping of a buffer is gone although its entry stays. -/
theorem RoundDone.unmapped (h : Backed noNeeds w 0) {dev : Device} {t : SgTable} :
    RoundDone w c p (w.release (.mapping dev t)) :=
  { (ClosedFrom.refl w c).release (.mapping dev t) with
    backed := h.release fun _ _ _ => mapping_notMem_noNeeds
    table := .inl rfl }

theorem closeDetach_done {data : SmmuMapData} (hattach : data.dmabufattach = some a) :
    wp kernel .any (closeDetach c p data d) (fun _ _ w' =>
      w' = ((w.release (.attachment a)).release (.dmabuf d)).delete c p) w := by
  unfold closeDetach closeAttachment
  rw [hattach]
  refine wp_step fun _ w₁ hstep => ?_
  cases hstep
  refine wp_step fun _ w₂ hstep => ?_
  cases hstep
  refine wp_step fun _ w₃ hstep => ?_
  cases hstep
  refine wp_perform.mpr ⟨trivial, fun hempty => (hempty.false ()).elim, fun _ w₄ hstep => ?_⟩
  cases hstep
  rfl

/-- The rest of a round for a buffer that is unmapped. -/
theorem closeUnmap_done {dom : Domain} (h : Backed noNeeds w 0) (hp : p ∈ w.table c)
    (hbuffer : IsBuffer (w.smaps p) d a) :
    wp kernel .any (closeUnmap c p (w.smaps p) d dom) (fun _ _ w' => RoundDone w c p w') w := by
  have hdetach : wp kernel .any (closeDetach c p (w.smaps p) d) (fun _ _ w' => RoundDone w c p w')
      (w.release (.mapping a.dev a.table)) := by
    refine wp_mono (closeDetach_done hbuffer.attach) ?_
    rintro _ _ _ rfl
    exact .buffer h hp hbuffer
  unfold closeUnmap closeMapping
  rw [hbuffer.attach, hbuffer.sgt]
  refine wp_step fun _ w₁ hstep => ?_
  cases hstep
  split
  · refine wp_step fun size w₂ hstep => ?_
    cases hstep
    dsimp only
    split
    · exact wp_pure.mpr (.unmapped h)
    · exact hdetach
  · exact hdetach

/-- One round of the loop, which may also kill the thread. -/
theorem closeEntry_done (h : Backed noNeeds w 0) (hp : p ∈ w.table c) :
    wp kernel .any (closeEntry c p) (fun _ _ w' => RoundDone w c p w') w := by
  have hsmap : .smap p ∈ w.held := h.smap_mem hp
  unfold closeEntry
  refine wp_step fun data w₁ hstep => ?_
  obtain ⟨rfl, rfl⟩ : data = w.smaps p ∧ w₁ = w := by
    simp only [kernelStep] at hstep
    split at hstep <;> cases hstep
    rename_i hdata
    exact ⟨hdata hsmap, rfl⟩
  cases h.shaped c p hp with
  | mmio m hcontext hdmabuf _ =>
      have hm : .mmioCtx m ∈ w₁.held := h.mmioCtx_mem hp hcontext
      unfold closeMmio
      rw [hcontext, hdmabuf]
      refine wp_step fun mmio w₂ hstep => ?_
      obtain ⟨rfl, rfl⟩ : mmio = w₁.mmioCtxs m ∧ w₂ = w₁ := by
        simp only [kernelStep] at hstep
        split at hstep <;> cases hstep
        rename_i hmmio
        exact ⟨hmmio hm, rfl⟩
      refine wp_step fun _ w₃ hstep => ?_
      cases hstep
      refine wp_step fun _ w₄ hstep => ?_
      cases hstep
      refine wp_step fun _ w₅ hstep => ?_
      cases hstep
      refine wp_perform.mpr ⟨trivial, fun hempty => (hempty.false ()).elim, fun _ w₆ hstep => ?_⟩
      cases hstep
      exact .mmio h hp hcontext
  | buffer d a hbuffer =>
      have hskipped : RoundDone w₁ c p w₁ := .skipped h
      unfold closeMmio
      rw [hbuffer.context, hbuffer.dmabuf]
      cases hvfio : (w₁.smaps p).vfioDev with
      | none => exact wp_oops hskipped
      | some v =>
      dsimp only
      rw [hbuffer.device v hvfio]
      refine wp_step fun domain w₂ hstep => ?_
      cases domain with
      | none =>
          cases hstep
          exact wp_pure.mpr hskipped
      | some domain =>
          obtain rfl : w₂ = w₁ := by
            simp only [kernelStep] at hstep
            split at hstep <;> cases hstep
            rfl
          dsimp only
          split
          · exact wp_pure.mpr hskipped
          · exact closeUnmap_done h hp hbuffer

/-! ## The whole close -/

/-- The loop over entries that are all in the table. -/
theorem closeEntries_keeps {entries : List Nat} (h : Backed noNeeds w 0)
    (hentries : entries.Subperm (w.table c)) :
    wp kernel .any (closeEntries c entries)
      (fun _ _ w' => Backed noNeeds w' 0 ∧ ClosedFrom w c w') w := by
  induction entries generalizing w with
  | nil => exact wp_pure.mpr ⟨h, .refl w c⟩
  | cons p rest ih =>
      have hp : p ∈ w.table c := hentries.subset List.mem_cons_self
      refine wp_bind.mpr (wp_mono (closeEntry_done h hp) ?_)
      intro _ result w₁ hround
      cases result with
      | none => exact ⟨hround.backed, hround.toClosedFrom⟩
      | some value =>
          -- whether or not the round took its own entry out, the others are still there
          have hrest : rest.Subperm (w₁.table c) := by
            rcases hround.table with htable | htable
            · rw [htable]
              exact (List.sublist_cons_self p rest).subperm.trans hentries
            · rw [htable]
              simpa using hentries.erase p
          refine wp_mono (ih hround.backed hrest) ?_
          rintro _ _ w₂ ⟨hbacked, hclosed⟩
          exact ⟨hbacked, hround.toClosedFrom.trans hclosed⟩

/-- A context without reserved regions and buffer handles is freed. -/
theorem closeRest_keeps (h : Backed noNeeds w 0) :
    wp kernel .any (closeRest c) (fun _ _ w' => Backed noNeeds w' 0 ∧ ClosedFrom w c w') w := by
  unfold closeRest
  refine wp_step fun kictx w₁ hstep => ?_
  obtain ⟨rfl, rfl⟩ : kictx = w.ctxs c ∧ w₁ = w := by
    simp only [kernelStep] at hstep
    split at hstep <;> cases hstep
    exact ⟨‹_›, rfl⟩
  obtain ⟨hresMem, hxa⟩ := Prod.mk.inj (h.rest_nil c)
  rw [hresMem, hxa]
  refine wp_step fun _ w₂ hstep => ?_
  cases hstep
  refine wp_pure.mpr ⟨h.release fun c' q hq hneeds => ?_, (ClosedFrom.refl w₁ c).release _⟩
  obtain hr | ⟨m, _, hr | hr⟩ := mem_noNeeds hneeds <;> cases hr

/-- Closing a context leaves the entries that remain their memory and their MMIO mappings. -/
theorem kiumdClose_keeps (h : Backed noNeeds w 0) :
    wp kernel .any (kiumdClose (some c))
      (fun _ _ w' => Backed noNeeds w' 0 ∧ ClosedFrom w c w') w := by
  unfold kiumdClose
  refine wp_step fun entries w₁ hstep => ?_
  obtain ⟨hperm, rfl⟩ : entries.Perm (w.table c) ∧ w₁ = w := by
    simp only [kernelStep] at hstep
    split at hstep <;> cases hstep
    exact ⟨‹_›, rfl⟩
  refine wp_bind.mpr (wp_mono (closeEntries_keeps h hperm.subperm) ?_)
  rintro _ result w₂ ⟨hbacked, hclosed⟩
  cases result with
  | none => exact ⟨hbacked, hclosed⟩
  | some value =>
      refine wp_mono (closeRest_keeps hbacked) ?_
      rintro _ _ w₃ ⟨hbacked', hclosed'⟩
      exact ⟨hbacked', hclosed.trans hclosed'⟩

/-! ## Every service -/

theorem kiumdIovaCtrl_keeps {copied : Option KiumdIova} :
    wp kernel .any (kiumdIovaCtrl copied) (Keeps w 0) w := by
  cases copied with
  | none => exact wp_pure.mpr ⟨rfl, .refl w⟩
  | some iovausr =>
      unfold kiumdIovaCtrl
      refine wp_keeps (kiumdGetVfioDevice_keeps (.refl w)) ?_
      intro vfioDev w₁ h₁
      cases vfioDev with
      | none => exact wp_pure.mpr ⟨rfl, h₁⟩
      | some vfioDev =>
          refine wp_keeps (kiumdGetDmaCookie_keeps h₁) ?_
          intro cookie w₂ h₂
          cases cookie with
          | none => exact wp_pure.mpr ⟨rfl, h₂⟩
          | some cookie => exact kiumdSetDmaCookie_keeps h₂

/-- Every service leaves the entries their memory and their MMIO mappings. -/
theorem kiumdService_keeps (s : Service) (h : Backed noNeeds w 0) :
    wp kernel .any (kiumdService s) (fun _ _ w' => Backed noNeeds w' 0) w := by
  cases s with
  | ioctl i => exact kiumdIoctl_keeps i h
  | iovaMapCtrl copied =>
      exact wp_mono kiumdIovaCtrl_keeps fun _ _ _ hkeeps =>
        h.frame hkeeps.2 (by simp) (by simp)
  | close c => exact wp_mono (kiumdClose_keeps h) fun _ _ _ hclose => hclose.1

/-- The contexts of other files, and their entries, are as they were. -/
structure OthersKept (w : World) (c : Option Nat) (w' : World) : Prop where
  ctxs : ∀ c', some c' ≠ c → w'.ctxs c' = w.ctxs c'
  entries : ∀ c', some c' ≠ c → ∀ p ∈ w.table c', SameEntry w w' p

section Outcomes

variable {c' : Nat} {kind : SmmuMapData → Attachment → Prop} {late : List (Event KCall) → Prop}
  {trace : List (Event KCall)}

theorem AddOutcome.ctxs_of_ne (h : AddOutcome w c kind trace w') (hc : c' ≠ c) :
    w'.ctxs c' = w.ctxs c' := by
  cases h with
  | refused frame => rw [frame.ctxs]
  | published p d a data _ _ _ frame | stale p d a data _ _ _ _ frame =>
      rw [frame.ctxs]
      exact Function.update_of_ne hc _ _

theorem RemoveOutcome.ctxs_of_ne (h : RemoveOutcome w c late trace w') (hc : c' ≠ c) :
    w'.ctxs c' = w.ctxs c' := by
  cases h with
  | kept frame => rw [frame.ctxs]
  | half p d a dev t _ _ _ frame =>
      rw [frame.ctxs]
      rfl
  | removed p d a dev t _ _ frame =>
      rw [frame.ctxs]
      exact Function.update_of_ne hc _ _

theorem AddMmioOutcome.ctxs_of_ne (h : AddMmioOutcome w c w') (hc : c' ≠ c) :
    w'.ctxs c' = w.ctxs c' := by
  cases h with
  | refused frame => rw [frame.ctxs]
  | retracted frame | published p m mmio _ _ frame =>
      rw [frame.ctxs]
      exact Function.update_of_ne hc _ _

theorem RemoveMmioOutcome.ctxs_of_ne (h : RemoveMmioOutcome w c w') (hc : c' ≠ c) :
    w'.ctxs c' = w.ctxs c' := by
  cases h with
  | kept frame => rw [frame.ctxs]
  | removed p m _ _ frame =>
      rw [frame.ctxs]
      exact Function.update_of_ne hc _ _

end Outcomes

theorem kiumdIoctl_ctxs_of_ne {i : Ioctl} {c' : Nat} (h : Backed noNeeds w 0) (hc : c' ≠ i.ctx) :
    wp kernel .any (kiumdIoctl i) (fun _ _ w' => w'.ctxs c' = w.ctxs c') w := by
  obtain ⟨c, request⟩ := i
  have hlive : ∀ p ∈ (w.ctxs c).smmuTable, .smap p ∈ w.held := fun p hp => h.smap_mem hp
  cases request with
  | mapBuf => exact wp_mono kiumdDmabufVfioMap_adds fun _ _ _ hout => hout.ctxs_of_ne hc
  | unmapBuf =>
      exact wp_mono (kiumdDmabufVfioUnmap_removes hlive) fun _ _ _ hout => hout.ctxs_of_ne hc
  | secureMap => exact wp_mono kiumdDmabufVfioSecureMap_adds fun _ _ _ hout => hout.ctxs_of_ne hc
  | secureUnmap =>
      exact wp_mono (kiumdDmabufVfioSecureUnmap_removes hlive (h.shaped c)) fun _ _ _ hout =>
        hout.ctxs_of_ne hc
  | mmioMap => exact wp_mono kiumdMmioSmmuMap_adds fun _ _ _ hout => hout.ctxs_of_ne hc
  | mmioUnmap =>
      exact wp_mono (kiumdMmioSmmuUnmap_removes hlive fun p hp m hm => h.mmioCtx_mem hp hm)
        fun _ _ _ hout => hout.ctxs_of_ne hc

/-- A service changes the context it works on only. -/
theorem kiumdService_othersKept (s : Service) (h : Backed noNeeds w 0) :
    wp kernel .any (kiumdService s) (fun _ _ w' => OthersKept w s.ctx w') w := by
  refine ⟨fun _ _ _ _ _ => trivial, fun trace result w' hexec => ?_⟩
  cases s with
  | ioctl i =>
      have hctxs : ∀ c', some c' ≠ some i.ctx → w'.ctxs c' = w.ctxs c' := fun c' hc =>
        wp_exec (kiumdIoctl_ctxs_of_ne h fun heq => hc (congrArg some heq)) hexec
      refine ⟨hctxs, fun c' hc p hp => ?_⟩
      have hp' : p ∈ w'.table c' := by rwa [World.table, hctxs c' hc]
      exact ((kiumdIoctl_entriesKept h hexec c' p hp').resolve_right
        (not_not.mpr (h.smap_mem hp))).2
  | iovaMapCtrl copied =>
      obtain ⟨_, hframe⟩ := wp_exec kiumdIovaCtrl_keeps hexec
      refine ⟨fun c' _ => by rw [hframe.ctxs], fun c' _ p hp => ?_⟩
      exact ⟨hframe.smaps p (h.smap_mem hp), fun m hm => hframe.mmioCtxs m (h.mmioCtx_mem hp hm)⟩
  | close c =>
      obtain ⟨_, hclosed⟩ := wp_exec (kiumdClose_keeps h) hexec
      refine ⟨fun c' hc => hclosed.others c' fun heq => hc (congrArg some heq), fun c' _ p _ => ?_⟩
      exact ⟨congrFun hclosed.smaps p, fun m _ => congrFun hclosed.mmioCtxs m⟩

/-! ## Memory is allocated once -/

/-- Memory the driver allocates for an entry or an MMIO mapping. -/
def Resource.isMemory : Resource → Bool
  | .smap _ | .mmioCtx _ => true
  | _ => false

/-- No memory is allocated twice. -/
def LoneMemory (w : World) : Prop := ∀ r, r.isMemory = true → w.held.count r ≤ 1

variable {β : Type} {request : KCall β} {answer : β}

/-- Memory is allocated where none is. -/
theorem taken_memory (hstep : kernelStep request w answer = some w') (hr : r.isMemory = true)
    (htaken : request.taken answer = some r) : r ∉ w.held := by
  cases request with
  | kzallocSmap | kzallocMmioCtx =>
      cases answer <;> cases htaken
      simp only [kernelStep] at hstep
      split at hstep <;> cases hstep
      assumption
  | dmaMapSgtable | dmaMapResource =>
      simp only [KCall.taken] at htaken
      split at htaken <;> cases htaken
      cases hr
  | strndupUser | kmallocArray | fget | dmaBufGet | dmaBufAttach | dmaBufMapAttachment
  | ofParsePhandle | kcallocResMem =>
      cases answer <;> cases htaken
      cases hr
  | _ => cases htaken

theorem loneMemory_step (hstep : kernelStep request w answer = some w') (h : LoneMemory w) :
    LoneMemory w' := by
  intro r hr
  have hle : ∀ r', (w.held.erase r').count r ≤ w.held.count r := fun r' =>
    Multiset.count_le_of_le r (Multiset.erase_le r' w.held)
  have hlone := h r hr
  cases held_cases hstep with
  | same _ _ hheld => rwa [hheld]
  | @taken r' htaken _ hheld =>
      rw [hheld, Multiset.count_cons]
      split
      · rename_i heq
        subst heq
        have hfresh := Multiset.count_eq_zero_of_notMem (taken_memory hstep hr htaken)
        omega
      · omega
  | @given r' _ _ hheld =>
      rw [hheld]
      exact (hle r').trans hlone
  | @deleted p _ hheld =>
      rcases hheld with hheld | ⟨m, hheld⟩
      · rw [hheld]
        exact (hle _).trans hlone
      · rw [hheld]
        exact (Multiset.count_le_of_le r (Multiset.erase_le _ _)).trans ((hle _).trans hlone)

/-! ## Runs -/

variable {w₀ : World} {history : History Service KCall} {ok : Admission Service KCall World}

theorem service_run_backed (hstart : w₀.Fresh) (h : Run kernel kiumdService ok w₀ history w) :
    Backed noNeeds w 0 := by
  refine h.invariant (fun _ w => Backed noNeeds w 0) hstart.backed ?_
  intro history s w hbacked
  exact wp_mono (kiumdService_keeps s hbacked) fun _ _ _ h' _ => h'

theorem service_run_loneMemory (hstart : LoneMemory w₀)
    (h : Run kernel kiumdService ok w₀ history w) : LoneMemory w := by
  refine h.invariant (fun _ w => LoneMemory w) hstart ?_
  intro history s w hlone
  exact wp_mono (wp_keep (fun _ _ _ _ hstep => loneMemory_step hstep) hlone) fun _ _ _ h' _ => h'

/-- The number of entries of some contexts that record the MMIO mapping `r`. -/
def World.recorded (w : World) (C : Finset Nat) (r : Resource) : Nat :=
  ∑ c ∈ C, ((w.table c).map fun p =>
    if (w.smaps p).context.any (fun m => mmioNeeds (w.mmioCtxs m) = r) then 1 else 0).sum

/-- The entries of all tables are separate: each has its own memory, an MMIO mapping its own
context, and the driver holds as many MMIO mappings as entries record. -/
structure EntriesApart (w : World) : Prop where
  nodup : ∀ c, (w.table c).Nodup
  disjoint : ∀ c c', c ≠ c' → (w.table c).Disjoint (w.table c')
  memory : ∀ c, ∀ p ∈ w.table c, .smap p ∈ w.held
  mmioCtx : ∀ c, ∀ p ∈ w.table c, ∀ m, (w.smaps p).context = some m → .mmioCtx m ∈ w.held ∧
    ∀ c', ∀ p' ∈ w.table c', (w.smaps p').context = some m → c' = c ∧ p' = p
  mappings : ∀ C r, w.recorded C r ≤ w.held.count r

theorem Backed.recorded_le (h : Backed noNeeds w 0) (C : Finset Nat) (r : Resource) :
    w.recorded C r ≤ w.held.count r := by
  have hcovers := Multiset.count_le_of_le r (h.covers C)
  rw [add_zero, count_demand] at hcovers
  refine le_trans (Finset.sum_le_sum fun c _ => List.sum_le_sum fun p _ => ?_) hcovers
  split
  · rename_i hrecords
    -- an entry that records the mapping needs it
    cases hcontext : (w.smaps p).context with
    | none => simp [hcontext] at hrecords
    | some m =>
        rw [hcontext] at hrecords
        rw [entryNeeds_mmio hcontext, ← of_decide_eq_true hrecords]
        exact Multiset.one_le_count_iff_mem.mpr (by simp)
  · exact Nat.zero_le _

theorem Backed.entriesApart (h : Backed noNeeds w 0) (hlone : LoneMemory w) : EntriesApart w := by
  have hcovers : Covers w.table (w.entryNeeds noNeeds) w.held := by simpa using h.covers
  have hsmap : ∀ p, w.held.count (.smap p) ≤ 1 := fun p => hlone (.smap p) rfl
  refine ⟨fun c => hcovers.nodup fun p _ => ⟨_, smap_mem_entryNeeds w p, hsmap p⟩, ?_,
    fun c p hp => h.smap_mem hp, ?_, h.recorded_le⟩
  · intro c c' hne p hp hp'
    have heq := hcovers.eq_of_needed (hsmap p) hp hp' (smap_mem_entryNeeds w p)
      (smap_mem_entryNeeds w p)
    exact hne heq.1.symm
  · intro c p hp m hm
    have hneeds : ∀ q, (w.smaps q).context = some m → .mmioCtx m ∈ w.entryNeeds noNeeds q := by
      intro q hq
      simp [entryNeeds_mmio hq]
    refine ⟨h.mmioCtx_mem hp hm, fun c' p' hp' hm' => ?_⟩
    exact hcovers.eq_of_needed (hlone (.mmioCtx m) rfl) hp hp' (hneeds p hm) (hneeds p' hm')

/-- In every state that requests and closes of any number of files lead to, whatever fails and
whichever threads are killed, the entries of all tables are separate. -/
theorem service_run_entries_apart (hstart : w₀.Fresh) (hlone : LoneMemory w₀)
    (h : Run kernel kiumdService ok w₀ history w) : EntriesApart w :=
  (service_run_backed hstart h).entriesApart (service_run_loneMemory hlone h)

theorem loneMemory_initial : LoneMemory .initial := fun _ _ => Nat.zero_le _

/-- Two files have mapped a buffer each and the first is closed. -/
def twoFiles : List Service :=
  [.ioctl ⟨0, .mapBuf plainUser⟩, .ioctl ⟨1, .mapBuf plainUser⟩, .close 0]

/-- The entry of the second file is left. -/
theorem service_run_entries_apart_close : ∃ history w,
    Run kernel kiumdService .any .initial history w ∧ w.table 0 = [] ∧ w.table 1 ≠ [] ∧
      EntriesApart w := by
  have hcheck : Run.check kernel kiumdService (Answers.plain fun _ _ => false).choose twoFiles
      .initial (fun _ w => decide (w.table 0 = []) && decide (w.table 1 ≠ [])) = true := by
    decide +kernel
  obtain ⟨history, w, hrun, htest⟩ := Run.check_run hcheck
  simp only [Bool.and_eq_true, decide_eq_true_eq] at htest
  exact ⟨history, w, hrun, htest.1, htest.2,
    service_run_entries_apart fresh_initial loneMemory_initial hrun⟩

/-- In every such state a service leaves the contexts of the other files, and what their entries
say, as they were. -/
theorem service_run_others_kept (hstart : w₀.Fresh) (h : Run kernel kiumdService ok w₀ history w)
    (s : Service) : wp kernel .any (kiumdService s) (fun _ _ w' => OthersKept w s.ctx w') w :=
  kiumdService_othersKept s (service_run_backed hstart h)

/-- A file with a mapped buffer while another one is closed. -/
theorem service_run_others_kept_close : ∃ w, w.table 1 ≠ [] ∧
    wp kernel .any (kiumdService (.close 0)) (fun _ _ w' => OthersKept w (some 0) w') w := by
  have hcheck : Run.check kernel kiumdService (Answers.plain fun _ _ => false).choose
      [.ioctl ⟨0, .mapBuf plainUser⟩, .ioctl ⟨1, .mapBuf plainUser⟩] .initial
      (fun _ w => decide (w.table 1 ≠ [])) = true := by
    decide +kernel
  obtain ⟨history, w, hrun, htest⟩ := Run.check_run hcheck
  exact ⟨w, of_decide_eq_true htest, service_run_others_kept fresh_initial hrun (.close 0)⟩

end SafeLinux.Kiumd
