import SafeLinux.Kiumd.Close
import SafeLinux.Kiumd.Validity

/-!
# What closing a context releases

`kiumdClose_releases` says of a context whose entries are intact and of a kind `kiumd_close` can
handle: no invalid pointer is dereferenced, and unless a domain is missing or the unmapping at IOVA
zero fails, the table is empty in the end and the calls have released exactly what the entries
name, each thing once.
-/

namespace SafeLinux.Kiumd

open Effects
open Effects.Program (perform)

/-! ## What is released -/

/-- Something released when a context is closed: a resource, or the mapping of a buffer in an IOMMU
domain besides its DMA mapping. -/
inductive Released where
  | resource (r : Resource)
  | iova (dom : Domain) (start size : U64)
  deriving DecidableEq

/-- What a call releases. -/
def KCall.released : {β : Type} → KCall β → Option Released
  | _, .iommuUnmap dom start size => some (.iova dom start size)
  | _, request => request.given.map .resource

/-- Everything that some calls have released. -/
def releasedBy (trace : List (Event KCall)) : Multiset Released :=
  trace.filterMap fun e => e.call.released

/-- The mapping at IOVA zero of an entry. -/
def SmmuMapData.zeroMapping (data : SmmuMapData) : Multiset Released :=
  match data.dmabufPtr, data.vfioDev.bind VfioDevice.dev with
  | some d, some dev =>
      if data.isIovaZero = FIXED_IOVA_AT_ZERO then {.iova dev.domain 0 d.size} else 0
  | _, _ => 0

/-- What the entry `p` names: its memory, its buffer or MMIO mapping, and its mapping at IOVA
zero. -/
def World.entryReleases (w : World) (p : Nat) : Multiset Released :=
  (w.entryNeeds bufferNeeds p).map .resource + (w.smaps p).zeroMapping

/-- An entry `kiumd_close` does not skip and whose device it can look up: an MMIO mapping, or a
buffer with a device that is in no KGSL page table. -/
def Closable (data : SmmuMapData) : Prop :=
  data.dmabufPtr.isSome → data.vfioDev.isSome ∧
    ¬ (IsKgsl data.ptselect ∨ data.ptselect = KGSL_DEFAULT_PT)

/-- The answers after which `kiumd_close` skips an entry: there is no domain, or the number of
bytes unmapped, stored in an `int`, differs from the size of the buffer. -/
def KCall.closeFails : {β : Type} → KCall β → β → Bool
  | _, .iommuGetDmaDomain _, dom => dom.isNone
  | _, .iommuUnmap _ _ size, unmapped => (unmapped.setWidth 32).signExtend 64 != size
  | _, _, _ => false

/-- `kiumd_close` has skipped an entry because of an answer. -/
def CloseFailed (trace : List (Event KCall)) : Prop :=
  ∃ e ∈ trace, e.call.closeFails e.answer = true

instance (data : SmmuMapData) : Decidable (Closable data) :=
  inferInstanceAs (Decidable (_ → _))

theorem releasedBy_append (trace trace' : List (Event KCall)) :
    releasedBy (trace ++ trace') = releasedBy trace + releasedBy trace' := by
  simp [releasedBy, List.filterMap_append]

theorem CloseFailed.append_left {trace : List (Event KCall)} (h : CloseFailed trace)
    (trace' : List (Event KCall)) : CloseFailed (trace ++ trace') := by
  obtain ⟨e, he, hfails⟩ := h
  exact ⟨e, List.mem_append_left _ he, hfails⟩

theorem CloseFailed.append_right {trace' : List (Event KCall)} (h : CloseFailed trace')
    (trace : List (Event KCall)) : CloseFailed (trace ++ trace') := by
  obtain ⟨e, he, hfails⟩ := h
  exact ⟨e, List.mem_append_right _ he, hfails⟩

/-! ## The state while a context is being closed -/

variable {w₀ w : World} {c p : Nat} {x y : Multiset Resource} {r : Resource} {T T' : List Nat}
  {R R' : Multiset Released} {d : DmaBuf} {a : Attachment}

/-- The entries are as in `w₀`, the table of the context `c` is `T`, and `x` is held. -/
structure Closing (w₀ : World) (c : Nat) (T : List Nat) (x : Multiset Resource) (w : World) :
    Prop where
  smaps : w.smaps = w₀.smaps
  mmioCtxs : w.mmioCtxs = w₀.mmioCtxs
  rest : w.rest = w₀.rest
  table : w.table c = T
  held : x ≤ w.held

/-- The postcondition of code that releases `R`, leaves the table `T` and does not touch `x`,
unless it skips something. -/
def Closes (w₀ : World) (c : Nat) (R : Multiset Released) (T : List Nat) (x : Multiset Resource) :
    Post KCall World Unit := fun trace result w =>
  result = some () ∧ ∃ T', Closing w₀ c T' x w ∧
    (CloseFailed trace ∨ (releasedBy trace = R ∧ T' = T))

theorem Closing.weaken (h : Closing w₀ c T x w) (hle : y ≤ x) : Closing w₀ c T y w :=
  { h with held := hle.trans h.held }

theorem Closing.give (h : Closing w₀ c T (r ::ₘ x) w) : Closing w₀ c T x (w.release r) where
  smaps := h.smaps
  mmioCtxs := h.mmioCtxs
  rest := h.rest
  table := h.table
  held := by simpa using Multiset.erase_le_erase r h.held

theorem Closing.quiet {β : Type} {request : KCall β} {answer : β} {w' : World}
    (h : Closing w₀ c T x w) (hquiet : request.quiet = true)
    (hstep : kernelStep request w answer = some w') : Closing w₀ c T x w' := by
  obtain ⟨hctxs, hsmaps, hmmio, hheld⟩ := quiet_step hquiet hstep
  refine ⟨hsmaps.trans h.smaps, hmmio.trans h.mmioCtxs, ?_, ?_, ?_⟩
  · funext c'
    rw [World.rest, hctxs]
    exact congrFun h.rest c'
  · rw [World.table, hctxs]
    exact h.table
  · rw [hheld]
    exact h.held

/-- Code that ends without a call. -/
theorem closes_pure (h : Closing w₀ c T x w) :
    wp kernel .returns (pure ()) (Closes w₀ c 0 T x) w :=
  wp_pure.mpr ⟨rfl, T, h, .inr ⟨rfl, rfl⟩⟩

/-- The rule for a sequence. -/
theorem closes_bind {prog : KProg Unit} {rest : Unit → KProg Unit} (f : List Nat → List Nat)
    (h : wp kernel .returns prog (Closes w₀ c R T x) w)
    (hrest : ∀ T w', Closing w₀ c T x w' →
      wp kernel .returns (rest ()) (Closes w₀ c R' (f T) y) w') :
    wp kernel .returns (prog >>= rest) (Closes w₀ c (R + R') (f T) y) w := by
  rw [wp_bind]
  refine wp_mono h ?_
  rintro past _ w₁ ⟨rfl, T₁, h₁, hpast⟩
  rw [Post.andThen_some]
  refine wp_mono (hrest T₁ w₁ h₁) ?_
  rintro trace _ w₂ ⟨rfl, T₂, h₂, htrace⟩
  refine ⟨rfl, T₂, h₂, ?_⟩
  rcases hpast with hfailed | ⟨rfl, rfl⟩
  · exact .inl (hfailed.append_left trace)
  rcases htrace with hfailed | ⟨rfl, rfl⟩
  · exact .inl (hfailed.append_right past)
  · exact .inr ⟨releasedBy_append past trace, rfl⟩

/-- The rule for a call that releases nothing. -/
theorem closes_call {β : Type} [Nonempty β] {request : KCall β} {rest : β → KProg Unit}
    (hreleased : request.released = none)
    (hnext : ∀ answer w', kernelStep request w answer = some w' →
      wp kernel .returns (rest answer) (Closes w₀ c R T x) w') :
    wp kernel .returns (perform request >>= rest) (Closes w₀ c R T x) w := by
  rw [wp_perform_bind]
  refine ⟨‹_›, fun hempty => (not_isEmpty_of_nonempty β hempty).elim, ?_⟩
  intro answer w' hstep
  refine wp_mono (hnext answer w' hstep) ?_
  rintro trace _ w'' ⟨rfl, T', h', htrace⟩
  refine ⟨rfl, T', h', ?_⟩
  rcases htrace with hfailed | ⟨rfl, rfl⟩
  · exact .inl (hfailed.append_right _)
  · refine .inr ⟨?_, rfl⟩
    rw [releasedBy_append]
    simp [releasedBy, hreleased]

/-- The rule for a call that gives something back. -/
theorem closes_give {request : KCall Unit} {rest : Unit → KProg Unit}
    (h : Closing w₀ c T (r ::ₘ x) w) (hgiven : request.given = some r)
    (hreleased : request.released = some (.resource r))
    (hnext : ∀ w', Closing w₀ c T x w' →
      wp kernel .returns (rest ()) (Closes w₀ c R T' y) w') :
    wp kernel .returns (perform request >>= rest) (Closes w₀ c (.resource r ::ₘ R) T' y) w := by
  rw [wp_perform_bind]
  refine ⟨⟨()⟩, fun hempty => (hempty.false ()).elim, ?_⟩
  rintro ⟨⟩ w' hstep
  obtain rfl := given_step hgiven hstep
  refine wp_mono (hnext _ h.give) ?_
  rintro trace _ w'' ⟨rfl, T', h', htrace⟩
  refine ⟨rfl, T', h', ?_⟩
  rcases htrace with hfailed | ⟨rfl, rfl⟩
  · exact .inl (hfailed.append_right _)
  · refine .inr ⟨?_, rfl⟩
    rw [releasedBy_append]
    simp [releasedBy, hreleased]

/-! ## The loop over the table -/

theorem closes_hashDel {rest : Unit → KProg Unit} (h : Closing w₀ c T x w)
    (hnext : ∀ w', Closing w₀ c (T.erase p) x w' →
      wp kernel .returns (rest ()) (Closes w₀ c R T' y) w') :
    wp kernel .returns (perform (.hashDel c p) >>= rest) (Closes w₀ c R T' y) w := by
  refine closes_call rfl ?_
  rintro ⟨⟩ w' hstep
  cases hstep
  refine hnext _ ⟨h.smaps, h.mmioCtxs, ?_, ?_, h.held⟩
  · exact (w.rest_unlink c p).trans h.rest
  · exact (congrFun (w.table_unlink c p) c).trans (by rw [Function.update_self, h.table])

theorem closes_readSmap {rest : SmmuMapData → KProg Unit} (h : Closing w₀ c T x w)
    (hp : .smap p ∈ x)
    (hnext : wp kernel .returns (rest (w₀.smaps p)) (Closes w₀ c R T' y) w) :
    wp kernel .returns (perform (.readSmap p) >>= rest) (Closes w₀ c R T' y) w := by
  refine closes_call rfl ?_
  intro data w' hstep
  simp only [kernelStep] at hstep
  split at hstep
  · rename_i hdata
    cases hstep
    rw [hdata (Multiset.mem_of_le h.held hp), h.smaps]
    exact hnext
  · cases hstep

theorem closes_readMmioCtx {m : Nat} {rest : KiumdSmmuMmioCtx → KProg Unit}
    (h : Closing w₀ c T x w) (hm : .mmioCtx m ∈ x)
    (hnext : wp kernel .returns (rest (w₀.mmioCtxs m)) (Closes w₀ c R T' y) w) :
    wp kernel .returns (perform (.readMmioCtx m) >>= rest) (Closes w₀ c R T' y) w := by
  refine closes_call rfl ?_
  intro mmio w' hstep
  simp only [kernelStep] at hstep
  split at hstep
  · rename_i hmmio
    cases hstep
    rw [hmmio (Multiset.mem_of_le h.held hm), h.mmioCtxs]
    exact hnext
  · cases hstep

theorem closeDelete_closes (h : Closing w₀ c T (.smap p ::ₘ x) w) :
    wp kernel .returns (closeDelete c p) (Closes w₀ c {.resource (.smap p)} (T.erase p) x) w := by
  refine closes_hashDel h ?_
  intro w₁ h₁
  exact closes_give h₁ rfl rfl fun w₂ h₂ => closes_pure h₂

theorem closeDetach_closes {data : SmmuMapData} (hattach : data.dmabufattach = some a)
    (h : Closing w₀ c T (.attachment a ::ₘ .dmabuf d ::ₘ .smap p ::ₘ x) w) :
    wp kernel .returns (closeDetach c p data d)
      (Closes w₀ c (.resource (.attachment a) ::ₘ .resource (.dmabuf d) ::ₘ
        {.resource (.smap p)}) (T.erase p) x) w := by
  unfold closeDetach closeAttachment
  rw [hattach]
  refine closes_give h rfl rfl ?_
  intro w₁ h₁
  refine closes_give h₁ rfl rfl ?_
  intro w₂ h₂
  exact closeDelete_closes h₂

/-- The rule for the unmapping at IOVA zero: a wrong result makes the loop skip the entry. -/
theorem closes_iommuUnmap {dom : Domain} {size : U64} {rest : U64 → KProg Unit}
    (h : Closing w₀ c T y w) (hle : x ≤ y)
    (hfail : ∀ unmapped, (unmapped.setWidth 32).signExtend 64 ≠ size → rest unmapped = pure ())
    (hnext : ∀ unmapped w', (unmapped.setWidth 32).signExtend 64 = size → Closing w₀ c T y w' →
      wp kernel .returns (rest unmapped) (Closes w₀ c R T' x) w') :
    wp kernel .returns (perform (.iommuUnmap dom 0 size) >>= rest)
      (Closes w₀ c (.iova dom 0 size ::ₘ R) T' x) w := by
  rw [wp_perform_bind]
  refine ⟨⟨0⟩, fun hempty => (hempty.false 0).elim, ?_⟩
  intro unmapped w' hstep
  have hstep' : kernelStep (.iommuUnmap dom 0 size) w unmapped = some w' := hstep
  have h' := h.quiet rfl hstep'
  by_cases hsize : (unmapped.setWidth 32).signExtend 64 = size
  · refine wp_mono (hnext unmapped w' hsize h') ?_
    rintro trace _ w'' ⟨rfl, T'', h'', htrace⟩
    refine ⟨rfl, T'', h'', ?_⟩
    rcases htrace with hfailed | ⟨rfl, rfl⟩
    · exact .inl (hfailed.append_right _)
    · exact .inr ⟨releasedBy_append _ _, rfl⟩
  · rw [hfail unmapped hsize]
    exact wp_pure.mpr ⟨rfl, T, h'.weaken hle, .inl ⟨_, List.mem_cons_self, bne_iff_ne.mpr hsize⟩⟩

theorem closeUnmap_closes {data : SmmuMapData} {dev : Device} (hbuffer : IsBuffer data d a)
    (hdevice : data.vfioDev.bind VfioDevice.dev = some dev)
    (h : Closing w₀ c T (.smap p ::ₘ bufferNeeds d a + x) w) :
    wp kernel .returns (closeUnmap c p data d dev.domain)
      (Closes w₀ c ((.smap p ::ₘ bufferNeeds d a).map .resource + data.zeroMapping) (T.erase p) x)
      w := by
  have h₀ : Closing w₀ c T (.mapping a.dev a.table ::ₘ .attachment a ::ₘ .dmabuf d ::ₘ
      .smap p ::ₘ x) w := by
    refine h.weaken (le_of_eq ?_)
    simp only [bufferNeeds, ← Multiset.singleton_add]
    ac_rfl
  have hdetach : ∀ w', Closing w₀ c T (.attachment a ::ₘ .dmabuf d ::ₘ .smap p ::ₘ x) w' →
      wp kernel .returns (closeDetach c p data d) (Closes w₀ c (.resource (.attachment a) ::ₘ
        .resource (.dmabuf d) ::ₘ {.resource (.smap p)}) (T.erase p) x) w' :=
    fun w' h' => closeDetach_closes hbuffer.attach h'
  unfold closeUnmap closeMapping
  rw [hbuffer.attach, hbuffer.sgt]
  by_cases hzero : data.isIovaZero = FIXED_IOVA_AT_ZERO
  · have hreleases : (.smap p ::ₘ bufferNeeds d a).map .resource + data.zeroMapping =
        .resource (.mapping a.dev a.table) ::ₘ .iova dev.domain 0 d.size ::ₘ
          .resource (.attachment a) ::ₘ .resource (.dmabuf d) ::ₘ {.resource (.smap p)} := by
      simp only [SmmuMapData.zeroMapping, hbuffer.dmabuf, hdevice, if_pos hzero, bufferNeeds,
        Multiset.map_add, Multiset.map_singleton, Multiset.map_zero, ← Multiset.singleton_add]
      ac_rfl
    rw [hreleases]
    refine closes_give h₀ rfl rfl ?_
    intro w₁ h₁
    rw [if_pos hzero]
    refine closes_iommuUnmap h₁ ?_ ?_ ?_
    · simp only [← Multiset.singleton_add, ← add_assoc]
      exact Multiset.le_add_left _ _
    · intro unmapped hsize
      exact if_pos hsize
    · intro unmapped w₂ hsize h₂
      dsimp only
      rw [if_neg (not_not.mpr hsize)]
      exact hdetach w₂ h₂
  · have hreleases : (.smap p ::ₘ bufferNeeds d a).map .resource + data.zeroMapping =
        .resource (.mapping a.dev a.table) ::ₘ .resource (.attachment a) ::ₘ
          .resource (.dmabuf d) ::ₘ {.resource (.smap p)} := by
      simp only [SmmuMapData.zeroMapping, hbuffer.dmabuf, hdevice, if_neg hzero, bufferNeeds,
        Multiset.map_add, Multiset.map_singleton, Multiset.map_zero, ← Multiset.singleton_add]
      ac_rfl
    rw [hreleases]
    refine closes_give h₀ rfl rfl ?_
    intro w₁ h₁
    rw [if_neg hzero]
    exact hdetach w₁ h₁

theorem closeMmio_closes {data : SmmuMapData} {m : Nat} (hcontext : data.context = some m)
    (h : Closing w₀ c T (.mmioCtx m ::ₘ mmioNeeds (w₀.mmioCtxs m) ::ₘ x) w) :
    wp kernel .returns (closeMmio data) (Closes w₀ c
      (.resource (mmioNeeds (w₀.mmioCtxs m)) ::ₘ {.resource (.mmioCtx m)}) T x) w := by
  have h₀ : Closing w₀ c T (mmioNeeds (w₀.mmioCtxs m) ::ₘ .mmioCtx m ::ₘ x) w := by
    rwa [Multiset.cons_swap]
  unfold closeMmio
  rw [hcontext]
  refine closes_readMmioCtx h₀ (by simp) ?_
  refine closes_give h₀ rfl rfl ?_
  intro w₁ h₁
  exact closes_give h₁ rfl rfl fun w₂ h₂ => closes_pure h₂

/-- The rule for the lookup of a domain: without one the loop skips the entry. -/
theorem closes_domain {dev : Device} {rest : Option Domain → KProg Unit} (h : Closing w₀ c T y w)
    (hle : x ≤ y) (hnone : rest none = pure ())
    (hsome : ∀ w', Closing w₀ c T y w' →
      wp kernel .returns (rest (some dev.domain)) (Closes w₀ c R T' x) w') :
    wp kernel .returns (perform (.iommuGetDmaDomain dev) >>= rest) (Closes w₀ c R T' x) w := by
  rw [wp_perform_bind]
  refine ⟨⟨none⟩, fun hempty => (hempty.false none).elim, ?_⟩
  intro domain w' hstep
  have hstep' : kernelStep (.iommuGetDmaDomain dev) w domain = some w' := hstep
  have h' := h.quiet rfl hstep'
  cases domain with
  | none =>
      rw [hnone]
      exact wp_pure.mpr ⟨rfl, T, h'.weaken hle, .inl ⟨_, List.mem_cons_self, rfl⟩⟩
  | some domain =>
      simp only [kernelStep] at hstep'
      split at hstep'
      · rename_i hdomain
        subst hdomain
        refine wp_mono (hsome w' h') ?_
        rintro trace _ w'' ⟨rfl, T'', h'', htrace⟩
        refine ⟨rfl, T'', h'', ?_⟩
        rcases htrace with hfailed | ⟨rfl, rfl⟩
        · exact .inl (hfailed.append_right _)
        · exact .inr ⟨releasedBy_append _ _, rfl⟩
      · cases hstep'

/-- One round of the loop releases what its entry names. -/
theorem closeEntry_closes (hshaped : Shaped (w₀.smaps p)) (hclosable : Closable (w₀.smaps p))
    (h : Closing w₀ c T (w₀.entryNeeds bufferNeeds p + x) w) :
    wp kernel .returns (closeEntry c p) (Closes w₀ c (w₀.entryReleases p) (T.erase p) x) w := by
  have hp : .smap p ∈ w₀.entryNeeds bufferNeeds p + x :=
    Multiset.mem_add.mpr (.inl (smap_mem_entryNeeds w₀ p))
  unfold closeEntry
  refine closes_readSmap h hp ?_
  cases hshaped with
  | mmio m hcontext hdmabuf _ =>
      have h₀ : Closing w₀ c T
          (.mmioCtx m ::ₘ mmioNeeds (w₀.mmioCtxs m) ::ₘ .smap p ::ₘ x) w := by
        refine h.weaken (le_of_eq ?_)
        rw [entryNeeds_mmio hcontext]
        simp only [← Multiset.singleton_add]
        ac_rfl
      have hreleases : w₀.entryReleases p =
          (.resource (mmioNeeds (w₀.mmioCtxs m)) ::ₘ {.resource (.mmioCtx m)}) +
            {.resource (.smap p)} := by
        rw [World.entryReleases, entryNeeds_mmio hcontext]
        simp only [SmmuMapData.zeroMapping, hdmabuf, Multiset.map_add, Multiset.map_singleton,
          Multiset.map_zero, ← Multiset.singleton_add]
        ac_rfl
      rw [hreleases]
      refine closes_bind (fun T => T.erase p) (closeMmio_closes hcontext h₀) ?_
      intro T₁ w₁ h₁
      rw [hdmabuf]
      exact closeDelete_closes h₁
  | buffer d a hbuffer =>
      obtain ⟨hvfio, hptselect⟩ := hclosable (by simp [hbuffer.dmabuf])
      obtain ⟨v, hv⟩ := Option.isSome_iff_exists.mp hvfio
      have hdev := hbuffer.device v hv
      have hdevice : (w₀.smaps p).vfioDev.bind VfioDevice.dev = some a.dev := by
        rw [hv]
        exact hdev
      rw [World.entryReleases, hbuffer.entryNeeds_eq]
      rw [hbuffer.entryNeeds_eq] at h
      rw [← zero_add (Multiset.map _ _ + _)]
      unfold closeMmio
      rw [hbuffer.context, hbuffer.dmabuf, hv]
      refine closes_bind (fun T => T.erase p) (closes_pure h) ?_
      intro T₁ w₁ h₁
      dsimp only
      rw [hdev]
      refine closes_domain h₁ (Multiset.le_add_left _ _) rfl ?_
      intro w₂ h₂
      dsimp only
      rw [if_neg hptselect]
      exact closeUnmap_closes hbuffer hdevice h₂

/-- The loop releases what the entries name. -/
theorem closeEntries_closes {entries : List Nat} (hshaped : ∀ p ∈ entries, Shaped (w₀.smaps p))
    (hclosable : ∀ p ∈ entries, Closable (w₀.smaps p))
    (h : Closing w₀ c T ((entries.map (w₀.entryNeeds bufferNeeds)).sum) w) :
    wp kernel .returns (closeEntries c entries)
      (Closes w₀ c ((entries.map w₀.entryReleases).sum) (T.diff entries) 0) w := by
  induction entries generalizing T w with
  | nil => exact closes_pure h
  | cons p rest ih =>
      rw [List.map_cons, List.sum_cons] at h
      rw [List.map_cons, List.sum_cons, List.diff_cons]
      refine closes_bind (fun T => T.diff rest)
        (closeEntry_closes (hshaped p List.mem_cons_self) (hclosable p List.mem_cons_self) h) ?_
      intro T₁ w₁ h₁
      exact ih (fun q hq => hshaped q (List.mem_cons_of_mem _ hq))
        (fun q hq => hclosable q (List.mem_cons_of_mem _ hq)) h₁

/-! ## The whole function -/

/-- The entries of the context `c` own what they name. -/
def Intact (w : World) (c : Nat) : Prop :=
  ((w.table c).map (w.entryNeeds bufferNeeds)).sum ≤ w.held

instance (w : World) (c : Nat) : Decidable (Intact w c) :=
  inferInstanceAs (Decidable (_ ≤ _))

theorem diff_eq_nil_of_perm {l l' : List Nat} (h : l'.Perm l) : l.diff l' = [] := by
  rw [List.Perm.diff_left l h]
  clear h
  induction l with
  | nil => rfl
  | cons a l ih => rw [List.diff_cons, List.erase_cons_head, ih]

/-- A context without reserved regions and buffer handles is freed. -/
theorem closeRest_spec (h : Closing w₀ c T x w) (hrest : w₀.rest c = (none, [])) :
    wp kernel .returns (closeRest c) (fun trace result w' =>
      result = some 0 ∧ w'.table c = T ∧ releasedBy trace = {.resource (.ctx c)}) w := by
  unfold closeRest
  rw [wp_perform_bind]
  refine ⟨⟨default⟩, fun hempty => (hempty.false default).elim, ?_⟩
  intro kictx w₁ hstep
  have hkictx : kictx = w.ctxs c ∧ w₁ = w := by
    simp only [kernel, kernelStep] at hstep
    split at hstep <;> cases hstep
    exact ⟨‹_›, rfl⟩
  obtain ⟨rfl, rfl⟩ := hkictx
  have hnil : w₁.rest c = (none, []) := (congrFun h.rest c).trans hrest
  obtain ⟨hresMem, hxa⟩ := Prod.mk.inj hnil
  rw [hresMem, hxa]
  refine wp_perform_bind.mpr ⟨⟨()⟩, fun hempty => (hempty.false ()).elim, ?_⟩
  rintro ⟨⟩ w₂ hstep₂
  cases hstep₂
  exact wp_pure.mpr ⟨rfl, h.table, rfl⟩

/-- `kiumd_close` on intact entries it can handle dereferences no invalid pointer and, unless it
has to skip one, leaves an empty table and has released what the entries name and the context,
each once. -/
theorem kiumdClose_releases (h : Backed noNeeds w 0) (hintact : Intact w c)
    (hclosable : ∀ p ∈ w.table c, Closable (w.smaps p)) :
    wp kernel .returns (kiumdClose (some c)) (fun trace result w' => ¬ CloseFailed trace →
      result = some 0 ∧ w'.table c = [] ∧
        releasedBy trace = ((w.table c).map w.entryReleases).sum + {.resource (.ctx c)}) w := by
  unfold kiumdClose
  refine wp_perform_bind.mpr ⟨⟨[]⟩, fun hempty => (hempty.false []).elim, ?_⟩
  intro entries w₁ hstep
  have hentries : entries.Perm (w.table c) ∧ w₁ = w := by
    simp only [kernel, kernelStep] at hstep
    split at hstep <;> cases hstep
    exact ⟨‹_›, rfl⟩
  obtain ⟨hperm, rfl⟩ := hentries
  have hclosing : Closing w₁ c (w₁.table c) ((entries.map (w₁.entryNeeds bufferNeeds)).sum) w₁ := by
    refine ⟨rfl, rfl, rfl, rfl, ?_⟩
    rw [(hperm.map _).sum_eq]
    exact hintact
  have hentries := closeEntries_closes (fun p hp => h.shaped c p (hperm.mem_iff.mp hp))
    (fun p hp => hclosable p (hperm.mem_iff.mp hp)) hclosing
  refine wp_bind.mpr (wp_mono hentries ?_)
  rintro past _ w₂ ⟨rfl, T, h₂, hpast⟩
  refine wp_mono (closeRest_spec h₂ (h.rest_nil c)) ?_
  rintro trace result w₃ ⟨hresult, htable, hreleased⟩ hsettled
  rcases hpast with hfailed | ⟨hpast, rfl⟩
  · exact absurd ((hfailed.append_left trace).append_right [⟨.hashEntries c, entries⟩]) hsettled
  · refine ⟨hresult, htable.trans (diff_eq_nil_of_perm hperm), ?_⟩
    have htrace : releasedBy ([⟨.hashEntries c, entries⟩] ++ (past ++ trace)) =
        releasedBy past + releasedBy trace := by
      rw [releasedBy_append, releasedBy_append]
      rfl
    rw [htrace, hpast, hreleased, (hperm.map _).sum_eq]

/-- After any run, closing a context with intact entries that `kiumd_close` can handle
dereferences no invalid pointer and releases everything once, unless it has to skip an entry. -/
theorem close_after_run_releases {history : History Ioctl KCall} (hstart : w₀.Fresh)
    (hrun : Run kernel kiumdIoctl .any w₀ history w) (hintact : Intact w c)
    (hclosable : ∀ p ∈ w.table c, Closable (w.smaps p)) :
    wp kernel .returns (kiumdClose (some c)) (fun trace result w' => ¬ CloseFailed trace →
      result = some 0 ∧ w'.table c = [] ∧
        releasedBy trace = ((w.table c).map w.entryReleases).sum + {.resource (.ctx c)}) w :=
  kiumdClose_releases (run_keeps hstart hrun) hintact hclosable

/-- Closing a context with one mapped buffer. -/
theorem close_after_run_releases_map : ∃ w, w.table 0 ≠ [] ∧
    wp kernel .returns (kiumdClose (some 0)) (fun trace result w' => ¬ CloseFailed trace →
      result = some 0 ∧ w'.table 0 = [] ∧
        releasedBy trace = ((w.table 0).map w.entryReleases).sum + {.resource (.ctx 0)}) w := by
  have hcheck : (kiumdIoctl ⟨0, .mapBuf plainUser⟩).check kernel
      (Answers.plain fun _ _ => false).choose .initial
      (fun _ _ w => decide (w.table 0 ≠ []) && decide (Intact w 0) &&
        decide (∀ p ∈ w.table 0, Closable (w.smaps p))) = true := by
    decide +kernel
  obtain ⟨trace, value, w, hexec, htest⟩ := Program.check_exec hcheck
  simp only [Bool.and_eq_true, decide_eq_true_eq] at htest
  obtain ⟨⟨htable, hintact⟩, hclosable⟩ := htest
  exact ⟨w, htable, close_after_run_releases fresh_initial
    (.request .start hexec trivial) hintact hclosable⟩

/-- Closing a context with a secure mapping dereferences the `NULL` device of the entry. -/
theorem close_secure_dereferences_null : ∃ w₀ history w, World.Fresh w₀ ∧
    Run kernel kiumdIoctl .any w₀ history w ∧
    ¬ wp kernel .returns (kiumdClose (some 0)) (fun _ _ _ => True) w := by
  have hcheck : (kiumdIoctl ⟨0, .secureMap plainUser⟩).check kernel
      (Answers.plain fun _ _ => false).choose .initial
      (fun _ value w => decide (value = 0) && (kiumdClose (some 0)).stops kernel
        (Answers.plain fun _ _ => false).choose w) = true := by
    decide +kernel
  obtain ⟨trace, value, w, hexec, htest⟩ := Program.check_exec hcheck
  rw [Bool.and_eq_true] at htest
  refine ⟨_, _, w, fresh_initial, .request .start hexec trivial, fun hwp => ?_⟩
  obtain ⟨past, w', β, request, hnone, hpending⟩ := Program.stops_pending htest.2
  have : Nonempty β := wp_pending hwp hpending
  have hsome := (Answers.plain fun _ _ => false).choose_isSome request w'
  rw [hnone] at hsome
  cases hsome

end SafeLinux.Kiumd
