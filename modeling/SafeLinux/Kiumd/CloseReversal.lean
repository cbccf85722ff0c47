import SafeLinux.Kiumd.Reversal

/-!
# Whether closing a context reverses what was done

`kiumd_close` works from the entries alone. `closeEntry_does` says what it does for one entry,
`kiumdClose_does` for all of them, and `run_releases_reverse` combines this with the requests of
the run before.
-/

namespace SafeLinux.Kiumd

open Effects Ledgers
open Effects.Program (perform)

variable {w₀ w : World} {c p : Nat} {x : Multiset Resource} {T : List Nat} {r : Resource}
  {d : DmaBuf} {a : Attachment} {bs : List Act} {as : List Act} {j : Request}

/-! ## One entry -/

/-- The data of an entry for a buffer that `kiumd_close` does not skip. -/
structure ClosesBuffer (data : SmmuMapData) (d : DmaBuf) (a : Attachment) : Prop
    extends IsBuffer data d a where
  known : data.vfioDev ≠ none
  listed : ¬ (IsKgsl data.ptselect ∨ data.ptselect = KGSL_DEFAULT_PT)

/-- What `kiumd_close` does for the entry `p`. -/
inductive ClosesEntry (w : World) (c p : Nat) : List Act → Prop where
  /-- The entry is skipped, or its device is not there. -/
  | skipped : ClosesEntry w c p [.read p (w.smaps p)]
  | region {m : Nat} : (w.smaps p).context = some m → (w.smaps p).dmabufPtr = none →
      ClosesEntry w c p [.read p (w.smaps p), .readMmio m (w.mmioCtxs m),
        .unmapResource (w.mmioCtxs m).dev (w.mmioCtxs m).iova (w.mmioCtxs m).size, .unlink c p,
        .free p]
  | plain {d : DmaBuf} {a : Attachment} : ClosesBuffer (w.smaps p) d a →
      (w.smaps p).isIovaZero ≠ FIXED_IOVA_AT_ZERO →
      ClosesEntry w c p [.read p (w.smaps p), .unmapAttachment a a.table (w.smaps p).dmaDir,
        .detach d a, .put d, .unlink c p, .free p]
  /-- The mapping at IOVA zero could not be removed. -/
  | zeroFailed {d : DmaBuf} {a : Attachment} {size : U64} : ClosesBuffer (w.smaps p) d a →
      (w.smaps p).isIovaZero = FIXED_IOVA_AT_ZERO →
      ClosesEntry w c p [.read p (w.smaps p), .unmapAttachment a a.table (w.smaps p).dmaDir,
        .unmap a.dev.domain 0 d.size size]
  | zero {d : DmaBuf} {a : Attachment} {size : U64} : ClosesBuffer (w.smaps p) d a →
      (w.smaps p).isIovaZero = FIXED_IOVA_AT_ZERO →
      ClosesEntry w c p [.read p (w.smaps p), .unmapAttachment a a.table (w.smaps p).dmaDir,
        .unmap a.dev.domain 0 d.size size, .detach d a, .put d, .unlink c p, .free p]

/-- What is not among `x` may be given back. -/
theorem Closing.drop (h : Closing w₀ c T x w) (hr : r ∉ x) : Closing w₀ c T x (w.release r) where
  smaps := h.smaps
  mmioCtxs := h.mmioCtxs
  rest := h.rest
  table := h.table
  held := by
    show x ≤ w.held.erase r
    rw [← Multiset.erase_of_notMem hr]
    exact Multiset.erase_le_erase r h.held

theorem Closing.unlink (h : Closing w₀ c T x w) (p : Nat) :
    Closing w₀ c (T.erase p) x (w.unlink c p) where
  smaps := h.smaps
  mmioCtxs := h.mmioCtxs
  rest := (w.rest_unlink c p).trans h.rest
  table := (congrFun (w.table_unlink c p) c).trans (by rw [Function.update_self, h.table])
  held := h.held

/-- The postcondition for one entry: `x` is still held when the loop goes on. -/
def DoesEntry (w₀ : World) (c p : Nat) (x : Multiset Resource) : Post KCall World Unit :=
  fun trace result w => ClosesEntry w₀ c p (acts trace) ∧
    (result = some () → ∃ T, Closing w₀ c T x w)

/-- `x` names no buffer. -/
def NoBuffers (x : Multiset Resource) : Prop :=
  (∀ d, .dmabuf d ∉ x) ∧ (∀ a, .attachment a ∉ x) ∧ ∀ dev t, .mapping dev t ∉ x

theorem closeDetach_does {data : SmmuMapData} (hattach : data.dmabufattach = some a)
    (hx : NoBuffers x) (h : Closing w₀ c T (.smap p ::ₘ x) w) :
    wp kernel .any (closeDetach c p data d) (fun trace _ w' =>
      acts trace = [.detach d a, .put d, .unlink c p, .free p] ∧ ∃ T, Closing w₀ c T x w') w := by
  obtain ⟨hdmabuf, hattachment, _⟩ := hx
  have h₁ := h.drop (r := .attachment a) (by simp [hattachment a])
  have h₂ := h₁.drop (r := .dmabuf d) (by simp [hdmabuf d])
  unfold closeDetach closeAttachment
  rw [hattach]
  refine wp_step fun _ w₁ hstep => ?_
  cases hstep
  refine wp_step fun _ w₂ hstep => ?_
  cases hstep
  refine wp_step fun _ w₃ hstep => ?_
  cases hstep
  refine wp_perform.mpr ⟨trivial, fun hempty => (hempty.false ()).elim, fun _ w₄ hstep => ?_⟩
  cases hstep
  exact ⟨rfl, _, (h₂.unlink p).give⟩

theorem closeUnmap_does (hbuffer : ClosesBuffer (w₀.smaps p) d a) (hx : NoBuffers x)
    (h : Closing w₀ c T (.smap p ::ₘ x) w) :
    wp kernel .any (closeUnmap c p (w₀.smaps p) d a.dev.domain) (fun trace result w' =>
      ClosesEntry w₀ c p (.read p (w₀.smaps p) :: acts trace) ∧
        (result = some () → ∃ T, Closing w₀ c T x w')) w := by
  have h₁ := h.drop (r := .mapping a.dev a.table) (by simp [hx.2.2 a.dev a.table])
  unfold closeUnmap closeMapping
  rw [hbuffer.attach, hbuffer.sgt]
  refine wp_step fun _ w₁ hstep => ?_
  cases hstep
  split
  · rename_i hzero
    refine wp_step fun size w₂ hstep => ?_
    cases hstep
    dsimp only
    split
    · exact wp_pure.mpr ⟨.zeroFailed hbuffer hzero,
        fun _ => ⟨_, h₁.weaken (Multiset.le_cons_self _ _)⟩⟩
    · refine wp_mono (closeDetach_does hbuffer.attach hx h₁) ?_
      rintro trace result w' ⟨hacts, hclosing⟩
      refine ⟨?_, fun _ => hclosing⟩
      show ClosesEntry w₀ c p (.read p (w₀.smaps p) ::
        .unmapAttachment a a.table (w₀.smaps p).dmaDir :: .unmap a.dev.domain 0 d.size size ::
          acts trace)
      rw [hacts]
      exact .zero hbuffer hzero
  · rename_i hzero
    refine wp_mono (closeDetach_does hbuffer.attach hx h₁) ?_
    rintro trace result w' ⟨hacts, hclosing⟩
    refine ⟨?_, fun _ => hclosing⟩
    show ClosesEntry w₀ c p (.read p (w₀.smaps p) ::
      .unmapAttachment a a.table (w₀.smaps p).dmaDir :: acts trace)
    rw [hacts]
    exact .plain hbuffer hzero

theorem closeEntry_does (hshaped : Shaped (w₀.smaps p)) (hx : NoBuffers x)
    (h : Closing w₀ c T (w₀.entryNeeds noNeeds p + x) w) :
    wp kernel .any (closeEntry c p) (DoesEntry w₀ c p x) w := by
  have hp : .smap p ∈ w.held :=
    Multiset.mem_of_le h.held (Multiset.mem_add.mpr (.inl (smap_mem_entryNeeds w₀ p)))
  unfold closeEntry
  refine wp_step fun data w₁ hstep => ?_
  obtain ⟨rfl, rfl⟩ : data = w₀.smaps p ∧ w₁ = w := by
    simp only [kernelStep] at hstep
    split at hstep <;> cases hstep
    rename_i hdata
    exact ⟨(hdata hp).trans (congrFun h.smaps p), rfl⟩
  cases hshaped with
  | mmio m hcontext hdmabuf _ =>
      rw [entryNeeds_mmio hcontext] at h
      have h₀ : Closing w₀ c T
          (mmioNeeds (w₀.mmioCtxs m) ::ₘ .mmioCtx m ::ₘ .smap p ::ₘ x) w₁ := by
        refine h.weaken (le_of_eq ?_)
        simp only [← Multiset.singleton_add]
        ac_rfl
      have hm : .mmioCtx m ∈ w₁.held := Multiset.mem_of_le h₀.held (by simp)
      unfold closeMmio
      rw [hcontext, hdmabuf]
      refine wp_step fun mmio w₂ hstep => ?_
      obtain ⟨rfl, rfl⟩ : mmio = w₀.mmioCtxs m ∧ w₂ = w₁ := by
        simp only [kernelStep] at hstep
        split at hstep <;> cases hstep
        rename_i hmmio
        exact ⟨(hmmio hm).trans (congrFun h₀.mmioCtxs m), rfl⟩
      refine wp_step fun _ w₃ hstep => ?_
      cases hstep
      refine wp_step fun _ w₄ hstep => ?_
      cases hstep
      refine wp_step fun _ w₅ hstep => ?_
      cases hstep
      refine wp_perform.mpr ⟨trivial, fun hempty => (hempty.false ()).elim, fun _ w₆ hstep => ?_⟩
      cases hstep
      exact ⟨.region hcontext hdmabuf, fun _ => ⟨_, (h₀.give.give.unlink p).give⟩⟩
  | buffer d a hbuffer =>
      have h₀ : Closing w₀ c T (.smap p ::ₘ x) w₁ := by
        refine h.weaken (le_of_eq ?_)
        rw [hbuffer.entryNeeds_eq, noNeeds, Multiset.cons_add, zero_add]
      have hskipped : ClosesEntry w₀ c p [.read p (w₀.smaps p)] := .skipped
      unfold closeMmio
      rw [hbuffer.context, hbuffer.dmabuf]
      cases hvfio : (w₀.smaps p).vfioDev with
      | none => exact wp_oops ⟨hskipped, fun h => by cases h⟩
      | some v =>
      dsimp only
      rw [hbuffer.device v hvfio]
      refine wp_step fun domain w₂ hstep => ?_
      cases domain with
      | none =>
          cases hstep
          exact wp_pure.mpr ⟨hskipped, fun _ => ⟨_, h₀.weaken (Multiset.le_cons_self _ _)⟩⟩
      | some domain =>
          obtain ⟨rfl, rfl⟩ : domain = a.dev.domain ∧ w₂ = w₁ := by
            simp only [kernelStep] at hstep
            split at hstep <;> cases hstep
            rename_i hdomain
            exact ⟨hdomain, rfl⟩
          dsimp only
          split
          · exact wp_pure.mpr ⟨hskipped, fun _ => ⟨_, h₀.weaken (Multiset.le_cons_self _ _)⟩⟩
          · rename_i hkgsl
            have hcloses : ClosesBuffer (w₀.smaps p) d a :=
              { hbuffer with
                known := by simp [hvfio]
                listed := hkgsl }
            exact wp_mono (closeUnmap_does hcloses hx h₀) fun _ _ _ hdoes => hdoes

/-- Only the entry itself is taken out of the table. -/
theorem ClosesEntry.onlyDeletes (h : ClosesEntry w c p bs) : OnlyDeletes c p bs := by
  cases h with
  | skipped | zeroFailed => exact .of_kept (by simp [Act.isDelete])
  | region | plain | zero => exact fun q hdeletes => by simpa [Deletes] using hdeletes

/-- A mapping at IOVA zero is made in the domain of the device, and only if asked for. -/
theorem MapsBuffer.zeroMapsOf_eq {u : KiumdUser} {maps : List Act} (h : MapsBuffer u a maps) :
    zeroMapsOf maps = [] ∨
      u.isIovaZero = FIXED_IOVA_AT_ZERO ∧ zeroMapsOf maps = [a.dev.domain] := by
  cases h with
  | privileged _ _ | attached _ _ => exact .inl rfl
  | zero result hzero =>
      by_cases hresult : 0 ≤ result
      · have hmapsZero : Act.mapsZero (.mapSg a.dev.domain 0 a.table u.zeroProt result) =
            some a.dev.domain := if_pos hresult
        refine .inr ⟨hzero, ?_⟩
        rw [zeroMapsOf, List.filterMap_cons_none rfl, List.filterMap_cons_some hmapsZero]
        rfl
      · have hmapsZero : Act.mapsZero (.mapSg a.dev.domain 0 a.table u.zeroProt result) = none :=
          if_neg hresult
        refine .inl ?_
        rw [zeroMapsOf, List.filterMap_cons_none rfl, List.filterMap_cons_none hmapsZero]
        rfl

/-- `kiumd_close` reverses for an entry what the request did that has created it. -/
theorem ClosesEntry.reverses (h : ClosesEntry w c p bs) (horigin : Origin w p as j)
    (hfits : ∀ u, j = .mapBuf u → ¬ (IsKgsl u.ptselect ∨ u.ptselect = KGSL_DEFAULT_PT) →
      ¬ u.Privileged ∧ (u.isIovaZero = FIXED_IOVA_AT_ZERO → zeroMapsOf as ≠ [])) :
    ReversesOnly as bs ∧ (Deletes c p bs → Reverses as bs) := by
  have hskipped : ReversesOnly as [.read p (w.smaps p)] ∧
      (Deletes c p [.read p (w.smaps p)] → Reverses as [.read p (w.smaps p)]) :=
    Passive.reverses (by simp [Passive, Act.isPassive, Act.isInert])
  cases horigin with
  | @mmio ret₀ u n dev iova size id hdata hctx hmaps hzero hhanded =>
      cases h with
      | skipped => exact hskipped
      | @region m hcontext _ =>
          rw [hdata] at hcontext
          cases hcontext
          have honly : ReversesOnly as [.read p (w.smaps p), .readMmio n (w.mmioCtxs n),
              .unmapResource (w.mmioCtxs n).dev (w.mmioCtxs n).iova (w.mmioCtxs n).size,
              .unlink c p, .free p] := by
            rw [hctx]
            refine ⟨?_, fun _ h => (List.not_mem_nil h).elim, fun _ h => (List.not_mem_nil h).elim⟩
            exact List.forall_mem_singleton.mpr hmaps
          exact ⟨honly, fun _ => honly.all hzero hhanded⟩
      | plain hbuffer | zeroFailed hbuffer | zero hbuffer =>
          have hdmabuf := hbuffer.dmabuf
          rw [hdata] at hdmabuf
          cases hdmabuf
  | secure hdata =>
      cases h with
      | skipped => exact hskipped
      | region hcontext =>
          rw [hdata] at hcontext
          cases hcontext
      | plain hbuffer | zeroFailed hbuffer | zero hbuffer =>
          refine absurd ?_ hbuffer.known
          rw [hdata]
          rfl
  | @buffer u v d₁ a₁ maps id hdata hdev hmaps hmade hzero hhanded =>
      have hdir : (w.smaps p).dmaDir = u.mapDir := by rw [hdata]; rfl
      have hfixed : (w.smaps p).isIovaZero = u.isIovaZero := by rw [hdata]; rfl
      have hcloses : ∀ {d : DmaBuf} {a : Attachment}, ClosesBuffer (w.smaps p) d a → a = a₁ ∧
          .attachment a₁ a₁.table (w.smaps p).dmaDir ∈ mapsOf as ∧
          ((w.smaps p).isIovaZero = FIXED_IOVA_AT_ZERO → zeroMapsOf as = [a₁.dev.domain]) := by
        intro d a hbuffer
        have hlisted := hbuffer.listed
        have hattach := hbuffer.attach
        rw [hdata] at hlisted hattach
        obtain ⟨hplain, hmade₀⟩ := hfits u rfl hlisted
        refine ⟨(Option.some.inj hattach).symm, ?_, fun hfixed₀ => ?_⟩
        · rw [hdir, hmade]
          exact hmaps.attachment_mem hplain
        · rw [hfixed] at hfixed₀
          have hne := hmade₀ hfixed₀
          rw [hzero] at hne ⊢
          exact (hmaps.zeroMapsOf_eq.resolve_left hne).2
      -- The part for a buffer unmaps the attachment and may remove the mapping at IOVA zero.
      have honly : ∀ {rest : List Act} {d : DmaBuf} {a : Attachment},
          ClosesBuffer (w.smaps p) d a → unmapsOf rest = [] → takenBack rest = [] →
          (∀ dom ∈ zeroUnmapsOf rest, dom ∈ zeroMapsOf as) →
          ReversesOnly as (.read p (w.smaps p) ::
            .unmapAttachment a a.table (w.smaps p).dmaDir :: rest) := by
        intro rest d a hbuffer hunmaps htaken hremoves
        obtain ⟨rfl, hattached, _⟩ := hcloses hbuffer
        refine ⟨?_, hremoves, ?_⟩
        · show ∀ m ∈ DmaMapping.attachment a a.table (w.smaps p).dmaDir :: unmapsOf rest,
            m ∈ mapsOf as
          rw [hunmaps]
          exact List.forall_mem_singleton.mpr hattached
        · show ∀ range ∈ takenBack rest, range ∈ handedOver as
          rw [htaken]
          exact fun _ h => (List.not_mem_nil h).elim
      cases h with
      | skipped => exact hskipped
      | region hcontext =>
          rw [hdata] at hcontext
          cases hcontext
      | @plain d a hbuffer hunfixed =>
          have hreverses : ReversesOnly as [.read p (w.smaps p),
              .unmapAttachment a a.table (w.smaps p).dmaDir, .detach d a, .put d, .unlink c p,
              .free p] := honly hbuffer rfl rfl fun _ h => (List.not_mem_nil h).elim
          have hnone : zeroMapsOf as = [] := by
            rw [hzero]
            refine hmaps.zeroMapsOf_eq.resolve_right fun hmapped => hunfixed ?_
            rw [hfixed]
            exact hmapped.1
          exact ⟨hreverses, fun _ => hreverses.all hnone hhanded⟩
      | @zeroFailed d a size hbuffer hfixed₀ =>
          obtain ⟨rfl, _, hmapped⟩ := hcloses hbuffer
          have hremoves : ∀ dom ∈ [a.dev.domain], dom ∈ zeroMapsOf as := by
            rw [hmapped hfixed₀]
            exact fun dom hdom => hdom
          refine ⟨honly hbuffer rfl rfl hremoves, fun hdeletes => ?_⟩
          exact absurd hdeletes (not_deletes (by simp [Act.isDelete]))
      | @zero d a size hbuffer hfixed₀ =>
          obtain ⟨rfl, _, hmapped⟩ := hcloses hbuffer
          have hremoves : ∀ dom ∈ [a.dev.domain], dom ∈ zeroMapsOf as := by
            rw [hmapped hfixed₀]
            exact fun dom hdom => hdom
          have hreverses : ReversesOnly as [.read p (w.smaps p),
              .unmapAttachment a a.table (w.smaps p).dmaDir, .unmap a.dev.domain 0 d.size size,
              .detach d a, .put d, .unlink c p, .free p] := honly hbuffer rfl rfl hremoves
          refine ⟨hreverses, fun _ => { hreverses with zero_all := ?_, owners_all := ?_ }⟩
          · rw [hmapped hfixed₀]
            exact fun dom hdom => hdom
          · rw [hhanded]
            simp

/-! ## The whole function -/

variable {entries : List Nat} {history : History Ioctl KCall}

theorem noBuffers_needs : NoBuffers ((entries.map (w.entryNeeds noNeeds)).sum) := by
  have hmem : ∀ r ∈ (entries.map (w.entryNeeds noNeeds)).sum,
      ∃ p, r ∈ w.entryNeeds noNeeds p := by
    induction entries with
    | nil => simp
    | cons p rest ih =>
        intro r hr
        rw [List.map_cons, List.sum_cons] at hr
        exact (Multiset.mem_add.mp hr).elim (fun hp => ⟨p, hp⟩) (ih r)
  refine ⟨fun d hd => ?_, fun a ha => ?_, fun dev t ht => ?_⟩
  · obtain ⟨p, hp⟩ := hmem _ hd
    exact dmabuf_notMem_noNeeds hp
  · obtain ⟨p, hp⟩ := hmem _ ha
    exact attachment_notMem_noNeeds hp
  · obtain ⟨p, hp⟩ := hmem _ ht
    exact mapping_notMem_noNeeds hp

theorem closeEntries_does (hshaped : ∀ p ∈ entries, Shaped (w₀.smaps p))
    (h : Closing w₀ c T ((entries.map (w₀.entryNeeds noNeeds)).sum) w) :
    wp kernel .any (closeEntries c entries)
      (fun trace _ _ => EntryByEntry (ClosesEntry w₀ c) entries (acts trace)) w := by
  induction entries generalizing T w with
  | nil => exact wp_pure.mpr .nil
  | cons p rest ih =>
      rw [List.map_cons, List.sum_cons] at h
      refine wp_bind.mpr (wp_mono (closeEntry_does (hshaped p List.mem_cons_self)
        noBuffers_needs h) ?_)
      rintro trace result w' ⟨hentry, hnext⟩
      cases result with
      | none => exact .halted hentry
      | some value =>
          obtain ⟨T', hclosing⟩ := hnext rfl
          refine wp_mono (ih (fun q hq => hshaped q (List.mem_cons_of_mem p hq)) hclosing) ?_
          intro trace' _ _ hrest
          show EntryByEntry (ClosesEntry w₀ c) (p :: rest) (driver.actions (trace ++ trace'))
          rw [Observer.actions_append]
          exact .cons hentry hrest

/-- Actions on other fields and references of a context. -/
def Act.isRest : Act → Bool
  | .put _ | .other _ => true
  | _ => false

theorem putTimes_rest {count : Nat} :
    Shows (putTimes d count) fun acts _ => ∀ act ∈ acts, act.isRest = true := by
  induction count with
  | zero => exact shows_pure (by simp)
  | succ count ih =>
      refine shows_act _ (fun _ => rfl) fun _ _ => ih.mono fun _ _ hrest => ?_
      exact List.forall_mem_cons.mpr ⟨rfl, hrest⟩

theorem putHandle_rest {handle : DmaBufHandle} :
    Shows (putHandle handle) fun acts _ => ∀ act ∈ acts, act.isRest = true := by
  unfold putHandle
  split
  · exact putTimes_rest
  · exact shows_pure (by simp)

theorem closeHandles_rest {handles : List (Nat × Nat)} :
    Shows (closeHandles handles) fun acts _ => ∀ act ∈ acts, act.isRest = true := by
  induction handles with
  | nil => exact shows_pure (by simp)
  | cons handle rest ih =>
      refine shows_idle (fun _ => rfl) fun data _ => ?_
      refine shows_bind putHandle_rest ?_ fun _ hput => hput
      intro put _ hput
      refine shows_idle (fun _ => rfl) fun _ _ => ih.mono fun _ _ hrest => ?_
      exact List.forall_mem_append.mpr ⟨hput, hrest⟩

theorem closeXarray_rest {handles : List (Nat × Nat)} :
    Shows (closeXarray c handles) fun acts _ => ∀ act ∈ acts, act.isRest = true := by
  unfold closeXarray
  split
  · refine shows_bind closeHandles_rest ?_ fun _ hput => hput
    intro put _ hput
    refine shows_perform fun _ _ => List.forall_mem_append.mpr ⟨hput, ?_⟩
    exact List.forall_mem_singleton.mpr rfl
  · exact shows_pure (by simp)

theorem closeRest_rest : Shows (closeRest c) fun acts _ => ∀ act ∈ acts, act.isRest = true := by
  have hresMem : ∀ resMemArea : Option Nat,
      Shows (closeResMem resMemArea) fun acts _ => acts = [] := by
    intro resMemArea
    unfold closeResMem
    cases resMemArea with
    | none => exact shows_pure rfl
    | some p => exact shows_perform fun _ _ => rfl
  unfold closeRest
  refine shows_idle (fun _ => rfl) fun kictx _ => ?_
  refine shows_bind (hresMem kictx.resMemArea) ?_ fun _ hnone => by simp [hnone]
  rintro _ _ rfl
  refine shows_bind closeXarray_rest ?_ fun _ hput => hput
  intro put _ hput
  refine shows_idle (fun _ => rfl) fun _ _ => shows_pure ?_
  rwa [List.append_nil]

theorem EntryByEntry.mono {R R' : Nat → List Act → Prop} (h : EntryByEntry R entries bs)
    (himp : ∀ p ∈ entries, ∀ as, R p as → R' p as) : EntryByEntry R' entries bs := by
  induction h with
  | nil => exact .nil
  | cons hentry _ ih =>
      exact .cons (himp _ List.mem_cons_self _ hentry)
        (ih fun p hp => himp p (List.mem_cons_of_mem _ hp))
  | halted hentry => exact .halted (himp _ List.mem_cons_self _ hentry)

/-- What holds of all actions of a round holds of all actions of the loop. -/
theorem EntryByEntry.forall_mem {R : Nat → List Act → Prop} {P : Act → Prop}
    (h : EntryByEntry R entries bs) (hround : ∀ p as, R p as → ∀ act ∈ as, P act) :
    ∀ act ∈ bs, P act := by
  induction h with
  | nil => simp
  | cons hentry _ ih => exact List.forall_mem_append.mpr ⟨hround _ _ hentry, ih⟩
  | halted hentry => exact hround _ _ hentry

/-- `kiumd_close` goes through the entries of the context, and does nothing else to mappings, owners
and tables. -/
theorem kiumdClose_does (hb : Backed noNeeds w 0) :
    wp kernel .any (kiumdClose (some c)) (fun trace _ _ => ∃ entries loop rest,
      acts trace = .entries c entries :: (loop ++ rest) ∧ entries.Perm (w.table c) ∧
        EntryByEntry (ClosesEntry w c) entries loop ∧ ∀ act ∈ rest, act.isRest = true) w := by
  unfold kiumdClose
  refine wp_step fun entries w₁ hstep => ?_
  obtain ⟨hperm, rfl⟩ : entries.Perm (w.table c) ∧ w₁ = w := by
    simp only [kernelStep] at hstep
    split at hstep <;> cases hstep
    exact ⟨‹_›, rfl⟩
  have hsum : (entries.map (w₁.entryNeeds noNeeds)).sum ≤ w₁.held := by
    rw [(hperm.map _).sum_eq]
    simpa [demand] using hb.covers {c}
  have hclosing : Closing w₁ c (w₁.table c) ((entries.map (w₁.entryNeeds noNeeds)).sum) w₁ :=
    ⟨rfl, rfl, rfl, rfl, hsum⟩
  refine wp_bind.mpr (wp_mono (closeEntries_does
    (fun p hp => hb.shaped c p (hperm.mem_iff.mp hp)) hclosing) ?_)
  intro loop result w₂ hloop
  cases result with
  | none =>
      refine ⟨entries, acts loop, [], ?_, hperm, hloop, by simp⟩
      rw [List.append_nil]
      rfl
  | some value =>
      refine ⟨fun _ _ _ _ _ => trivial, fun trace result w₃ hexec => ?_⟩
      refine ⟨entries, acts loop, acts trace, ?_, hperm, hloop,
        closeRest_rest.exec driver_admits hexec⟩
      show .entries c entries :: driver.actions (loop ++ trace) = _
      rw [Observer.actions_append]

/-! ## Runs -/

/-- The request that has created an entry is known. -/
theorem CreatedBy.unique {i i' : Ioctl} {as' : List Act} (h : CreatedBy c p history i as)
    (h' : CreatedBy c p history i' as') : i' = i ∧ as' = as := by
  induction h with
  | last hadds =>
      cases h' with
      | last _ => exact ⟨rfl, rfl⟩
      | before hold _ => exact absurd hadds hold
  | before hold _ ih =>
      cases h' with
      | last hadds => exact absurd hadds hold
      | before _ hcreated => exact ih hcreated

/-- An entry of a table is what the request that has created it has made it. -/
theorem Traced.origin {i : Ioctl} (h : Traced history w) (hp : p ∈ w.table c)
    (hcreated : CreatedBy c p history i as) : Origin w p as i.request := by
  obtain ⟨i', as', hcreated', hcreation⟩ := h c p hp
  obtain ⟨rfl, rfl⟩ := hcreated'.unique hcreated
  exact hcreation.origin

/-- In a run whose releases all fit the requests that have created the entries found, each release
reverses what was done, and so does closing a context whose buffers fit. -/
theorem run_releases_reverse (hstart : w₀.Fresh)
    (h : Run kernel kiumdIoctl ReleasesFit w₀ history w) :
    EveryRequest ReleasesRight history ∧
      ∀ c, CloseFits history w c → ∀ trace result w',
        Exec kernel (kiumdClose (some c)) w trace result w' →
        ClosesRight history c (w.table c) (acts trace) := by
  constructor
  · induction h with
    | start => trivial
    | @request history w w' i trace result hrun hexec hfits ih =>
        refine ⟨?_, ih⟩
        have htraced := run_traced hstart hrun
        have hreleases := kiumdIoctl_releases (run_keeps hstart hrun) hexec
        refine ⟨fun hkind => (hreleases hkind).1.unfound, fun hkind => (hreleases hkind).1.deleted,
          fun hkind p j as hfinds hcreated => ?_⟩
        exact (hreleases hkind).2 p j.request as hfinds
          (fun hp => htraced.origin hp hcreated) (hfits p j as hfinds hcreated)
  · intro c hfits trace result w' hexec
    have htraced := run_traced hstart h
    obtain ⟨entries, loop, rest, hacts, hperm, hloop, hrest⟩ :=
      wp_exec (kiumdClose_does (run_keeps hstart h)) hexec
    refine ⟨entries, loop, rest, hacts, hperm, hloop.mono fun p hp as hentry => ?_, ?_, ?_⟩
    · have hmem : p ∈ w.table c := hperm.mem_iff.mp hp
      refine ⟨hentry.onlyDeletes, fun j as' hcreated => ?_⟩
      exact hentry.reverses (htraced.origin hmem hcreated) fun u hu =>
        hfits p hmem j u as' hcreated hu
    · refine reversesOnly_of_inert fun act hact => ?_
      have hkind := hrest act hact
      cases act <;> first | rfl | cases hkind
    · refine fun p => not_deletes fun act hact => ?_
      have hkind := hrest act hact
      cases act <;> first | rfl | cases hkind

/-- A run in which a buffer is mapped and unmapped. -/
theorem run_releases_reverse_map : ∃ history w,
    Run kernel kiumdIoctl ReleasesFit .initial history w ∧
    history.map (·.1) = [⟨0, .unmapBuf plainUser⟩, ⟨0, .mapBuf plainUser⟩] ∧
    EveryRequest ReleasesRight history ∧
      ∀ c, CloseFits history w c → ∀ trace result w',
        Exec kernel (kiumdClose (some c)) w trace result w' →
        ClosesRight history c (w.table c) (acts trace) := by
  have hcheck : (kiumdIoctl ⟨0, .mapBuf plainUser⟩).check kernel
      (Answers.plain fun _ _ => false).choose .initial
      (fun trace _ w => decide (zeroMapsOf (acts trace) = []) &&
        (kiumdIoctl ⟨0, .unmapBuf plainUser⟩).check kernel
          (Answers.plain fun _ _ => false).choose w
          (fun _ value _ => decide (value = 0))) = true := by
    decide +kernel
  obtain ⟨trace, value, w, hexec, htest⟩ := Program.check_exec hcheck
  rw [Bool.and_eq_true, decide_eq_true_eq] at htest
  obtain ⟨hzero, hsecond⟩ := htest
  obtain ⟨trace', value', w', hexec', -⟩ := Program.check_exec hsecond
  have hfirst : ReleasesFit [] ⟨0, .mapBuf plainUser⟩ .initial trace := fun _ _ _ _ => nofun
  have hfits : ReleasesFit [(⟨0, .mapBuf plainUser⟩, trace)] ⟨0, .unmapBuf plainUser⟩ w trace' := by
    intro p j as _ hcreated
    cases hcreated with
    | before _ hbefore => cases hbefore
    | last _ =>
        have hfits : UnmapFits plainUser plainUser (acts trace) (acts trace') :=
          { plain := by decide
            plain₁ := by decide
            direction := by decide
            zero := by simp [hzero, plainUser, FIXED_IOVA_AT_ZERO]
            device := by simp [hzero] }
        exact hfits
  have hrun := Run.request (.request .start hexec hfirst) hexec' hfits
  exact ⟨_, w', hrun, rfl, run_releases_reverse fresh_initial hrun⟩

/-- The entry that some actions find in the table of the context 0. -/
def foundEntry (as : List Act) : Option Nat :=
  as.findSome? fun
    | .find 0 _ found => found
    | _ => none

/-- The entry that some actions add to the table of the context 0. -/
def addedEntry (as : List Act) : Option Nat := as.findSome? fun act => (act.draws 0).map Prod.fst

/-- A privileged buffer is mapped with other attributes than it is unmapped with. -/
theorem not_releases_reverse_privileged : ∃ w₀ history w, World.Fresh w₀ ∧
    Run kernel kiumdIoctl .any w₀ history w ∧ ¬ EveryRequest ReleasesRight history := by
  have hcheck : (kiumdIoctl ⟨0, .mapBuf privilegedUser⟩).check kernel
      (Answers.plain fun _ _ => false).choose .initial
      (fun trace _ w => (kiumdIoctl ⟨0, .unmapBuf privilegedUser⟩).check kernel
        (Answers.plain fun _ _ => false).choose w
        (fun trace' _ _ => decide (addedEntry (acts trace) = some 3) &&
          decide (foundEntry (acts trace') = some 3) &&
          decide (¬ ∀ m ∈ unmapsOf (acts trace'), m ∈ mapsOf (acts trace)))) = true := by
    decide +kernel
  obtain ⟨trace, value, w, hexec, hsecond⟩ := Program.check_exec hcheck
  obtain ⟨trace', value', w', hexec', htest⟩ := Program.check_exec hsecond
  simp only [Bool.and_eq_true, decide_eq_true_eq] at htest
  obtain ⟨⟨hadded, hfound⟩, hunmaps⟩ := htest
  refine ⟨.initial, _, w', fresh_initial,
    .request (.request .start hexec trivial) hexec' trivial, fun hright => ?_⟩
  obtain ⟨act, hact, hdraws⟩ := List.exists_of_findSome?_eq_some hadded
  obtain ⟨⟨p, id⟩, hdraws, rfl⟩ := Option.map_eq_some_iff.mp hdraws
  have hfinds : Finds 0 3 (acts trace') := by
    obtain ⟨find, hfind, heq⟩ := List.exists_of_findSome?_eq_some hfound
    split at heq
    · rename_i id' found
      subst heq
      exact ⟨id', .inl hfind⟩
    · cases heq
  exact hunmaps (hright.1.reversed rfl 3 _ _ hfinds (.last ⟨act, hact, id, hdraws⟩)).1.mappings

end SafeLinux.Kiumd
