import SafeLinux.Kiumd.Ids

/-!
# The requests that created the entries

Every entry of a table was added by a request, which allocated it and filled it in. In every state
of a run the data of an entry are those that the latest request to add it has written, and that
request showed one of the shapes of its ioctl (`run_traced`).
-/

namespace SafeLinux.Kiumd

open Effects

/-! ## Every ioctl -/

/-- The actions of an ioctl. -/
def IoctlShape (i : Ioctl) : Shape Act Int :=
  match i.request with
  | .mapBuf kiusr => MapShape kiusr i.ctx
  | .unmapBuf kiusr => UnmapShape kiusr i.ctx
  | .secureMap kiusr => SecureMapShape kiusr i.ctx
  | .secureUnmap kiusr => SecureUnmapShape kiusr i.ctx
  | .mmioMap ret₀ kiusr => MmioMapShape kiusr i.ctx ret₀
  | .mmioUnmap kiusr => MmioUnmapShape kiusr i.ctx

/-- What an ioctl can do. -/
theorem kiumdIoctl_shows (i : Ioctl) : Shows (kiumdIoctl i) (IoctlShape i) := by
  obtain ⟨c, request⟩ := i
  cases request with
  | mapBuf => exact kiumdDmabufVfioMap_shows
  | unmapBuf => exact kiumdDmabufVfioUnmap_shows
  | secureMap => exact kiumdDmabufVfioSecureMap_shows
  | secureUnmap => exact kiumdDmabufVfioSecureUnmap_shows
  | mmioMap => exact kiumdMmioSmmuMap_shows
  | mmioUnmap => exact kiumdMmioSmmuUnmap_shows

/-! ## Actions on the memory of entries -/

/-- The action adds an entry to a table. -/
def Act.adds : Act → Bool
  | .add _ _ _ _ | .addMmio _ _ _ _ _ => true
  | _ => false

/-- The action frees the memory of an entry. -/
def Act.frees : Act → Bool
  | .free _ | .delete _ _ | .deleteMmio _ _ => true
  | _ => false

/-- The action writes the memory of an entry. -/
def Act.writesEntry : Act → Bool
  | .alloc _ | .add _ _ _ _ | .addMmio _ _ _ _ _ => true
  | _ => false

/-- The action neither adds nor frees an entry. -/
def Act.isQuiet : Act → Bool
  | .add _ _ _ _ | .addMmio _ _ _ _ _ | .free _ | .delete _ _ | .deleteMmio _ _ => false
  | _ => true

/-- The action neither writes nor frees an entry. -/
def Act.sparesEntries : Act → Bool
  | .alloc _ | .add _ _ _ _ | .addMmio _ _ _ _ _ | .free _ | .delete _ _ | .deleteMmio _ _ => false
  | _ => true

/-- The actions neither write nor free an entry. -/
def SparesEntries (as : List Act) : Prop := ∀ act ∈ as, act.sparesEntries

variable {β : Type} {w w' : World} {c p : Nat} {id : U32} {act : Act} {as bs : List Act}
  {request : KCall β} {answer : β} {trace : List (Event KCall)}

@[simp] theorem sparesEntries_nil : SparesEntries [] := fun _ hact => absurd hact List.not_mem_nil

@[simp] theorem sparesEntries_cons :
    SparesEntries (act :: as) ↔ act.sparesEntries = true ∧ SparesEntries as :=
  List.forall_mem_cons

@[simp] theorem sparesEntries_append :
    SparesEntries (as ++ bs) ↔ SparesEntries as ∧ SparesEntries bs :=
  List.forall_mem_append

theorem Act.isQuiet_of_spares (h : act.sparesEntries = true) : act.isQuiet = true := by
  cases act <;> first | rfl | cases h

theorem Act.not_writes_of_spares (h : act.sparesEntries = true) : act.writesEntry = false := by
  cases act <;> first | rfl | cases h

/-- Only actions that write an entry change it. -/
theorem smaps_step (hstep : kernelStep request w answer = some w')
    (hact : ∀ act ∈ request.act answer, act.writesEntry = false) : w'.smaps = w.smaps := by
  by_cases hwrites : Field.smaps ∈ request.writes
  swap
  · exact step_agrees hstep hwrites
  cases request with
  | kzallocSmap =>
      cases answer with
      | none =>
          cases hstep
          rfl
      | some p => exact absurd (hact _ rfl) (by simp [Act.writesEntry])
  | smmuAdd | smmuAddMmio => exact absurd (hact _ rfl) (by simp [Act.writesEntry])
  | _ => simp [KCall.writes] at hwrites

theorem smaps_steps (h : Steps kernel w trace w')
    (hacts : ∀ act ∈ acts trace, act.writesEntry = false) : w'.smaps = w.smaps := by
  refine @Steps.keep _ _ kernel _ _ _ (fun s => s.smaps = w.smaps) h ?_ rfl
  intro e he s s' hstep hs
  refine (smaps_step hstep fun act hact => ?_).trans hs
  exact hacts act (List.mem_filterMap.mpr ⟨e, he, hact⟩)

/-- The contexts of MMIO mappings are written when an entry is added. -/
theorem mmioCtxs_step (hstep : kernelStep request w answer = some w')
    (hact : ∀ act ∈ request.act answer, act.adds = false) : w'.mmioCtxs = w.mmioCtxs := by
  by_cases hwrites : Field.mmioCtxs ∈ request.writes
  swap
  · exact step_agrees hstep hwrites
  cases request with
  | smmuAddMmio => exact absurd (hact _ rfl) (by simp [Act.adds])
  | _ => simp [KCall.writes] at hwrites

theorem mmioCtxs_steps (h : Steps kernel w trace w')
    (hacts : ∀ act ∈ acts trace, act.adds = false) : w'.mmioCtxs = w.mmioCtxs := by
  refine @Steps.keep _ _ kernel _ _ _ (fun s => s.mmioCtxs = w.mmioCtxs) h ?_ rfl
  intro e he s s' hstep hs
  refine (mmioCtxs_step hstep fun act hact => ?_).trans hs
  exact hacts act (List.mem_filterMap.mpr ⟨e, he, hact⟩)

/-- Only actions that free an entry give its memory back. -/
theorem smap_mem_step (hstep : kernelStep request w answer = some w')
    (hact : ∀ act ∈ request.act answer, act.frees = false) (hp : .smap p ∈ w.held) :
    .smap p ∈ w'.held := by
  cases held_cases hstep with
  | same _ _ hheld => rwa [hheld]
  | taken _ _ hheld =>
      rw [hheld]
      exact Multiset.mem_cons_of_mem hp
  | @given r hgives _ hheld =>
      have hne : .smap p ≠ r := by
        rintro rfl
        cases request <;> cases hgives
        exact absurd (hact _ rfl) (by simp [Act.frees])
      rw [hheld]
      exact (Multiset.mem_erase_of_ne hne).mpr hp
  | deleted hdeletes _ =>
      cases request <;> cases hdeletes <;> exact absurd (hact _ rfl) (by simp [Act.frees])

theorem smap_mem_steps (h : Steps kernel w trace w')
    (hacts : ∀ act ∈ acts trace, act.frees = false) (hp : .smap p ∈ w.held) :
    .smap p ∈ w'.held := by
  refine @Steps.keep _ _ kernel _ _ _ (fun s => .smap p ∈ s.held) h ?_ hp
  intro e he s s' hstep hs
  refine smap_mem_step hstep (fun act hact => ?_) hs
  exact hacts act (List.mem_filterMap.mpr ⟨e, he, hact⟩)

/-- An entry in a table was there before, or has been added. -/
theorem mem_table_step (hstep : kernelStep request w answer = some w') (hp : p ∈ w'.table c) :
    p ∈ w.table c ∨ ∃ act ∈ request.act answer, ∃ id, act.draws c = some (p, id) := by
  by_cases hwrites : Field.ctxs ∈ request.writes
  swap
  · have hctxs : w'.ctxs = w.ctxs := step_agrees hstep hwrites
    rw [World.table, hctxs] at hp
    exact .inl hp
  have hset : ∀ (c' : Nat) (f : KiumdCtx → KiumdCtx),
      (∀ k, p ∈ (f k).smmuTable → p ∈ k.smmuTable) →
      p ∈ (w.setCtx c' f).table c → p ∈ w.table c := by
    intro c' f hf hmem
    by_cases hc : c = c'
    · subst hc
      rw [World.table, World.setCtx_ctxs_self] at hmem
      exact hf _ hmem
    · simpa [World.table, World.setCtx, hc] using hmem
  cases request with
  | smmuAdd c' p' data | smmuAddMmio c' p' m mmio =>
      by_cases hnew : c' = c ∧ p' = p
      · obtain ⟨rfl, rfl⟩ := hnew
        exact .inr ⟨_, rfl, answer, by simp [Act.draws]⟩
      · left
        simp only [kernelStep] at hstep
        split at hstep <;> cases hstep
        by_cases hc : c = c'
        · subst hc
          have hcons : p = p' ∨ p ∈ (w.ctxs c).smmuTable := by
            simpa [World.table, World.setCtx] using hp
          exact hcons.resolve_left fun heq => hnew ⟨rfl, heq.symm⟩
        · simpa [World.table, World.setCtx, hc] using hp
  | smmuDelMmio c' p' =>
      simp only [kernelStep] at hstep
      split at hstep <;> cases hstep <;>
        exact .inl (hset c' (fun k => { k with smmuTable := k.smmuTable.erase p' })
          (fun _ => List.mem_of_mem_erase) hp)
  | smmuDel c' p' | hashDel c' p' =>
      cases hstep
      exact .inl (hset c' (fun k => { k with smmuTable := k.smmuTable.erase p' })
        (fun _ => List.mem_of_mem_erase) hp)
  | setNumReservedRegions | setResMemArea | xaDestroy =>
      cases hstep
      refine .inl (hset _ _ ?_ hp)
      exact fun _ hmem => hmem
  | _ => simp [KCall.writes] at hwrites

/-- The request adds the entry `p` to the table of the context `c`. -/
def AddsEntry (c p : Nat) (as : List Act) : Prop := ∃ act ∈ as, ∃ id, act.draws c = some (p, id)

theorem mem_table_steps (h : Steps kernel w trace w') (hp : p ∈ w'.table c) :
    p ∈ w.table c ∨ AddsEntry c p (acts trace) := by
  induction h with
  | nil => exact .inl hp
  | @cons _ request answer _ _ _ trace hstep _ ih =>
      rcases ih hp with hmem | ⟨act, hact, hdraws⟩
      · rcases mem_table_step hstep hmem with hmem | ⟨act, hact, hdraws⟩
        · exact .inl hmem
        · refine .inr ⟨act, ?_, hdraws⟩
          rw [acts_cons]
          exact List.mem_append_left _ (Option.mem_toList.mpr hact)
      · refine .inr ⟨act, ?_, hdraws⟩
        rw [acts_cons]
        exact List.mem_append_right _ hact

/-- The request adds no entry, or one that it has allocated, which it then leaves alone. -/
inductive AddsOnce (c : Nat) (as : List Act) : Prop where
  | none : (∀ act ∈ as, act.adds = false) → AddsOnce c as
  | one {before between after : List Act} {p : Nat} {act : Act} {id : U32} :
      as = before ++ .alloc p :: (between ++ act :: after) → act.draws c = some (p, id) →
      (∀ act ∈ before, act.isQuiet = true) → (∀ act ∈ between, act.isQuiet = true) →
      (∀ act ∈ after, act.writesEntry = false) → AddsOnce c as

/-- The entry an action adds, with its data. -/
inductive Describes (w : World) (c p : Nat) : Act → Prop where
  | buffer {data : SmmuMapData} {id : U32} : w.smaps p = { data with id := id } →
      Describes w c p (.add c p data id)
  | mmio {m : Nat} {mmio : KiumdSmmuMmioCtx} {id : U32} :
      w.smaps p = { id := id, context := some m } → w.mmioCtxs m = mmio →
      Describes w c p (.addMmio c p m mmio id)

theorem Act.adds_of_draws (h : act.draws c = some (p, id)) : act.adds = true := by
  cases act <;> first | rfl | cases h

theorem Act.adds_of_writes (h : act.writesEntry = false) : act.adds = false := by
  cases act <;> first | rfl | cases h

theorem Act.adds_of_isQuiet (h : act.isQuiet = true) : act.adds = false := by
  cases act <;> first | rfl | cases h

theorem Act.frees_of_isQuiet (h : act.isQuiet = true) : act.frees = false := by
  cases act <;> first | rfl | cases h

/-- The effect of adding an entry on its data. -/
theorem describes_step (hstep : kernelStep request w answer = some w')
    (hact : request.act answer = some act) (hdraws : act.draws c = some (p, id)) :
    Describes w' c p act := by
  have hadds {c' p' : Nat} {id' : U32}
      (heq : (if c' = c then some (p', id') else none) = some (p, id)) :
      c' = c ∧ p' = p ∧ id' = id := by
    split at heq <;> cases heq
    exact ⟨‹_›, rfl, rfl⟩
  cases request with
  | smmuAdd c' p' data =>
      cases hact
      obtain ⟨rfl, rfl, rfl⟩ := hadds hdraws
      simp only [kernelStep] at hstep
      split at hstep <;> cases hstep
      exact .buffer (by simp)
  | smmuAddMmio c' p' m mmio =>
      cases hact
      obtain ⟨rfl, rfl, rfl⟩ := hadds hdraws
      simp only [kernelStep] at hstep
      split at hstep <;> cases hstep
      exact .mmio (by simp) (by simp)
  | copyStructFromUser | fget | pgtblTtbr | dmaBufGet | dmaBufAttach | dmaBufMapAttachment
  | kzallocSmap | devIsPlatform =>
      cases answer <;> cases hact
      cases hdraws
  | dmaMapSgtable | dmaMapResource =>
      simp only [KCall.act] at hact
      split at hact <;> cases hact
      cases hdraws
  | _ =>
      cases hact
      try cases hdraws

/-- The memory of an entry is allocated where none is held. -/
theorem alloc_step (hstep : kernelStep request w answer = some w')
    (hact : request.act answer = some (.alloc p)) : .smap p ∉ w.held ∧ .smap p ∈ w'.held := by
  cases event_of_act hact rfl
  simp only [kernelStep] at hstep
  split at hstep <;> cases hstep
  rename_i hp
  exact ⟨hp, Multiset.mem_cons_self _ _⟩

/-- An entry that is allocated and not freed again is new. -/
theorem alloc_new (h : Steps kernel w trace w') (hacts : acts trace = as ++ .alloc p :: bs)
    (hbefore : ∀ act ∈ as, act.frees = false) (hafter : ∀ act ∈ bs, act.frees = false) :
    .smap p ∉ w.held ∧ .smap p ∈ w'.held := by
  obtain ⟨first, ⟨request, answer⟩, rest, rfl, hfirst, hview, hrest⟩ := Observer.exists_event hacts
  obtain ⟨w₁, hsteps₁, hsteps₂⟩ := steps_append_iff.mp h
  obtain ⟨w₂, hstep, hsteps₃⟩ := steps_cons_iff.mp hsteps₂
  subst hfirst hrest
  obtain ⟨hfresh, hmem⟩ := alloc_step hstep hview
  exact ⟨fun hp => hfresh (smap_mem_steps hsteps₁ hbefore hp), smap_mem_steps hsteps₃ hafter hmem⟩

/-- An entry added was not held before, and afterwards its data are those written. -/
theorem AddsOnce.describes (h : AddsOnce c (acts trace)) (hsteps : Steps kernel w trace w') :
    ∀ c' p, AddsEntry c' p (acts trace) → c' = c ∧ .smap p ∉ w.held ∧
      ∃ act ∈ acts trace, Describes w' c p act := by
  rintro c' p ⟨act', hmem, id', hdraws'⟩
  generalize hacts : acts trace = as at h hmem
  cases h with
  | none hnone =>
      have hadds := Act.adds_of_draws hdraws'
      rw [hnone act' hmem] at hadds
      cases hadds
  | @one before between after p₁ act id heq hdraws hbefore hbetween hafter =>
  subst heq
  have hcases : act' = act := by
    have hadds := Act.adds_of_draws hdraws'
    simp only [List.mem_append, List.mem_cons] at hmem
    rcases hmem with hmem | rfl | hmem | rfl | hmem
    · rw [Act.adds_of_isQuiet (hbefore _ hmem)] at hadds
      cases hadds
    · cases hadds
    · rw [Act.adds_of_isQuiet (hbetween _ hmem)] at hadds
      cases hadds
    · rfl
    · rw [Act.adds_of_writes (hafter _ hmem)] at hadds
      cases hadds
  subst hcases
  obtain ⟨rfl, rfl⟩ : c' = c ∧ p = p₁ := by
    cases act' <;> first | cases hdraws | skip
    all_goals
      simp only [Act.draws] at hdraws hdraws'
      split at hdraws <;> cases hdraws
      split at hdraws' <;> cases hdraws'
      exact ⟨by simp_all, rfl⟩
  obtain ⟨first, ⟨alloc, answer⟩, rest, rfl, hfirst, hview, hrest⟩ := Observer.exists_event hacts
  obtain ⟨w₁, hsteps₁, hsteps₂⟩ := steps_append_iff.mp hsteps
  obtain ⟨w₂, hstep, hsteps₃⟩ := steps_cons_iff.mp hsteps₂
  obtain ⟨second, ⟨add, answer'⟩, last, rfl, _, hview', hlast⟩ := Observer.exists_event hrest
  obtain ⟨w₃, _, hsteps₄⟩ := steps_append_iff.mp hsteps₃
  obtain ⟨w₄, hstep', hsteps₅⟩ := steps_cons_iff.mp hsteps₄
  refine ⟨rfl, fun hp => (alloc_step hstep hview).1 ?_, act', by simp, ?_⟩
  · refine smap_mem_steps hsteps₁ (fun act hact => ?_) hp
    exact Act.frees_of_isQuiet (hbefore act (hfirst ▸ hact))
  · have hsettled : ∀ act ∈ acts last, act.writesEntry = false := fun act hact =>
      hafter act (hlast ▸ hact)
    have hsmaps := smaps_steps hsteps₅ hsettled
    have hmmio := mmioCtxs_steps hsteps₅ fun act hact => Act.adds_of_writes (hsettled act hact)
    cases describes_step hstep' hview' hdraws with
    | buffer hdata => exact .buffer (by rw [hsmaps, hdata])
    | mmio hdata hctx => exact .mmio (by rw [hsmaps, hdata]) (by rw [hmmio, hctx])

/-! ## The shapes -/

theorem sparesEntries_of_isSearch (h : ∀ act ∈ as, act.isSearch) : SparesEntries as := by
  intro act hact
  have hsearch := h act hact
  cases act <;> first | rfl | cases hsearch

theorem sparesEntries_of_isAcl (h : ∀ act ∈ as, act.isAcl) : SparesEntries as := by
  intro act hact
  have hacl := h act hact
  cases act <;> first | rfl | cases hacl

theorem sparesEntries_of_isLooking (h : ∀ act ∈ as, act.isLooking) : SparesEntries as := by
  intro act hact
  have hlooking := h act hact
  cases act <;> first | rfl | cases hlooking

theorem isQuiet_of_isOpening (h : ∀ act ∈ as, act.isOpening) : ∀ act ∈ as, act.isQuiet = true := by
  intro act hact
  have hopening := h act hact
  cases act <;> first | rfl | cases hopening

theorem SparesEntries.isQuiet (h : SparesEntries as) : ∀ act ∈ as, act.isQuiet = true :=
  fun act hact => Act.isQuiet_of_spares (h act hact)

theorem SparesEntries.not_writes (h : SparesEntries as) :
    ∀ act ∈ as, act.writesEntry = false :=
  fun act hact => Act.not_writes_of_spares (h act hact)

theorem AddsOnce.of_isQuiet (h : ∀ act ∈ as, act.isQuiet = true) : AddsOnce c as :=
  .none fun act hact => Act.adds_of_isQuiet (h act hact)

/-- The entry is filled in after its allocation. -/
theorem AddsOnce.of_alloc (hdraws : act.draws c = some (p, id))
    (hbetween : ∀ act ∈ bs, act.isQuiet = true) (hafter : ∀ act ∈ as, act.writesEntry = false) :
    AddsOnce c (.alloc p :: (bs ++ act :: as)) := by
  have hall : Act.alloc p :: (bs ++ act :: as) = [] ++ .alloc p :: (bs ++ act :: as) := rfl
  exact .one hall hdraws (by simp) hbetween hafter

theorem AddsOnce.of_alloc_add {data : SmmuMapData}
    (hafter : ∀ act ∈ as, act.writesEntry = false) :
    AddsOnce c (.alloc p :: .add c p data id :: as) := by
  have hdraws : (Act.add c p data id).draws c = some (p, id) := if_pos rfl
  have hadds : AddsOnce c (.alloc p :: ([] ++ .add c p data id :: as)) :=
    .of_alloc hdraws (by simp) hafter
  exact hadds

/-- Actions before that neither add nor free an entry. -/
theorem AddsOnce.prepend (h : AddsOnce c bs) (has : ∀ act ∈ as, act.isQuiet = true) :
    AddsOnce c (as ++ bs) := by
  cases h with
  | none hnone =>
      refine .none (List.forall_mem_append.mpr ⟨?_, hnone⟩)
      exact fun act hact => Act.adds_of_isQuiet (has act hact)
  | @one before between after p act id heq hdraws hbefore hbetween hafter =>
      have hall : as ++ bs = (as ++ before) ++ .alloc p :: (between ++ act :: after) := by
        rw [heq, List.append_assoc]
      exact .one hall hdraws (List.forall_mem_append.mpr ⟨has, hbefore⟩) hbetween hafter

theorem OffsetShape.sparesEntries {size : U64} {ptselect : Int} {result : Option Int}
    (h : OffsetShape size ptselect as result) : SparesEntries as := by
  cases h with
  | refused _ hsearches => exact sparesEntries_of_isSearch hsearches
  | taken hsearches _ _ =>
      refine sparesEntries_append.mpr ⟨sparesEntries_of_isSearch hsearches, ?_⟩
      simp [reserveActs, Act.sparesEntries]

theorem MapsBuffer.sparesEntries {u : KiumdUser} {a : Attachment} (h : MapsBuffer u a as) :
    SparesEntries as := by
  cases h <;> simp [Act.sparesEntries]

theorem AddressShape.sparesEntries {u : KiumdUser} {t : SgTable} {addr : U64}
    (h : AddressShape u t as addr) : SparesEntries as := by
  cases h <;> simp [Act.sparesEntries]

theorem PageShape.sparesEntries {vmids : List Int} {page : U64} {result : Option Int}
    (h : PageShape vmids page as result) : SparesEntries as := by
  cases h <;> simp [Act.sparesEntries]

theorem AssignShape.sparesEntries {src : U64} {dst : List QcomScmVmperm} {t : SgTable}
    {result : Option Int} (h : AssignShape src dst t as result) : SparesEntries as := by
  intro act hact
  have hassign := h.isSgAssign act hact
  cases act <;> first | rfl | cases hassign

variable {u : KiumdUser} {v : VfioDevice} {d : DmaBuf} {a : Attachment} {result : Option Int}

theorem openActs_isQuiet {file : File} : ∀ act ∈ openActs u p file d, act.isQuiet = true := by
  simp [openActs, Act.isQuiet]

theorem AttachShape.addsOnce (h : AttachShape u c v d as result) : AddsOnce c as := by
  cases h with
  | refused _ => exact .of_isQuiet (by simp [Act.isQuiet])
  | @attached a as _ _ _ hattached =>
  have hattach : ∀ act ∈ [Act.attach d a], act.isQuiet = true := by simp [Act.isQuiet]
  refine AddsOnce.prepend ?_ hattach
  cases hattached with
  | detached _ => exact .of_isQuiet (by simp [Act.isQuiet])
  | undomained _ _ => exact .of_isQuiet (by simp [Act.isQuiet])
  | @mapped maps as _ hmaps hpublish =>
  refine AddsOnce.prepend ?_ hmaps.sparesEntries.isQuiet
  cases hpublish with
  | unpublished _ => exact .none (by simp)
  | @stale addrs p id addr ret _ haddr =>
      refine .of_alloc_add ?_
      refine List.forall_mem_append.mpr ⟨haddr.sparesEntries.not_writes, ?_⟩
      simp [Act.writesEntry]
  | @done addrs p id addr haddr =>
      refine .of_alloc_add ?_
      refine List.forall_mem_append.mpr ⟨haddr.sparesEntries.not_writes, ?_⟩
      simp [Act.writesEntry]

theorem MapShape.addsOnce (h : MapShape u c as result) : AddsOnce c as := by
  cases h with
  | early _ hopening => exact .of_isQuiet (isQuiet_of_isOpening hopening)
  | unreserved _ _ _ hoffset =>
      refine AddsOnce.prepend (AddsOnce.prepend ?_ hoffset.sparesEntries.isQuiet) openActs_isQuiet
      exact .of_isQuiet (by simp [Act.isQuiet])
  | uncookied _ _ _ _ hoffset =>
      refine AddsOnce.prepend (AddsOnce.prepend ?_ hoffset.sparesEntries.isQuiet) openActs_isQuiet
      exact .of_isQuiet (by simp [Act.isQuiet])
  | @reserved p file v d offset as dev offset' _ _ _ _ hoffset _ hattach =>
      refine AddsOnce.prepend (AddsOnce.prepend ?_ hoffset.sparesEntries.isQuiet) openActs_isQuiet
      have hcookie : ∀ act ∈ [Act.cookie dev.domain .msi
          (mapIova (BitVec.ofInt 64 offset') u.ptselect)], act.isQuiet = true := by
        simp [Act.isQuiet]
      exact hattach.addsOnce.prepend hcookie
  | plain _ _ hattach => exact hattach.addsOnce.prepend openActs_isQuiet

theorem SecureAttachedShape.addsOnce {vmids perms : List Int} {page : U64}
    (h : SecureAttachedShape u c vmids perms page d a as result) : AddsOnce c as := by
  cases h with
  | refused _ hhanded =>
      refine AddsOnce.prepend (.of_isQuiet (by simp [Act.isQuiet])) ?_
      rcases hhanded with rfl | hhanded
      · simp
      · exact hhanded.sparesEntries.isQuiet
  | unassigned hhanded _ hgiven =>
      refine AddsOnce.prepend (AddsOnce.prepend ?_ hgiven.sparesEntries.isQuiet)
        hhanded.sparesEntries.isQuiet
      exact .of_isQuiet (by simp [unassignTableActs, unassignPage, Act.isQuiet])
  | unmapped hhanded hgiven =>
      exact .of_isQuiet (List.forall_mem_append.mpr
        ⟨hhanded.sparesEntries.isQuiet, hgiven.sparesEntries.isQuiet⟩)
  | @mapped handed given as _ hhanded hgiven hpublish =>
  have hmap : ∀ act ∈ [Act.mapAttachment a u.unmapDir a.table], act.isQuiet = true := by
    simp [Act.isQuiet]
  have hpublish : AddsOnce c as := by
    cases hpublish with
    | unpublished _ => exact .none (by simp)
    | stale _ hback =>
        refine .of_alloc_add ?_
        have hback := hback.sparesEntries.not_writes
        simpa [Act.writesEntry, unassignTableActs, unassignPage, or_imp, forall_and] using hback
    | done => exact .of_alloc_add (by simp [Act.writesEntry])
  exact ((hpublish.prepend hmap).prepend hgiven.sparesEntries.isQuiet).prepend
    hhanded.sparesEntries.isQuiet

theorem SecureMapShape.addsOnce (h : SecureMapShape u c as result) : AddsOnce c as := by
  cases h with
  | early _ hlooking => exact .of_isQuiet (sparesEntries_of_isLooking hlooking).isQuiet
  | @attached file v page d a entries as _ _ _ _ _ _ _ hattached =>
      have hattach : ∀ act ∈ [Act.attach d a], act.isQuiet = true := by simp [Act.isQuiet]
      have hacl : SparesEntries (aclActs u.memParcel.aclList 0 entries) :=
        sparesEntries_of_isAcl aclActs_isAcl
      have hopen : ∀ act ∈ [Act.file u.vfioFd file, .pgd a.dev.domain page,
          .buffer u.dmaBufFd d], act.isQuiet = true := by
        simp [Act.isQuiet]
      exact ((hattached.addsOnce.prepend hattach).prepend hacl.isQuiet).prepend hopen

/-- None of the actions adds an entry. -/
def AddsNone (as : List Act) : Prop := ∀ act ∈ as, act.adds = false

theorem SparesEntries.addsNone (h : SparesEntries as) : AddsNone as := fun act hact =>
  Act.adds_of_writes (h.not_writes act hact)

theorem addsNone_of_isOpening (h : ∀ act ∈ as, act.isOpening) : AddsNone as := fun act hact =>
  Act.adds_of_isQuiet (isQuiet_of_isOpening h act hact)

theorem MmioMapShape.addsOnce {m : KiumdSmmuMmioMap} {ret₀ : Int}
    (h : MmioMapShape m c ret₀ as result) : AddsOnce c as := by
  cases h with
  | early _ hearly =>
      refine .none fun act hact => ?_
      rcases hearly act hact with hopening | ⟨p, rfl⟩
      · cases act <;> first | rfl | cases hopening
      · rfl
  | notPlatform => exact .none (by simp [Act.adds])
  | @mapped file v dev p n addr size as _ _ _ hresource =>
  have hfix : SparesEntries (fixCookie m dev.domain) := by
    unfold fixCookie
    split <;> simp [Act.sparesEntries]
  have hfree : SparesEntries (freeCookie m dev.domain) := by
    unfold freeCookie
    split <;> simp [Act.sparesEntries]
  have hfile : ∀ act ∈ [Act.file m.vfioFd file], act.isQuiet = true := by simp [Act.isQuiet]
  refine AddsOnce.prepend ?_ hfile
  have hadds {iova : U64} {id : U32} {rest : List Act}
      (hrest : ∀ act ∈ rest, act.writesEntry = false) :
      AddsOnce c (.alloc p :: (fixCookie m dev.domain ++ .mapResource dev addr size iova ::
        (freeCookie m dev.domain ++ .addMmio c p n ⟨dev, iova, size⟩ id :: rest))) := by
    have hdraws : (Act.addMmio c p n ⟨dev, iova, size⟩ id).draws c = some (p, id) := if_pos rfl
    have hbetween : SparesEntries (fixCookie m dev.domain ++
        .mapResource dev addr size iova :: freeCookie m dev.domain) :=
      sparesEntries_append.mpr ⟨hfix, sparesEntries_cons.mpr ⟨rfl, hfree⟩⟩
    have hall := AddsOnce.of_alloc hdraws hbetween.isQuiet hrest
    rwa [List.append_assoc, List.cons_append] at hall
  cases hresource with
  | refused _ =>
      refine .none (List.forall_mem_cons.mpr ⟨rfl, ?_⟩)
      exact List.forall_mem_append.mpr ⟨hfix.addsNone, List.forall_mem_append.mpr
        ⟨hfree.addsNone, by simp [Act.adds]⟩⟩
  | retracted _ => exact hadds (by simp [Act.writesEntry])
  | done => exact hadds (by simp [Act.writesEntry])

theorem addsNone_of_reads (h : ∀ act ∈ as, ∃ data, act = .read p data) : AddsNone as := by
  intro act hact
  obtain ⟨data, rfl⟩ := h act hact
  rfl

theorem clearActs_addsNone {iova size : U64} {ptselect : Int} :
    AddsNone (clearActs iova size ptselect) := by
  unfold clearActs
  split <;> simp [AddsNone, Act.adds]

theorem FinishShape.addsNone (h : FinishShape u c p d a as result) : AddsNone as := by
  cases h with
  | undomained _ hopening => exact addsNone_of_isOpening hopening
  | done hopening =>
      exact List.forall_mem_append.mpr
        ⟨addsNone_of_isOpening hopening, by simp [deleteActs, Act.adds]⟩

theorem UnmappedShape.addsNone (h : UnmappedShape u c p d a as result) : AddsNone as := by
  cases h with
  | failed _ hfailed =>
      intro act hact
      rcases hfailed act hact with hopening | ⟨data, rfl⟩
      · cases act <;> first | rfl | cases hopening
      · rfl
  | privileged _ _ _ _ hfinish | attached _ _ _ hfinish =>
      simpa [AddsNone, Act.adds] using hfinish.addsNone
  | zeroFailed _ _ _ hfailed =>
      refine List.forall_mem_cons.mpr ⟨rfl, List.forall_mem_cons.mpr ⟨rfl, ?_⟩⟩
      intro act hact
      rcases hfailed act hact with hopening | ⟨dom, size, _, rfl⟩
      · cases act <;> first | rfl | cases hopening
      · rfl
  | zero _ _ _ _ hfinish => simpa [AddsNone, Act.adds] using hfinish.addsNone

theorem UnmapShape.addsNone (h : UnmapShape u c as result) : AddsNone as := by
  cases h with
  | early _ hearly =>
      intro act hact
      rw [hearly act hact]
      rfl
  | found _ hrelease =>
      refine List.forall_mem_cons.mpr ⟨rfl, ?_⟩
      cases hrelease with
      | empty _ hreads => exact addsNone_of_reads hreads
      | buffer _ _ hunmapped =>
          refine List.forall_mem_cons.mpr ⟨rfl, List.forall_mem_cons.mpr ⟨rfl, ?_⟩⟩
          exact List.forall_mem_append.mpr ⟨clearActs_addsNone, hunmapped.addsNone⟩

theorem TakeBackShape.addsNone {vmids : List Int} {page : U64} {t : SgTable}
    (h : TakeBackShape c p vmids page a t as result) : AddsNone as := by
  cases h with
  | kept _ hback => exact hback.sparesEntries.addsNone
  | half _ hback _ hrest =>
      refine List.forall_mem_append.mpr ⟨hback.sparesEntries.addsNone, ?_⟩
      rcases hrest with rfl | ⟨data, _, rfl⟩ <;> simp [unassignPage, Act.adds]
  | done hback _ =>
      refine List.forall_mem_append.mpr ⟨hback.sparesEntries.addsNone, ?_⟩
      simp [unassignPage, Act.adds]

theorem SecureUnmapShape.addsNone (h : SecureUnmapShape u c as result) : AddsNone as := by
  cases h with
  | early _ hlooking => exact (sparesEntries_of_isLooking hlooking).addsNone
  | @found file v dev page entries p data data' a t as _ _ _ _ _ _ _ _ _ hback =>
      have hacl : AddsNone (aclActs u.memParcel.aclList 0 entries) :=
        (sparesEntries_of_isAcl aclActs_isAcl).addsNone
      have hrest : AddsNone (.read p data :: .read p data' ::
          .unmapAttachment a t DMA_BIDIRECTIONAL :: as) := by
        simpa [AddsNone, Act.adds] using hback.addsNone
      have hall : AddsNone (aclActs u.memParcel.aclList 0 entries ++ .read p data ::
          .read p data' :: .unmapAttachment a t DMA_BIDIRECTIONAL :: as) :=
        List.forall_mem_append.mpr ⟨hacl, hrest⟩
      simpa [AddsNone, Act.adds] using hall

theorem MmioUnmapShape.addsNone {m : KiumdSmmuMmioMap} (h : MmioUnmapShape m c as result) :
    AddsNone as := by
  cases h with
  | early _ hearly =>
      intro act hact
      rcases hearly act hact with ⟨found, rfl⟩ | ⟨p, data, rfl⟩ <;> rfl
  | done _ _ => simp [AddsNone, Act.adds]

/-- Every ioctl adds at most one entry, which it has allocated. -/
theorem IoctlShape.addsOnce {i : Ioctl} (h : IoctlShape i as result) : AddsOnce i.ctx as := by
  obtain ⟨c, request⟩ := i
  cases request with
  | mapBuf => exact MapShape.addsOnce h
  | unmapBuf => exact .none (UnmapShape.addsNone h)
  | secureMap => exact SecureMapShape.addsOnce h
  | secureUnmap => exact .none (SecureUnmapShape.addsNone h)
  | mmioMap => exact MmioMapShape.addsOnce h
  | mmioUnmap => exact .none (MmioUnmapShape.addsNone h)

/-! ## Old and new entries -/

/-- The entry has the same data in both states. -/
structure SameEntry (w w' : World) (p : Nat) : Prop where
  smap : w'.smaps p = w.smaps p
  mmio : ∀ m, (w.smaps p).context = some m → w'.mmioCtxs m = w.mmioCtxs m

/-- The entries of the tables were there before, with the same data. -/
def EntriesOld (w w' : World) : Prop :=
  ∀ c, ∀ p ∈ w'.table c, p ∈ w.table c ∧ SameEntry w w' p

/-- The entries of the tables were there before, with the same data, or have been allocated. -/
def EntriesKept (w w' : World) : Prop :=
  ∀ c, ∀ p ∈ w'.table c, (p ∈ w.table c ∧ SameEntry w w' p) ∨ .smap p ∉ w.held

theorem SameEntry.trans {w'' : World} (h : SameEntry w w' p) (h' : SameEntry w' w'' p) :
    SameEntry w w'' p := by
  refine ⟨h'.smap.trans h.smap, fun m hm => ?_⟩
  rw [h'.mmio m (by rw [h.smap, hm]), h.mmio m hm]

theorem EntriesKept.trans {w'' : World} (h : EntriesKept w w') (h' : EntriesOld w' w'') :
    EntriesKept w w'' := by
  intro c p hp
  obtain ⟨hp', hsame'⟩ := h' c p hp
  rcases h c p hp' with ⟨hmem, hsame⟩ | hfresh
  · exact .inl ⟨hmem, hsame.trans hsame'⟩
  · exact .inr hfresh

/-- Entries may go. -/
theorem EntriesKept.of_table (htable : ∀ c, ∀ p ∈ w'.table c, p ∈ w.table c)
    (hsmaps : w'.smaps = w.smaps) (hmmio : w'.mmioCtxs = w.mmioCtxs) : EntriesKept w w' :=
  fun c p hp => .inl ⟨htable c p hp, congrFun hsmaps p, fun m _ => congrFun hmmio m⟩

theorem EntriesKept.refl (w : World) : EntriesKept w w := .of_table (fun _ _ hp => hp) rfl rfl

theorem mem_table_unlink {q : Nat} {c' : Nat} (h : q ∈ (w.unlink c p).table c') :
    q ∈ w.table c' := by
  rw [World.table_unlink] at h
  by_cases hc : c' = c
  · subst hc
    rw [Function.update_self] at h
    exact List.mem_of_mem_erase h
  · rwa [Function.update_of_ne hc] at h

theorem entriesKept_skipId : EntriesKept w (w.skipId c) := by
  refine .of_table (fun c' q hq => ?_) rfl rfl
  rwa [World.table_skipId] at hq

/-- An entry that is published has been allocated. -/
theorem entriesKept_publish (fresh : .smap p ∉ w.held)
    (data : SmmuMapData) : EntriesKept w (w.publish c p data) := by
  intro c' q hq
  by_cases hqp : q = p
  · subst hqp
    exact .inr fresh
  · left
    have hq' : q ∈ w.table c' := by
      rw [World.table_publish] at hq
      by_cases hc : c' = c
      · subst hc
        simpa [hqp] using hq
      · simpa [hc] using hq
    exact ⟨hq', by simp [World.publish, hqp], fun _ _ => rfl⟩

theorem entriesKept_publishMmio {m : Nat} {mmio : KiumdSmmuMmioCtx} (hb : Backed noNeeds w 0)
    (fresh : .smap p ∉ w.held) (freshMmio : .mmioCtx m ∉ w.held) :
    EntriesKept w (w.publishMmio c p m mmio) := by
  intro c' q hq
  rcases entriesKept_publish fresh { context := some m } c' q hq with ⟨hmem, hsame⟩ | hnew
  · refine .inl ⟨hmem, hsame.smap, fun n hn => ?_⟩
    have hne : n ≠ m := by
      rintro rfl
      exact freshMmio (hb.mmioCtx_mem hmem hn)
    simp [World.publishMmio, hne]
  · exact .inr hnew

/-- Code that changes no table keeps the entries. -/
theorem Backed.entriesOld {x y : Multiset Resource} {buffers : BufferNeeds}
    (hb : Backed buffers w y) (hsmap : ∀ p, .smap p ∉ y) (hmmio : ∀ m, .mmioCtx m ∉ y)
    (hf : Frame w w' x) : EntriesOld w w' := by
  intro c p hp
  have hp' : p ∈ w.table c := by rwa [World.table, hf.ctxs] at hp
  have hheld : ∀ r ∈ w.entryNeeds buffers p, r ∈ w.held ∨ r ∈ y := fun r hr =>
    Multiset.mem_add.mp (hb.covers.mem hp' hr)
  refine ⟨hp', hf.smaps p ((hheld _ (smap_mem_entryNeeds w p)).resolve_right (hsmap p)), ?_⟩
  intro m hm
  refine hf.mmioCtxs m ((hheld _ ?_).resolve_right (hmmio m))
  simp [entryNeeds_mmio hm]

section Outcomes

variable {kind : SmmuMapData → Attachment → Prop} {late : List (Event KCall) → Prop}

theorem AddOutcome.entriesKept (hb : Backed noNeeds w 0) (h : AddOutcome w c kind trace w') :
    EntriesKept w w' := by
  have hpublished {p : Nat} {d : DmaBuf} {a : Attachment} {data : SmmuMapData}
      {x : Multiset Resource} (fresh : .smap p ∉ w.held) (hbuffer : IsBuffer data d a)
      (hframe : Frame (w.publish c p data) w' x) : EntriesKept w w' :=
    (entriesKept_publish fresh data).trans
      ((hb.publish fresh hbuffer).entriesOld (by simp [noNeeds]) (by simp [noNeeds]) hframe)
  cases h with
  | refused frame => exact (EntriesKept.refl w).trans (hb.entriesOld (by simp) (by simp) frame)
  | published p d a data fresh buffer _ frame => exact hpublished fresh buffer frame
  | stale p d a data fresh buffer _ _ frame => exact hpublished fresh buffer frame

theorem RemoveOutcome.entriesKept (hb : Backed noNeeds w 0)
    (h : RemoveOutcome w c late trace w') : EntriesKept w w' := by
  cases h with
  | kept frame => exact (EntriesKept.refl w).trans (hb.entriesOld (by simp) (by simp) frame)
  | half p d a dev t hp hunmaps _ frame =>
      have hrest : EntriesKept w (w.release (.mapping dev t)) :=
        .of_table (fun _ _ hq => hq) rfl rfl
      have hbacked : Backed noNeeds (w.release (.mapping dev t)) 0 :=
        hb.release fun _ _ _ => mapping_notMem_noNeeds
      exact hrest.trans (hbacked.entriesOld (by simp) (by simp) frame)
  | removed p d a dev t hp hunmaps frame =>
      have hrest : EntriesKept w (w.remove c p d a dev t) :=
        .of_table (fun _ _ hq => mem_table_unlink hq) rfl rfl
      exact hrest.trans ((hb.remove_noNeeds hp hunmaps).entriesOld (by simp) (by simp) frame)

theorem AddMmioOutcome.entriesKept (hb : Backed noNeeds w 0) (h : AddMmioOutcome w c w') :
    EntriesKept w w' := by
  cases h with
  | refused frame => exact (EntriesKept.refl w).trans (hb.entriesOld (by simp) (by simp) frame)
  | retracted frame =>
      exact entriesKept_skipId.trans ((hb.skipId c).entriesOld (by simp) (by simp) frame)
  | published p m mmio fresh freshMmio frame =>
      exact (entriesKept_publishMmio hb fresh freshMmio).trans
        ((hb.publishMmio fresh freshMmio).entriesOld (by simp [mmioNeeds]) (by simp [mmioNeeds])
          frame)

theorem RemoveMmioOutcome.entriesKept (hb : Backed noNeeds w 0) (h : RemoveMmioOutcome w c w') :
    EntriesKept w w' := by
  cases h with
  | kept frame => exact (EntriesKept.refl w).trans (hb.entriesOld (by simp) (by simp) frame)
  | removed p m hp hcontext frame =>
      have hrest : EntriesKept w
          (((w.release (mmioNeeds (w.mmioCtxs m))).release (.mmioCtx m)).delete c p) :=
        .of_table (fun _ _ hq => mem_table_unlink hq) rfl rfl
      exact hrest.trans ((hb.removeMmio hp hcontext).entriesOld (by simp) (by simp) frame)

end Outcomes

/-- Every ioctl keeps the entries, or adds one that it has allocated. -/
theorem kiumdIoctl_entriesKept {i : Ioctl} {result : Option Int} (hb : Backed noNeeds w 0)
    (hexec : Exec kernel (kiumdIoctl i) w trace result w') : EntriesKept w w' := by
  obtain ⟨c, request⟩ := i
  have hlive : ∀ p ∈ (w.ctxs c).smmuTable, .smap p ∈ w.held := fun p hp => hb.smap_mem hp
  cases request with
  | mapBuf => exact AddOutcome.entriesKept hb (wp_exec kiumdDmabufVfioMap_adds hexec)
  | unmapBuf =>
      exact RemoveOutcome.entriesKept hb (wp_exec (kiumdDmabufVfioUnmap_removes hlive) hexec)
  | secureMap => exact AddOutcome.entriesKept hb (wp_exec kiumdDmabufVfioSecureMap_adds hexec)
  | secureUnmap =>
      exact RemoveOutcome.entriesKept hb
        (wp_exec (kiumdDmabufVfioSecureUnmap_removes hlive (hb.shaped c)) hexec)
  | mmioMap => exact AddMmioOutcome.entriesKept hb (wp_exec kiumdMmioSmmuMap_adds hexec)
  | mmioUnmap =>
      have hcontexts : ∀ p ∈ w.table c, ∀ m, (w.smaps p).context = some m → .mmioCtx m ∈ w.held :=
        fun p hp m hm => hb.mmioCtx_mem hp hm
      exact RemoveMmioOutcome.entriesKept hb
        (wp_exec (kiumdMmioSmmuUnmap_removes hlive hcontexts) hexec)

/-! ## Runs -/

/-- The latest request that added the entry `p` to the table of the context `c`, with its
actions. -/
inductive CreatedBy (c p : Nat) : History Ioctl KCall → Ioctl → List Act → Prop where
  | last {history : History Ioctl KCall} {i : Ioctl} {trace : List (Event KCall)} :
      AddsEntry c p (acts trace) → CreatedBy c p ((i, trace) :: history) i (acts trace)
  | before {history : History Ioctl KCall} {i j : Ioctl} {trace : List (Event KCall)}
      {as : List Act} : ¬ AddsEntry c p (acts trace) → CreatedBy c p history i as →
      CreatedBy c p ((j, trace) :: history) i as

/-- The entry was created by the request `i`, which showed the actions `as` and has written the
data of the entry. -/
structure Creation (w : World) (c p : Nat) (i : Ioctl) (as : List Act) : Prop where
  ctx : i.ctx = c
  shape : ∃ result, IoctlShape i as result
  describes : ∃ act ∈ as, Describes w c p act

/-- Every entry is what the request that created it has made it. -/
def Traced (history : History Ioctl KCall) (w : World) : Prop :=
  ∀ c, ∀ p ∈ w.table c, ∃ i as, CreatedBy c p history i as ∧ Creation w c p i as

theorem Describes.same {w' : World} (h : Describes w c p act) (hsame : SameEntry w w' p) :
    Describes w' c p act := by
  cases h with
  | buffer hdata => exact .buffer (hsame.smap.trans hdata)
  | @mmio m mmio id hdata hctx =>
      exact .mmio (hsame.smap.trans hdata) ((hsame.mmio m (by rw [hdata])).trans hctx)

variable {w₀ : World} {history : History Ioctl KCall} {ok : Admission Ioctl KCall World}

/-- In every state of a run the entries are what the requests that created them have made them. -/
theorem run_traced (hstart : w₀.Fresh) (h : Run kernel kiumdIoctl ok w₀ history w) :
    Traced history w := by
  induction h with
  | start =>
      intro c p hp
      rw [hstart.table_nil c] at hp
      exact absurd hp List.not_mem_nil
  | @request history w w' i trace result hrun hexec _ ih =>
      have hb := run_keeps hstart hrun
      have hshape : IoctlShape i (acts trace) result :=
        (kiumdIoctl_shows i).exec driver_admits hexec
      have hadds := hshape.addsOnce.describes hexec.steps
      intro c p hp
      by_cases hnew : AddsEntry c p (acts trace)
      · obtain ⟨rfl, _, hdescribes⟩ := hadds c p hnew
        exact ⟨i, acts trace, .last hnew, rfl, ⟨result, hshape⟩, hdescribes⟩
      · have hmem : p ∈ w.table c := (mem_table_steps hexec.steps hp).resolve_right hnew
        obtain ⟨_, hsame⟩ := (kiumdIoctl_entriesKept hb hexec c p hp).resolve_right
          (not_not.mpr (hb.smap_mem hmem))
        obtain ⟨j, as, hcreated, hctx, hshape', act, hact, hdescribes⟩ := ih c p hmem
        exact ⟨j, as, .before hnew hcreated, hctx, hshape', act, hact, hdescribes.same hsame⟩

end SafeLinux.Kiumd
