import SafeLinux.Kiumd.CloseOutcome
import SafeLinux.Kiumd.Origins

/-!
# Whether a release reverses what was done

A request that releases an entry should unmap what the request that created it has mapped, by the
same interface and with the same arguments, remove the mapping at IOVA zero if there is one, and
take memory back if it was handed over (`Reverses`). The driver works all this out again from the
arguments of the releasing request. `ReleasesFit` is the condition on the two requests under which
it comes to the same, and `run_releases_reverse` shows this for all releases of a run.
-/

namespace SafeLinux.Kiumd

open Effects
open Effects.Program (perform)

/-! ## Reversal -/

/-- What the actions `bs` of a release unmap, remove and take back was mapped, made and handed over
by the actions `as`. -/
structure ReversesOnly (as bs : List Act) : Prop where
  mappings : ∀ m ∈ unmapsOf bs, m ∈ mapsOf as
  zero : ∀ dom ∈ zeroUnmapsOf bs, dom ∈ zeroMapsOf as
  owners : ∀ range ∈ takenBack bs, range ∈ handedOver as

/-- Besides, a mapping at IOVA zero is removed and memory handed over is taken back. -/
structure Reverses (as bs : List Act) : Prop extends ReversesOnly as bs where
  zero_all : ∀ dom ∈ zeroMapsOf as, dom ∈ zeroUnmapsOf bs
  owners_all : ∀ range ∈ handedOver as, range ∈ takenBack bs

/-- The request is one that releases an entry. -/
def Request.releases : Request → Bool
  | .unmapBuf _ | .secureUnmap _ | .mmioUnmap _ => true
  | _ => false

/-- A lookup has found the entry `p` of the context `c`. -/
def Finds (c p : Nat) (bs : List Act) : Prop :=
  ∃ id, .find c id (some p) ∈ bs ∨ .findMmio c id (some p) ∈ bs

/-- The entry `p` has been taken out of the table of the context `c`. -/
def Deletes (c p : Nat) (bs : List Act) : Prop :=
  .delete c p ∈ bs ∨ .deleteMmio c p ∈ bs ∨ .unlink c p ∈ bs

/-- A request that releases an entry reverses only what created the entry that it has found, and
all of it when it deletes the entry; it deletes no other, and unmaps nothing if it finds none. -/
structure ReleasesRight (history : History Ioctl KCall) (i : Ioctl) (bs : List Act) : Prop where
  unfound : i.request.releases = true → (∀ p, ¬ Finds i.ctx p bs) → ReversesOnly [] bs
  deleted : i.request.releases = true → ∀ p, Deletes i.ctx p bs → Finds i.ctx p bs
  reversed : i.request.releases = true → ∀ p j as, Finds i.ctx p bs →
    CreatedBy i.ctx p history j as → ReversesOnly as bs ∧ (Deletes i.ctx p bs → Reverses as bs)

/-- What holds of each request of a history, given the requests before it. -/
def EveryRequest (R : History Ioctl KCall → Ioctl → List Act → Prop) :
    History Ioctl KCall → Prop
  | [] => True
  | (i, trace) :: history => R history i (acts trace) ∧ EveryRequest R history

/-- What holds of the actions of a loop over entries, entry by entry; the loop may end early. -/
inductive EntryByEntry (R : Nat → List Act → Prop) : List Nat → List Act → Prop where
  | nil : EntryByEntry R [] []
  | cons {p : Nat} {rest : List Nat} {as bs : List Act} : R p as → EntryByEntry R rest bs →
      EntryByEntry R (p :: rest) (as ++ bs)
  | halted {p : Nat} {rest : List Nat} {as : List Act} : R p as → EntryByEntry R (p :: rest) as

/-- What closing a context does for the entry `p` reverses only what created the entry, and all of
it when it takes the entry out of the table; it takes no other entry out. -/
structure EntryClosesRight (history : History Ioctl KCall) (c p : Nat) (bs : List Act) : Prop where
  deleted : ∀ q, Deletes c q bs → q = p
  reversed : ∀ j as, CreatedBy c p history j as →
    ReversesOnly as bs ∧ (Deletes c p bs → Reverses as bs)

/-- Closing a context goes through its entries, and does nothing to mappings, owners and tables
besides. -/
def ClosesRight (history : History Ioctl KCall) (c : Nat) (table : List Nat) (bs : List Act) :
    Prop :=
  ∃ entries loop rest, bs = .entries c entries :: (loop ++ rest) ∧ entries.Perm table ∧
    EntryByEntry (EntryClosesRight history c) entries loop ∧ ReversesOnly [] rest ∧
    ∀ p, ¬ Deletes c p rest

/-! ## The condition -/

/-- UNMAP_BUF with the arguments `u` fits an entry that MAP_BUF has created with the arguments `u₁`
and the actions `as`: neither is privileged, both have the same direction, `u` asks for the mapping
at IOVA zero exactly when it was made, and its file is that of a device in the same domain. -/
structure UnmapFits (u u₁ : KiumdUser) (as bs : List Act) : Prop where
  plain : ¬ u.Privileged
  plain₁ : ¬ u₁.Privileged
  direction : u.unmapDir = u₁.mapDir
  zero : u.isIovaZero = FIXED_IOVA_AT_ZERO ↔ zeroMapsOf as ≠ []
  device : ∀ file v dev, .file u.vfioFd file ∈ bs → file.privateData = some (some v) →
    v.dev = some dev → ∀ dom ∈ zeroMapsOf as, dom = dev.domain

/-- SECURE_UNMAP fits an entry that SECURE_MAP has created with the arguments `u₁` and the actions
`as`: the buffer was mapped in both directions, and the device has the page-table page that was
handed over. -/
structure SecureUnmapFits (u₁ : KiumdUser) (as bs : List Act) : Prop where
  direction : u₁.unmapDir = DMA_BIDIRECTIONAL
  page : ∀ dom page, .pgd dom page ∈ bs → .pgd page ∈ handedOver as

/-- Whether the request that has found an entry fits the request that has created it. -/
def RequestFits (i j : Request) (as bs : List Act) : Prop :=
  match i, j with
  | .unmapBuf u, .mapBuf u₁ => UnmapFits u u₁ as bs
  | .secureUnmap _, .secureMap u₁ => SecureUnmapFits u₁ as bs
  | .unmapBuf _, .secureMap _ | .secureUnmap _, .mapBuf _ => False
  | _, _ => True

/-- The condition that the requests which release entries fit those that have created them. -/
def ReleasesFit : Admission Ioctl KCall World := fun history i _ trace =>
  ∀ p j as, Finds i.ctx p (acts trace) → CreatedBy i.ctx p history j as →
    RequestFits i.request j.request as (acts trace)

/-- The condition that a context has no entry for a buffer which `kiumd_close` unmaps otherwise than
it was mapped: of the buffers that it does not skip, none was mapped by a privileged request, and
the mapping at IOVA zero was made if the request asked for it. -/
def CloseFits (history : History Ioctl KCall) (w : World) (c : Nat) : Prop :=
  ∀ p ∈ w.table c, ∀ i u as, CreatedBy c p history i as → i.request = .mapBuf u →
    ¬ (IsKgsl u.ptselect ∨ u.ptselect = KGSL_DEFAULT_PT) →
    ¬ u.Privileged ∧ (u.isIovaZero = FIXED_IOVA_AT_ZERO → zeroMapsOf as ≠ [])

/-! ## What a release reads -/

section

variable {β : Type} {w w' : World} {c p : Nat} {data : SmmuMapData} {request : KCall β}
  {answer : β} {trace : List (Event KCall)} {before after : List Act}

/-- Memory that is held is read as it is. -/
theorem read_held_step (hstep : kernelStep request w answer = some w')
    (hact : request.act answer = some (.read p data)) (hp : .smap p ∈ w.held) :
    data = w.smaps p := by
  cases event_of_act hact rfl
  simp only [kernelStep] at hstep
  split at hstep
  · rename_i hdata
    exact hdata hp
  · cases hstep

/-- What a lookup finds is in the table, and has a region if the lookup asks for one. -/
theorem find_step {act : Act} {id : U32} (hstep : kernelStep request w answer = some w')
    (hact : request.act answer = some act)
    (hfinds : act = .find c id (some p) ∨ act = .findMmio c id (some p)) :
    p ∈ w.table c ∧ (act = .findMmio c id (some p) → ∃ m, (w.smaps p).context = some m) := by
  rcases hfinds with rfl | rfl
  · cases event_of_act hact rfl
    exact ⟨find_mem hstep, fun hmmio => nomatch hmmio⟩
  · cases event_of_act hact rfl
    obtain ⟨hmem, hcontext⟩ := findMmio_mem hstep
    exact ⟨hmem, fun _ => hcontext⟩

/-- As long as no entry is written or freed, memory that is held is read as it was at first. -/
theorem read_held_steps (h : Steps kernel w trace w')
    (hacts : acts trace = before ++ .read p data :: after)
    (hbefore : SparesEntries before) (hp : .smap p ∈ w.held) : data = w.smaps p := by
  obtain ⟨first, ⟨request, answer⟩, rest, rfl, hfirst, hview, _⟩ := Observer.exists_event hacts
  obtain ⟨w₁, hsteps₁, hsteps₂⟩ := steps_append_iff.mp h
  obtain ⟨w₂, hstep, _⟩ := steps_cons_iff.mp hsteps₂
  subst hfirst
  have hsmaps := smaps_steps hsteps₁ fun act hact => Act.not_writes_of_spares (hbefore act hact)
  have hheld := smap_mem_steps hsteps₁
    (fun act hact => Act.frees_of_isQuiet (Act.isQuiet_of_spares (hbefore act hact))) hp
  rw [← hsmaps]
  exact read_held_step hstep hview hheld

/-- As long as no entry is added, what a lookup finds was in the table at first. -/
theorem find_steps {act : Act} {id : U32} (h : Steps kernel w trace w')
    (hacts : acts trace = before ++ act :: after) (hbefore : SparesEntries before)
    (hfinds : act = .find c id (some p) ∨ act = .findMmio c id (some p)) :
    p ∈ w.table c ∧ (act = .findMmio c id (some p) → ∃ m, (w.smaps p).context = some m) := by
  obtain ⟨first, ⟨request, answer⟩, rest, rfl, hfirst, hview, _⟩ := Observer.exists_event hacts
  obtain ⟨w₁, hsteps₁, hsteps₂⟩ := steps_append_iff.mp h
  obtain ⟨w₂, hstep, _⟩ := steps_cons_iff.mp hsteps₂
  subst hfirst
  have hsmaps := smaps_steps hsteps₁ fun act hact => Act.not_writes_of_spares (hbefore act hact)
  obtain ⟨hmem, hcontext⟩ := find_step hstep hview hfinds
  rw [hsmaps] at hcontext
  refine ⟨(mem_table_steps hsteps₁ hmem).resolve_right ?_, hcontext⟩
  rintro ⟨act', hact', id', hdraws⟩
  have hadds := Act.adds_of_draws hdraws
  rw [hbefore.addsNone act' hact'] at hadds
  cases hadds

end

/-! ## UNMAP_BUF -/

/-- The action neither finds nor deletes an entry, and concerns no mapping and no owner. -/
def Act.isPassive : Act → Bool
  | .find _ _ _ | .findMmio _ _ _ | .delete _ _ | .deleteMmio _ _ | .unlink _ _ => false
  | act => act.isInert

/-- The action finds an entry. -/
def Act.isFind : Act → Bool
  | .find _ _ _ | .findMmio _ _ _ => true
  | _ => false

/-- The action takes an entry out of its table. -/
def Act.isDelete : Act → Bool
  | .delete _ _ | .deleteMmio _ _ | .unlink _ _ => true
  | _ => false

/-- All actions are passive. -/
def Passive (as : List Act) : Prop := ∀ act ∈ as, act.isPassive = true

variable {as bs : List Act} {act : Act} {u : KiumdUser} {c p q : Nat} {d : DmaBuf}
  {a : Attachment} {result : Option Int} {w w' : World} {trace : List (Event KCall)} {j : Request}

namespace Passive

theorem append (h : Passive as) (h' : Passive bs) : Passive (as ++ bs) :=
  List.forall_mem_append.mpr ⟨h, h'⟩

theorem cons (h : act.isPassive = true) (has : Passive as) : Passive (act :: as) :=
  List.forall_mem_cons.mpr ⟨h, has⟩

theorem inert (h : Passive as) : Inert as := fun act hact => by
  have hpassive := h act hact
  cases act <;> first | rfl | cases hpassive

theorem no_find (h : Passive as) : ∀ act ∈ as, act.isFind = false := fun act hact => by
  have hpassive := h act hact
  cases act <;> first | rfl | cases hpassive

theorem no_delete (h : Passive as) : ∀ act ∈ as, act.isDelete = false := fun act hact => by
  have hpassive := h act hact
  cases act <;> first | rfl | cases hpassive

end Passive

theorem passive_of_isOpening (h : ∀ act ∈ as, act.isOpening = true) : Passive as :=
  fun act hact => by
    have hopening := h act hact
    cases act <;> first | rfl | cases hopening

theorem clearActs_passive {iova size : U64} {ptselect : Int} :
    Passive (clearActs iova size ptselect) := by
  unfold clearActs
  split <;> simp [Passive, Act.isPassive, Act.isInert]

theorem clearActs_sparesEntries {iova size : U64} {ptselect : Int} :
    SparesEntries (clearActs iova size ptselect) := by
  unfold clearActs
  split <;> simp [Act.sparesEntries]

theorem not_deletes (h : ∀ act ∈ as, act.isDelete = false) : ¬ Deletes c p as := by
  rintro (hmem | hmem | hmem) <;> cases h _ hmem

theorem deletes_append : Deletes c p (as ++ bs) ↔ Deletes c p as ∨ Deletes c p bs := by
  simp only [Deletes, List.mem_append]
  tauto

/-- An entry is deleted after actions that delete none. -/
theorem Deletes.late {first : List Act} (h : Deletes c p (first ++ bs))
    (hfirst : ∀ act ∈ first, act.isDelete = false) : Deletes c p bs :=
  (deletes_append.mp h).resolve_left (not_deletes hfirst)

/-- No other entry than `p` is deleted. -/
def OnlyDeletes (c p : Nat) (as : List Act) : Prop := ∀ q, Deletes c q as → q = p

namespace OnlyDeletes

theorem of_kept (h : ∀ act ∈ as, act.isDelete = false) : OnlyDeletes c p as :=
  fun _ hdeletes => absurd hdeletes (not_deletes h)

theorem append (h : OnlyDeletes c p as) (h' : OnlyDeletes c p bs) : OnlyDeletes c p (as ++ bs) :=
  fun q hdeletes => (deletes_append.mp hdeletes).elim (h q) (h' q)

theorem cons (h : act.isDelete = false) (h' : OnlyDeletes c p bs) : OnlyDeletes c p (act :: bs) :=
  append (of_kept (List.forall_mem_singleton.mpr h)) h'

end OnlyDeletes

/-- The entry found is that of the one lookup. -/
theorem Finds.eq {id : U32} (h : Finds c p (.find c id (some q) :: as))
    (has : ∀ act ∈ as, act.isFind = false) : p = q := by
  obtain ⟨id', hmem | hmem⟩ := h
  · rcases List.mem_cons.mp hmem with heq | hmem
    · cases heq
      rfl
    · cases has _ hmem
  · rcases List.mem_cons.mp hmem with heq | hmem
    · cases heq
    · cases has _ hmem

/-- The end of UNMAP_BUF concerns no mapping and finds no entry. -/
theorem FinishShape.inert (h : FinishShape u c p d a as result) :
    Inert as ∧ ∀ act ∈ as, act.isFind = false := by
  cases h with
  | undomained _ hopening =>
      have hpassive := passive_of_isOpening hopening
      exact ⟨hpassive.inert, hpassive.no_find⟩
  | done hopening =>
      have hpassive := passive_of_isOpening hopening
      refine ⟨hpassive.inert.append (by simp [Inert, deleteActs, Act.isInert]), ?_⟩
      exact List.forall_mem_append.mpr ⟨hpassive.no_find, by simp [deleteActs, Act.isFind]⟩

/-- Actions that concern no mapping reverse nothing. -/
theorem reversesOnly_of_inert (h : Inert bs) : ReversesOnly as bs := by
  refine ⟨?_, ?_, ?_⟩
  · rw [h.unmapsOf_eq]
    simp
  · rw [h.zeroUnmapsOf_eq]
    simp
  · rw [h.takenBack_eq]
    simp

/-- Nothing else is to be reversed. -/
theorem ReversesOnly.all (h : ReversesOnly as bs) (hzero : zeroMapsOf as = [])
    (howners : handedOver as = []) : Reverses as bs :=
  { h with
    zero_all := by
      rw [hzero]
      simp
    owners_all := by
      rw [howners]
      simp }

/-- UNMAP_BUF removes a mapping at IOVA zero in the domain of the device of its file. -/
def RemovesOwnZero (u : KiumdUser) (as : List Act) : Prop :=
  ∀ dom ∈ zeroUnmapsOf as, ∃ file v dev, .file u.vfioFd file ∈ as ∧
    file.privateData = some (some v) ∧ v.dev = some dev ∧ dom = dev.domain

namespace RemovesOwnZero

theorem of_nil (h : zeroUnmapsOf as = []) : RemovesOwnZero u as := by
  rw [RemovesOwnZero, h]
  exact nofun

theorem append (h : RemovesOwnZero u as) (h' : RemovesOwnZero u bs) :
    RemovesOwnZero u (as ++ bs) := by
  intro dom hdom
  rw [zeroUnmapsOf_append] at hdom
  rcases List.mem_append.mp hdom with hdom | hdom
  · obtain ⟨file, v, dev, hfile, hdev⟩ := h dom hdom
    exact ⟨file, v, dev, List.mem_append_left _ hfile, hdev⟩
  · obtain ⟨file, v, dev, hfile, hdev⟩ := h' dom hdom
    exact ⟨file, v, dev, List.mem_append_right _ hfile, hdev⟩

theorem prepend (h : RemovesOwnZero u bs) (has : zeroUnmapsOf as = []) :
    RemovesOwnZero u (as ++ bs) :=
  (of_nil has).append h

end RemovesOwnZero

theorem unmapFinish_ownZero :
    Shows (unmapFinish c u p d a) fun acts _ => RemovesOwnZero u acts :=
  unmapFinish_shows.mono fun _ _ h => .of_nil h.inert.1.zeroUnmapsOf_eq

theorem unmapIovaZero_ownZero :
    Shows (unmapIovaZero c u p d a) fun acts _ => RemovesOwnZero u acts := by
  unfold unmapIovaZero
  refine shows_bind kiumdGetIommuDomain_shows ?_ ?_
  · intro acts found hfound
    cases hfound with
    | missing hopening =>
        refine shows_pure ?_
        rw [List.append_nil]
        exact .of_nil (inert_of_isOpening hopening).zeroUnmapsOf_eq
    | @found file v dev hprivate hdev =>
        refine shows_act _ (fun _ => rfl) fun size _ => ?_
        have hunmap : RemovesOwnZero u
            [.file u.vfioFd file, .unmap dev.domain 0 d.size size] := by
          intro dom hdom
          obtain rfl : dev.domain = dom := by simpa [zeroUnmapsOf, Act.unmapsZero] using hdom
          exact ⟨file, v, dev, List.mem_cons_self, hprivate, hdev, rfl⟩
        split
        · exact shows_pure hunmap
        · exact unmapFinish_ownZero.mono fun _ _ h => hunmap.append h
  · intro acts hhalted
    cases hhalted with
    | halted hopening => exact .of_nil (inert_of_isOpening hopening).zeroUnmapsOf_eq

/-- A privileged unmapping removes no mapping at IOVA zero. -/
theorem UnmappedShape.ownZero (h : UnmappedShape u c p d a as result) (hu : u.Privileged) :
    RemovesOwnZero u as := by
  cases h with
  | failed _ hfailed =>
      refine .of_nil (Inert.zeroUnmapsOf_eq fun act hact => ?_)
      rcases hfailed act hact with hopening | ⟨data, rfl⟩
      · cases act <;> first | rfl | cases hopening
      · rfl
  | @privileged file v dev t acts _ _ _ _ _ hfinish =>
      have hrest : RemovesOwnZero u acts := .of_nil hfinish.inert.1.zeroUnmapsOf_eq
      have hbefore : zeroUnmapsOf
          [.file u.vfioFd file, .unmapSgtable dev t u.unmapDir DMA_ATTR_PRIVILEGED] = [] := rfl
      exact hrest.prepend hbefore
  | attached hprivileged => exact absurd hu hprivileged
  | zeroFailed hzero | zero hzero => exact absurd hzero hu.2

theorem kiumdDmabufVfioUnmap_ownZero :
    Shows (kiumdDmabufVfioUnmap u (some (some c))) fun acts _ => RemovesOwnZero u acts := by
  unfold kiumdDmabufVfioUnmap
  refine shows_idle (fun _ => rfl) fun copied _ => ?_
  split
  · exact shows_pure (.of_nil rfl)
  split
  · exact shows_pure (.of_nil rfl)
  refine shows_act _ (fun _ => rfl) fun found _ => ?_
  cases found with
  | none => exact shows_pure (.of_nil rfl)
  | some p =>
  refine shows_act _ (fun _ => rfl) fun data _ => ?_
  cases data.dmabufPtr with
  | none => exact shows_pure (.of_nil rfl)
  | some d =>
  refine shows_act _ (fun _ => rfl) fun data' _ => ?_
  cases data'.dmabufattach with
  | none => exact shows_pure (.of_nil rfl)
  | some a =>
  dsimp only
  refine shows_bind clearMapIova_shows ?_ fun acts h => by cases h.2
  rintro _ _ ⟨rfl, -⟩
  have hbefore : ∀ (as : List Act) {bs : List Act}, zeroUnmapsOf as = [] → RemovesOwnZero u bs →
      RemovesOwnZero u (.find c u.id (some p) :: .read p data :: .read p data' ::
        (clearActs u.dmaAddr d.size u.ptselect ++ (as ++ bs))) := by
    intro as bs has hbs
    have hclear : zeroUnmapsOf (.find c u.id (some p) :: .read p data :: .read p data' ::
        clearActs u.dmaAddr d.size u.ptselect) = [] :=
      clearActs_passive.inert.zeroUnmapsOf_eq
    exact (hbs.prepend has).prepend hclear
  split
  · refine shows_call fun file _ => ?_
    cases file with
    | none => exact shows_pure (hbefore [] rfl (.of_nil rfl))
    | some file =>
        exact (unmapPrivileged_shows ‹_›).mono fun _ _ h => hbefore [] rfl (h.ownZero ‹_›)
  · refine shows_act _ (fun _ => rfl) fun data'' _ => ?_
    cases data''.sgtPtr with
    | none => exact shows_pure (hbefore [.read p data''] rfl (.of_nil rfl))
    | some t =>
        refine shows_act _ (fun _ => rfl) fun _ _ => ?_
        split
        · exact unmapIovaZero_ownZero.mono fun _ _ h =>
            hbefore [.read p data'', .unmapAttachment a t u.unmapDir] rfl h
        · exact unmapFinish_ownZero.mono fun _ _ h =>
            hbefore [.read p data'', .unmapAttachment a t u.unmapDir] rfl h

/-- No action on the entry found is a lookup. -/
theorem UnmappedShape.no_find (h : UnmappedShape u c p d a as result) :
    ∀ act ∈ as, act.isFind = false := by
  cases h with
  | failed _ hfailed =>
      intro act hact
      rcases hfailed act hact with hopening | ⟨data, rfl⟩
      · cases act <;> first | rfl | cases hopening
      · rfl
  | privileged _ _ _ _ hfinish | attached _ _ _ hfinish | zero _ _ _ _ hfinish =>
      simpa [Act.isFind] using hfinish.inert.2
  | zeroFailed _ _ _ hfailed =>
      refine List.forall_mem_cons.mpr ⟨rfl, List.forall_mem_cons.mpr ⟨rfl, ?_⟩⟩
      intro act hact
      rcases hfailed act hact with hopening | ⟨dom, size, _, rfl⟩
      · cases act <;> first | rfl | cases hopening
      · rfl

theorem ReleaseShape.no_find (h : ReleaseShape u c p as result) :
    ∀ act ∈ as, act.isFind = false := by
  cases h with
  | empty _ hreads =>
      intro act hact
      obtain ⟨data, rfl⟩ := hreads act hact
      rfl
  | buffer _ _ hunmapped =>
      refine List.forall_mem_cons.mpr ⟨rfl, List.forall_mem_cons.mpr ⟨rfl, ?_⟩⟩
      exact List.forall_mem_append.mpr ⟨clearActs_passive.no_find, hunmapped.no_find⟩

theorem FinishShape.onlyDeletes (h : FinishShape u c p d a as result) : OnlyDeletes c p as := by
  cases h with
  | undomained _ hopening => exact .of_kept (passive_of_isOpening hopening).no_delete
  | done hopening =>
      refine .append (.of_kept (passive_of_isOpening hopening).no_delete) fun q hdeletes => ?_
      simpa [Deletes, deleteActs] using hdeletes

/-- Only the entry found is deleted. -/
theorem UnmappedShape.onlyDeletes (h : UnmappedShape u c p d a as result) : OnlyDeletes c p as := by
  cases h with
  | failed _ hfailed =>
      refine .of_kept fun act hact => ?_
      rcases hfailed act hact with hopening | ⟨data, rfl⟩
      · cases act <;> first | rfl | cases hopening
      · rfl
  | privileged _ _ _ _ hfinish => exact .cons rfl (.cons rfl hfinish.onlyDeletes)
  | attached _ _ _ hfinish => exact .cons rfl (.cons rfl hfinish.onlyDeletes)
  | zeroFailed _ _ _ hfailed =>
      refine .cons rfl (.cons rfl (.of_kept fun act hact => ?_))
      rcases hfailed act hact with hopening | ⟨dom, size, _, rfl⟩
      · cases act <;> first | rfl | cases hopening
      · rfl
  | zero _ _ _ _ hfinish =>
      exact .cons rfl (.cons rfl (.cons rfl (.cons rfl hfinish.onlyDeletes)))

theorem ReleaseShape.onlyDeletes (h : ReleaseShape u c p as result) : OnlyDeletes c p as := by
  cases h with
  | empty _ hreads =>
      refine .of_kept fun act hact => ?_
      obtain ⟨data, rfl⟩ := hreads act hact
      rfl
  | buffer _ _ hunmapped =>
      exact .cons rfl (.cons rfl
        (.append (.of_kept clearActs_passive.no_delete) hunmapped.onlyDeletes))

/-- Actions that neither delete an entry nor concern a mapping reverse nothing. -/
theorem Passive.reverses (h : Passive bs) :
    ReversesOnly as bs ∧ (Deletes c p bs → Reverses as bs) :=
  ⟨reversesOnly_of_inert h.inert, fun hdeletes => absurd hdeletes (not_deletes h.no_delete)⟩

/-- Actions at the beginning that concern no mapping and delete no entry change nothing. -/
theorem reverses_append {first : List Act} (hfirst : Inert first)
    (hkept : ∀ act ∈ first, act.isDelete = false)
    (h : ReversesOnly as bs ∧ (Deletes c p bs → Reverses as bs)) :
    ReversesOnly as (first ++ bs) ∧ (Deletes c p (first ++ bs) → Reverses as (first ++ bs)) := by
  have hunmaps : unmapsOf (first ++ bs) = unmapsOf bs := by
    rw [unmapsOf_append, hfirst.unmapsOf_eq, List.nil_append]
  have hzero : zeroUnmapsOf (first ++ bs) = zeroUnmapsOf bs := by
    rw [zeroUnmapsOf_append, hfirst.zeroUnmapsOf_eq, List.nil_append]
  have howners : takenBack (first ++ bs) = takenBack bs := by
    rw [takenBack_append, hfirst.takenBack_eq, List.nil_append]
  have honly : ReversesOnly as (first ++ bs) := by
    refine ⟨?_, ?_, ?_⟩
    · rw [hunmaps]
      exact h.1.mappings
    · rw [hzero]
      exact h.1.zero
    · rw [howners]
      exact h.1.owners
  refine ⟨honly, fun hdeletes => ?_⟩
  have hall := h.2 (hdeletes.late hkept)
  refine { honly with zero_all := ?_, owners_all := ?_ }
  · rw [hzero]
    exact hall.zero_all
  · rw [howners]
    exact hall.owners_all

/-- A buffer that is not mapped by a privileged request is mapped by its attachment. -/
theorem MapsBuffer.attachment_mem {maps : List Act} (h : MapsBuffer u a maps)
    (hplain : ¬ u.Privileged) :
    .attachment a a.table u.mapDir ∈ mapsOf maps := by
  cases h with
  | privileged hprivileged _ => exact absurd hprivileged hplain
  | attached _ _ | zero _ _ => simp [mapsOf, Act.maps]

/-- UNMAP_BUF on a buffer that MAP_BUF has mapped with fitting arguments. -/
theorem UnmappedShape.reverses {u₁ : KiumdUser} {maps : List Act}
    (h : UnmappedShape u c p d a bs result)
    (hread : ∀ data rest, bs = .read p data :: rest → data.sgtPtr = some a.table)
    (hmaps : MapsBuffer u₁ a maps) (hmade : mapsOf as = mapsOf maps)
    (hhanded : handedOver as = []) (hplain : ¬ u.Privileged) (hplain₁ : ¬ u₁.Privileged)
    (hdir : u.unmapDir = u₁.mapDir)
    (hasked : u.isIovaZero = FIXED_IOVA_AT_ZERO ↔ zeroMapsOf as ≠ [])
    (hdom : ∀ dom ∈ zeroUnmapsOf bs, ∀ dom' ∈ zeroMapsOf as, dom' = dom) :
    ReversesOnly as bs ∧ (Deletes c p bs → Reverses as bs) := by
  have hattached : .attachment a a.table u.unmapDir ∈ mapsOf as := by
    rw [hmade, hdir]
    exact hmaps.attachment_mem hplain₁
  have hzero : u.isIovaZero = FIXED_IOVA_AT_ZERO → ∀ dom ∈ zeroUnmapsOf bs,
      dom ∈ zeroMapsOf as := by
    intro hfixed dom hmem
    obtain ⟨dom', hmem'⟩ := List.exists_mem_of_ne_nil _ (hasked.mp hfixed)
    rw [← hdom dom hmem dom' hmem']
    exact hmem'
  -- A plain unmapping unmaps the attachment and may remove the mapping at IOVA zero.
  have honly : ∀ {data : SmmuMapData} {t : SgTable} {acts : List Act},
      bs = .read p data :: .unmapAttachment a t u.unmapDir :: acts → data.sgtPtr = some t →
      unmapsOf acts = [] → takenBack acts = [] →
      (∀ dom ∈ zeroUnmapsOf bs, dom ∈ zeroMapsOf as) → ReversesOnly as bs := by
    intro data t acts hbs hsgt hunmaps htaken hremoves
    obtain rfl : t = a.table := Option.some.inj (hsgt.symm.trans (hread data _ hbs))
    refine ⟨?_, hremoves, ?_⟩
    · intro m hm
      have hm' : m ∈ DmaMapping.attachment a a.table u.unmapDir :: unmapsOf acts := by
        rwa [hbs] at hm
      rw [hunmaps] at hm'
      rw [List.mem_singleton.mp hm']
      exact hattached
    · intro range hrange
      have hrange' : range ∈ takenBack acts := by rwa [hbs] at hrange
      rw [htaken] at hrange'
      exact absurd hrange' List.not_mem_nil
  cases h with
  | failed _ hfailed =>
      refine Passive.reverses fun act hact => ?_
      rcases hfailed act hact with hopening | ⟨data, rfl⟩
      · cases act <;> first | rfl | cases hopening
      · rfl
  | privileged hprivileged => exact absurd hprivileged hplain
  | @attached data t acts _ _ hfixed hsgt hfinish =>
      have hinert := hfinish.inert.1
      have hnone : zeroMapsOf as = [] := not_not.mp (mt hasked.mpr hfixed)
      have hreverses := honly rfl hsgt hinert.unmapsOf_eq hinert.takenBack_eq fun dom hmem => by
        have hmem' : dom ∈ zeroUnmapsOf acts := hmem
        rw [hinert.zeroUnmapsOf_eq] at hmem'
        exact absurd hmem' List.not_mem_nil
      exact ⟨hreverses, fun _ => hreverses.all hnone hhanded⟩
  | @zeroFailed data t acts _ hfixed hsgt _ hfailed =>
      have hquiet : ∀ act ∈ acts, act.unmaps = none ∧ act.takesBack = none ∧
          act.isDelete = false := by
        intro act hact
        rcases hfailed act hact with hopening | ⟨dom, size, _, rfl⟩
        · cases act <;> first | exact ⟨rfl, rfl, rfl⟩ | cases hopening
        · exact ⟨rfl, rfl, rfl⟩
      refine ⟨honly rfl hsgt (List.filterMap_eq_nil_iff.mpr fun act hact => (hquiet act hact).1)
        (List.filterMap_eq_nil_iff.mpr fun act hact => (hquiet act hact).2.1) (hzero hfixed), ?_⟩
      refine fun hdeletes => absurd hdeletes (not_deletes ?_)
      exact List.forall_mem_cons.mpr ⟨rfl, List.forall_mem_cons.mpr
        ⟨rfl, fun act hact => (hquiet act hact).2.2⟩⟩
  | @zero data t file v dev acts _ hfixed hsgt _ _ hfinish =>
      have hinert := hfinish.inert.1
      have hreverses := honly rfl hsgt
        (show unmapsOf acts = [] from hinert.unmapsOf_eq)
        (show takenBack acts = [] from hinert.takenBack_eq) (hzero hfixed)
      refine ⟨hreverses, fun _ => { hreverses with zero_all := ?_, owners_all := ?_ }⟩
      · intro dom' hmem'
        have hmem : dev.domain ∈ zeroUnmapsOf (.read p data :: .unmapAttachment a t u.unmapDir ::
            .file u.vfioFd file :: .unmap dev.domain 0 d.size d.size :: acts) :=
          List.mem_cons_self
        rw [hdom dev.domain hmem dom' hmem']
        exact hmem
      · rw [hhanded]
        simp

/-- Without an entry found nothing is changed, and only entries found are deleted. -/
structure Accounted (c : Nat) (bs : List Act) : Prop where
  unfound : (∀ p, ¬ Finds c p bs) → ReversesOnly [] bs
  deleted : ∀ p, Deletes c p bs → Finds c p bs

theorem Accounted.of_inert (h : Inert bs) (hkept : ∀ act ∈ bs, act.isDelete = false) :
    Accounted c bs :=
  ⟨fun _ => reversesOnly_of_inert h, fun _ hdeletes => absurd hdeletes (not_deletes hkept)⟩

theorem Accounted.of_found (hfinds : Finds c p bs) (honly : OnlyDeletes c p bs) :
    Accounted c bs :=
  ⟨fun hnone => absurd hfinds (hnone p), fun q hdeletes => honly q hdeletes ▸ hfinds⟩

theorem UnmapShape.accounted (h : UnmapShape u c bs result) : Accounted c bs := by
  cases h with
  | early _ hearly =>
      refine .of_inert (fun act hact => ?_) fun act hact => ?_
      · rw [hearly act hact]
        rfl
      · rw [hearly act hact]
        rfl
  | found _ hrelease =>
      exact .of_found ⟨u.id, .inl List.mem_cons_self⟩ (.cons rfl hrelease.onlyDeletes)

/-- UNMAP_BUF reverses what the request did that has created the entry found. -/
theorem UnmapShape.releases (h : UnmapShape u c bs result) (hown : RemovesOwnZero u bs)
    (hsteps : Steps kernel w trace w') (hacts : acts trace = bs)
    (hlive : ∀ p ∈ w.table c, .smap p ∈ w.held) (hfinds : Finds c p bs)
    (horigin : p ∈ w.table c → Origin w p as j)
    (hfits : RequestFits (.unmapBuf u) j as bs) :
    ReversesOnly as bs ∧ (Deletes c p bs → Reverses as bs) := by
  cases h with
  | early _ hearly =>
      obtain ⟨id, hmem | hmem⟩ := hfinds <;> cases hearly _ hmem
  | @found q rest _ _ hrelease =>
  obtain rfl := hfinds.eq hrelease.no_find
  have hfound : acts trace = [] ++ .find c u.id (some p) :: rest := hacts
  have hmem : p ∈ w.table c := (find_steps hsteps hfound sparesEntries_nil (.inl rfl)).1
  have hp : .smap p ∈ w.held := hlive p hmem
  have hread : ∀ (before after : List Act) {data : SmmuMapData},
      .find c u.id (some p) :: rest = before ++ .read p data :: after → SparesEntries before →
      data = w.smaps p := fun before after data heq hbefore =>
    read_held_steps hsteps (hacts.trans heq) hbefore hp
  cases hrelease with
  | empty _ hreads =>
      have hfind : Inert [.find c u.id (some p)] := by simp [Inert, Act.isInert]
      refine reverses_append hfind (by simp [Act.isDelete]) (Passive.reverses ?_)
      intro act hact
      obtain ⟨data, rfl⟩ := hreads act hact
      rfl
  | @buffer data data' d a acts _ hd ha hunmapped =>
      obtain rfl : data = w.smaps p :=
        hread [.find c u.id (some p)] _ rfl (by simp [Act.sparesEntries])
      obtain rfl : data' = w.smaps p :=
        hread [.find c u.id (some p), .read p (w.smaps p)] _ rfl (by simp [Act.sparesEntries])
      cases horigin hmem with
      | mmio hdata =>
          rw [hdata] at hd
          cases hd
      | secure => exact hfits.elim
      | @buffer u₁ v d₁ a₁ maps id hdata hdev hmaps hmade hzero hhanded =>
          have hsgt : (w.smaps p).sgtPtr = some a₁.table := by rw [hdata]; rfl
          rw [hdata] at hd ha
          cases hd
          cases ha
          have hclear : Passive (clearActs u.dmaAddr d.size u.ptselect) := clearActs_passive
          have hinert : Inert (.find c u.id (some p) :: .read p (w.smaps p) ::
              .read p (w.smaps p) :: clearActs u.dmaAddr d.size u.ptselect) :=
            .cons rfl (.cons rfl (.cons rfl hclear.inert))
          have hkept : ∀ act ∈ .find c u.id (some p) :: .read p (w.smaps p) ::
              .read p (w.smaps p) :: clearActs u.dmaAddr d.size u.ptselect,
              act.isDelete = false := by
            simpa [Act.isDelete] using hclear.no_delete
          refine reverses_append hinert hkept (hunmapped.reverses ?_ hmaps hmade hhanded
            hfits.plain hfits.plain₁ hfits.direction hfits.zero ?_)
          · rintro data after rfl
            rw [hread (.find c u.id (some p) :: .read p (w.smaps p) :: .read p (w.smaps p) ::
              clearActs u.dmaAddr d.size u.ptselect) after rfl ?_]
            · exact hsgt
            · simpa [Act.sparesEntries] using clearActs_sparesEntries
          · intro dom hdom dom' hdom'
            have hall : dom ∈ zeroUnmapsOf (.find c u.id (some p) :: .read p (w.smaps p) ::
                .read p (w.smaps p) :: clearActs u.dmaAddr d.size u.ptselect ++ acts) := by
              rw [zeroUnmapsOf_append]
              exact List.mem_append_right _ hdom
            obtain ⟨file, v', dev, hfile, hprivate, hdev', rfl⟩ := hown dom hall
            exact hfits.device file v' dev hfile hprivate hdev' dom' hdom'

/-! ## SECURE_UNMAP -/

variable {vmids : List Int} {page : U64} {t : SgTable}

/-- After the buffer is unmapped, only the owners of its memory and of the page are changed. -/
theorem TakeBackShape.mem (h : TakeBackShape c p vmids page a t bs result) :
    ∀ act ∈ bs, act.isInert = true ∧ act.isFind = false ∨
      ∃ range src dst ret, act = .assign range src dst ret ∧
        (range = .pgd page ∨ ∃ e ∈ t.sgl, range = .sg e) := by
  have hassigned : ∀ {back : List Act} {ret : Option Int},
      AssignShape (vmidMask vmids) hlosAlone t back ret → ∀ act ∈ back,
      act.isInert = true ∧ act.isFind = false ∨
      ∃ range src dst ret, act = .assign range src dst ret ∧
        (range = .pgd page ∨ ∃ e ∈ t.sgl, range = .sg e) := by
    intro back ret hback act hact
    obtain ⟨e, he, ret, rfl⟩ := hback.mem act hact
    exact .inr ⟨.sg e, _, _, ret, rfl, .inr ⟨e, he, rfl⟩⟩
  cases h with
  | kept _ hback => exact hassigned hback
  | half _ hback _ hrest =>
      refine List.forall_mem_append.mpr ⟨hassigned hback, List.forall_mem_cons.mpr ⟨?_, ?_⟩⟩
      · exact .inr ⟨.pgd page, _, _, _, rfl, .inl rfl⟩
      · rcases hrest with rfl | ⟨data, _, rfl⟩ <;> simp [Act.isInert, Act.isFind]
  | done hback _ =>
      refine List.forall_mem_append.mpr ⟨hassigned hback, List.forall_mem_cons.mpr ⟨?_, ?_⟩⟩
      · exact .inr ⟨.pgd page, _, _, _, rfl, .inl rfl⟩
      · simp [Act.isInert, Act.isFind]

/-- When the entry is deleted, all of the memory and the page have been taken back. -/
theorem TakeBackShape.all (h : TakeBackShape c p vmids page a t bs result)
    (hdeletes : Deletes c p bs) :
    .pgd page ∈ takenBack bs ∧ ∀ e ∈ t.sgl, .sg e ∈ takenBack bs := by
  have hassigned : ∀ {back : List Act} {ret : Option Int},
      AssignShape (vmidMask vmids) hlosAlone t back ret → ∀ act ∈ back, act.isDelete = false := by
    intro back ret hback act hact
    obtain ⟨e, _, ret, rfl⟩ := hback.mem act hact
    rfl
  cases h with
  | kept _ hback => exact absurd hdeletes (not_deletes (hassigned hback))
  | half _ hback _ hrest =>
      refine absurd hdeletes (not_deletes (List.forall_mem_append.mpr ⟨hassigned hback, ?_⟩))
      refine List.forall_mem_cons.mpr ⟨rfl, ?_⟩
      rcases hrest with rfl | ⟨data, _, rfl⟩ <;> simp [Act.isDelete]
  | @done back data d hback _ =>
      have hpage : .pgd page ∈ takenBack
          [unassignPage vmids page 0, .read p data, .detach d a, .put d, .delete c p] :=
        List.mem_cons_self
      rw [takenBack_append]
      refine ⟨List.mem_append_right _ hpage, fun e he => List.mem_append_left _ ?_⟩
      exact mem_takenBack.mpr ⟨_, hback.all e he⟩

theorem TakeBackShape.onlyDeletes (h : TakeBackShape c p vmids page a t bs result) :
    OnlyDeletes c p bs := by
  have hassigned : ∀ {back : List Act} {ret : Option Int},
      AssignShape (vmidMask vmids) hlosAlone t back ret → OnlyDeletes c p back := by
    refine fun hback => .of_kept fun act hact => ?_
    obtain ⟨e, _, ret, rfl⟩ := hback.mem act hact
    rfl
  cases h with
  | kept _ hback => exact hassigned hback
  | half _ hback _ hrest =>
      refine (hassigned hback).append (.cons rfl ?_)
      rcases hrest with rfl | ⟨data, _, rfl⟩ <;> exact .of_kept (by simp [Act.isDelete])
  | done hback _ =>
      refine (hassigned hback).append fun q hdeletes => ?_
      simpa [Deletes, unassignPage] using hdeletes

/-- SECURE_UNMAP on a buffer that SECURE_MAP has mapped with fitting arguments. -/
theorem TakeBackShape.reverses {dir : Int}
    (h : TakeBackShape c p vmids page a t bs result)
    (hattached : .attachment a t dir ∈ mapsOf as) (hzero : zeroMapsOf as = [])
    (hhanded : ∀ range, range ∈ handedOver as ↔ range = .pgd page ∨ ∃ e ∈ t.sgl, range = .sg e) :
    ReversesOnly as (.unmapAttachment a t dir :: bs) ∧
      (Deletes c p (.unmapAttachment a t dir :: bs) →
        Reverses as (.unmapAttachment a t dir :: bs)) := by
  have hnone : ∀ act ∈ bs, act.unmaps = none ∧ act.unmapsZero = none := by
    intro act hact
    rcases h.mem act hact with ⟨hinert, _⟩ | ⟨range, src, dst, ret, rfl, _⟩
    · cases act <;> first | exact ⟨rfl, rfl⟩ | cases hinert
    · exact ⟨rfl, rfl⟩
  have honly : ReversesOnly as (.unmapAttachment a t dir :: bs) := by
    refine ⟨?_, ?_, ?_⟩
    · have hunmaps : unmapsOf bs = [] :=
        List.filterMap_eq_nil_iff.mpr fun act hact => (hnone act hact).1
      show ∀ m ∈ DmaMapping.attachment a t dir :: unmapsOf bs, m ∈ mapsOf as
      rw [hunmaps]
      exact List.forall_mem_singleton.mpr hattached
    · have hunmaps : zeroUnmapsOf (.unmapAttachment a t dir :: bs) = [] :=
        List.filterMap_eq_nil_iff.mpr
          (List.forall_mem_cons.mpr ⟨rfl, fun act hact => (hnone act hact).2⟩)
      rw [hunmaps]
      exact nofun
    · intro range hrange
      obtain ⟨src, hmem⟩ := mem_takenBack.mp hrange
      have hassign := (List.mem_cons.mp hmem).resolve_left nofun
      rcases h.mem _ hassign with ⟨hinert, _⟩ | ⟨range', src', dst, ret, heq, hmemory⟩
      · cases hinert
      · cases heq
        exact (hhanded range).mpr hmemory
  refine ⟨honly, fun hdeletes => { honly with zero_all := ?_, owners_all := ?_ }⟩
  · rw [hzero]
    exact nofun
  · have hunmap : ∀ act ∈ [Act.unmapAttachment a t dir], act.isDelete = false := by
      simp [Act.isDelete]
    obtain ⟨hpage, hentries⟩ := h.all (hdeletes.late hunmap)
    intro range hrange
    show range ∈ takenBack bs
    rcases (hhanded range).mp hrange with rfl | ⟨e, he, rfl⟩
    · exact hpage
    · exact hentries e he

theorem SecureUnmapShape.accounted (h : SecureUnmapShape u c bs result) : Accounted c bs := by
  cases h with
  | early _ hlooking =>
      refine .of_inert (inert_of_isLooking hlooking) fun act hact => ?_
      have hlook := hlooking act hact
      cases act <;> first | rfl | cases hlook
  | found _ _ _ _ _ _ _ _ hback =>
      refine .of_found ⟨u.id, .inl List.mem_cons_self⟩ ?_
      refine .cons rfl (.cons rfl (.cons rfl (.append (.of_kept fun act hact => ?_)
        (.cons rfl (.cons rfl (.cons rfl hback.onlyDeletes))))))
      have hread := aclActs_isAcl act hact
      cases act <;> first | rfl | cases hread

/-- SECURE_UNMAP reverses what the request did that has created the entry found. -/
theorem SecureUnmapShape.releases (h : SecureUnmapShape u c bs result)
    (hsteps : Steps kernel w trace w') (hacts : acts trace = bs)
    (hlive : ∀ p ∈ w.table c, .smap p ∈ w.held) (hfinds : Finds c p bs)
    (horigin : p ∈ w.table c → Origin w p as j)
    (hfits : RequestFits (.secureUnmap u) j as bs) :
    ReversesOnly as bs ∧ (Deletes c p bs → Reverses as bs) := by
  cases h with
  | early _ hlooking =>
      refine ⟨reversesOnly_of_inert (inert_of_isLooking hlooking), fun hdeletes => ?_⟩
      refine absurd hdeletes (not_deletes fun act hact => ?_)
      have hlook := hlooking act hact
      cases act <;> first | rfl | cases hlook
  | @found file v dev page entries q data data' a t rest _ _ _ _ _ _ _ hattach hsgt hback =>
  have hacl : ∀ act ∈ aclActs u.memParcel.aclList 0 entries, act.isPassive = true := by
    intro act hact
    have hread := aclActs_isAcl act hact
    cases act <;> first | rfl | cases hread
  have hfind : ∀ act ∈ .file u.vfioFd file :: .pgd dev.domain page ::
      (aclActs u.memParcel.aclList 0 entries ++ .read q data :: .read q data' ::
        .unmapAttachment a t DMA_BIDIRECTIONAL :: rest), act.isFind = false := by
    have hrest : ∀ act ∈ rest, act.isFind = false := fun act hact => by
      rcases hback.mem act hact with ⟨_, hno⟩ | ⟨_, _, _, _, rfl, _⟩
      · exact hno
      · rfl
    have hread : ∀ act ∈ .read q data :: .read q data' ::
        .unmapAttachment a t DMA_BIDIRECTIONAL :: rest, act.isFind = false := by
      simpa [Act.isFind] using hrest
    exact List.forall_mem_cons.mpr ⟨rfl, List.forall_mem_cons.mpr
      ⟨rfl, List.forall_mem_append.mpr ⟨Passive.no_find hacl, hread⟩⟩⟩
  obtain rfl := hfinds.eq hfind
  have hfound : acts trace = [] ++ .find c u.id (some p) :: .file u.vfioFd file ::
      .pgd dev.domain page :: (aclActs u.memParcel.aclList 0 entries ++ .read p data ::
        .read p data' :: .unmapAttachment a t DMA_BIDIRECTIONAL :: rest) := hacts
  have hmem : p ∈ w.table c := (find_steps hsteps hfound sparesEntries_nil (.inl rfl)).1
  have hp : .smap p ∈ w.held := hlive p hmem
  have hopen : SparesEntries (.find c u.id (some p) :: .file u.vfioFd file ::
      .pgd dev.domain page :: aclActs u.memParcel.aclList 0 entries) := by
    simpa [Act.sparesEntries] using sparesEntries_of_isAcl aclActs_isAcl
  obtain rfl : data = w.smaps p := read_held_steps hsteps hacts hopen hp
  obtain rfl : data' = w.smaps p := by
    have hopen' : SparesEntries ((.find c u.id (some p) :: .file u.vfioFd file ::
        .pgd dev.domain page :: aclActs u.memParcel.aclList 0 entries) ++
          [.read p (w.smaps p)]) :=
      sparesEntries_append.mpr ⟨hopen, by simp [Act.sparesEntries]⟩
    have hread : acts trace = ((.find c u.id (some p) :: .file u.vfioFd file ::
        .pgd dev.domain page :: aclActs u.memParcel.aclList 0 entries) ++
          [.read p (w.smaps p)]) ++ .read p data' ::
            .unmapAttachment a t DMA_BIDIRECTIONAL :: rest := by
      rw [hacts]
      simp
    exact read_held_steps hsteps hread hopen' hp
  cases horigin hmem with
  | mmio hdata =>
      rw [hdata] at hattach
      cases hattach
  | buffer => exact hfits.elim
  | @secure u₁ d a₁ id page₁ hdata hmaps hzero hpage hmemory =>
      rw [hdata] at hattach hsgt
      cases hattach
      cases hsgt
      have hsame : page = page₁ := by
        have hgiven := hfits.page dev.domain page (by simp)
        rcases (hmemory _).mp hgiven with heq | ⟨e, _, heq⟩
        · cases heq
          rfl
        · cases heq
      subst hsame
      rw [hfits.direction] at hmaps
      have hinert : Inert (.find c u.id (some p) :: .file u.vfioFd file :: .pgd dev.domain page ::
          (aclActs u.memParcel.aclList 0 entries ++
            [.read p (w.smaps p), .read p (w.smaps p)])) :=
        .cons rfl (.cons rfl (.cons rfl ((Passive.inert hacl).append (.cons rfl (.cons rfl .nil)))))
      have hkept : ∀ act ∈ .find c u.id (some p) :: .file u.vfioFd file :: .pgd dev.domain page ::
          (aclActs u.memParcel.aclList 0 entries ++
            [.read p (w.smaps p), .read p (w.smaps p)]), act.isDelete = false := by
        refine List.forall_mem_cons.mpr ⟨rfl, List.forall_mem_cons.mpr ⟨rfl,
          List.forall_mem_cons.mpr ⟨rfl, List.forall_mem_append.mpr ⟨Passive.no_delete hacl, ?_⟩⟩⟩⟩
        simp [Act.isDelete]
      have hall := reverses_append hinert hkept (hback.reverses hmaps hzero hmemory)
      simpa using hall

/-! ## MMIO_UNMAP -/

variable {m : KiumdSmmuMmioMap}

/-- The actions of MMIO_UNMAP, with what it reads of the entry. -/
inductive RemovesRegion (m : KiumdSmmuMmioMap) (c : Nat) (w : World) : List Act → Prop where
  | kept {bs : List Act} : Inert bs → (∀ act ∈ bs, act.isDelete = false) → RemovesRegion m c w bs
  | removed {p n : Nat} : p ∈ w.table c → (w.smaps p).context = some n →
      RemovesRegion m c w [.findMmio c m.id (some p), .read p (w.smaps p),
        .readMmio n (w.mmioCtxs n), .unmapResource (w.mmioCtxs n).dev (w.mmioCtxs n).iova
          (w.mmioCtxs n).size, .deleteMmio c p]

theorem kiumdMmioSmmuUnmap_region (hlive : ∀ p ∈ w.table c, .smap p ∈ w.held)
    (hmmio : ∀ p ∈ w.table c, ∀ n, (w.smaps p).context = some n → .mmioCtx n ∈ w.held) :
    wp kernel .any (kiumdMmioSmmuUnmap m (some (some c)))
      (fun trace _ _ => RemovesRegion m c w (acts trace)) w := by
  have hnone : RemovesRegion m c w [] := .kept .nil (by simp)
  unfold kiumdMmioSmmuUnmap
  refine wp_step fun copied w₁ hstep => ?_
  cases hstep
  split
  · exact wp_pure.mpr hnone
  split
  · exact wp_pure.mpr hnone
  refine wp_step fun found w₂ hstep => ?_
  cases found with
  | none =>
      have hmissing : RemovesRegion m c w [.findMmio c m.id none] :=
        .kept (.cons rfl .nil) (by simp [Act.isDelete])
      exact wp_pure.mpr hmissing
  | some p =>
  obtain ⟨hp, n, hn⟩ := findMmio_mem hstep
  obtain rfl : w₂ = w := by
    simp only [kernelStep] at hstep
    split at hstep <;> cases hstep
    rfl
  refine wp_step fun data w₃ hstep => ?_
  obtain ⟨rfl, rfl⟩ : data = w₂.smaps p ∧ w₃ = w₂ := by
    simp only [kernelStep] at hstep
    split at hstep <;> cases hstep
    rename_i hdata
    exact ⟨hdata (hlive p hp), rfl⟩
  rw [hn]
  refine wp_step fun mmio w₄ hstep => ?_
  obtain ⟨rfl, rfl⟩ : mmio = w₄.mmioCtxs n ∧ w₃ = w₄ := by
    simp only [kernelStep] at hstep
    split at hstep <;> cases hstep
    rename_i hctx
    exact ⟨hctx (hmmio p hp n hn), rfl⟩
  refine wp_step fun _ w₅ _ => wp_step fun _ w₆ _ => wp_pure.mpr ?_
  exact .removed hp hn

theorem RemovesRegion.accounted (h : RemovesRegion m c w bs) : Accounted c bs := by
  cases h with
  | kept hinert hkept => exact .of_inert hinert hkept
  | @removed p n _ _ =>
      refine .of_found ⟨m.id, .inr List.mem_cons_self⟩ fun q hdeletes => ?_
      simpa [Deletes] using hdeletes

/-- MMIO_UNMAP reverses what the request did that has created the entry found. -/
theorem RemovesRegion.releases (h : RemovesRegion m c w bs) (hfinds : Finds c p bs)
    (horigin : p ∈ w.table c → Origin w p as j) :
    ReversesOnly as bs ∧ (Deletes c p bs → Reverses as bs) := by
  cases h with
  | kept hinert hkept =>
      exact ⟨reversesOnly_of_inert hinert, fun hdeletes => absurd hdeletes (not_deletes hkept)⟩
  | @removed q n hmem hn =>
      obtain rfl : p = q := by
        obtain ⟨id, hfound | hfound⟩ := hfinds
        · simp at hfound
        · simp only [List.mem_cons, Act.findMmio.injEq, Option.some.injEq, reduceCtorEq,
            List.not_mem_nil, or_false] at hfound
          exact hfound.2.2
      cases horigin hmem with
      | buffer hdata | secure hdata =>
          rw [hdata] at hn
          cases hn
      | @mmio ret₀ u n' dev iova size id hdata hctx hmaps hzero hhanded =>
          rw [hdata] at hn
          cases hn
          have honly : ReversesOnly as [.findMmio c m.id (some p), .read p (w.smaps p),
              .readMmio n (w.mmioCtxs n), .unmapResource (w.mmioCtxs n).dev (w.mmioCtxs n).iova
                (w.mmioCtxs n).size, .deleteMmio c p] := by
            rw [hctx]
            refine ⟨?_, nofun, nofun⟩
            exact List.forall_mem_singleton.mpr hmaps
          exact ⟨honly, fun _ => honly.all hzero hhanded⟩

/-! ## The ioctls -/

/-- A request that releases an entry deletes only what it has found, and reverses what the request
did that has created it. -/
theorem kiumdIoctl_releases {i : Ioctl} (hb : Backed noNeeds w 0)
    (hexec : Exec kernel (kiumdIoctl i) w trace result w') (hreleases : i.request.releases = true) :
    Accounted i.ctx (acts trace) ∧ ∀ p j as, Finds i.ctx p (acts trace) →
      (p ∈ w.table i.ctx → Origin w p as j) → RequestFits i.request j as (acts trace) →
      ReversesOnly as (acts trace) ∧
        (Deletes i.ctx p (acts trace) → Reverses as (acts trace)) := by
  have hlive : ∀ p ∈ w.table i.ctx, .smap p ∈ w.held := fun p hp => hb.smap_mem hp
  have hshape := (kiumdIoctl_shows i).exec driver_admits hexec
  obtain ⟨c, request⟩ := i
  cases request with
  | mapBuf | secureMap | mmioMap => cases hreleases
  | unmapBuf u =>
      have hown : RemovesOwnZero u (acts trace) :=
        kiumdDmabufVfioUnmap_ownZero.exec driver_admits hexec
      exact ⟨UnmapShape.accounted hshape, fun p j as hfinds horigin hfits =>
        UnmapShape.releases hshape hown hexec.steps rfl hlive hfinds horigin hfits⟩
  | secureUnmap u =>
      exact ⟨SecureUnmapShape.accounted hshape, fun p j as hfinds horigin hfits =>
        SecureUnmapShape.releases hshape hexec.steps rfl hlive hfinds horigin hfits⟩
  | mmioUnmap m =>
      have hregion := wp_exec (kiumdMmioSmmuUnmap_region hlive fun p hp n hn =>
        hb.mmioCtx_mem hp hn) hexec
      exact ⟨hregion.accounted, fun p j as hfinds horigin _ =>
        hregion.releases hfinds horigin⟩

end SafeLinux.Kiumd
