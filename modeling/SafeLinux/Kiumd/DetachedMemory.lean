import SafeLinux.Kiumd.LentMemory

/-!
# The memory of buffers that are detached

A buffer that the driver detaches goes back to its exporter, which may hand its memory out again.
SECURE_UNMAP takes the memory back before it detaches the buffer; UNMAP_BUF and the error exits of
SECURE_MAP need not. In every run in which nothing detaches memory that is lent, HLOS alone owns the
memory of each buffer at the moment it is detached (`service_run_detaches_owned`).
-/

namespace SafeLinux.Kiumd

open Effects

variable {as bs : List Act} {act : Act} {c p addr : Nat} {l : Loc} {o : Finset Int}
  {w w' : World} {trace : List (Event KCall)} {s : Service} {dst : List QcomScmVmperm}
  {history : History Service KCall}

/-! ## The property -/

/-- The address is in the memory of the buffer. -/
def DmaBuf.Has (d : DmaBuf) (addr : Nat) : Prop :=
  ∃ e ∈ d.sg, (MemRange.sg e).contains (.phys addr) = true

/-- HLOS alone owns the memory of the buffer. -/
def DmaBuf.OwnedAlone (d : DmaBuf) (w : World) : Prop :=
  ∀ addr, d.Has addr → w.owner (.phys addr) = {QCOM_SCM_VMID_HLOS}

/-- Whenever a buffer is detached, HLOS alone owns its memory. -/
def DetachesOwned (w : World) (trace : List (Event KCall)) : Prop :=
  ∀ before e after w₁ d a, trace = before ++ e :: after → Steps kernel w before w₁ →
    e.call.act e.answer = some (.detach d a) → d.OwnedAlone w₁

/-- A further service under the condition `ok` detaches only buffers that HLOS alone owns. -/
def DetachesRight (ok : Admission Service KCall World) (history : History Service KCall)
    (w : World) : Prop :=
  ∀ s trace result w', Exec kernel (kiumdService s) w trace result w' → ok history s w trace →
    DetachesOwned w trace

/-! ## The condition -/

/-- The ioctls on mappings, and `kiumd_close`. -/
def Service.handlesMappings : Service → Bool
  | .ioctl _ | .close _ => true
  | .iovaMapCtrl _ => false

/-- Only ioctls on mappings and `kiumd_close` are served. -/
def MappingsOnly : Admission Service KCall World := fun _ s _ _ => s.handlesMappings = true

/-- A SECURE_UNMAP. -/
def Service.isSecureUnmap : Service → Bool
  | .ioctl ⟨_, .secureUnmap _⟩ => true
  | _ => false

/-- A service detaches no memory that is lent, and lends none without an entry. -/
structure LentStays (s : Service) (w : World) (as : List Act) : Prop where
  kept : ∀ addr, ¬ Leaks (.phys addr) s as
  /-- What is assigned of a buffer that is detached is taken back. -/
  back : ∀ d a addr, .detach d a ∈ as → d.Has addr → Assigned (.phys addr) as →
    ∃ range ∈ takenBack as, range.contains (.phys addr) = true
  /-- The rest of it is not the memory of a secure mapping. -/
  apart : ∀ d a addr, .detach d a ∈ as → d.Has addr → ¬ Assigned (.phys addr) as →
    ∀ c p, ¬ SecureEntry w c p (.phys addr)

/-- The condition on a service; a SECURE_UNMAP may be any. -/
def DetachesFit : Admission Service KCall World := fun _ s w trace =>
  s.isSecureUnmap = false → LentStays s w (acts trace)

/-! ## Detached last -/

/-- A buffer is detached. -/
def Act.isDetach : Act → Bool
  | .detach _ _ => true
  | _ => false

/-- None of the actions detaches a buffer. -/
def DetachesNone (as : List Act) : Prop := ∀ act ∈ as, act.isDetach = false

instance : Decidable (DetachesNone as) := inferInstanceAs (Decidable (∀ act ∈ as, _))

/-- Nothing is assigned once a buffer has been detached. -/
def DetachesLast (as : List Act) : Prop :=
  ∃ first last, as = first ++ last ∧ DetachesNone first ∧ AssignsNone last

@[simp] theorem detachesNone_nil : DetachesNone [] := fun _ hact => absurd hact List.not_mem_nil

@[simp] theorem detachesNone_cons :
    DetachesNone (act :: as) ↔ act.isDetach = false ∧ DetachesNone as :=
  List.forall_mem_cons

@[simp] theorem detachesNone_append :
    DetachesNone (as ++ bs) ↔ DetachesNone as ∧ DetachesNone bs :=
  List.forall_mem_append

theorem DetachesNone.detachesLast (h : DetachesNone as) : DetachesLast as :=
  ⟨as, [], (List.append_nil as).symm, h, assignsNone_nil⟩

theorem AssignsNone.detachesLast (h : AssignsNone as) : DetachesLast as :=
  ⟨[], as, rfl, detachesNone_nil, h⟩

theorem DetachesLast.prepend (h : DetachesLast bs) (has : DetachesNone as) :
    DetachesLast (as ++ bs) := by
  obtain ⟨first, last, rfl, hfirst, hlast⟩ := h
  exact ⟨as ++ first, last, (List.append_assoc as first last).symm,
    detachesNone_append.mpr ⟨has, hfirst⟩, hlast⟩

theorem DetachesLast.assignsNone {before after : List Act} {d : DmaBuf} {a : Attachment}
    (h : DetachesLast as) (has : as = before ++ .detach d a :: after) : AssignsNone after := by
  obtain ⟨first, last, rfl, hfirst, hlast⟩ := h
  have hdetach : ∀ {acts : List Act}, .detach d a ∈ acts → ¬ DetachesNone acts :=
    fun hact hnone => by cases hnone _ hact
  rcases List.append_eq_append_iff.mp has with ⟨rest, -, rfl⟩ | ⟨rest, rfl, heq⟩
  · exact (assignsNone_cons.mp (assignsNone_append.mp hlast).2).2
  · cases rest with
    | nil =>
        rw [List.nil_append] at heq
        rw [← heq] at hlast
        exact (assignsNone_cons.mp hlast).2
    | cons act rest =>
        obtain ⟨rfl, -⟩ := List.cons.inj heq
        refine absurd hfirst (hdetach ?_)
        exact List.mem_append_right _ List.mem_cons_self

/-- The owners at a detach are those at the end if nothing is assigned after it. -/
theorem detachesOwned_of_owner (hsteps : Steps kernel w trace w')
    (hlast : DetachesLast (acts trace))
    (howner : ∀ d a addr, .detach d a ∈ acts trace → d.Has addr →
      w'.owner (.phys addr) = {QCOM_SCM_VMID_HLOS}) : DetachesOwned w trace := by
  rintro before ⟨request, answer⟩ after w₁ d a rfl hbefore hview addr hhas
  have hacts : acts (before ++ ⟨request, answer⟩ :: after) =
      acts before ++ .detach d a :: acts after := by
    rw [acts_append, acts_cons, hview]
    rfl
  have hafter : AssignsNone (acts after) := hlast.assignsNone hacts
  have hmem : .detach d a ∈ acts (before ++ ⟨request, answer⟩ :: after) := by
    rw [hacts]
    exact List.mem_append_right _ List.mem_cons_self
  rw [← howner d a addr hmem hhas, steps_owner hsteps, hacts, ownerAfter_append, ownerAfter_cons,
    ownerAfter_of_not_assigned hafter.not_assigned, ← steps_owner hbefore]
  rfl

/-! ## The services that lend and take back -/

section Shapes

variable {u : KiumdUser} {d : DmaBuf} {a : Attachment} {result : Option Int} {src page : U64}
  {vmids perms : List Int} {t : SgTable}

theorem detachesNone_of_isLooking (h : ∀ act ∈ as, act.isLooking = true) : DetachesNone as := by
  intro act hact
  have hlook := h act hact
  cases act <;> first | rfl | cases hlook

theorem aclActs_detachesNone {list index : Nat} {entries : List KiumdAclEntry} :
    DetachesNone (aclActs list index entries) :=
  detachesNone_of_isLooking fun act hact => Act.isLooking_of_isAcl (aclActs_isAcl act hact)

theorem AssignShape.detachesNone (h : AssignShape src dst t as result) : DetachesNone as := by
  intro act hact
  have hassign := h.isSgAssign act hact
  cases act <;> first | rfl | cases hassign

theorem PageShape.detachesNone (h : PageShape vmids page as result) : DetachesNone as := by
  cases h with
  | refused _ => exact detachesNone_nil
  | asked _ => simp [Act.isDetach]

theorem unassignTableActs_detachesLast {ret : Int} :
    DetachesLast (unassignTableActs vmids page ret d a) := by
  have hpage : DetachesNone [unassignPage vmids page ret] := by simp [unassignPage, Act.isDetach]
  have hput : AssignsNone [.detach d a, .put d] := by simp [Act.isAssign]
  exact hput.detachesLast.prepend hpage

theorem SecureAttachedShape.detachesLast
    (h : SecureAttachedShape u c vmids perms page d a as result) : DetachesLast as := by
  cases h with
  | refused _ hhanded =>
      have hput : AssignsNone [.detach d a, .put d] := by simp [Act.isAssign]
      refine hput.detachesLast.prepend ?_
      rcases hhanded with rfl | hhanded
      · exact detachesNone_nil
      · exact hhanded.detachesNone
  | unassigned hhanded _ hgiven =>
      exact (unassignTableActs_detachesLast.prepend hgiven.detachesNone).prepend
        hhanded.detachesNone
  | unmapped hhanded hgiven =>
      exact (hgiven.detachesNone.detachesLast).prepend hhanded.detachesNone
  | @mapped handed given acts _ hhanded hgiven hpublish =>
      refine DetachesLast.prepend (DetachesLast.prepend ?_ hgiven.detachesNone)
        hhanded.detachesNone
      cases hpublish with
      | unpublished _ => exact DetachesNone.detachesLast (by simp [Act.isDetach])
      | @stale q id addr back taken ret ret' _ hback =>
          have hlooks : DetachesNone ([.mapAttachment a u.unmapDir a.table, .alloc q,
              .add c q (secureEntry d a) id, .dmaAddress a.table addr,
              .reply (.user { u with id := id, dmaAddr := addr }) false,
              .unmapAttachment a a.table DMA_BIDIRECTIONAL] ++ back) := by
            simp [Act.isDetach, hback.detachesNone]
          have htable : DetachesLast (unassignTableActs vmids page ret' d a) :=
            unassignTableActs_detachesLast
          simpa using htable.prepend hlooks
      | done => exact DetachesNone.detachesLast (by simp [Act.isDetach])

theorem SecureMapShape.detachesLast (h : SecureMapShape u c as result) : DetachesLast as := by
  cases h with
  | early _ hlooking => exact (detachesNone_of_isLooking hlooking).detachesLast
  | @attached file v page d a entries acts result _ _ _ _ _ _ hattached =>
      have hlooks : DetachesNone (.file u.vfioFd file :: .pgd a.dev.domain page ::
          .buffer u.dmaBufFd d :: (aclActs u.memParcel.aclList 0 entries ++ [.attach d a])) := by
        simp [Act.isDetach, aclActs_detachesNone]
      simpa using hattached.detachesLast.prepend hlooks

theorem TakeBackShape.detachesLast (h : TakeBackShape c p vmids page a t as result) :
    DetachesLast as := by
  cases h with
  | kept _ hback => exact hback.detachesNone.detachesLast
  | half _ hback _ hacts =>
      refine (DetachesNone.detachesLast ?_).prepend hback.detachesNone
      rcases hacts with rfl | ⟨data, -, rfl⟩ <;> simp [unassignPage, Act.isDetach]
  | @done back data d hback _ =>
      have hput : AssignsNone [.read p data, .detach d a, .put d, .delete c p] := by
        simp [Act.isAssign]
      have hpage : DetachesNone [unassignPage vmids page 0] := by simp [unassignPage, Act.isDetach]
      exact (hput.detachesLast.prepend hpage).prepend hback.detachesNone

theorem SecureUnmapShape.detachesLast (h : SecureUnmapShape u c as result) : DetachesLast as := by
  cases h.parts with
  | looked hlooking => exact (detachesNone_of_isLooking hlooking).detachesLast
  | @taken p looks data vmids page a t back _ hlooking _ hback =>
      have hunmap : DetachesNone [.read p data, .unmapAttachment a t DMA_BIDIRECTIONAL] := by
        simp [Act.isDetach]
      exact (hback.detachesLast.prepend hunmap).prepend (detachesNone_of_isLooking hlooking)

/-! What a SECURE_MAP gives to the virtual machines comes before what it takes back. -/

theorem AssignsNone.givesTo (h : AssignsNone as) : GivesTo l dst as := h.assignsOnly

theorem GivesTo.append (h : GivesTo l dst as) (h' : GivesTo l dst bs) : GivesTo l dst (as ++ bs) :=
  AssignsOnly.append h h'

theorem AssignShape.givesTo (h : AssignShape src dst t as result) : GivesTo l dst as := by
  intro range src' given ret hact _
  obtain ⟨e, -, ret', heq⟩ := h.mem _ hact
  cases heq
  rfl

theorem givesTo_page {rest : List Act} {ret : Int} {owners : List QcomScmVmperm}
    (h : GivesTo (.phys addr) dst rest) :
    GivesTo (.phys addr) dst (.assign (.pgd page) src owners ret :: rest) := by
  intro range src' given ret' hact hcontains
  rcases List.mem_cons.mp hact with heq | hact
  · cases heq
    cases hcontains
  · exact h range src' given ret' hact hcontains

theorem PageShape.givesTo (h : PageShape vmids page as result) : GivesTo (.phys addr) dst as := by
  cases h with
  | refused _ => exact assignsNone_nil.givesTo
  | asked _ => exact givesTo_page (assignsNone_nil.givesTo)

theorem unassignTableActs_givesTo {ret : Int} :
    GivesTo (.phys addr) dst (unassignTableActs vmids page ret d a) :=
  givesTo_page (AssignsNone.givesTo (by simp [Act.isAssign]))

/-- The actions give a place to `dst` first, and then to HLOS alone. -/
def GivesThenBack (l : Loc) (dst : List QcomScmVmperm) (as : List Act) : Prop :=
  ∃ given back, as = given ++ back ∧ GivesTo l dst given ∧ GivesTo l hlosAlone back

theorem GivesThenBack.prepend (h : GivesThenBack l dst bs) (has : GivesTo l dst as) :
    GivesThenBack l dst (as ++ bs) := by
  obtain ⟨given, back, rfl, hgiven, hback⟩ := h
  exact ⟨as ++ given, back, (List.append_assoc as given back).symm, has.append hgiven, hback⟩

theorem GivesTo.thenBack (h : GivesTo l hlosAlone as) : GivesThenBack l dst as :=
  ⟨[], as, rfl, assignsNone_nil.givesTo, h⟩

/-- HLOS alone owns a place in the end that has been given to it alone. -/
theorem GivesThenBack.owner (h : GivesThenBack l dst as)
    (hback : ∃ range ∈ takenBack as, range.contains l = true) :
    ownerAfter l as o = {QCOM_SCM_VMID_HLOS} := by
  obtain ⟨given, back, rfl, hgiven, hlast⟩ := h
  obtain ⟨range, hrange, hcontains⟩ := hback
  obtain ⟨src, hassign⟩ := mem_takenBack.mp hrange
  rw [ownerAfter_append]
  rcases List.mem_append.mp hassign with hassign | hassign
  · -- the machines of the list are HLOS alone
    obtain rfl : hlosAlone = dst := hgiven _ _ _ _ hassign hcontains
    have hfirst : Assigned l given := ⟨range, src, hlosAlone, hassign, hcontains⟩
    exact ownerAfter_hlos hlast (.inl (ownerAfter_hlos hgiven (.inr hfirst)))
  · exact ownerAfter_hlos hlast (.inr ⟨range, src, hlosAlone, hassign, hcontains⟩)

theorem SecureAttachedShape.thenBack
    (h : SecureAttachedShape u c vmids perms page d a as result) :
    GivesThenBack (.phys addr) (vmids.zipWith QcomScmVmperm.mk perms) as := by
  have hput : AssignsNone [.detach d a, .put d] := by simp [Act.isAssign]
  cases h with
  | refused _ hhanded =>
      refine hput.givesTo.thenBack.prepend ?_
      rcases hhanded with rfl | hhanded
      · exact assignsNone_nil.givesTo
      · exact hhanded.givesTo
  | unassigned hhanded _ hgiven =>
      exact (unassignTableActs_givesTo.thenBack.prepend hgiven.givesTo).prepend hhanded.givesTo
  | unmapped hhanded hgiven =>
      refine GivesThenBack.prepend ?_ hhanded.givesTo
      exact ⟨_, [], (List.append_nil _).symm, hgiven.givesTo, assignsNone_nil.givesTo⟩
  | mapped hhanded hgiven hpublish =>
      refine GivesThenBack.prepend (GivesThenBack.prepend (GivesTo.thenBack ?_) hgiven.givesTo)
        hhanded.givesTo
      cases hpublish with
      | unpublished _ | done => exact AssignsNone.givesTo (by simp [Act.isAssign])
      | @stale q id addr' back taken _ ret' _ hback =>
          have hlooks : AssignsNone [.mapAttachment a u.unmapDir a.table, .alloc q,
              .add c q (secureEntry d a) id, .dmaAddress a.table addr',
              .reply (.user { u with id := id, dmaAddr := addr' }) false,
              .unmapAttachment a a.table DMA_BIDIRECTIONAL] := by
            simp [Act.isAssign]
          exact hlooks.givesTo.append (hback.givesTo.append unassignTableActs_givesTo)

theorem SecureMapShape.thenBack (h : SecureMapShape u c as result) :
    ∃ dst, GivesThenBack (.phys addr) dst as := by
  cases h with
  | early _ hlooking =>
      refine ⟨hlosAlone, GivesTo.thenBack ?_⟩
      exact (calm_of_isLooking hlooking).assignsNone.givesTo
  | @attached file v page d a entries acts result _ _ _ _ _ _ hattached =>
      have hlooks : AssignsNone (.file u.vfioFd file :: .pgd a.dev.domain page ::
          .buffer u.dmaBufFd d :: (aclActs u.memParcel.aclList 0 entries ++ [.attach d a])) := by
        simp [Act.isAssign, aclActs_calm.assignsNone]
      have hgives : GivesThenBack (.phys addr)
          ((aclVmids entries).zipWith QcomScmVmperm.mk (aclPerms entries)) acts :=
        hattached.thenBack
      exact ⟨_, by simpa using hgives.prepend hlooks.givesTo⟩

/-- An entry is read before any entry is written or freed. -/
def ReadsFirst (p : Nat) (data : SmmuMapData) (as : List Act) : Prop :=
  ∃ before after, as = before ++ .read p data :: after ∧ SparesEntries before

/-- SECURE_UNMAP detaches the buffer of an entry that it has found, when it has taken back all the
memory of the entry. -/
theorem SecureUnmapShape.detached (h : SecureUnmapShape u c as result) (hdetach : .detach d a ∈ as) :
    ∃ p data data' t, (∃ rest, as = .find c u.id (some p) :: rest) ∧ ReadsFirst p data as ∧
      ReadsFirst p data' as ∧ data.sgtPtr = some t ∧ data'.dmabufPtr = some d ∧
      ∀ e ∈ t.sgl, ∃ src, .assign (.sg e) src hlosAlone 0 ∈ as := by
  have hnotMem : ∀ {acts : List Act}, DetachesNone acts → .detach d a ∉ acts :=
    fun hnone hact => by cases hnone _ hact
  cases h.parts with
  | looked hlooking => exact absurd hdetach (hnotMem (detachesNone_of_isLooking hlooking))
  | @taken p looks data vmids page b t acts _ hlooking hsgt hback =>
      have hspares := sparesEntries_of_isLooking hlooking
      have hlate : .detach d a ∈ acts := by
        rcases List.mem_append.mp hdetach with hact | hact
        · exact absurd hact (hnotMem (detachesNone_of_isLooking hlooking))
        · simpa using hact
      cases hback with
      | kept _ hback => exact absurd hlate (hnotMem hback.detachesNone)
      | half _ hback _ hacts =>
          refine absurd hlate (hnotMem (detachesNone_append.mpr ⟨hback.detachesNone, ?_⟩))
          rcases hacts with rfl | ⟨data, -, rfl⟩ <;> simp [unassignPage, Act.isDetach]
      | @done back data' d' hback hdmabuf =>
          have hbuffer : .detach d a ∈ [unassignPage vmids page 0, .read p data', .detach d' b,
              .put d', .delete c p] :=
            (List.mem_append.mp hlate).resolve_left (hnotMem hback.detachesNone)
          obtain ⟨rfl, rfl⟩ : d = d' ∧ a = b := by simpa [unassignPage] using hbuffer
          refine ⟨p, data, data', t, ⟨_, rfl⟩, ⟨_, _, rfl, hspares⟩, ?_, hsgt, hdmabuf, ?_⟩
          · refine ⟨.find c u.id (some p) :: looks ++ .read p data ::
              .unmapAttachment a t DMA_BIDIRECTIONAL :: (back ++ [unassignPage vmids page 0]),
              [.detach d a, .put d, .delete c p], ?_, sparesEntries_append.mpr ⟨hspares, ?_⟩⟩
            · simp only [List.append_assoc, List.cons_append, List.nil_append]
            · simp [Act.sparesEntries, unassignPage, hback.sparesEntries]
          · intro e he
            exact ⟨_, List.mem_append_right _
              (.tail _ (.tail _ (List.mem_append_left _ (hback.all e he))))⟩

end Shapes

/-! ## Services -/

section Services

variable {u : KiumdUser} {result : Option Int}

/-- A service that assigns nothing detaches no memory that is lent. -/
theorem LentStays.detaches (h : LentStays s w (acts trace)) (hkept : ∀ addr, Kept w (.phys addr))
    (hsteps : Steps kernel w trace w') (hnone : AssignsNone (acts trace)) :
    DetachesOwned w trace := by
  refine detachesOwned_of_owner hsteps hnone.detachesLast fun d a addr hdetach hhas => ?_
  rw [steps_owner hsteps, ownerAfter_of_not_assigned hnone.not_assigned]
  refine (hkept addr).resolve_right ?_
  rintro ⟨c, p, hentry⟩
  exact h.apart d a addr hdetach hhas hnone.not_assigned c p hentry

/-- A SECURE_MAP that detaches its buffer has taken back what it has lent. -/
theorem LentStays.detaches_secureMap (h : LentStays s w (acts trace))
    (hkept : ∀ addr, Kept w (.phys addr)) (hsteps : Steps kernel w trace w')
    (hshape : SecureMapShape u c (acts trace) result) : DetachesOwned w trace := by
  refine detachesOwned_of_owner hsteps hshape.detachesLast fun d a addr hdetach hhas => ?_
  rw [steps_owner hsteps]
  by_cases hassigned : Assigned (.phys addr) (acts trace)
  · obtain ⟨dst, hgives⟩ : ∃ dst, GivesThenBack (.phys addr) dst (acts trace) := hshape.thenBack
    exact hgives.owner (h.back d a addr hdetach hhas hassigned)
  · rw [ownerAfter_of_not_assigned hassigned]
    refine (hkept addr).resolve_right ?_
    rintro ⟨c', p, hentry⟩
    exact h.apart d a addr hdetach hhas hassigned c' p hentry

/-- SECURE_UNMAP has taken back the memory of each buffer that it detaches. -/
theorem SecureUnmapShape.detaches (hb : Backed noNeeds w 0) (hsteps : Steps kernel w trace w')
    (hshape : SecureUnmapShape u c (acts trace) result) : DetachesOwned w trace := by
  refine detachesOwned_of_owner hsteps hshape.detachesLast fun d a addr hdetach hhas => ?_
  obtain ⟨p, data, data', t, ⟨rest, hfind⟩, ⟨before, after, hread, hspares⟩,
    ⟨before', after', hread', hspares'⟩, hsgt, hdmabuf, hback⟩ := hshape.detached hdetach
  have hfound : acts trace = [] ++ .find c u.id (some p) :: rest := hfind
  have hmem : p ∈ w.table c := (find_steps hsteps hfound sparesEntries_nil (.inl rfl)).1
  have hdata : data = w.smaps p := read_held_steps hsteps hread hspares (hb.smap_mem hmem)
  have hdata' : data' = w.smaps p := read_held_steps hsteps hread' hspares' (hb.smap_mem hmem)
  rw [hdata] at hsgt
  rw [hdata'] at hdmabuf
  -- the table of the entry is that of its buffer
  have hsgl : t.sgl = d.sg := by
    cases hb.shaped c p hmem with
    | buffer d' a' hbuffer =>
        obtain rfl : d' = d := Option.some.inj (hbuffer.dmabuf.symm.trans hdmabuf)
        obtain rfl : a'.table = t := Option.some.inj (hbuffer.sgt.symm.trans hsgt)
        exact hbuffer.fits.2.2.1
    | mmio m _ hnone _ =>
        rw [hnone] at hdmabuf
        cases hdmabuf
  obtain ⟨e, he, hcontains⟩ := hhas
  rw [← hsgl] at he
  obtain ⟨src, hassign⟩ := hback e he
  rw [steps_owner hsteps]
  refine ownerAfter_hlos (hshape.assignsOnly.mono fun _ _ hdst _ => hdst) (.inr ?_)
  exact ⟨_, src, hlosAlone, hassign, hcontains⟩

/-- A service that meets the condition detaches only buffers that HLOS alone owns, and lends no
memory without an entry. -/
theorem kiumdService_detaches (s : Service) (hb : Backed noNeeds w 0)
    (hkept : ∀ addr, Kept w (.phys addr)) :
    wp kernel .any (kiumdService s) (fun trace _ w' => DetachesFit history s w trace →
      DetachesOwned w trace ∧ ∀ addr, Kept w' (.phys addr)) w := by
  refine ⟨fun _ _ _ _ _ => trivial, fun trace result w' hexec hfits => ?_⟩
  have hleaks : ∀ addr, Kept w' (.phys addr) ∨ Leaks (.phys addr) s (acts trace) := fun addr =>
    wp_exec (kiumdService_kept s hb (hkept addr)) hexec
  have hstays : ∀ h : LentStays s w (acts trace), ∀ addr, Kept w' (.phys addr) := fun h addr =>
    (hleaks addr).resolve_right (h.kept addr)
  have hnone := wp_exec (kiumdService_assignsNone s hb) hexec
  have hplain : ∀ h : LentStays s w (acts trace), s.isSecure = false →
      DetachesOwned w trace ∧ ∀ addr, Kept w' (.phys addr) := fun h hsecure =>
    ⟨h.detaches hkept hexec.steps (hnone hsecure), hstays h⟩
  cases s with
  | ioctl i =>
      have hshape : IoctlShape i (acts trace) result :=
        (kiumdIoctl_shows i).exec driver_admits hexec
      obtain ⟨c, request⟩ := i
      cases request with
      | secureMap u =>
          exact ⟨(hfits rfl).detaches_secureMap hkept hexec.steps hshape, hstays (hfits rfl)⟩
      | secureUnmap u =>
          refine ⟨SecureUnmapShape.detaches hb hexec.steps hshape, fun addr => ?_⟩
          exact (hleaks addr).resolve_right fun hleak => by cases hleak
      | mapBuf | unmapBuf | mmioMap | mmioUnmap => exact hplain (hfits rfl) rfl
  | iovaMapCtrl | close => exact hplain (hfits rfl) rfl

end Services

/-! ## Runs -/

variable {w₀ : World}

/-- All memory of buffers that HLOS does not own alone is that of secure mappings in a table. -/
theorem service_run_kept (hstart : w₀.Fresh)
    (hhlos : ∀ addr, w₀.owner (.phys addr) = {QCOM_SCM_VMID_HLOS})
    (h : Run kernel kiumdService DetachesFit w₀ history w) (addr : Nat) : Kept w (.phys addr) := by
  have hinv : Backed noNeeds w 0 ∧ ∀ addr, Kept w (.phys addr) := by
    refine h.invariant (fun _ w => Backed noNeeds w 0 ∧ ∀ addr, Kept w (.phys addr))
      ⟨hstart.backed, fun addr => .inl (hhlos addr)⟩ ?_
    rintro history s w ⟨hb, hkept⟩
    refine ⟨fun _ _ _ _ _ => trivial, fun trace result w' hexec hfits => ?_⟩
    exact ⟨wp_exec (kiumdService_keeps s hb) hexec,
      (wp_exec (kiumdService_detaches s hb hkept) hexec hfits).2⟩
  exact hinv.2 addr

/-- In every run of services from a state in which HLOS alone owns the memory of buffers, whatever
fails, in which no service leaves lent memory without an entry, a SECURE_MAP that detaches its
buffer has taken back what it has lent, and only SECURE_UNMAP detaches memory of a secure mapping:
whenever a further such service detaches a buffer, HLOS alone owns all of its memory. -/
theorem service_run_detaches_owned (hstart : w₀.Fresh)
    (hhlos : ∀ addr, w₀.owner (.phys addr) = {QCOM_SCM_VMID_HLOS})
    (h : Run kernel kiumdService DetachesFit w₀ history w) :
    DetachesRight DetachesFit history w := by
  intro s trace result w' hexec hfits
  have hb := service_run_backed hstart h
  exact (wp_exec (kiumdService_detaches s hb (service_run_kept hstart hhlos h)) hexec hfits).1

/-- A buffer with the address is detached. -/
def Act.detachesAt (addr : Nat) : Act → Bool
  | .detach d _ => d.sg.any fun e => (MemRange.sg e).contains (.phys addr)
  | _ => false

/-- The entry of a buffer is added to the table of the context `c`. -/
def Act.addsBuffer (c : Nat) : Act → Bool
  | .add c' _ _ _ => decide (c' = c)
  | _ => false

/-- SECURE_UNMAP takes the memory of a secure mapping back before it detaches the buffer. -/
theorem service_run_detaches_owned_secure : ∃ history w trace result w',
    Run kernel kiumdService DetachesFit .initial history w ∧
      history.map (·.1) = [.ioctl ⟨0, .secureMap plainUser⟩] ∧ 9 ∈ w.owner (.phys 0x4000) ∧
      Exec kernel (kiumdService (.ioctl ⟨0, .secureUnmap plainUser⟩)) w trace result w' ∧
      (∃ act ∈ acts trace, act.detachesAt 0x4000 = true) ∧ DetachesOwned w trace := by
  let choose := (Answers.plain fun _ _ => false).choose
  let first : Service := .ioctl ⟨0, .secureMap plainUser⟩
  let second : Service := .ioctl ⟨0, .secureUnmap plainUser⟩
  have hcheck : (kiumdService first).check kernel choose .initial (fun t₁ _ w₁ =>
      decide (DetachesNone (acts t₁)) && decide (∃ act ∈ acts t₁, act.addsBuffer 0 = true) &&
        decide (9 ∈ w₁.owner (.phys 0x4000)) &&
        (kiumdService second).check kernel choose w₁ (fun t₂ _ _ =>
          decide (∃ act ∈ acts t₂, act.detachesAt 0x4000 = true))) = true := by
    decide +kernel
  obtain ⟨t₁, value₁, w₁, hexec₁, htest₁⟩ := Program.check_exec hcheck
  simp only [Bool.and_eq_true, decide_eq_true_eq] at htest₁
  obtain ⟨⟨⟨hnone, act, hact, hadds⟩, howner⟩, hcheck₂⟩ := htest₁
  obtain ⟨t₂, value₂, w₂, hexec₂, htest₂⟩ := Program.check_exec hcheck₂
  have hkept : ∀ addr, ¬ Leaks (.phys addr) (.ioctl ⟨0, .secureMap plainUser⟩) (acts t₁) := by
    intro addr hleaks
    cases hleaks with
    | unpublished _ hunpublished =>
        cases act with
        | add c p data id =>
            obtain rfl : c = 0 := of_decide_eq_true hadds
            exact hunpublished p data id hact
        | _ => cases hadds
  have hstays : LentStays first .initial (acts t₁) := by
    refine ⟨hkept, fun d a addr hdetach => ?_, fun d a addr hdetach => ?_⟩
    all_goals cases hnone _ hdetach
  have hrun : Run kernel kiumdService DetachesFit .initial [(first, t₁)] w₁ :=
    .request .start hexec₁ fun _ => hstays
  exact ⟨_, w₁, t₂, _, w₂, hrun, rfl, howner, hexec₂, of_decide_eq_true htest₂,
    service_run_detaches_owned fresh_initial (fun _ => rfl) hrun second t₂ _ w₂ hexec₂
      fun hkind => by cases hkind⟩

/-- UNMAP_BUF detaches the buffer of a secure mapping while the machine 9 owns its memory. -/
theorem not_service_run_detaches_owned : ¬ ∀ history w,
    Run kernel kiumdService MappingsOnly .initial history w →
      DetachesRight MappingsOnly history w := by
  intro hall
  let choose := (Answers.plain fun _ _ => false).choose
  let first : Service := .ioctl ⟨0, .secureMap plainUser⟩
  let second : Service := .ioctl ⟨0, .unmapBuf plainUser⟩
  have hcheck : (kiumdService first).check kernel choose .initial (fun _ _ w₁ =>
      decide (9 ∈ w₁.owner (.phys 0x4000)) &&
        (kiumdService second).check kernel choose w₁ (fun t₂ ret _ => decide (ret = 0) &&
          decide (∃ act ∈ acts t₂, act.detachesAt 0x4000 = true))) = true := by
    decide +kernel
  obtain ⟨t₁, value₁, w₁, hexec₁, htest₁⟩ := Program.check_exec hcheck
  rw [Bool.and_eq_true, decide_eq_true_eq] at htest₁
  obtain ⟨t₂, value₂, w₂, hexec₂, htest₂⟩ := Program.check_exec htest₁.2
  simp only [Bool.and_eq_true, decide_eq_true_eq] at htest₂
  obtain ⟨-, act, hact, hdetaches⟩ := htest₂
  cases act with
  | detach d a =>
      have hhas : d.Has 0x4000 := by simpa [Act.detachesAt, DmaBuf.Has] using hdetaches
      obtain ⟨before, after, hsplit⟩ := List.append_of_mem hact
      obtain ⟨past, e, rest, htrace, hpast, hview, -⟩ := Observer.exists_event hsplit
      have hsteps := hexec₂.steps
      rw [htrace] at hsteps
      obtain ⟨w₃, hbefore, -⟩ := steps_append_iff.mp hsteps
      have hright := hall _ _ (.request .start hexec₁ rfl) second t₂ _ w₂ hexec₂ rfl
      have howned := hright past e rest w₃ d a htrace hbefore hview 0x4000 hhas
      -- nothing is assigned on the way to the detach
      have hshape : UnmapShape plainUser 0 (acts t₂) _ :=
        (kiumdIoctl_shows ⟨0, .unmapBuf plainUser⟩).exec driver_admits hexec₂
      have hnone : AssignsNone (acts past) := by
        have hassigns := hshape.assignsNone
        rw [hsplit, assignsNone_append] at hassigns
        rw [acts, hpast]
        exact hassigns.1
      rw [steps_owner hbefore, ownerAfter_of_not_assigned hnone.not_assigned] at howned
      have hmem := htest₁.1
      rw [howned] at hmem
      exact absurd hmem (by decide)
  | _ => cases hdetaches

end SafeLinux.Kiumd
