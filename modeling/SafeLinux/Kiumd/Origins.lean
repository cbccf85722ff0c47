import SafeLinux.Kiumd.Creators

/-!
# What a request did to create an entry

A request that adds an entry has mapped a buffer or a region on the way. `Origin` says of each
kind of entry which mappings were made, what memory was handed over, and which data the entry got;
`Creation.origin` reads it off the actions of the request.
-/

namespace SafeLinux.Kiumd

open Effects

/-! ## Mappings and owners -/

/-- A DMA mapping, by the interface that made it, with all that it was made with. -/
inductive DmaMapping where
  | attachment (a : Attachment) (t : SgTable) (dir : Int)
  | sgtable (dev : Device) (t : SgTable) (dir attrs : Int)
  | resource (dev : Device) (iova size : U64)
  deriving DecidableEq

/-- The DMA mapping that an action makes. -/
def Act.maps : Act → Option DmaMapping
  | .mapAttachment a dir t => some (.attachment a t dir)
  | .mapSgtable dev t dir attrs => some (.sgtable dev t dir attrs)
  | .mapResource dev _ size iova => some (.resource dev iova size)
  | _ => none

/-- The DMA mapping that an action removes. -/
def Act.unmaps : Act → Option DmaMapping
  | .unmapAttachment a t dir => some (.attachment a t dir)
  | .unmapSgtable dev t dir attrs => some (.sgtable dev t dir attrs)
  | .unmapResource dev iova size => some (.resource dev iova size)
  | _ => none

/-- The domain in which an action makes a mapping at IOVA zero; a negative result is an error. -/
def Act.mapsZero : Act → Option Domain
  | .mapSg dom _ _ _ result => if 0 ≤ result then some dom else none
  | _ => none

/-- The domain in which an action removes a mapping at IOVA zero. -/
def Act.unmapsZero : Act → Option Domain
  | .unmap dom _ _ _ => some dom
  | _ => none

/-- The memory of which an action changes the owners. -/
def Act.handsOver : Act → Option MemRange
  | .assign range _ _ ret => if ret = 0 then some range else none
  | _ => none

/-- The memory that an action gives back to HLOS. -/
def Act.takesBack : Act → Option MemRange
  | .assign range _ dst ret => if ret = 0 ∧ dst = hlosAlone then some range else none
  | _ => none

/-- The DMA mappings that some actions make. -/
def mapsOf (as : List Act) : List DmaMapping := as.filterMap Act.maps

/-- The DMA mappings that some actions remove. -/
def unmapsOf (as : List Act) : List DmaMapping := as.filterMap Act.unmaps

/-- The domains in which some actions make a mapping at IOVA zero. -/
def zeroMapsOf (as : List Act) : List Domain := as.filterMap Act.mapsZero

/-- The domains in which some actions remove a mapping at IOVA zero. -/
def zeroUnmapsOf (as : List Act) : List Domain := as.filterMap Act.unmapsZero

/-- The memory of which some actions change the owners. -/
def handedOver (as : List Act) : List MemRange := as.filterMap Act.handsOver

/-- The memory that some actions give back to HLOS. -/
def takenBack (as : List Act) : List MemRange := as.filterMap Act.takesBack

/-! ## Origins -/

/-- The kinds of entries: what the request did that created the entry `p`, and its data. -/
inductive Origin (w : World) (p : Nat) (as : List Act) : Request → Prop where
  /-- A buffer mapped by MAP_BUF. -/
  | buffer {u : KiumdUser} {v : VfioDevice} {d : DmaBuf} {a : Attachment} {maps : List Act}
      {id : U32} : w.smaps p = { mapEntry u v d a with id := id } → v.dev = some a.dev →
      MapsBuffer u a maps → mapsOf as = mapsOf maps → zeroMapsOf as = zeroMapsOf maps →
      handedOver as = [] → Origin w p as (.mapBuf u)
  /-- A buffer mapped by SECURE_MAP. -/
  | secure {u : KiumdUser} {d : DmaBuf} {a : Attachment} {id : U32} {page : U64} :
      w.smaps p = { secureEntry d a with id := id } →
      .attachment a a.table u.unmapDir ∈ mapsOf as → zeroMapsOf as = [] →
      .pgd a.dev.domain page ∈ as →
      (∀ range, range ∈ handedOver as ↔ range = .pgd page ∨ ∃ e ∈ a.table.sgl, range = .sg e) →
      Origin w p as (.secureMap u)
  /-- A region mapped by MMIO_MAP. -/
  | mmio {ret₀ : Int} {u : KiumdSmmuMmioMap} {m : Nat} {dev : Device} {iova size : U64}
      {id : U32} : w.smaps p = { id := id, context := some m } →
      w.mmioCtxs m = ⟨dev, iova, size⟩ → .resource dev iova size ∈ mapsOf as →
      zeroMapsOf as = [] → handedOver as = [] → Origin w p as (.mmioMap ret₀ u)

/-! ## Actions that concern no mapping -/

/-- The action neither maps nor unmaps, nor changes owners. -/
def Act.isInert : Act → Bool
  | .mapAttachment _ _ _ | .mapSgtable _ _ _ _ | .mapResource _ _ _ _ | .unmapAttachment _ _ _
  | .unmapSgtable _ _ _ _ | .unmapResource _ _ _ | .mapSg _ _ _ _ _ | .unmap _ _ _ _
  | .assign _ _ _ _ => false
  | _ => true

/-- None of the actions concerns a mapping or the owners of memory. -/
def Inert (as : List Act) : Prop := ∀ act ∈ as, act.isInert = true

variable {as bs : List Act} {act : Act}

@[simp] theorem mapsOf_append : mapsOf (as ++ bs) = mapsOf as ++ mapsOf bs :=
  List.filterMap_append

@[simp] theorem unmapsOf_append : unmapsOf (as ++ bs) = unmapsOf as ++ unmapsOf bs :=
  List.filterMap_append

@[simp] theorem zeroMapsOf_append : zeroMapsOf (as ++ bs) = zeroMapsOf as ++ zeroMapsOf bs :=
  List.filterMap_append

@[simp] theorem zeroUnmapsOf_append :
    zeroUnmapsOf (as ++ bs) = zeroUnmapsOf as ++ zeroUnmapsOf bs :=
  List.filterMap_append

@[simp] theorem handedOver_append : handedOver (as ++ bs) = handedOver as ++ handedOver bs :=
  List.filterMap_append

@[simp] theorem takenBack_append : takenBack (as ++ bs) = takenBack as ++ takenBack bs :=
  List.filterMap_append

namespace Inert

theorem nil : Inert [] := fun _ hact => absurd hact List.not_mem_nil

theorem cons (h : act.isInert = true) (has : Inert as) : Inert (act :: as) :=
  List.forall_mem_cons.mpr ⟨h, has⟩

theorem append (h : Inert as) (h' : Inert bs) : Inert (as ++ bs) :=
  List.forall_mem_append.mpr ⟨h, h'⟩

/-- Nothing of a kind is found among the actions. -/
theorem filterMap_eq_nil {γ : Type} {f : Act → Option γ} (h : Inert as)
    (hf : ∀ act : Act, act.isInert = true → f act = none) : as.filterMap f = [] :=
  List.filterMap_eq_nil_iff.mpr fun act hact => hf act (h act hact)

theorem mapsOf_eq (h : Inert as) : mapsOf as = [] :=
  h.filterMap_eq_nil fun act hact => by cases act <;> first | rfl | cases hact

theorem unmapsOf_eq (h : Inert as) : unmapsOf as = [] :=
  h.filterMap_eq_nil fun act hact => by cases act <;> first | rfl | cases hact

theorem zeroMapsOf_eq (h : Inert as) : zeroMapsOf as = [] :=
  h.filterMap_eq_nil fun act hact => by cases act <;> first | rfl | cases hact

theorem zeroUnmapsOf_eq (h : Inert as) : zeroUnmapsOf as = [] :=
  h.filterMap_eq_nil fun act hact => by cases act <;> first | rfl | cases hact

theorem handedOver_eq (h : Inert as) : handedOver as = [] :=
  h.filterMap_eq_nil fun act hact => by cases act <;> first | rfl | cases hact

theorem takenBack_eq (h : Inert as) : takenBack as = [] :=
  h.filterMap_eq_nil fun act hact => by cases act <;> first | rfl | cases hact

end Inert

theorem inert_of_isOpening (h : ∀ act ∈ as, act.isOpening = true) : Inert as := fun act hact => by
  have hopening := h act hact
  cases act <;> first | rfl | cases hopening

theorem inert_of_isSearch (h : ∀ act ∈ as, act.isSearch = true) : Inert as := fun act hact => by
  have hsearch := h act hact
  cases act <;> first | rfl | cases hsearch

theorem inert_of_isLooking (h : ∀ act ∈ as, act.isLooking = true) : Inert as := fun act hact => by
  have hlooking := h act hact
  cases act <;> first | rfl | cases hlooking

theorem inert_aclActs {list index : Nat} {entries : List KiumdAclEntry} :
    Inert (aclActs list index entries) :=
  inert_of_isLooking fun act hact => Act.isLooking_of_isAcl (aclActs_isAcl act hact)

theorem OffsetShape.inert {size : U64} {ptselect : Int} {result : Option Int}
    (h : OffsetShape size ptselect as result) : Inert as := by
  cases h with
  | refused _ hsearches => exact inert_of_isSearch hsearches
  | taken hsearches _ _ =>
      refine (inert_of_isSearch hsearches).append ?_
      simp [Inert, reserveActs, Act.isInert]

theorem AddressShape.inert {u : KiumdUser} {t : SgTable} {addr : U64}
    (h : AddressShape u t as addr) : Inert as := by
  cases h <;> simp [Inert, Act.isInert]

/-! ## Buffers -/

/-- The actions of a request that has added the entry of the action `act` for a buffer. -/
def MapsEntry (u : KiumdUser) (c : Nat) (as : List Act) (act : Act) : Prop :=
  ∃ v d a maps p id, act = .add c p (mapEntry u v d a) id ∧ v.dev = some a.dev ∧
    MapsBuffer u a maps ∧ mapsOf as = mapsOf maps ∧ zeroMapsOf as = zeroMapsOf maps ∧
    handedOver as = []

variable {u : KiumdUser} {c p : Nat} {v : VfioDevice} {d : DmaBuf} {a : Attachment}
  {result : Option Int} {w : World}

theorem MapsEntry.prepend (h : MapsEntry u c bs act) (has : Inert as) :
    MapsEntry u c (as ++ bs) act := by
  obtain ⟨v, d, a, maps, p, id, hact, hdev, hmaps, hmade, hzero, hhanded⟩ := h
  refine ⟨v, d, a, maps, p, id, hact, hdev, hmaps, ?_, ?_, ?_⟩
  · rw [mapsOf_append, has.mapsOf_eq, hmade, List.nil_append]
  · rw [zeroMapsOf_append, has.zeroMapsOf_eq, hzero, List.nil_append]
  · rw [handedOver_append, has.handedOver_eq, hhanded, List.nil_append]

theorem Describes.adds (h : Describes w c p act) : act.adds = true := by
  cases h <;> rfl

/-- An action that adds an entry is not among actions that add none. -/
theorem AddsNone.not_mem (h : AddsNone as) (hadds : act.adds = true) : act ∉ as := fun hact => by
  rw [h act hact] at hadds
  cases hadds

theorem MapsBuffer.handedOver_eq (h : MapsBuffer u a as) : handedOver as = [] := by
  cases h <;> simp [handedOver, Act.handsOver]

theorem PublishShape.mapsEntry {maps : List Act} (h : PublishShape u c v d a as result)
    (hdev : v.dev = some a.dev) (hmaps : MapsBuffer u a maps) (hact : act ∈ as)
    (hadds : act.adds = true) : MapsEntry u c (maps ++ as) act := by
  -- The actions after the entry is added map nothing.
  have hentry : ∀ {p : Nat} {id : U32} {addrs : List Act} {addr : U64} (rest : List Act),
      act ∈ .alloc p :: .add c p (mapEntry u v d a) id :: addrs ++ rest →
      AddressShape u a.table addrs addr → AddsNone rest →
      mapsOf rest = [] → zeroMapsOf rest = [] → handedOver rest = [] →
      MapsEntry u c (maps ++ (.alloc p :: .add c p (mapEntry u v d a) id :: addrs ++ rest))
        act := by
    intro p id addrs addr rest hmem haddr hrest hmade hzero hhanded
    have hnew : Inert (.alloc p :: .add c p (mapEntry u v d a) id :: addrs) :=
      .cons rfl (.cons rfl haddr.inert)
    have hadd : act = .add c p (mapEntry u v d a) id := by
      rcases List.mem_append.mp hmem with hmem | hmem
      · rcases List.mem_cons.mp hmem with rfl | hmem
        · cases hadds
        · exact (List.mem_cons.mp hmem).resolve_right
            (haddr.sparesEntries.addsNone.not_mem hadds)
      · exact absurd hmem (hrest.not_mem hadds)
    refine ⟨v, d, a, maps, p, id, hadd, hdev, hmaps, ?_, ?_, ?_⟩
    · rw [mapsOf_append, mapsOf_append, hnew.mapsOf_eq, hmade]
      simp
    · rw [zeroMapsOf_append, zeroMapsOf_append, hnew.zeroMapsOf_eq, hzero]
      simp
    · rw [handedOver_append, handedOver_append, hnew.handedOver_eq, hhanded,
        hmaps.handedOver_eq]
      simp
  cases h with
  | unpublished _ => exact absurd hact List.not_mem_nil
  | stale _ haddr =>
      exact hentry _ hact haddr (by simp [AddsNone, Act.adds]) (by simp [mapsOf, Act.maps])
        (by simp [zeroMapsOf, Act.mapsZero]) (by simp [handedOver, Act.handsOver])
  | done haddr =>
      exact hentry _ hact haddr (by simp [AddsNone, Act.adds]) (by simp [mapsOf, Act.maps])
        (by simp [zeroMapsOf, Act.mapsZero]) (by simp [handedOver, Act.handsOver])

theorem AttachShape.mapsEntry (h : AttachShape u c v d as result) (hact : act ∈ as)
    (hadds : act.adds = true) : MapsEntry u c as act := by
  have hnone : ∀ {rest : List Act}, act ∈ rest → AddsNone rest → MapsEntry u c as act :=
    fun hmem hrest => absurd hmem (hrest.not_mem hadds)
  cases h with
  | refused _ => exact hnone hact (by simp [AddsNone, Act.adds])
  | @attached a rest _ _ hdev hattached =>
      have hattach : Inert [.attach d a] := by simp [Inert, Act.isInert]
      have hrest : act ∈ rest := by
        rcases List.mem_cons.mp hact with rfl | hmem
        · cases hadds
        · exact hmem
      refine MapsEntry.prepend ?_ hattach
      cases hattached with
      | detached _ => exact absurd hrest (AddsNone.not_mem (by simp [AddsNone, Act.adds]) hadds)
      | undomained _ _ =>
          exact absurd hrest (AddsNone.not_mem (by simp [AddsNone, Act.adds]) hadds)
      | mapped hmaps hpublish =>
          refine hpublish.mapsEntry hdev hmaps ?_ hadds
          exact (List.mem_append.mp hrest).resolve_left
            (hmaps.sparesEntries.addsNone.not_mem hadds)

theorem openActs_inert {file : File} : Inert (openActs u p file d) := by
  simp [Inert, openActs, Act.isInert]

theorem MapShape.mapsEntry (h : MapShape u c as result) (hact : act ∈ as)
    (hadds : act.adds = true) : MapsEntry u c as act := by
  have hopen : ∀ {p : Nat} {file : File} {d : DmaBuf}, AddsNone (openActs u p file d) := by
    simp [AddsNone, openActs, Act.adds]
  have hlate : ∀ {xs ys : List Act}, act ∈ xs ++ ys → AddsNone xs → act ∈ ys :=
    fun hmem hxs => (List.mem_append.mp hmem).resolve_left (hxs.not_mem hadds)
  cases h with
  | early _ hopening => exact absurd hact ((addsNone_of_isOpening hopening).not_mem hadds)
  | unreserved _ _ _ hoffset =>
      have hput := hlate (hlate hact hopen) hoffset.sparesEntries.addsNone
      exact absurd hput (AddsNone.not_mem (by simp [AddsNone, Act.adds]) hadds)
  | uncookied _ _ _ _ hoffset =>
      have hput := hlate (hlate hact hopen) hoffset.sparesEntries.addsNone
      exact absurd hput (AddsNone.not_mem (by simp [AddsNone, Act.adds]) hadds)
  | @reserved p file v d offset rest dev reserved _ _ _ _ hoffset _ hattach =>
      have hcookie : Inert [.cookie dev.domain .msi
          (mapIova (BitVec.ofInt 64 reserved) u.ptselect)] := by simp [Inert, Act.isInert]
      have hrest : act ∈ rest := by
        rcases List.mem_cons.mp (hlate (hlate hact hopen) hoffset.sparesEntries.addsNone) with
          rfl | hmem
        · cases hadds
        · exact hmem
      exact (((hattach.mapsEntry hrest hadds).prepend hcookie).prepend
        hoffset.inert).prepend openActs_inert
  | plain _ _ hattach =>
      exact (hattach.mapsEntry (hlate hact hopen) hadds).prepend openActs_inert

/-! ## Secure buffers -/

theorem mem_handedOver {range : MemRange} :
    range ∈ handedOver as ↔ ∃ src dst, .assign range src dst 0 ∈ as := by
  constructor
  · intro h
    obtain ⟨act, hact, hrange⟩ := List.mem_filterMap.mp h
    cases act <;> simp only [Act.handsOver] at hrange <;> first | cases hrange | skip
    split at hrange <;> cases hrange
    rename_i hret
    subst hret
    exact ⟨_, _, hact⟩
  · rintro ⟨src, dst, hact⟩
    exact List.mem_filterMap.mpr ⟨_, hact, by simp [Act.handsOver]⟩

theorem mem_takenBack {range : MemRange} :
    range ∈ takenBack as ↔ ∃ src, .assign range src hlosAlone 0 ∈ as := by
  constructor
  · intro h
    obtain ⟨act, hact, hrange⟩ := List.mem_filterMap.mp h
    cases act <;> simp only [Act.takesBack] at hrange <;> first | cases hrange | skip
    split at hrange <;> cases hrange
    rename_i hassign
    obtain ⟨rfl, rfl⟩ := hassign
    exact ⟨_, hact⟩
  · rintro ⟨src, hact⟩
    exact List.mem_filterMap.mpr ⟨_, hact, by simp [Act.takesBack]⟩

section

variable {src : U64} {dst : List QcomScmVmperm} {sgl : List SgEntry} {t : SgTable}

/-- The loop over a scatterlist changes the owners of its entries only. -/
theorem EntriesShape.mem (h : EntriesShape src dst sgl as result) :
    ∀ act ∈ as, ∃ e ∈ sgl, ∃ ret, act = .assign (.sg e) src dst ret := by
  induction h with
  | done => simp
  | stopped _ => simp
  | @next sg rest acts result _ ih =>
      refine List.forall_mem_cons.mpr ⟨⟨sg, List.mem_cons_self, 0, rfl⟩, fun act hact => ?_⟩
      obtain ⟨e, he, hret⟩ := ih act hact
      exact ⟨e, List.mem_cons_of_mem sg he, hret⟩

/-- A loop that succeeds changes the owners of all entries. -/
theorem EntriesShape.all (h : EntriesShape src dst sgl as result) (hresult : result = some 0) :
    ∀ e ∈ sgl, .assign (.sg e) src dst 0 ∈ as := by
  induction h with
  | done => simp
  | stopped hret =>
      cases hresult
      exact absurd hret (lt_irrefl 0)
  | @next sg rest acts result _ ih =>
      refine List.forall_mem_cons.mpr ⟨List.mem_cons_self, fun e he => ?_⟩
      exact List.mem_cons_of_mem _ (ih hresult e he)

theorem AssignShape.mem (h : AssignShape src dst t as result) :
    ∀ act ∈ as, ∃ e ∈ t.sgl, ∃ ret, act = .assign (.sg e) src dst ret := by
  cases h with
  | refused _ => simp
  | entries _ h => exact h.mem

theorem AssignShape.all (h : AssignShape src dst t as (some 0)) :
    ∀ e ∈ t.sgl, .assign (.sg e) src dst 0 ∈ as := by
  cases h with
  | refused hret => exact absurd hret (lt_irrefl 0)
  | entries _ h => exact h.all rfl

/-- The memory whose owners a table's assignment changes. -/
theorem AssignShape.handedOver_mem (h : AssignShape src dst t as result) :
    ∀ range ∈ handedOver as, ∃ e ∈ t.sgl, range = .sg e := by
  intro range hrange
  obtain ⟨_, _, hact⟩ := mem_handedOver.mp hrange
  obtain ⟨e, he, ret, heq⟩ := h.mem _ hact
  cases heq
  exact ⟨e, he, rfl⟩

/-- Assignments are neither mappings nor additions. -/
theorem AssignShape.mapsOf_eq (h : AssignShape src dst t as result) : mapsOf as = [] := by
  refine List.filterMap_eq_nil_iff.mpr fun act hact => ?_
  obtain ⟨e, _, ret, rfl⟩ := h.mem act hact
  rfl

theorem AssignShape.zeroMapsOf_eq (h : AssignShape src dst t as result) : zeroMapsOf as = [] := by
  refine List.filterMap_eq_nil_iff.mpr fun act hact => ?_
  obtain ⟨e, _, ret, rfl⟩ := h.mem act hact
  rfl

end

/-- The actions of a request that has added the entry of the action `act` for a secure buffer. -/
def SecuresEntry (u : KiumdUser) (c : Nat) (as : List Act) (act : Act) : Prop :=
  ∃ d a p id page, act = .add c p (secureEntry d a) id ∧
    .attachment a a.table u.unmapDir ∈ mapsOf as ∧ zeroMapsOf as = [] ∧
    .pgd a.dev.domain page ∈ as ∧
    ∀ range, range ∈ handedOver as ↔ range = .pgd page ∨ ∃ e ∈ a.table.sgl, range = .sg e

theorem SecurePublishShape.entry {vmids : List Int} {page : U64}
    (h : SecurePublishShape u c vmids page d a as result) (hact : act ∈ as)
    (hadds : act.adds = true) : (∃ p id, act = .add c p (secureEntry d a) id) ∧
      zeroMapsOf as = [] ∧
      ∀ range ∈ handedOver as, range = .pgd page ∨ ∃ e ∈ a.table.sgl, range = .sg e := by
  cases h with
  | unpublished _ => exact absurd hact List.not_mem_nil
  | @stale p id addr back taken ret ret' _ hback =>
      have htail : AddsNone (unassignTableActs vmids page ret' d a) := by
        simp [AddsNone, unassignTableActs, unassignPage, Act.adds]
      refine ⟨⟨p, id, ?_⟩, ?_, ?_⟩
      · simp only [List.mem_cons, List.mem_append] at hact
        rcases hact with rfl | rfl | rfl | rfl | rfl | hmem | hmem
        · cases hadds
        · rfl
        · cases hadds
        · cases hadds
        · cases hadds
        · exact absurd hmem (hback.sparesEntries.addsNone.not_mem hadds)
        · exact absurd hmem (htail.not_mem hadds)
      · show zeroMapsOf (back ++ unassignTableActs vmids page ret' d a) = []
        rw [zeroMapsOf_append, hback.zeroMapsOf_eq]
        rfl
      · intro range hrange
        obtain ⟨src, dst, hmem⟩ := mem_handedOver.mp hrange
        simp only [List.mem_cons, List.mem_append, reduceCtorEq, false_or] at hmem
        rcases hmem with hmem | hmem
        · exact .inr (hback.handedOver_mem range (mem_handedOver.mpr ⟨src, dst, hmem⟩))
        · left
          simp only [unassignTableActs, unassignPage, List.mem_cons, Act.assign.injEq, reduceCtorEq,
            List.not_mem_nil, or_false] at hmem
          exact hmem.1
  | @done p id addr =>
      refine ⟨⟨p, id, ?_⟩, ?_, ?_⟩
      · simp only [List.mem_cons, List.not_mem_nil, or_false] at hact
        rcases hact with rfl | rfl | rfl | rfl
        · cases hadds
        · rfl
        · cases hadds
        · cases hadds
      · simp [zeroMapsOf, Act.mapsZero]
      · simp [handedOver, Act.handsOver]

theorem PageShape.given {vmids : List Int} {page : U64} (h : PageShape vmids page as (some 0)) :
    as = [.assign (.pgd page) (vmidBit QCOM_SCM_VMID_HLOS) (pageOwners vmids) 0] := by
  cases h with
  | refused hret => exact absurd hret (lt_irrefl 0)
  | asked _ => rfl

theorem SecureAttachedShape.securesEntry {vmids perms : List Int} {page : U64}
    (h : SecureAttachedShape u c vmids perms page d a as result) (hact : act ∈ as)
    (hadds : act.adds = true) : (∃ p id, act = .add c p (secureEntry d a) id) ∧
      .attachment a a.table u.unmapDir ∈ mapsOf as ∧ zeroMapsOf as = [] ∧
      ∀ range, range ∈ handedOver as ↔ range = .pgd page ∨ ∃ e ∈ a.table.sgl, range = .sg e := by
  cases h with
  | @refused handed ret _ hhanded =>
      have hnone : AddsNone (handed ++ [.detach d a, .put d]) := by
        refine List.forall_mem_append.mpr ⟨?_, by simp [Act.adds]⟩
        rcases hhanded with rfl | hhanded
        · simp
        · exact hhanded.sparesEntries.addsNone
      exact absurd hact (hnone.not_mem hadds)
  | @unassigned handed given ret ret' hhanded _ hgiven =>
      have hnone : AddsNone (handed ++ (given ++ unassignTableActs vmids page ret' d a)) := by
        refine List.forall_mem_append.mpr ⟨hhanded.sparesEntries.addsNone, ?_⟩
        refine List.forall_mem_append.mpr ⟨hgiven.sparesEntries.addsNone, ?_⟩
        simp [unassignTableActs, unassignPage, Act.adds]
      exact absurd hact (hnone.not_mem hadds)
  | @unmapped handed given hhanded hgiven =>
      have hnone : AddsNone (handed ++ given) :=
        List.forall_mem_append.mpr ⟨hhanded.sparesEntries.addsNone, hgiven.sparesEntries.addsNone⟩
      exact absurd hact (hnone.not_mem hadds)
  | @mapped handed given rest _ hhanded hgiven hpublish =>
      have hrest : act ∈ rest := by
        rcases List.mem_append.mp hact with hmem | hmem
        · exact absurd hmem (hhanded.sparesEntries.addsNone.not_mem hadds)
        · rcases List.mem_append.mp hmem with hmem | hmem
          · exact absurd hmem (hgiven.sparesEntries.addsNone.not_mem hadds)
          · rcases List.mem_cons.mp hmem with rfl | hmem
            · cases hadds
            · exact hmem
      obtain ⟨hentry, hzero, hmemory⟩ := hpublish.entry hrest hadds
      obtain rfl := hhanded.given
      refine ⟨hentry, ?_, ?_, ?_⟩
      · rw [mapsOf_append, mapsOf_append]
        refine List.mem_append_right _ (List.mem_append_right _ ?_)
        show DmaMapping.attachment a a.table u.unmapDir ∈
          DmaMapping.attachment a a.table u.unmapDir :: mapsOf rest
        exact List.mem_cons_self
      · rw [zeroMapsOf_append, zeroMapsOf_append, hgiven.zeroMapsOf_eq]
        exact hzero
      · intro range
        constructor
        · intro hrange
          rw [handedOver_append, handedOver_append] at hrange
          rcases List.mem_append.mp hrange with hmem | hmem
          · left
            simpa [handedOver, Act.handsOver] using hmem
          · rcases List.mem_append.mp hmem with hmem | hmem
            · exact .inr (hgiven.handedOver_mem range hmem)
            · exact hmemory range hmem
        · rintro (rfl | ⟨e, he, rfl⟩)
          · exact mem_handedOver.mpr ⟨_, _, List.mem_cons_self⟩
          · have hassigned := List.mem_append_left (.mapAttachment a u.unmapDir a.table :: rest)
              (hgiven.all e he)
            exact mem_handedOver.mpr ⟨_, _, List.mem_append_right _ hassigned⟩

theorem SecureMapShape.securesEntry (h : SecureMapShape u c as result) (hact : act ∈ as)
    (hadds : act.adds = true) : SecuresEntry u c as act := by
  cases h with
  | early _ hlooking =>
      exact absurd hact ((sparesEntries_of_isLooking hlooking).addsNone.not_mem hadds)
  | @attached file v page d a entries rest _ _ _ _ _ _ _ hattached =>
      have hopen : Inert (.file u.vfioFd file :: .pgd a.dev.domain page :: .buffer u.dmaBufFd d ::
          (aclActs u.memParcel.aclList 0 entries ++ [.attach d a])) :=
        .cons rfl (.cons rfl (.cons rfl (inert_aclActs.append (.cons rfl .nil))))
      have hsplit : .file u.vfioFd file :: .pgd a.dev.domain page :: .buffer u.dmaBufFd d ::
          (aclActs u.memParcel.aclList 0 entries ++ .attach d a :: rest) =
          (.file u.vfioFd file :: .pgd a.dev.domain page :: .buffer u.dmaBufFd d ::
          (aclActs u.memParcel.aclList 0 entries ++ [.attach d a])) ++ rest := by simp
      have hrest : act ∈ rest := by
        have hacl : AddsNone (aclActs u.memParcel.aclList 0 entries) :=
          (sparesEntries_of_isAcl aclActs_isAcl).addsNone
        simp only [List.mem_cons, List.mem_append] at hact
        rcases hact with rfl | rfl | rfl | hmem | rfl | hmem
        · cases hadds
        · cases hadds
        · cases hadds
        · exact absurd hmem (hacl.not_mem hadds)
        · cases hadds
        · exact hmem
      obtain ⟨⟨p, id, hadd⟩, hmaps, hzero, hmemory⟩ := hattached.securesEntry hrest hadds
      refine ⟨d, a, p, id, page, hadd, ?_, ?_, by simp, ?_⟩
      · rw [hsplit, mapsOf_append]
        exact List.mem_append_right _ hmaps
      · rw [hsplit, zeroMapsOf_append, hopen.zeroMapsOf_eq, hzero, List.nil_append]
      · intro range
        rw [hsplit, handedOver_append, hopen.handedOver_eq, List.nil_append]
        exact hmemory range

/-! ## Regions -/

/-- The actions of a request that has added the entry of the action `act` for a region. -/
def MapsRegionEntry (c : Nat) (as : List Act) (act : Act) : Prop :=
  ∃ p m dev iova size id, act = .addMmio c p m ⟨dev, iova, size⟩ id ∧
    .resource dev iova size ∈ mapsOf as ∧ zeroMapsOf as = [] ∧ handedOver as = []

theorem MmioMapShape.mapsRegionEntry {m : KiumdSmmuMmioMap} {ret₀ : Int}
    (h : MmioMapShape m c ret₀ as result) (hact : act ∈ as) (hadds : act.adds = true) :
    MapsRegionEntry c as act := by
  cases h with
  | early _ hearly =>
      rcases hearly act hact with hopening | ⟨p, rfl⟩
      · cases act <;> simp_all [Act.isOpening, Act.adds]
      · cases hadds
  | notPlatform =>
      refine absurd hact (AddsNone.not_mem ?_ hadds)
      simp [AddsNone, Act.adds]
  | @mapped file v dev p n addr size rest _ _ _ hresource =>
      have hfix : Inert (fixCookie m dev.domain) := by
        unfold fixCookie
        split <;> simp [Inert, Act.isInert]
      have hfree : Inert (freeCookie m dev.domain) := by
        unfold freeCookie
        split <;> simp [Inert, Act.isInert]
      have hfixAdds : AddsNone (fixCookie m dev.domain) := by
        unfold fixCookie
        split <;> simp [AddsNone, Act.adds]
      have hfreeAdds : AddsNone (freeCookie m dev.domain) := by
        unfold freeCookie
        split <;> simp [AddsNone, Act.adds]
      -- The entry is added after the region is mapped and the cookie is set back.
      have hentry : ∀ {iova : U64} {id : U32} (tail : List Act), AddsNone tail →
          mapsOf tail = [] → zeroMapsOf tail = [] → handedOver tail = [] →
          act ∈ .file m.vfioFd file :: .alloc p :: (fixCookie m dev.domain ++
            .mapResource dev addr size iova :: (freeCookie m dev.domain ++
              .addMmio c p n ⟨dev, iova, size⟩ id :: tail)) →
          MapsRegionEntry c (.file m.vfioFd file :: .alloc p :: (fixCookie m dev.domain ++
            .mapResource dev addr size iova :: (freeCookie m dev.domain ++
              .addMmio c p n ⟨dev, iova, size⟩ id :: tail))) act := by
        intro iova id tail htail hmaps hzero hhanded hmem
        refine ⟨p, n, dev, iova, size, id, ?_, ?_, ?_, ?_⟩
        · simp only [List.mem_cons, List.mem_append] at hmem
          rcases hmem with rfl | rfl | hmem | rfl | hmem | rfl | hmem
          · cases hadds
          · cases hadds
          · exact absurd hmem (hfixAdds.not_mem hadds)
          · cases hadds
          · exact absurd hmem (hfreeAdds.not_mem hadds)
          · rfl
          · exact absurd hmem (htail.not_mem hadds)
        · show DmaMapping.resource dev iova size ∈ mapsOf (fixCookie m dev.domain ++ _)
          rw [mapsOf_append]
          refine List.mem_append_right _ ?_
          show DmaMapping.resource dev iova size ∈
            DmaMapping.resource dev iova size :: mapsOf (freeCookie m dev.domain ++ _)
          exact List.mem_cons_self
        · show zeroMapsOf (fixCookie m dev.domain ++ _) = []
          rw [zeroMapsOf_append, hfix.zeroMapsOf_eq]
          show zeroMapsOf (freeCookie m dev.domain ++ _) = []
          rw [zeroMapsOf_append, hfree.zeroMapsOf_eq]
          exact hzero
        · show handedOver (fixCookie m dev.domain ++ _) = []
          rw [handedOver_append, hfix.handedOver_eq]
          show handedOver (freeCookie m dev.domain ++ _) = []
          rw [handedOver_append, hfree.handedOver_eq]
          exact hhanded
      cases hresource with
      | refused _ =>
          refine absurd hact (AddsNone.not_mem ?_ hadds)
          refine List.forall_mem_cons.mpr ⟨rfl, List.forall_mem_cons.mpr ⟨rfl, ?_⟩⟩
          exact List.forall_mem_append.mpr ⟨hfixAdds, List.forall_mem_append.mpr
            ⟨hfreeAdds, by simp [Act.adds]⟩⟩
      | retracted _ =>
          exact hentry _ (by simp [AddsNone, Act.adds]) (by simp [mapsOf, Act.maps])
            (by simp [zeroMapsOf, Act.mapsZero]) (by simp [handedOver, Act.handsOver]) hact
      | done =>
          exact hentry _ (by simp [AddsNone, Act.adds]) (by simp [mapsOf, Act.maps])
            (by simp [zeroMapsOf, Act.mapsZero]) (by simp [handedOver, Act.handsOver]) hact

/-! ## Every entry -/

/-- The request that created an entry did what its kind of entries needs. -/
theorem Creation.origin {i : Ioctl} (h : Creation w c p i as) : Origin w p as i.request := by
  obtain ⟨rfl, ⟨result, hshape⟩, act, hact, hdescribes⟩ := h
  obtain ⟨c, request⟩ := i
  cases request with
  | mapBuf u =>
      obtain ⟨v, d, a, maps, p', id, rfl, hdev, hmaps, hmade, hzero, hhanded⟩ :=
        MapShape.mapsEntry hshape hact hdescribes.adds
      cases hdescribes with
      | buffer hdata => exact .buffer hdata hdev hmaps hmade hzero hhanded
  | secureMap u =>
      obtain ⟨d, a, p', id, page, rfl, hmaps, hzero, hpage, hmemory⟩ :=
        SecureMapShape.securesEntry hshape hact hdescribes.adds
      cases hdescribes with
      | buffer hdata => exact .secure hdata hmaps hzero hpage hmemory
  | mmioMap ret₀ m =>
      obtain ⟨p', n, dev, iova, size, id, rfl, hmaps, hzero, hhanded⟩ :=
        MmioMapShape.mapsRegionEntry hshape hact hdescribes.adds
      cases hdescribes with
      | mmio hdata hctx => exact .mmio hdata hctx hmaps hzero hhanded
  | unmapBuf u => exact absurd hact ((UnmapShape.addsNone hshape).not_mem hdescribes.adds)
  | secureUnmap u =>
      exact absurd hact ((SecureUnmapShape.addsNone hshape).not_mem hdescribes.adds)
  | mmioUnmap u => exact absurd hact ((MmioUnmapShape.addsNone hshape).not_mem hdescribes.adds)

end SafeLinux.Kiumd
