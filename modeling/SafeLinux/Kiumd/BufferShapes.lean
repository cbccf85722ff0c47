import SafeLinux.Kiumd.Actions
import SafeLinux.Kiumd.MapBuf

/-!
# The actions of MAP_BUF and UNMAP_BUF

Every execution of `kiumd_dmabuf_vfio_map` and `kiumd_dmabuf_vfio_unmap`, whatever the kernel
answers, shows one of the sequences of actions listed here, one constructor for each way the
function can end.
-/

namespace SafeLinux.Kiumd

open Effects
open Effects.Program (perform)

/-! ## The reservation of an IOVA -/

/-- A step of the search for an area. -/
def Act.isSearch : Act → Bool
  | .lastOffset _ _ | .search _ _ _ _ => true
  | _ => false

/-- The actions that reserve the area found last. -/
def reserveActs (m : KgslMap) (size start bit : U64) : List Act :=
  [.search m start (pagesOf size) bit, .set m (bit.setWidth 32) (pagesOf size),
    .setLast m ((bit + size >>> PAGE_SHIFT) % BitVec.ofNat 64 KGSL_PT_MEM_PAGES)]

/-- The test a position found has passed. -/
def AcceptsBit (size bit : U64) : Prop :=
  (bit + size >>> PAGE_SHIFT).toNat < KGSL_PT_MEM_PAGES ∨ bit.toNat < KGSL_PT_MEM_PAGES

/-- The offset of a position. -/
def bitOffset (bit : U64) : Int := (bit <<< PAGE_SHIFT).toInt

/-- The actions of `get_map_offset`. -/
inductive OffsetShape (size : U64) (ptselect : Int) : Shape Act Int where
  | refused {searches : List Act} {ret : Int} : ret < 0 → (∀ act ∈ searches, act.isSearch) →
      OffsetShape size ptselect searches (some ret)
  | taken {searches : List Act} {start bit : U64} : (∀ act ∈ searches, act.isSearch) →
      1 ≤ (size >>> PAGE_SHIFT).toNat → AcceptsBit size bit →
      OffsetShape size ptselect (searches ++ reserveActs (kgslMap ptselect) size start bit)
        (some (bitOffset bit))

theorem taken_of_searches {size start bit : U64} {ptselect : Int} (searches : List Act)
    (hsearches : ∀ act ∈ searches, act.isSearch) (hpos : 1 ≤ (size >>> PAGE_SHIFT).toNat)
    (hbit : AcceptsBit size bit) :
    OffsetShape size ptselect (searches ++ reserveActs (kgslMap ptselect) size start bit)
      (some (bitOffset bit)) :=
  .taken hsearches hpos hbit

theorem getMapOffset_shows {size : U64} {ptselect : Int} :
    Shows (getMapOffset size ptselect) (OffsetShape size ptselect) := by
  unfold getMapOffset
  split
  · exact shows_pure (.refused (by decide) (by simp))
  split
  · exact shows_pure (.refused (by decide) (by simp))
  rename_i hsize
  have hpos : 1 ≤ (size >>> PAGE_SHIFT).toNat := by
    rw [Nat.one_le_iff_ne_zero]
    intro hzero
    exact hsize (.inr (BitVec.eq_of_toNat_eq (by simpa using hzero)))
  refine shows_act _ (fun _ => rfl) fun last _ => ?_
  refine shows_act _ (fun _ => rfl) fun bit _ => ?_
  split
  · rename_i hfits
    unfold takeMapArea
    refine shows_act _ (fun _ => rfl) fun _ _ => shows_act _ (fun _ => rfl) fun _ _ => ?_
    exact shows_pure (taken_of_searches [.lastOffset _ last] (by simp [Act.isSearch]) hpos
      (.inl hfits))
  refine shows_act _ (fun _ => rfl) fun bit' _ => ?_
  split
  · exact shows_pure (.refused (by decide) (by simp [Act.isSearch]))
  · rename_i hinside
    unfold takeMapArea
    refine shows_act _ (fun _ => rfl) fun _ _ => shows_act _ (fun _ => rfl) fun _ _ => ?_
    exact shows_pure (taken_of_searches [.lastOffset _ last, .search _ last _ bit]
      (by simp [Act.isSearch]) hpos (.inr (not_le.mp hinside)))

/-- The actions of `set_map_iova`. -/
inductive CookieShape (offset : U64) (v : VfioDevice) (ptselect : Int) : Shape Act Int where
  | refused {ret : Int} : ret < 0 → CookieShape offset v ptselect [] (some ret)
  | done {dev : Device} : v.dev = some dev →
      CookieShape offset v ptselect [.cookie dev.domain .msi (mapIova offset ptselect)] (some 0)

/-- The actions of `kiumd_get_dma_cookie`: none. -/
theorem kiumdGetDmaCookie_shows {v : VfioDevice} :
    Shows (kiumdGetDmaCookie (some v)) fun acts result => acts = [] ∧
      ∃ found, result = some found ∧ ∀ dom ∈ found, ∃ dev, v.dev = some dev ∧ dom = dev.domain := by
  unfold kiumdGetDmaCookie
  cases hdev : v.dev with
  | none =>
      simp only [hdev]
      exact shows_pure ⟨rfl, none, rfl, nofun⟩
  | some dev =>
      simp only [hdev]
      refine shows_idle (fun answer => by cases answer <;> rfl) fun domain hdomain => ?_
      cases domain with
      | none => exact shows_pure ⟨rfl, none, rfl, nofun⟩
      | some domain =>
          refine shows_idle (fun _ => rfl) fun cookie _ => ?_
          split
          · exact shows_pure ⟨rfl, none, rfl, nofun⟩
          · refine shows_pure ⟨rfl, some domain, rfl, ?_⟩
            rintro dom ⟨⟩
            exact ⟨dev, rfl, hdomain⟩

theorem setMapIova_shows {offset : U64} {v : VfioDevice} {ptselect : Int} :
    Shows (setMapIova offset v ptselect) (CookieShape offset v ptselect) := by
  unfold setMapIova
  refine shows_bind kiumdGetDmaCookie_shows ?_ ?_
  · rintro _ found ⟨rfl, _, ⟨rfl⟩, hfound⟩
    cases found with
    | none => exact shows_pure (.refused (by decide))
    | some dom =>
        obtain ⟨dev, hdev, rfl⟩ := hfound dom rfl
        refine shows_act _ (fun _ => rfl) fun _ _ => ?_
        exact shows_pure (.done hdev)
  · rintro acts ⟨_, _, ⟨⟩, _⟩

/-! ## MAP_BUF -/

/-- Whether a request asks for the privileged mapping. -/
def KiumdUser.Privileged (u : KiumdUser) : Prop :=
  u.dmaAttr = DMA_ATTR_PRIVILEGED ∧ u.isIovaZero ≠ FIXED_IOVA_AT_ZERO

instance (u : KiumdUser) : Decidable u.Privileged := inferInstanceAs (Decidable (_ ∧ _))

/-- The direction MAP_BUF maps a buffer with. -/
def KiumdUser.mapDir (u : KiumdUser) : Int :=
  if u.dmaDirection = DMA_TO_DEVICE then u.dmaDirection else DMA_BIDIRECTIONAL

/-- The protection of the mapping at IOVA zero. -/
def KiumdUser.zeroProt (u : KiumdUser) : Int :=
  if u.dmaAttr = DMA_ATTR_PRIVILEGED then IOMMU_CACHE + IOMMU_READ + IOMMU_WRITE + IOMMU_PRIV
  else IOMMU_CACHE + IOMMU_READ + IOMMU_WRITE

/-- The mappings MAP_BUF makes for a buffer. -/
inductive MapsBuffer (u : KiumdUser) (a : Attachment) : List Act → Prop where
  | privileged : u.Privileged → a.priv = some (some a.table) →
      MapsBuffer u a [.mapSgtable a.dev a.table u.mapDir
        (DMA_ATTR_PRIVILEGED + DMA_ATTR_SKIP_CPU_SYNC)]
  | attached : ¬ u.Privileged → u.isIovaZero ≠ FIXED_IOVA_AT_ZERO →
      MapsBuffer u a [.mapAttachment a u.mapDir a.table]
  | zero (result : Int) : u.isIovaZero = FIXED_IOVA_AT_ZERO →
      MapsBuffer u a [.mapAttachment a u.mapDir a.table,
        .mapSg a.dev.domain 0 a.table u.zeroProt result]

/-- The entry MAP_BUF publishes. -/
def mapEntry (u : KiumdUser) (v : VfioDevice) (d : DmaBuf) (a : Attachment) : SmmuMapData where
  dmabufattach := some a
  sgtPtr := some a.table
  dmabufPtr := some d
  dmaDir := u.mapDir
  ptselect := u.ptselect
  isIovaZero := u.isIovaZero
  vfioDev := some v

/-- How `mapDmaAddr` finds the address to report. -/
inductive AddressShape (u : KiumdUser) (t : SgTable) : List Act → U64 → Prop where
  | zero : u.isIovaZero = FIXED_IOVA_AT_ZERO → AddressShape u t [] 0
  | mapped (addr : U64) : u.isIovaZero ≠ FIXED_IOVA_AT_ZERO →
      AddressShape u t [.dmaAddress t addr] addr

/-- The actions of the publication of an entry. -/
inductive PublishShape (u : KiumdUser) (c : Nat) (v : VfioDevice) (d : DmaBuf) (a : Attachment) :
    Shape Act Int where
  /-- There was no memory for the entry. -/
  | unpublished {ret : Int} : ret ≠ 0 → PublishShape u c v d a [] (some ret)
  /-- The reply could not be copied. -/
  | stale {addrs : List Act} {p : Nat} {id : U32} {addr : U64} {ret : Int} : ret ≠ 0 →
      AddressShape u a.table addrs addr →
      PublishShape u c v d a
        (.alloc p :: .add c p (mapEntry u v d a) id :: addrs ++
          [.reply (.user { u with id := id, dmaAddr := addr }) false,
            .unmapAttachment a a.table u.mapDir, .detach d a, .put d]) (some ret)
  | done {addrs : List Act} {p : Nat} {id : U32} {addr : U64} :
      AddressShape u a.table addrs addr →
      PublishShape u c v d a
        (.alloc p :: .add c p (mapEntry u v d a) id :: addrs ++
          [.reply (.user { u with id := id, dmaAddr := addr }) true]) (some 0)

/-- The actions of MAP_BUF once the buffer is attached. -/
inductive AttachedShape (u : KiumdUser) (c : Nat) (v : VfioDevice) (d : DmaBuf) (a : Attachment) :
    Shape Act Int where
  /-- The buffer could not be mapped and was detached. -/
  | detached {ret : Int} : ret ≠ 0 → AttachedShape u c v d a [.detach d a, .put d] (some ret)
  /-- No domain was found for the mapping at IOVA zero. -/
  | undomained {ret : Int} : ret ≠ 0 → u.isIovaZero = FIXED_IOVA_AT_ZERO →
      AttachedShape u c v d a [.mapAttachment a u.mapDir a.table] (some ret)
  | mapped {maps acts : List Act} {result : Option Int} : MapsBuffer u a maps →
      PublishShape u c v d a acts result → AttachedShape u c v d a (maps ++ acts) result

/-- The actions of MAP_BUF from the attachment on. -/
inductive AttachShape (u : KiumdUser) (c : Nat) (v : VfioDevice) (d : DmaBuf) : Shape Act Int where
  /-- The buffer could not be attached. -/
  | refused {ret : Int} : ret ≠ 0 → AttachShape u c v d [.put d] (some ret)
  | attached {a : Attachment} {acts : List Act} {result : Option Int} : a.Fits d a.dev →
      v.dev = some a.dev → AttachedShape u c v d a acts result →
      AttachShape u c v d (.attach d a :: acts) result

variable {u : KiumdUser} {c : Nat} {v : VfioDevice} {d : DmaBuf} {a : Attachment} {file : File}
  {ret : Int} {R : Shape Act Int}

theorem mapFailFput_shows (h : R [] (some ret)) : Shows (mapFailFput file ret) R :=
  shows_idle (fun _ => rfl) fun _ _ => shows_pure h

theorem mapFailPut_shows (h : R [.put d] (some ret)) : Shows (mapFailPut file d ret) R :=
  shows_act _ (fun _ => rfl) fun _ _ => mapFailFput_shows h

theorem mapFailDetach_shows (h : R [.detach d a, .put d] (some ret)) :
    Shows (mapFailDetach file d a ret) R :=
  shows_act _ (fun _ => rfl) fun _ _ => mapFailPut_shows h

theorem mangleForDebug_shows {t : SgTable} :
    Shows (mangleForDebug t) fun acts result => acts = [] ∧ result = some () := by
  unfold mangleForDebug
  refine shows_idle (fun _ => rfl) fun debug _ => ?_
  split
  · exact shows_perform fun _ _ => ⟨rfl, rfl⟩
  · exact shows_pure ⟨rfl, rfl⟩

theorem mapDmaAddr_shows {t : SgTable} :
    Shows (mapDmaAddr u t) fun acts result => ∃ addr, result = some addr ∧
      AddressShape u t acts addr := by
  unfold mapDmaAddr
  split
  · rename_i hzero
    exact shows_pure ⟨0, rfl, .zero hzero⟩
  · rename_i hzero
    exact shows_perform fun addr _ => ⟨addr, rfl, .mapped addr hzero⟩

theorem mapPublish_shows :
    Shows (mapPublish (some (some c)) u file v d a a.table u.mapDir) (PublishShape u c v d a) := by
  unfold mapPublish
  refine shows_call fun p _ => ?_
  cases p with
  | none => exact mapFailFput_shows (.unpublished (by decide))
  | some p =>
      refine shows_act _ (fun _ => rfl) fun id _ => ?_
      refine shows_bind mapDmaAddr_shows ?_ ?_
      · rintro addrs _ ⟨addr, ⟨rfl⟩, haddr⟩
        unfold mapReply
        refine shows_act _ (fun _ => rfl) fun copied _ => ?_
        cases copied with
        | false =>
            refine shows_act _ (fun _ => rfl) fun _ _ => mapFailDetach_shows ?_
            exact .stale (by decide) haddr
        | true => exact shows_idle (fun _ => rfl) fun _ _ => shows_pure (.done haddr)
      · rintro acts ⟨_, ⟨⟩, _⟩

theorem mapAttached_shows (hfits : a.Fits d a.dev) :
    Shows (mapAttached (some (some c)) u file v a.dev d a) (AttachedShape u c v d a) := by
  have hexit : ∀ {ret : Int}, ret ≠ 0 →
      Shows (mapFailDetach file d a ret) (AttachedShape u c v d a) := fun hret =>
    mapFailDetach_shows (.detached hret)
  unfold mapAttached
  split
  · exact hexit (by decide)
  dsimp only
  split
  · rename_i hprivileged
    cases hpriv : a.priv with
    | none => exact hexit (by decide)
    | some heapAttachment =>
        cases heapAttachment with
        | none => exact hexit (by decide)
        | some sgt =>
            obtain rfl : sgt = a.table := by
              simpa [hpriv] using hfits.2.2.2
            refine shows_call fun ret _ => ?_
            by_cases hret : ret = 0
            · subst hret
              exact mapPublish_shows.mono fun _ _ h => .mapped (.privileged hprivileged hpriv) h
            · have hview : driver.view (.dmaMapSgtable a.dev a.table u.mapDir
                  (DMA_ATTR_PRIVILEGED + DMA_ATTR_SKIP_CPU_SYNC)) ret = none := if_neg hret
              rw [if_pos hret]
              simp only [KiumdUser.mapDir] at hview
              rw [hview]
              exact hexit hret
  rename_i hprivileged
  split
  · rename_i hnull
    rw [hfits.1] at hnull
    cases hnull
  refine shows_call fun mapped hmapped => ?_
  cases mapped with
  | null => cases hmapped
  | err e => exact hexit (Int.ne_of_lt hmapped)
  | ptr sgt =>
      obtain rfl : sgt = a.table := hmapped
      dsimp only
      split
      · rename_i hzero
        refine shows_idle (fun answer => by cases answer <;> rfl) fun domain hdomain => ?_
        cases domain with
        | none => exact mapFailFput_shows (.undomained (by decide) hzero)
        | some domain =>
            obtain rfl : domain = a.dev.domain := hdomain
            refine shows_bind mangleForDebug_shows ?_ fun acts h => by cases h.2
            rintro _ _ ⟨rfl, -⟩
            refine shows_act _ (fun _ => rfl) fun result _ => ?_
            rw [if_neg BitVec.not_lt_zero]
            have hmaps : MapsBuffer u a [.mapAttachment a u.mapDir a.table,
                .mapSg a.dev.domain 0 a.table u.zeroProt result] := .zero result hzero
            refine mapPublish_shows.mono fun _ _ h => ?_
            have hmapped := AttachedShape.mapped hmaps h
            exact hmapped
      · rename_i hzero
        exact mapPublish_shows.mono fun _ _ h => .mapped (.attached hprivileged hzero) h

theorem mapAttach_shows :
    Shows (mapAttach (some (some c)) u file v d) (AttachShape u c v d) := by
  unfold mapAttach
  cases hdev : v.dev with
  | none => exact mapFailPut_shows (.refused (by decide))
  | some dev =>
      refine shows_call fun attached hattached => ?_
      cases attached with
      | error e => exact mapFailPut_shows (.refused (Int.ne_of_lt hattached))
      | ok a =>
          obtain rfl : a.dev = dev := hattached.2.1
          exact (mapAttached_shows hattached).mono fun _ _ h => .attached hattached hdev h

/-- An action that only looks for what a request names. -/
def Act.isOpening : Act → Bool
  | .alloc _ | .file _ _ => true
  | _ => false

/-- The allocation that is lost, and the file and the buffer of a request. -/
def openActs (u : KiumdUser) (p : Nat) (file : File) (d : DmaBuf) : List Act :=
  [.alloc p, .file u.vfioFd file, .buffer u.dmaBufFd d]

/-- The actions of MAP_BUF. -/
inductive MapShape (u : KiumdUser) (c : Nat) : Shape Act Int where
  /-- Something failed before the buffer was found. -/
  | early {acts : List Act} {result : Option Int} : result ≠ some 0 →
      (∀ act ∈ acts, act.isOpening) → MapShape u c acts result
  /-- No IOVA could be reserved. -/
  | unreserved {p : Nat} {file : File} {v : VfioDevice} {d : DmaBuf} {offset : List Act}
      {ret : Int} : ret < 0 → file.privateData = some (some v) → IsKgsl u.ptselect →
      OffsetShape d.size u.ptselect offset (some ret) →
      MapShape u c (openActs u p file d ++ (offset ++ [.put d])) (some ret)
  /-- The cookie could not be set to the IOVA reserved. -/
  | uncookied {p : Nat} {file : File} {v : VfioDevice} {d : DmaBuf} {offset : List Act}
      {reserved ret : Int} : 0 ≤ reserved → ret < 0 → file.privateData = some (some v) →
      IsKgsl u.ptselect → OffsetShape d.size u.ptselect offset (some reserved) →
      MapShape u c (openActs u p file d ++ (offset ++ [.put d])) (some ret)
  | reserved {p : Nat} {file : File} {v : VfioDevice} {d : DmaBuf} {offset acts : List Act}
      {dev : Device} {reserved : Int} {result : Option Int} : 0 ≤ reserved →
      file.privateData = some (some v) → IsKgsl u.ptselect →
      OffsetShape d.size u.ptselect offset (some reserved) → v.dev = some dev →
      AttachShape u c v d acts result →
      MapShape u c (openActs u p file d ++ (offset ++
        .cookie dev.domain .msi (mapIova (BitVec.ofInt 64 reserved) u.ptselect) :: acts)) result
  | plain {p : Nat} {file : File} {v : VfioDevice} {d : DmaBuf} {acts : List Act}
      {result : Option Int} : file.privateData = some (some v) → ¬ IsKgsl u.ptselect →
      AttachShape u c v d acts result → MapShape u c (openActs u p file d ++ acts) result

/-- What `kiumd_dmabuf_vfio_map` can do. -/
theorem kiumdDmabufVfioMap_shows :
    Shows (kiumdDmabufVfioMap u (some (some c))) (MapShape u c) := by
  unfold kiumdDmabufVfioMap
  refine shows_call fun p _ => ?_
  cases p with
  | none => exact shows_pure (.early (by decide) (by simp [driver, KCall.act]))
  | some p =>
  refine shows_idle (fun _ => rfl) fun copied _ => ?_
  split
  · exact shows_pure (.early (by decide) (by simp [driver, KCall.act, Act.isOpening]))
  split
  · exact shows_pure (.early (by decide) (by simp [driver, KCall.act, Act.isOpening]))
  refine shows_call fun file _ => ?_
  cases file with
  | none => exact shows_pure (.early (by decide) (by simp [driver, KCall.act, Act.isOpening]))
  | some file =>
  have hopening : ∀ act ∈ [Act.alloc p, .file u.vfioFd file], act.isOpening := by
    simp [Act.isOpening]
  cases hprivate : file.privateData with
  | none =>
      simp only [hprivate]
      exact shows_halt (.early (by decide) hopening)
  | some device =>
  cases device with
  | none =>
      simp only [hprivate]
      exact mapFailFput_shows (.early (by decide) hopening)
  | some v =>
  simp only [hprivate]
  refine shows_call fun buffer hbuffer => ?_
  cases buffer with
  | null =>
      dsimp only
      split
      · exact mapFailFput_shows (.early (by decide) hopening)
      · exact shows_halt (.early (by decide) hopening)
  | err e =>
      dsimp only
      split
      · have hret : some e ≠ some 0 := fun heq => Int.ne_of_lt hbuffer (Option.some.inj heq)
        exact mapFailFput_shows (.early hret hopening)
      · exact shows_halt (.early (by decide) hopening)
  | ptr d =>
  dsimp only
  split
  · rename_i hkgsl
    refine shows_bind getMapOffset_shows ?_ fun acts h => by cases h
    intro offset reserved hoffset
    split
    · rename_i hneg
      exact mapFailPut_shows (.unreserved hneg hprivate hkgsl hoffset)
    rename_i hnonneg
    refine shows_bind setMapIova_shows ?_ fun acts h => by cases h
    intro cookie ret hcookie
    cases hcookie with
    | refused hret =>
        rw [if_pos hret]
        exact mapFailPut_shows (.uncookied (not_lt.mp hnonneg) hret hprivate hkgsl hoffset)
    | done hdev =>
        rw [if_neg (by decide)]
        exact mapAttach_shows.mono fun _ _ h =>
          .reserved (not_lt.mp hnonneg) hprivate hkgsl hoffset hdev h
  · rename_i hkgsl
    exact mapAttach_shows.mono fun _ _ h => .plain hprivate hkgsl h

/-! ## UNMAP_BUF -/

/-- The actions of `kiumd_get_vfio_device`. -/
inductive DeviceShape (fd : Int) : Shape Act (Option VfioDevice) where
  | missing {acts : List Act} : (∀ act ∈ acts, act.isOpening) → DeviceShape fd acts (some none)
  | found {file : File} {v : VfioDevice} : file.privateData = some (some v) →
      DeviceShape fd [.file fd file] (some (some v))

theorem kiumdGetVfioDevice_shows {fd : Int} :
    Shows (kiumdGetVfioDevice fd) (DeviceShape fd) := by
  unfold kiumdGetVfioDevice
  split
  · exact shows_pure (.missing (by simp))
  refine shows_call fun file _ => ?_
  cases file with
  | none => exact shows_pure (.missing (by simp [driver, KCall.act]))
  | some file =>
  have hopening : ∀ act ∈ [Act.file fd file], act.isOpening := by simp [Act.isOpening]
  dsimp only [vfioDeviceOf]
  refine shows_idle (fun valid => by cases valid <;> rfl) fun valid _ => ?_
  split
  · exact shows_idle (fun _ => rfl) fun _ _ => shows_pure (.missing hopening)
  cases hprivate : file.privateData with
  | none =>
      dsimp only
      exact shows_idle (fun _ => rfl) fun _ _ => shows_pure (.missing hopening)
  | some device =>
      dsimp only
      refine shows_idle (fun _ => rfl) fun _ _ => shows_pure ?_
      cases device with
      | none => exact .missing hopening
      | some v => exact .found hprivate

/-- The actions of `kiumd_get_iommu_domain`. -/
inductive DomainShape (fd : Int) : Shape Act (Option Domain) where
  | missing {acts : List Act} : (∀ act ∈ acts, act.isOpening) → DomainShape fd acts (some none)
  | halted {acts : List Act} : (∀ act ∈ acts, act.isOpening) → DomainShape fd acts none
  | found {file : File} {v : VfioDevice} {dev : Device} : file.privateData = some (some v) →
      v.dev = some dev → DomainShape fd [.file fd file] (some (some dev.domain))

theorem kiumdGetIommuDomain_shows {fd : Int} :
    Shows (kiumdGetIommuDomain fd) (DomainShape fd) := by
  unfold kiumdGetIommuDomain
  refine shows_bind kiumdGetVfioDevice_shows ?_ fun acts h => by cases h
  intro acts found hfound
  cases hfound with
  | missing hopening =>
      refine shows_pure ?_
      rw [List.append_nil]
      exact .missing hopening
  | @found file v hprivate =>
      have hopening : ∀ act ∈ [Act.file fd file], act.isOpening := by simp [Act.isOpening]
      dsimp only
      cases hdev : v.dev with
      | none => exact shows_halt (.halted hopening)
      | some dev =>
          refine shows_perform fun domain hdomain => ?_
          cases domain with
          | none => exact .missing hopening
          | some domain =>
              obtain rfl : domain = dev.domain := hdomain
              exact .found hprivate hdev

/-- The direction UNMAP_BUF unmaps a buffer with. -/
def KiumdUser.unmapDir (u : KiumdUser) : Int :=
  if u.dmaDirection = 1 then u.dmaDirection else 0

/-- The actions of `clear_map_iova`. -/
def clearActs (iova size : U64) (ptselect : Int) : List Act :=
  if IsKgsl ptselect then
    [.clear (kgslMap ptselect) ((iovaBit iova ptselect).setWidth 32) (pagesOf size)]
  else []

theorem clearMapIova_shows {iova size : U64} {ptselect : Int} :
    Shows (clearMapIova iova size ptselect) fun acts result =>
      acts = clearActs iova size ptselect ∧ result = some () := by
  unfold clearMapIova clearActs
  split
  · exact shows_perform fun _ _ => ⟨rfl, rfl⟩
  · exact shows_pure ⟨rfl, rfl⟩

/-- The deletion of an entry and the release of its buffer. -/
def deleteActs (c p : Nat) (d : DmaBuf) (a : Attachment) : List Act :=
  [.delete c p, .detach d a, .put d]

/-- The actions of UNMAP_BUF after the buffer has been unmapped. -/
inductive FinishShape (u : KiumdUser) (c p : Nat) (d : DmaBuf) (a : Attachment) :
    Shape Act Int where
  /-- The domain for the flush was not found. -/
  | undomained {acts : List Act} {result : Option Int} : result ≠ some 0 →
      (∀ act ∈ acts, act.isOpening) → FinishShape u c p d a acts result
  | done {acts : List Act} : (∀ act ∈ acts, act.isOpening) →
      FinishShape u c p d a (acts ++ deleteActs c p d a) (some 0)

theorem unmapFinish_shows {p : Nat} :
    Shows (unmapFinish c u p d a) (FinishShape u c p d a) := by
  unfold unmapFinish
  split
  · refine shows_bind kiumdGetIommuDomain_shows ?_ ?_
    · intro acts found hfound
      cases hfound with
      | missing hopening =>
          refine shows_pure ?_
          rw [List.append_nil]
          exact .undomained (by decide) hopening
      | @found file v dev hprivate hdev =>
          refine shows_idle (fun _ => rfl) fun _ _ => shows_act _ (fun _ => rfl) fun _ _ =>
            shows_act _ (fun _ => rfl) fun _ _ => shows_act _ (fun _ => rfl) fun _ _ => ?_
          exact shows_pure (.done (by simp [Act.isOpening]))
    · intro acts hhalted
      cases hhalted with
      | halted hopening => exact .undomained (by decide) hopening
  · refine shows_act _ (fun _ => rfl) fun _ _ => shows_act _ (fun _ => rfl) fun _ _ =>
      shows_act _ (fun _ => rfl) fun _ _ => ?_
    have hdone : FinishShape u c p d a ([] ++ deleteActs c p d a) (some 0) := .done (by simp)
    exact shows_pure hdone

/-- The actions of UNMAP_BUF on the buffer of the entry found. -/
inductive UnmappedShape (u : KiumdUser) (c p : Nat) (d : DmaBuf) (a : Attachment) :
    Shape Act Int where
  /-- The mapping could not be released. -/
  | failed {acts : List Act} {result : Option Int} : result ≠ some 0 →
      (∀ act ∈ acts, act.isOpening ∨ ∃ data, act = .read p data) →
      UnmappedShape u c p d a acts result
  | privileged {file : File} {v : VfioDevice} {dev : Device} {t : SgTable} {acts : List Act}
      {result : Option Int} : u.Privileged → file.privateData = some (some v) →
      v.dev = some dev → a.priv = some (some t) → FinishShape u c p d a acts result →
      UnmappedShape u c p d a (.file u.vfioFd file ::
        .unmapSgtable dev t u.unmapDir DMA_ATTR_PRIVILEGED :: acts) result
  | attached {data : SmmuMapData} {t : SgTable} {acts : List Act} {result : Option Int} :
      ¬ u.Privileged → u.isIovaZero ≠ FIXED_IOVA_AT_ZERO → data.sgtPtr = some t →
      FinishShape u c p d a acts result →
      UnmappedShape u c p d a (.read p data :: .unmapAttachment a t u.unmapDir :: acts) result
  /-- The mapping at IOVA zero could not be removed. -/
  | zeroFailed {data : SmmuMapData} {t : SgTable} {acts : List Act} {result : Option Int} :
      u.isIovaZero = FIXED_IOVA_AT_ZERO → data.sgtPtr = some t → result ≠ some 0 →
      (∀ act ∈ acts, act.isOpening ∨ ∃ dom size, size ≠ d.size ∧ act = .unmap dom 0 d.size size) →
      UnmappedShape u c p d a (.read p data :: .unmapAttachment a t u.unmapDir :: acts) result
  | zero {data : SmmuMapData} {t : SgTable} {file : File} {v : VfioDevice} {dev : Device}
      {acts : List Act} {result : Option Int} : u.isIovaZero = FIXED_IOVA_AT_ZERO →
      data.sgtPtr = some t → file.privateData = some (some v) → v.dev = some dev →
      FinishShape u c p d a acts result →
      UnmappedShape u c p d a (.read p data :: .unmapAttachment a t u.unmapDir ::
        .file u.vfioFd file :: .unmap dev.domain 0 d.size d.size :: acts) result

theorem unmapIovaZero_shows {p : Nat} {data : SmmuMapData} {t : SgTable}
    (hzero : u.isIovaZero = FIXED_IOVA_AT_ZERO) (hsgt : data.sgtPtr = some t) :
    Shows (unmapIovaZero c u p d a) fun acts result =>
      UnmappedShape u c p d a (.read p data :: .unmapAttachment a t u.unmapDir :: acts) result := by
  unfold unmapIovaZero
  refine shows_bind kiumdGetIommuDomain_shows ?_ ?_
  · intro acts found hfound
    cases hfound with
    | missing hopening =>
        refine shows_pure ?_
        rw [List.append_nil]
        exact .zeroFailed hzero hsgt (by decide) fun act hact => .inl (hopening act hact)
    | @found file v dev hprivate hdev =>
        refine shows_act _ (fun _ => rfl) fun size _ => ?_
        split
        · rename_i hsize
          refine shows_pure (.zeroFailed hzero hsgt (by decide) ?_)
          intro act hact
          rcases List.mem_cons.mp hact with rfl | hact
          · exact .inl rfl
          · exact .inr ⟨dev.domain, size, hsize, List.mem_singleton.mp hact⟩
        · rename_i hsize
          obtain rfl : size = d.size := not_not.mp hsize
          exact unmapFinish_shows.mono fun _ _ h => .zero hzero hsgt hprivate hdev h
  · intro acts hhalted
    cases hhalted with
    | halted hopening =>
        exact .zeroFailed hzero hsgt (by decide) fun act hact => .inl (hopening act hact)

theorem unmapPrivileged_shows {p : Nat} (hprivileged : u.Privileged) :
    Shows (unmapPrivileged c u p d a u.unmapDir file) fun acts result =>
      UnmappedShape u c p d a (.file u.vfioFd file :: acts) result := by
  have hopening : ∀ act ∈ [Act.file u.vfioFd file], act.isOpening ∨ ∃ data, act = .read p data := by
    simp [Act.isOpening]
  unfold unmapPrivileged
  cases hprivate : file.privateData with
  | none => exact shows_halt (.failed (by decide) hopening)
  | some device =>
  cases device with
  | none => exact mapFailFput_shows (.failed (by decide) hopening)
  | some v =>
  dsimp only
  cases hpriv : a.priv with
  | none => exact mapFailFput_shows (.failed (by decide) hopening)
  | some heapAttachment =>
  cases heapAttachment with
  | none => exact mapFailFput_shows (.failed (by decide) hopening)
  | some t =>
  dsimp only
  cases hdev : v.dev with
  | none => exact shows_halt (.failed (by decide) hopening)
  | some dev =>
      refine shows_act _ (fun _ => rfl) fun _ _ => shows_idle (fun _ => rfl) fun _ _ => ?_
      exact unmapFinish_shows.mono fun _ _ h => .privileged hprivileged hprivate hdev hpriv h

/-- The actions of UNMAP_BUF on the entry found. -/
inductive ReleaseShape (u : KiumdUser) (c p : Nat) : Shape Act Int where
  /-- The entry has no buffer. -/
  | empty {acts : List Act} {result : Option Int} : result ≠ some 0 →
      (∀ act ∈ acts, ∃ data, act = .read p data) → ReleaseShape u c p acts result
  | buffer {data data' : SmmuMapData} {d : DmaBuf} {a : Attachment} {acts : List Act}
      {result : Option Int} : data.dmabufPtr = some d → data'.dmabufattach = some a →
      UnmappedShape u c p d a acts result →
      ReleaseShape u c p (.read p data :: .read p data' ::
        clearActs u.dmaAddr d.size u.ptselect ++ acts) result

theorem unmapRelease_shows {p : Nat} : Shows (unmapRelease c u p) (ReleaseShape u c p) := by
  unfold unmapRelease
  refine shows_act _ (fun _ => rfl) fun data _ => ?_
  cases hdmabuf : data.dmabufPtr with
  | none => exact shows_pure (.empty (by decide) (by simp))
  | some d =>
  refine shows_act _ (fun _ => rfl) fun data' _ => ?_
  cases hattach : data'.dmabufattach with
  | none => exact shows_pure (.empty (by decide) (by simp))
  | some a =>
  dsimp only
  refine shows_bind clearMapIova_shows ?_ fun acts h => by cases h.2
  rintro _ _ ⟨rfl, -⟩
  have hrelease : ∀ {acts : List Act} {result : Option Int}, UnmappedShape u c p d a acts result →
      ReleaseShape u c p (.read p data :: .read p data' ::
        clearActs u.dmaAddr d.size u.ptselect ++ acts) result := .buffer hdmabuf hattach
  split
  · rename_i hprivileged
    refine shows_call fun file _ => ?_
    cases file with
    | none => exact shows_pure (hrelease (.failed (by decide) (by simp [driver, KCall.act])))
    | some file =>
        exact (unmapPrivileged_shows hprivileged).mono fun _ _ h => hrelease h
  · rename_i hprivileged
    refine shows_act _ (fun _ => rfl) fun data'' _ => ?_
    cases hsgt : data''.sgtPtr with
    | none => exact shows_pure (hrelease (.failed (by decide) (by simp)))
    | some t =>
        refine shows_act _ (fun _ => rfl) fun _ _ => ?_
        split
        · rename_i hzero
          exact (unmapIovaZero_shows hzero hsgt).mono fun _ _ h => hrelease h
        · rename_i hzero
          exact unmapFinish_shows.mono fun _ _ h => hrelease (.attached hprivileged hzero hsgt h)

/-- The actions of UNMAP_BUF. -/
inductive UnmapShape (u : KiumdUser) (c : Nat) : Shape Act Int where
  /-- There was no entry to unmap. -/
  | early {acts : List Act} {result : Option Int} : result ≠ some 0 →
      (∀ act ∈ acts, act = .find c u.id none) → UnmapShape u c acts result
  | found {p : Nat} {acts : List Act} {result : Option Int} : 0 ≤ u.id.toInt →
      ReleaseShape u c p acts result → UnmapShape u c (.find c u.id (some p) :: acts) result

/-- What `kiumd_dmabuf_vfio_unmap` can do. -/
theorem kiumdDmabufVfioUnmap_shows :
    Shows (kiumdDmabufVfioUnmap u (some (some c))) (UnmapShape u c) := by
  unfold kiumdDmabufVfioUnmap
  refine shows_idle (fun _ => rfl) fun copied _ => ?_
  split
  · exact shows_pure (.early (by decide) (by simp))
  split
  · exact shows_pure (.early (by decide) (by simp))
  rename_i hid
  refine shows_act _ (fun _ => rfl) fun found _ => ?_
  cases found with
  | none => exact shows_pure (.early (by decide) (by simp))
  | some p => exact unmapRelease_shows.mono fun _ _ h => .found (not_lt.mp hid) h

end SafeLinux.Kiumd
