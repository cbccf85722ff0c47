import SafeLinux.Kiumd.Answers
import SafeLinux.Kiumd.Origins

/-!
# Where the bytes of a mapped buffer are

The DMA layer maps a table in segments, of which MAP_BUF reports the address of the first. At IOVA
zero MAP_BUF maps the table itself by `iommu_map_sg`, whose negative errors and short counts it
cannot see, since it keeps the result unsigned. A MAP_BUF that returns 0 has mapped every byte of
the buffer from the address it returns on if and only if `iommu_map_sg` has mapped all of them, or,
elsewhere than at IOVA zero, the segments follow one another (`map_success_correct_iff`).
-/

namespace SafeLinux.Kiumd

open Effects

/-! ## Segments of the DMA address space -/

/-- `sg_dma_address` and `sg_dma_len` of one mapped segment of a table. -/
structure DmaSegment where
  addr : U64
  length : Nat
  pos : 0 < length

/-- The bytes of a scatterlist. -/
def sgBytes (sgl : List SgEntry) : Nat := (sgl.map (·.length)).sum

/-- The address of the byte with an index, counted from the first segment on. -/
def byteAddr : List DmaSegment → Nat → Option Nat
  | [], _ => none
  | s :: rest, i => if i < s.length then some (s.addr.toNat + i) else byteAddr rest (i - s.length)

/-- Each segment starts where the one before it ends. -/
def Consecutive (segments : List DmaSegment) : Prop :=
  segments.IsChain fun s s' => s'.addr.toNat = s.addr.toNat + s.length

/-- The bytes of some segments. -/
def segmentBytes (segments : List DmaSegment) : Nat := (segments.map (·.length)).sum

section Segments

variable {s s' : DmaSegment} {rest segments : List DmaSegment} {i : Nat}

theorem byteAddr_head (h : i < s.length) : byteAddr (s :: rest) i = some (s.addr.toNat + i) :=
  if_pos h

theorem byteAddr_rest : byteAddr (s :: rest) (s.length + i) = byteAddr rest i := by
  rw [byteAddr, if_neg (by omega), Nat.add_sub_cancel_left]

/-- The segments are consecutive if and only if every byte is at its offset from the first one. -/
theorem consecutive_iff_byteAddr : Consecutive (s :: rest) ↔
    ∀ i < segmentBytes (s :: rest), byteAddr (s :: rest) i = some (s.addr.toNat + i) := by
  induction rest generalizing s with
  | nil =>
      refine ⟨fun _ i hi => byteAddr_head ?_, fun _ => .singleton s⟩
      simpa [segmentBytes] using hi
  | cons s' rest ih =>
      have hbytes : segmentBytes (s :: s' :: rest) = s.length + segmentBytes (s' :: rest) := by
        simp [segmentBytes]
      have hpos : 0 < segmentBytes (s' :: rest) := by
        have hlength := s'.pos
        simp only [segmentBytes, List.map_cons, List.sum_cons]
        omega
      rw [Consecutive, List.isChain_cons_cons, ← Consecutive, ih, hbytes]
      constructor
      · rintro ⟨hnext, hrest⟩ i hi
        by_cases hhead : i < s.length
        · exact byteAddr_head hhead
        · obtain ⟨j, rfl⟩ := Nat.exists_eq_add_of_le (not_lt.mp hhead)
          rw [byteAddr_rest, hrest j (by omega), hnext, Nat.add_assoc]
      · intro hall
        have hnext : s'.addr.toNat = s.addr.toNat + s.length := by
          have hfirst := hall (s.length + 0) (by omega)
          rw [byteAddr_rest, byteAddr_head s'.pos] at hfirst
          simpa using hfirst
        refine ⟨hnext, fun j hj => ?_⟩
        rw [← byteAddr_rest, hall _ (by omega), hnext, Nat.add_assoc]

end Segments

/-- How the DMA layer lays out the tables it maps: all bytes of a table, in segments. -/
structure DmaLayout where
  segments : SgTable → List DmaSegment
  covers : ∀ t, segmentBytes (segments t) = sgBytes t.sgl

namespace DmaLayout

/-- `sg_dma_address` of the first entry of a table is the address of its first segment. -/
def Reports (L : DmaLayout) (as : List Act) : Prop :=
  ∀ t addr, Act.dmaAddress t addr ∈ as → ∀ s ∈ (L.segments t).head?, addr = s.addr

end DmaLayout

/-! ## What the domains map -/

/-- A byte of a table. -/
structure TableByte where
  table : SgTable
  index : Nat

/-- What is mapped where: the byte that a domain maps at an address. -/
abbrev Translation : Type := Set (Domain × Nat × TableByte)

namespace DmaLayout

variable (L : DmaLayout)

/-- The mapping of a table by the DMA layer. -/
def placed (dom : Domain) (t : SgTable) : Translation :=
  {e | e.1 = dom ∧ e.2.2.table = t ∧ byteAddr (L.segments t) e.2.2.index = some e.2.1}

/-- The mapping of the first `result` bytes of a table at consecutive addresses. -/
def linear (dom : Domain) (iova : Nat) (t : SgTable) (result : Int) : Translation :=
  {e | e.1 = dom ∧ e.2.2.table = t ∧ e.2.2.index < sgBytes t.sgl ∧ (e.2.2.index : Int) < result ∧
    e.2.1 = iova + e.2.2.index}

/-- What is mapped after an action. -/
def apply (m : Translation) : Act → Translation
  | .mapSgtable dev t _ _ => m ∪ L.placed dev.domain t
  | .mapAttachment a _ t => m ∪ L.placed a.dev.domain t
  | .unmapSgtable dev t _ _ => m \ L.placed dev.domain t
  | .unmapAttachment a t _ => m \ L.placed a.dev.domain t
  | .mapSg dom iova t _ result => m ∪ linear dom iova.toNat t result
  | .unmap dom iova _ result =>
      {e ∈ m | ¬ (e.1 = dom ∧ iova.toNat ≤ e.2.1 ∧ e.2.1 < iova.toNat + result.toNat)}
  | _ => m

/-- What is mapped after some actions. -/
def after (m : Translation) (as : List Act) : Translation := as.foldl L.apply m

variable {L} {m : Translation} {as bs : List Act} {act : Act}

@[simp] theorem after_nil : L.after m [] = m := rfl

@[simp] theorem after_cons : L.after m (act :: as) = L.after (L.apply m act) as := rfl

@[simp] theorem after_append : L.after m (as ++ bs) = L.after (L.after m as) bs :=
  List.foldl_append

theorem after_inert (h : Inert as) : L.after m as = m := by
  induction as with
  | nil => rfl
  | cons act as ih =>
      obtain ⟨hact, has⟩ := List.forall_mem_cons.mp h
      have happly : L.apply m act = m := by
        cases act <;> first | rfl | cases hact
      rw [after_cons, happly, ih has]

end DmaLayout

/-! ## What MAP_BUF promises -/

/-- The attachment that an action makes. -/
def Act.attaches : Act → Option (DmaBuf × Attachment)
  | .attach d a => some (d, a)
  | _ => none

/-- The request as an action returns it to user space. -/
def Act.replies : Act → Option KiumdUser
  | .reply (.user u) true => some u
  | _ => none

/-- The actions have attached the buffer of the request to its device and returned the reply. -/
structure Serves (u : KiumdUser) (as : List Act) (d : DmaBuf) (a : Attachment)
    (reply : KiumdUser) : Prop where
  device : ∃ file v, Act.file u.vfioFd file ∈ as ∧ file.privateData = some (some v) ∧
    v.dev = some a.dev
  buffer : .buffer u.dmaBufFd d ∈ as
  attaches : as.filterMap Act.attaches = [(d, a)]
  replies : as.filterMap Act.replies = [reply]

/-- Every `iommu_map_sg` has mapped all bytes of its table. -/
def SgMapped (as : List Act) : Prop :=
  ∀ dom iova t prot result, Act.mapSg dom iova t prot result ∈ as → (sgBytes t.sgl : Int) ≤ result

/-- Every byte of the buffer is mapped in the domain of the device at the address returned plus its
offset, and no `iommu_map_sg` has failed or was short. -/
structure MapCorrect (L : DmaLayout) (u : KiumdUser) (as : List Act) : Prop where
  mapped : ∃ d a reply, Serves u as d a reply ∧ ∀ (m : Translation), ∀ i < sgBytes d.sg,
    (a.dev.domain, reply.dmaAddr.toNat + i, ⟨a.table, i⟩) ∈ L.after m as
  complete : SgMapped as

/-- The mapping that a request asks for is whole: at IOVA zero `iommu_map_sg` answers that it has
mapped all bytes, elsewhere the segments of the attachment's table are consecutive. -/
def WholeAnswers (L : DmaLayout) (u : KiumdUser) (as : List Act) : Prop :=
  if u.isIovaZero = FIXED_IOVA_AT_ZERO then SgMapped as
  else ∀ d a, (d, a) ∈ as.filterMap Act.attaches → Consecutive (L.segments a.table)

/-! ## The actions of a successful MAP_BUF -/

/-- The action reserves an IOVA. -/
def Act.isReserving : Act → Bool
  | .lastOffset _ _ | .search _ _ _ _ | .set _ _ _ | .setLast _ _ | .cookie _ _ _ => true
  | _ => false

/-- The actions of a MAP_BUF that has returned 0. -/
inductive MapDone (u : KiumdUser) (c : Nat) (d : DmaBuf) (a : Attachment) (addr : U64) :
    List Act → Prop where
  | intro {file : File} {v : VfioDevice} {reserving maps addrs : List Act} {p p' : Nat}
      {id : U32} : file.privateData = some (some v) → v.dev = some a.dev → a.Fits d a.dev →
      (∀ act ∈ reserving, act.isReserving) → MapsBuffer u a maps →
      AddressShape u a.table addrs addr →
      MapDone u c d a addr (openActs u p file d ++ (reserving ++ .attach d a :: (maps ++
        (.alloc p' :: .add c p' (mapEntry u v d a) id :: addrs ++
          [.reply (.user { u with id := id, dmaAddr := addr }) true]))))

variable {u : KiumdUser} {c : Nat} {v : VfioDevice} {d : DmaBuf} {a : Attachment} {as : List Act}
  {addr : U64} {L : DmaLayout}

theorem OffsetShape.reserving {size : U64} {ptselect : Int} {result : Option Int}
    (h : OffsetShape size ptselect as result) : ∀ act ∈ as, act.isReserving := by
  have hsearches : ∀ {searches : List Act}, (∀ act ∈ searches, act.isSearch) →
      ∀ act ∈ searches, act.isReserving := by
    intro searches hall act hact
    have hsearch := hall act hact
    cases act <;> first | rfl | cases hsearch
  cases h with
  | refused _ hall => exact hsearches hall
  | taken hall _ _ =>
      refine List.forall_mem_append.mpr ⟨hsearches hall, ?_⟩
      simp [reserveActs, Act.isReserving]

theorem AttachShape.done (h : AttachShape u c v d as (some 0)) {file : File} {p : Nat}
    {reserving : List Act} (hprivate : file.privateData = some (some v))
    (hreserving : ∀ act ∈ reserving, act.isReserving) :
    ∃ a addr, MapDone u c d a addr (openActs u p file d ++ (reserving ++ as)) := by
  cases h with
  | refused hret => exact absurd rfl hret
  | @attached a _ _ hfits hdev hattached =>
  cases hattached with
  | detached hret | undomained hret => exact absurd rfl hret
  | mapped hmaps hpublish =>
  cases hpublish with
  | unpublished hret | stale hret => exact absurd rfl hret
  | @done _ _ _ addr haddr =>
      exact ⟨a, addr, .intro hprivate hdev hfits hreserving hmaps haddr⟩

theorem MapShape.done (h : MapShape u c as (some 0)) : ∃ d a addr, MapDone u c d a addr as := by
  cases h with
  | early hret _ => exact absurd rfl hret
  | unreserved hret _ _ _ => exact absurd hret (lt_irrefl 0)
  | uncookied _ hret _ _ _ => exact absurd hret (lt_irrefl 0)
  | @reserved p file v d offset acts dev reserved _ _ hprivate _ hoffset _ hattach =>
      have hreserving : ∀ act ∈ offset ++ [.cookie dev.domain .msi
          (mapIova (BitVec.ofInt 64 reserved) u.ptselect)], act.isReserving :=
        List.forall_mem_append.mpr ⟨hoffset.reserving, by simp [Act.isReserving]⟩
      obtain ⟨a, addr, hdone⟩ := hattach.done (p := p) hprivate hreserving
      refine ⟨d, a, addr, ?_⟩
      simpa using hdone
  | @plain p file v d acts _ hprivate _ hattach =>
      have hnone : ∀ act ∈ ([] : List Act), act.isReserving := by simp
      obtain ⟨a, addr, hdone⟩ := hattach.done (p := p) hprivate hnone
      refine ⟨d, a, addr, ?_⟩
      simpa using hdone

theorem filterMap_reserving {γ : Type} {f : Act → Option γ} (h : ∀ act ∈ as, act.isReserving)
    (hf : ∀ act : Act, act.isReserving → f act = none) : as.filterMap f = [] :=
  List.filterMap_eq_nil_iff.mpr fun act hact => hf act (h act hact)

theorem inert_of_isReserving (h : ∀ act ∈ as, act.isReserving) : Inert as := fun act hact => by
  have hreserving := h act hact
  cases act <;> first | rfl | cases hreserving

theorem MapsBuffer.filterMap_eq_nil {γ : Type} {maps : List Act} {f : Act → Option γ}
    (h : MapsBuffer u a maps) (hf : ∀ act : Act, act.isInert = false → f act = none) :
    maps.filterMap f = [] := by
  refine List.filterMap_eq_nil_iff.mpr fun act hact => hf act ?_
  cases h <;> simp only [List.mem_cons, List.not_mem_nil, or_false] at hact
  · rw [hact]
    rfl
  · rw [hact]
    rfl
  · rcases hact with rfl | rfl <;> rfl

namespace MapDone

theorem serves (h : MapDone u c d a addr as) :
    ∃ reply : KiumdUser, reply.dmaAddr = addr ∧ Serves u as d a reply := by
  obtain @⟨file, v, reserving, maps, addrs, p, p', id, hprivate, hdev, hfits, hreserving, hmaps,
    haddr⟩ := h
  have hattaches : ∀ act : Act, act.isReserving → act.attaches = none := by
    intro act hact
    cases act <;> first | rfl | cases hact
  have hreplies : ∀ act : Act, act.isReserving → act.replies = none := by
    intro act hact
    cases act <;> first | rfl | cases hact
  have hmapsAttach : maps.filterMap Act.attaches = [] := by
    refine hmaps.filterMap_eq_nil fun act hact => ?_
    cases act <;> first | rfl | cases hact
  have hmapsReply : maps.filterMap Act.replies = [] := by
    refine hmaps.filterMap_eq_nil fun act hact => ?_
    cases act <;> first | rfl | cases hact
  have haddrs : addrs.filterMap Act.attaches = [] ∧ addrs.filterMap Act.replies = [] := by
    cases haddr <;> exact ⟨rfl, rfl⟩
  refine ⟨{ u with id := id, dmaAddr := addr }, rfl, ⟨file, v, ?_, hprivate, hdev⟩, ?_, ?_, ?_⟩
  · simp [openActs]
  · simp [openActs]
  · simp [openActs, List.filterMap_append, List.filterMap_cons, hmapsAttach, haddrs.1,
      filterMap_reserving hreserving hattaches, Act.attaches]
  · simp [openActs, List.filterMap_append, List.filterMap_cons, hmapsReply, haddrs.2,
      filterMap_reserving hreserving hreplies, Act.replies]

/-- The mappings of the buffer are all that is mapped. -/
theorem exists_maps (h : MapDone u c d a addr as) : ∃ first maps last,
    as = first ++ (maps ++ last) ∧ Inert first ∧ Inert last ∧ MapsBuffer u a maps := by
  obtain @⟨file, v, reserving, maps, addrs, p, p', id, hprivate, hdev, hfits, hreserving, hmaps,
    haddr⟩ := h
  refine ⟨openActs u p file d ++ (reserving ++ [.attach d a]), maps, .alloc p' ::
    .add c p' (mapEntry u v d a) id :: addrs ++
      [.reply (.user { u with id := id, dmaAddr := addr }) true], ?_, ?_, ?_, hmaps⟩
  · simp
  · refine openActs_inert.append ((inert_of_isReserving hreserving).append ?_)
    exact .cons rfl .nil
  · exact .cons rfl (.cons rfl (haddr.inert.append (.cons rfl .nil)))

end MapDone

/-! ## When it keeps its promise -/

theorem Serves.unique {d' : DmaBuf} {a' : Attachment} {reply reply' : KiumdUser}
    (h : Serves u as d a reply) (h' : Serves u as d' a' reply') :
    d' = d ∧ a' = a ∧ reply' = reply := by
  have hattach := h'.attaches.symm.trans h.attaches
  have hreply := h'.replies.symm.trans h.replies
  simp only [List.cons.injEq, Prod.mk.injEq, and_true] at hattach hreply
  exact ⟨hattach.1, hattach.2, hreply⟩

/-- A table whose first segment is at an address has all its bytes at their offsets from there if
and only if its segments are consecutive. -/
theorem DmaLayout.consecutive_iff {t : SgTable}
    (haddr : ∀ s ∈ (L.segments t).head?, addr = s.addr) :
    Consecutive (L.segments t) ↔
      ∀ i < sgBytes t.sgl, byteAddr (L.segments t) i = some (addr.toNat + i) := by
  rw [← L.covers t]
  cases hsegments : L.segments t with
  | nil => exact ⟨fun _ i hi => absurd hi (Nat.not_lt_zero i), fun _ => .nil⟩
  | cons s rest =>
      rw [hsegments] at haddr
      obtain rfl : addr = s.addr := haddr s rfl
      exact consecutive_iff_byteAddr

theorem MapsBuffer.after_eq {maps : List Act} (h : MapsBuffer u a maps)
    (hzero : u.isIovaZero ≠ FIXED_IOVA_AT_ZERO) (m : Translation) :
    L.after m maps = m ∪ L.placed a.dev.domain a.table := by
  cases h with
  | privileged _ _ | attached _ _ => rfl
  | zero result hiova => exact absurd hiova hzero

namespace MapDone

/-- A mapping by `iommu_map_sg` is one of the mappings of the buffer. -/
theorem mem_maps {first maps last : List Act} {act : Act} (hfirst : Inert first)
    (hlast : Inert last) (hact : act.isInert = false) (hmem : act ∈ first ++ (maps ++ last)) :
    act ∈ maps := by
  have hnot : ∀ {l : List Act}, Inert l → act ∉ l := fun hl hin => by
    rw [hl act hin] at hact
    cases hact
  have hrest := (List.mem_append.mp hmem).resolve_left (hnot hfirst)
  exact (List.mem_append.mp hrest).resolve_right (hnot hlast)

theorem dmaAddress_mem (h : MapDone u c d a addr as) (hzero : u.isIovaZero ≠ FIXED_IOVA_AT_ZERO) :
    .dmaAddress a.table addr ∈ as := by
  obtain ⟨_, _, _, _, _, haddr⟩ := h
  cases haddr with
  | zero hiova => exact absurd hiova hzero
  | mapped => simp

theorem addr_eq_zero (h : MapDone u c d a addr as) (hzero : u.isIovaZero = FIXED_IOVA_AT_ZERO) :
    addr = 0 := by
  obtain ⟨_, _, _, _, _, haddr⟩ := h
  cases haddr with
  | zero => rfl
  | mapped _ hiova => exact absurd hzero hiova

theorem fits (h : MapDone u c d a addr as) : a.Fits d a.dev := by
  obtain ⟨_, _, hfits, _, _, _⟩ := h
  exact hfits

/-- At IOVA zero every byte that `iommu_map_sg` says it has mapped is at its own index. -/
theorem correct_iff_zero (h : MapDone u c d a addr as)
    (hzero : u.isIovaZero = FIXED_IOVA_AT_ZERO) : MapCorrect L u as ↔ SgMapped as := by
  refine ⟨fun hcorrect => hcorrect.complete, fun hcomplete => ⟨?_, hcomplete⟩⟩
  obtain ⟨reply, hreply, hserves⟩ := h.serves
  refine ⟨d, a, reply, hserves, fun m i hi => ?_⟩
  rw [hreply, h.addr_eq_zero hzero]
  have hsgl : a.table.sgl = d.sg := h.fits.2.2.1
  obtain ⟨first, maps, last, rfl, hfirst, hlast, hmaps⟩ := h.exists_maps
  rw [DmaLayout.after_append, DmaLayout.after_append, DmaLayout.after_inert hfirst,
    DmaLayout.after_inert hlast]
  cases hmaps with
  | privileged hprivileged _ => exact absurd hzero hprivileged.2
  | attached _ hiova => exact absurd hzero hiova
  | zero result _ =>
      have hresult : (sgBytes a.table.sgl : Int) ≤ result :=
        hcomplete a.dev.domain 0 a.table u.zeroProt result (by simp)
      rw [hsgl] at hresult
      refine .inr ⟨rfl, rfl, ?_, ?_, rfl⟩
      · rw [hsgl]
        exact hi
      · show (i : Int) < result
        omega

/-- Elsewhere every byte is where the DMA layer has placed it. -/
theorem correct_iff_placed (h : MapDone u c d a addr as) (hreports : L.Reports as)
    (hzero : u.isIovaZero ≠ FIXED_IOVA_AT_ZERO) :
    MapCorrect L u as ↔ Consecutive (L.segments a.table) := by
  obtain ⟨reply, hreply, hserves⟩ := h.serves
  have hsgl : a.table.sgl = d.sg := h.fits.2.2.1
  have haddr := hreports a.table addr (h.dmaAddress_mem hzero)
  obtain ⟨first, maps, last, rfl, hfirst, hlast, hmaps⟩ := h.exists_maps
  have hafter : ∀ m, L.after m (first ++ (maps ++ last)) = m ∪ L.placed a.dev.domain a.table := by
    intro m
    rw [DmaLayout.after_append, DmaLayout.after_append, DmaLayout.after_inert hfirst,
      DmaLayout.after_inert hlast, hmaps.after_eq hzero]
  rw [DmaLayout.consecutive_iff haddr, hsgl]
  constructor
  · intro hcorrect i hi
    obtain ⟨d', a', reply', hserves', hmapped⟩ := hcorrect.mapped
    obtain ⟨rfl, rfl, rfl⟩ := hserves.unique hserves'
    have hbyte := hmapped ∅ i hi
    rw [hafter, Set.empty_union, hreply] at hbyte
    exact hbyte.2.2
  · intro hall
    refine ⟨⟨d, a, reply, hserves, fun m i hi => ?_⟩, ?_⟩
    · rw [hafter, hreply]
      exact .inr ⟨rfl, rfl, hall i hi⟩
    · intro dom iova t prot result hmem
      have hmaps' := mem_maps hfirst hlast rfl hmem
      cases hmaps with
      | privileged _ _ | attached _ _ => simp at hmaps'
      | zero _ hiova => exact absurd hiova hzero

end MapDone

/-- A MAP_BUF that has returned 0 has mapped every byte of the buffer at the address it returned
plus its offset, and no `iommu_map_sg` has failed or was short, if and only if `iommu_map_sg`
answered that it has mapped all bytes, or, elsewhere than at IOVA zero, the segments in which the
DMA layer has mapped the buffer follow one another. -/
theorem map_success_correct_iff (L : DmaLayout) (u : KiumdUser) (c : Nat) {w w' : World}
    {trace : List (Event KCall)}
    (hexec : Exec kernel (kiumdDmabufVfioMap u (some (some c))) w trace (some 0) w')
    (hreports : L.Reports (acts trace)) :
    MapCorrect L u (acts trace) ↔ WholeAnswers L u (acts trace) := by
  obtain ⟨d, a, addr, hdone⟩ := (kiumdDmabufVfioMap_shows.exec driver_admits hexec).done
  unfold WholeAnswers
  split
  · rename_i hzero
    exact hdone.correct_iff_zero hzero
  · rename_i hzero
    obtain ⟨reply, -, hserves⟩ := hdone.serves
    rw [hdone.correct_iff_placed hreports hzero, hserves.attaches]
    constructor
    · intro hconsecutive d' a' hmem
      obtain ⟨rfl, rfl⟩ := Prod.mk.inj (List.mem_singleton.mp hmem)
      exact hconsecutive
    · intro hall
      exact hall d a (List.mem_singleton.mpr rfl)

/-- The layout in which every table is one segment that starts at the same address. -/
def DmaLayout.oneSegment (base : U64) : DmaLayout where
  segments t := if h : 0 < sgBytes t.sgl then [⟨base, sgBytes t.sgl, h⟩] else []
  covers := by
    intro t
    split
    · simp [segmentBytes]
    · rename_i hempty
      rw [Nat.eq_zero_of_not_pos hempty]
      rfl

/-- The address an action was told is this one. -/
def Act.reportsAt (base : U64) : Act → Bool
  | .dmaAddress _ addr => addr = base
  | _ => true

/-- The action is an `iommu_map_sg` that failed. -/
def Act.mapSgFails : Act → Bool
  | .mapSg _ _ _ _ result => result < 0
  | _ => false

theorem oneSegment_reports {base : U64} (h : as.all (Act.reportsAt base) = true) :
    (DmaLayout.oneSegment base).Reports as := by
  intro t addr hmem s hs
  have haddr : addr = base := of_decide_eq_true (List.all_eq_true.mp h _ hmem)
  simp only [DmaLayout.oneSegment] at hs
  split at hs
  · obtain rfl := Option.some.inj hs
    exact haddr
  · cases hs

/-- A buffer mapped by the DMA layer alone. -/
theorem map_success_correct_iff_plain : ∃ trace w',
    Exec kernel (kiumdDmabufVfioMap plainUser (some (some 0))) .initial trace (some 0) w' ∧
      MapCorrect (.oneSegment 0x60000000) plainUser (acts trace) := by
  have hcheck : (kiumdDmabufVfioMap plainUser (some (some 0))).check kernel
      (Answers.plain fun _ _ => false).choose .initial
      (fun trace value _ => decide (value = 0) &&
        (acts trace).all (Act.reportsAt 0x60000000)) = true := by
    decide +kernel
  obtain ⟨trace, value, w', hexec, htest⟩ := Program.check_exec hcheck
  simp only [Bool.and_eq_true, decide_eq_true_eq] at htest
  obtain ⟨rfl, hreports⟩ := htest
  refine ⟨trace, w', hexec, (map_success_correct_iff _ _ _ hexec (oneSegment_reports hreports)).mpr
    fun d a _ => ?_⟩
  simp only [DmaLayout.oneSegment]
  split
  · exact .singleton _
  · exact .nil

/-- Every call but `iommu_map_sg` succeeds. -/
def mapSgFailing : (β : Type) → KCall β → Bool
  | _, .iommuMapSg _ _ _ _ => true
  | _, _ => false

/-- A failed `iommu_map_sg` is reported as a mapping at IOVA zero. -/
theorem not_map_success_correct : ¬ ∀ (L : DmaLayout) (u : KiumdUser) (c : Nat) (w w' : World)
    (trace : List (Event KCall)),
    Exec kernel (kiumdDmabufVfioMap u (some (some c))) w trace (some 0) w' →
      L.Reports (acts trace) → MapCorrect L u (acts trace) := by
  intro h
  let u : KiumdUser := { plainUser with isIovaZero := FIXED_IOVA_AT_ZERO }
  have hcheck : (kiumdDmabufVfioMap u (some (some 0))).check kernel
      (Answers.plain mapSgFailing).choose .initial
      (fun trace value _ => decide (value = 0) && (acts trace).all (Act.reportsAt 0x60000000) &&
        (acts trace).any Act.mapSgFails) = true := by
    decide +kernel
  obtain ⟨trace, value, w', hexec, htest⟩ := Program.check_exec hcheck
  simp only [Bool.and_eq_true, decide_eq_true_eq] at htest
  obtain ⟨⟨rfl, hreports⟩, hfails⟩ := htest
  have hcorrect := h (.oneSegment 0x60000000) u 0 _ _ _ hexec (oneSegment_reports hreports)
  obtain ⟨act, hmem, hact⟩ := List.any_eq_true.mp hfails
  cases act with
  | mapSg dom iova t prot result =>
      have hneg : result < 0 := of_decide_eq_true hact
      have hresult := hcorrect.complete dom iova t prot result hmem
      omega
  | _ => cases hact

end SafeLinux.Kiumd
