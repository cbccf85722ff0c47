import SafeLinux.Effects.Threads
import SafeLinux.Kiumd.Answers
import SafeLinux.Kiumd.BufferShapes
import SafeLinux.Kiumd.Placements

/-!
# MAP_BUF requests for KGSL at the same time

A KGSL request of MAP_BUF searches its bitmap and then sets the bits, and sets the cookie of the
domain and then maps. No lock is held between the two calls of either pair, so that two requests can
reserve the same pages and one can be mapped at the IOVA of the other
(`not_concurrent_maps_keep_own`). As long as no other request comes in between, every request gets
the IOVA of its own pages in every interleaving (`concurrent_maps_keep_own`): `MapStage` is how far
a request has come, `MapOwns` what the state then holds for it.
-/

namespace SafeLinux.Kiumd

open Effects

/-! ## How far a request has come -/

/-- Bits that a request has set in a bitmap. -/
structure BitRun where
  map : KgslMap
  start : U32
  nr : U32
  deriving DecidableEq

/-- The pages of the bits. -/
def BitRun.pages (r : BitRun) : Set Nat := Set.Ico r.start.toNat (r.start.toNat + r.nr.toNat)

/-- What a request of MAP_BUF has done. -/
structure MapStage where
  /-- The last search: its bitmap, the number of pages and the position it has returned. -/
  found : Option (KgslMap × U32 × U64) := none
  reserved : Option BitRun := none
  /-- What `get_map_offset` returns. -/
  offset : Option Int := none
  cookie : Option (Domain × U64) := none
  attached : Option Attachment := none
  placed : Bool := false
  address : Option U64 := none
  /-- The `dma_addr` of the reply. -/
  dmaAddr : Option U64 := none

/-- An action takes a request further. -/
def MapStage.next (s : MapStage) : Act → MapStage
  | .search m _ nr bit => { s with found := some (m, nr, bit) }
  | .set m start nr =>
      { s with reserved := some ⟨m, start, nr⟩, offset := s.found.map fun f => bitOffset f.2.2 }
  | .cookie dom _ iova => { s with cookie := some (dom, iova) }
  | .attach _ a => { s with attached := some a }
  | .detach _ _ => { s with attached := none }
  | .mapAttachment _ _ _ | .mapSgtable _ _ _ _ => { s with placed := true }
  | .dmaAddress _ addr => { s with address := some addr }
  | .reply (.user u) _ => { s with dmaAddr := some u.dmaAddr }
  | _ => s

/-- The IOVA is that of the pages the request has reserved. -/
def MapStage.OwnIova (u : KiumdUser) (s : MapStage) (iova : U64) : Prop :=
  ∃ offset, s.offset = some offset ∧ iova = mapIova (BitVec.ofInt 64 offset) u.ptselect

/-- The actions a KGSL request can do at a stage. -/
def MapStage.Allows (u : KiumdUser) (s : MapStage) : Act → Prop
  | .set m start nr => m = kgslMap u.ptselect ∧ s.reserved = none ∧ s.offset = none ∧
      ∃ size bit, s.found = some (m, nr, bit) ∧ nr = pagesOf size ∧ AcceptsBit size bit ∧
        start = bit.setWidth 32
  | .clear _ _ _ => False
  | .cookie _ type iova => type = .msi ∧ s.cookie = none ∧ s.OwnIova u iova
  | .attach _ a => s.attached = none ∧ s.placed = false ∧
      ∃ iova, s.cookie = some (a.dev.domain, iova)
  | .detach _ a => s.attached = some a
  | .mapAttachment a _ t => s.attached = some a ∧ t = a.table ∧ s.placed = false
  | .mapSgtable dev t _ _ => s.placed = false ∧
      ∃ a, s.attached = some a ∧ dev = a.dev ∧ t = a.table
  | .dmaAddress t _ => s.placed = true ∧ ∃ a, s.attached = some a ∧ t = a.table
  | .reply (.user u') _ => s.address = some u'.dmaAddr
  | .reply _ _ => False
  | _ => True

/-- The stage after some actions. -/
def MapStage.after (s : MapStage) (as : List Act) : MapStage := as.foldl MapStage.next s

/-- The actions are those of a KGSL request from a stage on. -/
def MapStage.Follows (u : KiumdUser) (s : MapStage) : List Act → Prop
  | [] => True
  | act :: as => s.Allows u act ∧ (s.next act).Follows u as

section Shapes

variable {u : KiumdUser} {c : Nat} {v : VfioDevice} {d : DmaBuf} {a : Attachment} {st : MapStage}
  {as bs : List Act} {result : Option Int}

theorem follows_append :
    st.Follows u (as ++ bs) ↔ st.Follows u as ∧ (st.after as).Follows u bs := by
  induction as generalizing st with
  | nil => simp [MapStage.Follows, MapStage.after]
  | cons act as ih =>
      show _ ∧ (st.next act).Follows u (as ++ bs) ↔ _
      rw [ih, ← and_assoc]
      rfl

/-- What a request does before it has found its buffer takes it no further. -/
theorem follows_opening (h : ∀ act ∈ as, act.isOpening) : st.Follows u as := by
  induction as with
  | nil => exact trivial
  | cons act as ih =>
      obtain ⟨hact, has⟩ := List.forall_mem_cons.mp h
      cases act with
      | alloc p => exact ⟨trivial, ih has⟩
      | file fd f => exact ⟨trivial, ih has⟩
      | _ => cases hact

/-- Searches lead to a stage with another search. -/
theorem follows_searches (h : ∀ act ∈ as, act.isSearch) :
    st.Follows u as ∧ ∃ found, st.after as = { st with found := found } := by
  induction as generalizing st with
  | nil => exact ⟨trivial, st.found, rfl⟩
  | cons act as ih =>
      obtain ⟨hact, has⟩ := List.forall_mem_cons.mp h
      cases act with
      | lastOffset m offset =>
          obtain ⟨hfollows, found, hafter⟩ := @ih st has
          exact ⟨⟨trivial, hfollows⟩, found, hafter⟩
      | search m start nr bit =>
          obtain ⟨hfollows, found, hafter⟩ :=
            @ih (st.next (.search m start nr bit)) has
          exact ⟨⟨trivial, hfollows⟩, found, hafter⟩
      | _ => cases hact

/-- `get_map_offset` leads to the stage in which the offset that it returns is known. -/
theorem OffsetShape.follows {size : U64} {ret : Int}
    (h : OffsetShape size u.ptselect as (some ret)) :
    ({} : MapStage).Follows u as ∧ (0 ≤ ret → ∃ found reserved,
      ({} : MapStage).after as = { found := found, reserved := reserved, offset := some ret }) := by
  cases h with
  | refused hneg hall => exact ⟨(follows_searches hall).1, fun hret => absurd hneg (by omega)⟩
  | @taken searches start bit hall hpos hbit =>
      have hsearched : ({} : MapStage).Follows u searches ∧ ∃ found,
        ({} : MapStage).after searches = { found := found } := follows_searches hall
      obtain ⟨hfollows, found, hafter⟩ := hsearched
      have hafter' : ∀ rest, ({} : MapStage).after (searches ++ rest) =
          ({ found := found } : MapStage).after rest := by
        intro rest
        show (searches ++ rest).foldl _ _ = _
        rw [List.foldl_append]
        exact congrArg (fun s : MapStage => s.after rest) hafter
      refine ⟨follows_append.mpr ⟨hfollows, ?_⟩, fun _ => ?_⟩
      · rw [hafter]
        exact ⟨trivial, ⟨rfl, rfl, rfl, size, bit, rfl, rfl, hbit, rfl⟩, trivial, trivial⟩
      · rw [hafter']
        exact ⟨_, _, rfl⟩

/-- The end of a request that has been mapped. -/
theorem PublishShape.follows (h : PublishShape u c v d a as result)
    (hiova : u.isIovaZero ≠ FIXED_IOVA_AT_ZERO) (hattached : st.attached = some a)
    (hplaced : st.placed = true) : st.Follows u as := by
  have haddress : ∀ {addrs rest : List Act} {addr : U64}, AddressShape u a.table addrs addr →
      ({ st with address := some addr } : MapStage).Follows u rest →
      st.Follows u (addrs ++ rest) := by
    intro addrs rest addr hshape hrest
    cases hshape with
    | zero hzero => exact absurd hzero hiova
    | mapped addr _ => exact ⟨⟨hplaced, a, hattached, rfl⟩, hrest⟩
  cases h with
  | unpublished _ => exact trivial
  | stale _ haddr =>
      refine ⟨trivial, trivial, haddress haddr ?_⟩
      exact ⟨rfl, trivial, hattached, trivial, trivial⟩
  | done haddr => exact ⟨trivial, trivial, haddress haddr ⟨rfl, trivial⟩⟩

/-- What follows the setting of the cookie. -/
theorem AttachShape.follows {dev : Device} {iova : U64} (h : AttachShape u c v d as result)
    (hiova : u.isIovaZero ≠ FIXED_IOVA_AT_ZERO) (hdev : v.dev = some dev)
    (hcookie : st.cookie = some (dev.domain, iova)) (hattached : st.attached = none)
    (hplaced : st.placed = false) : st.Follows u as := by
  cases h with
  | refused _ => exact ⟨trivial, trivial⟩
  | @attached a rest _ _ hdev' hattach =>
      obtain rfl : dev = a.dev := Option.some.inj (hdev.symm.trans hdev')
      refine ⟨⟨hattached, hplaced, iova, hcookie⟩, ?_⟩
      cases hattach with
      | detached _ => exact ⟨rfl, trivial, trivial⟩
      | undomained _ hzero => exact absurd hzero hiova
      | mapped hmaps hpublish =>
          cases hmaps with
          | privileged _ _ =>
              exact ⟨⟨hplaced, a, rfl, rfl, rfl⟩, hpublish.follows hiova rfl rfl⟩
          | attached _ _ => exact ⟨⟨rfl, rfl, hplaced⟩, hpublish.follows hiova rfl rfl⟩
          | zero _ hzero => exact absurd hzero hiova

/-- A KGSL request that does not ask for IOVA zero keeps to the stages. -/
theorem MapShape.follows (h : MapShape u c as result) (hkgsl : IsKgsl u.ptselect)
    (hiova : u.isIovaZero ≠ FIXED_IOVA_AT_ZERO) : ({} : MapStage).Follows u as := by
  have hopen : ∀ {p : Nat} {file : File} {d : DmaBuf} {rest : List Act},
      ({} : MapStage).Follows u rest → ({} : MapStage).Follows u (openActs u p file d ++ rest) :=
    fun hrest => ⟨trivial, trivial, trivial, hrest⟩
  cases h with
  | early _ hopening => exact follows_opening hopening
  | unreserved _ _ _ hoffset =>
      exact hopen (follows_append.mpr ⟨hoffset.follows.1, trivial, trivial⟩)
  | uncookied _ _ _ _ hoffset =>
      exact hopen (follows_append.mpr ⟨hoffset.follows.1, trivial, trivial⟩)
  | reserved hnonneg _ _ hoffset hdev hattach =>
      obtain ⟨hfollows, hafter⟩ := hoffset.follows
      obtain ⟨found, reserved, hafter⟩ := hafter hnonneg
      refine hopen (follows_append.mpr ⟨hfollows, ?_⟩)
      rw [hafter]
      exact ⟨⟨rfl, rfl, _, rfl, rfl⟩, hattach.follows hiova hdev rfl rfl rfl⟩
  | plain _ hnot _ => exact absurd hkgsl hnot

end Shapes

/-! ## What the state holds for a request -/

/-- The bits that an action sets in a bitmap. -/
def Act.runs (m : KgslMap) : Act → List BitRun
  | .set m' start nr => if m' = m then [⟨m, start, nr⟩] else []
  | _ => []

/-- The action searches a bitmap. -/
def Act.searches : Act → Bool
  | .search _ _ _ _ => true
  | _ => false

/-- The action sets a cookie. -/
def Act.setsCookie : Act → Bool
  | .cookie _ _ _ => true
  | _ => false

/-- What the state holds for a request at a stage, when others have set the bits `sets` since its
last search and have set or used the cookies of the domains `moved` since it has set one. -/
structure MapOwns (u : KiumdUser) (st : MapStage) (sets : KgslMap → List BitRun)
    (moved : Domain → Bool) (s : Placed) : Prop where
  marked : ∀ r, st.reserved = some r →
    r.map = kgslMap u.ptselect ∧ r.pages ⊆ s.world.kgsl.marked r.map
  /-- Of the pages found only those are marked that others have set. -/
  clear : st.reserved = none → ∀ m nr bit size, st.found = some (m, nr, bit) → nr = pagesOf size →
    AcceptsBit size bit → ∀ page ∈ (BitRun.mk m (bit.setWidth 32) nr).pages,
      page ∈ s.world.kgsl.marked m → ∃ r ∈ sets m, page ∈ r.pages
  cookie : ∀ dom iova, st.cookie = some (dom, iova) → st.OwnIova u iova ∧
    (st.placed = false → moved dom = false → s.world.cookies dom = ⟨.msi, iova⟩)
  attached : ∀ a, st.attached = some a → .attachment a ∈ s.world.held ∧
    (∃ iova, st.cookie = some (a.dev.domain, iova)) ∧
    (st.placed = true → st.OwnIova u (s.address a.table))
  address : ∀ addr, st.address = some addr → st.OwnIova u addr
  reply : ∀ addr, st.dmaAddr = some addr → st.OwnIova u addr

/-- A request that has done nothing has nothing. -/
theorem MapOwns.start {u : KiumdUser} {s : Placed} {sets : KgslMap → List BitRun}
    {moved : Domain → Bool} : MapOwns u {} sets moved s where
  marked _ h := by cases h
  clear _ _ _ _ _ h := by cases h
  cookie _ _ h := by cases h
  attached _ h := by cases h
  address _ h := by cases h
  reply _ h := by cases h

section Steps

variable {u : KiumdUser} {st : MapStage} {sets sets' : KgslMap → List BitRun}
  {moved moved' : Domain → Bool} {alloc : Allocator} {s s' : Placed} {β : Type}
  {request : KCall β} {answer : β} {act : Act} {m : KgslMap} {dom : Domain}

/-- What a call that clears no bits adds to a bitmap. -/
theorem placing_marked (hstep : (placing alloc).step request s answer = some s')
    (hclears : ∀ act ∈ request.act answer, act.clears = false) :
    s.world.kgsl.marked m ⊆ s'.world.kgsl.marked m ∧ ∀ page ∈ s'.world.kgsl.marked m,
      page ∈ s.world.kgsl.marked m ∨
        ∃ act ∈ request.act answer, ∃ r ∈ act.runs m, page ∈ r.pages := by
  obtain ⟨w, hstep, hkgsl, -⟩ := placing_kernel hstep
  rw [hkgsl]
  by_cases hsets : ∃ act ∈ request.act answer, act.sets = some m
  · obtain ⟨act, hact, hset⟩ := hsets
    cases act <;> first | (cases hset; done) | skip
    rename_i m' start nr
    obtain rfl : m' = m := Option.some.inj hset
    rw [marked_set_step hstep hact]
    refine ⟨Set.subset_union_right, fun page hpage => ?_⟩
    refine hpage.symm.imp_right fun hpage => ⟨_, hact, ⟨m', start, nr⟩, ?_, hpage⟩
    simp [Act.runs]
  · rw [marked_step hstep (fun act hact hset => hsets ⟨act, hact, hset⟩) hclears]
    exact ⟨subset_rfl, fun page hpage => .inl hpage⟩

/-- What others do that neither take the objects of a request away nor map its table. -/
theorem MapOwns.kept (h : MapOwns u st sets moved s)
    (hstep : (placing alloc).step request s answer = some s')
    (hclears : ∀ act ∈ request.act answer, act.clears = false)
    (hsets : ∀ m, sets m ⊆ sets' m ∧ ∀ act ∈ request.act answer, act.runs m ⊆ sets' m)
    (hmoved : ∀ dom, moved' dom = false →
      moved dom = false ∧ ∀ act ∈ request.act answer, act.moves ≠ some dom)
    (hattached : ∀ a, st.attached = some a → (∀ d, request.act answer ≠ some (.detach d a)) ∧
      ∀ act ∈ request.act answer, ∀ dom, act.placesIn ≠ some (dom, a.table)) :
    MapOwns u st sets' moved' s' where
  marked r hr := by
    obtain ⟨hmap, hpages⟩ := h.marked r hr
    exact ⟨hmap, hpages.trans (placing_marked hstep hclears).1⟩
  clear hnone m nr bit size hfound hnr hbit page hpage hmarked := by
    rcases (placing_marked hstep hclears).2 page hmarked with hmarked | ⟨act, hact, r, hr, hpage'⟩
    · obtain ⟨r, hr, hpage'⟩ := h.clear hnone m nr bit size hfound hnr hbit page hpage hmarked
      exact ⟨r, (hsets m).1 hr, hpage'⟩
    · exact ⟨r, (hsets m).2 act hact hr, hpage'⟩
  cookie dom iova hcookie := by
    obtain ⟨hown, hset⟩ := h.cookie dom iova hcookie
    refine ⟨hown, fun hplaced hmoved' => ?_⟩
    obtain ⟨hfalse, hmoves⟩ := hmoved dom hmoved'
    rw [cookie_step hstep hmoves]
    exact hset hplaced hfalse
  attached a ha := by
    obtain ⟨hheld, hcookie, haddress⟩ := h.attached a ha
    obtain ⟨hdetach, hplaces⟩ := hattached a ha
    refine ⟨?_, hcookie, fun hplaced => ?_⟩
    · obtain ⟨w, hkernel, -, hheld'⟩ := placing_kernel hstep
      rw [hheld']
      exact attachment_mem_step hkernel hdetach hheld
    · rw [address_step hstep hplaces]
      exact haddress hplaced
  address := h.address
  reply := h.reply

/-! ### Its own calls -/

/-- A position that passes the test lies in the window. -/
theorem AcceptsBit.lt {size bit : U64} (h : AcceptsBit size bit)
    (hbound : bit.toNat ≤ KGSL_PT_MEM_PAGES + 2 ^ 32) : bit.toNat < KGSL_PT_MEM_PAGES := by
  unfold AcceptsBit at h
  have hpages : (size >>> PAGE_SHIFT).toNat < 2 ^ 52 := by
    rw [BitVec.toNat_ushiftRight, Nat.shiftRight_eq_div_pow]
    simp only [PAGE_SHIFT]
    omega
  have hsum : (bit + size >>> PAGE_SHIFT).toNat = bit.toNat + (size >>> PAGE_SHIFT).toNat := by
    rw [BitVec.toNat_add, Nat.mod_eq_of_lt]
    simp only [KGSL_PT_MEM_PAGES] at hbound
    omega
  omega

/-- The pages that a search has found are clear. -/
theorem found_clear {k : KgslMaps} {size start bit : U64} {nr : U32} {page : Nat}
    (h : NextZeroArea (k.bits m) KGSL_PT_MEM_PAGES start.toNat nr.toNat bit.toNat)
    (hbit : AcceptsBit size bit) (hpage : page ∈ (BitRun.mk m (bit.setWidth 32) nr).pages) :
    page ∉ k.marked m := by
  have hbound : bit.toNat ≤ KGSL_PT_MEM_PAGES + 2 ^ 32 := by
    have := h.1
    omega
  have hlt := hbit.lt hbound
  have hstart : (bit.setWidth 32).toNat = bit.toNat := by
    rw [BitVec.toNat_setWidth, Nat.mod_eq_of_lt]
    simp only [KGSL_PT_MEM_PAGES] at hlt
    omega
  have hpage' : page ∈ Set.Ico bit.toNat (bit.toNat + nr.toNat) := hstart ▸ hpage
  have hnr : nr.toNat ≠ 0 := by
    have := hpage'.1
    have := hpage'.2
    omega
  exact Set.disjoint_left.mp (h.zeroArea hnr hlt.le).disjoint hpage'

theorem next_reserved {r : BitRun} (h : (st.next act).reserved = some r) :
    st.reserved = some r ∨ act = .set r.map r.start r.nr := by
  cases act with
  | set m start nr =>
      cases h
      exact .inr rfl
  | reply arg copied => cases arg <;> exact .inl h
  | _ => exact .inl h

theorem next_cookie {iova : U64} (h : (st.next act).cookie = some (dom, iova)) :
    st.cookie = some (dom, iova) ∧ act.setsCookie = false ∨ ∃ type, act = .cookie dom type iova := by
  cases act with
  | cookie dom' type iova' =>
      cases h
      exact .inr ⟨type, rfl⟩
  | reply arg copied => cases arg <;> exact .inl ⟨h, rfl⟩
  | _ => exact .inl ⟨h, rfl⟩

theorem next_attached {a : Attachment} (h : (st.next act).attached = some a) :
    st.attached = some a ∧ (∀ d a', act ≠ .detach d a') ∨ ∃ d, act = .attach d a := by
  cases act with
  | attach d a' =>
      cases h
      exact .inr ⟨d, rfl⟩
  | detach d a' => cases h
  | reply arg copied => cases arg <;> exact .inl ⟨h, fun _ _ heq => by cases heq⟩
  | _ => exact .inl ⟨h, fun _ _ heq => by cases heq⟩

theorem next_placed : (st.next act).placed = (st.placed || act.placesIn.isSome) := by
  cases act with
  | mapAttachment | mapSgtable => exact (Bool.or_true _).symm
  | reply arg copied => cases arg <;> exact (Bool.or_false _).symm
  | _ => exact (Bool.or_false _).symm

theorem next_address {addr : U64} (h : (st.next act).address = some addr) :
    st.address = some addr ∨ ∃ t, act = .dmaAddress t addr := by
  cases act with
  | dmaAddress t addr' =>
      cases h
      exact .inr ⟨t, rfl⟩
  | reply arg copied => cases arg <;> exact .inl h
  | _ => exact .inl h

theorem next_dmaAddr {addr : U64} (h : (st.next act).dmaAddr = some addr) :
    st.dmaAddr = some addr ∨ ∃ u copied, act = .reply (.user u) copied ∧ u.dmaAddr = addr := by
  cases act with
  | reply arg copied =>
      cases arg with
      | user u =>
          cases h
          exact .inr ⟨u, copied, rfl, rfl⟩
      | _ => exact .inl h
  | _ => exact .inl h

theorem next_found {found : KgslMap × U32 × U64} (h : (st.next act).found = some found) :
    st.found = some found ∧ act.searches = false ∨
      ∃ start, act = .search found.1 start found.2.1 found.2.2 := by
  cases act with
  | search m start nr bit =>
      cases h
      exact .inr ⟨start, rfl⟩
  | reply arg copied => cases arg <;> exact .inl ⟨h, rfl⟩
  | _ => exact .inl ⟨h, rfl⟩

/-- Bits that a request sets are reserved. -/
theorem next_unreserved (h : (st.next act).reserved = none) :
    st.reserved = none ∧ ∀ m, act.runs m = [] := by
  cases act with
  | set m start nr => cases h
  | reply arg copied => cases arg <;> exact ⟨h, fun _ => rfl⟩
  | _ => exact ⟨h, fun _ => rfl⟩

/-- A request reserves once, so that the IOVA of its pages stays. -/
theorem MapStage.OwnIova.next {iova : U64} (h : st.OwnIova u iova) (hallows : st.Allows u act) :
    (st.next act).OwnIova u iova := by
  obtain ⟨offset, hoffset, hiova⟩ := h
  refine ⟨offset, ?_, hiova⟩
  cases act with
  | set m start nr =>
      rw [hallows.2.2.1] at hoffset
      cases hoffset
  | reply arg copied => cases arg <;> exact hoffset
  | _ => exact hoffset

/-- A request sets one cookie. -/
theorem MapStage.Allows.cookie_next {iova : U64} (hallows : st.Allows u act)
    (h : st.cookie = some (dom, iova)) : (st.next act).cookie = some (dom, iova) := by
  cases act with
  | cookie dom' type iova' =>
      rw [hallows.2.1] at h
      cases h
  | reply arg copied => cases arg <;> exact h
  | _ => exact h

/-- A request maps the table of its attachment, once. -/
theorem MapStage.Allows.places {t : SgTable} (hallows : st.Allows u act)
    (h : act.placesIn = some (dom, t)) : st.placed = false ∧
      ∃ a, st.attached = some a ∧ dom = a.dev.domain ∧ t = a.table := by
  cases act with
  | mapAttachment a dir t' =>
      cases h
      exact ⟨hallows.2.2, a, hallows.1, rfl, hallows.2.1⟩
  | mapSgtable dev t' dir attrs =>
      cases h
      obtain ⟨hplaced, a, ha, rfl, rfl⟩ := hallows
      exact ⟨hplaced, a, ha, rfl, rfl⟩
  | _ => cases h

theorem MapStage.Allows.clears (hallows : st.Allows u act) : act.clears = false := by
  cases act with
  | clear m start nr => exact hallows.elim
  | _ => rfl

/-- What a call of the request itself leaves. Its mapping lies at its IOVA, because no other has
moved the cookie of the domain. -/
theorem MapOwns.own_step (h : MapOwns u st sets moved s)
    (hstep : (placing alloc).step request s answer = some s') (hact : request.act answer = some act)
    (hallows : st.Allows u act) (hplaces : ∀ place ∈ act.placesIn, moved place.1 = false) :
    MapOwns u (st.next act) (fun m => if act.searches then [] else sets m)
      (fun dom => if act.setsCookie then false else moved dom) s' := by
  have honly : ∀ act' ∈ request.act answer, act' = act := by
    intro act' hact'
    rw [Option.mem_def, hact] at hact'
    exact (Option.some.inj hact').symm
  have hclears : ∀ act' ∈ request.act answer, act'.clears = false := fun act' hact' =>
    honly act' hact' ▸ hallows.clears
  obtain ⟨w, hkernel, hkgsl, hheld⟩ := placing_kernel hstep
  refine ⟨fun r hr => ?_, fun hnone m nr bit size hfound hnr hbit page hpage hmarked => ?_,
    fun dom iova hcookie => ?_, fun a ha => ?_, fun addr haddr => ?_, fun addr haddr => ?_⟩
  · rcases next_reserved hr with hr | rfl
    · obtain ⟨hmap, hpages⟩ := h.marked r hr
      exact ⟨hmap, hpages.trans (placing_marked hstep hclears).1⟩
    · refine ⟨hallows.1, ?_⟩
      rw [hkgsl, marked_set_step hkernel hact]
      exact Set.subset_union_left
  · obtain ⟨hreserved, hruns⟩ := next_unreserved hnone
    -- the request itself has set no bits, so what is marked was marked before
    have hbefore : page ∈ s.world.kgsl.marked m := by
      refine ((placing_marked hstep hclears).2 page hmarked).resolve_right ?_
      rintro ⟨act', hact', r, hr, -⟩
      rw [honly act' hact', hruns m] at hr
      cases hr
    rcases next_found hfound with ⟨hfound, hsearches⟩ | ⟨start, rfl⟩
    · rw [if_neg (by simp [hsearches])]
      exact h.clear hreserved m nr bit size hfound hnr hbit page hpage hbefore
    · exact absurd hbefore (found_clear (search_step hkernel hact) hbit hpage)
  · rcases next_cookie hcookie with ⟨hcookie, hsets⟩ | ⟨type, rfl⟩
    · obtain ⟨hown, hset⟩ := h.cookie dom iova hcookie
      refine ⟨hown.next hallows, fun hplaced hmoved => ?_⟩
      rw [if_neg (by simp [hsets])] at hmoved
      rw [next_placed, Bool.or_eq_false_iff] at hplaced
      rw [cookie_step hstep fun act' hact' => ?_]
      · exact hset hplaced.1 hmoved
      · rw [honly act' hact']
        cases act with
        | cookie => cases hsets
        | mapAttachment | mapSgtable => cases hplaced.2
        | _ => exact fun heq => by cases heq
    · have hown := hallows.2.2
      refine ⟨hown.next hallows, fun _ _ => ?_⟩
      have hunplaced := placing_unplaced hstep fun act' hact' => by rw [honly act' hact']; rfl
      rw [cookie_set_step hunplaced.1 hact, hallows.1]
      exact Function.update_self ..
  · rcases next_attached ha with ⟨ha, hdetach⟩ | ⟨d, rfl⟩
    · obtain ⟨hmem, ⟨iova, hcookie⟩, haddress⟩ := h.attached a ha
      refine ⟨?_, ⟨iova, hallows.cookie_next hcookie⟩, fun hplaced => ?_⟩
      · rw [hheld]
        refine attachment_mem_step hkernel (fun d hd => ?_) hmem
        exact hdetach d a (honly _ hd).symm
      · cases hnew : act.placesIn with
        | none =>
            rw [next_placed, hnew] at hplaced
            have hsame : s'.address a.table = s.address a.table := by
              refine address_step hstep fun act' hact' dom hplace => ?_
              rw [honly act' hact', hnew] at hplace
              cases hplace
            rw [hsame]
            exact (haddress (by simpa using hplaced)).next hallows
        | some place =>
            obtain ⟨dom, t⟩ := place
            obtain ⟨hunplaced, a', ha', rfl, rfl⟩ := hallows.places hnew
            obtain rfl : a = a' := Option.some.inj (ha.symm.trans ha')
            obtain ⟨hown, hset⟩ := h.cookie _ iova hcookie
            have hcookies := hset hunplaced (hplaces _ hnew)
            obtain ⟨w', dev, -, hsame, hdev, rfl⟩ := placing_placed hstep hact hnew
            have hmsi : w'.cookies dev.domain = ⟨.msi, iova⟩ := by
              rw [hdev, hsame]
              exact hcookies
            rw [(Placed.place_msi (s := ⟨w', s.address⟩) hmsi).1, Function.update_self]
            exact hown.next hallows
    · refine ⟨?_, hallows.2.2, fun hplaced => ?_⟩
      · rw [hheld]
        exact (attach_step hkernel hact).2
      · have hfalse : st.placed = true := hplaced
        rw [hallows.2.1] at hfalse
        cases hfalse
  · rcases next_address haddr with haddr | ⟨t, rfl⟩
    · exact (h.address addr haddr).next hallows
    · obtain ⟨hplaced, a, ha, rfl⟩ := hallows
      rw [dmaAddress_step hstep hact]
      exact (h.attached a ha).2.2 hplaced
  · rcases next_dmaAddr haddr with haddr | ⟨u', copied, rfl, rfl⟩
    · exact (h.reply addr haddr).next hallows
    · exact h.address _ hallows

end Steps

/-! ## All requests -/

section Threads

variable {τ : Type} [DecidableEq τ]

/-- How far a thread has come after the actions of all threads, the latest first. -/
def stageOf (t : τ) : List (τ × Act) → MapStage
  | [] => {}
  | (u, act) :: log => if u = t then (stageOf t log).next act else stageOf t log

/-- The bits of a bitmap that the other threads have set since the last search of a thread. -/
def setsSince (t : τ) (m : KgslMap) : List (τ × Act) → List BitRun
  | [] => []
  | (u, act) :: log =>
      if u = t then if act.searches then [] else setsSince t m log
      else act.runs m ++ setsSince t m log

/-- Whether another thread has set the cookie of a domain, or mapped in it, since a thread has set
one. -/
def movedSince (t : τ) (dom : Domain) : List (τ × Act) → Bool
  | [] => false
  | (u, act) :: log =>
      if u = t then if act.setsCookie then false else movedSince t dom log
      else act.moves = some dom || movedSince t dom log

/-- No other thread has come in between: the bits to be set are not among those that others have set
since they were found, and the cookie to map with is the one the thread has set. -/
def StepsAlone (t : τ) (log : List (τ × Act)) : Act → Prop
  | .set m start nr => ∀ r ∈ setsSince t m log, Disjoint (BitRun.mk m start nr).pages r.pages
  | act => ∀ place ∈ act.placesIn, movedSince t place.1 log = false

/-- The state holds for each thread what its request has come to, and no two have anything in
common. -/
structure MapsInv (requests : τ → KiumdUser) (s : Placed) (log : List (τ × Act)) : Prop where
  owns : ∀ t, MapOwns (requests t) (stageOf t log) (fun m => setsSince t m log)
    (fun dom => movedSince t dom log) s
  apart : ∀ t t', t ≠ t' → ∀ r r', (stageOf t log).reserved = some r →
    (stageOf t' log).reserved = some r' → r.map = r'.map → Disjoint r.pages r'.pages
  ids : ∀ t t', t ≠ t' → ∀ a a', (stageOf t log).attached = some a →
    (stageOf t' log).attached = some a' → a.id ≠ a'.id

variable {requests : τ → KiumdUser} {alloc : Allocator} {s s' : Placed} {log : List (τ × Act)}
  {t u : τ} {β : Type} {request : KCall β} {answer : β} {act : Act}

@[simp] theorem stageOf_self : stageOf t ((t, act) :: log) = (stageOf t log).next act := if_pos rfl

theorem stageOf_of_ne (h : u ≠ t) : stageOf u ((t, act) :: log) = stageOf u log := if_neg h.symm

/-- A call that is not seen changes nothing that a request has. -/
theorem MapsInv.step_idle (h : MapsInv requests s log)
    (hstep : (placing alloc).step request s answer = some s')
    (hact : request.act answer = none) : MapsInv requests s' log := by
  have hnone : ∀ act, act ∉ request.act answer := fun act hmem => by
    rw [Option.mem_def, hact] at hmem
    cases hmem
  refine { h with owns := fun t => (h.owns t).kept hstep ?_ ?_ ?_ ?_ }
  · exact fun act hmem => absurd hmem (hnone act)
  · exact fun m => ⟨List.Subset.refl _, fun act hmem => absurd hmem (hnone act)⟩
  · exact fun dom hmoved => ⟨hmoved, fun act hmem => absurd hmem (hnone act)⟩
  · exact fun a ha => ⟨fun d hd => hnone _ hd, fun act hmem => absurd hmem (hnone act)⟩

/-- What a thread does leaves what the others have. -/
theorem MapsInv.owns_other (h : MapsInv requests s log)
    (hstep : (placing alloc).step request s answer = some s') (hact : request.act answer = some act)
    (hallows : (stageOf t log).Allows (requests t) act) (hu : u ≠ t) :
    MapOwns (requests u) (stageOf u log) (fun m => setsSince u m ((t, act) :: log))
      (fun dom => movedSince u dom ((t, act) :: log)) s' := by
  have honly : ∀ act' ∈ request.act answer, act' = act := by
    intro act' hact'
    rw [Option.mem_def, hact] at hact'
    exact (Option.some.inj hact').symm
  refine (h.owns u).kept hstep (fun act' hact' => ?_) (fun m => ?_) (fun dom hmoved => ?_)
    fun a ha => ⟨fun d hd => ?_, fun act' hact' dom hplaces => ?_⟩
  · rw [honly act' hact']
    exact hallows.clears
  · have hsets : setsSince u m ((t, act) :: log) = act.runs m ++ setsSince u m log :=
      if_neg hu.symm
    rw [hsets]
    refine ⟨List.subset_append_right _ _, fun act' hact' => ?_⟩
    rw [honly act' hact']
    exact List.subset_append_left _ _
  · have hmoved' : (act.moves = some dom || movedSince u dom log) = false := by
      rw [← hmoved]
      exact (if_neg hu.symm).symm
    rw [Bool.or_eq_false_iff, decide_eq_false_iff_not] at hmoved'
    exact ⟨hmoved'.2, fun act' hact' => by rw [honly act' hact']; exact hmoved'.1⟩
  · rw [hact] at hd
    cases hd
    exact h.ids u t hu a a ha hallows rfl
  · rw [honly act' hact'] at hplaces
    obtain ⟨-, a', ha', -, htable⟩ := hallows.places hplaces
    exact h.ids u t hu a a' ha ha' (congrArg SgTable.attachment htable)

/-- The bits that a thread sets undisturbed are reserved by no other. -/
theorem MapsInv.set_apart {m : KgslMap} {start nr : U32} {r : BitRun} (h : MapsInv requests s log)
    (hallows : (stageOf t log).Allows (requests t) (.set m start nr))
    (halone : StepsAlone t log (.set m start nr)) (hr : (stageOf u log).reserved = some r)
    (hmap : m = r.map) : Disjoint (BitRun.mk m start nr).pages r.pages := by
  obtain ⟨-, hnone, -, size, bit, hfound, hnr, hbit, rfl⟩ := hallows
  rw [Set.disjoint_left]
  intro page hpage hpage'
  have hmarked : page ∈ s.world.kgsl.marked m := hmap ▸ ((h.owns u).marked r hr).2 hpage'
  obtain ⟨r', hr', hpage''⟩ :=
    (h.owns t).clear hnone m nr bit size hfound hnr hbit page hpage hmarked
  exact Set.disjoint_left.mp (halone r' hr') hpage hpage''

/-- What a thread does undisturbed. -/
theorem MapsInv.step (h : MapsInv requests s log)
    (hstep : (placing alloc).step request s answer = some s') (hact : request.act answer = some act)
    (hallows : (stageOf t log).Allows (requests t) act) (halone : StepsAlone t log act) :
    MapsInv requests s' ((t, act) :: log) := by
  obtain ⟨w, hkernel, -, -⟩ := placing_kernel hstep
  have hplaces : ∀ place ∈ act.placesIn, movedSince t place.1 log = false := by
    cases act with
    | set m start nr => exact fun place hplace => by cases hplace
    | _ => exact halone
  -- what the acting thread has against what another has
  have hapart : ∀ u, u ≠ t → ∀ r r', ((stageOf t log).next act).reserved = some r →
      (stageOf u log).reserved = some r' → r.map = r'.map → Disjoint r.pages r'.pages := by
    intro u hu r r' hr hr' hmap
    rcases next_reserved hr with hr | rfl
    · exact h.apart t u hu.symm r r' hr hr' hmap
    · exact h.set_apart hallows halone hr' hmap
  have hids : ∀ u, u ≠ t → ∀ a a', ((stageOf t log).next act).attached = some a →
      (stageOf u log).attached = some a' → a.id ≠ a'.id := by
    intro u hu a a' ha ha'
    rcases next_attached ha with ⟨ha, -⟩ | ⟨d, rfl⟩
    · exact h.ids t u hu.symm a a' ha ha'
    · intro heq
      have hmem := id_mem_attachmentIds ((h.owns u).attached a' ha').1
      exact (attach_step hkernel hact).1 (heq ▸ hmem)
  constructor
  · intro u
    by_cases hu : u = t
    · subst hu
      have hown := (h.owns u).own_step hstep hact hallows hplaces
      rw [stageOf_self]
      simpa [setsSince, movedSince] using hown
    · rw [stageOf_of_ne hu]
      exact h.owns_other hstep hact hallows hu
  · intro u u' hne r r' hr hr' hmap
    by_cases hu : u = t
    · subst hu
      rw [stageOf_self] at hr
      rw [stageOf_of_ne hne.symm] at hr'
      exact hapart u' hne.symm r r' hr hr' hmap
    · rw [stageOf_of_ne hu] at hr
      by_cases hu' : u' = t
      · subst hu'
        rw [stageOf_self] at hr'
        exact (hapart u hu r' r hr' hr hmap.symm).symm
      · rw [stageOf_of_ne hu'] at hr'
        exact h.apart u u' hne r r' hr hr' hmap
  · intro u u' hne a a' ha ha'
    by_cases hu : u = t
    · subst hu
      rw [stageOf_self] at ha
      rw [stageOf_of_ne hne.symm] at ha'
      exact hids u' hne.symm a a' ha ha'
    · rw [stageOf_of_ne hu] at ha
      by_cases hu' : u' = t
      · subst hu'
        rw [stageOf_self] at ha'
        exact (hids u hu a' a ha' ha).symm
      · rw [stageOf_of_ne hu'] at ha'
        exact h.ids u u' hne a a' ha ha'

/-! ## In every interleaving -/

/-- What the threads share: the kernel with the addresses of the mappings, the actions so far, the
latest first, and the results of the requests that have returned. -/
structure MapShared (τ : Type) where
  placed : Placed
  log : List (τ × Act)
  returned : τ → Option Int

def MapShared.fresh (s : Placed) : MapShared τ := ⟨s, [], fun _ => none⟩

/-- A thread has made a call that has led to the state `s'`. -/
def MapShared.did (s : MapShared τ) (t : τ) (s' : Placed) (act : Option Act) : MapShared τ :=
  { s with placed := s', log := act.toList.map (fun act => (t, act)) ++ s.log }

/-- Each thread makes one request of MAP_BUF on a context. -/
def mapSystem (alloc : Allocator) (requests : τ → Nat × KiumdUser) :
    System τ (Nat × KiumdUser) KCall (MapShared τ) Int where
  semantics t := ⟨fun request s answer =>
    ((placing alloc).step request s.placed answer).map fun s' => s.did t s' (request.act answer)⟩
  program i := kiumdIoctl ⟨i.1, .mapBuf i.2⟩
  start P t i s := i = requests t ∧ P.shared.returned t = none ∧ s = P.shared
  finish t _ result s := { s with returned := Function.update s.returned t (some result) }

abbrev MapPool (τ : Type) := Pool τ (Nat × KiumdUser) KCall (MapShared τ) Int

/-- The `dma_addr` that a request returns is the IOVA of the offset that its `get_map_offset` has
returned, and the bits reserved by requests with the same `ptselect` are disjoint. -/
structure KeepsOwn (requests : τ → Nat × KiumdUser) (s : MapShared τ) : Prop where
  addresses : ∀ t addr, (stageOf t s.log).dmaAddr = some addr →
    (stageOf t s.log).OwnIova (requests t).2 addr
  disjoint : ∀ t t', t ≠ t' → (requests t).2.ptselect = (requests t').2.ptselect → ∀ r r',
    (stageOf t s.log).reserved = some r → (stageOf t' s.log).reserved = some r' →
      Disjoint r.pages r'.pages

/-- The condition that no other request comes between the search and the setting of the bits, or
between the setting of the cookie and the mapping. -/
def MapsAlone (P : MapPool τ) (m : Move τ (Nat × KiumdUser) KCall) : Prop :=
  ∀ t e, m = .call t e → ∀ act ∈ e.call.act e.answer, StepsAlone t P.shared.log act

/-- A thread that has not begun has done nothing. -/
def MapIdle (t : τ) (s : MapShared τ) : Prop := s.returned t = none → stageOf t s.log = {}

/-- A thread goes on from the stage it has come to. -/
def MapBusy (requests : τ → Nat × KiumdUser) (t : τ) (p : KProg Int) (s : MapShared τ) : Prop :=
  Shows p fun as _ => (stageOf t s.log).Follows (requests t).2 as

/-- Every call that returns has a possible answer. -/
theorem driver_answers (β : Type) (request : KCall β) :
    IsEmpty β ∨ ∃ answer, driver.possible request answer := by
  rcases isEmpty_or_nonempty β with hempty | hnonempty
  · exact .inl hempty
  · obtain ⟨answer, w, hstep⟩ := kernel_responsive request World.initial
    exact .inr ⟨answer, driver_admits _ _ _ _ hstep⟩

variable {reqs : τ → Nat × KiumdUser} {P P₀ : MapPool τ}

/-- A busy thread makes a call that its stage allows and goes on from the next stage. -/
theorem mapBusy_call {s : MapShared τ} {next : β → KProg Int}
    (h : MapBusy reqs t (.call request next) s)
    (hstep : (placing alloc).step request s.placed answer = some s') :
    (∀ act ∈ request.act answer, (stageOf t s.log).Allows (reqs t).2 act) ∧
      MapBusy reqs t (next answer) (s.did t s' (request.act answer)) := by
  obtain ⟨w, hkernel, -, -⟩ := placing_kernel hstep
  have hnext := h.2 answer (driver_admits _ _ _ _ hkernel)
  cases hact : request.act answer with
  | none =>
      refine ⟨fun act hmem => (by cases hmem), hnext.mono fun as _ hfollows => ?_⟩
      have hview : driver.view request answer = none := hact
      rw [hview] at hfollows
      exact hfollows
  | some act =>
      have hview : driver.view request answer = some act := hact
      rw [hview] at hnext
      obtain ⟨as, _, hallows, _⟩ := hnext.exists_shown driver_answers
      refine ⟨?_, hnext.mono fun as _ hfollows => ?_⟩
      · rintro _ ⟨⟩
        exact hallows
      · show (stageOf t ((t, act) :: s.log)).Follows _ as
        rw [stageOf_self]
        exact hfollows.2

/-- What the requests have holds in every interleaving in which none comes in between. -/
theorem maps_reach_inv (hkgsl : ∀ t, IsKgsl (reqs t).2.ptselect)
    (hiova : ∀ t, (reqs t).2.isIovaZero ≠ FIXED_IOVA_AT_ZERO)
    (h : (mapSystem alloc reqs).Reach MapsAlone (.quiet (.fresh s)) P) :
    P.Each MapIdle (fun t _ p s => MapBusy reqs t p s) ∧
      MapsInv (fun t => (reqs t).2) P.shared.placed P.shared.log := by
  have hresume : ∀ (P : MapPool τ) (t : τ) (i : Nat × KiumdUser) (p : KProg Int) (s : MapShared τ),
      P.Each MapIdle (fun t _ p s => MapBusy reqs t p s) → s.returned = P.shared.returned →
      (∀ u, u ≠ t → stageOf u s.log = stageOf u P.shared.log) → MapBusy reqs t p s →
      MapsInv (fun t => (reqs t).2) s.placed s.log →
      ((mapSystem alloc reqs).resume P.running t i p s).Each MapIdle
          (fun t _ p s => MapBusy reqs t p s) ∧
        MapsInv (fun t => (reqs t).2) ((mapSystem alloc reqs).resume P.running t i p s).shared.placed
          ((mapSystem alloc reqs).resume P.running t i p s).shared.log := by
    intro P t i p s heach hreturned hstages hbusy hinv
    have hlog : ((mapSystem alloc reqs).resume P.running t i p s).shared.placed = s.placed ∧
        ((mapSystem alloc reqs).resume P.running t i p s).shared.log = s.log := by
      cases p <;> exact ⟨rfl, rfl⟩
    rw [hlog.1, hlog.2]
    refine ⟨heach.resume rfl ?_ ?_ ?_ ?_, hinv⟩
    · rintro value rfl hnone
      have hsome : Function.update s.returned t (some value) t = none := hnone
      rw [Function.update_self] at hsome
      cases hsome
    · rintro β request next rfl
      exact hbusy
    · intro u hu hidle hnone
      rw [hlog.2, hstages u hu]
      refine hidle ?_
      rw [← hreturned, ← hnone]
      cases p with
      | ret value => exact (Function.update_of_ne hu _ _).symm
      | call request next => rfl
    · intro u hu j q hq
      unfold MapBusy
      rw [hlog.2, hstages u hu]
      exact hq
  refine h.invariant (fun P => P.Each MapIdle (fun t _ p s => MapBusy reqs t p s) ∧
    MapsInv (fun t => (reqs t).2) P.shared.placed P.shared.log)
    ⟨Pool.each_quiet fun t _ => rfl, ?_⟩ ?_
  · refine ⟨fun t => .start, fun t t' _ r r' hr => ?_, fun t t' _ a a' ha => ?_⟩
    · cases hr
    · cases ha
  · rintro P m P' ⟨heach, hinv⟩ hmove hok
    cases hmove with
    | @start t i s' hrunning hstart =>
        obtain ⟨rfl, hpending, rfl⟩ := hstart
        refine hresume P t _ _ _ heach rfl (fun _ _ => rfl) ?_ hinv
        unfold MapBusy
        rw [heach.idle t hrunning hpending]
        exact kiumdDmabufVfioMap_shows.mono fun as result hshape =>
          hshape.follows (hkgsl t) (hiova t)
    | @call t i β request next answer s' hrunning hcall =>
        obtain ⟨placed, hstep, rfl⟩ := Option.map_eq_some_iff.mp hcall
        obtain ⟨hallows, hbusy⟩ := mapBusy_call (heach.busy t i _ hrunning) hstep
        refine hresume P t i _ _ heach rfl (fun u hu => ?_) hbusy ?_
        · cases hact : request.act answer with
          | none => rfl
          | some act => exact stageOf_of_ne hu
        · cases hact : request.act answer with
          | none => exact hinv.step_idle hstep hact
          | some act => exact hinv.step hstep hact (hallows act hact) (hok t _ rfl act hact)

/-- Requests for KGSL that do not ask for IOVA zero get the IOVA of their own pages, and pages of
their own, in every interleaving in which none comes between the search and the setting of another's
bits or between the setting of another's cookie and its mapping. -/
theorem concurrent_maps_keep_own (hkgsl : ∀ t, IsKgsl (reqs t).2.ptselect)
    (hiova : ∀ t, (reqs t).2.isIovaZero ≠ FIXED_IOVA_AT_ZERO)
    (h : (mapSystem alloc reqs).Reach MapsAlone (.quiet (.fresh s)) P) : KeepsOwn reqs P.shared := by
  obtain ⟨-, hinv⟩ := maps_reach_inv hkgsl hiova h
  refine ⟨fun t => (hinv.owns t).reply, fun t t' hne hptselect r r' hr hr' => ?_⟩
  refine hinv.apart t t' hne r r' hr hr' ?_
  rw [((hinv.owns t).marked r hr).1, ((hinv.owns t').marked r' hr').1, hptselect]

/-- A request to map a buffer in the global window. -/
def globalUser : KiumdUser := { plainUser with ptselect := KGSL_GLOBAL_PT }

/-- Two requests for the global window on one context. -/
def globalMaps (_ : Bool) : Nat × KiumdUser := (0, globalUser)

/-- The kernel at first, in which every table lies at IOVA zero. -/
def Placed.initial : Placed := ⟨.initial, fun _ => 0⟩

/-- Answers of a kernel that has an address for every table. -/
def mapChoose : Chooser KCall (MapShared Bool) := fun β request s =>
  match request with
  | .sgDmaAddress t => some (s.placed.address t)
  | request => (Answers.plain fun _ _ => false).choose β request s.placed.world

/-- A call of a thread before which no other thread has set bits, or moved the cookie, since it has
found the bits or set the cookie. -/
def comesAlone (t : Bool) (s : MapShared Bool) (e : Event KCall) : Bool :=
  match e.call.act e.answer with
  | none => true
  | some (.set m _ _) => (setsSince t m s.log).isEmpty
  | some act => act.placesIn.all fun place => !movedSince t place.1 s.log

theorem stepsAlone_of_comesAlone {t : Bool} {s : MapShared Bool} {e : Event KCall}
    (h : comesAlone t s e = true) : ∀ act ∈ e.call.act e.answer, StepsAlone t s.log act := by
  intro act hact
  rw [Option.mem_def] at hact
  rw [comesAlone, hact] at h
  cases act with
  | set m start nr =>
      intro r hr
      rw [List.isEmpty_iff.mp h] at hr
      cases hr
  | _ =>
      intro place hplace
      rw [Option.mem_def] at hplace
      simpa [hplace] using h

/-- The requests go on in turn, with calls that meet a test. -/
def globalPlays (test : Bool → MapShared Bool → Event KCall → Bool) (turns : List Bool)
    (facts : MapShared Bool → Bool) : Bool :=
  let M := mapSystem (fun _ _ _ => 0) globalMaps
  let started := M.resume (fun _ => none) true (0, globalUser) (M.program (0, globalUser))
    (.fresh .initial)
  let both := M.resume started.running false (0, globalUser) (M.program (0, globalUser))
    started.shared
  M.plays (fun _ => mapChoose) test turns both facts

theorem globalPlays_reach {test : Bool → MapShared Bool → Event KCall → Bool} {turns : List Bool}
    {facts : MapShared Bool → Bool} (ok : MapPool Bool → Move Bool (Nat × KiumdUser) KCall → Prop)
    (hstart : ∀ P t i, ok P (.start t i))
    (hcalls : ∀ P t e, test t P.shared e = true → ok P (.call t e))
    (hplays : globalPlays test turns facts = true) : ∃ P,
      (mapSystem (fun _ _ _ => 0) globalMaps).Reach ok (.quiet (.fresh .initial)) P ∧
        facts P.shared = true := by
  have hreach : (mapSystem (fun _ _ _ => 0) globalMaps).Reach ok (.quiet (.fresh .initial))
    (.quiet (.fresh .initial)) := .here
  have hboth := (hreach.start true (0, globalUser) rfl ⟨rfl, rfl, rfl⟩ (hstart _ _ _)).start false
    (0, globalUser) rfl ⟨rfl, rfl, rfl⟩ (hstart _ _ _)
  exact hboth.plays hcalls hplays

/-- Two requests one after the other. -/
theorem concurrent_maps_keep_own_in_turn : ∃ P,
    (mapSystem (fun _ _ _ => 0) globalMaps).Reach MapsAlone (.quiet (.fresh .initial)) P ∧
      P.shared.returned true = some 0 ∧ P.shared.returned false = some 0 ∧
      KeepsOwn globalMaps P.shared := by
  have hplays : globalPlays comesAlone (List.replicate 20 true ++ List.replicate 20 false)
      (fun s => decide (s.returned true = some 0 ∧ s.returned false = some 0)) = true := by
    decide +kernel
  obtain ⟨P, hreach, hfacts⟩ := globalPlays_reach MapsAlone (fun _ _ _ _ _ h => by cases h)
    (fun P t e htest _ _ h => by cases h; exact stepsAlone_of_comesAlone htest) hplays
  obtain ⟨htrue, hfalse⟩ := of_decide_eq_true hfacts
  exact ⟨P, hreach, htrue, hfalse,
    concurrent_maps_keep_own (fun _ => .inl rfl) (fun t => by cases t <;> decide) hreach⟩

/-- Two requests search the bitmap before either sets the bits it has found. -/
theorem not_concurrent_maps_keep_own : ¬ ∀ P,
    (mapSystem (fun _ _ _ => 0) globalMaps).Reach Move.any (.quiet (.fresh .initial)) P →
      KeepsOwn globalMaps P.shared := by
  intro hall
  have hplays : globalPlays (fun _ _ _ => true)
      (List.replicate 6 true ++ List.replicate 6 false ++ [true, false])
      (fun s => decide ((stageOf true s.log).reserved = some ⟨.global, 0, 1⟩ ∧
        (stageOf false s.log).reserved = some ⟨.global, 0, 1⟩)) = true := by
    decide +kernel
  obtain ⟨P, hreach, hfacts⟩ := globalPlays_reach Move.any (fun _ _ _ => trivial)
    (fun _ _ _ _ => trivial) hplays
  obtain ⟨htrue, hfalse⟩ := of_decide_eq_true hfacts
  have hdisjoint := (hall P hreach).disjoint true false (by decide) rfl _ _ htrue hfalse
  have hpage : 0 ∈ (BitRun.mk .global 0 1).pages := ⟨le_refl _, by decide⟩
  exact Set.disjoint_left.mp hdisjoint hpage hpage

end Threads

end SafeLinux.Kiumd
