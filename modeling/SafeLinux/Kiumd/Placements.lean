import SafeLinux.Kiumd.KgslRanges
import SafeLinux.Kiumd.PairLinks

/-!
# Where mappings are placed

A mapping that is made while the cookie of the domain has the type `IOMMU_DMA_MSI_COOKIE` lies at
the IOVA of the cookie, which then advances by the mapped size. Otherwise the IOVA allocator of the
domain chooses its address. `placing` is the kernel together with the addresses of the mappings.
-/

namespace SafeLinux.Kiumd

open Effects

/-- The number of bytes a mapping of the table covers. -/
def SgTable.mappedSize (t : SgTable) : U64 := BitVec.ofNat 64 (t.sgl.map SgEntry.length).sum

/-- The state of the kernel, and the IOVA at which each table was mapped last. -/
structure Placed where
  world : World
  address : SgTable → U64

/-- The choice of the IOVA allocator for a mapping. -/
abbrev Allocator := Placed → Device → SgTable → U64

/-- The state after a mapping has been given its address. -/
def Placed.place (alloc : Allocator) (s : Placed) (dev : Device) (t : SgTable) : Placed :=
  let cookie := s.world.cookies dev.domain
  match cookie.type with
  | .msi =>
      let advanced := { cookie with msiIova := cookie.msiIova + t.mappedSize }
      { world := { s.world with cookies := Function.update s.world.cookies dev.domain advanced }
        address := Function.update s.address t cookie.msiIova }
  | .iova => { s with address := Function.update s.address t (alloc s dev t) }

/-- The mapping a call has made. -/
def KCall.places : {β : Type} → KCall β → β → Option (Device × SgTable)
  | _, .dmaBufMapAttachment a _, .ptr t => some (a.dev, t)
  | _, .dmaMapSgtable dev t _ _, ret => if ret = 0 then some (dev, t) else none
  | _, _, _ => none

/-- The address of a table is the one at which it was mapped. -/
def KCall.addressed (address : SgTable → U64) : {β : Type} → KCall β → β → Bool
  | _, .sgDmaAddress t, iova => iova == address t
  | _, _, _ => true

/-- The state after a call whose mapping has been placed. -/
def Placed.after (alloc : Allocator) (s : Placed) : Option (Device × SgTable) → Placed
  | none => s
  | some (dev, t) => s.place alloc dev t

/-- The kernel with the addresses of the mappings. -/
def placing (alloc : Allocator) : Semantics KCall Placed where
  step request s answer :=
    if request.addressed s.address answer then
      (kernelStep request s.world answer).map fun w =>
        Placed.after alloc { s with world := w } (request.places answer)
    else none

/-- The domain in which an action maps a table. -/
def Act.placesIn : Act → Option (Domain × SgTable)
  | .mapAttachment a _ t => some (a.dev.domain, t)
  | .mapSgtable dev t _ _ => some (dev.domain, t)
  | _ => none

/-- The domain whose cookie an action sets or uses. -/
def Act.moves : Act → Option Domain
  | .cookie dom _ _ => some dom
  | act => act.placesIn.map Prod.fst

theorem Act.moves_of_placesIn {act : Act} {dom : Domain} {t : SgTable}
    (h : act.placesIn = some (dom, t)) : act.moves = some dom := by
  cases act
  case mapAttachment | mapSgtable => exact congrArg (Option.map Prod.fst) h
  all_goals cases h

/-- The bitmap in which an action sets bits. -/
def Act.sets : Act → Option KgslMap
  | .set m _ _ => some m
  | _ => none

/-- The action clears bits of a bitmap. -/
def Act.clears : Act → Bool
  | .clear _ _ _ => true
  | _ => false

variable {alloc : Allocator} {s s' : Placed} {w w' : World} {β : Type} {request : KCall β}
  {answer : β} {act : Act} {dom : Domain} {m : KgslMap}

/-! ## One call -/

theorem placing_step (h : (placing alloc).step request s answer = some s') :
    ∃ w, kernelStep request s.world answer = some w ∧
      s' = Placed.after alloc { s with world := w } (request.places answer) := by
  simp only [placing, Option.ite_none_right_eq_some] at h
  obtain ⟨w, hstep, heq⟩ := Option.map_eq_some_iff.mp h.2
  exact ⟨w, hstep, heq.symm⟩

/-- Placing a mapping changes only the cookie and the addresses. -/
theorem Placed.after_kept (places : Option (Device × SgTable)) :
    (s.after alloc places).world.kgsl = s.world.kgsl ∧
      (s.after alloc places).world.held = s.world.held := by
  unfold Placed.after
  split
  · exact ⟨rfl, rfl⟩
  · unfold Placed.place
    dsimp only
    split <;> exact ⟨rfl, rfl⟩

/-- What a call does to the bitmaps and the objects held it does in the kernel. -/
theorem placing_kernel (h : (placing alloc).step request s answer = some s') :
    ∃ w, kernelStep request s.world answer = some w ∧ s'.world.kgsl = w.kgsl ∧
      s'.world.held = w.held := by
  obtain ⟨w, hstep, rfl⟩ := placing_step h
  obtain ⟨hkgsl, hheld⟩ :=
    @Placed.after_kept alloc { s with world := w } (request.places answer)
  exact ⟨w, hstep, hkgsl, hheld⟩

/-- The mapping a call has made is that of its action. -/
theorem places_act : (request.places answer).map (fun place => (place.1.domain, place.2)) =
    (request.act answer).bind Act.placesIn := by
  cases request with
  | dmaMapSgtable | dmaMapResource =>
      simp only [KCall.places, KCall.act]
      split <;> rfl
  | copyStructFromUser | fget | pgtblTtbr | dmaBufGet | dmaBufAttach | dmaBufMapAttachment
  | kzallocSmap | devIsPlatform => cases answer <;> rfl
  | _ => rfl

/-- A call that makes no mapping does to the kernel what it does there. -/
theorem placing_unplaced (h : (placing alloc).step request s answer = some s')
    (hact : ∀ act ∈ request.act answer, act.placesIn = none) :
    kernelStep request s.world answer = some s'.world ∧ s'.address = s.address := by
  obtain ⟨w, hstep, rfl⟩ := placing_step h
  have hplaces : request.places answer = none := by
    have hnone : (request.act answer).bind Act.placesIn = none := by
      cases hview : request.act answer with
      | none => rfl
      | some act => exact hact act hview
    rw [← places_act] at hnone
    exact Option.map_eq_none_iff.mp hnone
  rw [hplaces]
  exact ⟨hstep, rfl⟩

/-- A call that makes a mapping. -/
theorem placing_placed (h : (placing alloc).step request s answer = some s')
    {t : SgTable} (hact : request.act answer = some act) (hplaces : act.placesIn = some (dom, t)) :
    ∃ w dev, kernelStep request s.world answer = some w ∧ w.cookies = s.world.cookies ∧
      dev.domain = dom ∧ s' = Placed.place alloc { s with world := w } dev t := by
  obtain ⟨w, hstep, rfl⟩ := placing_step h
  have hsome := @places_act _ request answer
  rw [hact, Option.bind_some, hplaces] at hsome
  obtain ⟨⟨dev, t'⟩, hdev, heq⟩ := Option.map_eq_some_iff.mp hsome
  obtain ⟨rfl, rfl⟩ := Prod.mk.inj heq
  have hcookies : s.world.Agrees w .cookies := by
    refine agrees_of_act rfl hstep fun act' hact' => ?_
    rw [Option.mem_def, hact] at hact'
    cases hact'
    cases act <;> first | exact List.not_mem_nil | cases hplaces
  rw [hdev]
  exact ⟨w, dev, hstep, hcookies, rfl, rfl⟩

/-! ### Bitmaps -/

/-- A call that neither sets nor clears bits of a bitmap leaves what is marked in it. -/
theorem marked_step (hstep : kernelStep request w answer = some w')
    (hsets : ∀ act ∈ request.act answer, act.sets ≠ some m)
    (hclears : ∀ act ∈ request.act answer, act.clears = false) :
    w'.kgsl.marked m = w.kgsl.marked m := by
  have hbits : w'.kgsl.bits m = w.kgsl.bits m := by
    refine bits_step hstep fun hfills => ?_
    cases request with
    | bitmapSet m' start nr =>
        cases hfills
        exact hsets _ rfl rfl
    | bitmapClear m' start nr => cases hclears _ rfl
    | _ => cases hfills
  rw [KgslMaps.marked, hbits]
  rfl

/-- Setting bits marks their pages. -/
theorem marked_set_step {start nr : U32} (hstep : kernelStep request w answer = some w')
    (hact : request.act answer = some (.set m start nr)) :
    w'.kgsl.marked m =
      Set.Ico start.toNat (start.toNat + nr.toNat) ∪ w.kgsl.marked m := by
  cases event_of_act hact rfl
  cases hstep
  exact KgslMaps.marked_set

/-- Where a search can end. -/
theorem search_step {start result : U64} {nr : U32}
    (hstep : kernelStep request w answer = some w')
    (hact : request.act answer = some (.search m start nr result)) :
    NextZeroArea (w.kgsl.bits m) KGSL_PT_MEM_PAGES start.toNat nr.toNat result.toNat := by
  cases event_of_act hact rfl
  simp only [kernelStep, Option.ite_none_right_eq_some] at hstep
  exact hstep.1

/-! ### Cookies and addresses -/

/-- A call that sets a cookie. -/
theorem cookie_set_step {type : IommuDmaCookieType} {iova : U64}
    (hstep : kernelStep request w answer = some w')
    (hact : request.act answer = some (.cookie dom type iova)) :
    w'.cookies = Function.update w.cookies dom ⟨type, iova⟩ := by
  cases event_of_act hact rfl
  cases hstep
  rfl

/-- A call that does not set a cookie. -/
theorem cookie_kept_step (hstep : kernelStep request w answer = some w')
    (hact : ∀ act ∈ request.act answer, Field.cookies ∉ act.writes) : w'.cookies = w.cookies := by
  have hcookies : w.Agrees w' .cookies := agrees_of_act rfl hstep hact
  exact hcookies

/-- A mapping leaves the cookies of other domains alone. -/
theorem Placed.place_cookies {dev : Device} {t : SgTable} (hne : dom ≠ dev.domain) :
    (s.place alloc dev t).world.cookies dom = s.world.cookies dom := by
  unfold Placed.place
  dsimp only
  split
  · exact Function.update_of_ne hne _ _
  · rfl

/-- A mapping at the IOVA of a cookie. -/
theorem Placed.place_msi {dev : Device} {t : SgTable} {iova : U64}
    (hcookie : s.world.cookies dev.domain = ⟨.msi, iova⟩) :
    (s.place alloc dev t).address = Function.update s.address t iova ∧
      (s.place alloc dev t).world.cookies dev.domain = ⟨.msi, iova + t.mappedSize⟩ := by
  unfold Placed.place
  dsimp only
  rw [hcookie]
  exact ⟨rfl, Function.update_self ..⟩

/-- A mapping leaves the addresses of the other tables alone. -/
theorem Placed.place_address {dev : Device} {t t' : SgTable} (hne : t' ≠ t) :
    (s.place alloc dev t).address t' = s.address t' := by
  unfold Placed.place
  dsimp only
  split <;> exact Function.update_of_ne hne _ _

/-- A call that neither sets nor uses the cookie of a domain leaves it alone. -/
theorem cookie_step (h : (placing alloc).step request s answer = some s')
    (hmoves : ∀ act ∈ request.act answer, act.moves ≠ some dom) :
    s'.world.cookies dom = s.world.cookies dom := by
  by_cases hplaced : ∀ act ∈ request.act answer, act.placesIn = none
  · obtain ⟨hstep, -⟩ := placing_unplaced h hplaced
    cases hview : request.act answer with
    | none => rw [cookie_kept_step hstep (by simp [hview])]
    | some act =>
        by_cases hwrites : Field.cookies ∈ act.writes
        · cases act <;> simp only [Act.writes, List.mem_cons, List.not_mem_nil, or_false,
            reduceCtorEq] at hwrites
          rename_i dom' type iova
          have hne : dom ≠ dom' := fun heq => hmoves _ hview (congrArg some heq.symm)
          rw [cookie_set_step hstep hview, Function.update_of_ne hne]
        · rw [cookie_kept_step hstep]
          rintro act' hact'
          rw [Option.mem_def, hview] at hact'
          cases hact'
          exact hwrites
  · push Not at hplaced
    obtain ⟨act, hact, hsome⟩ := hplaced
    obtain ⟨⟨dom', t⟩, hplaces⟩ := Option.ne_none_iff_exists'.mp hsome
    obtain ⟨w, dev, -, hcookies, rfl, rfl⟩ := placing_placed h hact hplaces
    have hmoved : act.moves = some dev.domain := act.moves_of_placesIn hplaces
    have hne : dom ≠ dev.domain := fun heq => hmoves act hact (heq ▸ hmoved)
    rw [Placed.place_cookies hne]
    exact congrFun hcookies dom

/-- A call that does not map a table leaves its address alone. -/
theorem address_step {t : SgTable} (h : (placing alloc).step request s answer = some s')
    (hplaces : ∀ act ∈ request.act answer, ∀ dom, act.placesIn ≠ some (dom, t)) :
    s'.address t = s.address t := by
  by_cases hplaced : ∀ act ∈ request.act answer, act.placesIn = none
  · rw [(placing_unplaced h hplaced).2]
  · push Not at hplaced
    obtain ⟨act, hact, hsome⟩ := hplaced
    obtain ⟨⟨dom', t'⟩, hplaces'⟩ := Option.ne_none_iff_exists'.mp hsome
    obtain ⟨w, dev, -, -, rfl, rfl⟩ := placing_placed h hact hplaces'
    have hne : t ≠ t' := by
      rintro rfl
      exact hplaces act hact _ hplaces'
    exact Placed.place_address hne

/-- The address reported for a table is its address. -/
theorem dmaAddress_step {t : SgTable} {addr : U64}
    (h : (placing alloc).step request s answer = some s')
    (hact : request.act answer = some (.dmaAddress t addr)) : addr = s.address t := by
  cases event_of_act hact rfl
  simp only [placing, Option.ite_none_right_eq_some] at h
  exact beq_iff_eq.mp h.1

end SafeLinux.Kiumd
