import SafeLinux.Kiumd.LentMemory
import SafeLinux.Kiumd.MappingStore

/-!
# The KGSL bitmaps and the live mappings

A mapping for a KGSL window is live while its entry is in a table, and its pages are those that the
MAP_BUF which added the entry has reserved. UNMAP_BUF works the pages to clear out again from its
own arguments, and a MAP_BUF that fails gives nothing back, so that the bitmaps and the live
mappings can come apart (`not_service_run_ranges_right`). In every run of MAP_BUF, UNMAP_BUF and
closes in which a MAP_BUF that has reserved pages succeeds and an UNMAP_BUF for a window names the
pages of the entry that it finds and deletes the entry, the bits that are set are the pages of the
live mappings, and nothing of another live mapping is freed (`service_run_ranges_right`).
-/

namespace SafeLinux.Kiumd

open Effects

/-! ## The ranges of the live mappings -/

/-- The range that an action reserves. -/
def Act.reserves : Act → Option PageRange
  | .set m start nr => some ⟨m, start.toNat, nr.toNat⟩
  | _ => none

/-- The action adds the entry `p` to the table of the context `c`. -/
def Act.addsEntry (c p : Nat) (act : Act) : Bool := (act.draws c).any (·.1 = p)

/-- The range reserved by the request that has added the entry `p` of the context `c` last. -/
def reservedFor : History Service KCall → Nat → Nat → Option PageRange
  | [], _, _ => none
  | (_, trace) :: history, c, p =>
      if (acts trace).any (Act.addsEntry c p) then (acts trace).findSome? Act.reserves
      else reservedFor history c p

/-- The entry `p` of the context `c` is in its table, and the range `r` was reserved for it. -/
structure LiveRange (history : History Service KCall) (w : World) (c p : Nat) (r : PageRange) :
    Prop where
  mem : p ∈ w.table c
  reserved : reservedFor history c p = some r

/-- The bits that are set are the pages reserved for the live mappings. -/
def MarksLive (history : History Service KCall) (w : World) : Prop :=
  ∀ m i, i ∈ w.kgsl.marked m ↔ ∃ c p r, LiveRange history w c p r ∧ r.window = m ∧ i ∈ r.pages

/-- The calls of a service clear no page of a live mapping that the service does not delete. -/
def FreesNoOther (history : History Service KCall) (w : World) (trace : List (Event KCall)) :
    Prop :=
  ∀ m start nr, Act.clear m start nr ∈ acts trace → ∀ c p r, LiveRange history w c p r →
    r.window = m → ¬ Deletes c p (acts trace) →
    Disjoint (Set.Ico start.toNat (start.toNat + nr.toNat)) r.pages

/-- The bitmaps are right in a state, and a further service under the condition `ok` frees nothing
of another mapping. -/
structure RangesRight (ok : Admission Service KCall World) (history : History Service KCall)
    (w : World) : Prop where
  marks : MarksLive history w
  frees : ∀ s trace result w', Exec kernel (kiumdService s) w trace result w' →
    ok history s w trace → FreesNoOther history w trace

/-! ## The condition -/

/-- MAP_BUF, UNMAP_BUF and `kiumd_close`. -/
def Service.handlesBuffers : Service → Bool
  | .ioctl ⟨_, .mapBuf _⟩ | .ioctl ⟨_, .unmapBuf _⟩ | .close _ => true
  | _ => false

/-- Only MAP_BUF, UNMAP_BUF and `kiumd_close` are served. -/
def BuffersOnly : Admission Service KCall World := fun _ s _ _ => s.handlesBuffers = true

/-- A MAP_BUF that has reserved pages does not fail: it adds an entry for the window and keeps its
buffer. -/
def MapsForGood (as : List Act) : Prop :=
  (∃ act ∈ as, act.reserves.isSome = true) →
    (∃ act ∈ as, act.binds = true) ∧ ∀ act ∈ as, act.puts = false

instance (as : List Act) : Decidable (MapsForGood as) := inferInstanceAs (Decidable (_ → _))

/-- An UNMAP_BUF for a window names the pages of the entry that it finds and does not fail
afterwards; another one deletes no entry of a window. -/
structure UnmapsOwnRange (history : History Service KCall) (w : World) (c : Nat) (u : KiumdUser)
    (as : List Act) : Prop where
  own : IsKgsl u.ptselect → ∀ p, .find c u.id (some p) ∈ as → Deletes c p as ∧
    ∃ r, reservedFor history c p = some r ∧ r.window = kgslMap u.ptselect ∧
      ((iovaBit u.dmaAddr u.ptselect).setWidth 32).toNat = r.first
  other : ¬ IsKgsl u.ptselect → ∀ p, Deletes c p as → ¬ IsKgsl (w.smaps p).ptselect

/-- Only MAP_BUF, UNMAP_BUF and `kiumd_close` are served, and the requests fit. -/
def RangesFit : Admission Service KCall World := fun history s w trace =>
  match s with
  | .ioctl ⟨_, .mapBuf _⟩ => MapsForGood (acts trace)
  | .ioctl ⟨c, .unmapBuf u⟩ => UnmapsOwnRange history w c u (acts trace)
  | .close _ => True
  | _ => False

variable {as : List Act} {act : Act} {c p c' p' : Nat} {w w' : World} {r r' : PageRange}
  {trace : List (Event KCall)} {history : History Service KCall} {s : Service}

/-! ## How the live ranges change -/

theorem any_addsEntry : as.any (Act.addsEntry c p) = true ↔ AddsEntry c p as := by
  simp [AddsEntry, Act.addsEntry, Option.any_eq_true]

/-- A live range was reserved by the request that adds its entry, or was live before. -/
theorem LiveRange.cases (h : LiveRange ((s, trace) :: history) w' c p r)
    (hsteps : Steps kernel w trace w') :
    (AddsEntry c p (acts trace) ∧ (acts trace).findSome? Act.reserves = some r) ∨
      LiveRange history w c p r := by
  have hreserved := h.reserved
  rw [reservedFor] at hreserved
  split at hreserved
  · rename_i hadds
    exact .inl ⟨any_addsEntry.mp hadds, hreserved⟩
  · rename_i hadds
    have hold := (mem_table_steps hsteps h.mem).resolve_right fun h' => hadds (any_addsEntry.mpr h')
    exact .inr ⟨hold, hreserved⟩

/-- A live range stays live with its entry. -/
theorem LiveRange.later (h : LiveRange history w c p r) (hmem : p ∈ w'.table c)
    (hadds : ¬ AddsEntry c p (acts trace)) : LiveRange ((s, trace) :: history) w' c p r where
  mem := hmem
  reserved := by
    rw [reservedFor, if_neg (any_addsEntry.not.mpr hadds)]
    exact h.reserved

theorem AddsNone.not_addsEntry (h : AddsNone as) : ¬ AddsEntry c p as := by
  rintro ⟨act, hact, id, hdraws⟩
  have hadds := Act.adds_of_draws hdraws
  rw [h act hact] at hadds
  cases hadds

theorem FillsNone.reserves (h : FillsNone as) : as.findSome? Act.reserves = none := by
  refine List.findSome?_eq_none_iff.mpr fun act hact => ?_
  have hsets := (h act hact).1
  cases act <;> first | rfl | cases hsets

theorem freesNoOther_of_clears (h : ∀ act ∈ acts trace, act.clears = false) :
    FreesNoOther history w trace :=
  fun _ _ _ hclear => by cases h _ hclear

/-! ## The invariant -/

/-- The range is one of the window and the buffer of the entry. -/
structure OwnedRange (w : World) (p : Nat) (r : PageRange) : Prop where
  kgsl : IsKgsl (w.smaps p).ptselect
  window : r.window = kgslMap (w.smaps p).ptselect
  nr : ∃ d, (w.smaps p).dmabufPtr = some d ∧ r.nr = (pagesOf d.size).toNat
  inside : r.first + r.nr ≤ KGSL_PT_MEM_PAGES

/-- The live ranges of each window are disjoint and are together what is marked in its bitmap. -/
structure LiveTile (history : History Service KCall) (w : World) : Prop where
  marks : MarksLive history w
  apart : ∀ {c p r c' p' r'}, LiveRange history w c p r → LiveRange history w c' p' r' →
    r.window = r'.window → (c, p) ≠ (c', p') → Disjoint r.pages r'.pages
  owned : ∀ {c p r}, LiveRange history w c p r → OwnedRange w p r

theorem OwnedRange.same (h : OwnedRange w p r) (hsame : w'.smaps p = w.smaps p) :
    OwnedRange w' p r := by
  refine ⟨?_, ?_, ?_, h.inside⟩ <;> rw [hsame]
  exacts [h.kgsl, h.window, h.nr]

namespace LiveTile

/-- A service that changes no bitmap and deletes no entry of a window. -/
theorem keep (h : LiveTile history w) (hsteps : Steps kernel w trace w') (hsame : TablesSame w w')
    (hfills : FillsNone (acts trace))
    (hfresh : ∀ c p, AddsEntry c p (acts trace) → p ∉ w.table c)
    (hkept : ∀ c p r, LiveRange history w c p r → p ∈ w'.table c) :
    LiveTile ((s, trace) :: history) w' := by
  have hold : ∀ {c p r}, LiveRange ((s, trace) :: history) w' c p r → LiveRange history w c p r := by
    intro c p r hlive
    refine (hlive.cases hsteps).resolve_left fun hnew => ?_
    rw [hfills.reserves] at hnew
    cases hnew.2
  have hnew : ∀ {c p r}, LiveRange history w c p r → LiveRange ((s, trace) :: history) w' c p r :=
    fun hlive => hlive.later (hkept _ _ _ hlive) fun hadds => hfresh _ _ hadds hlive.mem
  refine ⟨fun m i => ?_, fun hlive hlive' => h.apart (hold hlive) (hold hlive'), fun hlive => ?_⟩
  · rw [marked_steps hsteps hfills, h.marks m i]
    constructor
    · rintro ⟨c, p, r, hlive, hmem⟩
      exact ⟨c, p, r, hnew hlive, hmem⟩
    · rintro ⟨c, p, r, hlive, hmem⟩
      exact ⟨c, p, r, hold hlive, hmem⟩
  · have hmem := (hold hlive).mem
    exact (h.owned (hold hlive)).same (hsame _ _ hmem hlive.mem)

/-- A request that reserves free pages of a window and adds the entry `p` for them. -/
theorem reserve (h : LiveTile history w) (hsteps : Steps kernel w trace w')
    (hsame : TablesSame w w') (hreserves : (acts trace).findSome? Act.reserves = some r)
    (hadds : AddsEntry c p (acts trace)) (hmem : p ∈ w'.table c)
    (hfresh : ∀ c p, AddsEntry c p (acts trace) → p ∉ w.table c)
    (hone : ∀ c' p', p' ∈ w'.table c' → p' ∉ w.table c' → (c', p') = (c, p))
    (hkept : ∀ c p, p ∈ w.table c → p ∈ w'.table c)
    (hfree : Disjoint r.pages (w.kgsl.marked r.window))
    (hself : w'.kgsl.marked r.window = r.pages ∪ w.kgsl.marked r.window)
    (hother : ∀ m ≠ r.window, w'.kgsl.marked m = w.kgsl.marked m) (howned : OwnedRange w' p r) :
    LiveTile ((s, trace) :: history) w' := by
  have hadded : LiveRange ((s, trace) :: history) w' c p r := by
    refine ⟨hmem, ?_⟩
    rw [reservedFor, if_pos (any_addsEntry.mpr hadds), hreserves]
  have hlater : ∀ {c p r}, LiveRange history w c p r →
      LiveRange ((s, trace) :: history) w' c p r := fun hlive =>
    hlive.later (hkept _ _ hlive.mem) fun hadds => hfresh _ _ hadds hlive.mem
  have hcases : ∀ {c' p' r'}, LiveRange ((s, trace) :: history) w' c' p' r' →
      ((c', p') = (c, p) ∧ r' = r) ∨ LiveRange history w c' p' r' := by
    intro c' p' r' hlive
    refine (hlive.cases hsteps).imp (fun ⟨hnew, hreserved⟩ => ?_) id
    rw [hreserves] at hreserved
    exact ⟨hone c' p' hlive.mem (hfresh _ _ hnew), (Option.some.inj hreserved).symm⟩
  -- the pages of an old range were marked, so that the new one has none of them
  have hold : ∀ {c' p' r'}, LiveRange history w c' p' r' → r'.window = r.window →
      Disjoint r.pages r'.pages := fun hlive hwindow =>
    hfree.mono_right fun i hi => (h.marks _ i).mpr ⟨_, _, _, hlive, hwindow, hi⟩
  refine ⟨fun m i => ?_, fun hlive hlive' hwindow hne => ?_, fun hlive => ?_⟩
  · constructor
    · intro hi
      by_cases hm : m = r.window
      · subst hm
        rw [hself] at hi
        rcases hi with hi | hi
        · exact ⟨c, p, r, hadded, rfl, hi⟩
        · obtain ⟨c', p', r', hlive, hwindow, hi⟩ := (h.marks _ i).mp hi
          exact ⟨c', p', r', hlater hlive, hwindow, hi⟩
      · rw [hother m hm] at hi
        obtain ⟨c', p', r', hlive, hwindow, hi⟩ := (h.marks _ i).mp hi
        exact ⟨c', p', r', hlater hlive, hwindow, hi⟩
    · rintro ⟨c', p', r', hlive, rfl, hi⟩
      rcases hcases hlive with ⟨-, rfl⟩ | hlive
      · rw [hself]
        exact .inl hi
      · have hmarked := (h.marks _ i).mpr ⟨c', p', r', hlive, rfl, hi⟩
        by_cases hm : r'.window = r.window
        · rw [hm, hself]
          rw [hm] at hmarked
          exact .inr hmarked
        · rwa [hother _ hm]
  · rcases hcases hlive with ⟨heq, rfl⟩ | hlive <;> rcases hcases hlive' with ⟨heq', rfl⟩ | hlive'
    · exact absurd (heq.trans heq'.symm) hne
    · exact hold hlive' hwindow.symm
    · exact (hold hlive hwindow).symm
    · exact h.apart hlive hlive' hwindow hne
  · rcases hcases hlive with ⟨heq, rfl⟩ | hold
    · cases heq
      exact howned
    · exact (h.owned hold).same (hsame _ _ hold.mem hlive.mem)

/-- A request that clears the pages of a live mapping and deletes its entry. -/
theorem release (h : LiveTile history w) (hsteps : Steps kernel w trace w')
    (hsame : TablesSame w w') (hlive : LiveRange history w c p r)
    (hadds : ∀ c p, ¬ AddsEntry c p (acts trace))
    (hmem : ∀ c' p', p' ∈ w'.table c' ↔ p' ∈ w.table c' ∧ (c', p') ≠ (c, p))
    (hmarked : w'.kgsl.marked = (w.kgsl.fill r.window r.first r.nr false).marked) :
    LiveTile ((s, trace) :: history) w' := by
  have hiff : ∀ {c' p' r'}, LiveRange ((s, trace) :: history) w' c' p' r' ↔
      LiveRange history w c' p' r' ∧ (c', p') ≠ (c, p) := by
    intro c' p' r'
    constructor
    · intro hlive'
      have hold := (hlive'.cases hsteps).resolve_left fun hnew => hadds _ _ hnew.1
      exact ⟨hold, ((hmem c' p').mp hlive'.mem).2⟩
    · rintro ⟨hold, hne⟩
      exact hold.later ((hmem c' p').mpr ⟨hold.mem, hne⟩) (hadds _ _)
  refine ⟨fun m i => ?_, fun h₁ h₂ => h.apart (hiff.mp h₁).1 (hiff.mp h₂).1, fun h₁ => ?_⟩
  · have hclear : i ∈ w'.kgsl.marked m ↔
        i ∈ w.kgsl.marked m ∧ ¬ (r.window = m ∧ i ∈ r.pages) := by
      rw [hmarked]
      by_cases hm : r.window = m
      · subst hm
        rw [KgslMaps.marked_clear, Set.mem_sdiff]
        simp [PageRange.pages]
      · rw [KgslMaps.fill_marked_of_ne (Ne.symm hm)]
        simp [hm]
    rw [hclear, h.marks m i]
    constructor
    · rintro ⟨⟨c', p', r', hlive', hwindow, hi⟩, hnot⟩
      refine ⟨c', p', r', hiff.mpr ⟨hlive', ?_⟩, hwindow, hi⟩
      rintro ⟨⟩
      obtain rfl : r' = r := Option.some.inj (hlive'.reserved.symm.trans hlive.reserved)
      exact hnot ⟨hwindow, hi⟩
    · rintro ⟨c', p', r', hlive', rfl, hi⟩
      obtain ⟨hold, hne⟩ := hiff.mp hlive'
      refine ⟨⟨c', p', r', hold, rfl, hi⟩, ?_⟩
      rintro ⟨hwindow, hi'⟩
      exact Set.disjoint_left.mp (h.apart hold hlive hwindow.symm hne) hi hi'
  · obtain ⟨hold, -⟩ := hiff.mp h₁
    exact (h.owned hold).same (hsame _ _ hold.mem h₁.mem)

end LiveTile

/-! ## MAP_BUF -/

section Services

variable {u : KiumdUser} {result : Option Int}

/-- MAP_BUF adds the range that it has reserved, if it does not fail. -/
theorem LiveTile.map (h : LiveTile history w) (hb : Backed noNeeds w 0)
    (hexec : Exec kernel (kiumdService (.ioctl ⟨c, .mapBuf u⟩)) w trace result w')
    (hfits : MapsForGood (acts trace)) :
    LiveTile ((.ioctl ⟨c, .mapBuf u⟩, trace) :: history) w' ∧ FreesNoOther history w trace := by
  have hsteps := hexec.steps
  have hsame := wp_exec (kiumdService_tablesSame _ hb) hexec
  have hothers := (wp_exec (kiumdService_othersKept _ hb) hexec).ctxs
  have hshape : MapShape u c (acts trace) result :=
    (kiumdIoctl_shows ⟨c, .mapBuf u⟩).exec driver_admits hexec
  have hout := wp_exec kiumdDmabufVfioMap_adds hexec
  have hfresh : ∀ c' p, AddsEntry c' p (acts trace) → p ∉ w.table c' := fun c' p hadds hp =>
    (hshape.addsOnce.describes hsteps c' p hadds).2.1 (hb.smap_mem hp)
  have hkept : ∀ c' p, p ∈ w.table c' → p ∈ w'.table c' := fun _ _ hp => hout.table_mem hp
  have hleases := hshape.leases
  generalize hacts : acts trace = as at hleases
  cases hleases with
  | unleased hspared =>
      subst hacts
      exact ⟨h.keep hsteps hsame hspared.fillsNone hfresh fun c' p r hlive => hkept c' p hlive.mem,
        freesNoOther_of_clears fun act hact => (hspared.fillsNone act hact).2⟩
  | @reserved before rest d start bit hkgsl hbefore hbit hpublishes =>
      have hset : ∃ act ∈ acts trace, act.reserves.isSome = true := by
        refine ⟨.set (kgslMap u.ptselect) (bit.setWidth 32) (pagesOf d.size), ?_, rfl⟩
        rw [hacts]
        simp [reserveActs]
      obtain ⟨⟨act, hact, hbinds⟩, -⟩ := hfits hset
      have hreserve : ∀ act ∈ reserveActs (kgslMap u.ptselect) d.size start bit,
          act.binds = false ∧ act.clears = false := by
        simp [reserveActs, Act.binds, Act.clears]
      cases hpublishes with
      | nothing hspared =>
          rw [hacts, List.mem_append, List.mem_append] at hact
          rcases hact with hact | hact | hact
          · rw [hbefore.bindsNone act hact] at hbinds
            cases hbinds
          · rw [(hreserve act hact).1] at hbinds
            cases hbinds
          · rw [hspared.bindsNone act hact] at hbinds
            cases hbinds
      | @entry between after p data id hbetween hptselect hdmabuf hafter hspares hdeletes =>
          have hrest : FillsNone (between ++ .add c p data id :: after) :=
            List.forall_mem_append.mpr ⟨hbetween.fillsNone,
              List.forall_mem_cons.mpr ⟨⟨rfl, rfl⟩, hafter.fillsNone⟩⟩
          have hadd : acts trace = (before ++ (reserveActs (kgslMap u.ptselect) d.size start bit ++
              between)) ++ .add c p data id :: after := by
            rw [hacts]
            simp only [List.append_assoc]
          have hdraws : AddsEntry c p (acts trace) := by
            refine ⟨.add c p data id, ?_, id, if_pos rfl⟩
            rw [hadd]
            exact List.mem_append_right _ List.mem_cons_self
          have hmem : p ∈ w'.table c := added_mem_steps hsteps hadd (not_deletes hdeletes)
          have hdata : w'.smaps p = { data with id := id } := added_data_steps hsteps hadd hspares
          obtain ⟨hfree, hinside, hself, hother⟩ := reserve_range hsteps hacts hbefore.fillsNone
            hrest hbit rfl
          have hreserves : (acts trace).findSome? Act.reserves = some
              ⟨kgslMap u.ptselect, (bit.setWidth 32).toNat, (pagesOf d.size).toNat⟩ := by
            rw [hacts, List.findSome?_append, hbefore.fillsNone.reserves]
            rfl
          have hone : ∀ c' p', p' ∈ w'.table c' → p' ∉ w.table c' → (c', p') = (c, p) := by
            intro c' p' hp' hnew
            by_cases hc : c' = c
            swap
            · have hctxs : w'.ctxs c' = w.ctxs c' := hothers c' fun heq => hc (Option.some.inj heq)
              rw [World.table, hctxs] at hp'
              exact absurd hp' hnew
            subst hc
            cases hout.tableMap hb with
            | kept htable =>
                rw [htable] at hp'
                exact absurd hp' hnew
            | @added q htable _ =>
                rw [htable] at hp' hmem
                have hq := (List.mem_cons.mp hmem).resolve_right (hfresh _ _ hdraws)
                have hq' := (List.mem_cons.mp hp').resolve_right hnew
                rw [hq, hq']
          refine ⟨h.reserve hsteps hsame hreserves hdraws hmem hfresh hone hkept hfree hself hother
            ⟨?_, ?_, ?_, hinside⟩, ?_⟩
          · rw [hdata]
            show IsKgsl data.ptselect
            rwa [hptselect]
          · rw [hdata]
            exact congrArg kgslMap hptselect.symm
          · rw [hdata]
            exact ⟨d, hdmabuf, rfl⟩
          · refine freesNoOther_of_clears ?_
            rw [hacts]
            exact List.forall_mem_append.mpr ⟨fun act hact => (hbefore.fillsNone act hact).2,
              List.forall_mem_append.mpr ⟨fun act hact => (hreserve act hact).2,
                fun act hact => (hrest act hact).2⟩⟩

/-! ## UNMAP_BUF -/

/-- An UNMAP_BUF for a window that deletes an entry has cleared bits. -/
theorem UnmapShape.clears (h : UnmapShape u c as result) (hkgsl : IsKgsl u.ptselect)
    (hdeletes : Deletes c p as) : ∃ act ∈ as, act.clears = true := by
  cases h with
  | early _ hearly =>
      refine absurd hdeletes (not_deletes fun act hact => ?_)
      rw [hearly act hact]
      rfl
  | found _ hrelease =>
      cases hrelease with
      | empty _ hreads =>
          refine absurd hdeletes (not_deletes (List.forall_mem_cons.mpr ⟨rfl, fun act hact => ?_⟩))
          obtain ⟨data, rfl⟩ := hreads act hact
          rfl
      | @buffer data data' d a acts result _ _ _ =>
          refine ⟨.clear (kgslMap u.ptselect) ((iovaBit u.dmaAddr u.ptselect).setWidth 32)
            (pagesOf d.size), ?_, rfl⟩
          rw [clearActs, if_pos hkgsl]
          simp

/-- An entry that a request to unmap deletes is erased from its table. -/
theorem UnmapsId.erase {id : U32} (h : UnmapsId c id (acts trace) result)
    (hsteps : Steps kernel w trace w') (hdeletes : Deletes c p (acts trace)) :
    w'.table c = (w.table c).erase p := by
  have hleaves : ∀ {as : List Act}, Leaves .ctxs as → ¬ Deletes c p as := by
    intro as has
    rintro (hmem | hmem | hmem) <;> exact has _ hmem (by simp [Act.writes])
  generalize hacts : acts trace = as at h hdeletes
  cases h with
  | unfound _ has => exact absurd hdeletes (hleaves has)
  | @found q find bs _ hfind herases =>
      have hlook : Leaves .ctxs [find] := by
        rcases hfind with rfl | rfl <;> simp [Act.writes]
      have hall : Deletes c p ([find] ++ bs) := hdeletes
      have hrest : Deletes c p bs := (deletes_append.mp hall).resolve_left (hleaves hlook)
      cases herases with
      | kept _ has => exact absurd hrest (hleaves has)
      | @removed del before after hbefore hdel hafter =>
          obtain rfl : p = q := by
            have hlate : Deletes c p ([del] ++ after) :=
              (deletes_append.mp hrest).resolve_left (hleaves hbefore)
            have hone := (deletes_append.mp hlate).resolve_right (hleaves hafter)
            rcases hdel with rfl | rfl <;> simpa [Deletes] using hone
          have hsplit : acts trace = (find :: before) ++ del :: after := hacts
          obtain ⟨first, e, rest, rfl, hfirst, hview, hlast⟩ := Observer.exists_event hsplit
          obtain ⟨w₁, hsteps₁, hsteps₂⟩ := steps_append_iff.mp hsteps
          obtain ⟨w₂, hstep, hsteps₃⟩ := steps_cons_iff.mp hsteps₂
          have hearly : Leaves .ctxs (find :: before) := leaves_append.mpr ⟨hlook, hbefore⟩
          calc w'.table c = w₂.table c := leaves_table hsteps₃ (by rwa [acts, hlast])
            _ = (w₁.table c).erase p := delete_table_step hstep hview hdel
            _ = (w.table c).erase p := by rw [leaves_table hsteps₁ (by rwa [acts, hfirst])]

/-- UNMAP_BUF clears the range of the entry that it finds and deletes it, or changes no bitmap and
deletes no entry of a window. -/
theorem LiveTile.unmap (h : LiveTile history w) (hb : Backed noNeeds w 0)
    (hnodup : (w.table c).Nodup)
    (hexec : Exec kernel (kiumdService (.ioctl ⟨c, .unmapBuf u⟩)) w trace result w')
    (hfits : UnmapsOwnRange history w c u (acts trace)) :
    LiveTile ((.ioctl ⟨c, .unmapBuf u⟩, trace) :: history) w' ∧ FreesNoOther history w trace := by
  have hsteps := hexec.steps
  have hsame := wp_exec (kiumdService_tablesSame _ hb) hexec
  have hothers : ∀ c' ≠ c, w'.table c' = w.table c' := fun c' hc =>
    congrArg KiumdCtx.smmuTable
      ((wp_exec (kiumdService_othersKept _ hb) hexec).ctxs c' fun heq => hc (Option.some.inj heq))
  have hshape : UnmapShape u c (acts trace) result :=
    (kiumdIoctl_shows ⟨c, .unmapBuf u⟩).exec driver_admits hexec
  have hadds : ∀ c' p, ¬ AddsEntry c' p (acts trace) := fun c' p =>
    hshape.addsNone.not_addsEntry
  have hleases := hshape.leases
  generalize hacts : acts trace = as at hleases
  cases hleases with
  | unleased hspared =>
      subst hacts
      refine ⟨h.keep hsteps hsame hspared.fillsNone (fun _ _ hnew => absurd hnew (hadds _ _)) ?_,
        freesNoOther_of_clears fun act hact => (hspared.fillsNone act hact).2⟩
      intro c' p r hlive
      by_cases hc : c' = c
      swap
      · rw [hothers c' hc]
        exact hlive.mem
      subst hc
      refine table_kept_steps hsteps hlive.mem fun hdeletes => ?_
      by_cases hkgsl : IsKgsl u.ptselect
      · obtain ⟨act, hact, hclears⟩ := hshape.clears hkgsl hdeletes
        rw [(hspared.fillsNone act hact).2] at hclears
        cases hclears
      · exact hfits.other hkgsl p hdeletes (h.owned hlive).kgsl
  | @cleared p data data' d rest hkgsl hdmabuf hspared =>
      obtain ⟨hdeletes, r, hreserved, hwindow, hfirst⟩ := hfits.own hkgsl p (by rw [hacts]; simp)
      have hfound : acts trace = [] ++ .find c u.id (some p) :: (.read p data :: .read p data' ::
          .clear (kgslMap u.ptselect) ((iovaBit u.dmaAddr u.ptselect).setWidth 32)
            (pagesOf d.size) :: rest) := hacts
      have hmem : p ∈ w.table c := (find_steps hsteps hfound sparesEntries_nil (.inl rfl)).1
      have hlive : LiveRange history w c p r := ⟨hmem, hreserved⟩
      have howned := h.owned hlive
      -- the entry is read as it is, so that its buffer has the pages of the range
      have hdata : data = w.smaps p := by
        have hsplit : acts trace = [.find c u.id (some p)] ++ .read p data :: .read p data' ::
            .clear (kgslMap u.ptselect) ((iovaBit u.dmaAddr u.ptselect).setWidth 32)
              (pagesOf d.size) :: rest := hacts
        refine read_held_steps hsteps hsplit ?_ (hb.smap_mem hmem)
        simp [Act.sparesEntries]
      have hrange : r = ⟨kgslMap u.ptselect, ((iovaBit u.dmaAddr u.ptselect).setWidth 32).toNat,
          (pagesOf d.size).toNat⟩ := by
        obtain ⟨d', hdmabuf', hnr⟩ := howned.nr
        rw [← hdata, hdmabuf] at hdmabuf'
        obtain rfl := Option.some.inj hdmabuf'
        rw [hfirst, ← hwindow, ← hnr]
      have hlooks : FillsNone [Act.find c u.id (some p), .read p data, .read p data'] := by
        simp [FillsNone, Act.sets, Act.clears]
      have htable := hshape.unmapsId.erase hsteps hdeletes
      constructor
      · refine h.release hsteps hsame hlive hadds ?_ ?_
        · intro c' p'
          by_cases hc : c' = c
          · subst hc
            rw [htable, hnodup.mem_erase_iff]
            simp [and_comm]
          · rw [hothers c' hc]
            simp [hc]
        · rw [hrange]
          exact clear_steps hsteps hacts hlooks hspared.fillsNone
      · intro m start nr hclear c' p' r' hlive' hwindow' hkept
        have hne : (c', p') ≠ (c, p) := by
          rintro ⟨⟩
          exact hkept hdeletes
        -- the only bits cleared are those of the range
        have hcleared : (⟨m, start.toNat, nr.toNat⟩ : PageRange) = r := by
          rw [hacts, List.mem_append] at hclear
          rcases hclear with hclear | hclear
          · cases (hlooks _ hclear).2
          · rcases List.mem_cons.mp hclear with heq | hclear
            · cases heq
              exact hrange.symm
            · cases (hspared.fillsNone _ hclear).2
        subst hcleared
        exact h.apart hlive hlive' hwindow'.symm hne.symm

end Services

/-! ## Closes -/

/-- The entries of the windows are skipped when a file is closed. -/
theorem ClosesEntry.not_deletes_kgsl {q : Nat} (h : ClosesEntry w c' q as)
    (howned : OwnedRange w p r) : ¬ Deletes c p as := by
  intro hdeletes
  cases h with
  | skipped | zeroFailed => simp [Deletes] at hdeletes
  | region _ hdmabuf =>
      obtain ⟨-, rfl⟩ : c = c' ∧ p = q := by simpa [Deletes] using hdeletes
      obtain ⟨d, hbuffer, -⟩ := howned.nr
      rw [hdmabuf] at hbuffer
      cases hbuffer
  | plain hbuffer _ | zero hbuffer _ =>
      obtain ⟨-, rfl⟩ : c = c' ∧ p = q := by simpa [Deletes] using hdeletes
      exact hbuffer.listed (.inl howned.kgsl)

/-- Closing a file changes no bitmap and deletes no entry of a window. -/
theorem LiveTile.close {result : Option Int} (h : LiveTile history w) (hb : Backed noNeeds w 0)
    (hexec : Exec kernel (kiumdService (.close c)) w trace result w') :
    LiveTile ((.close c, trace) :: history) w' ∧ FreesNoOther history w trace := by
  have hfills := (wp_exec (kiumdClose_calm hb) hexec).unleased.fillsNone
  refine ⟨h.keep hexec.steps (wp_exec (kiumdService_tablesSame _ hb) hexec) hfills ?_ ?_,
    freesNoOther_of_clears fun act hact => (hfills act hact).2⟩
  · exact fun _ _ hnew =>
      absurd hnew (AddsNone.not_addsEntry (wp_exec (kiumdClose_addsNone hb) hexec))
  · intro c' p r hlive
    exact wp_exec (kiumdClose_table_mem hb hlive.mem fun q as hcloses =>
      hcloses.not_deletes_kgsl (h.owned hlive)) hexec

/-! ## Runs -/

/-- Every service that fits keeps the live ranges tiled. -/
theorem kiumdService_liveTile (s : Service) (h : LiveTile history w) (hb : Backed noNeeds w 0)
    (hnodup : ∀ c, (w.table c).Nodup) :
    wp kernel .any (kiumdService s) (fun trace _ w' => RangesFit history s w trace →
      LiveTile ((s, trace) :: history) w' ∧ FreesNoOther history w trace) w := by
  refine ⟨fun _ _ _ _ _ => trivial, fun trace result w' hexec hfits => ?_⟩
  cases s with
  | ioctl i =>
      obtain ⟨c, request⟩ := i
      cases request with
      | mapBuf u => exact h.map hb hexec hfits
      | unmapBuf u => exact h.unmap hb (hnodup c) hexec hfits
      | _ => exact hfits.elim
  | iovaMapCtrl copied => exact hfits.elim
  | close c => exact h.close hb hexec

variable {w₀ : World}

theorem liveTile_start (hempty : ∀ m, w₀.kgsl.marked m = ∅) :
    LiveTile [] w₀ := by
  have hnone : ∀ {c p r}, ¬ LiveRange [] w₀ c p r := fun hlive => by cases hlive.reserved
  refine ⟨fun m i => ?_, fun hlive => absurd hlive hnone, fun hlive => absurd hlive hnone⟩
  rw [hempty m]
  exact ⟨fun hi => absurd hi (Set.notMem_empty i), fun ⟨_, _, _, hlive, _⟩ => absurd hlive hnone⟩

theorem service_run_liveTile (hstart : w₀.Fresh) (hlone : LoneMemory w₀)
    (hempty : ∀ m, w₀.kgsl.marked m = ∅) (h : Run kernel kiumdService RangesFit w₀ history w) :
    LiveTile history w := by
  induction h with
  | start => exact liveTile_start hempty
  | request hrun hexec hfits ih =>
      have hb := service_run_backed hstart hrun
      have hapart := hb.entriesApart (service_run_loneMemory hlone hrun)
      exact (wp_exec (kiumdService_liveTile _ ih hb hapart.nodup) hexec hfits).1

/-- In every run of MAP_BUF, UNMAP_BUF and closes of any number of files, whatever fails besides, in
which a MAP_BUF that has reserved pages succeeds and an UNMAP_BUF for a window names the pages of
the entry that it finds and deletes the entry: in every state reached the bits of each window that
are set are the pages reserved for the live mappings, and a further such request frees no page of
another live mapping. -/
theorem service_run_ranges_right (hstart : w₀.Fresh) (hlone : LoneMemory w₀)
    (hempty : ∀ m, w₀.kgsl.marked m = ∅) (h : Run kernel kiumdService RangesFit w₀ history w) :
    RangesRight RangesFit history w := by
  have htile := service_run_liveTile hstart hlone hempty h
  have hb := service_run_backed hstart h
  have hapart := hb.entriesApart (service_run_loneMemory hlone h)
  refine ⟨htile.marks, fun s trace result w' hexec hfits => ?_⟩
  exact (wp_exec (kiumdService_liveTile s htile hb hapart.nodup) hexec hfits).2

theorem marked_initial (m : KgslMap) : World.initial.kgsl.marked m = ∅ := by
  ext i
  simp [KgslMaps.marked, World.initial, default]

/-- Two files have mapped a buffer each into the global window, and the first unmaps its own. -/
theorem service_run_ranges_right_global : ∃ history w,
    Run kernel kiumdService RangesFit .initial history w ∧
      history.map (·.1) = [.ioctl ⟨0, .unmapBuf unmapGlobalUser⟩, .ioctl ⟨1, .mapBuf globalUser⟩,
        .ioctl ⟨0, .mapBuf globalUser⟩] ∧
      w.kgsl.bits .global 0 = false ∧ w.kgsl.bits .global 1 = true ∧
      RangesRight RangesFit history w := by
  let choose := (Answers.plain fun _ _ => false).choose
  let first : Service := .ioctl ⟨0, .mapBuf globalUser⟩
  let second : Service := .ioctl ⟨1, .mapBuf globalUser⟩
  let third : Service := .ioctl ⟨0, .unmapBuf unmapGlobalUser⟩
  have hcheck : (kiumdService first).check kernel choose .initial (fun t₁ _ w₁ =>
      decide (MapsForGood (acts t₁)) && (kiumdService second).check kernel choose w₁ (fun t₂ _ w₂ =>
        decide (MapsForGood (acts t₂)) && (kiumdService third).check kernel choose w₂
          (fun t₃ _ w₃ => decide (∀ act ∈ acts t₃, ∀ p ∈ act.finds 0 0, p ∈ w₂.table 0 ∧
              p ∉ w₃.table 0 ∧
                reservedFor [(second, t₂), (first, t₁)] 0 p = some ⟨.global, 0, 1⟩) &&
            decide (w₃.kgsl.bits .global 0 = false) &&
            decide (w₃.kgsl.bits .global 1 = true)))) = true := by
    decide +kernel
  obtain ⟨t₁, value₁, w₁, hexec₁, htest₁⟩ := Program.check_exec hcheck
  rw [Bool.and_eq_true, decide_eq_true_eq] at htest₁
  obtain ⟨t₂, value₂, w₂, hexec₂, htest₂⟩ := Program.check_exec htest₁.2
  rw [Bool.and_eq_true, decide_eq_true_eq] at htest₂
  obtain ⟨t₃, value₃, w₃, hexec₃, htest₃⟩ := Program.check_exec htest₂.2
  simp only [Bool.and_eq_true, decide_eq_true_eq] at htest₃
  obtain ⟨⟨hfinds, hfree⟩, hset⟩ := htest₃
  have hfits : RangesFit [(second, t₂), (first, t₁)] third w₂ t₃ := by
    refine ⟨fun _ p hfind => ?_, fun hkgsl => absurd (.inl rfl) hkgsl⟩
    obtain ⟨hmem, hgone, hreserved⟩ := hfinds _ hfind p find_finds
    refine ⟨?_, _, hreserved, rfl, by decide⟩
    by_contra hkept
    exact hgone (table_kept_steps hexec₃.steps hmem hkept)
  have hrun := Run.request (.request (.request .start hexec₁ htest₁.1) hexec₂ htest₂.1) hexec₃ hfits
  exact ⟨_, w₃, hrun, rfl, hfree, hset,
    service_run_ranges_right fresh_initial loneMemory_initial marked_initial hrun⟩

/-- The second of two files that have mapped a buffer each unmaps its own with the address of the
other one: the other one's page is free. -/
theorem not_service_run_ranges_right : ¬ ∀ history w,
    Run kernel kiumdService BuffersOnly .initial history w → RangesRight BuffersOnly history w := by
  intro hall
  let choose := (Answers.plain fun _ _ => false).choose
  let first : Service := .ioctl ⟨0, .mapBuf globalUser⟩
  let second : Service := .ioctl ⟨1, .mapBuf globalUser⟩
  let third : Service := .ioctl ⟨1, .unmapBuf unmapGlobalUser⟩
  have hcheck : (kiumdService first).check kernel choose .initial (fun t₁ _ w₁ =>
      (kiumdService second).check kernel choose w₁ (fun t₂ _ w₂ =>
        (kiumdService third).check kernel choose w₂ (fun t₃ ret w₃ => decide (ret = 0) &&
          decide (w₃.kgsl.bits .global 0 = false) && decide (∃ p ∈ w₃.table 0,
            reservedFor [(third, t₃), (second, t₂), (first, t₁)] 0 p =
              some ⟨.global, 0, 1⟩)))) = true := by
    decide +kernel
  obtain ⟨t₁, value₁, w₁, hexec₁, htest₁⟩ := Program.check_exec hcheck
  obtain ⟨t₂, value₂, w₂, hexec₂, htest₂⟩ := Program.check_exec htest₁
  obtain ⟨t₃, value₃, w₃, hexec₃, htest₃⟩ := Program.check_exec htest₂
  simp only [Bool.and_eq_true, decide_eq_true_eq] at htest₃
  obtain ⟨⟨-, hfree⟩, p, hp, hreserved⟩ := htest₃
  have hrun : Run kernel kiumdService BuffersOnly .initial
      [(third, t₃), (second, t₂), (first, t₁)] w₃ :=
    .request (.request (.request .start hexec₁ rfl) hexec₂ rfl) hexec₃ rfl
  have hmarked : 0 ∈ w₃.kgsl.marked .global :=
    ((hall _ _ hrun).marks .global 0).mpr ⟨0, p, _, ⟨hp, hreserved⟩, rfl, le_refl 0, Nat.one_pos⟩
  have hbit : w₃.kgsl.bits .global 0 = true := hmarked
  rw [hfree] at hbit
  cases hbit

end SafeLinux.Kiumd
