import SafeLinux.Kiumd.Backing
import SafeLinux.Kiumd.MmioShapes
import SafeLinux.Kiumd.SecureShapes

/-!
# The ids of the entries

The entries of a context are numbered by a counter of 32 bits that only goes up. As long as it has
not passed `2 ^ 31`, all entries have ids below it, and an ioctl that adds an entry returns the id
by which exactly this entry is found (`run_map_returns_new_id`). Afterwards the ids returned are
negative, and no unmap takes them (`map_returns_negative_id`).
-/

namespace SafeLinux.Kiumd

open Effects

/-! ## The counter -/

/-- The entry that an action adds to the table of a context, with its id. -/
def Act.draws (c : Nat) : Act → Option (Nat × U32)
  | .add c' p _ id | .addMmio c' p _ _ id => if c' = c then some (p, id) else none
  | _ => none

/-- An entry was added to the table of the context `c`. -/
def Draws (c : Nat) (trace : List (Event KCall)) : Prop :=
  ∃ act ∈ acts trace, (act.draws c).isSome

variable {b w w' : World} {c p : Nat} {id : U32} {trace : List (Event KCall)}
  {x : Multiset Resource}

/-- Only an action that adds an entry changes the counter. -/
theorem id_step {β : Type} {request : KCall β} {answer : β}
    (hstep : kernelStep request w answer = some w')
    (h : ∀ act ∈ request.act answer, act.draws c = none) :
    (w'.ctxs c).id = (w.ctxs c).id := by
  by_cases hwrites : Field.ctxs ∈ request.writes
  swap
  · have hctxs : w'.ctxs = w.ctxs := step_agrees hstep hwrites
    rw [hctxs]
  have hset : ∀ (c' : Nat) (f : KiumdCtx → KiumdCtx), (c' = c → (f (w.ctxs c)).id = (w.ctxs c).id) →
      ((w.setCtx c' f).ctxs c).id = (w.ctxs c).id := by
    intro c' f hf
    by_cases hc : c = c'
    · subst hc
      rw [World.setCtx_ctxs_self, hf rfl]
    · simp [World.setCtx, hc]
  cases request with
  | smmuAdd c' p data | smmuAddMmio c' p m mmio =>
      have hc : c' ≠ c := fun heq => by simpa [Act.draws, heq] using h _ rfl
      simp only [kernelStep] at hstep
      split at hstep <;> cases hstep
      exact hset c' (fun k => { k with id := k.id + 1, smmuTable := p :: k.smmuTable })
        fun heq => absurd heq hc
  | smmuDelMmio c' p =>
      simp only [kernelStep] at hstep
      split at hstep <;> cases hstep <;>
        exact hset c' (fun k => { k with smmuTable := k.smmuTable.erase p }) fun _ => rfl
  | smmuDel c' p =>
      cases hstep
      exact hset c' (fun k => { k with smmuTable := k.smmuTable.erase p }) fun _ => rfl
  | hashDel | setNumReservedRegions | setResMemArea | xaDestroy =>
      cases hstep
      exact hset _ _ fun _ => rfl
  | _ => simp [KCall.writes] at hwrites

theorem id_of_not_draws (h : Steps kernel w trace w') (hnot : ¬ Draws c trace) :
    (w'.ctxs c).id = (w.ctxs c).id := by
  refine @Steps.keep _ _ kernel _ _ _ (fun s => (s.ctxs c).id = (w.ctxs c).id) h ?_ rfl
  intro e he s s' hstep hs
  refine (id_step hstep fun act hact => ?_).trans hs
  refine Option.not_isSome_iff_eq_none.mp fun hdraws => hnot ⟨act, ?_, hdraws⟩
  exact List.mem_filterMap.mpr ⟨e, he, hact⟩

/-! ## Ids below the counter -/

/-- The entries of the contexts have ids below the counters. -/
def IdsBelow (w : World) : Prop :=
  ∀ c, ∀ p ∈ w.table c, (w.smaps p).id < (w.ctxs c).id

/-- Counting does not wrap while the counter is not negative. -/
theorem lt_succ_of_nonneg {n : U32} (h : 0 ≤ n.toInt) : n < n + 1 := by
  rw [BitVec.toInt_eq_toNat_cond] at h
  split at h <;> bv_omega

namespace IdsBelow

/-- Entries may go and counters may go up. -/
theorem mono (h : IdsBelow b)
    (htable : ∀ c, ∀ p ∈ w.table c, p ∈ b.table c ∧ w.smaps p = b.smaps p)
    (hid : ∀ c, (b.ctxs c).id ≤ (w.ctxs c).id) : IdsBelow w := by
  intro c p hp
  obtain ⟨hp', hsmaps⟩ := htable c p hp
  rw [hsmaps]
  exact BitVec.lt_def.mpr (lt_of_lt_of_le (BitVec.lt_def.mp (h c p hp')) (BitVec.le_def.mp (hid c)))

/-- Code that changes no table. -/
theorem frame {buffers : BufferNeeds} {y : Multiset Resource} (h : IdsBelow b)
    (hb : Backed buffers b y) (hy : ∀ p, .smap p ∉ y) (hf : Frame b w x) : IdsBelow w := by
  have hctxs := hf.ctxs
  refine h.mono ?_ fun c => ?_
  · intro c p hp
    rw [World.table, hctxs] at hp
    have hlive := Multiset.mem_add.mp (hb.covers.mem hp (smap_mem_entryNeeds b p))
    exact ⟨hp, hf.smaps p (hlive.resolve_right (hy p))⟩
  · rw [hctxs]
    exact BitVec.le_refl _

/-- An id is counted. -/
theorem skipId (h : IdsBelow b) (hnonneg : 0 ≤ (b.ctxs c).id.toInt) : IdsBelow (b.skipId c) := by
  refine h.mono ?_ ?_
  · intro c' p hp
    rw [World.table_skipId] at hp
    exact ⟨hp, rfl⟩
  · intro c'
    by_cases hc : c' = c
    · subst hc
      rw [World.skipId, World.setCtx_ctxs_self]
      exact BitVec.le_of_lt (lt_succ_of_nonneg hnonneg)
    · simp [World.skipId, World.setCtx, hc]

/-- A new entry gets the value of the counter. -/
theorem publish {buffers : BufferNeeds} (h : IdsBelow b) (hb : Backed buffers b 0)
    (fresh : .smap p ∉ b.held) (hnonneg : 0 ≤ (b.ctxs c).id.toInt) (data : SmmuMapData) :
    IdsBelow (b.publish c p data) := by
  intro c' q hq
  rw [World.table_publish] at hq
  by_cases hqp : q = p
  · subst hqp
    have hc : c' = c := by
      by_contra hc
      rw [Function.update_of_ne hc] at hq
      exact fresh (hb.smap_mem hq)
    subst hc
    simpa [World.publish] using lt_succ_of_nonneg hnonneg
  · have hq' : q ∈ (b.skipId c).table c' := by
      rw [World.table_skipId]
      by_cases hc : c' = c
      · subst hc
        simpa [hqp] using hq
      · simpa [hc] using hq
    have hlt := h.skipId hnonneg c' q hq'
    have hsmaps : (b.publish c p data).smaps q = b.smaps q := by simp [World.publish, hqp]
    rw [hsmaps]
    by_cases hc : c' = c
    · subst hc
      simpa [World.skipId, World.publish] using hlt
    · simpa [World.skipId, World.publish, World.setCtx, hc] using hlt

/-- An entry is taken out of its table. -/
theorem unlink (h : IdsBelow b) : IdsBelow (b.unlink c p) := by
  refine h.mono ?_ ?_
  · intro c' q hq
    refine ⟨?_, rfl⟩
    rw [World.table_unlink] at hq
    by_cases hc : c' = c
    · subst hc
      rw [Function.update_self] at hq
      exact List.mem_of_mem_erase hq
    · simpa [hc] using hq
  · intro c'
    by_cases hc : c' = c
    · subst hc
      simp [World.unlink]
    · simp [World.unlink, World.setCtx, hc]

/-! ## The ioctls -/

/-- An outcome in which an id was counted drew one. -/
theorem nonneg_of_succ (hsteps : Steps kernel b trace w)
    (hnonneg : Draws c trace → 0 ≤ (b.ctxs c).id.toInt)
    (hsucc : (w.ctxs c).id = (b.ctxs c).id + 1) : 0 ≤ (b.ctxs c).id.toInt := by
  refine hnonneg (by_contra fun hnot => ?_)
  rw [id_of_not_draws hsteps hnot] at hsucc
  bv_omega

variable {kind : SmmuMapData → Attachment → Prop} {late : List (Event KCall) → Prop}

theorem adds (h : IdsBelow b) (hb : Backed noNeeds b 0) (hsteps : Steps kernel b trace w)
    (hnonneg : Draws c trace → 0 ≤ (b.ctxs c).id.toInt)
    (houtcome : AddOutcome b c kind trace w) : IdsBelow w := by
  have hpublished {p : Nat} {d : DmaBuf} {a : Attachment} {data : SmmuMapData}
      {x : Multiset Resource} (fresh : .smap p ∉ b.held) (hbuffer : IsBuffer data d a)
      (hframe : Frame (b.publish c p data) w x) : IdsBelow w := by
    have hsucc : (w.ctxs c).id = (b.ctxs c).id + 1 := by
      rw [hframe.ctxs]
      simp [World.publish]
    have hlt := h.publish hb fresh (nonneg_of_succ hsteps hnonneg hsucc) data
    exact hlt.frame (hb.publish fresh hbuffer) (by simp [noNeeds]) hframe
  cases houtcome with
  | refused frame => exact h.frame hb (by simp) frame
  | published p d a data fresh buffer _ frame => exact hpublished fresh buffer frame
  | stale p d a data fresh buffer _ _ frame => exact hpublished fresh buffer frame

theorem addsMmio (h : IdsBelow b) (hb : Backed noNeeds b 0) (hsteps : Steps kernel b trace w)
    (hnonneg : Draws c trace → 0 ≤ (b.ctxs c).id.toInt)
    (houtcome : AddMmioOutcome b c w) : IdsBelow w := by
  cases houtcome with
  | refused frame => exact h.frame hb (by simp) frame
  | retracted frame =>
      have hsucc : (w.ctxs c).id = (b.ctxs c).id + 1 := by
        rw [frame.ctxs]
        simp [World.skipId]
      exact (h.skipId (nonneg_of_succ hsteps hnonneg hsucc)).frame (hb.skipId c) (by simp) frame
  | published p m mmio fresh freshMmio frame =>
      have hsucc : (w.ctxs c).id = (b.ctxs c).id + 1 := by
        rw [frame.ctxs]
        simp [World.publishMmio, World.publish]
      have hlt : IdsBelow (b.publishMmio c p m mmio) :=
        h.publish hb fresh (nonneg_of_succ hsteps hnonneg hsucc) { context := some m }
      have hshared : Backed noNeeds (b.publishMmio c p m mmio) (mmioNeeds mmio ::ₘ 0) :=
        hb.publishMmio fresh freshMmio
      exact hlt.frame hshared (by simp [mmioNeeds]) frame

theorem removes (h : IdsBelow b) (hb : Backed noNeeds b 0)
    (houtcome : RemoveOutcome b c late trace w) : IdsBelow w := by
  cases houtcome with
  | kept frame => exact h.frame hb (by simp) frame
  | half p d a dev t hp hunmaps _ frame =>
      have hrest : IdsBelow (b.release (.mapping dev t)) := h
      exact hrest.frame (hb.release fun _ _ _ => mapping_notMem_noNeeds) (by simp) frame
  | removed p d a dev t hp hunmaps frame =>
      have hrest : IdsBelow (b.remove c p d a dev t) := h.unlink
      exact hrest.frame (hb.remove_noNeeds hp hunmaps) (by simp) frame

theorem removesMmio (h : IdsBelow b) (hb : Backed noNeeds b 0)
    (houtcome : RemoveMmioOutcome b c w) : IdsBelow w := by
  cases houtcome with
  | kept frame => exact h.frame hb (by simp) frame
  | removed p m hp hcontext frame =>
      have hrest : IdsBelow
          (((b.release (mmioNeeds (b.mmioCtxs m))).release (.mmioCtx m)).delete c p) :=
        h.unlink
      exact hrest.frame (hb.removeMmio hp hcontext) (by simp) frame

end IdsBelow

/-- Every ioctl that draws no negative id leaves the ids below the counters. -/
theorem kiumdIoctl_idsBelow {i : Ioctl} {result : Option Int} (h : IdsBelow w)
    (hb : Backed noNeeds w 0) (hexec : Exec kernel (kiumdIoctl i) w trace result w')
    (hnonneg : Draws i.ctx trace → 0 ≤ (w.ctxs i.ctx).id.toInt) : IdsBelow w' := by
  obtain ⟨c, request⟩ := i
  have hlive : ∀ p ∈ (w.ctxs c).smmuTable, .smap p ∈ w.held := fun p hp => hb.smap_mem hp
  cases request with
  | mapBuf kiusr =>
      exact h.adds hb hexec.steps hnonneg (wp_exec kiumdDmabufVfioMap_adds hexec)
  | unmapBuf kiusr => exact h.removes hb (wp_exec (kiumdDmabufVfioUnmap_removes hlive) hexec)
  | secureMap kiusr =>
      exact h.adds hb hexec.steps hnonneg (wp_exec kiumdDmabufVfioSecureMap_adds hexec)
  | secureUnmap kiusr =>
      exact h.removes hb
        (wp_exec (kiumdDmabufVfioSecureUnmap_removes hlive (hb.shaped c)) hexec)
  | mmioMap ret₀ kiusr =>
      exact h.addsMmio hb hexec.steps hnonneg (wp_exec kiumdMmioSmmuMap_adds hexec)
  | mmioUnmap kiusr =>
      have hcontexts : ∀ p ∈ w.table c, ∀ m, (w.smaps p).context = some m → .mmioCtx m ∈ w.held :=
        fun p hp m hm => hb.mmioCtx_mem hp hm
      exact h.removesMmio hb (wp_exec (kiumdMmioSmmuUnmap_removes hlive hcontexts) hexec)

/-! ## The id returned -/

/-- The id in a reply that was copied to the user. -/
def Act.returns : Act → Option U32
  | .reply (.user u) true => some u.id
  | .reply (.mmio m) true => some m.id
  | _ => none

/-- The id in the last reply of a request. -/
def returnedId (trace : List (Event KCall)) : Option U32 :=
  ((acts trace).filterMap Act.returns).getLast?

/-- The actions of an ioctl that adds one entry and ends with the reply of its id. -/
inductive AddsAndReturns (c p : Nat) (id : U32) : List Act → Prop where
  | intro {before after : List Act} {act reply : Act} : act.draws c = some (p, id) →
      Leaves .ctxs before → Leaves .ctxs after → reply.returns = some id →
      AddsAndReturns c p id (before ++ act :: (after ++ [reply]))

theorem AddsAndReturns.prepend {before l : List Act} (h : AddsAndReturns c p id l)
    (hbefore : Leaves .ctxs before) : AddsAndReturns c p id (before ++ l) := by
  cases h with
  | @intro before' after act reply hdraws hbefore' hafter hreply =>
      rw [← List.append_assoc]
      exact .intro hdraws (leaves_append.mpr ⟨hbefore, hbefore'⟩) hafter hreply

theorem leaves_of_isOpening {l : List Act} (h : ∀ act ∈ l, act.isOpening) : Leaves .ctxs l := by
  intro act hact
  have hopening := h act hact
  cases act <;> first | (cases hopening; done) | simp [Act.writes]

theorem leaves_of_isSearch {l : List Act} (h : ∀ act ∈ l, act.isSearch) : Leaves .ctxs l := by
  intro act hact
  have hsearch := h act hact
  cases act <;> first | (cases hsearch; done) | simp [Act.writes]

theorem leaves_of_isAcl {l : List Act} (h : ∀ act ∈ l, act.isAcl) : Leaves .ctxs l := by
  intro act hact
  have hacl := h act hact
  cases act <;> first | (cases hacl; done) | simp [Act.writes]

theorem OffsetShape.leaves {size : U64} {ptselect : Int} {l : List Act} {result : Option Int}
    (h : OffsetShape size ptselect l result) : Leaves .ctxs l := by
  cases h with
  | refused _ hsearches => exact leaves_of_isSearch hsearches
  | taken hsearches _ _ =>
      exact leaves_append.mpr ⟨leaves_of_isSearch hsearches, by simp [reserveActs, Act.writes]⟩

theorem MapsBuffer.leaves {u : KiumdUser} {a : Attachment} {l : List Act} (h : MapsBuffer u a l) :
    Leaves .ctxs l := by
  cases h <;> simp [Act.writes]

theorem AddressShape.leaves {u : KiumdUser} {t : SgTable} {l : List Act} {addr : U64}
    (h : AddressShape u t l addr) : Leaves .ctxs l := by
  cases h <;> simp [Act.writes]

theorem PageShape.leaves {vmids : List Int} {page : U64} {l : List Act} {result : Option Int}
    (h : PageShape vmids page l result) : Leaves .ctxs l := by
  cases h <;> simp [Act.writes]

theorem EntriesShape.leaves {src : U64} {dst : List QcomScmVmperm} {sgl : List SgEntry}
    {l : List Act} {result : Option Int} (h : EntriesShape src dst sgl l result) :
    Leaves .ctxs l := by
  induction h with
  | done => exact leaves_nil
  | stopped _ => simp [Act.writes]
  | next _ ih => exact leaves_cons.mpr ⟨by simp [Act.writes], ih⟩

theorem AssignShape.leaves {src : U64} {dst : List QcomScmVmperm} {t : SgTable} {l : List Act}
    {result : Option Int} (h : AssignShape src dst t l result) : Leaves .ctxs l := by
  cases h with
  | refused _ => exact leaves_nil
  | entries _ hentries => exact hentries.leaves

/-- A successful MAP_BUF adds an entry and returns its id. -/
theorem AttachShape.adds {u : KiumdUser} {v : VfioDevice} {d : DmaBuf} {l : List Act}
    (h : AttachShape u c v d l (some 0)) : ∃ p id, AddsAndReturns c p id l := by
  cases h with
  | refused hret => exact absurd rfl hret
  | @attached a l' _ _ _ hattached =>
  cases hattached with
  | detached hret | undomained hret => exact absurd rfl hret
  | @mapped maps l'' _ hmaps hpublish =>
  cases hpublish with
  | unpublished hret | stale hret => exact absurd rfl hret
  | @done addrs p id addr haddr =>
      have hadds : AddsAndReturns c p id ([.alloc p] ++ .add c p (mapEntry u v d a) id ::
          (addrs ++ [.reply (.user { u with id := id, dmaAddr := addr }) true])) :=
        .intro (by simp [Act.draws]) (by simp [Act.writes]) haddr.leaves rfl
      refine ⟨p, id, ?_⟩
      have hbefore : Leaves .ctxs (.attach d a :: maps) :=
        leaves_cons.mpr ⟨by simp [Act.writes], hmaps.leaves⟩
      exact hadds.prepend hbefore

theorem MapShape.adds {u : KiumdUser} {l : List Act} (h : MapShape u c l (some 0)) :
    ∃ p id, AddsAndReturns c p id l := by
  have hopen : ∀ p file d, Leaves .ctxs (openActs u p file d) := by
    simp [openActs, Act.writes]
  cases h with
  | early hret _ => exact absurd rfl hret
  | unreserved hret _ _ _ => exact absurd hret (lt_irrefl 0)
  | uncookied _ hret _ _ _ => exact absurd hret (lt_irrefl 0)
  | reserved _ _ _ hoffset _ hattach =>
      obtain ⟨p, id, hadds⟩ := hattach.adds
      refine ⟨p, id, (AddsAndReturns.prepend ?_ hoffset.leaves).prepend (hopen _ _ _)⟩
      exact hadds.prepend (leaves_cons.mpr ⟨by simp [Act.writes], leaves_nil⟩)
  | plain _ _ hattach =>
      obtain ⟨p, id, hadds⟩ := hattach.adds
      exact ⟨p, id, hadds.prepend (hopen _ _ _)⟩

/-- A successful SECURE_MAP adds an entry and returns its id. -/
theorem SecureAttachedShape.adds {u : KiumdUser} {vmids perms : List Int} {page : U64}
    {d : DmaBuf} {a : Attachment} {l : List Act}
    (h : SecureAttachedShape u c vmids perms page d a l (some 0)) :
    ∃ p id, AddsAndReturns c p id l := by
  cases h with
  | refused hret _ => exact absurd hret (lt_irrefl 0)
  | unassigned _ hret _ => exact absurd hret (lt_irrefl 0)
  | @mapped handed given l' _ hhanded hgiven hpublish =>
  cases hpublish with
  | unpublished hret | stale hret _ => exact absurd rfl hret
  | @done p id addr =>
      have hadds : AddsAndReturns c p id ([.alloc p] ++ .add c p (secureEntry d a) id ::
          ([.dmaAddress a.table addr] ++
            [.reply (.user { u with id := id, dmaAddr := addr }) true])) :=
        .intro (by simp [Act.draws]) (by simp [Act.writes]) (by simp [Act.writes]) rfl
      refine ⟨p, id, (AddsAndReturns.prepend ?_ hgiven.leaves).prepend hhanded.leaves⟩
      exact hadds.prepend (leaves_cons.mpr ⟨by simp [Act.writes], leaves_nil⟩)

theorem SecureMapShape.adds {u : KiumdUser} {l : List Act} (h : SecureMapShape u c l (some 0)) :
    ∃ p id, AddsAndReturns c p id l := by
  cases h with
  | early hret _ => exact absurd rfl hret
  | @attached file v page d a entries l' _ _ _ _ _ _ _ hattached =>
      obtain ⟨p, id, hadds⟩ := hattached.adds
      have hattach : Leaves .ctxs [.attach d a] := by simp [Act.writes]
      have hacl : Leaves .ctxs (aclActs u.memParcel.aclList 0 entries) :=
        leaves_of_isAcl aclActs_isAcl
      have hopen : Leaves .ctxs
          [.file u.vfioFd file, .pgd a.dev.domain page, .buffer u.dmaBufFd d] := by
        simp [Act.writes]
      exact ⟨p, id, ((hadds.prepend hattach).prepend hacl).prepend hopen⟩

/-- A successful MMIO_MAP of a platform device adds an entry and returns its id. -/
theorem MmioMapShape.adds {u : KiumdSmmuMmioMap} {ret₀ : Int} {l : List Act}
    (h : MmioMapShape u c ret₀ l (some 0))
    (hplatform : ret₀ = 0 → ∀ dev, .notPlatform dev ∉ l) : ∃ p id, AddsAndReturns c p id l := by
  cases h with
  | early hret _ => exact absurd rfl hret
  | @notPlatform file p dev => exact absurd (by simp) (hplatform rfl dev)
  | @mapped file v dev p m addr size l' _ _ _ hresource =>
  cases hresource with
  | refused hret | retracted hret => exact absurd rfl hret
  | @done iova id =>
      have hfix : Leaves .ctxs (fixCookie u dev.domain) := by
        unfold fixCookie
        split <;> simp [Act.writes]
      have hfree : Leaves .ctxs (freeCookie u dev.domain) := by
        unfold freeCookie
        split <;> simp [Act.writes]
      have hadds : AddsAndReturns c p id (freeCookie u dev.domain ++
          .addMmio c p m ⟨dev, iova, size⟩ id :: ([] ++
            [.reply (.mmio { u with id := id, iova := iova, regLen := size }) true])) :=
        .intro (by simp [Act.draws]) hfree leaves_nil rfl
      have hresource : Leaves .ctxs [.mapResource dev addr size iova] := by simp [Act.writes]
      have hopen : Leaves .ctxs [.file u.vfioFd file, .alloc p] := by simp [Act.writes]
      exact ⟨p, id, ((hadds.prepend hresource).prepend hfix).prepend hopen⟩

/-- The effect of an action that adds an entry. -/
theorem draws_step {β : Type} {request : KCall β} {answer : β} {act : Act}
    (hact : request.act answer = some act) (hdraws : act.draws c = some (p, id))
    (hstep : kernelStep request w answer = some w') :
    id = (w.ctxs c).id ∧ w'.ctxs c =
      { w.ctxs c with id := (w.ctxs c).id + 1, smmuTable := p :: (w.ctxs c).smmuTable } := by
  have hadds {c' p' : Nat} {id' : U32}
      (heq : (if c' = c then some (p', id') else none) = some (p, id)) :
      c' = c ∧ p' = p ∧ id' = id := by
    split at heq <;> cases heq
    exact ⟨‹_›, rfl, rfl⟩
  cases request with
  | smmuAdd c' p' data | smmuAddMmio c' p' m mmio =>
      cases hact
      obtain ⟨rfl, rfl, rfl⟩ := hadds hdraws
      simp only [kernelStep] at hstep
      split at hstep <;> cases hstep
      exact ⟨‹_›, by simp⟩
  | copyStructFromUser | fget | pgtblTtbr | dmaBufGet | dmaBufAttach | dmaBufMapAttachment
  | kzallocSmap | devIsPlatform =>
      cases answer <;> cases hact
      cases hdraws
  | dmaMapSgtable | dmaMapResource =>
      simp only [KCall.act] at hact
      split at hact <;> cases hact
      cases hdraws
  | _ =>
      cases hact
      try cases hdraws

/-- An ioctl that adds one entry returns the value of the counter. -/
theorem AddsAndReturns.steps (h : AddsAndReturns c p id (acts trace))
    (hsteps : Steps kernel w trace w') :
    returnedId trace = some id ∧ id = (w.ctxs c).id ∧ Draws c trace ∧ w'.ctxs c =
      { w.ctxs c with id := (w.ctxs c).id + 1, smmuTable := p :: (w.ctxs c).smmuTable } := by
  generalize hacts : acts trace = l at h
  cases h with
  | @intro before after act reply hdraws hbefore hafter hreply =>
  obtain ⟨first, ⟨request, answer⟩, rest, rfl, rfl, hview, hrest⟩ := Observer.exists_event hacts
  obtain ⟨w₁, hfirst, hsecond⟩ := steps_append_iff.mp hsteps
  obtain ⟨w₂, hstep, hthird⟩ := steps_cons_iff.mp hsecond
  have hctxs₁ : w.Agrees w₁ .ctxs := steps_agrees rfl hfirst hbefore
  have hreplies : Field.ctxs ∉ reply.writes := by
    cases reply <;> first | cases hreply | simp [Act.writes]
  have hctxs₂ : w₂.Agrees w' .ctxs := by
    refine steps_agrees rfl hthird ?_
    rw [acts, hrest]
    exact leaves_append.mpr ⟨hafter, leaves_cons.mpr ⟨hreplies, leaves_nil⟩⟩
  obtain ⟨hid, hadded⟩ := draws_step hview hdraws hstep
  rw [show w₁.ctxs = w.ctxs from hctxs₁] at hid hadded
  refine ⟨?_, hid, ⟨act, ?_, by rw [hdraws]; rfl⟩, ?_⟩
  · rw [returnedId, hacts, ← List.cons_append, ← List.append_assoc, List.filterMap_append]
    simp [hreply]
  · rw [hacts]
    exact List.mem_append_right _ List.mem_cons_self
  · rw [show w'.ctxs = w₂.ctxs from hctxs₂, hadded]

/-! ## Every request -/

/-- The requests that add an entry. -/
def Request.isMap : Request → Bool
  | .mapBuf _ | .secureMap _ | .mmioMap _ _ => true
  | .unmapBuf _ | .secureUnmap _ | .mmioUnmap _ => false

/-- The test by which the unmap request of the same kind looks for an id. -/
def Request.finds : Request → U32 → SmmuMapData → Bool
  | .mmioMap _ _, id | .mmioUnmap _, id => fun s => s.id == id && s.context.isSome
  | _, id => (·.id == id)

/-- The request returned an id that is not negative and that no entry had, and by which the unmap
of the same kind finds exactly the entry that was added. -/
def ReturnsNewId (i : Ioctl) (w : World) (trace : List (Event KCall)) (w' : World) : Prop :=
  ∃ id p, returnedId trace = some id ∧ 0 ≤ id.toInt ∧
    (∀ q ∈ w.table i.ctx, (w.smaps q).id ≠ id) ∧ w'.table i.ctx = p :: w.table i.ctx ∧
    (∀ q ∈ w'.table i.ctx, (w'.smaps q).id = id ↔ q = p) ∧
    w'.find i.ctx (i.request.finds id) = some p

/-- The request draws no negative id, and an MMIO_MAP for a device that is not a platform device
does not return `0` by chance. -/
def IdsLeft : Admission Ioctl KCall World := fun _ i w trace =>
  (Draws i.ctx trace → 0 ≤ (w.ctxs i.ctx).id.toInt) ∧
    ∀ ret₀ kiusr, i.request = .mmioMap ret₀ kiusr → ret₀ = 0 → ∀ dev, .notPlatform dev ∉ acts trace

variable {w₀ : World} {history : History Ioctl KCall} {i : Ioctl}

theorem run_idsBelow (hstart : w₀.Fresh) (h : Run kernel kiumdIoctl IdsLeft w₀ history w) :
    Backed noNeeds w 0 ∧ IdsBelow w := by
  induction h with
  | start => exact ⟨hstart.backed, fun c p hp => by simp [hstart.table_nil c] at hp⟩
  | request _ hexec hok ih =>
      obtain ⟨hb, hids⟩ := ih
      exact ⟨wp_exec (kiumdIoctl_keeps _ hb) hexec, kiumdIoctl_idsBelow hids hb hexec hok.1⟩

/-- What the outcome of an ioctl that adds a buffer says of the entry added. -/
theorem AddOutcome.newEntry {kind : SmmuMapData → Attachment → Prop} (hb : Backed noNeeds w 0)
    (h : AddOutcome w c kind trace w') (htable : w'.table c = p :: w.table c) :
    (w'.smaps p).id = (w.ctxs c).id ∧ ∀ q ∈ w.table c, q ≠ p ∧ w'.smaps q = w.smaps q := by
  have hpublished {p' : Nat} {data : SmmuMapData} {x : Multiset Resource}
      (fresh : .smap p' ∉ w.held) (hframe : Frame (w.publish c p' data) w' x) :
      (w'.smaps p).id = (w.ctxs c).id ∧ ∀ q ∈ w.table c, q ≠ p ∧ w'.smaps q = w.smaps q := by
    have hp : p' = p := by
      have hcons : w'.table c = p' :: w.table c := by
        rw [World.table, hframe.ctxs]
        simp [World.publish, World.table]
      rw [htable] at hcons
      exact (List.cons_eq_cons.mp hcons).1.symm
    subst hp
    refine ⟨?_, fun q hq => ?_⟩
    · rw [hframe.smaps p' (Multiset.mem_cons_self _ _)]
      simp [World.publish]
    · have hlive := hb.smap_mem hq
      have hne : q ≠ p' := by
        rintro rfl
        exact fresh hlive
      refine ⟨hne, ?_⟩
      rw [hframe.smaps q (Multiset.mem_cons_of_mem hlive)]
      simp [World.publish, hne]
  cases h with
  | refused frame =>
      rw [World.table, frame.ctxs] at htable
      exact absurd htable.symm (List.cons_ne_self _ _)
  | published p' d a data fresh _ _ frame => exact hpublished fresh frame
  | stale p' d a data fresh _ _ _ frame => exact hpublished fresh frame

/-- What the outcome of MMIO_MAP says of the entry added. -/
theorem AddMmioOutcome.newEntry (hb : Backed noNeeds w 0) (h : AddMmioOutcome w c w')
    (htable : w'.table c = p :: w.table c) :
    (w'.smaps p).id = (w.ctxs c).id ∧ (w'.smaps p).context.isSome ∧
      ∀ q ∈ w.table c, q ≠ p ∧ w'.smaps q = w.smaps q := by
  cases h with
  | refused frame =>
      rw [World.table, frame.ctxs] at htable
      exact absurd htable.symm (List.cons_ne_self _ _)
  | retracted frame =>
      have hsame : w'.table c = w.table c := by
        rw [← World.table_skipId w c]
        simp [World.table, frame.ctxs]
      rw [hsame] at htable
      exact absurd htable.symm (List.cons_ne_self _ _)
  | published p' m mmio fresh freshMmio frame =>
      have hp : p' = p := by
        have hcons : w'.table c = p' :: w.table c := by
          rw [World.table, frame.ctxs]
          simp [World.publishMmio, World.publish, World.table]
        rw [htable] at hcons
        exact (List.cons_eq_cons.mp hcons).1.symm
      subst hp
      have hsmap : w'.smaps p' = { id := (w.ctxs c).id, context := some m } := by
        rw [frame.smaps p' (by simp [World.publishMmio])]
        simp [World.publishMmio, World.publish]
      refine ⟨by rw [hsmap], by rw [hsmap]; rfl, fun q hq => ?_⟩
      have hlive := hb.smap_mem hq
      have hne : q ≠ p' := by
        rintro rfl
        exact fresh hlive
      refine ⟨hne, ?_⟩
      rw [frame.smaps q (by simp [World.publishMmio, hlive])]
      simp [World.publishMmio, World.publish, hne]

/-- An ioctl that adds one entry with a new id returns a new id. -/
theorem AddsAndReturns.returnsNewId {i : Ioctl} (hids : IdsBelow w)
    (hsteps : Steps kernel w trace w') (hadds : AddsAndReturns i.ctx p id (acts trace))
    (hnonneg : Draws i.ctx trace → 0 ≤ (w.ctxs i.ctx).id.toInt)
    (hnew : w'.table i.ctx = p :: w.table i.ctx → (w'.smaps p).id = (w.ctxs i.ctx).id ∧
      ∀ q ∈ w.table i.ctx, q ≠ p ∧ w'.smaps q = w.smaps q)
    (hfinds : w'.table i.ctx = p :: w.table i.ctx → (w'.smaps p).id = id →
      i.request.finds id (w'.smaps p) = true) :
    ReturnsNewId i w trace w' := by
  obtain ⟨hreturned, rfl, hdraws, hctxs⟩ := hadds.steps hsteps
  have htable : w'.table i.ctx = p :: w.table i.ctx := by
    rw [World.table, hctxs]
    rfl
  obtain ⟨hp, hothers⟩ := hnew htable
  have hother : ∀ q ∈ w.table i.ctx, (w.smaps q).id ≠ (w.ctxs i.ctx).id := fun q hq heq =>
    BitVec.lt_irrefl _ (heq ▸ hids i.ctx q hq)
  refine ⟨_, p, hreturned, hnonneg hdraws, hother, htable, ?_, ?_⟩
  · intro q hq
    rw [htable] at hq
    rcases List.mem_cons.mp hq with rfl | hq
    · simp [hp]
    · obtain ⟨hne, hsmaps⟩ := hothers q hq
      simp [hsmaps, hother q hq, hne]
  · have hfirst := hfinds htable hp
    rw [World.find, show (w'.ctxs i.ctx).smmuTable = p :: w.table i.ctx from htable]
    exact List.find?_cons_of_pos hfirst

/-- In every run that draws no negative id every map request that succeeds returns a new id. -/
theorem run_map_returns_new_id (hstart : w₀.Fresh)
    (h : Run kernel kiumdIoctl IdsLeft w₀ history w) (hmap : i.request.isMap)
    (hexec : Exec kernel (kiumdIoctl i) w trace (some 0) w') (hok : IdsLeft history i w trace) :
    ReturnsNewId i w trace w' := by
  obtain ⟨hb, hids⟩ := run_idsBelow hstart h
  have hsteps := hexec.steps
  obtain ⟨c, request⟩ := i
  cases request with
  | mapBuf kiusr =>
      have hshape := kiumdDmabufVfioMap_shows.exec driver_admits hexec
      obtain ⟨p, id, hadds⟩ := MapShape.adds hshape
      have houtcome := wp_exec kiumdDmabufVfioMap_adds hexec
      exact hadds.returnsNewId hids hsteps hok.1 (houtcome.newEntry hb) fun _ hid => by
        simp [Request.finds, hid]
  | secureMap kiusr =>
      have hshape := kiumdDmabufVfioSecureMap_shows.exec driver_admits hexec
      obtain ⟨p, id, hadds⟩ := SecureMapShape.adds hshape
      have houtcome := wp_exec kiumdDmabufVfioSecureMap_adds hexec
      exact hadds.returnsNewId hids hsteps hok.1 (houtcome.newEntry hb) fun _ hid => by
        simp [Request.finds, hid]
  | mmioMap ret₀ kiusr =>
      have hshape := kiumdMmioSmmuMap_shows.exec driver_admits hexec
      obtain ⟨p, id, hadds⟩ := MmioMapShape.adds hshape (hok.2 ret₀ kiusr rfl)
      have houtcome : AddMmioOutcome w c w' := wp_exec kiumdMmioSmmuMap_adds hexec
      refine hadds.returnsNewId hids hsteps hok.1 ?_ ?_
      · intro htable
        obtain ⟨hid, _, hothers⟩ := houtcome.newEntry hb htable
        exact ⟨hid, hothers⟩
      · intro htable hid
        obtain ⟨_, hcontext, _⟩ := houtcome.newEntry hb htable
        simp [Request.finds, hid, hcontext]
  | unmapBuf | secureUnmap | mmioUnmap => cases hmap

/-- A run of one request. -/
theorem run_map_returns_new_id_map : ∃ trace w',
    Exec kernel (kiumdIoctl ⟨0, .mapBuf plainUser⟩) World.initial trace (some 0) w' ∧
      ReturnsNewId ⟨0, .mapBuf plainUser⟩ World.initial trace w' := by
  have hcheck : (kiumdIoctl ⟨0, .mapBuf plainUser⟩).check kernel
      (Answers.plain fun _ _ => false).choose .initial (fun _ value _ => decide (value = 0)) =
        true := by
    decide +kernel
  obtain ⟨trace, value, w', hexec, htest⟩ := Program.check_exec hcheck
  obtain rfl : value = 0 := of_decide_eq_true htest
  have hok : IdsLeft [] ⟨0, .mapBuf plainUser⟩ World.initial trace :=
    ⟨fun _ => by decide, fun _ _ h => nomatch h⟩
  exact ⟨trace, w', hexec, run_map_returns_new_id fresh_initial .start rfl hexec hok⟩

/-! ## Negative ids -/

/-- An ordinary request to map a region. -/
def plainMmio : KiumdSmmuMmioMap where
  fixedIova := 0
  vfioFd := 3
  id := 0
  iova := 0
  regLen := 0
  regName := 0

def plainFile : File := ⟨0, some (some ⟨0, some ⟨0, 0⟩⟩)⟩

/-- The calls of the plain request up to the publication of its entry. -/
def plainMmioCalls : List (Event KCall) :=
  [⟨.copyFromUser (.mmio plainMmio), true⟩, ⟨.fget 3, some plainFile⟩,
    ⟨.vfioFileIsValid plainFile, true⟩, ⟨.fput plainFile, ()⟩,
    ⟨.iommuGetDmaDomain ⟨0, 0⟩, some 0⟩, ⟨.iovaCookie 0, true⟩, ⟨.smmuScanMmio 0 false 0, false⟩,
    ⟨.kzallocSmap, some 0⟩, ⟨.kzallocMmioCtx, some 0⟩, ⟨.strndupUser 0, some 0⟩,
    ⟨.devIsPlatform ⟨0, 0⟩, true⟩, ⟨.platformGetResourceByname ⟨0, 0⟩ 0, some (0x8000, 0x8FFF)⟩,
    ⟨.dmaMapResource ⟨0, 0⟩ 0x8000 0x1000, 0x8000⟩]

/-- The state after these calls when nothing was held before. -/
def World.plainMmioMapped (w : World) : World :=
  { w with
    smaps := Function.update w.smaps 0 {}
    held := {.resource ⟨0, 0⟩ 0x8000 0x1000, .heap 0, .mmioCtx 0, .smap 0} }

theorem plainMmio_exec {w w' : World} {trace : List (Event KCall)} {result : Option Int}
    (hheld : w.held = 0)
    (hexec : Exec kernel (mmioPublish plainMmio 0 0 0 0 ⟨0, 0⟩ 0x8000 0x1000) w.plainMmioMapped
      trace
      result w') :
    Exec kernel (kiumdIoctl ⟨0, .mmioMap 0 plainMmio⟩) w (plainMmioCalls ++ trace) result w' := by
  have hfput : (w.hold (.file plainFile)).release (.file plainFile) = w := by
    simp [World.hold, World.release]
  refine .call rfl (.call rfl (.call rfl (.call (congrArg some hfput) ?_)))
  refine .call rfl (.call rfl (.call rfl ?_))
  refine .call (show (if .smap 0 ∈ w.held then none else _) = some _ from
    if_neg (by simp [hheld])) ?_
  refine .call (show (if .mmioCtx 0 ∈ .smap 0 ::ₘ w.held then none else _) = some _ from
    if_neg (by simp [hheld])) ?_
  refine .call (show (if .heap 0 ∈ .mmioCtx 0 ::ₘ .smap 0 ::ₘ w.held then none else _) = some _ from
    if_neg (by simp [hheld])) ?_
  refine .call rfl (.call rfl ?_)
  refine .call rfl ?_
  have hmapped : w.plainMmioMapped = { w with
      smaps := Function.update w.smaps 0 {}
      held :=
        .resource ⟨0, 0⟩ 0x8000 0x1000 ::ₘ .heap 0 ::ₘ .mmioCtx 0 ::ₘ .smap 0 ::ₘ w.held } := by
    rw [hheld]
    rfl
  rw [hmapped] at hexec
  exact hexec

/-- A reply that cannot be copied costs an id. -/
theorem plainMmio_skips {w : World} (hheld : w.held = 0) (htable : w.table 0 = []) :
    ∃ trace w', Exec kernel (kiumdIoctl ⟨0, .mmioMap 0 plainMmio⟩) w trace (some (-EFAULT)) w' ∧
      w'.held = 0 ∧ w'.table 0 = [] ∧ (w'.ctxs 0).id = (w.ctxs 0).id + 1 := by
  have hexec : Exec kernel (mmioPublish plainMmio 0 0 0 0 ⟨0, 0⟩ 0x8000 0x1000) w.plainMmioMapped
      [⟨.smmuAddMmio 0 0 0 ⟨⟨0, 0⟩, 0x8000, 0x1000⟩, (w.ctxs 0).id⟩, ⟨.copyToUser (.mmio
        { plainMmio with id := (w.ctxs 0).id, iova := 0x8000, regLen := 0x1000 }), false⟩,
        ⟨.dmaUnmapResource ⟨0, 0⟩ 0x8000 0x1000, ()⟩, ⟨.hashDel 0 0, ()⟩, ⟨.kfree 0, ()⟩,
        ⟨.kfreeMmioCtx 0, ()⟩, ⟨.kfreeSmap 0, ()⟩] (some (-EFAULT)) _ :=
    .call (show (if _ = _ then _ else _) = some _ from if_pos rfl)
      (.call rfl (.call rfl (.call rfl (.call rfl (.call rfl (.call rfl (.ret _ _)))))))
  refine ⟨_, _, plainMmio_exec hheld hexec, ?_, ?_, ?_⟩
  · simp [World.plainMmioMapped]
  · simp [World.table, World.plainMmioMapped, World.setCtx]
    exact htable
  · simp [World.plainMmioMapped]

/-- A copied reply returns the counter. -/
theorem plainMmio_returns {w : World} (hheld : w.held = 0) :
    ∃ trace w', Exec kernel (kiumdIoctl ⟨0, .mmioMap 0 plainMmio⟩) w trace (some 0) w' ∧
      returnedId trace = some (w.ctxs 0).id := by
  have hexec : Exec kernel (mmioPublish plainMmio 0 0 0 0 ⟨0, 0⟩ 0x8000 0x1000) w.plainMmioMapped
      [⟨.smmuAddMmio 0 0 0 ⟨⟨0, 0⟩, 0x8000, 0x1000⟩, (w.ctxs 0).id⟩, ⟨.copyToUser (.mmio
        { plainMmio with id := (w.ctxs 0).id, iova := 0x8000, regLen := 0x1000 }), true⟩,
        ⟨.kfree 0, ()⟩] (some 0) _ :=
    .call (show (if _ = _ then _ else _) = some _ from if_pos rfl)
      (.call rfl (.call rfl (.ret _ _)))
  exact ⟨_, _, plainMmio_exec hheld hexec, rfl⟩

/-- Any number of ids can be drawn. -/
theorem draw_ids (n : Nat) : ∃ history w, Run kernel kiumdIoctl .any World.initial history w ∧
    w.held = 0 ∧ w.table 0 = [] ∧ (w.ctxs 0).id = BitVec.ofNat 32 n := by
  induction n with
  | zero => exact ⟨[], World.initial, .start, rfl, rfl, rfl⟩
  | succ n ih =>
      obtain ⟨history, w, hrun, hheld, htable, hid⟩ := ih
      obtain ⟨trace, w', hexec, hheld', htable', hid'⟩ := plainMmio_skips hheld htable
      refine ⟨_, w', .request hrun hexec trivial, hheld', htable', ?_⟩
      rw [hid', hid, BitVec.ofNat_add]
      rfl

/-- After `2 ^ 31` ids a request that succeeds returns a negative one. -/
theorem map_returns_negative_id : ∃ history w i trace w',
    Run kernel kiumdIoctl .any World.initial history w ∧ i.request.isMap ∧
      Exec kernel (kiumdIoctl i) w trace (some 0) w' ∧ ¬ ReturnsNewId i w trace w' := by
  obtain ⟨history, w, hrun, hheld, htable, hid⟩ := draw_ids (2 ^ 31)
  obtain ⟨trace, w', hexec, hreturned⟩ := plainMmio_returns hheld
  refine ⟨history, w, _, trace, w', hrun, rfl, hexec, ?_⟩
  rintro ⟨id, p, hid', hnonneg, _⟩
  rw [hreturned, hid] at hid'
  cases hid'
  exact absurd hnonneg (by decide)

end SafeLinux.Kiumd
