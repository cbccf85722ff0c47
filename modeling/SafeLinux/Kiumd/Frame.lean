import SafeLinux.Kiumd.Device
import Mathlib.Algebra.Order.Group.Multiset

/-!
# What a stretch of driver code leaves unchanged

`Frame b w x` says that the state `w` differs from `b` only in things the tables do not depend on
and that the driver holds `x` on top of what it held in `b`. The rules below carry a frame through
the calls: `wp_quiet` through those that touch none of this, `wp_give` through those that give back
something of `x`, `wp_surrender` through those that give back something of `b`, and one rule for
each call that acquires something and each critical section that changes a table.
-/

namespace SafeLinux.Kiumd

open Effects
open Effects.Program (perform)

/-! ## Changes of the tables -/

namespace World

/-- Publish the entry `p` in the table of the context `c`. -/
def publish (w : World) (c p : Nat) (data : SmmuMapData) : World :=
  { w.setCtx c (fun k => { k with id := k.id + 1, smmuTable := p :: k.smmuTable }) with
    smaps := Function.update w.smaps p { data with id := (w.ctxs c).id }
    held := .smap p ::ₘ w.held }

/-- Publish the entry `p` of an MMIO mapping. -/
def publishMmio (w : World) (c p m : Nat) (mmio : KiumdSmmuMmioCtx) : World :=
  { w.publish c p { context := some m } with
    mmioCtxs := Function.update w.mmioCtxs m mmio
    held := .mmioCtx m ::ₘ .smap p ::ₘ w.held }

/-- Take the entry `p` out of the table of the context `c`. -/
def unlink (w : World) (c p : Nat) : World :=
  w.setCtx c fun k => { k with smmuTable := k.smmuTable.erase p }

/-- Delete the entry `p` from the table of the context `c` and free it. -/
def delete (w : World) (c p : Nat) : World :=
  (w.unlink c p).release (.smap p)

/-- Count an id of the context `c` without an entry. -/
def skipId (w : World) (c : Nat) : World :=
  w.setCtx c fun k => { k with id := k.id + 1 }

@[simp] theorem hold_ctxs (w : World) (r : Resource) : (w.hold r).ctxs = w.ctxs := rfl
@[simp] theorem hold_smaps (w : World) (r : Resource) : (w.hold r).smaps = w.smaps := rfl
@[simp] theorem hold_mmioCtxs (w : World) (r : Resource) : (w.hold r).mmioCtxs = w.mmioCtxs := rfl
@[simp] theorem hold_held (w : World) (r : Resource) : (w.hold r).held = r ::ₘ w.held := rfl
@[simp] theorem release_ctxs (w : World) (r : Resource) : (w.release r).ctxs = w.ctxs := rfl
@[simp] theorem release_smaps (w : World) (r : Resource) : (w.release r).smaps = w.smaps := rfl
@[simp] theorem release_mmioCtxs (w : World) (r : Resource) :
    (w.release r).mmioCtxs = w.mmioCtxs := rfl
@[simp] theorem release_held (w : World) (r : Resource) :
    (w.release r).held = w.held.erase r := rfl
@[simp] theorem setCtx_smaps (w : World) (c : Nat) (f : KiumdCtx → KiumdCtx) :
    (w.setCtx c f).smaps = w.smaps := rfl
@[simp] theorem setCtx_mmioCtxs (w : World) (c : Nat) (f : KiumdCtx → KiumdCtx) :
    (w.setCtx c f).mmioCtxs = w.mmioCtxs := rfl
@[simp] theorem setCtx_held (w : World) (c : Nat) (f : KiumdCtx → KiumdCtx) :
    (w.setCtx c f).held = w.held := rfl
@[simp] theorem setCtx_ctxs_self (w : World) (c : Nat) (f : KiumdCtx → KiumdCtx) :
    (w.setCtx c f).ctxs c = f (w.ctxs c) := by simp [setCtx]

end World

/-- The state `w` has the tables of `b` and holds `x` more than `b`. -/
structure Frame (b w : World) (x : Multiset Resource) : Prop where
  ctxs : w.ctxs = b.ctxs
  smaps : ∀ p, .smap p ∈ b.held → w.smaps p = b.smaps p
  mmioCtxs : ∀ m, .mmioCtx m ∈ b.held → w.mmioCtxs m = b.mmioCtxs m
  held : b.held + x ≤ w.held

variable {b w : World} {x : Multiset Resource} {r : Resource} {α β : Type}

namespace Frame

theorem refl (w : World) : Frame w w 0 :=
  ⟨rfl, fun _ _ => rfl, fun _ _ => rfl, by simp⟩

theorem mem (h : Frame b w x) (hr : r ∈ b.held) : r ∈ w.held :=
  Multiset.mem_of_le h.held (Multiset.mem_add.mpr (.inl hr))

theorem mem_extra (h : Frame b w x) (hr : r ∈ x) : r ∈ w.held :=
  Multiset.mem_of_le h.held (Multiset.mem_add.mpr (.inr hr))

theorem weaken {y : Multiset Resource} (h : Frame b w x) (hle : y ≤ x) : Frame b w y :=
  { h with held := le_trans (add_le_add le_rfl hle) h.held }

theorem drop (h : Frame b w (r ::ₘ x)) : Frame b w x :=
  h.weaken (Multiset.le_cons_self _ _)

theorem swap {r' : Resource} (h : Frame b w (r ::ₘ r' ::ₘ x)) : Frame b w (r' ::ₘ r ::ₘ x) := by
  rwa [Multiset.cons_swap]

theorem trans {w' : World} (h : Frame b w 0) (h' : Frame w w' x) : Frame b w' x where
  ctxs := h'.ctxs.trans h.ctxs
  smaps p hp := (h'.smaps p (h.mem hp)).trans (h.smaps p hp)
  mmioCtxs m hm := (h'.mmioCtxs m (h.mem hm)).trans (h.mmioCtxs m hm)
  held := le_trans (add_le_add (by simpa using h.held) le_rfl) h'.held

/-- Acquire something. -/
theorem hold {w' : World} (h : Frame b w x) (hctxs : w'.ctxs = w.ctxs)
    (hsmaps : w'.smaps = w.smaps) (hmmio : w'.mmioCtxs = w.mmioCtxs)
    (hheld : w'.held = r ::ₘ w.held) : Frame b w' (r ::ₘ x) where
  ctxs := hctxs.trans h.ctxs
  smaps p hp := by rw [hsmaps, h.smaps p hp]
  mmioCtxs m hm := by rw [hmmio, h.mmioCtxs m hm]
  held := by
    rw [hheld, Multiset.add_cons]
    exact Multiset.cons_le_cons _ h.held

/-- Change nothing the tables depend on. -/
theorem quiet {w' : World} (h : Frame b w x) (hctxs : w'.ctxs = w.ctxs)
    (hsmaps : w'.smaps = w.smaps) (hmmio : w'.mmioCtxs = w.mmioCtxs) (hheld : w'.held = w.held) :
    Frame b w' x where
  ctxs := hctxs.trans h.ctxs
  smaps p hp := by rw [hsmaps, h.smaps p hp]
  mmioCtxs m hm := by rw [hmmio, h.mmioCtxs m hm]
  held := by rw [hheld]; exact h.held

/-- Give back something acquired since `b`. -/
theorem give (h : Frame b w (r ::ₘ x)) : Frame b (w.release r) x :=
  ⟨h.ctxs, h.smaps, h.mmioCtxs, by
    have hle := Multiset.erase_le_erase r h.held
    rwa [Multiset.add_cons, Multiset.erase_cons_head] at hle⟩

/-- Give back something held in `b`. -/
theorem surrender (h : Frame b w x) (hr : r ∉ x) : Frame (b.release r) (w.release r) x where
  ctxs := h.ctxs
  smaps p hp := h.smaps p (Multiset.mem_of_mem_erase hp)
  mmioCtxs m hm := h.mmioCtxs m (Multiset.mem_of_mem_erase hm)
  held := by
    have hle := Multiset.erase_le_erase r h.held
    rwa [Multiset.erase_add_left_neg _ hr] at hle

/-- Allocate an entry. -/
theorem allocSmap {p : Nat} {data : SmmuMapData} (h : Frame b w x) (hp : .smap p ∉ w.held) :
    Frame b { w.hold (.smap p) with smaps := Function.update w.smaps p data }
      (.smap p ::ₘ x) where
  ctxs := h.ctxs
  smaps q hq := by
    have hne : q ≠ p := by
      rintro rfl
      exact hp (h.mem hq)
    simp [Function.update_of_ne hne, h.smaps q hq]
  mmioCtxs := h.mmioCtxs
  held := by
    rw [Multiset.add_cons]
    exact Multiset.cons_le_cons _ h.held

/-- Publish an entry allocated since `b`. -/
theorem publish {c p : Nat} {data : SmmuMapData} (h : Frame b w (.smap p ::ₘ x)) :
    Frame (b.publish c p data)
      { w.setCtx c (fun k => { k with id := k.id + 1, smmuTable := p :: k.smmuTable }) with
        smaps := Function.update w.smaps p { data with id := (w.ctxs c).id } } x where
  ctxs := by simp [World.publish, World.setCtx, h.ctxs]
  smaps q hq := by
    by_cases hqp : q = p
    · subst hqp
      simp [World.publish, h.ctxs]
    · have hq' : .smap q ∈ b.held := by simpa [World.publish, hqp] using hq
      simp [World.publish, hqp, h.smaps q hq']
  mmioCtxs m hm := h.mmioCtxs m (by simpa [World.publish] using hm)
  held := by
    simp only [World.publish, World.setCtx_held, Multiset.cons_add, ← Multiset.add_cons]
    exact h.held

/-- Publish an MMIO entry allocated since `b`. -/
theorem publishMmio {c p m : Nat} {mmio : KiumdSmmuMmioCtx}
    (h : Frame b w (.mmioCtx m ::ₘ .smap p ::ₘ x)) :
    Frame (b.publishMmio c p m mmio)
      { w.setCtx c (fun k => { k with id := k.id + 1, smmuTable := p :: k.smmuTable }) with
        smaps := Function.update w.smaps p { id := (w.ctxs c).id, context := some m }
        mmioCtxs := Function.update w.mmioCtxs m mmio } x where
  ctxs := by simp [World.publishMmio, World.publish, World.setCtx, h.ctxs]
  smaps q hq := by
    by_cases hqp : q = p
    · subst hqp
      simp [World.publishMmio, World.publish, h.ctxs]
    · have hq' : .smap q ∈ b.held := by simpa [World.publishMmio, hqp] using hq
      simp [World.publishMmio, World.publish, hqp, h.smaps q hq']
  mmioCtxs n hn := by
    by_cases hnm : n = m
    · subst hnm
      simp [World.publishMmio]
    · have hn' : .mmioCtx n ∈ b.held := by simpa [World.publishMmio, hnm] using hn
      simp [World.publishMmio, hnm, h.mmioCtxs n hn']
  held := by
    simp only [World.publishMmio, World.setCtx_held, Multiset.cons_add, ← Multiset.add_cons]
    exact h.held

/-- Take an entry of `b` out of its table. -/
theorem unlink {c p : Nat} (h : Frame b w x) : Frame (b.unlink c p) (w.unlink c p) x where
  ctxs := by simp [World.unlink, World.setCtx, h.ctxs]
  smaps := h.smaps
  mmioCtxs := h.mmioCtxs
  held := h.held

/-- Delete an entry of `b`. -/
theorem delete {c p : Nat} (h : Frame b w x) (hp : .smap p ∉ x) :
    Frame (b.delete c p) (w.delete c p) x :=
  h.unlink.surrender hp

end Frame

/-! ## The calls by their effect -/

/-- What a call gives back. -/
def KCall.given : {β : Type} → KCall β → Option Resource
  | _, .kfree p => some (.heap p)
  | _, .kfreeSmap p => some (.smap p)
  | _, .kfreeMmioCtx p => some (.mmioCtx p)
  | _, .fput f => some (.file f)
  | _, .dmaBufPut d => some (.dmabuf d)
  | _, .dmaBufDetach _ a => some (.attachment a)
  | _, .dmaBufUnmapAttachment a t _ => some (.mapping a.dev t)
  | _, .dmaUnmapSgtable dev t _ _ => some (.mapping dev t)
  | _, .dmaUnmapResource dev iova size => some (.resource dev iova size)
  | _, .kfreeCtx c => some (.ctx c)
  | _, .ofNodePut node => some (.node node)
  | _, .kfreeResMem p => some (.resMem p)
  | _, .kfreeHandle p => some (.handle p)
  | _, _ => none

/-- A call that returns, changes no table or entry and neither acquires nor gives back. -/
def KCall.quiet : {β : Type} → KCall β → Bool
  | _, .oops => false
  | _, .strndupUser _ => false
  | _, .kmallocArray => false
  | _, .kzallocSmap => false
  | _, .kzallocMmioCtx => false
  | _, .fget _ => false
  | _, .dmaBufGet _ => false
  | _, .dmaBufAttach _ _ => false
  | _, .dmaBufMapAttachment _ _ => false
  | _, .dmaMapSgtable _ _ _ _ => false
  | _, .dmaMapResource _ _ _ => false
  | _, .ofParsePhandle _ _ => false
  | _, .smmuAdd _ _ _ => false
  | _, .smmuAddMmio _ _ _ _ => false
  | _, .smmuDel _ _ => false
  | _, .smmuDelMmio _ _ => false
  | _, .hashDel _ _ => false
  | _, .setNumReservedRegions _ _ => false
  | _, .kcallocResMem _ => false
  | _, .setResMemArea _ _ => false
  | _, .writeResMem _ _ _ => false
  | _, .xaDestroy _ => false
  | _, request => request.given.isNone

/-- A quiet call changes nothing the tables depend on. -/
theorem quiet_step {request : KCall β} {answer : β} {w' : World} (hquiet : request.quiet = true)
    (hstep : kernelStep request w answer = some w') :
    w'.ctxs = w.ctxs ∧ w'.smaps = w.smaps ∧ w'.mmioCtxs = w.mmioCtxs ∧ w'.held = w.held := by
  cases request with
  | qcomScmAssignMem range src dst =>
      simp only [kernelStep] at hstep
      split at hstep
      · cases hstep
        exact ⟨rfl, rfl, rfl, rfl⟩
      · split at hstep <;> cases hstep
        exact ⟨rfl, rfl, rfl, rfl⟩
  | copyStructFromUser | iommuGetDmaDomain =>
      cases answer <;> simp only [kernelStep] at hstep
      all_goals first
        | (cases hstep; exact ⟨rfl, rfl, rfl, rfl⟩)
        | (split at hstep <;> cases hstep; exact ⟨rfl, rfl, rfl, rfl⟩)
  | _ =>
      first
        | (cases hquiet; done)
        | (cases hstep; exact ⟨rfl, rfl, rfl, rfl⟩)
        | (simp only [kernelStep] at hstep; split at hstep <;> cases hstep
           exact ⟨rfl, rfl, rfl, rfl⟩)

/-- A quiet call keeps a frame. -/
theorem Frame.quiet_step {request : KCall β} {answer : β} {w' : World} (h : Frame b w x)
    (hquiet : request.quiet = true) (hstep : kernelStep request w answer = some w') :
    Frame b w' x := by
  obtain ⟨hctxs, hsmaps, hmmio, hheld⟩ := SafeLinux.Kiumd.quiet_step hquiet hstep
  exact h.quiet hctxs hsmaps hmmio hheld

/-- A call that gives something back removes it from what is held and changes nothing else. -/
theorem given_step {request : KCall β} {answer : β} {w' : World} (hgiven : request.given = some r)
    (hstep : kernelStep request w answer = some w') : w' = w.release r := by
  cases request with
  | kfree | kfreeSmap | kfreeMmioCtx | fput | dmaBufPut | dmaBufDetach | dmaBufUnmapAttachment
  | dmaUnmapSgtable | dmaUnmapResource | kfreeCtx | ofNodePut | kfreeResMem | kfreeHandle =>
      cases hgiven
      cases hstep
      rfl
  | _ => cases hgiven

/-! ## Rules -/

/-- The postcondition of code that returns and keeps a frame. -/
def Keeps (b : World) (x : Multiset Resource) : Post KCall World α :=
  fun _ result w => result.isSome ∧ Frame b w x

variable {Q : Post KCall World α}

/-- The rule for a call that returns. -/
theorem wp_step [Nonempty β] {request : KCall β} {rest : β → KProg α}
    (hnext : ∀ answer w', kernelStep request w answer = some w' →
      wp kernel .any (rest answer) (Q.after [⟨request, answer⟩]) w') :
    wp kernel .any (perform request >>= rest) Q w := by
  simp only [wp_bind, wp_perform, Post.andThen_some, Post.andThen_none]
  exact ⟨trivial, fun hempty => (not_isEmpty_of_nonempty β hempty).elim, hnext⟩

/-- The rule for a dereference of an invalid pointer. -/
theorem wp_oops {rest : Empty → KProg α} (h : Q [] none w) :
    wp kernel .any (perform .oops >>= rest) Q w := by
  simp only [wp_bind, wp_perform, Post.andThen_some, Post.andThen_none]
  exact ⟨trivial, fun _ => h, fun answer => answer.elim⟩

/-- The rule for a quiet call at the end of a program. -/
theorem wp_perform_quiet [Nonempty α] {request : KCall α} (h : Frame b w x)
    (hquiet : request.quiet = true)
    (hQ : ∀ answer trace w', kernelStep request w answer = some w' → Frame b w' x →
      Q trace (some answer) w') :
    wp kernel .any (perform request) Q w := by
  rw [wp_perform]
  refine ⟨trivial, fun hempty => (not_isEmpty_of_nonempty α hempty).elim, ?_⟩
  intro answer w' hstep
  exact hQ answer _ w' hstep (h.quiet_step hquiet hstep)

variable [Q.Stable]

instance (b : World) (x : Multiset Resource) : (Keeps b x : Post KCall World α).Stable :=
  ⟨fun _ _ _ _ h => h⟩

/-- The postcondition of code that returns a value of a kind and keeps a frame. -/
def Yields (b : World) (x : Multiset Resource) (kind : α → Prop) : Post KCall World α :=
  fun _ result w => ∃ value, result = some value ∧ kind value ∧ Frame b w x

instance (b : World) (x : Multiset Resource) (kind : α → Prop) :
    (Yields b x kind : Post KCall World α).Stable :=
  ⟨fun _ _ _ _ h => h⟩

/-- The rule for code that yields a value of a kind. -/
theorem wp_yields {kind : β → Prop} {p : KProg β} {rest : β → KProg α}
    (h : wp kernel .any p (Yields b x kind) w)
    (hnext : ∀ value w', kind value → Frame b w' x → wp kernel .any (rest value) Q w') :
    wp kernel .any (p >>= rest) Q w := by
  rw [wp_bind]
  refine wp_mono h ?_
  rintro trace _ w' ⟨value, rfl, hkind, h'⟩
  exact wp_after (hnext value w' hkind h')

/-- The rule for code that keeps a frame. -/
theorem wp_keeps {p : KProg β} {rest : β → KProg α} (h : wp kernel .any p (Keeps b x) w)
    (hnext : ∀ value w', Frame b w' x → wp kernel .any (rest value) Q w') :
    wp kernel .any (p >>= rest) Q w := by
  rw [wp_bind]
  refine wp_mono h ?_
  rintro trace result w' ⟨hsome, h'⟩
  obtain ⟨value, rfl⟩ := Option.isSome_iff_exists.mp hsome
  exact wp_after (hnext value w' h')

/-- The rule for a quiet call. -/
theorem wp_quiet [Nonempty β] {request : KCall β} {rest : β → KProg α} (h : Frame b w x)
    (hquiet : request.quiet = true)
    (hnext : ∀ answer w', kernelStep request w answer = some w' → Frame b w' x →
      wp kernel .any (rest answer) Q w') :
    wp kernel .any (perform request >>= rest) Q w := by
  refine wp_step ?_
  intro answer w' hstep
  exact wp_after (hnext answer w' hstep (h.quiet_step hquiet hstep))

/-- The rule for giving back something acquired since `b`. -/
theorem wp_give {request : KCall Unit} {rest : Unit → KProg α} (h : Frame b w (r ::ₘ x))
    (hgiven : request.given = some r)
    (hnext : ∀ w', Frame b w' x → wp kernel .any (rest ()) Q w') :
    wp kernel .any (perform request >>= rest) Q w := by
  refine wp_step ?_
  rintro ⟨⟩ w' hstep
  obtain rfl := given_step hgiven hstep
  exact wp_after (hnext _ h.give)

/-- The rule for giving back something held in `b`. -/
theorem wp_surrender {request : KCall Unit} {rest : Unit → KProg α} (h : Frame b w x)
    (hgiven : request.given = some r) (hr : r ∉ x)
    (hnext : ∀ w', Frame (b.release r) w' x → wp kernel .any (rest ()) Q w') :
    wp kernel .any (perform request >>= rest) Q w := by
  refine wp_step ?_
  rintro ⟨⟩ w' hstep
  obtain rfl := given_step hgiven hstep
  exact wp_after (hnext _ (h.surrender hr))

theorem wp_fget {fd : Int} {rest : Option File → KProg α} (h : Frame b w x)
    (hnone : wp kernel .any (rest none) Q w)
    (hsome : ∀ file w', Frame b w' (.file file ::ₘ x) → wp kernel .any (rest (some file)) Q w') :
    wp kernel .any (perform (.fget fd) >>= rest) Q w := by
  refine wp_step ?_
  intro answer w' hstep
  cases answer <;> cases hstep
  · exact wp_after hnone
  · exact wp_after (hsome _ _ (h.hold rfl rfl rfl rfl))

theorem wp_dmaBufGet {fd : Int} {rest : KPtr DmaBuf → KProg α} (h : Frame b w x)
    (hnone : ∀ buffer, (∀ d, buffer ≠ .ptr d) → wp kernel .any (rest buffer) Q w)
    (hsome : ∀ d w', Frame b w' (.dmabuf d ::ₘ x) → wp kernel .any (rest (.ptr d)) Q w') :
    wp kernel .any (perform (.dmaBufGet fd) >>= rest) Q w := by
  refine wp_step ?_
  intro answer w' hstep
  cases answer with
  | null =>
      cases hstep
      exact wp_after (hnone .null fun _ => nofun)
  | err e =>
      simp only [kernelStep] at hstep
      split at hstep <;> cases hstep
      exact wp_after (hnone (.err e) fun _ => nofun)
  | ptr d =>
      cases hstep
      exact wp_after (hsome d _ (h.hold rfl rfl rfl rfl))

theorem wp_dmaBufAttach {d : DmaBuf} {dev : Device} {rest : Except Int Attachment → KProg α}
    (h : Frame b w x) (herror : ∀ e, wp kernel .any (rest (.error e)) Q w)
    (hok : ∀ a w', a.Fits d dev → Frame b w' (.attachment a ::ₘ x) →
      wp kernel .any (rest (.ok a)) Q w') :
    wp kernel .any (perform (.dmaBufAttach d dev) >>= rest) Q w := by
  refine wp_step ?_
  intro answer w' hstep
  cases answer with
  | error e =>
      simp only [kernelStep] at hstep
      split at hstep <;> cases hstep
      exact wp_after (herror e)
  | ok a =>
      simp only [kernelStep] at hstep
      split at hstep
      · rename_i hfits
        cases hstep
        exact wp_after (hok a _ hfits.1 (h.hold rfl rfl rfl rfl))
      · cases hstep

theorem wp_dmaBufMapAttachment {a : Attachment} {dir : Int} {rest : KPtr SgTable → KProg α}
    (h : Frame b w x) (herr : ∀ e, wp kernel .any (rest (.err e)) Q w)
    (hptr : ∀ w', Frame b w' (.mapping a.dev a.table ::ₘ x) →
      wp kernel .any (rest (.ptr a.table)) Q w') :
    wp kernel .any (perform (.dmaBufMapAttachment a dir) >>= rest) Q w := by
  refine wp_step ?_
  intro answer w' hstep
  cases answer with
  | null => cases hstep
  | err e =>
      simp only [kernelStep] at hstep
      split at hstep <;> cases hstep
      exact wp_after (herr e)
  | ptr t =>
      simp only [kernelStep] at hstep
      split at hstep
      · rename_i ht
        cases hstep
        subst ht
        exact wp_after (hptr _ (h.hold rfl rfl rfl rfl))
      · cases hstep

theorem wp_dmaMapSgtable {dev : Device} {t : SgTable} {dir attrs : Int} {rest : Int → KProg α}
    (h : Frame b w x) (hfail : ∀ ret, ret ≠ 0 → wp kernel .any (rest ret) Q w)
    (hok : ∀ w', Frame b w' (.mapping dev t ::ₘ x) → wp kernel .any (rest 0) Q w') :
    wp kernel .any (perform (.dmaMapSgtable dev t dir attrs) >>= rest) Q w := by
  refine wp_step ?_
  intro ret w' hstep
  simp only [kernelStep] at hstep
  by_cases hret : ret = 0
  · rw [if_pos hret] at hstep
    cases hstep
    subst hret
    exact wp_after (hok _ (h.hold rfl rfl rfl rfl))
  · rw [if_neg hret] at hstep
    split at hstep <;> cases hstep
    exact wp_after (hfail ret hret)

theorem wp_dmaMapResource {dev : Device} {addr size : U64} {rest : U64 → KProg α}
    (h : Frame b w x) (hfail : wp kernel .any (rest DMA_MAPPING_ERROR) Q w)
    (hok : ∀ iova w', iova ≠ DMA_MAPPING_ERROR → Frame b w' (.resource dev iova size ::ₘ x) →
      wp kernel .any (rest iova) Q w') :
    wp kernel .any (perform (.dmaMapResource dev addr size) >>= rest) Q w := by
  refine wp_step ?_
  intro iova w' hstep
  simp only [kernelStep] at hstep
  split at hstep
  · rename_i hiova
    cases hstep
    subst hiova
    exact wp_after hfail
  · rename_i hiova
    cases hstep
    exact wp_after (hok iova _ hiova (h.hold rfl rfl rfl rfl))

theorem wp_kmallocArray {rest : Option Nat → KProg α} (h : Frame b w x)
    (hnone : wp kernel .any (rest none) Q w)
    (hsome : ∀ p w', Frame b w' (.heap p ::ₘ x) → wp kernel .any (rest (some p)) Q w') :
    wp kernel .any (perform .kmallocArray >>= rest) Q w := by
  refine wp_step ?_
  intro answer w' hstep
  cases answer with
  | none =>
      cases hstep
      exact wp_after hnone
  | some p =>
      simp only [kernelStep] at hstep
      split at hstep <;> cases hstep
      exact wp_after (hsome p _ (h.hold rfl rfl rfl rfl))

theorem wp_strndupUser {name : Nat} {rest : Option Nat → KProg α} (h : Frame b w x)
    (hnone : wp kernel .any (rest none) Q w)
    (hsome : ∀ p w', Frame b w' (.heap p ::ₘ x) → wp kernel .any (rest (some p)) Q w') :
    wp kernel .any (perform (.strndupUser name) >>= rest) Q w := by
  refine wp_step ?_
  intro answer w' hstep
  cases answer with
  | none =>
      cases hstep
      exact wp_after hnone
  | some p =>
      simp only [kernelStep] at hstep
      split at hstep <;> cases hstep
      exact wp_after (hsome p _ (h.hold rfl rfl rfl rfl))

theorem wp_kzallocMmioCtx {rest : Option Nat → KProg α} (h : Frame b w x)
    (hnone : wp kernel .any (rest none) Q w)
    (hsome : ∀ m w', .mmioCtx m ∉ b.held → Frame b w' (.mmioCtx m ::ₘ x) →
      wp kernel .any (rest (some m)) Q w') :
    wp kernel .any (perform .kzallocMmioCtx >>= rest) Q w := by
  refine wp_step ?_
  intro answer w' hstep
  cases answer with
  | none =>
      cases hstep
      exact wp_after hnone
  | some m =>
      simp only [kernelStep] at hstep
      split at hstep <;> cases hstep
      rename_i hm
      exact wp_after (hsome m _ (fun hmem => hm (h.mem hmem)) (h.hold rfl rfl rfl rfl))

theorem wp_kzallocSmap {rest : Option Nat → KProg α} (h : Frame b w x)
    (hnone : wp kernel .any (rest none) Q w)
    (hsome : ∀ p w', .smap p ∉ b.held → Frame b w' (.smap p ::ₘ x) →
      wp kernel .any (rest (some p)) Q w') :
    wp kernel .any (perform .kzallocSmap >>= rest) Q w := by
  refine wp_step ?_
  intro answer w' hstep
  cases answer with
  | none =>
      cases hstep
      exact wp_after hnone
  | some p =>
      simp only [kernelStep] at hstep
      split at hstep
      · cases hstep
      · rename_i hp
        cases hstep
        exact wp_after (hsome p _ (fun hmem => hp (h.mem hmem)) (h.allocSmap hp))

theorem wp_smmuAdd {c p : Nat} {data : SmmuMapData} {rest : U32 → KProg α}
    (h : Frame b w (.smap p ::ₘ x))
    (hnext : ∀ id w', Frame (b.publish c p data) w' x → wp kernel .any (rest id) Q w') :
    wp kernel .any (perform (.smmuAdd c p data) >>= rest) Q w := by
  refine wp_step ?_
  intro id w' hstep
  simp only [kernelStep] at hstep
  split at hstep
  · rename_i hid
    cases hstep
    subst hid
    exact wp_after (hnext _ _ h.publish)
  · cases hstep

theorem wp_smmuAddMmio {c p m : Nat} {mmio : KiumdSmmuMmioCtx} {rest : U32 → KProg α}
    (h : Frame b w (.mmioCtx m ::ₘ .smap p ::ₘ x))
    (hnext : ∀ id w', Frame (b.publishMmio c p m mmio) w' x → wp kernel .any (rest id) Q w') :
    wp kernel .any (perform (.smmuAddMmio c p m mmio) >>= rest) Q w := by
  refine wp_step ?_
  intro id w' hstep
  simp only [kernelStep] at hstep
  split at hstep
  · rename_i hid
    cases hstep
    subst hid
    exact wp_after (hnext _ _ h.publishMmio)
  · cases hstep

theorem wp_smmuDel {c p : Nat} {rest : Unit → KProg α} (h : Frame b w x) (hp : .smap p ∉ x)
    (hnext : ∀ w', Frame (b.delete c p) w' x → wp kernel .any (rest ()) Q w') :
    wp kernel .any (perform (.smmuDel c p) >>= rest) Q w := by
  refine wp_step ?_
  rintro ⟨⟩ w' hstep
  cases hstep
  exact wp_after (hnext _ (h.delete hp))

theorem wp_smmuDelMmio {c p m : Nat} {rest : Unit → KProg α} (h : Frame b w x)
    (hlive : .smap p ∈ b.held) (hcontext : (b.smaps p).context = some m) (hp : .smap p ∉ x)
    (hm : .mmioCtx m ∉ x)
    (hnext : ∀ w', Frame ((b.release (.mmioCtx m)).delete c p) w' x →
      wp kernel .any (rest ()) Q w') :
    wp kernel .any (perform (.smmuDelMmio c p) >>= rest) Q w := by
  refine wp_step ?_
  rintro ⟨⟩ w' hstep
  simp only [kernelStep, h.smaps p hlive, hcontext] at hstep
  cases hstep
  exact wp_after (hnext _ ((h.surrender hm).delete hp))

theorem wp_hashDel {c p : Nat} {rest : Unit → KProg α} (h : Frame b w x)
    (hnext : ∀ w', Frame (b.unlink c p) w' x → wp kernel .any (rest ()) Q w') :
    wp kernel .any (perform (.hashDel c p) >>= rest) Q w := by
  refine wp_step ?_
  rintro ⟨⟩ w' hstep
  cases hstep
  exact wp_after (hnext _ h.unlink)

/-- The rule for reading an entry of the table. -/
theorem wp_readSmap {p : Nat} {rest : SmmuMapData → KProg α} (h : Frame b w x)
    (hp : .smap p ∈ b.held) (hnext : wp kernel .any (rest (b.smaps p)) Q w) :
    wp kernel .any (perform (.readSmap p) >>= rest) Q w := by
  refine wp_step ?_
  intro data w' hstep
  simp only [kernelStep] at hstep
  split at hstep
  · rename_i hdata
    cases hstep
    rw [hdata (h.mem hp), h.smaps p hp]
    exact wp_after hnext
  · cases hstep

/-- The rule for reading the context of an MMIO entry. -/
theorem wp_readMmioCtx {m : Nat} {rest : KiumdSmmuMmioCtx → KProg α} (h : Frame b w x)
    (hm : .mmioCtx m ∈ b.held) (hnext : wp kernel .any (rest (b.mmioCtxs m)) Q w) :
    wp kernel .any (perform (.readMmioCtx m) >>= rest) Q w := by
  refine wp_step ?_
  intro mmio w' hstep
  simp only [kernelStep] at hstep
  split at hstep
  · rename_i hmmio
    cases hstep
    rw [hmmio (h.mem hm), h.mmioCtxs m hm]
    exact wp_after hnext
  · cases hstep

/-! ## Devices and cookies -/

theorem vfioDeviceOf_keeps {file : File} (h : Frame b w (.file file ::ₘ x)) :
    wp kernel .any (vfioDeviceOf file) (Keeps b x) w := by
  refine wp_quiet h rfl ?_
  intro valid w₁ _ h₁
  split
  · refine wp_give h₁ rfl ?_
    intro w₂ h₂
    exact wp_pure.mpr ⟨rfl, h₂⟩
  split <;>
  · refine wp_give h₁ rfl ?_
    intro w₂ h₂
    exact wp_pure.mpr ⟨rfl, h₂⟩

theorem kiumdGetVfioDevice_keeps {fd : Int} (h : Frame b w x) :
    wp kernel .any (kiumdGetVfioDevice fd) (Keeps b x) w := by
  unfold kiumdGetVfioDevice
  split
  · exact wp_pure.mpr ⟨rfl, h⟩
  · refine wp_fget h (wp_pure.mpr ⟨rfl, h⟩) ?_
    intro file w₁ h₁
    exact vfioDeviceOf_keeps h₁

theorem kiumdGetDmaCookie_keeps {vfioDev : Option VfioDevice} (h : Frame b w x) :
    wp kernel .any (kiumdGetDmaCookie vfioDev) (Keeps b x) w := by
  unfold kiumdGetDmaCookie
  split
  · split
    · refine wp_quiet h rfl ?_
      intro domain w₁ _ h₁
      split
      · refine wp_quiet h₁ rfl ?_
        intro cookie w₂ _ h₂
        split <;> exact wp_pure.mpr ⟨rfl, h₂⟩
      · exact wp_pure.mpr ⟨rfl, h₁⟩
    · exact wp_pure.mpr ⟨rfl, h⟩
  · exact wp_pure.mpr ⟨rfl, h⟩

theorem kiumdSetDmaCookie_keeps {cookie : Option Domain} {type : IommuDmaCookieType} {iova : U64}
    (h : Frame b w x) : wp kernel .any (kiumdSetDmaCookie cookie type iova) (Keeps b x) w := by
  unfold kiumdSetDmaCookie
  split
  · refine wp_quiet h rfl ?_
    intro _ w₁ _ h₁
    exact wp_pure.mpr ⟨rfl, h₁⟩
  · exact wp_pure.mpr ⟨rfl, h⟩

end SafeLinux.Kiumd
