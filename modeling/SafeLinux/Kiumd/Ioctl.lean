import SafeLinux.Kiumd.Answers
import SafeLinux.Kiumd.Holdings
import SafeLinux.Kiumd.MapBuf
import SafeLinux.Kiumd.Mmio
import SafeLinux.Kiumd.Secure

/-!
# The ioctls on a context

The part of `kiumd_ioctl` that works on the hash table of an open file's context, and the states
from which runs of these ioctls start.
-/

namespace SafeLinux.Kiumd

open Effects

/-! ## Requests -/

/-- The ioctls that look up or change the hash table, with the user structure each is passed. The
first argument of `mmioMap` is the indeterminate `ret` of `kiumd_mmio_smmu_map`. -/
inductive Request where
  | mapBuf (kiusr : KiumdUser)
  | unmapBuf (kiusr : KiumdUser)
  | secureMap (kiusr : KiumdUser)
  | secureUnmap (kiusr : KiumdUser)
  | mmioMap (ret₀ : Int) (kiusr : KiumdSmmuMmioMap)
  | mmioUnmap (kiusr : KiumdSmmuMmioMap)
  deriving DecidableEq, Inhabited

/-- An ioctl on a file whose private data is the context `ctx`. -/
structure Ioctl where
  ctx : Nat
  request : Request
  deriving DecidableEq, Inhabited

/-- `kiumd_ioctl` for the ioctls of `Request`. -/
def kiumdIoctl (i : Ioctl) : KProg Int :=
  match i.request with
  | .mapBuf kiusr => kiumdDmabufVfioMap kiusr (some (some i.ctx))
  | .unmapBuf kiusr => kiumdDmabufVfioUnmap kiusr (some (some i.ctx))
  | .secureMap kiusr => kiumdDmabufVfioSecureMap kiusr (some (some i.ctx))
  | .secureUnmap kiusr => kiumdDmabufVfioSecureUnmap kiusr (some (some i.ctx))
  | .mmioMap ret₀ kiusr => kiumdMmioSmmuMap ret₀ kiusr (some (some i.ctx))
  | .mmioUnmap kiusr => kiumdMmioSmmuUnmap kiusr (some (some i.ctx))

namespace World

/-- The entries of a context's hash table. -/
def table (w : World) (c : Nat) : List Nat := (w.ctxs c).smmuTable

/-- What a context has besides its hash table. -/
def rest (w : World) (c : Nat) : Option Nat × List (Nat × Nat) :=
  ((w.ctxs c).resMemArea, (w.ctxs c).kiumdXa)

/-- No ioctl has been made on any context yet. -/
structure Fresh (w : World) : Prop where
  table_nil : ∀ c, w.table c = []
  rest_nil : ∀ c, w.rest c = (none, [])
  attachments_nodup : w.attachmentIds.Nodup

end World

theorem fresh_initial : World.initial.Fresh := ⟨fun _ => rfl, fun _ => rfl, by decide⟩

/-! ## Attachments have different ids -/

/-- A call gives something back, or acquires something, which is no attachment with an id in use. -/
theorem held_step {β : Type} {request : KCall β} {answer : β} {w w' : World}
    (hstep : kernelStep request w answer = some w') :
    w'.held ≤ w.held ∨
      ∃ r, w'.held = r ::ₘ w.held ∧ ∀ id, r.attachmentId = some id → id ∉ w.attachmentIds := by
  cases held_cases hstep with
  | same _ _ hheld => exact .inl hheld.le
  | @taken r htaken _ hheld =>
      refine .inr ⟨r, hheld, fun id hid => ?_⟩
      cases r with
      | attachment a =>
          cases hid
          obtain ⟨d, dev, heq⟩ := taken_attachment htaken
          cases heq
          simp only [kernelStep] at hstep
          split at hstep <;> cases hstep
          exact And.right ‹_›
      | _ => cases hid
  | given _ _ hheld =>
      left
      rw [hheld]
      exact Multiset.erase_le _ _
  | deleted _ hheld =>
      left
      rcases hheld with hheld | ⟨m, hheld⟩
      · rw [hheld]
        exact Multiset.erase_le _ _
      · rw [hheld]
        exact (Multiset.erase_le _ _).trans (Multiset.erase_le _ _)

theorem attachmentIds_nodup_step {β : Type} {request : KCall β} {answer : β} {w w' : World}
    (hstep : kernelStep request w answer = some w') (h : w.attachmentIds.Nodup) :
    w'.attachmentIds.Nodup := by
  rcases held_step hstep with hle | ⟨r, hheld, hfresh⟩
  · exact Multiset.nodup_of_le (Multiset.filterMap_le_filterMap _ hle) h
  · rw [World.attachmentIds, hheld]
    cases hr : r.attachmentId with
    | none => rwa [Multiset.filterMap_cons_none _ _ hr]
    | some id =>
        rw [Multiset.filterMap_cons_some _ _ _ hr]
        exact Multiset.nodup_cons.mpr ⟨hfresh id hr, h⟩

end SafeLinux.Kiumd
