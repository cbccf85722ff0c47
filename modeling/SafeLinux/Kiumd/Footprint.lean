import SafeLinux.Effects.Run
import SafeLinux.Kiumd.Frame

/-!
# Which part of the state a call may change

`KCall.writes` names the fields of `World` a call may change; `step_agrees` says that it leaves the
other fields alone. A program all of whose calls are `Within` some fields leaves the other fields
alone as well.
-/

namespace SafeLinux.Kiumd

open Effects

/-- The fields of `World` that calls change. -/
inductive Field where
  | ctxs
  | smaps
  | mmioCtxs
  | resMems
  | held
  | kgsl
  | cookies
  | owner
  deriving DecidableEq

/-- The fields a call may change. -/
def KCall.writes : {β : Type} → KCall β → List Field
  | _, .strndupUser _ | _, .kmallocArray | _, .kzallocMmioCtx | _, .fget _ | _, .dmaBufGet _
  | _, .dmaBufAttach _ _ | _, .dmaBufMapAttachment _ _ | _, .dmaMapSgtable _ _ _ _
  | _, .dmaMapResource _ _ _ | _, .ofParsePhandle _ _ => [.held]
  | _, .kfree _ | _, .kfreeSmap _ | _, .kfreeMmioCtx _ | _, .fput _ | _, .dmaBufPut _
  | _, .dmaBufDetach _ _ | _, .dmaBufUnmapAttachment _ _ _ | _, .dmaUnmapSgtable _ _ _ _
  | _, .dmaUnmapResource _ _ _ | _, .kfreeCtx _ | _, .ofNodePut _ | _, .kfreeResMem _
  | _, .kfreeHandle _ => [.held]
  | _, .kzallocSmap => [.held, .smaps]
  | _, .kcallocResMem _ => [.held, .resMems]
  | _, .writeResMem _ _ _ => [.resMems]
  | _, .smmuAdd _ _ _ => [.ctxs, .smaps]
  | _, .smmuAddMmio _ _ _ _ => [.ctxs, .smaps, .mmioCtxs]
  | _, .smmuDel _ _ | _, .smmuDelMmio _ _ => [.ctxs, .held]
  | _, .hashDel _ _ | _, .setNumReservedRegions _ _ | _, .setResMemArea _ _
  | _, .xaDestroy _ => [.ctxs]
  | _, .setLastOffset _ _ | _, .bitmapSet _ _ _ | _, .bitmapClear _ _ _ => [.kgsl]
  | _, .setDmaCookie _ _ _ => [.cookies]
  | _, .qcomScmAssignMem _ _ _ => [.owner]
  | _, _ => []

/-- The states agree in a field. -/
def World.Agrees (w w' : World) : Field → Prop
  | .ctxs => w'.ctxs = w.ctxs
  | .smaps => w'.smaps = w.smaps
  | .mmioCtxs => w'.mmioCtxs = w.mmioCtxs
  | .resMems => w'.resMems = w.resMems
  | .held => w'.held = w.held
  | .kgsl => w'.kgsl = w.kgsl
  | .cookies => w'.cookies = w.cookies
  | .owner => w'.owner = w.owner

variable {α β : Type} {w w' : World}

theorem World.Agrees.refl (w : World) (f : Field) : w.Agrees w f := by
  cases f <;> rfl

theorem World.Agrees.trans {w'' : World} {f : Field} (h : w.Agrees w' f) (h' : w'.Agrees w'' f) :
    w.Agrees w'' f := by
  cases f <;> exact Eq.trans h' h

/-- A call leaves alone what it does not write. -/
theorem step_agrees {request : KCall β} {answer : β} {f : Field}
    (hstep : kernelStep request w answer = some w') (hf : f ∉ request.writes) : w.Agrees w' f := by
  cases request with
  | oops => cases hstep
  | copyStructFromUser | strndupUser | kmallocArray | kzallocSmap | kzallocMmioCtx | fget
  | iommuGetDmaDomain | dmaBufGet | dmaBufAttach | dmaBufMapAttachment | ofParsePhandle
  | kcallocResMem =>
      cases answer <;> simp only [kernelStep] at hstep
      all_goals first
        | cases hstep
        | (split at hstep <;> cases hstep)
      all_goals first
        | exact .refl _ f
        | (cases f <;> first | rfl | exact absurd (by simp [KCall.writes]) hf)
  | _ =>
      simp only [kernelStep] at hstep
      first
        | cases hstep
        | (split at hstep <;> first | cases hstep | (split at hstep <;> cases hstep))
      all_goals first
        | exact .refl _ f
        | (cases f <;> first | rfl | exact absurd (by simp [KCall.writes]) hf)

/-- The calls that write nothing but some fields. -/
def Within (fields : List Field) : (β : Type) → KCall β → Prop :=
  fun _ request => request.writes.all (fun f => decide (f ∈ fields)) = true

theorem within_agrees {fields : List Field} {request : KCall β} {answer : β} {f : Field}
    (hwithin : Within fields β request) (hstep : kernelStep request w answer = some w')
    (hf : f ∉ fields) : w.Agrees w' f := by
  refine step_agrees hstep fun hmem => hf ?_
  exact of_decide_eq_true (List.all_eq_true.mp hwithin f hmem)

end SafeLinux.Kiumd
