import SafeLinux.Kiumd.Actions
import SafeLinux.Kiumd.Holdings
import Mathlib.Data.Multiset.Count

/-!
# The parts of buffers that are held

The references, attachments and mappings the driver holds after some calls are those it held before,
with what the actions of the calls acquire and without what they return.
-/

namespace SafeLinux.Kiumd

open Effects

/-- A part of a buffer's mapping. -/
def Resource.isBufferPart : Resource → Bool
  | .dmabuf _ | .attachment _ | .mapping _ _ => true
  | _ => false

/-- The part of a buffer an action acquires. -/
def Act.takesPart : Act → Option Resource
  | .buffer _ d => some (.dmabuf d)
  | .attach _ a => some (.attachment a)
  | .mapAttachment a _ t => some (.mapping a.dev t)
  | .mapSgtable dev t _ _ => some (.mapping dev t)
  | _ => none

/-- The part of a buffer an action returns. -/
def Act.givesPart : Act → Option Resource
  | .put d => some (.dmabuf d)
  | .detach _ a => some (.attachment a)
  | .unmapAttachment a t _ => some (.mapping a.dev t)
  | .unmapSgtable dev t _ _ => some (.mapping dev t)
  | _ => none

/-- How often a part is held after an action. -/
def Act.recount (r : Resource) (n : Nat) (act : Act) : Nat :=
  if act.takesPart = some r then n + 1 else if act.givesPart = some r then n - 1 else n

/-- How often a part is held after some actions. -/
def countAfter (r : Resource) (as : List Act) (n : Nat) : Nat := as.foldl (Act.recount r) n

variable {β : Type} {request : KCall β} {answer : β} {w w' : World} {r : Resource} {act : Act}
  {as bs : List Act} {n : Nat} {trace : List (Event KCall)}

@[simp] theorem countAfter_nil : countAfter r [] n = n := rfl

@[simp] theorem countAfter_cons :
    countAfter r (act :: as) n = countAfter r as (act.recount r n) := rfl

@[simp] theorem countAfter_append :
    countAfter r (as ++ bs) n = countAfter r bs (countAfter r as n) := List.foldl_append

theorem countAfter_idle (h : ∀ act ∈ as, act.takesPart = none ∧ act.givesPart = none) :
    countAfter r as n = n := by
  induction as with
  | nil => rfl
  | cons act as ih =>
      obtain ⟨⟨htakes, hgives⟩, hrest⟩ := List.forall_mem_cons.mp h
      rw [countAfter_cons, Act.recount, htakes, hgives]
      exact ih hrest

/-- An action acquires what its call has acquired, if that is a part of a buffer. -/
theorem act_takesPart : (request.act answer).bind Act.takesPart =
    (request.taken answer).filter Resource.isBufferPart := by
  cases request with
  | dmaMapSgtable | dmaMapResource =>
      simp only [KCall.act, KCall.taken]
      split <;> rfl
  | _ => first | rfl | (cases answer <;> rfl)

/-- An action returns what its call gives back, if that is a part of a buffer. -/
theorem act_givesPart : (request.act answer).bind Act.givesPart =
    request.given.filter Resource.isBufferPart := by
  cases request with
  | dmaMapSgtable | dmaMapResource =>
      simp only [KCall.act, KCall.given]
      split <;> rfl
  | _ => first | rfl | (cases answer <;> rfl)

/-- A call changes how often a part is held as its action says. -/
theorem count_step (hr : r.isBufferPart = true) (hstep : kernelStep request w answer = some w') :
    w'.held.count r = countAfter r (request.act answer).toList (w.held.count r) := by
  have htakes : (request.act answer).bind Act.takesPart = some r ↔
      request.taken answer = some r := by
    rw [act_takesPart, Option.filter_eq_some_iff]
    exact and_iff_left hr
  have hgives : (request.act answer).bind Act.givesPart = some r ↔ request.given = some r := by
    rw [act_givesPart, Option.filter_eq_some_iff]
    exact and_iff_left hr
  have hrecount : ∀ n, countAfter r (request.act answer).toList n =
      if request.taken answer = some r then n + 1 else if request.given = some r then n - 1
        else n := by
    intro n
    rw [← if_congr htakes rfl rfl, ← if_congr hgives rfl rfl]
    cases request.act answer <;> rfl
  rw [hrecount]
  cases held_cases hstep with
  | same htaken hgiven hheld => rw [htaken, hgiven, hheld]; rfl
  | @taken r' htaken hgiven hheld =>
      rw [htaken, hgiven, hheld, Multiset.count_cons]
      by_cases heq : r = r'
      · simp [heq]
      · simp [heq, Ne.symm heq]
  | @given r' hgiven htaken hheld =>
      rw [htaken, hgiven, hheld]
      by_cases heq : r = r'
      · simp [heq]
      · rw [Multiset.count_erase_of_ne heq]
        simp [Ne.symm heq]
  | @deleted p hdeletes hheld =>
      have hsmap : r ≠ .smap p := by rintro rfl; cases hr
      have hmmio : ∀ m, r ≠ .mmioCtx m := by rintro m rfl; cases hr
      have hcount : w'.held.count r = w.held.count r := by
        rcases hheld with hheld | ⟨m, hheld⟩
        · rw [hheld, Multiset.count_erase_of_ne hsmap]
        · rw [hheld, Multiset.count_erase_of_ne hsmap, Multiset.count_erase_of_ne (hmmio m)]
      rw [hcount]
      cases request <;> first | rfl | cases hdeletes

/-- The calls of a trace change how often a part is held as their actions say. -/
theorem count_steps (hr : r.isBufferPart = true) (h : Steps kernel w trace w') :
    w'.held.count r = countAfter r (acts trace) (w.held.count r) := by
  induction h with
  | nil => rfl
  | @cons _ request answer _ _ _ trace hstep _ ih =>
      rw [acts_cons, countAfter_append, ih, count_step hr hstep]

end SafeLinux.Kiumd
