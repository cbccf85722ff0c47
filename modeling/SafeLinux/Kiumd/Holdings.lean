import SafeLinux.Kiumd.Footprint

/-!
# What the driver holds

A call acquires one resource, gives one back or leaves alone what is held; only the deletion of an
entry may free its MMIO context as well (`held_cases`). `Holds b x w` says that the driver holds
exactly `x` on top of what it held in `b`.
-/

namespace SafeLinux.Kiumd

open Effects
open Effects.Program (perform)

/-- What a call has acquired. -/
def KCall.taken : {β : Type} → KCall β → β → Option Resource
  | _, .strndupUser _, p => p.map .heap
  | _, .kmallocArray, p => p.map .heap
  | _, .kzallocSmap, p => p.map .smap
  | _, .kzallocMmioCtx, p => p.map .mmioCtx
  | _, .fget _, f => f.map .file
  | _, .dmaBufGet _, .ptr d => some (.dmabuf d)
  | _, .dmaBufAttach _ _, .ok a => some (.attachment a)
  | _, .dmaBufMapAttachment a _, .ptr t => some (.mapping a.dev t)
  | _, .dmaMapSgtable dev t _ _, ret => if ret = 0 then some (.mapping dev t) else none
  | _, .dmaMapResource dev _ size, iova =>
      if iova = DMA_MAPPING_ERROR then none else some (.resource dev iova size)
  | _, .ofParsePhandle _ _, node => node.map .node
  | _, .kcallocResMem _, p => p.map .resMem
  | _, _, _ => none

/-- The entry a call deletes. -/
def KCall.deletes : {β : Type} → KCall β → Option Nat
  | _, .smmuDel _ p | _, .smmuDelMmio _ p => some p
  | _, _ => none

/-- What a call does to what is held. -/
inductive HeldStep {β : Type} (request : KCall β) (answer : β) (w w' : World) : Prop where
  | same : request.taken answer = none → request.given = none → w'.held = w.held →
      HeldStep request answer w w'
  | taken {r : Resource} : request.taken answer = some r → request.given = none →
      w'.held = r ::ₘ w.held → HeldStep request answer w w'
  | given {r : Resource} : request.given = some r → request.taken answer = none →
      w'.held = w.held.erase r → HeldStep request answer w w'
  | deleted {p : Nat} : request.deletes = some p →
      (w'.held = w.held.erase (.smap p) ∨
        ∃ m, w'.held = (w.held.erase (.mmioCtx m)).erase (.smap p)) →
      HeldStep request answer w w'

variable {α β : Type} {request : KCall β} {answer : β} {b w w' : World} {r : Resource}
  {x : Multiset Resource}

theorem held_cases (hstep : kernelStep request w answer = some w') :
    HeldStep request answer w w' := by
  cases hquiet : request.quiet with
  | true =>
      refine .same ?_ ?_ (quiet_step hquiet hstep).2.2.2
      · cases request <;> first | rfl | cases hquiet
      · cases request <;> first | rfl | cases hquiet
  | false =>
  cases hgiven : request.given with
  | some r =>
      refine .given hgiven ?_ ?_
      · cases request <;> first | rfl | cases hgiven
      · rw [given_step hgiven hstep]
        rfl
  | none =>
  cases request with
  | oops => cases hstep
  | fget | kmallocArray | kzallocSmap | kzallocMmioCtx | strndupUser | kcallocResMem
  | ofParsePhandle =>
      cases answer <;> simp only [kernelStep] at hstep
      · cases hstep
        exact .same rfl rfl rfl
      · first
          | (cases hstep; exact .taken rfl rfl rfl)
          | (split at hstep <;> cases hstep; exact .taken rfl rfl rfl)
  | dmaBufGet | dmaBufAttach | dmaBufMapAttachment =>
      cases answer <;> simp only [kernelStep] at hstep
      all_goals first
        | (cases hstep; first | exact .same rfl rfl rfl | exact .taken rfl rfl rfl)
        | (split at hstep <;> cases hstep
           first | exact .same rfl rfl rfl | exact .taken rfl rfl rfl)
        | cases hstep
  | dmaMapSgtable =>
      simp only [kernelStep] at hstep
      split at hstep
      · rename_i hret
        cases hstep
        exact .taken (if_pos hret) rfl rfl
      · rename_i hret
        split at hstep <;> cases hstep
        exact .same (if_neg hret) rfl rfl
  | dmaMapResource =>
      simp only [kernelStep] at hstep
      split at hstep <;> cases hstep <;> rename_i hiova
      · exact .same (if_pos hiova) rfl rfl
      · exact .taken (if_neg hiova) rfl rfl
  | smmuDel =>
      cases hstep
      exact .deleted rfl (.inl rfl)
  | smmuDelMmio =>
      simp only [kernelStep] at hstep
      split at hstep <;> cases hstep
      · exact .deleted rfl (.inr ⟨_, rfl⟩)
      · exact .deleted rfl (.inl rfl)
  | smmuAdd | smmuAddMmio =>
      simp only [kernelStep] at hstep
      split at hstep <;> cases hstep
      exact .same rfl rfl rfl
  | hashDel | setNumReservedRegions | setResMemArea | writeResMem | xaDestroy =>
      cases hstep
      exact .same rfl rfl rfl
  | _ => first | (cases hquiet; done) | cases hgiven

/-- Only an attachment yields one. -/
theorem taken_attachment {a : Attachment} (h : request.taken answer = some (.attachment a)) :
    ∃ d dev, (⟨request, answer⟩ : Event KCall) = ⟨.dmaBufAttach d dev, .ok a⟩ := by
  cases request with
  | dmaBufAttach d dev =>
      cases answer <;> cases h
      exact ⟨d, dev, rfl⟩
  | dmaMapSgtable | dmaMapResource =>
      simp only [KCall.taken] at h
      split at h <;> cases h
  | _ => first | cases h | (cases answer <;> cases h)

/-- What is neither given back nor part of an entry is held after a call as well. -/
theorem held_mem_step (hstep : kernelStep request w answer = some w')
    (hgiven : request.given ≠ some r) (hsmap : ∀ p, r ≠ .smap p) (hmmio : ∀ m, r ≠ .mmioCtx m)
    (hr : r ∈ w.held) : r ∈ w'.held := by
  cases held_cases hstep with
  | same _ _ hheld => rwa [hheld]
  | taken _ _ hheld =>
      rw [hheld]
      exact Multiset.mem_cons_of_mem hr
  | @given r' hgives _ hheld =>
      have hne : r ≠ r' := by
        rintro rfl
        exact hgiven hgives
      rw [hheld]
      exact (Multiset.mem_erase_of_ne hne).mpr hr
  | @deleted p _ hheld =>
      rcases hheld with hheld | ⟨m, hheld⟩
      · rw [hheld]
        exact (Multiset.mem_erase_of_ne (hsmap p)).mpr hr
      · rw [hheld]
        exact (Multiset.mem_erase_of_ne (hsmap p)).mpr
          ((Multiset.mem_erase_of_ne (hmmio m)).mpr hr)

/-! ## Exactly what is held -/

/-- The driver holds exactly `x` more than in the state `b`. -/
def Holds (b : World) (x : Multiset Resource) (w : World) : Prop := w.held = x + b.held

theorem Holds.refl (w : World) : Holds w 0 w := (zero_add _).symm

/-- A call that gives nothing back adds what it has acquired. -/
theorem Holds.step (h : Holds b x w) (hgiven : request.given = none)
    (hdeletes : request.deletes = none) (hstep : kernelStep request w answer = some w') :
    Holds b ((request.taken answer).elim x (· ::ₘ x)) w' := by
  cases held_cases hstep with
  | same htaken _ hheld =>
      rw [htaken]
      exact hheld.trans h
  | @taken r htaken _ hheld =>
      rw [htaken]
      exact hheld.trans ((congrArg (r ::ₘ ·) h).trans (Multiset.cons_add r x b.held).symm)
  | given hgiven' =>
      rw [hgiven] at hgiven'
      cases hgiven'
  | deleted hdeletes' =>
      rw [hdeletes] at hdeletes'
      cases hdeletes'

theorem Holds.give {request : KCall Unit} (h : Holds b (r ::ₘ x) w)
    (hgiven : request.given = some r) (hstep : kernelStep request w () = some w') :
    Holds b x w' := by
  rw [given_step hgiven hstep]
  show w.held.erase r = x + b.held
  rw [h, Multiset.cons_add, Multiset.erase_cons_head]

/-- The postcondition of code that returns a value and then holds what depends on it. -/
def Returns (b : World) (y : α → Multiset Resource) : Post KCall World α :=
  fun _ result w => ∃ value, result = some value ∧ Holds b (y value) w

variable {Q : Post KCall World α} [Q.Stable] {y : α → Multiset Resource}

instance : (Returns b y).Stable := ⟨fun _ _ _ _ h => h⟩

/-- The rule for a call that gives nothing back. -/
theorem wp_holds [Nonempty β] {rest : β → KProg α} (h : Holds b x w)
    (hgiven : request.given = none) (hdeletes : request.deletes = none)
    (hnext : ∀ answer w', kernelStep request w answer = some w' →
      Holds b ((request.taken answer).elim x (· ::ₘ x)) w' → wp kernel .any (rest answer) Q w') :
    wp kernel .any (perform request >>= rest) Q w := by
  refine wp_step ?_
  intro answer w' hstep
  exact wp_after (hnext answer w' hstep (h.step hgiven hdeletes hstep))

/-- The rule for a call that gives something back. -/
theorem wp_holds_give {request : KCall Unit} {rest : Unit → KProg α} (h : Holds b (r ::ₘ x) w)
    (hgiven : request.given = some r)
    (hnext : ∀ w', Holds b x w' → wp kernel .any (rest ()) Q w') :
    wp kernel .any (perform request >>= rest) Q w := by
  refine wp_step ?_
  rintro ⟨⟩ w' hstep
  exact wp_after (hnext w' (h.give hgiven hstep))

/-- The rule for code that returns a value. -/
theorem wp_returns {z : β → Multiset Resource} {p : KProg β} {rest : β → KProg α}
    (h : wp kernel .any p (Returns b z) w)
    (hnext : ∀ value w', Holds b (z value) w' → wp kernel .any (rest value) Q w') :
    wp kernel .any (p >>= rest) Q w := by
  rw [wp_bind]
  refine wp_mono h ?_
  rintro trace _ w' ⟨value, rfl, h'⟩
  exact wp_after (hnext value w' h')

end SafeLinux.Kiumd
