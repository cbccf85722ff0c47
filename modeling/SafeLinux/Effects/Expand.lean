import SafeLinux.Effects.Lift

/-!
# Calls worked out in detail

`Program.expand` replaces every call of a program by a program of another environment, so a model
whose calls stand for larger pieces can be worked out piece by piece. What every piece keeps, and
what its calls satisfy, holds of the whole: `wp_expand`.
-/

namespace Effects

variable {Call Call' : Type → Type} {σ α β : Type}

/-- The program with each of its calls worked out. -/
def Program.expand (f : {β : Type} → Call β → Program Call' β) : Program Call α → Program Call' α
  | .ret value => .ret value
  | .call request next => f request >>= fun answer => (next answer).expand f

/-- The rule for a program whose calls are worked out: each piece keeps `I`, and its calls satisfy
`R`, which holds of no calls and of calls one after the other. -/
theorem wp_expand {f : {β : Type} → Call β → Program Call' β} {S : Semantics Call' σ}
    {I : σ → Prop} {R : List (Event Call') → Prop} {p : Program Call α} {s : σ} (hnil : R [])
    (happend : ∀ trace trace', R trace → R trace' → R (trace ++ trace'))
    (hpiece : ∀ {β : Type} (request : Call β) (s : σ), I s →
      wp S .any (f request) (fun trace _ s' => I s' ∧ R trace) s) (hs : I s) :
    wp S .any (p.expand f) (fun trace _ s' => I s' ∧ R trace) s := by
  induction p generalizing s with
  | ret value => exact wp_ret.mpr ⟨hs, hnil⟩
  | call request next ih =>
      refine wp_bind.mpr (wp_mono (hpiece request s hs) ?_)
      intro trace result s' hresult
      cases result with
      | none => exact hresult
      | some answer =>
          refine wp_mono (ih answer hresult.1) ?_
          intro trace' result' s'' hrest
          exact ⟨hrest.1, happend trace trace' hresult.2 hrest.2⟩

/-- The event, if its call is of the second kind. -/
def Event.right : Event (Either Call Call') → Option (Event Call')
  | ⟨.inl _, _⟩ => none
  | ⟨.inr request, answer⟩ => some ⟨request, answer⟩

/-- The calls of the second kind of a component that makes only such calls. -/
theorem filterMap_right {trace : List (Event Call')} :
    (trace.map (Event.lift .inr) : List (Event (Either Call Call'))).filterMap Event.right =
      trace := by
  rw [List.filterMap_map]
  exact List.filterMap_some

end Effects
