import SafeLinux.Effects.Free

/-!
# Programs as parts of a larger program

A component whose calls are some of the calls of a larger one can be run inside it. What is proved
about the component alone holds of it there: `wp_lift`.
-/

namespace Effects

variable {Call Call' : Type → Type} {σ σ' α : Type}

/-- The same program, making its calls as calls of another kind. -/
def Program.lift (f : {β : Type} → Call β → Call' β) : Program Call α → Program Call' α
  | .ret value => .ret value
  | .call request next => .call (f request) fun answer => (next answer).lift f

/-- The same event as an event of another kind. -/
def Event.lift (f : {β : Type} → Call β → Call' β) (e : Event Call) : Event Call' :=
  ⟨f e.call, e.answer⟩

/-- The rule for a component: the larger environment answers its calls as its own environment
does, on the part `part` of the state. -/
theorem wp_lift {S : Semantics Call σ} {S' : Semantics Call' σ'}
    {f : {β : Type} → Call β → Call' β} {part : σ' → σ} {p : Program Call α} {Q : Post Call σ α}
    {s : σ'}
    (hstep : ∀ {β : Type} (request : Call β) (answer : β) (s s' : σ'),
      S'.step (f request) s answer = some s' → S.step request (part s) answer = some (part s'))
    (h : wp S .any p Q (part s)) :
    wp S' .any (p.lift f) (fun trace result s' =>
      ∃ own, trace = own.map (Event.lift f) ∧ Q own result (part s')) s := by
  induction p generalizing s Q with
  | ret value => exact wp_ret.mpr ⟨[], rfl, wp_ret.mp h⟩
  | call request next ih =>
      obtain ⟨_, hhalt, hnext⟩ := wp_call.mp h
      refine wp_call.mpr ⟨trivial, fun hempty => ⟨[], rfl, hhalt hempty⟩, ?_⟩
      intro answer s' hanswer
      refine wp_mono (ih answer (hnext answer _ (hstep request answer s s' hanswer))) ?_
      rintro trace result s'' ⟨own, rfl, hQ⟩
      exact ⟨⟨request, answer⟩ :: own, rfl, hQ⟩

/-- A component makes its own calls. -/
theorem Runs.lift {f : {β : Type} → Call β → Call' β} {p : Program Call α}
    {trace : List (Event Call)} {result : Option α} (h : Runs p trace result) :
    Runs (p.lift f) (trace.map (Event.lift f)) result := by
  induction p generalizing trace with
  | ret value =>
      cases h
      exact .ret _ _
  | call request next ih =>
      cases h with
      | halt => exact .halt _ _ _
      | call _ hrest => exact .call rfl (ih _ hrest)

theorem Runs.lift_inv {f : {β : Type} → Call β → Call' β} {p : Program Call α}
    {trace : List (Event Call')} {result : Option α} (h : Runs (p.lift f) trace result) :
    ∃ own, trace = own.map (Event.lift f) ∧ Runs p own result := by
  induction p generalizing trace with
  | ret value =>
      cases h
      exact ⟨[], rfl, .ret _ _⟩
  | call request next ih =>
      cases h with
      | halt => exact ⟨[], rfl, .halt _ _ _⟩
      | @call _ _ _ _ _ _ answer _ _ _ hrest =>
          obtain ⟨own, rfl, hown⟩ := ih answer hrest
          exact ⟨⟨request, answer⟩ :: own, rfl, .call rfl hown⟩

/-! ## Calls of two kinds -/

/-- A call of one of two kinds. -/
abbrev Either (Call Call' : Type → Type) (β : Type) : Type := Call β ⊕ Call' β

/-- An environment that answers calls of two kinds on the same state. -/
def Semantics.either (S : Semantics Call σ) (S' : Semantics Call' σ) :
    Semantics (Either Call Call') σ where
  step := fun request s answer =>
    match request with
    | .inl request => S.step request s answer
    | .inr request => S'.step request s answer

/-! ## Two components side by side -/

/-- An environment of two components, each of which answers the calls of its kind on its own part
of the state. -/
def Semantics.prod (S : Semantics Call σ) (S' : Semantics Call' σ') :
    Semantics (Either Call Call') (σ × σ') where
  step := fun request s answer =>
    match request with
    | .inl request => (S.step request s.1 answer).map fun s₁ => (s₁, s.2)
    | .inr request => (S'.step request s.2 answer).map fun s₂ => (s.1, s₂)

variable {S : Semantics Call σ} {S' : Semantics Call' σ'} {β : Type}

/-- The rule for a call of the first component. -/
theorem wp_left [Nonempty β] {request : Call β} {rest : β → Program (Either Call Call') α}
    {Q : Post (Either Call Call') (σ × σ') α} {s : σ} {t : σ'}
    (hnext : ∀ answer s', S.step request s answer = some s' →
      wp (S.prod S') .any (rest answer) (Q.after [⟨.inl request, answer⟩]) (s', t)) :
    wp (S.prod S') .any (Program.perform (.inl request) >>= rest) Q (s, t) := by
  refine wp_perform_bind.mpr ⟨trivial, fun hempty => (not_isEmpty_of_nonempty β hempty).elim, ?_⟩
  intro answer u hstep
  obtain ⟨s', hs', rfl⟩ := Option.map_eq_some_iff.mp hstep
  exact hnext answer s' hs'

/-- The rule for a call of the second component. -/
theorem wp_right [Nonempty β] {request : Call' β} {rest : β → Program (Either Call Call') α}
    {Q : Post (Either Call Call') (σ × σ') α} {s : σ} {t : σ'}
    (hnext : ∀ answer t', S'.step request t answer = some t' →
      wp (S.prod S') .any (rest answer) (Q.after [⟨.inr request, answer⟩]) (s, t')) :
    wp (S.prod S') .any (Program.perform (.inr request) >>= rest) Q (s, t) := by
  refine wp_perform_bind.mpr ⟨trivial, fun hempty => (not_isEmpty_of_nonempty β hempty).elim, ?_⟩
  intro answer u hstep
  obtain ⟨t', ht', rfl⟩ := Option.map_eq_some_iff.mp hstep
  exact hnext answer t' ht'

/-- A program of the first component does not touch the second. -/
theorem wp_lift_left {p : Program Call α} {Q : Post Call σ α} {s : σ} {t : σ'}
    (h : wp S .any p Q s) :
    wp (S.prod S') .any (p.lift .inl) (fun trace result u =>
      ∃ own, trace = own.map (Event.lift .inl) ∧ Q own result u.1 ∧ u.2 = t) (s, t) := by
  induction p generalizing s Q with
  | ret value => exact wp_ret.mpr ⟨[], rfl, wp_ret.mp h, rfl⟩
  | call request next ih =>
      obtain ⟨_, hhalt, hnext⟩ := wp_call.mp h
      refine wp_call.mpr ⟨trivial, fun hempty => ⟨[], rfl, hhalt hempty, rfl⟩, ?_⟩
      intro answer u hanswer
      obtain ⟨s', hs', rfl⟩ := Option.map_eq_some_iff.mp hanswer
      refine wp_mono (ih answer (hnext answer s' hs')) ?_
      rintro trace result u ⟨own, rfl, hQ, hu⟩
      exact ⟨⟨request, answer⟩ :: own, rfl, hQ, hu⟩

end Effects
