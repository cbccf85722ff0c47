import SafeLinux.Effects.Lift

/-!
# Leaving out the calls of one kind

Of a program that makes calls of two kinds, `Program.erase` keeps those of the first. When the
calls of the second kind have only one answer, an execution of the whole is one of what is kept
(`Exec.erase`), so what is proved of the latter holds of the whole (`wp_erase`).
-/

namespace Effects

variable {Call Call' : Type → Type} {σ σ' α β : Type}

/-- The program without the calls of the second kind, which `reply` answers. -/
def Program.erase (reply : {β : Type} → Call' β → β) :
    Program (Either Call Call') α → Program Call α
  | .ret value => .ret value
  | .call (.inl request) next => .call request fun answer => (next answer).erase reply
  | .call (.inr request) next => (next (reply request)).erase reply

/-- The event, if its call is of the first kind. -/
def Event.left : Event (Either Call Call') → Option (Event Call)
  | ⟨.inl request, answer⟩ => some ⟨request, answer⟩
  | ⟨.inr _, _⟩ => none

variable {reply : {β : Type} → Call' β → β}

theorem erase_bind {p : Program (Either Call Call') β}
    {rest : β → Program (Either Call Call') α} :
    (p >>= rest).erase reply = p.erase reply >>= fun value => (rest value).erase reply := by
  induction p with
  | ret value => rfl
  | call request next ih =>
      cases request with
      | inl request =>
          rw [Program.call_bind]
          show Program.call request _ = Program.call request _
          exact congrArg (Program.call request) (funext ih)
      | inr request => exact ih (reply request)

/-- A lifted program is kept as it is. -/
theorem erase_lift {p : Program Call α} :
    (p.lift .inl : Program (Either Call Call') α).erase reply = p := by
  induction p with
  | ret value => rfl
  | call request next ih =>
      show Program.call request _ = Program.call request next
      exact congrArg (Program.call request) (funext ih)

/-- What is kept of an execution with arbitrary answers. -/
theorem Runs.erase {p : Program (Either Call Call') α} {trace : List (Event (Either Call Call'))}
    {result : Option α} (hreply : ∀ {β : Type} (request : Call' β) (answer : β),
      answer = reply request) (h : Runs p trace result) :
    Runs (p.erase reply) (trace.filterMap Event.left) result := by
  induction p generalizing trace with
  | ret value =>
      cases h
      exact .ret value ()
  | call request next ih =>
      cases h with
      | @halt β hempty =>
          cases request with
          | inl request => exact .halt request _ ()
          | inr request => exact (hempty.false (reply request)).elim
      | @call _ _ _ _ _ _ answer _ _ _ hnext =>
          cases request with
          | inl request => exact .call rfl (ih answer hnext)
          | inr request =>
              obtain rfl := hreply request answer
              have hrest := ih (reply request) hnext
              exact hrest

variable {S : Semantics Call σ} {S' : Semantics Call' σ'} {p : Program (Either Call Call') α}
  {s s' : σ × σ'} {trace : List (Event (Either Call Call'))} {result : Option α}

/-- What is kept of an execution. -/
theorem Exec.erase (hreply : ∀ {β : Type} (request : Call' β) (answer : β), answer = reply request)
    (h : Exec (S.prod S') p s trace result s') :
    Exec S (p.erase reply) s.1 (trace.filterMap Event.left) result s'.1 := by
  induction h with
  | ret value s => exact .ret value s.1
  | @halt β hempty request next s =>
      cases request with
      | inl request => exact .halt request _ s.1
      | inr request => exact (hempty.false (reply request)).elim
  | @call β request next s s' s'' answer trace result hstep _ ih =>
      cases request with
      | inl request =>
          obtain ⟨s₁, hs₁, rfl⟩ := Option.map_eq_some_iff.mp hstep
          exact .call hs₁ ih
      | inr request =>
          obtain ⟨s₂, hs₂, rfl⟩ := Option.map_eq_some_iff.mp hstep
          obtain rfl := hreply request answer
          exact ih

end Effects
