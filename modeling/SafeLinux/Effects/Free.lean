import SafeLinux.Effects.Wp

/-!
# Programs in an arbitrary environment

In the free environment a call may be answered with anything. A program is then determined by the
answers it gets: two executions with the same answers are equal (`Runs.same`). `Runs.bind` and
`Runs.bind_inv` put executions of a sequence together and take them apart.
-/

namespace Effects

variable {Call : Type → Type} {α β γ : Type}

/-- The environment that may answer every call with anything. -/
def Semantics.free : Semantics Call Unit where
  step := fun _ _ _ => some ()

/-- `Runs p trace result`: `p` makes the calls of `trace`, gets their answers and ends with
`result`. -/
abbrev Runs (p : Program Call α) (trace : List (Event Call)) (result : Option α) : Prop :=
  Exec .free p () trace result ()

theorem Runs.perform {request : Call α} (answer : α) :
    Runs (Program.perform request) [⟨request, answer⟩] (some answer) :=
  .call rfl (.ret _ _)

theorem Runs.pure (value : α) : Runs (Pure.pure value : Program Call α) [] (some value) :=
  .ret _ _

/-- A sequence of three programs. -/
theorem Program.bind_assoc {p : Program Call α} {rest : α → Program Call β}
    {last : β → Program Call γ} :
    (p >>= rest) >>= last = p >>= fun value => rest value >>= last := by
  induction p with
  | ret value => rfl
  | call request next ih => exact congrArg (Program.call request) (funext ih)

/-- An execution of a sequence from executions of its parts. -/
theorem Runs.bind {p : Program Call α} {rest : α → Program Call β}
    {trace trace' : List (Event Call)} {value : α} {result : Option β}
    (h : Runs p trace (some value))
    (hrest : Runs (rest value) trace' result) : Runs (p >>= rest) (trace ++ trace') result :=
  Exec.bind h hrest

/-- A sequence whose first part never returns. -/
theorem Runs.bind_none {p : Program Call α} {rest : α → Program Call β}
    {trace : List (Event Call)} (h : Runs p trace none) : Runs (p >>= rest) trace none := by
  induction p generalizing trace with
  | ret value => cases h
  | call request next ih =>
      rw [Program.call_bind]
      cases h with
      | halt => exact .halt _ _ _
      | call _ hnext => exact .call rfl (ih _ hnext)

/-- An execution of a call and what follows it. -/
theorem Runs.then {request : Call α} {rest : α → Program Call β} {trace : List (Event Call)}
    {result : Option β} (answer : α) (hrest : Runs (rest answer) trace result) :
    Runs (Program.perform request >>= rest) (⟨request, answer⟩ :: trace) result :=
  (Runs.perform answer).bind hrest

/-- The executions of the parts of a sequence. -/
theorem Runs.bind_inv {p : Program Call α} {rest : α → Program Call β}
    {trace : List (Event Call)} {result : Option β} (h : Runs (p >>= rest) trace result) :
    (∃ value first second, trace = first ++ second ∧ Runs p first (some value) ∧
      Runs (rest value) second result) ∨ (Runs p trace none ∧ result = none) := by
  induction p generalizing trace with
  | ret value => exact .inl ⟨value, [], trace, rfl, .ret _ _, h⟩
  | call request next ih =>
      rw [Program.call_bind] at h
      cases h with
      | halt => exact .inr ⟨.halt _ _ _, rfl⟩
      | @call _ _ _ _ _ _ answer _ _ _ hnext =>
          obtain ⟨value, first, second, rfl, hfirst, hsecond⟩ | ⟨hnone, rfl⟩ := ih answer hnext
          · exact .inl ⟨value, ⟨request, answer⟩ :: first, second, rfl, .call rfl hfirst, hsecond⟩
          · exact .inr ⟨.call rfl hnone, rfl⟩

/-- The executions of the parts of a sequence that returns. -/
theorem Runs.bind_some_inv {p : Program Call α} {rest : α → Program Call β}
    {trace : List (Event Call)} {result : β} (h : Runs (p >>= rest) trace (some result)) :
    ∃ value first second, trace = first ++ second ∧ Runs p first (some value) ∧
      Runs (rest value) second (some result) := by
  obtain hparts | ⟨_, hnone⟩ := Runs.bind_inv h
  · exact hparts
  · cases hnone

/-- What follows the first part of a sequence, if that part is known. -/
theorem Runs.bind_append {p : Program Call α} {rest : α → Program Call β}
    {first second : List (Event Call)} {value : α} {result : Option β}
    (hfirst : Runs p first (some value)) (h : Runs (p >>= rest) (first ++ second) result) :
    Runs (rest value) second result := by
  induction p generalizing first with
  | ret value =>
      cases hfirst
      exact h
  | call request next ih =>
      cases hfirst with
      | call _ hnext =>
          rw [Program.call_bind] at h
          cases h with
          | call _ hrest => exact ih _ hnext hrest

/-- The answer to the first call, and what follows it. -/
theorem Runs.call_inv [Nonempty γ] {request : Call γ} {rest : γ → Program Call β}
    {trace : List (Event Call)} {result : Option β}
    (h : Runs (Program.perform request >>= rest) trace result) :
    ∃ answer trace', trace = ⟨request, answer⟩ :: trace' ∧ Runs (rest answer) trace' result := by
  cases h with
  | halt => exact (not_isEmpty_of_nonempty γ ‹_›).elim
  | call _ hrest => exact ⟨_, _, rfl, hrest⟩

/-! ## Executions with the same answers -/

/-- Two traces whose calls got the same answers; the calls may differ. -/
inductive SameAnswers : List (Event Call) → List (Event Call) → Prop where
  | nil : SameAnswers [] []
  | cons {β : Type} (request request' : Call β) (answer : β) {trace trace' : List (Event Call)} :
      SameAnswers trace trace' →
      SameAnswers (⟨request, answer⟩ :: trace) (⟨request', answer⟩ :: trace')

theorem SameAnswers.append_left {trace trace' : List (Event Call)} (h : SameAnswers trace trace')
    (before : List (Event Call)) : SameAnswers (before ++ trace) (before ++ trace') := by
  induction before with
  | nil => exact h
  | cons event before ih => exact .cons event.call event.call event.answer ih

/-- A program with the same answers makes the same calls and has the same result. -/
theorem Runs.same {p : Program Call α} {trace trace' : List (Event Call)}
    {result result' : Option α} (h : Runs p trace result) (h' : Runs p trace' result')
    (hsame : SameAnswers trace trace') : trace = trace' ∧ result = result' := by
  induction p generalizing trace trace' with
  | ret value =>
      cases h
      cases h'
      exact ⟨rfl, rfl⟩
  | call request next ih =>
      cases h with
      | halt =>
          cases hsame
          cases h'
          exact ⟨rfl, rfl⟩
      | @call _ _ _ _ _ _ answer _ _ _ hnext =>
          cases hsame with
          | cons _ _ _ hrest =>
              cases h' with
              | call _ hnext' =>
                  obtain ⟨rfl, hresult⟩ := ih answer hnext hnext' hrest
                  exact ⟨rfl, hresult⟩

end Effects
