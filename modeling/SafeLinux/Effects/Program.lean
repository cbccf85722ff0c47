import Mathlib.Logic.IsEmpty.Basic
import Mathlib.Logic.Nonempty
import Mathlib.Order.CompletePartialOrder

/-!
# Programs that call an environment

A `Program Call α` computes an `α` and makes calls on the way; `Call β` is the type of the calls
that are answered with a `β`. What a call may be answered with, and what it does to the state of
the environment, is a `Semantics`. `Exec` is the complete execution of one program and `Pending`
is an execution up to the point where a given call is about to be made.

A call whose answer type is empty never returns: an execution that reaches one ends there with no
result.
-/

namespace Effects

/-- A computation of an `α` by calls to an environment. -/
inductive Program (Call : Type → Type) (α : Type) : Type 1 where
  | ret (value : α)
  | call {β : Type} (request : Call β) (next : β → Program Call α)

/-- One call of an execution together with its answer. -/
structure Event (Call : Type → Type) : Type 1 where
  {β : Type}
  call : Call β
  answer : β

variable {Call : Type → Type} {σ α β γ : Type}

namespace Program

/-- Run a program and continue with its result. -/
def bind : Program Call α → (α → Program Call β) → Program Call β
  | .ret value, rest => rest value
  | .call request next, rest => .call request fun answer => (next answer).bind rest

instance : Monad (Program Call) where
  pure := .ret
  bind := bind

/-- Make one call and return its answer. -/
def perform (request : Call α) : Program Call α :=
  .call request .ret

theorem pure_eq (value : α) : (pure value : Program Call α) = .ret value := rfl

theorem ret_bind (value : α) (rest : α → Program Call β) :
    (.ret value : Program Call α) >>= rest = rest value := rfl

theorem call_bind {δ : Type} (request : Call δ) (next : δ → Program Call α)
    (rest : α → Program Call β) :
    .call request next >>= rest = .call request fun answer => next answer >>= rest := rfl

end Program

/-- What the environment may do: `step call s answer` is the state after `call` was answered with
`answer` in state `s`, or `none` when it cannot be answered so. -/
structure Semantics (Call : Type → Type) (σ : Type) where
  step : {β : Type} → Call β → σ → β → Option σ

/-- `Exec S p s trace result s'` is a complete execution of `p` from `s`: the calls of `trace` lead
to `s'`, and `result` is the value returned, or `none` when the last call never returns. -/
inductive Exec (S : Semantics Call σ) :
    Program Call α → σ → List (Event Call) → Option α → σ → Prop where
  | ret (value : α) (s : σ) : Exec S (.ret value) s [] (some value) s
  | halt {β : Type} [IsEmpty β] (request : Call β) (next : β → Program Call α) (s : σ) :
      Exec S (.call request next) s [] none s
  | call {β : Type} {request : Call β} {next : β → Program Call α} {s s' s'' : σ} {answer : β}
      {trace : List (Event Call)} {result : Option α} :
      S.step request s answer = some s' → Exec S (next answer) s' trace result s'' →
      Exec S (.call request next) s (⟨request, answer⟩ :: trace) result s''

/-- `Pending S p s trace request s'` says that `p`, started in `s`, can make the calls of `trace`
and is then about to make the call `request` in state `s'`. -/
inductive Pending (S : Semantics Call σ) :
    Program Call α → σ → List (Event Call) → {δ : Type} → Call δ → σ → Prop where
  | here {δ : Type} (request : Call δ) (next : δ → Program Call α) (s : σ) :
      Pending S (.call request next) s [] request s
  | there {β δ : Type} {request : Call β} {next : β → Program Call α} {s s' s'' : σ}
      {answer : β} {trace : List (Event Call)} {last : Call δ} :
      S.step request s answer = some s' → Pending S (next answer) s' trace last s'' →
      Pending S (.call request next) s (⟨request, answer⟩ :: trace) last s''

/-- An execution of a sequence from executions of its parts. -/
theorem Exec.bind {S : Semantics Call σ} {p : Program Call α} {rest : α → Program Call β}
    {s s' s'' : σ} {trace trace' : List (Event Call)} {value : α} {result : Option β}
    (h : Exec S p s trace (some value) s') (hrest : Exec S (rest value) s' trace' result s'') :
    Exec S (p >>= rest) s (trace ++ trace') result s'' := by
  induction p generalizing s trace with
  | ret value' =>
      cases h
      exact hrest
  | call request next ih =>
      cases h with
      | call hstep hnext => exact .call hstep (ih _ hnext)

/-- Every call of an execution was pending, after the calls before it. -/
theorem Exec.pending {S : Semantics Call σ} {p : Program Call α} {s s' : σ}
    {before after : List (Event Call)} {event : Event Call} {result : Option α}
    (h : Exec S p s (before ++ event :: after) result s') :
    ∃ middle, Pending S p s before event.call middle := by
  induction before generalizing p s with
  | nil =>
      cases h with
      | call _ _ => exact ⟨s, .here _ _ _⟩
  | cons first before ih =>
      cases h with
      | call hstep hrest =>
          obtain ⟨middle, hpending⟩ := ih hrest
          exact ⟨middle, .there hstep hpending⟩

/-- The calls that meet a test. -/
def Semantics.guarded (S : Semantics Call σ) (test : σ → Event Call → Bool) : Semantics Call σ where
  step request s answer := if test s ⟨request, answer⟩ then S.step request s answer else none

theorem Semantics.guarded_step {S : Semantics Call σ} {test : σ → Event Call → Bool}
    {request : Call β} {answer : β} {s s' : σ} :
    (S.guarded test).step request s answer = some s' ↔
      test s ⟨request, answer⟩ = true ∧ S.step request s answer = some s' := by
  simp only [guarded, Option.ite_none_right_eq_some]

/-- An execution whose calls all meet a test is one without the test. -/
theorem Exec.of_guarded {S : Semantics Call σ} {test : Event Call → Bool} {p : Program Call α}
    {s s' : σ} {trace : List (Event Call)} {result : Option α}
    (h : Exec (S.guarded fun _ => test) p s trace result s') :
    Exec S p s trace result s' ∧ ∀ e ∈ trace, test e = true := by
  induction h with
  | ret value s => exact ⟨.ret value s, nofun⟩
  | halt request next s => exact ⟨.halt request next s, nofun⟩
  | call hstep _ ih =>
      obtain ⟨htest, hstep⟩ := Semantics.guarded_step.mp hstep
      exact ⟨.call hstep ih.1, List.forall_mem_cons.mpr ⟨htest, ih.2⟩⟩

/-- An environment that can answer every call it is able to answer at all. -/
def Semantics.Responsive (S : Semantics Call σ) : Prop :=
  ∀ {β : Type} [Nonempty β] (request : Call β) (s : σ), ∃ answer s',
    S.step request s answer = some s'

/-- In a responsive environment every program has a complete execution. -/
theorem Semantics.Responsive.exec {S : Semantics Call σ} (hS : S.Responsive)
    (p : Program Call α) (s : σ) : ∃ trace result s', Exec S p s trace result s' := by
  induction p generalizing s with
  | ret value => exact ⟨_, _, _, .ret value s⟩
  | @call β request next ih =>
      rcases isEmpty_or_nonempty β with hempty | hnonempty
      · exact ⟨_, _, _, .halt request next s⟩
      · obtain ⟨answer, s', hstep⟩ := hS request s
        obtain ⟨trace, result, s'', hrest⟩ := ih answer s'
        exact ⟨_, _, _, .call hstep hrest⟩

end Effects
