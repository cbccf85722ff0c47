import SafeLinux.Effects.Program
import Mathlib.Data.List.Basic

/-!
# Actions of a program

An observer of a program sees some of its calls, with their answers, as actions. `Shows O p R` says
that whatever the environment answers, within what the observer takes to be possible, the actions
and the result of `p` meet `R`; it does not depend on the state of the environment. `Steps` follows
that state along the calls, and what only some calls change is unchanged where the observer sees
none of these.
-/

namespace Effects

variable {Call : Type → Type} {σ Act α β : Type}

/-- An observer: which answers it takes to be possible and what it sees of a call. -/
structure Observer (Call : Type → Type) (Act : Type) where
  possible : {β : Type} → Call β → β → Prop
  view : {β : Type} → Call β → β → Option Act

/-- What an observer sees of some calls. -/
def Observer.actions (O : Observer Call Act) (trace : List (Event Call)) : List Act :=
  trace.filterMap fun e => O.view e.call e.answer

/-- A condition on the actions and the result of a program. -/
abbrev Shape (Act α : Type) : Type := List Act → Option α → Prop

namespace Observer

variable {O : Observer Call Act}

@[simp] theorem actions_nil : O.actions [] = [] := rfl

@[simp] theorem actions_append {trace trace' : List (Event Call)} :
    O.actions (trace ++ trace') = O.actions trace ++ O.actions trace' :=
  List.filterMap_append

theorem actions_cons {request : Call β} {answer : β} {trace : List (Event Call)} :
    O.actions (⟨request, answer⟩ :: trace) =
      (O.view request answer).toList ++ O.actions trace := by
  rw [actions, List.filterMap_cons, ← actions]
  cases O.view request answer <;> rfl

/-- An action that is seen belongs to a call. -/
theorem exists_event {trace : List (Event Call)} {before after : List Act} {act : Act}
    (h : O.actions trace = before ++ act :: after) :
    ∃ first e rest, trace = first ++ e :: rest ∧ O.actions first = before ∧
      O.view e.call e.answer = some act ∧ O.actions rest = after := by
  induction trace generalizing before with
  | nil => simp at h
  | cons e trace ih =>
      obtain ⟨request, answer⟩ := e
      rw [actions_cons] at h
      cases hview : O.view request answer with
      | none =>
          rw [hview] at h
          obtain ⟨first, e, rest, rfl, hfirst, he, hrest⟩ := ih h
          refine ⟨⟨request, answer⟩ :: first, e, rest, rfl, ?_, he, hrest⟩
          rw [actions_cons, hview, hfirst]
          rfl
      | some seen =>
          rw [hview, Option.toList_some, List.singleton_append] at h
          cases before with
          | nil =>
              obtain ⟨rfl, htrace⟩ := List.cons_eq_cons.mp h
              exact ⟨[], _, trace, rfl, rfl, hview, htrace⟩
          | cons act' before =>
              obtain ⟨rfl, htrace⟩ := List.cons_eq_cons.mp h
              obtain ⟨first, e, rest, rfl, hfirst, he, hrest⟩ := ih htrace
              refine ⟨⟨request, answer⟩ :: first, e, rest, rfl, ?_, he, hrest⟩
              rw [actions_cons, hview, hfirst]
              rfl

end Observer

/-! ## What a program shows -/

/-- Whatever the possible answers, the actions and the result of the program meet the shape; the
result is `none` when a call never returns. -/
def Program.Shows (O : Observer Call Act) : Program Call α → Shape Act α → Prop
  | .ret value, R => R [] (some value)
  | @Program.call _ _ β request next, R =>
      (IsEmpty β → R [] none) ∧ ∀ answer, O.possible request answer →
        (next answer).Shows O fun acts result => R ((O.view request answer).toList ++ acts) result

variable {O : Observer Call Act} {R R' : Shape Act α} {p : Program Call α}

theorem Program.Shows.mono (h : p.Shows O R)
    (himp : ∀ acts result, R acts result → R' acts result) :
    p.Shows O R' := by
  induction p generalizing R R' with
  | ret value => exact himp _ _ h
  | call request next ih =>
      refine ⟨fun hempty => himp _ _ (h.1 hempty), fun answer hanswer => ?_⟩
      exact ih answer (h.2 answer hanswer) fun _ _ hR => himp _ _ hR

/-- When every call that returns has a possible answer, a program shows something. -/
theorem Program.Shows.exists_shown (h : p.Shows O R)
    (hpossible : ∀ (β : Type) (request : Call β), IsEmpty β ∨ ∃ answer, O.possible request answer) :
    ∃ acts result, R acts result := by
  induction p generalizing R with
  | ret value => exact ⟨[], some value, h⟩
  | call request next ih =>
      rcases hpossible _ request with hempty | ⟨answer, hanswer⟩
      · exact ⟨[], none, h.1 hempty⟩
      · obtain ⟨acts, result, hR⟩ := ih answer (h.2 answer hanswer)
        exact ⟨_, result, hR⟩

/-- A shape that asks for nothing. -/
theorem shows_trivial (p : Program Call α) : p.Shows O fun _ _ => True := by
  induction p with
  | ret value => exact trivial
  | call request next ih => exact ⟨fun _ => trivial, fun answer _ => ih answer⟩

theorem shows_pure {value : α} (h : R [] (some value)) :
    (pure value : Program Call α).Shows O R := h

/-- The rule for a sequence. -/
theorem shows_bind {p : Program Call β} {rest : β → Program Call α} {Q : Shape Act β}
    (h : p.Shows O Q)
    (hnext : ∀ acts value, Q acts (some value) →
      (rest value).Shows O fun acts' result => R (acts ++ acts') result)
    (hnone : ∀ acts, Q acts none → R acts none) : (p >>= rest).Shows O R := by
  induction p generalizing Q R with
  | ret value => exact hnext [] value h
  | call request next ih =>
      refine ⟨fun hempty => hnone _ (h.1 hempty), fun answer hanswer => ?_⟩
      refine ih answer (h.2 answer hanswer) ?_ fun acts hQ => hnone _ hQ
      intro acts value hQ
      refine (hnext _ value hQ).mono fun acts' result hR => ?_
      rwa [List.append_assoc] at hR

/-- The rule for a call. -/
theorem shows_perform [Nonempty α] {request : Call α}
    (h : ∀ answer, O.possible request answer →
      R ((O.view request answer).toList) (some answer)) :
    (Program.perform request).Shows O R := by
  refine ⟨fun hempty => (not_isEmpty_of_nonempty α hempty).elim, fun answer hanswer => ?_⟩
  show R ((O.view request answer).toList ++ []) (some answer)
  rw [List.append_nil]
  exact h answer hanswer

/-- The rule for a call and what follows it. -/
theorem shows_call [Nonempty β] {request : Call β} {rest : β → Program Call α}
    (hnext : ∀ answer, O.possible request answer →
      (rest answer).Shows O fun acts result => R ((O.view request answer).toList ++ acts) result) :
    (Program.perform request >>= rest).Shows O R :=
  ⟨fun hempty => (not_isEmpty_of_nonempty β hempty).elim, hnext⟩

/-- The rule for a call that is not seen. -/
theorem shows_idle [Nonempty β] {request : Call β} {rest : β → Program Call α}
    (hview : ∀ answer, O.view request answer = none)
    (hnext : ∀ answer, O.possible request answer → (rest answer).Shows O R) :
    (Program.perform request >>= rest).Shows O R := by
  refine shows_call fun answer hanswer => ?_
  rw [hview answer]
  exact hnext answer hanswer

/-- The rule for a call that is seen whatever the answer. -/
theorem shows_act [Nonempty β] {request : Call β} {rest : β → Program Call α} (act : β → Act)
    (hview : ∀ answer, O.view request answer = some (act answer))
    (hnext : ∀ answer, O.possible request answer →
      (rest answer).Shows O fun acts result => R (act answer :: acts) result) :
    (Program.perform request >>= rest).Shows O R := by
  refine shows_call fun answer hanswer => ?_
  rw [hview answer]
  exact hnext answer hanswer

/-- The rule for a call that never returns. -/
theorem shows_halt [IsEmpty β] {request : Call β} {rest : β → Program Call α} (h : R [] none) :
    (Program.perform request >>= rest).Shows O R :=
  ⟨fun _ => h, fun answer => (IsEmpty.false answer).elim⟩

/-! ## The state along the calls -/

/-- The calls of a trace can be answered so in turn, leading from one state to the other. -/
inductive Steps (S : Semantics Call σ) : σ → List (Event Call) → σ → Prop where
  | nil (s : σ) : Steps S s [] s
  | cons {β : Type} {request : Call β} {answer : β} {s s' s'' : σ} {trace : List (Event Call)} :
      S.step request s answer = some s' → Steps S s' trace s'' →
      Steps S s (⟨request, answer⟩ :: trace) s''

variable {S : Semantics Call σ} {s s' s'' : σ} {trace trace' : List (Event Call)}

theorem Exec.steps {result : Option α} (h : Exec S p s trace result s') : Steps S s trace s' := by
  induction h with
  | ret value s => exact .nil s
  | halt request next s => exact .nil s
  | call hstep _ ih => exact .cons hstep ih

theorem Steps.append (h : Steps S s trace s') (h' : Steps S s' trace' s'') :
    Steps S s (trace ++ trace') s'' := by
  induction h with
  | nil s => exact h'
  | cons hstep _ ih => exact .cons hstep (ih h')

theorem steps_append_iff :
    Steps S s (trace ++ trace') s'' ↔ ∃ s', Steps S s trace s' ∧ Steps S s' trace' s'' := by
  constructor
  · intro h
    induction trace generalizing s with
    | nil => exact ⟨s, .nil s, h⟩
    | cons e trace ih =>
        cases h with
        | cons hstep hrest =>
            obtain ⟨middle, hfirst, hsecond⟩ := ih hrest
            exact ⟨middle, .cons hstep hfirst, hsecond⟩
  · rintro ⟨middle, hfirst, hsecond⟩
    exact hfirst.append hsecond

theorem steps_cons_iff {request : Call β} {answer : β} :
    Steps S s (⟨request, answer⟩ :: trace) s'' ↔
      ∃ s', S.step request s answer = some s' ∧ Steps S s' trace s'' := by
  constructor
  · rintro (_ | ⟨hstep, hrest⟩)
    exact ⟨_, hstep, hrest⟩
  · rintro ⟨middle, hstep, hrest⟩
    exact .cons hstep hrest

/-- What every call of a trace keeps, the trace keeps. -/
theorem Steps.keep {I : σ → Prop} (h : Steps S s trace s')
    (hcall : ∀ e ∈ trace, ∀ s s', S.step e.call s e.answer = some s' → I s → I s') (hs : I s) :
    I s' := by
  induction h with
  | nil => exact hs
  | cons hstep _ ih =>
      exact ih (fun e he => hcall e (List.mem_cons_of_mem _ he))
        (hcall _ List.mem_cons_self _ _ hstep hs)

/-- The observer takes every answer of the environment to be possible. -/
def Observer.Admits (O : Observer Call Act) (S : Semantics Call σ) : Prop :=
  ∀ {β : Type} (request : Call β) (answer : β) (s s' : σ),
    S.step request s answer = some s' → O.possible request answer

/-- What a program shows, each of its executions shows. -/
theorem Program.Shows.exec {result : Option α} (hshows : p.Shows O R) (hadmits : O.Admits S)
    (hexec : Exec S p s trace result s') : R (O.actions trace) result := by
  induction hexec generalizing R with
  | ret value s => exact hshows
  | halt request next s => exact hshows.1 ‹_›
  | call hstep _ ih =>
      have hrest := ih (hshows.2 _ (hadmits _ _ _ _ hstep))
      rwa [Observer.actions_cons]

end Effects
