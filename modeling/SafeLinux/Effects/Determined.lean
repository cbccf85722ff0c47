import SafeLinux.Effects.Run

/-!
# Environments with one answer a call

A machine whose registers and locks decide every answer is given by a function `respond`. Its
weakest preconditions can be computed: `wp_determined` is an equivalence, so that a program can be
shown to fail as well as to succeed. Conditions that only look at the state are `Guard.onState`
and `Post.onState`.
-/

namespace Effects

variable {Call : Type → Type} {σ α β : Type}

/-- The environment in which `respond` gives the only answer to a call, if there is one. -/
def Semantics.determined (respond : {β : Type} → Call β → σ → Option (β × σ))
    (eq : {β : Type} → Call β → DecidableEq β) : Semantics Call σ where
  step := fun request s answer =>
    match respond request s with
    | none => none
    | some (only, s') => match eq request only answer with
        | isTrue _ => some s'
        | isFalse _ => none

variable {respond : {β : Type} → Call β → σ → Option (β × σ)}
  {eq : {β : Type} → Call β → DecidableEq β}

@[simp] theorem Semantics.determined_step {request : Call β} {s s' : σ} {answer : β} :
    (Semantics.determined respond eq).step request s answer = some s' ↔
      respond request s = some (answer, s') := by
  simp only [Semantics.determined]
  cases hrespond : respond request s with
  | none => simp
  | some pair =>
      obtain ⟨only, next⟩ := pair
      cases heq : eq request only answer with
      | isTrue h => simp [h, heq]
      | isFalse h => simp [h, heq]

/-! ## Conditions on the state alone -/

/-- The guard that looks at the call and the state, not at the calls before it. -/
def Guard.onState (test : (β : Type) → Call β → σ → Prop) : Guard Call σ := fun _ => test

/-- The postcondition that looks at the result and the state, not at the calls. -/
def Post.onState (test : Option α → σ → Prop) : Post Call σ α := fun _ => test

@[simp] theorem Guard.onState_apply (test : (β : Type) → Call β → σ → Prop)
    (trace : List (Event Call)) (request : Call β) (s : σ) :
    Guard.onState test trace β request s = test β request s := rfl

@[simp] theorem Post.onState_apply (test : Option α → σ → Prop) (trace : List (Event Call))
    (result : Option α) (s : σ) :
    (Post.onState test : Post Call σ α) trace result s = test result s := rfl

@[simp] theorem Guard.onState_after (test : (β : Type) → Call β → σ → Prop)
    (past : List (Event Call)) :
    (Guard.onState test).after past = Guard.onState test := rfl

@[simp] theorem Post.onState_after (test : Option α → σ → Prop) (past : List (Event Call)) :
    (Post.onState test : Post Call σ α).after past = Post.onState test := rfl

/-! ## Computing weakest preconditions -/

/-- The weakest precondition for conditions on the state alone. -/
def wps (S : Semantics Call σ) (ok : (β : Type) → Call β → σ → Prop) (p : Program Call α)
    (Q : Option α → σ → Prop) (s : σ) : Prop :=
  wp S (Guard.onState ok) p (Post.onState Q) s

variable {S : Semantics Call σ} {ok : (β : Type) → Call β → σ → Prop} {Q : Option α → σ → Prop}

/-- The rule for a result. -/
theorem wps_pure {value : α} {s : σ} : wps S ok (pure value) Q s ↔ Q (some value) s :=
  wp_pure

/-- The rule for a sequence. -/
theorem wps_bind {p : Program Call β} {rest : β → Program Call α} {s : σ} :
    wps S ok (p >>= rest) Q s ↔
      wps S ok p (fun result s' => match result with
        | some value => wps S ok (rest value) Q s'
        | none => Q none s') s := by
  refine wp_bind.trans (Iff.of_eq ?_)
  refine congrArg (fun R => wp S (Guard.onState ok) p R s) ?_
  funext trace result s'
  cases result <;> rfl

/-- The rule for a branch. -/
theorem wps_ite {test : Prop} [Decidable test] {p p' : Program Call α} {s : σ} :
    wps S ok (if test then p else p') Q s ↔
      if test then wps S ok p Q s else wps S ok p' Q s := by
  split <;> rfl

/-- A postcondition after a call in state `s` that was answered, or that has no answer. -/
def Answered (Q : Option α → σ → Prop) (s : σ) : Option (α × σ) → Prop
  | some (answer, s') => Q (some answer) s'
  | none => IsEmpty α → Q none s

@[simp] theorem answered_some {s s' : σ} {answer : α} :
    Answered Q s (some (answer, s')) = Q (some answer) s' := rfl

@[simp] theorem answered_none {s : σ} : Answered Q s none = (IsEmpty α → Q none s) := rfl

/-- The rule for a call whose only answer is known. -/
theorem wps_perform {request : Call α} {s : σ} :
    wps (.determined respond eq) ok (Program.perform request) Q s ↔
      ok α request s ∧ Answered Q s (respond request s) := by
  simp only [wps, wp_perform, Guard.onState_apply, Post.onState_apply,
    Semantics.determined_step]
  cases hrespond : respond request s with
  | none => simp
  | some pair =>
      obtain ⟨answer, s'⟩ := pair
      have hnonempty : ¬ IsEmpty α := fun hempty => hempty.elim answer
      simp only [hnonempty, Option.some.injEq, Prod.mk.injEq, false_implies, true_and,
        answered_some]
      refine and_congr_right fun _ => ⟨fun h => h answer s' ⟨rfl, rfl⟩, ?_⟩
      rintro h _ _ ⟨rfl, rfl⟩
      exact h

/-- A weaker postcondition. -/
theorem wps_mono {p : Program Call α} {Q' : Option α → σ → Prop} {s : σ} (h : wps S ok p Q s)
    (himp : ∀ result s', Q result s' → Q' result s') : wps S ok p Q' s :=
  wp_mono h fun _ result s' hQ => himp result s' hQ

/-- The rule for a call that tells a value, and what follows it. -/
theorem wp_told [DecidableEq β] {request : Call β} {rest : β → Program Call α} {Q : Post Call σ α}
    {s s' : σ} {value : β}
    (hstep : ∀ answer, S.step request s answer = if answer = value then some s' else none)
    (hnext : wp S .any (rest value) (Q.after [⟨request, value⟩]) s') :
    wp S .any (Program.perform request >>= rest) Q s := by
  have hnonempty : Nonempty β := ⟨value⟩
  refine wp_step fun answer s'' h => ?_
  rw [hstep answer] at h
  obtain ⟨rfl, hs⟩ := Option.ite_none_right_eq_some.mp h
  obtain rfl := Option.some.inj hs
  exact hnext

/-- The rule for a call that tells nothing, and what follows it. -/
theorem wp_done {request : Call Unit} {rest : Unit → Program Call α} {Q : Post Call σ α} {s s' : σ}
    (hstep : S.step request s () = some s')
    (hnext : wp S .any (rest ()) (Q.after [⟨request, ()⟩]) s') :
    wp S .any (Program.perform request >>= rest) Q s := by
  refine wp_step fun _ s'' h => ?_
  obtain rfl := Option.some.inj (hstep.symm.trans h)
  exact hnext

/-- The rule for a last call that tells nothing. -/
theorem wp_done_last {request : Call Unit} {Q : Post Call σ Unit} {s s' : σ}
    (hstep : S.step request s () = some s') (hQ : Q [⟨request, ()⟩] (some ()) s') :
    wp S .any (Program.perform request) Q s := by
  show wp S .any (Program.perform request >>= pure) Q s
  exact wp_done hstep (wp_pure.mpr hQ)

/-- A program has a complete execution if it meets the guard but not every postcondition. -/
theorem exists_exec {p : Program Call α} {s : σ} (hok : wps S ok p (fun _ _ => True) s)
    (h : ¬ wps S ok p (fun _ _ => False) s) : ∃ trace result s', Exec S p s trace result s' := by
  by_contra hnone
  refine h ⟨hok.1, ?_⟩
  intro trace result s' hexec
  exact hnone ⟨trace, result, s', hexec⟩

/-! ## Executions that do not return -/

/-- A program that is about to make a call that never returns has ended. -/
theorem Pending.exec {p : Program Call α} {s s' : σ} {trace : List (Event Call)} {request : Call β}
    (h : Pending S p s trace request s') (hempty : IsEmpty β) : Exec S p s trace none s' := by
  induction h with
  | here request next s => exact .halt request next s
  | there hstep _ ih => exact .call hstep (ih hempty)

/-- Whether the execution with chosen answers stops at a call and passes a test. -/
def Program.haltsAt (S : Semantics Call σ) (choose : Chooser Call σ) (p : Program Call α) (s : σ)
    (test : List (Event Call) → σ → Bool) : Bool :=
  match p.follow S choose s with
  | some (trace, none, s') => test trace s'
  | _ => false

/-- An execution that stops at a call, which only a call that never returns does, has ended. -/
theorem Program.haltsAt_exec {choose : Chooser Call σ} {p : Program Call α} {s : σ}
    {test : List (Event Call) → σ → Bool}
    (hchoose : ∀ (β : Type) (request : Call β) s, choose β request s = none → IsEmpty β)
    (h : p.haltsAt S choose s test = true) :
    ∃ trace s', Exec S p s trace none s' ∧ test trace s' = true := by
  unfold Program.haltsAt at h
  split at h
  · rename_i trace s' hfollow
    obtain ⟨β, request, hnone, hpending⟩ := Program.follow_pending hfollow
    exact ⟨trace, s', hpending.exec (hchoose β request s' hnone), h⟩
  · cases h

end Effects
