import SafeLinux.Effects.Program
import Mathlib.Data.List.Basic

/-!
# Weakest preconditions of programs

`wp S ok p Q s` says of every execution of `p` from `s` that each call it is about to make meets
the guard `ok`, which sees the calls made before it, and that a complete execution meets `Q`, which
sees its calls, its result and its last state. `wp_exec` and `wp_pending` give these two readings;
the rules `wp_ret`, `wp_bind` and `wp_call` compute `wp` along the program text.
-/

namespace Effects

variable {Call : Type → Type} {σ α β γ : Type}

/-- A condition on a call about to be made, given the calls before it and the present state. -/
abbrev Guard (Call : Type → Type) (σ : Type) : Type 1 :=
  List (Event Call) → (β : Type) → Call β → σ → Prop

/-- A condition on a complete execution: its calls, its result and its last state. -/
abbrev Post (Call : Type → Type) (σ α : Type) : Type 1 :=
  List (Event Call) → Option α → σ → Prop

/-- The guard that lets every call pass. -/
def Guard.any : Guard Call σ := fun _ _ _ _ => True

/-- The guard that only lets calls pass that return. -/
def Guard.returns : Guard Call σ := fun _ β _ _ => Nonempty β

/-- The guard for the calls after `past`. -/
def Guard.after (ok : Guard Call σ) (past : List (Event Call)) : Guard Call σ :=
  fun trace => ok (past ++ trace)

/-- The postcondition for the calls after `past`. -/
def Post.after (Q : Post Call σ α) (past : List (Event Call)) : Post Call σ α :=
  fun trace => Q (past ++ trace)

@[simp] theorem Guard.any_apply (trace : List (Event Call)) (request : Call β) (s : σ) :
    (Guard.any : Guard Call σ) trace β request s = True := rfl

@[simp] theorem Guard.any_after (past : List (Event Call)) :
    (Guard.any : Guard Call σ).after past = Guard.any := rfl

@[simp] theorem Guard.returns_after (past : List (Event Call)) :
    (Guard.returns : Guard Call σ).after past = Guard.returns := rfl

@[simp] theorem Guard.after_apply (ok : Guard Call σ) (past trace : List (Event Call))
    (request : Call β) (s : σ) :
    ok.after past trace β request s = ok (past ++ trace) β request s := rfl

@[simp] theorem Post.after_apply (Q : Post Call σ α) (past trace : List (Event Call))
    (result : Option α) (s : σ) : Q.after past trace result s = Q (past ++ trace) result s := rfl

@[simp] theorem Guard.after_nil (ok : Guard Call σ) : ok.after [] = ok := rfl

@[simp] theorem Post.after_nil (Q : Post Call σ α) : Q.after [] = Q := rfl

@[simp] theorem Guard.after_after (ok : Guard Call σ) (first second : List (Event Call)) :
    (ok.after first).after second = ok.after (first ++ second) := by
  funext trace
  simp [Guard.after]

@[simp] theorem Post.after_after (Q : Post Call σ α) (first second : List (Event Call)) :
    (Q.after first).after second = Q.after (first ++ second) := by
  funext trace
  simp [Post.after]

/-- Every execution of `p` from `s` meets the guard at each call and `Q` at its end. -/
def wp (S : Semantics Call σ) (ok : Guard Call σ) (p : Program Call α) (Q : Post Call σ α)
    (s : σ) : Prop :=
  (∀ trace δ (request : Call δ) s', Pending S p s trace request s' → ok trace δ request s') ∧
  ∀ trace result s', Exec S p s trace result s' → Q trace result s'

theorem wp_exec {S : Semantics Call σ} {ok : Guard Call σ} {p : Program Call α}
    {Q : Post Call σ α} {s s' : σ} {trace : List (Event Call)} {result : Option α}
    (h : wp S ok p Q s) (hexec : Exec S p s trace result s') : Q trace result s' :=
  h.2 _ _ _ hexec

theorem wp_pending {S : Semantics Call σ} {ok : Guard Call σ} {p : Program Call α}
    {Q : Post Call σ α} {s s' : σ} {trace : List (Event Call)} {δ : Type} {request : Call δ}
    (h : wp S ok p Q s) (hpending : Pending S p s trace request s') : ok trace δ request s' :=
  h.1 _ _ _ _ hpending

variable {S : Semantics Call σ} {ok : Guard Call σ}

theorem wp_mono {p : Program Call α} {Q Q' : Post Call σ α} {s : σ} (h : wp S ok p Q s)
    (himp : ∀ trace result s', Q trace result s' → Q' trace result s') : wp S ok p Q' s :=
  ⟨h.1, fun _ _ _ hexec => himp _ _ _ (h.2 _ _ _ hexec)⟩

theorem wp_weaken {ok' : Guard Call σ} {p : Program Call α} {Q Q' : Post Call σ α} {s : σ}
    (h : wp S ok p Q s)
    (hguard : ∀ trace β (request : Call β) s', ok trace β request s' → ok' trace β request s')
    (hpost : ∀ trace result s', Q trace result s' → Q' trace result s') : wp S ok' p Q' s :=
  ⟨fun _ _ _ _ hpending => hguard _ _ _ _ (h.1 _ _ _ _ hpending),
    fun _ _ _ hexec => hpost _ _ _ (h.2 _ _ _ hexec)⟩

theorem wp_and {p : Program Call α} {Q Q' : Post Call σ α} {s : σ} (h : wp S ok p Q s)
    (h' : wp S ok p Q' s) :
    wp S ok p (fun trace result s' => Q trace result s' ∧ Q' trace result s') s :=
  ⟨h.1, fun _ _ _ hexec => ⟨h.2 _ _ _ hexec, h'.2 _ _ _ hexec⟩⟩

/-- A postcondition that always holds. -/
theorem wp_always {p : Program Call α} {Q : Post Call σ α} {s : σ}
    (h : ∀ trace result s', Q trace result s') : wp S .any p Q s :=
  ⟨fun _ _ _ _ _ => trivial, fun trace result s' _ => h trace result s'⟩

@[simp] theorem wp_ret {value : α} {Q : Post Call σ α} {s : σ} :
    wp S ok (.ret value) Q s ↔ Q [] (some value) s := by
  constructor
  · intro h
    exact h.2 _ _ _ (.ret value s)
  · intro h
    refine ⟨?_, ?_⟩
    · intro _ _ _ _ hpending
      cases hpending
    · intro _ _ _ hexec
      cases hexec
      exact h

@[simp] theorem wp_pure {value : α} {Q : Post Call σ α} {s : σ} :
    wp S ok (pure value) Q s ↔ Q [] (some value) s :=
  wp_ret

/-- The rule for a call: the guard holds, a call that never returns ends the program, and every
possible answer leads to a state from which the rest is correct. -/
theorem wp_call {request : Call β} {next : β → Program Call α} {Q : Post Call σ α} {s : σ} :
    wp S ok (.call request next) Q s ↔
      ok [] β request s ∧ (IsEmpty β → Q [] none s) ∧
        ∀ answer s', S.step request s answer = some s' →
          wp S (ok.after [⟨request, answer⟩]) (next answer) (Q.after [⟨request, answer⟩]) s' := by
  constructor
  · intro h
    refine ⟨h.1 _ _ _ _ (.here request next s), ?_, ?_⟩
    · intro hempty
      exact h.2 _ _ _ (.halt request next s)
    · intro answer s' hstep
      refine ⟨?_, ?_⟩
      · intro _ _ _ _ hpending
        exact h.1 _ _ _ _ (.there hstep hpending)
      · intro _ _ _ hexec
        exact h.2 _ _ _ (.call hstep hexec)
  · rintro ⟨hguard, hhalt, hnext⟩
    refine ⟨?_, ?_⟩
    · intro _ _ _ _ hpending
      cases hpending with
      | here => exact hguard
      | there hstep hrest => exact (hnext _ _ hstep).1 _ _ _ _ hrest
    · intro _ _ _ hexec
      cases hexec with
      | halt => exact hhalt ‹_›
      | call hstep hrest => exact (hnext _ _ hstep).2 _ _ _ hrest

/-- The rule for a single call. -/
@[simp] theorem wp_perform {request : Call α} {Q : Post Call σ α} {s : σ} :
    wp S ok (Program.perform request) Q s ↔
      ok [] α request s ∧ (IsEmpty α → Q [] none s) ∧
        ∀ answer s', S.step request s answer = some s' →
          Q [⟨request, answer⟩] (some answer) s' := by
  simp [Program.perform, wp_call]

/-- What the postcondition of the first program of a sequence has to ensure. -/
def Post.andThen (S : Semantics Call σ) (ok : Guard Call σ) (rest : α → Program Call β)
    (Q : Post Call σ β) : Post Call σ α := fun trace result s =>
  match result with
  | some value => wp S (ok.after trace) (rest value) (Q.after trace) s
  | none => Q trace none s

@[simp] theorem Post.andThen_some {rest : α → Program Call β} {Q : Post Call σ β}
    {trace : List (Event Call)} {value : α} {s : σ} :
    Post.andThen S ok rest Q trace (some value) s ↔
      wp S (ok.after trace) (rest value) (Q.after trace) s := Iff.rfl

@[simp] theorem Post.andThen_none {rest : α → Program Call β} {Q : Post Call σ β}
    {trace : List (Event Call)} {s : σ} :
    Post.andThen S ok rest Q trace none s ↔ Q trace none s := Iff.rfl

theorem Post.andThen_after {rest : α → Program Call β} {Q : Post Call σ β}
    {past : List (Event Call)} :
    (Post.andThen S ok rest Q).after past =
      Post.andThen S (ok.after past) rest (Q.after past) := by
  funext trace result s
  cases result <;> simp [Post.after, Post.andThen]

/-- The rule for a sequence. -/
@[simp] theorem wp_bind {p : Program Call α} {rest : α → Program Call β} {Q : Post Call σ β}
    {s : σ} : wp S ok (p >>= rest) Q s ↔ wp S ok p (Post.andThen S ok rest Q) s := by
  induction p generalizing s ok Q with
  | ret value => rw [Program.ret_bind, wp_ret, Post.andThen_some, Guard.after_nil, Post.after_nil]
  | call request next ih =>
      rw [Program.call_bind, wp_call, wp_call]
      simp only [ih, Post.andThen_after, Post.andThen_none]

/-- The rule for a call and what follows it. -/
theorem wp_perform_bind {request : Call β} {rest : β → Program Call α} {Q : Post Call σ α} {s : σ} :
    wp S ok (Program.perform request >>= rest) Q s ↔
      ok [] β request s ∧ (IsEmpty β → Q [] none s) ∧
        ∀ answer s', S.step request s answer = some s' →
          wp S (ok.after [⟨request, answer⟩]) (rest answer) (Q.after [⟨request, answer⟩]) s' := by
  rw [wp_bind, wp_perform]
  rfl

/-- The rule for a call that returns, and what follows it, without a guard. -/
theorem wp_step [Nonempty β] {request : Call β} {rest : β → Program Call α} {Q : Post Call σ α}
    {s : σ} (hnext : ∀ answer s', S.step request s answer = some s' →
      wp S .any (rest answer) (Q.after [⟨request, answer⟩]) s') :
    wp S .any (Program.perform request >>= rest) Q s :=
  wp_perform_bind.mpr
    ⟨trivial, fun hempty => (not_isEmpty_of_nonempty β hempty).elim, fun answer s' h =>
      hnext answer s' h⟩

/-! ## Postconditions that do not depend on the calls made before -/

/-- A postcondition that stays true when calls are added before the trace. -/
class Post.Stable (Q : Post Call σ α) : Prop where
  prepend : ∀ past trace result s, Q trace result s → Q (past ++ trace) result s

/-- The rule for the rest of a program after some calls. -/
theorem wp_after {p : Program Call α} {Q : Post Call σ α} [Q.Stable]
    {past : List (Event Call)} {s : σ} (h : wp S ok p Q s) : wp S ok p (Q.after past) s :=
  wp_mono h fun trace result s' hQ => Post.Stable.prepend past trace result s' hQ

/-- The rule for a sequence with a stable postcondition. -/
theorem wp_then {p : Program Call α} {rest : α → Program Call β} {R : Post Call σ α}
    {Q : Post Call σ β} [Q.Stable] {s : σ} (h : wp S .any p R s)
    (hsome : ∀ trace value s', R trace (some value) s' → wp S .any (rest value) Q s')
    (hnone : ∀ trace s', R trace none s' → Q trace none s') :
    wp S .any (p >>= rest) Q s := by
  rw [wp_bind]
  refine wp_mono h ?_
  intro trace result s' hR
  cases result with
  | none => exact hnone trace s' hR
  | some value => exact wp_after (hsome trace value s' hR)

end Effects
