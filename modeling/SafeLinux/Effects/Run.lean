import SafeLinux.Effects.Wp

/-!
# Runs of requests

A component serves requests one after the other, each by running a program to its end. `Run` is a
sequence of such executions; a condition can be imposed on each of them. `Run.invariant` carries an
invariant from the start to every state a run reaches.
-/

namespace Effects

variable {Call : Type → Type} {σ ι α : Type}

/-- The requests served so far, the latest first, each with the calls it has made. -/
abbrev History (ι : Type) (Call : Type → Type) : Type 1 := List (ι × List (Event Call))

/-- A condition on one request, given the requests before it: the state it starts in and the calls
it makes. -/
abbrev Admission (ι : Type) (Call : Type → Type) (σ : Type) : Type 1 :=
  History ι Call → ι → σ → List (Event Call) → Prop

/-- The condition that every execution meets. -/
def Admission.any : Admission ι Call σ := fun _ _ _ _ => True

/-- `Run S program ok s₀ history s`: from `s₀` on the requests of `history` were served, each by
`program` and under the condition `ok`, and led to the state `s`. -/
inductive Run (S : Semantics Call σ) (program : ι → Program Call α) (ok : Admission ι Call σ)
    (s₀ : σ) : History ι Call → σ → Prop where
  | start : Run S program ok s₀ [] s₀
  | request {history : History ι Call} {s s' : σ} {i : ι} {trace : List (Event Call)}
      {result : Option α} :
      Run S program ok s₀ history s → Exec S (program i) s trace result s' →
      ok history i s trace → Run S program ok s₀ ((i, trace) :: history) s'

variable {S : Semantics Call σ} {program : ι → Program Call α} {ok : Admission ι Call σ}
  {s₀ s : σ} {history : History ι Call}

/-- An invariant that holds at the start and that every admitted request keeps holds in every
state a run reaches. -/
theorem Run.invariant (h : Run S program ok s₀ history s) (I : History ι Call → σ → Prop)
    (hstart : I [] s₀)
    (hrequest : ∀ history i s, I history s →
      wp S .any (program i)
        (fun trace _ s' => ok history i s trace → I ((i, trace) :: history) s') s) :
    I history s := by
  induction h with
  | start => exact hstart
  | request _ hexec hok ih => exact wp_exec (hrequest _ _ _ ih) hexec hok

/-- A run under a condition is one under a weaker condition. -/
theorem Run.mono {ok' : Admission ι Call σ} (h : Run S program ok s₀ history s)
    (himp : ∀ history i s trace, ok history i s trace → ok' history i s trace) :
    Run S program ok' s₀ history s := by
  induction h with
  | start => exact .start
  | request _ hexec hok ih => exact .request ih hexec (himp _ _ _ _ hok)

/-! ## What every call keeps -/

/-- What every call keeps, an execution keeps. -/
theorem wp_keep {I : σ → Prop} {p : Program Call α}
    (hcall : ∀ {β : Type} (request : Call β) (answer : β) (s s' : σ),
      S.step request s answer = some s' → I s → I s') (hs : I s) :
    wp S .any p (fun _ _ s' => I s') s := by
  refine ⟨fun _ _ _ _ _ => trivial, ?_⟩
  intro trace result s' hexec
  induction hexec with
  | ret | halt => exact hs
  | call hstep _ ih => exact ih (hcall _ _ _ _ hstep hs)

/-! ## Programs that make only calls of a kind -/

/-- Every call that `p` may make, whatever the answers, is of a kind. -/
inductive Program.Only (kind : (β : Type) → Call β → Prop) : Program Call α → Prop where
  | ret (value : α) : Only kind (.ret value)
  | call {β : Type} {request : Call β} {next : β → Program Call α} :
      kind β request → (∀ answer, Only kind (next answer)) → Only kind (.call request next)

namespace Program

variable {kind : (β : Type) → Call β → Prop} {β : Type}

theorem Only.pure (value : α) : Only kind (Pure.pure value : Program Call α) := .ret value

theorem Only.perform {request : Call α} (h : kind α request) : Only kind (perform request) :=
  .call h fun answer => .ret answer

theorem Only.bind {p : Program Call β} {rest : β → Program Call α} (h : Only kind p)
    (hrest : ∀ value, Only kind (rest value)) : Only kind (p >>= rest) := by
  induction h with
  | ret value => exact hrest value
  | call hrequest _ ih => exact .call hrequest ih

theorem Only.mono {kind' : (β : Type) → Call β → Prop} {p : Program Call α} (h : Only kind p)
    (himp : ∀ (β : Type) (request : Call β), kind β request → kind' β request) :
    Only kind' p := by
  induction h with
  | ret value => exact .ret value
  | call hrequest _ ih => exact .call (himp _ _ hrequest) ih

/-- The rule for a call and what follows it. -/
theorem Only.then {request : Call β} {rest : β → Program Call α} (h : kind β request)
    (hrest : ∀ value, Only kind (rest value)) : Only kind (Program.perform request >>= rest) :=
  (Only.perform h).bind hrest

end Program

/-- Every value that `p` may return, whatever the answers, is one of a kind. -/
inductive Program.Returns (R : α → Prop) : Program Call α → Prop where
  | ret {value : α} : R value → Returns R (.ret value)
  | call {β : Type} {request : Call β} {next : β → Program Call α} :
      (∀ answer, Returns R (next answer)) → Returns R (.call request next)

namespace Program

variable {R : α → Prop} {β : Type}

theorem Returns.pure {value : α} (h : R value) : Returns R (Pure.pure value : Program Call α) :=
  .ret h

/-- What a sequence returns is returned by its last part. -/
theorem Returns.bind {p : Program Call β} {rest : β → Program Call α}
    (hrest : ∀ value, Returns R (rest value)) : Returns R (p >>= rest) := by
  induction p with
  | ret value => exact hrest value
  | call request next ih => exact .call ih

theorem Returns.exec {p : Program Call α} {s s' : σ} {trace : List (Event Call)} {value : α}
    (h : Returns R p) (hexec : Exec S p s trace (some value) s') : R value := by
  induction h generalizing s trace with
  | ret hvalue =>
      cases hexec
      exact hvalue
  | call _ ih =>
      cases hexec with
      | call _ hrest => exact ih _ hrest

end Program

/-- All calls of a trace are of a kind. -/
def Among (kind : (β : Type) → Call β → Prop) (trace : List (Event Call)) : Prop :=
  ∀ e ∈ trace, kind e.β e.call

theorem Among.nil {kind : (β : Type) → Call β → Prop} : Among kind ([] : List (Event Call)) :=
  fun _ he => absurd he List.not_mem_nil

theorem Among.cons {kind : (β : Type) → Call β → Prop} {e : Event Call}
    {trace : List (Event Call)} (he : kind e.β e.call) (h : Among kind trace) :
    Among kind (e :: trace) :=
  List.forall_mem_cons.mpr ⟨he, h⟩

/-- What the calls of a kind keep holds at each call of a program that makes only such calls, and
at its end. -/
theorem wp_only {kind : (β : Type) → Call β → Prop} {I : σ → Prop} {p : Program Call α}
    (hcall : ∀ {β : Type} (request : Call β) (answer : β) (s s' : σ),
      kind β request → S.step request s answer = some s' → I s → I s')
    (h : p.Only kind) (hs : I s) :
    wp S (fun trace β request s' => Among kind trace ∧ kind β request ∧ I s') p
      (fun trace _ s' => Among kind trace ∧ I s') s := by
  induction h generalizing s with
  | ret value => exact wp_ret.mpr ⟨.nil, hs⟩
  | call hrequest _ ih =>
      refine wp_call.mpr ⟨⟨.nil, hrequest, hs⟩, fun _ => ⟨.nil, hs⟩, ?_⟩
      intro answer s' hstep
      refine wp_weaken (ih answer (hcall _ _ _ _ hrequest hstep hs)) ?_ ?_
      · rintro trace β request s'' ⟨htrace, hkind, hs''⟩
        exact ⟨.cons hrequest htrace, hkind, hs''⟩
      · rintro trace _ s'' ⟨htrace, hs''⟩
        exact ⟨.cons hrequest htrace, hs''⟩

/-- A program that makes only calls of a kind. -/
theorem wp_among {kind : (β : Type) → Call β → Prop} {p : Program Call α} {s : σ}
    (h : p.Only kind) : wp S .any p (fun trace _ _ => Among kind trace) s :=
  wp_weaken (wp_only (I := fun _ => True) (fun _ _ _ _ _ _ _ => trivial) h trivial)
    (fun _ _ _ _ _ => trivial) fun _ _ _ h => h.1

/-- The rule for a part of a program that makes only calls of a kind, each of which passes the
guard. -/
theorem wp_only_then {kind : (β : Type) → Call β → Prop} {I : σ → Prop} {ok : Guard Call σ}
    {β : Type} {p : Program Call β} {rest : β → Program Call α} {Q : Post Call σ α}
    (hcall : ∀ {β : Type} (request : Call β) (answer : β) (s s' : σ),
      kind β request → S.step request s answer = some s' → I s → I s')
    (hguard : ∀ trace (β : Type) (request : Call β) s', Among kind trace → kind β request →
      I s' → ok trace β request s')
    (h : p.Only kind) (hs : I s)
    (hnone : ∀ trace s', Among kind trace → I s' → Q trace none s')
    (hnext : ∀ trace value s', Among kind trace → I s' →
      wp S (ok.after trace) (rest value) (Q.after trace) s') :
    wp S ok (p >>= rest) Q s := by
  rw [wp_bind]
  refine wp_weaken (wp_only hcall h hs) ?_ ?_
  · rintro trace β request s' ⟨htrace, hkind, hs'⟩
    exact hguard trace β request s' htrace hkind hs'
  · rintro trace result s' ⟨htrace, hs'⟩
    cases result with
    | none => exact hnone trace s' htrace hs'
    | some value => exact hnext trace value s' htrace hs'

/-! ## Executing with chosen answers -/

/-- The answers chosen for the calls of an execution; no answer stops it. -/
abbrev Chooser (Call : Type → Type) (σ : Type) : Type 1 := (β : Type) → Call β → σ → Option β

/-- The execution in which `choose` answers the calls, up to the first call it does not answer:
the calls made, the result if the program has returned, and the last state. -/
def Program.follow (S : Semantics Call σ) (choose : Chooser Call σ) :
    Program Call α → σ → Option (List (Event Call) × Option α × σ)
  | .ret value, s => some ([], some value, s)
  | .call request next, s =>
      match choose _ request s with
      | none => some ([], none, s)
      | some answer =>
          match S.step request s answer with
          | none => none
          | some s' =>
              ((next answer).follow S choose s').map fun (trace, result, s'') =>
                (⟨request, answer⟩ :: trace, result, s'')

/-- A followed program that has returned has a complete execution. -/
theorem Program.follow_exec {choose : Chooser Call σ} {p : Program Call α} {s s' : σ}
    {trace : List (Event Call)} {value : α}
    (h : p.follow S choose s = some (trace, some value, s')) :
    Exec S p s trace (some value) s' := by
  induction p generalizing s trace with
  | ret value =>
      cases h
      exact .ret _ _
  | call request next ih =>
      simp only [Program.follow] at h
      split at h
      · cases h
      · split at h
        · cases h
        · rename_i hstep
          obtain ⟨⟨trace', result, s''⟩, hrest, heq⟩ := Option.map_eq_some_iff.mp h
          cases heq
          exact .call hstep (ih _ hrest)

/-- Whether the execution with chosen answers returns and passes a test. -/
def Program.check (S : Semantics Call σ) (choose : Chooser Call σ) (p : Program Call α) (s : σ)
    (test : List (Event Call) → α → σ → Bool) : Bool :=
  match p.follow S choose s with
  | some (trace, some value, s') => test trace value s'
  | _ => false

/-- An execution that passes a test exists. -/
theorem Program.check_exec {choose : Chooser Call σ} {p : Program Call α} {s : σ}
    {test : List (Event Call) → α → σ → Bool} (h : p.check S choose s test = true) :
    ∃ trace value s', Exec S p s trace (some value) s' ∧ test trace value s' = true := by
  unfold Program.check at h
  split at h
  · rename_i hfollow
    exact ⟨_, _, _, Program.follow_exec hfollow, h⟩
  · cases h

/-- A followed program that has not returned is about to make a call that is not answered. -/
theorem Program.follow_pending {choose : Chooser Call σ} {p : Program Call α} {s s' : σ}
    {trace : List (Event Call)} (h : p.follow S choose s = some (trace, none, s')) :
    ∃ (β : Type) (request : Call β), choose β request s' = none ∧
      Pending S p s trace request s' := by
  induction p generalizing s trace with
  | ret value => cases h
  | @call β request next ih =>
      simp only [Program.follow] at h
      split at h
      · rename_i hnone
        cases h
        exact ⟨β, request, hnone, .here _ _ _⟩
      · split at h
        · cases h
        · rename_i hstep
          obtain ⟨⟨trace', result, s''⟩, hrest, heq⟩ := Option.map_eq_some_iff.mp h
          cases heq
          obtain ⟨γ, last, hnone, hpending⟩ := ih _ hrest
          exact ⟨γ, last, hnone, .there hstep hpending⟩

/-- Whether the execution with chosen answers stops at a call. -/
def Program.stops (S : Semantics Call σ) (choose : Chooser Call σ) (p : Program Call α) (s : σ) :
    Bool :=
  match p.follow S choose s with
  | some (_, none, _) => true
  | _ => false

/-- An execution that stops is about to make a call that is not answered. -/
theorem Program.stops_pending {choose : Chooser Call σ} {p : Program Call α} {s : σ}
    (h : p.stops S choose s = true) : ∃ trace s' β, ∃ request : Call β,
      choose β request s' = none ∧ Pending S p s trace request s' := by
  unfold Program.stops at h
  split at h
  · rename_i trace s' hfollow
    obtain ⟨β, request, hnone, hpending⟩ := Program.follow_pending hfollow
    exact ⟨trace, s', β, request, hnone, hpending⟩
  · cases h

/-- The run that serves some requests with chosen answers, if all of them return. -/
def Run.follow (S : Semantics Call σ) (program : ι → Program Call α) (choose : Chooser Call σ) :
    List ι → History ι Call → σ → Option (History ι Call × σ)
  | [], history, s => some (history, s)
  | i :: requests, history, s =>
      match (program i).follow S choose s with
      | some (trace, some _, s') =>
          Run.follow S program choose requests ((i, trace) :: history) s'
      | _ => none

theorem Run.follow_run {choose : Chooser Call σ} {requests : List ι}
    {history' : History ι Call} {s' : σ} (h : Run S program .any s₀ history s)
    (hfollow : Run.follow S program choose requests history s = some (history', s')) :
    Run S program .any s₀ history' s' := by
  induction requests generalizing history s with
  | nil =>
      cases hfollow
      exact h
  | cons i requests ih =>
      simp only [Run.follow] at hfollow
      split at hfollow
      · rename_i hexec
        exact ih (.request h (Program.follow_exec hexec) trivial) hfollow
      · cases hfollow

/-- Whether the run that serves some requests with chosen answers passes a test. -/
def Run.check (S : Semantics Call σ) (program : ι → Program Call α) (choose : Chooser Call σ)
    (requests : List ι) (s : σ) (test : History ι Call → σ → Bool) : Bool :=
  match Run.follow S program choose requests [] s with
  | some (history, s') => test history s'
  | none => false

/-- A run that passes a test exists. -/
theorem Run.check_run {choose : Chooser Call σ} {requests : List ι}
    {test : History ι Call → σ → Bool}
    (h : Run.check S program choose requests s₀ test = true) :
    ∃ history s, Run S program .any s₀ history s ∧ test history s = true := by
  unfold Run.check at h
  split at h
  · rename_i hfollow
    exact ⟨_, _, Run.follow_run .start hfollow, h⟩
  · cases h

end Effects
