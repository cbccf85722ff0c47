import SafeLinux.Effects.Run
import Mathlib.Logic.Function.Basic

/-!
# Threads that share a state

A `System` has threads that serve jobs. A thread that serves a job runs its program call by call;
between two of its calls the other threads run. A call and what the thread does up to its next call
are one step, and so is the start of a job. `System.Reach` is the set of pools that any interleaving
of such steps reaches, under a condition on the steps.

`Program.Safe` is the rely-guarantee reading of a program: whatever the other threads do between two
calls, as far as the relation `rely` goes, each call of the program stays within `guarantee`, and
its result satisfies a postcondition. `System.Contract` says that the guarantees of the threads
imply each other's relies; `System.Reach.safe` that they then stay safe in every interleaving, and
`System.Reach.kept` that what the guarantees keep holds in it.
-/

namespace Effects

variable {τ ι : Type} {Call : Type → Type} {σ α : Type}

/-- The threads and the state they share. A thread is idle, or serves a job and has a program left
to run. -/
structure Pool (τ ι : Type) (Call : Type → Type) (σ α : Type) : Type 1 where
  running : τ → Option (ι × Program Call α)
  shared : σ

/-- A pool in which no thread serves a job. -/
def Pool.quiet (s : σ) : Pool τ ι Call σ α := ⟨fun _ => none, s⟩

/-- A system of threads. -/
structure System (τ ι : Type) (Call : Type → Type) (σ α : Type) : Type 1 where
  /-- What the calls of a thread do. -/
  semantics : τ → Semantics Call σ
  /-- The program of a job. -/
  program : ι → Program Call α
  /-- Whether an idle thread can start a job, and the state it then starts in. -/
  start : Pool τ ι Call σ α → τ → ι → σ → Prop
  /-- What a job that returns does to the state. -/
  finish : τ → ι → α → σ → σ

/-- A step: a thread starts a job, or makes a call. -/
inductive Move (τ ι : Type) (Call : Type → Type) : Type 1 where
  | start (t : τ) (i : ι)
  | call (t : τ) (e : Event Call)

variable [DecidableEq τ]

/-- The pool in which a thread has come to a program: it goes on with it, or is idle again when the
program has returned. -/
def System.resume (M : System τ ι Call σ α) (running : τ → Option (ι × Program Call α)) (t : τ)
    (i : ι) (p : Program Call α) (s : σ) : Pool τ ι Call σ α :=
  match p with
  | .ret value => ⟨Function.update running t none, M.finish t i value s⟩
  | .call request next => ⟨Function.update running t (some (i, .call request next)), s⟩

/-- The steps of a system. -/
inductive System.Step (M : System τ ι Call σ α) :
    Pool τ ι Call σ α → Move τ ι Call → Pool τ ι Call σ α → Prop where
  | start {P : Pool τ ι Call σ α} {t : τ} {i : ι} {s : σ} :
      P.running t = none → M.start P t i s →
      Step M P (.start t i) (M.resume P.running t i (M.program i) s)
  | call {P : Pool τ ι Call σ α} {t : τ} {i : ι} {β : Type} {request : Call β}
      {next : β → Program Call α} {answer : β} {s : σ} :
      P.running t = some (i, .call request next) →
      (M.semantics t).step request P.shared answer = some s →
      Step M P (.call t ⟨request, answer⟩) (M.resume P.running t i (next answer) s)

/-- The pools reached from `P₀` by steps that meet the condition `ok`. -/
inductive System.Reach (M : System τ ι Call σ α)
    (ok : Pool τ ι Call σ α → Move τ ι Call → Prop) (P₀ : Pool τ ι Call σ α) :
    Pool τ ι Call σ α → Prop where
  | here : Reach M ok P₀ P₀
  | step {P P' : Pool τ ι Call σ α} {m : Move τ ι Call} :
      Reach M ok P₀ P → M.Step P m P' → ok P m → Reach M ok P₀ P'

/-- The condition that every step meets. -/
def Move.any (_ : Pool τ ι Call σ α) (_ : Move τ ι Call) : Prop := True

variable {M : System τ ι Call σ α} {ok : Pool τ ι Call σ α → Move τ ι Call → Prop}
  {P₀ P : Pool τ ι Call σ α}

/-- What holds at the start and is kept by every step holds in every pool reached. -/
theorem System.Reach.invariant (h : M.Reach ok P₀ P) (I : Pool τ ι Call σ α → Prop)
    (hstart : I P₀) (hstep : ∀ P m P', I P → M.Step P m P' → ok P m → I P') : I P := by
  induction h with
  | here => exact hstart
  | step _ hmove hok ih => exact hstep _ _ _ ih hmove hok

/-- Pools reached under a condition are reached under a weaker one. -/
theorem System.Reach.mono {ok' : Pool τ ι Call σ α → Move τ ι Call → Prop}
    (h : M.Reach ok P₀ P) (himp : ∀ P m, ok P m → ok' P m) : M.Reach ok' P₀ P := by
  induction h with
  | here => exact .here
  | step _ hmove hok ih => exact .step ih hmove (himp _ _ hok)

/-- A run goes on with the start of a job. -/
theorem System.Reach.start {s : σ} (h : M.Reach ok P₀ P) (t : τ) (i : ι)
    (hidle : P.running t = none) (hstart : M.start P t i s) (hok : ok P (.start t i)) :
    M.Reach ok P₀ (M.resume P.running t i (M.program i) s) :=
  .step h (.start hidle hstart) hok

/-- A run goes on with a call of a thread. -/
theorem System.Reach.call {i : ι} {β : Type} {request : Call β} {next : β → Program Call α} {s : σ}
    (h : M.Reach ok P₀ P) (t : τ) (answer : β)
    (hrunning : P.running t = some (i, .call request next))
    (hcall : (M.semantics t).step request P.shared answer = some s)
    (hok : ok P (.call t ⟨request, answer⟩)) :
    M.Reach ok P₀ (M.resume P.running t i (next answer) s) :=
  .step h (.call hrunning hcall) hok

/-- A run goes on with a job that a thread serves from start to end while the others wait, with
calls that meet a test. -/
theorem System.Reach.exec_guarded {i : ι} {s s' : σ} {t : τ} {trace : List (Event Call)} {value : α}
    {test : σ → Event Call → Bool} (h : M.Reach ok P₀ P) (hidle : P.running t = none)
    (hstart : M.start P t i s) (hok : ok P (.start t i))
    (hcalls : ∀ P' e, M.Reach ok P₀ P' → (∀ u, u ≠ t → P'.running u = P.running u) →
      e ∈ trace → test P'.shared e = true → ok P' (.call t e))
    (hexec : Exec ((M.semantics t).guarded test) (M.program i) s trace (some value) s') :
    ∃ P', M.Reach ok P₀ P' ∧ P'.running = P.running ∧ P'.shared = M.finish t i value s' := by
  -- From a pool in which the thread has come to a program, it runs the program to its end.
  have hrest : ∀ (p : Program Call α) (running : τ → Option (ι × Program Call α)) (s : σ)
      (rest : List (Event Call)), (∀ e, e ∈ rest → e ∈ trace) →
      (∀ u, u ≠ t → running u = P.running u) →
      Exec ((M.semantics t).guarded test) p s rest (some value) s' →
      M.Reach ok P₀ (M.resume running t i p s) →
      ∃ P', M.Reach ok P₀ P' ∧ P'.running = P.running ∧ P'.shared = M.finish t i value s' := by
    intro p
    induction p with
    | ret result =>
        intro running s rest _ hothers hexec hreach
        cases hexec
        refine ⟨_, hreach, funext fun u => ?_, rfl⟩
        by_cases hu : u = t
        · rw [hu, hidle]
          exact Function.update_self ..
        · exact (Function.update_of_ne hu _ _).trans (hothers u hu)
    | call request next ih =>
        intro running s rest htrace hothers hexec hreach
        cases hexec with
        | @call _ _ _ _ s'' _ answer rest _ hstep hnext =>
            obtain ⟨htest, hstep⟩ := Semantics.guarded_step.mp hstep
            have hothers' : ∀ u, u ≠ t →
                (M.resume running t i (.call request next) s).running u = P.running u := fun u hu =>
              (Function.update_of_ne hu _ _).trans (hothers u hu)
            have hrunning : (M.resume running t i (.call request next) s).running t =
              some (i, .call request next) := Function.update_self ..
            have hcall := hcalls _ _ hreach hothers' (htrace _ List.mem_cons_self) htest
            exact ih answer _ _ rest (fun e he => htrace e (List.mem_cons_of_mem _ he)) hothers'
              hnext (hreach.call t answer hrunning hstep hcall)
  exact hrest _ _ _ _ (fun _ he => he) (fun _ _ => rfl) hexec (h.start t i hidle hstart hok)

/-- A run goes on with a job that a thread serves from start to end while the others wait. -/
theorem System.Reach.exec {i : ι} {s s' : σ} {t : τ} {trace : List (Event Call)} {value : α}
    (h : M.Reach ok P₀ P) (hidle : P.running t = none) (hstart : M.start P t i s)
    (hok : ok P (.start t i)) (hcalls : ∀ P' e, e ∈ trace → ok P' (.call t e))
    (hexec : Exec (M.semantics t) (M.program i) s trace (some value) s') :
    ∃ P', M.Reach ok P₀ P' ∧ P'.running = P.running ∧ P'.shared = M.finish t i value s' := by
  have hexec' : Exec ((M.semantics t).guarded fun _ _ => true) (M.program i) s trace (some value)
    s' := hexec
  exact h.exec_guarded hidle hstart hok (fun P' e _ _ he _ => hcalls P' e he) hexec'

/-- The pool after calls of some threads in turn, with chosen answers and as long as the calls meet a
test. A thread that is idle is passed over. -/
def System.play (M : System τ ι Call σ α) (choose : τ → Chooser Call σ)
    (test : τ → σ → Event Call → Bool) :
    List τ → Pool τ ι Call σ α → Option (Pool τ ι Call σ α)
  | [], P => some P
  | t :: turns, P =>
      match P.running t with
      | some (i, .call request next) =>
          match choose t _ request P.shared with
          | none => none
          | some answer =>
              if test t P.shared ⟨request, answer⟩ then
                match (M.semantics t).step request P.shared answer with
                | none => none
                | some s => M.play choose test turns (M.resume P.running t i (next answer) s)
              else none
      | _ => M.play choose test turns P

/-- A run goes on with calls of some threads in turn. -/
theorem System.Reach.play {choose : τ → Chooser Call σ} {test : τ → σ → Event Call → Bool}
    {turns : List τ} {P' : Pool τ ι Call σ α} (h : M.Reach ok P₀ P)
    (hcalls : ∀ P t e, test t P.shared e = true → ok P (.call t e))
    (hplay : M.play choose test turns P = some P') : M.Reach ok P₀ P' := by
  induction turns generalizing P with
  | nil =>
      cases hplay
      exact h
  | cons t turns ih =>
      unfold System.play at hplay
      split at hplay
      · rename_i hrunning
        split at hplay
        · cases hplay
        · split at hplay
          · rename_i htest
            split at hplay
            · cases hplay
            · rename_i hstep
              exact ih (h.call t _ hrunning hstep (hcalls P t _ htest)) hplay
          · cases hplay
      · exact ih h hplay

/-- Whether the calls of some threads in turn can be made, and what holds after. -/
def System.plays (M : System τ ι Call σ α) (choose : τ → Chooser Call σ)
    (test : τ → σ → Event Call → Bool) (turns : List τ) (P : Pool τ ι Call σ α)
    (facts : σ → Bool) : Bool :=
  match M.play choose test turns P with
  | some P' => facts P'.shared
  | none => false

/-- A run goes on with calls of some threads to a pool of which the facts hold. -/
theorem System.Reach.plays {choose : τ → Chooser Call σ} {test : τ → σ → Event Call → Bool}
    {turns : List τ} {facts : σ → Bool} (h : M.Reach ok P₀ P)
    (hcalls : ∀ P t e, test t P.shared e = true → ok P (.call t e))
    (hplays : M.plays choose test turns P facts = true) :
    ∃ P', M.Reach ok P₀ P' ∧ facts P'.shared = true := by
  unfold System.plays at hplays
  split at hplays
  · rename_i P' hplay
    exact ⟨P', h.play hcalls hplay, hplays⟩
  · cases hplays

/-! ## What holds of each thread -/

omit [DecidableEq τ] in
/-- A condition on each thread and the shared state: `A` of an idle thread, `B` of one that serves a
job. -/
structure Pool.Each (A : τ → σ → Prop) (B : τ → ι → Program Call α → σ → Prop)
    (P : Pool τ ι Call σ α) : Prop where
  idle : ∀ t, P.running t = none → A t P.shared
  busy : ∀ t i p, P.running t = some (i, p) → B t i p P.shared

variable {A : τ → σ → Prop} {B : τ → ι → Program Call α → σ → Prop}

omit [DecidableEq τ] in
theorem Pool.each_quiet {s : σ} (h : ∀ t, A t s) :
    (Pool.quiet s : Pool τ ι Call σ α).Each A B :=
  ⟨fun t _ => h t, fun _ _ _ hrunning => nomatch hrunning⟩

/-- A thread's step leaves what the other threads run. -/
theorem System.resume_running_of_ne {running : τ → Option (ι × Program Call α)} {t u : τ} {i : ι}
    {p : Program Call α} {s : σ} (hu : u ≠ t) :
    (M.resume running t i p s).running u = running u := by
  cases p <;> exact Function.update_of_ne hu _ _

/-- A thread whose program has returned is idle. -/
theorem System.resume_running_ret {running : τ → Option (ι × Program Call α)} {t : τ} {i : ι}
    {value : α} {s : σ} : (M.resume running t i (.ret value) s).running t = none :=
  Function.update_self ..

/-- A thread whose program has a call left goes on with it. -/
theorem System.resume_running_call {running : τ → Option (ι × Program Call α)} {t : τ} {i : ι}
    {β : Type} {request : Call β} {next : β → Program Call α} {s : σ} :
    (M.resume running t i (.call request next) s).running t = some (i, .call request next) :=
  Function.update_self ..

/-- What a thread runs after a step: the job of the step with the program it has come to, or, on
another thread, what it ran before. -/
theorem System.resume_running_cases {running : τ → Option (ι × Program Call α)} {t u : τ} {i j : ι}
    {p q : Program Call α} {s : σ} (h : (M.resume running t i p s).running u = some (j, q)) :
    u = t ∧ j = i ∧ q = p ∧ (∀ value, p ≠ .ret value) ∨ u ≠ t ∧ running u = some (j, q) := by
  by_cases hu : u = t
  · subst hu
    cases p with
    | ret value =>
        rw [System.resume_running_ret] at h
        cases h
    | call request next =>
        rw [System.resume_running_call] at h
        cases h
        exact .inl ⟨rfl, rfl, rfl, fun _ hret => nomatch hret⟩
  · rw [System.resume_running_of_ne hu] at h
    exact .inr ⟨hu, h⟩

/-- A step of a thread keeps a condition on each thread when it holds again of the thread and what
the thread did keeps it for the others. -/
theorem Pool.Each.resume (h : P.Each A B) {t : τ} {i : ι} {p : Program Call α} {s s' : σ}
    (hshared : (M.resume P.running t i p s).shared = s')
    (hreturn : ∀ value, p = .ret value → A t s')
    (hgo : ∀ (β : Type) (request : Call β) (next : β → Program Call α),
      p = .call request next → B t i p s')
    (hidle : ∀ u, u ≠ t → A u P.shared → A u s')
    (hbusy : ∀ u, u ≠ t → ∀ j q, B u j q P.shared → B u j q s') :
    (M.resume P.running t i p s).Each A B := by
  constructor
  · intro u hrunning
    rw [hshared]
    by_cases hu : u = t
    · subst hu
      cases p with
      | ret value => exact hreturn value rfl
      | call request next =>
          rw [System.resume_running_call] at hrunning
          cases hrunning
    · rw [System.resume_running_of_ne hu] at hrunning
      exact hidle u hu (h.idle u hrunning)
  · intro u j q hrunning
    rw [hshared]
    by_cases hu : u = t
    · subst hu
      cases p with
      | ret value =>
          rw [System.resume_running_ret] at hrunning
          cases hrunning
      | call request next =>
          rw [System.resume_running_call] at hrunning
          cases hrunning
          exact hgo _ request next rfl
    · rw [System.resume_running_of_ne hu] at hrunning
      exact hbusy u hu j q (h.busy u j q hrunning)

/-! ## Rely and guarantee -/

/-- A program that, whatever others do within `rely` between two of its calls, makes only calls that
stay within `guarantee`, as long as its calls meet `ok`, and returns a result with `post`. -/
def Program.Safe (S : Semantics Call σ) (ok : σ → Event Call → Prop) (rely guarantee : σ → σ → Prop)
    (post : α → σ → Prop) : Program Call α → σ → Prop
  | .ret value, s => post value s
  | .call request next, s => ∀ s', rely s s' → ∀ answer s'',
      S.step request s' answer = some s'' → ok s' ⟨request, answer⟩ →
        guarantee s' s'' ∧ (next answer).Safe S ok rely guarantee post s''

section

variable {S : Semantics Call σ} {cond : σ → Event Call → Prop} {rely guarantee : σ → σ → Prop}
  {post : α → σ → Prop}

/-- What others do keeps a program with a call left safe. -/
theorem Program.Safe.stable {p : Program Call α} {s s' : σ}
    (htrans : ∀ s s' s'', rely s s' → rely s' s'' → rely s s'')
    (hpost : ∀ value, post value s → post value s')
    (h : p.Safe S cond rely guarantee post s) (hrely : rely s s') :
    p.Safe S cond rely guarantee post s' := by
  cases p with
  | ret value => exact hpost value h
  | call request next => exact fun s'' hrely' => h s'' (htrans _ _ _ hrely hrely')

/-- The rule for a result. -/
theorem Program.safe_pure {value : α} {s : σ} (h : post value s) :
    (pure value : Program Call α).Safe S cond rely guarantee post s := h

/-- The rule for a call and what follows it. -/
theorem Program.safe_then {β : Type} {request : Call β} {rest : β → Program Call α} {s : σ}
    (h : ∀ s', rely s s' → ∀ answer s'', S.step request s' answer = some s'' →
      cond s' ⟨request, answer⟩ →
        guarantee s' s'' ∧ (rest answer).Safe S cond rely guarantee post s'') :
    (Program.perform request >>= rest).Safe S cond rely guarantee post s := h

/-- A program whose calls all stay within the guarantee, whenever they are made, is safe. -/
theorem Program.Only.safe {kind : (β : Type) → Call β → Prop} {p : Program Call α} (h : p.Only kind)
    (hcall : ∀ (β : Type) (request : Call β) s answer s', kind β request →
      S.step request s answer = some s' → guarantee s s')
    (hpost : ∀ value s, post value s) (s : σ) : p.Safe S cond rely guarantee post s := by
  induction h generalizing s with
  | ret value => exact hpost value s
  | call hkind _ ih =>
      intro s' _ answer s'' hstep _
      exact ⟨hcall _ _ s' answer s'' hkind hstep, ih answer s''⟩

end

/-- Threads that keep to their relies and guarantees. `A` holds of an idle thread, `cond` of the
calls that are made, and `Q` when a job has returned. -/
structure System.Contract (M : System τ ι Call σ α)
    (ok : Pool τ ι Call σ α → Move τ ι Call → Prop) (A : τ → σ → Prop)
    (cond : τ → σ → Event Call → Prop) (rely guarantee : τ → σ → σ → Prop)
    (Q : τ → ι → α → σ → Prop) : Prop where
  admits : ∀ P t e, ok P (.call t e) → cond t P.shared e
  refl : ∀ t s, rely t s s
  trans : ∀ t s s' s'', rely t s s' → rely t s' s'' → rely t s s''
  /-- What a thread guarantees the others rely on. -/
  others : ∀ t u s s', u ≠ t → guarantee t s s' → rely u s s'
  idle : ∀ t s s', rely t s s' → A t s → A t s'
  post : ∀ t i value s s', rely t s s' → Q t i value s → Q t i value s'
  start : ∀ P t i s, A t P.shared → M.start P t i s →
    guarantee t P.shared s ∧
      (M.program i).Safe (M.semantics t) (cond t) (rely t) (guarantee t) (Q t i) s
  finish : ∀ t i value s, Q t i value s →
    guarantee t s (M.finish t i value s) ∧ A t (M.finish t i value s)

section

variable {cond : τ → σ → Event Call → Prop} {rely guarantee : τ → σ → σ → Prop}
  {Q : τ → ι → α → σ → Prop}

/-- Threads that keep to a contract stay safe in every interleaving. -/
theorem System.Reach.safe (h : M.Reach ok P₀ P) (hM : M.Contract ok A cond rely guarantee Q)
    (hquiet : ∀ t, P₀.running t = none ∧ A t P₀.shared) :
    P.Each A fun t i p s =>
      p.Safe (M.semantics t) (cond t) (rely t) (guarantee t) (Q t i) s := by
  -- A thread that has come to a safe program, within its guarantee, leaves every thread safe.
  have hresume : ∀ (P : Pool τ ι Call σ α) (t : τ) (i : ι) (p : Program Call α) (s : σ),
      (P.Each A fun t i p s =>
        p.Safe (M.semantics t) (cond t) (rely t) (guarantee t) (Q t i) s) →
      guarantee t P.shared s →
      p.Safe (M.semantics t) (cond t) (rely t) (guarantee t) (Q t i) s →
      (M.resume P.running t i p s).Each A fun t i p s =>
        p.Safe (M.semantics t) (cond t) (rely t) (guarantee t) (Q t i) s := by
    intro P t i p s heach hguarantee hsafe
    have hrely : ∀ u, u ≠ t → rely u P.shared (M.resume P.running t i p s).shared := by
      intro u hu
      cases p with
      | ret value =>
          exact hM.trans u _ _ _ (hM.others t u _ _ hu hguarantee)
            (hM.others t u _ _ hu (hM.finish t i value s hsafe).1)
      | call request next => exact hM.others t u _ _ hu hguarantee
    refine heach.resume rfl ?_ ?_ ?_ ?_
    · rintro value rfl
      exact (hM.finish t i value s hsafe).2
    · rintro β request next rfl
      exact hsafe
    · exact fun u hu hA => hM.idle u _ _ (hrely u hu) hA
    · exact fun u hu j q hB => hB.stable (hM.trans u)
        (fun value => hM.post u j value _ _ (hrely u hu)) (hrely u hu)
  refine h.invariant _ ⟨fun t _ => (hquiet t).2, fun t i p ht => ?_⟩ ?_
  · rw [(hquiet t).1] at ht
    cases ht
  · intro P m P' heach hstep hok
    cases hstep with
    | start hrunning hstart =>
        obtain ⟨hguarantee, hsafe⟩ := hM.start _ _ _ _ (heach.idle _ hrunning) hstart
        exact hresume _ _ _ _ _ heach hguarantee hsafe
    | call hrunning hcall =>
        obtain ⟨hguarantee, hsafe⟩ :=
          heach.busy _ _ _ hrunning _ (hM.refl _ _) _ _ hcall (hM.admits _ _ _ hok)
        exact hresume _ _ _ _ _ heach hguarantee hsafe

/-- What the guarantee of every thread keeps holds of the shared state in every interleaving. -/
theorem System.Reach.kept (h : M.Reach ok P₀ P) (hM : M.Contract ok A cond rely guarantee Q)
    (hquiet : ∀ t, P₀.running t = none ∧ A t P₀.shared) {J : σ → Prop}
    (hkeeps : ∀ t s s', guarantee t s s' → J s → J s') (hstart : J P₀.shared) : J P.shared := by
  have hresume : ∀ (running : τ → Option (ι × Program Call α)) (t : τ) (i : ι)
      (p : Program Call α) (s : σ), J s →
      p.Safe (M.semantics t) (cond t) (rely t) (guarantee t) (Q t i) s →
      J (M.resume running t i p s).shared := by
    intro running t i p s hJ hsafe
    cases p with
    | ret value => exact hkeeps t _ _ (hM.finish t i value s hsafe).1 hJ
    | call request next => exact hJ
  induction h with
  | here => exact hstart
  | step hreach hmove hok ih =>
      have heach := hreach.safe hM hquiet
      cases hmove with
      | start hrunning hs =>
          obtain ⟨hguarantee, hsafe⟩ := hM.start _ _ _ _ (heach.idle _ hrunning) hs
          exact hresume _ _ _ _ _ (hkeeps _ _ _ hguarantee ih) hsafe
      | call hrunning hcall =>
          obtain ⟨hguarantee, hsafe⟩ :=
            heach.busy _ _ _ hrunning _ (hM.refl _ _) _ _ hcall (hM.admits _ _ _ hok)
          exact hresume _ _ _ _ _ (hkeeps _ _ _ hguarantee ih) hsafe

end

end Effects
