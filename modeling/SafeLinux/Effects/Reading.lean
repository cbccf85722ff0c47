import SafeLinux.Effects.Actions

/-!
# Programs that read a value

A parser that makes calls reads a value or fails. Some of its calls may be refused, and the observer
sees which. `Reads D` says that a value that is read satisfies `D`, and that, if nothing was
refused, a value that satisfies `D` is read.
-/

namespace Effects

variable {Call : Type → Type} {Act α β ε : Type} {O : Observer Call Act}
  {p : Program Call (Except ε α)}

/-- What is read is what `D` describes, unless a call was refused. -/
structure Reads (D : α → Prop) (acts : List Act) (result : Option (Except ε α)) : Prop where
  sound : ∀ x, result = some (.ok x) → D x
  complete : acts = [] → ∀ x, D x → result = some (.ok x)

/-- Nothing is read. -/
def Fails (_ : List Act) (result : Option (Except ε α)) : Prop := ∀ x, result ≠ some (.ok x)

variable {D : α → Prop} {E : α → β → Prop}

theorem shows_error (err : ε) : (pure (.error err) : Program Call (Except ε α)).Shows O Fails :=
  shows_pure fun _ h => by cases h

/-- The one value described is read. -/
theorem reads_ok {x : α} (h : D x) (hunique : ∀ y, D y → y = x) :
    (pure (.ok x) : Program Call (Except ε α)).Shows O (Reads D) := by
  refine shows_pure ⟨fun y hy => ?_, fun _ y hy => ?_⟩
  · cases hy
    exact h
  · rw [hunique y hy]

theorem Program.Shows.reads_congr {D' : α → Prop} (h : p.Shows O (Reads D))
    (hD : ∀ x, D x ↔ D' x) : p.Shows O (Reads D') := by
  obtain rfl : D = D' := funext fun x => propext (hD x)
  exact h

/-- Where nothing is described, nothing is read. -/
theorem Program.Shows.reads_nothing (h : p.Shows O Fails) (hnone : ∀ x, ¬ D x) :
    p.Shows O (Reads D) :=
  h.mono fun _ _ hfails => ⟨fun x hx => absurd hx (hfails x), fun _ x hx => absurd hx (hnone x)⟩

/-- After a refusal it is enough that nothing is read. -/
theorem Program.Shows.reads_refused (h : p.Shows O Fails) (act : Act) :
    p.Shows O fun acts result => Reads D (act :: acts) result :=
  h.mono fun _ _ hfails => ⟨fun x hx => absurd hx (hfails x), fun hnil => by cases hnil⟩

/-- A value is read, and with it another one. -/
theorem reads_bind {rest : Except ε α → Program Call (Except ε β)} (h : p.Shows O (Reads D))
    (herror : ∀ err, (rest (.error err)).Shows O Fails)
    (hok : ∀ x, D x → (rest (.ok x)).Shows O (Reads (E x))) :
    (p >>= rest).Shows O (Reads fun y => ∃ x, D x ∧ E x y) := by
  refine shows_bind h (fun acts value hread => ?_) fun acts hread => ?_
  · cases value with
    | error err =>
        refine (herror err).mono fun acts' result hfails => ?_
        refine ⟨fun y hy => absurd hy (hfails y), fun hnil y hy => ?_⟩
        obtain ⟨x, hx, _⟩ := hy
        cases hread.complete (List.append_eq_nil_iff.mp hnil).1 x hx
    | ok x =>
        have hx := hread.sound x rfl
        refine (hok x hx).mono fun acts' result hrest => ?_
        refine ⟨fun y hy => ⟨x, hx, hrest.sound y hy⟩, fun hnil y hy => ?_⟩
        obtain ⟨hacts, hacts'⟩ := List.append_eq_nil_iff.mp hnil
        obtain ⟨x', hx', hy⟩ := hy
        cases hread.complete hacts x' hx'
        exact hrest.complete hacts' y hy
  · refine ⟨fun y hy => (by cases hy), fun hnil y hy => ?_⟩
    obtain ⟨x, hx, _⟩ := hy
    cases hread.complete hnil x hx

/-- What a program shows, it shows in each execution whose answers the observer takes to be
possible. -/
theorem Program.Shows.exec_of_possible {σ : Type} {S : Semantics Call σ} {q : Program Call α}
    {R : Shape Act α} {s s' : σ} {trace : List (Event Call)} {result : Option α}
    (hshows : q.Shows O R) (hpossible : ∀ e ∈ trace, O.possible e.call e.answer)
    (hexec : Exec S q s trace result s') : R (O.actions trace) result := by
  induction hexec generalizing R with
  | ret value s => exact hshows
  | halt request next s => exact hshows.1 inferInstance
  | call _ _ ih =>
      obtain ⟨hanswer, hlater⟩ := List.forall_mem_cons.mp hpossible
      have hrest := ih (hshows.2 _ hanswer) hlater
      rwa [Observer.actions_cons]

end Effects
