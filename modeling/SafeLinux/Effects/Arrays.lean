import SafeLinux.Effects.Erase
import SafeLinux.Effects.Run
import Mathlib.Logic.Function.Basic

/-!
# Programs that write an array

A program that fills an array has a call `store` for each element it writes, beside its other calls.
The array is memory: a store behind its end changes what lies there. `wp_stores` splits what is to
be proved: all stores are below a bound, whatever the answers to the other calls, and without its
stores the program is correct.
-/

namespace Effects

variable {Call : Type → Type} {σ ε α : Type}

/-- An element of the array is written. -/
inductive ArrayCall (ε : Type) : Type → Type where
  | store (i : Nat) (value : ε) : ArrayCall ε Unit

/-- A store has nothing to answer. -/
def ArrayCall.reply : {β : Type} → ArrayCall ε β → β
  | _, .store _ _ => ()

/-- The memory of the array and behind it. -/
def arrayMemory : Semantics (ArrayCall ε) (Nat → Option ε) where
  step := fun request cells _ =>
    match request with
    | .store i value => some (Function.update cells i (some value))

/-- Every store of the program is below a bound. -/
def StoresBelow (bound : Nat) : (β : Type) → Either Call (ArrayCall ε) β → Prop
  | _, .inl _ => True
  | _, .inr (.store i _) => i < bound

/-- The guard that lets a store pass only below a bound. -/
def Guard.storesBelow (bound : Nat) : Guard (Either Call (ArrayCall ε)) σ :=
  fun _ β request _ => StoresBelow bound β request

/-- An element is written. -/
def store (i : Nat) (value : ε) : Program (Either Call (ArrayCall ε)) Unit :=
  .perform (.inr (.store i value))

theorem only_lift {bound : Nat} (p : Program Call α) :
    (p.lift .inl : Program (Either Call (ArrayCall ε)) α).Only (StoresBelow bound) := by
  induction p with
  | ret value => exact .ret value
  | call request next ih => exact .call trivial ih

theorem store_bind_erase {i : Nat} {value : ε}
    {rest : Unit → Program (Either Call (ArrayCall ε)) α} :
    (store i value >>= rest).erase ArrayCall.reply = (rest ()).erase ArrayCall.reply := rfl

/-- A program all of whose stores are below a bound, and that is correct without them. -/
theorem wp_stores {S : Semantics Call σ} {bound : Nat}
    {p : Program (Either Call (ArrayCall ε)) α} {Q : Post Call σ α} {s : σ} {cells : Nat → Option ε}
    (honly : p.Only (StoresBelow bound)) (h : wp S .any (p.erase ArrayCall.reply) Q s) :
    wp (S.prod arrayMemory) (.storesBelow bound) p
      (fun trace result s' => Q (trace.filterMap Event.left) result s'.1) (s, cells) := by
  have hreply : ∀ {β : Type} (request : ArrayCall ε β) (answer : β),
      answer = ArrayCall.reply request := by
    intro β request answer
    cases request
    rfl
  have hguard := wp_only (S := S.prod (arrayMemory (ε := ε))) (I := fun _ => True)
    (fun _ _ _ _ _ _ _ => trivial) honly (s := (s, cells)) trivial
  refine ⟨fun trace δ request s' hpending => (wp_pending hguard hpending).2.1, ?_⟩
  intro trace result s' hexec
  exact wp_exec h (hexec.erase hreply)

end Effects
