import Mathlib.Logic.Function.Basic

/-!
# A register and its cached copy

Threads that share a register of a device and a copy of its value, without a lock. A thread writes
the register, or reads it, and publishes the value as the copy in a later step; between the two its
window is open. `Step` are the steps in which nobody writes the register in the window of another
thread. They keep `Cell.Agrees`: the copy is the value of the register, unless a thread has that
value still to publish.
-/

namespace Cached

/-- A register, its copy and the threads' windows. -/
structure Cell (τ V : Type*) where
  register : V
  copy : V
  /-- The value that a thread has written to the register, or has read from it, and has not
  published. -/
  window : τ → Option V
  /-- The register has been written or read. -/
  known : Bool

variable {τ V : Type*} [DecidableEq τ] {t u : τ} {c c' : Cell τ V}

/-- What a thread does to the register and the copy in one step. -/
inductive Step (t : τ) : Cell τ V → Cell τ V → Prop where
  | stay {c : Cell τ V} : Step t c c
  | write {c : Cell τ V} (v : V) : (∀ u ≠ t, c.window u = none) →
      Step t c ⟨v, c.copy, Function.update c.window t (some v), true⟩
  | read {c : Cell τ V} :
      Step t c ⟨c.register, c.copy, Function.update c.window t (some c.register), true⟩
  | publish {c : Cell τ V} {v : V} : c.window t = some v →
      Step t c ⟨c.register, v, Function.update c.window t none, c.known⟩

/-- The register has the value of every window. Once it is known, the copy has its value too, or is
about to be given it. -/
structure Cell.Agrees (c : Cell τ V) : Prop where
  open_eq : ∀ t v, c.window t = some v → v = c.register
  copy_eq : c.known = true → c.copy = c.register ∨ ∃ t, c.window t = some c.register

/-- A step leaves the windows of the other threads. -/
theorem Step.window_of_ne (h : Step t c c') (hu : u ≠ t) : c'.window u = c.window u := by
  cases h with
  | stay => rfl
  | write | read | publish => exact Function.update_of_ne hu _ _

/-- The windows after that of `t` has changed. -/
theorem window_update {window : τ → Option V} {value : Option V} {x : V}
    (hself : ∀ v, value = some v → v = x) (hothers : ∀ u ≠ t, ∀ v, window u = some v → v = x)
    (u : τ) (v : V) (h : Function.update window t value u = some v) : v = x := by
  by_cases hu : u = t
  · subst hu
    rw [Function.update_self] at h
    exact hself v h
  · rw [Function.update_of_ne hu] at h
    exact hothers u hu v h

theorem Step.agrees (h : Step t c c') (hc : c.Agrees) : c'.Agrees := by
  have hothers : ∀ u ≠ t, ∀ v, c.window u = some v → v = c.register := fun u _ v hv =>
    hc.open_eq u v hv
  cases h with
  | stay => exact hc
  | write v halone =>
      refine ⟨window_update (fun w hw => (Option.some.inj hw).symm) fun u hu w hw => ?_,
        fun _ => .inr ⟨t, Function.update_self ..⟩⟩
      rw [halone u hu] at hw
      cases hw
  | read =>
      exact ⟨window_update (fun w hw => (Option.some.inj hw).symm) hothers,
        fun _ => .inr ⟨t, Function.update_self ..⟩⟩
  | publish hopen =>
      -- The value published is the register's, whatever the other windows hold.
      exact ⟨window_update (fun w hw => by cases hw) hothers, fun _ => .inl (hc.open_eq t _ hopen)⟩

end Cached
