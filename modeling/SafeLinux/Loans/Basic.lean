import Mathlib.Algebra.Order.Group.Multiset

/-!
# Loans

A list of loans says what was taken and what was given back, in this order. Something may be taken
several times, and has then to be given back as often. `settle` follows what is held along the
loans; they are settled when nothing was given back that was not held and nothing is held at the
end. Settled loans can be put together, and they give back what they take, as often.
-/

namespace Loans

variable {ρ : Type*} [DecidableEq ρ] {held held' : Multiset ρ} {r : ρ}

/-- Something is taken or given back. -/
inductive Loan (ρ : Type*) where
  | take (r : ρ)
  | give (r : ρ)
  deriving DecidableEq

variable {loans loans' : List (Loan ρ)}

/-- What is held after some loans, unless something was given back that was not held. -/
def settle (held : Multiset ρ) : List (Loan ρ) → Option (Multiset ρ)
  | [] => some held
  | .take r :: loans => settle (r ::ₘ held) loans
  | .give r :: loans => if r ∈ held then settle (held.erase r) loans else none

/-- Everything that was taken was given back, each time once, and nothing else was. -/
def Settled (loans : List (Loan ρ)) : Prop := settle 0 loans = some 0

instance : Decidable (Settled loans) := inferInstanceAs (Decidable (_ = _))

@[simp] theorem settled_nil : Settled ([] : List (Loan ρ)) := rfl

theorem settle_append :
    settle held (loans ++ loans') = (settle held loans).bind fun held => settle held loans' := by
  induction loans generalizing held with
  | nil => rfl
  | cons loan loans ih =>
      cases loan with
      | take r => exact ih
      | give r =>
          show (if r ∈ held then _ else _) = Option.bind (if r ∈ held then _ else _) _
          split
          · exact ih
          · rfl

/-- What is held besides makes no difference. -/
theorem settle_add (h : settle held loans = some held') (more : Multiset ρ) :
    settle (held + more) loans = some (held' + more) := by
  induction loans generalizing held with
  | nil => rw [show held = held' from Option.some.inj h, settle]
  | cons loan loans ih =>
      cases loan with
      | take r =>
          show settle (r ::ₘ (held + more)) loans = _
          rw [← Multiset.cons_add]
          exact ih h
      | give r =>
          obtain ⟨hr, hrest⟩ := Option.ite_none_right_eq_some.mp h
          show (if r ∈ held + more then _ else _) = _
          rw [if_pos (Multiset.mem_add.mpr (.inl hr)), Multiset.erase_add_left_pos more hr]
          exact ih hrest

/-- Settled loans leave what is held. -/
theorem Settled.settle_eq (h : Settled loans) (held : Multiset ρ) :
    settle held loans = some held := by
  have hmore := settle_add h held
  rwa [zero_add] at hmore

/-- Settled loans one after the other. -/
theorem Settled.append (h : Settled loans) (h' : Settled loans') : Settled (loans ++ loans') := by
  rw [Settled, settle_append, h, Option.bind_some]
  exact h'

/-- Settled loans between taking something and giving it back. -/
theorem Settled.between (h : Settled loans) (r : ρ) :
    Settled (.take r :: (loans ++ [.give r])) := by
  show settle (r ::ₘ 0) (loans ++ [.give r]) = some 0
  rw [settle_append, h.settle_eq, Option.bind_some]
  simp [settle]

/-- Everything that is taken, each time. -/
def taken : List (Loan ρ) → Multiset ρ
  | [] => 0
  | .take r :: loans => r ::ₘ taken loans
  | .give _ :: loans => taken loans

/-- Everything that is given back, each time. -/
def given : List (Loan ρ) → Multiset ρ
  | [] => 0
  | .take _ :: loans => given loans
  | .give r :: loans => r ::ₘ given loans

omit [DecidableEq ρ] in
@[simp] theorem taken_append : taken (loans ++ loans') = taken loans + taken loans' := by
  induction loans with
  | nil => exact (zero_add _).symm
  | cons loan loans ih =>
      cases loan with
      | take r =>
          show r ::ₘ taken (loans ++ loans') = r ::ₘ taken loans + taken loans'
          rw [ih, Multiset.cons_add]
      | give r => exact ih

omit [DecidableEq ρ] in
@[simp] theorem given_append : given (loans ++ loans') = given loans + given loans' := by
  induction loans with
  | nil => exact (zero_add _).symm
  | cons loan loans ih =>
      cases loan with
      | take r => exact ih
      | give r =>
          show r ::ₘ given (loans ++ loans') = r ::ₘ given loans + given loans'
          rw [ih, Multiset.cons_add]

/-- What was held and what was taken is what is held and what was given back. -/
theorem settle_balance (h : settle held loans = some held') :
    held + taken loans = held' + given loans := by
  induction loans generalizing held with
  | nil => rw [show held = held' from Option.some.inj h, taken, given]
  | cons loan loans ih =>
      cases loan with
      | take r =>
          have hrest : r ::ₘ held + taken loans = held' + given loans := ih h
          show held + r ::ₘ taken loans = held' + given loans
          rw [Multiset.add_cons, ← Multiset.cons_add, hrest]
      | give r =>
          obtain ⟨hr, hrest⟩ := Option.ite_none_right_eq_some.mp h
          show held + taken loans = held' + r ::ₘ given loans
          rw [← Multiset.cons_erase hr, Multiset.cons_add, ih hrest, Multiset.add_cons]

/-- Settled loans give back what they take. -/
theorem Settled.balance (h : Settled loans) : taken loans = given loans := by
  have hbalance := settle_balance h
  rwa [zero_add, zero_add] at hbalance

end Loans
