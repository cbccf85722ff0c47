import SafeLinux.Kiumd.SecureShapes

/-!
# Owners of memory

`qcom_scm_assign_mem` fails without effect, or makes the owners of a range exactly those of its
destination list. So the owners of a place after some actions are the destination of the last
assignment of the place that has succeeded.
-/

namespace SafeLinux.Kiumd

open Effects

/-- The virtual machines of a destination list. -/
def ownersOf (dst : List QcomScmVmperm) : Finset Int := (dst.map (·.vmid)).toFinset

/-- The owners of a place after an action. -/
def Act.owner (l : Loc) (o : Finset Int) : Act → Finset Int
  | .assign range _ dst ret => if ret = 0 ∧ range.contains l then ownersOf dst else o
  | _ => o

/-- The owners of a place after some actions. -/
def ownerAfter (l : Loc) (acts : List Act) (o : Finset Int) : Finset Int :=
  acts.foldl (Act.owner l) o

variable {β : Type} {w w' : World} {l : Loc} {o : Finset Int} {act : Act} {as bs : List Act}
  {request : KCall β} {answer : β} {trace : List (Event KCall)}

@[simp] theorem ownerAfter_nil : ownerAfter l [] o = o := rfl

@[simp] theorem ownerAfter_cons :
    ownerAfter l (act :: as) o = ownerAfter l as (act.owner l o) := rfl

@[simp] theorem ownerAfter_append :
    ownerAfter l (as ++ bs) o = ownerAfter l bs (ownerAfter l as o) :=
  List.foldl_append

/-- The action does not assign the place. -/
def Act.SparesOwner (l : Loc) (act : Act) : Prop := ∀ o, act.owner l o = o

theorem ownerAfter_spares (h : ∀ act ∈ as, act.SparesOwner l) : ownerAfter l as o = o := by
  induction as with
  | nil => rfl
  | cons act as ih =>
      rw [ownerAfter_cons, h act List.mem_cons_self o]
      exact ih fun act hact => h act (List.mem_cons_of_mem _ hact)

/-- An action that does not change the owners spares every place. -/
theorem Act.sparesOwner_of_writes (h : Field.owner ∉ act.writes) : act.SparesOwner l := by
  intro o
  cases act
  case assign => exact absurd List.mem_cons_self h
  all_goals rfl

/-- An assignment is the action of `qcom_scm_assign_mem`. -/
theorem act_eq_assign {range : MemRange} {src : U64} {dst : List QcomScmVmperm} {ret : Int}
    (hstep : kernelStep request w answer = some w')
    (hact : request.act answer = some (.assign range src dst ret)) :
    w'.owner l = (Act.assign range src dst ret).owner l (w.owner l) := by
  cases request with
  | qcomScmAssignMem range src dst =>
      cases hact
      simp only [kernelStep] at hstep
      split at hstep
      · rename_i hzero
        cases hstep
        simp [Act.owner, hzero, ownersOf]
      · rename_i hne
        split at hstep <;> cases hstep
        simp [Act.owner, hne]
  | dmaMapSgtable | dmaMapResource =>
      simp only [KCall.act] at hact
      split at hact <;> cases hact
  | _ =>
      first
        | cases hact
        | (cases answer <;> cases hact)

/-- A call changes the owners of a place as its action says. -/
theorem step_owner (hstep : kernelStep request w answer = some w') :
    w'.owner l = ownerAfter l (request.act answer).toList (w.owner l) := by
  by_cases hact : ∀ act ∈ request.act answer, Field.owner ∉ act.writes
  · have hsame : w'.owner = w.owner := agrees_of_act rfl hstep hact
    rw [hsame, ownerAfter_spares]
    intro act hmem
    exact Act.sparesOwner_of_writes (hact act (Option.mem_toList.mp hmem))
  · push Not at hact
    obtain ⟨act, hmem, howner⟩ := hact
    rw [Option.mem_def] at hmem
    cases act
    case assign =>
      rw [hmem]
      exact act_eq_assign hstep hmem
    all_goals simp [Act.writes] at howner

/-- The calls of a trace change the owners of a place as its actions say. -/
theorem steps_owner (h : Steps kernel w trace w') :
    w'.owner l = ownerAfter l (acts trace) (w.owner l) := by
  induction h with
  | nil => rfl
  | @cons _ request answer _ _ _ trace hstep _ ih =>
      rw [acts_cons, ownerAfter_append, ih, step_owner hstep]

end SafeLinux.Kiumd
