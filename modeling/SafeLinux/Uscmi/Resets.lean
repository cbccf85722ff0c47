import SafeLinux.Effects.Determined
import SafeLinux.Uscmi.Power

/-!
# Reset requests of the user-space SCMI driver

`do_reset_operation` of `qcom_uscmi.c` over the lifetime of the device: any sequence of reset ioctls
and then the unbinding, at which the puts recorded by `devm_reset_control_get_optional` run. The
driver puts each reset control itself when the request is served. So at the unbinding no reference
is left, and every put recorded is a second one.
-/

namespace SafeLinux.Uscmi

open Effects
open Effects.Program (perform)

def SCMI_PROTO_RESET : U32 := 1
def SCMI_RST_ASSERT : U32 := 0
def SCMI_RST_DEASSERT : U32 := 1
def SCMI_RST_RESET : U32 := 2

/-- The reset controls of the device, by their addresses. -/
structure ResetState where
  /-- The references held, one entry a reference. -/
  held : List Nat
  /-- The puts to be run at the unbinding, the latest first. -/
  devres : List Nat
  /-- Every reference taken. -/
  taken : List Nat
  /-- Every put. -/
  puts : List Nat
  /-- Every use or put of a control to which no reference was left. -/
  stale : List Nat
  deriving DecidableEq

/-- A device that has just been bound. -/
def ResetState.bound : ResetState := ⟨[], [], [], [], []⟩

/-- A control is used. -/
def ResetState.used (s : ResetState) (rstc : Nat) : ResetState :=
  { s with stale := if rstc ∈ s.held then s.stale else rstc :: s.stale }

/-- A reference is taken, and its put recorded. -/
def ResetState.got (s : ResetState) (rstc : Nat) : ResetState :=
  { s with held := rstc :: s.held, devres := rstc :: s.devres, taken := rstc :: s.taken }

/-- A reference is put. -/
def ResetState.put (s : ResetState) (rstc : Nat) : ResetState :=
  { s.used rstc with held := s.held.erase rstc, puts := rstc :: s.puts }

/-! ## Calls -/

/-- What the driver asks of the reset framework. -/
inductive ResetCall : Type → Type where
  | devmResetControlGetOptional (id : Option String) : ResetCall (KPtr Nat)
  | resetControlAssert (rstc : Nat) : ResetCall Int
  | resetControlDeassert (rstc : Nat) : ResetCall Int
  | resetControlReset (rstc : Nat) : ResetCall Int
  | resetControlPut (rstc : Nat) : ResetCall Unit
  /-- The puts recorded, in the order in which they are run. -/
  | devresReleaseAll : ResetCall (List Nat)

/-- What the calls do. A get may return a new control or one to which a reference is held. -/
def resets : Semantics ResetCall ResetState where
  step := fun request s answer =>
    match request with
    | .devmResetControlGetOptional _ =>
        match answer with
        | .ptr rstc => if rstc ∈ s.taken ∧ rstc ∉ s.held then none else some (s.got rstc)
        | .null | .err _ => some s
    | .resetControlAssert rstc | .resetControlDeassert rstc | .resetControlReset rstc =>
        some (s.used rstc)
    | .resetControlPut rstc => some (s.put rstc)
    | .devresReleaseAll => if answer = s.devres then some { s with devres := [] } else none

/-- Programs of the driver. -/
abbrev ResetProg (α : Type) := Program ResetCall α

/-! ## The driver -/

/-- The switch of `do_reset_operation`. -/
def resetSwitch (oper : U32) (rstc : Nat) : ResetProg Int :=
  if oper = SCMI_RST_ASSERT then perform (.resetControlAssert rstc)
  else if oper = SCMI_RST_DEASSERT then perform (.resetControlDeassert rstc)
  else if oper = SCMI_RST_RESET then perform (.resetControlReset rstc)
  else return -EINVAL

/-- `do_reset_operation` -/
def doResetOperation (req : ScmiOperIoctl) : ResetProg Int := do
  let id := if req.name = "" then none else some req.name
  if req.proto ≠ SCMI_PROTO_RESET then
    return -EINVAL
  let .ptr rstc ← perform (.devmResetControlGetOptional id) | return -ENODEV
  let ret ← resetSwitch req.oper rstc
  perform (.resetControlPut rstc)
  return ret

/-- `qcom_uscmi_ioctl` with `SCMI_IOCTL_RST`, of what `copy_from_user` has copied. -/
def qcomUscmiIoctlRst : Option ScmiOperIoctl → ResetProg Int
  | none => return -EFAULT
  | some req => doResetOperation req

/-- The puts at the unbinding. -/
def releaseNodes : List Nat → ResetProg Unit
  | [] => return
  | rstc :: rest => do
      perform (.resetControlPut rstc)
      releaseNodes rest

/-- The device is unbound. -/
def unbind : ResetProg Unit := do
  let devres ← perform .devresReleaseAll
  releaseNodes devres

/-! ## Balance -/

/-- Every reference taken is put exactly once, and no control was used or put without one. -/
structure PutOnce (s : ResetState) : Prop where
  once : s.puts.Perm s.taken
  live : s.stale = []

/-- The control that a call gets. -/
def gotControl : Event ResetCall → Option Nat
  | ⟨.devmResetControlGetOptional _, .ptr rstc⟩ => some rstc
  | _ => none

/-- A reset request was served with a control: a reference was taken and put. -/
def ResetState.served (s : ResetState) (rstc : Nat) : ResetState :=
  { s with devres := rstc :: s.devres, taken := rstc :: s.taken, puts := rstc :: s.puts }

/-- The ways a reset request can go. -/
inductive Served (s : ResetState) : Post ResetCall ResetState Int where
  | refused {trace : List (Event ResetCall)} {ret : Int} (hnone : trace.filterMap gotControl = []) :
      Served s trace (some ret) s
  | served {trace : List (Event ResetCall)} {ret : Int} {rstc : Nat}
      (hgot : trace.filterMap gotControl = [rstc]) : Served s trace (some ret) (s.served rstc)

/-- Between two requests no reference is held, each reference taken has been put, and its put is
still recorded. -/
structure Between (s : ResetState) : Prop where
  held : s.held = []
  puts : s.puts = s.taken
  devres : s.devres = s.taken
  live : s.stale = []

variable {s s' : ResetState} {trace : List (Event ResetCall)}
  {history : History (Option ScmiOperIoctl) ResetCall}

/-- A control with a reference may be used. -/
theorem used_got (s : ResetState) (rstc : Nat) : (s.got rstc).used rstc = s.got rstc := by
  have hheld : rstc ∈ (s.got rstc).held := List.mem_cons_self
  unfold ResetState.used
  rw [if_pos hheld]

/-- The put of the reference just taken. -/
theorem put_got (s : ResetState) (rstc : Nat) : (s.got rstc).put rstc = s.served rstc := by
  have herase : (s.got rstc).held.erase rstc = s.held := List.erase_cons_head _ _
  unfold ResetState.put
  rw [used_got, herase]
  rfl

/-- The switch uses the control, if at all, while the driver has a reference to it. -/
theorem resetSwitch_uses (oper : U32) (rstc : Nat) :
    wp resets .any (resetSwitch oper rstc) (fun trace result s' =>
      result ≠ none ∧ trace.filterMap gotControl = [] ∧ s' = s.got rstc) (s.got rstc) := by
  have huse : ∀ request : ResetCall Int,
      (∀ answer, gotControl ⟨request, answer⟩ = none) →
      (∀ answer, resets.step request (s.got rstc) answer = some ((s.got rstc).used rstc)) →
      wp resets .any (perform request) (fun trace result s' =>
        result ≠ none ∧ trace.filterMap gotControl = [] ∧ s' = s.got rstc) (s.got rstc) := by
    intro request hview hstep
    show wp resets .any (perform request >>= pure) _ _
    refine wp_step fun answer s' hs' => wp_pure.mpr ?_
    rw [hstep answer, used_got] at hs'
    obtain rfl := Option.some.inj hs'
    exact ⟨nofun, List.filterMap_cons_none (hview answer), rfl⟩
  unfold resetSwitch
  split
  · exact huse _ (fun _ => rfl) fun _ => rfl
  · split
    · exact huse _ (fun _ => rfl) fun _ => rfl
    · split
      · exact huse _ (fun _ => rfl) fun _ => rfl
      · exact wp_pure.mpr ⟨nofun, rfl, rfl⟩

/-- Every reset request goes one of these ways, and returns. -/
theorem qcomUscmiIoctlRst_served (copied : Option ScmiOperIoctl) :
    wp resets .any (qcomUscmiIoctlRst copied) (Served s) s := by
  cases copied with
  | none => exact wp_pure.mpr (.refused rfl)
  | some req =>
      show wp resets .any (doResetOperation req) _ s
      unfold doResetOperation
      by_cases hproto : req.proto ≠ SCMI_PROTO_RESET
      · rw [if_pos hproto]
        exact wp_pure.mpr (.refused rfl)
      · rw [if_neg hproto]
        refine wp_step fun answer s₁ hget => ?_
        cases answer with
        | null | err errno =>
            obtain rfl := Option.some.inj hget
            exact wp_pure.mpr (.refused rfl)
        | ptr rstc =>
            obtain ⟨_, hgot⟩ := Option.ite_none_left_eq_some.mp hget
            obtain rfl := Option.some.inj hgot
            rw [wp_bind]
            refine wp_mono (resetSwitch_uses req.oper rstc) ?_
            rintro uses result s₂ ⟨hreturns, huses, rfl⟩
            cases result with
            | none => exact absurd rfl hreturns
            | some ret =>
                refine wp_done rfl (wp_pure.mpr ?_)
                rw [put_got]
                refine .served ?_
                show List.filterMap gotControl ([_] ++ (uses ++ [_])) = [rstc]
                rw [List.filterMap_append, List.filterMap_append, huses]
                rfl

/-- The controls got in a history. -/
def gotControls (history : History (Option ScmiOperIoctl) ResetCall) : List Nat :=
  history.flatMap fun entry => entry.2.filterMap gotControl

/-- Between two requests the references taken are those got, and all of them have been put. -/
theorem between_run (h : Run resets qcomUscmiIoctlRst .any .bound history s) :
    Between s ∧ s.taken = gotControls history := by
  refine h.invariant (fun history s => Between s ∧ s.taken = gotControls history)
    ⟨⟨rfl, rfl, rfl, rfl⟩, rfl⟩ ?_
  rintro history copied s ⟨⟨hheld, hputs, hdevres, hlive⟩, htaken⟩
  refine wp_mono (qcomUscmiIoctlRst_served copied) ?_
  intro trace result s' hserved _
  unfold gotControls
  rw [List.flatMap_cons]
  cases hserved with
  | refused hnone => exact ⟨⟨hheld, hputs, hdevres, hlive⟩, by rw [hnone]; exact htaken⟩
  | @served _ ret rstc hgot =>
      refine ⟨⟨hheld, ?_, ?_, hlive⟩, ?_⟩
      · exact congrArg (List.cons rstc) hputs
      · exact congrArg (List.cons rstc) hdevres
      · rw [hgot]
        exact congrArg (List.cons rstc) htaken

/-! ## The unbinding -/

/-- With no reference held, each put at the unbinding is one of a control that is gone. -/
theorem releaseNodes_stale (nodes : List Nat) (hheld : s.held = []) :
    wp resets .any (releaseNodes nodes) (fun _ result s' => result ≠ none ∧
      s'.taken = s.taken ∧ s'.puts.Perm (nodes ++ s.puts) ∧
        s'.stale.Perm (nodes ++ s.stale)) s := by
  induction nodes generalizing s with
  | nil => exact wp_pure.mpr ⟨nofun, rfl, .refl _, .refl _⟩
  | cons rstc rest ih =>
      have hgone : rstc ∉ s.held := by simp [hheld]
      have hstale : (s.put rstc).stale = rstc :: s.stale := if_neg hgone
      have hheld' : (s.put rstc).held = [] := by
        show s.held.erase rstc = []
        rw [hheld]
        rfl
      refine wp_done rfl (wp_mono (ih hheld') ?_)
      rintro trace result s' ⟨hreturns, htaken, hputs, hlate⟩
      rw [hstale] at hlate
      exact ⟨hreturns, htaken, hputs.trans List.perm_middle, hlate.trans List.perm_middle⟩

/-- At the unbinding every reference that was taken is put a second time. -/
theorem unbind_stale (h : Between s) :
    wp resets .any unbind (fun _ _ s' => s'.taken = s.taken ∧
      s'.puts.Perm (s.taken ++ s.taken) ∧ s'.stale.Perm s.taken) s := by
  refine wp_told (fun _ => rfl) ?_
  rw [h.devres]
  have hheld : { s with devres := [] }.held = [] := h.held
  refine wp_mono (releaseNodes_stale s.taken hheld) ?_
  rintro trace result s' ⟨_, htaken, hputs, hstale⟩
  have hputs' : s'.puts.Perm (s.taken ++ s.puts) := hputs
  have hstale' : s'.stale.Perm (s.taken ++ s.stale) := hstale
  rw [h.puts] at hputs'
  rw [h.live, List.append_nil] at hstale'
  exact ⟨htaken, hputs', hstale'⟩

/-- Over the lifetime of the device every reference is put once, and none after the last one is
gone, if and only if no request has got a reset control. -/
theorem putOnce_iff {trace : List (Event ResetCall)} {result : Option Unit}
    (h : Run resets qcomUscmiIoctlRst .any .bound history s)
    (hunbind : Exec resets unbind s trace result s') :
    PutOnce s' ↔ ∀ request trace, (request, trace) ∈ history → ∀ e ∈ trace, gotControl e = none := by
  obtain ⟨hbetween, htaken⟩ := between_run h
  obtain ⟨htaken', hputs, hstale⟩ := wp_exec (unbind_stale hbetween) hunbind
  have hnone : gotControls history = [] ↔
      ∀ request trace, (request, trace) ∈ history → ∀ e ∈ trace, gotControl e = none := by
    unfold gotControls
    simp only [List.flatMap_eq_nil_iff, List.filterMap_eq_nil_iff, Prod.forall]
  rw [← hnone, ← htaken]
  constructor
  · intro honce
    rw [honce.live] at hstale
    exact hstale.symm.eq_nil
  · intro hempty
    rw [hempty] at hputs hstale
    refine ⟨?_, hstale.eq_nil⟩
    rw [htaken', hempty]
    exact hputs

/-- The reset framework has one control, and every operation on it succeeds. -/
def oneControl : Chooser ResetCall ResetState := fun _ request s =>
  match request with
  | .devmResetControlGetOptional _ => some (.ptr 0)
  | .resetControlAssert _ | .resetControlDeassert _ | .resetControlReset _ => some 0
  | .resetControlPut _ => some ()
  | .devresReleaseAll => some s.devres

/-- A reset is asserted, and the device is unbound. -/
theorem assert_unbind : ∃ history s trace result s',
    Run resets qcomUscmiIoctlRst .any .bound history s ∧ Exec resets unbind s trace result s' ∧
      s'.stale = [0] := by
  have hassert : (qcomUscmiIoctlRst (some ⟨SCMI_PROTO_RESET, SCMI_RST_ASSERT, "core"⟩)).check resets
      oneControl .bound (fun _ _ s => s = ⟨[], [0], [0], [0], []⟩) = true := by
    decide
  obtain ⟨served, _, s, hserved, hs⟩ := Program.check_exec hassert
  have hrelease : unbind.check resets oneControl s (fun _ _ s' => s'.stale = [0]) = true := by
    rw [of_decide_eq_true hs]
    decide
  obtain ⟨trace, _, s', hunbind, hs'⟩ := Program.check_exec hrelease
  exact ⟨_, s, trace, _, s', .request .start hserved trivial, hunbind, of_decide_eq_true hs'⟩

/-- In that lifetime a request gets a reset control. -/
theorem putOnce_iff_assert : ∃ (history : History (Option ScmiOperIoctl) ResetCall)
    (s' : ResetState), ¬ PutOnce s' ∧
      ¬ ∀ request trace, (request, trace) ∈ history → ∀ e ∈ trace, gotControl e = none := by
  obtain ⟨history, s, trace, result, s', hrun, hunbind, hstale⟩ := assert_unbind
  have hnot : ¬ PutOnce s' := by
    intro honce
    rw [honce.live] at hstale
    cases hstale
  exact ⟨history, s', hnot, fun hnone => hnot ((putOnce_iff hrun hunbind).mpr hnone)⟩

/-- The put at the unbinding may be one of a control that is gone. -/
theorem not_putOnce : ¬ ∀ (history : History (Option ScmiOperIoctl) ResetCall) (s : ResetState)
    (trace : List (Event ResetCall)) (result : Option Unit) (s' : ResetState),
    Run resets qcomUscmiIoctlRst .any .bound history s → Exec resets unbind s trace result s' →
      PutOnce s' := by
  intro h
  obtain ⟨history, s, trace, result, s', hrun, hunbind, hstale⟩ := assert_unbind
  have hlive := (h history s trace result s' hrun hunbind).live
  rw [hlive] at hstale
  cases hstale

end SafeLinux.Uscmi
