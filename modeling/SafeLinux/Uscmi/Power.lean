import SafeLinux.Effects.Threads
import SafeLinux.Linux.Types
import Mathlib.Data.List.Basic

/-!
# Power requests of the user-space SCMI driver

`do_power_operation` of `qcom_uscmi.c`, with the power domains it acts on. `PmCall` lists what it
asks of runtime power management, and what other consumers of a domain do. `powerSystem` is the
system of any number of requests and of the other consumers; the driver has no lock, so requests
interleave.

A domain is on while the driver or another consumer holds a reference, and may be on otherwise. The
state notes the last power request for a domain that succeeded. `Balanced` is what one expects: the
driver holds one reference or none, and one exactly when that request was `SCMI_PWR_ON`. But both
operations decide by whether the domain is on, not by whether the driver holds a reference.
-/

namespace SafeLinux.Uscmi

open Effects
open Effects.Program (perform)

def SCMI_PWR_OFF : U32 := 0
def SCMI_PWR_ON : U32 := 1
def SCMI_PROTO_POWER : U32 := 2

/-- `scmi_oper_ioctl_t`, as far as power requests use it. -/
structure ScmiOperIoctl where
  proto : U32
  oper : U32
  name : String
  deriving DecidableEq

/-- The state of the power domains, by their index. -/
structure State where
  /-- The references the driver holds. -/
  usageCount : Nat → Nat
  /-- The references of other consumers. -/
  others : Nat → Nat
  /-- The operation of the last power request that succeeded. -/
  last : Nat → Option U32

/-- Nobody holds a reference, and no request was made. -/
def State.fresh : State := ⟨fun _ => 0, fun _ => 0, fun _ => none⟩

/-- A reference to a domain is held. -/
def State.Held (s : State) (dev : Nat) : Prop := 0 < s.usageCount dev ∨ 0 < s.others dev

instance (s : State) (dev : Nat) : Decidable (s.Held dev) := inferInstanceAs (Decidable (_ ∨ _))

/-! ## Calls -/

/-- What the driver and the other consumers ask of runtime power management. -/
inductive PmCall : Type → Type where
  /-- `genpd->status == GENPD_STATE_ON` -/
  | isGenpdOn (dev : Nat) : PmCall Bool
  /-- `pm_runtime_put_sync`: its return value. -/
  | pmRuntimePutSync (dev : Nat) : PmCall Int
  /-- `pm_runtime_resume_and_get`: its return value. -/
  | pmRuntimeResumeAndGet (dev : Nat) : PmCall Int
  /-- Another consumer takes a reference. -/
  | otherGet (dev : Nat) : PmCall Unit
  /-- Another consumer drops a reference. -/
  | otherPut (dev : Nat) : PmCall Unit

/-- What the calls do. A put drops the reference even when it reports that the device could not be
suspended, and refuses to drop one that is not held; a get that fails takes none. -/
def pm : Semantics PmCall State where
  step := fun request s answer =>
    match request with
    | .isGenpdOn dev => if s.Held dev ∧ answer = false then none else some s
    | .pmRuntimePutSync dev =>
        if s.usageCount dev = 0 then if answer = -EINVAL then some s else none
        else some { s with
          usageCount := Function.update s.usageCount dev (s.usageCount dev - 1) }
    | .pmRuntimeResumeAndGet dev =>
        if answer = 0 then
          some { s with usageCount := Function.update s.usageCount dev (s.usageCount dev + 1) }
        else if answer < 0 then some s
        else none
    | .otherGet dev =>
        some { s with others := Function.update s.others dev (s.others dev + 1) }
    | .otherPut dev =>
        if s.others dev = 0 then none
        else some { s with others := Function.update s.others dev (s.others dev - 1) }

/-- Programs of the driver. -/
abbrev PmProg (α : Type) := Program PmCall α

/-! ## The driver -/

/-- `get_pd_dev`: the index of the domain; `pdList` is the property `power-domain-names` of a device
with several domains. -/
def getPdDev (pdList : Option (List String)) (name : String) : Option Nat :=
  match pdList with
  | none => some 0
  | some names => if name = "" then none else names.findIdx? (· == name)

/-- The switch of `do_power_operation`. -/
def powerSwitch (oper : U32) (dev : Nat) : PmProg Int :=
  if oper = SCMI_PWR_OFF then do
    if ← perform (.isGenpdOn dev) then
      perform (.pmRuntimePutSync dev)
    else
      return 0
  else if oper = SCMI_PWR_ON then do
    if ¬ (← perform (.isGenpdOn dev)) then
      perform (.pmRuntimeResumeAndGet dev)
    else
      return 0
  else return -EINVAL

/-- `do_power_operation` -/
def doPowerOperation (pdList : Option (List String)) (req : ScmiOperIoctl) : PmProg Int :=
  match getPdDev pdList req.name with
  | none => return -EINVAL
  | some dev => do
      if req.proto ≠ SCMI_PROTO_POWER then
        return -EINVAL
      let ret ← powerSwitch req.oper dev
      return if ret ≥ 0 then 0 else ret

/-! ## The system -/

/-- What the threads do. -/
inductive Job where
  | request (req : ScmiOperIoctl)
  | acquire (dev : Nat)
  | release (dev : Nat)
  deriving DecidableEq

/-- The program of a job. -/
def Job.program (pdList : Option (List String)) : Job → PmProg Int
  | .request req => doPowerOperation pdList req
  | .acquire dev => do
      perform (.otherGet dev)
      return 0
  | .release dev => do
      perform (.otherPut dev)
      return 0

/-- The pools of the driver. -/
abbrev PowerPool (τ : Type) := Pool τ Job PmCall State Int

/-- The steps of the driver's pools. -/
abbrev PowerMove (τ : Type) := Move τ Job PmCall

/-- A power request that succeeds is noted. -/
def finishes (pdList : Option (List String)) (i : Job) (ret : Int) (s : State) : State :=
  match i with
  | .request req =>
      match getPdDev pdList req.name with
      | some dev =>
          if ret = 0 then { s with last := Function.update s.last dev (some req.oper) } else s
      | none => s
  | .acquire _ | .release _ => s

/-- The driver with any number of requests and the other consumers. -/
def powerSystem (τ : Type) (pdList : Option (List String)) : System τ Job PmCall State Int where
  semantics := fun _ => pm
  program := Job.program pdList
  start := fun P _ _ s => s = P.shared
  finish := fun _ i ret s => finishes pdList i ret s

/-! ## Balance -/

/-- The driver holds at most one reference to each domain, and one exactly when the last power
request for it that succeeded was `SCMI_PWR_ON`. -/
def State.Balanced (s : State) : Prop :=
  ∀ dev, s.usageCount dev ≤ 1 ∧ (s.usageCount dev = 1 ↔ s.last dev = some SCMI_PWR_ON)

/-- The condition that a request to power on finds the domain on only while the driver holds a
reference to it, that no other request takes one before it does, and that a put that drops the
reference does not fail. -/
def DecidesByReference {τ : Type} (P : PowerPool τ) : PowerMove τ → Prop
  | .call t ⟨.isGenpdOn dev, answer⟩ =>
      ∀ req p, P.running t = some (.request req, p) → req.oper = SCMI_PWR_ON → answer = true →
        0 < P.shared.usageCount dev
  | .call _ ⟨.pmRuntimeResumeAndGet dev, ret⟩ => ret = 0 → P.shared.usageCount dev = 0
  | .call _ ⟨.pmRuntimePutSync dev, ret⟩ => 0 < P.shared.usageCount dev → 0 ≤ ret
  | _ => True

/-! ## What the threads have left to do -/

/-- The reply of `do_power_operation`. -/
def reply (ret : Int) : Int := if ret ≥ 0 then 0 else ret

/-- What is left of a power request. -/
inductive RequestAt (dev : Nat) : U32 → PmProg Int → Prop where
  | testOff : RequestAt dev SCMI_PWR_OFF (do
      let ret ← powerSwitch SCMI_PWR_OFF dev
      return reply ret)
  | testOn : RequestAt dev SCMI_PWR_ON (do
      let ret ← powerSwitch SCMI_PWR_ON dev
      return reply ret)
  | put : RequestAt dev SCMI_PWR_OFF (do
      let ret ← perform (.pmRuntimePutSync dev)
      return reply ret)
  | get : RequestAt dev SCMI_PWR_ON (do
      let ret ← perform (.pmRuntimeResumeAndGet dev)
      return reply ret)

/-- A power request is refused at once, or acts on a domain. -/
theorem doPowerOperation_cases (pdList : Option (List String)) (req : ScmiOperIoctl) :
    doPowerOperation pdList req = .ret (-EINVAL) ∨ ∃ dev, getPdDev pdList req.name = some dev ∧
      RequestAt dev req.oper (doPowerOperation pdList req) := by
  unfold doPowerOperation
  cases hdev : getPdDev pdList req.name with
  | none => exact .inl rfl
  | some dev =>
      dsimp only
      by_cases hproto : req.proto ≠ SCMI_PROTO_POWER
      · rw [if_pos hproto]
        exact .inl rfl
      · rw [if_neg hproto]
        by_cases hoff : req.oper = SCMI_PWR_OFF
        · rw [hoff]
          exact .inr ⟨dev, rfl, .testOff⟩
        · by_cases hon : req.oper = SCMI_PWR_ON
          · rw [hon]
            exact .inr ⟨dev, rfl, .testOn⟩
          · left
            rw [powerSwitch, if_neg hoff, if_neg hon]
            rfl

/-- What is left of the job of another consumer. -/
inductive OtherAt : PmProg Int → Prop where
  | acquire (dev : Nat) : OtherAt (do
      perform (.otherGet dev)
      return 0)
  | release (dev : Nat) : OtherAt (do
      perform (.otherPut dev)
      return 0)

/-- What is left of a job. -/
def JobAt (pdList : Option (List String)) (p : PmProg Int) : Job → Prop
  | .request req => ∃ dev, getPdDev pdList req.name = some dev ∧ RequestAt dev req.oper p
  | .acquire _ | .release _ => OtherAt p

section

variable {τ : Type} [DecidableEq τ] {pdList : Option (List String)} {P : PowerPool τ}

/-- Between two steps everything is balanced, and each job is at a place of its program. -/
structure Settled (pdList : Option (List String)) (P : PowerPool τ) : Prop where
  jobs : ∀ t i p, P.running t = some (i, p) → JobAt pdList p i
  balanced : P.shared.Balanced

variable {t : τ} {i : Job} {p : PmProg Int} {s : State}

/-- A step of a thread after which its job is at a place of its program, unless it has returned, and
the state is balanced. -/
theorem Settled.resume (h : Settled pdList P)
    (hjob : (∀ ret, p ≠ .ret ret) → JobAt pdList p i)
    (hbalanced : ((powerSystem τ pdList).resume P.running t i p s).shared.Balanced) :
    Settled pdList ((powerSystem τ pdList).resume P.running t i p s) := by
  refine ⟨fun u j q hrunning => ?_, hbalanced⟩
  rcases System.resume_running_cases hrunning with ⟨rfl, rfl, rfl, hcall⟩ | ⟨_, hrunning⟩
  · exact hjob hcall
  · exact h.jobs u j q hrunning

/-- A request that fails leaves the state. -/
theorem finishes_error {ret : Int} (hret : ret ≠ 0) : finishes pdList i ret s = s := by
  unfold finishes
  split
  · split
    · exact if_neg hret
    · rfl
  · rfl
  · rfl

/-- A power request for a domain that succeeds is noted. -/
theorem finishes_success {req : ScmiOperIoctl} {dev : Nat}
    (hdev : getPdDev pdList req.name = some dev) :
    finishes pdList (.request req) 0 s =
      { s with last := Function.update s.last dev (some req.oper) } := by
  unfold finishes
  dsimp only
  rw [hdev]
  exact if_pos rfl

/-- A domain has the reference that the last request for it asked for; the others keep theirs. -/
theorem State.Balanced.update (h : s.Balanced) (dev n : Nat) (oper : U32)
    (hn : n ≤ 1 ∧ (n = 1 ↔ oper = SCMI_PWR_ON)) :
    State.Balanced ⟨Function.update s.usageCount dev n, s.others,
      Function.update s.last dev (some oper)⟩ := by
  intro dev'
  by_cases hdev : dev' = dev
  · subst hdev
    simp only [Function.update_self, Option.some.injEq]
    exact hn
  · simp only [Function.update_of_ne hdev]
    exact h dev'

/-- A request that is at a place of its program has not returned. -/
theorem RequestAt.resume_shared {dev : Nat} {oper : U32} (h : RequestAt dev oper p) :
    ((powerSystem τ pdList).resume P.running t i p s).shared = s := by
  cases h <;> rfl

/-- The start of a job. -/
theorem Settled.start (h : Settled pdList P) (hstart : s = P.shared) :
    Settled pdList ((powerSystem τ pdList).resume P.running t i (i.program pdList) s) := by
  subst hstart
  cases i with
  | request req =>
      rcases doPowerOperation_cases pdList req with hret | ⟨dev, hdev, hat⟩
      · have hprogram : Job.program pdList (.request req) = .ret (-EINVAL) := hret
        rw [hprogram]
        refine h.resume (fun hcall => absurd rfl (hcall _)) ?_
        show (finishes pdList (.request req) (-EINVAL) P.shared).Balanced
        rw [finishes_error (by decide)]
        exact h.balanced
      · refine h.resume (fun _ => ⟨dev, hdev, hat⟩) ?_
        have hshared : ((powerSystem τ pdList).resume P.running t (.request req)
          (Job.program pdList (.request req)) P.shared).shared = P.shared := hat.resume_shared
        rw [hshared]
        exact h.balanced
  | acquire dev => exact h.resume (fun _ => .acquire dev) h.balanced
  | release dev => exact h.resume (fun _ => .release dev) h.balanced

/-- A call of another consumer. -/
theorem Settled.other_call {β : Type} {request : PmCall β} {next : β → PmProg Int} {answer : β}
    (h : Settled pdList P) (hother : OtherAt (.call request next)) (hi : ∀ req, i ≠ .request req)
    (hcall : pm.step request P.shared answer = some s) :
    Settled pdList ((powerSystem τ pdList).resume P.running t i (next answer) s) := by
  have hfinish : finishes pdList i 0 s = s := by
    cases i with
    | request req => exact absurd rfl (hi req)
    | acquire dev | release dev => rfl
  have hbalanced : s.Balanced → (finishes pdList i 0 s).Balanced := by
    rw [hfinish]
    exact id
  generalize hp : Program.call request next = p at hother
  cases hother with
  | acquire dev =>
      cases hp
      refine h.resume (fun hret => absurd rfl (hret 0)) (hbalanced ?_)
      obtain rfl := Option.some.inj hcall
      exact h.balanced
  | release dev =>
      cases hp
      refine h.resume (fun hret => absurd rfl (hret 0)) (hbalanced ?_)
      simp only [pm] at hcall
      split at hcall
      · cases hcall
      · obtain rfl := Option.some.inj hcall
        exact h.balanced

/-- A call of a power request that decides by the driver's own reference. -/
theorem Settled.request_call {req : ScmiOperIoctl} {β : Type} {request : PmCall β}
    {next : β → PmProg Int} {answer : β} (h : Settled pdList P)
    (hrunning : P.running t = some (.request req, .call request next))
    (hcall : pm.step request P.shared answer = some s)
    (hok : DecidesByReference P (.call t ⟨request, answer⟩)) :
    Settled pdList ((powerSystem τ pdList).resume P.running t (.request req) (next answer) s) := by
  obtain ⟨dev, hdev, hat⟩ := h.jobs _ _ _ hrunning
  obtain ⟨hle, hiff⟩ := h.balanced dev
  generalize hp : Program.call request next = p at hat
  generalize hoper : req.oper = oper at hat
  have hnoted : ∀ n, (n ≤ 1 ∧ (n = 1 ↔ oper = SCMI_PWR_ON)) →
      (finishes pdList (.request req) 0
        { P.shared with usageCount := Function.update P.shared.usageCount dev n }).Balanced := by
    intro n hn
    rw [finishes_success hdev, hoper]
    exact h.balanced.update dev n oper hn
  have hkept : (P.shared.usageCount dev = 1 ↔ oper = SCMI_PWR_ON) →
      (finishes pdList (.request req) 0 P.shared).Balanced := by
    intro hkeep
    have hbalanced := hnoted (P.shared.usageCount dev) ⟨hle, hkeep⟩
    rw [Function.update_eq_self] at hbalanced
    exact hbalanced
  have hfailed : ∀ ret s, ret < 0 → s.Balanced →
      (finishes pdList (.request req) (reply ret) s).Balanced := by
    intro ret s hret hs
    have hreply : reply ret = ret := if_neg (by omega)
    rw [finishes_error (by omega)]
    exact hs
  cases hat with
  | testOff =>
      cases hp
      simp only [pm] at hcall
      split at hcall
      · cases hcall
      · rename_i hheld
        obtain rfl := Option.some.inj hcall
        cases answer with
        | true => exact h.resume (fun _ => ⟨dev, hdev, hoper ▸ .put⟩) h.balanced
        | false =>
            have hzero : P.shared.usageCount dev = 0 := by
              by_contra hne
              exact hheld ⟨.inl (Nat.pos_of_ne_zero hne), rfl⟩
            refine h.resume (fun hret => absurd rfl (hret _)) (hkept ?_)
            rw [hzero]
            decide
  | testOn =>
      cases hp
      simp only [pm] at hcall
      split at hcall
      · cases hcall
      · obtain rfl := Option.some.inj hcall
        cases answer with
        | true =>
            have hpos := hok req _ hrunning hoper rfl
            refine h.resume (fun hret => absurd rfl (hret _)) (hkept ?_)
            exact iff_of_true (by omega) rfl
        | false => exact h.resume (fun _ => ⟨dev, hdev, hoper ▸ .get⟩) h.balanced
  | put =>
      cases hp
      simp only [pm] at hcall
      split at hcall
      · split at hcall
        · rename_i hanswer
          obtain rfl := Option.some.inj hcall
          subst hanswer
          exact h.resume (fun hret => absurd rfl (hret _)) (hfailed _ _ (by decide) h.balanced)
        · cases hcall
      · rename_i hheld
        obtain rfl := Option.some.inj hcall
        have hanswer : 0 ≤ answer := hok (Nat.pos_of_ne_zero hheld)
        have hreply : reply answer = 0 := if_pos hanswer
        refine h.resume (fun hret => absurd rfl (hret _)) ?_
        show (finishes pdList (.request req) (reply answer) _).Balanced
        rw [hreply]
        refine hnoted _ ⟨by omega, ?_⟩
        exact iff_of_false (by omega) (by decide)
  | get =>
      cases hp
      simp only [pm] at hcall
      split at hcall
      · rename_i hanswer
        obtain rfl := Option.some.inj hcall
        have hzero : P.shared.usageCount dev = 0 := hok hanswer
        subst hanswer
        refine h.resume (fun hret => absurd rfl (hret _)) (hnoted _ ⟨by omega, ?_⟩)
        exact iff_of_true (by omega) rfl
      · split at hcall
        · rename_i hanswer
          obtain rfl := Option.some.inj hcall
          exact h.resume (fun hret => absurd rfl (hret _)) (hfailed _ _ hanswer h.balanced)
        · cases hcall

end

/-! ## Runs -/

/-- In every interleaving whose power requests decide by the driver's own reference, the references
are balanced. -/
theorem balanced_decidesByReference {τ : Type} [DecidableEq τ] {pdList : Option (List String)}
    {P : PowerPool τ}
    (h : (powerSystem τ pdList).Reach DecidesByReference (.quiet .fresh) P) :
    P.shared.Balanced := by
  have hsettled : Settled pdList P := by
    refine h.invariant (Settled pdList) ⟨?_, ?_⟩ ?_
    · exact fun t i p hrunning => nomatch hrunning
    · exact fun dev => ⟨Nat.zero_le 1, iff_of_false (fun h => nomatch h) fun h => nomatch h⟩
    · intro P m P' hP hstep hok
      cases hstep with
      | start _ hstart => exact hP.start hstart
      | @call t i _ _ _ _ _ hrunning hcall =>
          have hjob := hP.jobs _ _ _ hrunning
          cases i with
          | request req => exact hP.request_call hrunning hcall hok
          | acquire dev | release dev => exact hP.other_call hjob (fun _ => nofun) hcall
  exact hsettled.balanced

/-- A request to power on. -/
def powerOn : ScmiOperIoctl := ⟨SCMI_PROTO_POWER, SCMI_PWR_ON, "core"⟩

/-- A request to power off. -/
def powerOff : ScmiOperIoctl := ⟨SCMI_PROTO_POWER, SCMI_PWR_OFF, "core"⟩

/-- A run in which the driver powers a domain on that another consumer then uses as well, and powers
it off. -/
theorem balanced_decidesByReference_shared : ∃ P : PowerPool Nat,
    (powerSystem Nat (some ["core"])).Reach DecidesByReference (.quiet .fresh) P ∧
      P.shared.others 0 = 1 ∧ P.shared.last 0 = some SCMI_PWR_OFF ∧ P.shared.Balanced := by
  have hfresh : (powerSystem Nat (some ["core"])).Reach DecidesByReference (.quiet .fresh)
    (.quiet .fresh) := .here
  have hon := ((hfresh.start 0 (.request powerOn) rfl rfl trivial).call 0 false rfl rfl
    (fun _ _ _ _ h => nomatch h)).call 0 (0 : Int) rfl rfl (fun _ => rfl)
  have hother := (hon.start 1 (.acquire 0) rfl rfl trivial).call 1 () rfl rfl trivial
  have hoff := ((hother.start 0 (.request powerOff) rfl rfl trivial).call 0 true rfl rfl
    (fun _ _ _ _ _ => Nat.zero_lt_one)).call 0 (0 : Int) rfl rfl (fun _ => Int.le_refl 0)
  exact ⟨_, hoff, rfl, rfl, balanced_decidesByReference hoff⟩

/-- A request to power on finds the domain on because another consumer holds it, and takes no
reference. -/
theorem not_balanced_otherConsumer : ¬ ∀ P : PowerPool Nat,
    (powerSystem Nat none).Reach Move.any (.quiet .fresh) P → P.shared.Balanced := by
  have hfresh : (powerSystem Nat none).Reach Move.any (.quiet .fresh) (.quiet .fresh) := .here
  have hother := (hfresh.start 1 (.acquire 0) rfl rfl trivial).call 1 () rfl rfl trivial
  have hon := (hother.start 0 (.request powerOn) rfl rfl trivial).call 0 true rfl rfl trivial
  intro h
  exact absurd ((h _ hon 0).2.mpr rfl) (by decide)

end SafeLinux.Uscmi
