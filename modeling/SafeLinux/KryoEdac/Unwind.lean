import SafeLinux.KryoEdac.Probe

/-!
# What a failed probe and a removal leave behind

Nothing takes the panic notifier off `panic_notifier_list`. A device that has got past the
allocations of its probe is on that list for good, so the driver data of a failed probe or of a
removed device stay within reach of a panic unless the probe has failed in one of its allocations.
-/

namespace SafeLinux.KryoEdac

open Effects
open Effects.Program (perform)

/-! ## What a request leaves -/

/-- The driver data that a request is about. -/
def usedDrv : Event ErpCall → Option Nat
  | ⟨.devmKzalloc _, drv⟩ => drv
  | ⟨.devGetDrvdata _, drv⟩ => drv
  | _ => none

/-- The control info that a request is about. -/
def usedCtl : Event ErpCall → Option Nat
  | ⟨.edacDeviceAllocCtlInfo, ctl⟩ => ctl
  | ⟨.edacDeviceFreeCtlInfo ctl, _⟩ => some ctl
  | _ => none

/-- Once they are freed, nothing refers to the driver data and the control info of a request. -/
structure LeavesNothing (trace : List (Event ErpCall)) (s : ErpState) : Prop where
  drv : ∀ drv ∈ trace.filterMap usedDrv, s.drvs drv = none → ¬ s.Refers drv
  ctl : ∀ ctl ∈ trace.filterMap usedCtl, s.ctls ctl = none → ¬ s.RefersCtl ctl

/-- An allocation of the driver data or of the control info that fails. -/
def allocFails : Event ErpCall → Bool
  | ⟨.devmKzalloc _, none⟩ => true
  | ⟨.edacDeviceAllocCtlInfo, none⟩ => true
  | _ => false

/-- The request is a probe in which one of these allocations fails. -/
def ErpRequest.FailsEarly (trace : List (Event ErpCall)) : ErpRequest → Prop
  | .probe _ => trace.any allocFails = true
  | .remove _ => False

/-- The request releases the device: a probe that returns an error, or a removal. -/
def ErpRequest.Releases (ret : Int) : ErpRequest → Prop
  | .probe _ => ret ≠ 0
  | .remove _ => True

/-! ## The invariant -/

variable {s s' : ErpState} {dev : PlatformDevice} {drv : Nat}

/-- The driver data are those of a device and their panic notifier is registered. -/
structure Listed (s : ErpState) (dev : PlatformDevice) (drv : Nat) : Prop where
  notifier : drv ∈ s.panicNotifierList
  owned : ∃ d, s.drvs drv = some (dev, d)

/-- The panic notifier of every device with driver data is registered. -/
def AllListed (s : ErpState) : Prop := ∀ dev drv, s.drvdata dev = some drv → Listed s dev drv

theorem Listed.refers (h : Listed s dev drv) : s.Refers drv := .inl h.notifier

theorem setDrv_listed {drv' : Nat} {g : ErpDrvdata → ErpDrvdata} (h : Listed s dev drv) :
    Listed (s.setDrv drv' g) dev drv := by
  refine ⟨h.notifier, ?_⟩
  obtain ⟨d, hd⟩ := h.owned
  by_cases hsame : drv = drv'
  · subst hsame
    exact ⟨g d, by simp [ErpState.setDrv, hd]⟩
  · exact ⟨d, by simp [ErpState.setDrv, Function.update_of_ne hsame, hd]⟩

/-- Calls other than the allocations, the setting of the driver data and the cleanup. -/
def Registers : (β : Type) → ErpCall β → Prop
  | _, .devmKzalloc _ | _, .edacDeviceAllocCtlInfo | _, .platformSetDrvdata _ _
  | _, .deviceUnbindCleanup _ => False
  | _, _ => True

/-- These calls keep panic notifiers registered and driver data allocated. -/
theorem registers_step {β : Type} {request : ErpCall β} {answer : β}
    (hkind : Registers β request) (hstep : erpStep request s answer = some s') :
    s'.drvdata = s.drvdata ∧ ∀ dev drv, Listed s dev drv → Listed s' dev drv := by
  cases request with
  | devmKzalloc | edacDeviceAllocCtlInfo | platformSetDrvdata | deviceUnbindCleanup => cases hkind
  | setEdevCtl | setErpCpuDrvdata | setPpi =>
      cases hstep
      exact ⟨rfl, fun _ _ h => setDrv_listed h⟩
  | atomicNotifierChainRegister =>
      cases hstep
      exact ⟨rfl, fun _ _ h => ⟨List.mem_cons_of_mem _ h.notifier, h.owned⟩⟩
  | readDrv | readCtlDev | devGetDrvdata =>
      simp only [erpStep] at hstep
      split at hstep <;> cases hstep
      exact ⟨rfl, fun _ _ h => h⟩
  | edacDeviceAddDevice | devmRequestThreadedIrq | requestPercpuIrq =>
      simp only [erpStep] at hstep
      split at hstep <;> cases hstep <;> exact ⟨rfl, fun _ _ h => ⟨h.notifier, h.owned⟩⟩
  | allocPercpu =>
      cases answer with
      | none =>
          cases hstep
          exact ⟨rfl, fun _ _ h => h⟩
      | some area =>
          simp only [erpStep] at hstep
          split at hstep <;> cases hstep
          exact ⟨rfl, fun _ _ h => ⟨h.notifier, h.owned⟩⟩
  | oops => exact answer.elim
  | _ =>
      cases hstep
      exact ⟨rfl, fun _ _ h => ⟨h.notifier, h.owned⟩⟩

/-- The cleanup releases the driver data of the device. -/
theorem Listed.unbind (h : Listed s dev drv) : (s.unbind dev).drvs drv = none := by
  obtain ⟨d, hd⟩ := h.owned
  simp [ErpState.unbind, hd]

/-- The cleanup adds no reference. -/
theorem refers_of_unbind (h : (s.unbind dev).Refers drv) : s.Refers drv := by
  rcases h with hpanic | hpm | ⟨a, ha, hdrv⟩ | hpercpu | hglobal
  · exact .inl hpanic
  · exact .inr (.inl hpm)
  · exact .inr (.inr (.inl ⟨a, (List.mem_filter.mp ha).1, hdrv⟩))
  · exact .inr (.inr (.inr (.inl hpercpu)))
  · exact .inr (.inr (.inr (.inr hglobal)))

theorem AllListed.unbind (h : AllListed s) : AllListed (s.unbind dev) := by
  intro dev' drv hdrv
  by_cases hdev : dev' = dev
  · subst hdev
    simp [ErpState.unbind] at hdrv
  · have hdrv : s.drvdata dev' = some drv := by
      simpa [ErpState.unbind, Function.update_of_ne hdev] using hdrv
    obtain ⟨hnotifier, d, hd⟩ := h dev' drv hdrv
    exact ⟨hnotifier, d, by simp [ErpState.unbind, hd, hdev]⟩

/-! ## The functions -/

theorem requestErpIrq_registers {propname desc : String} {handler : IrqHandler} {percpu : Bool} :
    (requestErpIrq dev propname desc handler drv percpu).Only Registers := by
  unfold requestErpIrq
  refine .then trivial fun irq => ?_
  split
  · exact .pure _
  split
  · refine .then trivial fun rc => ?_
    split <;> exact .pure _
  · refine .then trivial fun erpCpuDrvdata => .then trivial fun _ => ?_
    cases erpCpuDrvdata with
    | none => exact .pure _
    | some area =>
        refine .then trivial fun _ => .then trivial fun rc => ?_
        split
        · exact .then trivial fun _ => .then trivial fun _ => .pure _
        · exact .then trivial fun _ => .then trivial fun _ => .pure _

theorem setClusterAffinity_registers {t : Topology} {irq cluster : Int} :
    (setClusterAffinity t irq cluster).Only Registers := by
  unfold setClusterAffinity
  split
  · exact .pure _
  · exact .perform trivial

theorem requestClusterIrq_registers {t : Topology} {propname desc : String} {cluster : Int} :
    (requestClusterIrq t dev drv propname desc cluster).Only Registers := by
  unfold requestClusterIrq
  refine .bind requestErpIrq_registers fun found => ?_
  dsimp only
  split
  · exact .pure _
  · exact .bind setClusterAffinity_registers fun _ => .pure _

theorem requestErpIrqs_registers {t : Topology} :
    (requestErpIrqs t dev drv).Only Registers :=
  .bind requestErpIrq_registers fun _ => .bind requestErpIrq_registers fun _ =>
    .bind requestClusterIrq_registers fun _ => .bind requestClusterIrq_registers fun _ => .pure _

theorem registerErpDevice_registers {t : Topology} {ctl : Nat} :
    (registerErpDevice t dev drv ctl).Only Registers := by
  unfold registerErpDevice
  refine .then trivial fun rc => ?_
  split
  · exact .then trivial fun _ => .pure _
  refine .then trivial fun _ => .bind requestErpIrqs_registers fun fail => ?_
  refine .then trivial fun numIrqs => ?_
  split
  · exact .then trivial fun _ => .then trivial fun _ => .pure _
  refine .then trivial fun count => ?_
  split
  · exact .then trivial fun _ => .then trivial fun _ => .pure _
  · exact .then trivial fun _ => .pure _

/-- The end of `kryo_cpu_erp_remove` takes the EDAC device of a driver away. -/
theorem removeControl_registers (drv : Nat) (edevCtl : Option Nat) : (do
    perform (.cpuPmUnregisterNotifier drv)
    let some ctl := edevCtl | perform .oops >>= Empty.elim
    perform (.edacDeviceDelDevice (← perform (.readCtlDev ctl)))
    perform (.edacDeviceFreeCtlInfo ctl)
    return 0 : ErpProg Int).Only Registers := by
  refine .then trivial fun _ => ?_
  cases edevCtl with
  | none => exact .then trivial fun impossible => impossible.elim
  | some ctl => exact .then trivial fun _ => .then trivial fun _ => .then trivial fun _ => .pure _

theorem kryoCpuErpRemove_registers : (kryoCpuErpRemove dev).Only Registers := by
  unfold kryoCpuErpRemove
  refine .then trivial fun found => ?_
  cases found with
  | none => exact .then trivial fun impossible => impossible.elim
  | some drv =>
      refine .then trivial fun d => ?_
      have hlast := removeControl_registers drv d.edevCtl
      dsimp only
      cases d.erpCpuDrvdata with
      | none => exact hlast
      | some area =>
          exact .then trivial fun _ => .then trivial fun _ => .then trivial fun _ => hlast

/-! ## Requests -/

/-- What the calls of this kind keep of a state. -/
structure Keeps (s s' : ErpState) : Prop where
  drvdata : s'.drvdata = s.drvdata
  listed : ∀ dev drv, Listed s dev drv → Listed s' dev drv

theorem Keeps.allListed (h : Keeps s s') (hlisted : AllListed s) : AllListed s' :=
  fun dev drv hdrv => h.listed dev drv (hlisted dev drv (h.drvdata ▸ hdrv))

theorem Keeps.step {β : Type} {request : ErpCall β} {answer : β}
    (hstep : erpKernel.step request s answer = some s') (hkind : Registers β request) :
    Keeps s s' :=
  ⟨(registers_step hkind hstep).1, (registers_step hkind hstep).2⟩

theorem wp_registers {p : ErpProg Int} (h : p.Only Registers) :
    wp erpKernel .any p (fun trace _ s' => Among Registers trace ∧ Keeps s s') s := by
  have hstart : Keeps s s := ⟨rfl, fun _ _ h => h⟩
  have hcall : ∀ {β : Type} (request : ErpCall β) (answer : β) (s₁ s₂ : ErpState),
      Registers β request → erpKernel.step request s₁ answer = some s₂ → Keeps s s₁ →
      Keeps s s₂ := by
    intro β request answer s₁ s₂ hkind hstep hkeeps
    obtain ⟨hdrvdata, hlisted⟩ := registers_step hkind hstep
    exact ⟨hdrvdata.trans hkeeps.drvdata,
      fun dev drv h => hlisted dev drv (hkeeps.listed dev drv h)⟩
  exact wp_weaken (wp_only hcall h hstart) (fun _ _ _ _ _ => trivial) fun _ _ _ h => h

/-- Calls of this kind are no allocations. -/
theorem not_allocFails_of_among {trace : List (Event ErpCall)} (h : Among Registers trace) :
    trace.any allocFails = false := by
  refine List.any_eq_false.mpr fun e he hfails => ?_
  have hkind := h e he
  obtain ⟨request, answer⟩ := e
  cases request with
  | devmKzalloc | edacDeviceAllocCtlInfo => exact hkind
  | _ => exact Bool.false_ne_true hfails

/-- Released driver data that were listed are still within reach. -/
theorem not_leavesNothing {trace : List (Event ErpCall)} (hlisted : Listed s dev drv)
    (hused : drv ∈ trace.filterMap usedDrv) : ¬ LeavesNothing trace (s.unbind dev) :=
  fun h => h.drv drv hused hlisted.unbind (.inl hlisted.notifier)

theorem remove_leaves {t : Topology} (hlisted : AllListed s) :
    wp erpKernel .any (erpProgram t (.remove dev)) (fun trace result s' => AllListed s' ∧
      ((s.drvdata dev).isSome → result.isSome → ¬ LeavesNothing trace s')) s := by
  have hfirst : wp erpKernel .any (kryoCpuErpRemove dev)
      (fun trace _ _ => ∃ rest, trace = ⟨.devGetDrvdata dev, s.drvdata dev⟩ :: rest) s := by
    refine wp_step fun found s₁ hfound => ?_
    simp only [erpKernel, erpStep] at hfound
    split at hfound <;> cases hfound
    rename_i hfound
    subst hfound
    exact wp_always fun rest _ _ => ⟨rest, rfl⟩
  show wp erpKernel .any (kryoCpuErpRemove dev >>= fun rc => _) _ _
  rw [wp_bind]
  refine wp_mono (wp_and (wp_registers kryoCpuErpRemove_registers) hfirst) ?_
  rintro trace result s' ⟨⟨-, hkeeps⟩, rest, rfl⟩
  cases result with
  | none => exact ⟨hkeeps.allListed hlisted, fun _ hsome => nomatch hsome⟩
  | some rc =>
      refine wp_step fun _ s'' hunbind => wp_pure.mpr ?_
      cases hunbind
      refine ⟨(hkeeps.allListed hlisted).unbind, fun hsome _ => ?_⟩
      obtain ⟨drv, hdrv⟩ := Option.isSome_iff_exists.mp hsome
      refine not_leavesNothing (hkeeps.listed _ _ (hlisted dev drv hdrv)) ?_
      rw [hdrv]
      exact List.mem_cons_self

/-- What a probe has done: it has failed in an allocation, or registered the panic notifier. -/
inductive Probes (dev : PlatformDevice) (s : ErpState) :
    List (Event ErpCall) → Option Int → ErpState → Prop
  | noDrv : Probes dev s [⟨.devmKzalloc dev, none⟩] (some (-ENOMEM)) s
  | noCtl {drv : Nat} {s' : ErpState} : ¬ s'.Refers drv → AllListed s' →
      Probes dev s [⟨.devmKzalloc dev, some drv⟩, ⟨.edacDeviceAllocCtlInfo, none⟩,
        ⟨.setEdevCtl drv none, ()⟩] (some (-ENOMEM)) s'
  | listed {drv : Nat} {trace : List (Event ErpCall)} {result : Option Int} {s' : ErpState} :
      drv ∈ trace.filterMap usedDrv → trace.any allocFails = false → Listed s' dev drv →
      AllListed s' → Probes dev s trace result s'

/-- New driver data do not disturb those of other devices. -/
theorem AllListed.alloc {drv : Nat} (h : AllListed s) (hfresh : s.drvs drv = none) :
    AllListed { s with drvs := Function.update s.drvs drv (some (dev, {})) } := by
  intro dev' drv' hdrv'
  obtain ⟨hnotifier, d, hd⟩ := h dev' drv' hdrv'
  have hne : drv' ≠ drv := by
    rintro rfl
    rw [hfresh] at hd
    cases hd
  exact ⟨hnotifier, d, by simp [Function.update_of_ne hne, hd]⟩

theorem kryoCpuErpProbe_probes {t : Topology} (hlisted : AllListed s) :
    wp erpKernel .any (kryoCpuErpProbe t dev) (Probes dev s) s := by
  refine wp_step fun found s₁ halloc => ?_
  cases found with
  | none =>
      cases halloc
      exact wp_pure.mpr .noDrv
  | some drv =>
  simp only [erpKernel, erpStep] at halloc
  split at halloc <;> cases halloc
  rename_i hfresh
  have hlisted₁ := @AllListed.alloc _ dev _ hlisted hfresh.1
  refine wp_step fun edevCtl s₂ hctl => ?_
  cases edevCtl with
  | none =>
      cases hctl
      refine wp_step fun _ s₃ hset => wp_pure.mpr ?_
      cases hset
      exact .noCtl hfresh.2 fun dev' drv' hdrv' => setDrv_listed (hlisted₁ dev' drv' hdrv')
  | some ctl =>
  simp only [erpKernel, erpStep] at hctl
  split at hctl <;> cases hctl
  have hlisted₂ : AllListed { s with
      drvs := Function.update s.drvs drv (some (dev, {}))
      ctls := Function.update s.ctls ctl (some none) } := fun dev' drv' hdrv' =>
    ⟨(hlisted₁ dev' drv' hdrv').notifier, (hlisted₁ dev' drv' hdrv').owned⟩
  refine wp_step fun _ s₃ hset => ?_
  have hlisted₃ := (Keeps.step hset trivial).allListed hlisted₂
  refine wp_step fun _ s₄ hdev => ?_
  have hlisted₄ := (Keeps.step hdev trivial).allListed hlisted₃
  refine wp_step fun _ s₅ hregister => ?_
  have hlisted₅ := (Keeps.step hregister trivial).allListed hlisted₄
  have hdrv : Listed s₅ dev drv := by
    cases hset
    cases hdev
    cases hregister
    exact ⟨List.mem_cons_self, { edevCtl := some ctl }, by simp [ErpState.setDrv]⟩
  refine wp_step fun _ s₆ hdrvdata => ?_
  cases hdrvdata
  refine wp_mono (wp_registers registerErpDevice_registers) ?_
  rintro trace result s' ⟨hamong, hkeeps⟩
  have hfails := not_allocFails_of_among hamong
  refine @Probes.listed _ _ drv _ _ _ ?_ hfails ?_ ?_
  · exact List.mem_cons_self
  · exact hkeeps.listed dev drv ⟨hdrv.notifier, hdrv.owned⟩
  · refine hkeeps.allListed fun dev' drv' hdrv' => ?_
    by_cases hsame : dev' = dev
    · subst hsame
      obtain rfl : drv = drv' := by simpa using hdrv'
      exact ⟨hdrv.notifier, hdrv.owned⟩
    · have hdrv' : s₅.drvdata dev' = some drv' := by simpa [Function.update_of_ne hsame] using hdrv'
      exact ⟨(hlisted₅ dev' drv' hdrv').notifier, (hlisted₅ dev' drv' hdrv').owned⟩

theorem probe_leaves {t : Topology} (hlisted : AllListed s) :
    wp erpKernel .any (erpProgram t (.probe dev)) (fun trace result s' => AllListed s' ∧
      ∀ rc, result = some rc → rc ≠ 0 →
        (LeavesNothing trace s' ↔ trace.any allocFails = true)) s := by
  show wp erpKernel .any (kryoCpuErpProbe t dev >>= fun rc => _) _ _
  rw [wp_bind]
  refine wp_mono (kryoCpuErpProbe_probes hlisted) ?_
  rintro trace result s' hprobes
  cases hprobes with
  | noDrv =>
      refine wp_step fun _ s'' hunbind => wp_pure.mpr ?_
      cases hunbind
      exact ⟨hlisted.unbind, fun _ _ _ => iff_of_true ⟨nofun, nofun⟩ rfl⟩
  | @noCtl drv _ hrefers hlisted' =>
      refine wp_step fun _ s'' hunbind => wp_pure.mpr ?_
      cases hunbind
      refine ⟨hlisted'.unbind, fun _ _ _ => iff_of_true ⟨?_, nofun⟩ rfl⟩
      intro drv' hdrv' _ hrefers'
      obtain rfl : drv' = drv := List.mem_singleton.mp hdrv'
      exact hrefers (refers_of_unbind hrefers')
  | @listed drv _ _ _ hused hfails hdrv hlisted' =>
      cases result with
      | none => exact ⟨hlisted', nofun⟩
      | some rc =>
          show wp erpKernel .any (if rc ≠ 0 then _ else _) _ _
          by_cases hrc : rc = 0
          · rw [if_neg (not_not.mpr hrc)]
            refine wp_pure.mpr ⟨hlisted', fun rc' hresult hrc' => absurd hrc ?_⟩
            rwa [Option.some.inj hresult]
          · rw [if_pos hrc]
            refine wp_step fun _ s'' hunbind => wp_pure.mpr ?_
            cases hunbind
            refine ⟨hlisted'.unbind, fun _ _ _ => iff_of_false (not_leavesNothing hdrv ?_) ?_⟩
            · rw [List.filterMap_append]
              exact List.mem_append_left _ hused
            · rw [List.any_append, hfails]
              exact Bool.false_ne_true

/-! ## Runs -/

variable {t : Topology} {i : ErpRequest} {history : History ErpRequest ErpCall}

/-- A run of the driver, in which devices are probed and removed when this is due. -/
abbrev ErpRun (t : Topology) (history : History ErpRequest ErpCall) (s : ErpState) : Prop :=
  Run erpKernel (erpProgram t) (fun _ i s _ => i.Due s) {} history s

theorem ErpRun.allListed (h : ErpRun t history s) : AllListed s := by
  refine h.invariant (fun _ s => AllListed s) (fun _ _ hdrv => nomatch hdrv) ?_
  intro history i s hlisted
  cases i with
  | probe dev => exact wp_mono (probe_leaves hlisted) fun _ _ _ h _ => h.1
  | remove dev => exact wp_mono (remove_leaves hlisted) fun _ _ _ h _ => h.1

/-- After every run, a request that releases a device leaves no reference to what it has freed if
and only if it is a probe that has failed in its allocations. -/
theorem erp_leavesNothing_iff {trace : List (Event ErpCall)} {ret : Int}
    (hrun : ErpRun t history s) (hdue : i.Due s)
    (hexec : Exec erpKernel (erpProgram t i) s trace (some ret) s') (hreleases : i.Releases ret) :
    LeavesNothing trace s' ↔ i.FailsEarly trace := by
  cases i with
  | probe dev => exact (wp_exec (probe_leaves hrun.allListed) hexec).2 ret rfl hreleases
  | remove dev =>
      exact iff_of_false ((wp_exec (remove_leaves hrun.allListed) hexec).2 hdue rfl) id

/-- Answers to the calls, with the control info and the result of `edac_device_add_device` given;
every interrupt is granted. -/
def erpChoose (ctl : Option Nat) (added : Int) : Chooser ErpCall ErpState
  | _, .devmKzalloc _, _ => some (some 0)
  | _, .edacDeviceAllocCtlInfo, _ => some ctl
  | _, .readDrv drv, s => some (((s.drvs drv).map Prod.snd).getD {})
  | _, .readCtlDev ctl, s => some ((s.ctls ctl).getD none)
  | _, .devGetDrvdata dev, s => some (s.drvdata dev)
  | _, .edacDeviceAddDevice _, _ => some added
  | _, .platformGetIrqByname _ _, _ => some 7
  | _, .devmRequestThreadedIrq _ _ _ _ _, _ => some 0
  | _, .allocPercpu, _ => some (some 0)
  | _, .requestPercpuIrq _ _ _ _, _ => some 0
  | _, .platformIrqCount _, _ => some 4
  | _, .setEdevCtl _ _, _ | _, .setErpCpuDrvdata _ _, _ | _, .setPpi _ _, _
  | _, .setCtlDev _ _, _ | _, .atomicNotifierChainRegister _, _ | _, .platformSetDrvdata _ _, _
  | _, .edacDeviceDelDevice _, _ | _, .edacDeviceFreeCtlInfo _, _
  | _, .setPanicHandlerDrvdata _, _ | _, .setArea _ _, _ | _, .enablePercpuIrq _, _
  | _, .disablePercpuIrq _, _ | _, .freePercpuIrq _ _, _ | _, .freePercpu _, _
  | _, .irqSetAffinity _ _, _ | _, .cpuPmRegisterNotifier _, _ | _, .cpuPmUnregisterNotifier _, _
  | _, .deviceUnbindCleanup _, _ => some ()
  | _, .oops, _ => none

/-- One CPU. -/
def oneCpu : Topology := ⟨[0], fun _ => 0, fun _ => 0⟩

/-- A probe that gets no control info leaves nothing behind. -/
theorem erp_leavesNothing_iff_no_ctl : ∃ trace s',
    Exec erpKernel (erpProgram oneCpu (.probe 0)) {} trace (some (-ENOMEM)) s' ∧
    LeavesNothing trace s' := by
  have hcheck : (erpProgram oneCpu (.probe 0)).check erpKernel (erpChoose none 0) {}
      (fun trace ret _ => decide (ret = -ENOMEM ∧ trace.any allocFails = true)) = true := by
    decide +kernel
  obtain ⟨trace, ret, s', hexec, htest⟩ := Program.check_exec hcheck
  obtain ⟨hret, hfails⟩ := of_decide_eq_true htest
  rw [hret] at hexec
  have hdue : (ErpRequest.probe 0).Due {} := rfl
  have hreleases : (-ENOMEM : Int) ≠ 0 := by decide
  exact ⟨trace, s', hexec, (erp_leavesNothing_iff .start hdue hexec hreleases).mpr hfails⟩

/-- A probe in which `edac_device_add_device` fails leaves its panic notifier registered. -/
theorem not_erp_leavesNothing : ¬ ∀ t history s i trace ret s', ErpRun t history s →
    i.Due s → Exec erpKernel (erpProgram t i) s trace (some ret) s' → i.Releases ret →
    LeavesNothing trace s' := by
  intro hall
  have hcheck : (erpProgram oneCpu (.probe 0)).check erpKernel (erpChoose (some 0) 1) {}
      (fun trace ret s' => decide (ret = 1 ∧ 0 ∈ trace.filterMap usedDrv ∧ s'.drvs 0 = none ∧
        s'.Refers 0)) = true := by
    decide +kernel
  obtain ⟨trace, ret, s', hexec, htest⟩ := Program.check_exec hcheck
  obtain ⟨rfl, hused, hfreed, hrefers⟩ := of_decide_eq_true htest
  have hdue : (ErpRequest.probe 0).Due {} := rfl
  exact (hall oneCpu [] {} (.probe 0) trace 1 s' .start hdue hexec Int.one_ne_zero).drv 0 hused
    hfreed hrefers

end SafeLinux.KryoEdac
