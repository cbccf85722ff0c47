import Mathlib.Logic.Function.Basic
import SafeLinux.Effects.Run
import SafeLinux.Linux.Types

/-!
# Probing and removing the Kryo cache error driver

`kryo_cpu_erp_probe` allocates the driver data and the EDAC control info, registers the panic
notifier, the EDAC device, the interrupts and the CPU-PM notifier; `kryo_cpu_erp_remove` undoes a
part of this. When a probe fails, and after a removal, the driver core releases the managed
resources of the device. `ErpState` holds what each of these frameworks knows of the driver. The
error records, which probe initialises, and the kernfs nodes of the counters are left out.
-/

namespace SafeLinux.KryoEdac

open Effects
open Effects.Program (perform)

/-! ## Data -/

/-- A platform device. -/
abbrev PlatformDevice := Nat

/-- The handlers of the error interrupts. -/
inductive IrqHandler where
  | kryoL1L2Handler
  | kryoL3ScuHandler
  deriving DecidableEq

/-- `struct erp_drvdata`; its notifier blocks are known by its address. -/
structure ErpDrvdata where
  edevCtl : Option Nat := none
  erpCpuDrvdata : Option Nat := none
  ppi : Int := 0
  deriving DecidableEq

/-- A managed interrupt: the device it is managed for and the driver data its handler gets. -/
structure IrqAction where
  dev : PlatformDevice
  irq : Int
  handler : IrqHandler
  drv : Nat
  deriving DecidableEq

/-- A per-CPU interrupt; its handler gets a per-CPU area. -/
structure PercpuIrq where
  irq : Int
  handler : IrqHandler
  area : Nat
  enabled : Bool
  deriving DecidableEq

/-- What the kernel knows of the driver. -/
structure ErpState where
  /-- The driver data that are allocated, each with the device it is managed for. -/
  drvs : Nat → Option (PlatformDevice × ErpDrvdata) := fun _ => none
  /-- The control infos that are allocated, each with its `dev`. -/
  ctls : Nat → Option (Option PlatformDevice) := fun _ => none
  /-- The driver data that a per-CPU area names. -/
  areas : Nat → Option Nat := fun _ => none
  panicNotifierList : List Nat := []
  cpuPmChain : List Nat := []
  irqActions : List IrqAction := []
  percpuIrqs : List PercpuIrq := []
  edacDevices : List Nat := []
  panicHandlerDrvdata : Option Nat := none
  drvdata : PlatformDevice → Option Nat := fun _ => none

/-- A notifier, an enabled interrupt or the global pointer refers to driver data. -/
def ErpState.Refers (s : ErpState) (drv : Nat) : Prop :=
  drv ∈ s.panicNotifierList ∨ drv ∈ s.cpuPmChain ∨ (∃ a ∈ s.irqActions, a.drv = drv) ∨
    (∃ p ∈ s.percpuIrqs, p.enabled = true ∧ s.areas p.area = some drv) ∨
    s.panicHandlerDrvdata = some drv

instance (s : ErpState) (drv : Nat) : Decidable (s.Refers drv) :=
  inferInstanceAs (Decidable (_ ∨ _))

/-- The EDAC core, or driver data that are referred to, refer to a control info. -/
def ErpState.RefersCtl (s : ErpState) (ctl : Nat) : Prop :=
  ctl ∈ s.edacDevices ∨
    ∃ drv owner d, s.Refers drv ∧ s.drvs drv = some (owner, d) ∧ d.edevCtl = some ctl

/-! ## Calls -/

/-- The calls that probing and removing make. -/
inductive ErpCall : Type → Type where
  | devmKzalloc (dev : PlatformDevice) : ErpCall (Option Nat)
  | edacDeviceAllocCtlInfo : ErpCall (Option Nat)
  | readDrv (drv : Nat) : ErpCall ErpDrvdata
  | setEdevCtl (drv : Nat) (ctl : Option Nat) : ErpCall Unit
  | setErpCpuDrvdata (drv : Nat) (area : Option Nat) : ErpCall Unit
  | setPpi (drv : Nat) (irq : Int) : ErpCall Unit
  | readCtlDev (ctl : Nat) : ErpCall (Option PlatformDevice)
  | setCtlDev (ctl : Nat) (dev : PlatformDevice) : ErpCall Unit
  | atomicNotifierChainRegister (drv : Nat) : ErpCall Unit
  | platformSetDrvdata (dev : PlatformDevice) (drv : Nat) : ErpCall Unit
  | devGetDrvdata (dev : PlatformDevice) : ErpCall (Option Nat)
  | edacDeviceAddDevice (ctl : Nat) : ErpCall Int
  | edacDeviceDelDevice (dev : Option PlatformDevice) : ErpCall Unit
  | edacDeviceFreeCtlInfo (ctl : Nat) : ErpCall Unit
  | setPanicHandlerDrvdata (drv : Nat) : ErpCall Unit
  | platformGetIrqByname (dev : PlatformDevice) (propname : String) : ErpCall Int
  | devmRequestThreadedIrq (dev : PlatformDevice) (irq : Int) (handler : IrqHandler)
      (desc : String) (drv : Nat) : ErpCall Int
  | allocPercpu : ErpCall (Option Nat)
  | setArea (area : Nat) (drv : Nat) : ErpCall Unit
  | requestPercpuIrq (irq : Int) (handler : IrqHandler) (desc : String) (area : Nat) : ErpCall Int
  /-- `l1_l2_irq_enable` on each CPU. -/
  | enablePercpuIrq (irq : Int) : ErpCall Unit
  /-- `l1_l2_irq_disable` on each CPU. -/
  | disablePercpuIrq (irq : Int) : ErpCall Unit
  | freePercpuIrq (irq : Int) (area : Nat) : ErpCall Unit
  | freePercpu (area : Nat) : ErpCall Unit
  | irqSetAffinity (irq : Int) (cpu : Nat) : ErpCall Unit
  | platformIrqCount (dev : PlatformDevice) : ErpCall Int
  | cpuPmRegisterNotifier (drv : Nat) : ErpCall Unit
  | cpuPmUnregisterNotifier (drv : Nat) : ErpCall Unit
  /-- The driver core releases the managed resources of a device and forgets its driver data. -/
  | deviceUnbindCleanup (dev : PlatformDevice) : ErpCall Unit
  /-- The dereference of a null pointer. -/
  | oops : ErpCall Empty

/-- The state after driver data were written. -/
def ErpState.setDrv (s : ErpState) (drv : Nat) (g : ErpDrvdata → ErpDrvdata) : ErpState :=
  { s with drvs := Function.update s.drvs drv ((s.drvs drv).map fun (dev, d) => (dev, g d)) }

/-- The state after the managed resources of a device were released. -/
def ErpState.unbind (s : ErpState) (dev : PlatformDevice) : ErpState :=
  { s with
    drvs := fun drv => (s.drvs drv).filter fun (owner, _) => owner ≠ dev
    irqActions := s.irqActions.filter fun a => a.dev ≠ dev
    drvdata := Function.update s.drvdata dev none }

/-- The answers to these calls, and the state after each. -/
def erpStep : {β : Type} → ErpCall β → ErpState → β → Option ErpState
  | _, .devmKzalloc _, s, none => some s
  | _, .devmKzalloc dev, s, some drv =>
      -- nothing refers to new memory
      if s.drvs drv = none ∧ ¬ s.Refers drv
      then some { s with drvs := Function.update s.drvs drv (some (dev, {})) } else none
  | _, .edacDeviceAllocCtlInfo, s, none => some s
  | _, .edacDeviceAllocCtlInfo, s, some ctl =>
      if s.ctls ctl = none ∧ ctl ∉ s.edacDevices
      then some { s with ctls := Function.update s.ctls ctl (some none) } else none
  | _, .readDrv drv, s, d =>
      -- freed memory may hold anything
      if (s.drvs drv).all (fun (_, d') => d = d') then some s else none
  | _, .setEdevCtl drv ctl, s, _ => some (s.setDrv drv fun d => { d with edevCtl := ctl })
  | _, .setErpCpuDrvdata drv area, s, _ =>
      some (s.setDrv drv fun d => { d with erpCpuDrvdata := area })
  | _, .setPpi drv irq, s, _ => some (s.setDrv drv fun d => { d with ppi := irq })
  | _, .readCtlDev ctl, s, dev => if (s.ctls ctl).all (dev = ·) then some s else none
  | _, .setCtlDev ctl dev, s, _ =>
      some { s with ctls := Function.update s.ctls ctl ((s.ctls ctl).map fun _ => some dev) }
  | _, .atomicNotifierChainRegister drv, s, _ =>
      some { s with panicNotifierList := drv :: s.panicNotifierList }
  | _, .platformSetDrvdata dev drv, s, _ =>
      some { s with drvdata := Function.update s.drvdata dev (some drv) }
  | _, .devGetDrvdata dev, s, drv => if drv = s.drvdata dev then some s else none
  | _, .edacDeviceAddDevice ctl, s, rc =>
      if rc = 0 then some { s with edacDevices := ctl :: s.edacDevices } else some s
  | _, .edacDeviceDelDevice dev, s, _ =>
      some { s with edacDevices := s.edacDevices.eraseP fun ctl => s.ctls ctl = some dev }
  | _, .edacDeviceFreeCtlInfo ctl, s, _ =>
      some { s with ctls := Function.update s.ctls ctl none }
  | _, .setPanicHandlerDrvdata drv, s, _ => some { s with panicHandlerDrvdata := some drv }
  | _, .platformGetIrqByname _ _, s, _ => some s
  | _, .devmRequestThreadedIrq dev irq handler _ drv, s, rc =>
      if rc = 0 then some { s with irqActions := ⟨dev, irq, handler, drv⟩ :: s.irqActions }
      else some s
  | _, .allocPercpu, s, none => some s
  | _, .allocPercpu, s, some area =>
      if ∀ p ∈ s.percpuIrqs, p.area ≠ area
      then some { s with areas := Function.update s.areas area none } else none
  | _, .setArea area drv, s, _ =>
      some { s with areas := Function.update s.areas area (some drv) }
  | _, .requestPercpuIrq irq handler _ area, s, rc =>
      if rc = 0 then some { s with percpuIrqs := ⟨irq, handler, area, false⟩ :: s.percpuIrqs }
      else some s
  | _, .enablePercpuIrq irq, s, _ =>
      some { s with percpuIrqs := s.percpuIrqs.map fun p =>
        if p.irq = irq then { p with enabled := true } else p }
  | _, .disablePercpuIrq irq, s, _ =>
      some { s with percpuIrqs := s.percpuIrqs.map fun p =>
        if p.irq = irq then { p with enabled := false } else p }
  | _, .freePercpuIrq irq area, s, _ =>
      some { s with percpuIrqs := s.percpuIrqs.filter fun p => ¬ (p.irq = irq ∧ p.area = area) }
  | _, .freePercpu area, s, _ => some { s with areas := Function.update s.areas area none }
  | _, .irqSetAffinity _ _, s, _ => some s
  | _, .platformIrqCount _, s, _ => some s
  | _, .cpuPmRegisterNotifier drv, s, _ => some { s with cpuPmChain := drv :: s.cpuPmChain }
  | _, .cpuPmUnregisterNotifier drv, s, _ =>
      some { s with cpuPmChain := s.cpuPmChain.erase drv }
  | _, .deviceUnbindCleanup dev, s, _ => some (s.unbind dev)

/-- The kernel around probing and removing. -/
def erpKernel : Semantics ErpCall ErpState := ⟨erpStep⟩

/-- A program that makes these calls. -/
abbrev ErpProg (α : Type) := Program ErpCall α

/-! ## The functions -/

/-- The CPUs that may be present, and the package and the cluster of each. -/
structure Topology where
  possibleCpus : List Nat
  physicalPackageId : Nat → Int
  clusterId : Nat → Int

/-- `request_erp_irq`: its result and the interrupt it has looked up. -/
def requestErpIrq (dev : PlatformDevice) (propname desc : String) (handler : IrqHandler)
    (drv : Nat) (percpu : Bool) : ErpProg (Int × Int) := do
  let irq ← perform (.platformGetIrqByname dev propname)
  if irq < 0 then
    return (-EINVAL, irq)
  if ¬ percpu then
    let rc ← perform (.devmRequestThreadedIrq dev irq handler desc drv)
    if rc ≠ 0 then
      return (-EINVAL, irq)
    return (0, irq)
  else
    let erpCpuDrvdata ← perform .allocPercpu
    perform (.setErpCpuDrvdata drv erpCpuDrvdata)
    let some area := erpCpuDrvdata | return (-EINVAL, irq)
    perform (.setArea area drv)
    let rc ← perform (.requestPercpuIrq irq handler desc area)
    if rc ≠ 0 then
      perform (.freePercpu area)
      perform (.setErpCpuDrvdata drv none)
      return (-EINVAL, irq)
    perform (.setPpi drv irq)
    perform (.enablePercpuIrq irq)
    return (0, irq)

/-- The loops of `kryo_cpu_erp_probe` that place an interrupt on the first CPU of a package or a
cluster. -/
def setClusterAffinity (t : Topology) (irq cluster : Int) : ErpProg Unit :=
  match t.possibleCpus.find? fun cpu =>
      t.physicalPackageId cpu = cluster ∨ t.clusterId cpu = cluster with
  | none => return ()
  | some cpu => perform (.irqSetAffinity irq cpu)

/-- The request of the interrupt of a cluster in `kryo_cpu_erp_probe`: what it adds to `fail`. -/
def requestClusterIrq (t : Topology) (dev : PlatformDevice) (drv : Nat) (propname desc : String)
    (cluster : Int) : ErpProg Int := do
  let (rc, irq) ← requestErpIrq dev propname desc .kryoL3ScuHandler drv false
  if rc ≠ 0 then
    return 1
  setClusterAffinity t irq cluster
  return 0

/-- The requests of the four interrupts in `kryo_cpu_erp_probe`: `fail`, how many of them failed. -/
def requestErpIrqs (t : Topology) (dev : PlatformDevice) (drv : Nat) : ErpProg Int := do
  let (rc, _) ← requestErpIrq dev "l1-l2-faultirq" "KRYO L1-L2 ECC FAULTIRQ" .kryoL1L2Handler
    drv true
  let (rc', _) ← requestErpIrq dev "l3-scu-faultirq" "KRYO L3-SCU ECC FAULTIRQ"
    .kryoL3ScuHandler drv false
  let fail₀ ← requestClusterIrq t dev drv "l3-c0-scu-faultirq" "KRYO L3-SCU ECC FAULTIRQ CLUSTER 0"
    0
  let fail₁ ← requestClusterIrq t dev drv "l3-c1-scu-faultirq" "KRYO L3-SCU ECC FAULTIRQ CLUSTER 1"
    1
  return (if rc ≠ 0 then 1 else 0) + (if rc' ≠ 0 then 1 else 0) + fail₀ + fail₁

/-- The part of `kryo_cpu_erp_probe` from `edac_device_add_device` on. -/
def registerErpDevice (t : Topology) (dev : PlatformDevice) (drv ctl : Nat) : ErpProg Int := do
  let rc ← perform (.edacDeviceAddDevice ctl)
  if rc ≠ 0 then
    perform (.edacDeviceFreeCtlInfo ctl)
    return rc
  perform (.setPanicHandlerDrvdata drv)
  let fail ← requestErpIrqs t dev drv
  let numIrqs ← perform (.platformIrqCount dev)
  if numIrqs ≤ 0 then
    perform (.edacDeviceDelDevice (some dev))
    perform (.edacDeviceFreeCtlInfo ctl)
    return -EINVAL
  if fail ≥ (← perform (.platformIrqCount dev)) then
    perform (.edacDeviceDelDevice (some dev))
    perform (.edacDeviceFreeCtlInfo ctl)
    return -ENODEV
  perform (.cpuPmRegisterNotifier drv)
  return 0

/-- `kryo_cpu_erp_probe` -/
def kryoCpuErpProbe (t : Topology) (dev : PlatformDevice) : ErpProg Int := do
  let some drv ← perform (.devmKzalloc dev) | return -ENOMEM
  let edevCtl ← perform .edacDeviceAllocCtlInfo
  perform (.setEdevCtl drv edevCtl)
  let some ctl := edevCtl | return -ENOMEM
  perform (.setCtlDev ctl dev)
  perform (.atomicNotifierChainRegister drv)
  perform (.platformSetDrvdata dev drv)
  registerErpDevice t dev drv ctl

/-- `kryo_cpu_erp_remove` -/
def kryoCpuErpRemove (dev : PlatformDevice) : ErpProg Int := do
  let some drv ← perform (.devGetDrvdata dev) | perform .oops >>= Empty.elim
  let d ← perform (.readDrv drv)
  if let some area := d.erpCpuDrvdata then
    perform (.disablePercpuIrq d.ppi)
    perform (.freePercpuIrq d.ppi area)
    perform (.freePercpu area)
  perform (.cpuPmUnregisterNotifier drv)
  let some ctl := d.edevCtl | perform .oops >>= Empty.elim
  perform (.edacDeviceDelDevice (← perform (.readCtlDev ctl)))
  perform (.edacDeviceFreeCtlInfo ctl)
  return 0

/-! ## Requests -/

/-- What the driver core asks of the driver. -/
inductive ErpRequest where
  | probe (dev : PlatformDevice)
  | remove (dev : PlatformDevice)

/-- What serves a request: the driver core releases the managed resources of the device when its
probe has failed, and after its removal. -/
def erpProgram (t : Topology) : ErpRequest → ErpProg Int
  | .probe dev => do
      let rc ← kryoCpuErpProbe t dev
      if rc ≠ 0 then
        perform (.deviceUnbindCleanup dev)
      return rc
  | .remove dev => do
      let rc ← kryoCpuErpRemove dev
      perform (.deviceUnbindCleanup dev)
      return rc

/-- The driver core probes a device that has no driver data, and removes one that has. -/
def ErpRequest.Due (s : ErpState) : ErpRequest → Prop
  | .probe dev => s.drvdata dev = none
  | .remove dev => (s.drvdata dev).isSome

end SafeLinux.KryoEdac
