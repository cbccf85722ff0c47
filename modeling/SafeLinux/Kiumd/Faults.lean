import SafeLinux.Effects.Lift
import SafeLinux.Effects.Run
import SafeLinux.Kiumd.Device

/-!
# SMMU fault handlers

`kiumd_smmu_fault_handler_register` creates a kobject with the name of the device, appends a node
to the list of registered devices and installs the fault handler of the device's domain with the
kobject's name as its token. A fault is latched in the node with that name until it is read through
sysfs. `FaultStep` says what each request can do to the list, the kobjects and the handlers.
-/

namespace SafeLinux.Kiumd

open Effects
open Effects.Program (perform)

/-! ## Data -/

/-- `struct kobject` under `smmu_obj`: its address and its name. -/
structure Kobject where
  id : Nat
  name : String
  deriving DecidableEq, Inhabited

/-- `struct smmu_device_obj`; the list starting at `head` is a list. -/
structure SmmuDeviceObj where
  kobj : Kobject
  smmuFsr : U32 := 0
  smmuIova : U32 := 0
  flag : Int := 0
  deriving DecidableEq, Inhabited

/-- What a fault is reported with: whether the domain has page-table operations, the FSR of its
context bank, and the address. -/
structure FaultReport where
  pgtblOps : Bool
  fsr : U32
  iova : U64
  deriving DecidableEq, Inhabited

/-- The calls that only the fault handlers make. -/
inductive FaultCall : Type → Type where
  | kobjectCreateAndAdd (name : String) : FaultCall (Option Kobject)
  | sysfsCreateFile (kobj : Kobject) : FaultCall Int
  | kzallocDeviceObj : FaultCall Bool
  | kfreeDeviceObj (obj : SmmuDeviceObj) : FaultCall Unit
  | kobjectPut (kobj : Kobject) : FaultCall Unit
  | sysfsNotify (kobj : Kobject) : FaultCall Unit
  | iommuSetFaultHandler (dom : Domain) (token : Kobject) : FaultCall Unit
  /-- The handler of a domain, by the kobject whose name is its token. -/
  | handler (dom : Domain) : FaultCall (Option Kobject)
  /-- The text a token points to. -/
  | readToken (token : Kobject) : FaultCall String
  | readHead : FaultCall (List SmmuDeviceObj)
  | writeHead (list : List SmmuDeviceObj) : FaultCall Unit

/-- The list of registered devices, the kobjects under `smmu_obj` and the tokens of the domains'
fault handlers. -/
structure FaultState where
  head : List SmmuDeviceObj := []
  kobjects : List Kobject := []
  handlers : Domain → Option Kobject := fun _ => none

/-- Siblings have distinct names, so a kobject with the name of a live one cannot be added. -/
def FaultState.accepts (f : FaultState) (kobj : Kobject) : Prop :=
  ∀ k ∈ f.kobjects, k.id ≠ kobj.id ∧ k.name ≠ kobj.name

instance (f : FaultState) (kobj : Kobject) : Decidable (f.accepts kobj) :=
  inferInstanceAs (Decidable (∀ k ∈ f.kobjects, _))

/-- The answers to these calls, and the state after each. -/
def faultStep : {β : Type} → FaultCall β → FaultState → β → Option FaultState
  | _, .kobjectCreateAndAdd _, f, none => some f
  | _, .kobjectCreateAndAdd name, f, some kobj =>
      if kobj.name = name ∧ f.accepts kobj
      then some { f with kobjects := kobj :: f.kobjects } else none
  | _, .sysfsCreateFile _, f, ret => if ret ≤ 0 then some f else none
  | _, .kzallocDeviceObj, f, _ => some f
  | _, .kfreeDeviceObj _, f, _ => some f
  | _, .kobjectPut kobj, f, _ => some { f with kobjects := f.kobjects.erase kobj }
  | _, .sysfsNotify _, f, _ => some f
  | _, .iommuSetFaultHandler dom token, f, _ =>
      some { f with handlers := Function.update f.handlers dom (some token) }
  | _, .handler dom, f, token => if token = f.handlers dom then some f else none
  | _, .readToken token, f, text =>
      -- the memory of a freed name may hold anything
      if token ∈ f.kobjects → text = token.name then some f else none
  | _, .readHead, f, list => if list = f.head then some f else none
  | _, .writeHead list, f, _ => some { f with head := list }

/-- The kernel around the fault handlers. -/
def faultKernel : Semantics (Either KCall FaultCall) (World × FaultState) :=
  kernel.prod ⟨faultStep⟩

/-- A program that makes these calls. -/
abbrev FaultProg := Program (Either KCall FaultCall)

/-! ## The functions -/

/-- The hexadecimal digits that `%x` prints. -/
def hexDigits (n : U32) : String := String.ofList (Nat.toDigits 16 n.toNat)

/-- The text `"0x%x:0x%x\n"`. -/
def showText (fsr iova : U32) : String :=
  "0x" ++ hexDigits fsr ++ ":0x" ++ hexDigits iova ++ "\n"

/-- The loop of `fsr_iova_show`: the values of the first node with the name, which it resets. -/
def showScan (name : String) : List SmmuDeviceObj → Option (U32 × U32 × List SmmuDeviceObj)
  | [] => none
  | temp :: next =>
      if temp.kobj.name = name then
        some (temp.smmuFsr, temp.smmuIova,
          { temp with smmuFsr := 0, smmuIova := 0, flag := 0 } :: next)
      else
        (showScan name next).map fun (fsr, iova, list) => (fsr, iova, temp :: list)

/-- `fsr_iova_show`; the result is the text written to `buf`. -/
def fsrIovaShow (kobj : Option Kobject) : FaultProg String := do
  let head ← perform (.inr .readHead)
  let some kobj := kobj | return showText 0 0
  match showScan kobj.name head with
  | none => return showText 0 0
  | some (fsr, iova, list) =>
      perform (.inr (.writeHead list))
      return showText fsr iova

/-- The loop of `kiumd_smmu_fault_handler`: the first node with the name that holds no fault takes
this one. -/
def latchScan (name : String) (report : FaultReport) :
    List SmmuDeviceObj → Option (Kobject × List SmmuDeviceObj)
  | [] => none
  | temp :: next =>
      if temp.kobj.name = name ∧ temp.flag = 0 then
        some (temp.kobj, { temp with
          smmuFsr := report.fsr, smmuIova := report.iova.setWidth 32, flag := 1 } :: next)
      else
        (latchScan name report next).map fun (kobj, list) => (kobj, temp :: list)

/-- `kiumd_smmu_fault_handler`; `name` is the text its token points to. -/
def kiumdSmmuFaultHandler (report : FaultReport) (name : String) : FaultProg Int := do
  if ¬ report.pgtblOps then
    return -EINVAL
  let head ← perform (.inr .readHead)
  match latchScan name report head with
  | none => return 0
  | some (kobj, list) =>
      perform (.inr (.writeHead list))
      perform (.inr (.sysfsNotify kobj))
      return 0

/-- A fault of a domain: the IOMMU driver calls the domain's handler with its token, if it has
one. -/
def reportIommuFault (dom : Domain) (report : FaultReport) : FaultProg Unit := do
  let some token ← perform (.inr (.handler dom)) | return ()
  let name ← perform (.inr (.readToken token))
  let _ ← kiumdSmmuFaultHandler report name

/-- The loop of `kiumd_smmu_fault_handler_deregister` behind the first node: the node with the name
and the list without it. -/
def cutScan (name : String) : List SmmuDeviceObj → Option (SmmuDeviceObj × List SmmuDeviceObj)
  | [] => none
  | temp :: next =>
      if temp.kobj.name = name then some (temp, next)
      else (cutScan name next).map fun (obj, list) => (obj, temp :: list)

/-- Take a node out of the list and release it. -/
def releaseDeviceObj (obj : SmmuDeviceObj) (list : List SmmuDeviceObj) : FaultProg Int := do
  perform (.inr (.writeHead list))
  perform (.inr (.kobjectPut obj.kobj))
  perform (.inr (.kfreeDeviceObj obj))
  return 0

/-- `kiumd_smmu_fault_handler_deregister`; `name` is `dev->kobj.name`. -/
def kiumdSmmuFaultHandlerDeregister (name : Device → String) (kiusr : KiumdUser) :
    FaultProg Int := do
  if ¬ (← perform (.inl (.copyFromUser (.user kiusr)))) then
    return -EFAULT
  let some vfioDev ← (kiumdGetVfioDevice kiusr.vfioFd).lift .inl | return -ENOTTY
  match ← perform (.inr .readHead) with
  | [] => return -1
  | temp :: next =>
      let some dev := vfioDev.dev | perform (.inl .oops) >>= Empty.elim
      if temp.kobj.name = name dev then
        releaseDeviceObj temp next
      else
        match cutScan (name dev) next with
        | none => return -1
        | some (obj, list) => releaseDeviceObj obj (temp :: list)

/-- The part of `kiumd_smmu_fault_handler_register` from the kobject on. -/
def registerDevice (name : Device → String) (dev : Device) (domain : Domain) : FaultProg Int := do
  let some deviceObj ← perform (.inr (.kobjectCreateAndAdd (name dev))) | return -ENOMEM
  let err ← perform (.inr (.sysfsCreateFile deviceObj))
  if err ≠ 0 then
    return err
  if ¬ (← perform (.inr .kzallocDeviceObj)) then
    return -ENOMEM
  let head ← perform (.inr .readHead)
  perform (.inr (.writeHead (head ++ [{ kobj := deviceObj }])))
  perform (.inr (.iommuSetFaultHandler domain deviceObj))
  return 0

/-- `kiumd_smmu_fault_handler_register`. -/
def kiumdSmmuFaultHandlerRegister (name : Device → String) (kiusr : KiumdUser) :
    FaultProg Int := do
  if ¬ (← perform (.inl (.copyFromUser (.user kiusr)))) then
    return -EFAULT
  let some vfioDev ← (kiumdGetVfioDevice kiusr.vfioFd).lift .inl | return -ENOTTY
  let some dev := vfioDev.dev | perform (.inl .oops) >>= Empty.elim
  let some domain ← perform (.inl (.iommuGetDmaDomain dev)) | return -EINVAL
  registerDevice name dev domain

/-! ## Requests -/

/-- A request or an event that reaches the driver: the two ioctls, a fault of a domain, a call of
the handler with a token of some text, and a read through sysfs. -/
inductive FaultRequest where
  | register (kiusr : KiumdUser)
  | deregister (kiusr : KiumdUser)
  | fault (dom : Domain) (report : FaultReport)
  | handle (report : FaultReport) (name : String)
  | show (kobj : Option Kobject)

/-- What serves a request; the result is the text that a read returns. -/
def faultProgram (name : Device → String) : FaultRequest → FaultProg (Option String)
  | .register kiusr => do
      let _ ← kiumdSmmuFaultHandlerRegister name kiusr
      return none
  | .deregister kiusr => do
      let _ ← kiumdSmmuFaultHandlerDeregister name kiusr
      return none
  | .fault dom report => do
      reportIommuFault dom report
      return none
  | .handle report text => do
      let _ ← kiumdSmmuFaultHandler report text
      return none
  | .show kobj => return some (← fsrIovaShow kobj)

end SafeLinux.Kiumd
