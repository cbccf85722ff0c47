import SafeLinux.Effects.Lift
import SafeLinux.Kiumd.Device

/-!
# Page tables of the GPU

The ioctls that set up the page tables of a device: SET_PGTBL_CONTEXT allocates a table and puts it
into a context bank of the SMMU, PER_PROCESS_ALLOC and PER_PROCESS_FREE let user space allocate and
free tables, and GLOBAL_PT_SET and PER_PROCESS_SET choose the table of a domain. `PtOp` adds the
operations on page tables and context banks to the calls of `KCall`.

A `struct io_pgtable` contains its `ops`, and drivers pass `&ops` around; `off` is the offset of
this field.
-/

namespace SafeLinux.Kiumd

open Effects

/-! ## Registers of a context bank -/

def ARM_SMMU_CBA2R_VA64 : U32 := bit 0
def ARM_SMMU_CBAR_S1_BPSHCFG_NSH : U32 := 3
def ARM_SMMU_CBAR_S1_MEMATTR_WB : U32 := 0xf
def ARM_SMMU_FEAT_VMID16 : U32 := bit 6

def ARM_SMMU_SCTLR_S1_ASIDPNE : U32 := bit 12
def ARM_SMMU_SCTLR_CFIE : U32 := bit 6
def ARM_SMMU_SCTLR_CFRE : U32 := bit 5
def ARM_SMMU_SCTLR_AFE : U32 := bit 2
def ARM_SMMU_SCTLR_TRE : U32 := bit 1
def ARM_SMMU_SCTLR_M : U32 := bit 0

def ARM_SMMU_TCR_EPD1 : U32 := bit 23
def ARM_SMMU_TCR_A1 : U32 := bit 22
def ARM_SMMU_TCR_EPD0 : U32 := bit 7

def IO_PGTABLE_QUIRK_ARM_TTBR1 : U64 := bit 5

/-- `enum arm_smmu_cbar_type`. -/
inductive ArmSmmuCbarType where
  | s2Trans
  | s1TransS2Bypass
  | s1TransS2Fault
  | s1TransS2Trans
  deriving DecidableEq, Inhabited

/-- The value of an `enum arm_smmu_cbar_type`. -/
def ArmSmmuCbarType.value : ArmSmmuCbarType → U32
  | .s2Trans => 0
  | .s1TransS2Bypass => 1
  | .s1TransS2Fault => 2
  | .s1TransS2Trans => 3

/-- `enum arm_smmu_context_fmt`. -/
inductive ArmSmmuContextFmt where
  | none
  | aarch64
  | aarch32L
  | aarch32S
  deriving DecidableEq, Inhabited

/-- `struct arm_smmu_cfg`; `asid` is also its `vmid`. -/
structure ArmSmmuCfg where
  asid : BitVec 16
  cbar : ArmSmmuCbarType
  fmt : ArmSmmuContextFmt
  deriving DecidableEq, Inhabited

/-- `struct arm_smmu_cb`. -/
structure ArmSmmuCb where
  ttbr0 : U64
  ttbr1 : U64
  tcr0 : U32
  tcr1 : U32
  mair0 : U32
  mair1 : U32
  deriving DecidableEq, Inhabited

/-- `struct io_pgtable_cfg` with its `arm_lpae_s1_cfg`, the fields the driver uses. -/
structure IoPgtableCfg where
  quirks : U64
  ttbr : U64
  tg : U32
  sh : U32
  orgn : U32
  irgn : U32
  tsz : U32
  deriving DecidableEq, Inhabited

/-- The registers of a context bank that the driver writes. -/
inductive CbReg where
  | cba2r
  | cbar
  | tcr2
  | tcr
  | ttbr0
  | ttbr1
  | mair0
  | mair1
  | sctlr
  deriving DecidableEq, Inhabited

/-- `arm_smmu_lpae_tcr`. -/
def armSmmuLpaeTcr (cfg : IoPgtableCfg) : U32 :=
  let tcr := fieldPrep 15 14 cfg.tg ||| fieldPrep 13 12 cfg.sh ||| fieldPrep 11 10 cfg.orgn |||
    fieldPrep 9 8 cfg.irgn ||| fieldPrep 5 0 cfg.tsz
  if cfg.quirks &&& IO_PGTABLE_QUIRK_ARM_TTBR1 ≠ 0 then
    ((tcr <<< 16) &&& ~~~ ARM_SMMU_TCR_A1) ||| ARM_SMMU_TCR_EPD0
  else
    tcr ||| ARM_SMMU_TCR_EPD1

/-- The translation control that enables both halves of the address space. -/
def enabledTcr (tcr : U32) (cfg : IoPgtableCfg) : U32 :=
  (tcr ||| armSmmuLpaeTcr cfg) &&& ~~~ (ARM_SMMU_TCR_EPD0 ||| ARM_SMMU_TCR_EPD1)

/-- A table base with the address space id, as a `TTBRn` holds them. -/
def ttbrOf (cfg : IoPgtableCfg) (asid : BitVec 16) : U64 :=
  cfg.ttbr ||| fieldPrep 63 48 (asid.setWidth 64)

/-! ## Operations -/

/-- The operations on page tables and context banks, by the type of their answer. A context bank is
named by the domain it serves. -/
inductive PtOp : Type → Type where
  -- the static `pgtable`
  | pgtable : PtOp U64
  | setPgtable (p : U64) : PtOp Unit
  -- `struct arm_smmu_domain`
  | pgtblOps (dom : Domain) : PtOp U64
  | setPgtblOps (dom : Domain) (ops : U64) : PtOp Unit
  | cfg (dom : Domain) : PtOp ArmSmmuCfg
  | features (dom : Domain) : PtOp U32
  | setGeometry (dom : Domain) (start stop : U64) : PtOp Unit
  -- page tables
  | memcpyCfg (p : U64) : PtOp (Option IoPgtableCfg)
  | allocIoPgtableOps (cfg : IoPgtableCfg) : PtOp (Option (U64 × IoPgtableCfg))
  | freeIoPgtableOps (ops : U64) : PtOp Unit
  -- context banks
  | cb (dom : Domain) : PtOp ArmSmmuCb
  | setCb (dom : Domain) (cb : ArmSmmuCb) : PtOp Unit
  | write (dom : Domain) (reg : CbReg) (value : U64) : PtOp Unit
  | qcomScmKgslSetSmmuAperture (dom : Domain) : PtOp Int

/-- The hardware of the SMMU. -/
structure SmmuHw where
  regs : Domain → CbReg → U64
  geometry : Domain → U64 × U64

/-- The page tables: the static pointer, what each domain points to, which tables are allocated and
their configurations, and the context banks. Tables are named by the addresses of their `ops`. -/
structure PageTables where
  pgtable : U64
  pgtblOps : Domain → U64
  live : U64 → Bool
  cfgs : U64 → IoPgtableCfg
  cbs : Domain → ArmSmmuCb
  smmuCfg : Domain → ArmSmmuCfg
  features : Domain → U32
  hw : SmmuHw

namespace PageTables

/-- Let a domain point to a table. -/
def install (s : PageTables) (dom : Domain) (ops : U64) : PageTables :=
  { s with pgtblOps := Function.update s.pgtblOps dom ops }

/-- Allocate a table. -/
def alloc (s : PageTables) (ops : U64) (cfg : IoPgtableCfg) : PageTables :=
  { s with live := Function.update s.live ops true, cfgs := Function.update s.cfgs ops cfg }

/-- Free a table. -/
def free (s : PageTables) (ops : U64) : PageTables :=
  { s with live := Function.update s.live ops false }

/-- Change the structure of a context bank. -/
def program (s : PageTables) (dom : Domain) (cb : ArmSmmuCb) : PageTables :=
  { s with cbs := Function.update s.cbs dom cb }

/-- Write a register of a context bank. -/
def writeReg (s : PageTables) (dom : Domain) (reg : CbReg) (value : U64) : PageTables :=
  { s with hw := { s.hw with
    regs := Function.update s.hw.regs dom (Function.update (s.hw.regs dom) reg value) } }

/-- Set the aperture of a domain's geometry. -/
def setGeometry (s : PageTables) (dom : Domain) (start stop : U64) : PageTables :=
  { s with hw := { s.hw with geometry := Function.update s.hw.geometry dom (start, stop) } }

end PageTables

/-- What the operations do. -/
def ptStep (off : U64) : {β : Type} → PtOp β → PageTables → β → Option PageTables
  | _, .pgtable, s, p => if p = s.pgtable then some s else none
  | _, .setPgtable p, s, _ => some { s with pgtable := p }
  | _, .pgtblOps dom, s, ops => if ops = s.pgtblOps dom then some s else none
  | _, .setPgtblOps dom ops, s, _ => some (s.install dom ops)
  | _, .cfg dom, s, cfg => if cfg = s.smmuCfg dom then some s else none
  | _, .features dom, s, features => if features = s.features dom then some s else none
  | _, .setGeometry dom start stop, s, _ => some (s.setGeometry dom start stop)
  | _, .memcpyCfg p, s, none =>
      -- only what is no table can fault
      if p ≠ 0 ∧ s.live (p + off) then none else some s
  | _, .memcpyCfg p, s, some cfg =>
      -- freed memory may hold anything
      if p ≠ 0 ∧ (s.live (p + off) → cfg = s.cfgs (p + off)) then some s else none
  | _, .allocIoPgtableOps _, s, none => some s
  | _, .allocIoPgtableOps cfg, s, some (ops, cfg') =>
      if ops ≠ 0 ∧ ¬ s.live ops ∧ cfg'.quirks = cfg.quirks then some (s.alloc ops cfg') else none
  | _, .freeIoPgtableOps ops, s, _ => some (s.free ops)
  | _, .cb dom, s, cb => if cb = s.cbs dom then some s else none
  | _, .setCb dom cb, s, _ => some (s.program dom cb)
  | _, .write dom reg value, s, _ => some (s.writeReg dom reg value)
  | _, .qcomScmKgslSetSmmuAperture _, s, ret => if ret ≤ 0 then some s else none

/-- The calls of the page-table ioctls. -/
abbrev PtCall : Type → Type := Either KCall PtOp

/-- The state they act on. -/
abbrev PtWorld := World × PageTables

/-- The kernel as their environment. -/
def ptKernel (off : U64) : Semantics PtCall PtWorld := kernel.prod ⟨ptStep off⟩

/-- A program of the page-table ioctls. -/
abbrev PtProg := Program PtCall

/-- Make a call of the rest of the driver. -/
def kcall {β : Type} (request : KCall β) : PtProg β := .perform (.inl request)

/-- Make an operation on page tables. -/
def ptop {β : Type} (request : PtOp β) : PtProg β := .perform (.inr request)

/-! ## Context banks -/

/-- The value of `CBAR` for a context bank. -/
def cbarOf (cfg : ArmSmmuCfg) (features : U32) : U32 :=
  let reg := fieldPrep 17 16 cfg.cbar.value
  if cfg.cbar ≠ .s2Trans then
    reg ||| (fieldPrep 9 8 ARM_SMMU_CBAR_S1_BPSHCFG_NSH |||
      fieldPrep 15 12 ARM_SMMU_CBAR_S1_MEMATTR_WB)
  else if features &&& ARM_SMMU_FEAT_VMID16 = 0 then
    reg ||| fieldPrep 7 0 (cfg.asid.setWidth 32)
  else
    reg

/-- The value of `SCTLR` that enables a context bank. -/
def sctlrOf : U32 :=
  (ARM_SMMU_SCTLR_CFIE ||| ARM_SMMU_SCTLR_CFRE ||| ARM_SMMU_SCTLR_AFE ||| ARM_SMMU_SCTLR_TRE |||
    ARM_SMMU_SCTLR_M) ||| ARM_SMMU_SCTLR_S1_ASIDPNE

/-- The writes of `kiumd_smmuv2_write_context_bank`, in their order. -/
def contextBankWrites (cfg : ArmSmmuCfg) (features : U32) (cb : ArmSmmuCb) :
    List (CbReg × U64) :=
  let stage1 := cfg.cbar ≠ .s2Trans
  [(.cba2r, (if cfg.fmt = .aarch64 then ARM_SMMU_CBA2R_VA64 else 0).setWidth 64),
    (.cbar, (cbarOf cfg features).setWidth 64)] ++
  (if stage1 then [(.tcr2, cb.tcr1.setWidth 64)] else []) ++
  [(.tcr, cb.tcr0.setWidth 64), (.ttbr0, cb.ttbr0)] ++
  (if stage1 then [(.ttbr1, cb.ttbr1)] else []) ++
  [(.mair0, cb.mair0.setWidth 64), (.mair1, cb.mair1.setWidth 64), (.sctlr, sctlrOf.setWidth 64)]

/-- Write registers one after the other. -/
def writeRegs (dom : Domain) : List (CbReg × U64) → PtProg Unit
  | [] => return ()
  | (reg, value) :: rest => do
      ptop (.write dom reg value)
      writeRegs dom rest

/-- `kiumd_smmuv2_write_context_bank`. -/
def kiumdSmmuv2WriteContextBank (dom : Domain) : PtProg Unit := do
  let cfg ← ptop (.cfg dom)
  let features ← ptop (.features dom)
  let cb ← ptop (.cb dom)
  writeRegs dom (contextBankWrites cfg features cb)

/-- `kiumd_smmuv2_set_ttbr0_cfg`. -/
def kiumdSmmuv2SetTtbr0Cfg (dom : Domain) (pgtblCfg : IoPgtableCfg) : PtProg Int := do
  let cb ← ptop (.cb dom)
  if cb.tcr0 &&& ARM_SMMU_TCR_EPD0 = 0 then
    return -EINVAL
  let cfg ← ptop (.cfg dom)
  ptop (.setCb dom
    { cb with tcr0 := enabledTcr cb.tcr0 pgtblCfg, ttbr0 := ttbrOf pgtblCfg cfg.asid })
  kiumdSmmuv2WriteContextBank dom
  return 0

/-- `kiumd_smmuv2_set_ttbr1_cfg`. -/
def kiumdSmmuv2SetTtbr1Cfg (dom : Domain) (pgtblCfg : IoPgtableCfg) : PtProg Int := do
  let cb ← ptop (.cb dom)
  if cb.tcr0 &&& ARM_SMMU_TCR_EPD1 = 0 then
    return -EINVAL
  let cfg ← ptop (.cfg dom)
  ptop (.setCb dom
    { cb with tcr0 := enabledTcr cb.tcr0 pgtblCfg, ttbr1 := ttbrOf pgtblCfg cfg.asid })
  kiumdSmmuv2WriteContextBank dom
  return 0

/-! ## SET_PGTBL_CONTEXT -/

/-- `memcpy` from the configuration of a page table. -/
def copyCfg (p : U64) : PtProg IoPgtableCfg := do
  let some cfg ← ptop (.memcpyCfg p) | kcall .oops >>= Empty.elim
  return cfg

/-- The end of `kiumd_set_pgtble_ttbr1_context`. -/
def useTtbr1 (dom : Domain) (cfg : IoPgtableCfg) : PtProg Int := do
  if cfg.quirks &&& IO_PGTABLE_QUIRK_ARM_TTBR1 ≠ 0 then
    ptop (.setGeometry dom (BitVec.allOnes 64 <<< 48) (BitVec.allOnes 64))
    let some (pgtableOps, cfg) ← ptop (.allocIoPgtableOps cfg) | return -EINVAL
    ptop (.setPgtblOps dom pgtableOps)
    if (← kiumdSmmuv2SetTtbr1Cfg dom cfg) < 0 then
      ptop (.freeIoPgtableOps pgtableOps)
      return -EINVAL
    return 0
  else
    return -EINVAL

/-- `kiumd_set_pgtble_ttbr1_context`. -/
def kiumdSetPgtbleTtbr1Context (off : U64) (dom : Domain) : PtProg Int := do
  let pgtblOps ← ptop (.pgtblOps dom)
  if pgtblOps = 0 then
    return -EINVAL
  let pagetable := pgtblOps - off
  if pagetable = 0 then
    return -EINVAL
  let cfg ← copyCfg pagetable
  useTtbr1 dom { cfg with quirks := cfg.quirks ||| IO_PGTABLE_QUIRK_ARM_TTBR1 }

/-- `if (!pgtable)` in `kiumd_set_pgtble_ttbr0_context` and `kiumd_global_pgtble_set`: take the
table of a domain as the static `pgtable` unless there is one. -/
def staticPgtable (off : U64) (dom : Domain) : PtProg (Option U64) := do
  let pgtable ← ptop .pgtable
  if pgtable = 0 then
    let pgtblOps ← ptop (.pgtblOps dom)
    ptop (.setPgtable (pgtblOps - off))
    if pgtblOps - off = 0 then
      return none
    return some (pgtblOps - off)
  else
    return some pgtable

/-- A configuration for `TTBR0`. -/
def ttbr0Cfg (cfg : IoPgtableCfg) : IoPgtableCfg :=
  { cfg with quirks := cfg.quirks &&& ~~~ IO_PGTABLE_QUIRK_ARM_TTBR1 }

/-- Set the aperture, once more when the firmware is busy. -/
def setAperture (dom : Domain) : PtProg Int := do
  let ret ← ptop (.qcomScmKgslSetSmmuAperture dom)
  if ret = -EBUSY then
    ptop (.qcomScmKgslSetSmmuAperture dom)
  else
    return ret

/-- The end of `kiumd_set_pgtble_ttbr0_context`, with a new table; what
`kiumd_smmuv2_set_ttbr0_cfg` returns is ignored. -/
def useTtbr0 (dom : Domain) (pgtableOps : U64) (cfg : IoPgtableCfg) : PtProg Int := do
  let _ ← kiumdSmmuv2SetTtbr0Cfg dom cfg
  let ret ← setAperture dom
  if ret ≠ 0 then
    ptop (.freeIoPgtableOps pgtableOps)
    return ret
  return 0

/-- `kiumd_set_pgtble_ttbr0_context`. -/
def kiumdSetPgtbleTtbr0Context (off : U64) (dom : Domain) : PtProg Int := do
  if (← ptop (.pgtblOps dom)) = 0 then
    return -EINVAL
  let some pgtable ← staticPgtable off dom | return -EINVAL
  let cfg ← copyCfg pgtable
  let some (pgtableOps, cfg) ← ptop (.allocIoPgtableOps (ttbr0Cfg cfg)) | return -ENOMEM
  useTtbr0 dom pgtableOps cfg

/-- `kiumd_set_pgtbl_context`. -/
def kiumdSetPgtblContext (off : U64) (arg : KiumdSmmuUser) : PtProg Int := do
  if ¬ (← kcall (.copyFromUser (.smmu arg))) then
    return -EFAULT
  if arg.vfioFd < 0 then
    return -EBADF
  let some vfioDev ← (kiumdGetVfioDevice arg.vfioFd).lift .inl | return -EINVAL
  let some dev := vfioDev.dev | kcall .oops >>= Empty.elim
  let some dom ← kcall (.iommuGetDmaDomain dev) | return -EINVAL
  if arg.flags = KIUMD_SMMU_SET_TTBR0_CONFIG then
    kiumdSetPgtbleTtbr0Context off dom
  else if arg.flags = KIUMD_SMMU_SET_TTBR1_CONFIG then
    kiumdSetPgtbleTtbr1Context off dom
  else
    return -ENOTTY

/-! ## The other ioctls -/

/-- The start these ioctls share: the file of the descriptor and its device, or the error for a
file without a device. -/
def vfioFile (arg : KiumdSmmuUser) (noDevice : Int) : PtProg (Except Int (File × VfioDevice)) := do
  if ¬ (← kcall (.copyFromUser (.smmu arg))) then
    return .error (-EFAULT)
  if arg.vfioFd < 0 then
    return .error (-EBADF)
  let some file ← kcall (.fget arg.vfioFd) | return .error (-EBADF)
  let some df := file.privateData | kcall .oops >>= Empty.elim
  let some vfioDev := df | do
    kcall (.fput file)
    return .error noDevice
  return .ok (file, vfioDev)

/-- The domain of the device, or the error for a device without one. -/
def vfioDomain (arg : KiumdSmmuUser) (noDevice noDomain : Int) :
    PtProg (Except Int (File × Domain)) := do
  match ← vfioFile arg noDevice with
  | .error err => return .error err
  | .ok (file, vfioDev) =>
      let some dev := vfioDev.dev | kcall .oops >>= Empty.elim
      let some dom ← kcall (.iommuGetDmaDomain dev) | do
        kcall (.fput file)
        return .error noDomain
      return .ok (file, dom)

/-- The allocation of `kiumd_perprocess_pt_alloc`; the static `pgtable` is read as it is. -/
def allocPerProcess (arg : KiumdSmmuUser) (file : File) (dom : Domain) : PtProg Int := do
  let cfg ← copyCfg (← ptop .pgtable)
  let smmuCfg ← ptop (.cfg dom)
  let some (pgtableOps, cfg) ← ptop (.allocIoPgtableOps (ttbr0Cfg cfg)) | do
    kcall (.fput file)
    return -EINVAL
  kcall (.fput file)
  let reply := { arg with asid := smmuCfg.asid, pgtblOpsPtr := pgtableOps, ttbr0 := cfg.ttbr }
  if ¬ (← kcall (.copyToUser (.smmu reply))) then
    return -EFAULT
  return 0

/-- `kiumd_perprocess_pt_alloc`. -/
def kiumdPerprocessPtAlloc (arg : KiumdSmmuUser) : PtProg Int := do
  match ← vfioDomain arg (-EINVAL) (-EINVAL) with
  | .error err => return err
  | .ok (file, dom) =>
      if (← ptop (.pgtblOps dom)) = 0 then
        kcall (.fput file)
        return -EINVAL
      allocPerProcess arg file dom

/-- `kiumd_global_pgtble_set`. -/
def kiumdGlobalPgtbleSet (off : U64) (arg : KiumdSmmuUser) : PtProg Int := do
  match ← vfioDomain arg (-ENOTTY) (-ENOMEM) with
  | .error err => return err
  | .ok (file, dom) =>
      let some pgtable ← staticPgtable off dom | do
        kcall (.fput file)
        return -EINVAL
      if pgtable + off = 0 then
        kcall (.fput file)
        return -ENOMEM
      ptop (.setPgtblOps dom (pgtable + off))
      kcall (.fput file)
      return 0

/-- `kiumd_perprocess_pgtble_set`; the pointer is taken from user space as it is. -/
def kiumdPerprocessPgtbleSet (arg : KiumdSmmuUser) : PtProg Int := do
  match ← vfioDomain arg (-EINVAL) (-EINVAL) with
  | .error err => return err
  | .ok (file, dom) =>
      ptop (.setPgtblOps dom arg.pgtblOpsPtr)
      kcall (.fput file)
      return 0

/-- `kiumd_perprocess_pgtble_free`; the pointer is taken from user space as it is. -/
def kiumdPerprocessPgtbleFree (arg : KiumdSmmuUser) : PtProg Int := do
  match ← vfioFile arg (-EINVAL) with
  | .error err => return err
  | .ok (file, _) =>
      if arg.pgtblOpsPtr = 0 then
        kcall (.fput file)
        return -EINVAL
      ptop (.freeIoPgtableOps arg.pgtblOpsPtr)
      kcall (.fput file)
      return 0

/-- The page-table ioctls, with the user structure each is passed. -/
inductive PtRequest where
  | setPgtblContext (arg : KiumdSmmuUser)
  | perProcessAlloc (arg : KiumdSmmuUser)
  | perProcessSet (arg : KiumdSmmuUser)
  | perProcessFree (arg : KiumdSmmuUser)
  | globalPtSet (arg : KiumdSmmuUser)
  deriving DecidableEq, Inhabited

/-- `kiumd_ioctl` for the ioctls of `PtRequest`. -/
def kiumdPgtblIoctl (off : U64) : PtRequest → PtProg Int
  | .setPgtblContext arg => kiumdSetPgtblContext off arg
  | .perProcessAlloc arg => kiumdPerprocessPtAlloc arg
  | .perProcessSet arg => kiumdPerprocessPgtbleSet arg
  | .perProcessFree arg => kiumdPerprocessPgtbleFree arg
  | .globalPtSet arg => kiumdGlobalPgtbleSet off arg

end SafeLinux.Kiumd
