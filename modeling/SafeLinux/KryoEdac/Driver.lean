import SafeLinux.Effects.Determined
import SafeLinux.Linux.Types

/-!
# The Kryo cache error driver

`kryo_arm64_edac.c` on one CPU: the error record registers, the checks of the L1/L2 and of the L3
error record, the panic notifier, the interrupt handlers and the power-management notifier. The
messages printed on the way are left out.

`KryoCall` lists the accesses to the registers, to `local_handler_lock` and to the EDAC core, and
`kryo` says what each does to the CPU. Acquiring a lock that this CPU holds has no answer, and
`panic` never returns.
-/

namespace SafeLinux.KryoEdac

open Effects
open Effects.Program (perform)

/-! ## Registers and error codes -/

def L1_SILVER_BIT : U64 := 0x0
def L2_SILVER_BIT : U64 := 0x1
def L3_BIT : U64 := 0x2

def QCOM_CPU_PART_KRYO4XX_GOLD : U32 := 0x804
def QCOM_CPU_PART_KRYO5XX_GOLD : U32 := 0xD0D
def QCOM_CPU_PART_KRYO4XX_SILVER_V1 : U32 := 0x803
def QCOM_CPU_PART_KRYO4XX_SILVER_V2 : U32 := 0x805
def QCOM_CPU_PART_KRYO6XX_SILVER_V1 : U32 := 0xD05
def QCOM_CPU_PART_KRYO6XX_GOLDPLUS : U32 := 0xD44
def QCOM_CPU_PART_A78_GOLD : U32 := 0xD4B

def L1_GOLD_IC_BIT : U64 := 0x1
def L1_GOLD_DC_BIT : U64 := 0x4
def L2_GOLD_BIT : U64 := 0x8
def L2_GOLD_TLB_BIT : U64 := 0x2

/-- `BUS_ERROR`, a value of the `SERR` field. -/
def BUS_ERROR : U64 := 0x12

/-- `KRYO_ERRXSTATUS_VALID`. -/
def errxstatusValid (a : U64) : U64 := (a >>> 30) &&& 0x1

/-- `KRYO_ERRXSTATUS_UE`. -/
def errxstatusUe (a : U64) : U64 := (a >>> 29) &&& 0x1

/-- `KRYO_ERRXSTATUS_SERR`. -/
def errxstatusSerr (a : U64) : U64 := a &&& 0xFF

/-- `KRYO_ERRXMISC_LVL`. -/
def errxmiscLvl (a : U64) : U64 := (a >>> 1) &&& 0x7

/-- `KRYO_ERRXMISC_LVL_GOLD`. -/
def errxmiscLvlGold (a : U64) : U64 := a &&& 0xF

/-- The blocks of the EDAC device: the cache levels `L1`, `L2` and `L3`. -/
inductive Level where
  | l1
  | l2
  | l3
  deriving DecidableEq

/-- Whether an error was corrected (`CE`) or not (`UE`). -/
inductive Severity where
  | ce
  | ue
  deriving DecidableEq

/-- An error event as the EDAC core is told of it. -/
structure ErrorEvent where
  cpu : Nat
  level : Level
  severity : Severity
  msg : String
  deriving DecidableEq

/-! ## The CPU -/

/-- The registers of one error record. -/
structure ErrRecord where
  ctlr : U64
  status : U64
  misc : U64

/-- What a CPU sees: its error records, the one selected, `panic_on_ue`, whether it holds
`local_handler_lock`, and the events the EDAC core was told of. -/
structure Cpu where
  errselr : U64
  record : U64 → ErrRecord
  panicOnUe : Bool
  lockHeld : Bool
  reported : List ErrorEvent

/-- The record selected by `ERRSELR`. -/
def Cpu.selected (s : Cpu) : ErrRecord := s.record s.errselr

/-- The CPU after its selected record was written. -/
def Cpu.setSelected (s : Cpu) (r : ErrRecord) : Cpu :=
  { s with record := fun i => if i = s.errselr then r else s.record i }

/-- What the driver asks of the CPU and of the EDAC core. -/
inductive KryoCall : Type → Type where
  /-- `spin_lock_irqsave(&local_handler_lock, flags)` -/
  | spinLock : KryoCall Unit
  /-- `spin_unlock_irqrestore(&local_handler_lock, flags)` -/
  | spinUnlock : KryoCall Unit
  /-- `write_errselr_el1` -/
  | writeErrselr (val : U64) : KryoCall Unit
  /-- The `msr` of `set_errxctlr_el1`. -/
  | writeErrxctlr (val : U64) : KryoCall Unit
  /-- The `msr` of `set_errxmisc_overflow`. -/
  | writeErrxmisc (val : U64) : KryoCall Unit
  /-- `read_errxstatus_el1` -/
  | readErrxstatus : KryoCall U64
  /-- `read_errxmisc_el1` -/
  | readErrxmisc : KryoCall U64
  /-- `clear_errxstatus_valid`: the bits written as one are cleared. -/
  | clearErrxstatus (val : U64) : KryoCall Unit
  /-- `edev_ctl->panic_on_ue` -/
  | panicOnUe : KryoCall Bool
  /-- `edev_ctl->panic_on_ue = on` -/
  | setPanicOnUe (on : Bool) : KryoCall Unit
  /-- The EDAC core counts and logs an event. -/
  | count (event : ErrorEvent) : KryoCall Unit
  /-- `sysfs_notify_dirent` on the counter of a level. -/
  | sysfsNotifyDirent (level : Level) (severity : Severity) : KryoCall Unit
  /-- `panic` -/
  | panic : KryoCall Empty

/-- The answers to a call can be compared. -/
def KryoCall.answerEq {β : Type} : KryoCall β → DecidableEq β
  | .readErrxstatus | .readErrxmisc => inferInstanceAs (DecidableEq U64)
  | .panicOnUe => inferInstanceAs (DecidableEq Bool)
  | .panic => inferInstanceAs (DecidableEq Empty)
  | .spinLock | .spinUnlock | .writeErrselr _ | .writeErrxctlr _ | .writeErrxmisc _
  | .clearErrxstatus _ | .setPanicOnUe _ | .count _ | .sysfsNotifyDirent _ _ =>
      inferInstanceAs (DecidableEq Unit)

/-- What a call does to the CPU. -/
def respond {β : Type} (request : KryoCall β) (s : Cpu) : Option (β × Cpu) :=
  match request with
  | .spinLock => if s.lockHeld then none else some ((), { s with lockHeld := true })
  | .spinUnlock => some ((), { s with lockHeld := false })
  | .writeErrselr val => some ((), { s with errselr := val })
  | .writeErrxctlr val => some ((), s.setSelected { s.selected with ctlr := val })
  | .writeErrxmisc val => some ((), s.setSelected { s.selected with misc := val })
  | .readErrxstatus => some (s.selected.status, s)
  | .readErrxmisc => some (s.selected.misc, s)
  | .clearErrxstatus val =>
      some ((), s.setSelected { s.selected with status := s.selected.status &&& ~~~ val })
  | .panicOnUe => some (s.panicOnUe, s)
  | .setPanicOnUe on => some ((), { s with panicOnUe := on })
  | .count event => some ((), { s with reported := s.reported ++ [event] })
  | .sysfsNotifyDirent _ _ => some ((), s)
  | .panic => none

/-- The CPU as the environment of the driver. -/
def kryo : Semantics KryoCall Cpu := .determined respond KryoCall.answerEq

/-- Programs of the driver. -/
abbrev KryoProg (α : Type) := Program KryoCall α

/-! ## The driver -/

/-- The CPU the driver runs on and the driver's configuration. -/
structure Config where
  /-- `smp_processor_id()` -/
  cpu : Nat
  /-- `read_cpuid_part_number()` -/
  partNum : U32
  /-- Whether `CONFIG_EDAC_KRYO_ARM64_PANIC_ON_CE` is set. -/
  panicOnCe : Bool

/-- `panic` -/
def panic : KryoProg Unit := perform .panic >>= Empty.elim

/-- `edac_device_handle_ue`: it panics when `panic_on_ue` is set. -/
def edacDeviceHandleUe (instNr : Nat) (blockNr : Level) (msg : String) : KryoProg Unit := do
  perform (.count ⟨instNr, blockNr, .ue, msg⟩)
  if ← perform .panicOnUe then
    panic

/-- `kryo_edac_handle_ce` -/
def kryoEdacHandleCe (c : Config) (instNr : Nat) (blockNr : Level) (msg : String) :
    KryoProg Unit := do
  perform (.count ⟨instNr, blockNr, .ce, msg⟩)
  perform (.sysfsNotifyDirent blockNr .ce)
  if c.panicOnCe then
    panic

/-- `kryo_edac_handle_ue` -/
def kryoEdacHandleUe (instNr : Nat) (blockNr : Level) (msg : String) : KryoProg Unit := do
  edacDeviceHandleUe instNr blockNr msg
  perform (.sysfsNotifyDirent blockNr .ue)

/-- The indices `KRYO_L1_CE` to `KRYO_L3_UE` of the table `errors`. -/
inductive ErrorCode where
  | l1Ce
  | l1Ue
  | l2Ce
  | l2Ue
  | l3Ce
  | l3Ue
  deriving DecidableEq

/-- The table `errors`: the message and the handler of an error code. -/
def errors (c : Config) : ErrorCode → String × (Nat → Level → String → KryoProg Unit)
  | .l1Ce => ("Kryo L1 Correctable Error", kryoEdacHandleCe c)
  | .l1Ue => ("Kryo L1 Uncorrectable Error", kryoEdacHandleUe)
  | .l2Ce => ("Kryo L2 Correctable Error", kryoEdacHandleCe c)
  | .l2Ue => ("Kryo L2 Uncorrectable Error", kryoEdacHandleUe)
  | .l3Ce => ("L3 Correctable Error", kryoEdacHandleCe c)
  | .l3Ue => ("L3 Uncorrectable Error", kryoEdacHandleUe)

/-- `dump_err_reg` -/
def dumpErrReg (c : Config) (errorcode : ErrorCode) (level : Level) : KryoProg Unit :=
  (errors c errorcode).2 c.cpu level (errors c errorcode).1

/-- The cache level at which `kryo_parse_l1_l2_cache_error` places an error, if it knows the
CPU; an unknown location counts as L1. -/
def cacheLevel (partNum : U32) (errxmisc : U64) : Option Level :=
  if partNum = QCOM_CPU_PART_KRYO4XX_SILVER_V1 ∨ partNum = QCOM_CPU_PART_KRYO4XX_SILVER_V2 ∨
      partNum = QCOM_CPU_PART_KRYO6XX_SILVER_V1 then
    if errxmiscLvl errxmisc = L1_SILVER_BIT then some .l1
    else if errxmiscLvl errxmisc = L2_SILVER_BIT then some .l2
    else some .l1
  else if partNum = QCOM_CPU_PART_KRYO4XX_GOLD ∨ partNum = QCOM_CPU_PART_KRYO5XX_GOLD ∨
      partNum = QCOM_CPU_PART_KRYO6XX_GOLDPLUS ∨ partNum = QCOM_CPU_PART_A78_GOLD then
    if errxmiscLvlGold errxmisc = L1_GOLD_DC_BIT ∨ errxmiscLvlGold errxmisc = L1_GOLD_IC_BIT then
      some .l1
    else if errxmiscLvlGold errxmisc = L2_GOLD_BIT ∨ errxmiscLvlGold errxmisc = L2_GOLD_TLB_BIT then
      some .l2
    else some .l1
  else none

/-- `kryo_parse_l1_l2_cache_error` -/
def kryoParseL1L2CacheError (c : Config) (errxstatus errxmisc : U64) : KryoProg Unit := do
  match cacheLevel c.partNum errxmisc with
  | none => return
  | some .l1 =>
      if errxstatusUe errxstatus ≠ 0 then dumpErrReg c .l1Ue .l1
      else dumpErrReg c .l1Ce .l1
  | some .l2 =>
      if errxstatusUe errxstatus ≠ 0 then dumpErrReg c .l2Ue .l2
      else dumpErrReg c .l2Ce .l2
  | some .l3 => return

/-- `kryo_check_l1_l2_ecc` -/
def kryoCheckL1L2Ecc (c : Config) : KryoProg Unit := do
  perform .spinLock
  perform (.writeErrselr 0)
  let errxstatus ← perform .readErrxstatus
  if errxstatusValid errxstatus ≠ 0 then
    let errxmisc ← perform .readErrxmisc
    kryoParseL1L2CacheError c errxstatus errxmisc
    perform (.clearErrxstatus errxstatus)
  perform .spinUnlock

/-- `l3_is_bus_error` -/
def l3IsBusError (errxstatus : U64) : Bool := errxstatusSerr errxstatus = BUS_ERROR

/-- `kryo_check_l3_scu_error` -/
def kryoCheckL3ScuError (c : Config) : KryoProg Unit := do
  perform .spinLock
  perform (.writeErrselr 1)
  let errxstatus ← perform .readErrxstatus
  let errxmisc ← perform .readErrxmisc
  if errxstatusValid errxstatus ≠ 0 ∧ errxmiscLvl errxmisc = L3_BIT then
    if l3IsBusError errxstatus then
      if ← perform .panicOnUe then
        perform .spinUnlock
        panic
      perform .spinUnlock
      return
    if errxstatusUe errxstatus ≠ 0 then
      dumpErrReg c .l3Ue .l3
    else
      dumpErrReg c .l3Ce .l3
    perform (.clearErrxstatus errxstatus)
  perform .spinUnlock

def NOTIFY_OK : Int := 1
def IRQ_HANDLED : Int := 1

/-- `kryo_cpu_panic_notify` -/
def kryoCpuPanicNotify (c : Config) : KryoProg Int := do
  perform (.setPanicOnUe false)
  kryoCheckL3ScuError c
  kryoCheckL1L2Ecc c
  return NOTIFY_OK

/-- `kryo_l1_l2_handler` -/
def kryoL1L2Handler (c : Config) : KryoProg Int := do
  kryoCheckL1L2Ecc c
  return IRQ_HANDLED

/-- `kryo_l3_scu_handler` -/
def kryoL3ScuHandler (c : Config) : KryoProg Int := do
  kryoCheckL3ScuError c
  return IRQ_HANDLED

/-- `set_errxctlr_el1` -/
def setErrxctlrEl1 : KryoProg Unit := perform (.writeErrxctlr 0x10f)

/-- `set_errxmisc_overflow` -/
def setErrxmiscOverflow : KryoProg Unit := perform (.writeErrxmisc 0x7F7F00000000)

/-- `initialize_registers` -/
def initializeRegisters (info : Option U64) : KryoProg Unit := do
  if let some record := info then
    perform (.writeErrselr record)
  setErrxctlrEl1
  setErrxmiscOverflow

/-- `init_regs_on_cpu(false)`: the registers of this CPU. -/
def initRegsOnCpu : KryoProg Unit := do
  perform (.writeErrselr 0)
  initializeRegisters none
  perform (.writeErrselr 1)
  initializeRegisters none

/-- The actions of `enum cpu_pm_event`. -/
inductive CpuPmEvent where
  | cpuPmEnter
  | cpuPmEnterFailed
  | cpuPmExit
  | cpuClusterPmEnter
  | cpuClusterPmEnterFailed
  | cpuClusterPmExit
  deriving DecidableEq

/-- `kryo_pmu_cpu_pm_notify` -/
def kryoPmuCpuPmNotify (c : Config) (action : CpuPmEvent) : KryoProg Int := do
  if action = .cpuPmExit then
    initRegsOnCpu
    kryoCheckL3ScuError c
    kryoCheckL1L2Ecc c
  return NOTIFY_OK

end SafeLinux.KryoEdac
