import SafeLinux.Effects.Threads
import SafeLinux.Linux.Types

/-!
# The download mode

`qcom_dload_mode.c`: the file `dload_mode`, through which users see and choose what is dumped when
the system crashes. The mode is in a register that only secure calls reach, at the address that the
driver finds when it is probed; the driver keeps a copy in `dump_mode`, and shows that copy.

`DloadCall` lists the steps of the driver on what its threads share, one constructor a step: the
static variables are read and written, and secure calls are made, one at a time and without a lock.
-/

namespace SafeLinux.DloadMode

open Effects
open Effects.Program (perform)

/-! ## Modes -/

def QCOM_DOWNLOAD_FULLDUMP : U32 := 0x10
def QCOM_DOWNLOAD_MINIDUMP : U32 := 0x20
def QCOM_DOWNLOAD_BOTHDUMP : U32 := QCOM_DOWNLOAD_FULLDUMP ||| QCOM_DOWNLOAD_MINIDUMP

/-- `sysfs_streq`: equal, but for a newline at the end of one. -/
def sysfsStreq : List Char → List Char → Bool
  | c :: s₁, d :: s₂ => if c = d then sysfsStreq s₁ s₂ else false
  | [], [] => true
  | s₁, s₂ => s₁ = ['\n'] || s₂ = ['\n']

/-- The word for a mode in `dload_mode_show`. -/
def modeWord (mode : U32) : String :=
  if mode = QCOM_DOWNLOAD_FULLDUMP then "full"
  else if mode = QCOM_DOWNLOAD_MINIDUMP then "mini"
  else if mode = QCOM_DOWNLOAD_BOTHDUMP then "both"
  else "unknown"

/-- The mode that `dload_mode_store` takes a text for. -/
def storedMode (buf : List Char) : Option U32 :=
  if sysfsStreq buf "full".toList then some QCOM_DOWNLOAD_FULLDUMP
  else if sysfsStreq buf "mini".toList then some QCOM_DOWNLOAD_MINIDUMP
  else if sysfsStreq buf "both".toList then some QCOM_DOWNLOAD_BOTHDUMP
  else none

/-- What `dload_mode_show` prints for a mode. -/
def dumpTypeText (mode : U32) : String := "DLOAD dump type: " ++ modeWord mode ++ "\n"

/-! ## Steps -/

/-- What the device tree says of the register: where the registers of the node that
`qcom,dload-mode` names start, and the offset given there. -/
structure DloadNode where
  start : U64
  offset : U32

/-- The address of the register. -/
def DloadNode.address (node : DloadNode) : U64 := node.start + node.offset.setWidth 64

/-- The steps of the driver. A return value comes with what the call hands back. -/
inductive DloadCall : Type → Type where
  /-- `of_find_node_by_name(NULL, "qcom_scm")`: whether there is such a node. -/
  | ofFindNodeByName : DloadCall Bool
  /-- `of_parse_phandle(np, "qcom,dload-mode", 0)`: whether it names a node. -/
  | ofParsePhandle : DloadCall Bool
  /-- `of_address_to_resource(tcsr, 0, &res)`, with `res.start`. -/
  | ofAddressToResource : DloadCall (Int × U64)
  /-- `of_property_read_u32_index(np, "qcom,dload-mode", 1, &offset)` -/
  | ofPropertyReadU32Index : DloadCall (Int × U32)
  | ofNodePut : DloadCall Unit
  | kobjectInitAndAdd : DloadCall Int
  | kobjectPut : DloadCall Unit
  | kobjectDel : DloadCall Unit
  | sysfsCreateFile : DloadCall Int
  /-- `dload_mode_addr` is read. -/
  | dloadModeAddr : DloadCall U64
  /-- `dload_mode_addr` is set. -/
  | setDloadModeAddr (addr : U64) : DloadCall Unit
  /-- `dump_mode` is read. -/
  | dumpMode : DloadCall U32
  /-- `dump_mode` is set. -/
  | setDumpMode (mode : U32) : DloadCall Unit
  | qcomScmIoReadl (addr : U64) : DloadCall (Int × U32)
  | qcomScmIoWritel (addr : U64) (val : U32) : DloadCall Int

/-- What the threads of the driver share. -/
structure State (τ : Type) where
  /-- The registers that secure calls reach. -/
  regs : U64 → U32
  dumpMode : U32
  dloadModeAddr : U64
  /-- The file `dload_mode` has been created. -/
  file : Bool
  /-- The value that a thread has written to the register, or has read from it, and has not put in
  `dump_mode`. -/
  window : τ → Option U32
  /-- The register has been written or read. -/
  known : Bool

/-- The module has been loaded. -/
def State.fresh {τ : Type} (regs : U64 → U32) : State τ :=
  ⟨regs, QCOM_DOWNLOAD_FULLDUMP, 0, false, fun _ => none, false⟩

/-- What the steps of a thread do. A secure call that fails leaves the register, and the device tree
may be unreadable. -/
def dload {τ : Type} [DecidableEq τ] (node : DloadNode) (t : τ) :
    Semantics DloadCall (State τ) where
  step := fun request s answer =>
    match request with
    | .ofFindNodeByName | .ofParsePhandle | .ofNodePut | .kobjectInitAndAdd | .kobjectPut
    | .kobjectDel => some s
    | .ofAddressToResource =>
        if answer.1 = 0 ∧ answer.2 = node.start ∨ answer.1 < 0 then some s else none
    | .ofPropertyReadU32Index =>
        if answer.1 = 0 ∧ answer.2 = node.offset ∨ answer.1 < 0 then some s else none
    | .sysfsCreateFile => if answer = 0 then some { s with file := true } else some s
    | .dloadModeAddr => if answer = s.dloadModeAddr then some s else none
    | .setDloadModeAddr addr => some { s with dloadModeAddr := addr }
    | .dumpMode => if answer = s.dumpMode then some s else none
    | .setDumpMode mode =>
        some { s with dumpMode := mode, window := Function.update s.window t none }
    | .qcomScmIoReadl addr =>
        if answer.1 = 0 then
          if answer.2 = s.regs addr then
            some { s with window := Function.update s.window t (some answer.2), known := true }
          else none
        else some s
    | .qcomScmIoWritel addr val =>
        if answer = 0 then
          some { s with
            regs := Function.update s.regs addr val
            window := Function.update s.window t (some val)
            known := true }
        else some s

/-! ## Functions -/

/-- Programs of the driver. -/
abbrev DloadProg (α : Type) := Program DloadCall α

/-- The return value of a function of the file, and what it prints. -/
structure Reply where
  ret : Int
  out : String

/-- `get_dump_mode`, with the mode. -/
def getDumpMode : DloadProg (Int × U32) := do
  let addr ← perform .dloadModeAddr
  perform (.qcomScmIoReadl addr)

/-- `set_dump_mode` -/
def setDumpMode (mode : U32) : DloadProg Int := do
  let addr ← perform .dloadModeAddr
  let ret ← perform (.qcomScmIoWritel addr mode)
  if ret ≠ 0 then
    return ret
  else
    perform (.setDumpMode mode)
    return ret

/-- `dload_mode_show` -/
def dloadModeShow : DloadProg Reply := do
  let mode ← perform .dumpMode
  return ⟨(dumpTypeText mode).length, dumpTypeText mode⟩

/-- `dload_mode_store` -/
def dloadModeStore (buf : List Char) (count : Nat) : DloadProg Reply :=
  match storedMode buf with
  | none => return ⟨-EINVAL, ""⟩
  | some mode => do
      let ret ← setDumpMode mode
      return ⟨if ret ≠ 0 then ret else count, ""⟩

/-- `qcom_scm_find_dload_mode_address`, with `dload_mode_addr` for `*addr`. -/
def qcomScmFindDloadModeAddress : DloadProg Int := do
  let tcsr ← perform .ofParsePhandle
  if tcsr = false then
    return -1
  let (ret, start) ← perform .ofAddressToResource
  perform .ofNodePut
  if ret ≠ 0 then
    return ret
  let (ret, offset) ← perform .ofPropertyReadU32Index
  if ret < 0 then
    return ret
  perform (.setDloadModeAddr (start + offset.setWidth 64))
  return 0

/-- The end of `qcom_dload_mode_probe`: `dump_mode = get_dump_mode(&temp) ? dump_mode : temp`. -/
def initDumpMode : DloadProg Reply := do
  let (ret, temp) ← getDumpMode
  if ret ≠ 0 then
    -- the copy is read and written back
    let mode ← perform .dumpMode
    perform (.setDumpMode mode)
    return ⟨0, ""⟩
  else
    perform (.setDumpMode temp)
    return ⟨0, ""⟩

/-- `qcom_dload_mode_probe` -/
def qcomDloadModeProbe : DloadProg Reply := do
  let scm ← perform .ofFindNodeByName
  if scm = false then
    return ⟨-ENODEV, ""⟩
  perform .ofNodePut
  let ret ← qcomScmFindDloadModeAddress
  if ret < 0 then
    return ⟨ret, ""⟩
  let ret ← perform .kobjectInitAndAdd
  if ret ≠ 0 then
    perform .kobjectPut
    return ⟨ret, ""⟩
  let ret ← perform .sysfsCreateFile
  if ret ≠ 0 then
    perform .kobjectDel
    return ⟨ret, ""⟩
  initDumpMode

/-! ## The system -/

/-- What the threads do. -/
inductive Job where
  | probe
  | read
  | write (buf : List Char) (count : Nat)

/-- The program of a job. -/
def Job.program : Job → DloadProg Reply
  | .probe => qcomDloadModeProbe
  | .read => dloadModeShow
  | .write buf count => dloadModeStore buf count

/-- The pools of the driver. -/
abbrev DloadPool (τ : Type) := Pool τ Job DloadCall (State τ) Reply

/-- The steps of the driver's pools. -/
abbrev DloadMove (τ : Type) := Move τ Job DloadCall

/-- The driver with any number of probes and users of the file. -/
def dloadSystem (τ : Type) [DecidableEq τ] (node : DloadNode) :
    System τ Job DloadCall (State τ) Reply where
  semantics := dload node
  program := Job.program
  start := fun P _ i s => (i = .probe ∨ P.shared.file = true) ∧ s = P.shared
  finish := fun _ _ _ s => s

end SafeLinux.DloadMode
