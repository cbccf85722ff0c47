import SafeLinux.Effects.Program
import SafeLinux.Linux.Types
import Mathlib.Data.Vector.Basic
import Mathlib.Tactic.IntervalCases

/-!
# The secure-call interface for user space

`scm_user_intf.c`: the allow-list of services and commands, the translation of DMA-buffer file
descriptors to physical addresses, and `scm_ioctl` in its two builds, one for kernel 5.14.0 with
the generic `qcom_scm_call` and one for other kernels with a dispatch on service and command.

`ScmCall` lists what the driver asks of the kernel; messages are left out. The wrappers of the
kernel's `qcom_scm.h` are one constructor with the wrapper as an argument: each makes the secure
call of its service and command with the arguments it is given, as far as its parameter types hold
them. The parameter types are not part of the repository and stand as `Widths`.
-/

namespace SafeLinux.ScmIntf

open Effects
open Effects.Program (perform)

/-! ## Services, commands and requests -/

-- Numbers of the kernel's `qcom_scm.h`.
def QCOM_SCM_SVC_BOOT : U32 := 0x01
def QCOM_SCM_BOOT_SET_REMOTE_STATE : U32 := 0x0a
def QCOM_SCM_SVC_PIL : U32 := 0x02
def QCOM_SCM_PIL_PAS_INIT_IMAGE : U32 := 0x01
def QCOM_SCM_PIL_PAS_MEM_SETUP : U32 := 0x02
def QCOM_SCM_PIL_PAS_AUTH_AND_RESET : U32 := 0x05
def QCOM_SCM_PIL_PAS_SHUTDOWN : U32 := 0x06
def QCOM_SCM_SVC_INFO : U32 := 0x06
def QCOM_SCM_INFO_IS_CALL_AVAIL : U32 := 0x01
def QCOM_SCM_SVC_MP : U32 := 0x0c
def QCOM_SCM_MP_VIDEO_VAR : U32 := 0x08
def QCOM_SCM_SVC_LMH : U32 := 0x13
def QCOM_SCM_LMH_LIMIT_PROFILE_CHANGE : U32 := 0x01
def MAX_QCOM_SCM_ARGS : Nat := 10
def MAX_QCOM_SCM_RETS : Nat := 3

-- Numbers of the driver's own header.
def QCOM_SCM_INFO_GET_FEAT_VERSION_CMD : U32 := 0x03
def QCOM_SCM_INFO_BW_PROF_ID : U32 := 0x07
def QCOM_SCM_MP_SHM_BRIDGE_ENABLE : U32 := 0x1c
def QCOM_SCM_MP_SHM_BRIDGE_DELETE : U32 := 0x1d
def QCOM_SCM_MP_SHM_BRIDGE_CREATE : U32 := 0x1e
def QCOM_SCM_SVC_SHE : U32 := 0x21
def QCOM_SCM_SHE_ID : U32 := 0x1
def QCOM_SCM_SVC_SAFETY : U32 := 0x23
def QCOM_SCM_SAFETY_ENABLE_FFI_ID : U32 := 0x1

/-- `SCM_HAND_SHAKE_IOCTL`, `_IOWR('R', 10, struct scm_hand_shake)` for a structure of 128
bytes. -/
def SCM_HAND_SHAKE_IOCTL : U32 := 0xC080520A

/-- `struct scm_hand_shake` -/
structure ScmHandShake where
  svc : U32
  cmd : U32
  owner : U32
  arginfo : U32
  argsBuffer : Vector U64 10
  ret : U32
  argType : U32
  qcomScmRes : Vector U64 3
  deriving DecidableEq

/-- `scm_data.arginfo & 0x0F` -/
def ScmHandShake.noOfArgs (d : ScmHandShake) : Nat := (d.arginfo &&& 0x0F).toNat

/-- The kernel the driver is built for. -/
inductive Build where
  | v5_14_0
  | other
  deriving DecidableEq

/-- The contents of the variables of `scm_ioctl` that are declared without a value. -/
structure Stack where
  res : Vector U64 3
  dmaFdArgs : Vector U32 10
  descArgs : Vector U64 10

/-! ## Calls to the kernel -/

/-- The wrappers of `qcom_scm.h` that the driver calls. -/
inductive Wrapper where
  | setRemoteState
  | pasInitImage
  | pasMemSetup
  | pasAuthAndReset
  | pasShutdown
  | getTzFeatIdVersion
  | ddrbwProfiler
  | memProtectVideoVar
  | sheOp
  | lmhProfileChange
  deriving DecidableEq

/-- The number of bits of each parameter of a wrapper. -/
abbrev Widths := Wrapper → Nat → Nat

/-- A value as a parameter of a number of bits holds it. -/
def narrow (bits : Nat) (value : U64) : U64 := BitVec.ofNat 64 (value.toNat % 2 ^ bits)

/-- `struct qcom_scm_desc`; `owner` is always `ARM_SMCCC_OWNER_SIP`. -/
structure Desc where
  svc : U32
  cmd : U32
  arginfo : U32
  args : Vector U64 10

/-- A scatter-gather table as `get_pa_from_dmabuf_fd` reads it. -/
structure SgTable where
  nents : U32
  dmaAddress : U64

/-- What the driver asks of the kernel. Objects of the kernel are numbered. -/
inductive ScmCall : Type → Type where
  /-- `copy_from_user`; `none` when it fails. -/
  | copyFromUser : ScmCall (Option ScmHandShake)
  /-- `copy_to_user`; whether it succeeds. -/
  | copyToUser (d : ScmHandShake) : ScmCall Bool
  /-- `dma_buf_get` -/
  | dmaBufGet (fd : U32) : ScmCall (KPtr Nat)
  /-- `dma_buf_put` -/
  | dmaBufPut (dmaBuf : Nat) : ScmCall Unit
  /-- `dma_buf_attach`; `none` is an error pointer. -/
  | dmaBufAttach (dmaBuf : Nat) : ScmCall (Option Nat)
  /-- `dma_buf_map_attachment`; `none` is an error pointer. -/
  | dmaBufMapAttachment (attach : Nat) : ScmCall (Option SgTable)
  /-- `dma_buf_unmap_attachment` -/
  | dmaBufUnmapAttachment (attach : Nat) : ScmCall Unit
  /-- `dma_buf_detach` -/
  | dmaBufDetach (dmaBuf attach : Nat) : ScmCall Unit
  /-- `memremap` -/
  | memremap (addr : U64) (size : U32) : ScmCall (Option U64)
  /-- `memunmap` -/
  | memunmap (addr : U64) : ScmCall Unit
  /-- `qcom_scm_call`: its return value, and the results if it stores them. -/
  | qcomScmCall (desc : Desc) : ScmCall (U32 × Option (Vector U64 3))
  /-- A wrapper: its return value, and its out-parameter if it stores one. -/
  | wrapper (w : Wrapper) (args : List U64) : ScmCall (U32 × Option U64)
  /-- An error pointer is used as a pointer. -/
  | oops : ScmCall Empty
  /-- An array is written past its end. -/
  | overrun : ScmCall Empty

/-- Programs of the driver. -/
abbrev ScmProg (α : Type) := Program ScmCall α

/-! ## The tables -/

/-- `sip_tbl`: the commands allowed for a service. -/
def sipTbl (svc : U32) : List U32 :=
  if svc = QCOM_SCM_SVC_BOOT then [QCOM_SCM_BOOT_SET_REMOTE_STATE]
  else if svc = QCOM_SCM_SVC_PIL then
    [QCOM_SCM_PIL_PAS_INIT_IMAGE, QCOM_SCM_PIL_PAS_MEM_SETUP, QCOM_SCM_PIL_PAS_AUTH_AND_RESET,
      QCOM_SCM_PIL_PAS_SHUTDOWN]
  else if svc = QCOM_SCM_SVC_INFO then
    [QCOM_SCM_INFO_IS_CALL_AVAIL, QCOM_SCM_INFO_GET_FEAT_VERSION_CMD, QCOM_SCM_INFO_BW_PROF_ID]
  else if svc = QCOM_SCM_SVC_MP then
    [QCOM_SCM_MP_VIDEO_VAR, QCOM_SCM_MP_SHM_BRIDGE_ENABLE, QCOM_SCM_MP_SHM_BRIDGE_DELETE,
      QCOM_SCM_MP_SHM_BRIDGE_CREATE]
  else if svc = QCOM_SCM_SVC_SHE then [QCOM_SCM_SHE_ID]
  else if svc = QCOM_SCM_SVC_SAFETY then [QCOM_SCM_SAFETY_ENABLE_FFI_ID]
  else if svc = QCOM_SCM_SVC_LMH then [QCOM_SCM_LMH_LIMIT_PROFILE_CHANGE]
  else []

/-- `validate_svc_cmd` -/
def validateSvcCmd (svcId cmdId : U32) : Bool := cmdId ∈ sipTbl svcId

/-- `struct svc_cmd_dma_list` -/
structure SvcCmdDmaList where
  svcId : U32
  cmdId : U32
  dmaFds : List U32

/-- `dma_fd_tbl` -/
def dmaFdTbl : List SvcCmdDmaList := [⟨QCOM_SCM_SVC_SHE, QCOM_SCM_SHE_ID, [2]⟩]

/-- `memcpy` of a list to the start of an array. -/
def copyOver (array : Vector U32 10) (values : List U32) : Vector U32 10 :=
  Vector.ofFn fun i => values.getD i (array.get i)

/-- `get_dmafd_args`: the number of descriptors or an error, and the array it writes. -/
def getDmafdArgs (svcId cmdId : U32) (dmaFds : Vector U32 10) : Int × Vector U32 10 :=
  match dmaFdTbl.find? fun entry => entry.svcId = svcId ∧ entry.cmdId = cmdId with
  | some entry => (entry.dmaFds.length, copyOver dmaFds entry.dmaFds)
  | none => (-EINVAL, dmaFds)

/-! ## From file descriptors to physical addresses -/

/-- `get_pa_from_dmabuf_fd`: the address, or an error number. -/
def getPaFromDmabufFd (dmaBuf : Nat) : ScmProg (Except Int U64) := do
  -- On a failed attach or mapping the exit path hands the error pointer to the release function.
  let some bufAttach ← perform (.dmaBufAttach dmaBuf) | perform .oops >>= Empty.elim
  let some sgt ← perform (.dmaBufMapAttachment bufAttach) | perform .oops >>= Empty.elim
  let ret : Except Int U64 :=
    if sgt.nents ≠ 1 then .error (-EINVAL)
    else if sgt.dmaAddress = 0 then .error (-EINVAL)
    else .ok sgt.dmaAddress
  perform (.dmaBufUnmapAttachment bufAttach)
  perform (.dmaBufDetach dmaBuf bufAttach)
  return ret

/-- The loop of `translate_fd_to_pa` over the indices of the descriptors; it returns the last
buffer, which the function puts. -/
def translateLoop : List U32 → Option Nat → Vector U64 10 →
    ScmProg (Except Int (Option Nat × Vector U64 10))
  | [], last, scmArgs => return .ok (last, scmArgs)
  | i :: rest, _, scmArgs => do
      let .ptr dmaBuf ← perform (.dmaBufGet ((scmArgs.toList.getD i.toNat 0).setWidth 32))
        | return .error (-EFAULT)
      let .ok pa ← getPaFromDmabufFd dmaBuf | return .error (-EINVAL)
      translateLoop rest (some dmaBuf) (scmArgs.setIfInBounds i.toNat pa)

/-- `translate_fd_to_pa`: the translated arguments, or an error number. -/
def translateFdToPa (dmabufFd : Vector U32 10) (noDmaFds : Nat) (scmArgs : Vector U64 10) :
    ScmProg (Except Int (Vector U64 10)) := do
  match ← translateLoop (dmabufFd.toList.take noDmaFds) none scmArgs with
  | .error ret => return .error ret
  | .ok (last, scmArgs) =>
      if let some dmaBuf := last then
        perform (.dmaBufPut dmaBuf)
      return .ok scmArgs

/-! ## The ioctl -/

/-- The part of `scm_ioctl` from the validation of the request to the point where the two builds
differ: the request with its file descriptors translated and the value of `ret`, or the value
returned. -/
def checkRequest (stack : Stack) (scmData : ScmHandShake) :
    ScmProg (Except Int (ScmHandShake × Int)) := do
  if ¬ validateSvcCmd scmData.svc scmData.cmd then
    return .error (-EINVAL)
  let ret : Int := if scmData.noOfArgs > MAX_QCOM_SCM_ARGS then -EINVAL else 0
  let (noDmaFds, dmaFdArgs) := getDmafdArgs scmData.svc scmData.cmd stack.dmaFdArgs
  if noDmaFds > 0 then
    match ← translateFdToPa dmaFdArgs noDmaFds.toNat scmData.argsBuffer with
    | .error ret => return .error ret
    | .ok argsBuffer => return .ok ({ scmData with argsBuffer }, 0)
  return .ok (scmData, ret)

/-- The start of `scm_ioctl`: copy the request in and check it. -/
def fetchRequest (stack : Stack) (cmd : U32) : ScmProg (Except Int (ScmHandShake × Int)) := do
  if cmd ≠ SCM_HAND_SHAKE_IOCTL then
    return .error (-EFAULT)
  let some scmData ← perform .copyFromUser | return .error (-EFAULT)
  checkRequest stack scmData

/-- A call of a wrapper, whose parameters may be narrower than the arguments. -/
def callWrapper (widths : Widths) (w : Wrapper) (args : List U64) : ScmProg (U32 × Option U64) :=
  perform (.wrapper w (args.mapIdx fun i arg => narrow (widths w i) arg))

/-- A call of a wrapper of which only the return value is used. -/
def retOf (widths : Widths) (w : Wrapper) (args : List U64) (d : ScmHandShake) :
    ScmProg ScmHandShake := do
  let (ret, _) ← callWrapper widths w args
  return { d with ret }

/-- The call of `qcom_scm_pas_init_image` on the metadata at an address. -/
def passMetadata (widths : Widths) (d : ScmHandShake) (peripheral addr : U64) (metaLen : U32) :
    ScmProg (Except Int ScmHandShake) := do
  let some data ← perform (.memremap addr metaLen) | return .error (-ENOMEM)
  let d ← retOf widths .pasInitImage [peripheral, data, metaLen.setWidth 64] d
  perform (.memunmap data)
  return .ok d

/-- The case `QCOM_SCM_PIL_PAS_INIT_IMAGE` of the dispatch. -/
def initImage (widths : Widths) (d : ScmHandShake) : ScmProg (Except Int ScmHandShake) :=
  passMetadata widths d d.argsBuffer[0] d.argsBuffer[1] (d.argsBuffer[2].setWidth 32)

/-- The results with `res1` as the first one: it starts as 0 and is what the wrapper stores in
it. -/
def storeRes1 (res : Vector U64 3) (res1 : Option U64) : Vector U64 3 := res.set 0 (res1.getD 0)

/-- The `switch` of `scm_ioctl` on kernels other than 5.14.0: the request with its `ret` and the
results, or the value returned. -/
def dispatch (widths : Widths) (d : ScmHandShake) (res : Vector U64 3) :
    ScmProg (Except Int (ScmHandShake × Vector U64 3)) := do
  let a := d.argsBuffer
  if d.svc = QCOM_SCM_SVC_BOOT then
    if d.cmd = QCOM_SCM_BOOT_SET_REMOTE_STATE then
      return .ok (← retOf widths .setRemoteState [a[0], a[1]] d, res)
  else if d.svc = QCOM_SCM_SVC_PIL then
    if d.cmd = QCOM_SCM_PIL_PAS_INIT_IMAGE then
      return (← initImage widths d).map fun d => (d, res)
    else if d.cmd = QCOM_SCM_PIL_PAS_MEM_SETUP then
      return .ok (← retOf widths .pasMemSetup [a[0], a[1], a[2]] d, res)
    else if d.cmd = QCOM_SCM_PIL_PAS_AUTH_AND_RESET then
      return .ok (← retOf widths .pasAuthAndReset [a[0]] d, res)
    else if d.cmd = QCOM_SCM_PIL_PAS_SHUTDOWN then
      return .ok (← retOf widths .pasShutdown [a[0]] d, res)
  else if d.svc = QCOM_SCM_SVC_INFO then
    if d.cmd = QCOM_SCM_INFO_GET_FEAT_VERSION_CMD then
      return .ok (← retOf widths .getTzFeatIdVersion [a[0]] d, res)
    else if d.cmd = QCOM_SCM_INFO_BW_PROF_ID then
      return .ok (← retOf widths .ddrbwProfiler [a[0], a[1], a[2], a[3]] d, res)
  else if d.svc = QCOM_SCM_SVC_MP then
    if d.cmd = QCOM_SCM_MP_VIDEO_VAR then
      return .ok (← retOf widths .memProtectVideoVar [a[0], a[1], a[2], a[3]] d, res)
  else if d.svc = QCOM_SCM_SVC_SHE then
    if d.cmd = QCOM_SCM_SHE_ID then
      let (ret, res1) ← callWrapper widths .sheOp [a[0], a[1], a[2], a[3]]
      return .ok ({ d with ret }, storeRes1 res res1)
  else if d.svc = QCOM_SCM_SVC_LMH then
    if d.cmd = QCOM_SCM_LMH_LIMIT_PROFILE_CHANGE then
      return .ok (← retOf widths .lmhProfileChange [a[0]] d, res)
  return .ok (d, res)

/-- The first arguments of a request. -/
theorem take_argsBuffer (a : Vector U64 10) :
    a.toList.take 1 = [a[0]] ∧ a.toList.take 2 = [a[0], a[1]] ∧
      a.toList.take 3 = [a[0], a[1], a[2]] ∧ a.toList.take 4 = [a[0], a[1], a[2], a[3]] := by
  have hlength : a.toList.length = 10 := a.length_toList
  refine ⟨?_, ?_, ?_, ?_⟩ <;> refine List.ext_getElem (by simp) fun i _ hi => ?_ <;>
    simp only [List.length_cons, List.length_nil] at hi <;> interval_cases i <;> simp

/-- The arguments of the descriptor that the loop of `scm_ioctl` fills. -/
def descArgs (stack : Stack) (d : ScmHandShake) : Vector U64 10 :=
  Vector.ofFn fun i : Fin 10 => if i < d.noOfArgs then d.argsBuffer[i] else stack.descArgs[i]

/-- The generic call of `scm_ioctl` on kernel 5.14.0. -/
def genericCall (stack : Stack) (d : ScmHandShake) : ScmProg (ScmHandShake × Vector U64 3) := do
  if d.noOfArgs > MAX_QCOM_SCM_ARGS then
    perform .overrun >>= Empty.elim
  let args := descArgs stack d
  let desc : Desc :=
    -- The special case for `PIL_INIT_IMAGE` looks at the command alone.
    if d.cmd = QCOM_SCM_PIL_PAS_INIT_IMAGE then ⟨d.svc, d.cmd, 0x82, args.set 2 0⟩
    else ⟨d.svc, d.cmd, d.arginfo, args⟩
  let (ret, results) ← perform (.qcomScmCall desc)
  return ({ d with ret }, results.getD stack.res)

/-- The end of `scm_ioctl`: hand the results to user space. -/
def copyResults (d : ScmHandShake) (res : Vector U64 3) (ret : Int) : ScmProg Int := do
  if d.ret ≠ 0 then
    return d.ret.toNat
  if ← perform (.copyToUser { d with qcomScmRes := res }) then
    return ret
  return -EFAULT

/-- `scm_ioctl` after the translation of the file descriptors. -/
def serveRequest (build : Build) (widths : Widths) (stack : Stack) (d : ScmHandShake)
    (ret : Int) : ScmProg Int := do
  match build with
  | .other =>
      match ← dispatch widths d stack.res with
      | .error ret => return ret
      | .ok (d, res) => copyResults d res ret
  | .v5_14_0 =>
      let (d, res) ← genericCall stack d
      copyResults d res ret

/-- `scm_ioctl` -/
def scmIoctl (build : Build) (widths : Widths) (stack : Stack) (cmd : U32) : ScmProg Int := do
  match ← fetchRequest stack cmd with
  | .error ret => return ret
  | .ok (d, ret) => serveRequest build widths stack d ret

end SafeLinux.ScmIntf
