import SafeLinux.Effects.Threads
import SafeLinux.Linux.Types

/-!
# The bandwidth profiler

`profiler.c`: open, the ioctls and release of the profiler device, with the commands they send to
the secure world. `ProfilerCall` lists what the driver asks of the kernel and its accesses to the
global flag `bw_profiling_disabled`; messages are left out. The registers that GET reads between its
two commands are one call, and so are the settings that the two other ioctls store.

`profilerSystem` is the system of its clients. A client is an open file; it may have several threads
in ioctls, and its release runs when none of them is left. The state notes which client holds the
mutex, which the driver does not.
-/

namespace SafeLinux.Profiler

open Effects
open Effects.Program (perform)

def TZ_BW_SVC_START_ID : U32 := 1
def TZ_BW_SVC_GET_ID : U32 := 2
def TZ_BW_SVC_STOP_ID : U32 := 3
def TZ_BW_SVC_VERSION : U32 := 1
def E_BW_SUCCESS : U32 := 0

/-- `sizeof(struct profiler_bw_cntrs_req)` -/
def BW_CNTRS_REQ_SIZE : Nat := 408

/-- `sizeof(struct profiler_bw_cntrs_req_m)` -/
def BW_CNTRS_REQ_M_SIZE : Nat := 28

/-- `PAGE_ALIGN` of a size. -/
def pageAlign (size : Nat) : Nat := (size + 4095) / 4096 * 4096

/-! ## Commands -/

/-- What follows the command id in `union tz_bw_svc_req`. -/
inductive TzBwSvcBody where
  | zero
  | start (version bwEnableFlags : U32)
  | get (bufPtr : U64) (bufSize type : U32)
  deriving DecidableEq

/-- `struct tz_bw_svc_resp` -/
structure TzBwSvcResp where
  cmdId : U32
  status : U32
  deriving DecidableEq

/-- `struct tz_bw_svc_buf` -/
structure TzBwSvcBuf where
  cmdId : U32
  body : TzBwSvcBody
  bwresp : TzBwSvcResp
  reqSize : Nat
  deriving DecidableEq

/-- A `struct tz_bw_svc_buf` just allocated. -/
def TzBwSvcBuf.zeroed : TzBwSvcBuf := ⟨0, .zero, ⟨0, 0⟩, 0⟩

/-- `struct qtee_shm` of a buffer: its physical address. -/
structure QteeShm where
  paddr : U64
  deriving DecidableEq

/-- What the driver reads of the request of a client: `cmd` and `bwEnableFlags`, which the older
structure does not have. -/
structure BwCntrsReq where
  cmd : U32
  bwEnableFlags : U32
  deriving DecidableEq

/-! ## Calls -/

/-- What the driver asks of the kernel. -/
inductive ProfilerCall : Type → Type where
  /-- `mutex_trylock`; whether the lock is taken. -/
  | mutexTrylock : ProfilerCall Bool
  | mutexUnlock : ProfilerCall Unit
  | clkPrepareEnable : ProfilerCall Int
  | clkDisableUnprepare : ProfilerCall Unit
  /-- `kzalloc`; whether it succeeds. -/
  | kzalloc : ProfilerCall Bool
  | kfree : ProfilerCall Unit
  | readBwProfilingDisabled : ProfilerCall Bool
  | writeBwProfilingDisabled (value : Bool) : ProfilerCall Unit
  /-- `copy_from_user` of a request of a size: the request, or the bytes not copied. -/
  | copyFromUser (size : Nat) : ProfilerCall (Except Int BwCntrsReq)
  /-- What a request on the stack holds that was never written. -/
  | uninitialised : ProfilerCall BwCntrsReq
  /-- `copy_to_user` of a size; whether it copies all of it. -/
  | copyToUser (size : Nat) : ProfilerCall Bool
  /-- `qtee_shmbridge_allocate_shm`: the buffer, or an error. -/
  | qteeShmbridgeAllocateShm (size : Nat) : ProfilerCall (Except Int QteeShm)
  /-- `qtee_shmbridge_free_shm`, of a buffer or of an all-zero descriptor. -/
  | qteeShmbridgeFreeShm (shm : Option QteeShm) : ProfilerCall Unit
  | qteeShmbridgeFlushShmBuf (shm : QteeShm) : ProfilerCall Unit
  | qteeShmbridgeInvShmBuf (shm : QteeShm) : ProfilerCall Unit
  /-- `qcom_scm_ddrbw_profiler`, of a request copied to a buffer: its return value. -/
  | qcomScmDdrbwProfiler (shm : QteeShm) (request : TzBwSvcBuf) : ProfilerCall Int
  /-- The response the secure world has left in a buffer. -/
  | readResponse (shm : QteeShm) : ProfilerCall TzBwSvcResp
  /-- The counters are mapped and read. -/
  | readCounters : ProfilerCall Unit
  /-- `profiler_set_bw_offsets` and `profiler_device_init` -/
  | storeSettings : ProfilerCall Unit

/-- Programs of the driver. -/
abbrev ProfilerProg (α : Type) := Program ProfilerCall α

/-! ## Commands to the secure world -/

/-- `bw_profiling_command`: its return value, and the buffer with the response. -/
def bwProfilingCommand (req : TzBwSvcBuf) : ProfilerProg (Int × TzBwSvcBuf) := do
  let qseosCmdId := req.cmdId
  let (ret, rsp) ← (do
    let bwShm ← perform (.qteeShmbridgeAllocateShm (pageAlign (req.reqSize + 8)))
    match bwShm with
    | .error _ =>
        perform (.qteeShmbridgeFreeShm none)
        return (-ENOMEM, req.bwresp)
    | .ok bwShm =>
        perform (.qteeShmbridgeFlushShmBuf bwShm)
        let ret ← (do
          if qseosCmdId = TZ_BW_SVC_START_ID ∨ qseosCmdId = TZ_BW_SVC_GET_ID ∨
              qseosCmdId = TZ_BW_SVC_STOP_ID then
            perform (.qcomScmDdrbwProfiler bwShm req)
          else
            return -EINVAL)
        perform (.qteeShmbridgeInvShmBuf bwShm)
        let rsp ← perform (.readResponse bwShm)
        perform (.qteeShmbridgeFreeShm (some bwShm))
        return (ret, rsp))
  if rsp.status ≠ E_BW_SUCCESS ∨ qseosCmdId ≠ rsp.cmdId then
    return (-1, { req with bwresp := rsp })
  return (ret, { req with bwresp := rsp })

/-- `bw_profiling_start` -/
def bwProfilingStart (bwEnableFlags : U32) (bwbuf : TzBwSvcBuf) : ProfilerProg Int := do
  let (ret, _) ← bwProfilingCommand { bwbuf with
    cmdId := TZ_BW_SVC_START_ID, body := .start TZ_BW_SVC_VERSION bwEnableFlags, reqSize := 12 }
  return ret

/-- `bw_profiling_stop` -/
def bwProfilingStop (bwbuf : TzBwSvcBuf) : ProfilerProg Int := do
  let (ret, _) ← bwProfilingCommand { bwbuf with cmdId := TZ_BW_SVC_STOP_ID, reqSize := 4 }
  return ret

/-- A GET command that reports to a shared buffer of a size, with a type. -/
def bwGetCommand (bwbuf : TzBwSvcBuf) (bufShm : QteeShm) (bufsize : Nat) (type : U32) :
    ProfilerProg (Int × TzBwSvcBuf) := do
  perform (.qteeShmbridgeFlushShmBuf bufShm)
  bwProfilingCommand { bwbuf with
    cmdId := TZ_BW_SVC_GET_ID, body := .get bufShm.paddr (BitVec.ofNat 32 bufsize) type,
    reqSize := 20 }

/-- The branch of `bw_profiling_get` for `struct profiler_bw_cntrs_req_m`. -/
def bwProfilingGetM (bwbuf : TzBwSvcBuf) : ProfilerProg Int := do
  let bufsize := BW_CNTRS_REQ_M_SIZE - 4
  match ← perform (.qteeShmbridgeAllocateShm (pageAlign bufsize)) with
  | .error _ =>
      perform (.qteeShmbridgeFreeShm none)
      return -ENOMEM
  | .ok bufShm =>
      let (ret, _) ← bwGetCommand bwbuf bufShm bufsize 0
      if ret ≠ 0 then
        perform (.qteeShmbridgeFreeShm (some bufShm))
        return ret
      perform (.qteeShmbridgeInvShmBuf bufShm)
      let _ ← perform (.copyToUser BW_CNTRS_REQ_M_SIZE)
      perform (.qteeShmbridgeFreeShm (some bufShm))
      return ret

/-- The branch of `bw_profiling_get` for `struct profiler_bw_cntrs_req`. -/
def bwProfilingGetCounters (bwbuf : TzBwSvcBuf) : ProfilerProg Int := do
  let bufsize := BW_CNTRS_REQ_SIZE - 4
  match ← perform (.qteeShmbridgeAllocateShm (pageAlign bufsize)) with
  | .error _ =>
      perform (.qteeShmbridgeFreeShm none)
      return -ENOMEM
  | .ok bufShm =>
      let (ret, bwbuf) ← bwGetCommand bwbuf bufShm bufsize 0
      if ret ≠ 0 then
        perform (.qteeShmbridgeFreeShm (some bufShm))
        return ret
      perform (.qteeShmbridgeInvShmBuf bufShm)
      perform (.qteeShmbridgeFreeShm (some bufShm))
      perform .readCounters
      match ← perform (.qteeShmbridgeAllocateShm (pageAlign bufsize)) with
      | .error _ =>
          -- The descriptor still names the buffer that was freed.
          perform (.qteeShmbridgeFreeShm (some bufShm))
          return -ENOMEM
      | .ok bufShm =>
          let (ret, _) ← bwGetCommand bwbuf bufShm bufsize 1
          if ret ≠ 0 then
            perform (.qteeShmbridgeFreeShm (some bufShm))
            return ret
          perform (.qteeShmbridgeInvShmBuf bufShm)
          let _ ← perform (.copyToUser BW_CNTRS_REQ_SIZE)
          perform (.qteeShmbridgeFreeShm (some bufShm))
          return ret

/-- `bw_profiling_get` -/
def bwProfilingGet (bwbuf : TzBwSvcBuf) : ProfilerProg Int := do
  if ← perform .readBwProfilingDisabled then
    bwProfilingGetM bwbuf
  else
    bwProfilingGetCounters bwbuf

/-! ## File operations -/

/-- The dispatch of `profiler_get_bw_info` on the command of a request. -/
def bwDispatch (req : BwCntrsReq) (bwEnableFlags : U32) : ProfilerProg Int :=
  if req.cmd = TZ_BW_SVC_START_ID then bwProfilingStart bwEnableFlags .zeroed
  else if req.cmd = TZ_BW_SVC_GET_ID then bwProfilingGet .zeroed
  else if req.cmd = TZ_BW_SVC_STOP_ID then bwProfilingStop .zeroed
  else return -EINVAL

/-- `profiler_get_bw_info` -/
def profilerGetBwInfo : ProfilerProg Int := do
  let copiedM ← perform .readBwProfilingDisabled
  let size := if copiedM then BW_CNTRS_REQ_M_SIZE else BW_CNTRS_REQ_SIZE
  match ← perform (.copyFromUser size) with
  | .error ret => return ret
  | .ok copied =>
      if ¬ (← perform .kzalloc) then
        return -ENOMEM
      let readM ← perform .readBwProfilingDisabled
      -- The structure that is read is the one that was copied only if the flag is still the same.
      let req ← if readM = copiedM then pure copied else perform .uninitialised
      let ret ← bwDispatch req (if readM then 0 else req.bwEnableFlags)
      perform .kfree
      return ret

/-- The ioctls of the device. -/
inductive ProfilerIoctl where
  | getBwInfo
  | setOffsets
  | deviceInit
  | getBwInfoBc
  | other
  deriving DecidableEq

/-- `profiler_ioctl` -/
def profilerIoctl : ProfilerIoctl → ProfilerProg Int
  | .getBwInfo => do
      perform (.writeBwProfilingDisabled false)
      profilerGetBwInfo
  | .setOffsets | .deviceInit => do
      perform .storeSettings
      return 0
  | .getBwInfoBc => do
      perform (.writeBwProfilingDisabled true)
      profilerGetBwInfo
  | .other => return -EINVAL

/-- `profiler_open` -/
def profilerOpen : ProfilerProg Int := do
  if ← perform .mutexTrylock then
    let _ ← perform .clkPrepareEnable
    return 0
  else
    return -EBUSY

/-- `profiler_release` -/
def profilerRelease : ProfilerProg Int := do
  perform .clkDisableUnprepare
  perform .mutexUnlock
  if ¬ (← perform .kzalloc) then
    return -ENOMEM
  let _ ← bwProfilingStop .zeroed
  return 0

/-! ## The system -/

variable {τ γ : Type}

/-- The state of the driver and of its clients. -/
structure State (γ : Type) where
  /-- The client whose open has the mutex. -/
  holder : Option γ
  /-- How often the clock is enabled. -/
  clock : Nat
  bwProfilingDisabled : Bool
  /-- The clients between a successful open and the start of their release. -/
  session : γ → Bool

/-- A profiler that no client has opened. -/
def State.fresh : State γ := ⟨none, 0, false, fun _ => false⟩

/-- What the calls of a thread of a client do. -/
def profiler (client : γ) : Semantics ProfilerCall (State γ) where
  step := fun request s answer =>
    match request with
    | .mutexTrylock =>
        match s.holder, answer with
        | none, true => some { s with holder := some client }
        | some _, false => some s
        | _, _ => none
    | .mutexUnlock => some { s with holder := none }
    | .clkPrepareEnable => if answer = 0 then some { s with clock := s.clock + 1 } else some s
    | .clkDisableUnprepare => some { s with clock := s.clock - 1 }
    | .readBwProfilingDisabled => if answer = s.bwProfilingDisabled then some s else none
    | .writeBwProfilingDisabled value => some { s with bwProfilingDisabled := value }
    | .kzalloc | .kfree | .copyFromUser _ | .uninitialised | .copyToUser _
    | .qteeShmbridgeAllocateShm _ | .qteeShmbridgeFreeShm _ | .qteeShmbridgeFlushShmBuf _
    | .qteeShmbridgeInvShmBuf _ | .qcomScmDdrbwProfiler _ _ | .readResponse _ | .readCounters
    | .storeSettings => some s

/-- What the threads of the clients do. -/
inductive Job where
  | open
  | ioctl (cmd : ProfilerIoctl)
  | release
  deriving DecidableEq

/-- The program of a job. -/
def Job.program : Job → ProfilerProg Int
  | .open => profilerOpen
  | .ioctl cmd => profilerIoctl cmd
  | .release => profilerRelease

/-- The pools of the profiler. -/
abbrev ProfilerPool (τ γ : Type) := Pool τ Job ProfilerCall (State γ) Int

/-- The steps of the profiler's pools. -/
abbrev ProfilerMove (τ : Type) := Move τ Job ProfilerCall

/-- No thread of a client runs. -/
def Alone (client : τ → γ) (P : ProfilerPool τ γ) (c : γ) : Prop :=
  ∀ u, client u = c → P.running u = none

/-- Which jobs can start: a client that is not open is opened, one that is open makes ioctls, and
it is released when no thread of it is left. -/
def starts [DecidableEq γ] (client : τ → γ) (P : ProfilerPool τ γ) (t : τ) (i : Job)
    (s : State γ) : Prop :=
  match i with
  | .open => P.shared.session (client t) = false ∧ Alone client P (client t) ∧ s = P.shared
  | .ioctl _ => P.shared.session (client t) = true ∧ s = P.shared
  | .release => P.shared.session (client t) = true ∧ Alone client P (client t) ∧
      s = { P.shared with session := Function.update P.shared.session (client t) false }

/-- An open that succeeds starts a session. -/
def finishes [DecidableEq γ] (client : τ → γ) (t : τ) (i : Job) (ret : Int) (s : State γ) :
    State γ :=
  if i = .open ∧ ret = 0 then
    { s with session := Function.update s.session (client t) true }
  else s

/-- The profiler with the threads of its clients. -/
def profilerSystem [DecidableEq γ] (client : τ → γ) :
    System τ Job ProfilerCall (State γ) Int where
  semantics := fun t => profiler (client t)
  program := Job.program
  start := starts client
  finish := finishes client

end SafeLinux.Profiler
