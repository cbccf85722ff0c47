import SafeLinux.Effects.Free
import SafeLinux.Profiler.Driver

/-!
# The verdict on a command

`bw_profiling_command` judges a command by the response in its buffer, at an exit that its error
paths share. The response may still be that of an earlier command on the same buffer. `CommandCalls`
lists what a command can do; in every sequence of commands on one buffer each returns 0 exactly if
it was itself answered with success (`Commands.judged`).
-/

namespace SafeLinux.Profiler

open Effects

variable {req buf buf' : TzBwSvcBuf} {trace : List (Event ProfilerCall)} {ret : Int}

/-! ## One command -/

/-- The command ids that the driver knows. -/
def Supported (cmdId : U32) : Prop :=
  cmdId = TZ_BW_SVC_START_ID ∨ cmdId = TZ_BW_SVC_GET_ID ∨ cmdId = TZ_BW_SVC_STOP_ID

instance (cmdId : U32) : Decidable (Supported cmdId) := inferInstanceAs (Decidable (_ ∨ _))

/-- A response says that the command of an id succeeded. -/
def TzBwSvcResp.Accepts (rsp : TzBwSvcResp) (cmdId : U32) : Prop :=
  rsp.status = E_BW_SUCCESS ∧ rsp.cmdId = cmdId

instance (rsp : TzBwSvcResp) (cmdId : U32) : Decidable (rsp.Accepts cmdId) :=
  inferInstanceAs (Decidable (_ ∧ _))

/-- What a command returns for the value of `ret` and the response at its exit. -/
def verdict (cmdId : U32) (rsp : TzBwSvcResp) (ret : Int) : Int :=
  if rsp.Accepts cmdId then ret else -1

theorem verdict_eq_zero_iff {cmdId : U32} {rsp : TzBwSvcResp} :
    verdict cmdId rsp ret = 0 ↔ rsp.Accepts cmdId ∧ ret = 0 := by
  unfold verdict
  split
  · rw [and_iff_right ‹_›]
  · exact iff_of_false (by decide) fun h => absurd h.1 ‹_›

/-- What a command can do: the calls it makes, the value it returns and the response it leaves in
its buffer. -/
inductive CommandCalls (req : TzBwSvcBuf) :
    List (Event ProfilerCall) → Int → TzBwSvcResp → Prop where
  | unallocated {err : Int} : CommandCalls req
      [⟨.qteeShmbridgeAllocateShm (pageAlign (req.reqSize + 8)), .error err⟩,
        ⟨.qteeShmbridgeFreeShm none, ()⟩]
      (verdict req.cmdId req.bwresp (-ENOMEM)) req.bwresp
  | unsupported {shm : QteeShm} {rsp : TzBwSvcResp} : ¬ Supported req.cmdId → CommandCalls req
      [⟨.qteeShmbridgeAllocateShm (pageAlign (req.reqSize + 8)), .ok shm⟩,
        ⟨.qteeShmbridgeFlushShmBuf shm, ()⟩, ⟨.qteeShmbridgeInvShmBuf shm, ()⟩,
        ⟨.readResponse shm, rsp⟩, ⟨.qteeShmbridgeFreeShm (some shm), ()⟩]
      (verdict req.cmdId rsp (-EINVAL)) rsp
  | sent {shm : QteeShm} {ret : Int} {rsp : TzBwSvcResp} : Supported req.cmdId → CommandCalls req
      [⟨.qteeShmbridgeAllocateShm (pageAlign (req.reqSize + 8)), .ok shm⟩,
        ⟨.qteeShmbridgeFlushShmBuf shm, ()⟩, ⟨.qcomScmDdrbwProfiler shm req, ret⟩,
        ⟨.qteeShmbridgeInvShmBuf shm, ()⟩, ⟨.readResponse shm, rsp⟩,
        ⟨.qteeShmbridgeFreeShm (some shm), ()⟩]
      (verdict req.cmdId rsp ret) rsp

/-- The exit of a command. -/
theorem verdict_eq {cmdId : U32} {rsp : TzBwSvcResp} :
    (if rsp.status ≠ E_BW_SUCCESS ∨ cmdId ≠ rsp.cmdId then
      (pure (-1, { req with bwresp := rsp }) : ProfilerProg (Int × TzBwSvcBuf))
    else pure (ret, { req with bwresp := rsp })) =
      pure (verdict cmdId rsp ret, { req with bwresp := rsp }) := by
  have hexit : (rsp.status ≠ E_BW_SUCCESS ∨ cmdId ≠ rsp.cmdId) ↔ ¬ rsp.Accepts cmdId := by
    rw [TzBwSvcResp.Accepts, not_and_or, ne_comm (a := cmdId)]
  unfold verdict
  by_cases h : rsp.Accepts cmdId
  · rw [if_pos h, if_neg (by rwa [hexit, not_not])]
  · rw [if_neg h, if_pos (hexit.mpr h)]

instance : Nonempty QteeShm := ⟨⟨0⟩⟩

instance : Nonempty TzBwSvcResp := ⟨⟨0, 0⟩⟩

/-- A command that returns did what a command can do. -/
theorem bwProfilingCommand_runs (h : Runs (bwProfilingCommand req) trace (some (ret, buf'))) :
    ∃ rsp, CommandCalls req trace ret rsp ∧ buf' = { req with bwresp := rsp } := by
  unfold bwProfilingCommand at h
  simp only [verdict_eq] at h
  obtain ⟨⟨ret, rsp⟩, calls, last, rfl, hcalls, hexit⟩ := Runs.bind_some_inv h
  cases hexit
  rw [List.append_nil]
  refine ⟨rsp, ?_, rfl⟩
  obtain ⟨shm, calls, rfl, hallocated⟩ := Runs.call_inv hcalls
  clear h hcalls
  cases shm with
  | error err =>
      obtain ⟨_, calls, rfl, hfreed⟩ := Runs.call_inv hallocated
      cases hfreed
      exact .unallocated
  | ok shm =>
      obtain ⟨_, calls, rfl, hflushed⟩ := Runs.call_inv hallocated
      obtain ⟨ret, sent, calls, rfl, hsent, hrest⟩ := Runs.bind_some_inv hflushed
      obtain ⟨_, calls, rfl, hread⟩ := Runs.call_inv hrest
      obtain ⟨rsp, calls, rfl, hfree⟩ := Runs.call_inv hread
      obtain ⟨_, calls, rfl, hreturn⟩ := Runs.call_inv hfree
      cases hreturn
      by_cases hid : Supported req.cmdId
      · rw [if_pos (show _ ∨ _ from hid)] at hsent
        cases hsent with
        | call _ hret =>
            cases hret
            exact .sent hid
      · rw [if_neg (show ¬ (_ ∨ _) from hid)] at hsent
        cases hsent
        exact .unsupported hid

/-! ## Sequences of commands -/

/-- What the driver writes to a buffer before a command: the request and its size. -/
structure Command where
  cmdId : U32
  body : TzBwSvcBody
  reqSize : Nat

/-- The buffer with the request of a command; the response is what it was. -/
def Command.write (cmd : Command) (buf : TzBwSvcBuf) : TzBwSvcBuf :=
  { buf with cmdId := cmd.cmdId, body := cmd.body, reqSize := cmd.reqSize }

/-- A command on a buffer. -/
def Command.send (cmd : Command) (buf : TzBwSvcBuf) : ProfilerProg (Int × TzBwSvcBuf) :=
  bwProfilingCommand (cmd.write buf)

/-- The command of `bw_profiling_start`. -/
def startCommand (bwEnableFlags : U32) : Command :=
  ⟨TZ_BW_SVC_START_ID, .start TZ_BW_SVC_VERSION bwEnableFlags, 12⟩

/-- A command of `bw_profiling_get`. -/
def getCommand (bufShm : QteeShm) (bufsize : Nat) (type : U32) : Command :=
  ⟨TZ_BW_SVC_GET_ID, .get bufShm.paddr (BitVec.ofNat 32 bufsize) type, 20⟩

theorem bwProfilingStart_eq {bwEnableFlags : U32} : bwProfilingStart bwEnableFlags buf = do
    let (ret, _) ← (startCommand bwEnableFlags).send buf
    return ret := rfl

theorem bwGetCommand_eq {bufShm : QteeShm} {bufsize : Nat} {type : U32} :
    bwGetCommand buf bufShm bufsize type =
      Program.perform (.qteeShmbridgeFlushShmBuf bufShm) >>= fun _ =>
        (getCommand bufShm bufsize type).send buf := rfl

theorem bwProfilingStop_eq : bwProfilingStop buf = do
    let (ret, _) ← (Command.mk TZ_BW_SVC_STOP_ID buf.body 4).send buf
    return ret := rfl

/-- One command of a sequence: the calls it made and the value it returned. -/
structure Issued where
  cmd : Command
  trace : List (Event ProfilerCall)
  ret : Int

/-- Commands sent one after the other on the same buffer, whatever the answers; the buffer keeps its
response from one to the next. -/
inductive Commands : TzBwSvcBuf → List Issued → TzBwSvcBuf → Prop where
  | nil (buf : TzBwSvcBuf) : Commands buf [] buf
  | cons {buf buf' buf'' : TzBwSvcBuf} {cmd : Command} {trace : List (Event ProfilerCall)}
      {ret : Int} {rest : List Issued} :
      Runs (cmd.send buf) trace (some (ret, buf')) → Commands buf' rest buf'' →
      Commands buf (⟨cmd, trace, ret⟩ :: rest) buf''

/-- What shows whether a command succeeded. -/
inductive CommandAct where
  /-- A buffer for the command. -/
  | allocated (shm : QteeShm)
  /-- The return value of the call to the secure world. -/
  | called (shm : QteeShm) (ret : Int)
  /-- The response read back. -/
  | responded (shm : QteeShm) (rsp : TzBwSvcResp)

/-- Which calls show this. -/
def CommandAct.view : Event ProfilerCall → Option CommandAct
  | ⟨.qteeShmbridgeAllocateShm _, .ok shm⟩ => some (.allocated shm)
  | ⟨.qcomScmDdrbwProfiler shm _, ret⟩ => some (.called shm ret)
  | ⟨.readResponse shm, rsp⟩ => some (.responded shm rsp)
  | _ => none

/-- What the calls show, in order. -/
def commandActs (trace : List (Event ProfilerCall)) : List CommandAct :=
  trace.filterMap CommandAct.view

/-- The command of an id was supported, and in these calls a buffer was allocated, the secure world
was called with it and returned 0, and the response read from it says that the command
succeeded. -/
def Answered (cmdId : U32) (trace : List (Event ProfilerCall)) : Prop :=
  Supported cmdId ∧ ∃ shm rsp, .allocated shm ∈ commandActs trace ∧
    .called shm 0 ∈ commandActs trace ∧ .responded shm rsp ∈ commandActs trace ∧
    rsp.Accepts cmdId

/-- A command returns 0 exactly if it was answered with success. -/
theorem CommandCalls.ret_eq_zero_iff {rsp : TzBwSvcResp} (h : CommandCalls req trace ret rsp) :
    ret = 0 ↔ Answered req.cmdId trace := by
  cases h with
  | unallocated =>
      rw [verdict_eq_zero_iff]
      refine iff_of_false (fun h => absurd h.2 (by decide)) ?_
      intro hanswered
      obtain ⟨_, shm, rsp, hshm, _⟩ := hanswered
      cases hshm
  | unsupported hid =>
      rw [verdict_eq_zero_iff]
      exact iff_of_false (fun h => absurd h.2 (by decide)) fun hanswered => hid hanswered.1
  | @sent shm ret rsp hid =>
      have hacts : commandActs [⟨.qteeShmbridgeAllocateShm (pageAlign (req.reqSize + 8)), .ok shm⟩,
          ⟨.qteeShmbridgeFlushShmBuf shm, ()⟩, ⟨.qcomScmDdrbwProfiler shm req, ret⟩,
          ⟨.qteeShmbridgeInvShmBuf shm, ()⟩, ⟨.readResponse shm, rsp⟩,
          ⟨.qteeShmbridgeFreeShm (some shm), ()⟩] =
        [.allocated shm, .called shm ret, .responded shm rsp] := rfl
      rw [verdict_eq_zero_iff, Answered, hacts]
      constructor
      · intro h
        obtain ⟨haccepts, rfl⟩ := h
        exact ⟨hid, shm, rsp, by simp, by simp, by simp, haccepts⟩
      · intro hanswered
        obtain ⟨_, shm', rsp', _, hret, hrsp, haccepts⟩ := hanswered
        have hret : ret = 0 := (by simpa using hret : shm' = shm ∧ 0 = ret).2.symm
        have hrsp : rsp' = rsp := (by simpa using hrsp : shm' = shm ∧ rsp' = rsp).2
        exact ⟨hrsp ▸ haccepts, hret⟩

/-- In every sequence of commands on one buffer, whatever it held before, each command returns 0
exactly if it was itself answered with success. -/
theorem Commands.judged {issued : List Issued} (h : Commands buf issued buf') :
    ∀ i ∈ issued, i.ret = 0 ↔ Answered i.cmd.cmdId i.trace := by
  induction h with
  | nil => exact nofun
  | @cons _ _ _ cmd _ _ _ hsend _ ih =>
      obtain ⟨rsp, hcalls, -⟩ := bwProfilingCommand_runs hsend
      exact List.forall_mem_cons.mpr ⟨hcalls.ret_eq_zero_iff, ih⟩

/-- A START that succeeds and one after it that gets no buffer: its own verdict is not that of the
response it finds. -/
theorem exists_commands_judged : ∃ issued buf, Commands .zeroed issued buf ∧
    issued.map Issued.ret = [0, -ENOMEM] ∧
    ∀ i ∈ issued, i.ret = 0 ↔ Answered i.cmd.cmdId i.trace := by
  have hfirst : Runs ((startCommand 0).send .zeroed)
      [⟨.qteeShmbridgeAllocateShm 4096, .ok ⟨0x1000⟩⟩, ⟨.qteeShmbridgeFlushShmBuf ⟨0x1000⟩, ()⟩,
        ⟨.qcomScmDdrbwProfiler ⟨0x1000⟩ ((startCommand 0).write .zeroed), 0⟩,
        ⟨.qteeShmbridgeInvShmBuf ⟨0x1000⟩, ()⟩, ⟨.readResponse ⟨0x1000⟩, ⟨TZ_BW_SVC_START_ID, 0⟩⟩,
        ⟨.qteeShmbridgeFreeShm (some ⟨0x1000⟩), ()⟩] (some (0, _)) :=
    .call rfl (.call rfl (.call rfl (.call rfl (.call rfl (.call rfl (.ret _ _))))))
  have hsecond : Runs ((startCommand 0).send
        { (startCommand 0).write .zeroed with bwresp := ⟨TZ_BW_SVC_START_ID, 0⟩ })
      [⟨.qteeShmbridgeAllocateShm 4096, .error (-ENOMEM)⟩, ⟨.qteeShmbridgeFreeShm none, ()⟩]
      (some (-ENOMEM, _)) :=
    .call rfl (.call rfl (.ret _ _))
  have hcommands := Commands.cons hfirst (Commands.cons hsecond (.nil _))
  exact ⟨_, _, hcommands, rfl, hcommands.judged⟩

end SafeLinux.Profiler
