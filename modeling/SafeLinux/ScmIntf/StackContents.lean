import SafeLinux.ScmIntf.Requests

/-!
# What the ioctl lets out of the kernel stack

On kernels other than 5.14.0 `scm_ioctl` fills only parts of its result structure. Two executions
with the same answers from the kernel and the secure world but with other contents of the variables
declared without a value are compared: by the value returned and by what is written back to user
space. `noninterfering_iff` says for which requests they are always equal.
-/

namespace SafeLinux.ScmIntf

open Effects
open Effects.Program (perform)

/-- User space as an observer: it sees the structures written back to it. -/
def userObserver : Observer ScmCall ScmHandShake where
  possible := fun _ _ => True
  view := fun request _ => match request with
    | .copyToUser d => some d
    | _ => none

/-- The structures written back to user space. -/
def writtenBack (trace : List (Event ScmCall)) : List ScmHandShake := userObserver.actions trace

/-- `copy_from_user`, the first call of the ioctl, delivers a request. -/
def Delivers (r : ScmHandShake) (trace : List (Event ScmCall)) : Prop :=
  ∀ copied rest, trace = ⟨.copyFromUser, copied⟩ :: rest → copied = some r

/-- Two executions that deliver a request and get the same answers return the same and write the
same back, whatever the variables declared without a value contain. -/
def Noninterfering (widths : Widths) (cmd : U32) (r : ScmHandShake) : Prop :=
  ∀ stack stack' trace trace' result result',
    Runs (scmIoctl .other widths stack cmd) trace result →
    Runs (scmIoctl .other widths stack' cmd) trace' result' →
    SameAnswers trace trace' → Delivers r trace →
    result = result' ∧ writtenBack trace = writtenBack trace'

/-! ## The start of the ioctl -/

/-- The rest of the ioctl once a request is copied in. -/
def serveCopied (widths : Widths) (stack : Stack) (r : ScmHandShake) : ScmProg Int := do
  match ← checkRequest stack r with
  | .error ret => return ret
  | .ok (d, ret) => serveRequest .other widths stack d ret

variable {widths : Widths} {stack stack' : Stack} {cmd : U32} {r : ScmHandShake}
  {trace : List (Event ScmCall)} {result : Option Int}

theorem scmIoctl_wrong_cmd (hcmd : cmd ≠ SCM_HAND_SHAKE_IOCTL) :
    scmIoctl .other widths stack cmd = pure (-EFAULT) := by
  unfold scmIoctl fetchRequest
  rw [if_pos hcmd]
  rfl

theorem scmIoctl_copied : scmIoctl .other widths stack SCM_HAND_SHAKE_IOCTL =
    .call .copyFromUser fun copied => match copied with
      | some r => serveCopied widths stack r
      | none => pure (-EFAULT) := scmIoctl_eq

/-- The ioctl with a delivered request. -/
theorem runs_scmIoctl (h : Runs (scmIoctl .other widths stack SCM_HAND_SHAKE_IOCTL) trace result)
    (hdelivers : Delivers r trace) : ∃ rest, trace = ⟨.copyFromUser, some r⟩ :: rest ∧
      Runs (serveCopied widths stack r) rest result := by
  rw [scmIoctl_copied] at h
  cases h with
  | @halt _ hempty => exact (hempty.false none).elim
  | call _ hrest =>
      obtain rfl := hdelivers _ _ rfl
      exact ⟨_, rfl, hrest⟩

/-- A rejected request is not served. -/
theorem serveCopied_rejected (h : ¬ validateSvcCmd r.svc r.cmd = true) :
    serveCopied widths stack r = pure (-EINVAL) := by
  unfold serveCopied checkRequest
  rw [if_pos (by simpa using h)]
  rfl

/-- A request without file descriptors is not changed. -/
theorem checkRequest_plain (h : validateSvcCmd r.svc r.cmd = true) (hplain : ¬ NeedsTranslation r) :
    checkRequest stack r =
      pure (.ok (r, if r.noOfArgs > MAX_QCOM_SCM_ARGS then -EINVAL else 0)) := by
  unfold checkRequest
  rw [if_neg (by simpa using h), getDmafdArgs_eq, if_neg hplain]
  rfl

/-! ## Executions that reach the copy to user space -/

/-- The calls that translate the file descriptor of argument 2, with answers that succeed. -/
def translation (args : Vector U64 10) : List (Event ScmCall) :=
  [⟨.dmaBufGet ((args.toList.getD 2 0).setWidth 32), .ptr 0⟩, ⟨.dmaBufAttach 0, some 0⟩,
    ⟨.dmaBufMapAttachment 0, some ⟨1, 4096⟩⟩, ⟨.dmaBufUnmapAttachment 0, ()⟩,
    ⟨.dmaBufDetach 0 0, ()⟩, ⟨.dmaBufPut 0, ()⟩]

theorem runs_translation (fds : Vector U32 10) (args : Vector U64 10) :
    Runs (translateFdToPa (copyOver fds [2]) 1 args) (translation args)
      (some (.ok (args.setIfInBounds 2 4096))) := by
  rw [translateFdToPa_eq, take_copyOver]
  exact .call rfl (.call rfl (.call rfl (.call rfl (.call rfl (.call rfl (.ret _ _))))))

/-- These calls make the check of a request with a file descriptor succeed. -/
theorem runs_checkRequest (stack : Stack) (h : validateSvcCmd r.svc r.cmd = true)
    (hneeds : NeedsTranslation r) : Runs (checkRequest stack r) (translation r.argsBuffer)
      (some (.ok ({ r with argsBuffer := r.argsBuffer.setIfInBounds 2 4096 }, 0))) := by
  unfold checkRequest
  rw [if_neg (by simpa using h), getDmafdArgs_eq, if_pos hneeds, ← List.append_nil (translation _)]
  exact (runs_translation stack.dmaFdArgs r.argsBuffer).bind (.pure _)

/-- Some answers make the check of an accepted request succeed, whatever the stack contains. -/
theorem exists_checked (h : validateSvcCmd r.svc r.cmd = true) :
    ∃ trace d ret, (∀ stack, Runs (checkRequest stack r) trace (some (.ok (d, ret)))) ∧
      d.svc = r.svc ∧ d.cmd = r.cmd ∧ d.ret = r.ret := by
  by_cases hshe : NeedsTranslation r
  · exact ⟨translation r.argsBuffer, _, 0, fun stack => runs_checkRequest stack h hshe, rfl, rfl,
      rfl⟩
  · exact ⟨[], r, _, fun stack => by rw [checkRequest_plain h hshe]; exact .pure _, rfl, rfl, rfl⟩

/-- Some answers make the dispatch reach its end with `ret` zero, if the request has a wrapper or a
zero `ret`; the second result is what it was on the stack. -/
theorem exists_dispatched (widths : Widths) (d : ScmHandShake)
    (h : wrapperOf d.svc d.cmd = none → d.ret = 0) :
    ∃ trace, ∃ d' : ScmHandShake, d'.ret = 0 ∧ ∀ res, ∃ res' : Vector U64 3, res'[1] = res[1] ∧
      Runs (dispatch widths d res) trace (some (.ok (d', res'))) := by
  simp only [dispatch_eq]
  cases hw : wrapperOf d.svc d.cmd with
  | none => exact ⟨[], d, h hw, fun res => ⟨res, rfl, .pure _⟩⟩
  | some w =>
      cases w with
      | pasInitImage =>
          exact ⟨[⟨.memremap _ _, some 0⟩, ⟨.wrapper _ _, (0, none)⟩, ⟨.memunmap _, ()⟩],
            { d with ret := 0 }, rfl, fun res => ⟨res, rfl,
              .call rfl (.call rfl (.call rfl (.ret _ _)))⟩⟩
      | sheOp =>
          exact ⟨[⟨.wrapper _ _, (0, none)⟩], { d with ret := 0 }, rfl, fun res =>
            ⟨res.set 0 0, by simp, .call rfl (.ret _ _)⟩⟩
      | _ =>
          exact ⟨[⟨.wrapper _ _, (0, none)⟩], { d with ret := 0 }, rfl, fun res =>
            ⟨res, rfl, .call rfl (.ret _ _)⟩⟩

/-- The requests that reach the copy to user space with some answers: those accepted that have a
wrapper or a zero `ret`. -/
def CopiesOut (cmd : U32) (r : ScmHandShake) : Prop :=
  cmd = SCM_HAND_SHAKE_IOCTL ∧ validateSvcCmd r.svc r.cmd = true ∧
    (wrapperOf r.svc r.cmd = none → r.ret = 0)

/-- The stack with its results set to a value. -/
def stackOf (value : U64) : Stack :=
  ⟨Vector.replicate 3 value, Vector.replicate 10 0, Vector.replicate 10 0⟩

/-- The calls before the copy to user space do not depend on the stack, but what is copied does. -/
theorem exists_copied (widths : Widths) (h : CopiesOut cmd r) : ∃ trace, ∃ d : ScmHandShake, ∃ ret,
    ∀ stack, ∃ res : Vector U64 3, res[1] = stack.res[1] ∧
      Runs (scmIoctl .other widths stack cmd) (⟨.copyFromUser, some r⟩ ::
        (trace ++ [⟨.copyToUser { d with qcomScmRes := res }, true⟩])) (some ret) := by
  obtain ⟨rfl, hvalid, hret⟩ := h
  obtain ⟨checks, d, ret, hchecks, hsvc, hcmd, hdret⟩ := exists_checked hvalid
  obtain ⟨calls, d', hzero, hcalls⟩ := exists_dispatched widths d (by
    rw [hsvc, hcmd, hdret]
    exact hret)
  refine ⟨checks ++ calls, d', ret, fun stack => ?_⟩
  obtain ⟨res, hres, hrun⟩ := hcalls stack.res
  have hcopy : Runs (copyResults d' res ret) [⟨.copyToUser { d' with qcomScmRes := res }, true⟩]
      (some ret) := by
    unfold copyResults
    rw [if_neg (by simp [hzero])]
    exact .call rfl (.ret _ _)
  refine ⟨res, hres, ?_⟩
  rw [scmIoctl_copied, List.append_assoc]
  have hserve : Runs (serveRequest .other widths stack d ret) _ _ := hrun.bind hcopy
  exact .call rfl ((hchecks stack).bind hserve)

/-- Requests that do not reach the copy to user space do not depend on the stack. -/
theorem serveCopied_eq (h : ¬ CopiesOut SCM_HAND_SHAKE_IOCTL r) :
    serveCopied widths stack r = serveCopied widths stack' r := by
  by_cases hvalid : validateSvcCmd r.svc r.cmd = true
  · have hdrop : wrapperOf r.svc r.cmd = none ∧ r.ret ≠ 0 := by
      by_contra hnot
      exact h ⟨rfl, hvalid, fun hnone => by_contra fun hret => hnot ⟨hnone, hret⟩⟩
    have hplain : ¬ NeedsTranslation r := by
      intro hneeds
      rw [wrapperOf_translated hneeds] at hdrop
      exact nomatch hdrop.1
    have hserve : ∀ stack : Stack, serveCopied widths stack r = pure (r.ret.toNat : Int) := by
      intro stack
      unfold serveCopied
      rw [checkRequest_plain hvalid hplain]
      change serveRequest .other widths stack r _ = _
      unfold serveRequest
      simp only [dispatch_eq, hdrop.1, serveWrapper]
      change copyResults r stack.res _ = _
      unfold copyResults
      rw [if_pos hdrop.2]
    rw [hserve, hserve]
  · rw [serveCopied_rejected hvalid, serveCopied_rejected hvalid]

/-- A request that reaches the copy to user space depends on the stack. -/
theorem CopiesOut.not_noninterfering (h : CopiesOut cmd r) : ¬ Noninterfering widths cmd r := by
  intro hnon
  obtain ⟨trace, d, ret, hruns⟩ := exists_copied widths h
  obtain ⟨res, hres, hrun⟩ := hruns (stackOf 0)
  obtain ⟨res', hres', hrun'⟩ := hruns (stackOf 1)
  have hsame : SameAnswers
      (⟨.copyFromUser, some r⟩ :: (trace ++ [⟨.copyToUser { d with qcomScmRes := res }, true⟩]))
      (⟨.copyFromUser, some r⟩ ::
        (trace ++ [⟨.copyToUser { d with qcomScmRes := res' }, true⟩])) :=
    .cons _ _ _ (SameAnswers.append_left (.cons _ _ _ .nil) trace)
  obtain ⟨_, hwritten⟩ := hnon _ _ _ _ _ _ hrun hrun' hsame fun copied rest heq => by
    simpa using (List.cons.inj heq).1.symm
  have heq : res = res' := by
    simpa [writtenBack, Observer.actions_cons, userObserver] using hwritten
  rw [heq, hres'] at hres
  exact absurd hres (by decide)

/-- The ioctl is independent of the contents of the stack exactly for the requests that do not reach
the copy to user space: those with another ioctl number, those that are not allowed, and those
allowed ones without a wrapper whose own `ret` is not zero. -/
theorem noninterfering_iff (widths : Widths) (cmd : U32) (r : ScmHandShake) :
    Noninterfering widths cmd r ↔ ¬ CopiesOut cmd r := by
  constructor
  · intro h hcopies
    exact hcopies.not_noninterfering h
  · intro hnot stack stack' trace trace' result result' hrun hrun' hsame hdelivers
    by_cases hcmd : cmd = SCM_HAND_SHAKE_IOCTL
    · subst hcmd
      obtain ⟨rest, rfl, hrest⟩ := runs_scmIoctl hrun hdelivers
      rw [scmIoctl_copied] at hrun'
      cases hsame with
      | cons _ _ _ hsame =>
          cases hrun' with
          | call _ hrest' =>
              have hserve : Runs (serveCopied widths stack' r) _ result' := hrest'
              rw [serveCopied_eq hnot] at hserve
              obtain ⟨rfl, rfl⟩ := hrest.same hserve hsame
              exact ⟨rfl, rfl⟩
    · rw [scmIoctl_wrong_cmd hcmd] at hrun hrun'
      cases hrun
      cases hrun'
      exact ⟨rfl, rfl⟩

/-- An allowed command without a secure call copies the stack to user space. -/
theorem not_noninterfering_isCallAvail :
    ¬ ∀ (widths : Widths) (cmd : U32) (r : ScmHandShake), Noninterfering widths cmd r := by
  intro h
  have hcopies : CopiesOut SCM_HAND_SHAKE_IOCTL
      (plainRequest QCOM_SCM_SVC_INFO QCOM_SCM_INFO_IS_CALL_AVAIL 1) :=
    ⟨rfl, by decide, fun _ => rfl⟩
  exact hcopies.not_noninterfering (h (fun _ _ => 64) _ _)

end SafeLinux.ScmIntf
