import SafeLinux.Effects.Actions
import SafeLinux.Effects.Free
import SafeLinux.ScmIntf.Driver

/-!
# The secure calls of a request

What `scm_ioctl` asks of the secure world. An observer sees the secure calls, with service, command
and argument values, and whether `memremap` fails. `dispatch_shows` and `genericCall_shows` say
what the two builds do with a request, and `served_oneSecureCall_iff` when that is exactly the
secure call the request asks for.
-/

namespace SafeLinux.ScmIntf

open Effects
open Effects.Program (perform)

/-! ## What is observed -/

/-- A call to the secure world. -/
structure SecureCall where
  svc : U32
  cmd : U32
  args : List U64
  deriving DecidableEq

/-- What is observed of an execution. -/
inductive ScmAct where
  | secure (call : SecureCall)
  | remapFailed
  deriving DecidableEq

/-- The service and the command of a wrapper's secure call. -/
def Wrapper.svcCmd : Wrapper → U32 × U32
  | .setRemoteState => (QCOM_SCM_SVC_BOOT, QCOM_SCM_BOOT_SET_REMOTE_STATE)
  | .pasInitImage => (QCOM_SCM_SVC_PIL, QCOM_SCM_PIL_PAS_INIT_IMAGE)
  | .pasMemSetup => (QCOM_SCM_SVC_PIL, QCOM_SCM_PIL_PAS_MEM_SETUP)
  | .pasAuthAndReset => (QCOM_SCM_SVC_PIL, QCOM_SCM_PIL_PAS_AUTH_AND_RESET)
  | .pasShutdown => (QCOM_SCM_SVC_PIL, QCOM_SCM_PIL_PAS_SHUTDOWN)
  | .getTzFeatIdVersion => (QCOM_SCM_SVC_INFO, QCOM_SCM_INFO_GET_FEAT_VERSION_CMD)
  | .ddrbwProfiler => (QCOM_SCM_SVC_INFO, QCOM_SCM_INFO_BW_PROF_ID)
  | .memProtectVideoVar => (QCOM_SCM_SVC_MP, QCOM_SCM_MP_VIDEO_VAR)
  | .sheOp => (QCOM_SCM_SVC_SHE, QCOM_SCM_SHE_ID)
  | .lmhProfileChange => (QCOM_SCM_SVC_LMH, QCOM_SCM_LMH_LIMIT_PROFILE_CHANGE)

/-- The number of arguments `qcom_scm_call` takes from a descriptor. -/
def argCount (arginfo : U32) : Nat := (arginfo &&& 0x0F).toNat

/-- The observer of the secure calls and of failing `memremap`s; every answer is possible. -/
def scmObserver : Observer ScmCall ScmAct where
  possible := fun _ _ => True
  view := fun request answer =>
    match request with
    | .qcomScmCall desc =>
        some (.secure ⟨desc.svc, desc.cmd, desc.args.toList.take (argCount desc.arginfo)⟩)
    | .wrapper w args => some (.secure ⟨w.svcCmd.1, w.svcCmd.2, args⟩)
    | .memremap _ _ => if answer.isNone then some .remapFailed else none
    | _ => none

/-- The secure calls among the actions. -/
def secureCalls (acts : List ScmAct) : List SecureCall :=
  acts.filterMap fun act => match act with
    | .secure call => some call
    | .remapFailed => none

@[simp] theorem secureCalls_nil : secureCalls [] = [] := rfl

@[simp] theorem secureCalls_append (acts acts' : List ScmAct) :
    secureCalls (acts ++ acts') = secureCalls acts ++ secureCalls acts' :=
  List.filterMap_append

@[simp] theorem secureCalls_secure (call : SecureCall) (acts : List ScmAct) :
    secureCalls (.secure call :: acts) = call :: secureCalls acts := rfl

@[simp] theorem secureCalls_remapFailed (acts : List ScmAct) :
    secureCalls (.remapFailed :: acts) = secureCalls acts := rfl

theorem scmObserver_admits : scmObserver.Admits Semantics.free := fun _ _ _ _ _ => trivial

/-! ## Programs without secure calls -/

/-- A program of which nothing is observed. -/
abbrev Silent {α : Type} (p : ScmProg α) : Prop := p.Shows scmObserver fun acts _ => acts = []

theorem Silent.pure {α : Type} (value : α) : Silent (Pure.pure value : ScmProg α) := rfl

theorem Silent.bind {α β : Type} {p : ScmProg α} {rest : α → ScmProg β} (h : Silent p)
    (hrest : ∀ value, Silent (rest value)) : Silent (p >>= rest) := by
  refine shows_bind h ?_ fun _ hacts => hacts
  rintro acts value rfl
  exact hrest value

theorem Silent.oops {α : Type} {rest : Empty → ScmProg α} : Silent (perform .oops >>= rest) :=
  @shows_halt _ _ _ _ _ _ (inferInstanceAs (IsEmpty Empty)) _ _ rfl

theorem Silent.then {α β : Type} [Nonempty β] {request : ScmCall β} {rest : β → ScmProg α}
    (hview : ∀ answer, scmObserver.view request answer = none)
    (hrest : ∀ value, Silent (rest value)) : Silent (perform request >>= rest) :=
  shows_idle hview fun answer _ => hrest answer

/-- The translation of a file descriptor makes no secure call. -/
theorem getPaFromDmabufFd_silent (dmaBuf : Nat) : Silent (getPaFromDmabufFd dmaBuf) := by
  unfold getPaFromDmabufFd
  refine .then (fun _ => rfl) fun attach => ?_
  cases attach with
  | none => exact .oops
  | some bufAttach =>
      refine .then (fun _ => rfl) fun table => ?_
      cases table with
      | none => exact .oops
      | some sgt =>
          refine .then (fun _ => rfl) fun _ => ?_
          refine .then (fun _ => rfl) fun _ => ?_
          exact .pure _

theorem translateLoop_silent (indices : List U32) (last : Option Nat) (scmArgs : Vector U64 10) :
    Silent (translateLoop indices last scmArgs) := by
  induction indices generalizing last scmArgs with
  | nil => exact .pure _
  | cons i rest ih =>
      refine .then (fun _ => rfl) fun got => ?_
      cases got with
      | null | err _ => exact .pure _
      | ptr dmaBuf =>
          refine (getPaFromDmabufFd_silent dmaBuf).bind fun pa => ?_
          cases pa with
          | error _ => exact .pure _
          | ok pa => exact ih _ _

theorem translateFdToPa_silent (dmabufFd : Vector U32 10) (n : Nat) (scmArgs : Vector U64 10) :
    Silent (translateFdToPa dmabufFd n scmArgs) := by
  refine (translateLoop_silent _ _ _).bind fun translated => ?_
  cases translated with
  | error ret => exact .pure _
  | ok pair =>
      obtain ⟨last, scmArgs'⟩ := pair
      cases last with
      | none => exact .pure _
      | some dmaBuf => exact .then (fun _ => rfl) fun _ => .pure _

theorem checkRequest_silent (stack : Stack) (scmData : ScmHandShake) :
    Silent (checkRequest stack scmData) := by
  unfold checkRequest
  split
  · exact .pure _
  · dsimp only
    split
    · refine (translateFdToPa_silent _ _ _).bind fun translated => ?_
      cases translated with
      | error ret => exact .pure _
      | ok argsBuffer => exact .pure _
    · exact .pure _

/-- No secure call is made before the request is fetched. -/
theorem fetchRequest_silent (stack : Stack) (cmd : U32) : Silent (fetchRequest stack cmd) := by
  unfold fetchRequest
  split
  · exact .pure _
  · refine .then (fun _ => rfl) fun copied => ?_
    cases copied with
    | none => exact .pure _
    | some scmData => exact checkRequest_silent stack scmData

/-- No secure call is made when the results are copied. -/
theorem copyResults_silent (d : ScmHandShake) (res : Vector U64 3) (ret : Int) :
    Silent (copyResults d res ret) := by
  unfold copyResults
  split
  · exact .pure _
  · refine .then (fun _ => rfl) fun copied => ?_
    cases copied with
    | true => exact .pure _
    | false => exact .pure _

/-! ## The dispatch of other kernels -/

/-- The wrapper the dispatch calls for a service and a command. -/
def wrapperOf (svc cmd : U32) : Option Wrapper :=
  if svc = QCOM_SCM_SVC_BOOT then
    if cmd = QCOM_SCM_BOOT_SET_REMOTE_STATE then some .setRemoteState else none
  else if svc = QCOM_SCM_SVC_PIL then
    if cmd = QCOM_SCM_PIL_PAS_INIT_IMAGE then some .pasInitImage
    else if cmd = QCOM_SCM_PIL_PAS_MEM_SETUP then some .pasMemSetup
    else if cmd = QCOM_SCM_PIL_PAS_AUTH_AND_RESET then some .pasAuthAndReset
    else if cmd = QCOM_SCM_PIL_PAS_SHUTDOWN then some .pasShutdown
    else none
  else if svc = QCOM_SCM_SVC_INFO then
    if cmd = QCOM_SCM_INFO_GET_FEAT_VERSION_CMD then some .getTzFeatIdVersion
    else if cmd = QCOM_SCM_INFO_BW_PROF_ID then some .ddrbwProfiler
    else none
  else if svc = QCOM_SCM_SVC_MP then
    if cmd = QCOM_SCM_MP_VIDEO_VAR then some .memProtectVideoVar else none
  else if svc = QCOM_SCM_SVC_SHE then
    if cmd = QCOM_SCM_SHE_ID then some .sheOp else none
  else if svc = QCOM_SCM_SVC_LMH then
    if cmd = QCOM_SCM_LMH_LIMIT_PROFILE_CHANGE then some .lmhProfileChange else none
  else none

/-- The number of arguments the dispatch hands to a wrapper. -/
def Wrapper.arity : Wrapper → Nat
  | .setRemoteState => 2
  | .pasInitImage | .pasMemSetup => 3
  | .pasAuthAndReset | .pasShutdown | .getTzFeatIdVersion | .lmhProfileChange => 1
  | .ddrbwProfiler | .memProtectVideoVar | .sheOp => 4

/-- What the dispatch does for a wrapper. -/
def serveWrapper (widths : Widths) (d : ScmHandShake) (res : Vector U64 3) :
    Option Wrapper → ScmProg (Except Int (ScmHandShake × Vector U64 3))
  | none => return .ok (d, res)
  | some .pasInitImage => do return (← initImage widths d).map fun d => (d, res)
  | some .sheOp => do
      let (ret, res1) ← callWrapper widths .sheOp (d.argsBuffer.toList.take 4)
      return .ok ({ d with ret }, storeRes1 res res1)
  | some w => do return .ok (← retOf widths w (d.argsBuffer.toList.take w.arity) d, res)

/-- The dispatch serves a request by its wrapper. -/
theorem dispatch_eq (widths : Widths) (d : ScmHandShake) (res : Vector U64 3) :
    dispatch widths d res = serveWrapper widths d res (wrapperOf d.svc d.cmd) := by
  obtain ⟨h1, h2, h3, h4⟩ := take_argsBuffer d.argsBuffer
  unfold dispatch wrapperOf
  dsimp only
  split_ifs <;> simp only [serveWrapper, Wrapper.arity, h1, h2, h3, h4]

theorem svcCmd_of_wrapperOf {svc cmd : U32} {w : Wrapper} (h : wrapperOf svc cmd = some w) :
    w.svcCmd = (svc, cmd) := by
  unfold wrapperOf at h
  split_ifs at h with hsvc hcmd <;> cases h <;> simp [Wrapper.svcCmd, *]

/-- The arguments a wrapper hands on. -/
def Wrapper.handed (w : Wrapper) (widths : Widths) (d : ScmHandShake) : List U64 :=
  (d.argsBuffer.toList.take w.arity).mapIdx fun i arg => narrow (widths w i) arg

/-- What is observed of the service of a request by its wrapper. -/
def WrapperActs (widths : Widths) (d : ScmHandShake) (acts : List ScmAct) : Option Wrapper → Prop
  | none => acts = []
  | some .pasInitImage => acts = [.remapFailed] ∨ ∃ args,
      acts = [.secure ⟨QCOM_SCM_SVC_PIL, QCOM_SCM_PIL_PAS_INIT_IMAGE, args⟩]
  | some w => acts = [.secure ⟨w.svcCmd.1, w.svcCmd.2, w.handed widths d⟩]

/-- A call of a wrapper is seen. -/
theorem callWrapper_shows {widths : Widths} {w : Wrapper} {args : List U64} :
    (callWrapper widths w args).Shows scmObserver fun acts _ =>
      acts = [.secure ⟨w.svcCmd.1, w.svcCmd.2,
        args.mapIdx fun i arg => narrow (widths w i) arg⟩] :=
  shows_perform fun _ _ => rfl

theorem retOf_shows {widths : Widths} {w : Wrapper} {args : List U64} {d : ScmHandShake} :
    (retOf widths w args d).Shows scmObserver fun acts _ =>
      acts = [.secure ⟨w.svcCmd.1, w.svcCmd.2,
        args.mapIdx fun i arg => narrow (widths w i) arg⟩] := by
  refine shows_bind callWrapper_shows ?_ fun _ hacts => hacts
  rintro acts value rfl
  exact shows_pure (by simp)

theorem initImage_shows {widths : Widths} {d : ScmHandShake} :
    (initImage widths d).Shows scmObserver fun acts _ =>
      WrapperActs widths d acts (some .pasInitImage) := by
  unfold initImage passMetadata
  refine shows_call fun data _ => ?_
  cases data with
  | none => exact shows_pure (.inl rfl)
  | some data =>
      refine shows_bind retOf_shows ?_ ?_
      · rintro acts d' rfl
        exact shows_idle (fun _ => rfl) fun _ _ => shows_pure (.inr ⟨_, rfl⟩)
      · rintro acts rfl
        exact .inr ⟨_, rfl⟩

/-- What the dispatch does with a request. -/
theorem dispatch_shows {widths : Widths} {d : ScmHandShake} {res : Vector U64 3} :
    (dispatch widths d res).Shows scmObserver fun acts _ =>
      WrapperActs widths d acts (wrapperOf d.svc d.cmd) := by
  rw [dispatch_eq]
  cases wrapperOf d.svc d.cmd with
  | none => exact shows_pure rfl
  | some w =>
      cases w with
      | pasInitImage =>
          refine shows_bind initImage_shows ?_ fun _ hacts => hacts
          intro acts value hacts
          exact shows_pure (by simpa using hacts)
      | sheOp =>
          refine shows_bind callWrapper_shows ?_ fun _ hacts => hacts
          rintro acts value rfl
          exact shows_pure rfl
      | _ =>
          refine shows_bind retOf_shows ?_ fun _ hacts => hacts
          rintro acts value rfl
          exact shows_pure rfl

/-! ## The generic call of kernel 5.14.0 -/

theorem take_descArgs (stack : Stack) (d : ScmHandShake) :
    (descArgs stack d).toList.take d.noOfArgs = d.argsBuffer.toList.take d.noOfArgs := by
  refine List.ext_getElem (by simp) fun i hi _ => ?_
  have hn : i < d.noOfArgs := (List.length_take ▸ hi).trans_le (Nat.min_le_left _ _)
  simp [descArgs, hn]

/-- The arguments of the descriptor of `qcom_scm_call`. -/
def sentArgs (stack : Stack) (d : ScmHandShake) : List U64 :=
  if d.cmd = QCOM_SCM_PIL_PAS_INIT_IMAGE then (descArgs stack d).toList.take 2
  else d.argsBuffer.toList.take d.noOfArgs

/-- The generic call is one secure call of the service and the command of the request. -/
theorem genericCall_shows {stack : Stack} {d : ScmHandShake}
    (hargs : d.noOfArgs ≤ MAX_QCOM_SCM_ARGS) :
    (genericCall stack d).Shows scmObserver fun acts _ =>
      acts = [.secure ⟨d.svc, d.cmd, sentArgs stack d⟩] := by
  unfold genericCall
  rw [if_neg (Nat.not_lt.mpr hargs)]
  refine shows_act (fun _ => .secure ⟨d.svc, d.cmd, sentArgs stack d⟩) (fun _ => ?_)
    fun _ _ => shows_pure rfl
  unfold sentArgs
  split_ifs with hcmd
  · have htake : ((descArgs stack d).set 2 0).toList.take 2 = (descArgs stack d).toList.take 2 := by
      rw [Vector.toList_set]
      exact List.take_set_of_le (Nat.le_refl 2)
    simp only [scmObserver, ← htake]
    rfl
  · simp only [scmObserver, ← take_descArgs stack d]
    rfl

/-! ## The secure call a request asks for -/

/-- The execution of the ioctl with the calls of `trace` passes the checks and the translation of
the file descriptors; `d` is the request with translated arguments. -/
def Served (build : Build) (widths : Widths) (stack : Stack) (cmd : U32) (d : ScmHandShake)
    (trace : List (Event ScmCall)) (result : Option Int) : Prop :=
  ∃ before after ret, trace = before ++ after ∧
    Runs (fetchRequest stack cmd) before (some (.ok (d, ret))) ∧
    Runs (serveRequest build widths stack d ret) after result

/-- An execution of the ioctl serves a request, or ends while it fetches it. -/
theorem scmIoctl_runs {build : Build} {widths : Widths} {stack : Stack} {cmd : U32}
    {trace : List (Event ScmCall)} {result : Option Int} :
    Runs (scmIoctl build widths stack cmd) trace result ↔
      (∃ d, Served build widths stack cmd d trace result) ∨
      (∃ ret, Runs (fetchRequest stack cmd) trace (some (.error ret)) ∧ result = some ret) ∨
      (Runs (fetchRequest stack cmd) trace none ∧ result = none) := by
  constructor
  · intro h
    obtain ⟨value, before, after, rfl, hfetch, hrest⟩ | hnone := Runs.bind_inv h
    · cases value with
      | error ret =>
          cases hrest
          rw [List.append_nil]
          exact .inr (.inl ⟨ret, hfetch, rfl⟩)
      | ok pair => exact .inl ⟨pair.1, before, after, pair.2, rfl, hfetch, hrest⟩
    · exact .inr (.inr hnone)
  · rintro (⟨d, before, after, ret, rfl, hfetch, hrest⟩ | ⟨ret, hfetch, rfl⟩ | ⟨hfetch, rfl⟩)
    · exact hfetch.bind hrest
    · have hrest : Runs (pure ret : ScmProg Int) [] (some ret) := .pure ret
      rw [← List.append_nil trace]
      exact hfetch.bind hrest
    · exact hfetch.bind_none

/-- A request that passes the checks is on the allow-list, and only its arguments may change. -/
theorem checkRequest_accepts {stack : Stack} {r d : ScmHandShake} {ret : Int}
    {trace : List (Event ScmCall)}
    (h : Runs (checkRequest stack r) trace (some (.ok (d, ret)))) :
    validateSvcCmd r.svc r.cmd = true ∧ ∃ args, d = { r with argsBuffer := args } := by
  unfold checkRequest at h
  by_cases hvalid : validateSvcCmd r.svc r.cmd = true
  · refine ⟨hvalid, ?_⟩
    rw [if_neg (by simpa using hvalid)] at h
    dsimp only at h
    split at h
    · obtain ⟨translated, _, _, _, _, hrest⟩ | ⟨_, hnone⟩ := Runs.bind_inv h
      · cases translated with
        | error ret => cases hrest
        | ok args =>
            cases hrest
            exact ⟨args, rfl⟩
      · cases hnone
    · cases h
      exact ⟨r.argsBuffer, rfl⟩
  · rw [if_pos (by simpa using hvalid)] at h
    cases h

/-- A served request is the one copied from user space, on the allow-list, and only its arguments
may have changed. -/
theorem Served.accepted {build : Build} {widths : Widths} {stack : Stack} {cmd : U32}
    {d : ScmHandShake} {trace : List (Event ScmCall)} {result : Option Int}
    (h : Served build widths stack cmd d trace result) : ∃ r rest args,
      trace = ⟨.copyFromUser, some r⟩ :: rest ∧ validateSvcCmd r.svc r.cmd = true ∧
        d = { r with argsBuffer := args } := by
  obtain ⟨before, after, ret, rfl, hfetch, _⟩ := h
  unfold fetchRequest at hfetch
  split at hfetch
  · cases hfetch
  · obtain ⟨copied, first, second, rfl, hcopy, hrest⟩ | ⟨_, hnone⟩ := Runs.bind_inv hfetch
    · cases hcopy with
      | call _ hret =>
          cases hret
          cases copied with
          | none => cases hrest
          | some r =>
              obtain ⟨hvalid, args, hd⟩ := checkRequest_accepts hrest
              exact ⟨r, second ++ after, args, rfl, hvalid, hd⟩
    · cases hnone

/-- The actions contain exactly one secure call, the one the request asks for; only the arguments
of `QCOM_SCM_PIL_PAS_INIT_IMAGE` may differ. -/
def OneSecureCall (d : ScmHandShake) (acts : List ScmAct) : Prop :=
  if d.svc = QCOM_SCM_SVC_PIL ∧ d.cmd = QCOM_SCM_PIL_PAS_INIT_IMAGE then
    ∃ args, secureCalls acts = [⟨d.svc, d.cmd, args⟩]
  else
    secureCalls acts = [⟨d.svc, d.cmd, d.argsBuffer.toList.take d.noOfArgs⟩]

/-- The condition under which a build makes the secure call a request asks for. -/
def AsRequested (widths : Widths) (d : ScmHandShake) (acts : List ScmAct) : Build → Prop
  | .v5_14_0 => d.cmd = QCOM_SCM_PIL_PAS_INIT_IMAGE →
      d.svc = QCOM_SCM_SVC_PIL ∨ d.noOfArgs = 2
  | .other => ∃ w, wrapperOf d.svc d.cmd = some w ∧
      if w = .pasInitImage then .remapFailed ∉ acts
      else d.noOfArgs = w.arity ∧ ∀ i : Fin 10, i < w.arity →
        narrow (widths w i) (d.argsBuffer.get i) = d.argsBuffer.get i

/-- The arguments handed to a wrapper are those of the request if it has as many and the parameter
types hold them. -/
theorem handed_eq_iff (w : Wrapper) (widths : Widths) (d : ScmHandShake)
    (hargs : d.noOfArgs ≤ MAX_QCOM_SCM_ARGS) :
    w.handed widths d = d.argsBuffer.toList.take d.noOfArgs ↔
      d.noOfArgs = w.arity ∧ ∀ i : Fin 10, i < w.arity →
        narrow (widths w i) (d.argsBuffer.get i) = d.argsBuffer.get i := by
  have harity : w.arity ≤ 4 := by cases w <;> decide
  unfold MAX_QCOM_SCM_ARGS at hargs
  constructor
  · intro h
    have hlength := congrArg List.length h
    simp only [Wrapper.handed, List.length_mapIdx, List.length_take, Vector.length_toList]
      at hlength
    have hn : d.noOfArgs = w.arity := by omega
    refine ⟨hn, fun i hi => ?_⟩
    have hget := congrArg (fun args => args[i.val]?) h
    show narrow (widths w i) d.argsBuffer[i.val] = d.argsBuffer[i.val]
    simpa [Wrapper.handed, hn, hi, List.getElem?_take] using hget
  · rintro ⟨hn, hfit⟩
    refine List.ext_getElem (by simp [Wrapper.handed, hn]) fun i _ hi => ?_
    have hi' : i < w.arity ∧ i < 10 := by
      simp only [hn, List.length_take, Vector.length_toList] at hi
      omega
    have hget : narrow (widths w i) d.argsBuffer[i] = d.argsBuffer[i] := hfit ⟨i, hi'.2⟩ hi'.1
    simpa [Wrapper.handed] using hget

/-- The dispatch makes the secure call asked for under its condition. -/
theorem wrapperActs_iff {widths : Widths} {d : ScmHandShake} {acts : List ScmAct}
    (hargs : d.noOfArgs ≤ MAX_QCOM_SCM_ARGS)
    (hacts : WrapperActs widths d acts (wrapperOf d.svc d.cmd)) :
    OneSecureCall d acts ↔ AsRequested widths d acts .other := by
  cases hw : wrapperOf d.svc d.cmd with
  | none =>
      rw [hw] at hacts
      obtain rfl : acts = [] := hacts
      simp [OneSecureCall, AsRequested, hw]
  | some w =>
      have hsvcCmd := svcCmd_of_wrapperOf hw
      rw [hw] at hacts
      by_cases himage : w = .pasInitImage
      · subst himage
        obtain ⟨hsvc, hcmd⟩ := Prod.mk.inj hsvcCmd
        unfold OneSecureCall AsRequested
        rw [if_pos ⟨hsvc.symm, hcmd.symm⟩]
        rcases hacts with rfl | ⟨args, rfl⟩
        · simp [hw]
        · simp [hw, hsvc, hcmd]
      · have hnot : ¬ (d.svc = QCOM_SCM_SVC_PIL ∧ d.cmd = QCOM_SCM_PIL_PAS_INIT_IMAGE) := by
          rintro ⟨hsvc, hcmd⟩
          rw [hsvc, hcmd] at hw
          exact himage (Option.some.inj hw).symm
        have hcall : acts = [.secure ⟨d.svc, d.cmd, w.handed widths d⟩] := by
          cases w with
          | pasInitImage => exact absurd rfl himage
          | _ =>
              rw [show d.svc = _ from (Prod.mk.inj hsvcCmd).1.symm,
                show d.cmd = _ from (Prod.mk.inj hsvcCmd).2.symm]
              exact hacts
        subst hcall
        unfold OneSecureCall AsRequested
        rw [if_neg hnot]
        simp [hw, himage, handed_eq_iff w widths d hargs]

/-- The generic call is the secure call asked for under its condition. -/
theorem sentArgs_iff {widths : Widths} {stack : Stack} {d : ScmHandShake}
    (hargs : d.noOfArgs ≤ MAX_QCOM_SCM_ARGS) :
    OneSecureCall d [.secure ⟨d.svc, d.cmd, sentArgs stack d⟩] ↔
      AsRequested widths d [.secure ⟨d.svc, d.cmd, sentArgs stack d⟩] .v5_14_0 := by
  unfold OneSecureCall AsRequested
  by_cases hcmd : d.cmd = QCOM_SCM_PIL_PAS_INIT_IMAGE
  · by_cases hsvc : d.svc = QCOM_SCM_SVC_PIL
    · simp [hcmd, hsvc]
    · have hsent : sentArgs stack d = d.argsBuffer.toList.take d.noOfArgs ↔ d.noOfArgs = 2 := by
        rw [sentArgs, if_pos hcmd]
        constructor
        · intro h
          have hlength := congrArg List.length h
          simp only [List.length_take, Vector.length_toList] at hlength
          unfold MAX_QCOM_SCM_ARGS at hargs
          omega
        · intro hn
          rw [← take_descArgs stack d, hn]
      simp [hcmd, hsvc, hsent]
  · simp [hcmd, sentArgs]

theorem serveRequest_shows {build : Build} {widths : Widths} {stack : Stack} {d : ScmHandShake}
    {ret : Int} (hargs : d.noOfArgs ≤ MAX_QCOM_SCM_ARGS) :
    (serveRequest build widths stack d ret).Shows scmObserver fun acts _ =>
      (OneSecureCall d acts ↔ AsRequested widths d acts build) := by
  cases build with
  | other =>
      refine shows_bind dispatch_shows ?_ fun acts hacts => wrapperActs_iff hargs hacts
      intro acts value hacts
      cases value with
      | error ret =>
          refine shows_pure ?_
          rw [List.append_nil]
          exact wrapperActs_iff hargs hacts
      | ok pair =>
          refine (copyResults_silent _ _ _).mono ?_
          rintro acts' result rfl
          rw [List.append_nil]
          exact wrapperActs_iff hargs hacts
  | v5_14_0 =>
      refine shows_bind (genericCall_shows hargs) ?_ ?_
      · rintro acts pair rfl
        refine (copyResults_silent _ _ _).mono ?_
        rintro acts' result rfl
        rw [List.append_nil]
        exact sentArgs_iff hargs
      · rintro acts rfl
        exact sentArgs_iff hargs

/-- A served request leads to the secure call it asks for exactly under the condition of the
build. -/
theorem served_oneSecureCall_iff {build : Build} {widths : Widths} {stack : Stack} {cmd : U32}
    {d : ScmHandShake} {trace : List (Event ScmCall)} {result : Option Int}
    (h : Served build widths stack cmd d trace result)
    (hargs : d.noOfArgs ≤ MAX_QCOM_SCM_ARGS) :
    OneSecureCall d (scmObserver.actions trace) ↔
      AsRequested widths d (scmObserver.actions trace) build := by
  obtain ⟨before, after, ret, rfl, hfetch, hserve⟩ := h
  have hbefore : scmObserver.actions before = [] :=
    (fetchRequest_silent stack cmd).exec scmObserver_admits hfetch
  rw [Observer.actions_append, hbefore, List.nil_append]
  exact (serveRequest_shows hargs).exec scmObserver_admits hserve

/-- A request of a service and a command with all other fields zero. -/
def plainRequest (svc cmd arginfo : U32) : ScmHandShake :=
  ⟨svc, cmd, 0, arginfo, Vector.replicate 10 0, 0, 0, Vector.replicate 3 0⟩

def zeroStack : Stack := ⟨Vector.replicate 3 0, Vector.replicate 10 0, Vector.replicate 10 0⟩

/-- The generic build serves a call of `QCOM_SCM_PIL_PAS_SHUTDOWN`. -/
theorem served_oneSecureCall_shutdown :
    ∃ trace result, Served .v5_14_0 (fun _ _ => 64) zeroStack SCM_HAND_SHAKE_IOCTL
        (plainRequest QCOM_SCM_SVC_PIL QCOM_SCM_PIL_PAS_SHUTDOWN 1) trace result ∧
      (OneSecureCall (plainRequest QCOM_SCM_SVC_PIL QCOM_SCM_PIL_PAS_SHUTDOWN 1)
          (scmObserver.actions trace) ↔
        AsRequested (fun _ _ => 64) (plainRequest QCOM_SCM_SVC_PIL QCOM_SCM_PIL_PAS_SHUTDOWN 1)
          (scmObserver.actions trace) .v5_14_0) := by
  have hserved : Served .v5_14_0 (fun _ _ => 64) zeroStack SCM_HAND_SHAKE_IOCTL
      (plainRequest QCOM_SCM_SVC_PIL QCOM_SCM_PIL_PAS_SHUTDOWN 1)
      [⟨.copyFromUser, some (plainRequest QCOM_SCM_SVC_PIL QCOM_SCM_PIL_PAS_SHUTDOWN 1)⟩,
        ⟨.qcomScmCall ⟨QCOM_SCM_SVC_PIL, QCOM_SCM_PIL_PAS_SHUTDOWN, 1, Vector.replicate 10 0⟩,
          (1, none)⟩] (some 1) :=
    ⟨[_], [_], 0, rfl, .call rfl (.ret _ _), .call rfl (.ret _ _)⟩
  exact ⟨_, _, hserved, served_oneSecureCall_iff hserved (by decide)⟩

/-- On other kernels an allowed `QCOM_SCM_INFO_IS_CALL_AVAIL` vanishes without a secure call. -/
theorem isCallAvail_not_oneSecureCall :
    ¬ ∀ (build : Build) (widths : Widths) (stack : Stack) (cmd : U32) (d : ScmHandShake)
      (trace : List (Event ScmCall)) (result : Option Int),
      Served build widths stack cmd d trace result → d.noOfArgs ≤ MAX_QCOM_SCM_ARGS →
      OneSecureCall d (scmObserver.actions trace) := by
  intro h
  have hserved : Served .other (fun _ _ => 64) zeroStack SCM_HAND_SHAKE_IOCTL
      (plainRequest QCOM_SCM_SVC_INFO QCOM_SCM_INFO_IS_CALL_AVAIL 1)
      [⟨.copyFromUser, some (plainRequest QCOM_SCM_SVC_INFO QCOM_SCM_INFO_IS_CALL_AVAIL 1)⟩,
        ⟨.copyToUser (plainRequest QCOM_SCM_SVC_INFO QCOM_SCM_INFO_IS_CALL_AVAIL 1), true⟩]
      (some 0) :=
    ⟨[_], [_], 0, rfl, .call rfl (.ret _ _), .call rfl (.ret _ _)⟩
  have hone : OneSecureCall _ [] := h _ _ _ _ _ _ _ hserved (by decide)
  simp [OneSecureCall] at hone

end SafeLinux.ScmIntf
