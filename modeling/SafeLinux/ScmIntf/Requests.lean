import SafeLinux.ScmIntf.Translation

/-!
# What a request does

The acts of `scm_ioctl` for a request that is copied in, with the value it returns
(`scmIoctl_requestActs`): the checks and the translation, the secure call, and the reply.
`scmIoctl_truthful_iff` says when the value returned tells how the secure call went; the field it
comes from has no sign, so a failure is returned as a large value.
-/

namespace SafeLinux.ScmIntf

open Effects
open Effects.Program (perform)
open Loans

variable {build : Build} {widths : Widths} {stack : Stack} {r : ScmHandShake}
  {acts acts' : List RequestAct}

/-! ## The checks -/

/-- The file descriptor of argument 2 of a request is translated. -/
def NeedsTranslation (r : ScmHandShake) : Prop :=
  r.svc = QCOM_SCM_SVC_SHE ∧ r.cmd = QCOM_SCM_SHE_ID

instance (r : ScmHandShake) : Decidable (NeedsTranslation r) := inferInstanceAs (Decidable (_ ∧ _))

theorem take_copyOver (fds : Vector U32 10) : (copyOver fds [2]).toList.take 1 = [2] := by
  refine List.ext_getElem (by simp) fun i _ hi => ?_
  have hzero : i = 0 := by simpa using hi
  simp [hzero, copyOver]

/-- The table has an entry for the requests that need it, and only for these. -/
theorem getDmafdArgs_eq (fds : Vector U32 10) :
    getDmafdArgs r.svc r.cmd fds =
      if NeedsTranslation r then (1, copyOver fds [2]) else (-EINVAL, fds) := by
  unfold getDmafdArgs dmaFdTbl NeedsTranslation
  by_cases hneeds : r.svc = QCOM_SCM_SVC_SHE ∧ r.cmd = QCOM_SCM_SHE_ID
  · simp [hneeds]
  · have hnone : ¬ (QCOM_SCM_SVC_SHE = r.svc ∧ QCOM_SCM_SHE_ID = r.cmd) :=
      fun h => hneeds ⟨h.1.symm, h.2.symm⟩
    simp [hneeds, hnone]

/-- The acts of the checks of a request, with the error they return or the value of `ret` they
leave. -/
inductive CheckActs (r : ScmHandShake) : List RequestAct → Option (Except Int Int) → Prop where
  | rejected : validateSvcCmd r.svc r.cmd = false → CheckActs r [] (some (.error (-EINVAL)))
  | plain : validateSvcCmd r.svc r.cmd = true → ¬ NeedsTranslation r →
      CheckActs r [] (some (.ok (if r.noOfArgs > MAX_QCOM_SCM_ARGS then -EINVAL else 0)))
  | translated {acts : List RequestAct} {result : Option (Except Int Unit)} :
      validateSvcCmd r.svc r.cmd = true → NeedsTranslation r → TranslationActs [2] acts result →
      CheckActs r acts (result.map (Except.map fun _ => 0))

/-- A request whose arguments may have been translated. -/
def Translates (r d : ScmHandShake) : Prop := ∃ args, d = { r with argsBuffer := args }

theorem checkRequest_shows (stack : Stack) (r : ScmHandShake) :
    (checkRequest stack r).Shows requestObserver fun acts result =>
      CheckActs r acts (result.map (Except.map Prod.snd)) ∧
        ∀ d ret, result = some (.ok (d, ret)) → Translates r d := by
  unfold checkRequest
  by_cases hvalid : validateSvcCmd r.svc r.cmd = true
  · rw [if_neg (by simpa using hvalid), getDmafdArgs_eq]
    by_cases hneeds : NeedsTranslation r
    · rw [if_pos hneeds]
      have htranslate := translatePositions_shows [2] r.argsBuffer
      rw [← take_copyOver stack.dmaFdArgs] at htranslate
      refine shows_bind htranslate ?_ ?_
      · intro acts value hacts
        rw [take_copyOver] at hacts
        cases value with
        | error ret =>
            refine shows_pure ⟨?_, nofun⟩
            rw [List.append_nil]
            exact .translated hvalid hneeds hacts
        | ok args =>
            refine shows_pure ⟨?_, ?_⟩
            · rw [List.append_nil]
              exact .translated hvalid hneeds hacts
            · intro d ret hresult
              cases hresult
              exact ⟨args, rfl⟩
      · intro acts hacts
        rw [take_copyOver] at hacts
        exact ⟨.translated hvalid hneeds hacts, nofun⟩
    · rw [if_neg hneeds]
      refine shows_pure ⟨.plain hvalid hneeds, ?_⟩
      intro d ret hresult
      cases hresult
      exact ⟨r.argsBuffer, rfl⟩
  · rw [if_pos (by simpa using hvalid)]
    exact shows_pure ⟨.rejected (by simpa using hvalid), nofun⟩

/-! ## The secure call and the reply -/

/-- The acts after the secure call: a value other than 0 is returned, or the reply is copied out. -/
inductive ReplyActs (ret : U32) (checked : Int) : List RequestAct → Option Int → Prop where
  | failed : ret ≠ 0 → ReplyActs ret checked [] (some ret.toNat)
  | copied (ok : Bool) : ret = 0 →
      ReplyActs ret checked [.copiedOut ok] (some (if ok then checked else -EFAULT))

theorem copyResults_shows (d : ScmHandShake) (res : Vector U64 3) (checked : Int) :
    (copyResults d res checked).Shows requestObserver (ReplyActs d.ret checked) := by
  unfold copyResults
  by_cases hret : d.ret ≠ 0
  · rw [if_pos hret]
    exact shows_pure (.failed hret)
  · rw [if_neg hret]
    refine shows_act RequestAct.copiedOut (fun _ => rfl) fun ok _ => ?_
    cases ok with
    | true => exact shows_pure (.copied true (not_not.mp hret))
    | false => exact shows_pure (.copied false (not_not.mp hret))

/-- The acts of the dispatch, with the error it returns or the `ret` it leaves. -/
inductive DispatchActs (r : ScmHandShake) : List RequestAct → Option (Except Int U32) → Prop where
  | undispatched : wrapperOf r.svc r.cmd = none → DispatchActs r [] (some (.ok r.ret))
  | unremapped : wrapperOf r.svc r.cmd = some .pasInitImage →
      DispatchActs r [.remapped false] (some (.error (-ENOMEM)))
  | image (ret : U32) : wrapperOf r.svc r.cmd = some .pasInitImage →
      DispatchActs r [.remapped true, .secured ret] (some (.ok ret))
  | wrapper (w : Wrapper) (ret : U32) : wrapperOf r.svc r.cmd = some w → w ≠ .pasInitImage →
      DispatchActs r [.secured ret] (some (.ok ret))

theorem retOf_acts {w : Wrapper} {args : List U64} {d : ScmHandShake} :
    (retOf widths w args d).Shows requestObserver fun acts result =>
      ∃ ret, acts = [.secured ret] ∧ result = some { d with ret } :=
  shows_act (fun answer => .secured answer.1) (fun _ => rfl) fun answer _ =>
    shows_pure ⟨answer.1, rfl, rfl⟩

theorem initImage_acts {d : ScmHandShake} :
    (initImage widths d).Shows requestObserver fun acts result =>
      (acts = [.remapped false] ∧ result = some (.error (-ENOMEM))) ∨
        ∃ ret, acts = [.remapped true, .secured ret] ∧ result = some (.ok { d with ret }) := by
  unfold initImage passMetadata
  refine shows_call fun data _ => ?_
  cases data with
  | none => exact shows_pure (.inl ⟨rfl, rfl⟩)
  | some data =>
      refine shows_bind retOf_acts ?_ ?_
      · rintro acts d' ⟨ret, rfl, hd'⟩
        cases hd'
        exact shows_idle (fun _ => rfl) fun _ _ => shows_pure (.inr ⟨ret, rfl, rfl⟩)
      · rintro acts ⟨ret, _, hresult⟩
        cases hresult

theorem dispatch_acts (widths : Widths) (d : ScmHandShake) (res : Vector U64 3) :
    (dispatch widths d res).Shows requestObserver fun acts result =>
      DispatchActs d acts (result.map (Except.map fun served => served.1.ret)) := by
  rw [dispatch_eq]
  cases hw : wrapperOf d.svc d.cmd with
  | none => exact shows_pure (.undispatched hw)
  | some w =>
      cases w with
      | pasInitImage =>
          refine shows_bind initImage_acts ?_ ?_
          · rintro acts value (⟨rfl, hvalue⟩ | ⟨ret, rfl, hvalue⟩)
            · cases hvalue
              exact shows_pure (.unremapped hw)
            · cases hvalue
              exact shows_pure (.image ret hw)
          · rintro acts (⟨_, hresult⟩ | ⟨_, _, hresult⟩)
            · cases hresult
            · cases hresult
      | sheOp =>
          exact shows_act (fun answer => .secured answer.1) (fun _ => rfl) fun answer _ =>
            shows_pure (.wrapper _ answer.1 hw nofun)
      | _ =>
          refine shows_bind retOf_acts ?_ ?_
          · rintro acts d' ⟨ret, rfl, hd'⟩
            cases hd'
            exact shows_pure (.wrapper _ ret hw nofun)
          · rintro acts ⟨ret, _, hresult⟩
            cases hresult

/-- The acts of a request that passed the checks. -/
inductive ServeActs (r : ScmHandShake) (checked : Int) :
    Build → List RequestAct → Option Int → Prop where
  | overrun : MAX_QCOM_SCM_ARGS < r.noOfArgs → ServeActs r checked .v5_14_0 [] none
  | generic {ret : U32} {acts : List RequestAct} {result : Option Int} :
      r.noOfArgs ≤ MAX_QCOM_SCM_ARGS → ReplyActs ret checked acts result →
      ServeActs r checked .v5_14_0 (.secured ret :: acts) result
  | refused {ret : Int} {acts : List RequestAct} : DispatchActs r acts (some (.error ret)) →
      ServeActs r checked .other acts (some ret)
  | dispatched {ret : U32} {acts acts' : List RequestAct} {result : Option Int} :
      DispatchActs r acts (some (.ok ret)) → ReplyActs ret checked acts' result →
      ServeActs r checked .other (acts ++ acts') result

theorem serveRequest_acts (build : Build) (widths : Widths) (stack : Stack) (d : ScmHandShake)
    (checked : Int) : (serveRequest build widths stack d checked).Shows requestObserver
      (ServeActs d checked build) := by
  cases build with
  | other =>
      refine shows_bind (dispatch_acts widths d stack.res) ?_ ?_
      · intro acts value hacts
        cases value with
        | error ret =>
            refine shows_pure ?_
            rw [List.append_nil]
            exact .refused hacts
        | ok served =>
            exact (copyResults_shows _ _ _).mono fun acts' result hreply =>
              .dispatched hacts hreply
      · intro acts hacts
        cases hacts
  | v5_14_0 =>
      show (genericCall stack d >>= fun served => copyResults served.1 served.2 checked).Shows _ _
      unfold genericCall
      by_cases hargs : d.noOfArgs > MAX_QCOM_SCM_ARGS
      · rw [if_pos hargs]
        exact @shows_halt _ _ _ _ _ _ (inferInstanceAs (IsEmpty Empty)) _ _ (.overrun hargs)
      · rw [if_neg hargs]
        refine shows_act (fun answer => .secured answer.1) (fun _ => rfl) fun answer _ => ?_
        exact (copyResults_shows _ _ _).mono fun acts' result hreply =>
          .generic (Nat.not_lt.mp hargs) hreply

/-! ## The whole request -/

/-- The acts of a request that is copied in, with the value returned. -/
inductive RequestActs (build : Build) (r : ScmHandShake) :
    List RequestAct → Option Int → Prop where
  | crashed {acts : List RequestAct} : CheckActs r acts none → RequestActs build r acts none
  | refused {acts : List RequestAct} {ret : Int} : CheckActs r acts (some (.error ret)) →
      RequestActs build r acts (some ret)
  | served {acts acts' : List RequestAct} {checked : Int} {result : Option Int} :
      CheckActs r acts (some (.ok checked)) → ServeActs r checked build acts' result →
      RequestActs build r (acts ++ acts') result

/-- What is asked for is not changed by the translation. -/
theorem ServeActs.of_translates {d : ScmHandShake} {checked : Int} {result : Option Int}
    (h : ServeActs d checked build acts result) (hd : Translates r d) :
    ServeActs r checked build acts result := by
  obtain ⟨args, rfl⟩ := hd
  cases h with
  | overrun hargs => exact .overrun hargs
  | generic hargs hreply => exact .generic hargs hreply
  | refused hdispatch =>
      cases hdispatch with
      | unremapped hw => exact .refused (.unremapped hw)
  | dispatched hdispatch hreply =>
      refine .dispatched ?_ hreply
      cases hdispatch with
      | undispatched hw => exact .undispatched hw
      | image _ hw => exact .image _ hw
      | wrapper w _ hw himage => exact .wrapper w _ hw himage

/-- The ioctl once a request is copied in. -/
def answerRequest (build : Build) (widths : Widths) (stack : Stack) (r : ScmHandShake) :
    ScmProg Int := do
  match ← checkRequest stack r with
  | .error ret => return ret
  | .ok (d, ret) => serveRequest build widths stack d ret

theorem scmIoctl_eq : scmIoctl build widths stack SCM_HAND_SHAKE_IOCTL =
    .call .copyFromUser fun copied => match copied with
      | some r => answerRequest build widths stack r
      | none => pure (-EFAULT) := by
  unfold scmIoctl fetchRequest
  rw [if_neg (by simp)]
  refine congrArg (Program.call ScmCall.copyFromUser) (funext fun copied => ?_)
  cases copied <;> rfl

/-- What a request does. -/
theorem scmIoctl_requestActs {rest : List (Event ScmCall)} {result : Option Int}
    (h : Runs (scmIoctl build widths stack SCM_HAND_SHAKE_IOCTL)
      (⟨.copyFromUser, some r⟩ :: rest) result) :
    RequestActs build r (requestObserver.actions rest) result := by
  rw [scmIoctl_eq] at h
  cases h with
  | call _ hrest =>
      have hshows : (answerRequest build widths stack r).Shows requestObserver
          (RequestActs build r) := by
        refine shows_bind (checkRequest_shows stack r) ?_ fun acts hacts => .crashed hacts.1
        intro acts value hacts
        cases value with
        | error ret =>
            refine shows_pure ?_
            rw [List.append_nil]
            exact .refused hacts.1
        | ok pair =>
            obtain ⟨d, checked⟩ := pair
            refine (serveRequest_acts build widths stack d checked).mono ?_
            intro acts' result hserve
            exact .served hacts.1 (hserve.of_translates (hacts.2 d checked rfl))
      exact hshows.exec requestObserver_admits hrest

/-! ## The value returned -/

/-- An act that belongs to the secure call or the reply. -/
def RequestAct.isLate : RequestAct → Bool
  | .remapped _ | .secured _ | .copiedOut _ => true
  | .found _ | .notFound | .attached _ _ | .unattached | .mapped _ _ | .unmappable | .unmapped _
  | .detached _ | .put _ => false

theorem PaActs.early {dmaBuf : Nat} {pa : Option (Except Int U64)} (h : PaActs dmaBuf acts pa) :
    ∀ act ∈ acts, act.isLate = false := by
  cases h <;> simp [RequestAct.isLate]

theorem LoopActs.early {positions : List U32} {last : Option Nat}
    {result : Option (Except Int (Option Nat))} (h : LoopActs positions last acts result) :
    ∀ act ∈ acts, act.isLate = false := by
  induction h with
  | nil => exact nofun
  | notFound => simp [RequestAct.isLate]
  | crash hpa => exact List.forall_mem_cons.mpr ⟨rfl, hpa.early⟩
  | broken hpa => exact List.forall_mem_cons.mpr ⟨rfl, hpa.early⟩
  | next hpa _ ih =>
      exact List.forall_mem_cons.mpr ⟨rfl, List.forall_mem_append.mpr ⟨hpa.early, ih⟩⟩

theorem CheckActs.early {result : Option (Except Int Int)} (h : CheckActs r acts result) :
    ∀ act ∈ acts, act.isLate = false := by
  cases h with
  | rejected | plain => exact nofun
  | translated _ _ htranslate =>
      cases htranslate with
      | crash hloop => exact hloop.early
      | error hloop => exact hloop.early
      | @ok before last hloop =>
          refine List.forall_mem_append.mpr ⟨hloop.early, ?_⟩
          cases last <;> simp [RequestAct.isLate]

theorem ReplyActs.late {ret : U32} {checked : Int} {result : Option Int}
    (h : ReplyActs ret checked acts result) : ∀ act ∈ acts, act.isLate = true := by
  cases h <;> simp [RequestAct.isLate]

theorem DispatchActs.late {passed : Option (Except Int U32)} (h : DispatchActs r acts passed) :
    ∀ act ∈ acts, act.isLate = true := by
  cases h <;> simp [RequestAct.isLate]

theorem ServeActs.late {checked : Int} {result : Option Int}
    (h : ServeActs r checked build acts result) : ∀ act ∈ acts, act.isLate = true := by
  cases h with
  | overrun => exact nofun
  | generic _ hreply => exact List.forall_mem_cons.mpr ⟨rfl, hreply.late⟩
  | refused hdispatch => exact hdispatch.late
  | dispatched hdispatch hreply =>
      exact List.forall_mem_append.mpr ⟨hdispatch.late, hreply.late⟩

theorem LoopActs.error_neg {positions : List U32} {last : Option Nat} {ret : Int}
    (h : LoopActs positions last acts (some (.error ret))) : ret < 0 := by
  generalize hresult : some (Except.error ret) = result at h
  induction h with
  | nil | crash => cases hresult
  | notFound | broken =>
      cases hresult
      decide
  | next _ _ ih => exact ih hresult

/-- The checks fail with a negative value. -/
theorem CheckActs.error_neg {ret : Int} (h : CheckActs r acts (some (.error ret))) : ret < 0 := by
  generalize hresult : some (Except.error ret) = result at h
  cases h with
  | rejected =>
      cases hresult
      decide
  | plain => cases hresult
  | translated _ _ htranslate =>
      cases htranslate with
      | crash | ok => cases hresult
      | error hloop =>
          cases hresult
          exact hloop.error_neg

theorem wrapperOf_translated (h : NeedsTranslation r) : wrapperOf r.svc r.cmd = some .sheOp := by
  rw [h.1, h.2]
  rfl

/-- A negative error number. -/
def IsErrno (ret : U32) : Prop := -4095 ≤ ret.toInt ∧ ret.toInt < 0

instance (ret : U32) : Decidable (IsErrno ret) := inferInstanceAs (Decidable (_ ∧ _))

/-- The value tells how the secure call went: a negative errno is handed on, and a value that is
not negative means that the call returned 0 and the reply was copied out. -/
def Truthful (acts : List RequestAct) (value : Int) : Prop :=
  (∀ ret, .secured ret ∈ acts → IsErrno ret → value = ret.toInt) ∧
    (0 ≤ value → .secured 0 ∈ acts ∧ .copiedOut true ∈ acts)

/-- When the value returned is truthful: no secure call fails, and a request that the dispatch has
no case for brings a `ret` of 0 and is refused or not copied out. -/
def ReplyFits (build : Build) (r : ScmHandShake) (acts : List RequestAct) : Prop :=
  (∀ ret, .secured ret ∈ acts → ret = 0) ∧
    (build = .other → wrapperOf r.svc r.cmd = none →
      r.ret = 0 ∧ (MAX_QCOM_SCM_ARGS < r.noOfArgs ∨ .copiedOut false ∈ acts))

variable {ret : U32} {checked : Int} {result : Option Int}

theorem ReplyActs.not_secured (h : ReplyActs ret checked acts result) (ret' : U32) :
    .secured ret' ∉ acts := by
  cases h <;> simp

/-- After a secure call the value is truthful if the call returned 0. -/
theorem ReplyActs.truthful_iff (h : ReplyActs ret checked acts result)
    (hbefore : ∀ ret', .secured ret' ∉ acts') :
    (∀ value, result = some value → Truthful (acts' ++ .secured ret :: acts) value) ↔
      ∀ ret', .secured ret' ∈ acts' ++ .secured ret :: acts → ret' = 0 := by
  have hmem (ret' : U32) : .secured ret' ∈ acts' ++ .secured ret :: acts ↔ ret' = ret := by
    simp [hbefore ret', h.not_secured ret']
  simp only [Truthful, hmem, forall_eq]
  cases h with
  | failed hret =>
      -- The value is `ret` without its sign, so it is not negative.
      refine iff_of_false (fun h => ?_) hret
      have hzero : (0 : U32) = ret := ((h _ rfl).2 (Int.natCast_nonneg _)).1
      exact hret hzero.symm
  | copied ok hret =>
      refine iff_of_true ?_ hret
      intro value hvalue
      cases hvalue
      constructor
      · intro herrno
        rw [hret] at herrno
        exact absurd herrno.2 (by decide)
      · intro hvalue
        refine ⟨hret.symm, ?_⟩
        cases ok with
        | true => simp
        | false => exact absurd hvalue (show ¬ (0 : Int) ≤ -EFAULT by decide)

/-- Without a secure call the value is truthful if it is negative. -/
theorem truthful_iff_neg (h : ∀ ret, .secured ret ∉ acts) (value : Int) :
    Truthful acts value ↔ value < 0 := by
  constructor
  · intro htruthful
    by_contra hvalue
    exact h 0 (htruthful.2 (Int.not_lt.mp hvalue)).1
  · intro hvalue
    exact ⟨fun ret hret => absurd hret (h ret), fun hle => absurd hvalue (Int.not_lt.mpr hle)⟩

/-- The value returned for a request that the dispatch has no case for. -/
theorem ReplyActs.undispatched_iff (h : ReplyActs r.ret checked acts result)
    (hbefore : ∀ act ∈ acts', act.isLate = false)
    (hchecked : checked = if r.noOfArgs > MAX_QCOM_SCM_ARGS then -EINVAL else 0) :
    (∀ value, result = some value → Truthful (acts' ++ acts) value) ↔
      r.ret = 0 ∧ (MAX_QCOM_SCM_ARGS < r.noOfArgs ∨ .copiedOut false ∈ acts' ++ acts) := by
  have hsecured (ret : U32) : .secured ret ∉ acts' ++ acts := by
    rw [List.mem_append]
    exact fun hmem => hmem.elim (fun hmem => nomatch hbefore _ hmem) (h.not_secured ret)
  have hcopied : .copiedOut false ∉ acts' := fun hmem => nomatch hbefore _ hmem
  simp only [truthful_iff_neg hsecured]
  cases h with
  | failed hret =>
      refine iff_of_false (fun h => ?_) fun h => hret h.1
      exact absurd (h _ rfl) (Int.not_lt.mpr (Int.natCast_nonneg _))
  | copied ok hret =>
      simp only [hret, true_and, Option.some.injEq, forall_eq', List.mem_append, hcopied,
        false_or, List.mem_singleton, RequestAct.copiedOut.injEq]
      cases ok with
      | true =>
          rw [if_pos rfl, hchecked]
          split_ifs with hargs
          · exact iff_of_true (by decide) (.inl hargs)
          · exact iff_of_false (by decide) fun h => h.elim hargs nofun
      | false => exact iff_of_true (show -EFAULT < 0 by decide) (.inr rfl)

/-- The value returned for a request that is served. -/
theorem ServeActs.truthful_iff (h : ServeActs r checked build acts result)
    (hbefore : ∀ act ∈ acts', act.isLate = false)
    (hchecked : ¬ NeedsTranslation r →
      checked = if r.noOfArgs > MAX_QCOM_SCM_ARGS then -EINVAL else 0) :
    (∀ value, result = some value → Truthful (acts' ++ acts) value) ↔
      ReplyFits build r (acts' ++ acts) := by
  have hsecured (ret : U32) : .secured ret ∉ acts' := fun hmem => nomatch hbefore _ hmem
  cases h with
  | overrun =>
      rw [List.append_nil]
      exact iff_of_true nofun ⟨fun ret hmem => absurd hmem (hsecured ret), nofun⟩
  | generic _ hreply =>
      rw [hreply.truthful_iff hsecured]
      exact ⟨fun hzero => ⟨hzero, nofun⟩, fun hfits => hfits.1⟩
  | refused hdispatch =>
      cases hdispatch with
      | unremapped hw =>
          have hnone (ret : U32) : .secured ret ∉ acts' ++ [.remapped false] := by
            simp [hsecured ret]
          simp only [truthful_iff_neg hnone, Option.some.injEq, forall_eq']
          refine iff_of_true (by decide) ⟨fun ret hmem => absurd hmem (hnone ret), ?_⟩
          rw [hw]
          exact nofun
  | @dispatched ret _ tail _ hdispatch hreply =>
      cases hdispatch with
      | undispatched hw =>
          have hplain : ¬ NeedsTranslation r := by
            intro hneeds
            rw [wrapperOf_translated hneeds] at hw
            cases hw
          rw [List.nil_append, hreply.undispatched_iff hbefore (hchecked hplain)]
          refine ⟨fun hfits => ⟨?_, fun _ _ => hfits⟩, fun hfits => hfits.2 rfl hw⟩
          intro ret hmem
          rw [List.mem_append] at hmem
          exact absurd hmem (not_or.mpr ⟨hsecured ret, hreply.not_secured ret⟩)
      | image _ hw =>
          have hremapped (ret : U32) : .secured ret ∉ acts' ++ [.remapped true] := by
            simp [hsecured ret]
          have hassoc : acts' ++ ([.remapped true, .secured ret] ++ tail) =
              acts' ++ [.remapped true] ++ .secured ret :: tail := by simp
          rw [hassoc, hreply.truthful_iff hremapped]
          exact ⟨fun hzero => ⟨hzero, fun _ hnone => by rw [hw] at hnone; cases hnone⟩,
            fun hfits => hfits.1⟩
      | wrapper w _ hw =>
          rw [List.singleton_append, hreply.truthful_iff hsecured]
          exact ⟨fun hzero => ⟨hzero, fun _ hnone => by rw [hw] at hnone; cases hnone⟩,
            fun hfits => hfits.1⟩

/-- A request that passes the checks leaves an error in `ret` only for too many arguments. -/
theorem CheckActs.checked_eq (h : CheckActs r acts (some (.ok checked)))
    (hplain : ¬ NeedsTranslation r) :
    checked = if r.noOfArgs > MAX_QCOM_SCM_ARGS then -EINVAL else 0 := by
  generalize hok : some (Except.ok checked) = passed at h
  cases h with
  | rejected => cases hok
  | plain =>
      cases hok
      rfl
  | translated _ hneeds => exact absurd hneeds hplain

/-- A validated request that is not served needed a translation. -/
theorem CheckActs.needsTranslation {passed : Option (Except Int Int)} (h : CheckActs r acts passed)
    (hvalid : validateSvcCmd r.svc r.cmd = true)
    (hpassed : ∀ checked, passed ≠ some (.ok checked)) :
    NeedsTranslation r := by
  cases h with
  | rejected hinvalid => exact absurd hvalid (by simp [hinvalid])
  | plain => exact absurd rfl (hpassed _)
  | translated _ hneeds => exact hneeds

/-- A validated request that is not served meets the condition. -/
theorem CheckActs.replyFits {passed : Option (Except Int Int)} (h : CheckActs r acts passed)
    (hvalid : validateSvcCmd r.svc r.cmd = true)
    (hpassed : ∀ checked, passed ≠ some (.ok checked)) :
    ReplyFits build r acts := by
  refine ⟨fun ret hmem => absurd (h.early _ hmem) nofun, ?_⟩
  rw [wrapperOf_translated (h.needsTranslation hvalid hpassed)]
  exact nofun

/-- The value the ioctl returns for a validated request is truthful exactly under its
condition. -/
theorem scmIoctl_truthful_iff {rest : List (Event ScmCall)}
    (h : Runs (scmIoctl build widths stack SCM_HAND_SHAKE_IOCTL)
      (⟨.copyFromUser, some r⟩ :: rest) result)
    (hvalid : validateSvcCmd r.svc r.cmd = true) :
    (∀ value, result = some value → Truthful (requestObserver.actions rest) value) ↔
      ReplyFits build r (requestObserver.actions rest) := by
  have hacts := scmIoctl_requestActs h
  generalize requestObserver.actions rest = acts at hacts
  cases hacts with
  | crashed hcheck => exact iff_of_true nofun (hcheck.replyFits hvalid nofun)
  | refused hcheck =>
      refine iff_of_true ?_ (hcheck.replyFits hvalid nofun)
      intro value hvalue
      cases hvalue
      exact (truthful_iff_neg (fun ret hmem => absurd (hcheck.early _ hmem) nofun) _).mpr
        hcheck.error_neg
  | served hcheck hserve => exact hserve.truthful_iff hcheck.early hcheck.checked_eq

/-- A request for `QCOM_SCM_PIL_PAS_SHUTDOWN` with one argument. -/
def shutdownRequest : ScmHandShake :=
  plainRequest QCOM_SCM_SVC_PIL QCOM_SCM_PIL_PAS_SHUTDOWN 1

/-- Its secure call on kernel 5.14.0, with its return value. -/
def shutdownCall (ret : U32) : Event ScmCall :=
  ⟨.qcomScmCall ⟨QCOM_SCM_SVC_PIL, QCOM_SCM_PIL_PAS_SHUTDOWN, 1, Vector.replicate 10 0⟩,
    (ret, none)⟩

theorem scmIoctl_truthful_shutdown :
    ∃ rest result, Runs (scmIoctl .v5_14_0 (fun _ _ => 64) zeroStack SCM_HAND_SHAKE_IOCTL)
        (⟨.copyFromUser, some shutdownRequest⟩ :: rest) result ∧
      ((∀ value, result = some value → Truthful (requestObserver.actions rest) value) ↔
        ReplyFits .v5_14_0 shutdownRequest (requestObserver.actions rest)) := by
  have hruns : Runs (scmIoctl .v5_14_0 (fun _ _ => 64) zeroStack SCM_HAND_SHAKE_IOCTL)
      (⟨.copyFromUser, some shutdownRequest⟩ :: [shutdownCall 0,
        ⟨.copyToUser shutdownRequest, true⟩]) (some 0) :=
    .call rfl (.call rfl (.call rfl (.ret _ _)))
  exact ⟨_, _, hruns, scmIoctl_truthful_iff hruns (by decide)⟩

/-- A secure call that fails with -EINVAL makes the ioctl return 4294967274. -/
theorem scmIoctl_not_truthful :
    ¬ ∀ (build : Build) (widths : Widths) (stack : Stack) (r : ScmHandShake)
      (rest : List (Event ScmCall)) (result : Option Int),
      Runs (scmIoctl build widths stack SCM_HAND_SHAKE_IOCTL)
        (⟨.copyFromUser, some r⟩ :: rest) result →
      validateSvcCmd r.svc r.cmd = true →
      ∀ value, result = some value → Truthful (requestObserver.actions rest) value := by
  intro h
  have hruns : Runs (scmIoctl .v5_14_0 (fun _ _ => 64) zeroStack SCM_HAND_SHAKE_IOCTL)
      (⟨.copyFromUser, some shutdownRequest⟩ :: [shutdownCall 0xFFFFFFEA]) (some 4294967274) :=
    .call rfl (.call rfl (.ret _ _))
  have htruthful := h _ _ _ _ _ _ hruns (by decide) _ rfl
  have hvalue := htruthful.1 0xFFFFFFEA (List.mem_singleton.mpr rfl) (by decide)
  exact absurd hvalue (by decide)

end SafeLinux.ScmIntf
