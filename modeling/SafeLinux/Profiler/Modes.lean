import SafeLinux.Profiler.Driver

/-!
# The structure of a request

The two GET ioctls differ in the structure of the request. Each writes to one global flag which of
the two is its own and reads the flag again wherever the structures differ, so a request of the
other ioctl that writes the flag in between changes the structure. `Faithful` is a program that uses
its own structure as long as it reads what its ioctl has written; when no request writes the flag
while one of the other ioctl has it to read, every request does (`ownStructures_keepsModes`).
-/

namespace SafeLinux.Profiler

open Effects
open Effects.Program (perform Only)

variable {τ γ α β : Type} {m : Bool}

/-! ## Structures -/

/-- What the ioctl of a request writes to `bw_profiling_disabled`. -/
def ProfilerIoctl.mode? : ProfilerIoctl → Option Bool
  | .getBwInfo => some false
  | .getBwInfoBc => some true
  | _ => none

/-- The size of the structure of a mode. -/
def structSize (m : Bool) : Nat := if m then BW_CNTRS_REQ_M_SIZE else BW_CNTRS_REQ_SIZE

/-- A call that copies only the structure of a mode and reads only what was copied. -/
def UsesOwn (m : Bool) : (β : Type) → ProfilerCall β → Prop
  | _, .copyFromUser size | _, .copyToUser size => size = structSize m
  | _, .uninitialised => False
  | _, _ => True

/-- The next call of a program, if there is one, is of a kind. -/
def NextIs (kind : (β : Type) → ProfilerCall β → Prop) : ProfilerProg α → Prop
  | .ret _ => True
  | .call request _ => kind _ request

/-- Every request that is about to copy a structure copies that of its own ioctl, and none is about
to read a structure that was not copied. -/
def OwnStructures (P : ProfilerPool τ γ) : Prop :=
  ∀ t cmd m p, P.running t = some (.ioctl cmd, p) → cmd.mode? = some m → NextIs (UsesOwn m) p

/-- A call that does not read the flag. -/
def Unread : (β : Type) → ProfilerCall β → Prop
  | _, .readBwProfilingDisabled => False
  | _, _ => True

/-- The condition that the flag is written only while no request of the other ioctl has it to read:
each has not written it yet, or will not read it again. -/
def KeepsModes (P : ProfilerPool τ γ) : ProfilerMove τ → Prop
  | .call t ⟨.writeBwProfilingDisabled value, _⟩ => ∀ u cmd m p, u ≠ t →
      P.running u = some (.ioctl cmd, p) → cmd.mode? = some m →
        m = value ∨ p = profilerIoctl cmd ∨ p.Only Unread
  | _ => True

/-! ## Programs that use their own structure -/

/-- An answer that a request of a mode gets as long as the flag is what it wrote. -/
def AsWritten (m : Bool) : (β : Type) → ProfilerCall β → β → Prop
  | _, .readBwProfilingDisabled, answer => answer = m
  | _, _, _ => True

/-- A call that leaves the flag. -/
def Unwritten : (β : Type) → ProfilerCall β → Prop
  | _, .writeBwProfilingDisabled _ => False
  | _, _ => True

/-- A program that uses the structure of a mode as long as it reads this mode, and leaves the
flag. -/
inductive Faithful (m : Bool) : ProfilerProg α → Prop where
  | ret (value : α) : Faithful m (.ret value)
  | call {β : Type} {request : ProfilerCall β} {next : β → ProfilerProg α} :
      UsesOwn m β request → Unwritten β request →
      (∀ answer, AsWritten m β request answer → Faithful m (next answer)) →
      Faithful m (.call request next)

namespace Faithful

theorem pure (value : α) : Faithful m (Pure.pure value : ProfilerProg α) := .ret value

theorem bind {p : ProfilerProg β} {rest : β → ProfilerProg α} (h : Faithful m p)
    (hrest : ∀ value, Faithful m (rest value)) : Faithful m (p >>= rest) := by
  induction h with
  | ret value => exact hrest value
  | call hown hunwritten _ ih => exact .call hown hunwritten ih

/-- The rule for a call and what follows it. -/
theorem «then» {request : ProfilerCall β} {rest : β → ProfilerProg α} (hown : UsesOwn m β request)
    (hunwritten : Unwritten β request)
    (hrest : ∀ answer, AsWritten m β request answer → Faithful m (rest answer)) :
    Faithful m (perform request >>= rest) := .call hown hunwritten hrest

/-- The rule for a call that does not depend on the mode. -/
theorem step {request : ProfilerCall β} {rest : β → ProfilerProg α} (hown : UsesOwn m β request)
    (hunwritten : Unwritten β request) (hrest : ∀ answer, Faithful m (rest answer)) :
    Faithful m (perform request >>= rest) := .call hown hunwritten fun answer _ => hrest answer

end Faithful

theorem faithful_bwProfilingCommand (req : TzBwSvcBuf) : Faithful m (bwProfilingCommand req) := by
  unfold bwProfilingCommand
  refine .bind (.step trivial trivial fun bwShm => ?_) fun result => ?_
  · cases bwShm with
    | error errno => exact .step trivial trivial fun _ => .pure _
    | ok bwShm =>
        refine .step trivial trivial fun _ => .bind ?_ fun _ => .step trivial trivial fun _ =>
          .step trivial trivial fun _ => .step trivial trivial fun _ => .pure _
        split
        · exact .call trivial trivial fun answer _ => .ret answer
        · exact .pure _
  · obtain ⟨ret, rsp⟩ := result
    dsimp only
    split
    · exact .pure _
    · exact .pure _

theorem faithful_bwGetCommand (bwbuf : TzBwSvcBuf) (bufShm : QteeShm) (bufsize : Nat)
    (type : U32) : Faithful m (bwGetCommand bwbuf bufShm bufsize type) :=
  .step trivial trivial fun _ => faithful_bwProfilingCommand _

/-- The older structure is that of the mode in which the flag is set. -/
theorem faithful_bwProfilingGetM (bwbuf : TzBwSvcBuf) :
    Faithful true (bwProfilingGetM bwbuf) := by
  unfold bwProfilingGetM
  refine .step trivial trivial fun bufShm => ?_
  cases bufShm with
  | error errno => exact .step trivial trivial fun _ => .pure _
  | ok bufShm =>
      refine .bind (faithful_bwGetCommand _ _ _ _) fun result => ?_
      dsimp only
      split
      · exact .step trivial trivial fun _ => .pure _
      · exact .step trivial trivial fun _ => .step rfl trivial fun _ =>
          .step trivial trivial fun _ => .pure _

theorem faithful_bwProfilingGetCounters (bwbuf : TzBwSvcBuf) :
    Faithful false (bwProfilingGetCounters bwbuf) := by
  unfold bwProfilingGetCounters
  refine .step trivial trivial fun bufShm => ?_
  cases bufShm with
  | error errno => exact .step trivial trivial fun _ => .pure _
  | ok bufShm =>
      refine .bind (faithful_bwGetCommand _ _ _ _) fun result => ?_
      dsimp only
      split
      · exact .step trivial trivial fun _ => .pure _
      · refine .step trivial trivial fun _ => .step trivial trivial fun _ =>
          .step trivial trivial fun _ => .step trivial trivial fun again => ?_
        cases again with
        | error errno => exact .step trivial trivial fun _ => .pure _
        | ok again =>
            refine .bind (faithful_bwGetCommand _ _ _ _) fun result => ?_
            split
            · exact .step trivial trivial fun _ => .pure _
            · exact .step trivial trivial fun _ => .step rfl trivial fun _ =>
                .step trivial trivial fun _ => .pure _

theorem faithful_bwProfilingGet (bwbuf : TzBwSvcBuf) : Faithful m (bwProfilingGet bwbuf) := by
  refine .then trivial trivial fun disabled hdisabled => ?_
  obtain rfl : disabled = m := hdisabled
  cases disabled with
  | true => exact faithful_bwProfilingGetM _
  | false => exact faithful_bwProfilingGetCounters _

theorem faithful_bwDispatch (req : BwCntrsReq) (bwEnableFlags : U32) :
    Faithful m (bwDispatch req bwEnableFlags) := by
  unfold bwDispatch
  split
  · exact .bind (faithful_bwProfilingCommand _) fun _ => .pure _
  · split
    · exact faithful_bwProfilingGet _
    · split
      · exact .bind (faithful_bwProfilingCommand _) fun _ => .pure _
      · exact .pure _

/-- A GET request that reads the mode of its ioctl throughout uses its own structure. -/
theorem faithful_profilerGetBwInfo : Faithful m profilerGetBwInfo := by
  refine .then trivial trivial fun copiedM hcopiedM => ?_
  obtain rfl : copiedM = m := hcopiedM
  refine .step (by cases copiedM <;> rfl) trivial fun copied => ?_
  cases copied with
  | error ret => exact .pure _
  | ok copied =>
      refine .step trivial trivial fun allocated => ?_
      cases allocated with
      | false => exact .pure _
      | true =>
          refine .then trivial trivial fun readM hreadM => ?_
          -- The mode is the one that was copied, so nothing uninitialised is read.
          obtain rfl : readM = copiedM := hreadM
          dsimp only
          rw [if_pos rfl]
          exact .bind (.pure _) fun req => .bind (faithful_bwDispatch req _) fun ret =>
            .step trivial trivial fun _ => .pure ret

/-! ## Every interleaving -/

/-- A request has not written the flag yet, or it uses its own structure as long as it reads its
mode, and the flag has this mode or will not be read by it. -/
def OnCourse (cmd : ProfilerIoctl) (m : Bool) (p : ProfilerProg Int) (flag : Bool) : Prop :=
  p = profilerIoctl cmd ∨ Faithful m p ∧ (flag = m ∨ p.Only Unread)

/-- Every request is on course. -/
def AllOnCourse (P : ProfilerPool τ γ) : Prop :=
  ∀ t cmd m p, P.running t = some (.ioctl cmd, p) → cmd.mode? = some m →
    OnCourse cmd m p P.shared.bwProfilingDisabled

variable {client : τ → γ} {P : ProfilerPool τ γ} {cmd : ProfilerIoctl}

/-- A GET request first writes its mode. -/
theorem profilerIoctl_eq (hmode : cmd.mode? = some m) :
    profilerIoctl cmd = .call (.writeBwProfilingDisabled m) fun _ => profilerGetBwInfo := by
  cases cmd with
  | getBwInfo | getBwInfoBc =>
      cases hmode
      rfl
  | setOffsets | deviceInit | other => cases hmode

theorem OnCourse.nextIs {p : ProfilerProg Int} {flag : Bool} (hmode : cmd.mode? = some m)
    (h : OnCourse cmd m p flag) : NextIs (UsesOwn m) p := by
  rcases h with rfl | ⟨hfaithful, _⟩
  · rw [profilerIoctl_eq hmode]
    trivial
  · cases hfaithful with
    | ret => trivial
    | call hown _ _ => exact hown

/-- What the calls do to the flag. -/
theorem flag_step {c : γ} {request : ProfilerCall β} {answer : β} {s s' : State γ}
    (h : (profiler c).step request s answer = some s') :
    (AsWritten s.bwProfilingDisabled β request answer ∧
      s'.bwProfilingDisabled = s.bwProfilingDisabled) ∨
    ∃ value, (⟨request, answer⟩ : Event ProfilerCall) = ⟨.writeBwProfilingDisabled value, ()⟩ ∧
      s'.bwProfilingDisabled = value := by
  cases request with
  | writeBwProfilingDisabled value =>
      cases h
      exact .inr ⟨value, rfl, rfl⟩
  | readBwProfilingDisabled =>
      simp only [profiler, Option.ite_none_right_eq_some, Option.some.injEq] at h
      obtain ⟨hanswer, rfl⟩ := h
      exact .inl ⟨hanswer, rfl⟩
  | mutexTrylock =>
      simp only [profiler] at h
      split at h <;> cases h <;> exact .inl ⟨trivial, rfl⟩
  | clkPrepareEnable =>
      simp only [profiler] at h
      split at h <;> cases h <;> exact .inl ⟨trivial, rfl⟩
  | _ =>
      cases h
      exact .inl ⟨trivial, rfl⟩

/-- A call of a request on course keeps it on course. -/
theorem OnCourse.call {c : γ} {request : ProfilerCall β} {next : β → ProfilerProg Int} {answer : β}
    {s s' : State γ} (hmode : cmd.mode? = some m)
    (h : OnCourse cmd m (.call request next) s.bwProfilingDisabled)
    (hcall : (profiler c).step request s answer = some s') :
    OnCourse cmd m (next answer) s'.bwProfilingDisabled := by
  refine .inr ?_
  rcases h with hstart | ⟨hfaithful, hflag⟩
  · rw [profilerIoctl_eq hmode] at hstart
    cases hstart
    cases hcall
    exact ⟨faithful_profilerGetBwInfo, .inl rfl⟩
  · cases hfaithful with
    | call _ hunwritten hnext =>
        obtain ⟨hanswer, hkept⟩ | ⟨value, hwrite, _⟩ := flag_step hcall
        · rw [hkept]
          refine hflag.elim (fun hflag => ?_) fun hunread => ?_
          · exact ⟨hnext answer (hflag ▸ hanswer), .inl hflag⟩
          · cases hunread with
            | call hkind hrest =>
                refine ⟨hnext answer ?_, .inr (hrest answer)⟩
                cases request with
                | readBwProfilingDisabled => exact hkind.elim
                | _ => trivial
        · cases hwrite
          exact hunwritten.elim

section

variable [DecidableEq τ] [DecidableEq γ] {t : τ} {i : Job} {p : ProfilerProg Int} {s : State γ}

/-- What a job does when it returns leaves the flag. -/
theorem resume_flag : ((profilerSystem client).resume P.running t i p s).shared.bwProfilingDisabled =
    s.bwProfilingDisabled := by
  cases p with
  | ret value =>
      show (finishes client t i value s).bwProfilingDisabled = _
      unfold finishes
      split <;> rfl
  | call request next => rfl

/-- A step that the condition admits keeps all requests on course. -/
theorem AllOnCourse.step {P' : ProfilerPool τ γ} {move : ProfilerMove τ} (h : AllOnCourse P)
    (hstep : (profilerSystem client).Step P move P') (hok : KeepsModes P move) :
    AllOnCourse P' := by
  intro u cmd m q hrunning hmode
  cases hstep with
  | @start t i s hidle hstart =>
      rw [resume_flag]
      have hflag : s.bwProfilingDisabled = P.shared.bwProfilingDisabled := by
        cases i with
        | «open» => rw [hstart.2.2]
        | ioctl => rw [hstart.2]
        | release => rw [hstart.2.2]
      rw [hflag]
      obtain ⟨rfl, hjob, rfl, _⟩ | ⟨_, hbefore⟩ := System.resume_running_cases hrunning
      · cases hjob
        exact .inl rfl
      · exact h u cmd m q hbefore hmode
  | @call t i δ request next answer s hcaller hcall =>
      rw [resume_flag]
      obtain ⟨rfl, hjob, rfl, _⟩ | ⟨hne, hbefore⟩ := System.resume_running_cases hrunning
      · cases hjob
        exact (h _ _ _ _ hcaller hmode).call hmode hcall
      · have hcourse := h u cmd m q hbefore hmode
        obtain ⟨_, hkept⟩ | ⟨value, hwrite, hwritten⟩ := flag_step hcall
        · rw [hkept]
          exact hcourse
        · -- Another request writes the flag.
          cases hwrite
          rw [hwritten]
          obtain rfl | hstart | hunread := hok u cmd m q hne hbefore hmode
          · exact hcourse.imp_right fun hfaithful => ⟨hfaithful.1, .inl rfl⟩
          · exact .inl hstart
          · exact hcourse.imp_right fun hfaithful => ⟨hfaithful.1, .inr hunread⟩

/-- In every interleaving in which no request writes the flag while one of the other ioctl has it to
read, every request uses the structure of its own ioctl. -/
theorem ownStructures_keepsModes (client : τ → γ) {P : ProfilerPool τ γ}
    (h : (profilerSystem client).Reach KeepsModes (.quiet .fresh) P) : OwnStructures P := by
  have hcourse : AllOnCourse P := by
    refine h.invariant AllOnCourse ?_ fun P move P' hcourse hstep hok => hcourse.step hstep hok
    exact fun t cmd m p hrunning => nomatch hrunning
  intro t cmd m p hrunning hmode
  exact (hcourse t cmd m p hrunning hmode).nextIs hmode

end

/-- Two threads share an open file, and one of them is about to copy its request in. -/
theorem ownStructures_keepsModes_copy : ∃ (P : ProfilerPool Bool Unit) (p : ProfilerProg Int),
    (profilerSystem fun _ => ()).Reach KeepsModes (.quiet .fresh) P ∧
      P.running false = some (.ioctl .getBwInfoBc, p) ∧ OwnStructures P := by
  have hfresh : (profilerSystem fun _ : Bool => ()).Reach KeepsModes (.quiet .fresh)
    (.quiet .fresh) := .here
  have hopened := ((hfresh.start false .open rfl ⟨rfl, fun _ _ => rfl, rfl⟩ trivial).call false
    true rfl rfl trivial).call false (0 : Int) rfl rfl trivial
  have hstarted := hopened.start false (.ioctl .getBwInfoBc) rfl ⟨rfl, rfl⟩ trivial
  have hwritten := hstarted.call false () rfl rfl (by
    intro u cmd m p hu hrunning
    cases u with
    | false => exact absurd rfl hu
    | true => cases hrunning)
  have hread := hwritten.call false true rfl rfl trivial
  exact ⟨_, _, hread, rfl, ownStructures_keepsModes _ hread⟩

/-- A request of the older structure is about to copy the newer one, after a request of the other
ioctl has written the flag. -/
theorem not_ownStructures_bothModes : ¬ ∀ P : ProfilerPool Bool Unit,
    (profilerSystem fun _ => ()).Reach Move.any (.quiet .fresh) P → OwnStructures P := by
  have hfresh : (profilerSystem fun _ : Bool => ()).Reach Move.any (.quiet .fresh)
    (.quiet .fresh) := .here
  have hopened := ((hfresh.start false .open rfl ⟨rfl, fun _ _ => rfl, rfl⟩ trivial).call false
    true rfl rfl trivial).call false (0 : Int) rfl rfl trivial
  have hwritten := (hopened.start false (.ioctl .getBwInfoBc) rfl ⟨rfl, rfl⟩ trivial).call false ()
    rfl rfl trivial
  have hother := (hwritten.start true (.ioctl .getBwInfo) rfl ⟨rfl, rfl⟩ trivial).call true ()
    rfl rfl trivial
  have hread := hother.call false false rfl rfl trivial
  intro h
  have hsize : BW_CNTRS_REQ_SIZE = BW_CNTRS_REQ_M_SIZE := h _ hread false .getBwInfoBc true _ rfl rfl
  exact absurd hsize (by decide)

end SafeLinux.Profiler
