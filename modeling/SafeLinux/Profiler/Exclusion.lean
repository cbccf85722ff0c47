import SafeLinux.Profiler.Driver

/-!
# Exclusive use of the profiler

Open takes the mutex and enables the clock, release disables the clock and gives the mutex back,
and only then sends its own STOP command. `Locked` is the invariant of the part that works: a client
in a session holds the mutex with the clock enabled, and its ioctls run only in the session. The
command of a release is sent without the mutex, so it can fall into the session of another client.
-/

namespace SafeLinux.Profiler

open Effects
open Effects.Program (perform Only)

variable {τ γ : Type}

/-- The program's next step sends a command to the secure world. -/
def SendsCommand : ProfilerProg Int → Prop
  | .call (.qcomScmDdrbwProfiler _ _) _ => True
  | _ => False

/-- Every command to the secure world is sent by a client that holds the mutex with the clock
enabled, and none is sent for a release while another client is in a session. -/
def Exclusive (client : τ → γ) (P : ProfilerPool τ γ) : Prop :=
  ∀ t i p, P.running t = some (i, p) → SendsCommand p →
    P.shared.holder = some (client t) ∧ 0 < P.shared.clock ∧
      (i = .release → ∀ c, c ≠ client t → P.shared.session c = false)

/-- The condition that the clock can be enabled, and that no release gets a buffer for its
command. -/
def StopsUnsent (P : ProfilerPool τ γ) : ProfilerMove τ → Prop
  | .call t ⟨.qteeShmbridgeAllocateShm _, .ok _⟩ => ∀ p, P.running t ≠ some (.release, p)
  | .call _ ⟨.clkPrepareEnable, ret⟩ => ret = 0
  | _ => True

/-! ## What the threads have left to do -/

/-- A call that neither takes nor gives back the mutex and the clock. -/
def IoctlCall : (β : Type) → ProfilerCall β → Prop
  | _, .mutexTrylock | _, .mutexUnlock | _, .clkPrepareEnable | _, .clkDisableUnprepare => False
  | _, _ => True

/-- A call that does not send a command either. -/
def Harmless : (β : Type) → ProfilerCall β → Prop
  | _, .mutexTrylock | _, .mutexUnlock | _, .clkPrepareEnable | _, .clkDisableUnprepare
  | _, .qcomScmDdrbwProfiler _ _ => False
  | _, _ => True

section

variable {α : Type}

theorem only_bwProfilingCommand (req : TzBwSvcBuf) : Only IoctlCall (bwProfilingCommand req) := by
  unfold bwProfilingCommand
  refine .bind (.then trivial fun bwShm => ?_) fun result => ?_
  · cases bwShm with
    | error errno => exact .then trivial fun _ => .pure _
    | ok bwShm =>
        refine .then trivial fun _ => .bind ?_ fun _ =>
          .then trivial fun _ => .then trivial fun _ => .then trivial fun _ => .pure _
        split
        · exact .perform trivial
        · exact .pure _
  · obtain ⟨ret, rsp⟩ := result
    dsimp only
    split
    · exact .pure _
    · exact .pure _

theorem only_bwProfilingStart (bwEnableFlags : U32) (bwbuf : TzBwSvcBuf) :
    Only IoctlCall (bwProfilingStart bwEnableFlags bwbuf) :=
  .bind (only_bwProfilingCommand _) fun _ => .pure _

theorem only_bwProfilingStop (bwbuf : TzBwSvcBuf) : Only IoctlCall (bwProfilingStop bwbuf) :=
  .bind (only_bwProfilingCommand _) fun _ => .pure _

theorem only_bwGetCommand (bwbuf : TzBwSvcBuf) (bufShm : QteeShm) (bufsize : Nat) (type : U32) :
    Only IoctlCall (bwGetCommand bwbuf bufShm bufsize type) :=
  .then trivial fun _ => only_bwProfilingCommand _

theorem only_bwProfilingGetM (bwbuf : TzBwSvcBuf) : Only IoctlCall (bwProfilingGetM bwbuf) := by
  unfold bwProfilingGetM
  refine .then trivial fun bufShm => ?_
  cases bufShm with
  | error errno => exact .then trivial fun _ => .pure _
  | ok bufShm =>
      refine .bind (only_bwGetCommand _ _ _ _) fun result => ?_
      dsimp only
      split
      · exact .then trivial fun _ => .pure _
      · exact .then trivial fun _ => .then trivial fun _ => .then trivial fun _ => .pure _

theorem only_bwProfilingGetCounters (bwbuf : TzBwSvcBuf) :
    Only IoctlCall (bwProfilingGetCounters bwbuf) := by
  unfold bwProfilingGetCounters
  refine .then trivial fun bufShm => ?_
  cases bufShm with
  | error errno => exact .then trivial fun _ => .pure _
  | ok bufShm =>
      refine .bind (only_bwGetCommand _ _ _ _) fun result => ?_
      dsimp only
      split
      · exact .then trivial fun _ => .pure _
      · refine .then trivial fun _ => .then trivial fun _ => .then trivial fun _ =>
          .then trivial fun again => ?_
        cases again with
        | error errno => exact .then trivial fun _ => .pure _
        | ok again =>
            refine .bind (only_bwGetCommand _ _ _ _) fun result => ?_
            split
            · exact .then trivial fun _ => .pure _
            · exact .then trivial fun _ => .then trivial fun _ => .then trivial fun _ => .pure _

theorem only_bwDispatch (req : BwCntrsReq) (bwEnableFlags : U32) :
    Only IoctlCall (bwDispatch req bwEnableFlags) := by
  unfold bwDispatch bwProfilingGet
  split
  · exact only_bwProfilingStart _ _
  · split
    · refine .then trivial fun disabled => ?_
      split
      · exact only_bwProfilingGetM _
      · exact only_bwProfilingGetCounters _
    · split
      · exact only_bwProfilingStop _
      · exact .pure _

theorem only_profilerGetBwInfo : Only IoctlCall profilerGetBwInfo := by
  unfold profilerGetBwInfo
  refine .then trivial fun copiedM => .then trivial fun copied => ?_
  cases copied with
  | error ret => exact .pure _
  | ok copied =>
      refine .then trivial fun allocated => ?_
      split
      · exact .pure _
      · have hrest : ∀ req bwEnableFlags, Only IoctlCall (do
            let ret ← bwDispatch req bwEnableFlags
            perform .kfree
            return ret : ProfilerProg Int) :=
          fun req bwEnableFlags => .bind (only_bwDispatch req bwEnableFlags) fun ret =>
            .then trivial fun _ => .pure ret
        refine .then trivial fun readM => ?_
        dsimp only
        split
        · exact .bind (.pure _) fun req => hrest req _
        · exact .then trivial fun req => hrest req _

/-- An ioctl leaves the mutex and the clock alone. -/
theorem only_profilerIoctl (cmd : ProfilerIoctl) : Only IoctlCall (profilerIoctl cmd) := by
  cases cmd with
  | getBwInfo | getBwInfoBc => exact .then trivial fun _ => only_profilerGetBwInfo
  | setOffsets | deviceInit => exact .then trivial fun _ => .pure _
  | other => exact .pure _

end

/-- An open that has taken the mutex. -/
def enableClock : ProfilerProg Int := do
  let _ ← perform .clkPrepareEnable
  return 0

/-- A release that has given the mutex back. -/
def sendStop : ProfilerProg Int := do
  if ¬ (← perform .kzalloc) then
    return -ENOMEM
  let _ ← bwProfilingStop .zeroed
  return 0

/-- A release that has disabled the clock. -/
def unlockAndStop : ProfilerProg Int := do
  perform .mutexUnlock
  sendStop

/-- A release that has its request. -/
def stopCommand : ProfilerProg Int := do
  let _ ← bwProfilingStop .zeroed
  return 0

/-- What is left of a release that has given the mutex back and gets no buffer. -/
inductive ReleaseRest : ProfilerProg Int → Prop where
  | send : ReleaseRest sendStop
  | command : ReleaseRest stopCommand
  | harmless {p : ProfilerProg Int} : Only Harmless p → ReleaseRest p

/-- What is left of a job of a client, and what the job knows of the mutex and the clock. -/
def JobAt (c : γ) (p : ProfilerProg Int) (s : State γ) : Job → Prop
  | .open => s.session c = false ∧
      (p = profilerOpen ∨ p = enableClock ∧ s.holder = some c ∧ s.clock = 0)
  | .ioctl _ => s.session c = true ∧ Only IoctlCall p
  | .release => s.session c = false ∧
      (p = profilerRelease ∧ s.holder = some c ∧ s.clock = 1 ∨
        p = unlockAndStop ∧ s.holder = some c ∧ s.clock = 0 ∨ ReleaseRest p)

/-- A job is an ioctl. -/
def Job.IsIoctl : Job → Prop
  | .ioctl _ => True
  | _ => False

/-- A client in a session holds the mutex with the clock enabled; only ioctls of one client run at
the same time; a job knows where it is. -/
structure Locked (client : τ → γ) (P : ProfilerPool τ γ) : Prop where
  jobs : ∀ t i p, P.running t = some (i, p) → JobAt (client t) p P.shared i
  alone : ∀ t u i p j q, t ≠ u → client t = client u → P.running t = some (i, p) →
    P.running u = some (j, q) → i.IsIoctl
  sessions : ∀ c, P.shared.session c = true → P.shared.holder = some c ∧ P.shared.clock = 1
  free : P.shared.holder = none → P.shared.clock = 0

theorem not_sendsCommand_of_only {p : ProfilerProg Int} (h : Only Harmless p) :
    ¬ SendsCommand p := by
  unfold SendsCommand
  split
  · cases h with
    | call hkind _ => exact fun _ => hkind
  · exact id

theorem ReleaseRest.not_sendsCommand {p : ProfilerProg Int} (h : ReleaseRest p) :
    ¬ SendsCommand p := by
  cases h with
  | send | command => exact id
  | harmless hp => exact not_sendsCommand_of_only hp

/-- A command is sent by an ioctl, and that only in a session. -/
theorem Locked.exclusive {client : τ → γ} {P : ProfilerPool τ γ} (h : Locked client P) :
    Exclusive client P := by
  intro t i p hrunning hsends
  have hjob := h.jobs t i p hrunning
  cases i with
  | «open» =>
      rcases hjob.2 with rfl | ⟨rfl, _⟩ <;> exact hsends.elim
  | ioctl cmd =>
      obtain ⟨hholder, hclock⟩ := h.sessions _ hjob.1
      exact ⟨hholder, by omega, fun hi => nomatch hi⟩
  | release =>
      rcases hjob.2 with ⟨rfl, _⟩ | ⟨rfl, _⟩ | hrest
      · exact hsends.elim
      · exact hsends.elim
      · exact absurd hsends hrest.not_sendsCommand

section

variable {client : τ → γ} {P : ProfilerPool τ γ} {t : τ} {i : Job} {p : ProfilerProg Int}

/-- Two threads of a client are in ioctls. -/
theorem Locked.both_ioctl (h : Locked client P) (hrunning : P.running t = some (i, p)) :
    ∀ u j q, u ≠ t → client u = client t → P.running u = some (j, q) → i.IsIoctl ∧ j.IsIoctl :=
  fun u j q hu hclient hu' =>
    ⟨h.alone t u i p j q (Ne.symm hu) hclient.symm hrunning hu',
      h.alone u t j q i p hu hclient hu' hrunning⟩

/-- A job that takes or gives back something is the only one of its client. -/
theorem Locked.other_client (h : Locked client P) (hrunning : P.running t = some (i, p))
    (hi : ¬ i.IsIoctl) {u : τ} {j : Job} {q : ProfilerProg Int} (hu : u ≠ t)
    (hu' : P.running u = some (j, q)) : client u ≠ client t :=
  fun hclient => hi (h.both_ioctl hrunning u j q hu hclient hu').1

end

/-! ## Steps -/

section

variable {c : γ} {s s' : State γ} {β : Type} {request : ProfilerCall β} {answer : β}

/-- A call that leaves the mutex and the clock alone. -/
theorem profiler_ioctlCall (hkind : IoctlCall β request)
    (h : (profiler c).step request s answer = some s') :
    s'.holder = s.holder ∧ s'.clock = s.clock ∧ s'.session = s.session := by
  cases request with
  | mutexTrylock | mutexUnlock | clkPrepareEnable | clkDisableUnprepare => exact hkind.elim
  | readBwProfilingDisabled =>
      simp only [profiler] at h
      split at h
      · obtain rfl := Option.some.inj h
        exact ⟨rfl, rfl, rfl⟩
      · cases h
  | writeBwProfilingDisabled _ | kzalloc | kfree | copyFromUser _ | uninitialised | copyToUser _
  | qteeShmbridgeAllocateShm _ | qteeShmbridgeFreeShm _ | qteeShmbridgeFlushShmBuf _
  | qteeShmbridgeInvShmBuf _ | qcomScmDdrbwProfiler _ _ | readResponse _ | readCounters
  | storeSettings =>
      obtain rfl := Option.some.inj h
      exact ⟨rfl, rfl, rfl⟩

/-- The mutex is taken when nobody holds it. -/
theorem profiler_mutexTrylock {answer : Bool}
    (h : (profiler c).step .mutexTrylock s answer = some s') :
    answer = true ∧ s.holder = none ∧ s' = { s with holder := some c } ∨
      answer = false ∧ s' = s := by
  simp only [profiler] at h
  split at h
  · rename_i hholder
    exact .inl ⟨rfl, hholder, (Option.some.inj h).symm⟩
  · exact .inr ⟨rfl, (Option.some.inj h).symm⟩
  · cases h

theorem IoctlCall.of_harmless (h : Harmless β request) : IoctlCall β request := by
  cases request <;> trivial

/-- What a job knows does not change with the rest of the state. -/
theorem JobAt.keep {p : ProfilerProg Int} {i : Job} (h : JobAt c p s i)
    (hsession : s'.session c = s.session c)
    (hlock : s.holder = some c → s'.holder = some c ∧ s'.clock = s.clock) : JobAt c p s' i := by
  cases i with
  | «open» =>
      refine ⟨hsession.trans h.1, h.2.imp id ?_⟩
      rintro ⟨hp, hholder, hclock⟩
      exact ⟨hp, (hlock hholder).1, (hlock hholder).2.trans hclock⟩
  | ioctl cmd => exact ⟨hsession.trans h.1, h.2⟩
  | release =>
      refine ⟨hsession.trans h.1, ?_⟩
      rcases h.2 with ⟨hp, hholder, hclock⟩ | ⟨hp, hholder, hclock⟩ | hrest
      · exact .inl ⟨hp, (hlock hholder).1, (hlock hholder).2.trans hclock⟩
      · exact .inr (.inl ⟨hp, (hlock hholder).1, (hlock hholder).2.trans hclock⟩)
      · exact .inr (.inr hrest)

end

section

variable [DecidableEq τ] [DecidableEq γ] {client : τ → γ} {P : ProfilerPool τ γ} {t : τ} {i : Job}
  {p : ProfilerProg Int} {s s' : State γ}

/-- A step of a thread keeps the invariant when its job is where it should be afterwards and it has
not disturbed the other clients. -/
theorem Locked.resume (h : Locked client P)
    (hshared : ((profilerSystem client).resume P.running t i p s).shared = s')
    (halone : ∀ u j q, u ≠ t → client u = client t → P.running u = some (j, q) →
      i.IsIoctl ∧ j.IsIoctl)
    (hjob : ∀ (β : Type) (request : ProfilerCall β) (next : β → ProfilerProg Int),
      p = .call request next → JobAt (client t) p s' i)
    (hothers : ∀ u j q, u ≠ t → P.running u = some (j, q) → JobAt (client u) q P.shared j →
      JobAt (client u) q s' j)
    (hsessions : ∀ c, s'.session c = true → s'.holder = some c ∧ s'.clock = 1)
    (hfree : s'.holder = none → s'.clock = 0) :
    Locked client ((profilerSystem client).resume P.running t i p s) := by
  have hself : ∀ j q, ((profilerSystem client).resume P.running t i p s).running t = some (j, q) →
      j = i ∧ q = p ∧ JobAt (client t) p s' i := by
    intro j q hrunning
    cases p with
    | ret value =>
        rw [System.resume_running_ret] at hrunning
        cases hrunning
    | call request next =>
        rw [System.resume_running_call] at hrunning
        cases hrunning
        exact ⟨rfl, rfl, hjob _ request next rfl⟩
  constructor
  · intro u j q hrunning
    rw [hshared]
    by_cases hu : u = t
    · subst hu
      obtain ⟨rfl, rfl, hat⟩ := hself j q hrunning
      exact hat
    · rw [System.resume_running_of_ne hu] at hrunning
      exact hothers u j q hu hrunning (h.jobs u j q hrunning)
  · intro u v j q k r huv hclient hu hv
    by_cases hut : u = t
    · subst hut
      rw [System.resume_running_of_ne (Ne.symm huv)] at hv
      obtain ⟨rfl, _⟩ := hself j q hu
      exact (halone v k r (Ne.symm huv) hclient.symm hv).1
    · rw [System.resume_running_of_ne hut] at hu
      by_cases hvt : v = t
      · subst hvt
        exact (halone u j q hut hclient hu).2
      · rw [System.resume_running_of_ne hvt] at hv
        exact h.alone u v j q k r huv hclient hu hv
  · rw [hshared]
    exact hsessions
  · rw [hshared]
    exact hfree

/-- Only an open does something when it returns. -/
theorem resume_shared (hi : i ≠ .open) :
    ((profilerSystem client).resume P.running t i p s).shared = s := by
  cases p with
  | ret value => exact if_neg fun h => hi h.1
  | call request next => rfl

/-- The start of a job. -/
theorem Locked.start (h : Locked client P)
    (hstart : starts client P t i s) :
    Locked client ((profilerSystem client).resume P.running t i i.program s) := by
  cases i with
  | «open» =>
      obtain ⟨hsession, halone, rfl⟩ := hstart
      refine h.resume rfl ?_ ?_ ?_ h.sessions h.free
      · intro u j q _ hclient hrunning
        rw [halone u hclient] at hrunning
        cases hrunning
      · exact fun _ _ _ _ => ⟨hsession, .inl rfl⟩
      · exact fun _ _ _ _ _ hat => hat
  | ioctl cmd =>
      obtain ⟨hsession, rfl⟩ := hstart
      refine h.resume (resume_shared (by simp)) ?_ ?_ ?_ h.sessions h.free
      · intro u j q _ hclient hrunning
        have hat := h.jobs u j q hrunning
        rw [hclient] at hat
        cases j with
        | ioctl cmd => exact ⟨trivial, trivial⟩
        | «open» | release => exact absurd hsession (by simp [hat.1])
      · exact fun _ _ _ _ => ⟨hsession, only_profilerIoctl cmd⟩
      · exact fun _ _ _ _ _ hat => hat
  | release =>
      obtain ⟨hsession, halone, rfl⟩ := hstart
      obtain ⟨hholder, hclock⟩ := h.sessions _ hsession
      refine h.resume (resume_shared (by simp)) ?_ ?_ ?_ ?_ h.free
      · intro u j q _ hclient hrunning
        rw [halone u hclient] at hrunning
        cases hrunning
      · exact fun _ _ _ _ => ⟨Function.update_self .., .inl ⟨rfl, hholder, hclock⟩⟩
      · intro u j q _ hrunning hat
        have hne : client u ≠ client t := by
          intro hclient
          rw [halone u hclient] at hrunning
          cases hrunning
        exact hat.keep (Function.update_of_ne hne ..) fun hu => ⟨hu, rfl⟩
      · intro c hc
        have hc' : Function.update P.shared.session (client t) false c = true := hc
        by_cases hct : c = client t
        · subst hct
          rw [Function.update_self] at hc'
          cases hc'
        · rw [Function.update_of_ne hct] at hc'
          exact h.sessions c hc'

/-- A call of an ioctl. -/
theorem Locked.ioctl_call {cmd : ProfilerIoctl} {β : Type} {request : ProfilerCall β}
    {next : β → ProfilerProg Int} {answer : β} (h : Locked client P)
    (hrunning : P.running t = some (.ioctl cmd, .call request next))
    (hcall : (profiler (client t)).step request P.shared answer = some s) :
    Locked client ((profilerSystem client).resume P.running t (.ioctl cmd) (next answer) s) := by
  obtain ⟨hsession, honly⟩ := h.jobs _ _ _ hrunning
  cases honly with
  | call hkind hnext =>
      obtain ⟨hholder, hclock, hsessions⟩ := profiler_ioctlCall hkind hcall
      refine h.resume (resume_shared (by simp)) (h.both_ioctl hrunning) ?_ ?_ ?_ ?_
      · exact fun _ _ _ _ => ⟨by rw [hsessions]; exact hsession, hnext answer⟩
      · exact fun u j q _ _ hat =>
          hat.keep (by rw [hsessions]) fun hu => ⟨hholder.trans hu, hclock⟩
      · intro c hc
        rw [hsessions] at hc
        rw [hholder, hclock]
        exact h.sessions c hc
      · rw [hholder, hclock]
        exact h.free

/-- A call of an open whose clock can be enabled. -/
theorem Locked.open_call {β : Type} {request : ProfilerCall β}
    {next : β → ProfilerProg Int} {answer : β} (h : Locked client P)
    (hrunning : P.running t = some (.open, .call request next))
    (hcall : (profiler (client t)).step request P.shared answer = some s)
    (hok : StopsUnsent P (.call t ⟨request, answer⟩)) :
    Locked client ((profilerSystem client).resume P.running t .open (next answer) s) := by
  obtain ⟨hsession, hat⟩ := h.jobs _ _ _ hrunning
  have hother : ∀ u j q, u ≠ t → P.running u = some (j, q) → client u ≠ client t :=
    fun u j q hu hu' => h.other_client hrunning id hu hu'
  have halone := h.both_ioctl hrunning
  clear hrunning
  generalize hp : Program.call request next = p at hat
  rcases hat with rfl | ⟨rfl, hholder, hclock⟩
  · cases hp
    rcases profiler_mutexTrylock hcall with ⟨rfl, hfree, rfl⟩ | ⟨rfl, rfl⟩
    · -- Nobody held the mutex, so nobody is in a session and the clock is disabled.
      refine h.resume rfl halone ?_ ?_ ?_ ?_
      · exact fun _ _ _ _ => ⟨hsession, .inr ⟨rfl, rfl, h.free hfree⟩⟩
      · refine fun u j q _ _ hat => hat.keep rfl fun hu => ?_
        rw [hfree] at hu
        cases hu
      · intro c hc
        have hheld := (h.sessions c hc).1
        rw [hfree] at hheld
        cases hheld
      · intro hnone
        cases hnone
    · have hshared : finishes client t .open (-EBUSY) P.shared = P.shared := if_neg (by decide)
      refine h.resume hshared halone ?_ ?_ h.sessions h.free
      · intro β request next hret
        cases hret
      · exact fun _ _ _ _ _ hat => hat
  · cases hp
    have hanswer : answer = 0 := hok
    subst hanswer
    obtain rfl := Option.some.inj hcall
    refine h.resume rfl halone ?_ ?_ ?_ ?_
    · intro β request next hret
      cases hret
    · intro u j q hu hu' hat
      refine hat.keep (Function.update_of_ne (hother u j q hu hu') ..) fun hheld => ?_
      rw [hholder] at hheld
      exact absurd (Option.some.inj hheld).symm (hother u j q hu hu')
    · intro c hc
      have hc' : Function.update P.shared.session (client t) true c = true := hc
      have hone : P.shared.clock + 1 = 1 := by rw [hclock]
      by_cases hct : c = client t
      · subst hct
        exact ⟨hholder, hone⟩
      · rw [Function.update_of_ne hct] at hc'
        refine ⟨?_, hone⟩
        exact (h.sessions c hc').1
    · intro hnone
      have hnone' : P.shared.holder = none := hnone
      rw [hholder] at hnone'
      cases hnone'

/-- A call of a release that gets no buffer. -/
theorem Locked.release_call {β : Type} {request : ProfilerCall β}
    {next : β → ProfilerProg Int} {answer : β} (h : Locked client P)
    (hrunning : P.running t = some (.release, .call request next))
    (hcall : (profiler (client t)).step request P.shared answer = some s)
    (hok : StopsUnsent P (.call t ⟨request, answer⟩)) :
    Locked client ((profilerSystem client).resume P.running t .release (next answer) s) := by
  obtain ⟨hsession, hat⟩ := h.jobs _ _ _ hrunning
  have hother : ∀ u j q, u ≠ t → P.running u = some (j, q) → client u ≠ client t :=
    fun u j q hu hu' => h.other_client hrunning id hu hu'
  have halone := h.both_ioctl hrunning
  have hnot : ∀ c, P.shared.session c = true → c ≠ client t := by
    rintro c hc rfl
    rw [hsession] at hc
    cases hc
  -- The calls that give something back are made while this client holds the mutex.
  have hback : ∀ s', P.shared.holder = some (client t) → s'.session = P.shared.session →
      (s'.holder = none → s'.clock = 0) →
      JobAt (client t) (next answer) s' .release →
      ((profilerSystem client).resume P.running t .release (next answer) s).shared = s' →
      Locked client ((profilerSystem client).resume P.running t .release (next answer) s) := by
    intro s' hholder hsessions hfree hjob hshared
    refine h.resume hshared halone (fun _ _ _ _ => hjob) ?_ ?_ hfree
    · intro u j q hu hu' hat
      refine hat.keep (by rw [hsessions]) fun hheld => ?_
      rw [hholder] at hheld
      exact absurd (Option.some.inj hheld).symm (hother u j q hu hu')
    · intro c hc
      rw [hsessions] at hc
      have hheld := (h.sessions c hc).1
      rw [hholder] at hheld
      exact absurd (Option.some.inj hheld).symm (hnot c hc)
  generalize hp : Program.call request next = p at hat
  rcases hat with ⟨rfl, hholder, hclock⟩ | ⟨rfl, hholder, hclock⟩ | hrest
  · cases hp
    obtain rfl := Option.some.inj hcall
    have hdisabled : P.shared.clock - 1 = 0 := by omega
    exact hback { P.shared with clock := P.shared.clock - 1 } hholder rfl (fun _ => hdisabled)
      ⟨hsession, .inr (.inl ⟨rfl, hholder, hdisabled⟩)⟩ (resume_shared (by simp))
  · cases hp
    obtain rfl := Option.some.inj hcall
    exact hback { P.shared with holder := none } hholder rfl (fun _ => hclock)
      ⟨hsession, .inr (.inr .send)⟩ (resume_shared (by simp))
  · -- Nothing of the mutex, the clock or the sessions changes any more.
    have hquiet : ∀ (hkind : IoctlCall β request) (hnext : ReleaseRest (next answer)),
        Locked client ((profilerSystem client).resume P.running t .release (next answer) s) := by
      intro hkind hnext
      obtain ⟨hholder, hclock, hsessions⟩ := profiler_ioctlCall hkind hcall
      refine h.resume (resume_shared (by simp)) halone ?_ ?_ ?_ ?_
      · exact fun _ _ _ _ => ⟨by rw [hsessions]; exact hsession, .inr (.inr hnext)⟩
      · exact fun u j q _ _ hat =>
          hat.keep (by rw [hsessions]) fun hu => ⟨hholder.trans hu, hclock⟩
      · intro c hc
        rw [hsessions] at hc
        rw [hholder, hclock]
        exact h.sessions c hc
      · rw [hholder, hclock]
        exact h.free
    cases hrest with
    | send =>
        cases hp
        refine hquiet trivial ?_
        cases answer with
        | true => exact .command
        | false => exact .harmless (.pure _)
    | command =>
        cases hp
        refine hquiet trivial ?_
        cases answer with
        | error errno =>
            -- The descriptor is freed, and the all-zero response does not echo the command.
            exact .harmless (.call trivial fun _ => .ret 0)
        | ok shm => exact absurd hrunning (hok _)
    | harmless honly =>
        subst hp
        cases honly with
        | call hkind hnext => exact hquiet (.of_harmless hkind) (.harmless (hnext answer))

end

/-! ## Runs -/

/-- In every interleaving in which the clock can be enabled and no release gets a buffer for its
command, use of the profiler is exclusive. -/
theorem exclusive_stopsUnsent [DecidableEq τ] [DecidableEq γ] (client : τ → γ)
    {P : ProfilerPool τ γ}
    (h : (profilerSystem client).Reach StopsUnsent (.quiet .fresh) P) : Exclusive client P := by
  refine Locked.exclusive (h.invariant (Locked client) ⟨?_, ?_, ?_, fun _ => rfl⟩ ?_)
  · exact fun t i p hrunning => nomatch hrunning
  · exact fun t u i p j q _ _ hrunning => nomatch hrunning
  · exact fun c hc => nomatch hc
  · intro P m P' hlocked hstep hok
    cases hstep with
    | start _ hstart => exact hlocked.start hstart
    | @call t i _ _ _ _ _ hrunning hcall =>
        cases i with
        | «open» => exact hlocked.open_call hrunning hcall hok
        | ioctl cmd => exact hlocked.ioctl_call hrunning hcall
        | release => exact hlocked.release_call hrunning hcall hok

/-- A run in which a client starts the counters and is about to send the command. -/
theorem exclusive_stopsUnsent_start : ∃ (P : ProfilerPool Nat Nat) (p : ProfilerProg Int),
    (profilerSystem id).Reach StopsUnsent (.quiet .fresh) P ∧
      P.running 0 = some (.ioctl .getBwInfo, p) ∧ SendsCommand p ∧ Exclusive id P := by
  have hfresh : (profilerSystem (id : Nat → Nat)).Reach StopsUnsent (.quiet .fresh)
    (.quiet .fresh) := .here
  have hopened := ((hfresh.start 0 .open rfl ⟨rfl, fun _ _ => rfl, rfl⟩ trivial).call 0 true
    rfl rfl trivial).call 0 (0 : Int) rfl rfl rfl
  have hcopied := (((hopened.start 0 (.ioctl .getBwInfo) rfl ⟨rfl, rfl⟩ trivial).call 0 ()
    rfl rfl trivial).call 0 false rfl rfl trivial).call 0 (Except.ok ⟨1, 0⟩) rfl rfl trivial
  have hready := (hcopied.call 0 true rfl rfl trivial).call 0 false rfl rfl trivial
  have hsends := (hready.call 0 (Except.ok ⟨0x1000⟩) rfl rfl (fun _ hp => nomatch hp)).call 0 ()
    rfl rfl trivial
  exact ⟨_, _, hsends, rfl, trivial, exclusive_stopsUnsent id hsends⟩

/-- A client is about to send its STOP command after another client has opened the profiler. -/
theorem not_exclusive_stopAfterUnlock : ¬ ∀ P : ProfilerPool Nat Nat,
    (profilerSystem id).Reach Move.any (.quiet .fresh) P → Exclusive id P := by
  have hfresh : (profilerSystem (id : Nat → Nat)).Reach Move.any (.quiet .fresh)
    (.quiet .fresh) := .here
  have hopened := ((hfresh.start 0 .open rfl ⟨rfl, fun _ _ => rfl, rfl⟩ trivial).call 0 true
    rfl rfl trivial).call 0 (0 : Int) rfl rfl trivial
  have hunlocked := ((hopened.start 0 .release rfl ⟨rfl, fun u hu => by cases hu; rfl, rfl⟩
    trivial).call 0 () rfl rfl trivial).call 0 () rfl rfl trivial
  have hother := ((hunlocked.start 1 .open rfl ⟨rfl, fun u hu => by cases hu; rfl, rfl⟩
    trivial).call 1 true rfl rfl trivial).call 1 (0 : Int) rfl rfl trivial
  have hsends := ((hother.call 0 true rfl rfl trivial).call 0 (Except.ok ⟨0x1000⟩) rfl rfl
    trivial).call 0 () rfl rfl trivial
  intro h
  have hsession := (h _ hsends 0 .release _ rfl trivial).2.2 rfl 1 (by decide)
  exact nomatch hsession

end SafeLinux.Profiler
