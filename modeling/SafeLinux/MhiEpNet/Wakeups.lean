import SafeLinux.MhiEpNet.Driver

/-!
# Lost wake-ups

The work stops the queue after it has found the ring empty, and the downlink callback wakes the
queue when it finds it stopped. A wake-up is lost when the callback looks at the queue between these
two steps of the work. The invariant `Awake` says that a stopped queue with buffers in the ring is
about to be woken, and that buffers which arrive before the work stops the queue have their callback
still to come.
-/

namespace SafeLinux.MhiEpNet

open Effects
open Effects.Program (perform)

/-- Packets wait, the ring has buffers, and nothing will send them: the queue is stopped, the work
is neither queued nor running, and no callback is in progress. -/
def LostWakeup (P : NetPool) : Prop :=
  P.shared.txBuffers ≠ [] ∧ 0 < P.shared.ring ∧ P.shared.stopped = true ∧
    P.shared.pending = false ∧ P.running .work = none ∧ P.running .callback = none

/-- `mhi_ep_queue_is_empty` answers whether the ring is empty. -/
def RingTested (P : NetPool) : NetMove → Prop
  | .call _ ⟨.mhiEpQueueIsEmpty, answer⟩ => answer = true ↔ P.shared.ring = 0
  | _ => True

/-- The program's next step stops the queue. -/
def Stops : NetProg → Prop
  | .call .netifStopQueue _ => True
  | _ => False

/-- The program's next step looks at the queue. -/
def Looks : NetProg → Prop
  | .call .netifQueueStopped _ => True
  | _ => False

/-- The program's next step looks at the queue or wakes it. -/
def WillWake : NetProg → Prop
  | .call .netifQueueStopped _ | .call .netifWakeQueue _ => True
  | _ => False

theorem Looks.willWake {p : NetProg} (h : Looks p) : WillWake p := by
  unfold Looks at h
  split at h
  · trivial
  · exact h.elim

/-- The callback does not look at the queue between the test of the ring and the stop. -/
def LooksOutside (P : NetPool) : NetMove → Prop
  | .call .callback ⟨.netifQueueStopped, _⟩ => ∀ i p, P.running .work = some (i, p) → ¬ Stops p
  | _ => True

/-! ## What the threads have left to do -/

/-- The step adds buffers to the ring. -/
def Refills {β : Type} : NetCall β → Prop
  | .ringRefill _ => True
  | _ => False

/-- The work stops the queue only when it has just found the ring empty. -/
inductive GuardsStops : NetProg → Prop where
  | ret : GuardsStops (.ret ())
  | test {next : Bool → NetProg} :
      (∀ answer, GuardsStops (next answer)) → ¬ Stops (next false) →
      GuardsStops (.call .mhiEpQueueIsEmpty next)
  | other {β : Type} {request : NetCall β} {next : β → NetProg} :
      ¬ Refills request → (∀ answer, GuardsStops (next answer)) →
      (∀ answer, ¬ Stops (next answer)) → GuardsStops (.call request next)

theorem not_stops_sendPackets (q : List Packet) : ¬ Stops (sendPackets q) := by
  cases q <;> exact id

theorem guardsStops_stop : GuardsStops (perform .netifStopQueue) :=
  .other id (fun _ => .ret) fun _ => id

theorem guardsStops_sendPackets (q : List Packet) : GuardsStops (sendPackets q) := by
  induction q with
  | nil => exact .ret
  | cons skb q ih =>
      unfold sendPackets
      refine .other id (fun answer => ?_) fun answer => ?_
      · obtain ⟨ret, used⟩ := answer
        show GuardsStops (if ret ≠ 0 then _ else _)
        split
        · exact .other id (fun _ => .other id (fun _ => .ret) fun _ => id) fun _ => id
        · refine .other id (fun _ => .test ?_ ?_) fun _ => id
          · intro exhausted
            cases exhausted with
            | true => exact guardsStops_stop
            | false =>
                exact .other id
                  (fun _ => .other id (fun _ => ih) fun _ => not_stops_sendPackets q) fun _ => id
          · exact id
      · obtain ⟨ret, used⟩ := answer
        show ¬ Stops (if ret ≠ 0 then _ else _)
        split <;> exact id

theorem guardsStops_work : GuardsStops mhiEpNetDevProcessQueuePackets := by
  refine .test ?_ id
  intro exhausted
  cases exhausted with
  | true => exact guardsStops_stop
  | false => exact .other id guardsStops_sendPackets not_stops_sendPackets

/-- The callback, once it has seen that the queue is stopped. -/
def wakeAndQueue : NetProg := do
  perform .netifWakeQueue
  perform .queueWork

/-- The callback, once it has seen that the channel is connected. -/
def lookAndWake : NetProg := do
  if ← perform .netifQueueStopped then
    perform .netifWakeQueue
    perform .queueWork

/-- What is left of a completion. -/
inductive CompletionAt : NetProg → Prop where
  | refill (buffers : Nat) : CompletionAt (do
      perform (.ringRefill buffers)
      lookAndWake)
  | look : CompletionAt lookAndWake
  | wake : CompletionAt wakeAndQueue
  | queue : CompletionAt (perform .queueWork)

/-- A completion does nothing, or it is still to add its buffers. -/
theorem mhiCompletion_cases (transactionStatus : Int) (buffers : Nat) :
    mhiCompletion transactionStatus buffers = .ret () ∨
      mhiCompletion transactionStatus buffers = (do
        perform (.ringRefill buffers)
        lookAndWake) := by
  unfold mhiCompletion mhiEpNetDlCallback
  by_cases h : transactionStatus = -ENOTCONN
  · left
    rw [if_neg (not_not.mpr h), if_pos h]
    rfl
  · right
    rw [if_pos h, if_neg h]
    rfl

/-- What is left of a transmission. -/
inductive TransmitAt : NetProg → Prop where
  | enqueue (len : U32) : TransmitAt (mhiNdoXmit len)
  | queue : TransmitAt (perform .queueWork)

/-- What is left of the job of a thread. -/
def JobAt : Party → NetProg → Prop
  | .work => GuardsStops
  | .callback => CompletionAt
  | .xmit _ => TransmitAt

/-! ## The invariant -/

/-- A stopped queue with buffers in the ring is about to be woken, and so is one that is about to be
stopped. -/
structure Awake (P : NetPool) : Prop where
  jobs : ∀ t i p, P.running t = some (i, p) → JobAt t p
  stopped : P.shared.stopped = true → 0 < P.shared.ring →
    ∃ i p, P.running .callback = some (i, p) ∧ WillWake p
  window : ∀ i p, P.running .work = some (i, p) → Stops p → 0 < P.shared.ring →
    ∃ j q, P.running .callback = some (j, q) ∧ Looks q

theorem Awake.not_lostWakeup {P : NetPool} (h : Awake P) : ¬ LostWakeup P := by
  rintro ⟨_, hring, hstopped, _, _, hidle⟩
  obtain ⟨i, p, hrunning, _⟩ := h.stopped hstopped hring
  rw [hidle] at hrunning
  cases hrunning

/-- A job that starts is at its beginning, or is done. -/
theorem jobAt_program {P : NetPool} {t : Party} {i : Job} {s : State} (h : starts P t i s) :
    i.program = .ret () ∨ JobAt t i.program := by
  match t, i with
  | .work, .processQueuePackets => exact .inr guardsStops_work
  | .callback, .completion transactionStatus buffers =>
      refine (mhiCompletion_cases transactionStatus buffers).imp id fun hprogram => ?_
      show CompletionAt (mhiCompletion transactionStatus buffers)
      rw [hprogram]
      exact .refill buffers
  | .xmit _, .xmit len => exact .inr (.enqueue len)

/-- A job stays at a place of its program with every call, or returns. -/
theorem jobAt_next {t : Party} {β : Type} {request : NetCall β} {next : β → NetProg}
    (h : JobAt t (.call request next)) (answer : β) :
    next answer = .ret () ∨ JobAt t (next answer) := by
  cases t with
  | work =>
      right
      cases h with
      | test hnext _ => exact hnext answer
      | other _ hnext _ => exact hnext answer
  | callback =>
      generalize hp : Program.call request next = p at h
      cases h with
      | refill buffers =>
          cases hp
          exact .inr .look
      | look =>
          cases hp
          cases answer with
          | true => exact .inr .wake
          | false => exact .inl rfl
      | wake =>
          cases hp
          exact .inr .queue
      | queue =>
          cases hp
          exact .inl rfl
  | xmit n =>
      generalize hp : Program.call request next = p at h
      cases h with
      | enqueue len =>
          cases hp
          exact .inr .queue
      | queue =>
          cases hp
          exact .inl rfl

section

variable {P : NetPool} {t : Party} {i : Job} {p : NetProg} {s : State}

theorem resume_shared : (netSystem.resume P.running t i p s).shared = s := by
  cases p <;> rfl

/-- What a thread runs after its step. -/
theorem resume_self {j : Job} {q : NetProg}
    (h : (netSystem.resume P.running t i p s).running t = some (j, q)) : q = p := by
  cases p with
  | ret value =>
      rw [System.resume_running_ret] at h
      cases h
  | call request next =>
      rw [System.resume_running_call] at h
      cases h
      rfl

/-- What is left of the jobs after a step. -/
theorem Awake.resume_jobs (h : Awake P) (hjob : p = .ret () ∨ JobAt t p) :
    ∀ u j q, (netSystem.resume P.running t i p s).running u = some (j, q) → JobAt u q := by
  intro u j q hrunning
  by_cases hu : u = t
  · subst hu
    obtain rfl := resume_self hrunning
    rcases hjob with rfl | hjob
    · rw [System.resume_running_ret] at hrunning
      cases hrunning
    · exact hjob
  · rw [System.resume_running_of_ne hu] at hrunning
    exact h.jobs u j q hrunning

/-- A step of the work that is not about to stop a queue whose ring has buffers, and stops the queue
only when that is expected. -/
theorem Awake.work_step (h : Awake P) (hjob : p = .ret () ∨ JobAt .work p)
    (hring : s.ring ≤ P.shared.ring)
    (hstopped : s.stopped = true → 0 < s.ring → P.shared.stopped = true ∨
      ∃ j q, P.running .callback = some (j, q) ∧ Looks q)
    (hstops : Stops p → s.ring = 0) : Awake (netSystem.resume P.running .work i p s) where
  jobs := h.resume_jobs hjob
  stopped := by
    rw [resume_shared, System.resume_running_of_ne (by decide)]
    intro hs hpos
    rcases hstopped hs hpos with hstopped | ⟨j, q, hrunning, hlooks⟩
    · exact h.stopped hstopped (by omega)
    · exact ⟨j, q, hrunning, hlooks.willWake⟩
  window := by
    intro j q hrunning hq hpos
    obtain rfl := resume_self hrunning
    rw [resume_shared] at hpos
    have := hstops hq
    omega

/-- A step of a thread that transmits. -/
theorem Awake.xmit_step {n : Nat} (h : Awake P) (hjob : p = .ret () ∨ JobAt (.xmit n) p)
    (hring : s.ring = P.shared.ring) (hstopped : s.stopped = P.shared.stopped) :
    Awake (netSystem.resume P.running (.xmit n) i p s) where
  jobs := h.resume_jobs hjob
  stopped := by
    rw [resume_shared, System.resume_running_of_ne (by simp), hring, hstopped]
    exact h.stopped
  window := by
    rw [resume_shared, System.resume_running_of_ne (by simp),
      System.resume_running_of_ne (by simp), hring]
    exact h.window

/-- A step of the callback after which the queue is on its way to be woken, or need not be. -/
theorem Awake.callback_step (h : Awake P) (hjob : p = .ret () ∨ JobAt .callback p)
    (hstopped : s.stopped = true → 0 < s.ring → WillWake p)
    (hwindow : ∀ j q, P.running .work = some (j, q) → Stops q → 0 < s.ring → Looks p) :
    Awake (netSystem.resume P.running .callback i p s) where
  jobs := h.resume_jobs hjob
  stopped := by
    rw [resume_shared]
    intro hs hpos
    have hp := hstopped hs hpos
    cases p with
    | ret value => exact hp.elim
    | call request next => exact ⟨i, _, System.resume_running_call, hp⟩
  window := by
    rw [resume_shared, System.resume_running_of_ne (by decide)]
    intro j q hrunning hq hpos
    have hp := hwindow j q hrunning hq hpos
    cases p with
    | ret value => exact hp.elim
    | call request next => exact ⟨i, _, System.resume_running_call, hp⟩

end

/-- The start of a job. -/
theorem Awake.start {P : NetPool} {t : Party} {i : Job} {s : State} (h : Awake P)
    (hidle : P.running t = none) (hstart : starts P t i s) :
    Awake (netSystem.resume P.running t i i.program s) := by
  have hjob := jobAt_program hstart
  match t, i with
  | .work, .processQueuePackets =>
      obtain ⟨_, rfl⟩ := hstart
      exact h.work_step hjob (Nat.le_refl _) (fun hs _ => .inl hs) fun hstops => hstops.elim
  | .callback, .completion transactionStatus buffers =>
      obtain rfl := hstart
      refine h.callback_step hjob (fun hs hpos => ?_) fun j q hrunning hq hpos => ?_
      · obtain ⟨j, q, hrunning, _⟩ := h.stopped hs hpos
        rw [hidle] at hrunning
        cases hrunning
      · obtain ⟨k, r, hlook, _⟩ := h.window j q hrunning hq hpos
        rw [hidle] at hlook
        cases hlook
  | .xmit n, .xmit len =>
      obtain rfl := hstart
      exact h.xmit_step hjob rfl rfl

/-- What a step other than a refill does to the ring and to the queue. -/
theorem net_step_queue {β : Type} {request : NetCall β} {answer : β} {s s' : State}
    (h : net.step request s answer = some s') (hrefill : ¬ Refills request) :
    s'.ring ≤ s.ring ∧ (s'.stopped = true → s.stopped = true ∨
      ∀ next : β → NetProg, Stops (.call request next)) := by
  cases request with
  | ringRefill buffers => exact absurd trivial hrefill
  | netifStopQueue =>
      obtain rfl := Option.some.inj h
      exact ⟨Nat.le_refl _, fun _ => .inr fun _ => trivial⟩
  | netifWakeQueue =>
      obtain rfl := Option.some.inj h
      exact ⟨Nat.le_refl _, fun hs => nomatch hs⟩
  | mhiEpQueueSkb skb =>
      simp only [net] at h
      split at h <;> obtain rfl := Option.some.inj h
      · exact ⟨Nat.sub_le _ _, .inl⟩
      · exact ⟨Nat.le_refl _, .inl⟩
  | skbQueueSpliceInit | netifQueueStopped =>
      simp only [net] at h
      split at h
      · obtain rfl := Option.some.inj h
        exact ⟨Nat.le_refl _, .inl⟩
      · cases h
  | mhiEpQueueIsEmpty | skbQueueTail _ | statsSent _ | statsDropped | kfreeSkb _ | consumeSkb _
  | condResched | queueWork =>
      obtain rfl := Option.some.inj h
      exact ⟨Nat.le_refl _, .inl⟩

section

variable {P : NetPool} {i : Job} {β : Type} {request : NetCall β} {next : β → NetProg} {answer : β}
  {s : State}

/-- A call of the work. -/
theorem Awake.work_call (h : Awake P) (hrunning : P.running .work = some (i, .call request next))
    (hcall : net.step request P.shared answer = some s)
    (htested : RingTested P (.call .work ⟨request, answer⟩)) :
    Awake (netSystem.resume P.running .work i (next answer) s) := by
  have hat : GuardsStops (.call request next) := h.jobs _ _ _ hrunning
  have hjob := jobAt_next (t := .work) hat answer
  cases hat with
  | test _ hfalse =>
      obtain rfl := Option.some.inj hcall
      refine h.work_step hjob (Nat.le_refl _) (fun hs _ => .inl hs) fun hstops => ?_
      cases answer with
      | true => exact htested.mp rfl
      | false => exact absurd hstops hfalse
  | other hrefill _ hnot =>
      obtain ⟨hring, hstopped⟩ := net_step_queue hcall hrefill
      refine h.work_step hjob hring (fun hs hpos => ?_) fun hstops => absurd hstops (hnot answer)
      rcases hstopped hs with hs | hstops
      · exact .inl hs
      · exact .inr (h.window i _ hrunning (hstops next) (by omega))

/-- A call of a thread that transmits. -/
theorem Awake.xmit_call {n : Nat} (h : Awake P)
    (hrunning : P.running (.xmit n) = some (i, .call request next))
    (hcall : net.step request P.shared answer = some s) :
    Awake (netSystem.resume P.running (.xmit n) i (next answer) s) := by
  have hat : TransmitAt (.call request next) := h.jobs _ _ _ hrunning
  have hjob := jobAt_next (t := .xmit n) hat answer
  generalize hp : Program.call request next = p at hat
  cases hat with
  | enqueue len =>
      cases hp
      obtain rfl := Option.some.inj hcall
      exact h.xmit_step hjob rfl rfl
  | queue =>
      cases hp
      obtain rfl := Option.some.inj hcall
      exact h.xmit_step hjob rfl rfl

/-- A call of the callback. -/
theorem Awake.callback_call (h : Awake P)
    (hrunning : P.running .callback = some (i, .call request next))
    (hcall : net.step request P.shared answer = some s)
    (hlooks : LooksOutside P (.call .callback ⟨request, answer⟩)) :
    Awake (netSystem.resume P.running .callback i (next answer) s) := by
  have hat : CompletionAt (.call request next) := h.jobs _ _ _ hrunning
  have hjob := jobAt_next (t := .callback) hat answer
  generalize hp : Program.call request next = p at hat hrunning
  -- The work is about to stop a queue whose ring has buffers only before the callback looks.
  have hwindow : ¬ Looks p → ∀ j q, P.running .work = some (j, q) → Stops q →
      ¬ 0 < P.shared.ring := by
    intro hlook j q hwork hq hpos
    obtain ⟨k, r, hk, hr⟩ := h.window j q hwork hq hpos
    rw [hrunning] at hk
    cases hk
    exact hlook hr
  cases hat with
  | refill buffers =>
      cases hp
      obtain rfl := Option.some.inj hcall
      exact h.callback_step hjob (fun _ _ => trivial) fun _ _ _ _ _ => trivial
  | look =>
      cases hp
      simp only [net] at hcall
      split at hcall
      · rename_i hanswer
        obtain rfl := Option.some.inj hcall
        refine h.callback_step hjob (fun hs _ => ?_) fun j q hwork hq _ => ?_
        · obtain rfl : answer = true := hanswer.trans hs
          exact trivial
        · exact absurd hq (hlooks j q hwork)
      · cases hcall
  | wake =>
      cases hp
      obtain rfl := Option.some.inj hcall
      refine h.callback_step hjob (fun hs _ => nomatch hs) fun j q hwork hq hpos => ?_
      exact absurd hpos (hwindow id j q hwork hq)
  | queue =>
      cases hp
      obtain rfl := Option.some.inj hcall
      refine h.callback_step hjob (fun hs hpos => ?_) fun j q hwork hq hpos => ?_
      · obtain ⟨k, q, hk, hq⟩ := h.stopped hs hpos
        rw [hrunning] at hk
        cases hk
        exact hq.elim
      · exact absurd hpos (hwindow id j q hwork hq)

end

/-! ## Runs -/

/-- In every interleaving in which the callback does not look at the queue between a test of the
ring and the stop, no wake-up is lost. -/
theorem not_lostWakeup_looksOutside {ring : Nat} {P : NetPool}
    (h : netSystem.Reach (fun P m => RingTested P m ∧ LooksOutside P m) (.quiet (.fresh ring)) P) :
    ¬ LostWakeup P := by
  refine Awake.not_lostWakeup (h.invariant Awake ⟨?_, ?_, ?_⟩ ?_)
  · exact fun t i p hrunning => nomatch hrunning
  · exact fun hs => nomatch hs
  · exact fun i p hrunning => nomatch hrunning
  · intro P m P' hawake hstep hok
    cases hstep with
    | start hidle hstart => exact hawake.start hidle hstart
    | @call t _ _ _ _ _ _ hrunning hcall =>
        cases t with
        | work => exact hawake.work_call hrunning hcall hok.1
        | callback => exact hawake.callback_call hrunning hcall hok.2
        | xmit n => exact hawake.xmit_call hrunning hcall

/-- A run in which the work stops the queue and the callback wakes it. -/
theorem not_lostWakeup_looksOutside_woken : ∃ P : NetPool,
    netSystem.Reach (fun P m => RingTested P m ∧ LooksOutside P m) (.quiet (.fresh 0)) P ∧
      P.shared.txBuffers ≠ [] ∧ 0 < P.shared.ring ∧ ¬ LostWakeup P := by
  have hfresh : netSystem.Reach (fun P m => RingTested P m ∧ LooksOutside P m)
    (.quiet (.fresh 0)) (.quiet (.fresh 0)) := .here
  have hxmit := ((hfresh.start (.xmit 0) (.xmit 1500) rfl rfl ⟨trivial, trivial⟩).call (.xmit 0) ()
    rfl rfl ⟨trivial, trivial⟩).call (.xmit 0) () rfl rfl ⟨trivial, trivial⟩
  have hstopped := ((hxmit.start .work .processQueuePackets rfl ⟨rfl, rfl⟩ ⟨trivial, trivial⟩).call
    .work true rfl rfl ⟨iff_of_true rfl rfl, trivial⟩).call .work () rfl rfl ⟨trivial, trivial⟩
  have hfilled := (hstopped.start .callback (.completion 0 1) rfl rfl ⟨trivial, trivial⟩).call
    .callback () rfl rfl ⟨trivial, trivial⟩
  have hwoken := ((hfilled.call .callback true rfl rfl
    ⟨trivial, fun _ _ hrunning => nomatch hrunning⟩).call .callback () rfl rfl
    ⟨trivial, trivial⟩).call .callback () rfl rfl ⟨trivial, trivial⟩
  exact ⟨_, hwoken, by decide, by decide, not_lostWakeup_looksOutside hwoken⟩

/-- The callback looks at the queue after the work has found the ring empty and before the work
stops the queue. -/
theorem lostWakeup_looksBetween : ¬ ∀ (ring : Nat) (P : NetPool),
    netSystem.Reach RingTested (.quiet (.fresh ring)) P → ¬ LostWakeup P := by
  have hfresh : netSystem.Reach RingTested (.quiet (.fresh 0)) (.quiet (.fresh 0)) := .here
  have hxmit := ((hfresh.start (.xmit 0) (.xmit 1500) rfl rfl trivial).call (.xmit 0) ()
    rfl rfl trivial).call (.xmit 0) () rfl rfl trivial
  have htested := (hxmit.start .work .processQueuePackets rfl ⟨rfl, rfl⟩ trivial).call
    .work true rfl rfl (iff_of_true rfl rfl)
  have hfilled := (htested.start .callback (.completion 0 1) rfl rfl trivial).call .callback ()
    rfl rfl trivial
  have hlooked := hfilled.call .callback false rfl rfl trivial
  have hstopped := hlooked.call .work () rfl rfl trivial
  exact fun h => h 0 _ hstopped ⟨by decide, by decide, rfl, rfl, rfl, rfl⟩

end SafeLinux.MhiEpNet
