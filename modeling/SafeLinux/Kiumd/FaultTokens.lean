import SafeLinux.Kiumd.FaultLatch

/-!
# Tokens of the fault handlers

A domain keeps the name of the kobject it was given last as the token of its fault handler, also
when the device is deregistered. As long as the device registered last on a domain stays
registered, the token of the domain is the name of a live kobject and a fault is latched by the
node of this device.
-/

namespace SafeLinux.Kiumd

open Effects
open Effects.Program (perform)

/-! ## Registrations -/

/-- The kobject is that of the device, which has not been deregistered since. -/
def RegisteredAs (kobj : Kobject) (dev : Device) : List FaultEvent → Prop
  | [] => False
  | .registered kobj' dev' :: events => kobj' = kobj ∧ dev' = dev ∨ RegisteredAs kobj dev events
  | .deregistered kobj' :: events => kobj' ≠ kobj ∧ RegisteredAs kobj dev events
  | .reported _ _ _ :: events => RegisteredAs kobj dev events
  | .read _ :: events => RegisteredAs kobj dev events

/-- The kobject of the device registered last on a domain. -/
def lastRegistered (dom : Domain) : List FaultEvent → Option Kobject
  | [] => none
  | .registered kobj dev :: events =>
      if dev.domain = dom then some kobj else lastRegistered dom events
  | .deregistered _ :: events => lastRegistered dom events
  | .reported _ _ _ :: events => lastRegistered dom events
  | .read _ :: events => lastRegistered dom events

/-- The device registered last on a domain has not been deregistered since. -/
def HandlerStays (dom : Domain) : List FaultEvent → Prop
  | [] => True
  | .registered _ dev :: events => dev.domain = dom ∨ HandlerStays dom events
  | .deregistered kobj :: events => lastRegistered dom events ≠ some kobj ∧ HandlerStays dom events
  | .reported _ _ _ :: events => HandlerStays dom events
  | .read _ :: events => HandlerStays dom events

/-! ## What a fault does -/

/-- The token that the handler is called with. -/
def usedToken : Event (Either KCall FaultCall) → Option Kobject
  | ⟨.inr (.readToken token), _⟩ => some token
  | _ => none

/-- The list that a call writes. -/
def writtenList : Event (Either KCall FaultCall) → Option (List SmmuDeviceObj)
  | ⟨.inr (.writeHead list), _⟩ => some list
  | _ => none

/-- A node that a request has changed. -/
def Updates (head : List SmmuDeviceObj) (trace : FaultTrace) (obj : SmmuDeviceObj) : Prop :=
  ∃ list ∈ trace.filterMap writtenList, obj ∈ list ∧ obj ∉ head

/-- The handler of a domain is called with the name of a live kobject, and the node it changes is
that of a registered device of the domain. -/
structure HandlesLive (dom : Domain) (events : List FaultEvent) (f : FaultState)
    (trace : FaultTrace) : Prop where
  token : ∀ kobj ∈ trace.filterMap usedToken, kobj ∈ f.kobjects
  node : ∀ obj, Updates f.head trace obj →
    ∃ dev : Device, dev.domain = dom ∧ RegisteredAs obj.kobj dev events

variable {events : List FaultEvent} {f f' : FaultState} {dom : Domain}
  {head list : List SmmuDeviceObj}
  {kobj token : Kobject} {name : String} {report : FaultReport}

/-- A report changes a node with the name. -/
theorem latchScan_spec (h : latchScan name report head = some (kobj, list)) :
    kobj.name = name ∧ (∃ obj ∈ head, obj.kobj = kobj) ∧
      ∀ obj ∈ list, obj ∉ head → obj.kobj = kobj := by
  induction head generalizing list with
  | nil => cases h
  | cons temp next ih =>
      rw [latchScan] at h
      split at h
      · rename_i hmatch
        cases h
        refine ⟨hmatch.1, ⟨temp, List.mem_cons_self, rfl⟩, ?_⟩
        intro obj hobj hnew
        rcases List.mem_cons.mp hobj with rfl | hnext
        · rfl
        · exact absurd (List.mem_cons_of_mem _ hnext) hnew
      · obtain ⟨⟨kobj', list'⟩, hscan, heq⟩ := Option.map_eq_some_iff.mp h
        cases heq
        obtain ⟨hname, ⟨obj, hobj, hkobj⟩, hchanged⟩ := ih hscan
        refine ⟨hname, ⟨obj, List.mem_cons_of_mem _ hobj, hkobj⟩, ?_⟩
        intro obj' hobj' hnew
        rcases List.mem_cons.mp hobj' with rfl | hlist
        · exact absurd List.mem_cons_self hnew
        · exact hchanged obj' hlist fun hmem => hnew (List.mem_cons_of_mem _ hmem)

/-! ## The invariant -/

/-- Each domain's token is the kobject registered last on it; while its device stays registered,
the kobject is alive. -/
structure Tokens (events : List FaultEvent) (f : FaultState) : Prop where
  handler : ∀ dom, f.handlers dom = lastRegistered dom events
  siblings : ∀ k ∈ f.kobjects, ∀ k' ∈ f.kobjects, k.name = k'.name → k = k'
  alive : ∀ dom token, HandlerStays dom events → lastRegistered dom events = some token →
    token ∈ f.kobjects ∧ ∃ dev : Device, dev.domain = dom ∧ RegisteredAs token dev events

/-- A new kobject has a name of its own. -/
theorem Tokens.siblings_cons (h : Tokens events f) (haccepts : f.accepts kobj) :
    ∀ k ∈ kobj :: f.kobjects, ∀ k' ∈ kobj :: f.kobjects, k.name = k'.name → k = k' := by
  intro k hk k' hk' hname
  rcases List.mem_cons.mp hk with hk | hk <;> rcases List.mem_cons.mp hk' with hk' | hk'
  · rw [hk, hk']
  · exact absurd (hk ▸ hname.symm) (haccepts k' hk').2
  · exact absurd (hk' ▸ hname) (haccepts k hk).2
  · exact h.siblings k hk k' hk' hname

theorem Tokens.created (h : Tokens events f) (haccepts : f.accepts kobj) :
    Tokens events { f with kobjects := kobj :: f.kobjects } where
  handler := h.handler
  siblings := h.siblings_cons haccepts
  alive dom token hstays hlast :=
    ⟨List.mem_cons_of_mem _ (h.alive dom token hstays hlast).1, (h.alive dom token hstays hlast).2⟩

theorem Tokens.registered {dev : Device} (h : Tokens events f) (haccepts : f.accepts kobj) :
    Tokens (.registered kobj dev :: events)
      { head := f.head ++ [{ kobj := kobj }], kobjects := kobj :: f.kobjects,
        handlers := Function.update f.handlers dev.domain (some kobj) } where
  handler dom := by
    show Function.update f.handlers dev.domain (some kobj) dom = _
    rw [lastRegistered]
    by_cases hdom : dev.domain = dom
    · subst hdom
      rw [if_pos rfl, Function.update_self]
    · rw [if_neg hdom, Function.update_of_ne (Ne.symm hdom), h.handler]
  siblings := h.siblings_cons haccepts
  alive dom token hstays hlast := by
    rw [lastRegistered] at hlast
    by_cases hdom : dev.domain = dom
    · rw [if_pos hdom] at hlast
      obtain rfl := Option.some.inj hlast
      exact ⟨List.mem_cons_self, dev, hdom, .inl ⟨rfl, rfl⟩⟩
    · rw [if_neg hdom] at hlast
      obtain ⟨hmem, dev', hdev', hregistered⟩ :=
        h.alive dom token (hstays.resolve_left hdom) hlast
      exact ⟨List.mem_cons_of_mem _ hmem, dev', hdev', .inr hregistered⟩

theorem Tokens.deregistered (h : Tokens events f) :
    Tokens (.deregistered kobj :: events)
      { f with head := list, kobjects := f.kobjects.erase kobj } where
  handler := h.handler
  siblings k hk k' hk' :=
    h.siblings k (List.mem_of_mem_erase hk) k' (List.mem_of_mem_erase hk')
  alive dom token hstays hlast := by
    obtain ⟨hother, hstays⟩ := hstays
    have hlast : lastRegistered dom events = some token := hlast
    have hne : kobj ≠ token := by
      rintro rfl
      exact hother hlast
    obtain ⟨hmem, dev, hdev, hregistered⟩ := h.alive dom token hstays hlast
    exact ⟨(List.mem_erase_of_ne hne.symm).mpr hmem, dev, hdev, hne, hregistered⟩

/-- Each step keeps the invariant. -/
theorem Tokens.step {names : Device → String} {i : FaultRequest} {event : Option FaultEvent}
    (h : Tokens events f) (hstep : FaultStep names f i event f') :
    Tokens (event.toList ++ events) f' := by
  cases hstep with
  | idle => exact h
  | created haccepts => exact h.created haccepts
  | registered haccepts => exact h.registered haccepts
  | deregistered => exact h.deregistered
  | reported => exact ⟨h.handler, h.siblings, h.alive⟩
  | read => exact ⟨h.handler, h.siblings, h.alive⟩

variable {names : Device → String} {w₀ : World} {s s' : World × FaultState}
  {history : History FaultRequest (Either KCall FaultCall)}

theorem FaultRun.tokens (h : FaultRun names w₀ history s) : Tokens (eventsOf history) s.2 := by
  refine h.invariant (fun history s => Tokens (eventsOf history) s.2) ?_ ?_
  · exact ⟨fun _ => rfl, by simp, by simp [eventsOf, lastRegistered]⟩
  · rintro history i ⟨w, f⟩ htokens
    refine wp_mono faultProgram_steps ?_
    intro trace _ s' hstep _
    rw [eventsOf_cons]
    exact htokens.step hstep

/-! ## Faults -/

/-- The handler reads no token, and writes the list in which it has latched the report. -/
theorem kiumdSmmuFaultHandler_writes {w : World} :
    wp faultKernel .any (kiumdSmmuFaultHandler report name) (fun trace result _ =>
      result.isSome ∧ trace.filterMap usedToken = [] ∧ ∀ list ∈ trace.filterMap writtenList,
        ∃ kobj, latchScan name report f.head = some (kobj, list)) (w, f) := by
  unfold kiumdSmmuFaultHandler
  by_cases hops : report.pgtblOps
  swap
  · rw [if_pos hops]
    exact wp_pure.mpr ⟨rfl, rfl, fun _ h => (List.not_mem_nil h).elim⟩
  rw [if_neg (not_not.mpr hops)]
  refine wp_right fun head f₁ hhead => ?_
  simp only [faultStep] at hhead
  split at hhead <;> cases hhead
  rename_i hhead
  subst hhead
  cases hscan : latchScan name report f.head with
  | none => exact wp_pure.mpr ⟨rfl, rfl, fun _ h => (List.not_mem_nil h).elim⟩
  | some found =>
      refine wp_right fun _ f₂ hwrite => ?_
      refine wp_right fun _ f₃ hnotify => ?_
      refine wp_pure.mpr ⟨rfl, rfl, ?_⟩
      intro list hlist
      obtain rfl : list = found.2 := List.mem_singleton.mp hlist
      exact ⟨found.1, rfl⟩

/-- A fault reaches the device registered last on the domain. -/
theorem reportIommuFault_handlesLive {w : World} (hlatches : Latches events f)
    (htokens : Tokens events f) (hstays : HandlerStays dom events) :
    wp faultKernel .any (reportIommuFault dom report)
      (fun trace _ _ => HandlesLive dom events f trace) (w, f) := by
  unfold reportIommuFault
  refine wp_right fun token f₁ htoken => ?_
  simp only [faultStep] at htoken
  split at htoken <;> cases htoken
  rename_i htoken
  cases token with
  | none =>
      refine wp_pure.mpr ⟨fun _ h => (List.not_mem_nil h).elim, ?_⟩
      rintro _ ⟨_, h, _⟩
      exact (List.not_mem_nil h).elim
  | some token =>
      obtain ⟨halive, dev, hdev, hregistered⟩ :=
        htokens.alive dom token hstays ((htokens.handler dom).symm.trans htoken.symm)
      refine wp_right fun text f₂ htext => ?_
      simp only [faultStep] at htext
      split at htext <;> cases htext
      rename_i htext
      obtain rfl := htext halive
      rw [wp_bind]
      refine wp_mono kiumdSmmuFaultHandler_writes ?_
      rintro trace result s' ⟨hsome, hreads, hwrites⟩
      obtain ⟨value, rfl⟩ := Option.isSome_iff_exists.mp hsome
      refine wp_pure.mpr ⟨?_, ?_⟩
      · intro kobj hread
        rw [List.append_nil, List.filterMap_append, List.filterMap_append, hreads] at hread
        obtain rfl : kobj = token := List.mem_singleton.mp hread
        exact halive
      · rintro obj ⟨list, hlist, hobj, hnew⟩
        rw [List.append_nil] at hlist
        obtain ⟨kobj, hscan⟩ := hwrites list hlist
        obtain ⟨hname, ⟨old, hold, hkobj⟩, hchanged⟩ := latchScan_spec hscan
        have hlive : kobj ∈ f.kobjects := hkobj ▸ hlatches.live old hold
        obtain rfl := htokens.siblings kobj hlive token halive hname
        rw [hchanged obj hobj hnew]
        exact ⟨dev, hdev, hregistered⟩

/-- In every run, a fault on a domain whose last registered device has not been deregistered calls
the handler with the name of a live kobject, and the node it changes is that of a registered device
of the domain. -/
theorem fault_handles_live {trace : FaultTrace} {result : Option (Option String)}
    (hrun : FaultRun names w₀ history s) (hstays : HandlerStays dom (eventsOf history))
    (hexec : Exec faultKernel (faultProgram names (.fault dom report)) s trace result s') :
    HandlesLive dom (eventsOf history) s.2 trace := by
  obtain ⟨w, f⟩ := s
  have hwp : wp faultKernel .any (reportIommuFault dom report >>= fun _ => pure none)
      (fun trace (_ : Option (Option String)) _ => HandlesLive dom (eventsOf history) f trace)
      (w, f) := by
    rw [wp_bind]
    refine wp_mono (reportIommuFault_handlesLive hrun.latches hrun.tokens hstays) ?_
    intro trace result s' hlive
    cases result with
    | none => exact hlive
    | some value =>
        refine wp_pure.mpr ?_
        rw [Post.after_apply, List.append_nil]
        exact hlive
  exact wp_exec hwp hexec

/-- A domain with two devices, one for each file descriptor. -/
def twoDevices : Answers :=
  { Answers.plain fun _ _ => false with
    file := fun fd => ⟨fd.toNat, some (some ⟨fd.toNat, some ⟨fd.toNat, 0⟩⟩)⟩ }

/-- The device registered first is deregistered; a fault reaches the other one. -/
theorem fault_handles_live_two_devices : ∃ names history s trace s' kobj,
    FaultRun names .initial history s ∧
    eventsOf history = [.deregistered ⟨0, "gpu"⟩, .registered kobj ⟨5, 0⟩,
      .registered ⟨0, "gpu"⟩ ⟨3, 0⟩] ∧
    Exec faultKernel (faultProgram names (.fault 0 ⟨true, 0x402, 0x1000⟩)) s trace
      (some none) s' ∧
    trace.filterMap usedToken = [kobj] ∧ kobj ∈ s.2.kobjects := by
  let names : Device → String := fun dev => if dev.id = 3 then "gpu" else "dsp"
  let events : List FaultEvent :=
    [.deregistered ⟨0, "gpu"⟩, .registered ⟨1, "dsp"⟩ ⟨5, 0⟩, .registered ⟨0, "gpu"⟩ ⟨3, 0⟩]
  have hcheck : Run.check faultKernel (faultProgram names) (faultChoose twoDevices)
      [.register plainUser, .register { plainUser with vfioFd := 5 }, .deregister plainUser]
      (.initial, {}) (fun history s => decide (eventsOf history = events) &&
        (faultProgram names (.fault 0 ⟨true, 0x402, 0x1000⟩)).check faultKernel
          (faultChoose twoDevices) s fun trace text _ =>
            decide (trace.filterMap usedToken = [⟨1, "dsp"⟩] ∧ text = none)) = true := by
    decide +kernel
  obtain ⟨history, s, hrun, htest⟩ := Run.check_run hcheck
  obtain ⟨hevents, hfault⟩ := Bool.and_eq_true_iff.mp htest
  obtain ⟨trace, text, s', hexec, htoken'⟩ := Program.check_exec hfault
  obtain ⟨htoken, rfl⟩ := of_decide_eq_true htoken'
  have hevents := of_decide_eq_true hevents
  have hstays : HandlerStays 0 (eventsOf history) := by
    rw [hevents]
    exact ⟨by decide, .inl rfl⟩
  have hlive := (fault_handles_live hrun hstays hexec).token ⟨1, "dsp"⟩
    (htoken ▸ List.mem_singleton_self _)
  exact ⟨names, history, s, trace, s', _, hrun, hevents, hexec, htoken, hlive⟩

/-- After the deregistration of its device, a fault of the domain calls the handler with the name of
a released kobject. -/
theorem not_fault_handles_live : ¬ ∀ names w₀ history s dom report trace result s',
    FaultRun names w₀ history s →
    Exec faultKernel (faultProgram names (.fault dom report)) s trace result s' →
    HandlesLive dom (eventsOf history) s.2 trace := by
  intro hall
  let choose := faultChoose (Answers.plain fun _ _ => false)
  have hcheck : Run.check faultKernel (faultProgram fun _ => "gpu") choose
      [.register plainUser, .deregister plainUser] (.initial, {})
      (fun _ s => (faultProgram (fun _ => "gpu") (.fault 0 default)).check
        faultKernel choose s
        fun trace _ _ => decide (¬ ∀ kobj ∈ trace.filterMap usedToken, kobj ∈ s.2.kobjects)) =
      true := by
    decide +kernel
  obtain ⟨history, s, hrun, htest⟩ := Run.check_run hcheck
  obtain ⟨trace, result, s', hexec, hdead⟩ := Program.check_exec htest
  exact of_decide_eq_true hdead (hall _ _ _ _ _ _ _ _ _ hrun hexec).token

end SafeLinux.Kiumd
