import SafeLinux.Kiumd.Faults
import SafeLinux.Kiumd.Frame

/-!
# What a request does to the registered devices

`eventOf` names what a request has done, from the calls it has made: it has registered or
deregistered a device, reported a fault or read one. `FaultStep` says what each of these does to the
list of registered devices, the kobjects and the handlers; every request takes such a step.
-/

namespace SafeLinux.Kiumd

open Effects
open Effects.Program (perform)

/-- The calls of a request about faults. -/
abbrev FaultTrace : Type 1 := List (Event (Either KCall FaultCall))

/-! ## Events -/

/-- What a request has done. -/
inductive FaultEvent where
  | registered (kobj : Kobject) (dev : Device)
  | deregistered (kobj : Kobject)
  | reported (name : String) (fsr iova : U32)
  | read (name : String)
  deriving DecidableEq

/-- The device whose domain a call asks for. -/
def askedDevice : Event (Either KCall FaultCall) → Option Device
  | ⟨.inl (.iommuGetDmaDomain dev), _⟩ => some dev
  | _ => none

/-- The token that a call installs. -/
def installedToken : Event (Either KCall FaultCall) → Option Kobject
  | ⟨.inr (.iommuSetFaultHandler _ token), _⟩ => some token
  | _ => none

/-- The kobject that a call releases. -/
def releasedKobject : Event (Either KCall FaultCall) → Option Kobject
  | ⟨.inr (.kobjectPut kobj), _⟩ => some kobj
  | _ => none

/-- The text that a call finds at a token. -/
def foundText : Event (Either KCall FaultCall) → Option String
  | ⟨.inr (.readToken _), text⟩ => some text
  | _ => none

/-- The last thing of a kind that the calls show. -/
def lastSeen {γ : Type} (see : Event (Either KCall FaultCall) → Option γ) (trace : FaultTrace) :
    Option γ :=
  (trace.filterMap see).getLast?

/-- The report of a fault with a name; without page-table operations there is no FSR to read and
the report is refused. -/
def reportEvent (report : FaultReport) (name : String) : Option FaultEvent :=
  if report.pgtblOps then some (.reported name report.fsr (report.iova.setWidth 32)) else none

/-- What a request has done, from its calls. -/
def eventOf : FaultRequest → FaultTrace → Option FaultEvent
  | .register _, trace =>
      (lastSeen installedToken trace).bind fun kobj =>
        (lastSeen askedDevice trace).map (.registered kobj)
  | .deregister _, trace => (lastSeen releasedKobject trace).map .deregistered
  | .fault _ report, trace => (lastSeen foundText trace).bind (reportEvent report)
  | .handle report name, _ => reportEvent report name
  | .show kobj, _ => kobj.map fun kobj => .read kobj.name

/-- What the requests of a history have done, the latest first. -/
def eventsOf (history : History FaultRequest (Either KCall FaultCall)) : List FaultEvent :=
  history.filterMap fun (i, trace) => eventOf i trace

theorem eventsOf_cons {i : FaultRequest} {trace : FaultTrace}
    {history : History FaultRequest (Either KCall FaultCall)} :
    eventsOf ((i, trace) :: history) = (eventOf i trace).toList ++ eventsOf history := by
  simp only [eventsOf, List.filterMap_cons]
  cases eventOf i trace <;> rfl

section LastSeen

variable {γ : Type} {see : Event (Either KCall FaultCall) → Option γ}
  {trace trace' : FaultTrace} {e : Event (Either KCall FaultCall)} {value : γ}

@[simp] theorem lastSeen_nil : lastSeen see [] = none := rfl

/-- What the later calls show counts. -/
theorem lastSeen_append : lastSeen see (trace ++ trace') =
    (lastSeen see trace').or (lastSeen see trace) := by
  rw [lastSeen, List.filterMap_append, List.getLast?_append]
  rfl

theorem lastSeen_cons : lastSeen see (e :: trace) = (lastSeen see trace).or (see e) := by
  rw [← List.singleton_append, lastSeen_append]
  congr 1
  cases hsee : see e <;> simp [lastSeen, hsee]

/-- Calls of the first component show nothing that belongs to the second. -/
theorem lastSeen_inl {own : List (Event KCall)}
    (hsee : ∀ e : Event KCall, see (e.lift .inl) = none) :
    lastSeen see (own.map (Event.lift .inl)) = none := by
  rw [lastSeen, List.filterMap_map]
  have hnone : own.filterMap (see ∘ Event.lift .inl) = [] :=
    List.filterMap_eq_nil_iff.mpr fun e _ => hsee e
  rw [hnone]
  rfl

end LastSeen

/-! ## Steps -/

/-- The list after a fault with a name. -/
def latched (name : String) (report : FaultReport) (head : List SmmuDeviceObj) :
    List SmmuDeviceObj :=
  ((latchScan name report head).map Prod.snd).getD head

/-- The list after a read. -/
def shown (name : String) (head : List SmmuDeviceObj) : List SmmuDeviceObj :=
  ((showScan name head).map fun found => found.2.2).getD head

/-- What a request can do. -/
inductive FaultStep (name : Device → String) (f : FaultState) :
    FaultRequest → Option FaultEvent → FaultState → Prop
  | idle {i : FaultRequest} : FaultStep name f i none f
  /-- A registration has failed after its kobject was created. -/
  | created {kiusr : KiumdUser} {kobj : Kobject} : f.accepts kobj →
      FaultStep name f (.register kiusr) none { f with kobjects := kobj :: f.kobjects }
  | registered {kiusr : KiumdUser} {kobj : Kobject} {dev : Device} : f.accepts kobj →
      kobj.name = name dev →
      FaultStep name f (.register kiusr) (some (.registered kobj dev))
        { head := f.head ++ [{ kobj := kobj }]
          kobjects := kobj :: f.kobjects
          handlers := Function.update f.handlers dev.domain (some kobj) }
  | deregistered {kiusr : KiumdUser} {obj : SmmuDeviceObj} {list : List SmmuDeviceObj}
      {text : String} : cutScan text f.head = some (obj, list) →
      FaultStep name f (.deregister kiusr) (some (.deregistered obj.kobj))
        { f with head := list, kobjects := f.kobjects.erase obj.kobj }
  | reported {i : FaultRequest} {report : FaultReport} {text : String} :
      FaultStep name f i (some (.reported text report.fsr (report.iova.setWidth 32)))
        { f with head := latched text report f.head }
  | read {kobj : Kobject} :
      FaultStep name f (.show (some kobj)) (some (.read kobj.name))
        { f with head := shown kobj.name f.head }

/-- The postcondition of a program that takes a step for its request. -/
def TakesStep {α : Type} (name : Device → String) (f : FaultState) (i : FaultRequest) :
    Post (Either KCall FaultCall) (World × FaultState) α :=
  fun trace _ s => FaultStep name f i (eventOf i trace) s.2

variable {name : Device → String} {w : World} {f : FaultState} {kiusr : KiumdUser}
  {report : FaultReport} {text : String}

/-- The handler takes the fault into the list, or refuses it. -/
theorem kiumdSmmuFaultHandler_steps :
    wp faultKernel .any (kiumdSmmuFaultHandler report text) (fun trace result s => result.isSome ∧
      lastSeen foundText trace = none ∧
      s.2 = if report.pgtblOps then { f with head := latched text report f.head } else f)
      (w, f) := by
  unfold kiumdSmmuFaultHandler
  by_cases hops : report.pgtblOps
  swap
  · rw [if_pos hops, if_neg hops]
    exact wp_pure.mpr ⟨rfl, rfl, rfl⟩
  rw [if_neg (not_not.mpr hops), if_pos hops]
  refine wp_right fun head f₁ hhead => ?_
  simp only [faultStep] at hhead
  split at hhead <;> cases hhead
  rename_i hhead
  subst hhead
  cases hscan : latchScan text report f.head with
  | none =>
      refine wp_pure.mpr ⟨rfl, rfl, ?_⟩
      simp [latched, hscan]
  | some found =>
      refine wp_right fun _ f₂ hwrite => ?_
      cases hwrite
      refine wp_right fun _ f₃ hnotify => ?_
      cases hnotify
      refine wp_pure.mpr ⟨rfl, rfl, ?_⟩
      simp [latched, hscan]

theorem FaultStep.of_report {i : FaultRequest} {f' : FaultState}
    (hf' : f' = if report.pgtblOps then { f with head := latched text report f.head } else f) :
    FaultStep name f i (reportEvent report text) f' := by
  unfold reportEvent
  split <;> rename_i hops
  · rw [if_pos hops] at hf'
    rw [hf']
    exact .reported
  · rw [if_neg hops] at hf'
    rw [hf']
    exact .idle

theorem reportIommuFault_steps {dom : Domain} {i : FaultRequest} :
    wp faultKernel .any (reportIommuFault dom report) (fun trace _ s => FaultStep name f i
      ((lastSeen foundText trace).bind (reportEvent report)) s.2) (w, f) := by
  unfold reportIommuFault
  refine wp_right fun token f₁ htoken => ?_
  simp only [faultStep] at htoken
  split at htoken <;> cases htoken
  cases token with
  | none => exact wp_pure.mpr .idle
  | some token =>
      refine wp_right fun text f₂ htext => ?_
      simp only [faultStep] at htext
      split at htext <;> cases htext
      rw [wp_bind]
      refine wp_mono kiumdSmmuFaultHandler_steps ?_
      rintro trace result s ⟨hsome, hnone, hs⟩
      obtain ⟨value, rfl⟩ := Option.isSome_iff_exists.mp hsome
      refine wp_pure.mpr ?_
      have htext' : lastSeen foundText ([⟨.inr (.handler dom), some token⟩] ++
          ([⟨.inr (.readToken token), text⟩] ++ (trace ++ []))) = some text := by
        rw [lastSeen_append, lastSeen_append, List.append_nil, hnone]
        rfl
      simp only [Post.after_apply, htext']
      exact .of_report hs

/-- The calls that find the device do not concern the fault handlers. -/
theorem wp_findDevice {α : Type} {fd : Int} {rest : Option VfioDevice → FaultProg α}
    {Q : Post (Either KCall FaultCall) (World × FaultState) α}
    (hnext : ∀ found (own : List (Event KCall)) w', wp faultKernel .any (rest found)
      (Q.after (own.map (Event.lift .inl))) (w', f)) :
    wp faultKernel .any ((kiumdGetVfioDevice fd).lift .inl >>= rest) Q (w, f) := by
  have hkeeps : wp kernel .any (kiumdGetVfioDevice fd) (fun _ result _ => result.isSome) w :=
    wp_mono (kiumdGetVfioDevice_keeps (Frame.refl w)) fun _ _ _ h => h.1
  rw [wp_bind]
  refine wp_mono (wp_lift_left hkeeps) ?_
  rintro _ result ⟨w', f'⟩ ⟨own, rfl, hsome, rfl⟩
  obtain ⟨found, rfl⟩ := Option.isSome_iff_exists.mp hsome
  exact hnext found own w'

theorem registerDevice_steps {dev : Device} {past : FaultTrace}
    (hpast : lastSeen askedDevice past = some dev) (hnone : lastSeen installedToken past = none) :
    wp faultKernel .any (registerDevice name dev dev.domain)
      ((TakesStep name f (.register kiusr)).after past) (w, f) := by
  have hidle : ∀ (trace : FaultTrace) {f' : FaultState}, lastSeen installedToken trace = none →
      FaultStep name f (.register kiusr) none f' →
      FaultStep name f (.register kiusr) (eventOf (.register kiusr) (past ++ trace)) f' := by
    intro trace f' htrace h
    rw [eventOf, lastSeen_append, htrace, hnone]
    exact h
  unfold registerDevice
  refine wp_right fun kobj f₁ hkobj => ?_
  cases kobj with
  | none =>
      cases hkobj
      exact wp_pure.mpr (hidle _ rfl .idle)
  | some kobj =>
  simp only [faultStep] at hkobj
  split at hkobj <;> cases hkobj
  rename_i hkobj
  refine wp_right fun err f₂ herr => ?_
  simp only [faultStep] at herr
  split at herr <;> cases herr
  split
  · exact wp_pure.mpr (hidle _ rfl (.created hkobj.2))
  refine wp_right fun obj f₃ hobj => ?_
  cases hobj
  split
  · exact wp_pure.mpr (hidle _ rfl (.created hkobj.2))
  refine wp_right fun head f₄ hhead => ?_
  simp only [faultStep] at hhead
  split at hhead <;> cases hhead
  rename_i hhead
  subst hhead
  refine wp_right fun _ f₅ hwrite => ?_
  cases hwrite
  refine wp_right fun _ f₆ hset => ?_
  cases hset
  refine wp_pure.mpr ?_
  have hevent : ∀ trace : FaultTrace, lastSeen installedToken trace = some kobj →
      lastSeen askedDevice trace = none →
      eventOf (.register kiusr) (past ++ trace) = some (.registered kobj dev) := by
    intro trace hinstalled hasked
    rw [eventOf, lastSeen_append, lastSeen_append, hinstalled, hasked, hpast]
    rfl
  simp only [Post.after_apply, TakesStep]
  rw [hevent _ rfl rfl]
  exact .registered hkobj.2 hkobj.1

theorem kiumdSmmuFaultHandlerRegister_steps :
    wp faultKernel .any (kiumdSmmuFaultHandlerRegister name kiusr)
      (TakesStep name f (.register kiusr)) (w, f) := by
  unfold kiumdSmmuFaultHandlerRegister
  refine wp_left fun copied w₁ _ => ?_
  split
  · exact wp_pure.mpr .idle
  refine wp_findDevice fun found own w₂ => ?_
  have hown : lastSeen installedToken (own.map (Event.lift .inl)) = none :=
    lastSeen_inl fun _ => rfl
  have hidle : ∀ past trace : FaultTrace, lastSeen installedToken past = none →
      lastSeen installedToken trace = none → FaultStep name f (.register kiusr)
        (eventOf (.register kiusr) (past ++ (own.map (Event.lift .inl) ++ trace))) f := by
    intro past trace hpast htrace
    rw [eventOf, lastSeen_append, lastSeen_append, hown, hpast, htrace]
    exact .idle
  cases found with
  | none =>
      exact wp_pure.mpr (hidle _ _ rfl rfl)
  | some vfioDev =>
  dsimp only
  cases vfioDev.dev with
  | none =>
      exact wp_perform_bind.mpr ⟨trivial, fun _ => hidle _ _ rfl rfl, fun answer => answer.elim⟩
  | some dev =>
  refine wp_left fun domain w₃ hdomain => ?_
  cases domain with
  | none =>
      exact wp_pure.mpr (hidle _ _ rfl rfl)
  | some domain =>
      obtain rfl : domain = dev.domain := by
        simp only [kernel, kernelStep] at hdomain
        split at hdomain
        · assumption
        · cases hdomain
      have hpast : lastSeen askedDevice ([⟨.inl (.copyFromUser (.user kiusr)), copied⟩] ++
          (own.map (Event.lift .inl) ++
            [⟨.inl (.iommuGetDmaDomain dev), some dev.domain⟩])) = some dev := by
        rw [lastSeen_append, lastSeen_append]
        rfl
      have hnone : lastSeen installedToken ([⟨.inl (.copyFromUser (.user kiusr)), copied⟩] ++
          (own.map (Event.lift .inl) ++
            [⟨.inl (.iommuGetDmaDomain dev), some dev.domain⟩])) = none := by
        rw [lastSeen_append, lastSeen_append, hown]
        rfl
      rw [Post.after_after, Post.after_after]
      exact registerDevice_steps hpast hnone

/-- Releasing a node that was found takes a step. -/
theorem releaseDeviceObj_steps {obj : SmmuDeviceObj} {list : List SmmuDeviceObj}
    {past : FaultTrace} (hcut : cutScan text f.head = some (obj, list)) :
    wp faultKernel .any (releaseDeviceObj obj list)
      ((TakesStep name f (.deregister kiusr)).after past) (w, f) := by
  unfold releaseDeviceObj
  refine wp_right fun _ f₁ hwrite => ?_
  cases hwrite
  refine wp_right fun _ f₂ hput => ?_
  cases hput
  refine wp_right fun _ f₃ hfree => ?_
  cases hfree
  refine wp_pure.mpr ?_
  have hevent : ∀ trace : FaultTrace, lastSeen releasedKobject trace = some obj.kobj →
      eventOf (.deregister kiusr) (past ++ trace) = some (.deregistered obj.kobj) := by
    intro trace htrace
    rw [eventOf, lastSeen_append, htrace]
    rfl
  simp only [Post.after_apply, TakesStep]
  rw [hevent _ rfl]
  exact .deregistered hcut

theorem kiumdSmmuFaultHandlerDeregister_steps :
    wp faultKernel .any (kiumdSmmuFaultHandlerDeregister name kiusr)
      (TakesStep name f (.deregister kiusr)) (w, f) := by
  unfold kiumdSmmuFaultHandlerDeregister
  refine wp_left fun copied w₁ _ => ?_
  split
  · exact wp_pure.mpr .idle
  refine wp_findDevice fun found own w₂ => ?_
  have hown : lastSeen releasedKobject (own.map (Event.lift .inl)) = none :=
    lastSeen_inl fun _ => rfl
  have hidle : ∀ past trace : FaultTrace, lastSeen releasedKobject past = none →
      lastSeen releasedKobject trace = none → FaultStep name f (.deregister kiusr)
        (eventOf (.deregister kiusr) (past ++ (own.map (Event.lift .inl) ++ trace))) f := by
    intro past trace hpast htrace
    rw [eventOf, lastSeen_append, lastSeen_append, hown, hpast, htrace]
    exact .idle
  cases found with
  | none =>
      exact wp_pure.mpr (hidle _ _ rfl rfl)
  | some vfioDev =>
  refine wp_right fun head f₁ hhead => ?_
  simp only [faultStep] at hhead
  split at hhead <;> cases hhead
  rename_i hhead
  cases head with
  | nil =>
      exact wp_pure.mpr (hidle _ _ rfl rfl)
  | cons temp next =>
  dsimp only
  cases vfioDev.dev with
  | none =>
      exact wp_perform_bind.mpr ⟨trivial, fun _ => hidle _ _ rfl rfl, fun answer => answer.elim⟩
  | some dev =>
  dsimp only
  split
  · rename_i hname
    have hcut : cutScan (name dev) f.head = some (temp, next) := by
      rw [← hhead, cutScan, if_pos hname]
    rw [Post.after_after, Post.after_after]
    exact releaseDeviceObj_steps hcut
  · rename_i hname
    cases hscan : cutScan (name dev) next with
    | none =>
        exact wp_pure.mpr (hidle _ _ rfl rfl)
    | some found =>
        obtain ⟨obj, list⟩ := found
        have hcut : cutScan (name dev) f.head = some (obj, temp :: list) := by
          rw [← hhead, cutScan, if_neg hname, hscan]
          rfl
        rw [Post.after_after, Post.after_after]
        exact releaseDeviceObj_steps hcut

/-- A read takes the values of the first node with the name. -/
theorem fsrIovaShow_reads {kobj : Option Kobject} :
    wp faultKernel .any (fsrIovaShow kobj) (fun _ result s => ∃ shownText, result = some shownText ∧
      match kobj with
      | none => s.2 = f
      | some kobj => s.2 = { f with head := shown kobj.name f.head } ∧ shownText =
          match showScan kobj.name f.head with
          | none => showText 0 0
          | some (fsr, iova, _) => showText fsr iova) (w, f) := by
  unfold fsrIovaShow
  refine wp_right fun head f₁ hhead => ?_
  simp only [faultStep] at hhead
  split at hhead <;> cases hhead
  rename_i hhead
  subst hhead
  cases kobj with
  | none => exact wp_pure.mpr ⟨_, rfl, rfl⟩
  | some kobj =>
      dsimp only
      cases hscan : showScan kobj.name f.head with
      | none =>
          refine wp_pure.mpr ⟨_, rfl, ?_, rfl⟩
          simp [shown, hscan]
      | some found =>
          refine wp_right fun _ f₂ hwrite => ?_
          cases hwrite
          refine wp_pure.mpr ⟨_, rfl, ?_, rfl⟩
          simp [shown, hscan]

/-- Every request takes a step. -/
theorem faultProgram_steps {i : FaultRequest} :
    wp faultKernel .any (faultProgram name i) (TakesStep name f i) (w, f) := by
  have hthen : ∀ {α : Type} {p : FaultProg α}, wp faultKernel .any p (TakesStep name f i) (w, f) →
      wp faultKernel .any (p >>= fun _ => pure (none : Option String)) (TakesStep name f i)
        (w, f) := by
    intro α p h
    rw [wp_bind]
    refine wp_mono h ?_
    intro trace result s hstep
    cases result with
    | none => exact hstep
    | some value =>
        refine wp_pure.mpr ?_
        rw [Post.after_apply, List.append_nil]
        exact hstep
  cases i with
  | register kiusr => exact hthen kiumdSmmuFaultHandlerRegister_steps
  | deregister kiusr => exact hthen kiumdSmmuFaultHandlerDeregister_steps
  | fault dom report => exact hthen reportIommuFault_steps
  | handle report text =>
      exact hthen (wp_mono kiumdSmmuFaultHandler_steps fun _ _ _ h => .of_report h.2.2)
  | «show» kobj =>
      show wp faultKernel .any (fsrIovaShow kobj >>= fun text => pure (some text)) _ _
      rw [wp_bind]
      refine wp_mono fsrIovaShow_reads ?_
      rintro trace _ ⟨w', f'⟩ ⟨text, rfl, hs⟩
      refine wp_pure.mpr ?_
      cases kobj with
      | none =>
          obtain rfl : f' = f := hs
          exact .idle
      | some kobj =>
          obtain ⟨rfl, -⟩ := hs
          exact .read

end SafeLinux.Kiumd
