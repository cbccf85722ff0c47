import SafeLinux.Kiumd.FaultTokens

/-!
# Registrations that fail

`kiumd_smmu_fault_handler_register` has one exit for all its errors and releases nothing there. A
registration that fails leaves everything as it was if and only if no step after the creation of
its kobject has failed (`register_undone_iff`). A kobject that it leaves behind has no node, so no
request can release it (`Orphan.run`) and its device cannot be registered again (`Orphan.blocks`).
-/

namespace SafeLinux.Kiumd

open Effects
open Effects.Program (perform)

/-! ## How a registration ends -/

/-- Nothing that a registration can change is different, and what could be created before can be
created again. -/
structure SameRegistrations (f f' : FaultState) : Prop where
  head : f'.head = f.head
  kobjects : f'.kobjects = f.kobjects
  handlers : f'.handlers = f.handlers
  creatable : ∀ kobj, f.accepts kobj → f'.accepts kobj

/-- If the registration fails, nothing is different. -/
def RegistrationUndone (f f' : FaultState) (result : Option Int) : Prop :=
  ∀ ret, result = some ret → ret ≠ 0 → SameRegistrations f f'

/-- The file of the kobject could not be created, or the node not be allocated. -/
def failsWithKobject : Event (Either KCall FaultCall) → Bool
  | ⟨.inr (.sysfsCreateFile _), ret⟩ => ret ≠ 0
  | ⟨.inr .kzallocDeviceObj, ok⟩ => !ok
  | _ => false

/-- The ways in which a registration can end. -/
inductive RegisterEnd (name : Device → String) (f : FaultState) (trace : FaultTrace) :
    Option Int → FaultState → Prop
  | refused {result : Option Int} : trace.any failsWithKobject = false → result ≠ some 0 →
      RegisterEnd name f trace result f
  | orphaned {kobj : Kobject} {dev : Device} {ret : Int} :
      trace.any failsWithKobject = true → ret ≠ 0 → f.accepts kobj →
      lastSeen askedDevice trace = some dev → kobj.name = name dev →
      RegisterEnd name f trace (some ret) { f with kobjects := kobj :: f.kobjects }
  | registered {kobj : Kobject} {dev : Device} :
      trace.any failsWithKobject = false → f.accepts kobj →
      lastSeen askedDevice trace = some dev → kobj.name = name dev →
      RegisterEnd name f trace (some 0)
        { head := f.head ++ [{ kobj := kobj }]
          kobjects := kobj :: f.kobjects
          handlers := Function.update f.handlers dev.domain (some kobj) }

/-- The postcondition of a registration. -/
def EndsRegistration (name : Device → String) (f : FaultState) :
    Post (Either KCall FaultCall) (World × FaultState) Int :=
  fun trace result s => RegisterEnd name f trace result s.2

variable {name names : Device → String} {w w' : World} {f f' : FaultState} {kiusr : KiumdUser}
  {dev : Device} {kobj : Kobject} {trace : FaultTrace} {result : Option Int}

theorem registerDevice_ends {past : FaultTrace} (hasked : lastSeen askedDevice past = some dev)
    (hpast : past.any failsWithKobject = false) :
    wp faultKernel .any (registerDevice name dev dev.domain) ((EndsRegistration name f).after past)
      (w, f) := by
  have hany : ∀ trace : FaultTrace,
      (past ++ trace).any failsWithKobject = trace.any failsWithKobject := by
    intro trace
    rw [List.any_append, hpast, Bool.false_or]
  have hlast : ∀ trace : FaultTrace, lastSeen askedDevice trace = none →
      lastSeen askedDevice (past ++ trace) = some dev := by
    intro trace htrace
    rw [lastSeen_append, htrace, hasked]
    rfl
  unfold registerDevice
  refine wp_right fun kobj f₁ hkobj => ?_
  cases kobj with
  | none =>
      cases hkobj
      exact wp_pure.mpr (.refused ((hany _).trans rfl) (by decide))
  | some kobj =>
  simp only [faultStep] at hkobj
  split at hkobj <;> cases hkobj
  rename_i hkobj
  obtain ⟨hname, haccepts⟩ := hkobj
  refine wp_right fun err f₂ herr => ?_
  simp only [faultStep] at herr
  split at herr <;> cases herr
  split
  · rename_i herr
    refine wp_pure.mpr (.orphaned ((hany _).trans ?_) herr haccepts (hlast _ rfl) hname)
    simpa [failsWithKobject] using herr
  rename_i herr
  refine wp_right fun obj f₃ hobj => ?_
  cases hobj
  split
  · rename_i hobj
    refine wp_pure.mpr (.orphaned ((hany _).trans ?_) (by decide) haccepts (hlast _ rfl) hname)
    simp [failsWithKobject, hobj]
  rename_i hobj
  refine wp_right fun head f₄ hhead => ?_
  simp only [faultStep] at hhead
  split at hhead <;> cases hhead
  rename_i hhead
  subst hhead
  refine wp_right fun _ f₅ hwrite => ?_
  cases hwrite
  refine wp_right fun _ f₆ hset => ?_
  cases hset
  refine wp_pure.mpr (.registered ((hany _).trans ?_) haccepts (hlast _ rfl) hname)
  simpa [failsWithKobject] using ⟨not_not.mp herr, not_not.mp hobj⟩

/-- The calls that find the device do not fail with a kobject. -/
theorem any_inl {own : List (Event KCall)} :
    List.any (own.map (Event.lift Sum.inl)) failsWithKobject = false := by
  rw [List.any_map, List.any_eq_false]
  intro e _
  exact Bool.false_ne_true

theorem kiumdSmmuFaultHandlerRegister_ends :
    wp faultKernel .any (kiumdSmmuFaultHandlerRegister name kiusr) (EndsRegistration name f)
      (w, f) := by
  unfold kiumdSmmuFaultHandlerRegister
  refine wp_left fun copied w₁ _ => ?_
  split
  · exact wp_pure.mpr (.refused rfl (by decide))
  refine wp_findDevice fun found own w₂ => ?_
  have hany : ∀ past trace : FaultTrace, past.any failsWithKobject = false →
      trace.any failsWithKobject = false →
      List.any (past ++ (own.map (Event.lift Sum.inl) ++ trace)) failsWithKobject = false := by
    intro past trace hpast htrace
    rw [List.any_append, List.any_append, hpast, any_inl, htrace]
    rfl
  cases found with
  | none => exact wp_pure.mpr (.refused (hany _ _ rfl rfl) (by decide))
  | some vfioDev =>
  dsimp only
  cases vfioDev.dev with
  | none =>
      refine wp_perform_bind.mpr ⟨trivial, fun _ => ?_, fun answer => answer.elim⟩
      exact .refused (hany _ _ rfl rfl) (by decide)
  | some dev =>
  refine wp_left fun domain w₃ hdomain => ?_
  cases domain with
  | none => exact wp_pure.mpr (.refused (hany _ _ rfl rfl) (by decide))
  | some domain =>
      obtain rfl : domain = dev.domain := by
        simp only [kernel, kernelStep] at hdomain
        split at hdomain
        · assumption
        · cases hdomain
      have hasked : lastSeen askedDevice ([⟨.inl (.copyFromUser (.user kiusr)), copied⟩] ++
          (own.map (Event.lift .inl) ++
            [⟨.inl (.iommuGetDmaDomain dev), some dev.domain⟩])) = some dev := by
        rw [lastSeen_append, lastSeen_append]
        rfl
      rw [Post.after_after, Post.after_after]
      exact registerDevice_ends hasked (hany _ _ rfl rfl)

theorem registerEnd_of_exec
    (hexec : Exec faultKernel (kiumdSmmuFaultHandlerRegister name kiusr) (w, f) trace result
      (w', f')) : RegisterEnd name f trace result f' := by
  have hend : EndsRegistration name f trace result (w', f') :=
    wp_exec kiumdSmmuFaultHandlerRegister_ends hexec
  exact hend

/-- A registration that fails leaves everything as it was if and only if neither the creation of
the file of its kobject nor the allocation of its node has failed. -/
theorem register_undone_iff
    (hexec : Exec faultKernel (kiumdSmmuFaultHandlerRegister name kiusr) (w, f) trace result
      (w', f')) :
    RegistrationUndone f f' result ↔ ∀ e ∈ trace, failsWithKobject e = false := by
  have hiff : trace.any failsWithKobject = false ↔ ∀ e ∈ trace, failsWithKobject e = false := by
    simp only [List.any_eq_false, Bool.not_eq_true]
  rw [← hiff]
  cases registerEnd_of_exec hexec with
  | refused hany hne =>
      exact iff_of_true (fun _ _ _ => ⟨rfl, rfl, rfl, fun _ h => h⟩) hany
  | orphaned hany hret =>
      refine iff_of_false (fun hundone => ?_) (by rw [hany]; decide)
      exact List.cons_ne_self _ _ (hundone _ rfl hret).kobjects
  | registered hany =>
      refine iff_of_true (fun ret hresult hret => ?_) hany
      exact absurd (Option.some.inj hresult).symm hret

/-- Answers in which no node can be allocated, and a kobject be created only if `created`. -/
def withoutNode (created : Bool) : Chooser (Either KCall FaultCall) (World × FaultState)
  | _, .inr (.kobjectCreateAndAdd name), s =>
      some (if created then some ⟨s.2.kobjects.length, name⟩ else none)
  | _, .inr .kzallocDeviceObj, _ => some false
  | β, request, s => faultChoose (Answers.plain fun _ _ => false) β request s

/-- A registration whose kobject cannot be created leaves everything as it was. -/
theorem register_undone_iff_no_kobject : ∃ trace w' f',
    Exec faultKernel (kiumdSmmuFaultHandlerRegister (fun _ => "gpu") plainUser) (.initial, {})
      trace (some (-ENOMEM)) (w', f') ∧ RegistrationUndone {} f' (some (-ENOMEM)) := by
  have hcheck : (kiumdSmmuFaultHandlerRegister (fun _ => "gpu") plainUser).check faultKernel
      (withoutNode false) (.initial, {})
      (fun trace ret _ => decide (ret = -ENOMEM) && trace.all (!failsWithKobject ·)) = true := by
    decide +kernel
  obtain ⟨trace, ret, ⟨w', f'⟩, hexec, htest⟩ := Program.check_exec hcheck
  simp only [Bool.and_eq_true, decide_eq_true_eq, List.all_eq_true, Bool.not_eq_true'] at htest
  obtain ⟨rfl, hfails⟩ := htest
  exact ⟨trace, w', f', hexec, (register_undone_iff hexec).mpr hfails⟩

/-- A registration whose node cannot be allocated leaves its kobject behind. -/
theorem not_register_undone : ¬ ∀ name kiusr w f trace result w' f',
    Exec faultKernel (kiumdSmmuFaultHandlerRegister name kiusr) (w, f) trace result (w', f') →
      RegistrationUndone f f' result := by
  intro hall
  have hcheck : (kiumdSmmuFaultHandlerRegister (fun _ => "gpu") plainUser).check faultKernel
      (withoutNode true) (.initial, {})
      (fun _ ret s => decide (ret ≠ 0) && decide (s.2.kobjects ≠ [])) = true := by
    decide +kernel
  obtain ⟨trace, ret, ⟨w', f'⟩, hexec, htest⟩ := Program.check_exec hcheck
  simp only [Bool.and_eq_true, decide_eq_true_eq] at htest
  obtain ⟨hret, hkobjects⟩ := htest
  exact hkobjects (hall _ _ _ _ _ _ _ _ hexec ret rfl hret).kobjects

/-! ## Kobjects left behind -/

/-- A kobject that no node of the list has. -/
structure Orphan (kobj : Kobject) (f : FaultState) : Prop where
  live : kobj ∈ f.kobjects
  unlisted : kobj ∉ f.head.map SmmuDeviceObj.kobj

variable {text : String} {report : FaultReport} {head list : List SmmuDeviceObj}

theorem latchScan_kobjs (h : latchScan text report head = some (kobj, list)) :
    list.map SmmuDeviceObj.kobj = head.map SmmuDeviceObj.kobj := by
  induction head generalizing list with
  | nil => cases h
  | cons temp next ih =>
      rw [latchScan] at h
      split at h
      · cases h
        rfl
      · obtain ⟨⟨kobj', list'⟩, hscan, heq⟩ := Option.map_eq_some_iff.mp h
        cases heq
        rw [List.map_cons, List.map_cons, ih hscan]

theorem showScan_kobjs {fsr iova : U32} (h : showScan text head = some (fsr, iova, list)) :
    list.map SmmuDeviceObj.kobj = head.map SmmuDeviceObj.kobj := by
  induction head generalizing list with
  | nil => cases h
  | cons temp next ih =>
      rw [showScan] at h
      split at h
      · cases h
        rfl
      · obtain ⟨⟨fsr', iova', list'⟩, hscan, heq⟩ := Option.map_eq_some_iff.mp h
        cases heq
        rw [List.map_cons, List.map_cons, ih hscan]

/-- A fault changes no kobject of a node. -/
theorem latched_kobjs :
    (latched text report head).map SmmuDeviceObj.kobj = head.map SmmuDeviceObj.kobj := by
  unfold latched
  cases hscan : latchScan text report head with
  | none => rfl
  | some found => exact latchScan_kobjs hscan

/-- A read changes no kobject of a node. -/
theorem shown_kobjs : (shown text head).map SmmuDeviceObj.kobj = head.map SmmuDeviceObj.kobj := by
  unfold shown
  cases hscan : showScan text head with
  | none => rfl
  | some found => exact showScan_kobjs hscan

/-- No request takes away a kobject without a node, or gives it one. -/
theorem Orphan.step {i : FaultRequest} {event : Option FaultEvent} (h : Orphan kobj f)
    (hstep : FaultStep names f i event f') : Orphan kobj f' := by
  cases hstep with
  | idle => exact h
  | created => exact ⟨List.mem_cons_of_mem _ h.live, h.unlisted⟩
  | registered haccepts =>
      refine ⟨List.mem_cons_of_mem _ h.live, ?_⟩
      rw [List.map_append, List.mem_append]
      rintro (hold | hnew)
      · exact h.unlisted hold
      · obtain rfl := List.mem_singleton.mp hnew
        exact (haccepts _ h.live).1 rfl
  | deregistered hcut =>
      obtain ⟨-, before, after, hhead, rfl⟩ := cutScan_spec hcut
      have hunlisted := h.unlisted
      rw [hhead, List.map_append, List.map_cons, List.mem_append, List.mem_cons] at hunlisted
      obtain ⟨hbefore, hrest⟩ := not_or.mp hunlisted
      obtain ⟨hne, hafter⟩ := not_or.mp hrest
      refine ⟨(List.mem_erase_of_ne hne).mpr h.live, ?_⟩
      rw [List.map_append, List.mem_append]
      exact not_or.mpr ⟨hbefore, hafter⟩
  | reported =>
      refine ⟨h.live, ?_⟩
      show kobj ∉ (latched _ _ f.head).map SmmuDeviceObj.kobj
      rw [latched_kobjs]
      exact h.unlisted
  | read =>
      refine ⟨h.live, ?_⟩
      show kobj ∉ (shown _ f.head).map SmmuDeviceObj.kobj
      rw [shown_kobjs]
      exact h.unlisted

/-- A kobject without a node stays so in every run. -/
theorem Orphan.run {s s' : World × FaultState}
    {history : History FaultRequest (Either KCall FaultCall)} (h : Orphan kobj s.2)
    (hrun : Run faultKernel (faultProgram names) .any s history s') : Orphan kobj s'.2 := by
  refine hrun.invariant (fun _ s => Orphan kobj s.2) h ?_
  rintro history i ⟨w, f⟩ horphan
  exact wp_mono faultProgram_steps fun _ _ _ hstep _ => horphan.step hstep

/-- A device with the name of such a kobject cannot be registered. -/
theorem Orphan.blocks (h : Orphan kobj f)
    (hexec : Exec faultKernel (kiumdSmmuFaultHandlerRegister name kiusr) (w, f) trace result
      (w', f'))
    (hasked : lastSeen askedDevice trace = some dev) (hname : kobj.name = name dev) :
    result ≠ some 0 := by
  cases registerEnd_of_exec hexec with
  | refused _ hne => exact hne
  | orphaned _ hret => exact fun hresult => hret (Option.some.inj hresult)
  | registered _ haccepts hasked' hname' =>
      obtain rfl := Option.some.inj (hasked.symm.trans hasked')
      exact absurd (hname.trans hname'.symm) (haccepts kobj h.live).2

/-- After every run, a registration that fails when its kobject exists leaves this behind. -/
theorem FaultRun.orphans {w₀ : World} {history : History FaultRequest (Either KCall FaultCall)}
    (hrun : FaultRun names w₀ history (w, f))
    (hexec : Exec faultKernel (kiumdSmmuFaultHandlerRegister name kiusr) (w, f) trace result
      (w', f'))
    (hfails : ¬ ∀ e ∈ trace, failsWithKobject e = false) :
    ∃ kobj dev, Orphan kobj f' ∧ lastSeen askedDevice trace = some dev ∧ kobj.name = name dev := by
  have hnot : trace.any failsWithKobject ≠ false := by
    intro hany
    refine hfails fun e he => ?_
    simpa using List.any_eq_false.mp hany e he
  cases registerEnd_of_exec hexec with
  | refused hany => exact absurd hany hnot
  | registered hany => exact absurd hany hnot
  | @orphaned kobj dev _ _ _ haccepts hasked hname =>
      refine ⟨kobj, dev, ⟨List.mem_cons_self, ?_⟩, hasked, hname⟩
      intro hlisted
      obtain ⟨obj, hobj, rfl⟩ := List.mem_map.mp hlisted
      exact (haccepts _ (hrun.latches.live obj hobj)).1 rfl

end SafeLinux.Kiumd
