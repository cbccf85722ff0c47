import SafeLinux.KryoEdac.Checks

/-!
# The handler lock and the panic notifier

`panic` runs `kryo_cpu_panic_notify` on the CPU it was called on, with the locks this CPU holds.
`Running` lists the programs a CPU runs from an entry point on, and `LockSafe` says that none of
them acquires `local_handler_lock` while the CPU holds it and that each that returns has released
it. Each check is given its exact weakest precondition, and `lockSafe_entry_iff` derives from them
when an entry point is safe.
-/

namespace SafeLinux.KryoEdac

open Effects
open Effects.Program (perform)

/-! ## Running an entry point -/

/-- The programs a CPU runs from an entry point on: the entry point's own, and the panic notifier
after each panic. -/
inductive Running (c : Config) (entry : KryoProg Int) (s : Cpu) : KryoProg Int → Cpu → Prop where
  | entry : Running c entry s entry s
  | notifier {p : KryoProg Int} {s₁ s₂ : Cpu} {trace : List (Event KryoCall)} :
      Running c entry s p s₁ → Pending kryo p s₁ trace .panic s₂ →
      Running c entry s (kryoCpuPanicNotify c) s₂

/-- No program acquires the lock while this CPU holds it, and each that returns has released
it. -/
structure LockSafe (c : Config) (entry : KryoProg Int) (s : Cpu) : Prop where
  acquires : ∀ p s₁ trace s₂, Running c entry s p s₁ →
    Pending kryo p s₁ trace .spinLock s₂ → s₂.lockHeld = false
  released : ∀ p s₁ trace value s₂, Running c entry s p s₁ →
    Exec kryo p s₁ trace (some value) s₂ → s₂.lockHeld = false

/-- A program that returns has released the lock. -/
def releasedLock (result : Option Int) (s : Cpu) : Prop :=
  result.isSome → s.lockHeld = false

variable {c : Config} {s : Cpu}

/-- The programs run after a panic of the entry point. -/
theorem Running.from_panic {entry p : KryoProg Int} {s₁ s₂ s₃ : Cpu}
    {trace : List (Event KryoCall)} (hpanic : Pending kryo entry s₁ trace .panic s₂)
    (h : Running c (kryoCpuPanicNotify c) s₂ p s₃) : Running c entry s₁ p s₃ := by
  induction h with
  | entry => exact .notifier .entry hpanic
  | notifier _ hnext ih => exact .notifier ih hnext

/-- A program run from an entry point is its own or is run after its first panic. -/
theorem Running.cases_first {entry p : KryoProg Int} {s₁ : Cpu} (h : Running c entry s p s₁) :
    (p = entry ∧ s₁ = s) ∨ ∃ trace s₂, Pending kryo entry s trace .panic s₂ ∧
      Running c (kryoCpuPanicNotify c) s₂ p s₁ := by
  induction h with
  | entry => exact .inl ⟨rfl, rfl⟩
  | notifier _ hnext ih =>
      obtain ⟨rfl, rfl⟩ | ⟨trace, s₂, hpanic, hrest⟩ := ih
      · exact .inr ⟨_, _, hnext, .entry⟩
      · exact .inr ⟨trace, s₂, hpanic, .notifier hrest hnext⟩

/-- An entry point is safe if its program is, with a safe notifier at each panic. -/
theorem lockSafe_iff {entry : KryoProg Int} : LockSafe c entry s ↔
    wps kryo (lockGuard (LockSafe c (kryoCpuPanicNotify c))) entry releasedLock s := by
  constructor
  · intro h
    refine ⟨?_, ?_⟩
    · intro trace δ request s₂ hpending
      cases request with
      | spinLock => exact h.acquires _ _ _ _ .entry hpending
      | panic =>
          refine ⟨?_, ?_⟩
          · intro p s₃ trace' s₄ hrun
            exact h.acquires p s₃ trace' s₄ (hrun.from_panic hpending)
          · intro p s₃ trace' value s₄ hrun
            exact h.released p s₃ trace' value s₄ (hrun.from_panic hpending)
      | _ => trivial
    · intro trace result s₂ hexec hsome
      obtain ⟨value, rfl⟩ := Option.isSome_iff_exists.mp hsome
      exact h.released _ _ _ _ _ .entry hexec
  · intro h
    refine ⟨?_, ?_⟩
    · intro p s₁ trace s₂ hrun hpending
      obtain ⟨rfl, rfl⟩ | ⟨_, s₃, hpanic, hrest⟩ := hrun.cases_first
      · exact wp_pending h hpending
      · exact (wp_pending h hpanic : LockSafe c _ s₃).acquires _ _ _ _ hrest hpending
    · intro p s₁ trace value s₂ hrun hexec
      obtain ⟨rfl, rfl⟩ | ⟨_, s₃, hpanic, hrest⟩ := hrun.cases_first
      · exact wp_exec h hexec rfl
      · exact (wp_pending h hpanic : LockSafe c _ s₃).released _ _ _ _ _ hrest hexec


/-! ## Checks under the lock -/

variable {Q : Option Unit → Cpu → Prop}

/-- A panic with the lock held is not safe: the notifier acquires the lock again. -/
theorem not_lockSafe_held (hheld : s.lockHeld = true) : ¬ LockSafe c (kryoCpuPanicNotify c) s := by
  intro h
  have hwp := lockSafe_iff.mp h
  rw [kryoCpuPanicNotify, wps_answer rfl (by trivial), wps_bind, wps_kryoCheckL3ScuError] at hwp
  exact absurd hwp.1 (by simp [hheld])

/-- A check under the lock is safe if it does not panic. -/
theorem afterCheck_held {report : Option Report} {done : Cpu → Cpu} (hheld : s.lockHeld = true) :
    AfterCheck c (LockSafe c (kryoCpuPanicNotify c)) Q report done s ↔
      ¬ ReportPanics c s.panicOnUe report ∧ Q (some ()) (done (s.reports c report)) := by
  by_cases hpanics : ReportPanics c s.panicOnUe report
  · have hunsafe : ¬ LockSafe c (kryoCpuPanicNotify c) (s.reports c report) :=
      not_lockSafe_held ((s.reports_lockHeld report).trans hheld)
    simp only [afterCheck_of_panics hpanics, hpanics, hunsafe, false_and, not_true_eq_false]
  · rw [afterCheck_of_not_panics hpanics, and_iff_right hpanics]

/-- `kryo_check_l1_l2_ecc` is safe if it acquires a free lock and does not panic. -/
theorem safe_kryoCheckL1L2Ecc :
    wps kryo (lockGuard (LockSafe c (kryoCpuPanicNotify c))) (kryoCheckL1L2Ecc c) Q s ↔
      s.lockHeld = false ∧ ¬ ReportPanics c s.panicOnUe (l1L2Report c (s.record 0)) ∧
        Q (some ()) (s.checkedL1L2 c) := by
  rw [wps_kryoCheckL1L2Ecc, afterCheck_held rfl]
  rfl

/-- `kryo_check_l3_scu_error` is safe if it acquires a free lock and panics at most on a bus
error, in a state in which the notifier is safe. -/
theorem safe_kryoCheckL3ScuError :
    wps kryo (lockGuard (LockSafe c (kryoCpuPanicNotify c))) (kryoCheckL3ScuError c) Q s ↔
      s.lockHeld = false ∧
        if L3BusError (s.record 1) ∧ s.panicOnUe = true then
          LockSafe c (kryoCpuPanicNotify c) (s.entered 1).left ∧ Q none (s.entered 1).left
        else
          ¬ ReportPanics c s.panicOnUe (l3Report (s.record 1)) ∧
            Q (some ()) (s.checkedL3 c) := by
  rw [wps_kryoCheckL3ScuError, afterCheck_held rfl]
  rfl

/-! ## The entry points -/

/-- The L1/L2 check at the end of an entry point. -/
theorem safe_kryoCheckL1L2Ecc_last {value : Int} :
    wps kryo (lockGuard (LockSafe c (kryoCpuPanicNotify c)))
        (kryoCheckL1L2Ecc c >>= fun _ => pure value) releasedLock s ↔
      s.lockHeld = false ∧ ¬ ReportPanics c s.panicOnUe (l1L2Report c (s.record 0)) := by
  simp [wps_bind, safe_kryoCheckL1L2Ecc, wps_pure, releasedLock]

/-- The L3 check and then the L1/L2 check at the end of an entry point, in a state in which the
L3 check does not panic on a bus error. -/
theorem safe_checks_last {value : Int} (hfree : s.lockHeld = false)
    (hbus : ¬ (L3BusError (s.record 1) ∧ s.panicOnUe = true)) :
    wps kryo (lockGuard (LockSafe c (kryoCpuPanicNotify c)))
        (kryoCheckL3ScuError c >>= fun _ => kryoCheckL1L2Ecc c >>= fun _ => pure value)
        releasedLock s ↔
      ¬ ReportPanics c s.panicOnUe (l3Report (s.record 1)) ∧
        ¬ ReportPanics c s.panicOnUe (l1L2Report c (s.record 0)) := by
  rw [wps_bind, safe_kryoCheckL3ScuError, if_neg hbus]
  simp only [hfree, safe_kryoCheckL1L2Ecc_last, Cpu.checkedL3_lockHeld, Cpu.checkedL3_panicOnUe,
    Cpu.checkedL3_record, true_and]

/-- `kryo_cpu_panic_notify` is safe if neither check panics with `panic_on_ue` reset. -/
theorem lockSafe_kryoCpuPanicNotify (hfree : s.lockHeld = false) :
    LockSafe c (kryoCpuPanicNotify c) s ↔
      ¬ ReportPanics c false (l3Report (s.record 1)) ∧
        ¬ ReportPanics c false (l1L2Report c (s.record 0)) := by
  refine lockSafe_iff.trans ((wps_answer rfl (by trivial)).trans ?_)
  exact safe_checks_last hfree (fun h => nomatch h.2)

/-- `kryo_l1_l2_handler` is safe if its check does not panic. -/
theorem lockSafe_kryoL1L2Handler (hfree : s.lockHeld = false) :
    LockSafe c (kryoL1L2Handler c) s ↔
      ¬ ReportPanics c s.panicOnUe (l1L2Report c (s.record 0)) := by
  rw [lockSafe_iff, kryoL1L2Handler, safe_kryoCheckL1L2Ecc_last, and_iff_right hfree]

/-- `kryo_l3_scu_handler` is safe if its check does not panic under the lock, and the notifier does
not panic under the lock if the check panics on a bus error. -/
theorem lockSafe_kryoL3ScuHandler (hfree : s.lockHeld = false) :
    LockSafe c (kryoL3ScuHandler c) s ↔
      ¬ (ReportPanics c s.panicOnUe (l3Report (s.record 1)) ∨
        (L3BusError (s.record 1) ∧ s.panicOnUe = true ∧
          ReportPanics c false (l1L2Report c (s.record 0)))) := by
  rw [lockSafe_iff, kryoL3ScuHandler, wps_bind, safe_kryoCheckL3ScuError, and_iff_right hfree]
  by_cases hbus : L3BusError (s.record 1) ∧ s.panicOnUe = true
  · rw [if_pos hbus, lockSafe_kryoCpuPanicNotify rfl]
    change (¬ ReportPanics c false (l3Report (s.record 1)) ∧
      ¬ ReportPanics c false (l1L2Report c (s.record 0))) ∧ (false = true → _) ↔ _
    obtain ⟨herror, hpanic⟩ := hbus
    simp only [l3Report_busError herror, not_reportPanics_none, herror, hpanic, true_and,
      not_false_eq_true, false_or, Bool.false_eq_true, false_implies, and_true]
  · rw [if_neg hbus, wps_pure]
    simp only [releasedLock, Cpu.checkedL3_lockHeld, implies_true, and_true]
    refine not_congr ⟨.inl, ?_⟩
    rintro (h | ⟨herror, hpanic, _⟩)
    · exact h
    · exact absurd ⟨herror, hpanic⟩ hbus

/-- A record after `initialize_registers`. -/
def ErrRecord.reinitialised (r : ErrRecord) : ErrRecord :=
  { r with ctlr := 0x10f, misc := 0x7F7F00000000 }

/-- The CPU after `init_regs_on_cpu(false)`. -/
def Cpu.reinitialised (s : Cpu) : Cpu :=
  { s with
    errselr := 1
    record := fun i => if i = 0 ∨ i = 1 then (s.record i).reinitialised else s.record i }

theorem Cpu.reinitialised_record (s : Cpu) {i : U64} (hi : i = 0 ∨ i = 1) :
    s.reinitialised.record i = (s.record i).reinitialised :=
  if_pos hi

/-- The rule for `init_regs_on_cpu(false)`, and what follows it. -/
theorem wps_initRegsOnCpu {safe : Cpu → Prop} {α : Type} {rest : Unit → KryoProg α}
    {Q : Option α → Cpu → Prop} :
    wps kryo (lockGuard safe) (initRegsOnCpu >>= rest) Q s ↔
      wps kryo (lockGuard safe) (rest ()) Q s.reinitialised := by
  unfold initRegsOnCpu initializeRegisters setErrxctlrEl1 setErrxmiscOverflow
  refine (wps_answer rfl (by trivial)).trans ?_
  refine (wps_answer rfl (by trivial)).trans ?_
  refine (wps_answer rfl (by trivial)).trans ?_
  refine (wps_answer rfl (by trivial)).trans ?_
  refine (wps_answer rfl (by trivial)).trans ?_
  refine (wps_answer rfl (by trivial)).trans ?_
  refine Iff.of_eq (congrArg (wps kryo (lockGuard safe) (rest ()) Q) ?_)
  simp only [Cpu.setSelected, Cpu.selected, Cpu.reinitialised, Cpu.mk.injEq, and_true, true_and]
  funext i
  by_cases h1 : i = 1
  · simp [h1, ErrRecord.reinitialised]
  · by_cases h0 : i = 0
    · simp [h0, ErrRecord.reinitialised]
    · have hother : ¬ (i = 0 ∨ i = 1) := not_or.mpr ⟨h0, h1⟩
      simp only [if_neg h0, if_neg h1, if_neg hother]

/-- Reinitialised registers hold no error of the L3 cache. -/
theorem not_l3Located_reinitialised (r : ErrRecord) : ¬ L3Located r.reinitialised := by
  rintro ⟨_, hlvl⟩
  have hmisc : errxmiscLvl 0x7F7F00000000 ≠ L3_BIT := by decide
  exact hmisc hlvl

theorem l3Report_reinitialised (r : ErrRecord) : l3Report r.reinitialised = none := by
  simp [l3Report, not_l3Located_reinitialised]

/-- `kryo_pmu_cpu_pm_notify` is safe if its action is not `CPU_PM_EXIT` or if the L1/L2 check does
not panic on the reinitialised record. -/
theorem lockSafe_kryoPmuCpuPmNotify (action : CpuPmEvent) (hfree : s.lockHeld = false) :
    LockSafe c (kryoPmuCpuPmNotify c action) s ↔
      ¬ (action = .cpuPmExit ∧
        ReportPanics c s.panicOnUe (l1L2Report c (s.record 0).reinitialised)) := by
  rw [lockSafe_iff, kryoPmuCpuPmNotify]
  by_cases haction : action = .cpuPmExit
  · simp only [haction, if_true, true_and]
    refine wps_initRegsOnCpu.trans ?_
    have hnone : l3Report (s.reinitialised.record 1) = none := by
      rw [s.reinitialised_record (.inr rfl), l3Report_reinitialised]
    have hbus : ¬ (L3BusError (s.reinitialised.record 1) ∧ s.reinitialised.panicOnUe = true) := by
      rw [s.reinitialised_record (.inr rfl)]
      exact fun h => not_l3Located_reinitialised _ h.1.1
    rw [@safe_checks_last c s.reinitialised _ hfree hbus, hnone, s.reinitialised_record (.inl rfl)]
    exact and_iff_right not_reportPanics_none
  · simp only [haction, if_false, false_and, not_false_eq_true, iff_true]
    exact wps_pure.mpr fun _ => hfree

/-- The ways into the driver. -/
inductive Entry where
  | l1L2Irq
  | l3Irq
  | cpuPm (action : CpuPmEvent)
  | panicNotifier

/-- The program of an entry point. -/
def Entry.program (c : Config) : Entry → KryoProg Int
  | .l1L2Irq => kryoL1L2Handler c
  | .l3Irq => kryoL3ScuHandler c
  | .cpuPm action => kryoPmuCpuPmNotify c action
  | .panicNotifier => kryoCpuPanicNotify c

/-- When an entry point panics with the lock held, by the contents of the error records and
`panic_on_ue`: it reports an error whose severity panics, or the notifier does after a bus
error. -/
def PanicsLocked (c : Config) (record : U64 → ErrRecord) (panicOnUe : Bool) : Entry → Prop
  | .l1L2Irq => ReportPanics c panicOnUe (l1L2Report c (record 0))
  | .l3Irq => ReportPanics c panicOnUe (l3Report (record 1)) ∨
      (L3BusError (record 1) ∧ panicOnUe = true ∧ ReportPanics c false (l1L2Report c (record 0)))
  | .cpuPm action => action = .cpuPmExit ∧
      ReportPanics c panicOnUe (l1L2Report c (record 0).reinitialised)
  | .panicNotifier => ReportPanics c false (l3Report (record 1)) ∨
      ReportPanics c false (l1L2Report c (record 0))

/-- The CPU when it enters the driver: it does not hold the lock. -/
def Cpu.entering (errselr : U64) (record : U64 → ErrRecord) (panicOnUe : Bool)
    (reported : List ErrorEvent) : Cpu :=
  ⟨errselr, record, panicOnUe, false, reported⟩

/-- An entry point is safe exactly if it does not panic with the lock held. -/
theorem lockSafe_entry_iff (c : Config) (entry : Entry) (errselr : U64) (record : U64 → ErrRecord)
    (panicOnUe : Bool) (reported : List ErrorEvent) :
    LockSafe c (entry.program c) (Cpu.entering errselr record panicOnUe reported) ↔
      ¬ PanicsLocked c record panicOnUe entry := by
  cases entry with
  | l1L2Irq => exact lockSafe_kryoL1L2Handler rfl
  | l3Irq => exact lockSafe_kryoL3ScuHandler rfl
  | cpuPm action => exact lockSafe_kryoPmuCpuPmNotify action rfl
  | panicNotifier => exact (lockSafe_kryoCpuPanicNotify rfl).trans not_or.symm

/-- A record with a valid uncorrectable error. -/
def uncorrectable : ErrRecord := ⟨0, 0x60000000, 0⟩

/-- An uncorrectable L1 error with `panic_on_ue` set panics with the lock held. -/
theorem l1L2Irq_not_lockSafe :
    ¬ ∀ (c : Config) (entry : Entry) (errselr : U64) (record : U64 → ErrRecord) (panicOnUe : Bool)
      (reported : List ErrorEvent),
      LockSafe c (entry.program c) (Cpu.entering errselr record panicOnUe reported) := by
  intro h
  have hsafe := h ⟨0, QCOM_CPU_PART_KRYO4XX_SILVER_V1, false⟩ .l1L2Irq 0 (fun _ => uncorrectable)
    true []
  exact (lockSafe_kryoL1L2Handler rfl).mp hsafe ⟨.l1Ue, .l1, by decide, rfl⟩

end SafeLinux.KryoEdac
