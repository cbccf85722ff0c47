import SafeLinux.KryoEdac.HandlerLock

/-!
# Errors reported on leaving a low-power state

On `CPU_PM_EXIT` the driver reinitialises the registers of both error records and then checks
them. With panics disabled every entry point returns, and the events it reports are a function of
the records. Comparing the events with those of the same checks on the untouched records says which
errors the reinitialisation hides or places on another level.
-/

namespace SafeLinux.KryoEdac

open Effects

variable {c : Config} {s : Cpu} {safe : Cpu → Prop}

/-- `kryo_check_l3_scu_error` and then `kryo_check_l1_l2_ecc`. -/
def kryoChecks (c : Config) : KryoProg Unit := do
  kryoCheckL3ScuError c
  kryoCheckL1L2Ecc c

/-- What an event says of the error: its level and whether it was corrected. -/
def ErrorEvent.kind (e : ErrorEvent) : Level × Severity := (e.level, e.severity)

/-- The kinds of the events reported so far. -/
def Cpu.kinds (s : Cpu) : List (Level × Severity) := s.reported.map ErrorEvent.kind

/-- The kinds of the events of a report. -/
def reportKinds (report : Option Report) : List (Level × Severity) :=
  report.toList.map fun r => (r.2, r.1.severity)

/-- Without panics no report panics. -/
theorem not_reportPanics (hce : c.panicOnCe = false) (report : Option Report) :
    ¬ ReportPanics c false report := by
  rintro ⟨errorcode, level, _, hpanics⟩
  unfold panics at hpanics
  split at hpanics
  · exact absurd hpanics (by simp [hce])
  · exact absurd hpanics (by simp)

@[simp] theorem Cpu.entered_kinds (record : U64) : (s.entered record).kinds = s.kinds := rfl

@[simp] theorem Cpu.left_kinds : s.left.kinds = s.kinds := rfl

@[simp] theorem Cpu.cleared_kinds (errxstatus : U64) : (s.cleared errxstatus).kinds = s.kinds := rfl

@[simp] theorem Cpu.reports_kinds (report : Option Report) :
    (s.reports c report).kinds = s.kinds ++ reportKinds report := by
  cases report with
  | none => simp [Cpu.reports, reportKinds]
  | some report => simp [Cpu.reports, Cpu.told, Cpu.kinds, reportKinds, eventOf, ErrorEvent.kind]

@[simp] theorem Cpu.checkedL1L2_kinds :
    (s.checkedL1L2 c).kinds = s.kinds ++ reportKinds (l1L2Report c (s.record 0)) := by
  unfold Cpu.checkedL1L2
  dsimp only
  split <;> simp

@[simp] theorem Cpu.checkedL3_kinds :
    (s.checkedL3 c).kinds = s.kinds ++ reportKinds (l3Report (s.record 1)) := by
  unfold Cpu.checkedL3
  dsimp only
  split <;> simp

/-! ## What the checks report -/

/-- Without panics `kryo_check_l3_scu_error` returns. -/
theorem quiet_kryoCheckL3ScuError {Q : Option Unit → Cpu → Prop} (hce : c.panicOnCe = false)
    (hue : s.panicOnUe = false) (hfree : s.lockHeld = false) :
    wps kryo (lockGuard safe) (kryoCheckL3ScuError c) Q s ↔ Q (some ()) (s.checkedL3 c) := by
  have hbus : ¬ (L3BusError (s.record 1) ∧ s.panicOnUe = true) := by simp [hue]
  have hreport : ¬ ReportPanics c (s.entered 1).panicOnUe (l3Report (s.record 1)) := by
    change ¬ ReportPanics c s.panicOnUe _
    rw [hue]
    exact not_reportPanics hce _
  rw [wps_kryoCheckL3ScuError, if_neg hbus, afterCheck_of_not_panics hreport, and_iff_right hfree]
  rfl

/-- Without panics `kryo_check_l1_l2_ecc` returns. -/
theorem quiet_kryoCheckL1L2Ecc {Q : Option Unit → Cpu → Prop} (hce : c.panicOnCe = false)
    (hue : s.panicOnUe = false) (hfree : s.lockHeld = false) :
    wps kryo (lockGuard safe) (kryoCheckL1L2Ecc c) Q s ↔ Q (some ()) (s.checkedL1L2 c) := by
  have hreport : ¬ ReportPanics c (s.entered 0).panicOnUe (l1L2Report c (s.record 0)) := by
    change ¬ ReportPanics c s.panicOnUe _
    rw [hue]
    exact not_reportPanics hce _
  rw [wps_kryoCheckL1L2Ecc, afterCheck_of_not_panics hreport, and_iff_right hfree]
  rfl

/-- The kinds of error events that `kryo_check_l3_scu_error` and `kryo_check_l1_l2_ecc` report of
two records. -/
def checkKinds (c : Config) (record : U64 → ErrRecord) : List (Level × Severity) :=
  reportKinds (l3Report (record 1)) ++ reportKinds (l1L2Report c (record 0))

theorem Cpu.checks_kinds : ((s.checkedL3 c).checkedL1L2 c).kinds =
    s.kinds ++ checkKinds c s.record := by
  simp only [Cpu.checkedL1L2_kinds, Cpu.checkedL3_kinds, Cpu.checkedL3_record, checkKinds,
    List.append_assoc]

/-- The CPU on an entry with no event reported yet and panics disabled. -/
def Cpu.quiet (errselr : U64) (record : U64 → ErrRecord) : Cpu :=
  .entering errselr record false []

variable {errselr : U64} {record : U64 → ErrRecord}

/-- The checks on untouched records. -/
theorem wps_kryoChecks {Q : Option Unit → Cpu → Prop} (hce : c.panicOnCe = false) :
    wps kryo (lockGuard safe) (kryoChecks c) Q (.quiet errselr record) ↔
      Q (some ()) (((Cpu.quiet errselr record).checkedL3 c).checkedL1L2 c) := by
  rw [kryoChecks, wps_bind, quiet_kryoCheckL3ScuError hce rfl rfl]
  exact quiet_kryoCheckL1L2Ecc hce Cpu.checkedL3_panicOnUe Cpu.checkedL3_lockHeld

/-- The checks on leaving a low-power state. -/
theorem wps_kryoPmuCpuPmNotify {Q : Option Int → Cpu → Prop} (hce : c.panicOnCe = false) :
    wps kryo (lockGuard safe) (kryoPmuCpuPmNotify c .cpuPmExit) Q (.quiet errselr record) ↔
      Q (some NOTIFY_OK)
        (((Cpu.quiet errselr record).reinitialised.checkedL3 c).checkedL1L2 c) := by
  refine wps_initRegsOnCpu.trans ?_
  rw [wps_bind, quiet_kryoCheckL3ScuError hce rfl rfl, wps_bind,
    quiet_kryoCheckL1L2Ecc hce Cpu.checkedL3_panicOnUe Cpu.checkedL3_lockHeld]
  exact wps_pure

/-! ## The comparison -/

/-- Every execution of the notifier on `CPU_PM_EXIT` reports the same kinds of events as every
execution of the two checks on the untouched records, and both return. -/
def SameReports (c : Config) (errselr : U64) (record : U64 → ErrRecord) : Prop :=
  ∀ trace result s trace' result' s',
    Exec kryo (kryoPmuCpuPmNotify c .cpuPmExit) (.quiet errselr record) trace result s →
    Exec kryo (kryoChecks c) (.quiet errselr record) trace' result' s' →
    result.isSome ∧ result'.isSome ∧ s.kinds = s'.kinds

/-- The records as `CPU_PM_EXIT` leaves them are compared with the untouched ones. -/
theorem sameReports_iff_kinds (hce : c.panicOnCe = false) :
    SameReports c errselr record ↔
      checkKinds c (Cpu.quiet errselr record).reinitialised.record = checkKinds c record := by
  have hpm : ∀ {Q : Option Int → Cpu → Prop}, _ := fun {Q} =>
    @wps_kryoPmuCpuPmNotify c (fun _ => True) errselr record Q hce
  have hchecks : ∀ {Q : Option Unit → Cpu → Prop}, _ := fun {Q} =>
    @wps_kryoChecks c (fun _ => True) errselr record Q hce
  have hkinds : ∀ s : Cpu, s.reported = [] → ((s.checkedL3 c).checkedL1L2 c).kinds =
      checkKinds c s.record := by
    intro s hs
    rw [Cpu.checks_kinds, Cpu.kinds, hs]
    rfl
  constructor
  · intro h
    obtain ⟨trace, result, s, hexec⟩ := exists_exec (hpm.mpr trivial) hpm.mp
    obtain ⟨trace', result', s', hexec'⟩ := exists_exec (hchecks.mpr trivial) hchecks.mp
    have hs := wp_exec (hpm (Q := fun _ s => s.kinds = _).mpr (hkinds _ rfl)) hexec
    have hs' := wp_exec (hchecks (Q := fun _ s => s.kinds = _).mpr (hkinds _ rfl)) hexec'
    exact hs.symm.trans ((h _ _ _ _ _ _ hexec hexec').2.2.trans hs')
  · intro heq trace result s trace' result' s' hexec hexec'
    have hs := wp_exec (hpm (Q := fun result s => result.isSome ∧ s.kinds = _).mpr
      ⟨rfl, hkinds _ rfl⟩) hexec
    have hs' := wp_exec (hchecks (Q := fun result s => result.isSome ∧ s.kinds = _).mpr
      ⟨rfl, hkinds _ rfl⟩) hexec'
    exact ⟨hs.1, hs'.1, hs.2.trans (heq.trans hs'.2.symm)⟩

/-- The level at which an error is placed once the location register is overwritten. -/
theorem cacheLevel_overflow (partNum : U32) (errxmisc : U64) :
    cacheLevel partNum 0x7F7F00000000 = (cacheLevel partNum errxmisc).map fun _ => .l1 := by
  have hsilver : errxmiscLvl 0x7F7F00000000 = L1_SILVER_BIT := by decide
  have hgold : ¬ (errxmiscLvlGold 0x7F7F00000000 = L1_GOLD_DC_BIT ∨
    errxmiscLvlGold 0x7F7F00000000 = L1_GOLD_IC_BIT) := by decide
  have hgold' : ¬ (errxmiscLvlGold 0x7F7F00000000 = L2_GOLD_BIT ∨
    errxmiscLvlGold 0x7F7F00000000 = L2_GOLD_TLB_BIT) := by decide
  unfold cacheLevel
  rw [if_pos hsilver, if_neg hgold, if_neg hgold']
  split_ifs <;> rfl

/-- No error is placed at L3 by the L1/L2 check. -/
theorem cacheLevel_ne_l3 (partNum : U32) (errxmisc : U64) :
    cacheLevel partNum errxmisc ≠ some .l3 := by
  unfold cacheLevel
  split_ifs <;> simp

/-- The report of a reinitialised record keeps the severity and places the error at L1. -/
theorem l1L2Report_reinitialised (r : ErrRecord) :
    reportKinds (l1L2Report c r.reinitialised) =
      (reportKinds (l1L2Report c r)).map fun kind => (.l1, kind.2) := by
  unfold l1L2Report l1L2Code ErrRecord.reinitialised
  dsimp only
  rw [cacheLevel_overflow c.partNum r.misc]
  by_cases hvalid : errxstatusValid r.status ≠ 0
  · rw [if_pos hvalid, if_pos hvalid]
    cases hlevel : cacheLevel c.partNum r.misc with
    | none => rfl
    | some level =>
        cases level with
        | l1 | l2 =>
            change [(Level.l1, _)] = [(Level.l1, _)]
            split <;> rfl
        | l3 => exact absurd hlevel (cacheLevel_ne_l3 _ _)
  · rw [if_neg hvalid, if_neg hvalid]
    rfl

/-- The reports on leaving a low-power state are those of the untouched records exactly if no error
of the L3 cache is pending and a pending error of the L1/L2 record is placed at L1. -/
theorem sameReports_iff (cpu : Nat) (partNum : U32) (errselr : U64) (record : U64 → ErrRecord) :
    SameReports ⟨cpu, partNum, false⟩ errselr record ↔
      l3Report (record 1) = none ∧ ∀ errorcode level,
        l1L2Report ⟨cpu, partNum, false⟩ (record 0) = some (errorcode, level) → level = .l1 := by
  rw [sameReports_iff_kinds rfl]
  generalize hc : (⟨cpu, partNum, false⟩ : Config) = c
  have hleft : checkKinds c (Cpu.quiet errselr record).reinitialised.record =
      (reportKinds (l1L2Report c (record 0))).map fun kind => (.l1, kind.2) := by
    rw [checkKinds, Cpu.reinitialised_record _ (.inr rfl), Cpu.reinitialised_record _ (.inl rfl),
      l3Report_reinitialised, l1L2Report_reinitialised]
    rfl
  rw [hleft, checkKinds]
  constructor
  · intro h
    have hlength := congrArg List.length h
    simp only [List.length_map, List.length_append] at hlength
    have hl3 : l3Report (record 1) = none := by
      cases hreport : l3Report (record 1) with
      | none => rfl
      | some report =>
          rw [hreport] at hlength
          simp [reportKinds] at hlength
    refine ⟨hl3, ?_⟩
    intro errorcode level hreport
    rw [hl3, hreport] at h
    simp [reportKinds] at h
    exact h.symm
  · rintro ⟨hl3, hlevel⟩
    rw [hl3]
    cases hreport : l1L2Report c (record 0) with
    | none => rfl
    | some report =>
        obtain ⟨errorcode, level⟩ := report
        rw [hlevel errorcode level hreport]
        rfl

/-- A valid corrected error whose location names the second level of a silver core. -/
def correctedL2 : ErrRecord := ⟨0, 0x40000000, 0x2⟩

/-- Leaving a low-power state places a pending L2 error at L1. -/
theorem not_sameReports_correctedL2 :
    ¬ ∀ (cpu : Nat) (partNum : U32) (errselr : U64) (record : U64 → ErrRecord),
      SameReports ⟨cpu, partNum, false⟩ errselr record := by
  intro h
  have hkinds := (sameReports_iff_kinds rfl).mp
    (h 0 QCOM_CPU_PART_KRYO4XX_SILVER_V1 0 fun _ => correctedL2)
  revert hkinds
  decide

end SafeLinux.KryoEdac
