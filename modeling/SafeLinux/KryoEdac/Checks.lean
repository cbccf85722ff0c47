import SafeLinux.KryoEdac.Driver

/-!
# What the checks of the error records do

The exact weakest preconditions of the two checks: what they report of a record, when they panic,
and the state of the CPU afterwards. A condition `safe` is imposed on every panic, and acquiring
`local_handler_lock` needs it free.
-/

namespace SafeLinux.KryoEdac

open Effects
open Effects.Program (perform)

/-- Acquiring the lock needs it free, and a panic needs `safe`. -/
def lockGuard (safe : Cpu → Prop) (β : Type) (request : KryoCall β) (s : Cpu) : Prop :=
  match request with
  | .spinLock => s.lockHeld = false
  | .panic => safe s
  | _ => True

variable {c : Config} {s : Cpu} {safe : Cpu → Prop} {Q : Option Unit → Cpu → Prop}

/-! ## Reporting an error -/

/-- The severity of an error code. -/
def ErrorCode.severity : ErrorCode → Severity
  | .l1Ce | .l2Ce | .l3Ce => .ce
  | .l1Ue | .l2Ue | .l3Ue => .ue

/-- Whether reporting an error of a severity panics. -/
def panics (c : Config) (panicOnUe : Bool) : Severity → Bool
  | .ce => c.panicOnCe
  | .ue => panicOnUe

/-- The event that `dump_err_reg` reports. -/
def eventOf (c : Config) (errorcode : ErrorCode) (level : Level) : ErrorEvent :=
  ⟨c.cpu, level, errorcode.severity, (errors c errorcode).1⟩

/-- The CPU after the EDAC core was told of an event. -/
def Cpu.told (s : Cpu) (event : ErrorEvent) : Cpu :=
  { s with reported := s.reported ++ [event] }

/-- What has to hold after a report that panics or not. -/
def AfterReport (safe : Cpu → Prop) (Q : Option Unit → Cpu → Prop) (panicking : Bool)
    (s : Cpu) : Prop :=
  if panicking then safe s ∧ Q none s else Q (some ()) s

/-- The rule for a call. -/
theorem wps_kryo {α : Type} {request : KryoCall α} {Q : Option α → Cpu → Prop} :
    wps kryo (lockGuard safe) (perform request) Q s ↔
      lockGuard safe α request s ∧ Answered Q s (respond request s) :=
  wps_perform

/-- The rule for a call that is answered, and what follows it. -/
theorem wps_answer {α β : Type} {request : KryoCall α} {rest : α → KryoProg β} {answer : α}
    {s' : Cpu} {Q : Option β → Cpu → Prop} (hanswer : respond request s = some (answer, s'))
    (hguard : lockGuard safe α request s) :
    wps kryo (lockGuard safe) (perform request >>= rest) Q s ↔
      wps kryo (lockGuard safe) (rest answer) Q s' := by
  simp only [wps_bind, wps_kryo, hanswer, hguard, answered_some, true_and]

/-- The rule for acquiring the lock. -/
theorem wps_spinLock : wps kryo (lockGuard safe) (perform .spinLock) Q s ↔
    s.lockHeld = false ∧ Q (some ()) { s with lockHeld := true } := by
  simp only [wps_kryo, lockGuard, respond]
  refine and_congr_right fun hfree => ?_
  simp [hfree]

theorem wps_panic : wps kryo (lockGuard safe) panic Q s ↔ safe s ∧ Q none s := by
  simp only [panic, wps_bind, wps_kryo, lockGuard, respond, answered_none]
  exact and_congr_right fun _ => forall_prop_of_true (inferInstanceAs (IsEmpty Empty))

theorem wps_kryoEdacHandleCe {cpu : Nat} {level : Level} {msg : String} :
    wps kryo (lockGuard safe) (kryoEdacHandleCe c cpu level msg) Q s ↔
      AfterReport safe Q (panics c s.panicOnUe .ce) (s.told ⟨cpu, level, .ce, msg⟩) := by
  simp only [kryoEdacHandleCe, wps_bind, wps_kryo, lockGuard, respond, answered_some, wps_ite,
    wps_panic, wps_pure, true_and]
  rfl

theorem wps_kryoEdacHandleUe {cpu : Nat} {level : Level} {msg : String} :
    wps kryo (lockGuard safe) (kryoEdacHandleUe cpu level msg) Q s ↔
      AfterReport safe Q (panics c s.panicOnUe .ue) (s.told ⟨cpu, level, .ue, msg⟩) := by
  simp only [kryoEdacHandleUe, edacDeviceHandleUe, wps_bind, wps_kryo, lockGuard, respond,
    answered_some, wps_ite, wps_panic, wps_pure, true_and]
  rfl

/-- The rule for `dump_err_reg`. -/
theorem wps_dumpErrReg {errorcode : ErrorCode} {level : Level} :
    wps kryo (lockGuard safe) (dumpErrReg c errorcode level) Q s ↔
      AfterReport safe Q (panics c s.panicOnUe errorcode.severity)
        (s.told (eventOf c errorcode level)) := by
  cases errorcode with
  | l1Ce | l2Ce | l3Ce => exact wps_kryoEdacHandleCe
  | l1Ue | l2Ue | l3Ue => exact wps_kryoEdacHandleUe

/-! ## The errors of a record -/

/-- An error code together with the level it is reported for. -/
abbrev Report := ErrorCode × Level

/-- The report of `kryo_parse_l1_l2_cache_error`. -/
def l1L2Code (c : Config) (errxstatus errxmisc : U64) : Option Report :=
  match cacheLevel c.partNum errxmisc with
  | some .l1 => some (if errxstatusUe errxstatus ≠ 0 then .l1Ue else .l1Ce, .l1)
  | some .l2 => some (if errxstatusUe errxstatus ≠ 0 then .l2Ue else .l2Ce, .l2)
  | _ => none

/-- The report of `kryo_check_l1_l2_ecc` about its record. -/
def l1L2Report (c : Config) (r : ErrRecord) : Option Report :=
  if errxstatusValid r.status ≠ 0 then l1L2Code c r.status r.misc else none

/-- Whether a record holds a valid error of the L3 cache. -/
def L3Located (r : ErrRecord) : Prop :=
  errxstatusValid r.status ≠ 0 ∧ errxmiscLvl r.misc = L3_BIT

instance (r : ErrRecord) : Decidable (L3Located r) :=
  inferInstanceAs (Decidable (_ ∧ _))

/-- Whether a record holds a bus error of the L3 cache. -/
def L3BusError (r : ErrRecord) : Prop := L3Located r ∧ l3IsBusError r.status = true

instance (r : ErrRecord) : Decidable (L3BusError r) :=
  inferInstanceAs (Decidable (_ ∧ _))

/-- The error code that `kryo_check_l3_scu_error` reports for a status. -/
def l3Code (errxstatus : U64) : ErrorCode :=
  if errxstatusUe errxstatus ≠ 0 then .l3Ue else .l3Ce

/-- The report of `kryo_check_l3_scu_error` about its record. -/
def l3Report (r : ErrRecord) : Option Report :=
  if L3Located r ∧ ¬ L3BusError r then some (l3Code r.status, .l3) else none

/-- A bus error is not reported. -/
theorem l3Report_busError {r : ErrRecord} (h : L3BusError r) : l3Report r = none := by
  simp [l3Report, h]

/-- `dump_err_reg` for a report, if there is one. -/
def dumpReport (c : Config) : Option Report → KryoProg Unit
  | none => return
  | some (errorcode, level) => dumpErrReg c errorcode level

theorem kryoParseL1L2CacheError_eq (errxstatus errxmisc : U64) :
    kryoParseL1L2CacheError c errxstatus errxmisc =
      dumpReport c (l1L2Code c errxstatus errxmisc) := by
  unfold kryoParseL1L2CacheError l1L2Code
  cases cacheLevel c.partNum errxmisc with
  | none => rfl
  | some level =>
      cases level with
      | l1 | l2 =>
          dsimp only
          split <;> rfl
      | l3 => rfl

/-! ## The checks -/

/-- The CPU with the lock held and a record selected. -/
def Cpu.entered (s : Cpu) (record : U64) : Cpu :=
  { s with lockHeld := true, errselr := record }

/-- The CPU with the lock released. -/
def Cpu.left (s : Cpu) : Cpu := { s with lockHeld := false }

/-- The CPU with the bits of a status cleared in the selected record. -/
def Cpu.cleared (s : Cpu) (errxstatus : U64) : Cpu :=
  s.setSelected { s.selected with status := s.selected.status &&& ~~~ errxstatus }

/-- What has to hold after a check in state `s` with a report or none; `done` is what the check
does to the CPU after the report. -/
def AfterCheck (c : Config) (safe : Cpu → Prop) (Q : Option Unit → Cpu → Prop)
    (report : Option Report) (done : Cpu → Cpu) (s : Cpu) : Prop :=
  match report with
  | none => Q (some ()) (done s)
  | some (errorcode, level) =>
      AfterReport safe (fun result s' => Q result (if result.isSome then done s' else s'))
        (panics c s.panicOnUe errorcode.severity) (s.told (eventOf c errorcode level))

theorem wps_clearErrxstatus {val : U64} :
    wps kryo (lockGuard safe) (perform (.clearErrxstatus val)) Q s ↔
      Q (some ()) (s.cleared val) := by
  simp only [wps_kryo, lockGuard, respond, answered_some, true_and]
  rfl

theorem wps_spinUnlock : wps kryo (lockGuard safe) (perform .spinUnlock) Q s ↔
    Q (some ()) s.left := by
  simp only [wps_kryo, lockGuard, respond, answered_some, true_and]
  rfl

/-- The rule for a report and what follows it. -/
theorem wps_dumpReport_then {report : Option Report} {rest : KryoProg Unit} {done : Cpu → Cpu}
    (hrest : ∀ s', wps kryo (lockGuard safe) rest Q s' ↔ Q (some ()) (done s')) :
    wps kryo (lockGuard safe) (dumpReport c report >>= fun _ => rest) Q s ↔
      AfterCheck c safe Q report done s := by
  rw [wps_bind]
  cases report with
  | none => exact wps_pure.trans (hrest s)
  | some report =>
      obtain ⟨errorcode, level⟩ := report
      simp only [dumpReport, wps_dumpErrReg, AfterCheck, AfterReport, hrest]
      rfl

/-- The rule for `kryo_check_l1_l2_ecc`. -/
theorem wps_kryoCheckL1L2Ecc : wps kryo (lockGuard safe) (kryoCheckL1L2Ecc c) Q s ↔
    s.lockHeld = false ∧ AfterCheck c safe Q (l1L2Report c (s.record 0))
      (fun s' => if errxstatusValid (s.record 0).status ≠ 0 then
        (s'.cleared (s.record 0).status).left else s'.left) (s.entered 0) := by
  rw [kryoCheckL1L2Ecc, wps_bind, wps_spinLock]
  refine and_congr_right fun _ => ?_
  refine (wps_answer rfl (by trivial)).trans ?_
  refine (wps_answer rfl (by trivial)).trans ?_
  simp only [Cpu.selected, l1L2Report, kryoParseL1L2CacheError_eq]
  by_cases hvalid : errxstatusValid (s.record 0).status ≠ 0
  · simp only [if_pos hvalid]
    refine (wps_answer rfl (by trivial)).trans ?_
    refine wps_dumpReport_then fun s' => ?_
    rw [wps_bind, wps_clearErrxstatus]
    exact wps_spinUnlock
  · simp only [if_neg hvalid]
    exact wps_spinUnlock

theorem wps_l3_dump {errxstatus : U64} {rest : Unit → KryoProg Unit} :
    wps kryo (lockGuard safe) (if errxstatusUe errxstatus ≠ 0 then
        dumpErrReg c .l3Ue .l3 >>= rest else dumpErrReg c .l3Ce .l3 >>= rest) Q s ↔
      wps kryo (lockGuard safe) (dumpReport c (some (l3Code errxstatus, .l3)) >>= rest) Q s := by
  unfold l3Code dumpReport
  split <;> rfl

/-- The rule for `kryo_check_l3_scu_error`. -/
theorem wps_kryoCheckL3ScuError : wps kryo (lockGuard safe) (kryoCheckL3ScuError c) Q s ↔
    s.lockHeld = false ∧
      if L3BusError (s.record 1) ∧ s.panicOnUe = true then
        safe (s.entered 1).left ∧ Q none (s.entered 1).left
      else
        AfterCheck c safe Q (l3Report (s.record 1))
          (fun s' => if L3Located (s.record 1) ∧ ¬ L3BusError (s.record 1) then
            (s'.cleared (s.record 1).status).left else s'.left) (s.entered 1) := by
  rw [kryoCheckL3ScuError, wps_bind, wps_spinLock]
  refine and_congr_right fun _ => ?_
  refine (wps_answer rfl (by trivial)).trans ?_
  refine (wps_answer rfl (by trivial)).trans ?_
  refine (wps_answer rfl (by trivial)).trans ?_
  simp only [Cpu.selected, l3Report]
  by_cases hlocated : L3Located (s.record 1)
  · obtain ⟨hvalid, hlvl⟩ := id hlocated
    rw [if_pos ⟨hvalid, hlvl⟩]
    by_cases hbus : l3IsBusError (s.record 1).status = true
    · have hbusError : L3BusError (s.record 1) := ⟨hlocated, hbus⟩
      rw [if_pos hbus]
      refine (wps_answer rfl (by trivial)).trans ?_
      by_cases hpanic : s.panicOnUe = true
      · simp only [hbusError, hpanic, and_self, if_true]
        refine (wps_answer rfl (by trivial)).trans ?_
        rw [wps_bind, wps_panic]
        simp only [Cpu.left, Cpu.entered, hpanic]
      · simp only [hbusError, hpanic, not_true_eq_false, and_false, if_false, Bool.false_eq_true]
        refine (wps_answer rfl (by trivial)).trans ?_
        rw [wps_pure]
        simp only [AfterCheck, Cpu.left, Cpu.entered, hpanic]
    · have hbusError : ¬ L3BusError (s.record 1) := fun h => hbus h.2
      rw [if_neg hbus]
      simp only [hbusError, hlocated, not_false_eq_true, and_true, if_true, false_and, if_false]
      refine wps_l3_dump.trans (wps_dumpReport_then fun s' => ?_)
      rw [wps_bind, wps_clearErrxstatus]
      exact wps_spinUnlock
  · rw [if_neg (show ¬ (_ ∧ _) from hlocated)]
    have hbusError : ¬ L3BusError (s.record 1) := fun h => hlocated h.1
    simp only [hbusError, hlocated, false_and, if_false]
    exact wps_spinUnlock

/-! ## Checks that panic and checks that return -/

/-- Whether a check that makes a report panics. -/
def ReportPanics (c : Config) (panicOnUe : Bool) (report : Option Report) : Prop :=
  ∃ errorcode level, report = some (errorcode, level) ∧
    panics c panicOnUe errorcode.severity = true

/-- The CPU after a report that does not panic. -/
def Cpu.reports (s : Cpu) (c : Config) (report : Option Report) : Cpu :=
  match report with
  | none => s
  | some (errorcode, level) => s.told (eventOf c errorcode level)

theorem not_reportPanics_none {panicOnUe : Bool} : ¬ ReportPanics c panicOnUe none := by
  simp [ReportPanics]

theorem afterCheck_of_panics {report : Option Report} {done : Cpu → Cpu}
    (h : ReportPanics c s.panicOnUe report) :
    AfterCheck c safe Q report done s ↔
      safe (s.reports c report) ∧ Q none (s.reports c report) := by
  obtain ⟨errorcode, level, rfl, hpanics⟩ := h
  simp [AfterCheck, AfterReport, Cpu.reports, hpanics]

theorem afterCheck_of_not_panics {report : Option Report} {done : Cpu → Cpu}
    (h : ¬ ReportPanics c s.panicOnUe report) :
    AfterCheck c safe Q report done s ↔ Q (some ()) (done (s.reports c report)) := by
  cases report with
  | none => rfl
  | some report =>
      obtain ⟨errorcode, level⟩ := report
      have hpanics : ¬ panics c s.panicOnUe errorcode.severity = true :=
        fun hpanics => h ⟨errorcode, level, rfl, hpanics⟩
      simp [AfterCheck, AfterReport, Cpu.reports, hpanics]

/-- The CPU after `kryo_check_l1_l2_ecc` has returned. -/
def Cpu.checkedL1L2 (s : Cpu) (c : Config) : Cpu :=
  let s' := (s.entered 0).reports c (l1L2Report c (s.record 0))
  if errxstatusValid (s.record 0).status ≠ 0 then (s'.cleared (s.record 0).status).left else s'.left

/-- The CPU after `kryo_check_l3_scu_error` has returned. -/
def Cpu.checkedL3 (s : Cpu) (c : Config) : Cpu :=
  let s' := (s.entered 1).reports c (l3Report (s.record 1))
  if L3Located (s.record 1) ∧ ¬ L3BusError (s.record 1) then
    (s'.cleared (s.record 1).status).left
  else s'.left

@[simp] theorem Cpu.checkedL1L2_lockHeld : (s.checkedL1L2 c).lockHeld = false := by
  unfold Cpu.checkedL1L2
  dsimp only
  split <;> rfl

@[simp] theorem Cpu.checkedL3_lockHeld : (s.checkedL3 c).lockHeld = false := by
  unfold Cpu.checkedL3
  dsimp only
  split <;> rfl

@[simp] theorem Cpu.reports_lockHeld (report : Option Report) :
    (s.reports c report).lockHeld = s.lockHeld := by
  unfold Cpu.reports
  split <;> rfl

@[simp] theorem Cpu.reports_panicOnUe (report : Option Report) :
    (s.reports c report).panicOnUe = s.panicOnUe := by
  unfold Cpu.reports
  split <;> rfl

@[simp] theorem Cpu.reports_record (report : Option Report) :
    (s.reports c report).record = s.record := by
  unfold Cpu.reports
  split <;> rfl

@[simp] theorem Cpu.reports_errselr (report : Option Report) :
    (s.reports c report).errselr = s.errselr := by
  unfold Cpu.reports
  split <;> rfl

@[simp] theorem Cpu.checkedL3_panicOnUe : (s.checkedL3 c).panicOnUe = s.panicOnUe := by
  unfold Cpu.checkedL3
  dsimp only
  split <;> simp [Cpu.left, Cpu.cleared, Cpu.setSelected, Cpu.entered]

/-- The check of the L3 record leaves the L1/L2 record alone. -/
@[simp] theorem Cpu.checkedL3_record : (s.checkedL3 c).record 0 = s.record 0 := by
  unfold Cpu.checkedL3
  dsimp only
  split <;> simp [Cpu.left, Cpu.cleared, Cpu.setSelected, Cpu.entered]

end SafeLinux.KryoEdac
