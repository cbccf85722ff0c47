import SafeLinux.KryoEdac.Locations

/-!
# Records that the checks leave valid

A check clears the status of the record that it has reported. The check of the L3 record leaves it
as it is on a bus error, and on leaving a low-power state the location by which it knows an L3 error
has been overwritten. With panics disabled these are the only valid records that an entry point
leaves valid (`leavesSettled_iff`).
-/

namespace SafeLinux.KryoEdac

open Effects

variable {c : Config} {s s' : Cpu} {record : U64 → ErrRecord} {entry : Entry}

/-! ## The checks of an entry point -/

/-- The two checks. -/
inductive Check where
  | l1L2
  | l3

namespace Check

/-- The program of a check. -/
def program (c : Config) : Check → KryoProg Unit
  | .l1L2 => kryoCheckL1L2Ecc c
  | .l3 => kryoCheckL3ScuError c

/-- The record that a check selects. -/
def selects : Check → U64
  | .l1L2 => 0
  | .l3 => 1

/-- A record is valid, and its location is the one that the check handles. -/
def Handles (c : Config) : Check → ErrRecord → Prop
  | .l1L2, r => errxstatusValid r.status ≠ 0 ∧ (denotedLevel c.partNum r.misc).isSome
  | .l3, r => L3Located r

/-- What a check reports of the records. -/
def report (c : Config) (record : U64 → ErrRecord) : Check → Option Report
  | .l1L2 => l1L2Report c (record 0)
  | .l3 => l3Report (record 1)

/-- The CPU after a check that does not panic. -/
def after (c : Config) (s : Cpu) : Check → Cpu
  | .l1L2 => s.checkedL1L2 c
  | .l3 => s.checkedL3 c

end Check

/-- The checks that an entry point runs. -/
def Entry.checks : Entry → List Check
  | .l1L2Irq => [.l1L2]
  | .l3Irq => [.l3]
  | .cpuPm action => if action = .cpuPmExit then [.l3, .l1L2] else []
  | .panicNotifier => [.l3, .l1L2]

/-- The CPU when an entry point begins its checks. -/
def Entry.prepared (s : Cpu) : Entry → Cpu
  | .l1L2Irq | .l3Irq => s
  | .cpuPm action => if action = .cpuPmExit then s.reinitialised else s
  | .panicNotifier => { s with panicOnUe := false }

/-- The CPU after some checks. -/
def Cpu.checked (s : Cpu) (c : Config) (checks : List Check) : Cpu :=
  checks.foldl (fun s check => check.after c s) s

/-- Without panics a check returns. -/
theorem quiet_check {check : Check} {Q : Option Unit → Cpu → Prop} (hce : c.panicOnCe = false)
    (hue : s.panicOnUe = false) (hfree : s.lockHeld = false) :
    wps kryo (lockGuard fun _ => True) (check.program c) Q s ↔ Q (some ()) (check.after c s) := by
  cases check with
  | l1L2 => exact quiet_kryoCheckL1L2Ecc hce hue hfree
  | l3 => exact quiet_kryoCheckL3ScuError hce hue hfree

@[simp] theorem Check.after_lockHeld (check : Check) : (check.after c s).lockHeld = false := by
  cases check with
  | l1L2 => exact Cpu.checkedL1L2_lockHeld
  | l3 => exact Cpu.checkedL3_lockHeld

@[simp] theorem Cpu.checkedL1L2_panicOnUe : (s.checkedL1L2 c).panicOnUe = s.panicOnUe := by
  unfold Cpu.checkedL1L2
  dsimp only
  split <;> simp [Cpu.left, Cpu.cleared, Cpu.setSelected, Cpu.entered]

@[simp] theorem Check.after_panicOnUe (check : Check) :
    (check.after c s).panicOnUe = s.panicOnUe := by
  cases check with
  | l1L2 => exact Cpu.checkedL1L2_panicOnUe
  | l3 => exact Cpu.checkedL3_panicOnUe

/-- Without panics an entry point returns, and the CPU is then as its checks leave it. -/
theorem quiet_entry {Q : Cpu → Prop} (hce : c.panicOnCe = false) (hue : s.panicOnUe = false)
    (hfree : s.lockHeld = false) :
    wps kryo (lockGuard fun _ => True) (entry.program c) (fun result s' => result.isSome ∧ Q s') s ↔
      Q ((entry.prepared s).checked c entry.checks) := by
  have hboth {s : Cpu} {value : Int} (hue : s.panicOnUe = false) (hfree : s.lockHeld = false) :
      wps kryo (lockGuard fun _ => True)
        (kryoCheckL3ScuError c >>= fun _ => kryoCheckL1L2Ecc c >>= fun _ => pure value)
        (fun result s' => result.isSome ∧ Q s') s ↔ Q (s.checked c [.l3, .l1L2]) := by
    rw [wps_bind, quiet_kryoCheckL3ScuError hce hue hfree, wps_bind,
      quiet_kryoCheckL1L2Ecc hce (Cpu.checkedL3_panicOnUe.trans hue) Cpu.checkedL3_lockHeld]
    exact wps_pure.trans (and_iff_right rfl)
  cases entry with
  | l1L2Irq =>
      rw [Entry.program, kryoL1L2Handler, wps_bind, quiet_kryoCheckL1L2Ecc hce hue hfree]
      exact wps_pure.trans (and_iff_right rfl)
  | l3Irq =>
      rw [Entry.program, kryoL3ScuHandler, wps_bind, quiet_kryoCheckL3ScuError hce hue hfree]
      exact wps_pure.trans (and_iff_right rfl)
  | cpuPm action =>
      rw [Entry.program, kryoPmuCpuPmNotify, Entry.prepared, Entry.checks]
      by_cases haction : action = .cpuPmExit
      · rw [if_pos haction, if_pos haction, if_pos haction]
        exact wps_initRegsOnCpu.trans (hboth hue hfree)
      · rw [if_neg haction, if_neg haction, if_neg haction]
        exact wps_pure.trans (and_iff_right rfl)
  | panicNotifier =>
      refine (wps_answer rfl (by trivial)).trans ?_
      exact hboth rfl hfree

/-! ## What the checks leave in the records -/

/-- Writing the status of the selected record back clears it. -/
theorem Cpu.cleared_left_status {i status : U64} (hi : s.errselr = i)
    (hstatus : (s.record i).status = status) :
    (((s.cleared status).left).record i).status = 0 := by
  subst hi hstatus
  simp [Cpu.left, Cpu.cleared, Cpu.setSelected, Cpu.selected]

/-- The L1/L2 check leaves its record not valid. -/
theorem Cpu.checkedL1L2_valid : errxstatusValid ((s.checkedL1L2 c).record 0).status = 0 := by
  unfold Cpu.checkedL1L2
  dsimp only
  split
  · have hrecord : ((s.entered 0).reports c (l1L2Report c (s.record 0))).record 0 = s.record 0 := by
      rw [Cpu.reports_record]
      rfl
    have hselected : ((s.entered 0).reports c (l1L2Report c (s.record 0))).errselr = 0 :=
      Cpu.reports_errselr _
    rw [Cpu.cleared_left_status hselected (congrArg ErrRecord.status hrecord)]
    rfl
  · rename_i hvalid
    simpa [Cpu.left, Cpu.entered] using hvalid

/-- The L1/L2 check leaves the L3 record alone. -/
theorem Cpu.checkedL1L2_record : (s.checkedL1L2 c).record 1 = s.record 1 := by
  unfold Cpu.checkedL1L2
  dsimp only
  split <;> simp [Cpu.left, Cpu.cleared, Cpu.setSelected, Cpu.entered]

/-- The L3 check leaves a record not valid that holds an error of the L3 cache but no bus error. -/
theorem Cpu.checkedL3_valid (hlocated : L3Located (s.record 1)) (hbus : ¬ L3BusError (s.record 1)) :
    errxstatusValid ((s.checkedL3 c).record 1).status = 0 := by
  unfold Cpu.checkedL3
  dsimp only
  have hrecord : ((s.entered 1).reports c (l3Report (s.record 1))).record 1 = s.record 1 := by
    rw [Cpu.reports_record]
    rfl
  have hselected : ((s.entered 1).reports c (l3Report (s.record 1))).errselr = 1 :=
    Cpu.reports_errselr _
  rw [if_pos ⟨hlocated, hbus⟩,
    Cpu.cleared_left_status hselected (congrArg ErrRecord.status hrecord)]
  rfl

/-- The L3 check leaves every other record as it is. -/
theorem Cpu.checkedL3_kept (h : L3Located (s.record 1) → L3BusError (s.record 1)) :
    (s.checkedL3 c).record 1 = s.record 1 := by
  unfold Cpu.checkedL3
  dsimp only
  rw [if_neg (fun hboth => hboth.2 (h hboth.1))]
  simp [Cpu.left, Cpu.entered]

theorem l1L2Report_of_not_valid {r : ErrRecord} (h : errxstatusValid r.status = 0) :
    l1L2Report c r = none :=
  if_neg (not_not.mpr h)

theorem l3Report_of_not_valid {r : ErrRecord} (h : errxstatusValid r.status = 0) :
    l3Report r = none :=
  if_neg fun hboth => hboth.1.1 h

/-- After the L3 check its record has nothing to report. -/
theorem Cpu.checkedL3_report : l3Report ((s.checkedL3 c).record 1) = none := by
  by_cases hkept : L3Located (s.record 1) → L3BusError (s.record 1)
  · rw [Cpu.checkedL3_kept hkept]
    exact if_neg fun hboth => hboth.2 (hkept hboth.1)
  · obtain ⟨hlocated, hbus⟩ := Classical.not_imp.mp hkept
    exact l3Report_of_not_valid (Cpu.checkedL3_valid hlocated hbus)

/-- After the checks of an entry point they have nothing to report. -/
theorem Entry.report_none {check : Check} (hcheck : check ∈ entry.checks) (s : Cpu) :
    check.report c (s.checked c entry.checks).record = none := by
  have hboth (hmem : check ∈ [Check.l3, .l1L2]) :
      check.report c (s.checked c [.l3, .l1L2]).record = none := by
    show check.report c ((s.checkedL3 c).checkedL1L2 c).record = none
    cases check with
    | l1L2 => exact l1L2Report_of_not_valid Cpu.checkedL1L2_valid
    | l3 =>
        rw [Check.report, Cpu.checkedL1L2_record]
        exact Cpu.checkedL3_report
  cases entry with
  | l1L2Irq =>
      obtain rfl := List.mem_singleton.mp hcheck
      exact l1L2Report_of_not_valid Cpu.checkedL1L2_valid
  | l3Irq =>
      obtain rfl := List.mem_singleton.mp hcheck
      exact Cpu.checkedL3_report
  | cpuPm action =>
      by_cases haction : action = .cpuPmExit
      · rw [Entry.checks, if_pos haction] at hcheck ⊢
        exact hboth hcheck
      · rw [Entry.checks, if_neg haction] at hcheck
        cases hcheck
  | panicNotifier => exact hboth hcheck

/-! ## Records left valid -/

/-- A run of an entry point leaves not valid each valid record whose location is the one that its
check handles, and running such a check again reports nothing. -/
def LeavesSettled (c : Config) (entry : Entry) (record : U64 → ErrRecord) : Prop :=
  ∀ errselr reported trace result s',
    Exec kryo (entry.program c) (.entering errselr record false reported) trace result s' →
    result.isSome ∧ ∀ check ∈ entry.checks,
      (check.Handles c (record check.selects) →
        errxstatusValid (s'.record check.selects).status = 0) ∧
      ∀ trace' result' s'', Exec kryo (check.program c) s' trace' result' s'' →
        s''.reported = s'.reported

/-- An L3 error is left valid: a bus error, or any whose location is overwritten first. -/
def LeavesL3 (entry : Entry) (record : U64 → ErrRecord) : Prop :=
  Check.l3 ∈ entry.checks ∧ L3Located (record 1) ∧
    (L3BusError (record 1) ∨ entry = .cpuPm .cpuPmExit)

/-- The L3 check leaves an error of the L3 cache not valid unless it is a bus error. -/
theorem Cpu.checkedL3_valid_iff (hlocated : L3Located (s.record 1)) :
    errxstatusValid ((s.checkedL3 c).record 1).status = 0 ↔ ¬ L3BusError (s.record 1) := by
  constructor
  · intro hvalid hbus
    rw [Cpu.checkedL3_kept fun _ => hbus] at hvalid
    exact hlocated.1 hvalid
  · exact Cpu.checkedL3_valid hlocated

/-- The L3 record after an entry point that runs the L3 check. -/
theorem Entry.checked_valid_iff (hcheck : Check.l3 ∈ entry.checks)
    (hlocated : L3Located (s.record 1)) :
    errxstatusValid (((entry.prepared s).checked c entry.checks).record 1).status = 0 ↔
      ¬ (L3BusError (s.record 1) ∨ entry = .cpuPm .cpuPmExit) := by
  have hboth (s : Cpu) : (s.checked c [.l3, .l1L2]).record 1 = (s.checkedL3 c).record 1 :=
    Cpu.checkedL1L2_record
  cases entry with
  | l1L2Irq => cases List.mem_singleton.mp hcheck
  | l3Irq =>
      rw [or_iff_left nofun]
      exact Cpu.checkedL3_valid_iff hlocated
  | cpuPm action =>
      by_cases haction : action = .cpuPmExit
      · subst haction
        have hprepared : s.reinitialised.record 1 = (s.record 1).reinitialised :=
          s.reinitialised_record (.inr rfl)
        -- the location is overwritten, so the check takes the record for another's
        have hkept : (s.reinitialised.checkedL3 c).record 1 = (s.record 1).reinitialised := by
          rw [Cpu.checkedL3_kept, hprepared]
          rw [hprepared]
          exact fun h => absurd h (not_l3Located_reinitialised _)
        show errxstatusValid ((s.reinitialised.checked c [.l3, .l1L2]).record 1).status = 0 ↔ _
        rw [hboth, hkept]
        exact iff_of_false hlocated.1 (not_not.mpr (.inr rfl))
      · rw [Entry.checks, if_neg haction] at hcheck
        cases hcheck
  | panicNotifier =>
      rw [or_iff_left nofun]
      show errxstatusValid ((Cpu.checked _ c [.l3, .l1L2]).record 1).status = 0 ↔ _
      rw [hboth]
      exact Cpu.checkedL3_valid_iff hlocated

/-- A check that has nothing to report reports nothing. -/
theorem Check.after_reported {check : Check} (hreport : check.report c s.record = none) :
    (check.after c s).reported = s.reported := by
  cases check with
  | l1L2 =>
      show (s.checkedL1L2 c).reported = s.reported
      unfold Cpu.checkedL1L2
      rw [show l1L2Report c (s.record 0) = none from hreport]
      dsimp only
      split <;> rfl
  | l3 =>
      show (s.checkedL3 c).reported = s.reported
      unfold Cpu.checkedL3
      rw [show l3Report (s.record 1) = none from hreport]
      dsimp only
      split <;> rfl

@[simp] theorem Cpu.checked_lockHeld {checks : List Check} (hfree : s.lockHeld = false) :
    (s.checked c checks).lockHeld = false := by
  induction checks generalizing s with
  | nil => exact hfree
  | cons check checks ih => exact ih (check.after_lockHeld)

@[simp] theorem Cpu.checked_panicOnUe {checks : List Check} :
    (s.checked c checks).panicOnUe = s.panicOnUe := by
  induction checks generalizing s with
  | nil => rfl
  | cons check checks ih => exact ih.trans check.after_panicOnUe

/-- Without panics, nothing about the CPU in which an entry point begins its checks can make them
panic or wait. -/
theorem Entry.prepared_quiet (entry : Entry) (hue : s.panicOnUe = false)
    (hfree : s.lockHeld = false) :
    (entry.prepared s).panicOnUe = false ∧ (entry.prepared s).lockHeld = false := by
  cases entry with
  | l1L2Irq | l3Irq => exact ⟨hue, hfree⟩
  | cpuPm action =>
      unfold Entry.prepared
      dsimp only
      split
      · exact ⟨hue, hfree⟩
      · exact ⟨hue, hfree⟩
  | panicNotifier => exact ⟨rfl, hfree⟩

/-- An entry point leaves its L1/L2 record not valid. -/
theorem Entry.checked_l1L2_valid (hcheck : Check.l1L2 ∈ entry.checks) (s : Cpu) :
    errxstatusValid ((s.checked c entry.checks).record 0).status = 0 := by
  cases entry with
  | l1L2Irq | panicNotifier => exact Cpu.checkedL1L2_valid
  | l3Irq => cases List.mem_singleton.mp hcheck
  | cpuPm action =>
      by_cases haction : action = .cpuPmExit
      · rw [Entry.checks, if_pos haction]
        exact Cpu.checkedL1L2_valid
      · rw [Entry.checks, if_neg haction] at hcheck
        cases hcheck

/-- An execution of an entry point without panics. -/
theorem entry_exec {trace : List (Event KryoCall)} {result : Option Int} (hce : c.panicOnCe = false)
    (hue : s.panicOnUe = false) (hfree : s.lockHeld = false)
    (hexec : Exec kryo (entry.program c) s trace result s') :
    result.isSome ∧ s' = (entry.prepared s).checked c entry.checks := by
  have hwp := (@quiet_entry c s entry (fun s' => s' = (entry.prepared s).checked c entry.checks)
    hce hue hfree).mpr rfl
  exact wp_exec hwp hexec

theorem exists_entry_exec (hce : c.panicOnCe = false) (hue : s.panicOnUe = false)
    (hfree : s.lockHeld = false) : ∃ trace result s',
      Exec kryo (entry.program c) s trace result s' := by
  have hreturns : wps kryo (lockGuard fun _ => True) (entry.program c) (fun _ _ => True) s :=
    wps_mono ((quiet_entry (Q := fun _ => True) hce hue hfree).mpr trivial) fun _ _ _ => trivial
  refine exists_exec hreturns ?_
  intro hfalse
  exact (quiet_entry (Q := fun _ => False) hce hue hfree).mp
    (wps_mono hfalse fun _ _ hnot => hnot.elim)

/-- An execution of a check without panics. -/
theorem check_exec {check : Check} {trace : List (Event KryoCall)} {result : Option Unit}
    (hce : c.panicOnCe = false) (hue : s.panicOnUe = false) (hfree : s.lockHeld = false)
    (hexec : Exec kryo (check.program c) s trace result s') : s' = check.after c s :=
  wp_exec ((quiet_check (Q := fun _ s' => s' = check.after c s) hce hue hfree).mpr rfl) hexec

/-- An entry point leaves the records settled exactly if it does not leave an L3 error valid: it
does not run the L3 check, or the L3 record holds no L3 error, or this is no bus error and its
location was not overwritten. -/
theorem leavesSettled_iff (cpu : Nat) (partNum : U32) (entry : Entry) (record : U64 → ErrRecord) :
    LeavesSettled ⟨cpu, partNum, false⟩ entry record ↔ ¬ LeavesL3 entry record := by
  generalize hc : (⟨cpu, partNum, false⟩ : Config) = c
  have hce : c.panicOnCe = false := hc ▸ rfl
  constructor
  · intro h hleaves
    obtain ⟨hcheck, hlocated, hleft⟩ := hleaves
    obtain ⟨trace, result, s', hexec⟩ :=
      @exists_entry_exec c (.entering 0 record false []) entry hce rfl rfl
    have hvalid : errxstatusValid (s'.record 1).status = 0 :=
      ((h 0 [] trace result s' hexec).2 .l3 hcheck).1 hlocated
    rw [(entry_exec hce rfl rfl hexec).2,
      Entry.checked_valid_iff (s := .entering 0 record false []) hcheck hlocated] at hvalid
    exact hvalid hleft
  · intro hleaves errselr reported trace result s' hexec
    obtain ⟨hresult, rfl⟩ := entry_exec hce rfl rfl hexec
    refine ⟨hresult, ?_⟩
    intro check hcheck
    constructor
    · intro hhandles
      cases check with
      | l1L2 => exact Entry.checked_l1L2_valid hcheck _
      | l3 =>
          have hlocated : L3Located ((Cpu.entering errselr record false reported).record 1) :=
            hhandles
          show errxstatusValid (Cpu.record _ 1).status = 0
          rw [Entry.checked_valid_iff hcheck hlocated]
          exact fun hleft => hleaves ⟨hcheck, hlocated, hleft⟩
    · intro trace' result' s'' hagain
      obtain ⟨hue, hfree⟩ :=
        @Entry.prepared_quiet (.entering errselr record false reported) entry rfl rfl
      rw [check_exec hce (Cpu.checked_panicOnUe.trans hue) (Cpu.checked_lockHeld hfree) hagain]
      exact Check.after_reported (Entry.report_none hcheck _)

/-- A valid bus error of the L3 cache. -/
def busErrorL3 : ErrRecord := ⟨0, 0x40000012, 0x4⟩

/-- The interrupt of the L3 cache leaves a bus error valid. -/
theorem not_leavesSettled_busErrorL3 :
    ¬ ∀ (cpu : Nat) (partNum : U32) (entry : Entry) (record : U64 → ErrRecord),
      LeavesSettled ⟨cpu, partNum, false⟩ entry record := by
  intro h
  obtain ⟨trace, result, s', hexec⟩ := @exists_entry_exec ⟨0, QCOM_CPU_PART_KRYO4XX_GOLD, false⟩
    (.entering 0 (fun _ => busErrorL3) false []) .l3Irq rfl rfl rfl
  have hlocated : L3Located busErrorL3 := by decide
  obtain ⟨-, hchecks⟩ := h 0 QCOM_CPU_PART_KRYO4XX_GOLD .l3Irq (fun _ => busErrorL3) 0 [] trace
    result s' hexec
  have hvalid : errxstatusValid (s'.record 1).status = 0 :=
    (hchecks .l3 (List.mem_singleton.mpr rfl)).1 hlocated
  rw [(entry_exec rfl rfl rfl hexec).2, Entry.checked_valid_iff
    (s := .entering 0 (fun _ => busErrorL3) false []) (List.mem_singleton.mpr rfl) hlocated] at hvalid
  have hbus : L3BusError busErrorL3 := by decide
  exact hvalid (.inl hbus)

end SafeLinux.KryoEdac
