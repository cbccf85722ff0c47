import SafeLinux.Kiumd.FaultLatch
import SafeLinux.Linux.Hex

/-!
# The text of a fault

`fsr_iova_show` prints a fault as two hexadecimal numbers. A reader gets the FSR of the fault back,
and its address when it fits the 32 bits of the node's field.
-/

namespace SafeLinux.Kiumd

open Effects

/-! ## Reading the text -/

/-- What `sscanf` with the format `"0x%x:0x%x\n"` reads. -/
def scanFault (text : String) : Option (Nat × Nat) := do
  let rest ← scanText ['0', 'x'] text.toList
  let (fsr, rest) := scanHex 0 rest
  let rest ← scanText [':', '0', 'x'] rest
  let (iova, _) := scanHex 0 rest
  return (fsr, iova)

theorem toList_showText (fsr iova : U32) : (showText fsr iova).toList =
    ['0', 'x'] ++ (Nat.toDigits 16 fsr.toNat ++
      ([':', '0', 'x'] ++ (Nat.toDigits 16 iova.toNat ++ ['\n']))) := by
  simp [showText, hexDigits]

/-- The text gives back the numbers that were printed. -/
theorem scanFault_showText (fsr iova : U32) :
    scanFault (showText fsr iova) = some (fsr.toNat, iova.toNat) := by
  have hfsr : ∀ rest, scanHex 0 (Nat.toDigits 16 fsr.toNat ++ ([':', '0', 'x'] ++ rest)) =
      (fsr.toNat, [':', '0', 'x'] ++ rest) := fun rest =>
    (scanHex_toDigits _ _).trans (scanHex_stop (by decide) _ _)
  have hiova : scanHex 0 (Nat.toDigits 16 iova.toNat ++ ['\n']) = (iova.toNat, ['\n']) :=
    (scanHex_toDigits _ _).trans (scanHex_stop (by decide) _ _)
  simp only [scanFault, toList_showText, scanText_append, hfsr, hiova, Option.bind_eq_bind,
    Option.bind_some, Option.pure_def]

/-! ## A fault and the next read -/

/-- The calls of a request report a fault with a name to the handler, which can read its FSR. -/
def ReportsFault (report : FaultReport) (n : String) : FaultRequest → FaultTrace → Prop
  | .handle report' text, _ => report' = report ∧ text = n ∧ report.pgtblOps = true
  | .fault _ report', trace =>
      report' = report ∧ lastSeen foundText trace = some n ∧ report.pgtblOps = true
  | _, _ => False

/-- The device with the name is registered and holds no fault. -/
def Unlatched (n : String) (f : FaultState) : Prop :=
  ∃ obj ∈ f.head, obj.kobj.name = n ∧ obj.flag = 0

/-- Since then the device with the name has only had faults reported. -/
def OnlyReported (n : String) (events : List FaultEvent) : Prop :=
  ∀ event ∈ events, event.name = n → ∃ fsr iova, event = .reported n fsr iova

variable {n : String} {events later : List FaultEvent} {f : FaultState} {report : FaultReport}
  {i : FaultRequest} {trace : FaultTrace}

theorem ReportsFault.eventOf (h : ReportsFault report n i trace) :
    eventOf i trace = some (.reported n report.fsr (report.iova.setWidth 32)) := by
  cases i with
  | handle report' text =>
      obtain ⟨rfl, rfl, hops⟩ := h
      exact if_pos hops
  | fault dom report' =>
      obtain ⟨rfl, htext, hops⟩ := h
      rw [Kiumd.eventOf, htext, Option.bind_some, reportEvent, if_pos hops]
  | register | deregister | «show» => exact h.elim

theorem Latches.firstUnread_none (h : Latches events f) (hfree : Unlatched n f) :
    IsRegistered n events ∧ firstUnread n events = none := by
  obtain ⟨obj, hobj, rfl, hflag⟩ := hfree
  refine ⟨(h.listed _).mpr ⟨obj, hobj, rfl⟩, ?_⟩
  have hholds := h.holds obj hobj
  cases hfirst : firstUnread obj.kobj.name events with
  | none => rfl
  | some fault =>
      rw [hfirst] at hholds
      exact absurd hflag hholds.1

/-- Later faults change neither the registration nor the first unread fault. -/
theorem OnlyReported.firstUnread {fault : U32 × U32} (h : OnlyReported n later)
    (hregistered : IsRegistered n events) (hfirst : firstUnread n events = some fault) :
    IsRegistered n (later ++ events) ∧ firstUnread n (later ++ events) = some fault := by
  induction later with
  | nil => exact ⟨hregistered, hfirst⟩
  | cons event later ih =>
      obtain ⟨hregistered', hfirst'⟩ := ih fun e he => h e (List.mem_cons_of_mem _ he)
      by_cases hname : event.name = n
      · obtain ⟨fsr, iova, rfl⟩ := h event List.mem_cons_self hname
        refine ⟨hregistered', ?_⟩
        rw [List.cons_append, Kiumd.firstUnread, if_pos rfl, hfirst', Option.some_or]
      · rw [List.cons_append, firstUnread_skip hname]
        refine ⟨?_, hfirst'⟩
        cases event with
        | registered => exact .inr hregistered'
        | deregistered => exact ⟨hname, hregistered'⟩
        | reported | read => exact hregistered'

variable {names : Device → String} {w₀ : World} {s₀ s s' : World × FaultState}
  {past next : History FaultRequest (Either KCall FaultCall)}

theorem eventsOf_append : eventsOf (next ++ past) = eventsOf next ++ eventsOf past :=
  List.filterMap_append ..

/-- After every run, a registered device that holds no fault takes the next one reported, and the
next read of the device gives back its FSR; it gives back its address exactly if that is below
4 GiB. -/
theorem fsr_iova_show_scans_iff {kobj : Kobject} {trace' : FaultTrace}
    {result : Option (Option String)} (hpast : FaultRun names w₀ past s₀)
    (hfree : Unlatched kobj.name s₀.2) (hreports : ReportsFault report kobj.name i trace)
    (hrun : FaultRun names w₀ (next ++ (i, trace) :: past) s)
    (hnext : OnlyReported kobj.name (eventsOf next))
    (hexec : Exec faultKernel (faultProgram names (.show (some kobj))) s trace' result s') :
    ∃ text, result = some (some text) ∧
      (scanFault text = some (report.fsr.toNat, report.iova.toNat) ↔
        report.iova.toNat < 2 ^ 32) := by
  obtain ⟨hregistered, hnone⟩ := hpast.latches.firstUnread_none hfree
  have hevents : eventsOf ((i, trace) :: past) =
      .reported kobj.name report.fsr (report.iova.setWidth 32) :: eventsOf past := by
    rw [eventsOf_cons, hreports.eventOf]
    rfl
  have hfirst : firstUnread kobj.name (eventsOf ((i, trace) :: past)) =
      some (report.fsr, report.iova.setWidth 32) := by
    rw [hevents, firstUnread, if_pos rfl, hnone, Option.none_or]
  have hregistered' : IsRegistered kobj.name (eventsOf ((i, trace) :: past)) := by
    rw [hevents]
    exact hregistered
  obtain ⟨hlisted, hunread⟩ := hnext.firstUnread hregistered' hfirst
  rw [← eventsOf_append] at hlisted hunread
  refine ⟨_, hrun.show_result hlisted hexec, ?_⟩
  rw [hunread, readingText, Option.getD_some, scanFault_showText]
  simp only [Option.some.injEq, Prod.mk.injEq, true_and, BitVec.toNat_setWidth]
  constructor
  · intro heq
    rw [← heq]
    exact Nat.mod_lt _ (by decide)
  · exact Nat.mod_eq_of_lt

/-- A fault is reported to a device that has just been registered, and read with a text. -/
def FirstFault (kobj : Kobject) (report : FaultReport) (text : String) : Prop :=
  ∃ past s₀ trace s trace' s', FaultRun (fun _ => kobj.name) .initial past s₀ ∧
    Unlatched kobj.name s₀.2 ∧
    FaultRun (fun _ => kobj.name) .initial ([] ++ (.handle report kobj.name, trace) :: past) s ∧
    Exec faultKernel (faultProgram (fun _ => kobj.name) (.show (some kobj))) s trace'
      (some (some text)) s'

/-- Whether registering a device, reporting a fault and reading it gives a text. -/
def showsFault (kobj : Kobject) (report : FaultReport) (text : String) : Bool :=
  let choose := faultChoose (Answers.plain fun _ _ => false)
  let program := faultProgram fun _ => kobj.name
  Run.check faultKernel program choose [.register plainUser] (.initial, {}) fun _ s =>
    s.2.head.any (fun obj => obj.kobj.name = kobj.name && obj.flag = 0) &&
    (program (.handle report kobj.name)).check faultKernel choose s fun _ _ s =>
      (program (.show (some kobj))).check faultKernel choose s fun _ shown _ => shown = some text

theorem firstFault_of_showsFault {kobj : Kobject} {text : String}
    (h : showsFault kobj report text = true) : FirstFault kobj report text := by
  obtain ⟨past, s₀, hpast, htest⟩ := Run.check_run h
  rw [Bool.and_eq_true] at htest
  obtain ⟨hfree, htest⟩ := htest
  obtain ⟨trace, value, s, hexec, hshow⟩ := Program.check_exec htest
  obtain ⟨trace', shown, s', hexec', hshown⟩ := Program.check_exec hshow
  obtain rfl := of_decide_eq_true hshown
  obtain ⟨obj, hobj, htest⟩ := List.any_eq_true.mp hfree
  rw [Bool.and_eq_true, decide_eq_true_eq, decide_eq_true_eq] at htest
  exact ⟨past, s₀, trace, s, trace', s', hpast, ⟨obj, hobj, htest⟩, .request hpast hexec trivial,
    hexec'⟩

/-- The address of a fault below 4 GiB is read back. -/
theorem fsr_iova_show_scans_iff_low : ∃ text, FirstFault ⟨0, "gpu"⟩ ⟨true, 0x402, 0x1000⟩ text ∧
    scanFault text = some (0x402, 0x1000) := by
  have hshows : showsFault ⟨0, "gpu"⟩ ⟨true, 0x402, 0x1000⟩ "0x402:0x1000\n" = true := by
    decide +kernel
  have hfault := firstFault_of_showsFault hshows
  obtain ⟨past, s₀, trace, s, trace', s', hpast, hfree, hrun, hexec⟩ := hfault
  have hreports : ReportsFault ⟨true, 0x402, 0x1000⟩ "gpu"
    (.handle ⟨true, 0x402, 0x1000⟩ "gpu") trace := ⟨rfl, rfl, rfl⟩
  obtain ⟨text, htext, hscans⟩ := fsr_iova_show_scans_iff hpast hfree hreports hrun nofun hexec
  obtain rfl := Option.some.inj (Option.some.inj htext)
  exact ⟨_, firstFault_of_showsFault hshows, hscans.mpr (by decide)⟩

/-- The address of a fault in the KGSL window is cut to 32 bits. -/
theorem not_fsr_iova_show_scans : ¬ ∀ names w₀ past s₀ (kobj : Kobject) report i trace next s trace'
    result s', FaultRun names w₀ past s₀ → Unlatched kobj.name s₀.2 →
    ReportsFault report kobj.name i trace → FaultRun names w₀ (next ++ (i, trace) :: past) s →
    OnlyReported kobj.name (eventsOf next) →
    Exec faultKernel (faultProgram names (.show (some kobj))) s trace' result s' →
    ∃ text, result = some (some text) ∧
      scanFault text = some (report.fsr.toNat, report.iova.toNat) := by
  intro hall
  have hshows : showsFault ⟨0, "gpu"⟩ ⟨true, 0x402, 0xFFFFFF8000001000⟩ "0x402:0x1000\n"
      = true := by
    decide +kernel
  obtain ⟨past, s₀, trace, s, trace', s', hpast, hfree, hrun, hexec⟩ :=
    firstFault_of_showsFault hshows
  have hreports : ReportsFault ⟨true, 0x402, 0xFFFFFF8000001000⟩ "gpu"
    (.handle ⟨true, 0x402, 0xFFFFFF8000001000⟩ "gpu") trace := ⟨rfl, rfl, rfl⟩
  obtain ⟨text, htext, hscans⟩ := hall _ _ _ _ _ _ _ _ _ _ _ _ _ hpast hfree hreports hrun nofun
    hexec
  obtain rfl := Option.some.inj (Option.some.inj htext)
  have hread : scanFault "0x402:0x1000\n" = some (0x402, 0x1000) := by
    decide +kernel
  rw [hread] at hscans
  exact absurd hscans (by decide)

end SafeLinux.Kiumd
