import SafeLinux.Kiumd.Answers
import SafeLinux.Kiumd.FaultSteps

/-!
# Reads yield the first unread fault

`firstUnread` is the fault that a read of a device has to yield, from the history of the events
about this device alone. `Latches` ties the list of registered devices to it: the nodes have
distinct names, they are those of the registered devices, and each holds the first unread fault of
its device.
-/

namespace SafeLinux.Kiumd

open Effects

/-! ## What a read has to yield -/

/-- The name of the device that an event is about. -/
def FaultEvent.name : FaultEvent → String
  | .registered kobj _ | .deregistered kobj => kobj.name
  | .reported text _ _ | .read text => text

/-- The events about the device with a name. -/
def eventsAbout (n : String) (events : List FaultEvent) : List FaultEvent :=
  events.filter fun event => event.name = n

/-- The device with the name has been registered and not deregistered since; the latest event comes
first. -/
def IsRegistered (n : String) : List FaultEvent → Prop
  | [] => False
  | .registered kobj _ :: events => kobj.name = n ∨ IsRegistered n events
  | .deregistered kobj :: events => kobj.name ≠ n ∧ IsRegistered n events
  | .reported _ _ _ :: events => IsRegistered n events
  | .read _ :: events => IsRegistered n events

/-- The first fault reported with the name since the last read, or since the registration. -/
def firstUnread (n : String) : List FaultEvent → Option (U32 × U32)
  | [] => none
  | .registered kobj _ :: events => if kobj.name = n then none else firstUnread n events
  | .deregistered _ :: events => firstUnread n events
  | .reported text fsr iova :: events =>
      if text = n then (firstUnread n events).or (some (fsr, iova)) else firstUnread n events
  | .read text :: events => if text = n then none else firstUnread n events

/-- The text of a read that yields a fault, or none. -/
def readingText (fault : Option (U32 × U32)) : String :=
  showText (fault.getD (0, 0)).1 (fault.getD (0, 0)).2

variable {n : String} {events : List FaultEvent}

/-- An event about another device does not matter. -/
theorem firstUnread_skip {event : FaultEvent} (h : event.name ≠ n) :
    firstUnread n (event :: events) = firstUnread n events := by
  cases event <;> simp_all [firstUnread, FaultEvent.name]

theorem firstUnread_congr {events' : List FaultEvent} (event : FaultEvent)
    (h : firstUnread n events = firstUnread n events') :
    firstUnread n (event :: events) = firstUnread n (event :: events') := by
  cases event <;> simp [firstUnread, h]

/-- What a read has to yield depends only on the events about its device. -/
theorem firstUnread_about : firstUnread n (eventsAbout n events) = firstUnread n events := by
  induction events with
  | nil => rfl
  | cons event events ih =>
      by_cases hname : event.name = n
      · rw [eventsAbout, List.filter_cons_of_pos (by simpa using hname)]
        exact firstUnread_congr event ih
      · rw [eventsAbout, List.filter_cons_of_neg (by simpa using hname), firstUnread_skip hname]
        exact ih

/-! ## The loops -/

variable {head list : List SmmuDeviceObj} {obj : SmmuDeviceObj} {name : String}
  {report : FaultReport}

/-- The nodes have distinct names. -/
def DistinctNames (head : List SmmuDeviceObj) : Prop :=
  head.Pairwise fun obj obj' => obj.kobj.name ≠ obj'.kobj.name

/-- A node after a read. -/
def SmmuDeviceObj.reset (obj : SmmuDeviceObj) : SmmuDeviceObj :=
  { obj with smmuFsr := 0, smmuIova := 0, flag := 0 }

/-- A node after a report. -/
def SmmuDeviceObj.latch (report : FaultReport) (obj : SmmuDeviceObj) : SmmuDeviceObj :=
  if obj.flag = 0 then
    { obj with smmuFsr := report.fsr, smmuIova := report.iova.setWidth 32, flag := 1 }
  else obj

/-- Change the nodes with a name. -/
def atName (name : String) (g : SmmuDeviceObj → SmmuDeviceObj) (obj : SmmuDeviceObj) :
    SmmuDeviceObj :=
  if obj.kobj.name = name then g obj else obj

/-- Where no node has the name, nothing changes. -/
theorem map_atName_eq_self {g : SmmuDeviceObj → SmmuDeviceObj}
    (h : ∀ obj ∈ head, obj.kobj.name ≠ name) : head.map (atName name g) = head := by
  conv_rhs => rw [← List.map_id head]
  exact List.map_congr_left fun obj hobj => if_neg (h obj hobj)

/-- The nodes behind one with the name have other names. -/
theorem DistinctNames.tail_ne (h : DistinctNames (obj :: head)) (hname : obj.kobj.name = name) :
    ∀ obj' ∈ head, obj'.kobj.name ≠ name :=
  fun obj' hobj' heq => (List.pairwise_cons.mp h).1 obj' hobj' (hname.trans heq.symm)

/-- A read finds the node with the name and resets it. -/
theorem showScan_eq (h : DistinctNames head) :
    showScan name head = (head.find? fun obj => obj.kobj.name = name).map fun obj =>
      (obj.smmuFsr, obj.smmuIova, head.map (atName name SmmuDeviceObj.reset)) := by
  induction head with
  | nil => rfl
  | cons obj head ih =>
      rw [showScan]
      by_cases hname : obj.kobj.name = name
      · rw [if_pos hname, List.find?_cons_of_pos (by simpa using hname), List.map_cons, atName,
          if_pos hname, map_atName_eq_self (h.tail_ne hname)]
        rfl
      · rw [if_neg hname, List.find?_cons_of_neg (by simpa using hname), List.map_cons, atName,
          if_neg hname, ih (List.pairwise_cons.mp h).2, Option.map_map]
        rfl

theorem shown_eq (h : DistinctNames head) :
    shown name head = head.map (atName name SmmuDeviceObj.reset) := by
  rw [shown, showScan_eq h, Option.map_map]
  cases hfind : head.find? fun obj => obj.kobj.name = name with
  | some obj => rfl
  | none =>
      have hnone : ∀ obj ∈ head, obj.kobj.name ≠ name := by
        simpa [List.find?_eq_none] using hfind
      exact (map_atName_eq_self hnone).symm

/-- A report is latched by the node with the name, if it holds none. -/
theorem latched_eq (h : DistinctNames head) :
    latched name report head = head.map (atName name (SmmuDeviceObj.latch report)) := by
  unfold latched
  induction head with
  | nil => rfl
  | cons obj head ih =>
      have htail := ih (List.pairwise_cons.mp h).2
      rw [latchScan, List.map_cons, atName]
      by_cases hname : obj.kobj.name = name
      · have hsame := @map_atName_eq_self _ _ (SmmuDeviceObj.latch report) (h.tail_ne hname)
        rw [if_pos hname, SmmuDeviceObj.latch]
        by_cases hflag : obj.flag = 0
        · rw [if_pos ⟨hname, hflag⟩, if_pos hflag, hsame]
          rfl
        · rw [if_neg fun hboth => hflag hboth.2, if_neg hflag]
          rw [← htail]
          cases latchScan name report head <;> rfl
      · rw [if_neg fun hboth => hname hboth.1, if_neg hname, ← htail]
        cases latchScan name report head <;> rfl

/-- A deregistration takes out the node with the name. -/
theorem cutScan_spec (h : cutScan name head = some (obj, list)) :
    obj.kobj.name = name ∧ ∃ before after, head = before ++ obj :: after ∧
      list = before ++ after := by
  induction head generalizing list with
  | nil => cases h
  | cons temp next ih =>
      rw [cutScan] at h
      split at h
      · rename_i hname
        cases h
        exact ⟨hname, [], _, rfl, rfl⟩
      · obtain ⟨⟨obj', list'⟩, hscan, heq⟩ := Option.map_eq_some_iff.mp h
        cases heq
        obtain ⟨hname, before, after, rfl, rfl⟩ := ih hscan
        exact ⟨hname, temp :: before, after, rfl, rfl⟩

/-! ## The invariant -/

/-- The node holds the fault, or none. -/
def SmmuDeviceObj.Holds (obj : SmmuDeviceObj) : Option (U32 × U32) → Prop
  | none => obj.flag = 0 ∧ obj.smmuFsr = 0 ∧ obj.smmuIova = 0
  | some (fsr, iova) => obj.flag ≠ 0 ∧ obj.smmuFsr = fsr ∧ obj.smmuIova = iova

/-- The list is that of the registered devices, each with its first unread fault. -/
structure Latches (events : List FaultEvent) (f : FaultState) : Prop where
  distinct : DistinctNames f.head
  live : ∀ obj ∈ f.head, obj.kobj ∈ f.kobjects
  listed : ∀ n, IsRegistered n events ↔ ∃ obj ∈ f.head, obj.kobj.name = n
  holds : ∀ obj ∈ f.head, obj.Holds (firstUnread obj.kobj.name events)

variable {f f' : FaultState}

/-- Changing the values of the nodes keeps the list. -/
theorem Latches.map {event : FaultEvent} {g : SmmuDeviceObj → SmmuDeviceObj}
    (h : Latches events f) (hg : ∀ obj, (g obj).kobj = obj.kobj)
    (hregistered : ∀ n, IsRegistered n (event :: events) ↔ IsRegistered n events)
    (hholds : ∀ obj ∈ f.head, (g obj).Holds (firstUnread obj.kobj.name (event :: events))) :
    Latches (event :: events) { f with head := f.head.map g } where
  distinct := by
    refine List.pairwise_map.mpr (h.distinct.imp fun hne => ?_)
    rwa [hg, hg]
  live := by
    intro obj hobj
    obtain ⟨obj', hobj', rfl⟩ := List.mem_map.mp hobj
    rw [hg]
    exact h.live obj' hobj'
  listed n := by
    rw [hregistered, h.listed]
    simp [hg]
  holds := by
    intro obj hobj
    obtain ⟨obj', hobj', rfl⟩ := List.mem_map.mp hobj
    rw [hg]
    exact hholds obj' hobj'

@[simp] theorem atName_kobj {g : SmmuDeviceObj → SmmuDeviceObj}
    (hg : ∀ obj, (g obj).kobj = obj.kobj) : (atName name g obj).kobj = obj.kobj := by
  unfold atName
  split
  · exact hg obj
  · rfl

@[simp] theorem reset_kobj : obj.reset.kobj = obj.kobj := rfl

@[simp] theorem latch_kobj : (obj.latch report).kobj = obj.kobj := by
  unfold SmmuDeviceObj.latch
  split <;> rfl

theorem Latches.read {text : String} (h : Latches events f) :
    Latches (.read text :: events) { f with head := shown text f.head } := by
  rw [shown_eq h.distinct]
  refine h.map (fun obj => atName_kobj fun _ => rfl) (fun _ => Iff.rfl) ?_
  intro obj hobj
  by_cases hname : obj.kobj.name = text
  · rw [atName, if_pos hname, firstUnread, if_pos hname.symm]
    exact ⟨rfl, rfl, rfl⟩
  · rw [atName, if_neg hname, firstUnread, if_neg (Ne.symm hname)]
    exact h.holds obj hobj

theorem Latches.reported {text : String} (h : Latches events f) :
    Latches (.reported text report.fsr (report.iova.setWidth 32) :: events)
      { f with head := latched text report f.head } := by
  rw [latched_eq h.distinct]
  refine h.map (fun obj => atName_kobj fun _ => latch_kobj) (fun _ => Iff.rfl) ?_
  intro obj hobj
  have hheld := h.holds obj hobj
  by_cases hname : obj.kobj.name = text
  · rw [atName, if_pos hname, firstUnread, if_pos hname.symm, SmmuDeviceObj.latch]
    cases hfirst : firstUnread obj.kobj.name events with
    | none =>
        rw [hfirst] at hheld
        rw [if_pos hheld.1]
        exact ⟨Int.one_ne_zero, rfl, rfl⟩
    | some fault =>
        rw [hfirst] at hheld
        rw [if_neg hheld.1]
        exact hheld
  · rw [atName, if_neg hname, firstUnread, if_neg (Ne.symm hname)]
    exact hheld

/-- A new kobject has a name that no node has. -/
theorem Latches.fresh {kobj : Kobject} (h : Latches events f) (haccepts : f.accepts kobj) :
    ∀ obj ∈ f.head, obj.kobj.name ≠ kobj.name :=
  fun obj hobj => (haccepts obj.kobj (h.live obj hobj)).2

theorem Latches.created {kobj : Kobject} (h : Latches events f) :
    Latches events { f with kobjects := kobj :: f.kobjects } :=
  { h with live := fun obj hobj => List.mem_cons_of_mem _ (h.live obj hobj) }

theorem Latches.registered {kobj : Kobject} {dev : Device}
    {handlers : Domain → Option Kobject} (h : Latches events f) (haccepts : f.accepts kobj) :
    Latches (.registered kobj dev :: events)
      { head := f.head ++ [{ kobj := kobj }], kobjects := kobj :: f.kobjects,
        handlers := handlers } where
  distinct := by
    refine List.pairwise_append.mpr ⟨h.distinct, List.pairwise_singleton _ _, ?_⟩
    intro obj hobj new hnew
    obtain rfl := List.mem_singleton.mp hnew
    exact h.fresh haccepts obj hobj
  live := by
    intro obj hobj
    rcases List.mem_append.mp hobj with hold | hnew
    · exact List.mem_cons_of_mem _ (h.live obj hold)
    · obtain rfl := List.mem_singleton.mp hnew
      exact List.mem_cons_self
  listed n := by
    rw [IsRegistered, h.listed]
    simp only [List.mem_append, List.mem_singleton]
    constructor
    · rintro (hname | ⟨obj, hobj, hname⟩)
      · exact ⟨_, .inr rfl, hname⟩
      · exact ⟨obj, .inl hobj, hname⟩
    · rintro ⟨obj, hobj | rfl, hname⟩
      · exact .inr ⟨obj, hobj, hname⟩
      · exact .inl hname
  holds := by
    intro obj hobj
    rw [firstUnread]
    rcases List.mem_append.mp hobj with hold | hnew
    · rw [if_neg (h.fresh haccepts obj hold).symm]
      exact h.holds obj hold
    · obtain rfl := List.mem_singleton.mp hnew
      rw [if_pos rfl]
      exact ⟨rfl, rfl, rfl⟩

theorem Latches.deregistered {text : String} (h : Latches events f)
    (hcut : cutScan text f.head = some (obj, list)) :
    Latches (.deregistered obj.kobj :: events)
      { f with head := list, kobjects := f.kobjects.erase obj.kobj } := by
  obtain ⟨-, before, after, hhead, rfl⟩ := cutScan_spec hcut
  have hperm : f.head.Perm (obj :: (before ++ after)) := hhead ▸ List.perm_middle
  have hdistinct : DistinctNames (obj :: (before ++ after)) :=
    (hperm.pairwise_iff fun hne => Ne.symm hne).mp h.distinct
  have hne := fun obj' hobj' => (List.pairwise_cons.mp hdistinct).1 obj' hobj'
  have hmem : ∀ {obj'}, obj' ∈ before ++ after → obj' ∈ f.head := fun hobj' =>
    hperm.mem_iff.mpr (List.mem_cons_of_mem _ hobj')
  refine ⟨(List.pairwise_cons.mp hdistinct).2, ?_, ?_, ?_⟩
  · intro obj' hobj'
    refine (List.mem_erase_of_ne fun heq => ?_).mpr (h.live obj' (hmem hobj'))
    exact hne obj' hobj' (congrArg Kobject.name heq.symm)
  · intro n
    rw [IsRegistered, h.listed]
    constructor
    · rintro ⟨hname, obj', hobj', hname'⟩
      rcases List.mem_cons.mp (hperm.mem_iff.mp hobj') with rfl | hrest
      · exact absurd hname' hname
      · exact ⟨obj', hrest, hname'⟩
    · rintro ⟨obj', hobj', rfl⟩
      exact ⟨hne obj' hobj', obj', hmem hobj', rfl⟩
  · intro obj' hobj'
    exact h.holds obj' (hmem hobj')

/-- Each step keeps the invariant. -/
theorem Latches.step {names : Device → String} {i : FaultRequest} {event : Option FaultEvent}
    (h : Latches events f) (hstep : FaultStep names f i event f') :
    Latches (event.toList ++ events) f' := by
  cases hstep with
  | idle => exact h
  | created => exact h.created
  | registered haccepts => exact h.registered haccepts
  | deregistered hcut => exact h.deregistered hcut
  | reported => exact h.reported
  | read => exact h.read

variable {names : Device → String} {w₀ : World} {s s' : World × FaultState}
  {history : History FaultRequest (Either KCall FaultCall)}

/-- A run of requests, from the state in which no device is registered. -/
abbrev FaultRun (names : Device → String) (w₀ : World)
    (history : History FaultRequest (Either KCall FaultCall)) (s : World × FaultState) : Prop :=
  Run faultKernel (faultProgram names) .any (w₀, {}) history s

theorem FaultRun.latches (h : FaultRun names w₀ history s) : Latches (eventsOf history) s.2 := by
  refine h.invariant (fun history s => Latches (eventsOf history) s.2) ?_ ?_
  · exact ⟨.nil, by simp, by simp [eventsOf, IsRegistered], by simp⟩
  · rintro history i ⟨w, f⟩ hlatches
    refine wp_mono faultProgram_steps ?_
    intro trace _ s' hstep _
    rw [eventsOf_cons]
    exact hlatches.step hstep

/-! ## What a read yields -/

/-- The text of a read of a registered device. -/
theorem Latches.showText_eq {kobj : Kobject} (h : Latches events f)
    (hregistered : IsRegistered kobj.name events) :
    (match showScan kobj.name f.head with
      | none => showText 0 0
      | some (fsr, iova, _) => showText fsr iova) = readingText (firstUnread kobj.name events) := by
  rw [showScan_eq h.distinct]
  cases hfind : f.head.find? fun obj => obj.kobj.name = kobj.name with
  | none =>
      obtain ⟨obj, hobj, hname⟩ := (h.listed _).mp hregistered
      exact absurd hname (by simpa using List.find?_eq_none.mp hfind obj hobj)
  | some obj =>
      have hname : obj.kobj.name = kobj.name := by simpa using List.find?_some hfind
      have hheld := h.holds obj (List.mem_of_find?_eq_some hfind)
      rw [hname] at hheld
      cases hfirst : firstUnread kobj.name events with
      | none =>
          rw [hfirst] at hheld
          obtain ⟨-, hfsr, hiova⟩ := hheld
          simp [readingText, hfsr, hiova]
      | some fault =>
          rw [hfirst] at hheld
          obtain ⟨-, hfsr, hiova⟩ := hheld
          simp [readingText, hfsr, hiova]

/-- What a read of a registered device returns. -/
theorem FaultRun.show_result {kobj : Kobject} {trace : FaultTrace}
    {result : Option (Option String)} (hrun : FaultRun names w₀ history s)
    (hregistered : IsRegistered kobj.name (eventsOf history))
    (hexec : Exec faultKernel (faultProgram names (.show (some kobj))) s trace result s') :
    result = some (some (readingText (firstUnread kobj.name (eventsOf history)))) := by
  obtain ⟨w, f⟩ := s
  have hlatches : Latches (eventsOf history) f := hrun.latches
  have hwp : wp faultKernel .any (fsrIovaShow (some kobj) >>= fun text => pure (some text))
      (fun _ result _ =>
        result = some (some (readingText (firstUnread kobj.name (eventsOf history))))) (w, f) := by
    rw [wp_bind]
    refine wp_mono fsrIovaShow_reads ?_
    rintro trace _ s' ⟨text, rfl, -, htext'⟩
    refine wp_pure.mpr ?_
    rw [Post.after_apply, htext']
    exact congrArg (fun text => some (some text)) (hlatches.showText_eq hregistered)
  exact wp_exec hwp hexec

/-- After every run, a read of a registered device yields the first fault reported with its name
since its last read or its registration, and 0:0 if there was none; two runs with the same events
about the device yield the same. -/
theorem fsr_iova_show_yields_first_unread {kobj : Kobject} {trace : FaultTrace}
    {result : Option (Option String)} (hrun : FaultRun names w₀ history s)
    (hregistered : IsRegistered kobj.name (eventsOf history))
    (hexec : Exec faultKernel (faultProgram names (.show (some kobj))) s trace result s') :
    result = some (some (readingText (firstUnread kobj.name (eventsOf history)))) ∧
    ∀ names' w₀' history' t t' trace' result', FaultRun names' w₀' history' t →
      IsRegistered kobj.name (eventsOf history') →
      eventsAbout kobj.name (eventsOf history') = eventsAbout kobj.name (eventsOf history) →
      Exec faultKernel (faultProgram names' (.show (some kobj))) t trace' result' t' →
      result' = result := by
  have hresult := hrun.show_result hregistered hexec
  refine ⟨hresult, ?_⟩
  intro names' w₀' history' t t' trace' result' hrun' hregistered' habout hexec'
  rw [hresult, hrun'.show_result hregistered' hexec', ← firstUnread_about, habout,
    firstUnread_about]

/-- Answers to the calls: those of `k`, and fresh kobjects. -/
def faultChoose (k : Answers) : Chooser (Either KCall FaultCall) (World × FaultState)
  | _, .inl request, s => k.choose _ request s.1
  | _, .inr (.kobjectCreateAndAdd name), s => some (some ⟨s.2.kobjects.length, name⟩)
  | _, .inr (.sysfsCreateFile _), _ => some 0
  | _, .inr .kzallocDeviceObj, _ => some true
  | _, .inr (.kfreeDeviceObj _), _ => some ()
  | _, .inr (.kobjectPut _), _ => some ()
  | _, .inr (.sysfsNotify _), _ => some ()
  | _, .inr (.iommuSetFaultHandler _ _), _ => some ()
  | _, .inr (.handler dom), s => some (s.2.handlers dom)
  | _, .inr (.readToken token), _ => some token.name
  | _, .inr .readHead, s => some s.2.head
  | _, .inr (.writeHead _), _ => some ()

/-- Two faults of a registered device are reported; the first one is read. -/
theorem fsr_iova_show_yields_first_unread_two_faults : ∃ history s trace s' kobj,
    FaultRun (fun _ => "gpu") .initial history s ∧
    eventsOf history = [.reported "gpu" 0x404 0x2000, .reported "gpu" 0x402 0x1000,
      .registered kobj ⟨0, 0⟩] ∧
    Exec faultKernel (faultProgram (fun _ => "gpu") (.show (some kobj))) s trace
      (some (some "0x402:0x1000\n")) s' := by
  let kobj : Kobject := ⟨0, "gpu"⟩
  let choose := faultChoose (Answers.plain fun _ _ => false)
  have hcheck : Run.check faultKernel (faultProgram fun _ => "gpu") choose
      [.register plainUser, .handle ⟨true, 0x402, 0x100001000⟩ "gpu",
        .handle ⟨true, 0x404, 0x2000⟩ "gpu"] (.initial, {})
      (fun history s => decide (eventsOf history = [.reported "gpu" 0x404 0x2000,
          .reported "gpu" 0x402 0x1000, .registered kobj ⟨0, 0⟩]) &&
        (faultProgram (fun _ => "gpu") (.show (some kobj))).check faultKernel choose s
          fun _ _ _ => true) = true := by
    decide +kernel
  obtain ⟨history, s, hrun, htest⟩ := Run.check_run hcheck
  obtain ⟨hevents, hshow⟩ := Bool.and_eq_true_iff.mp htest
  obtain ⟨trace, result, s', hexec, -⟩ := Program.check_exec hshow
  have hevents := of_decide_eq_true hevents
  have hregistered : IsRegistered kobj.name (eventsOf history) := by
    rw [hevents]
    exact .inl rfl
  obtain ⟨hresult, -⟩ := fsr_iova_show_yields_first_unread hrun hregistered hexec
  have hfirst : readingText (firstUnread kobj.name (eventsOf history)) = "0x402:0x1000\n" := by
    rw [hevents]
    decide +kernel
  rw [hresult, hfirst] at hexec
  exact ⟨history, s, trace, s', kobj, hrun, hevents, hexec⟩

end SafeLinux.Kiumd
