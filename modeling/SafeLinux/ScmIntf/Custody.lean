import SafeLinux.ScmIntf.StackContents

/-!
# Buffers during the secure call

The address that replaces a file descriptor is handed to the secure world, while another thread may
close the descriptor. A history interleaves its closings with the calls of the driver.
`scmIoctl_held_iff` says when the driver holds the buffer of each translated argument at the secure
call: the translation gives back all that it takes, so this is only when no such call is made.
-/

namespace SafeLinux.ScmIntf

open Effects
open Loans

/-! ## Histories -/

/-- What happens while a request is served: a call of the driver, or a closing by another thread.
A closing gives back the reference of the descriptor and none of the driver's; it may change what
`dma_buf_get` finds, which is left open. -/
inductive Happening where
  | call (e : Event ScmCall)
  | closed (fd : U32)

/-- The calls of the driver. -/
def driverCalls (history : List Happening) : List (Event ScmCall) :=
  history.filterMap fun happening => match happening with
    | .call e => some e
    | .closed _ => none

/-- What the driver did so far holds the buffer of every mapping whose address replaced an
argument: a reference on it, and the mapping. -/
def HeldNow (acts : List RequestAct) : Prop :=
  ∀ dmaBuf attach sgt, .attached dmaBuf attach ∈ acts → .mapped attach sgt ∈ acts → sgt.Whole →
    ∃ held, settle 0 (holdings acts) = some held ∧
      .reference dmaBuf ∈ held ∧ .mapping attach ∈ held

/-- At every secure call the buffers of the translated arguments are held. -/
def HeldAtCalls (history : List Happening) : Prop :=
  ∀ before e after ret, history = before ++ .call e :: after →
    requestObserver.view e.call e.answer = some (.secured ret) →
    HeldNow (requestObserver.actions (driverCalls before))

variable {acts : List RequestAct} {history : List Happening} {build : Build} {r : ScmHandShake}

/-- Closings make no difference to what the driver holds. -/
theorem heldAtCalls_iff : HeldAtCalls history ↔
    ∀ before ret after, requestObserver.actions (driverCalls history) =
      before ++ .secured ret :: after → HeldNow before := by
  constructor
  · intro h before ret after hacts
    obtain ⟨first, e, rest, hcalls, rfl, hsecured, _⟩ := Observer.exists_event hacts
    obtain ⟨happened, later, rfl, rfl, hlater⟩ := List.filterMap_eq_append_iff.mp hcalls
    obtain ⟨closings, happening, after', rfl, hclosings, he, _⟩ :=
      List.filterMap_eq_cons_iff.mp hlater
    cases happening with
    | closed fd => cases he
    | call e' =>
        cases he
        have hnone : driverCalls closings = [] := List.filterMap_eq_nil_iff.mpr hclosings
        have hheld := h (happened ++ closings) e after' ret (by simp) hsecured
        rwa [driverCalls, List.filterMap_append, ← driverCalls, ← driverCalls, hnone,
          List.append_nil] at hheld
  · intro h before e after ret hhistory hsecured
    refine h _ ret (requestObserver.actions (driverCalls after)) ?_
    have hcalls : driverCalls history = driverCalls before ++ e :: driverCalls after := by
      rw [hhistory, driverCalls, List.filterMap_append]
      rfl
    rw [hcalls, Observer.actions_append, Observer.actions_cons, hsecured]
    rfl

/-! ## A translated buffer -/

theorem PaActs.attached_of_mapped {dmaBuf attach : Nat} {sgt : SgTable}
    {pa : Option (Except Int U64)} (h : PaActs dmaBuf acts pa) (hmem : .mapped attach sgt ∈ acts) :
    .attached dmaBuf attach ∈ acts := by
  cases h with
  | unattached | unmappable => simp at hmem
  | mapped =>
      obtain ⟨rfl, _⟩ : attach = _ ∧ sgt = _ := by simpa using hmem
      exact List.mem_cons_self

theorem LoopActs.attached_of_mapped {positions : List U32} {last : Option Nat}
    {result : Option (Except Int (Option Nat))} {attach : Nat} {sgt : SgTable}
    (h : LoopActs positions last acts result) (hmem : .mapped attach sgt ∈ acts) :
    ∃ dmaBuf, .attached dmaBuf attach ∈ acts := by
  induction h with
  | nil => cases hmem
  | notFound => simp at hmem
  | crash hpa | broken hpa =>
      have hmapped := (List.mem_cons.mp hmem).resolve_left nofun
      exact ⟨_, List.mem_cons_of_mem _ (hpa.attached_of_mapped hmapped)⟩
  | next hpa _ ih =>
      have hmapped := (List.mem_cons.mp hmem).resolve_left nofun
      obtain hmapped | hmapped := List.mem_append.mp hmapped
      · exact ⟨_, List.mem_cons_of_mem _ (List.mem_append_left _ (hpa.attached_of_mapped hmapped))⟩
      · obtain ⟨dmaBuf, hattached⟩ := ih hmapped
        exact ⟨dmaBuf, List.mem_cons_of_mem _ (List.mem_append_right _ hattached)⟩

theorem TranslationActs.attached_of_mapped {positions : List U32}
    {result : Option (Except Int Unit)} {attach : Nat} {sgt : SgTable}
    (h : TranslationActs positions acts result) (hmem : .mapped attach sgt ∈ acts) :
    ∃ dmaBuf, .attached dmaBuf attach ∈ acts := by
  cases h with
  | crash hloop => exact hloop.attached_of_mapped hmem
  | error hloop => exact hloop.attached_of_mapped hmem
  | @ok _ last hloop =>
      have hmapped := (List.mem_append.mp hmem).resolve_right (by cases last <;> simp)
      obtain ⟨dmaBuf, hattached⟩ := hloop.attached_of_mapped hmapped
      exact ⟨dmaBuf, List.mem_append_left _ hattached⟩

/-- A translation with a buffer mapped as one segment succeeds, and holds nothing at its end. -/
theorem TranslationActs.whole {i : U32} {result : Option (Except Int Unit)}
    (h : TranslationActs [i] acts result) (hwhole : MapsWhole acts) :
    result = some (.ok ()) ∧ Settled (holdings acts) := by
  obtain ⟨hresult, hsettled⟩ := h.released_one.mpr (.inr hwhole)
  refine ⟨?_, hsettled⟩
  obtain ⟨rfl, _⟩ | hfound := h.cons
  · obtain ⟨_, _, hmem, _⟩ := hwhole
    simp at hmem
  · have hbalance := references_of_settled hsettled
    obtain ⟨hgiven, htaken, _⟩ | ⟨_, _, hok⟩ := h.references hfound hresult
    · omega
    · exact hok

/-- Nothing is held of a buffer after its translation. -/
theorem TranslationActs.not_heldNow {i : U32} {result : Option (Except Int Unit)}
    (h : TranslationActs [i] acts result) (hwhole : MapsWhole acts) : ¬ HeldNow acts := by
  intro hheld
  obtain ⟨_, hsettled⟩ := h.whole hwhole
  obtain ⟨attach, sgt, hmapped, hsgt⟩ := hwhole
  obtain ⟨dmaBuf, hattached⟩ := h.attached_of_mapped hmapped
  obtain ⟨held, hsettle, hreference, _⟩ := hheld dmaBuf attach sgt hattached hmapped hsgt
  obtain rfl : held = 0 := Option.some.inj (hsettle.symm.trans hsettled)
  simp at hreference

/-! ## The secure call -/

variable {result : Option Int} {checked : Int}

/-- A request with a buffer mapped as one segment goes on to the secure call, right after the
translation, or to the end of the argument array. -/
theorem RequestActs.call_of_whole (h : RequestActs build r acts result)
    (hwhole : MapsWhole acts) : (build = .v5_14_0 ∧ MAX_QCOM_SCM_ARGS < r.noOfArgs) ∨
      ∃ before ret after translated, acts = before ++ .secured ret :: after ∧
        TranslationActs [2] before translated ∧ MapsWhole before := by
  have hcheck {before : List RequestAct} {passed : Option (Except Int Int)}
      (h : CheckActs r before passed) (hwhole : MapsWhole before) :
      passed = some (.ok 0) ∧ NeedsTranslation r ∧
        ∃ translated, TranslationActs [2] before translated := by
    cases h with
    | rejected | plain =>
        obtain ⟨_, _, hmem, _⟩ := hwhole
        cases hmem
    | translated _ hneeds htranslate =>
        obtain ⟨rfl, _⟩ := htranslate.whole hwhole
        exact ⟨rfl, hneeds, _, htranslate⟩
  cases h with
  | crashed h => exact nomatch (hcheck h hwhole).1
  | refused h => exact nomatch (hcheck h hwhole).1
  | @served before after _ _ h hserve =>
      have hbefore : MapsWhole before := by
        obtain ⟨attach, sgt, hmem, hsgt⟩ := hwhole
        -- What follows the checks maps nothing.
        have hmapped := (List.mem_append.mp hmem).resolve_right fun hlate =>
          nomatch hserve.late _ hlate
        exact ⟨attach, sgt, hmapped, hsgt⟩
      obtain ⟨_, hneeds, translated, htranslate⟩ := hcheck h hbefore
      have hw := wrapperOf_translated hneeds
      cases hserve with
      | overrun hargs => exact .inl ⟨rfl, hargs⟩
      | generic => exact .inr ⟨before, _, _, translated, rfl, htranslate, hbefore⟩
      | refused hdispatch =>
          cases hdispatch with
          | unremapped himage =>
              rw [hw] at himage
              cases himage
      | dispatched hdispatch =>
          cases hdispatch with
          | undispatched hnone =>
              rw [hw] at hnone
              cases hnone
          | image _ himage =>
              rw [hw] at himage
              cases himage
          | wrapper => exact .inr ⟨before, _, _, translated, rfl, htranslate, hbefore⟩

/-- With too many arguments the generic call is not made. -/
theorem RequestActs.not_secured (h : RequestActs .v5_14_0 r acts result)
    (hargs : MAX_QCOM_SCM_ARGS < r.noOfArgs) (ret : U32) : .secured ret ∉ acts := by
  cases h with
  | crashed h => exact fun hmem => nomatch h.early _ hmem
  | refused h => exact fun hmem => nomatch h.early _ hmem
  | served h hserve =>
      cases hserve with
      | overrun =>
          rw [List.append_nil]
          exact fun hmem => nomatch h.early _ hmem
      | generic hle => exact absurd hargs (Nat.not_lt.mpr hle)

/-- The buffers of translated arguments are held at every secure call exactly when no buffer is
translated or the call is not reached. -/
theorem scmIoctl_held_iff {widths : Widths} {stack : Stack} {rest : List (Event ScmCall)}
    (hcalls : driverCalls history = ⟨.copyFromUser, some r⟩ :: rest)
    (h : Runs (scmIoctl build widths stack SCM_HAND_SHAKE_IOCTL) (driverCalls history) result) :
    HeldAtCalls history ↔ ¬ MapsWhole (requestObserver.actions (driverCalls history)) ∨
      (build = .v5_14_0 ∧ MAX_QCOM_SCM_ARGS < r.noOfArgs) := by
  rw [hcalls] at h
  have hacts := scmIoctl_requestActs h
  have hview : requestObserver.actions (driverCalls history) = requestObserver.actions rest := by
    rw [hcalls]
    rfl
  rw [heldAtCalls_iff, hview]
  generalize requestObserver.actions rest = acts at hacts
  constructor
  · intro hheld
    by_contra hnot
    obtain ⟨hwhole, hcall⟩ := not_or.mp hnot
    obtain hargs | ⟨before, ret, after, translated, hsplit, htranslate, hbefore⟩ :=
      hacts.call_of_whole (not_not.mp hwhole)
    · exact hcall hargs
    · exact htranslate.not_heldNow hbefore (hheld before ret after hsplit)
  · rintro (hnone | ⟨rfl, hargs⟩) before ret after rfl
    · intro dmaBuf attach sgt _ hmapped hsgt
      exact absurd ⟨attach, sgt, List.mem_append_left _ hmapped, hsgt⟩ hnone
    · exact absurd (by simp) (hacts.not_secured hargs ret)

/-- A request for `QCOM_SCM_SHE_ID` with four arguments. -/
def sheRequest : ScmHandShake := plainRequest QCOM_SCM_SVC_SHE QCOM_SCM_SHE_ID 4

/-- The secure call of the request after its translation. -/
def sheCall : Event ScmCall := ⟨.wrapper .sheOp [0, 0, 4096, 0], (1, none)⟩

/-- The descriptor is closed between the translation and the secure call. -/
def closingHistory : List Happening :=
  .call ⟨.copyFromUser, some sheRequest⟩ ::
    ((translation sheRequest.argsBuffer).map .call ++ [.closed 0, .call sheCall])

theorem closingHistory_runs : Runs (scmIoctl .other (fun _ _ => 64) zeroStack SCM_HAND_SHAKE_IOCTL)
    (driverCalls closingHistory) (some 1) := by
  rw [scmIoctl_eq]
  show Runs _ (⟨.copyFromUser, some sheRequest⟩ :: (translation sheRequest.argsBuffer ++ [sheCall]))
    _
  have hcheck := runs_checkRequest zeroStack (r := sheRequest) (by decide) (by decide)
  exact .call rfl (hcheck.bind (.call rfl (.ret _ _)))

theorem scmIoctl_held_closing : ∃ rest,
    driverCalls closingHistory = ⟨.copyFromUser, some sheRequest⟩ :: rest ∧
      (HeldAtCalls closingHistory ↔
        ¬ MapsWhole (requestObserver.actions (driverCalls closingHistory)) ∨
          (Build.other = .v5_14_0 ∧ MAX_QCOM_SCM_ARGS < sheRequest.noOfArgs)) :=
  ⟨_, rfl, scmIoctl_held_iff rfl closingHistory_runs⟩

/-- The buffer of a translated argument is not held at the secure call. -/
theorem scmIoctl_not_held :
    ¬ ∀ (build : Build) (widths : Widths) (stack : Stack) (history : List Happening)
      (result : Option Int),
      Runs (scmIoctl build widths stack SCM_HAND_SHAKE_IOCTL) (driverCalls history) result →
      HeldAtCalls history := by
  intro h
  have hheld := h _ _ _ _ _ closingHistory_runs
  have hnow : HeldNow [.found 0, .attached 0 0, .mapped 0 ⟨1, 4096⟩, .unmapped 0, .detached 0,
      .put 0] := hheld (closingHistory.take 8) sheCall [] 1 rfl rfl
  obtain ⟨held, hsettle, hreference, _⟩ :=
    hnow 0 0 ⟨1, 4096⟩ (by simp) (by simp) (by decide)
  obtain rfl : held = 0 := Option.some.inj hsettle.symm
  simp at hreference

end SafeLinux.ScmIntf
