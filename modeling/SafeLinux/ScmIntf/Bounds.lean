import SafeLinux.Effects.Erase
import SafeLinux.ScmIntf.Requests

/-!
# The argument count and the array indices

`scm_ioctl` with every index into its arrays of ten elements as a call of its own; without these
calls it is the ioctl (`scmIoctlIndexed_erase`). A count above 10 is recorded in `ret` only, which
the code between the check and the secure call overwrites or does not look at.
`scmIoctlIndexed_checked_iff` says for which requests the check has the effect it is there for.
-/

namespace SafeLinux.ScmIntf

open Effects
open Effects.Program (perform)

/-! ## The ioctl with its indices -/

/-- The arrays of ten elements. -/
inductive Indexed where
  | argsBuffer
  | dmaFdArgs
  | descArgs
  deriving DecidableEq

/-- An element of an array is read or written. -/
inductive Access : Type → Type where
  | index (array : Indexed) (i : Nat) : Access Unit

/-- Programs of the driver with their indices. -/
abbrev IndexedProg (α : Type) := Program (Either ScmCall Access) α

/-- An index into an array. -/
def index (array : Indexed) (i : Nat) : IndexedProg Unit := perform (.inr (.index array i))

/-- A part of the driver without indices. -/
abbrev plain {α : Type} (p : ScmProg α) : IndexedProg α := p.lift .inl

/-- The first indices of some arrays, one after the other. -/
def indexUpTo (arrays : List Indexed) : Nat → IndexedProg Unit
  | 0 => pure ()
  | n + 1 => do
      indexUpTo arrays n
      arrays.forM fun array => index array n

/-- `get_dmafd_args` -/
def getDmafdArgsIndexed (svcId cmdId : U32) (dmaFds : Vector U32 10) :
    IndexedProg (Int × Vector U32 10) := do
  if let some entry := dmaFdTbl.find? fun entry => entry.svcId = svcId ∧ entry.cmdId = cmdId then
    indexUpTo [.dmaFdArgs] entry.dmaFds.length
  return getDmafdArgs svcId cmdId dmaFds

/-- The loop of `translate_fd_to_pa`, with the index of the next position. -/
def translateLoopIndexed : List U32 → Nat → Option Nat → Vector U64 10 →
    IndexedProg (Except Int (Option Nat × Vector U64 10))
  | [], _, last, scmArgs => return .ok (last, scmArgs)
  | position :: rest, i, _, scmArgs => do
      -- `scm_args[dmabuf_fd[i]]` is read, and written at the end of the turn.
      index .dmaFdArgs i
      index .argsBuffer position.toNat
      let .ptr dmaBuf ←
          plain (perform (.dmaBufGet ((scmArgs.toList.getD position.toNat 0).setWidth 32)))
        | return .error (-EFAULT)
      let .ok pa ← plain (getPaFromDmabufFd dmaBuf) | return .error (-EINVAL)
      index .dmaFdArgs i
      index .argsBuffer position.toNat
      translateLoopIndexed rest (i + 1) (some dmaBuf) (scmArgs.setIfInBounds position.toNat pa)

/-- `translate_fd_to_pa` -/
def translateFdToPaIndexed (dmabufFd : Vector U32 10) (noDmaFds : Nat) (scmArgs : Vector U64 10) :
    IndexedProg (Except Int (Vector U64 10)) := do
  match ← translateLoopIndexed (dmabufFd.toList.take noDmaFds) 0 none scmArgs with
  | .error ret => return .error ret
  | .ok (last, scmArgs) =>
      if let some dmaBuf := last then
        plain (perform (.dmaBufPut dmaBuf))
      return .ok scmArgs

/-- `checkRequest` -/
def checkRequestIndexed (stack : Stack) (scmData : ScmHandShake) :
    IndexedProg (Except Int (ScmHandShake × Int)) := do
  if ¬ validateSvcCmd scmData.svc scmData.cmd then
    return .error (-EINVAL)
  let ret : Int := if scmData.noOfArgs > MAX_QCOM_SCM_ARGS then -EINVAL else 0
  let (noDmaFds, dmaFdArgs) ← getDmafdArgsIndexed scmData.svc scmData.cmd stack.dmaFdArgs
  if noDmaFds > 0 then
    match ← translateFdToPaIndexed dmaFdArgs noDmaFds.toNat scmData.argsBuffer with
    | .error ret => return .error ret
    | .ok argsBuffer => return .ok ({ scmData with argsBuffer }, 0)
  return .ok (scmData, ret)

/-- `scm_ioctl` after the translation of the file descriptors. -/
def serveRequestIndexed (build : Build) (widths : Widths) (stack : Stack) (d : ScmHandShake)
    (ret : Int) : IndexedProg Int := do
  match build with
  | .other =>
      -- A case of the `switch` reads as many arguments as its wrapper takes.
      indexUpTo [.argsBuffer] (((wrapperOf d.svc d.cmd).map Wrapper.arity).getD 0)
  | .v5_14_0 =>
      -- The loop that fills the descriptor, and the special case for `PIL_INIT_IMAGE`.
      indexUpTo [.argsBuffer, .descArgs] d.noOfArgs
      if d.cmd = QCOM_SCM_PIL_PAS_INIT_IMAGE then
        index .descArgs 2
  plain (serveRequest build widths stack d ret)

/-- `scm_ioctl` once a request is copied in. -/
def answerRequestIndexed (build : Build) (widths : Widths) (stack : Stack) (r : ScmHandShake) :
    IndexedProg Int := do
  match ← checkRequestIndexed stack r with
  | .error ret => return ret
  | .ok (d, ret) => serveRequestIndexed build widths stack d ret

/-- `scm_ioctl` -/
def scmIoctlIndexed (build : Build) (widths : Widths) (stack : Stack) (cmd : U32) :
    IndexedProg Int := do
  if cmd ≠ SCM_HAND_SHAKE_IOCTL then
    return -EFAULT
  let some r ← plain (perform .copyFromUser) | return -EFAULT
  answerRequestIndexed build widths stack r

/-! ## Leaving out the indices -/

/-- An access has nothing to answer. -/
def Access.reply : {β : Type} → Access β → β
  | _, .index _ _ => ()

theorem index_erase (array : Indexed) (i : Nat) :
    (index array i).erase Access.reply = (pure () : ScmProg Unit) := rfl

theorem indexUpTo_erase (arrays : List Indexed) (n : Nat) :
    (indexUpTo arrays n).erase Access.reply = (pure () : ScmProg Unit) := by
  have harrays (n : Nat) :
      (arrays.forM fun array => index array n).erase Access.reply = (pure () : ScmProg Unit) := by
    induction arrays with
    | nil => rfl
    | cons array arrays ih =>
        show Program.erase Access.reply
          (index array n >>= fun _ => arrays.forM fun array => index array n) = _
        rw [erase_bind, index_erase]
        exact ih
  induction n with
  | zero => rfl
  | succ n ih =>
      rw [indexUpTo, erase_bind, ih]
      exact harrays n

theorem getDmafdArgsIndexed_erase (svcId cmdId : U32) (dmaFds : Vector U32 10) :
    (getDmafdArgsIndexed svcId cmdId dmaFds).erase Access.reply =
      (pure (getDmafdArgs svcId cmdId dmaFds) : ScmProg _) := by
  unfold getDmafdArgsIndexed
  cases dmaFdTbl.find? fun entry => entry.svcId = svcId ∧ entry.cmdId = cmdId with
  | none => rfl
  | some entry =>
      rw [erase_bind, indexUpTo_erase]
      rfl

theorem translateLoopIndexed_erase (positions : List U32) (i : Nat) (last : Option Nat)
    (scmArgs : Vector U64 10) :
    (translateLoopIndexed positions i last scmArgs).erase Access.reply =
      translateLoop positions last scmArgs := by
  induction positions generalizing i last scmArgs with
  | nil => rfl
  | cons position rest ih =>
      unfold translateLoopIndexed translateLoop
      rw [erase_bind, index_erase]
      show Program.erase Access.reply (index .argsBuffer position.toNat >>= _) = _
      rw [erase_bind, index_erase]
      show Program.erase Access.reply (plain _ >>= _) = _
      rw [erase_bind, erase_lift]
      refine congrArg (_ >>= ·) (funext fun got => ?_)
      cases got with
      | null | err _ => rfl
      | ptr dmaBuf =>
          show Program.erase Access.reply (plain _ >>= _) = _
          rw [erase_bind, erase_lift]
          refine congrArg (_ >>= ·) (funext fun pa => ?_)
          cases pa with
          | error ret => rfl
          | ok pa => exact ih _ _ _

theorem translateFdToPaIndexed_erase (dmabufFd : Vector U32 10) (noDmaFds : Nat)
    (scmArgs : Vector U64 10) :
    (translateFdToPaIndexed dmabufFd noDmaFds scmArgs).erase Access.reply =
      translateFdToPa dmabufFd noDmaFds scmArgs := by
  unfold translateFdToPaIndexed translateFdToPa
  rw [erase_bind, translateLoopIndexed_erase]
  refine congrArg (_ >>= ·) (funext fun translated => ?_)
  cases translated with
  | error ret => rfl
  | ok pair =>
      obtain ⟨last, scmArgs'⟩ := pair
      cases last <;> rfl

theorem checkRequestIndexed_erase (stack : Stack) (r : ScmHandShake) :
    (checkRequestIndexed stack r).erase Access.reply = checkRequest stack r := by
  unfold checkRequestIndexed checkRequest
  by_cases hvalid : ¬ validateSvcCmd r.svc r.cmd
  · rw [if_pos hvalid, if_pos hvalid]
    rfl
  · rw [if_neg hvalid, if_neg hvalid, erase_bind, getDmafdArgsIndexed_erase]
    generalize getDmafdArgs r.svc r.cmd stack.dmaFdArgs = found
    obtain ⟨noDmaFds, dmaFdArgs⟩ := found
    show Program.erase Access.reply (if _ then _ else _) = if _ then _ else _
    split
    · rw [erase_bind, translateFdToPaIndexed_erase]
      refine congrArg (_ >>= ·) (funext fun translated => ?_)
      cases translated <;> rfl
    · rfl

theorem serveRequestIndexed_erase (build : Build) (widths : Widths) (stack : Stack)
    (d : ScmHandShake) (ret : Int) :
    (serveRequestIndexed build widths stack d ret).erase Access.reply =
      serveRequest build widths stack d ret := by
  unfold serveRequestIndexed
  cases build with
  | other =>
      rw [erase_bind, indexUpTo_erase]
      exact erase_lift
  | v5_14_0 =>
      rw [erase_bind, indexUpTo_erase]
      show Program.erase Access.reply (if _ then _ else _) = _
      split
      · exact erase_lift
      · exact erase_lift

/-- Without its indices this is the ioctl. -/
theorem scmIoctlIndexed_erase (build : Build) (widths : Widths) (stack : Stack) (cmd : U32) :
    (scmIoctlIndexed build widths stack cmd).erase Access.reply =
      scmIoctl build widths stack cmd := by
  by_cases hcmd : cmd = SCM_HAND_SHAKE_IOCTL
  · subst hcmd
    unfold scmIoctlIndexed
    rw [if_neg (by simp), scmIoctl_eq, erase_bind, erase_lift]
    refine congrArg (Program.call ScmCall.copyFromUser) (funext fun copied => ?_)
    cases copied with
    | none => rfl
    | some r =>
        show Program.erase Access.reply (checkRequestIndexed stack r >>= _) = _
        unfold answerRequest
        rw [erase_bind, checkRequestIndexed_erase]
        refine congrArg (_ >>= ·) (funext fun checked => ?_)
        cases checked with
        | error ret => rfl
        | ok pair => exact serveRequestIndexed_erase _ _ _ _ _
  · unfold scmIoctlIndexed scmIoctl fetchRequest
    rw [if_pos hcmd, if_pos hcmd]
    rfl

/-! ## Indices below 10 -/

/-- The observer of the indices; every answer is possible. -/
def accessObserver : Observer (Either ScmCall Access) Nat where
  possible := fun _ _ => True
  view := fun request _ =>
    match request with
    | .inl _ => none
    | .inr (.index _ i) => some i

theorem accessObserver_admits : accessObserver.Admits Semantics.free := fun _ _ _ _ _ => trivial

/-- All indices of a program are below 10. -/
abbrev Bounded {α : Type} (p : IndexedProg α) : Prop :=
  p.Shows accessObserver fun indices _ => ∀ i ∈ indices, i < 10

theorem Bounded.pure {α : Type} (value : α) : Bounded (Pure.pure value : IndexedProg α) :=
  shows_pure (R := fun indices _ => ∀ i ∈ indices, i < 10) nofun

theorem Bounded.bind {α β : Type} {p : IndexedProg α} {rest : α → IndexedProg β} (h : Bounded p)
    (hrest : ∀ value, Bounded (rest value)) : Bounded (p >>= rest) := by
  refine shows_bind h ?_ fun _ hindices => hindices
  intro indices value hindices
  refine (hrest value).mono fun indices' _ hindices' => ?_
  exact List.forall_mem_append.mpr ⟨hindices, hindices'⟩

theorem bounded_index {array : Indexed} {i : Nat} (hi : i < 10) : Bounded (index array i) :=
  shows_perform fun _ _ => List.forall_mem_cons.mpr ⟨hi, nofun⟩

theorem bounded_plain {α : Type} (p : ScmProg α) : Bounded (plain p) := by
  induction p with
  | ret value => exact .pure value
  | call request next ih => exact ⟨fun _ => nofun, fun answer _ => ih answer⟩

theorem bounded_indexUpTo {arrays : List Indexed} {n : Nat} (hn : n ≤ 10) :
    Bounded (indexUpTo arrays n) := by
  have harrays {i : Nat} (hi : i < 10) :
      Bounded (arrays.forM fun array => index array i) := by
    induction arrays with
    | nil => exact .pure ()
    | cons array arrays ih => exact (bounded_index hi).bind fun _ => ih
  induction n with
  | zero => exact .pure ()
  | succ n ih => exact (ih (by omega)).bind fun _ => harrays (by omega)

theorem bounded_translateLoopIndexed {positions : List U32} {i : Nat} (last : Option Nat)
    (scmArgs : Vector U64 10) (hpositions : ∀ position ∈ positions, position.toNat < 10)
    (hi : i + positions.length ≤ 10) :
    Bounded (translateLoopIndexed positions i last scmArgs) := by
  induction positions generalizing i last scmArgs with
  | nil => exact .pure _
  | cons position rest ih =>
      obtain ⟨hposition, hrest⟩ := List.forall_mem_cons.mp hpositions
      rw [List.length_cons] at hi
      have hindex : i < 10 := by omega
      refine (bounded_index hindex).bind fun _ => ?_
      refine (bounded_index hposition).bind fun _ => ?_
      refine (bounded_plain _).bind fun got => ?_
      cases got with
      | null | err _ => exact .pure _
      | ptr dmaBuf =>
          refine (bounded_plain _).bind fun pa => ?_
          cases pa with
          | error ret => exact .pure _
          | ok pa =>
              refine (bounded_index hindex).bind fun _ => ?_
              refine (bounded_index hposition).bind fun _ => ?_
              exact ih _ _ hrest (by omega)

theorem bounded_translateFdToPaIndexed {dmabufFd : Vector U32 10} {noDmaFds : Nat}
    (scmArgs : Vector U64 10)
    (hpositions : ∀ position ∈ dmabufFd.toList.take noDmaFds, position.toNat < 10) :
    Bounded (translateFdToPaIndexed dmabufFd noDmaFds scmArgs) := by
  have hlength : 0 + (dmabufFd.toList.take noDmaFds).length ≤ 10 := by
    rw [List.length_take, Vector.length_toList]
    omega
  refine (bounded_translateLoopIndexed none scmArgs hpositions hlength).bind fun translated => ?_
  cases translated with
  | error ret => exact .pure _
  | ok pair =>
      obtain ⟨last, scmArgs'⟩ := pair
      cases last with
      | none => exact .pure _
      | some dmaBuf => exact (bounded_plain _).bind fun _ => .pure _

/-- The table is copied within the array, and its positions are returned. -/
theorem getDmafdArgsIndexed_shows (svcId cmdId : U32) (dmaFds : Vector U32 10) :
    (getDmafdArgsIndexed svcId cmdId dmaFds).Shows accessObserver fun indices found =>
      (∀ i ∈ indices, i < 10) ∧
        ∀ value, found = some value → value = getDmafdArgs svcId cmdId dmaFds := by
  have hpure : (Pure.pure (getDmafdArgs svcId cmdId dmaFds) : IndexedProg _).Shows accessObserver
      fun indices found => (∀ i ∈ indices, i < 10) ∧
        ∀ value, found = some value → value = getDmafdArgs svcId cmdId dmaFds :=
    shows_pure ⟨nofun, fun value hvalue => (Option.some.inj hvalue).symm⟩
  unfold getDmafdArgsIndexed
  cases hentry : dmaFdTbl.find? fun entry => entry.svcId = svcId ∧ entry.cmdId = cmdId with
  | none => exact hpure
  | some entry =>
      have hlength : ∀ entry ∈ dmaFdTbl, entry.dmaFds.length ≤ 10 := by decide
      have hindices : Bounded (indexUpTo [.dmaFdArgs] entry.dmaFds.length) :=
        bounded_indexUpTo (hlength entry (List.mem_of_find?_eq_some hentry))
      refine shows_bind hindices ?_ fun _ h => ⟨h, nofun⟩
      intro indices _ h
      refine hpure.mono fun indices' found hfound => ?_
      exact ⟨List.forall_mem_append.mpr ⟨h, hfound.1⟩, hfound.2⟩

theorem checkRequestIndexed_shows (stack : Stack) (r : ScmHandShake) :
    (checkRequestIndexed stack r).Shows accessObserver fun indices result =>
      (∀ i ∈ indices, i < 10) ∧ ∀ d ret, result = some (.ok (d, ret)) → Translates r d := by
  unfold checkRequestIndexed
  by_cases hvalid : ¬ validateSvcCmd r.svc r.cmd
  · rw [if_pos hvalid]
    exact shows_pure ⟨nofun, nofun⟩
  · rw [if_neg hvalid]
    refine shows_bind (getDmafdArgsIndexed_shows _ _ _) ?_ fun _ h => ⟨h.1, nofun⟩
    intro indices found h
    obtain rfl := h.2 found rfl
    rw [getDmafdArgs_eq]
    by_cases hneeds : NeedsTranslation r
    · rw [if_pos hneeds]
      have htranslate : Bounded
          (translateFdToPaIndexed (copyOver stack.dmaFdArgs [2]) 1 r.argsBuffer) := by
        refine bounded_translateFdToPaIndexed _ ?_
        rw [take_copyOver]
        exact List.forall_mem_cons.mpr ⟨by decide, nofun⟩
      refine shows_bind htranslate ?_ ?_
      · intro indices' translated h'
        have hindices := List.forall_mem_append.mpr ⟨h.1, h'⟩
        cases translated with
        | error ret =>
            refine shows_pure ⟨?_, nofun⟩
            rwa [List.append_nil]
        | ok args =>
            refine shows_pure ⟨?_, fun d ret hresult => ?_⟩
            · rwa [List.append_nil]
            · cases hresult
              exact ⟨args, rfl⟩
      · intro indices' h'
        exact ⟨List.forall_mem_append.mpr ⟨h.1, h'⟩, nofun⟩
    · rw [if_neg hneeds]
      refine shows_pure ⟨?_, fun d ret hresult => ?_⟩
      · rw [List.append_nil]
        exact h.1
      · cases hresult
        exact ⟨r.argsBuffer, rfl⟩

/-- The indices are below 10, or the generic call is overrun and never returns. -/
def BoundedOrOverrun (build : Build) (r : ScmHandShake) (indices : List Nat)
    (result : Option Int) : Prop :=
  (∀ i ∈ indices, i < 10) ∨
    (build = .v5_14_0 ∧ MAX_QCOM_SCM_ARGS < r.noOfArgs ∧ result = none)

theorem serveRequestIndexed_shows (build : Build) (widths : Widths) (stack : Stack)
    (d : ScmHandShake) (ret : Int) :
    (serveRequestIndexed build widths stack d ret).Shows accessObserver
      (BoundedOrOverrun build d) := by
  unfold serveRequestIndexed
  cases build with
  | other =>
      have harity : ((wrapperOf d.svc d.cmd).map Wrapper.arity).getD 0 ≤ 10 := by
        cases wrapperOf d.svc d.cmd with
        | none => decide
        | some w => cases w <;> decide
      refine Program.Shows.mono ((bounded_indexUpTo harity).bind fun _ => bounded_plain _) ?_
      exact fun indices result h => .inl h
  | v5_14_0 =>
      by_cases hargs : d.noOfArgs ≤ MAX_QCOM_SCM_ARGS
      · refine Program.Shows.mono ((bounded_indexUpTo hargs).bind fun _ => ?_)
          fun indices result h => .inl h
        split
        · exact (bounded_index (by omega)).bind fun _ => bounded_plain _
        · exact bounded_plain _
      · have hover : (plain (serveRequest .v5_14_0 widths stack d ret)).Shows accessObserver
            fun _ result => result = none := by
          unfold serveRequest genericCall
          rw [if_pos (Nat.not_le.mp hargs)]
          exact ⟨fun _ => rfl, fun empty => empty.elim⟩
        have hnone : Program.Shows accessObserver (do
            indexUpTo [.argsBuffer, .descArgs] d.noOfArgs
            if d.cmd = QCOM_SCM_PIL_PAS_INIT_IMAGE then
              index .descArgs 2
            plain (serveRequest .v5_14_0 widths stack d ret)) fun _ result => result = none := by
          refine shows_bind (shows_trivial _) ?_ fun _ _ => rfl
          intro _ _ _
          split
          · exact shows_bind (shows_trivial _) (fun _ _ _ => hover) fun _ _ => rfl
          · exact hover
        exact hnone.mono fun indices result h => .inr ⟨rfl, Nat.not_le.mp hargs, h⟩

theorem answerRequestIndexed_shows (build : Build) (widths : Widths) (stack : Stack)
    (r : ScmHandShake) : (answerRequestIndexed build widths stack r).Shows accessObserver
      (BoundedOrOverrun build r) := by
  refine shows_bind (checkRequestIndexed_shows stack r) ?_ fun _ h => .inl h.1
  intro indices checked h
  cases checked with
  | error ret =>
      refine shows_pure (.inl ?_)
      rw [List.append_nil]
      exact h.1
  | ok pair =>
      obtain ⟨d, ret⟩ := pair
      obtain ⟨args, rfl⟩ := h.2 d ret rfl
      refine (serveRequestIndexed_shows build widths stack _ ret).mono fun indices' result h' => ?_
      obtain hbounded | hover := h'
      · exact .inl (List.forall_mem_append.mpr ⟨h.1, hbounded⟩)
      · exact .inr hover

/-! ## The check of the count -/

variable {build : Build} {widths : Widths} {stack : Stack} {r : ScmHandShake}
  {acts acts' : List RequestAct} {result : Option Int}

/-- No buffer is found for a descriptor, or it is not mapped as one segment. -/
def TranslationFails (acts : List RequestAct) : Prop :=
  .notFound ∈ acts ∨ ∃ attach sgt, .mapped attach sgt ∈ acts ∧ ¬ sgt.Whole

theorem translationFails_append :
    TranslationFails (acts ++ acts') ↔ TranslationFails acts ∨ TranslationFails acts' := by
  simp only [TranslationFails, List.mem_append]
  constructor
  · rintro ((hmem | hmem) | ⟨attach, sgt, hmem | hmem, hsgt⟩)
    · exact .inl (.inl hmem)
    · exact .inr (.inl hmem)
    · exact .inl (.inr ⟨attach, sgt, hmem, hsgt⟩)
    · exact .inr (.inr ⟨attach, sgt, hmem, hsgt⟩)
  · rintro ((hmem | ⟨attach, sgt, hmem, hsgt⟩) | hmem | ⟨attach, sgt, hmem, hsgt⟩)
    · exact .inl (.inl hmem)
    · exact .inr ⟨attach, sgt, .inl hmem, hsgt⟩
    · exact .inl (.inr hmem)
    · exact .inr ⟨attach, sgt, .inr hmem, hsgt⟩

theorem translationFails_found {dmaBuf : Nat} :
    TranslationFails (.found dmaBuf :: acts) ↔ TranslationFails acts := by
  simp [TranslationFails]

/-- What belongs to the secure call is no failure of the translation. -/
theorem not_translationFails_of_late (h : ∀ act ∈ acts, act.isLate = true) :
    ¬ TranslationFails acts := by
  rintro (hmem | ⟨attach, sgt, hmem, _⟩)
  · exact nomatch h _ hmem
  · exact nomatch h _ hmem

theorem paOf_error_iff {sgt : SgTable} : (∃ ret, paOf sgt = .error ret) ↔ ¬ sgt.Whole := by
  rw [← paOf_ok_iff]
  cases paOf sgt <;> simp

theorem PaActs.fails_iff {dmaBuf : Nat} {pa : Option (Except Int U64)}
    (h : PaActs dmaBuf acts pa) : TranslationFails acts ↔ ∃ ret, pa = some (.error ret) := by
  cases h with
  | unattached | unmappable => simp [TranslationFails]
  | mapped => simpa [TranslationFails] using paOf_error_iff.symm

/-- The translation of one position returns an error exactly when it fails so; it never returns
when an error pointer is used. -/
theorem TranslationActs.fails_iff {i : U32} {translated : Option (Except Int Unit)}
    (h : TranslationActs [i] acts translated) :
    TranslationFails acts ↔ ∃ ret, translated = some (.error ret) := by
  cases h with
  | crash hloop =>
      cases hloop with
      | crash hpa =>
          rw [translationFails_found, hpa.fails_iff]
          simp
      | next _ hrest => cases hrest
  | error hloop =>
      refine iff_of_true ?_ ⟨_, rfl⟩
      cases hloop with
      | notFound => exact .inl (List.mem_singleton.mpr rfl)
      | broken hpa => exact translationFails_found.mpr (hpa.fails_iff.mpr ⟨_, rfl⟩)
      | next _ hrest => cases hrest
  | ok hloop =>
      cases hloop with
      | next hpa hrest =>
          cases hrest
          rw [List.append_nil, translationFails_append, translationFails_found, hpa.fails_iff]
          simp [TranslationFails]

/-- The checks return an error exactly for a request that is not allowed or whose translation
fails. -/
theorem CheckActs.fails_iff {passed : Option (Except Int Int)} (h : CheckActs r acts passed) :
    (validateSvcCmd r.svc r.cmd = false ∨ TranslationFails acts) ↔
      ∃ ret, passed = some (.error ret) := by
  cases h with
  | rejected hinvalid => exact iff_of_true (.inl hinvalid) ⟨_, rfl⟩
  | plain hvalid => simp [hvalid, TranslationFails]
  | @translated _ translated hvalid _ htranslate =>
      rw [hvalid, htranslate.fails_iff]
      cases translated with
      | none => simp
      | some value => cases value <;> simp [Except.map]

/-- A negative value is returned and no secure call is made. -/
def Refuses (acts : List RequestAct) (result : Option Int) : Prop :=
  (∃ value, result = some value ∧ value < 0) ∧ ∀ ret, .secured ret ∉ acts

/-- When a request with too many arguments is refused: the checks before or after the count refuse
it, or the dispatch makes no secure call for it. -/
def Refusable (build : Build) (r : ScmHandShake) (acts : List RequestAct) : Prop :=
  validateSvcCmd r.svc r.cmd = false ∨ TranslationFails acts ∨
    (build = .other ∧ ((wrapperOf r.svc r.cmd = none ∧ r.ret = 0) ∨
      (wrapperOf r.svc r.cmd = some .pasInitImage ∧ .remapped false ∈ acts)))

/-- A request that passed the checks is refused only by the dispatch. -/
theorem ServeActs.refuses_iff {checked : Int} (h : ServeActs r checked build acts result)
    (hbefore : ∀ act ∈ acts', act.isLate = false)
    (hchecked : ¬ NeedsTranslation r → checked = -EINVAL) :
    Refuses (acts' ++ acts) result ↔ build = .other ∧
      ((wrapperOf r.svc r.cmd = none ∧ r.ret = 0) ∨
        (wrapperOf r.svc r.cmd = some .pasInitImage ∧ .remapped false ∈ acts' ++ acts)) := by
  have hsecured (ret : U32) : .secured ret ∉ acts' := fun hmem => nomatch hbefore _ hmem
  have hremapped : .remapped false ∉ acts' := fun hmem => nomatch hbefore _ hmem
  cases h with
  | overrun => exact iff_of_false (fun h => nomatch h.1) nofun
  | @generic ret => exact iff_of_false (fun h => h.2 ret (by simp)) nofun
  | refused hdispatch =>
      cases hdispatch with
      | unremapped hw =>
          refine iff_of_true ⟨⟨_, rfl, by decide⟩, fun ret => ?_⟩ ⟨rfl, .inr ⟨hw, by simp⟩⟩
          simp [hsecured ret]
  | @dispatched ret _ tail _ hdispatch hreply =>
      cases hdispatch with
      | undispatched hw =>
          have hplain : ¬ NeedsTranslation r := by
            intro hneeds
            rw [wrapperOf_translated hneeds] at hw
            cases hw
          have hnone (ret : U32) : .secured ret ∉ acts' ++ ([] ++ tail) := by
            simp [hsecured ret, hreply.not_secured ret]
          simp only [hw, true_and, reduceCtorEq, false_and, or_false]
          cases hreply with
          | failed hret =>
              refine iff_of_false (fun h => ?_) hret
              obtain ⟨_, hvalue, hneg⟩ := h.1
              cases hvalue
              exact absurd hneg (Int.not_lt.mpr (Int.natCast_nonneg _))
          | copied ok hret =>
              refine iff_of_true ⟨⟨_, rfl, ?_⟩, hnone⟩ hret
              rw [hchecked hplain]
              cases ok <;> decide
      | image _ hw =>
          refine iff_of_false (fun h => h.2 ret (by simp)) fun h => ?_
          have hnot : .remapped false ∉ tail := by cases hreply <;> simp
          simp [hw, hremapped, hnot] at h
      | wrapper w _ hw himage =>
          refine iff_of_false (fun h => h.2 ret (by simp)) fun h => ?_
          simp [hw, himage] at h

/-- A request with too many arguments is refused exactly under its condition. -/
theorem RequestActs.refuses_iff (h : RequestActs build r acts result)
    (hargs : MAX_QCOM_SCM_ARGS < r.noOfArgs) :
    Refuses acts result ↔ Refusable build r acts := by
  unfold Refusable
  rw [← or_assoc]
  cases h with
  | crashed hcheck =>
      have hpassed : ¬ (validateSvcCmd r.svc r.cmd = false ∨ TranslationFails acts) :=
        fun h => nomatch hcheck.fails_iff.mp h
      have hvalid : validateSvcCmd r.svc r.cmd = true := by simpa using (not_or.mp hpassed).1
      refine iff_of_false (fun h => nomatch h.1) (not_or.mpr ⟨hpassed, ?_⟩)
      rw [wrapperOf_translated (hcheck.needsTranslation hvalid nofun)]
      simp
  | refused hcheck =>
      rw [hcheck.fails_iff]
      refine iff_of_true ⟨⟨_, rfl, hcheck.error_neg⟩, fun ret hmem => ?_⟩ (.inl ⟨_, rfl⟩)
      exact nomatch hcheck.early _ hmem
  | @served before after _ _ hcheck hserve =>
      have hpassed : ¬ (validateSvcCmd r.svc r.cmd = false ∨ TranslationFails (before ++ after)) := by
        rw [translationFails_append, or_iff_left (not_translationFails_of_late hserve.late),
          hcheck.fails_iff]
        exact nofun
      rw [or_iff_right hpassed]
      refine hserve.refuses_iff hcheck.early fun hplain => ?_
      rw [hcheck.checked_eq hplain, if_pos hargs]

/-- What is observed of the calls. -/
def callActs (trace : List (Event (Either ScmCall Access))) : List RequestAct :=
  requestObserver.actions (trace.filterMap Event.left)

/-- Every index is below 10. -/
def InBounds (trace : List (Event (Either ScmCall Access))) : Prop :=
  ∀ array i, ⟨.inr (.index array i), ()⟩ ∈ trace → i < 10

theorem inBounds_of_actions {trace : List (Event (Either ScmCall Access))}
    (h : ∀ i ∈ accessObserver.actions trace, i < 10) : InBounds trace :=
  fun _ i hmem => h i (List.mem_filterMap.mpr ⟨_, hmem, rfl⟩)

/-- A request with too many arguments is refused, and every index is below 10, exactly when there
are not too many arguments or the request is refused otherwise. -/
theorem scmIoctlIndexed_checked_iff {rest : List (Event (Either ScmCall Access))}
    (h : Runs (scmIoctlIndexed build widths stack SCM_HAND_SHAKE_IOCTL)
      (⟨.inl .copyFromUser, some r⟩ :: rest) result) :
    ((MAX_QCOM_SCM_ARGS < r.noOfArgs → Refuses (callActs rest) result) ∧ InBounds rest) ↔
      r.noOfArgs ≤ MAX_QCOM_SCM_ARGS ∨ Refusable build r (callActs rest) := by
  have hcalls : Runs (scmIoctl build widths stack SCM_HAND_SHAKE_IOCTL)
      (⟨.copyFromUser, some r⟩ :: rest.filterMap Event.left) result := by
    rw [← scmIoctlIndexed_erase]
    exact Runs.erase (fun request _ => by cases request; rfl) h
  have hrefuses := (scmIoctl_requestActs hcalls).refuses_iff
  have hindices : BoundedOrOverrun build r (accessObserver.actions rest) result := by
    unfold scmIoctlIndexed at h
    rw [if_neg (by simp)] at h
    cases h with
    | call _ hrest =>
        exact (answerRequestIndexed_shows build widths stack r).exec accessObserver_admits hrest
  by_cases hargs : r.noOfArgs ≤ MAX_QCOM_SCM_ARGS
  · refine iff_of_true ⟨fun hlt => absurd hargs (Nat.not_le.mpr hlt), ?_⟩ (.inl hargs)
    obtain hbounded | ⟨_, hlt, _⟩ := hindices
    · exact inBounds_of_actions hbounded
    · exact absurd hargs (Nat.not_le.mpr hlt)
  · have hlt := Nat.not_le.mp hargs
    rw [or_iff_right hargs]
    constructor
    · intro ⟨hrefused, _⟩
      exact (hrefuses hlt).mp (hrefused hlt)
    · intro hrefusable
      have hrefused := (hrefuses hlt).mpr hrefusable
      refine ⟨fun _ => hrefused, ?_⟩
      obtain hbounded | ⟨_, _, hnone⟩ := hindices
      · exact inBounds_of_actions hbounded
      · obtain ⟨_, hvalue, _⟩ := hrefused.1
        rw [hnone] at hvalue
        cases hvalue

/-- One argument is within the arrays. -/
theorem scmIoctlIndexed_checked_shutdown : ∃ rest,
    Runs (scmIoctlIndexed .v5_14_0 (fun _ _ => 64) zeroStack SCM_HAND_SHAKE_IOCTL)
      (⟨.inl .copyFromUser, some shutdownRequest⟩ :: rest) (some 1) ∧
    (((MAX_QCOM_SCM_ARGS < shutdownRequest.noOfArgs → Refuses (callActs rest) (some 1)) ∧
        InBounds rest) ↔
      shutdownRequest.noOfArgs ≤ MAX_QCOM_SCM_ARGS ∨
        Refusable .v5_14_0 shutdownRequest (callActs rest)) := by
  have hruns : Runs (scmIoctlIndexed .v5_14_0 (fun _ _ => 64) zeroStack SCM_HAND_SHAKE_IOCTL)
      (⟨.inl .copyFromUser, some shutdownRequest⟩ :: [⟨.inr (.index .argsBuffer 0), ()⟩,
        ⟨.inr (.index .descArgs 0), ()⟩, (shutdownCall 1).lift .inl]) (some 1) :=
    .call rfl (.call rfl (.call rfl (.call rfl (.ret _ _))))
  exact ⟨_, hruns, scmIoctlIndexed_checked_iff hruns⟩

/-- On other kernels a shutdown with eleven arguments is handed to the secure world. -/
theorem scmIoctlIndexed_not_checked :
    ¬ ∀ (build : Build) (widths : Widths) (stack : Stack) (r : ScmHandShake)
      (rest : List (Event (Either ScmCall Access))) (result : Option Int),
      Runs (scmIoctlIndexed build widths stack SCM_HAND_SHAKE_IOCTL)
        (⟨.inl .copyFromUser, some r⟩ :: rest) result →
      (MAX_QCOM_SCM_ARGS < r.noOfArgs → Refuses (callActs rest) result) ∧ InBounds rest := by
  intro h
  have hruns : Runs (scmIoctlIndexed .other (fun _ _ => 64) zeroStack SCM_HAND_SHAKE_IOCTL)
      (⟨.inl .copyFromUser, some (plainRequest QCOM_SCM_SVC_PIL QCOM_SCM_PIL_PAS_SHUTDOWN 11)⟩ ::
        [⟨.inr (.index .argsBuffer 0), ()⟩, ⟨.inl (.wrapper .pasShutdown [0]), (1, none)⟩])
      (some 1) :=
    .call rfl (.call rfl (.call rfl (.ret _ _)))
  have hrefused := (h _ _ _ _ _ _ hruns).1 (by decide)
  exact hrefused.2 1 (List.mem_singleton.mpr rfl)

end SafeLinux.ScmIntf
