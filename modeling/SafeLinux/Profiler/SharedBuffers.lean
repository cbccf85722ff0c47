import SafeLinux.Effects.Actions
import SafeLinux.Loans.Basic
import SafeLinux.Profiler.Verdicts

/-!
# The shared buffers of a request

`bw_profiling_get` keeps the descriptors of its two shared buffers in one variable, which it frees
at its exit, and each command has a buffer of its own. Freeing a buffer leaves the variable, and so
does an allocation that fails: if the second one fails, the first buffer is freed again. In all
other executions of the ioctls every buffer is freed exactly once (`profilerIoctl_settled_iff`).
-/

namespace SafeLinux.Profiler

open Effects
open Effects.Program (perform)
open Loans

/-! ## What is observed -/

/-- What concerns the shared buffers. -/
inductive BufferAct where
  /-- A buffer is allocated or freed. -/
  | loan (l : Loan QteeShm)
  /-- An allocation fails. -/
  | unallocated
  | countersRead
  deriving DecidableEq

/-- An observer of the shared buffers; freeing an all-zero descriptor does nothing. -/
def bufferObserver : Observer ProfilerCall BufferAct where
  possible := fun _ _ => True
  view := fun request answer =>
    match request with
    | .qteeShmbridgeAllocateShm _ =>
        match answer with
        | .ok shm => some (.loan (.take shm))
        | .error _ => some .unallocated
    | .qteeShmbridgeFreeShm (some shm) => some (.loan (.give shm))
    | .readCounters => some .countersRead
    | _ => none

/-- The buffer allocated or freed. -/
def BufferAct.loan? : BufferAct → Option (Loan QteeShm)
  | .loan l => some l
  | _ => none

/-- The buffers allocated and freed, in order. -/
def loansOf (acts : List BufferAct) : List (Loan QteeShm) := acts.filterMap BufferAct.loan?

/-- Every shared buffer that was allocated in these calls was freed, once. -/
def FreedOnce (trace : List (Event ProfilerCall)) : Prop :=
  Settled (loansOf (bufferObserver.actions trace))

/-- After the counters have been read, no buffer is allocated. -/
def FailsAfterCounters (trace : List (Event ProfilerCall)) : Prop :=
  [.countersRead, .unallocated] <:+: bufferObserver.actions trace

variable {α β : Type} {acts acts' : List BufferAct} {shm : QteeShm}

@[simp] theorem loansOf_nil : loansOf [] = [] := rfl

@[simp] theorem loansOf_loan {l : Loan QteeShm} : loansOf (.loan l :: acts) = l :: loansOf acts :=
  rfl

@[simp] theorem loansOf_unallocated : loansOf (.unallocated :: acts) = loansOf acts := rfl

@[simp] theorem loansOf_countersRead : loansOf (.countersRead :: acts) = loansOf acts := rfl

@[simp] theorem loansOf_append : loansOf (acts ++ acts') = loansOf acts ++ loansOf acts' :=
  List.filterMap_append

/-! ## Pairs of acts -/

/-- A pair does not begin where its first element does not occur. -/
theorem pair_infix_append {a b : BufferAct} (h : a ∉ acts) :
    [a, b] <:+: acts ++ acts' ↔ [a, b] <:+: acts' := by
  induction acts with
  | nil => rfl
  | cons c acts ih =>
      rw [List.mem_cons, not_or] at h
      obtain ⟨hne, hrest⟩ := h
      rw [List.cons_append, List.infix_cons_iff, List.cons_prefix_cons, ih hrest]
      exact or_iff_right fun hstart => hne hstart.1

/-- A pair after its first element, which does not occur again. -/
theorem pair_infix_cons {a b : BufferAct} (h : a ∉ acts) :
    [a, b] <:+: a :: acts ↔ [b] <+: acts := by
  have hrest : ¬ [a, b] <:+: acts := fun hpair => h (hpair.subset List.mem_cons_self)
  rw [List.infix_cons_iff, List.cons_prefix_cons, and_iff_right rfl, or_iff_left hrest]

/-! ## Parts of a request -/

/-- Acts that free what they allocate and do not read the counters. -/
structure Plain (acts : List BufferAct) : Prop where
  settled : Settled (loansOf acts)
  unread : .countersRead ∉ acts

/-- The buffers are freed once, unless none is allocated after the counters have been read. -/
def Accounted (acts : List BufferAct) : Prop :=
  Settled (loansOf acts) ↔ ¬ [.countersRead, .unallocated] <:+: acts

theorem Plain.accounted (h : Plain acts) : Accounted acts := by
  refine iff_of_true h.settled ?_
  intro hpair
  exact h.unread (hpair.subset List.mem_cons_self)

theorem plain_nil : Plain [] := ⟨rfl, nofun⟩

theorem plain_unallocated : Plain [.unallocated] := ⟨rfl, by simp⟩

/-- Acts between the allocation of a buffer and its end. -/
theorem Plain.between (h : Plain acts) (shm : QteeShm) :
    Plain (.loan (.take shm) :: (acts ++ [.loan (.give shm)])) := by
  constructor
  · have hbetween := h.settled.between shm
    simpa using hbetween
  · have hunread := h.unread
    simpa using hunread

/-- Plain acts before others make no difference. -/
theorem Plain.append (h : Plain acts) (h' : Accounted acts') : Accounted (acts ++ acts') := by
  have hsettled : Settled (loansOf (acts ++ acts')) ↔ Settled (loansOf acts') := by
    rw [loansOf_append, Settled, settle_append, h.settled.settle_eq, Option.bind_some, Settled]
  rw [Accounted, hsettled, pair_infix_append h.unread]
  exact h'

/-- A program that returns, with plain acts. -/
abbrev ShowsPlain (p : ProfilerProg α) : Prop :=
  p.Shows bufferObserver fun acts result => result.isSome ∧ Plain acts

/-- A program that returns and accounts for its buffers. -/
abbrev ShowsAccounted (p : ProfilerProg α) : Prop :=
  p.Shows bufferObserver fun acts result => result.isSome ∧ Accounted acts

theorem ShowsPlain.accounted {p : ProfilerProg α} (h : ShowsPlain p) : ShowsAccounted p :=
  h.mono fun _ _ hplain => ⟨hplain.1, hplain.2.accounted⟩

theorem showsPlain_pure {value : α} : ShowsPlain (pure value : ProfilerProg α) :=
  shows_pure ⟨rfl, plain_nil⟩

/-- A command frees the buffer that it allocates. -/
theorem bwProfilingCommand_plain {req : TzBwSvcBuf} : ShowsPlain (bwProfilingCommand req) := by
  unfold bwProfilingCommand
  simp only [verdict_eq]
  refine shows_bind (Q := fun acts result => result.isSome ∧ Plain acts) ?_ ?_ ?_
  · refine shows_call fun bwShm _ => ?_
    cases bwShm with
    | error err => exact shows_idle (fun _ => rfl) fun _ _ => shows_pure ⟨rfl, plain_unallocated⟩
    | ok shm =>
        refine shows_idle (fun _ => rfl) fun _ _ => ?_
        have hcall : (if req.cmdId = TZ_BW_SVC_START_ID ∨ req.cmdId = TZ_BW_SVC_GET_ID ∨
              req.cmdId = TZ_BW_SVC_STOP_ID then
            perform (.qcomScmDdrbwProfiler shm req)
          else pure (-EINVAL)).Shows bufferObserver fun acts result =>
            acts = [] ∧ result.isSome := by
          split
          · exact shows_perform fun _ _ => ⟨rfl, rfl⟩
          · exact shows_pure ⟨rfl, rfl⟩
        refine shows_bind hcall ?_ ?_
        · intro acts ret hacts
          obtain ⟨rfl, -⟩ := hacts
          refine shows_idle (fun _ => rfl) fun _ _ => ?_
          refine shows_idle (fun _ => rfl) fun rsp _ => ?_
          refine shows_act (fun _ => .loan (.give shm)) (fun _ => rfl) fun _ _ => ?_
          exact shows_pure ⟨rfl, plain_nil.between shm⟩
        · intro acts hacts
          cases hacts.2
  · intro acts value hplain
    refine shows_pure ⟨rfl, ?_⟩
    rw [List.append_nil]
    exact hplain.2
  · intro acts hacts
    cases hacts.1

/-- A program that is only followed by a choice of its result. -/
theorem ShowsPlain.ret {p : ProfilerProg α} (h : ShowsPlain p) (f : α → β) :
    ShowsPlain (p >>= fun value => pure (f value)) := by
  refine shows_bind h ?_ ?_
  · intro acts value hplain
    refine shows_pure ⟨rfl, ?_⟩
    rw [List.append_nil]
    exact hplain.2
  · intro acts hacts
    cases hacts.1

theorem bwGetCommand_plain {bwbuf : TzBwSvcBuf} {bufShm : QteeShm} {bufsize : Nat} {type : U32} :
    ShowsPlain (bwGetCommand bwbuf bufShm bufsize type) :=
  shows_idle (fun _ => rfl) fun _ _ => bwProfilingCommand_plain

/-- The branch for the older structure frees its buffer. -/
theorem bwProfilingGetM_plain {bwbuf : TzBwSvcBuf} : ShowsPlain (bwProfilingGetM bwbuf) := by
  refine shows_call fun bufShm _ => ?_
  cases bufShm with
  | error err => exact shows_idle (fun _ => rfl) fun _ _ => shows_pure ⟨rfl, plain_unallocated⟩
  | ok bufShm =>
      refine shows_bind bwGetCommand_plain ?_ ?_
      · intro acts pair hplain
        obtain ⟨-, hplain⟩ := hplain
        dsimp only
        split
        · refine shows_act (fun _ => .loan (.give bufShm)) (fun _ => rfl) fun _ _ => ?_
          exact shows_pure ⟨rfl, hplain.between bufShm⟩
        · refine shows_idle (fun _ => rfl) fun _ _ => ?_
          refine shows_idle (fun _ => rfl) fun _ _ => ?_
          refine shows_act (fun _ => .loan (.give bufShm)) (fun _ => rfl) fun _ _ => ?_
          exact shows_pure ⟨rfl, hplain.between bufShm⟩
      · intro acts hacts
        cases hacts.1

/-- The first buffer and its command, before the counters are read. -/
theorem Plain.before (h : Plain acts) (shm : QteeShm)
    (hrest : Accounted (.countersRead :: acts')) :
    Accounted (.loan (.take shm) ::
      (acts ++ (.loan (.give shm) :: .countersRead :: acts'))) := by
  have happend := (h.between shm).append hrest
  rwa [List.cons_append, List.append_assoc] at happend

/-- The buffer that was freed before is freed when none is allocated. -/
theorem accounted_again : Accounted [.countersRead, .unallocated, .loan (.give shm)] := by
  refine iff_of_false ?_ ?_
  · show ¬ settle 0 [.give shm] = some 0
    simp [settle]
  · rw [pair_infix_cons (by simp), not_not]
    exact ⟨[.loan (.give shm)], rfl⟩

/-- A second buffer and its command. -/
theorem Plain.after (h : Plain acts) (shm : QteeShm) :
    Accounted (.countersRead :: .loan (.take shm) :: (acts ++ [.loan (.give shm)])) := by
  have hbetween := h.between shm
  refine iff_of_true hbetween.settled ?_
  rw [pair_infix_cons hbetween.unread, List.cons_prefix_cons]
  exact fun hfalse => nomatch hfalse.1

/-- The branch with the counters accounts for its buffers. -/
theorem bwProfilingGetCounters_accounted {bwbuf : TzBwSvcBuf} :
    ShowsAccounted (bwProfilingGetCounters bwbuf) := by
  refine shows_call fun bufShm _ => ?_
  cases bufShm with
  | error err =>
      exact shows_idle (fun _ => rfl) fun _ _ => shows_pure ⟨rfl, plain_unallocated.accounted⟩
  | ok bufShm =>
      refine shows_bind bwGetCommand_plain ?_ ?_
      · intro acts pair hplain
        obtain ⟨-, hplain⟩ := hplain
        dsimp only
        split
        · refine shows_act (fun _ => .loan (.give bufShm)) (fun _ => rfl) fun _ _ => ?_
          exact shows_pure ⟨rfl, (hplain.between bufShm).accounted⟩
        · refine shows_idle (fun _ => rfl) fun _ _ => ?_
          refine shows_act (fun _ => .loan (.give bufShm)) (fun _ => rfl) fun _ _ => ?_
          refine shows_act (fun _ => .countersRead) (fun _ => rfl) fun _ _ => ?_
          refine shows_call fun bufShm' _ => ?_
          cases bufShm' with
          | error err =>
              refine shows_act (fun _ => .loan (.give bufShm)) (fun _ => rfl) fun _ _ => ?_
              exact shows_pure ⟨rfl, hplain.before bufShm accounted_again⟩
          | ok bufShm' =>
              refine shows_bind bwGetCommand_plain ?_ ?_
              · intro acts' pair' hplain'
                have haccounted := hplain.before bufShm (hplain'.2.after bufShm')
                split
                · refine shows_act (fun _ => .loan (.give bufShm')) (fun _ => rfl) fun _ _ => ?_
                  exact shows_pure ⟨rfl, haccounted⟩
                · refine shows_idle (fun _ => rfl) fun _ _ => ?_
                  refine shows_idle (fun _ => rfl) fun _ _ => ?_
                  refine shows_act (fun _ => .loan (.give bufShm')) (fun _ => rfl) fun _ _ => ?_
                  exact shows_pure ⟨rfl, haccounted⟩
              · intro acts hacts
                cases hacts.1
      · intro acts hacts
        cases hacts.1

/-! ## The ioctls -/

instance : Nonempty BwCntrsReq := ⟨⟨0, 0⟩⟩

theorem bwProfilingGet_accounted {bwbuf : TzBwSvcBuf} : ShowsAccounted (bwProfilingGet bwbuf) := by
  refine shows_idle (fun _ => rfl) fun bwProfilingDisabled _ => ?_
  cases bwProfilingDisabled with
  | true => exact bwProfilingGetM_plain.accounted
  | false => exact bwProfilingGetCounters_accounted

theorem bwDispatch_accounted {req : BwCntrsReq} {bwEnableFlags : U32} :
    ShowsAccounted (bwDispatch req bwEnableFlags) := by
  unfold bwDispatch
  split_ifs
  · exact (bwProfilingCommand_plain.ret Prod.fst).accounted
  · exact bwProfilingGet_accounted
  · exact (bwProfilingCommand_plain.ret Prod.fst).accounted
  · exact showsPlain_pure.accounted

theorem profilerGetBwInfo_accounted : ShowsAccounted profilerGetBwInfo := by
  refine shows_idle (fun _ => rfl) fun copiedM _ => ?_
  refine shows_idle (fun _ => rfl) fun copied _ => ?_
  cases copied with
  | error ret => exact showsPlain_pure.accounted
  | ok copied =>
      refine shows_idle (fun _ => rfl) fun allocated _ => ?_
      cases allocated with
      | false => exact showsPlain_pure.accounted
      | true =>
          refine shows_idle (fun _ => rfl) fun readM _ => ?_
          have hserve (req : BwCntrsReq) (bwEnableFlags : U32) : ShowsAccounted (do
              let ret ← bwDispatch req bwEnableFlags
              perform .kfree
              return ret) := by
            refine shows_bind bwDispatch_accounted ?_ ?_
            · intro acts ret haccounted
              refine shows_idle (fun _ => rfl) fun _ _ => shows_pure ⟨rfl, ?_⟩
              rw [List.append_nil]
              exact haccounted.2
            · intro acts hacts
              cases hacts.1
          dsimp only
          split
          · exact hserve copied _
          · exact shows_idle (fun _ => rfl) fun req _ => hserve req _

theorem profilerIoctl_accounted (cmd : ProfilerIoctl) : ShowsAccounted (profilerIoctl cmd) := by
  cases cmd with
  | getBwInfo | getBwInfoBc =>
      exact shows_idle (fun _ => rfl) fun _ _ => profilerGetBwInfo_accounted
  | setOffsets | deviceInit =>
      exact shows_idle (fun _ => rfl) fun _ _ => showsPlain_pure.accounted
  | other => exact showsPlain_pure.accounted

theorem bufferObserver_admits : bufferObserver.Admits Semantics.free :=
  fun _ _ _ _ _ => trivial

/-- An ioctl frees every shared buffer once exactly if no allocation fails after the counters have
been read. -/
theorem profilerIoctl_settled_iff {cmd : ProfilerIoctl} {trace : List (Event ProfilerCall)}
    {result : Option Int} (h : Runs (profilerIoctl cmd) trace result) :
    FreedOnce trace ↔ ¬ FailsAfterCounters trace :=
  ((profilerIoctl_accounted cmd).exec bufferObserver_admits h).2

/-- A GET whose second buffer can not be allocated. -/
theorem runs_unallocated : Runs (profilerIoctl .getBwInfo)
    [⟨.writeBwProfilingDisabled false, ()⟩, ⟨.readBwProfilingDisabled, false⟩,
      ⟨.copyFromUser BW_CNTRS_REQ_SIZE, .ok ⟨TZ_BW_SVC_GET_ID, 0⟩⟩, ⟨.kzalloc, true⟩,
      ⟨.readBwProfilingDisabled, false⟩, ⟨.readBwProfilingDisabled, false⟩,
      ⟨.qteeShmbridgeAllocateShm 4096, .ok ⟨0x1000⟩⟩, ⟨.qteeShmbridgeFlushShmBuf ⟨0x1000⟩, ()⟩,
      ⟨.qteeShmbridgeAllocateShm 4096, .ok ⟨0x2000⟩⟩, ⟨.qteeShmbridgeFlushShmBuf ⟨0x2000⟩, ()⟩,
      ⟨.qcomScmDdrbwProfiler ⟨0x2000⟩ ((getCommand ⟨0x1000⟩ 404 0).write .zeroed), 0⟩,
      ⟨.qteeShmbridgeInvShmBuf ⟨0x2000⟩, ()⟩, ⟨.readResponse ⟨0x2000⟩, ⟨TZ_BW_SVC_GET_ID, 0⟩⟩,
      ⟨.qteeShmbridgeFreeShm (some ⟨0x2000⟩), ()⟩, ⟨.qteeShmbridgeInvShmBuf ⟨0x1000⟩, ()⟩,
      ⟨.qteeShmbridgeFreeShm (some ⟨0x1000⟩), ()⟩, ⟨.readCounters, ()⟩,
      ⟨.qteeShmbridgeAllocateShm 4096, .error (-ENOMEM)⟩,
      ⟨.qteeShmbridgeFreeShm (some ⟨0x1000⟩), ()⟩, ⟨.kfree, ()⟩] (some (-ENOMEM)) := by
  repeat (first | exact .ret _ _ | refine .call rfl ?_)

theorem profilerIoctl_settled_iff_unallocated : ∃ trace result,
    Runs (profilerIoctl .getBwInfo) trace result ∧
      (FreedOnce trace ↔ ¬ FailsAfterCounters trace) :=
  ⟨_, _, runs_unallocated, profilerIoctl_settled_iff runs_unallocated⟩

/-- It frees its first buffer twice. -/
theorem not_freedOnce_unallocated : ¬ ∀ (cmd : ProfilerIoctl) (trace : List (Event ProfilerCall))
    (result : Option Int), Runs (profilerIoctl cmd) trace result → FreedOnce trace := by
  intro h
  have hfreed := h _ _ _ runs_unallocated
  have htwice : ¬ Settled [.take (QteeShm.mk 0x1000), .take ⟨0x2000⟩, .give ⟨0x2000⟩,
    .give ⟨0x1000⟩, .give ⟨0x1000⟩] := by decide
  exact htwice hfreed

end SafeLinux.Profiler
