import SafeLinux.Kiumd.HandleSharing

/-!
# Named buffers are not released

`Sound` is the invariant of the threads that share a context: the references of the driver and of
the open descriptors are counted, and each open handle is backed by a reference of the driver or by
the one that a descriptor being installed shares with it. A request keeps it call by call
(`BranchGuard`), whatever descriptors other threads close in between.
-/

namespace SafeLinux.Kiumd

open Effects
open Effects.Program (perform)

variable {w w' : World} {c : Nat} {base : DmaBuf → Nat} {d : DmaBuf} {s s' : Sharing}
  {fds : List (Int × DmaBuf)} {refs : DmaBuf → Nat} {installing : Option DmaBuf}

/-! ## The calls of a request -/

/-- Each open handle is backed by a reference of the driver, or by the one of the descriptor being
installed. -/
def OpenBacked (w : World) (c : Nat) (installing : Option DmaBuf) : Prop :=
  ∀ e ∈ w.xa c, ∀ d, w.named e = .ptr d → (w.handles e.2).handleRefcount ≠ 0 →
    .dmabuf d ∈ w.held ∨ installing = some d

/-- The calls of HANDLE_TO_FD and CLOSE_HANDLE. -/
inductive HandleWork : (β : Type) → HandleCall β → Prop where
  | xaLoad {c : Nat} {index : U32} : HandleWork _ (.inr (.xaLoad c index))
  | readHandle {p : Nat} : HandleWork _ (.inl (.readHandle p))
  | atomicDecAndTest {p : Nat} : HandleWork _ (.inr (.atomicDecAndTest p))
  | dmaBufFd {d : DmaBuf} : HandleWork _ (.inr (.dmaBufFd d))
  | getDmaBuf {d : DmaBuf} : HandleWork _ (.inr (.getDmaBuf d))
  | dmaBufPut {d : DmaBuf} : HandleWork _ (.inl (.dmaBufPut d))
  | xaErase {c : Nat} {index : U32} : HandleWork _ (.inr (.xaErase c index))

/-- The buffer whose reference a call gives away. -/
def givenAway : {β : Type} → HandleCall β → Option DmaBuf
  | _, .inr (.dmaBufFd d) => some d
  | _, .inl (.dmaBufPut d) => some d
  | _, _ => none

/-- The buffer being installed after some calls. -/
def installedBy (trace : List (Event HandleCall)) : Option DmaBuf :=
  trace.foldl installedAfter none

@[simp] theorem installedBy_nil : installedBy [] = none := rfl

@[simp] theorem installedBy_concat (trace : List (Event HandleCall)) (e : Event HandleCall) :
    installedBy (trace ++ [e]) = installedAfter (installedBy trace) e := by
  simp [installedBy]

/-- At each call of a request the open handles are backed; what it gives away the driver owns, and
then nothing is being installed. -/
def BranchGuard (c : Nat) : Guard HandleCall World := fun trace _ request w =>
  HandleWork _ request ∧ OpenBacked w c (installedBy trace) ∧
    ∀ d, givenAway request = some d → .dmabuf d ∈ w.held ∧ installedBy trace = none

/-- A request leaves the handles counted. -/
def BranchPost (c : Nat) (base : DmaBuf → Nat) {α : Type} : Post HandleCall World α :=
  fun trace _ w => HandlesCounted w c base ∧ installedBy trace = none

theorem HandlesCounted.backed (h : HandlesCounted w c base) (installing : Option DmaBuf) :
    OpenBacked w c installing :=
  fun _ he _ hname _ => .inl (h.dmabuf_mem he hname)

variable {α β : Type} {Q : Post HandleCall World α} {past : List (Event HandleCall)}

/-- What is left of a request from a state: its calls are guarded and it leaves the handles
counted, after calls that are installing a buffer or none. -/
def Guarded (c : Nat) (base : DmaBuf → Nat) (installing : Option DmaBuf) (p : HandleProg α)
    (w : World) : Prop :=
  ∀ past, installedBy past = installing →
    wp handleKernel ((BranchGuard c).after past) p ((BranchPost c base).after past) w

/-- The rule for a call of a request. -/
theorem guarded_call [Nonempty β] {request : HandleCall β} {rest : β → HandleProg α}
    (hwork : HandleWork β request) (hbacked : OpenBacked w c installing)
    (hgiven : ∀ d, givenAway request = some d → .dmabuf d ∈ w.held ∧ installing = none)
    (hnext : ∀ answer w', handleKernel.step request w answer = some w' →
      Guarded c base (installedAfter installing ⟨request, answer⟩) (rest answer) w') :
    Guarded c base installing (perform request >>= rest) w := by
  rintro past rfl
  refine wp_perform_bind.mpr ⟨⟨hwork, ?_, ?_⟩, ?_, ?_⟩
  · rw [List.append_nil]
    exact hbacked
  · rw [List.append_nil]
    exact hgiven
  · exact fun hempty => (not_isEmpty_of_nonempty β hempty).elim
  · intro answer w' hstep
    rw [Guard.after_after, Post.after_after]
    exact hnext answer w' hstep _ (installedBy_concat _ _)

/-- The rule for a call of the rest of the driver. -/
theorem guarded_ask [Nonempty β] {request : KCall β} {rest : β → HandleProg α}
    (hwork : HandleWork β (.inl request)) (hbacked : OpenBacked w c installing)
    (hgiven : ∀ d, givenAway (.inl request) = some d →
      .dmabuf d ∈ w.held ∧ installing = none)
    (hnext : ∀ answer w', kernelStep request w answer = some w' →
      Guarded c base (installedAfter installing ⟨.inl request, answer⟩) (rest answer) w') :
    Guarded c base installing (ask request >>= rest) w :=
  guarded_call hwork hbacked hgiven hnext

/-- The rule for an operation on the handles. -/
theorem guarded_op [Nonempty β] {request : HandleOp β} {rest : β → HandleProg α}
    (hwork : HandleWork β (.inr request)) (hbacked : OpenBacked w c installing)
    (hgiven : ∀ d, givenAway (.inr request) = some d →
      .dmabuf d ∈ w.held ∧ installing = none)
    (hnext : ∀ answer w', handleStep request w answer = some w' →
      Guarded c base (installedAfter installing ⟨.inr request, answer⟩) (rest answer) w') :
    Guarded c base installing (op request >>= rest) w :=
  guarded_call hwork hbacked hgiven hnext

/-- The rule for the end of a request. -/
theorem guarded_pure {value : α} (h : HandlesCounted w c base) :
    Guarded c base none (pure value) w := by
  intro past hpast
  refine wp_pure.mpr ⟨h, ?_⟩
  rw [List.append_nil]
  exact hpast

theorem handleToFd_guarded {kiusr : KiumdUser} (h : HandlesCounted w c base) :
    Guarded c base none (handleToFd c kiusr) w := by
  refine guarded_op .xaLoad (h.backed _) (fun _ h => by cases h) fun found w₁ hstep => ?_
  cases found with
  | none =>
      simp only [handleStep] at hstep
      split at hstep <;> cases hstep
      exact guarded_pure h
  | some p =>
  obtain ⟨rfl, he⟩ := xaLoad_step hstep
  refine guarded_ask .readHandle (h.backed _) (fun _ h => by cases h) fun handle w₂ hstep => ?_
  obtain ⟨rfl, rfl⟩ := readHandle_step hstep (h.live _ he)
  split
  · rename_i d hname
    have hmem : .dmabuf d ∈ w₂.held := h.dmabuf_mem he hname
    have hgiven : ∀ d', givenAway (.inr (.dmaBufFd d)) = some d' →
        .dmabuf d' ∈ w₂.held ∧ (none : Option DmaBuf) = none := by
      rintro d' heq
      cases heq
      exact ⟨hmem, rfl⟩
    refine guarded_op .dmaBufFd (h.backed _) hgiven fun fd w₃ hstep => ?_
    cases hstep
    split
    · rename_i hneg
      rw [if_neg (not_le.mpr hneg), installedAfter, if_pos hneg]
      exact guarded_pure h
    · rename_i hnonneg
      rw [if_pos (not_lt.mp hnonneg), installedAfter, if_neg hnonneg]
      have hbacked : OpenBacked (w₂.release (.dmabuf d)) c (some d) := by
        intro e' he' d' hname' _
        by_cases hd : d' = d
        · exact .inr (congrArg some hd.symm)
        · have hne : Resource.dmabuf d' ≠ .dmabuf d := by simpa using hd
          exact .inl ((Multiset.mem_erase_of_ne hne).mpr (h.dmabuf_mem he' hname'))
      refine guarded_op .getDmaBuf hbacked (fun _ h => by cases h) fun _ w₄ hstep => ?_
      cases hstep
      -- the reference handed over is the one taken anew
      have hback : (w₂.release (.dmabuf d)).hold (.dmabuf d) = w₂ := by
        simp [World.hold, World.release, Multiset.cons_erase hmem]
      rw [hback]
      exact guarded_pure h
  · exact guarded_pure h

/-- Counting a handle down leaves the handles backed. -/
theorem HandlesCounted.backed_countHandle (h : HandlesCounted w c base) (p : Nat) (n : Int) :
    OpenBacked (w.countHandle p n) c none := by
  intro e he d hname _
  rw [countHandle_named] at hname
  exact .inl (h.dmabuf_mem he hname)

/-- Dropping the reference of a handle that is no longer open leaves the others backed. -/
theorem HandlesCounted.backed_putRef {e : Nat × Nat} (h : HandlesCounted w c base)
    (he : e ∈ w.xa c) (hone : (w.handles e.2).handleRefcount = 1) :
    OpenBacked ((w.countHandle e.2 (-1)).putRef (w.named e)) c none := by
  intro e' he' d' hname' hopen
  rw [World.xa, putRef_ctxs] at he'
  rw [World.named, putRef_handles] at hname'
  rw [putRef_handles] at hopen
  have hname' : w.named e' = .ptr d' := (countHandle_named w e.2 (-1) e').symm.trans hname'
  have hne : e' ≠ e := by
    rintro rfl
    exact hopen (by simp [World.countHandle, World.setHandle, hone, wrapInt])
  refine .inl ?_
  have hmem : .dmabuf d' ∈ w.held := h.dmabuf_mem he' hname'
  cases hname : w.named e with
  | null | err => exact hmem
  | ptr d =>
      refine (Multiset.mem_erase_of_ne ?_).mpr hmem
      intro heq
      cases heq
      exact hne (List.inj_on_of_nodup_map h.buffers he' he (hname'.trans hname.symm))

/-- The rule for `putReal`. -/
theorem guarded_putReal {dmabuf : KPtr DmaBuf} {rest : Unit → HandleProg α}
    (hbacked : OpenBacked w c none) (hmem : ∀ d, dmabuf = .ptr d → .dmabuf d ∈ w.held)
    (hnext : Guarded c base none (rest ()) (w.putRef dmabuf)) :
    Guarded c base none (putReal dmabuf >>= rest) w := by
  cases dmabuf with
  | null | err => exact hnext
  | ptr d =>
      refine guarded_ask .dmaBufPut hbacked ?_ fun _ w₁ hstep => ?_
      · rintro d' heq
        cases heq
        exact ⟨hmem d rfl, rfl⟩
      · cases hstep
        exact hnext

theorem closeHandle_guarded {kiusr : KiumdUser} (h : HandlesCounted w c base) :
    Guarded c base none (closeHandle c kiusr) w := by
  refine guarded_op .xaLoad (h.backed _) (fun _ h => by cases h) fun found w₁ hstep => ?_
  cases found with
  | none =>
      simp only [handleStep] at hstep
      split at hstep <;> cases hstep
      exact guarded_pure h
  | some p =>
  obtain ⟨rfl, he⟩ := xaLoad_step hstep
  refine guarded_ask .readHandle (h.backed _) (fun _ h => by cases h) fun handle w₂ hstep => ?_
  obtain ⟨rfl, rfl⟩ := readHandle_step hstep (h.live _ he)
  have hopened : 0 < (w₂.handles p).handleRefcount ∧ (w₂.handles p).handleRefcount < 2 ^ 31 :=
    h.opened _ he
  have hwrap : wrapInt ((w₂.handles p).handleRefcount + -1) =
      (w₂.handles p).handleRefcount + -1 := wrapInt_of_range (by omega) (by omega)
  have hcount : ((w₂.countHandle p (-1)).handles p).handleRefcount =
      (w₂.handles p).handleRefcount + -1 := by
    simp [World.countHandle, World.setHandle, hwrap]
  have hmem : ∀ d, (w₂.handles p).dmabuf = .ptr d → .dmabuf d ∈ (w₂.countHandle p (-1)).held :=
    fun d hname => h.dmabuf_mem he hname
  refine guarded_op .atomicDecAndTest (h.backed _) (fun _ h => by cases h) fun zero w₃ hstep => ?_
  simp only [handleStep] at hstep
  split at hstep <;> cases hstep
  rename_i hzero
  rw [hcount] at hzero
  have hbacked := h.backed_countHandle p (-1)
  split
  · rename_i hlast
    have hone : (w₂.handles p).handleRefcount = 1 := by
      rw [hzero, decide_eq_true_eq] at hlast
      omega
    refine guarded_putReal hbacked hmem ?_
    refine guarded_op .xaErase (h.backed_putRef he hone) (fun _ h => by cases h) fun _ w₄ hstep => ?_
    cases hstep
    exact guarded_pure (closed_counts h (.refl w₂ c) he hone).1
  · rename_i hlast
    have hne : (w₂.handles p).handleRefcount ≠ 1 := by
      intro heq
      simp [hzero, heq] at hlast
    exact guarded_putReal hbacked hmem (guarded_pure (h.countDown he hne).putRef)

/-- The branch of a request other than FD_TO_HANDLE. -/
theorem handleBranch_guarded {kiusr : KiumdUser} (h : HandlesCounted w c base)
    (hhandle : kiusr.handle ≠ .ofInt 32 FD_TO_HANDLE) :
    Guarded c base none (handleBranch c kiusr) w := by
  unfold handleBranch
  rw [if_neg hhandle]
  split
  · exact handleToFd_guarded h
  split
  · exact closeHandle_guarded h
  · exact guarded_pure h

/-! ## The invariant -/

/-- The references of the driver and of the open descriptors are counted. -/
def Counted (w : World) (fds : List (Int × DmaBuf)) (refs : DmaBuf → Nat) : Prop :=
  ∀ d, w.held.count (.dmabuf d) + (fds.map Prod.snd).count d ≤ refs d

/-- What holds whenever a thread may make its next call. -/
structure Sound (c : Nat) (base : DmaBuf → Nat) (s : Sharing) : Prop where
  counted : Counted s.world s.fds s.refs
  installing : ∀ d, s.installing = some d → 0 < s.refs d
  backed : OpenBacked s.world c s.installing
  settled : s.holder = none → s.installing = none ∧ HandlesCounted s.world c base

/-- In a sound state every buffer that is named is alive. -/
theorem Sound.unreleased (h : Sound c base s) : Unreleased c s := by
  constructor
  · intro fd d hfd
    have hpos : 0 < (s.fds.map Prod.snd).count d :=
      List.count_pos_iff.mpr (List.mem_map.mpr ⟨(fd, d), hfd, rfl⟩)
    have hcounted := h.counted d
    omega
  · intro e he d hname
    by_cases hzero : (s.world.handles e.2).handleRefcount = 0
    · refine .inr ⟨fun hholder => ?_, hzero⟩
      have hopened := (h.settled hholder).2.opened e he
      omega
    · rcases h.backed e he d hname hzero with hmem | hinstalling
      · have hpos := Multiset.count_pos.mpr hmem
        have hcounted := h.counted d
        exact .inl (by omega)
      · exact .inl (h.installing d hinstalling)

/-- A call of a request keeps the references counted. -/
theorem counted_step {request : HandleCall β} {answer : β} (hwork : HandleWork β request)
    (hgiven : ∀ d, givenAway request = some d → .dmabuf d ∈ w.held)
    (hstep : handleKernel.step request w answer = some w') (h : Counted w fds refs) :
    Counted w' (fdsAfter fds ⟨request, answer⟩) (refsAfter refs ⟨request, answer⟩) := by
  cases hwork with
  | xaLoad | readHandle =>
      simp only [handleKernel, Semantics.either, handleStep, kernel, kernelStep] at hstep
      split at hstep <;> cases hstep
      exact h
  | atomicDecAndTest =>
      simp only [handleKernel, Semantics.either, handleStep] at hstep
      split at hstep <;> cases hstep
      exact h
  | xaErase =>
      cases hstep
      exact h
  | @dmaBufFd d =>
      cases hstep
      by_cases hneg : answer < 0
      · simp only [fdsAfter, if_pos hneg, if_neg (not_le.mpr hneg)]
        exact h
      · simp only [fdsAfter, if_neg hneg, if_pos (not_lt.mp hneg)]
        intro d'
        have hcounted := h d'
        by_cases hd : d' = d
        · subst hd
          have hpos := Multiset.count_pos.mpr (hgiven d' rfl)
          simp only [World.release_held, Multiset.count_erase_self, List.map_cons,
            List.count_cons_self]
          show _ ≤ refs d'
          omega
        · have hne : Resource.dmabuf d' ≠ .dmabuf d := by simpa using hd
          rw [World.release_held, Multiset.count_erase_of_ne hne, List.map_cons,
            List.count_cons_of_ne (Ne.symm hd)]
          exact hcounted
  | @getDmaBuf d =>
      cases hstep
      intro d'
      have hcounted := h d'
      by_cases hd : d' = d
      · subst hd
        show (w.hold (.dmabuf d')).held.count _ + _ ≤ Function.update refs d' (refs d' + 1) d'
        rw [World.hold_held, Multiset.count_cons_self, Function.update_self]
        show _ + (fds.map Prod.snd).count d' ≤ _
        omega
      · have hne : Resource.dmabuf d' ≠ .dmabuf d := by simpa using hd
        show (w.hold (.dmabuf d)).held.count _ + _ ≤ Function.update refs d (refs d + 1) d'
        rw [World.hold_held, Multiset.count_cons_of_ne hne, Function.update_of_ne hd]
        exact hcounted
  | @dmaBufPut d =>
      cases hstep
      intro d'
      have hcounted := h d'
      by_cases hd : d' = d
      · subst hd
        have hpos := Multiset.count_pos.mpr (hgiven d' rfl)
        show (w.release (.dmabuf d')).held.count _ + _ ≤ Function.update refs d' (refs d' - 1) d'
        rw [World.release_held, Multiset.count_erase_self, Function.update_self]
        show _ + (fds.map Prod.snd).count d' ≤ _
        omega
      · have hne : Resource.dmabuf d' ≠ .dmabuf d := by simpa using hd
        show (w.release (.dmabuf d)).held.count _ + _ ≤ Function.update refs d (refs d - 1) d'
        rw [World.release_held, Multiset.count_erase_of_ne hne, Function.update_of_ne hd]
        exact hcounted

/-- The closing of a descriptor keeps a sound state, unless it drops the last reference to a buffer
that is being installed. -/
theorem Sound.close {fd : Int} (h : Sound c base s)
    (hspares : SparesInstalling s ⟨.inr (.closeFd fd), ()⟩) : Sound c base (s.close fd) := by
  unfold Sharing.close
  split
  · exact h
  · rename_i fd' d hfind
    have hmem := List.mem_of_find?_eq_some hfind
    have hfd : fd' = fd := by simpa using List.find?_some hfind
    subst hfd
    refine ⟨?_, ?_, h.backed, h.settled⟩
    · intro d'
      have hcounted := h.counted d'
      have hperm := ((List.perm_cons_erase hmem).map Prod.snd).count_eq d'
      rw [hperm, List.map_cons] at hcounted
      dsimp only
      by_cases hd : d' = d
      · subst hd
        rw [List.count_cons_self] at hcounted
        rw [Function.update_self]
        omega
      · rw [List.count_cons_of_ne (Ne.symm hd)] at hcounted
        rw [Function.update_of_ne hd]
        exact hcounted
    · intro d' hinstalling
      dsimp only
      by_cases hd : d' = d
      · subst hd
        have htwo := hspares fd' d' rfl hmem hinstalling
        rw [Function.update_self]
        omega
      · rw [Function.update_of_ne hd]
        exact h.installing d' hinstalling

/-! ## The threads -/

variable {t : Nat}

/-- What a thread expects of the others: while it holds the mutex, they leave the driver alone. -/
structure ShareRely (c : Nat) (base : DmaBuf → Nat) (t : Nat) (s s' : Sharing) : Prop where
  sound : Sound c base s → Sound c base s'
  inside : s.holder = some t →
    s'.holder = some t ∧ s'.world = s.world ∧ s'.installing = s.installing
  outside : s.holder ≠ some t → s'.holder ≠ some t

/-- What a thread does to the others. -/
def ShareGuarantee (c : Nat) (base : DmaBuf → Nat) (t : Nat) (s s' : Sharing) : Prop :=
  ∀ u, u ≠ t → ShareRely c base u s s'

/-- What holds of a thread outside the mutex. -/
def Outside (c : Nat) (base : DmaBuf → Nat) (t : Nat) (s : Sharing) : Prop :=
  Sound c base s ∧ s.holder ≠ some t

/-- The program of a thread goes on safely. -/
abbrev ShareSafe (c : Nat) (base : DmaBuf → Nat) (t : Nat) (p : Program ShareCall Int)
    (s : Sharing) : Prop :=
  p.Safe ⟨shareStep t⟩ SparesInstalling (ShareRely c base t) (ShareGuarantee c base t)
    (fun _ => Outside c base t) s

theorem ShareRely.refl (c : Nat) (base : DmaBuf → Nat) (t : Nat) (s : Sharing) :
    ShareRely c base t s s := ⟨id, fun h => ⟨h, rfl, rfl⟩, id⟩

theorem ShareRely.trans {s'' : Sharing} (h : ShareRely c base t s s')
    (h' : ShareRely c base t s' s'') : ShareRely c base t s s'' := by
  refine ⟨h'.sound ∘ h.sound, fun hholder => ?_, h'.outside ∘ h.outside⟩
  obtain ⟨hholder', hworld, hinstalling⟩ := h.inside hholder
  obtain ⟨hholder'', hworld', hinstalling'⟩ := h'.inside hholder'
  exact ⟨hholder'', hworld'.trans hworld, hinstalling'.trans hinstalling⟩

theorem Outside.rely (h : Outside c base t s) (hrely : ShareRely c base t s s') :
    Outside c base t s' := ⟨hrely.sound h.1, hrely.outside h.2⟩

/-- A thread that holds the mutex before or after a step does not disturb the others. -/
theorem shareGuarantee_of_sound (h : Sound c base s')
    (hbefore : s.holder = none ∨ s.holder = some t)
    (hafter : s'.holder = none ∨ s'.holder = some t) : ShareGuarantee c base t s s' := by
  intro u hu
  refine ⟨fun _ => h, fun hholder => ?_, fun _ hholder => ?_⟩
  · rcases hbefore with hnone | hsome
    · rw [hnone] at hholder
      cases hholder
    · exact absurd (Option.some.inj (hholder.symm.trans hsome)) hu
  · rcases hafter with hnone | hsome
    · rw [hnone] at hholder
      cases hholder
    · exact absurd (Option.some.inj (hholder.symm.trans hsome)) hu

/-- The state in which what is left of a request starts is backed. -/
theorem backed_of_wp {p : HandleProg α} (h : wp handleKernel ((BranchGuard c).after past) p
    ((BranchPost c base).after past) w) : OpenBacked w c (installedBy past) := by
  cases p with
  | ret value => exact (wp_ret.mp h).1.backed _
  | call request next =>
      have hbacked := (wp_call.mp h).1.2.1
      rwa [List.append_nil] at hbacked

/-- A call of a request that holds the mutex keeps a sound state. -/
theorem Sound.call {request : HandleCall β} {answer : β} (h : Sound c base s)
    (hholder : s.holder = some t) (hinstalling : s.installing = installedBy past)
    (hwork : HandleWork β request)
    (hgiven : ∀ d, givenAway request = some d →
      .dmabuf d ∈ s.world.held ∧ installedBy past = none)
    (hstep : handleKernel.step request s.world answer = some w')
    (hbacked : OpenBacked w' c (installedBy (past ++ [⟨request, answer⟩]))) :
    Sound c base { s with
      world := w'
      fds := fdsAfter s.fds ⟨request, answer⟩
      refs := refsAfter s.refs ⟨request, answer⟩
      installing := installedAfter s.installing ⟨request, answer⟩ } where
  counted := counted_step hwork (fun d hd => (hgiven d hd).1) hstep h.counted
  installing d hinstalled := by
    cases hwork with
    | xaLoad | readHandle | atomicDecAndTest | xaErase => exact h.installing d hinstalled
    | @dmaBufFd d' =>
        by_cases hneg : answer < 0
        · simp only [installedAfter, if_pos hneg] at hinstalled
          exact h.installing d hinstalled
        · simp only [installedAfter, if_neg hneg] at hinstalled
          obtain rfl := Option.some.inj hinstalled
          have hpos := Multiset.count_pos.mpr (hgiven d' rfl).1
          have hcounted := h.counted d'
          show 0 < s.refs d'
          omega
    | getDmaBuf => cases hinstalled
    | @dmaBufPut d' =>
        have hinstalled : s.installing = some d := hinstalled
        rw [hinstalling, (hgiven d' rfl).2] at hinstalled
        cases hinstalled
  backed := by
    rw [hinstalling, ← installedBy_concat]
    exact hbacked
  settled hnone := by
    rw [hholder] at hnone
    cases hnone

/-- A branch that is guarded runs safely under the mutex. -/
theorem shareSafe_branch {q : HandleProg α} {rest : α → Program ShareCall Int}
    (hq : wp handleKernel ((BranchGuard c).after past) q ((BranchPost c base).after past) s.world)
    (hholder : s.holder = some t) (hsound : Sound c base s)
    (hinstalling : s.installing = installedBy past)
    (hrest : ∀ value s', s'.holder = some t → Sound c base s' → s'.installing = none →
      HandlesCounted s'.world c base → ShareSafe c base t (rest value) s') :
    ShareSafe c base t (q.lift .inl >>= rest) s := by
  induction q generalizing past s with
  | ret value =>
      obtain ⟨hcounted, hnone⟩ := wp_ret.mp hq
      rw [List.append_nil] at hnone
      exact hrest value s hholder hsound (hinstalling.trans hnone) hcounted
  | call request next ih =>
      obtain ⟨⟨hwork, -, hgiven⟩, -, hnext⟩ := wp_call.mp hq
      rw [List.append_nil] at hgiven
      intro s₁ hrely answer s₂ hstep _
      obtain ⟨hholder₁, hworld₁, hinstalling₁⟩ := hrely.inside hholder
      have hsound₁ := hrely.sound hsound
      simp only [shareStep] at hstep
      split at hstep
      swap
      · cases hstep
      obtain ⟨w', hw', rfl⟩ := Option.map_eq_some_iff.mp hstep
      have hwp := hnext answer w' (hworld₁ ▸ hw')
      rw [Guard.after_after, Post.after_after] at hwp
      have hsound₂ := hsound₁.call hholder₁ (hinstalling₁.trans hinstalling) hwork
        (hworld₁ ▸ hgiven) hw' (backed_of_wp hwp)
      refine ⟨shareGuarantee_of_sound hsound₂ (.inr hholder₁) (.inr hholder₁), ?_⟩
      refine ih answer hwp hholder₁ hsound₂ ?_
      rw [installedBy_concat, hinstalling₁, hinstalling]

/-- A call that changes nothing shared. -/
theorem shareSafe_copy {request : KCall Bool} {rest : Bool → Program ShareCall Int}
    (hcopy : (∃ u, request = .copyFromUser u) ∨ ∃ u, request = .copyToUser u)
    (h : Outside c base t s)
    (hrest : ∀ answer s', Outside c base t s' → ShareSafe c base t (rest answer) s') :
    ShareSafe c base t (perform (.inl (.inl request)) >>= rest) s := by
  intro s₁ hrely answer s₂ hstep _
  have h₁ := h.rely hrely
  have hsame : s₂ = s₁ := by
    simp only [shareStep] at hstep
    split at hstep
    · rcases hcopy with ⟨u, rfl⟩ | ⟨u, rfl⟩ <;> cases hstep <;> rfl
    · cases hstep
  subst hsame
  exact ⟨fun u _ => ShareRely.refl c base u s₂, hrest answer s₂ h₁⟩

/-- What is left of a request when it gives the mutex back. -/
theorem shareSafe_unlock {rest : Unit → Program ShareCall Int} (hholder : s.holder = some t)
    (hsound : Sound c base s) (hnone : s.installing = none)
    (hcounted : HandlesCounted s.world c base)
    (hrest : ∀ s', Outside c base t s' → ShareSafe c base t (rest ()) s') :
    ShareSafe c base t (perform (.inr .mutexUnlock) >>= rest) s := by
  intro s₁ hrely answer s₂ hstep _
  obtain ⟨hholder₁, hworld₁, hinstalling₁⟩ := hrely.inside hholder
  obtain ⟨hcount₁, hinst₁, hback₁, -⟩ := hrely.sound hsound
  cases hstep
  have hsound₂ : Sound c base { s₁ with holder := none } :=
    ⟨hcount₁, hinst₁, hback₁, fun _ => ⟨hinstalling₁.trans hnone, hworld₁ ▸ hcounted⟩⟩
  exact ⟨shareGuarantee_of_sound hsound₂ (.inr hholder₁) (.inl rfl), hrest _ ⟨hsound₂, nofun⟩⟩

/-- A request runs safely. -/
theorem shareSafe_request {kiusr : KiumdUser} (hhandle : kiusr.handle ≠ .ofInt 32 FD_TO_HANDLE)
    (h : Outside c base t s) :
    ShareSafe c base t (shareProgram c (.request kiusr)) s := by
  refine shareSafe_copy (.inl ⟨_, rfl⟩) h fun copied s₁ h₁ => ?_
  split
  · exact h₁
  intro s₂ hrely answer s₃ hstep _
  obtain ⟨hcount₂, hinst₂, hback₂, hsettled₂⟩ := (h₁.rely hrely).1
  simp only [shareStep] at hstep
  split at hstep <;> cases hstep
  rename_i hfree
  obtain ⟨hnone, hcounted⟩ := hsettled₂ hfree
  have hsound₃ : Sound c base { s₂ with holder := some t } :=
    ⟨hcount₂, hinst₂, hback₂, fun hholder => nomatch hholder⟩
  refine ⟨shareGuarantee_of_sound hsound₃ (.inl hfree) (.inr rfl), ?_⟩
  refine shareSafe_branch (handleBranch_guarded hcounted hhandle [] rfl) rfl hsound₃ hnone ?_
  intro reply s₄ hholder₄ hsound₄ hnone₄ hcounted₄
  refine shareSafe_unlock hholder₄ hsound₄ hnone₄ hcounted₄ fun s₅ h₅ => ?_
  cases reply with
  | error err => exact h₅
  | ok reply =>
      refine shareSafe_copy (.inr ⟨_, rfl⟩) h₅ fun copied s₆ h₆ => ?_
      split <;> exact h₆

/-- The closing of a descriptor runs safely. -/
theorem shareSafe_close {fd : Int} (h : Outside c base t s) :
    ShareSafe c base t (shareProgram c (.close fd)) s := by
  intro s₁ hrely answer s₂ hstep hspares
  obtain ⟨hsound₁, houtside₁⟩ := h.rely hrely
  cases hstep
  have hsound₂ := hsound₁.close hspares
  have hsame : (s₁.close fd).holder = s₁.holder ∧ (s₁.close fd).world = s₁.world ∧
      (s₁.close fd).installing = s₁.installing := by
    unfold Sharing.close
    split <;> exact ⟨rfl, rfl, rfl⟩
  refine ⟨fun u _ => ⟨fun _ => hsound₂, fun hholder => ?_, fun hholder => ?_⟩, hsound₂, ?_⟩
  · exact ⟨hsame.1.trans hholder, hsame.2⟩
  · rwa [hsame.1]
  · rwa [hsame.1]

/-! ## Runs -/

variable {P : Pool Nat ShareJob ShareCall Sharing Int} {s₀ : Sharing}

/-- The state in which the threads start is sound. -/
theorem Sharing.Initial.sound (h : s₀.Initial c) : ∃ base, Sound c base s₀ := by
  obtain ⟨⟨w₀, history, hstart, hrun⟩, hcounted, hunlocked, hinstalled⟩ := h
  have hhandles := (run_handlesCounted hstart hrun).1
  refine ⟨w₀.refs, hcounted, ?_, hhandles.backed _, fun _ => ⟨hinstalled, hhandles⟩⟩
  intro d hsome
  rw [hinstalled] at hsome
  cases hsome

/-- The threads keep to their relies and guarantees. -/
theorem sharedHandles_contract : (sharedHandles c).Contract KeepsInstalling (Outside c base)
    (fun _ => SparesInstalling) (ShareRely c base) (ShareGuarantee c base)
    (fun t _ _ => Outside c base t) where
  admits _ _ _ hok := hok
  refl := ShareRely.refl c base
  trans _ _ _ _ h h' := h.trans h'
  others _ u _ _ hu hguarantee := hguarantee u hu
  idle _ _ _ hrely h := h.rely hrely
  post _ _ _ _ _ hrely h := h.rely hrely
  start := by
    rintro P t job s h ⟨rfl, hjob⟩
    refine ⟨fun u _ => .refl c base u _, ?_⟩
    cases job with
    | request kiusr => exact shareSafe_request hjob h
    | close fd => exact shareSafe_close h
  finish t _ _ s h := ⟨fun u _ => .refl c base u s, h⟩

theorem sharedHandles_sound (hstart : s₀.Initial c) (hsound : Sound c base s₀)
    (hreach : (sharedHandles c).Reach KeepsInstalling (.quiet s₀) P) :
    Sound c base P.shared := by
  refine hreach.kept sharedHandles_contract (fun t => ⟨rfl, hsound, hstart.unlocked ▸ nofun⟩)
    (fun t s s' hguarantee => ?_) hsound
  exact (hguarantee (t + 1) (Nat.succ_ne_self t)).sound

/-- In every interleaving of requests HANDLE_TO_FD and CLOSE_HANDLE with closings of descriptors,
none of which drops the last reference to a buffer that is being installed, no buffer is released
that a handle or an open descriptor names. -/
theorem sharedHandles_unreleased (hstart : s₀.Initial c)
    (hreach : (sharedHandles c).Reach KeepsInstalling (.quiet s₀) P) : Unreleased c P.shared := by
  obtain ⟨base, hsound⟩ := hstart.sound
  exact (sharedHandles_sound hstart hsound hreach).unreleased

/-- The handle holds the only reference to the buffer. -/
def oneReference : Sharing := { world := oneHandle, fds := [], refs := oneHandle.refs }

theorem oneReference_initial : oneReference.Initial 0 :=
  ⟨⟨_, _, rfl, oneHandle_run.choose_spec⟩, fun _ => le_rfl, rfl, rfl⟩

/-- The closing of a descriptor. -/
def isClose : Event ShareCall → Bool
  | ⟨.inr (.closeFd _), _⟩ => true
  | _ => false

theorem sparesInstalling_of_not_isClose {e : Event ShareCall} (h : isClose e = false) :
    SparesInstalling s e := by
  rintro fd d rfl
  cases h

/-- HANDLE_TO_FD for this handle installs the descriptor `5`. -/
theorem oneReference_installs : ∃ P, (sharedHandles 0).Reach KeepsInstalling
    (.quiet oneReference) P ∧ P.running 1 = none ∧
    P.shared = { oneReference with
      world := oneHandle.release (.dmabuf oneBuffer)
      fds := [(5, oneBuffer)]
      holder := some 0
      installing := some oneBuffer } := by
  let kiusr : KiumdUser := { plainUser with dmaBufFd := HANDLE_TO_FD }
  have hother : ∀ {e : Event ShareCall} {s : Sharing}, isClose e = false →
    SparesInstalling s e := sparesInstalling_of_not_isClose
  have hhere : (sharedHandles 0).Reach KeepsInstalling (.quiet oneReference)
    (.quiet oneReference) := .here
  have hstart := hhere.start 0 (.request kiusr) rfl ⟨rfl, by decide⟩ trivial
  have hlocked := (hstart.call 0 true rfl rfl (hother rfl)).call 0 () rfl rfl (hother rfl)
  have hloaded := hlocked.call 0 (some 0) rfl rfl (hother rfl)
  have hnamed := hloaded.call 0 (⟨.ptr oneBuffer, 1⟩ : DmaBufHandle) rfl rfl (hother rfl)
  have hinstalled := hnamed.call 0 (5 : Int) rfl rfl (hother rfl)
  exact ⟨_, hinstalled, rfl, rfl⟩

/-- While the descriptor is being installed the buffer is alive. -/
theorem sharedHandles_unreleased_installing : ∃ P,
    (sharedHandles 0).Reach KeepsInstalling (.quiet oneReference) P ∧
    P.shared.installing = some oneBuffer ∧ Unreleased 0 P.shared := by
  obtain ⟨P, hreach, -, hshared⟩ := oneReference_installs
  exact ⟨P, hreach, by rw [hshared], sharedHandles_unreleased oneReference_initial hreach⟩

theorem resume_shared {running : Nat → Option (ShareJob × Program ShareCall Int)} {job : ShareJob}
    {p : Program ShareCall Int} :
    ((sharedHandles c).resume running t job p s).shared = s := by
  cases p <;> rfl

/-- Another thread closes the descriptor before its reference is taken; the buffer of the handle is
released. -/
theorem not_sharedHandles_unreleased : ¬ ∀ c s₀ P, Sharing.Initial c s₀ →
    (sharedHandles c).Reach Move.any (.quiet s₀) P → Unreleased c P.shared := by
  intro hall
  obtain ⟨P, hreach, hidle, hshared⟩ := oneReference_installs
  have hinstalled : (sharedHandles 0).Reach Move.any (.quiet oneReference) P :=
    hreach.mono fun _ _ _ => trivial
  have hclosed := (hinstalled.start 1 (.close 5) hidle ⟨rfl, trivial⟩ trivial).call 1 () rfl rfl
    trivial
  have hunreleased := hall 0 oneReference _ oneReference_initial hclosed
  rw [resume_shared, resume_shared, hshared] at hunreleased
  rcases hunreleased.handles (0, 0) List.mem_cons_self oneBuffer rfl with halive | ⟨-, hopen⟩
  · exact absurd halive (by decide +kernel)
  · exact absurd hopen (by decide +kernel)

end SafeLinux.Kiumd
