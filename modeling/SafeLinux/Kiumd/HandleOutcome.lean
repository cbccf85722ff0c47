import SafeLinux.Kiumd.HandleCounts

/-!
# What a handle request can do

`HandleOutcome` lists what one call of `kiumd_fd_dmabuf_handler` can do to the handles of a context.
A request is refused without effect, kills its thread by an error pointer, or is served; a served
request has taken effect before its reply is copied to user space.
-/

namespace SafeLinux.Kiumd

open Effects
open Effects.Program (perform)

variable {b w w' : World} {c p : Nat} {dmabuf : KPtr DmaBuf} {kiusr : KiumdUser}
  {trace past : List (Event HandleCall)}

/-! ## Requests and their effects -/

/-- The operations of `kiumd_fd_dmabuf_handler`. -/
inductive HandleOperation where
  | fdToHandle
  | handleToFd
  | closeHandle
  deriving DecidableEq

/-- The operation a request selects. -/
def KiumdUser.operation (kiusr : KiumdUser) : Option HandleOperation :=
  if kiusr.handle = .ofInt 32 FD_TO_HANDLE then some .fdToHandle
  else if kiusr.dmaBufFd = HANDLE_TO_FD then some .handleToFd
  else if kiusr.dmaBufFd = CLOSE_HANDLE then some .closeHandle
  else none

/-- The state after `dma_buf_get` has answered. -/
def World.getRef (w : World) : KPtr DmaBuf → World
  | .ptr d => w.hold (.dmabuf d)
  | _ => w

/-- A new handle `p` for a buffer at an index of the xarray. -/
def World.addHandle (w : World) (c index p : Nat) (dmabuf : KPtr DmaBuf) : World :=
  ((w.hold (.handle p)).setHandle p ⟨dmabuf, 1⟩).setCtx c fun k =>
    { k with kiumdXa := k.kiumdXa.orderedInsert (·.1 ≤ ·.1) (index, p) }

/-- The handle `p` is closed once. -/
def World.closeOnce (w : World) (p : Nat) : World :=
  (w.countHandle p (-1)).putRef (w.handles p).dmabuf

/-- An index of the xarray is erased. -/
def World.eraseIndex (w : World) (c : Nat) (index : U32) : World :=
  w.setCtx c fun k => { k with kiumdXa := k.kiumdXa.filter (·.1 != index.toNat) }

/-- The pointer with which `dma_buf_get` has answered a call. -/
def bufferGot : {β : Type} → HandleCall β → β → Option (KPtr DmaBuf)
  | _, .inl (.dmaBufGet _), dmabuf => some dmabuf
  | _, _, _ => none

/-- `dma_buf_get` has answered with a pointer. -/
def Got (trace : List (Event HandleCall)) (dmabuf : KPtr DmaBuf) : Prop :=
  ∃ e ∈ trace, bufferGot e.call e.answer = some dmabuf

/-- Whether a call installs a descriptor. -/
def installs : {β : Type} → HandleCall β → β → Bool
  | _, .inr (.dmaBufFd _), fd => 0 ≤ fd
  | _, _, _ => false

/-- `dma_buf_fd` has installed a descriptor. -/
def Installed (trace : List (Event HandleCall)) : Prop :=
  ∃ e ∈ trace, installs e.call e.answer = true

/-- Whether a call has asked for an index in vain. -/
def lacksIndex : {β : Type} → HandleCall β → β → Bool
  | _, .inr (.xaAlloc _ _), .error _ => true
  | _, _, _ => false

/-- `xa_alloc` has failed. -/
def IndexFailed (trace : List (Event HandleCall)) : Prop :=
  ∃ e ∈ trace, lacksIndex e.call e.answer = true

theorem Got.prepend (h : Got trace dmabuf) (past : List (Event HandleCall)) :
    Got (past ++ trace) dmabuf := by
  obtain ⟨e, he, hgot⟩ := h
  exact ⟨e, List.mem_append_right past he, hgot⟩

theorem Installed.prepend (h : Installed trace) (past : List (Event HandleCall)) :
    Installed (past ++ trace) := by
  obtain ⟨e, he, hinstalls⟩ := h
  exact ⟨e, List.mem_append_right past he, hinstalls⟩

theorem IndexFailed.prepend (h : IndexFailed trace) (past : List (Event HandleCall)) :
    IndexFailed (past ++ trace) := by
  obtain ⟨e, he, hlacks⟩ := h
  exact ⟨e, List.mem_append_right past he, hlacks⟩

/-- What a served request has done, and its reply. -/
inductive ServedOutcome (w : World) (c : Nat) (kiusr : KiumdUser)
    (trace : List (Event HandleCall)) : KiumdUser → World → Prop where
  | ignored (hop : kiusr.operation = none) : ServedOutcome w c kiusr trace kiusr w
  | opened {e : Nat × Nat} {dmabuf : KPtr DmaBuf} (hop : kiusr.operation = some .fdToHandle)
      (hget : Got trace dmabuf) (he : e ∈ w.xa c) (hname : w.named e = dmabuf) :
      ServedOutcome w c kiusr trace { kiusr with handle := .ofNat 32 e.1 }
        ((w.getRef dmabuf).countHandle e.2 1)
  | made {index : U32} {p : Nat} {dmabuf : KPtr DmaBuf}
      (hop : kiusr.operation = some .fdToHandle) (hget : Got trace dmabuf) (hnull : dmabuf ≠ .null)
      (hname : dmabuf ∉ (w.xa c).map w.named) (hindex : index.toNat ∉ (w.xa c).map (·.1))
      (hp : .handle p ∉ w.held) :
      ServedOutcome w c kiusr trace { kiusr with handle := index }
        ((w.getRef dmabuf).addHandle c index.toNat p dmabuf)
  | installed {p : Nat} {d : DmaBuf} {fd : Int} (hop : kiusr.operation = some .handleToFd)
      (he : (kiusr.handle.toNat, p) ∈ w.xa c) (hname : (w.handles p).dmabuf = .ptr d)
      (hinstalled : Installed trace) :
      ServedOutcome w c kiusr trace { kiusr with dmaBufFd := fd }
        ((w.release (.dmabuf d)).hold (.dmabuf d))
  | closed {p : Nat} (hop : kiusr.operation = some .closeHandle)
      (he : (kiusr.handle.toNat, p) ∈ w.xa c)
      (hopen : wrapInt ((w.handles p).handleRefcount + -1) ≠ 0) :
      ServedOutcome w c kiusr trace { kiusr with dmaBufFd := 0 } (w.closeOnce p)
  | erased {p : Nat} (hop : kiusr.operation = some .closeHandle)
      (he : (kiusr.handle.toNat, p) ∈ w.xa c)
      (hlast : wrapInt ((w.handles p).handleRefcount + -1) = 0) :
      ServedOutcome w c kiusr trace { kiusr with dmaBufFd := 0 }
        ((w.closeOnce p).eraseIndex c kiusr.handle)

/-- A request has left the handles, the references and the handle objects as they were. -/
structure Untouched (w w' : World) (c : Nat) : Prop where
  same : HandlesSame w w' c
  held : w'.held = w.held

/-- The thread has dereferenced an error pointer; a handle object may be left over. -/
structure Killed (w w' : World) (c : Nat) (trace : List (Event HandleCall)) : Prop where
  same : HandlesSame w w' c
  got : ∃ err, Got trace (.err err)
  held : w'.held = w.held ∨
    IndexFailed trace ∧ ∃ p, .handle p ∉ w.held ∧ w'.held = .handle p ::ₘ w.held

/-- What the branch of a request can do. -/
inductive BranchOutcome (w : World) (c : Nat) (kiusr : KiumdUser)
    (trace : List (Event HandleCall)) : Option (Except Int KiumdUser) → World → Prop where
  | refused {err : Int} {w' : World} (hneg : err < 0) (huntouched : Untouched w w' c) :
      BranchOutcome w c kiusr trace (some (.error err)) w'
  | killed {w' : World} (hkilled : Killed w w' c trace) : BranchOutcome w c kiusr trace none w'
  | served {reply : KiumdUser} {w' : World} (hserved : ServedOutcome w c kiusr trace reply w') :
      BranchOutcome w c kiusr trace (some (.ok reply)) w'

theorem Untouched.refl (w : World) (c : Nat) : Untouched w w c := ⟨.refl w c, rfl⟩

theorem ServedOutcome.prepend {reply : KiumdUser} (h : ServedOutcome w c kiusr trace reply w')
    (past : List (Event HandleCall)) : ServedOutcome w c kiusr (past ++ trace) reply w' := by
  cases h with
  | ignored hop => exact .ignored hop
  | opened hop hget he hname => exact .opened hop (hget.prepend past) he hname
  | made hop hget hnull hname hindex hp =>
      exact .made hop (hget.prepend past) hnull hname hindex hp
  | installed hop he hname hinstalled => exact .installed hop he hname (hinstalled.prepend past)
  | closed hop he hopen => exact .closed hop he hopen
  | erased hop he hlast => exact .erased hop he hlast

theorem ServedOutcome.append {reply : KiumdUser} (h : ServedOutcome w c kiusr trace reply w')
    (rest : List (Event HandleCall)) : ServedOutcome w c kiusr (trace ++ rest) reply w' := by
  have hgot : ∀ {dmabuf}, Got trace dmabuf → Got (trace ++ rest) dmabuf :=
    fun ⟨e, he, hgot⟩ => ⟨e, List.mem_append_left rest he, hgot⟩
  cases h with
  | ignored hop => exact .ignored hop
  | opened hop hget he hname => exact .opened hop (hgot hget) he hname
  | made hop hget hnull hname hindex hp =>
      exact .made hop (hgot hget) hnull hname hindex hp
  | installed hop he hname hinstalled =>
      obtain ⟨e, hmem, hinstalls⟩ := hinstalled
      exact .installed hop he hname ⟨e, List.mem_append_left rest hmem, hinstalls⟩
  | closed hop he hopen => exact .closed hop he hopen
  | erased hop he hlast => exact .erased hop he hlast

theorem Killed.prepend (h : Killed w w' c trace) (past : List (Event HandleCall)) :
    Killed w w' c (past ++ trace) := by
  obtain ⟨err, hgot⟩ := h.got
  refine ⟨h.same, ⟨err, hgot.prepend past⟩, ?_⟩
  rcases h.held with hheld | ⟨hfailed, hheld⟩
  · exact .inl hheld
  · exact .inr ⟨hfailed.prepend past, hheld⟩

/-- What a branch does, as a postcondition. -/
def Branches (b : World) (c : Nat) (kiusr : KiumdUser) :
    Post HandleCall World (Except Int KiumdUser) :=
  fun trace result w => BranchOutcome b c kiusr trace result w

instance : (Branches b c kiusr).Stable where
  prepend past _ _ _ h := by
    cases h with
    | refused hneg huntouched => exact .refused hneg huntouched
    | killed hkilled => exact .killed (hkilled.prepend past)
    | served hserved => exact .served (hserved.prepend past)

/-! ## The branches -/

theorem getRef_same (w : World) (c : Nat) (dmabuf : KPtr DmaBuf) :
    HandlesSame w (w.getRef dmabuf) c := by
  cases dmabuf <;> exact ⟨rfl, fun _ _ => rfl⟩

theorem getRef_handle_mem : .handle p ∈ (w.getRef dmabuf).held ↔ .handle p ∈ w.held := by
  cases dmabuf <;> simp [World.getRef]

theorem setHandle_setHandle (w : World) (p : Nat) (handle handle' : DmaBufHandle) :
    (w.setHandle p handle).setHandle p handle' = w.setHandle p handle' := by
  simp [World.setHandle]

/-- Writing a handle that no entry names. -/
theorem HandlesSame.setHandle (h : HandlesSame w w' c) (hp : ∀ e ∈ w.xa c, e.2 ≠ p)
    (handle : DmaBufHandle) : HandlesSame w (w'.setHandle p handle) c := by
  refine ⟨h.ctxs, fun e he => ?_⟩
  rw [← h.handles e he]
  simp [World.setHandle, hp e he]

/-- `dma_buf_put` gives back what `dma_buf_get` took, or kills the thread. -/
theorem putBuffer_outcome (hnull : dmabuf ≠ .null) :
    wp handleKernel .any (putBuffer dmabuf) (fun _ result w' =>
      (∃ d, dmabuf = .ptr d ∧ result = some () ∧ w' = w.release (.dmabuf d)) ∨
      ∃ err, dmabuf = .err err ∧ result = none ∧ w' = w) w := by
  cases dmabuf with
  | null => exact absurd rfl hnull
  | err e =>
      exact wp_perform_bind.mpr
        ⟨trivial, fun _ => .inr ⟨e, rfl, rfl, rfl⟩, fun answer => answer.elim⟩
  | ptr d =>
      refine wp_perform.mpr ⟨trivial, fun hempty => (hempty.false ()).elim, ?_⟩
      rintro ⟨⟩ w' hstep
      cases hstep
      exact .inl ⟨d, rfl, rfl, rfl⟩

/-- What making a handle for a buffer can do. -/
def MakesHandle (b : World) (c : Nat) (dmabuf : KPtr DmaBuf) :
    Post HandleCall World (Except Int U32) :=
  fun trace result w =>
    match result with
    | some (.ok index) => index.toNat ∉ (b.xa c).map (·.1) ∧
        ∃ p, .handle p ∉ b.held ∧ w = (b.getRef dmabuf).addHandle c index.toNat p dmabuf
    | some (.error err) => err < 0 ∧ Untouched b w c
    | none => (∃ err, dmabuf = .err err) ∧ HandlesSame b w c ∧ (w.held = b.held ∨
        IndexFailed trace ∧ ∃ p, .handle p ∉ b.held ∧ w.held = .handle p ::ₘ b.held)

instance : (MakesHandle b c dmabuf).Stable where
  prepend past _ result _ h := by
    match result, h with
    | some (.ok _), h => exact h
    | some (.error _), h => exact h
    | none, ⟨herr, hsame, .inl hheld⟩ => exact ⟨herr, hsame, .inl hheld⟩
    | none, ⟨herr, hsame, .inr ⟨hfailed, hheld⟩⟩ =>
        exact ⟨herr, hsame, .inr ⟨hfailed.prepend past, hheld⟩⟩

/-- The state in which a new handle `p` has been filled but has no index yet. -/
def World.fillHandle (b : World) (p : Nat) (dmabuf : KPtr DmaBuf) : World :=
  ((b.getRef dmabuf).hold (.handle p)).setHandle p ⟨dmabuf, 1⟩

theorem fillHandle_same (hlive : ∀ e ∈ b.xa c, .handle e.2 ∈ b.held) (hp : .handle p ∉ b.held)
    (dmabuf : KPtr DmaBuf) : HandlesSame b (b.fillHandle p dmabuf) c := by
  have hunnamed : ∀ e ∈ b.xa c, e.2 ≠ p := by
    rintro e he rfl
    exact hp (hlive e he)
  have hgot := getRef_same b c dmabuf
  have hheld : HandlesSame b ((b.getRef dmabuf).hold (.handle p)) c := ⟨hgot.ctxs, hgot.handles⟩
  exact hheld.setHandle hunnamed _

/-- Giving a new handle an index. -/
theorem allocIndex_makes (hlive : ∀ e ∈ b.xa c, .handle e.2 ∈ b.held) (hp : .handle p ∉ b.held)
    (hnull : dmabuf ≠ .null) :
    wp handleKernel .any (allocIndex c p dmabuf) (MakesHandle b c dmabuf)
      (b.fillHandle p dmabuf) := by
  have hsame := fillHandle_same hlive hp dmabuf
  refine wp_op fun allocated w₁ hstep => ?_
  cases allocated with
  | error err =>
      simp only [handleStep] at hstep
      split at hstep <;> cases hstep
      rename_i hneg
      rw [wp_bind]
      refine wp_mono (putBuffer_outcome hnull) ?_
      rintro trace result w₂ (⟨d, rfl, rfl, rfl⟩ | ⟨e, rfl, rfl, rfl⟩)
      · refine wp_ask fun _ w₃ hstep => ?_
        cases hstep
        refine wp_pure.mpr ⟨hneg, ⟨hsame.ctxs, hsame.handles⟩, ?_⟩
        -- the reference and the object are given back
        simp [World.fillHandle, World.setHandle, World.getRef, Multiset.erase_cons_tail]
      · have hfailed : IndexFailed ([⟨.inr (.xaAlloc c p), .error err⟩] ++ trace) :=
          ⟨_, List.mem_cons_self, rfl⟩
        exact ⟨⟨e, rfl⟩, hsame, .inr ⟨hfailed, p, hp, rfl⟩⟩
  | ok index =>
      simp only [handleStep] at hstep
      split at hstep <;> cases hstep
      rename_i hindex
      rw [hsame.xa] at hindex
      exact wp_pure.mpr ⟨hindex, p, hp, rfl⟩

/-- Making a handle for a buffer. -/
theorem makeHandle_makes (hlive : ∀ e ∈ b.xa c, .handle e.2 ∈ b.held) (hnull : dmabuf ≠ .null) :
    wp handleKernel .any (makeHandle c dmabuf) (MakesHandle b c dmabuf) (b.getRef dmabuf) := by
  unfold makeHandle
  refine wp_op fun found w₁ hstep => wp_after ?_
  cases found with
  | none =>
      cases hstep
      refine wp_then (putBuffer_outcome hnull) ?_ ?_
      · rintro _ _ w₂ (⟨d, rfl, _, rfl⟩ | ⟨err, _, hnone, _⟩)
        · refine wp_pure.mpr ⟨by decide, ⟨rfl, fun _ _ => rfl⟩, ?_⟩
          simp [World.getRef]
        · cases hnone
      · rintro _ w₂ (⟨d, _, hsome, _⟩ | ⟨err, rfl, _, rfl⟩)
        · cases hsome
        · exact ⟨⟨err, rfl⟩, .refl _ c, .inl rfl⟩
  | some p =>
      simp only [handleStep] at hstep
      split at hstep <;> cases hstep
      rename_i hp
      refine wp_op fun _ w₂ hstep => wp_after ?_
      cases hstep
      rw [setHandle_setHandle]
      exact allocIndex_makes hlive (fun hmem => hp (getRef_handle_mem.mpr hmem)) hnull

/-- FD_TO_HANDLE. -/
theorem fdToHandle_branches (hlive : ∀ e ∈ b.xa c, .handle e.2 ∈ b.held)
    (hop : kiusr.operation = some .fdToHandle) :
    wp handleKernel .any (fdToHandle c kiusr) (Branches b c kiusr) b := by
  unfold fdToHandle
  split
  · exact wp_pure.mpr (.refused (by decide) (.refl b c))
  refine wp_ask fun dmabuf w₁ hstep => ?_
  have hgot : w₁ = b.getRef dmabuf := by
    cases dmabuf with
    | null | ptr => cases hstep; rfl
    | err e =>
        simp only [kernelStep] at hstep
        split at hstep <;> cases hstep
        rfl
  subst hgot
  split
  · rename_i hnull
    rw [hnull]
    exact wp_pure.mpr (.refused (by decide) (.refl b c))
  rename_i hnull
  have hsame := getRef_same b c dmabuf
  -- the answer of `dma_buf_get` is the first call of what follows
  have hfirst : ∀ trace, Got ([⟨.inl (.dmaBufGet kiusr.dmaBufFd), dmabuf⟩] ++ trace) dmabuf :=
    fun trace => ⟨_, List.mem_cons_self, rfl⟩
  refine wp_op fun entries w₂ hstep => ?_
  simp only [handleStep] at hstep
  split at hstep <;> cases hstep
  rename_i hentries
  subst hentries
  have hlive₁ : ∀ e ∈ (b.getRef dmabuf).xa c, .handle e.2 ∈ (b.getRef dmabuf).held := by
    intro e he
    rw [hsame.xa] at he
    exact getRef_handle_mem.mpr (hlive e he)
  rw [wp_bind]
  refine wp_mono (findHandle_finds (fun e he => he) hlive₁) ?_
  rintro trace result w₃ (⟨rfl, rfl, hnames⟩ | ⟨e, he, rfl, hname, rfl, _⟩)
  · have hname : dmabuf ∉ (b.xa c).map b.named := by
      intro hmem
      obtain ⟨e, he, heq⟩ := List.mem_map.mp hmem
      exact hnames e (hsame.xa ▸ he) ((hsame.named he).trans heq)
    rw [Post.andThen_some, wp_bind]
    refine wp_mono (makeHandle_makes hlive hnull) ?_
    intro trace' result w₄ hmakes
    cases result with
    | none =>
        obtain ⟨⟨err, herr⟩, hsame', hheld⟩ := hmakes
        subst herr
        refine .killed ⟨hsame', ⟨err, hfirst _⟩, ?_⟩
        rcases hheld with hheld | ⟨hfailed, hheld⟩
        · exact .inl hheld
        · exact .inr ⟨((hfailed.prepend _).prepend _).prepend _, hheld⟩
    | some made =>
    cases made with
    | error err => exact wp_pure.mpr (.refused hmakes.1 hmakes.2)
    | ok index =>
        obtain ⟨hindex, p, hp, hw⟩ := hmakes
        subst hw
        exact wp_pure.mpr (.served (.made hop (hfirst _) hnull hname hindex hp))
  · rw [hsame.xa] at he
    rw [hsame.named he] at hname
    exact wp_pure.mpr (.served (.opened hop (hfirst _) he hname))

/-- HANDLE_TO_FD. -/
theorem handleToFd_branches (hlive : ∀ e ∈ b.xa c, .handle e.2 ∈ b.held)
    (hop : kiusr.operation = some .handleToFd) :
    wp handleKernel .any (handleToFd c kiusr) (Branches b c kiusr) b := by
  have hrefused : ∀ err < 0, wp handleKernel .any
      (pure (.error err) : HandleProg (Except Int KiumdUser)) (Branches b c kiusr) b :=
    fun err hneg => wp_pure.mpr (.refused hneg (.refl b c))
  refine wp_op fun found w₁ hstep => wp_after ?_
  cases found with
  | none =>
      simp only [handleStep] at hstep
      split at hstep <;> cases hstep
      exact hrefused _ (by decide)
  | some p =>
  obtain ⟨rfl, he⟩ := xaLoad_step hstep
  refine wp_ask fun handle w₂ hstep => wp_after ?_
  obtain ⟨rfl, rfl⟩ := readHandle_step hstep (hlive _ he)
  split
  · rename_i d hname
    refine wp_op fun fd w₃ hstep => ?_
    cases hstep
    split
    · rename_i hneg
      rw [if_neg (not_le.mpr hneg)]
      exact wp_pure.mpr (.refused (by decide) (.refl _ c))
    · rename_i hnonneg
      rw [if_pos (not_lt.mp hnonneg)]
      refine wp_op fun _ w₄ hstep => ?_
      cases hstep
      have hinstalled : Installed ([⟨.inr (.dmaBufFd d), fd⟩] ++
          ([⟨.inr (.getDmaBuf d), ()⟩] ++ [])) :=
        ⟨_, List.mem_cons_self, decide_eq_true (not_lt.mp hnonneg)⟩
      exact wp_pure.mpr (.served (.installed hop he hname hinstalled))
  · exact hrefused _ (by decide)

/-- CLOSE_HANDLE. -/
theorem closeHandle_branches (hlive : ∀ e ∈ b.xa c, .handle e.2 ∈ b.held)
    (hop : kiusr.operation = some .closeHandle) :
    wp handleKernel .any (closeHandle c kiusr) (Branches b c kiusr) b := by
  refine wp_op fun found w₁ hstep => wp_after ?_
  cases found with
  | none =>
      simp only [handleStep] at hstep
      split at hstep <;> cases hstep
      exact wp_pure.mpr (.refused (by decide) (.refl _ c))
  | some p =>
  obtain ⟨rfl, he⟩ := xaLoad_step hstep
  refine wp_ask fun handle w₂ hstep => wp_after ?_
  obtain ⟨rfl, rfl⟩ := readHandle_step hstep (hlive _ he)
  have hcount : ((w₂.countHandle p (-1)).handles p).handleRefcount =
      wrapInt ((w₂.handles p).handleRefcount + -1) := by
    simp [World.countHandle, World.setHandle]
  refine wp_op fun zero w₃ hstep => wp_after ?_
  simp only [handleStep] at hstep
  split at hstep <;> cases hstep
  rename_i hzero
  rw [hcount] at hzero
  split
  · rename_i hlast
    refine putReal_puts (wp_op fun _ w₄ hstep => wp_after ?_)
    cases hstep
    exact wp_pure.mpr (.served (.erased hop he (by simpa [hzero] using hlast)))
  · rename_i hlast
    exact putReal_puts (wp_pure.mpr (.served (.closed hop he (by simpa [hzero] using hlast))))

/-- What the branch of a request can do. -/
theorem handleBranch_branches (hlive : ∀ e ∈ b.xa c, .handle e.2 ∈ b.held) :
    wp handleKernel .any (handleBranch c kiusr) (Branches b c kiusr) b := by
  unfold handleBranch
  split
  · rename_i hfd
    exact fdToHandle_branches hlive (if_pos hfd)
  rename_i hfd
  split
  · rename_i hhandle
    exact handleToFd_branches hlive ((if_neg hfd).trans (if_pos hhandle))
  rename_i hhandle
  split
  · rename_i hclose
    exact closeHandle_branches hlive ((if_neg hfd).trans ((if_neg hhandle).trans (if_pos hclose)))
  · rename_i hclose
    exact wp_pure.mpr (.served (.ignored
      ((if_neg hfd).trans ((if_neg hhandle).trans (if_neg hclose)))))

/-! ## The calls of the branches -/

/-- The reply a call copies to user space, and whether it is copied. -/
def repliedBy : {β : Type} → HandleCall β → β → Option (KiumdUser × Bool)
  | _, .inl (.copyToUser (.user reply)), copied => some (reply, copied)
  | _, _, _ => none

/-- The reply of a request, and whether it was copied to user space. -/
def replyOf (trace : List (Event HandleCall)) : Option (KiumdUser × Bool) :=
  trace.findSome? fun e => repliedBy e.call e.answer

/-- The calls that do not reply. -/
def Unreplying : (β : Type) → HandleCall β → Prop := fun _ request =>
  ∀ answer, repliedBy request answer = none

/-- The calls that neither reply nor install a descriptor. -/
def Inner : (β : Type) → HandleCall β → Prop := fun β request =>
  Unreplying β request ∧ ∀ answer, installs request answer = false

theorem replyOf_unreplying (h : Among Unreplying trace) : replyOf trace = none :=
  List.findSome?_eq_none_iff.mpr fun e he => h e he e.answer

theorem not_installed_inner (h : Among Inner trace) : ¬ Installed trace := by
  rintro ⟨e, he, hinstalls⟩
  rw [(h e he).2] at hinstalls
  cases hinstalls

theorem putBuffer_inner (dmabuf : KPtr DmaBuf) : (putBuffer dmabuf).Only Inner := by
  cases dmabuf with
  | null | err => exact .then ⟨fun _ => rfl, fun _ => rfl⟩ fun answer => answer.elim
  | ptr d => exact .perform ⟨fun _ => rfl, fun _ => rfl⟩

theorem putReal_inner (dmabuf : KPtr DmaBuf) : (putReal dmabuf).Only Inner := by
  cases dmabuf with
  | null | err => exact .pure ()
  | ptr d => exact .perform ⟨fun _ => rfl, fun _ => rfl⟩

theorem findHandle_inner (dmabuf : KPtr DmaBuf) (l : List (Nat × Nat)) :
    (findHandle dmabuf l).Only Inner := by
  induction l with
  | nil => exact .pure none
  | cons e l ih =>
      refine .then ⟨fun _ => rfl, fun _ => rfl⟩ fun entry => ?_
      split
      · exact .then ⟨fun _ => rfl, fun _ => rfl⟩ fun _ => .pure _
      · exact ih

theorem makeHandle_inner (c : Nat) (dmabuf : KPtr DmaBuf) :
    (makeHandle c dmabuf).Only Inner := by
  refine .then ⟨fun _ => rfl, fun _ => rfl⟩ fun found => ?_
  cases found with
  | none => exact (putBuffer_inner dmabuf).bind fun _ => .pure _
  | some p =>
      refine .then ⟨fun _ => rfl, fun _ => rfl⟩ fun _ => ?_
      refine .then ⟨fun _ => rfl, fun _ => rfl⟩ fun allocated => ?_
      cases allocated with
      | ok index => exact .pure _
      | error err =>
          refine (putBuffer_inner dmabuf).bind fun _ => ?_
          exact .then ⟨fun _ => rfl, fun _ => rfl⟩ fun _ => .pure _

theorem fdToHandle_inner (c : Nat) (kiusr : KiumdUser) : (fdToHandle c kiusr).Only Inner := by
  unfold fdToHandle
  split
  · exact .pure _
  refine .then ⟨fun _ => rfl, fun _ => rfl⟩ fun dmabuf => ?_
  split
  · exact .pure _
  refine .then ⟨fun _ => rfl, fun _ => rfl⟩ fun entries => ?_
  refine (findHandle_inner dmabuf entries).bind fun found => ?_
  cases found with
  | some index => exact .pure _
  | none =>
      refine (makeHandle_inner c dmabuf).bind fun made => ?_
      cases made <;> exact .pure _

theorem closeHandle_inner (c : Nat) (kiusr : KiumdUser) : (closeHandle c kiusr).Only Inner := by
  refine .then ⟨fun _ => rfl, fun _ => rfl⟩ fun found => ?_
  cases found with
  | none => exact .pure _
  | some p =>
      refine .then ⟨fun _ => rfl, fun _ => rfl⟩ fun handle => ?_
      refine .then ⟨fun _ => rfl, fun _ => rfl⟩ fun zero => ?_
      split
      · exact (putReal_inner _).bind fun _ => .then ⟨fun _ => rfl, fun _ => rfl⟩ fun _ => .pure _
      · exact (putReal_inner _).bind fun _ => .pure _

theorem handleToFd_unreplying (c : Nat) (kiusr : KiumdUser) :
    (handleToFd c kiusr).Only Unreplying := by
  refine .then (fun _ => rfl) fun found => ?_
  cases found with
  | none => exact .pure _
  | some p =>
      refine .then (fun _ => rfl) fun handle => ?_
      split
      · refine .then (fun _ => rfl) fun fd => ?_
        split
        · exact .pure _
        · exact .then (fun _ => rfl) fun _ => .pure _
      · exact .pure _

/-- HANDLE_TO_FD installs a descriptor only if it succeeds. -/
theorem handleToFd_installs :
    wp handleKernel .any (handleToFd c kiusr)
      (fun trace result _ => Installed trace → ∃ reply, result = some (.ok reply)) w := by
  refine wp_op fun found w₁ _ => ?_
  cases found with
  | none => exact wp_pure.mpr fun h => by simp [Installed, installs] at h
  | some p =>
      refine wp_ask fun handle w₂ _ => ?_
      split
      · refine wp_op fun fd w₃ _ => ?_
        split
        · rename_i hneg
          refine wp_pure.mpr fun h => ?_
          have hfd : 0 ≤ fd := by simpa [Installed, installs] using h
          exact absurd hneg (not_lt.mpr hfd)
        · exact wp_op fun _ w₄ _ => wp_pure.mpr fun _ => ⟨_, rfl⟩
      · exact wp_pure.mpr fun h => by simp [Installed, installs] at h

/-- What the calls of a branch tell: no branch replies, and only a successful HANDLE_TO_FD installs
a descriptor. -/
theorem handleBranch_calls :
    wp handleKernel .any (handleBranch c kiusr) (fun trace result _ => Among Unreplying trace ∧
      (Installed trace → kiusr.operation = some .handleToFd ∧
        ∃ reply, result = some (.ok reply))) w := by
  have hinner : ∀ {p : HandleProg (Except Int KiumdUser)}, p.Only Inner →
      wp handleKernel .any p (fun trace result _ => Among Unreplying trace ∧
        (Installed trace → kiusr.operation = some .handleToFd ∧
          ∃ reply, result = some (.ok reply))) w := fun hp =>
    wp_mono (wp_among hp) fun _ _ _ h =>
      ⟨fun e he => (h e he).1, fun hinstalled => absurd hinstalled (not_installed_inner h)⟩
  unfold handleBranch
  split
  · exact hinner (fdToHandle_inner c kiusr)
  rename_i hfd
  split
  · rename_i hhandle
    have hop : kiusr.operation = some .handleToFd := (if_neg hfd).trans (if_pos hhandle)
    refine wp_mono (wp_and (wp_among (handleToFd_unreplying c kiusr)) handleToFd_installs) ?_
    rintro trace result w' ⟨hcalls, hinstalls⟩
    exact ⟨hcalls, fun hinstalled => ⟨hop, hinstalls hinstalled⟩⟩
  split
  · exact hinner (closeHandle_inner c kiusr)
  · exact hinner (.pure _)

/-! ## The handler -/

/-- What a request can do. -/
inductive HandlerOutcome (w : World) (c : Nat) (kiusr : KiumdUser)
    (trace : List (Event HandleCall)) : Option Int → World → Prop where
  | refused {ret : Int} {w' : World} (hneg : ret < 0) (hreply : replyOf trace = none)
      (hinstalled : ¬ Installed trace) (huntouched : Untouched w w' c) :
      HandlerOutcome w c kiusr trace (some ret) w'
  | killed {w' : World} (hreply : replyOf trace = none) (hkilled : Killed w w' c trace) :
      HandlerOutcome w c kiusr trace none w'
  | served {reply : KiumdUser} {copied : Bool} {w' : World}
      (hreply : replyOf trace = some (reply, copied))
      (hserved : ServedOutcome w c kiusr trace reply w')
      (hinstalled : Installed trace → kiusr.operation = some .handleToFd) :
      HandlerOutcome w c kiusr trace (some (if copied then 0 else -EFAULT)) w'

/-- The events of a request that is served: its copy, its branch and its reply. -/
theorem replyOf_served {trace : List (Event HandleCall)} {reply : KiumdUser} {copied : Bool}
    (h : Among Unreplying trace) :
    replyOf ([⟨.inl (.copyFromUser (.user kiusr)), true⟩] ++
      (trace ++ [⟨.inl (.copyToUser (.user reply)), copied⟩])) = some (reply, copied) := by
  have hfirst : replyOf [⟨.inl (.copyFromUser (.user kiusr)), true⟩] = none := rfl
  have hbranch := replyOf_unreplying h
  rw [replyOf] at hfirst hbranch ⊢
  rw [List.findSome?_append, List.findSome?_append, hfirst, hbranch]
  rfl

/-- A request of a context whose entries name allocated handles. -/
theorem kiumdFdDmabufHandler_outcome (hlive : ∀ e ∈ b.xa c, .handle e.2 ∈ b.held) :
    wp handleKernel .any (kiumdFdDmabufHandler kiusr (some c))
      (fun trace result w => HandlerOutcome b c kiusr trace result w) b := by
  refine wp_ask fun copied w₁ hstep => ?_
  cases hstep
  cases copied with
  | false =>
      refine wp_pure.mpr (.refused (by decide) rfl ?_ (.refl b c))
      simp [Installed, installs]
  | true =>
  show wp handleKernel .any (handleBranch c kiusr >>= _) _ b
  rw [wp_bind]
  refine wp_mono (wp_and (handleBranch_branches hlive) handleBranch_calls) ?_
  rintro trace result w₂ ⟨hbranch, hcalls, hinstalls⟩
  have hunreplied : replyOf ([⟨.inl (.copyFromUser (.user kiusr)), true⟩] ++ trace) = none := by
    refine replyOf_unreplying fun e he => ?_
    rcases List.mem_cons.mp he with rfl | he
    · exact fun _ => rfl
    · exact hcalls e he
  have hinstalled : ∀ rest : List (Event HandleCall),
      (∀ e ∈ rest, installs e.call e.answer = false) →
      Installed ([⟨.inl (.copyFromUser (.user kiusr)), true⟩] ++ (trace ++ rest)) →
      Installed trace := by
    rintro rest hrest ⟨e, hmem, hinstalls⟩
    rcases List.mem_append.mp hmem with hfirst | hmem
    · obtain rfl := List.mem_singleton.mp hfirst
      cases hinstalls
    rcases List.mem_append.mp hmem with hmem | hmem
    · exact ⟨e, hmem, hinstalls⟩
    · rw [hrest e hmem] at hinstalls
      cases hinstalls
  cases hbranch with
  | refused hneg huntouched =>
      refine wp_pure.mpr (.refused hneg ?_ ?_ huntouched)
      · rw [List.append_nil]
        exact hunreplied
      · intro h
        obtain ⟨_, reply, hreply⟩ := hinstalls (hinstalled [] (by simp) h)
        cases hreply
  | killed hkilled => exact .killed hunreplied (hkilled.prepend _)
  | served hserved =>
      rename_i reply
      refine wp_ask fun copied w₃ hstep => ?_
      cases hstep
      have hreply := @replyOf_served kiusr _ reply copied hcalls
      have hserved' := (hserved.append [⟨.inl (.copyToUser (.user reply)), copied⟩]).prepend
        [⟨.inl (.copyFromUser (.user kiusr)), true⟩]
      have houtcome := HandlerOutcome.served hreply hserved' fun h =>
        (hinstalls (hinstalled _ (List.forall_mem_singleton.mpr rfl) h)).1
      cases copied <;> exact wp_pure.mpr houtcome

/-! ## Live entries -/

/-- The entries of a context's xarray name allocated handles. -/
def World.HandlesLive (w : World) (c : Nat) : Prop := ∀ e ∈ w.xa c, .handle e.2 ∈ w.held

/-- How often a handle object is allocated. -/
def World.objects (w : World) (p : Nat) : Nat := w.held.count (.handle p)

theorem objects_getRef (w : World) (dmabuf : KPtr DmaBuf) :
    (w.getRef dmabuf).objects = w.objects := by
  funext q
  cases dmabuf <;> simp [World.getRef, World.objects]

theorem objects_addHandle (w : World) (c index p : Nat) (dmabuf : KPtr DmaBuf) (q : Nat) :
    (w.addHandle c index p dmabuf).objects q = w.objects q + if q = p then 1 else 0 := by
  simp [World.addHandle, World.setHandle, World.objects, Multiset.count_cons]

theorem objects_closeOnce (w : World) (p : Nat) : (w.closeOnce p).objects = w.objects := by
  funext q
  have hput : ∀ dmabuf : KPtr DmaBuf,
      ((w.countHandle p (-1)).putRef dmabuf).held.count (.handle q) = w.held.count (.handle q) := by
    intro dmabuf
    cases dmabuf with
    | null | err => rfl
    | ptr d => exact Multiset.count_erase_of_ne (by simp) _
  exact hput _

theorem xa_getRef (w : World) (dmabuf : KPtr DmaBuf) : (w.getRef dmabuf).xa = w.xa := by
  cases dmabuf <;> rfl

theorem xa_addHandle (w : World) (c index p : Nat) (dmabuf : KPtr DmaBuf) :
    (w.addHandle c index p dmabuf).xa c =
      (w.xa c).orderedInsert (·.1 ≤ ·.1) (index, p) := by
  simp [World.addHandle, World.xa, World.setHandle]

theorem xa_closeOnce (w : World) (p : Nat) : (w.closeOnce p).xa = w.xa := by
  funext c
  rw [World.closeOnce, World.xa, putRef_ctxs]
  rfl

theorem xa_eraseIndex (w : World) (c : Nat) (index : U32) :
    (w.eraseIndex c index).xa c = (w.xa c).filter (·.1 != index.toNat) := by
  simp [World.eraseIndex, World.xa]

theorem handle_mem_iff {q : Nat} : .handle q ∈ w.held ↔ 0 < w.objects q :=
  Multiset.count_pos.symm

/-- A served request leaves the entries alive. -/
theorem ServedOutcome.live {reply : KiumdUser} (h : ServedOutcome w c kiusr trace reply w')
    (hlive : w.HandlesLive c) : w'.HandlesLive c := by
  have hkept : ∀ {u : World}, u.xa c = w.xa c → u.objects = w.objects → u.HandlesLive c := by
    intro u hxa hobjects e he
    rw [hxa] at he
    rw [handle_mem_iff, hobjects, ← handle_mem_iff]
    exact hlive e he
  cases h with
  | ignored hop => exact hlive
  | opened hop hget he hname => exact hkept (congrFun (xa_getRef w _) c) (objects_getRef w _)
  | @made index p dmabuf =>
      intro e he
      rw [xa_addHandle, (List.perm_orderedInsert _ _ _).mem_iff, List.mem_cons, xa_getRef] at he
      rw [handle_mem_iff, objects_addHandle, objects_getRef]
      rcases he with rfl | he
      · simp
      · have := handle_mem_iff.mp (hlive e he)
        omega
  | installed hop he hname hinstalled =>
      intro e he
      exact Multiset.mem_cons_of_mem ((Multiset.mem_erase_of_ne (by simp)).mpr (hlive e he))
  | closed hop he hopen => exact hkept (congrFun (xa_closeOnce w _) c) (objects_closeOnce w _)
  | @erased p hop he hlast =>
      intro e he'
      rw [xa_eraseIndex, xa_closeOnce] at he'
      have hmem : .handle e.2 ∈ (w.closeOnce p).held := by
        rw [handle_mem_iff, objects_closeOnce, ← handle_mem_iff]
        exact hlive e (List.mem_of_mem_filter he')
      exact hmem

theorem Untouched.live (h : Untouched w w' c) (hlive : w.HandlesLive c) : w'.HandlesLive c := by
  intro e he
  rw [h.same.xa] at he
  rw [h.held]
  exact hlive e he

theorem Killed.live (h : Killed w w' c trace) (hlive : w.HandlesLive c) : w'.HandlesLive c := by
  intro e he
  rw [h.same.xa] at he
  rcases h.held with hheld | ⟨_, p, _, hheld⟩ <;> rw [hheld]
  · exact hlive e he
  · exact Multiset.mem_cons_of_mem (hlive e he)

theorem HandlerOutcome.live {result : Option Int} (h : HandlerOutcome w c kiusr trace result w')
    (hlive : w.HandlesLive c) : w'.HandlesLive c := by
  cases h with
  | refused _ _ _ huntouched => exact huntouched.live hlive
  | killed _ hkilled => exact hkilled.live hlive
  | served _ hserved _ => exact hserved.live hlive

/-- The entries of a context name allocated handles in every state of a run. -/
theorem run_handlesLive {ok : Admission KiumdUser HandleCall World} {w₀ : World}
    {history : History KiumdUser HandleCall} (hstart : w₀.ctxs c = {})
    (h : Run handleKernel (fun kiusr => kiumdFdDmabufHandler kiusr (some c)) ok w₀ history w) :
    w.HandlesLive c := by
  refine h.invariant (fun _ w => w.HandlesLive c) ?_ ?_
  · intro e he
    rw [World.xa, hstart] at he
    cases he
  · intro history kiusr w hlive
    exact wp_mono (kiumdFdDmabufHandler_outcome hlive) fun trace _ w' houtcome _ =>
      houtcome.live hlive

/-- The parts of a context that handle requests do not concern. -/
theorem HandlerOutcome.rest {result : Option Int} (h : HandlerOutcome w c kiusr trace result w') :
    (w'.ctxs c).smmuTable = (w.ctxs c).smmuTable ∧
      (w'.ctxs c).resMemArea = (w.ctxs c).resMemArea := by
  have hgot : ∀ dmabuf, (w.getRef dmabuf).ctxs = w.ctxs := fun dmabuf => by cases dmabuf <;> rfl
  have hclosed : ∀ p, (w.closeOnce p).ctxs = w.ctxs := fun p => putRef_ctxs _ _
  cases h with
  | refused _ _ _ huntouched => simp [huntouched.same.ctxs]
  | killed _ hkilled => simp [hkilled.same.ctxs]
  | served _ hserved _ =>
      cases hserved with
      | ignored | installed => exact ⟨rfl, rfl⟩
      | opened => simp [World.countHandle, World.setHandle, hgot]
      | made => simp [World.addHandle, World.setHandle, hgot]
      | closed => simp [hclosed]
      | erased => simp [World.eraseIndex, hclosed]

/-! ## Closing the one handle of a context -/

/-- A request to close a handle. -/
def closeRequest (index : U32) : KiumdUser :=
  { plainUser with dmaBufFd := CLOSE_HANDLE, handle := index }

theorem oneHandle_live : oneHandle.HandlesLive 0 := by
  obtain ⟨history, hrun⟩ := oneHandle_run
  exact run_handlesLive rfl hrun

/-- The calls with which CLOSE_HANDLE erases the handle. -/
def closeOneCalls (copied : Bool) : List (Event HandleCall) :=
  [⟨.inl (.copyFromUser (.user (closeRequest 0))), true⟩, ⟨.inr (.xaLoad 0 0), some 0⟩,
    ⟨.inl (.readHandle 0), ⟨.ptr oneBuffer, 1⟩⟩, ⟨.inr (.atomicDecAndTest 0), true⟩,
    ⟨.inl (.dmaBufPut oneBuffer), ()⟩, ⟨.inr (.xaErase 0 0), ()⟩,
    ⟨.inl (.copyToUser (.user { closeRequest 0 with dmaBufFd := 0 })), copied⟩]

theorem closeOne_exec (copied : Bool) :
    Exec handleKernel (kiumdFdDmabufHandler (closeRequest 0) (some 0)) oneHandle
      (closeOneCalls copied) (some (if copied then 0 else -EFAULT))
      ((oneHandle.closeOnce 0).eraseIndex 0 0) := by
  refine .call rfl (.call rfl (.call rfl (.call rfl (.call rfl (.call rfl ?_)))))
  cases copied <;> exact .call rfl (.ret _ _)

end SafeLinux.Kiumd
