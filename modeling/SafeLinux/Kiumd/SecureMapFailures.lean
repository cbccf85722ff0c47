import SafeLinux.Kiumd.BufferParts
import SafeLinux.Kiumd.Creators
import SafeLinux.Kiumd.ScmRoundTrip
import SafeLinux.Kiumd.SecureOutcome
import SafeLinux.Kiumd.SecurePage
import SafeLinux.Kiumd.UnmapCalls
import Mathlib.Data.List.TakeWhile

/-!
# Failed secure mappings

SECURE_MAP hands over the page table and the entries of the buffer one by one, and has five labels
to which its failures jump. `secure_map_undone_iff` says which failures leave everything as it was:
memory that has been handed over up to a failing entry is never taken back, a failed mapping leaves
an error pointer where a table is expected, and three labels leave out what is above them.
-/

namespace SafeLinux.Kiumd

open Effects Handovers
open Effects.Program (perform)

/-! ## What is promised -/

/-- The owners of all memory, the tables with their entries, and all references, attachments,
mappings and heap objects are as before. -/
structure SecureUndone (w w' : World) : Prop where
  owner : w'.owner = w.owner
  tables : w'.ctxs = w.ctxs
  entries : w'.smaps = w.smaps
  held : w'.held = w.held

/-- Memory has not been assigned. -/
def Act.assignFails : Act → Bool
  | .assign _ _ _ ret => ret ≠ 0
  | _ => false

/-- The page table is taken back. -/
def Act.isPageUndo : Act → Bool
  | .assign (.pgd _) _ dst _ => dst = hlosAlone
  | _ => false

/-- The reply could not be copied to the user. -/
def Act.replyFails : Act → Bool
  | .reply _ copied => !copied
  | _ => false

/-- The page table is taken back whenever this is asked for, and so is all memory after a failed
reply. -/
def UndosSucceed (as : List Act) : Prop :=
  (∀ act ∈ as, act.isPageUndo = true → act.assignFails = false) ∧
    ∀ act ∈ as.dropWhile (fun act => !act.replyFails), act.assignFails = false

instance (as : List Act) : Decidable (UndosSucceed as) := inferInstanceAs (Decidable (_ ∧ _))

/-- A call that could not map an attachment. -/
def KCall.mapFails : {β : Type} → KCall β → β → Bool
  | _, .dmaBufMapAttachment _ _, .err _ => true
  | _, _, _ => false

/-- An attachment could not be mapped. -/
def MapFailed (trace : List (Event KCall)) : Prop :=
  ∃ e ∈ trace, e.call.mapFails e.answer = true

/-- The error pointer that the last call has returned for a table is dereferenced. -/
def UsesErrorPointer (trace : List (Event KCall)) (result : Option Int) : Prop :=
  result = none ∧ ∃ e ∈ trace.getLast?, e.call.mapFails e.answer = true

/-- A failure leaves everything as it was if memory could be taken back, and no error pointer is
used as a table. -/
structure SecureMapSafe (w : World) (trace : List (Event KCall)) (result : Option Int)
    (w' : World) : Prop where
  undone : ∀ ret, result = some ret → ret ≠ 0 → UndosSucceed (acts trace) → SecureUndone w w'
  noError : ¬ UsesErrorPointer trace result

/-! ## When it is kept -/

/-- Where the page table is taken back, it belonged to HLOS alone before, and every entry handed
over belonged to those it has been handed to. -/
def OwnersReturn (w : World) (as : List Act) : Prop :=
  ∀ page src ret, .assign (.pgd page) src hlosAlone ret ∈ as →
    (MemRange.pgd page).OwnedBy w.owner hlos ∧
      ∀ e src dst, .assign (.sg e) src dst 0 ∈ as → (MemRange.sg e).OwnedBy w.owner (ownersOf dst)

/-- The attachment has been mapped where that was tried, a buffer that was looked up has been
attached, and a buffer that was mapped has got an entry. Where memory could be taken back, the
reply has been copied and the owners of what has been handed over are those before. -/
structure UndoesAll (w : World) (trace : List (Event KCall)) : Prop where
  mapped : ¬ MapFailed trace
  attached : (∃ fd d, .buffer fd d ∈ acts trace) → ∃ d a, .attach d a ∈ acts trace
  allocated : (∃ a dir t, .mapAttachment a dir t ∈ acts trace) → ∃ p, .alloc p ∈ acts trace
  undone : UndosSucceed (acts trace) →
    (∀ act ∈ acts trace, act.replyFails = false) ∧ OwnersReturn w (acts trace)

/-! ## What is held -/

/-- What SECURE_MAP holds when it ends: as much as before, a file whose device could not be read, a
buffer that has not been attached, or whatever is left after an attempt to map the attachment. -/
inductive SecureMapEnds (b : World) : Post KCall World Int where
  | halted {f : File} {trace : List (Event KCall)} {w : World} :
      Holds b (.file f ::ₘ 0) w → SecureMapEnds b trace none w
  | returned {trace : List (Event KCall)} {ret : Int} {w : World} :
      Holds b 0 w → SecureMapEnds b trace (some ret) w
  | kept {d : DmaBuf} {trace : List (Event KCall)} {ret : Int} {w : World} :
      Holds b (.dmabuf d ::ₘ 0) w → SecureMapEnds b trace (some ret) w
  | failed {trace : List (Event KCall)} {result : Option Int} {w : World} :
      MapFailed trace → SecureMapEnds b trace result w
  | mapped {a : Attachment} {dir : Int} {t : SgTable} {trace : List (Event KCall)}
      {result : Option Int} {w : World} :
      .mapAttachment a dir t ∈ acts trace → SecureMapEnds b trace result w

variable {α β : Type} {b w w' : World} {c p : Nat} {u : KiumdUser} {d : DmaBuf} {a : Attachment}
  {file : File} {acl : AclLists} {page : U64} {ret : Int} {x : Multiset Resource}
  {fp : Option (Option Nat)} {vmids perms : List Int} {t : SgTable} {src : U64}
  {dst : List QcomScmVmperm} {sgl : List SgEntry} {as bs : List Act} {result : Option Int}
  {trace past : List (Event KCall)}

instance : (SecureMapEnds b).Stable where
  prepend past trace _ _ h := by
    cases h with
    | halted h => exact .halted h
    | returned h => exact .returned h
    | kept h => exact .kept h
    | failed h =>
        obtain ⟨e, he, hfails⟩ := h
        exact .failed ⟨e, List.mem_append_right _ he, hfails⟩
    | @mapped a dir t _ _ _ h =>
        have hmem : .mapAttachment a dir t ∈ acts (past ++ trace) := by
          rw [acts_append]
          exact List.mem_append_right _ h
        exact .mapped hmem

theorem hypAssignEntries_returns (h : Holds b x w) :
    wp kernel .any (hypAssignEntries src dst sgl) (Returns b fun _ => x) w := by
  induction sgl generalizing w with
  | nil => exact wp_pure.mpr ⟨0, rfl, h⟩
  | cons sg rest ih =>
      refine wp_holds h rfl rfl ?_
      intro ret w₁ _ h₁
      split
      · exact wp_pure.mpr ⟨ret, rfl, h₁⟩
      · exact ih h₁

/-- A list is allocated for a step and freed after it. -/
theorem withList_returns {q : KProg Int}
    (hq : ∀ y w', Holds b y w' → wp kernel .any q (Returns b fun _ => y) w') (h : Holds b x w) :
    wp kernel .any (do
      let some dst ← perform .kmallocArray | return -ENOMEM
      let ret ← q
      perform (.kfree dst)
      return ret) (Returns b fun _ => x) w := by
  refine wp_holds h rfl rfl ?_
  intro dst w₁ _ h₁
  cases dst with
  | none => exact wp_pure.mpr ⟨-ENOMEM, rfl, h₁⟩
  | some dst =>
      refine wp_returns (hq _ w₁ h₁) ?_
      intro ret w₂ h₂
      refine wp_holds_give h₂ rfl ?_
      intro w₃ h₃
      exact wp_pure.mpr ⟨ret, rfl, h₃⟩

theorem assignMem_returns {range : MemRange} (h : Holds b x w) :
    wp kernel .any (perform (.qcomScmAssignMem range src dst)) (Returns b fun _ => x) w := by
  rw [wp_perform]
  refine ⟨trivial, fun hempty => (hempty.false (0 : Int)).elim, ?_⟩
  intro ret w' hstep
  have hstep' : kernelStep (.qcomScmAssignMem range src dst) w ret = some w' := hstep
  exact ⟨ret, rfl, h.step rfl rfl hstep'⟩

theorem kiumdIoPgtableHypAssignPage_returns (h : Holds b x w) :
    wp kernel .any (kiumdIoPgtableHypAssignPage vmids page) (Returns b fun _ => x) w :=
  withList_returns (fun _ _ h' => assignMem_returns h') h

theorem kiumdHypAssignSg_returns (h : Holds b x w) :
    wp kernel .any (kiumdHypAssignSg t vmids perms) (Returns b fun _ => x) w := by
  unfold kiumdHypAssignSg
  split
  · exact wp_pure.mpr ⟨-EINVAL, rfl, h⟩
  split
  · exact wp_pure.mpr ⟨-EINVAL, rfl, h⟩
  · exact withList_returns (fun _ _ h' => hypAssignEntries_returns h') h

theorem aclEntries_returns {list count index : Nat} (h : Holds b x w) :
    wp kernel .any (aclEntries list count index) (Returns b fun _ => x) w := by
  induction count generalizing w index with
  | zero => exact wp_pure.mpr ⟨_, rfl, h⟩
  | succ count ih =>
      unfold aclEntries
      refine wp_holds h rfl rfl ?_
      intro entry w₁ _ h₁
      cases entry with
      | error ret => exact wp_pure.mpr ⟨_, rfl, h₁⟩
      | ok entry =>
          dsimp only
          split
          · exact wp_pure.mpr ⟨_, rfl, h₁⟩
          · refine wp_returns (ih h₁) ?_
            intro lists w₂ h₂
            cases lists <;> exact wp_pure.mpr ⟨_, rfl, h₂⟩

/-- What is held once an access control list has been read. -/
def listsHeld (x : Multiset Resource) : Except Int AclLists → Multiset Resource
  | .error _ => x
  | .ok acl => aclHeld acl x

theorem kiumdAclToVmidPermsList_returns {parcel : KiumdMemParcel} (h : Holds b x w) :
    wp kernel .any (kiumdAclToVmidPermsList parcel) (Returns b (listsHeld x)) w := by
  unfold kiumdAclToVmidPermsList
  split
  · exact wp_pure.mpr ⟨_, rfl, h⟩
  split
  · exact wp_pure.mpr ⟨_, rfl, h⟩
  refine wp_holds h rfl rfl ?_
  intro vmidsPtr w₁ _ h₁
  cases vmidsPtr with
  | none => exact wp_pure.mpr ⟨_, rfl, h₁⟩
  | some vmidsPtr =>
  refine wp_holds h₁ rfl rfl ?_
  intro permsPtr w₂ _ h₂
  cases permsPtr with
  | none =>
      refine wp_holds_give h₂ rfl ?_
      intro w₃ h₃
      exact wp_pure.mpr ⟨_, rfl, h₃⟩
  | some permsPtr =>
  refine wp_returns (aclEntries_returns h₂) ?_
  intro lists w₃ h₃
  cases lists with
  | error ret =>
      refine wp_holds_give h₃ rfl ?_
      intro w₄ h₄
      refine wp_holds_give h₄ rfl ?_
      intro w₅ h₅
      exact wp_pure.mpr ⟨_, rfl, h₅⟩
  | ok lists =>
      refine wp_pure.mpr ⟨_, rfl, ?_⟩
      show Holds b (.heap vmidsPtr ::ₘ .heap permsPtr ::ₘ x) w₃
      rw [Multiset.cons_swap]
      exact h₃

theorem kiumdGetPgd_returns {dev : Device} (h : Holds b x w) :
    wp kernel .any (kiumdGetPgd dev) (Returns b fun _ => x) w := by
  refine wp_holds h rfl rfl ?_
  intro domain w₁ _ h₁
  split
  · refine wp_holds h₁ rfl rfl ?_
    intro ttbr w₂ _ h₂
    split <;> exact wp_pure.mpr ⟨_, rfl, h₂⟩
  · exact wp_pure.mpr ⟨_, rfl, h₁⟩

/-! ### The labels -/

theorem secureCloseFile_returns (h : Holds b (.file file ::ₘ x) w) :
    wp kernel .any (secureCloseFile file ret) (Returns b fun _ => x) w := by
  refine wp_holds_give h rfl ?_
  intro w' h'
  exact wp_pure.mpr ⟨ret, rfl, h'⟩

theorem secureFreeMem_returns (h : Holds b (aclHeld acl (.file file ::ₘ x)) w) :
    wp kernel .any (secureFreeMem file acl ret) (Returns b fun _ => x) w := by
  refine wp_holds_give h rfl ?_
  intro w₁ h₁
  refine wp_holds_give h₁ rfl ?_
  intro w₂ h₂
  exact secureCloseFile_returns h₂

theorem secureDetach_returns (h : Holds b (secureHeld file acl d a x) w) :
    wp kernel .any (secureDetach file acl d a ret) (Returns b fun _ => x) w := by
  refine wp_holds_give h rfl ?_
  intro w₁ h₁
  refine wp_holds_give h₁ rfl ?_
  intro w₂ h₂
  exact secureFreeMem_returns h₂

theorem secureUnassignTable_returns (h : Holds b (secureHeld file acl d a x) w) :
    wp kernel .any (secureUnassignTable file acl d a page ret) (Returns b fun _ => x) w := by
  refine wp_returns (assignMem_returns h) ?_
  intro _ w₁ h₁
  exact secureDetach_returns h₁

/-! ### The request -/

theorem ends_of_returns {q : KProg Int} (h : wp kernel .any q (Returns b fun _ => 0) w) :
    wp kernel .any q (SecureMapEnds b) w :=
  wp_mono h fun _ _ _ ⟨_, hresult, h'⟩ => hresult ▸ .returned h'

theorem secureMapAttached_ends (h : Holds b (secureHeld file acl d a 0) w) :
    wp kernel .any (secureMapAttached u fp file acl d a page) (SecureMapEnds b) w := by
  have hdetach {w' : World} {ret : Int} (h' : Holds b (secureHeld file acl d a 0) w') :
      wp kernel .any (secureDetach file acl d a ret) (SecureMapEnds b) w' :=
    ends_of_returns (secureDetach_returns h')
  unfold secureMapAttached
  split
  · split
    · split
      · exact hdetach h
      refine wp_returns (kiumdIoPgtableHypAssignPage_returns h) ?_
      intro ret w₁ h₁
      split
      · exact hdetach h₁
      refine wp_returns (kiumdHypAssignSg_returns h₁) ?_
      intro ret w₂ h₂
      split
      · exact ends_of_returns (secureUnassignTable_returns h₂)
      refine wp_step ?_
      intro mapped w₃ hstep
      cases mapped with
      | null => cases hstep
      | err e => exact wp_always fun _ _ _ => .failed ⟨_, List.mem_cons_self, rfl⟩
      | ptr t => exact wp_always fun _ _ _ => .mapped List.mem_cons_self
    · exact hdetach h
  · exact hdetach h

/-- What SECURE_MAP holds when it ends. -/
theorem kiumdDmabufVfioSecureMap_ends :
    wp kernel .any (kiumdDmabufVfioSecureMap u fp) (SecureMapEnds w) w := by
  have h := Holds.refl w
  refine wp_holds h rfl rfl ?_
  intro copied w₁ _ h₁
  split
  · exact wp_pure.mpr (.returned h₁)
  split
  · exact wp_pure.mpr (.returned h₁)
  refine wp_holds h₁ rfl rfl ?_
  intro file w₂ _ h₂
  cases file with
  | none => exact wp_pure.mpr (.returned h₂)
  | some file =>
  have hclose {w' : World} {ret : Int} (h' : Holds w (.file file ::ₘ 0) w') :
      wp kernel .any (secureCloseFile file ret) (SecureMapEnds w) w' :=
    ends_of_returns (secureCloseFile_returns h')
  dsimp only
  split
  swap
  · exact wp_oops (.halted h₂)
  split
  swap
  · exact hclose h₂
  split
  swap
  · exact hclose h₂
  refine wp_returns (kiumdGetPgd_returns h₂) ?_
  intro found w₃ h₃
  split
  · exact hclose h₃
  refine wp_holds h₃ rfl rfl ?_
  intro buffer w₄ _ h₄
  cases buffer with
  | null | err e => exact hclose h₄
  | ptr d =>
  have hkept {q : KProg Int} {w' : World}
      (h' : wp kernel .any q (Returns w fun _ => .dmabuf d ::ₘ 0) w') :
      wp kernel .any q (SecureMapEnds w) w' :=
    wp_mono h' fun _ _ _ ⟨_, hresult, h''⟩ => hresult ▸ .kept h''
  have h₄ : Holds w (.file file ::ₘ .dmabuf d ::ₘ 0) w₄ := by
    rw [Multiset.cons_swap]
    exact h₄
  refine wp_returns (kiumdAclToVmidPermsList_returns h₄) ?_
  intro lists w₅ h₅
  cases lists with
  | error ret => exact hkept (secureCloseFile_returns h₅)
  | ok acl =>
  refine wp_holds h₅ rfl rfl ?_
  intro attached w₆ _ h₆
  cases attached with
  | error e => exact hkept (secureFreeMem_returns h₆)
  | ok a =>
      refine secureMapAttached_ends ?_
      have horder : (.attachment a ::ₘ aclHeld acl (.file file ::ₘ .dmabuf d ::ₘ 0) :
          Multiset Resource) = secureHeld file acl d a 0 := by
        simp only [secureHeld, aclHeld, ← Multiset.singleton_add]
        ac_rfl
      rw [← horder]
      exact h₆

/-! ## Error pointers -/

/-- The calls that do not fail to map an attachment. -/
def Unmapping : (β : Type) → KCall β → Prop := fun _ request =>
  ∀ answer, request.mapFails answer = false

theorem mapFailed_append : MapFailed (past ++ trace) ↔ MapFailed past ∨ MapFailed trace := by
  simp only [MapFailed, List.mem_append, or_and_right, exists_or]

theorem not_mapFailed_of_among (h : Among Unmapping trace) : ¬ MapFailed trace := by
  rintro ⟨e, he, hfails⟩
  rw [h e he e.answer] at hfails
  cases hfails

/-- A request dies of an attachment that could not be mapped. -/
def Dies : Post KCall World Int := fun trace result _ =>
  MapFailed trace → UsesErrorPointer trace result

theorem dies_pass {q : KProg Int} (hpast : ¬ MapFailed past) (h : wp kernel .any q Dies w) :
    wp kernel .any q (Dies.after past) w := by
  refine wp_mono h fun trace result w' hdies hfailed => ?_
  obtain ⟨hnone, e, he, hfails⟩ := hdies ((mapFailed_append.mp hfailed).resolve_left hpast)
  refine ⟨hnone, e, ?_, hfails⟩
  rw [Option.mem_def] at he ⊢
  rw [List.getLast?_append, he]
  rfl

theorem dies_call [Nonempty β] {request : KCall β} {rest : β → KProg Int}
    (h : Unmapping β request) (hrest : ∀ answer w', wp kernel .any (rest answer) Dies w') :
    wp kernel .any (perform request >>= rest) Dies w := by
  refine wp_step fun answer w' _ => dies_pass ?_ (hrest answer w')
  exact not_mapFailed_of_among (.cons h .nil)

theorem dies_only {q : KProg Int} (h : q.Only Unmapping) : wp kernel .any q Dies w :=
  wp_mono (wp_among h) fun _ _ _ hamong hfailed =>
    absurd hfailed (not_mapFailed_of_among hamong)

theorem dies_then {q : KProg β} {rest : β → KProg Int} {R : Post KCall World β}
    (h : q.Only Unmapping) (hR : wp kernel .any q R w)
    (hrest : ∀ trace value w', R trace (some value) w' → wp kernel .any (rest value) Dies w') :
    wp kernel .any (q >>= rest) Dies w := by
  rw [wp_bind]
  refine wp_mono (wp_and (wp_among h) hR) ?_
  rintro trace result w' ⟨hamong, hR'⟩
  have hnot := not_mapFailed_of_among hamong
  cases result with
  | none => exact fun hfailed => absurd hfailed hnot
  | some value => exact dies_pass hnot (hrest trace value w' hR')

theorem dies_oops : wp kernel .any (perform .oops >>= Empty.elim) Dies w :=
  wp_oops fun hfailed => absurd hfailed (not_mapFailed_of_among .nil)

/-- The calls of the unmap ioctls map nothing. -/
theorem unmapping_of_unmaps {q : KProg β} (h : q.Only UnmapCall) : q.Only Unmapping := by
  refine h.mono fun _ request hunmaps answer => ?_
  cases request <;> first | rfl | cases hunmaps

theorem hypAssignEntries_unmapping : (hypAssignEntries src dst sgl).Only Unmapping :=
  unmapping_of_unmaps hypAssignEntries_unmaps

theorem kiumdIoPgtableHypAssignPage_unmapping :
    (kiumdIoPgtableHypAssignPage vmids page).Only Unmapping := by
  refine .then (fun _ => rfl) fun dst => ?_
  split
  · exact .then (fun _ => rfl) fun _ => .then (fun _ => rfl) fun _ => .pure _
  · exact .pure _

theorem kiumdHypAssignSg_unmapping : (kiumdHypAssignSg t vmids perms).Only Unmapping := by
  unfold kiumdHypAssignSg
  split
  · exact .pure _
  split
  · exact .pure _
  refine .then (fun _ => rfl) fun dst => ?_
  split
  · exact hypAssignEntries_unmapping.bind fun _ => .then (fun _ => rfl) fun _ => .pure _
  · exact .pure _

theorem kiumdHypUnassignSg_unmapping : (kiumdHypUnassignSg (.ptr t) vmids).Only Unmapping :=
  unmapping_of_unmaps kiumdHypUnassignSg_unmaps

theorem kiumdAclToVmidPermsList_unmapping {parcel : KiumdMemParcel} :
    (kiumdAclToVmidPermsList parcel).Only Unmapping :=
  unmapping_of_unmaps kiumdAclToVmidPermsList_unmaps

theorem kiumdGetPgd_unmapping {dev : Device} : (kiumdGetPgd dev).Only Unmapping :=
  unmapping_of_unmaps kiumdGetPgd_unmaps

theorem secureCloseFile_unmapping : (secureCloseFile file ret).Only Unmapping :=
  unmapping_of_unmaps secureCloseFile_unmaps

theorem secureFreeMem_unmapping : (secureFreeMem file acl ret).Only Unmapping :=
  unmapping_of_unmaps secureFreeMem_unmaps

theorem secureDetach_unmapping : (secureDetach file acl d a ret).Only Unmapping :=
  .then (fun _ => rfl) fun _ => .then (fun _ => rfl) fun _ => secureFreeMem_unmapping

theorem secureUnassignTable_unmapping :
    (secureUnassignTable file acl d a page ret).Only Unmapping :=
  .then (fun _ => rfl) fun _ => secureDetach_unmapping

theorem secureMapPublish_unmapping {sgt : Option SgTable} :
    (secureMapPublish u fp file acl d a page sgt).Only Unmapping := by
  unfold secureMapPublish
  split
  swap
  · exact secureCloseFile_unmapping
  split
  swap
  · exact secureCloseFile_unmapping
  refine .then (fun _ => rfl) fun p => ?_
  split
  swap
  · exact secureCloseFile_unmapping
  refine .then (fun _ => rfl) fun id => ?_
  split
  swap
  · exact .then (fun _ => rfl) fun answer => answer.elim
  refine .then (fun _ => rfl) fun addr => .then (fun _ => rfl) fun copied => ?_
  split
  · exact .then (fun _ => rfl) fun _ => kiumdHypUnassignSg_unmapping.bind fun _ =>
      secureUnassignTable_unmapping
  · exact .then (fun _ => rfl) fun _ => .then (fun _ => rfl) fun _ => .then (fun _ => rfl) fun _ =>
      .pure _

theorem secureMapAttached_dies (hpos : acl.vmids ≠ []) :
    wp kernel .any (secureMapAttached u fp file acl d a page) Dies w := by
  have hdetach {w : World} {ret : Int} : wp kernel .any (secureDetach file acl d a ret) Dies w :=
    dies_only secureDetach_unmapping
  have hall {δ : Type} {q : KProg δ} {w : World} : wp kernel .any q (fun _ _ _ => True) w :=
    wp_always fun _ _ _ => trivial
  unfold secureMapAttached
  split
  · split
    · split
      · exact hdetach
      refine dies_then kiumdIoPgtableHypAssignPage_unmapping hall fun _ ret w₁ _ => ?_
      split
      · exact hdetach
      refine dies_then kiumdHypAssignSg_unmapping hall fun _ ret w₂ _ => ?_
      split
      · exact dies_only secureUnassignTable_unmapping
      refine wp_step fun mapped w₃ _ => ?_
      cases mapped with
      | null | ptr t =>
          refine dies_pass ?_ (dies_only secureMapPublish_unmapping)
          simp [MapFailed, KCall.mapFails]
      | err e =>
          -- The error pointer goes on to the label `hyp_unassign_sg`.
          dsimp only
          unfold secureUnassignSg kiumdHypUnassignSg
          rw [if_neg (by simpa using hpos)]
          exact wp_oops fun _ => ⟨rfl, _, rfl, rfl⟩
    · exact hdetach
  · exact hdetach

/-- SECURE_MAP dies of an attachment that could not be mapped. -/
theorem kiumdDmabufVfioSecureMap_dies :
    wp kernel .any (kiumdDmabufVfioSecureMap u fp) Dies w := by
  have hclose {w : World} {file : File} {ret : Int} :
      wp kernel .any (secureCloseFile file ret) Dies w := dies_only secureCloseFile_unmapping
  refine dies_call (fun _ => rfl) fun copied w₁ => ?_
  split
  · exact dies_only (.pure _)
  split
  · exact dies_only (.pure _)
  refine dies_call (fun _ => rfl) fun file w₂ => ?_
  split
  swap
  · exact dies_only (.pure _)
  split
  swap
  · exact dies_oops
  split
  swap
  · exact hclose
  split
  swap
  · exact hclose
  refine dies_then (R := fun _ _ _ => True) kiumdGetPgd_unmapping
    (wp_always fun _ _ _ => trivial) fun _ found w₃ _ => ?_
  split
  · exact hclose
  refine dies_call (fun _ => rfl) fun buffer w₄ => ?_
  split
  swap
  · exact hclose
  refine dies_then kiumdAclToVmidPermsList_unmapping (kiumdAclToVmidPermsList_spec (.refl w₄))
    fun _ lists w₅ hread => ?_
  split
  · exact hclose
  rename_i acl
  have hpos : acl.vmids ≠ [] := by
    rcases hread with ⟨_, hret, _⟩ | ⟨acl', hacl, hgood, _⟩
    · cases hret
    · cases hacl
      exact List.length_pos_iff.mp hgood.vmids_pos
  refine dies_call (fun _ => rfl) fun attached w₆ => ?_
  split
  · exact dies_only secureFreeMem_unmapping
  · exact secureMapAttached_dies hpos

/-! ## Owners -/

/-- The places an action has assigned. -/
def Act.assigned : Act → Option (Set Loc)
  | .assign range _ _ ret => if ret = 0 then some range.places else none
  | _ => none

/-- Assignments to one destination give it all ranges they have assigned. -/
theorem ownerAfter_eq_giveAll {owner : Loc → Finset Int}
    (h : ∀ act ∈ as, ∃ range ret, act = .assign range src dst ret) :
    (fun l => ownerAfter l as (owner l)) =
      giveAll (ownersOf dst) owner (as.filterMap Act.assigned) := by
  induction as generalizing owner with
  | nil => rfl
  | cons act as ih =>
      obtain ⟨⟨range, ret, rfl⟩, hrest⟩ := List.forall_mem_cons.mp h
      by_cases hret : ret = 0
      · have hgive : (fun l => (Act.assign range src dst ret).owner l (owner l)) =
            give (ownersOf dst) owner range.places := by
          funext l
          by_cases hl : l ∈ range.places
          · exact (if_pos ⟨hret, hl⟩).trans (give_of_mem hl).symm
          · exact (if_neg fun hboth => hl hboth.2).trans (give_of_notMem hl).symm
        rw [List.filterMap_cons_some (by rw [Act.assigned, if_pos hret]), giveAll, List.foldl_cons,
          ← giveAll, ← hgive]
        exact ih hrest
      · have hkeep : ∀ l, (Act.assign range src dst ret).owner l (owner l) = owner l := fun l =>
          if_neg fun hboth => hret hboth.1
        simp only [ownerAfter_cons, hkeep]
        rw [List.filterMap_cons_none (by rw [Act.assigned, if_neg hret])]
        exact ih hrest

theorem EntriesShape.forall_assign (h : EntriesShape src dst sgl as result) :
    ∀ act ∈ as, ∃ e ret, act = .assign (.sg e) src dst ret := by
  induction h with
  | done => simp
  | @stopped sg _ ret _ =>
      refine List.forall_mem_cons.mpr ⟨⟨sg, ret, rfl⟩, ?_⟩
      simp
  | @next sg _ _ _ _ ih => exact List.forall_mem_cons.mpr ⟨⟨sg, 0, rfl⟩, ih⟩

theorem AssignShape.forall_assign (h : AssignShape src dst t as result) :
    ∀ act ∈ as, ∃ e ret, act = .assign (.sg e) src dst ret := by
  cases h with
  | refused _ => simp
  | entries _ h => exact h.forall_assign

/-- The owners after the page table and some memory have been handed over and the page table has
been taken back. -/
theorem ownerAfter_unassigned {given : List Act} {l : Loc} {o : Finset Int} :
    ownerAfter l ([grantPage vmids page] ++ (given ++ unassignTableActs vmids page 0 d a)) o =
      if (MemRange.pgd page).contains l then hlos else ownerAfter l given o := by
  have hback : ∀ o, ownerAfter l (unassignTableActs vmids page 0 d a) o =
      if (MemRange.pgd page).contains l then hlos else o := by
    intro o
    simp only [unassignTableActs, unassignPage, ownerAfter_cons, ownerAfter_nil, Act.owner,
      ownersOf_hlosAlone, true_and]
  rw [ownerAfter_append, ownerAfter_append, hback]
  split
  · rfl
  · rename_i hpage
    have hgrant : ownerAfter l [grantPage vmids page] o = o :=
      if_neg fun hboth => hpage hboth.2
    rw [hgrant]

/-- The owners of the page table and of the memory of a buffer are those before if and only if the
page belonged to HLOS alone and all that has been handed over to its destination. -/
theorem unassigned_owner_iff {given : List Act} {owner : Loc → Finset Int}
    (h : AssignShape src dst t given result) :
    (fun l => ownerAfter l ([grantPage vmids page] ++
      (given ++ unassignTableActs vmids page 0 d a)) (owner l)) = owner ↔
    (MemRange.pgd page).OwnedBy owner hlos ∧
      ∀ e, .assign (.sg e) src dst 0 ∈ given → (MemRange.sg e).OwnedBy owner (ownersOf dst) := by
  have hassign : ∀ act ∈ given, ∃ range ret, act = .assign range src dst ret := by
    intro act hact
    obtain ⟨e, ret, rfl⟩ := h.forall_assign act hact
    exact ⟨.sg e, ret, rfl⟩
  have hentries : (∀ e, .assign (.sg e) src dst 0 ∈ given →
      (MemRange.sg e).OwnedBy owner (ownersOf dst)) ↔
        (fun l => ownerAfter l given (owner l)) = owner := by
    rw [ownerAfter_eq_giveAll hassign, giveAll_eq_self_iff]
    constructor
    · intro howned r hr
      obtain ⟨act, hact, hr⟩ := List.mem_filterMap.mp hr
      obtain ⟨e, ret, rfl⟩ := h.forall_assign act hact
      by_cases hret : ret = 0
      · rw [Act.assigned, if_pos hret] at hr
        obtain rfl := Option.some.inj hr
        subst hret
        exact MemRange.ownedBy_iff.mp (howned e hact)
      · rw [Act.assigned, if_neg hret] at hr
        cases hr
    · intro hheld e hact
      refine MemRange.ownedBy_iff.mpr (hheld _ (List.mem_filterMap.mpr ⟨_, hact, ?_⟩))
      simp [Act.assigned]
  rw [hentries]
  simp only [ownerAfter_unassigned]
  constructor
  · intro hsame
    have hpage : owner (.pgd page) = hlos := by
      have hl := congrFun hsame (.pgd page)
      simpa [MemRange.contains] using hl.symm
    refine ⟨hpage, funext fun l => ?_⟩
    have hl := congrFun hsame l
    cases l with
    | phys n => exact hl
    | pgd ttbr =>
        refine ownerAfter_spares fun act hact o => ?_
        obtain ⟨e, ret, rfl⟩ := h.forall_assign act hact
        exact if_neg fun hboth => Bool.false_ne_true hboth.2
  · rintro ⟨hpage, hgiven⟩
    funext l
    split
    · rename_i hl
      have howned := MemRange.ownedBy_iff.mp hpage l hl
      exact howned.symm
    · exact congrFun hgiven l

/-! ## What the actions tell -/

/-- An action of SECURE_MAP before it maps the attachment. -/
def Act.isHandover : Act → Bool
  | .file _ _ | .buffer _ _ | .pgd _ _ | .acl _ _ _ | .find _ _ _ | .read _ _ | .attach _ _
  | .detach _ _ | .put _ | .assign _ _ _ _ => true
  | _ => false

/-- An action that looks something up or attaches the buffer. -/
def Act.isPreparing : Act → Bool
  | .attach _ _ => true
  | act => act.isLooking

theorem Act.isPreparing_of_isLooking {act : Act} (h : act.isLooking = true) :
    act.isPreparing = true := by
  cases act <;> first | rfl | cases h

theorem Act.isHandover_of_isPreparing {act : Act} (h : act.isPreparing = true) :
    act.isHandover = true := by
  cases act <;> first | rfl | cases h

theorem Act.isPageUndo_of_isPreparing {act : Act} (h : act.isPreparing = true) :
    act.isPageUndo = false := by
  cases act <;> first | rfl | cases h

theorem Act.isHandover_of_isSgAssign {act : Act} (h : act.isSgAssign = true) :
    act.isHandover = true := by
  cases act <;> first | rfl | cases h

theorem Act.isPageUndo_of_isSgAssign {act : Act} (h : act.isSgAssign = true) :
    act.isPageUndo = false := by
  cases act with
  | assign range =>
      cases range with
      | sg e => rfl
      | pgd page => cases h
  | _ => rfl

theorem isPageUndo_pageOwners {ret : Int} :
    (Act.assign (.pgd page) src (pageOwners vmids) ret).isPageUndo = false := by
  simp [Act.isPageUndo, pageOwners, hlosAlone, QCOM_SCM_PERM_RW, QCOM_SCM_PERM_RWX]

theorem PageShape.isHandover (h : PageShape vmids page as result) :
    ∀ act ∈ as, act.isHandover = true := by
  cases h <;> simp [Act.isHandover]

theorem PageShape.isPageUndo (h : PageShape vmids page as result) :
    ∀ act ∈ as, act.isPageUndo = false := by
  cases h with
  | refused => simp
  | asked => simp [isPageUndo_pageOwners]

/-- Where the page table is never taken back nothing is asked of the owners. -/
theorem ownersReturn_of_kept (h : ∀ act ∈ as, act.isPageUndo = false) : OwnersReturn w as := by
  intro page src ret hmem
  have hundo := h _ hmem
  simp [Act.isPageUndo] at hundo

theorem replyFails_of_isHandover (h : ∀ act ∈ as, act.isHandover = true) :
    ∀ act ∈ as, act.replyFails = false := by
  intro act hact
  have hhandover := h act hact
  cases act <;> first | rfl | cases hhandover

/-- Undoing succeeds where nothing is undone. -/
theorem undosSucceed_of_kept (hpage : ∀ act ∈ as, act.isPageUndo = false)
    (hreply : ∀ act ∈ as, act.replyFails = false) : UndosSucceed as := by
  refine ⟨fun act hact hundo => ?_, ?_⟩
  · rw [hpage act hact] at hundo
    cases hundo
  · have hnil : as.dropWhile (fun act => !act.replyFails) = [] :=
      List.dropWhile_eq_nil_iff.mpr fun act hact => by simp [hreply act hact]
    simp [hnil]

/-- A reference that is acquired and not returned is left. -/
theorem lt_countAfter {r : Resource} {n : Nat} (hgives : ∀ act ∈ as, act.givesPart ≠ some r)
    (htakes : ∃ act ∈ as, act.takesPart = some r) : n < countAfter r as n := by
  have hle : ∀ {as : List Act} {n : Nat}, (∀ act ∈ as, act.givesPart ≠ some r) →
      n ≤ countAfter r as n := by
    intro as
    induction as with
    | nil => exact fun _ => le_rfl
    | cons act as ih =>
        intro n h
        obtain ⟨hact, hrest⟩ := List.forall_mem_cons.mp h
        rw [countAfter_cons, Act.recount, if_neg hact]
        split
        · exact (Nat.le_succ n).trans (ih hrest)
        · exact ih hrest
  obtain ⟨act, hact, htakes⟩ := htakes
  obtain ⟨first, last, rfl⟩ := List.append_of_mem hact
  obtain ⟨hfirst, hlast⟩ := List.forall_mem_append.mp hgives
  rw [countAfter_append, countAfter_cons, Act.recount, if_pos htakes]
  exact (hle hfirst).trans_lt ((Nat.lt_succ_self _).trans_le
    (hle (List.forall_mem_cons.mp hlast).2))

/-- A buffer that has been looked up and not put is held once more. -/
theorem count_lt_of_buffer {fd : Int} (h : Steps kernel w trace w')
    (hbuffer : .buffer fd d ∈ acts trace)
    (hput : ∀ act ∈ acts trace, act.givesPart ≠ some (.dmabuf d)) :
    w.held.count (.dmabuf d) < w'.held.count (.dmabuf d) := by
  rw [@count_steps _ _ (.dmabuf d) _ rfl h]
  exact lt_countAfter hput ⟨_, hbuffer, rfl⟩

/-- A failure that maps nothing leaves everything as it was if the owners are as before and no
reference to a buffer is left. -/
theorem undone_of_handover (hsteps : Steps kernel w trace w')
    (hends : SecureMapEnds w trace (some ret) w') (hmapped : ¬ MapFailed trace)
    (hhandover : ∀ act ∈ acts trace, act.isHandover = true)
    (hcount : ∀ d n, countAfter (.dmabuf d) (acts trace) n = n) (howner : w'.owner = w.owner) :
    SecureUndone w w' := by
  have hctxs : Leaves .ctxs (acts trace) := by
    intro act hact
    have hkind := hhandover act hact
    cases act <;> first | (cases hkind; done) | simp [Act.writes]
  have hentries : ∀ act ∈ acts trace, act.writesEntry = false := by
    intro act hact
    have hkind := hhandover act hact
    cases act <;> first | rfl | cases hkind
  refine ⟨howner, @steps_agrees _ _ .ctxs _ rfl hsteps hctxs, smaps_steps hsteps hentries, ?_⟩
  cases hends with
  | returned hholds => exact hholds.trans (zero_add _)
  | @kept d _ _ _ hholds =>
      have hsame := (@count_steps _ _ (.dmabuf d) _ rfl hsteps).trans (hcount d _)
      rw [hholds, Multiset.cons_add, zero_add, Multiset.count_cons_self] at hsame
      omega
  | failed hfailed => exact absurd hfailed hmapped
  | mapped hmem =>
      have hkind := hhandover _ hmem
      cases hkind

/-! ## Case by case -/

/-- A failure leaves everything as it was if memory could be taken back. -/
def FailureUndone (w : World) (as : List Act) (result : Option Int) (w' : World) : Prop :=
  ∀ ret, result = some ret → ret ≠ 0 → UndosSucceed as → SecureUndone w w'

/-- Before the buffer is attached everything is undone unless it has been looked up. -/
theorem early_undone_iff (hsteps : Steps kernel w trace w')
    (hends : SecureMapEnds w trace result w') (hmapped : ¬ MapFailed trace)
    (hne : result ≠ some 0) (hlooking : ∀ act ∈ acts trace, act.isLooking = true) :
    FailureUndone w (acts trace) result w' ↔ UndoesAll w trace := by
  have hpage : ∀ act ∈ acts trace, act.isPageUndo = false := fun act hact =>
    Act.isPageUndo_of_isPreparing (Act.isPreparing_of_isLooking (hlooking act hact))
  have hhandover : ∀ act ∈ acts trace, act.isHandover = true := fun act hact =>
    Act.isHandover_of_isPreparing (Act.isPreparing_of_isLooking (hlooking act hact))
  have hreply := replyFails_of_isHandover hhandover
  by_cases hbuffer : ∃ fd d, .buffer fd d ∈ acts trace
  · refine iff_of_false (fun hundone => ?_) fun hall => ?_
    · obtain ⟨fd, d, hmem⟩ := hbuffer
      have hlt := count_lt_of_buffer hsteps hmem fun act hact => by
        have hlook := hlooking act hact
        cases act <;> first | (cases hlook; done) | simp [Act.givesPart]
      have hsome : ∃ ret, result = some ret := by
        cases hends with
        | @halted f _ _ hholds =>
            have hne : Resource.dmabuf d ≠ .file f := by simp
            rw [hholds, Multiset.cons_add, zero_add, Multiset.count_cons_of_ne hne] at hlt
            exact absurd hlt (lt_irrefl _)
        | returned | kept => exact ⟨_, rfl⟩
        | failed hfailed => exact absurd hfailed hmapped
        | mapped hmem =>
            have hlook := hlooking _ hmem
            cases hlook
      obtain ⟨ret, rfl⟩ := hsome
      have hback := hundone ret rfl (fun hzero => hne (by rw [hzero]))
        (undosSucceed_of_kept hpage hreply)
      rw [hback.held] at hlt
      exact lt_irrefl _ hlt
    · obtain ⟨d, a, hmem⟩ := hall.attached hbuffer
      have hlook := hlooking _ hmem
      cases hlook
  · refine iff_of_true ?_ ?_
    · rintro ret rfl _ _
      refine undone_of_handover hsteps hends hmapped hhandover (fun d n => ?_) ?_
      · refine countAfter_idle fun act hact => ?_
        have hlook := hlooking act hact
        cases act with
        | buffer fd d => exact absurd ⟨fd, d, hact⟩ hbuffer
        | _ => first | exact ⟨rfl, rfl⟩ | cases hlook
      · refine @steps_agrees _ _ .owner _ rfl hsteps fun act hact => ?_
        have hlook := hlooking act hact
        cases act <;> first | (cases hlook; done) | simp [Act.writes]
    · refine ⟨hmapped, fun h => absurd h hbuffer, ?_, fun _ => ⟨hreply, ownersReturn_of_kept hpage⟩⟩
      rintro ⟨a, dir, t, hmem⟩
      have hlook := hlooking _ hmem
      cases hlook

/-- The actions up to the attachment of the buffer. -/
structure Prepares (u : KiumdUser) (d : DmaBuf) (a : Attachment) (first : List Act) : Prop where
  preparing : ∀ act ∈ first, act.isPreparing = true
  buffer : .buffer u.dmaBufFd d ∈ first
  attach : .attach d a ∈ first
  count : ∀ d' n, countAfter (.dmabuf d') first n = if d' = d then n + 1 else n

theorem prepares_first {entries : List KiumdAclEntry} {list : Nat} :
    Prepares u d a (.file u.vfioFd file :: .pgd a.dev.domain page :: .buffer u.dmaBufFd d ::
      (aclActs list 0 entries ++ [.attach d a])) where
  preparing := by
    have hacl : ∀ act ∈ aclActs list 0 entries, act.isPreparing = true := fun act hact =>
      Act.isPreparing_of_isLooking (Act.isLooking_of_isAcl (aclActs_isAcl act hact))
    simpa [Act.isPreparing, Act.isLooking, or_imp, forall_and] using hacl
  buffer := by simp
  attach := by simp
  count := by
    intro d' n
    have hacl : ∀ n, countAfter (.dmabuf d') (aclActs list 0 entries) n = n := fun n =>
      countAfter_idle fun act hact => by
        have hisAcl := aclActs_isAcl act hact
        cases act <;> first | exact ⟨rfl, rfl⟩ | cases hisAcl
    simp [countAfter_append, hacl, Act.recount, Act.takesPart, Act.givesPart, eq_comm]

section Attached

variable {first mids handed given : List Act}

theorem Prepares.isHandover (h : Prepares u d a first) : ∀ act ∈ first, act.isHandover = true :=
  fun act hact => Act.isHandover_of_isPreparing (h.preparing act hact)

theorem Prepares.isPageUndo (h : Prepares u d a first) : ∀ act ∈ first, act.isPageUndo = false :=
  fun act hact => Act.isPageUndo_of_isPreparing (h.preparing act hact)

theorem Prepares.owner (h : Prepares u d a first) {l : Loc} {o : Finset Int} :
    ownerAfter l first o = o := by
  refine ownerAfter_spares fun act hact => Act.sparesOwner_of_writes ?_
  have hkind := h.preparing act hact
  cases act <;> first | (cases hkind; done) | simp [Act.writes]

/-- An assignment of memory. -/
def Act.isAssign : Act → Bool
  | .assign _ _ _ _ => true
  | _ => false

/-- Between the attachment and the detachment of the buffer only memory is assigned. -/
theorem Prepares.undone (h : Prepares u d a first) (hmids : ∀ act ∈ mids, act.isAssign = true)
    (hacts : acts trace = first ++ (mids ++ [.detach d a, .put d]))
    (hsteps : Steps kernel w trace w') (hends : SecureMapEnds w trace (some ret) w')
    (hmapped : ¬ MapFailed trace) (howner : w'.owner = w.owner) : SecureUndone w w' := by
  refine undone_of_handover hsteps hends hmapped ?_ (fun d' n => ?_) howner
  · rw [hacts]
    refine List.forall_mem_append.mpr ⟨h.isHandover, List.forall_mem_append.mpr ⟨?_, ?_⟩⟩
    · intro act hact
      have hassign := hmids act hact
      cases act <;> first | rfl | cases hassign
    · simp [Act.isHandover]
  · have hidle : ∀ n, countAfter (.dmabuf d') mids n = n := fun n =>
      countAfter_idle fun act hact => by
        have hassign := hmids act hact
        cases act <;> first | exact ⟨rfl, rfl⟩ | cases hassign
    rw [hacts, countAfter_append, countAfter_append, h.count, hidle]
    by_cases hd : d' = d
    · simp [Act.recount, Act.takesPart, Act.givesPart, hd]
    · simp [Act.recount, Act.takesPart, Act.givesPart, hd, Ne.symm hd]

/-- Where the page table and a part of the buffer have been handed over, the failure is undone if
and only if this changes no owner. -/
theorem unassigned_undone_iff {ret' : Int} (hprepares : Prepares u d a first)
    (hgiven : AssignShape src dst t given (some ret)) (hne : ret ≠ 0)
    (hacts : acts trace = first ++ ([grantPage vmids page] ++
      (given ++ unassignTableActs vmids page ret' d a)))
    (hsteps : Steps kernel w trace w') (hends : SecureMapEnds w trace (some ret) w')
    (hmapped : ¬ MapFailed trace) :
    FailureUndone w (acts trace) (some ret) w' ↔ UndoesAll w trace := by
  have hhandover : ∀ act ∈ acts trace, act.isHandover = true := by
    rw [hacts]
    refine List.forall_mem_append.mpr ⟨hprepares.isHandover, ?_⟩
    refine List.forall_mem_append.mpr ⟨by simp [grantPage, Act.isHandover], ?_⟩
    refine List.forall_mem_append.mpr ⟨fun act hact =>
      Act.isHandover_of_isSgAssign (hgiven.isSgAssign act hact), ?_⟩
    simp [unassignTableActs, unassignPage, Act.isHandover]
  have hback : unassignPage vmids page ret' ∈ acts trace := by
    rw [hacts]
    simp [unassignTableActs]
  have hzero : UndosSucceed (acts trace) → ret' = 0 := fun hundos => by
    have hsucceeds := hundos.1 _ hback (by simp [unassignPage, Act.isPageUndo])
    simpa [unassignPage, Act.assignFails] using hsucceeds
  -- The page table is taken back once, and only entries handed over before count.
  have hreturn : OwnersReturn w (acts trace) ↔ (MemRange.pgd page).OwnedBy w.owner hlos ∧
      ∀ e, .assign (.sg e) src dst 0 ∈ given → (MemRange.sg e).OwnedBy w.owner (ownersOf dst) := by
    have hsg : ∀ {e src' dst'}, .assign (.sg e) src' dst' 0 ∈ acts trace →
        .assign (.sg e) src' dst' 0 ∈ given := by
      intro e src' dst' hmem
      rw [hacts] at hmem
      simp only [List.mem_append, grantPage, unassignTableActs, unassignPage,
        List.mem_cons, List.not_mem_nil, reduceCtorEq, or_false, Act.assign.injEq, false_and,
        false_or] at hmem
      rcases hmem with hmem | hmem
      · have hkind := hprepares.preparing _ hmem
        cases hkind
      · exact hmem
    constructor
    · intro h
      obtain ⟨hpage, hentries⟩ := h page _ ret' hback
      refine ⟨hpage, fun e hmem => hentries e src dst ?_⟩
      rw [hacts]
      simp [hmem]
    · rintro ⟨hpage, hentries⟩ page' src' ret₁ hmem
      have hsame : page' = page := by
        rw [hacts] at hmem
        rcases List.mem_append.mp hmem with hmem | hmem
        · have hkind := hprepares.preparing _ hmem
          cases hkind
        rcases List.mem_append.mp hmem with hmem | hmem
        · injection List.mem_singleton.mp hmem with hrange
          injection hrange
        rcases List.mem_append.mp hmem with hmem | hmem
        · have hkind := hgiven.isSgAssign _ hmem
          cases hkind
        · simp only [unassignTableActs, unassignPage, List.mem_cons, List.not_mem_nil,
            reduceCtorEq, or_false] at hmem
          injection hmem with hrange
          injection hrange
      rw [hsame]
      refine ⟨hpage, fun e src₂ dst₂ hmem₂ => ?_⟩
      obtain ⟨e', ret₂, heq⟩ := hgiven.forall_assign _ (hsg hmem₂)
      cases heq
      exact hentries e (hsg hmem₂)
  have howner : ret' = 0 → (w'.owner = w.owner ↔ OwnersReturn w (acts trace)) := by
    rintro rfl
    have heq : w'.owner = fun l => ownerAfter l ([grantPage vmids page] ++
        (given ++ unassignTableActs vmids page 0 d a)) (w.owner l) := by
      funext l
      rw [steps_owner hsteps, hacts, ownerAfter_append, hprepares.owner]
    rw [heq, hreturn]
    exact unassigned_owner_iff hgiven
  constructor
  · intro h
    refine ⟨hmapped, fun _ => ⟨d, a, ?_⟩, ?_, fun hundos =>
      ⟨replyFails_of_isHandover hhandover, ?_⟩⟩
    · rw [hacts]
      exact List.mem_append_left _ hprepares.attach
    · rintro ⟨a, dir, t, hmem⟩
      have hkind := hhandover _ hmem
      cases hkind
    · exact (howner (hzero hundos)).mp (h ret rfl hne hundos).owner
  · rintro hall _ ⟨⟩ _ hundos
    have hsame := (howner (hzero hundos)).mpr (hall.undone hundos).2
    have hmids : ∀ act ∈ [grantPage vmids page] ++ (given ++ [unassignPage vmids page ret']),
        act.isAssign = true := by
      refine List.forall_mem_append.mpr ⟨by simp [grantPage, Act.isAssign], ?_⟩
      refine List.forall_mem_append.mpr ⟨fun act hact => ?_, by simp [unassignPage, Act.isAssign]⟩
      obtain ⟨e, ret, rfl⟩ := hgiven.forall_assign act hact
      rfl
    refine hprepares.undone hmids ?_ hsteps hends hmapped hsame
    rw [hacts]
    simp [unassignTableActs]

/-- Once the buffer has been mapped, a failure is never undone. -/
theorem published_undone_iff (hprepares : Prepares u d a first)
    (hgiven : AssignShape src dst t given (some 0))
    (h : SecurePublishShape u c vmids page d a as result)
    (hacts : acts trace = first ++ ([grantPage vmids page] ++
      (given ++ .mapAttachment a u.unmapDir a.table :: as)))
    (hsteps : Steps kernel w trace w') (hmapped : ¬ MapFailed trace) :
    FailureUndone w (acts trace) result w' ↔ UndoesAll w trace := by
  have hattach : ∃ d a, .attach d a ∈ acts trace := by
    refine ⟨d, a, ?_⟩
    rw [hacts]
    exact List.mem_append_left _ hprepares.attach
  have hbefore : ∀ act ∈ first ++ ([grantPage vmids page] ++ given), act.isHandover = true := by
    refine List.forall_mem_append.mpr ⟨hprepares.isHandover, ?_⟩
    refine List.forall_mem_append.mpr ⟨by simp [grantPage, Act.isHandover], fun act hact => ?_⟩
    exact Act.isHandover_of_isSgAssign (hgiven.isSgAssign act hact)
  have hpage : ∀ act ∈ first ++ ([grantPage vmids page] ++ given), act.isPageUndo = false := by
    refine List.forall_mem_append.mpr ⟨hprepares.isPageUndo, ?_⟩
    refine List.forall_mem_append.mpr
      ⟨by simp [grantPage, isPageUndo_pageOwners], fun act hact => ?_⟩
    exact Act.isPageUndo_of_isSgAssign (hgiven.isSgAssign act hact)
  have hsplit : acts trace = (first ++ ([grantPage vmids page] ++ given)) ++
      .mapAttachment a u.unmapDir a.table :: as := by
    rw [hacts]
    simp
  have hmap : ∃ a dir t, .mapAttachment a dir t ∈ acts trace :=
    ⟨a, u.unmapDir, a.table, by rw [hsplit]; simp⟩
  cases h with
  | @unpublished ret hne =>
      refine iff_of_false (fun hundone => ?_) fun hall => ?_
      · have hbuffer : .buffer u.dmaBufFd d ∈ acts trace := by
          rw [hacts]
          exact List.mem_append_left _ hprepares.buffer
        have hlt := count_lt_of_buffer hsteps hbuffer fun act hact => by
          rw [hacts] at hact
          rcases List.mem_append.mp hact with hact | hact
          · have hkind := hprepares.preparing act hact
            cases act <;> first | (cases hkind; done) | simp [Act.givesPart]
          rcases List.mem_append.mp hact with hact | hact
          · rw [List.mem_singleton.mp hact]
            simp [grantPage, Act.givesPart]
          rcases List.mem_append.mp hact with hact | hact
          · obtain ⟨e, ret, rfl⟩ := hgiven.forall_assign act hact
            simp [Act.givesPart]
          · rw [List.mem_singleton.mp hact]
            simp [Act.givesPart]
        have hundos : UndosSucceed (acts trace) := by
          rw [hsplit]
          refine undosSucceed_of_kept ?_ ?_
          · exact List.forall_mem_append.mpr ⟨hpage, by simp [Act.isPageUndo]⟩
          · exact List.forall_mem_append.mpr
              ⟨replyFails_of_isHandover hbefore, by simp [Act.replyFails]⟩
        rw [(hundone ret rfl hne hundos).held] at hlt
        exact lt_irrefl _ hlt
      · obtain ⟨p, hmem⟩ := hall.allocated hmap
        rw [hsplit] at hmem
        rcases List.mem_append.mp hmem with hmem | hmem
        · have hkind := hbefore _ hmem
          cases hkind
        · cases List.mem_singleton.mp hmem
  | @stale p id addr back taken ret ret' hne hback =>
      have halloc : ∃ p, .alloc p ∈ acts trace := ⟨p, by rw [hacts]; simp⟩
      have hfails : .reply (.user { u with id := id, dmaAddr := addr }) false ∈ acts trace := by
        rw [hacts]
        simp
      have hnew : .smap p ∉ w.held ∧ .smap p ∈ w'.held := by
        have hsplit' := hsplit.trans (List.append_cons _ _ _)
        refine alloc_new hsteps hsplit' ?_ ?_
        · intro act hact
          rcases List.mem_append.mp hact with hact | hact
          · have hkind := hbefore act hact
            cases act <;> first | rfl | cases hkind
          · rw [List.mem_singleton.mp hact]
            rfl
        · have hsg : ∀ act ∈ back, act.frees = false := fun act hact => by
            have hkind := hback.isSgAssign act hact
            cases act <;> first | rfl | cases hkind
          simpa [unassignTableActs, unassignPage, Act.frees, or_imp, forall_and] using hsg
      constructor
      · intro hundone
        refine ⟨hmapped, fun _ => hattach, fun _ => halloc, fun hundos => ?_⟩
        have hsame := hundone ret rfl hne hundos
        rw [hsame.held] at hnew
        exact absurd hnew.2 hnew.1
      · rintro hall _ _ _ hundos
        have hreply := (hall.undone hundos).1 _ hfails
        cases hreply
  | @done p id addr =>
      refine iff_of_true (fun ret hret hne _ => ?_) ?_
      · exact absurd (Option.some.inj hret).symm hne
      · refine ⟨hmapped, fun _ => hattach, fun _ => ⟨p, by rw [hacts]; simp⟩, fun _ => ⟨?_, ?_⟩⟩
        · rw [hsplit]
          exact List.forall_mem_append.mpr
            ⟨replyFails_of_isHandover hbefore, by simp [Act.replyFails]⟩
        · refine ownersReturn_of_kept ?_
          rw [hsplit]
          exact List.forall_mem_append.mpr ⟨hpage, by simp [Act.isPageUndo]⟩

/-- Once the buffer is attached. -/
theorem attached_undone_iff {acts' : List Act} (hprepares : Prepares u d a first)
    (h : SecureAttachedShape u c vmids perms page d a acts' result)
    (hacts : acts trace = first ++ acts') (hsteps : Steps kernel w trace w')
    (hends : SecureMapEnds w trace result w') (hmapped : ¬ MapFailed trace) :
    FailureUndone w (acts trace) result w' ↔ UndoesAll w trace := by
  have hall (hhandover : ∀ act ∈ acts', act.isHandover = true)
      (hpage : ∀ act ∈ acts', act.isPageUndo = false) : UndoesAll w trace := by
    have hhandover' : ∀ act ∈ acts trace, act.isHandover = true := by
      rw [hacts]
      exact List.forall_mem_append.mpr ⟨hprepares.isHandover, hhandover⟩
    refine ⟨hmapped, fun _ => ⟨d, a, ?_⟩, ?_, fun _ => ⟨replyFails_of_isHandover hhandover', ?_⟩⟩
    · rw [hacts]
      exact List.mem_append_left _ hprepares.attach
    · rintro ⟨a, dir, t, hmem⟩
      have hkind := hhandover' _ hmem
      cases hkind
    · refine ownersReturn_of_kept ?_
      rw [hacts]
      exact List.forall_mem_append.mpr ⟨hprepares.isPageUndo, hpage⟩
  cases h with
  | @refused handed ret hret hhanded =>
      have hassign : ∀ act ∈ handed, act.isAssign = true ∧ act.isPageUndo = false ∧
          ∀ l, act.SparesOwner l := by
        rcases hhanded with rfl | hhanded
        · simp
        · cases hhanded with
          | refused => simp
          | asked =>
              refine List.forall_mem_cons.mpr ⟨⟨rfl, isPageUndo_pageOwners, fun l o => ?_⟩, by simp⟩
              exact if_neg fun hboth => hret.ne hboth.1
      refine iff_of_true ?_ ?_
      · rintro _ ⟨⟩ _ _
        refine hprepares.undone (fun act hact => (hassign act hact).1) hacts hsteps hends hmapped ?_
        funext l
        have hlast : ownerAfter l [.detach d a, .put d] (w.owner l) = w.owner l := rfl
        rw [steps_owner hsteps, hacts, ownerAfter_append, ownerAfter_append, hprepares.owner,
          ownerAfter_spares fun act hact => (hassign act hact).2.2 l, hlast]
      · refine hall ?_ ?_
        · refine List.forall_mem_append.mpr ⟨fun act hact => ?_, by simp [Act.isHandover]⟩
          have hkind := (hassign act hact).1
          cases act <;> first | rfl | cases hkind
        · exact List.forall_mem_append.mpr
            ⟨fun act hact => (hassign act hact).2.1, by simp [Act.isPageUndo]⟩
  | unassigned hhanded hret hgiven =>
      rw [hhanded.granted] at hacts
      exact unassigned_undone_iff hprepares hgiven hret.ne hacts hsteps hends hmapped
  | unmapped hhanded hgiven =>
      refine iff_of_true (fun ret hresult => nomatch hresult) (hall ?_ ?_)
      · exact List.forall_mem_append.mpr ⟨hhanded.isHandover, fun act hact =>
          Act.isHandover_of_isSgAssign (hgiven.isSgAssign act hact)⟩
      · exact List.forall_mem_append.mpr ⟨hhanded.isPageUndo, fun act hact =>
          Act.isPageUndo_of_isSgAssign (hgiven.isSgAssign act hact)⟩
  | mapped hhanded hgiven hpublish =>
      rw [hhanded.granted] at hacts
      exact published_undone_iff hprepares hgiven hpublish hacts hsteps hmapped

end Attached

/-- A SECURE_MAP that fails leaves everything as it was if memory could be taken back, and uses no
error pointer as a table, if and only if the attachment could be mapped, a buffer looked up has been
attached and a mapped one has got an entry, and, where memory could be taken back, the reply has
been copied and all that has been handed over had the same owners before. -/
theorem secure_map_undone_iff
    (hexec : Exec kernel (kiumdIoctl ⟨c, .secureMap u⟩) w trace result w') :
    SecureMapSafe w trace result w' ↔ UndoesAll w trace := by
  have hexec' : Exec kernel (kiumdDmabufVfioSecureMap u (some (some c))) w trace result w' := hexec
  have hsteps := hexec.steps
  have hends := wp_exec kiumdDmabufVfioSecureMap_ends hexec'
  by_cases hmapped : MapFailed trace
  · refine iff_of_false (fun hsafe => hsafe.noError ?_) fun hall => hall.mapped hmapped
    exact wp_exec kiumdDmabufVfioSecureMap_dies hexec' hmapped
  have hsafe : SecureMapSafe w trace result w' ↔ FailureUndone w (acts trace) result w' := by
    refine ⟨fun h => h.undone, fun h => ⟨h, ?_⟩⟩
    rintro ⟨-, e, he, hfails⟩
    exact hmapped ⟨e, List.mem_of_getLast? he, hfails⟩
  rw [hsafe]
  have hshape := kiumdDmabufVfioSecureMap_shows.exec driver_admits hexec'
  obtain ⟨as, hacts⟩ : ∃ as, acts trace = as := ⟨_, rfl⟩
  have hshape' : SecureMapShape u c as result := hacts ▸ hshape
  cases hshape' with
  | early hne hlooking => exact early_undone_iff hsteps hends hmapped hne (hacts ▸ hlooking)
  | @attached file v page d a entries acts' _ _ _ _ _ _ _ hattached =>
      have hfirst : Prepares u d a (.file u.vfioFd file :: .pgd a.dev.domain page ::
          .buffer u.dmaBufFd d :: (aclActs u.memParcel.aclList 0 entries ++ [.attach d a])) :=
        prepares_first
      refine attached_undone_iff hfirst hattached ?_ hsteps hends hmapped
      rw [hacts]
      simp

/-- The page table cannot be handed over. -/
def pageFails (β : Type) : KCall β → Bool
  | .qcomScmAssignMem (.pgd _) _ _ => true
  | _ => false

/-- A request whose page table cannot be handed over leaves everything as it was. -/
theorem secure_map_undone_iff_page : ∃ trace ret w',
    Exec kernel (kiumdIoctl ⟨0, .secureMap plainUser⟩) .initial trace (some ret) w' ∧ ret ≠ 0 ∧
      SecureMapSafe .initial trace (some ret) w' := by
  have hcheck : (kiumdIoctl ⟨0, .secureMap plainUser⟩).check kernel
      (Answers.plain pageFails).choose .initial
      (fun trace ret _ => decide (ret ≠ 0) && trace.all (fun e => !e.call.mapFails e.answer) &&
        (acts trace).any (fun act => act.isPreparing && !act.isLooking) &&
        (acts trace).all (fun act => act.isHandover && !act.isPageUndo)) = true := by
    decide +kernel
  obtain ⟨trace, ret, w', hexec, htest⟩ := Program.check_exec hcheck
  simp only [Bool.and_eq_true, decide_eq_true_eq, List.all_eq_true, List.any_eq_true,
    Bool.not_eq_true', forall_and] at htest
  obtain ⟨⟨⟨hret, hmapped⟩, act, hact, hpreparing, hlooking⟩, hhandover, hpage⟩ := htest
  refine ⟨trace, ret, w', hexec, hret, (secure_map_undone_iff hexec).mpr ⟨?_, ?_, ?_, ?_⟩⟩
  · rintro ⟨e, he, hfails⟩
    rw [hmapped e he] at hfails
    cases hfails
  · intro _
    cases act with
    | attach d a => exact ⟨d, a, hact⟩
    | _ => exact absurd (hpreparing.symm.trans hlooking) (by decide)
  · rintro ⟨a, dir, t, hmem⟩
    have hkind := hhandover _ hmem
    cases hkind
  · exact fun _ => ⟨replyFails_of_isHandover hhandover, ownersReturn_of_kept hpage⟩

/-- The second entry of a buffer cannot be handed over. -/
def secondEntryFails (β : Type) : KCall β → Bool
  | .qcomScmAssignMem (.sg e) _ _ => e.phys = 0x5000
  | _ => false

/-- The entry handed over before one that fails is never taken back. -/
theorem not_secure_map_undone : ¬ ∀ c u w trace result w',
    Exec kernel (kiumdIoctl ⟨c, .secureMap u⟩) w trace result w' →
      SecureMapSafe w trace result w' := by
  intro hall
  have hcheck : (kiumdIoctl ⟨0, .secureMap plainUser⟩).check kernel
      { Answers.plain secondEntryFails with
        buffer := fun _ => ⟨0, 0x1000, twoPieces.sgl⟩ }.choose .initial
      (fun trace ret w' => decide (ret ≠ 0) && decide (UndosSucceed (acts trace)) &&
        decide (w'.owner (.phys 0x4000) ≠ hlos)) = true := by
    decide +kernel
  obtain ⟨trace, ret, w', hexec, htest⟩ := Program.check_exec hcheck
  simp only [Bool.and_eq_true, decide_eq_true_eq] at htest
  obtain ⟨⟨hret, hundos⟩, howner⟩ := htest
  have hundone := (hall _ _ _ _ _ _ hexec).undone ret rfl hret hundos
  exact howner (congrFun hundone.owner _)

end SafeLinux.Kiumd
