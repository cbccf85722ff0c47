import SafeLinux.Handovers.Basic
import SafeLinux.Kiumd.Answers
import SafeLinux.Kiumd.Owners
import Mathlib.Data.Finset.Lattice.Lemmas

/-!
# Handing memory over and taking it back

`scmKernel` is the kernel whose secure world assigns a range exactly when the source mask denotes
the present owners of all of it. Under it the page-table page and the memory of a buffer are handed
over and taken back with the same access control list. `kiumd_acl_to_vmid_perms_list` accepts the
virtual machine 64, which no mask of 64 bits can name; `hyp_round_trip_iff` says when all four
steps succeed.
-/

namespace SafeLinux.Kiumd

open Effects Handovers
open Effects.Program (perform)

/-! ## A secure world that checks the source -/

/-- The virtual machines a source mask denotes. -/
def vmidSet (mask : U64) : Finset Int :=
  (((List.range 64).filter mask.getLsbD).map Int.ofNat).toFinset

/-- Every place of the range has these owners. -/
def MemRange.OwnedBy (owner : Loc → Finset Int) (owners : Finset Int) : MemRange → Prop
  | .sg e => ∀ i < e.length, owner (.phys (e.phys + i)) = owners
  | .pgd ttbr => owner (.pgd ttbr) = owners

instance (owner : Loc → Finset Int) (owners : Finset Int) (range : MemRange) :
    Decidable (range.OwnedBy owner owners) :=
  match range with
  | .sg e => inferInstanceAs (Decidable (∀ i < e.length, owner (.phys (e.phys + i)) = owners))
  | .pgd ttbr => inferInstanceAs (Decidable (owner (.pgd ttbr) = owners))

/-- An assignment succeeds exactly when the source mask denotes the owners of the range. -/
def KCall.scmAllows : {β : Type} → KCall β → World → β → Bool
  | _, .qcomScmAssignMem range src _, w, ret =>
      decide (ret = 0 ↔ range.OwnedBy w.owner (vmidSet src))
  | _, _, _, _ => true

/-- The kernel with a secure world that checks the source of every assignment. -/
def scmKernel : Semantics KCall World := kernel.guarded fun w e => e.call.scmAllows w e.answer

/-- A call for the memory of a list was answered with none. -/
def KCall.noMemory : {β : Type} → KCall β → β → Bool
  | _, .kmallocArray, answer => answer.isNone
  | _, _, _ => false

/-- An allocation failed. -/
def OutOfMemory (trace : List (Event KCall)) : Prop :=
  ∃ e ∈ trace, e.call.noMemory e.answer = true

/-! ## The round trip -/

/-- Hand the page-table page and a buffer over and take them back in the opposite order. -/
def hypRoundTrip (acl : AclLists) (page : U64) (t : SgTable) : KProg (List Int) := do
  let pageAssigned ← kiumdIoPgtableHypAssignPage acl.vmids page
  let sgAssigned ← kiumdHypAssignSg t acl.vmids acl.perms
  let sgUnassigned ← kiumdHypUnassignSg (.ptr t) acl.vmids
  let pageUnassigned ← kiumdIoPgtableHypUnassignPage acl.vmids page
  return [pageAssigned, sgAssigned, sgUnassigned, pageUnassigned]

/-- `kiumd_acl_to_vmid_perms_list` has returned these lists for some list of the user. -/
def AclAccepted (acl : AclLists) : Prop := ∃ parcel w trace w',
  Exec kernel (kiumdAclToVmidPermsList parcel) w trace (some (.ok acl)) w'

/-- The owner of all memory before it is handed over. -/
def hlos : Finset Int := {QCOM_SCM_VMID_HLOS}

/-- All four steps have succeeded, and all memory belongs to HLOS alone. -/
structure RoundTrip (page : U64) (t : SgTable) (result : Option (List Int)) (w : World) :
    Prop where
  succeeds : result = some [0, 0, 0, 0]
  page : (MemRange.pgd page).OwnedBy w.owner hlos
  pieces : ∀ e ∈ t.sgl, (MemRange.sg e).OwnedBy w.owner hlos

/-! ## Places -/

/-- The places of a range. -/
def MemRange.places (range : MemRange) : Set Loc := {l | range.contains l = true}

/-- The places of the entries of a table, entry by entry. -/
def SgTable.pieces (t : SgTable) : List (Set Loc) := t.sgl.map fun e => (MemRange.sg e).places

variable {w w' : World} {range : MemRange} {src : U64} {dst : List QcomScmVmperm} {ret : Int}
  {owners : Finset Int} {owner : Loc → Finset Int} {vmids perms : List Int} {page : U64}
  {t : SgTable} {acl : AclLists} {trace trace' : List (Event KCall)} {result : Option (List Int)}

theorem MemRange.ownedBy_iff : range.OwnedBy owner owners ↔ Held owner owners range.places := by
  cases range with
  | sg e =>
      constructor
      · rintro h (addr | ttbr) hl
        · simp only [MemRange.places, MemRange.contains, Set.mem_ofPred_eq, Bool.and_eq_true,
            decide_eq_true_eq] at hl
          obtain ⟨i, rfl⟩ := Nat.exists_eq_add_of_le hl.1
          exact h i (by omega)
        · cases hl
      · intro h i hi
        exact h _ (by simp [MemRange.places, MemRange.contains, hi])
  | pgd ttbr =>
      constructor
      · rintro h (addr | ttbr') hl
        · cases hl
        · obtain rfl : ttbr = ttbr' := by simpa [MemRange.places, MemRange.contains] using hl
          exact h
      · intro h
        exact h _ (by simp [MemRange.places, MemRange.contains])

theorem sg_disjoint_pgd {e : SgEntry} :
    Disjoint (MemRange.sg e).places (MemRange.pgd page).places := by
  rw [Set.disjoint_left]
  rintro (addr | ttbr) hl hl'
  · cases hl'
  · cases hl

theorem pieces_disjoint_pgd : ∀ r ∈ t.pieces, Disjoint r (MemRange.pgd page).places := by
  intro r hr
  obtain ⟨e, -, rfl⟩ := List.mem_map.mp hr
  exact sg_disjoint_pgd

/-! ## Masks -/

theorem mem_vmidSet {mask : U64} {v : Int} :
    v ∈ vmidSet mask ↔ ∃ n : Nat, v = n ∧ mask.getLsbD n = true := by
  simp only [vmidSet, List.mem_toFinset, List.mem_map, List.mem_filter, List.mem_range]
  constructor
  · rintro ⟨n, ⟨-, hn⟩, rfl⟩
    exact ⟨n, rfl, hn⟩
  · rintro ⟨n, rfl, hn⟩
    exact ⟨n, ⟨BitVec.lt_of_getLsbD hn, hn⟩, rfl⟩

theorem getLsbD_vmidBit {v : Int} {n : Nat} :
    (vmidBit v).getLsbD n = true ↔ n = v.toNat % 64 := by
  have hlt : v.toNat % 64 < 64 := Nat.mod_lt _ (by decide)
  simp only [vmidBit, BitVec.getLsbD_shiftLeft, BitVec.getLsbD_one]
  simp
  omega

theorem vmidSet_or {mask mask' : U64} :
    vmidSet (mask ||| mask') = vmidSet mask ∪ vmidSet mask' := by
  ext v
  simp only [Finset.mem_union, mem_vmidSet, BitVec.getLsbD_or, Bool.or_eq_true, ← exists_or,
    ← and_or_left]

theorem vmidSet_vmidBit {v : Int} : vmidSet (vmidBit v) = {((v.toNat % 64 : Nat) : Int)} := by
  ext v'
  simp only [mem_vmidSet, getLsbD_vmidBit, Finset.mem_singleton, exists_eq_right]

/-- A mask denotes the virtual machines it was made of, modulo 64. -/
theorem vmidSet_vmidMask :
    vmidSet (vmidMask vmids) = (vmids.map fun v => ((v.toNat % 64 : Nat) : Int)).toFinset := by
  have hfold : ∀ mask : U64, vmidSet (vmids.foldl (fun mask v => mask ||| vmidBit v) mask) =
      vmidSet mask ∪ (vmids.map fun v => ((v.toNat % 64 : Nat) : Int)).toFinset := by
    induction vmids with
    | nil => simp
    | cons v rest ih =>
        intro mask
        rw [List.foldl_cons, ih, vmidSet_or, vmidSet_vmidBit, List.map_cons, List.toFinset_cons,
          Finset.union_assoc, ← Finset.insert_eq]
  have hzero : vmidSet 0 = ∅ := by
    ext v
    simp [mem_vmidSet]
  rw [vmidMask, hfold, hzero, Finset.empty_union]

/-! ## What the steps do -/

@[simp] theorem outOfMemory_nil : ¬ OutOfMemory [] := by
  simp [OutOfMemory]

@[simp] theorem outOfMemory_append :
    OutOfMemory (trace ++ trace') ↔ OutOfMemory trace ∨ OutOfMemory trace' := by
  simp only [OutOfMemory, List.mem_append, or_and_right, exists_or]

@[simp] theorem outOfMemory_cons {β : Type} {request : KCall β} {answer : β} :
    OutOfMemory (⟨request, answer⟩ :: trace) ↔
      request.noMemory answer = true ∨ OutOfMemory trace := by
  simp [OutOfMemory]

/-- An assignment succeeds when the source mask denotes the owners of the range, and then gives it
to the destination. -/
theorem assign_step
    (h : scmKernel.step (.qcomScmAssignMem range src dst) w ret = some w') :
    (ret = 0 ↔ Held w.owner (vmidSet src) range.places) ∧
      (ret = 0 → w'.owner = give (ownersOf dst) w.owner range.places) := by
  obtain ⟨hallowed, hstep⟩ := Semantics.guarded_step.mp h
  have hret : ret = 0 ↔ range.OwnedBy w.owner (vmidSet src) := of_decide_eq_true hallowed
  refine ⟨hret.trans MemRange.ownedBy_iff, fun hzero => ?_⟩
  simp only [kernel, kernelStep, if_pos hzero] at hstep
  cases hstep
  funext l
  by_cases hl : l ∈ range.places
  · exact (if_pos hl).trans (give_of_mem hl).symm
  · exact (if_neg hl).trans (give_of_notMem hl).symm

/-- The step succeeds exactly when `possible` holds and no allocation fails, and then leaves these
owners. -/
def Hands (possible : Prop) (owner : Loc → Finset Int) : Post KCall World Int :=
  fun trace result w => ∃ ret, result = some ret ∧ (ret = 0 ↔ possible ∧ ¬ OutOfMemory trace) ∧
    (ret = 0 → w.owner = owner)

/-- The loop over the entries of a scatterlist. -/
theorem hypAssignEntries_hands {sgl : List SgEntry} :
    wp scmKernel .any (hypAssignEntries src dst sgl)
      (fun trace result w' => ¬ OutOfMemory trace ∧
        Hands (Passes (vmidSet src) (ownersOf dst) w.owner
            (sgl.map fun e => (MemRange.sg e).places))
          (giveAll (ownersOf dst) w.owner (sgl.map fun e => (MemRange.sg e).places))
          trace result w') w := by
  induction sgl generalizing w with
  | nil => exact wp_pure.mpr ⟨outOfMemory_nil, 0, rfl, by simp [Passes], fun _ => rfl⟩
  | cons sg rest ih =>
      refine Effects.wp_step fun ret w' hstep => ?_
      obtain ⟨hret, howner⟩ := assign_step hstep
      split
      · rename_i hne
        refine wp_pure.mpr ⟨by simp [KCall.noMemory], ret, rfl, ?_, fun hzero => absurd hzero hne⟩
        exact ⟨fun hzero => absurd hzero hne, fun hpossible => hret.mpr hpossible.1.1⟩
      · rename_i hzero
        have hzero := not_not.mp hzero
        refine wp_mono ih ?_
        rintro trace result w'' ⟨hmemory, ret', hresult, hret', howner'⟩
        rw [howner hzero] at hret' howner'
        have hmemory' : ¬ OutOfMemory (⟨.qcomScmAssignMem (.sg sg) src dst, ret⟩ :: trace) := by
          simpa [KCall.noMemory] using hmemory
        refine ⟨hmemory', ret', hresult, ?_, howner'⟩
        simp only [hret', hmemory, List.map_cons, Passes, hret.mp hzero, true_and]
        simpa [KCall.noMemory] using fun _ => hmemory

theorem vmidSet_hlos : vmidSet (vmidBit QCOM_SCM_VMID_HLOS) = hlos := by decide

theorem ownersOf_hlosAlone : ownersOf hlosAlone = hlos := by decide

/-- A call that is not an assignment does not change the owners. -/
theorem idle_owner {β : Type} {request : KCall β} {answer : β}
    (h : scmKernel.step request w answer = some w') (hact : request.act answer = none) :
    w'.owner = w.owner := by
  funext l
  rw [step_owner (Semantics.guarded_step.mp h).2, hact]
  rfl

/-- A list is allocated for a step and freed after it. -/
theorem withList_hands {p : KProg Int} {possible : Prop} {owner : Loc → Finset Int}
    (h : ∀ w', w'.owner = w.owner → wp scmKernel .any p (Hands possible owner) w') :
    wp scmKernel .any (do
      let some dst ← perform .kmallocArray | return -ENOMEM
      let ret ← p
      perform (.kfree dst)
      return ret) (Hands possible owner) w := by
  refine Effects.wp_step fun dst w₁ hstep => ?_
  have howner := idle_owner hstep (by rfl)
  cases dst with
  | none =>
      refine wp_pure.mpr ⟨-ENOMEM, rfl, ?_, fun hzero => absurd hzero (by decide)⟩
      simp [KCall.noMemory, ENOMEM]
  | some dst =>
      refine wp_bind.mpr (wp_mono (h w₁ howner) ?_)
      rintro trace _ w₂ ⟨ret, rfl, hret, hafter⟩
      refine Effects.wp_step fun _ w₃ hfree => ?_
      refine wp_pure.mpr ⟨ret, rfl, ?_, fun hzero => ?_⟩
      · simpa [KCall.noMemory] using hret
      · rw [idle_owner hfree rfl]
        exact hafter hzero

theorem kiumdIoPgtableHypAssignPage_hands :
    wp scmKernel .any (kiumdIoPgtableHypAssignPage vmids page)
      (Hands (Held w.owner hlos (MemRange.pgd page).places)
        (give (ownersOf (pageOwners vmids)) w.owner (MemRange.pgd page).places)) w := by
  refine withList_hands fun w' howner => ?_
  refine wp_perform.mpr ⟨trivial, fun h => (h.false 0).elim, fun ret w'' hstep => ?_⟩
  obtain ⟨hret, hafter⟩ := assign_step hstep
  rw [howner, vmidSet_hlos] at hret
  rw [howner] at hafter
  exact ⟨ret, rfl, by simpa [KCall.noMemory] using hret, hafter⟩

theorem kiumdIoPgtableHypUnassignPage_hands :
    wp scmKernel .any (kiumdIoPgtableHypUnassignPage vmids page)
      (Hands (Held w.owner (hlos ∪ vmidSet (vmidMask vmids)) (MemRange.pgd page).places)
        (give hlos w.owner (MemRange.pgd page).places)) w := by
  refine wp_perform.mpr ⟨trivial, fun h => (h.false 0).elim, fun ret w' hstep => ?_⟩
  obtain ⟨hret, hafter⟩ := assign_step hstep
  rw [vmidSet_or, vmidSet_hlos] at hret
  rw [ownersOf_hlosAlone] at hafter
  exact ⟨ret, rfl, by simpa [KCall.noMemory] using hret, hafter⟩

theorem kiumdHypAssignSg_hands (hvmids : vmids ≠ []) :
    wp scmKernel .any (kiumdHypAssignSg t vmids perms)
      (Hands (t.sgl ≠ [] ∧
          Passes hlos (ownersOf (vmids.zipWith QcomScmVmperm.mk perms)) w.owner t.pieces)
        (giveAll (ownersOf (vmids.zipWith QcomScmVmperm.mk perms)) w.owner t.pieces)) w := by
  unfold kiumdHypAssignSg
  rw [if_neg (by simpa using hvmids)]
  split
  · rename_i hempty
    refine wp_pure.mpr ⟨-EINVAL, rfl, ?_, fun hzero => absurd hzero (by decide)⟩
    simp [List.isEmpty_iff.mp hempty, EINVAL]
  · rename_i hne
    refine withList_hands fun w' howner => wp_mono hypAssignEntries_hands ?_
    rintro trace _ w'' ⟨hmemory, ret, rfl, hret, hafter⟩
    rw [howner, vmidSet_hlos] at hret
    rw [howner] at hafter
    have hsgl : t.sgl ≠ [] := by simpa [List.isEmpty_iff] using hne
    exact ⟨ret, rfl, by simpa [hmemory, hsgl, SgTable.pieces] using hret, hafter⟩

theorem kiumdHypUnassignSg_hands (hvmids : vmids ≠ []) :
    wp scmKernel .any (kiumdHypUnassignSg (.ptr t) vmids)
      (Hands (t.sgl ≠ [] ∧ Passes (vmidSet (vmidMask vmids)) hlos w.owner t.pieces)
        (giveAll hlos w.owner t.pieces)) w := by
  unfold kiumdHypUnassignSg
  rw [if_neg (by simpa using hvmids)]
  dsimp only
  split
  · rename_i hempty
    refine wp_pure.mpr ⟨-EINVAL, rfl, ?_, fun hzero => absurd hzero (by decide)⟩
    simp [List.isEmpty_iff.mp hempty, EINVAL]
  · rename_i hne
    refine wp_mono hypAssignEntries_hands ?_
    rintro trace _ w' ⟨hmemory, ret, rfl, hret, hafter⟩
    rw [ownersOf_hlosAlone] at hret hafter
    have hsgl : t.sgl ≠ [] := by simpa [List.isEmpty_iff] using hne
    exact ⟨ret, rfl, by simpa [hmemory, hsgl, SgTable.pieces] using hret, hafter⟩

/-! ## When the round trip succeeds -/

/-- What `kiumd_acl_to_vmid_perms_list` has checked. -/
theorem AclAccepted.checked (h : AclAccepted acl) : acl.vmids ≠ [] ∧
    acl.perms.length = acl.vmids.length ∧ ∀ v ∈ acl.vmids, 0 ≤ v ∧ v ≤ KIUMD_MAX_VMID := by
  obtain ⟨parcel, w, trace, w', hexec⟩ := h
  have hshape := kiumdAclToVmidPermsList_shows.exec driver_admits hexec
  generalize driver.actions trace = as at hshape
  generalize hresult : some (Except.ok acl) = result at hshape
  cases hshape with
  | refused => cases hresult
  | @read entries vmidsPtr permsPtr hlength hne hok =>
      cases hresult
      refine ⟨by simpa [aclVmids] using hne, by simp [aclVmids, aclPerms], fun v hv => ?_⟩
      obtain ⟨entry, hentry, rfl⟩ := List.mem_map.mp hv
      have hchecked := hok entry hentry
      simp only [aclEntryOk, decide_eq_true_eq, not_or, not_lt] at hchecked
      exact ⟨hchecked.1, hchecked.2.2.1⟩

/-- The owners of the memory while it is handed over. -/
theorem ownersOf_zipWith (h : perms.length = vmids.length) :
    ownersOf (vmids.zipWith QcomScmVmperm.mk perms) = vmids.toFinset := by
  have hvmids : (vmids.zipWith QcomScmVmperm.mk perms).map (·.vmid) = vmids := by
    induction vmids generalizing perms with
    | nil => rfl
    | cons v vmids ih =>
        cases perms with
        | nil => cases h
        | cons perm perms =>
            rw [List.zipWith_cons_cons, List.map_cons, ih (Nat.succ.inj h)]
  rw [ownersOf, hvmids]

/-- The owners of the page-table page while it is handed over. -/
theorem ownersOf_pageOwners : ownersOf (pageOwners vmids) = hlos ∪ vmids.toFinset := by
  have hvmids : (pageOwners vmids).map (·.vmid) = QCOM_SCM_VMID_HLOS :: vmids := by
    simp [pageOwners, Function.comp_def]
  rw [ownersOf, hvmids, List.toFinset_cons, Finset.insert_eq]
  rfl

/-- The mask of a list without the virtual machine 64 denotes the machines of the list. -/
theorem vmidSet_vmidMask_eq (hvmids : ∀ v ∈ vmids, 0 ≤ v ∧ v ≤ KIUMD_MAX_VMID)
    (hmax : KIUMD_MAX_VMID ∉ vmids) : vmidSet (vmidMask vmids) = vmids.toFinset := by
  have hsame : ∀ v ∈ vmids, ((v.toNat % 64 : Nat) : Int) = v := by
    intro v hv
    obtain ⟨hpos, hle⟩ := hvmids v hv
    have hne : v ≠ KIUMD_MAX_VMID := fun heq => hmax (heq ▸ hv)
    simp only [KIUMD_MAX_VMID] at hle hne
    omega
  rw [vmidSet_vmidMask, List.map_congr_left hsame, List.map_id']

/-- No mask denotes the virtual machine 64. -/
theorem max_notMem_vmidSet {mask : U64} : KIUMD_MAX_VMID ∉ vmidSet mask := by
  rw [mem_vmidSet]
  rintro ⟨n, hn, hbit⟩
  have hlt : n < 64 := BitVec.lt_of_getLsbD hbit
  simp only [KIUMD_MAX_VMID] at hn
  omega

theorem hlos_eq_toFinset (hne : vmids ≠ []) :
    hlos = vmids.toFinset ↔ ∀ v ∈ vmids, v = QCOM_SCM_VMID_HLOS := by
  constructor
  · intro heq v hv
    have hmem : v ∈ hlos := heq ▸ List.mem_toFinset.mpr hv
    exact Finset.mem_singleton.mp hmem
  · intro hall
    obtain ⟨first, hfirst⟩ := List.exists_mem_of_ne_nil vmids hne
    ext v
    rw [hlos, Finset.mem_singleton, List.mem_toFinset]
    exact ⟨fun hv => hv ▸ hall first hfirst ▸ hfirst, hall v⟩

/-- The owners after the page and the memory of the buffer have been handed over. -/
noncomputable def memoryHanded (vmids : List Int) (page : U64) (t : SgTable)
    (owner : Loc → Finset Int) : Loc → Finset Int :=
  giveAll vmids.toFinset (give (hlos ∪ vmids.toFinset) owner (MemRange.pgd page).places) t.pieces

/-- The owners after the memory of the buffer has been taken back. -/
noncomputable def bufferBack (vmids : List Int) (page : U64) (t : SgTable)
    (owner : Loc → Finset Int) : Loc → Finset Int :=
  giveAll hlos (memoryHanded vmids page t owner) t.pieces

/-- The source of every assignment of the round trip denotes the owners at its time. -/
structure CanReturn (vmids : List Int) (page : U64) (t : SgTable) (owner : Loc → Finset Int) :
    Prop where
  entries : t.sgl ≠ []
  assignPage : Held owner hlos (MemRange.pgd page).places
  assignSg : Passes hlos vmids.toFinset
    (give (hlos ∪ vmids.toFinset) owner (MemRange.pgd page).places) t.pieces
  unassignSg : Passes (vmidSet (vmidMask vmids)) hlos (memoryHanded vmids page t owner) t.pieces
  unassignPage : Held (bufferBack vmids page t owner) (hlos ∪ vmidSet (vmidMask vmids))
    (MemRange.pgd page).places

/-- All steps succeed exactly when every source denotes the owners and no allocation fails. -/
theorem hypRoundTrip_hands (hne : acl.vmids ≠ []) (hlength : acl.perms.length = acl.vmids.length) :
    wp scmKernel .any (hypRoundTrip acl page t) (fun trace result w' =>
      (result = some [0, 0, 0, 0] ↔
        CanReturn acl.vmids page t w.owner ∧ ¬ OutOfMemory trace) ∧
      (result = some [0, 0, 0, 0] → w'.owner =
        give hlos (bufferBack acl.vmids page t w.owner) (MemRange.pgd page).places)) w := by
  refine wp_bind.mpr (wp_mono kiumdIoPgtableHypAssignPage_hands ?_)
  rintro trace₁ _ w₁ ⟨ret₁, rfl, hret₁, howner₁⟩
  refine wp_bind.mpr (wp_mono (kiumdHypAssignSg_hands hne) ?_)
  rintro trace₂ _ w₂ ⟨ret₂, rfl, hret₂, howner₂⟩
  refine wp_bind.mpr (wp_mono (kiumdHypUnassignSg_hands hne) ?_)
  rintro trace₃ _ w₃ ⟨ret₃, rfl, hret₃, howner₃⟩
  refine wp_bind.mpr (wp_mono kiumdIoPgtableHypUnassignPage_hands ?_)
  rintro trace₄ _ w₄ ⟨ret₄, rfl, hret₄, howner₄⟩
  rw [ownersOf_zipWith hlength] at hret₂ howner₂
  rw [ownersOf_pageOwners] at howner₁
  have hall : some [ret₁, ret₂, ret₃, ret₄] = some [0, 0, 0, 0] ↔
      ret₁ = 0 ∧ ret₂ = 0 ∧ ret₃ = 0 ∧ ret₄ = 0 := by simp
  refine wp_pure.mpr ⟨hall.trans ⟨?_, ?_⟩, fun hzero => ?_⟩
  · rintro ⟨hzero₁, hzero₂, hzero₃, hzero₄⟩
    obtain ⟨hassignPage, hmemory₁⟩ := hret₁.mp hzero₁
    obtain ⟨⟨hentries, hassignSg⟩, hmemory₂⟩ := hret₂.mp hzero₂
    obtain ⟨⟨-, hunassignSg⟩, hmemory₃⟩ := hret₃.mp hzero₃
    obtain ⟨hunassignPage, hmemory₄⟩ := hret₄.mp hzero₄
    rw [howner₁ hzero₁] at hassignSg howner₂
    rw [howner₂ hzero₂] at hunassignSg howner₃
    rw [howner₃ hzero₃] at hunassignPage
    exact ⟨⟨hentries, hassignPage, hassignSg, hunassignSg, hunassignPage⟩,
      by simp [hmemory₁, hmemory₂, hmemory₃, hmemory₄]⟩
  · rintro ⟨hcan, hmemory⟩
    simp only [outOfMemory_append, not_or] at hmemory
    obtain ⟨hmemory₁, hmemory₂, hmemory₃, hmemory₄, -⟩ := hmemory
    have hzero₁ := hret₁.mpr ⟨hcan.assignPage, hmemory₁⟩
    rw [howner₁ hzero₁] at hret₂ howner₂
    have hzero₂ := hret₂.mpr ⟨⟨hcan.entries, hcan.assignSg⟩, hmemory₂⟩
    rw [howner₂ hzero₂] at hret₃ howner₃
    have hzero₃ := hret₃.mpr ⟨⟨hcan.entries, hcan.unassignSg⟩, hmemory₃⟩
    rw [howner₃ hzero₃] at hret₄
    exact ⟨hzero₁, hzero₂, hzero₃, hret₄.mpr ⟨hcan.unassignPage, hmemory₄⟩⟩
  · obtain ⟨hzero₁, hzero₂, hzero₃, hzero₄⟩ := hall.mp hzero
    rw [howner₄ hzero₄, howner₃ hzero₃, howner₂ hzero₂, howner₁ hzero₁]
    rfl

/-- The memory of the buffer belongs to HLOS alone while only the page has been handed over. -/
theorem pieces_held {owners : Finset Int} (hpieces : ∀ r ∈ t.pieces, Held owner hlos r) :
    ∀ r ∈ t.pieces, Held (give owners owner (MemRange.pgd page).places) hlos r := fun r hr =>
  (hpieces r hr).kept (pieces_disjoint_pgd r hr).symm

/-- Taking back the memory of the buffer undoes handing it over. -/
theorem bufferBack_eq (hpieces : ∀ r ∈ t.pieces, Held owner hlos r) :
    bufferBack vmids page t owner =
      give (hlos ∪ vmids.toFinset) owner (MemRange.pgd page).places :=
  giveAll_back (pieces_held hpieces)

/-- The virtual machine 64 owns the page, and the mask that takes the page back does not denote
it. -/
theorem CanReturn.max_notMem (h : CanReturn vmids page t owner)
    (hpieces : ∀ r ∈ t.pieces, Held owner hlos r) : KIUMD_MAX_VMID ∉ vmids := by
  intro hmem
  have hpgd : Loc.pgd page ∈ (MemRange.pgd page).places := by
    simp [MemRange.places, MemRange.contains]
  have hback := h.unassignPage _ hpgd
  rw [bufferBack_eq hpieces, give_of_mem hpgd] at hback
  have howns : KIUMD_MAX_VMID ∈ hlos ∪ vmids.toFinset :=
    Finset.mem_union_right _ (List.mem_toFinset.mpr hmem)
  rw [hback, Finset.mem_union] at howns
  exact howns.elim (by decide) max_notMem_vmidSet

theorem canReturn_iff (hne : vmids ≠ []) (hvmids : ∀ v ∈ vmids, 0 ≤ v ∧ v ≤ KIUMD_MAX_VMID)
    (hpage : Held owner hlos (MemRange.pgd page).places)
    (hpieces : ∀ r ∈ t.pieces, Held owner hlos r) :
    CanReturn vmids page t owner ↔ KIUMD_MAX_VMID ∉ vmids ∧ t.sgl ≠ [] ∧
      ((∀ v ∈ vmids, v = QCOM_SCM_VMID_HLOS) ∨ t.pieces.Pairwise Disjoint) := by
  have hassign : Passes hlos vmids.toFinset
      (give (hlos ∪ vmids.toFinset) owner (MemRange.pgd page).places) t.pieces ↔
      hlos = vmids.toFinset ∨ t.pieces.Pairwise Disjoint :=
    passes_iff (pieces_held hpieces)
  rw [hlos_eq_toFinset hne] at hassign
  constructor
  · intro hcan
    exact ⟨hcan.max_notMem hpieces, hcan.entries, hassign.mp hcan.assignSg⟩
  · rintro ⟨hmax, hentries, hdisjoint⟩
    have hassignSg := hassign.mpr hdisjoint
    have hmask := vmidSet_vmidMask_eq hvmids hmax
    refine ⟨hentries, hpage, hassignSg, ?_, ?_⟩
    · rw [hmask]
      exact hassignSg.back (pieces_held hpieces)
    · rw [hmask, bufferBack_eq hpieces]
      exact fun _ hl => give_of_mem hl

/-- With memory that belongs to HLOS alone, the four steps succeed and bring everything back exactly
when the access control list does not name the virtual machine 64, memory for the lists can be
allocated, and the table has entries, no two of which share a place unless HLOS is the only
destination. -/
theorem hyp_round_trip_iff (haccepted : AclAccepted acl)
    (hpage : (MemRange.pgd page).OwnedBy w.owner hlos)
    (hsg : ∀ e ∈ t.sgl, (MemRange.sg e).OwnedBy w.owner hlos)
    (hexec : Exec scmKernel (hypRoundTrip acl page t) w trace result w') :
    RoundTrip page t result w' ↔
      KIUMD_MAX_VMID ∉ acl.vmids ∧ ¬ OutOfMemory trace ∧ t.sgl ≠ [] ∧
        ((∀ v ∈ acl.vmids, v = QCOM_SCM_VMID_HLOS) ∨ t.pieces.Pairwise Disjoint) := by
  obtain ⟨hne, hlength, hvmids⟩ := haccepted.checked
  have hheld : Held w.owner hlos (MemRange.pgd page).places := MemRange.ownedBy_iff.mp hpage
  have hpieces : ∀ r ∈ t.pieces, Held w.owner hlos r :=
    List.forall_mem_map.mpr fun e he => MemRange.ownedBy_iff.mp (hsg e he)
  have hcan := canReturn_iff hne hvmids hheld hpieces
  obtain ⟨hresult, howner⟩ := wp_exec (hypRoundTrip_hands hne hlength) hexec
  constructor
  · intro htrip
    obtain ⟨hreturn, hmemory⟩ := hresult.mp htrip.succeeds
    obtain ⟨hmax, hentries, hdisjoint⟩ := hcan.mp hreturn
    exact ⟨hmax, hmemory, hentries, hdisjoint⟩
  · rintro ⟨hmax, hmemory, hentries, hdisjoint⟩
    have hsucceeds := hresult.mpr ⟨hcan.mpr ⟨hmax, hentries, hdisjoint⟩, hmemory⟩
    have hrestored : w'.owner = w.owner := by
      rw [howner hsucceeds, bufferBack_eq hpieces]
      exact giveAll_back (List.forall_mem_singleton.mpr hheld)
    refine ⟨hsucceeds, ?_, ?_⟩
    · rw [hrestored]
      exact hpage
    · rw [hrestored]
      exact hsg

deriving instance DecidableEq for AclLists

/-- The lists of an access control list with one entry. -/
def oneEntry (vmid : Int) : AclLists := ⟨1, 2, [vmid], [6]⟩

/-- A buffer of two pieces. -/
def twoPieces : SgTable := ⟨0, [⟨0x4000, 8⟩, ⟨0x5000, 8⟩]⟩

theorem twoPieces_disjoint : twoPieces.pieces.Pairwise Disjoint := by
  have hdisjoint : Disjoint (MemRange.sg ⟨0x4000, 8⟩).places (MemRange.sg ⟨0x5000, 8⟩).places := by
    rw [Set.disjoint_left]
    rintro (addr | ttbr) hl hl'
    · simp only [MemRange.places, MemRange.contains, Set.mem_ofPred_eq, Bool.and_eq_true,
        decide_eq_true_eq] at hl hl'
      omega
    · cases hl
  simpa [SgTable.pieces, twoPieces] using hdisjoint

/-- Whether no allocation failed. -/
theorem not_outOfMemory_of_all (h : trace.all (fun e => !e.call.noMemory e.answer) = true) :
    ¬ OutOfMemory trace := by
  rintro ⟨e, he, hfailed⟩
  have hnot := List.all_eq_true.mp h e he
  rw [hfailed] at hnot
  cases hnot

/-- The virtual machine 9 gets the memory of a buffer and gives it back. -/
theorem hyp_round_trip_iff_nine : ∃ trace w',
    Exec scmKernel (hypRoundTrip (oneEntry 9) 0 twoPieces) .initial trace (some [0, 0, 0, 0]) w' ∧
    RoundTrip 0 twoPieces (some [0, 0, 0, 0]) w' := by
  have haccepted : (kiumdAclToVmidPermsList plainUser.memParcel).check kernel
      (Answers.plain fun _ _ => false).choose .initial (fun _ lists _ => lists = .ok (oneEntry 9)) =
      true := by decide +kernel
  obtain ⟨_, lists, _, hacl, hlists⟩ := Program.check_exec haccepted
  obtain rfl := of_decide_eq_true hlists
  have hcheck : (hypRoundTrip (oneEntry 9) 0 twoPieces).check scmKernel
      (Answers.plain fun _ _ => false).choose .initial
      (fun trace rets _ => rets = [0, 0, 0, 0] && trace.all fun e => !e.call.noMemory e.answer) =
      true := by decide +kernel
  obtain ⟨trace, rets, w', hexec, htest⟩ := Program.check_exec hcheck
  rw [Bool.and_eq_true, decide_eq_true_eq] at htest
  obtain ⟨rfl, hmemory⟩ := htest
  refine ⟨trace, w', hexec, ?_⟩
  refine (hyp_round_trip_iff ⟨_, _, _, _, hacl⟩ (by decide) (by decide) hexec).mpr ?_
  exact ⟨by decide, not_outOfMemory_of_all hmemory, by decide, .inr twoPieces_disjoint⟩

/-- Every assignment from another source than HLOS alone fails. -/
def takeBackFails (β : Type) : KCall β → Bool
  | .qcomScmAssignMem _ src _ => src != vmidBit QCOM_SCM_VMID_HLOS
  | _ => false

/-- Memory given to the virtual machine 64 cannot be taken back. -/
theorem not_hyp_round_trip : ¬ ∀ acl page t w trace result w', AclAccepted acl →
    (MemRange.pgd page).OwnedBy w.owner hlos →
    (∀ e ∈ t.sgl, (MemRange.sg e).OwnedBy w.owner hlos) → t.sgl ≠ [] →
    t.pieces.Pairwise Disjoint → ¬ OutOfMemory trace →
    Exec scmKernel (hypRoundTrip acl page t) w trace result w' → RoundTrip page t result w' := by
  have haccepted : (kiumdAclToVmidPermsList plainUser.memParcel).check kernel
      { Answers.plain (fun _ _ => false) with acl := ⟨64, 6⟩ }.choose .initial
      (fun _ lists _ => lists = .ok (oneEntry 64)) = true := by decide +kernel
  obtain ⟨_, lists, _, hacl, hlists⟩ := Program.check_exec haccepted
  obtain rfl := of_decide_eq_true hlists
  have hcheck : (hypRoundTrip (oneEntry 64) 0 twoPieces).check scmKernel
      (Answers.plain takeBackFails).choose .initial
      (fun trace rets _ => rets ≠ [0, 0, 0, 0] && trace.all fun e => !e.call.noMemory e.answer) =
      true := by decide +kernel
  obtain ⟨trace, rets, w', hexec, htest⟩ := Program.check_exec hcheck
  rw [Bool.and_eq_true, decide_eq_true_eq] at htest
  obtain ⟨hrets, hmemory⟩ := htest
  intro hall
  have htrip := hall _ _ _ _ _ _ _ ⟨_, _, _, _, hacl⟩ (by decide) (by decide) (by decide)
    twoPieces_disjoint (not_outOfMemory_of_all hmemory) hexec
  exact hrets (Option.some.inj htrip.succeeds)

end SafeLinux.Kiumd
