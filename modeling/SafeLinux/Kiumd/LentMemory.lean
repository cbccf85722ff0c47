import SafeLinux.Kiumd.KgslLeases
import SafeLinux.Kiumd.Owners
import SafeLinux.Kiumd.SecureMapFailures

/-!
# Memory lent to virtual machines

SECURE_MAP hands the memory of a buffer, and the page-table page of its device, to the virtual
machines of an access control list; SECURE_UNMAP takes them back. In every run of services a place
has no owners but HLOS, those it had at first and the machines that the list of a SECURE_MAP for it
has named (`service_run_owners_named`). Memory that HLOS does not own alone is that of a secure
mapping in a table, or a SECURE_MAP has lent it without publishing an entry, or an UNMAP_BUF has
deleted the entry of a secure mapping (`service_run_lent_accounted`).
-/

namespace SafeLinux.Kiumd

open Effects

variable {as bs : List Act} {act : Act} {c p : Nat} {l : Loc} {o : Finset Int} {v : Int}
  {w w' : World} {trace : List (Event KCall)} {P Q : MemRange → List QcomScmVmperm → Prop}

/-! ## Assignments -/

/-- None of the actions assigns memory. -/
def AssignsNone (as : List Act) : Prop := ∀ act ∈ as, act.isAssign = false

/-- What holds of the range and the destination of each assignment. -/
def AssignsOnly (P : MemRange → List QcomScmVmperm → Prop) (as : List Act) : Prop :=
  ∀ range src dst ret, .assign range src dst ret ∈ as → P range dst

/-- All that is assigned of the place goes to the virtual machines `dst`. -/
def GivesTo (l : Loc) (dst : List QcomScmVmperm) (as : List Act) : Prop :=
  AssignsOnly (fun range given => range.contains l = true → given = dst) as

/-- The actions have assigned the place. -/
def Assigned (l : Loc) (as : List Act) : Prop :=
  ∃ range src dst, .assign range src dst 0 ∈ as ∧ range.contains l = true

@[simp] theorem assignsNone_nil : AssignsNone [] := fun _ hact => absurd hact List.not_mem_nil

@[simp] theorem assignsNone_cons :
    AssignsNone (act :: as) ↔ act.isAssign = false ∧ AssignsNone as :=
  List.forall_mem_cons

@[simp] theorem assignsNone_append :
    AssignsNone (as ++ bs) ↔ AssignsNone as ∧ AssignsNone bs :=
  List.forall_mem_append

theorem Calm.assignsNone (h : Calm as) : AssignsNone as := by
  intro act hact
  have hcalm := h act hact
  cases act <;> first | rfl | cases hcalm

theorem AssignsNone.assignsOnly (h : AssignsNone as) : AssignsOnly P as := by
  intro range src dst ret hact
  have hnone := h _ hact
  cases hnone

theorem AssignsNone.not_assigned (h : AssignsNone as) : ¬ Assigned l as := by
  rintro ⟨range, src, dst, hact, -⟩
  have hnone := h _ hact
  cases hnone

theorem AssignsOnly.append (h : AssignsOnly P as) (h' : AssignsOnly P bs) :
    AssignsOnly P (as ++ bs) :=
  fun range src dst ret hact =>
    (List.mem_append.mp hact).elim (h range src dst ret) (h' range src dst ret)

theorem AssignsOnly.mono (h : AssignsOnly P as) (hPQ : ∀ range dst, P range dst → Q range dst) :
    AssignsOnly Q as :=
  fun range src dst ret hact => hPQ range dst (h range src dst ret hact)

theorem AssignsOnly.prepend (h : AssignsOnly P bs) (has : AssignsNone as) :
    AssignsOnly P (as ++ bs) :=
  has.assignsOnly.append h

/-- An owner after some actions was one before, or is in the destination of an assignment. -/
theorem mem_ownerAfter (h : v ∈ ownerAfter l as o) : v ∈ o ∨ ∃ range src dst,
    .assign range src dst 0 ∈ as ∧ range.contains l = true ∧ v ∈ ownersOf dst := by
  induction as generalizing o with
  | nil => exact .inl h
  | cons act as ih =>
      rw [ownerAfter_cons] at h
      obtain hv | ⟨range, src, dst, hmem, hcontains, hv⟩ := ih h
      · cases act with
        | assign range src dst ret =>
            simp only [Act.owner] at hv
            split at hv
            · rename_i hassigned
              obtain ⟨rfl, hcontains⟩ := hassigned
              exact .inr ⟨range, src, dst, List.mem_cons_self, hcontains, hv⟩
            · exact .inl hv
        | _ => exact .inl hv
      · exact .inr ⟨range, src, dst, List.mem_cons_of_mem _ hmem, hcontains, hv⟩

/-- A place that is not assigned keeps its owners. -/
theorem ownerAfter_of_not_assigned (h : ¬ Assigned l as) : ownerAfter l as o = o := by
  refine ownerAfter_spares fun act hact o => ?_
  cases act with
  | assign range src dst ret =>
      show (if ret = 0 ∧ range.contains l then ownersOf dst else o) = o
      rw [if_neg]
      rintro ⟨rfl, hcontains⟩
      exact h ⟨range, src, dst, hact, hcontains⟩
  | _ => rfl

/-- A place always has an owner if no destination is empty. -/
theorem ownerAfter_nonempty (ho : o.Nonempty) (h : AssignsOnly (fun _ dst => dst ≠ []) as) :
    (ownerAfter l as o).Nonempty := by
  induction as generalizing o with
  | nil => exact ho
  | cons act as ih =>
      rw [ownerAfter_cons]
      refine ih ?_ fun range src dst ret hmem => h range src dst ret (List.mem_cons_of_mem _ hmem)
      cases act with
      | assign range src dst ret =>
          have hne := h range src dst ret List.mem_cons_self
          show (if ret = 0 ∧ range.contains l then ownersOf dst else o).Nonempty
          split
          · simpa [ownersOf, List.toFinset_nonempty_iff] using hne
          · exact ho
      | _ => exact ho

/-- HLOS alone owns a place that is given to HLOS alone, if nobody else is given it. -/
theorem ownerAfter_hlos (h : GivesTo l hlosAlone as)
    (hl : o = {QCOM_SCM_VMID_HLOS} ∨ Assigned l as) :
    ownerAfter l as o = {QCOM_SCM_VMID_HLOS} := by
  induction as generalizing o with
  | nil =>
      obtain rfl | ⟨range, src, dst, hact, -⟩ := hl
      · rfl
      · exact absurd hact List.not_mem_nil
  | cons act as ih =>
      rw [ownerAfter_cons]
      refine ih (fun range src dst ret hact => h range src dst ret (List.mem_cons_of_mem _ hact)) ?_
      -- an assignment of the place is this action or one of the others
      have howner : act.owner l o = o ∨ act.owner l o = {QCOM_SCM_VMID_HLOS} := by
        cases act with
        | assign range src dst ret =>
            have hdst := h range src dst ret List.mem_cons_self
            show (if ret = 0 ∧ range.contains l then ownersOf dst else o) = o ∨ _
            split
            · rename_i hgiven
              right
              simp [Act.owner, hgiven, hdst hgiven.2, ownersOf, hlosAlone]
            · exact .inl rfl
        | _ => exact .inl rfl
      obtain rfl | ⟨range, src, dst, hact, hcontains⟩ := hl
      · exact .inl (howner.elim id id)
      · rcases List.mem_cons.mp hact with rfl | hact
        · left
          have hdst := h range src dst 0 List.mem_cons_self hcontains
          simp [Act.owner, hcontains, hdst, ownersOf, hlosAlone]
        · exact .inr ⟨range, src, dst, hact, hcontains⟩

/-! ## What a service assigns -/

/-- The request has read an entry of its access control list, which it accepts, that names the
virtual machine. -/
def NamesVm (u : KiumdUser) (as : List Act) (v : Int) : Prop :=
  ∃ index entry, .acl u.memParcel.aclList index entry ∈ as ∧ aclEntryOk entry = true ∧
    entry.vmid.toInt = v

/-- An assignment of a SECURE_MAP: it lends the page-table page or memory of the buffer to the
virtual machines of the list, or takes it back. -/
inductive LendsTo (entries : List KiumdAclEntry) (page : U64) (t : SgTable) :
    MemRange → List QcomScmVmperm → Prop where
  | page : LendsTo entries page t (.pgd page) (pageOwners (aclVmids entries))
  | memory {e : SgEntry} : e ∈ t.sgl → LendsTo entries page t (.sg e)
      ((aclVmids entries).zipWith QcomScmVmperm.mk (aclPerms entries))
  | pageBack : LendsTo entries page t (.pgd page) hlosAlone
  | memoryBack {e : SgEntry} : e ∈ t.sgl → LendsTo entries page t (.sg e) hlosAlone

/-- An action of a SECURE_MAP that has attached the buffer `d`: its assignments are those above, an
entry that it publishes is the one for the attachment, and it deletes none. -/
def Act.Lends (entries : List KiumdAclEntry) (page : U64) (c : Nat) (d : DmaBuf) (a : Attachment) :
    Act → Prop
  | .assign range _ dst _ => LendsTo entries page a.table range dst
  | .add c' _ data _ => c' = c ∧ data = secureEntry d a
  | .addMmio _ _ _ _ _ | .delete _ _ | .deleteMmio _ _ | .unlink _ _ => False
  | _ => True

/-- What a SECURE_MAP assigns, and the entry it publishes. -/
inductive SecureMapLends (u : KiumdUser) (c : Nat) (as : List Act) : Prop where
  | nothing : Calm as → SecureMapLends u c as
  | lent (entries : List KiumdAclEntry) (page : U64) (d : DmaBuf) (a : Attachment) :
      entries ≠ [] → (∀ vm ∈ aclVmids entries, NamesVm u as vm) →
      (∀ act ∈ as, act.Lends entries page c d a) → SecureMapLends u c as

section Shapes

variable {u : KiumdUser} {v : VfioDevice} {d : DmaBuf} {a : Attachment} {result : Option Int}
  {entries : List KiumdAclEntry} {page : U64} {src : U64} {dst : List QcomScmVmperm}
  {t : SgTable}

theorem aclActs_names {index : Nat} (hok : ∀ entry ∈ entries, aclEntryOk entry = true)
    (hacts : ∀ act ∈ aclActs u.memParcel.aclList index entries, act ∈ as) :
    ∀ vm ∈ aclVmids entries, NamesVm u as vm := by
  induction entries generalizing index with
  | nil => exact fun vm hvm => absurd hvm List.not_mem_nil
  | cons entry rest ih =>
      obtain ⟨hentry, hrest⟩ := List.forall_mem_cons.mp hok
      obtain ⟨hfirst, hacts⟩ := List.forall_mem_cons.mp hacts
      refine List.forall_mem_cons.mpr ⟨⟨index, entry, hfirst, hentry, rfl⟩, ?_⟩
      exact ih hrest hacts

theorem PageShape.lends (h : PageShape (aclVmids entries) page as result) :
    ∀ act ∈ as, act.Lends entries page c d a := by
  cases h with
  | refused _ => simp
  | asked _ => exact List.forall_mem_singleton.mpr LendsTo.page

theorem AssignShape.lends (h : AssignShape src dst t as result)
    (hdst : ∀ e ∈ t.sgl, LendsTo entries page a.table (.sg e) dst) :
    ∀ act ∈ as, act.Lends entries page c d a := by
  intro act hact
  obtain ⟨e, he, ret, rfl⟩ := h.mem act hact
  exact hdst e he

theorem unassignTableActs_lends {ret : Int} :
    ∀ act ∈ unassignTableActs (aclVmids entries) page ret d a, act.Lends entries page c d a := by
  simp [unassignTableActs, unassignPage, Act.Lends, LendsTo.pageBack]

/-- What SECURE_MAP does once the buffer is attached. -/
theorem SecureAttachedShape.lends
    (h : SecureAttachedShape u c (aclVmids entries) (aclPerms entries) page d a as result) :
    ∀ act ∈ as, act.Lends entries page c d a := by
  have hback : ∀ e ∈ a.table.sgl, LendsTo entries page a.table (.sg e) hlosAlone :=
    fun _ he => .memoryBack he
  have hgive : ∀ e ∈ a.table.sgl, LendsTo entries page a.table (.sg e)
      ((aclVmids entries).zipWith QcomScmVmperm.mk (aclPerms entries)) := fun _ he => .memory he
  cases h with
  | refused _ hhanded =>
      refine List.forall_mem_append.mpr ⟨?_, by simp [Act.Lends]⟩
      rcases hhanded with rfl | hhanded
      · simp
      · exact hhanded.lends
  | unassigned hhanded _ hgiven =>
      exact List.forall_mem_append.mpr ⟨hhanded.lends,
        List.forall_mem_append.mpr ⟨hgiven.lends hgive, unassignTableActs_lends⟩⟩
  | unmapped hhanded hgiven =>
      exact List.forall_mem_append.mpr ⟨hhanded.lends, hgiven.lends hgive⟩
  | mapped hhanded hgiven hpublish =>
      refine List.forall_mem_append.mpr ⟨hhanded.lends,
        List.forall_mem_append.mpr ⟨hgiven.lends hgive, List.forall_mem_cons.mpr ⟨trivial, ?_⟩⟩⟩
      cases hpublish with
      | unpublished _ => simp
      | stale _ hback' =>
          simp only [List.forall_mem_cons, List.forall_mem_append]
          exact ⟨trivial, ⟨rfl, rfl⟩, trivial, trivial, trivial, hback'.lends hback,
            unassignTableActs_lends⟩
      | done => simp [Act.Lends]

theorem SecureMapShape.lends (h : SecureMapShape u c as result) : SecureMapLends u c as := by
  cases h with
  | early _ hlooking => exact .nothing (calm_of_isLooking hlooking)
  | @attached file v page d a entries acts result _ _ _ hne hok _ hattached =>
      have hread : ∀ act ∈ aclActs u.memParcel.aclList 0 entries,
          act ∈ .file u.vfioFd file :: .pgd a.dev.domain page :: .buffer u.dmaBufFd d ::
            (aclActs u.memParcel.aclList 0 entries ++ .attach d a :: acts) := fun act hact =>
        .tail _ (.tail _ (.tail _ (List.mem_append_left _ hact)))
      refine .lent entries page d a hne (aclActs_names hok hread) ?_
      have hacl : ∀ act ∈ aclActs u.memParcel.aclList 0 entries, act.Lends entries page c d a := by
        intro act hact
        have hisAcl := aclActs_isAcl act hact
        cases act with
        | acl => trivial
        | _ => cases hisAcl
      simp only [List.forall_mem_cons, List.forall_mem_append]
      exact ⟨trivial, trivial, trivial, hacl, trivial, hattached.lends⟩

/-- SECURE_UNMAP assigns to HLOS alone only. -/
theorem TakeBackShape.assignsOnly {vmids : List Int}
    (h : TakeBackShape c p vmids page a t as result) :
    AssignsOnly (fun _ dst => dst = hlosAlone) as := by
  have hback : ∀ {as : List Act} {result : Option Int},
      AssignShape (vmidMask vmids) hlosAlone t as result →
      AssignsOnly (fun _ dst => dst = hlosAlone) as := by
    intro as result h range src dst ret hact
    obtain ⟨e, he, ret', heq⟩ := h.mem _ hact
    cases heq
    rfl
  have hpage : ∀ {ret : Int} {rest : List Act}, AssignsNone rest →
      AssignsOnly (fun _ dst => dst = hlosAlone) (unassignPage vmids page ret :: rest) := by
    intro ret rest hrest range src dst ret' hact
    rcases List.mem_cons.mp hact with heq | hact
    · cases heq
      rfl
    · have hnone := hrest _ hact
      cases hnone
  cases h with
  | kept _ h => exact hback h
  | half _ h _ hacts =>
      refine (hback h).append (hpage ?_)
      rcases hacts with rfl | ⟨data, -, rfl⟩ <;> simp [Act.isAssign]
  | done h _ => exact (hback h).append (hpage (by simp [Act.isAssign]))

/-- SECURE_UNMAP looks for what it needs, reads the entry that it has found, and takes its memory
back. -/
inductive SecureUnmapParts (u : KiumdUser) (c : Nat) : List Act → Option Int → Prop where
  | looked {looks : List Act} {result : Option Int} : (∀ act ∈ looks, act.isLooking) →
      SecureUnmapParts u c looks result
  | taken {p : Nat} {looks : List Act} {data : SmmuMapData} {vmids : List Int} {page : U64}
      {a : Attachment} {t : SgTable} {back : List Act} {result : Option Int} :
      (∀ act ∈ .find c u.id (some p) :: looks, act.isLooking) → data.sgtPtr = some t →
      TakeBackShape c p vmids page a t back result →
      SecureUnmapParts u c (.find c u.id (some p) :: looks ++
        .read p data :: .unmapAttachment a t DMA_BIDIRECTIONAL :: back) result

theorem SecureUnmapShape.parts (h : SecureUnmapShape u c as result) :
    SecureUnmapParts u c as result := by
  cases h with
  | early _ hlooking => exact .looked hlooking
  | @found file v dev page entries p data data' a t back _ _ _ _ _ _ _ _ hsgt hback =>
      have hlooks : ∀ act ∈ .find c u.id (some p) :: .file u.vfioFd file :: .pgd dev.domain page ::
          (aclActs u.memParcel.aclList 0 entries ++ [.read p data]), act.isLooking := by
        have hacl : ∀ act ∈ aclActs u.memParcel.aclList 0 entries, act.isLooking := fun act hact =>
          Act.isLooking_of_isAcl (aclActs_isAcl act hact)
        simp only [List.forall_mem_cons, List.forall_mem_append]
        exact ⟨rfl, rfl, rfl, hacl, rfl, by simp⟩
      simpa using SecureUnmapParts.taken hlooks hsgt hback

theorem SecureUnmapShape.assignsOnly (h : SecureUnmapShape u c as result) :
    AssignsOnly (fun _ dst => dst = hlosAlone) as := by
  cases h.parts with
  | looked hlooking => exact (calm_of_isLooking hlooking).assignsNone.assignsOnly
  | @taken p looks data vmids page a t back _ hlooking _ hback =>
      have hlooks : AssignsNone (.find c u.id (some p) :: looks) :=
        (calm_of_isLooking hlooking).assignsNone
      have hunmap : AssignsNone [.read p data, .unmapAttachment a t DMA_BIDIRECTIONAL] := by
        simp [Act.isAssign]
      exact (hback.assignsOnly.prepend hunmap).prepend hlooks

/-! Requests on plain buffers assign nothing. -/

theorem OffsetShape.assignsNone {size : U64} {ptselect : Int}
    (h : OffsetShape size ptselect as result) : AssignsNone as := by
  cases h with
  | refused _ hsearches => exact (calm_of_isSearch hsearches).assignsNone
  | taken hsearches _ _ =>
      exact assignsNone_append.mpr
        ⟨(calm_of_isSearch hsearches).assignsNone, by simp [reserveActs, Act.isAssign]⟩

theorem AttachShape.assignsNone (h : AttachShape u c v d as result) : AssignsNone as := by
  cases h with
  | refused _ => simp [Act.isAssign]
  | attached _ _ hattached =>
      refine assignsNone_cons.mpr ⟨rfl, ?_⟩
      cases hattached with
      | detached _ | undomained _ _ => simp [Act.isAssign]
      | mapped hmaps hpublish =>
          refine assignsNone_append.mpr ⟨hmaps.calm.assignsNone, ?_⟩
          cases hpublish with
          | unpublished _ => exact assignsNone_nil
          | stale _ haddr | done haddr => simp [Act.isAssign, haddr.calm.assignsNone]

theorem MapShape.assignsNone (h : MapShape u c as result) : AssignsNone as := by
  have hopen : ∀ {p file d}, AssignsNone (openActs u p file d) := openActs_calm.assignsNone
  cases h with
  | early _ hopening => exact (calm_of_isOpening hopening).assignsNone
  | unreserved _ _ _ hoffset | uncookied _ _ _ _ hoffset =>
      simp [hopen, hoffset.assignsNone, Act.isAssign]
  | reserved _ _ _ hoffset _ hattach =>
      simp [hopen, hoffset.assignsNone, hattach.assignsNone, Act.isAssign]
  | plain _ _ hattach => simp [hopen, hattach.assignsNone]

theorem UnmapShape.assignsNone (h : UnmapShape u c as result) : AssignsNone as := by
  cases h with
  | early _ hearly =>
      intro act hact
      rw [hearly act hact]
      rfl
  | found _ hrelease =>
      refine assignsNone_cons.mpr ⟨rfl, ?_⟩
      cases hrelease with
      | empty _ hreads =>
          intro act hact
          obtain ⟨data, rfl⟩ := hreads act hact
          rfl
      | buffer _ _ hunmapped =>
          unfold clearActs
          split <;> simp [Act.isAssign, hunmapped.calm.assignsNone]

/-- SECURE_UNMAP deletes an entry after it has read it and taken back all of its memory. -/
theorem SecureUnmapShape.deletes (h : SecureUnmapShape u c as result) (hdeletes : Deletes c p as) :
    ∃ before data after t, as = before ++ .read p data :: after ∧ SparesEntries before ∧
      data.sgtPtr = some t ∧ ∀ e ∈ t.sgl, ∃ src, .assign (.sg e) src hlosAlone 0 ∈ as := by
  have hspares : ∀ {looks : List Act}, (∀ act ∈ looks, act.isLooking) →
      ∀ act ∈ looks, act.isDelete = false := by
    intro looks hlooking act hact
    have hlook := hlooking act hact
    cases act <;> first | rfl | cases hlook
  cases h.parts with
  | looked hlooking => exact absurd hdeletes (not_deletes (hspares hlooking))
  | @taken q looks data vmids page a t back _ hlooking hsgt hback =>
      have hlate : Deletes c p ([.read q data, .unmapAttachment a t DMA_BIDIRECTIONAL] ++ back) :=
        hdeletes.late (hspares hlooking)
      have hdeleted : Deletes c p back := hlate.late (by simp [Act.isDelete])
      obtain rfl : p = q := hback.onlyDeletes p hdeleted
      refine ⟨_, data, _, t, rfl, sparesEntries_of_isLooking hlooking, hsgt, fun e he => ?_⟩
      obtain ⟨src, hassign⟩ := mem_takenBack.mp ((hback.all hdeleted).2 e he)
      exact ⟨src, List.mem_append_right _ (.tail _ (.tail _ hassign))⟩

/-- UNMAP_BUF deletes an entry after it has read it. -/
theorem UnmapShape.deletes (h : UnmapShape u c as result) (hdeletes : Deletes c p as) :
    ∃ before data after, as = before ++ .read p data :: after ∧ SparesEntries before := by
  cases h with
  | early _ hearly =>
      refine absurd hdeletes (not_deletes fun act hact => ?_)
      rw [hearly act hact]
      rfl
  | @found q acts result _ hrelease =>
      have hfound : Deletes c p ([.find c u.id (some q)] ++ acts) := hdeletes
      have hdeleted : Deletes c p acts := hfound.late (by simp [Act.isDelete])
      obtain rfl : p = q := hrelease.onlyDeletes p hdeleted
      cases hrelease with
      | empty _ hreads =>
          refine absurd hdeleted (not_deletes fun act hact => ?_)
          obtain ⟨data, rfl⟩ := hreads act hact
          rfl
      | @buffer data _ _ _ _ _ _ _ _ =>
          exact ⟨[.find c u.id (some p)], data, _, rfl, by simp [Act.sparesEntries]⟩

end Shapes

/-! ## The owners of a place -/

/-- The service is a SECURE_MAP, and its list names the virtual machine. -/
def Service.Names (s : Service) (as : List Act) (vm : Int) : Prop :=
  ∃ c u, s = .ioctl ⟨c, .secureMap u⟩ ∧ NamesVm u as vm

/-- SECURE_MAP lends memory to HLOS and the machines of its list only, and never to nobody. -/
theorem LendsTo.owners {entries : List KiumdAclEntry} {page : U64} {t : SgTable}
    {range : MemRange} {dst : List QcomScmVmperm} (h : LendsTo entries page t range dst)
    (hne : entries ≠ []) :
    dst ≠ [] ∧ ∀ vm ∈ ownersOf dst, vm = QCOM_SCM_VMID_HLOS ∨ vm ∈ aclVmids entries := by
  have hback : hlosAlone ≠ [] ∧ ∀ vm ∈ ownersOf hlosAlone,
      vm = QCOM_SCM_VMID_HLOS ∨ vm ∈ aclVmids entries := by
    simp [hlosAlone, ownersOf]
  cases h with
  | pageBack | memoryBack _ => exact hback
  | page => simp [pageOwners, ownersOf]
  | memory _ =>
      have hvmids : ((aclVmids entries).zipWith QcomScmVmperm.mk (aclPerms entries)).map
          (·.vmid) = aclVmids entries := by
        simp [aclVmids, aclPerms, List.zipWith_map, List.zipWith_self]
      refine ⟨fun hnil => hne ?_, fun vm hvm => .inr ?_⟩
      · rw [hnil] at hvmids
        exact List.map_eq_nil_iff.mp hvmids.symm
      · rw [ownersOf, hvmids] at hvm
        exact List.mem_toFinset.mp hvm

/-- SECURE_MAP and SECURE_UNMAP. -/
def Service.isSecure : Service → Bool
  | .ioctl ⟨_, .secureMap _⟩ | .ioctl ⟨_, .secureUnmap _⟩ => true
  | _ => false

/-- The other services assign nothing. -/
theorem kiumdService_assignsNone (s : Service) (hb : Backed noNeeds w 0) :
    wp kernel .any (kiumdService s)
      (fun trace _ _ => s.isSecure = false → AssignsNone (acts trace)) w := by
  refine ⟨fun _ _ _ _ _ => trivial, fun trace result w' hexec hplain => ?_⟩
  cases s with
  | ioctl i =>
      have hshape : IoctlShape i (acts trace) result :=
        (kiumdIoctl_shows i).exec driver_admits hexec
      obtain ⟨c, request⟩ := i
      cases request with
      | mapBuf u => exact MapShape.assignsNone hshape
      | unmapBuf u => exact UnmapShape.assignsNone hshape
      | mmioMap ret₀ u => exact (MmioMapShape.calm hshape).assignsNone
      | mmioUnmap u => exact (MmioUnmapShape.calm hshape).assignsNone
      | secureMap u | secureUnmap u => cases hplain
  | iovaMapCtrl copied => exact (kiumdIovaCtrl_calm.exec driver_admits hexec).assignsNone
  | close c => exact (wp_exec (kiumdClose_calm hb) hexec).assignsNone

/-- The destinations of all assignments of a service are not empty; they are HLOS and, if it is a
SECURE_MAP, machines that its list names. -/
theorem kiumdService_assigns (s : Service) (hb : Backed noNeeds w 0) :
    wp kernel .any (kiumdService s) (fun trace _ _ => AssignsOnly (fun _ dst => dst ≠ [] ∧
      ∀ vm ∈ ownersOf dst, vm = QCOM_SCM_VMID_HLOS ∨ s.Names (acts trace) vm) (acts trace)) w := by
  refine ⟨fun _ _ _ _ _ => trivial, fun trace result w' hexec => ?_⟩
  have hnone := wp_exec (kiumdService_assignsNone s hb) hexec
  cases s with
  | ioctl i =>
      have hshape : IoctlShape i (acts trace) result :=
        (kiumdIoctl_shows i).exec driver_admits hexec
      obtain ⟨c, request⟩ := i
      cases request with
      | secureMap u =>
          cases SecureMapShape.lends hshape with
          | nothing hcalm => exact hcalm.assignsNone.assignsOnly
          | lent entries page d a hne hnames hlends =>
              intro range src dst ret hact
              obtain ⟨hdst, howners⟩ := LendsTo.owners (hlends _ hact) hne
              refine ⟨hdst, fun vm hvm => (howners vm hvm).imp id fun hmem => ?_⟩
              exact ⟨c, u, rfl, hnames vm hmem⟩
      | secureUnmap u =>
          refine (SecureUnmapShape.assignsOnly hshape).mono fun _ dst hdst => ?_
          simp [hdst, hlosAlone, ownersOf]
      | mapBuf | unmapBuf | mmioMap | mmioUnmap => exact (hnone rfl).assignsOnly
  | iovaMapCtrl | close => exact (hnone rfl).assignsOnly

variable {w₀ : World} {history : History Service KCall} {ok : Admission Service KCall World}

/-- The owner was one at first, is HLOS, or is named by the list of a SECURE_MAP of the place. -/
def Authorized (w₀ : World) (history : History Service KCall) (l : Loc) (vm : Int) : Prop :=
  vm ∈ w₀.owner l ∨ vm = QCOM_SCM_VMID_HLOS ∨
    ∃ e ∈ history, Assigned l (acts e.2) ∧ e.1.Names (acts e.2) vm

theorem Authorized.later {vm : Int} (h : Authorized w₀ history l vm)
    (e : Service × List (Event KCall)) : Authorized w₀ (e :: history) l vm :=
  h.imp id fun h => h.imp id fun ⟨e', he', hassigned⟩ => ⟨e', List.mem_cons_of_mem _ he', hassigned⟩

/-- In every run of services, whatever fails and whichever threads are killed, each owner of a place
of memory is HLOS, was one at first, or is named by an entry, which passes its check, of the list of
a SECURE_MAP that has assigned the place. A place with an owner never loses its last one. -/
theorem service_run_owners_named (hstart : w₀.Fresh)
    (h : Run kernel kiumdService ok w₀ history w) (l : Loc) :
    (∀ vm ∈ w.owner l, Authorized w₀ history l vm) ∧
      ((w₀.owner l).Nonempty → (w.owner l).Nonempty) := by
  have hinv : Backed noNeeds w 0 ∧ (∀ vm ∈ w.owner l, Authorized w₀ history l vm) ∧
      ((w₀.owner l).Nonempty → (w.owner l).Nonempty) := by
    refine h.invariant (fun history w => Backed noNeeds w 0 ∧
      (∀ vm ∈ w.owner l, Authorized w₀ history l vm) ∧
        ((w₀.owner l).Nonempty → (w.owner l).Nonempty))
      ⟨hstart.backed, fun vm hvm => .inl hvm, id⟩ ?_
    rintro history s w ⟨hb, howners, hnonempty⟩
    refine ⟨fun _ _ _ _ _ => trivial, fun trace result w' hexec _ => ?_⟩
    have hassigns := wp_exec (kiumdService_assigns s hb) hexec
    have howner : w'.owner l = ownerAfter l (acts trace) (w.owner l) := steps_owner hexec.steps
    refine ⟨wp_exec (kiumdService_keeps s hb) hexec, fun vm hvm => ?_, fun hfirst => ?_⟩
    · rw [howner] at hvm
      obtain hold | ⟨range, src, dst, hmem, hcontains, hdst⟩ := mem_ownerAfter hvm
      · exact (howners vm hold).later _
      · -- an owner that the service has made one
        refine .inr (((hassigns range src dst 0 hmem).2 vm hdst).imp id fun hnames => ?_)
        exact ⟨_, List.mem_cons_self, ⟨range, src, dst, hmem, hcontains⟩, hnames⟩
    · rw [howner]
      exact ownerAfter_nonempty (hnonempty hfirst) (hassigns.mono fun _ _ hdst => hdst.1)
  exact hinv.2

/-- A buffer is lent to the machine 9. -/
theorem service_run_owners_named_lent : ∃ history w,
    Run kernel kiumdService .any .initial history w ∧ 9 ∈ w.owner (.phys 0x4000) ∧
      Authorized .initial history (.phys 0x4000) 9 := by
  have hcheck : Run.check kernel kiumdService (Answers.plain fun _ _ => false).choose
      [.ioctl ⟨0, .secureMap plainUser⟩] .initial
      (fun _ w => decide (9 ∈ w.owner (.phys 0x4000))) = true := by
    decide +kernel
  obtain ⟨history, w, hrun, htest⟩ := Run.check_run hcheck
  have howner : 9 ∈ w.owner (.phys 0x4000) := of_decide_eq_true htest
  exact ⟨history, w, hrun, howner, (service_run_owners_named fresh_initial hrun _).1 9 howner⟩

/-! ## Memory of secure mappings -/

/-- The place is memory of a secure mapping in the table of the context `c`. -/
structure SecureEntry (w : World) (c p : Nat) (l : Loc) : Prop where
  mem : p ∈ w.table c
  vfioDev : (w.smaps p).vfioDev = none
  context : (w.smaps p).context = none
  memory : ∃ t, (w.smaps p).sgtPtr = some t ∧ ∃ e ∈ t.sgl, (MemRange.sg e).contains l = true

/-- The service leaves the place to virtual machines, and no entry says so. -/
inductive Leaks (l : Loc) : Service → List Act → Prop where
  /-- A SECURE_MAP has assigned the place and published no entry. -/
  | unpublished {c : Nat} {u : KiumdUser} {as : List Act} : Assigned l as →
      (∀ p data id, .add c p data id ∉ as) → Leaks l (.ioctl ⟨c, .secureMap u⟩) as
  /-- An UNMAP_BUF has deleted the entry of a secure mapping. -/
  | released {c p : Nat} {u : KiumdUser} {as : List Act} {data : SmmuMapData} {t : SgTable} :
      .read p data ∈ as → Deletes c p as → data.vfioDev = none → data.context = none →
      data.sgtPtr = some t → (∃ e ∈ t.sgl, (MemRange.sg e).contains l = true) →
      Leaks l (.ioctl ⟨c, .unmapBuf u⟩) as

theorem SecureEntry.keep (h : SecureEntry w c p l) (hsame : TablesSame w w')
    (hmem : p ∈ w'.table c) : SecureEntry w' c p l := by
  have hdata := hsame c p h.mem hmem
  refine ⟨hmem, ?_, ?_, ?_⟩ <;> rw [hdata]
  exacts [h.vfioDev, h.context, h.memory]

theorem SecureEntry.stays (h : SecureEntry w c p l) (hsame : TablesSame w w')
    (hsteps : Steps kernel w trace w') (hkept : ¬ Deletes c p (acts trace)) :
    SecureEntry w' c p l :=
  h.keep hsame (table_kept_steps hsteps h.mem hkept)

theorem mem_update_cons {T : Nat → List Nat} {c' q : Nat} (hp : p ∈ T c') :
    p ∈ Function.update T c (q :: T c) c' := by
  by_cases hc : c' = c
  · subst hc
    rw [Function.update_self]
    exact List.mem_cons_of_mem q hp
  · rwa [Function.update_of_ne hc]

/-- A request that maps a buffer leaves all entries. -/
theorem AddOutcome.table_mem {kind : SmmuMapData → Attachment → Prop} {c' : Nat}
    (h : AddOutcome w c kind trace w') (hp : p ∈ w.table c') : p ∈ w'.table c' := by
  cases h with
  | refused frame => rwa [World.table, frame.ctxs]
  | published q d a data _ _ _ frame | stale q d a data _ _ _ _ frame =>
      rw [World.table, frame.ctxs]
      show p ∈ (w.publish c q data).table c'
      rw [World.table_publish]
      exact mem_update_cons hp

theorem AddMmioOutcome.table_mem {c' : Nat} (h : AddMmioOutcome w c w') (hp : p ∈ w.table c') :
    p ∈ w'.table c' := by
  cases h with
  | refused frame => rwa [World.table, frame.ctxs]
  | retracted frame =>
      rw [World.table, frame.ctxs]
      show p ∈ (w.skipId c).table c'
      rwa [World.table_skipId]
  | published q m mmio _ _ frame =>
      rw [World.table, frame.ctxs]
      show p ∈ (w.publishMmio c q m mmio).table c'
      rw [World.table_publishMmio]
      exact mem_update_cons hp

/-- MMIO_UNMAP deletes the entry of an MMIO mapping only. -/
theorem RemoveMmioOutcome.table_mem {c' : Nat} (h : RemoveMmioOutcome w c w')
    (hp : p ∈ w.table c') (hcontext : (w.smaps p).context = none) : p ∈ w'.table c' := by
  cases h with
  | kept frame => rwa [World.table, frame.ctxs]
  | removed q m _ hmmio frame =>
      have hne : p ≠ q := by
        rintro rfl
        rw [hcontext] at hmmio
        cases hmmio
      rw [World.table, frame.ctxs]
      show p ∈ (w.unlink c q).table c'
      rw [World.table_unlink]
      by_cases hc : c' = c
      · subst hc
        rw [Function.update_self]
        exact (List.mem_erase_of_ne hne).mpr hp
      · rwa [Function.update_of_ne hc]

/-- Closing a file deletes no entry of a secure mapping. -/
theorem ClosesEntry.not_deletes {c' q : Nat} (h : ClosesEntry w c' q as)
    (hentry : SecureEntry w c p l) : ¬ Deletes c p as := by
  intro hdeletes
  -- an entry that is taken out has an MMIO mapping or a device
  cases h with
  | skipped | zeroFailed => simp [Deletes] at hdeletes
  | region hcontext _ =>
      obtain ⟨-, rfl⟩ : c = c' ∧ p = q := by simpa [Deletes] using hdeletes
      rw [hentry.context] at hcontext
      cases hcontext
  | plain hbuffer _ | zero hbuffer _ =>
      obtain ⟨-, rfl⟩ : c = c' ∧ p = q := by simpa [Deletes] using hdeletes
      exact hbuffer.known hentry.vfioDev

/-- HLOS alone owns the place, or it is memory of a secure mapping in a table. -/
def Kept (w : World) (l : Loc) : Prop :=
  w.owner l = {QCOM_SCM_VMID_HLOS} ∨ ∃ c p, SecureEntry w c p l

/-- A service that lends nothing and deletes no entry of a secure mapping. -/
theorem Kept.calm (h : Kept w l) (hsame : TablesSame w w') (hsteps : Steps kernel w trace w')
    (hassigns : AssignsNone (acts trace))
    (hmem : ∀ c p, SecureEntry w c p l → p ∈ w'.table c) : Kept w' l := by
  refine h.imp (fun howner => ?_) fun ⟨c, p, hentry⟩ => ⟨c, p, hentry.keep hsame (hmem c p hentry)⟩
  rw [steps_owner hsteps, ownerAfter_of_not_assigned hassigns.not_assigned, howner]

/-- SECURE_MAP publishes an entry for the memory that it lends, or leaks it. -/
theorem Kept.secureMap {u : KiumdUser} {a : Nat} (h : Kept w (.phys a)) (hsame : TablesSame w w')
    (hsteps : Steps kernel w trace w') (hadds : AddsOnce c (acts trace))
    (hlends : SecureMapLends u c (acts trace))
    (hmem : ∀ c p, SecureEntry w c p (.phys a) → p ∈ w'.table c) :
    Kept w' (.phys a) ∨ Leaks (.phys a) (.ioctl ⟨c, .secureMap u⟩) (acts trace) := by
  by_cases hassigned : Assigned (.phys a) (acts trace)
  swap
  · left
    refine h.imp (fun howner => ?_) fun ⟨c, p, hentry⟩ =>
      ⟨c, p, hentry.keep hsame (hmem c p hentry)⟩
    rw [steps_owner hsteps, ownerAfter_of_not_assigned hassigned, howner]
  by_cases hadd : ∀ p data id, .add c p data id ∉ acts trace
  · exact .inr (.unpublished hassigned hadd)
  push Not at hadd
  obtain ⟨p, data, id, hadd⟩ := hadd
  cases hlends with
  | nothing hcalm => exact absurd hassigned hcalm.assignsNone.not_assigned
  | lent entries page d b hne hnames hlends =>
      left; right
      refine ⟨c, p, ?_⟩
      have hkept : ¬ Deletes c p (acts trace) := by
        rintro (hdelete | hdelete | hdelete) <;> exact hlends _ hdelete
      have hdraws : AddsEntry c p (acts trace) := ⟨.add c p data id, hadd, id, if_pos rfl⟩
      obtain ⟨before, after, hsplit⟩ := List.append_of_mem hadd
      have hlate : ¬ Deletes c p after := by
        rw [hsplit, deletes_append, not_or] at hkept
        exact fun hdeletes => hkept.2 (hdeletes.imp (.tail _) (.imp (.tail _) (.tail _)))
      obtain ⟨-, -, act, hact, hdescribes⟩ := hadds.describes hsteps c p hdraws
      have hentry : ∃ id, w'.smaps p = { secureEntry d b with id := id } := by
        cases hdescribes with
        | @buffer data' id' hdata =>
            obtain ⟨-, rfl⟩ := hlends _ hact
            exact ⟨id', hdata⟩
        | mmio _ _ => exact (hlends _ hact).elim
      obtain ⟨id', hdata⟩ := hentry
      obtain ⟨range, src, dst, hassign, hcontains⟩ := hassigned
      have hmemory : ∃ e ∈ b.table.sgl, (MemRange.sg e).contains (.phys a) = true := by
        cases hlends _ hassign with
        | page | pageBack => cases hcontains
        | memory he | memoryBack he => exact ⟨_, he, hcontains⟩
      refine ⟨added_mem_steps hsteps hsplit hlate, ?_, ?_, b.table, ?_, hmemory⟩
      all_goals
        rw [hdata]
        rfl

/-- SECURE_UNMAP takes back the memory of an entry that it deletes. -/
theorem Kept.secureUnmap {u : KiumdUser} {result : Option Int} (h : Kept w l)
    (hsame : TablesSame w w') (hsteps : Steps kernel w trace w')
    (hshape : SecureUnmapShape u c (acts trace) result)
    (hlive : ∀ p ∈ w.table c, .smap p ∈ w.held)
    (hothers : ∀ c' ≠ c, w'.table c' = w.table c') : Kept w' l := by
  have hhlos : ∀ o, o = {QCOM_SCM_VMID_HLOS} ∨ Assigned l (acts trace) →
      ownerAfter l (acts trace) o = {QCOM_SCM_VMID_HLOS} := fun o =>
    ownerAfter_hlos (hshape.assignsOnly.mono fun _ _ hdst _ => hdst)
  rcases h with howner | ⟨c', p, hentry⟩
  · left
    rw [steps_owner hsteps, hhlos _ (.inl howner)]
  by_cases hc : c' = c
  swap
  · right
    refine ⟨c', p, hentry.keep hsame ?_⟩
    rw [hothers c' hc]
    exact hentry.mem
  subst hc
  by_cases hdeletes : Deletes c' p (acts trace)
  swap
  · exact .inr ⟨c', p, hentry.stays hsame hsteps hdeletes⟩
  -- the entry was read as it is, so that its memory is the memory taken back
  obtain ⟨before, data, after, t, hacts, hspares, hsgt, hback⟩ := hshape.deletes hdeletes
  have hdata : data = w.smaps p := read_held_steps hsteps hacts hspares (hlive p hentry.mem)
  obtain ⟨t', hsgt', e, he, hcontains⟩ := hentry.memory
  rw [← hdata, hsgt] at hsgt'
  obtain rfl := Option.some.inj hsgt'
  obtain ⟨src, hassign⟩ := hback e he
  left
  rw [steps_owner hsteps, hhlos _ (.inr ⟨_, src, hlosAlone, hassign, hcontains⟩)]

/-- UNMAP_BUF lends nothing, but may delete the entry of a secure mapping. -/
theorem Kept.unmapBuf {u : KiumdUser} {result : Option Int} (h : Kept w l)
    (hsame : TablesSame w w') (hsteps : Steps kernel w trace w')
    (hshape : UnmapShape u c (acts trace) result)
    (hlive : ∀ p ∈ w.table c, .smap p ∈ w.held)
    (hothers : ∀ c' ≠ c, w'.table c' = w.table c') :
    Kept w' l ∨ Leaks l (.ioctl ⟨c, .unmapBuf u⟩) (acts trace) := by
  rcases h with howner | ⟨c', p, hentry⟩
  · left; left
    rw [steps_owner hsteps, ownerAfter_of_not_assigned hshape.assignsNone.not_assigned, howner]
  by_cases hc : c' = c
  swap
  · left; right
    refine ⟨c', p, hentry.keep hsame ?_⟩
    rw [hothers c' hc]
    exact hentry.mem
  subst hc
  by_cases hdeletes : Deletes c' p (acts trace)
  swap
  · exact .inl (.inr ⟨c', p, hentry.stays hsame hsteps hdeletes⟩)
  right
  obtain ⟨before, data, after, hacts, hspares⟩ := hshape.deletes hdeletes
  have hdata : data = w.smaps p := read_held_steps hsteps hacts hspares (hlive p hentry.mem)
  have hread : .read p (w.smaps p) ∈ acts trace := by
    rw [hacts, hdata]
    exact List.mem_append_right _ List.mem_cons_self
  obtain ⟨t, hsgt, hmemory⟩ := hentry.memory
  exact .released hread hdeletes hentry.vfioDev hentry.context hsgt hmemory

/-- A service keeps memory that virtual machines own in secure mappings, or leaks it. -/
theorem kiumdService_kept {a : Nat} (s : Service) (hb : Backed noNeeds w 0)
    (h : Kept w (.phys a)) :
    wp kernel .any (kiumdService s) (fun trace _ w' =>
      Kept w' (.phys a) ∨ Leaks (.phys a) s (acts trace)) w := by
  refine ⟨fun _ _ _ _ _ => trivial, fun trace result w' hexec => ?_⟩
  have hsame := wp_exec (kiumdService_tablesSame s hb) hexec
  have hnone := wp_exec (kiumdService_assignsNone s hb) hexec
  have hothers := (wp_exec (kiumdService_othersKept s hb) hexec).ctxs
  cases s with
  | ioctl i =>
      have hshape : IoctlShape i (acts trace) result :=
        (kiumdIoctl_shows i).exec driver_admits hexec
      obtain ⟨c, request⟩ := i
      have hlive : ∀ p ∈ w.table c, .smap p ∈ w.held := fun p hp => hb.smap_mem hp
      have htables : ∀ c' ≠ c, w'.table c' = w.table c' := fun c' hc =>
        congrArg KiumdCtx.smmuTable (hothers c' fun heq => hc (Option.some.inj heq))
      cases request with
      | mapBuf u =>
          left
          refine h.calm hsame hexec.steps (hnone rfl) fun c' p hentry => ?_
          exact (wp_exec kiumdDmabufVfioMap_adds hexec).table_mem hentry.mem
      | unmapBuf u => exact h.unmapBuf hsame hexec.steps hshape hlive htables
      | secureMap u =>
          refine h.secureMap hsame hexec.steps hshape.addsOnce (SecureMapShape.lends hshape) ?_
          exact fun c' p hentry =>
            (wp_exec kiumdDmabufVfioSecureMap_adds hexec).table_mem hentry.mem
      | secureUnmap u => exact .inl (h.secureUnmap hsame hexec.steps hshape hlive htables)
      | mmioMap ret₀ u =>
          left
          refine h.calm hsame hexec.steps (hnone rfl) ?_
          exact fun c' p hentry => (wp_exec kiumdMmioSmmuMap_adds hexec).table_mem hentry.mem
      | mmioUnmap u =>
          left
          refine h.calm hsame hexec.steps (hnone rfl) ?_
          have hout := wp_exec (kiumdMmioSmmuUnmap_removes hlive fun p hp m hm =>
            hb.mmioCtx_mem hp hm) hexec
          exact fun c' p hentry => hout.table_mem hentry.mem hentry.context
  | iovaMapCtrl copied =>
      left
      refine h.calm hsame hexec.steps (hnone rfl) ?_
      intro c p hentry
      have hctxs : w'.ctxs c = w.ctxs c := hothers c fun heq => by cases heq
      rw [World.table, hctxs]
      exact hentry.mem
  | close c =>
      left
      refine h.calm hsame hexec.steps (hnone rfl) fun c' p hentry => ?_
      exact wp_exec (kiumdClose_table_mem hb hentry.mem fun _ _ hcloses =>
        hcloses.not_deletes hentry) hexec

/-- In every run of services from a state in which HLOS alone owns all memory of buffers, whatever
fails and whichever threads are killed: a place of such memory that HLOS does not own alone is
memory of a secure mapping in a table, or a SECURE_MAP has lent it and published no entry, or an
UNMAP_BUF has deleted the entry of a secure mapping that has it. -/
theorem service_run_lent_accounted (hstart : w₀.Fresh)
    (hhlos : ∀ a, w₀.owner (.phys a) = {QCOM_SCM_VMID_HLOS})
    (h : Run kernel kiumdService ok w₀ history w) (a : Nat)
    (hlent : w.owner (.phys a) ≠ {QCOM_SCM_VMID_HLOS}) :
    (∃ c p, SecureEntry w c p (.phys a)) ∨ ∃ e ∈ history, Leaks (.phys a) e.1 (acts e.2) := by
  have hinv : Backed noNeeds w 0 ∧
      (Kept w (.phys a) ∨ ∃ e ∈ history, Leaks (.phys a) e.1 (acts e.2)) := by
    refine h.invariant (fun history w => Backed noNeeds w 0 ∧
      (Kept w (.phys a) ∨ ∃ e ∈ history, Leaks (.phys a) e.1 (acts e.2)))
      ⟨hstart.backed, .inl (.inl (hhlos a))⟩ ?_
    rintro history s w ⟨hb, hkept⟩
    refine ⟨fun _ _ _ _ _ => trivial, fun trace result w' hexec _ => ?_⟩
    refine ⟨wp_exec (kiumdService_keeps s hb) hexec, ?_⟩
    rcases hkept with hkept | ⟨e, he, hleaks⟩
    · refine (wp_exec (kiumdService_kept s hb hkept) hexec).imp id fun hleaks => ?_
      exact ⟨_, List.mem_cons_self, hleaks⟩
    · exact .inr ⟨e, List.mem_cons_of_mem _ he, hleaks⟩
  exact hinv.2.imp (fun hkept => hkept.resolve_left hlent) id

/-- After a SECURE_MAP, an UNMAP_BUF of its entry leaves the memory to the machine 9. -/
theorem service_run_lent_accounted_released : ∃ history w,
    Run kernel kiumdService .any .initial history w ∧ w.table 0 = [] ∧
      9 ∈ w.owner (.phys 0x4000) ∧ ((∃ c p, SecureEntry w c p (.phys 0x4000)) ∨
        ∃ e ∈ history, Leaks (.phys 0x4000) e.1 (acts e.2)) := by
  have hcheck : Run.check kernel kiumdService (Answers.plain fun _ _ => false).choose
      [.ioctl ⟨0, .secureMap plainUser⟩, .ioctl ⟨0, .unmapBuf plainUser⟩] .initial
      (fun _ w => decide (w.table 0 = []) && decide (9 ∈ w.owner (.phys 0x4000))) = true := by
    decide +kernel
  obtain ⟨history, w, hrun, htest⟩ := Run.check_run hcheck
  rw [Bool.and_eq_true, decide_eq_true_eq, decide_eq_true_eq] at htest
  have hlent : w.owner (.phys 0x4000) ≠ {QCOM_SCM_VMID_HLOS} := by
    intro hhlos
    have hmem := htest.2
    rw [hhlos] at hmem
    exact absurd hmem (by decide)
  exact ⟨history, w, hrun, htest.1, htest.2,
    service_run_lent_accounted fresh_initial (fun _ => rfl) hrun _ hlent⟩

end SafeLinux.Kiumd
