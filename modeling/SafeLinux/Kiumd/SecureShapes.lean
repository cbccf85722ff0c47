import SafeLinux.Kiumd.BufferShapes
import SafeLinux.Kiumd.Secure

/-!
# The actions of SECURE_MAP and SECURE_UNMAP

Every execution of `kiumd_dmabuf_vfio_secure_map` and `kiumd_dmabuf_vfio_secure_unmap`, whatever
the kernel answers, shows one of the sequences of actions listed here.
-/

namespace SafeLinux.Kiumd

open Effects
open Effects.Program (perform)

/-! ## Access control lists -/

/-- The actions that read the entries of an access control list from `index` on. -/
def aclActs (list : Nat) : (index : Nat) → List KiumdAclEntry → List Act
  | _, [] => []
  | index, entry :: rest => .acl list index entry :: aclActs list (index + 1) rest

/-- The virtual machines of an access control list. -/
def aclVmids (entries : List KiumdAclEntry) : List Int := entries.map (·.vmid.toInt)

/-- The rights of an access control list. -/
def aclPerms (entries : List KiumdAclEntry) : List Int := entries.map (·.perms.toInt)

/-- An action that reads an access control list. -/
def Act.isAcl : Act → Bool
  | .acl _ _ _ => true
  | _ => false

theorem aclActs_isAcl {list index : Nat} {entries : List KiumdAclEntry} :
    ∀ act ∈ aclActs list index entries, act.isAcl := by
  induction entries generalizing index with
  | nil => simp [aclActs]
  | cons entry rest ih => simpa [aclActs, Act.isAcl] using ih

/-- The actions of the loop over the entries of an access control list. -/
inductive AclShape (list count index : Nat) : Shape Act (Except Int (List Int × List Int)) where
  | refused {acts : List Act} {ret : Int} : ret < 0 → (∀ act ∈ acts, act.isAcl) →
      AclShape list count index acts (some (.error ret))
  | read {entries : List KiumdAclEntry} : entries.length = count →
      (∀ entry ∈ entries, aclEntryOk entry) →
      AclShape list count index (aclActs list index entries)
        (some (.ok (aclVmids entries, aclPerms entries)))

theorem aclEntries_shows {list count index : Nat} :
    Shows (aclEntries list count index) (AclShape list count index) := by
  induction count generalizing index with
  | zero =>
      have hread : AclShape list 0 index (aclActs list index []) (some (.ok ([], []))) :=
        .read rfl (by simp)
      exact shows_pure hread
  | succ count ih =>
      unfold aclEntries
      refine shows_call fun entry hentry => ?_
      cases entry with
      | error ret => exact shows_pure (.refused hentry (by simp [driver, KCall.act]))
      | ok entry =>
      dsimp only
      split
      · exact shows_pure (.refused (by decide) (by simp [driver, KCall.act, Act.isAcl]))
      rename_i hok
      refine shows_bind ih ?_ fun acts h => by cases h
      intro acts lists hlists
      cases hlists with
      | refused hret hacl =>
          refine shows_pure (.refused hret ?_)
          rw [List.append_nil]
          intro act hact
          rcases List.mem_cons.mp hact with rfl | hact
          · rfl
          · exact hacl act hact
      | @read entries hlength hentries =>
          have hread : AclShape list (count + 1) index (aclActs list index (entry :: entries))
              (some (.ok (aclVmids (entry :: entries), aclPerms (entry :: entries)))) := by
            refine .read (by rw [List.length_cons, hlength]) ?_
            intro e he
            rcases List.mem_cons.mp he with rfl | he
            · exact not_not.mp hok
            · exact hentries e he
          refine shows_pure ?_
          rw [List.append_nil]
          exact hread

/-- The actions of `kiumd_acl_to_vmid_perms_list`. -/
inductive AclListsShape (parcel : KiumdMemParcel) : Shape Act (Except Int AclLists) where
  | refused {acts : List Act} {ret : Int} : ret < 0 → (∀ act ∈ acts, act.isAcl) →
      AclListsShape parcel acts (some (.error ret))
  | read {entries : List KiumdAclEntry} {vmidsPtr permsPtr : Nat} :
      entries.length = parcel.nrAclEntries.toNat → entries ≠ [] →
      (∀ entry ∈ entries, aclEntryOk entry) →
      AclListsShape parcel (aclActs parcel.aclList 0 entries)
        (some (.ok ⟨vmidsPtr, permsPtr, aclVmids entries, aclPerms entries⟩))

theorem kiumdAclToVmidPermsList_shows {parcel : KiumdMemParcel} :
    Shows (kiumdAclToVmidPermsList parcel) (AclListsShape parcel) := by
  unfold kiumdAclToVmidPermsList
  split
  · exact shows_pure (.refused (by decide) (by simp))
  rename_i hparcel
  split
  · exact shows_pure (.refused (by decide) (by simp))
  refine shows_idle (fun _ => rfl) fun vmidsPtr _ => ?_
  cases vmidsPtr with
  | none => exact shows_pure (.refused (by decide) (by simp))
  | some vmidsPtr =>
  refine shows_idle (fun _ => rfl) fun permsPtr _ => ?_
  cases permsPtr with
  | none =>
      exact shows_idle (fun _ => rfl) fun _ _ => shows_pure (.refused (by decide) (by simp))
  | some permsPtr =>
  refine shows_bind aclEntries_shows ?_ fun acts h => by cases h
  intro acts lists hlists
  cases hlists with
  | refused hret hacl =>
      refine shows_idle (fun _ => rfl) fun _ _ => shows_idle (fun _ => rfl) fun _ _ => ?_
      refine shows_pure ?_
      rw [List.append_nil]
      exact .refused hret hacl
  | @read entries hlength hentries =>
      have hne : entries ≠ [] := by
        rintro rfl
        refine hparcel (.inl (BitVec.eq_of_toNat_eq ?_))
        rw [← hlength]
        rfl
      refine shows_pure ?_
      rw [List.append_nil]
      exact .read hlength hne hentries

/-! ## Owners -/

/-- The actions of the loop over a scatterlist: the entries are assigned in turn up to the first
one that cannot be. -/
inductive EntriesShape (src : U64) (dst : List QcomScmVmperm) : List SgEntry → Shape Act Int where
  | done : EntriesShape src dst [] [] (some 0)
  | stopped {sg : SgEntry} {rest : List SgEntry} {ret : Int} : ret < 0 →
      EntriesShape src dst (sg :: rest) [.assign (.sg sg) src dst ret] (some ret)
  | next {sg : SgEntry} {rest : List SgEntry} {acts : List Act} {result : Option Int} :
      EntriesShape src dst rest acts result →
      EntriesShape src dst (sg :: rest) (.assign (.sg sg) src dst 0 :: acts) result

theorem hypAssignEntries_shows {src : U64} {dst : List QcomScmVmperm} {sgl : List SgEntry} :
    Shows (hypAssignEntries src dst sgl) (EntriesShape src dst sgl) := by
  induction sgl with
  | nil => exact shows_pure .done
  | cons sg rest ih =>
      unfold hypAssignEntries
      refine shows_act _ (fun _ => rfl) fun ret hret => ?_
      split
      · rename_i hne
        exact shows_pure (.stopped (lt_of_le_of_ne hret hne))
      · rename_i hzero
        obtain rfl : ret = 0 := not_not.mp hzero
        exact ih.mono fun _ _ h => .next h

/-- The actions of `kiumd_hyp_assign_sg` and of `kiumd_hyp_unassign_sg` on a table. -/
inductive AssignShape (src : U64) (dst : List QcomScmVmperm) (t : SgTable) : Shape Act Int where
  | refused {ret : Int} : ret < 0 → AssignShape src dst t [] (some ret)
  | entries {acts : List Act} {result : Option Int} : t.sgl ≠ [] →
      EntriesShape src dst t.sgl acts result → AssignShape src dst t acts result

theorem EntriesShape.nonpos {src : U64} {dst : List QcomScmVmperm} {sgl : List SgEntry}
    {acts : List Act} {result : Option Int} (h : EntriesShape src dst sgl acts result) :
    ∃ ret ≤ 0, result = some ret := by
  induction h with
  | done => exact ⟨0, le_rfl, rfl⟩
  | stopped hret => exact ⟨_, le_of_lt hret, rfl⟩
  | next _ ih => exact ih

theorem AssignShape.nonpos {src : U64} {dst : List QcomScmVmperm} {t : SgTable}
    {acts : List Act} {result : Option Int} (h : AssignShape src dst t acts result) :
    ∃ ret ≤ 0, result = some ret := by
  cases h with
  | refused hret => exact ⟨_, le_of_lt hret, rfl⟩
  | entries _ h => exact h.nonpos

/-- An action on the memory of a buffer. -/
def Act.isSgAssign : Act → Bool
  | .assign (.sg _) _ _ _ => true
  | _ => false

theorem EntriesShape.isSgAssign {src : U64} {dst : List QcomScmVmperm} {sgl : List SgEntry}
    {as : List Act} {result : Option Int} (h : EntriesShape src dst sgl as result) :
    ∀ act ∈ as, act.isSgAssign = true := by
  induction h with
  | done => simp
  | stopped _ => simp [Act.isSgAssign]
  | next _ ih => simpa [Act.isSgAssign] using ih

theorem AssignShape.isSgAssign {src : U64} {dst : List QcomScmVmperm} {t : SgTable}
    {as : List Act} {result : Option Int} (h : AssignShape src dst t as result) :
    ∀ act ∈ as, act.isSgAssign = true := by
  cases h with
  | refused _ => simp
  | entries _ h => exact h.isSgAssign

theorem kiumdHypUnassignSg_shows {t : SgTable} {vmids : List Int} :
    Shows (kiumdHypUnassignSg (.ptr t) vmids) (AssignShape (vmidMask vmids) hlosAlone t) := by
  unfold kiumdHypUnassignSg
  split
  · exact shows_pure (.refused (by decide))
  dsimp only
  split
  · exact shows_pure (.refused (by decide))
  · rename_i hne
    exact hypAssignEntries_shows.mono fun _ _ h => .entries (by simpa using hne) h

/-- An error pointer in place of a table is dereferenced. -/
theorem kiumdHypUnassignSg_err_shows {e : Int} {vmids : List Int} (hpos : vmids ≠ []) :
    Shows (kiumdHypUnassignSg (.err e) vmids) fun acts result => acts = [] ∧ result = none := by
  have hlength : ¬ vmids.length ≤ 0 := by simpa using hpos
  unfold kiumdHypUnassignSg
  rw [if_neg hlength]
  exact shows_halt ⟨rfl, rfl⟩

theorem kiumdHypAssignSg_shows {t : SgTable} {vmids perms : List Int} :
    Shows (kiumdHypAssignSg t vmids perms)
      (AssignShape (vmidBit QCOM_SCM_VMID_HLOS) (vmids.zipWith QcomScmVmperm.mk perms) t) := by
  unfold kiumdHypAssignSg
  split
  · exact shows_pure (.refused (by decide))
  split
  · exact shows_pure (.refused (by decide))
  rename_i hne
  refine shows_idle (fun _ => rfl) fun dst _ => ?_
  cases dst with
  | none => exact shows_pure (.refused (by decide))
  | some dst =>
      refine shows_bind hypAssignEntries_shows ?_ ?_
      · intro acts ret h
        refine shows_idle (fun _ => rfl) fun _ _ => shows_pure ?_
        rw [List.append_nil]
        exact .entries (by simpa using hne) h
      · intro acts h
        exact .entries (by simpa using hne) h

/-- The owners of the page table while it is handed over. -/
def pageOwners (vmids : List Int) : List QcomScmVmperm :=
  ⟨QCOM_SCM_VMID_HLOS, QCOM_SCM_PERM_RW⟩ ::
    vmids.map fun vmid => ⟨vmid, QCOM_SCM_PERM_READ⟩

/-- The actions of `kiumd_io_pgtable_hyp_assign_page`. -/
inductive PageShape (vmids : List Int) (page : U64) : Shape Act Int where
  | refused {ret : Int} : ret < 0 → PageShape vmids page [] (some ret)
  | asked {ret : Int} : ret ≤ 0 → PageShape vmids page
      [.assign (.pgd page) (vmidBit QCOM_SCM_VMID_HLOS) (pageOwners vmids) ret] (some ret)

theorem kiumdIoPgtableHypAssignPage_shows {vmids : List Int} {page : U64} :
    Shows (kiumdIoPgtableHypAssignPage vmids page) (PageShape vmids page) := by
  unfold kiumdIoPgtableHypAssignPage
  refine shows_idle (fun _ => rfl) fun dst _ => ?_
  cases dst with
  | none => exact shows_pure (.refused (by decide))
  | some dst =>
      refine shows_act _ (fun _ => rfl) fun ret hret => ?_
      exact shows_idle (fun _ => rfl) fun _ _ => shows_pure (.asked hret)

/-- The action of `kiumd_io_pgtable_hyp_unassign_page`. -/
def unassignPage (vmids : List Int) (page : U64) (ret : Int) : Act :=
  .assign (.pgd page) (vmidBit QCOM_SCM_VMID_HLOS ||| vmidMask vmids) hlosAlone ret

theorem kiumdIoPgtableHypUnassignPage_shows {vmids : List Int} {page : U64} :
    Shows (kiumdIoPgtableHypUnassignPage vmids page) fun acts result =>
      ∃ ret ≤ 0, acts = [unassignPage vmids page ret] ∧ result = some ret :=
  shows_perform fun ret hret => ⟨ret, hret, rfl, rfl⟩

/-- The actions of `kiumd_get_pgd`. -/
inductive PgdShape (dev : Device) : Shape Act (Except Int U64) where
  | refused {ret : Int} : ret < 0 → PgdShape dev [] (some (.error ret))
  | found {page : U64} : PgdShape dev [.pgd dev.domain page] (some (.ok page))

theorem kiumdGetPgd_shows {dev : Device} : Shows (kiumdGetPgd dev) (PgdShape dev) := by
  unfold kiumdGetPgd
  refine shows_idle (fun answer => by cases answer <;> rfl) fun domain hdomain => ?_
  cases domain with
  | none => exact shows_pure (.refused (by decide))
  | some domain =>
      obtain rfl : domain = dev.domain := hdomain
      refine shows_call fun page _ => ?_
      cases page with
      | none => exact shows_pure (.refused (by decide))
      | some page => exact shows_pure .found

/-! ## SECURE_MAP -/

/-- The entry SECURE_MAP publishes. -/
def secureEntry (d : DmaBuf) (a : Attachment) : SmmuMapData where
  dmabufattach := some a
  sgtPtr := some a.table
  dmabufPtr := some d

/-- The actions of the label `hyp_unassign_table`. -/
def unassignTableActs (vmids : List Int) (page : U64) (ret : Int) (d : DmaBuf) (a : Attachment) :
    List Act :=
  [unassignPage vmids page ret, .detach d a, .put d]

/-- The actions of the publication of a secure mapping. -/
inductive SecurePublishShape (u : KiumdUser) (c : Nat) (vmids : List Int) (page : U64) (d : DmaBuf)
    (a : Attachment) : Shape Act Int where
  /-- There was no memory for the entry. -/
  | unpublished {ret : Int} : ret ≠ 0 → SecurePublishShape u c vmids page d a [] (some ret)
  /-- The reply could not be copied. -/
  | stale {p : Nat} {id : U32} {addr : U64} {back : List Act} {taken : Option Int}
      {ret ret' : Int} : ret ≠ 0 → AssignShape (vmidMask vmids) hlosAlone a.table back taken →
      SecurePublishShape u c vmids page d a
        (.alloc p :: .add c p (secureEntry d a) id :: .dmaAddress a.table addr ::
          .reply (.user { u with id := id, dmaAddr := addr }) false ::
          .unmapAttachment a a.table DMA_BIDIRECTIONAL ::
          (back ++ unassignTableActs vmids page ret' d a)) (some ret)
  | done {p : Nat} {id : U32} {addr : U64} :
      SecurePublishShape u c vmids page d a
        [.alloc p, .add c p (secureEntry d a) id, .dmaAddress a.table addr,
          .reply (.user { u with id := id, dmaAddr := addr }) true] (some 0)

/-- The actions of SECURE_MAP once the buffer is attached. -/
inductive SecureAttachedShape (u : KiumdUser) (c : Nat) (vmids perms : List Int) (page : U64)
    (d : DmaBuf) (a : Attachment) : Shape Act Int where
  /-- The page table could not be handed over. -/
  | refused {handed : List Act} {ret : Int} : ret < 0 →
      (handed = [] ∨ PageShape vmids page handed (some ret)) →
      SecureAttachedShape u c vmids perms page d a (handed ++ [.detach d a, .put d]) (some ret)
  /-- The memory of the buffer could not be handed over. -/
  | unassigned {handed given : List Act} {ret ret' : Int} : PageShape vmids page handed (some 0) →
      ret < 0 → AssignShape (vmidBit QCOM_SCM_VMID_HLOS) (vmids.zipWith QcomScmVmperm.mk perms)
        a.table given (some ret) →
      SecureAttachedShape u c vmids perms page d a
        (handed ++ (given ++ unassignTableActs vmids page ret' d a)) (some ret)
  /-- The buffer could not be mapped, and the error pointer was used. -/
  | unmapped {handed given : List Act} : PageShape vmids page handed (some 0) →
      AssignShape (vmidBit QCOM_SCM_VMID_HLOS) (vmids.zipWith QcomScmVmperm.mk perms)
        a.table given (some 0) →
      SecureAttachedShape u c vmids perms page d a (handed ++ given) none
  | mapped {handed given acts : List Act} {result : Option Int} :
      PageShape vmids page handed (some 0) →
      AssignShape (vmidBit QCOM_SCM_VMID_HLOS) (vmids.zipWith QcomScmVmperm.mk perms)
        a.table given (some 0) →
      SecurePublishShape u c vmids page d a acts result →
      SecureAttachedShape u c vmids perms page d a
        (handed ++ (given ++ .mapAttachment a u.unmapDir a.table :: acts)) result

/-- An action that only looks for what a secure request names. -/
def Act.isLooking : Act → Bool
  | .file _ _ | .buffer _ _ | .pgd _ _ | .acl _ _ _ | .find _ _ _ | .read _ _ => true
  | _ => false

/-- The actions of SECURE_MAP. -/
inductive SecureMapShape (u : KiumdUser) (c : Nat) : Shape Act Int where
  /-- Something failed before the buffer was attached. -/
  | early {acts : List Act} {result : Option Int} : result ≠ some 0 →
      (∀ act ∈ acts, act.isLooking) → SecureMapShape u c acts result
  | attached {file : File} {v : VfioDevice} {page : U64} {d : DmaBuf} {a : Attachment}
      {entries : List KiumdAclEntry} {acts : List Act} {result : Option Int} :
      file.privateData = some (some v) → v.dev = some a.dev →
      entries.length = u.memParcel.nrAclEntries.toNat → entries ≠ [] →
      (∀ entry ∈ entries, aclEntryOk entry) → a.Fits d a.dev →
      SecureAttachedShape u c (aclVmids entries) (aclPerms entries) page d a acts result →
      SecureMapShape u c (.file u.vfioFd file :: .pgd a.dev.domain page :: .buffer u.dmaBufFd d ::
        (aclActs u.memParcel.aclList 0 entries ++ .attach d a :: acts)) result

theorem Act.isLooking_of_isAcl {act : Act} (h : act.isAcl) : act.isLooking := by
  cases act <;> first | rfl | cases h

variable {u : KiumdUser} {c : Nat} {file : File} {acl : AclLists} {d : DmaBuf} {a : Attachment}
  {page : U64} {ret : Int} {R : Shape Act Int}

theorem secureCloseFile_shows (h : R [] (some ret)) : Shows (secureCloseFile file ret) R :=
  shows_idle (fun _ => rfl) fun _ _ => shows_pure h

theorem secureFreeMem_shows (h : R [] (some ret)) : Shows (secureFreeMem file acl ret) R :=
  shows_idle (fun _ => rfl) fun _ _ => shows_idle (fun _ => rfl) fun _ _ => secureCloseFile_shows h

theorem secureDetach_shows (h : R [.detach d a, .put d] (some ret)) :
    Shows (secureDetach file acl d a ret) R :=
  shows_act _ (fun _ => rfl) fun _ _ => shows_act _ (fun _ => rfl) fun _ _ => secureFreeMem_shows h

theorem secureUnassignTable_shows
    (h : ∀ ret' ≤ 0, R (unassignTableActs acl.vmids page ret' d a) (some ret)) :
    Shows (secureUnassignTable file acl d a page ret) R := by
  unfold secureUnassignTable
  refine shows_bind kiumdIoPgtableHypUnassignPage_shows ?_ ?_
  · rintro _ _ ⟨_, hret', rfl, ⟨rfl⟩⟩
    exact secureDetach_shows (h _ hret')
  · rintro _ ⟨_, _, _, ⟨⟩⟩

theorem secureMapReply_shows {p : Nat} {id : U32} {addr : U64} :
    Shows (secureMapReply { u with id := id, dmaAddr := addr } file acl d a page a.table)
      fun acts result => SecurePublishShape u c acl.vmids page d a
        (.alloc p :: .add c p (secureEntry d a) id :: .dmaAddress a.table addr :: acts) result := by
  unfold secureMapReply
  refine shows_act _ (fun _ => rfl) fun copied _ => ?_
  cases copied with
  | false =>
      refine shows_act _ (fun _ => rfl) fun _ _ => ?_
      refine shows_bind kiumdHypUnassignSg_shows ?_ ?_
      · intro back taken hback
        refine secureUnassignTable_shows fun ret' _ => ?_
        exact .stale (by decide) hback
      · intro acts h
        obtain ⟨_, _, ⟨⟩⟩ := h.nonpos
  | true =>
      refine shows_idle (fun _ => rfl) fun _ _ => shows_idle (fun _ => rfl) fun _ _ =>
        shows_idle (fun _ => rfl) fun _ _ => shows_pure .done

/-- Nothing had been handed over. -/
theorem refused_of_nil {vmids perms : List Int} (hret : ret < 0) :
    SecureAttachedShape u c vmids perms page d a ([] ++ [.detach d a, .put d]) (some ret) :=
  .refused hret (.inl rfl)

theorem secureMapPublish_shows :
    Shows (secureMapPublish u (some (some c)) file acl d a page (some a.table))
      (SecurePublishShape u c acl.vmids page d a) := by
  unfold secureMapPublish
  refine shows_call fun p _ => ?_
  cases p with
  | none => exact secureCloseFile_shows (.unpublished (by decide))
  | some p =>
      refine shows_act _ (fun _ => rfl) fun id _ => shows_act _ (fun _ => rfl) fun addr _ => ?_
      exact secureMapReply_shows

theorem secureMapAttached_shows (hfits : a.Fits d a.dev) (hpos : acl.vmids ≠ []) :
    Shows (secureMapAttached u (some (some c)) file acl d a page)
      (SecureAttachedShape u c acl.vmids acl.perms page d a) := by
  have hexit : ∀ {ret : Int}, ret < 0 → Shows (secureDetach file acl d a ret)
      (SecureAttachedShape u c acl.vmids acl.perms page d a) := fun hret =>
    secureDetach_shows (refused_of_nil hret)
  unfold secureMapAttached
  cases hpriv : a.priv with
  | none => exact hexit (by decide)
  | some heapAttachment =>
  cases heapAttachment with
  | none => exact hexit (by decide)
  | some table =>
  obtain rfl : table = a.table := by simpa [hpriv] using hfits.2.2.2
  dsimp only
  split
  · exact hexit (by decide)
  refine shows_bind kiumdIoPgtableHypAssignPage_shows ?_ fun acts h => by cases h
  intro handed ret hhanded
  split
  · rename_i hneg
    exact secureDetach_shows (.refused hneg (.inr hhanded))
  rename_i hnonneg
  obtain rfl : ret = 0 := by
    cases hhanded with
    | refused hret => omega
    | asked hret => omega
  refine shows_bind kiumdHypAssignSg_shows ?_ ?_
  · intro given ret hgiven
    split
    · rename_i hneg
      exact secureUnassignTable_shows fun _ _ => .unassigned hhanded hneg hgiven
    rename_i hnonneg
    obtain rfl : ret = 0 := by
      obtain ⟨_, hret, ⟨⟩⟩ := hgiven.nonpos
      omega
    refine shows_call fun mapped hmapped => ?_
    cases mapped with
    | null => cases hmapped
    | err e =>
        unfold secureUnassignSg
        refine shows_bind (kiumdHypUnassignSg_err_shows hpos) (fun acts _ h => by cases h.2) ?_
        rintro _ ⟨rfl, -⟩
        have hunmapped : SecureAttachedShape u c acl.vmids acl.perms page d a
            (handed ++ (given ++ [])) none := by
          rw [List.append_nil]
          exact .unmapped hhanded hgiven
        exact hunmapped
    | ptr sgt =>
        obtain rfl : sgt = a.table := hmapped
        exact secureMapPublish_shows.mono fun _ _ h => .mapped hhanded hgiven h
  · intro acts h
    obtain ⟨_, _, ⟨⟩⟩ := h.nonpos

theorem kiumdDmabufVfioSecureMap_shows :
    Shows (kiumdDmabufVfioSecureMap u (some (some c))) (SecureMapShape u c) := by
  unfold kiumdDmabufVfioSecureMap
  refine shows_idle (fun _ => rfl) fun copied _ => ?_
  split
  · exact shows_pure (.early (by decide) (by simp))
  split
  · exact shows_pure (.early (by decide) (by simp))
  refine shows_call fun file _ => ?_
  cases file with
  | none => exact shows_pure (.early (by decide) (by simp [driver, KCall.act]))
  | some file =>
  have hlooking : ∀ act ∈ [Act.file u.vfioFd file], act.isLooking := by simp [Act.isLooking]
  cases hprivate : file.privateData with
  | none =>
      simp only [hprivate]
      exact shows_halt (.early (by decide) hlooking)
  | some device =>
  cases device with
  | none =>
      simp only [hprivate]
      exact secureCloseFile_shows (.early (by decide) hlooking)
  | some v =>
  cases hdev : v.dev with
  | none =>
      simp only [hprivate, hdev]
      exact secureCloseFile_shows (.early (by decide) hlooking)
  | some dev =>
  simp only [hprivate, hdev]
  refine shows_bind kiumdGetPgd_shows ?_ fun acts h => by cases h
  intro acts found hfound
  cases hfound with
  | @refused ret hret =>
      have hne : some ret ≠ some 0 := fun heq => Int.ne_of_lt hret (Option.some.inj heq)
      exact secureCloseFile_shows (.early hne hlooking)
  | @found page =>
  refine shows_call fun buffer hbuffer => ?_
  have hlooking' : ∀ act ∈ [Act.file u.vfioFd file, .pgd dev.domain page], act.isLooking := by
    simp [Act.isLooking]
  cases buffer with
  | null => exact secureCloseFile_shows (.early (by decide) hlooking')
  | err e =>
      have hne : some e ≠ some 0 := fun heq => Int.ne_of_lt hbuffer (Option.some.inj heq)
      exact secureCloseFile_shows (.early hne hlooking')
  | ptr d =>
  refine shows_bind kiumdAclToVmidPermsList_shows ?_ fun acts h => by cases h
  have hlist : ∀ {acts : List Act}, (∀ act ∈ acts, act.isLooking) →
      ∀ act ∈ .file u.vfioFd file :: .pgd dev.domain page :: .buffer u.dmaBufFd d :: acts,
        act.isLooking := by
    intro acts hacts
    simpa [Act.isLooking] using hacts
  intro acts lists hlists
  cases hlists with
  | @refused acts ret hret hacl =>
      have hne : some ret ≠ some 0 := fun heq => Int.ne_of_lt hret (Option.some.inj heq)
      refine secureCloseFile_shows (.early hne ?_)
      rw [List.append_nil]
      exact hlist fun act hact => Act.isLooking_of_isAcl (hacl act hact)
  | @read entries vmidsPtr permsPtr hlength hentries hok =>
  refine shows_call fun attached hattached => ?_
  cases attached with
  | error e =>
      have hne : some e ≠ some 0 := fun heq => Int.ne_of_lt hattached (Option.some.inj heq)
      have hacl : ∀ act ∈ aclActs u.memParcel.aclList 0 entries ++ [], act.isLooking := by
        rw [List.append_nil]
        exact fun act hact => Act.isLooking_of_isAcl (aclActs_isAcl act hact)
      exact secureFreeMem_shows (.early hne (hlist hacl))
  | ok a =>
      obtain rfl : a.dev = dev := hattached.2.1
      have hvmids : aclVmids entries ≠ [] := by simpa [aclVmids] using hentries
      exact (secureMapAttached_shows hattached hvmids).mono fun _ _ h =>
        .attached hprivate hdev hlength hentries hok hattached h

/-! ## SECURE_UNMAP -/

/-- The actions of SECURE_UNMAP after the buffer has been unmapped. -/
inductive TakeBackShape (c p : Nat) (vmids : List Int) (page : U64) (a : Attachment)
    (t : SgTable) : Shape Act Int where
  /-- The memory of the buffer could not be taken back. -/
  | kept {back : List Act} {ret : Int} : ret < 0 →
      AssignShape (vmidMask vmids) hlosAlone t back (some ret) →
      TakeBackShape c p vmids page a t back (some ret)
  /-- The page table could not be taken back, or the entry has no buffer. -/
  | half {back acts : List Act} {ret result : Int} : result ≠ 0 →
      AssignShape (vmidMask vmids) hlosAlone t back (some 0) → ret ≤ 0 →
      (acts = [] ∨ ∃ data, ret = 0 ∧ acts = [.read p data]) →
      TakeBackShape c p vmids page a t (back ++ unassignPage vmids page ret :: acts) (some result)
  | done {back : List Act} {data : SmmuMapData} {d : DmaBuf} :
      AssignShape (vmidMask vmids) hlosAlone t back (some 0) → data.dmabufPtr = some d →
      TakeBackShape c p vmids page a t
        (back ++ [unassignPage vmids page 0, .read p data, .detach d a, .put d, .delete c p])
        (some 0)

/-- The actions of SECURE_UNMAP. -/
inductive SecureUnmapShape (u : KiumdUser) (c : Nat) : Shape Act Int where
  /-- Something failed before the buffer was unmapped. -/
  | early {acts : List Act} {result : Option Int} : result ≠ some 0 →
      (∀ act ∈ acts, act.isLooking) → SecureUnmapShape u c acts result
  | found {file : File} {v : VfioDevice} {dev : Device} {page : U64}
      {entries : List KiumdAclEntry} {p : Nat} {data data' : SmmuMapData} {a : Attachment}
      {t : SgTable} {acts : List Act} {result : Option Int} :
      0 ≤ u.id.toInt → file.privateData = some (some v) → v.dev = some dev →
      entries.length = u.memParcel.nrAclEntries.toNat → entries ≠ [] →
      (∀ entry ∈ entries, aclEntryOk entry) → data.dmabufattach = some a →
      data'.sgtPtr = some t → TakeBackShape c p (aclVmids entries) page a t acts result →
      SecureUnmapShape u c (.find c u.id (some p) :: .file u.vfioFd file ::
        .pgd dev.domain page :: (aclActs u.memParcel.aclList 0 entries ++
          .read p data :: .read p data' :: .unmapAttachment a t DMA_BIDIRECTIONAL :: acts)) result

theorem secureTakeBack_shows {p : Nat} {t : SgTable} :
    Shows (secureTakeBack c file acl page p a t) (TakeBackShape c p acl.vmids page a t) := by
  unfold secureTakeBack
  refine shows_bind kiumdHypUnassignSg_shows ?_ ?_
  · intro back ret hback
    split
    · rename_i hneg
      refine secureFreeMem_shows ?_
      rw [List.append_nil]
      exact .kept hneg hback
    rename_i hnonneg
    obtain rfl : ret = 0 := by
      obtain ⟨_, hret, ⟨⟩⟩ := hback.nonpos
      omega
    refine shows_bind kiumdIoPgtableHypUnassignPage_shows ?_ ?_
    · rintro _ ret ⟨_, hret, rfl, ⟨rfl⟩⟩
      split
      · rename_i hneg
        exact secureFreeMem_shows (.half (by decide) hback hret (.inl rfl))
      rename_i hnonneg
      obtain rfl : ret = 0 := by omega
      refine shows_act _ (fun _ => rfl) fun data _ => ?_
      cases hdmabuf : data.dmabufPtr with
      | none =>
          exact secureFreeMem_shows (.half (by decide) hback hret (.inr ⟨data, rfl, rfl⟩))
      | some d =>
          refine shows_act _ (fun _ => rfl) fun _ _ => shows_act _ (fun _ => rfl) fun _ _ =>
            shows_act _ (fun _ => rfl) fun _ _ => secureFreeMem_shows ?_
          exact .done hback hdmabuf
    · rintro _ ⟨_, _, _, ⟨⟩⟩
  · intro acts h
    obtain ⟨_, _, ⟨⟩⟩ := h.nonpos

theorem kiumdDmabufVfioSecureUnmap_shows :
    Shows (kiumdDmabufVfioSecureUnmap u (some (some c))) (SecureUnmapShape u c) := by
  unfold kiumdDmabufVfioSecureUnmap
  refine shows_idle (fun _ => rfl) fun copied _ => ?_
  split
  · exact shows_pure (.early (by decide) (by simp [Act.isLooking]))
  split
  · exact shows_pure (.early (by decide) (by simp [Act.isLooking]))
  rename_i hid
  refine shows_act _ (fun _ => rfl) fun found _ => ?_
  cases found with
  | none => exact shows_pure (.early (by decide) (by simp [Act.isLooking]))
  | some p =>
  dsimp only
  split
  · exact shows_pure (.early (by decide) (by simp [Act.isLooking]))
  refine shows_call fun file _ => ?_
  cases file with
  | none => exact shows_pure (.early (by decide) (by simp [driver, KCall.act, Act.isLooking]))
  | some file =>
  have hlooking : ∀ act ∈ [Act.find c u.id (some p), .file u.vfioFd file], act.isLooking := by
    simp [Act.isLooking]
  cases hprivate : file.privateData with
  | none =>
      simp only [hprivate]
      exact shows_halt (.early (by decide) hlooking)
  | some device =>
  cases device with
  | none =>
      simp only [hprivate]
      exact secureCloseFile_shows (.early (by decide) hlooking)
  | some v =>
  cases hdev : v.dev with
  | none =>
      simp only [hprivate, hdev]
      exact secureCloseFile_shows (.early (by decide) hlooking)
  | some dev =>
  simp only [hprivate, hdev]
  refine shows_bind kiumdGetPgd_shows ?_ fun acts h => by cases h
  intro acts found hfound
  cases hfound with
  | @refused ret hret =>
      have hne : some ret ≠ some 0 := fun heq => Int.ne_of_lt hret (Option.some.inj heq)
      exact secureCloseFile_shows (.early hne hlooking)
  | @found page =>
  refine shows_bind kiumdAclToVmidPermsList_shows ?_ fun acts h => by cases h
  have hlist : ∀ {acts : List Act}, (∀ act ∈ acts, act.isLooking) →
      ∀ act ∈ .find c u.id (some p) :: .file u.vfioFd file :: .pgd dev.domain page :: acts,
        act.isLooking := by
    intro acts hacts
    simpa [Act.isLooking] using hacts
  intro acts lists hlists
  cases hlists with
  | @refused acts ret hret hacl =>
      have hne : some ret ≠ some 0 := fun heq => Int.ne_of_lt hret (Option.some.inj heq)
      refine secureCloseFile_shows (.early hne ?_)
      rw [List.append_nil]
      exact hlist fun act hact => Act.isLooking_of_isAcl (hacl act hact)
  | @read entries vmidsPtr permsPtr hlength hentries hok =>
  have hread : ∀ acts : List Act, (∀ act ∈ acts, act.isLooking) →
      ∀ act ∈ aclActs u.memParcel.aclList 0 entries ++ acts, act.isLooking := fun acts hacts =>
    List.forall_mem_append.mpr
      ⟨fun act hact => Act.isLooking_of_isAcl (aclActs_isAcl act hact), hacts⟩
  unfold secureUnmapRelease
  refine shows_act _ (fun _ => rfl) fun data _ => ?_
  cases hattach : data.dmabufattach with
  | none =>
      refine secureFreeMem_shows (.early (by decide) (hlist (hread _ ?_)))
      simp [Act.isLooking]
  | some a =>
  refine shows_act _ (fun _ => rfl) fun data' _ => ?_
  cases hsgt : data'.sgtPtr with
  | none =>
      refine secureFreeMem_shows (.early (by decide) (hlist (hread _ ?_)))
      simp [Act.isLooking]
  | some t =>
  refine shows_act _ (fun _ => rfl) fun _ _ => ?_
  exact secureTakeBack_shows.mono fun _ _ h =>
    .found (not_lt.mp hid) hprivate hdev hlength hentries hok hattach hsgt h

end SafeLinux.Kiumd
