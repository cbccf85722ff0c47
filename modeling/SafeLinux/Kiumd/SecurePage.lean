import SafeLinux.Kiumd.Answers
import SafeLinux.Kiumd.Ioctl
import SafeLinux.Kiumd.Owners

/-!
# The page-table page of a device with secure mappings

SECURE_MAP hands the page-table page of the device to the virtual machines of its access control
list, and SECURE_UNMAP takes it back; nothing counts how many mappings need it. In every run in
which no assignment of the page leaves out a virtual machine of another live mapping, and a
SECURE_MAP that fails while no mapping is live gives the page back, the machines of the live
mappings have the page and HLOS alone has it when no mapping is live (`secure_run_page_shared`).
-/

namespace SafeLinux.Kiumd

open Effects

/-! ## Live mappings -/

/-- A secure mapping: its entry, and the virtual machines of the list it was created with. -/
structure SecureMapping where
  ctx : Nat
  entry : Nat
  vmids : List Int

/-- The virtual machine an action reads from an access control list. -/
def Act.vmid : Act → Option Int
  | .acl _ _ entry => some entry.vmid.toInt
  | _ => none

/-- The virtual machines of the access control list a request has read. -/
def vmidsOf (acts : List Act) : List Int := acts.filterMap Act.vmid

@[simp] theorem vmidsOf_nil : vmidsOf [] = [] := rfl

@[simp] theorem vmidsOf_cons (act : Act) (as : List Act) :
    vmidsOf (act :: as) = act.vmid.toList ++ vmidsOf as := by
  rw [vmidsOf, List.filterMap_cons, ← vmidsOf]
  cases act.vmid <;> rfl

@[simp] theorem vmidsOf_append (as bs : List Act) :
    vmidsOf (as ++ bs) = vmidsOf as ++ vmidsOf bs :=
  List.filterMap_append

/-- The request has published the mapping and told the user. -/
def Creates (acts : List Act) (m : SecureMapping) : Prop :=
  (∃ data id, .add m.ctx m.entry data id ∈ acts) ∧ (∃ arg, .reply arg true ∈ acts) ∧
    m.vmids = vmidsOf acts

/-- The secure mapping has been created and not been deleted since. -/
def LiveSecure : History Ioctl KCall → SecureMapping → Prop
  | [], _ => False
  | (_, trace) :: history, m =>
      Creates (acts trace) m ∨ (LiveSecure history m ∧ .delete m.ctx m.entry ∉ acts trace)

/-! ## What a secure request does to the page -/

variable {page : U64} {vmids : List Int} {as bs : List Act} {act : Act} {l : Loc}

/-- No page-table page changes its owners. -/
def Act.keepsPage : Act → Bool
  | .assign (.pgd _) _ _ ret => ret ≠ 0
  | _ => true

/-- The assignment that hands the page over. -/
def grantPage (vmids : List Int) (page : U64) : Act :=
  .assign (.pgd page) (vmidBit QCOM_SCM_VMID_HLOS) (pageOwners vmids) 0

/-- The use of the page by a request with an access control list of `vmids`. -/
inductive PageUse (page : U64) (vmids : List Int) (as : List Act) : Prop where
  | unchanged (howner : ∀ o, ownerAfter (.pgd page) as o = o)
      (hreply : ∀ arg, .reply arg true ∉ as) (hdelete : ∀ c p, .delete c p ∉ as)
  | granted (howner : ∀ o, ownerAfter (.pgd page) as o = ownersOf (pageOwners vmids))
      (hgrant : grantPage vmids page ∈ as) (hkept : ∀ vmids', unassignPage vmids' page 0 ∉ as)
      (hdelete : ∀ c p, .delete c p ∉ as)
  | returned {vmids' : List Int} (howner : ∀ o, ownerAfter (.pgd page) as o = ownersOf hlosAlone)
      (hback : unassignPage vmids' page 0 ∈ as) (hreply : ∀ arg, .reply arg true ∉ as)

theorem Act.sparesOwner_of_keepsPage (h : act.keepsPage = true) :
    act.SparesOwner (.pgd page) := by
  intro o
  cases act
  case assign range src dst ret =>
    cases range with
    | sg e => simp [Act.owner, MemRange.contains]
    | pgd ttbr =>
        have hne : ret ≠ 0 := of_decide_eq_true h
        simp [Act.owner, hne]
  all_goals rfl

theorem ownerAfter_keepsPage (h : ∀ act ∈ as, act.keepsPage = true) (o : Finset Int) :
    ownerAfter (.pgd page) as o = o :=
  ownerAfter_spares fun act hact => Act.sparesOwner_of_keepsPage (h act hact)

/-- The owners after an assignment of the page and actions that keep them. -/
theorem ownerAfter_assign {src : U64} {dst : List QcomScmVmperm}
    (hafter : ∀ act ∈ bs, act.keepsPage = true) (o : Finset Int) :
    ownerAfter (.pgd page) (as ++ .assign (.pgd page) src dst 0 :: bs) o = ownersOf dst := by
  rw [ownerAfter_append, ownerAfter_cons, ownerAfter_keepsPage hafter]
  simp [Act.owner, MemRange.contains]

namespace PageUse

theorem of_kept (hkeeps : ∀ act ∈ as, act.keepsPage = true)
    (hreply : ∀ arg, .reply arg true ∉ as) (hdelete : ∀ c p, .delete c p ∉ as) :
    PageUse page vmids as :=
  .unchanged (ownerAfter_keepsPage hkeeps) hreply hdelete

theorem of_grant (hbefore : ∀ act ∈ as, act.keepsPage = true)
    (hafter : ∀ act ∈ bs, act.keepsPage = true)
    (hdelete : ∀ c p, .delete c p ∉ as ++ grantPage vmids page :: bs) :
    PageUse page vmids (as ++ grantPage vmids page :: bs) := by
  refine .granted (ownerAfter_assign hafter) (by simp) ?_ hdelete
  intro vmids' hmem
  rcases List.mem_append.mp hmem with hmem | hmem
  · cases hbefore _ hmem
  rcases List.mem_cons.mp hmem with hmem | hmem
  · injection hmem with _ _ hdst
    cases vmids <;> cases hdst
  · cases hafter _ hmem

theorem of_return {vmids' : List Int} (hafter : ∀ act ∈ bs, act.keepsPage = true)
    (hreply : ∀ arg, .reply arg true ∉ as ++ unassignPage vmids' page 0 :: bs) :
    PageUse page vmids (as ++ unassignPage vmids' page 0 :: bs) :=
  .returned (ownerAfter_assign hafter) (List.mem_append_right _ List.mem_cons_self) hreply

/-- Actions that only look come before. -/
theorem prepend (h : PageUse page vmids bs) (hkeeps : ∀ act ∈ as, act.keepsPage = true)
    (hreply : ∀ arg, .reply arg true ∉ as) (hdelete : ∀ c p, .delete c p ∉ as) :
    PageUse page vmids (as ++ bs) := by
  have howner : ∀ o, ownerAfter (.pgd page) (as ++ bs) o = ownerAfter (.pgd page) bs o := by
    intro o
    rw [ownerAfter_append, ownerAfter_keepsPage hkeeps]
  cases h with
  | unchanged howner' hreply' hdelete' =>
      refine .unchanged (fun o => (howner o).trans (howner' o)) ?_ ?_
      · exact fun arg => List.not_mem_append (hreply arg) (hreply' arg)
      · exact fun c p => List.not_mem_append (hdelete c p) (hdelete' c p)
  | granted howner' hgrant hkept hdelete' =>
      refine .granted (fun o => (howner o).trans (howner' o)) (List.mem_append_right _ hgrant) ?_ ?_
      · exact fun vmids' => List.not_mem_append (fun hmem => nomatch hkeeps _ hmem) (hkept vmids')
      · exact fun c p => List.not_mem_append (hdelete c p) (hdelete' c p)
  | returned howner' hback hreply' =>
      refine .returned (fun o => (howner o).trans (howner' o)) (List.mem_append_right _ hback) ?_
      exact fun arg => List.not_mem_append (hreply arg) (hreply' arg)

end PageUse

/-! ## SECURE_MAP and SECURE_UNMAP -/

/-- An action of a secure request besides its assignments of the page and its results. -/
def Act.isPlain : Act → Bool
  | .assign (.pgd _) _ _ _ | .delete _ _ | .reply _ true | .acl _ _ _ => false
  | _ => true

theorem Act.isPlain_of_isSgAssign (h : act.isSgAssign = true) : act.isPlain = true := by
  cases act
  case assign range _ _ _ => cases range <;> first | rfl | cases h
  all_goals cases h

theorem Act.keepsPage_of_isPlain (h : act.isPlain = true) : act.keepsPage = true := by
  cases act
  case assign range _ _ _ => cases range <;> first | rfl | cases h
  all_goals rfl

/-- All actions are plain. -/
def Plain (as : List Act) : Prop := ∀ act ∈ as, act.isPlain = true

namespace Plain

theorem append (h : Plain as) (h' : Plain bs) : Plain (as ++ bs) :=
  List.forall_mem_append.mpr ⟨h, h'⟩

theorem keeps (h : Plain as) : ∀ act ∈ as, act.keepsPage = true := fun act hact =>
  Act.keepsPage_of_isPlain (h act hact)

theorem no_reply (h : Plain as) : ∀ arg, .reply arg true ∉ as := fun _ hmem => nomatch h _ hmem

theorem no_delete (h : Plain as) : ∀ c p, .delete c p ∉ as := fun _ _ hmem => nomatch h _ hmem

theorem vmidsOf_eq (h : Plain as) : vmidsOf as = [] := by
  refine List.filterMap_eq_nil_iff.mpr fun act hact => ?_
  have hplain := h act hact
  cases act <;> first | rfl | cases hplain

end Plain

theorem AssignShape.plain {src : U64} {dst : List QcomScmVmperm} {t : SgTable}
    {result : Option Int} (h : AssignShape src dst t as result) : Plain as := fun act hact =>
  Act.isPlain_of_isSgAssign (h.isSgAssign act hact)

theorem unassignPage_keepsPage {ret : Int} (h : ret ≠ 0) :
    (unassignPage vmids page ret).keepsPage = true :=
  decide_eq_true h

/-- The page is handed over and not taken back. -/
theorem PageUse.handed (h : Plain as) : PageUse page vmids (grantPage vmids page :: as) := by
  show PageUse page vmids ([] ++ grantPage vmids page :: as)
  refine .of_grant (by simp) h.keeps ?_
  intro c p hmem
  rcases List.mem_cons.mp hmem with hmem | hmem
  · cases hmem
  · exact h.no_delete c p hmem

/-- The page is handed over, and taken back if the firmware does so. -/
theorem PageUse.handed_back {vmids' : List Int} {ret : Int} (h : Plain as) (h' : Plain bs) :
    PageUse page vmids (grantPage vmids page :: (as ++ unassignPage vmids' page ret :: bs)) := by
  by_cases hret : ret = 0
  · subst hret
    show PageUse page vmids ((grantPage vmids page :: as) ++ unassignPage vmids' page 0 :: bs)
    refine .of_return h'.keeps ?_
    intro arg hmem
    rcases List.mem_append.mp hmem with hmem | hmem
    · rcases List.mem_cons.mp hmem with hmem | hmem
      · cases hmem
      · exact h.no_reply arg hmem
    · rcases List.mem_cons.mp hmem with hmem | hmem
      · cases hmem
      · exact h'.no_reply arg hmem
  · show PageUse page vmids
      ([] ++ grantPage vmids page :: (as ++ unassignPage vmids' page ret :: bs))
    refine .of_grant (by simp) ?_ ?_
    · refine List.forall_mem_append.mpr ⟨h.keeps, List.forall_mem_cons.mpr ⟨?_, h'.keeps⟩⟩
      exact unassignPage_keepsPage hret
    · intro c p hmem
      rcases List.mem_cons.mp hmem with hmem | hmem
      · cases hmem
      rcases List.mem_append.mp hmem with hmem | hmem
      · exact h.no_delete c p hmem
      rcases List.mem_cons.mp hmem with hmem | hmem
      · cases hmem
      · exact h'.no_delete c p hmem

variable {u : KiumdUser} {c : Nat} {perms : List Int} {d : DmaBuf} {a : Attachment}
  {result : Option Int} {handed : List Act}

/-- A page that could be handed over has been. -/
theorem PageShape.granted (h : PageShape vmids page handed (some 0)) :
    handed = [grantPage vmids page] := by
  cases h with
  | refused hret => exact absurd hret (lt_irrefl 0)
  | asked _ => rfl

/-- What has been published is used with the page. -/
theorem SecurePublishShape.pageUse (h : SecurePublishShape u c vmids page d a bs result)
    (hplain : Plain as) :
    PageUse page vmids (grantPage vmids page :: (as ++ bs)) ∧ vmidsOf bs = [] := by
  cases h with
  | unpublished _ =>
      rw [List.append_nil]
      exact ⟨.handed hplain, rfl⟩
  | @stale p id addr back taken ret ret' hret hback =>
      refine ⟨?_, ?_⟩
      · have hfirst : Plain (as ++ (.alloc p :: .add c p (secureEntry d a) id ::
            .dmaAddress a.table addr :: .reply (.user { u with id := id, dmaAddr := addr }) false ::
            .unmapAttachment a a.table DMA_BIDIRECTIONAL :: back)) := by
          refine hplain.append ?_
          simpa [Plain, Act.isPlain] using hback.plain
        have hlast : Plain [.detach d a, .put d] := by simp [Plain, Act.isPlain]
        have huse : PageUse page vmids (grantPage vmids page :: (_ ++
            unassignPage vmids page ret' :: [.detach d a, .put d])) := .handed_back hfirst hlast
        simpa [unassignTableActs] using huse
      · simp [Act.vmid, unassignTableActs, unassignPage, hback.plain.vmidsOf_eq]
  | @done p id addr =>
      refine ⟨?_, by simp [Act.vmid]⟩
      show PageUse page vmids ([] ++ grantPage vmids page :: (as ++ [.alloc p,
        .add c p (secureEntry d a) id, .dmaAddress a.table addr, .reply _ true]))
      refine .of_grant (by simp) ?_ ?_
      · exact List.forall_mem_append.mpr ⟨hplain.keeps, by simp [Act.keepsPage]⟩
      · intro c' p' hmem
        rcases List.mem_cons.mp hmem with hmem | hmem
        · cases hmem
        rcases List.mem_append.mp hmem with hmem | hmem
        · exact hplain.no_delete c' p' hmem
        · simp at hmem

/-- Once the buffer is attached, SECURE_MAP uses the page with its access control list. -/
theorem SecureAttachedShape.pageUse (h : SecureAttachedShape u c vmids perms page d a as result) :
    PageUse page vmids as ∧ vmidsOf as = [] := by
  cases h with
  | @refused handed ret hret hhanded =>
      have hplain : Plain [.detach d a, .put d] := by simp [Plain, Act.isPlain]
      rcases hhanded with rfl | hhanded
      · exact ⟨.of_kept hplain.keeps hplain.no_reply hplain.no_delete, rfl⟩
      cases hhanded with
      | refused => exact ⟨.of_kept hplain.keeps hplain.no_reply hplain.no_delete, rfl⟩
      | asked => exact ⟨.of_kept (by simp [Act.keepsPage, hret.ne]) (by simp) (by simp), rfl⟩
  | @unassigned _ given _ ret' hhanded hret hgiven =>
      rw [hhanded.granted]
      refine ⟨.handed_back hgiven.plain (by simp [Plain, Act.isPlain]), ?_⟩
      simp [Act.vmid, unassignTableActs, grantPage, unassignPage, hgiven.plain.vmidsOf_eq]
  | unmapped hhanded hgiven =>
      rw [hhanded.granted]
      exact ⟨.handed hgiven.plain, hgiven.plain.vmidsOf_eq⟩
  | @mapped _ given bs _ hhanded hgiven hpublish =>
      rw [hhanded.granted]
      have hplain : Plain (given ++ [.mapAttachment a u.unmapDir a.table]) :=
        hgiven.plain.append (by simp [Plain, Act.isPlain])
      obtain ⟨huse, hvmids⟩ := hpublish.pageUse hplain
      rw [List.append_assoc] at huse
      exact ⟨huse, by simp [Act.vmid, grantPage, hgiven.plain.vmidsOf_eq, hvmids]⟩

/-- An action that looks is plain or reads an access control list. -/
theorem Act.keepsPage_of_isLooking (h : act.isLooking = true) : act.keepsPage = true := by
  cases act <;> first | rfl | cases h

theorem vmidsOf_aclActs {list index : Nat} {entries : List KiumdAclEntry} :
    vmidsOf (aclActs list index entries) = aclVmids entries := by
  induction entries generalizing index with
  | nil => rfl
  | cons entry entries ih =>
      rw [aclActs, vmidsOf_cons, ih]
      rfl

/-- Looking does not use the page. -/
theorem PageUse.of_looking (h : ∀ act ∈ as, act.isLooking = true) : PageUse page vmids as :=
  .of_kept (fun act hact => Act.keepsPage_of_isLooking (h act hact))
    (fun _ hmem => nomatch h _ hmem) fun _ _ hmem => nomatch h _ hmem

/-- Looking comes before the use of the page. -/
theorem PageUse.after_looking (h : PageUse page vmids bs)
    (hlooking : ∀ act ∈ as, act.isLooking = true) : PageUse page vmids (as ++ bs) :=
  h.prepend (fun act hact => Act.keepsPage_of_isLooking (hlooking act hact))
    (fun _ hmem => nomatch hlooking _ hmem) fun _ _ hmem => nomatch hlooking _ hmem

theorem SecureMapShape.pageUse (h : SecureMapShape u c as result)
    (hpage : ∀ dom page', .pgd dom page' ∈ as → page' = page) : PageUse page (vmidsOf as) as := by
  cases h with
  | early _ hlooking => exact .of_looking hlooking
  | @attached file v page' d a entries rest _ hprivate hdev hlength hne hok hfits hattached =>
      obtain rfl := hpage a.dev.domain page' (by simp)
      obtain ⟨huse, hvmids⟩ := hattached.pageUse
      have hall : vmidsOf (.file u.vfioFd file :: .pgd a.dev.domain page' ::
          .buffer u.dmaBufFd d :: (aclActs u.memParcel.aclList 0 entries ++ .attach d a :: rest)) =
          aclVmids entries := by
        simp [Act.vmid, vmidsOf_aclActs, hvmids]
      rw [hall]
      have hattach : PageUse page' (aclVmids entries) ([.attach d a] ++ rest) :=
        huse.prepend (by simp [Act.keepsPage]) (by simp) (by simp)
      have hacl : ∀ act ∈ .file u.vfioFd file :: .pgd a.dev.domain page' ::
          .buffer u.dmaBufFd d :: aclActs u.memParcel.aclList 0 entries, act.isLooking = true := by
        simpa [Act.isLooking] using fun act hact => Act.isLooking_of_isAcl (aclActs_isAcl act hact)
      exact hattach.after_looking hacl

/-- Taking the memory of a buffer back takes the page back. -/
theorem TakeBackShape.pageUse {p : Nat} {t : SgTable}
    (h : TakeBackShape c p vmids page a t as result) {vmids' : List Int} :
    PageUse page vmids' as := by
  cases h with
  | kept _ hback => exact .of_kept hback.plain.keeps hback.plain.no_reply hback.plain.no_delete
  | @half back rest ret _ hne hback hret hrest =>
      have hplain : Plain rest := by
        rcases hrest with rfl | ⟨data, _, rfl⟩ <;> simp [Plain, Act.isPlain]
      by_cases hzero : ret = 0
      · subst hzero
        refine .of_return hplain.keeps fun arg hmem => ?_
        rcases List.mem_append.mp hmem with hmem | hmem
        · exact hback.plain.no_reply arg hmem
        rcases List.mem_cons.mp hmem with hmem | hmem
        · cases hmem
        · exact hplain.no_reply arg hmem
      · refine PageUse.prepend ?_ hback.plain.keeps hback.plain.no_reply hback.plain.no_delete
        have hlast : PageUse page vmids' ([unassignPage vmids page ret] ++ rest) :=
          (PageUse.of_kept hplain.keeps hplain.no_reply hplain.no_delete).prepend
            (by simp [unassignPage_keepsPage hzero]) (by simp [unassignPage])
            (by simp [unassignPage])
        exact hlast
  | @done back data d hback hd =>
      refine .of_return (by simp [Act.keepsPage]) fun arg hmem => ?_
      rcases List.mem_append.mp hmem with hmem | hmem
      · exact hback.plain.no_reply arg hmem
      · simp [unassignPage] at hmem

theorem SecureUnmapShape.pageUse (h : SecureUnmapShape u c as result)
    (hpage : ∀ dom page', .pgd dom page' ∈ as → page' = page) : PageUse page vmids as := by
  cases h with
  | early _ hlooking => exact .of_looking hlooking
  | @found file v dev page' entries p data data' a t rest _ hid hprivate hdev hlength hne hok
      hattach hsgt hback =>
      obtain rfl := hpage dev.domain page' (by simp)
      have hreads : PageUse page' vmids ([.read p data, .read p data',
          .unmapAttachment a t DMA_BIDIRECTIONAL] ++ rest) :=
        hback.pageUse.prepend (by simp [Act.keepsPage]) (by simp) (by simp)
      have hacl : ∀ act ∈ .find c u.id (some p) :: .file u.vfioFd file ::
          .pgd dev.domain page' :: aclActs u.memParcel.aclList 0 entries,
          act.isLooking = true := by
        simpa [Act.isLooking] using fun act hact => Act.isLooking_of_isAcl (aclActs_isAcl act hact)
      exact hreads.after_looking hacl

/-! ## Runs -/

/-- The virtual machines of every live mapping that the request does not delete are among those
the page is assigned to. -/
def KeepsAccess (page : U64) (history : History Ioctl KCall) (as : List Act) : Prop :=
  ∀ src dst, .assign (.pgd page) src dst 0 ∈ as →
    ∀ m, LiveSecure history m → .delete m.ctx m.entry ∉ as → ∀ v ∈ m.vmids, v ∈ ownersOf dst

/-- If no mapping is live, a request that hands the page over creates a mapping or takes the page
back. -/
def GivesBack (page : U64) (history : History Ioctl KCall) (as : List Act) : Prop :=
  (∀ m, ¬ LiveSecure history m) → ∀ vmids, grantPage vmids page ∈ as →
    (∃ m, Creates as m) ∨ ∃ vmids', unassignPage vmids' page 0 ∈ as

/-- The owners of the page are what the live mappings need. -/
structure PageShared (page : U64) (history : History Ioctl KCall) (w : World) : Prop where
  access : ∀ m, LiveSecure history m → ∀ v ∈ m.vmids, v ∈ w.owner (.pgd page)
  alone : (∀ m, ¬ LiveSecure history m) → w.owner (.pgd page) = {QCOM_SCM_VMID_HLOS}

variable {w₀ w w' : World} {history : History Ioctl KCall} {i : Ioctl}
  {trace : List (Event KCall)}

/-- The page is used by one request more. -/
theorem PageUse.shared (h : PageUse page (vmidsOf (acts trace)) (acts trace))
    (hshared : PageShared page history w)
    (howner' : w'.owner (.pgd page) = ownerAfter (.pgd page) (acts trace) (w.owner (.pgd page)))
    (hkeeps : KeepsAccess page history (acts trace))
    (hback : GivesBack page history (acts trace)) : PageShared page ((i, trace) :: history) w' := by
  cases h with
  | unchanged howner hreply hdelete =>
      have hsame := howner'.trans (howner _)
      refine ⟨?_, fun hnone => ?_⟩
      · rintro m (⟨_, ⟨arg, harg⟩, _⟩ | ⟨hlive, _⟩) v hv
        · exact absurd harg (hreply arg)
        · rw [hsame]
          exact hshared.access m hlive v hv
      · rw [hsame]
        exact hshared.alone fun m hlive => hnone m (.inr ⟨hlive, hdelete _ _⟩)
  | granted howner hgrant hkept hdelete =>
      have hgranted := howner'.trans (howner _)
      refine ⟨?_, fun hnone => ?_⟩
      · rintro m (⟨_, _, hvmids⟩ | ⟨hlive, hnot⟩) v hv
        · rw [hgranted, ← hvmids]
          simp [ownersOf, pageOwners, hv]
        · rw [hgranted]
          exact hkeeps _ _ hgrant m hlive hnot v hv
      · have hnone' : ∀ m, ¬ LiveSecure history m := fun m hlive =>
          hnone m (.inr ⟨hlive, hdelete _ _⟩)
        rcases hback hnone' _ hgrant with ⟨m, hcreates⟩ | ⟨vmids', hmem⟩
        · exact absurd (.inl hcreates) (hnone m)
        · exact absurd hmem (hkept vmids')
  | returned howner hmem hreply =>
      have hreturned := howner'.trans (howner _)
      refine ⟨?_, fun _ => hreturned⟩
      rintro m (⟨_, ⟨arg, harg⟩, _⟩ | ⟨hlive, hnot⟩) v hv
      · exact absurd harg (hreply arg)
      · rw [hreturned]
        exact hkeeps _ _ hmem m hlive hnot v hv

end SafeLinux.Kiumd
