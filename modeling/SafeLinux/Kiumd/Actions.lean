import SafeLinux.Effects.Actions
import SafeLinux.Kiumd.Holdings

/-!
# What the ioctls do to mappings, tables, bitmaps and owners

`Act` lists the calls that matter to the buffers of a context: the lookups of files and buffers,
the KGSL bitmaps and cookies, the attachments and mappings, the owners of memory, and the changes
of the tables. `driver` observes these and takes exactly those answers to be possible that the
kernel may give in some state.
-/

namespace SafeLinux.Kiumd

open Effects

/-- A call that has succeeded, or whose result matters, with what it was answered. -/
inductive Act where
  | file (fd : Int) (f : File)
  | buffer (fd : Int) (d : DmaBuf)
  | put (d : DmaBuf)
  -- KGSL bitmaps and cookies
  | lastOffset (m : KgslMap) (offset : U64)
  | search (m : KgslMap) (start : U64) (nr : U32) (result : U64)
  | set (m : KgslMap) (start nr : U32)
  | setLast (m : KgslMap) (offset : U64)
  | clear (m : KgslMap) (start nr : U32)
  | cookie (dom : Domain) (type : IommuDmaCookieType) (iova : U64)
  -- attachments and mappings
  | attach (d : DmaBuf) (a : Attachment)
  | detach (d : DmaBuf) (a : Attachment)
  | mapAttachment (a : Attachment) (dir : Int) (t : SgTable)
  | unmapAttachment (a : Attachment) (t : SgTable) (dir : Int)
  | mapSgtable (dev : Device) (t : SgTable) (dir attrs : Int)
  | unmapSgtable (dev : Device) (t : SgTable) (dir attrs : Int)
  | mapSg (dom : Domain) (iova : U64) (t : SgTable) (prot result : Int)
  | unmap (dom : Domain) (iova size result : U64)
  | dmaAddress (t : SgTable) (addr : U64)
  | mapResource (dev : Device) (addr size iova : U64)
  | unmapResource (dev : Device) (iova size : U64)
  -- access control lists and owners
  | acl (list index : Nat) (entry : KiumdAclEntry)
  | pgd (dom : Domain) (page : U64)
  | assign (range : MemRange) (src : U64) (dst : List QcomScmVmperm) (ret : Int)
  -- tables
  | alloc (p : Nat)
  | free (p : Nat)
  | find (c : Nat) (id : U32) (found : Option Nat)
  | findMmio (c : Nat) (id : U32) (found : Option Nat)
  | entries (c : Nat) (l : List Nat)
  | read (p : Nat) (data : SmmuMapData)
  | readMmio (m : Nat) (mmio : KiumdSmmuMmioCtx)
  | add (c p : Nat) (data : SmmuMapData) (id : U32)
  | addMmio (c p m : Nat) (mmio : KiumdSmmuMmioCtx) (id : U32)
  | delete (c p : Nat)
  | deleteMmio (c p : Nat)
  | unlink (c p : Nat)
  /-- A change of another field of a context. -/
  | other (c : Nat)
  | notPlatform (dev : Device)
  | reply (arg : UserStruct) (copied : Bool)

/-- The answers the kernel may give to a call in some state. -/
def KCall.possible : {β : Type} → KCall β → β → Prop
  | _, .copyStructFromUser _ _, .error e => e < 0
  | _, .iommuGetDmaDomain dev, some dom => dom = dev.domain
  | _, .dmaBufGet _, .err e => e < 0
  | _, .dmaBufAttach d dev, .ok a => a.Fits d dev
  | _, .dmaBufAttach _ _, .error e => e < 0
  | _, .dmaBufMapAttachment a _, .ptr t => t = a.table
  | _, .dmaBufMapAttachment _ _, .err e => e < 0
  | _, .dmaBufMapAttachment _ _, .null => False
  | _, .dmaMapSgtable _ _ _ _, ret => ret ≤ 0
  | _, .qcomScmAssignMem _ _ _, ret => ret ≤ 0
  | _, _, _ => True

/-- The action of a call. -/
def KCall.act : {β : Type} → KCall β → β → Option Act
  | _, .copyStructFromUser list index, .ok entry => some (.acl list index entry)
  | _, .fget fd, some f => some (.file fd f)
  | _, .pgtblTtbr dom, some page => some (.pgd dom page)
  | _, .dmaBufGet fd, .ptr d => some (.buffer fd d)
  | _, .dmaBufPut d, _ => some (.put d)
  | _, .lastOffset m, offset => some (.lastOffset m offset)
  | _, .bitmapFindNextZeroArea m start nr, result => some (.search m start nr result)
  | _, .bitmapSet m start nr, _ => some (.set m start nr)
  | _, .setLastOffset m offset, _ => some (.setLast m offset)
  | _, .bitmapClear m start nr, _ => some (.clear m start nr)
  | _, .setDmaCookie dom type iova, _ => some (.cookie dom type iova)
  | _, .dmaBufAttach d _, .ok a => some (.attach d a)
  | _, .dmaBufDetach d a, _ => some (.detach d a)
  | _, .dmaBufMapAttachment a dir, .ptr t => some (.mapAttachment a dir t)
  | _, .dmaBufUnmapAttachment a t dir, _ => some (.unmapAttachment a t dir)
  | _, .dmaMapSgtable dev t dir attrs, ret =>
      if ret = 0 then some (.mapSgtable dev t dir attrs) else none
  | _, .dmaUnmapSgtable dev t dir attrs, _ => some (.unmapSgtable dev t dir attrs)
  | _, .iommuMapSg dom iova t prot, result => some (.mapSg dom iova t prot result)
  | _, .iommuUnmap dom iova size, result => some (.unmap dom iova size result)
  | _, .sgDmaAddress t, addr => some (.dmaAddress t addr)
  | _, .dmaMapResource dev addr size, iova =>
      if iova = DMA_MAPPING_ERROR then none else some (.mapResource dev addr size iova)
  | _, .dmaUnmapResource dev iova size, _ => some (.unmapResource dev iova size)
  | _, .qcomScmAssignMem range src dst, ret => some (.assign range src dst ret)
  | _, .kzallocSmap, some p => some (.alloc p)
  | _, .kfreeSmap p, _ => some (.free p)
  | _, .smmuFind c id, found => some (.find c id found)
  | _, .smmuFindMmio c id, found => some (.findMmio c id found)
  | _, .hashEntries c, l => some (.entries c l)
  | _, .readSmap p, data => some (.read p data)
  | _, .readMmioCtx m, mmio => some (.readMmio m mmio)
  | _, .smmuAdd c p data, id => some (.add c p data id)
  | _, .smmuAddMmio c p m mmio, id => some (.addMmio c p m mmio id)
  | _, .smmuDel c p, _ => some (.delete c p)
  | _, .smmuDelMmio c p, _ => some (.deleteMmio c p)
  | _, .hashDel c p, _ => some (.unlink c p)
  | _, .setNumReservedRegions c _, _ | _, .setResMemArea c _, _ | _, .xaDestroy c, _ =>
      some (.other c)
  | _, .devIsPlatform dev, false => some (.notPlatform dev)
  | _, .copyToUser arg, copied => some (.reply arg copied)
  | _, _, _ => none

/-- The observer of the driver's calls. -/
def driver : Observer KCall Act := ⟨KCall.possible, KCall.act⟩

/-- A program of the driver shows a shape. -/
abbrev Shows {α : Type} (p : KProg α) (R : Shape Act α) : Prop := p.Shows driver R

/-- The actions of some calls. -/
abbrev acts (trace : List (Event KCall)) : List Act := driver.actions trace

variable {α β : Type} {w w' : World} {request : KCall β} {answer : β}
  {trace past : List (Event KCall)}

theorem acts_cons : acts (⟨request, answer⟩ :: trace) =
    (request.act answer).toList ++ acts trace :=
  Observer.actions_cons

theorem acts_append : acts (past ++ trace) = acts past ++ acts trace := Observer.actions_append

/-- The call of an action that records it in full. -/
def Act.event : Act → Option (Event KCall)
  | .file fd f => some ⟨.fget fd, some f⟩
  | .buffer fd d => some ⟨.dmaBufGet fd, .ptr d⟩
  | .put d => some ⟨.dmaBufPut d, ()⟩
  | .lastOffset m offset => some ⟨.lastOffset m, offset⟩
  | .search m start nr result => some ⟨.bitmapFindNextZeroArea m start nr, result⟩
  | .set m start nr => some ⟨.bitmapSet m start nr, ()⟩
  | .setLast m offset => some ⟨.setLastOffset m offset, ()⟩
  | .clear m start nr => some ⟨.bitmapClear m start nr, ()⟩
  | .cookie dom type iova => some ⟨.setDmaCookie dom type iova, ()⟩
  | .detach d a => some ⟨.dmaBufDetach d a, ()⟩
  | .mapAttachment a dir t => some ⟨.dmaBufMapAttachment a dir, .ptr t⟩
  | .unmapAttachment a t dir => some ⟨.dmaBufUnmapAttachment a t dir, ()⟩
  | .mapSgtable dev t dir attrs => some ⟨.dmaMapSgtable dev t dir attrs, (0 : Int)⟩
  | .unmapSgtable dev t dir attrs => some ⟨.dmaUnmapSgtable dev t dir attrs, ()⟩
  | .mapSg dom iova t prot result => some ⟨.iommuMapSg dom iova t prot, result⟩
  | .unmap dom iova size result => some ⟨.iommuUnmap dom iova size, result⟩
  | .dmaAddress t addr => some ⟨.sgDmaAddress t, addr⟩
  | .mapResource dev addr size iova => some ⟨.dmaMapResource dev addr size, iova⟩
  | .unmapResource dev iova size => some ⟨.dmaUnmapResource dev iova size, ()⟩
  | .acl list index entry => some ⟨.copyStructFromUser list index, .ok entry⟩
  | .pgd dom page => some ⟨.pgtblTtbr dom, some page⟩
  | .assign range src dst ret => some ⟨.qcomScmAssignMem range src dst, ret⟩
  | .alloc p => some ⟨.kzallocSmap, some p⟩
  | .free p => some ⟨.kfreeSmap p, ()⟩
  | .find c id found => some ⟨.smmuFind c id, found⟩
  | .findMmio c id found => some ⟨.smmuFindMmio c id, found⟩
  | .entries c l => some ⟨.hashEntries c, l⟩
  | .read p data => some ⟨.readSmap p, data⟩
  | .readMmio m mmio => some ⟨.readMmioCtx m, mmio⟩
  | .add c p data id => some ⟨.smmuAdd c p data, id⟩
  | .addMmio c p m mmio id => some ⟨.smmuAddMmio c p m mmio, id⟩
  | .delete c p => some ⟨.smmuDel c p, ()⟩
  | .deleteMmio c p => some ⟨.smmuDelMmio c p, ()⟩
  | .unlink c p => some ⟨.hashDel c p, ()⟩
  | .notPlatform dev => some ⟨.devIsPlatform dev, false⟩
  | .reply arg copied => some ⟨.copyToUser arg, copied⟩
  | .attach _ _ | .other _ => none

/-- An action that records its call in full is the action of that call only. -/
theorem event_of_act {act : Act} {e : Event KCall} (hact : request.act answer = some act)
    (hevent : act.event = some e) : (⟨request, answer⟩ : Event KCall) = e := by
  cases request with
  | copyStructFromUser | fget | pgtblTtbr | dmaBufGet | dmaBufAttach | dmaBufMapAttachment
  | kzallocSmap | devIsPlatform =>
      cases answer <;> cases hact
      all_goals first
        | (cases hevent; rfl)
        | cases hevent
  | dmaMapSgtable =>
      simp only [KCall.act, Option.ite_none_right_eq_some] at hact
      obtain ⟨rfl, hact⟩ := hact
      cases hact
      cases hevent
      rfl
  | dmaMapResource =>
      simp only [KCall.act] at hact
      split at hact <;> cases hact
      cases hevent
      rfl
  | _ =>
      cases hact
      all_goals first
        | (cases hevent; rfl)
        | cases hevent

/-- The kernel gives possible answers only. -/
theorem driver_admits : driver.Admits kernel := by
  intro β request answer w w' hstep
  show request.possible answer
  cases request with
  | copyStructFromUser | iommuGetDmaDomain | dmaBufGet | dmaBufAttach | dmaBufMapAttachment =>
      cases answer <;> simp only [kernel, kernelStep] at hstep
      all_goals first
        | exact trivial
        | (split at hstep <;> first | (cases hstep; done) | skip)
        | cases hstep
      all_goals first
        | assumption
        | exact (And.left ‹_›)
  | dmaMapSgtable | qcomScmAssignMem =>
      simp only [kernel, kernelStep] at hstep
      split at hstep
      · exact le_of_eq ‹_›
      · split at hstep
        · exact le_of_lt ‹_›
        · cases hstep
  | _ => exact trivial

/-- The fields that only calls with an action change. -/
def Field.seen : Field → Bool
  | .ctxs | .kgsl | .cookies | .owner => true
  | _ => false

/-- The fields an action changes. -/
def Act.writes : Act → List Field
  | .set _ _ _ | .setLast _ _ | .clear _ _ _ => [.kgsl]
  | .cookie _ _ _ => [.cookies]
  | .assign _ _ _ _ => [.owner]
  | .add _ _ _ _ | .addMmio _ _ _ _ _ | .delete _ _ | .deleteMmio _ _ | .unlink _ _
  | .other _ => [.ctxs]
  | _ => []

/-- None of the actions changes the field. -/
def Leaves (f : Field) (acts : List Act) : Prop :=
  ∀ act ∈ acts, f ∉ act.writes

section Leaves

variable {f : Field} {act : Act} {l l' : List Act}

@[simp] theorem leaves_nil : Leaves f [] := fun _ hact => absurd hact List.not_mem_nil

@[simp] theorem leaves_cons : Leaves f (act :: l) ↔ f ∉ act.writes ∧ Leaves f l :=
  List.forall_mem_cons

@[simp] theorem leaves_append : Leaves f (l ++ l') ↔ Leaves f l ∧ Leaves f l' :=
  List.forall_mem_append

end Leaves

/-- A call changes a seen field only by an action that changes it. -/
theorem agrees_of_act {f : Field} (hseen : f.seen = true)
    (hstep : kernelStep request w answer = some w')
    (hact : ∀ act ∈ request.act answer, f ∉ act.writes) : w.Agrees w' f := by
  refine step_agrees hstep fun hwrites => ?_
  cases request
  all_goals
    first
      | (cases f <;> first | (cases hseen; done) | (simp [KCall.writes] at hwrites; done) |
          exact hact _ rfl (by simp [Act.writes]))

/-- Actions that do not change a field leave it alone. -/
theorem steps_agrees {f : Field} {trace : List (Event KCall)} (hseen : f.seen = true)
    (h : Steps kernel w trace w') (hacts : Leaves f (acts trace)) : w.Agrees w' f := by
  refine @Steps.keep _ _ kernel _ _ _ (fun s => w.Agrees s f) h ?_ (.refl w f)
  intro e he s s' hstep hs
  refine hs.trans (agrees_of_act hseen hstep ?_)
  intro act hact
  exact hacts act (List.mem_filterMap.mpr ⟨e, he, hact⟩)

end SafeLinux.Kiumd
