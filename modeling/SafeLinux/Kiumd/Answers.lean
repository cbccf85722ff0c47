import SafeLinux.Effects.Run
import SafeLinux.Kiumd.Kernel
import Mathlib.Data.Multiset.Lattice
import Mathlib.Order.Lattice.Nat
import Mathlib.Order.Nat

/-!
# A kernel that can be executed

`Answers.choose` answers every call with fixed values and with fresh names, so that a program of
the driver can be run. `choose_step` says that these are answers the kernel may give, and
`kernel_responsive` that the kernel never gets stuck.
-/

namespace SafeLinux.Kiumd

open Effects

/-! ## Fresh names -/

namespace Resource

/-- The number of a heap object, of an attachment or of a reserved memory array. -/
def number : Resource → Nat
  | .attachment a => a.id
  | .smap p | .mmioCtx p | .resMem p | .handle p | .heap p => p
  | _ => 0

end Resource

/-- A number that nothing held has. -/
def World.freshNumber (w : World) : Nat := (w.held.map Resource.number).sup + 1

theorem World.number_lt_freshNumber {w : World} {r : Resource} (h : r ∈ w.held) :
    r.number < w.freshNumber :=
  Nat.lt_succ_of_le (Multiset.le_sup (Multiset.mem_map_of_mem _ h))

theorem World.freshNumber_notMem {w : World} {r : Resource} (h : r.number = w.freshNumber) :
    r ∉ w.held := fun hmem => absurd h (World.number_lt_freshNumber hmem).ne

/-! ## Clear areas -/

/-- The first position of a clear area from `start` on, or a position beyond the map. -/
def findZeroArea (bits : Nat → Bool) (size start nr : Nat) : Nat :=
  ((List.range' start (size - start)).find? fun s => decide (ZeroArea bits size nr s)).getD
    (size + nr)

theorem findZeroArea_spec (bits : Nat → Bool) (size start nr : Nat) :
    NextZeroArea bits size start nr (findZeroArea bits size start nr) := by
  unfold findZeroArea
  cases hfound : (List.range' start (size - start)).find? fun s =>
      decide (ZeroArea bits size nr s) with
  | none =>
      rw [List.find?_range'_eq_none] at hfound
      refine ⟨le_rfl, fun hnr => .inr ⟨by rw [Option.getD_none]; omega, ?_⟩⟩
      intro s hs hstart
      simpa using hfound s hstart (by omega)
  | some result =>
      obtain ⟨hzero, hmem, hbefore⟩ := List.find?_range'_eq_some.mp hfound
      have hzero : ZeroArea bits size nr result := of_decide_eq_true hzero
      have hrange := List.mem_range'_1.mp hmem
      rw [Option.getD_some]
      refine ⟨Nat.le_trans (by omega) (Nat.le_add_right size nr), fun _ =>
        .inl ⟨hrange.1, hzero, ?_⟩⟩
      intro s hs hstart
      simpa using hbefore s hstart hs

/-! ## Answers -/

/-- Which calls fail and what the others answer. -/
structure Answers where
  fails : (β : Type) → KCall β → Bool
  file : Int → File
  buffer : Int → DmaBuf
  /-- Whether an exporter keeps the table of an attachment. -/
  keepsTable : Bool
  acl : KiumdAclEntry
  dmaAddr : U64
  region : U64 × U64
  count : Int

/-- The attachment an exporter makes. -/
def Answers.attachment (k : Answers) (w : World) (d : DmaBuf) (dev : Device) : Attachment where
  id := w.freshNumber
  dmabuf := .ptr d
  dev := dev
  priv := if k.keepsTable then some (some ⟨w.freshNumber, d.sg⟩) else none
  sgl := d.sg

/-- The answer to a call; only the dereference of an invalid pointer has none. -/
def Answers.choose (k : Answers) : Chooser KCall World := fun β request w =>
  let ok := !k.fails β request
  match request with
  | .oops => none
  | .configDmabufDebug => some w.dmabufDebug
  | .copyFromUser _ | .copyToUser _ | .vfioFileIsValid _ | .iovaCookie _ | .devIsPlatform _
  | .devOfNode _ => some ok
  | .copyStructFromUser _ _ => some (if ok then .ok k.acl else .error (-EFAULT))
  | .strndupUser _ | .kmallocArray | .kzallocSmap | .kzallocMmioCtx | .kcallocResMem _ =>
      some (if ok then some w.freshNumber else none)
  | .readSmap p => some (w.smaps p)
  | .readMmioCtx p => some (w.mmioCtxs p)
  | .fget fd => some (if ok then some (k.file fd) else none)
  | .iommuGetDmaDomain dev => some (if ok then some dev.domain else none)
  | .pgtblTtbr _ => some (if ok then some 0 else none)
  | .platformGetResourceByname _ _ | .ofAddressToResource _ _ =>
      some (if ok then some k.region else none)
  | .dmaBufGet fd => some (if ok then .ptr (k.buffer fd) else .err (-EBADF))
  | .dmaBufAttach d dev => some (if ok then .ok (k.attachment w d dev) else .error (-ENOMEM))
  | .dmaBufMapAttachment a _ => some (if ok then .ptr a.table else .err (-ENOMEM))
  | .dmaMapSgtable _ _ _ _ | .qcomScmAssignMem _ _ _ => some (if ok then 0 else -EINVAL)
  | .sgDmaAddress _ => some k.dmaAddr
  | .iommuMapSg _ _ _ _ => some (if ok then 0 else -EINVAL)
  | .iommuUnmap _ _ size => some (if ok then size else 0)
  | .dmaMapResource _ addr _ => some (if ok then addr else DMA_MAPPING_ERROR)
  | .smmuFind c id => some (w.find c (·.id == id))
  | .smmuFindMmio c id => some (w.find c fun s => s.id == id && s.context.isSome)
  | .smmuScanMmio c fixed iova => some (fixed && (w.ctxs c).smmuTable.any fun p =>
      (w.smaps p).context.any fun m => (w.mmioCtxs m).iova == iova)
  | .smmuAdd c _ _ | .smmuAddMmio c _ _ _ => some (w.ctxs c).id
  | .hashEntries c => some (w.ctxs c).smmuTable
  | .lastOffset m => some (w.kgsl.lastOffset m)
  | .bitmapFindNextZeroArea m start nr => some (.ofNat 64
      (findZeroArea (w.kgsl.bits m) KGSL_PT_MEM_PAGES start.toNat nr.toNat))
  | .readCtx c => some (w.ctxs c)
  | .ofPropertyCountElems _ => some (if ok then k.count else -EINVAL)
  | .ofParsePhandle _ index => some (if ok then some index else none)
  | .readResMem p index => some ((w.resMems p)[index.toNat]?.getD {})
  | .remapPfnRange _ _ _ => some (if ok then 0 else -EINVAL)
  | .readHandle p => some (w.handles p)
  | .kfree _ | .kfreeSmap _ | .kfreeMmioCtx _ | .fput _ | .setDmaCookie _ _ _ | .dmaBufPut _
  | .dmaBufDetach _ _ | .dmaBufUnmapAttachment _ _ _ | .dmaUnmapSgtable _ _ _ _
  | .mangleSgTable _ | .iommuFlushIotlbAll _ | .dmaUnmapResource _ _ _ | .smmuDel _ _
  | .smmuDelMmio _ _ | .hashDel _ _ | .setLastOffset _ _ | .bitmapSet _ _ _ | .bitmapClear _ _ _
  | .kfreeCtx _ | .ofNodePut _ | .setNumReservedRegions _ _ | .setResMemArea _ _
  | .writeMemInfo _ _ | .writeResMem _ _ _ | .kfreeResMem _ | .kfreeHandle _ | .xaDestroy _ =>
      some ()

variable {β : Type} {request : KCall β} {w : World} {answer : β}

theorem attachment_fits (k : Answers) (w : World) (d : DmaBuf) (dev : Device) :
    (k.attachment w d dev).Fits d dev ∧ (k.attachment w d dev).id ∉ w.attachmentIds := by
  refine ⟨⟨rfl, rfl, rfl, ?_⟩, ?_⟩
  · cases hkeeps : k.keepsTable with
    | false => exact .inl (by simp [Answers.attachment, hkeeps])
    | true => exact .inr (.inr (by simp [Answers.attachment, hkeeps, Attachment.table]))
  · intro hmem
    obtain ⟨r, hr, hid⟩ := (Multiset.mem_filterMap _ _).mp hmem
    cases r with
    | attachment a =>
        have hnumber : (Resource.attachment a).number = w.freshNumber := Option.some.inj hid
        exact World.freshNumber_notMem hnumber hr
    | _ => cases hid

/-- The answers are possible. -/
theorem Answers.choose_step {k : Answers} (h : k.choose β request w = some answer) :
    ∃ w', kernelStep request w answer = some w' := by
  have hfresh : ∀ r : Resource, r.number = w.freshNumber → r ∉ w.held := fun _ =>
    World.freshNumber_notMem
  cases hfails : k.fails β request <;>
    simp only [Answers.choose, hfails] at h
  all_goals cases request with
  | oops => cases h
  | strndupUser | kmallocArray | kzallocSmap | kzallocMmioCtx | kcallocResMem =>
      cases h
      first
        | exact ⟨_, rfl⟩
        | exact ⟨_, if_neg (hfresh _ rfl)⟩
  | dmaBufAttach d dev =>
      cases h
      first
        | exact ⟨_, if_pos (attachment_fits k w d dev)⟩
        | exact ⟨_, rfl⟩
  | dmaMapResource =>
      simp only [kernelStep]
      split <;> exact ⟨_, rfl⟩
  | smmuDelMmio =>
      simp only [kernelStep]
      split <;> exact ⟨_, rfl⟩
  | bitmapFindNextZeroArea m start nr =>
      cases h
      have hspec := findZeroArea_spec (w.kgsl.bits m) KGSL_PT_MEM_PAGES start.toNat nr.toNat
      have hlt : findZeroArea (w.kgsl.bits m) KGSL_PT_MEM_PAGES start.toNat nr.toNat < 2 ^ 64 := by
        have := hspec.1
        have := nr.isLt
        simp only [KGSL_PT_MEM_PAGES] at *
        omega
      exact ⟨w, if_pos (by rwa [BitVec.toNat_ofNat, Nat.mod_eq_of_lt hlt])⟩
  | readResMem p index =>
      cases h
      refine ⟨w, if_pos fun _ area harea => ?_⟩
      rw [harea, Option.getD_some]
  | _ =>
      simp only [Option.some.injEq, Bool.not_true, Bool.not_false, Bool.false_eq_true, if_true,
        if_false] at h
      try subst h
      simp [kernelStep, EFAULT, EBADF, ENOMEM, EINVAL]

/-- Every call that returns is answered. -/
theorem Answers.choose_isSome [Nonempty β] (k : Answers) (request : KCall β) (w : World) :
    (k.choose β request w).isSome = true := by
  cases request with
  | oops => exact (not_isEmpty_of_nonempty Empty inferInstance).elim
  | _ => rfl

/-- The kernel can answer every call that returns. -/
theorem kernel_responsive : kernel.Responsive := by
  intro β _ request w
  let k : Answers := ⟨fun _ _ => false, default, default, false, default, 0, (0, 0), 0⟩
  obtain ⟨answer, hanswer⟩ := Option.isSome_iff_exists.mp (k.choose_isSome request w)
  obtain ⟨w', hstep⟩ := Answers.choose_step hanswer
  exact ⟨answer, w', hstep⟩

/-! ## An initial state and a request -/

/-- Answers for one device and one buffer of one page, of which only the calls of `fails` fail. -/
def Answers.plain (fails : (β : Type) → KCall β → Bool) : Answers where
  fails := fails
  file := fun _ => ⟨0, some (some ⟨0, some ⟨0, 0⟩⟩)⟩
  buffer := fun _ => ⟨0, 0x1000, [⟨0x4000, 0x1000⟩]⟩
  keepsTable := true
  acl := ⟨9, 6⟩
  dmaAddr := 0x60000000
  region := (0x8000, 0x8FFF)
  count := 1

/-- The calls that copy a reply to the user. -/
def KCall.isCopyToUser : (β : Type) → KCall β → Bool
  | _, .copyToUser _ => true
  | _, _ => false

/-- The state before the driver is first used: nothing is held, all contexts are empty and all
memory is owned by HLOS. -/
def World.initial : World where
  dmabufDebug := false
  ctxs := fun _ => {}
  smaps := fun _ => {}
  mmioCtxs := default
  resMems := fun _ => []
  handles := default
  held := 0
  kgsl := default
  cookies := fun _ => ⟨.iova, 0⟩
  owner := fun _ => {QCOM_SCM_VMID_HLOS}

/-- An ordinary request to map a buffer. -/
def plainUser : KiumdUser where
  vfioFd := 3
  dmaBufFd := 4
  dmaAddr := 0
  dmaAttr := 0
  dmaDirection := 0
  ptselect := 0
  handle := 0
  isIovaZero := 0
  memParcel := ⟨1, 0x1000⟩
  id := 0

/-- A request to map or unmap a privileged buffer. -/
def privilegedUser : KiumdUser := { plainUser with dmaAttr := DMA_ATTR_PRIVILEGED }

end SafeLinux.Kiumd
