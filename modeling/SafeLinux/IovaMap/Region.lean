import SafeLinux.Effects.Wp
import SafeLinux.Linux.Types
import Mathlib.Data.Fintype.EquivFin
import Mathlib.Data.Multiset.AddSub

/-!
# Reserved IOVA regions of a device

`drivers/iommu_iova_map.c`: the regions named by the property `qcom,iommu-dma-addr-pool` of a
device, in ascending order, and the regions they leave free, which become reserved. The only calls
made are the allocation and the release of a region.
-/

namespace SafeLinux.IovaMap

open Effects
open Effects.Program (perform)

/-- `struct iommu_resv_region`; `id` is its address. -/
structure IommuResvRegion where
  id : Nat
  start : U64
  length : U64
  deriving DecidableEq, Inhabited

/-- The calls of the driver, by the type of their answer. -/
inductive ResvCall : Type → Type where
  | iommuAllocResvRegion (start length : U64) : ResvCall (Option IommuResvRegion)
  | kfree (region : IommuResvRegion) : ResvCall Unit

/-- A program of the driver. -/
abbrev ResvProg := Program ResvCall

/-- The allocator, on the multiset of the regions that are allocated; `mayFail` says whether an
allocation may fail. -/
def resvStep (mayFail : Bool) : {β : Type} → ResvCall β → Multiset Nat → β → Option (Multiset Nat)
  | _, .iommuAllocResvRegion _ _, live, none => if mayFail then some live else none
  | _, .iommuAllocResvRegion start length, live, some region =>
      if region.id ∉ live ∧ region.start = start ∧ region.length = length
      then some (region.id ::ₘ live) else none
  | _, .kfree region, live, _ => some (live.erase region.id)

/-- The allocator as the environment of the driver. -/
def resvKernel (mayFail : Bool) : Semantics ResvCall (Multiset Nat) := ⟨resvStep mayFail⟩

/-- The allocator answers every call. -/
theorem resvKernel_responsive (mayFail : Bool) : (resvKernel mayFail).Responsive := by
  intro β _ request live
  cases request with
  | iommuAllocResvRegion start length =>
      obtain ⟨p, hp⟩ := Infinite.exists_notMem_finset live.toFinset
      refine ⟨some ⟨p, start, length⟩, p ::ₘ live, ?_⟩
      rw [Multiset.mem_toFinset] at hp
      simp [resvKernel, resvStep, hp]
  | kfree region => exact ⟨(), _, rfl⟩

/-! ## The devicetree -/

/-- A devicetree node: the numbers of address and size cells that apply to it and the values of its
properties. -/
structure DeviceNode where
  nAddrCells : Nat
  nSizeCells : Nat
  properties : String → Option (List (BitVec 8))

/-- A device: its own node and the node its `qcom,iommu-group` refers to. -/
structure OfDevice where
  ofNode : Option DeviceNode
  iommuGroup : Option DeviceNode

/-- `qcom_iommu_group_parse_phandle`. -/
def qcomIommuGroupParsePhandle (dev : OfDevice) : Option DeviceNode :=
  match dev.ofNode with
  | none => none
  | some node => some (dev.iommuGroup.getD node)

/-- The whole cells of a property value; bytes after the last one are dropped, as by
`len /= sizeof(u32)`. -/
def be32Cells : List (BitVec 8) → List U32
  | b₀ :: b₁ :: b₂ :: b₃ :: rest => ((b₀ ++ b₁) ++ (b₂ ++ b₃)) :: be32Cells rest
  | _ => []

/-- `of_read_number`; bits beyond the lowest 64 are lost. -/
def ofReadNumber (cell : List U32) (size : Nat) : U64 :=
  (cell.take size).foldl (fun r c => (r <<< 32) ||| c.setWidth 64) 0

/-- The loop of `of_property_walk_each_entry`; `p` is the rest of the property and `arg` what the
callback's argument points to. -/
def walkEntries {Call : Type → Type} {σ : Type}
    (cb : List U32 → (naddr nsize : Nat) → σ → Program Call (Int × σ)) (naddr nsize : Nat) :
    List U32 → σ → Program Call (Int × σ)
  | [], arg => return (0, arg)
  | cell :: p, arg => do
      let (ret, arg) ← cb (cell :: p) naddr nsize arg
      if ret ≠ 0 then
        return (ret, arg)
      walkEntries cb naddr nsize (p.drop (naddr + nsize - 1)) arg
  termination_by p => p.length

/-- `of_property_walk_each_entry`. -/
def ofPropertyWalkEachEntry {Call : Type → Type} {σ : Type} (dev : OfDevice) (propname : String)
    (cb : List U32 → (naddr nsize : Nat) → σ → Program Call (Int × σ)) (arg : σ) :
    Program Call (Int × σ) := do
  let some np := qcomIommuGroupParsePhandle dev | return (-EINVAL, arg)
  let some value := np.properties propname | return (-ENODEV, arg)
  let p := be32Cells value
  if np.nAddrCells = 0 ∨ np.nSizeCells = 0 ∨ p.length % (np.nAddrCells + np.nSizeCells) ≠ 0 then
    return (-EINVAL, arg)
  walkEntries cb np.nAddrCells np.nSizeCells p arg

/-! ## The regions of the pool -/

/-- `check_overlap`; `last` is the source's `end`. -/
def checkOverlap (region : IommuResvRegion) (start last : U64) : Bool :=
  let regionEnd := region.start + region.length - 1
  last ≥ region.start && start ≤ regionEnd

/-- The loop of `insert_range`: the regions before and after the cursor at its end, or `none` when
it has returned for an overlap. -/
def insertScan (start last : U64) :
    List IommuResvRegion → Option (List IommuResvRegion × List IommuResvRegion)
  | [] => some ([], [])
  | region :: rest =>
      if checkOverlap region start last then none
      else if start < region.start then some ([], region :: rest)
      else (insertScan start last rest).map fun (before, after) => (region :: before, after)

/-- `insert_range`. -/
def insertRange (p : List U32) (naddr nsize : Nat) (head : List IommuResvRegion) :
    ResvProg (Int × List IommuResvRegion) := do
  let start := ofReadNumber p naddr
  let last := start + ofReadNumber (p.drop naddr) nsize - 1
  let some (before, after) := insertScan start last head | return (-EINVAL, head)
  let some new ← perform (.iommuAllocResvRegion start (last - start + 1))
    | return (-ENOMEM, head)
  return (0, before ++ new :: after)

/-- `qcom_iommu_generate_dma_regions`. -/
def qcomIommuGenerateDmaRegions (dev : OfDevice) (head : List IommuResvRegion) :
    ResvProg (Int × List IommuResvRegion) :=
  ofPropertyWalkEachEntry dev "qcom,iommu-dma-addr-pool" insertRange head

/-! ## The regions outside the pool -/

/-- The label `out_err` of `invert_regions`. -/
def invertOutErr (ret : Int) : List IommuResvRegion → ResvProg (Except Int (List IommuResvRegion))
  | [] => return .error ret
  | region :: rest => do
      perform (.kfree region)
      invertOutErr ret rest

/-- `U64_MAX`. -/
def U64_MAX : U64 := BitVec.allOnes 64

/-- The last part of `invert_regions`: the end of the address space. -/
def invertTail (prev : IommuResvRegion) (inverted : List IommuResvRegion) :
    ResvProg (Except Int (List IommuResvRegion)) := do
  let rsvStart := prev.start + prev.length
  let rsvSize := -rsvStart
  if rsvSize ≠ 0 ∧ U64_MAX - prev.start > prev.length then
    let some new ← perform (.iommuAllocResvRegion rsvStart rsvSize)
      | invertOutErr (-ENOMEM) inverted
    return .ok (inverted ++ [new])
  else
    return .ok inverted

/-- The second part: the beginning of the address space. -/
def invertHead (first prev : IommuResvRegion) (inverted : List IommuResvRegion) :
    ResvProg (Except Int (List IommuResvRegion)) := do
  if first.start ≠ 0 then
    let some new ← perform (.iommuAllocResvRegion 0 first.start)
      | invertOutErr (-ENOMEM) inverted
    invertTail prev (new :: inverted)
  else
    invertTail prev inverted

/-- The loop of `invert_regions` over the regions after `prev`. -/
def invertGaps (first prev : IommuResvRegion) :
    List IommuResvRegion → List IommuResvRegion → ResvProg (Except Int (List IommuResvRegion))
  | [], inverted => invertHead first prev inverted
  | curr :: rest, inverted => do
      let rsvStart := prev.start + prev.length
      let rsvSize := curr.start - rsvStart
      if rsvSize = 0 then
        invertGaps first curr rest inverted
      else
        let some new ← perform (.iommuAllocResvRegion rsvStart rsvSize)
          | invertOutErr (-ENOMEM) inverted
        invertGaps first curr rest (inverted ++ [new])

/-- `invert_regions`. -/
def invertRegions : List IommuResvRegion → ResvProg (Except Int (List IommuResvRegion))
  | [] => return .error (-EINVAL)
  | first :: rest => invertGaps first first rest []

/-- `iommu_put_resv_regions`, for regions without a release function of their own. -/
def iommuPutResvRegions : List IommuResvRegion → ResvProg Unit
  | [] => return ()
  | region :: rest => do
      perform (.kfree region)
      iommuPutResvRegions rest

/-- `qcom_iommu_generate_resv_regions`. -/
def qcomIommuGenerateResvRegions (dev : OfDevice) (head : List IommuResvRegion) :
    ResvProg (List IommuResvRegion) := do
  let (ret, dmaRegions) ← qcomIommuGenerateDmaRegions dev []
  if ret ≠ 0 then
    return head
  let inverted ← invertRegions dmaRegions
  iommuPutResvRegions dmaRegions
  match inverted with
  | .error _ => return head
  | .ok resvRegions => return resvRegions ++ head

end SafeLinux.IovaMap
