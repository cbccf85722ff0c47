import SafeLinux.Linux.Types
import Mathlib.Data.Finset.Basic
import Mathlib.Data.Multiset.Basic

/-!
# Data of the kiumd driver

The structures of `drivers/kiumd.c` and `uapi/misc/kiumd.h`, with the fields some modelled function
reads or writes, and the kernel objects they point to. A pointer to a heap object of the driver is
a number; a pointer to a kernel object the driver only passes on is the object's immutable part.
-/

namespace SafeLinux.Kiumd

/-! ## Constants -/

def DMA_BIDIRECTIONAL : Int := 0
def DMA_TO_DEVICE : Int := 1
def DMA_NONE : Int := 3

def DMA_MAPPING_ERROR : U64 := BitVec.allOnes 64

def DMA_ATTR_SKIP_CPU_SYNC : Int := 32
def DMA_ATTR_PRIVILEGED : Int := 512

def IOMMU_READ : Int := 1
def IOMMU_WRITE : Int := 2
def IOMMU_CACHE : Int := 4
def IOMMU_PRIV : Int := 32

def KGSL_GLOBAL_PT : Int := 1
def KGSL_PER_PROCESS_PT : Int := 2
def KGSL_DEFAULT_PT : Int := 3
def FIXED_IOVA_AT_ZERO : Int := 5

def PAGE_SHIFT : Nat := 12

/-- Number of pages of the 3 GiB IOVA windows of the two KGSL page tables. -/
def KGSL_PT_MEM_PAGES : Nat := 0xC0000
def KGSL_GLOBAL_PT_BASE_IOVA : U64 := 0xFFFFFF8000000000#64
def KGSL_PER_PROCESS_PT_BASE_IOVA : U64 := 0x60000000#64

def MAX_KIUMD_ACL_ENTRIES : Nat := 64
def KIUMD_MAX_VMID : Int := 64
def KIUMD_MAX_PERMS : Int := 8

def KIUMD_MAX_RESERVED_MEM_AREAS : Nat := 10

def QCOM_SCM_VMID_HLOS : Int := 3
def QCOM_SCM_PERM_READ : Int := 4
def QCOM_SCM_PERM_RW : Int := 6
def QCOM_SCM_PERM_RWX : Int := 7

def HANDLE_TO_FD : Int := -1
def FD_TO_HANDLE : Int := -2
def CLOSE_HANDLE : Int := -3

def KIUMD_SMMU_SET_TTBR0_CONFIG : U32 := 11
def KIUMD_SMMU_SET_TTBR1_CONFIG : U32 := 12

/-! ## Kernel objects -/

/-- One scatterlist entry: the physical address and the length of a piece of memory. -/
structure SgEntry where
  phys : Nat
  length : Nat
  deriving DecidableEq, Inhabited

/-- A DMA buffer: its size and the scatterlist of its memory. -/
structure DmaBuf where
  id : Nat
  size : U64
  sg : List SgEntry
  deriving DecidableEq, Inhabited

/-- An IOMMU domain. -/
abbrev Domain := Nat

/-- A device with its default IOMMU domain. -/
structure Device where
  id : Nat
  domain : Domain
  deriving DecidableEq, Inhabited

/-- `struct vfio_device`. -/
structure VfioDevice where
  id : Nat
  dev : Option Device
  deriving DecidableEq, Inhabited

/-- `struct file`, with `private_data` read as a `struct vfio_device_file`, of which the driver
uses the field `device`. -/
structure File where
  id : Nat
  privateData : Option (Option VfioDevice)
  deriving DecidableEq, Inhabited

/-- The `sg_table` an exporter made for one attachment. -/
structure SgTable where
  attachment : Nat
  sgl : List SgEntry
  deriving DecidableEq, Inhabited

/-- `struct dma_buf_attachment`; `priv` is read as a `struct kiumd_dma_heap_attachment`, of which
the driver uses the field `table`. -/
structure Attachment where
  id : Nat
  dmabuf : KPtr DmaBuf
  dev : Device
  priv : Option (Option SgTable)
  sgl : List SgEntry
  deriving DecidableEq, Inhabited

/-- The table an exporter hands out for an attachment: `a->table` in `qcom_sg_map_dma_buf`. -/
def Attachment.table (a : Attachment) : SgTable := ⟨a.id, a.sgl⟩

/-- `struct qcom_scm_vmperm`. -/
structure QcomScmVmperm where
  vmid : Int
  perm : Int
  deriving DecidableEq, Inhabited

/-! ## User structures -/

/-- `struct kiumd_acl_entry`. -/
structure KiumdAclEntry where
  vmid : U32
  perms : U32
  deriving DecidableEq, Inhabited

/-- `struct kiumd_mem_parcel`; the list is a user address, `0` for `NULL`. -/
structure KiumdMemParcel where
  nrAclEntries : U32
  aclList : Nat
  deriving DecidableEq, Inhabited

/-- `struct kiumd_user`. -/
structure KiumdUser where
  vfioFd : Int
  dmaBufFd : Int
  dmaAddr : U64
  dmaAttr : Int
  dmaDirection : Int
  ptselect : Int
  handle : U32
  isIovaZero : Int
  memParcel : KiumdMemParcel
  id : U32
  deriving DecidableEq, Inhabited

/-- `struct kiumd_smmu_mmio_map`. -/
structure KiumdSmmuMmioMap where
  fixedIova : BitVec 8
  vfioFd : Int
  id : U32
  iova : U64
  regLen : U64
  regName : Nat
  deriving DecidableEq, Inhabited

/-- `struct kiumd_smmu_user`; a `long` that holds a pointer is the pointer. -/
structure KiumdSmmuUser where
  vfioFd : Int
  pgtblOpsPtr : U64
  ttbr0 : U64
  asid : BitVec 16
  flags : U32
  deriving DecidableEq, Inhabited

/-- `struct kiumd_mem_info`. -/
structure KiumdMemInfo where
  offset : U32
  size : U32
  deriving DecidableEq, Inhabited

/-- `struct kiumd_dev_mem_info`. -/
structure KiumdDevMemInfo where
  vfioFd : Int
  numRegions : U32
  memInfo : List KiumdMemInfo
  deriving DecidableEq, Inhabited

/-! ## Driver structures -/

/-- `struct smmu_map_data`; a `long` that holds a pointer is the pointer, `none` for `0`. -/
structure SmmuMapData where
  id : U32 := 0
  sgtPtr : Option SgTable := none
  dmabufPtr : Option DmaBuf := none
  dmabufattach : Option Attachment := none
  dmaDir : Int := 0
  ptselect : Int := 0
  isIovaZero : Int := 0
  vfioDev : Option VfioDevice := none
  context : Option Nat := none
  deriving DecidableEq, Inhabited

/-- `struct kiumd_smmu_mmio_ctx`. -/
structure KiumdSmmuMmioCtx where
  dev : Device
  iova : U64
  size : U64
  deriving DecidableEq, Inhabited

/-- `struct kiumd_reserved_mem_area`. -/
structure KiumdReservedMemArea where
  size : U64 := 0
  base : U64 := 0
  deriving DecidableEq, Inhabited

/-- `struct dma_buf_handle`. -/
structure DmaBufHandle where
  dmabuf : KPtr DmaBuf
  handleRefcount : Int
  deriving DecidableEq, Inhabited

/-- `struct kiumd_ctx`. The hash table is the list of its entries, the latest first; the xarray is
the list of its indices and entries. -/
structure KiumdCtx where
  id : U32 := 0
  smmuTable : List Nat := []
  resMemArea : Option Nat := none
  numReservedRegions : Int := 0
  kiumdXa : List (Nat × Nat) := []
  deriving DecidableEq, Inhabited

/-- The two bitmaps of the KGSL page tables. -/
inductive KgslMap where
  | global
  | perprocess
  deriving DecidableEq, Inhabited

/-- `global_map` and `perprocess_map` with the static search positions of `get_map_offset`. -/
structure KgslMaps where
  bits : KgslMap → Nat → Bool
  lastOffset : KgslMap → U64

instance : Inhabited KgslMaps := ⟨⟨fun _ _ => false, fun _ => 0⟩⟩

/-- `enum iommu_dma_cookie_type`. -/
inductive IommuDmaCookieType where
  | iova
  | msi
  deriving DecidableEq, Inhabited

/-- `struct kiumd_iommu_dma_cookie`, the fields the driver writes. -/
structure KiumdIommuDmaCookie where
  type : IommuDmaCookieType
  msiIova : U64
  deriving DecidableEq, Inhabited

end SafeLinux.Kiumd
