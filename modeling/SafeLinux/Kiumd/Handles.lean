import SafeLinux.Effects.Lift
import SafeLinux.Kiumd.Device
import Mathlib.Data.List.Sort

/-!
# Handles of DMA buffers

`kiumd_fd_dmabuf_handler` keeps a counted handle for each buffer that user space has passed in:
FD_TO_HANDLE finds or makes the handle of a buffer, HANDLE_TO_FD installs a new descriptor for the
buffer of a handle and CLOSE_HANDLE counts a handle down. The handles are held in an xarray, and
each request runs under `kiumd_xa_mutex`. `HandleOp` adds the operations on the xarray, the handles
and the descriptors to the calls of `KCall`.
-/

namespace SafeLinux.Kiumd

open Effects

/-! ## The operations -/

/-- The operations of `kiumd_fd_dmabuf_handler`, by the type of their answer. -/
inductive HandleOp : Type → Type where
  | kzallocHandle : HandleOp (Option Nat)
  | setHandle (p : Nat) (handle : DmaBufHandle) : HandleOp Unit
  | atomicInc (p : Nat) : HandleOp Unit
  | atomicDecAndTest (p : Nat) : HandleOp Bool
  | xaForEach (c : Nat) : HandleOp (List (Nat × Nat))
  | xaAlloc (c p : Nat) : HandleOp (Except Int U32)
  | xaLoad (c : Nat) (index : U32) : HandleOp (Option Nat)
  | xaErase (c : Nat) (index : U32) : HandleOp Unit
  | dmaBufFd (d : DmaBuf) : HandleOp Int
  | getDmaBuf (d : DmaBuf) : HandleOp Unit

/-- A value as an `int` holds it. -/
def wrapInt (n : Int) : Int := (BitVec.ofInt 32 n).toInt

namespace World

/-- The entries of a context's xarray: their indices and handles, in the order of the indices. -/
def xa (w : World) (c : Nat) : List (Nat × Nat) := (w.ctxs c).kiumdXa

/-- Replace the handle `p`. -/
def setHandle (w : World) (p : Nat) (handle : DmaBufHandle) : World :=
  { w with handles := Function.update w.handles p handle }

/-- Add to the count of the handle `p`. -/
def countHandle (w : World) (p : Nat) (n : Int) : World :=
  w.setHandle p
    { w.handles p with handleRefcount := wrapInt ((w.handles p).handleRefcount + n) }

end World

/-- What the operations do. A descriptor that `dma_buf_fd` installs owns a reference to its buffer,
which the driver owned before. -/
def handleStep : {β : Type} → HandleOp β → World → β → Option World
  | _, .kzallocHandle, w, none => some w
  | _, .kzallocHandle, w, some p =>
      if .handle p ∈ w.held then none else some ((w.hold (.handle p)).setHandle p ⟨.null, 0⟩)
  | _, .setHandle p handle, w, _ => some (w.setHandle p handle)
  | _, .atomicInc p, w, _ => some (w.countHandle p 1)
  | _, .atomicDecAndTest p, w, zero =>
      let w' := w.countHandle p (-1)
      if zero = decide ((w'.handles p).handleRefcount = 0) then some w' else none
  | _, .xaForEach c, w, entries => if entries = w.xa c then some w else none
  | _, .xaAlloc c p, w, .ok index =>
      if index.toNat ∈ (w.xa c).map (·.1) then none
      else some (w.setCtx c fun k =>
        { k with kiumdXa := k.kiumdXa.orderedInsert (·.1 ≤ ·.1) (index.toNat, p) })
  | _, .xaAlloc _ _, w, .error e => if e < 0 then some w else none
  | _, .xaLoad c index, w, found =>
      if found = ((w.xa c).find? (·.1 == index.toNat)).map (·.2) then some w else none
  | _, .xaErase c index, w, _ =>
      some (w.setCtx c fun k => { k with kiumdXa := k.kiumdXa.filter (·.1 != index.toNat) })
  | _, .dmaBufFd d, w, fd => some (if 0 ≤ fd then w.release (.dmabuf d) else w)
  | _, .getDmaBuf d, w, _ => some (w.hold (.dmabuf d))

/-- The calls of the handler. -/
abbrev HandleCall : Type → Type := Either KCall HandleOp

/-- The kernel as the environment of the handler. -/
def handleKernel : Semantics HandleCall World := kernel.either ⟨handleStep⟩

/-- A program of the handler. -/
abbrev HandleProg := Program HandleCall

/-- Make a call of the rest of the driver. -/
def ask {β : Type} (request : KCall β) : HandleProg β := .perform (.inl request)

/-- Make an operation on the handles. -/
def op {β : Type} (request : HandleOp β) : HandleProg β := .perform (.inr request)

/-! ## The handler -/

/-- `dma_buf_put`, which dereferences an error pointer. -/
def putBuffer : KPtr DmaBuf → HandleProg Unit
  | .ptr d => ask (.dmaBufPut d)
  | _ => ask .oops >>= Empty.elim

/-- The loop of FD_TO_HANDLE: count an open of the handle that names the buffer. -/
def findHandle (dmabuf : KPtr DmaBuf) : List (Nat × Nat) → HandleProg (Option U32)
  | [] => return none
  | (index, p) :: rest => do
      let entry ← ask (.readHandle p)
      if entry.dmabuf = dmabuf then
        op (.atomicInc p)
        return some (.ofNat 32 index)
      else
        findHandle dmabuf rest

/-- Give a new handle an index. -/
def allocIndex (ctx p : Nat) (dmabuf : KPtr DmaBuf) : HandleProg (Except Int U32) := do
  match ← op (.xaAlloc ctx p) with
  | .ok index => return .ok index
  | .error err => do
      putBuffer dmabuf
      ask (.kfreeHandle p)
      return .error err

/-- Make a handle for a buffer. -/
def makeHandle (ctx : Nat) (dmabuf : KPtr DmaBuf) : HandleProg (Except Int U32) := do
  let some p ← op .kzallocHandle | do
    putBuffer dmabuf
    return .error (-ENOMEM)
  op (.setHandle p ⟨dmabuf, 1⟩)
  allocIndex ctx p dmabuf

/-- The branch FD_TO_HANDLE. An error pointer gets a handle like a buffer. -/
def fdToHandle (ctx : Nat) (kiusr : KiumdUser) : HandleProg (Except Int KiumdUser) := do
  if kiusr.dmaBufFd < 0 then
    return .error (-EBADF)
  let dmabuf ← ask (.dmaBufGet kiusr.dmaBufFd)
  if dmabuf = .null then
    return .error (-EINVAL)
  let entries ← op (.xaForEach ctx)
  match ← findHandle dmabuf entries with
  | some index => return .ok { kiusr with handle := index }
  | none =>
      match ← makeHandle ctx dmabuf with
      | .ok index => return .ok { kiusr with handle := index }
      | .error err => return .error err

/-- The branch HANDLE_TO_FD. For an error pointer `dma_buf_fd` keeps its value, which is
negative. -/
def handleToFd (ctx : Nat) (kiusr : KiumdUser) : HandleProg (Except Int KiumdUser) := do
  let some p ← op (.xaLoad ctx kiusr.handle) | return .error (-EINVAL)
  match (← ask (.readHandle p)).dmabuf with
  | .ptr d =>
      let fd ← op (.dmaBufFd d)
      if fd < 0 then
        return .error (-EBADF)
      else
        op (.getDmaBuf d)
        return .ok { kiusr with dmaBufFd := fd }
  | _ => return .error (-EBADF)

/-- `dma_buf_put` for a buffer that is not an error pointer. -/
def putReal : KPtr DmaBuf → HandleProg Unit
  | .ptr d => ask (.dmaBufPut d)
  | _ => return ()

/-- The branch CLOSE_HANDLE. The memory of the handle is not freed. -/
def closeHandle (ctx : Nat) (kiusr : KiumdUser) : HandleProg (Except Int KiumdUser) := do
  let some p ← op (.xaLoad ctx kiusr.handle) | return .error (-EINVAL)
  let dmabuf := (← ask (.readHandle p)).dmabuf
  if ← op (.atomicDecAndTest p) then
    putReal dmabuf
    op (.xaErase ctx kiusr.handle)
  else
    putReal dmabuf
  return .ok { kiusr with dmaBufFd := 0 }

/-- The branch a request selects. `handle` is unsigned, so that `handle < 0` never holds. -/
def handleBranch (ctx : Nat) (kiusr : KiumdUser) : HandleProg (Except Int KiumdUser) := do
  if kiusr.handle = .ofInt 32 FD_TO_HANDLE then
    fdToHandle ctx kiusr
  else if kiusr.dmaBufFd = HANDLE_TO_FD then
    handleToFd ctx kiusr
  else if kiusr.dmaBufFd = CLOSE_HANDLE then
    closeHandle ctx kiusr
  else
    return .ok kiusr

/-- `kiumd_fd_dmabuf_handler`. -/
def kiumdFdDmabufHandler (kiusr : KiumdUser) (privateData : Option Nat) : HandleProg Int := do
  let some ctx := privateData | return -EINVAL
  if ¬ (← ask (.copyFromUser (.user kiusr))) then
    return -EFAULT
  match ← handleBranch ctx kiusr with
  | .error err => return err
  | .ok reply =>
      if ¬ (← ask (.copyToUser (.user reply))) then
        return -EFAULT
      return 0

end SafeLinux.Kiumd
