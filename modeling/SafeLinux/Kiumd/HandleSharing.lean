import SafeLinux.Effects.Threads
import SafeLinux.Kiumd.HandleCounts

/-!
# Handle requests among threads that close descriptors

Several threads serve HANDLE_TO_FD and CLOSE_HANDLE requests of a context, one at a time under
`kiumd_xa_mutex`, while others close the descriptors these install. HANDLE_TO_FD installs a
descriptor before it takes the reference that the descriptor owns; until then the descriptor and the
handle share one. A buffer stays alive while it is named if no descriptor is closed in between that
holds the last reference to it.
-/

namespace SafeLinux.Kiumd

open Effects
open Effects.Program (perform)

/-! ## The shared state -/

/-- The operations of threads that share a context. -/
inductive ShareOp : Type → Type where
  | mutexLock : ShareOp Unit
  | mutexUnlock : ShareOp Unit
  | closeFd (fd : Int) : ShareOp Unit

/-- The calls of these threads. -/
abbrev ShareCall : Type → Type := Either HandleCall ShareOp

/-- What the threads share: the state of the driver, the open descriptors and the buffers they
name, the reference count of each buffer and the thread that holds `kiumd_xa_mutex`. `installing`
is the buffer that has a new descriptor for which no reference was taken yet. -/
structure Sharing where
  world : World
  fds : List (Int × DmaBuf)
  refs : DmaBuf → Nat
  holder : Option Nat := none
  installing : Option DmaBuf := none

/-- The buffer that is being installed, after a call. -/
def installedAfter (installing : Option DmaBuf) : Event HandleCall → Option DmaBuf
  | ⟨.inr (.dmaBufFd d), fd⟩ => if fd < 0 then installing else some d
  | ⟨.inr (.getDmaBuf _), _⟩ => none
  | _ => installing

/-- The open descriptors after a call. -/
def fdsAfter (fds : List (Int × DmaBuf)) : Event HandleCall → List (Int × DmaBuf)
  | ⟨.inr (.dmaBufFd d), fd⟩ => if fd < 0 then fds else (fd, d) :: fds
  | _ => fds

/-- The reference counts after a call. -/
def refsAfter (refs : DmaBuf → Nat) : Event HandleCall → DmaBuf → Nat
  | ⟨.inr (.getDmaBuf d), _⟩ => Function.update refs d (refs d + 1)
  | ⟨.inl (.dmaBufPut d), _⟩ => Function.update refs d (refs d - 1)
  | ⟨.inl (.dmaBufGet _), .ptr d⟩ => Function.update refs d (refs d + 1)
  | _ => refs

/-- A descriptor is installed where none is open. -/
def fdFree (fds : List (Int × DmaBuf)) : Event HandleCall → Bool
  | ⟨.inr (.dmaBufFd _), fd⟩ => decide (fd ∉ fds.map Prod.fst)
  | _ => true

/-- The closing of a descriptor drops a reference. -/
def Sharing.close (s : Sharing) (fd : Int) : Sharing :=
  match s.fds.find? fun named => named.1 = fd with
  | none => s
  | some (fd, d) =>
      { s with fds := s.fds.erase (fd, d), refs := Function.update s.refs d (s.refs d - 1) }

/-- The answers to the calls of a thread, and the state after each. -/
def shareStep (t : Nat) : {β : Type} → ShareCall β → Sharing → β → Option Sharing
  | _, .inl request, s, answer =>
      if fdFree s.fds ⟨request, answer⟩ then
        (handleKernel.step request s.world answer).map fun w =>
          { s with
            world := w
            fds := fdsAfter s.fds ⟨request, answer⟩
            refs := refsAfter s.refs ⟨request, answer⟩
            installing := installedAfter s.installing ⟨request, answer⟩ }
      else none
  | _, .inr .mutexLock, s, _ => if s.holder = none then some { s with holder := some t } else none
  | _, .inr .mutexUnlock, s, _ => some { s with holder := none }
  | _, .inr (.closeFd fd), s, _ => some (s.close fd)

/-! ## The threads -/

/-- What a thread does. -/
inductive ShareJob where
  | request (kiusr : KiumdUser)
  | close (fd : Int)

/-- A request, with the mutex around the branch it selects. -/
def shareProgram (ctx : Nat) : ShareJob → Program ShareCall Int
  | .request kiusr => do
      if ¬ (← perform (.inl (.inl (.copyFromUser (.user kiusr))))) then
        return -EFAULT
      perform (.inr .mutexLock)
      let reply ← (handleBranch ctx kiusr).lift .inl
      perform (.inr .mutexUnlock)
      match reply with
      | .error err => return err
      | .ok reply =>
          if ¬ (← perform (.inl (.inl (.copyToUser (.user reply))))) then
            return -EFAULT
          return 0
  | .close fd => do
      perform (.inr (.closeFd fd))
      return 0

/-- The threads serve the requests HANDLE_TO_FD and CLOSE_HANDLE, and close descriptors. -/
def sharedHandles (ctx : Nat) : System Nat ShareJob ShareCall Sharing Int where
  semantics t := ⟨shareStep t⟩
  program := shareProgram ctx
  start P _ job s := s = P.shared ∧
    match job with
    | .request kiusr => kiusr.handle ≠ .ofInt 32 FD_TO_HANDLE
    | .close _ => True
  finish _ _ _ s := s

/-- No buffer is released that an open descriptor or a handle of the context names, except by the
request that holds the mutex and is about to erase the handle, which is no longer open. -/
structure Unreleased (c : Nat) (s : Sharing) : Prop where
  fds : ∀ fd d, (fd, d) ∈ s.fds → 0 < s.refs d
  handles : ∀ e ∈ s.world.xa c, ∀ d, s.world.named e = .ptr d →
    0 < s.refs d ∨ s.holder ≠ none ∧ (s.world.handles e.2).handleRefcount = 0

/-- The descriptor closed does not hold the last reference to a buffer that is being installed. -/
def SparesInstalling (s : Sharing) (e : Event ShareCall) : Prop :=
  ∀ fd d, e = ⟨.inr (.closeFd fd), ()⟩ → (fd, d) ∈ s.fds → s.installing = some d → 2 ≤ s.refs d

/-- The condition on a step. -/
def KeepsInstalling (P : Pool Nat ShareJob ShareCall Sharing Int) :
    Move Nat ShareJob ShareCall → Prop
  | .start _ _ => True
  | .call _ e => SparesInstalling P.shared e

/-- The context has been used by a run of requests, and each reference of the driver and of an open
descriptor is counted. -/
structure Sharing.Initial (c : Nat) (s : Sharing) : Prop where
  run : ∃ w₀ history, w₀.ctxs c = {} ∧
    Run handleKernel (fun kiusr => kiumdFdDmabufHandler kiusr (some c)) OpensCounted w₀ history
      s.world
  counted : ∀ d, s.world.refs d + (s.fds.map Prod.snd).count d ≤ s.refs d
  unlocked : s.holder = none
  installed : s.installing = none

end SafeLinux.Kiumd
