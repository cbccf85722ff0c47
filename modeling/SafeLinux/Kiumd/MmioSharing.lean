import SafeLinux.Effects.Threads
import SafeLinux.Kiumd.Ioctl
import SafeLinux.Kiumd.UnmapOutcome

/-!
# MMIO requests that share a context

Several threads serve KIUMD_SMMU_MMIO_MAP and KIUMD_SMMU_MMIO_UNMAP on one context, call by call. A
fixed mapping is placed at the IOVA of the domain's cookie, which the request sets under the mutex
of the cookie. Besides the state of the driver the threads share who holds these mutexes, and for
each thread what its request has come to: the range it has asked for since it scanned the table, the
memory it has allocated and the entry it works on.
-/

namespace SafeLinux.Kiumd

open Effects

/-! ## Ranges -/

/-- The addresses of a mapping. -/
def KiumdSmmuMmioCtx.Contains (mmio : KiumdSmmuMmioCtx) (x : Nat) : Prop :=
  mmio.iova.toNat ≤ x ∧ x < mmio.iova.toNat + mmio.size.toNat

/-- Two mappings of one device have an address in common. -/
def KiumdSmmuMmioCtx.Overlaps (mmio mmio' : KiumdSmmuMmioCtx) : Prop :=
  mmio.dev = mmio'.dev ∧ ∃ x, mmio.Contains x ∧ mmio'.Contains x

/-! ## Requests -/

/-- What a thread is asked to do. For a mapping, `file` is the file of the VFIO descriptor, `region`
the first and the last address of the register region, and `ret₀` the indeterminate first value of
`ret`. -/
inductive MmioJob where
  | map (ret₀ : Int) (kiusr : KiumdSmmuMmioMap) (file : File) (region : U64 × U64)
  | unmap (kiusr : KiumdSmmuMmioMap)

/-- The request asks for a fixed IOVA. -/
def MmioJob.isFixed : MmioJob → Bool
  | .map _ kiusr _ _ => kiusr.fixedIova ≠ 0
  | .unmap _ => false

/-- The mapping that a request for a fixed IOVA asks for. -/
def MmioJob.range : MmioJob → Option KiumdSmmuMmioCtx
  | .map _ kiusr file (first, last) =>
      if kiusr.fixedIova ≠ 0 then
        file.device.map fun dev => ⟨dev, kiusr.iova, last - first + 1⟩
      else none
  | .unmap _ => none

/-! ## The shared state -/

/-- What the request of a thread has come to. -/
structure MmioProgress where
  job : Option MmioJob := none
  /-- The fixed mapping it has asked for since its scan has found the IOVA free. -/
  claim : Option KiumdSmmuMmioCtx := none
  /-- The entry it has allocated that is not in the table. -/
  fresh : Option Nat := none
  /-- The MMIO context it has allocated that is not in the table. -/
  freshCtx : Option Nat := none
  /-- The entry of the table it works on. -/
  taken : Option Nat := none

/-- What the threads share. -/
structure MmioSharing where
  world : World
  /-- Who holds the mutex of a cookie. -/
  mutex : Domain → Option Nat
  /-- Whether an entry was requested with a fixed IOVA. -/
  fixed : Nat → Bool
  progress : Nat → MmioProgress

/-- The MMIO mapping of an entry. -/
def World.mmio (w : World) (p : Nat) : KiumdSmmuMmioCtx :=
  w.mmioCtxs ((w.smaps p).context.getD 0)

/-- The table of the context. -/
def MmioSharing.table (s : MmioSharing) (c : Nat) : List Nat := (s.world.ctxs c).smmuTable

/-- What the request of a thread has come to after a call. -/
def MmioProgress.after (x : MmioProgress) (w : World) : Event KCall → MmioProgress
  | ⟨.smmuScanMmio _ _ _, false⟩ => { x with claim := x.job.bind MmioJob.range }
  | ⟨.kzallocSmap, some p⟩ => { x with fresh := some p }
  | ⟨.kfreeSmap _, _⟩ => { x with fresh := none }
  | ⟨.kzallocMmioCtx, some m⟩ => { x with freshCtx := some m }
  | ⟨.kfreeMmioCtx _, _⟩ => { x with freshCtx := none }
  | ⟨.smmuAddMmio _ p _ _, _⟩ =>
      { x with claim := none, fresh := none, freshCtx := none, taken := some p }
  | ⟨.hashDel _ p, _⟩ =>
      { x with fresh := some p, freshCtx := (w.smaps p).context, taken := none }
  | ⟨.smmuFindMmio _ _, some p⟩ => { x with taken := some p }
  | ⟨.smmuDelMmio _ _, _⟩ => { x with taken := none }
  | _ => x

/-- Which entries were requested with a fixed IOVA, after a call for a job. -/
def fixedAfter (fixed : Nat → Bool) (job : Option MmioJob) : Event KCall → Nat → Bool
  | ⟨.smmuAddMmio _ p _ _, _⟩ => Function.update fixed p (job.any MmioJob.isFixed)
  | _ => fixed

/-- Who holds the mutexes of the cookies after a call: a fixed IOVA is set in a cookie once its
mutex is taken, and cleared before it is given back. -/
def mutexAfter (mutex : Domain → Option Nat) (t : Nat) : Event KCall → Domain → Option Nat
  | ⟨.setDmaCookie dom .msi _, _⟩ => Function.update mutex dom (some t)
  | ⟨.setDmaCookie dom .iova _, _⟩ => Function.update mutex dom none
  | _ => mutex

/-- The answers a request can get: its own file and region, a cookie whose mutex is free, and a
mapping at the IOVA of the cookie. -/
def mmioAnswers (s : MmioSharing) (t : Nat) : Event KCall → Bool
  | ⟨.fget _, some file⟩ =>
      match (s.progress t).job with
      | some (.map _ _ file' _) => file = file'
      | _ => true
  | ⟨.platformGetResourceByname _ _, some region⟩ =>
      match (s.progress t).job with
      | some (.map _ _ _ region') => region = region'
      | _ => true
  | ⟨.setDmaCookie dom .msi _, _⟩ => (s.mutex dom).isNone
  | ⟨.dmaMapResource dev _ _, iova⟩ =>
      (s.world.cookies dev.domain).type ≠ .msi || iova = (s.world.cookies dev.domain).msiIova
  | _ => true

/-- The answers to the calls of a thread, and the state after each. -/
def mmioStep (t : Nat) : {β : Type} → KCall β → MmioSharing → β → Option MmioSharing :=
  fun request s answer =>
    if mmioAnswers s t ⟨request, answer⟩ then
      (kernelStep request s.world answer).map fun w =>
        { world := w
          mutex := mutexAfter s.mutex t ⟨request, answer⟩
          fixed := fixedAfter s.fixed (s.progress t).job ⟨request, answer⟩
          progress := Function.update s.progress t
            ((s.progress t).after s.world ⟨request, answer⟩) }
    else none

/-! ## The threads -/

/-- The program of a request on the context. -/
def mmioProgram (c : Nat) : MmioJob → KProg Int
  | .map ret₀ kiusr _ _ => kiumdMmioSmmuMap ret₀ kiusr (some (some c))
  | .unmap kiusr => kiumdMmioSmmuUnmap kiusr (some (some c))

/-- The threads that serve requests on the context. -/
def mmioSystem (c : Nat) : System Nat MmioJob KCall MmioSharing Int where
  semantics t := ⟨mmioStep t⟩
  program := mmioProgram c
  start P t job s := s = { P.shared with
    progress := Function.update P.shared.progress t { job := some job } }
  finish t _ _ s := { s with progress := Function.update s.progress t {} }

/-- No two entries that were requested with a fixed IOVA overlap. -/
def FixedDisjoint (c : Nat) (s : MmioSharing) : Prop :=
  ∀ p ∈ s.table c, ∀ q ∈ s.table c, p ≠ q → s.fixed p = true → s.fixed q = true →
    ¬ (s.world.mmio p).Overlaps (s.world.mmio q)

/-- A call of a thread does not go past what the driver checks: when a request for a fixed IOVA
scans the table and a fixed entry overlaps its mapping, some entry begins at its IOVA; no other
request that has scanned the table and not added its entry yet has asked for an overlapping one; and
no removal finds an entry that another request still works on. -/
def WithinChecks (c t : Nat) (s : MmioSharing) : Event KCall → Prop
  | ⟨.smmuScanMmio _ _ _, _⟩ => ∀ r, (s.progress t).job.bind MmioJob.range = some r →
      ((∃ p ∈ s.table c, s.fixed p = true ∧ (s.world.mmio p).Overlaps r) →
        ∃ p ∈ s.table c, (s.world.mmio p).iova = r.iova) ∧
      ∀ u ≠ t, ∀ r', (s.progress u).claim = some r' → ¬ r'.Overlaps r
  | ⟨.smmuFindMmio _ _, some p⟩ => ∀ u, (s.progress u).taken ≠ some p
  | _ => True

/-- The condition on a step. -/
def StaysWithinChecks (c : Nat) (P : Pool Nat MmioJob KCall MmioSharing Int) :
    Move Nat MmioJob KCall → Prop
  | .start _ _ => True
  | .call t e => WithinChecks c t P.shared e

/-- The threads before the first request on a new context. -/
structure MmioSharing.Initial (c : Nat) (s : MmioSharing) : Prop where
  empty : s.table c = []
  unlocked : ∀ dom, s.mutex dom = none
  idle : ∀ t, s.progress t = {}

end SafeLinux.Kiumd
