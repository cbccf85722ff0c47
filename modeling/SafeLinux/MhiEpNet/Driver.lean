import SafeLinux.Effects.Threads
import SafeLinux.Linux.Types

/-!
# The MHI endpoint network driver

The transmit side of `mhi_ep_net.c`: `mhi_ndo_xmit`, the transmit work and the downlink callback.
`NetCall` lists the steps these functions take on what they share, one constructor a step; a section
under a spinlock or under the statistics' sequence counter is one step. `netSystem` is the system of
the three: the work runs on one thread of the workqueue, at most one completion of the channel is
delivered at a time, and any number of threads transmit.

What the driver keeps is in `State`, together with a record of every packet it has accepted.
-/

namespace SafeLinux.MhiEpNet

open Effects
open Effects.Program (perform)

def ENOTCONN : Int := 107

/-- A packet: its place in the order in which packets were accepted, and `skb->len`. -/
structure Packet where
  number : Nat
  len : U32
  deriving DecidableEq

/-- The statistics of the transmit side, and what became of the packets. -/
structure Books where
  txPackets : U64
  txBytes : U64
  txDropped : U64
  /-- The packets that `mhi_ep_queue_skb` took. -/
  handed : List Packet
  /-- The packets freed with `kfree_skb`. -/
  discarded : List Packet
  /-- Every packet freed, once for each time. -/
  freed : List Packet
  deriving DecidableEq

/-- The state shared by the driver's functions. -/
structure State where
  /-- Every packet `mhi_ndo_xmit` has accepted. -/
  accepted : List Packet
  txBuffers : List Packet
  books : Books
  /-- The packets the current run of the work has taken from `tx_buffers`. -/
  batch : List Packet
  /-- The buffers in the ring of the downlink channel. -/
  ring : Nat
  /-- `netif_queue_stopped` -/
  stopped : Bool
  /-- The work is queued. -/
  pending : Bool
  deriving DecidableEq

/-- A started device with some buffers in its ring. -/
def State.fresh (ring : Nat) : State := ⟨[], [], ⟨0, 0, 0, [], [], []⟩, [], ring, false, false⟩

/-- A 64-bit counter counts. -/
theorem ofNat_succ (n : Nat) : (BitVec.ofNat 64 n : U64) + 1 = BitVec.ofNat 64 (n + 1) := by
  apply BitVec.eq_of_toNat_eq
  simp

/-! ## Steps -/

/-- The steps of the driver's functions. -/
inductive NetCall : Type → Type where
  /-- `mhi_ep_queue_is_empty(mdev, DMA_FROM_DEVICE)` -/
  | mhiEpQueueIsEmpty : NetCall Bool
  /-- `mhi_ep_queue_skb`: its return value, and how many buffers of the ring it used. -/
  | mhiEpQueueSkb (skb : Packet) : NetCall (Int × Nat)
  /-- `skb_queue_splice_init` under `tx_lock`: the packets of `tx_buffers`. -/
  | skbQueueSpliceInit : NetCall (List Packet)
  /-- `skb_queue_tail` under `tx_lock`, of a packet of a length. -/
  | skbQueueTail (len : U32) : NetCall Unit
  /-- `tx_packets` and `tx_bytes` grow. -/
  | statsSent (len : U32) : NetCall Unit
  /-- `tx_dropped` grows. -/
  | statsDropped : NetCall Unit
  | kfreeSkb (skb : Packet) : NetCall Unit
  | consumeSkb (skb : Packet) : NetCall Unit
  | condResched : NetCall Unit
  | netifStopQueue : NetCall Unit
  | netifWakeQueue : NetCall Unit
  | netifQueueStopped : NetCall Bool
  | queueWork : NetCall Unit
  /-- The host adds buffers to the ring. -/
  | ringRefill (buffers : Nat) : NetCall Unit

/-- What the steps do. The answers of `mhi_ep_queue_is_empty` and `mhi_ep_queue_skb` are open. -/
def net : Semantics NetCall State where
  step := fun request s answer =>
    match request with
    | .mhiEpQueueIsEmpty | .condResched => some s
    | .mhiEpQueueSkb skb =>
        if answer.1 = 0 then
          some { s with
            books := { s.books with handed := skb :: s.books.handed }, ring := s.ring - answer.2 }
        else some s
    | .skbQueueSpliceInit =>
        if answer = s.txBuffers then some { s with txBuffers := [], batch := answer } else none
    | .skbQueueTail len =>
        let skb : Packet := ⟨s.accepted.length, len⟩
        some { s with accepted := s.accepted ++ [skb], txBuffers := s.txBuffers ++ [skb] }
    | .statsSent len =>
        some { s with books := { s.books with
          txPackets := s.books.txPackets + 1,
          txBytes := s.books.txBytes + len.setWidth 64 } }
    | .statsDropped =>
        some { s with books := { s.books with txDropped := s.books.txDropped + 1 } }
    | .kfreeSkb skb =>
        some { s with books := { s.books with
          discarded := skb :: s.books.discarded, freed := skb :: s.books.freed } }
    | .consumeSkb skb =>
        some { s with books := { s.books with freed := skb :: s.books.freed } }
    | .netifStopQueue => some { s with stopped := true }
    | .netifWakeQueue => some { s with stopped := false }
    | .netifQueueStopped => if answer = s.stopped then some s else none
    | .queueWork => some { s with pending := true }
    | .ringRefill buffers => some { s with ring := s.ring + buffers }

/-- Programs of the driver. -/
abbrev NetProg := Program NetCall Unit

/-! ## Functions -/

/-- The loop of `mhi_ep_net_dev_process_queue_packets` over its local queue. -/
def sendPackets : List Packet → NetProg
  | [] => return
  | skb :: q => do
      let (ret, _) ← perform (.mhiEpQueueSkb skb)
      if ret ≠ 0 then
        perform (.kfreeSkb skb)
        perform .statsDropped
      else
        perform (.statsSent skb.len)
        if ← perform .mhiEpQueueIsEmpty then
          perform .netifStopQueue
        else
          perform (.consumeSkb skb)
          perform .condResched
          sendPackets q

/-- `mhi_ep_net_dev_process_queue_packets` -/
def mhiEpNetDevProcessQueuePackets : NetProg := do
  if ← perform .mhiEpQueueIsEmpty then
    perform .netifStopQueue
  else
    let q ← perform .skbQueueSpliceInit
    sendPackets q

/-- `mhi_ndo_xmit`, of a packet of a length. -/
def mhiNdoXmit (len : U32) : NetProg := do
  perform (.skbQueueTail len)
  perform .queueWork

/-- `mhi_ep_net_dl_callback`, of a transaction status. -/
def mhiEpNetDlCallback (transactionStatus : Int) : NetProg := do
  if transactionStatus = -ENOTCONN then
    return
  if ← perform .netifQueueStopped then
    perform .netifWakeQueue
    perform .queueWork

/-- A completion of the downlink channel. The host has added buffers to the ring, unless the channel
is stopped or reset. -/
def mhiCompletion (transactionStatus : Int) (buffers : Nat) : NetProg := do
  if transactionStatus ≠ -ENOTCONN then
    perform (.ringRefill buffers)
  mhiEpNetDlCallback transactionStatus

/-! ## The system -/

/-- The threads: the worker of the workqueue, the one that delivers completions, and those that
transmit. -/
inductive Party where
  | work
  | callback
  | xmit (n : Nat)
  deriving DecidableEq

/-- What the threads do. -/
inductive Job where
  | processQueuePackets
  | completion (transactionStatus : Int) (buffers : Nat)
  | xmit (len : U32)

/-- The program of a job. -/
def Job.program : Job → NetProg
  | .processQueuePackets => mhiEpNetDevProcessQueuePackets
  | .completion transactionStatus buffers => mhiCompletion transactionStatus buffers
  | .xmit len => mhiNdoXmit len

/-- The pools of the driver. -/
abbrev NetPool := Pool Party Job NetCall State Unit

/-- The steps of the driver's pools. -/
abbrev NetMove := Move Party Job NetCall

/-- Which thread starts which job. The worker starts the work when it is queued, and from then on it
can be queued again. -/
def starts (P : NetPool) : Party → Job → State → Prop
  | .work, .processQueuePackets, s =>
      P.shared.pending = true ∧ s = { P.shared with pending := false, batch := [] }
  | .callback, .completion _ _, s => s = P.shared
  | .xmit _, .xmit _, s => s = P.shared
  | _, _, _ => False

/-- The transmit side of the driver. -/
def netSystem : System Party Job NetCall State Unit where
  semantics := fun _ => net
  program := Job.program
  start := starts
  finish := fun _ _ _ s => s

end SafeLinux.MhiEpNet
