import SafeLinux.Effects.Determined
import SafeLinux.Effects.Run
import SafeLinux.MhiEpNet.Driver

/-!
# The uplink of the MHI endpoint network driver

The receive side of `mhi_ep_net.c`: `mhi_ep_net_ul_callback` with the size of its buffers, which
`mhi_ep_net_setup`, `mhi_ep_net_newlink` and changes of the mtu decide, and `mhi_ndo_get_stats64`.
`UplinkCall` lists what these functions read, allocate, copy and count. The channel delivers one
transfer at a time. The callback reads the mtu once, so a change of the mtu is a request of its own.

A socket buffer is its linear part: `tail` and `end` are offsets from `head`, as the kernel stores
them, and `linear` are the bytes from `data` to `end`. `Outcome` lists the ways a transfer can go.
-/

namespace SafeLinux.MhiEpNet

open Effects
open Effects.Program (perform)

/-- `ETH_MIN_MTU` -/
def MHI_NET_MIN_MTU : U32 := 68
def MHI_NET_MAX_MTU : U32 := 0xffff
def MHI_EP_DEFAULT_MTU : U32 := 0x8000

def ETH_P_IP : BitVec 16 := 0x0800
def ETH_P_IPV6 : BitVec 16 := 0x86DD
def ETH_P_MAP : BitVec 16 := 0x00F9

/-- `htons` on a little-endian machine. -/
def htons (x : BitVec 16) : BitVec 16 := (x <<< 8) ||| (x >>> 8)

/-! ## Socket buffers -/

/-- `struct sk_buff`, as far as the callback uses it, with the size it was allocated for. -/
structure SkBuff where
  size : U32
  len : U32
  /-- `data - head` -/
  headroom : U32
  tail : U32
  «end» : U32
  /-- The bytes from `data` to `end`. -/
  linear : List (BitVec 8)
  protocol : BitVec 16
  deriving DecidableEq

/-- What `netdev_alloc_skb` returns: an empty buffer with room for the size asked for. -/
def SkBuff.Fresh (skb : SkBuff) (size : U32) : Prop :=
  skb.size = size ∧ skb.len = 0 ∧ skb.tail = skb.headroom ∧
    skb.headroom.toNat + size.toNat ≤ skb.end.toNat ∧
    skb.linear.length = skb.end.toNat - skb.headroom.toNat

instance (skb : SkBuff) (size : U32) : Decidable (skb.Fresh size) :=
  inferInstanceAs (Decidable (_ ∧ _))

/-- The buffer after `skb_copy_to_linear_data`, of the bytes behind a pointer. -/
def SkBuff.copied (skb : SkBuff) (source : Nat → BitVec 8) (len : U32) : SkBuff :=
  { skb with linear := skb.linear.mapIdx fun i byte => if i < len.toNat then source i else byte }

/-- The buffer after `skb_put` has moved its tail and its length. -/
def SkBuff.grown (skb : SkBuff) (len : U32) : SkBuff :=
  { skb with tail := skb.tail + len, len := skb.len + len }

/-! ## State and calls -/

/-- `struct mhi_ep_net_stats` -/
structure MhiEpNetStats where
  rxPackets : U64
  rxBytes : U64
  rxErrors : U64
  txPackets : U64
  txBytes : U64
  txErrors : U64
  txDropped : U64
  deriving DecidableEq

/-- `struct net_device`, as far as the size of the buffers depends on it. -/
structure NetDevice where
  mtu : U32
  minMtu : U32
  maxMtu : U32
  deriving DecidableEq

/-- What the receive side keeps. -/
structure UplinkState where
  ndev : NetDevice
  mru : U32
  stats : MhiEpNetStats
  deriving DecidableEq

/-- `mhi_ep_net_setup` -/
def mhiEpNetSetup : NetDevice := ⟨MHI_EP_DEFAULT_MTU, MHI_NET_MIN_MTU, MHI_NET_MAX_MTU⟩

/-- `mhi_ep_net_newlink`, of the mru of a controller. -/
def mhiEpNetNewlink (mru : U32) : UplinkState := ⟨mhiEpNetSetup, mru, ⟨0, 0, 0, 0, 0, 0, 0⟩⟩

/-- `struct mhi_result` -/
structure MhiResult where
  /-- The bytes behind `buf_addr`. -/
  bufAddr : Nat → BitVec 8
  bytesXferd : U64
  transactionStatus : Int

/-- `struct rtnl_link_stats64`, as far as the driver fills it. -/
structure RtnlLinkStats64 where
  rxPackets : U64
  rxBytes : U64
  rxErrors : U64
  txPackets : U64
  txBytes : U64
  txErrors : U64
  txDropped : U64
  deriving DecidableEq

/-- The steps of the receive side. -/
inductive UplinkCall : Type → Type where
  | readMru : UplinkCall U32
  /-- `READ_ONCE(ndev->mtu)` -/
  | readMtu : UplinkCall U32
  /-- `netdev_alloc_skb`: a buffer, or `NULL`. -/
  | netdevAllocSkb (size : U32) : UplinkCall (Option SkBuff)
  /-- `skb_copy_to_linear_data` -/
  | skbCopyToLinearData (skb : SkBuff) (source : Nat → BitVec 8) (len : U32) : UplinkCall SkBuff
  /-- `skb->tail` and `skb->len` grow in `skb_put`. -/
  | skbPutTail (skb : SkBuff) (len : U32) : UplinkCall SkBuff
  /-- `skb_over_panic`, which does not return. -/
  | skbOverPanic : UplinkCall Empty
  /-- `skb->data[0]` -/
  | readFirstByte (skb : SkBuff) : UplinkCall (BitVec 8)
  | devKfreeSkbAny (skb : SkBuff) : UplinkCall Unit
  | netifRx (skb : SkBuff) : UplinkCall Unit
  /-- `rx_packets` and `rx_bytes` grow. -/
  | statsReceived (len : U32) : UplinkCall Unit
  /-- `rx_errors` grows. -/
  | statsError : UplinkCall Unit
  /-- The statistics of the receive side, read under their sequence counter. -/
  | fetchRx : UplinkCall (U64 × U64 × U64)
  /-- The statistics of the transmit side, read under their sequence counter. -/
  | fetchTx : UplinkCall (U64 × U64 × U64 × U64)
  /-- `dev_set_mtu`: its return value. -/
  | devSetMtu (newMtu : Int) : UplinkCall Int

/-- A packet of a length has been received. -/
def MhiEpNetStats.received (stats : MhiEpNetStats) (len : U32) : MhiEpNetStats :=
  { stats with rxPackets := stats.rxPackets + 1, rxBytes := stats.rxBytes + len.setWidth 64 }

/-- A packet could not be received. -/
def MhiEpNetStats.failed (stats : MhiEpNetStats) : MhiEpNetStats :=
  { stats with rxErrors := stats.rxErrors + 1 }

/-- The mtu that `dev_set_mtu` sets: it keeps to the bounds of the device. -/
def NetDevice.setMtu (ndev : NetDevice) (newMtu : Int) : NetDevice × Int :=
  if newMtu < ndev.minMtu.toNat ∨ ndev.maxMtu.toNat < newMtu then (ndev, -EINVAL)
  else ({ ndev with mtu := BitVec.ofInt 32 newMtu }, 0)

/-- What the steps do. Which buffer `netdev_alloc_skb` returns, and whether it returns one, is
open. -/
def uplink : Semantics UplinkCall UplinkState where
  step := fun request s answer =>
    match request with
    | .readMru => if answer = s.mru then some s else none
    | .readMtu => if answer = s.ndev.mtu then some s else none
    | .netdevAllocSkb size =>
        match answer with
        | none => some s
        | some skb => if skb.Fresh size then some s else none
    | .skbCopyToLinearData skb source len =>
        if answer = skb.copied source len then some s else none
    | .skbPutTail skb len => if answer = skb.grown len then some s else none
    | .skbOverPanic => some s
    | .readFirstByte skb => if answer = skb.linear.headD 0 then some s else none
    | .devKfreeSkbAny _ | .netifRx _ => some s
    | .statsReceived len => some { s with stats := s.stats.received len }
    | .statsError => some { s with stats := s.stats.failed }
    | .fetchRx =>
        if answer = (s.stats.rxPackets, s.stats.rxBytes, s.stats.rxErrors) then some s else none
    | .fetchTx =>
        if answer = (s.stats.txPackets, s.stats.txBytes, s.stats.txErrors, s.stats.txDropped) then
          some s
        else none
    | .devSetMtu newMtu =>
        if answer = (s.ndev.setMtu newMtu).2 then
          some { s with ndev := (s.ndev.setMtu newMtu).1 }
        else none

/-- Programs of the receive side. -/
abbrev UplinkProg (α : Type) := Program UplinkCall α

/-! ## Functions -/

/-- `skb_put` -/
def skbPut (skb : SkBuff) (len : U32) : UplinkProg SkBuff := do
  let skb ← perform (.skbPutTail skb len)
  if skb.end < skb.tail then
    perform .skbOverPanic >>= Empty.elim
  else
    return skb

/-- The protocol of a packet, from its first byte. -/
def protocolOf (first : BitVec 8) : BitVec 16 :=
  if first &&& 0xf0 = 0x40 then htons ETH_P_IP
  else if first &&& 0xf0 = 0x60 then htons ETH_P_IPV6
  else htons ETH_P_MAP

/-- `mhi_ep_net_ul_callback`. The lengths that `skb_copy_to_linear_data` and `skb_put` take, and
`skb->len`, are 32 bits wide. -/
def mhiEpNetUlCallback (mhiRes : MhiResult) : UplinkProg Unit := do
  let mru ← perform .readMru
  let size ← if mru ≠ 0 then pure mru else perform .readMtu
  let some skb ← perform (.netdevAllocSkb size) | perform .statsError
  let skb ← perform (.skbCopyToLinearData skb mhiRes.bufAddr (mhiRes.bytesXferd.setWidth 32))
  let skb := { skb with len := mhiRes.bytesXferd.setWidth 32 }
  if mhiRes.transactionStatus ≠ 0 then
    if mhiRes.transactionStatus = -ENOTCONN then
      perform (.devKfreeSkbAny skb)
    else
      perform (.devKfreeSkbAny skb)
      perform .statsError
  else
    let skb ← skbPut skb (mhiRes.bytesXferd.setWidth 32)
    let first ← perform (.readFirstByte skb)
    let skb := { skb with protocol := protocolOf first }
    perform (.statsReceived skb.len)
    perform (.netifRx skb)

/-- `mhi_ndo_get_stats64` -/
def mhiNdoGetStats64 : UplinkProg RtnlLinkStats64 := do
  let (rxPackets, rxBytes, rxErrors) ← perform .fetchRx
  let (txPackets, txBytes, txErrors, txDropped) ← perform .fetchTx
  return ⟨rxPackets, rxBytes, rxErrors, txPackets, txBytes, txErrors, txDropped⟩

/-- What the receive side serves. -/
inductive UplinkRequest where
  | transfer (mhiRes : MhiResult)
  | setMtu (newMtu : Int)

/-- The program of a request. -/
def UplinkRequest.program : UplinkRequest → UplinkProg Unit
  | .transfer mhiRes => mhiEpNetUlCallback mhiRes
  | .setMtu newMtu => do
      let _ ← perform (.devSetMtu newMtu)
      return

/-- The size of the buffer of the next transfer. -/
def UplinkState.size (s : UplinkState) : U32 := if s.mru ≠ 0 then s.mru else s.ndev.mtu

/-! ## What a transfer does -/

/-- The reads that decide the size of the buffer. -/
def UplinkState.sizeReads (s : UplinkState) : List (Event UplinkCall) :=
  if s.mru ≠ 0 then [⟨.readMru, s.mru⟩] else [⟨.readMru, s.mru⟩, ⟨.readMtu, s.ndev.mtu⟩]

/-- The length of a transfer, as the functions on socket buffers take it. -/
def MhiResult.len (mhiRes : MhiResult) : U32 := mhiRes.bytesXferd.setWidth 32

/-- The buffer with the bytes of a transfer, and their number as its length. -/
def SkBuff.filled (skb : SkBuff) (mhiRes : MhiResult) : SkBuff :=
  { skb.copied mhiRes.bufAddr mhiRes.len with len := mhiRes.len }

/-- The buffer of a transfer that is delivered. -/
def SkBuff.delivered (skb : SkBuff) (mhiRes : MhiResult) : SkBuff :=
  { (skb.filled mhiRes).grown mhiRes.len with
    protocol := protocolOf ((skb.filled mhiRes).linear.headD 0) }

/-- The ways a transfer can go. -/
inductive Outcome (mhiRes : MhiResult) (s : UplinkState) : Post UplinkCall UplinkState Unit where
  | noMemory :
      Outcome mhiRes s (s.sizeReads ++ [⟨.netdevAllocSkb s.size, none⟩, ⟨.statsError, ()⟩]) (some ())
        { s with stats := s.stats.failed }
  | disconnected {skb : SkBuff} (hfresh : skb.Fresh s.size)
      (hstatus : mhiRes.transactionStatus = -ENOTCONN) :
      Outcome mhiRes s
        (s.sizeReads ++ [⟨.netdevAllocSkb s.size, some skb⟩,
          ⟨.skbCopyToLinearData skb mhiRes.bufAddr mhiRes.len, skb.copied mhiRes.bufAddr mhiRes.len⟩,
          ⟨.devKfreeSkbAny (skb.filled mhiRes), ()⟩])
        (some ()) s
  | failed {skb : SkBuff} (hfresh : skb.Fresh s.size) (hstatus : mhiRes.transactionStatus ≠ 0) :
      Outcome mhiRes s
        (s.sizeReads ++ [⟨.netdevAllocSkb s.size, some skb⟩,
          ⟨.skbCopyToLinearData skb mhiRes.bufAddr mhiRes.len, skb.copied mhiRes.bufAddr mhiRes.len⟩,
          ⟨.devKfreeSkbAny (skb.filled mhiRes), ()⟩, ⟨.statsError, ()⟩])
        (some ()) { s with stats := s.stats.failed }
  | overrun {skb : SkBuff} (hfresh : skb.Fresh s.size) (hstatus : mhiRes.transactionStatus = 0)
      (hover : skb.end < skb.tail + mhiRes.len) :
      Outcome mhiRes s
        (s.sizeReads ++ [⟨.netdevAllocSkb s.size, some skb⟩,
          ⟨.skbCopyToLinearData skb mhiRes.bufAddr mhiRes.len, skb.copied mhiRes.bufAddr mhiRes.len⟩,
          ⟨.skbPutTail (skb.filled mhiRes) mhiRes.len, (skb.filled mhiRes).grown mhiRes.len⟩])
        none s
  | delivered {skb : SkBuff} (hfresh : skb.Fresh s.size) (hstatus : mhiRes.transactionStatus = 0) :
      Outcome mhiRes s
        (s.sizeReads ++ [⟨.netdevAllocSkb s.size, some skb⟩,
          ⟨.skbCopyToLinearData skb mhiRes.bufAddr mhiRes.len, skb.copied mhiRes.bufAddr mhiRes.len⟩,
          ⟨.skbPutTail (skb.filled mhiRes) mhiRes.len, (skb.filled mhiRes).grown mhiRes.len⟩,
          ⟨.readFirstByte ((skb.filled mhiRes).grown mhiRes.len), (skb.filled mhiRes).linear.headD 0⟩,
          ⟨.statsReceived (mhiRes.len + mhiRes.len), ()⟩,
          ⟨.netifRx (skb.delivered mhiRes), ()⟩])
        (some ()) { s with stats := s.stats.received (mhiRes.len + mhiRes.len) }

/-- The callback, once it knows the size of the buffer. -/
def receiveInto (mhiRes : MhiResult) (size : U32) : UplinkProg Unit := do
  let some skb ← perform (.netdevAllocSkb size) | perform .statsError
  let skb ← perform (.skbCopyToLinearData skb mhiRes.bufAddr mhiRes.len)
  let skb := { skb with len := mhiRes.len }
  if mhiRes.transactionStatus ≠ 0 then
    if mhiRes.transactionStatus = -ENOTCONN then
      perform (.devKfreeSkbAny skb)
    else
      perform (.devKfreeSkbAny skb)
      perform .statsError
  else
    let skb ← skbPut skb mhiRes.len
    let first ← perform (.readFirstByte skb)
    let skb := { skb with protocol := protocolOf first }
    perform (.statsReceived skb.len)
    perform (.netifRx skb)

theorem mhiEpNetUlCallback_eq {mhiRes : MhiResult} :
    mhiEpNetUlCallback mhiRes = (do
      let mru ← perform .readMru
      let size ← if mru ≠ 0 then pure mru else perform .readMtu
      receiveInto mhiRes size) := rfl

variable {mhiRes : MhiResult} {s : UplinkState}

/-- The callback reads the size of its buffer first. -/
theorem wp_sizeReads {Q : Post UplinkCall UplinkState Unit}
    (h : wp uplink .any (receiveInto mhiRes s.size) (Q.after s.sizeReads) s) :
    wp uplink .any (mhiEpNetUlCallback mhiRes) Q s := by
  rw [mhiEpNetUlCallback_eq]
  refine wp_told (fun _ => rfl) ?_
  unfold UplinkState.size UplinkState.sizeReads at h
  split
  · rename_i hmru
    rw [if_pos hmru, if_pos hmru] at h
    exact h
  · rename_i hmru
    rw [if_neg hmru, if_neg hmru] at h
    exact wp_told (fun _ => rfl) h

/-- `skb_put` does not return when the tail has passed the end. -/
theorem wp_skbPut {skb : SkBuff} {len : U32} {rest : SkBuff → UplinkProg Unit}
    {Q : Post UplinkCall UplinkState Unit}
    (hover : skb.end < skb.tail + len → Q [⟨.skbPutTail skb len, skb.grown len⟩] none s)
    (hnext : wp uplink .any (rest (skb.grown len))
      (Q.after [⟨.skbPutTail skb len, skb.grown len⟩]) s) :
    wp uplink .any (skbPut skb len >>= rest) Q s := by
  show wp uplink .any (perform (.skbPutTail skb len) >>= fun skb =>
    (if skb.end < skb.tail then perform .skbOverPanic >>= Empty.elim else pure skb) >>= rest) Q s
  refine wp_told (fun _ => rfl) ?_
  split
  · rename_i hend
    exact wp_call.mpr ⟨trivial, fun _ => hover hend, fun answer => answer.elim⟩
  · exact hnext

/-- Every transfer goes one of the ways listed. -/
theorem mhiEpNetUlCallback_outcome :
    wp uplink .any (mhiEpNetUlCallback mhiRes) (Outcome mhiRes s) s := by
  refine wp_sizeReads (wp_step fun answer s₁ halloc => ?_)
  cases answer with
  | none =>
      obtain rfl := Option.some.inj halloc
      exact wp_done_last rfl .noMemory
  | some skb =>
      obtain ⟨hfresh, hs⟩ := Option.ite_none_right_eq_some.mp halloc
      obtain rfl := Option.some.inj hs
      refine wp_told (fun _ => rfl) ?_
      by_cases hstatus : mhiRes.transactionStatus = 0
      · show wp uplink .any (if mhiRes.transactionStatus ≠ 0 then _ else _) _ s
        rw [if_neg (not_not.mpr hstatus)]
        refine wp_skbPut (fun hover => .overrun hfresh hstatus hover) ?_
        exact wp_told (fun _ => rfl) (wp_done rfl (wp_done_last rfl (.delivered hfresh hstatus)))
      · show wp uplink .any (if mhiRes.transactionStatus ≠ 0 then _ else _) _ s
        rw [if_pos hstatus]
        split
        · exact wp_done_last rfl (.disconnected hfresh ‹_›)
        · exact wp_done rfl (wp_done_last rfl (.failed hfresh hstatus))

end SafeLinux.MhiEpNet
