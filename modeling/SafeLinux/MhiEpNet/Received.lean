import SafeLinux.MhiEpNet.Uplink

/-!
# The length of a received packet

The callback sets `skb->len` to the length of the transfer and then calls `skb_put`, which adds that
length once more. So every packet it delivers is twice as long as its transfer, while its tail is
where it should be, and `rx_bytes` counts it twice (`Doubled`). A run in which the packets and the
statistics are exact is one that delivers nothing.
-/

namespace SafeLinux.MhiEpNet

open Effects

/-- The call allocates a socket buffer. -/
def gotSkb : Event UplinkCall → Bool
  | ⟨.netdevAllocSkb _, some _⟩ => true
  | _ => false

/-- The socket buffer that a call gives to the network stack. -/
def givenSkb : Event UplinkCall → Option SkBuff
  | ⟨.netifRx skb, _⟩ => some skb
  | _ => none

/-- The transfer has status 0 and a socket buffer was allocated for it. -/
def succeeds (mhiRes : MhiResult) (trace : List (Event UplinkCall)) : Bool :=
  mhiRes.transactionStatus = 0 && trace.any gotSkb

/-- The socket buffer is as long as the transfer and has its bytes. -/
def SkBuff.Holds (skb : SkBuff) (mhiRes : MhiResult) : Prop :=
  skb.len.toNat = mhiRes.bytesXferd.toNat ∧
    skb.linear.take skb.len.toNat = (List.range mhiRes.bytesXferd.toNat).map mhiRes.bufAddr

/-- A transfer that succeeds is delivered once, with its length and its bytes, and any other is not
delivered. -/
def DeliversExactly (mhiRes : MhiResult) (trace : List (Event UplinkCall)) : Prop :=
  if succeeds mhiRes trace then
    ∃ skb, trace.filterMap givenSkb = [skb] ∧ skb.Holds mhiRes
  else trace.filterMap givenSkb = []

/-- A transfer that succeeds. -/
def succeededTransfer : UplinkRequest × List (Event UplinkCall) → Option MhiResult
  | (.transfer mhiRes, trace) => if succeeds mhiRes trace then some mhiRes else none
  | (.setMtu _, _) => none

/-- The transfers that succeed. -/
def succeeded (history : History UplinkRequest UplinkCall) : List MhiResult :=
  history.filterMap succeededTransfer

/-- Every transfer is delivered exactly, and `mhi_ndo_get_stats64` reports the number and the bytes
of those that succeed. -/
structure ReceivesExactly (history : History UplinkRequest UplinkCall) (s : UplinkState) : Prop where
  transfers : ∀ mhiRes trace, (.transfer mhiRes, trace) ∈ history → DeliversExactly mhiRes trace
  stats : ∀ trace stats s', Exec uplink mhiNdoGetStats64 s trace (some stats) s' →
    stats.rxPackets = BitVec.ofNat 64 (succeeded history).length ∧
      stats.rxBytes =
        BitVec.ofNat 64 ((succeeded history).map fun mhiRes => mhiRes.bytesXferd.toNat).sum

/-- The condition of a run whose transfers have at least one byte and at most as many as their
buffer was allocated for. -/
def FitsBuffer : Admission UplinkRequest UplinkCall UplinkState := fun _ request s _ =>
  match request with
  | .transfer mhiRes =>
      1 ≤ mhiRes.bytesXferd.toNat ∧ mhiRes.bytesXferd.toNat ≤ s.size.toNat
  | .setMtu _ => True

/-! ## What the code does -/

/-- The length that a transfer's packet gets. -/
def MhiResult.doubleLen (mhiRes : MhiResult) : U32 := mhiRes.len + mhiRes.len

/-- A transfer that succeeds is delivered once, with twice its length. -/
def DeliversDoubled (mhiRes : MhiResult) (trace : List (Event UplinkCall)) : Prop :=
  if succeeds mhiRes trace then
    ∃ skb, trace.filterMap givenSkb = [skb] ∧ skb.len = mhiRes.doubleLen
  else trace.filterMap givenSkb = []

/-- Every transfer that succeeds is delivered and counted with twice its length. -/
structure Doubled (history : History UplinkRequest UplinkCall) (s : UplinkState) : Prop where
  transfers : ∀ mhiRes trace, (.transfer mhiRes, trace) ∈ history →
    DeliversDoubled mhiRes trace ∧ 1 ≤ mhiRes.bytesXferd.toNat ∧ mhiRes.bytesXferd.toNat < 2 ^ 32
  packets : s.stats.rxPackets = BitVec.ofNat 64 (succeeded history).length
  bytes : s.stats.rxBytes =
    BitVec.ofNat 64 ((succeeded history).map fun mhiRes => mhiRes.doubleLen.toNat).sum

variable {mhiRes : MhiResult} {s s' : UplinkState} {trace : List (Event UplinkCall)}
  {result : Option Unit} {history : History UplinkRequest UplinkCall}

@[simp] theorem any_gotSkb_sizeReads : s.sizeReads.any gotSkb = false := by
  unfold UplinkState.sizeReads
  split <;> rfl

@[simp] theorem filterMap_givenSkb_sizeReads : s.sizeReads.filterMap givenSkb = [] := by
  unfold UplinkState.sizeReads
  split <;> rfl

/-- A transfer within its buffer either succeeds, and is delivered and counted with twice its length,
or is neither delivered nor counted. -/
theorem Outcome.delivers (h : Outcome mhiRes s trace result s')
    (hfits : mhiRes.bytesXferd.toNat ≤ s.size.toNat) :
    succeeds mhiRes trace = true ∧
        (∃ skb, trace.filterMap givenSkb = [skb] ∧ skb.len = mhiRes.doubleLen) ∧
        s'.stats = s.stats.received mhiRes.doubleLen ∨
      succeeds mhiRes trace = false ∧ trace.filterMap givenSkb = [] ∧
        s'.stats.rxPackets = s.stats.rxPackets ∧ s'.stats.rxBytes = s.stats.rxBytes := by
  cases h with
  | noMemory =>
      refine .inr ⟨?_, by simp [givenSkb], rfl, rfl⟩
      simp [succeeds, gotSkb]
  | disconnected hfresh hstatus =>
      refine .inr ⟨?_, by simp [givenSkb], rfl, rfl⟩
      simp [succeeds, hstatus, ENOTCONN]
  | failed hfresh hstatus =>
      refine .inr ⟨?_, by simp [givenSkb], rfl, rfl⟩
      simp [succeeds, hstatus]
  | @overrun skb hfresh hstatus hover =>
      -- The transfer fits, so the tail does not pass the end.
      obtain ⟨_, _, htail, hroom, _⟩ := hfresh
      have hsize := s.size.isLt
      have hend := skb.end.isLt
      have hlen : mhiRes.len.toNat = mhiRes.bytesXferd.toNat := by
        rw [MhiResult.len, BitVec.toNat_setWidth]
        omega
      rw [BitVec.lt_def, BitVec.toNat_add, htail] at hover
      omega
  | @delivered skb hfresh hstatus =>
      refine .inl ⟨?_, ⟨skb.delivered mhiRes, ?_, rfl⟩, rfl⟩
      · simp [succeeds, hstatus, gotSkb]
      · rw [List.filterMap_append, filterMap_givenSkb_sizeReads]
        rfl

theorem doubled_newlink (mru : U32) : Doubled [] (mhiEpNetNewlink mru) :=
  ⟨nofun, rfl, rfl⟩

/-- A transfer keeps the account of the packets delivered. -/
theorem Doubled.transfer (h : Doubled history s) (hout : Outcome mhiRes s trace result s')
    (hfits : 1 ≤ mhiRes.bytesXferd.toNat ∧ mhiRes.bytesXferd.toNat ≤ s.size.toNat) :
    Doubled ((.transfer mhiRes, trace) :: history) s' := by
  have hsize := s.size.isLt
  have htransfers : DeliversDoubled mhiRes trace → ∀ other trace',
      (.transfer other, trace') ∈ (.transfer mhiRes, trace) :: history →
        DeliversDoubled other trace' ∧ 1 ≤ other.bytesXferd.toNat ∧
          other.bytesXferd.toNat < 2 ^ 32 := by
    intro hdelivers other trace' hmem
    obtain heq | hmem := List.mem_cons.mp hmem
    · cases heq
      exact ⟨hdelivers, by omega, by omega⟩
    · exact h.transfers other trace' hmem
  obtain ⟨hsucceeds, hskb, hstats⟩ | ⟨hfails, hnone, hpackets, hbytes⟩ := hout.delivers hfits.2
  · have hlist : succeeded ((.transfer mhiRes, trace) :: history) = mhiRes :: succeeded history :=
      List.filterMap_cons_some (if_pos hsucceeds)
    refine ⟨htransfers ?_, ?_, ?_⟩
    · unfold DeliversDoubled
      rw [if_pos hsucceeds]
      exact hskb
    · rw [hlist, hstats, List.length_cons]
      show s.stats.rxPackets + 1 = _
      rw [h.packets, ofNat_succ]
    · rw [hlist, hstats, List.map_cons, List.sum_cons]
      show s.stats.rxBytes + mhiRes.doubleLen.setWidth 64 = _
      rw [h.bytes, Nat.add_comm, BitVec.ofNat_add, BitVec.ofNat_toNat]
  · have hlist : succeeded ((.transfer mhiRes, trace) :: history) = succeeded history :=
      List.filterMap_cons_none (if_neg (by simp [hfails]))
    refine ⟨htransfers ?_, ?_, ?_⟩
    · unfold DeliversDoubled
      rw [if_neg (by simp [hfails])]
      exact hnone
    · rw [hlist, hpackets, h.packets]
    · rw [hlist, hbytes, h.bytes]

/-- In every run whose transfers fit, each transfer that succeeds is delivered and counted with
twice its length. -/
theorem doubled_run {mru : U32}
    (h : Run uplink UplinkRequest.program FitsBuffer (mhiEpNetNewlink mru) history s) :
    Doubled history s := by
  refine h.invariant _ (doubled_newlink mru) ?_
  intro history request s hs
  cases request with
  | transfer mhiRes =>
      refine wp_mono mhiEpNetUlCallback_outcome ?_
      intro trace result s' hout hfits
      exact hs.transfer hout hfits
  | setMtu newMtu =>
      refine wp_step fun answer s' hstep => wp_pure.mpr fun _ => ?_
      obtain ⟨_, hs'⟩ := Option.ite_none_right_eq_some.mp hstep
      obtain rfl := Option.some.inj hs'
      refine ⟨?_, hs.packets, hs.bytes⟩
      intro mhiRes trace hmem
      obtain heq | hmem := List.mem_cons.mp hmem
      · cases heq
      · exact hs.transfers mhiRes trace hmem

/-! ## When the packets are exact -/

/-- `mhi_ndo_get_stats64` reports the statistics. -/
theorem mhiNdoGetStats64_stats {stats : RtnlLinkStats64}
    (h : Exec uplink mhiNdoGetStats64 s trace (some stats) s') :
    stats.rxPackets = s.stats.rxPackets ∧ stats.rxBytes = s.stats.rxBytes := by
  have hwp : wp uplink .any mhiNdoGetStats64 (fun _ result _ => ∀ stats, result = some stats →
      stats.rxPackets = s.stats.rxPackets ∧ stats.rxBytes = s.stats.rxBytes) s := by
    refine wp_told (fun _ => rfl) (wp_told (fun _ => rfl) (wp_pure.mpr ?_))
    intro stats heq
    obtain rfl := Option.some.inj heq
    exact ⟨rfl, rfl⟩
  exact wp_exec hwp h stats rfl

/-- A packet twice as long as its transfer does not have the transfer's length. -/
theorem not_holds_doubled {skb : SkBuff} (hlen : skb.len = mhiRes.doubleLen)
    (hpos : 1 ≤ mhiRes.bytesXferd.toNat) (hlt : mhiRes.bytesXferd.toNat < 2 ^ 32) :
    ¬ skb.Holds mhiRes := by
  rintro ⟨hexact, -⟩
  rw [hlen, MhiResult.doubleLen, MhiResult.len, BitVec.toNat_add, BitVec.toNat_setWidth] at hexact
  omega

/-- A transfer that succeeds is not delivered exactly. -/
theorem Doubled.not_exact (h : Doubled history s) (hmem : (.transfer mhiRes, trace) ∈ history)
    (hsucceeds : succeeds mhiRes trace = true) : ¬ ReceivesExactly history s := by
  intro hexact
  obtain ⟨hdelivers, hpos, hlt⟩ := h.transfers mhiRes trace hmem
  have hexactly := hexact.transfers mhiRes trace hmem
  unfold DeliversDoubled at hdelivers
  unfold DeliversExactly at hexactly
  rw [if_pos hsucceeds] at hdelivers hexactly
  obtain ⟨skb, hskb, hlen⟩ := hdelivers
  obtain ⟨skb', hskb', hholds⟩ := hexactly
  obtain rfl : skb = skb' := by
    rw [hskb] at hskb'
    exact List.head_eq_of_cons_eq hskb'
  exact not_holds_doubled hlen hpos hlt hholds

/-- A run whose transfers fit is exact if and only if none of its transfers succeeds. -/
theorem receivesExactly_iff {mru : U32}
    (h : Run uplink UplinkRequest.program FitsBuffer (mhiEpNetNewlink mru) history s) :
    ReceivesExactly history s ↔ ∀ mhiRes trace, (.transfer mhiRes, trace) ∈ history →
      mhiRes.transactionStatus ≠ 0 ∨ trace.any gotSkb = false := by
  have hdoubled := doubled_run h
  constructor
  · intro hexact mhiRes trace hmem
    by_contra hboth
    obtain ⟨hstatus, hgot⟩ := not_or.mp hboth
    refine hdoubled.not_exact hmem ?_ hexact
    simp only [succeeds, Bool.and_eq_true, decide_eq_true_eq]
    exact ⟨not_not.mp hstatus, eq_true_of_ne_false hgot⟩
  · intro hnone
    have hfails : ∀ mhiRes trace, (.transfer mhiRes, trace) ∈ history →
        succeeds mhiRes trace = false := by
      intro mhiRes trace hmem
      obtain hstatus | hgot := hnone mhiRes trace hmem
      · simp [succeeds, hstatus]
      · simp [succeeds, hgot]
    have hempty : succeeded history = [] := by
      refine List.filterMap_eq_nil_iff.mpr ?_
      rintro ⟨request, trace⟩ hmem
      cases request with
      | transfer mhiRes => exact if_neg (by simp [hfails mhiRes trace hmem])
      | setMtu newMtu => rfl
    constructor
    · intro mhiRes trace hmem
      have hdelivers := (hdoubled.transfers mhiRes trace hmem).1
      unfold DeliversDoubled at hdelivers
      unfold DeliversExactly
      rw [if_neg (by simp [hfails mhiRes trace hmem])] at hdelivers ⊢
      exact hdelivers
    · intro trace stats s' hexec
      obtain ⟨hpackets, hbytes⟩ := mhiNdoGetStats64_stats hexec
      rw [hpackets, hbytes, hdoubled.packets, hdoubled.bytes, hempty]
      exact ⟨rfl, rfl⟩

/-! ## Examples of runs -/

/-- Every transfer gets a buffer with just the room it asks for. -/
def exactRoom : Chooser UplinkCall UplinkState := fun _ request s =>
  match request with
  | .readMru => some s.mru
  | .readMtu => some s.ndev.mtu
  | .netdevAllocSkb size => some (some ⟨size, 0, 0, 0, size, .replicate size.toNat 0, 0⟩)
  | .skbCopyToLinearData skb source len => some (skb.copied source len)
  | .skbPutTail skb len => some (skb.grown len)
  | .skbOverPanic => none
  | .readFirstByte skb => some (skb.linear.headD 0)
  | .devKfreeSkbAny _ | .netifRx _ | .statsReceived _ | .statsError => some ()
  | .fetchRx => some (s.stats.rxPackets, s.stats.rxBytes, s.stats.rxErrors)
  | .fetchTx => some (s.stats.txPackets, s.stats.txBytes, s.stats.txErrors, s.stats.txDropped)
  | .devSetMtu newMtu => some (s.ndev.setMtu newMtu).2

/-- Three bytes arrive, the first one that of an IPv4 header. -/
def threeBytes : MhiResult := ⟨fun _ => 0x45, 3, 0⟩

/-- A transfer of three bytes is received. -/
theorem threeBytes_run : ∃ history s,
    Run uplink UplinkRequest.program FitsBuffer (mhiEpNetNewlink 4) history s ∧
      ∃ trace, history = [(.transfer threeBytes, trace)] ∧ trace.any gotSkb = true := by
  have hcheck : (UplinkRequest.program (.transfer threeBytes)).check uplink exactRoom
      (mhiEpNetNewlink 4) (fun trace _ _ => trace.any gotSkb) = true := by
    decide
  obtain ⟨trace, _, s, hexec, hgot⟩ := Program.check_exec hcheck
  exact ⟨_, s, .request .start hexec ⟨by decide, by decide⟩, trace, rfl, hgot⟩

/-- The run in which three bytes arrive is not exact. -/
theorem receivesExactly_iff_threeBytes : ∃ history s,
    Run uplink UplinkRequest.program FitsBuffer (mhiEpNetNewlink 4) history s ∧
      ¬ ReceivesExactly history s := by
  obtain ⟨history, s, hrun, trace, hhistory, hgot⟩ := threeBytes_run
  refine ⟨history, s, hrun, fun hexact => ?_⟩
  have hmem : (.transfer threeBytes, trace) ∈ history := by
    rw [hhistory]
    exact List.mem_singleton_self _
  obtain hstatus | hnone := (receivesExactly_iff hrun).mp hexact threeBytes trace hmem
  · exact hstatus rfl
  · rw [hgot] at hnone
    cases hnone

/-- Not every run whose transfers fit is exact. -/
theorem not_receivesExactly : ¬ ∀ (mru : U32) (history : History UplinkRequest UplinkCall)
    (s : UplinkState), Run uplink UplinkRequest.program FitsBuffer (mhiEpNetNewlink mru) history s →
      ReceivesExactly history s := by
  intro h
  obtain ⟨history, s, hrun, trace, hhistory, hgot⟩ := threeBytes_run
  have hmem : (.transfer threeBytes, trace) ∈ history := by
    rw [hhistory]
    exact List.mem_singleton_self _
  refine (doubled_run hrun).not_exact hmem ?_ (h 4 history s hrun)
  rw [succeeds, hgot]
  rfl

end SafeLinux.MhiEpNet
