import SafeLinux.MhiEpNet.Received

/-!
# The room for an uplink transfer

The buffer of a transfer is as large as the mru of the controller, or the mtu where there is none;
the host chooses the length that is copied into it. No check relates the two, and none asks for a
byte before the first one is read. `Outcome.within_iff` says for each way a transfer can go which
transfers stay within their buffer; `within_run_iff` that a run is safe if and only if all its
transfers are of this kind.
-/

namespace SafeLinux.MhiEpNet

open Effects

/-- The call keeps to the buffer: at most the allocated size is copied, the tail does not pass the
end, and the first byte is read only if the transfer has one. -/
def Within (mhiRes : MhiResult) : Event UplinkCall → Prop
  | ⟨.skbCopyToLinearData skb _ len, _⟩ => len.toNat ≤ skb.size.toNat
  | ⟨.skbPutTail skb len, _⟩ => skb.tail.toNat + len.toNat ≤ skb.end.toNat
  | ⟨.readFirstByte _, _⟩ => mhiRes.bytesXferd ≠ 0
  | _ => True

/-- Every call of every transfer keeps to its buffer. -/
def AllWithin (history : History UplinkRequest UplinkCall) : Prop :=
  ∀ mhiRes trace, (.transfer mhiRes, trace) ∈ history → ∀ e ∈ trace, Within mhiRes e

/-- The transfer has room in a buffer of a size, and a first byte where that is read. -/
def MhiResult.FitsIn (mhiRes : MhiResult) (size : U32) : Prop :=
  mhiRes.len.toNat ≤ size.toNat ∧ (mhiRes.transactionStatus = 0 → mhiRes.bytesXferd ≠ 0)

/-- The condition of a run in which every transfer that gets a buffer fits in it. -/
def FitsWhenAllocated : Admission UplinkRequest UplinkCall UplinkState := fun _ request s trace =>
  match request with
  | .transfer mhiRes => trace.any gotSkb = true → mhiRes.FitsIn s.size
  | .setMtu _ => True

variable {mhiRes : MhiResult} {s s' : UplinkState} {trace : List (Event UplinkCall)}
  {result : Option Unit} {history : History UplinkRequest UplinkCall}

/-- Reading the size of the buffer keeps to it. -/
theorem within_sizeReads {rest : List (Event UplinkCall)} :
    (∀ e ∈ s.sizeReads ++ rest, Within mhiRes e) ↔ ∀ e ∈ rest, Within mhiRes e := by
  rw [List.forall_mem_append]
  refine and_iff_right ?_
  unfold UplinkState.sizeReads
  split <;> simp [Within]

/-- A transfer no longer than the size of a fresh buffer ends before the end of that buffer. -/
theorem SkBuff.Fresh.room {skb : SkBuff} {size len : U32} (h : skb.Fresh size)
    (hlen : len.toNat ≤ size.toNat) : skb.tail.toNat + len.toNat ≤ skb.end.toNat := by
  obtain ⟨_, _, htail, hroom, _⟩ := h
  rw [htail]
  omega

/-- A transfer keeps to its buffer if and only if it fits, or has none. -/
theorem Outcome.within_iff (h : Outcome mhiRes s trace result s') :
    (∀ e ∈ trace, Within mhiRes e) ↔ (trace.any gotSkb = true → mhiRes.FitsIn s.size) := by
  cases h with
  | noMemory =>
      rw [within_sizeReads]
      simp [Within, gotSkb]
  | disconnected hfresh hstatus =>
      rw [within_sizeReads]
      simp [Within, gotSkb, MhiResult.FitsIn, hfresh.1, hstatus, ENOTCONN]
  | failed hfresh hstatus =>
      rw [within_sizeReads]
      simp [Within, gotSkb, MhiResult.FitsIn, hfresh.1, hstatus]
  | overrun hfresh hstatus hover =>
      -- The tail passes the end, so the transfer is longer than the allocated size.
      have hlong : ¬ mhiRes.len.toNat ≤ s.size.toNat := by
        intro hlen
        have hroom := hfresh.room hlen
        rw [BitVec.lt_def, BitVec.toNat_add] at hover
        omega
      rw [within_sizeReads]
      simp [Within, gotSkb, MhiResult.FitsIn, hfresh.1, hstatus, hlong]
  | @delivered skb hfresh hstatus =>
      have hroom : mhiRes.len.toNat ≤ s.size.toNat →
          (skb.filled mhiRes).tail.toNat + mhiRes.len.toNat ≤ (skb.filled mhiRes).end.toNat :=
        fun hlen => hfresh.room hlen
      rw [within_sizeReads]
      simp [Within, gotSkb, MhiResult.FitsIn, hfresh.1, hstatus]
      exact fun hlen _ => hroom hlen

/-- Setting the mtu starts no transfer. -/
theorem allWithin_cons_setMtu {newMtu : Int} :
    AllWithin ((.setMtu newMtu, trace) :: history) ↔ AllWithin history := by
  constructor
  · intro h mhiRes trace' hmem
    exact h mhiRes trace' (List.mem_cons_of_mem _ hmem)
  · intro h mhiRes trace' hmem
    obtain heq | hmem := List.mem_cons.mp hmem
    · cases heq
    · exact h mhiRes trace' hmem

theorem allWithin_cons_transfer :
    AllWithin ((.transfer mhiRes, trace) :: history) ↔
      (∀ e ∈ trace, Within mhiRes e) ∧ AllWithin history := by
  constructor
  · intro h
    exact ⟨h mhiRes trace List.mem_cons_self, fun mhiRes' trace' hmem =>
      h mhiRes' trace' (List.mem_cons_of_mem _ hmem)⟩
  · rintro ⟨hfirst, hrest⟩ mhiRes' trace' hmem
    obtain heq | hmem := List.mem_cons.mp hmem
    · cases heq
      exact hfirst
    · exact hrest mhiRes' trace' hmem

/-- Whatever the mru, the mtus set and the transfers: every call of a run keeps to its buffer if and
only if every transfer that gets a buffer fits in it. -/
theorem within_run_iff {mru : U32}
    (h : Run uplink UplinkRequest.program .any (mhiEpNetNewlink mru) history s) :
    AllWithin history ↔
      Run uplink UplinkRequest.program FitsWhenAllocated (mhiEpNetNewlink mru) history s := by
  constructor
  · intro hwithin
    induction h with
    | start => exact .start
    | @request history s s' request trace result hrun hexec _ ih =>
        cases request with
        | transfer mhiRes =>
            obtain ⟨hfirst, hrest⟩ := allWithin_cons_transfer.mp hwithin
            have hout := wp_exec mhiEpNetUlCallback_outcome hexec
            exact .request (ih hrest) hexec (hout.within_iff.mp hfirst)
        | setMtu newMtu =>
            exact .request (ih (allWithin_cons_setMtu.mp hwithin)) hexec trivial
  · intro hfits
    refine hfits.invariant (fun history _ => AllWithin history) (fun _ _ hmem => nomatch hmem) ?_
    intro history request s hs
    cases request with
    | transfer mhiRes =>
        refine wp_mono mhiEpNetUlCallback_outcome ?_
        intro trace result s' hout hok
        exact allWithin_cons_transfer.mpr ⟨hout.within_iff.mpr hok, hs⟩
    | setMtu newMtu => exact wp_always fun _ _ _ _ => allWithin_cons_setMtu.mpr hs

/-! ## Examples of runs -/

/-- The call copies more into a buffer than was allocated for it. -/
def overruns : Event UplinkCall → Bool
  | ⟨.skbCopyToLinearData skb _ len, _⟩ => skb.size < len
  | _ => false

/-- A transfer of 69 bytes. -/
def longTransfer : MhiResult := ⟨fun _ => 0x45, 69, 0⟩

theorem exactRoom_stops (β : Type) (request : UplinkCall β) (s : UplinkState)
    (h : exactRoom β request s = none) : IsEmpty β := by
  cases request with
  | skbOverPanic => infer_instance
  | readMru | readMtu | netdevAllocSkb size | skbCopyToLinearData skb source len
  | skbPutTail skb len | readFirstByte skb | devKfreeSkbAny skb | netifRx skb | statsReceived len
  | statsError | fetchRx | fetchTx | devSetMtu newMtu => cases h

/-- On a controller without an mru the mtu is set to 68, and 69 bytes arrive. -/
theorem longTransfer_run : ∃ history s trace,
    Run uplink UplinkRequest.program .any (mhiEpNetNewlink 0)
      ((.transfer longTransfer, trace) :: history) s ∧ trace.any overruns = true := by
  have hcheck : (UplinkRequest.program (.setMtu 68)).check uplink exactRoom (mhiEpNetNewlink 0)
      (fun _ _ s => s = ⟨⟨68, MHI_NET_MIN_MTU, MHI_NET_MAX_MTU⟩, 0, (mhiEpNetNewlink 0).stats⟩) =
        true := by
    decide
  obtain ⟨before, _, s, hmtu, hset⟩ := Program.check_exec hcheck
  have hhalts : (UplinkRequest.program (.transfer longTransfer)).haltsAt uplink exactRoom s
      (fun trace _ => trace.any overruns) = true := by
    rw [of_decide_eq_true hset]
    decide +kernel
  obtain ⟨trace, s', hexec, hover⟩ := Program.haltsAt_exec exactRoom_stops hhalts
  exact ⟨_, s', trace, .request (.request .start hmtu trivial) hexec trivial, hover⟩

/-- In that run a call does not keep to its buffer. -/
theorem within_run_iff_longTransfer : ∃ history s,
    Run uplink UplinkRequest.program .any (mhiEpNetNewlink 0) history s ∧
      (AllWithin history ↔
        Run uplink UplinkRequest.program FitsWhenAllocated (mhiEpNetNewlink 0) history s) := by
  obtain ⟨history, s, trace, hrun, _⟩ := longTransfer_run
  exact ⟨_, s, hrun, within_run_iff hrun⟩

/-- A transfer can be longer than its buffer. -/
theorem not_allWithin : ¬ ∀ (mru : U32) (history : History UplinkRequest UplinkCall)
    (s : UplinkState), Run uplink UplinkRequest.program .any (mhiEpNetNewlink mru) history s →
      AllWithin history := by
  intro h
  obtain ⟨history, s, trace, hrun, hover⟩ := longTransfer_run
  obtain ⟨e, he, hcopied⟩ := List.any_eq_true.mp hover
  have hwithin := h 0 _ s hrun longTransfer trace List.mem_cons_self e he
  obtain ⟨call, answer⟩ := e
  cases call with
  | skbCopyToLinearData skb source len =>
      have hlong : skb.size < len := of_decide_eq_true hcopied
      have hshort : len.toNat ≤ skb.size.toNat := hwithin
      rw [BitVec.lt_def] at hlong
      omega
  | readMru | readMtu | netdevAllocSkb size | skbPutTail skb len | skbOverPanic
  | readFirstByte skb | devKfreeSkbAny skb | netifRx skb | statsReceived len
  | statsError | fetchRx | fetchTx | devSetMtu newMtu => cases hcopied

end SafeLinux.MhiEpNet
