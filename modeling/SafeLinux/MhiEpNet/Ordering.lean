import SafeLinux.MhiEpNet.Conservation

/-!
# Packets are handed over in order

The packets that MHI takes are some of those accepted, in the order in which they were accepted, and
`tx_packets` and `tx_bytes` count them. `Queued` is what carries this through the two queues: the
accepted packets are those the work is done with, then its local queue, then `tx_buffers`. A run of
the work may end early and leave packets of its local queue behind; they then count as done with.
-/

namespace SafeLinux.MhiEpNet

open Effects
open Effects.Program (perform safe_pure safe_then)

/-- `tx_packets` and `tx_bytes` count some packets. -/
structure Tallied (packets : List Packet) (books : Books) : Prop where
  counted : books.txPackets = BitVec.ofNat 64 packets.length
  bytes : books.txBytes = BitVec.ofNat 64 (packets.map fun skb => skb.len.toNat).sum

/-- The packets handed over are some of the accepted ones, in their order and each once. The
statistics count all of them, or all but the latest. -/
structure Recorded (s : State) : Prop where
  inOrder : s.books.handed.reverse.Sublist s.accepted
  once : s.books.handed.Nodup
  tallied : Tallied s.books.handed s.books ∨ Tallied s.books.handed.tail s.books

/-- The packets handed over are recorded, and once the work does not run, the statistics count all
of them. -/
structure HandedInOrder (P : NetPool) : Prop where
  recorded : Recorded P.shared
  tallied : P.running .work = none → Tallied P.shared.books.handed P.shared.books

/-- What the work finds between two of its steps: it is done with the packets `gone`, among them all
those handed over, and has `q` left to send. -/
structure Queued (gone : List Packet) (books : Books) (q : List Packet) (s : State) : Prop where
  numbered : s.Numbered
  accepted : s.accepted = gone ++ q ++ s.txBuffers
  handed : books.handed.reverse.Sublist gone
  books : s.books = books

/-- What the work is between two runs. -/
def Caught (s : State) : Prop :=
  ∃ gone books, Queued gone books [] s ∧ Tallied books.handed books

variable {gone q : List Packet} {books : Books} {s s' : State}

theorem Queued.recorded (h : Queued gone books q s)
    (htallied : Tallied books.handed books ∨ Tallied books.handed.tail books) : Recorded s := by
  obtain ⟨hnumbered, haccepted, hhanded, rfl⟩ := h
  have hinOrder : s.books.handed.reverse.Sublist s.accepted := by
    rw [haccepted, List.append_assoc]
    exact hhanded.trans (List.sublist_append_left _ _)
  exact ⟨hinOrder, List.nodup_reverse.mp (hinOrder.nodup hnumbered.nodup), htallied⟩

theorem Queued.adds (h : Queued gone books q s) (hadds : Adds s s') : Queued gone books q s' := by
  obtain ⟨more, haccepted, hwaiting⟩ := hadds.packets
  refine ⟨hadds.numbered h.numbered, ?_, h.handed, hadds.books.trans h.books⟩
  rw [haccepted, hwaiting, h.accepted, List.append_assoc]

/-- The work gives up the packets of its local queue. -/
theorem Queued.giveUp (h : Queued gone books q s) : Queued (gone ++ q) books [] s := by
  refine ⟨h.numbered, ?_, h.handed.trans (List.sublist_append_left _ _), h.books⟩
  rw [h.accepted, List.append_nil]

theorem Caught.adds (h : Caught s) (hadds : Adds s s') : Caught s' := by
  obtain ⟨gone, books, hqueued, htallied⟩ := h
  exact ⟨gone, books, hqueued.adds hadds, htallied⟩

theorem Caught.recorded (h : Caught s) : Recorded s := by
  obtain ⟨gone, books, hqueued, htallied⟩ := h
  exact hqueued.recorded (.inl htallied)

theorem Caught.tallied (h : Caught s) : Tallied s.books.handed s.books := by
  obtain ⟨gone, books, hqueued, htallied⟩ := h
  rw [hqueued.books]
  exact htallied

/-- Accepting packets changes nothing of the record. -/
theorem Recorded.adds (h : Recorded s) (hadds : Adds s s') : Recorded s' := by
  obtain ⟨more, haccepted, -⟩ := hadds.packets
  refine ⟨?_, ?_, ?_⟩
  · rw [hadds.books, haccepted]
    exact h.inOrder.trans (List.sublist_append_left _ _)
  · rw [hadds.books]
    exact h.once
  · rw [hadds.books]
    exact h.tallied

/-- One more packet is counted. -/
theorem Tallied.add {packets : List Packet} (h : Tallied packets books) (skb : Packet) :
    Tallied (skb :: packets) { books with
      txPackets := books.txPackets + 1, txBytes := books.txBytes + skb.len.setWidth 64 } := by
  refine ⟨?_, ?_⟩
  · show books.txPackets + 1 = _
    rw [h.counted, ofNat_succ, List.length_cons]
  · show books.txBytes + skb.len.setWidth 64 = _
    rw [h.bytes, List.map_cons, List.sum_cons, Nat.add_comm, BitVec.ofNat_add,
      BitVec.ofNat_toNat]

/-! ## The work -/

/-- The work is safe: whatever MHI answers, after each of its steps the packets handed over are
recorded, and at its end they are all counted. -/
abbrev WorkRecords (p : NetProg) (s : State) : Prop :=
  p.Safe net (fun _ _ => True) Adds (fun _ => Recorded) (fun _ => Caught) s

/-- A step of the work that takes no packet. -/
theorem records_then {β : Type} {request : NetCall β} {rest : β → NetProg}
    (h : Queued gone books q s) (books' : β → Books)
    (hhanded : ∀ answer, (books' answer).handed = books.handed)
    (hstep : ∀ s answer s', net.step request s answer = some s' →
      s'.accepted = s.accepted ∧ s'.txBuffers = s.txBuffers ∧
        (s.books = books → s'.books = books' answer))
    (htallied : ∀ answer, Tallied (books' answer).handed (books' answer) ∨
      Tallied (books' answer).handed.tail (books' answer))
    (hrest : ∀ answer s', Queued gone (books' answer) q s' → WorkRecords (rest answer) s') :
    WorkRecords (perform request >>= rest) s := by
  refine safe_then fun s' hadds answer s'' hcall _ => ?_
  obtain ⟨hnumbered, haccepted, hsublist, hbooks⟩ := h.adds hadds
  obtain ⟨haccepted', hwaiting', hbooks'⟩ := hstep s' answer s'' hcall
  have hqueued : Queued gone (books' answer) q s'' := by
    refine ⟨?_, ?_, ?_, hbooks' hbooks⟩
    · unfold State.Numbered
      rw [haccepted']
      exact hnumbered
    · rw [haccepted', hwaiting']
      exact haccepted
    · rw [hhanded]
      exact hsublist
  exact ⟨hqueued.recorded (htallied answer), hrest answer s'' hqueued⟩

/-- A step that changes neither the queues nor the books. -/
theorem records_idle {β : Type} {request : NetCall β} {rest : β → NetProg}
    (h : Queued gone books q s) (htallied : Tallied books.handed books)
    (hstep : ∀ s answer s', net.step request s answer = some s' →
      s'.accepted = s.accepted ∧ s'.txBuffers = s.txBuffers ∧ s'.books = s.books)
    (hrest : ∀ answer s', Queued gone books q s' → WorkRecords (rest answer) s') :
    WorkRecords (perform request >>= rest) s := by
  refine records_then h (fun _ => books) (fun _ => rfl) ?_ (fun _ => .inl htallied) hrest
  intro s answer s' hcall
  obtain ⟨haccepted, hwaiting, hbooks⟩ := hstep s answer s' hcall
  exact ⟨haccepted, hwaiting, hbooks.trans⟩

/-- The work ends, whatever is left of its local queue. -/
theorem records_end (h : Queued gone books q s) (htallied : Tallied books.handed books) :
    WorkRecords (pure ()) s :=
  safe_pure ⟨gone ++ q, books, h.giveUp, htallied⟩

/-- The work stops the queue and ends. -/
theorem netifStopQueue_records (h : Queued gone books q s) (htallied : Tallied books.handed books) :
    WorkRecords (perform .netifStopQueue) s := by
  show WorkRecords (perform .netifStopQueue >>= fun _ => pure ()) s
  refine records_idle h htallied ?_ fun _ _ hs' => records_end hs' htallied
  intro s answer s' hcall
  obtain rfl := Option.some.inj hcall
  exact ⟨rfl, rfl, rfl⟩

/-- The loop drops a packet and ends. -/
theorem drop_records {skb : Packet} (h : Queued gone books q s)
    (htallied : Tallied books.handed books) :
    WorkRecords (do
      perform (.kfreeSkb skb)
      perform .statsDropped) s := by
  refine records_then h (fun _ => { books with
      discarded := skb :: books.discarded, freed := skb :: books.freed })
    (fun _ => rfl) ?_ (fun _ => .inl ⟨htallied.counted, htallied.bytes⟩) ?_
  · intro s answer s' hcall
    obtain rfl := Option.some.inj hcall
    exact ⟨rfl, rfl, fun hs => by rw [← hs]⟩
  · intro _ s₁ h₁
    show WorkRecords (perform .statsDropped >>= fun _ => pure ()) s₁
    refine records_then h₁ (fun _ => { books with
        discarded := skb :: books.discarded, freed := skb :: books.freed,
        txDropped := books.txDropped + 1 })
      (fun _ => rfl) ?_ (fun _ => .inl ⟨htallied.counted, htallied.bytes⟩) ?_
    · intro s answer s' hcall
      obtain rfl := Option.some.inj hcall
      exact ⟨rfl, rfl, fun hs => by rw [hs]⟩
    · intro _ s₂ h₂
      exact records_end h₂ ⟨htallied.counted, htallied.bytes⟩

/-- The loop hands its packets over in their order and counts each of them before the next. -/
theorem sendPackets_records (h : Queued gone books q s) (htallied : Tallied books.handed books) :
    WorkRecords (sendPackets q) s := by
  induction q generalizing gone books s with
  | nil => exact records_end h htallied
  | cons skb q ih =>
      unfold sendPackets
      refine safe_then fun s₁ hadds answer s₂ hcall _ => ?_
      obtain ⟨ret, used⟩ := answer
      obtain ⟨hnumbered, haccepted, hsublist, hbooks⟩ := h.adds hadds
      have hmoved : s₁.accepted = gone ++ [skb] ++ q ++ s₁.txBuffers := by
        rw [haccepted, List.append_assoc gone [skb] q]
        rfl
      by_cases hret : ret = 0
      · -- The packet is handed over, and not yet counted.
        subst hret
        obtain rfl := Option.some.inj hcall
        subst hbooks
        have hsent : Queued (gone ++ [skb]) { s₁.books with handed := skb :: s₁.books.handed } q
            { s₁ with
              books := { s₁.books with handed := skb :: s₁.books.handed }
              ring := s₁.ring - used } := by
          refine ⟨hnumbered, hmoved, ?_, rfl⟩
          show (skb :: s₁.books.handed).reverse.Sublist (gone ++ [skb])
          rw [List.reverse_cons]
          exact hsublist.append_right [skb]
        refine ⟨hsent.recorded (.inr ⟨htallied.counted, htallied.bytes⟩), ?_⟩
        have hcounted := htallied.add skb
        show WorkRecords (perform (.statsSent skb.len) >>= _) _
        refine records_then hsent (fun _ => { s₁.books with
            handed := skb :: s₁.books.handed, txPackets := s₁.books.txPackets + 1,
            txBytes := s₁.books.txBytes + skb.len.setWidth 64 })
          (fun _ => rfl) ?_ (fun _ => .inl ⟨hcounted.counted, hcounted.bytes⟩) ?_
        · intro s answer s' hstep
          obtain rfl := Option.some.inj hstep
          exact ⟨rfl, rfl, fun hs => by rw [hs]⟩
        · intro _ s₃ h₃
          refine records_idle h₃ ⟨hcounted.counted, hcounted.bytes⟩ ?_ ?_
          · intro s answer s' hstep
            obtain rfl := Option.some.inj hstep
            exact ⟨rfl, rfl, rfl⟩
          · intro exhausted s₄ h₄
            cases exhausted with
            | true => exact netifStopQueue_records h₄ ⟨hcounted.counted, hcounted.bytes⟩
            | false =>
                refine records_then h₄ (fun _ => { s₁.books with
                    handed := skb :: s₁.books.handed, txPackets := s₁.books.txPackets + 1,
                    txBytes := s₁.books.txBytes + skb.len.setWidth 64,
                    freed := skb :: s₁.books.freed })
                  (fun _ => rfl) ?_ (fun _ => .inl ⟨hcounted.counted, hcounted.bytes⟩) ?_
                · intro s answer s' hstep
                  obtain rfl := Option.some.inj hstep
                  exact ⟨rfl, rfl, fun hs => by rw [hs]⟩
                · intro _ s₅ h₅
                  refine records_idle h₅ ⟨hcounted.counted, hcounted.bytes⟩ ?_ ?_
                  · intro s answer s' hstep
                    obtain rfl := Option.some.inj hstep
                    exact ⟨rfl, rfl, rfl⟩
                  · intro _ s₆ h₆
                    exact ih h₆ ⟨hcounted.counted, hcounted.bytes⟩
      · -- The packet is not handed over, and the rest of the local queue is left behind.
        have hsame : s₂ = s₁ := by
          simp only [net, if_neg hret] at hcall
          exact (Option.some.inj hcall).symm
        subst hsame
        have hqueued : Queued gone books (skb :: q) s₂ := ⟨hnumbered, haccepted, hsublist, hbooks⟩
        refine ⟨hqueued.recorded (.inl htallied), ?_⟩
        show WorkRecords (if ret ≠ 0 then _ else _) _
        rw [if_pos hret]
        exact drop_records hqueued htallied

/-- A run of the work keeps the record, whatever MHI answers. -/
theorem mhiEpNetDevProcessQueuePackets_records (h : Caught s) :
    WorkRecords mhiEpNetDevProcessQueuePackets s := by
  obtain ⟨gone, books, hqueued, htallied⟩ := h
  unfold mhiEpNetDevProcessQueuePackets
  refine records_idle hqueued htallied ?_ ?_
  · intro s answer s' hcall
    obtain rfl := Option.some.inj hcall
    exact ⟨rfl, rfl, rfl⟩
  · intro exhausted s₁ h₁
    cases exhausted with
    | true => exact netifStopQueue_records h₁ htallied
    | false =>
        refine safe_then fun s₂ hadds q s₃ hsplice _ => ?_
        obtain ⟨hnumbered, haccepted, hsublist, hbooks⟩ := h₁.adds hadds
        simp only [net] at hsplice
        split at hsplice
        · rename_i hq
          subst hq
          obtain rfl := Option.some.inj hsplice
          have hspliced : Queued gone books s₂.txBuffers
              { s₂ with txBuffers := [], batch := s₂.txBuffers } := by
            refine ⟨hnumbered, ?_, hsublist, hbooks⟩
            rw [List.append_nil] at haccepted
            show s₂.accepted = gone ++ s₂.txBuffers ++ []
            rw [List.append_nil]
            exact haccepted
          exact ⟨hspliced.recorded (.inl htallied), sendPackets_records hspliced htallied⟩
        · cases hsplice

/-! ## Runs -/

theorem caught_fresh (ring : Nat) : Caught (.fresh ring) :=
  ⟨[], _, ⟨rfl, rfl, .refl _, rfl⟩, rfl, rfl⟩

/-- The threads keep to a contract under which the packets handed over are always recorded. -/
theorem recorded_contract :
    netSystem.Contract Move.any (Party.choose Caught fun _ => True)
      (Party.choose (fun _ _ => True) fun _ _ => True) (Party.choose Adds fun _ _ => True)
      (Party.choose (fun _ => Recorded) Adds) (fun t _ _ => t.choose Caught fun _ => True) := by
  refine netSystem_contract_of (fun _ _ _ => trivial) (fun _ _ hadds h => h.adds hadds)
    (fun _ h => h.recorded) ?_
  rintro s ⟨gone, books, hqueued, htallied⟩
  have hstarted : Caught { s with pending := false, batch := [] } :=
    ⟨gone, books, ⟨hqueued.numbered, hqueued.accepted, hqueued.handed, hqueued.books⟩, htallied⟩
  exact ⟨hstarted.recorded, mhiEpNetDevProcessQueuePackets_records hstarted⟩

/-- In every interleaving of transmitting threads, completions and runs of the work, whatever MHI
answers, the packets handed over are in the order in which they were accepted, and the statistics
count them. -/
theorem handed_in_order {ring : Nat} {P : NetPool}
    (h : netSystem.Reach Move.any (.quiet (.fresh ring)) P) : HandedInOrder P := by
  have hquiet : ∀ t, (Pool.quiet (State.fresh ring) : NetPool).running t = none ∧
      Party.choose Caught (fun _ => True) t (State.fresh ring) := by
    intro t
    refine ⟨rfl, ?_⟩
    cases t with
    | work => exact caught_fresh ring
    | callback | xmit n => trivial
  constructor
  · refine h.kept recorded_contract hquiet ?_ (caught_fresh ring).recorded
    intro t s s' hguarantee hs
    cases t with
    | work => exact hguarantee
    | callback | xmit n => exact hs.adds hguarantee
  · intro hidle
    have hcaught : Caught P.shared := (h.safe recorded_contract hquiet).idle .work hidle
    exact hcaught.tallied

/-- Two packets are accepted and the work sends both; then a third one waits. -/
theorem handed_in_order_two : ∃ P, netSystem.Reach Move.any (.quiet (.fresh 2)) P ∧
    P.running .work = none ∧ P.shared.accepted = [⟨0, 1500⟩, ⟨1, 60⟩, ⟨2, 40⟩] ∧
    P.shared.books.handed = [⟨1, 60⟩, ⟨0, 1500⟩] ∧ P.shared.books.txPackets = 2 ∧
    P.shared.books.txBytes = 1560 ∧ HandedInOrder P := by
  have hfresh : netSystem.Reach Move.any (.quiet (.fresh 2)) (.quiet (.fresh 2)) := .here
  have hfirst := ((hfresh.start (.xmit 0) (.xmit 1500) rfl rfl trivial).call (.xmit 0) ()
    rfl rfl trivial).call (.xmit 0) () rfl rfl trivial
  have hsecond := ((hfirst.start (.xmit 1) (.xmit 60) rfl rfl trivial).call (.xmit 1) ()
    rfl rfl trivial).call (.xmit 1) () rfl rfl trivial
  have htaken := ((hsecond.start .work .processQueuePackets rfl ⟨rfl, rfl⟩ trivial).call .work false
    rfl rfl trivial).call .work [⟨0, 1500⟩, ⟨1, 60⟩] rfl rfl trivial
  have hthird := ((htaken.start (.xmit 0) (.xmit 40) rfl rfl trivial).call (.xmit 0) ()
    rfl rfl trivial).call (.xmit 0) () rfl rfl trivial
  have hsent := (hthird.call .work ((0 : Int), 1) rfl rfl trivial).call .work () rfl rfl trivial
  have hfreed := ((hsent.call .work false rfl rfl trivial).call .work () rfl rfl
    trivial).call .work () rfl rfl trivial
  have hsent' := (hfreed.call .work ((0 : Int), 1) rfl rfl trivial).call .work () rfl rfl trivial
  have hleft := (hsent'.call .work true rfl rfl trivial).call .work () rfl rfl trivial
  exact ⟨_, hleft, rfl, rfl, rfl, rfl, rfl, handed_in_order hleft⟩

end SafeLinux.MhiEpNet
