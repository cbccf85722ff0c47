import SafeLinux.MhiEpNet.Driver
import Mathlib.Data.List.Perm.Basic
import Mathlib.Data.List.Nodup

/-!
# No packet is lost

Every packet the driver has accepted is handed to MHI, dropped or still waiting, and is freed once
when it no longer waits. The transmit work keeps this up to the packets of its local queue; other
threads only add packets to `tx_buffers`, which is what `Adds` says. The work loses track of a
packet where it leaves its loop because the ring is exhausted, and of the rest of its local queue
where it leaves the loop because a packet could not be sent.
-/

namespace SafeLinux.MhiEpNet

open Effects
open Effects.Program (perform safe_pure safe_then Only)

/-! ## Conservation -/

/-- Every accepted packet is in one class, the statistics count the classes, and a packet is freed
at most once, and once when it no longer waits. -/
structure Conserved (s : State) : Prop where
  oneClass : ∀ skb ∈ s.accepted,
    s.books.handed.count skb + s.books.discarded.count skb + s.txBuffers.count skb = 1
  handed : s.books.txPackets = BitVec.ofNat 64 s.books.handed.length
  dropped : s.books.txDropped = BitVec.ofNat 64 s.books.discarded.length
  discarded : ∀ skb ∈ s.books.discarded, skb ∈ s.books.freed
  freedAtMostOnce : ∀ skb ∈ s.accepted, s.books.freed.count skb ≤ 1
  freedOnce : ∀ skb ∈ s.accepted, skb ∉ s.txBuffers → s.books.freed.count skb = 1

/-- Every packet that the work of a pool has dealt with is accounted for. -/
def Settled (P : NetPool) : Prop := P.running .work = none → Conserved P.shared

/-- Packets are numbered in the order in which they are accepted. -/
def State.Numbered (s : State) : Prop :=
  s.accepted.map Packet.number = List.range s.accepted.length

/-- What the work finds between two of its steps: `taken` are the packets it has ever taken from
`tx_buffers`, and nobody else touches the books. -/
structure Between (taken : List Packet) (books : Books) (batch : List Packet) (s : State) :
    Prop where
  numbered : s.Numbered
  split : s.accepted.Perm (s.txBuffers ++ taken)
  books : s.books = books
  batch : s.batch = batch

/-- The books are right, but for the packets `q` of the local queue. -/
structure Balanced (taken : List Packet) (books : Books) (q : List Packet) : Prop where
  taken : taken.Perm (books.handed ++ books.discarded ++ q)
  handed : books.txPackets = BitVec.ofNat 64 books.handed.length
  dropped : books.txDropped = BitVec.ofNat 64 books.discarded.length
  freed : books.freed.Perm (books.handed ++ books.discarded)

theorem State.Numbered.nodup {s : State} (h : s.Numbered) : s.accepted.Nodup := by
  have hrange := List.nodup_range (n := s.accepted.length)
  rw [← h] at hrange
  exact hrange.of_map _

/-- With an empty local queue and right books nothing is lost. -/
theorem Between.conserved {taken batch : List Packet} {books : Books} {s : State}
    (h : Between taken books batch s) (hbooks : Balanced taken books []) : Conserved s := by
  obtain ⟨hnumbered, hsplit, rfl, -⟩ := h
  obtain ⟨htaken, hhanded, hdropped, hfreed⟩ := hbooks
  rw [List.append_nil] at htaken
  have hcount : ∀ skb ∈ s.accepted, s.txBuffers.count skb +
      (s.books.handed.count skb + s.books.discarded.count skb) = 1 := by
    intro skb hskb
    have hone := List.count_eq_one_of_mem hnumbered.nodup hskb
    rw [hsplit.count_eq, List.count_append, htaken.count_eq, List.count_append] at hone
    exact hone
  have hfreedCount : ∀ skb, s.books.freed.count skb =
      s.books.handed.count skb + s.books.discarded.count skb := by
    intro skb
    rw [hfreed.count_eq, List.count_append]
  refine ⟨?_, hhanded, hdropped, ?_, ?_, ?_⟩
  · intro skb hskb
    have := hcount skb hskb
    omega
  · intro skb hskb
    exact hfreed.mem_iff.mpr (List.mem_append_right _ hskb)
  · intro skb hskb
    have := hcount skb hskb
    have := hfreedCount skb
    omega
  · intro skb hskb hwaiting
    have hnone := List.count_eq_zero_of_not_mem hwaiting
    have := hcount skb hskb
    have := hfreedCount skb
    omega

/-! ## What the other threads do -/

/-- Some packets are accepted and wait; nothing else of what the work relies on changes. -/
structure Adds (s s' : State) : Prop where
  books : s'.books = s.books
  batch : s'.batch = s.batch
  numbered : s.Numbered → s'.Numbered
  packets : ∃ more, s'.accepted = s.accepted ++ more ∧ s'.txBuffers = s.txBuffers ++ more

theorem Adds.refl (s : State) : Adds s s := ⟨rfl, rfl, id, [], by simp, by simp⟩

theorem Adds.trans {s s' s'' : State} (h : Adds s s') (h' : Adds s' s'') : Adds s s'' := by
  obtain ⟨more, haccepted, hwaiting⟩ := h.packets
  obtain ⟨more', haccepted', hwaiting'⟩ := h'.packets
  refine ⟨h'.books.trans h.books, h'.batch.trans h.batch, fun hs => h'.numbered (h.numbered hs),
    more ++ more', ?_, ?_⟩
  · rw [haccepted', haccepted, List.append_assoc]
  · rw [hwaiting', hwaiting, List.append_assoc]

/-- A change of the ring, of the queue's state or of the work's state adds no packet. -/
theorem Adds.same {s s' : State} (hbooks : s'.books = s.books) (hbatch : s'.batch = s.batch)
    (haccepted : s'.accepted = s.accepted) (hwaiting : s'.txBuffers = s.txBuffers) : Adds s s' := by
  refine ⟨hbooks, hbatch, fun hs => ?_, [], ?_, ?_⟩
  · unfold State.Numbered
    rw [haccepted]
    exact hs
  · rw [haccepted, List.append_nil]
  · rw [hwaiting, List.append_nil]

/-- What the work finds stays true when packets are added. -/
theorem Between.adds {taken batch : List Packet} {books : Books} {s s' : State}
    (h : Between taken books batch s) (hadds : Adds s s') : Between taken books batch s' := by
  obtain ⟨more, haccepted, hwaiting⟩ := hadds.packets
  refine ⟨hadds.numbered h.numbered, ?_, hadds.books.trans h.books, hadds.batch.trans h.batch⟩
  rw [haccepted, hwaiting, List.append_assoc]
  refine (h.split.append_right more).trans ?_
  rw [List.append_assoc]
  exact List.perm_append_comm.append_left _

/-- A packet is accepted. -/
theorem adds_skbQueueTail {len : U32} {s s' : State}
    (h : net.step (.skbQueueTail len) s () = some s') : Adds s s' := by
  obtain rfl := Option.some.inj h
  refine ⟨rfl, rfl, fun hs => ?_, [⟨s.accepted.length, len⟩], rfl, rfl⟩
  have hnumbered : s.accepted.map Packet.number = List.range s.accepted.length := hs
  unfold State.Numbered
  rw [List.map_append, hnumbered, List.length_append, List.length_singleton, List.range_succ]
  rfl

/-! ## The work -/

/-- The condition on the steps of the work: after a packet is sent the ring is not exhausted, and
only the last packet it has taken may fail to be sent. -/
def SendsAll (s : State) : Event NetCall → Prop
  | ⟨.mhiEpQueueIsEmpty, answer⟩ => answer = true → s.batch = []
  | ⟨.mhiEpQueueSkb skb, answer⟩ => answer.1 ≠ 0 → s.batch.getLast? = some skb
  | _ => True

/-- What the work is between two runs. -/
def AtRest (s : State) : Prop :=
  ∃ taken books, Between taken books s.batch s ∧ Balanced taken books []

/-- The work is safe: the other threads only add packets, and it ends with nothing lost. -/
abbrev WorkSafe (p : NetProg) (s : State) : Prop :=
  p.Safe net SendsAll Adds (fun _ _ => True) (fun _ => AtRest) s

theorem AtRest.adds {s s' : State} (h : AtRest s) (hadds : Adds s s') : AtRest s' := by
  obtain ⟨taken, books, hbetween, hbooks⟩ := h
  refine ⟨taken, books, ?_, hbooks⟩
  rw [hadds.batch]
  exact hbetween.adds hadds

theorem AtRest.conserved {s : State} (h : AtRest s) : Conserved s := by
  obtain ⟨taken, books, hbetween, hbooks⟩ := h
  exact hbetween.conserved hbooks

variable {taken batch : List Packet} {books : Books} {s : State}

/-- A step of the work that changes at most the books. -/
theorem workSafe_then {β : Type} {request : NetCall β} {rest : β → NetProg}
    (h : Between taken books batch s) (books' : β → Books)
    (hstep : ∀ s answer s', net.step request s answer = some s' →
      s'.accepted = s.accepted ∧ s'.txBuffers = s.txBuffers ∧ s'.batch = s.batch ∧
        (s.books = books → s'.books = books' answer))
    (hrest : ∀ answer s s', s.batch = batch → SendsAll s ⟨request, answer⟩ →
      Between taken (books' answer) batch s' → WorkSafe (rest answer) s') :
    WorkSafe (perform request >>= rest) s := by
  refine safe_then fun s' hadds answer s'' hcall hsends => ⟨trivial, ?_⟩
  obtain ⟨hnumbered, hsplit, hbooks, hbatch⟩ := h.adds hadds
  obtain ⟨haccepted', hwaiting', hbatch', hbooks'⟩ := hstep s' answer s'' hcall
  refine hrest answer s' s'' hbatch hsends ⟨?_, ?_, hbooks' hbooks, hbatch'.trans hbatch⟩
  · unfold State.Numbered
    rw [haccepted']
    exact hnumbered
  · rw [haccepted', hwaiting']
    exact hsplit

/-- The last step of the work, when it changes at most the books. -/
theorem workSafe_last {request : NetCall Unit} (h : Between taken books batch s)
    (books' : Books)
    (hstep : ∀ s s', net.step request s () = some s' →
      s'.accepted = s.accepted ∧ s'.txBuffers = s.txBuffers ∧ s'.batch = s.batch ∧
        (s.books = books → s'.books = books'))
    (hbooks : Balanced taken books' []) :
    WorkSafe (perform request) s :=
  workSafe_then h (fun _ => books') (fun s _ s' => hstep s s') fun _ _ _ _ _ hs' =>
    safe_pure ⟨taken, books', hs'.batch ▸ hs', hbooks⟩

/-- A step that changes no book and no queue. -/
theorem workSafe_idle {β : Type} {request : NetCall β} {rest : β → NetProg}
    (h : Between taken books batch s)
    (hstep : ∀ s answer s', net.step request s answer = some s' →
      s'.accepted = s.accepted ∧ s'.txBuffers = s.txBuffers ∧ s'.batch = s.batch ∧
        s'.books = s.books)
    (hrest : ∀ answer s s', s.batch = batch → SendsAll s ⟨request, answer⟩ →
      Between taken books batch s' → WorkSafe (rest answer) s') :
    WorkSafe (perform request >>= rest) s :=
  workSafe_then h (fun _ => books) (fun s answer s' hcall => by
    obtain ⟨haccepted, hwaiting, hbatch, hbooks⟩ := hstep s answer s' hcall
    exact ⟨haccepted, hwaiting, hbatch, hbooks.trans⟩) hrest

/-- The packets of the local queue are distinct. -/
theorem Between.nodup {q : List Packet} (h : Between taken books batch s)
    (hbooks : Balanced taken books q) : q.Nodup := by
  have hall := h.split.nodup_iff.mp h.numbered.nodup
  have htaken := hbooks.taken.nodup_iff.mp (List.nodup_append.mp hall).2.1
  exact (List.nodup_append.mp htaken).2.1

/-- A packet that ends a list of distinct packets has none after it. -/
theorem eq_nil_of_getLast? {done q : List Packet} {skb : Packet} (hnodup : (skb :: q).Nodup)
    (h : (done ++ skb :: q).getLast? = some skb) : q = [] := by
  cases q with
  | nil => rfl
  | cons skb' q =>
      rw [List.getLast?_append, List.getLast?_cons_cons] at h
      have hlast : (skb' :: q).getLast? = some skb := by
        rw [List.getLast?_cons] at h ⊢
        simpa using h
      exact absurd (List.mem_of_getLast? hlast) (List.nodup_cons.mp hnodup).1

/-- The loop drops the last packet of its local queue. -/
theorem sendPackets_drop {skb : Packet} (h : Between taken books batch s)
    (hbooks : Balanced taken books [skb]) :
    WorkSafe (do
      perform (.kfreeSkb skb)
      perform .statsDropped) s := by
  obtain ⟨htaken, hhanded, hdropped, hfreed⟩ := hbooks
  refine workSafe_then h (fun _ => { books with
      discarded := skb :: books.discarded, freed := skb :: books.freed }) ?_ ?_
  · intro s answer s' hstep
    obtain rfl := Option.some.inj hstep
    exact ⟨rfl, rfl, rfl, fun hs => by rw [← hs]⟩
  · intro _ _ s₁ _ _ h₁
    refine workSafe_last h₁ { books with
        discarded := skb :: books.discarded, freed := skb :: books.freed,
        txDropped := books.txDropped + 1 } ?_ ⟨?_, hhanded, ?_, ?_⟩
    · intro s s' hstep
      obtain rfl := Option.some.inj hstep
      exact ⟨rfl, rfl, rfl, fun hs => by rw [hs]⟩
    · rw [List.append_nil]
      refine htaken.trans ?_
      rw [List.append_assoc]
      exact (List.perm_append_singleton skb books.discarded).append_left _
    · dsimp only
      rw [hdropped, ofNat_succ]
      rfl
    · exact (hfreed.cons skb).trans List.perm_middle.symm

/-- The loop sends the packets of its local queue, or drops the last one. -/
theorem sendPackets_safe (q done : List Packet) (hbatch : batch = done ++ q)
    (h : Between taken books batch s) (hbooks : Balanced taken books q) :
    WorkSafe (sendPackets q) s := by
  induction q generalizing done books s with
  | nil => exact safe_pure ⟨taken, books, h.batch ▸ h, hbooks⟩
  | cons skb q ih =>
      unfold sendPackets
      obtain ⟨htaken, hhanded, hdropped, hfreed⟩ := id hbooks
      refine workSafe_then h (fun answer => if answer.1 = 0 then
          { books with handed := skb :: books.handed } else books) ?_ ?_
      · intro s answer s' hstep
        simp only [net] at hstep
        split at hstep <;> obtain rfl := Option.some.inj hstep
        · exact ⟨rfl, rfl, rfl, fun hs => by rw [if_pos ‹_›, ← hs]⟩
        · exact ⟨rfl, rfl, rfl, fun hs => by rw [if_neg ‹_›, hs]⟩
      · rintro ⟨ret, used⟩ s₁ s₂ hbatch₁ hsends h₂
        dsimp only
        by_cases hret : ret = 0
        · rw [if_neg (not_not.mpr hret)]
          rw [if_pos hret] at h₂
          refine workSafe_then h₂ (fun _ => { books with
              handed := skb :: books.handed, txPackets := books.txPackets + 1,
              txBytes := books.txBytes + skb.len.setWidth 64 }) ?_ ?_
          · intro s answer s' hstep
            obtain rfl := Option.some.inj hstep
            exact ⟨rfl, rfl, rfl, fun hs => by rw [hs]⟩
          · intro _ _ s₃ _ _ h₃
            refine workSafe_idle h₃ ?_ ?_
            · intro s answer s' hstep
              obtain rfl := Option.some.inj hstep
              exact ⟨rfl, rfl, rfl, rfl⟩
            · intro exhausted s₄ s₅ hbatch₄ hsends₄ h₅
              cases exhausted with
              | true =>
                  -- A packet has been taken, so the ring may not be exhausted here.
                  have hnone : batch = [] := hbatch₄ ▸ hsends₄ rfl
                  rw [hbatch] at hnone
                  simp at hnone
              | false =>
                  refine workSafe_then h₅ (fun _ => { books with
                      handed := skb :: books.handed, txPackets := books.txPackets + 1,
                      txBytes := books.txBytes + skb.len.setWidth 64,
                      freed := skb :: books.freed }) ?_ ?_
                  · intro s answer s' hstep
                    obtain rfl := Option.some.inj hstep
                    exact ⟨rfl, rfl, rfl, fun hs => by rw [hs]⟩
                  · intro _ _ s₆ _ _ h₆
                    refine workSafe_idle h₆ ?_ ?_
                    · intro s answer s' hstep
                      obtain rfl := Option.some.inj hstep
                      exact ⟨rfl, rfl, rfl, rfl⟩
                    · intro _ _ s₇ _ _ h₇
                      refine ih (done ++ [skb]) (by rw [hbatch, List.append_assoc]; rfl) h₇
                        ⟨?_, ?_, hdropped, hfreed.cons skb⟩
                      · exact htaken.trans List.perm_middle
                      · dsimp only
                        rw [hhanded, ofNat_succ]
                        rfl
        · rw [if_pos hret]
          rw [if_neg hret] at h₂
          -- The packet that could not be sent is the last one of the local queue.
          have hend : (done ++ skb :: q).getLast? = some skb := by
            rw [← hbatch, ← hbatch₁]
            exact hsends hret
          obtain rfl : q = [] := eq_nil_of_getLast? (h.nodup hbooks) hend
          exact sendPackets_drop h₂ hbooks

/-- The work takes the packets that wait and sends them. -/
theorem mhiEpNetDevProcessQueuePackets_safe (h : Between taken books [] s)
    (hbooks : Balanced taken books []) : WorkSafe mhiEpNetDevProcessQueuePackets s := by
  unfold mhiEpNetDevProcessQueuePackets
  refine workSafe_idle h ?_ ?_
  · intro s answer s' hstep
    obtain rfl := Option.some.inj hstep
    exact ⟨rfl, rfl, rfl, rfl⟩
  · intro exhausted s₁ s₂ _ _ h₂
    cases exhausted with
    | true =>
        refine workSafe_last h₂ books ?_ hbooks
        intro s s' hstep
        obtain rfl := Option.some.inj hstep
        exact ⟨rfl, rfl, rfl, id⟩
    | false =>
        refine safe_then fun s₃ hadds q s₄ hsplice _ => ⟨trivial, ?_⟩
        obtain ⟨hnumbered, hsplit, hbooks₃, _⟩ := h₂.adds hadds
        simp only [net] at hsplice
        split at hsplice
        · rename_i hq
          subst hq
          obtain rfl := Option.some.inj hsplice
          refine sendPackets_safe s₃.txBuffers [] (List.nil_append _).symm
            ⟨hnumbered, hsplit.trans List.perm_append_comm, hbooks₃, rfl⟩ ?_
          refine ⟨?_, hbooks.handed, hbooks.dropped, hbooks.freed⟩
          have htaken := hbooks.taken
          rw [List.append_nil] at htaken
          exact htaken.append_right _
        · cases hsplice

/-! ## Runs -/

/-- One thing for the work and another for every other thread. -/
def Party.choose {γ : Type*} (work others : γ) : Party → γ
  | .work => work
  | .callback | .xmit _ => others

/-- What is relied on by a thread: the work relies on others only adding packets. -/
def relies : Party → State → State → Prop
  | .work => Adds
  | .callback | .xmit _ => fun _ _ => True

/-- What a thread guarantees to the others. -/
def guarantees : Party → State → State → Prop
  | .work => fun _ _ => True
  | .callback | .xmit _ => Adds

/-- What holds while a thread is idle, and when it returns. -/
def restful : Party → State → Prop
  | .work => AtRest
  | .callback | .xmit _ => fun _ => True

/-- The condition on the steps of a thread. -/
def conserves : Party → State → Event NetCall → Prop
  | .work => SendsAll
  | .callback | .xmit _ => fun _ _ => True

/-- The condition of a run in which the work can send all it takes but the last packet, and does not
exhaust the ring. -/
def SendsAllTaken (P : NetPool) : NetMove → Prop
  | .start _ _ => True
  | .call t e => conserves t P.shared e

/-- The steps of the other threads. -/
def NetCall.IsOutside : (β : Type) → NetCall β → Prop
  | _, .skbQueueTail _ | _, .queueWork | _, .ringRefill _ | _, .netifQueueStopped
  | _, .netifWakeQueue => True
  | _, _ => False

/-- A step of another thread at most adds a packet. -/
theorem adds_outside {β : Type} {request : NetCall β} {s s' : State} {answer : β}
    (hkind : NetCall.IsOutside β request) (h : net.step request s answer = some s') :
    Adds s s' := by
  cases request with
  | skbQueueTail len => exact adds_skbQueueTail h
  | queueWork | ringRefill buffers | netifWakeQueue =>
      obtain rfl := Option.some.inj h
      exact .same rfl rfl rfl rfl
  | netifQueueStopped =>
      simp only [net] at h
      split at h
      · obtain rfl := Option.some.inj h
        exact .refl s
      · cases h
  | mhiEpQueueIsEmpty | mhiEpQueueSkb _ | skbQueueSpliceInit | statsSent _ | statsDropped
  | kfreeSkb _ | consumeSkb _ | condResched | netifStopQueue => exact hkind.elim

theorem only_mhiNdoXmit (len : U32) : Only NetCall.IsOutside (mhiNdoXmit len) :=
  .then trivial fun _ => .perform trivial

theorem only_mhiCompletion (transactionStatus : Int) (buffers : Nat) :
    Only NetCall.IsOutside (mhiCompletion transactionStatus buffers) := by
  have hcallback : Only NetCall.IsOutside (mhiEpNetDlCallback transactionStatus) := by
    unfold mhiEpNetDlCallback
    split
    · exact .pure ()
    · refine .then trivial fun stopped => ?_
      split
      · exact .then trivial fun _ => .perform trivial
      · exact .pure ()
  unfold mhiCompletion
  split
  · exact .then trivial fun _ => hcallback
  · exact hcallback

/-- The other threads at most add packets. So the threads keep to a contract when the work is safe
as long as packets are only added, and `rest` holds between two runs of it. -/
theorem netSystem_contract_of {ok : NetPool → NetMove → Prop}
    {cond : State → Event NetCall → Prop} {rest : State → Prop} {guarantee : State → State → Prop}
    (hok : ∀ P e, ok P (.call .work e) → cond P.shared e)
    (hadds : ∀ s s', Adds s s' → rest s → rest s') (hreturn : ∀ s, rest s → guarantee s s)
    (hwork : ∀ s, rest s → guarantee s { s with pending := false, batch := [] } ∧
      mhiEpNetDevProcessQueuePackets.Safe net cond Adds guarantee (fun _ => rest)
        { s with pending := false, batch := [] }) :
    netSystem.Contract ok (Party.choose rest fun _ => True) (Party.choose cond fun _ _ => True)
      (Party.choose Adds fun _ _ => True) (Party.choose guarantee Adds)
      (fun t _ _ => t.choose rest fun _ => True) where
  admits := by
    intro P t e hmove
    cases t with
    | work => exact hok P e hmove
    | callback | xmit n => trivial
  refl := by
    intro t s
    cases t with
    | work => exact .refl s
    | callback | xmit n => trivial
  trans := by
    intro t s s' s'' hs hs'
    cases t with
    | work => exact hs.trans hs'
    | callback | xmit n => trivial
  others := by
    intro t u s s' hu hguarantee
    cases u with
    | work =>
        cases t with
        | work => exact absurd rfl hu
        | callback | xmit n => exact hguarantee
    | callback | xmit n => trivial
  idle := by
    intro t s s' hrely hA
    cases t with
    | work => exact hadds s s' hrely hA
    | callback | xmit n => trivial
  post := by
    intro t _ value s s' hrely hA
    cases t with
    | work => exact hadds s s' hrely hA
    | callback | xmit n => trivial
  start := by
    intro P t i s hA hstart
    match t, i with
    | .work, .processQueuePackets =>
        obtain ⟨_, rfl⟩ := hstart
        exact hwork P.shared hA
    | .callback, .completion transactionStatus buffers =>
        obtain rfl := hstart
        exact ⟨.refl _, (only_mhiCompletion transactionStatus buffers).safe
          (fun _ _ _ _ _ hkind hcall => adds_outside hkind hcall) (fun _ _ => trivial) _⟩
    | .xmit n, .xmit len =>
        obtain rfl := hstart
        exact ⟨.refl _, (only_mhiNdoXmit len).safe
          (fun _ _ _ _ _ hkind hcall => adds_outside hkind hcall) (fun _ _ => trivial) _⟩
  finish := by
    intro t _ value s hA
    refine ⟨?_, hA⟩
    cases t with
    | work => exact hreturn s hA
    | callback | xmit n => exact .refl s

/-- The work relies on the other threads at most adding packets, and they guarantee it. -/
theorem netSystem_contract : netSystem.Contract SendsAllTaken restful conserves relies guarantees
    (fun t _ _ => restful t) := by
  refine netSystem_contract_of (fun _ _ h => h) (fun _ _ hadds h => h.adds hadds)
    (fun _ _ => trivial) ?_
  rintro s ⟨taken, books, hbetween, hbooks⟩
  refine ⟨trivial, mhiEpNetDevProcessQueuePackets_safe ?_ hbooks⟩
  exact ⟨hbetween.numbered, hbetween.split, hbetween.books, rfl⟩

/-- In every interleaving whose steps meet the condition the driver is at rest between two runs of
the work. -/
theorem atRest_reach {ring : Nat} {P : NetPool}
    (h : netSystem.Reach SendsAllTaken (.quiet (.fresh ring)) P) :
    P.Each restful fun t _ p s =>
      p.Safe net (conserves t) (relies t) (guarantees t) (fun _ => restful t) s := by
  have hrest : AtRest (.fresh ring) :=
    ⟨[], _, ⟨rfl, .refl _, rfl, rfl⟩, ⟨.refl _, rfl, rfl, .refl _⟩⟩
  refine h.safe netSystem_contract fun t => ⟨rfl, ?_⟩
  cases t with
  | work => exact hrest
  | callback | xmit n => trivial

/-- Whenever the work does not run, no packet is lost. -/
theorem settled_reach {ring : Nat} {P : NetPool}
    (h : netSystem.Reach SendsAllTaken (.quiet (.fresh ring)) P) : Settled P :=
  fun hidle => AtRest.conserved ((atRest_reach h).idle .work hidle)

/-- The first packet accepted, of 1500 bytes. -/
def firstPacket : Packet := ⟨0, 1500⟩

/-- A run in which a packet is sent and freed. -/
theorem settled_reach_sent : ∃ P, netSystem.Reach SendsAllTaken (.quiet (.fresh 2)) P ∧
    P.shared.accepted = [firstPacket] ∧ P.shared.books.handed = [firstPacket] ∧ Settled P := by
  have hfresh : netSystem.Reach SendsAllTaken (.quiet (.fresh 2)) (.quiet (.fresh 2)) := .here
  have hxmit := ((hfresh.start (.xmit 0) (.xmit 1500) rfl rfl trivial).call (.xmit 0) ()
    rfl rfl trivial).call (.xmit 0) () rfl rfl trivial
  have htaken := ((hxmit.start .work .processQueuePackets rfl ⟨rfl, rfl⟩ trivial).call .work false
    rfl rfl (fun h => nomatch h)).call .work [firstPacket] rfl rfl trivial
  have hsent := (htaken.call .work ((0 : Int), 1) rfl rfl (fun h => absurd rfl h)).call .work ()
    rfl rfl trivial
  have hfreed := ((hsent.call .work false rfl rfl (fun h => nomatch h)).call .work () rfl rfl
    trivial).call .work () rfl rfl trivial
  exact ⟨_, hfreed, rfl, rfl, settled_reach hfreed⟩

/-- A packet is sent, the ring is exhausted, and the packet is never freed. -/
theorem not_settled_ringExhausted : ¬ ∀ (ring : Nat) (P : NetPool),
    netSystem.Reach Move.any (.quiet (.fresh ring)) P → Settled P := by
  intro h
  have hreach : ∃ P, netSystem.Reach Move.any (.quiet (.fresh 1)) P ∧ P.running .work = none ∧
      P.shared.accepted = [firstPacket] ∧ P.shared.txBuffers = [] ∧ P.shared.books.freed = [] := by
    have hfresh : netSystem.Reach Move.any (.quiet (.fresh 1)) (.quiet (.fresh 1)) := .here
    have hxmit := ((hfresh.start (.xmit 0) (.xmit 1500) rfl rfl trivial).call (.xmit 0) ()
      rfl rfl trivial).call (.xmit 0) () rfl rfl trivial
    have htaken := ((hxmit.start .work .processQueuePackets rfl ⟨rfl, rfl⟩ trivial).call .work false
      rfl rfl trivial).call .work [firstPacket] rfl rfl trivial
    have hsent := (htaken.call .work ((0 : Int), 1) rfl rfl trivial).call .work () rfl rfl trivial
    have hleft := (hsent.call .work true rfl rfl trivial).call .work () rfl rfl trivial
    exact ⟨_, hleft, rfl, rfl, rfl, rfl⟩
  obtain ⟨P, hP, hidle, haccepted, hwaiting, hfreed⟩ := hreach
  have hone := (h 1 P hP hidle).freedOnce firstPacket (by simp [haccepted]) (by simp [hwaiting])
  rw [hfreed] at hone
  exact absurd hone (by decide)

end SafeLinux.MhiEpNet
