import SafeLinux.Kiumd.Answers
import SafeLinux.Kiumd.Close
import SafeLinux.Kiumd.Frame
import SafeLinux.Kiumd.Handles
import SafeLinux.Registries.Basic

/-!
# Handles own the references to their buffers

The xarray of a context is a registry: each handle names a buffer and counts how often it has been
opened. In every state of a run the context owns exactly as many references to a buffer as its
handle counts, and closing the context drops them all (`handle_run_counts_references`).
-/

namespace SafeLinux.Kiumd

open Effects Registries

/-! ## Counted handles -/

/-- The buffer that an entry names. -/
def World.named (w : World) (e : Nat × Nat) : KPtr DmaBuf := (w.handles e.2).dmabuf

/-- How often an entry has been opened. -/
def World.opened (w : World) (e : Nat × Nat) : Nat := (w.handles e.2).handleRefcount.toNat

/-- One reference more, to the buffer of a pointer. -/
def withRef (base : DmaBuf → Nat) (dmabuf : KPtr DmaBuf) : DmaBuf → Nat :=
  fun d => base d + if dmabuf = .ptr d then 1 else 0

/-- The entries have different indices, handles and buffers, each has been opened, and what the
driver owns besides `base` are the references they count. -/
structure HandlesCounted (w : World) (c : Nat) (base : DmaBuf → Nat) : Prop where
  indices : ((w.xa c).map (·.1)).Nodup
  handles : ((w.xa c).map (·.2)).Nodup
  buffers : ((w.xa c).map w.named).Nodup
  live : ∀ e ∈ w.xa c, .handle e.2 ∈ w.held
  opened : ∀ e ∈ w.xa c, 0 < (w.handles e.2).handleRefcount ∧
    (w.handles e.2).handleRefcount < 2 ^ 31
  owned : ∀ d, w.held.count (.dmabuf d) =
    base d + tally (w.xa c) w.named w.opened (.ptr d)

theorem wrapInt_of_range {n : Int} (hlow : -2 ^ 31 ≤ n) (hhigh : n < 2 ^ 31) : wrapInt n = n := by
  rw [wrapInt, BitVec.toInt_ofInt]
  exact Int.bmod_eq_of_le (by omega) (by omega)

variable {w w' : World} {c p : Nat} {d : DmaBuf} {dmabuf : KPtr DmaBuf} {base : DmaBuf → Nat}
  {e : Nat × Nat} {r : Resource}

namespace HandlesCounted

/-- The invariant depends on the entries, the handles they name and the references held. -/
theorem congr {base' : DmaBuf → Nat} (h : HandlesCounted w c base) (hxa : w'.xa c = w.xa c)
    (hhandles : ∀ e ∈ w.xa c, w'.handles e.2 = w.handles e.2)
    (hlive : ∀ e ∈ w.xa c, .handle e.2 ∈ w'.held)
    (hheld : ∀ d, w'.held.count (.dmabuf d) + base d = w.held.count (.dmabuf d) + base' d) :
    HandlesCounted w' c base' := by
  have hnamed : ∀ e ∈ w.xa c, w'.named e = w.named e := fun e he =>
    congrArg DmaBufHandle.dmabuf (hhandles e he)
  have hopened : ∀ e ∈ w.xa c, w'.opened e = w.opened e := fun e he =>
    congrArg (fun handle => handle.handleRefcount.toNat) (hhandles e he)
  refine ⟨by rw [hxa]; exact h.indices, by rw [hxa]; exact h.handles, ?_, ?_, ?_, ?_⟩
  · rw [hxa, List.map_congr_left hnamed]
    exact h.buffers
  · rw [hxa]
    exact hlive
  · intro e he
    rw [hxa] at he
    rw [hhandles e he]
    exact h.opened e he
  · intro d
    have hcount := hheld d
    rw [h.owned d] at hcount
    rw [hxa, tally_congr hnamed hopened]
    omega

/-- Nothing that counts has changed. -/
theorem same (h : HandlesCounted w c base) (hxa : w'.xa c = w.xa c)
    (hhandles : ∀ e ∈ w.xa c, w'.handles e.2 = w.handles e.2)
    (hlive : ∀ e ∈ w.xa c, .handle e.2 ∈ w'.held)
    (hheld : ∀ d, w'.held.count (.dmabuf d) = w.held.count (.dmabuf d)) :
    HandlesCounted w' c base :=
  h.congr hxa hhandles hlive fun d => by rw [hheld d]

/-- A reference is taken. -/
theorem hold (h : HandlesCounted w c base) :
    HandlesCounted (w.hold (.dmabuf d)) c (withRef base (.ptr d)) := by
  refine h.congr rfl (fun _ _ => rfl) (fun e he => Multiset.mem_cons_of_mem (h.live e he)) ?_
  intro d'
  simp only [World.hold_held, Multiset.count_cons, withRef, Resource.dmabuf.injEq,
    KPtr.ptr.injEq, @eq_comm _ d' d]
  omega

/-- A reference is dropped. -/
theorem release (h : HandlesCounted w c (withRef base (.ptr d))) :
    HandlesCounted (w.release (.dmabuf d)) c base := by
  refine h.congr rfl (fun _ _ => rfl) ?_ ?_
  · exact fun e he => (Multiset.mem_erase_of_ne (by simp)).mpr (h.live e he)
  · intro d'
    by_cases hd : d' = d
    · subst hd
      have howned := h.owned d'
      rw [withRef, if_pos rfl] at howned
      simp only [World.release_held, Multiset.count_erase_self, withRef, if_pos]
      omega
    · have hne : d ≠ d' := Ne.symm hd
      simp [Multiset.count_erase_of_ne, withRef, hd, hne]

/-- A handle that no entry names is freed. -/
theorem free (h : HandlesCounted w c base) (hp : ∀ e ∈ w.xa c, e.2 ≠ p) :
    HandlesCounted (w.release (.handle p)) c base := by
  refine h.same rfl (fun _ _ => rfl) ?_ ?_
  · intro e he
    refine (Multiset.mem_erase_of_ne ?_).mpr (h.live e he)
    simpa using hp e he
  · intro d
    simp [Multiset.count_erase_of_ne]

/-- A handle that no entry names is written. -/
theorem write (h : HandlesCounted w c base) (hp : ∀ e ∈ w.xa c, e.2 ≠ p) (handle : DmaBufHandle) :
    HandlesCounted (w.setHandle p handle) c base := by
  refine h.same rfl ?_ h.live fun _ => rfl
  intro e he
  simp [World.setHandle, hp e he]

/-- A handle that is not allocated is named by no entry. -/
theorem unnamed (h : HandlesCounted w c base) (hp : .handle p ∉ w.held) :
    ∀ e ∈ w.xa c, e.2 ≠ p := by
  rintro e he rfl
  exact hp (h.live e he)

/-- Different entries have different handles. -/
theorem handle_ne (h : HandlesCounted w c base) {e' : Nat × Nat} (he : e ∈ w.xa c)
    (he' : e' ∈ w.xa c) (hne : e' ≠ e) : e'.2 ≠ e.2 := fun heq =>
  hne (List.inj_on_of_nodup_map h.handles he' he heq)

/-- The tally of a buffer is what the entry that names it counts. -/
theorem tally_eq (h : HandlesCounted w c base) (he : e ∈ w.xa c) (hname : w.named e = .ptr d) :
    tally (w.xa c) w.named w.opened (.ptr d) = w.opened e := by
  rw [← hname]
  exact tally_of_mem h.buffers he

/-- The driver owns a reference to a buffer that has a handle. -/
theorem dmabuf_mem (h : HandlesCounted w c base) (he : e ∈ w.xa c) (hname : w.named e = .ptr d) :
    .dmabuf d ∈ w.held := by
  have hopened := (h.opened e he).1
  rw [← Multiset.count_pos, h.owned d, h.tally_eq he hname, World.opened]
  omega

/-- An entry counts differently, and the driver owns its references accordingly. -/
theorem recount {base' : DmaBuf → Nat} (n : Int) (h : HandlesCounted w c base) (he : e ∈ w.xa c)
    (hxa : w'.xa c = w.xa c)
    (hself : w'.handles e.2 = { w.handles e.2 with handleRefcount := n })
    (hother : ∀ q, q ≠ e.2 → w'.handles q = w.handles q) (hheld : w'.held = w.held)
    (hpos : 0 < n) (hlt : n < 2 ^ 31)
    (hbase : ∀ d, base' d + (if w.named e = .ptr d then n.toNat else 0) =
      base d + if w.named e = .ptr d then w.opened e else 0) :
    HandlesCounted w' c base' := by
  have hothers : ∀ e' ∈ w.xa c, e' ≠ e → w'.handles e'.2 = w.handles e'.2 := fun e' he' hne =>
    hother e'.2 (h.handle_ne he he' hne)
  have hnamed : ∀ e' ∈ w.xa c, w'.named e' = w.named e' := by
    intro e' he'
    by_cases hne : e' = e
    · subst hne
      rw [World.named, hself, World.named]
    · rw [World.named, hothers e' he' hne, World.named]
  have hcount : ∀ e' ∈ w.xa c, e' ≠ e → w'.opened e' = w.opened e' := fun e' he' hne =>
    congrArg (fun handle => handle.handleRefcount.toNat) (hothers e' he' hne)
  refine ⟨by rw [hxa]; exact h.indices, by rw [hxa]; exact h.handles, ?_, ?_, ?_, ?_⟩
  · rw [hxa, List.map_congr_left hnamed]
    exact h.buffers
  · rw [hxa, hheld]
    exact h.live
  · intro e' he'
    rw [hxa] at he'
    by_cases hne : e' = e
    · subst hne
      rw [hself]
      exact ⟨hpos, hlt⟩
    · rw [hothers e' he' hne]
      exact h.opened e' he'
  · intro d
    have hopened : w'.opened e = n.toNat := by rw [World.opened, hself]
    have hbase := hbase d
    rw [hxa, hheld, tally_recount h.buffers he hnamed hcount, hopened, h.owned d]
    by_cases hname : w.named e = .ptr d
    · have htally := h.tally_eq he hname
      rw [if_pos hname] at hbase ⊢
      rw [if_pos hname] at hbase
      omega
    · rw [if_neg hname] at hbase ⊢
      rw [if_neg hname] at hbase
      omega

/-- The handle of a buffer is opened once more. -/
theorem countUp (h : HandlesCounted w c (withRef base (w.named e))) (he : e ∈ w.xa c)
    (hlt : (w.handles e.2).handleRefcount + 1 < 2 ^ 31) :
    HandlesCounted (w.countHandle e.2 1) c base := by
  have hopened := h.opened e he
  have hwrap : wrapInt ((w.handles e.2).handleRefcount + 1) =
      (w.handles e.2).handleRefcount + 1 := wrapInt_of_range (by omega) hlt
  refine h.recount ((w.handles e.2).handleRefcount + 1) he rfl ?_ ?_ rfl (by omega) hlt ?_
  · simp [World.countHandle, World.setHandle, hwrap]
  · intro q hq
    simp [World.countHandle, World.setHandle, hq]
  · intro d
    by_cases hname : w.named e = .ptr d
    · simp only [withRef, if_pos hname, World.opened]
      omega
    · simp only [withRef, if_neg hname]

/-- A handle that stays open is closed once. -/
theorem countDown (h : HandlesCounted w c base) (he : e ∈ w.xa c)
    (hopen : (w.handles e.2).handleRefcount ≠ 1) :
    HandlesCounted (w.countHandle e.2 (-1)) c (withRef base (w.named e)) := by
  have hopened := h.opened e he
  have hwrap : wrapInt ((w.handles e.2).handleRefcount + -1) =
      (w.handles e.2).handleRefcount + -1 := wrapInt_of_range (by omega) (by omega)
  refine h.recount ((w.handles e.2).handleRefcount + -1) he rfl ?_ ?_ rfl (by omega)
    (by omega) ?_
  · simp [World.countHandle, World.setHandle, hwrap]
  · intro q hq
    simp [World.countHandle, World.setHandle, hq]
  · intro d
    by_cases hname : w.named e = .ptr d
    · simp only [withRef, if_pos hname, World.opened]
      omega
    · simp only [withRef, if_neg hname]

/-- An entry is removed, and the references it counted are dropped. -/
theorem erase (h : HandlesCounted w c base) (he : e ∈ w.xa c)
    (hxa : w'.xa c = (w.xa c).filter (·.1 != e.1))
    (hother : ∀ q, q ≠ e.2 → w'.handles q = w.handles q)
    (hlive : ∀ e' ∈ w.xa c, .handle e'.2 ∈ w'.held)
    (hheld : ∀ d, w'.held.count (.dmabuf d) + (if w.named e = .ptr d then w.opened e else 0) =
      w.held.count (.dmabuf d)) : HandlesCounted w' c base := by
  have hkept : ∀ e' ∈ w.xa c, (e'.1 != e.1) = true ↔ e' ≠ e := by
    intro e' he'
    rw [bne_iff_ne]
    refine ⟨fun hne heq => hne (congrArg Prod.fst heq), fun hne heq => hne ?_⟩
    exact List.inj_on_of_nodup_map h.indices he' he heq
  have hsub : ((w.xa c).filter (·.1 != e.1)).Sublist (w.xa c) := List.filter_sublist
  have hothers : ∀ e' ∈ (w.xa c).filter (·.1 != e.1), w'.handles e'.2 = w.handles e'.2 := by
    intro e' he'
    obtain ⟨hmem, hne⟩ := List.mem_filter.mp he'
    exact hother e'.2 (h.handle_ne he hmem ((hkept e' hmem).mp hne))
  have hnamed : ∀ e' ∈ (w.xa c).filter (·.1 != e.1), w'.named e' = w.named e' := fun e' he' =>
    congrArg DmaBufHandle.dmabuf (hothers e' he')
  have hcount : ∀ e' ∈ (w.xa c).filter (·.1 != e.1), w'.opened e' = w.opened e' := fun e' he' =>
    congrArg (fun handle => handle.handleRefcount.toNat) (hothers e' he')
  refine ⟨?_, ?_, ?_, ?_, ?_, ?_⟩
  · rw [hxa]
    exact h.indices.sublist (hsub.map _)
  · rw [hxa]
    exact h.handles.sublist (hsub.map _)
  · rw [hxa, List.map_congr_left hnamed]
    exact h.buffers.sublist (hsub.map _)
  · rw [hxa]
    exact fun e' he' => hlive e' (hsub.mem he')
  · intro e' he'
    rw [hxa] at he'
    rw [hothers e' he']
    exact h.opened e' (hsub.mem he')
  · intro d
    have hheld := hheld d
    rw [h.owned d] at hheld
    rw [hxa, tally_congr hnamed hcount, tally_erase h.buffers he hkept]
    by_cases hname : w.named e = .ptr d
    · have htally := h.tally_eq he hname
      rw [if_pos hname] at hheld ⊢
      omega
    · rw [if_neg hname] at hheld ⊢
      exact hheld

/-- An entry is added for a buffer that no entry names. -/
theorem insert {index : Nat} (h : HandlesCounted w c (withRef base dmabuf))
    (hindex : index ∉ (w.xa c).map (·.1)) (hp : ∀ e ∈ w.xa c, e.2 ≠ p)
    (hname : dmabuf ∉ (w.xa c).map w.named)
    (hxa : w'.xa c = (w.xa c).orderedInsert (·.1 ≤ ·.1) (index, p))
    (hself : w'.handles p = ⟨dmabuf, 1⟩) (hother : ∀ q, q ≠ p → w'.handles q = w.handles q)
    (hlive : .handle p ∈ w.held) (hheld : w'.held = w.held) : HandlesCounted w' c base := by
  have hperm : (w'.xa c).Perm ((index, p) :: w.xa c) := by
    rw [hxa]
    exact List.perm_orderedInsert _ _ _
  have hothers : ∀ e ∈ w.xa c, w'.handles e.2 = w.handles e.2 := fun e he => hother e.2 (hp e he)
  have hnamed : ∀ e ∈ w.xa c, w'.named e = w.named e := fun e he =>
    congrArg DmaBufHandle.dmabuf (hothers e he)
  have hcount : ∀ e ∈ w.xa c, w'.opened e = w.opened e := fun e he =>
    congrArg (fun handle => handle.handleRefcount.toNat) (hothers e he)
  have hnew : w'.named (index, p) = dmabuf := congrArg DmaBufHandle.dmabuf hself
  refine ⟨?_, ?_, ?_, ?_, ?_, ?_⟩
  · exact (hperm.map _).nodup_iff.mpr (List.nodup_cons.mpr ⟨hindex, h.indices⟩)
  · refine (hperm.map _).nodup_iff.mpr (List.nodup_cons.mpr ⟨?_, h.handles⟩)
    intro hmem
    obtain ⟨e, he, heq⟩ := List.mem_map.mp hmem
    exact hp e he heq
  · refine (hperm.map _).nodup_iff.mpr ?_
    rw [List.map_cons, List.map_congr_left hnamed, hnew]
    exact List.nodup_cons.mpr ⟨hname, h.buffers⟩
  · intro e he
    rw [hheld]
    rcases List.mem_cons.mp (hperm.mem_iff.mp he) with rfl | he
    · exact hlive
    · exact h.live e he
  · intro e he
    rcases List.mem_cons.mp (hperm.mem_iff.mp he) with rfl | he
    · rw [hself]
      show (0 : Int) < 1 ∧ (1 : Int) < 2 ^ 31
      decide
    · rw [hothers e he]
      exact h.opened e he
  · intro d
    have hopened : w'.opened (index, p) = 1 := by rw [World.opened, hself]; rfl
    rw [hheld, h.owned d, tally_perm hperm, tally_cons, tally_congr hnamed hcount, hnew, hopened,
      withRef, add_assoc]

end HandlesCounted

/-! ## The handler -/

/-- The handles stay what they are until they are closed, and so does the rest of the context. -/
structure HandlesKept (w w' : World) (c : Nat) : Prop where
  valid : ∀ e ∈ w.xa c, (w'.handles e.2).handleRefcount ≠ 0 →
    e ∈ w'.xa c ∧ w'.named e = w.named e
  rest : (w'.ctxs c).smmuTable = (w.ctxs c).smmuTable ∧
    (w'.ctxs c).resMemArea = (w.ctxs c).resMemArea

theorem HandlesKept.of_eq {b : World} (h : HandlesKept b w c) (hctxs : w'.ctxs = w.ctxs)
    (hhandles : w'.handles = w.handles) : HandlesKept b w' c := by
  refine ⟨fun e he hopen => ?_, by rw [hctxs]; exact h.rest⟩
  rw [hhandles] at hopen
  rw [World.xa, hctxs, World.named, hhandles]
  exact h.valid e he hopen

/-- No handle is opened `2 ^ 31` times. -/
def OpensLeft (w : World) (trace : List (Event HandleCall)) : Prop :=
  ∀ p, (⟨.inr (.atomicInc p), ()⟩ : Event HandleCall) ∈ trace →
    (w.handles p).handleRefcount + 1 < 2 ^ 31

variable {α β : Type} {Q : Post HandleCall World α}

/-- The rule for a call of the rest of the driver. -/
theorem wp_ask [Nonempty β] {request : KCall β} {rest : β → HandleProg α}
    (hnext : ∀ answer w', kernelStep request w answer = some w' →
      wp handleKernel .any (rest answer) (Q.after [⟨.inl request, answer⟩]) w') :
    wp handleKernel .any (ask request >>= rest) Q w :=
  wp_perform_bind.mpr
    ⟨trivial, fun hempty => (not_isEmpty_of_nonempty β hempty).elim,
      fun answer w' => hnext answer w'⟩

/-- The rule for an operation on the handles. -/
theorem wp_op [Nonempty β] {request : HandleOp β} {rest : β → HandleProg α}
    (hnext : ∀ answer w', handleStep request w answer = some w' →
      wp handleKernel .any (rest answer) (Q.after [⟨.inr request, answer⟩]) w') :
    wp handleKernel .any (op request >>= rest) Q w :=
  wp_perform_bind.mpr
    ⟨trivial, fun hempty => (not_isEmpty_of_nonempty β hempty).elim,
      fun answer w' => hnext answer w'⟩

/-- What a request may do to the handles of the context `c`. -/
def CountsFrom (w : World) (c : Nat) (base : DmaBuf → Nat) : Post HandleCall World α :=
  fun trace _ w' => OpensLeft w trace → HandlesCounted w' c base ∧ HandlesKept w w' c

instance : (CountsFrom w c base : Post HandleCall World α).Stable where
  prepend past _ _ _ h hleft := h fun p hp => hleft p (List.mem_append_right past hp)

/-- Neither the contexts nor the handles of the context `c` have changed. -/
structure HandlesSame (w w' : World) (c : Nat) : Prop where
  ctxs : w'.ctxs = w.ctxs
  handles : ∀ e ∈ w.xa c, w'.handles e.2 = w.handles e.2

namespace HandlesSame

theorem refl (w : World) (c : Nat) : HandlesSame w w c := ⟨rfl, fun _ _ => rfl⟩

theorem xa (h : HandlesSame w w' c) : w'.xa c = w.xa c := by
  rw [World.xa, h.ctxs, World.xa]

theorem named (h : HandlesSame w w' c) (he : e ∈ w.xa c) : w'.named e = w.named e :=
  congrArg DmaBufHandle.dmabuf (h.handles e he)

theorem trans {w'' : World} (h : HandlesSame w w' c) (h' : HandlesSame w' w'' c) :
    HandlesSame w w'' c := by
  refine ⟨h'.ctxs.trans h.ctxs, fun e he => ?_⟩
  rw [h'.handles e (by rwa [h.xa]), h.handles e he]

theorem kept (h : HandlesSame w w' c) : HandlesKept w w' c := by
  refine ⟨fun e he _ => ⟨by rwa [h.xa], h.named he⟩, ?_⟩
  rw [h.ctxs]
  exact ⟨rfl, rfl⟩

end HandlesSame

/-- Counting a handle does not change what it names. -/
theorem countHandle_named (w : World) (p : Nat) (n : Int) (e : Nat × Nat) :
    (w.countHandle p n).named e = w.named e := by
  by_cases he : e.2 = p
  · simp [World.countHandle, World.setHandle, World.named, he]
  · simp [World.countHandle, World.setHandle, World.named, he]

/-- The count of a handle changes. -/
theorem HandlesSame.count {b : World} (h : HandlesSame b w c) (p : Nat) (n : Int) :
    HandlesKept b (w.countHandle p n) c := by
  refine ⟨fun e he _ => ⟨?_, ?_⟩, h.kept.rest⟩
  · rw [show (w.countHandle p n).xa c = w.xa c from rfl, h.xa]
    exact he
  · rw [countHandle_named, h.named he]

theorem withRef_of_not_ptr (h : ∀ d, dmabuf ≠ .ptr d) : withRef base dmabuf = base := by
  funext d
  rw [withRef, if_neg (h d), add_zero]

/-- `dma_buf_put` drops the reference of the buffer. -/
theorem putBuffer_drops (h : HandlesCounted w c (withRef base dmabuf)) :
    wp handleKernel .any (putBuffer dmabuf)
      (fun _ _ w' => HandlesCounted w' c base ∧ HandlesSame w w' c) w := by
  have hoops : (∀ d, dmabuf ≠ .ptr d) → wp handleKernel .any (ask .oops >>= Empty.elim)
      (fun _ (_ : Option Unit) w' => HandlesCounted w' c base ∧ HandlesSame w w' c) w := by
    intro hdmabuf
    rw [withRef_of_not_ptr hdmabuf] at h
    exact wp_perform_bind.mpr ⟨trivial, fun _ => ⟨h, .refl w c⟩, fun answer => answer.elim⟩
  cases dmabuf with
  | null => exact hoops fun _ => nofun
  | err e => exact hoops fun _ => nofun
  | ptr d =>
      refine wp_perform.mpr ⟨trivial, fun hempty => (hempty.false ()).elim, ?_⟩
      rintro ⟨⟩ w' hstep
      cases hstep
      exact ⟨h.release, rfl, fun _ _ => rfl⟩

/-- The answer to a read of a handle that is allocated. -/
theorem readHandle_step {entry : DmaBufHandle}
    (hstep : kernelStep (.readHandle p) w entry = some w')
    (hp : .handle p ∈ w.held) : entry = w.handles p ∧ w' = w := by
  simp only [kernelStep] at hstep
  split at hstep
  · rename_i hread
    cases hstep
    exact ⟨hread hp, rfl⟩
  · cases hstep

/-- The loop of FD_TO_HANDLE opens the handle of the buffer, if there is one. -/
theorem findHandle_finds {l : List (Nat × Nat)} (hl : ∀ e ∈ l, e ∈ w.xa c)
    (hlive : ∀ e ∈ w.xa c, .handle e.2 ∈ w.held) :
    wp handleKernel .any (findHandle dmabuf l) (fun trace result w' =>
      (result = some none ∧ w' = w ∧ ∀ e ∈ l, w.named e ≠ dmabuf) ∨
      ∃ e ∈ w.xa c, result = some (some (.ofNat 32 e.1)) ∧ w.named e = dmabuf ∧
        w' = w.countHandle e.2 1 ∧ ⟨.inr (.atomicInc e.2), ()⟩ ∈ trace) w := by
  induction l with
  | nil => exact wp_pure.mpr (.inl ⟨rfl, rfl, by simp⟩)
  | cons e l ih =>
      obtain ⟨index, p⟩ := e
      have he : (index, p) ∈ w.xa c := hl _ List.mem_cons_self
      refine wp_ask fun entry w₁ hstep => ?_
      obtain ⟨rfl, rfl⟩ := readHandle_step hstep (hlive _ he)
      split
      · rename_i hname
        refine wp_op fun _ w₂ hstep => ?_
        cases hstep
        exact wp_pure.mpr (.inr ⟨_, he, rfl, hname, rfl, by simp⟩)
      · rename_i hname
        refine wp_mono (ih fun e he => hl e (List.mem_cons_of_mem _ he)) ?_
        rintro trace result w' (⟨hresult, hw, hnames⟩ | ⟨e, he, hresult, hfound, hw, hinc⟩)
        · refine .inl ⟨hresult, hw, ?_⟩
          intro e he
          rcases List.mem_cons.mp he with rfl | he
          · exact hname
          · exact hnames e he
        · exact .inr ⟨e, he, hresult, hfound, hw, List.mem_cons_of_mem _ hinc⟩

/-- Giving a new handle an index. -/
theorem allocIndex_counts {b : World} (h : HandlesCounted w c (withRef base dmabuf))
    (hsame : HandlesSame b w c) (hname : dmabuf ∉ (w.xa c).map w.named)
    (hunnamed : ∀ e ∈ w.xa c, e.2 ≠ p) (hself : w.handles p = ⟨dmabuf, 1⟩)
    (hlive : .handle p ∈ w.held) :
    wp handleKernel .any (allocIndex c p dmabuf) (CountsFrom b c base) w := by
  refine wp_op fun allocated w₁ hstep => ?_
  cases allocated with
  | error err =>
      simp only [handleStep] at hstep
      split at hstep <;> cases hstep
      refine wp_after (wp_then (putBuffer_drops h) ?_ ?_)
      · rintro _ _ w₂ ⟨h₂, hsame₂⟩
        refine wp_ask fun _ w₃ hstep => ?_
        cases hstep
        have hfreed : HandlesSame w₂ (w₂.release (.handle p)) c := ⟨rfl, fun _ _ => rfl⟩
        refine wp_pure.mpr fun _ => ⟨h₂.free ?_, ((hsame.trans hsame₂).trans hfreed).kept⟩
        rw [hsame₂.xa]
        exact hunnamed
      · rintro _ w₂ ⟨h₂, hsame₂⟩ _
        exact ⟨h₂, (hsame.trans hsame₂).kept⟩
  | ok index =>
      simp only [handleStep] at hstep
      split at hstep <;> cases hstep
      rename_i hindex
      have hxa : (w.setCtx c fun k =>
          { k with kiumdXa := k.kiumdXa.orderedInsert (·.1 ≤ ·.1) (index.toNat, p) }).xa c =
            (w.xa c).orderedInsert (·.1 ≤ ·.1) (index.toNat, p) := by
        simp [World.xa]
      refine wp_pure.mpr fun _ => ⟨?_, fun e he _ => ⟨?_, hsame.named he⟩, ?_⟩
      · exact h.insert hindex hunnamed hname hxa hself (fun _ _ => rfl) hlive rfl
      · rw [hxa, (List.perm_orderedInsert _ _ _).mem_iff, hsame.xa]
        exact List.mem_cons_of_mem _ he
      · rw [World.setCtx_ctxs_self, hsame.ctxs]
        exact ⟨rfl, rfl⟩

/-- Making a handle for a buffer that has none. -/
theorem makeHandle_counts {b : World} (h : HandlesCounted w c (withRef base dmabuf))
    (hsame : HandlesSame b w c) (hname : dmabuf ∉ (w.xa c).map w.named) :
    wp handleKernel .any (makeHandle c dmabuf) (CountsFrom b c base) w := by
  unfold makeHandle
  refine wp_op fun found w₁ hstep => ?_
  cases found with
  | none =>
      cases hstep
      refine wp_after (wp_then (putBuffer_drops h) ?_ ?_)
      · rintro _ _ w₂ ⟨h₂, hsame₂⟩
        exact wp_pure.mpr fun _ => ⟨h₂, (hsame.trans hsame₂).kept⟩
      · rintro _ w₂ ⟨h₂, hsame₂⟩ _
        exact ⟨h₂, (hsame.trans hsame₂).kept⟩
  | some p =>
  simp only [handleStep] at hstep
  split at hstep <;> cases hstep
  rename_i hp
  have hunnamed := h.unnamed hp
  have hheld : HandlesCounted (w.hold (.handle p)) c (withRef base dmabuf) := by
    refine h.same rfl (fun _ _ => rfl) (fun e he => Multiset.mem_cons_of_mem (h.live e he)) ?_
    intro d
    exact Multiset.count_cons_of_ne (by simp) _
  have hwritten {handle : DmaBufHandle} {w' : World} (hw' : HandlesSame w w' c) :
      HandlesSame w (w'.setHandle p handle) c := by
    refine hw'.trans ⟨rfl, fun e he => ?_⟩
    have hne := hunnamed e (hw'.xa ▸ he)
    simp [World.setHandle, hne]
  refine wp_after (wp_op fun _ w₂ hstep => ?_)
  cases hstep
  have hsame₂ : HandlesSame w
      (((w.hold (.handle p)).setHandle p ⟨.null, 0⟩).setHandle p ⟨dmabuf, 1⟩) c :=
    hwritten (hwritten ⟨rfl, fun _ _ => rfl⟩)
  refine wp_after (allocIndex_counts ?_ (hsame.trans hsame₂) ?_ hunnamed ?_ ?_)
  · exact (hheld.write hunnamed ⟨.null, 0⟩).write hunnamed ⟨dmabuf, 1⟩
  · rw [hsame₂.xa, List.map_congr_left fun e he => hsame₂.named he]
    exact hname
  · simp [World.setHandle]
  · exact Multiset.mem_cons_self _ _

/-- FD_TO_HANDLE opens a handle with the reference it takes. -/
theorem fdToHandle_counts {kiusr : KiumdUser} {b : World} (h : HandlesCounted w c base)
    (hsame : HandlesSame b w c) (hhandles : w.handles = b.handles) :
    wp handleKernel .any (fdToHandle c kiusr) (CountsFrom b c base) w := by
  unfold fdToHandle
  split
  · exact wp_pure.mpr fun _ => ⟨h, hsame.kept⟩
  refine wp_ask fun dmabuf w₁ hstep => wp_after ?_
  have hgot : HandlesCounted w₁ c (withRef base dmabuf) ∧ HandlesSame w w₁ c ∧
      w₁.handles = w.handles := by
    cases dmabuf with
    | null =>
        cases hstep
        rw [withRef_of_not_ptr (by simp)]
        exact ⟨h, .refl w c, rfl⟩
    | err e =>
        simp only [kernelStep] at hstep
        split at hstep <;> cases hstep
        rw [withRef_of_not_ptr (by simp)]
        exact ⟨h, .refl w c, rfl⟩
    | ptr d =>
        cases hstep
        exact ⟨h.hold, ⟨rfl, fun _ _ => rfl⟩, rfl⟩
  obtain ⟨h₁, hsame₁, hhandles₁⟩ := hgot
  have hkept := hsame.trans hsame₁
  split
  · rename_i hnull
    rw [hnull, withRef_of_not_ptr (by simp)] at h₁
    exact wp_pure.mpr fun _ => ⟨h₁, hkept.kept⟩
  refine wp_op fun entries w₂ hstep => wp_after ?_
  simp only [handleStep] at hstep
  split at hstep <;> cases hstep
  rename_i hentries
  subst hentries
  rw [wp_bind]
  refine wp_mono (findHandle_finds (fun e he => he) h₁.live) ?_
  rintro trace result w₃ (⟨rfl, rfl, hnames⟩ | ⟨e, he, rfl, rfl, rfl, hinc⟩)
  · have hname : dmabuf ∉ (w₃.xa c).map w₃.named := by
      intro hmem
      obtain ⟨e, he, heq⟩ := List.mem_map.mp hmem
      exact hnames e he heq
    refine wp_after ?_
    rw [wp_bind]
    refine wp_mono (makeHandle_counts h₁ hkept hname) ?_
    intro trace' result w₄ hcounts
    cases result with
    | none => exact hcounts
    | some made =>
        cases made <;> exact wp_pure.mpr fun hleft =>
          hcounts fun p hp => hleft p (List.mem_append_left _ hp)
  · refine wp_pure.mpr fun hleft => ⟨h₁.countUp he ?_, hkept.count e.2 1⟩
    rw [hhandles₁, hhandles]
    exact hleft e.2 (List.mem_append_left _ hinc)

/-- The entry that `xa_load` finds. -/
theorem xaLoad_step {index : U32} (hstep : handleStep (.xaLoad c index) w (some p) = some w') :
    w' = w ∧ (index.toNat, p) ∈ w.xa c := by
  simp only [handleStep] at hstep
  split at hstep <;> cases hstep
  rename_i hfound
  obtain ⟨⟨i, q⟩, hfind, rfl⟩ := Option.map_eq_some_iff.mp hfound.symm
  refine ⟨rfl, ?_⟩
  have hi : i = index.toNat := by simpa using List.find?_some hfind
  rw [← hi]
  exact List.mem_of_find?_eq_some hfind

/-- HANDLE_TO_FD hands a reference over to the descriptor and takes a new one. -/
theorem handleToFd_counts {kiusr : KiumdUser} {b : World} (h : HandlesCounted w c base)
    (hsame : HandlesSame b w c) :
    wp handleKernel .any (handleToFd c kiusr) (CountsFrom b c base) w := by
  have hrefused : ∀ (reply : Except Int KiumdUser), wp handleKernel .any (pure reply)
      (CountsFrom b c base) w := fun _ => wp_pure.mpr fun _ => ⟨h, hsame.kept⟩
  refine wp_op fun found w₁ hstep => wp_after ?_
  cases found with
  | none =>
      simp only [handleStep] at hstep
      split at hstep <;> cases hstep
      exact hrefused _
  | some p =>
  obtain ⟨rfl, he⟩ := xaLoad_step hstep
  refine wp_ask fun handle w₂ hstep => wp_after ?_
  obtain ⟨rfl, rfl⟩ := readHandle_step hstep (h.live _ he)
  split
  · rename_i d hname
    refine wp_op fun fd w₃ hstep => wp_after ?_
    cases hstep
    split
    · rename_i hneg
      rw [if_neg (not_le.mpr hneg)]
      exact hrefused _
    · rename_i hnonneg
      rw [if_pos (not_lt.mp hnonneg)]
      refine wp_op fun _ w₄ hstep => wp_after ?_
      cases hstep
      -- the reference handed over is the one taken anew
      have hmem : .dmabuf d ∈ w₂.held := h.dmabuf_mem he hname
      have hback : (w₂.release (.dmabuf d)).hold (.dmabuf d) = w₂ := by
        simp [World.hold, World.release, Multiset.cons_erase hmem]
      rw [hback]
      exact hrefused _
  · exact hrefused _

/-- The state after `putReal`. -/
def World.putRef (w : World) : KPtr DmaBuf → World
  | .ptr d => w.release (.dmabuf d)
  | _ => w

theorem HandlesSame.putRef (w : World) (c : Nat) (dmabuf : KPtr DmaBuf) :
    HandlesSame w (w.putRef dmabuf) c := by
  cases dmabuf <;> exact ⟨rfl, fun _ _ => rfl⟩

theorem HandlesCounted.putRef (h : HandlesCounted w c (withRef base dmabuf)) :
    HandlesCounted (w.putRef dmabuf) c base := by
  cases dmabuf with
  | ptr d => exact h.release
  | null | err =>
      rw [withRef_of_not_ptr (by simp)] at h
      exact h

/-- What is held after `putReal`. -/
theorem putRef_count (d : DmaBuf) (hmem : ∀ d, dmabuf = .ptr d → .dmabuf d ∈ w.held) :
    (w.putRef dmabuf).held.count (.dmabuf d) + (if dmabuf = .ptr d then 1 else 0) =
      w.held.count (.dmabuf d) := by
  cases dmabuf with
  | null | err => simp [World.putRef]
  | ptr d' =>
      by_cases hd : d' = d
      · subst hd
        have hpos := Multiset.count_pos.mpr (hmem d' rfl)
        simp only [World.putRef, World.release_held, Multiset.count_erase_self, if_pos]
        omega
      · have hne : Resource.dmabuf d ≠ .dmabuf d' := by simpa using Ne.symm hd
        simp [World.putRef, Multiset.count_erase_of_ne hne, hd]

theorem putRef_ctxs (w : World) (dmabuf : KPtr DmaBuf) : (w.putRef dmabuf).ctxs = w.ctxs := by
  cases dmabuf <;> rfl

theorem putRef_handles (w : World) (dmabuf : KPtr DmaBuf) :
    (w.putRef dmabuf).handles = w.handles := by
  cases dmabuf <;> rfl

theorem putRef_live (h : .handle p ∈ w.held) : .handle p ∈ (w.putRef dmabuf).held := by
  cases dmabuf with
  | null | err => exact h
  | ptr d => exact (Multiset.mem_erase_of_ne (by simp)).mpr h

theorem putReal_puts {rest : Unit → HandleProg α} [Q.Stable]
    (hnext : wp handleKernel .any (rest ()) Q (w.putRef dmabuf)) :
    wp handleKernel .any (putReal dmabuf >>= rest) Q w := by
  cases dmabuf with
  | null | err => exact hnext
  | ptr d =>
      refine wp_ask fun _ w₁ hstep => wp_after ?_
      cases hstep
      exact hnext

/-- The last open of a handle is closed. -/
theorem closed_counts {b : World} (h : HandlesCounted w c base) (hsame : HandlesSame b w c)
    {index : U32} (he : (index.toNat, p) ∈ w.xa c) (hone : (w.handles p).handleRefcount = 1) :
    HandlesCounted (((w.countHandle p (-1)).putRef (w.handles p).dmabuf).setCtx c fun k =>
        { k with kiumdXa := k.kiumdXa.filter (·.1 != index.toNat) }) c base ∧
      HandlesKept b (((w.countHandle p (-1)).putRef (w.handles p).dmabuf).setCtx c fun k =>
        { k with kiumdXa := k.kiumdXa.filter (·.1 != index.toNat) }) c := by
  have hctxs : ((w.countHandle p (-1)).putRef (w.handles p).dmabuf).ctxs = w.ctxs :=
    putRef_ctxs _ _
  have hhandles := putRef_handles (w.countHandle p (-1)) (w.handles p).dmabuf
  generalize hw' : (w.countHandle p (-1)).putRef (w.handles p).dmabuf = w' at hctxs hhandles ⊢
  have hxa : (w'.setCtx c fun k =>
      { k with kiumdXa := k.kiumdXa.filter (·.1 != index.toNat) }).xa c =
        (w.xa c).filter (·.1 != index.toNat) := by
    simp [World.xa, hctxs]
  have hzero : (w'.handles p).handleRefcount = 0 := by
    rw [hhandles]
    simp [World.countHandle, World.setHandle, hone, wrapInt]
  refine ⟨h.erase he hxa ?_ ?_ ?_, ?_, ?_⟩
  · intro q hq
    show w'.handles q = w.handles q
    rw [hhandles]
    simp [World.countHandle, World.setHandle, show q ≠ p from hq]
  · intro e' he'
    show Resource.handle e'.2 ∈ w'.held
    rw [← hw']
    exact putRef_live (h.live e' he')
  · intro d
    have hopened : w.opened (index.toNat, p) = 1 := by
      rw [World.opened, hone]
      rfl
    rw [hopened]
    show w'.held.count (.dmabuf d) + _ = _
    rw [← hw']
    exact putRef_count d fun d hname => h.dmabuf_mem he hname
  · intro e' he' hopen
    rw [← hsame.xa] at he'
    refine ⟨?_, ?_⟩
    · rw [hxa]
      refine List.mem_filter.mpr ⟨he', ?_⟩
      rw [bne_iff_ne]
      intro heq
      have hentry : e' = (index.toNat, p) := List.inj_on_of_nodup_map h.indices he' he heq
      rw [hentry] at hopen
      exact hopen hzero
    · rw [hsame.xa] at he'
      rw [← hsame.named he', ← countHandle_named w p (-1) e']
      show (w'.handles e'.2).dmabuf = _
      rw [hhandles]
      rfl
  · simp [hctxs, hsame.ctxs]

/-- CLOSE_HANDLE drops a reference with an open. -/
theorem closeHandle_counts {kiusr : KiumdUser} {b : World} (h : HandlesCounted w c base)
    (hsame : HandlesSame b w c) :
    wp handleKernel .any (closeHandle c kiusr) (CountsFrom b c base) w := by
  refine wp_op fun found w₁ hstep => wp_after ?_
  cases found with
  | none =>
      simp only [handleStep] at hstep
      split at hstep <;> cases hstep
      exact wp_pure.mpr fun _ => ⟨h, hsame.kept⟩
  | some p =>
  obtain ⟨rfl, he⟩ := xaLoad_step hstep
  refine wp_ask fun handle w₂ hstep => wp_after ?_
  obtain ⟨rfl, rfl⟩ := readHandle_step hstep (h.live _ he)
  have hopened : 0 < (w₂.handles p).handleRefcount ∧ (w₂.handles p).handleRefcount < 2 ^ 31 :=
    h.opened _ he
  have hwrap : wrapInt ((w₂.handles p).handleRefcount + -1) =
      (w₂.handles p).handleRefcount + -1 := wrapInt_of_range (by omega) (by omega)
  have hcount : ((w₂.countHandle p (-1)).handles p).handleRefcount =
      (w₂.handles p).handleRefcount + -1 := by
    simp [World.countHandle, World.setHandle, hwrap]
  refine wp_op fun zero w₃ hstep => wp_after ?_
  simp only [handleStep] at hstep
  split at hstep <;> cases hstep
  rename_i hzero
  rw [hcount] at hzero
  split
  · rename_i hlast
    have hone : (w₂.handles p).handleRefcount = 1 := by
      rw [hzero, decide_eq_true_eq] at hlast
      omega
    refine putReal_puts (wp_op fun _ w₄ hstep => wp_after ?_)
    cases hstep
    refine wp_pure.mpr fun _ => closed_counts h hsame he hone
  · rename_i hlast
    have hne : (w₂.handles p).handleRefcount ≠ 1 := by
      intro heq
      simp [hzero, heq] at hlast
    refine putReal_puts (wp_pure.mpr fun _ => ⟨(h.countDown he hne).putRef, ?_⟩)
    have hkept : HandlesKept b (w₂.countHandle p (-1)) c := hsame.count p (-1)
    exact hkept.of_eq (putRef_ctxs _ _) (putRef_handles _ _)

/-- Every request keeps the handles counted. -/
theorem kiumdFdDmabufHandler_counts {kiusr : KiumdUser} (h : HandlesCounted w c base) :
    wp handleKernel .any (kiumdFdDmabufHandler kiusr (some c)) (CountsFrom w c base) w := by
  have hsame := HandlesSame.refl w c
  have hbranch : wp handleKernel .any (handleBranch c kiusr) (CountsFrom w c base) w := by
    unfold handleBranch
    split
    · exact fdToHandle_counts h hsame rfl
    split
    · exact handleToFd_counts h hsame
    split
    · exact closeHandle_counts h hsame
    · exact wp_pure.mpr fun _ => ⟨h, hsame.kept⟩
  refine wp_ask fun copied w₁ hstep => wp_after ?_
  cases hstep
  split
  · exact wp_pure.mpr fun _ => ⟨h, hsame.kept⟩
  rw [wp_bind]
  refine wp_mono hbranch ?_
  intro trace result w₂ hcounts
  cases result with
  | none => exact hcounts
  | some reply =>
  have hend : ∀ trace', OpensLeft w (trace ++ trace') →
      HandlesCounted w₂ c base ∧ HandlesKept w w₂ c := fun trace' hleft =>
    hcounts fun p hp => hleft p (List.mem_append_left _ hp)
  cases reply with
  | error err => exact wp_pure.mpr fun hleft => hend _ hleft
  | ok reply =>
      refine wp_ask fun copied w₃ hstep => ?_
      cases hstep
      split <;> exact wp_pure.mpr fun hleft => hend _ hleft

/-! ## Closing the context -/

/-- The references left while the handles of `l` have not been released. -/
structure HandlesLeft (w b : World) (base : DmaBuf → Nat) (l : List (Nat × Nat)) : Prop where
  handles : w.handles = b.handles
  live : ∀ e ∈ l, .handle e.2 ∈ w.held
  owned : ∀ d, w.held.count (.dmabuf d) = base d + tally l b.named b.opened (.ptr d)

/-- The references to `d` have become `n` fewer, and nothing else has changed for the handles. -/
structure Drops (w w' : World) (dmabuf : KPtr DmaBuf) (n : Nat) : Prop where
  handles : w'.handles = w.handles
  live : ∀ p, .handle p ∈ w.held → .handle p ∈ w'.held
  owned : ∀ d, w'.held.count (.dmabuf d) =
    w.held.count (.dmabuf d) - if dmabuf = .ptr d then n else 0

theorem putTimes_drops {n : Nat} :
    wp kernel .any (putTimes d n) (fun _ result w' => result = some () ∧ Drops w w' (.ptr d) n)
      w := by
  induction n generalizing w with
  | zero => exact wp_pure.mpr ⟨rfl, rfl, fun _ h => h, by simp⟩
  | succ n ih =>
      refine wp_step ?_
      rintro ⟨⟩ w₁ hstep
      cases hstep
      refine wp_mono ih ?_
      rintro _ _ w₂ ⟨hresult, hdrops⟩
      refine ⟨hresult, hdrops.handles, ?_, ?_⟩
      · intro p hp
        exact hdrops.live p ((Multiset.mem_erase_of_ne (by simp)).mpr hp)
      · intro d'
        rw [hdrops.owned d']
        by_cases hd : d' = d
        · subst hd
          simp only [World.release_held, Multiset.count_erase_self, if_pos]
          omega
        · have hne : Resource.dmabuf d' ≠ .dmabuf d := by simpa using hd
          simp [Multiset.count_erase_of_ne hne, Ne.symm hd]

theorem putHandle_drops {handle : DmaBufHandle} :
    wp kernel .any (putHandle handle) (fun _ result w' => result = some () ∧
      Drops w w' handle.dmabuf handle.handleRefcount.toNat) w := by
  unfold putHandle
  split
  · rename_i d hname
    rw [hname]
    exact putTimes_drops
  · rename_i hname
    have hnot : ∀ d, handle.dmabuf ≠ .ptr d := fun d heq => hname d heq
    exact wp_pure.mpr ⟨rfl, rfl, fun _ h => h, fun d => by simp [hnot d]⟩

/-- The code returned and left the references of `base`. -/
def Drained (base : DmaBuf → Nat) (value : α) : Post KCall World α :=
  fun _ result w' => result = some value ∧ ∀ d, w'.held.count (.dmabuf d) = base d

instance (base : DmaBuf → Nat) (value : α) : (Drained base value).Stable := ⟨fun _ _ _ _ h => h⟩

/-- The loop of `kiumd_close` over the xarray drops all references. -/
theorem closeHandles_drops {b : World} {l : List (Nat × Nat)} (h : HandlesLeft w b base l)
    (hnodup : (l.map (·.2)).Nodup) :
    wp kernel .any (closeHandles l) (Drained base ()) w := by
  induction l generalizing w with
  | nil => exact wp_pure.mpr ⟨rfl, fun d => by simpa using h.owned d⟩
  | cons e l ih =>
      obtain ⟨index, p⟩ := e
      rw [List.map_cons, List.nodup_cons] at hnodup
      refine wp_step ?_
      intro handle w₁ hstep
      obtain ⟨rfl, rfl⟩ := readHandle_step hstep (h.live _ List.mem_cons_self)
      refine wp_after (wp_then putHandle_drops ?_ fun _ _ h => by cases h.1)
      rintro _ _ w₂ ⟨_, hdrops⟩
      refine wp_step ?_
      rintro ⟨⟩ w₃ hstep
      cases hstep
      refine wp_after (ih ⟨?_, ?_, ?_⟩ hnodup.2)
      · exact hdrops.handles.trans h.handles
      · intro e he
        have hne : e.2 ≠ p := fun heq => hnodup.1 (List.mem_map.mpr ⟨e, he, heq⟩)
        refine (Multiset.mem_erase_of_ne (by simpa using hne)).mpr ?_
        exact hdrops.live _ (h.live e (List.mem_cons_of_mem _ he))
      · intro d
        have howned := h.owned d
        rw [tally_cons, World.named, World.opened, ← h.handles] at howned
        dsimp only at howned
        rw [World.release_held, Multiset.count_erase_of_ne (by simp), hdrops.owned d, howned]
        omega

theorem closeXarray_drops (h : HandlesCounted w c base) :
    wp kernel .any (closeXarray c (w.xa c)) (Drained base ()) w := by
  unfold closeXarray
  split
  · refine wp_then (closeHandles_drops ⟨rfl, h.live, h.owned⟩ h.handles) ?_ ?_
    · rintro _ _ w₁ ⟨_, hdropped⟩
      refine wp_perform.mpr ⟨trivial, fun hempty => (hempty.false ()).elim, ?_⟩
      rintro ⟨⟩ w₂ hstep
      cases hstep
      exact ⟨rfl, hdropped⟩
    · rintro _ w₁ ⟨hresult, _⟩
      cases hresult
  · rename_i hempty
    have hnil : w.xa c = [] := by simpa using hempty
    refine wp_pure.mpr ⟨rfl, fun d => ?_⟩
    simpa [hnil] using h.owned d

/-- The rule for closing a context that has no mappings and no reserved regions. -/
theorem kiumdClose_unmapped {Q : Post KCall World Int} [Q.Stable]
    (htable : (w.ctxs c).smmuTable = []) (hresMem : (w.ctxs c).resMemArea = none)
    (hrest : wp kernel .any (closeXarray c (w.xa c) >>= fun _ => do
      Program.perform (.kfreeCtx c)
      return (0 : Int)) Q w) :
    wp kernel .any (kiumdClose (some c)) Q w := by
  refine wp_step ?_
  intro entries w₁ hstep
  simp only [kernelStep, htable] at hstep
  split at hstep <;> cases hstep
  rename_i hperm
  obtain rfl := hperm.eq_nil
  refine wp_after (wp_step ?_)
  intro kictx w₂ hstep
  simp only [kernelStep] at hstep
  split at hstep <;> cases hstep
  rename_i hkictx
  subst hkictx
  rw [hresMem]
  exact wp_after hrest

/-- Closing a context without entries drops the references of its handles. -/
theorem kiumdClose_drops (h : HandlesCounted w c base) (htable : (w.ctxs c).smmuTable = [])
    (hresMem : (w.ctxs c).resMemArea = none) :
    wp kernel .any (kiumdClose (some c)) (Drained base 0) w := by
  refine kiumdClose_unmapped htable hresMem ?_
  refine wp_then (closeXarray_drops h) ?_ fun _ _ hnone => by cases hnone.1
  rintro _ _ w₃ ⟨_, hdropped⟩
  refine wp_step ?_
  rintro ⟨⟩ w₄ hstep
  cases hstep
  refine wp_pure.mpr ⟨rfl, fun d => ?_⟩
  rw [World.release_held, Multiset.count_erase_of_ne (by simp), hdropped d]

/-! ## Runs -/

/-- The request opens no handle `2 ^ 31` times. -/
def OpensCounted : Admission KiumdUser HandleCall World := fun _ _ w trace => OpensLeft w trace

/-- The context owns exactly the references that its handles count: a buffer has at most one
handle, each handle has been opened, and besides `base` the driver owns as many references to a
buffer as its handle counts, or none if it has no handle. -/
structure OwnsOpened (w : World) (c : Nat) (base : DmaBuf → Nat) : Prop where
  unique : ∀ e ∈ w.xa c, ∀ e' ∈ w.xa c, ∀ d, w.named e = .ptr d → w.named e' = .ptr d → e = e'
  opened : ∀ e ∈ w.xa c, 0 < (w.handles e.2).handleRefcount
  owned : ∀ e ∈ w.xa c, ∀ d, w.named e = .ptr d →
    (w.held.count (.dmabuf d) : Int) = base d + (w.handles e.2).handleRefcount
  unowned : ∀ d, (∀ e ∈ w.xa c, w.named e ≠ .ptr d) → w.held.count (.dmabuf d) = base d

theorem HandlesCounted.ownsOpened (h : HandlesCounted w c base) : OwnsOpened w c base := by
  refine ⟨?_, fun e he => (h.opened e he).1, ?_, ?_⟩
  · intro e he e' he' d hname hname'
    exact List.inj_on_of_nodup_map h.buffers he he' (hname.trans hname'.symm)
  · intro e he d hname
    have hopened := (h.opened e he).1
    rw [h.owned d, h.tally_eq he hname, World.opened]
    omega
  · intro d hnot
    have hname : KPtr.ptr d ∉ (w.xa c).map w.named := by
      intro hmem
      obtain ⟨e, he, heq⟩ := List.mem_map.mp hmem
      exact hnot e he heq
    rw [h.owned d, tally_of_notMem hname, add_zero]

variable {w₀ : World} {history : History KiumdUser HandleCall}

/-- The references to a buffer that the driver owns. -/
def World.refs (w : World) (d : DmaBuf) : Nat := w.held.count (.dmabuf d)

theorem run_handlesCounted (hstart : w₀.ctxs c = {})
    (h : Run handleKernel (fun kiusr => kiumdFdDmabufHandler kiusr (some c)) OpensCounted w₀
      history w) :
    HandlesCounted w c w₀.refs ∧ (w.ctxs c).smmuTable = [] ∧ (w.ctxs c).resMemArea = none := by
  refine h.invariant (fun _ w => HandlesCounted w c w₀.refs ∧ (w.ctxs c).smmuTable = [] ∧
    (w.ctxs c).resMemArea = none) ?_ ?_
  · have hxa : w₀.xa c = [] := by rw [World.xa, hstart]
    refine ⟨?_, by rw [hstart], by rw [hstart]⟩
    constructor <;> simp [hxa, World.refs]
  · rintro history kiusr w ⟨hcounted, htable, hresMem⟩
    refine wp_mono (kiumdFdDmabufHandler_counts hcounted) ?_
    intro trace _ w' hcounts hleft
    obtain ⟨hcounted', hkept⟩ := hcounts hleft
    exact ⟨hcounted', hkept.rest.1.trans htable, hkept.rest.2.trans hresMem⟩

/-- In every run of requests on a new context that opens no handle `2 ^ 31` times, the context
owns exactly the references its handles count; a request leaves every handle valid whose count it
does not bring to zero; and closing the context drops all its references. -/
theorem handle_run_counts_references (hstart : w₀.ctxs c = {})
    (h : Run handleKernel (fun kiusr => kiumdFdDmabufHandler kiusr (some c)) OpensCounted w₀
      history w) :
    OwnsOpened w c w₀.refs ∧
    (∀ kiusr trace result w', Exec handleKernel (kiumdFdDmabufHandler kiusr (some c)) w trace
      result w' → OpensCounted history kiusr w trace → HandlesKept w w' c) ∧
    ∀ trace result w', Exec kernel (kiumdClose (some c)) w trace result w' →
      result = some 0 ∧ ∀ d, w'.refs d = w₀.refs d := by
  obtain ⟨hcounted, htable, hresMem⟩ := run_handlesCounted hstart h
  refine ⟨hcounted.ownsOpened, ?_, ?_⟩
  · intro kiusr trace result w' hexec hleft
    exact (wp_exec (kiumdFdDmabufHandler_counts hcounted) hexec hleft).2
  · intro trace result w' hexec
    exact wp_exec (kiumdClose_drops hcounted htable hresMem) hexec

/-- A buffer. -/
def oneBuffer : DmaBuf := ⟨0, 0x1000, [⟨0x4000, 0x1000⟩]⟩

/-- A context with one handle, which has been opened once. -/
def oneHandle : World :=
  ((((World.initial.hold (.dmabuf oneBuffer)).hold (.handle 0)).setHandle 0 ⟨.null, 0⟩).setHandle 0
    ⟨.ptr oneBuffer, 1⟩).setCtx 0 fun k =>
      { k with kiumdXa := k.kiumdXa.orderedInsert (·.1 ≤ ·.1) ((0 : U32).toNat, 0) }

/-- A request for a handle. -/
def openRequest : KiumdUser := { plainUser with handle := .ofInt 32 FD_TO_HANDLE }

/-- The calls with which FD_TO_HANDLE makes this handle. -/
def oneHandleCalls : List (Event HandleCall) :=
  [⟨.inl (.copyFromUser (.user openRequest)), true⟩, ⟨.inl (.dmaBufGet 4), .ptr oneBuffer⟩,
    ⟨.inr (.xaForEach 0), []⟩, ⟨.inr .kzallocHandle, some 0⟩,
    ⟨.inr (.setHandle 0 ⟨.ptr oneBuffer, 1⟩), ()⟩, ⟨.inr (.xaAlloc 0 0), .ok 0⟩,
    ⟨.inl (.copyToUser (.user { openRequest with handle := 0 })), true⟩]

theorem oneHandle_exec : Exec handleKernel (kiumdFdDmabufHandler openRequest (some 0)) .initial
    oneHandleCalls (some 0) oneHandle := by
  have hfresh : .handle 0 ∉ (World.initial.hold (.dmabuf oneBuffer)).held := by
    simp [World.initial]
  refine .call rfl (.call rfl (.call rfl ?_))
  refine .call (show (if _ ∈ _ then none else _) = some _ from if_neg hfresh) ?_
  exact .call rfl (.call rfl (.call rfl (.ret _ _)))

theorem oneHandle_run : ∃ history, Run handleKernel
    (fun kiusr => kiumdFdDmabufHandler kiusr (some 0)) OpensCounted .initial history oneHandle :=
  ⟨_, .request .start oneHandle_exec fun p _ => show (0 : Int) + 1 < 2 ^ 31 by decide⟩

/-- A run in which a handle is made for a buffer. -/
theorem handle_run_counts_references_open : ∃ history w,
    Run handleKernel (fun kiusr => kiumdFdDmabufHandler kiusr (some 0)) OpensCounted World.initial
      history w ∧ (w.xa 0).length = 1 ∧ OwnsOpened w 0 World.initial.refs := by
  obtain ⟨history, hrun⟩ := oneHandle_run
  exact ⟨history, oneHandle, hrun, rfl, (handle_run_counts_references rfl hrun).1⟩

end SafeLinux.Kiumd
