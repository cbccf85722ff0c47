import SafeLinux.Kiumd.HandleOutcome

/-!
# What a handle designates

FD_TO_HANDLE does not test the result of `dma_buf_get` for an error, so that a descriptor that names
no buffer gets a handle too. In a run in which every descriptor names a buffer, and in which no
count comes back to zero by overflow, each handle that has been returned and not yet closed
designates a buffer that the driver holds (`handle_run_designates`).
-/

namespace SafeLinux.Kiumd

open Effects

variable {w w' w₀ : World} {c p : Nat} {d : DmaBuf} {dmabuf : KPtr DmaBuf} {e : Nat × Nat}
  {kiusr : KiumdUser} {trace : List (Event HandleCall)} {history : History KiumdUser HandleCall}
  {k k' : U32 → Int}

/-! ## Opens and closes -/

/-- The handle that a served FD_TO_HANDLE has opened. -/
def openedHandle (request : KiumdUser × List (Event HandleCall)) : Option U32 :=
  if request.1.operation = some .fdToHandle then
    (replyOf request.2).map fun reply => reply.1.handle
  else none

/-- The handle that FD_TO_HANDLE has returned to user space. -/
def returnedHandle (request : KiumdUser × List (Event HandleCall)) : Option U32 :=
  if request.1.operation = some .fdToHandle then
    (replyOf request.2).bind fun reply => if reply.2 then some reply.1.handle else none
  else none

/-- The handle that a served CLOSE_HANDLE has closed. -/
def closedHandle (request : KiumdUser × List (Event HandleCall)) : Option U32 :=
  if request.1.operation = some .closeHandle ∧ (replyOf request.2).isSome then
    some request.1.handle
  else none

/-- How often a handle has been returned to user space. -/
def returns (history : History KiumdUser HandleCall) (i : U32) : Nat :=
  history.countP fun request => returnedHandle request == some i

/-- How often a handle has been closed. -/
def closes (history : History KiumdUser HandleCall) (i : U32) : Nat :=
  history.countP fun request => closedHandle request == some i

/-- How often a handle has been opened and not yet closed. -/
def opens (history : History KiumdUser HandleCall) (i : U32) : Int :=
  (history.countP fun request => openedHandle request == some i : Nat) - (closes history i : Nat)

/-- The handle has been returned to user space more often than it has been closed. -/
def StillOpen (history : History KiumdUser HandleCall) (i : U32) : Prop :=
  closes history i < returns history i

instance (history : History KiumdUser HandleCall) (i : U32) : Decidable (StillOpen history i) :=
  inferInstanceAs (Decidable (_ < _))

/-- The handle stands for a buffer to which the driver holds a reference. -/
def Designates (w : World) (c : Nat) (i : U32) : Prop :=
  ∃ p d, (i.toNat, p) ∈ w.xa c ∧ .handle p ∈ w.held ∧ (w.handles p).dmabuf = .ptr d ∧
    .dmabuf d ∈ w.held

/-- The descriptor names a buffer, and a handle whose count comes to zero has been opened once. -/
def NamesBuffers : Admission KiumdUser HandleCall World := fun history kiusr _ trace =>
  (∀ err, ¬ Got trace (.err err)) ∧
    (kiusr.operation = some .closeHandle → 2 ^ 32 ∣ opens history kiusr.handle - 1 →
      opens history kiusr.handle = 1)

theorem returnedHandle_le (request : KiumdUser × List (Event HandleCall)) (i : U32)
    (h : (returnedHandle request == some i) = true) : (openedHandle request == some i) = true := by
  unfold returnedHandle at h
  unfold openedHandle
  split at h
  · rename_i hop
    rw [if_pos hop]
    cases hreply : replyOf request.2 with
    | none => simp [hreply] at h
    | some reply =>
        obtain ⟨reply, copied⟩ := reply
        cases copied
        · simp [hreply] at h
        · simpa [hreply] using h
  · simp at h

theorem StillOpen.opens_pos {i : U32} (h : StillOpen history i) : 0 < opens history i := by
  have hle : returns history i ≤
      history.countP fun request => openedHandle request == some i :=
    List.countP_mono_left fun request _ => returnedHandle_le request i
  rw [StillOpen] at h
  rw [opens]
  omega

theorem opens_cons (request : KiumdUser × List (Event HandleCall)) (i : U32) :
    opens (request :: history) i = opens history i +
      (if openedHandle request = some i then 1 else 0) -
        if closedHandle request = some i then 1 else 0 := by
  simp only [opens, closes, List.countP_cons, beq_iff_eq]
  by_cases hopened : openedHandle request = some i <;>
    by_cases hclosed : closedHandle request = some i <;>
      simp only [if_pos, if_neg, hopened, hclosed, not_false_eq_true] <;> omega

/-! ## Named buffers -/

/-- The index of an entry as a handle. -/
def handleOf (e : Nat × Nat) : U32 := .ofNat 32 e.1

/-- Each entry names a buffer to which the driver holds as many references as the handle has been
opened, and its count is that number as an `int`. -/
structure HandlesNamed (w : World) (c : Nat) (k : U32 → Int) : Prop where
  indices : ((w.xa c).map (·.1)).Nodup
  small : ∀ e ∈ w.xa c, e.1 < 2 ^ 32
  handles : ((w.xa c).map (·.2)).Nodup
  buffers : ((w.xa c).map w.named).Nodup
  live : w.HandlesLive c
  real : ∀ e ∈ w.xa c, ∃ d, w.named e = .ptr d
  opened : ∀ e ∈ w.xa c, 0 < k (handleOf e)
  counted : ∀ e ∈ w.xa c, 2 ^ 32 ∣ (w.handles e.2).handleRefcount - k (handleOf e)
  absent : ∀ i : U32, i.toNat ∉ (w.xa c).map (·.1) → k i = 0
  owned : ∀ e ∈ w.xa c, ∀ d, w.named e = .ptr d → k (handleOf e) ≤ w.refs d

theorem wrapInt_dvd (n : Int) : (2 ^ 32 : Int) ∣ n - wrapInt n := by
  rw [wrapInt, BitVec.toInt_ofInt]
  exact Int.dvd_self_sub_bmod

theorem wrapInt_eq_zero_iff {n : Int} : wrapInt n = 0 ↔ (2 ^ 32 : Int) ∣ n := by
  rw [wrapInt, BitVec.toInt_ofInt]
  exact Int.dvd_iff_bmod_eq_zero.symm

theorem toNat_handleOf (h : e.1 < 2 ^ 32) : (handleOf e).toNat = e.1 := by
  rw [handleOf, BitVec.toNat_ofNat, Nat.mod_eq_of_lt h]

namespace HandlesNamed

/-- The handle of an index that has an entry. -/
theorem handleOf_eq {i : U32} (hi : e.1 = i.toNat) : handleOf e = i := by
  rw [handleOf, hi, BitVec.ofNat_toNat, BitVec.setWidth_eq]

/-- Different entries have different handles, objects and buffers. -/
theorem apart (h : HandlesNamed w c k) {e' : Nat × Nat} (he : e ∈ w.xa c) (he' : e' ∈ w.xa c)
    (hne : e' ≠ e) : handleOf e' ≠ handleOf e ∧ e'.2 ≠ e.2 ∧ w.named e' ≠ w.named e := by
  refine ⟨fun heq => hne ?_, fun heq => hne ?_, fun heq => hne ?_⟩
  · have hindex : e'.1 = e.1 := by
      rw [← toNat_handleOf (h.small e' he'), heq, toNat_handleOf (h.small e he)]
    exact List.inj_on_of_nodup_map h.indices he' he hindex
  · exact List.inj_on_of_nodup_map h.handles he' he heq
  · exact List.inj_on_of_nodup_map h.buffers he' he heq

/-- One entry counts differently. -/
theorem recount (h : HandlesNamed w c k) (he : e ∈ w.xa c) (hxa : w'.xa c = w.xa c)
    (hnamed : ∀ e' ∈ w.xa c, w'.named e' = w.named e') (hlive : w'.HandlesLive c)
    (hother : ∀ q, q ≠ e.2 → w'.handles q = w.handles q)
    (hopened : 0 < k' (handleOf e))
    (hcounted : 2 ^ 32 ∣ (w'.handles e.2).handleRefcount - k' (handleOf e))
    (hk : ∀ i, i ≠ handleOf e → k' i = k i)
    (howned : ∀ d, w.named e = .ptr d → k' (handleOf e) ≤ w'.refs d)
    (hrefs : ∀ d, w.named e ≠ .ptr d → w.refs d ≤ w'.refs d) : HandlesNamed w' c k' := by
  refine ⟨by rw [hxa]; exact h.indices, by rw [hxa]; exact h.small, by rw [hxa]; exact h.handles,
    ?_, hlive, ?_, ?_, ?_, ?_, ?_⟩
  · rw [hxa, List.map_congr_left hnamed]
    exact h.buffers
  · intro e' he'
    rw [hxa] at he'
    rw [hnamed e' he']
    exact h.real e' he'
  · intro e' he'
    rw [hxa] at he'
    by_cases hne : e' = e
    · rw [hne]
      exact hopened
    · rw [hk _ (h.apart he he' hne).1]
      exact h.opened e' he'
  · intro e' he'
    rw [hxa] at he'
    by_cases hne : e' = e
    · rw [hne]
      exact hcounted
    · rw [hk _ (h.apart he he' hne).1, hother _ (h.apart he he' hne).2.1]
      exact h.counted e' he'
  · intro i hi
    rw [hxa] at hi
    rw [hk i]
    · exact h.absent i hi
    · rintro rfl
      rw [toNat_handleOf (h.small e he)] at hi
      exact hi (List.mem_map_of_mem he)
  · intro e' he' d hname
    rw [hxa] at he'
    rw [hnamed e' he'] at hname
    by_cases hne : e' = e
    · rw [hne] at hname ⊢
      exact howned d hname
    · have happart := h.apart he he' hne
      rw [hk _ happart.1]
      refine le_trans (h.owned e' he' d hname) ?_
      exact_mod_cast hrefs d fun heq => happart.2.2 (hname.trans heq.symm)

/-- Neither the entries nor the handles have changed, and no reference is gone. -/
theorem same (h : HandlesNamed w c k) (hxa : w'.xa c = w.xa c)
    (hhandles : ∀ e ∈ w.xa c, w'.handles e.2 = w.handles e.2) (hlive : w'.HandlesLive c)
    (hrefs : ∀ d, w.refs d ≤ w'.refs d) : HandlesNamed w' c k := by
  have hnamed : ∀ e ∈ w.xa c, w'.named e = w.named e := fun e he =>
    congrArg DmaBufHandle.dmabuf (hhandles e he)
  refine ⟨by rw [hxa]; exact h.indices, by rw [hxa]; exact h.small, by rw [hxa]; exact h.handles,
    ?_, hlive, ?_, by rw [hxa]; exact h.opened, ?_, by rw [hxa]; exact h.absent, ?_⟩
  · rw [hxa, List.map_congr_left hnamed]
    exact h.buffers
  · intro e he
    rw [hxa] at he
    rw [hnamed e he]
    exact h.real e he
  · intro e he
    rw [hxa] at he
    rw [hhandles e he]
    exact h.counted e he
  · intro e he d hname
    rw [hxa] at he
    rw [hnamed e he] at hname
    exact le_trans (h.owned e he d hname) (by exact_mod_cast hrefs d)

/-- The buffer of an entry is opened once more. -/
theorem countUp (h : HandlesNamed w c k) (he : e ∈ w.xa c)
    (hlive : ((w.getRef (w.named e)).countHandle e.2 1).HandlesLive c)
    (hself : k' (handleOf e) = k (handleOf e) + 1) (hk : ∀ i, i ≠ handleOf e → k' i = k i) :
    HandlesNamed ((w.getRef (w.named e)).countHandle e.2 1) c k' := by
  obtain ⟨d, hname⟩ := h.real e he
  rw [hname] at hlive ⊢
  refine h.recount he rfl (fun e' _ => countHandle_named _ _ _ _) hlive ?_ ?_ ?_ hk ?_ ?_
  · intro q hq
    exact Function.update_of_ne hq _ _
  · have := h.opened e he
    omega
  · have hcounted := h.counted e he
    have hwrap := wrapInt_dvd ((w.handles e.2).handleRefcount + 1)
    simp only [World.countHandle, World.setHandle, World.getRef, World.hold,
      Function.update_self, hself]
    omega
  · intro d' hname'
    obtain rfl : d = d' := KPtr.ptr.inj (hname.symm.trans hname')
    have howned := h.owned e he d hname
    have hrefs : (((w.getRef (.ptr d)).countHandle e.2 1)).refs d = w.refs d + 1 :=
      Multiset.count_cons_self _ _
    rw [hself, hrefs]
    omega
  · exact fun d' _ => Multiset.count_le_count_cons _ _ _

/-- The references that are left when a handle is closed once. -/
theorem refs_closeOnce (hname : (w.handles p).dmabuf = .ptr d) (d' : DmaBuf) :
    (w.closeOnce p).refs d' = w.refs d' - if d' = d then 1 else 0 := by
  rw [World.closeOnce, hname]
  by_cases hd : d' = d
  · subst hd
    rw [if_pos rfl]
    exact Multiset.count_erase_self _ _
  · rw [if_neg hd]
    exact Multiset.count_erase_of_ne (by simpa using hd) _

/-- A handle that stays open is closed once. -/
theorem countDown (h : HandlesNamed w c k) (he : e ∈ w.xa c)
    (hlive : (w.closeOnce e.2).HandlesLive c)
    (hopen : wrapInt ((w.handles e.2).handleRefcount + -1) ≠ 0)
    (hself : k' (handleOf e) = k (handleOf e) - 1) (hk : ∀ i, i ≠ handleOf e → k' i = k i) :
    HandlesNamed (w.closeOnce e.2) c k' := by
  obtain ⟨d, hname⟩ := h.real e he
  have hcounted := h.counted e he
  have hopened := h.opened e he
  have hhandles : (w.closeOnce e.2).handles = (w.countHandle e.2 (-1)).handles :=
    putRef_handles _ _
  refine h.recount he (congrFun (xa_closeOnce w _) c) ?_ hlive ?_ ?_ ?_ hk ?_ ?_
  · intro e' _
    rw [World.named, hhandles]
    exact countHandle_named _ _ _ _
  · intro q hq
    rw [hhandles]
    simp [World.countHandle, World.setHandle, hq]
  · -- a count of one would have come to zero
    have hone : k (handleOf e) ≠ 1 := by
      intro hone
      refine hopen (wrapInt_eq_zero_iff.mpr ?_)
      omega
    omega
  · have hwrap := wrapInt_dvd ((w.handles e.2).handleRefcount + -1)
    rw [hhandles]
    simp only [World.countHandle, World.setHandle, Function.update_self, hself]
    omega
  · intro d' hname'
    obtain rfl : d = d' := KPtr.ptr.inj (hname.symm.trans hname')
    have howned := h.owned e he d hname
    rw [refs_closeOnce hname, if_pos rfl, hself]
    omega
  · intro d' hname'
    have hd : d' ≠ d := by
      rintro rfl
      exact hname' hname
    rw [refs_closeOnce hname, if_neg hd]
    omega

/-- The last open of a handle is closed. -/
theorem erase {i : U32} (h : HandlesNamed w c k) (he : (i.toNat, p) ∈ w.xa c)
    (hlive : ((w.closeOnce p).eraseIndex c i).HandlesLive c) (hself : k' i = 0)
    (hk : ∀ j, j ≠ i → k' j = k j) :
    HandlesNamed ((w.closeOnce p).eraseIndex c i) c k' := by
  obtain ⟨d, hname⟩ := h.real _ he
  have hxa : ((w.closeOnce p).eraseIndex c i).xa c = (w.xa c).filter (·.1 != i.toNat) := by
    rw [xa_eraseIndex, xa_closeOnce]
  have hsub : ((w.xa c).filter (·.1 != i.toNat)).Sublist (w.xa c) := List.filter_sublist
  have hhandles : ((w.closeOnce p).eraseIndex c i).handles = (w.countHandle p (-1)).handles :=
    putRef_handles _ _
  have hother : ∀ e ∈ (w.xa c).filter (·.1 != i.toNat), e ∈ w.xa c ∧ handleOf e ≠ i ∧
      e.2 ≠ p ∧ w.named e ≠ .ptr d := by
    intro e he'
    obtain ⟨hmem, hne⟩ := List.mem_filter.mp he'
    have hne : e ≠ (i.toNat, p) := by
      rintro rfl
      simp at hne
    have happart := h.apart he hmem hne
    rw [handleOf_eq (e := (i.toNat, p)) rfl, hname] at happart
    exact ⟨hmem, happart.1, happart.2.1, happart.2.2⟩
  have hkept : ∀ e ∈ (w.xa c).filter (·.1 != i.toNat),
      ((w.closeOnce p).eraseIndex c i).handles e.2 = w.handles e.2 := by
    intro e he'
    rw [hhandles]
    simp [World.countHandle, World.setHandle, (hother e he').2.2.1]
  have hnamed : ∀ e ∈ (w.xa c).filter (·.1 != i.toNat),
      ((w.closeOnce p).eraseIndex c i).named e = w.named e := fun e he' =>
    congrArg DmaBufHandle.dmabuf (hkept e he')
  refine ⟨?_, ?_, ?_, ?_, hlive, ?_, ?_, ?_, ?_, ?_⟩ <;> rw [hxa]
  · exact h.indices.sublist (hsub.map _)
  · exact fun e he' => h.small e (hsub.mem he')
  · exact h.handles.sublist (hsub.map _)
  · rw [List.map_congr_left hnamed]
    exact h.buffers.sublist (hsub.map _)
  · intro e he'
    rw [hnamed e he']
    exact h.real e (hsub.mem he')
  · intro e he'
    rw [hk _ (hother e he').2.1]
    exact h.opened e (hsub.mem he')
  · intro e he'
    rw [hk _ (hother e he').2.1, hkept e he']
    exact h.counted e (hsub.mem he')
  · intro j hj
    by_cases hji : j = i
    · rw [hji, hself]
    · rw [hk j hji]
      refine h.absent j fun hmem => hj ?_
      obtain ⟨e, he', heq⟩ := List.mem_map.mp hmem
      refine List.mem_map.mpr ⟨e, List.mem_filter.mpr ⟨he', ?_⟩, heq⟩
      rw [heq, bne_iff_ne]
      exact fun hnat => hji (BitVec.eq_of_toNat_eq hnat)
  · intro e he' d' hname'
    rw [hnamed e he'] at hname'
    have hd : d' ≠ d := by
      rintro rfl
      exact (hother e he').2.2.2 hname'
    have hrefs : ((w.closeOnce p).eraseIndex c i).refs d' = w.refs d' := by
      refine (refs_closeOnce hname d').trans ?_
      rw [if_neg hd, Nat.sub_zero]
    rw [hk _ (hother e he').2.1, hrefs]
    exact h.owned e (hsub.mem he') d' hname'

/-- A handle is made for a buffer that has none. -/
theorem insert {index : U32} (h : HandlesNamed w c k)
    (hlive : ((w.getRef (.ptr d)).addHandle c index.toNat p (.ptr d)).HandlesLive c)
    (hname : .ptr d ∉ (w.xa c).map w.named) (hindex : index.toNat ∉ (w.xa c).map (·.1))
    (hp : ∀ e ∈ w.xa c, e.2 ≠ p) (hself : k' index = 1) (hk : ∀ j, j ≠ index → k' j = k j) :
    HandlesNamed ((w.getRef (.ptr d)).addHandle c index.toNat p (.ptr d)) c k' := by
  generalize hw' : (w.getRef (.ptr d)).addHandle c index.toNat p (.ptr d) = w' at hlive ⊢
  have hperm : (w'.xa c).Perm ((index.toNat, p) :: w.xa c) := by
    rw [← hw', xa_addHandle, xa_getRef]
    exact List.perm_orderedInsert _ _ _
  have hnew : w'.handles p = ⟨.ptr d, 1⟩ := by
    rw [← hw']
    exact Function.update_self ..
  have hkept : ∀ e ∈ w.xa c, w'.handles e.2 = w.handles e.2 := by
    intro e he
    rw [← hw']
    exact Function.update_of_ne (hp e he) _ _
  have hnamed : ∀ e ∈ w.xa c, w'.named e = w.named e := fun e he =>
    congrArg DmaBufHandle.dmabuf (hkept e he)
  have hnewName : w'.named (index.toNat, p) = .ptr d := congrArg DmaBufHandle.dmabuf hnew
  have hrefs : ∀ d', w'.refs d' = w.refs d' + if d' = d then 1 else 0 := by
    intro d'
    have hcount : w'.refs d' = (w.hold (.dmabuf d)).refs d' := by
      rw [← hw']
      exact Multiset.count_cons_of_ne (by simp) _
    rw [hcount, World.refs, World.hold_held, Multiset.count_cons, World.refs]
    simp
  have hother : ∀ e ∈ w.xa c, handleOf e ≠ index := by
    rintro e he rfl
    rw [toNat_handleOf (h.small e he)] at hindex
    exact hindex (List.mem_map_of_mem he)
  have hcases : ∀ e ∈ w'.xa c, e = (index.toNat, p) ∨ e ∈ w.xa c := fun e he =>
    List.mem_cons.mp (hperm.mem_iff.mp he)
  refine ⟨?_, ?_, ?_, ?_, hlive, ?_, ?_, ?_, ?_, ?_⟩
  · exact (hperm.map _).nodup_iff.mpr (List.nodup_cons.mpr ⟨hindex, h.indices⟩)
  · intro e he
    rcases hcases e he with rfl | he
    · exact index.isLt
    · exact h.small e he
  · refine (hperm.map _).nodup_iff.mpr (List.nodup_cons.mpr ⟨?_, h.handles⟩)
    intro hmem
    obtain ⟨e, he, heq⟩ := List.mem_map.mp hmem
    exact hp e he heq
  · refine (hperm.map _).nodup_iff.mpr ?_
    rw [List.map_cons, List.map_congr_left hnamed, hnewName]
    exact List.nodup_cons.mpr ⟨hname, h.buffers⟩
  · intro e he
    rcases hcases e he with rfl | he
    · exact ⟨d, hnewName⟩
    · rw [hnamed e he]
      exact h.real e he
  · intro e he
    rcases hcases e he with rfl | he
    · rw [handleOf_eq rfl, hself]
      decide
    · rw [hk _ (hother e he)]
      exact h.opened e he
  · intro e he
    rcases hcases e he with rfl | he
    · rw [handleOf_eq rfl, hself, hnew]
      exact Int.dvd_zero _
    · rw [hk _ (hother e he), hkept e he]
      exact h.counted e he
  · intro j hj
    rw [(hperm.map _).mem_iff, List.map_cons, List.mem_cons, not_or] at hj
    rw [hk j fun heq => hj.1 (by rw [heq])]
    exact h.absent j hj.2
  · intro e he d' hname'
    rcases hcases e he with rfl | he
    · obtain rfl : d = d' := KPtr.ptr.inj (hnewName.symm.trans hname')
      rw [handleOf_eq rfl, hself, hrefs d, if_pos rfl]
      omega
    · rw [hnamed e he] at hname'
      have howned := h.owned e he d' hname'
      rw [hk _ (hother e he), hrefs d']
      omega

end HandlesNamed

/-! ## Requests -/

/-- A request that has not been served opens and closes nothing. -/
theorem opens_unserved (h : replyOf trace = none) : opens ((kiusr, trace) :: history) =
    opens history := by
  funext i
  rw [opens_cons]
  simp [openedHandle, closedHandle, h]

/-- A request that selects neither FD_TO_HANDLE nor CLOSE_HANDLE opens and closes nothing. -/
theorem opens_other (hopen : kiusr.operation ≠ some .fdToHandle)
    (hclose : kiusr.operation ≠ some .closeHandle) : opens ((kiusr, trace) :: history) =
      opens history := by
  funext i
  rw [opens_cons]
  simp [openedHandle, closedHandle, hopen, hclose]

theorem opens_opened {reply : KiumdUser} {copied : Bool} (hop : kiusr.operation = some .fdToHandle)
    (hreply : replyOf trace = some (reply, copied)) (i : U32) :
    opens ((kiusr, trace) :: history) i =
      opens history i + if reply.handle = i then 1 else 0 := by
  rw [opens_cons]
  simp [openedHandle, closedHandle, hop, hreply]

theorem opens_closed {reply : KiumdUser} {copied : Bool}
    (hop : kiusr.operation = some .closeHandle)
    (hreply : replyOf trace = some (reply, copied)) (i : U32) :
    opens ((kiusr, trace) :: history) i =
      opens history i - if kiusr.handle = i then 1 else 0 := by
  rw [opens_cons]
  simp [openedHandle, closedHandle, hop, hreply]

/-- A served request keeps the buffers named. -/
theorem ServedOutcome.named {reply : KiumdUser} {copied : Bool}
    (h : ServedOutcome w c kiusr trace reply w') (hreply : replyOf trace = some (reply, copied))
    (hinv : HandlesNamed w c (opens history)) (hok : NamesBuffers history kiusr w trace) :
    HandlesNamed w' c (opens ((kiusr, trace) :: history)) := by
  have hlive := h.live hinv.live
  cases h with
  | ignored hop =>
      rw [opens_other (by simp [hop]) (by simp [hop])]
      exact hinv
  | @opened e dmabuf hop hget he hname =>
      subst hname
      refine hinv.countUp he hlive ?_ ?_
      · rw [opens_opened hop hreply]
        exact congrArg _ (if_pos rfl)
      · intro i hi
        rw [opens_opened hop hreply]
        exact (congrArg _ (if_neg hi.symm)).trans (add_zero _)
  | @made index p dmabuf hop hget hnull hname hindex hp =>
      obtain ⟨d, rfl⟩ : ∃ d, dmabuf = .ptr d := by
        cases dmabuf with
        | null => exact absurd rfl hnull
        | err err => exact absurd hget (hok.1 err)
        | ptr d => exact ⟨d, rfl⟩
      refine hinv.insert hlive hname hindex ?_ ?_ ?_
      · rintro e he rfl
        exact hp (hinv.live e he)
      · rw [opens_opened hop hreply, hinv.absent index hindex]
        exact congrArg _ (if_pos rfl)
      · intro i hi
        rw [opens_opened hop hreply]
        exact (congrArg _ (if_neg hi.symm)).trans (add_zero _)
  | @installed p d fd hop he hname hinstalled =>
      rw [opens_other (by simp [hop]) (by simp [hop])]
      refine hinv.same rfl (fun _ _ => rfl) hlive fun d' => ?_
      simp only [World.refs, World.hold, World.release]
      by_cases hd : d' = d
      · rw [hd, Multiset.count_cons_self, Multiset.count_erase_self]
        omega
      · have hne : Resource.dmabuf d' ≠ .dmabuf d := by simpa using hd
        rw [Multiset.count_cons_of_ne hne, Multiset.count_erase_of_ne hne]
  | @closed p hop he hopen =>
      have hhandle : handleOf (kiusr.handle.toNat, p) = kiusr.handle :=
        HandlesNamed.handleOf_eq rfl
      refine hinv.countDown he hlive hopen ?_ ?_
      · rw [opens_closed hop hreply, hhandle, if_pos rfl]
      · intro i hi
        rw [hhandle] at hi
        rw [opens_closed hop hreply, if_neg hi.symm, sub_zero]
  | @erased p hop he hlast =>
      have hcounted := hinv.counted _ he
      rw [HandlesNamed.handleOf_eq (e := (kiusr.handle.toNat, p)) rfl] at hcounted
      have hdvd := wrapInt_eq_zero_iff.mp hlast
      have hone : opens history kiusr.handle = 1 := by
        refine hok.2 hop ?_
        dsimp only at hcounted
        omega
      refine hinv.erase he hlive ?_ ?_
      · rw [opens_closed hop hreply, hone]
        exact congrArg _ (if_pos rfl)
      · intro i hi
        rw [opens_closed hop hreply, if_neg hi.symm, sub_zero]

/-- A request keeps the buffers named. -/
theorem HandlerOutcome.named {result : Option Int} (h : HandlerOutcome w c kiusr trace result w')
    (hinv : HandlesNamed w c (opens history)) (hok : NamesBuffers history kiusr w trace) :
    HandlesNamed w' c (opens ((kiusr, trace) :: history)) := by
  cases h with
  | refused _ hreply _ huntouched =>
      rw [opens_unserved hreply]
      refine hinv.same huntouched.same.xa huntouched.same.handles (huntouched.live hinv.live) ?_
      intro d
      rw [World.refs, World.refs, huntouched.held]
  | killed hreply hkilled =>
      obtain ⟨err, hgot⟩ := hkilled.got
      exact absurd hgot (hok.1 err)
  | served hreply hserved _ => exact hserved.named hreply hinv hok

theorem run_handlesNamed (hstart : w₀.ctxs c = {})
    (hrun : Run handleKernel (fun kiusr => kiumdFdDmabufHandler kiusr (some c)) NamesBuffers
      w₀ history w) : HandlesNamed w c (opens history) := by
  refine hrun.invariant (fun history w => HandlesNamed w c (opens history)) ?_ ?_
  · have hxa : w₀.xa c = [] := by rw [World.xa, hstart]
    constructor <;> simp [hxa, World.HandlesLive, opens, closes]
  · intro history kiusr w hinv
    exact wp_mono (kiumdFdDmabufHandler_outcome hinv.live) fun trace _ w' houtcome hok =>
      houtcome.named hinv hok

/-! ## Descriptors for a handle -/

/-- Whether a call has asked for a descriptor in vain. -/
def lacksFd : {β : Type} → HandleCall β → β → Bool
  | _, .inr (.dmaBufFd _), fd => fd < 0
  | _, _, _ => false

/-- Whether a call has failed to copy the request or its reply. -/
def copyFails : {β : Type} → HandleCall β → β → Bool
  | _, .inl (.copyFromUser _), copied => !copied
  | _, .inl (.copyToUser _), copied => !copied
  | _, _, _ => false

/-- No descriptor can be installed. -/
def FdFailed (trace : List (Event HandleCall)) : Prop :=
  ∃ e ∈ trace, lacksFd e.call e.answer = true

/-- The request or its reply cannot be copied. -/
def UserCopyFailed (trace : List (Event HandleCall)) : Prop :=
  ∃ e ∈ trace, copyFails e.call e.answer = true

/-- HANDLE_TO_FD on a handle that names a buffer. -/
theorem handleToFd_named (hinv : HandlesNamed w c k) (he : (kiusr.handle.toNat, p) ∈ w.xa c) :
    wp handleKernel .any (handleToFd c kiusr)
      (fun trace result _ => FdFailed trace ∨ ∃ reply, result = some (.ok reply)) w := by
  refine wp_op fun found w₁ hstep => ?_
  simp only [handleStep] at hstep
  split at hstep <;> cases hstep
  rename_i hfound
  cases found with
  | none =>
      have hnone := List.find?_eq_none.mp (Option.map_eq_none_iff.mp hfound.symm) _ he
      simp at hnone
  | some q =>
  obtain ⟨⟨i, q⟩, hfind, rfl⟩ := Option.map_eq_some_iff.mp hfound.symm
  have hmem := List.mem_of_find?_eq_some hfind
  obtain ⟨d, hname⟩ := hinv.real _ hmem
  refine wp_ask fun handle w₂ hstep => ?_
  obtain ⟨rfl, rfl⟩ := readHandle_step hstep (hinv.live _ hmem)
  rw [World.named] at hname
  dsimp only at hname ⊢
  rw [hname]
  refine wp_op fun fd w₃ hstep => ?_
  split
  · rename_i hneg
    exact wp_pure.mpr (.inl ⟨⟨.inr (.dmaBufFd d), fd⟩, by simp, decide_eq_true hneg⟩)
  · exact wp_op fun _ w₄ _ => wp_pure.mpr (.inr ⟨_, rfl⟩)

/-- A HANDLE_TO_FD request on a handle that names a buffer fails only if no descriptor can be
installed or the request or its reply cannot be copied. -/
theorem handler_handleToFd (hinv : HandlesNamed w c k) (he : (kiusr.handle.toNat, p) ∈ w.xa c)
    (hop : kiusr.operation = some .handleToFd) :
    wp handleKernel .any (kiumdFdDmabufHandler kiusr (some c))
      (fun trace result _ => ∀ ret < 0, result = some ret → FdFailed trace ∨ UserCopyFailed trace)
      w := by
  have hbranch : handleBranch c kiusr = handleToFd c kiusr := by
    unfold KiumdUser.operation at hop
    unfold handleBranch
    split at hop
    · cases hop
    rename_i hfd
    rw [if_neg hfd]
    split at hop
    · rename_i hhandle
      rw [if_pos hhandle]
    · split at hop <;> cases hop
  refine wp_ask fun copied w₁ hstep => ?_
  cases hstep
  cases copied with
  | false => exact wp_pure.mpr fun _ _ _ => .inr ⟨_, List.mem_cons_self, rfl⟩
  | true =>
  show wp handleKernel .any (handleBranch c kiusr >>= _) _ w
  rw [hbranch, wp_bind]
  refine wp_mono (handleToFd_named hinv he) ?_
  rintro trace result w₂ (⟨e, hmem, hfails⟩ | ⟨reply, rfl⟩)
  · have hfailed : ∀ rest, FdFailed
        ([⟨.inl (.copyFromUser (.user kiusr)), true⟩] ++ (trace ++ rest)) := fun rest =>
      ⟨e, List.mem_append_right _ (List.mem_append_left rest hmem), hfails⟩
    cases result with
    | none => exact fun ret _ hret => nomatch hret
    | some result => exact wp_always fun rest _ _ _ _ _ => .inl (hfailed rest)
  · refine wp_ask fun copied w₃ _ => ?_
    cases copied with
    | true =>
        refine wp_pure.mpr fun ret hneg hret => ?_
        cases hret
        exact absurd hneg (by decide)
    | false =>
        refine wp_pure.mpr fun _ _ _ => .inr
          ⟨⟨.inl (.copyToUser (.user reply)), false⟩, by simp, rfl⟩

/-! ## Runs -/

/-- In every run of handle requests on a new context in which every descriptor names a buffer and
no count comes back to zero by overflow, a handle that has been returned and not yet closed
designates a buffer that the driver holds; HANDLE_TO_FD on it fails only if no descriptor can be
installed or the request or its reply cannot be copied; and an FD_TO_HANDLE that gets no buffer
fails and leaves the xarray as it was. -/
theorem handle_run_designates (hstart : w₀.ctxs c = {})
    (hrun : Run handleKernel (fun kiusr => kiumdFdDmabufHandler kiusr (some c)) NamesBuffers
      w₀ history w) :
    (∀ i, StillOpen history i → Designates w c i) ∧
    (∀ i kiusr trace ret w', StillOpen history i → kiusr.handle = i →
      kiusr.operation = some .handleToFd →
      Exec handleKernel (kiumdFdDmabufHandler kiusr (some c)) w trace (some ret) w' → ret < 0 →
        FdFailed trace ∨ UserCopyFailed trace) ∧
    ∀ kiusr trace result w', kiusr.operation = some .fdToHandle →
      Exec handleKernel (kiumdFdDmabufHandler kiusr (some c)) w trace result w' →
      NamesBuffers history kiusr w trace → (∀ d, ¬ Got trace (.ptr d)) →
        (∃ ret < 0, result = some ret) ∧ w'.xa c = w.xa c := by
  have hinv := run_handlesNamed hstart hrun
  have hentry : ∀ i, StillOpen history i → ∃ p, (i.toNat, p) ∈ w.xa c := by
    intro i hopen
    by_contra hnone
    refine hopen.opens_pos.ne' (hinv.absent i fun hmem => hnone ?_)
    obtain ⟨⟨index, p⟩, he, rfl⟩ := List.mem_map.mp hmem
    exact ⟨p, he⟩
  refine ⟨?_, ?_, ?_⟩
  · intro i hopen
    obtain ⟨p, he⟩ := hentry i hopen
    obtain ⟨d, hname⟩ := hinv.real _ he
    refine ⟨p, d, he, hinv.live _ he, hname, Multiset.count_pos.mp ?_⟩
    have hopened := hinv.opened _ he
    have howned := hinv.owned _ he d hname
    rw [World.refs] at howned
    omega
  · rintro i kiusr trace ret w' hopen rfl hop hexec hneg
    obtain ⟨p, he⟩ := hentry kiusr.handle hopen
    exact wp_exec (handler_handleToFd hinv he hop) hexec ret hneg rfl
  · intro kiusr trace result w' hop hexec hok hnone
    have houtcome := wp_exec (kiumdFdDmabufHandler_outcome hinv.live) hexec
    cases houtcome with
    | refused hneg _ _ huntouched => exact ⟨⟨_, hneg, rfl⟩, huntouched.same.xa⟩
    | killed _ hkilled =>
        obtain ⟨err, hgot⟩ := hkilled.got
        exact absurd hgot (hok.1 err)
    | served _ hserved _ =>
        cases hserved with
        | ignored hignored =>
            rw [hop] at hignored
            cases hignored
        | opened _ hget he hname =>
            obtain ⟨d, hreal⟩ := hinv.real _ he
            rw [← hname, hreal] at hget
            exact absurd hget (hnone d)
        | @made index p dmabuf _ hget hnull =>
            cases dmabuf with
            | null => exact absurd rfl hnull
            | err err => exact absurd hget (hok.1 err)
            | ptr d => exact absurd hget (hnone d)
        | installed hother | closed hother | erased hother =>
            rw [hop] at hother
            cases hother

/-- A run in which a handle is returned. -/
theorem handle_run_designates_one :
    StillOpen [(openRequest, oneHandleCalls)] 0 ∧ Designates oneHandle 0 0 := by
  have hrun : Run handleKernel (fun kiusr => kiumdFdDmabufHandler kiusr (some 0)) NamesBuffers
      .initial [(openRequest, oneHandleCalls)] oneHandle := by
    refine .request .start oneHandle_exec ⟨fun err => ?_, fun hop => absurd hop (by decide)⟩
    simp [Got, oneHandleCalls, bufferGot]
  have hopen : StillOpen [(openRequest, oneHandleCalls)] 0 := by decide
  exact ⟨hopen, (handle_run_designates rfl hrun).1 0 hopen⟩

/-- The state after a descriptor that names no buffer has got the handle 0. -/
def errorHandle : World :=
  (((World.initial.hold (.handle 0)).setHandle 0 ⟨.null, 0⟩).setHandle 0
    ⟨.err (-EBADF), 1⟩).setCtx 0 fun k =>
      { k with kiumdXa := k.kiumdXa.orderedInsert (·.1 ≤ ·.1) ((0 : U32).toNat, 0) }

/-- A descriptor that names no buffer gets the handle 0. -/
theorem not_handle_run_designates : ¬ ∀ c w₀ history w, World.ctxs w₀ c = {} →
    Run handleKernel (fun kiusr => kiumdFdDmabufHandler kiusr (some c)) .any w₀ history w →
      ∀ i, StillOpen history i → Designates w c i := by
  intro h
  have hfresh : .handle 0 ∉ World.initial.held := by simp [World.initial]
  have hexec : Exec handleKernel (kiumdFdDmabufHandler openRequest (some 0)) .initial
      [⟨.inl (.copyFromUser (.user openRequest)), true⟩, ⟨.inl (.dmaBufGet 4), .err (-EBADF)⟩,
        ⟨.inr (.xaForEach 0), []⟩, ⟨.inr .kzallocHandle, some 0⟩,
        ⟨.inr (.setHandle 0 ⟨.err (-EBADF), 1⟩), ()⟩, ⟨.inr (.xaAlloc 0 0), .ok 0⟩,
        ⟨.inl (.copyToUser (.user { openRequest with handle := 0 })), true⟩] (some 0)
      errorHandle := by
    refine .call rfl (.call rfl (.call rfl ?_))
    refine .call (show (if _ ∈ _ then none else _) = some _ from if_neg hfresh) ?_
    exact .call rfl (.call rfl (.call rfl (.ret _ _)))
  obtain ⟨p, d, he, -, hname, -⟩ :=
    h 0 .initial _ _ rfl (.request .start hexec trivial) 0 (by decide)
  obtain rfl : p = 0 := by
    have hxa : errorHandle.xa 0 = [(0, 0)] := rfl
    rw [hxa] at he
    simpa using he
  cases hname

end SafeLinux.Kiumd
