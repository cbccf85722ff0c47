import SafeLinux.Kiumd.HandleOutcome

/-!
# Handle objects

`kiumd_fd_dmabuf_handler` allocates an object for each handle, and the xarray of the context owns
it. CLOSE_HANDLE erases a handle that is no longer open without freeing its object. In a run that
closes no handle for the last time and in which no thread is killed with an object that has no index
yet, the objects are those the xarray stores, and closing the context frees them all
(`handle_run_owns_objects`).
-/

namespace SafeLinux.Kiumd

open Effects

variable {w w' w₀ : World} {c : Nat} {kiusr : KiumdUser} {trace : List (Event HandleCall)}
  {history : History KiumdUser HandleCall}

/-- How often the xarray of a context stores a handle object. -/
def World.stored (w : World) (c p : Nat) : Nat := ((w.xa c).map (·.2)).count p

/-- The request does not count a handle down to zero. -/
def KeepsOpen (w : World) (c : Nat) (kiusr : KiumdUser) : Prop :=
  kiusr.operation = some .closeHandle → ∀ p, (kiusr.handle.toNat, p) ∈ w.xa c →
    wrapInt ((w.handles p).handleRefcount + -1) ≠ 0

/-- The request does not count a handle down to zero and, if its descriptor names no buffer, does
not run out of indices. -/
def KeepsObjects (c : Nat) : Admission KiumdUser HandleCall World := fun _ kiusr w trace =>
  KeepsOpen w c kiusr ∧ (IndexFailed trace → ∀ err, ¬ Got trace (.err err))

/-! ## Requests -/

theorem stored_congr (h : w'.xa c = w.xa c) : w'.stored c = w.stored c := by
  funext p
  rw [World.stored, h, World.stored]

/-- A new object is stored, and no stored object is freed. -/
theorem ServedOutcome.objects {reply : KiumdUser} (h : ServedOutcome w c kiusr trace reply w')
    (hopen : KeepsOpen w c kiusr) (q : Nat) :
    w'.objects q + w.stored c q = w.objects q + w'.stored c q := by
  have hsame : ∀ {u : World}, u.xa c = w.xa c → u.objects = w.objects →
      u.objects q + w.stored c q = w.objects q + u.stored c q := by
    intro u hxa hobjects
    rw [hobjects, stored_congr hxa]
  cases h with
  | ignored => rfl
  | opened => exact hsame (congrFun (xa_getRef w _) c) (objects_getRef w _)
  | @made index p dmabuf =>
      have hperm : ((w.getRef dmabuf).addHandle c index.toNat p dmabuf).xa c |>.Perm
          ((index.toNat, p) :: w.xa c) := by
        rw [xa_addHandle, xa_getRef]
        exact List.perm_orderedInsert _ _ _
      have hstored : ((w.getRef dmabuf).addHandle c index.toNat p dmabuf).stored c q =
          w.stored c q + if q = p then 1 else 0 := by
        rw [World.stored, (hperm.map _).count_eq, List.map_cons, List.count_cons, World.stored]
        simp only [beq_iff_eq, @eq_comm _ p q]
      rw [objects_addHandle, objects_getRef, hstored]
      omega
  | @installed p d fd =>
      refine hsame rfl ?_
      funext q
      have hne : Resource.handle q ≠ .dmabuf d := by simp
      simp [World.objects, Multiset.count_cons_of_ne hne, Multiset.count_erase_of_ne hne]
  | closed => exact hsame (congrFun (xa_closeOnce w _) c) (objects_closeOnce w _)
  | erased hop he hlast => exact absurd hlast (hopen hop _ he)

/-- A request keeps the balance of objects and entries. -/
theorem HandlerOutcome.objects {result : Option Int}
    (h : HandlerOutcome w c kiusr trace result w') (hkeeps : KeepsObjects c history kiusr w trace)
    (q : Nat) : w'.objects q + w.stored c q = w.objects q + w'.stored c q := by
  cases h with
  | refused _ _ _ huntouched =>
      rw [stored_congr huntouched.same.xa, World.objects, huntouched.held, World.objects]
  | killed _ hkilled =>
      obtain ⟨err, hgot⟩ := hkilled.got
      rcases hkilled.held with hheld | ⟨hfailed, _⟩
      · rw [stored_congr hkilled.same.xa, World.objects, hheld, World.objects]
      · exact absurd hgot (hkeeps.2 hfailed err)
  | served _ hserved _ => exact hserved.objects hkeeps.1 q

/-! ## Closing the context -/

theorem putTimes_objects {d : DmaBuf} {n : Nat} :
    wp kernel .any (putTimes d n) (fun _ result w' => result = some () ∧ w'.objects = w.objects)
      w := by
  induction n generalizing w with
  | zero => exact wp_pure.mpr ⟨rfl, rfl⟩
  | succ n ih =>
      refine wp_step ?_
      rintro ⟨⟩ w₁ hstep
      cases hstep
      refine wp_mono ih ?_
      rintro _ _ w₂ ⟨hresult, hobjects⟩
      refine ⟨hresult, hobjects.trans ?_⟩
      funext q
      exact Multiset.count_erase_of_ne (by simp) _

theorem putHandle_objects {handle : DmaBufHandle} :
    wp kernel .any (putHandle handle)
      (fun _ result w' => result = some () ∧ w'.objects = w.objects) w := by
  unfold putHandle
  split
  · exact putTimes_objects
  · exact wp_pure.mpr ⟨rfl, rfl⟩

/-- The code returned, and the objects of `l` have been freed. -/
def Frees {α : Type} (w : World) (value : α) (l : List (Nat × Nat)) : Post KCall World α :=
  fun _ result w' => result = some value ∧
    ∀ q, w'.objects q = w.objects q - (l.map (·.2)).count q

instance {α : Type} {value : α} {l : List (Nat × Nat)} : (Frees w value l).Stable :=
  ⟨fun _ _ _ _ h => h⟩

/-- The loop of `kiumd_close` over the xarray frees the object of each entry. -/
theorem closeHandles_frees {l : List (Nat × Nat)} :
    wp kernel .any (closeHandles l) (Frees w () l) w := by
  induction l generalizing w with
  | nil => exact wp_pure.mpr ⟨rfl, fun _ => rfl⟩
  | cons e l ih =>
      obtain ⟨index, p⟩ := e
      refine wp_step ?_
      intro handle w₁ hstep
      simp only [kernelStep] at hstep
      split at hstep <;> cases hstep
      refine wp_after (wp_then putHandle_objects ?_ fun _ _ h => by cases h.1)
      rintro _ _ w₂ ⟨_, hobjects⟩
      refine wp_step ?_
      rintro ⟨⟩ w₃ hstep
      cases hstep
      refine wp_after (wp_mono ih ?_)
      rintro _ _ w₄ ⟨hresult, hfrees⟩
      refine ⟨hresult, fun q => ?_⟩
      have hfreed : (w₂.release (.handle p)).objects q = w.objects q - if q = p then 1 else 0 := by
        rw [← hobjects]
        by_cases hq : q = p
        · subst hq
          rw [if_pos rfl]
          exact Multiset.count_erase_self _ _
        · rw [if_neg hq]
          exact Multiset.count_erase_of_ne (by simpa using hq) _
      rw [hfrees q, hfreed, List.map_cons, List.count_cons]
      simp only [beq_iff_eq, @eq_comm _ p q]
      omega

theorem closeXarray_frees : wp kernel .any (closeXarray c (w.xa c)) (Frees w () (w.xa c)) w := by
  unfold closeXarray
  split
  · refine wp_then closeHandles_frees ?_ fun _ _ h => by cases h.1
    rintro _ _ w₁ ⟨_, hfrees⟩
    refine wp_perform.mpr ⟨trivial, fun hempty => (hempty.false ()).elim, ?_⟩
    rintro ⟨⟩ w₂ hstep
    cases hstep
    exact ⟨rfl, hfrees⟩
  · rename_i hempty
    have hnil : w.xa c = [] := by simpa using hempty
    exact wp_pure.mpr ⟨rfl, fun q => by simp [hnil]⟩

/-- `kiumd_close` frees the objects that the xarray stores. -/
theorem kiumdClose_freesObjects (htable : (w.ctxs c).smmuTable = [])
    (hresMem : (w.ctxs c).resMemArea = none) :
    wp kernel .any (kiumdClose (some c)) (Frees w 0 (w.xa c)) w := by
  refine kiumdClose_unmapped htable hresMem ?_
  refine wp_then closeXarray_frees ?_ fun _ _ h => by cases h.1
  rintro _ _ w₁ ⟨_, hfrees⟩
  refine wp_step ?_
  rintro ⟨⟩ w₂ hstep
  cases hstep
  refine wp_pure.mpr ⟨rfl, fun q => ?_⟩
  rw [← hfrees q]
  exact Multiset.count_erase_of_ne (by simp) _

/-! ## Runs -/

/-- What holds of the objects in every state of a run. -/
structure ObjectsStored (w₀ w : World) (c : Nat) : Prop where
  live : w.HandlesLive c
  objects : ∀ p, w.objects p = w₀.objects p + w.stored c p
  table : (w.ctxs c).smmuTable = []
  resMem : (w.ctxs c).resMemArea = none

theorem run_objectsStored (hstart : w₀.ctxs c = {})
    (hrun : Run handleKernel (fun kiusr => kiumdFdDmabufHandler kiusr (some c)) (KeepsObjects c)
      w₀ history w) : ObjectsStored w₀ w c := by
  refine hrun.invariant (fun _ w => ObjectsStored w₀ w c) ?_ ?_
  · have hxa : w₀.xa c = [] := by rw [World.xa, hstart]
    exact ⟨by simp [World.HandlesLive, hxa], by simp [World.stored, hxa], by rw [hstart],
      by rw [hstart]⟩
  · intro history kiusr w hinv
    refine wp_mono (kiumdFdDmabufHandler_outcome hinv.live) ?_
    intro trace _ w' houtcome hkeeps
    refine ⟨houtcome.live hinv.live, fun p => ?_, houtcome.rest.1.trans hinv.table,
      houtcome.rest.2.trans hinv.resMem⟩
    have hbalance := houtcome.objects hkeeps p
    have hobjects := hinv.objects p
    omega

/-- In every run of handle requests on a new context that closes no handle for the last time and in
which no thread is killed with an object that has no index yet, the handle objects allocated since
the start and not freed are those the xarray stores, and closing the context leaves none. -/
theorem handle_run_owns_objects (hstart : w₀.ctxs c = {})
    (hrun : Run handleKernel (fun kiusr => kiumdFdDmabufHandler kiusr (some c)) (KeepsObjects c)
      w₀ history w) :
    (∀ p, w.objects p = w₀.objects p + w.stored c p) ∧
    ∀ trace result w', Exec kernel (kiumdClose (some c)) w trace result w' →
      result = some 0 ∧ w'.objects = w₀.objects := by
  have hinv := run_objectsStored hstart hrun
  refine ⟨hinv.objects, ?_⟩
  intro trace result w' hexec
  obtain ⟨hresult, hfrees⟩ := wp_exec (kiumdClose_freesObjects hinv.table hinv.resMem) hexec
  refine ⟨hresult, ?_⟩
  funext q
  rw [hfrees q, hinv.objects q, World.stored, Nat.add_sub_cancel]

/-- FD_TO_HANDLE keeps the objects. -/
theorem oneHandleCalls_keepsObjects :
    KeepsObjects 0 [] openRequest .initial oneHandleCalls := by
  refine ⟨fun hop => absurd hop (by decide), ?_⟩
  simp [IndexFailed, oneHandleCalls, lacksIndex]

/-- A run with a stored object. -/
theorem handle_run_owns_objects_one :
    oneHandle.stored 0 0 = 1 ∧ ∀ p, oneHandle.objects p =
      World.initial.objects p + oneHandle.stored 0 p :=
  ⟨rfl, (handle_run_owns_objects rfl
    (.request .start oneHandle_exec oneHandleCalls_keepsObjects)).1⟩

/-- After the last close of a handle its object is still allocated and stored nowhere. -/
theorem not_handle_run_owns_objects : ¬ ∀ c w₀ history w, World.ctxs w₀ c = {} →
    Run handleKernel (fun kiusr => kiumdFdDmabufHandler kiusr (some c)) .any w₀ history w →
      ∀ p, w.objects p = w₀.objects p + w.stored c p := by
  intro h
  have hrun : Run handleKernel (fun kiusr => kiumdFdDmabufHandler kiusr (some 0)) .any .initial
      [(closeRequest 0, closeOneCalls true), (openRequest, oneHandleCalls)]
      ((oneHandle.closeOnce 0).eraseIndex 0 0) :=
    .request (.request .start oneHandle_exec trivial) (closeOne_exec true) trivial
  have hobjects := h 0 .initial _ _ rfl hrun 0
  have hstored : ((oneHandle.closeOnce 0).eraseIndex 0 0).stored 0 0 = 0 := rfl
  rw [hstored] at hobjects
  revert hobjects
  decide

end SafeLinux.Kiumd
