import SafeLinux.Kiumd.HandleOutcome

/-!
# Failed handle requests

A request of `kiumd_fd_dmabuf_handler` that fails leaves the handles, the references and the
descriptors as they were, unless it fails only after it has been served: when its reply cannot be
copied to user space (`failed_request_reverts_iff`).
-/

namespace SafeLinux.Kiumd

open Effects

variable {w w' : World} {c p : Nat} {kiusr : KiumdUser} {trace : List (Event HandleCall)}

/-- The entries, their counts, the references to the buffers and the descriptors are as before a
request. -/
structure RequestReverted (w w' : World) (c : Nat) (trace : List (Event HandleCall)) : Prop where
  xa : w'.xa c = w.xa c
  counts : ∀ e ∈ w.xa c, (w'.handles e.2).handleRefcount = (w.handles e.2).handleRefcount
  refs : w'.refs = w.refs
  fds : ¬ Installed trace

/-- Counting changes an `int`. -/
theorem wrapInt_add_ne {n k : Int} (hk : k = 1 ∨ k = -1) : wrapInt (n + k) ≠ n := by
  intro heq
  rw [wrapInt, BitVec.toInt_ofInt] at heq
  have hdvd : ((2 ^ 32 : Nat) : Int) ∣ n + k - (n + k).bmod (2 ^ 32) := Int.dvd_self_sub_bmod
  rw [heq] at hdvd
  omega

theorem count_getRef {dmabuf : KPtr DmaBuf} {k : Int} (hk : k = 1 ∨ k = -1) :
    (((w.getRef dmabuf).countHandle p k).handles p).handleRefcount ≠
      (w.handles p).handleRefcount := by
  have hgot : (w.getRef dmabuf).handles = w.handles := by cases dmabuf <;> rfl
  simp only [World.countHandle, World.setHandle, Function.update_self, hgot]
  exact wrapInt_add_ne hk

theorem count_closeOnce :
    ((w.closeOnce p).handles p).handleRefcount ≠ (w.handles p).handleRefcount := by
  rw [World.closeOnce, putRef_handles]
  exact @count_getRef _ _ .null _ (.inr rfl)

/-- A request that selects an operation and is served changes something. -/
theorem ServedOutcome.not_reverted {reply : KiumdUser}
    (h : ServedOutcome w c kiusr trace reply w') (hop : kiusr.operation ≠ none) :
    ¬ RequestReverted w w' c trace := by
  intro hreverted
  cases h with
  | ignored hnone => exact hop hnone
  | opened _ _ he _ => exact count_getRef (.inl rfl) (hreverted.counts _ he)
  | @made index p dmabuf =>
      have hlength := congrArg List.length hreverted.xa
      rw [xa_addHandle, xa_getRef, List.orderedInsert_length] at hlength
      omega
  | installed _ _ _ hinstalled => exact hreverted.fds hinstalled
  | closed _ he _ => exact count_closeOnce (hreverted.counts _ he)
  | erased _ he _ => exact count_closeOnce (hreverted.counts _ he)

theorem Untouched.reverted (h : Untouched w w' c) (hinstalled : ¬ Installed trace) :
    RequestReverted w w' c trace := by
  refine ⟨h.same.xa, fun e he => by rw [h.same.handles e he], ?_, hinstalled⟩
  funext d
  rw [World.refs, h.held, World.refs]

/-- A request on a context whose entries name allocated handles leaves no change behind when it
fails, if and only if its reply is copied to user space once it has been served, or it selects no
operation. -/
theorem failed_request_reverts_iff {ret : Int} (hlive : w.HandlesLive c)
    (hexec : Exec handleKernel (kiumdFdDmabufHandler kiusr (some c)) w trace (some ret) w') :
    (ret < 0 → RequestReverted w w' c trace) ↔
      (∀ reply, replyOf trace ≠ some (reply, false)) ∨ kiusr.operation = none := by
  generalize hresult : some ret = result at hexec
  have houtcome := wp_exec (kiumdFdDmabufHandler_outcome hlive) hexec
  cases houtcome with
  | killed => cases hresult
  | refused hneg hreply hinstalled huntouched =>
      refine ⟨fun _ => .inl fun reply => ?_, fun _ _ => huntouched.reverted hinstalled⟩
      rw [hreply]
      exact nofun
  | @served reply copied w' hreply hserved hinstalled =>
  obtain rfl := Option.some.inj hresult
  cases copied with
  | true =>
      refine ⟨fun _ => .inl fun reply' => ?_, fun _ hneg => absurd hneg (by decide)⟩
      rw [hreply]
      exact nofun
  | false =>
      constructor
      · intro hreverts
        by_contra hnot
        rw [not_or] at hnot
        exact hserved.not_reverted hnot.2 (hreverts (by decide))
      · rintro (hcopied | hnone) _
        · exact absurd hreply (hcopied reply)
        · cases hserved with
          | ignored =>
              refine (Untouched.refl w c).reverted fun h => ?_
              rw [hnone] at hinstalled
              exact absurd (hinstalled h) nofun
          | opened hop | made hop | installed hop | closed hop | erased hop =>
              rw [hop] at hnone
              cases hnone

/-- Closing a handle that does not exist changes nothing. -/
theorem failed_request_reverts_iff_absent :
    ∃ trace, RequestReverted oneHandle oneHandle 0 trace := by
  have hexec : Exec handleKernel (kiumdFdDmabufHandler (closeRequest 1) (some 0)) oneHandle
      [⟨.inl (.copyFromUser (.user (closeRequest 1))), true⟩, ⟨.inr (.xaLoad 0 1), none⟩]
      (some (-EINVAL)) oneHandle := .call rfl (.call rfl (.ret _ _))
  have hcondition : ∀ reply, replyOf
      [⟨.inl (.copyFromUser (.user (closeRequest 1))), true⟩, ⟨.inr (.xaLoad 0 1), none⟩] ≠
        some (reply, false) := fun _ => nofun
  exact ⟨_, (failed_request_reverts_iff oneHandle_live hexec).mpr (.inl hcondition) (by decide)⟩

/-- Closing the last open of a handle with a reply that cannot be copied erases the handle. -/
theorem not_failed_request_reverts : ¬ ∀ w c kiusr trace ret w', World.HandlesLive w c →
    Exec handleKernel (kiumdFdDmabufHandler kiusr (some c)) w trace (some ret) w' → ret < 0 →
      RequestReverted w w' c trace := by
  intro h
  have hxa := (h _ _ _ _ _ _ oneHandle_live (closeOne_exec false) (by decide)).xa
  rw [xa_eraseIndex, xa_closeOnce] at hxa
  cases hxa

end SafeLinux.Kiumd
