import SafeLinux.Effects.Erase
import SafeLinux.Kiumd.Answers
import SafeLinux.Kiumd.Holdings
import SafeLinux.Kiumd.Mmio

/-!
# Failures of MMIO_MAP

`kiumdMmioSmmuMapLocked` is `kiumd_mmio_smmu_map` with the calls on the cookie's mutex, and
`erase_kiumdMmioSmmuMapLocked` says that it is `kiumdMmioSmmuMap` without them. `MmioMapEnd` lists
the ways in which the call can end. From it follow when each exit undoes what was done and reports
it (`mmio_map_reports_iff`), and what becomes of the cookies (`mmio_map_cookies`).
-/

namespace SafeLinux.Kiumd

open Effects
open Effects.Program (perform)

/-! ## The mutex of the cookie -/

/-- The calls on the mutex of a cookie, which is named by its domain. -/
inductive CookieMutex : Type → Type where
  | mutexLock (dom : Domain) : CookieMutex Unit
  | mutexUnlock (dom : Domain) : CookieMutex Unit

/-- Which mutexes are held after a call; only a free one can be taken. -/
def mutexStep : {β : Type} → CookieMutex β → (Domain → Bool) → β → Option (Domain → Bool)
  | _, .mutexLock dom, locked, _ =>
      if locked dom then none else some (Function.update locked dom true)
  | _, .mutexUnlock dom, locked, _ => some (Function.update locked dom false)

/-- The kernel with the mutexes of the cookies. -/
def mutexKernel : Semantics (Either KCall CookieMutex) (World × (Domain → Bool)) :=
  kernel.prod ⟨mutexStep⟩

/-- A program that makes these calls. -/
abbrev MutexProg := Program (Either KCall CookieMutex)

/-- `mmioMapResource` with the calls on the mutex. -/
def mmioMapResourceLocked (kiusr : KiumdSmmuMmioMap) (ctx smap mmioCtx regName : Nat)
    (dev : Device) (domain : Domain) (addr size : U64) : MutexProg Int := do
  if kiusr.fixedIova ≠ 0 then
    perform (.inr (.mutexLock domain))
    let ret ← (kiumdSetDmaCookie (some domain) .msi kiusr.iova).lift .inl
    if ret ≠ 0 then
      perform (.inr (.mutexUnlock domain))
      (mmioRegFree smap regName none ret).lift .inl
    else
      let dmaAddr ← perform (.inl (.dmaMapResource dev addr size))
      let retval ← (kiumdSetDmaCookie (some domain) .iova 0).lift .inl
      perform (.inr (.mutexUnlock domain))
      if dmaAddr = DMA_MAPPING_ERROR ∨ retval ≠ 0 then
        (mmioRegFree smap regName none
          (if dmaAddr = DMA_MAPPING_ERROR then -ENOMEM else 0)).lift .inl
      else
        (mmioPublish kiusr ctx smap mmioCtx regName dev dmaAddr size).lift .inl
  else
    (mmioMapResource kiusr ctx smap mmioCtx regName dev domain addr size).lift .inl

/-- `kiumd_mmio_smmu_map` with the calls on the mutex. -/
def kiumdMmioSmmuMapLocked (ret₀ : Int) (kiusr : KiumdSmmuMmioMap) (fp : Option (Option Nat)) :
    MutexProg Int := do
  let some privateData := fp | return -EINVAL
  let some ctx := privateData | return -EINVAL
  if ¬ (← perform (.inl (.copyFromUser (.mmio kiusr)))) then
    return -EFAULT
  let some vfioDev ← (kiumdGetVfioDevice kiusr.vfioFd).lift .inl | return -EINVAL
  let some domain ← (kiumdGetDmaCookie (some vfioDev)).lift .inl | return -EINVAL
  if ← perform (.inl (.smmuScanMmio ctx (kiusr.fixedIova ≠ 0) kiusr.iova)) then
    return -EINVAL
  let some smap ← perform (.inl .kzallocSmap) | return -ENOMEM
  let some mmioCtx ← perform (.inl .kzallocMmioCtx) | do
    perform (.inl (.kfreeSmap smap))
    return -ENOMEM
  let some regName ← perform (.inl (.strndupUser kiusr.regName))
    | (mmioSmapFree smap none (-EINVAL)).lift .inl
  let some dev := vfioDev.dev | perform (.inl .oops) >>= Empty.elim
  if ¬ (← perform (.inl (.devIsPlatform dev))) then
    (mmioRegFree smap regName none ret₀).lift .inl
  else
    let some (first, last) ← perform (.inl (.platformGetResourceByname dev regName))
      | (mmioRegFree smap regName none (-EINVAL)).lift .inl
    mmioMapResourceLocked kiusr ctx smap mmioCtx regName dev domain first (last - first + 1)

/-- The answer of a call on a mutex. -/
def mutexReply : {β : Type} → CookieMutex β → β
  | _, .mutexLock _ => ()
  | _, .mutexUnlock _ => ()

theorem mutexReply_only {β : Type} (request : CookieMutex β) (answer : β) :
    answer = mutexReply request := by
  cases request <;> rfl

section Erase

variable {kiusr : KiumdSmmuMmioMap} {ctx smap mmioCtx regName : Nat} {dev : Device}
  {domain : Domain} {addr size : U64} {ret₀ : Int} {fp : Option (Option Nat)} {α β : Type}

/-- A call of the driver is kept. -/
theorem erase_inl {request : KCall β} {rest : β → MutexProg α} :
    (perform (.inl request) >>= rest).erase mutexReply =
      perform request >>= fun answer => (rest answer).erase mutexReply :=
  rfl

theorem erase_lift_bind {p : KProg β} {rest : β → MutexProg α} :
    (p.lift .inl >>= rest).erase mutexReply =
      p >>= fun value => (rest value).erase mutexReply := by
  rw [erase_bind, erase_lift]

theorem erase_mmioMapResourceLocked :
    (mmioMapResourceLocked kiusr ctx smap mmioCtx regName dev domain addr size).erase mutexReply =
      mmioMapResource kiusr ctx smap mmioCtx regName dev domain addr size := by
  unfold mmioMapResourceLocked
  split
  · rename_i hfixed
    rw [mmioMapResource, if_pos hfixed]
    show Program.erase mutexReply (Program.lift .inl _ >>= _) = _
    rw [erase_lift_bind]
    refine congrArg _ (funext fun ret => ?_)
    split
    · exact erase_lift
    · rw [erase_inl]
      refine congrArg _ (funext fun dmaAddr => ?_)
      rw [erase_lift_bind]
      refine congrArg _ (funext fun retval => ?_)
      show Program.erase mutexReply (ite _ _ _) = _
      split <;> exact erase_lift
  · exact erase_lift

/-- Without the calls on the mutex it is `kiumdMmioSmmuMap`. -/
theorem erase_kiumdMmioSmmuMapLocked :
    (kiumdMmioSmmuMapLocked ret₀ kiusr fp).erase mutexReply = kiumdMmioSmmuMap ret₀ kiusr fp := by
  unfold kiumdMmioSmmuMapLocked kiumdMmioSmmuMap
  rcases fp with _ | _ | ctx
  · rfl
  · rfl
  dsimp only
  rw [erase_inl]
  refine congrArg _ (funext fun copied => ?_)
  split
  · rfl
  rw [erase_lift_bind]
  refine congrArg _ (funext fun vfioDev => ?_)
  rcases vfioDev with _ | vfioDev
  · rfl
  dsimp only
  rw [erase_lift_bind]
  refine congrArg _ (funext fun domain => ?_)
  rcases domain with _ | domain
  · rfl
  dsimp only
  rw [erase_inl]
  refine congrArg _ (funext fun busy => ?_)
  split
  · rfl
  rw [erase_inl]
  refine congrArg _ (funext fun smap => ?_)
  rcases smap with _ | smap
  · rfl
  dsimp only
  rw [erase_inl]
  refine congrArg _ (funext fun mmioCtx => ?_)
  rcases mmioCtx with _ | mmioCtx
  · rfl
  dsimp only
  rw [erase_inl]
  refine congrArg _ (funext fun regName => ?_)
  rcases regName with _ | regName
  · exact erase_lift
  dsimp only
  rcases vfioDev.dev with _ | dev
  · rw [erase_inl]
    exact congrArg _ (funext fun answer => answer.elim)
  dsimp only
  rw [erase_inl]
  refine congrArg _ (funext fun platform => ?_)
  split
  · exact erase_lift
  rw [erase_inl]
  refine congrArg _ (funext fun region => ?_)
  rcases region with _ | ⟨first, last⟩
  · exact erase_lift
  · exact erase_mmioMapResourceLocked

end Erase

/-! ## How the call ends -/

/-- A call after the allocation of the MMIO context that fails. -/
def losesMmioCtx : Event KCall → Bool
  | ⟨.strndupUser _, none⟩ => true
  | ⟨.devIsPlatform _, false⟩ => true
  | ⟨.platformGetResourceByname _ _, none⟩ => true
  | ⟨.dmaMapResource _ _ _, iova⟩ => iova = DMA_MAPPING_ERROR
  | _ => false

/-- The device whose register region a call has found. -/
def foundRegion : Event KCall → Option Device
  | ⟨.platformGetResourceByname dev _, some _⟩ => some dev
  | _ => none

/-- The cookies after calls of a request: a request for a fixed IOVA resets the cookie of a device
whose region was found. -/
def cookiesAfter (u : KiumdSmmuMmioMap) (trace : List (Event KCall))
    (cookies : Domain → KiumdIommuDmaCookie) : Domain → KiumdIommuDmaCookie :=
  if u.fixedIova ≠ 0 then
    (trace.filterMap foundRegion).foldl
      (fun cookies dev => Function.update cookies dev.domain ⟨.iova, 0⟩) cookies
  else cookies

/-- The table of every context is as before. -/
def SameTables (b w : World) : Prop := ∀ c, (w.ctxs c).smmuTable = (b.ctxs c).smmuTable

/-- An entry with the IOVA and the size of a mapping just made is new in the table. -/
def EntryAdded (fp : Option (Option Nat)) (b : World) (trace : List (Event KCall)) (w : World) :
    Prop :=
  ∃ c p m addr mmio, fp = some (some c) ∧ .smap p ∉ b.held ∧
    (⟨.dmaMapResource mmio.dev addr mmio.size, mmio.iova⟩ : Event KCall) ∈ trace ∧
    mmio.iova ≠ DMA_MAPPING_ERROR ∧
    (∀ c', (w.ctxs c').smmuTable =
      if c' = c then p :: (b.ctxs c).smmuTable else (b.ctxs c').smmuTable) ∧
    (w.smaps p).context = some m ∧ w.mmioCtxs m = mmio ∧
    Holds b (.resource mmio.dev mmio.iova mmio.size ::ₘ .mmioCtx m ::ₘ .smap p ::ₘ 0) w

/-- The ways in which the call can end. -/
inductive MmioMapEnd (fp : Option (Option Nat)) (b : World) (trace : List (Event KCall)) :
    Option Int → World → Prop
  | refused {ret : Int} {w : World} : trace.any losesMmioCtx = false → ret < 0 →
      SameTables b w → Holds b 0 w → MmioMapEnd fp b trace (some ret) w
  /-- The entry is freed and its MMIO context is not. -/
  | lost {ret : Int} {m : Nat} {w : World} : trace.any losesMmioCtx = true →
      SameTables b w → Holds b (.mmioCtx m ::ₘ 0) w → MmioMapEnd fp b trace (some ret) w
  | added {w : World} : trace.any losesMmioCtx = false → EntryAdded fp b trace w →
      MmioMapEnd fp b trace (some 0) w

/-- The postcondition of the call. -/
def EndsMmioMap (u : KiumdSmmuMmioMap) (fp : Option (Option Nat)) (b : World) :
    Post KCall World Int :=
  fun trace result w => MmioMapEnd fp b trace result w ∧ w.cookies = cookiesAfter u trace b.cookies

/-- The driver holds `x` more than in `b`, and the contexts are as in `b`. -/
structure Tracks (b : World) (x : Multiset Resource) (w : World) : Prop where
  holds : Holds b x w
  ctxs : b.Agrees w .ctxs

/-- The calls have lost no MMIO context and found no region. -/
structure Quiet (trace : List (Event KCall)) : Prop where
  loses : trace.any losesMmioCtx = false
  finds : trace.filterMap foundRegion = []

variable {α β : Type} {b w w' : World} {c p m regName : Nat} {x : Multiset Resource}
  {u : KiumdSmmuMmioMap} {fp : Option (Option Nat)} {dev : Device} {dom : Domain} {ret ret₀ : Int}
  {trace trace' past : List (Event KCall)} {request : KCall β} {answer : β} {r : Resource}

theorem Quiet.append (h : Quiet trace) (h' : Quiet trace') : Quiet (trace ++ trace') where
  loses := by rw [List.any_append, h.loses, h'.loses, Bool.or_self]
  finds := by rw [List.filterMap_append, h.finds, h'.finds, List.append_nil]

theorem Tracks.refl (w : World) : Tracks w 0 w := ⟨.refl w, rfl⟩

theorem Tracks.sameTables (h : Tracks b x w) : SameTables b w := by
  have hctxs : w.ctxs = b.ctxs := h.ctxs
  intro c
  rw [hctxs]

/-- A call that gives nothing back and changes only what is held. -/
theorem Tracks.step (h : Tracks b x w) (hgiven : request.given = none)
    (hdeletes : request.deletes = none) (hwithin : Within [.held, .smaps] β request)
    (hstep : kernelStep request w answer = some w') :
    Tracks b ((request.taken answer).elim x (· ::ₘ x)) w' :=
  ⟨h.holds.step hgiven hdeletes hstep, h.ctxs.trans (within_agrees hwithin hstep (by decide))⟩

theorem Tracks.give {request : KCall Unit} (h : Tracks b (r ::ₘ x) w)
    (hgiven : request.given = some r) (hwithin : Within [.held, .smaps] Unit request)
    (hstep : kernelStep request w () = some w') : Tracks b x w' :=
  ⟨h.holds.give hgiven hstep, h.ctxs.trans (within_agrees hwithin hstep (by decide))⟩

/-- The rule for a call that gives nothing back. -/
theorem wp_tracks [Nonempty β] {rest : β → KProg α} {Q : Post KCall World α}
    (h : Tracks b x w) (hgiven : request.given = none) (hdeletes : request.deletes = none)
    (hwithin : Within [.held, .smaps] β request)
    (hnext : ∀ answer w', kernelStep request w answer = some w' → w'.cookies = w.cookies →
      Tracks b ((request.taken answer).elim x (· ::ₘ x)) w' →
      wp kernel .any (rest answer) (Q.after [⟨request, answer⟩]) w') :
    wp kernel .any (perform request >>= rest) Q w := by
  refine wp_step fun answer w' hstep => ?_
  have hcookies : w.Agrees w' .cookies := within_agrees hwithin hstep (by decide)
  exact hnext answer w' hstep hcookies (h.step hgiven hdeletes hwithin hstep)

/-- The rule for a call that gives something back. -/
theorem wp_tracks_give {request : KCall Unit} {rest : Unit → KProg α} {Q : Post KCall World α}
    (h : Tracks b (r ::ₘ x) w) (hgiven : request.given = some r)
    (hwithin : Within [.held, .smaps] Unit request)
    (hnext : ∀ w', w'.cookies = w.cookies → Tracks b x w' →
      wp kernel .any (rest ()) (Q.after [⟨request, ()⟩]) w') :
    wp kernel .any (perform request >>= rest) Q w := by
  refine wp_step fun answer w' hstep => ?_
  have hcookies : w.Agrees w' .cookies := within_agrees hwithin hstep (by decide)
  exact hnext w' hcookies (h.give hgiven hwithin hstep)

/-- The rule for a cookie that is set. -/
theorem wp_setDmaCookie {type : IommuDmaCookieType} {iova : U64} {rest : Int → KProg α}
    {Q : Post KCall World α}
    (hnext : wp kernel .any (rest 0) (Q.after [⟨.setDmaCookie dom type iova, ()⟩])
      { w with cookies := Function.update w.cookies dom ⟨type, iova⟩ }) :
    wp kernel .any (kiumdSetDmaCookie (some dom) type iova >>= rest) Q w := by
  rw [wp_bind]
  unfold kiumdSetDmaCookie
  refine wp_step fun _ w' hset => ?_
  cases hset
  refine wp_pure.mpr ?_
  rw [Post.after_apply, Post.andThen_some, List.append_nil]
  exact hnext

theorem cookiesAfter_nil {cookies : Domain → KiumdIommuDmaCookie}
    (h : trace.filterMap foundRegion = []) : cookiesAfter u trace cookies = cookies := by
  rw [cookiesAfter, h]
  split <;> rfl

/-- Calls that find no region do not count for the cookies. -/
theorem cookiesAfter_append {cookies : Domain → KiumdIommuDmaCookie}
    (h : trace.filterMap foundRegion = []) :
    cookiesAfter u (past ++ trace) cookies = cookiesAfter u past cookies := by
  rw [cookiesAfter, cookiesAfter, List.filterMap_append, h, List.append_nil]

/-! ### The labels -/

/-- At the label `smap_free` nothing but the MMIO context is left. -/
theorem mmioSmapFree_ends (hpast : past.any losesMmioCtx = true)
    (h : Tracks b (.smap p ::ₘ .mmioCtx m ::ₘ 0) w)
    (hcookies : w.cookies = cookiesAfter u past b.cookies) :
    wp kernel .any (mmioSmapFree p none ret) ((EndsMmioMap u fp b).after past) w := by
  refine wp_tracks_give h rfl rfl ?_
  intro w' hsame h'
  refine wp_pure.mpr ⟨.lost ?_ h'.sameTables h'.holds, ?_⟩
  · rw [List.any_append, hpast, Bool.true_or]
  · rw [hsame, hcookies, cookiesAfter_append rfl]

/-- At the label `reg_free` the name is left as well. -/
theorem mmioRegFree_ends (hpast : past.any losesMmioCtx = true)
    (h : Tracks b (.heap regName ::ₘ .smap p ::ₘ .mmioCtx m ::ₘ 0) w)
    (hcookies : w.cookies = cookiesAfter u past b.cookies) :
    wp kernel .any (mmioRegFree p regName none ret) ((EndsMmioMap u fp b).after past) w := by
  refine wp_tracks_give h rfl rfl ?_
  intro w' hsame h'
  rw [Post.after_after]
  refine mmioSmapFree_ends ?_ h' ?_
  · rw [List.any_append, hpast, Bool.true_or]
  · rw [hsame, hcookies, cookiesAfter_append rfl]

/-- The end of the call: when the reply cannot be copied, all is undone. -/
theorem mmioPublish_ends {addr dmaAddr size : U64} (hpast : past.any losesMmioCtx = false)
    (hmapped : (⟨.dmaMapResource dev addr size, dmaAddr⟩ : Event KCall) ∈ past)
    (hiova : dmaAddr ≠ DMA_MAPPING_ERROR) (hfresh : .smap p ∉ b.held)
    (h : Tracks b (.resource dev dmaAddr size ::ₘ .heap regName ::ₘ .mmioCtx m ::ₘ .smap p ::ₘ 0) w)
    (hcookies : w.cookies = cookiesAfter u past b.cookies) :
    wp kernel .any (mmioPublish u c p m regName dev dmaAddr size)
      ((EndsMmioMap u (some (some c)) b).after past) w := by
  have hctxs : w.ctxs = b.ctxs := h.ctxs
  have hheld : w.held = .resource dev dmaAddr size ::ₘ .heap regName ::ₘ .mmioCtx m ::ₘ
      .smap p ::ₘ 0 + b.held := h.holds
  have hany : ∀ trace : List (Event KCall),
      (past ++ trace).any losesMmioCtx = trace.any losesMmioCtx := by
    intro trace
    rw [List.any_append, hpast, Bool.false_or]
  unfold mmioPublish
  refine wp_step fun id w₁ hadd => ?_
  simp only [kernelStep] at hadd
  split at hadd <;> cases hadd
  refine wp_step fun copied w₂ hcopied => ?_
  cases hcopied
  split
  · refine wp_step fun _ w₃ hunmap => wp_step fun _ w₄ hdel => wp_step fun _ w₅ hname => ?_
    cases hunmap
    cases hdel
    cases hname
    refine wp_step fun _ w₆ hctx => wp_step fun _ w₇ hsmap => ?_
    cases hctx
    cases hsmap
    refine wp_pure.mpr ⟨.refused ((hany _).trans rfl) (by decide) ?_ ?_, ?_⟩
    · intro c'
      by_cases hc : c' = c
      · subst hc
        simp [World.setCtx, World.release, hctxs]
      · simp [World.setCtx, World.release, hctxs, hc]
    · simp [Holds, World.setCtx, World.release, hheld]
    · exact hcookies.trans (cookiesAfter_append rfl).symm
  · refine wp_step fun _ w₃ hname => ?_
    cases hname
    refine wp_pure.mpr ⟨.added ((hany _).trans rfl) ?_, ?_⟩
    · refine ⟨c, p, m, addr, ⟨dev, dmaAddr, size⟩, rfl, hfresh, List.mem_append_left _ hmapped,
        hiova, fun c' => ?_, ?_, ?_, ?_⟩
      · by_cases hc : c' = c
        · subst hc
          simp [World.setCtx, World.release, hctxs]
        · simp [World.setCtx, World.release, hctxs, hc]
      · simp [World.setCtx, World.release]
      · simp [World.setCtx, World.release]
      · have hne : Resource.resource dev dmaAddr size ≠ .heap regName := fun h => by cases h
        show w.held.erase (.heap regName) = _
        rw [hheld, Multiset.cons_add, Multiset.erase_cons_tail _ hne, Multiset.cons_add,
          Multiset.erase_cons_head, ← Multiset.cons_add]
    · exact hcookies.trans (cookiesAfter_append rfl).symm

/-- The part that maps the region, which has been found. -/
theorem mmioMapResource_ends {addr size : U64} (hpast : past.any losesMmioCtx = false)
    (hfound : past.filterMap foundRegion = [dev]) (hfresh : .smap p ∉ b.held)
    (h : Tracks b (.heap regName ::ₘ .mmioCtx m ::ₘ .smap p ::ₘ 0) w)
    (hcookies : w.cookies = b.cookies) :
    wp kernel .any (mmioMapResource u c p m regName dev dev.domain addr size)
      ((EndsMmioMap u (some (some c)) b).after past) w := by
  have hany : ∀ trace : List (Event KCall),
      (past ++ trace).any losesMmioCtx = trace.any losesMmioCtx := by
    intro trace
    rw [List.any_append, hpast, Bool.false_or]
  have hfoundAfter : ∀ trace : List (Event KCall), trace.filterMap foundRegion = [] →
      (past ++ trace).filterMap foundRegion = [dev] := by
    intro trace htrace
    rw [List.filterMap_append, hfound, htrace, List.append_nil]
  have hswap : (.heap regName ::ₘ .mmioCtx m ::ₘ .smap p ::ₘ 0 : Multiset Resource) =
      .heap regName ::ₘ .smap p ::ₘ .mmioCtx m ::ₘ 0 := by
    rw [Multiset.cons_swap (Resource.mmioCtx m)]
  unfold mmioMapResource
  split
  · rename_i hfixed
    have hreset : ∀ (trace : List (Event KCall)) (w' : World), trace.filterMap foundRegion = [] →
        w'.cookies = Function.update b.cookies dev.domain ⟨.iova, 0⟩ →
        w'.cookies = cookiesAfter u (past ++ trace) b.cookies := by
      intro trace w' htrace hw'
      rw [hw', cookiesAfter, if_pos hfixed, hfoundAfter trace htrace]
      rfl
    refine wp_setDmaCookie ?_
    rw [if_neg (not_not.mpr rfl)]
    have h₁ : Tracks b (.heap regName ::ₘ .mmioCtx m ::ₘ .smap p ::ₘ 0)
        { w with cookies := Function.update w.cookies dev.domain ⟨.msi, u.iova⟩ } :=
      ⟨h.holds, h.ctxs⟩
    refine wp_tracks h₁ rfl rfl rfl ?_
    intro dmaAddr w₂ _ hcookies₂ h₂
    refine wp_setDmaCookie ?_
    have hcookies₃ : Function.update w₂.cookies dev.domain ⟨.iova, 0⟩ =
        Function.update b.cookies dev.domain ⟨.iova, 0⟩ := by
      rw [hcookies₂, Function.update_idem, hcookies]
    rw [Post.after_after, Post.after_after, Post.after_after]
    by_cases hiova : dmaAddr = DMA_MAPPING_ERROR
    · subst hiova
      rw [if_pos (.inl rfl)]
      rw [hswap] at h₂
      exact mmioRegFree_ends ((hany _).trans rfl) ⟨h₂.holds, h₂.ctxs⟩ (hreset _ _ rfl hcookies₃)
    · have hnot : ¬ (dmaAddr = DMA_MAPPING_ERROR ∨ (0 : Int) ≠ 0) := by simpa using hiova
      rw [if_neg hnot]
      refine mmioPublish_ends ((hany _).trans ?_)
        (List.mem_append_right _ (List.mem_cons_of_mem _ List.mem_cons_self)) hiova hfresh ?_
        (hreset _ _ rfl hcookies₃)
      · simpa [losesMmioCtx] using hiova
      · have htaken : (KCall.dmaMapResource dev addr size).taken dmaAddr =
            some (.resource dev dmaAddr size) := if_neg hiova
        rw [htaken] at h₂
        exact ⟨h₂.holds, h₂.ctxs⟩
  · rename_i hfixed
    have hsame : ∀ (trace : List (Event KCall)) (w' : World), w'.cookies = b.cookies →
        w'.cookies = cookiesAfter u (past ++ trace) b.cookies := by
      intro trace w' hw'
      rw [hw', cookiesAfter, if_neg hfixed]
    refine wp_tracks h rfl rfl rfl ?_
    intro dmaAddr w₁ _ hcookies₁ h₁
    rw [Post.after_after]
    split
    · rename_i herror
      subst herror
      rw [hswap] at h₁
      exact mmioRegFree_ends ((hany _).trans rfl) h₁ (hsame _ _ (hcookies₁.trans hcookies))
    · rename_i hiova
      refine mmioPublish_ends ((hany _).trans ?_) (List.mem_append_right _ List.mem_cons_self)
        hiova hfresh ?_ (hsame _ _ (hcookies₁.trans hcookies))
      · simpa [losesMmioCtx] using hiova
      · simpa [KCall.taken, hiova] using h₁

/-! ### The whole call -/

/-- The postcondition of code that returns a value for which `R` holds, finds no region and leaves
the state as it was. -/
def QuietlyReturns (b : World) (x : Multiset Resource) (w : World) (R : α → Prop) :
    Post KCall World α :=
  fun trace result w' => ∃ value, result = some value ∧ R value ∧ Quiet trace ∧
    w'.cookies = w.cookies ∧ Tracks b x w'

theorem kiumdGetVfioDevice_quietly {fd : Int} (h : Tracks b x w) :
    wp kernel .any (kiumdGetVfioDevice fd) (QuietlyReturns b x w fun _ => True) w := by
  unfold kiumdGetVfioDevice
  split
  · exact wp_pure.mpr ⟨_, rfl, trivial, ⟨rfl, rfl⟩, rfl, h⟩
  refine wp_tracks h rfl rfl rfl ?_
  intro file w₁ _ hcookies₁ h₁
  cases file with
  | none => exact wp_pure.mpr ⟨_, rfl, trivial, ⟨rfl, rfl⟩, hcookies₁, h₁⟩
  | some file =>
  refine wp_tracks h₁ rfl rfl rfl ?_
  intro valid w₂ _ hcookies₂ h₂
  split
  · refine wp_tracks_give h₂ rfl rfl ?_
    intro w₃ hcookies₃ h₃
    exact wp_pure.mpr ⟨_, rfl, trivial, ⟨rfl, rfl⟩,
      hcookies₃.trans (hcookies₂.trans hcookies₁), h₃⟩
  · split
    all_goals
      refine wp_tracks_give h₂ rfl rfl ?_
      intro w₃ hcookies₃ h₃
      exact wp_pure.mpr ⟨_, rfl, trivial, ⟨rfl, rfl⟩,
        hcookies₃.trans (hcookies₂.trans hcookies₁), h₃⟩

/-- The cookie is that of the device's domain. -/
theorem kiumdGetDmaCookie_quietly {v : VfioDevice} (h : Tracks b x w) :
    wp kernel .any (kiumdGetDmaCookie (some v)) (QuietlyReturns b x w fun found =>
      ∀ dom, found = some dom → ∃ dev, v.dev = some dev ∧ dom = dev.domain) w := by
  unfold kiumdGetDmaCookie
  dsimp only
  cases hdev : v.dev with
  | none => exact wp_pure.mpr ⟨_, rfl, nofun, ⟨rfl, rfl⟩, rfl, h⟩
  | some dev =>
  refine wp_tracks h rfl rfl rfl ?_
  intro domain w₁ hdomain hcookies₁ h₁
  cases domain with
  | none => exact wp_pure.mpr ⟨_, rfl, nofun, ⟨rfl, rfl⟩, hcookies₁, h₁⟩
  | some domain =>
  obtain rfl : domain = dev.domain := by
    simp only [kernelStep] at hdomain
    split at hdomain
    · assumption
    · cases hdomain
  refine wp_tracks h₁ rfl rfl rfl ?_
  intro cookie w₂ _ hcookies₂ h₂
  have hcookies := hcookies₂.trans hcookies₁
  split
  · exact wp_pure.mpr ⟨_, rfl, nofun, ⟨rfl, rfl⟩, hcookies, h₂⟩
  · refine wp_pure.mpr ⟨_, rfl, ?_, ⟨rfl, rfl⟩, hcookies, h₂⟩
    rintro _ ⟨rfl⟩
    exact ⟨dev, rfl, rfl⟩

/-- The rule for such code. -/
theorem wp_quietly {p : KProg β} {rest : β → KProg α} {R : β → Prop} {Q : Post KCall World α}
    (h : wp kernel .any p (QuietlyReturns b x w R) w)
    (hnext : ∀ value own w', R value → Quiet own → w'.cookies = w.cookies → Tracks b x w' →
      wp kernel .any (rest value) (Q.after own) w') :
    wp kernel .any (p >>= rest) Q w := by
  rw [wp_bind]
  refine wp_mono h ?_
  rintro own _ w' ⟨value, rfl, hR, hquiet, hcookies, h'⟩
  exact hnext value own w' hR hquiet hcookies h'

theorem Quiet.lost (h : Quiet past) (htrace : trace.any losesMmioCtx = true) :
    (past ++ trace).any losesMmioCtx = true := by
  rw [List.any_append, h.loses, htrace, Bool.false_or]

theorem Quiet.kept (h : Quiet past) (htrace : trace.filterMap foundRegion = [])
    (hcookies : w.cookies = b.cookies) : w.cookies = cookiesAfter u (past ++ trace) b.cookies := by
  rw [cookiesAfter_append htrace, cookiesAfter_nil h.finds, hcookies]

/-- A refusal before a region is found. -/
theorem refused_ends (hpast : Quiet past) (hret : ret < 0) (h : Tracks b 0 w)
    (hcookies : w.cookies = b.cookies) :
    wp kernel .any (pure ret) ((EndsMmioMap u fp b).after past) w := by
  refine wp_pure.mpr ?_
  rw [Post.after_apply, List.append_nil]
  refine ⟨.refused hpast.loses hret h.sameTables h.holds, ?_⟩
  rw [hcookies, cookiesAfter_nil hpast.finds]

/-- Every execution of the call ends in one of the ways of `MmioMapEnd`. -/
theorem kiumdMmioSmmuMap_ends :
    wp kernel .any (kiumdMmioSmmuMap ret₀ u fp) (EndsMmioMap u fp w) w := by
  have hnil : EndsMmioMap u fp w = (EndsMmioMap u fp w).after [] := rfl
  have h := Tracks.refl w
  unfold kiumdMmioSmmuMap
  rcases fp with _ | _ | c
  · rw [hnil]
    exact refused_ends ⟨rfl, rfl⟩ (by decide) h rfl
  · rw [hnil]
    exact refused_ends ⟨rfl, rfl⟩ (by decide) h rfl
  dsimp only
  refine wp_tracks h rfl rfl rfl ?_
  intro copied w₁ _ hcookies₁ h₁
  have hpast₁ : Quiet [⟨.copyFromUser (.mmio u), copied⟩] := ⟨rfl, rfl⟩
  split
  · exact refused_ends hpast₁ (by decide) h₁ hcookies₁
  refine wp_quietly (kiumdGetVfioDevice_quietly h₁) ?_
  intro device own₂ w₂ _ hown₂ hcookies₂ h₂
  rw [Post.after_after]
  have hpast₂ := hpast₁.append hown₂
  replace hcookies₂ := hcookies₂.trans hcookies₁
  cases device with
  | none => exact refused_ends hpast₂ (by decide) h₂ hcookies₂
  | some v =>
  refine wp_quietly (kiumdGetDmaCookie_quietly h₂) ?_
  intro domain own₃ w₃ hdomain hown₃ hcookies₃ h₃
  rw [Post.after_after]
  have hpast₃ := hpast₂.append hown₃
  replace hcookies₃ := hcookies₃.trans hcookies₂
  cases domain with
  | none => exact refused_ends hpast₃ (by decide) h₃ hcookies₃
  | some dom =>
  obtain ⟨dev, hdev, rfl⟩ := hdomain dom rfl
  refine wp_tracks h₃ rfl rfl rfl ?_
  intro busy w₄ _ hcookies₄ h₄
  rw [Post.after_after]
  have hpast₄ := hpast₃.append
    (⟨rfl, rfl⟩ : Quiet [⟨.smmuScanMmio c (u.fixedIova ≠ 0) u.iova, busy⟩])
  replace hcookies₄ := hcookies₄.trans hcookies₃
  split
  · exact refused_ends hpast₄ (by decide) h₄ hcookies₄
  refine wp_tracks h₄ rfl rfl rfl ?_
  intro smap w₅ hsmap hcookies₅ h₅
  rw [Post.after_after]
  have hpast₅ := hpast₄.append (⟨rfl, rfl⟩ : Quiet [⟨.kzallocSmap, smap⟩])
  replace hcookies₅ := hcookies₅.trans hcookies₄
  cases smap with
  | none => exact refused_ends hpast₅ (by decide) h₅ hcookies₅
  | some p =>
  have hfresh : .smap p ∉ w.held := by
    have hheld : w₄.held = 0 + w.held := h₄.holds
    simp only [kernelStep] at hsmap
    split at hsmap <;> cases hsmap
    rename_i hfresh
    rwa [hheld, zero_add] at hfresh
  refine wp_tracks h₅ rfl rfl rfl ?_
  intro mmioCtx w₆ _ hcookies₆ h₆
  rw [Post.after_after]
  have hpast₆ := hpast₅.append (⟨rfl, rfl⟩ : Quiet [⟨.kzallocMmioCtx, mmioCtx⟩])
  replace hcookies₆ := hcookies₆.trans hcookies₅
  cases mmioCtx with
  | none =>
      have h₆ : Tracks w (.smap p ::ₘ 0) w₆ := h₆
      refine wp_tracks_give h₆ rfl rfl ?_
      intro w₇ hcookies₇ h₇
      rw [Post.after_after]
      exact refused_ends (hpast₆.append (⟨rfl, rfl⟩ : Quiet [⟨.kfreeSmap p, ()⟩])) (by decide) h₇
        (hcookies₇.trans hcookies₆)
  | some m =>
  have h₆ : Tracks w (.mmioCtx m ::ₘ .smap p ::ₘ 0) w₆ := h₆
  -- from here on the exits leave the MMIO context
  refine wp_tracks h₆ rfl rfl rfl ?_
  intro regName w₇ _ hcookies₇ h₇
  rw [Post.after_after]
  replace hcookies₇ := hcookies₇.trans hcookies₆
  cases regName with
  | none =>
      have h₇ : Tracks w (.mmioCtx m ::ₘ .smap p ::ₘ 0) w₇ := h₇
      rw [Multiset.cons_swap] at h₇
      exact mmioSmapFree_ends (hpast₆.lost rfl) h₇ (hpast₆.kept rfl hcookies₇)
  | some regName =>
  have h₇ : Tracks w (.heap regName ::ₘ .mmioCtx m ::ₘ .smap p ::ₘ 0) w₇ := h₇
  have hpast₇ := hpast₆.append
    (⟨rfl, rfl⟩ : Quiet [⟨.strndupUser u.regName, some regName⟩])
  have hswap : (.heap regName ::ₘ .mmioCtx m ::ₘ .smap p ::ₘ 0 : Multiset Resource) =
      .heap regName ::ₘ .smap p ::ₘ .mmioCtx m ::ₘ 0 := by
    rw [Multiset.cons_swap (Resource.mmioCtx m)]
  simp only [hdev]
  refine wp_tracks h₇ rfl rfl rfl ?_
  intro platform w₈ _ hcookies₈ h₈
  rw [Post.after_after]
  replace hcookies₈ := hcookies₈.trans hcookies₇
  cases platform with
  | false =>
      have h₈ : Tracks w (.heap regName ::ₘ .mmioCtx m ::ₘ .smap p ::ₘ 0) w₈ := h₈
      rw [hswap] at h₈
      exact mmioRegFree_ends (hpast₇.lost rfl) h₈ (hpast₇.kept rfl hcookies₈)
  | true =>
  have h₈ : Tracks w (.heap regName ::ₘ .mmioCtx m ::ₘ .smap p ::ₘ 0) w₈ := h₈
  have hpast₈ := hpast₇.append (⟨rfl, rfl⟩ : Quiet [⟨.devIsPlatform dev, true⟩])
  refine wp_tracks h₈ rfl rfl rfl ?_
  intro region w₉ _ hcookies₉ h₉
  rw [Post.after_after]
  replace hcookies₉ := hcookies₉.trans hcookies₈
  cases region with
  | none =>
      have h₉ : Tracks w (.heap regName ::ₘ .mmioCtx m ::ₘ .smap p ::ₘ 0) w₉ := h₉
      rw [hswap] at h₉
      exact mmioRegFree_ends (hpast₈.lost rfl) h₉ (hpast₈.kept rfl hcookies₉)
  | some region =>
      refine mmioMapResource_ends ?_ ?_ hfresh h₉ hcookies₉
      · rw [List.any_append, hpast₈.loses]
        rfl
      · rw [List.filterMap_append, hpast₈.finds]
        rfl

/-! ## The mutex is released -/

variable {locked locked' : Domain → Bool}

/-- The postcondition of code that leaves the mutexes as they were. -/
def Unlocks (locked : Domain → Bool) :
    Post (Either KCall CookieMutex) (World × (Domain → Bool)) α :=
  fun _ _ s => s.2 = locked

/-- Code without a call on a mutex leaves the mutexes alone. -/
theorem wp_lift_unlocks {p : KProg α} :
    wp mutexKernel .any (p.lift .inl) (Unlocks locked) (w, locked) := by
  have hp : wp kernel .any p (fun _ _ _ => True) w := wp_always fun _ _ _ => trivial
  refine wp_mono (wp_lift_left hp) ?_
  rintro _ _ s ⟨_, _, _, hs⟩
  exact hs

theorem wp_lift_then {p : KProg β} {rest : β → MutexProg α}
    (hnext : ∀ value w', wp mutexKernel .any (rest value) (Unlocks locked) (w', locked)) :
    wp mutexKernel .any (p.lift .inl >>= rest) (Unlocks locked) (w, locked) := by
  rw [wp_bind]
  refine wp_mono (wp_lift_unlocks (p := p)) ?_
  rintro trace result ⟨w', l⟩ hl
  obtain rfl : l = locked := hl
  cases result with
  | none => rfl
  | some value => exact hnext value w'

/-- A cookie that is set is set without an error. -/
theorem wp_lift_setDmaCookie {type : IommuDmaCookieType} {iova : U64}
    {rest : Int → MutexProg α} {Q : Post (Either KCall CookieMutex) (World × (Domain → Bool)) α}
    (hnext : ∀ own w', wp mutexKernel .any (rest 0) (Q.after own) (w', locked)) :
    wp mutexKernel .any ((kiumdSetDmaCookie (some dom) type iova).lift .inl >>= rest) Q
      (w, locked) := by
  have hset : wp kernel .any (kiumdSetDmaCookie (some dom) type iova)
      (fun _ result _ => result = some 0) w := wp_step fun _ _ _ => wp_pure.mpr rfl
  rw [wp_bind]
  refine wp_mono (wp_lift_left hset) ?_
  rintro trace result ⟨w', l⟩ ⟨own, rfl, rfl, rfl⟩
  exact hnext _ w'

theorem mmioMapResourceLocked_unlocks {addr size : U64} :
    wp mutexKernel .any (mmioMapResourceLocked u c p m regName dev dom addr size)
      (Unlocks locked) (w, locked) := by
  unfold mmioMapResourceLocked
  split
  · refine wp_right fun _ locked₁ hlock => ?_
    simp only [mutexStep] at hlock
    split at hlock <;> cases hlock
    rename_i hfree
    have hunlocked : Function.update (Function.update locked dom true) dom false = locked := by
      rw [Function.update_idem, Function.update_eq_self_iff]
      exact (Bool.eq_false_iff.mpr hfree).symm
    refine wp_lift_setDmaCookie fun own w₁ => ?_
    rw [if_neg (not_not.mpr rfl)]
    refine wp_left fun dmaAddr w₂ _ => wp_lift_setDmaCookie fun own' w₃ => ?_
    refine wp_right fun _ locked₂ hunlock => ?_
    cases hunlock
    rw [hunlocked]
    split <;> exact wp_lift_unlocks
  · exact wp_lift_unlocks

/-- On every path the mutex is released. -/
theorem kiumdMmioSmmuMapLocked_unlocks :
    wp mutexKernel .any (kiumdMmioSmmuMapLocked ret₀ u fp) (Unlocks locked) (w, locked) := by
  unfold kiumdMmioSmmuMapLocked
  rcases fp with _ | _ | c
  · exact wp_pure.mpr rfl
  · exact wp_pure.mpr rfl
  refine wp_left fun copied w₁ _ => ?_
  split
  · exact wp_pure.mpr rfl
  refine wp_lift_then fun device w₂ => ?_
  cases device with
  | none => exact wp_pure.mpr rfl
  | some v =>
  refine wp_lift_then fun domain w₃ => ?_
  cases domain with
  | none => exact wp_pure.mpr rfl
  | some dom =>
  refine wp_left fun busy w₄ _ => ?_
  split
  · exact wp_pure.mpr rfl
  refine wp_left fun smap w₅ _ => ?_
  cases smap with
  | none => exact wp_pure.mpr rfl
  | some p =>
  refine wp_left fun mmioCtx w₆ _ => ?_
  cases mmioCtx with
  | none => exact wp_left fun _ w₇ _ => wp_pure.mpr rfl
  | some m =>
  refine wp_left fun regName w₇ _ => ?_
  cases regName with
  | none => exact wp_lift_unlocks
  | some regName =>
  dsimp only
  cases v.dev with
  | none => exact wp_perform_bind.mpr ⟨trivial, fun _ => rfl, fun answer => answer.elim⟩
  | some dev =>
  refine wp_left fun platform w₈ _ => ?_
  split
  · exact wp_lift_unlocks
  refine wp_left fun region w₉ _ => ?_
  cases region with
  | none => exact wp_lift_unlocks
  | some region => exact mmioMapResourceLocked_unlocks

/-! ## What a request reports -/

/-- A request returns 0 if and only if an entry has been added, and otherwise a negative value with
the tables, the mappings and the heap as before; the mutexes are as before. -/
structure MmioMapReports (fp : Option (Option Nat)) (w w' : World) (locked locked' : Domain → Bool)
    (trace : List (Event KCall)) (result : Option Int) : Prop where
  returns : ∃ ret, result = some ret
  added_iff : result = some 0 ↔ EntryAdded fp w trace w'
  failed : ∀ ret, result = some ret → ret ≠ 0 →
    ret < 0 ∧ SameTables w w' ∧ w'.held = w.held
  released : locked' = locked

theorem EntryAdded.not_sameTables (h : EntryAdded fp b trace w) : ¬ SameTables b w := by
  obtain ⟨c, p, m, addr, mmio, -, -, -, -, htables, -⟩ := h
  intro hsame
  have hc := htables c
  rw [if_pos rfl, hsame c] at hc
  exact List.cons_ne_self _ _ hc.symm

/-- The driver's part of an execution. -/
theorem mmioMapEnd_of_exec {trace : List (Event (Either KCall CookieMutex))} {result : Option Int}
    (hexec : Exec mutexKernel (kiumdMmioSmmuMapLocked ret₀ u fp) (w, locked) trace result
      (w', locked')) :
    MmioMapEnd fp w (trace.filterMap Event.left) result w' := by
  have herased := hexec.erase mutexReply_only
  rw [erase_kiumdMmioSmmuMapLocked] at herased
  have hend : EndsMmioMap u fp w (trace.filterMap Event.left) result w' :=
    wp_exec kiumdMmioSmmuMap_ends herased
  exact hend.1

/-- A request reports what it has done and a failed one leaves everything as it was if and only if
no call after the allocation of the MMIO context fails but that of the reply: the name is read, the
device is a platform device, its region is found and the region is mapped. -/
theorem mmio_map_reports_iff {trace : List (Event (Either KCall CookieMutex))}
    {result : Option Int}
    (hexec : Exec mutexKernel (kiumdMmioSmmuMapLocked ret₀ u fp) (w, locked) trace result
      (w', locked')) :
    MmioMapReports fp w w' locked locked' (trace.filterMap Event.left) result ↔
      ∀ e ∈ trace.filterMap Event.left, losesMmioCtx e = false := by
  have hreleased : Unlocks locked trace result (w', locked') :=
    wp_exec kiumdMmioSmmuMapLocked_unlocks hexec
  have hiff : (trace.filterMap Event.left).any losesMmioCtx = false ↔
      ∀ e ∈ trace.filterMap Event.left, losesMmioCtx e = false := by
    simp only [List.any_eq_false, Bool.not_eq_true]
  rw [← hiff]
  cases mmioMapEnd_of_exec hexec with
  | @refused ret _ hany hret htables hheld =>
      have hsame : w'.held = w.held := hheld.trans (zero_add _)
      refine iff_of_true ⟨⟨ret, rfl⟩, ?_, ?_, hreleased⟩ hany
      · refine iff_of_false (fun hzero => hret.ne (Option.some.inj hzero)) fun hadded => ?_
        exact hadded.not_sameTables htables
      · rintro _ ⟨rfl⟩ _
        exact ⟨hret, htables, hsame⟩
  | @lost ret m _ hany htables hheld =>
      refine iff_of_false (fun hreports => ?_) (by rw [hany]; decide)
      by_cases hzero : ret = 0
      · subst hzero
        exact (hreports.added_iff.mp rfl).not_sameTables htables
      · have hsame := (hreports.failed ret rfl hzero).2.2
        have hcons : w'.held = .mmioCtx m ::ₘ w.held := by
          rw [hheld, Multiset.cons_add, zero_add]
        have hcard := congrArg Multiset.card (hcons.symm.trans hsame)
        rw [Multiset.card_cons] at hcard
        omega
  | added hany hadded =>
      refine iff_of_true ⟨⟨0, rfl⟩, iff_of_true rfl hadded, ?_, hreleased⟩ hany
      intro ret hresult hret
      exact absurd (Option.some.inj hresult).symm hret

/-- A request for a mapping at a fixed IOVA. -/
def fixedMmio : KiumdSmmuMmioMap := ⟨1, 3, 0, 0x7000, 0, 0⟩

/-- Answers of the kernel in which every mutex can be taken. -/
def mutexChoose (k : Answers) : Chooser (Either KCall CookieMutex) (World × (Domain → Bool))
  | _, .inl request, s => k.choose _ request s.1
  | _, .inr (.mutexLock _), _ => some ()
  | _, .inr (.mutexUnlock _), _ => some ()

/-- A request for a fixed IOVA whose reply cannot be copied leaves everything as it was. -/
theorem mmio_map_reports_iff_reply : ∃ trace w' locked',
    Exec mutexKernel (kiumdMmioSmmuMapLocked 0 fixedMmio (some (some 0)))
      (.initial, fun _ => false) trace (some (-EFAULT)) (w', locked') ∧
    MmioMapReports (some (some 0)) .initial w' (fun _ => false) locked'
      (trace.filterMap Event.left) (some (-EFAULT)) := by
  have hcheck : (kiumdMmioSmmuMapLocked 0 fixedMmio (some (some 0))).check mutexKernel
      (mutexChoose (Answers.plain KCall.isCopyToUser)) (.initial, fun _ => false)
      (fun trace ret _ => decide (ret = -EFAULT) &&
        (trace.filterMap Event.left).all (!losesMmioCtx ·)) = true := by
    decide +kernel
  obtain ⟨trace, ret, ⟨w', locked'⟩, hexec, htest⟩ := Program.check_exec hcheck
  simp only [Bool.and_eq_true, decide_eq_true_eq, List.all_eq_true, Bool.not_eq_true'] at htest
  obtain ⟨rfl, hloses⟩ := htest
  exact ⟨trace, w', locked', hexec, (mmio_map_reports_iff hexec).mpr hloses⟩

/-- A request for an unknown register region leaves the MMIO context it has allocated. -/
theorem not_mmio_map_reports : ¬ ∀ ret₀ u fp w locked trace result w' locked',
    Exec mutexKernel (kiumdMmioSmmuMapLocked ret₀ u fp) (w, locked) trace result (w', locked') →
      MmioMapReports fp w w' locked locked' (trace.filterMap Event.left) result := by
  intro hall
  let fails : (β : Type) → KCall β → Bool := fun _ request =>
    match request with
    | .platformGetResourceByname _ _ => true
    | _ => false
  have hcheck : (kiumdMmioSmmuMapLocked 0 fixedMmio (some (some 0))).check mutexKernel
      (mutexChoose (Answers.plain fails)) (.initial, fun _ => false)
      (fun _ ret s => decide (ret ≠ 0) && decide (s.1.held ≠ 0)) = true := by
    decide +kernel
  obtain ⟨trace, ret, ⟨w', locked'⟩, hexec, htest⟩ := Program.check_exec hcheck
  simp only [Bool.and_eq_true, decide_eq_true_eq] at htest
  obtain ⟨hret, hheld⟩ := htest
  exact hheld ((hall _ _ _ _ _ _ _ _ _ hexec).failed ret rfl hret).2.2

end SafeLinux.Kiumd
