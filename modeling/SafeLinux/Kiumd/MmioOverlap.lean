import SafeLinux.Kiumd.Backing
import SafeLinux.Kiumd.MmioSharing

/-!
# Fixed mappings do not overlap

`MmioInv` is the invariant of the threads that share a context: the entries of the table and what
each thread has allocated are different pieces of memory, and a range that a request for a fixed
IOVA has asked for overlaps neither a fixed entry nor the range of another request. Each call of a
request keeps it (`MmioInv.update`), as long as the calls stay within the checks.
-/

namespace SafeLinux.Kiumd

open Effects
open Effects.Program (perform)

variable {c t u : Nat} {s s' : MmioSharing} {w w' : World} {fixed fixed' : Nat → Bool}
  {x x' y : MmioProgress}

/-! ## The invariant -/

theorem KiumdSmmuMmioCtx.Overlaps.symm {mmio mmio' : KiumdSmmuMmioCtx} (h : mmio.Overlaps mmio') :
    mmio'.Overlaps mmio := by
  obtain ⟨hdev, a, ha, ha'⟩ := h
  exact ⟨hdev.symm, a, ha', ha⟩

/-- The entries of the table have each their own memory, and the fixed ones their own addresses. -/
structure TableSound (c : Nat) (w : World) (fixed : Nat → Bool) : Prop where
  nodup : (w.table c).Nodup
  smap : ∀ p ∈ w.table c, .smap p ∈ w.held
  context : ∀ p ∈ w.table c, ∃ m, (w.smaps p).context = some m ∧ .mmioCtx m ∈ w.held
  separate : ∀ p ∈ w.table c, ∀ q ∈ w.table c, p ≠ q →
    (w.smaps p).context ≠ (w.smaps q).context
  disjoint : ∀ p ∈ w.table c, ∀ q ∈ w.table c, p ≠ q → fixed p = true → fixed q = true →
    ¬ (w.mmio p).Overlaps (w.mmio q)

/-- What a thread has allocated is not in the table, the entry it works on is, and the range it has
asked for overlaps no fixed entry. -/
structure ThreadSound (c : Nat) (w : World) (fixed : Nat → Bool) (x : MmioProgress) : Prop where
  fresh : ∀ p, x.fresh = some p → .smap p ∈ w.held ∧ p ∉ w.table c
  freshCtx : ∀ m, x.freshCtx = some m →
    .mmioCtx m ∈ w.held ∧ ∀ p ∈ w.table c, (w.smaps p).context ≠ some m
  taken : ∀ p, x.taken = some p → p ∈ w.table c
  claim : ∀ r, x.claim = some r → ∀ p ∈ w.table c, fixed p = true → ¬ (w.mmio p).Overlaps r

/-- Two threads have different memory, different entries and ranges apart. -/
structure Separate (x y : MmioProgress) : Prop where
  fresh : ∀ p, x.fresh = some p → y.fresh ≠ some p
  freshCtx : ∀ m, x.freshCtx = some m → y.freshCtx ≠ some m
  taken : ∀ p, x.taken = some p → y.taken ≠ some p
  claim : ∀ r r', x.claim = some r → y.claim = some r' → ¬ r.Overlaps r'

/-- What holds between any two calls. -/
structure MmioInv (c : Nat) (s : MmioSharing) : Prop where
  table : TableSound c s.world s.fixed
  threads : ∀ t, ThreadSound c s.world s.fixed (s.progress t)
  separate : ∀ t u, t ≠ u → Separate (s.progress t) (s.progress u)

theorem Separate.symm (h : Separate x y) : Separate y x where
  fresh p hy hx := h.fresh p hx hy
  freshCtx m hy hx := h.freshCtx m hx hy
  taken p hy hx := h.taken p hx hy
  claim r r' hy hx hoverlaps := h.claim r' r hx hy hoverlaps.symm

/-- A thread that has done nothing is separate from every other. -/
theorem separate_start {job : Option MmioJob} : Separate { job := job } y :=
  ⟨nofun, nofun, nofun, nofun⟩

theorem threadSound_start {job : Option MmioJob} : ThreadSound c w fixed { job := job } :=
  ⟨nofun, nofun, nofun, nofun⟩

/-- The invariant after a step of one thread: the table and this thread are sound, and the others
stay sound and separate from it. -/
theorem MmioInv.update {mutex : Domain → Option Nat} (h : MmioInv c s)
    (htable : TableSound c w' fixed') (hthread : ThreadSound c w' fixed' x')
    (hothers : ∀ u, u ≠ t → ThreadSound c s.world s.fixed (s.progress u) →
      Separate (s.progress t) (s.progress u) →
        ThreadSound c w' fixed' (s.progress u) ∧ Separate x' (s.progress u)) :
    MmioInv c ⟨w', mutex, fixed', Function.update s.progress t x'⟩ := by
  have hother : ∀ u, u ≠ t →
      ThreadSound c w' fixed' (s.progress u) ∧ Separate x' (s.progress u) := fun u hu =>
    hothers u hu (h.threads u) (h.separate t u (Ne.symm hu))
  refine ⟨htable, fun u => ?_, fun u v huv => ?_⟩
  · dsimp only
    by_cases hu : u = t
    · rw [hu, Function.update_self]
      exact hthread
    · rw [Function.update_of_ne hu]
      exact (hother u hu).1
  · dsimp only
    by_cases hu : u = t
    · subst hu
      rw [Function.update_self, Function.update_of_ne (Ne.symm huv)]
      exact (hother v (Ne.symm huv)).2
    · rw [Function.update_of_ne hu]
      by_cases hv : v = t
      · rw [hv, Function.update_self]
        exact (hother u hu).2.symm
      · rw [Function.update_of_ne hv]
        exact h.separate u v huv

/-! ## What a call keeps -/

/-- A call leaves the entries that stay in the table, and their memory. -/
structure LeavesEntries (c : Nat) (w w' : World) : Prop where
  table : (w'.table c).Sublist (w.table c)
  smaps : ∀ p ∈ w'.table c, w'.smaps p = w.smaps p
  mmioCtxs : w'.mmioCtxs = w.mmioCtxs
  smap : ∀ p ∈ w'.table c, .smap p ∈ w.held → .smap p ∈ w'.held
  mmioCtx : ∀ p ∈ w'.table c, ∀ m, (w.smaps p).context = some m → .mmioCtx m ∈ w.held →
    .mmioCtx m ∈ w'.held

theorem LeavesEntries.mmio (h : LeavesEntries c w w') {p : Nat} (hp : p ∈ w'.table c) :
    w'.mmio p = w.mmio p := by
  rw [World.mmio, World.mmio, h.smaps p hp, h.mmioCtxs]

theorem TableSound.keeps (h : TableSound c w fixed) (hkeeps : LeavesEntries c w w') :
    TableSound c w' fixed where
  nodup := h.nodup.sublist hkeeps.table
  smap p hp := hkeeps.smap p hp (h.smap p (hkeeps.table.subset hp))
  context p hp := by
    obtain ⟨m, hm, hheld⟩ := h.context p (hkeeps.table.subset hp)
    exact ⟨m, (hkeeps.smaps p hp).symm ▸ hm, hkeeps.mmioCtx p hp m hm hheld⟩
  separate p hp q hq hpq := by
    rw [hkeeps.smaps p hp, hkeeps.smaps q hq]
    exact h.separate p (hkeeps.table.subset hp) q (hkeeps.table.subset hq) hpq
  disjoint p hp q hq hpq hfp hfq := by
    rw [hkeeps.mmio hp, hkeeps.mmio hq]
    exact h.disjoint p (hkeeps.table.subset hp) q (hkeeps.table.subset hq) hpq hfp hfq

/-- A thread whose memory and whose entry a call leaves stays sound. -/
theorem ThreadSound.keeps (h : ThreadSound c w fixed x) (hkeeps : LeavesEntries c w w')
    (hfresh : ∀ p, x.fresh = some p → .smap p ∈ w.held → .smap p ∈ w'.held)
    (hfreshCtx : ∀ m, x.freshCtx = some m → .mmioCtx m ∈ w.held → .mmioCtx m ∈ w'.held)
    (htaken : ∀ p, x.taken = some p → p ∈ w'.table c) : ThreadSound c w' fixed x where
  fresh p hp := by
    obtain ⟨hheld, hmem⟩ := h.fresh p hp
    exact ⟨hfresh p hp hheld, fun hp' => hmem (hkeeps.table.subset hp')⟩
  freshCtx m hm := by
    obtain ⟨hheld, hcontext⟩ := h.freshCtx m hm
    refine ⟨hfreshCtx m hm hheld, fun p hp => ?_⟩
    rw [hkeeps.smaps p hp]
    exact hcontext p (hkeeps.table.subset hp)
  taken := htaken
  claim r hr p hp hfixed := by
    rw [hkeeps.mmio hp]
    exact h.claim r hr p (hkeeps.table.subset hp) hfixed

/-! ## The threads -/

/-- What a thread expects of the others: they leave what its request has come to, the cookie whose
mutex it holds, and the entry it works on. -/
structure MmioRely (c t : Nat) (s s' : MmioSharing) : Prop where
  inv : MmioInv c s → MmioInv c s'
  progress : s'.progress t = s.progress t
  cookie : ∀ dom, s.mutex dom = some t →
    s'.mutex dom = some t ∧ s'.world.cookies dom = s.world.cookies dom
  taken : ∀ p, (s.progress t).taken = some p →
    (s'.world.smaps p).context = (s.world.smaps p).context

/-- What a thread does to the others. -/
def MmioGuarantee (c t : Nat) (s s' : MmioSharing) : Prop := ∀ u, u ≠ t → MmioRely c u s s'

/-- The program of a thread goes on safely. -/
abbrev MmioSafe (c t : Nat) (p : KProg Int) (s : MmioSharing) : Prop :=
  p.Safe ⟨mmioStep t⟩ (WithinChecks c t) (MmioRely c t) (MmioGuarantee c t) (fun _ => MmioInv c) s

theorem MmioRely.refl (c t : Nat) (s : MmioSharing) : MmioRely c t s s :=
  ⟨id, rfl, fun _ h => ⟨h, rfl⟩, fun _ _ => rfl⟩

theorem MmioRely.trans {s'' : MmioSharing} (h : MmioRely c t s s') (h' : MmioRely c t s' s'') :
    MmioRely c t s s'' := by
  refine ⟨h'.inv ∘ h.inv, h'.progress.trans h.progress, fun dom hdom => ?_, fun p hp => ?_⟩
  · obtain ⟨hmutex, hcookie⟩ := h.cookie dom hdom
    obtain ⟨hmutex', hcookie'⟩ := h'.cookie dom hmutex
    exact ⟨hmutex', hcookie'.trans hcookie⟩
  · exact (h'.taken p (h.progress ▸ hp)).trans (h.taken p hp)

/-- What a thread knows of the shared state, whatever the others do. -/
structure Known (c t : Nat) (K : MmioSharing → Prop) : Prop where
  inv : ∀ s, K s → MmioInv c s
  stable : ∀ s s', MmioRely c t s s' → K s → K s'

/-- The request of a thread has come to `x`. -/
def At (c t : Nat) (x : MmioProgress) (s : MmioSharing) : Prop := MmioInv c s ∧ s.progress t = x

/-- It also holds the mutex of a cookie with a fixed IOVA. -/
def Placing (c t : Nat) (x : MmioProgress) (dom : Domain) (iova : U64) (s : MmioSharing) : Prop :=
  At c t x s ∧ s.mutex dom = some t ∧ s.world.cookies dom = ⟨.msi, iova⟩

/-- It also works on an entry with the context `m`. -/
def Recorded (c t : Nat) (x : MmioProgress) (p m : Nat) (s : MmioSharing) : Prop :=
  At c t x s ∧ x.taken = some p ∧ (s.world.smaps p).context = some m

theorem known_at : Known c t (At c t x) where
  inv _ h := h.1
  stable _ _ hrely h := ⟨hrely.inv h.1, hrely.progress.trans h.2⟩

theorem known_placing {dom : Domain} {iova : U64} : Known c t (Placing c t x dom iova) where
  inv _ h := h.1.1
  stable s s' hrely h := by
    obtain ⟨hat, hmutex, hcookie⟩ := h
    obtain ⟨hmutex', hcookie'⟩ := hrely.cookie dom hmutex
    exact ⟨known_at.stable s s' hrely hat, hmutex', hcookie'.trans hcookie⟩

theorem known_recorded {p m : Nat} : Known c t (Recorded c t x p m) where
  inv _ h := h.1.1
  stable s s' hrely h := by
    obtain ⟨hat, htaken, hcontext⟩ := h
    exact ⟨known_at.stable s s' hrely hat, htaken,
      (hrely.taken p (hat.2 ▸ htaken)).trans hcontext⟩

variable {β : Type} {request : KCall β} {answer : β} {K : MmioSharing → Prop}

/-- The state after a call. -/
def MmioSharing.after (s : MmioSharing) (t : Nat) (e : Event KCall) (w : World) : MmioSharing where
  world := w
  mutex := mutexAfter s.mutex t e
  fixed := fixedAfter s.fixed (s.progress t).job e
  progress := Function.update s.progress t ((s.progress t).after s.world e)

theorem mmioStep_cases (h : mmioStep t request s answer = some s') :
    mmioAnswers s t ⟨request, answer⟩ = true ∧
      ∃ w, kernelStep request s.world answer = some w ∧ s' = s.after t ⟨request, answer⟩ w := by
  unfold mmioStep at h
  split at h
  · rename_i hanswers
    obtain ⟨w, hstep, rfl⟩ := Option.map_eq_some_iff.mp h
    exact ⟨hanswers, w, hstep, rfl⟩
  · cases h

/-- The rule for a call. -/
theorem mmioSafe_call {rest : β → KProg Int} (hK : Known c t K) (h : K s)
    (hcall : ∀ s answer w, K s → mmioAnswers s t ⟨request, answer⟩ = true →
      kernelStep request s.world answer = some w → WithinChecks c t s ⟨request, answer⟩ →
        MmioGuarantee c t s (s.after t ⟨request, answer⟩ w) ∧
          MmioSafe c t (rest answer) (s.after t ⟨request, answer⟩ w)) :
    MmioSafe c t (perform request >>= rest) s := by
  intro s₁ hrely answer s₂ hstep hchecks
  obtain ⟨hanswers, w, hkernel, rfl⟩ := mmioStep_cases hstep
  exact hcall s₁ answer w (hK.stable s s₁ hrely h) hanswers hkernel hchecks

/-- A thread that keeps the invariant, the mutexes of the others and their entries stays within its
guarantee. -/
theorem mmioGuarantee_after {e : Event KCall} (hinv : MmioInv c (s.after t e w))
    (hcookie : ∀ u ≠ t, ∀ dom, s.mutex dom = some u →
      mutexAfter s.mutex t e dom = some u ∧ w.cookies dom = s.world.cookies dom)
    (htaken : ∀ u ≠ t, ∀ p, (s.progress u).taken = some p →
      (w.smaps p).context = (s.world.smaps p).context) :
    MmioGuarantee c t s (s.after t e w) := fun u hu =>
  ⟨fun _ => hinv, Function.update_of_ne hu _ _, hcookie u hu, htaken u hu⟩

/-! ## Calls that leave the table and its memory -/

/-- The calls that the invariant does not see. -/
inductive MmioQuiet : (β : Type) → KCall β → Prop where
  | copyFromUser {arg : UserStruct} : MmioQuiet _ (.copyFromUser arg)
  | copyToUser {arg : UserStruct} : MmioQuiet _ (.copyToUser arg)
  | strndupUser {name : Nat} : MmioQuiet _ (.strndupUser name)
  | kfree {p : Nat} : MmioQuiet _ (.kfree p)
  | readSmap {p : Nat} : MmioQuiet _ (.readSmap p)
  | readMmioCtx {m : Nat} : MmioQuiet _ (.readMmioCtx m)
  | fget {fd : Int} : MmioQuiet _ (.fget fd)
  | fput {f : File} : MmioQuiet _ (.fput f)
  | vfioFileIsValid {f : File} : MmioQuiet _ (.vfioFileIsValid f)
  | iommuGetDmaDomain {dev : Device} : MmioQuiet _ (.iommuGetDmaDomain dev)
  | iovaCookie {dom : Domain} : MmioQuiet _ (.iovaCookie dom)
  | devIsPlatform {dev : Device} : MmioQuiet _ (.devIsPlatform dev)
  | platformGetResourceByname {dev : Device} {name : Nat} :
      MmioQuiet _ (.platformGetResourceByname dev name)
  | dmaMapResource {dev : Device} {addr size : U64} : MmioQuiet _ (.dmaMapResource dev addr size)
  | dmaUnmapResource {dev : Device} {iova size : U64} :
      MmioQuiet _ (.dmaUnmapResource dev iova size)

/-- Memory of the table. -/
def Resource.IsTableMemory : Resource → Prop
  | .smap _ | .mmioCtx _ => True
  | _ => False

/-- The state is the same but for resources that are not memory of the table. -/
structure SameTable (w w' : World) : Prop where
  ctxs : w'.ctxs = w.ctxs
  smaps : w'.smaps = w.smaps
  mmioCtxs : w'.mmioCtxs = w.mmioCtxs
  cookies : w'.cookies = w.cookies
  held : ∀ r : Resource, r.IsTableMemory → r ∈ w.held → r ∈ w'.held

theorem sameTable_refl (w : World) : SameTable w w := ⟨rfl, rfl, rfl, rfl, fun _ _ h => h⟩

theorem sameTable_hold (w : World) (r : Resource) : SameTable w (w.hold r) :=
  ⟨rfl, rfl, rfl, rfl, fun _ _ h => Multiset.mem_cons_of_mem h⟩

theorem sameTable_release {r : Resource} (h : ¬ r.IsTableMemory) : SameTable w (w.release r) := by
  refine ⟨rfl, rfl, rfl, rfl, fun r' hr' hmem => (Multiset.mem_erase_of_ne ?_).mpr hmem⟩
  rintro rfl
  exact h hr'

theorem SameTable.leavesEntries (h : SameTable w w') : LeavesEntries c w w' where
  table := by rw [World.table, World.table, h.ctxs]
  smaps p _ := by rw [h.smaps]
  mmioCtxs := h.mmioCtxs
  smap p _ := h.held (.smap p) trivial
  mmioCtx _ _ m _ := h.held (.mmioCtx m) trivial

theorem SameTable.thread (h : SameTable w w') (hx : ThreadSound c w fixed x) :
    ThreadSound c w' fixed x := by
  refine hx.keeps h.leavesEntries (fun p _ => h.held (.smap p) trivial)
    (fun m _ => h.held (.mmioCtx m) trivial) fun p hp => ?_
  rw [World.table, h.ctxs]
  exact hx.taken p hp

theorem mmioQuiet_step (hquiet : MmioQuiet β request)
    (hstep : kernelStep request w answer = some w') : SameTable w w' := by
  cases hquiet with
  | copyFromUser | copyToUser | vfioFileIsValid | iovaCookie | devIsPlatform
  | platformGetResourceByname =>
      cases hstep
      exact sameTable_refl w
  | kfree | fput | dmaUnmapResource =>
      cases hstep
      exact sameTable_release id
  | readSmap | readMmioCtx =>
      simp only [kernelStep] at hstep
      split at hstep <;> cases hstep
      exact sameTable_refl w
  | strndupUser =>
      cases answer with
      | none =>
          cases hstep
          exact sameTable_refl w
      | some p =>
          simp only [kernelStep] at hstep
          split at hstep <;> cases hstep
          exact sameTable_hold w _
  | fget =>
      cases answer <;> cases hstep
      · exact sameTable_refl w
      · exact sameTable_hold w _
  | iommuGetDmaDomain =>
      cases answer with
      | none =>
          cases hstep
          exact sameTable_refl w
      | some dom =>
          simp only [kernelStep] at hstep
          split at hstep <;> cases hstep
          exact sameTable_refl w
  | dmaMapResource =>
      simp only [kernelStep] at hstep
      split at hstep <;> cases hstep
      · exact sameTable_refl w
      · exact sameTable_hold w _

/-- A quiet call changes the state of the driver only. -/
theorem quiet_after (hquiet : MmioQuiet β request) (s : MmioSharing) (w : World) :
    s.after t ⟨request, answer⟩ w = { s with world := w } := by
  have hsame : (s.progress t).after s.world ⟨request, answer⟩ = s.progress t := by
    cases hquiet <;> rfl
  rw [MmioSharing.after, hsame, Function.update_eq_self]
  cases hquiet <;> rfl

theorem SameTable.inv (h : SameTable s.world w) (hinv : MmioInv c s) :
    MmioInv c { s with world := w } where
  table := hinv.table.keeps h.leavesEntries
  threads t := h.thread (hinv.threads t)
  separate := hinv.separate

theorem SameTable.rely (h : SameTable s.world w) : MmioRely c u s { s with world := w } where
  inv := h.inv
  progress := rfl
  cookie _ hmutex := ⟨hmutex, congrFun h.cookies _⟩
  taken p _ := by rw [h.smaps]

/-- The rule for a quiet call. -/
theorem mmioSafe_quiet {rest : β → KProg Int} (hquiet : MmioQuiet β request) (hK : Known c t K)
    (h : K s)
    (hrest : ∀ s answer w, K s → mmioAnswers s t ⟨request, answer⟩ = true →
      kernelStep request s.world answer = some w → K { s with world := w } →
        MmioSafe c t (rest answer) { s with world := w }) :
    MmioSafe c t (perform request >>= rest) s := by
  refine mmioSafe_call hK h fun s answer w hs hanswers hstep _ => ?_
  rw [quiet_after hquiet]
  have hsame := mmioQuiet_step hquiet hstep
  exact ⟨fun u _ => hsame.rely, hrest s answer w hs hanswers hstep (hK.stable _ _ hsame.rely hs)⟩

/-! ## Memory -/

/-- A call that gets no answer for its request leaves everything. -/
theorem after_same {e : Event KCall} (hprogress : (s.progress t).after s.world e = s.progress t)
    (hmutex : mutexAfter s.mutex t e = s.mutex)
    (hfixed : fixedAfter s.fixed (s.progress t).job e = s.fixed) :
    s.after t e s.world = s := by
  rw [MmioSharing.after, hprogress, hmutex, hfixed, Function.update_eq_self]

theorem MmioInv.kzallocSmap {p : Nat} (h : MmioInv c s) (hp : .smap p ∉ s.world.held) :
    MmioInv c (s.after t ⟨.kzallocSmap, some p⟩
      { s.world.hold (.smap p) with smaps := Function.update s.world.smaps p {} }) := by
  have hmem : p ∉ s.world.table c := fun hmem => hp (h.table.smap p hmem)
  have hkeeps : LeavesEntries c s.world
      { s.world.hold (.smap p) with smaps := Function.update s.world.smaps p {} } :=
    ⟨List.Sublist.refl _, fun q hq => Function.update_of_ne (ne_of_mem_of_not_mem hq hmem) _ _, rfl,
      fun _ _ => Multiset.mem_cons_of_mem, fun _ _ _ _ => Multiset.mem_cons_of_mem⟩
  have hkept : ∀ y, ThreadSound c s.world s.fixed y → ThreadSound c _ s.fixed y := fun y hy =>
    hy.keeps hkeeps (fun _ _ => Multiset.mem_cons_of_mem) (fun _ _ => Multiset.mem_cons_of_mem)
      hy.taken
  refine h.update (h.table.keeps hkeeps) ?_ fun u _ hthread hseparate => ⟨hkept _ hthread, ?_⟩
  · refine { hkept _ (h.threads t) with fresh := ?_ }
    rintro q hq
    obtain rfl := Option.some.inj hq
    exact ⟨Multiset.mem_cons_self _ _, hmem⟩
  · refine { hseparate with fresh := ?_ }
    rintro q hq hfresh
    obtain rfl := Option.some.inj hq
    exact hp (hthread.fresh _ hfresh).1

theorem MmioInv.kfreeSmap {p : Nat} (h : MmioInv c s) (hp : (s.progress t).fresh = some p) :
    MmioInv c (s.after t ⟨.kfreeSmap p, ()⟩ (s.world.release (.smap p))) := by
  have hmem : p ∉ s.world.table c := ((h.threads t).fresh p hp).2
  have hleft : ∀ r : Resource, r ≠ .smap p → r ∈ s.world.held →
      r ∈ (s.world.release (.smap p)).held := fun r hr => (Multiset.mem_erase_of_ne hr).mpr
  have hkeeps : LeavesEntries c s.world (s.world.release (.smap p)) :=
    ⟨List.Sublist.refl _, fun _ _ => rfl, rfl,
      fun q hq => hleft _ fun heq => hmem (Resource.smap.inj heq ▸ hq),
      fun _ _ _ _ => hleft _ nofun⟩
  refine h.update (h.table.keeps hkeeps) ?_ fun u _ hthread hseparate => ⟨?_, ?_⟩
  · have hnone : ThreadSound c s.world s.fixed { s.progress t with fresh := none } :=
      { h.threads t with fresh := nofun }
    exact hnone.keeps hkeeps nofun (fun _ _ => hleft _ nofun) hnone.taken
  · refine hthread.keeps hkeeps (fun q hq => hleft _ ?_) (fun _ _ => hleft _ nofun) hthread.taken
    rintro heq
    obtain rfl := Resource.smap.inj heq
    exact hseparate.fresh q hp hq
  · exact { hseparate with fresh := nofun }

theorem MmioInv.kzallocMmioCtx {m : Nat} (h : MmioInv c s) (hm : .mmioCtx m ∉ s.world.held) :
    MmioInv c (s.after t ⟨.kzallocMmioCtx, some m⟩ (s.world.hold (.mmioCtx m))) := by
  have hsame := sameTable_hold s.world (.mmioCtx m)
  refine h.update (h.table.keeps hsame.leavesEntries) ?_ fun u _ hthread hseparate =>
    ⟨hsame.thread hthread, ?_⟩
  · refine { hsame.thread (h.threads t) with freshCtx := ?_ }
    rintro m' hm'
    obtain rfl := Option.some.inj hm'
    refine ⟨Multiset.mem_cons_self _ _, fun p hp hcontext => ?_⟩
    obtain ⟨m', hm', hheld⟩ := h.table.context p hp
    obtain rfl := Option.some.inj (hm'.symm.trans hcontext)
    exact hm hheld
  · refine { hseparate with freshCtx := ?_ }
    rintro m' hm' hfresh
    obtain rfl := Option.some.inj hm'
    exact hm (hthread.freshCtx _ hfresh).1

theorem MmioInv.kfreeMmioCtx {m : Nat} (h : MmioInv c s)
    (hm : (s.progress t).freshCtx = some m) :
    MmioInv c (s.after t ⟨.kfreeMmioCtx m, ()⟩ (s.world.release (.mmioCtx m))) := by
  have hcontext := ((h.threads t).freshCtx m hm).2
  have hleft : ∀ r : Resource, r ≠ .mmioCtx m → r ∈ s.world.held →
      r ∈ (s.world.release (.mmioCtx m)).held := fun r hr => (Multiset.mem_erase_of_ne hr).mpr
  have hkeeps : LeavesEntries c s.world (s.world.release (.mmioCtx m)) := by
    refine ⟨List.Sublist.refl _, fun _ _ => rfl, rfl, fun _ _ => hleft _ nofun, ?_⟩
    intro p hp m' hm'
    refine hleft _ fun heq => hcontext p hp ?_
    rw [hm', Resource.mmioCtx.inj heq]
  refine h.update (h.table.keeps hkeeps) ?_ fun u _ hthread hseparate => ⟨?_, ?_⟩
  · have hnone : ThreadSound c s.world s.fixed { s.progress t with freshCtx := none } :=
      { h.threads t with freshCtx := nofun }
    exact hnone.keeps hkeeps (fun _ _ => hleft _ nofun) nofun hnone.taken
  · refine hthread.keeps hkeeps (fun _ _ => hleft _ nofun) (fun m' hm' => hleft _ ?_) hthread.taken
    rintro heq
    obtain rfl := Resource.mmioCtx.inj heq
    exact hseparate.freshCtx m' hm hm'
  · exact { hseparate with freshCtx := nofun }

/-! ## The table -/

/-- A request for a fixed IOVA that scans the table within the checks and finds the IOVA free asks
for a mapping of its own. -/
theorem MmioInv.smmuScanMmio {fixed : Bool} {iova : U64} (h : MmioInv c s)
    (hfixed : ∀ r, (s.progress t).job.bind MmioJob.range = some r → fixed = true ∧ r.iova = iova)
    (hstep : kernelStep (.smmuScanMmio c fixed iova) s.world false = some w)
    (hchecks : WithinChecks c t s ⟨.smmuScanMmio c fixed iova, false⟩) :
    MmioInv c (s.after t ⟨.smmuScanMmio c fixed iova, false⟩ w) := by
  simp only [kernelStep] at hstep
  split at hstep <;> cases hstep
  rename_i hfree
  refine h.update h.table ?_ fun u hu hthread hseparate => ⟨hthread, ?_⟩
  · refine { h.threads t with claim := ?_ }
    intro r hr p hp hfix hoverlaps
    obtain ⟨rfl, rfl⟩ := hfixed r hr
    obtain ⟨q, hq, hiova⟩ := (hchecks r hr).1 ⟨p, hp, hfix, hoverlaps⟩
    obtain ⟨m, hm, -⟩ := h.table.context q hq
    rw [World.mmio, hm, Option.getD_some] at hiova
    rw [Bool.true_and, eq_comm, List.any_eq_false] at hfree
    refine hfree q hq ?_
    rw [hm, Option.any_some, hiova, beq_self_eq_true]
  · refine { hseparate with claim := ?_ }
    intro r r' hr hr' hoverlaps
    exact (hchecks r hr).2 u hu r' hr' hoverlaps.symm

/-- The entry `p` is added with the context `m`. -/
structure RecordsEntry (c p m : Nat) (mmio : KiumdSmmuMmioCtx) (w w' : World) : Prop where
  table : w'.table c = p :: w.table c
  smaps : ∀ q, q ≠ p → w'.smaps q = w.smaps q
  context : (w'.smaps p).context = some m
  mmioCtxs : w'.mmioCtxs = Function.update w.mmioCtxs m mmio
  held : w'.held = w.held

section

variable {p m : Nat} {mmio : KiumdSmmuMmioCtx} {id : U32}

theorem smmuAddMmio_records (hstep : kernelStep (.smmuAddMmio c p m mmio) w id = some w') :
    RecordsEntry c p m mmio w w' := by
  simp only [kernelStep] at hstep
  split at hstep <;> cases hstep
  refine ⟨?_, fun q hq => Function.update_of_ne hq _ _, ?_, rfl, rfl⟩
  · dsimp only [World.table, World.setCtx]
    rw [Function.update_self]
  · dsimp only
    rw [Function.update_self]

/-- What a thread that adds an entry has allocated. -/
structure Allocated (c p m : Nat) (w : World) : Prop where
  smap : .smap p ∈ w.held
  mmioCtx : .mmioCtx m ∈ w.held
  notMem : p ∉ w.table c
  context : ∀ q ∈ w.table c, (w.smaps q).context ≠ some m

theorem ThreadSound.allocated (h : ThreadSound c w fixed x) (hp : x.fresh = some p)
    (hm : x.freshCtx = some m) : Allocated c p m w :=
  ⟨(h.fresh p hp).1, (h.freshCtx m hm).1, (h.fresh p hp).2, (h.freshCtx m hm).2⟩

variable {q : Nat}

theorem RecordsEntry.mmio_new (h : RecordsEntry c p m mmio w w') : w'.mmio p = mmio := by
  rw [World.mmio, h.context, h.mmioCtxs, Option.getD_some, Function.update_self]

theorem RecordsEntry.smaps_old (h : RecordsEntry c p m mmio w w') (hnew : Allocated c p m w)
    (hq : q ∈ w.table c) : w'.smaps q = w.smaps q :=
  h.smaps q (ne_of_mem_of_not_mem hq hnew.notMem)

theorem RecordsEntry.mmio_old (h : RecordsEntry c p m mmio w w') (hnew : Allocated c p m w)
    (hsound : TableSound c w fixed) (hq : q ∈ w.table c) : w'.mmio q = w.mmio q := by
  obtain ⟨m', hm', -⟩ := hsound.context q hq
  have hne : m' ≠ m := by
    rintro rfl
    exact hnew.context q hq hm'
  rw [World.mmio, World.mmio, h.smaps_old hnew hq, h.mmioCtxs, hm', Option.getD_some,
    Function.update_of_ne hne]

theorem RecordsEntry.mem (h : RecordsEntry c p m mmio w w') :
    q ∈ w'.table c ↔ q = p ∨ q ∈ w.table c := by
  rw [h.table, List.mem_cons]

/-- The table with an entry that is new and, if it is fixed, overlaps no fixed entry. -/
theorem TableSound.add {isFixed : Bool} (h : TableSound c w fixed)
    (hadds : RecordsEntry c p m mmio w w') (hnew : Allocated c p m w)
    (hapart : isFixed = true → ∀ q ∈ w.table c, fixed q = true → ¬ (w.mmio q).Overlaps mmio) :
    TableSound c w' (Function.update fixed p isFixed) where
  nodup := by
    rw [hadds.table]
    exact List.nodup_cons.mpr ⟨hnew.notMem, h.nodup⟩
  smap q hq := by
    rw [hadds.held]
    rcases hadds.mem.mp hq with rfl | hq
    · exact hnew.smap
    · exact h.smap q hq
  context q hq := by
    rw [hadds.held]
    rcases hadds.mem.mp hq with rfl | hq
    · exact ⟨m, hadds.context, hnew.mmioCtx⟩
    · rw [hadds.smaps_old hnew hq]
      exact h.context q hq
  separate q hq q' hq' hne := by
    rcases hadds.mem.mp hq with rfl | hq <;> rcases hadds.mem.mp hq' with rfl | hq'
    · exact absurd rfl hne
    · rw [hadds.context, hadds.smaps_old hnew hq']
      exact (hnew.context q' hq').symm
    · rw [hadds.context, hadds.smaps_old hnew hq]
      exact hnew.context q hq
    · rw [hadds.smaps_old hnew hq, hadds.smaps_old hnew hq']
      exact h.separate q hq q' hq' hne
  disjoint q hq q' hq' hne := by
    rcases hadds.mem.mp hq with rfl | hq <;> rcases hadds.mem.mp hq' with rfl | hq'
    · exact absurd rfl hne
    · rw [Function.update_self, Function.update_of_ne (Ne.symm hne), hadds.mmio_new,
        hadds.mmio_old hnew h hq']
      exact fun hfix hfix' hoverlaps => hapart hfix q' hq' hfix' hoverlaps.symm
    · rw [Function.update_self, Function.update_of_ne hne, hadds.mmio_new,
        hadds.mmio_old hnew h hq]
      exact fun hfix hfix' => hapart hfix' q hq hfix
    · rw [Function.update_of_ne (ne_of_mem_of_not_mem hq hnew.notMem),
        Function.update_of_ne (ne_of_mem_of_not_mem hq' hnew.notMem), hadds.mmio_old hnew h hq,
        hadds.mmio_old hnew h hq']
      exact h.disjoint q hq q' hq' hne

/-- A thread with other memory and another range stays sound when the entry is added. -/
theorem ThreadSound.add {isFixed : Bool} (hy : ThreadSound c w fixed y)
    (hsound : TableSound c w fixed) (hadds : RecordsEntry c p m mmio w w')
    (hnew : Allocated c p m w) (hfresh : y.fresh ≠ some p) (hfreshCtx : y.freshCtx ≠ some m)
    (hclaim : isFixed = true → ∀ r, y.claim = some r → ¬ mmio.Overlaps r) :
    ThreadSound c w' (Function.update fixed p isFixed) y where
  fresh q hq := by
    obtain ⟨hheld, hmem⟩ := hy.fresh q hq
    rw [hadds.held, hadds.mem, not_or]
    refine ⟨hheld, ?_, hmem⟩
    rintro rfl
    exact hfresh hq
  freshCtx m' hm' := by
    obtain ⟨hheld, hcontext⟩ := hy.freshCtx m' hm'
    rw [hadds.held]
    refine ⟨hheld, fun q hq => ?_⟩
    rcases hadds.mem.mp hq with rfl | hq
    · rw [hadds.context]
      exact fun heq => hfreshCtx (hm'.trans heq.symm)
    · rw [hadds.smaps_old hnew hq]
      exact hcontext q hq
  taken q hq := hadds.mem.mpr (.inr (hy.taken q hq))
  claim r hr q hq := by
    rcases hadds.mem.mp hq with rfl | hq
    · rw [Function.update_self, hadds.mmio_new]
      exact fun hfix => hclaim hfix r hr
    · rw [Function.update_of_ne (ne_of_mem_of_not_mem hq hnew.notMem),
        hadds.mmio_old hnew hsound hq]
      exact hy.claim r hr q hq

/-- A request adds the entry it has allocated, with the mapping it has asked for. -/
theorem MmioInv.smmuAddMmio (h : MmioInv c s)
    (hp : (s.progress t).fresh = some p) (hm : (s.progress t).freshCtx = some m)
    (hclaim : (s.progress t).job.any MmioJob.isFixed = true → (s.progress t).claim = some mmio)
    (hstep : kernelStep (.smmuAddMmio c p m mmio) s.world id = some w) :
    MmioInv c (s.after t ⟨.smmuAddMmio c p m mmio, id⟩ w) := by
  have hadds := smmuAddMmio_records hstep
  have hnew := (h.threads t).allocated hp hm
  refine h.update (h.table.add hadds hnew ?_) ?_ fun u _ hthread hseparate => ⟨?_, ?_⟩
  · exact fun hfix => (h.threads t).claim mmio (hclaim hfix)
  · refine ⟨nofun, nofun, fun q hq => ?_, nofun⟩
    obtain rfl := Option.some.inj hq
    exact hadds.mem.mpr (.inl rfl)
  · exact hthread.add h.table hadds hnew (hseparate.fresh p hp) (hseparate.freshCtx m hm)
      fun hfix r hr => hseparate.claim mmio r (hclaim hfix) hr
  · refine ⟨nofun, nofun, fun q hq htaken => ?_, nofun⟩
    obtain rfl := Option.some.inj hq
    exact hnew.notMem (hthread.taken _ htaken)

/-- The entry is taken off the table; `w'` is the state after. -/
theorem MmioInv.remove (h : MmioInv c s) (hp : (s.progress t).taken = some p)
    (hkeeps : LeavesEntries c s.world w) (htable : w.table c = (s.world.table c).erase p)
    {e : Event KCall} (hfixed : fixedAfter s.fixed (s.progress t).job e = s.fixed)
    (hthread : ThreadSound c w s.fixed ((s.progress t).after s.world e))
    (hfreed : ∀ q, q ≠ p → .smap q ∈ s.world.held → .smap q ∈ w.held)
    (hfreedCtx : ∀ m, (s.world.smaps p).context ≠ some m → .mmioCtx m ∈ s.world.held →
      .mmioCtx m ∈ w.held)
    (hseparate : ∀ y, ThreadSound c s.world s.fixed y → Separate (s.progress t) y →
      Separate ((s.progress t).after s.world e) y) :
    MmioInv c (s.after t e w) := by
  have hmem : p ∈ s.world.table c := (h.threads t).taken p hp
  rw [MmioSharing.after, hfixed]
  refine h.update (h.table.keeps hkeeps) hthread fun u _ hu hsep => ⟨?_, hseparate _ hu hsep⟩
  refine hu.keeps hkeeps (fun q hq => hfreed q ?_) (fun m hm => hfreedCtx m ?_) fun q hq => ?_
  · rintro rfl
    exact (hu.fresh q hq).2 hmem
  · exact (hu.freshCtx m hm).2 p hmem
  · rw [htable]
    refine (List.mem_erase_of_ne ?_).mpr (hu.taken q hq)
    rintro rfl
    exact hsep.taken q hp hq

theorem unlink_table : (w.unlink c p).table c = (w.table c).erase p := by
  rw [World.table_unlink, Function.update_self]

theorem TableSound.ne_of_mem_unlink (h : TableSound c w fixed) (hq : q ∈ (w.unlink c p).table c) :
    q ≠ p := by
  rw [unlink_table, h.nodup.mem_erase_iff] at hq
  exact hq.1

theorem unlink_subset (hq : q ∈ (w.unlink c p).table c) : q ∈ w.table c := by
  rw [unlink_table] at hq
  exact List.mem_of_mem_erase hq

theorem leavesEntries_unlink : LeavesEntries c w (w.unlink c p) where
  table := by
    rw [unlink_table]
    exact List.erase_sublist
  smaps _ _ := rfl
  mmioCtxs := rfl
  smap _ _ h := h
  mmioCtx _ _ _ _ h := h

/-- A request that takes back the entry it has added owns its memory again. -/
theorem MmioInv.hashDel (h : MmioInv c s) (hp : (s.progress t).taken = some p) :
    MmioInv c (s.after t ⟨.hashDel c p, ()⟩ (s.world.unlink c p)) := by
  have hmem : p ∈ s.world.table c := (h.threads t).taken p hp
  refine h.remove hp leavesEntries_unlink unlink_table rfl ?_ (fun _ _ => id) (fun _ _ => id) ?_
  · refine ⟨fun q hq => ?_, fun m hm => ?_, nofun, fun r hr q hq => ?_⟩
    · obtain rfl := Option.some.inj hq
      exact ⟨h.table.smap _ hmem, fun hmem' => h.table.ne_of_mem_unlink hmem' rfl⟩
    · have hcontext : (s.world.smaps p).context = some m := hm
      obtain ⟨m', hm', hheld⟩ := h.table.context p hmem
      obtain rfl := Option.some.inj (hm'.symm.trans hcontext)
      refine ⟨hheld, fun q hq heq => ?_⟩
      exact h.table.separate q (unlink_subset hq) p hmem (h.table.ne_of_mem_unlink hq)
        (heq.trans hcontext.symm)
    · exact (h.threads t).claim r hr q (unlink_subset hq)
  · intro y hy hseparate
    refine ⟨fun q hq hfresh => ?_, fun m hm hfresh => ?_, nofun, hseparate.claim⟩
    · obtain rfl := Option.some.inj hq
      exact (hy.fresh _ hfresh).2 hmem
    · exact (hy.freshCtx m hfresh).2 p hmem hm

/-- A removal frees the entry it has found. -/
theorem MmioInv.smmuDelMmio (h : MmioInv c s) (hp : (s.progress t).taken = some p)
    (hstep : kernelStep (.smmuDelMmio c p) s.world () = some w) :
    MmioInv c (s.after t ⟨.smmuDelMmio c p, ()⟩ w) := by
  have hmem : p ∈ s.world.table c := (h.threads t).taken p hp
  obtain ⟨m, hm, hheld⟩ := h.table.context p hmem
  simp only [kernelStep, hm] at hstep
  obtain rfl := Option.some.inj hstep
  have hsmap : ∀ q, q ≠ p → .smap q ∈ s.world.held →
      .smap q ∈ (((s.world.unlink c p).release (.mmioCtx m)).release (.smap p)).held := by
    intro q hq hheld
    have hne : Resource.smap q ≠ .smap p := fun heq => hq (Resource.smap.inj heq)
    have hne' : Resource.smap q ≠ .mmioCtx m := fun h => by cases h
    exact (Multiset.mem_erase_of_ne hne).mpr ((Multiset.mem_erase_of_ne hne').mpr hheld)
  have hmmioCtx : ∀ m', m' ≠ m → .mmioCtx m' ∈ s.world.held →
      .mmioCtx m' ∈ (((s.world.unlink c p).release (.mmioCtx m)).release (.smap p)).held := by
    intro m' hm' hheld
    have hne : Resource.mmioCtx m' ≠ .smap p := fun h => by cases h
    have hne' : Resource.mmioCtx m' ≠ .mmioCtx m := fun heq => hm' (Resource.mmioCtx.inj heq)
    exact (Multiset.mem_erase_of_ne hne).mpr ((Multiset.mem_erase_of_ne hne').mpr hheld)
  have hkeeps : LeavesEntries c s.world
      (((s.world.unlink c p).release (.mmioCtx m)).release (.smap p)) := by
    refine ⟨leavesEntries_unlink.table, fun _ _ => rfl, rfl, fun q hq => ?_, fun q hq m' hm' => ?_⟩
    · exact hsmap q (h.table.ne_of_mem_unlink hq)
    · refine hmmioCtx m' ?_
      rintro rfl
      exact h.table.separate q (unlink_subset hq) p hmem (h.table.ne_of_mem_unlink hq)
        (hm'.trans hm.symm)
  refine h.remove hp hkeeps unlink_table rfl ?_ hsmap ?_ ?_
  · have hnone : ThreadSound c s.world s.fixed { s.progress t with taken := none } :=
      { h.threads t with taken := fun _ h => by cases h }
    refine hnone.keeps hkeeps (fun q hq => hsmap q ?_) (fun m' hm' => hmmioCtx m' ?_)
      fun _ h => by cases h
    · rintro rfl
      exact (hnone.fresh _ hq).2 hmem
    · rintro rfl
      exact (hnone.freshCtx _ hm').2 p hmem hm
  · exact fun m' hm' => hmmioCtx m' fun heq => hm' (heq ▸ hm)
  · exact fun y _ hseparate => { hseparate with taken := fun _ h => by cases h }

/-- A removal that finds an entry within the checks is the only request that works on it. -/
theorem MmioInv.smmuFindMmio (h : MmioInv c s) {id : U32}
    (hstep : kernelStep (.smmuFindMmio c id) s.world (some p) = some w)
    (hchecks : WithinChecks c t s ⟨.smmuFindMmio c id, some p⟩) :
    MmioInv c (s.after t ⟨.smmuFindMmio c id, some p⟩ w) := by
  simp only [kernelStep] at hstep
  split at hstep <;> cases hstep
  rename_i hfind
  have hmem : p ∈ s.world.table c := List.mem_of_find?_eq_some hfind.symm
  refine h.update h.table ?_ fun u _ hthread hseparate => ⟨hthread, ?_⟩
  · refine { h.threads t with taken := ?_ }
    rintro q hq
    obtain rfl := Option.some.inj hq
    exact hmem
  · refine { hseparate with taken := ?_ }
    rintro q hq
    obtain rfl := Option.some.inj hq
    exact hchecks u

end

end SafeLinux.Kiumd
