import SafeLinux.Kiumd.CloseReversal
import SafeLinux.Kiumd.UnmapCalls

/-!
# The page links of scatterlists under `CONFIG_DMABUF_DEBUG`

A debug build of the dma-buf core inverts the page links of a table when it hands the table to an
importer and again when the importer returns it. MAP_BUF at IOVA zero inverts them once more, so
that `iommu_map_sg` sees the exporter's links. `SeesOriginal` says of the calls of a run that the
exporter and `iommu_map_sg` always find the original links; the calls of MAP_BUF and UNMAP_BUF that
matter to it are read off their actions (`linkActs_eq`).
-/

namespace SafeLinux.Kiumd

open Effects
open Effects.Program (perform)

/-! ## Page links -/

/-- The page links of the entries of each table. -/
abbrev PageLinks : Type := SgTable → List U64

/-- `sg->page_link ^= ~0xffUL` for every entry, in `kiumd_mangle_sg_table` and in the dma-buf
core. -/
def mangle (links : List U64) : List U64 := links.map (· ^^^ ~~~0xff#64)

/-- What the dma-buf core does when a table is handed over or returned. -/
def coreMangle (debug : Bool) (links : List U64) : List U64 :=
  if debug then mangle links else links

theorem mangle_mangle (links : List U64) : mangle (mangle links) = links := by
  simp [mangle, Function.comp_def, BitVec.xor_assoc]

@[simp] theorem coreMangle_coreMangle (debug : Bool) (links : List U64) :
    coreMangle debug (coreMangle debug links) = links := by
  cases debug with
  | false => rfl
  | true => exact mangle_mangle links

/-- What happens to the page links of a table, and who looks at them. -/
inductive LinkAct where
  /-- The exporter makes the table of an attachment. -/
  | attach (a : Attachment)
  | handOver (t : SgTable)
  | takeBack (t : SgTable)
  | mangle (t : SgTable)
  | mapSg (t : SgTable)
  | detach (a : Attachment)

/-- What a call does to page links, or whom it lets look at them. -/
def KCall.linkAct : {β : Type} → KCall β → β → Option LinkAct
  | _, .dmaBufAttach _ _, .ok a => some (.attach a)
  | _, .dmaBufDetach _ a, _ => some (.detach a)
  | _, .dmaBufMapAttachment _ _, .ptr t => some (.handOver t)
  | _, .dmaBufUnmapAttachment _ t _, _ => some (.takeBack t)
  | _, .mangleSgTable t, _ => some (.mangle t)
  | _, .iommuMapSg _ _ t _, _ => some (.mapSg t)
  | _, _, _ => none

/-- What some calls do to page links, in turn. -/
def linkActs (trace : List (Event KCall)) : List LinkAct :=
  trace.filterMap fun e => e.call.linkAct e.answer

section Links

variable (debug : Bool) (orig : PageLinks)

/-- The page links after an action; those of a new table are the original ones. -/
def LinkAct.apply (links : PageLinks) : LinkAct → PageLinks
  | .attach a => Function.update links a.table (orig a.table)
  | .handOver t | .takeBack t => Function.update links t (coreMangle debug (links t))
  | .mangle t => Function.update links t (Kiumd.mangle (links t))
  | .mapSg _ | .detach _ => links

/-- Whoever looks at a table finds the original page links: `iommu_map_sg`, the exporter's unmap
callback, which the core calls after it has inverted them again, and its detach callback. -/
def LinkAct.Sees (links : PageLinks) : LinkAct → Prop
  | .mapSg t => links t = orig t
  | .takeBack t => coreMangle debug (links t) = orig t
  | .detach a => links a.table = orig a.table
  | _ => True

instance (links : PageLinks) (act : LinkAct) : Decidable (act.Sees debug orig links) := by
  cases act <;> unfold LinkAct.Sees <;> infer_instance

/-- The page links after some actions. -/
def linksAfter (links : PageLinks) (acts : List LinkAct) : PageLinks :=
  acts.foldl (LinkAct.apply debug orig) links

/-- Whoever looks at a table finds the original page links, action after action. -/
def SeesAll : PageLinks → List LinkAct → Prop
  | _, [] => True
  | links, act :: rest => act.Sees debug orig links ∧ SeesAll (act.apply debug orig links) rest

/-- Decides `SeesAll`. -/
def decideSeesAll : (links : PageLinks) → (acts : List LinkAct) →
    Decidable (SeesAll debug orig links acts)
  | _, [] => .isTrue trivial
  | links, act :: rest =>
      have := decideSeesAll (act.apply debug orig links) rest
      inferInstanceAs (Decidable (_ ∧ _))

instance (links : PageLinks) (acts : List LinkAct) : Decidable (SeesAll debug orig links acts) :=
  decideSeesAll debug orig links acts

end Links

variable {debug : Bool} {orig links : PageLinks} {as bs : List LinkAct} {act : LinkAct}

@[simp] theorem linksAfter_nil : linksAfter debug orig links [] = links := rfl

@[simp] theorem linksAfter_cons : linksAfter debug orig links (act :: as) =
    linksAfter debug orig (act.apply debug orig links) as := rfl

@[simp] theorem linksAfter_append : linksAfter debug orig links (as ++ bs) =
    linksAfter debug orig (linksAfter debug orig links as) bs :=
  List.foldl_append

theorem seesAll_append : SeesAll debug orig links (as ++ bs) ↔
    SeesAll debug orig links as ∧ SeesAll debug orig (linksAfter debug orig links as) bs := by
  induction as generalizing links with
  | nil => simp [SeesAll]
  | cons act as ih => simp [SeesAll, ih, and_assoc]

/-- The calls of a history, the first one first. -/
def historyCalls : History Ioctl KCall → List (Event KCall)
  | [] => []
  | (_, trace) :: history => historyCalls history ++ trace

/-- In the whole history `iommu_map_sg` and the exporters' callbacks have found the original page
links. -/
def SeesOriginal (debug : Bool) (orig : PageLinks) (history : History Ioctl KCall) : Prop :=
  SeesAll debug orig orig (linkActs (historyCalls history))

instance (debug : Bool) (orig : PageLinks) (history : History Ioctl KCall) :
    Decidable (SeesOriginal debug orig history) :=
  decideSeesAll debug orig orig (linkActs (historyCalls history))

theorem linkActs_append (trace trace' : List (Event KCall)) :
    linkActs (trace ++ trace') = linkActs trace ++ linkActs trace' :=
  List.filterMap_append

/-! ## The actions of the driver -/

/-- What an action of the driver does to page links. In a debug build `iommu_map_sg` is called
after the links have been inverted. -/
def Act.linkActs (debug : Bool) : Act → List LinkAct
  | .attach _ a => [.attach a]
  | .detach _ a => [.detach a]
  | .mapAttachment _ _ t => [.handOver t]
  | .unmapAttachment _ t _ => [.takeBack t]
  | .mapSg _ _ t _ _ => if debug then [.mangle t, .mapSg t] else [.mapSg t]
  | _ => []

/-- What some actions do to page links. -/
def linksOf (debug : Bool) (as : List Act) : List LinkAct := as.flatMap (Act.linkActs debug)

@[simp] theorem linksOf_nil : linksOf debug [] = [] := rfl

@[simp] theorem linksOf_cons {act : Act} {as : List Act} :
    linksOf debug (act :: as) = act.linkActs debug ++ linksOf debug as := rfl

@[simp] theorem linksOf_append {as bs : List Act} :
    linksOf debug (as ++ bs) = linksOf debug as ++ linksOf debug bs :=
  List.flatMap_append

/-- The call inverts page links itself or depends on it. -/
def KCall.mangles : {β : Type} → KCall β → Bool
  | _, .mangleSgTable _ | _, .iommuMapSg _ _ _ _ => true
  | _, _ => false

/-- The calls that do not invert page links. -/
def Unmangled : (β : Type) → KCall β → Prop := fun _ request => request.mangles = false

variable {β α : Type} {request : KCall β} {w w' : World} {trace : List (Event KCall)}

/-- What other calls do to page links is read off their actions. -/
theorem linkAct_unmangled (h : request.mangles = false) (answer : β) :
    (request.linkAct answer).toList = linksOf debug (request.act answer).toList := by
  cases request with
  | mangleSgTable | iommuMapSg => cases h
  | dmaMapSgtable | dmaMapResource =>
      simp only [KCall.act]
      split <;> rfl
  | copyStructFromUser | fget | pgtblTtbr | dmaBufGet | dmaBufAttach | dmaBufMapAttachment
  | kzallocSmap | devIsPlatform => cases answer <;> rfl
  | _ => rfl

theorem linkActs_cons {answer : β} : linkActs (⟨request, answer⟩ :: trace) =
    (request.linkAct answer).toList ++ linkActs trace := by
  rw [linkActs, List.filterMap_cons, ← linkActs]
  cases request.linkAct answer <;> rfl

/-- The kernel's configuration does not change. -/
theorem dmabufDebug_step {answer : β} (hstep : kernelStep request w answer = some w') :
    w'.dmabufDebug = w.dmabufDebug := by
  cases request with
  | oops => cases hstep
  | copyStructFromUser | strndupUser | kmallocArray | kzallocSmap | kzallocMmioCtx | fget
  | iommuGetDmaDomain | dmaBufGet | dmaBufAttach | dmaBufMapAttachment | ofParsePhandle
  | kcallocResMem =>
      cases answer <;> simp only [kernelStep] at hstep
      all_goals first
        | (cases hstep; done)
        | (cases hstep; rfl)
        | (split at hstep <;> first | (cases hstep; done) | (cases hstep; rfl))
  | _ =>
      simp only [kernelStep] at hstep
      first
        | (cases hstep; rfl)
        | (split at hstep <;> first
            | (cases hstep; done)
            | (cases hstep; rfl)
            | (split at hstep <;> first | (cases hstep; done) | (cases hstep; rfl)))

/-- Under a configuration of the kernel, what the calls of a program do to page links is read off
its actions. -/
def ReadsLinks (debug : Bool) (p : KProg α) : Prop :=
  ∀ w : World, w.dmabufDebug = debug →
    wp kernel .any p (fun trace _ _ => linkActs trace = linksOf debug (acts trace)) w

theorem readsLinks_pure (value : α) : ReadsLinks debug (pure value : KProg α) :=
  fun _ _ => wp_pure.mpr rfl

/-- The rule for calls that do not invert page links. -/
theorem readsLinks_only {p : KProg α} (h : p.Only Unmangled) : ReadsLinks debug p := by
  intro w hdebug
  refine wp_mono (wp_among h) ?_
  intro trace _ _ hamong
  induction trace with
  | nil => rfl
  | cons e trace ih =>
      obtain ⟨hcall, hrest⟩ := List.forall_mem_cons.mp hamong
      obtain ⟨request, answer⟩ := e
      rw [linkActs_cons, acts_cons, linksOf_append, ih hrest, linkAct_unmangled hcall answer]

/-- The rule for a call that does not invert page links, and what follows it. -/
theorem readsLinks_call [Nonempty β] {rest : β → KProg α} (hmangles : request.mangles = false)
    (hrest : ∀ answer, ReadsLinks debug (rest answer)) :
    ReadsLinks debug (perform request >>= rest) := by
  intro w hdebug
  refine wp_step fun answer w' hstep => ?_
  have hdebug' := (dmabufDebug_step hstep).trans hdebug
  refine wp_mono (hrest answer w' hdebug') fun trace _ _ hreads => ?_
  show linkActs (⟨request, answer⟩ :: trace) = linksOf debug (acts (⟨request, answer⟩ :: trace))
  rw [linkActs_cons, acts_cons, linksOf_append, hreads, linkAct_unmangled hmangles answer]

/-- The rule for a part that does not invert page links, and what follows it. -/
theorem readsLinks_then {p : KProg β} {rest : β → KProg α} (h : p.Only Unmangled)
    (hrest : ∀ value, ReadsLinks debug (rest value)) : ReadsLinks debug (p >>= rest) := by
  induction h with
  | ret value => exact hrest value
  | @call γ request next hrequest _ ih =>
      rcases isEmpty_or_nonempty γ with hempty | hnonempty
      · refine readsLinks_only ?_
        exact .call hrequest fun answer => (IsEmpty.false answer).elim
      · exact readsLinks_call hrequest fun answer => ih answer

/-- The calls before `iommu_map_sg` invert the page links in a debug build. -/
theorem readsLinks_mapSg {t : SgTable} {dom : Domain} {iova : U64} {prot : Int}
    {rest : Int → KProg α} (hrest : ∀ result, ReadsLinks debug (rest result)) :
    ReadsLinks debug (do
      mangleForDebug t
      rest (← perform (.iommuMapSg dom iova t prot))) := by
  intro w hdebug
  unfold mangleForDebug
  refine wp_step fun configured w₁ hstep => ?_
  obtain ⟨rfl, rfl⟩ : configured = debug ∧ w₁ = w := by
    simp only [kernelStep] at hstep
    split at hstep <;> cases hstep
    exact ⟨by rw [← hdebug]; assumption, rfl⟩
  cases configured with
  | true =>
      refine wp_step fun _ w₂ hstep₂ => wp_step fun result w₃ hstep₃ => ?_
      have hdebug₃ := ((dmabufDebug_step hstep₃).trans (dmabufDebug_step hstep₂)).trans hdebug
      refine wp_mono (hrest result w₃ hdebug₃) fun trace _ _ hreads => ?_
      show LinkAct.mangle t :: LinkAct.mapSg t :: linkActs trace =
        linksOf true (.mapSg dom iova t prot result :: acts trace)
      rw [linksOf_cons, hreads]
      rfl
  | false =>
      refine wp_step fun result w₃ hstep₃ => ?_
      have hdebug₃ := (dmabufDebug_step hstep₃).trans hdebug
      refine wp_mono (hrest result w₃ hdebug₃) fun trace _ _ hreads => ?_
      show LinkAct.mapSg t :: linkActs trace =
        linksOf false (.mapSg dom iova t prot result :: acts trace)
      rw [linksOf_cons, hreads]
      rfl

/-! ## The programs -/

section Programs

variable {file : File} {d : DmaBuf} {a : Attachment} {t : SgTable} {u : KiumdUser} {ret dir : Int}
  {fp : Option (Option Nat)} {v : VfioDevice} {c p : Nat}

theorem mapFailFput_unmangled : (mapFailFput file ret).Only Unmangled :=
  .then rfl fun _ => .pure _

theorem mapFailPut_unmangled : (mapFailPut file d ret).Only Unmangled :=
  .then rfl fun _ => mapFailFput_unmangled

theorem mapFailDetach_unmangled : (mapFailDetach file d a ret).Only Unmangled :=
  .then rfl fun _ => mapFailPut_unmangled

theorem mapReply_unmangled : (mapReply u file d a t dir).Only Unmangled := by
  refine .then rfl fun copied => ?_
  split
  · exact .then rfl fun _ => mapFailDetach_unmangled
  · exact .then rfl fun _ => .pure _

theorem mapDmaAddr_unmangled : (mapDmaAddr u t).Only Unmangled := by
  unfold mapDmaAddr
  split
  · exact .pure _
  · exact .perform rfl

theorem mapPublish_unmangled : (mapPublish fp u file v d a t dir).Only Unmangled := by
  unfold mapPublish
  split
  · split
    · refine .then rfl fun smap => ?_
      split
      · exact .then rfl fun _ => mapDmaAddr_unmangled.bind fun _ => mapReply_unmangled
      · exact mapFailFput_unmangled
    · exact mapFailFput_unmangled
  · exact mapFailFput_unmangled

theorem takeMapArea_unmangled {m : KgslMap} {bit size : U64} :
    (takeMapArea m bit size).Only Unmangled :=
  .then rfl fun _ => .then rfl fun _ => .pure _

theorem getMapOffset_unmangled {size : U64} {ptselect : Int} :
    (getMapOffset size ptselect).Only Unmangled := by
  unfold getMapOffset
  split
  · exact .pure _
  split
  · exact .pure _
  refine .then rfl fun _ => .then rfl fun _ => ?_
  split
  · exact takeMapArea_unmangled
  refine .then rfl fun _ => ?_
  split
  · exact .pure _
  · exact takeMapArea_unmangled

theorem setMapIova_unmangled {offset : U64} {ptselect : Int} :
    (setMapIova offset v ptselect).Only Unmangled := by
  have hcookie : (kiumdGetDmaCookie (some v)).Only Unmangled := by
    unfold kiumdGetDmaCookie
    dsimp only
    split
    · refine .then rfl fun domain => ?_
      split
      · refine .then rfl fun cookie => ?_
        split <;> exact .pure _
      · exact .pure _
    · exact .pure _
  refine hcookie.bind fun domain => ?_
  split
  · exact .then rfl fun _ => .pure _
  · exact .pure _

theorem mapAttached_readsLinks {dev : Device} :
    ReadsLinks debug (mapAttached fp u file v dev d a) := by
  have hdetach : ∀ {ret : Int}, ReadsLinks debug (mapFailDetach file d a ret) :=
    readsLinks_only mapFailDetach_unmangled
  have hpublish : ∀ {t : SgTable} {dir : Int},
      ReadsLinks debug (mapPublish fp u file v d a t dir) := readsLinks_only mapPublish_unmangled
  unfold mapAttached
  split
  · exact hdetach
  dsimp only
  split
  · split
    · split
      · refine readsLinks_call rfl fun ret => ?_
        split
        · exact hdetach
        · exact hpublish
      · exact hdetach
    · exact hdetach
  · split
    · exact readsLinks_pure _
    refine readsLinks_call rfl fun mapped => ?_
    split
    · split
      · refine readsLinks_call rfl fun domain => ?_
        split
        · refine readsLinks_mapSg fun result => ?_
          split
          · exact readsLinks_call rfl fun _ => hdetach
          · exact hpublish
        · exact readsLinks_only mapFailFput_unmangled
      · exact hpublish
    · exact hdetach

theorem kiumdDmabufVfioMap_readsLinks : ReadsLinks debug (kiumdDmabufVfioMap u fp) := by
  have hput : ∀ {file : File} {d : DmaBuf} {ret : Int},
      ReadsLinks debug (mapFailPut file d ret) := readsLinks_only mapFailPut_unmangled
  have hfput : ∀ {file : File} {ret : Int}, ReadsLinks debug (mapFailFput file ret) :=
    readsLinks_only mapFailFput_unmangled
  have hoops : ReadsLinks debug (perform .oops >>= Empty.elim : KProg Int) :=
    readsLinks_only (.then rfl fun answer => answer.elim)
  have hattach : ∀ {file : File} {v : VfioDevice} {d : DmaBuf},
      ReadsLinks debug (mapAttach fp u file v d) := by
    intro file v d
    unfold mapAttach
    split
    · refine readsLinks_call rfl fun attached => ?_
      split
      · exact hput
      · exact mapAttached_readsLinks
    · exact hput
  unfold kiumdDmabufVfioMap
  split
  · split
    · refine readsLinks_call rfl fun smap => ?_
      split
      · refine readsLinks_call rfl fun copied => ?_
        split
        · exact readsLinks_pure _
        split
        · exact readsLinks_pure _
        refine readsLinks_call rfl fun file => ?_
        split
        · split
          · split
            · refine readsLinks_call rfl fun buffer => ?_
              split
              · split
                · refine readsLinks_then getMapOffset_unmangled fun offset => ?_
                  split
                  · exact hput
                  refine readsLinks_then setMapIova_unmangled fun ret => ?_
                  split
                  · exact hput
                  · exact hattach
                · exact hattach
              · split
                · exact hfput
                · exact hoops
            · exact hfput
          · exact hoops
        · exact readsLinks_pure _
      · exact readsLinks_pure _
    · exact readsLinks_pure _
  · exact readsLinks_pure _

theorem kiumdDmabufVfioUnmap_unmangled : (kiumdDmabufVfioUnmap u fp).Only Unmangled := by
  refine kiumdDmabufVfioUnmap_unmaps.mono fun _ request hunmaps => ?_
  cases request <;> first | rfl | cases hunmaps

end Programs

end SafeLinux.Kiumd
