import SafeLinux.Effects.Actions
import SafeLinux.Kiumd.Answers
import SafeLinux.Kiumd.PageTables

/-!
# What the page-table ioctls do

The actions of a page-table ioctl are the domain it finds and the tables it copies from, allocates,
frees, installs and programs. `PtOutcome` lists what each ioctl can do from a given state: its
actions, its result and the state it leads to; `kiumdPgtblIoctl_outcome` says that it does one of
these.
-/

namespace SafeLinux.Kiumd

open Effects

/-! ## Actions -/

/-- The actions of the page-table ioctls. -/
inductive PtAct where
  | domain (dom : Domain)
  | copy (p : U64)
  | alloc (ops : U64)
  | free (ops : U64)
  | install (dom : Domain) (ops : U64)
  | program (dom : Domain)
  | aperture (ret : Int)
  deriving DecidableEq

/-- Which calls are actions. -/
def PtAct.view : {β : Type} → PtCall β → β → Option PtAct
  | _, .inl (.iommuGetDmaDomain _), some dom => some (.domain dom)
  | _, .inr (.memcpyCfg p), _ => some (.copy p)
  | _, .inr (.allocIoPgtableOps _), some (ops, _) => some (.alloc ops)
  | _, .inr (.freeIoPgtableOps ops), _ => some (.free ops)
  | _, .inr (.setPgtblOps dom ops), _ => some (.install dom ops)
  | _, .inr (.setCb dom _), _ => some (.program dom)
  | _, .inr (.qcomScmKgslSetSmmuAperture _), ret => some (.aperture ret)
  | _, _, _ => none

/-- The observer of the page tables. -/
def ptObserver : Observer PtCall PtAct := ⟨fun _ _ => True, PtAct.view⟩

/-- The actions of a trace. -/
abbrev ptActs (trace : List (Event PtCall)) : List PtAct := ptObserver.actions trace

/-- A condition on the actions, the result and the last state of a program. -/
abbrev PtPost (α : Type) : Type := List PtAct → Option α → PageTables → Prop

variable {α β : Type} {off : U64} {s s' t : PageTables} {P : PtPost α} {dom : Domain}

/-- Whatever the rest of the driver's state, the program meets the condition. -/
def Makes (off : U64) (p : PtProg α) (P : PtPost α) (s : PageTables) : Prop :=
  ∀ w, wp (ptKernel off) .any p (fun trace result u => P (ptActs trace) result u.2) (w, s)

theorem Makes.mono {p : PtProg α} {P' : PtPost α} (h : Makes off p P s)
    (himp : ∀ acts result s', P acts result s' → P' acts result s') : Makes off p P' s :=
  fun w => wp_mono (h w) fun _ _ _ => himp _ _ _

theorem makes_pure {value : α} (h : P [] (some value) s) : Makes off (pure value) P s :=
  fun _ => wp_pure.mpr h

/-- The rule for a sequence. -/
theorem makes_bind {p : PtProg β} {rest : β → PtProg α} {Q : PtPost β} (h : Makes off p Q s)
    (hnext : ∀ acts value s', Q acts (some value) s' →
      Makes off (rest value) (fun acts' => P (acts ++ acts')) s')
    (hnone : ∀ acts s', Q acts none s' → P acts none s') : Makes off (p >>= rest) P s := by
  intro w
  rw [wp_bind]
  refine wp_mono (h w) ?_
  intro trace result u hQ
  cases result with
  | none => exact hnone _ _ hQ
  | some value =>
      refine wp_mono (hnext _ _ _ hQ u.1) ?_
      intro trace' result' u' hP
      rw [Post.after_apply, ptActs, Observer.actions_append]
      exact hP

/-- The rule for a call of the rest of the driver that is no action. -/
theorem makes_kcall [Nonempty β] {request : KCall β} {rest : β → PtProg α}
    (hview : ∀ answer : β, PtAct.view (.inl request) answer = none)
    (hnext : ∀ answer, Makes off (rest answer) P s) :
    Makes off (kcall request >>= rest) P s := by
  intro w
  refine wp_left fun answer w' _ => wp_mono (hnext answer w') ?_
  intro trace result u hP
  rw [Post.after_apply, ptActs, Observer.actions_append, Observer.actions_cons,
    show ptObserver.view (.inl request) answer = none from hview answer]
  exact hP

/-- The rule for finding the domain of a device. -/
theorem makes_domain {dev : Device} {rest : Option Domain → PtProg α}
    (hnone : Makes off (rest none) P s)
    (hsome : ∀ dom, Makes off (rest (some dom)) (fun acts => P (.domain dom :: acts)) s) :
    Makes off (kcall (.iommuGetDmaDomain dev) >>= rest) P s := by
  intro w
  refine wp_left fun answer w' _ => ?_
  cases answer with
  | none => exact hnone w'
  | some dom => exact hsome dom w'

/-- The rule for a call that never returns. -/
theorem makes_oops {rest : Empty → PtProg β} {next : β → PtProg α} (h : P [] none s) :
    Makes off (kcall .oops >>= rest >>= next) P s := by
  intro w
  rw [wp_bind, kcall, wp_perform_bind]
  exact ⟨trivial, fun _ => h, fun answer => answer.elim⟩

/-- The rule for an operation on the page tables. -/
theorem makes_op [Nonempty β] {request : PtOp β} {rest : β → PtProg α}
    (hnext : ∀ answer s', ptStep off request s answer = some s' → Makes off (rest answer)
      (fun acts => P ((PtAct.view (.inr request) answer).toList ++ acts)) s') :
    Makes off (ptop request >>= rest) P s := by
  intro w
  refine wp_right fun answer s' hstep => wp_mono (hnext answer s' hstep w) ?_
  intro trace result u hP
  rw [Post.after_apply, ptActs, Observer.actions_append, Observer.actions_cons,
    Observer.actions_nil,
    List.append_nil]
  exact hP

/-- The rule for reading. -/
theorem makes_read [Nonempty β] {request : PtOp β} {rest : β → PtProg α} (value : β)
    (hread : ∀ answer s', ptStep off request s answer = some s' → answer = value ∧ s' = s)
    (hview : PtAct.view (.inr request) value = none)
    (hnext : Makes off (rest value) P s) : Makes off (ptop request >>= rest) P s := by
  refine makes_op fun answer s' hstep => ?_
  obtain ⟨rfl, rfl⟩ := hread answer s' hstep
  rw [hview]
  exact hnext

/-- The rule for an operation that always does the same. -/
theorem makes_do {request : PtOp Unit} {rest : Unit → PtProg α}
    (hstep : ptStep off request s () = some t)
    (hnext : Makes off (rest ())
      (fun acts => P ((PtAct.view (.inr request) ()).toList ++ acts)) t) :
    Makes off (ptop request >>= rest) P s := by
  refine makes_op fun answer s' hs' => ?_
  rw [hstep] at hs'
  cases hs'
  exact hnext

/-- The answer to a read. -/
theorem read_step {β : Type} [DecidableEq β] {answer value : β}
    (h : (if answer = value then some s else none) = some s') : answer = value ∧ s' = s := by
  split at h
  · rename_i heq
    cases h
    exact ⟨heq, rfl⟩
  · cases h

/-- The calls of the rest of the driver that are no actions. -/
def Silent (β : Type) (request : KCall β) : Prop :=
  ∀ answer : β, PtAct.view (.inl request) answer = none

/-- The rule for a part of the driver whose calls are no actions. -/
theorem makes_lift {p : KProg β} {rest : β → PtProg α} (hp : p.Only Silent)
    (hnone : P [] none s) (hnext : ∀ value, Makes off (rest value) P s) :
    Makes off (p.lift .inl >>= rest) P s := by
  refine makes_bind (Q := fun acts _ s' => acts = [] ∧ s' = s) ?_ ?_ ?_
  · intro w
    have honly : wp kernel _ p _ w :=
      wp_only (I := fun _ => True) (fun _ _ _ _ _ _ _ => trivial) hp trivial
    have hany : wp kernel .any p (fun trace _ _ => Among Silent trace) w :=
      wp_weaken honly (fun _ _ _ _ _ => trivial) fun _ _ _ h => h.1
    refine wp_mono (wp_lift_left hany) ?_
    rintro trace result u ⟨own, rfl, hsilent, hu⟩
    refine ⟨List.filterMap_eq_nil_iff.mpr fun e he => ?_, hu⟩
    obtain ⟨own', hmem, rfl⟩ := List.mem_map.mp he
    exact hsilent own' hmem own'.answer
  · rintro acts value s' ⟨rfl, rfl⟩
    exact hnext value
  · rintro acts s' ⟨rfl, rfl⟩
    exact hnone

theorem vfioDeviceOf_silent (file : File) : (vfioDeviceOf file).Only Silent := by
  refine .then (fun _ => rfl) fun valid => ?_
  split
  · exact .then (fun _ => rfl) fun _ => .pure _
  split
  · exact .then (fun _ => rfl) fun _ => .pure _
  · exact .then (fun _ => rfl) fun _ => .pure _

theorem kiumdGetVfioDevice_silent (fd : Int) : (kiumdGetVfioDevice fd).Only Silent := by
  unfold kiumdGetVfioDevice
  split
  · exact .pure _
  refine .then (fun _ => rfl) fun file => ?_
  split
  · exact vfioDeviceOf_silent _
  · exact .pure _

/-! ## Programming a context bank -/

/-- The state is `t` but for the hardware. -/
def Reaches (t s : PageTables) : Prop := ∃ hw, s = { t with hw := hw }

namespace Reaches

theorem refl (s : PageTables) : Reaches s s := ⟨s.hw, rfl⟩

theorem pgtblOps (h : Reaches t s) : s.pgtblOps = t.pgtblOps := by
  obtain ⟨hw, rfl⟩ := h
  rfl

theorem live (h : Reaches t s) : s.live = t.live := by
  obtain ⟨hw, rfl⟩ := h
  rfl

theorem cfgs (h : Reaches t s) : s.cfgs = t.cfgs := by
  obtain ⟨hw, rfl⟩ := h
  rfl

theorem cbs (h : Reaches t s) : s.cbs = t.cbs := by
  obtain ⟨hw, rfl⟩ := h
  rfl

end Reaches

theorem writeRegs_makes {writes : List (CbReg × U64)} :
    Makes off (writeRegs dom writes)
      (fun acts result s' => acts = [] ∧ result = some () ∧ Reaches s s') s := by
  induction writes generalizing s with
  | nil => exact makes_pure ⟨rfl, rfl, .refl s⟩
  | cons write writes ih =>
      obtain ⟨reg, value⟩ := write
      refine makes_do rfl (ih.mono ?_)
      rintro acts result s' ⟨rfl, hresult, hw, rfl⟩
      exact ⟨rfl, hresult, hw, rfl⟩

theorem writeContextBank_makes :
    Makes off (kiumdSmmuv2WriteContextBank dom)
      (fun acts result s' => acts = [] ∧ result = some () ∧ Reaches s s') s := by
  refine makes_read (s.smmuCfg dom) (fun _ _ => read_step) rfl ?_
  refine makes_read (s.features dom) (fun _ _ => read_step) rfl ?_
  refine makes_read (s.cbs dom) (fun _ _ => read_step) rfl ?_
  exact writeRegs_makes

namespace PageTables

/-- The context bank with a table in `TTBR0`, unless one is there. -/
def enable0 (s : PageTables) (dom : Domain) (cfg : IoPgtableCfg) : PageTables :=
  if (s.cbs dom).tcr0 &&& ARM_SMMU_TCR_EPD0 = 0 then s
  else s.program dom
    { s.cbs dom with
      tcr0 := enabledTcr (s.cbs dom).tcr0 cfg, ttbr0 := ttbrOf cfg (s.smmuCfg dom).asid }

/-- The actions of `enable0`. -/
def acts0 (s : PageTables) (dom : Domain) : List PtAct :=
  if (s.cbs dom).tcr0 &&& ARM_SMMU_TCR_EPD0 = 0 then [] else [.program dom]

/-- The context bank with a table in `TTBR1`. -/
def enable1 (s : PageTables) (dom : Domain) (cfg : IoPgtableCfg) : PageTables :=
  s.program dom
    { s.cbs dom with
      tcr0 := enabledTcr (s.cbs dom).tcr0 cfg, ttbr1 := ttbrOf cfg (s.smmuCfg dom).asid }

/-- The table that is the static `pgtable` after `if (!pgtable)`. -/
def staticTable (s : PageTables) (off : U64) (dom : Domain) : U64 :=
  if s.pgtable = 0 then s.pgtblOps dom - off else s.pgtable

/-- The address is that of a new table. -/
def Fresh (s : PageTables) (ops : U64) : Prop := ops ≠ 0 ∧ s.live ops = false

end PageTables

theorem enable0_live {cfg : IoPgtableCfg} : (s.enable0 dom cfg).live = s.live := by
  unfold PageTables.enable0
  split <;> rfl

theorem enable0_pgtblOps {cfg : IoPgtableCfg} : (s.enable0 dom cfg).pgtblOps = s.pgtblOps := by
  unfold PageTables.enable0
  split <;> rfl

/-- What `kiumd_smmuv2_set_ttbr0_cfg` does. -/
inductive Ttbr0Cfg (s : PageTables) (dom : Domain) (cfg : IoPgtableCfg) : PtPost Int where
  | refused (hclear : (s.cbs dom).tcr0 &&& ARM_SMMU_TCR_EPD0 = 0) :
      Ttbr0Cfg s dom cfg [] (some (-EINVAL)) s
  | programmed {s' : PageTables} (hset : (s.cbs dom).tcr0 &&& ARM_SMMU_TCR_EPD0 ≠ 0)
      (hs' : Reaches (s.enable0 dom cfg) s') : Ttbr0Cfg s dom cfg [.program dom] (some 0) s'

theorem setTtbr0Cfg_cases {cfg : IoPgtableCfg} :
    Makes off (kiumdSmmuv2SetTtbr0Cfg dom cfg) (Ttbr0Cfg s dom cfg) s := by
  refine makes_read (s.cbs dom) (fun _ _ => read_step) rfl ?_
  split
  · rename_i hclear
    exact makes_pure (.refused hclear)
  · rename_i hset
    refine makes_read (s.smmuCfg dom) (fun _ _ => read_step) rfl (makes_do rfl ?_)
    refine makes_bind writeContextBank_makes ?_ fun _ _ h => nomatch h.2.1
    rintro acts _ s' ⟨rfl, _, hs'⟩
    refine makes_pure (.programmed hset ?_)
    rw [PageTables.enable0, if_neg hset]
    exact hs'

theorem setTtbr0Cfg_makes {cfg : IoPgtableCfg} :
    Makes off (kiumdSmmuv2SetTtbr0Cfg dom cfg) (fun acts result s' =>
      acts = s.acts0 dom ∧ result ≠ none ∧ Reaches (s.enable0 dom cfg) s') s := by
  refine setTtbr0Cfg_cases.mono ?_
  intro acts result s' h
  cases h with
  | refused hclear =>
      refine ⟨?_, nofun, ?_⟩
      · rw [PageTables.acts0, if_pos hclear]
      · rw [PageTables.enable0, if_pos hclear]
        exact .refl s
  | programmed hset hs' =>
      refine ⟨?_, nofun, hs'⟩
      rw [PageTables.acts0, if_neg hset]

/-- What `kiumd_smmuv2_set_ttbr1_cfg` does. -/
inductive Ttbr1Cfg (s : PageTables) (dom : Domain) (cfg : IoPgtableCfg) : PtPost Int where
  | refused (hclear : (s.cbs dom).tcr0 &&& ARM_SMMU_TCR_EPD1 = 0) :
      Ttbr1Cfg s dom cfg [] (some (-EINVAL)) s
  | programmed {s' : PageTables} (hset : (s.cbs dom).tcr0 &&& ARM_SMMU_TCR_EPD1 ≠ 0)
      (hs' : Reaches (s.enable1 dom cfg) s') : Ttbr1Cfg s dom cfg [.program dom] (some 0) s'

theorem setTtbr1Cfg_makes {cfg : IoPgtableCfg} :
    Makes off (kiumdSmmuv2SetTtbr1Cfg dom cfg) (Ttbr1Cfg s dom cfg) s := by
  refine makes_read (s.cbs dom) (fun _ _ => read_step) rfl ?_
  split
  · rename_i hclear
    exact makes_pure (.refused hclear)
  · rename_i hset
    refine makes_read (s.smmuCfg dom) (fun _ _ => read_step) rfl (makes_do rfl ?_)
    refine makes_bind writeContextBank_makes ?_ fun _ _ h => nomatch h.2.1
    rintro acts _ s' ⟨rfl, _, hs'⟩
    exact makes_pure (.programmed hset hs')

/-! ## The outcomes -/

/-- A result that is an error, if there is one. -/
def Fails (result : Option Int) : Prop := ∀ r, result = some r → r < 0

theorem fails_none : Fails none := nofun

theorem fails_some {r : Int} (h : r < 0) : Fails (some r) := by
  rintro _ ⟨⟩
  exact h

/-- The request copies a configuration for the domain, from `p`, in the state `t`. -/
inductive CopiesFrom (off : U64) (s : PageTables) :
    PtRequest → Domain → U64 → PageTables → Prop where
  | ttbr0 {arg : KiumdSmmuUser} {dom : Domain} (hflags : arg.flags = KIUMD_SMMU_SET_TTBR0_CONFIG)
      (hp : s.staticTable off dom ≠ 0) :
      CopiesFrom off s (.setPgtblContext arg) dom (s.staticTable off dom)
        { s with pgtable := s.staticTable off dom }
  | ttbr1 {arg : KiumdSmmuUser} {dom : Domain} (hflags : arg.flags = KIUMD_SMMU_SET_TTBR1_CONFIG)
      (hp : s.pgtblOps dom - off ≠ 0) :
      CopiesFrom off s (.setPgtblContext arg) dom (s.pgtblOps dom - off) s
  | perProcess {arg : KiumdSmmuUser} {dom : Domain} :
      CopiesFrom off s (.perProcessAlloc arg) dom s.pgtable s

/-- What a page-table ioctl can do from the state `s`. -/
inductive PtOutcome (off : U64) (s : PageTables) : PtRequest → PtPost Int where
  | refused {request : PtRequest} {acts : List PtAct} {result : Option Int}
      (hacts : acts = [] ∨ ∃ dom, acts = [.domain dom]) (hresult : Fails result) :
      PtOutcome off s request acts result s
  | noOps {arg : KiumdSmmuUser} {dom : Domain} :
      PtOutcome off s (.globalPtSet arg) [.domain dom] (some (-ENOMEM))
        { s with pgtable := s.staticTable off dom }
  | copied {request : PtRequest} {dom : Domain} {p : U64} {result : Option Int} {t s' : PageTables}
      (hcopies : CopiesFrom off s request dom p t) (hresult : Fails result) (hs' : Reaches t s') :
      PtOutcome off s request [.domain dom, .copy p] result s'
  | perProcess {arg : KiumdSmmuUser} {dom : Domain} {ops : U64} {cfg : IoPgtableCfg}
      {result : Option Int} (hfresh : s.Fresh ops) :
      PtOutcome off s (.perProcessAlloc arg) [.domain dom, .copy s.pgtable, .alloc ops] result
        (s.alloc ops cfg)
  | ttbr0 {arg : KiumdSmmuUser} {dom : Domain} {ops : U64} {cfg : IoPgtableCfg} {answers : List Int}
      {ret : Int} {t s' : PageTables} (hflags : arg.flags = KIUMD_SMMU_SET_TTBR0_CONFIG)
      (hp : s.staticTable off dom ≠ 0) (hfresh : s.Fresh ops) (hlast : answers.getLast? = some ret)
      (hret : ret ≤ 0)
      (ht : t = ({ s with pgtable := s.staticTable off dom }.alloc ops cfg).enable0 dom cfg)
      (hs' : Reaches (if ret = 0 then t else t.free ops) s') :
      PtOutcome off s (.setPgtblContext arg)
        (.domain dom :: .copy (s.staticTable off dom) :: .alloc ops :: (s.acts0 dom ++
          (answers.map .aperture ++ if ret = 0 then [] else [.free ops]))) (some ret) s'
  | ttbr1 {arg : KiumdSmmuUser} {dom : Domain} {ops : U64} {cfg : IoPgtableCfg} {s' : PageTables}
      (hflags : arg.flags = KIUMD_SMMU_SET_TTBR1_CONFIG) (hp : s.pgtblOps dom - off ≠ 0)
      (hfresh : s.Fresh ops) (hset : (s.cbs dom).tcr0 &&& ARM_SMMU_TCR_EPD1 ≠ 0)
      (hs' : Reaches (((s.alloc ops cfg).install dom ops).enable1 dom cfg) s') :
      PtOutcome off s (.setPgtblContext arg)
        [.domain dom, .copy (s.pgtblOps dom - off), .alloc ops, .install dom ops, .program dom]
        (some 0) s'
  | ttbr1Busy {arg : KiumdSmmuUser} {dom : Domain} {ops : U64} {cfg : IoPgtableCfg}
      {s' : PageTables} (hflags : arg.flags = KIUMD_SMMU_SET_TTBR1_CONFIG)
      (hp : s.pgtblOps dom - off ≠ 0)
      (hfresh : s.Fresh ops) (hclear : (s.cbs dom).tcr0 &&& ARM_SMMU_TCR_EPD1 = 0)
      (hs' : Reaches (((s.alloc ops cfg).install dom ops).free ops) s') :
      PtOutcome off s (.setPgtblContext arg)
        [.domain dom, .copy (s.pgtblOps dom - off), .alloc ops, .install dom ops, .free ops]
        (some (-EINVAL)) s'
  | global {arg : KiumdSmmuUser} {dom : Domain} :
      PtOutcome off s (.globalPtSet arg) [.domain dom, .install dom (s.staticTable off dom + off)]
        (some 0) ({ s with pgtable := s.staticTable off dom }.install dom
          (s.staticTable off dom + off))
  | set {arg : KiumdSmmuUser} {dom : Domain} :
      PtOutcome off s (.perProcessSet arg) [.domain dom, .install dom arg.pgtblOpsPtr] (some 0)
        (s.install dom arg.pgtblOpsPtr)
  | free {arg : KiumdSmmuUser} :
      PtOutcome off s (.perProcessFree arg) [.free arg.pgtblOpsPtr] (some 0)
        (s.free arg.pgtblOpsPtr)

/-- The rule for a copy of a configuration. -/
theorem makes_copy {p : U64} {rest : IoPgtableCfg → PtProg α} (hnone : P [.copy p] none s)
    (hnext : ∀ cfg, Makes off (rest cfg) (fun acts => P (.copy p :: acts)) s) :
    Makes off (copyCfg p >>= rest) P s := by
  refine makes_bind (Q := fun acts _ s' => acts = [.copy p] ∧ s' = s) ?_ ?_ ?_
  · refine makes_op fun answer s' hstep => ?_
    cases answer with
    | none =>
        simp only [ptStep] at hstep
        split at hstep <;> cases hstep
        intro w
        rw [kcall, wp_perform_bind]
        exact ⟨trivial, fun _ => ⟨rfl, rfl⟩, fun answer => answer.elim⟩
    | some cfg =>
        simp only [ptStep] at hstep
        split at hstep <;> cases hstep
        exact makes_pure ⟨rfl, rfl⟩
  · rintro acts value s' ⟨rfl, rfl⟩
    exact hnext value
  · rintro acts s' ⟨rfl, rfl⟩
    exact hnone

/-- The rule for an allocation. -/
theorem makes_alloc {cfg : IoPgtableCfg} {rest : Option (U64 × IoPgtableCfg) → PtProg α}
    (hnone : Makes off (rest none) P s)
    (hsome : ∀ ops cfg', s.Fresh ops → cfg'.quirks = cfg.quirks →
      Makes off (rest (some (ops, cfg'))) (fun acts => P (.alloc ops :: acts)) (s.alloc ops cfg')) :
    Makes off (ptop (.allocIoPgtableOps cfg) >>= rest) P s := by
  refine makes_op fun answer s' hstep => ?_
  cases answer with
  | none =>
      cases hstep
      exact hnone
  | some found =>
      obtain ⟨ops, cfg'⟩ := found
      simp only [ptStep] at hstep
      split at hstep <;> cases hstep
      rename_i hnew
      exact hsome ops cfg' ⟨hnew.1, by simpa using hnew.2.1⟩ hnew.2.2

/-- The rule for `if (!pgtable)`. -/
theorem makes_static {rest : Option U64 → PtProg α}
    (hnone : s.staticTable off dom = 0 → Makes off (rest none) P s)
    (hsome : s.staticTable off dom ≠ 0 → Makes off (rest (some (s.staticTable off dom))) P
      { s with pgtable := s.staticTable off dom }) :
    Makes off (staticPgtable off dom >>= rest) P s := by
  refine makes_bind (Q := fun acts result s' => acts = [] ∧
    ((s.staticTable off dom = 0 ∧ result = some none ∧ s' = s) ∨
      (s.staticTable off dom ≠ 0 ∧ result = some (some (s.staticTable off dom)) ∧
        s' = { s with pgtable := s.staticTable off dom }))) ?_ ?_ ?_
  · refine makes_read s.pgtable (fun _ _ => read_step) rfl ?_
    split
    · rename_i hnull
      have htable : s.staticTable off dom = s.pgtblOps dom - off := by
        rw [PageTables.staticTable, if_pos hnull]
      refine makes_read (s.pgtblOps dom) (fun _ _ => read_step) rfl (makes_do rfl ?_)
      rw [htable]
      split
      · rename_i hzero
        refine makes_pure ⟨rfl, .inl ⟨hzero, rfl, ?_⟩⟩
        rw [hzero, ← hnull]
      · rename_i hne
        exact makes_pure ⟨rfl, .inr ⟨hne, rfl, rfl⟩⟩
    · rename_i hset
      have htable : s.staticTable off dom = s.pgtable := by
        rw [PageTables.staticTable, if_neg hset]
      rw [htable]
      exact makes_pure ⟨rfl, .inr ⟨hset, rfl, rfl⟩⟩
  · rintro acts value s' ⟨rfl, ⟨hzero, hvalue, rfl⟩ | ⟨hne, hvalue, rfl⟩⟩
    · cases hvalue
      exact hnone hzero
    · cases hvalue
      exact hsome hne
  · rintro acts s' ⟨_, ⟨_, hresult, _⟩ | ⟨_, hresult, _⟩⟩ <;> cases hresult

theorem setAperture_makes :
    Makes off (setAperture dom) (fun acts result s' => s' = s ∧ ∃ (answers : List Int) (ret : Int),
      acts = answers.map .aperture ∧ answers.getLast? = some ret ∧ ret ≤ 0 ∧ result = some ret)
      s := by
  refine makes_op fun ret s₁ hstep => ?_
  simp only [ptStep] at hstep
  split at hstep <;> cases hstep
  rename_i hret
  split
  · rename_i hbusy
    have hagain : Makes off (ptop (.qcomScmKgslSetSmmuAperture dom) >>= pure)
        (fun acts result s' => s' = s ∧ ∃ (answers : List Int) (ret' : Int),
          .aperture ret :: acts = answers.map .aperture ∧
          answers.getLast? = some ret' ∧ ret' ≤ 0 ∧ result = some ret') s := by
      refine makes_op fun ret' s₂ hstep => ?_
      simp only [ptStep] at hstep
      split at hstep <;> cases hstep
      rename_i hret'
      exact makes_pure ⟨rfl, [ret, ret'], ret', rfl, rfl, hret', rfl⟩
    exact hagain
  · exact makes_pure ⟨rfl, [ret], ret, rfl, rfl, hret, rfl⟩

/-! ## SET_PGTBL_CONTEXT -/

variable {arg : KiumdSmmuUser}

theorem Reaches.ifFree (h : Reaches t s) (ret : Int) (ops : U64) :
    Reaches (if ret = 0 then t else t.free ops) (if ret = 0 then s else s.free ops) := by
  obtain ⟨hw, rfl⟩ := h
  split <;> exact ⟨hw, rfl⟩

theorem setPgtbleTtbr0Context_outcome (hflags : arg.flags = KIUMD_SMMU_SET_TTBR0_CONFIG) :
    Makes off (kiumdSetPgtbleTtbr0Context off dom)
      (fun acts => PtOutcome off s (.setPgtblContext arg) (.domain dom :: acts)) s := by
  have hrefused : ∀ r, r < 0 → Makes off (pure r)
      (fun acts => PtOutcome off s (.setPgtblContext arg) (.domain dom :: acts)) s := fun r hr =>
    makes_pure (.refused (.inr ⟨dom, rfl⟩) (fails_some hr))
  refine makes_read (s.pgtblOps dom) (fun _ _ => read_step) rfl ?_
  split
  · exact hrefused _ (by decide)
  refine makes_static (fun _ => hrefused _ (by decide)) fun hp => ?_
  have hcopies := CopiesFrom.ttbr0 hflags hp
  refine makes_copy (.copied hcopies fails_none (.refl _)) fun cfg => ?_
  refine makes_alloc (makes_pure (.copied hcopies (fails_some (by decide)) (.refl _))) ?_
  intro ops cfg' hfresh _
  refine makes_bind setTtbr0Cfg_makes ?_ fun _ _ h => absurd rfl h.2.1
  rintro _ _ s₁ ⟨rfl, _, hs₁⟩
  refine makes_bind setAperture_makes ?_ ?_
  · rintro _ ret s₂ ⟨rfl, answers, _, rfl, hlast, hret, hresult⟩
    cases hresult
    have hdone := PtOutcome.ttbr0 hflags hp hfresh hlast hret rfl (hs₁.ifFree ret ops)
    split
    · rename_i hne
      rw [if_neg hne, if_neg hne] at hdone
      exact makes_do rfl (makes_pure hdone)
    · rename_i heq
      rw [not_not] at heq
      subst heq
      exact makes_pure hdone
  · rintro _ _ ⟨_, _, _, _, _, _, hresult⟩
    cases hresult

theorem setPgtbleTtbr1Context_outcome (hflags : arg.flags = KIUMD_SMMU_SET_TTBR1_CONFIG) :
    Makes off (kiumdSetPgtbleTtbr1Context off dom)
      (fun acts => PtOutcome off s (.setPgtblContext arg) (.domain dom :: acts)) s := by
  have hrefused : ∀ r, r < 0 → Makes off (pure r)
      (fun acts => PtOutcome off s (.setPgtblContext arg) (.domain dom :: acts)) s := fun r hr =>
    makes_pure (.refused (.inr ⟨dom, rfl⟩) (fails_some hr))
  refine makes_read (s.pgtblOps dom) (fun _ _ => read_step) rfl ?_
  split
  · exact hrefused _ (by decide)
  by_cases hp : s.pgtblOps dom - off = 0
  · rw [if_pos hp]
    exact hrefused _ (by decide)
  rw [if_neg hp]
  have hcopies := CopiesFrom.ttbr1 hflags hp
  refine makes_copy (.copied hcopies fails_none (.refl _)) fun cfg => ?_
  unfold useTtbr1
  split
  · refine makes_do rfl ?_
    refine makes_alloc (makes_pure (.copied hcopies (fails_some (by decide)) ⟨_, rfl⟩)) ?_
    intro ops cfg' hfresh _
    refine makes_do rfl ?_
    refine makes_bind setTtbr1Cfg_makes ?_ ?_
    · intro acts ret s₁ h₁
      cases h₁ with
      | refused hclear =>
          refine makes_do rfl (makes_pure ?_)
          exact .ttbr1Busy hflags hp hfresh hclear ⟨_, rfl⟩
      | programmed hset hs₁ =>
          obtain ⟨hw, rfl⟩ := hs₁
          exact makes_pure (.ttbr1 hflags hp hfresh hset ⟨_, rfl⟩)
    · intro acts s₁ h₁
      cases h₁
  · exact makes_pure (.copied hcopies (fails_some (by decide)) (.refl _))

theorem setPgtblContext_outcome :
    Makes off (kiumdSetPgtblContext off arg) (PtOutcome off s (.setPgtblContext arg)) s := by
  have hrefused : ∀ r, r < 0 → Makes off (pure r) (PtOutcome off s (.setPgtblContext arg)) s :=
    fun r hr => makes_pure (.refused (.inl rfl) (fails_some hr))
  refine makes_kcall (fun _ => rfl) fun copied => ?_
  split
  · exact hrefused _ (by decide)
  split
  · exact hrefused _ (by decide)
  refine makes_lift (kiumdGetVfioDevice_silent _) (.refused (.inl rfl) fails_none) ?_
  intro vfioDev
  split
  · split
    · refine makes_domain (hrefused _ (by decide)) fun dom => ?_
      by_cases hflags : arg.flags = KIUMD_SMMU_SET_TTBR0_CONFIG
      · simp only [if_pos hflags]
        exact setPgtbleTtbr0Context_outcome hflags
      simp only [if_neg hflags]
      by_cases hflags : arg.flags = KIUMD_SMMU_SET_TTBR1_CONFIG
      · simp only [if_pos hflags]
        exact setPgtbleTtbr1Context_outcome hflags
      simp only [if_neg hflags]
      exact makes_pure (PtOutcome.refused (.inr ⟨dom, rfl⟩) (fails_some (by decide)))
    · exact makes_oops (.refused (.inl rfl) fails_none)
  · exact hrefused _ (by decide)

/-! ## The other ioctls -/

/-- The start of an ioctl makes no action and refuses with an error or leads to a file. -/
theorem vfioFile_makes {noDevice : Int} (hneg : noDevice < 0) :
    Makes off (vfioFile arg noDevice) (fun acts result s' => acts = [] ∧ s' = s ∧
      ∀ err, result = some (.error err) → err < 0) s := by
  have hrefused : ∀ err < 0, Makes off (pure (.error err)) (fun acts
      (result : Option (Except Int (File × VfioDevice))) s' => acts = [] ∧ s' = s ∧
        ∀ err, result = some (.error err) → err < 0) s := by
    intro err herr
    refine makes_pure ⟨rfl, rfl, ?_⟩
    rintro _ ⟨⟩
    exact herr
  refine makes_kcall (fun _ => rfl) fun copied => ?_
  split
  · exact hrefused _ (by decide)
  split
  · exact hrefused _ (by decide)
  refine makes_kcall (fun _ => rfl) fun file => ?_
  split
  · split
    · split
      · exact makes_pure ⟨rfl, rfl, nofun⟩
      · exact makes_kcall (fun _ => rfl) fun _ => hrefused _ hneg
    · exact makes_oops ⟨rfl, rfl, nofun⟩
  · exact hrefused _ (by decide)

/-- Finding the domain of the device, or an error. -/
inductive DomainFound (s : PageTables) : PtPost (Except Int (File × Domain)) where
  | refused {result : Option (Except Int (File × Domain))}
      (hresult : ∀ value, result = some value → ∃ err < 0, value = .error err) :
      DomainFound s [] result s
  | found {file : File} {dom : Domain} : DomainFound s [.domain dom] (some (.ok (file, dom))) s

theorem vfioDomain_makes {noDevice noDomain : Int} (hneg : noDevice < 0) (hneg' : noDomain < 0) :
    Makes off (vfioDomain arg noDevice noDomain) (DomainFound s) s := by
  have hrefused : ∀ err < 0, Makes off (pure (.error err)) (DomainFound s) s := by
    intro err herr
    refine makes_pure (.refused ?_)
    rintro _ ⟨⟩
    exact ⟨err, herr, rfl⟩
  refine makes_bind (vfioFile_makes hneg) ?_ ?_
  · rintro _ found _ ⟨rfl, rfl, hfound⟩
    cases found with
    | error err => exact hrefused _ (hfound err rfl)
    | ok opened =>
        dsimp only
        split
        · refine makes_domain ?_ fun dom => ?_
          · exact makes_kcall (fun _ => rfl) fun _ => hrefused _ hneg'
          · exact makes_pure .found
        · exact makes_oops (.refused nofun)
  · rintro _ _ ⟨rfl, rfl, _⟩
    exact .refused nofun

/-- The rule for an ioctl that looks for the domain of its device. -/
theorem makes_vfioDomain {request : PtRequest} {noDevice noDomain : Int}
    {rest : Except Int (File × Domain) → PtProg Int} (hneg : noDevice < 0) (hneg' : noDomain < 0)
    (herror : ∀ err, rest (.error err) = pure err)
    (hnext : ∀ file dom, Makes off (rest (.ok (file, dom)))
      (fun acts => PtOutcome off s request (.domain dom :: acts)) s) :
    Makes off (vfioDomain arg noDevice noDomain >>= rest) (PtOutcome off s request) s := by
  refine makes_bind (vfioDomain_makes hneg hneg') ?_ ?_
  · intro acts found s₁ h₁
    cases h₁ with
    | refused hresult =>
        obtain ⟨err, herr, rfl⟩ := hresult found rfl
        rw [herror]
        exact makes_pure (.refused (.inl rfl) (fails_some herr))
    | found => exact hnext _ _
  · intro acts s₁ h₁
    cases h₁ with
    | refused _ => exact .refused (.inl rfl) fails_none

theorem perprocessPtAlloc_outcome :
    Makes off (kiumdPerprocessPtAlloc arg) (PtOutcome off s (.perProcessAlloc arg)) s := by
  refine makes_vfioDomain (by decide) (by decide) (fun _ => rfl) fun file dom => ?_
  refine makes_read (s.pgtblOps dom) (fun _ _ => read_step) rfl ?_
  split
  · refine makes_kcall (fun _ => rfl) fun _ => makes_pure ?_
    exact .refused (.inr ⟨dom, rfl⟩) (fails_some (by decide))
  have hcopies : CopiesFrom off s (.perProcessAlloc arg) dom s.pgtable s := .perProcess
  refine makes_read s.pgtable (fun _ _ => read_step) rfl ?_
  refine makes_copy (.copied hcopies fails_none (.refl s)) fun cfg => ?_
  refine makes_read (s.smmuCfg dom) (fun _ _ => read_step) rfl ?_
  refine makes_alloc ?_ fun ops cfg' hfresh _ => ?_
  · refine makes_kcall (fun _ => rfl) fun _ => makes_pure ?_
    exact .copied hcopies (fails_some (by decide)) (.refl s)
  · refine makes_kcall (fun _ => rfl) fun _ => makes_kcall (fun _ => rfl) fun copied => ?_
    split <;> exact makes_pure (.perProcess hfresh)

theorem globalPgtbleSet_outcome :
    Makes off (kiumdGlobalPgtbleSet off arg) (PtOutcome off s (.globalPtSet arg)) s := by
  refine makes_vfioDomain (by decide) (by decide) (fun _ => rfl) fun file dom => ?_
  refine makes_static (fun _ => ?_) fun hp => ?_
  · refine makes_kcall (fun _ => rfl) fun _ => makes_pure ?_
    exact .refused (.inr ⟨dom, rfl⟩) (fails_some (by decide))
  by_cases hops : s.staticTable off dom + off = 0
  · simp only [if_pos hops]
    exact makes_kcall (fun _ => rfl) fun _ => makes_pure .noOps
  · simp only [if_neg hops]
    exact makes_do rfl (makes_kcall (fun _ => rfl) fun _ => makes_pure .global)

theorem perprocessPgtbleSet_outcome :
    Makes off (kiumdPerprocessPgtbleSet arg) (PtOutcome off s (.perProcessSet arg)) s := by
  refine makes_vfioDomain (by decide) (by decide) (fun _ => rfl) fun file dom => ?_
  exact makes_do rfl (makes_kcall (fun _ => rfl) fun _ => makes_pure .set)

theorem perprocessPgtbleFree_outcome :
    Makes off (kiumdPerprocessPgtbleFree arg) (PtOutcome off s (.perProcessFree arg)) s := by
  refine makes_bind (vfioFile_makes (by decide)) ?_ ?_
  · rintro _ found _ ⟨rfl, rfl, hfound⟩
    cases found with
    | error err => exact makes_pure (.refused (.inl rfl) (fails_some (hfound err rfl)))
    | ok opened =>
        dsimp only
        split
        · refine makes_kcall (fun _ => rfl) fun _ => makes_pure ?_
          exact .refused (.inl rfl) (fails_some (by decide))
        · exact makes_do rfl (makes_kcall (fun _ => rfl) fun _ => makes_pure .free)
  · rintro _ _ ⟨rfl, rfl, _⟩
    exact .refused (.inl rfl) fails_none

/-- Every page-table ioctl has one of the outcomes. -/
theorem kiumdPgtblIoctl_outcome (request : PtRequest) :
    Makes off (kiumdPgtblIoctl off request) (PtOutcome off s request) s := by
  cases request with
  | setPgtblContext arg => exact setPgtblContext_outcome
  | perProcessAlloc arg => exact perprocessPtAlloc_outcome
  | perProcessSet arg => exact perprocessPgtbleSet_outcome
  | perProcessFree arg => exact perprocessPgtbleFree_outcome
  | globalPtSet arg => exact globalPgtbleSet_outcome

/-! ## An initial state and a request -/

/-- Answers of the page tables: the next table is at `0x5000` and the aperture is answered with
`ret`. -/
def ptAnswers (ret : Int) : Chooser PtCall PtWorld := fun _ request u =>
  match request with
  | .inl request => (Answers.plain fun _ _ => false).choose _ request u.1
  | .inr request =>
      match request with
      | .pgtable => some u.2.pgtable
      | .pgtblOps dom => some (u.2.pgtblOps dom)
      | .cfg dom => some (u.2.smmuCfg dom)
      | .features dom => some (u.2.features dom)
      | .memcpyCfg p => some (if p = 0 then none else some default)
      | .allocIoPgtableOps cfg => some (some (0x5000, { cfg with ttbr := 0x5000 }))
      | .cb dom => some (u.2.cbs dom)
      | .qcomScmKgslSetSmmuAperture _ => some ret
      | .setPgtable _ | .setPgtblOps _ _ | .setGeometry _ _ _ | .freeIoPgtableOps _ | .setCb _ _
      | .write _ _ _ => some ()

/-- Every domain has a table, and its context bank has it in `TTBR0` or in both registers. -/
def PageTables.initial (tcr : U32) : PageTables where
  pgtable := 0
  pgtblOps := fun dom => if dom = 0 then 0x1000 else 0x2000
  live := fun ops => ops = 0x1000 || ops = 0x2000
  cfgs := fun _ => default
  cbs := fun _ => { (default : ArmSmmuCb) with tcr0 := tcr }
  smmuCfg := default
  features := fun _ => 0
  hw := ⟨fun _ _ => 0, fun _ => (0, 0)⟩

/-- An ordinary argument. -/
def plainSmmuUser : KiumdSmmuUser where
  vfioFd := 3
  pgtblOpsPtr := 0x1000
  ttbr0 := 0
  asid := 0
  flags := KIUMD_SMMU_SET_TTBR1_CONFIG

end SafeLinux.Kiumd
