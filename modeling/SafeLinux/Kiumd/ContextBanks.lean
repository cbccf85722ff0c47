import SafeLinux.Kiumd.PageTableOutcome

/-!
# Context banks hold page tables that have not been freed

SET_PGTBL_CONTEXT puts a new page table into one of the two registers of a context bank. In every
run in which `TTBR0` is programmed exactly when the aperture can be set, each register that is
enabled for translation holds a live page table, and a call that does not program its register
fails and leaves no table behind (`context_run_banks_live`).
-/

namespace SafeLinux.Kiumd

open Effects

variable {off ops : U64} {s s' t : PageTables} {dom : Domain} {request : PtRequest}
  {acts : List PtAct} {result : Option Int} {cfg : IoPgtableCfg} {cb : ArmSmmuCb}

/-! ## Registers -/

/-- The base of a table in a `TTBRn`, without the address space id. -/
def ttbrBase (ttbr : U64) : U64 := ttbr &&& ~~~ genmask 63 48

/-- Translation through `TTBR0` is enabled. -/
def ArmSmmuCb.Enabled0 (cb : ArmSmmuCb) : Prop := cb.tcr0 &&& ARM_SMMU_TCR_EPD0 = 0

/-- Translation through `TTBR1` is enabled. -/
def ArmSmmuCb.Enabled1 (cb : ArmSmmuCb) : Prop := cb.tcr0 &&& ARM_SMMU_TCR_EPD1 = 0

instance (cb : ArmSmmuCb) : Decidable cb.Enabled0 := inferInstanceAs (Decidable (_ = _))

instance (cb : ArmSmmuCb) : Decidable cb.Enabled1 := inferInstanceAs (Decidable (_ = _))

theorem ttbrBase_ttbrOf (cfg : IoPgtableCfg) (asid : BitVec 16) :
    ttbrBase (ttbrOf cfg asid) = ttbrBase cfg.ttbr := by
  ext i hi
  simp only [ttbrBase, ttbrOf, fieldPrep, BitVec.getElem_and, BitVec.getElem_or,
    BitVec.getElem_not]
  cases (genmask 63 48 : U64)[i] <;> simp

/-- Clearing bits clears each of them. -/
theorem clear_and {w : Nat} (x a b m : BitVec w) (h : m = a ∨ m = b) :
    (x &&& ~~~ (a ||| b)) &&& m = 0 := by
  ext i hi
  rcases h with rfl | rfl <;>
    simp only [BitVec.getElem_and, BitVec.getElem_not, BitVec.getElem_or] <;>
    cases x[i] <;> cases m[i] <;> simp

theorem enabledTcr_epd0 (tcr : U32) (cfg : IoPgtableCfg) :
    enabledTcr tcr cfg &&& ARM_SMMU_TCR_EPD0 = 0 :=
  clear_and _ _ _ _ (.inl rfl)

theorem enabledTcr_epd1 (tcr : U32) (cfg : IoPgtableCfg) :
    enabledTcr tcr cfg &&& ARM_SMMU_TCR_EPD1 = 0 :=
  clear_and _ _ _ _ (.inr rfl)

/-! ## Banks -/

/-- The register holds the base of a live table. -/
def HoldsTable (s : PageTables) (ttbr : U64) : Prop :=
  ∃ ops, s.live ops = true ∧ ttbrBase ttbr = ttbrBase (s.cfgs ops).ttbr

/-- Every enabled register of the bank holds the base of a live table. -/
structure BankLive (s : PageTables) (cb : ArmSmmuCb) : Prop where
  ttbr0 : cb.Enabled0 → HoldsTable s cb.ttbr0
  ttbr1 : cb.Enabled1 → HoldsTable s cb.ttbr1

/-- The live tables of `s` are live in `s'` and have their configurations. -/
def TablesStay (s s' : PageTables) : Prop :=
  ∀ ops, s.live ops = true → s'.live ops = true ∧ s'.cfgs ops = s.cfgs ops

theorem TablesStay.refl (s : PageTables) : TablesStay s s := fun _ h => ⟨h, rfl⟩

/-- A new table takes the place of no other. -/
theorem TablesStay.of_fresh (hfresh : s.Fresh ops)
    (hlive : ∀ ops', ops' ≠ ops → s'.live ops' = s.live ops')
    (hcfgs : s'.cfgs = Function.update s.cfgs ops cfg) : TablesStay s s' := by
  intro ops' hops'
  have hne : ops' ≠ ops := by
    rintro rfl
    rw [hfresh.2] at hops'
    cases hops'
  rw [hcfgs, Function.update_of_ne hne, hlive ops' hne]
  exact ⟨hops', rfl⟩

theorem TablesStay.of_new (hfresh : s.Fresh ops)
    (hlive : s'.live = Function.update s.live ops true)
    (hcfgs : s'.cfgs = Function.update s.cfgs ops cfg) : TablesStay s s' := by
  refine .of_fresh hfresh (fun ops' hne => ?_) hcfgs
  rw [hlive, Function.update_of_ne hne]

theorem HoldsTable.mono {ttbr : U64} (h : HoldsTable s ttbr) (hstay : TablesStay s s') :
    HoldsTable s' ttbr := by
  obtain ⟨ops, hlive, hbase⟩ := h
  obtain ⟨hlive', hcfg⟩ := hstay ops hlive
  exact ⟨ops, hlive', by rw [hcfg]; exact hbase⟩

theorem BankLive.mono (h : BankLive s cb) (hstay : TablesStay s s') : BankLive s' cb :=
  ⟨fun henabled => (h.ttbr0 henabled).mono hstay, fun henabled => (h.ttbr1 henabled).mono hstay⟩

/-- A register that is programmed with a new table holds its base. -/
theorem holdsTable_ttbrOf {asid : BitVec 16} (hlive : s'.live = Function.update s.live ops true)
    (hcfgs : s'.cfgs = Function.update s.cfgs ops cfg) : HoldsTable s' (ttbrOf cfg asid) := by
  refine ⟨ops, ?_, ?_⟩
  · rw [hlive, Function.update_self]
  · rw [hcfgs, Function.update_self, ttbrBase_ttbrOf]

/-- The bank of a domain: some half is enabled, and enabled registers hold live tables. -/
structure BankOk (s : PageTables) (dom : Domain) : Prop where
  some : (s.cbs dom).Enabled0 ∨ (s.cbs dom).Enabled1
  live : BankLive s (s.cbs dom)

/-- The bank is as it was, and no table is lost. -/
theorem BankOk.same (h : BankOk s dom) (hcb : s'.cbs dom = s.cbs dom) (hstay : TablesStay s s') :
    BankOk s' dom := by
  refine ⟨?_, ?_⟩
  · rw [hcb]
    exact h.some
  · rw [hcb]
    exact h.live.mono hstay

/-- A bank is programmed, in which the other half keeps its table if it is enabled after. -/
theorem BankOk.program {dom' : Domain} (h : BankOk s dom) (hstay : TablesStay s s')
    (hcbs : s'.cbs = Function.update s.cbs dom' cb) (henabled : cb.Enabled0)
    (hlive : dom = dom' → BankLive s' cb) : BankOk s' dom := by
  by_cases hdom : dom = dom'
  · refine ⟨?_, ?_⟩ <;> rw [hcbs, hdom, Function.update_self]
    · exact .inl henabled
    · exact hlive hdom
  · refine h.same ?_ hstay
    rw [hcbs, Function.update_of_ne hdom]

/-! ## One call -/

/-- The answers about the aperture. -/
def PtAct.apertureAnswer : PtAct → Option Int
  | .aperture ret => some ret
  | _ => none

/-- The request is SET_PGTBL_CONTEXT for one of the two registers. -/
def PtRequest.IsContext : PtRequest → Prop
  | .setPgtblContext arg =>
      arg.flags = KIUMD_SMMU_SET_TTBR0_CONFIG ∨ arg.flags = KIUMD_SMMU_SET_TTBR1_CONFIG
  | _ => False

/-- If the request allocates a table for `TTBR0` of a domain, then the register is free exactly if
the aperture can be set. -/
def ApertureFits (s : PageTables) (acts : List PtAct) : PtRequest → Prop
  | .setPgtblContext arg => arg.flags = KIUMD_SMMU_SET_TTBR0_CONFIG →
      ∀ dom ops ret, .domain dom ∈ acts → .alloc ops ∈ acts →
        (acts.filterMap PtAct.apertureAnswer).getLast? = some ret →
        (¬ (s.cbs dom).Enabled0 ↔ ret = 0)
  | _ => True

/-- A call that programs no register fails and leaves no table allocated. -/
def FailsClean (s s' : PageTables) (acts : List PtAct) (result : Option Int) : Prop :=
  (∀ dom, .program dom ∉ acts) → Fails result ∧ s'.live = s.live

theorem acts0_apertures : (s.acts0 dom).filterMap PtAct.apertureAnswer = [] := by
  unfold PageTables.acts0
  split <;> rfl

theorem map_apertures (answers : List Int) :
    (answers.map .aperture).filterMap PtAct.apertureAnswer = answers := by
  induction answers with
  | nil => rfl
  | cons answer answers ih => simpa [PtAct.apertureAnswer] using ih

theorem CopiesFrom.stays {p : U64} (h : CopiesFrom off s request dom p t) :
    t.live = s.live ∧ t.cfgs = s.cfgs ∧ t.cbs = s.cbs := by
  cases h <;> exact ⟨rfl, rfl, rfl⟩

theorem enable0_of_disabled (h : ¬ (s.cbs dom).Enabled0) :
    s.enable0 dom cfg = s.program dom { s.cbs dom with
      tcr0 := enabledTcr (s.cbs dom).tcr0 cfg, ttbr0 := ttbrOf cfg (s.smmuCfg dom).asid } :=
  if_neg h

theorem enable0_of_enabled (h : (s.cbs dom).Enabled0) : s.enable0 dom cfg = s :=
  if_pos h

/-- A table for `TTBR0` of a bank, which was free, stays allocated. -/
theorem BankOk.enable0 {dom' : Domain} (h : BankOk s dom) (hfresh : s.Fresh ops)
    (hset : ¬ (s.cbs dom').Enabled0) (p : U64)
    (hs' : Reaches (({ s with pgtable := p }.alloc ops cfg).enable0 dom' cfg) s') :
    BankOk s' dom := by
  have hset' : ¬ (({ s with pgtable := p }.alloc ops cfg).cbs dom').Enabled0 := hset
  rw [enable0_of_disabled hset'] at hs'
  have hlive : s'.live = Function.update s.live ops true := hs'.live
  have hcfgs : s'.cfgs = Function.update s.cfgs ops cfg := hs'.cfgs
  have hstay : TablesStay s s' := .of_new hfresh hlive hcfgs
  refine h.program hstay hs'.cbs (enabledTcr_epd0 _ _) ?_
  rintro rfl
  refine ⟨fun _ => holdsTable_ttbrOf hlive hcfgs, fun _ => ?_⟩
  · exact (h.live.ttbr1 (h.some.resolve_left hset)).mono hstay

/-- A table for `TTBR1` of a bank, which was free, stays allocated. -/
theorem BankOk.enable1 {dom' : Domain} (h : BankOk s dom) (hfresh : s.Fresh ops)
    (hset : ¬ (s.cbs dom').Enabled1)
    (hs' : Reaches (((s.alloc ops cfg).install dom' ops).enable1 dom' cfg) s') :
    BankOk s' dom := by
  have hlive : s'.live = Function.update s.live ops true := hs'.live
  have hcfgs : s'.cfgs = Function.update s.cfgs ops cfg := hs'.cfgs
  have hstay : TablesStay s s' := .of_new hfresh hlive hcfgs
  refine h.program hstay hs'.cbs (enabledTcr_epd0 _ _) ?_
  rintro rfl
  refine ⟨fun _ => ?_, fun _ => holdsTable_ttbrOf hlive hcfgs⟩
  exact (h.live.ttbr0 (h.some.resolve_right hset)).mono hstay

/-- A table that is allocated and freed again leaves nothing behind. -/
theorem live_alloc_free (hfresh : s.Fresh ops)
    (hlive : s'.live = Function.update (Function.update s.live ops true) ops false) :
    s'.live = s.live := by
  rw [hlive, Function.update_idem, ← hfresh.2, Function.update_eq_self]

theorem BankOk.alloc_free (h : BankOk s dom) (hfresh : s.Fresh ops) (hlive : s'.live = s.live)
    (hcfgs : s'.cfgs = Function.update s.cfgs ops cfg) (hcbs : s'.cbs = s.cbs) : BankOk s' dom :=
  h.same (congrFun hcbs dom) (.of_fresh hfresh (fun ops' _ => congrFun hlive ops') hcfgs)

/-- A call that fits the aperture keeps every bank, and fails cleanly or programs its register. -/
theorem PtOutcome.bankOk (h : PtOutcome off s request acts result s')
    (hcontext : request.IsContext) (hfits : ApertureFits s acts request) :
    (∀ dom, BankOk s dom → BankOk s' dom) ∧ FailsClean s s' acts result := by
  cases h with
  | refused _ hresult => exact ⟨fun _ h => h, fun _ => ⟨hresult, rfl⟩⟩
  | copied hcopies hresult hs' =>
      obtain ⟨hlive, hcfgs, hcbs⟩ := hcopies.stays
      obtain ⟨hw, rfl⟩ := hs'
      refine ⟨fun dom h => h.same (congrFun hcbs dom) ?_, fun _ => ⟨hresult, hlive⟩⟩
      intro ops hops
      exact ⟨(congrFun hlive ops).trans hops, congrFun hcfgs ops⟩
  | @ttbr0 _ dom' ops cfg answers ret t _ hflags hp hfresh hlast hret ht hs' =>
      have hfit : ¬ (s.cbs dom').Enabled0 ↔ ret = 0 := by
        refine hfits hflags dom' ops ret List.mem_cons_self (by simp) ?_
        rw [← hlast]
        congr 1
        simp only [List.filterMap_cons, PtAct.apertureAnswer, List.filterMap_append,
          acts0_apertures, map_apertures, List.nil_append]
        split <;> simp [PtAct.apertureAnswer]
      by_cases hzero : ret = 0
      · rw [if_pos hzero, ht] at hs'
        have hset := hfit.mpr hzero
        refine ⟨fun dom h => h.enable0 hfresh hset _ hs', fun hnot => ?_⟩
        refine absurd ?_ (hnot dom')
        have hacts : s.acts0 dom' = [.program dom'] := if_neg hset
        simp [hacts]
      · rw [if_neg hzero, ht] at hs'
        have henabled : (s.cbs dom').Enabled0 := not_not.mp (mt hfit.mp hzero)
        have henabled' :
            (({ s with pgtable := s.staticTable off dom' }.alloc ops cfg).cbs dom').Enabled0 :=
          henabled
        rw [enable0_of_enabled henabled'] at hs'
        obtain ⟨hw, rfl⟩ := hs'
        refine ⟨fun dom h => h.alloc_free hfresh (live_alloc_free hfresh rfl) rfl rfl, fun _ => ?_⟩
        exact ⟨fails_some (lt_of_le_of_ne hret hzero), live_alloc_free hfresh rfl⟩
  | @ttbr1 _ dom' ops cfg _ hflags hp hfresh hset hs' =>
      refine ⟨fun dom h => h.enable1 hfresh hset hs', fun hnot => ?_⟩
      exact absurd (by simp) (hnot dom')
  | @ttbr1Busy _ dom' ops cfg _ hflags hp hfresh hclear hs' =>
      obtain ⟨hw, rfl⟩ := hs'
      refine ⟨fun dom h => h.alloc_free hfresh (live_alloc_free hfresh rfl) rfl rfl, fun _ => ?_⟩
      exact ⟨fails_some (by decide), live_alloc_free hfresh rfl⟩
  | _ => cases hcontext

/-! ## Runs -/

/-- The requests that set a register and fit the aperture. -/
def ContextFits : Admission PtRequest PtCall PtWorld := fun _ request u trace =>
  request.IsContext ∧ ApertureFits u.2 (ptActs trace) request

variable {w₀ : World} {s₀ : PageTables} {u : PtWorld} {history : History PtRequest PtCall}

/-- In every run of requests that fit the aperture, from a bank of which some half is enabled and
holds a live table, every enabled register of the bank holds a live table, and a call that programs
no register fails and leaves no table allocated. -/
theorem context_run_banks_live (hsome : (s₀.cbs dom).Enabled0 ∨ (s₀.cbs dom).Enabled1)
    (hlive : BankLive s₀ (s₀.cbs dom))
    (h : Run (ptKernel off) (kiumdPgtblIoctl off) ContextFits (w₀, s₀) history u) :
    BankLive u.2 (u.2.cbs dom) ∧
    ∀ request trace result u', Exec (ptKernel off) (kiumdPgtblIoctl off request) u trace result u' →
      ContextFits history request u trace → FailsClean u.2 u'.2 (ptActs trace) result := by
  have hbank : BankOk u.2 dom := by
    refine h.invariant (fun _ u => BankOk u.2 dom) ⟨hsome, hlive⟩ ?_
    rintro history request ⟨w, s⟩ hok
    refine wp_mono (kiumdPgtblIoctl_outcome request w) ?_
    rintro trace result u houtcome ⟨hcontext, hfits⟩
    exact (houtcome.bankOk hcontext hfits).1 dom hok
  refine ⟨hbank.live, ?_⟩
  rintro request trace result u' hexec ⟨hcontext, hfits⟩
  have houtcome := wp_exec (kiumdPgtblIoctl_outcome request u.1) hexec
  exact (houtcome.bankOk hcontext hfits).2

/-- A bank with a live table in each enabled register. -/
theorem bankLive_initial {tcr : U32} {dom : Domain} :
    BankLive (.initial tcr) ((PageTables.initial tcr).cbs dom) :=
  ⟨fun _ => ⟨0x1000, rfl, rfl⟩, fun _ => ⟨0x1000, rfl, rfl⟩⟩

/-- A run in which `TTBR0` is set. -/
theorem context_run_banks_live_ttbr0 : ∃ history u,
    Run (ptKernel 0x10) (kiumdPgtblIoctl 0x10) ContextFits
      (World.initial, PageTables.initial ARM_SMMU_TCR_EPD0) history u ∧
    (u.2.cbs 0).ttbr0 = 0x5000 ∧ BankLive u.2 (u.2.cbs 0) := by
  let request : PtRequest :=
    .setPgtblContext { plainSmmuUser with flags := KIUMD_SMMU_SET_TTBR0_CONFIG }
  have hcheck : (kiumdPgtblIoctl 0x10 request).check (ptKernel 0x10) (ptAnswers 0)
      (World.initial, .initial ARM_SMMU_TCR_EPD0)
      (fun trace _ u => (u.2.cbs 0).ttbr0 = 0x5000 &&
        (ptActs trace).filterMap PtAct.apertureAnswer = [0]) = true := by
    decide +kernel
  obtain ⟨trace, value, u, hexec, htest⟩ := Program.check_exec hcheck
  simp only [Bool.and_eq_true, decide_eq_true_eq] at htest
  have hfits : ContextFits [] request (World.initial, .initial ARM_SMMU_TCR_EPD0) trace := by
    refine ⟨.inl rfl, fun _ dom ops ret _ _ hlast => ?_⟩
    rw [htest.2] at hlast
    cases hlast
    have hset : ¬ ((PageTables.initial ARM_SMMU_TCR_EPD0).cbs dom).Enabled0 := by
      show ¬ ARM_SMMU_TCR_EPD0 &&& ARM_SMMU_TCR_EPD0 = 0
      decide
    simp [hset]
  have hrun := Run.request .start hexec hfits
  have henabled : ((PageTables.initial ARM_SMMU_TCR_EPD0).cbs 0).Enabled1 := by decide
  exact ⟨_, u, hrun, htest.1, (context_run_banks_live (.inr henabled) bankLive_initial hrun).1⟩

/-- Setting `TTBR0` where it is enabled succeeds without programming it, and the table stays
allocated. -/
theorem ttbr0_leaves_table : ∃ off w₀ s₀ dom request trace result u,
    (s₀.cbs dom).Enabled0 ∧ ¬ (s₀.cbs dom).Enabled1 ∧ BankLive s₀ (s₀.cbs dom) ∧
    request.IsContext ∧
    Exec (ptKernel off) (kiumdPgtblIoctl off request) (w₀, s₀) trace result u ∧
    ¬ FailsClean s₀ u.2 (ptActs trace) result := by
  let request : PtRequest :=
    .setPgtblContext { plainSmmuUser with flags := KIUMD_SMMU_SET_TTBR0_CONFIG }
  have hcheck : (kiumdPgtblIoctl 0x10 request).check (ptKernel 0x10) (ptAnswers 0)
      (World.initial, .initial ARM_SMMU_TCR_EPD1)
      (fun trace _ u => u.2.live 0x5000 &&
        ptActs trace = [.domain 0, .copy 0xff0, .alloc 0x5000, .aperture 0]) = true := by
    decide +kernel
  obtain ⟨trace, value, u, hexec, htest⟩ := Program.check_exec hcheck
  simp only [Bool.and_eq_true, decide_eq_true_eq] at htest
  refine ⟨0x10, _, .initial ARM_SMMU_TCR_EPD1, 0, request, trace, _, u, by decide, by decide,
    bankLive_initial, .inl rfl, hexec, fun hclean => ?_⟩
  have hlive := (hclean (by simp [htest.2])).2
  have hnew := htest.1
  rw [hlive] at hnew
  exact absurd hnew (by decide)

end SafeLinux.Kiumd
