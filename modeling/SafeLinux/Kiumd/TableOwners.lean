import SafeLinux.Kiumd.PageTableOutcome

/-!
# Domains point to page tables that have not been freed

In every run in which user space passes only pointers to tables it may free or install, the static
`pgtable` is not a freed table when it is installed, and `TTBR1` is only set where it is not enabled
yet, each domain points to a live page table and no table is freed twice
(`pgtbl_run_owns_tables`).
-/

namespace SafeLinux.Kiumd

open Effects

variable {off ops : U64} {s s' t : PageTables} {dom : Domain} {request : PtRequest}
  {acts : List PtAct} {result : Option Int}

/-- Each domain points to a live page table. -/
def TablesLive (s : PageTables) : Prop := ∀ dom, s.live (s.pgtblOps dom) = true

/-- The condition under which a request leaves the domains with live tables, on the state it starts
in and its actions. -/
def TablesKept (off : U64) (s : PageTables) (acts : List PtAct) : PtRequest → Prop
  | .setPgtblContext arg => arg.flags = KIUMD_SMMU_SET_TTBR1_CONFIG → ∀ dom ops,
      .domain dom ∈ acts → .alloc ops ∈ acts → (s.cbs dom).tcr0 &&& ARM_SMMU_TCR_EPD1 ≠ 0
  | .perProcessAlloc _ => True
  | .perProcessSet arg => ∀ dom, .install dom arg.pgtblOpsPtr ∈ acts →
      s.live arg.pgtblOpsPtr = true
  | .perProcessFree arg => .free arg.pgtblOpsPtr ∈ acts →
      s.live arg.pgtblOpsPtr = true ∧ ∀ dom, s.pgtblOps dom ≠ arg.pgtblOpsPtr
  | .globalPtSet _ => ∀ dom ops, .install dom ops ∈ acts →
      s.pgtable = 0 ∨ s.live (s.pgtable + off) = true

/-- What is freed was live, and what is allocated was not. -/
def Balanced (s s' : PageTables) (acts : List PtAct) : Prop :=
  ∀ ops, acts.count (.free ops) + (s'.live ops).toNat =
    acts.count (.alloc ops) + (s.live ops).toNat

theorem Balanced.append {s'' : PageTables} {acts' : List PtAct} (h : Balanced s s' acts)
    (h' : Balanced s' s'' acts') : Balanced s s'' (acts ++ acts') := by
  intro ops
  have hfirst := h ops
  have hsecond := h' ops
  rw [List.count_append, List.count_append]
  omega

/-- An action that neither allocates nor frees a table. -/
def PtAct.Quiet (act : PtAct) : Prop := (∀ ops, act ≠ .alloc ops) ∧ ∀ ops, act ≠ .free ops

/-- No table is allocated or freed. -/
theorem Balanced.quiet (h : s'.live = s.live) (hacts : ∀ act ∈ acts, act.Quiet) :
    Balanced s s' acts := by
  intro ops
  have hfree : PtAct.free ops ∉ acts := fun hmem => (hacts _ hmem).2 ops rfl
  have halloc : PtAct.alloc ops ∉ acts := fun hmem => (hacts _ hmem).1 ops rfl
  rw [List.count_eq_zero_of_not_mem hfree, List.count_eq_zero_of_not_mem halloc, h]

/-- A new table is allocated. -/
theorem Balanced.alloc (hfresh : s.Fresh ops) (h : s'.live = Function.update s.live ops true) :
    Balanced s s' [.alloc ops] := by
  intro ops'
  rw [h]
  by_cases hops : ops' = ops
  · subst hops
    simp [hfresh.2]
  · simp [hops, Ne.symm hops]

/-- A live table is freed. -/
theorem Balanced.free (hlive : s.live ops = true) (h : s'.live = Function.update s.live ops false) :
    Balanced s s' [.free ops] := by
  intro ops'
  rw [h]
  by_cases hops : ops' = ops
  · subst hops
    simp [hlive]
  · simp [hops, Ne.symm hops]

theorem acts0_quiet : ∀ act ∈ s.acts0 dom, act.Quiet := by
  unfold PageTables.acts0
  split
  · simp
  · simp [PtAct.Quiet]

namespace TablesLive

theorem congr (h : TablesLive s) (hlive : s'.live = s.live) (hops : s'.pgtblOps = s.pgtblOps) :
    TablesLive s' := by
  intro dom
  rw [hlive, hops]
  exact h dom

/-- More tables are live. -/
theorem alloc (h : TablesLive s) (hlive : s'.live = Function.update s.live ops true)
    (hops : s'.pgtblOps = s.pgtblOps) : TablesLive s' := by
  intro dom
  rw [hlive, hops, Function.update_apply]
  split
  · rfl
  · exact h dom

/-- A table to which no domain points is freed. -/
theorem free (h : TablesLive s) (hnot : ∀ dom, s.pgtblOps dom ≠ ops)
    (hlive : s'.live = Function.update s.live ops false) (hops : s'.pgtblOps = s.pgtblOps) :
    TablesLive s' := by
  intro dom
  rw [hlive, hops, Function.update_of_ne (hnot dom)]
  exact h dom

/-- A domain points to another live table. -/
theorem install (h : TablesLive s) (hnew : s.live ops = true) (hlive : s'.live = s.live)
    (hops : s'.pgtblOps = Function.update s.pgtblOps dom ops) : TablesLive s' := by
  intro dom'
  rw [hlive, hops, Function.update_apply]
  split
  · exact hnew
  · exact h dom'

/-- No domain points to a new table. -/
theorem ne_fresh (h : TablesLive s) (hfresh : s.Fresh ops) (dom : Domain) :
    s.pgtblOps dom ≠ ops := by
  intro heq
  have hlive := h dom
  rw [heq, hfresh.2] at hlive
  cases hlive

end TablesLive

theorem CopiesFrom.same {p : U64} (h : CopiesFrom off s request dom p t) :
    t.live = s.live ∧ t.pgtblOps = s.pgtblOps := by
  cases h <;> exact ⟨rfl, rfl⟩

/-- A request that keeps the tables leaves every domain with a live one, and frees and allocates
tables in turn. -/
theorem PtOutcome.tablesLive (h : PtOutcome off s request acts result s') (hlive : TablesLive s)
    (hkept : TablesKept off s acts request) : TablesLive s' ∧ Balanced s s' acts := by
  cases h with
  | refused hacts _ =>
      refine ⟨hlive, .quiet rfl ?_⟩
      rcases hacts with rfl | ⟨dom, rfl⟩ <;> simp [PtAct.Quiet]
  | noOps => exact ⟨hlive.congr rfl rfl, .quiet rfl (by simp [PtAct.Quiet])⟩
  | copied hcopies _ hs' =>
      obtain ⟨ht, ht'⟩ := hcopies.same
      have hsame := hs'.live.trans ht
      exact ⟨hlive.congr hsame (hs'.pgtblOps.trans ht'), .quiet hsame (by simp [PtAct.Quiet])⟩
  | @perProcess _ dom ops cfg _ hfresh =>
      refine ⟨hlive.alloc rfl rfl, ?_⟩
      have hquiet : Balanced s s [.domain dom, .copy s.pgtable] :=
        .quiet rfl (by simp [PtAct.Quiet])
      exact hquiet.append (.alloc hfresh rfl)
  | @ttbr0 _ dom ops cfg answers ret t _ hflags hp hfresh hlast hret ht hs' =>
      have hnew : t.live = Function.update s.live ops true := by rw [ht, enable0_live]; rfl
      have hsame : t.pgtblOps = s.pgtblOps := by rw [ht, enable0_pgtblOps]; rfl
      have htables : TablesLive t := hlive.alloc hnew hsame
      have hquiet : Balanced s s [.domain dom, .copy (s.staticTable off dom)] :=
        .quiet rfl (by simp [PtAct.Quiet])
      have hprogram : Balanced t t (s.acts0 dom) := .quiet rfl acts0_quiet
      have haperture : Balanced t t (answers.map .aperture) :=
        .quiet rfl (by simp [PtAct.Quiet])
      have hend : TablesLive s' ∧ Balanced t s' (if ret = 0 then [] else [.free ops]) := by
        split at hs'
        · rename_i hzero
          rw [if_pos hzero]
          exact ⟨htables.congr hs'.live hs'.pgtblOps, .quiet hs'.live (by simp)⟩
        · rename_i hne
          rw [if_neg hne]
          have hlive' : t.live ops = true := by rw [hnew, Function.update_self]
          have hnot : ∀ dom, t.pgtblOps dom ≠ ops := by
            rw [hsame]
            exact hlive.ne_fresh hfresh
          exact ⟨htables.free hnot hs'.live hs'.pgtblOps, .free hlive' hs'.live⟩
      exact ⟨hend.1, hquiet.append ((Balanced.alloc hfresh hnew).append
        (hprogram.append (haperture.append hend.2)))⟩
  | @ttbr1 _ dom ops cfg _ hflags hp hfresh hset hs' =>
      have hnew : s'.live = Function.update s.live ops true := hs'.live
      have hquiet : Balanced s s [.domain dom, .copy (s.pgtblOps dom - off)] :=
        .quiet rfl (by simp [PtAct.Quiet])
      have hprogram : Balanced s' s' [.install dom ops, .program dom] :=
        .quiet rfl (by simp [PtAct.Quiet])
      refine ⟨?_, hquiet.append ((Balanced.alloc hfresh hnew).append hprogram)⟩
      have htables : TablesLive (s.alloc ops cfg) := hlive.alloc rfl rfl
      exact htables.install (Function.update_self _ _ _) hs'.live hs'.pgtblOps
  | @ttbr1Busy _ dom ops _ _ hflags hp hfresh hclear hs' =>
      exact absurd hclear (hkept hflags dom ops List.mem_cons_self (by simp))
  | @global _ dom =>
      have hnew : s.live (s.staticTable off dom + off) = true := by
        rw [PageTables.staticTable]
        split
        · rw [BitVec.sub_add_cancel]
          exact hlive dom
        · rename_i hstatic
          exact (hkept dom (s.staticTable off dom + off) (by simp)).resolve_left hstatic
      exact ⟨hlive.install hnew rfl rfl, .quiet rfl (by simp [PtAct.Quiet])⟩
  | @set arg dom =>
      have hnew := hkept dom (by simp)
      exact ⟨hlive.install hnew rfl rfl, .quiet rfl (by simp [PtAct.Quiet])⟩
  | free =>
      obtain ⟨hnew, hnot⟩ := hkept List.mem_cons_self
      exact ⟨hlive.free hnot rfl rfl, .free hnew rfl⟩

/-! ## Runs -/

/-- The actions of the requests served so far, the latest first. -/
def History.ptActs (history : History PtRequest PtCall) : List PtAct :=
  history.flatMap fun entry => Kiumd.ptActs entry.2

/-- Each domain points to a live table, and every table has been freed at most as often as it was
allocated: what is live now was live at the start or has been allocated, and has not been freed. -/
structure OwnsTables (s₀ s : PageTables) (history : History PtRequest PtCall) : Prop where
  live : TablesLive s
  freed : ∀ ops, (History.ptActs history).count (.free ops) + (s.live ops).toNat =
    (History.ptActs history).count (.alloc ops) + (s₀.live ops).toNat

/-- The requests that keep the tables. -/
def KeepsTables (off : U64) : Admission PtRequest PtCall PtWorld := fun _ request u trace =>
  TablesKept off u.2 (ptActs trace) request

variable {w₀ : World} {s₀ : PageTables} {u : PtWorld} {history : History PtRequest PtCall}

/-- In every run of requests that keep the tables, from domains with live tables, each domain points
to a live table and no table is freed twice. -/
theorem pgtbl_run_owns_tables (hstart : TablesLive s₀)
    (h : Run (ptKernel off) (kiumdPgtblIoctl off) (KeepsTables off) (w₀, s₀) history u) :
    OwnsTables s₀ u.2 history := by
  refine h.invariant (fun history u => OwnsTables s₀ u.2 history) ?_ ?_
  · exact ⟨hstart, fun ops => by simp [History.ptActs]⟩
  · rintro history request ⟨w, s⟩ howns
    refine wp_mono (kiumdPgtblIoctl_outcome request w) ?_
    intro trace result u houtcome hkept
    obtain ⟨hlive, hbalanced⟩ := houtcome.tablesLive howns.live hkept
    refine ⟨hlive, fun ops => ?_⟩
    have hpast := howns.freed ops
    have hnow := hbalanced ops
    simp only [History.ptActs, List.flatMap_cons, List.count_append] at hpast ⊢
    omega

theorem tablesLive_initial {tcr : U32} : TablesLive (.initial tcr) := by
  intro dom
  by_cases hdom : dom = 0 <;> simp [PageTables.initial, hdom]

/-- A run in which `TTBR1` is set. -/
theorem pgtbl_run_owns_tables_ttbr1 : ∃ history u,
    Run (ptKernel 0x10) (kiumdPgtblIoctl 0x10) (KeepsTables 0x10)
      (World.initial, PageTables.initial ARM_SMMU_TCR_EPD1) history u ∧
    u.2.pgtblOps 0 = 0x5000 ∧ OwnsTables (.initial ARM_SMMU_TCR_EPD1) u.2 history := by
  have hcheck : (kiumdPgtblIoctl 0x10 (.setPgtblContext plainSmmuUser)).check (ptKernel 0x10)
      (ptAnswers 0) (World.initial, .initial ARM_SMMU_TCR_EPD1)
      (fun _ _ u => u.2.pgtblOps 0 = 0x5000) = true := by
    decide +kernel
  obtain ⟨trace, value, u, hexec, htest⟩ := Program.check_exec hcheck
  have hkept : KeepsTables 0x10 [] (.setPgtblContext plainSmmuUser)
      (World.initial, .initial ARM_SMMU_TCR_EPD1) trace := by
    intro _ dom ops _ _
    show ARM_SMMU_TCR_EPD1 &&& ARM_SMMU_TCR_EPD1 ≠ 0
    decide
  have hrun := Run.request .start hexec hkept
  exact ⟨_, u, hrun, of_decide_eq_true htest, pgtbl_run_owns_tables tablesLive_initial hrun⟩

/-- Setting `TTBR1` where it is enabled leaves the domain with a freed table. -/
theorem ttbr1_leaves_freed_table : ∃ off w₀ s₀ history u, TablesLive s₀ ∧
    Run (ptKernel off) (kiumdPgtblIoctl off) .any (w₀, s₀) history u ∧
    ¬ OwnsTables s₀ u.2 history := by
  have hcheck : (kiumdPgtblIoctl 0x10 (.setPgtblContext plainSmmuUser)).check (ptKernel 0x10)
      (ptAnswers 0) (World.initial, .initial 0)
      (fun _ _ u => u.2.live (u.2.pgtblOps 0) = false) = true := by
    decide +kernel
  obtain ⟨trace, value, u, hexec, htest⟩ := Program.check_exec hcheck
  refine ⟨0x10, _, _, _, u, tablesLive_initial, .request .start hexec trivial, fun howns => ?_⟩
  have hdead : u.2.live (u.2.pgtblOps 0) = false := of_decide_eq_true htest
  rw [howns.live 0] at hdead
  cases hdead

end SafeLinux.Kiumd
