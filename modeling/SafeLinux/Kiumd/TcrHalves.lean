import SafeLinux.Kiumd.ContextBanks
import Mathlib.Tactic.IntervalCases

/-!
# The two halves of a translation control register

`arm_smmu_lpae_tcr` puts the fields of a configuration into the low half of a TCR, or, for a table
of `TTBR1`, into the high half, and disables translation through the other table. Programming the
other half afterwards gives the same register whichever half came first, with the fields of both
configurations and translation enabled through both tables (`set_ttbr_cfgs_agree`).
-/

namespace SafeLinux.Kiumd

open Effects

variable {off : U64} {s : PageTables} {w : World} {u : PtWorld} {dom : Domain}
  {cfg cfg0 cfg1 : IoPgtableCfg} {tcr a b : U32}

/-! ## Fields -/

/-- The fields of one half of a TCR. -/
structure TcrFields where
  tg : BitVec 2
  sh : BitVec 2
  orgn : BitVec 2
  irgn : BitVec 2
  tsz : BitVec 6
  deriving DecidableEq

/-- The fields in the low half. -/
def lowFields (tcr : U32) : TcrFields where
  tg := tcr.extractLsb' 14 2
  sh := tcr.extractLsb' 12 2
  orgn := tcr.extractLsb' 10 2
  irgn := tcr.extractLsb' 8 2
  tsz := tcr.extractLsb' 0 6

/-- The fields in the high half. -/
def highFields (tcr : U32) : TcrFields := lowFields (tcr >>> 16)

/-- The fields of a configuration. -/
def IoPgtableCfg.fields (cfg : IoPgtableCfg) : TcrFields where
  tg := cfg.tg.setWidth 2
  sh := cfg.sh.setWidth 2
  orgn := cfg.orgn.setWidth 2
  irgn := cfg.irgn.setWidth 2
  tsz := cfg.tsz.setWidth 6

/-- Translation is enabled through both tables, with the fields of `cfg0` below those of `cfg1`. -/
structure BothHalves (cfg0 cfg1 : IoPgtableCfg) (tcr : U32) : Prop where
  epd0 : tcr &&& ARM_SMMU_TCR_EPD0 = 0
  epd1 : tcr &&& ARM_SMMU_TCR_EPD1 = 0
  low : lowFields tcr = cfg0.fields
  high : highFields tcr = cfg1.fields

/-- The fields of a configuration in their places, the value `arm_smmu_lpae_tcr` starts from. -/
def lpaeFields (cfg : IoPgtableCfg) : U32 :=
  fieldPrep 15 14 cfg.tg ||| fieldPrep 13 12 cfg.sh ||| fieldPrep 11 10 cfg.orgn |||
    fieldPrep 9 8 cfg.irgn ||| fieldPrep 5 0 cfg.tsz

theorem armSmmuLpaeTcr_ttbr0 (h : cfg.quirks &&& IO_PGTABLE_QUIRK_ARM_TTBR1 = 0) :
    armSmmuLpaeTcr cfg = lpaeFields cfg ||| ARM_SMMU_TCR_EPD1 :=
  if_neg (not_not.mpr h)

theorem armSmmuLpaeTcr_ttbr1 (h : cfg.quirks &&& IO_PGTABLE_QUIRK_ARM_TTBR1 ≠ 0) :
    armSmmuLpaeTcr cfg =
      ((lpaeFields cfg <<< 16) &&& ~~~ ARM_SMMU_TCR_A1) ||| ARM_SMMU_TCR_EPD0 :=
  if_pos h

theorem lowFields_lpaeFields : lowFields (lpaeFields cfg) = cfg.fields := by
  simp only [lowFields, IoPgtableCfg.fields, TcrFields.mk.injEq]
  refine ⟨?_, ?_, ?_, ?_, ?_⟩ <;> ext i hi <;> interval_cases i <;>
    simp [lpaeFields, fieldPrep, genmask]

/-- A field stays within every mask that covers it. -/
theorem fieldPrep_and {high low : Nat} {x mask : U32}
    (h : genmask high low &&& mask = genmask high low) :
    fieldPrep high low x &&& mask = fieldPrep high low x := by
  rw [fieldPrep, BitVec.and_assoc, h]

/-- The fields leave bits 6 and 7 and the high half free. -/
theorem lpaeFields_and : lpaeFields cfg &&& 0xff3f = lpaeFields cfg := by
  simp only [lpaeFields, BitVec.and_or_distrib_right]
  rw [fieldPrep_and (by decide), fieldPrep_and (by decide), fieldPrep_and (by decide),
    fieldPrep_and (by decide), fieldPrep_and (by decide)]

/-! ## Halves -/

/-- Bit `i` of the merged register is that of one of the halves: what the two macros set is cleared,
and what is cleared with `A1` is not used. -/
theorem merge_halves (ha : a &&& 0xff3f = a) (hb : b &&& 0xff3f = b) :
    ((((b <<< 16) &&& ~~~ ARM_SMMU_TCR_A1) ||| ARM_SMMU_TCR_EPD0) ||| (a ||| ARM_SMMU_TCR_EPD1)) &&&
      ~~~ (ARM_SMMU_TCR_EPD0 ||| ARM_SMMU_TCR_EPD1) = a ||| (b <<< 16) := by
  rw [← ha, ← hb]
  ext i hi
  interval_cases i <;> simp [ARM_SMMU_TCR_A1, ARM_SMMU_TCR_EPD0, ARM_SMMU_TCR_EPD1, bit]

theorem lowFields_or : lowFields (a ||| (b <<< 16)) = lowFields a := by
  simp only [lowFields, TcrFields.mk.injEq]
  refine ⟨?_, ?_, ?_, ?_, ?_⟩ <;> ext i hi <;> interval_cases i <;> simp

theorem highFields_or (ha : a &&& 0xff3f = a) : highFields (a ||| (b <<< 16)) = lowFields b := by
  rw [← ha]
  simp only [highFields, lowFields, TcrFields.mk.injEq]
  refine ⟨?_, ?_, ?_, ?_, ?_⟩ <;> ext i hi <;> interval_cases i <;> simp

/-- The register with both halves. -/
def bothTcr (cfg0 cfg1 : IoPgtableCfg) : U32 := lpaeFields cfg0 ||| (lpaeFields cfg1 <<< 16)

/-- Programming the low half over the high one. -/
theorem enabledTcr_low (hquirk0 : cfg0.quirks &&& IO_PGTABLE_QUIRK_ARM_TTBR1 = 0)
    (hquirk1 : cfg1.quirks &&& IO_PGTABLE_QUIRK_ARM_TTBR1 ≠ 0) :
    enabledTcr (armSmmuLpaeTcr cfg1) cfg0 = bothTcr cfg0 cfg1 := by
  rw [enabledTcr, armSmmuLpaeTcr_ttbr0 hquirk0, armSmmuLpaeTcr_ttbr1 hquirk1]
  exact merge_halves lpaeFields_and lpaeFields_and

/-- Programming the high half over the low one. -/
theorem enabledTcr_high (hquirk0 : cfg0.quirks &&& IO_PGTABLE_QUIRK_ARM_TTBR1 = 0)
    (hquirk1 : cfg1.quirks &&& IO_PGTABLE_QUIRK_ARM_TTBR1 ≠ 0) :
    enabledTcr (armSmmuLpaeTcr cfg0) cfg1 = bothTcr cfg0 cfg1 := by
  rw [← enabledTcr_low hquirk0 hquirk1, enabledTcr, enabledTcr, BitVec.or_comm]

theorem bothTcr_halves (hquirk0 : cfg0.quirks &&& IO_PGTABLE_QUIRK_ARM_TTBR1 = 0)
    (hquirk1 : cfg1.quirks &&& IO_PGTABLE_QUIRK_ARM_TTBR1 ≠ 0) :
    BothHalves cfg0 cfg1 (bothTcr cfg0 cfg1) := by
  refine ⟨?_, ?_, ?_, ?_⟩
  · rw [← enabledTcr_low hquirk0 hquirk1]
    exact enabledTcr_epd0 _ _
  · rw [← enabledTcr_low hquirk0 hquirk1]
    exact enabledTcr_epd1 _ _
  · rw [bothTcr, lowFields_or, lowFields_lpaeFields]
  · rw [bothTcr, highFields_or lpaeFields_and, lowFields_lpaeFields]

theorem armSmmuLpaeTcr_epd0 (h : cfg.quirks &&& IO_PGTABLE_QUIRK_ARM_TTBR1 ≠ 0) :
    armSmmuLpaeTcr cfg &&& ARM_SMMU_TCR_EPD0 ≠ 0 := by
  rw [armSmmuLpaeTcr_ttbr1 h, BitVec.and_or_distrib_right, BitVec.and_self]
  intro hzero
  have hbit := (BitVec.or_eq_zero_iff.mp hzero).2
  exact absurd hbit (by decide)

theorem armSmmuLpaeTcr_epd1 (h : cfg.quirks &&& IO_PGTABLE_QUIRK_ARM_TTBR1 = 0) :
    armSmmuLpaeTcr cfg &&& ARM_SMMU_TCR_EPD1 ≠ 0 := by
  rw [armSmmuLpaeTcr_ttbr0 h, BitVec.and_or_distrib_right, BitVec.and_self]
  intro hzero
  have hbit := (BitVec.or_eq_zero_iff.mp hzero).2
  exact absurd hbit (by decide)

/-! ## Calls -/

/-- The program has an execution, and each of them returns so. -/
def PtReturns (off : U64) (p : PtProg Int) (u : PtWorld) (Q : Int → PtWorld → Prop) : Prop :=
  (∃ trace result u', Exec (ptKernel off) p u trace result u') ∧
  ∀ trace result u', Exec (ptKernel off) p u trace result u' →
    ∃ ret, result = some ret ∧ Q ret u'

/-- Every further call of either kind fails and changes nothing. -/
def BankFull (off : U64) (dom : Domain) (u : PtWorld) : Prop := ∀ cfg,
  PtReturns off (kiumdSmmuv2SetTtbr0Cfg dom cfg) u (fun ret u' => ret < 0 ∧ u' = u) ∧
  PtReturns off (kiumdSmmuv2SetTtbr1Cfg dom cfg) u (fun ret u' => ret < 0 ∧ u' = u)

/-- The page tables answer every operation. -/
theorem ptKernel_responsive : (ptKernel off).Responsive := by
  intro β _ request u
  cases request with
  | inl request =>
      obtain ⟨answer, w, hstep⟩ := kernel_responsive request u.1
      exact ⟨answer, (w, u.2), congrArg (Option.map fun w => (w, u.2)) hstep⟩
  | inr request =>
      have hop : ∃ answer s, ptStep off request u.2 answer = some s := by
        cases request with
        | memcpyCfg p =>
            by_cases hp : p = 0
            · exact ⟨none, _, if_neg fun h => h.1 hp⟩
            · exact ⟨some (u.2.cfgs (p + off)), _, if_pos ⟨hp, fun _ => rfl⟩⟩
        | allocIoPgtableOps cfg => exact ⟨none, _, rfl⟩
        | qcomScmKgslSetSmmuAperture dom => exact ⟨0, u.2, rfl⟩
        | pgtable | pgtblOps dom | cfg dom | features dom | cb dom => exact ⟨_, _, if_pos rfl⟩
        | setPgtable p | setPgtblOps dom ops | setGeometry dom start stop | freeIoPgtableOps ops
        | setCb dom cb | write dom reg value => exact ⟨(), _, rfl⟩
      obtain ⟨answer, s, hstep⟩ := hop
      exact ⟨answer, (u.1, s), congrArg (Option.map fun s => (u.1, s)) hstep⟩

theorem ptReturns_of_wp {p : PtProg Int} {Q : Int → PtWorld → Prop}
    (h : wp (ptKernel off) .any p (fun _ result u' => ∃ ret, result = some ret ∧ Q ret u') u) :
    PtReturns off p u Q :=
  ⟨ptKernel_responsive.exec p u, fun _ _ _ hexec => wp_exec h hexec⟩

/-- While translation is enabled through both tables, every call is refused. -/
theorem bankFull_of_enabled (h0 : (s.cbs dom).Enabled0) (h1 : (s.cbs dom).Enabled1) :
    BankFull off dom (w, s) := by
  intro cfg
  refine ⟨ptReturns_of_wp ?_, ptReturns_of_wp ?_⟩
  · refine wp_right fun cb t hstep => ?_
    obtain ⟨rfl, rfl⟩ := read_step hstep
    rw [if_pos (show (t.cbs dom).tcr0 &&& ARM_SMMU_TCR_EPD0 = 0 from h0)]
    exact wp_pure.mpr ⟨_, rfl, by decide, rfl⟩
  · refine wp_right fun cb t hstep => ?_
    obtain ⟨rfl, rfl⟩ := read_step hstep
    rw [if_pos (show (t.cbs dom).tcr0 &&& ARM_SMMU_TCR_EPD1 = 0 from h1)]
    exact wp_pure.mpr ⟨_, rfl, by decide, rfl⟩

/-- What a call leaves behind that programs one half of a bank: the register, the table of the
other half, and no room for further calls. -/
structure Programmed (off : U64) (dom : Domain) (tcr : U32) (ttbr : ArmSmmuCb → U64)
    (cb : ArmSmmuCb) (u : PtWorld) : Prop where
  tcr : (u.2.cbs dom).tcr0 = tcr
  other : ttbr (u.2.cbs dom) = ttbr cb
  full : BankFull off dom u

theorem setTtbr0Cfg_programmed (hquirk0 : cfg0.quirks &&& IO_PGTABLE_QUIRK_ARM_TTBR1 = 0)
    (hquirk1 : cfg1.quirks &&& IO_PGTABLE_QUIRK_ARM_TTBR1 ≠ 0)
    (htcr : (s.cbs dom).tcr0 = armSmmuLpaeTcr cfg1) :
    PtReturns off (kiumdSmmuv2SetTtbr0Cfg dom cfg0) (w, s) (fun ret u => ret = 0 ∧
      Programmed off dom (bothTcr cfg0 cfg1) ArmSmmuCb.ttbr1 (s.cbs dom) u) := by
  refine ptReturns_of_wp (wp_mono (setTtbr0Cfg_cases w) ?_)
  rintro trace result ⟨w', s'⟩ hcases
  have hset : (s.cbs dom).tcr0 &&& ARM_SMMU_TCR_EPD0 ≠ 0 := by
    rw [htcr]
    exact armSmmuLpaeTcr_epd0 hquirk1
  generalize ptActs trace = acts at hcases
  rcases hcases with hclear | ⟨_, hs'⟩
  · exact absurd hclear hset
  · have hcbs := hs'.cbs
    rw [PageTables.enable0, if_neg hset] at hcbs
    have hcb : s'.cbs dom = { s.cbs dom with
        tcr0 := bothTcr cfg0 cfg1, ttbr0 := ttbrOf cfg0 (s.smmuCfg dom).asid } := by
      rw [hcbs, ← enabledTcr_low hquirk0 hquirk1, ← htcr]
      exact Function.update_self _ _ _
    have hboth := bothTcr_halves hquirk0 hquirk1
    refine ⟨0, rfl, rfl, ?_, ?_, bankFull_of_enabled ?_ ?_⟩
    · show (s'.cbs dom).tcr0 = _
      rw [hcb]
    · show (s'.cbs dom).ttbr1 = _
      rw [hcb]
    · rw [hcb]
      exact hboth.epd0
    · rw [hcb]
      exact hboth.epd1

theorem setTtbr1Cfg_programmed (hquirk0 : cfg0.quirks &&& IO_PGTABLE_QUIRK_ARM_TTBR1 = 0)
    (hquirk1 : cfg1.quirks &&& IO_PGTABLE_QUIRK_ARM_TTBR1 ≠ 0)
    (htcr : (s.cbs dom).tcr0 = armSmmuLpaeTcr cfg0) :
    PtReturns off (kiumdSmmuv2SetTtbr1Cfg dom cfg1) (w, s) (fun ret u => ret = 0 ∧
      Programmed off dom (bothTcr cfg0 cfg1) ArmSmmuCb.ttbr0 (s.cbs dom) u) := by
  refine ptReturns_of_wp (wp_mono (setTtbr1Cfg_makes w) ?_)
  rintro trace result ⟨w', s'⟩ hcases
  have hset : (s.cbs dom).tcr0 &&& ARM_SMMU_TCR_EPD1 ≠ 0 := by
    rw [htcr]
    exact armSmmuLpaeTcr_epd1 hquirk0
  generalize ptActs trace = acts at hcases
  rcases hcases with hclear | ⟨_, hs'⟩
  · exact absurd hclear hset
  · have hcb : s'.cbs dom = { s.cbs dom with
        tcr0 := bothTcr cfg0 cfg1, ttbr1 := ttbrOf cfg1 (s.smmuCfg dom).asid } := by
      rw [hs'.cbs, ← enabledTcr_high hquirk0 hquirk1, ← htcr]
      exact Function.update_self _ _ _
    have hboth := bothTcr_halves hquirk0 hquirk1
    refine ⟨0, rfl, rfl, ?_, ?_, bankFull_of_enabled ?_ ?_⟩
    · show (s'.cbs dom).tcr0 = _
      rw [hcb]
    · show (s'.cbs dom).ttbr0 = _
      rw [hcb]
    · rw [hcb]
      exact hboth.epd0
    · rw [hcb]
      exact hboth.epd1

/-- Programming `TTBR0` over the register of a `TTBR1` table and `TTBR1` over the register of a
`TTBR0` table both succeed and give the same register, with the fields of both configurations. Each
call leaves the other table in its place, and every further call fails and changes nothing. -/
theorem set_ttbr_cfgs_agree (off : U64) (w0 w1 : World) {s0 s1 : PageTables} {dom0 dom1 : Domain}
    (hquirk0 : cfg0.quirks &&& IO_PGTABLE_QUIRK_ARM_TTBR1 = 0)
    (hquirk1 : cfg1.quirks &&& IO_PGTABLE_QUIRK_ARM_TTBR1 ≠ 0)
    (htcr0 : (s0.cbs dom0).tcr0 = armSmmuLpaeTcr cfg1)
    (htcr1 : (s1.cbs dom1).tcr0 = armSmmuLpaeTcr cfg0) :
    ∃ tcr, BothHalves cfg0 cfg1 tcr ∧
      PtReturns off (kiumdSmmuv2SetTtbr0Cfg dom0 cfg0) (w0, s0) (fun ret u => ret = 0 ∧
        Programmed off dom0 tcr ArmSmmuCb.ttbr1 (s0.cbs dom0) u) ∧
      PtReturns off (kiumdSmmuv2SetTtbr1Cfg dom1 cfg1) (w1, s1) (fun ret u => ret = 0 ∧
        Programmed off dom1 tcr ArmSmmuCb.ttbr0 (s1.cbs dom1) u) :=
  ⟨bothTcr cfg0 cfg1, bothTcr_halves hquirk0 hquirk1,
    setTtbr0Cfg_programmed hquirk0 hquirk1 htcr0, setTtbr1Cfg_programmed hquirk0 hquirk1 htcr1⟩

/-- A configuration of a 39-bit address space for `TTBR0`. -/
def cfg39 : IoPgtableCfg := ⟨0, 0x5000, 0, 3, 1, 1, 25⟩

/-- A configuration of a 48-bit address space for `TTBR1`. -/
def cfg48 : IoPgtableCfg := ⟨IO_PGTABLE_QUIRK_ARM_TTBR1, 0x6000, 2, 3, 1, 1, 16⟩

/-- The register with the halves of these two. -/
theorem set_ttbr_cfgs_agree_plain : ∃ tcr : U32,
    lowFields tcr = ⟨0, 3, 1, 1, 25⟩ ∧ highFields tcr = ⟨2, 3, 1, 1, 16⟩ ∧
    PtReturns 0x10 (kiumdSmmuv2SetTtbr0Cfg 0 cfg39)
      (World.initial, .initial (armSmmuLpaeTcr cfg48))
      (fun ret u => ret = 0 ∧ (u.2.cbs 0).tcr0 = tcr) := by
  have hquirk0 : cfg39.quirks &&& IO_PGTABLE_QUIRK_ARM_TTBR1 = 0 := by decide
  have hquirk1 : cfg48.quirks &&& IO_PGTABLE_QUIRK_ARM_TTBR1 ≠ 0 := by decide
  have htcr (tcr : U32) : ((PageTables.initial tcr).cbs 0).tcr0 = tcr := rfl
  obtain ⟨tcr, hboth, hlow, _⟩ := set_ttbr_cfgs_agree 0x10 World.initial World.initial hquirk0
    hquirk1 (htcr (armSmmuLpaeTcr cfg48)) (htcr (armSmmuLpaeTcr cfg39))
  refine ⟨tcr, hboth.low.trans (by decide), hboth.high.trans (by decide), hlow.1, ?_⟩
  intro trace result u hexec
  obtain ⟨ret, hresult, hret, hdone⟩ := hlow.2 trace result u hexec
  exact ⟨ret, hresult, hret, hdone.tcr⟩

end SafeLinux.Kiumd
