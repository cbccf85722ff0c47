import SafeLinux.KryoEdac.PmExit

/-!
# The locations of L1 and L2 errors

Silver and gold cores place the location of an error in different, overlapping fields of the same
register and encode it differently. `denotedLevel` is the level that a location denotes, if it holds
one of the encodings of its core. `kryo_parse_l1_l2_cache_error` decodes all of these, but takes any
other location of a part that it knows for L1 (`cacheLevel_eq`).
-/

namespace SafeLinux.KryoEdac

open Effects

variable {c : Config} {s s' : Cpu} {partNum : U32} {errxstatus errxmisc : U64}
  {trace : List (Event KryoCall)} {result : Option Unit}

/-! ## Encodings -/

/-- The families of cores. -/
inductive CoreType where
  | silver
  | gold
  deriving DecidableEq

/-- The family of a part, if it is known. -/
def coreType (partNum : U32) : Option CoreType :=
  if partNum ∈ [QCOM_CPU_PART_KRYO4XX_SILVER_V1, QCOM_CPU_PART_KRYO4XX_SILVER_V2,
      QCOM_CPU_PART_KRYO6XX_SILVER_V1] then some .silver
  else if partNum ∈ [QCOM_CPU_PART_KRYO4XX_GOLD, QCOM_CPU_PART_KRYO5XX_GOLD,
      QCOM_CPU_PART_KRYO6XX_GOLDPLUS, QCOM_CPU_PART_A78_GOLD] then some .gold
  else none

/-- The field that holds the location. -/
def CoreType.location : CoreType → U64 → U64
  | .silver => errxmiscLvl
  | .gold => errxmiscLvlGold

/-- The locations that are defined, with the level that each denotes. -/
def CoreType.encodings : CoreType → List (U64 × Level)
  | .silver => [(L1_SILVER_BIT, .l1), (L2_SILVER_BIT, .l2)]
  | .gold => [(L1_GOLD_DC_BIT, .l1), (L1_GOLD_IC_BIT, .l1), (L2_GOLD_BIT, .l2),
      (L2_GOLD_TLB_BIT, .l2)]

/-- The level that the location of an error denotes on a part. -/
def denotedLevel (partNum : U32) (errxmisc : U64) : Option Level :=
  (coreType partNum).bind fun core => core.encodings.lookup (core.location errxmisc)

theorem silver_lookup (x : U64) : CoreType.silver.encodings.lookup x =
    if x = L1_SILVER_BIT then some .l1 else if x = L2_SILVER_BIT then some .l2 else none := by
  unfold CoreType.encodings
  grind

theorem gold_lookup (x : U64) : CoreType.gold.encodings.lookup x =
    if x = L1_GOLD_DC_BIT ∨ x = L1_GOLD_IC_BIT then some .l1
    else if x = L2_GOLD_BIT ∨ x = L2_GOLD_TLB_BIT then some .l2
    else none := by
  unfold CoreType.encodings
  grind

/-- The driver's level of an error: the one denoted, or L1 on a known part. -/
theorem cacheLevel_eq : cacheLevel partNum errxmisc =
    (coreType partNum).map fun _ => (denotedLevel partNum errxmisc).getD .l1 := by
  unfold cacheLevel denotedLevel coreType
  simp only [List.mem_cons, List.not_mem_nil, or_false]
  split
  · show _ = some ((CoreType.silver.encodings.lookup (errxmiscLvl errxmisc)).getD .l1)
    rw [silver_lookup]
    split_ifs <;> rfl
  · split
    · show _ = some ((CoreType.gold.encodings.lookup (errxmiscLvlGold errxmisc)).getD .l1)
      rw [gold_lookup]
      split_ifs <;> rfl
    · rfl

theorem errxstatusUe_ne_zero_iff : errxstatusUe errxstatus ≠ 0 ↔ errxstatus.getLsbD 29 = true := by
  have hbit : errxstatusUe errxstatus = (BitVec.ofBool (errxstatus.getLsbD 29)).setWidth 64 := by
    show (errxstatus >>> 29) &&& 1#64 = _
    rw [BitVec.and_one_eq_setWidth_ofBool_getLsbD, BitVec.getLsbD_ushiftRight]
  rw [hbit]
  cases errxstatus.getLsbD 29 with
  | false => decide
  | true => decide

/-! ## What is reported -/

/-- The error code of an error at a level. -/
def codeAt (errxstatus : U64) : Level → ErrorCode
  | .l1 => if errxstatusUe errxstatus ≠ 0 then .l1Ue else .l1Ce
  | .l2 => if errxstatusUe errxstatus ≠ 0 then .l2Ue else .l2Ce
  | .l3 => if errxstatusUe errxstatus ≠ 0 then .l3Ue else .l3Ce

theorem codeAt_severity {level : Level} :
    (codeAt errxstatus level).severity = .ue ↔ errxstatus.getLsbD 29 = true := by
  rw [← errxstatusUe_ne_zero_iff]
  by_cases hue : errxstatusUe errxstatus ≠ 0
  · refine iff_of_true ?_ hue
    cases level <;> rw [codeAt, if_pos hue] <;> rfl
  · refine iff_of_false ?_ hue
    cases level <;> rw [codeAt, if_neg hue] <;> exact nofun

theorem l1L2Code_eq : l1L2Code c errxstatus errxmisc =
    (cacheLevel c.partNum errxmisc).map fun level => (codeAt errxstatus level, level) := by
  unfold l1L2Code
  cases hlevel : cacheLevel c.partNum errxmisc with
  | none => rfl
  | some level =>
      cases level with
      | l1 | l2 => rfl
      | l3 => exact absurd hlevel (cacheLevel_ne_l3 _ _)

/-- The events of a parse. -/
def parseEvents (c : Config) (errxstatus errxmisc : U64) : List ErrorEvent :=
  (cacheLevel c.partNum errxmisc).toList.map fun level => eventOf c (codeAt errxstatus level) level

/-- Whether or not it panics, a parse reports its events. -/
theorem wps_kryoParseL1L2CacheError {Q : List ErrorEvent → Prop} :
    wps kryo (lockGuard fun _ => True) (kryoParseL1L2CacheError c errxstatus errxmisc)
        (fun _ s' => Q s'.reported) s ↔ Q (s.reported ++ parseEvents c errxstatus errxmisc) := by
  rw [kryoParseL1L2CacheError_eq, l1L2Code_eq, parseEvents]
  cases cacheLevel c.partNum errxmisc with
  | none =>
      rw [Option.toList_none, List.map_nil, List.append_nil]
      exact wps_pure
  | some level =>
      refine wps_dumpErrReg.trans ?_
      unfold AfterReport
      split
      · exact true_and _ ▸ Iff.rfl
      · rfl

/-- An event at a level, uncorrectable if bit 29 of the status is set and only then. -/
structure ErrorEvent.At (e : ErrorEvent) (level : Level) (errxstatus : U64) : Prop where
  level_eq : e.level = level
  severity_iff : e.severity = .ue ↔ errxstatus.getLsbD 29 = true

/-- The events are what the location of an error denotes: one event at the level denoted, or none if
the part or the location is not known. -/
def Denoted (partNum : U32) (errxstatus errxmisc : U64) (events : List ErrorEvent) : Prop :=
  match denotedLevel partNum errxmisc with
  | some level => ∃ e : ErrorEvent, events = [e] ∧ e.At level errxstatus
  | none => events = []

/-- A parse reports what the location of the error denotes, on every CPU. -/
def ParsesLocation (c : Config) (errxstatus errxmisc : U64) : Prop :=
  ∀ s trace result s', Exec kryo (kryoParseL1L2CacheError c errxstatus errxmisc) s trace result s' →
    ∃ events, s'.reported = s.reported ++ events ∧ Denoted c.partNum errxstatus errxmisc events

theorem parse_reported
    (hexec : Exec kryo (kryoParseL1L2CacheError c errxstatus errxmisc) s trace result s') :
    s'.reported = s.reported ++ parseEvents c errxstatus errxmisc := by
  have hwp := @wps_kryoParseL1L2CacheError c s errxstatus errxmisc
    fun reported => reported = s.reported ++ parseEvents c errxstatus errxmisc
  exact wp_exec (hwp.mpr rfl) hexec

theorem exists_parse : ∃ trace result s',
    Exec kryo (kryoParseL1L2CacheError c errxstatus errxmisc) s trace result s' :=
  exists_exec ((@wps_kryoParseL1L2CacheError c s errxstatus errxmisc fun _ => True).mpr trivial)
    (@wps_kryoParseL1L2CacheError c s errxstatus errxmisc fun _ => False).mp

/-- A parse is right exactly if its events are. -/
theorem parsesLocation_iff_denoted : ParsesLocation c errxstatus errxmisc ↔
    Denoted c.partNum errxstatus errxmisc (parseEvents c errxstatus errxmisc) := by
  constructor
  · intro h
    obtain ⟨trace, result, s', hexec⟩ := @exists_parse c (.quiet 0 fun _ => ⟨0, 0, 0⟩)
      errxstatus errxmisc
    obtain ⟨events, hevents, hdenoted⟩ := h _ trace result s' hexec
    rw [parse_reported hexec] at hevents
    rwa [List.append_cancel_left hevents]
  · intro h s trace result s' hexec
    exact ⟨_, parse_reported hexec, h⟩

/-- A parse reports what the location of the error denotes exactly if the part is not known, or the
location holds one of the encodings of its core. -/
theorem parsesLocation_iff (c : Config) (errxstatus errxmisc : U64) :
    ParsesLocation c errxstatus errxmisc ↔
      coreType c.partNum = none ∨ (denotedLevel c.partNum errxmisc).isSome := by
  rw [parsesLocation_iff_denoted, parseEvents, cacheLevel_eq, Denoted]
  cases hlevel : denotedLevel c.partNum errxmisc with
  | none =>
      -- the events are those of an L1 error, unless the part is not known
      cases coreType c.partNum with
      | none => exact iff_of_true rfl (.inl rfl)
      | some core => exact iff_of_false nofun (by simp)
  | some level =>
      have hcore : (coreType c.partNum).isSome := by
        rw [denotedLevel] at hlevel
        exact Option.isSome_of_mem (Option.bind_eq_some_iff.mp hlevel).choose_spec.1
      obtain ⟨core, hcore⟩ := Option.isSome_iff_exists.mp hcore
      rw [hcore]
      exact iff_of_true ⟨_, rfl, rfl, codeAt_severity⟩ (.inr rfl)

/-- A gold core with a location that is not defined reports an L1 error. -/
theorem not_parsesLocation : ¬ ∀ (c : Config) (errxstatus errxmisc : U64),
    ParsesLocation c errxstatus errxmisc := by
  intro h
  have hdenoted := parsesLocation_iff_denoted.mp
    (h ⟨0, QCOM_CPU_PART_KRYO4XX_GOLD, false⟩ 0x40000000 0x3)
  have hnone : denotedLevel QCOM_CPU_PART_KRYO4XX_GOLD 0x3 = none := by decide
  rw [Denoted, hnone] at hdenoted
  revert hdenoted
  decide

end SafeLinux.KryoEdac
