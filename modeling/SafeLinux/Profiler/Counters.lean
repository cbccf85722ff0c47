import SafeLinux.Effects.Expand
import SafeLinux.Effects.Run
import SafeLinux.Profiler.Driver

/-!
# The counters

How `bw_profiling_get` reads the counters: four loops whose bounds are the device parameters that an
earlier ioctl has copied from user space, with indices into arrays of fixed length. The calls of the
driver's model for the counters and for the settings are worked out here, with every access to an
array. `arraysInBounds_iff` says in which runs of the ioctls every index is within its array.
-/

namespace SafeLinux.Profiler

open Effects
open Effects.Program (perform)

/-! ## Arrays and parameters -/

def LLCC_CHANNELS : Nat := 6
def CABO_CHANNELS : Nat := 6
def NUM_REG_TYPES : Nat := 2
def HF_COUNTERS : Nat := 16
def SF_COUNTERS : Nat := 12
def GEMNOC_COUNTERS : Nat := 8

/-- The largest `int`. -/
def INT_MAX : Nat := 2147483647

/-- The counters that both `struct profiler_bw_cntrs_req` and `struct reg_offset` have an array
for. -/
inductive Counters where
  | llcc
  | cabo
  | gemnoc
  | mmnocHf
  | mmnocSf
  deriving DecidableEq

/-- The length of the arrays. -/
def Counters.length : Counters → Nat
  | .llcc => LLCC_CHANNELS * NUM_REG_TYPES
  | .cabo => CABO_CHANNELS * NUM_REG_TYPES
  | .gemnoc => LLCC_CHANNELS * GEMNOC_COUNTERS
  | .mmnocHf => HF_COUNTERS
  | .mmnocSf => SF_COUNTERS

/-- `struct device_param_init` -/
structure DeviceParamInit where
  numLlccChannels : U32
  llccBase : U32
  llccMapSize : U32
  numCaboChannels : U32
  numGemnocMetrics : U32
  gemnocBase : U32
  gemnocMapSize : U32
  numHfMetrics : U32
  numSfMetrics : U32
  mmnocBase : U32
  mmnocMapSize : U32
  deriving DecidableEq

/-- What the driver does with the counters and the settings. -/
inductive CounterCall : Type → Type where
  /-- `dev_params` is read. -/
  | devParams : CounterCall DeviceParamInit
  /-- `devm_ioremap` -/
  | devmIoremap (offset size : U32) : CounterCall U64
  /-- An element of an array of `offset_reg_values` is read. -/
  | regOffset (counters : Counters) (index : Int) : CounterCall U32
  /-- `readl` at an offset from a base. -/
  | readl (base : U64) (offset : U32) : CounterCall U32
  /-- An element of an array of `cnt_buf` is written. -/
  | setValue (counters : Counters) (index : Int) (value : U32) : CounterCall Unit
  /-- `copy_from_user` to `offset_reg_values`. -/
  | copyOffsets : CounterCall Unit
  /-- `copy_from_user` to `dev_params`: what it then holds, also if the copy fails. -/
  | copyDevParams : CounterCall DeviceParamInit

/-- Programs that read the counters. -/
abbrev CounterProg (α : Type) := Program CounterCall α

/-! ## Reading the counters -/

/-- The rest of `for (i = k; i < bound; i++)`, which reads its bound before each turn. An `int` is
below another one for at most `INT_MAX` turns, so `fuel` is never used up. -/
def countLoop (bound : DeviceParamInit → U32) (body : Nat → CounterProg Unit) :
    Nat → Nat → CounterProg Unit
  | 0, _ => return
  | fuel + 1, k => do
      let devParams ← perform .devParams
      if (k : Int) < (bound devParams).toInt then
        body k
        countLoop bound body fuel (k + 1)

/-- `for (i = 0; i < bound; i++)` -/
def forLoop (bound : DeviceParamInit → U32) (body : Nat → CounterProg Unit) : CounterProg Unit :=
  countLoop bound body (INT_MAX + 1) 0

/-- A value of an `int` expression. -/
def int (n : Int) : U32 := BitVec.ofInt 32 n

/-- A counter is read to its element of `cnt_buf`; both index expressions are evaluated. -/
def readCounter (counters : Counters) (base : U64) (index : CounterProg U32) :
    CounterProg Unit := do
  let offset ← perform (.regOffset counters (← index).toInt)
  let value ← perform (.readl base offset)
  perform (.setValue counters (← index).toInt value)

/-- The counters of a channel of the last-level cache. -/
def readChannel (ch : Nat) : CounterProg Unit := do
  let devParams ← perform .devParams
  let llccBase ← perform (.devmIoremap (devParams.llccBase + devParams.llccMapSize * int ch)
    devParams.llccMapSize)
  readCounter .llcc llccBase (return int ch * 2)
  readCounter .llcc llccBase (return int ch * 2 + 1)
  readCounter .cabo llccBase (return int ch * 2)
  readCounter .cabo llccBase (return int ch * 2 + 1)

/-- The part of `bw_profiling_get` between its two commands. -/
def readCounters : CounterProg Unit := do
  forLoop (·.numLlccChannels) readChannel
  let devParams ← perform .devParams
  let gemnocBase ← perform (.devmIoremap devParams.gemnocBase devParams.gemnocMapSize)
  forLoop (·.numLlccChannels) fun ch =>
    forLoop (·.numGemnocMetrics) fun gc =>
      readCounter .gemnoc gemnocBase do
        let devParams ← perform .devParams
        return int ch * devParams.numGemnocMetrics + int gc
  let devParams ← perform .devParams
  let mmnocBase ← perform (.devmIoremap devParams.mmnocBase devParams.mmnocMapSize)
  forLoop (·.numHfMetrics) fun hf => readCounter .mmnocHf mmnocBase (return int hf)
  forLoop (·.numSfMetrics) fun sf => readCounter .mmnocSf mmnocBase (return int sf)

/-! ## The ioctls in detail -/

/-- Programs of the driver with the counters and the settings. -/
abbrev DetailedProg (α : Type) := Program (Either ProfilerCall CounterCall) α

/-- A call of the driver's model: the settings are those of the ioctl. -/
def detail (cmd : ProfilerIoctl) : {β : Type} → ProfilerCall β → DetailedProg β
  | _, .readCounters => readCounters.lift .inr
  | _, .storeSettings => do
      match cmd with
      | .setOffsets => perform (.inr .copyOffsets)
      | .deviceInit =>
          let _ ← perform (.inr .copyDevParams)
          return
      | _ => return
  | _, request => perform (.inl request)

/-- `profiler_ioctl` with the counters and the settings. -/
def detailedIoctl (cmd : ProfilerIoctl) : DetailedProg Int := (profilerIoctl cmd).expand (detail cmd)

/-- What the calls do to `dev_params`. -/
def counters : Semantics CounterCall DeviceParamInit where
  step := fun request s answer =>
    match request with
    | .devParams => if answer = s then some s else none
    | .copyDevParams => some answer
    | .devmIoremap _ _ | .regOffset _ _ | .readl _ _ | .setValue _ _ _ | .copyOffsets => some s

/-- The other calls of the driver leave `dev_params`. -/
def settings : Semantics (Either ProfilerCall CounterCall) DeviceParamInit :=
  Semantics.either ⟨fun _ s _ => some s⟩ counters

/-! ## Accesses -/

/-- An access to an array of the counters. -/
structure Access where
  counters : Counters
  index : Int
  deriving DecidableEq

/-- The index is within the array. -/
def Access.InBounds (a : Access) : Prop := 0 ≤ a.index ∧ a.index < a.counters.length

instance (a : Access) : Decidable a.InBounds := inferInstanceAs (Decidable (_ ∧ _))

/-- The access of a call. -/
def Access.view : Event CounterCall → Option Access
  | ⟨.regOffset counters index, _⟩ | ⟨.setValue counters index _, _⟩ => some ⟨counters, index⟩
  | _ => none

/-- The accesses of some calls. -/
def accesses (trace : List (Event CounterCall)) : List Access := trace.filterMap Access.view

@[simp] theorem accesses_append {trace trace' : List (Event CounterCall)} :
    accesses (trace ++ trace') = accesses trace ++ accesses trace' := List.filterMap_append

variable {α β : Type} {s s' : DeviceParamInit} {acts acts' : List Access}

/-- With the parameters `s` a program returns, makes the accesses `acts` and keeps the
parameters. -/
def Accesses (s : DeviceParamInit) (p : CounterProg α) (acts : List Access) : Prop :=
  wp counters .any p (fun trace result s' => result.isSome ∧ s' = s ∧ accesses trace = acts) s

namespace Accesses

theorem pure {value : α} : Accesses s (Pure.pure value : CounterProg α) [] :=
  wp_pure.mpr ⟨rfl, rfl, rfl⟩

theorem bind {p : CounterProg β} {rest : β → CounterProg α} (h : Accesses s p acts)
    (hrest : ∀ value, Accesses s (rest value) acts') : Accesses s (p >>= rest) (acts ++ acts') := by
  refine wp_bind.mpr (wp_mono h ?_)
  rintro trace result s' ⟨hresult, rfl, hacts⟩
  obtain ⟨value, rfl⟩ := Option.isSome_iff_exists.mp hresult
  refine wp_mono (hrest value) ?_
  rintro trace' result' s'' ⟨hresult', hs'', hacts'⟩
  exact ⟨hresult', hs'', by rw [accesses_append, hacts, hacts']⟩

/-- The rule for reading the parameters. -/
theorem params {rest : DeviceParamInit → CounterProg α} (hrest : Accesses s (rest s) acts) :
    Accesses s (perform .devParams >>= rest) acts := by
  have : Nonempty DeviceParamInit := ⟨s⟩
  refine wp_step fun answer s' hstep => ?_
  obtain ⟨rfl, rfl⟩ : answer = s ∧ s = s' := by simpa [counters] using hstep
  exact hrest

/-- The rule for a call that is no access and leaves the parameters. -/
theorem idle [Nonempty β] {request : CounterCall β} {rest : β → CounterProg α}
    (hstep : ∀ answer, counters.step request s answer = some s)
    (hview : ∀ answer, Access.view ⟨request, answer⟩ = none)
    (hrest : ∀ value, Accesses s (rest value) acts) :
    Accesses s (perform request >>= rest) acts := by
  refine wp_step fun answer s' hanswer => ?_
  obtain rfl := Option.some.inj ((hstep answer).symm.trans hanswer)
  refine wp_mono (hrest answer) ?_
  rintro trace result s' ⟨hresult, hs', rfl⟩
  refine ⟨hresult, hs', ?_⟩
  rw [List.singleton_append, accesses, List.filterMap_cons, hview]
  rfl

/-- The rule for an access. -/
theorem access [Nonempty β] {request : CounterCall β} {rest : β → CounterProg α} {a : Access}
    (hstep : ∀ answer, counters.step request s answer = some s)
    (hview : ∀ answer, Access.view ⟨request, answer⟩ = some a)
    (hrest : ∀ value, Accesses s (rest value) acts) :
    Accesses s (perform request >>= rest) (a :: acts) := by
  refine wp_step fun answer s' hanswer => ?_
  obtain rfl := Option.some.inj ((hstep answer).symm.trans hanswer)
  refine wp_mono (hrest answer) ?_
  rintro trace result s' ⟨hresult, hs', rfl⟩
  refine ⟨hresult, hs', ?_⟩
  rw [List.singleton_append, accesses, List.filterMap_cons, hview]
  rfl

end Accesses

/-- The number of turns of a loop. -/
def turns (bound : U32) : Nat := bound.toInt.toNat

theorem turns_le (bound : U32) : turns bound ≤ INT_MAX := by
  have hlt := BitVec.toInt_lt (x := bound)
  unfold turns INT_MAX
  omega

/-- The rule for a loop: its turns one after the other. -/
theorem accesses_countLoop {bound : DeviceParamInit → U32} {body : Nat → CounterProg Unit}
    {acts : Nat → List Access} (hbody : ∀ k, Accesses s (body k) (acts k)) (fuel k : Nat)
    (hfuel : turns (bound s) < k + fuel) :
    Accesses s (countLoop bound body fuel k)
      ((List.range' k (turns (bound s) - k)).flatMap acts) := by
  induction fuel generalizing k with
  | zero =>
      rw [show turns (bound s) - k = 0 by omega]
      exact .pure
  | succ fuel ih =>
      refine .params ?_
      by_cases hk : (k : Int) < (bound s).toInt
      · have hturns : turns (bound s) - k = (turns (bound s) - (k + 1)) + 1 := by
          unfold turns
          omega
        rw [if_pos hk, hturns, List.range'_succ, List.flatMap_cons]
        exact (hbody k).bind fun _ => ih (k + 1) (by omega)
      · have hturns : turns (bound s) - k = 0 := by
          unfold turns
          omega
        rw [if_neg hk, hturns]
        exact .pure

theorem accesses_forLoop {bound : DeviceParamInit → U32} {body : Nat → CounterProg Unit}
    {acts : Nat → List Access} (hbody : ∀ k, Accesses s (body k) (acts k)) :
    Accesses s (forLoop bound body) ((List.range (turns (bound s))).flatMap acts) := by
  have hfuel : turns (bound s) < 0 + (INT_MAX + 1) := by
    have hle := turns_le (bound s)
    omega
  have hloop := accesses_countLoop hbody (INT_MAX + 1) 0 hfuel
  rwa [Nat.sub_zero, ← List.range_eq_range'] at hloop

/-- The accesses to an element of both arrays of some counters. -/
def both (counters : Counters) (index : U32) : List Access :=
  [⟨counters, index.toInt⟩, ⟨counters, index.toInt⟩]

theorem accesses_readCounter {counters : Counters} {base : U64} {index : CounterProg U32}
    {value : U32} (hindex : ∀ {rest : U32 → CounterProg Unit} {acts : List Access},
      Accesses s (rest value) acts → Accesses s (index >>= rest) acts) :
    Accesses s (readCounter counters base index) (both counters value) := by
  refine hindex (.access (fun _ => rfl) (fun _ => rfl) fun _ => ?_)
  refine .idle (fun _ => rfl) (fun _ => rfl) fun _ => ?_
  refine hindex ?_
  exact .access (fun _ => rfl) (fun _ => rfl) fun _ => .pure

/-- The accesses of a channel of the last-level cache. -/
def channelAccesses (ch : Nat) : List Access :=
  both .llcc (int ch * 2) ++ both .llcc (int ch * 2 + 1) ++
    (both .cabo (int ch * 2) ++ both .cabo (int ch * 2 + 1))

/-- The accesses of a GET with some parameters. -/
def expectedAccesses (s : DeviceParamInit) : List Access :=
  (List.range (turns s.numLlccChannels)).flatMap channelAccesses ++
  ((List.range (turns s.numLlccChannels)).flatMap fun ch : Nat =>
    (List.range (turns s.numGemnocMetrics)).flatMap fun gc : Nat =>
      both .gemnoc (int ch * s.numGemnocMetrics + int gc)) ++
  ((List.range (turns s.numHfMetrics)).flatMap fun hf : Nat => both .mmnocHf (int hf)) ++
  (List.range (turns s.numSfMetrics)).flatMap fun sf : Nat => both .mmnocSf (int sf)

theorem accesses_readChannel (ch : Nat) : Accesses s (readChannel ch) (channelAccesses ch) := by
  refine .params (.idle (fun _ => rfl) (fun _ => rfl) fun llccBase => ?_)
  unfold channelAccesses
  rw [List.append_assoc]
  refine (accesses_readCounter id).bind fun _ => ?_
  refine (accesses_readCounter id).bind fun _ => ?_
  refine (accesses_readCounter id).bind fun _ => ?_
  exact accesses_readCounter id

theorem accesses_readCounters : Accesses s readCounters (expectedAccesses s) := by
  unfold expectedAccesses
  rw [List.append_assoc, List.append_assoc]
  refine (accesses_forLoop accesses_readChannel).bind fun _ => ?_
  refine .params (.idle (fun _ => rfl) (fun _ => rfl) fun gemnocBase => ?_)
  have hgemnoc (ch gc : Nat) : Accesses s
      (readCounter .gemnoc gemnocBase do
        let devParams ← perform .devParams
        return int ch * devParams.numGemnocMetrics + int gc)
      (both .gemnoc (int ch * s.numGemnocMetrics + int gc)) :=
    accesses_readCounter fun hrest => .params hrest
  refine (accesses_forLoop fun ch => accesses_forLoop (hgemnoc ch)).bind fun _ => ?_
  refine .params (.idle (fun _ => rfl) (fun _ => rfl) fun mmnocBase => ?_)
  exact (accesses_forLoop fun hf => accesses_readCounter id).bind fun _ =>
    accesses_forLoop fun sf => accesses_readCounter id

/-! ## Parameters that fit -/

/-- The index is within the arrays of some counters. -/
def Counters.Holds (c : Counters) (index : U32) : Prop :=
  0 ≤ index.toInt ∧ index.toInt < c.length

theorem both_inBounds_iff {c : Counters} {index : U32} :
    (∀ a ∈ both c index, a.InBounds) ↔ c.Holds index := by
  simp [both, Access.InBounds, Counters.Holds]

theorem toInt_int {n : Nat} (h : n ≤ INT_MAX) : (int n).toInt = n := by
  unfold INT_MAX at h
  unfold int
  rw [BitVec.toInt_ofInt, Int.bmod_eq_of_le] <;> omega

theorem holds_int_iff {c : Counters} {n : Nat} (h : n ≤ INT_MAX) :
    c.Holds (int n) ↔ n < c.length := by
  rw [Counters.Holds, toInt_int h]
  omega

theorem length_le (c : Counters) : c.length ≤ 48 := by
  cases c <;> decide

/-- Counting up to a bound stays within the arrays exactly if they are as long. -/
theorem forall_holds_iff {c : Counters} {bound : U32} :
    (∀ k < turns bound, c.Holds (int k)) ↔ turns bound ≤ c.length := by
  have hturns := turns_le bound
  have hlength := length_le c
  constructor
  · intro h
    by_contra hlt
    have hholds := h c.length (by omega)
    rw [holds_int_iff (by omega)] at hholds
    exact absurd hholds (Nat.lt_irrefl _)
  · intro h k hk
    rw [holds_int_iff (by omega)]
    omega

theorem channel_inBounds : ∀ ch < LLCC_CHANNELS, ∀ a ∈ channelAccesses ch, a.InBounds := by
  decide

theorem channel_inBounds_iff {bound : U32} :
    (∀ ch < turns bound, ∀ a ∈ channelAccesses ch, a.InBounds) ↔ turns bound ≤ LLCC_CHANNELS := by
  constructor
  · intro h
    by_contra hlt
    have hnext := h LLCC_CHANNELS (by omega)
    revert hnext
    decide
  · intro h ch hch
    exact channel_inBounds ch (Nat.lt_of_lt_of_le hch h)

/-- The index of a metric of a channel. -/
theorem gemnoc_index {bound : U32} {ch gc : Nat} (hgc : gc < turns bound) :
    int ch * bound + int gc = int (ch * turns bound + gc : Nat) := by
  have hbound : bound = int (turns bound) := by
    have hnonneg : (turns bound : Int) = bound.toInt := by
      unfold turns at hgc ⊢
      omega
    rw [hnonneg, int, BitVec.ofInt_toInt]
  have hindex : ((ch * turns bound + gc : Nat) : Int) = ch * turns bound + gc := by omega
  rw [hindex]
  unfold int at hbound ⊢
  rw [BitVec.ofInt_add, BitVec.ofInt_mul, ← hbound]

/-- The parameters for which every index of a GET is within its array; a negative number of channels
or metrics counts as none. -/
structure Fits (s : DeviceParamInit) : Prop where
  channels : turns s.numLlccChannels ≤ LLCC_CHANNELS
  metrics : turns s.numLlccChannels * turns s.numGemnocMetrics ≤ LLCC_CHANNELS * GEMNOC_COUNTERS
  hf : turns s.numHfMetrics ≤ HF_COUNTERS
  sf : turns s.numSfMetrics ≤ SF_COUNTERS

theorem gemnoc_inBounds_iff {channels metrics : U32} :
    (∀ ch < turns channels, ∀ gc < turns metrics,
      Counters.gemnoc.Holds (int ch * metrics + int gc)) ↔
      turns channels * turns metrics ≤ LLCC_CHANNELS * GEMNOC_COUNTERS := by
  constructor
  · intro h
    by_contra hlt
    rw [Nat.not_le] at hlt
    -- The index that comes first after the end of the arrays is reached.
    have hpos : 0 < turns metrics := Nat.pos_of_ne_zero fun hzero => by
      rw [hzero, Nat.mul_zero] at hlt
      exact Nat.not_lt_zero _ hlt
    have hgc := Nat.mod_lt (LLCC_CHANNELS * GEMNOC_COUNTERS) hpos
    have hch : LLCC_CHANNELS * GEMNOC_COUNTERS / turns metrics < turns channels :=
      (Nat.div_lt_iff_lt_mul hpos).mpr hlt
    have hholds := h _ hch _ hgc
    rw [gemnoc_index hgc, Nat.div_add_mod', holds_int_iff (by decide)] at hholds
    exact absurd hholds (Nat.lt_irrefl _)
  · intro h ch hch gc hgc
    have hindex : ch * turns metrics + gc < turns channels * turns metrics := by
      calc ch * turns metrics + gc < ch * turns metrics + turns metrics := by omega
        _ = (ch + 1) * turns metrics := (Nat.succ_mul _ _).symm
        _ ≤ turns channels * turns metrics := Nat.mul_le_mul_right _ hch
    have hlength : Counters.gemnoc.length = LLCC_CHANNELS * GEMNOC_COUNTERS := rfl
    have hmax : LLCC_CHANNELS * GEMNOC_COUNTERS ≤ INT_MAX := by decide
    rw [gemnoc_index hgc, holds_int_iff (by omega), hlength]
    omega

theorem expectedAccesses_inBounds_iff {s : DeviceParamInit} :
    (∀ a ∈ expectedAccesses s, a.InBounds) ↔ Fits s := by
  unfold expectedAccesses
  simp only [List.forall_mem_append, List.forall_mem_flatMap, List.mem_range, both_inBounds_iff,
    channel_inBounds_iff, gemnoc_inBounds_iff, forall_holds_iff]
  constructor
  · intro h
    exact ⟨h.1.1.1, h.1.1.2, h.1.2, h.2⟩
  · intro h
    exact ⟨⟨⟨h.channels, h.metrics⟩, h.hf⟩, h.sf⟩

/-! ## Runs of the ioctls -/

/-- The calls of an ioctl that concern the counters and the settings. -/
def counterEvents (trace : List (Event (Either ProfilerCall CounterCall))) :
    List (Event CounterCall) := trace.filterMap Event.right

/-- Every index of these calls is within its array. -/
def InBounds (trace : List (Event (Either ProfilerCall CounterCall))) : Prop :=
  ∀ a ∈ accesses (counterEvents trace), a.InBounds

/-- Whether a call reads the parameters. -/
def readsParams : Event CounterCall → Bool
  | ⟨.devParams, _⟩ => true
  | _ => false

/-- In these calls the counters are read. -/
def ReadsCounters (trace : List (Event (Either ProfilerCall CounterCall))) : Prop :=
  ∃ e ∈ counterEvents trace, readsParams e = true

/-- `dev_params` after a call. -/
def storedBy (s : DeviceParamInit) :
    Event (Either ProfilerCall CounterCall) → DeviceParamInit
  | ⟨.inr .copyDevParams, stored⟩ => stored
  | _ => s

/-- `dev_params` after the ioctls of a run: what the last of them has stored. -/
def stored (s₀ : DeviceParamInit) :
    History ProfilerIoctl (Either ProfilerCall CounterCall) → DeviceParamInit
  | [] => s₀
  | (_, trace) :: earlier => trace.foldl storedBy (stored s₀ earlier)

/-- Whenever the counters are read in a run, the parameters stored before fit. -/
def FitsWhenRead (s₀ : DeviceParamInit) :
    History ProfilerIoctl (Either ProfilerCall CounterCall) → Prop
  | [] => True
  | (_, trace) :: earlier =>
      (ReadsCounters trace → Fits (stored s₀ earlier)) ∧ FitsWhenRead s₀ earlier

variable {trace trace' : List (Event (Either ProfilerCall CounterCall))}

theorem counterEvents_append :
    counterEvents (trace ++ trace') = counterEvents trace ++ counterEvents trace' :=
  List.filterMap_append

/-- An execution leaves what it has stored. -/
theorem exec_stored {p : DetailedProg α} {result : Option α}
    (h : Exec settings p s trace result s') : s' = trace.foldl storedBy s := by
  induction h with
  | ret | halt => rfl
  | @call δ request next s s₁ s₂ answer trace result hstep _ ih =>
      have hs₁ : s₁ = storedBy s ⟨request, answer⟩ := by
        cases request with
        | inl request => exact (Option.some.inj hstep).symm
        | inr request =>
            cases request with
            | devParams =>
                have hread : (if answer = s then some s else none) = some s₁ := hstep
                exact (Option.some.inj (Option.ite_none_right_eq_some.mp hread).2).symm
            | _ => exact (Option.some.inj hstep).symm
      rw [ih, hs₁]
      rfl

/-- Calls made with the parameters `s` have every index within its array exactly if they do not read
the counters or `s` fits. -/
def Judged (s : DeviceParamInit) (trace : List (Event (Either ProfilerCall CounterCall))) : Prop :=
  InBounds trace ↔ (ReadsCounters trace → Fits s)

theorem judged_append (h : Judged s trace) (h' : Judged s trace') : Judged s (trace ++ trace') := by
  have hin : InBounds (trace ++ trace') ↔ InBounds trace ∧ InBounds trace' := by
    simp only [InBounds, counterEvents_append, accesses_append, List.forall_mem_append]
  have hreads : ReadsCounters (trace ++ trace') ↔ ReadsCounters trace ∨ ReadsCounters trace' := by
    simp only [ReadsCounters, counterEvents_append, List.mem_append, or_and_right, exists_or]
  unfold Judged at h h' ⊢
  rw [hin, hreads, or_imp, h, h']

/-- Calls that neither access the arrays nor read the parameters. -/
theorem judged_apart
    (h : ∀ e ∈ counterEvents trace, Access.view e = none ∧ readsParams e = false) :
    Judged s trace := by
  refine iff_of_true ?_ ?_
  · have hnone : accesses (counterEvents trace) = [] :=
      List.filterMap_eq_nil_iff.mpr fun e he => (h e he).1
    rw [InBounds, hnone]
    exact nofun
  · intro hreads
    obtain ⟨e, he, hread⟩ := hreads
    rw [(h e he).2] at hread
    cases hread

theorem judged_nil (h : counterEvents trace = []) : Judged s trace := by
  refine judged_apart ?_
  rw [h]
  exact nofun

/-- Reading the counters reads the parameters. -/
theorem readCounters_reads : wp counters .any readCounters
    (fun trace _ _ => ∃ e ∈ trace, readsParams e = true) s := by
  have : Nonempty DeviceParamInit := ⟨s⟩
  show wp counters .any (perform CounterCall.devParams >>= _) _ s
  refine wp_step fun answer s' _ => ?_
  refine wp_always fun trace result s'' => ?_
  exact ⟨_, List.mem_cons_self, rfl⟩

theorem readCounters_judged : wp settings .any (readCounters.lift .inr)
    (fun trace _ s' => s' = s ∧ Judged s trace) s := by
  have hreads := wp_and (@accesses_readCounters s) readCounters_reads
  have hlift := @wp_lift _ _ _ _ _ counters settings .inr id _ _ s
    (fun request answer s s' hstep => hstep) hreads
  refine wp_mono hlift ?_
  rintro trace result s' ⟨own, rfl, ⟨_, hs', hacts⟩, hread⟩
  refine ⟨hs', ?_⟩
  have hown : counterEvents (own.map (Event.lift .inr)) = own := filterMap_right
  rw [Judged, InBounds, ReadsCounters, hown, hacts, expectedAccesses_inBounds_iff]
  exact (imp_iff_right hread).symm

/-- A call that is not worked out. -/
theorem plain_judged {request : ProfilerCall β} :
    wp settings .any (perform (.inl request)) (fun trace _ s' => s' = s ∧ Judged s trace) s := by
  refine wp_perform.mpr ⟨trivial, fun _ => ⟨rfl, judged_nil rfl⟩, ?_⟩
  intro answer s' hstep
  exact ⟨(Option.some.inj hstep).symm, judged_nil rfl⟩

/-- The calls of an ioctl that does not store parameters. -/
theorem detail_judged {cmd : ProfilerIoctl} (hcmd : cmd ≠ .deviceInit) (request : ProfilerCall β) :
    wp settings .any (detail cmd request) (fun trace _ s' => s' = s ∧ Judged s trace) s := by
  cases request with
  | readCounters => exact readCounters_judged
  | storeSettings =>
      cases cmd with
      | deviceInit => exact absurd rfl hcmd
      | setOffsets =>
          refine wp_perform.mpr ⟨trivial, fun _ => ⟨rfl, judged_nil rfl⟩, ?_⟩
          intro answer s' hstep
          refine ⟨(Option.some.inj hstep).symm, judged_apart ?_⟩
          exact List.forall_mem_singleton.mpr ⟨rfl, rfl⟩
      | getBwInfo | getBwInfoBc | other => exact wp_pure.mpr ⟨rfl, judged_nil rfl⟩
  | _ => exact plain_judged

/-- An ioctl has every index within its array exactly if it does not read the counters or the
parameters fit. -/
theorem exec_judged {cmd : ProfilerIoctl} {result : Option Int}
    (h : Exec settings (detailedIoctl cmd) s trace result s') : Judged s trace := by
  by_cases hcmd : cmd = .deviceInit
  · subst hcmd
    cases h with
    | halt => exact judged_nil rfl
    | call _ hrest =>
        cases hrest
        exact judged_apart (List.forall_mem_singleton.mpr ⟨rfl, rfl⟩)
  · have hpiece {β : Type} (request : ProfilerCall β) (s' : DeviceParamInit) (hs' : s' = s) :
        wp settings .any (detail cmd request) (fun trace _ s'' => s'' = s ∧ Judged s trace) s' := by
      subst hs'
      exact detail_judged hcmd request
    have hwp : wp settings .any (detailedIoctl cmd) (fun trace _ s' => s' = s ∧ Judged s trace) s :=
      wp_expand (I := fun s' => s' = s) (judged_nil rfl) (fun _ _ => judged_append) hpiece rfl
    exact (wp_exec hwp h).2

/-- The accesses of every request of a run are within the arrays. -/
def ArraysInBounds (history : History ProfilerIoctl (Either ProfilerCall CounterCall)) : Prop :=
  ∀ served ∈ history, InBounds served.2

/-- In a run of the ioctls, with any parameters and offsets, every index is within its array exactly
if the parameters fit whenever the counters are read. -/
theorem arraysInBounds_iff {s₀ : DeviceParamInit}
    {history : History ProfilerIoctl (Either ProfilerCall CounterCall)}
    (h : Run settings detailedIoctl .any s₀ history s) :
    ArraysInBounds history ↔ FitsWhenRead s₀ history := by
  have hboth : s = stored s₀ history ∧ (ArraysInBounds history ↔ FitsWhenRead s₀ history) := by
    induction h with
    | start => exact ⟨rfl, iff_of_true nofun trivial⟩
    | @request history s s' cmd trace result _ hexec _ ih =>
        obtain ⟨hs, hhistory⟩ := ih
        have hjudged : InBounds trace ↔ (ReadsCounters trace → Fits s) := exec_judged hexec
        refine ⟨?_, ?_⟩
        · rw [exec_stored hexec, hs]
          rfl
        · rw [ArraysInBounds, List.forall_mem_cons, FitsWhenRead, ← hs]
          exact and_congr hjudged hhistory
  exact hboth.2

/-- No channel, metric or counter. -/
def noParams : DeviceParamInit := ⟨0, 0, 0, 0, 0, 0, 0, 0, 0, 0, 0⟩

/-- User space delivers some parameters and a GET request, and everything succeeds. -/
def delivering (params : DeviceParamInit) :
    Chooser (Either ProfilerCall CounterCall) DeviceParamInit := fun _ request s =>
  match request with
  | .inl .mutexTrylock | .inl .kzalloc | .inl (.copyToUser _) => some true
  | .inl .readBwProfilingDisabled => some false
  | .inl .clkPrepareEnable | .inl (.qcomScmDdrbwProfiler _ _) => some (0 : Int)
  | .inl (.copyFromUser _) => some (.ok ⟨TZ_BW_SVC_GET_ID, 0⟩)
  | .inl .uninitialised => some ⟨0, 0⟩
  | .inl (.qteeShmbridgeAllocateShm _) => some (.ok ⟨0x1000⟩)
  | .inl (.readResponse _) => some ⟨TZ_BW_SVC_GET_ID, E_BW_SUCCESS⟩
  | .inl .mutexUnlock | .inl .clkDisableUnprepare | .inl .kfree
  | .inl (.writeBwProfilingDisabled _) | .inl (.qteeShmbridgeFreeShm _)
  | .inl (.qteeShmbridgeFlushShmBuf _) | .inl (.qteeShmbridgeInvShmBuf _) | .inl .readCounters
  | .inl .storeSettings | .inr .copyOffsets | .inr (.setValue _ _ _) => some ()
  | .inr .devParams => some s
  | .inr (.devmIoremap _ _) => some (0x1000 : U64)
  | .inr (.regOffset _ _) | .inr (.readl _ _) => some (0 : U32)
  | .inr .copyDevParams => some params

instance (trace : List (Event (Either ProfilerCall CounterCall))) : Decidable (InBounds trace) :=
  inferInstanceAs (Decidable (∀ _ ∈ _, _))

instance (trace : List (Event (Either ProfilerCall CounterCall))) :
    Decidable (ReadsCounters trace) := inferInstanceAs (Decidable (∃ _ ∈ _, _))

/-- A GET with one counter of each kind. -/
theorem arraysInBounds_iff_one : ∃ history s,
    Run settings detailedIoctl .any noParams history s ∧
      (∃ served ∈ history, ReadsCounters served.2) ∧
      (ArraysInBounds history ↔ FitsWhenRead noParams history) := by
  have hcheck : Run.check settings detailedIoctl (delivering ⟨1, 0, 0, 1, 1, 0, 0, 1, 1, 0, 0⟩)
      [.deviceInit, .getBwInfo] noParams
      (fun history _ => history.any fun served => ReadsCounters served.2) = true := by
    decide +kernel
  obtain ⟨history, s, hrun, hreads⟩ := Run.check_run hcheck
  refine ⟨history, s, hrun, ?_, arraysInBounds_iff hrun⟩
  simpa using hreads

/-- Seventeen metrics are written to an array of sixteen. -/
theorem not_arraysInBounds_hf : ¬ ∀ (s₀ s : DeviceParamInit)
    (history : History ProfilerIoctl (Either ProfilerCall CounterCall)),
    Run settings detailedIoctl .any s₀ history s → ArraysInBounds history := by
  have hcheck : Run.check settings detailedIoctl (delivering ⟨0, 0, 0, 0, 0, 0, 0, 17, 0, 0, 0⟩)
      [.deviceInit, .getBwInfo] noParams
      (fun history _ => history.any fun served => ¬ InBounds served.2) = true := by
    decide +kernel
  obtain ⟨history, s, hrun, hout⟩ := Run.check_run hcheck
  intro h
  obtain ⟨served, hserved, hnot⟩ := List.any_eq_true.mp hout
  exact of_decide_eq_true hnot (h noParams s history hrun served hserved)

end SafeLinux.Profiler
