import SafeLinux.Cached.Basic
import SafeLinux.DloadMode.Driver

/-!
# The mode that is shown

`dump_mode` is a copy of the register, written in a step of its own after the register. Threads may
come between the two: users of the file, and the probe, which creates the file before it reads the
register. `InTurn` says that none of them writes the register there. Every step in turn is one of
`Cached.Step`; hence the mode that `dload_mode_show` prints is that of the register, unless a thread
is about to put it in `dump_mode` (`dloadSystem_agrees`).
-/

namespace SafeLinux.DloadMode

open Effects
open Effects.Program (perform)

variable {τ : Type} {node : DloadNode} {t u : τ} {s s' : State τ}

/-! ## Words -/

/-- `sysfs_streq` with a word that ends in no newline. -/
theorem sysfsStreq_iff {buf word : List Char} (hword : '\n' ∉ word) :
    sysfsStreq buf word = true ↔ buf = word ∨ buf = word ++ ['\n'] := by
  fun_induction sysfsStreq buf word with
  | case1 buf c word ih =>
      rw [ih fun hmem => hword (List.mem_cons_of_mem _ hmem)]
      simp
  | case2 c buf d word hne => simp [hne]
  | case3 => simp
  | case4 buf word hcons hnil =>
      cases word with
      | nil => simpa using fun hbuf => absurd rfl (hnil hbuf)
      | cons d word =>
          cases buf with
          | nil =>
              have hne : d :: word ≠ ['\n'] := fun heq => hword (by rw [heq]; exact .head _)
              simp [hne]
          | cons c buf => exact absurd rfl (hcons c buf d word rfl)

/-- A mode that can be chosen. -/
def IsMode (mode : U32) : Prop :=
  mode = QCOM_DOWNLOAD_FULLDUMP ∨ mode = QCOM_DOWNLOAD_MINIDUMP ∨ mode = QCOM_DOWNLOAD_BOTHDUMP

/-- The word shown for a mode chooses it, with a newline at its end or not. -/
theorem storedMode_modeWord {mode : U32} (h : IsMode mode) {buf : List Char}
    (hbuf : buf = (modeWord mode).toList ∨ buf = (modeWord mode).toList ++ ['\n']) :
    storedMode buf = some mode := by
  rcases h with rfl | rfl | rfl <;> rcases hbuf with rfl | rfl <;> decide

/-- Nothing but the words of the modes is taken, and the word taken is the one that is shown. -/
theorem storedMode_some {buf : List Char} {mode : U32} (h : storedMode buf = some mode) :
    IsMode mode ∧
      (buf = (modeWord mode).toList ∨ buf = (modeWord mode).toList ++ ['\n']) := by
  unfold storedMode at h
  split at h
  · rename_i hfull
    cases h
    exact ⟨.inl rfl, (sysfsStreq_iff (by decide)).mp hfull⟩
  · split at h
    · rename_i hmini
      cases h
      exact ⟨.inr (.inl rfl), (sysfsStreq_iff (by decide)).mp hmini⟩
    · split at h
      · rename_i hboth
        cases h
        exact ⟨.inr (.inr rfl), (sysfsStreq_iff (by decide)).mp hboth⟩
      · cases h

/-! ## Steps in turn -/

/-- The condition that no thread writes the register in the window of another one, and that a probe
that could not read the register finds `dump_mode` as it was when it writes it back. -/
def InTurn (t : τ) (s : State τ) : Event DloadCall → Prop
  | ⟨.qcomScmIoWritel _ _, ret⟩ => ret = 0 → ∀ u ≠ t, s.window u = none
  | ⟨.setDumpMode mode, _⟩ => s.window t = none → mode = s.dumpMode
  | _ => True

/-- The moves of the driver in turn. -/
def TakesTurns (P : DloadPool τ) : DloadMove τ → Prop
  | .call t e => InTurn t P.shared e
  | .start _ _ => True

/-- The register with its copy. -/
def State.cell (node : DloadNode) (s : State τ) : Cached.Cell τ U32 :=
  ⟨s.regs node.address, s.dumpMode, s.window, s.known⟩

/-- There is a file only when the address of the register has been found. -/
def State.Located (node : DloadNode) (s : State τ) : Prop :=
  s.file = true → s.dloadModeAddr = node.address

/-- What a thread relies on the others for. -/
structure Rely (node : DloadNode) (t : τ) (s s' : State τ) : Prop where
  window : s'.window t = s.window t
  found : s.dloadModeAddr = node.address → s'.dloadModeAddr = node.address
  located : s.Located node → s'.Located node

/-- A thread that has nothing to publish. -/
structure Outside (node : DloadNode) (t : τ) (s : State τ) : Prop where
  window : s.window t = none
  located : s.Located node

theorem Rely.refl (node : DloadNode) (t : τ) (s : State τ) : Rely node t s s := ⟨rfl, id, id⟩

theorem Rely.trans {s'' : State τ} (h : Rely node t s s') (h' : Rely node t s' s'') :
    Rely node t s s'' :=
  ⟨h'.window.trans h.window, h'.found ∘ h.found, h'.located ∘ h.located⟩

theorem Outside.rely (h : Outside node t s) (hrely : Rely node t s s') : Outside node t s' :=
  ⟨hrely.window.trans h.window, hrely.located h.located⟩

variable [DecidableEq τ]

/-- What a thread does to the others. -/
structure Guarantee (node : DloadNode) (t : τ) (s s' : State τ) : Prop where
  step : Cached.Step t (s.cell node) (s'.cell node)
  found : s.dloadModeAddr = node.address → s'.dloadModeAddr = node.address
  located : s.Located node → s'.Located node

theorem Guarantee.rely (h : Guarantee node t s s') (hu : u ≠ t) : Rely node u s s' :=
  ⟨h.step.window_of_ne hu, h.found, h.located⟩

/-- A step that does nothing to the others. -/
theorem Guarantee.stay (node : DloadNode) (t : τ) (s : State τ) : Guarantee node t s s :=
  ⟨.stay, id, id⟩

/-! ## Programs in turn -/

/-- A program of a thread whose steps in turn keep to its guarantee and leave nothing to publish. -/
abbrev DloadSafe (node : DloadNode) (t : τ) (p : DloadProg Reply) (s : State τ) : Prop :=
  p.Safe (dload node t) (InTurn t) (Rely node t) (Guarantee node t)
    (fun _ => Outside node t) s

/-- The rule for a call that leaves the state. -/
theorem dloadSafe_quiet {β : Type} {request : DloadCall β} {rest : β → DloadProg Reply}
    (h : Outside node t s)
    (hquiet : ∀ s answer s', (dload node t).step request s answer = some s' → s' = s)
    (hrest : ∀ s₁ answer, Rely node t s s₁ → Outside node t s₁ →
      (dload node t).step request s₁ answer = some s₁ → DloadSafe node t (rest answer) s₁) :
    DloadSafe node t (perform request >>= rest) s := by
  intro s₁ hrely answer s₂ hstep _
  obtain rfl := hquiet _ _ _ hstep
  exact ⟨.stay node t _, hrest _ answer hrely (h.rely hrely) hstep⟩

/-- The rule for `set_dump_mode` and what follows it, once the address is known. -/
theorem dloadSafe_setDumpMode {mode : U32} {rest : Int → DloadProg Reply} (h : Outside node t s)
    (hfound : s.dloadModeAddr = node.address)
    (hrest : ∀ ret s₁, Outside node t s₁ → DloadSafe node t (rest ret) s₁) :
    DloadSafe node t (setDumpMode mode >>= rest) s := by
  refine dloadSafe_quiet h (fun s answer s' hstep => ?_) fun s₁ addr hrely h₁ hstep => ?_
  · simp only [dload] at hstep
    split at hstep <;> cases hstep
    rfl
  simp only [dload] at hstep
  split at hstep
  swap
  · cases hstep
  rename_i haddr
  obtain rfl : addr = node.address := haddr.trans (hrely.found hfound)
  intro s₂ hrely₂ ret s₃ hwrite hturn
  have h₂ := h₁.rely hrely₂
  by_cases hret : ret = 0
  · subst hret
    cases hwrite
    refine ⟨⟨?_, id, id⟩, ?_⟩
    · have hcell : State.cell node { s₂ with
          regs := Function.update s₂.regs node.address mode
          window := Function.update s₂.window t (some mode)
          known := true } = ⟨mode, s₂.dumpMode, Function.update s₂.window t (some mode), true⟩ := by
        simp [State.cell]
      rw [hcell]
      exact .write mode (hturn rfl)
    -- The window is open until the mode is published.
    intro s₄ hrely₄ _ s₅ hpublish _
    have hopen : s₄.window t = some mode := hrely₄.window.trans (Function.update_self ..)
    have hlocated : s₄.Located node := hrely₄.located h₂.located
    cases hpublish
    exact ⟨⟨.publish hopen, id, id⟩, hrest 0 _ ⟨Function.update_self .., hlocated⟩⟩
  · have hwrite' : s₂ = s₃ := by
      simp only [dload, if_neg hret] at hwrite
      exact Option.some.inj hwrite
    subst hwrite'
    refine ⟨.stay node t _, ?_⟩
    show DloadSafe node t ((if ret ≠ 0 then _ else _ : DloadProg Int) >>= rest) _
    rw [if_pos hret]
    exact hrest ret _ h₂

/-- The rule for the end of the probe, once the address is known. -/
theorem dloadSafe_initDumpMode (h : Outside node t s) (hfound : s.dloadModeAddr = node.address) :
    DloadSafe node t initDumpMode s := by
  refine dloadSafe_quiet h (fun s answer s' hstep => ?_) fun s₁ addr hrely h₁ hstep => ?_
  · simp only [dload] at hstep
    split at hstep <;> cases hstep
    rfl
  simp only [dload] at hstep
  split at hstep
  swap
  · cases hstep
  rename_i haddr
  obtain rfl : addr = node.address := haddr.trans (hrely.found hfound)
  intro s₂ hrely₂ answer s₃ hread _
  obtain ⟨ret, temp⟩ := answer
  have h₂ := h₁.rely hrely₂
  by_cases hret : ret = 0
  · subst hret
    simp only [dload, if_true] at hread
    split at hread
    swap
    · cases hread
    rename_i htemp
    obtain rfl : temp = s₂.regs node.address := htemp
    cases hread
    refine ⟨⟨.read, id, id⟩, ?_⟩
    intro s₄ hrely₄ _ s₅ hpublish _
    have hopen : s₄.window t = some (s₂.regs node.address) :=
      hrely₄.window.trans (Function.update_self ..)
    have hlocated : s₄.Located node := hrely₄.located h₂.located
    cases hpublish
    exact ⟨⟨.publish hopen, id, id⟩, Function.update_self .., hlocated⟩
  · have hread' : s₂ = s₃ := by
      simp only [dload, if_neg hret] at hread
      exact Option.some.inj hread
    subst hread'
    refine ⟨.stay node t _, ?_⟩
    show DloadSafe node t (if ret ≠ 0 then _ else _) _
    rw [if_pos hret]
    refine dloadSafe_quiet h₂ (fun s answer s' hstep => ?_) fun s₃ mode _ h₃ _ => ?_
    · simp only [dload] at hstep
      split at hstep <;> cases hstep
      rfl
    intro s₄ hrely₄ _ s₅ hpublish hturn
    have h₄ := h₃.rely hrely₄
    -- Nobody has changed the copy since it was read.
    have hmode : mode = s₄.dumpMode := hturn h₄.window
    cases hpublish
    have hcell : State.cell node { s₄ with
        dumpMode := mode
        window := Function.update s₄.window t none } = s₄.cell node := by
      have hwindow : Function.update s₄.window t none = s₄.window := by
        rw [← h₄.window, Function.update_eq_self]
      simp [State.cell, hmode, hwindow]
    refine ⟨⟨?_, id, id⟩, Function.update_self .., h₄.located⟩
    rw [hcell]
    exact .stay

/-- The rule for `qcom_scm_find_dload_mode_address` and what follows it. -/
theorem dloadSafe_find {rest : Int → DloadProg Reply} (h : Outside node t s)
    (hrest : ∀ ret s₁, Outside node t s₁ → (0 ≤ ret → s₁.dloadModeAddr = node.address) →
      DloadSafe node t (rest ret) s₁) :
    DloadSafe node t (qcomScmFindDloadModeAddress >>= rest) s := by
  have herror : ∀ ret s₁, ret < 0 → Outside node t s₁ → DloadSafe node t (rest ret) s₁ :=
    fun ret s₁ hret h₁ => hrest ret s₁ h₁ fun hle => by omega
  refine dloadSafe_quiet h (fun _ _ _ hstep => (Option.some.inj hstep).symm)
    fun s₁ tcsr _ h₁ _ => ?_
  cases tcsr with
  | false => exact herror _ _ (by decide) h₁
  | true =>
      refine dloadSafe_quiet h₁ (fun s answer s' hstep => ?_) fun s₂ answer _ h₂ hstep => ?_
      · simp only [dload] at hstep
        split at hstep <;> cases hstep
        rfl
      obtain ⟨ret, start⟩ := answer
      have hstart : ret = 0 ∧ start = node.start ∨ ret < 0 := by
        simp only [dload] at hstep
        split at hstep
        · assumption
        · cases hstep
      refine dloadSafe_quiet h₂ (fun _ _ _ hstep => (Option.some.inj hstep).symm)
        fun s₃ _ _ h₃ _ => ?_
      rcases hstart with ⟨rfl, rfl⟩ | hneg
      swap
      · show DloadSafe node t ((if ret ≠ 0 then _ else _ : DloadProg Int) >>= rest) _
        rw [if_pos (by omega)]
        exact herror _ _ hneg h₃
      refine dloadSafe_quiet h₃ (fun s answer s' hstep => ?_) fun s₄ answer _ h₄ hstep => ?_
      · simp only [dload] at hstep
        split at hstep <;> cases hstep
        rfl
      obtain ⟨ret, offset⟩ := answer
      have hoffset : ret = 0 ∧ offset = node.offset ∨ ret < 0 := by
        simp only [dload] at hstep
        split at hstep
        · assumption
        · cases hstep
      rcases hoffset with ⟨rfl, rfl⟩ | hneg
      swap
      · show DloadSafe node t ((if ret < 0 then _ else _ : DloadProg Int) >>= rest) _
        rw [if_pos hneg]
        exact herror _ _ hneg h₄
      intro s₅ hrely₅ _ s₆ hset _
      have h₅ := h₄.rely hrely₅
      cases hset
      exact ⟨⟨.stay, fun _ => rfl, fun _ _ => rfl⟩,
        hrest 0 _ ⟨h₅.window, fun _ => rfl⟩ fun _ => rfl⟩

/-- The probe keeps to its turn. -/
theorem dloadSafe_probe (h : Outside node t s) : DloadSafe node t qcomDloadModeProbe s := by
  refine dloadSafe_quiet h (fun _ _ _ hstep => (Option.some.inj hstep).symm)
    fun s₁ scm _ h₁ _ => ?_
  cases scm with
  | false => exact h₁
  | true =>
      refine dloadSafe_quiet h₁ (fun _ _ _ hstep => (Option.some.inj hstep).symm)
        fun s₂ _ _ h₂ _ => ?_
      refine dloadSafe_find h₂ fun ret s₃ h₃ hfound => ?_
      by_cases hret : ret < 0
      · rw [if_pos hret]
        exact h₃
      rw [if_neg hret]
      have hfound₃ := hfound (by omega)
      refine dloadSafe_quiet h₃ (fun _ _ _ hstep => (Option.some.inj hstep).symm)
        fun s₄ ret hrely₄ h₄ _ => ?_
      have hfound₄ := hrely₄.found hfound₃
      by_cases hret : ret ≠ 0
      · rw [if_pos hret]
        exact dloadSafe_quiet h₄ (fun _ _ _ hstep => (Option.some.inj hstep).symm)
          fun _ _ _ h₅ _ => h₅
      rw [if_neg hret]
      intro s₅ hrely₅ ret s₆ hcreate _
      have h₅ := h₄.rely hrely₅
      have hfound₅ := hrely₅.found hfound₄
      by_cases hret : ret = 0
      · subst hret
        cases hcreate
        exact ⟨⟨.stay, id, fun _ _ => hfound₅⟩,
          dloadSafe_initDumpMode ⟨h₅.window, fun _ => hfound₅⟩ hfound₅⟩
      · have hcreate' : s₅ = s₆ := by
          simp only [dload, if_neg hret] at hcreate
          exact Option.some.inj hcreate
        subst hcreate'
        refine ⟨.stay node t _, ?_⟩
        show DloadSafe node t (if ret ≠ 0 then _ else _) _
        rw [if_pos hret]
        exact dloadSafe_quiet h₅ (fun _ _ _ hstep => (Option.some.inj hstep).symm)
          fun _ _ _ h₆ _ => h₆

/-- The users of the file keep to their turn. -/
theorem dloadSafe_file {i : Job} (h : Outside node t s) (hfile : s.file = true) (hi : i ≠ .probe) :
    DloadSafe node t i.program s := by
  cases i with
  | probe => exact absurd rfl hi
  | read =>
      refine dloadSafe_quiet h (fun s answer s' hstep => ?_) fun _ _ _ h₁ _ => h₁
      simp only [dload] at hstep
      split at hstep <;> cases hstep
      rfl
  | write buf count =>
      show DloadSafe node t (dloadModeStore buf count) s
      unfold dloadModeStore
      split
      · exact h
      · exact dloadSafe_setDumpMode h (h.located hfile) fun _ _ h₁ => h₁

/-! ## Runs -/

variable {P : DloadPool τ} {regs : U64 → U32}

/-- The threads keep to their relies and guarantees. -/
theorem dloadSystem_contract : (dloadSystem τ node).Contract TakesTurns (Outside node) InTurn
    (Rely node) (Guarantee node) (fun t _ _ => Outside node t) where
  admits _ _ _ hok := hok
  refl := Rely.refl node
  trans _ _ _ _ h h' := h.trans h'
  others _ _ _ _ hu h := h.rely hu
  idle _ _ _ hrely h := h.rely hrely
  post _ _ _ _ _ hrely h := h.rely hrely
  start := by
    rintro P t i s h ⟨hstart, rfl⟩
    refine ⟨.stay node t _, ?_⟩
    by_cases hi : i = .probe
    · subst hi
      exact dloadSafe_probe h
    · exact dloadSafe_file h (hstart.resolve_left hi) hi
  finish t _ _ s h := ⟨.stay node t s, h⟩

/-- The copy and the register agree in every interleaving in turn. -/
theorem dloadSystem_cell (h : (dloadSystem τ node).Reach TakesTurns (.quiet (.fresh regs)) P) :
    (P.shared.cell node).Agrees := by
  refine h.kept dloadSystem_contract (fun t => ⟨rfl, rfl, fun hfile => by cases hfile⟩)
    (J := fun s => (s.cell node).Agrees) (fun t s s' hguarantee hs => hguarantee.step.agrees hs)
    ⟨fun t v hv => ?_, fun hfresh => absurd hfresh Bool.false_ne_true⟩
  simp [State.cell, Pool.quiet, State.fresh] at hv

/-- `dload_mode_show` prints the copy. -/
theorem dloadModeShow_out {trace : List (Event DloadCall)} {shown : Reply}
    (h : Exec (dload node t) dloadModeShow s trace (some shown) s') :
    shown.out = dumpTypeText s.dumpMode := by
  cases h with
  | call hstep hrest =>
      simp only [dload] at hstep
      split at hstep
      · rename_i hmode
        cases hrest
        show dumpTypeText _ = _
        rw [hmode]
      · cases hstep

/-- In every interleaving of probes and users of the file whose steps are taken in turn, once the
register has been read or written, `dump_mode` is the mode in the register, or a thread has written
the register, or read it, and is about to put that mode in `dump_mode`. When no thread is, the file
shows the mode in the register. -/
theorem dloadSystem_agrees
    (h : (dloadSystem τ node).Reach TakesTurns (.quiet (.fresh regs)) P)
    (hknown : P.shared.known = true) :
    (P.shared.dumpMode = P.shared.regs node.address ∨
      ∃ t, P.shared.window t = some (P.shared.regs node.address)) ∧
    ((∀ t, P.shared.window t = none) → ∀ t trace shown s',
      Exec (dload node t) dloadModeShow P.shared trace (some shown) s' →
        shown.out = dumpTypeText (P.shared.regs node.address)) := by
  have hcopy := (dloadSystem_cell h).copy_eq hknown
  refine ⟨hcopy, fun hclosed t trace shown s' hshow => ?_⟩
  have hmode : P.shared.dumpMode = P.shared.regs node.address := by
    rcases hcopy with heq | ⟨u, hopen⟩
    · exact heq
    · exact absurd ((hclosed u).symm.trans hopen) (by simp)
  rw [dloadModeShow_out hshow, hmode]

/-- A device tree. -/
def someNode : DloadNode := ⟨0x1000, 4⟩

/-- A probe has created the file, and has not read the register. -/
theorem dloadSystem_creates (regs : U64 → U32) : ∃ P,
    (dloadSystem Nat someNode).Reach TakesTurns (.quiet (.fresh regs)) P ∧
    (∀ t ≠ 0, P.running t = none) ∧
    P.shared = { State.fresh regs with dloadModeAddr := someNode.address, file := true } := by
  have hhere : (dloadSystem Nat someNode).Reach TakesTurns (.quiet (.fresh regs))
    (.quiet (.fresh regs)) := .here
  have hnode := (((hhere.start 0 .probe rfl ⟨.inl rfl, rfl⟩ trivial).call 0 true rfl rfl
    trivial).call 0 () rfl rfl trivial).call 0 true rfl rfl trivial
  have hfound := (((hnode.call 0 ((0, 0x1000) : Int × U64) rfl rfl trivial).call 0 () rfl rfl
    trivial).call 0 ((0, 4) : Int × U32) rfl rfl trivial).call 0 () rfl rfl trivial
  have hcreated := (hfound.call 0 (0 : Int) rfl rfl trivial).call 0 (0 : Int) rfl rfl trivial
  refine ⟨_, hcreated, fun t ht => ?_, rfl⟩
  simp [System.resume_running_of_ne ht, Pool.quiet]

/-- A user writes the file before the probe has read the register; the new mode is in the register,
and not yet shown. -/
theorem dloadSystem_agrees_write : ∃ P : DloadPool Nat,
    (dloadSystem Nat someNode).Reach TakesTurns (.quiet (.fresh fun _ => 0)) P ∧
      P.shared.dumpMode = QCOM_DOWNLOAD_FULLDUMP ∧
      P.shared.regs someNode.address = QCOM_DOWNLOAD_MINIDUMP ∧
      ∃ t, P.shared.window t = some (P.shared.regs someNode.address) := by
  obtain ⟨⟨running, shared⟩, hreach, hidle, rfl⟩ := dloadSystem_creates fun _ => 0
  have hstart := hreach.start 1 (.write "mini\n".toList 5) (hidle 1 (by decide)) ⟨.inr rfl, rfl⟩
    trivial
  have hwritten := (hstart.call 1 someNode.address rfl rfl trivial).call 1 (0 : Int) rfl rfl
    fun _ _ _ => rfl
  refine ⟨_, hwritten, rfl, rfl, (dloadSystem_agrees hwritten rfl).1.resolve_left fun heq => ?_⟩
  have hne : QCOM_DOWNLOAD_FULLDUMP ≠ QCOM_DOWNLOAD_MINIDUMP := by decide
  exact hne heq

/-- Two users write the file at once: the register is left with the mode of one of them, and the
mode of the other is shown. -/
theorem not_dloadSystem_agrees : ¬ ∀ P : DloadPool Nat,
    (dloadSystem Nat someNode).Reach Move.any (.quiet (.fresh fun _ => 0)) P →
      P.shared.known = true → P.shared.dumpMode = P.shared.regs someNode.address ∨
        ∃ t, P.shared.window t = some (P.shared.regs someNode.address) := by
  obtain ⟨⟨running, shared⟩, hturns, hidle, rfl⟩ := dloadSystem_creates fun _ => 0
  have hreach : (dloadSystem Nat someNode).Reach Move.any (.quiet (.fresh fun _ => 0))
    ⟨running, _⟩ := hturns.mono fun _ _ _ => trivial
  have hmini := ((hreach.start 1 (.write "mini\n".toList 5) (hidle 1 (by decide)) ⟨.inr rfl, rfl⟩
    trivial).call 1 someNode.address rfl rfl trivial).call 1 (0 : Int) rfl rfl trivial
  have hboth := (((hmini.start 2 (.write "both\n".toList 5) (hidle 2 (by decide)) ⟨.inr rfl, rfl⟩
    trivial).call 2 someNode.address rfl rfl trivial).call 2 (0 : Int) rfl rfl trivial).call 2 ()
    rfl rfl trivial
  have hlate := hboth.call 1 () rfl rfl trivial
  intro hall
  rcases hall _ hlate rfl with heq | ⟨t, hopen⟩
  · have hne : QCOM_DOWNLOAD_MINIDUMP ≠ QCOM_DOWNLOAD_BOTHDUMP := by decide
    exact hne heq
  · have hclosed : ∀ w : Nat → Option U32, (∀ u, u ≠ 1 → u ≠ 2 → w u = none) →
        Function.update (Function.update w 2 none) 1 none t = none := by
      intro w hw
      by_cases h1 : t = 1
      · rw [h1, Function.update_self]
      · rw [Function.update_of_ne h1]
        by_cases h2 : t = 2
        · rw [h2, Function.update_self]
        · rw [Function.update_of_ne h2, hw t h1 h2]
    have hnone := hclosed (Function.update (Function.update (fun _ => none) 1
      (some QCOM_DOWNLOAD_MINIDUMP)) 2 (some QCOM_DOWNLOAD_BOTHDUMP)) fun u h1 h2 => by
        rw [Function.update_of_ne h2, Function.update_of_ne h1]
    cases hopen.symm.trans hnone

end SafeLinux.DloadMode
