import SafeLinux.Kiumd.Backing

/-!
# The entries of the tables are valid

`settled_run_tables_valid`: in a run of ioctls that reach none of the failures of `Ioctl.Settled`
every entry of every table names only what is alive.
-/

namespace SafeLinux.Kiumd

open Effects Ledgers

variable {w w₀ : World} {history : History Ioctl KCall}

/-- What the entry `p` names is alive: a buffer with its attachment and mapping, or an MMIO
mapping. -/
inductive ValidEntry (w : World) (p : Nat) : Prop where
  | buffer (d : DmaBuf) (a : Attachment) (t : SgTable)
      (dmabuf : (w.smaps p).dmabufPtr = some d) (attach : (w.smaps p).dmabufattach = some a)
      (sgt : (w.smaps p).sgtPtr = some t) (attached : .attachment a ∈ w.held)
      (mapped : .mapping a.dev t ∈ w.held) (referenced : .dmabuf d ∈ w.held)
  | mmio (m : Nat) (context : (w.smaps p).context = some m) (allocated : .mmioCtx m ∈ w.held)
      (mapped : mmioNeeds (w.mmioCtxs m) ∈ w.held)

/-- Every entry of every table is valid, and all entries together own as many references,
attachments and mappings as they need. -/
structure TablesValid (w : World) : Prop where
  valid : ∀ c, ∀ p ∈ w.table c, .smap p ∈ w.held ∧ ValidEntry w p
  owned : ∀ C : Finset Nat, demand w.table (w.entryNeeds bufferNeeds) C ≤ w.held

theorem Backed.tablesValid (h : Backed bufferNeeds w 0) : TablesValid w := by
  refine ⟨?_, ?_⟩
  · intro c p hp
    refine ⟨h.smap_mem hp, ?_⟩
    have hneeds := h.needs_le hp
    cases h.shaped c p hp with
    | buffer d a hbuffer =>
        rw [hbuffer.entryNeeds_eq] at hneeds
        refine .buffer d a a.table hbuffer.dmabuf hbuffer.attach hbuffer.sgt ?_ ?_ ?_ <;>
          exact Multiset.mem_of_le hneeds (by simp [bufferNeeds])
    | mmio m hcontext _ _ =>
        rw [entryNeeds_mmio hcontext] at hneeds
        refine .mmio m hcontext ?_ ?_ <;> exact Multiset.mem_of_le hneeds (by simp)
  · intro C
    simpa using h.covers C

/-- In every run of settled ioctls on any contexts all entries of all tables are valid. -/
theorem settled_run_tables_valid (hstart : w₀.Fresh)
    (h : Run kernel kiumdIoctl Ioctl.Settled w₀ history w) : TablesValid w :=
  (run_backed hstart h).1.tablesValid

/-- A run in which an entry is added. -/
theorem settled_run_tables_valid_map : ∃ history w,
    Run kernel kiumdIoctl Ioctl.Settled World.initial history w ∧ w.table 0 ≠ [] ∧
      TablesValid w := by
  have hcheck : (kiumdIoctl ⟨0, .mapBuf plainUser⟩).check kernel
      (Answers.plain fun _ _ => false).choose .initial
      (fun trace _ w => decide (¬ CopyFailed trace) && decide (w.table 0 ≠ [])) = true := by
    decide +kernel
  obtain ⟨trace, value, w, hexec, htest⟩ := Program.check_exec hcheck
  simp only [Bool.and_eq_true, decide_eq_true_eq] at htest
  have hrun : Run kernel kiumdIoctl Ioctl.Settled World.initial
      [(⟨0, .mapBuf plainUser⟩, trace)] w := .request .start hexec htest.1
  exact ⟨_, w, hrun, htest.2, settled_run_tables_valid fresh_initial hrun⟩

/-- After MAP_BUF could not copy its reply, the table has an entry without its attachment. -/
theorem map_buf_leaves_invalid_entry : ∃ w₀ history w, World.Fresh w₀ ∧
    Run kernel kiumdIoctl .any w₀ history w ∧ ¬ TablesValid w := by
  have hcheck : (kiumdIoctl ⟨0, .mapBuf plainUser⟩).check kernel
      (Answers.plain KCall.isCopyToUser).choose .initial
      (fun _ _ w => (w.table 0).any fun p => (w.smaps p).context.isNone &&
        (w.smaps p).dmabufattach.all fun a => decide (.attachment a ∉ w.held)) = true := by
    decide +kernel
  obtain ⟨trace, value, w, hexec, htest⟩ := Program.check_exec hcheck
  refine ⟨_, _, w, fresh_initial, .request .start hexec trivial, fun hvalid => ?_⟩
  obtain ⟨p, hp, hentry⟩ := List.any_eq_true.mp htest
  rw [Bool.and_eq_true, Option.isNone_iff_eq_none] at hentry
  cases (hvalid.valid 0 p hp).2 with
  | buffer d a t dmabuf attach sgt attached mapped referenced =>
      rw [attach, Option.all_some, decide_eq_true_eq] at hentry
      exact hentry.2 attached
  | mmio m context allocated mapped =>
      rw [context] at hentry
      exact absurd hentry.1 (Option.some_ne_none m)

end SafeLinux.Kiumd
