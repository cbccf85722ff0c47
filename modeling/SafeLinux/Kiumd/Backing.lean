import SafeLinux.Kiumd.Ioctl
import SafeLinux.Kiumd.MmioOutcome
import SafeLinux.Kiumd.SecureOutcome
import SafeLinux.Ledgers.Basic

/-!
# What the entries of the tables own

Each entry of a hash table needs its own memory and what it names: a buffer with its attachment and
mapping, or an MMIO mapping. A state is `Backed` when what is held covers the needs of all entries
of all tables. Every ioctl keeps a state backed as far as the memory of the entries and the MMIO
mappings are concerned (`kiumdIoctl_keeps`); the buffers are backed as well unless the ioctl reaches
one of the failures that leave an entry behind whose buffer has been released
(`kiumdIoctl_backed`).
-/

namespace SafeLinux.Kiumd

open Effects Ledgers

/-! ## What an entry needs -/

/-- What an entry is taken to need of its buffer. -/
abbrev BufferNeeds : Type := DmaBuf → Attachment → Multiset Resource

/-- Nothing. -/
def noNeeds : BufferNeeds := fun _ _ => 0

/-- What an entry with these data needs besides its own memory. -/
def SmmuMapData.needs (data : SmmuMapData) (buffers : BufferNeeds)
    (mmioCtxs : Nat → KiumdSmmuMmioCtx) : Multiset Resource :=
  match data.context with
  | some m => .mmioCtx m ::ₘ mmioNeeds (mmioCtxs m) ::ₘ 0
  | none =>
      match data.dmabufPtr, data.dmabufattach with
      | some d, some a => buffers d a
      | _, _ => 0

/-- What the entry `p` needs. -/
def World.entryNeeds (w : World) (buffers : BufferNeeds) (p : Nat) : Multiset Resource :=
  .smap p ::ₘ (w.smaps p).needs buffers w.mmioCtxs

variable {buffers : BufferNeeds} {b w w' : World} {c p m : Nat} {x : Multiset Resource}
  {d : DmaBuf} {a : Attachment} {data : SmmuMapData} {r : Resource}

theorem IsBuffer.needs_eq (h : IsBuffer data d a) (mmioCtxs : Nat → KiumdSmmuMmioCtx) :
    data.needs buffers mmioCtxs = buffers d a := by
  simp [SmmuMapData.needs, h.context, h.dmabuf, h.attach]

theorem needs_mmio (h : data.context = some m) (mmioCtxs : Nat → KiumdSmmuMmioCtx) :
    data.needs buffers mmioCtxs = .mmioCtx m ::ₘ mmioNeeds (mmioCtxs m) ::ₘ 0 := by
  simp [SmmuMapData.needs, h]

theorem smap_mem_entryNeeds (w : World) (p : Nat) : .smap p ∈ w.entryNeeds buffers p :=
  Multiset.mem_cons_self _ _

theorem IsBuffer.entryNeeds_eq (h : IsBuffer (w.smaps p) d a) :
    w.entryNeeds buffers p = .smap p ::ₘ buffers d a := by
  rw [World.entryNeeds, h.needs_eq]

theorem entryNeeds_mmio (h : (w.smaps p).context = some m) :
    w.entryNeeds buffers p = .smap p ::ₘ .mmioCtx m ::ₘ mmioNeeds (w.mmioCtxs m) ::ₘ 0 := by
  rw [World.entryNeeds, needs_mmio h]

/-- The needs of an entry depend on the entry and on its MMIO context. -/
theorem entryNeeds_congr (hsmaps : w'.smaps p = w.smaps p)
    (hmmio : ∀ m, (w.smaps p).context = some m → w'.mmioCtxs m = w.mmioCtxs m) :
    w'.entryNeeds buffers p = w.entryNeeds buffers p := by
  unfold World.entryNeeds
  rw [hsmaps]
  cases hcontext : (w.smaps p).context with
  | some m => rw [needs_mmio hcontext, needs_mmio hcontext, hmmio m hcontext]
  | none => simp [SmmuMapData.needs, hcontext]

/-! ## Backed states -/

/-- The entries of the tables have what they need in what is held together with `x`, and the
contexts have nothing else. -/
structure Backed (buffers : BufferNeeds) (w : World) (x : Multiset Resource) : Prop where
  shaped : ∀ c, ∀ p ∈ w.table c, Shaped (w.smaps p)
  covers : Covers w.table (w.entryNeeds buffers) (w.held + x)
  rest_nil : ∀ c, w.rest c = (none, [])

namespace Backed

theorem needs_le (h : Backed buffers w 0) (hp : p ∈ w.table c) :
    w.entryNeeds buffers p ≤ w.held := by
  simpa using h.covers.needs_le hp

theorem smap_mem (h : Backed buffers w 0) (hp : p ∈ w.table c) : .smap p ∈ w.held :=
  Multiset.mem_of_le (h.needs_le hp) (smap_mem_entryNeeds w p)

theorem mmioCtx_mem (h : Backed buffers w 0) (hp : p ∈ w.table c)
    (hm : (w.smaps p).context = some m) : .mmioCtx m ∈ w.held := by
  refine Multiset.mem_of_le (h.needs_le hp) ?_
  simp [entryNeeds_mmio hm]

/-- Code that changes no table keeps a state backed by what it hands over. -/
theorem frame (h : Backed buffers b x) (hf : Frame b w x) (hsmap : ∀ p, .smap p ∉ x)
    (hmmio : ∀ m, .mmioCtx m ∉ x) : Backed buffers w 0 := by
  have htable : w.table = b.table := by
    funext c
    simp [World.table, hf.ctxs]
  have hneeds : ∀ c, ∀ p ∈ b.table c, w.smaps p = b.smaps p ∧
      b.entryNeeds buffers p = w.entryNeeds buffers p := by
    intro c p hp
    have hheld : ∀ r ∈ b.entryNeeds buffers p, r ∈ b.held ∨ r ∈ x := fun r hr =>
      Multiset.mem_add.mp (h.covers.mem hp hr)
    have hsmaps : w.smaps p = b.smaps p :=
      hf.smaps p ((hheld _ (smap_mem_entryNeeds b p)).resolve_right (hsmap p))
    refine ⟨hsmaps, (entryNeeds_congr hsmaps ?_).symm⟩
    intro m hm
    refine hf.mmioCtxs m ((hheld _ ?_).resolve_right (hmmio m))
    simp [entryNeeds_mmio hm]
  refine ⟨?_, ?_, ?_⟩
  · intro c p hp
    rw [htable] at hp
    rw [(hneeds c p hp).1]
    exact h.shaped c p hp
  · rw [htable, add_zero]
    exact (h.covers.congr fun c p hp => (hneeds c p hp).2).mono hf.held
  · intro c
    rw [World.rest, hf.ctxs]
    exact h.rest_nil c

/-- A new entry is added together with what it needs. -/
theorem add (h : Backed buffers b 0) (fresh : .smap p ∉ b.held)
    (htable : w.table = Function.update b.table c (p :: b.table c))
    (hsmaps : ∀ q ≠ p, w.smaps q = b.smaps q)
    (hmmio : ∀ m, .mmioCtx m ∈ b.held → w.mmioCtxs m = b.mmioCtxs m) (hrest : w.rest = b.rest)
    (hshaped : Shaped (w.smaps p)) (hheld : w.entryNeeds buffers p + b.held ≤ w.held + x) :
    Backed buffers w x := by
  have hne : ∀ c, ∀ q ∈ b.table c, q ≠ p := by
    rintro c q hq rfl
    exact fresh (h.smap_mem hq)
  have hneeds : ∀ c, ∀ q ∈ b.table c, b.entryNeeds buffers q = w.entryNeeds buffers q := by
    intro c q hq
    refine (entryNeeds_congr (hsmaps q (hne c q hq)) ?_).symm
    intro m hm
    exact hmmio m (h.mmioCtx_mem hq hm)
  refine ⟨?_, ?_, ?_⟩
  · intro c' q hq
    by_cases hqp : q = p
    · rwa [hqp]
    · have hq' : q ∈ b.table c' := by
        by_cases hc : c' = c
        · subst hc
          simpa [htable, hqp] using hq
        · simpa [htable, hc] using hq
      rw [hsmaps q hqp]
      exact h.shaped c' q hq'
  · rw [htable]
    refine ((h.covers.congr hneeds).cons c p).mono ?_
    simpa using hheld
  · rw [hrest]
    exact h.rest_nil

/-- An entry is removed, and what it needed may go. -/
theorem drop (h : Backed buffers b 0) (hp : p ∈ b.table c)
    (htable : w.table = Function.update b.table c ((b.table c).erase p))
    (hsmaps : w.smaps = b.smaps) (hmmio : w.mmioCtxs = b.mmioCtxs) (hrest : w.rest = b.rest)
    (hheld : b.held - b.entryNeeds buffers p ≤ w.held) : Backed buffers w 0 := by
  have hneeds : w.entryNeeds buffers = b.entryNeeds buffers := by
    funext q
    simp [World.entryNeeds, hsmaps, hmmio]
  refine ⟨?_, ?_, ?_⟩
  · intro c' q hq
    have hq' : q ∈ b.table c' := by
      by_cases hc : c' = c
      · subst hc
        rw [htable, Function.update_self] at hq
        exact List.mem_of_mem_erase hq
      · simpa [htable, hc] using hq
    rw [hsmaps]
    exact h.shaped c' q hq'
  · rw [htable, hneeds]
    refine (h.covers.remove hp).mono ?_
    simpa using hheld
  · rw [hrest]
    exact h.rest_nil

/-- What no entry needs may go. -/
theorem release (h : Backed buffers b 0)
    (hr : ∀ c, ∀ p ∈ b.table c, r ∉ b.entryNeeds buffers p) : Backed buffers (b.release r) 0 := by
  have hcovers : Covers b.table (b.entryNeeds buffers) b.held := by simpa using h.covers
  refine ⟨h.shaped, ?_, h.rest_nil⟩
  rw [add_zero]
  exact hcovers.erase hr

end Backed

/-! ## Changes of the tables -/

@[simp] theorem World.table_publish (w : World) (c p : Nat) (data : SmmuMapData) :
    (w.publish c p data).table = Function.update w.table c (p :: w.table c) := by
  funext c'
  by_cases hc : c' = c
  · subst hc
    simp [World.table, World.publish, World.setCtx]
  · simp [World.table, World.publish, World.setCtx, hc]

@[simp] theorem World.table_publishMmio (w : World) (c p m : Nat) (mmio : KiumdSmmuMmioCtx) :
    (w.publishMmio c p m mmio).table = Function.update w.table c (p :: w.table c) :=
  w.table_publish c p { context := some m }

@[simp] theorem World.table_unlink (w : World) (c p : Nat) :
    (w.unlink c p).table = Function.update w.table c ((w.table c).erase p) := by
  funext c'
  by_cases hc : c' = c
  · subst hc
    simp [World.table, World.unlink, World.setCtx]
  · simp [World.table, World.unlink, World.setCtx, hc]

@[simp] theorem World.table_skipId (w : World) (c : Nat) : (w.skipId c).table = w.table := by
  funext c'
  by_cases hc : c' = c
  · subst hc
    simp [World.table, World.skipId, World.setCtx]
  · simp [World.table, World.skipId, World.setCtx, hc]

/-- A change of a context's id and table leaves the rest of the context. -/
theorem World.rest_setCtx (w : World) (c : Nat) (f : KiumdCtx → KiumdCtx)
    (hf : ∀ k, (f k).resMemArea = k.resMemArea ∧ (f k).kiumdXa = k.kiumdXa) :
    (w.setCtx c f).rest = w.rest := by
  funext c'
  by_cases hc : c' = c
  · subst hc
    simp [World.rest, hf]
  · simp [World.rest, World.setCtx, hc]

theorem World.rest_publish (w : World) (c p : Nat) (data : SmmuMapData) :
    (w.publish c p data).rest = w.rest :=
  w.rest_setCtx c (fun k => { k with id := k.id + 1, smmuTable := p :: k.smmuTable })
    fun _ => ⟨rfl, rfl⟩

theorem World.rest_unlink (w : World) (c p : Nat) : (w.unlink c p).rest = w.rest :=
  w.rest_setCtx c (fun k => { k with smmuTable := k.smmuTable.erase p }) fun _ => ⟨rfl, rfl⟩

theorem World.rest_skipId (w : World) (c : Nat) : (w.skipId c).rest = w.rest :=
  w.rest_setCtx c (fun k => { k with id := k.id + 1 }) fun _ => ⟨rfl, rfl⟩

/-! ## Adding an entry -/

/-- A buffer is still that of an entry whatever id the entry is given. -/
theorem IsBuffer.withId (h : IsBuffer data d a) (id : U32) : IsBuffer { data with id := id } d a :=
  ⟨h.dmabuf, h.attach, h.sgt, h.context, h.fits, h.device⟩

theorem Backed.publish (h : Backed buffers b 0) (fresh : .smap p ∉ b.held)
    (hbuffer : IsBuffer data d a) : Backed buffers (b.publish c p data) (buffers d a) := by
  have hdata : (b.publish c p data).smaps p = { data with id := (b.ctxs c).id } := by
    simp [World.publish]
  have hbuffer' : IsBuffer ((b.publish c p data).smaps p) d a := by
    rw [hdata]
    exact hbuffer.withId _
  refine h.add fresh (b.table_publish c p data) ?_ (fun _ _ => rfl) (b.rest_publish c p data)
    (.buffer d a hbuffer') (le_of_eq ?_)
  · intro q hq
    simp [World.publish, hq]
  · rw [hbuffer'.entryNeeds_eq]
    simp only [World.publish, ← Multiset.singleton_add]
    ac_rfl

theorem Backed.publishMmio {mmio : KiumdSmmuMmioCtx} (h : Backed buffers b 0)
    (fresh : .smap p ∉ b.held) (freshMmio : .mmioCtx m ∉ b.held) :
    Backed buffers (b.publishMmio c p m mmio) (mmioNeeds mmio ::ₘ 0) := by
  have hdata : ((b.publishMmio c p m mmio).smaps p).context = some m := by
    simp [World.publishMmio, World.publish]
  refine h.add fresh (b.table_publishMmio c p m mmio) ?_ ?_
    (b.rest_publish c p { context := some m }) ?_ (le_of_eq ?_)
  · intro q hq
    simp [World.publishMmio, World.publish, hq]
  · intro n hn
    have hne : n ≠ m := by
      rintro rfl
      exact freshMmio hn
    simp [World.publishMmio, hne]
  · refine .mmio m hdata ?_ ?_ <;> simp [World.publishMmio, World.publish]
  · rw [entryNeeds_mmio hdata]
    simp only [World.publishMmio, World.publish, Function.update_self, ← Multiset.singleton_add]
    ac_rfl

theorem Backed.skipId (h : Backed buffers b 0) (c : Nat) : Backed buffers (b.skipId c) 0 := by
  refine ⟨?_, ?_, ?_⟩
  · rw [World.table_skipId]
    exact h.shaped
  · rw [World.table_skipId]
    exact h.covers
  · rw [World.rest_skipId]
    exact h.rest_nil

/-! ## Removing an entry -/

/-- Two attachments with the same id are the same. -/
theorem attachment_unique {a' : Attachment} (h : w.attachmentIds.Nodup)
    (ha : .attachment a ∈ w.held) (ha' : .attachment a' ∈ w.held) (hid : a.id = a'.id) :
    a = a' := by
  by_contra hne
  have hle : .attachment a ::ₘ .attachment a' ::ₘ 0 ≤ w.held := by
    obtain ⟨rest, hrest⟩ := Multiset.exists_cons_of_mem ha
    rw [hrest] at ha' ⊢
    refine Multiset.cons_le_cons _ (Multiset.singleton_le.mpr ?_)
    refine (Multiset.mem_cons.mp ha').resolve_left fun heq => hne ?_
    cases heq
    rfl
  have hnodup : (a.id ::ₘ a'.id ::ₘ 0 : Multiset Nat).Nodup :=
    Multiset.nodup_of_le (Multiset.filterMap_le_filterMap Resource.attachmentId hle) h
  rw [hid] at hnodup
  exact (Multiset.nodup_cons.mp hnodup).1 (Multiset.mem_cons_self _ _)

/-- The buffer, the attachment and the table that an unmapping finds are those of the entry. -/
theorem Unmaps.isBuffer {dev : Device} {t : SgTable} (h : Unmaps data d a dev t)
    (hshaped : Shaped data) : IsBuffer data d a ∧ t = a.table := by
  cases hshaped with
  | mmio m _ hdmabuf _ =>
      have hd := h.dmabuf
      rw [hdmabuf] at hd
      cases hd
  | buffer d' a' hbuffer =>
      have hd := h.dmabuf
      have ha := h.attach
      rw [hbuffer.dmabuf] at hd
      rw [hbuffer.attach] at ha
      cases hd
      cases ha
      refine ⟨hbuffer, ?_⟩
      rcases h.table with ⟨ht, _⟩ | hpriv
      · rw [hbuffer.sgt] at ht
        cases ht
        rfl
      · simpa [hpriv] using hbuffer.fits.2.2.2

/-- Only the entry of an attachment needs a mapping of its table. -/
theorem Backed.mapping_unneeded {dev : Device} (h : Backed bufferNeeds w 0)
    (hids : w.attachmentIds.Nodup)
    (ha : .attachment a ∈ w.held) (hdev : dev ≠ a.dev) :
    ∀ c, ∀ q ∈ w.table c, .mapping dev a.table ∉ w.entryNeeds bufferNeeds q := by
  intro c q hq hmem
  cases h.shaped c q hq with
  | mmio m hcontext _ _ =>
      simp [entryNeeds_mmio hcontext, mmioNeeds] at hmem
  | buffer d' a' hbuffer =>
      have hneeds := h.needs_le hq
      rw [hbuffer.entryNeeds_eq] at hneeds hmem
      have ha' : .attachment a' ∈ w.held := Multiset.mem_of_le hneeds (by simp [bufferNeeds])
      obtain ⟨rfl, htable⟩ : dev = a'.dev ∧ a.table = a'.table := by
        simpa [bufferNeeds] using hmem
      have heq : a = a' := attachment_unique hids ha ha' (congrArg SgTable.attachment htable)
      exact hdev (by rw [heq])

/-- Deleting an entry and releasing its buffer keeps a state backed, even if the mapping is
released for another device. -/
theorem Backed.remove {dev : Device} {t : SgTable} (h : Backed bufferNeeds b 0)
    (hids : b.attachmentIds.Nodup) (hp : p ∈ b.table c) (hunmaps : Unmaps (b.smaps p) d a dev t) :
    Backed bufferNeeds (b.remove c p d a dev t) 0 := by
  obtain ⟨hbuffer, rfl⟩ := hunmaps.isBuffer (h.shaped c p hp)
  have hneeds : b.entryNeeds bufferNeeds p = .smap p ::ₘ bufferNeeds d a := hbuffer.entryNeeds_eq
  have htable : (b.remove c p d a dev a.table).table =
      Function.update b.table c ((b.table c).erase p) := b.table_unlink c p
  by_cases hdev : dev = a.dev
  · subst hdev
    refine h.drop hp htable rfl rfl (b.rest_unlink c p) (le_of_eq ?_)
    rw [hneeds]
    simp only [bufferNeeds, Multiset.sub_cons, Multiset.sub_zero]
    rw [Multiset.erase_comm _ (Resource.smap p)]
    rfl
  · have ha : .attachment a ∈ b.held := by
      refine Multiset.mem_of_le (h.needs_le hp) ?_
      simp [hneeds, bufferNeeds]
    have h₁ := h.release (h.mapping_unneeded hids ha hdev)
    refine h₁.drop hp htable rfl rfl (b.rest_unlink c p) ?_
    rw [show (b.release (.mapping dev a.table)).entryNeeds bufferNeeds p = _ from hneeds]
    simp only [bufferNeeds, Multiset.sub_cons, Multiset.sub_zero]
    rw [Multiset.erase_comm _ (Resource.smap p)]
    exact Multiset.erase_le_erase _ (Multiset.erase_le_erase _ (Multiset.erase_le_erase _
      (Multiset.erase_le _ _)))

/-- Apart from its memory an entry needs nothing but its MMIO mapping. -/
theorem mem_noNeeds (h : r ∈ w.entryNeeds noNeeds p) :
    r = .smap p ∨ ∃ m, (w.smaps p).context = some m ∧
      (r = .mmioCtx m ∨ r = mmioNeeds (w.mmioCtxs m)) := by
  cases hcontext : (w.smaps p).context with
  | some m =>
      rw [entryNeeds_mmio hcontext] at h
      simpa using h
  | none =>
      have hnone : (w.smaps p).needs noNeeds w.mmioCtxs = 0 := by
        simp only [SmmuMapData.needs, hcontext, noNeeds]
        split <;> rfl
      rw [World.entryNeeds, hnone] at h
      exact .inl (Multiset.mem_singleton.mp h)

theorem mapping_notMem_noNeeds {dev : Device} {t : SgTable} :
    .mapping dev t ∉ w.entryNeeds noNeeds p := by
  intro h
  obtain h | ⟨m, _, h | h⟩ := mem_noNeeds h <;> cases h

theorem attachment_notMem_noNeeds : .attachment a ∉ w.entryNeeds noNeeds p := by
  intro h
  obtain h | ⟨m, _, h | h⟩ := mem_noNeeds h <;> cases h

theorem dmabuf_notMem_noNeeds : .dmabuf d ∉ w.entryNeeds noNeeds p := by
  intro h
  obtain h | ⟨m, _, h | h⟩ := mem_noNeeds h <;> cases h

/-- Deleting an entry and releasing its buffer leaves the other entries their memory. -/
theorem Backed.remove_noNeeds {dev : Device} {t : SgTable} (h : Backed noNeeds b 0)
    (hp : p ∈ b.table c) (hunmaps : Unmaps (b.smaps p) d a dev t) :
    Backed noNeeds (b.remove c p d a dev t) 0 := by
  obtain ⟨hbuffer, -⟩ := hunmaps.isBuffer (h.shaped c p hp)
  have h₁ : Backed noNeeds (b.release (.mapping dev t)) 0 :=
    h.release fun _ _ _ => mapping_notMem_noNeeds
  have h₂ : Backed noNeeds ((b.release (.mapping dev t)).delete c p) 0 := by
    refine h₁.drop hp (b.table_unlink c p) rfl rfl (b.rest_unlink c p) (le_of_eq ?_)
    rw [show (b.release (.mapping dev t)).entryNeeds noNeeds p = _ from hbuffer.entryNeeds_eq]
    simp only [noNeeds, Multiset.sub_cons, Multiset.sub_zero]
    rfl
  have h₃ : Backed noNeeds (((b.release (.mapping dev t)).delete c p).release (.attachment a)) 0 :=
    h₂.release fun _ _ _ => attachment_notMem_noNeeds
  exact h₃.release fun _ _ _ => dmabuf_notMem_noNeeds

/-- Deleting an MMIO entry with its mapping keeps a state backed. -/
theorem Backed.removeMmio (h : Backed buffers b 0) (hp : p ∈ b.table c)
    (hcontext : (b.smaps p).context = some m) :
    Backed buffers (((b.release (mmioNeeds (b.mmioCtxs m))).release (.mmioCtx m)).delete c p)
      0 := by
  have hneeds : b.entryNeeds buffers p =
      mmioNeeds (b.mmioCtxs m) ::ₘ .mmioCtx m ::ₘ .smap p ::ₘ 0 := by
    rw [entryNeeds_mmio hcontext]
    simp only [← Multiset.singleton_add]
    ac_rfl
  refine h.drop hp (b.table_unlink c p) rfl rfl (b.rest_unlink c p) (le_of_eq ?_)
  rw [hneeds]
  simp only [Multiset.sub_cons, Multiset.sub_zero]
  rfl

/-! ## The ioctls -/

/-- The request reaches none of the failures that leave an entry behind: a reply that cannot be
copied after the entry has been published, or a failure of an unmap after the mapping has been
released. -/
def Ioctl.Settled : Admission Ioctl KCall World := fun _ i _ trace =>
  match i.request with
  | .mapBuf _ | .secureMap _ => ¬ CopyFailed trace
  | .unmapBuf kiusr => ¬ UnmapLate kiusr trace
  | .secureUnmap _ => ¬ SecureLate trace
  | .mmioMap _ _ | .mmioUnmap _ => True

section Outcomes

variable {kind : SmmuMapData → Attachment → Prop} {late : List (Event KCall) → Prop}
  {trace : List (Event KCall)}

theorem Backed.adds (h : Backed bufferNeeds b 0) (houtcome : AddOutcome b c kind trace w)
    (hcopied : ¬ CopyFailed trace) : Backed bufferNeeds w 0 := by
  cases houtcome with
  | refused frame => exact h.frame frame (by simp) (by simp)
  | published p d a data fresh buffer _ frame =>
      exact (h.publish fresh buffer).frame frame (by simp [bufferNeeds]) (by simp [bufferNeeds])
  | stale _ _ _ _ _ _ _ failed _ => exact absurd failed hcopied

theorem Backed.removes (h : Backed bufferNeeds b 0) (hids : b.attachmentIds.Nodup)
    (houtcome : RemoveOutcome b c late trace w) (hsettled : ¬ late trace) :
    Backed bufferNeeds w 0 := by
  cases houtcome with
  | kept frame => exact h.frame frame (by simp) (by simp)
  | half _ _ _ _ _ _ _ hlate _ => exact absurd hlate hsettled
  | removed p d a dev t hp hunmaps frame =>
      exact (h.remove hids hp hunmaps).frame frame (by simp) (by simp)

theorem Backed.adds_noNeeds (h : Backed noNeeds b 0) (houtcome : AddOutcome b c kind trace w) :
    Backed noNeeds w 0 := by
  cases houtcome with
  | refused frame => exact h.frame frame (by simp) (by simp)
  | published p d a data fresh buffer _ frame =>
      exact (h.publish fresh buffer).frame (frame.weaken (Multiset.zero_le _)) (by simp [noNeeds])
        (by simp [noNeeds])
  | stale p d a data fresh buffer _ _ frame =>
      exact (h.publish fresh buffer).frame frame (by simp [noNeeds]) (by simp [noNeeds])

theorem Backed.removes_noNeeds (h : Backed noNeeds b 0)
    (houtcome : RemoveOutcome b c late trace w) : Backed noNeeds w 0 := by
  cases houtcome with
  | kept frame => exact h.frame frame (by simp) (by simp)
  | half p d a dev t hp hunmaps _ frame =>
      exact (h.release fun _ _ _ => mapping_notMem_noNeeds).frame frame (by simp) (by simp)
  | removed p d a dev t hp hunmaps frame =>
      exact (h.remove_noNeeds hp hunmaps).frame frame (by simp) (by simp)

theorem Backed.addsMmio (h : Backed buffers b 0) (houtcome : AddMmioOutcome b c w) :
    Backed buffers w 0 := by
  cases houtcome with
  | refused frame => exact h.frame frame (by simp) (by simp)
  | retracted frame => exact (h.skipId c).frame frame (by simp) (by simp)
  | published p m mmio fresh freshMmio frame =>
      exact (h.publishMmio fresh freshMmio).frame frame (by simp [mmioNeeds]) (by simp [mmioNeeds])

theorem Backed.removesMmio (h : Backed buffers b 0) (houtcome : RemoveMmioOutcome b c w) :
    Backed buffers w 0 := by
  cases houtcome with
  | kept frame => exact h.frame frame (by simp) (by simp)
  | removed p m hp hcontext frame =>
      exact (h.removeMmio hp hcontext).frame frame (by simp) (by simp)

end Outcomes

/-- Every settled ioctl keeps a state backed. -/
theorem kiumdIoctl_backed (history : History Ioctl KCall) (i : Ioctl)
    (h : Backed bufferNeeds w 0) (hids : w.attachmentIds.Nodup) :
    wp kernel .any (kiumdIoctl i)
      (fun trace _ w' => Ioctl.Settled history i w trace → Backed bufferNeeds w' 0) w := by
  obtain ⟨c, request⟩ := i
  have hlive : ∀ p ∈ (w.ctxs c).smmuTable, .smap p ∈ w.held := fun p hp => h.smap_mem hp
  cases request with
  | mapBuf kiusr =>
      exact wp_mono kiumdDmabufVfioMap_adds fun _ _ _ houtcome => h.adds houtcome
  | unmapBuf kiusr =>
      exact wp_mono (kiumdDmabufVfioUnmap_removes hlive) fun _ _ _ houtcome =>
        h.removes hids houtcome
  | secureMap kiusr =>
      exact wp_mono kiumdDmabufVfioSecureMap_adds fun _ _ _ houtcome => h.adds houtcome
  | secureUnmap kiusr =>
      exact wp_mono (kiumdDmabufVfioSecureUnmap_removes hlive (h.shaped c)) fun _ _ _ houtcome =>
        h.removes hids houtcome
  | mmioMap ret₀ kiusr =>
      exact wp_mono kiumdMmioSmmuMap_adds fun _ _ _ houtcome _ => h.addsMmio houtcome
  | mmioUnmap kiusr =>
      exact wp_mono (kiumdMmioSmmuUnmap_removes hlive fun p hp m hm => h.mmioCtx_mem hp hm)
        fun _ _ _ houtcome _ => h.removesMmio houtcome

/-- Every ioctl leaves the entries their memory and their MMIO mappings. -/
theorem kiumdIoctl_keeps (i : Ioctl) (h : Backed noNeeds w 0) :
    wp kernel .any (kiumdIoctl i) (fun _ _ w' => Backed noNeeds w' 0) w := by
  obtain ⟨c, request⟩ := i
  have hlive : ∀ p ∈ (w.ctxs c).smmuTable, .smap p ∈ w.held := fun p hp => h.smap_mem hp
  cases request with
  | mapBuf kiusr =>
      exact wp_mono kiumdDmabufVfioMap_adds fun _ _ _ houtcome => h.adds_noNeeds houtcome
  | unmapBuf kiusr =>
      exact wp_mono (kiumdDmabufVfioUnmap_removes hlive) fun _ _ _ houtcome =>
        h.removes_noNeeds houtcome
  | secureMap kiusr =>
      exact wp_mono kiumdDmabufVfioSecureMap_adds fun _ _ _ houtcome => h.adds_noNeeds houtcome
  | secureUnmap kiusr =>
      exact wp_mono (kiumdDmabufVfioSecureUnmap_removes hlive (h.shaped c)) fun _ _ _ houtcome =>
        h.removes_noNeeds houtcome
  | mmioMap ret₀ kiusr =>
      exact wp_mono kiumdMmioSmmuMap_adds fun _ _ _ houtcome => h.addsMmio houtcome
  | mmioUnmap kiusr =>
      exact wp_mono (kiumdMmioSmmuUnmap_removes hlive fun p hp m hm => h.mmioCtx_mem hp hm)
        fun _ _ _ houtcome => h.removesMmio houtcome

/-! ## Runs -/

variable {w₀ : World} {history : History Ioctl KCall}

theorem World.Fresh.backed (h : w₀.Fresh) : Backed buffers w₀ 0 :=
  ⟨fun c p hp => by simp [h.table_nil c] at hp, .empty h.table_nil, h.rest_nil⟩

/-- Runs of settled ioctls keep a state backed and the ids of attachments apart. -/
theorem run_backed (hstart : w₀.Fresh) (h : Run kernel kiumdIoctl Ioctl.Settled w₀ history w) :
    Backed bufferNeeds w 0 ∧ w.attachmentIds.Nodup := by
  refine h.invariant (fun _ w => Backed bufferNeeds w 0 ∧ w.attachmentIds.Nodup)
    ⟨hstart.backed, hstart.attachments_nodup⟩ ?_
  rintro history i w ⟨hbacked, hids⟩
  refine wp_mono (wp_and (kiumdIoctl_backed history i hbacked hids)
    (wp_keep (fun _ _ _ _ hstep => attachmentIds_nodup_step hstep) hids)) ?_
  rintro trace _ w' ⟨hback, hids'⟩ hsettled
  exact ⟨hback hsettled, hids'⟩

/-- Every run leaves the entries their memory and their MMIO mappings. -/
theorem run_keeps {ok : Admission Ioctl KCall World} (hstart : w₀.Fresh)
    (h : Run kernel kiumdIoctl ok w₀ history w) : Backed noNeeds w 0 := by
  refine h.invariant (fun _ w => Backed noNeeds w 0) hstart.backed ?_
  intro history i w hbacked
  exact wp_mono (kiumdIoctl_keeps i hbacked) fun _ _ _ h' _ => h'

end SafeLinux.Kiumd
